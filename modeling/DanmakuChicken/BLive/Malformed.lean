import DanmakuChicken.BLive.Message

namespace DanmakuChicken.BLive

/-- The offsets at which the packets of a message start, each where the header before it says. -/
inductive Packets (message : Bytes) : ℕ → Prop
  | start : Packets message 0
  | next {offset : ℕ} {header : HeaderTuple} (h : Packets message offset)
      (hheader : unpackFrom message offset = .ok header) :
      Packets message (offset + header.totalLen)

/-- A body that is the UTF-8 of a JSON text of commands the handler has an answer for. -/
def Understood (json : JsonModule) (body : Bytes) : Prop :=
  ∃ text command, Utf8.decode body = some text ∧ json.loads text = some command ∧
    ∀ single ∈ flatten command, Answerable single

def Malformed (json : JsonModule) (message : Bytes) : Prop :=
  ∃ offset header, Packets message offset ∧ unpackFrom message offset = .ok header ∧
    header.operation = Operation.command.value ∧
    ¬Understood json (slice message (offset + headerSize) (offset + header.totalLen))

def PyExc.IsContent : PyExc → Prop
  | .unicodeDecodeError | .jsonDecodeError | .keyError | .indexError | .typeError => True
  | _ => False

theorem getItem_errors (d : PyJson) (key : String) : (getItem d key).OnlyErrors PyExc.IsContent := by
  cases d with
  | obj members =>
    simp only [getItem]
    split
    · exact .ok _
    · exact .error trivial
  | null | bool | num | str | arr => exact .error trivial

theorem getIndex_errors (d : PyJson) (index : ℕ) :
    (getIndex d index).OnlyErrors PyExc.IsContent := by
  cases d with
  | arr items =>
    simp only [getIndex]
    split
    · exact .ok _
    · exact .error trivial
  | str s =>
    simp only [getIndex]
    split
    · exact .ok _
    · exact .error trivial
  | null | bool | num | obj => exact .error trivial

theorem danmakuArgs_errors (command : PyJson) :
    (danmakuArgs command).OnlyErrors PyExc.IsContent := by
  apply (getItem_errors command "info").bind
  intro info
  apply (getIndex_errors info 1).bind
  intro content
  apply (getItem_errors command "info").bind
  intro info
  apply (getIndex_errors info 2).bind
  intro user
  apply (getIndex_errors user 1).bind
  intro userName
  exact .ok _

theorem handleSingle_raises (command : PyJson) : (handleSingle command).Raises PyExc.IsContent := by
  apply (Trace.Raises.ofExcept (getItem_errors command "cmd")).bind
  intro cmd
  split
  · apply (Trace.Raises.ofExcept (danmakuArgs_errors command)).bind
    intro args
    exact .emit _
  · split
    · exact .pure _
    · exact .emit _

theorem handleCommand_raises (command : PyJson) :
    (handleCommand command).Raises PyExc.IsContent := by
  rw [handleCommand_eq_forEach]
  exact .forEach handleSingle_raises _

theorem handleBody_raises (json : JsonModule) (body : Bytes) :
    (handleBody json body).Raises PyExc.IsContent := by
  have hdecode : (decodeBody body).OnlyErrors PyExc.IsContent := by
    unfold decodeBody
    cases Utf8.decode body with
    | some text => exact .ok text
    | none => exact .error trivial
  have hload (text : String) : (json.load text).OnlyErrors PyExc.IsContent := by
    unfold JsonModule.load
    cases json.loads text with
    | some command => exact .ok command
    | none => exact .error trivial
  apply (Trace.Raises.ofExcept hdecode).bind
  intro text
  apply (Trace.Raises.ofExcept (hload text)).bind
  intro command
  exact .bind (.emit _) fun _ => handleCommand_raises command

variable {json : JsonModule} {message : Bytes} {offset : ℕ} {header : HeaderTuple}

theorem dispatch_raises : (dispatch json message offset header).Raises PyExc.IsContent := by
  by_cases h : header.operation = Operation.command.value
  · rw [dispatch_command h]
    exact handleBody_raises json _
  · intro e he
    rw [dispatch_of_ne_command h] at he
    cases he

theorem handleBody_raises_iff {body : Bytes} :
    (∃ e, (handleBody json body).result = .error e) ↔ ¬Understood json body := by
  cases htext : Utf8.decode body with
  | none =>
    have hdecode : decodeBody body = .error .unicodeDecodeError := by rw [decodeBody, htext]
    simp [handleBody, hdecode, Understood, htext]
  | some text =>
    cases hload : json.loads text with
    | none =>
      have hdecode : decodeBody body = .ok text := by rw [decodeBody, htext]
      have herror : json.load text = .error .jsonDecodeError := by rw [JsonModule.load, hload]
      simp [handleBody, hdecode, herror, Understood, htext, hload]
    | some command =>
      rw [handleBody_of_load htext hload]
      dsimp only
      rw [handleCommand_raises_iff]
      simp [Understood, htext, hload]

theorem dispatch_raises_iff :
    (∃ e, (dispatch json message offset header).result = .error e) ↔
      header.operation = Operation.command.value ∧
        ¬Understood json (slice message (offset + headerSize) (offset + header.totalLen)) := by
  by_cases h : header.operation = Operation.command.value
  · rw [dispatch_command h, handleBody_raises_iff]
    simp [h]
  · simp [dispatch_of_ne_command h, h]

theorem lt_length_of_unpackFrom (h : unpackFrom message offset = .ok header) :
    offset < message.length := by
  by_contra hle
  rw [unpackFrom_of_short (by rw [headerSize_eq]; omega)] at h
  cases h

theorem malformed_of_ends {s : List Event × ℕ} {r : Handler Unit} {e : PyExc}
    (h : Loop.Ends (messagePass json message) s r) (hs : Packets message s.2)
    (he : r.result = .error e) : Malformed json message ∧ e.IsContent := by
  induction h with
  | @done s r hdone =>
    obtain hok | ⟨header, -, hheader, ⟨-, hpass⟩ | ⟨e', herror, hpass⟩⟩ :=
      messagePass_cases json message s.1 s.2
    · rw [hdone] at hok
      cases hok
      cases he
    · rw [hdone] at hpass
      cases hpass
    · rw [hdone] at hpass
      cases hpass
      cases he
      exact ⟨⟨s.2, header, hs, hheader, dispatch_raises_iff.mp ⟨e, herror⟩⟩,
        dispatch_raises e herror⟩
  | @next s t r hnext _ ih =>
    obtain hok | ⟨header, -, hheader, ⟨-, hpass⟩ | ⟨e', -, hpass⟩⟩ :=
      messagePass_cases json message s.1 s.2
    · rw [hnext] at hok
      cases hok
    · rw [hnext] at hpass
      cases hpass
      exact ih (hs.next hheader) he
    · rw [hnext] at hpass
      cases hpass

theorem Packets.comes (h : Packets message offset) :
    (∃ log, ∀ r, Loop.Ends (messagePass json message) ([], 0) r ↔
        Loop.Ends (messagePass json message) (log, offset) r) ∨
      ∃ r e, Loop.Ends (messagePass json message) ([], 0) r ∧ r.result = .error e := by
  induction h with
  | start => exact .inl ⟨[], fun _ => .rfl⟩
  | @next offset header _ hheader ih =>
    cases ih with
    | inr hraised => exact .inr hraised
    | inl hcomes =>
      obtain ⟨log, hcomes⟩ := hcomes
      have hlt := lt_length_of_unpackFrom hheader
      cases hresult : (dispatch json message offset header).result with
      | ok u =>
        left
        refine ⟨log ++ (dispatch json message offset header).log, ?_⟩
        intro r
        rw [hcomes r]
        exact Loop.ends_iff_of_inl (messagePass_next log hlt hheader hresult)
      | error e =>
        right
        exact ⟨_, e, (hcomes _).mpr (.done (messagePass_raise hlt hheader hresult)), rfl⟩

theorem handleMessage_raises_iff :
    (∃ r e, handleMessage json message = some r ∧ r.result = .error e) ↔
      Malformed json message := by
  constructor
  · rintro ⟨r, e, hr, he⟩
    exact (malformed_of_ends (handleMessage_eq_some_iff.mp hr) .start he).1
  · rintro ⟨offset, header, hpackets, hheader, hoperation, hbody⟩
    have hraises : ∃ r e, Loop.Ends (messagePass json message) ([], 0) r ∧
        r.result = .error e := by
      cases hpackets.comes with
      | inr hraised => exact hraised
      | inl hcomes =>
        obtain ⟨log, hcomes⟩ := hcomes
        obtain ⟨e, herror⟩ := dispatch_raises_iff.mpr ⟨hoperation, hbody⟩
        have hlt := lt_length_of_unpackFrom hheader
        exact ⟨_, e, (hcomes _).mpr (.done (messagePass_raise hlt hheader herror)), rfl⟩
    obtain ⟨r, e, hr, he⟩ := hraises
    exact ⟨r, e, handleMessage_eq_some_iff.mpr hr, he⟩

theorem handleMessage_raises {r : Handler Unit} (h : handleMessage json message = some r) :
    r.Raises PyExc.IsContent :=
  fun _ he => (malformed_of_ends (handleMessage_eq_some_iff.mp h) .start he).2

/-- The length fields lead to a packet whose own length field is zero. -/
def Stalls (message : Bytes) : Prop :=
  ∃ offset header, Packets message offset ∧ unpackFrom message offset = .ok header ∧
    header.totalLen = 0

theorem not_ends_of_stalls (hstalls : Stalls message) (h : ¬Malformed json message)
    (r : Handler Unit) : ¬Loop.Ends (messagePass json message) ([], 0) r := by
  obtain ⟨offset, header, hpackets, hheader, hzero⟩ := hstalls
  cases @Packets.comes json _ _ hpackets with
  | inr hraised =>
    obtain ⟨r', e, hends, he⟩ := hraised
    exact absurd (malformed_of_ends hends .start he).1 h
  | inl hcomes =>
    obtain ⟨log, hcomes⟩ := hcomes
    cases hresult : (dispatch json message offset header).result with
    | ok u =>
      rw [hcomes r]
      exact not_ends_of_totalLen_zero (lt_length_of_unpackFrom hheader) hheader hzero hresult r
    | error e =>
      exact absurd ⟨offset, header, hpackets, hheader, dispatch_raises_iff.mp ⟨e, hresult⟩⟩ h

theorem ends_of_not_stalls (h : ¬Stalls message) :
    ∃ r, Loop.Ends (messagePass json message) ([], 0) r := by
  refine Loop.ends_of_measure (I := fun s => Packets message s.2)
    (f := fun s => message.length - s.2) ?_ .start
  rintro ⟨log, offset⟩ t hpackets hnext
  obtain hdone | ⟨header, hlt, hheader, ⟨-, hpass⟩ | ⟨e, -, hpass⟩⟩ :=
    messagePass_cases json message log offset
  · simp [hdone] at hnext
  · rw [hpass] at hnext
    cases hnext
    have hpos : header.totalLen ≠ 0 := fun hzero => h ⟨offset, header, hpackets, hheader, hzero⟩
    refine ⟨hpackets.next hheader, ?_⟩
    dsimp only
    omega
  · simp [hpass] at hnext

theorem messageLoop_ends_iff :
    (∃ r, Loop.Ends (messagePass json message) ([], 0) r) ↔
      Malformed json message ∨ ¬Stalls message := by
  constructor
  · rintro ⟨r, hr⟩
    by_cases h : Malformed json message
    · exact .inl h
    · exact .inr fun hstalls => not_ends_of_stalls hstalls h r hr
  · rintro (hmalformed | hstalls)
    · obtain ⟨r, -, hr, -⟩ := handleMessage_raises_iff.mpr hmalformed
      exact ⟨r, handleMessage_eq_some_iff.mp hr⟩
    · exact ends_of_not_stalls hstalls

def zeroLength : Bytes := [0, 0, 0, 0, 0, 16, 0, 1, 0, 0, 0, 8, 0, 0, 0, 1]

theorem not_ends_zeroLength :
    ¬∃ (json : JsonModule) (r : Handler Unit), Loop.Ends (messagePass json zeroLength) ([], 0) r := by
  rintro ⟨json, r, hr⟩
  have hheader : unpackFrom zeroLength 0 = .ok ⟨0, 16, 1, 8, 1⟩ := rfl
  exact not_ends_of_totalLen_zero (by decide) hheader rfl rfl r hr

end DanmakuChicken.BLive
