import DanmakuChicken.BLive.Malformed

namespace DanmakuChicken.BLive

/-- A packet as its own header describes it; what follows the fields that are parsed may begin
with more header. -/
structure WholePacket where
  header : HeaderTuple
  rest : Bytes
  inRange : header.InRange
  totalLen : header.totalLen = headerSize + rest.length
  headerSize_le : headerSize ≤ header.headerLen
  headerLen_le : header.headerLen ≤ header.totalLen

namespace WholePacket

def bytes (p : WholePacket) : Bytes := Struct.pack headerStruct p.header.fields ++ p.rest

theorem length_bytes (p : WholePacket) : p.bytes.length = p.header.totalLen := by
  rw [bytes, List.length_append, length_pack p.inRange, p.totalLen]

/-- A command whose body is not understood: its exception ends the run. -/
def Raises (json : JsonModule) (p : WholePacket) : Prop :=
  p.header.operation = Operation.command.value ∧ ¬Understood json p.rest

end WholePacket

def join (packets : List WholePacket) : Bytes := (packets.map WholePacket.bytes).flatten

@[simp] theorem join_nil : join [] = [] := rfl

@[simp] theorem join_cons (p : WholePacket) (packets : List WholePacket) :
    join (p :: packets) = p.bytes ++ join packets := by simp [join]

@[simp] theorem join_append (a b : List WholePacket) : join (a ++ b) = join a ++ join b := by
  simp [join]

def Comes (json : JsonModule) (message : Bytes) (offset : ℕ) (header : HeaderTuple) : Prop :=
  ∃ log, Loop.Reaches (messagePass json message) ([], 0) (log, offset) ∧
    unpackFrom message offset = .ok header

def Interpreted (header : HeaderTuple) : Prop :=
  header.operation = Operation.command.value ∨ header.operation = Operation.popularity.value

/-- For each packet that the run comes to and interprets, the branch of its operation looks at
no bytes of the message but those of the packet's own body, after all of its header. -/
def ReadsOwn (json : JsonModule) (message : Bytes) : Prop :=
  ∀ offset header, Comes json message offset header → Interpreted header →
    ∀ k, Footprint.LooksAt (fun bytes => dispatch json bytes offset header) message.length k →
      offset + header.headerLen ≤ k ∧ k < offset + header.totalLen

def bodyEnd (header : HeaderTuple) : ℕ :=
  if header.operation = Operation.popularity.value then headerSize + 4 else header.totalLen

theorem getElem?_slice (message : Bytes) (start stop k : ℕ) :
    (slice message start stop)[k]? = if start + k < stop then message[start + k]? else none := by
  rw [slice, List.getElem?_drop, List.getElem?_take]

theorem slice_congr {message message' : Bytes} {start start' stop stop' : ℕ}
    (h : ∀ k, (if start + k < stop then message[start + k]? else none) =
      if start' + k < stop' then message'[start' + k]? else none) :
    slice message start stop = slice message' start' stop' := by
  apply List.ext_getElem?
  intro k
  rw [getElem?_slice, getElem?_slice, h]

theorem slice_append_right (before message : Bytes) (start stop : ℕ) :
    slice (before ++ message) (before.length + start) (before.length + stop) =
      slice message start stop := by
  apply slice_congr
  intro k
  have hlt : before.length + start + k < before.length + stop ↔ start + k < stop := by omega
  have hget : (before ++ message)[before.length + start + k]? = message[start + k]? := by
    rw [Nat.add_assoc, List.getElem?_append_right (Nat.le_add_right _ _), Nat.add_sub_cancel_left]
  simp only [hlt, hget]

theorem slice_append_left {message : Bytes} {start stop : ℕ} (following : Bytes)
    (h : stop ≤ message.length) : slice (message ++ following) start stop = slice message start stop := by
  apply slice_congr
  intro k
  split_ifs with hlt
  · exact List.getElem?_append_left (by omega)
  · rfl

variable (json : JsonModule)

def interpret (header : HeaderTuple) (body : Bytes) : Handler Unit :=
  if header.operation = Operation.popularity.value then
    Trace.emit (.onGetPopularity (Struct.decode body))
  else if header.operation = Operation.command.value then
    handleBody json body
  else if header.operation = Operation.recvHeartbeat.value then
    pure ()
  else
    Trace.emit (.unknownPacket header body)

theorem dispatch_eq_interpret (message : Bytes) (offset : ℕ) (header : HeaderTuple) :
    dispatch json message offset header =
      interpret json header
        (slice message (offset + headerSize) (offset + bodyEnd header)) := by
  unfold dispatch interpret bodyEnd
  split_ifs <;> rfl

def handlePacketBefore (p : WholePacket) (following : Bytes) : Handler Unit :=
  interpret json p.header (slice (p.bytes ++ following) headerSize (bodyEnd p.header))

def handlePackets : List WholePacket → Handler Unit
  | [] => pure ()
  | p :: packets => do
    handlePacketBefore json p (join packets)
    handlePackets packets

variable {json}

theorem unpackFrom_join (before : Bytes) (p : WholePacket) (following : Bytes) :
    unpackFrom (before ++ (p.bytes ++ following)) before.length = .ok p.header := by
  rw [WholePacket.bytes, List.append_assoc]
  exact unpackFrom_append p.inRange before _

theorem lt_length_join (before : Bytes) (p : WholePacket) (following : Bytes) :
    before.length < (before ++ (p.bytes ++ following)).length :=
  lt_length_of_unpackFrom (unpackFrom_join before p following)

theorem slice_join (before : Bytes) (p : WholePacket) (following : Bytes) :
    slice (before ++ (p.bytes ++ following)) (before.length + headerSize)
      (before.length + p.header.totalLen) = p.rest := by
  rw [p.totalLen]
  exact slice_append before following (length_pack p.inRange)

theorem dispatch_join (before : Bytes) (p : WholePacket) (following : Bytes) :
    dispatch json (before ++ (p.bytes ++ following)) before.length p.header =
      handlePacketBefore json p following := by
  rw [dispatch_eq_interpret, slice_append_right]
  rfl

theorem ends_join (before : Bytes) (log : List Event) (packets : List WholePacket) :
    Loop.Ends (messagePass json (before ++ join packets)) (log, before.length)
      ⟨log ++ (handlePackets json packets).log, (handlePackets json packets).result⟩ := by
  induction packets generalizing before log with
  | nil =>
    apply Loop.Ends.done
    rw [messagePass_end (by simp)]
    simp [handlePackets, Trace.pure_def]
  | cons p packets ih =>
    have hheader := unpackFrom_join before p (join packets)
    have hlt := lt_length_join before p (join packets)
    have hdispatch : dispatch json (before ++ (p.bytes ++ join packets)) before.length p.header =
        handlePacketBefore json p (join packets) := dispatch_join before p _
    rw [join_cons, handlePackets]
    cases hresult : (handlePacketBefore json p (join packets)).result with
    | error e =>
      rw [Trace.bind_error hresult]
      rw [← hdispatch] at hresult ⊢
      exact .done (messagePass_raise hlt hheader hresult)
    | ok u =>
      have hrest := ih (before ++ p.bytes) (log ++ (handlePacketBefore json p (join packets)).log)
      rw [List.append_assoc, List.length_append, p.length_bytes] at hrest
      rw [Trace.bind_ok hresult, ← List.append_assoc log]
      rw [← hdispatch] at hresult hrest ⊢
      exact .next (messagePass_next log hlt hheader hresult) hrest

theorem handleMessage_join (packets : List WholePacket) :
    handleMessage json (join packets) = some (handlePackets json packets) :=
  handleMessage_eq_some_iff.mpr (ends_join [] [] packets)

/-- The packets that are interpreted have no more header than is parsed, and a popularity that
another packet follows has the four bytes it is read from.  What is behind a command that raises
does not matter. -/
def OwnBodies (json : JsonModule) (packets : List WholePacket) : Prop :=
  ∀ before p after, packets = before ++ p :: after → (∀ q ∈ before, ¬q.Raises json) →
    Interpreted p.header →
      p.header.headerLen = headerSize ∧
        (p.header.operation = Operation.popularity.value →
          after = [] ∨ headerSize + 4 ≤ p.header.totalLen)

theorem dispatch_join_raises_iff (before : Bytes) (p : WholePacket) (following : Bytes) :
    (∃ e, (dispatch json (before ++ (p.bytes ++ following)) before.length p.header).result =
      .error e) ↔ p.Raises json := by
  rw [dispatch_raises_iff, slice_join]
  rfl

theorem messagePass_join (log : List Event) (before : List WholePacket) {p : WholePacket}
    (after : List WholePacket) (hp : ¬p.Raises json) :
    ∃ log', messagePass json (join (before ++ p :: after)) (log, (join before).length) =
      .inl (log', (join (before ++ [p])).length) := by
  have hlength : (join (before ++ [p])).length = (join before).length + p.header.totalLen := by
    simp [p.length_bytes]
  rw [join_append, join_cons, hlength]
  cases hresult : (dispatch json (join before ++ (p.bytes ++ join after)) (join before).length
      p.header).result with
  | ok u =>
    exact ⟨_, messagePass_next log (lt_length_join _ p _) (unpackFrom_join _ p _) hresult⟩
  | error e => exact absurd ((dispatch_join_raises_iff _ p _).mp ⟨e, hresult⟩) hp

theorem not_raises_of_messagePass {log : List Event} {before after : List WholePacket}
    {p : WholePacket} {t : List Event × ℕ}
    (h : messagePass json (join (before ++ p :: after)) (log, (join before).length) = .inl t) :
    ¬p.Raises json := by
  intro hraises
  rw [join_append, join_cons] at h
  obtain ⟨e, herror⟩ := (dispatch_join_raises_iff (join before) p (join after)).mpr hraises
  rw [messagePass_raise (lt_length_join _ p _) (unpackFrom_join _ p _) herror] at h
  cases h

theorem reaches_join (before after : List WholePacket) (h : ∀ q ∈ before, ¬q.Raises json) :
    ∃ log, Loop.Reaches (messagePass json (join (before ++ after))) ([], 0)
      (log, (join before).length) := by
  induction before using List.reverseRecOn generalizing after with
  | nil => exact ⟨[], .refl⟩
  | append_singleton before q ih =>
    rw [List.append_assoc, List.singleton_append]
    obtain ⟨log, hreaches⟩ := ih (q :: after) fun r hr => h r (by simp [hr])
    obtain ⟨log', hpass⟩ := messagePass_join log before after (h q (by simp))
    exact ⟨log', hreaches.tail hpass⟩

theorem of_reaches_join {packets : List WholePacket} {s : List Event × ℕ}
    (h : Loop.Reaches (messagePass json (join packets)) ([], 0) s) :
    ∃ before after, packets = before ++ after ∧ (∀ q ∈ before, ¬q.Raises json) ∧
      (join before).length = s.2 := by
  apply h.induction (I := fun s => ∃ before after, packets = before ++ after ∧
    (∀ q ∈ before, ¬q.Raises json) ∧ (join before).length = s.2) ⟨[], packets, rfl, by simp, rfl⟩
  rintro ⟨log, _⟩ t ⟨before, after, rfl, hbefore, rfl⟩ hnext
  cases after with
  | nil =>
    rw [messagePass_end (by simp)] at hnext
    cases hnext
  | cons p after =>
    have hp := not_raises_of_messagePass hnext
    obtain ⟨log', hpass⟩ := messagePass_join log before after hp
    rw [hpass] at hnext
    cases hnext
    exact ⟨before ++ [p], after, by simp,
      List.forall_mem_append.mpr ⟨hbefore, List.forall_mem_singleton.mpr hp⟩, rfl⟩

theorem comes_join_iff {packets : List WholePacket} {offset : ℕ} {header : HeaderTuple} :
    Comes json (join packets) offset header ↔
      ∃ before p after, packets = before ++ p :: after ∧ (∀ q ∈ before, ¬q.Raises json) ∧
        (join before).length = offset ∧ p.header = header := by
  constructor
  · rintro ⟨log, hreaches, hheader⟩
    obtain ⟨before, after, rfl, hbefore, rfl⟩ := of_reaches_join hreaches
    cases after with
    | nil =>
      have hlt := lt_length_of_unpackFrom hheader
      simp at hlt
    | cons p after =>
      rw [join_append, join_cons, unpackFrom_join] at hheader
      cases hheader
      exact ⟨before, p, after, rfl, hbefore, rfl, rfl⟩
  · rintro ⟨before, p, after, rfl, hbefore, rfl, rfl⟩
    obtain ⟨log, hreaches⟩ := reaches_join before (p :: after) hbefore
    refine ⟨log, hreaches, ?_⟩
    rw [join_append, join_cons]
    exact unpackFrom_join _ p _

theorem handleBody_ne_of_decode {body body' : Bytes} {text : String}
    (h : Utf8.decode body = some text) (h' : Utf8.decode body' = none) :
    handleBody json body' ≠ handleBody json body := by
  have hdecode : decodeBody body = .ok text := by rw [decodeBody, h]
  have hdecode' : decodeBody body' = .error .unicodeDecodeError := by rw [decodeBody, h']
  rw [handleBody, handleBody, hdecode, hdecode', Trace.ofExcept_ok_bind,
    Trace.ofExcept_error_bind]
  cases hload : json.load text with
  | ok command =>
    rw [Trace.ofExcept_ok_bind, Trace.emit_bind]
    intro heq
    cases heq
  | error e =>
    rw [Trace.ofExcept_error_bind]
    intro heq
    cases heq
    unfold JsonModule.load at hload
    split at hload <;> cases hload

-- one byte that starts no character, and the body is no text
theorem looksAt_handleBody {n k : ℕ} (h : k < n) : Footprint.LooksAt (handleBody json) n k := by
  have hencode (m : ℕ) : Utf8.encode (String.ofList (List.replicate m 'a')) =
      List.replicate m 97 := by
    rw [Utf8.encode_ofList fun c hc => by rw [List.eq_of_mem_replicate hc]; rfl,
      List.map_replicate]
    rfl
  refine ⟨List.replicate n 97, List.length_replicate, 128, ?_⟩
  rw [List.set_eq_take_append_cons_drop, List.length_replicate, if_pos h, List.take_replicate,
    min_eq_left h.le, ← hencode, ← hencode]
  exact handleBody_ne_of_decode (Utf8.decode_encode _)
    (Utf8.decode_encode_append_eq_none _ (by decide) _)

theorem looksAt_popularity {n k : ℕ} (h : k < n) :
    Footprint.LooksAt (fun body => (Trace.emit (.onGetPopularity (Struct.decode body)) :
      Handler Unit)) n k := by
  obtain ⟨bytes, hlength, b, hne⟩ := Struct.looksAt_decode h
  refine ⟨bytes, hlength, b, ?_⟩
  simpa [Trace.emit] using hne

theorem dispatch_looksAt_iff {offset n k : ℕ} {header : HeaderTuple} (h : Interpreted header) :
    Footprint.LooksAt (fun bytes => dispatch json bytes offset header) n k ↔
      offset + headerSize ≤ k ∧ k < offset + bodyEnd header ∧ k < n := by
  have hall (m j : ℕ) (hj : j < m) : Footprint.LooksAt (interpret json header) m j := by
    rcases h with hcommand | hpopularity
    · have hne : header.operation ≠ Operation.popularity.value := by
        rw [hcommand]
        decide
      have hinterpret : interpret json header = handleBody json := by
        funext body
        rw [interpret, if_neg hne, if_pos hcommand]
      rw [hinterpret]
      exact looksAt_handleBody hj
    · have hinterpret : interpret json header =
          fun body => Trace.emit (.onGetPopularity (Struct.decode body)) := by
        funext body
        rw [interpret, if_pos hpopularity]
      rw [hinterpret]
      exact looksAt_popularity hj
  simp only [dispatch_eq_interpret]
  exact Footprint.looksAt_slice_iff_of_forall hall

theorem ReadsOwn.ownBodies {packets : List WholePacket} (h : ReadsOwn json (join packets)) :
    OwnBodies json packets := by
  rintro before p after rfl hbefore hinterpreted
  have hreads := h _ _ (comes_join_iff.mpr ⟨before, p, after, rfl, hbefore, rfl, rfl⟩) hinterpreted
  simp only [dispatch_looksAt_iff hinterpreted] at hreads
  have hlength : (join (before ++ p :: after)).length =
      (join before).length + (p.header.totalLen + (join after).length) := by
    rw [join_append, join_cons, List.length_append, List.length_append, p.length_bytes]
  have hle := p.headerSize_le
  have hle' := p.headerLen_le
  have hend : bodyEnd p.header = headerSize + 4 ∨ bodyEnd p.header = p.header.totalLen := by
    unfold bodyEnd
    split_ifs
    · exact .inl rfl
    · exact .inr rfl
  constructor
  · -- otherwise the byte after the parsed fields is looked at, and is of the header
    by_contra hne
    have hown := (hreads ((join before).length + headerSize) ⟨le_rfl, by omega, by omega⟩).1
    omega
  · -- otherwise the byte after the packet is looked at
    intro hpopularity
    by_contra hshort
    rw [not_or, not_le] at hshort
    obtain ⟨hafter, hshort⟩ := hshort
    have hpositive : 0 < (join after).length := by
      cases after with
      | nil => exact absurd rfl hafter
      | cons q after =>
        have htotal := q.totalLen
        rw [join_cons, List.length_append, q.length_bytes, htotal, headerSize_eq]
        omega
    have hstop : bodyEnd p.header = headerSize + 4 := if_pos hpopularity
    have hown := (hreads ((join before).length + p.header.totalLen)
      ⟨by omega, by omega, by omega⟩).2
    exact lt_irrefl _ hown

theorem OwnBodies.readsOwn {packets : List WholePacket} (h : OwnBodies json packets) :
    ReadsOwn json (join packets) := by
  intro offset header hcomes hinterpreted k hlooks
  obtain ⟨before, p, after, rfl, hbefore, rfl, rfl⟩ := comes_join_iff.mp hcomes
  obtain ⟨hstart, hstop, hlength⟩ := (dispatch_looksAt_iff hinterpreted).mp hlooks
  obtain ⟨hheader, hbody⟩ := h before p after rfl hbefore hinterpreted
  refine ⟨by omega, ?_⟩
  rw [join_append, join_cons, List.length_append, List.length_append, p.length_bytes] at hlength
  unfold bodyEnd at hstop
  split_ifs at hstop with hpopularity
  · rcases hbody hpopularity with rfl | hlong
    · simpa using hlength
    · omega
  · exact hstop

theorem readsOwn_iff {packets : List WholePacket} :
    ReadsOwn json (join packets) ↔ OwnBodies json packets :=
  ⟨ReadsOwn.ownBodies, OwnBodies.readsOwn⟩

theorem OwnBodies.tail {p : WholePacket} {packets : List WholePacket}
    (h : OwnBodies json (p :: packets)) (hp : ¬p.Raises json) : OwnBodies json packets := by
  rintro before q after rfl hbefore
  exact h (p :: before) q after rfl (List.forall_mem_cons.mpr ⟨hp, hbefore⟩)

theorem not_raises_of_handlePacketBefore {p : WholePacket} {following : Bytes}
    (h : (handlePacketBefore json p following).result = .ok ()) : ¬p.Raises json := by
  intro hraises
  obtain ⟨e, herror⟩ := (dispatch_join_raises_iff [] p following).mpr hraises
  rw [dispatch_join, h] at herror
  cases herror

theorem handlePacketBefore_append {p : WholePacket} {a b : List WholePacket}
    (h : OwnBodies json (p :: (a ++ b))) :
    handlePacketBefore json p (join (a ++ b)) = handlePacketBefore json p (join a) := by
  have hshort (hstop : bodyEnd p.header ≤ p.bytes.length) (following : Bytes) :
      handlePacketBefore json p following =
        interpret json p.header (slice p.bytes headerSize (bodyEnd p.header)) := by
    rw [handlePacketBefore, slice_append_left following hstop]
  rw [p.length_bytes] at hshort
  by_cases hpopularity : p.header.operation = Operation.popularity.value
  · have hstop : bodyEnd p.header = headerSize + 4 := if_pos hpopularity
    rcases (h [] p (a ++ b) rfl (by simp) (.inr hpopularity)).2 hpopularity with hnil | hlong
    · rw [hnil, (List.append_eq_nil_iff.mp hnil).1]
    · rw [hshort (by omega), hshort (by omega)]
  · have hstop : bodyEnd p.header = p.header.totalLen := if_neg hpopularity
    rw [hshort hstop.le, hshort hstop.le]

theorem handlePackets_append {a b : List WholePacket} (h : OwnBodies json (a ++ b)) :
    handlePackets json (a ++ b) = handlePackets json a >>= fun _ => handlePackets json b := by
  induction a with
  | nil => exact (Trace.pure_bind PUnit.unit fun _ => handlePackets json b).symm
  | cons p a ih =>
    rw [List.cons_append, handlePackets, handlePackets, handlePacketBefore_append h,
      Trace.bind_assoc]
    cases hresult : (handlePacketBefore json p (join a)).result with
    | error e => rw [Trace.bind_error hresult, Trace.bind_error hresult]
    | ok u => rw [ih (h.tail (not_raises_of_handlePacketBefore hresult))]

/-- Handling the one message after the other does what handling their concatenation does, if
neither raises. -/
def HandledApart (json : JsonModule) (a b : List WholePacket) : Prop :=
  ∀ eventsA eventsB, handleMessage json (join a) = some ⟨eventsA, .ok ()⟩ →
    handleMessage json (join b) = some ⟨eventsB, .ok ()⟩ →
      handleMessage json (join a ++ join b) = some ⟨eventsA ++ eventsB, .ok ()⟩

theorem OwnBodies.handledApart {a b : List WholePacket} (h : OwnBodies json (a ++ b)) :
    HandledApart json a b := by
  intro eventsA eventsB ha hb
  rw [handleMessage_join, Option.some.injEq] at ha hb
  have hok : (handlePackets json a).result = .ok () := by rw [ha]
  rw [← join_append, handleMessage_join, handlePackets_append h, Trace.bind_ok hok, ha, hb]

theorem readsOwn_and_handledApart_iff (json : JsonModule) (a b : List WholePacket) :
    (ReadsOwn json (join a ++ join b) ∧ HandledApart json a b) ↔ OwnBodies json (a ++ b) := by
  rw [← join_append, readsOwn_iff]
  constructor
  · intro h
    exact h.1
  · intro h
    exact ⟨h, h.handledApart⟩

def bare (operation : Operation) : WholePacket where
  header := ⟨16, 16, 1, operation.value, 1⟩
  rest := []
  inRange := by cases operation <;> decide
  totalLen := rfl
  headerSize_le := le_rfl
  headerLen_le := le_rfl

theorem handlePackets_bare_popularity (packets : List WholePacket) :
    handlePackets json (bare .popularity :: packets) =
      Trace.emit (.onGetPopularity (Struct.decode (slice (join packets) 0 4))) >>= fun _ =>
        handlePackets json packets := by
  have hslice := slice_append_right (bare .popularity).bytes (join packets) 0 4
  have hlength : (bare .popularity).bytes.length = 16 := (bare .popularity).length_bytes
  rw [hlength] at hslice
  rw [← hslice]
  rfl

theorem not_readsOwn_bare :
    ¬∃ json : JsonModule, ReadsOwn json (join [bare .popularity] ++ join [bare .recvHeartbeat]) ∨
      HandledApart json [bare .popularity] [bare .recvHeartbeat] := by
  rintro ⟨json, h | h⟩
  · rw [← join_append, readsOwn_iff] at h
    have hbody := (h [] (bare .popularity) [bare .recvHeartbeat] rfl (by simp) (.inr rfl)).2 rfl
    simp [bare] at hbody
  · have hreply : handlePackets json [bare .recvHeartbeat] = ⟨[], .ok ()⟩ := rfl
    have halone : Struct.decode (slice (join []) 0 4) = 0 := by decide
    have hnext : Struct.decode (slice (join [bare .recvHeartbeat]) 0 4) = 16 := by decide
    have hapart := h [.onGetPopularity 0] []
    rw [← join_append, handleMessage_join, handleMessage_join, handleMessage_join, hreply,
      List.singleton_append, handlePackets_bare_popularity, handlePackets_bare_popularity, hreply,
      halone, hnext] at hapart
    cases hapart rfl rfl

end DanmakuChicken.BLive
