import DanmakuChicken.BLive.Command

namespace DanmakuChicken.BLive

variable (json : JsonModule)

def decodeBody (body : Bytes) : Except PyExc String :=
  match Utf8.decode body with
  | some text => .ok text
  | none => .error .unicodeDecodeError

def JsonModule.load (text : String) : Except PyExc PyJson :=
  match json.loads text with
  | some command => .ok command
  | none => .error .jsonDecodeError

def handleBody (body : Bytes) : Handler Unit := do
  let text ← Trace.ofExcept (decodeBody body)
  let command ← Trace.ofExcept (json.load text)
  Trace.emit (.handleCommand command)
  handleCommand command

def dispatch (message : Bytes) (offset : ℕ) (header : HeaderTuple) : Handler Unit :=
  if header.operation = Operation.popularity.value then
    Trace.emit (.onGetPopularity
      (Struct.decode (slice message (offset + headerSize) (offset + headerSize + 4))))
  else if header.operation = Operation.command.value then
    handleBody json (slice message (offset + headerSize) (offset + header.totalLen))
  else if header.operation = Operation.recvHeartbeat.value then
    pure ()
  else
    Trace.emit (.unknownPacket header (slice message (offset + headerSize) (offset + header.totalLen)))

/-- The loop body from the offset of a packet to that of the next, `none` after its `break`. -/
def handlePacket (message : Bytes) (offset : ℕ) : Handler (Option ℕ) :=
  match unpackFrom message offset with
  | .error .structError => pure none
  | .error e => Trace.ofExcept (.error e)
  | .ok header => do
    dispatch json message offset header
    return some (offset + header.totalLen)

def messagePass (message : Bytes) :
    List Event × ℕ → (List Event × ℕ) ⊕ Handler Unit :=
  Trace.whilePass (fun offset => offset < message.length) (handlePacket json message)

/-- `_handle_message`, `none` where it never returns. -/
def handleMessage (message : Bytes) : Option (Handler Unit) :=
  Loop.iter (messagePass json message) (message.length + 1) ([], 0)

variable {json} {message : Bytes} {offset : ℕ} {header : HeaderTuple} {log : List Event}

theorem dispatch_command (h : header.operation = Operation.command.value) :
    dispatch json message offset header =
      handleBody json (slice message (offset + headerSize) (offset + header.totalLen)) := by
  have hne : header.operation ≠ Operation.popularity.value := by
    rw [h]
    decide
  rw [dispatch, if_neg hne, if_pos h]

theorem dispatch_of_ne_command (h : header.operation ≠ Operation.command.value) :
    (dispatch json message offset header).result = .ok () := by
  rw [dispatch, if_neg h]
  split_ifs <;> rfl

theorem dispatch_recvHeartbeat (h : header.operation = Operation.recvHeartbeat.value) :
    dispatch json message offset header = pure () := by
  have hpopularity : header.operation ≠ Operation.popularity.value := by
    rw [h]
    decide
  have hcommand : header.operation ≠ Operation.command.value := by
    rw [h]
    decide
  rw [dispatch, if_neg hpopularity, if_neg hcommand, if_pos h]

theorem handleBody_of_load {body : Bytes} {text : String} {command : PyJson}
    (htext : Utf8.decode body = some text) (hload : json.loads text = some command) :
    handleBody json body =
      ⟨.handleCommand command :: (handleCommand command).log, (handleCommand command).result⟩ := by
  have hdecode : decodeBody body = .ok text := by rw [decodeBody, htext]
  have hcommand : json.load text = .ok command := by rw [JsonModule.load, hload]
  rw [handleBody, hdecode, Trace.ofExcept_ok_bind, hcommand, Trace.ofExcept_ok_bind,
    Trace.emit_bind]

theorem handlePacket_of_structError (h : unpackFrom message offset = .error .structError) :
    handlePacket json message offset = ⟨[], .ok none⟩ := by
  rw [handlePacket, h]
  rfl

theorem handlePacket_of_header (h : unpackFrom message offset = .ok header) :
    handlePacket json message offset = dispatch json message offset header >>= fun _ =>
      pure (some (offset + header.totalLen)) := by rw [handlePacket, h]

theorem messagePass_end (h : message.length ≤ offset) :
    messagePass json message (log, offset) = .inr ⟨log, .ok ()⟩ :=
  Trace.whilePass_done (by simpa using h)

theorem messagePass_break (hlt : offset < message.length)
    (h : unpackFrom message offset = .error .structError) :
    messagePass json message (log, offset) = .inr ⟨log, .ok ()⟩ := by
  have hbody : handlePacket json message offset = ⟨[], .ok none⟩ := handlePacket_of_structError h
  rw [messagePass, Trace.whilePass_break (by simpa using hlt) (by rw [hbody]), hbody,
    List.append_nil]

theorem messagePass_next (log : List Event) (hlt : offset < message.length)
    (h : unpackFrom message offset = .ok header)
    (hok : (dispatch json message offset header).result = .ok ()) :
    messagePass json message (log, offset) =
      .inl (log ++ (dispatch json message offset header).log, offset + header.totalLen) := by
  have hbody : handlePacket json message offset =
      ⟨(dispatch json message offset header).log, .ok (some (offset + header.totalLen))⟩ := by
    rw [handlePacket_of_header h, Trace.bind_ok hok, Trace.pure_def, List.append_nil]
  rw [messagePass, Trace.whilePass_next (by simpa using hlt) (by rw [hbody]), hbody]

theorem messagePass_raise {e : PyExc} (hlt : offset < message.length)
    (h : unpackFrom message offset = .ok header)
    (herror : (dispatch json message offset header).result = .error e) :
    messagePass json message (log, offset) =
      .inr ⟨log ++ (dispatch json message offset header).log, .error e⟩ := by
  have hbody : handlePacket json message offset =
      ⟨(dispatch json message offset header).log, .error e⟩ := by
    rw [handlePacket_of_header h, Trace.bind_error herror]
  rw [messagePass, Trace.whilePass_raise (by simpa using hlt) (by rw [hbody]), hbody]

theorem messagePass_cases (json : JsonModule) (message : Bytes) (log : List Event) (offset : ℕ) :
    messagePass json message (log, offset) = .inr ⟨log, .ok ()⟩ ∨
      ∃ header, offset < message.length ∧ unpackFrom message offset = .ok header ∧
        (((dispatch json message offset header).result = .ok () ∧
            messagePass json message (log, offset) =
              .inl (log ++ (dispatch json message offset header).log, offset + header.totalLen)) ∨
          ∃ e, (dispatch json message offset header).result = .error e ∧
            messagePass json message (log, offset) =
              .inr ⟨log ++ (dispatch json message offset header).log, .error e⟩) := by
  by_cases hlt : offset < message.length
  · cases unpackFrom_eq_ok_or message offset with
    | inr herror => exact .inl (messagePass_break hlt herror)
    | inl hheader =>
      obtain ⟨header, hheader⟩ := hheader
      refine .inr ⟨header, hlt, hheader, ?_⟩
      cases hresult : (dispatch json message offset header).result with
      | ok u => exact .inl ⟨rfl, messagePass_next log hlt hheader hresult⟩
      | error e => exact .inr ⟨e, rfl, messagePass_raise hlt hheader hresult⟩
  · exact .inl (messagePass_end (by omega))

theorem not_ends_of_totalLen_zero (hlt : offset < message.length)
    (h : unpackFrom message offset = .ok header) (hzero : header.totalLen = 0)
    (hok : (dispatch json message offset header).result = .ok ()) (r : Handler Unit) :
    ¬Loop.Ends (messagePass json message) (log, offset) r := by
  apply Loop.not_ends_of_invariant (I := fun s => s.2 = offset) _ rfl
  rintro ⟨log, _⟩ rfl
  exact ⟨_, messagePass_next log hlt h hok, by simp [hzero]⟩

theorem handleMessage_eq_some_iff {r : Handler Unit} :
    handleMessage json message = some r ↔ Loop.Ends (messagePass json message) ([], 0) r := by
  constructor
  · exact Loop.ends_of_iter
  · intro h
    refine h.iter_of_measure (f := fun s => message.length - s.2) ?_ (Nat.lt_succ_self _)
    rintro ⟨log, offset⟩ t hnext
    obtain hdone | ⟨header, hlt, hheader, ⟨hok, hpass⟩ | ⟨e, -, hpass⟩⟩ :=
      messagePass_cases json message log offset
    · simp [hdone] at hnext
    · rw [hpass] at hnext
      cases hnext
      by_cases hzero : header.totalLen = 0
      · right
        rw [hzero]
        exact not_ends_of_totalLen_zero hlt hheader hzero hok
      · left
        dsimp only
        omega
    · simp [hpass] at hnext

end DanmakuChicken.BLive
