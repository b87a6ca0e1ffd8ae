import DanmakuChicken.BLive.Client
import DanmakuChicken.BLive.Malformed

namespace DanmakuChicken.BLive

def Cancelled (outcomes : List Outcome) : Prop :=
  .cancelled ∈ outcomes ∨ .connectRaised .cancelledError ∈ outcomes

def EndsMalformed (json : JsonModule) (outcomes : List Outcome) : Prop :=
  ∃ before message, outcomes = before ++ [.message message] ∧ Malformed json message

/-- The last thing to happen was that `connect` raised neither of the exceptions that have an
`except` clause, or that the connection was left after a malformed message. -/
def EndsFatally (json : JsonModule) (outcomes : List Outcome) : Prop :=
  (∃ before e, outcomes = before ++ [.connectRaised e] ∧ e ≠ .connectionClosed ∧
      e ≠ .cancelledError) ∨
    ∃ before, outcomes = before ++ [.exited] ∧ EndsMalformed json before

def MessageLoop.Ended (m : MessageLoop) : Prop := ∃ result, m = .ended result

variable {json : JsonModule} {roomId : PyJson} {s t : Session} {outcomes : List Outcome}

theorem Cancelled.append (h : Cancelled outcomes) (more : List Outcome) :
    Cancelled (outcomes ++ more) :=
  h.imp (List.mem_append_left more) (List.mem_append_left more)

namespace Session

theorem leave_ended {e : PyExc} (h : e ≠ .connectionClosed) : (s.leave e).messageLoop.Ended := by
  cases e with
  | connectionClosed => exact absurd rfl h
  | cancelledError | osError | structError | unicodeDecodeError | jsonDecodeError | keyError
  | indexError | typeError | attributeError => exact ⟨_, rfl⟩

end Session

def Explains (json : JsonModule) (outcomes : List Outcome) : MessageLoop → Prop
  | .ended _ => Cancelled outcomes ∨ EndsFatally json outcomes
  | .exiting (some e) => e = .connectionClosed ∨ Cancelled outcomes ∨ EndsMalformed json outcomes
  | _ => True

theorem explains_leave {e : PyExc}
    (h : e = .connectionClosed ∨ Cancelled outcomes ∨ EndsFatally json outcomes) :
    Explains json outcomes (s.leave e).messageLoop := by
  cases h with
  | inl hclosed =>
    subst hclosed
    trivial
  | inr hends =>
    cases e with
    | connectionClosed => trivial
    | cancelledError | osError | structError | unicodeDecodeError | jsonDecodeError | keyError
    | indexError | typeError | attributeError => exact hends

theorem explains_receive (message : Bytes) (hs : s.messageLoop = .receiving) :
    Explains json (outcomes ++ [.message message]) (receive json s message).messageLoop := by
  unfold receive
  cases hmessage : handleMessage json message with
  | none => trivial
  | some r =>
    obtain ⟨log, result⟩ := r
    cases result with
    | ok u =>
      dsimp only
      rw [hs]
      trivial
    | error e =>
      have hmalformed : Malformed json message := handleMessage_raises_iff.mp ⟨_, e, hmessage, rfl⟩
      exact .inr (.inr ⟨outcomes, message, rfl, hmalformed⟩)

theorem explains_step {outcome : Outcome} (h : Explains json outcomes s.messageLoop)
    (hs : messageStep json roomId s outcome = some t) :
    Explains json (outcomes ++ [outcome]) t.messageLoop := by
  cases messageStep_inversion hs with
  | connected hm atOnce =>
    rw [enter_eq]
    cases atOnce <;> trivial
  | connectRaised hm e =>
    apply explains_leave
    by_cases hclosed : e = .connectionClosed
    · exact .inl hclosed
    · right
      by_cases hcancelled : e = .cancelledError
      · left
        right
        simp [hcancelled]
      · right
        exact .inl ⟨outcomes, e, rfl, hclosed, hcancelled⟩
  | message hm message => exact explains_receive message hm
  | raised hm =>
    rw [hm] at h
    apply explains_leave
    rcases h with hclosed | hcancelled | hmalformed
    · exact .inl hclosed
    · exact .inr (.inl (hcancelled.append _))
    · exact .inr (.inr (.inr ⟨outcomes, rfl, hmalformed⟩))
  | cancelledConnecting hm | cancelledExiting hm | cancelledSleeping hm =>
    exact .inl (.inl (by simp))
  | cancelledInside hm => exact .inr (.inl (.inl (by simp)))
  | authRaised hm | connectionLost hm => exact .inl rfl
  | authSent hm | closedNormally hm | exited hm | slept hm => trivial

theorem explains_run (hrun : Lts.run (messageStep json roomId) {} outcomes = some s) :
    Explains json outcomes s.messageLoop := by
  refine Lts.history (I := fun outcomes s => Explains json outcomes s.messageLoop) ?_ ?_ hrun
  · intro outcomes s outcome t h hs
    exact explains_step h hs
  · trivial

theorem exiting_of_malformed {message : Bytes} (h : Malformed json message)
    (hs : messageStep json roomId s (.message message) = some t) :
    ∃ e, t.messageLoop = .exiting (some e) ∧ e.IsContent := by
  obtain ⟨⟨log, _⟩, e, hmessage, rfl⟩ := handleMessage_raises_iff.mpr h
  cases messageStep_inversion hs
  exact ⟨e, by simp [receive, hmessage], handleMessage_raises hmessage e rfl⟩

theorem ended_of_endsFatally (h : EndsFatally json outcomes)
    (hrun : Lts.run (messageStep json roomId) {} outcomes = some s) : s.messageLoop.Ended := by
  rcases h with ⟨before, e, rfl, hclosed, -⟩ | ⟨_, rfl, before, message, rfl, hmalformed⟩
  · obtain ⟨r, -, hs⟩ := Lts.run_concat_eq_some.mp hrun
    cases messageStep_inversion hs
    exact Session.leave_ended hclosed
  · obtain ⟨r, hr, hs⟩ := Lts.run_concat_eq_some.mp hrun
    obtain ⟨q, -, hmessage⟩ := Lts.run_concat_eq_some.mp hr
    obtain ⟨e, hexiting, hcontent⟩ := exiting_of_malformed hmalformed hmessage
    cases messageStep_inversion hs with
    | exited hm =>
      rw [hexiting] at hm
      cases hm
    | raised hm =>
      rw [hexiting] at hm
      cases hm
      apply Session.leave_ended
      rintro rfl
      exact hcontent

theorem cancelled_of_ended_iff (hrun : Lts.run (messageStep json roomId) {} outcomes = some s) :
    (s.messageLoop.Ended → Cancelled outcomes) ↔
      Cancelled outcomes ∨ ¬EndsFatally json outcomes := by
  constructor
  · intro h
    by_cases hfatal : EndsFatally json outcomes
    · exact .inl (h (ended_of_endsFatally hfatal hrun))
    · exact .inr hfatal
  · rintro h ⟨result, hresult⟩
    have hexplains := explains_run hrun
    rw [hresult] at hexplains
    cases h with
    | inl hcancelled => exact hcancelled
    | inr hnot => exact hexplains.resolve_right hnot

def stopped : List Outcome :=
  [.connected true, .connectionLost, .exited, .slept, .connected false, .cancelled, .exited]

theorem cancelled_of_ended_stopped : ∃ s,
    Lts.run (messageStep emptyObject .null) {} stopped = some s ∧ s.messageLoop.Ended ∧
      Cancelled stopped := by
  have hrun : Lts.run (messageStep emptyObject .null) {} stopped = some
      { connections := [⟨.open, [authPacket .null]⟩, ⟨.open, [authPacket .null]⟩]
        messageLoop := .ended (.ok ()) } := rfl
  have hfatal : ¬EndsFatally emptyObject stopped := by
    rintro (⟨before, e, hlast, -⟩ | ⟨_, hlast, before, message, rfl, -⟩)
    · simpa [stopped] using congrArg List.getLast? hlast
    · simpa [stopped] using congrArg (fun l => l.dropLast.getLast?) hlast
  have hended : MessageLoop.Ended (.ended (.ok ())) := ⟨_, rfl⟩
  exact ⟨_, hrun, hended, (cancelled_of_ended_iff hrun).mpr (.inr hfatal) hended⟩

def networkDown : List Outcome :=
  [.connected true, .connectionLost, .exited, .slept, .connectRaised .osError]

def emptyCommand : List Outcome :=
  [.connected true, .message [0, 0, 0, 16, 0, 16, 0, 1, 0, 0, 0, 5, 0, 0, 0, 1], .exited]

theorem not_cancelled_of_networkDown :
    (∃ s, Lts.run (messageStep emptyObject .null) {} networkDown = some s ∧
      s.messageLoop = .ended (.error .osError) ∧ ¬Cancelled networkDown) ∧
    ∃ s, Lts.run (messageStep emptyObject .null) {} emptyCommand = some s ∧
      s.messageLoop = .ended (.error .jsonDecodeError) ∧ ¬Cancelled emptyCommand := by
  constructor
  · exact ⟨_, rfl, rfl, by simp [Cancelled, networkDown]⟩
  · exact ⟨_, rfl, rfl, by simp [Cancelled, emptyCommand]⟩

end DanmakuChicken.BLive
