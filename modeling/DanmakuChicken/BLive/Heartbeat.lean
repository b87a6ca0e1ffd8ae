import DanmakuChicken.BLive.Session

namespace DanmakuChicken.BLive

def Resume.toTop : Resume → Bool
  | .go _ | .sendRaised _ => true
  | .sent | .cancelled => false

/-- Resumed with `x`, the coroutine waits or ends after finitely many passes. -/
def Settles (atOnce : Bool) (x : Session ⊕ Session) : Prop :=
  match x with
  | .inr _ => True
  | .inl s => ∃ t, Loop.Ends (heartbeatPass atOnce) s t

variable {json : JsonModule} {roomId : PyJson} {s t : Session} {r : Resume}

theorem heartbeatPass_eq_inl_iff {atOnce : Bool} :
    heartbeatPass atOnce s = .inl t ↔ s.SlotClosed ∧ s = t := by
  constructor
  · intro h
    obtain ⟨-, hpass⟩ | ⟨i, -, -, hpass⟩ | ⟨i, c, -, -, -, hpass⟩ | ⟨i, c, -, -, -, hpass⟩ |
      ⟨hclosed, hpass⟩ := heartbeatPass_cases atOnce s
    case inr.inr.inr.inr =>
      rw [h] at hpass
      exact ⟨hclosed, (Sum.inl.inj hpass).symm⟩
    all_goals
      rw [h] at hpass
      cases hpass
  · rintro ⟨⟨i, c, hslot, hc, hstate⟩, rfl⟩
    simp [heartbeatPass, Session.send, hslot, hc, hstate]

theorem heartbeatPass_not_spinning {atOnce : Bool} (h : heartbeatPass atOnce s = .inr t) :
    t.heartbeatLoop ≠ .spinning := by
  obtain ⟨-, hpass⟩ | ⟨i, -, -, hpass⟩ | ⟨i, c, -, -, -, hpass⟩ | ⟨i, c, -, -, -, hpass⟩ |
    ⟨-, hpass⟩ := heartbeatPass_cases atOnce s
  case inr.inr.inl =>
    rw [h] at hpass
    cases hpass
    cases atOnce <;> simp
  all_goals
    rw [h] at hpass
    cases hpass
    try nofun

theorem not_ends_of_slotClosed (h : s.SlotClosed) (atOnce : Bool) :
    ¬∃ t, Loop.Ends (heartbeatPass atOnce) s t := by
  rintro ⟨t, ht⟩
  refine Loop.not_ends_of_invariant (I := fun u => u = s) ?_ rfl t ht
  rintro u rfl
  exact ⟨u, heartbeatPass_eq_inl_iff.mpr ⟨h, rfl⟩, rfl⟩

theorem ends_iff_not_slotClosed (atOnce : Bool) :
    (∃ t, Loop.Ends (heartbeatPass atOnce) s t) ↔ ¬s.SlotClosed := by
  constructor
  · intro h hclosed
    exact not_ends_of_slotClosed hclosed atOnce h
  · intro h
    cases hpass : heartbeatPass atOnce s with
    | inl t => exact absurd (heartbeatPass_eq_inl_iff.mp hpass).1 h
    | inr t => exact ⟨t, .done hpass⟩

theorem resumeHeartbeat_toTop {x : Session ⊕ Session} (h : resumeHeartbeat s r = some x) :
    (r.toTop = true ∧ x = .inl s) ∨ (r.toTop = false ∧ ∃ t, x = .inr t ∧
      t.heartbeatLoop ≠ .spinning) := by
  unfold resumeHeartbeat at h
  split at h <;> cases h <;> simp [Resume.toTop]

theorem settles_iff {x : Session ⊕ Session} (h : resumeHeartbeat s r = some x) :
    Settles r.atOnce x ↔ ¬(r.toTop = true ∧ s.SlotClosed) := by
  obtain ⟨htop, rfl⟩ | ⟨htop, t, rfl, -⟩ := resumeHeartbeat_toTop h
  · simp only [Settles, ends_iff_not_slotClosed, htop, true_and]
  · simp [Settles, htop]

theorem heartbeatStep_spinning_iff (h : heartbeatStep s r = some t) :
    t.heartbeatLoop = .spinning ↔ r.toTop = true ∧ s.SlotClosed := by
  cases hx : resumeHeartbeat s r with
  | none => simp [heartbeatStep, hx] at h
  | some x =>
    obtain ⟨htop, rfl⟩ | ⟨htop, u, rfl, hu⟩ := resumeHeartbeat_toTop hx
    · cases hpass : heartbeatPass r.atOnce s with
      | inl u =>
        rw [heartbeatStep_of_continue hx hpass] at h
        cases h
        simp [htop, (heartbeatPass_eq_inl_iff.mp hpass).1]
      | inr u =>
        have hopen : ¬s.SlotClosed :=
          fun hclosed => not_ends_of_slotClosed hclosed r.atOnce ⟨u, .done hpass⟩
        rw [heartbeatStep_of_pass hx hpass] at h
        cases h
        simp [heartbeatPass_not_spinning hpass, hopen]
    · rw [heartbeatStep_of_inr hx] at h
      cases h
      simp [htop, hu]

/-- The run ends with a resumption of the heartbeat loop that finds a closed connection. -/
def FindsClosed (json : JsonModule) (roomId : PyJson) (actions : List Action) : Prop :=
  ∃ before r t, actions = before ++ [.heartbeat r] ∧ Lts.run (step json roomId) {} before = some t ∧
    r.toTop = true ∧ t.SlotClosed

theorem not_spinning_of_hangs (h : s.hangs = false) : s.heartbeatLoop ≠ .spinning := by
  intro hs
  unfold Session.hangs at h
  rw [hs] at h
  cases hm : s.messageLoop <;> simp [hm] at h

theorem spinning_step {a : Action} (h : step json roomId s a = some t)
    (ht : t.heartbeatLoop = .spinning) : ∃ r, a = .heartbeat r ∧ heartbeatStep s r = some t := by
  obtain ⟨hhangs, ⟨outcome, -, hs⟩ | hheartbeat | ⟨i, state, -, hs⟩⟩ := step_cases h
  · have hsame : t.heartbeatLoop = s.heartbeatLoop := by
      obtain ⟨atOnce, -, rfl⟩ | ⟨-, -, -, -, hloop⟩ | ⟨-, -, -, hloop⟩ := messageStep_cases hs
      · rw [enter_eq]
      · exact hloop
      · exact hloop
    exact absurd (hsame.symm.trans ht) (not_spinning_of_hangs hhangs)
  · exact hheartbeat
  · obtain ⟨c, -, -, rfl⟩ := networkStep_eq_some hs
    exact absurd ht (not_spinning_of_hangs hhangs)

theorem spinning_iff {actions : List Action}
    (hrun : Lts.run (step json roomId) {} actions = some s) :
    s.heartbeatLoop = .spinning ↔ FindsClosed json roomId actions := by
  constructor
  · intro hs
    induction actions using List.reverseRecOn with
    | nil =>
      cases hrun
      cases hs
    | append_singleton before a _ =>
      obtain ⟨t, ht, hstep⟩ := Lts.run_concat_eq_some.mp hrun
      obtain ⟨r, rfl, hheartbeat⟩ := spinning_step hstep hs
      obtain ⟨htop, hclosed⟩ := (heartbeatStep_spinning_iff hheartbeat).mp hs
      exact ⟨before, r, t, rfl, ht, htop, hclosed⟩
  · rintro ⟨before, r, t, rfl, ht, htop, hclosed⟩
    obtain ⟨u, hu, hstep⟩ := Lts.run_concat_eq_some.mp hrun
    rw [ht] at hu
    cases hu
    obtain ⟨-, ⟨outcome, ha, -⟩ | ⟨r', ha, hs⟩ | ⟨i, state, ha, -⟩⟩ := step_cases hstep
    · cases ha
    · cases ha
      exact (heartbeatStep_spinning_iff hs).mpr ⟨htop, hclosed⟩
    · cases ha

theorem settles_iff_of_run {actions : List Action}
    (hrun : Lts.run (step json roomId) {} actions = some s) :
    (s.heartbeatLoop = .spinning ↔ FindsClosed json roomId actions) ∧
      ∀ r x, resumeHeartbeat s r = some x →
        (Settles r.atOnce x ↔ ¬(r.toTop = true ∧ s.SlotClosed)) :=
  ⟨spinning_iff hrun, fun _ _ => settles_iff⟩

def peerCloses : List Action :=
  [.message (.connected true), .heartbeat (.go true), .network 0 .closing]

theorem settles_of_peerCloses : ∃ s, Lts.run (step emptyObject .null) {} peerCloses = some s ∧
    resumeHeartbeat s (.go true) = some (.inl s) ∧ Settles true (.inl s) := by
  have hrun : Lts.run (step emptyObject .null) {} peerCloses = some
      { websocket := some 0
        connections := [⟨.closing, [authPacket .null, heartbeatPacket]⟩]
        messageLoop := .receiving
        heartbeatLoop := .resting } := rfl
  refine ⟨_, hrun, rfl, ((settles_iff_of_run hrun).2 (.go true) _ rfl).mpr ?_⟩
  rintro ⟨-, i, c, hslot, hc, hstate⟩
  cases hslot
  cases hc
  cases hstate

def peerClosed : List Action := peerCloses ++ [.network 0 .closed]

theorem not_settles_of_peerClosed : ∃ s,
    Lts.run (step emptyObject .null) {} peerClosed = some s ∧
      resumeHeartbeat s (.go true) = some (.inl s) ∧ ¬Settles true (.inl s) := by
  have hrun : Lts.run (step emptyObject .null) {} peerClosed = some
      { websocket := some 0
        connections := [⟨.closed, [authPacket .null, heartbeatPacket]⟩]
        messageLoop := .receiving
        heartbeatLoop := .resting } := rfl
  refine ⟨_, hrun, rfl, ?_⟩
  exact not_ends_of_slotClosed ⟨0, _, rfl, rfl, rfl⟩ true

end DanmakuChicken.BLive
