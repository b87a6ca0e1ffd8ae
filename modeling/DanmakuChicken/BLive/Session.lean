import DanmakuChicken.BLive.Client

namespace DanmakuChicken.BLive

def MessageLoop.inBlock : MessageLoop → Bool
  | .authenticating | .receiving | .exiting _ | .stuck => true
  | .connecting | .reconnecting | .ended _ => false

variable {json : JsonModule} {roomId : PyJson} {s t : Session}

theorem messageStep_cases {outcome : Outcome} (h : messageStep json roomId s outcome = some t) :
    (∃ atOnce, s.messageLoop = .connecting ∧ t = enter roomId s atOnce) ∨
    (s.messageLoop.inBlock = true ∧ t.messageLoop.inBlock = true ∧ t.websocket = s.websocket ∧
      t.connections = s.connections ∧ t.heartbeatLoop = s.heartbeatLoop) ∨
    (t.messageLoop.inBlock = false ∧ t.websocket = none ∧ t.connections = s.connections ∧
      t.heartbeatLoop = s.heartbeatLoop) := by
  have hleave (e : PyExc) : (s.leave e).messageLoop.inBlock = false ∧ (s.leave e).websocket = none ∧
      (s.leave e).connections = s.connections ∧ (s.leave e).heartbeatLoop = s.heartbeatLoop := by
    cases e <;> exact ⟨rfl, rfl, rfl, rfl⟩
  cases messageStep_inversion h with
  | connected hm atOnce => exact .inl ⟨atOnce, hm, rfl⟩
  | connectRaised hm e => exact .inr (.inr (hleave e))
  | message hm message =>
    right
    left
    unfold receive
    split
    · exact ⟨by simp [hm, MessageLoop.inBlock], rfl, rfl, rfl, rfl⟩
    · exact ⟨by simp [hm, MessageLoop.inBlock], by simp [hm, MessageLoop.inBlock], rfl, rfl, rfl⟩
    · exact ⟨by simp [hm, MessageLoop.inBlock], rfl, rfl, rfl, rfl⟩
  | authSent hm | authRaised hm | closedNormally hm | connectionLost hm =>
    exact .inr (.inl ⟨by simp [hm, MessageLoop.inBlock], rfl, rfl, rfl, rfl⟩)
  | cancelledInside hm =>
    right
    left
    cases hm with
    | inl hm | inr hm => exact ⟨by simp [hm, MessageLoop.inBlock], rfl, rfl, rfl, rfl⟩
  | raised hm => exact .inr (.inr (hleave _))
  | cancelledConnecting hm | cancelledExiting hm => exact .inr (.inr (hleave _))
  | exited hm | slept hm | cancelledSleeping hm => exact .inr (.inr ⟨rfl, rfl, rfl, rfl⟩)

theorem heartbeatStep_cases {r : Resume} (h : heartbeatStep s r = some t) :
    (∃ i c loop, s.websocket = some i ∧ s.connections[i]? = some c ∧
      loop ≠ .ended (.error .attributeError) ∧
      t = { s.handOver i heartbeatPacket with heartbeatLoop := loop }) ∨
    ∃ loop, t = { s with heartbeatLoop := loop } ∧
      (loop = .ended (.error .attributeError) →
        ∃ i, s.websocket = some i ∧ s.connections[i]? = none) := by
  cases hx : resumeHeartbeat s r with
  | none => simp [heartbeatStep, hx] at h
  | some x =>
    obtain rfl | rfl | rfl := resumeHeartbeat_cases hx
    · obtain ⟨-, hpass⟩ | ⟨i, hslot, hnone, hpass⟩ | ⟨i, c, hslot, hc, -, hpass⟩ |
        ⟨i, c, hslot, hc, -, hpass⟩ | ⟨-, hpass⟩ := heartbeatPass_cases r.atOnce s
      · rw [heartbeatStep_of_pass hx hpass] at h
        cases h
        exact .inr ⟨_, rfl, by simp⟩
      · rw [heartbeatStep_of_pass hx hpass] at h
        cases h
        exact .inr ⟨_, rfl, fun _ => ⟨i, hslot, hnone⟩⟩
      · rw [heartbeatStep_of_pass hx hpass] at h
        cases h
        exact .inl ⟨i, c, _, hslot, hc, by cases r.atOnce <;> simp, rfl⟩
      · rw [heartbeatStep_of_pass hx hpass] at h
        cases h
        exact .inr ⟨_, rfl, by simp⟩
      · rw [heartbeatStep_of_continue hx hpass] at h
        cases h
        exact .inr ⟨_, rfl, by simp⟩
    · rw [heartbeatStep_of_inr hx] at h
      cases h
      exact .inr ⟨_, rfl, by simp⟩
    · rw [heartbeatStep_of_inr hx] at h
      cases h
      exact .inr ⟨_, rfl, by simp⟩

def Protocol (roomId : PyJson) (c : Connection) : Prop :=
  ∃ beats, c.sent = authPacket roomId :: List.replicate beats heartbeatPacket

structure Inv (roomId : PyJson) (s : Session) : Prop where
  inside : s.messageLoop.inBlock = true →
    ∃ i, s.websocket = some i ∧ s.connections.length = i + 1
  outside : s.messageLoop.inBlock = false → s.websocket = none
  protocol : ∀ c ∈ s.connections, Protocol roomId c
  noneSent : s.heartbeatLoop ≠ .ended (.error .attributeError)

theorem Inv.newest (h : Inv roomId s) {i : ℕ} (hi : s.websocket = some i) :
    s.connections.length = i + 1 := by
  cases hin : s.messageLoop.inBlock with
  | false =>
    rw [h.outside hin] at hi
    cases hi
  | true =>
    obtain ⟨j, hj, hlength⟩ := h.inside hin
    rw [hi] at hj
    cases hj
    exact hlength

theorem inv_start : Inv roomId {} := ⟨nofun, fun _ => rfl, nofun, nofun⟩

theorem inv_message (h : Inv roomId s) {outcome : Outcome}
    (hs : messageStep json roomId s outcome = some t) : Inv roomId t := by
  obtain ⟨atOnce, -, rfl⟩ | ⟨hin, hin', hslot, hconnections, hloop⟩ |
    ⟨hin', hslot, hconnections, hloop⟩ := messageStep_cases hs
  · rw [enter_eq]
    refine ⟨fun _ => ⟨s.connections.length, rfl, by simp⟩, ?_, ?_, h.noneSent⟩
    · intro hout
      cases atOnce <;> cases hout
    · intro c hc
      cases List.mem_append.mp hc with
      | inl hold => exact h.protocol c hold
      | inr hnew =>
        rw [List.mem_singleton.mp hnew]
        exact ⟨0, rfl⟩
  · refine ⟨?_, ?_, ?_, ?_⟩
    · intro _
      rw [hslot, hconnections]
      exact h.inside hin
    · simp [hin']
    · rw [hconnections]
      exact h.protocol
    · rw [hloop]
      exact h.noneSent
  · refine ⟨?_, fun _ => hslot, ?_, ?_⟩
    · simp [hin']
    · rw [hconnections]
      exact h.protocol
    · rw [hloop]
      exact h.noneSent

theorem protocol_handOver {c : Connection} (h : Protocol roomId c) :
    Protocol roomId { c with sent := c.sent ++ [heartbeatPacket] } := by
  obtain ⟨beats, hsent⟩ := h
  refine ⟨beats + 1, ?_⟩
  simp only [hsent, List.cons_append, List.replicate_succ']

theorem inv_heartbeat (h : Inv roomId s) {r : Resume} (hs : heartbeatStep s r = some t) :
    Inv roomId t := by
  obtain ⟨i, c, loop, hslot, hc, hloop, rfl⟩ | ⟨loop, rfl, hloop⟩ := heartbeatStep_cases hs
  · refine ⟨?_, h.outside, ?_, hloop⟩
    · simpa [Session.handOver] using h.inside
    · intro d hd
      obtain ⟨j, hj⟩ := List.mem_iff_getElem?.mp hd
      rw [Session.getElem?_handOver] at hj
      obtain ⟨e, he, rfl⟩ := Option.map_eq_some_iff.mp hj
      have he' := h.protocol e (List.mem_of_getElem? he)
      split
      · exact protocol_handOver he'
      · exact he'
  · refine ⟨h.inside, h.outside, h.protocol, ?_⟩
    intro hended
    obtain ⟨i, hslot, hnone⟩ := hloop hended
    have hlength := h.newest hslot
    rw [List.getElem?_eq_none_iff] at hnone
    omega

theorem networkStep_eq_some {i : ℕ} {state : ConnectionState} (h : networkStep s i state = some t) :
    ∃ c, s.connections[i]? = some c ∧ c.state.rank < state.rank ∧
      t = { s with connections := s.connections.set i { c with state := state } } := by
  unfold networkStep at h
  split at h
  · simp only [Option.ite_none_right_eq_some, Option.some.injEq] at h
    exact ⟨_, ‹_›, h.1, h.2.symm⟩
  · cases h

theorem inv_network (h : Inv roomId s) {i : ℕ} {state : ConnectionState}
    (hs : networkStep s i state = some t) : Inv roomId t := by
  obtain ⟨c, hc, -, rfl⟩ := networkStep_eq_some hs
  refine ⟨?_, h.outside, ?_, h.noneSent⟩
  · simpa using h.inside
  · intro d hd
    cases List.mem_or_eq_of_mem_set hd with
    | inl hold => exact h.protocol d hold
    | inr hnew =>
      rw [hnew]
      exact h.protocol c (List.mem_of_getElem? hc)

theorem step_cases {a : Action} (h : step json roomId s a = some t) :
    s.hangs = false ∧ ((∃ outcome, a = .message outcome ∧ messageStep json roomId s outcome = some t) ∨
      (∃ r, a = .heartbeat r ∧ heartbeatStep s r = some t) ∨
      ∃ i state, a = .network i state ∧ networkStep s i state = some t) := by
  cases hhangs : s.hangs with
  | true => simp [step, hhangs] at h
  | false =>
    refine ⟨rfl, ?_⟩
    cases a with
    | message outcome => exact .inl ⟨outcome, rfl, by simpa [step, hhangs] using h⟩
    | heartbeat r => exact .inr (.inl ⟨r, rfl, by simpa [step, hhangs] using h⟩)
    | network i state => exact .inr (.inr ⟨i, state, rfl, by simpa [step, hhangs] using h⟩)

theorem inv_step (h : Inv roomId s) {a : Action} (hs : step json roomId s a = some t) :
    Inv roomId t := by
  obtain ⟨-, ⟨outcome, -, hs⟩ | ⟨r, -, hs⟩ | ⟨i, state, -, hs⟩⟩ := step_cases hs
  · exact inv_message h hs
  · exact inv_heartbeat h hs
  · exact inv_network h hs

theorem sent_step (h : Inv roomId s) {a : Action} (hs : step json roomId s a = some t) {i : ℕ}
    {c c' : Connection} (hc : s.connections[i]? = some c) (hc' : t.connections[i]? = some c') :
    c'.sent = c.sent ∨ (c'.sent = c.sent ++ [heartbeatPacket] ∧ s.websocket = some i ∧
      s.connections.length = i + 1) := by
  obtain ⟨-, ⟨outcome, -, hs⟩ | ⟨r, -, hs⟩ | ⟨j, state, -, hs⟩⟩ := step_cases hs
  · left
    obtain ⟨atOnce, -, rfl⟩ | ⟨-, -, -, hconnections, -⟩ | ⟨-, -, hconnections, -⟩ :=
      messageStep_cases hs
    · obtain ⟨hlt, -⟩ := List.getElem?_eq_some_iff.mp hc
      rw [enter_eq, List.getElem?_append_left hlt, hc] at hc'
      cases hc'
      rfl
    · rw [hconnections, hc] at hc'
      cases hc'
      rfl
    · rw [hconnections, hc] at hc'
      cases hc'
      rfl
  · obtain ⟨j, d, loop, hslot, hd, -, rfl⟩ | ⟨loop, rfl, -⟩ := heartbeatStep_cases hs
    · change (s.handOver j heartbeatPacket).connections[i]? = some c' at hc'
      rw [Session.getElem?_handOver, hc] at hc'
      cases hc'
      by_cases hji : j = i
      · subst hji
        right
        exact ⟨by simp, hslot, h.newest hslot⟩
      · left
        simp [hji]
    · left
      rw [hc] at hc'
      cases hc'
      rfl
  · left
    obtain ⟨d, hd, -, rfl⟩ := networkStep_eq_some hs
    by_cases hji : j = i
    · subst hji
      obtain ⟨hlt, -⟩ := List.getElem?_eq_some_iff.mp hc
      rw [hc] at hd
      cases hd
      rw [List.getElem?_set_self hlt] at hc'
      cases hc'
      rfl
    · rw [List.getElem?_set_ne hji, hc] at hc'
      cases hc'
      rfl

theorem session_protocol {actions : List Action}
    (hrun : Lts.run (step json roomId) {} actions = some s) :
    (∀ c ∈ s.connections, Protocol roomId c) ∧
      s.heartbeatLoop ≠ .ended (.error .attributeError) ∧
      (s.messageLoop.inBlock = false → s.websocket = none) ∧
      (∀ i, s.websocket = some i → s.connections.length = i + 1) ∧
      ∀ a t, step json roomId s a = some t → ∀ (i : ℕ) (c c' : Connection),
        s.connections[i]? = some c → t.connections[i]? = some c' →
          c'.sent = c.sent ∨ (c'.sent = c.sent ++ [heartbeatPacket] ∧ s.websocket = some i ∧
            s.connections.length = i + 1) := by
  have hinv : Inv roomId s := Lts.invariant (fun _ _ _ h => inv_step h) inv_start hrun
  refine ⟨hinv.protocol, hinv.noneSent, hinv.outside, fun _ => hinv.newest, ?_⟩
  intro a t hs i c c' hc hc'
  exact sent_step hinv hs hc hc'

def dropped : List Action :=
  [.message (.connected false), .heartbeat (.go false), .message .authSent,
    .network 0 .closing, .heartbeat (.sendRaised false), .network 0 .closed,
    .message .connectionLost, .message .exited, .heartbeat (.sendRaised false), .message .slept,
    .message (.connected true), .heartbeat (.go true)]

theorem session_protocol_of_dropped : ∃ s,
    Lts.run (step emptyObject .null) {} dropped = some s ∧ s.connections.length = 2 ∧
      s.websocket = some 1 ∧ ∀ c ∈ s.connections, Protocol .null c := by
  have hrun : Lts.run (step emptyObject .null) {} dropped = some
      { websocket := some 1
        connections := [⟨.closed, [authPacket .null, heartbeatPacket]⟩,
          ⟨.open, [authPacket .null, heartbeatPacket]⟩]
        messageLoop := .receiving
        heartbeatLoop := .resting } := rfl
  exact ⟨_, hrun, rfl, rfl, (session_protocol hrun).1⟩

end DanmakuChicken.BLive
