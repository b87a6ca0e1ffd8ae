import DanmakuChicken.BLive.Message
import DanmakuChicken.Lib.Lts

/-! The two coroutines of `BLiveClient` and the connections they share.  They run in one thread
and change over at the points where they wait, so a step of a coroutine goes from one such point
to the next. -/

namespace DanmakuChicken.BLive

structure Packet where
  data : PyJson
  operation : Operation

inductive ConnectionState
  | open | closing | closed
  deriving DecidableEq

structure Connection where
  state : ConnectionState
  sent : List Packet

def Connection.opened : Connection := ⟨.open, []⟩

/-- Where `_message_loop` waits: for `connect`, for the `send` of `_send_auth`, for the next
message, for the connection to close as the block is left (with the exception it is left by), for
the `sleep` after a drop.  Or it never comes back from `_handle_message`, or it has ended. -/
inductive MessageLoop
  | connecting
  | authenticating
  | receiving
  | exiting (pending : Option PyExc)
  | reconnecting
  | stuck
  | ended (result : Except PyExc Unit)

/-- Where `_heartbeat_loop` waits: for its first run, for `sleep(0.5)`, for `send`, for
`sleep(30)`.  Or it never waits again, or it has ended. -/
inductive HeartbeatLoop
  | starting
  | waiting
  | sending
  | resting
  | spinning
  | ended (result : Except PyExc Unit)

/-- The connections are in the order in which they were made; `websocket` is the index of one. -/
structure Session where
  websocket : Option ℕ := none
  connections : List Connection := []
  messageLoop : MessageLoop := .connecting
  heartbeatLoop : HeartbeatLoop := .starting
  events : List Event := []

inductive Send
  | returned
  | suspended
  | raised (e : PyExc)

namespace Session

def handOver (s : Session) (i : ℕ) (packet : Packet) : Session :=
  { s with connections := s.connections.modify i fun c => { c with sent := c.sent ++ [packet] } }

/-- `await self._websocket.send(packet)`; on an open connection `atOnce` says whether `send`
comes to its end without waiting. -/
def send (s : Session) (packet : Packet) (atOnce : Bool) : Session × Send :=
  match s.websocket with
  | none => (s, Send.raised .attributeError)
  | some i =>
    match s.connections[i]? with
    | none => (s, .raised .attributeError)
    | some c =>
      match c.state with
      | .open => (s.handOver i packet, if atOnce then .returned else .suspended)
      | .closing => (s, .suspended)
      | .closed => (s, .raised .connectionClosed)

/-- An exception out of the `try` of `_message_loop`: its `except` clauses and its `finally`. -/
def leave (s : Session) : PyExc → Session
  | .cancelledError => { s with websocket := none, messageLoop := .ended (.ok ()) }
  | .connectionClosed => { s with websocket := none, messageLoop := .reconnecting }
  | e => { s with websocket := none, messageLoop := .ended (.error e) }

end Session

def authParams (roomId : PyJson) : PyJson :=
  .obj [(PyStr.ofString "uid", .num "0"), (PyStr.ofString "roomid", roomId),
    (PyStr.ofString "protover", .num "1"), (PyStr.ofString "platform", PyJson.string "web"),
    (PyStr.ofString "clientver", PyJson.string "1.4.0")]

def authPacket (roomId : PyJson) : Packet := ⟨authParams roomId, .auth⟩

def heartbeatPacket : Packet := ⟨.obj [], .sendHeartbeat⟩

inductive Outcome
  | connected (atOnce : Bool)
  | connectRaised (e : PyExc)
  | authSent
  | authRaised
  | message (message : Bytes)
  | closedNormally
  | connectionLost
  | exited
  | slept
  | cancelled

section MessageLoop

variable (json : JsonModule) (roomId : PyJson)

def enter (s : Session) (atOnce : Bool) : Session :=
  let s := { s with
    websocket := some s.connections.length
    connections := s.connections ++ [Connection.opened] }
  match s.send (authPacket roomId) atOnce with
  | (s, .returned) => { s with messageLoop := .receiving }
  | (s, .suspended) => { s with messageLoop := .authenticating }
  | (s, .raised e) => { s with messageLoop := .exiting (some e) }

def receive (s : Session) (message : Bytes) : Session :=
  match handleMessage json message with
  | none => { s with messageLoop := .stuck }
  | some ⟨log, .ok ()⟩ => { s with events := s.events ++ log }
  | some ⟨log, .error e⟩ => { s with events := s.events ++ log, messageLoop := .exiting (some e) }

def messageStep : Lts.Step Session Outcome
  | s, .connected atOnce =>
    match s.messageLoop with
    | .connecting => some (enter roomId s atOnce)
    | _ => none
  | s, .connectRaised e =>
    match s.messageLoop with
    | .connecting => some (s.leave e)
    | _ => none
  | s, .authSent =>
    match s.messageLoop with
    | .authenticating => some { s with messageLoop := .receiving }
    | _ => none
  | s, .authRaised =>
    match s.messageLoop with
    | .authenticating => some { s with messageLoop := .exiting (some .connectionClosed) }
    | _ => none
  | s, .message message =>
    match s.messageLoop with
    | .receiving => some (receive json s message)
    | _ => none
  | s, .closedNormally =>
    match s.messageLoop with
    | .receiving => some { s with messageLoop := .exiting none }
    | _ => none
  | s, .connectionLost =>
    match s.messageLoop with
    | .receiving => some { s with messageLoop := .exiting (some .connectionClosed) }
    | _ => none
  | s, .exited =>
    match s.messageLoop with
    | .exiting none => some { s with websocket := none, messageLoop := .connecting }
    | .exiting (some e) => some (s.leave e)
    | _ => none
  | s, .slept =>
    match s.messageLoop with
    | .reconnecting => some { s with websocket := none, messageLoop := .connecting }
    | _ => none
  | s, .cancelled =>
    match s.messageLoop with
    | .connecting => some (s.leave .cancelledError)
    | .authenticating | .receiving => some { s with messageLoop := .exiting (some .cancelledError) }
    | .exiting _ => some (s.leave .cancelledError)
    | .reconnecting =>
      some { s with websocket := none, messageLoop := .ended (.error .cancelledError) }
    | .stuck | .ended _ => none

end MessageLoop

/-- What `_heartbeat_loop` goes on with: the start or the end of a `sleep`, or what became of
the `send` it waits for.  `atOnce` is for the next `send`, if there is one. -/
inductive Resume
  | go (atOnce : Bool)
  | sent
  | sendRaised (atOnce : Bool)
  | cancelled

/-- A pass of `while True` in `_heartbeat_loop` up to where it waits or ends, or its `continue`. -/
def heartbeatPass (atOnce : Bool) (s : Session) : Session ⊕ Session :=
  if s.websocket.isNone then
    .inr { s with heartbeatLoop := .waiting }
  else
    match s.send heartbeatPacket atOnce with
    | (s, .returned) => .inr { s with heartbeatLoop := .resting }
    | (s, .suspended) => .inr { s with heartbeatLoop := .sending }
    | (s, .raised .connectionClosed) => .inl s
    | (s, .raised .cancelledError) => .inr { s with heartbeatLoop := .ended (.ok ()) }
    | (s, .raised e) => .inr { s with heartbeatLoop := .ended (.error e) }

def Resume.atOnce : Resume → Bool
  | .go atOnce | .sendRaised atOnce => atOnce
  | .sent | .cancelled => false

def resumeHeartbeat (s : Session) (r : Resume) : Option (Session ⊕ Session) :=
  match r, s.heartbeatLoop with
  | .go _, .starting | .go _, .waiting | .go _, .resting => some (.inl s)
  | .sent, .sending => some (.inr { s with heartbeatLoop := .resting })
  | .sendRaised _, .sending => some (.inl s)
  | .cancelled, .waiting | .cancelled, .sending | .cancelled, .resting =>
    some (.inr { s with heartbeatLoop := .ended (.ok ()) })
  | _, _ => none

/-- One step of `_heartbeat_loop`: if a pass is not enough, it never waits again. -/
def heartbeatStep : Lts.Step Session Resume
  | s, r =>
    match resumeHeartbeat s r with
    | none => none
    | some (.inr t) => some t
    | some (.inl t) =>
      match Loop.iter (heartbeatPass r.atOnce) 1 t with
      | some u => some u
      | none => some { t with heartbeatLoop := .spinning }

def ConnectionState.rank : ConnectionState → ℕ
  | .open => 0
  | .closing => 1
  | .closed => 2

def networkStep (s : Session) (i : ℕ) (state : ConnectionState) : Option Session :=
  match s.connections[i]? with
  | some c =>
    if c.state.rank < state.rank then
      some { s with connections := s.connections.set i { c with state := state } }
    else none
  | none => none

inductive Action
  | message (outcome : Outcome)
  | heartbeat (r : Resume)
  | network (i : ℕ) (state : ConnectionState)

def Session.hangs (s : Session) : Bool :=
  match s.messageLoop, s.heartbeatLoop with
  | .stuck, _ => true
  | _, .spinning => true
  | _, _ => false

def step (json : JsonModule) (roomId : PyJson) : Lts.Step Session Action
  | s, a =>
    if s.hangs then none
    else
      match a with
      | .message outcome => messageStep json roomId s outcome
      | .heartbeat r => heartbeatStep s r
      | .network i state => networkStep s i state

def emptyObject : JsonModule where
  dumps _ := "\x7b\x7d"
  loads text := if text = "\x7b\x7d" then some (.obj []) else none

theorem Session.getElem?_handOver (s : Session) (i j : ℕ) (packet : Packet) :
    (s.handOver i packet).connections[j]? = s.connections[j]?.map fun c =>
      if i = j then { c with sent := c.sent ++ [packet] } else c := by
  rw [Session.handOver, List.getElem?_modify]
  rfl

theorem enter_eq (roomId : PyJson) (s : Session) (atOnce : Bool) :
    enter roomId s atOnce = { s with
      websocket := some s.connections.length
      connections := s.connections ++ [⟨.open, [authPacket roomId]⟩]
      messageLoop := if atOnce then .receiving else .authenticating } := by
  have hmodify : (s.connections ++ [Connection.opened]).modify s.connections.length
      (fun c => { c with sent := c.sent ++ [authPacket roomId] }) =
      s.connections ++ [⟨.open, [authPacket roomId]⟩] := by
    rw [List.modify_eq_set_getElem?]
    simp [Connection.opened]
  have hstate : Connection.opened.state = .open := rfl
  cases atOnce <;> simp [enter, Session.send, Session.handOver, hmodify, hstate]

inductive MessageStep (json : JsonModule) (roomId : PyJson) (s : Session) :
    Outcome → Session → Prop
  | connected (h : s.messageLoop = .connecting) (atOnce : Bool) :
    MessageStep json roomId s (.connected atOnce) (enter roomId s atOnce)
  | connectRaised (h : s.messageLoop = .connecting) (e : PyExc) :
    MessageStep json roomId s (.connectRaised e) (s.leave e)
  | authSent (h : s.messageLoop = .authenticating) :
    MessageStep json roomId s .authSent { s with messageLoop := .receiving }
  | authRaised (h : s.messageLoop = .authenticating) :
    MessageStep json roomId s .authRaised
      { s with messageLoop := .exiting (some .connectionClosed) }
  | message (h : s.messageLoop = .receiving) (message : Bytes) :
    MessageStep json roomId s (.message message) (receive json s message)
  | closedNormally (h : s.messageLoop = .receiving) :
    MessageStep json roomId s .closedNormally { s with messageLoop := .exiting none }
  | connectionLost (h : s.messageLoop = .receiving) :
    MessageStep json roomId s .connectionLost
      { s with messageLoop := .exiting (some .connectionClosed) }
  | exited (h : s.messageLoop = .exiting none) :
    MessageStep json roomId s .exited { s with websocket := none, messageLoop := .connecting }
  | raised {e : PyExc} (h : s.messageLoop = .exiting (some e)) :
    MessageStep json roomId s .exited (s.leave e)
  | slept (h : s.messageLoop = .reconnecting) :
    MessageStep json roomId s .slept { s with websocket := none, messageLoop := .connecting }
  | cancelledConnecting (h : s.messageLoop = .connecting) :
    MessageStep json roomId s .cancelled (s.leave .cancelledError)
  | cancelledInside (h : s.messageLoop = .authenticating ∨ s.messageLoop = .receiving) :
    MessageStep json roomId s .cancelled { s with messageLoop := .exiting (some .cancelledError) }
  | cancelledExiting {pending : Option PyExc} (h : s.messageLoop = .exiting pending) :
    MessageStep json roomId s .cancelled (s.leave .cancelledError)
  | cancelledSleeping (h : s.messageLoop = .reconnecting) :
    MessageStep json roomId s .cancelled
      { s with websocket := none, messageLoop := .ended (.error .cancelledError) }

theorem messageStep_inversion {json : JsonModule} {roomId : PyJson} {s t : Session}
    {outcome : Outcome} (h : messageStep json roomId s outcome = some t) :
    MessageStep json roomId s outcome t := by
  cases outcome with
  | connected atOnce =>
    cases hm : s.messageLoop <;> simp only [messageStep, hm] at h <;> cases h
    exact .connected hm atOnce
  | connectRaised e =>
    cases hm : s.messageLoop <;> simp only [messageStep, hm] at h <;> cases h
    exact .connectRaised hm e
  | authSent =>
    cases hm : s.messageLoop <;> simp only [messageStep, hm] at h <;> cases h
    exact .authSent hm
  | authRaised =>
    cases hm : s.messageLoop <;> simp only [messageStep, hm] at h <;> cases h
    exact .authRaised hm
  | message message =>
    cases hm : s.messageLoop <;> simp only [messageStep, hm] at h <;> cases h
    exact .message hm message
  | closedNormally =>
    cases hm : s.messageLoop <;> simp only [messageStep, hm] at h <;> cases h
    exact .closedNormally hm
  | connectionLost =>
    cases hm : s.messageLoop <;> simp only [messageStep, hm] at h <;> cases h
    exact .connectionLost hm
  | exited =>
    cases hm : s.messageLoop with
    | exiting pending =>
      cases pending <;> simp only [messageStep, hm] at h <;> cases h
      · exact .exited hm
      · exact .raised hm
    | connecting | authenticating | receiving | reconnecting | stuck | ended =>
      simp [messageStep, hm] at h
  | slept =>
    cases hm : s.messageLoop <;> simp only [messageStep, hm] at h <;> cases h
    exact .slept hm
  | cancelled =>
    cases hm : s.messageLoop <;> simp only [messageStep, hm] at h <;> cases h
    · exact .cancelledConnecting hm
    · exact .cancelledInside (.inl hm)
    · exact .cancelledInside (.inr hm)
    · exact .cancelledExiting hm
    · exact .cancelledSleeping hm

def Session.SlotClosed (s : Session) : Prop :=
  ∃ i c, s.websocket = some i ∧ s.connections[i]? = some c ∧ c.state = .closed

theorem heartbeatPass_cases (atOnce : Bool) (s : Session) :
    (s.websocket = none ∧ heartbeatPass atOnce s = .inr { s with heartbeatLoop := .waiting }) ∨
    (∃ i, s.websocket = some i ∧ s.connections[i]? = none ∧
      heartbeatPass atOnce s = .inr { s with heartbeatLoop := .ended (.error .attributeError) }) ∨
    (∃ i c, s.websocket = some i ∧ s.connections[i]? = some c ∧ c.state = .open ∧
      heartbeatPass atOnce s = .inr { s.handOver i heartbeatPacket with
        heartbeatLoop := if atOnce then .resting else .sending }) ∨
    (∃ i c, s.websocket = some i ∧ s.connections[i]? = some c ∧ c.state = .closing ∧
      heartbeatPass atOnce s = .inr { s with heartbeatLoop := .sending }) ∨
    (s.SlotClosed ∧ heartbeatPass atOnce s = .inl s) := by
  cases hslot : s.websocket with
  | none =>
    left
    simp [heartbeatPass, hslot]
  | some i =>
    right
    cases hconnection : s.connections[i]? with
    | none =>
      left
      exact ⟨i, rfl, hconnection, by simp [heartbeatPass, Session.send, hslot, hconnection]⟩
    | some c =>
      right
      cases hstate : c.state with
      | «open» =>
        left
        refine ⟨i, c, rfl, hconnection, hstate, ?_⟩
        cases atOnce <;> simp [heartbeatPass, Session.send, hslot, hconnection, hstate]
      | closing =>
        right
        left
        exact ⟨i, c, rfl, hconnection, hstate,
          by simp [heartbeatPass, Session.send, hslot, hconnection, hstate]⟩
      | closed =>
        right
        right
        exact ⟨⟨i, c, hslot, hconnection, hstate⟩,
          by simp [heartbeatPass, Session.send, hslot, hconnection, hstate]⟩

theorem resumeHeartbeat_cases {s : Session} {r : Resume} {x : Session ⊕ Session}
    (h : resumeHeartbeat s r = some x) :
    x = .inl s ∨ x = .inr { s with heartbeatLoop := .resting } ∨
      x = .inr { s with heartbeatLoop := .ended (.ok ()) } := by
  unfold resumeHeartbeat at h
  split at h <;> cases h <;> simp

section heartbeatStep

variable {s t u : Session} {r : Resume}

theorem heartbeatStep_of_inr (h : resumeHeartbeat s r = some (.inr t)) :
    heartbeatStep s r = some t := by simp only [heartbeatStep, h]

theorem heartbeatStep_of_pass (h : resumeHeartbeat s r = some (.inl t))
    (hpass : heartbeatPass r.atOnce t = .inr u) : heartbeatStep s r = some u := by
  simp only [heartbeatStep, h, Loop.iter_of_inr hpass]

theorem heartbeatStep_of_continue (h : resumeHeartbeat s r = some (.inl t))
    (hpass : heartbeatPass r.atOnce t = .inl u) :
    heartbeatStep s r = some { t with heartbeatLoop := .spinning } := by
  simp only [heartbeatStep, h, Loop.iter, hpass]

end heartbeatStep

end DanmakuChicken.BLive
