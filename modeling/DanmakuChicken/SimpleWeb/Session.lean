import DanmakuChicken.SimpleWeb.Segmentation
import Mathlib.Logic.Function.Basic

/-! The sessions of a server: on every connection a request is read, handed to its resource and
answered, and then the next one is read. -/

namespace DanmakuChicken.SimpleWeb

/-- Where a connection is: its request is read, or its response is written while `incoming` waits
at the socket, or nothing refers to it any more. -/
inductive ConnectionState
  | reading (reading : Reading RequestMessage)
  | writing (incoming : Str) (request : RequestMessage) (response : Str)
    (closeConnectionAfterResponse : Bool)
  | closed

/-- A connection, with the bytes that came in on it, the requests that were handed to a resource,
and the responses that were sent. -/
structure Connection where
  state : ConnectionState := .reading {}
  received : Str := []
  served : List (RequestMessage × Str) := []
  sent : List Str := []

namespace Connection

def keepsAlive (request : RequestMessage) : Bool :=
  let decided := (request.header.equalRange (literal "Connection")).filterMap fun value =>
    if caseInsensitiveEqual value (literal "close") then some false
    else if caseInsensitiveEqual value (literal "keep-alive") then some true
    else none
  decided.head?.getD (decide (literal "1.1" ≤ request.version))

inductive Action
  | read (action : Reading.Action)
  | sent
  | fail
  deriving DecidableEq

end Connection

/-- What `find_resource` finds for a request: a function of the program's state, the request and
its content, that writes a response and says whether the connection is closed after it. -/
abbrev Resource (σ : Type) := σ → RequestMessage → Str → Option (σ × Str × Bool)

structure Entry where
  connection : ℕ
  request : RequestMessage
  content : Str
  response : Str

/-- A server and the state of its program.  `history` has what was handed to resources and what
else the program did, in order. -/
structure Server (σ τ : Type) where
  program : σ
  history : List (Entry ⊕ τ) := []
  connection : ℕ → Connection := fun _ => {}

namespace Server

variable {σ τ : Type} (bits : ℕ) (apply : σ → τ → σ) (resource : Resource σ)

def set (s : Server σ τ) (i : ℕ) (c : Connection) : Server σ τ :=
  { s with connection := Function.update s.connection i c }

/-- What a handler of connection `i` leaves: a request that is read is served by the same
handler. -/
def handled (s : Server σ τ) (i : ℕ) (reading : Reading RequestMessage) : Server σ τ :=
  let c := s.connection i
  match reading.phase with
  | .done request =>
    match resource s.program request reading.stream.buf with
    | some (program, response, closeConnection) =>
      { (s.set i
          { c with
            state := .writing reading.incoming request response closeConnection
            served := c.served ++ [(request, reading.stream.buf)] }) with
        program := program
        history := s.history ++ [.inl ⟨i, request, reading.stream.buf, response⟩] }
    | none => s.set i { c with state := .closed }
  | .failed => s.set i { c with state := .closed }
  | _ => s.set i { c with state := .reading reading }

def connectionStep (s : Server σ τ) (i : ℕ) : Connection.Action → Option (Server σ τ)
  | .read action =>
    let c := s.connection i
    match c.state, action with
    | .reading reading, .arrive bytes =>
      some (s.set i
        { c with
          state := .reading { reading with incoming := reading.incoming ++ bytes }
          received := c.received ++ bytes })
    | .writing incoming request response closeConnection, .arrive bytes =>
      some (s.set i
        { c with
          state := .writing (incoming ++ bytes) request response closeConnection
          received := c.received ++ bytes })
    | .reading reading, action =>
      (reading.step (requestFormat bits) action).map (s.handled resource i)
    | _, _ => none
  | .sent =>
    let c := s.connection i
    match c.state with
    | .writing incoming request response closeConnection =>
      some (s.set i
        { c with
          -- the next session starts with an empty buffer
          state :=
            if closeConnection = false ∧ Connection.keepsAlive request then
              .reading { incoming := incoming }
            else .closed
          sent := c.sent ++ [response] })
    | _ => none
  | .fail => some (s.set i { s.connection i with state := .closed })

def step (s : Server σ τ) : (ℕ × Connection.Action) ⊕ τ → Option (Server σ τ)
  | .inl (i, a) => s.connectionStep bits resource i a
  | .inr op =>
    some { s with program := apply s.program op, history := s.history ++ [.inr op] }

end Server

structure Exchange (bits : ℕ) where
  head : Str
  body : Str
  request : RequestMessage
  content : Str
  isHead : IsHead (requestFormat bits) head request
  isBody : Body (requestFormat bits) request body content

namespace Exchange

variable {bits : ℕ}

def text (exchange : Exchange bits) : Str := exchange.head ++ exchange.body

def served (exchange : Exchange bits) : RequestMessage × Str :=
  (exchange.request, exchange.content)

end Exchange

namespace Server

variable {σ τ : Type} {bits : ℕ} {apply : σ → τ → σ} {resource : Resource σ}

/-- The client of connection `i` sends the requests of its script, each after the answers to those
before it. -/
def Follows (i : ℕ) (script : List (Exchange bits)) (s : Server σ τ) :
    (ℕ × Connection.Action) ⊕ τ → Prop
  | .inl (j, .read (.arrive bytes)) => i = j → (s.connection i).received ++ bytes <+:
    (script.take ((s.connection i).sent.length + 1)).flatMap Exchange.text
  | _ => True

instance decidableFollows (i : ℕ) (script : List (Exchange bits)) (s : Server σ τ) :
    (a : (ℕ × Connection.Action) ⊕ τ) → Decidable (Follows i script s a)
  | .inl (_, .read (.arrive _)) => inferInstanceAs (Decidable (_ → _))
  | .inl (_, .read (.receive _)) | .inl (_, .read .complete) | .inl (_, .read .close)
  | .inl (_, .sent) | .inl (_, .fail) | .inr _ => isTrue trivial

inductive OnScript (script : List (Exchange bits)) : Connection → Prop
  | reading {before rest : List (Exchange bits)} {exchange : Exchange bits}
    {reading : Reading RequestMessage} {unsent : Str} {sent : List Str}
    (hscript : script = before ++ exchange :: rest) (hsent : sent.length = before.length)
    (h : Reading.Reads (requestFormat bits) exchange.head exchange.request exchange.content []
      reading unsent)
    (hpending : ∀ request, reading.phase ≠ .done request) {received : Str}
    (hreceived : received ++ unsent = (before ++ [exchange]).flatMap Exchange.text) :
    OnScript script ⟨.reading reading, received, before.map Exchange.served, sent⟩
  | writing {before rest : List (Exchange bits)} {exchange : Exchange bits} {response : Str}
    {closeConnection : Bool} {sent : List Str} (hscript : script = before ++ exchange :: rest)
    (hsent : sent.length = before.length) :
    OnScript script ⟨.writing [] exchange.request response closeConnection,
      (before ++ [exchange]).flatMap Exchange.text,
      (before ++ [exchange]).map Exchange.served, sent⟩
  | finished {sent : List Str} (hsent : sent.length = script.length) :
    OnScript script ⟨.reading {}, script.flatMap Exchange.text, script.map Exchange.served, sent⟩
  | closed {received : Str} {served : List (RequestMessage × Str)} {sent : List Str}
    (hserved : served <+: script.map Exchange.served) (hsent : sent.length ≤ served.length) :
    OnScript script ⟨.closed, received, served, sent⟩

section OnScript

variable {script : List (Exchange bits)} {c : Connection}

theorem OnScript.served_of_script (h : OnScript script c) :
    c.served <+: script.map Exchange.served := by
  cases h with
  | @reading _ rest exchange _ _ _ hscript _ _ _ _ _ =>
    exact ⟨(exchange :: rest).map Exchange.served, by simp [hscript]⟩
  | @writing _ rest _ _ _ _ hscript _ => exact ⟨rest.map Exchange.served, by simp [hscript]⟩
  | finished _ => exact List.prefix_rfl
  | closed hserved _ => exact hserved

theorem OnScript.sent_le (h : OnScript script c) : c.sent.length ≤ c.served.length := by
  cases h with
  | reading _ hsent _ _ _ => simp [hsent]
  | writing _ hsent => simp [hsent]
  | finished hsent => simp [hsent]
  | closed _ hsent => exact hsent

theorem OnScript.close (h : OnScript script c) : OnScript script { c with state := .closed } :=
  .closed h.served_of_script h.sent_le

theorem onScript_next {before rest : List (Exchange bits)} {sent : List Str}
    (hscript : script = before ++ rest) (hsent : sent.length = before.length) :
    OnScript script
      ⟨.reading {}, before.flatMap Exchange.text, before.map Exchange.served, sent⟩ := by
  cases rest with
  | nil =>
    obtain rfl : script = before := by simpa using hscript
    exact .finished hsent
  | cons exchange rest =>
    have hreads : Reading.Reads (requestFormat bits) exchange.head exchange.request
        exchange.content [] {} exchange.text :=
      .pending (.head exchange.isBody) (by simp [Exchange.text])
    exact .reading hscript hsent hreads (by simp) (by simp)

end OnScript

variable {script : List (Exchange bits)} {s t : Server σ τ} {i j : ℕ} {c : Connection}

theorem connection_set_self (s : Server σ τ) (i : ℕ) (c : Connection) :
    (s.set i c).connection i = c := by simp [set]

theorem connection_set_of_ne (s : Server σ τ) {i j : ℕ} (h : i ≠ j) (c : Connection) :
    (s.set j c).connection i = s.connection i := by simp [set, h]

theorem onScript_handled {before rest : List (Exchange bits)} {exchange : Exchange bits}
    {reading : Reading RequestMessage} {unsent : Str}
    (hscript : script = before ++ exchange :: rest)
    (hserved : (s.connection i).served = before.map Exchange.served)
    (hsent : (s.connection i).sent.length = before.length)
    (hreceived : (s.connection i).received ++ unsent =
      (before ++ [exchange]).flatMap Exchange.text)
    (h : Reading.Reads (requestFormat bits) exchange.head exchange.request exchange.content []
      reading unsent) :
    OnScript script ((s.handled resource i reading).connection i) := by
  cases h with
  | @pending incoming buf text _ phase h heq =>
    have hhandled : s.handled resource i ⟨incoming, ⟨buf, true⟩, phase⟩ =
        s.set i { s.connection i with state := .reading ⟨incoming, ⟨buf, true⟩, phase⟩ } := by
      cases h <;> rfl
    rw [hhandled, connection_set_self]
    dsimp only
    rw [hserved]
    exact .reading hscript hsent (.pending h heq) (by cases h <;> simp) hreceived
  | @done incoming surplus _ hextra =>
    obtain ⟨rfl, rfl, rfl⟩ : surplus = [] ∧ incoming = [] ∧ unsent = [] := by simpa using hextra
    rw [List.append_nil] at hreceived
    have hdelivered : (requestFormat bits).delivered exchange.request exchange.content [] =
        exchange.content := by simp [Format.delivered]
    cases hresource : resource s.program exchange.request exchange.content with
    | none =>
      have hhandled : s.handled resource i ⟨[], ⟨exchange.content, true⟩, .done exchange.request⟩ =
          s.set i { s.connection i with state := .closed } := by simp [handled, hresource]
      rw [hdelivered, hhandled, connection_set_self]
      refine .closed ?_ ?_
      · exact ⟨(exchange :: rest).map Exchange.served, by simp [hscript, hserved]⟩
      · simp [hserved, hsent]
    | some answer =>
      obtain ⟨program, response, closeConnection⟩ := answer
      have hhandled : (s.handled resource i
          ⟨[], ⟨exchange.content, true⟩, .done exchange.request⟩).connection i =
            ⟨.writing [] exchange.request response closeConnection,
              (before ++ [exchange]).flatMap Exchange.text,
              (before ++ [exchange]).map Exchange.served, (s.connection i).sent⟩ := by
        simp [handled, hresource, set, hserved, hreceived, Exchange.served]
      rw [hdelivered, hhandled]
      exact .writing hscript hsent

inductive Steps (bits : ℕ) (resource : Resource σ) (s : Server σ τ) (i : ℕ) :
    Connection.Action → Server σ τ → Prop
  | arriveReading {bytes : Str} {reading : Reading RequestMessage}
    (h : (s.connection i).state = .reading reading) :
    Steps bits resource s i (.read (.arrive bytes)) (s.set i
      { s.connection i with
        state := .reading { reading with incoming := reading.incoming ++ bytes }
        received := (s.connection i).received ++ bytes })
  | arriveWriting {bytes incoming response : Str} {request : RequestMessage}
    {closeConnection : Bool}
    (h : (s.connection i).state = .writing incoming request response closeConnection) :
    Steps bits resource s i (.read (.arrive bytes)) (s.set i
      { s.connection i with
        state := .writing (incoming ++ bytes) request response closeConnection
        received := (s.connection i).received ++ bytes })
  | handled {action : Reading.Action} {reading reading' : Reading RequestMessage}
    (haction : action.isArrival = false) (h : (s.connection i).state = .reading reading)
    (hreading : reading.step (requestFormat bits) action = some reading') :
    Steps bits resource s i (.read action) (s.handled resource i reading')
  | sent {incoming response : Str} {request : RequestMessage} {closeConnection : Bool}
    (h : (s.connection i).state = .writing incoming request response closeConnection) :
    Steps bits resource s i .sent (s.set i
      { s.connection i with
        state :=
          if closeConnection = false ∧ Connection.keepsAlive request then
            .reading { incoming := incoming }
          else .closed
        sent := (s.connection i).sent ++ [response] })
  | fail : Steps bits resource s i .fail (s.set i { s.connection i with state := .closed })

theorem steps_of_step {a : Connection.Action} (ht : s.connectionStep bits resource i a = some t) :
    Steps bits resource s i a t := by
  cases a with
  | fail =>
    cases ht
    exact .fail
  | sent =>
    simp only [connectionStep] at ht
    split at ht
    · rename_i hstate
      cases ht
      exact .sent hstate
    · cases ht
  | read action =>
    simp only [connectionStep] at ht
    split at ht
    · rename_i hstate
      cases ht
      exact .arriveReading hstate
    · rename_i hstate
      cases ht
      exact .arriveWriting hstate
    · rename_i action _ _ reading hstate hne
      obtain ⟨reading', hreading, rfl⟩ := Option.map_eq_some_iff.mp ht
      have haction : action.isArrival = false := by
        cases action with
        | arrive bytes => exact absurd rfl (hne bytes)
        | receive | complete | close => rfl
      exact .handled haction hstate hreading
    · cases ht

theorem connection_handled_of_ne (h : i ≠ j) (reading : Reading RequestMessage) :
    (s.handled resource j reading).connection i = s.connection i := by
  simp only [handled]
  split
  · split <;> simp [set, h]
  · exact connection_set_of_ne s h _
  · exact connection_set_of_ne s h _

theorem connection_of_ne {a : Connection.Action} (h : i ≠ j)
    (ht : s.connectionStep bits resource j a = some t) : t.connection i = s.connection i := by
  cases steps_of_step ht with
  | handled => exact connection_handled_of_ne h _
  | arriveReading | arriveWriting | sent | fail => exact connection_set_of_ne s h _

theorem take_script {before rest : List (Exchange bits)} {exchange : Exchange bits}
    (hscript : script = before ++ exchange :: rest) :
    script.take (before.length + 1) = before ++ [exchange] := by
  rw [hscript, List.append_cons]
  exact List.take_left' (by simp)

theorem exists_unsent {bytes : Str}
    (hfollows : Follows i script s (.inl (i, .read (.arrive bytes))))
    {before rest : List (Exchange bits)} (hscript : script = before ++ rest)
    (hsent : (s.connection i).sent.length + 1 = before.length) :
    ∃ unsent, (s.connection i).received ++ bytes ++ unsent = before.flatMap Exchange.text := by
  obtain ⟨unsent, hunsent⟩ := hfollows rfl
  rw [hscript, hsent, List.take_left] at hunsent
  exact ⟨unsent, hunsent⟩

theorem eq_nil_of_follows {bytes : Str}
    (hfollows : Follows i script s (.inl (i, .read (.arrive bytes))))
    (hreceived : (s.connection i).received =
      (script.take ((s.connection i).sent.length + 1)).flatMap Exchange.text) : bytes = [] := by
  have hprefix := hfollows rfl
  rw [← hreceived] at hprefix
  have hlen := hprefix.length_le
  rw [List.length_append] at hlen
  exact List.length_eq_zero_iff.mp (by omega)

theorem handled_of_close {reading reading' : Reading RequestMessage}
    (hreading : reading.step (requestFormat bits) .close = some reading')
    (htoEnd : ∀ request, reading.phase ≠ .toEnd request) :
    s.handled resource i reading' = s.set i { s.connection i with state := .closed } := by
  obtain ⟨⟨-, htakes⟩, hclose⟩ := Option.ite_none_right_eq_some.mp hreading
  obtain ⟨incoming, stream, phase⟩ := reading
  cases phase with
  | toEnd request => exact absurd rfl (htoEnd request)
  | head | content | chunkSize | chunk =>
    cases hclose
    rfl
  | done | failed | hung | undefined => cases htakes

theorem OnScript.arriveReading (h : OnScript script (s.connection i)) {bytes : Str}
    {reading : Reading RequestMessage}
    (hfollows : Follows i script s (.inl (i, .read (.arrive bytes))))
    (hstate : (s.connection i).state = .reading reading) :
    OnScript script
      { s.connection i with
        state := .reading { reading with incoming := reading.incoming ++ bytes }
        received := (s.connection i).received ++ bytes } := by
  generalize hc : s.connection i = c at h
  rw [hc] at hstate
  cases h with
  | @reading before rest exchange _ unsent sent hscript hsent hreads hpending received
      hreceived =>
    cases hstate
    have hscript' : script = (before ++ [exchange]) ++ rest := by simp [hscript]
    obtain ⟨unsent', hunsent⟩ := exists_unsent hfollows hscript' (by simp [hc, hsent])
    rw [hc] at hunsent
    have heq : unsent = bytes ++ unsent' := by
      rw [← hreceived, List.append_assoc] at hunsent
      exact (List.append_cancel_left hunsent).symm
    rw [heq] at hreads
    exact .reading hscript hsent (hreads.step exchange.isHead (a := .arrive bytes) (by simp) rfl)
      hpending hunsent
  | @finished sent hsent =>
    have hnil : bytes = [] := by
      apply eq_nil_of_follows hfollows
      simp [hc, hsent, List.take_of_length_le]
    cases hstate
    subst hnil
    simpa using OnScript.finished hsent
  | writing | closed => cases hstate

theorem OnScript.arriveWriting (h : OnScript script (s.connection i)) {bytes incoming
    response : Str} {request : RequestMessage} {closeConnection : Bool}
    (hfollows : Follows i script s (.inl (i, .read (.arrive bytes))))
    (hstate : (s.connection i).state = .writing incoming request response closeConnection) :
    OnScript script
      { s.connection i with
        state := .writing (incoming ++ bytes) request response closeConnection
        received := (s.connection i).received ++ bytes } := by
  generalize hc : s.connection i = c at h
  rw [hc] at hstate
  cases h with
  | @writing before rest exchange _ _ sent hscript hsent =>
    have hnil : bytes = [] := by
      apply eq_nil_of_follows hfollows
      simp [hc, hsent, take_script hscript]
    cases hstate
    subst hnil
    simpa using @OnScript.writing bits script before rest exchange response closeConnection sent
      hscript hsent
  | reading | finished | closed => cases hstate

theorem OnScript.handled (h : OnScript script (s.connection i)) {action : Reading.Action}
    {reading reading' : Reading RequestMessage} (haction : action.isArrival = false)
    (hstate : (s.connection i).state = .reading reading)
    (hreading : reading.step (requestFormat bits) action = some reading') :
    OnScript script ((s.handled resource i reading').connection i) := by
  have hclosed := h.close
  generalize hc : s.connection i = c at h
  rw [hc] at hstate
  cases h with
  | @reading before rest exchange _ unsent sent hscript hsent hreads hpending received
      hreceived =>
    cases hstate
    by_cases hclose : action = .close
    · subst hclose
      rw [handled_of_close hreading, connection_set_self]
      · exact hclosed
      · cases hreads with
        | pending h _ => cases h <;> simp
        | done _ => simp
    · have hnone : Reading.arrivedBy action = [] := by
        cases action with
        | arrive bytes => cases haction
        | receive | complete | close => rfl
      have hreads' : Reading.Reads (requestFormat bits) exchange.head exchange.request
          exchange.content [] reading' unsent :=
        Reading.Reads.step exchange.isHead (a := action) (by rw [hnone]; exact hreads) hclose
          hreading
      exact onScript_handled hscript (by rw [hc]) (by rw [hc]; exact hsent)
        (by rw [hc]; exact hreceived) hreads'
  | @finished sent hsent =>
    cases hstate
    -- nothing has arrived, so only the end of the connection can be reported
    cases action with
    | arrive bytes => cases haction
    | receive n =>
      obtain ⟨⟨hpos, hle, -⟩, -⟩ := Option.ite_none_right_eq_some.mp hreading
      exact absurd hle (not_le.mpr hpos)
    | complete => cases hreading
    | close =>
      rw [handled_of_close hreading (by simp), connection_set_self]
      exact hclosed
  | writing | closed => cases hstate

theorem OnScript.sent (h : OnScript script c) {incoming response : Str} {request : RequestMessage}
    {closeConnection : Bool}
    (hstate : c.state = .writing incoming request response closeConnection) :
    OnScript script
      { c with
        state :=
          if closeConnection = false ∧ Connection.keepsAlive request then
            .reading { incoming := incoming }
          else .closed
        sent := c.sent ++ [response] } := by
  cases h with
  | @writing before rest exchange _ _ sent hscript hsent =>
    cases hstate
    split_ifs
    · exact onScript_next (by simp [hscript] : script = (before ++ [exchange]) ++ rest)
        (by simp [hsent])
    · exact .closed ⟨rest.map Exchange.served, by simp [hscript]⟩ (by simp [hsent])
  | reading | finished | closed => cases hstate

theorem OnScript.step {a : Connection.Action} (h : OnScript script (s.connection i))
    (hfollows : Follows i script s (.inl (i, a)))
    (ht : s.connectionStep bits resource i a = some t) :
    OnScript script (t.connection i) := by
  cases steps_of_step ht with
  | fail =>
    rw [connection_set_self]
    exact h.close
  | arriveReading hstate =>
    rw [connection_set_self]
    exact h.arriveReading hfollows hstate
  | arriveWriting hstate =>
    rw [connection_set_self]
    exact h.arriveWriting hfollows hstate
  | handled haction hstate hreading => exact h.handled haction hstate hreading
  | sent hstate =>
    rw [connection_set_self]
    exact h.sent hstate

theorem onScript_of_run {program : σ} {actions : List ((ℕ × Connection.Action) ⊕ τ)}
    {u : Server σ τ}
    (hfollows : Lts.Along (Server.step bits apply resource) (Follows i script)
      { program := program } actions)
    (hrun : Lts.run (Server.step bits apply resource) { program := program } actions = some u) :
    OnScript script (u.connection i) := by
  refine hfollows.invariant (I := fun s : Server σ τ => OnScript script (s.connection i)) ?_
    (onScript_next (List.nil_append script).symm rfl) hrun
  rintro s (⟨j, a⟩ | op) t hs hfollows ht
  swap
  · cases ht
    exact hs
  by_cases hij : i = j
  · subst hij
    exact hs.step hfollows ht
  · rw [connection_of_ne hij ht]
    exact hs

def entries (s : Server σ τ) (i : ℕ) : List Entry :=
  (s.history.filterMap Sum.getLeft?).filter (·.connection = i)

def programStep (apply : σ → τ → σ) (resource : Resource σ) : Lts.Step σ (Entry ⊕ τ)
  | program, .inl entry =>
    (resource program entry.request entry.content).bind fun (program, response, _) =>
      if response = entry.response then some program else none
  | program, .inr op => some (apply program op)

structure Logged (apply : σ → τ → σ) (resource : Resource σ) (program : σ) (s : Server σ τ) :
    Prop where
  program : Lts.run (programStep apply resource) program s.history = some s.program
  served : ∀ i, (s.connection i).served = (s.entries i).map fun e => (e.request, e.content)
  sent : ∀ i, match (s.connection i).state with
    | .reading _ => (s.connection i).sent = (s.entries i).map Entry.response
    | .writing _ _ response _ =>
      (s.connection i).sent ++ [response] = (s.entries i).map Entry.response
    | .closed => (s.connection i).sent <+: (s.entries i).map Entry.response

theorem Logged.sent_of_history {program : σ} (h : Logged apply resource program s) (i : ℕ) :
    (s.connection i).sent <+: (s.entries i).map Entry.response := by
  have hsent := h.sent i
  split at hsent
  · rw [hsent]
  · exact ⟨_, hsent⟩
  · exact hsent

theorem Logged.set {program : σ} (h : Logged apply resource program s) {c : Connection}
    (hserved : c.served = (s.connection i).served)
    (hsent : match c.state with
      | .reading _ => c.sent = (s.entries i).map Entry.response
      | .writing _ _ response _ => c.sent ++ [response] = (s.entries i).map Entry.response
      | .closed => c.sent <+: (s.entries i).map Entry.response) :
    Logged apply resource program (s.set i c) := by
  refine ⟨h.program, fun j => ?_, fun j => ?_⟩
  · by_cases hij : j = i
    · subst hij
      rw [connection_set_self, hserved]
      exact h.served j
    · rw [connection_set_of_ne s hij]
      exact h.served j
  · by_cases hij : j = i
    · subst hij
      rw [connection_set_self]
      exact hsent
    · rw [connection_set_of_ne s hij]
      exact h.sent j

theorem Logged.serve {program program' : σ} (h : Logged apply resource program s) {incoming content
    response : Str} {request : RequestMessage} {closeConnection : Bool}
    (hsent : (s.connection i).sent = (s.entries i).map Entry.response)
    (hresource : resource s.program request content = some (program', response, closeConnection)) :
    Logged apply resource program
      { (s.set i
          { s.connection i with
            state := .writing incoming request response closeConnection
            served := (s.connection i).served ++ [(request, content)] }) with
        program := program'
        history := s.history ++ [.inl ⟨i, request, content, response⟩] } := by
  have hentries (j : ℕ) (t : Server σ τ)
      (ht : t.history = s.history ++ [.inl ⟨i, request, content, response⟩]) :
      t.entries j = s.entries j ++ if i = j then [⟨i, request, content, response⟩] else [] := by
    rw [entries, ht, List.filterMap_append, List.filter_append, entries]
    split_ifs with hij <;> simp [hij]
  refine ⟨?_, fun j => ?_, fun j => ?_⟩
  · exact Lts.run_concat_eq_some.mpr ⟨s.program, h.program, by simp [programStep, hresource]⟩
  · rw [hentries j _ rfl]
    by_cases hij : j = i
    · subst hij
      simp [Server.set, h.served j]
    · simp [Server.set, hij, Ne.symm hij, h.served j]
  · rw [hentries j _ rfl]
    by_cases hij : j = i
    · subst hij
      simp [Server.set, hsent]
    · simpa [Server.set, hij, Ne.symm hij] using h.sent j

theorem Logged.handled {program : σ} (h : Logged apply resource program s)
    (hsent : (s.connection i).sent = (s.entries i).map Entry.response)
    (reading : Reading RequestMessage) :
    Logged apply resource program (s.handled resource i reading) := by
  have hclosed : Logged apply resource program (s.set i { s.connection i with state := .closed }) :=
    h.set rfl (h.sent_of_history i)
  simp only [Server.handled]
  split
  · split
    · rename_i hresource
      exact h.serve hsent hresource
    · exact hclosed
  · exact hclosed
  · exact h.set rfl hsent

theorem Logged.step {program : σ} {a : Connection.Action} (h : Logged apply resource program s)
    (ht : s.connectionStep bits resource i a = some t) : Logged apply resource program t := by
  have hsent := h.sent i
  cases steps_of_step ht with
  | fail => exact h.set rfl (h.sent_of_history i)
  | arriveReading hstate =>
    rw [hstate] at hsent
    exact h.set rfl hsent
  | arriveWriting hstate =>
    rw [hstate] at hsent
    exact h.set rfl hsent
  | @sent incoming response request closeConnection hstate =>
    rw [hstate] at hsent
    refine h.set rfl ?_
    dsimp only
    split_ifs
    · exact hsent
    · dsimp only
      rw [hsent]
  | @handled action reading reading' haction hstate hreading =>
    rw [hstate] at hsent
    exact h.handled hsent reading'

theorem Logged.op {program : σ} (h : Logged apply resource program s) (op : τ) :
    Logged apply resource program
      { s with program := apply s.program op, history := s.history ++ [.inr op] } := by
  have hentries (i : ℕ) (t : Server σ τ) (ht : t.history = s.history ++ [.inr op]) :
      t.entries i = s.entries i := by
    rw [entries, ht, List.filterMap_append, List.filter_append, entries]
    simp
  refine ⟨?_, fun i => ?_, fun i => ?_⟩
  · exact Lts.run_concat_eq_some.mpr ⟨s.program, h.program, rfl⟩
  · rw [hentries i _ rfl]
    exact h.served i
  · rw [hentries i _ rfl]
    exact h.sent i

theorem logged_of_run {program : σ} {actions : List ((ℕ × Connection.Action) ⊕ τ)}
    {u : Server σ τ}
    (hrun : Lts.run (Server.step bits apply resource) { program := program } actions = some u) :
    Logged apply resource program u := by
  refine Lts.invariant (I := Logged apply resource program) ?_
    ⟨rfl, fun _ => rfl, fun _ => rfl⟩ hrun
  rintro s (⟨i, a⟩ | op) t h ht
  · exact h.step ht
  · cases ht
    exact h.op op

theorem entries_isPrefix {program : σ} {actions : List ((ℕ × Connection.Action) ⊕ τ)}
    {u : Server σ τ}
    (hfollows : Lts.Along (Server.step bits apply resource) (Follows i script)
      { program := program } actions)
    (hrun : Lts.run (Server.step bits apply resource) { program := program } actions = some u) :
    (u.entries i).map (fun e => (e.request, e.content)) <+: script.map Exchange.served := by
  rw [← (logged_of_run hrun).served i]
  exact (onScript_of_run hfollows hrun).served_of_script

theorem served_of_run {program : σ} {actions : List ((ℕ × Connection.Action) ⊕ τ)}
    {u : Server σ τ}
    (hfollows : Lts.Along (Server.step bits apply resource) (Follows i script)
      { program := program } actions)
    (hrun : Lts.run (Server.step bits apply resource) { program := program } actions = some u) :
    (u.entries i).map (fun e => (e.request, e.content)) <+: script.map Exchange.served ∧
      (u.connection i).sent <+: (u.entries i).map Entry.response ∧
      Lts.run (programStep apply resource) program u.history = some u.program := by
  have hlogged := logged_of_run hrun
  exact ⟨entries_isPrefix hfollows hrun, hlogged.sent_of_history i, hlogged.program⟩

def chunkedExchange : Exchange 32 :=
  ⟨Reading.chunkedHead, Reading.chunkedBody, Reading.chunkedRequest, literal "hi",
    Reading.isHead_chunkedHead, Reading.body_chunkedBody⟩

def echo : Resource ℕ := fun n _ content => some (n + 1, content, false)

def twoRequests : List ((ℕ × Connection.Action) ⊕ ℕ) :=
  [.inl (0, .read (.arrive chunkedExchange.text)), .inl (1, .read (.arrive (literal "?\r\n\r\n"))),
    .inl (0, .read (.receive 58)), .inl (1, .read (.receive 5)), .inl (0, .read .complete),
    .inl (0, .read .complete), .inl (1, .read .complete), .inl (0, .read .complete), .inr 7,
    .inl (0, .sent), .inl (0, .read (.arrive (chunkedExchange.text.take 9)))]

theorem isSome_twoRequests : (Lts.run (Server.step (σ := ℕ) 32 (· + ·) echo) { program := 0 }
    twoRequests).isSome := by decide

theorem follows_twoRequests :
    Lts.Along (Server.step (σ := ℕ) 32 (· + ·) echo) (Follows 0 [chunkedExchange, chunkedExchange])
      { program := 0 } twoRequests := by decide

theorem served_of_run_twoRequests :
    ∃ u, Lts.run (Server.step (σ := ℕ) 32 (· + ·) echo) { program := 0 } twoRequests = some u ∧
      (u.entries 0).map (fun e => (e.request, e.content)) <+:
        [chunkedExchange, chunkedExchange].map Exchange.served ∧
      (u.connection 0).sent <+: (u.entries 0).map Entry.response ∧
      Lts.run (programStep (· + ·) echo) 0 u.history = some u.program :=
  ⟨_, (Option.some_get isSome_twoRequests).symm,
    served_of_run follows_twoRequests (Option.some_get isSome_twoRequests).symm⟩

theorem progress_of_run {program : σ} {actions : List ((ℕ × Connection.Action) ⊕ τ)}
    {u : Server σ τ}
    (hfollows : Lts.Along (Server.step bits apply resource) (Follows i script)
      { program := program } actions)
    (hrun : Lts.run (Server.step bits apply resource) { program := program } actions = some u) :
    (u.connection i).state = .closed ∨
      (u.connection i).received ≠
        (script.take ((u.connection i).sent.length + 1)).flatMap Exchange.text ∨
      (u.connection i).sent.length = script.length ∨
      ∃ a ∈ [.read (.receive 1), .read .complete, .sent],
        (u.connectionStep bits resource i a).isSome := by
  have h := onScript_of_run hfollows hrun
  generalize hc : u.connection i = c at h
  cases h with
  | closed => exact .inl rfl
  | finished hsent => exact .inr (.inr (.inl hsent))
  | writing => exact .inr (.inr (.inr ⟨.sent, by simp, by simp [connectionStep, hc]⟩))
  | @reading before rest exchange reading unsent sent hscript hsent hreads hpending received
      hreceived =>
    right
    by_cases hunsent : unsent = []
    · subst hunsent
      right
      right
      obtain hdone | hreceive | hcomplete := hreads.progress exchange.isHead
      · exact absurd hdone (hpending _)
      · exact ⟨.read (.receive 1), by simp, by simpa [connectionStep, hc] using hreceive⟩
      · exact ⟨.read .complete, by simp, by simpa [connectionStep, hc] using hcomplete⟩
    · left
      simpa [hsent, take_script hscript, ← hreceived] using hunsent

theorem progress_of_run_twoRequests :
    ∃ u, Lts.run (Server.step (σ := ℕ) 32 (· + ·) echo) { program := 0 } twoRequests = some u ∧
      ((u.connection 0).state = .closed ∨
        (u.connection 0).received ≠ ([chunkedExchange, chunkedExchange].take
          ((u.connection 0).sent.length + 1)).flatMap Exchange.text ∨
        (u.connection 0).sent.length = [chunkedExchange, chunkedExchange].length ∨
        ∃ a ∈ [.read (.receive 1), .read .complete, .sent],
          (u.connectionStep 32 echo 0 a).isSome) :=
  ⟨_, (Option.some_get isSome_twoRequests).symm,
    progress_of_run follows_twoRequests (Option.some_get isSome_twoRequests).symm⟩

end Server

end DanmakuChicken.SimpleWeb
