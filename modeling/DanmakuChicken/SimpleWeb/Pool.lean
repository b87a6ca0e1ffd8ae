import DanmakuChicken.Lib.Lts
import DanmakuChicken.Lib.Slots
import Mathlib.Data.List.Nodup
import Mathlib.Data.List.Perm.Subperm
import Mathlib.Logic.Function.Basic
import Mathlib.Tactic

/-! The connections of a client: requests that are in flight together share none of them, a request
that finds its connection dead gets a new one once, and at most one idle connection is kept. -/

namespace DanmakuChicken.SimpleWeb.Pool

structure Connection where
  inUse : Bool := false
  attemptReconnect : Bool := true
  deriving DecidableEq

inductive Phase
  | connecting
  | writing
  | reading
  | body
  | returned (error : Bool)
  deriving DecidableEq

def Phase.inFlight : Phase → Bool
  | .returned _ => false
  | _ => true

structure Session where
  connection : ℕ
  phase : Phase := .connecting
  reconnects : ℕ := 0
  deriving DecidableEq

/-- The connections that were ever created are those below `created`; `connections` is the set. -/
structure State where
  created : ℕ := 0
  object : ℕ → Connection := fun _ => {}
  connections : List ℕ := []
  sessions : List Session := []

/-- How an operation of a session ends: `more` is a head with a content that has to be read, or a
chunk that is not the last, `failed` an error of the network, which may be that `stop` has canceled
it. -/
inductive Event
  | success
  | more
  | malformed
  | tooLarge
  | failed (aborted : Bool)
  deriving DecidableEq

/-- The set is iterated in an order of its own each time. -/
inductive Action
  | request (order : List ℕ)
  | handle (k : ℕ) (event : Event) (order : List ℕ)
  | stop
  deriving DecidableEq

/-- The loop that keeps one connection open: `unused` is `unused_connections`. -/
def keepOne (inUse : ℕ → Bool) (error : Bool) (connection : ℕ) : ℕ → List ℕ → List ℕ
  | _, [] => []
  | unused, it :: order =>
    if error ∧ connection = it then keepOne inUse error connection unused order
    else if inUse it then it :: keepOne inUse error connection unused order
    else if unused + 1 > 1 then keepOne inUse error connection (unused + 1) order
    else it :: keepOne inUse error connection (unused + 1) order

namespace State

def setObject (s : State) (c : ℕ) (object : Connection) : State :=
  { s with object := Function.update s.object c object }

def create (s : State) (object : Connection) : State :=
  { s.setObject s.created object with
    created := s.created + 1
    connections := s.connections ++ [s.created] }

def getConnection (s : State) (order : List ℕ) : ℕ × State :=
  match order.find? fun c => !(s.object c).inUse with
  | some c => (c, s.setObject c { inUse := true, attemptReconnect := true })
  | none => (s.created, s.create { inUse := true, attemptReconnect := true })

def callback (s : State) (k : ℕ) (x : Session) (error : Bool) (order : List ℕ) : Option State :=
  if order.Perm s.connections then
    let s := s.setObject x.connection { s.object x.connection with inUse := false }
    some { s with
      connections := keepOne (fun c => (s.object c).inUse) error x.connection 0 order
      sessions := s.sessions.set k { x with phase := .returned error } }
  else none

def advance (s : State) (k : ℕ) (x : Session) (phase : Phase) : State :=
  { s with sessions := s.sessions.set k { x with phase := phase } }

def allow (s : State) (x : Session) : State :=
  s.setObject x.connection { s.object x.connection with attemptReconnect := true }

def reconnect (s : State) (k : ℕ) (x : Session) : State :=
  let t := { s with connections := s.connections.erase x.connection }.create
    { inUse := true, attemptReconnect := false }
  { t with
    sessions := t.sessions.set k
      { connection := s.created, phase := .connecting, reconnects := x.reconnects + 1 } }

def handle (s : State) (k : ℕ) (x : Session) (event : Event) (order : List ℕ) : Option State :=
  match x.phase, event with
  | .connecting, .success => some (s.advance k x .writing)
  | .writing, .success => some (s.advance k x .reading)
  | .reading, .success => (s.allow x).callback k x false order
  | .reading, .more => some ((s.allow x).advance k x .body)
  | .reading, .malformed => (s.allow x).callback k x true order
  | .reading, .failed aborted =>
    if (s.object x.connection).attemptReconnect ∧ aborted = false ∧
        x.connection ∈ s.connections then
      some (s.reconnect k x)
    else s.callback k x true order
  | .body, .success => s.callback k x false order
  | .body, .more => some (s.advance k x .body)
  | .connecting, .failed _ | .writing, .failed _ | .body, .failed _ | .reading, .tooLarge
  | .body, .tooLarge | .body, .malformed => s.callback k x true order
  | _, _ => none

end State

def step (s : State) : Action → Option State
  | .request order =>
    if order.Perm s.connections then
      let (c, s) := s.getConnection order
      some { s with sessions := s.sessions ++ [{ connection := c }] }
    else none
  | .handle k event order => s.sessions[k]?.bind fun x => s.handle k x event order
  | .stop => some { s with connections := [] }

section keepOne

variable {inUse : ℕ → Bool} {error : Bool} {connection unused : ℕ} {order : List ℕ}

theorem keepOne_sublist : (keepOne inUse error connection unused order).Sublist order := by
  induction order generalizing unused with
  | nil => exact List.Sublist.refl _
  | cons it order ih =>
    rw [keepOne]
    split_ifs
    · exact ih.cons it
    · exact ih.cons_cons it
    · exact ih.cons it
    · exact ih.cons_cons it

theorem countP_keepOne_le : (keepOne inUse error connection unused order).countP (!inUse ·) ≤
    1 - unused := by
  induction order generalizing unused with
  | nil => simp [keepOne]
  | cons it order ih =>
    rw [keepOne]
    split_ifs with herror hinUse hmore
    · exact ih
    · rw [List.countP_cons_of_neg (by simp [hinUse])]
      exact ih
    · have hle : 1 - (unused + 1) ≤ 1 - unused := by omega
      exact le_trans ih hle
    · rw [List.countP_cons_of_pos (by simp [hinUse])]
      have hle : (keepOne inUse error connection (unused + 1) order).countP (!inUse ·) ≤
          1 - (unused + 1) := ih
      omega

end keepOne

structure Invariant (s : State) : Prop where
  nodup : s.connections.Nodup
  created : ∀ c ∈ s.connections, c < s.created
  flying {k : ℕ} {x : Session} (hk : s.sessions[k]? = some x) (hx : x.phase.inFlight) :
    x.connection < s.created ∧ (s.object x.connection).inUse
  exclusive {k l : ℕ} {x y : Session} (hk : s.sessions[k]? = some x) (hl : s.sessions[l]? = some y)
    (hx : x.phase.inFlight) (hy : y.phase.inFlight) (h : x.connection = y.connection) : k = l
  used : ∀ c ∈ s.connections, (s.object c).inUse →
    ∃ (k : ℕ) (x : Session), s.sessions[k]? = some x ∧ x.phase.inFlight ∧ x.connection = c
  idle : s.connections.countP (fun c => !(s.object c).inUse) ≤ 1

variable {s t : State} {k l : ℕ} {x y z : Session}

theorem Invariant.setObject (h : Invariant s) {c : ℕ} {object : Connection}
    (hobject : object.inUse = (s.object c).inUse) : Invariant (s.setObject c object) := by
  have heq (d : ℕ) : ((s.setObject c object).object d).inUse = (s.object d).inUse := by
    by_cases hd : d = c
    · simp [State.setObject, hd, hobject]
    · simp [State.setObject, hd]
  refine ⟨h.nodup, h.created, fun hk hx => ?_, h.exclusive, fun c hc hinUse => ?_, ?_⟩
  · rw [heq]
    exact h.flying hk hx
  · rw [heq] at hinUse
    exact h.used c hc hinUse
  · simp only [heq]
    exact h.idle

theorem Invariant.advance (h : Invariant s) {phase : Phase} (hk : s.sessions[k]? = some x)
    (hx : x.phase.inFlight) (hphase : phase.inFlight) : Invariant (s.advance k x phase) := by
  -- a session in flight after the step was so before, on the same connection
  have hback {l : ℕ} {y : Session} (hl : (s.advance k x phase).sessions[l]? = some y)
      (hy : y.phase.inFlight) :
      ∃ z, s.sessions[l]? = some z ∧ z.phase.inFlight ∧ z.connection = y.connection := by
    obtain ⟨rfl, rfl⟩ | ⟨-, hl⟩ := Slots.getElem?_set_cases hl
    · exact ⟨x, hk, hx, rfl⟩
    · exact ⟨y, hl, hy, rfl⟩
  refine ⟨h.nodup, h.created, fun hl hy => ?_, fun hl hm hy hz heq => ?_, fun c hc hinUse => ?_,
    h.idle⟩
  · obtain ⟨z, hl, hz, heq⟩ := hback hl hy
    rw [← heq]
    exact h.flying hl hz
  · obtain ⟨y', hl, hy', hleft⟩ := hback hl hy
    obtain ⟨z', hm, hz', hright⟩ := hback hm hz
    exact h.exclusive hl hm hy' hz' (hleft.trans (heq.trans hright.symm))
  · obtain ⟨l, y, hl, hy, rfl⟩ := h.used c hc hinUse
    by_cases hkl : l = k
    · subst hkl
      rw [hk] at hl
      cases hl
      exact ⟨l, { x with phase := phase }, Slots.getElem?_set_self hk, hphase, rfl⟩
    · exact ⟨l, y, (List.getElem?_set_ne (Ne.symm hkl)).trans hl, hy, rfl⟩

theorem Invariant.callback (h : Invariant s) {error : Bool} {order : List ℕ}
    (hk : s.sessions[k]? = some x) (hx : x.phase.inFlight)
    (ht : s.callback k x error order = some t) : Invariant t := by
  obtain ⟨hperm, rfl⟩ := Option.ite_none_right_eq_some.mp ht |>.imp_right Option.some.inj
  have hsublist {c : ℕ} {inUse : ℕ → Bool}
      (hc : c ∈ keepOne inUse error x.connection 0 order) : c ∈ s.connections :=
    hperm.subset (keepOne_sublist.subset hc)
  have hobject {c : ℕ} (hc : c ≠ x.connection) :
      (s.setObject x.connection { s.object x.connection with inUse := false }).object c =
        s.object c := by simp [State.setObject, hc]
  have hother {l : ℕ} {y : Session} (hl : s.sessions[l]? = some y) (hy : y.phase.inFlight)
      (hne : l ≠ k) : y.connection ≠ x.connection :=
    fun heq => hne (h.exclusive hl hk hy hx heq)
  refine ⟨?_, fun c hc => h.created c (hsublist hc), fun {l y} hl hy => ?_,
    fun {l m y z} hl hm hy hz heq => ?_, fun c hc hinUse => ?_, countP_keepOne_le⟩
  · exact keepOne_sublist.nodup (hperm.nodup_iff.mpr h.nodup)
  · obtain ⟨-, rfl⟩ | ⟨hne, hl⟩ := Slots.getElem?_set_cases hl
    · cases hy
    · refine ⟨(h.flying hl hy).1, ?_⟩
      dsimp only
      rw [hobject (hother hl hy hne)]
      exact (h.flying hl hy).2
  · obtain ⟨-, rfl⟩ | ⟨-, hl⟩ := Slots.getElem?_set_cases hl
    · cases hy
    obtain ⟨-, rfl⟩ | ⟨-, hm⟩ := Slots.getElem?_set_cases hm
    · cases hz
    exact h.exclusive hl hm hy hz heq
  · have hne : c ≠ x.connection := by
      rintro rfl
      simp [State.setObject] at hinUse
    dsimp only at hinUse
    rw [hobject hne] at hinUse
    obtain ⟨l, y, hl, hy, rfl⟩ := h.used c (hsublist hc) hinUse
    have hkl : l ≠ k := by
      rintro rfl
      rw [hk] at hl
      cases hl
      exact hne rfl
    exact ⟨l, y, (List.getElem?_set_ne hkl.symm).trans hl, hy, rfl⟩

theorem object_create {c : ℕ} (s : State) (object : Connection) (hc : c < s.created) :
    (s.create object).object c = s.object c := by
  simp [State.create, State.setObject, hc.ne]

theorem Invariant.countP_create (h : Invariant s) {object : Connection} (hobject : object.inUse) :
    (s.connections ++ [s.created]).countP (fun c => !((s.create object).object c).inUse) ≤ 1 := by
  have hself : (s.create object).object s.created = object := by
    simp [State.create, State.setObject]
  have hcount : s.connections.countP (fun c => !((s.create object).object c).inUse) =
      s.connections.countP fun c => !(s.object c).inUse := by
    apply List.countP_congr
    intro c hc
    rw [object_create s object (h.created c hc)]
  rw [List.countP_append, List.countP_singleton, hcount, hself, hobject]
  simpa using h.idle

theorem Invariant.create (h : Invariant s) {object : Connection} (hobject : object.inUse)
    (hk : s.sessions[k]? = none ∨ ∃ x, s.sessions[k]? = some x ∧ x.connection ∉ s.connections)
    {sessions : List Session}
    (hsessions : ∀ l y, sessions[l]? = some y → y.phase.inFlight →
      l = k ∧ y.connection = s.created ∨ l ≠ k ∧ s.sessions[l]? = some y)
    (hnew : ∃ y, sessions[k]? = some y ∧ y.phase.inFlight ∧ y.connection = s.created)
    (hold : ∀ l y, l ≠ k → s.sessions[l]? = some y → sessions[l]? = some y) :
    Invariant { s.create object with sessions := sessions } := by
  have hfresh : s.created ∉ s.connections := fun hmem => (h.created _ hmem).false
  have hself : (s.create object).object s.created = object := by
    simp [State.create, State.setObject]
  refine ⟨?_, fun c hc => ?_, fun {l y} hl hy => ?_, fun {l m y z} hl hm hy hz heq => ?_,
    fun c hc hinUse => ?_, ?_⟩
  · exact List.nodup_append.mpr ⟨h.nodup, List.nodup_singleton _, by
      rintro a ha b hb rfl
      exact hfresh (List.mem_singleton.mp hb ▸ ha)⟩
  · obtain hc | hc := List.mem_append.mp hc
    · exact (h.created c hc).trans (Nat.lt_succ_self _)
    · rw [List.mem_singleton.mp hc]
      exact Nat.lt_succ_self _
  · obtain ⟨rfl, heq⟩ | ⟨-, hl⟩ := hsessions l y hl hy
    · rw [heq]
      exact ⟨Nat.lt_succ_self _, by rw [hself]; exact hobject⟩
    · obtain ⟨hlt, hinUse⟩ := h.flying hl hy
      exact ⟨hlt.trans (Nat.lt_succ_self _), by rw [object_create s object hlt]; exact hinUse⟩
  · obtain ⟨rfl, hleft⟩ | ⟨hlk, hl⟩ := hsessions l y hl hy
    · obtain ⟨rfl, -⟩ | ⟨-, hm⟩ := hsessions m z hm hz
      · rfl
      · have hlt := (h.flying hm hz).1
        omega
    · obtain ⟨rfl, hright⟩ | ⟨-, hm⟩ := hsessions m z hm hz
      · have hlt := (h.flying hl hy).1
        omega
      · exact h.exclusive hl hm hy hz heq
  · obtain hc | hc := List.mem_append.mp hc
    · dsimp only at hinUse
      rw [object_create s object (h.created c hc)] at hinUse
      obtain ⟨l, y, hl, hy, rfl⟩ := h.used c hc hinUse
      refine ⟨l, y, hold l y ?_ hl, hy, rfl⟩
      rintro rfl
      obtain hnone | ⟨x, hx, hnot⟩ := hk
      · rw [hl] at hnone
        cases hnone
      · rw [hl] at hx
        cases hx
        exact hnot hc
    · obtain ⟨y, hy, hflight, heq⟩ := hnew
      exact ⟨k, y, hy, hflight, heq.trans (List.mem_singleton.mp hc).symm⟩
  · exact h.countP_create hobject

theorem Invariant.sublist (h : Invariant s) {connections : List ℕ}
    (hsublist : connections.Sublist s.connections) :
    Invariant { s with connections := connections } :=
  ⟨hsublist.nodup h.nodup, fun c hc => h.created c (hsublist.subset hc), h.flying, h.exclusive,
    fun c hc => h.used c (hsublist.subset hc), hsublist.countP_le.trans h.idle⟩

theorem Invariant.reconnect (h : Invariant s) (hk : s.sessions[k]? = some x) :
    Invariant (s.reconnect k x) := by
  have herase := h.sublist (List.erase_sublist (a := x.connection))
  refine herase.create rfl (.inr ⟨x, hk, h.nodup.not_mem_erase⟩) (fun l y hl hy => ?_)
    ⟨_, Slots.getElem?_set_self hk, rfl, rfl⟩ fun l y hne hl => ?_
  · obtain ⟨rfl, rfl⟩ | hother := Slots.getElem?_set_cases hl
    · exact .inl ⟨rfl, rfl⟩
    · exact .inr hother
  · exact (List.getElem?_set_ne hne.symm).trans hl

theorem Invariant.reuse (h : Invariant s) {c : ℕ} {object : Connection} (hc : c ∈ s.connections)
    (hidle : (s.object c).inUse = false) (hobject : object.inUse) :
    Invariant { s.setObject c object with sessions := s.sessions ++ [{ connection := c }] } := by
  have hself : (s.setObject c object).object c = object := by simp [State.setObject]
  have hobject' {d : ℕ} (hd : d ≠ c) : (s.setObject c object).object d = s.object d := by
    simp [State.setObject, hd]
  have hother {l : ℕ} {y : Session} (hl : s.sessions[l]? = some y) (hy : y.phase.inFlight) :
      y.connection ≠ c := by
    rintro rfl
    have hinUse := (h.flying hl hy).2
    rw [hidle] at hinUse
    cases hinUse
  refine ⟨h.nodup, h.created, fun {l y} hl hy => ?_, fun {l m y z} hl hm hy hz heq => ?_,
    fun d hd hinUse => ?_, ?_⟩
  · dsimp only
    obtain ⟨-, rfl⟩ | ⟨-, hl⟩ := Slots.getElem?_concat_cases hl
    · exact ⟨h.created c hc, by rw [hself]; exact hobject⟩
    · rw [hobject' (hother hl hy)]
      exact h.flying hl hy
  · obtain ⟨rfl, rfl⟩ | ⟨-, hl⟩ := Slots.getElem?_concat_cases hl
    · obtain ⟨rfl, -⟩ | ⟨-, hm⟩ := Slots.getElem?_concat_cases hm
      · rfl
      · exact absurd heq.symm (hother hm hz)
    · obtain ⟨rfl, rfl⟩ | ⟨-, hm⟩ := Slots.getElem?_concat_cases hm
      · exact absurd heq (hother hl hy)
      · exact h.exclusive hl hm hy hz heq
  · by_cases hdc : d = c
    · exact ⟨s.sessions.length, { connection := c }, List.getElem?_concat_length, rfl, hdc.symm⟩
    · dsimp only at hinUse
      rw [hobject' hdc] at hinUse
      obtain ⟨l, y, hl, hy, heq⟩ := h.used d hd hinUse
      exact ⟨l, y, Slots.getElem?_concat_left hl, hy, heq⟩
  · refine le_trans (List.countP_mono_left fun d hd hidle' => ?_) h.idle
    by_cases hdc : d = c
    · simpa [hdc] using hidle
    · dsimp only at hidle'
      rwa [hobject' hdc] at hidle'

theorem Invariant.request (h : Invariant s) {order : List ℕ} (hperm : order.Perm s.connections) :
    Invariant { (s.getConnection order).2 with
      sessions := (s.getConnection order).2.sessions ++
        [{ connection := (s.getConnection order).1 }] } := by
  rw [State.getConnection]
  cases hfind : order.find? fun c => !(s.object c).inUse with
  | some c =>
    have hidle : (s.object c).inUse = false := by simpa using List.find?_some hfind
    exact h.reuse (hperm.subset (List.mem_of_find?_eq_some hfind)) hidle rfl
  | none =>
    refine h.create rfl (.inl (List.getElem?_eq_none le_rfl)) (fun l y hl hy => ?_)
      ⟨_, List.getElem?_concat_length, rfl, rfl⟩ fun l y _ hl => Slots.getElem?_concat_left hl
    obtain ⟨rfl, rfl⟩ | hother := Slots.getElem?_concat_cases hl
    · exact .inl ⟨rfl, rfl⟩
    · exact .inr hother

inductive Handles (s : State) (k : ℕ) (x : Session) (order : List ℕ) : State → Prop
  | write (hphase : x.phase = .connecting) : Handles s k x order (s.advance k x .writing)
  | read (hphase : x.phase = .writing) : Handles s k x order (s.advance k x .reading)
  | body (hphase : x.phase = .reading) : Handles s k x order ((s.allow x).advance k x .body)
  | more (hphase : x.phase = .body) : Handles s k x order (s.advance k x .body)
  | reconnect (hphase : x.phase = .reading) (hattempt : (s.object x.connection).attemptReconnect) :
    Handles s k x order (s.reconnect k x)
  | finish {error : Bool} {t : State} (hphase : x.phase.inFlight)
    (ht : s.callback k x error order = some t) : Handles s k x order t
  | allowed {error : Bool} {t : State} (hphase : x.phase.inFlight)
    (ht : (s.allow x).callback k x error order = some t) : Handles s k x order t

theorem handles_of_handle {event : Event} {order : List ℕ}
    (ht : s.handle k x event order = some t) : Handles s k x order t := by
  unfold State.handle at ht
  split at ht
  · cases ht
    exact .write ‹_›
  · cases ht
    exact .read ‹_›
  · exact .allowed (by simp [*, Phase.inFlight]) ht
  · cases ht
    exact .body ‹_›
  · exact .allowed (by simp [*, Phase.inFlight]) ht
  · split_ifs at ht with hattempt
    · cases ht
      exact .reconnect ‹_› hattempt.1
    · exact .finish (by simp [*, Phase.inFlight]) ht
  · exact .finish (by simp [*, Phase.inFlight]) ht
  · cases ht
    exact .more ‹_›
  all_goals first
    | exact .finish (by simp [*, Phase.inFlight]) ht
    | cases ht

theorem Handles.inFlight {order : List ℕ} (h : Handles s k x order t) : x.phase.inFlight := by
  cases h with
  | finish hphase _ => exact hphase
  | allowed hphase _ => exact hphase
  | write hphase | read hphase | body hphase | more hphase | reconnect hphase _ =>
    simp [hphase, Phase.inFlight]

theorem request_of_step {order : List ℕ} (ht : step s (.request order) = some t) :
    order.Perm s.connections ∧ t = { (s.getConnection order).2 with
      sessions := (s.getConnection order).2.sessions ++
        [{ connection := (s.getConnection order).1 }] } :=
  Option.ite_none_right_eq_some.mp ht |>.imp_right fun h => (Option.some.inj h).symm

theorem Invariant.allow (h : Invariant s) (x : Session) : Invariant (s.allow x) := h.setObject rfl

theorem Invariant.step {action : Action} (h : Invariant s) (ht : step s action = some t) :
    Invariant t := by
  cases action with
  | stop =>
    cases ht
    exact h.sublist (List.nil_sublist _)
  | request order =>
    obtain ⟨hperm, rfl⟩ := request_of_step ht
    exact h.request hperm
  | handle k event order =>
    obtain ⟨x, hk, ht⟩ := Option.bind_eq_some_iff.mp ht
    have hhandles := handles_of_handle ht
    have hx := hhandles.inFlight
    cases hhandles with
    | write => exact h.advance hk hx rfl
    | read => exact h.advance hk hx rfl
    | body => exact (h.allow x).advance hk hx rfl
    | more => exact h.advance hk hx rfl
    | reconnect => exact h.reconnect hk
    | finish _ ht => exact h.callback hk hx ht
    | allowed _ ht => exact (h.allow x).callback hk hx ht

theorem invariant_start : Invariant {} :=
  ⟨List.nodup_nil, by simp, by simp, by simp, by simp, by simp⟩

theorem Invariant.length_le (h : Invariant s) :
    s.connections.length ≤ s.sessions.countP (·.phase.inFlight) + 1 := by
  have hused : (s.connections.filter fun c => (s.object c).inUse).length ≤
      ((s.sessions.filter (·.phase.inFlight)).map Session.connection).length := by
    refine ((h.nodup.filter _).subperm fun c hc => ?_).length_le
    obtain ⟨hmem, hinUse⟩ := List.mem_filter.mp hc
    obtain ⟨k, x, hk, hx, rfl⟩ := h.used c hmem hinUse
    exact List.mem_map_of_mem (List.mem_filter.mpr ⟨List.mem_of_getElem? hk, hx⟩)
  rw [List.length_map, ← List.countP_eq_length_filter, ← List.countP_eq_length_filter] at hused
  have hidle := h.idle
  have hlength := List.length_eq_countP_add_countP (l := s.connections) fun c => (s.object c).inUse
  simp only [Bool.not_eq_true, Bool.decide_eq_false] at hlength
  omega

theorem exclusive_of_run {actions : List Action} {u : State}
    (hrun : Lts.run step {} actions = some u) :
    (∀ (k l : ℕ) (x y : Session), u.sessions[k]? = some x → u.sessions[l]? = some y →
      x.phase.inFlight → y.phase.inFlight → x.connection = y.connection → k = l) ∧
      u.connections.length ≤ u.sessions.countP (·.phase.inFlight) + 1 := by
  have h : Invariant u := Lts.invariant (fun _ _ _ h ht => h.step ht) invariant_start hrun
  exact ⟨fun k l x y hk hl hx hy heq => h.exclusive hk hl hx hy heq, h.length_le⟩

def retry : List Action :=
  [.request [], .handle 0 .success [], .handle 0 .success [], .handle 0 .success [0],
    .request [0], .handle 1 .success [], .handle 1 .success [], .request [0],
    .handle 1 (.failed false) [], .handle 1 .success [], .handle 1 .success [],
    .handle 1 (.failed false) [2, 1], .handle 2 (.failed false) [1]]

theorem isSome_retry : (Lts.run step {} retry).isSome := by decide

theorem exclusive_of_run_retry : ∃ u, Lts.run step {} retry = some u ∧
    (∀ (k l : ℕ) (x y : Session), u.sessions[k]? = some x → u.sessions[l]? = some y →
      x.phase.inFlight → y.phase.inFlight → x.connection = y.connection → k = l) ∧
      u.connections.length ≤ u.sessions.countP (·.phase.inFlight) + 1 :=
  ⟨_, (Option.some_get isSome_retry).symm,
    exclusive_of_run (Option.some_get isSome_retry).symm⟩

structure Session.Retried (s : State) (x : Session) : Prop where
  le : x.reconnects ≤ 1
  spent (hphase : x.phase = .connecting ∨ x.phase = .writing ∨ x.phase = .reading)
    (hone : x.reconnects = 1) : (s.object x.connection).attemptReconnect = false

def AllRetried (s : State) : Prop :=
  ∀ (k : ℕ) (x : Session), s.sessions[k]? = some x → x.Retried s

theorem Session.Retried.congr (h : x.Retried s)
    (hobject : (x.phase = .connecting ∨ x.phase = .writing ∨ x.phase = .reading) →
      (t.object x.connection).attemptReconnect = (s.object x.connection).attemptReconnect) :
    x.Retried t :=
  ⟨h.le, fun hphase hone => by rw [hobject hphase]; exact h.spent hphase hone⟩

theorem Session.Retried.reconnects_eq_zero (h : x.Retried s) (hphase : x.phase = .reading)
    (hattempt : (s.object x.connection).attemptReconnect) : x.reconnects = 0 := by
  by_contra hne
  have hone : x.reconnects = 1 := le_antisymm h.le (Nat.one_le_iff_ne_zero.mpr hne)
  have hspent := h.spent (.inr (.inr hphase)) hone
  rw [hattempt] at hspent
  cases hspent

theorem inFlight_of_spent (h : x.phase = .connecting ∨ x.phase = .writing ∨ x.phase = .reading) :
    x.phase.inFlight := by
  obtain h | h | h := h <;> rw [h] <;> rfl

theorem AllRetried.set (h : AllRetried s) (hinv : Invariant s) (hk : s.sessions[k]? = some x)
    (hx : x.phase.inFlight) (hsessions : t.sessions = s.sessions.set k y) (hy : y.Retried t)
    (hobject : ∀ c < s.created, c ≠ x.connection →
      (t.object c).attemptReconnect = (s.object c).attemptReconnect) : AllRetried t := by
  intro l z hl
  rw [hsessions] at hl
  obtain ⟨-, rfl⟩ | ⟨hne, hl⟩ := Slots.getElem?_set_cases hl
  · exact hy
  · refine (h l z hl).congr fun hphase => ?_
    have hz := inFlight_of_spent hphase
    exact hobject _ (hinv.flying hl hz).1 fun heq => hne (hinv.exclusive hl hk hz hx heq)

theorem attemptReconnect_callback {error : Bool} {order : List ℕ}
    (ht : s.callback k x error order = some t) :
    t.sessions = s.sessions.set k { x with phase := .returned error } ∧
      ∀ c, (t.object c).attemptReconnect = (s.object c).attemptReconnect := by
  obtain ⟨-, rfl⟩ := Option.ite_none_right_eq_some.mp ht |>.imp_right Option.some.inj
  refine ⟨rfl, fun c => ?_⟩
  by_cases hc : c = x.connection
  · simp [State.setObject, hc]
  · simp [State.setObject, hc]

theorem object_allow (s : State) (x : Session) {c : ℕ} (hc : c ≠ x.connection) :
    (s.allow x).object c = s.object c := by simp [State.allow, State.setObject, hc]

theorem AllRetried.handle {order : List ℕ} (h : AllRetried s) (hinv : Invariant s)
    (hk : s.sessions[k]? = some x) (ht : Handles s k x order t) : AllRetried t := by
  have hx := h k x hk
  have hflight := ht.inFlight
  cases ht with
  | write hphase =>
    exact h.set hinv hk hflight rfl ⟨hx.le, fun _ => hx.spent (.inl hphase)⟩ fun _ _ _ => rfl
  | read hphase =>
    exact h.set hinv hk hflight rfl ⟨hx.le, fun _ => hx.spent (.inr (.inl hphase))⟩
      fun _ _ _ => rfl
  | body =>
    refine h.set hinv hk hflight rfl ⟨hx.le, by simp⟩ fun c _ hc => ?_
    have hobject : ((s.allow x).advance k x .body).object c = s.object c := object_allow s x hc
    rw [hobject]
  | more => exact h.set hinv hk hflight rfl ⟨hx.le, by simp⟩ fun _ _ _ => rfl
  | reconnect hphase hattempt =>
    have hzero := hx.reconnects_eq_zero hphase hattempt
    refine h.set hinv hk hflight rfl ⟨by simp [hzero], fun _ _ => ?_⟩ fun c hc _ => ?_
    · simp [State.reconnect, State.create, State.setObject]
    · simp [State.reconnect, State.create, State.setObject, hc.ne]
  | finish _ ht =>
    obtain ⟨hsessions, hobject⟩ := attemptReconnect_callback ht
    exact h.set hinv hk hflight hsessions ⟨hx.le, by simp⟩ fun c _ _ => hobject c
  | allowed _ ht =>
    obtain ⟨hsessions, hobject⟩ := attemptReconnect_callback ht
    refine h.set hinv hk hflight hsessions ⟨hx.le, by simp⟩ fun c _ hc => ?_
    rw [hobject, object_allow s x hc]

theorem AllRetried.request (h : AllRetried s) (hinv : Invariant s) {c : ℕ}
    (hsessions : t.sessions = s.sessions ++ [{ connection := c }])
    (hobject : ∀ d < s.created, (s.object d).inUse → t.object d = s.object d) : AllRetried t := by
  intro l z hl
  rw [hsessions] at hl
  obtain ⟨-, rfl⟩ | ⟨-, hl⟩ := Slots.getElem?_concat_cases hl
  · exact ⟨by simp, by simp⟩
  · refine (h l z hl).congr fun hphase => ?_
    obtain ⟨hcreated, hinUse⟩ := hinv.flying hl (inFlight_of_spent hphase)
    rw [hobject _ hcreated hinUse]

theorem object_getConnection {order : List ℕ} {d : ℕ} (hd : d < s.created)
    (hinUse : (s.object d).inUse) : (s.getConnection order).2.object d = s.object d := by
  rw [State.getConnection]
  cases hfind : order.find? fun c => !(s.object c).inUse with
  | some c =>
    have hne : d ≠ c := by
      rintro rfl
      simpa [hinUse] using List.find?_some hfind
    simp [State.setObject, hne]
  | none => exact object_create s _ hd

theorem sessions_getConnection (s : State) (order : List ℕ) :
    (s.getConnection order).2.sessions = s.sessions := by
  rw [State.getConnection]
  split <;> rfl

theorem AllRetried.step {action : Action} (h : AllRetried s) (hinv : Invariant s)
    (ht : step s action = some t) : AllRetried t := by
  cases action with
  | stop =>
    cases ht
    exact fun k x hk => (h k x hk).congr fun _ => rfl
  | request order =>
    obtain ⟨-, rfl⟩ := request_of_step ht
    exact h.request hinv (by rw [sessions_getConnection]) fun d hd => object_getConnection hd
  | handle k event order =>
    obtain ⟨x, hk, ht⟩ := Option.bind_eq_some_iff.mp ht
    exact h.handle hinv hk (handles_of_handle ht)

def writes (k : ℕ) (s : State) : Action → State → Bool
  | .handle l .success _, _ => l = k ∧ s.sessions[k]?.map Session.phase = some .connecting
  | _, _ => false

def Session.budget (x : Session) : ℕ :=
  let again := if x.reconnects = 0 then 1 else 0
  match x.phase with
  | .connecting => 1 + again
  | .writing | .reading => again
  | .body | .returned _ => 0

def State.budget (s : State) (k : ℕ) : ℕ := s.sessions[k]?.elim 2 Session.budget

theorem phase_of_writes {action : Action} (hk : s.sessions[k]? = some x)
    (h : writes k s action t) : x.phase = .connecting := by
  unfold writes at h
  split at h
  · simpa [hk] using (of_decide_eq_true h).2
  · cases h

theorem budget_handle {order : List ℕ} (hx : x.Retried s) (hk : s.sessions[k]? = some x)
    (ht : Handles s k x order t) {action : Action} :
    (if writes k s action t then 1 else 0) + t.budget k ≤ s.budget k := by
  have hnot (hphase : x.phase ≠ .connecting) : writes k s action t = false :=
    Bool.eq_false_iff.mpr fun hwrites => hphase (phase_of_writes hk hwrites)
  have hbudget {y : Session} (hsessions : t.sessions = s.sessions.set k y) :
      t.budget k = y.budget := by
    rw [State.budget, hsessions, Slots.getElem?_set_self hk]
    rfl
  have hs : s.budget k = x.budget := by
    rw [State.budget, hk]
    rfl
  have hreturned {s' : State} {error : Bool} (hwrites : s'.callback k x error order = some t)
      (hsessions : s'.sessions = s.sessions) :
      (if writes k s action t then 1 else 0) + t.budget k ≤ s.budget k := by
    rw [hbudget ((attemptReconnect_callback hwrites).1.trans (by rw [hsessions])), hs]
    by_cases hphase : x.phase = .connecting
    · simp only [Session.budget, hphase]
      split_ifs <;> omega
    · rw [hnot hphase]
      simp [Session.budget]
  cases ht with
  | write hphase =>
    rw [hbudget rfl, hs]
    simp only [Session.budget, hphase]
    split_ifs <;> omega
  | read hphase | body hphase | more hphase =>
    rw [hbudget rfl, hs, hnot (by simp [hphase])]
    simp [Session.budget, hphase]
  | reconnect hphase hattempt =>
    rw [hbudget rfl, hs, hnot (by simp [hphase])]
    simp [Session.budget, hphase, hx.reconnects_eq_zero hphase hattempt]
  | finish _ ht => exact hreturned ht rfl
  | allowed _ ht => exact hreturned ht rfl

theorem budget_concat {c : ℕ} (hsessions : t.sessions = s.sessions ++ [{ connection := c }])
    (k : ℕ) : t.budget k = s.budget k := by
  rw [State.budget, State.budget, hsessions]
  obtain hlt | rfl | hgt := lt_trichotomy k s.sessions.length
  · rw [List.getElem?_append_left hlt]
  · rw [List.getElem?_concat_length, List.getElem?_eq_none le_rfl]
    rfl
  · rw [List.getElem?_eq_none (by simpa using hgt), List.getElem?_eq_none hgt.le]

theorem Handles.sessions_of_ne {order : List ℕ} (h : Handles s l x order t) (hkl : k ≠ l) :
    t.sessions[k]? = s.sessions[k]? := by
  have hset {y : Session} (hsessions : t.sessions = s.sessions.set l y) :
      t.sessions[k]? = s.sessions[k]? := by
    rw [hsessions, List.getElem?_set_ne hkl.symm]
  cases h with
  | write | read | body | more | reconnect => exact hset rfl
  | finish _ ht => exact hset (attemptReconnect_callback ht).1
  | allowed _ ht => exact hset (attemptReconnect_callback ht).1

theorem budget_step {action : Action} (h : AllRetried s) (ht : step s action = some t) (k : ℕ) :
    (if writes k s action t then 1 else 0) + t.budget k ≤ s.budget k := by
  cases action with
  | stop =>
    cases ht
    simp [writes, State.budget]
  | request order =>
    obtain ⟨-, hrequest⟩ := request_of_step ht
    have hsessions : t.sessions = s.sessions ++ [{ connection := (s.getConnection order).1 }] := by
      rw [hrequest, sessions_getConnection]
    rw [budget_concat hsessions k]
    simp [writes]
  | handle l event order =>
    obtain ⟨x, hl, ht⟩ := Option.bind_eq_some_iff.mp ht
    have hhandles := handles_of_handle ht
    by_cases hkl : k = l
    · subst hkl
      exact budget_handle (h k x hl) hl hhandles
    · have hsame : t.budget k = s.budget k := by
        rw [State.budget, hhandles.sessions_of_ne hkl, State.budget]
      have hnot : writes k s (.handle l event order) t = false := by
        cases event <;> simp [writes, Ne.symm hkl]
      simp [hsame, hnot]

theorem allRetried_start : AllRetried {} := by simp [AllRetried]

theorem writes_le_of_run {actions : List Action} {u : State}
    (hrun : Lts.run step {} actions = some u) (k : ℕ) :
    Lts.countSteps step (writes k) {} actions ≤ 2 ∧
      ∀ x, u.sessions[k]? = some x → x.reconnects ≤ 1 := by
  have hstep (s : State) (action : Action) (t : State) (h : Invariant s ∧ AllRetried s)
      (ht : step s action = some t) : Invariant t ∧ AllRetried t :=
    ⟨h.1.step ht, h.2.step h.1 ht⟩
  have hstart : Invariant {} ∧ AllRetried {} := ⟨invariant_start, allRetried_start⟩
  have hle := Lts.countSteps_add_le (P := writes k) (Q := fun _ _ _ => false)
    (f := fun s => s.budget k) hstep
    (fun s action t h ht => by simpa using budget_step h.2 ht k) hstart hrun
  rw [Lts.countSteps_false, zero_add] at hle
  have hbudget : State.budget {} k = 2 := rfl
  refine ⟨by omega, fun x hk => ((Lts.invariant hstep hstart hrun).2 k x hk).le⟩

theorem writes_le_of_run_retry : ∃ u, Lts.run step {} retry = some u ∧
    Lts.countSteps step (writes 1) {} retry ≤ 2 ∧
      ∀ x, u.sessions[1]? = some x → x.reconnects ≤ 1 :=
  ⟨_, (Option.some_get isSome_retry).symm,
    writes_le_of_run (Option.some_get isSome_retry).symm 1⟩

end DanmakuChicken.SimpleWeb.Pool
