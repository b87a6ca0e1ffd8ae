import DanmakuChicken.Lib.Lts
import Mathlib.Algebra.Order.Ring.Int
import Mathlib.Tactic

/-! `ScopeRunner`: scopes that share a lock until they are to be canceled.  Every operation on
the atomic counter is one step, and any number of calls stand between two of theirs. -/

namespace DanmakuChicken.SimpleWeb.ScopeRunner

/-- Where a call of `continue_lock` stands, with what it has in `expected`, or what has become of
the lock it returned. -/
inductive Scope
  | entering (expected : ℤ)
  | refused
  | locked
  | released
  deriving DecidableEq

inductive Stop
  | spinning
  | returned
  deriving DecidableEq

structure State where
  count : ℤ := 0
  scopes : List Scope := []
  stops : List Stop := []
  deriving DecidableEq

inductive Action
  | continueLock
  | tryLock (k : ℕ) (spurious : Bool)
  | release (k : ℕ)
  | stop
  | tryStop (k : ℕ) (spurious : Bool)
  deriving DecidableEq

/-- `compare_exchange_weak`: the counter after it, and what a failure leaves in `expected`. -/
def compareExchangeWeak (count expected desired : ℤ) (spurious : Bool) : ℤ × Option ℤ :=
  if count = expected ∧ spurious = false then (desired, none) else (count, some count)

def Scope.pass (count expected : ℤ) (spurious : Bool) : ℤ × Scope :=
  if expected < 0 then (count, .refused)
  else
    match compareExchangeWeak count expected (expected + 1) spurious with
    | (count, none) => (count, .locked)
    | (count, some expected) => (count, .entering expected)

def Stop.pass (count : ℤ) (spurious : Bool) : ℤ × Stop :=
  match compareExchangeWeak count 0 (-1) spurious with
  | (count, none) => (count, .returned)
  | (count, some expected) => (count, if expected < 0 then .returned else .spinning)

def step : Lts.Step State Action
  | s, .continueLock => some { s with scopes := s.scopes ++ [.entering s.count] }
  | s, .tryLock k spurious =>
    match s.scopes[k]? with
    | some (.entering expected) =>
      let (count, scope) := Scope.pass s.count expected spurious
      some { s with count := count, scopes := s.scopes.set k scope }
    | _ => none
  | s, .release k =>
    match s.scopes[k]? with
    | some .locked => some { s with count := s.count - 1, scopes := s.scopes.set k .released }
    | _ => none
  | s, .stop => some { s with stops := s.stops ++ [.spinning] }
  | s, .tryStop k spurious =>
    match s.stops[k]? with
    | some .spinning =>
      let (count, stop) := Stop.pass s.count spurious
      some { s with count := count, stops := s.stops.set k stop }
    | _ => none

def State.locks (s : State) : ℕ := s.scopes.count .locked

section pass

variable {count expected : ℤ} {spurious : Bool}

theorem Scope.pass_cases (count expected : ℤ) (spurious : Bool) :
    (expected < 0 ∧ pass count expected spurious = (count, .refused)) ∨
    (0 ≤ expected ∧ count = expected ∧ spurious = false ∧
      pass count expected spurious = (count + 1, .locked)) ∨
    (0 ≤ expected ∧ (count = expected → spurious = true) ∧
      pass count expected spurious = (count, .entering count)) := by
  by_cases hneg : expected < 0
  · exact .inl ⟨hneg, by simp [pass, hneg]⟩
  · have hpos : 0 ≤ expected := not_lt.mp hneg
    by_cases hcas : count = expected ∧ spurious = false
    · refine .inr (.inl ⟨hpos, hcas.1, hcas.2, ?_⟩)
      simp [pass, compareExchangeWeak, hneg, hcas]
    · refine .inr (.inr ⟨hpos, ?_, ?_⟩)
      · simpa using hcas
      · simp [pass, compareExchangeWeak, hneg, hcas]

theorem Stop.pass_cases (count : ℤ) (spurious : Bool) :
    (count = 0 ∧ spurious = false ∧ pass count spurious = (-1, .returned)) ∨
    (count < 0 ∧ pass count spurious = (count, .returned)) ∨
    (0 ≤ count ∧ (count = 0 → spurious = true) ∧ pass count spurious = (count, .spinning)) := by
  by_cases hcas : count = 0 ∧ spurious = false
  · exact .inl ⟨hcas.1, hcas.2, by simp [pass, compareExchangeWeak, hcas]⟩
  · by_cases hneg : count < 0
    · exact .inr (.inl ⟨hneg, by simp [pass, compareExchangeWeak, hcas, hneg]⟩)
    · refine .inr (.inr ⟨not_lt.mp hneg, by simpa using hcas, ?_⟩)
      simp [pass, compareExchangeWeak, hcas, hneg]

end pass

variable {s t : State}

theorem step_tryLock {k : ℕ} {spurious : Bool} (h : step s (.tryLock k spurious) = some t) :
    ∃ expected, s.scopes[k]? = some (.entering expected) ∧
      t = { s with
        count := (Scope.pass s.count expected spurious).1
        scopes := s.scopes.set k (Scope.pass s.count expected spurious).2 } := by
  simp only [step] at h
  split at h
  · next expected hk => exact ⟨expected, hk, (Option.some.inj h).symm⟩
  · cases h

theorem step_release {k : ℕ} (h : step s (.release k) = some t) :
    s.scopes[k]? = some .locked ∧
      t = { s with count := s.count - 1, scopes := s.scopes.set k .released } := by
  simp only [step] at h
  split at h
  · next hk => exact ⟨hk, (Option.some.inj h).symm⟩
  · cases h

theorem step_tryStop {k : ℕ} {spurious : Bool} (h : step s (.tryStop k spurious) = some t) :
    s.stops[k]? = some .spinning ∧
      t = { s with
        count := (Stop.pass s.count spurious).1
        stops := s.stops.set k (Stop.pass s.count spurious).2 } := by
  simp only [step] at h
  split at h
  · next hk => exact ⟨hk, (Option.some.inj h).symm⟩
  · cases h

theorem count_locked_set {scopes : List Scope} {k : ℕ} {scope : Scope}
    (hk : scopes[k]? = some scope) (scope' : Scope) :
    (scopes.set k scope').count .locked + (if scope = .locked then 1 else 0) =
      scopes.count .locked + (if scope' = .locked then 1 else 0) := by
  obtain ⟨hlt, rfl⟩ := List.getElem?_eq_some_iff.mp hk
  have hpos : scopes[k] = .locked → 0 < scopes.count .locked := by
    intro hlocked
    exact List.count_pos_iff.mpr (hlocked ▸ List.getElem_mem hlt)
  rw [List.count_set hlt]
  by_cases hlocked : scopes[k] = .locked
  · have := hpos hlocked
    by_cases hlocked' : scope' = .locked
    · simp [hlocked, hlocked']
      omega
    · simp [hlocked, hlocked']
      omega
  · by_cases hlocked' : scope' = .locked
    · simp [hlocked, hlocked']
    · simp [hlocked, hlocked']

structure Inv (s : State) : Prop where
  count : s.count = s.locks ∨ s.count = -1 ∧ s.locks = 0
  returned : .returned ∈ s.stops → s.count = -1

theorem inv_init : Inv {} where
  count := .inl rfl
  returned := nofun

theorem inv_tryLock {k : ℕ} {spurious : Bool} (h : Inv s)
    (hs : step s (.tryLock k spurious) = some t) : Inv t := by
  obtain ⟨expected, hk, rfl⟩ := step_tryLock hs
  have hcount := h.count
  have hlocks := count_locked_set hk
  obtain ⟨-, hpass⟩ | ⟨hpos, heq, -, hpass⟩ | ⟨-, -, hpass⟩ :=
    Scope.pass_cases s.count expected spurious
  · have hlocks := hlocks .refused
    simp only [reduceCtorEq, if_false, add_zero] at hlocks
    rw [hpass]
    exact ⟨by simpa [State.locks, hlocks] using hcount, h.returned⟩
  · have hlocks := hlocks .locked
    simp only [reduceCtorEq, if_false, if_true, add_zero] at hlocks
    rw [hpass]
    refine ⟨.inl ?_, ?_⟩
    · simp only [State.locks] at hcount ⊢
      omega
    · intro hreturned
      have := h.returned hreturned
      dsimp only
      omega
  · have hlocks := hlocks (.entering s.count)
    simp only [reduceCtorEq, if_false, add_zero] at hlocks
    rw [hpass]
    exact ⟨by simpa [State.locks, hlocks] using hcount, h.returned⟩

theorem inv_release {k : ℕ} (h : Inv s) (hs : step s (.release k) = some t) : Inv t := by
  obtain ⟨hk, rfl⟩ := step_release hs
  have hcount := h.count
  have hlocks := count_locked_set hk .released
  simp only [reduceCtorEq, if_false, if_true, add_zero] at hlocks
  refine ⟨.inl ?_, ?_⟩
  · simp only [State.locks] at hcount ⊢
    omega
  · intro hreturned
    have := h.returned hreturned
    simp only [State.locks] at hcount
    omega

theorem inv_tryStop {k : ℕ} {spurious : Bool} (h : Inv s)
    (hs : step s (.tryStop k spurious) = some t) : Inv t := by
  obtain ⟨hk, rfl⟩ := step_tryStop hs
  have hcount := h.count
  obtain ⟨hzero, -, hpass⟩ | ⟨hneg, hpass⟩ | ⟨hpos, -, hpass⟩ := Stop.pass_cases s.count spurious
  · rw [hpass]
    refine ⟨.inr ⟨rfl, ?_⟩, fun _ => rfl⟩
    simp only [State.locks] at hcount ⊢
    omega
  · rw [hpass]
    refine ⟨hcount, fun _ => ?_⟩
    simp only [State.locks] at hcount ⊢
    omega
  · rw [hpass]
    refine ⟨hcount, fun hreturned => ?_⟩
    rcases List.mem_or_eq_of_mem_set hreturned with hold | hnew
    · exact h.returned hold
    · cases hnew

theorem inv_step {a : Action} (h : Inv s) (hs : step s a = some t) : Inv t := by
  cases a with
  | continueLock =>
    cases hs
    exact ⟨by simpa [State.locks] using h.count, h.returned⟩
  | tryLock k spurious => exact inv_tryLock h hs
  | release k => exact inv_release h hs
  | stop =>
    cases hs
    exact ⟨h.count, fun hreturned => h.returned (by simpa using hreturned)⟩
  | tryStop k spurious => exact inv_tryStop h hs

theorem inv_run {actions : List Action} (hrun : Lts.run step {} actions = some s) : Inv s :=
  Lts.invariant (fun _ _ _ => inv_step) inv_init hrun

theorem Inv.locked_iff (h : Inv s) : .locked ∈ s.scopes ↔ 0 < s.count := by
  have hcount := h.count
  rw [← List.count_pos_iff, ← State.locks]
  omega

theorem returned_mem_of_step {a : Action} (hs : step s a = some t)
    (hreturned : .returned ∈ s.stops) : .returned ∈ t.stops := by
  cases a with
  | continueLock =>
    cases hs
    exact hreturned
  | tryLock k spurious =>
    obtain ⟨expected, -, rfl⟩ := step_tryLock hs
    exact hreturned
  | release k =>
    obtain ⟨-, rfl⟩ := step_release hs
    exact hreturned
  | stop =>
    cases hs
    exact List.mem_append_left _ hreturned
  | tryStop k spurious =>
    obtain ⟨hk, rfl⟩ := step_tryStop hs
    obtain ⟨j, hj⟩ := List.mem_iff_getElem?.mp hreturned
    have hne : k ≠ j := by
      rintro rfl
      simp [hk] at hj
    refine List.mem_iff_getElem?.mpr ⟨j, ?_⟩
    rw [List.getElem?_set_ne hne]
    exact hj

theorem not_locked_of_returned {actions more : List Action} {u : State}
    (hrun : Lts.run step {} actions = some s) (hmore : Lts.run step s more = some u) :
    (s.count = s.locks ∨ s.count = -1 ∧ s.locks = 0) ∧
      (.returned ∈ s.stops → u.count = -1 ∧ .locked ∉ u.scopes) := by
  have hinv := inv_run hrun
  refine ⟨hinv.count, fun hreturned => ?_⟩
  have hu : Inv u ∧ .returned ∈ u.stops := by
    refine Lts.invariant (I := fun s => Inv s ∧ .returned ∈ s.stops) ?_ ⟨hinv, hreturned⟩ hmore
    rintro s a t ⟨h, hreturned⟩ hs
    exact ⟨inv_step h hs, returned_mem_of_step hs hreturned⟩
  have hcount := hu.1.returned hu.2
  refine ⟨hcount, ?_⟩
  rw [hu.1.locked_iff]
  omega

def stopWaits : List Action :=
  [.continueLock, .tryLock 0 true, .tryLock 0 false, .stop, .tryStop 0 false, .continueLock,
    .release 0, .tryStop 0 true, .tryStop 0 false]

theorem not_locked_of_returned_stopWaits : ∃ s u,
    Lts.run step {} stopWaits = some s ∧
      Lts.run step s [.tryLock 1 false, .tryLock 1 false] = some u ∧
      u.count = -1 ∧ .locked ∉ u.scopes ∧ u.scopes = [.released, .refused] := by
  have hrun : Lts.run step {} stopWaits =
      some ⟨-1, [.released, .entering 1], [.returned]⟩ := by decide
  have hmore : Lts.run step ⟨-1, [.released, .entering 1], [.returned]⟩
      [.tryLock 1 false, .tryLock 1 false] =
      some ⟨-1, [.released, .refused], [.returned]⟩ := by decide
  obtain ⟨hcount, hlocked⟩ := (not_locked_of_returned hrun hmore).2 (by decide)
  exact ⟨_, _, hrun, hmore, hcount, hlocked, rfl⟩

theorem stop_returns_iff {actions : List Action} {k : ℕ}
    (hrun : Lts.run step {} actions = some s) (hk : s.stops[k]? = some .spinning) :
    (∃ t, step s (.tryStop k false) = some t ∧ t.stops[k]? = some .returned) ↔
      .locked ∉ s.scopes := by
  have hinv := inv_run hrun
  obtain ⟨hlt, -⟩ := List.getElem?_eq_some_iff.mp hk
  have hstep : step s (.tryStop k false) = some { s with
      count := (Stop.pass s.count false).1
      stops := s.stops.set k (Stop.pass s.count false).2 } := by
    simp only [step, hk]
  have hset (stop : Stop) : (s.stops.set k stop)[k]? = some stop := List.getElem?_set_self hlt
  simp only [hstep, Option.some.injEq, exists_eq_left', hset]
  rw [hinv.locked_iff]
  obtain ⟨hzero, -, hpass⟩ | ⟨hneg, hpass⟩ | ⟨hpos, hzero, hpass⟩ := Stop.pass_cases s.count false
  · rw [hpass]
    simp [hzero]
  · rw [hpass]
    simp [hneg.le]
  · have hne : s.count ≠ 0 := fun h => absurd (hzero h) (by decide)
    simp only [hpass, reduceCtorEq, false_iff, not_not]
    omega

theorem stop_returns_iff_stopWaits : ∃ s, Lts.run step {} (stopWaits.take 4) = some s ∧
    ¬∃ t, step s (.tryStop 0 false) = some t ∧ t.stops[0]? = some .returned := by
  have hrun : Lts.run step {} (stopWaits.take 4) = some ⟨1, [.locked], [.spinning]⟩ := by decide
  have hiff := stop_returns_iff hrun (k := 0) rfl
  exact ⟨_, hrun, fun h => hiff.mp h (by decide)⟩

def Scope.isEntering : Scope → Bool
  | .entering _ => true
  | _ => false

def loses (k : ℕ) (_ : State) (a : Action) (t : State) : Bool :=
  a = .tryLock k false ∧ (t.scopes[k]?).any Scope.isEntering

def moves (s : State) (_ : Action) (t : State) : Bool := s.count ≠ t.count

def stale (k : ℕ) (s : State) : ℕ :=
  match s.scopes[k]? with
  | some (.entering expected) => if expected = s.count then 0 else 1
  | _ => 0

theorem stale_le_one (k : ℕ) (s : State) : stale k s ≤ 1 := by
  unfold stale
  split
  · split_ifs <;> omega
  · omega

theorem stale_le_of_ne {k : ℕ} (h : t.scopes[k]? = s.scopes[k]?) :
    stale k t ≤ (if s.count ≠ t.count then 1 else 0) + stale k s := by
  by_cases hcount : s.count = t.count
  · simp [stale, h, hcount]
  · have hle := stale_le_one k t
    rw [if_pos hcount]
    omega

theorem loses_tryLock {k : ℕ} {spurious : Bool} (hs : step s (.tryLock k spurious) = some t) :
    (if loses k s (.tryLock k spurious) t then 1 else 0) + stale k t ≤ stale k s := by
  obtain ⟨expected, hk, rfl⟩ := step_tryLock hs
  obtain ⟨hlt, -⟩ := List.getElem?_eq_some_iff.mp hk
  have hset (scope : Scope) : (s.scopes.set k scope)[k]? = some scope := List.getElem?_set_self hlt
  obtain ⟨-, hpass⟩ | ⟨-, -, -, hpass⟩ | ⟨-, hspurious, hpass⟩ :=
    Scope.pass_cases s.count expected spurious
  · simp [hpass, loses, stale, hset, Scope.isEntering]
  · simp [hpass, loses, stale, hset, Scope.isEntering]
  · -- `expected` is up to date again; it was not, if the exchange failed for a reason
    cases spurious with
    | true => simp [hpass, loses, stale, hset]
    | false =>
      have hne : expected ≠ s.count := fun h => absurd (hspurious h.symm) (by decide)
      simp [hpass, loses, stale, hset, hk, hne, Scope.isEntering]

theorem loses_of_ne {k : ℕ} {a : Action} (hne : a ≠ .tryLock k false) : loses k s a t = false := by
  simp [loses, hne]

theorem loses_add_stale_le {k : ℕ} {a : Action} (hs : step s a = some t) :
    (if loses k s a t then 1 else 0) + stale k t ≤
      (if moves s a t then 1 else 0) + stale k s := by
  have hother (hne : a ≠ .tryLock k false) (hk : t.scopes[k]? = s.scopes[k]?) :
      (if loses k s a t then 1 else 0) + stale k t ≤
        (if moves s a t then 1 else 0) + stale k s := by
    rw [loses_of_ne hne]
    simpa [moves] using stale_le_of_ne hk
  cases a with
  | continueLock =>
    cases hs
    rw [loses_of_ne (by simp)]
    rcases lt_trichotomy k s.scopes.length with hlt | rfl | hgt
    · simp [stale, List.getElem?_append_left hlt]
    · simp [stale]
    · have hnone : (s.scopes ++ [Scope.entering s.count])[k]? = none := by
        apply List.getElem?_eq_none
        simpa using hgt
      simp [stale, hnone]
  | tryLock j spurious =>
    by_cases hj : j = k
    · subst hj
      exact (loses_tryLock hs).trans (Nat.le_add_left _ _)
    · obtain ⟨expected, -, rfl⟩ := step_tryLock hs
      exact hother (by simp [hj]) (List.getElem?_set_ne hj)
  | release j =>
    obtain ⟨hj, rfl⟩ := step_release hs
    by_cases hjk : j = k
    · subst hjk
      obtain ⟨hlt, -⟩ := List.getElem?_eq_some_iff.mp hj
      rw [loses_of_ne (by simp)]
      simp [stale, hlt]
    · exact hother (by simp) (List.getElem?_set_ne hjk)
  | stop =>
    cases hs
    exact hother (by simp) rfl
  | tryStop j spurious =>
    obtain ⟨-, rfl⟩ := step_tryStop hs
    exact hother (by simp) rfl

theorem loses_le_moves {actions : List Action} (k : ℕ)
    (hrun : Lts.run step {} actions = some s) :
    Lts.countSteps step (loses k) {} actions ≤ Lts.countSteps step moves {} actions := by
  have hle := Lts.countSteps_add_le (I := fun _ => True) (P := loses k) (Q := moves) (f := stale k)
    (fun _ _ _ _ _ => trivial) (fun _ _ _ _ hs => loses_add_stale_le hs) trivial hrun
  have hzero : stale k {} = 0 := by simp [stale]
  omega

theorem loses_le_moves_stopWaits : ∃ s, Lts.run step {} stopWaits = some s ∧
    Lts.countSteps step (loses 1) {} stopWaits ≤ 3 := by
  have hrun : Lts.run step {} stopWaits =
      some ⟨-1, [.released, .entering 1], [.returned]⟩ := by decide
  have hmoves : Lts.countSteps step moves {} stopWaits = 3 := by decide
  exact ⟨_, hrun, (loses_le_moves 1 hrun).trans hmoves.le⟩

end DanmakuChicken.SimpleWeb.ScopeRunner
