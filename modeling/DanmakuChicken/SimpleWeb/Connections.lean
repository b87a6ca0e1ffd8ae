import DanmakuChicken.Lib.Lts
import Mathlib.Data.List.Nodup
import Mathlib.Logic.Function.Basic

namespace DanmakuChicken.SimpleWeb.Connections

/-- `create_connection` has yet to add it, or there is a shared pointer and so many others, or the
deleter waits for the mutex, or the deleter is about to delete it. -/
inductive Phase
  | created
  | shared (others : ℕ)
  | expired
  | unlinked
  deriving DecidableEq

structure Object where
  phase : Phase := .created
  detached : Bool := false
  closed : Bool := false
  deriving DecidableEq

/-- The objects by their addresses.  `stopping` is what the loop of `stop`, which holds the mutex,
has left to close; `undefined` says that something which was deleted has been used. -/
structure State where
  heap : ℕ → Option Object := fun _ => none
  connections : List ℕ := []
  stopping : Option (List ℕ) := none
  undefined : Bool := false

inductive Action
  | new (a : ℕ)
  | emplace (a : ℕ)
  | copy (a : ℕ)
  | drop (a : ℕ)
  | upgrade (a : ℕ)
  | unlink (a : ℕ)
  | delete (a : ℕ)
  | lock
  | close
  | unlock
  deriving DecidableEq

namespace State

def set (s : State) (a : ℕ) (object : Option Object) : State :=
  { s with heap := Function.update s.heap a object }

end State

/-- An allocation may give any address that is free, also one that another object had. -/
def step (s : State) : Action → Option State
  | .new a => if s.heap a = none then some (s.set a (some {})) else none
  | .emplace a =>
    match s.stopping, s.heap a with
    | none, some ⟨.created, detached, closed⟩ =>
      some { s.set a (some ⟨.shared 0, detached, closed⟩) with
        connections := s.connections.insert a }
    | _, _ => none
  | .copy a =>
    match s.heap a with
    | some ⟨.shared others, detached, closed⟩ =>
      some (s.set a (some ⟨.shared (others + 1), detached, closed⟩))
    | _ => none
  | .drop a =>
    match s.heap a with
    | some ⟨.shared 0, detached, closed⟩ => some (s.set a (some ⟨.expired, detached, closed⟩))
    | some ⟨.shared (others + 1), detached, closed⟩ =>
      some (s.set a (some ⟨.shared others, detached, closed⟩))
    | _ => none
  | .upgrade a =>
    match s.stopping, s.heap a with
    | none, some ⟨.shared others, _, closed⟩ =>
      some { s.set a (some ⟨.shared others, true, closed⟩) with
        connections := s.connections.erase a }
    | _, _ => none
  | .unlink a =>
    match s.stopping, s.heap a with
    | none, some ⟨.expired, detached, closed⟩ =>
      some { s.set a (some ⟨.unlinked, detached, closed⟩) with
        connections := s.connections.erase a }
    | _, _ => none
  | .delete a =>
    match s.heap a with
    | some ⟨.unlinked, _, _⟩ => some (s.set a none)
    | _ => none
  | .lock => if s.stopping = none then some { s with stopping := some s.connections } else none
  | .close =>
    match s.stopping with
    | some (a :: rest) =>
      match s.heap a with
      | some object =>
        some { s.set a (some { object with closed := true }) with stopping := some rest }
      | none => some { s with stopping := some rest, undefined := true }
    | _ => none
  | .unlock =>
    if s.stopping = some [] then some { s with connections := [], stopping := none } else none

def Object.Fits (linked : Prop) : Option Object → Prop
  | some ⟨.shared _, detached, closed⟩ | some ⟨.expired, detached, closed⟩ =>
    linked ∨ detached ∨ closed
  | some ⟨.created, _, _⟩ | some ⟨.unlinked, _, _⟩ | none => ¬linked

structure Invariant (s : State) : Prop where
  nodup : s.connections.Nodup
  fits (a : ℕ) : Object.Fits (a ∈ s.connections) (s.heap a)
  passed : ∀ rest ∈ s.stopping, ∃ done, s.connections = done ++ rest ∧
    ∀ a ∈ done, ∃ object ∈ s.heap a, object.closed
  defined : s.undefined = false

variable {s t : State} {a : ℕ}

theorem Object.Fits.live {linked : Prop} {object : Option Object} (h : Object.Fits linked object)
    (hlinked : linked) : ∃ o ∈ object, o.phase = .expired ∨ ∃ others, o.phase = .shared others := by
  match object with
  | some ⟨.shared others, detached, closed⟩ => exact ⟨_, rfl, .inr ⟨others, rfl⟩⟩
  | some ⟨.expired, detached, closed⟩ => exact ⟨_, rfl, .inl rfl⟩
  | some ⟨.created, detached, closed⟩ | some ⟨.unlinked, detached, closed⟩ | none =>
    exact absurd hlinked h

theorem Object.Fits.of_closed {linked : Prop} {object : Option Object}
    (h : Object.Fits linked object)
    (hclosed : linked → ∃ o ∈ object, o.closed) : Object.Fits False object := by
  match object with
  | some ⟨.shared _, detached, closed⟩ | some ⟨.expired, detached, closed⟩ =>
    obtain hlinked | h := h
    · obtain ⟨_, ⟨⟩, hc⟩ := hclosed hlinked
      exact .inr (.inr hc)
    · exact .inr h
  | some ⟨.created, _, _⟩ | some ⟨.unlinked, _, _⟩ | none => exact not_false

theorem Object.Fits.close {linked : Prop} {object : Object} (h : Object.Fits linked (some object))
    (hlinked : linked) : Object.Fits linked (some { object with closed := true }) := by
  obtain ⟨_, ⟨⟩, hphase⟩ := h.live hlinked
  obtain ⟨phase, detached, closed⟩ := object
  obtain rfl | ⟨others, rfl⟩ := hphase
  · exact .inl hlinked
  · exact .inl hlinked

theorem Invariant.set (h : Invariant s) {object : Option Object}
    (hfits : Object.Fits (a ∈ s.connections) object)
    (hclosed : a ∈ s.connections → ∀ o ∈ s.heap a, o.closed → ∃ o' ∈ object, o'.closed) :
    Invariant (s.set a object) := by
  refine ⟨h.nodup, fun b => ?_, fun rest hrest => ?_, h.defined⟩
  · by_cases hab : b = a
    · subst hab
      simpa [State.set] using hfits
    · simpa [State.set, hab] using h.fits b
  · obtain ⟨done, heq, hdone⟩ := h.passed rest hrest
    refine ⟨done, heq, fun b hb => ?_⟩
    obtain ⟨o, ho, hc⟩ := hdone b hb
    by_cases hab : b = a
    · subst hab
      have hmem : b ∈ s.connections := by rw [heq]; exact List.mem_append_left rest hb
      simpa [State.set] using hclosed hmem o ho hc
    · exact ⟨o, by simpa [State.set, hab] using ho, hc⟩

theorem Invariant.count (h : Invariant s) {phase phase' : Phase} {detached closed : Bool}
    (hheap : s.heap a = some ⟨phase, detached, closed⟩)
    (hphase : ∀ linked, Object.Fits linked (some ⟨phase, detached, closed⟩) →
      Object.Fits linked (some ⟨phase', detached, closed⟩)) :
    Invariant (s.set a (some ⟨phase', detached, closed⟩)) := by
  have hfits := h.fits a
  rw [hheap] at hfits
  refine h.set (hphase _ hfits) fun _ o ho hc => ⟨_, rfl, ?_⟩
  rw [hheap] at ho
  cases ho
  exact hc

theorem Invariant.link (h : Invariant s) (hfree : s.stopping = none) {object : Option Object}
    {connections : List ℕ} (hnodup : connections.Nodup)
    (hmem : ∀ b, b ≠ a → (b ∈ connections ↔ b ∈ s.connections))
    (hfits : Object.Fits (a ∈ connections) object) :
    Invariant { s.set a object with connections := connections } := by
  refine ⟨hnodup, fun b => ?_, fun rest hrest => ?_, h.defined⟩
  · by_cases hab : b = a
    · subst hab
      simpa [State.set] using hfits
    · simpa [State.set, hab, hmem b hab] using h.fits b
  · simp [State.set, hfree] at hrest

theorem Invariant.unlock (h : Invariant s) (hrest : s.stopping = some []) :
    Invariant { s with connections := [], stopping := none } := by
  obtain ⟨done, hconnections, hdone⟩ := h.passed [] hrest
  rw [List.append_nil] at hconnections
  refine ⟨List.nodup_nil, fun b => ?_, by simp, h.defined⟩
  have hfits : Object.Fits False (s.heap b) := (h.fits b).of_closed fun hb =>
    hdone b (hconnections ▸ hb)
  simpa using hfits

theorem Invariant.exists_object (h : Invariant s) {rest : List ℕ}
    (hstopping : s.stopping = some (a :: rest)) : a ∈ s.connections ∧ ∃ o, s.heap a = some o := by
  obtain ⟨done, hconnections, -⟩ := h.passed _ hstopping
  have hmem : a ∈ s.connections := by simp [hconnections]
  obtain ⟨object, hheap, -⟩ := (h.fits a).live hmem
  exact ⟨hmem, object, hheap⟩

theorem Invariant.close (h : Invariant s) {rest : List ℕ} {object : Object}
    (hstopping : s.stopping = some (a :: rest)) (hheap : s.heap a = some object) :
    Invariant { s.set a (some { object with closed := true }) with stopping := some rest } := by
  have hmem := (h.exists_object hstopping).1
  have hfits := h.fits a
  rw [hheap] at hfits
  have hset : Invariant (s.set a (some { object with closed := true })) :=
    h.set (hfits.close hmem) fun _ _ _ _ => ⟨_, rfl, rfl⟩
  obtain ⟨done, hconnections, hdone⟩ := hset.passed _ hstopping
  refine ⟨hset.nodup, hset.fits, ?_, hset.defined⟩
  rintro _ ⟨⟩
  refine ⟨done ++ [a], by simpa using hconnections, fun b hb => ?_⟩
  obtain hb | hb := List.mem_append.mp hb
  · exact hdone b hb
  · obtain rfl := List.mem_singleton.mp hb
    exact ⟨{ object with closed := true }, by simp [State.set], rfl⟩

theorem Invariant.step {action : Action} (h : Invariant s) (ht : step s action = some t) :
    Invariant t := by
  cases action with
  | new a =>
    obtain ⟨hheap, rfl⟩ := Option.ite_none_right_eq_some.mp ht |>.imp_right Option.some.inj
    have hfits := h.fits a
    rw [hheap] at hfits
    exact h.set hfits fun hmem => absurd hmem hfits
  | emplace a =>
    simp only [Connections.step] at ht
    split at ht
    · rename_i detached closed hfree hheap
      cases ht
      exact h.link hfree (h.nodup.insert) (fun b hb => by simp [hb]) (.inl List.mem_insert_self)
    · cases ht
  | copy a =>
    simp only [Connections.step] at ht
    split at ht
    · rename_i hheap
      cases ht
      exact h.count hheap fun _ hfits => hfits
    · cases ht
  | drop a =>
    simp only [Connections.step] at ht
    split at ht
    · rename_i hheap
      cases ht
      exact h.count hheap fun _ hfits => hfits
    · rename_i hheap
      cases ht
      exact h.count hheap fun _ hfits => hfits
    · cases ht
  | upgrade a =>
    simp only [Connections.step] at ht
    split at ht
    · rename_i others detached closed hfree hheap
      cases ht
      exact h.link hfree (h.nodup.erase a) (fun b hb => List.mem_erase_of_ne hb) (.inr (.inl rfl))
    · cases ht
  | unlink a =>
    simp only [Connections.step] at ht
    split at ht
    · rename_i detached closed hfree hheap
      cases ht
      exact h.link hfree (h.nodup.erase a) (fun b hb => List.mem_erase_of_ne hb)
        h.nodup.not_mem_erase
    · cases ht
  | delete a =>
    simp only [Connections.step] at ht
    split at ht
    · rename_i detached closed hheap
      cases ht
      have hfits := h.fits a
      rw [hheap] at hfits
      exact h.set hfits fun hmem => absurd hmem hfits
    · cases ht
  | lock =>
    obtain ⟨hfree, rfl⟩ := Option.ite_none_right_eq_some.mp ht |>.imp_right Option.some.inj
    exact ⟨h.nodup, h.fits, by rintro _ ⟨⟩; exact ⟨[], rfl, nofun⟩, h.defined⟩
  | unlock =>
    obtain ⟨hrest, rfl⟩ := Option.ite_none_right_eq_some.mp ht |>.imp_right Option.some.inj
    exact h.unlock hrest
  | close =>
    simp only [Connections.step] at ht
    split at ht
    · rename_i a rest hstopping
      obtain ⟨-, object, hheap⟩ := h.exists_object hstopping
      rw [hheap] at ht
      cases ht
      exact h.close hstopping hheap
    · cases ht

theorem invariant_of_run {actions : List Action} {u : State}
    (hrun : Lts.run step {} actions = some u) : Invariant u := by
  refine Lts.invariant (fun _ _ _ h ht => h.step ht) ?_ hrun
  exact ⟨List.nodup_nil, fun _ => List.not_mem_nil, by simp, rfl⟩

theorem memory_safe_of_run {actions : List Action} {u : State}
    (hrun : Lts.run step {} actions = some u) :
    u.undefined = false ∧ (∀ a ∈ u.connections, (u.heap a).isSome) ∧
      ∀ a others detached closed, u.heap a = some ⟨.shared others, detached, closed⟩ →
        a ∈ u.connections ∨ detached ∨ closed := by
  have h := invariant_of_run hrun
  refine ⟨h.defined, fun a ha => ?_, fun a others detached closed hheap => ?_⟩
  · obtain ⟨object, hobject, -⟩ := (h.fits a).live ha
    exact Option.isSome_iff_exists.mpr ⟨object, hobject⟩
  · have hfits := h.fits a
    rwa [hheap] at hfits

def stopAndReuse : List Action :=
  [.new 4, .emplace 4, .new 8, .emplace 8, .copy 8, .drop 4, .lock, .close, .drop 8, .close,
    .unlock, .unlink 4, .delete 4, .new 4, .emplace 4, .drop 8]

theorem isSome_stopAndReuse : (Lts.run step {} stopAndReuse).isSome := by decide

theorem memory_safe_of_run_stopAndReuse :
    ∃ u, Lts.run step {} stopAndReuse = some u ∧
      u.undefined = false ∧ (∀ a ∈ u.connections, (u.heap a).isSome) ∧
        ∀ a others detached closed, u.heap a = some ⟨.shared others, detached, closed⟩ →
          a ∈ u.connections ∨ detached ∨ closed :=
  ⟨_, (Option.some_get isSome_stopAndReuse).symm,
    memory_safe_of_run (Option.some_get isSome_stopAndReuse).symm⟩

end DanmakuChicken.SimpleWeb.Connections
