import Mathlib.Data.List.Induction
import Mathlib.Tactic.Common

/-! Runs of partial, labelled step functions.  Every choice a step leaves open is part
of its label, so a run is a function of its labels. -/

universe u v

namespace Lts

variable {σ : Type u} {ι : Type v}

/-- A step from a state under a label; `none` where the label is not enabled. -/
abbrev Step (σ : Type u) (ι : Type v) := σ → ι → Option σ

def run (step : Step σ ι) : σ → List ι → Option σ
  | s, [] => some s
  | s, l :: ls => (step s l).bind fun t => run step t ls

@[simp] theorem run_nil (step : Step σ ι) (s : σ) : run step s [] = some s := rfl

@[simp] theorem run_cons (step : Step σ ι) (s : σ) (l : ι) (ls : List ι) :
    run step s (l :: ls) = (step s l).bind fun t => run step t ls := rfl

theorem run_append (step : Step σ ι) (s : σ) (ls ms : List ι) :
    run step s (ls ++ ms) = (run step s ls).bind fun t => run step t ms := by
  induction ls generalizing s with
  | nil => rfl
  | cons l ls ih =>
    simp only [List.cons_append, run_cons, ih]
    cases step s l <;> rfl

theorem run_cons_eq_some {step : Step σ ι} {s u : σ} {l : ι} {ls : List ι} :
    run step s (l :: ls) = some u ↔ ∃ t, step s l = some t ∧ run step t ls = some u := by
  simp [Option.bind_eq_some_iff]

theorem run_append_eq_some {step : Step σ ι} {s u : σ} {ls ms : List ι} :
    run step s (ls ++ ms) = some u ↔ ∃ t, run step s ls = some t ∧ run step t ms = some u := by
  simp [run_append, Option.bind_eq_some_iff]

theorem run_concat_eq_some {step : Step σ ι} {s u : σ} {ls : List ι} {l : ι} :
    run step s (ls ++ [l]) = some u ↔ ∃ t, run step s ls = some t ∧ step t l = some u := by
  simp [run_append_eq_some]

/-- Every step of the run that `ls` drives from `s` meets `P`, which sees the state
before the step and its label. -/
def Along (step : Step σ ι) (P : σ → ι → Prop) : σ → List ι → Prop
  | _, [] => True
  | s, l :: ls => P s l ∧ ∀ t, step s l = some t → Along step P t ls

@[simp] theorem along_nil (step : Step σ ι) (P : σ → ι → Prop) (s : σ) :
    Along step P s [] := trivial

theorem along_cons {step : Step σ ι} {P : σ → ι → Prop} {s : σ} {l : ι} {ls : List ι} :
    Along step P s (l :: ls) ↔ P s l ∧ ∀ t, step s l = some t → Along step P t ls := Iff.rfl

instance decidableAlong (step : Step σ ι) (P : σ → ι → Prop) [∀ s l, Decidable (P s l)] :
    (s : σ) → (ls : List ι) → Decidable (Along step P s ls)
  | _, [] => isTrue trivial
  | s, l :: ls =>
    match hstep : step s l with
    | none => decidable_of_iff (P s l) (by simp [along_cons, hstep])
    | some t =>
      have := decidableAlong step P t ls
      decidable_of_iff (P s l ∧ Along step P t ls) (by simp [along_cons, hstep])

theorem Along.and {step : Step σ ι} {P Q : σ → ι → Prop} {s : σ} {ls : List ι}
    (hP : Along step P s ls) (hQ : Along step Q s ls) :
    Along step (fun s l => P s l ∧ Q s l) s ls := by
  induction ls generalizing s with
  | nil => trivial
  | cons l ls ih => exact ⟨⟨hP.1, hQ.1⟩, fun t ht => ih (hP.2 t ht) (hQ.2 t ht)⟩

theorem along_of_forall {step : Step σ ι} {P : σ → ι → Prop} {ls : List ι}
    (h : ∀ l ∈ ls, ∀ s, P s l) (s : σ) : Along step P s ls := by
  induction ls generalizing s with
  | nil => trivial
  | cons l ls ih =>
    exact ⟨h l (by simp) s, fun t _ => ih (fun m hm => h m (by simp [hm])) t⟩

/-- The invariant rule: what holds at the start and is kept by every step that meets
`P` holds at the end of every run all of whose steps meet `P`. -/
theorem Along.invariant {step : Step σ ι} {P : σ → ι → Prop} {I : σ → Prop}
    (hstep : ∀ s l t, I s → P s l → step s l = some t → I t)
    {s u : σ} {ls : List ι} (hP : Along step P s ls) (hs : I s)
    (hrun : run step s ls = some u) : I u := by
  induction ls generalizing s with
  | nil =>
    cases hrun
    exact hs
  | cons l ls ih =>
    obtain ⟨t, ht, hrun⟩ := run_cons_eq_some.mp hrun
    exact ih (hP.2 t ht) (hstep s l t hs hP.1 ht) hrun

theorem invariant {step : Step σ ι} {I : σ → Prop}
    (hstep : ∀ s l t, I s → step s l = some t → I t)
    {s u : σ} {ls : List ι} (hs : I s) (hrun : run step s ls = some u) : I u :=
  (along_of_forall (P := fun _ _ => True) (fun _ _ _ => trivial) s).invariant
    (fun s l t hI _ ht => hstep s l t hI ht) hs hrun

/-- The ranking rule: where no step brings `f` up and every step under a label that `P` picks
brings it down, a run has room for as many of these labels as `f` comes down. -/
theorem countP_add_le {step : Step σ ι} {I : σ → Prop} {P : ι → Bool} {f : σ → ℕ}
    (hI : ∀ s l t, I s → step s l = some t → I t ∧ f t ≤ f s)
    (hP : ∀ s l t, I s → step s l = some t → P l → f t < f s)
    {s u : σ} {ls : List ι} (hs : I s) (hrun : run step s ls = some u) :
    ls.countP P + f u ≤ f s := by
  induction ls generalizing s with
  | nil =>
    cases hrun
    simp
  | cons l ls ih =>
    obtain ⟨t, ht, hrun⟩ := run_cons_eq_some.mp hrun
    obtain ⟨hIt, hle⟩ := hI s l t hs ht
    have hrest := ih hIt hrun
    by_cases hl : P l
    · have hlt := hP s l t hs ht hl
      rw [List.countP_cons_of_pos hl]
      omega
    · rw [List.countP_cons_of_neg hl]
      omega

def countSteps (step : Step σ ι) (P : σ → ι → σ → Bool) : σ → List ι → ℕ
  | _, [] => 0
  | s, l :: ls =>
    match step s l with
    | some t => (if P s l t then 1 else 0) + countSteps step P t ls
    | none => 0

theorem countSteps_false (step : Step σ ι) (s : σ) (ls : List ι) :
    countSteps step (fun _ _ _ => false) s ls = 0 := by
  induction ls generalizing s with
  | nil => rfl
  | cons l ls ih =>
    rw [countSteps]
    split
    · simp [ih]
    · rfl

/-- The accounting rule: where `f` pays for the steps in `P` and only the steps in `Q` pay in, a
run has no more steps in `P` than in `Q` and `f` held. -/
theorem countSteps_add_le {step : Step σ ι} {I : σ → Prop} {P Q : σ → ι → σ → Bool} {f : σ → ℕ}
    (hI : ∀ s l t, I s → step s l = some t → I t)
    (hf : ∀ s l t, I s → step s l = some t →
      (if P s l t then 1 else 0) + f t ≤ (if Q s l t then 1 else 0) + f s)
    {s u : σ} {ls : List ι} (hs : I s) (hrun : run step s ls = some u) :
    countSteps step P s ls + f u ≤ countSteps step Q s ls + f s := by
  induction ls generalizing s with
  | nil =>
    cases hrun
    simp [countSteps]
  | cons l ls ih =>
    obtain ⟨t, ht, hrest⟩ := run_cons_eq_some.mp hrun
    have hpaid := hf s l t hs ht
    have hle := ih (hI s l t hs ht) hrest
    simp only [countSteps, ht]
    omega

theorem along_or {step : Step σ ι} {P : σ → ι → Prop} {I D : σ → Prop}
    (hI : ∀ s l t, I s → P s l → step s l = some t → I t)
    (hfirst : ∀ s l t, I s → ¬P s l → step s l = some t → D t)
    (hD : ∀ s l t, D s → step s l = some t → D t)
    {s u : σ} {ls : List ι} (hs : I s) (hrun : run step s ls = some u) :
    Along step P s ls ∧ I u ∨ D u := by
  induction ls generalizing s with
  | nil =>
    cases hrun
    exact .inl ⟨trivial, hs⟩
  | cons l ls ih =>
    obtain ⟨t, ht, hrest⟩ := run_cons_eq_some.mp hrun
    by_cases hl : P s l
    · refine (ih (hI s l t hs hl ht) hrest).imp_left (And.imp_left fun hrest => ⟨hl, ?_⟩)
      intro t' ht'
      cases ht.symm.trans ht'
      exact hrest
    · exact .inr (invariant hD (hfirst s l t hs hl ht) hrest)

theorem exists_run {step : Step σ ι} {I G : σ → Prop} (f : σ → ℕ)
    (hstep : ∀ s, I s → ¬G s → ∃ l t, step s l = some t ∧ I t ∧ f t < f s) {s : σ} (hs : I s) :
    ∃ ls u, run step s ls = some u ∧ G u := by
  induction hn : f s using Nat.strongRecOn generalizing s with
  | ind n ih =>
    by_cases hG : G s
    · exact ⟨[], s, rfl, hG⟩
    · obtain ⟨l, t, ht, hI, hlt⟩ := hstep s hs hG
      obtain ⟨ls, u, hrun, hu⟩ := ih (f t) (hn ▸ hlt) hI rfl
      exact ⟨l :: ls, u, run_cons_eq_some.mpr ⟨t, ht, hrun⟩, hu⟩

theorem run_congr {step step' : Step σ ι} {P : ι → Prop} {I : σ → Prop}
    (hstep : ∀ s l t, I s → P l → step s l = some t → I t)
    (heq : ∀ s l, I s → step' s l = step s l) {s : σ} {ls : List ι} (hP : ∀ l ∈ ls, P l)
    (hs : I s) : run step' s ls = run step s ls := by
  induction ls generalizing s with
  | nil => rfl
  | cons l ls ih =>
    rw [run_cons, run_cons, heq s l hs]
    cases ht : step s l with
    | none => rfl
    | some t =>
      have hrest : run step' t ls = run step t ls :=
        ih (fun m hm => hP m (by simp [hm])) (hstep s l t hs (hP l (by simp)) ht)
      exact hrest

theorem history {step : Step σ ι} {I : List ι → σ → Prop}
    (hstep : ∀ ls s l t, I ls s → step s l = some t → I (ls ++ [l]) t)
    {s u : σ} {ls : List ι} (hs : I [] s) (hrun : run step s ls = some u) : I ls u := by
  induction ls using List.reverseRecOn generalizing u with
  | nil =>
    cases hrun
    exact hs
  | append_singleton ls l ih =>
    obtain ⟨t, ht, hl⟩ := run_concat_eq_some.mp hrun
    exact hstep ls t l u (ih ht) hl

end Lts
