import DanmakuChicken.Lib.Lts
import Mathlib.Data.List.Perm.Basic

/-! Serializability by commit points.  A system works on a shared value; each of its steps
leaves the value alone or does to it, all at once, what one of the pending operations does. -/

universe u v w x

open scoped List

namespace Commit

variable {σ : Type u} {ι : Type v} {α : Type w} {ο : Type x}

/-- The step from `s` to `t` leaves the shared value and the pending operations alone, or
takes one of these and applies it. -/
def SilentOrCommits (shared : σ → α) (pending : σ → List ο) (apply : α → ο → α) (s t : σ) : Prop :=
  (shared t = shared s ∧ pending t = pending s) ∨
    ∃ o, pending s ~ o :: pending t ∧ shared t = apply (shared s) o

theorem exists_order {step : Lts.Step σ ι} {P : σ → ι → Prop} {I : σ → Prop}
    {shared : σ → α} {pending : σ → List ο} {apply : α → ο → α}
    (hstep : ∀ s l t, I s → P s l → step s l = some t →
      I t ∧ SilentOrCommits shared pending apply s t)
    {s u : σ} {ls : List ι} (hP : Lts.Along step P s ls) (hI : I s)
    (hrun : Lts.run step s ls = some u) :
    ∃ order, pending s ~ order ++ pending u ∧ shared u = order.foldl apply (shared s) := by
  induction ls generalizing s with
  | nil =>
    cases hrun
    exact ⟨[], .refl _, rfl⟩
  | cons l ls ih =>
    obtain ⟨t, ht, hrun⟩ := Lts.run_cons_eq_some.mp hrun
    obtain ⟨hIt, hcommit⟩ := hstep s l t hI hP.1 ht
    obtain ⟨order, hperm, hfold⟩ := ih (hP.2 t ht) hIt hrun
    rcases hcommit with ⟨hshared, hpending⟩ | ⟨o, hpending, hshared⟩
    · exact ⟨order, hpending ▸ hperm, by rw [hfold, hshared]⟩
    · refine ⟨o :: order, hpending.trans (hperm.cons o), ?_⟩
      rw [hfold, hshared]
      rfl

end Commit
