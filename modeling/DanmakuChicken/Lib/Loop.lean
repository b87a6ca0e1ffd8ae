import Mathlib.Data.List.Basic
import Mathlib.Logic.Relation
import Mathlib.Tactic.Common

universe u v

namespace Loop

variable {σ : Type u} {ρ : Type v} {body : σ → σ ⊕ ρ}

inductive Ends (body : σ → σ ⊕ ρ) : σ → ρ → Prop
  | done {s : σ} {r : ρ} (h : body s = .inr r) : Ends body s r
  | next {s t : σ} {r : ρ} (h : body s = .inl t) (ht : Ends body t r) : Ends body s r

def Reaches (body : σ → σ ⊕ ρ) : σ → σ → Prop :=
  Relation.ReflTransGen fun s t => body s = .inl t

theorem Reaches.induction {I : σ → Prop} {s t : σ} (h : Reaches body s t) (hs : I s)
    (hI : ∀ s t, I s → body s = .inl t → I t) : I t := by
  induction h with
  | refl => exact hs
  | tail _ hnext ih => exact hI _ _ ih hnext

def iter (body : σ → σ ⊕ ρ) : ℕ → σ → Option ρ
  | 0, _ => none
  | n + 1, s =>
    match body s with
    | .inl t => iter body n t
    | .inr r => some r

theorem iter_of_inl {n : ℕ} {s t : σ} (h : body s = .inl t) :
    iter body (n + 1) s = iter body n t := by simp [iter, h]

theorem iter_of_inr {n : ℕ} {s : σ} {r : ρ} (h : body s = .inr r) :
    iter body (n + 1) s = some r := by simp [iter, h]

theorem ends_of_iter {n : ℕ} {s : σ} {r : ρ} (h : iter body n s = some r) : Ends body s r := by
  induction n generalizing s with
  | zero => simp [iter] at h
  | succ n ih =>
    cases hs : body s with
    | inl t =>
      rw [iter_of_inl hs] at h
      exact .next hs (ih h)
    | inr r' =>
      rw [iter_of_inr hs] at h
      cases h
      exact .done hs

theorem ends_iff_of_inl {s t : σ} {r : ρ} (h : body s = .inl t) : Ends body s r ↔ Ends body t r := by
  constructor
  · intro hends
    cases hends with
    | done hdone =>
      rw [h] at hdone
      cases hdone
    | next hnext ht =>
      rw [h] at hnext
      cases hnext
      exact ht
  · exact .next h

theorem ends_iff_of_inr {s : σ} {r r' : ρ} (h : body s = .inr r) : Ends body s r' ↔ r' = r := by
  constructor
  · intro hends
    cases hends with
    | done hdone =>
      rw [h] at hdone
      cases hdone
      rfl
    | next hnext _ =>
      rw [h] at hnext
      cases hnext
  · rintro rfl
    exact .done h

theorem Ends.unique {s : σ} {r r' : ρ} (h : Ends body s r) (h' : Ends body s r') : r = r' := by
  induction h with
  | done hdone =>
    cases h' with
    | done hdone' =>
      rw [hdone] at hdone'
      cases hdone'
      rfl
    | next hnext' _ =>
      rw [hdone] at hnext'
      cases hnext'
  | next hnext _ ih => exact ih ((ends_iff_of_inl hnext).mp h')

theorem ends_of_measure {I : σ → Prop} {f : σ → ℕ}
    (hI : ∀ s t, I s → body s = .inl t → I t ∧ f t < f s) {s : σ} (hs : I s) :
    ∃ r, Ends body s r := by
  induction hn : f s using Nat.strongRecOn generalizing s with
  | ind n ih =>
    cases hbody : body s with
    | inr r => exact ⟨r, .done hbody⟩
    | inl t =>
      obtain ⟨ht, hlt⟩ := hI s t hs hbody
      obtain ⟨r, hr⟩ := ih (f t) (hn ▸ hlt) ht rfl
      exact ⟨r, .next hbody hr⟩

theorem not_ends_of_invariant {I : σ → Prop} (hI : ∀ s, I s → ∃ t, body s = .inl t ∧ I t)
    {s : σ} (hs : I s) (r : ρ) : ¬ Ends body s r := by
  intro h
  induction h with
  | done hdone =>
    obtain ⟨t, ht, -⟩ := hI _ hs
    simp [hdone] at ht
  | next hnext _ ih =>
    obtain ⟨t, ht, hIt⟩ := hI _ hs
    rw [hnext] at ht
    cases ht
    exact ih hIt

/-- Where every pass that does not lead into a state the loop never leaves makes `f` smaller,
a loop that ends does so within the passes `f` allows. -/
theorem Ends.iter_of_measure {f : σ → ℕ}
    (hf : ∀ s t, body s = .inl t → f t < f s ∨ ∀ r, ¬ Ends body t r)
    {s : σ} {r : ρ} (h : Ends body s r) {n : ℕ} (hn : f s < n) : iter body n s = some r := by
  induction h generalizing n with
  | done hdone =>
    cases n with
    | zero => omega
    | succ n => exact iter_of_inr hdone
  | @next s t r hnext ht ih =>
    cases n with
    | zero => omega
    | succ n =>
      rw [iter_of_inl hnext]
      cases hf s t hnext with
      | inl hlt => exact ih (by omega)
      | inr hnever => exact absurd ht (hnever r)

end Loop
