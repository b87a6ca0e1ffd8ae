import Mathlib.Data.List.Basic
import Mathlib.Tactic

universe u v

namespace Footprint

variable {α : Type u} {β : Type v}

/-- The entry at `k` of a list of length `n` makes a difference to what `f` does. -/
def LooksAt (f : List α → β) (n k : ℕ) : Prop :=
  ∃ xs : List α, xs.length = n ∧ ∃ x, f (xs.set k x) ≠ f xs

variable {f g : List α → β} {n k start stop : ℕ}

theorem lt_of_looksAt (h : LooksAt f n k) : k < n := by
  obtain ⟨xs, rfl, x, hne⟩ := h
  by_contra hle
  rw [List.set_eq_of_length_le (by omega)] at hne
  exact hne rfl

theorem slice_set {xs : List α} (x : α) (hk : start ≤ k) :
    ((xs.set k x).take stop).drop start = ((xs.take stop).drop start).set (k - start) x := by
  rw [List.take_set, List.drop_set, if_neg (by omega)]

theorem looksAt_slice_iff :
    LooksAt (fun xs => g ((xs.take stop).drop start)) n k ↔
      start ≤ k ∧ k < stop ∧ LooksAt g (min stop n - start) (k - start) := by
  constructor
  · rintro ⟨xs, hlength, x, hne⟩
    dsimp only at hne
    have hk : start ≤ k := by
      by_contra hlt
      rw [List.take_set, List.drop_set, if_pos (by omega)] at hne
      exact hne rfl
    rw [slice_set x hk] at hne
    have hlooks : LooksAt g (min stop n - start) (k - start) :=
      ⟨_, by simp [hlength], x, hne⟩
    have hlt := lt_of_looksAt hlooks
    exact ⟨hk, by omega, hlooks⟩
  · rintro ⟨hk, hstop, hlooks⟩
    have hlt := lt_of_looksAt hlooks
    obtain ⟨xs, hlength, x, hne⟩ := hlooks
    -- the slice, padded to the length of the whole list
    have hlength' : (List.replicate start x ++ xs).length = min stop n := by
      rw [List.length_append, List.length_replicate, hlength]
      omega
    have hrest : (List.replicate (n - stop) x).take (stop - min stop n) = [] := by
      rw [List.take_replicate, List.replicate_eq_nil_iff]
      omega
    have hslice : ((List.replicate start x ++ xs ++ List.replicate (n - stop) x).take stop).drop
        start = xs := by
      rw [List.take_append, List.take_of_length_le (by omega), hlength', hrest, List.append_nil,
        List.drop_left' List.length_replicate]
    refine ⟨List.replicate start x ++ xs ++ List.replicate (n - stop) x, ?_, x, ?_⟩
    · rw [List.length_append, hlength', List.length_replicate]
      omega
    · dsimp only
      rw [slice_set x hk, hslice]
      exact hne

theorem looksAt_slice_iff_of_forall (hg : ∀ m j, j < m → LooksAt g m j) :
    LooksAt (fun xs => g ((xs.take stop).drop start)) n k ↔ start ≤ k ∧ k < stop ∧ k < n := by
  rw [looksAt_slice_iff]
  constructor
  · rintro ⟨hk, hstop, hlooks⟩
    have hlt := lt_of_looksAt hlooks
    exact ⟨hk, hstop, by omega⟩
  · rintro ⟨hk, hstop, hlt⟩
    exact ⟨hk, hstop, hg _ _ (by omega)⟩

end Footprint
