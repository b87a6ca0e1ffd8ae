import Mathlib.Data.List.Perm.Basic
import Mathlib.Order.Bounds.Basic
import Mathlib.Order.Lattice
import Mathlib.Tactic.Common

/-! Reading a growing log through a cursor: every batch is what lies beyond the cursor, in any
order, and the cursor follows the largest key delivered. -/

universe u v

open scoped List

namespace Cursor

variable {α : Type u} {κ : Type v} [LinearOrder κ] {key : α → κ}

def beyond (key : α → κ) (c : κ) (log : List α) : List α := log.filter fun x => c < key x

theorem mem_beyond {c : κ} {log : List α} {x : α} : x ∈ beyond key c log ↔ x ∈ log ∧ c < key x := by
  simp [beyond]

theorem beyond_append (c : κ) (log more : List α) :
    beyond key c (log ++ more) = beyond key c log ++ beyond key c more := by simp [beyond]

theorem beyond_eq_nil {c : κ} {log : List α} (h : ∀ x ∈ log, key x ≤ c) : beyond key c log = [] := by
  simpa [beyond] using h

theorem beyond_congr {c d : κ} {log : List α} (h : ∀ x ∈ log, c < key x ↔ d < key x) :
    beyond key c log = beyond key d log := by
  apply List.filter_congr
  intro x hx
  simp [h x hx]

/-- Started at `l`, the reader has delivered `delivered` of the log it saw last, is about to
deliver `rest`, and its cursor is at `c`. -/
structure Delivers (key : α → κ) (l c : κ) (seen rest delivered : List α) : Prop where
  once : delivered ++ rest ~ beyond key l seen
  greatest : IsGreatest (insert l {k | ∃ x ∈ delivered, key x = k}) c

theorem Delivers.start (l : κ) : Delivers key l l [] [] [] where
  once := .refl _
  greatest := by simp

theorem Delivers.le {l c : κ} {seen rest delivered : List α}
    (h : Delivers key l c seen rest delivered) : l ≤ c := h.greatest.2 (Set.mem_insert _ _)

theorem Delivers.next {l c : κ} {seen rest delivered : List α} {x : α}
    (h : Delivers key l c seen (x :: rest) delivered) :
    Delivers key l (max c (key x)) seen rest (delivered ++ [x]) where
  once := by simpa using h.once
  greatest := by
    constructor
    · rcases le_total c (key x) with hle | hle
      · rw [max_eq_right hle]
        exact .inr ⟨x, by simp, rfl⟩
      · rw [max_eq_left hle]
        rcases h.greatest.1 with hc | ⟨y, hy, hc⟩
        · exact .inl hc
        · exact .inr ⟨y, by simp [hy], hc⟩
    · rintro k (rfl | ⟨y, hy, rfl⟩)
      · exact h.le.trans (le_max_left _ _)
      · rcases List.mem_append.mp hy with hy | hy
        · exact (h.greatest.2 (.inr ⟨y, hy, rfl⟩)).trans (le_max_left _ _)
        · rw [List.mem_singleton.mp hy]
          exact le_max_right _ _

theorem Delivers.poll {l c : κ} {seen new batch delivered : List α}
    (h : Delivers key l c seen [] delivered) (hnew : ∀ x ∈ seen, ∀ y ∈ new, key x < key y)
    (hbatch : batch ~ beyond key c (seen ++ new)) :
    Delivers key l c (seen ++ new) batch delivered where
  greatest := h.greatest
  once := by
    have hdelivered : ∀ x, x ∈ delivered ↔ x ∈ seen ∧ l < key x := by
      intro x
      rw [← mem_beyond, ← h.once.mem_iff, List.append_nil]
    have hseen : beyond key c seen = [] := by
      apply beyond_eq_nil
      intro x hx
      rcases lt_or_ge l (key x) with hlt | hle
      · exact h.greatest.2 (.inr ⟨x, (hdelivered x).mpr ⟨hx, hlt⟩, rfl⟩)
      · exact hle.trans h.le
    have hrest : beyond key c new = beyond key l new := by
      apply beyond_congr
      intro y hy
      constructor
      · exact h.le.trans_lt
      · intro hlt
        rcases h.greatest.1 with hc | ⟨x, hx, hc⟩
        · exact hc ▸ hlt
        · exact hc ▸ hnew x ((hdelivered x).mp hx).1 y hy
    rw [beyond_append, hseen, List.nil_append, hrest] at hbatch
    rw [beyond_append]
    exact (by simpa using h.once : delivered ~ beyond key l seen).append hbatch

end Cursor
