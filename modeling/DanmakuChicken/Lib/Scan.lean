import Mathlib.Data.List.Basic
import Mathlib.Data.List.Infix
import Mathlib.Data.List.Induction
import Mathlib.Tactic.Common

universe u v

namespace Scan

variable {α : Type u} {σ : Type v}

def scan (step : σ → ℕ → α → σ) (st : σ) (s : List α) : σ :=
  s.zipIdx.foldl (fun st x => step st x.2 x.1) st

@[simp] theorem scan_nil (step : σ → ℕ → α → σ) (st : σ) : scan step st [] = st := rfl

@[simp] theorem scan_concat (step : σ → ℕ → α → σ) (st : σ) (s : List α) (c : α) :
    scan step st (s ++ [c]) = step (scan step st s) s.length c := by
  simp [scan, List.zipIdx_append]

theorem invariant {step : σ → ℕ → α → σ} {I : List α → σ → Prop} {st : σ} {s : List α}
    (h : I [] st)
    (hstep : ∀ p c st, p ++ [c] <+: s → I p st → I (p ++ [c]) (step st p.length c)) :
    I s (scan step st s) := by
  induction s using List.reverseRecOn with
  | nil => exact h
  | append_singleton s c ih =>
    rw [scan_concat]
    apply hstep s c _ List.prefix_rfl
    exact ih fun p d st hp => hstep p d st (hp.trans (List.prefix_append s [c]))

variable [DecidableEq α]

def last (sep : α) : List α → Option (List α × List α)
  | [] => none
  | c :: s =>
    match last sep s with
    | some (x, y) => some (c :: x, y)
    | none => if c = sep then some ([], s) else none

theorem last_eq_none {sep : α} {s : List α} : last sep s = none ↔ sep ∉ s := by
  induction s with
  | nil => simp [last]
  | cons c s ih =>
    rw [List.mem_cons, not_or, ← ih, last]
    cases last sep s with
    | none => simp [eq_comm]
    | some r => simp

theorem last_append_cons {sep : α} (x : List α) {y : List α} (h : sep ∉ y) :
    last sep (x ++ sep :: y) = some (x, y) := by
  induction x with
  | nil => simp [last, last_eq_none.mpr h]
  | cons c x ih => rw [List.cons_append, last, ih]

theorem eq_of_last {sep : α} {s x y : List α} (h : last sep s = some (x, y)) :
    s = x ++ sep :: y ∧ sep ∉ y := by
  induction s generalizing x with
  | nil => simp [last] at h
  | cons c s ih =>
    rw [last] at h
    cases hs : last sep s with
    | none =>
      simp only [hs, Option.ite_none_right_eq_some, Option.some.injEq, Prod.mk.injEq] at h
      obtain ⟨rfl, rfl, rfl⟩ := h
      exact ⟨rfl, last_eq_none.mp hs⟩
    | some r =>
      obtain ⟨x', y'⟩ := r
      simp only [hs, Option.some.injEq, Prod.mk.injEq] at h
      obtain ⟨rfl, rfl⟩ := h
      obtain ⟨rfl, hy⟩ := ih hs
      exact ⟨rfl, hy⟩

theorem last_concat (sep : α) (s : List α) (c : α) :
    last sep (s ++ [c]) =
      if c = sep then some (s, []) else (last sep s).map fun (x, y) => (x, y ++ [c]) := by
  split_ifs with hc
  · rw [hc]
    exact last_append_cons s (by simp)
  · cases hs : last sep s with
    | none =>
      rw [Option.map_none, last_eq_none]
      simpa [Ne.symm hc] using last_eq_none.mp hs
    | some r =>
      obtain ⟨rfl, hy⟩ := eq_of_last hs
      rw [List.append_assoc, List.cons_append, Option.map_some]
      exact last_append_cons r.1 (by simpa [Ne.symm hc] using hy)

theorem idxOf?_append_cons {c : α} {s : List α} (h : c ∉ s) (t : List α) :
    (s ++ c :: t).idxOf? c = some s.length := by
  induction s with
  | nil => simp [List.idxOf?_cons]
  | cons d s ih =>
    rw [List.mem_cons, not_or] at h
    have hne : (d == c) = false := by simpa using Ne.symm h.1
    rw [List.cons_append, List.idxOf?_cons, hne, ih h.2]
    rfl

theorem not_mem_of_mem_splitOn {sep : α} {s x : List α} (h : x ∈ s.splitOn sep) : sep ∉ x := by
  induction s generalizing x with
  | nil =>
    obtain rfl : x = [] := by simpa using h
    simp
  | cons c s ih =>
    rw [List.splitOn_cons_eq_if_modifyHead] at h
    split_ifs at h with hc
    · obtain rfl | h := List.mem_cons.mp h
      · simp
      · exact ih h
    · cases hs : s.splitOn sep with
      | nil => exact absurd hs (List.splitOn_ne_nil sep s)
      | cons y ys =>
        rw [hs] at h ih
        rw [List.modifyHead_cons] at h
        obtain rfl | h := List.mem_cons.mp h
        · have hy : sep ∉ y := ih (by simp)
          rw [List.mem_cons, not_or]
          exact ⟨fun heq => hc (by simp [heq]), hy⟩
        · exact ih (by simp [h])

end Scan
