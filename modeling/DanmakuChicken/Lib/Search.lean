import Mathlib.Data.List.Infix
import Mathlib.Tactic.Common

universe u

namespace Search

variable {α : Type u} [DecidableEq α]

def through (delim : List α) : List α → Option (List α × List α)
  | [] => if delim = [] then some ([], []) else none
  | c :: s =>
    if delim <+: c :: s then some (delim, (c :: s).drop delim.length)
    else (through delim s).map fun (x, y) => (c :: x, y)

variable {delim s t x y : List α} {c : α}

theorem through_of_isPrefix (h : delim <+: s) :
    through delim s = some (delim, s.drop delim.length) := by
  cases s with
  | nil =>
    obtain rfl := List.prefix_nil.mp h
    rfl
  | cons c s => simp [through, h]

theorem through_cons_of_not_isPrefix (h : ¬delim <+: c :: s) :
    through delim (c :: s) = (through delim s).map fun (x, y) => (c :: x, y) := by
  simp [through, h]

theorem eq_append_of_through (h : through delim s = some (x, y)) : s = x ++ y ∧ delim <:+ x := by
  induction s generalizing x with
  | nil =>
    simp only [through, Option.ite_none_right_eq_some, Option.some.injEq, Prod.mk.injEq] at h
    obtain ⟨rfl, rfl, rfl⟩ := h
    exact ⟨rfl, List.suffix_rfl⟩
  | cons c s ih =>
    by_cases hpre : delim <+: c :: s
    · rw [through_of_isPrefix hpre] at h
      cases h
      exact ⟨(List.prefix_iff_eq_append.mp hpre).symm, List.suffix_rfl⟩
    · rw [through_cons_of_not_isPrefix hpre, Option.map_eq_some_iff] at h
      obtain ⟨⟨x', y'⟩, hx', heq⟩ := h
      cases heq
      obtain ⟨rfl, hsuffix⟩ := ih hx'
      exact ⟨rfl, hsuffix.trans (List.suffix_cons c x')⟩

theorem through_append (h : through delim s = some (x, y)) (t : List α) :
    through delim (s ++ t) = some (x, y ++ t) := by
  induction s generalizing x with
  | nil =>
    simp only [through, Option.ite_none_right_eq_some, Option.some.injEq, Prod.mk.injEq] at h
    obtain ⟨rfl, rfl, rfl⟩ := h
    exact through_of_isPrefix ⟨t, rfl⟩
  | cons c s ih =>
    by_cases hpre : delim <+: c :: s
    · rw [through_of_isPrefix hpre] at h
      cases h
      rw [through_of_isPrefix (hpre.trans (List.prefix_append _ _)),
        List.drop_append_of_le_length hpre.length_le]
    · rw [through_cons_of_not_isPrefix hpre, Option.map_eq_some_iff] at h
      obtain ⟨⟨x', y'⟩, hx', heq⟩ := h
      cases heq
      have hsuffix := (eq_append_of_through hx').2
      have hlonger : ¬delim <+: c :: (s ++ t) := by
        intro hlater
        apply hpre
        apply List.prefix_of_prefix_length_le hlater (List.prefix_append (c :: s) t)
        have hs := congrArg List.length (eq_append_of_through hx').1
        have hle := hsuffix.length_le
        simp only [List.length_append, List.length_cons] at hs ⊢
        omega
      rw [List.cons_append, through_cons_of_not_isPrefix hlonger, ih hx', Option.map_some]

end Search
