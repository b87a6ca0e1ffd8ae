import Mathlib.Data.List.Basic
import Mathlib.Tactic.Common

universe u

namespace Words

variable {α : Type u}

def splitFrom (p : α → Bool) (word : List α) : List α → List (List α)
  | [] => if word = [] then [] else [word]
  | c :: rest =>
    if p c then
      if word = [] then splitFrom p [] rest else word :: splitFrom p [] rest
    else splitFrom p (word ++ [c]) rest

def split (p : α → Bool) : List α → List (List α) := splitFrom p []

variable {p : α → Bool}

theorem splitFrom_append {t : List α} (h : ∀ c ∈ t, p c = false) (word rest : List α) :
    splitFrom p word (t ++ rest) = splitFrom p (word ++ t) rest := by
  induction t generalizing word with
  | nil => simp
  | cons c t ih =>
    have hc : p c = false := h c (by simp)
    rw [List.cons_append, splitFrom, hc, if_neg (by simp), ih fun d hd => h d (by simp [hd])]
    simp

theorem split_intercalate {sep : α} (hsep : p sep = true) {words : List (List α)}
    (h : ∀ t ∈ words, ∀ c ∈ t, p c = false) :
    split p (List.intercalate [sep] words) = words.filter (· ≠ []) := by
  induction words with
  | nil => rfl
  | cons t words ih =>
    have ht : ∀ c ∈ t, p c = false := h t (by simp)
    have hrest := ih fun t' ht' => h t' (by simp [ht'])
    cases words with
    | nil =>
      have hall := splitFrom_append ht [] []
      rw [List.append_nil, List.nil_append] at hall
      rw [List.intercalate_singleton, split, hall, splitFrom, List.filter_cons]
      by_cases hnil : t = []
      · simp [hnil]
      · simp [hnil]
    | cons t' words =>
      rw [List.intercalate_cons_cons, split, List.append_assoc, splitFrom_append ht,
        List.nil_append, List.singleton_append, splitFrom, hsep, if_pos rfl, List.filter_cons]
      rw [split] at hrest
      rw [hrest]
      by_cases hnil : t = []
      · simp [hnil]
      · simp [hnil]

end Words
