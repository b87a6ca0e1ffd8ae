import Mathlib.Data.List.Basic
import Mathlib.Tactic

/-! Regular expressions, matched from the left with backtracking. -/

universe u

inductive Regex (α : Type u)
  | eps
  | char (p : α → Bool)
  | seq (r t : Regex α)
  | alt (r t : Regex α)
  | star (greedy : Bool) (r : Regex α)

namespace Regex

variable {α : Type u}

def plus (greedy : Bool) (r : Regex α) : Regex α := seq r (star greedy r)

def opt (r : Regex α) : Regex α := alt r eps

def literal [DecidableEq α] : List α → Regex α
  | [] => eps
  | c :: s => seq (char (· = c)) (literal s)

/-- Rounds of `step` that each get on, at most `n` of them. -/
def starFrom (step : List α → List (List α)) (greedy : Bool) : ℕ → List α → List (List α)
  | 0, s => [s]
  | n + 1, s =>
    let more := ((step s).filter (·.length < s.length)).flatMap (starFrom step greedy n)
    if greedy then more ++ [s] else s :: more

/-- What a match at the start of a text may leave of it, in the order of the attempts. -/
def rests : Regex α → List α → List (List α)
  | eps, s => [s]
  | char _, [] => []
  | char p, c :: s => if p c then [s] else []
  | seq r t, s => (rests r s).flatMap (rests t)
  | alt r t, s => rests r s ++ rests t s
  | star greedy r, s => starFrom (rests r) greedy s.length s

/-- The text without its matches, for a pattern that does not match the empty text; the first
`skip` characters belong to a match before. -/
def removeFrom (r : Regex α) (skip : ℕ) : List α → List α
  | [] => []
  | c :: s =>
    match skip with
    | skip + 1 => removeFrom r skip s
    | 0 =>
      match (rests r (c :: s)).head? with
      | none => c :: removeFrom r 0 s
      | some rest =>
        if rest.length ≤ s.length then removeFrom r (s.length - rest.length) s
        else c :: removeFrom r 0 s

def removeAll (r : Regex α) (s : List α) : List α := removeFrom r 0 s

section rests

variable {p : α → Bool} {c : α} {s x : List α} {r t : Regex α} {greedy : Bool}

@[simp] theorem rests_eps : rests eps s = [s] := rfl

@[simp] theorem rests_char_nil : rests (char p) [] = [] := rfl

@[simp] theorem rests_char_cons : rests (char p) (c :: s) = if p c then [s] else [] := rfl

@[simp] theorem rests_seq : rests (seq r t) s = (rests r s).flatMap (rests t) := rfl

@[simp] theorem rests_alt : rests (alt r t) s = rests r s ++ rests t s := rfl

theorem rests_literal_append [DecidableEq α] (u s : List α) : rests (literal u) (u ++ s) = [s] := by
  induction u with
  | nil => rfl
  | cons c u ih => simp [literal, ih]

theorem rests_literal_singleton [DecidableEq α] (d c : α) (s : List α) :
    rests (literal [d]) (c :: s) = if c = d then [s] else [] := by
  by_cases h : c = d
  · simp [literal, h]
  · simp [literal, h]

theorem rests_star_char_nil : rests (star greedy (char p)) [] = [[]] := rfl

theorem rests_star_char_of_not (h : p c = false) :
    rests (star greedy (char p)) (c :: s) = [c :: s] := by
  cases greedy <;> simp [rests, starFrom, h]

theorem rests_star_greedy_char (h : p c = true) :
    rests (star true (char p)) (c :: s) = rests (star true (char p)) s ++ [c :: s] := by
  simp [rests, starFrom, h]

theorem rests_star_lazy_char (h : p c = true) :
    rests (star false (char p)) (c :: s) = (c :: s) :: rests (star false (char p)) s := by
  simp [rests, starFrom, h]

theorem suffix_of_mem_starFrom {step : List α → List (List α)}
    (hstep : ∀ {s rest}, rest ∈ step s → rest <:+ s) {n : ℕ} {rest : List α}
    (h : rest ∈ starFrom step greedy n s) : rest <:+ s := by
  induction n generalizing s with
  | zero =>
    rw [starFrom, List.mem_singleton] at h
    exact h ▸ List.suffix_rfl
  | succ n ih =>
    have hmore : rest ∈ ((step s).filter (·.length < s.length)).flatMap (starFrom step greedy n) →
        rest <:+ s := by
      intro hmem
      obtain ⟨middle, hmiddle, hrest⟩ := List.mem_flatMap.mp hmem
      exact (ih hrest).trans (hstep (List.mem_of_mem_filter hmiddle))
    cases greedy with
    | true =>
      rw [starFrom, if_pos rfl, List.mem_append, List.mem_singleton] at h
      rcases h with h | rfl
      · exact hmore h
      · exact List.suffix_rfl
    | false =>
      rw [starFrom, if_neg (by decide), List.mem_cons] at h
      rcases h with rfl | h
      · exact List.suffix_rfl
      · exact hmore h

theorem suffix_of_mem_rests {rest : List α} (h : rest ∈ rests r s) : rest <:+ s := by
  induction r generalizing s rest with
  | eps =>
    rw [rests_eps, List.mem_singleton] at h
    exact h ▸ List.suffix_rfl
  | char p =>
    cases s with
    | nil => cases h
    | cons c s =>
      rw [rests_char_cons] at h
      split_ifs at h with hc
      · rw [List.mem_singleton] at h
        exact h ▸ List.suffix_cons c s
      · cases h
  | seq r t ihr iht =>
    obtain ⟨middle, hmiddle, hrest⟩ := List.mem_flatMap.mp h
    exact (iht hrest).trans (ihr hmiddle)
  | alt r t ihr iht =>
    rw [rests_alt, List.mem_append] at h
    rcases h with h | h
    · exact ihr h
    · exact iht h
  | star greedy r ih => exact suffix_of_mem_starFrom ih h

theorem flatMap_star_greedy {f : List α → List (List α)} {u : List α}
    (hu : ∀ c ∈ u, p c = true) (hx : ∀ c ∈ x.head?, p c = false)
    (hf : ∀ c s, p c = true → f (c :: s) = []) :
    (rests (star true (char p)) (u ++ x)).flatMap f = f x := by
  induction u with
  | nil =>
    cases x with
    | nil => simp [rests_star_char_nil]
    | cons c x => simp [rests_star_char_of_not (hx c rfl)]
  | cons c u ih =>
    have hc : p c = true := hu c (by simp)
    rw [List.cons_append, rests_star_greedy_char hc, List.flatMap_append,
      ih fun d hd => hu d (by simp [hd]), List.flatMap_singleton, hf _ _ hc, List.append_nil]

theorem flatMap_star_lazy {f : List α → List (List α)} {u : List α}
    (hu : ∀ c ∈ u, p c = true) (hf : ∀ c ∈ u, ∀ s, f (c :: s) = []) :
    (rests (star false (char p)) (u ++ x)).flatMap f =
      (rests (star false (char p)) x).flatMap f := by
  induction u with
  | nil => rfl
  | cons c u ih =>
    rw [List.cons_append, rests_star_lazy_char (hu c (by simp)), List.flatMap_cons,
      hf c (by simp), List.nil_append]
    exact ih (fun d hd => hu d (by simp [hd])) fun d hd => hf d (by simp [hd])

end rests

section removeAll

variable {r : Regex α}

@[simp] theorem removeAll_nil : removeAll r [] = [] := rfl

theorem removeFrom_eq (r : Regex α) (skip : ℕ) (s : List α) :
    removeFrom r skip s = removeAll r (s.drop skip) := by
  induction s generalizing skip with
  | nil => simp [removeAll, removeFrom]
  | cons c s ih =>
    cases skip with
    | zero => rfl
    | succ skip => exact ih skip

theorem removeAll_of_no_match {c : α} {s : List α} (h : rests r (c :: s) = []) :
    removeAll r (c :: s) = c :: removeAll r s := by
  rw [removeAll, removeFrom, h]
  rfl

theorem removeAll_of_match {c : α} {s rest : List α} (h : (rests r (c :: s)).head? = some rest)
    (hrest : rest.length ≤ s.length) : removeAll r (c :: s) = removeAll r rest := by
  have hsuffix : rest <:+ s := by
    rcases List.suffix_cons_iff.mp (suffix_of_mem_rests (List.mem_of_mem_head? h)) with rfl | hs
    · rw [List.length_cons] at hrest
      omega
    · exact hs
  rw [removeAll, removeFrom, h]
  dsimp only
  rw [if_pos hrest, removeFrom_eq, ← List.suffix_iff_eq_drop.mp hsuffix]

theorem removeAll_append {u : List α} (h : ∀ c ∈ u, ∀ s, rests r (c :: s) = []) (s : List α) :
    removeAll r (u ++ s) = u ++ removeAll r s := by
  induction u with
  | nil => rfl
  | cons c u ih =>
    rw [List.cons_append, removeAll_of_no_match (h c (by simp) _), ih fun d hd => h d (by simp [hd]),
      List.cons_append]

end removeAll

end Regex
