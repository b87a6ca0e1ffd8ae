import Mathlib.Algebra.Order.Ring.Nat
import Mathlib.Data.List.TakeWhile
import Mathlib.Tactic

namespace Strtoul

def isSpace (c : UInt8) : Bool := c = 32 || (9 ≤ c && c ≤ 13)

def digitValue (c : UInt8) : Option ℕ :=
  if 48 ≤ c ∧ c ≤ 57 then some (c.toNat - 48)
  else if 97 ≤ c ∧ c ≤ 122 then some (c.toNat - 87)
  else if 65 ≤ c ∧ c ≤ 90 then some (c.toNat - 55)
  else none

def digit (base : ℕ) (c : UInt8) : Option ℕ := (digitValue c).filter (· < base)

def magnitude (base : ℕ) (digits : List UInt8) : ℕ :=
  digits.foldl (fun n c => base * n + (digit base c).getD 0) 0

def sign : List UInt8 → Bool × List UInt8
  | [] => (false, [])
  | c :: s => if c = 45 then (true, s) else if c = 43 then (false, s) else (false, c :: s)

/-- Base 16 allows `0x` before a digit. -/
def dropPrefix (base : ℕ) : List UInt8 → List UInt8
  | 48 :: x :: d :: s =>
    if base = 16 ∧ (x = 120 ∨ x = 88) ∧ (digit 16 d).isSome then d :: s else 48 :: x :: d :: s
  | s => s

def scan (base : ℕ) (s : List UInt8) : Option (Bool × ℕ) :=
  let (negative, s) := sign (s.dropWhile isSpace)
  let digits := (dropPrefix base s).takeWhile fun c => (digit base c).isSome
  if digits = [] then none else some (negative, magnitude base digits)

/-- `stoul` for an unsigned type of so many bits, `none` where it throws. -/
def stoul (bits base : ℕ) (s : List UInt8) : Option ℕ :=
  match scan base s with
  | some (negative, n) =>
    if n < 2 ^ bits then some (if negative then (2 ^ bits - n) % 2 ^ bits else n) else none
  | none => none

def decimal (n : ℕ) : List UInt8 := (Nat.toDigits 10 n).map Char.toUInt8

theorem digit_of_isDigit {c : Char} (h : c.isDigit) :
    digit 10 c.toUInt8 = some (c.toNat - 48) ∧ 48 ≤ c.toUInt8 ∧ c.toUInt8 ≤ 57 := by
  have hrange : 48 ≤ c.toNat ∧ c.toNat ≤ 57 := by
    simpa [Char.isDigit, UInt32.le_iff_toNat_le] using h
  have hnat : c.toUInt8.toNat = c.toNat := by
    have hlt : c.toNat < 256 := by omega
    exact Nat.mod_eq_of_lt hlt
  have hle : 48 ≤ c.toUInt8 ∧ c.toUInt8 ≤ 57 := by
    rw [UInt8.le_iff_toNat_le, UInt8.le_iff_toNat_le, hnat]
    exact hrange
  refine ⟨?_, hle⟩
  have hlt : c.toNat - 48 < 10 := by omega
  simp [digit, digitValue, hle, hnat, hlt]

theorem magnitude_decimal (n : ℕ) : magnitude 10 (decimal n) = n := by
  have hdigits : ∀ c ∈ Nat.toDigits 10 n, c.isDigit :=
    fun c hc => Nat.isDigit_of_mem_toDigits (by decide) (by decide) hc
  have hfold (digits : List Char) (h : ∀ c ∈ digits, c.isDigit) (m : ℕ) :
      (digits.map Char.toUInt8).foldl (fun n c => 10 * n + (digit 10 c).getD 0) m =
        Nat.ofDigitChars 10 digits m := by
    induction digits generalizing m with
    | nil => simp
    | cons c digits ih =>
      rw [List.map_cons, List.foldl_cons, ih fun d hd => h d (by simp [hd]),
        (digit_of_isDigit (h c (by simp))).1, Nat.ofDigitChars_cons]
      rfl
  rw [magnitude, decimal, hfold _ hdigits, Nat.ofDigitChars_ten_toDigits]

theorem exists_decimal (n : ℕ) : ∃ c s, decimal n = c :: s ∧ 48 ≤ c ∧ c ≤ 57 := by
  cases hdigits : Nat.toDigits 10 n with
  | nil => exact absurd hdigits Nat.toDigits_ne_nil
  | cons c digits =>
    have hc : c ∈ Nat.toDigits 10 n := hdigits ▸ List.mem_cons_self
    have hdigit : c.isDigit := Nat.isDigit_of_mem_toDigits (by decide) (by decide) hc
    exact ⟨_, _, by rw [decimal, hdigits, List.map_cons], (digit_of_isDigit hdigit).2⟩

theorem digit_of_mem_decimal {n : ℕ} {c : UInt8} (h : c ∈ decimal n) :
    (digit 10 c).isSome ∧ 48 ≤ c ∧ c ≤ 57 := by
  obtain ⟨d, hd, rfl⟩ := List.mem_map.mp h
  have hdigit := digit_of_isDigit (Nat.isDigit_of_mem_toDigits (by decide) (by decide) hd)
  exact ⟨by rw [hdigit.1]; rfl, hdigit.2⟩

theorem dropPrefix_ten (s : List UInt8) : dropPrefix 10 s = s := by
  unfold dropPrefix
  split <;> simp

theorem dropPrefix_of_length_le {base : ℕ} {s : List UInt8} (h : s.length ≤ 2) :
    dropPrefix base s = s := by
  unfold dropPrefix
  split
  · simp at h
  · rfl

theorem digit_lt {base d : ℕ} {c : UInt8} (h : digit base c = some d) : d < base := by
  simpa using (Option.filter_eq_some_iff.mp h).2

theorem magnitude_lt {base : ℕ} (hbase : 0 < base) {digits : List UInt8}
    (h : digits.length ≤ 1) : magnitude base digits < base := by
  match digits with
  | [] => exact hbase
  | [c] =>
    cases hc : digit base c with
    | none => simpa [magnitude, hc] using hbase
    | some d => simpa [magnitude, hc] using digit_lt hc
  | _ :: _ :: _ => simp at h

theorem length_sign_le (s : List UInt8) : (sign s).2.length ≤ s.length := by
  unfold sign
  split
  · rfl
  · split_ifs <;> simp

theorem ten_le_of_digit {base d : ℕ} {c : UInt8} (hc : ¬(48 ≤ c ∧ c ≤ 57))
    (h : digit base c = some d) : 10 ≤ d := by
  have hd := (Option.filter_eq_some_iff.mp h).1
  rw [digitValue, if_neg hc] at hd
  split_ifs at hd with hlower hupper
  · have hle := UInt8.le_iff_toNat_le.mp hlower.1
    simp only [UInt8.reduceToNat, Option.some.injEq] at hle hd
    omega
  · have hle := UInt8.le_iff_toNat_le.mp hupper.1
    simp only [UInt8.reduceToNat, Option.some.injEq] at hle hd
    omega

theorem scan_lt {base n : ℕ} {negative : Bool} {s : List UInt8} (hbase : 0 < base)
    (hlen : (sign (s.dropWhile isSpace)).2.length ≤ 1) (h : scan base s = some (negative, n)) :
    n < base := by
  simp only [scan, dropPrefix_of_length_le (Nat.le_succ_of_le hlen),
    Option.ite_none_left_eq_some, Option.some.injEq, Prod.mk.injEq] at h
  rw [← h.2.2]
  exact magnitude_lt hbase ((List.takeWhile_sublist _).length_le.trans hlen)

theorem stoul_decimal {bits n : ℕ} (h : n < 2 ^ bits) {s : List UInt8}
    (hs : ∀ c ∈ s.head?, digit 10 c = none) : stoul bits 10 (decimal n ++ s) = some n := by
  obtain ⟨c, digits, hcons, hle, hle'⟩ := exists_decimal n
  have hspace : isSpace c = false := by
    simp only [isSpace, UInt8.le_iff_toNat_le, ← UInt8.toNat_inj, Bool.or_eq_false_iff,
      decide_eq_false_iff_not, Bool.and_eq_false_iff] at hle hle' ⊢
    simp only [UInt8.reduceToNat] at hle hle' ⊢
    omega
  have hsign : sign (decimal n ++ s) = (false, decimal n ++ s) := by
    have hminus : c ≠ 45 := by rintro rfl; exact absurd hle (by decide)
    have hplus : c ≠ 43 := by rintro rfl; exact absurd hle (by decide)
    rw [hcons, List.cons_append, sign, if_neg hminus, if_neg hplus]
  have hdrop : (decimal n ++ s).dropWhile isSpace = decimal n ++ s := by
    rw [hcons, List.cons_append, List.dropWhile_cons_of_neg (by simp [hspace])]
  have htake : (decimal n ++ s).takeWhile (fun c => (digit 10 c).isSome) = decimal n := by
    rw [List.takeWhile_append_of_pos fun c hc => (digit_of_mem_decimal hc).1]
    cases s with
    | nil => simp
    | cons d s => simp [hs d rfl]
  have hne : decimal n ≠ [] := by simp [hcons]
  simp only [stoul, scan, hdrop, hsign, dropPrefix_ten, htake, hne, if_false, magnitude_decimal,
    h, if_true, Bool.false_eq_true]

end Strtoul
