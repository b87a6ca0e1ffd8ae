import Mathlib.Data.List.Basic
import Mathlib.Tactic

namespace Base64

def digit (n : ℕ) : Char :=
  if n < 26 then Char.ofNat ('A'.toNat + n)
  else if n < 52 then Char.ofNat ('a'.toNat + (n - 26))
  else if n < 62 then Char.ofNat ('0'.toNat + (n - 52))
  else if n = 62 then '+'
  else '/'

def value (c : Char) : Option ℕ :=
  if 'A' ≤ c ∧ c ≤ 'Z' then some (c.toNat - 'A'.toNat)
  else if 'a' ≤ c ∧ c ≤ 'z' then some (c.toNat - 'a'.toNat + 26)
  else if '0' ≤ c ∧ c ≤ '9' then some (c.toNat - '0'.toNat + 52)
  else if c = '+' then some 62
  else if c = '/' then some 63
  else none

def encode : List UInt8 → List Char
  | [] => []
  | [a] => [digit (a.toNat / 4), digit (a.toNat % 4 * 16), '=', '=']
  | [a, b] =>
    [digit (a.toNat / 4), digit (a.toNat % 4 * 16 + b.toNat / 16), digit (b.toNat % 16 * 4), '=']
  | a :: b :: c :: rest =>
    digit (a.toNat / 4) :: digit (a.toNat % 4 * 16 + b.toNat / 16) ::
      digit (b.toNat % 16 * 4 + c.toNat / 64) :: digit (c.toNat % 64) :: encode rest

/-- The decoder at place `quad` of a group of four, with the bits that are left over from the
digit before and the number of pads since. -/
def decodeFrom (quad left pads : ℕ) : List Char → Option (List UInt8)
  | [] => if quad = 0 then some [] else none
  | c :: rest =>
    if c = '=' then
      if 2 ≤ quad then
        if 4 ≤ quad + (pads + 1) then some [] else decodeFrom quad left (pads + 1) rest
      else decodeFrom quad left pads rest
    else
      match value c with
      | none => decodeFrom quad left pads rest
      | some v =>
        match quad with
        | 0 => decodeFrom 1 v 0 rest
        | 1 => (decodeFrom 2 (v % 16) 0 rest).map (UInt8.ofNat (left * 4 + v / 16) :: ·)
        | 2 => (decodeFrom 3 (v % 4) 0 rest).map (UInt8.ofNat (left * 16 + v / 4) :: ·)
        | _ => (decodeFrom 0 0 0 rest).map (UInt8.ofNat (left * 64 + v) :: ·)

def decode (text : List Char) : Option (List UInt8) :=
  if text.all (·.toNat < 128) then decodeFrom 0 0 0 text else none

theorem digit_spec {n : ℕ} (h : n < 64) : value (digit n) = some n ∧ digit n ≠ '=' := by
  have hall : ∀ m < 64, value (digit m) = some m ∧ digit m ≠ '=' := by decide
  exact hall n h

theorem decodeFrom_digit {n : ℕ} (h : n < 64) (quad left pads : ℕ) (rest : List Char) :
    decodeFrom quad left pads (digit n :: rest) =
      match quad with
      | 0 => decodeFrom 1 n 0 rest
      | 1 => (decodeFrom 2 (n % 16) 0 rest).map (UInt8.ofNat (left * 4 + n / 16) :: ·)
      | 2 => (decodeFrom 3 (n % 4) 0 rest).map (UInt8.ofNat (left * 16 + n / 4) :: ·)
      | _ => (decodeFrom 0 0 0 rest).map (UInt8.ofNat (left * 64 + n) :: ·) := by
  rw [decodeFrom, if_neg (digit_spec h).2, (digit_spec h).1]

theorem decodeFrom_encode (bytes : List UInt8) : decodeFrom 0 0 0 (encode bytes) = some bytes := by
  induction bytes using encode.induct with
  | case1 => rfl
  | case2 a =>
    have ha := a.toNat_lt
    have hbyte : a.toNat / 4 * 4 + a.toNat % 4 * 16 / 16 = a.toNat := by omega
    simp (disch := omega) only [encode, decodeFrom_digit, hbyte, UInt8.ofNat_toNat]
    rfl
  | case3 a b =>
    have ha := a.toNat_lt
    have hb := b.toNat_lt
    have hbyte : a.toNat / 4 * 4 + (a.toNat % 4 * 16 + b.toNat / 16) / 16 = a.toNat := by omega
    have hbyte' : (a.toNat % 4 * 16 + b.toNat / 16) % 16 * 16 + b.toNat % 16 * 4 / 4 = b.toNat := by
      omega
    simp (disch := omega) only [encode, decodeFrom_digit, hbyte, hbyte', UInt8.ofNat_toNat]
    rfl
  | case4 a b c rest ih =>
    have ha := a.toNat_lt
    have hb := b.toNat_lt
    have hc := c.toNat_lt
    have hbyte : a.toNat / 4 * 4 + (a.toNat % 4 * 16 + b.toNat / 16) / 16 = a.toNat := by omega
    have hbyte' : (a.toNat % 4 * 16 + b.toNat / 16) % 16 * 16 +
        (b.toNat % 16 * 4 + c.toNat / 64) / 4 = b.toNat := by omega
    have hbyte'' : (b.toNat % 16 * 4 + c.toNat / 64) % 4 * 64 + c.toNat % 64 = c.toNat := by omega
    simp (disch := omega) only [encode, decodeFrom_digit, hbyte, hbyte', hbyte'',
      UInt8.ofNat_toNat, ih]
    rfl

def alphabet : List Char := '=' :: (List.range 64).map digit

theorem digit_mem_alphabet {n : ℕ} (h : n < 64) : digit n ∈ alphabet :=
  List.mem_cons_of_mem _ (List.mem_map_of_mem (List.mem_range.mpr h))

theorem mem_alphabet_of_mem_encode {bytes : List UInt8} {c : Char} (h : c ∈ encode bytes) :
    c ∈ alphabet := by
  have hpad : '=' ∈ alphabet := List.mem_cons_self
  induction bytes using encode.induct with
  | case1 => cases h
  | case2 a =>
    have ha := a.toNat_lt
    simp only [encode, List.mem_cons, List.not_mem_nil, or_false] at h
    rcases h with rfl | rfl | rfl | rfl
    · exact digit_mem_alphabet (by omega)
    · exact digit_mem_alphabet (by omega)
    · exact hpad
    · exact hpad
  | case3 a b =>
    have ha := a.toNat_lt
    have hb := b.toNat_lt
    simp only [encode, List.mem_cons, List.not_mem_nil, or_false] at h
    rcases h with rfl | rfl | rfl | rfl
    · exact digit_mem_alphabet (by omega)
    · exact digit_mem_alphabet (by omega)
    · exact digit_mem_alphabet (by omega)
    · exact hpad
  | case4 a b d rest ih =>
    have ha := a.toNat_lt
    have hb := b.toNat_lt
    have hd := d.toNat_lt
    simp only [encode, List.mem_cons] at h
    rcases h with rfl | rfl | rfl | rfl | h
    · exact digit_mem_alphabet (by omega)
    · exact digit_mem_alphabet (by omega)
    · exact digit_mem_alphabet (by omega)
    · exact digit_mem_alphabet (by omega)
    · exact ih h

@[simp] theorem decode_encode (bytes : List UInt8) : decode (encode bytes) = some bytes := by
  have hascii : alphabet.all (·.toNat < 128) = true := by decide
  have hall : (encode bytes).all (·.toNat < 128) = true := by
    apply List.all_eq_true.mpr
    exact fun c hc => List.all_eq_true.mp hascii c (mem_alphabet_of_mem_encode hc)
  rw [decode, if_pos hall, decodeFrom_encode]

theorem encode_eq_nil_iff {bytes : List UInt8} : encode bytes = [] ↔ bytes = [] := by
  constructor
  · intro h
    have hdecode := decode_encode bytes
    rw [h] at hdecode
    exact (Option.some.inj hdecode).symm
  · rintro rfl
    rfl

end Base64
