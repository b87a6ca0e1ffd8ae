import DanmakuChicken.Lib.Strtoul
import DanmakuChicken.Lib.Utf8

namespace DanmakuChicken.SimpleWeb

abbrev Str := List UInt8

abbrev literal (s : String) : Str := Utf8.encode s

def substr (s : Str) (pos n : ℕ) : Str := (s.drop pos).take n

theorem substr_eq (init s rest : Str) {n : ℕ} (hn : n = s.length) :
    substr (init ++ s ++ rest) init.length n = s := by
  rw [substr, List.append_assoc, List.drop_left, hn, List.take_left]

theorem substr_of_eq {line s : Str} {pos n : ℕ} (init rest : Str) (h : line = init ++ s ++ rest)
    (hpos : pos = init.length) (hn : n = s.length) : substr line pos n = s := by
  rw [h, hpos, substr_eq init s rest hn]

theorem drop_append_cons (init : Str) (c : UInt8) (rest : Str) :
    (init ++ c :: rest).drop (init.length + 1) = rest := by
  rw [List.append_cons]
  exact List.drop_left' (by simp)

/-- `tolower` in the "C" locale.  A byte from 128 on, which the source hands to it as a negative
`char`, is left alone here; the language leaves that call undefined. -/
def tolower (c : UInt8) : UInt8 := if 65 ≤ c ∧ c ≤ 90 then c + 32 else c

def caseInsensitiveEqual (str1 str2 : Str) : Bool :=
  str1.length = str2.length && (str1.zip str2).all fun (a, b) => tolower a = tolower b

theorem caseInsensitiveEqual_iff {str1 str2 : Str} :
    caseInsensitiveEqual str1 str2 ↔ str1.map tolower = str2.map tolower := by
  induction str1 generalizing str2 with
  | nil => cases str2 <;> simp [caseInsensitiveEqual]
  | cons a str1 ih =>
    cases str2 with
    | nil => simp [caseInsensitiveEqual]
    | cons b str2 =>
      simp only [List.map_cons, List.cons.injEq, ← ih]
      simp only [caseInsensitiveEqual, List.length_cons, List.zip_cons_cons, List.all_cons,
        Bool.and_eq_true, decide_eq_true_eq, add_left_inj]
      tauto

/-- `CaseInsensitiveMultimap`, in the order of an iteration. -/
abbrev CaseInsensitiveMultimap := List (Str × Str)

namespace CaseInsensitiveMultimap

def find (fields : CaseInsensitiveMultimap) (name : Str) : Option Str :=
  (List.find? (fun field => caseInsensitiveEqual field.1 name) fields).map Prod.snd

def equalRange (fields : CaseInsensitiveMultimap) (name : Str) : List Str :=
  (List.filter (fun field => caseInsensitiveEqual field.1 name) fields).map Prod.snd

end CaseInsensitiveMultimap

namespace Percent

def hexChars : Str := literal "0123456789ABCDEF"

def hexChar (n : UInt8) : UInt8 := hexChars.getD n.toNat 0

def isReserved (chr : UInt8) : Bool :=
  chr = '!'.toUInt8 || chr = '#'.toUInt8 || chr = '$'.toUInt8 ||
    ('&'.toUInt8 ≤ chr && chr ≤ ','.toUInt8) || ('/'.toUInt8 ≤ chr && chr ≤ ';'.toUInt8) ||
    chr = '='.toUInt8 || chr = '?'.toUInt8 || chr = '@'.toUInt8 || chr = '['.toUInt8 ||
    chr = ']'.toUInt8

def encodeChar (chr : UInt8) : Str :=
  if chr = ' '.toUInt8 then ['+'.toUInt8]
  else if isReserved chr then ['%'.toUInt8, hexChar (chr >>> 4), hexChar (chr &&& 15)]
  else [chr]

def encode (value : Str) : Str := value.flatMap encodeChar

/-- `static_cast<char>(std::strtol(hex.c_str(), nullptr, 16))` -/
def decodeHex (hex : Str) : UInt8 :=
  match Strtoul.scan 16 hex with
  | some (true, n) => -UInt8.ofNat n
  | some (false, n) => UInt8.ofNat n
  | none => 0

def decode : Str → Str
  | chr :: a :: b :: value =>
    if chr = '%'.toUInt8 then decodeHex [a, b] :: decode value
    else if chr = '+'.toUInt8 then ' '.toUInt8 :: decode (a :: b :: value)
    else chr :: decode (a :: b :: value)
  | chr :: value =>
    if chr = '+'.toUInt8 then ' '.toUInt8 :: decode value else chr :: decode value
  | [] => []

theorem decode_plain {chr : UInt8} (h : chr ≠ '%'.toUInt8) (value : Str) :
    decode (chr :: value) =
      (if chr = '+'.toUInt8 then ' '.toUInt8 else chr) :: decode value := by
  match value with
  | [] | [_] =>
    rw [decode]
    · split_ifs <;> rfl
    · simp
  | a :: b :: value =>
    rw [decode, if_neg h]
    split_ifs <;> rfl

theorem decode_percent (a b : UInt8) (value : Str) :
    decode ('%'.toUInt8 :: a :: b :: value) = decodeHex [a, b] :: decode value := by
  rw [decode, if_pos rfl]

theorem decode_percent_of_short {value : Str} (h : value.length ≤ 1) :
    decode ('%'.toUInt8 :: value) = '%'.toUInt8 :: decode value := by
  have hplus : '%'.toUInt8 ≠ '+'.toUInt8 := by decide
  match value with
  | [] | [_] =>
    rw [decode]
    · rw [if_neg hplus]
    · simp
  | _ :: _ :: _ => simp at h

theorem decodeHex_hexChar {chr : UInt8} (h : isReserved chr) :
    decodeHex [hexChar (chr >>> 4), hexChar (chr &&& 15)] = chr := by
  have hall : ∀ n < 256, isReserved (UInt8.ofNat n) →
      decodeHex [hexChar (UInt8.ofNat n >>> 4), hexChar (UInt8.ofNat n &&& 15)] =
        UInt8.ofNat n := by decide +kernel
  simpa using hall chr.toNat chr.toNat_lt (by simpa using h)

theorem decodeHex_ne_percent {a : UInt8} (ha : ¬(48 ≤ a ∧ a ≤ 57)) (b : UInt8) :
    decodeHex [a, b] ≠ '%'.toUInt8 := by
  have hsmall : ∀ n < 16, UInt8.ofNat n ≠ '%'.toUInt8 ∧ -UInt8.ofNat n ≠ '%'.toUInt8 := by
    decide
  have hlarge : ∀ d < 16, ∀ e < 16, 10 ≤ d → UInt8.ofNat (16 * d + e) ≠ '%'.toUInt8 := by
    decide +kernel
  have hone (hlen : (Strtoul.sign ([a, b].dropWhile Strtoul.isSpace)).2.length ≤ 1) :
      decodeHex [a, b] ≠ '%'.toUInt8 := by
    cases hscan : Strtoul.scan 16 [a, b] with
    | none => simp only [decodeHex, hscan]; decide
    | some result =>
      obtain ⟨_ | _, n⟩ := result
      · simpa only [decodeHex, hscan] using (hsmall n (Strtoul.scan_lt (by decide) hlen hscan)).1
      · simpa only [decodeHex, hscan] using (hsmall n (Strtoul.scan_lt (by decide) hlen hscan)).2
  by_cases hspace : Strtoul.isSpace a
  · apply hone
    rw [List.dropWhile_cons_of_pos hspace]
    exact (Strtoul.length_sign_le _).trans (List.dropWhile_sublist _).length_le
  by_cases hsigned : a = 45 ∨ a = 43
  · apply hone
    obtain rfl | rfl := hsigned <;> simp [Strtoul.sign, Strtoul.isSpace]
  have hsign : Strtoul.sign ([a, b].dropWhile Strtoul.isSpace) = (false, [a, b]) := by
    rw [not_or] at hsigned
    rw [List.dropWhile_cons_of_neg hspace, Strtoul.sign, if_neg hsigned.1, if_neg hsigned.2]
  have hdrop : Strtoul.dropPrefix 16 [a, b] = [a, b] :=
    Strtoul.dropPrefix_of_length_le (by simp)
  simp only [decodeHex, Strtoul.scan, hsign, hdrop]
  cases hd : Strtoul.digit 16 a with
  | none => simp [hd]; decide
  | some d =>
    have hten : 10 ≤ d := Strtoul.ten_le_of_digit ha hd
    cases he : Strtoul.digit 16 b with
    | none => simpa [hd, he, Strtoul.magnitude] using (hsmall d (Strtoul.digit_lt hd)).1
    | some e =>
      simpa [hd, he, Strtoul.magnitude] using
        hlarge d (Strtoul.digit_lt hd) e (Strtoul.digit_lt he) hten

theorem not_digit_of_encode {value rest : Str} {a : UInt8} (h : encode value = a :: rest) :
    ¬(48 ≤ a ∧ a ≤ 57) := by
  cases value with
  | nil => simp [encode] at h
  | cons chr value =>
    rw [encode, List.flatMap_cons, encodeChar] at h
    split_ifs at h with hspace hreserved
    · obtain ⟨rfl, -⟩ := List.cons.inj h
      decide
    · obtain ⟨rfl, -⟩ := List.cons.inj h
      decide
    · obtain ⟨rfl, -⟩ := List.cons.inj h
      rintro ⟨hle, hle'⟩
      apply hreserved
      have hlow : '/'.toUInt8 ≤ chr := UInt8.le_trans (by decide) hle
      have hhigh : chr ≤ ';'.toUInt8 := UInt8.le_trans hle' (by decide)
      simp [isReserved, hlow, hhigh]

@[simp] theorem encode_cons (chr : UInt8) (value : Str) :
    encode (chr :: value) = encodeChar chr ++ encode value := by simp [encode]

theorem encode_eq_nil {value : Str} : encode value = [] ↔ value = [] := by
  cases value with
  | nil => simp [encode]
  | cons chr value =>
    rw [encode_cons, encodeChar]
    split_ifs <;> simp

theorem mem_encode {value : Str} {chr : UInt8} (h : chr ∈ encode value) :
    chr ∈ '+'.toUInt8 :: '%'.toUInt8 :: hexChars ∨ chr ∈ value ∧ isReserved chr = false := by
  have hall : ∀ n < 256, isReserved (UInt8.ofNat n) → ∀ c ∈ encodeChar (UInt8.ofNat n),
      c ∈ '+'.toUInt8 :: '%'.toUInt8 :: hexChars := by decide +kernel
  obtain ⟨d, hd, hchr⟩ := List.mem_flatMap.mp h
  by_cases hreserved : isReserved d
  · left
    exact hall d.toNat d.toNat_lt (by simpa using hreserved) chr (by simpa using hchr)
  · rw [encodeChar, if_neg hreserved] at hchr
    split_ifs at hchr
    · obtain rfl := List.mem_singleton.mp hchr
      exact .inl List.mem_cons_self
    · obtain rfl := List.mem_singleton.mp hchr
      exact .inr ⟨hd, by simpa using hreserved⟩

theorem not_mem_encode {value : Str} {chr : UInt8}
    (h : chr ∉ '+'.toUInt8 :: '%'.toUInt8 :: hexChars) (h' : chr ∉ value ∨ isReserved chr) :
    chr ∉ encode value := by
  intro hmem
  obtain hwritten | ⟨hvalue, hreserved⟩ := mem_encode hmem
  · exact h hwritten
  · simp [hvalue, hreserved] at h'

theorem decode_encodeChar {chr : UInt8} (h : chr ≠ '%'.toUInt8) (value : Str) :
    decode (encodeChar chr ++ value) = chr :: decode value := by
  rw [encodeChar]
  split_ifs with hspace hreserved
  · rw [List.singleton_append, decode_plain (by decide), if_pos rfl, hspace]
  · simp only [List.cons_append, List.nil_append, decode_percent, decodeHex_hexChar hreserved]
  · have hplus : chr ≠ '+'.toUInt8 := by
      rintro rfl
      exact hreserved (by decide)
    rw [List.singleton_append, decode_plain h, if_neg hplus]

theorem decode_encode_iff (value : Str) :
    decode (encode value) = value ↔
      ∀ init rest, value = init ++ '%'.toUInt8 :: rest → (encode rest).length ≤ 1 := by
  induction value with
  | nil => simp [encode, decode]
  | cons chr value ih =>
    by_cases hchr : chr = '%'.toUInt8
    · subst hchr
      have hchar : encodeChar '%'.toUInt8 = ['%'.toUInt8] := by decide
      rw [encode_cons, hchar, List.singleton_append]
      by_cases hshort : (encode value).length ≤ 1
      · rw [decode_percent_of_short hshort, List.cons_inj_right, ih]
        constructor
        · intro h init rest heq
          cases init with
          | nil =>
            obtain ⟨-, rfl⟩ := List.cons.inj heq
            exact hshort
          | cons c init =>
            obtain ⟨-, rfl⟩ := List.cons.inj heq
            exact h init rest rfl
        · rintro h init rest rfl
          exact h ('%'.toUInt8 :: init) rest rfl
      · constructor
        · intro h
          obtain ⟨a, b, rest, hencode⟩ : ∃ a b rest, encode value = a :: b :: rest := by
            match hencode : encode value with
            | [] | [_] => simp [hencode] at hshort
            | a :: b :: rest => exact ⟨a, b, rest, rfl⟩
          rw [hencode, decode_percent] at h
          exact absurd (List.cons.inj h).1 (decodeHex_ne_percent (not_digit_of_encode hencode) b)
        · intro h
          exact absurd (h [] value rfl) hshort
    · rw [encode_cons, decode_encodeChar hchr, List.cons_inj_right, ih]
      constructor
      · intro h init rest heq
        cases init with
        | nil => exact absurd (List.cons.inj heq).1 hchr
        | cons c init =>
          obtain ⟨-, rfl⟩ := List.cons.inj heq
          exact h init rest rfl
      · rintro h init rest rfl
        exact h (chr :: init) rest rfl

end Percent

end DanmakuChicken.SimpleWeb
