import DanmakuChicken.Lib.Utf8
import Mathlib.Data.Nat.Digits.Defs

namespace JsonString

def hex4 (n : ℕ) : List Char :=
  [Nat.digitChar (n / 4096 % 16), Nat.digitChar (n / 256 % 16), Nat.digitChar (n / 16 % 16),
    Nat.digitChar (n % 16)]

def escapeUnit (u : UInt16) : List Char := '\\' :: 'u' :: hex4 u.toNat

def shortEscape (c : Char) : Option Char :=
  if c = '"' then some '"'
  else if c = '\\' then some '\\'
  else if c = '\n' then some 'n'
  else if c = '\r' then some 'r'
  else if c = '\t' then some 't'
  else if c = '\x0c' then some 'f'
  else if c = '\x08' then some 'b'
  else none

def escapeChar (c : Char) : List Char :=
  match shortEscape c with
  | some e => ['\\', e]
  | none => if ' ' ≤ c ∧ c ≤ '~' then [c] else (Utf16.encodeChar c).flatMap escapeUnit

def quote (s : String) : List Char := '"' :: (s.toList.flatMap escapeChar ++ ['"'])

def hexValue (c : Char) : Option ℕ :=
  if '0' ≤ c ∧ c ≤ '9' then some (c.toNat - '0'.toNat)
  else if 'a' ≤ c ∧ c ≤ 'f' then some (c.toNat - 'a'.toNat + 10)
  else if 'A' ≤ c ∧ c ≤ 'F' then some (c.toNat - 'A'.toNat + 10)
  else none

def hexUnit (a b c d : Char) : Option UInt16 := do
  let a ← hexValue a
  let b ← hexValue b
  let c ← hexValue c
  let d ← hexValue d
  return UInt16.ofNat (((a * 16 + b) * 16 + c) * 16 + d)

def shortUnit (e : Char) : Option UInt16 :=
  if e = '"' then some 0x22
  else if e = '\\' then some 0x5C
  else if e = '/' then some 0x2F
  else if e = 'n' then some 0x0A
  else if e = 'r' then some 0x0D
  else if e = 't' then some 0x09
  else if e = 'f' then some 0x0C
  else if e = 'b' then some 0x08
  else none

def units : List Char → Option (List UInt16)
  | [] => none
  | c :: rest =>
    if c = '"' then
      if rest = [] then some [] else none
    else if c = '\\' then
      match rest with
      | [] => none
      | e :: rest =>
        if e = 'u' then
          match rest with
          | a :: b :: c :: d :: rest => do return (← hexUnit a b c d) :: (← units rest)
          | _ => none
        else do return (← shortUnit e) :: (← units rest)
    else if c < ' ' then none
    else do return Utf16.encodeChar c ++ (← units rest)

def unquote : List Char → Option String
  | '"' :: rest => (units rest).bind Utf16.decode
  | _ => none

theorem hexValue_digitChar (n : ℕ) : hexValue (Nat.digitChar (n % 16)) = some (n % 16) := by
  have hall : ∀ m < 16, hexValue (Nat.digitChar m) = some m := by decide
  exact hall _ (Nat.mod_lt _ (by decide))

theorem hexUnit_hex4 (u : UInt16) :
    hexUnit (Nat.digitChar (u.toNat / 4096 % 16)) (Nat.digitChar (u.toNat / 256 % 16))
      (Nat.digitChar (u.toNat / 16 % 16)) (Nat.digitChar (u.toNat % 16)) = some u := by
  have hlt := u.toNat_lt
  have hvalue : ((u.toNat / 4096 % 16 * 16 + u.toNat / 256 % 16) * 16 + u.toNat / 16 % 16) * 16 +
      u.toNat % 16 = u.toNat := by omega
  simp only [hexUnit, hexValue_digitChar, Option.bind_eq_bind, Option.bind_some, hvalue,
    UInt16.ofNat_toNat]
  rfl

theorem units_escapeUnit (u : UInt16) (rest : List Char) :
    units (escapeUnit u ++ rest) = (units rest).map (u :: ·) := by
  rw [escapeUnit, hex4, units.eq_def]
  simp only [List.cons_append, List.nil_append]
  rw [if_neg (by decide), if_pos trivial, if_pos trivial, hexUnit_hex4]
  cases units rest <;> rfl

theorem units_flatMap_escapeUnit (us : List UInt16) (rest : List Char) :
    units (us.flatMap escapeUnit ++ rest) = (units rest).map (us ++ ·) := by
  induction us with
  | nil => simp
  | cons u us ih =>
    rw [List.flatMap_cons, List.append_assoc, units_escapeUnit, ih, Option.map_map]
    rfl

theorem units_shortEscape {e : Char} {u : UInt16} (h : shortUnit e = some u) (he : e ≠ 'u')
    (rest : List Char) : units ('\\' :: e :: rest) = (units rest).map (u :: ·) := by
  rw [units.eq_def]
  dsimp only
  rw [if_neg (by decide), if_pos rfl, if_neg he, h]
  cases units rest <;> rfl

theorem shortEscape_eq_some {c e : Char} (h : shortEscape c = some e) :
    ∃ u, Utf16.encodeChar c = [u] ∧ shortUnit e = some u ∧ e ≠ 'u' := by
  unfold shortEscape at h
  split_ifs at h with h₁ h₂ h₃ h₄ h₅ h₆ h₇
  all_goals
    cases h
    subst c
    exact ⟨_, rfl, rfl, by decide⟩

theorem shortEscape_eq_none {c : Char} (h : shortEscape c = none) : c ≠ '"' ∧ c ≠ '\\' := by
  constructor
  · rintro rfl
    cases h
  · rintro rfl
    cases h

theorem units_escapeChar (c : Char) (rest : List Char) :
    units (escapeChar c ++ rest) = (units rest).map (Utf16.encodeChar c ++ ·) := by
  unfold escapeChar
  cases h : shortEscape c with
  | some e =>
    obtain ⟨u, hunit, hshort, he⟩ := shortEscape_eq_some h
    rw [hunit]
    exact units_shortEscape hshort he rest
  | none =>
    dsimp only
    split_ifs with hplain
    · obtain ⟨hquote, hbackslash⟩ := shortEscape_eq_none h
      rw [List.singleton_append, units.eq_def]
      dsimp only
      rw [if_neg hquote, if_neg hbackslash, if_neg (Char.not_lt.mpr hplain.1)]
      cases units rest <;> rfl
    · exact units_flatMap_escapeUnit _ _

theorem unquote_quote (s : String) : unquote (quote s) = some s := by
  have hunits (chars : List Char) :
      units (chars.flatMap escapeChar ++ ['"']) = some (chars.flatMap Utf16.encodeChar) := by
    induction chars with
    | nil => rfl
    | cons c chars ih =>
      rw [List.flatMap_cons, List.append_assoc, units_escapeChar, ih, Option.map_some,
        List.flatMap_cons]
  rw [quote, unquote, hunits, Option.bind_some]
  exact Utf16.decode_encode s

end JsonString
