import Mathlib.Data.List.Basic
import Mathlib.Tactic.Common

namespace Utf8

def encode (s : String) : List UInt8 := s.toByteArray.data.toList

def decode (bytes : List UInt8) : Option String :=
  (ByteArray.mk bytes.toArray).utf8Decode?.map fun chars => String.ofList chars.toList

@[simp] theorem decode_encode (s : String) : decode (encode s) = some s := by
  simp only [decode, encode, Array.toArray_toList]
  rw [← String.utf8Encode_toList, List.utf8Decode?_utf8Encode]
  simp

theorem encode_append (s t : String) : encode (s ++ t) = encode s ++ encode t := by simp [encode]

theorem encode_ofList {cs : List Char} (h : ∀ c ∈ cs, c.utf8Size = 1) :
    encode (String.ofList cs) = cs.map Char.toUInt8 := by
  rw [encode, String.toByteArray_ofList]
  induction cs with
  | nil => rfl
  | cons c cs ih =>
    rw [List.utf8Encode_cons, List.utf8Encode_singleton,
      String.utf8EncodeChar_eq_singleton (h c (by simp))]
    simpa using ih fun d hd => h d (by simp [hd])

theorem isValidUTF8_of_decode {bytes : List UInt8} {s : String} (h : decode bytes = some s) :
    (ByteArray.mk bytes.toArray).IsValidUTF8 := by
  rw [← ByteArray.isSome_utf8Decode?_iff]
  simp only [decode, Option.map_eq_some_iff] at h
  obtain ⟨chars, hchars, -⟩ := h
  rw [hchars]
  rfl

theorem isValidUTF8_utf8Encode_append_iff {cs : List Char} {b : ByteArray} :
    (cs.utf8Encode ++ b).IsValidUTF8 ↔ b.IsValidUTF8 := by
  induction cs with
  | nil => simp
  | cons c cs ih =>
    rw [List.utf8Encode_cons, ByteArray.append_assoc,
      ByteArray.isValidUTF8_utf8Encode_singleton_append_iff, ih]

theorem decode_encode_append_eq_none (s : String) {b : UInt8} (hb : ¬b.IsUTF8FirstByte)
    (rest : List UInt8) : decode (encode s ++ b :: rest) = none := by
  cases h : decode (encode s ++ b :: rest) with
  | none => rfl
  | some t =>
    have hbytes : ByteArray.mk (encode s ++ b :: rest).toArray =
        s.toList.utf8Encode ++ ByteArray.mk (b :: rest).toArray := by
      ext1
      simp [encode]
    have hvalid := isValidUTF8_of_decode h
    rw [hbytes, isValidUTF8_utf8Encode_append_iff] at hvalid
    exact absurd (hvalid.isUTF8FirstByte_getElem_zero (by simp [ByteArray.size])) hb

end Utf8

namespace Utf16

def encodeChar (c : Char) : List UInt16 :=
  if c.toNat < 0x10000 then [UInt16.ofNat c.toNat]
  else [UInt16.ofNat (0xD800 + (c.toNat - 0x10000) / 0x400),
    UInt16.ofNat (0xDC00 + (c.toNat - 0x10000) % 0x400)]

def encode (s : String) : List UInt16 := s.toList.flatMap encodeChar

def decodeChars : List UInt16 → Option (List Char)
  | [] => some []
  | u :: rest =>
    if u.toNat < 0xD800 ∨ 0xE000 ≤ u.toNat then
      (decodeChars rest).map (Char.ofNat u.toNat :: ·)
    else
      match rest with
      | [] => none
      | v :: rest =>
        if u.toNat < 0xDC00 ∧ 0xDC00 ≤ v.toNat ∧ v.toNat < 0xE000 then
          (decodeChars rest).map
            (Char.ofNat (0x10000 + (u.toNat - 0xD800) * 0x400 + (v.toNat - 0xDC00)) :: ·)
        else none

def decode (units : List UInt16) : Option String := (decodeChars units).map String.ofList

theorem toNat_valid (c : Char) : c.toNat < 0xD800 ∨ 0xE000 ≤ c.toNat ∧ c.toNat < 0x110000 := by
  rcases c.valid with h | ⟨h, h'⟩
  · exact .inl h
  · exact .inr ⟨h, h'⟩

theorem encodeChar_cases (c : Char) :
    (∃ u, encodeChar c = [u] ∧ u.toNat = c.toNat) ∨
      ∃ u v, encodeChar c = [u, v] ∧ 0x10000 ≤ c.toNat ∧
        u.toNat = 0xD800 + (c.toNat - 0x10000) / 0x400 ∧
        v.toNat = 0xDC00 + (c.toNat - 0x10000) % 0x400 := by
  have hvalid := toNat_valid c
  unfold encodeChar
  split_ifs with hlt
  · exact .inl ⟨_, rfl, UInt16.toNat_ofNat_of_lt' hlt⟩
  · refine .inr ⟨_, _, rfl, by omega, ?_, ?_⟩
    · apply UInt16.toNat_ofNat_of_lt'
      simp only [UInt16.size]
      omega
    · apply UInt16.toNat_ofNat_of_lt'
      simp only [UInt16.size]
      omega

theorem decodeChars_encodeChar (c : Char) (rest : List UInt16) :
    decodeChars (encodeChar c ++ rest) = (decodeChars rest).map (c :: ·) := by
  have hvalid := toNat_valid c
  obtain ⟨u, hc, hu⟩ | ⟨u, v, hc, hlarge, hu, hv⟩ := encodeChar_cases c
  · rw [hc, List.singleton_append, decodeChars.eq_def]
    dsimp only
    rw [hu, if_pos (by omega), Char.ofNat_toNat]
  · have hpair : 0x10000 + (u.toNat - 0xD800) * 0x400 + (v.toNat - 0xDC00) = c.toNat := by omega
    rw [hc, List.cons_append, List.singleton_append, decodeChars.eq_def]
    dsimp only
    rw [if_neg (by omega), if_pos (by omega), hpair, Char.ofNat_toNat]

@[simp] theorem decode_encode (s : String) : decode (encode s) = some s := by
  have hchars (chars : List Char) : decodeChars (chars.flatMap encodeChar) = some chars := by
    induction chars with
    | nil => rfl
    | cons c chars ih => rw [List.flatMap_cons, decodeChars_encodeChar, ih, Option.map_some]
  rw [decode, encode, hchars, Option.map_some, String.ofList_toList]

end Utf16
