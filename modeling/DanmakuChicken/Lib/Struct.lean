import DanmakuChicken.Lib.Footprint
import Mathlib.Data.List.Forall2

namespace Struct

def encode : ℕ → ℕ → List UInt8
  | 0, _ => []
  | width + 1, n => encode width (n / 256) ++ [UInt8.ofNat n]

def decode (bytes : List UInt8) : ℕ := bytes.foldl (fun n b => n * 256 + b.toNat) 0

@[simp] theorem length_encode (width n : ℕ) : (encode width n).length = width := by
  induction width generalizing n with
  | zero => rfl
  | succ width ih => simp [encode, ih]

theorem decode_concat (bytes : List UInt8) (b : UInt8) :
    decode (bytes ++ [b]) = decode bytes * 256 + b.toNat := by simp [decode]

theorem decode_eq_zero_iff {bytes : List UInt8} : decode bytes = 0 ↔ ∀ b ∈ bytes, b = 0 := by
  induction bytes using List.reverseRecOn with
  | nil => simp [decode]
  | append_singleton bytes b ih =>
    have hmul : decode bytes * 256 = 0 ↔ decode bytes = 0 := by omega
    have hb : b.toNat = 0 ↔ b = 0 := UInt8.toNat_inj (b := 0)
    rw [decode_concat, List.forall_mem_append, List.forall_mem_singleton, ← ih, Nat.add_eq_zero_iff,
      hmul, hb]

theorem looksAt_decode {n k : ℕ} (h : k < n) : Footprint.LooksAt decode n k := by
  refine ⟨List.replicate n 0, List.length_replicate, 1, ?_⟩
  have hzero : decode (List.replicate n 0) = 0 :=
    decode_eq_zero_iff.mpr fun b hb => List.eq_of_mem_replicate hb
  rw [hzero, Ne, decode_eq_zero_iff]
  intro hall
  have hone := hall 1 (List.mem_set (by simpa using h) 1)
  cases hone

theorem decode_encode {width n : ℕ} (h : n < 256 ^ width) : decode (encode width n) = n := by
  induction width generalizing n with
  | zero =>
    simp only [pow_zero, Nat.lt_one_iff] at h
    simp [encode, decode, h]
  | succ width ih =>
    have hdiv : n / 256 < 256 ^ width := by
      rw [Nat.div_lt_iff_lt_mul (by norm_num), ← pow_succ]
      exact h
    rw [encode, decode_concat, ih hdiv, UInt8.toNat_ofNat']
    exact Nat.div_add_mod' n 256

def size (format : List ℕ) : ℕ := format.sum

def InRange (format fields : List ℕ) : Prop :=
  List.Forall₂ (fun width n => n < 256 ^ width) format fields

instance (format fields : List ℕ) : Decidable (InRange format fields) := by
  unfold InRange; infer_instance

def pack : List ℕ → List ℕ → List UInt8
  | width :: format, n :: fields => encode width n ++ pack format fields
  | _, _ => []

def unpack : List ℕ → List UInt8 → List ℕ
  | [], _ => []
  | width :: format, bytes => decode (bytes.take width) :: unpack format (bytes.drop width)

theorem length_pack {format fields : List ℕ} (h : InRange format fields) :
    (pack format fields).length = size format := by
  induction h with
  | nil => rfl
  | cons _ _ ih =>
    simp only [pack, List.length_append, length_encode, ih]
    rfl

theorem unpack_pack {format fields : List ℕ} (h : InRange format fields) (rest : List UInt8) :
    unpack format (pack format fields ++ rest) = fields := by
  induction h with
  | nil => rfl
  | @cons width n format fields hn _ ih =>
    have htake : (encode width n ++ (pack format fields ++ rest)).take width = encode width n :=
      List.take_left' (length_encode width n)
    have hdrop : (encode width n ++ (pack format fields ++ rest)).drop width =
        pack format fields ++ rest := List.drop_left' (length_encode width n)
    rw [pack, List.append_assoc, unpack, htake, hdrop, decode_encode hn, ih]

end Struct
