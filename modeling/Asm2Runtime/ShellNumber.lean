import Mathlib.Data.BitVec

/-!
# Signed numbers of 64 bits

Comparisons of wrapping sums with small numbers, and the sum of shifted bytes as the
little-endian number.
-/

namespace Asm2Runtime.ShellNumber

abbrev Number := BitVec 64

section Comparisons

variable {x : Number} {n : Nat}

theorem toNat_ofNat_of_lt (h : n < 2 ^ 64) : (BitVec.ofNat 64 n).toNat = n := by
  rw [BitVec.toNat_ofNat]
  exact Nat.mod_eq_of_lt h

theorem toInt_ofNat_of_lt (h : n < 2 ^ 63) : (BitVec.ofNat 64 n).toInt = n := by
  rw [BitVec.toInt_eq_toNat_cond, toNat_ofNat_of_lt (by omega), if_pos (by omega)]

/-- A number is negative from 2^63 on. -/
theorem slt_zero_iff : x.slt 0 = true ↔ 2 ^ 63 ≤ x.toNat := by
  change x.slt 0#64 = true ↔ _
  rw [BitVec.slt_zero_eq_msb, BitVec.msb_eq_true_iff_two_mul_ge]
  omega

theorem ofNat_sle_iff (h : n < 2 ^ 63) :
    (BitVec.ofNat 64 n).sle x = true ↔ n ≤ x.toNat ∧ x.toNat < 2 ^ 63 := by
  have hlt := x.isLt
  rw [BitVec.sle_iff_toInt_le, toInt_ofNat_of_lt h, BitVec.toInt_eq_toNat_cond]
  split <;> omega

theorem ofNat_slt_iff (h : n < 2 ^ 63) :
    (BitVec.ofNat 64 n).slt x = true ↔ n < x.toNat ∧ x.toNat < 2 ^ 63 := by
  have hlt := x.isLt
  rw [BitVec.slt_iff_toInt_lt, toInt_ofNat_of_lt h, BitVec.toInt_eq_toNat_cond]
  split <;> omega

/-- A sum that wraps is less than every number. -/
theorem sle_ofNat_iff (h : n < 2 ^ 63) :
    x.sle (BitVec.ofNat 64 n) = true ↔ x.toNat ≤ n ∨ 2 ^ 63 ≤ x.toNat := by
  have hlt := x.isLt
  rw [BitVec.sle_iff_toInt_le, toInt_ofNat_of_lt h, BitVec.toInt_eq_toNat_cond]
  split <;> omega

end Comparisons

section Bytes

/-- The number of these bytes, the lowest first. -/
def littleEndian : List (BitVec 8) → Nat
  | [] => 0
  | b :: bytes => b.toNat + 2 ^ 8 * littleEndian bytes

theorem littleEndian_lt (bytes : List (BitVec 8)) : littleEndian bytes < 2 ^ (8 * bytes.length) := by
  induction bytes with
  | nil => exact Nat.one_pos
  | cons b bytes ih =>
    have hb := b.isLt
    rw [littleEndian, List.length_cons, Nat.mul_succ, Nat.pow_add]
    omega

/-- `bytes[index] << (8 * index)` -/
def shifted (b : BitVec 8 × Nat) : Number := (b.1.setWidth 64 : Number) <<< (8 * b.2)

/-- `bytes[0] + (bytes[1] << 8) + ...` -/
def shiftedSum (bytes : List (BitVec 8)) : Number := (bytes.zipIdx.map shifted).foldl (· + ·) 0

theorem shifted_eq (b : BitVec 8) (k : Nat) :
    shifted (b, k) = BitVec.ofNat 64 (2 ^ (8 * k) * b.toNat) := by
  apply BitVec.eq_of_toNat_eq
  unfold shifted
  rw [BitVec.toNat_shiftLeft, BitVec.toNat_setWidth_of_le (by decide), BitVec.toNat_ofNat,
    Nat.shiftLeft_eq, Nat.mul_comm]

theorem foldl_shifted (bytes : List (BitVec 8)) (k acc : Nat) :
    ((bytes.zipIdx k).map shifted).foldl (· + ·) (BitVec.ofNat 64 acc) =
      BitVec.ofNat 64 (acc + 2 ^ (8 * k) * littleEndian bytes) := by
  induction bytes generalizing k acc with
  | nil => rfl
  | cons b bytes ih =>
    have hnext : 2 ^ (8 * (k + 1)) * littleEndian bytes =
        2 ^ (8 * k) * (2 ^ 8 * littleEndian bytes) := by
      rw [Nat.mul_succ, Nat.pow_add, Nat.mul_assoc]
    rw [List.zipIdx_cons, List.map_cons, List.foldl_cons, shifted_eq, ← BitVec.ofNat_add, ih,
      hnext, littleEndian, Nat.mul_add, Nat.add_assoc]

theorem shiftedSum_eq (bytes : List (BitVec 8)) :
    shiftedSum bytes = BitVec.ofNat 64 (littleEndian bytes) := by
  have hsum := foldl_shifted bytes 0 0
  rw [Nat.mul_zero, Nat.pow_zero, Nat.one_mul, Nat.zero_add] at hsum
  exact hsum

end Bytes

end Asm2Runtime.ShellNumber
