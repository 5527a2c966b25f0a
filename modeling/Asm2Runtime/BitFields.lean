import Mathlib.Data.BitVec

/-!
# Bit fields as numbers

Masks of low and of high bits as remainders and multiples, and disjoint fields joined by
an or as their sum.
-/

namespace Asm2Runtime.BitFields

variable {n : Nat}

/-- The bits of a mask and the others make up the word. -/
theorem toNat_and_not_add (x mask : BitVec n) :
    (x &&& ~~~mask).toNat + (x &&& mask).toNat = x.toNat := by
  have hdisjoint : (x &&& ~~~mask) &&& (x &&& mask) = 0#n := by
    ext i hi
    cases hx : x[i] <;> cases hm : mask[i] <;> simp [hx, hm]
  have hjoin : (x &&& ~~~mask) ||| (x &&& mask) = x := by
    ext i hi
    cases hx : x[i] <;> cases hm : mask[i] <;> simp [hx, hm]
  rw [← BitVec.toNat_add_of_and_eq_zero hdisjoint, BitVec.add_eq_or_of_and_eq_zero _ _ hdisjoint,
    hjoin]

/-- The low bits. -/
theorem toNat_and_low (x : BitVec n) {k : Nat} {mask : BitVec n} (hmask : mask.toNat = 2 ^ k - 1) :
    (x &&& mask).toNat = x.toNat % 2 ^ k := by
  rw [BitVec.toNat_and, hmask, Nat.and_two_pow_sub_one_eq_mod]

/-- The high bits. -/
theorem toNat_and_high (x : BitVec n) {k : Nat} {mask : BitVec n}
    (hmask : (~~~mask).toNat = 2 ^ k - 1) : (x &&& mask).toNat = x.toNat - x.toNat % 2 ^ k := by
  have hsum := toNat_and_not_add x (~~~mask)
  rw [BitVec.not_not, toNat_and_low x hmask] at hsum
  omega

/-- The high bits have a value in one block of numbers. -/
theorem and_high_eq_iff (x : BitVec n) {k : Nat} {mask value : BitVec n}
    (hmask : (~~~mask).toNat = 2 ^ k - 1) (hvalue : value.toNat % 2 ^ k = 0) :
    x &&& mask = value ↔ value.toNat ≤ x.toNat ∧ x.toNat < value.toNat + 2 ^ k := by
  rw [← BitVec.toNat_inj, toNat_and_high x hmask]
  have hx := Nat.div_add_mod x.toNat (2 ^ k)
  have hv := Nat.div_add_mod value.toNat (2 ^ k)
  have hlt := Nat.mod_lt x.toNat (Nat.two_pow_pos k)
  rw [hvalue, Nat.add_zero] at hv
  constructor
  · intro heq
    omega
  · intro hrange
    have hdiv : x.toNat / 2 ^ k = value.toNat / 2 ^ k := by
      refine Nat.div_eq_of_lt_le ?_ ?_
      · rw [Nat.mul_comm, hv]
        exact hrange.1
      · rw [Nat.add_mul, Nat.one_mul, Nat.mul_comm, hv]
        exact hrange.2
    rw [hdiv, hv] at hx
    omega

/-- A field above another one. -/
theorem shiftLeft_or {a b k : Nat} (hb : b < 2 ^ k) : a <<< k ||| b = a * 2 ^ k + b := by
  rw [← Nat.shiftLeft_add_eq_or_of_lt hb, Nat.shiftLeft_eq]

/-- A field joined to a number whose low bits are clear. -/
theorem or_eq_add {a b k : Nat} (ha : a % 2 ^ k = 0) (hb : b < 2 ^ k) : a ||| b = a + b := by
  have hsplit : a / 2 ^ k * 2 ^ k = a := Nat.div_mul_cancel (Nat.dvd_of_mod_eq_zero ha)
  rw [← hsplit, ← shiftLeft_or hb, Nat.shiftLeft_eq, hsplit]

end Asm2Runtime.BitFields
