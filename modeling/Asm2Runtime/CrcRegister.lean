import Mathlib.Algebra.Group.Nat.Defs
import Mathlib.Data.List.Basic
import Mathlib.Logic.Function.Iterate

/-!
# Reflected cyclic redundancy checks

A register of `w` bits, shifted towards its low end with a feedback word whose
highest bit is set. Feeding symbols of `n` bits is linear in exclusive or, and a
register that ends small was only shifted. So a window of at most `w` changed
bits changes the final register.
-/

namespace Asm2Runtime.CrcRegister

variable {w n : Nat} {poly : BitVec w}

def bit (poly : BitVec w) (x : BitVec w) : BitVec w :=
  (x >>> 1) ^^^ (if x.getLsbD 0 then poly else 0#w)

def feed (poly : BitVec w) (n : Nat) (x symbol : BitVec w) : BitVec w :=
  (bit poly)^[n] (x ^^^ symbol)

def feeds (poly : BitVec w) (n : Nat) (x : BitVec w) (symbols : List (BitVec w)) : BitVec w :=
  symbols.foldl (feed poly n) x

/-! ## Linearity -/

theorem xor_exchange (a b c d : BitVec w) : (a ^^^ b) ^^^ (c ^^^ d) = (a ^^^ c) ^^^ (b ^^^ d) := by
  ac_rfl

theorem bit_xor (x y : BitVec w) : bit poly (x ^^^ y) = bit poly x ^^^ bit poly y := by
  unfold bit
  rw [xor_exchange, BitVec.ushiftRight_xor_distrib, BitVec.getLsbD_xor]
  congr 1
  cases x.getLsbD 0 <;> cases y.getLsbD 0 <;> simp

theorem bits_xor (n : Nat) (x y : BitVec w) :
    (bit poly)^[n] (x ^^^ y) = (bit poly)^[n] x ^^^ (bit poly)^[n] y := by
  induction n generalizing x y with
  | zero => rfl
  | succ n ih => simp only [Function.iterate_succ_apply, bit_xor, ih]

theorem feed_xor (x y a b : BitVec w) :
    feed poly n x a ^^^ feed poly n y b = feed poly n (x ^^^ y) (a ^^^ b) := by
  simp only [feed, bits_xor]
  exact xor_exchange _ _ _ _

theorem feeds_xor (x y : BitVec w) (as bs : List (BitVec w)) (h : as.length = bs.length) :
    feeds poly n x as ^^^ feeds poly n y bs =
      feeds poly n (x ^^^ y) (List.zipWith (· ^^^ ·) as bs) := by
  induction as generalizing x y bs with
  | nil =>
    obtain rfl : bs = [] := List.length_eq_zero_iff.mp h.symm
    rfl
  | cons a as ih =>
    cases bs with
    | nil => simp at h
    | cons b bs =>
      have hlen : as.length = bs.length := by simpa using h
      simp only [feeds, List.foldl_cons, List.zipWith_cons_cons] at ih ⊢
      rw [← feed_xor]
      exact ih _ _ bs hlen

theorem feeds_append (x : BitVec w) (as bs : List (BitVec w)) :
    feeds poly n x (as ++ bs) = feeds poly n (feeds poly n x as) bs := by
  simp [feeds]

/-! ## Small registers -/

/-- The feedback reaches the highest bit, so a step that leaves it clear is a shift. -/
theorem bit_small (hpoly : poly.msb = true) {x : BitVec w}
    (h : (bit poly x).toNat < 2 ^ (w - 1)) : x.toNat = 2 * (bit poly x).toNat := by
  have hw : 0 < w := by
    by_contra hzero
    obtain rfl : w = 0 := by omega
    rw [BitVec.eq_nil poly] at hpoly
    exact absurd hpoly (by decide)
  have heven : x.getLsbD 0 = false := by
    by_contra hodd
    have hmsb : (bit poly x).msb = true := by
      simp [bit, BitVec.msb_ushiftRight, (Bool.not_eq_false _).mp hodd, hpoly]
    have hlarge := BitVec.msb_eq_true_iff_two_mul_ge.mp hmsb
    have hpow : 2 ^ w = 2 * 2 ^ (w - 1) := by
      rw [← Nat.pow_succ']
      congr 1
      omega
    omega
  have hbit : bit poly x = x >>> 1 := by simp [bit, heven]
  have hmod : x.toNat % 2 = 0 := by
    rw [BitVec.getLsbD, Nat.testBit_zero] at heven
    simpa using heven
  rw [hbit, BitVec.toNat_ushiftRight, Nat.shiftRight_eq_div_pow]
  omega

theorem bits_small (hpoly : poly.msb = true) (hn : n ≤ w) {x : BitVec w}
    (h : ((bit poly)^[n] x).toNat < 2 ^ (w - n)) :
    x.toNat = 2 ^ n * ((bit poly)^[n] x).toNat := by
  induction n generalizing x with
  | zero => simp
  | succ n ih =>
    have hpow : 2 ^ (w - n) = 2 * 2 ^ (w - (n + 1)) := by
      rw [← Nat.pow_succ']
      congr 1
      omega
    simp only [Function.iterate_succ_apply] at h ⊢
    have hstep := ih (by omega) (by omega : ((bit poly)^[n] (bit poly x)).toNat < 2 ^ (w - n))
    have hroom : 2 ^ n * 2 ^ (w - (n + 1)) = 2 ^ (w - 1) := by
      rw [← Nat.pow_add]
      congr 1
      omega
    have hsmall : (bit poly x).toNat < 2 ^ (w - 1) := by
      rw [hstep, ← hroom]
      exact Nat.mul_lt_mul_of_pos_left h (Nat.two_pow_pos n)
    rw [bit_small hpoly hsmall, hstep, Nat.pow_succ']
    ac_rfl

/-! ## Bursts -/

/-- A register that ends zero after `k` symbols started below `2 ^ (n * k)`. -/
theorem feeds_zero_lt (hpoly : poly.msb = true) {x : BitVec w} {symbols : List (BitVec w)}
    (hsymbols : ∀ b ∈ symbols, b.toNat < 2 ^ n) (hroom : n * symbols.length ≤ w)
    (h : feeds poly n x symbols = 0#w) : x.toNat < 2 ^ (n * symbols.length) := by
  induction symbols generalizing x with
  | nil => simp_all [feeds]
  | cons b symbols ih =>
    rw [List.length_cons, Nat.mul_succ] at hroom ⊢
    have hlater : (feed poly n x b).toNat < 2 ^ (n * symbols.length) :=
      ih (fun c hc => hsymbols c (List.mem_cons_of_mem _ hc)) (by omega) h
    have hshift : (x ^^^ b).toNat = 2 ^ n * (feed poly n x b).toNat := by
      apply bits_small hpoly (by omega)
      exact Nat.lt_of_lt_of_le hlater (Nat.pow_le_pow_right (by decide) (by omega))
    have hxor : (x ^^^ b).toNat < 2 ^ (n * symbols.length + n) := by
      rw [hshift, Nat.pow_add, Nat.mul_comm]
      exact Nat.mul_lt_mul_of_pos_right hlater (Nat.two_pow_pos n)
    have hb : b.toNat < 2 ^ (n * symbols.length + n) :=
      Nat.lt_of_lt_of_le (hsymbols b List.mem_cons_self)
        (Nat.pow_le_pow_right (by decide) (Nat.le_add_left _ _))
    have hback : x = (x ^^^ b) ^^^ b := by
      rw [BitVec.xor_assoc, BitVec.xor_self, BitVec.xor_zero]
    rw [hback, BitVec.toNat_xor]
    exact Nat.xor_lt_two_pow hxor hb

/-- From zero, only zeros lead back to zero within the width of the register. -/
theorem feeds_zero_symbols (hpoly : poly.msb = true) {symbols : List (BitVec w)}
    (hsymbols : ∀ b ∈ symbols, b.toNat < 2 ^ n) (hroom : n * symbols.length ≤ w)
    (h : feeds poly n 0#w symbols = 0#w) : ∀ b ∈ symbols, b = 0#w := by
  induction symbols with
  | nil => simp
  | cons b symbols ih =>
    rw [List.length_cons, Nat.mul_succ] at hroom
    have htail : ∀ c ∈ symbols, c.toNat < 2 ^ n := fun c hc => hsymbols c (List.mem_cons_of_mem _ hc)
    have hlater : (feed poly n 0#w b).toNat < 2 ^ (n * symbols.length) :=
      feeds_zero_lt hpoly htail (by omega) h
    have hshift : (0#w ^^^ b).toNat = 2 ^ n * (feed poly n 0#w b).toNat := by
      apply bits_small hpoly (by omega)
      exact Nat.lt_of_lt_of_le hlater (Nat.pow_le_pow_right (by decide) (by omega))
    rw [BitVec.zero_xor] at hshift
    -- a multiple of 2 ^ n below 2 ^ n
    have hzero : (feed poly n 0#w b).toNat = 0 := by
      by_contra hne
      have hge : 2 ^ n * 1 ≤ 2 ^ n * (feed poly n 0#w b).toNat :=
        Nat.mul_le_mul_left _ (Nat.pos_of_ne_zero hne)
      have hlt := hsymbols b List.mem_cons_self
      omega
    have hb : b = 0#w := by
      apply BitVec.eq_of_toNat_eq
      simpa [hzero] using hshift
    have hfeed : feed poly n 0#w b = 0#w := BitVec.eq_of_toNat_eq (by simpa using hzero)
    have hrest : feeds poly n 0#w symbols = 0#w := by
      simpa only [feeds, List.foldl_cons, hfeed] using h
    intro c hc
    cases List.mem_cons.mp hc with
    | inl heq => exact heq.trans hb
    | inr hmem => exact ih htail (by omega) hrest c hmem

/-- A step loses nothing. -/
theorem feed_injective (hpoly : poly.msb = true) (hn : n ≤ w) {x y b : BitVec w}
    (h : feed poly n x b = feed poly n y b) : x = y := by
  have hzero : (bit poly)^[n] (x ^^^ y) = 0#w := by
    have hsum : feed poly n x b ^^^ feed poly n y b = feed poly n (x ^^^ y) (b ^^^ b) :=
      feed_xor x y b b
    rw [h, BitVec.xor_self, BitVec.xor_self, feed, BitVec.xor_zero] at hsum
    exact hsum.symm
  have hsmall := bits_small hpoly hn (x := x ^^^ y) (by
    rw [hzero, BitVec.toNat_zero]
    exact Nat.two_pow_pos _)
  rw [hzero] at hsmall
  exact BitVec.xor_eq_zero_iff.mp (BitVec.eq_of_toNat_eq (by simpa using hsmall))

theorem feeds_injective (hpoly : poly.msb = true) (hn : n ≤ w) {x y : BitVec w}
    {symbols : List (BitVec w)} (h : feeds poly n x symbols = feeds poly n y symbols) : x = y := by
  induction symbols generalizing x y with
  | nil => exact h
  | cons b symbols ih => exact feed_injective hpoly hn (ih h)

/-- A burst of at most `w` bits does not go unnoticed. -/
theorem burst_detected (hpoly : poly.msb = true) (hn : n ≤ w) (x : BitVec w)
    {front old new back : List (BitVec w)} (hlen : old.length = new.length)
    (hold : ∀ b ∈ old, b.toNat < 2 ^ n) (hnew : ∀ b ∈ new, b.toNat < 2 ^ n)
    (hroom : n * old.length ≤ w)
    (h : feeds poly n x (front ++ old ++ back) = feeds poly n x (front ++ new ++ back)) :
    old = new := by
  rw [feeds_append, feeds_append, feeds_append x _ back, feeds_append x front new] at h
  have hwindow := feeds_injective hpoly hn h
  have hzero : feeds poly n (feeds poly n x front) old ^^^ feeds poly n (feeds poly n x front) new =
      _ := feeds_xor _ _ old new hlen
  rw [hwindow, BitVec.xor_self, BitVec.xor_self] at hzero
  have hall : ∀ b ∈ List.zipWith (· ^^^ ·) old new, b = 0#w :=
    feeds_zero_symbols hpoly ?_ ?_ hzero.symm
  · clear h hwindow hzero hroom hold hnew
    induction old generalizing new with
    | nil => exact (List.length_eq_zero_iff.mp hlen.symm).symm
    | cons a old ih =>
      cases new with
      | nil => simp at hlen
      | cons b new =>
        simp only [List.zipWith_cons_cons, List.mem_cons, forall_eq_or_imp] at hall
        rw [BitVec.xor_eq_zero_iff.mp hall.1, ih (by simpa using hlen) hall.2]
  · intro b hb
    obtain ⟨i, hi, rfl⟩ := List.getElem_of_mem hb
    rw [List.getElem_zipWith, BitVec.toNat_xor]
    exact Nat.xor_lt_two_pow (hold _ (List.getElem_mem _)) (hnew _ (List.getElem_mem _))
  · simpa [hlen] using hroom

end Asm2Runtime.CrcRegister
