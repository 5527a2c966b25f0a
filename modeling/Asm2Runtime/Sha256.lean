import Asm2Runtime.BlockStream
import Mathlib.Data.Nat.NthRoot.Defs
import Mathlib.Data.Nat.Prime.Basic

/-!
# SHA-256

The hash function of FIPS 180-4 on messages of bits: functions of words, constants from the
roots of the primes, padding, parsing into blocks, message schedule and compression.
-/

namespace Asm2Runtime.Sha256

abbrev Word := BitVec 32

/-- The bits of a word, the most significant one first. -/
def bitsOf {w : Nat} (x : BitVec w) : List Bool := (List.range w).map x.getMsbD

/-- The number that bits stand for, the most significant one first. -/
def natOfBits (bits : List Bool) : Nat := bits.foldl (fun n b => 2 * n + b.toNat) 0

/-! ## Functions and constants -/

def ch (x y z : Word) : Word := (x &&& y) ^^^ (~~~x &&& z)

def maj (x y z : Word) : Word := (x &&& y) ^^^ (x &&& z) ^^^ (y &&& z)

def bigSigma0 (x : Word) : Word := x.rotateRight 2 ^^^ x.rotateRight 13 ^^^ x.rotateRight 22

def bigSigma1 (x : Word) : Word := x.rotateRight 6 ^^^ x.rotateRight 11 ^^^ x.rotateRight 25

def smallSigma0 (x : Word) : Word := x.rotateRight 7 ^^^ x.rotateRight 18 ^^^ x >>> 3

def smallSigma1 (x : Word) : Word := x.rotateRight 17 ^^^ x.rotateRight 19 ^^^ x >>> 10

/-- The first thirty-two bits of the fractional part of a root of `p`. -/
def fraction (root p : Nat) : Word := BitVec.ofNat 32 (Nat.nthRoot root (p * 2 ^ (32 * root)))

/-- The first sixty-four primes. -/
def primes : List Nat := (List.range 312).filter fun p => p.Prime

/-- `K`, from the cube roots of the first sixty-four primes. -/
def constants : List Word := primes.map (fraction 3)

/-- The chaining value and the working variables. -/
structure Hash where
  a : Word
  b : Word
  c : Word
  d : Word
  e : Word
  f : Word
  g : Word
  h : Word
  deriving DecidableEq, Repr

def Hash.words (hash : Hash) : List Word :=
  [hash.a, hash.b, hash.c, hash.d, hash.e, hash.f, hash.g, hash.h]

/-- `H⁽⁰⁾`, from the square roots of the first eight primes. -/
def initial : Hash where
  a := fraction 2 2
  b := fraction 2 3
  c := fraction 2 5
  d := fraction 2 7
  e := fraction 2 11
  f := fraction 2 13
  g := fraction 2 17
  h := fraction 2 19

/-! ## Preprocessing -/

/-- The number of zero bits after the one: the least with `length + 1 + k ≡ 448 (mod 512)`. -/
def zeroBits (length : Nat) : Nat := (447 + 512 - length % 512) % 512

def pad (message : List Bool) : List Bool :=
  message ++ true :: List.replicate (zeroBits message.length) false ++
    bitsOf (BitVec.ofNat 64 message.length)

/-- A block of bits as words of thirty-two. -/
def parse (block : List Bool) : List Word :=
  (BlockStream.blocks 32 block).map fun bits => BitVec.ofNat 32 (natOfBits bits)

/-! ## Hash computation -/

/-- The next word of the message schedule. -/
def extend (ws : List Word) : List Word :=
  let t := ws.length
  ws ++ [smallSigma1 (ws.getD (t - 2) 0) + ws.getD (t - 7) 0 +
    smallSigma0 (ws.getD (t - 15) 0) + ws.getD (t - 16) 0]

def schedule (block : List Word) : List Word := extend^[48] block

def round (v : Hash) (k w : Word) : Hash :=
  let t1 := v.h + bigSigma1 v.e + ch v.e v.f v.g + k + w
  let t2 := bigSigma0 v.a + maj v.a v.b v.c
  { a := t1 + t2, b := v.a, c := v.b, d := v.c, e := v.d + t1, f := v.e, g := v.f, h := v.g }

def Hash.add (x y : Hash) : Hash :=
  { a := x.a + y.a, b := x.b + y.b, c := x.c + y.c, d := x.d + y.d,
    e := x.e + y.e, f := x.f + y.f, g := x.g + y.g, h := x.h + y.h }

def compress (hash : Hash) (block : List Bool) : Hash :=
  hash.add ((constants.zip (schedule (parse block))).foldl (fun v p => round v p.1 p.2) hash)

/-- The digest of a message of fewer than `2 ^ 64` bits. -/
def sha256 (message : List Bool) : List Bool :=
  ((BlockStream.blocks 512 (pad message)).foldl compress initial).words.flatMap bitsOf

/-! ## The constants -/

/-- No number from two on whose square is at most `p` divides it, for `p` below 324. -/
def trial (p : Nat) : Bool :=
  decide (2 ≤ p) && (List.range' 2 16).all fun m => decide (p < m * m) || p % m != 0

theorem prime_iff_trial {p : Nat} (hp : p < 18 * 18) : p.Prime ↔ trial p = true := by
  simp only [Nat.prime_def_le_sqrt, trial, Bool.and_eq_true, decide_eq_true_eq, List.all_eq_true,
    List.mem_range'_1, Bool.or_eq_true, bne_iff_ne, Nat.dvd_iff_mod_eq_zero, Nat.le_sqrt]
  refine and_congr_right fun htwo => ?_
  constructor
  · intro h m hm
    by_cases hle : m * m ≤ p
    · exact .inr (h m hm.1 hle)
    · exact .inl (Nat.not_le.mp hle)
  · intro h m htwo hle
    have hlt : m < 18 := Nat.mul_self_lt_mul_self_iff.mp (Nat.lt_of_le_of_lt hle hp)
    exact (h m ⟨htwo, hlt⟩).resolve_left (Nat.not_lt.mpr hle)

/-- The primes by trial division, which is quicker to evaluate. -/
theorem primes_eq : primes = (List.range 312).filter trial :=
  List.filter_congr fun p hp => by
    rw [Bool.eq_iff_iff, decide_eq_true_eq]
    exact prime_iff_trial (Nat.lt_trans (List.mem_range.mp hp) (by decide))

/-! ## Bits and numbers -/

@[simp] theorem bitsOf_length {w : Nat} (x : BitVec w) : (bitsOf x).length = w := by
  simp [bitsOf]

theorem natOfBits_foldl (bits : List Bool) (n : Nat) :
    bits.foldl (fun n b => 2 * n + b.toNat) n = n * 2 ^ bits.length + natOfBits bits := by
  induction bits generalizing n with
  | nil => simp [natOfBits]
  | cons b bits ih =>
    rw [natOfBits, List.foldl_cons, List.foldl_cons, ih, ih (2 * 0 + b.toNat), List.length_cons,
      Nat.mul_zero, Nat.zero_add, Nat.add_mul, Nat.pow_succ', Nat.mul_comm 2 n, Nat.mul_assoc,
      Nat.add_assoc]

theorem natOfBits_append (xs ys : List Bool) :
    natOfBits (xs ++ ys) = natOfBits xs * 2 ^ ys.length + natOfBits ys := by
  rw [natOfBits, List.foldl_append, natOfBits_foldl]
  rfl

/-- The bits of a word stand for its number. -/
theorem natOfBits_bitsOf {w : Nat} (x : BitVec w) : natOfBits (bitsOf x) = x.toNat := by
  induction w with
  | zero =>
    rw [BitVec.eq_nil x]
    rfl
  | succ w ih =>
    have hbits : bitsOf x = [x.msb] ++ bitsOf (x.setWidth w) := by
      rw [bitsOf, List.range_succ_eq_map, List.map_cons, List.map_map]
      refine congrArg (x.msb :: ·) (List.map_congr_left fun i _ => ?_)
      simp only [Function.comp_apply, BitVec.getMsbD_setWidth]
      have hsub : w - (w + 1) = 0 := by omega
      have hnext : i + (w + 1) - w = i + 1 := by omega
      rw [hsub, hnext]
      simp
    have hmsb : natOfBits [x.msb] = x.msb.toNat := by simp [natOfBits]
    rw [hbits, natOfBits_append, hmsb, ih, bitsOf_length, ← Nat.shiftLeft_eq,
      ← BitVec.toNat_cons', BitVec.cons_msb_setWidth]

/-- The bytes of a word, the most significant one first. -/
def bytesOf (n : Nat) (x : BitVec (8 * n)) : List (BitVec 8) :=
  (List.range n).map fun i => (x >>> (8 * (n - 1 - i))).setWidth 8

theorem range_mul (k n : Nat) :
    List.range (k * n) = (List.range n).flatMap fun i => (List.range k).map (k * i + ·) := by
  induction n with
  | zero => rfl
  | succ n ih =>
    rw [Nat.mul_succ, List.range_add, ih, List.range_succ, List.flatMap_append,
      List.flatMap_singleton]

/-- The bits of the bytes of a word are its bits. -/
theorem bitsOf_bytesOf (n : Nat) (x : BitVec (8 * n)) : (bytesOf n x).flatMap bitsOf = bitsOf x := by
  rw [bitsOf, range_mul, List.map_flatMap, bytesOf, List.flatMap_map]
  refine List.flatMap_congr fun i hi => ?_
  rw [bitsOf, List.map_map]
  refine List.map_congr_left fun j hj => ?_
  have hi := List.mem_range.mp hi
  have hj := List.mem_range.mp hj
  have hindex : 8 * (n - 1 - i) + (8 - 1 - j) = 8 * n - 1 - (8 * i + j) := by omega
  have hinside : 8 * i + j < 8 * n := by omega
  have hlow : 8 - 1 - j < 8 := by omega
  simp only [Function.comp_apply, BitVec.getMsbD_eq_getLsbD, BitVec.getLsbD_setWidth,
    BitVec.getLsbD_ushiftRight, hindex, hinside, hj, hlow, decide_true, Bool.true_and]

end Asm2Runtime.Sha256
