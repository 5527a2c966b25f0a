import Asm2Runtime.CaptureSha
import Asm2Runtime.Sha256
import Mathlib.Analysis.SpecialFunctions.Pow.NthRootLemmas
import Mathlib.Tactic.IntervalCases

/-!
# The capture digest is SHA-256

One transformation of the code is one compression of FIPS 180-4, the buffer and the counter
stand for the message so far, and the finish is the padding.
-/

namespace Asm2Runtime.CaptureSha

open BlockAccess BlockStream Sha256

/-- The bits of bytes in the order of the message. -/
def bits (bytes : List Byte) : List Bool := bytes.flatMap bitsOf

theorem bits_append (xs ys : List Byte) : bits (xs ++ ys) = bits xs ++ bits ys :=
  List.flatMap_append

theorem bits_length (bytes : List Byte) : (bits bytes).length = 8 * bytes.length := by
  induction bytes with
  | nil => rfl
  | cons b bytes ih =>
    rw [bits, List.flatMap_cons, List.length_append, bitsOf_length, List.length_cons]
    rw [bits] at ih
    omega

/-! ## Words -/

theorem rotateRight_eq (value : U32) {count : Nat} (h : count < 32) :
    rotateRight value count = value.rotateRight count := by
  rw [BitVec.rotateRight_def, Nat.mod_eq_of_lt h]
  rfl

theorem bytesOf_join (b0 b1 b2 b3 : Byte) :
    bytesOf 4 (b0.setWidth 32 <<< 24 ||| b1.setWidth 32 <<< 16 ||| b2.setWidth 32 <<< 8 |||
      b3.setWidth 32) = [b0, b1, b2, b3] := by
  have hbyte : ∀ x y : Byte, (∀ i, i < 8 → x.getLsbD i = y.getLsbD i) → x = y := fun x y h =>
    BitVec.eq_of_getLsbD_eq h
  have hrange : List.range 4 = [0, 1, 2, 3] := rfl
  rw [bytesOf, hrange, List.map_cons, List.map_cons, List.map_cons, List.map_singleton]
  refine congrArg₂ _ ?_ (congrArg₂ _ ?_ (congrArg₂ _ ?_ (congrArg₂ _ ?_ rfl)))
  all_goals
    refine hbyte _ _ fun i hi => ?_
    interval_cases i <;> simp

/-- Four bytes of the block are the word that FIPS 180-4 reads from their bits. -/
theorem wordOf_join (b0 b1 b2 b3 : Byte) :
    BitVec.ofNat 32 (natOfBits (bits [b0, b1, b2, b3])) =
      b0.setWidth 32 <<< 24 ||| b1.setWidth 32 <<< 16 ||| b2.setWidth 32 <<< 8 |||
        b3.setWidth 32 := by
  rw [← bytesOf_join b0 b1 b2 b3, bits, bitsOf_bytesOf, natOfBits_bitsOf]
  refine BitVec.eq_of_toNat_eq ?_
  rw [BitVec.toNat_ofNat]
  exact Nat.mod_eq_of_lt (BitVec.isLt _)

theorem take_four (block : List Byte) (k : Nat) (h : k + 4 ≤ block.length) :
    (block.drop k).take 4 =
      [block.getD k 0, block.getD (k + 1) 0, block.getD (k + 2) 0, block.getD (k + 3) 0] := by
  have hhead : ∀ i, i < 4 → block.drop (k + i) = block.getD (k + i) 0 :: block.drop (k + (i + 1)) :=
    fun i hi => by
      have hlt : k + i < block.length := by omega
      rw [List.drop_eq_getElem_cons hlt, List.getD_eq_getElem?_getD,
        List.getElem?_eq_getElem hlt]
      rfl
  have hzero : block.drop k = block.getD k 0 :: block.drop (k + 1) := hhead 0 (by decide)
  rw [hzero, hhead 1 (by decide), hhead 2 (by decide), hhead 3 (by decide)]
  rfl

theorem parse_bits {block : List Byte} (h : block.length = 64) :
    parse (bits block) = (List.range 16).map (loadWord block) := by
  have hfour : block.length = 4 * 16 := h
  obtain ⟨hflat, hlength⟩ := flatten_blocks (n := 4) (by decide) hfour
  have hbits := blocks_flatMap (f := bitsOf) (k := 8) (fun b => bitsOf_length b) (by decide)
    (by decide) hlength
  rw [hflat, blocks_eq_range (by decide) hfour, List.map_map] at hbits
  rw [parse, bits, hbits, List.map_map]
  refine List.map_congr_left fun i hi => ?_
  have hi := List.mem_range.mp hi
  have hword := take_four block (4 * i) (by omega)
  rw [Function.comp_apply, Function.comp_apply, hword]
  refine (wordOf_join _ _ _ _).trans ?_
  rw [loadWord, Nat.mul_comm i 4]

/-! ## The message schedule and the rounds -/

/-- A loop over the places of a list that grows by one each time. -/
theorem foldl_growing {f : List U32 → Nat → List U32} {g : List U32 → List U32}
    (hf : ∀ ws, f ws ws.length = g ws) (hg : ∀ ws, (g ws).length = ws.length + 1) (m : Nat)
    (ws : List U32) : (List.range' ws.length m).foldl f ws = g^[m] ws := by
  induction m generalizing ws with
  | zero => rfl
  | succ m ih =>
    rw [List.range'_succ, List.foldl_cons, hf, ← hg, ih, Function.iterate_succ_apply]

theorem nextWord_eq (ws : List U32) : nextWord ws ws.length = extend ws := by
  simp only [nextWord, extend, rotateRight_eq _ (show 7 < 32 by decide),
    rotateRight_eq _ (show 18 < 32 by decide), rotateRight_eq _ (show 17 < 32 by decide),
    rotateRight_eq _ (show 19 < 32 by decide), smallSigma0, smallSigma1]
  refine congrArg (ws ++ [·]) ?_
  ac_rfl

theorem extend_length (ws : List U32) : (extend ws).length = ws.length + 1 := by
  simp [extend]

theorem messageWords_eq {block : List Byte} (h : block.length = 64) :
    messageWords block = schedule (parse (bits block)) := by
  have hsixteen : ((List.range 16).map (loadWord block)).length = 16 := by simp
  have hloop := foldl_growing nextWord_eq extend_length 48 ((List.range 16).map (loadWord block))
  rw [hsixteen] at hloop
  rw [messageWords, hloop, parse_bits h, schedule]

theorem iterate_extend_length (m : Nat) (ws : List U32) :
    (extend^[m] ws).length = ws.length + m := by
  induction m generalizing ws with
  | zero => rfl
  | succ m ih => rw [Function.iterate_succ_apply, ih, extend_length, Nat.add_assoc, Nat.add_comm 1]

/-- The fraction of a cube root between two bounds, with `i` before the point. -/
theorem fraction_three {p i : Nat} {k : U32} (hle : (i * 2 ^ 32 + k.toNat) ^ 3 ≤ p * 2 ^ 96)
    (hlt : p * 2 ^ 96 < (i * 2 ^ 32 + k.toNat + 1) ^ 3) : fraction 3 p = k := by
  have hroot : Nat.nthRoot 3 (p * 2 ^ (32 * 3)) = i * 2 ^ 32 + k.toNat :=
    Nat.nthRoot_eq_of_le_of_lt hle hlt
  rw [fraction, hroot]
  apply BitVec.eq_of_toNat_eq
  rw [BitVec.toNat_ofNat, Nat.mul_add_mod_self_right, Nat.mod_eq_of_lt k.isLt]

theorem roundConstants_eq : roundConstants = constants := by
  have hroots : ∀ pk ∈ ((List.range 312).filter trial).zip roundConstants, ∃ i < 7,
      (i * 2 ^ 32 + pk.2.toNat) ^ 3 ≤ pk.1 * 2 ^ 96 ∧
        pk.1 * 2 ^ 96 < (i * 2 ^ 32 + pk.2.toNat + 1) ^ 3 := by
    decide +kernel
  have hlength : ((List.range 312).filter trial).length = roundConstants.length := by
    decide +kernel
  rw [constants, primes_eq]
  refine List.ext_getElem (by rw [List.length_map, hlength]) fun j hj hj' => ?_
  have hboth : j < (((List.range 312).filter trial).zip roundConstants).length := by
    rw [List.length_zip, hlength, Nat.min_self]
    exact hj
  have hmem := List.getElem_mem hboth
  rw [List.getElem_zip] at hmem
  obtain ⟨i, -, hle, hlt⟩ := hroots _ hmem
  rw [List.getElem_map]
  exact (fraction_three hle hlt).symm

/-- A fold over two lists of one length, side by side. -/
theorem foldl_zip {α : Type} {f : α → U32 → U32 → α} {m : Nat} {xs ys : List U32}
    (hxs : xs.length = m) (hys : ys.length = m) (a : α) :
    (xs.zip ys).foldl (fun a p => f a p.1 p.2) a =
      (List.range m).foldl (fun a i => f a (xs.getD i 0) (ys.getD i 0)) a := by
  have hzip : xs.zip ys = (List.range m).map fun i => (xs.getD i 0, ys.getD i 0) := by
    refine List.ext_getElem (by simp [hxs, hys]) fun i hi hi' => ?_
    have hplace : i < m := by simpa using hi'
    simp [hxs, hys, hplace]
  rw [hzip, List.foldl_map]

def Locals.hash (v : Locals) : Hash :=
  { a := v.a, b := v.b, c := v.c, d := v.d, e := v.e, f := v.f, g := v.g, h := v.h }

theorem round_hash (words : List U32) (v : Locals) (index : Nat) :
    (v.round words index).hash =
      Sha256.round v.hash (roundConstants.getD index 0) (words.getD index 0) := by
  simp only [Locals.round, Locals.hash, Sha256.round, bigSigma0, bigSigma1, ch, maj,
    rotateRight_eq _ (show 6 < 32 by decide), rotateRight_eq _ (show 11 < 32 by decide),
    rotateRight_eq _ (show 25 < 32 by decide), rotateRight_eq _ (show 2 < 32 by decide),
    rotateRight_eq _ (show 13 < 32 by decide), rotateRight_eq _ (show 22 < 32 by decide)]

theorem rounds_hash (words : List U32) (indices : List Nat) (v : Locals) :
    (indices.foldl (Locals.round words) v).hash =
      indices.foldl (fun hash i =>
        Sha256.round hash (roundConstants.getD i 0) (words.getD i 0)) v.hash := by
  induction indices generalizing v with
  | nil => rfl
  | cons i indices ih => rw [List.foldl_cons, List.foldl_cons, ih, round_hash]

/-- The array of the structure. -/
def stateOf (hash : Hash) : Vector U32 8 :=
  #v[hash.a, hash.b, hash.c, hash.d, hash.e, hash.f, hash.g, hash.h]

/-- One transformation is one compression. -/
theorem transform_eq (hash : Hash) {block : List Byte} (h : block.length = 64) :
    transform (stateOf hash) block = stateOf (compress hash (bits block)) := by
  have hconstants : constants.length = 64 := by
    rw [← roundConstants_eq]
    rfl
  have hwords : (schedule (parse (bits block))).length = 64 := by
    rw [schedule, iterate_extend_length, parse_bits h]
    simp
  have hrounds := rounds_hash (messageWords block) (List.range 64)
    ⟨hash.a, hash.b, hash.c, hash.d, hash.e, hash.f, hash.g, hash.h⟩
  rw [roundConstants_eq, messageWords_eq h, ← foldl_zip hconstants hwords] at hrounds
  have hcompress : compress hash (bits block) = hash.add
      ((List.range 64).foldl (Locals.round (messageWords block))
        ⟨hash.a, hash.b, hash.c, hash.d, hash.e, hash.f, hash.g, hash.h⟩).hash := by
    rw [compress, messageWords_eq h, hrounds]
    rfl
  rw [hcompress]
  rfl

/-! ## The stream -/

theorem put_eq {block values : List Byte} {offset : Nat}
    (h : offset + values.length ≤ block.length) :
    put block offset values = some (overwrite block offset values) :=
  if_pos h

/-- The structure stands for the message fed so far. -/
structure Carries (sha : Sha) (message : List Byte) : Prop where
  absorbed : Absorbed 64 transform init.state message sha.state (sha.block.take sha.blockSize)
  short : sha.blockSize < 64
  sized : sha.block.length = 64

theorem init_carries : Carries init [] :=
  ⟨Absorbed.nil, by decide, by decide⟩

/-- A full block is transformed at once. -/
theorem flush_carries (sha : Sha) {message : List Byte}
    (h : Absorbed 64 transform init.state message sha.state (sha.block.take sha.blockSize))
    (hle : sha.blockSize ≤ 64) (hsized : sha.block.length = 64) :
    Carries (flush sha) message ∧ (flush sha).bitCount = sha.bitCount := by
  unfold flush
  by_cases hfull : sha.blockSize = 64
  · rw [if_pos hfull]
    rw [hfull, List.take_of_length_le (Nat.le_of_eq hsized)] at h
    exact ⟨⟨h.complete hsized, by dsimp only; omega, hsized⟩, rfl⟩
  · rw [if_neg hfull]
    exact ⟨⟨h, by omega, hsized⟩, rfl⟩

/-- One round of the loop takes at least one byte of a nonempty input. -/
theorem absorb_step {fuel : Nat} {sha : Sha} {message input : List Byte}
    (h : Carries sha message) (hinput : 0 < input.length) :
    ∃ next amount, 0 < amount ∧ amount ≤ input.length ∧
      absorb (fuel + 1) sha input = absorb fuel next (input.drop amount) ∧
      Carries next (message ++ input.take amount) ∧ next.bitCount = sha.bitCount := by
  obtain ⟨habsorbed, hshort, hsized⟩ := h
  obtain ⟨amount, hamount⟩ : ∃ amount, amount =
    if input.length < 64 - sha.blockSize then input.length else 64 - sha.blockSize := ⟨_, rfl⟩
  have hpos : 0 < amount := by
    rw [hamount]
    split <;> omega
  have hle : amount ≤ input.length ∧ sha.blockSize + amount ≤ 64 := by
    rw [hamount]
    split <;> omega
  have hlength : (input.take amount).length = amount := List.length_take_of_le hle.1
  have hroom : sha.blockSize + (input.take amount).length ≤ sha.block.length := by omega
  have hpending := overwrite_take (show sha.blockSize ≤ sha.block.length by omega) (input.take amount)
  have hpushed := habsorbed.push (input.take amount)
  rw [← hpending, hlength] at hpushed
  have hflush := flush_carries
    { sha with
      block := overwrite sha.block sha.blockSize (input.take amount)
      blockSize := sha.blockSize + amount }
    hpushed hle.2 (by rw [← hsized]; exact overwrite_length hroom)
  refine ⟨_, amount, hpos, hle.1, ?_, hflush⟩
  rw [absorb, if_pos hinput]
  dsimp only
  rw [← hamount, put_eq hroom]
  rfl

/-- The loop ends, with the whole input fed. -/
theorem absorb_carries (fuel : Nat) (sha : Sha) {message input : List Byte}
    (h : Carries sha message) (hfuel : input.length < fuel) :
    ∃ next, absorb fuel sha input = some next ∧ Carries next (message ++ input) ∧
      next.bitCount = sha.bitCount := by
  induction fuel generalizing sha message input with
  | zero => omega
  | succ fuel ih =>
    by_cases hinput : 0 < input.length
    · obtain ⟨mid, amount, hpos, hle, hrun, hmid, hcount⟩ := absorb_step h hinput
      have hless : (input.drop amount).length < fuel := by
        rw [List.length_drop]
        omega
      obtain ⟨next, hnext, hcarries, hsame⟩ := ih mid hmid hless
      rw [List.append_assoc, List.take_append_drop] at hcarries
      exact ⟨next, hrun.trans hnext, hcarries, hsame.trans hcount⟩
    · obtain rfl : input = [] := List.length_eq_zero_iff.mp (by omega)
      refine ⟨sha, if_neg hinput, ?_, rfl⟩
      rwa [List.append_nil]

theorem update_carries {sha : Sha} {message : List Byte} (h : Carries sha message)
    (data : List Byte) :
    ∃ next, update sha data = some next ∧ Carries next (message ++ data) ∧
      next.bitCount = sha.bitCount + BitVec.ofNat 64 data.length * 8 :=
  absorb_carries (data.length + 1)
    { sha with bitCount := sha.bitCount + BitVec.ofNat 64 data.length * 8 }
    ⟨h.absorbed, h.short, h.sized⟩ (Nat.lt_succ_self _)

/-- Any cutting of the message is absorbed, and counted modulo `2 ^ 64` bits. -/
theorem updates_carry (chunks : List (List Byte)) {sha : Sha} {message : List Byte}
    (h : Carries sha message)
    (hcount : sha.bitCount = BitVec.ofNat 64 (8 * message.length)) :
    ∃ next, chunks.foldlM update sha = some next ∧ Carries next (message ++ chunks.flatten) ∧
      next.bitCount = BitVec.ofNat 64 (8 * (message ++ chunks.flatten).length) := by
  induction chunks generalizing sha message with
  | nil =>
    rw [List.flatten_nil, List.append_nil]
    exact ⟨sha, rfl, h, hcount⟩
  | cons data chunks ih =>
    obtain ⟨mid, hrun, hmid, hadded⟩ := update_carries h data
    have hmidCount : mid.bitCount = BitVec.ofNat 64 (8 * (message ++ data).length) := by
      have hbits : BitVec.ofNat 64 (8 * data.length) = BitVec.ofNat 64 data.length * 8 := by
        rw [Nat.mul_comm, BitVec.ofNat_mul]
        rfl
      rw [hadded, hcount, List.length_append, Nat.mul_add, BitVec.ofNat_add, hbits]
    obtain ⟨next, hnext, hcarries, hlast⟩ := ih hmid hmidCount
    rw [List.flatten_cons, ← List.append_assoc]
    exact ⟨next, by rw [List.foldlM_cons, hrun]; exact hnext, hcarries, hlast⟩

/-! ## The finish -/

/-- The zero bytes of the padding: the block with the count is full after them. -/
def zeroBytes (length : Nat) : Nat := (55 + 64 - length % 64) % 64

/-- The mark is appended to what is pending. -/
theorem mark_carries {sha : Sha} {message : List Byte} (h : Carries sha message) :
    ∃ block, put sha.block sha.blockSize [0x80] = some block ∧ block.length = 64 ∧
      Absorbed 64 transform init.state (message ++ [0x80]) sha.state
        (block.take (sha.blockSize + 1)) := by
  obtain ⟨habsorbed, hshort, hsized⟩ := h
  have hmark : sha.blockSize + [(0x80 : Byte)].length ≤ sha.block.length := by
    rw [List.length_singleton]
    omega
  have htake := overwrite_take (show sha.blockSize ≤ sha.block.length by omega) [(0x80 : Byte)]
  have hpushed := habsorbed.push [0x80]
  rw [← htake] at hpushed
  exact ⟨_, put_eq hmark, by rw [overwrite_length hmark, hsized], hpushed⟩

/-- Zeros are appended to what is pending. -/
theorem zeros_carry {state : Vector U32 8} {message block : List Byte} {position stop : Nat}
    (h : Absorbed 64 transform init.state message state (block.take position))
    (hsized : block.length = 64) (hle : position ≤ stop) (hstop : stop ≤ 64) :
    ∃ next, put block position (List.replicate (stop - position) 0) = some next ∧
      next.length = 64 ∧
      Absorbed 64 transform init.state (message ++ List.replicate (stop - position) 0) state
        (next.take stop) := by
  have hroom : position + (List.replicate (stop - position) (0 : Byte)).length ≤ block.length := by
    rw [List.length_replicate]
    omega
  have htake := overwrite_take (show position ≤ block.length by omega)
    (List.replicate (stop - position) (0 : Byte))
  rw [List.length_replicate, Nat.add_sub_cancel' hle] at htake
  have hpushed := h.push (List.replicate (stop - position) 0)
  rw [← htake] at hpushed
  exact ⟨_, put_eq hroom, by rw [overwrite_length hroom, hsized], hpushed⟩

/-- What is pending after the mark and the zeros, in one block or in two. -/
theorem finalBlock_carries {sha : Sha} {message : List Byte} (h : Carries sha message) :
    ∃ state block, finalBlock sha = some (state, block) ∧ block.length = 64 ∧
      Absorbed 64 transform init.state
        (message ++ [0x80] ++ List.replicate (zeroBytes message.length) 0) state
        (block.take 56) := by
  have hshort := h.short
  have hmod := h.absorbed.length_mod (by rw [List.length_take, h.sized]; omega)
  rw [List.length_take_of_le (by rw [h.sized]; omega)] at hmod
  obtain ⟨marked, hmark, hmarked, hpushed⟩ := mark_carries h
  unfold finalBlock
  rw [hmark]
  by_cases hlong : 56 < sha.blockSize + 1
  · obtain ⟨full, hfill, hfull, hfilled⟩ :=
      zeros_carry hpushed hmarked (show sha.blockSize + 1 ≤ 64 by omega) (Nat.le_refl 64)
    rw [List.take_of_length_le (Nat.le_of_eq hfull)] at hfilled
    have hcomplete := hfilled.complete hfull
    rw [← List.take_zero (l := full)] at hcomplete
    obtain ⟨next, hzero, hnext, hzeroed⟩ :=
      zeros_carry hcomplete hfull (Nat.zero_le 56) (by decide)
    have hzeros : zeroBytes message.length = (64 - (sha.blockSize + 1)) + (56 - 0) := by
      rw [zeroBytes]
      omega
    rw [List.append_assoc, ← List.replicate_add, ← hzeros] at hzeroed
    refine ⟨_, next, ?_, hnext, hzeroed⟩
    have hrest : put full 0 (List.replicate 56 0) = some next := hzero
    simp only [Option.bind_eq_bind, Option.bind_some, if_pos hlong, hfill, hrest]
    rfl
  · obtain ⟨next, hzero, hnext, hzeroed⟩ :=
      zeros_carry hpushed hmarked (show sha.blockSize + 1 ≤ 56 by omega) (by decide)
    have hzeros : zeroBytes message.length = 56 - (sha.blockSize + 1) := by
      rw [zeroBytes]
      omega
    rw [← hzeros] at hzeroed
    refine ⟨_, next, ?_, hnext, hzeroed⟩
    simp only [Option.bind_eq_bind, Option.bind_some, if_neg hlong, hzero]
    rfl

theorem wordBytes_eq (word : U32) : wordBytes word = bytesOf 4 word := by
  simp [wordBytes, bytesOf, List.range_succ]

theorem countBytes_eq (bitCount : BitVec 64) : countBytes bitCount = bytesOf 8 bitCount := by
  refine List.map_congr_left fun i hi => ?_
  have hi := List.mem_range.mp hi
  rw [show 56 - i * 8 = 8 * (8 - 1 - i) by omega]

theorem countBytes_length (bitCount : BitVec 64) : (countBytes bitCount).length = 8 := by
  simp [countBytes]

/-- The bytes added by the finish are the padding. -/
theorem bits_padding (message : List Byte) :
    bits (message ++ [0x80] ++ List.replicate (zeroBytes message.length) 0 ++
        countBytes (BitVec.ofNat 64 (8 * message.length))) = pad (bits message) := by
  have hzeros : ∀ n, bits (List.replicate n 0) = List.replicate (8 * n) false := by
    intro n
    induction n with
    | zero => rfl
    | succ n ih =>
      rw [List.replicate_succ, bits, List.flatMap_cons, ← bits, ih, Nat.mul_succ, Nat.add_comm,
        List.replicate_add]
      rfl
  have hmark : bits [0x80] = true :: List.replicate 7 false := by decide
  have hcount : zeroBits (8 * message.length) = 7 + 8 * zeroBytes message.length := by
    rw [zeroBits, zeroBytes]
    omega
  rw [bits_append, bits_append, bits_append, hzeros, hmark, countBytes_eq, bits, bits,
    bitsOf_bytesOf, pad, ← bits, bits_length, hcount, List.replicate_add]
  simp

/-- A fold of transformations over blocks of bytes is the fold of compressions over their bits. -/
theorem foldl_transform (bs : List (List Byte)) (hbs : ∀ b ∈ bs, b.length = 64) (hash : Hash) :
    bs.foldl transform (stateOf hash) = stateOf ((bs.map bits).foldl compress hash) := by
  induction bs generalizing hash with
  | nil => rfl
  | cons block bs ih =>
    rw [List.foldl_cons, List.map_cons, List.foldl_cons,
      transform_eq hash (hbs block List.mem_cons_self),
      ih fun b hb => hbs b (List.mem_cons_of_mem block hb)]

theorem init_state : init.state = stateOf initial := by
  decide +kernel

/-- The digest of a hash value. -/
theorem digest_bits (hash : Hash) :
    ((stateOf hash).toList.flatMap wordBytes).length = 32 ∧
      bits ((stateOf hash).toList.flatMap wordBytes) = hash.words.flatMap bitsOf := by
  refine ⟨rfl, ?_⟩
  rw [bits, List.flatMap_assoc]
  refine List.flatMap_congr fun word _ => ?_
  rw [wordBytes_eq]
  exact bitsOf_bytesOf 4 word

/-- The finish gives the digest of the message. -/
theorem final_spec {sha : Sha} {message : List Byte} (h : Carries sha message)
    (hcount : sha.bitCount = BitVec.ofNat 64 (8 * message.length)) :
    ∃ d, final sha = some d ∧ d.length = 32 ∧ bits d = sha256 (bits message) := by
  obtain ⟨state, block, hfinal, hsized, hpending⟩ := finalBlock_carries h
  have hroom : 56 + (countBytes sha.bitCount).length ≤ block.length := by
    rw [countBytes_length, hsized]
  have hfull : (overwrite block 56 (countBytes sha.bitCount)).length = 64 := by
    rw [overwrite_length hroom, hsized]
  have htake := overwrite_take (show 56 ≤ block.length by omega) (countBytes sha.bitCount)
  rw [countBytes_length, List.take_of_length_le (Nat.le_of_eq hfull)] at htake
  have hpushed := hpending.push (countBytes sha.bitCount)
  rw [← htake] at hpushed
  obtain ⟨bs, hbs, hinput, hstate⟩ := hpushed.complete hfull
  have hpad : pad (bits message) = bs.flatten.flatMap bitsOf := by
    rw [← bits_padding, ← hcount, hinput, List.append_nil, bits]
  have hblocks : blocks 512 (pad (bits message)) = bs.map bits := by
    rw [hpad]
    exact blocks_flatMap (fun b => bitsOf_length b) (by decide) (by decide) hbs
  rw [init_state, foldl_transform bs hbs] at hstate
  obtain ⟨hlength, hdigest⟩ := digest_bits ((bs.map bits).foldl compress initial)
  refine ⟨_, ?_, hlength, ?_⟩
  · rw [final, hfinal]
    simp only [Option.bind_eq_bind, Option.bind_some, put_eq hroom, hstate]
    rfl
  · rw [hdigest, sha256, hblocks]

/-- Whatever the message and however it is cut, the digest is its SHA-256. -/
theorem digest_eq_sha256 (chunks : List (List Byte)) :
    ∃ d, digest chunks = some d ∧ d.length = 32 ∧ bits d = sha256 (bits chunks.flatten) := by
  obtain ⟨sha, hrun, hcarries, hcount⟩ := updates_carry chunks init_carries rfl
  rw [List.nil_append] at hcarries hcount
  obtain ⟨d, hfinal, hdigest⟩ := final_spec hcarries hcount
  exact ⟨d, by rw [digest, hrun]; exact hfinal, hdigest⟩

end Asm2Runtime.CaptureSha
