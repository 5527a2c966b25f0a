import Asm2Runtime.BlockAccess
import Asm2Runtime.JniStrings

/-!
# The block of the UTF-8 conversion

`asm2_utf16_to_utf8` of jni_bridge.c with the block that it allocates, `size_t` being 32 bits
wide. A write outside the block is the result `none`.
-/

namespace Asm2Runtime.JniUtf.Block

open BlockAccess

/-- A block of the size that was asked for, or no block. What it contains is not known. -/
structure Malloc where
  allocate : BitVec 32 → Option (List Byte)
  sized : ∀ {size block}, allocate size = some block → block.length = size.toNat

/-- The size that is asked for, `length * 4 + 1`. -/
def blockSize (length : BitVec 32) : BitVec 32 := length * 4 + 1

/-- The block and the variable `offset`. -/
structure Output where
  block : List Byte
  offset : BitVec 32
  deriving DecidableEq

/-- `output[offset++] = byte` -/
def put (output : Output) (byte : Byte) : Option Output :=
  if output.offset.toNat < output.block.length then
    some ⟨output.block.set output.offset.toNat byte, output.offset + 1⟩
  else none

/-- The writes for one code point. -/
def putCodepoint (output : Output) (codepoint : Nat) : Option Output :=
  (encodeCodepoint codepoint).foldlM put output

/-- The loop of `asm2_utf16_to_utf8`. -/
def convert : List Jchar → Output → Option Output
  | [], output => some output
  | [unit], output => putCodepoint output unit.toNat
  | unit :: next :: rest, output =>
    if 0xd800 ≤ unit.toNat ∧ unit.toNat ≤ 0xdbff ∧ 0xdc00 ≤ next.toNat ∧ next.toNat ≤ 0xdfff then
      (putCodepoint output
        (0x10000 + (unit.toNat - 0xd800) <<< 10 + (next.toNat - 0xdc00))).bind (convert rest)
    else (putCodepoint output unit.toNat).bind (convert (next :: rest))

/-- `asm2_utf16_to_utf8` on the units at the caller's pointer; the pointer that it returns is
null or points to the block. -/
def utf16ToUtf8 (malloc : Malloc) (unicode : Option (List Jchar)) (length : BitVec 32) :
    Option (Option (List Byte)) :=
  if unicode.isNone ∧ length ≠ 0 then some none
  else
    match malloc.allocate (blockSize length) with
    | none => some none
    | some block =>
      (convert ((unicode.getD []).take length.toNat) ⟨block, 0⟩).bind fun output =>
        (put output 0).map fun output => some output.block

section Writes

variable {block : List Byte} {offset : Nat}

theorem overwrite_set (byte : Byte) (values : List Byte) (h : offset < block.length) :
    overwrite (block.set offset byte) (offset + 1) values =
      overwrite block offset (byte :: values) := by
  have hset : (block.set offset byte).take (offset + 1) = block.take offset ++ [byte] := by
    rw [List.take_set, List.take_succ_eq_append_getElem h, List.set_append_right _ _ (by simp),
      List.length_take, Nat.min_eq_left h.le, Nat.sub_self]
    rfl
  have hrest : offset + (byte :: values).length = offset + 1 + values.length := by
    rw [List.length_cons]
    omega
  rw [overwrite, overwrite, hset, hrest, List.drop_set_of_lt (by omega), List.append_assoc,
    List.append_assoc, List.append_assoc]
  rfl

theorem offset_toNat (hblock : block.length < 2 ^ 32) (h : offset ≤ block.length) :
    (BitVec.ofNat 32 offset).toNat = offset := by
  rw [BitVec.toNat_ofNat]
  exact Nat.mod_eq_of_lt (Nat.lt_of_le_of_lt h hblock)

/-- Bytes are written as long as there is room for all of them. -/
theorem foldlM_put (values : List Byte) (hblock : block.length < 2 ^ 32)
    (h : offset ≤ block.length) :
    values.foldlM put ⟨block, BitVec.ofNat 32 offset⟩ =
      if offset + values.length ≤ block.length then
        some ⟨overwrite block offset values, BitVec.ofNat 32 (offset + values.length)⟩
      else none := by
  induction values generalizing block offset with
  | nil => simp [overwrite, h]
  | cons byte values ih =>
    have hnat := offset_toNat hblock h
    have hnext : BitVec.ofNat 32 offset + 1 = BitVec.ofNat 32 (offset + 1) :=
      (BitVec.ofNat_add offset 1).symm
    rw [List.foldlM_cons, put, hnat]
    by_cases hroom : offset < block.length
    · rw [if_pos hroom, Option.bind_eq_bind, Option.bind_some, hnext,
        ih (by rwa [List.length_set]) (by rwa [List.length_set]), List.length_set,
        overwrite_set byte values hroom, List.length_cons, Nat.add_right_comm, Nat.add_assoc]
    · rw [if_neg hroom, if_neg (by rw [List.length_cons]; omega)]
      rfl

/-- The loop writes the bytes of the encoding, one after the other. -/
theorem convert_eq (units : List Jchar) (output : Output) :
    convert units output = (encodeUtf16 units).foldlM put output := by
  induction units using encodeUtf16.induct generalizing output with
  | case1 => rfl
  | case2 unit => rfl
  | case3 unit next rest hpair ih =>
    rw [convert, if_pos hpair, encodeUtf16, if_pos hpair, List.foldlM_append]
    exact congrArg _ (funext ih)
  | case4 unit next rest hpair ih =>
    rw [convert, if_neg hpair, encodeUtf16, if_neg hpair, List.foldlM_append]
    exact congrArg _ (funext ih)

end Writes

section Sizes

theorem blockSize_toNat (n : Nat) : (blockSize (BitVec.ofNat 32 n)).toNat = (4 * n + 1) % 2 ^ 32 := by
  rw [blockSize, BitVec.toNat_add, BitVec.toNat_mul, BitVec.toNat_ofNat]
  change (n % 2 ^ 32 * 4 % 2 ^ 32 + 1) % 2 ^ 32 = _
  omega

theorem encodeCodepoint_pos (v : Nat) : 1 ≤ (encodeCodepoint v).length := by
  unfold encodeCodepoint
  split
  · exact Nat.le_refl 1
  · split
    · exact Nat.le_succ 1
    · split <;> simp

/-- Every unit gives at least one byte. -/
theorem length_le_encodeUtf16 (units : List Jchar) : units.length ≤ (encodeUtf16 units).length := by
  induction units using encodeUtf16.induct with
  | case1 => exact Nat.le_refl 0
  | case2 unit => exact encodeCodepoint_pos unit.toNat
  | case3 unit next rest hpair ih =>
    have hfour : ∀ v, 0x10000 ≤ v → (encodeCodepoint v).length = 4 := by
      intro v hv
      rw [encodeCodepoint, if_neg (by omega), if_neg (by omega), if_neg (by omega)]
      rfl
    rw [encodeUtf16, if_pos hpair, List.length_append, hfour _ (by omega)]
    simp only [List.length_cons]
    omega
  | case4 unit next rest hpair ih =>
    have hpos := encodeCodepoint_pos unit.toNat
    rw [encodeUtf16, if_neg hpair, List.length_append]
    simp only [List.length_cons] at ih ⊢
    omega

/-- The bytes that are written, with the terminator. -/
def written (units : List Jchar) : List Byte := encodeUtf16 units ++ [0]

theorem written_length (units : List Jchar) :
    units.length < (written units).length ∧ (written units).length ≤ 4 * units.length + 1 := by
  have hlow := length_le_encodeUtf16 units
  have hhigh := encodeUtf16_length units
  rw [written, List.length_append, List.length_singleton]
  omega

end Sizes

section Conversion

variable {units : List Jchar} {malloc : Malloc} {block : List Byte}

/-- A conversion into a block that has been allocated. -/
theorem utf16ToUtf8_eq (hn : units.length < 2 ^ 31)
    (hblock : malloc.allocate (blockSize (BitVec.ofNat 32 units.length)) = some block) :
    utf16ToUtf8 malloc (some units) (BitVec.ofNat 32 units.length) =
      if (written units).length ≤ block.length then
        some (some (overwrite block 0 (written units)))
      else none := by
  have hnat : (BitVec.ofNat 32 units.length).toNat = units.length := by
    rw [BitVec.toNat_ofNat]
    omega
  have hsmall : block.length < 2 ^ 32 := by
    rw [malloc.sized hblock]
    exact BitVec.isLt _
  have hwrites := foldlM_put (written units) hsmall (Nat.zero_le block.length)
  rw [written, List.foldlM_append, ← convert_eq, Nat.zero_add, ← written] at hwrites
  simp only [List.foldlM_cons, List.foldlM_nil, bind_pure, Option.bind_eq_bind] at hwrites
  rw [utf16ToUtf8, if_neg (by simp), hblock, hnat, Option.getD_some, List.take_length]
  have hresult := congrArg (Option.map fun output : Output => some output.block) hwrites
  rw [Option.map_bind] at hresult
  refine hresult.trans ?_
  split <;> rfl

/-- The size does not wrap, and every write is inside a block of that size. -/
def StaysInside (units : List Jchar) : Prop :=
  (blockSize (BitVec.ofNat 32 units.length)).toNat = 4 * units.length + 1 ∧
    (written units).length ≤ (blockSize (BitVec.ofNat 32 units.length)).toNat ∧
    ∀ malloc : Malloc,
      utf16ToUtf8 malloc (some units) (BitVec.ofNat 32 units.length) ≠ none

/-- A block of zeros of any size. -/
def zeros : Malloc where
  allocate size := some (List.replicate size.toNat 0)
  sized h := by
    obtain rfl := Option.some.inj h
    exact List.length_replicate

theorem staysInside_of_room (hn : units.length < 2 ^ 31)
    (hsize : (blockSize (BitVec.ofNat 32 units.length)).toNat = 4 * units.length + 1) :
    StaysInside units := by
  have hfits : (written units).length ≤ (blockSize (BitVec.ofNat 32 units.length)).toNat := by
    rw [hsize]
    exact (written_length units).2
  refine ⟨hsize, hfits, fun malloc hout => ?_⟩
  cases hblock : malloc.allocate (blockSize (BitVec.ofNat 32 units.length)) with
  | none =>
    rw [utf16ToUtf8, if_neg (by simp), hblock] at hout
    cases hout
  | some block =>
    rw [utf16ToUtf8_eq hn hblock, malloc.sized hblock, if_pos hfits] at hout
    cases hout

/-- The conversion stays inside its block exactly for fewer than 2^30 units. -/
theorem staysInside_iff (units : List Jchar) (hn : units.length < 2 ^ 31) :
    StaysInside units ↔ units.length < 2 ^ 30 := by
  have hsize := blockSize_toNat units.length
  constructor
  · intro h
    have hexact := h.1
    omega
  · intro hsmall
    exact staysInside_of_room hn (by omega)

theorem staysInside_surrogate :
    StaysInside [0x41, 0xd83d, 0xde00, 0xd800] ↔ 4 < 2 ^ 30 :=
  staysInside_iff [0x41, 0xd83d, 0xde00, 0xd800] (by decide)

/-- From 2^30 units on, up to a third of the address space, every conversion that gets a block
writes past it. -/
theorem utf16ToUtf8_overruns (hlow : 2 ^ 30 ≤ units.length) (hhigh : 3 * units.length < 2 ^ 32)
    (hblock : malloc.allocate (blockSize (BitVec.ofNat 32 units.length)) = some block) :
    utf16ToUtf8 malloc (some units) (BitVec.ofNat 32 units.length) = none := by
  have hsize := malloc.sized hblock
  rw [blockSize_toNat] at hsize
  have hbytes := (written_length units).1
  rw [utf16ToUtf8_eq (by omega) hblock, if_neg (by omega)]

/-- For an array of 2^30 letters one byte is allocated, and the second write is past it. -/
theorem letters_overrun :
    ¬ StaysInside (List.replicate (2 ^ 30) 0x41) ∧
      (blockSize (BitVec.ofNat 32 (2 ^ 30))).toNat = 1 ∧
      utf16ToUtf8 zeros (some (List.replicate (2 ^ 30) 0x41)) (BitVec.ofNat 32 (2 ^ 30)) = none := by
  have hlength : (List.replicate (2 ^ 30) (0x41 : Jchar)).length = 2 ^ 30 := List.length_replicate
  have hout : utf16ToUtf8 zeros (some (List.replicate (2 ^ 30) 0x41)) _ = none :=
    utf16ToUtf8_overruns hlength.ge (by rw [hlength]; decide) rfl
  rw [hlength] at hout
  refine ⟨fun h => h.2.2 zeros ?_, by decide, hout⟩
  rw [hlength]
  exact hout

end Conversion

end Asm2Runtime.JniUtf.Block
