import Asm2Runtime.BlockAccess
import Mathlib.Data.List.Basic

/-!
# The SHA-256 of the frame captures

`asm2_sha256_transform`, `asm2_sha256_init`, `asm2_sha256_update` and `asm2_sha256_final` of
capture_x86.c. A write outside the block is the result `none`.
-/

namespace Asm2Runtime.CaptureSha

open BlockAccess

abbrev Byte := BitVec 8
abbrev U32 := BitVec 32

def roundConstants : List U32 :=
  [0x428a2f98, 0x71374491, 0xb5c0fbcf, 0xe9b5dba5, 0x3956c25b, 0x59f111f1, 0x923f82a4, 0xab1c5ed5,
    0xd807aa98, 0x12835b01, 0x243185be, 0x550c7dc3, 0x72be5d74, 0x80deb1fe, 0x9bdc06a7, 0xc19bf174,
    0xe49b69c1, 0xefbe4786, 0x0fc19dc6, 0x240ca1cc, 0x2de92c6f, 0x4a7484aa, 0x5cb0a9dc, 0x76f988da,
    0x983e5152, 0xa831c66d, 0xb00327c8, 0xbf597fc7, 0xc6e00bf3, 0xd5a79147, 0x06ca6351, 0x14292967,
    0x27b70a85, 0x2e1b2138, 0x4d2c6dfc, 0x53380d13, 0x650a7354, 0x766a0abb, 0x81c2c92e, 0x92722c85,
    0xa2bfe8a1, 0xa81a664b, 0xc24b8b70, 0xc76c51a3, 0xd192e819, 0xd6990624, 0xf40e3585, 0x106aa070,
    0x19a4c116, 0x1e376c08, 0x2748774c, 0x34b0bcb5, 0x391c0cb3, 0x4ed8aa4a, 0x5b9cca4f, 0x682e6ff3,
    0x748f82ee, 0x78a5636f, 0x84c87814, 0x8cc70208, 0x90befffa, 0xa4506ceb, 0xbef9a3f7, 0xc67178f2]

structure Sha where
  state : Vector U32 8
  bitCount : BitVec 64
  block : List Byte
  blockSize : Nat

def rotateRight (value : U32) (count : Nat) : U32 := value >>> count ||| value <<< (32 - count)

/-! ## One block -/

/-- `words[index]` for the first sixteen indices. -/
def loadWord (block : List Byte) (index : Nat) : U32 :=
  let offset := index * 4
  (block.getD offset 0).setWidth 32 <<< 24 ||| (block.getD (offset + 1) 0).setWidth 32 <<< 16 |||
    (block.getD (offset + 2) 0).setWidth 32 <<< 8 ||| (block.getD (offset + 3) 0).setWidth 32

/-- `words[index]` for the other indices. The array is filled in order, as a list that grows. -/
def nextWord (words : List U32) (index : Nat) : List U32 :=
  let left := words.getD (index - 15) 0
  let right := words.getD (index - 2) 0
  let sigma0 := rotateRight left 7 ^^^ rotateRight left 18 ^^^ left >>> 3
  let sigma1 := rotateRight right 17 ^^^ rotateRight right 19 ^^^ right >>> 10
  words ++ [words.getD (index - 16) 0 + sigma0 + words.getD (index - 7) 0 + sigma1]

def messageWords (block : List Byte) : List U32 :=
  (List.range' 16 48).foldl nextWord ((List.range 16).map (loadWord block))

/-- The local variables `a` to `h`. -/
structure Locals where
  a : U32
  b : U32
  c : U32
  d : U32
  e : U32
  f : U32
  g : U32
  h : U32

def Locals.round (words : List U32) (v : Locals) (index : Nat) : Locals :=
  let sum1 := rotateRight v.e 6 ^^^ rotateRight v.e 11 ^^^ rotateRight v.e 25
  let choice := (v.e &&& v.f) ^^^ (~~~v.e &&& v.g)
  let temporary1 := v.h + sum1 + choice + roundConstants.getD index 0 + words.getD index 0
  let sum0 := rotateRight v.a 2 ^^^ rotateRight v.a 13 ^^^ rotateRight v.a 22
  let majority := (v.a &&& v.b) ^^^ (v.a &&& v.c) ^^^ (v.b &&& v.c)
  let temporary2 := sum0 + majority
  { a := temporary1 + temporary2, b := v.a, c := v.b, d := v.c,
    e := v.d + temporary1, f := v.e, g := v.f, h := v.g }

/-- `asm2_sha256_transform` on the `state` of the structure. -/
def transform (state : Vector U32 8) (block : List Byte) : Vector U32 8 :=
  let start : Locals :=
    { a := state[0], b := state[1], c := state[2], d := state[3],
      e := state[4], f := state[5], g := state[6], h := state[7] }
  let v := (List.range 64).foldl (Locals.round (messageWords block)) start
  #v[state[0] + v.a, state[1] + v.b, state[2] + v.c, state[3] + v.d,
    state[4] + v.e, state[5] + v.f, state[6] + v.g, state[7] + v.h]

/-! ## The stream -/

/-- The values written to `sha->block + offset`. -/
def put (block : List Byte) (offset : Nat) (values : List Byte) : Option (List Byte) :=
  if offset + values.length ≤ block.length then some (overwrite block offset values) else none

def init : Sha where
  state := #v[0x6a09e667, 0xbb67ae85, 0x3c6ef372, 0xa54ff53a,
    0x510e527f, 0x9b05688c, 0x1f83d9ab, 0x5be0cd19]
  bitCount := 0
  block := List.replicate 64 0
  blockSize := 0

/-- `if (sha->block_size == sizeof(sha->block))` with its body. -/
def flush (sha : Sha) : Sha :=
  if sha.blockSize = 64 then
    { sha with state := transform sha.state sha.block, blockSize := 0 }
  else sha

/-- The loop of `asm2_sha256_update`; `none` also if it goes round more often than allowed. -/
def absorb : Nat → Sha → List Byte → Option Sha
  | 0, _, _ => none
  | fuel + 1, sha, input =>
    if 0 < input.length then
      let available := 64 - sha.blockSize
      let amount := if input.length < available then input.length else available
      (put sha.block sha.blockSize (input.take amount)).bind fun block =>
        absorb fuel (flush { sha with block, blockSize := sha.blockSize + amount })
          (input.drop amount)
    else some sha

def update (sha : Sha) (data : List Byte) : Option Sha :=
  absorb (data.length + 1)
    { sha with bitCount := sha.bitCount + BitVec.ofNat 64 data.length * 8 } data

/-- The block that goes to the last transformation, and the state before it. -/
def finalBlock (sha : Sha) : Option (Vector U32 8 × List Byte) := do
  let block ← put sha.block sha.blockSize [0x80]
  let position := sha.blockSize + 1
  if 56 < position then
    let block ← put block position (List.replicate (64 - position) 0)
    let state := transform sha.state block
    let block ← put block 0 (List.replicate 56 0)
    return (state, block)
  else
    let block ← put block position (List.replicate (56 - position) 0)
    return (sha.state, block)

def countBytes (bitCount : BitVec 64) : List Byte :=
  (List.range 8).map fun index => (bitCount >>> (56 - index * 8)).setWidth 8

def wordBytes (word : U32) : List Byte :=
  [(word >>> 24).setWidth 8, (word >>> 16).setWidth 8, (word >>> 8).setWidth 8, word.setWidth 8]

def final (sha : Sha) : Option (List Byte) := do
  let (state, block) ← finalBlock sha
  let block ← put block 56 (countBytes sha.bitCount)
  return (transform state block).toList.flatMap wordBytes

/-- `init`, an `update` for every chunk, and `final`. -/
def digest (chunks : List (List Byte)) : Option (List Byte) :=
  (chunks.foldlM update init).bind final

example : (digest [[0x61], [], [0x62, 0x63]]).map (List.take 4) =
    some [0xba, 0x78, 0x16, 0xbf] := by
  decide +kernel

end Asm2Runtime.CaptureSha
