import Mathlib.Algebra.Group.Nat.Defs
import Mathlib.Data.List.TakeWhile
import Mathlib.Logic.Function.Basic
import Mathlib.Logic.Function.Iterate

/-!
# The DataSharing store file

The encoder and the loader of the `datasharing-v1.bin` file. Every `size_t`
addition and subtraction and every access to a buffer is checked: a result that
would wrap in 32 bits, an access outside the buffer or a null pointer is a
`Fault`. System calls and allocations answer from oracles.
-/

namespace Asm2Runtime.SharedFile

inductive Fault where
  | outOfBounds
  | wraps
  | nullPointer
  deriving DecidableEq, Repr

abbrev Checked := Except Fault

def sharedMaxEntries : Nat := 128
def sharedMaxKeySize : Nat := 1024
def sharedMaxValueSize : Nat := 256 * 1024
def sharedHeaderSize : Nat := 24
def sharedMaxPayloadSize : Nat :=
  sharedMaxEntries * (8 + sharedMaxKeySize + sharedMaxValueSize)

/-- `ASM2DS01` -/
def sharedMagic : List UInt8 := [0x41, 0x53, 0x4d, 0x32, 0x44, 0x53, 0x30, 0x31]

section Machine

def sizeAdd (a b : Nat) : Checked Nat :=
  if a + b < 2 ^ 32 then .ok (a + b) else .error .wraps

def sizeSub (a b : Nat) : Checked Nat :=
  if b ≤ a then .ok (a - b) else .error .wraps

def readSpan (buffer : List UInt8) (offset size : Nat) : Checked (List UInt8) :=
  if offset + size ≤ buffer.length then .ok ((buffer.drop offset).take size)
  else .error .outOfBounds

def writeSpan (buffer : List UInt8) (offset : Nat) (bytes : List UInt8) : Checked (List UInt8) :=
  if offset + bytes.length ≤ buffer.length then
    .ok (buffer.take offset ++ bytes ++ buffer.drop (offset + bytes.length))
  else .error .outOfBounds

def deref {α : Type} : Option α → Checked α
  | some a => .ok a
  | none => .error .nullPointer

/-- Null when the oracle refuses, else a block with whatever the heap held. -/
def malloc (heap : Option (Nat → UInt8)) (size : Nat) : Option (List UInt8) :=
  heap.map fun fill => (List.range size).map fill

end Machine

section Words

def putU32Le (value : UInt32) : List UInt8 :=
  [value.toUInt8, (value >>> 8).toUInt8, (value >>> 16).toUInt8, (value >>> 24).toUInt8]

def joinU32 (a b c d : UInt8) : UInt32 :=
  a.toUInt32 ||| b.toUInt32 <<< 8 ||| c.toUInt32 <<< 16 ||| d.toUInt32 <<< 24

def getU32Le (source : List UInt8) (offset : Nat) : Checked UInt32 := do
  match ← readSpan source offset 4 with
  | [a, b, c, d] => return joinU32 a b c d
  | _ => throw .outOfBounds

def crcBit (crc : UInt32) : UInt32 :=
  (crc >>> 1) ^^^ (0xedb88320 &&& -(crc &&& 1))

def sharedCrc32 (data : List UInt8) : UInt32 :=
  ~~~(data.foldl (fun crc byte => crcBit^[8] (crc ^^^ byte.toUInt32)) 0xffffffff)

-- The check value of CRC-32 on the digits 1 to 9.
example : sharedCrc32 [0x31, 0x32, 0x33, 0x34, 0x35, 0x36, 0x37, 0x38, 0x39] = 0xcbf43926 := by
  decide +kernel

end Words

section Strings

/-- What a `char *` points to, up to and without its terminator. -/
structure CString where
  bytes : List UInt8
  noNul : (0 : UInt8) ∉ bytes
  deriving DecidableEq

namespace CString

def length (s : CString) : Nat := s.bytes.length

/-- `strnlen` -/
def nlength (s : CString) (limit : Nat) : Nat := min s.length limit

/-- The string that starts a buffer. -/
def ofBuffer (buffer : List UInt8) : CString where
  bytes := buffer.takeWhile (· ≠ 0)
  noNul h := by
    have := List.mem_takeWhile_imp h
    simp at this

def empty : CString := ⟨[], by simp⟩

theorem ext_bytes {s t : CString} (h : s.bytes = t.bytes) : s = t := by
  cases s
  cases t
  cases h
  rfl

theorem ofBuffer_terminated (s : CString) : ofBuffer (s.bytes ++ [0]) = s := by
  apply ext_bytes
  have h : ∀ b ∈ s.bytes, (b ≠ 0) = true := by
    intro b hb
    have hne : b ≠ 0 := fun h0 => s.noNul (h0 ▸ hb)
    simp [hne]
  simp only [ofBuffer]
  rw [List.takeWhile_append_of_pos (by simpa using h)]
  simp

end CString

abbrev Entry := CString × CString

end Strings

section Arrays

/-- The two parallel pointer arrays of `ASM2_SHARED_MAX_ENTRIES` slots. -/
structure Slots where
  keys : Nat → Option CString
  values : Nat → Option CString

namespace Slots

def empty : Slots := ⟨fun _ => none, fun _ => none⟩

def set (s : Slots) (index : Nat) (key value : Option CString) : Slots :=
  ⟨Function.update s.keys index key, Function.update s.values index value⟩

def write (s : Slots) (index : Nat) (key value : Option CString) : Checked Slots :=
  if index < sharedMaxEntries then .ok (s.set index key value) else .error .outOfBounds

end Slots

def sharedValueArraysClear (s : Slots) : Nat → Slots
  | 0 => s
  | count + 1 => (sharedValueArraysClear s count).set count none none

structure Store extends Slots where
  count : Nat

end Arrays

section Encoder

/-- The loop of `shared_values_encoded_size`; `none` is the error return. -/
def encodedSizeFrom (store : Store) : Nat → Nat → Nat → Checked (Option Nat)
  | 0, _, total => return some total
  | remaining + 1, index, total =>
    match store.keys index, store.values index with
    | some key, some value => do
      let keySize := key.nlength (sharedMaxKeySize + 1)
      let valueSize := value.nlength (sharedMaxValueSize + 1)
      if keySize = 0 ∨ keySize > sharedMaxKeySize ∨ valueSize > sharedMaxValueSize then
        return none
      else
        let room ← sizeSub (← sizeSub (← sizeSub sharedMaxPayloadSize 8) keySize) valueSize
        if total > room then
          return none
        else
          let size ← sizeAdd (← sizeAdd 8 keySize) valueSize
          let total ← sizeAdd total size
          encodedSizeFrom store remaining (index + 1) total
    | _, _ => return none

def sharedValuesEncodedSize (store : Store) : Checked (Option Nat) :=
  if store.count > sharedMaxEntries then return none
  else encodedSizeFrom store store.count 0 0

/-- The copy loop of `shared_values_persist`. -/
def fillPayload (store : Store) : Nat → Nat → Nat → List UInt8 → Checked (List UInt8)
  | 0, _, _, payload => return payload
  | remaining + 1, index, offset, payload => do
    let key ← deref (store.keys index)
    let value ← deref (store.values index)
    let payload ← writeSpan payload offset (putU32Le (.ofNat key.length))
    let payload ← writeSpan payload (← sizeAdd offset 4) (putU32Le (.ofNat value.length))
    let offset ← sizeAdd offset 8
    let payload ← writeSpan payload offset key.bytes
    let offset ← sizeAdd offset key.length
    let payload ← writeSpan payload offset value.bytes
    let offset ← sizeAdd offset value.length
    fillPayload store remaining (index + 1) offset payload

def sharedHeader (count payloadSize : Nat) (payload : List UInt8) : List UInt8 :=
  sharedMagic ++ putU32Le 1 ++ putU32Le (.ofNat count) ++ putU32Le (.ofNat payloadSize) ++
    putU32Le (sharedCrc32 payload)

/-- `shared_values_persist` up to its call of `atomic_write_shared_file`: the header and the
payload it hands over, or nothing when it has already failed. -/
def sharedValuesImage (store : Store) (heap : Option (Nat → UInt8)) :
    Checked (Option (List UInt8 × List UInt8)) := do
  match ← sharedValuesEncodedSize store with
  | none => return none
  | some payloadSize =>
    match if payloadSize = 0 then some [] else malloc heap payloadSize with
    | none => return none
    | some payload =>
      let payload ← fillPayload store store.count 0 0 payload
      return some (sharedHeader store.count payloadSize payload, payload)

end Encoder

section Loader

/-- An open descriptor as `fstat` and `read` show it. -/
structure FileView where
  isRegular : Bool
  size : Nat
  contents : List UInt8

def FileView.regular (contents : List UInt8) : FileView := ⟨true, contents.length, contents⟩

structure LoadFaults where
  cannotOpen : Bool
  cannotStat : Bool
  cannotAllocate : Bool
  cannotRead : Bool
  cannotReadTrailing : Bool
  cannotClose : Bool
  /-- Whether the key and the value copy of an entry can be allocated. -/
  allocated : Nat → Bool × Bool

def LoadFaults.never : LoadFaults :=
  ⟨false, false, false, false, false, false, fun _ => (true, true)⟩

inductive LoadStatus where
  | ok
  | missing
  | corrupt
  | ioError
  deriving DecidableEq, Repr

structure LoadResult where
  status : LoadStatus
  slots : Slots
  count : Nat

/-- The checks on the two sizes of an entry whose texts start at `offset`. -/
def entryFits (payload : List UInt8) (payloadSize keySize valueSize offset : Nat) :
    Checked Bool := do
  if keySize = 0 ∨ keySize > sharedMaxKeySize ∨ valueSize > sharedMaxValueSize then
    return false
  else if keySize > (← sizeSub payloadSize offset) then
    return false
  else if valueSize > (← sizeSub (← sizeSub payloadSize offset) keySize) then
    return false
  else if 0 ∈ (← readSpan payload offset keySize) then
    return false
  else if 0 ∈ (← readSpan payload (← sizeAdd offset keySize) valueSize) then
    return false
  else
    return true

/-- One entry at `offset`: its two sizes and where its texts start, when they pass. -/
def entrySizes (payload : List UInt8) (payloadSize offset : Nat) :
    Checked (Option (Nat × Nat × Nat)) := do
  if (← sizeSub payloadSize offset) < 8 then
    return none
  else
    let keySize := (← getU32Le payload offset).toNat
    let valueSize := (← getU32Le payload (← sizeAdd offset 4)).toNat
    let offset ← sizeAdd offset 8
    if ← entryFits payload payloadSize keySize valueSize offset then
      return some (keySize, valueSize, offset)
    else
      return none

/-- Whether one of the first entries already has the key. -/
def keyLoaded (keys : Nat → Option CString) (key : CString) : Nat → Nat → Checked Bool
  | 0, _ => return false
  | remaining + 1, previous => do
    if (← deref (keys previous)) = key then return true
    else keyLoaded keys key remaining (previous + 1)

/-- The entry loop. A bail-out clears what was loaded so far. -/
def loadEntries (allocated : Nat → Bool × Bool) (payload : List UInt8) (payloadSize : Nat) :
    Nat → Nat → Nat → Slots → Checked LoadResult
  | 0, offset, loaded, slots =>
    if offset ≠ payloadSize then return ⟨.corrupt, sharedValueArraysClear slots loaded, 0⟩
    else return ⟨.ok, slots, loaded⟩
  | remaining + 1, offset, loaded, slots => do
    match ← entrySizes payload payloadSize offset with
    | none => return ⟨.corrupt, sharedValueArraysClear slots loaded, 0⟩
    | some (keySize, valueSize, offset) =>
      if allocated loaded ≠ (true, true) then
        let slots ← slots.write loaded none none
        return ⟨.ioError, sharedValueArraysClear slots loaded, 0⟩
      else
        let keyBytes ← readSpan payload offset keySize
        let offset ← sizeAdd offset keySize
        let valueBytes ← readSpan payload offset valueSize
        let offset ← sizeAdd offset valueSize
        let key := CString.ofBuffer (keyBytes ++ [0])
        let value := CString.ofBuffer (valueBytes ++ [0])
        let slots ← slots.write loaded (some key) (some value)
        if ← keyLoaded slots.keys key loaded 0 then
          let slots ← slots.write loaded none none
          return ⟨.corrupt, sharedValueArraysClear slots loaded, 0⟩
        else
          loadEntries allocated payload payloadSize remaining offset (loaded + 1) slots

/-- From the header checks on, once the whole file is in memory. -/
def loadContents (allocated : Nat → Bool × Bool) (contents : List UInt8) (fileSize : Nat)
    (slots : Slots) : Checked LoadResult := do
  let version ← getU32Le contents 8
  let count ← getU32Le contents 12
  let payloadSize ← getU32Le contents 16
  let expectedCrc ← getU32Le contents 20
  let magic ← readSpan contents 0 8
  if magic ≠ sharedMagic ∨ version ≠ 1 ∨ count.toNat > sharedMaxEntries then
    return ⟨.corrupt, slots, 0⟩
  else if payloadSize.toNat ≠ (← sizeSub fileSize sharedHeaderSize) ∨
      payloadSize.toNat > sharedMaxPayloadSize then
    return ⟨.corrupt, slots, 0⟩
  else
    let payload := contents.drop sharedHeaderSize
    if sharedCrc32 (← readSpan payload 0 payloadSize.toNat) ≠ expectedCrc then
      return ⟨.corrupt, slots, 0⟩
    else
      loadEntries allocated payload payloadSize.toNat count.toNat 0 0 slots

def sharedValuesLoadFile (faults : LoadFaults) (file : Option FileView) (slots : Slots) :
    Checked LoadResult :=
  if faults.cannotOpen then return ⟨.ioError, slots, 0⟩
  else match file with
    | none => return ⟨.missing, slots, 0⟩
    | some view =>
      if faults.cannotStat then return ⟨.ioError, slots, 0⟩
      else if view.isRegular = false ∨ view.size < sharedHeaderSize ∨
          view.size > sharedHeaderSize + sharedMaxPayloadSize then
        return ⟨.corrupt, slots, 0⟩
      else if faults.cannotAllocate then return ⟨.ioError, slots, 0⟩
      else if faults.cannotRead ∨ view.contents.length < view.size then
        return ⟨.ioError, slots, 0⟩
      else if faults.cannotReadTrailing then return ⟨.ioError, slots, 0⟩
      else if view.size < view.contents.length then return ⟨.corrupt, slots, 0⟩
      else if faults.cannotClose then return ⟨.ioError, slots, 0⟩
      else loadContents faults.allocated view.contents view.size slots

end Loader

end Asm2Runtime.SharedFile
