import Asm2Runtime.SharedFile

/-!
# The DataSharing store

The in-memory table, the file behind it and the operations on both. Each operation
is one section under the store's mutex. System calls and allocations answer from
oracles, so a failure can happen at every point where the code tests for one.
-/

namespace Asm2Runtime.SharedFile

abbrev Path := List UInt8

inductive Node where
  | regular (contents : List UInt8)
  | other
  deriving DecidableEq

abbrev Disk := Path → Option Node

def Node.view : Node → FileView
  | .regular contents => .regular contents
  | .other => ⟨false, 0, []⟩

structure AndroidState extends Store where
  sharedStoragePath : Option Path
  sharedStorageDirectory : Option Path
  resourceDirectory : Option CString

def AndroidState.withStore (state : AndroidState) (store : Store) : AndroidState :=
  { state with toStore := store }

structure World where
  state : AndroidState
  disk : Disk

section Text

def ascii (text : String) : List UInt8 := text.toList.map fun c => c.toNat.toUInt8

/-- `%u` -/
def decimal (n : Nat) : List UInt8 := (Nat.toDigits 10 n).map fun c => c.toNat.toUInt8

end Text

section AtomicWrite

structure WriteOracle where
  pid : Nat
  cannotAllocate : Bool
  /-- An attempt to create a temporary that fails other than by `EEXIST`. -/
  cannotOpen : Nat → Bool
  /-- How many bytes get out before a write fails, if it does. -/
  headerStops : Option Nat
  payloadStops : Option Nat
  cannotSync : Bool
  cannotClose : Bool
  cannotRename : Bool
  cannotUnlink : Bool

def writeAll (stops : Option Nat) (written data : List UInt8) : Bool × List UInt8 :=
  match stops with
  | none => (true, written ++ data)
  | some n => (false, written ++ data.take n)

def temporaryPath (path : Path) (pid attempt : Nat) : Path :=
  path ++ ascii ".tmp." ++ decimal pid ++ ascii "." ++ decimal attempt

/-- The loop over the names of the temporary, `O_CREAT | O_EXCL`. -/
def openTemporary (o : WriteOracle) (disk : Disk) (path : Path) : Nat → Nat → Option Path
  | 0, _ => none
  | remaining + 1, attempt =>
    let temporary := temporaryPath path o.pid attempt
    if temporary.length ≥ path.length + 64 then none
    else if o.cannotOpen attempt then none
    else if (disk temporary).isSome then openTemporary o disk path remaining (attempt + 1)
    else some temporary

/-- The two writes into the temporary: whether both succeeded, and what it holds then. -/
def writeContents (o : WriteOracle) (header payload : List UInt8) : Bool × List UInt8 :=
  let first := writeAll o.headerStops [] header
  if first.1 ∧ payload ≠ [] then writeAll o.payloadStops first.2 payload else first

def atomicWriteSharedFile (o : WriteOracle) (disk : Disk) (path : Path)
    (header payload : List UInt8) : Bool × Disk :=
  if path.length > 2 ^ 32 - 1 - 64 ∨ o.cannotAllocate then (false, disk)
  else match openTemporary o disk path 16 0 with
    | none => (false, disk)
    | some temporary =>
      let written := writeContents o header payload
      let disk := Function.update disk temporary (some (.regular written.2))
      if written.1 && !o.cannotSync && !o.cannotClose && !o.cannotRename then
        -- The rename: the store file is the finished temporary.
        (true, Function.update (Function.update disk path (disk temporary)) temporary none)
      else
        (false, if o.cannotUnlink then disk else Function.update disk temporary none)

structure PersistOracle where
  heap : Option (Nat → UInt8)
  write : WriteOracle

/-- Whether the write succeeded, and the disk after it. -/
def sharedValuesPersist (o : PersistOracle) (state : AndroidState) (disk : Disk) :
    Checked (Bool × Disk) :=
  match state.sharedStoragePath with
  | none => return (true, disk)
  | some path => do
    match ← sharedValuesImage state.toStore o.heap with
    | none => return (false, disk)
    | some (header, payload) => return atomicWriteSharedFile o.write disk path header payload

end AtomicWrite

section Operations

/-- What an operation returns, and what `shared_values_persist` returned if it got that far. -/
structure Outcome where
  result : Bool
  persisted : Option Bool
  deriving DecidableEq, Repr

def Outcome.refused : Outcome := ⟨false, none⟩

structure SetOracle where
  valueCopied : Bool
  keyCopied : Bool
  persist : PersistOracle

/-- The scan of `shared_value_index`; `none` is `SIZE_MAX`. -/
def sharedValueIndexFrom (store : Store) (key : CString) : Nat → Nat → Option Nat
  | 0, _ => none
  | remaining + 1, index =>
    if store.keys index = some key then some index
    else sharedValueIndexFrom store key remaining (index + 1)

def sharedValueIndex (store : Store) : Option CString → Option Nat
  | none => none
  | some key => sharedValueIndexFrom store key store.count 0

def Slots.setValue (s : Slots) (index : Nat) (value : Option CString) : Slots :=
  ⟨s.keys, Function.update s.values index value⟩

/-- The end of `shared_value_set_locked` for a new key. -/
def insertEntry (o : SetOracle) (w : World) (key value : CString) : Checked (Outcome × World) := do
  if w.state.count ≥ sharedMaxEntries then
    return (.refused, w)
  else if o.keyCopied = false then
    return (.refused, w)
  else
    let index := w.state.count
    let slots ← w.state.toSlots.write index (some key) (some value)
    let grown := w.state.withStore ⟨slots, w.state.count + 1⟩
    let (written, disk) ← sharedValuesPersist o.persist grown w.disk
    if written then
      return (⟨true, some true⟩, ⟨grown, disk⟩)
    else
      let slots ← grown.toSlots.write index none none
      return (⟨false, some false⟩, ⟨grown.withStore ⟨slots, grown.count - 1⟩, disk⟩)

/-- The end of `shared_value_set_locked` for a key that is there. -/
def replaceValue (o : SetOracle) (w : World) (index : Nat) (value : CString) :
    Checked (Outcome × World) := do
  let oldValue := w.state.values index
  let changed := w.state.withStore ⟨w.state.toSlots.setValue index (some value), w.state.count⟩
  let (written, disk) ← sharedValuesPersist o.persist changed w.disk
  if written then
    return (⟨true, some true⟩, ⟨changed, disk⟩)
  else
    let restored := changed.withStore ⟨changed.toSlots.setValue index oldValue, changed.count⟩
    return (⟨false, some false⟩, ⟨restored, disk⟩)

/-- What the entry at `index` takes up in the payload. -/
def storedSize (store : Store) : Option Nat → Checked Nat
  | none => return 0
  | some index => do
    let key ← deref (store.keys index)
    let value ← deref (store.values index)
    sizeAdd (← sizeAdd 8 key.length) value.length

def sharedValueSetLocked (o : SetOracle) (w : World) (key value : Option CString) :
    Checked (Outcome × World) :=
  match key with
  | none => return (.refused, w)
  | some key => do
    let value := value.getD .empty
    let keySize := key.nlength (sharedMaxKeySize + 1)
    let valueSize := value.nlength (sharedMaxValueSize + 1)
    if keySize = 0 ∨ keySize > sharedMaxKeySize ∨ valueSize > sharedMaxValueSize then
      return (.refused, w)
    else
      let index := sharedValueIndex w.state.toStore (some key)
      if index.bind w.state.values = some value then
        -- The value is there already: no write.
        return (⟨true, none⟩, w)
      else
        match ← sharedValuesEncodedSize w.state.toStore with
        | none => return (.refused, w)
        | some currentSize =>
          let rest ← sizeSub currentSize (← storedSize w.state.toStore index)
          let room ← sizeSub (← sizeSub (← sizeSub sharedMaxPayloadSize 8) keySize) valueSize
          if rest > room ∨ o.valueCopied = false then
            return (.refused, w)
          else
            match index with
            | none => insertEntry o w key value
            | some index => replaceValue o w index value

/-- The loop that closes the gap: the slots from `current` on move down by one. -/
def shiftDown (s : Slots) : Nat → Nat → Slots
  | 0, _ => s
  | remaining + 1, current =>
    shiftDown (s.set (current - 1) (s.keys current) (s.values current)) remaining (current + 1)

/-- The loop that opens it again, from the last slot down. -/
def shiftUp (s : Slots) : Nat → Nat → Slots
  | 0, _ => s
  | remaining + 1, current =>
    shiftUp (s.set current (s.keys (current - 1)) (s.values (current - 1))) remaining (current - 1)

def sharedValueDeleteLocked (o : PersistOracle) (w : World) (key : Option CString) :
    Checked (Outcome × World) :=
  match sharedValueIndex w.state.toStore key with
  | none => return (.refused, w)
  | some index => do
    let removedKey := w.state.keys index
    let removedValue := w.state.values index
    let closed := shiftDown w.state.toSlots (w.state.count - (index + 1)) (index + 1)
    let count := w.state.count - 1
    let shrunk := w.state.withStore ⟨closed.set count none none, count⟩
    let (written, disk) ← sharedValuesPersist o shrunk w.disk
    if written then
      return (⟨true, some true⟩, ⟨shrunk, disk⟩)
    else
      let opened := shiftUp shrunk.toSlots (count - index) count
      let restored :=
        shrunk.withStore ⟨opened.set index removedKey removedValue, shrunk.count + 1⟩
      return (⟨false, some false⟩, ⟨restored, disk⟩)

/-- The text of the string handed back. -/
def sharedValueGet (w : World) (key : Option CString) : CString :=
  ((sharedValueIndex w.state.toStore key).bind w.state.values).getD .empty

def sharedValueExists (w : World) (key : Option CString) : Bool :=
  (sharedValueIndex w.state.toStore key).isSome

/-- A copy of the stored value, or null. -/
def sharedValueCopy (copied : Bool) (w : World) (key : Option CString) : Option CString :=
  if copied then (sharedValueIndex w.state.toStore key).bind w.state.values else none

end Operations

end Asm2Runtime.SharedFile
