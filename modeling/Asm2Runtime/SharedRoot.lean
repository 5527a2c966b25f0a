import Asm2Runtime.SharedPreferences
import Asm2Runtime.Transition

/-!
# Opening a storage root, and runs of the store

`asm2_android_set_storage_root` loads the store file of a root, moves a corrupt one
out of the way and binds the store to it. After it the store sees calls in any
order.
-/

namespace Asm2Runtime.SharedFile

section Quarantine

/-- One attempt of `rename_no_replace`: whether `renameat2` is there, whether the `lstat` that
stands in for it fails other than by `ENOENT`, and whether the move fails for a reason other than
the destination. -/
structure MoveOracle where
  supported : Bool
  cannotStat : Bool
  cannotMove : Bool

inductive MoveResult where
  | moved
  | exists
  | failed
  deriving DecidableEq, Repr

/-- With `renameat2` or by `lstat` and `rename`, nothing is ever replaced. -/
def renameNoReplace (o : MoveOracle) (disk : Disk) (source destination : Path) :
    MoveResult × Disk :=
  if o.supported then
    if o.cannotMove then (.failed, disk)
    else if (disk destination).isSome then (.exists, disk)
    else (.moved, Function.update (Function.update disk destination (disk source)) source none)
  else if o.cannotStat then (.failed, disk)
  else if (disk destination).isSome then (.exists, disk)
  else if o.cannotMove then (.failed, disk)
  else (.moved, Function.update (Function.update disk destination (disk source)) source none)

structure QuarantineOracle where
  cannotAllocate : Bool
  seconds : Nat
  nanoseconds : Nat
  pid : Nat
  move : Nat → MoveOracle

def padded (width n : Nat) : List UInt8 :=
  List.replicate (width - (decimal n).length) 0x30 ++ decimal n

def quarantinePath (o : QuarantineOracle) (path : Path) (attempt : Nat) : Path :=
  path ++ ascii ".corrupt-" ++ decimal o.seconds ++ ascii "-" ++ padded 9 o.nanoseconds ++
    ascii "-" ++ decimal o.pid ++ ascii "-" ++ padded 2 attempt

def quarantineFrom (o : QuarantineOracle) (disk : Disk) (path : Path) : Nat → Nat → Bool × Disk
  | 0, _ => (false, disk)
  | remaining + 1, attempt =>
    let quarantine := quarantinePath o path attempt
    if quarantine.length ≥ path.length + 96 then (false, disk)
    else match renameNoReplace (o.move attempt) disk path quarantine with
      | (.moved, disk) => (true, disk)
      | (.exists, disk) => quarantineFrom o disk path remaining (attempt + 1)
      | (.failed, disk) => (false, disk)

def quarantineInvalidSharedStore (o : QuarantineOracle) (disk : Disk) (path : Path) :
    Bool × Disk :=
  if path.length > 2 ^ 32 - 1 - 96 ∨ o.cannotAllocate then (false, disk)
  else quarantineFrom o disk path 100 0

end Quarantine

section Root

def sharedDirectory : Path :=
  ascii "Android/data/com.gameloft.android.ANMP.GloftASHM/files/save"

def sharedFilename : Path := ascii "datasharing-v1.bin"

def joinStoragePath (allocated : Bool) (left right : Path) : Option Path :=
  if left = [] ∨ right = [] then none
  else
    let separator := if left.getLast? = some 0x2f then [] else [0x2f]
    if left.length > 2 ^ 32 - 1 - right.length - separator.length - 1 then none
    else if allocated then some (left ++ separator ++ right)
    else none

/-- The store file of a root. -/
def rootStorePath (root : Option Path) : Option Path :=
  root.bind fun root => (joinStoragePath true root sharedDirectory).bind fun directory =>
    joinStoragePath true directory sharedFilename

structure RootOracle where
  directoryJoined : Bool
  directoryMade : Bool
  pathJoined : Bool
  load : LoadFaults
  quarantine : QuarantineOracle
  installer : InstallerOracle

/-- The loop that moves the loaded pointers into the state. -/
def adoptLoaded (s loaded : Slots) : Nat → Slots
  | 0 => s
  | count + 1 => (adoptLoaded s loaded count).set count (loaded.keys count) (loaded.values count)

/-- The section that swaps the table and the paths. -/
def boundState (state : AndroidState) (path directory : Path) (loaded : LoadResult) :
    AndroidState :=
  { state with
    toSlots := adoptLoaded (sharedValueArraysClear state.toSlots state.count) loaded.slots
      loaded.count
    count := loaded.count
    sharedStoragePath := some path
    sharedStorageDirectory := some directory }

def bindStore (o : RootOracle) (w : World) (path directory : Path) (loaded : LoadResult) :
    Checked (Bool × World) := do
  let (seeded, w) ← ensureInstallerPreferences o.installer
    ⟨boundState w.state path directory loaded, w.disk⟩
  return (seeded.result, w)

/-- Whether the call returned 0, and the world after it. -/
def asm2AndroidSetStorageRoot (o : RootOracle) (w : World) (hostGamefilesRoot : Option Path) :
    Checked (Bool × World) :=
  match hostGamefilesRoot with
  | none => return (false, w)
  | some root =>
    if root = [] then return (false, w)
    else match joinStoragePath o.directoryJoined root sharedDirectory with
      | none => return (false, w)
      | some directory =>
        if o.directoryMade = false then return (false, w)
        else match joinStoragePath o.pathJoined directory sharedFilename with
          | none => return (false, w)
          | some path => do
            let loaded ← sharedValuesLoadFile o.load ((w.disk path).map Node.view) Slots.empty
            match loaded.status with
            | .ioError => return (false, w)
            | .corrupt =>
              match quarantineInvalidSharedStore o.quarantine w.disk path with
              | (false, disk) => return (false, ⟨w.state, disk⟩)
              | (true, disk) => bindStore o ⟨w.state, disk⟩ path directory loaded
            | _ => bindStore o w path directory loaded

/-- `asm2_android_state_init`, with whatever is on the disk. -/
def initialWorld (resourceDirectory : Option CString) (disk : Disk) : World :=
  ⟨{ toStore := ⟨Slots.empty, 0⟩, sharedStoragePath := none, sharedStorageDirectory := none,
     resourceDirectory := resourceDirectory }, disk⟩

end Root

section Runs

inductive Call where
  | set (o : SetOracle) (key value : Option CString)
  | delete (o : PersistOracle) (key : Option CString)
  | get (key : Option CString)
  | existsKey (key : Option CString)
  | preferenceGet (o : GetOracle) (bundle : Bundle)
  | preferenceSet (o : PreferenceSetOracle) (bundle : Bundle)
  /-- Something else on the system changes a file that is not the store file. -/
  | outside (path : Path) (node : Option Node)

inductive Reply where
  | done (outcome : Outcome)
  | text (value : CString)
  | found (value : Bool)
  | bundle (value : Bundle)
  | nothing

/-- Nothing but this code writes the store file. -/
def Call.Allowed (w : World) : Call → Prop
  | .outside path _ => w.state.sharedStoragePath ≠ some path
  | _ => True

instance (w : World) (c : Call) : Decidable (c.Allowed w) := by
  cases c <;> unfold Call.Allowed <;> infer_instance

def Call.apply (w : World) : Call → Checked (Reply × World)
  | .set o key value => do
    let (outcome, w) ← sharedValueSetLocked o w key value
    return (.done outcome, w)
  | .delete o key => do
    let (outcome, w) ← sharedValueDeleteLocked o w key
    return (.done outcome, w)
  | .get key => return (.text (sharedValueGet w key), w)
  | .existsKey key => return (.found (sharedValueExists w key), w)
  | .preferenceGet o bundle => return (.bundle (Asm2Runtime.SharedFile.preferenceGet o w bundle), w)
  | .preferenceSet o bundle => do
    let (outcome, w) ← Asm2Runtime.SharedFile.preferenceSet o w bundle
    return (.done outcome, w)
  | .outside path node => return (.nothing, ⟨w.state, Function.update w.disk path node⟩)

def callStep (w : World) (c : Call) : Option World :=
  if c.Allowed w then
    match c.apply w with
    | .ok r => some r.2
    | .error _ => none
  else none

inductive Event where
  | call (c : Call)
  | setStorageRoot (o : RootOracle) (root : Option Path)

def eventStep (w : World) : Event → Option World
  | .call c => callStep w c
  | .setStorageRoot o root =>
    match asm2AndroidSetStorageRoot o w root with
    | .ok r => some r.2
    | .error _ => none

end Runs

end Asm2Runtime.SharedFile
