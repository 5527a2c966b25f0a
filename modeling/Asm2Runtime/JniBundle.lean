import Asm2Runtime.JniArray
import Asm2Runtime.KeyedChain

/-!
# Bundles of the JNI bridge

A Bundle is an object handle with a chain of entries. The host works on it with the
functions `asm2_jni_bundle_put_*` and `asm2_jni_bundle_get_*`, the guest with the methods of
`android/os/Bundle` in `asm2_default_method`. An entry of a chain is named by its index.
-/

namespace Asm2Runtime.Jni

open JniUtf BlockAccess

section Values

/-! The members of `asm2_jni_value`; a member is set in a value of zeros. -/

def JniValue.z (value : JniValue) : BitVec 8 := value.setWidth 8
def JniValue.i (value : JniValue) : BitVec 32 := value.setWidth 32
def JniValue.j (value : JniValue) : BitVec 64 := value
def JniValue.l (value : JniValue) : Pointer := value.setWidth 32

def zeroValue : JniValue := 0
def JniValue.ofZ (z : BitVec 8) : JniValue := z.setWidth 64
def JniValue.ofI (i : BitVec 32) : JniValue := i.setWidth 64
def JniValue.ofJ (j : BitVec 64) : JniValue := j
def JniValue.ofL (l : Pointer) : JniValue := l.setWidth 64

end Values

section Chain

def bundleName : CString := literal "android/os/Bundle"

/-- `asm2_is_bundle` of an allocated handle. -/
def isBundle (item : Handle) : Bool :=
  item.kind = .object ∧ textEqual item.className (some bundleName)

/-- `asm2_bundle_find_locked` -/
def bundleFind (bundle : Option Handle) (key : Option CString) : Option Nat :=
  match bundle, key with
  | some bundle, some key =>
    if isBundle bundle then bundle.bundleEntries.findIdx? fun entry => entry.key = key else none
  | _, _ => none

/-- A new entry at the head of the chain. -/
def bundleInsert (bundle : Pointer) (key : CString) (t : Table) : Table :=
  let entry : BundleEntry := { key, kind := .boolean, value := zeroValue }
  let t := modifyHandle bundle (fun item =>
    { item with bundleEntries := entry :: item.bundleEntries }) t
  { t with stats := { t.stats with bundleEntries := t.stats.bundleEntries + 1 } }

/-- The stores to the entry found or inserted. -/
def bundleStore (bundle : Pointer) (index : Nat) (kind : BundleValueKind) (value : JniValue) :
    Table → Table :=
  modifyHandle bundle fun item =>
    { item with
      bundleEntries := item.bundleEntries.modify index fun entry => { entry with kind, value } }

/-- `asm2_bundle_set` -/
def bundleSet (bundle : Pointer) (key : Option CString) (kind : BundleValueKind)
    (value : JniValue) (t : Table) : Bool × Table :=
  match key with
  | none => (false, t)
  | some key =>
    if key.bytes = [] then (false, t)
    else
      match (findHandle t bundle).bind t.heap with
      | none => (false, t)
      | some item =>
        if isBundle item then
          match bundleFind (some item) (some key) with
          | some index => (true, bundleStore bundle index kind value t)
          | none => (true, bundleStore bundle 0 kind value (bundleInsert bundle key t))
        else (false, t)

/-- `asm2_bundle_get` -/
def bundleGet (bundle : Pointer) (key : Option CString) (t : Table) :
    Option (BundleValueKind × JniValue) := do
  let item ← (findHandle t bundle).bind t.heap
  let index ← bundleFind (some item) key
  let entry ← item.bundleEntries[index]?
  return (entry.kind, entry.value)

/-- The loop of `asm2_bundle_clear`, on the counter of the entries. -/
def clearLoop : List BundleEntry → Nat → Nat
  | [], count => count
  | _ :: entries, count => clearLoop entries (if count ≠ 0 then count - 1 else count)

/-- `asm2_bundle_clear` -/
def bundleClear (bundle : Pointer) (t : Table) : Table :=
  match (findHandle t bundle).bind t.heap with
  | none => t
  | some item =>
    if isBundle item then
      let t := modifyHandle bundle (fun item => { item with bundleEntries := [] }) t
      { t with
        stats :=
          { t.stats with bundleEntries := clearLoop item.bundleEntries t.stats.bundleEntries } }
    else t

end Chain

section Host

/-- `asm2_new_object_handle` -/
def newObjectHandle (item : Pointer) (className : Option CString) (t : Table) : Table :=
  allocateHandle item .object (some (classOrObject className)) t

/-- `asm2_jni_bundle` -/
def newBundle (item : Pointer) : Table → Table := newObjectHandle item (some bundleName)

/-- `asm2_jni_string_chars` -/
def stringChars (t : Table) (string : Pointer) : Option CString :=
  (handleAt t string).bind fun item => if item.kind = .string then item.text else none

def bundlePutBoolean (bundle : Pointer) (key : Option CString) (value : BitVec 8) :
    Table → Bool × Table :=
  bundleSet bundle key .boolean (.ofZ (if value ≠ 0 then 1 else 0))

def bundlePutInt (bundle : Pointer) (key : Option CString) (value : BitVec 32) :
    Table → Bool × Table :=
  bundleSet bundle key .int (.ofI value)

def bundlePutLong (bundle : Pointer) (key : Option CString) (value : BitVec 64) :
    Table → Bool × Table :=
  bundleSet bundle key .long (.ofJ value)

/-- `item` is for the handle of the string. -/
def bundlePutString (item bundle : Pointer) (key value : Option CString) (t : Table) :
    Bool × Table :=
  let (l, t) :=
    match value with
    | some value => internString item (some value) t
    | none => (0, t)
  bundleSet bundle key .object (.ofL l) t

/-- `if (bytes && count) memcpy(data, bytes, count)`; `bytes` is the memory at the caller's
pointer. -/
def copyBytes (bytes : Option (Nat → Byte)) (count : Nat) (data : Option (List Byte)) :
    Option (Option (List Byte)) :=
  match bytes with
  | some bytes => writeBlock data 0 ((List.range count).map bytes)
  | none => some data

def bundlePutByteArray (item outOfMemory bundle : Pointer) (key : Option CString)
    (bytes : Option (Nat → Byte)) (count : BitVec 32) (allocated : Bool) (e : Env) :
    Option (Bool × Env) :=
  let e := newArray item outOfMemory (literal "[B") count 1 allocated e
  let data := (e.table.heap item).bind Handle.data
  if count ≠ 0 ∧ data = none then some (false, e)
  else do
    let data ← copyBytes bytes count.toNat data
    let e := storeData item data e
    let (ok, table) := bundleSet bundle key .object (.ofL item) e.table
    return (ok, { e with table })

/-! The getters return `none` where the functions return 0 or a null pointer; `out` says
whether the caller's pointer is set. -/

def bundleGetKind (bundle : Pointer) (key : Option CString) (kind : BundleValueKind) (out : Bool)
    (t : Table) : Option JniValue :=
  if out then
    match bundleGet bundle key t with
    | some (found, stored) => if found = kind then some stored else none
    | none => none
  else none

def bundleGetBoolean (bundle : Pointer) (key : Option CString) (out : Bool) (t : Table) :
    Option (BitVec 8) :=
  (bundleGetKind bundle key .boolean out t).map fun stored => if stored.z ≠ 0 then 1 else 0

def bundleGetInt (bundle : Pointer) (key : Option CString) (out : Bool) (t : Table) :
    Option (BitVec 32) :=
  (bundleGetKind bundle key .int out t).map JniValue.i

def bundleGetLong (bundle : Pointer) (key : Option CString) (out : Bool) (t : Table) :
    Option (BitVec 64) :=
  (bundleGetKind bundle key .long out t).map JniValue.j

def bundleGetString (bundle : Pointer) (key : Option CString) (t : Table) : Option CString :=
  (bundleGetKind bundle key .object true t).bind fun stored => stringChars t stored.l

end Host

section Guest

/-- An argument as the guest passes it. -/
inductive Argument where
  | boolean (z : BitVec 8)
  | int (i : BitVec 32)
  | long (j : BitVec 64)
  | object (l : Pointer)
  deriving DecidableEq

/-- `ap` and `args` of `asm2_default_method`. -/
inductive Arguments where
  | none
  | list (ap : List Argument)
  | array (args : Nat → JniValue)

/-! `va_arg` for the three types that are read; a boolean has been promoted to an `int`, and
any other type of argument is undefined behaviour. -/

def vaPointer : List Argument → Option (Pointer × List Argument)
  | .object l :: ap => some (l, ap)
  | _ => none

def vaInt : List Argument → Option (BitVec 32 × List Argument)
  | .int i :: ap => some (i, ap)
  | .boolean z :: ap => some (z.setWidth 32, ap)
  | _ => none

def vaLong : List Argument → Option (BitVec 64 × List Argument)
  | .long j :: ap => some (j, ap)
  | _ => none

def firstObject : Arguments → Option JniValue
  | .none => some zeroValue
  | .list ap => do
    let (l, _) ← vaPointer ap
    return .ofL l
  | .array args => some (args 0)

def secondInt : Arguments → Option JniValue
  | .none => some zeroValue
  | .list ap => do
    let (_, ap) ← vaPointer ap
    let (i, _) ← vaInt ap
    return .ofI i
  | .array args => some (.ofI (args 1).i)

def secondLong : Arguments → Option JniValue
  | .none => some zeroValue
  | .list ap => do
    let (_, ap) ← vaPointer ap
    let (j, _) ← vaLong ap
    return .ofJ j
  | .array args => some (.ofJ (args 1).j)

def secondObject : Arguments → Option JniValue
  | .none => some zeroValue
  | .list ap => do
    let (_, ap) ← vaPointer ap
    let (l, _) ← vaPointer ap
    return .ofL l
  | .array args => some (.ofL (args 1).l)

/-- `found && kind == expected ? stored : 0` -/
def storedOr (found : Option (BundleValueKind × JniValue)) (expected : BundleValueKind) : JniValue :=
  match found with
  | some (kind, stored) => if kind = expected then stored else zeroValue
  | none => zeroValue

/-- `asm2_default_method` for a method of `android/os/Bundle`. -/
def bundleMethod (name : CString) (receiver : Pointer) (arguments : Arguments) (t : Table) :
    Option (JniValue × Table) :=
  if name = literal "<init>" then some (zeroValue, t)
  else if name = literal "clear" then some (zeroValue, bundleClear receiver t)
  else do
    let first ← firstObject arguments
    let key := stringChars t first.l
    let found := bundleGet receiver key t
    if name = literal "putInt" ∨ name = literal "putBoolean" then
      let input ← secondInt arguments
      let kind := if name = literal "putInt" then BundleValueKind.int else .boolean
      return (zeroValue, (bundleSet receiver key kind input t).2)
    else if name = literal "putLong" then
      let input ← secondLong arguments
      return (zeroValue, (bundleSet receiver key .long input t).2)
    else if name = literal "putString" ∨ name = literal "putByteArray" then
      let input ← secondObject arguments
      return (zeroValue, (bundleSet receiver key .object input t).2)
    else if name = literal "getInt" then return (.ofI (storedOr found .int).i, t)
    else if name = literal "getBoolean" then return (.ofZ (storedOr found .boolean).z, t)
    else if name = literal "getLong" then return (.ofJ (storedOr found .long).j, t)
    else if name = literal "getString" ∨ name = literal "getByteArray" then
      return (.ofL (storedOr found .object).l, t)
    else if name = literal "containsKey" then
      return (.ofZ (if found.isSome then 1 else 0), t)
    else return (zeroValue, t)

end Guest

end Asm2Runtime.Jni
