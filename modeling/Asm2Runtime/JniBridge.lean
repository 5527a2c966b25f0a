import Asm2Runtime.JniBundle
import Asm2Runtime.JniIntern

/-!
# Runs of the JNI bridge

The calls of the host and of the guest that make, change and read interned handles,
strings, arrays and Bundles, on any threads and in any order. A call of the guest's method
passes its arguments by a list or by an array. What the calls on Bundles ask for is
recorded with what they return.
-/

namespace Asm2Runtime.Jni

open JniUtf BlockAccess

section Strings

/-- `asm2_new_string`; `unicode` is the memory at the caller's pointer. A text longer than the
block of `asm2_utf16_to_utf8` is undefined behaviour. -/
def newString (item classItem throwable : Pointer) (unicode : Option (Nat → Jchar))
    (length : BitVec 32) (e : Env) : Option (Pointer × Env) :=
  if length.slt 0 ∨ (unicode.isNone ∧ length ≠ 0) then
    some (0, throwClass classItem throwable (literal "java/lang/IllegalArgumentException")
      (literal "invalid NewString input") e)
  else
    let units := (List.range length.toNat).map (unicode.getD fun _ => 0)
    if (encodeUtf16 units).length + 1 ≤ (length * 4 + 1).toNat then
      let (string, table) := internString item (some (utf16ToUtf8 units)) e.table
      some (string, { e with table })
    else none

/-- `asm2_get_string_length` -/
def getStringLength (string : Pointer) (t : Table) : BitVec 32 :=
  match handleAt t string with
  | some item =>
    if item.kind = .string then BitVec.ofNat 32 (item.utf16.getD []).length else 0
  | none => 0

/-- `asm2_get_string_chars` -/
def getStringChars (string : Pointer) (t : Table) : Option (List Jchar) :=
  match handleAt t string with
  | some item => if item.kind = .string then item.utf16 else none
  | none => none

end Strings

section Calls

/-- The value of an entry, as the side that reads it sees it. -/
inductive Content where
  | boolean (b : Bool)
  | int (i : BitVec 32)
  | long (j : BitVec 64)
  | object (l : Pointer)
  deriving DecidableEq

def Content.of (kind : BundleValueKind) (value : JniValue) : Content :=
  match kind with
  | .boolean => .boolean (value.z ≠ 0)
  | .int => .int value.i
  | .long => .long value.j
  | .object => .object value.l

/-- The calls of the host on a Bundle, after the Bundle and the key. -/
inductive HostCall where
  | putBoolean (value : BitVec 8)
  | putInt (value : BitVec 32)
  | putLong (value : BitVec 64)
  | putString (item : Pointer) (value : Option CString)
  | putByteArray (item outOfMemory : Pointer) (bytes : Option (Nat → Byte)) (count : BitVec 32)
    (allocated : Bool)
  | getBoolean (out : Bool)
  | getInt (out : Bool)
  | getLong (out : Bool)
  | getString

/-- The methods that the guest calls on a Bundle, with their second argument. -/
inductive Method where
  | putInt (value : BitVec 32)
  | putLong (value : BitVec 64)
  | putBoolean (value : BitVec 8)
  | putString (value : Pointer)
  | putByteArray (value : Pointer)
  | getInt | getLong | getBoolean | getString | getByteArray | containsKey | clear
  deriving DecidableEq

def Method.name : Method → CString
  | .putInt _ => literal "putInt"
  | .putLong _ => literal "putLong"
  | .putBoolean _ => literal "putBoolean"
  | .putString _ => literal "putString"
  | .putByteArray _ => literal "putByteArray"
  | .getInt => literal "getInt"
  | .getLong => literal "getLong"
  | .getBoolean => literal "getBoolean"
  | .getString => literal "getString"
  | .getByteArray => literal "getByteArray"
  | .containsKey => literal "containsKey"
  | .clear => literal "clear"

/-- The arguments of a method, the key first. -/
def Method.arguments (key : Pointer) : Method → List Argument
  | .putInt value => [.object key, .int value]
  | .putLong value => [.object key, .long value]
  | .putBoolean value => [.object key, .boolean value]
  | .putString value | .putByteArray value => [.object key, .object value]
  | .clear => []
  | _ => [.object key]

/-- Setting a member leaves the other bytes of the value as they were. -/
def Argument.store (rest : JniValue) : Argument → JniValue
  | .boolean z => (rest.extractLsb' 8 56 ++ z : BitVec 64)
  | .int i => (rest.extractLsb' 32 32 ++ i : BitVec 64)
  | .long j => j
  | .object l => (rest.extractLsb' 32 32 ++ l : BitVec 64)

/-- How the guest passes arguments; an array has other contents around them. -/
inductive Convention where
  | list
  | array (rest : Nat → JniValue)

def Convention.pass (values : List Argument) : Convention → Arguments
  | .list => .list values
  | .array rest => .array fun i => (values[i]?.map (Argument.store (rest i))).getD (rest i)

/-- The result of a call. -/
inductive Reply where
  | done
  | pointer (p : Pointer)
  | accepted (ok : Bool)
  | content (found : Option Content)
  | text (chars : Option CString)
  | present (ok : Bool)
  | element (value : Option Pointer)
  | region (bytes : Option (List Byte))
  deriving DecidableEq

/-- What the guest reads in the result of a method. -/
def Method.reply (value : JniValue) : Method → Reply
  | .getInt => .content (some (.int value.i))
  | .getLong => .content (some (.long value.j))
  | .getBoolean => .content (some (.boolean (value.z ≠ 0)))
  | .getString | .getByteArray => .content (some (.object value.l))
  | .containsKey => .present (value.z ≠ 0)
  | _ => .done

inductive Operation where
  | intern (item : Pointer) (call : Call)
  | newString (item classItem throwable : Pointer) (unicode : Option (Nat → Jchar))
    (length : BitVec 32)
  | newBundle (item : Pointer)
  | host (bundle : Pointer) (key : Option CString) (call : HostCall)
  | guest (receiver key : Pointer) (method : Method) (convention : Convention)
  | newPrimitiveArray (type : ElementType) (item outOfMemory : Pointer) (length : BitVec 32)
    (allocated : Bool)
  | newObjectArray (item outOfMemory : Pointer) (length : BitVec 32) (classHandle initial : Pointer)
    (allocated : Bool)
  | getElement (classItem throwable array : Pointer) (index : BitVec 32)
  | setElement (classItem throwable array : Pointer) (index : BitVec 32) (value : Pointer)
  | getRegion (type : ElementType) (classItem throwable array : Pointer) (start length : BitVec 32)
    (output : Bool)
  | setRegion (type : ElementType) (classItem throwable array : Pointer) (start length : BitVec 32)
    (input : Option (Nat → Byte))

/-- The pointers that `calloc` returns for the handles of a call. -/
def HostCall.items : HostCall → List Pointer
  | .putString item _ => [item]
  | .putByteArray item outOfMemory _ _ _ => [item, outOfMemory]
  | _ => []

def Operation.items : Operation → List Pointer
  | .intern item _ | .newBundle item => [item]
  | .newString item classItem throwable _ _ => [item, classItem, throwable]
  | .host _ _ call => call.items
  | .newPrimitiveArray _ item outOfMemory _ _ | .newObjectArray item outOfMemory _ _ _ _ =>
    [item, outOfMemory]
  | .getElement classItem throwable _ _ | .setElement classItem throwable _ _ _ |
    .getRegion _ classItem throwable _ _ _ _ | .setRegion _ classItem throwable _ _ _ _ =>
    [classItem, throwable]
  | .guest _ _ _ _ => []

/-- A call that changes the table only. -/
def onTable (e : Env) (r : Bool × Table) : Option (Reply × Env) :=
  some (.accepted r.1, { e with table := r.2 })

def HostCall.perform (bundle : Pointer) (key : Option CString) (e : Env) :
    HostCall → Option (Reply × Env)
  | .putBoolean value => onTable e (bundlePutBoolean bundle key value e.table)
  | .putInt value => onTable e (bundlePutInt bundle key value e.table)
  | .putLong value => onTable e (bundlePutLong bundle key value e.table)
  | .putString item value => onTable e (bundlePutString item bundle key value e.table)
  | .putByteArray item outOfMemory bytes count allocated => do
    let (ok, e) ← bundlePutByteArray item outOfMemory bundle key bytes count allocated e
    return (.accepted ok, e)
  | .getBoolean out =>
    some (.content ((bundleGetBoolean bundle key out e.table).map fun z => .boolean (z ≠ 0)), e)
  | .getInt out => some (.content ((bundleGetInt bundle key out e.table).map .int), e)
  | .getLong out => some (.content ((bundleGetLong bundle key out e.table).map .long), e)
  | .getString => some (.text (bundleGetString bundle key e.table), e)

def Operation.perform (e : Env) : Operation → Option (Reply × Env)
  | .intern item call =>
    let (p, table) := (call.request e.table).answer item e.table
    some (.pointer p, { e with table })
  | .newString item classItem throwable unicode length => do
    let (p, e) ← Jni.newString item classItem throwable unicode length e
    return (.pointer p, e)
  | .newBundle item => some (.pointer item, { e with table := Jni.newBundle item e.table })
  | .host bundle key call => call.perform bundle key e
  | .guest receiver key method convention => do
    let (value, table) ←
      bundleMethod method.name receiver (convention.pass (method.arguments key)) e.table
    return (method.reply value, { e with table })
  | .newPrimitiveArray type item outOfMemory length allocated =>
    let (p, e) := Jni.newPrimitiveArray type item outOfMemory length allocated e
    some (.pointer p, e)
  | .newObjectArray item outOfMemory length classHandle initial allocated =>
    let (p, e) := Jni.newObjectArray item outOfMemory length classHandle initial allocated e
    some (.pointer p, e)
  | .getElement classItem throwable array index => do
    let (value, e) ← getObjectArrayElement classItem throwable array index e
    return (.element value, e)
  | .setElement classItem throwable array index value => do
    let (ok, e) ← setObjectArrayElement classItem throwable array index value e
    return (.accepted ok, e)
  | .getRegion type classItem throwable array start length output => do
    let (bytes, e) ← getArrayRegion type classItem throwable array start length output e
    return (.region bytes, e)
  | .setRegion type classItem throwable array start length input => do
    let (ok, e) ← setArrayRegion type classItem throwable array start length input e
    return (.accepted ok, e)

end Calls

section Maps

/-- What a Bundle holds. -/
abbrev BundleMap := CString → Option Content

/-- The Bundles, by their pointers. -/
abbrev Bundles := Pointer → Option BundleMap

/-- A call on a Bundle, whichever side makes it. -/
inductive BundleCall where
  | create (bundle : Pointer)
  | put (bundle : Pointer) (key : Option CString) (content : Content)
  | get (bundle : Pointer) (key : Option CString) (kind : BundleValueKind)
  | contains (bundle : Pointer) (key : Option CString)
  | clear (bundle : Pointer)

inductive Answer where
  | done
  | accepted (ok : Bool)
  | content (found : Option Content)
  | present (ok : Bool)

def Content.kind : Content → BundleValueKind
  | .boolean _ => .boolean
  | .int _ => .int
  | .long _ => .long
  | .object _ => .object

def Content.zero : BundleValueKind → Content
  | .boolean => .boolean false
  | .int => .int 0
  | .long => .long 0
  | .object => .object 0

/-- The entry of a key; a null key has none. -/
def Bundles.lookup (s : Bundles) (bundle : Pointer) (key : Option CString) : Option Content :=
  (s bundle).bind fun m => key.bind m

/-- The call puts something: into a Bundle, under a key that is not empty. -/
def Bundles.Takes (s : Bundles) (bundle : Pointer) (key : Option CString) : Prop :=
  (s bundle).isSome ∧ ∃ k, key = some k ∧ k.bytes ≠ []

instance (s : Bundles) (bundle : Pointer) (key : Option CString) :
    Decidable (s.Takes bundle key) :=
  decidable_of_iff ((s bundle).isSome ∧ (key.map fun k => decide (k.bytes ≠ [])).getD false) (by
    unfold Bundles.Takes
    cases key <;> simp)

/-- The maps after the call: one map is changed, at one key or as a whole. -/
def BundleCall.apply (s : Bundles) : BundleCall → Bundles
  | .create bundle => Function.update s bundle (some fun _ => none)
  | .put bundle key content =>
    match s bundle, key with
    | some m, some k =>
      if k.bytes = [] then s else Function.update s bundle (some (Function.update m k (some content)))
    | _, _ => s
  | .clear bundle =>
    if (s bundle).isSome then Function.update s bundle (some fun _ => none) else s
  | .get _ _ _ | .contains _ _ => s

def BundleCall.answer (s : Bundles) : BundleCall → Answer
  | .create _ | .clear _ => .done
  | .put bundle key _ => .accepted (decide (s.Takes bundle key))
  | .get bundle key kind =>
    .content ((s.lookup bundle key).filter fun content => content.kind = kind)
  | .contains bundle key => .present (s.lookup bundle key).isSome

/-- The reference that the string of a put gets. -/
def stringReference (item : Pointer) (value : Option CString) (t : Table) : Pointer :=
  match value with
  | some value => (internString item (some value) t).1
  | none => 0

def HostCall.bundleCall (bundle : Pointer) (key : Option CString) (t : Table) :
    HostCall → Option BundleCall
  | .putBoolean value => some (.put bundle key (.boolean (value ≠ 0)))
  | .putInt value => some (.put bundle key (.int value))
  | .putLong value => some (.put bundle key (.long value))
  | .putString item value => some (.put bundle key (.object (stringReference item value t)))
  | .putByteArray item _ _ count allocated =>
    if count ≠ 0 ∧ arrayData count 1 allocated = none then none
    else some (.put bundle key (.object item))
  | .getBoolean _ => some (.get bundle key .boolean)
  | .getInt _ => some (.get bundle key .int)
  | .getLong _ => some (.get bundle key .long)
  | .getString => some (.get bundle key .object)

def Method.bundleCall (bundle : Pointer) (key : Option CString) : Method → BundleCall
  | .putInt value => .put bundle key (.int value)
  | .putLong value => .put bundle key (.long value)
  | .putBoolean value => .put bundle key (.boolean (value ≠ 0))
  | .putString value | .putByteArray value => .put bundle key (.object value)
  | .getInt => .get bundle key .int
  | .getLong => .get bundle key .long
  | .getBoolean => .get bundle key .boolean
  | .getString | .getByteArray => .get bundle key .object
  | .containsKey => .contains bundle key
  | .clear => .clear bundle

/-- A request that makes a new handle makes a Bundle if it is for an object of that class. -/
def Operation.bundleCall (t : Table) : Operation → Option BundleCall
  | .intern item call =>
    let r := call.request t
    if findIntern t r.bucket r.same = none ∧ isBundle r.handle then some (.create item) else none
  | .newBundle item => some (.create item)
  | .host bundle key call => call.bundleCall bundle key t
  | .guest receiver key method _ => some (method.bundleCall receiver (stringChars t key))
  | _ => none

/-- How the host gets an answer: a failure for what is not found, and the text of a reference. -/
def HostCall.shows (t : Table) : HostCall → Answer → Reply
  | .getBoolean out, .content found | .getInt out, .content found | .getLong out, .content found =>
    .content (if out then found else none)
  | .getString, .content found =>
    .text (found.bind fun content =>
      match content with
      | .object l => stringChars t l
      | _ => none)
  | _, .accepted ok => .accepted ok
  | _, _ => .done

/-- How the guest gets an answer: a zero for what is not found. -/
def Method.shows : Method → Answer → Reply
  | .getInt, .content found => .content (some (found.getD (.zero .int)))
  | .getLong, .content found => .content (some (found.getD (.zero .long)))
  | .getBoolean, .content found => .content (some (found.getD (.zero .boolean)))
  | .getString, .content found | .getByteArray, .content found =>
    .content (some (found.getD (.zero .object)))
  | .containsKey, .present ok => .present ok
  | _, _ => .done

def Operation.shows (t : Table) : Operation → Answer → Reply
  | .intern item call, _ => .pointer ((call.request t).answer item t).1
  | .newBundle item, _ => .pointer item
  | .host _ _ call, answer => call.shows t answer
  | .guest _ _ method _, answer => method.shows answer
  | _, _ => .done

end Maps

section Runs

/-- A call on a Bundle, with how its answer is shown and what was returned. -/
structure Observation where
  call : BundleCall
  shows : Answer → Reply
  reply : Reply

structure Bridge where
  table : Table
  /-- `asm2_pending_exception` of each thread -/
  pending : Thread → Pointer
  /-- The calls on Bundles so far. -/
  history : List Observation

def emptyBridge : Bridge := { table := emptyTable, pending := fun _ => 0, history := [] }

/-- The pointers are different, and none is a handle yet. -/
def Table.FreshAll (t : Table) (items : List Pointer) : Prop :=
  items.Nodup ∧ ∀ item ∈ items, t.Fresh item

instance (t : Table) (items : List Pointer) : Decidable (t.FreshAll items) :=
  decidable_of_iff (items.Nodup ∧ items.all fun item => decide (t.Fresh item))
    (and_congr_right fun _ => by simp [List.all_eq_true])

/-- A call on a thread; undefined behaviour ends the run. -/
def Bridge.step (s : Bridge) (event : Thread × Operation) : Option Bridge :=
  let (thread, operation) := event
  if s.table.FreshAll operation.items then do
    let (reply, e) ← operation.perform { table := s.table, pending := s.pending thread }
    let observed :=
      match operation.bundleCall s.table with
      | some call => [{ call, shows := operation.shows s.table, reply }]
      | none => []
    return {
      table := e.table
      pending := Function.update s.pending thread e.pending
      history := s.history ++ observed }
  else none

end Runs

end Asm2Runtime.Jni
