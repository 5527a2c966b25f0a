import Asm2Runtime.BlockAccess
import Asm2Runtime.JniHandles

/-!
# Arrays of the JNI bridge

`asm2_new_array`, the array constructors and the access to regions and elements in
jni_bridge.c. The handles that a function allocates are among its arguments; `allocated`
says whether `calloc` had memory for the contents. An access whose result is `none` is
undefined behaviour.
-/

namespace Asm2Runtime.Jni

open JniUtf BlockAccess

section Exceptions

/-- The handles, and `asm2_pending_exception` of the calling thread. -/
structure Env where
  table : Table
  pending : Pointer

def handleAt (t : Table) (p : Pointer) : Option Handle := (lookupHandle t p).bind t.heap

def throwNew (throwable classHandle : Pointer) (message : CString) (e : Env) : Env :=
  let className := ((handleAt e.table classHandle).bind Handle.className).getD
    (literal "java/lang/RuntimeException")
  let table := allocateHandle throwable .throwable (some className) e.table
  { table := modifyHandle throwable (fun handle => { handle with text := some message }) table
    pending := throwable }

/-- `asm2_throw_new` of the class that `asm2_jni_class` returns. -/
def throwClass (classItem throwable : Pointer) (className message : CString) (e : Env) : Env :=
  let (classHandle, table) := internClass classItem (some className) e.table
  throwNew throwable classHandle message { e with table }

def throwIndex (classItem throwable : Pointer) (message : String) : Env → Env :=
  throwClass classItem throwable (literal "java/lang/ArrayIndexOutOfBoundsException")
    (literal message)

end Exceptions

section Construction

/-- The contents of a new array: a null pointer if there is nothing to allocate, if the size
does not fit or if `calloc` fails. -/
def arrayData (length elementSize : BitVec 32) (allocated : Bool) : Option (List Byte) :=
  if length ≠ 0 ∧ elementSize.toNat ≤ (2 ^ 32 - 1) / length.toNat ∧ allocated then
    some (List.replicate (length.toNat * elementSize.toNat) 0)
  else none

/-- The critical section of `asm2_new_array`. -/
def newArrayLocked (item : Pointer) (className : CString) (length elementSize : BitVec 32)
    (allocated : Bool) (t : Table) : Table :=
  let data := arrayData length elementSize allocated
  let t := allocateHandle item .array (some className) t
  let t := modifyHandle item (fun handle =>
    { handle with length := length.toNat, elementSize := elementSize.toNat, data }) t
  { t with stats := { t.stats with arrayBytes := t.stats.arrayBytes + (data.getD []).length } }

def newArray (item outOfMemory : Pointer) (className : CString) (length elementSize : BitVec 32)
    (allocated : Bool) (e : Env) : Env :=
  let table := newArrayLocked item className length elementSize allocated e.table
  if length ≠ 0 ∧ arrayData length elementSize allocated = none then
    let (pending, table) :=
      internObject outOfMemory (some (literal "java/lang/OutOfMemoryError")) table
    { table, pending }
  else { e with table }

inductive ElementType where
  | boolean | byte | char | short | int | long | float | double
  deriving DecidableEq, Repr

def ElementType.descriptor : ElementType → CString
  | .boolean => literal "[Z"
  | .byte => literal "[B"
  | .char => literal "[C"
  | .short => literal "[S"
  | .int => literal "[I"
  | .long => literal "[J"
  | .float => literal "[F"
  | .double => literal "[D"

def ElementType.size : ElementType → BitVec 32
  | .boolean | .byte => 1
  | .char | .short => 2
  | .int | .float => 4
  | .long | .double => 8

def pointerSize : BitVec 32 := 4

/-- The functions of `ASM2_DEFINE_NEW_PRIMITIVE_ARRAY`. -/
def newPrimitiveArray (type : ElementType) (item outOfMemory : Pointer) (length : BitVec 32)
    (allocated : Bool) (e : Env) : Pointer × Env :=
  if length.slt 0 then (0, e)
  else (item, newArray item outOfMemory type.descriptor length type.size allocated e)

def pointerBytes (p : Pointer) : List Byte :=
  [p.extractLsb' 0 8, p.extractLsb' 8 8, p.extractLsb' 16 8, p.extractLsb' 24 8]

def bytesPointer (bytes : List Byte) : Pointer :=
  (bytes.getD 3 0 ++ bytes.getD 2 0 ++ bytes.getD 1 0 ++ bytes.getD 0 0 : BitVec 32)

/-- `"[L%s;"` in a buffer of 512 bytes. -/
def objectDescriptor (component : CString) : CString :=
  CString.ofBlock
    (((literal "[L").bytes ++ component.bytes ++ (literal ";").bytes).take 511)

/-- The loop that stores the initial value in each element. -/
def fillElements (initial : Pointer) (length : Nat) (contents : List Byte) : List Byte :=
  (List.range length).foldl
    (fun contents index => overwrite contents (4 * index) (pointerBytes initial)) contents

def newObjectArray (item outOfMemory : Pointer) (length : BitVec 32)
    (classHandle initial : Pointer) (allocated : Bool) (e : Env) : Pointer × Env :=
  if length.slt 0 then (0, e)
  else
    let component := ((handleAt e.table classHandle).bind Handle.className).getD objectName
    let e := newArray item outOfMemory (objectDescriptor component) length pointerSize allocated e
    if initial ≠ 0 then
      (item, { e with
        table := modifyHandle item (fun array =>
          { array with data := array.data.map (fillElements initial length.toNat) }) e.table })
    else (item, e)

end Construction

section Access

def arrayIndex (array : Handle) (index : BitVec 32) : Bool :=
  array.kind = .array ∧ ¬ index.slt 0 ∧ index.toNat < array.length

/-- The test of both functions for elements of object arrays. -/
def elementRejected (array : Option Handle) (index : BitVec 32) : Bool :=
  match array with
  | none => true
  | some array => ¬ arrayIndex array index ∨ array.elementSize ≠ pointerSize.toNat

def getObjectArrayElement (classItem throwable array : Pointer) (index : BitVec 32) (e : Env) :
    Option (Option Pointer × Env) :=
  let handle := handleAt e.table array
  if elementRejected handle index then
    some (none, throwIndex classItem throwable "GetObjectArrayElement" e)
  else do
    let bytes ← readBlock (handle.bind Handle.data) (4 * index.toNat) 4
    return (some (bytesPointer bytes), e)

def storeData (array : Pointer) (data : Option (List Byte)) (e : Env) : Env :=
  { e with table := modifyHandle array (fun handle => { handle with data }) e.table }

/-- `asm2_set_object_array_element`; the flag says whether the call is accepted. -/
def setObjectArrayElement (classItem throwable array : Pointer) (index : BitVec 32)
    (value : Pointer) (e : Env) : Option (Bool × Env) :=
  let handle := handleAt e.table array
  if elementRejected handle index then
    some (false, throwIndex classItem throwable "SetObjectArrayElement" e)
  else do
    let data ← writeBlock (handle.bind Handle.data) (4 * index.toNat) (pointerBytes value)
    return (true, storeData array data e)

/-- The test of the region functions; `buffer` says whether the caller's pointer is set. -/
def regionRejected (size : BitVec 32) (array : Option Handle) (start length : BitVec 32)
    (buffer : Bool) : Bool :=
  match array with
  | none => true
  | some array =>
    array.kind ≠ .array ∨ start.slt 0 ∨ length.slt 0 ∨ array.length < start.toNat ∨
      array.length - start.toNat < length.toNat ∨ ¬ buffer ∨ array.elementSize ≠ size.toNat

/-- The get functions of `ASM2_DEFINE_ARRAY_ACCESS`: the bytes copied to the output. -/
def getArrayRegion (type : ElementType) (classItem throwable array : Pointer)
    (start length : BitVec 32) (output : Bool) (e : Env) : Option (Option (List Byte) × Env) :=
  let handle := handleAt e.table array
  if regionRejected type.size handle start length output then
    some (none, throwIndex classItem throwable "GetArrayRegion" e)
  else do
    let bytes ← readBlock (handle.bind Handle.data) (start.toNat * type.size.toNat)
      (length * type.size).toNat
    return (some bytes, e)

/-- The set functions of `ASM2_DEFINE_ARRAY_ACCESS`; `input` is the memory at the caller's
pointer. -/
def setArrayRegion (type : ElementType) (classItem throwable array : Pointer)
    (start length : BitVec 32) (input : Option (Nat → Byte)) (e : Env) : Option (Bool × Env) :=
  let handle := handleAt e.table array
  if regionRejected type.size handle start length input.isSome then
    some (false, throwIndex classItem throwable "SetArrayRegion" e)
  else do
    let values := (List.range (length * type.size).toNat).map (input.getD fun _ => 0)
    let data ← writeBlock (handle.bind Handle.data) (start.toNat * type.size.toNat) values
    return (true, storeData array data e)

end Access

end Asm2Runtime.Jni
