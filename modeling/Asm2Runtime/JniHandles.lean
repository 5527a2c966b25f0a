import Asm2Runtime.EventLog
import Asm2Runtime.JniUtf
import Asm2Runtime.Transition
import Mathlib.Data.Set.Card
import Mathlib.Logic.Function.Basic

/-!
# Handles of the JNI bridge

The table of handles of jni_bridge.c and the functions that intern classes, objects,
strings and ids in it. A chain is the list of its pointers from its head on. `calloc`
returns a null or an allocated pointer never, and handles are never freed; a counter stays
far below its width, as a pointer has 32 bits.
-/

namespace Asm2Runtime.Jni

open JniUtf

abbrev Pointer := BitVec 32

section Handles

/-- `asm2_handle_kind` -/
inductive HandleKind where
  | «class» | object | string | method | field | array | directBuffer | throwable
  deriving DecidableEq, Repr

def HandleKind.number : HandleKind → BitVec 32
  | .class => 0
  | .object => 1
  | .string => 2
  | .method => 3
  | .field => 4
  | .array => 5
  | .directBuffer => 6
  | .throwable => 7

/-- `asm2_jni_value`, low byte first. -/
abbrev JniValue := BitVec 64

/-- `asm2_bundle_value_kind` -/
inductive BundleValueKind where
  | boolean | int | long | object
  deriving DecidableEq, Repr

structure BundleEntry where
  key : CString
  kind : BundleValueKind
  value : JniValue
  deriving DecidableEq

/-- `asm2_handle`; `utf16` and `data` are the blocks that these fields point to. -/
structure Handle where
  kind : HandleKind
  className : Option CString
  name : Option CString
  signature : Option CString
  text : Option CString
  utf16 : Option (List Jchar)
  isStatic : Bool
  data : Option (List Byte)
  length : Nat
  elementSize : Nat
  bundleEntries : List BundleEntry
  deriving DecidableEq

/-- `asm2_jni_stats` -/
structure Stats where
  handles : Nat
  classes : Nat
  objects : Nat
  strings : Nat
  arrays : Nat
  arrayBytes : Nat
  methodIds : Nat
  fieldIds : Nat
  directBuffers : Nat
  throwables : Nat
  bundleEntries : Nat
  longestHandleBucket : Nat
  longestInternBucket : Nat
  deriving DecidableEq

/-- An index below `ASM2_HANDLE_BUCKETS`. -/
abbrev Bucket := BitVec 10

/-- The globals of jni_bridge.c that hold handles, and the handles' memory. -/
structure Table where
  heap : Pointer → Option Handle
  handles : List Pointer
  handleBuckets : Bucket → List Pointer
  internBuckets : Bucket → List Pointer
  handleBucketLengths : Bucket → Nat
  internBucketLengths : Bucket → Nat
  stats : Stats

def emptyTable : Table :=
  { heap := fun _ => none
    handles := []
    handleBuckets := fun _ => []
    internBuckets := fun _ => []
    handleBucketLengths := fun _ => 0
    internBucketLengths := fun _ => 0
    stats := ⟨0, 0, 0, 0, 0, 0, 0, 0, 0, 0, 0, 0, 0⟩ }

/-- The text of a literal. -/
def literal (s : String) : CString :=
  CString.ofBlock (s.toList.map fun c => BitVec.ofNat 8 c.toNat)

def emptyText : CString := ⟨[], by simp⟩

def textEqual : Option CString → Option CString → Bool
  | none, none => true
  | some left, some right => left = right
  | _, _ => false

theorem textEqual_iff {left right : Option CString} : textEqual left right ↔ left = right := by
  cases left <;> cases right <;> simp [textEqual]

def handleBucket (pointer : Pointer) : Bucket :=
  let value := pointer >>> 4
  let value := ((value >>> 16) ^^^ value) * 0x45d9f3b
  let value := ((value >>> 16) ^^^ value) * 0x45d9f3b
  let value := value ^^^ (value >>> 16)
  value.setWidth 10

def hashText (hash : BitVec 32) (text : Option CString) : BitVec 32 :=
  let hash := (text.getD emptyText).bytes.foldl
    (fun hash b => (hash ^^^ b.setWidth 32) * 16777619) hash
  (hash ^^^ 0xff) * 16777619

def internBucket (kind : HandleKind) (className name signature text : Option CString)
    (isStatic : Bool) : Bucket :=
  let hash : BitVec 32 := 2166136261
  let hash := (hash ^^^ kind.number) * 16777619
  let hash := (hash ^^^ (if isStatic then 1 else 0)) * 16777619
  let hash := hashText hash className
  let hash := hashText hash name
  let hash := hashText hash signature
  let hash := hashText hash text
  (hash ^^^ (hash >>> 16)).setWidth 10

end Handles

section Operations

/-- `asm2_publish_intern_locked` -/
def publishIntern (item : Pointer) (bucket : Bucket) (t : Table) : Table :=
  let length := t.internBucketLengths bucket + 1
  { t with
    internBuckets := Function.update t.internBuckets bucket (item :: t.internBuckets bucket)
    internBucketLengths := Function.update t.internBucketLengths bucket length
    stats := { t.stats with longestInternBucket := max t.stats.longestInternBucket length } }

/-- `asm2_find_handle_locked` -/
def findHandle (t : Table) (pointer : Pointer) : Option Pointer :=
  (t.handleBuckets (handleBucket pointer)).find? fun item => item = pointer

/-- `asm2_lookup_handle` -/
def lookupHandle (t : Table) (pointer : Pointer) : Option Pointer :=
  if pointer = 0 then none else findHandle t pointer

def Stats.count (stats : Stats) : HandleKind → Stats
  | .class => { stats with classes := stats.classes + 1 }
  | .object => { stats with objects := stats.objects + 1 }
  | .string => { stats with strings := stats.strings + 1 }
  | .method => { stats with methodIds := stats.methodIds + 1 }
  | .field => { stats with fieldIds := stats.fieldIds + 1 }
  | .array => { stats with arrays := stats.arrays + 1 }
  | .directBuffer => { stats with directBuffers := stats.directBuffers + 1 }
  | .throwable => { stats with throwables := stats.throwables + 1 }

/-- `calloc` of a handle, with its kind and its class. -/
def newHandle (kind : HandleKind) (className : Option CString) : Handle :=
  { kind, className, name := none, signature := none, text := none, utf16 := none
    isStatic := false, data := none, length := 0, elementSize := 0, bundleEntries := [] }

/-- `asm2_allocate_handle_locked`; `item` is what `calloc` returned. -/
def allocateHandle (item : Pointer) (kind : HandleKind) (className : Option CString) (t : Table) :
    Table :=
  let bucket := handleBucket item
  let length := t.handleBucketLengths bucket + 1
  { t with
    heap := Function.update t.heap item (some (newHandle kind className))
    handles := item :: t.handles
    handleBuckets := Function.update t.handleBuckets bucket (item :: t.handleBuckets bucket)
    handleBucketLengths := Function.update t.handleBucketLengths bucket length
    stats :=
      { t.stats with
        longestHandleBucket := max t.stats.longestHandleBucket length
        handles := t.stats.handles + 1 }.count kind }

/-- A store to fields of an allocated handle. -/
def modifyHandle (item : Pointer) (f : Handle → Handle) (t : Table) : Table :=
  { t with heap := Function.update t.heap item ((t.heap item).map f) }

/-- The loops over an intern chain. -/
def findIntern (t : Table) (bucket : Bucket) (same : Handle → Bool) : Option Pointer :=
  (t.internBuckets bucket).find? fun item => ((t.heap item).map same).getD false

def objectName : CString := literal "java/lang/Object"
def stringName : CString := literal "java/lang/String"

/-- `if (!class_name || !class_name[0]) class_name = "java/lang/Object"` -/
def classOrObject (className : Option CString) : CString :=
  match className with
  | none => objectName
  | some name => if name.bytes = [] then objectName else name

/-- `asm2_intern_class` and `asm2_intern_object`, which differ in the kind only. -/
def internNamed (kind : HandleKind) (item : Pointer) (className : Option CString) (t : Table) :
    Pointer × Table :=
  let className := classOrObject className
  let bucket := internBucket kind (some className) none none none false
  match findIntern t bucket fun item =>
    item.kind = kind ∧ textEqual item.className (some className) with
  | some found => (found, t)
  | none => (item, publishIntern item bucket (allocateHandle item kind (some className) t))

def internClass := internNamed .class
def internObject := internNamed .object

/-- The first critical section of `asm2_intern_id`. -/
def idClassName (t : Table) (classHandle : Pointer) : CString :=
  let className := (lookupHandle t classHandle).bind t.heap |>.bind Handle.className
  className.getD objectName

/-- The second critical section of `asm2_intern_id`. -/
def internId (kind : HandleKind) (item : Pointer) (className : CString)
    (name signature : Option CString) (isStatic : Bool) (t : Table) : Pointer × Table :=
  let bucket := internBucket kind (some className) name signature none isStatic
  match findIntern t bucket fun item =>
    item.kind = kind ∧ item.isStatic = isStatic ∧ textEqual item.className (some className) ∧
      textEqual item.name name ∧ textEqual item.signature signature with
  | some found => (found, t)
  | none =>
    let t := allocateHandle item kind (some className) t
    let t := modifyHandle item (fun handle =>
      { handle with
        name := some (name.getD emptyText)
        signature := some (signature.getD emptyText)
        isStatic }) t
    (item, publishIntern item bucket t)

/-- `asm2_fill_utf16` of a handle; without a block the fields stay as they are. -/
def Handle.fillUtf16 (handle : Handle) : Handle :=
  match handle.utf16 with
  | some _ => handle
  | none => { handle with utf16 := JniUtf.fillUtf16 (handle.text.getD emptyText) }

def internString (item : Pointer) (text : Option CString) (t : Table) : Pointer × Table :=
  let text := text.getD emptyText
  let bucket := internBucket .string none none none (some text) false
  match findIntern t bucket fun item =>
    item.kind = .string ∧ textEqual item.text (some text) with
  | some found => (found, t)
  | none =>
    let t := allocateHandle item .string (some stringName) t
    let t := modifyHandle item (fun handle => { handle with text := some text }.fillUtf16) t
    (item, publishIntern item bucket t)

end Operations

section Chains

/-- What `calloc` returns: a pointer that is no handle yet. -/
structure Table.Fresh (t : Table) (item : Pointer) : Prop where
  nonnull : item ≠ 0
  free : t.heap item = none

instance (t : Table) (item : Pointer) : Decidable (t.Fresh item) :=
  decidable_of_iff (item ≠ 0 ∧ (t.heap item).isNone)
    ⟨fun h => ⟨h.1, Option.isNone_iff_eq_none.mp h.2⟩,
      fun h => ⟨h.nonnull, Option.isNone_iff_eq_none.mpr h.free⟩⟩

/-- The allocated handles are those of the list, each in the bucket of its pointer. -/
structure Table.Chained (t : Table) : Prop where
  allocated : ∀ p, p ∈ t.handles ↔ (t.heap p).isSome
  nodup : t.handles.Nodup
  nonnull : 0 ∉ t.handles
  bucket : ∀ b p, p ∈ t.handleBuckets b ↔ p ∈ t.handles ∧ handleBucket p = b
  bucketNodup : ∀ b, (t.handleBuckets b).Nodup
  counted : t.stats.handles = t.handles.length

theorem Stats.count_handles (stats : Stats) (kind : HandleKind) :
    (stats.count kind).handles = stats.handles := by
  cases kind <;> rfl

theorem chained_empty : emptyTable.Chained := by
  constructor <;> simp [emptyTable]

variable {t : Table} {item : Pointer}

theorem Table.Chained.allocate (h : t.Chained) (hfresh : t.Fresh item) (kind : HandleKind)
    (className : Option CString) : (allocateHandle item kind className t).Chained := by
  have hnew : item ∉ t.handles := by
    rw [h.allocated, hfresh.free]
    simp
  constructor
  · intro p
    by_cases hp : p = item
    · simp [allocateHandle, hp]
    · simp [allocateHandle, hp, h.allocated]
  · exact List.nodup_cons.mpr ⟨hnew, h.nodup⟩
  · exact List.not_mem_cons_of_ne_of_not_mem hfresh.nonnull.symm h.nonnull
  · intro b p
    by_cases hb : b = handleBucket item
    · subst hb
      by_cases hp : p = item
      · simp [allocateHandle, hp]
      · simp [allocateHandle, hp, h.bucket]
    · have hkeep : (allocateHandle item kind className t).handleBuckets b = t.handleBuckets b :=
        Function.update_of_ne hb _ _
      rw [hkeep, h.bucket]
      refine and_congr_left fun hbucket => ?_
      have hne : p ≠ item := by
        rintro rfl
        exact hb hbucket.symm
      simp [allocateHandle, hne]
  · intro b
    by_cases hb : b = handleBucket item
    · subst hb
      have hmem : item ∉ t.handleBuckets (handleBucket item) :=
        fun hold => hnew ((h.bucket _ _).mp hold).1
      simpa [allocateHandle] using ⟨hmem, h.bucketNodup _⟩
    · simpa [allocateHandle, hb] using h.bucketNodup b
  · simp [allocateHandle, Stats.count_handles, h.counted]

theorem Table.Chained.modify (h : t.Chained) (item : Pointer) (f : Handle → Handle) :
    (modifyHandle item f t).Chained := by
  refine ⟨fun p => ?_, h.nodup, h.nonnull, h.bucket, h.bucketNodup, h.counted⟩
  have hsome : ((modifyHandle item f t).heap p).isSome = (t.heap p).isSome := by
    by_cases hp : p = item
    · simp [modifyHandle, hp]
    · simp [modifyHandle, hp]
  rw [hsome]
  exact h.allocated p

theorem Table.Chained.publish (h : t.Chained) (item : Pointer) (bucket : Bucket) :
    (publishIntern item bucket t).Chained :=
  ⟨h.allocated, h.nodup, h.nonnull, h.bucket, h.bucketNodup, h.counted⟩

/-- A pointer is accepted exactly when it is an allocated handle. -/
theorem Table.Chained.findHandle (h : t.Chained) (p : Pointer) :
    findHandle t p = if (t.heap p).isSome then some p else none := by
  have hmem : p ∈ t.handleBuckets (handleBucket p) ↔ (t.heap p).isSome := by
    rw [h.bucket, h.allocated]
    exact and_iff_left rfl
  unfold Jni.findHandle
  split
  · rename_i halloc
    cases hfound : (t.handleBuckets (handleBucket p)).find? fun item => item = p with
    | none =>
      have := List.find?_eq_none.mp hfound p (hmem.mpr halloc)
      simp at this
    | some item =>
      have := List.find?_some hfound
      simpa using this
  · rename_i hfree
    refine List.find?_eq_none.mpr fun item hitem heq => hfree (hmem.mp ?_)
    obtain rfl : item = p := by simpa using heq
    exact hitem

theorem Table.Chained.lookupHandle (h : t.Chained) (p : Pointer) :
    lookupHandle t p = if (t.heap p).isSome then some p else none := by
  unfold Jni.lookupHandle
  split
  · rename_i hzero
    subst hzero
    have hnull := h.nonnull
    rw [h.allocated] at hnull
    exact (if_neg hnull).symm
  · exact h.findHandle p

theorem Table.Chained.count (h : t.Chained) {p : Pointer} (hp : (t.heap p).isSome) (b : Bucket) :
    (t.handleBuckets b).count p = if b = handleBucket p then 1 else 0 := by
  split
  · rename_i hb
    exact List.count_eq_one_of_mem (h.bucketNodup b) ((h.bucket b p).mpr
      ⟨(h.allocated p).mpr hp, hb.symm⟩)
  · rename_i hb
    exact List.count_eq_zero_of_not_mem fun hmem => hb ((h.bucket b p).mp hmem).2.symm

/-- The statistic of the handles counts the allocated ones. -/
theorem Table.Chained.ncard (h : t.Chained) :
    {p | (t.heap p).isSome}.ncard = t.stats.handles := by
  have hset : {p | (t.heap p).isSome} = (t.handles.toFinset : Set Pointer) := by
    ext p
    simp [h.allocated]
  rw [hset, Set.ncard_coe_finset, List.toFinset_card_of_nodup h.nodup, h.counted]

end Chains

end Asm2Runtime.Jni
