import Asm2Runtime.JniBundleRuns

/-!
# What the operations of the bridge keep

A handle is never freed. Its class name stays what it was and so does the shape of an array:
an operation only adds handles at the pointers that it allocates, changes the entries of a
Bundle and stores in the contents of an array.
-/

namespace Asm2Runtime.Jni

open JniUtf BlockAccess KeyedChain Transition

section Keeps

/-- Every handle has a class name. -/
def Table.Named (t : Table) : Prop := ∀ p handle, t.heap p = some handle → handle.className.isSome

/-- What does not change of an array: its length, the size of an element, and whether it has
contents. -/
def Handle.shape (handle : Handle) : Nat × Nat × Bool :=
  (handle.length, handle.elementSize, handle.data.isSome)

/-- Between the tables handles were allocated at `items` only and arrays as in `made`: none
without a class name, other handles have kept theirs, and other arrays their shapes. -/
structure Keeps (items : List Pointer) (made : Pointer → Nat × Nat × Bool → Prop)
    (t₀ t : Table) : Prop where
  named : t₀.Named → t.Named
  className : ∀ p, p ∉ items → (t.heap p).map Handle.className = (t₀.heap p).map Handle.className
  arrays : ∀ p array, t.heap p = some array → array.kind = .array →
    (∃ old, t₀.heap p = some old ∧ old.kind = .array ∧ old.shape = array.shape) ∨
      made p array.shape

variable {items : List Pointer} {made : Pointer → Nat × Nat × Bool → Prop}
  {t₀ t t' : Table} {e e' : Env} {p item : Pointer}

theorem Keeps.refl (t : Table) : Keeps items made t t :=
  ⟨id, fun _ _ => rfl, fun _ array hp hkind => .inl ⟨array, hp, hkind, rfl⟩⟩

theorem Keeps.trans (h : Keeps items made t₀ t) (h' : Keeps items made t t') :
    Keeps items made t₀ t' := by
  refine ⟨fun hnamed => h'.named (h.named hnamed),
    fun p hp => (h'.className p hp).trans (h.className p hp), fun p array hp hkind => ?_⟩
  obtain ⟨old, hold, hkind', hshape⟩ | hmade := h'.arrays p array hp hkind
  · rw [← hshape]
    exact h.arrays p old hold hkind'
  · exact .inr hmade

/-- One handle is stored. -/
theorem Keeps.update {handle : Handle} (h : Keeps items made t₀ t)
    (hheap : t'.heap = Function.update t.heap item (some handle))
    (hnamed : t.Named → handle.className.isSome)
    (hname : item ∉ items → some handle.className = (t.heap item).map Handle.className)
    (harray : handle.kind = .array →
      (∃ old, t.heap item = some old ∧ old.kind = .array ∧ old.shape = handle.shape) ∨
        made item handle.shape) : Keeps items made t₀ t' := by
  refine h.trans ⟨fun ht q stored hq => ?_, fun q hq => ?_, fun q array hq hkind => ?_⟩
  · rw [hheap, Function.update_apply] at hq
    split at hq
    · obtain rfl := Option.some.inj hq
      exact hnamed ht
    · exact ht q stored hq
  · rw [hheap, Function.update_apply]
    split
    · rename_i heq
      rw [heq] at hq ⊢
      exact hname hq
    · rfl
  · rw [hheap, Function.update_apply] at hq
    split at hq
    · rename_i heq
      obtain rfl := Option.some.inj hq
      rw [heq]
      exact harray hkind
    · exact .inl ⟨array, hq, hkind, rfl⟩

theorem Keeps.of_heap (h : Keeps items made t₀ t) (hheap : t'.heap = t.heap) :
    Keeps items made t₀ t' := by
  refine h.trans ⟨fun hnamed q handle hq => hnamed q handle (hheap ▸ hq), fun q _ => by rw [hheap],
    fun q array hq hkind => .inl ⟨array, hheap ▸ hq, hkind, rfl⟩⟩

/-- A new handle. -/
theorem Keeps.store {handle : Handle} (h : Keeps items made t₀ t) (hitem : item ∈ items)
    (hname : handle.className.isSome) (harray : handle.kind = .array → made item handle.shape) :
    Keeps items made t₀ (storeHandle item handle t) :=
  h.update (storeHandle_heap item handle t) (fun _ => hname) (fun hnot => absurd hitem hnot)
    fun hkind => .inr (harray hkind)

theorem Keeps.allocate {kind : HandleKind} (h : Keeps items made t₀ t) (hitem : item ∈ items)
    (hkind : kind ≠ .array) (className : CString) :
    Keeps items made t₀ (allocateHandle item kind (some className) t) := by
  rw [allocateHandle_store]
  exact h.store hitem rfl fun harray => absurd harray hkind

/-- An old handle is changed, but not in what is kept. -/
theorem Keeps.modify {f : Handle → Handle} (h : Keeps items made t₀ t) (item : Pointer)
    (hname : ∀ handle, (f handle).className = handle.className)
    (hkind : ∀ handle, (f handle).kind = handle.kind)
    (hshape : ∀ handle, t.heap item = some handle → (f handle).shape = handle.shape) :
    Keeps items made t₀ (modifyHandle item f t) := by
  cases hp : t.heap item with
  | none =>
    refine h.of_heap ?_
    change Function.update t.heap item ((t.heap item).map f) = t.heap
    have hsame : (t.heap item).map f = t.heap item := by
      rw [hp]
      rfl
    rw [hsame, Function.update_eq_self]
  | some old =>
    have hheap : (modifyHandle item f t).heap = Function.update t.heap item (some (f old)) := by
      change Function.update t.heap item ((t.heap item).map f) = _
      rw [hp]
      rfl
    refine h.update hheap (fun hnamed => ?_) (fun _ => ?_) fun hfkind => .inl ?_
    · rw [hname]
      exact hnamed item old hp
    · rw [hname, hp]
      rfl
    · exact ⟨old, hp, (hkind old).symm.trans hfkind, (hshape old hp).symm⟩

end Keeps

section Functions

variable {items : List Pointer} {made : Pointer → Nat × Nat × Bool → Prop}
  {t₀ t t' : Table} {e e' : Env} {p item : Pointer}

theorem Request.handle_className (r : Request) : r.handle.className.isSome := by
  have hkey := congrArg Key.className r.handle_key
  cases r <;> exact (congrArg Option.isSome hkey).trans rfl

theorem Request.handle_kind (r : Request) : r.handle.kind ≠ .array := by
  have hkey : r.handle.kind = r.key.kind := congrArg Key.kind r.handle_key
  rw [hkey]
  cases r with
  | id kind className name signature isStatic => cases kind <;> exact nofun
  | _ => exact nofun

theorem Keeps.answer (h : Keeps items made t₀ t) (hitem : item ∈ items) (r : Request) :
    Keeps items made t₀ (r.answer item t).2 := by
  rw [r.answer_eq]
  split
  · exact h
  · exact (h.store hitem r.handle_className fun harray => absurd harray r.handle_kind).of_heap rfl

theorem Keeps.throwClass {classItem throwable : Pointer} (h : Keeps items made t₀ e.table)
    (hclass : classItem ∈ items) (hthrowable : throwable ∈ items) (className message : CString) :
    Keeps items made t₀ (Jni.throwClass classItem throwable className message e).table :=
  ((h.answer hclass (.class (some className))).allocate hthrowable (by decide) _).modify throwable
    (fun _ => rfl) (fun _ => rfl) fun _ _ => rfl

theorem Keeps.newArray {outOfMemory : Pointer} (h : Keeps items made t₀ e.table)
    (hitem : item ∈ items) (hmemory : outOfMemory ∈ items) {className : CString}
    {length elementSize : BitVec 32} {allocated : Bool}
    (hmade : made item (arrayHandle className length elementSize allocated).shape) :
    Keeps items made t₀
      (Jni.newArray item outOfMemory className length elementSize allocated e).table := by
  have hlocked : Keeps items made t₀
      (newArrayLocked item className length elementSize allocated e.table) := by
    unfold newArrayLocked
    dsimp only
    rw [allocateHandle_store, modifyHandle_store _ _ _ _ rfl]
    have hstored : Keeps items made t₀
        (storeHandle item (arrayHandle className length elementSize allocated) e.table) :=
      h.store hitem rfl fun _ => hmade
    exact hstored.of_heap rfl
  unfold Jni.newArray
  dsimp only
  split
  · exact hlocked.answer hmemory (.object (some (literal "java/lang/OutOfMemoryError")))
  · exact hlocked

/-- The contents of an array are written, which neither makes nor drops them. -/
theorem Keeps.storeData {data : Option (List Byte)} (h : Keeps items made t₀ e.table)
    (array : Pointer)
    (hdata : ∀ handle, e.table.heap array = some handle → data.isSome = handle.data.isSome) :
    Keeps items made t₀ (Jni.storeData array data e).table := by
  refine h.modify array (fun _ => rfl) (fun _ => rfl) fun handle hp => ?_
  simp only [Handle.shape, hdata handle hp]

theorem Keeps.bundleInsert (h : Keeps items made t₀ t) (bundle : Pointer) (key : CString) :
    Keeps items made t₀ (Jni.bundleInsert bundle key t) := by
  let entry : BundleEntry := { key, kind := .boolean, value := zeroValue }
  have hstored := h.modify (f := fun item =>
    { item with bundleEntries := entry :: item.bundleEntries }) bundle (fun _ => rfl)
    (fun _ => rfl) fun _ _ => rfl
  exact hstored.of_heap rfl

theorem Keeps.bundleSet (h : Keeps items made t₀ t) (bundle : Pointer) (key : Option CString)
    (kind : BundleValueKind) (value : JniValue) :
    Keeps items made t₀ (Jni.bundleSet bundle key kind value t).2 := by
  unfold Jni.bundleSet
  split
  · exact h
  · split
    · exact h
    · split
      · exact h
      · split
        · split
          · exact h.modify bundle (fun _ => rfl) (fun _ => rfl) fun _ _ => rfl
          · exact (h.bundleInsert bundle _).modify bundle (fun _ => rfl) (fun _ => rfl)
              fun _ _ => rfl
        · exact h

theorem Keeps.bundleClear (h : Keeps items made t₀ t) (bundle : Pointer) :
    Keeps items made t₀ (Jni.bundleClear bundle t) := by
  have hcleared := h.modify (f := fun item => { item with bundleEntries := [] }) bundle
    (fun _ => rfl) (fun _ => rfl) fun _ _ => rfl
  unfold Jni.bundleClear
  split
  · exact h
  · split
    · exact hcleared.of_heap rfl
    · exact h

theorem Keeps.bundlePutString (h : Keeps items made t₀ t) (hitem : item ∈ items)
    (bundle : Pointer) (key value : Option CString) :
    Keeps items made t₀ (Jni.bundlePutString item bundle key value t).2 := by
  cases value with
  | none => exact h.bundleSet bundle key .object (.ofL 0)
  | some value => exact (h.answer hitem (.string (some value))).bundleSet bundle key .object _

theorem copyBytes_isSome {bytes : Option (Nat → Byte)} {count : Nat}
    {data data' : Option (List Byte)} (h : copyBytes bytes count data = some data') :
    data'.isSome = data.isSome := by
  cases bytes with
  | none => exact congrArg Option.isSome (Option.some.inj h).symm
  | some bytes => exact (writeBlock_outside h).1

theorem Keeps.bundlePutByteArray {outOfMemory bundle : Pointer} {key : Option CString}
    {bytes : Option (Nat → Byte)} {count : BitVec 32} {allocated ok : Bool}
    (h : Keeps items made t₀ e.table) (hitem : item ∈ items) (hmemory : outOfMemory ∈ items)
    (hmade : made item (arrayHandle (literal "[B") count 1 allocated).shape)
    (hput : Jni.bundlePutByteArray item outOfMemory bundle key bytes count allocated e =
      some (ok, e')) : Keeps items made t₀ e'.table := by
  have hnew := h.newArray hitem hmemory hmade
  unfold Jni.bundlePutByteArray at hput
  simp only at hput
  split at hput
  · obtain ⟨-, rfl⟩ := Prod.mk.inj (Option.some.inj hput)
    exact hnew
  · obtain ⟨data, hcopy, hput⟩ := Option.bind_eq_some_iff.mp hput
    obtain ⟨-, rfl⟩ := Prod.mk.inj (Option.some.inj hput)
    refine (hnew.storeData item fun handle hp => ?_).bundleSet bundle key .object _
    rw [hp] at hcopy
    exact copyBytes_isSome hcopy

theorem Keeps.runPut (h : Keeps items made t₀ t) {receiver : Pointer} {arguments : Arguments}
    {kind : BundleValueKind} {second : Arguments → Option JniValue} {value : JniValue}
    (hcall : Jni.runPut receiver arguments t kind second = some (value, t')) :
    Keeps items made t₀ t' := by
  obtain ⟨first, -, hcall⟩ := Option.bind_eq_some_iff.mp hcall
  obtain ⟨input, -, hcall⟩ := Option.bind_eq_some_iff.mp hcall
  obtain ⟨-, rfl⟩ := Prod.mk.inj (Option.some.inj hcall)
  exact h.bundleSet receiver _ kind input

theorem Keeps.runGet (h : Keeps items made t₀ t) {receiver : Pointer} {arguments : Arguments}
    {f : Option (BundleValueKind × JniValue) → JniValue} {value : JniValue}
    (hcall : Jni.runGet receiver arguments t f = some (value, t')) : Keeps items made t₀ t' := by
  obtain ⟨first, -, hcall⟩ := Option.bind_eq_some_iff.mp hcall
  obtain ⟨-, rfl⟩ := Prod.mk.inj (Option.some.inj hcall)
  exact h

theorem Keeps.run (h : Keeps items made t₀ t) {receiver : Pointer} {arguments : Arguments}
    {method : Method} {value : JniValue}
    (hcall : method.run receiver arguments t = some (value, t')) : Keeps items made t₀ t' := by
  unfold Method.run at hcall
  cases method with
  | putInt _ | putBoolean _ | putLong _ | putString _ | putByteArray _ => exact h.runPut hcall
  | getInt | getBoolean | getLong | getString | getByteArray | containsKey => exact h.runGet hcall
  | clear =>
    obtain ⟨-, rfl⟩ := Prod.mk.inj (Option.some.inj hcall)
    exact h.bundleClear receiver

/-- The handle that a lookup has found is the one at the pointer. -/
theorem heap_of_handleAt {t : Table} {handle : Handle} (h : handleAt t p = some handle) :
    t.heap p = some handle := by
  obtain ⟨q, hlookup, hq⟩ := Option.bind_eq_some_iff.mp h
  unfold lookupHandle findHandle at hlookup
  split at hlookup
  · cases hlookup
  · have hsame := List.find?_some hlookup
    obtain rfl : q = p := by simpa using hsame
    exact hq

/-- A store in an array that a lookup has found. -/
theorem Keeps.written {array : Pointer} {handle : Handle} {offset : Nat} {values : List Byte}
    {data : Option (List Byte)} (h : Keeps items made t₀ e.table)
    (hfound : handleAt e.table array = some handle)
    (hwrite : writeBlock ((handleAt e.table array).bind Handle.data) offset values = some data) :
    Keeps items made t₀ (Jni.storeData array data e).table := by
  refine h.storeData array fun stored hp => ?_
  rw [hfound, Option.bind_some] at hwrite
  obtain rfl := Option.some.inj ((heap_of_handleAt hfound).symm.trans hp)
  exact (writeBlock_outside hwrite).1

theorem Keeps.newString {classItem throwable string : Pointer} {unicode : Option (Nat → Jchar)}
    {length : BitVec 32} (h : Keeps items made t₀ e.table) (hitem : item ∈ items)
    (hclass : classItem ∈ items) (hthrowable : throwable ∈ items)
    (hnew : Jni.newString item classItem throwable unicode length e = some (string, e')) :
    Keeps items made t₀ e'.table := by
  unfold Jni.newString at hnew
  split at hnew
  · obtain ⟨-, rfl⟩ := Prod.mk.inj (Option.some.inj hnew)
    exact h.throwClass hclass hthrowable _ _
  · simp only at hnew
    split at hnew
    · obtain ⟨-, rfl⟩ := Prod.mk.inj (Option.some.inj hnew)
      exact h.answer hitem (.string _)
    · cases hnew

theorem Keeps.newPrimitiveArray {outOfMemory : Pointer} {type : ElementType}
    {length : BitVec 32} {allocated : Bool} (h : Keeps items made t₀ e.table)
    (hitem : item ∈ items) (hmemory : outOfMemory ∈ items)
    (hmade : ¬ length.slt 0 →
      made item (arrayHandle type.descriptor length type.size allocated).shape) :
    Keeps items made t₀
      (Jni.newPrimitiveArray type item outOfMemory length allocated e).2.table := by
  unfold Jni.newPrimitiveArray
  split
  · exact h
  · rename_i hlength
    exact h.newArray hitem hmemory (hmade hlength)

/-- The initial value is stored in contents that are there already. -/
theorem Keeps.newObjectArray {outOfMemory classHandle initial : Pointer} {length : BitVec 32}
    {allocated : Bool} (h : Keeps items made t₀ e.table) (hitem : item ∈ items)
    (hmemory : outOfMemory ∈ items)
    (hmade : ¬ length.slt 0 → ∀ className,
      made item (arrayHandle className length pointerSize allocated).shape) :
    Keeps items made t₀
      (Jni.newObjectArray item outOfMemory length classHandle initial allocated e).2.table := by
  unfold Jni.newObjectArray
  split
  · exact h
  · rename_i hlength
    have hnew : ∀ className, Keeps items made t₀
        (Jni.newArray item outOfMemory className length pointerSize allocated e).table :=
      fun className => h.newArray hitem hmemory (hmade hlength className)
    simp only
    split
    · refine (hnew _).modify item (fun _ => rfl) (fun _ => rfl) fun handle _ => ?_
      simp only [Handle.shape, Option.isSome_map]
    · exact hnew _

section Access

variable {classItem throwable array : Pointer} {index start length : BitVec 32}

theorem Keeps.getObjectArrayElement {result : Option Pointer} (h : Keeps items made t₀ e.table)
    (hclass : classItem ∈ items) (hthrowable : throwable ∈ items)
    (hget : Jni.getObjectArrayElement classItem throwable array index e = some (result, e')) :
    Keeps items made t₀ e'.table := by
  unfold Jni.getObjectArrayElement at hget
  simp only at hget
  split at hget
  · obtain ⟨-, rfl⟩ := Prod.mk.inj (Option.some.inj hget)
    exact h.throwClass hclass hthrowable _ _
  · obtain ⟨bytes, -, hget⟩ := Option.bind_eq_some_iff.mp hget
    obtain ⟨-, rfl⟩ := Prod.mk.inj (Option.some.inj hget)
    exact h

theorem Keeps.setObjectArrayElement {value : Pointer} {ok : Bool}
    (h : Keeps items made t₀ e.table) (hclass : classItem ∈ items) (hthrowable : throwable ∈ items)
    (hset : Jni.setObjectArrayElement classItem throwable array index value e = some (ok, e')) :
    Keeps items made t₀ e'.table := by
  unfold Jni.setObjectArrayElement at hset
  simp only at hset
  split at hset
  · obtain ⟨-, rfl⟩ := Prod.mk.inj (Option.some.inj hset)
    exact h.throwClass hclass hthrowable _ _
  · rename_i haccepted
    obtain ⟨handle, hfound⟩ := exists_of_element haccepted
    obtain ⟨data, hwrite, hset⟩ := Option.bind_eq_some_iff.mp hset
    obtain ⟨-, rfl⟩ := Prod.mk.inj (Option.some.inj hset)
    exact h.written hfound hwrite

theorem Keeps.getArrayRegion {type : ElementType} {output : Bool} {bytes : Option (List Byte)}
    (h : Keeps items made t₀ e.table) (hclass : classItem ∈ items) (hthrowable : throwable ∈ items)
    (hget : Jni.getArrayRegion type classItem throwable array start length output e =
      some (bytes, e')) : Keeps items made t₀ e'.table := by
  unfold Jni.getArrayRegion at hget
  simp only at hget
  split at hget
  · obtain ⟨-, rfl⟩ := Prod.mk.inj (Option.some.inj hget)
    exact h.throwClass hclass hthrowable _ _
  · obtain ⟨bytes, -, hget⟩ := Option.bind_eq_some_iff.mp hget
    obtain ⟨-, rfl⟩ := Prod.mk.inj (Option.some.inj hget)
    exact h

theorem Keeps.setArrayRegion {type : ElementType} {input : Option (Nat → Byte)} {ok : Bool}
    (h : Keeps items made t₀ e.table) (hclass : classItem ∈ items) (hthrowable : throwable ∈ items)
    (hset : Jni.setArrayRegion type classItem throwable array start length input e =
      some (ok, e')) : Keeps items made t₀ e'.table := by
  unfold Jni.setArrayRegion at hset
  simp only at hset
  split at hset
  · obtain ⟨-, rfl⟩ := Prod.mk.inj (Option.some.inj hset)
    exact h.throwClass hclass hthrowable _ _
  · rename_i haccepted
    obtain ⟨handle, hfound⟩ := exists_of_region haccepted
    obtain ⟨data, hwrite, hset⟩ := Option.bind_eq_some_iff.mp hset
    obtain ⟨-, rfl⟩ := Prod.mk.inj (Option.some.inj hset)
    exact h.written hfound hwrite

end Access

end Functions

section Operations

/-- The arguments of a call that makes an array: `allocated` says whether there was memory. -/
structure Asked where
  length : BitVec 32
  elementSize : BitVec 32
  allocated : Bool
  deriving DecidableEq

def Asked.shape (asked : Asked) : Nat × Nat × Bool :=
  (asked.length.toNat, asked.elementSize.toNat,
    (arrayData asked.length asked.elementSize asked.allocated).isSome)

def HostCall.makes (p : Pointer) : HostCall → Option Asked
  | .putByteArray item _ _ count allocated => if item = p then some ⟨count, 1, allocated⟩ else none
  | _ => none

/-- What the operation asks for if it makes the array at `p`. -/
def Operation.makes (p : Pointer) : Operation → Option Asked
  | .newPrimitiveArray type item _ length allocated =>
    if item = p ∧ ¬ length.slt 0 then some ⟨length, type.size, allocated⟩ else none
  | .newObjectArray item _ length _ _ allocated =>
    if item = p ∧ ¬ length.slt 0 then some ⟨length, pointerSize, allocated⟩ else none
  | .host _ _ call => call.makes p
  | _ => none

def Operation.Makes (operation : Operation) (p : Pointer) (shape : Nat × Nat × Bool) : Prop :=
  ∃ asked, operation.makes p = some asked ∧ asked.shape = shape

variable {t₀ : Table} {e e' : Env} {reply : Reply} {p : Pointer}

theorem Keeps.host {bundle : Pointer} {key : Option CString} {call : HostCall}
    {items : List Pointer} {made : Pointer → Nat × Nat × Bool → Prop}
    (h : Keeps items made t₀ e.table) (hitems : ∀ item ∈ call.items, item ∈ items)
    (hmade : ∀ p asked, call.makes p = some asked → made p asked.shape)
    (hcall : call.perform bundle key e = some (reply, e')) : Keeps items made t₀ e'.table := by
  cases call with
  | putBoolean value =>
    obtain ⟨-, rfl⟩ := Prod.mk.inj (Option.some.inj hcall)
    exact h.bundleSet bundle key .boolean _
  | putInt value =>
    obtain ⟨-, rfl⟩ := Prod.mk.inj (Option.some.inj hcall)
    exact h.bundleSet bundle key .int _
  | putLong value =>
    obtain ⟨-, rfl⟩ := Prod.mk.inj (Option.some.inj hcall)
    exact h.bundleSet bundle key .long _
  | putString item value =>
    obtain ⟨-, rfl⟩ := Prod.mk.inj (Option.some.inj hcall)
    exact h.bundlePutString (hitems item (by simp [HostCall.items])) bundle key value
  | putByteArray item outOfMemory bytes count allocated =>
    obtain ⟨⟨ok, e''⟩, hput, hcall⟩ := Option.bind_eq_some_iff.mp hcall
    obtain ⟨-, rfl⟩ := Prod.mk.inj (Option.some.inj hcall)
    exact h.bundlePutByteArray (hitems item (by simp [HostCall.items]))
      (hitems outOfMemory (by simp [HostCall.items])) (hmade item _ (if_pos rfl)) hput
  | getBoolean out | getInt out | getLong out | getString =>
    obtain ⟨-, rfl⟩ := Prod.mk.inj (Option.some.inj hcall)
    exact h

/-- What an operation of the bridge keeps. -/
theorem Keeps.perform {operation : Operation}
    (hperform : operation.perform e = some (reply, e')) :
    Keeps operation.items operation.Makes e.table e'.table := by
  have h : Keeps operation.items operation.Makes e.table e.table := .refl e.table
  cases operation with
  | intern item call =>
    obtain ⟨-, rfl⟩ := Prod.mk.inj (Option.some.inj hperform)
    exact h.answer List.mem_cons_self (call.request e.table)
  | newString item classItem throwable unicode length =>
    obtain ⟨⟨string, e''⟩, hnew, hperform⟩ := Option.bind_eq_some_iff.mp hperform
    obtain ⟨-, rfl⟩ := Prod.mk.inj (Option.some.inj hperform)
    exact h.newString (by simp [Operation.items]) (by simp [Operation.items])
      (by simp [Operation.items]) hnew
  | newBundle item =>
    obtain ⟨-, rfl⟩ := Prod.mk.inj (Option.some.inj hperform)
    exact h.allocate List.mem_cons_self (by decide) _
  | host bundle key call =>
    exact h.host (fun _ hitem => hitem) (fun p asked hasked => ⟨asked, hasked, rfl⟩) hperform
  | guest receiver key method convention =>
    obtain ⟨⟨value, table⟩, hcall, hperform⟩ := Option.bind_eq_some_iff.mp hperform
    obtain ⟨-, rfl⟩ := Prod.mk.inj (Option.some.inj hperform)
    rw [bundleMethod_name] at hcall
    exact h.run hcall
  | newPrimitiveArray type item outOfMemory length allocated =>
    obtain ⟨-, rfl⟩ := Prod.mk.inj (Option.some.inj hperform)
    exact h.newPrimitiveArray (by simp [Operation.items]) (by simp [Operation.items])
      fun hlength => ⟨⟨length, type.size, allocated⟩, if_pos ⟨rfl, hlength⟩, rfl⟩
  | newObjectArray item outOfMemory length classHandle initial allocated =>
    obtain ⟨-, rfl⟩ := Prod.mk.inj (Option.some.inj hperform)
    exact h.newObjectArray (by simp [Operation.items]) (by simp [Operation.items])
      fun hlength _ => ⟨⟨length, pointerSize, allocated⟩, if_pos ⟨rfl, hlength⟩, rfl⟩
  | getElement classItem throwable array index =>
    obtain ⟨⟨value, e''⟩, hget, hperform⟩ := Option.bind_eq_some_iff.mp hperform
    obtain ⟨-, rfl⟩ := Prod.mk.inj (Option.some.inj hperform)
    exact h.getObjectArrayElement (by simp [Operation.items]) (by simp [Operation.items]) hget
  | setElement classItem throwable array index value =>
    obtain ⟨⟨ok, e''⟩, hset, hperform⟩ := Option.bind_eq_some_iff.mp hperform
    obtain ⟨-, rfl⟩ := Prod.mk.inj (Option.some.inj hperform)
    exact h.setObjectArrayElement (by simp [Operation.items]) (by simp [Operation.items]) hset
  | getRegion type classItem throwable array start length output =>
    obtain ⟨⟨bytes, e''⟩, hget, hperform⟩ := Option.bind_eq_some_iff.mp hperform
    obtain ⟨-, rfl⟩ := Prod.mk.inj (Option.some.inj hperform)
    exact h.getArrayRegion (by simp [Operation.items]) (by simp [Operation.items]) hget
  | setRegion type classItem throwable array start length input =>
    obtain ⟨⟨ok, e''⟩, hset, hperform⟩ := Option.bind_eq_some_iff.mp hperform
    obtain ⟨-, rfl⟩ := Prod.mk.inj (Option.some.inj hperform)
    exact h.setArrayRegion (by simp [Operation.items]) (by simp [Operation.items]) hset

end Operations

section Runs

variable {s s' : Bridge} {p : Pointer}

theorem Keeps.step {event : Thread × Operation} (hstep : s.step event = some s') :
    s.table.FreshAll event.2.items ∧
      Keeps event.2.items event.2.Makes s.table s'.table := by
  obtain ⟨thread, operation⟩ := event
  unfold Bridge.step at hstep
  simp only at hstep
  split at hstep
  · rename_i hfresh
    obtain ⟨⟨reply, e⟩, hperform, hstep⟩ := Option.bind_eq_some_iff.mp hstep
    obtain rfl := Option.some.inj hstep
    exact ⟨hfresh, Keeps.perform (e := { table := s.table, pending := s.pending thread }) hperform⟩
  · cases hstep

theorem Table.Named.step {event : Thread × Operation} (h : s.table.Named)
    (hstep : s.step event = some s') : s'.table.Named :=
  (Keeps.step hstep).2.named h

/-- The class name of a handle does not change. -/
theorem Bridge.step_className {event : Thread × Operation} {handle : Handle}
    (hp : s.table.heap p = some handle) (hstep : s.step event = some s') :
    ∃ handle', s'.table.heap p = some handle' ∧ handle'.className = handle.className := by
  obtain ⟨hfresh, hkeeps⟩ := Keeps.step hstep
  have hitem : p ∉ event.2.items := by
    intro hmem
    rw [(hfresh.2 p hmem).free] at hp
    cases hp
  have hkept := hkeeps.className p hitem
  rw [hp] at hkept
  exact Option.map_eq_some_iff.mp hkept

end Runs

end Asm2Runtime.Jni
