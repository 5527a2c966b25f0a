import Asm2Runtime.JniKeeps

/-!
# Storage of the JNI arrays

What the access functions do to an array in a state of the bridge: which accesses are
accepted, where they fall, what a rejected one leaves and what is read after a write.
-/

namespace Asm2Runtime.Jni

open JniUtf BlockAccess Transition

section Accesses

/-- A call that reads or writes an array. -/
inductive Access where
  | getRegion (type : ElementType) (start length : BitVec 32) (output : Bool)
  | setRegion (type : ElementType) (start length : BitVec 32) (input : Option (Nat → Byte))
  | getElement (index : BitVec 32)
  | setElement (index : BitVec 32) (value : Pointer)

def Access.operation (classItem throwable array : Pointer) : Access → Operation
  | .getRegion type start length output =>
    .getRegion type classItem throwable array start length output
  | .setRegion type start length input =>
    .setRegion type classItem throwable array start length input
  | .getElement index => .getElement classItem throwable array index
  | .setElement index value => .setElement classItem throwable array index value

/-- The test of the access on the handle found. -/
def Access.rejected (handle : Option Handle) : Access → Bool
  | .getRegion type start length output => regionRejected type.size handle start length output
  | .setRegion type start length input => regionRejected type.size handle start length input.isSome
  | .getElement index | .setElement index _ => elementRejected handle index

/-- What a rejected access returns: nothing is read, or nothing is written. -/
def Access.refusal : Access → Reply
  | .getRegion _ _ _ _ => .region none
  | .setRegion _ _ _ _ | .setElement _ _ => .accepted false
  | .getElement _ => .element none

/-- The number of elements accessed. -/
def Access.count : Access → Nat
  | .getRegion _ _ length _ | .setRegion _ _ length _ => length.toNat
  | .getElement _ | .setElement _ _ => 1

def Access.offset : Access → Nat
  | .getRegion type start _ _ | .setRegion type start _ _ => start.toNat * type.size.toNat
  | .getElement index | .setElement index _ => 4 * index.toNat

/-- The number of bytes accessed. -/
def Access.bytes : Access → Nat
  | .getRegion type _ length _ | .setRegion type _ length _ => length.toNat * type.size.toNat
  | .getElement _ | .setElement _ _ => 4

/-- The storage of an array is as the accesses need it. -/
structure StorageSafe (t : Table) (p : Pointer) (array : Handle) : Prop where
  /-- An accepted access with some elements falls into the allocated block. -/
  inside : ∀ access : Access, ¬ access.rejected (handleAt t p) → 0 < access.count →
    array.data.isSome ∧ Inside array.data access.offset access.bytes
  /-- A rejected access reads and writes nothing, and an exception is pending. -/
  refused : ∀ (access : Access) (classItem throwable pending : Pointer),
    access.rejected (handleAt t p) → t.FreshAll [classItem, throwable] →
    ∃ e, (access.operation classItem throwable p).perform ⟨t, pending⟩ = some (access.refusal, e) ∧
      e.table.heap p = some array ∧ e.pending ≠ 0
  /-- A region that has been set is read back, and the rest is as before. -/
  region : ∀ (type : ElementType) (start length : BitVec 32) (input : Nat → Byte)
      (classItem throwable pending : Pointer),
    ¬ regionRejected type.size (handleAt t p) start length true →
    ∃ e data,
      (Operation.setRegion type classItem throwable p start length (some input)).perform
        ⟨t, pending⟩ = some (.accepted true, e) ∧
      (Operation.getRegion type classItem throwable p start length true).perform e =
        some (.region (some ((List.range (length.toNat * type.size.toNat)).map input)), e) ∧
      e.table.heap p = some { array with data } ∧
      (∀ q, q ≠ p → e.table.heap q = t.heap q) ∧
      ∀ i, i < start.toNat * type.size.toNat ∨
          start.toNat * type.size.toNat + length.toNat * type.size.toNat ≤ i →
        (data.getD [])[i]? = (array.data.getD [])[i]?
  /-- So is an element. -/
  element : ∀ (index : BitVec 32) (value : Pointer) (classItem throwable pending : Pointer),
    ¬ elementRejected (handleAt t p) index →
    ∃ e data,
      (Operation.setElement classItem throwable p index value).perform ⟨t, pending⟩ =
        some (.accepted true, e) ∧
      (Operation.getElement classItem throwable p index).perform e =
        some (.element (some value), e) ∧
      e.table.heap p = some { array with data } ∧
      (∀ q, q ≠ p → e.table.heap q = t.heap q) ∧
      ∀ i, i < 4 * index.toNat ∨ 4 * index.toNat + 4 ≤ i →
        (data.getD [])[i]? = (array.data.getD [])[i]?

end Accesses

section Storage

variable {t : Table} {p : Pointer} {array : Handle} {type : ElementType}
  {start length index : BitVec 32} {buffer : Bool}

theorem bytesPointer_pointerBytes (value : Pointer) : bytesPointer (pointerBytes value) = value := by
  change (value.extractLsb' 24 8 ++ value.extractLsb' 16 8 ++ value.extractLsb' 8 8 ++
    value.extractLsb' 0 8 : BitVec 32) = value
  refine BitVec.eq_of_getLsbD_eq fun i hi => ?_
  simp only [BitVec.getLsbD_append, BitVec.getLsbD_extractLsb']
  split_ifs with h h' h''
  · simp [h]
  · simp [h']
    congr 1
    omega
  · simp [h'']
    congr 1
    omega
  · have hlast : i - 8 - 8 - 8 < 8 := by omega
    simp [hlast]
    congr 1
    omega

theorem region_accepted (h : ¬ regionRejected type.size (some array) start length buffer) :
    start.toNat + length.toNat ≤ array.length ∧ array.elementSize = type.size.toNat := by
  simp only [regionRejected, decide_eq_true_eq, not_or, not_lt, not_not] at h
  exact ⟨by omega, h.2.2.2.2.2.2⟩

theorem element_accepted (h : ¬ elementRejected (some array) index) :
    index.toNat < array.length ∧ array.elementSize = 4 := by
  simp only [elementRejected, arrayIndex, decide_eq_true_eq, not_or, not_not] at h
  exact ⟨h.1.2.2, h.2⟩

/-- The product of the size does not wrap, and the range is empty or inside. -/
theorem Handle.Valid.region (h : array.Valid) (hstored : array.length = 0 ∨ array.data.isSome)
    (haccepted : ¬ regionRejected type.size (some array) start length buffer) :
    (length * type.size).toNat = length.toNat * type.size.toNat ∧
      (length.toNat = 0 ∨ Inside array.data (start.toNat * type.size.toNat)
        (length.toNat * type.size.toNat)) := by
  obtain ⟨hle, hsize⟩ := region_accepted haccepted
  rw [BitVec.toNat_mul]
  obtain hempty | hsome := hstored
  · have hzero : length.toNat = 0 := by omega
    simp [hzero]
  · obtain ⟨contents, hdata⟩ := Option.isSome_iff_exists.mp hsome
    obtain ⟨hlength, hbound⟩ := h.array contents hdata
    have hinside : start.toNat * type.size.toNat + length.toNat * type.size.toNat ≤
        contents.length := by
      rw [hlength, hsize, ← Nat.add_mul]
      exact Nat.mul_le_mul_right _ hle
    exact ⟨Nat.mod_eq_of_lt (by omega), Or.inr ⟨contents, hdata, hinside⟩⟩

theorem Handle.Valid.element (h : array.Valid) (hstored : array.length = 0 ∨ array.data.isSome)
    (haccepted : ¬ elementRejected (some array) index) :
    Inside array.data (4 * index.toNat) 4 := by
  obtain ⟨hlt, hsize⟩ := element_accepted haccepted
  obtain hempty | hsome := hstored
  · omega
  · obtain ⟨contents, hdata⟩ := Option.isSome_iff_exists.mp hsome
    obtain ⟨hlength, -⟩ := h.array contents hdata
    refine ⟨contents, hdata, ?_⟩
    rw [hlength, hsize]
    omega

theorem Table.Sound.access_inside (h : t.Sound) (hp : t.heap p = some array)
    (hstored : array.length = 0 ∨ array.data.isSome) (access : Access)
    (haccepted : ¬ access.rejected (handleAt t p)) (hcount : 0 < access.count) :
    array.data.isSome ∧ Inside array.data access.offset access.bytes := by
  have hvalid := h.valid p array hp
  rw [h.chained.handleAt, hp] at haccepted
  have hinside : Inside array.data access.offset access.bytes := by
    cases access with
    | getRegion type start length output =>
      obtain ⟨-, hzero | hinside⟩ := hvalid.region hstored haccepted
      · exact absurd hzero (Nat.pos_iff_ne_zero.mp hcount)
      · exact hinside
    | setRegion type start length input =>
      obtain ⟨-, hzero | hinside⟩ := hvalid.region hstored haccepted
      · exact absurd hzero (Nat.pos_iff_ne_zero.mp hcount)
      · exact hinside
    | getElement index => exact hvalid.element hstored haccepted
    | setElement index value => exact hvalid.element hstored haccepted
  exact ⟨hinside.isSome, hinside⟩

/-- A rejected access only throws. -/
theorem Table.Sound.access_refused (h : t.Sound) (hp : t.heap p = some array) (access : Access)
    {classItem throwable : Pointer} (pending : Pointer)
    (hrejected : access.rejected (handleAt t p)) (hfresh : t.FreshAll [classItem, throwable]) :
    ∃ e, (access.operation classItem throwable p).perform ⟨t, pending⟩ = some (access.refusal, e) ∧
      e.table.heap p = some array ∧ e.pending ≠ 0 := by
  have hthrow : ∀ message, ∃ e, throwIndex classItem throwable message ⟨t, pending⟩ = e ∧
      e.table.heap p = some array ∧ e.pending ≠ 0 := by
    intro message
    obtain ⟨hgrows, hpending⟩ := Table.Sound.throwClass (e := ⟨t, pending⟩) h hfresh
      (literal "java/lang/ArrayIndexOutOfBoundsException") (literal message)
    refine ⟨_, rfl, hgrows.kept p array hp, ?_⟩
    rw [throwIndex, hpending]
    exact (hfresh.2 throwable (by simp)).nonnull
  cases access with
  | getRegion type start length output =>
    obtain ⟨e, he, hkept⟩ := hthrow "GetArrayRegion"
    refine ⟨e, ?_, hkept⟩
    simp only [Access.rejected] at hrejected
    simp only [Access.operation, Operation.perform, getArrayRegion]
    rw [if_pos hrejected, he]
    rfl
  | setRegion type start length input =>
    obtain ⟨e, he, hkept⟩ := hthrow "SetArrayRegion"
    refine ⟨e, ?_, hkept⟩
    simp only [Access.rejected] at hrejected
    simp only [Access.operation, Operation.perform, setArrayRegion]
    rw [if_pos hrejected, he]
    rfl
  | getElement index =>
    obtain ⟨e, he, hkept⟩ := hthrow "GetObjectArrayElement"
    refine ⟨e, ?_, hkept⟩
    simp only [Access.rejected] at hrejected
    simp only [Access.operation, Operation.perform, getObjectArrayElement]
    rw [if_pos hrejected, he]
    rfl
  | setElement index value =>
    obtain ⟨e, he, hkept⟩ := hthrow "SetObjectArrayElement"
    refine ⟨e, ?_, hkept⟩
    simp only [Access.rejected] at hrejected
    simp only [Access.operation, Operation.perform, setObjectArrayElement]
    rw [if_pos hrejected, he]
    rfl

/-- After a store the array is found with its new contents, and the rest as it was. -/
theorem Table.Sound.stored_heap (h : t.Sound) (hp : t.heap p = some array) {offset : Nat}
    {values : List Byte} {data : Option (List Byte)}
    (hwrite : writeBlock array.data offset values = some data) (pending : Pointer) :
    handleAt (Jni.storeData p data ⟨t, pending⟩).table p = some { array with data } ∧
      (Jni.storeData p data ⟨t, pending⟩).table.heap p = some { array with data } ∧
      ∀ q, q ≠ p → (Jni.storeData p data ⟨t, pending⟩).table.heap q = t.heap q := by
  have hheap : (Jni.storeData p data ⟨t, pending⟩).table.heap p = some { array with data } := by
    simp [Jni.storeData, modifyHandle, hp]
  obtain ⟨hsound, -⟩ := Table.Sound.storeData (e := ⟨t, pending⟩) h hp hwrite
  refine ⟨by rw [hsound.chained.handleAt, hheap], hheap, fun q hq => ?_⟩
  simp [Jni.storeData, modifyHandle, hq]

theorem Table.Sound.region_written (h : t.Sound) (hp : t.heap p = some array)
    (hstored : array.length = 0 ∨ array.data.isSome) (type : ElementType)
    (start length : BitVec 32) (input : Nat → Byte) (classItem throwable pending : Pointer)
    (haccepted : ¬ regionRejected type.size (handleAt t p) start length true) :
    ∃ e data,
      (Operation.setRegion type classItem throwable p start length (some input)).perform
        ⟨t, pending⟩ = some (.accepted true, e) ∧
      (Operation.getRegion type classItem throwable p start length true).perform e =
        some (.region (some ((List.range (length.toNat * type.size.toNat)).map input)), e) ∧
      e.table.heap p = some { array with data } ∧
      (∀ q, q ≠ p → e.table.heap q = t.heap q) ∧
      ∀ i, i < start.toNat * type.size.toNat ∨
          start.toNat * type.size.toNat + length.toNat * type.size.toNat ≤ i →
        (data.getD [])[i]? = (array.data.getD [])[i]? := by
  have hvalid := h.valid p array hp
  rw [h.chained.handleAt, hp] at haccepted
  obtain ⟨hproduct, hrange⟩ := hvalid.region hstored haccepted
  have hlength : ((List.range (length.toNat * type.size.toNat)).map input).length =
      length.toNat * type.size.toNat := by simp
  have hdefined : (writeBlock array.data (start.toNat * type.size.toNat)
      ((List.range (length.toNat * type.size.toNat)).map input)).isSome := by
    rw [writeBlock_isSome, hlength]
    refine hrange.imp (fun hzero => ?_) id
    simp [hzero]
  obtain ⟨data, hwrite⟩ := Option.isSome_iff_exists.mp hdefined
  obtain ⟨hfound, hheap, hothers⟩ := h.stored_heap hp hwrite pending
  have hread := readBlock_writeBlock hwrite
  rw [hlength] at hread
  refine ⟨Jni.storeData p data ⟨t, pending⟩, data, ?_, ?_, hheap, hothers, fun i hi => ?_⟩
  · simp only [Operation.perform, setArrayRegion]
    rw [h.chained.handleAt, hp, Option.isSome_some, if_neg haccepted, hproduct]
    simp only [Option.bind_some, Option.getD_some, hwrite]
    rfl
  · have haccepted' : ¬ regionRejected type.size (some { array with data }) start length true :=
      haccepted
    simp only [Operation.perform, getArrayRegion]
    rw [hfound, if_neg haccepted', hproduct]
    simp only [Option.bind_some, hread]
    rfl
  · rw [← hlength] at hi
    exact (writeBlock_outside hwrite).2.2 i hi

theorem Table.Sound.element_written (h : t.Sound) (hp : t.heap p = some array)
    (hstored : array.length = 0 ∨ array.data.isSome) (index : BitVec 32) (value : Pointer)
    (classItem throwable pending : Pointer) (haccepted : ¬ elementRejected (handleAt t p) index) :
    ∃ e data,
      (Operation.setElement classItem throwable p index value).perform ⟨t, pending⟩ =
        some (.accepted true, e) ∧
      (Operation.getElement classItem throwable p index).perform e =
        some (.element (some value), e) ∧
      e.table.heap p = some { array with data } ∧
      (∀ q, q ≠ p → e.table.heap q = t.heap q) ∧
      ∀ i, i < 4 * index.toNat ∨ 4 * index.toNat + 4 ≤ i →
        (data.getD [])[i]? = (array.data.getD [])[i]? := by
  have hvalid := h.valid p array hp
  rw [h.chained.handleAt, hp] at haccepted
  have hinside := hvalid.element hstored haccepted
  have hdefined : (writeBlock array.data (4 * index.toNat) (pointerBytes value)).isSome :=
    writeBlock_isSome.mpr (Or.inr hinside)
  obtain ⟨data, hwrite⟩ := Option.isSome_iff_exists.mp hdefined
  obtain ⟨hfound, hheap, hothers⟩ := h.stored_heap hp hwrite pending
  have hread : readBlock data (4 * index.toNat) 4 = some (pointerBytes value) :=
    readBlock_writeBlock hwrite
  refine ⟨Jni.storeData p data ⟨t, pending⟩, data, ?_, ?_, hheap, hothers, fun i hi => ?_⟩
  · simp only [Operation.perform, setObjectArrayElement]
    rw [h.chained.handleAt, hp, if_neg haccepted]
    simp only [Option.bind_some, hwrite]
    rfl
  · have haccepted' : ¬ elementRejected (some { array with data }) index := haccepted
    simp only [Operation.perform, getObjectArrayElement]
    rw [hfound, if_neg haccepted']
    simp only [Option.bind_eq_bind, Option.bind_some, Option.pure_def, hread,
      bytesPointer_pointerBytes]
  · exact (writeBlock_outside hwrite).2.2 i hi

/-- An array with elements has a type whose first element is accepted. -/
theorem exists_accepted (h : array.Valid) (hkind : array.kind = .array) (hpos : array.length ≠ 0) :
    ∃ type : ElementType, ¬ regionRejected type.size (some array) 0 1 true := by
  obtain ⟨type, htype⟩ := h.sized hkind
  refine ⟨type, ?_⟩
  simp only [regionRejected, decide_eq_true_eq, hkind, htype]
  simp
  omega

/-- An array of a run has the length and the element size that the call asked for which made
it, and it has contents exactly if that call got them. -/
theorem array_made {events : List (Thread × Operation)} {s : Bridge}
    (hrun : run Bridge.step emptyBridge events = some s) (hp : s.table.heap p = some array)
    (hkind : array.kind = .array) :
    ∃ event ∈ events, ∃ asked, event.2.makes p = some asked ∧
      array.length = asked.length.toNat ∧ array.elementSize = asked.elementSize.toNat ∧
      (array.data.isSome ↔
        (arrayData asked.length asked.elementSize asked.allocated).isSome) := by
  have hmade : ∀ p array, s.table.heap p = some array → array.kind = .array →
      ∃ event ∈ [] ++ events, event.2.Makes p array.shape := by
    refine run_history (P := fun past s => ∀ p array, s.table.heap p = some array →
      array.kind = .array → ∃ event ∈ past, event.2.Makes p array.shape) ?_ ?_ hrun
    · intro past s event s' hpast hstep p array hp hkind
      obtain ⟨old, hold, hkind', hshape⟩ | hnew := (Keeps.step hstep).2.arrays p array hp hkind
      · obtain ⟨maker, hmem, hmakes⟩ := hpast p old hold hkind'
        exact ⟨maker, List.mem_append_left _ hmem, hshape ▸ hmakes⟩
      · exact ⟨event, List.mem_append_right _ List.mem_cons_self, hnew⟩
    · intro p array hp
      cases hp
  obtain ⟨event, hmem, asked, hmakes, hshape⟩ := hmade p array hp hkind
  simp only [Asked.shape, Handle.shape, Prod.mk.injEq] at hshape
  obtain ⟨hlength, hsize, hcontents⟩ := hshape
  exact ⟨event, hmem, asked, hmakes, hlength.symm, hsize.symm, by rw [hcontents]⟩

/-- In every state of the bridge an array's storage is safe exactly when there is nothing to
store in it or its contents have been allocated. -/
theorem storage_safe_iff {events : List (Thread × Operation)} {s : Bridge}
    (hrun : run Bridge.step emptyBridge events = some s) (hp : s.table.heap p = some array)
    (hkind : array.kind = .array) :
    StorageSafe s.table p array ↔ array.length = 0 ∨ array.data.isSome := by
  have h := (refines_of_run hrun).sound
  constructor
  · intro hsafe
    by_contra hnot
    rw [not_or] at hnot
    obtain ⟨type, haccepted⟩ := exists_accepted (h.valid p array hp) hkind hnot.1
    rw [← hp, ← h.chained.handleAt] at haccepted
    exact hnot.2 (hsafe.inside (.getRegion type 0 1 true) haccepted Nat.one_pos).1
  · intro hstored
    exact
      { inside := h.access_inside hp hstored
        refused := fun access _ _ pending => h.access_refused hp access pending
        region := h.region_written hp hstored
        element := h.element_written hp hstored }

def newIntArray (length : BitVec 32) : List (Thread × Operation) :=
  [(0, .newPrimitiveArray .int 16 32 length true)]

theorem storage_safe_iff_small : ∃ s array, run Bridge.step emptyBridge (newIntArray 3) = some s ∧
    s.table.heap 16 = some array ∧ StorageSafe s.table 16 array := by
  have hheap : (run Bridge.step emptyBridge (newIntArray 3)).bind (fun s => s.table.heap 16) =
      some (arrayHandle (literal "[I") 3 4 true) := by decide +kernel
  obtain ⟨s, hrun, hp⟩ := Option.bind_eq_some_iff.mp hheap
  exact ⟨s, _, hrun, hp, (storage_safe_iff hrun hp rfl).mpr (Or.inr (by decide))⟩

/-- The contents of so many elements are refused, but their number is recorded. -/
theorem storage_not_safe : ¬ ∀ events s p array, run Bridge.step emptyBridge events = some s →
    s.table.heap p = some array → array.kind = .array → StorageSafe s.table p array := by
  intro hall
  have hheap : (run Bridge.step emptyBridge (newIntArray 0x40000000)).bind
      (fun s => s.table.heap 16) = some (arrayHandle (literal "[I") 0x40000000 4 true) := by
    decide +kernel
  obtain ⟨s, hrun, hp⟩ := Option.bind_eq_some_iff.mp hheap
  have hsafe := hall _ s 16 _ hrun hp rfl
  have haccepted : ¬ (Access.getRegion .int 0 1 true).rejected (handleAt s.table 16) := by
    rw [(refines_of_run hrun).sound.chained.handleAt, hp]
    decide +kernel
  have hsome := (hsafe.inside (.getRegion .int 0 1 true) haccepted Nat.one_pos).1
  exact absurd hsome (by decide +kernel)

end Storage

end Asm2Runtime.Jni
