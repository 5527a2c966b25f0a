import Asm2Runtime.JniBridge
import Mathlib.Algebra.BigOperators.Group.Finset.Basic

/-!
# Invariant of the JNI bridge

Every handle is valid: a string has the units of its text, an array has room for its
elements, a Bundle has one entry for each key. What an allocation, a store to a handle and
a throw keep.
-/

namespace Asm2Runtime.Jni

open JniUtf BlockAccess KeyedChain

section Validity

def entryKey (entry : BundleEntry) : CString := entry.key
def entryContent (entry : BundleEntry) : Content := .of entry.kind entry.value

/-- What every handle keeps of its text, its block and its entries. -/
structure Handle.Valid (handle : Handle) : Prop where
  string : handle.kind = .string →
    ∃ text, handle.text = some text ∧ handle.utf16 = JniUtf.fillUtf16 text
  array : ∀ contents, handle.data = some contents →
    contents.length = handle.length * handle.elementSize ∧ contents.length < 2 ^ 32
  sized : handle.kind = .array → ∃ type : ElementType, handle.elementSize = type.size.toNat
  unique : Unique entryKey handle.bundleEntries
  keys : ∀ entry ∈ handle.bundleEntries, entry.key.bytes ≠ []
  bundle : handle.bundleEntries ≠ [] → isBundle handle

/-- The entries of a pointer's handle. -/
def entriesAt (t : Table) (p : Pointer) : List BundleEntry :=
  ((t.heap p).map Handle.bundleEntries).getD []

/-- What the counter of live entries has to say. -/
def entryCount (t : Table) : Nat := ∑ p ∈ t.handles.toFinset, (entriesAt t p).length

/-- The registry, its handles and its counter of entries. -/
structure Table.Sound (t : Table) : Prop where
  chained : t.Chained
  valid : ∀ p handle, t.heap p = some handle → handle.Valid
  entries : t.stats.bundleEntries = entryCount t

/-- The map of each Bundle. -/
def bundlesOf (t : Table) : Bundles := fun p =>
  (t.heap p).bind fun handle =>
    if isBundle handle then some (toMap entryKey entryContent handle.bundleEntries) else none

theorem sound_empty : emptyTable.Sound :=
  ⟨chained_empty, fun _ _ h => (nomatch h), rfl⟩

variable {t t' : Table} {p item : Pointer} {handle : Handle}

theorem Table.Chained.handleAt (h : t.Chained) (p : Pointer) : Jni.handleAt t p = t.heap p := by
  rw [Jni.handleAt, h.lookupHandle]
  cases hp : t.heap p <;> simp [hp]

theorem Table.Chained.findHandle_bind (h : t.Chained) (p : Pointer) :
    (Jni.findHandle t p).bind t.heap = t.heap p := by
  rw [h.findHandle]
  cases hp : t.heap p <;> simp [hp]

/-- A handle without text, block and entries has nothing to keep. -/
theorem Handle.Valid.new (kind : HandleKind) (className : Option CString) (hkind : kind ≠ .string)
    (harray : kind ≠ .array) : (newHandle kind className).Valid := by
  refine ⟨fun h => absurd h hkind, ?_, fun h => absurd h harray, List.nodup_nil, ?_,
    fun h => absurd rfl h⟩
  · intro contents h
    cases h
  · intro entry h
    cases h

theorem Request.handle_valid (r : Request) : r.handle.Valid := by
  cases r with
  | string text =>
    have hnone : ∀ entry ∈ (Request.string text).handle.bundleEntries, entry.key.bytes ≠ [] := by
      intro entry h
      cases h
    refine ⟨fun _ => ⟨text.getD emptyText, rfl, rfl⟩, ?_, fun h => (nomatch h), List.nodup_nil,
      hnone, fun h => absurd rfl h⟩
    intro contents h
    cases h
  | id kind className name signature isStatic =>
    have h := Handle.Valid.new kind.kind (some className) (by cases kind <;> simp [IdKind.kind])
      (by cases kind <;> simp [IdKind.kind])
    refine ⟨fun hkind => ?_, h.array, h.sized, h.unique, h.keys, h.bundle⟩
    cases kind <;> cases hkind
  | _ => exact Handle.Valid.new _ _ (by simp) (by simp)

end Validity

section Growth

variable {t t' : Table} {p item : Pointer} {handle : Handle}

/-- Handles have been added at some of the pointers; none of the old handles has changed,
and no Bundle is among the new ones. -/
structure Grows (items : List Pointer) (t t' : Table) : Prop where
  sound : t'.Sound
  kept : ∀ p handle, t.heap p = some handle → t'.heap p = some handle
  others : ∀ p, p ∉ items → t'.heap p = t.heap p
  bundles : bundlesOf t' = bundlesOf t

theorem Grows.refl (h : t.Sound) (items : List Pointer) : Grows items t t :=
  ⟨h, fun _ _ hp => hp, fun _ _ => rfl, rfl⟩

theorem Grows.trans {t'' : Table} {items items' : List Pointer} (h : Grows items t t')
    (h' : Grows items' t' t'') : Grows (items ++ items') t t'' := by
  refine ⟨h'.sound, fun p handle hp => h'.kept p handle (h.kept p handle hp), fun p hp => ?_,
    h'.bundles.trans h.bundles⟩
  rw [List.mem_append, not_or] at hp
  rw [h'.others p hp.2, h.others p hp.1]

theorem Grows.fresh {items : List Pointer} (h : Grows items t t') (hfresh : t.Fresh item)
    (hitem : item ∉ items) : t'.Fresh item :=
  ⟨hfresh.nonnull, (h.others item hitem).trans hfresh.free⟩

theorem bundlesOf_update (h : ∀ q, t'.heap q = Function.update t.heap p (some handle) q) :
    bundlesOf t' = Function.update (bundlesOf t) p
      (if isBundle handle then some (toMap entryKey entryContent handle.bundleEntries) else none) := by
  funext q
  by_cases hq : q = p
  · subst hq
    simp [bundlesOf, h]
  · simp [bundlesOf, h, hq]

theorem Table.Sound.store (h : t.Sound) (hfresh : t.Fresh item) (hvalid : handle.Valid)
    (hentries : handle.bundleEntries = []) : (storeHandle item handle t).Sound := by
  have hheap : (storeHandle item handle t).heap = Function.update t.heap item (some handle) :=
    storeHandle_heap item handle t
  refine ⟨h.chained.store hfresh handle, fun p handle' hp => ?_, ?_⟩
  · rw [hheap] at hp
    by_cases hpitem : p = item
    · subst hpitem
      rw [Function.update_self] at hp
      exact Option.some.inj hp ▸ hvalid
    · rw [Function.update_of_ne hpitem] at hp
      exact h.valid p handle' hp
  · have hnew : item ∉ t.handles.toFinset := by
      rw [List.mem_toFinset, h.chained.allocated, hfresh.free]
      simp
    have hstats : (storeHandle item handle t).stats.bundleEntries = t.stats.bundleEntries := by
      change (Stats.count _ handle.kind).bundleEntries = _
      cases handle.kind <;> rfl
    have hlist : (storeHandle item handle t).handles.toFinset = insert item t.handles.toFinset :=
      List.toFinset_cons
    have hitem : entriesAt (storeHandle item handle t) item = [] := by
      simp [entriesAt, hentries]
    have hold : ∀ p ∈ t.handles.toFinset,
        (entriesAt (storeHandle item handle t) p).length = (entriesAt t p).length := by
      intro p hp
      have hne : p ≠ item := fun heq => hnew (heq ▸ hp)
      simp [entriesAt, hne]
    rw [hstats, h.entries, entryCount, entryCount, hlist, Finset.sum_insert hnew, hitem,
      Finset.sum_congr rfl hold, List.length_nil, Nat.zero_add]

/-- A valid store to an allocated handle, with the entries counted. -/
theorem Table.Sound.modify {f : Handle → Handle} {count : Nat} (h : t.Sound)
    (hp : t.heap p = some handle) (hvalid : (f handle).Valid)
    (hcount : count + handle.bundleEntries.length =
      t.stats.bundleEntries + (f handle).bundleEntries.length) :
    Table.Sound
      { modifyHandle p f t with stats := { t.stats with bundleEntries := count } } := by
  have hheap : (modifyHandle p f t).heap = Function.update t.heap p (some (f handle)) := by
    simp [modifyHandle, hp]
  have hmem : p ∈ t.handles.toFinset := by
    rw [List.mem_toFinset, h.chained.allocated, hp]
    rfl
  have hchained := h.chained.modify p f
  refine ⟨⟨hchained.allocated, hchained.nodup, hchained.nonnull, hchained.bucket,
    hchained.bucketNodup, hchained.counted⟩, fun q handle' hq => ?_, ?_⟩
  · change (modifyHandle p f t).heap q = _ at hq
    rw [hheap] at hq
    by_cases hqp : q = p
    · subst hqp
      rw [Function.update_self] at hq
      exact Option.some.inj hq ▸ hvalid
    · rw [Function.update_of_ne hqp] at hq
      exact h.valid q handle' hq
  · have hsum : entryCount (modifyHandle p f t) + handle.bundleEntries.length =
        entryCount t + (f handle).bundleEntries.length := by
      have hrest : ∀ q ∈ t.handles.toFinset.erase p,
          (entriesAt (modifyHandle p f t) q).length = (entriesAt t q).length := by
        intro q hq
        simp [entriesAt, hheap, Finset.ne_of_mem_erase hq]
      have hnew := Finset.add_sum_erase t.handles.toFinset
        (fun q => (entriesAt (modifyHandle p f t) q).length) hmem
      have hold := Finset.add_sum_erase t.handles.toFinset (fun q => (entriesAt t q).length) hmem
      rw [Finset.sum_congr rfl hrest] at hnew
      have hat : (entriesAt t p).length = handle.bundleEntries.length := by simp [entriesAt, hp]
      have hat' : (entriesAt (modifyHandle p f t) p).length = (f handle).bundleEntries.length := by
        simp [entriesAt, hheap]
      change _ = entryCount t at hold
      change _ = entryCount (modifyHandle p f t) at hnew
      omega
    have := h.entries
    change count = entryCount (modifyHandle p f t)
    omega

theorem Table.Sound.grows_store (h : t.Sound) (hfresh : t.Fresh item) (hvalid : handle.Valid)
    (hbundle : isBundle handle = false) : Grows [item] t (storeHandle item handle t) := by
  have hheap := storeHandle_heap item handle t
  have hentries : handle.bundleEntries = [] := by
    by_contra hne
    rw [hvalid.bundle hne] at hbundle
    cases hbundle
  refine ⟨h.store hfresh hvalid hentries, fun p handle' hp => ?_, fun p hp => ?_, ?_⟩
  · have hne : p ≠ item := by
      rintro rfl
      rw [hfresh.free] at hp
      cases hp
    rw [hheap, Function.update_of_ne hne, hp]
  · rw [hheap, Function.update_of_ne (List.ne_of_not_mem_cons hp)]
  · have hfree : bundlesOf t item = none := by simp [bundlesOf, hfresh.free]
    rw [bundlesOf_update (fun q => congrFun hheap q), hbundle]
    exact (congrArg _ hfree.symm).trans (Function.update_eq_self item _)

/-- Counters other than those of the handles and of the entries do not matter. -/
theorem Table.Sound.of_fields (h : t.Sound) (hheap : t'.heap = t.heap)
    (hhandles : t'.handles = t.handles) (hbuckets : t'.handleBuckets = t.handleBuckets)
    (hcounted : t'.stats.handles = t.stats.handles)
    (hentries : t'.stats.bundleEntries = t.stats.bundleEntries) : t'.Sound := by
  refine ⟨⟨?_, ?_, ?_, ?_, ?_, ?_⟩, ?_, ?_⟩
  · rw [hhandles, hheap]
    exact h.chained.allocated
  · rw [hhandles]
    exact h.chained.nodup
  · rw [hhandles]
    exact h.chained.nonnull
  · rw [hbuckets, hhandles]
    exact h.chained.bucket
  · rw [hbuckets]
    exact h.chained.bucketNodup
  · rw [hcounted, hhandles]
    exact h.chained.counted
  · rw [hheap]
    exact h.valid
  · rw [hentries, h.entries]
    unfold entryCount entriesAt
    rw [hhandles, hheap]

theorem Grows.of_fields {t'' : Table} {items : List Pointer} (h : Grows items t t')
    (hheap : t''.heap = t'.heap) (hhandles : t''.handles = t'.handles)
    (hbuckets : t''.handleBuckets = t'.handleBuckets)
    (hcounted : t''.stats.handles = t'.stats.handles)
    (hentries : t''.stats.bundleEntries = t'.stats.bundleEntries) : Grows items t t'' := by
  refine ⟨h.sound.of_fields hheap hhandles hbuckets hcounted hentries, ?_, ?_, ?_⟩
  · rw [hheap]
    exact h.kept
  · rw [hheap]
    exact h.others
  · rw [← h.bundles]
    unfold bundlesOf
    rw [hheap]

theorem Grows.publish {items : List Pointer} (h : Grows items t t') (p : Pointer) (b : Bucket) :
    Grows items t (publishIntern p b t') :=
  h.of_fields rfl rfl rfl rfl rfl

/-- Contents of the right size are stored in an array. -/
theorem Table.Sound.modify_data {f : Handle → Handle} {data : Option (List Byte)} (h : t.Sound)
    (hp : t.heap p = some handle) (hf : f handle = { handle with data })
    (hdata : ∀ contents, data = some contents →
      contents.length = handle.length * handle.elementSize ∧ contents.length < 2 ^ 32) :
    (modifyHandle p f t).Sound ∧ bundlesOf (modifyHandle p f t) = bundlesOf t := by
  have hold := h.valid p handle hp
  constructor
  · have hcount : t.stats.bundleEntries + handle.bundleEntries.length =
        t.stats.bundleEntries + (f handle).bundleEntries.length := by rw [hf]
    refine h.modify hp ?_ hcount
    rw [hf]
    exact ⟨hold.string, hdata, hold.sized, hold.unique, hold.keys, hold.bundle⟩
  · have hheap : ∀ q, (modifyHandle p f t).heap q = Function.update t.heap p (some (f handle)) q := by
      simp [modifyHandle, hp]
    have hsame : bundlesOf t p = if isBundle (f handle) then
        some (toMap entryKey entryContent (f handle).bundleEntries) else none := by
      rw [hf]
      simp [bundlesOf, hp, isBundle]
    rw [bundlesOf_update hheap, ← hsame, Function.update_eq_self]

theorem Grows.modify_data {items : List Pointer} {f : Handle → Handle}
    {data : Option (List Byte)} (h : Grows items t t') (hmem : p ∈ items) (hfree : t.heap p = none)
    (hp : t'.heap p = some handle) (hf : f handle = { handle with data })
    (hdata : ∀ contents, data = some contents →
      contents.length = handle.length * handle.elementSize ∧ contents.length < 2 ^ 32) :
    Grows items t (modifyHandle p f t') := by
  obtain ⟨hsound, hbundles⟩ := h.sound.modify_data hp hf hdata
  refine ⟨hsound, fun q handle' hq => ?_, fun q hq => ?_, hbundles.trans h.bundles⟩
  · have hne : q ≠ p := by
      rintro rfl
      rw [hfree] at hq
      cases hq
    simpa [modifyHandle, hne] using h.kept q handle' hq
  · have hne : q ≠ p := fun heq => hq (heq ▸ hmem)
    simpa [modifyHandle, hne] using h.others q hq

end Growth

section Creation

variable {t t' : Table} {p item classItem throwable outOfMemory : Pointer} {e : Env}

theorem findIntern_handle {bucket : Bucket} {same : Handle → Bool}
    (h : findIntern t bucket same = some p) : ∃ handle, t.heap p = some handle ∧ same handle := by
  have hsame := List.find?_some h
  cases hp : t.heap p with
  | none => simp [hp] at hsame
  | some handle => exact ⟨handle, rfl, by simpa [hp] using hsame⟩

/-- A request is answered by a handle that was stored for it or passes its test. -/
theorem Table.Sound.answer (h : t.Sound) (hfresh : t.Fresh item) (r : Request)
    (hbundle : findIntern t r.bucket r.same = none → isBundle r.handle = false) :
    Grows [item] t (r.answer item t).2 ∧ ∃ handle,
      (r.answer item t).2.heap (r.answer item t).1 = some handle ∧
        (r.same handle ∨ handle = r.handle) := by
  rw [r.answer_eq]
  cases hfound : findIntern t r.bucket r.same with
  | some found =>
    obtain ⟨handle, hheap, hsame⟩ := findIntern_handle hfound
    exact ⟨Grows.refl h _, handle, hheap, Or.inl hsame⟩
  | none =>
    have hgrows := h.grows_store hfresh r.handle_valid (hbundle hfound)
    refine ⟨hgrows.publish _ _, r.handle, ?_, Or.inr rfl⟩
    exact (congrFun (storeHandle_heap item r.handle t) item).trans (Function.update_self ..)

theorem Table.Sound.internString (h : t.Sound) (hfresh : t.Fresh item) (text : Option CString) :
    Grows [item] t (Jni.internString item text t).2 ∧ ∃ handle,
      (Jni.internString item text t).2.heap (Jni.internString item text t).1 = some handle ∧
        handle.kind = .string ∧ handle.text = some (text.getD emptyText) := by
  obtain ⟨hgrows, handle, hheap, hstored⟩ := h.answer hfresh (.string text) fun _ => by
    have hkey := (Request.string text).handle_key
    have hkind : (Request.string text).handle.kind = .string := congrArg Key.kind hkey
    simp [isBundle, hkind]
  refine ⟨hgrows, handle, hheap, ?_⟩
  obtain hsame | rfl := hstored
  · simpa [Request.same, textEqual_iff] using hsame
  · have hkey := (Request.string text).handle_key
    exact ⟨congrArg Key.kind hkey, congrArg Key.text hkey⟩

/-- An exception is one new handle, and no Bundle. -/
theorem Table.Sound.throwNew (h : e.table.Sound) (hfresh : e.table.Fresh throwable)
    (classHandle : Pointer) (message : CString) :
    Grows [throwable] e.table (Jni.throwNew throwable classHandle message e).table := by
  unfold Jni.throwNew
  dsimp only
  rw [allocateHandle_store, modifyHandle_store _ _ _ _ rfl]
  have hvalid := Handle.Valid.new .throwable (some (((handleAt e.table classHandle).bind
    Handle.className).getD (literal "java/lang/RuntimeException"))) (by simp) (by simp)
  refine h.grows_store hfresh ?_ ?_
  · exact ⟨fun hkind => (nomatch hkind), hvalid.array, hvalid.sized, hvalid.unique, hvalid.keys,
      hvalid.bundle⟩
  · simp [isBundle, newHandle]

theorem Table.FreshAll.tail {items : List Pointer} (h : t.FreshAll (item :: items)) :
    t.FreshAll items :=
  ⟨(List.nodup_cons.mp h.1).2, fun p hp => h.2 p (List.mem_cons_of_mem item hp)⟩

/-- Two new addresses differ. -/
theorem Table.FreshAll.second {first second : Pointer} (h : t.FreshAll [first, second]) :
    second ∉ [first] := by
  have hnodup := h.1
  simp only [List.nodup_cons, List.mem_singleton] at hnodup
  simpa using fun heq => hnodup.1 heq.symm

theorem Table.Sound.throwClass (h : e.table.Sound) (hfresh : e.table.FreshAll [classItem, throwable])
    (className message : CString) :
    Grows [classItem, throwable] e.table
        (Jni.throwClass classItem throwable className message e).table ∧
      (Jni.throwClass classItem throwable className message e).pending = throwable := by
  obtain ⟨hgrows, -⟩ := h.answer (hfresh.2 classItem (by simp)) (.class (some className)) fun _ => by
    simp [isBundle, Request.handle, newHandle]
  have hthrowable := hgrows.fresh (hfresh.2 throwable (by simp)) hfresh.second
  refine ⟨hgrows.trans ?_, rfl⟩
  exact Table.Sound.throwNew (e := ⟨_, e.pending⟩) hgrows.sound hthrowable _ _

/-- The handle that `asm2_new_array` makes. -/
def arrayHandle (className : CString) (length elementSize : BitVec 32) (allocated : Bool) : Handle :=
  { newHandle .array (some className) with
    length := length.toNat, elementSize := elementSize.toNat
    data := arrayData length elementSize allocated }

/-- The block of an array is as large as its length and its elements say, without a wrap. -/
theorem arrayData_length {length elementSize : BitVec 32} {allocated : Bool} {contents : List Byte}
    (h : arrayData length elementSize allocated = some contents) :
    contents.length = length.toNat * elementSize.toNat ∧ contents.length < 2 ^ 32 := by
  unfold arrayData at h
  split at h
  · rename_i hfits
    obtain ⟨hlength, hsize, -⟩ := hfits
    have hpos : 0 < length.toNat := by
      rw [Nat.pos_iff_ne_zero]
      exact fun hzero => hlength (BitVec.eq_of_toNat_eq hzero)
    have hmul := (Nat.le_div_iff_mul_le hpos).mp hsize
    cases h
    rw [List.length_replicate, Nat.mul_comm]
    exact ⟨rfl, by omega⟩
  · cases h

theorem arrayHandle_valid (className : CString) (length : BitVec 32) (type : ElementType)
    (allocated : Bool) : (arrayHandle className length type.size allocated).Valid := by
  refine ⟨fun h => (nomatch h), fun contents hdata => arrayData_length hdata, fun _ => ⟨type, rfl⟩,
    List.nodup_nil, ?_, fun h => absurd rfl h⟩
  intro entry h
  cases h

/-- The new array, with an exception if it has no contents although it should. -/
theorem Table.Sound.newArray (h : e.table.Sound) (hfresh : e.table.FreshAll [item, outOfMemory])
    (className : CString) (length : BitVec 32) (type : ElementType) (allocated : Bool) :
    Grows [item, outOfMemory] e.table
        (Jni.newArray item outOfMemory className length type.size allocated e).table ∧
      (Jni.newArray item outOfMemory className length type.size allocated e).table.heap item =
        some (arrayHandle className length type.size allocated) := by
  have hlocked : Grows [item] e.table
      (newArrayLocked item className length type.size allocated e.table) := by
    unfold newArrayLocked
    dsimp only
    rw [allocateHandle_store, modifyHandle_store _ _ _ _ rfl]
    have hstored := h.grows_store (hfresh.2 item (by simp))
      (arrayHandle_valid className length type allocated) (by simp [isBundle, arrayHandle, newHandle])
    exact hstored.of_fields rfl rfl rfl rfl rfl
  have hheap : (newArrayLocked item className length type.size allocated e.table).heap item =
      some (arrayHandle className length type.size allocated) := by
    simp [newArrayLocked, modifyHandle, allocateHandle, arrayHandle]
  unfold Jni.newArray
  dsimp only
  split
  · have hmemory := hlocked.fresh (hfresh.2 outOfMemory (by simp)) hfresh.second
    obtain ⟨hgrows, -⟩ := hlocked.sound.answer hmemory
      (.object (some (literal "java/lang/OutOfMemoryError"))) fun _ => by decide
    exact ⟨hlocked.trans hgrows, hgrows.kept item _ hheap⟩
  · have hsame : Grows [outOfMemory]
        (newArrayLocked item className length type.size allocated e.table)
        (newArrayLocked item className length type.size allocated e.table) :=
      Grows.refl hlocked.sound _
    exact ⟨hlocked.trans hsame, hheap⟩

theorem Table.Sound.newPrimitiveArray (h : e.table.Sound)
    (hfresh : e.table.FreshAll [item, outOfMemory]) (type : ElementType) (length : BitVec 32)
    (allocated : Bool) :
    Grows [item, outOfMemory] e.table
      (Jni.newPrimitiveArray type item outOfMemory length allocated e).2.table := by
  unfold Jni.newPrimitiveArray
  split
  · exact Grows.refl h _
  · exact (h.newArray hfresh type.descriptor length type allocated).1

/-- Filling the elements keeps the block's size. -/
theorem fillElements_length (initial : Pointer) {length : Nat} {contents : List Byte}
    (h : 4 * length ≤ contents.length) :
    (fillElements initial length contents).length = contents.length := by
  unfold fillElements
  induction length with
  | zero => rfl
  | succ n ih =>
    rw [List.range_succ, List.foldl_append, List.foldl_cons, List.foldl_nil]
    have hold := ih (by omega)
    rw [overwrite_length, hold]
    rw [hold]
    change 4 * n + 4 ≤ contents.length
    omega

theorem Table.Sound.newObjectArray (h : e.table.Sound)
    (hfresh : e.table.FreshAll [item, outOfMemory]) (length : BitVec 32)
    (classHandle initial : Pointer) (allocated : Bool) :
    Grows [item, outOfMemory] e.table
      (Jni.newObjectArray item outOfMemory length classHandle initial allocated e).2.table := by
  unfold Jni.newObjectArray
  split
  · exact Grows.refl h _
  · obtain ⟨hgrows, hitem⟩ := h.newArray hfresh
      (objectDescriptor (((handleAt e.table classHandle).bind Handle.className).getD objectName))
      length .int allocated
    dsimp only
    split
    · refine hgrows.modify_data (by simp) (hfresh.2 item (by simp)).free hitem rfl ?_
      intro contents hcontents
      obtain ⟨old, hold, rfl⟩ := Option.map_eq_some_iff.mp hcontents
      obtain ⟨hlength, hbound⟩ := arrayData_length hold
      have hfill : 4 * length.toNat ≤ old.length := by
        rw [hlength, Nat.mul_comm]
        exact Nat.le_refl _
      rw [fillElements_length initial hfill]
      exact ⟨hlength, hbound⟩
    · exact hgrows

end Creation

section Storage

variable {t : Table} {array : Pointer} {e : Env} {handle : Handle} {offset : Nat}
  {values : List Byte} {data : Option (List Byte)}

/-- What is written into an array keeps its size. -/
theorem Handle.Valid.written (h : handle.Valid)
    (hwrite : writeBlock handle.data offset values = some data) :
    ∀ contents, data = some contents →
      contents.length = handle.length * handle.elementSize ∧ contents.length < 2 ^ 32 := by
  intro contents hdata
  subst hdata
  obtain ⟨hsome, hlength, -⟩ := writeBlock_outside hwrite
  cases hold : handle.data with
  | none =>
    rw [hold] at hsome
    cases hsome
  | some old =>
    rw [hold, Option.getD_some, Option.getD_some] at hlength
    rw [hlength]
    exact h.array old hold

theorem Table.Sound.storeData (h : e.table.Sound) (hp : e.table.heap array = some handle)
    (hwrite : writeBlock handle.data offset values = some data) :
    (Jni.storeData array data e).table.Sound ∧
      bundlesOf (Jni.storeData array data e).table = bundlesOf e.table :=
  h.modify_data hp rfl ((h.valid array handle hp).written hwrite)

end Storage

end Asm2Runtime.Jni
