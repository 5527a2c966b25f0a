import Asm2Runtime.JniInvariant

/-!
# Bundles as maps

Each operation on the table of handles, seen on the maps of the Bundles; the calls of both
sides on any Bundles do what the maps say, in every run.
-/

namespace Asm2Runtime.Jni

open JniUtf BlockAccess KeyedChain Transition EventLog

section Sets

variable {t : Table} {bundle : Pointer} {item : Handle} {k : CString} {kind : BundleValueKind}
  {value : JniValue}

def putEntry (k : CString) (kind : BundleValueKind) (value : JniValue) (item : Handle) : Handle :=
  { item with bundleEntries := put entryKey { key := k, kind, value } item.bundleEntries }

/-- The entries after a put are counted. -/
def putCount (k : CString) (item : Handle) (count : Nat) : Nat :=
  if (toMap entryKey entryContent item.bundleEntries k).isSome then count else count + 1

theorem BundleCall.apply_put {s : Bundles} {m : BundleMap} (hm : s bundle = some m)
    (hk : k.bytes ≠ []) (content : Content) :
    (BundleCall.put bundle (some k) content).apply s =
      Function.update s bundle (some (Function.update m k (some content))) := by
  simp only [BundleCall.apply, hm, if_neg hk]

theorem BundleCall.apply_put_refused {s : Bundles} {key : Option CString}
    (hrefused : ¬ s.Takes bundle key) (content : Content) :
    (BundleCall.put bundle key content).apply s = s := by
  unfold BundleCall.apply
  dsimp only
  split
  · rename_i m k hm
    split
    · rfl
    · rename_i hk
      exact absurd ⟨by simp [hm], k, rfl, hk⟩ hrefused
  · rfl

theorem bundlesOf_bundle (hitem : t.heap bundle = some item) (hbundle : isBundle item) :
    bundlesOf t bundle = some (toMap entryKey entryContent item.bundleEntries) := by
  simp [bundlesOf, hitem, hbundle]

theorem exists_of_bundlesOf (h : (bundlesOf t bundle).isSome) :
    ∃ item, t.heap bundle = some item ∧ isBundle item := by
  unfold bundlesOf at h
  cases hitem : t.heap bundle with
  | none => simp [hitem] at h
  | some item => exact ⟨item, rfl, by simpa [hitem] using h⟩

theorem modifyHandle_eq (hitem : t.heap bundle = some item) (f : Handle → Handle) :
    modifyHandle bundle f t = { t with heap := Function.update t.heap bundle (some (f item)) } := by
  simp [modifyHandle, hitem]

theorem putCount_of_index {i count : Nat} (h : indexOf entryKey item.bundleEntries k = some i) :
    putCount k item count = count := by
  obtain ⟨before, x, after, hsplit, -, hkey, -⟩ := indexOf_some h
  refine if_pos (mem_keys_iff.mp ?_)
  rw [hsplit]
  simp [hkey]

theorem putCount_of_none {count : Nat} (h : indexOf entryKey item.bundleEntries k = none) :
    putCount k item count = count + 1 := by
  refine if_neg fun hsome => ?_
  obtain ⟨y, hy, hkey⟩ := List.mem_map.mp (mem_keys_iff.mpr hsome)
  exact indexOf_none h y hy hkey

theorem bundleFind_eq (hbundle : isBundle item) (k : CString) :
    bundleFind (some item) (some k) = indexOf entryKey item.bundleEntries k := by
  simp only [bundleFind, if_pos hbundle]
  rfl

theorem bundleSet_eq (h : t.Sound) (hitem : t.heap bundle = some item) (hbundle : isBundle item)
    (hk : k.bytes ≠ []) :
    bundleSet bundle (some k) kind value t =
      (true,
        { modifyHandle bundle (putEntry k kind value) t with
          stats := { t.stats with
            bundleEntries := putCount k item t.stats.bundleEntries } }) := by
  unfold bundleSet
  rw [h.chained.findHandle_bind, hitem]
  simp only [if_neg hk, if_pos hbundle, bundleFind_eq hbundle]
  rw [modifyHandle_eq hitem]
  cases hindex : indexOf entryKey item.bundleEntries k with
  | some i =>
    have hput := put_eq_modify (e := ({ key := k, kind, value } : BundleEntry))
      (f := fun entry => { entry with kind, value }) hindex fun x hx => by
        cases x
        cases hx
        rfl
    dsimp only
    rw [bundleStore, modifyHandle_eq hitem, putCount_of_index hindex, putEntry, hput]
  | none =>
    have hput : put entryKey { key := k, kind, value } item.bundleEntries =
        { key := k, kind, value } :: item.bundleEntries := by
      unfold put
      rw [show indexOf entryKey item.bundleEntries (entryKey { key := k, kind, value }) = none from
        hindex]
    dsimp only
    rw [putCount_of_none hindex, putEntry, hput, bundleStore, bundleInsert]
    simp [modifyHandle, hitem]

/-- The call changes nothing. -/
theorem bundleSet_refused (h : t.Sound) {key : Option CString}
    (hrefused : ¬ (bundlesOf t).Takes bundle key) :
    bundleSet bundle key kind value t = (false, t) := by
  cases key with
  | none => rfl
  | some k =>
    unfold bundleSet
    dsimp only
    split
    · rfl
    · rename_i hk
      rw [h.chained.findHandle_bind]
      cases hitem : t.heap bundle with
      | none => rfl
      | some item =>
        dsimp only
        split
        · rename_i hbundle
          refine absurd ⟨?_, k, rfl, hk⟩ hrefused
          simp [bundlesOf, hitem, hbundle]
        · rfl

theorem Table.Sound.putEntry (h : t.Sound) (hitem : t.heap bundle = some item)
    (hbundle : isBundle item) (hk : k.bytes ≠ []) :
    (bundleSet bundle (some k) kind value t).2.Sound := by
  have hold := h.valid bundle item hitem
  rw [bundleSet_eq h hitem hbundle hk]
  refine h.modify hitem ⟨hold.string, hold.array, hold.sized, hold.unique.put _, fun entry hentry => ?_,
    fun _ => hbundle⟩ ?_
  · obtain rfl | hmem := mem_put hentry
    · exact hk
    · exact hold.keys entry hmem
  · have hlength : (put entryKey { key := k, kind, value } item.bundleEntries).length =
        if (toMap entryKey entryContent item.bundleEntries k).isSome then item.bundleEntries.length
        else item.bundleEntries.length + 1 := put_length _ _
    change _ = _ + (put entryKey _ item.bundleEntries).length
    rw [hlength]
    unfold putCount
    split
    · rfl
    · omega

/-- A put on the table is a put on the maps. -/
theorem Table.Sound.bundleSet (h : t.Sound) (bundle : Pointer) (key : Option CString)
    (kind : BundleValueKind) (value : JniValue) :
    (Jni.bundleSet bundle key kind value t).2.Sound ∧
      bundlesOf (Jni.bundleSet bundle key kind value t).2 =
        (BundleCall.put bundle key (.of kind value)).apply (bundlesOf t) ∧
      (Jni.bundleSet bundle key kind value t).1 = decide ((bundlesOf t).Takes bundle key) := by
  by_cases htakes : (bundlesOf t).Takes bundle key
  · obtain ⟨hsome, k, rfl, hk⟩ := id htakes
    obtain ⟨item, hitem, hbundle⟩ := exists_of_bundlesOf hsome
    refine ⟨h.putEntry hitem hbundle hk, ?_, ?_⟩
    · have hheap : ∀ q, (Jni.bundleSet bundle (some k) kind value t).2.heap q =
          Function.update t.heap bundle (some (Jni.putEntry k kind value item)) q := by
        rw [bundleSet_eq h hitem hbundle hk, modifyHandle_eq hitem]
        exact fun q => rfl
      have hkept : isBundle (Jni.putEntry k kind value item) := hbundle
      have hmap : toMap entryKey entryContent (Jni.putEntry k kind value item).bundleEntries =
          Function.update (toMap entryKey entryContent item.bundleEntries) k
            (some (.of kind value)) := toMap_put _ _
      rw [BundleCall.apply_put (bundlesOf_bundle hitem hbundle) hk, bundlesOf_update hheap,
        if_pos hkept, hmap]
    · rw [bundleSet_eq h hitem hbundle hk, decide_eq_true htakes]
  · rw [bundleSet_refused h htakes, BundleCall.apply_put_refused htakes, decide_eq_false htakes]
    exact ⟨h, rfl, rfl⟩

/-- A get on the table is a lookup in the maps. -/
theorem Table.Sound.bundleGet (h : t.Sound) (bundle : Pointer) (key : Option CString) :
    (Jni.bundleGet bundle key t).map (fun found => Content.of found.1 found.2) =
      (bundlesOf t).lookup bundle key := by
  unfold Jni.bundleGet Bundles.lookup
  rw [h.chained.findHandle_bind]
  cases hitem : t.heap bundle with
  | none => simp [bundlesOf, hitem]
  | some item =>
    cases key with
    | none => simp [bundleFind, bundlesOf, hitem]
    | some k =>
      by_cases hbundle : isBundle item
      · rw [bundlesOf_bundle hitem hbundle, Option.bind_some, Option.bind_some, toMap_eq_index]
        simp only [Option.bind_eq_bind, Option.bind_some, bundleFind_eq hbundle]
        cases indexOf entryKey item.bundleEntries k with
        | none => rfl
        | some i =>
          rw [Option.bind_some, Option.bind_some]
          cases item.bundleEntries[i]? <;> rfl
      · simp [bundleFind, bundlesOf, hitem, hbundle]

theorem clearLoop_eq (entries : List BundleEntry) (count : Nat) :
    clearLoop entries count = count - entries.length := by
  induction entries generalizing count with
  | nil => rfl
  | cons entry entries ih =>
    rw [clearLoop, ih, List.length_cons]
    split <;> omega

theorem Table.Sound.entries_le (h : t.Sound) (hitem : t.heap bundle = some item) :
    item.bundleEntries.length ≤ t.stats.bundleEntries := by
  have hmem : bundle ∈ t.handles.toFinset := by
    rw [List.mem_toFinset, h.chained.allocated, hitem]
    rfl
  have hsum := Finset.add_sum_erase t.handles.toFinset (fun p => (entriesAt t p).length) hmem
  have hat : (entriesAt t bundle).length = item.bundleEntries.length := by simp [entriesAt, hitem]
  change _ = entryCount t at hsum
  rw [h.entries]
  omega

/-- A clear on the table is a clear of one map. -/
theorem Table.Sound.bundleClear (h : t.Sound) (bundle : Pointer) :
    (Jni.bundleClear bundle t).Sound ∧
      bundlesOf (Jni.bundleClear bundle t) = (BundleCall.clear bundle).apply (bundlesOf t) := by
  unfold Jni.bundleClear BundleCall.apply
  rw [h.chained.findHandle_bind]
  cases hitem : t.heap bundle with
  | none =>
    refine ⟨h, (if_neg ?_).symm⟩
    simp [bundlesOf, hitem]
  | some item =>
    by_cases hbundle : isBundle item
    · have hold := h.valid bundle item hitem
      simp only [if_pos hbundle]
      refine ⟨h.modify hitem ⟨hold.string, hold.array, hold.sized, List.nodup_nil, ?_,
        fun _ => hbundle⟩ ?_, ?_⟩
      · intro entry hentry
        cases hentry
      · have hle := h.entries_le hitem
        rw [clearLoop_eq]
        change t.stats.bundleEntries - _ + _ = t.stats.bundleEntries + 0
        omega
      · have hsome : (bundlesOf t bundle).isSome := by simp [bundlesOf, hitem, hbundle]
        have hheap : ∀ q, (modifyHandle bundle (fun item => { item with bundleEntries := [] })
            t).heap q =
            Function.update t.heap bundle (some { item with bundleEntries := [] }) q := by
          rw [modifyHandle_eq hitem]
          exact fun q => rfl
        have hempty : isBundle { item with bundleEntries := [] } := hbundle
        have hmap := bundlesOf_update hheap
        rw [if_pos hempty] at hmap
        rw [if_pos hsome]
        exact hmap
    · simp only [if_neg hbundle]
      refine ⟨h, (if_neg ?_).symm⟩
      simp [bundlesOf, hitem, hbundle]

end Sets

end Asm2Runtime.Jni
