import Asm2Runtime.SharedNamespaces

/-!
# The installer preference stays in the store

A lifetime of the process starts with an opening of the storage root, and main
leaves when that fails. Guest code can fill the table, change the preference and
delete what it may; it can neither delete the preference nor keep the next lifetime
from writing it again.
-/

namespace Asm2Runtime.SharedFile

open Transition

section Histories

/-- `ASM2_RESOURCE_PATH` -/
def asm2ResourcePath : CString :=
  .ofBuffer (ascii "/sdcard/Android/data/com.gameloft.android.ANMP.GloftASHM/files")

/-- The storage key of `(GameActivityPrefs, SDFolder)`. -/
def installerStorageKey : CString :=
  .ofBuffer (ascii "__asm2_shared_pref_v1__17:GameActivityPrefs:SDFolder")

/-- The loader finds nothing usable at the path. -/
def Unusable (disk : Disk) (path : Path) : Prop :=
  disk path = none ∨
    (sharedValuesLoadFile .never ((disk path).map Node.view) Slots.empty).map LoadResult.status =
      .ok .corrupt

/-- A new process, with `asm2_android_state_init` behind it. -/
def freshProcess (disk : Disk) : World := initialWorld (some asm2ResourcePath) disk

/-- The worlds of all lifetimes after their storage root was opened. A lifetime may start on a
disk whose store file is missing or corrupt, or as some earlier lifetime has left it; other
files may change at any time. -/
inductive Reached : World → Prop
  | first (disk : Disk) (o : RootOracle) (root : Option Path) (w : World) :
      (∀ path, rootStorePath root = some path → Unusable disk path) →
      asm2AndroidSetStorageRoot o (freshProcess disk) root = .ok (true, w) → Reached w
  | again (earlier : World) (disk : Disk) (o : RootOracle) (root : Option Path) (w : World) :
      Reached earlier →
      (∀ path, rootStorePath root = some path →
        earlier.state.sharedStoragePath = some path ∧ disk path = earlier.disk path) →
      asm2AndroidSetStorageRoot o (freshProcess disk) root = .ok (true, w) → Reached w
  | called (w w' : World) (o : GuestOracle) (r : Request) (result : MethodResult) :
      Reached w → asm2AndroidMethodCallback o w r = .ok (result, w') → Reached w'
  | outside (w : World) (path : Path) (node : Option Node) :
      Reached w → w.state.sharedStoragePath ≠ some path →
      Reached ⟨w.state, Function.update w.disk path node⟩

/-- What the next lifetime may find. -/
def Startable (disk : Disk) (root : Option Path) : Prop :=
  (∀ path, rootStorePath root = some path → Unusable disk path) ∨
    ∃ earlier, Reached earlier ∧ ∀ path, rootStorePath root = some path →
      earlier.state.sharedStoragePath = some path ∧ disk path = earlier.disk path

end Histories

section Sizes

theorem payloadOf_eraseIdx {es : List Entry} {i : Nat} (h : i < es.length) :
    (payloadOf (es.eraseIdx i)).length + (entryFormat.print es[i]).length =
      (payloadOf es).length := by
  induction es generalizing i with
  | nil => simp at h
  | cons e es ih =>
    cases i with
    | zero => simp [payloadOf_cons, Nat.add_comm]
    | succ i =>
      have htail := ih (i := i) (by simpa using h)
      simp only [List.eraseIdx_cons_succ, List.getElem_cons_succ, payloadOf_cons,
        List.length_append]
      omega

/-- What the table needs without the entry of the key always leaves room for a legal entry. -/
theorem payload_room {es : List Entry} (h : ValidTable es) {key value : CString}
    (hentry : ValidEntry (key, value))
    (hcount : indexOf es key ≠ none ∨ es.length < sharedMaxEntries) :
    ∃ size, storedSize (Store.ofEntries es) (indexOf es key) = .ok size ∧
      size ≤ (payloadOf es).length ∧
      (payloadOf es).length - size ≤ sharedMaxPayloadSize - 8 - key.length - value.length := by
  have hkey : key.length ≤ 1024 := hentry.2.1
  have hvalue : value.length ≤ 256 * 1024 := hentry.2.2
  have hmax : sharedMaxPayloadSize = 128 * (8 + 1024 + 256 * 1024) := rfl
  cases hi : indexOf es key with
  | none =>
    have hlt : es.length < 128 := hcount.resolve_left fun hne => hne hi
    have hle : (payloadOf es).length ≤ es.length * (8 + 1024 + 256 * 1024) :=
      payloadOf_length_le es h.entry
    exact ⟨0, rfl, Nat.zero_le _, by omega⟩
  | some i =>
    obtain ⟨hlt, _⟩ := indexOf_some hi
    have hsplit := payloadOf_eraseIdx hlt
    have hvalid := h.eraseIdx i
    have hle : (payloadOf (es.eraseIdx i)).length ≤
        (es.eraseIdx i).length * (8 + 1024 + 256 * 1024) :=
      payloadOf_length_le _ hvalid.entry
    have hlen : (es.eraseIdx i).length = es.length - 1 := List.length_eraseIdx_of_lt hlt
    have hcount128 : es.length ≤ 128 := h.count_le
    have hold : ValidEntry es[i] := h.entry es[i] (List.getElem_mem hlt)
    have holdKey : es[i].1.length ≤ 1024 := hold.2.1
    have holdValue : es[i].2.length ≤ 256 * 1024 := hold.2.2
    rw [entryFormat_print_length] at hsplit
    refine ⟨8 + es[i].1.length + es[i].2.length, ?_, by omega, by omega⟩
    simp only [storedSize, Store.ofEntries, Slots.ofEntries, List.getElem?_eq_getElem hlt,
      Option.map_some, deref, ok_bind]
    rw [sizeAdd_eq (by omega), ok_bind, sizeAdd_eq (by omega)]

end Sizes

section Faults

variable {w : World} {es : List Entry}

/-- What can keep a table out of the store file. -/
inductive PersistFault (o : PersistOracle) (bound : Option Path) (disk : Disk) : Prop
  | payloadAllocated : o.heap = none → PersistFault o bound disk
  | written (path : Path) (header payload : List UInt8) : bound = some path →
      (atomicWriteSharedFile o.write disk path header payload).1 = false →
      PersistFault o bound disk

/-- What can keep a set of a legal entry from being carried out when the count allows it. -/
inductive SetFault (o : SetOracle) (w : World) : Prop
  | valueCopied : o.valueCopied = false → SetFault o w
  | keyCopied : o.keyCopied = false → SetFault o w
  | persisted : PersistFault o.persist w.state.sharedStoragePath w.disk → SetFault o w

theorem sharedValuesPersist_faults {o : PersistOracle} {state : AndroidState} {disk disk' : Disk}
    (hs : state.toStore = Store.ofEntries es) (hv : ValidTable es)
    (hp : sharedValuesPersist o state disk = .ok (false, disk')) :
    PersistFault o state.sharedStoragePath disk := by
  unfold sharedValuesPersist at hp
  cases hpath : state.sharedStoragePath with
  | none =>
    rw [hpath] at hp
    cases hp
  | some path =>
    cases hheap : o.heap with
    | none => exact .payloadAllocated hheap
    | some fill =>
      rw [hpath, hs, hheap] at hp
      simp only [sharedValuesImage_eq hv fill, ok_bind, return_eq, Except.ok.injEq] at hp
      exact .written path _ _ rfl (congrArg Prod.fst hp)

theorem insertEntry_faults {o : SetOracle} {key value : CString} {r : Outcome × World}
    (h : Tabled w es) (he : ValidEntry (key, value)) (hi : indexOf es key = none)
    (hroom : es.length < sharedMaxEntries) (hr : insertEntry o w key value = .ok r)
    (hfail : r.1.result = false) : SetFault o w := by
  have hcount : w.state.count = es.length := congrArg Store.count h.store
  have hslots : w.state.toSlots = Slots.ofEntries es := congrArg Store.toSlots h.store
  have hgrown : ValidTable (es ++ [(key, value)]) := by
    have hput := h.valid.put he fun _ => hroom
    simpa only [putEntry, hi] using hput
  have hwrite : w.state.toSlots.write es.length (some key) (some value) =
      .ok (Slots.ofEntries (es ++ [(key, value)])) := by
    rw [Slots.write, if_pos hroom, hslots, Slots.ofEntries_concat es (key, value)]
  have hstore : (w.state.withStore
      ⟨Slots.ofEntries (es ++ [(key, value)]), es.length + 1⟩).toStore =
        Store.ofEntries (es ++ [(key, value)]) := by
    simp [AndroidState.withStore, Store.ofEntries]
  by_cases hk : o.keyCopied = false
  · exact .keyCopied hk
  · unfold insertEntry at hr
    rw [hcount, if_neg (Nat.not_le.mpr hroom), if_neg hk] at hr
    simp only [hwrite, ok_bind] at hr
    cases sharedValuesPersist_spec o.persist w.disk hstore hgrown with
    | inl hdone =>
      obtain ⟨disk', hp, _⟩ := hdone
      rw [hp] at hr
      obtain rfl := Except.ok.inj hr
      cases hfail
    | inr hfailed =>
      obtain ⟨disk', hp, _⟩ := hfailed
      have hfault := sharedValuesPersist_faults hstore hgrown hp
      exact .persisted hfault

theorem replaceValue_faults {o : SetOracle} {key value : CString} {i : Nat}
    {r : Outcome × World} (h : Tabled w es) (he : ValidEntry (key, value))
    (hi : indexOf es key = some i) (hr : replaceValue o w i value = .ok r)
    (hfail : r.1.result = false) : SetFault o w := by
  have hcount : w.state.count = es.length := congrArg Store.count h.store
  have hslots : w.state.toSlots = Slots.ofEntries es := congrArg Store.toSlots h.store
  have hput : putEntry es key value = es.set i (key, value) := by simp [putEntry, hi]
  have hvalid := h.valid.put he fun hnone => by
    rw [hi] at hnone
    cases hnone
  have hstore : (w.state.withStore ⟨w.state.toSlots.setValue i (some value), w.state.count⟩).toStore
      = Store.ofEntries (putEntry es key value) := by
    rw [hput, hslots, hcount, ofEntries_setValue hi]
    simp [AndroidState.withStore, Store.ofEntries]
  unfold replaceValue at hr
  cases sharedValuesPersist_spec o.persist w.disk hstore hvalid with
  | inl hdone =>
    obtain ⟨disk', hp, _⟩ := hdone
    simp only [hp, ok_bind] at hr
    obtain rfl := Except.ok.inj hr
    cases hfail
  | inr hfailed =>
    obtain ⟨disk', hp, _⟩ := hfailed
    have hfault := sharedValuesPersist_faults hstore hvalid hp
    exact .persisted hfault

/-- A legal entry that the count has a place for is refused by no limit. -/
theorem sharedValueSetLocked_faults {o : SetOracle} {key value : CString} {r : Outcome × World}
    (h : Tabled w es) (he : ValidEntry (key, value))
    (hcount : indexOf es key ≠ none ∨ es.length < sharedMaxEntries)
    (hr : sharedValueSetLocked o w (some key) (some value) = .ok r)
    (hfail : r.1.result = false) : SetFault o w := by
  have hk : key.nlength (sharedMaxKeySize + 1) = key.length :=
    Nat.min_eq_left (Nat.le_succ_of_le he.2.1)
  have hval : value.nlength (sharedMaxValueSize + 1) = value.length :=
    Nat.min_eq_left (Nat.le_succ_of_le he.2.2)
  have hpos : 0 < key.length := he.1
  have hkb : key.length ≤ 1024 := he.2.1
  have hvb : value.length ≤ 256 * 1024 := he.2.2
  have hmax : sharedMaxPayloadSize = 33686528 := rfl
  obtain ⟨size, hsize, hle, hroom⟩ := payload_room h.valid he hcount
  rw [hmax] at hroom
  have hlegal : ¬(key.length = 0 ∨ key.length > sharedMaxKeySize ∨
      value.length > sharedMaxValueSize) := by
    simp only [sharedMaxKeySize, sharedMaxValueSize]
    omega
  simp only [sharedValueSetLocked, Option.getD_some, hk, hval, if_neg hlegal] at hr
  split at hr
  · obtain rfl := Except.ok.inj hr
    cases hfail
  · rw [h.store, sharedValueIndex_eq, sharedValuesEncodedSize_eq h.valid, ok_bind] at hr
    simp only [hsize, ok_bind] at hr
    rw [sizeSub_eq hle, ok_bind, hmax, sizeSub_eq (by omega), ok_bind, sizeSub_eq (by omega),
      ok_bind, sizeSub_eq (by omega), ok_bind] at hr
    by_cases hvalue : o.valueCopied = false
    · exact .valueCopied hvalue
    · rw [if_neg fun hbad => hbad.elim (Nat.not_lt.mpr hroom) hvalue] at hr
      cases hi : indexOf es key with
      | none =>
        rw [hi] at hr
        exact insertEntry_faults h he hi (hcount.resolve_left fun hne => hne hi) hr hfail
      | some i =>
        rw [hi] at hr
        exact replaceValue_faults h he hi hr hfail

end Faults

section Seeding

variable {w : World} {es : List Entry}

theorem preferenceStorageKey_installer :
    preferenceStorageKey true (some installerPreferences) (some installerSdKey) =
      some installerStorageKey := by
  decide +kernel

theorem installerStorageKey_reserved :
    preferenceStorageKeyReserved (some installerStorageKey) = true := by
  decide +kernel

/-- The preference's text for a resource directory. -/
def installerText (resource : CString) : CString := .ofBuffer (ascii "s:" ++ resource.bytes ++ [0])

/-- Seeding stops before the store, finds the preference, or sets it. -/
theorem ensureInstallerPreferences_inv {o : InstallerOracle} {r : Outcome × World}
    (hr : ensureInstallerPreferences o w = .ok r) :
    (r = (.refused, w) ∧ (w.state.resourceDirectory = none ∨ o.keyAllocated = false ∨
      (∃ resource, w.state.resourceDirectory = some resource ∧
        resource.length > sharedMaxValueSize - 2) ∨ o.encodedAllocated = false)) ∨
    (r = (⟨true, none⟩, w) ∧ ∃ text, sharedValueCopy true w (some installerStorageKey) = some text) ∨
    ∃ resource, w.state.resourceDirectory = some resource ∧
      sharedValueSetLocked o.set w (some installerStorageKey) (some (installerText resource)) =
        .ok r := by
  unfold ensureInstallerPreferences at hr
  cases hresource : w.state.resourceDirectory with
  | none =>
    rw [hresource] at hr
    exact Or.inl ⟨(Except.ok.inj hr).symm, Or.inl rfl⟩
  | some resource =>
    cases hkey : o.keyAllocated with
    | false =>
      have hnone : preferenceStorageKey false (some installerPreferences) (some installerSdKey) =
          none := by
        decide +kernel
      rw [hresource, hkey] at hr
      simp only [hnone] at hr
      exact Or.inl ⟨(Except.ok.inj hr).symm, Or.inr (Or.inl rfl)⟩
    | true =>
      rw [hresource, hkey] at hr
      simp only [preferenceStorageKey_installer] at hr
      split at hr
      case isTrue hfound =>
        refine Or.inr (Or.inl ⟨(Except.ok.inj hr).symm, ?_⟩)
        cases hcopied : o.copied with
        | false => simp [sharedValueCopy, hcopied] at hfound
        | true =>
          rw [hcopied, Option.any_eq_true] at hfound
          obtain ⟨text, htext, _⟩ := hfound
          exact ⟨text, htext⟩
      case isFalse =>
        split at hr
        case isTrue hrefused =>
          refine Or.inl ⟨(Except.ok.inj hr).symm, Or.inr (Or.inr ?_)⟩
          exact hrefused.imp (fun hlong => ⟨resource, rfl, hlong⟩) id
        case isFalse => exact Or.inr (Or.inr ⟨resource, rfl, hr⟩)

/-- A seeding that succeeds leaves the preference in the table. -/
theorem ensureInstallerPreferences_seeds {o : InstallerOracle} {r : Outcome × World}
    (h : Tabled w es) (hr : ensureInstallerPreferences o w = .ok r) (hok : r.1.result = true) :
    sharedValueExists r.2 (some installerStorageKey) = true := by
  obtain ⟨rfl, _⟩ | ⟨rfl, text, htext⟩ | ⟨resource, _, hset⟩ := ensureInstallerPreferences_inv hr
  · cases hok
  · rw [h.exists, Option.bind_some, ← h.copy, htext]
    rfl
  · obtain ⟨r', hr', _, es', htabled, _, _, hwritten⟩ :=
      sharedValueSetLocked_tabled o.set installerStorageKey (installerText resource) h
    obtain rfl := Except.ok.inj (hr'.symm.trans hset)
    rw [htabled.exists, Option.bind_some, hwritten hok, Function.update_self]
    rfl

/-- What can keep the preference out of the table at the start of a lifetime. -/
inductive SeedingFault (o : InstallerOracle) (w : World) : Prop
  | keyAllocated : o.keyAllocated = false → SeedingFault o w
  | encodedAllocated : o.encodedAllocated = false → SeedingFault o w
  | set : SetFault o.set w → SeedingFault o w

theorem installerText_valid :
    ValidEntry (installerStorageKey, installerText asm2ResourcePath) := by
  decide +kernel

/-- A table that is empty or holds the preference already refuses the seeding by no limit. -/
theorem ensureInstallerPreferences_faults {o : InstallerOracle} {r : Outcome × World}
    (h : Tabled w es) (hresource : w.state.resourceDirectory = some asm2ResourcePath)
    (hroom : es = [] ∨ (lookup es installerStorageKey).isSome = true)
    (hr : ensureInstallerPreferences o w = .ok r) (hfail : r.1.result = false) :
    SeedingFault o w := by
  have hcount : indexOf es installerStorageKey ≠ none ∨ es.length < sharedMaxEntries := by
    cases hroom with
    | inl hnil => exact Or.inr (by simp [hnil, sharedMaxEntries])
    | inr hsome =>
      rw [lookup_isSome, Option.isSome_iff_ne_none] at hsome
      exact Or.inl hsome
  obtain ⟨_, hnone | hkey | ⟨resource, hlong, hlt⟩ | hencoded⟩ | ⟨rfl, _⟩ | ⟨resource, hre, hset⟩ :=
    ensureInstallerPreferences_inv hr
  · rw [hresource] at hnone
    cases hnone
  · exact .keyAllocated hkey
  · obtain rfl := Option.some.inj (hresource.symm.trans hlong)
    have hshort : asm2ResourcePath.length ≤ sharedMaxValueSize - 2 := by decide +kernel
    omega
  · exact .encodedAllocated hencoded
  · cases hfail
  · obtain rfl := Option.some.inj (hresource.symm.trans hre)
    exact .set (sharedValueSetLocked_faults h installerText_valid hcount hset hfail)

end Seeding

section Lifetimes

/-- The table is in the store file, and the installer preference in the table. -/
def Seeded (w : World) : Prop :=
  (∃ path es, Durable w path es) ∧ sharedValueExists w (some installerStorageKey) = true

theorem freshProcess_tabled (disk : Disk) : Tabled (freshProcess disk) [] := ⟨rfl, validTable_nil⟩

/-- A root that was opened has the preference in its store. -/
theorem asm2AndroidSetStorageRoot_seeds {disk : Disk} {o : RootOracle} {root : Option Path}
    {w : World} (hopen : asm2AndroidSetStorageRoot o (freshProcess disk) root = .ok (true, w)) :
    Seeded w := by
  constructor
  · obtain ⟨r, hr, _, hdurable⟩ := asm2AndroidSetStorageRoot_spec o root (freshProcess_tabled disk)
    obtain rfl := Except.ok.inj (hr.symm.trans hopen)
    exact hdurable rfl
  · cases asm2AndroidSetStorageRoot_cases o (freshProcess disk) root with
    | inl hfail =>
      obtain ⟨w', hr, _⟩ := hfail
      rw [hopen] at hr
      cases hr
    | inr hbound =>
      obtain ⟨path, directory, loaded, disk', es, _, heq, hv, hslots, hcount, _⟩ := hbound
      have htabled : Tabled ⟨boundState (freshProcess disk).state path directory loaded, disk'⟩ es :=
        boundState_tabled path directory (w := ⟨(freshProcess disk).state, disk'⟩)
          (freshProcess_tabled disk') hslots hcount hv
      obtain ⟨r, _, hr, _⟩ := ensureInstallerPreferences_spec o.installer htabled
      rw [heq] at hopen
      simp only [bindStore, hr, ok_bind, return_eq, Except.ok.injEq, Prod.mk.injEq] at hopen
      obtain ⟨hok, rfl⟩ := hopen
      exact ensureInstallerPreferences_seeds htabled hr hok

/-- No request removes the preference: only public keys are erased. -/
theorem asm2AndroidMethodCallback_seeded {o : GuestOracle} {r : Request} {result : MethodResult}
    {w w' : World} (h : Seeded w) (hcall : asm2AndroidMethodCallback o w r = .ok (result, w')) :
    Seeded w' := by
  obtain ⟨⟨path, es, hdurable⟩, hexists⟩ := h
  obtain ⟨_, _, es', hcall', hchange, htabled, heffect, _⟩ :=
    asm2AndroidMethodCallback_spec o r hdurable.toTabled
  obtain ⟨rfl, rfl⟩ := Prod.mk.inj (Except.ok.inj (hcall'.symm.trans hcall))
  refine ⟨⟨path, hdurable.change hchange⟩, ?_⟩
  rw [hdurable.toTabled.exists, Option.bind_some] at hexists
  rw [htabled.exists, Option.bind_some]
  obtain rfl | ⟨key, hkey, ⟨hpublic, rfl⟩ | ⟨value, rfl⟩⟩ := heffect
  · exact hexists
  · have hne : installerStorageKey ≠ key := by
      rintro rfl
      have hfree := storageKey_public hpublic hkey
      rw [installerStorageKey_reserved] at hfree
      cases hfree
    rw [lookup_eraseKey hdurable.valid.nodup, Function.update_of_ne hne]
    exact hexists
  · rw [lookup_putEntry]
    by_cases heq : installerStorageKey = key
    · rw [heq, Function.update_self]
      rfl
    · rw [Function.update_of_ne heq]
      exact hexists

theorem Reached.seeded {w : World} (h : Reached w) : Seeded w := by
  induction h with
  | first disk o root w _ hopen => exact asm2AndroidSetStorageRoot_seeds hopen
  | again earlier disk o root w _ _ hopen _ => exact asm2AndroidSetStorageRoot_seeds hopen
  | called w w' o r result _ hcall ih => exact asm2AndroidMethodCallback_seeded ih hcall
  | outside w path node _ hother ih =>
    obtain ⟨⟨path', es, hdurable⟩, hexists⟩ := ih
    refine ⟨⟨path', es, ⟨hdurable.store, hdurable.valid⟩, hdurable.bound, ?_⟩, hexists⟩
    have hne : path' ≠ path := by
      rintro rfl
      exact hother hdurable.bound
    exact (Function.update_of_ne hne node w.disk).trans hdurable.file

/-- A lifetime starts with an empty table or with the preference in it. -/
theorem Startable.loaded {disk : Disk} {root : Option Path} {path : Path} {es : List Entry}
    (h : Startable disk root) (hroot : rootStorePath root = some path) (hv : ValidTable es)
    (hfile : es ≠ [] → disk path = some (.regular (storeFormat.print es))) :
    es = [] ∨ (lookup es installerStorageKey).isSome = true := by
  by_cases hnil : es = []
  · exact Or.inl hnil
  · right
    have hprint := hfile hnil
    obtain hunusable | ⟨earlier, hreached, hsame⟩ := h
    · cases hunusable path hroot with
      | inl hmissing =>
        rw [hprint] at hmissing
        cases hmissing
      | inr hcorrupt =>
        have hdecode : sharedValuesLoadFile .never
            ((some (Node.regular (storeFormat.print es))).map Node.view) Slots.empty =
              .ok ⟨.ok, Slots.ofEntries es, es.length⟩ := decodeFile_print hv
        rw [hprint, hdecode] at hcorrupt
        cases hcorrupt
    · obtain ⟨hbound, hdisk⟩ := hsame path hroot
      obtain ⟨⟨path', es', hdurable⟩, hexists⟩ := hreached.seeded
      obtain rfl := Option.some.inj (hdurable.bound.symm.trans hbound)
      have hprints : storeFormat.print es = storeFormat.print es' := by
        rw [hdisk, hdurable.file] at hprint
        exact (Node.regular.inj (Option.some.inj hprint)).symm
      have hdecode := storeFormat.decode_print es ((storeFormat_valid es).2 hv)
      rw [hprints, storeFormat.decode_print es' ((storeFormat_valid es').2 hdurable.valid)] at hdecode
      obtain rfl := Option.some.inj hdecode
      rwa [hdurable.toTabled.exists] at hexists

end Lifetimes

section Main

/-- The payload-size test of a set passes wherever the test of the count would. -/
def PayloadRoom (w : World) : Prop :=
  ∀ key value, ValidEntry (key, value) →
    sharedValueExists w (some key) = true ∨ w.state.count < sharedMaxEntries →
    ∃ currentSize previousSize,
      sharedValuesEncodedSize w.state.toStore = .ok (some currentSize) ∧
      storedSize w.state.toStore (sharedValueIndex w.state.toStore (some key)) = .ok previousSize ∧
      previousSize ≤ currentSize ∧
      currentSize - previousSize ≤ sharedMaxPayloadSize - 8 - key.length - value.length

theorem Tabled.payloadRoom {w : World} {es : List Entry} (h : Tabled w es) : PayloadRoom w := by
  intro key value hentry hcount
  have hplace : indexOf es key ≠ none ∨ es.length < sharedMaxEntries := by
    cases hcount with
    | inl hexists =>
      rw [h.exists, Option.bind_some, lookup_isSome, Option.isSome_iff_ne_none] at hexists
      exact Or.inl hexists
    | inr hlt =>
      rw [show w.state.count = es.length from congrArg Store.count h.store] at hlt
      exact Or.inr hlt
  obtain ⟨size, hsize, hle, hroom⟩ := payload_room h.valid hentry hplace
  refine ⟨_, size, ?_, ?_, hle, hroom⟩
  · rw [h.store, sharedValuesEncodedSize_eq h.valid]
  · rw [h.index, h.store, hsize]

/-- In every lifetime whose storage root was opened the preference is in the table and in the
file. The seeding of the next lifetime is stopped by allocations and writes alone, and a set is
never stopped by the payload size. -/
theorem installer_preference_stays :
    (∀ w, Reached w → sharedValueExists w (some installerStorageKey) = true ∧
      (∃ path, w.state.sharedStoragePath = some path ∧
        sharedValuesLoadFile .never ((w.disk path).map Node.view) Slots.empty =
          .ok ⟨.ok, w.state.toSlots, w.state.count⟩) ∧
      PayloadRoom w) ∧
    ∀ disk o root w', Startable disk root →
      asm2AndroidSetStorageRoot o (freshProcess disk) root = .ok (false, w') →
      w'.state = (freshProcess disk).state ∨
        ∃ bound r, ensureInstallerPreferences o.installer bound = .ok r ∧ r.2 = w' ∧
          (sharedValueExists bound (some installerStorageKey) = true ∨ bound.state.count = 0) ∧
          PayloadRoom bound ∧ SeedingFault o.installer bound := by
  constructor
  · intro w hw
    obtain ⟨⟨path, es, hdurable⟩, hexists⟩ := hw.seeded
    refine ⟨hexists, ⟨path, hdurable.bound, ?_⟩, hdurable.toTabled.payloadRoom⟩
    have hdecode := decodeFile_print hdurable.valid
    rw [hdurable.file, show w.state.toSlots = Slots.ofEntries es from
      congrArg Store.toSlots hdurable.store, show w.state.count = es.length from
      congrArg Store.count hdurable.store]
    exact hdecode
  · intro disk o root w' hstart hopen
    cases asm2AndroidSetStorageRoot_cases o (freshProcess disk) root with
    | inl hfail =>
      obtain ⟨w₁, hr, hw₁⟩ := hfail
      obtain rfl := (Prod.mk.inj (Except.ok.inj (hr.symm.trans hopen))).2
      exact Or.inl hw₁
    | inr hbound =>
      right
      obtain ⟨path, directory, loaded, disk', es, hroot, heq, hv, hslots, hcount, hfile⟩ := hbound
      have htabled : Tabled ⟨boundState (freshProcess disk).state path directory loaded, disk'⟩ es :=
        boundState_tabled path directory (w := ⟨(freshProcess disk).state, disk'⟩)
          (freshProcess_tabled disk') hslots hcount hv
      have hloaded := hstart.loaded hroot hv fun hne => (hfile hne).2
      obtain ⟨r, _, hr, _⟩ := ensureInstallerPreferences_spec o.installer htabled
      rw [heq] at hopen
      simp only [bindStore, hr, ok_bind, return_eq, Except.ok.injEq, Prod.mk.injEq] at hopen
      obtain ⟨hfail, hworld⟩ := hopen
      refine ⟨_, r, hr, hworld, ?_, htabled.payloadRoom,
        ensureInstallerPreferences_faults htabled rfl hloaded hr hfail⟩
      rw [htabled.exists, Option.bind_some]
      exact hloaded.symm.imp id fun hnil => hcount.trans (congrArg List.length hnil)

/-- The installer preference as a number. -/
def installerBundle : Bundle := fun name =>
  if name = "npDataType" then some (.int 0)
  else if name = "npPrefName" then some (.object (some installerPreferences))
  else if name = "npKey" then some (.object (some installerSdKey))
  else if name = "npData" then some (.int 7)
  else none

/-- The preference is overwritten by a number, and in the next lifetime the rename is refused. -/
def overwritten : Option (World × World) :=
  match asm2AndroidSetStorageRoot plainRoot (freshProcess fun _ => none) (some (ascii "/roms")) with
  | .ok (true, opened) =>
    match asm2AndroidMethodCallback plainGuest opened
        (.nativeSetPreference (some installerBundle)) with
    | .ok (_, w) =>
      match asm2AndroidSetStorageRoot
          { plainRoot with installer := ⟨true, true, true, plainSet true⟩ } (freshProcess w.disk)
          (some (ascii "/roms")) with
      | .ok (false, w') => some (w, w')
      | _ => none
    | _ => none
  | _ => none

theorem overwritten_bound : (overwritten.map fun p => p.1.state.sharedStoragePath) =
    some (rootStorePath (some (ascii "/roms"))) := by
  decide +kernel

theorem installer_preference_stays_overwritten :
    ∃ w w', overwritten = some (w, w') ∧
      sharedValueExists w (some installerStorageKey) = true ∧
      (w'.state = (freshProcess w.disk).state ∨
        ∃ bound, SeedingFault ⟨true, true, true, plainSet true⟩ bound) := by
  have h := overwritten_bound
  unfold overwritten at h
  split at h
  case h_1 opened hopen =>
    split at h
    case h_1 result w hcall =>
      split at h
      case h_1 w' hagain =>
        rw [Option.map_some] at h
        have hbound := Option.some.inj h
        have hfirst : Reached opened := .first _ plainRoot _ opened (fun _ _ => Or.inl rfl) hopen
        have hw : Reached w := .called opened w plainGuest _ result hfirst hcall
        refine ⟨w, w', ?_, (installer_preference_stays.1 w hw).1, ?_⟩
        · unfold overwritten
          rw [hopen]
          dsimp only
          rw [hcall]
          dsimp only
          rw [hagain]
        · obtain hsame | ⟨bound, _, _, _, _, _, hfault⟩ :=
            installer_preference_stays.2 _ _ _ w'
              (Or.inr ⟨w, hw, fun path hpath => ⟨hbound.trans hpath, rfl⟩⟩) hagain
          · exact Or.inl hsame
          · exact Or.inr ⟨bound, hfault⟩
      case h_2 => cases h
    case h_2 => cases h
  case h_2 => cases h

end Main

end Asm2Runtime.SharedFile
