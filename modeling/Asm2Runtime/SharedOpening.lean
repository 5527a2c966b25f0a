import Asm2Runtime.SharedInstaller

/-!
# Opening a storage root, at every failure point

`asm2_android_set_storage_root` switches the table and the two paths and seeds the installer
preference after that. Here is what each of its exits leaves in the state and on the disk.
-/

namespace Asm2Runtime.SharedFile

section Writes

/-- A file other than the store file is what it was. -/
def Spares (path : Path) (disk disk' : Disk) : Prop :=
  ∀ other node, other ≠ path → disk other = some node → disk' other = some node

theorem Spares.refl (path : Path) (disk : Disk) : Spares path disk disk := fun _ _ _ h => h

/-- The failure points of one write of the store file. -/
def WriteFails (o : WriteOracle) (disk : Disk) (path : Path) : Prop :=
  path.length > 2 ^ 32 - 1 - 64 ∨ o.cannotAllocate ∨ openTemporary o disk path 16 0 = none ∨
    o.headerStops ≠ none ∨ o.payloadStops ≠ none ∨ o.cannotSync ∨ o.cannotClose ∨ o.cannotRename

theorem writeContents_fst {o : WriteOracle} {header payload : List UInt8} (hne : payload ≠ []) :
    (writeContents o header payload).1 = true ↔ o.headerStops = none ∧ o.payloadStops = none := by
  unfold writeContents writeAll
  cases o.headerStops with
  | none =>
    cases o.payloadStops with
    | none => simp [hne]
    | some n => simp [hne]
  | some n => simp

theorem atomicWriteSharedFile_fails (o : WriteOracle) (disk : Disk) (path : Path)
    (header : List UInt8) {payload : List UInt8} (hne : payload ≠ []) :
    (atomicWriteSharedFile o disk path header payload).1 = false ↔ WriteFails o disk path := by
  unfold atomicWriteSharedFile WriteFails
  by_cases hearly : path.length > 2 ^ 32 - 1 - 64 ∨ o.cannotAllocate
  · rw [if_pos hearly]
    exact iff_of_true rfl (hearly.imp_right .inl)
  · rw [if_neg hearly]
    push Not at hearly
    cases htemporary : openTemporary o disk path 16 0 with
    | none => exact iff_of_true rfl (.inr (.inr (.inl rfl)))
    | some temporary =>
      dsimp only
      have hwritten : (writeContents o header payload).1 = true ↔ _ := writeContents_fst hne
      split
      case isTrue hok =>
        simp only [Bool.and_eq_true, Bool.not_eq_true'] at hok
        obtain ⟨⟨⟨hcontents, hsync⟩, hclose⟩, hrename⟩ := hok
        obtain ⟨hheader, hpayload⟩ := hwritten.mp hcontents
        simp [hearly.2, hheader, hpayload, hsync, hclose, hrename]
        exact hearly.1
      case isFalse hnot =>
        refine iff_of_true rfl ?_
        by_contra hno
        push Not at hno
        obtain ⟨-, -, -, hheader, hpayload, hsync, hclose, hrename⟩ := hno
        refine hnot ?_
        rw [hwritten.mpr ⟨hheader, hpayload⟩]
        simp [hsync, hclose, hrename]

theorem openTemporary_new {o : WriteOracle} {disk : Disk} {path temporary : Path}
    {remaining attempt : Nat} (h : openTemporary o disk path remaining attempt = some temporary) :
    disk temporary = none := by
  induction remaining generalizing attempt with
  | zero => cases h
  | succ remaining ih =>
    simp only [openTemporary] at h
    split at h
    · cases h
    · split at h
      · cases h
      · split at h
        · exact ih h
        · rename_i hfree
          cases h
          simpa using hfree

/-- The temporary is a new file, and no other one is touched. -/
theorem atomicWriteSharedFile_spares (o : WriteOracle) (disk : Disk) (path : Path)
    (header payload : List UInt8) :
    Spares path disk (atomicWriteSharedFile o disk path header payload).2 := by
  unfold atomicWriteSharedFile
  split
  · exact Spares.refl path disk
  · cases htemporary : openTemporary o disk path 16 0 with
    | none => exact Spares.refl path disk
    | some temporary =>
      intro other node hne hfile
      have hother : other ≠ temporary := by
        rintro rfl
        rw [openTemporary_new htemporary] at hfile
        cases hfile
      dsimp only
      split
      · dsimp only
        rw [Function.update_of_ne hother, Function.update_of_ne hne, Function.update_of_ne hother]
        exact hfile
      · dsimp only
        split
        · rw [Function.update_of_ne hother]
          exact hfile
        · rw [Function.update_of_ne hother, Function.update_of_ne hother]
          exact hfile

/-- The failure points of `shared_values_persist` for a table with entries. -/
def PersistFails (o : PersistOracle) (disk : Disk) (path : Path) : Prop :=
  o.heap = none ∨ WriteFails o.write disk path

variable {es : List Entry} {state : AndroidState} {path : Path}

theorem payloadOf_ne_nil (hne : es ≠ []) : payloadOf es ≠ [] := by
  obtain ⟨e, es, rfl⟩ := List.exists_cons_of_ne_nil hne
  intro hnil
  have hlength := congrArg List.length hnil
  rw [payloadOf_cons, List.length_append, entryFormat_print_length] at hlength
  simp at hlength

theorem sharedValuesPersist_eq (o : PersistOracle) (disk : Disk)
    (hs : state.toStore = Store.ofEntries es)
    (hv : ValidTable es) (hne : es ≠ []) (hpath : state.sharedStoragePath = some path) :
    ∃ written disk', sharedValuesPersist o state disk = .ok (written, disk') ∧
      (written = false ↔ PersistFails o disk path) ∧ Spares path disk disk' := by
  unfold sharedValuesPersist PersistFails
  rw [hpath, hs]
  cases hheap : o.heap with
  | none =>
    have hsize : (payloadOf es).length ≠ 0 := fun h =>
      payloadOf_ne_nil hne (List.length_eq_zero_iff.mp h)
    have himage : sharedValuesImage (Store.ofEntries es) none = .ok none := by
      simp [sharedValuesImage, sharedValuesEncodedSize_eq hv, hsize, malloc]
    simp only [himage, ok_bind, return_eq]
    exact ⟨false, disk, rfl, by simp, Spares.refl path disk⟩
  | some fill =>
    simp only [sharedValuesImage_eq hv fill, ok_bind, return_eq]
    have hfails := atomicWriteSharedFile_fails o.write disk path
      (sharedHeader es.length (payloadOf es).length (payloadOf es)) (payloadOf_ne_nil hne)
    refine ⟨_, _, rfl, hfails.trans ?_, atomicWriteSharedFile_spares o.write disk path _ _⟩
    simp

end Writes

section Sets

variable {o : SetOracle} {w : World} {es : List Entry} {key value : CString} {path : Path}

/-- What refuses a set of a legal entry before the write. -/
def SetRefused (o : SetOracle) (es : List Entry) (key : CString) : Prop :=
  o.valueCopied = false ∨
    (indexOf es key = none ∧ (es.length ≥ sharedMaxEntries ∨ o.keyCopied = false))

/-- The ends of a set of a legal entry in a bound store: the value is there, the set is refused,
or the new table was written, or not. -/
inductive SetEnds (o : SetOracle) (w : World) (es : List Entry) (key value : CString) (path : Path)
    (r : Outcome × World) : Prop
  | present : lookup es key = some value → r = (⟨true, none⟩, w) → SetEnds o w es key value path r
  | refused : lookup es key ≠ some value → SetRefused o es key → r = (.refused, w) →
      SetEnds o w es key value path r
  | written : lookup es key ≠ some value → ¬ SetRefused o es key →
      (r.1.result = false ↔ PersistFails o.persist w.disk path) →
      Spares path w.disk r.2.disk → SetEnds o w es key value path r

theorem putEntry_ne_nil (es : List Entry) (key value : CString) : putEntry es key value ≠ [] := by
  unfold putEntry
  cases hi : indexOf es key with
  | none => simp
  | some i =>
    obtain ⟨hlt, -⟩ := indexOf_some hi
    intro hnil
    have hlength := congrArg List.length hnil
    rw [List.length_set, List.length_nil] at hlength
    omega

theorem insertEntry_refused {r : Outcome × World} (h : Tabled w es)
    (hfull : es.length ≥ sharedMaxEntries ∨ o.keyCopied = false)
    (hr : insertEntry o w key value = .ok r) : r = (.refused, w) := by
  have hcount : w.state.count = es.length := congrArg Store.count h.store
  unfold insertEntry at hr
  rw [hcount] at hr
  split at hr
  · exact (Except.ok.inj hr).symm
  · rename_i hroom
    rw [if_pos (hfull.resolve_left hroom)] at hr
    exact (Except.ok.inj hr).symm

theorem insertEntry_ends {r : Outcome × World} (h : Tabled w es) (he : ValidEntry (key, value))
    (hi : indexOf es key = none) (hroom : es.length < sharedMaxEntries) (hk : o.keyCopied = true)
    (hpath : w.state.sharedStoragePath = some path) (hr : insertEntry o w key value = .ok r) :
    (r.1.result = false ↔ PersistFails o.persist w.disk path) ∧ Spares path w.disk r.2.disk := by
  have hcount : w.state.count = es.length := congrArg Store.count h.store
  have hslots : w.state.toSlots = Slots.ofEntries es := congrArg Store.toSlots h.store
  have hput : putEntry es key value = es ++ [(key, value)] := by simp [putEntry, hi]
  have hgrown := h.valid.put he fun _ => hroom
  have hne := putEntry_ne_nil es key value
  rw [hput] at hgrown hne
  have hwrite : w.state.toSlots.write es.length (some key) (some value) =
      .ok (Slots.ofEntries (es ++ [(key, value)])) := by
    rw [Slots.write, if_pos hroom, hslots, Slots.ofEntries_concat es (key, value)]
  have hback : (Slots.ofEntries (es ++ [(key, value)])).write es.length none none =
      .ok (Slots.ofEntries es) := by
    rw [Slots.write, if_pos hroom, Slots.ofEntries_dropLast]
  have hstore : (w.state.withStore
      ⟨Slots.ofEntries (es ++ [(key, value)]), es.length + 1⟩).toStore =
        Store.ofEntries (es ++ [(key, value)]) := by
    simp [AndroidState.withStore, Store.ofEntries]
  obtain ⟨written, disk', hp, hfails, hspares⟩ :=
    sharedValuesPersist_eq o.persist w.disk hstore hgrown hne hpath
  unfold insertEntry at hr
  rw [hcount, if_neg (Nat.not_le.mpr hroom), if_neg (by simp [hk])] at hr
  simp only [hwrite, ok_bind, hp] at hr
  cases written with
  | true =>
    obtain rfl := Except.ok.inj hr
    exact ⟨hfails, hspares⟩
  | false =>
    simp only [Bool.false_eq_true, if_false] at hr
    rw [show (w.state.withStore ⟨Slots.ofEntries (es ++ [(key, value)]), es.length + 1⟩).toSlots
      = Slots.ofEntries (es ++ [(key, value)]) from rfl, hback] at hr
    obtain rfl := Except.ok.inj hr
    exact ⟨hfails, hspares⟩

theorem replaceValue_ends {i : Nat} {r : Outcome × World} (h : Tabled w es)
    (he : ValidEntry (key, value)) (hi : indexOf es key = some i)
    (hpath : w.state.sharedStoragePath = some path) (hr : replaceValue o w i value = .ok r) :
    (r.1.result = false ↔ PersistFails o.persist w.disk path) ∧ Spares path w.disk r.2.disk := by
  have hcount : w.state.count = es.length := congrArg Store.count h.store
  have hslots : w.state.toSlots = Slots.ofEntries es := congrArg Store.toSlots h.store
  have hput : putEntry es key value = es.set i (key, value) := by simp [putEntry, hi]
  have hvalid := h.valid.put he fun hnone => by
    rw [hi] at hnone
    cases hnone
  have hstore : (w.state.withStore ⟨w.state.toSlots.setValue i (some value), w.state.count⟩).toStore
      = Store.ofEntries (putEntry es key value) := by
    rw [hput, hslots, hcount, ofEntries_setValue hi]
    simp [AndroidState.withStore, Store.ofEntries]
  obtain ⟨written, disk', hp, hfails, hspares⟩ := sharedValuesPersist_eq o.persist w.disk hstore
    hvalid (putEntry_ne_nil es key value) hpath
  unfold replaceValue at hr
  simp only [hp, ok_bind] at hr
  cases written with
  | true =>
    obtain rfl := Except.ok.inj hr
    exact ⟨hfails, hspares⟩
  | false =>
    obtain rfl := Except.ok.inj hr
    exact ⟨hfails, hspares⟩

theorem sharedValueSetLocked_ends {r : Outcome × World} (h : Tabled w es)
    (he : ValidEntry (key, value)) (hpath : w.state.sharedStoragePath = some path)
    (hr : sharedValueSetLocked o w (some key) (some value) = .ok r) :
    SetEnds o w es key value path r := by
  have hk : key.nlength (sharedMaxKeySize + 1) = key.length :=
    Nat.min_eq_left (Nat.le_succ_of_le he.2.1)
  have hval : value.nlength (sharedMaxValueSize + 1) = value.length :=
    Nat.min_eq_left (Nat.le_succ_of_le he.2.2)
  have hpos : 0 < key.length := he.1
  have hkb : key.length ≤ 1024 := he.2.1
  have hvb : value.length ≤ 256 * 1024 := he.2.2
  have hmax : sharedMaxPayloadSize = 33686528 := rfl
  have hlegal : ¬(key.length = 0 ∨ key.length > sharedMaxKeySize ∨
      value.length > sharedMaxValueSize) := by
    simp only [sharedMaxKeySize, sharedMaxValueSize]
    omega
  simp only [sharedValueSetLocked, Option.getD_some, hk, hval, if_neg hlegal, h.read] at hr
  split at hr
  case isTrue hpresent =>
    exact .present hpresent (Except.ok.inj hr).symm
  case isFalse habsent =>
    obtain ⟨size, hsize, hle⟩ := storedSize_eq key h.valid rfl
    rw [h.store, sharedValueIndex_eq, sharedValuesEncodedSize_eq h.valid, ok_bind] at hr
    simp only [hsize, ok_bind] at hr
    rw [sizeSub_eq hle, ok_bind, hmax, sizeSub_eq (by omega), ok_bind, sizeSub_eq (by omega),
      ok_bind, sizeSub_eq (by omega), ok_bind] at hr
    by_cases hrefused : SetRefused o es key
    · refine .refused habsent hrefused ?_
      rcases hrefused with hvalue | ⟨hi, hfull⟩
      · rw [if_pos (.inr hvalue)] at hr
        exact (Except.ok.inj hr).symm
      · split at hr
        · exact (Except.ok.inj hr).symm
        · rw [hi] at hr
          exact (insertEntry_refused h hfull hr)
    · obtain ⟨hvalue, hplace⟩ := not_or.mp hrefused
      have hcount : indexOf es key ≠ none ∨ es.length < sharedMaxEntries := by
        by_cases hi : indexOf es key = none
        · exact .inr (Nat.lt_of_not_le fun hfull => hplace ⟨hi, .inl hfull⟩)
        · exact .inl hi
      obtain ⟨size', hsize', -, hroom⟩ := payload_room h.valid he hcount
      obtain rfl := Except.ok.inj (hsize'.symm.trans hsize)
      rw [hmax] at hroom
      rw [if_neg fun hbad => hbad.elim (Nat.not_lt.mpr hroom) hvalue] at hr
      cases hi : indexOf es key with
      | none =>
        rw [hi] at hr
        have hkey : o.keyCopied = true := by
          by_contra hnot
          exact hplace ⟨hi, .inr (by simpa using hnot)⟩
        obtain ⟨hfails, hspares⟩ := insertEntry_ends h he hi
          (hcount.resolve_left fun hne => hne hi) hkey hpath hr
        exact .written habsent hrefused hfails hspares
      | some i =>
        rw [hi] at hr
        obtain ⟨hfails, hspares⟩ := replaceValue_ends h he hi hpath hr
        exact .written habsent hrefused hfails hspares

end Sets

section Seeding

variable {o : InstallerOracle} {w : World} {es : List Entry} {path : Path} {resource : CString}

/-- The table of a store with the installer preference in it: the one it has, or the seeded one. -/
def WithInstaller (es : List Entry) (resource : CString) (es' : List Entry) : Prop :=
  (es' = es ∧ (lookup es installerStorageKey).any startsString) ∨
    es' = putEntry es installerStorageKey (installerText resource)

/-- The failure points of `ensure_installer_preferences` on a store with the entries. -/
def SeedFails (o : InstallerOracle) (resource : Option CString) (es : List Entry) (path : Path)
    (disk : Disk) : Prop :=
  match resource with
  | none => True
  | some resource =>
    o.keyAllocated = false ∨
      (¬ (o.copied ∧ (lookup es installerStorageKey).any startsString) ∧
        (resource.length > sharedMaxValueSize - 2 ∨ o.encodedAllocated = false ∨
          (lookup es installerStorageKey ≠ some (installerText resource) ∧
            (SetRefused o.set es installerStorageKey ∨ PersistFails o.set.persist disk path))))

theorem installerText_bytes (resource : CString) :
    (installerText resource).bytes = ascii "s:" ++ resource.bytes := by
  refine ofBuffer_bytes fun hzero => ?_
  rcases List.mem_append.mp hzero with hzero | hzero
  · exact absurd hzero (by decide)
  · exact resource.noNul hzero

theorem startsString_installerText (resource : CString) :
    startsString (installerText resource) = true := by
  have hascii : ascii "s:" = [0x73, 0x3a] := by decide
  rw [startsString, installerText_bytes, hascii]
  rfl

theorem installerText_legal (h : resource.length ≤ sharedMaxValueSize - 2) :
    ValidEntry (installerStorageKey, installerText resource) := by
  obtain ⟨hpos, hkey, -⟩ := installerText_valid
  refine ⟨hpos, hkey, ?_⟩
  have hlength : (installerText resource).length = 2 + resource.length := by
    rw [CString.length, installerText_bytes, List.length_append]
    rfl
  change (installerText resource).length ≤ sharedMaxValueSize
  rw [hlength]
  unfold sharedMaxValueSize at h ⊢
  omega

theorem ensureInstallerPreferences_eq (h : Tabled w es)
    (hresource : w.state.resourceDirectory = some resource) (hkey : o.keyAllocated = true) :
    ensureInstallerPreferences o w =
      if o.copied ∧ (lookup es installerStorageKey).any startsString then .ok (⟨true, none⟩, w)
      else if resource.length > sharedMaxValueSize - 2 ∨ o.encodedAllocated = false then
        .ok (.refused, w)
      else sharedValueSetLocked o.set w (some installerStorageKey)
        (some (installerText resource)) := by
  unfold ensureInstallerPreferences
  rw [hresource, hkey]
  simp only [preferenceStorageKey_installer]
  have hcopy : (sharedValueCopy o.copied w (some installerStorageKey)).any startsString =
      (o.copied && (lookup es installerStorageKey).any startsString) := by
    cases hcopied : o.copied with
    | false => simp [sharedValueCopy]
    | true => rw [h.copy, Bool.true_and]
  rw [hcopy]
  simp only [Bool.and_eq_true]
  rfl

theorem ensureInstallerPreferences_refused
    (h : w.state.resourceDirectory = none ∨ o.keyAllocated = false) :
    ensureInstallerPreferences o w = .ok (.refused, w) := by
  unfold ensureInstallerPreferences
  rcases h with hresource | hkey
  · rw [hresource]
    rfl
  · have hnone : preferenceStorageKey false (some installerPreferences) (some installerSdKey) =
        none := by
      decide +kernel
    rw [hkey, hnone]
    split <;> rfl

/-- The set at the end of the seeding. -/
theorem seedingSet_ends (o : SetOracle) (h : Tabled w es)
    (hpath : w.state.sharedStoragePath = some path)
    (hshort : resource.length ≤ sharedMaxValueSize - 2) :
    ∃ r, sharedValueSetLocked o w (some installerStorageKey) (some (installerText resource)) =
        .ok r ∧
      (r.1.result = false ↔ lookup es installerStorageKey ≠ some (installerText resource) ∧
        (SetRefused o es installerStorageKey ∨ PersistFails o.persist w.disk path)) ∧
      Spares path w.disk r.2.disk ∧ (r.1.result = false → r.2.state = w.state) ∧
      (r.1.result = true → ∃ es', WithInstaller es resource es' ∧
        r.2.state = w.state.withStore (Store.ofEntries es')) := by
  obtain ⟨r, hr, heffect⟩ := sharedValueSetLocked_spec o (some installerStorageKey)
    (some (installerText resource)) h.store h.valid
  refine ⟨r, hr, ?_⟩
  cases sharedValueSetLocked_ends h (installerText_legal hshort) hpath hr with
  | present hfound hr' =>
    subst hr'
    refine ⟨?_, Spares.refl path w.disk, (fun hfail => nomatch hfail), fun _ => ⟨es, .inl ⟨rfl, ?_⟩,
      (withStore_eq h.store).symm⟩⟩
    · simp [hfound]
    · rw [hfound]
      exact startsString_installerText resource
  | refused habsent hrefused hr' =>
    subst hr'
    exact ⟨iff_of_true rfl ⟨habsent, .inl hrefused⟩, Spares.refl path w.disk, fun _ => rfl,
      fun hok => nomatch hok⟩
  | written habsent hplaced hfails hspares =>
    refine ⟨hfails.trans ?_, hspares, fun hfail => ?_, fun hok => ?_⟩
    · simp [habsent, hplaced]
    · rcases heffect with ⟨-, -, hstate, -⟩ | ⟨houtcome, -⟩
      · exact hstate
      · rw [houtcome] at hfail
        cases hfail
    · rcases heffect with ⟨hunsaved, -⟩ | ⟨-, -, hstate, -⟩
      · exact absurd (sharedValueSetLocked_served h hr hok hunsaved) habsent
      · exact ⟨_, .inr rfl, hstate⟩

/-- The ends of the seeding in a bound store. A failure changes nothing but a temporary file. -/
theorem ensureInstallerPreferences_ends (o : InstallerOracle) (h : Tabled w es)
    (hpath : w.state.sharedStoragePath = some path) :
    ∃ r, ensureInstallerPreferences o w = .ok r ∧
      (r.1.result = false ↔ SeedFails o w.state.resourceDirectory es path w.disk) ∧
      Spares path w.disk r.2.disk ∧ (r.1.result = false → r.2.state = w.state) ∧
      (r.1.result = true → ∃ resource es', w.state.resourceDirectory = some resource ∧
        WithInstaller es resource es' ∧ r.2.state = w.state.withStore (Store.ofEntries es')) := by
  have hrefused : ∀ r : Outcome × World, r = (.refused, w) →
      Spares path w.disk r.2.disk ∧ (r.1.result = false → r.2.state = w.state) ∧
      (r.1.result = true → ∃ resource es', w.state.resourceDirectory = some resource ∧
        WithInstaller es resource es' ∧ r.2.state = w.state.withStore (Store.ofEntries es')) := by
    rintro r rfl
    exact ⟨Spares.refl path w.disk, fun _ => rfl, fun hok => absurd hok Bool.false_ne_true⟩
  unfold SeedFails
  cases hresource : w.state.resourceDirectory with
  | none =>
    rw [hresource] at hrefused
    exact ⟨_, ensureInstallerPreferences_refused (.inl hresource), by simp [Outcome.refused],
      hrefused _ rfl⟩
  | some resource =>
    cases hkey : o.keyAllocated with
    | false =>
      rw [hresource] at hrefused
      exact ⟨_, ensureInstallerPreferences_refused (.inr hkey), by simp [Outcome.refused],
        hrefused _ rfl⟩
    | true =>
      rw [hresource] at hrefused
      rw [ensureInstallerPreferences_eq h hresource hkey]
      by_cases hpresent : o.copied ∧ (lookup es installerStorageKey).any startsString
      · rw [if_pos hpresent]
        have hkept := (withStore_eq h.store).symm
        exact ⟨_, rfl, by simp [hpresent], Spares.refl path w.disk,
          fun hfail => absurd hfail.symm Bool.false_ne_true,
          fun _ => ⟨resource, es, rfl, .inl ⟨rfl, hpresent.2⟩, hkept⟩⟩
      · rw [if_neg hpresent]
        by_cases hearly : resource.length > sharedMaxValueSize - 2 ∨ o.encodedAllocated = false
        · rw [if_pos hearly]
          refine ⟨_, rfl, iff_of_true rfl (.inr ⟨hpresent, ?_⟩), hrefused _ rfl⟩
          exact hearly.imp_right .inl
        · rw [if_neg hearly]
          obtain ⟨hlong, hencoded⟩ := not_or.mp hearly
          obtain ⟨r, hr, hfails, hspares, hsame, hnew⟩ :=
            seedingSet_ends o.set h hpath (Nat.le_of_not_lt hlong)
          refine ⟨r, hr, hfails.trans ?_, hspares, hsame, fun hok => ?_⟩
          · simp [hpresent, hlong, hencoded]
          · obtain ⟨es', hinstalled, hstate⟩ := hnew hok
            exact ⟨resource, es', rfl, hinstalled, hstate⟩

end Seeding

section Quarantine

variable {o : QuarantineOracle} {disk disk' : Disk} {path : Path}

/-- The disk with the file at `path` moved to a new name. -/
def movedTo (disk : Disk) (path quarantine : Path) : Disk :=
  Function.update (Function.update disk quarantine (disk path)) path none

/-- A move goes to a name that is free, and anything else changes nothing. -/
theorem renameNoReplace_cases (o : MoveOracle) (disk : Disk) (source destination : Path) :
    (disk destination = none ∧
      renameNoReplace o disk source destination = (.moved, movedTo disk source destination)) ∨
    ∃ result, result ≠ .moved ∧ renameNoReplace o disk source destination = (result, disk) := by
  unfold renameNoReplace
  cases hfile : disk destination with
  | none =>
    cases o.supported <;> cases o.cannotMove <;> cases o.cannotStat <;>
      simp [movedTo, Option.isSome]
  | some node =>
    cases o.supported <;> cases o.cannotMove <;> cases o.cannotStat <;> simp [Option.isSome]

theorem quarantinePath_ne (o : QuarantineOracle) (path : Path) (attempt : Nat) :
    quarantinePath o path attempt ≠ path := by
  intro heq
  have hlength := congrArg List.length heq
  have hpositive : (ascii ".corrupt-").length = 9 := by decide
  unfold quarantinePath at hlength
  simp only [List.length_append, hpositive] at hlength
  omega

/-- The loop over the names moves the store to a new one, or leaves the disk alone. -/
theorem quarantineFrom_cases (o : QuarantineOracle) (disk : Disk) (path : Path)
    (remaining attempt : Nat) :
    quarantineFrom o disk path remaining attempt = (false, disk) ∨
      ∃ quarantine, quarantine ≠ path ∧ disk quarantine = none ∧
        quarantineFrom o disk path remaining attempt = (true, movedTo disk path quarantine) := by
  induction remaining generalizing attempt with
  | zero => exact .inl rfl
  | succ remaining ih =>
    unfold quarantineFrom
    dsimp only
    split
    · exact .inl rfl
    · rcases renameNoReplace_cases (o.move attempt) disk path (quarantinePath o path attempt) with
        ⟨hfree, hmoved⟩ | ⟨result, hnot, hkept⟩
      · rw [hmoved]
        exact .inr ⟨_, quarantinePath_ne o path attempt, hfree, rfl⟩
      · rw [hkept]
        cases result with
        | moved => exact absurd rfl hnot
        | failed => exact .inl rfl
        | _ => exact ih (attempt + 1)

theorem quarantineInvalidSharedStore_cases (o : QuarantineOracle) (disk : Disk) (path : Path) :
    quarantineInvalidSharedStore o disk path = (false, disk) ∨
      ∃ quarantine, quarantine ≠ path ∧ disk quarantine = none ∧
        quarantineInvalidSharedStore o disk path = (true, movedTo disk path quarantine) := by
  unfold quarantineInvalidSharedStore
  split
  · exact .inl rfl
  · exact quarantineFrom_cases o disk path 100 0

end Quarantine

section Opening

/-- The entries of a store file; a missing and a corrupt one have none. -/
def storeEntries : Option Node → List Entry
  | some (.regular contents) => (storeFormat.decode contents).getD []
  | _ => []

theorem sharedValuesLoadFile_entries (faults : LoadFaults) (node : Option Node) :
    ∃ loaded, sharedValuesLoadFile faults (node.map Node.view) Slots.empty = .ok loaded ∧
      (loaded.status = .ioError ∨ (ValidTable (storeEntries node) ∧
        loaded.slots = Slots.ofEntries (storeEntries node) ∧
        loaded.count = (storeEntries node).length)) := by
  have hempty : ∀ status, ValidTable [] ∧
      (⟨status, Slots.empty, 0⟩ : LoadResult).slots = Slots.ofEntries [] ∧
      (⟨status, Slots.empty, 0⟩ : LoadResult).count = ([] : List Entry).length :=
    fun status => ⟨validTable_nil, rfl, rfl⟩
  by_cases hopen : faults.cannotOpen = true
  · exact ⟨⟨.ioError, Slots.empty, 0⟩, by simp [sharedValuesLoadFile, hopen], .inl rfl⟩
  · cases node with
    | none =>
      exact ⟨⟨.missing, Slots.empty, 0⟩, by simp [sharedValuesLoadFile, hopen], .inr (hempty _)⟩
    | some held =>
      cases held with
      | other =>
        by_cases hstat : faults.cannotStat = true
        · exact ⟨⟨.ioError, Slots.empty, 0⟩, by simp [sharedValuesLoadFile, hopen, hstat], .inl rfl⟩
        · exact ⟨⟨.corrupt, Slots.empty, 0⟩, by simp [sharedValuesLoadFile, hopen, hstat, Node.view],
            .inr (hempty _)⟩
      | regular contents =>
        rcases sharedValuesLoadFile_cases faults contents with hload | hio
        · refine ⟨_, hload, .inr ?_⟩
          have hentries : storeEntries (some (.regular contents)) =
              (storeFormat.decode contents).getD [] := rfl
          rw [hentries]
          cases hdecode : storeFormat.decode contents with
          | none => exact hempty .corrupt
          | some es =>
            obtain ⟨hvalid, -⟩ := (storeFormat.decode_eq_some_iff contents es).1 hdecode
            exact ⟨(storeFormat_valid es).1 hvalid, rfl, rfl⟩
        · exact ⟨_, hio, .inl rfl⟩

/-- The call gets to the switch, with the paths of the new store and the disk as it is then. -/
structure Switches (o : RootOracle) (w : World) (root : Option Path) (path directory : Path)
    (disk : Disk) : Prop where
  named : ∃ root', root = some root' ∧ root' ≠ [] ∧
    joinStoragePath o.directoryJoined root' sharedDirectory = some directory
  made : o.directoryMade = true
  joined : joinStoragePath o.pathJoined directory sharedFilename = some path
  loaded : ∃ loaded, sharedValuesLoadFile o.load ((w.disk path).map Node.view) Slots.empty =
    .ok loaded ∧ loaded.status ≠ .ioError ∧
      if loaded.status = .corrupt then
        quarantineInvalidSharedStore o.quarantine w.disk path = (true, disk)
      else disk = w.disk

/-- The call has both of its paths. -/
structure Prepared (o : RootOracle) (root : Option Path) (path directory : Path) : Prop where
  named : ∃ root', root = some root' ∧ root' ≠ [] ∧
    joinStoragePath o.directoryJoined root' sharedDirectory = some directory
  made : o.directoryMade = true
  joined : joinStoragePath o.pathJoined directory sharedFilename = some path

/-- The store was read, and a corrupt one is out of the way. -/
def StoreReady (o : RootOracle) (w : World) (path : Path) (loaded : LoadResult) (disk : Disk) :
    Prop :=
  loaded.status ≠ .ioError ∧
    if loaded.status = .corrupt then
      quarantineInvalidSharedStore o.quarantine w.disk path = (true, disk)
    else disk = w.disk

section Stages

variable {o : RootOracle} {w : World} {root : Option Path} {path directory path' directory' : Path}
  {disk disk' : Disk} {loaded : LoadResult}

theorem Prepared.unique (h : Prepared o root path directory)
    (h' : Prepared o root path' directory') : path' = path ∧ directory' = directory := by
  obtain ⟨root₁, hroot, -, hdirectory⟩ := h.named
  obtain ⟨root₂, hroot', -, hdirectory'⟩ := h'.named
  obtain rfl := Option.some.inj (hroot'.symm.trans hroot)
  obtain rfl := Option.some.inj (hdirectory'.symm.trans hdirectory)
  exact ⟨Option.some.inj (h'.joined.symm.trans h.joined), rfl⟩

theorem Switches.prepared (h : Switches o w root path directory disk) :
    Prepared o root path directory :=
  ⟨h.named, h.made, h.joined⟩

theorem Prepared.switches_iff (h : Prepared o root path directory)
    (hload : sharedValuesLoadFile o.load ((w.disk path).map Node.view) Slots.empty = .ok loaded) :
    Switches o w root path directory disk ↔ StoreReady o w path loaded disk := by
  constructor
  · intro hs
    obtain ⟨loaded', hload', hready⟩ := hs.loaded
    obtain rfl := Except.ok.inj (hload'.symm.trans hload)
    exact hready
  · exact fun hready => ⟨h.named, h.made, h.joined, ⟨loaded, hload, hready⟩⟩

theorem StoreReady.unique (h : StoreReady o w path loaded disk)
    (h' : StoreReady o w path loaded disk') : disk' = disk := by
  obtain ⟨-, hdisk⟩ := h
  obtain ⟨-, hdisk'⟩ := h'
  split at hdisk
  · rename_i hcorrupt
    rw [if_pos hcorrupt] at hdisk'
    exact congrArg Prod.snd (hdisk'.symm.trans hdisk)
  · rename_i hsound
    rw [if_neg hsound] at hdisk'
    rw [hdisk', hdisk]

theorem Switches.unique (h : Switches o w root path directory disk)
    (h' : Switches o w root path' directory' disk') :
    path' = path ∧ directory' = directory ∧ disk' = disk := by
  obtain ⟨rfl, rfl⟩ := h.prepared.unique h'.prepared
  obtain ⟨loaded, hload, hready⟩ := h.loaded
  exact ⟨rfl, rfl, StoreReady.unique hready ((h.prepared.switches_iff hload).mp h')⟩

/-- Without its paths the call leaves everything alone. -/
theorem asm2AndroidSetStorageRoot_prepared (o : RootOracle) (w : World) (root : Option Path) :
    (asm2AndroidSetStorageRoot o w root = .ok (false, w) ∧
      ∀ path directory, ¬ Prepared o root path directory) ∨
    ∃ path directory, Prepared o root path directory := by
  unfold asm2AndroidSetStorageRoot
  cases root with
  | none =>
    refine .inl ⟨rfl, fun _ _ h => ?_⟩
    obtain ⟨root, hroot, -⟩ := h.named
    cases hroot
  | some root =>
    dsimp only
    by_cases hnil : root = []
    · rw [if_pos hnil]
      refine .inl ⟨rfl, fun _ _ h => ?_⟩
      obtain ⟨root', hroot, hne, -⟩ := h.named
      exact hne ((Option.some.inj hroot).symm.trans hnil)
    · rw [if_neg hnil]
      cases hdirectory : joinStoragePath o.directoryJoined root sharedDirectory with
      | none =>
        refine .inl ⟨rfl, fun _ _ h => ?_⟩
        obtain ⟨root', hroot, -, hjoined⟩ := h.named
        rw [← Option.some.inj hroot, hdirectory] at hjoined
        cases hjoined
      | some directory =>
        dsimp only
        by_cases hmade : o.directoryMade = false
        · rw [if_pos hmade]
          refine .inl ⟨rfl, fun _ _ h => ?_⟩
          rw [h.made] at hmade
          cases hmade
        · rw [if_neg hmade]
          cases hpath : joinStoragePath o.pathJoined directory sharedFilename with
          | none =>
            refine .inl ⟨rfl, fun _ _ h => ?_⟩
            obtain ⟨root', hroot, -, hnamed⟩ := h.named
            rw [← Option.some.inj hroot, hdirectory] at hnamed
            have hjoined := h.joined
            rw [← Option.some.inj hnamed, hpath] at hjoined
            cases hjoined
          | some path =>
            exact .inr ⟨path, directory, ⟨root, rfl, hnil, hdirectory⟩, by simpa using hmade, hpath⟩

/-- Behind the read the call gives up, or it gets to the switch. -/
theorem Prepared.switch (h : Prepared o root path directory)
    (hload : sharedValuesLoadFile o.load ((w.disk path).map Node.view) Slots.empty = .ok loaded) :
    (asm2AndroidSetStorageRoot o w root = .ok (false, w) ∧
      ∀ disk, ¬ StoreReady o w path loaded disk) ∨
    ∃ disk, StoreReady o w path loaded disk ∧
      asm2AndroidSetStorageRoot o w root = bindStore o ⟨w.state, disk⟩ path directory loaded := by
  obtain ⟨root', rfl, hnil, hdirectory⟩ := h.named
  unfold asm2AndroidSetStorageRoot StoreReady
  dsimp only
  rw [if_neg hnil, hdirectory]
  dsimp only
  rw [if_neg (by simp [h.made]), h.joined]
  dsimp only
  rw [hload, ok_bind]
  cases hstatus : loaded.status with
  | ioError => exact .inl ⟨rfl, fun _ hready => hready.1 rfl⟩
  | corrupt =>
    dsimp only
    rcases quarantineInvalidSharedStore_cases o.quarantine w.disk path with
      hkept | ⟨quarantine, -, -, hmoved⟩
    · rw [hkept]
      refine .inl ⟨rfl, fun disk hready => ?_⟩
      have hread := hready.2
      rw [if_pos rfl] at hread
      cases hread
    · rw [hmoved]
      exact .inr ⟨_, ⟨by decide, by rw [if_pos rfl]⟩, rfl⟩
  | ok => exact .inr ⟨w.disk, ⟨by decide, by rw [if_neg (by decide)]⟩, rfl⟩
  | missing => exact .inr ⟨w.disk, ⟨by decide, by rw [if_neg (by decide)]⟩, rfl⟩

end Stages

/-- The call gives up and leaves everything alone, or it gets to the switch. -/
theorem asm2AndroidSetStorageRoot_switches (o : RootOracle) (w : World) (root : Option Path) :
    (asm2AndroidSetStorageRoot o w root = .ok (false, w) ∧
      ∀ path directory disk, ¬ Switches o w root path directory disk) ∨
    ∃ path directory disk loaded, Switches o w root path directory disk ∧
      asm2AndroidSetStorageRoot o w root = bindStore o ⟨w.state, disk⟩ path directory loaded ∧
      ValidTable (storeEntries (w.disk path)) ∧
      loaded.slots = Slots.ofEntries (storeEntries (w.disk path)) ∧
      loaded.count = (storeEntries (w.disk path)).length := by
  rcases asm2AndroidSetStorageRoot_prepared o w root with ⟨hrefused, hnot⟩ | ⟨path, directory, h⟩
  · exact .inl ⟨hrefused, fun _ _ _ hs => hnot _ _ hs.prepared⟩
  obtain ⟨loaded, hload, hentries⟩ := sharedValuesLoadFile_entries o.load (w.disk path)
  rcases h.switch hload with ⟨hrefused, hnot⟩ | ⟨disk, hready, hbind⟩
  · refine .inl ⟨hrefused, fun path' directory' disk hs => ?_⟩
    obtain ⟨rfl, rfl⟩ := h.unique hs.prepared
    exact hnot disk ((h.switches_iff hload).mp hs)
  · exact .inr ⟨path, directory, disk, loaded, (h.switches_iff hload).mpr hready, hbind,
      hentries.resolve_left hready.1⟩

end Opening

section Atomicity

/-- The store is that of the root: the entries of its file with the installer preference, and
both paths. -/
structure Opened (w : World) (root : Option Path) (w' : World) : Prop where
  named : ∃ root' path directory, root = some root' ∧
    joinStoragePath true root' sharedDirectory = some directory ∧
    joinStoragePath true directory sharedFilename = some path ∧
    w'.state.sharedStoragePath = some path ∧ w'.state.sharedStorageDirectory = some directory ∧
    ∃ resource es, w.state.resourceDirectory = some resource ∧
      WithInstaller (storeEntries (w.disk path)) resource es ∧
      w'.state.toStore = Store.ofEntries es

/-- A failed call leaves the state as it was, and any other has opened the root. -/
def OpensAtomically (w : World) (root : Option Path) (r : Bool × World) : Prop :=
  (r.1 = false → r.2.state = w.state) ∧ (r.1 = true → Opened w root r.2)

/-- The state is the one that the switch would make. -/
def AlreadyBound (w : World) (path directory : Path) : Prop :=
  w.state.toStore = Store.ofEntries (storeEntries (w.disk path)) ∧
    w.state.sharedStoragePath = some path ∧ w.state.sharedStorageDirectory = some directory

/-- The seeding fails after a switch that changed the state. -/
def HalfBound (o : RootOracle) (w : World) (root : Option Path) : Prop :=
  ∃ path directory disk, Switches o w root path directory disk ∧
    SeedFails o.installer w.state.resourceDirectory (storeEntries (w.disk path)) path disk ∧
    ¬ AlreadyBound w path directory

theorem boundState_eq_iff {w : World} {path directory : Path} {loaded : LoadResult}
    (h : (boundState w.state path directory loaded).toStore =
      Store.ofEntries (storeEntries (w.disk path))) :
    boundState w.state path directory loaded = w.state ↔ AlreadyBound w path directory := by
  constructor
  · intro heq
    unfold AlreadyBound
    rw [← h, heq]
    exact ⟨rfl, by rw [← heq]; rfl, by rw [← heq]; rfl⟩
  · rintro ⟨hstore, hpath, hdirectory⟩
    have hstate : boundState w.state path directory loaded =
        { w.state with
          toStore := (boundState w.state path directory loaded).toStore
          sharedStoragePath := some path
          sharedStorageDirectory := some directory } := rfl
    rw [hstate, h, ← hstore, ← hpath, ← hdirectory]

/-- A state with a table and any binding. -/
def worldOf (table : Table) (path directory : Option Path) (resource : Option CString)
    (disk : Disk) : World :=
  ⟨{ toStore := Store.ofEntries table.entries, sharedStoragePath := path,
     sharedStorageDirectory := directory, resourceDirectory := resource }, disk⟩

/-- Opening a root is atomic exactly if the seeding does not fail after the switch. -/
theorem setStorageRoot_atomic_iff (o : RootOracle) (table : Table)
    (path directory : Option Path) (resource : Option CString) (disk : Disk)
    (root : Option Path) :
    ∃ r, asm2AndroidSetStorageRoot o (worldOf table path directory resource disk) root = .ok r ∧
      (OpensAtomically (worldOf table path directory resource disk) root r ↔
        ¬ HalfBound o (worldOf table path directory resource disk) root) := by
  generalize hw : worldOf table path directory resource disk = w
  have htabled : Tabled w table.entries := by
    rw [← hw]
    exact ⟨rfl, table.valid⟩
  rcases asm2AndroidSetStorageRoot_switches o w root with
    ⟨hcall, hnever⟩ | ⟨path, directory, disk', loaded, hswitch, hcall, hvalid, hslots, hcount⟩
  · refine ⟨_, hcall, iff_of_true ⟨fun _ => rfl, fun hok => absurd hok Bool.false_ne_true⟩ ?_⟩
    rintro ⟨path, directory, disk, hswitch, -⟩
    exact hnever path directory disk hswitch
  · have hbound : Tabled ⟨boundState w.state path directory loaded, disk'⟩
        (storeEntries (w.disk path)) :=
      boundState_tabled path directory (w := ⟨w.state, disk'⟩) ⟨htabled.store, htabled.valid⟩
        hslots hcount hvalid
    have hpath : (boundState w.state path directory loaded).sharedStoragePath = some path := rfl
    obtain ⟨r, hr, hfails, -, hsame, hnew⟩ :=
      ensureInstallerPreferences_ends o.installer hbound hpath
    have hbind : bindStore o ⟨w.state, disk'⟩ path directory loaded = .ok (r.1.result, r.2) := by
      simp only [bindStore, hr, ok_bind, return_eq]
    refine ⟨_, hcall.trans hbind, ?_⟩
    cases hresult : r.1.result with
    | false =>
      have hseed := hfails.mp hresult
      have hstate : r.2.state = boundState w.state path directory loaded := hsame hresult
      have hkept : OpensAtomically w root (false, r.2) ↔ AlreadyBound w path directory := by
        rw [← boundState_eq_iff hbound.store, ← hstate]
        exact ⟨fun h => h.1 rfl, fun h => ⟨fun _ => h, fun hok => absurd hok Bool.false_ne_true⟩⟩
      rw [hkept, HalfBound]
      constructor
      · rintro halready ⟨path', directory', disk'', hswitch', -, hnot⟩
        obtain ⟨rfl, rfl, -⟩ := hswitch.unique hswitch'
        exact hnot halready
      · intro hnot
        by_contra hother
        exact hnot ⟨path, directory, disk', hswitch, hseed, hother⟩
    | true =>
      obtain ⟨resource, es, hresource, hinstalled, hstate⟩ := hnew hresult
      obtain ⟨root', hroot, -, hdirectory⟩ := hswitch.named
      refine iff_of_true ⟨fun hfail => absurd hfail.symm Bool.false_ne_true,
        fun _ => ⟨root', path, directory, hroot, joinStoragePath_allocated hdirectory,
          joinStoragePath_allocated hswitch.joined, ?_⟩⟩ ?_
      · rw [hstate]
        exact ⟨rfl, rfl, resource, es, hresource, hinstalled, rfl⟩
      · rintro ⟨path', directory', disk'', hswitch', hseed, -⟩
        obtain ⟨rfl, rfl, rfl⟩ := hswitch.unique hswitch'
        rw [hfails.mpr hseed] at hresult
        cases hresult

/-- The rename of the first write is refused, and the unbound state is bound to the root. -/
theorem setStorageRoot_halfBound :
    ¬ ∃ r, asm2AndroidSetStorageRoot
        { plainRoot with installer := ⟨true, true, true, plainSet true⟩ } plainWorld
        (some (ascii "/roms")) = .ok r ∧ OpensAtomically plainWorld (some (ascii "/roms")) r := by
  rintro ⟨r, hr, hatomic, -⟩
  have hrun : ((asm2AndroidSetStorageRoot
      { plainRoot with installer := ⟨true, true, true, plainSet true⟩ } plainWorld
      (some (ascii "/roms"))).map fun r => (r.1, r.2.state.sharedStoragePath.isSome)) =
        .ok (false, true) := by
    decide +kernel
  rw [hr] at hrun
  obtain ⟨hfailed, hbound⟩ := Prod.mk.inj (Except.ok.inj hrun)
  rw [hatomic hfailed] at hbound
  cases hbound

end Atomicity

section Recovery

/-- The loader reports the store file of the root as corrupt. -/
structure ReportsCorrupt (o : RootOracle) (w : World) (root : Option Path)
    (path directory : Path) : Prop where
  named : ∃ root', root = some root' ∧ root' ≠ [] ∧
    joinStoragePath o.directoryJoined root' sharedDirectory = some directory
  made : o.directoryMade = true
  joined : joinStoragePath o.pathJoined directory sharedFilename = some path
  corrupt : (sharedValuesLoadFile o.load ((w.disk path).map Node.view) Slots.empty).map
    LoadResult.status = .ok .corrupt

/-- The corrupt store was moved to a new name before anything was written, and is still there at
the end, like every other file. -/
def Quarantined (o : RootOracle) (w : World) (path directory : Path) (r : Bool × World) : Prop :=
  ∃ quarantine, w.disk quarantine = none ∧
    (∃ loaded, bindStore o ⟨w.state, movedTo w.disk path quarantine⟩ path directory loaded =
      .ok r) ∧
    r.2.disk quarantine = w.disk path ∧ Spares path w.disk r.2.disk

theorem corrupt_isSome {faults : LoadFaults} {node : Option Node}
    (h : (sharedValuesLoadFile faults (node.map Node.view) Slots.empty).map LoadResult.status =
      .ok .corrupt) : ∃ found, node = some found := by
  cases node with
  | some found => exact ⟨found, rfl⟩
  | none =>
    unfold sharedValuesLoadFile at h
    cases hopen : faults.cannotOpen <;> rw [hopen] at h <;> cases h

/-- A switch after a corrupt store is one after its quarantine. -/
theorem ReportsCorrupt.switches {o : RootOracle} {w : World} {root : Option Path}
    {path directory path' directory' : Path} {disk : Disk}
    (h : ReportsCorrupt o w root path directory)
    (hswitch : Switches o w root path' directory' disk) :
    path' = path ∧ directory' = directory ∧
      quarantineInvalidSharedStore o.quarantine w.disk path = (true, disk) := by
  obtain ⟨root₁, hroot, -, hdirectory⟩ := h.named
  obtain ⟨root₂, hroot', -, hdirectory'⟩ := hswitch.named
  obtain rfl := Option.some.inj (hroot'.symm.trans hroot)
  obtain rfl := Option.some.inj (hdirectory'.symm.trans hdirectory)
  obtain rfl := Option.some.inj (hswitch.joined.symm.trans h.joined)
  obtain ⟨loaded, hload, -, hdisk⟩ := hswitch.loaded
  have hcorrupt := h.corrupt
  rw [hload] at hcorrupt
  rw [if_pos (Except.ok.inj hcorrupt)] at hdisk
  exact ⟨rfl, rfl, hdisk⟩

/-- A corrupt store is kept under a new name or, if it cannot be moved, where it is. -/
theorem quarantine_preserves (o : RootOracle) (table : Table) (bound boundDirectory : Option Path)
    (resource : Option CString) (disk : Disk) (root : Option Path) (path directory : Path)
    (h : ReportsCorrupt o (worldOf table bound boundDirectory resource disk) root path directory) :
    ∃ r, asm2AndroidSetStorageRoot o (worldOf table bound boundDirectory resource disk) root =
        .ok r ∧
      (Quarantined o (worldOf table bound boundDirectory resource disk) path directory r ∨
        r = (false, worldOf table bound boundDirectory resource disk)) := by
  generalize hw : worldOf table bound boundDirectory resource disk = w at h ⊢
  have htabled : Tabled w table.entries := by
    rw [← hw]
    exact ⟨rfl, table.valid⟩
  rcases asm2AndroidSetStorageRoot_switches o w root with
    ⟨hcall, -⟩ | ⟨path', directory', disk', loaded, hswitch, hcall, hvalid, hslots, hcount⟩
  · exact ⟨_, hcall, .inr rfl⟩
  · obtain ⟨rfl, rfl, hmoved⟩ := h.switches hswitch
    rcases quarantineInvalidSharedStore_cases o.quarantine w.disk path' with
      hkept | ⟨quarantine, hne, hfree, hmoved'⟩
    · rw [hkept] at hmoved
      cases hmoved
    · obtain rfl : movedTo w.disk path' quarantine = disk' :=
        congrArg Prod.snd (hmoved'.symm.trans hmoved)
      have hbound : Tabled ⟨boundState w.state path' directory' loaded,
          movedTo w.disk path' quarantine⟩ (storeEntries (w.disk path')) :=
        boundState_tabled path' directory' (w := ⟨w.state, movedTo w.disk path' quarantine⟩)
          ⟨htabled.store, htabled.valid⟩ hslots hcount hvalid
      have hpath : (boundState w.state path' directory' loaded).sharedStoragePath = some path' := rfl
      obtain ⟨r, hr, -, hspares, -, -⟩ := ensureInstallerPreferences_ends o.installer hbound hpath
      have hbind : bindStore o ⟨w.state, movedTo w.disk path' quarantine⟩ path' directory' loaded =
          .ok (r.1.result, r.2) := by
        simp only [bindStore, hr, ok_bind, return_eq]
      obtain ⟨node, hnode⟩ := corrupt_isSome h.corrupt
      refine ⟨_, hcall.trans hbind, .inl ⟨quarantine, hfree, ⟨loaded, hbind⟩, ?_, ?_⟩⟩
      · rw [hnode]
        refine hspares quarantine node hne ?_
        change movedTo w.disk path' quarantine quarantine = some node
        rw [movedTo, Function.update_of_ne hne, Function.update_self, hnode]
      · intro other node' hother hfile
        refine hspares other node' hother ?_
        have hold : other ≠ quarantine := by
          rintro rfl
          rw [hfree] at hfile
          cases hfile
        change movedTo w.disk path' quarantine other = some node'
        rw [movedTo, Function.update_of_ne hother, Function.update_of_ne hold, hfile]

def romsDirectory : Path := ascii "/roms/" ++ sharedDirectory

def romsPath : Path := romsDirectory ++ ascii "/" ++ sharedFilename

/-- A damaged store beside an earlier one that has the first of the names. -/
def damagedStore : Disk :=
  Function.update
    (Function.update (fun _ => none) (quarantinePath plainRoot.quarantine romsPath 0)
      (some (.regular (ascii "earlier"))))
    romsPath (some (.regular (ascii "damaged")))

theorem quarantine_preserves_damaged :
    (quarantineInvalidSharedStore plainRoot.quarantine damagedStore romsPath).2
        (quarantinePath plainRoot.quarantine romsPath 1) = some (.regular (ascii "damaged")) ∧
      ∃ r, asm2AndroidSetStorageRoot plainRoot
          (worldOf ⟨[], validTable_nil⟩ none none none damagedStore) (some (ascii "/roms")) = .ok r ∧
        (Quarantined plainRoot (worldOf ⟨[], validTable_nil⟩ none none none damagedStore) romsPath
            romsDirectory r ∨
          r = (false, worldOf ⟨[], validTable_nil⟩ none none none damagedStore)) := by
  have hfile : damagedStore romsPath = some (.regular (ascii "damaged")) :=
    Function.update_self ..
  have hcorrupt : (sharedValuesLoadFile plainRoot.load ((damagedStore romsPath).map Node.view)
      Slots.empty).map LoadResult.status = .ok .corrupt := by
    rw [hfile]
    rfl
  refine ⟨by decide +kernel, ?_⟩
  exact quarantine_preserves plainRoot ⟨[], validTable_nil⟩ none none none damagedStore
    (some (ascii "/roms")) romsPath romsDirectory
    ⟨⟨ascii "/roms", rfl, by decide, by decide +kernel⟩, rfl, by decide +kernel, hcorrupt⟩

end Recovery

end Asm2Runtime.SharedFile
