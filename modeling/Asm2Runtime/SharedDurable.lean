import Asm2Runtime.SharedRoot
import Asm2Runtime.SharedTable

/-!
# The durable copy equals the memory

Whatever came before, a storage root that was opened successfully leaves the table
in memory equal to the table in the file. Every call keeps that, also when its
write fails.
-/

namespace Asm2Runtime.SharedFile

open Transition

section Calls

/-- The memory holds a valid table. -/
structure Tabled (w : World) (es : List Entry) : Prop where
  store : w.state.toStore = Store.ofEntries es
  valid : ValidTable es

/-- So does the store file, and it is the same one. -/
structure Durable (w : World) (path : Path) (es : List Entry) : Prop extends Tabled w es where
  bound : w.state.sharedStoragePath = some path
  file : w.disk path = some (.regular (storeFormat.print es))

/-- A step that committed a table or left everything alone. -/
def Change (w w' : World) : Prop :=
  (w'.state = w.state ∧ Kept w.state w.disk w'.disk) ∨
    ∃ es, ValidTable es ∧ w'.state = w.state.withStore (Store.ofEntries es) ∧
      Saved w.state w'.disk es

def Reply.persisted : Reply → Option Bool
  | .done outcome => outcome.persisted
  | _ => none

theorem Effect.change {w : World} {es : List Entry} {r : Outcome × World} (h : Effect w es r) :
    Change w r.2 := by
  cases h with
  | inl h => exact Or.inl h.2.2
  | inr h => exact Or.inr ⟨es, h.2⟩

theorem Effect.unchanged {w : World} {es : List Entry} {r : Outcome × World} (h : Effect w es r)
    (hp : r.1.persisted ≠ some true) : r.2.state = w.state ∧ Kept w.state w.disk r.2.disk := by
  cases h with
  | inl h => exact h.2.2
  | inr h =>
    rw [h.1] at hp
    exact absurd rfl hp

theorem Change.refl (w : World) : Change w w := Or.inl ⟨rfl, Kept.refl w.state w.disk⟩

theorem preferenceSet_spec (o : PreferenceSetOracle) {w : World} {es : List Entry}
    (bundle : Bundle) (h : Tabled w es) :
    ∃ r es', preferenceSet o w bundle = .ok r ∧ Effect w es' r := by
  unfold preferenceSet
  simp only
  split
  case h_1 key text _ _ =>
    obtain ⟨r, hr, he⟩ := sharedValueSetLocked_spec o.set (some key) (some text) h.store h.valid
    exact ⟨r, _, hr, he⟩
  case h_2 => exact ⟨_, es, rfl, Effect.refused w es⟩

/-- Every allowed call returns, and a call whose write fails changes nothing. -/
theorem Call.apply_spec {w : World} {es : List Entry} (h : Tabled w es) (c : Call)
    (hc : c.Allowed w) :
    ∃ reply w', c.apply w = .ok (reply, w') ∧ Change w w' ∧
      (reply.persisted = some false → w'.state = w.state ∧ Kept w.state w.disk w'.disk) := by
  cases c with
  | set o key value =>
    obtain ⟨r, hr, he⟩ := sharedValueSetLocked_spec o key value h.store h.valid
    refine ⟨.done r.1, r.2, ?_, he.change, fun hp => he.unchanged ?_⟩
    · simp only [Call.apply, hr, ok_bind, return_eq]
    · rw [show r.1.persisted = some false from hp]
      simp
  | delete o key =>
    obtain ⟨r, hr, he⟩ := sharedValueDeleteLocked_spec o key h.store h.valid
    refine ⟨.done r.1, r.2, ?_, he.change, fun hp => he.unchanged ?_⟩
    · simp only [Call.apply, hr, ok_bind, return_eq]
    · rw [show r.1.persisted = some false from hp]
      simp
  | get key => exact ⟨_, w, rfl, Change.refl w, by simp [Reply.persisted]⟩
  | existsKey key => exact ⟨_, w, rfl, Change.refl w, by simp [Reply.persisted]⟩
  | preferenceGet o bundle => exact ⟨_, w, rfl, Change.refl w, by simp [Reply.persisted]⟩
  | preferenceSet o bundle =>
    obtain ⟨r, es', hr, he⟩ := preferenceSet_spec o bundle h
    refine ⟨.done r.1, r.2, ?_, he.change, fun hp => he.unchanged ?_⟩
    · simp only [Call.apply, hr, ok_bind, return_eq]
    · rw [show r.1.persisted = some false from hp]
      simp
  | outside path node =>
    have hkept : Kept w.state w.disk (Function.update w.disk path node) := by
      intro path' hpath'
      have hne : path' ≠ path := by
        intro heq
        subst heq
        exact hc hpath'
      rw [Function.update_of_ne hne]
    exact ⟨_, _, rfl, Or.inl ⟨rfl, hkept⟩, by simp [Reply.persisted]⟩

theorem Tabled.change {w w' : World} {es : List Entry} (h : Tabled w es) (hc : Change w w') :
    ∃ es', Tabled w' es' := by
  cases hc with
  | inl hsame => exact ⟨es, by rw [hsame.1]; exact h.store, h.valid⟩
  | inr hnew =>
    obtain ⟨es', hv, hs, _⟩ := hnew
    exact ⟨es', by rw [hs]; rfl, hv⟩

theorem Durable.change {w w' : World} {path : Path} {es : List Entry} (h : Durable w path es)
    (hc : Change w w') : ∃ es', Durable w' path es' := by
  cases hc with
  | inl hsame =>
    refine ⟨es, ⟨by rw [hsame.1]; exact h.store, h.valid⟩, ?_, ?_⟩
    · rw [hsame.1]
      exact h.bound
    · rw [hsame.2 path h.bound]
      exact h.file
  | inr hnew =>
    obtain ⟨es', hv, hs, hsaved⟩ := hnew
    refine ⟨es', ⟨by rw [hs]; rfl, hv⟩, ?_, hsaved path h.bound⟩
    rw [hs]
    exact h.bound

theorem callStep_change {w w' : World} {es : List Entry} {c : Call} (h : Tabled w es)
    (hstep : callStep w c = some w') : Change w w' := by
  unfold callStep at hstep
  split at hstep
  case isTrue hc =>
    obtain ⟨reply, w'', hr, hchange, _⟩ := c.apply_spec h hc
    rw [hr] at hstep
    simp only [Option.some.injEq] at hstep
    subst hstep
    exact hchange
  case isFalse => simp at hstep

theorem Durable.run {w w' : World} {path : Path} {calls : List Call}
    (h : ∃ es, Durable w path es) (hrun : run callStep w calls = some w') :
    ∃ es, Durable w' path es := by
  refine run_invariant (P := fun w => ∃ es, Durable w path es) ?_ h hrun
  intro s c t hs hstep
  obtain ⟨es, hs⟩ := hs
  exact hs.change (callStep_change hs.toTabled hstep)

end Calls

section Opening

theorem adoptLoaded_at (s loaded : Slots) (count j : Nat) :
    ((adoptLoaded s loaded count).keys j, (adoptLoaded s loaded count).values j) =
      if j < count then (loaded.keys j, loaded.values j) else (s.keys j, s.values j) := by
  induction count with
  | zero => simp [adoptLoaded]
  | succ count ih =>
    rw [adoptLoaded, set_at, ih]
    by_cases hj : j = count
    · subst hj
      simp
    · rw [if_neg hj]
      by_cases hlt : j < count
      · rw [if_pos hlt, if_pos (by omega)]
      · rw [if_neg hlt, if_neg (by omega)]

/-- Clearing the old table and adopting the new one leaves nothing of the old behind. -/
theorem adoptLoaded_ofEntries (old loaded : List Entry) :
    adoptLoaded (sharedValueArraysClear (Slots.ofEntries old) old.length) (Slots.ofEntries loaded)
      loaded.length = Slots.ofEntries loaded := by
  rw [sharedValueArraysClear_ofEntries]
  apply slots_eq
  intro j
  rw [adoptLoaded_at]
  by_cases hj : j < loaded.length
  · rw [if_pos hj]
  · have hnone : loaded[j]? = none := List.getElem?_eq_none (by omega)
    rw [if_neg hj]
    simp [Slots.ofEntries, Slots.empty, hnone]

theorem ensureInstallerPreferences_spec (o : InstallerOracle) {w : World} {es : List Entry}
    (h : Tabled w es) : ∃ r es', ensureInstallerPreferences o w = .ok r ∧ Effect w es' r := by
  unfold ensureInstallerPreferences
  split
  · exact ⟨_, es, rfl, Effect.refused w es⟩
  · split
    · exact ⟨_, es, rfl, Effect.refused w es⟩
    · split
      case isTrue hpresent =>
        have hpos : 0 < w.state.count := by
          rw [show w.state.count = es.length from congrArg Store.count h.store]
          cases es with
          | nil =>
            have hstore := h.store
            simp [sharedValueCopy, hstore, sharedValueIndex_eq, indexOf] at hpresent
          | cons e es => simp
        exact ⟨_, es, rfl, Or.inl ⟨by simp, fun _ => hpos, rfl, Kept.refl w.state w.disk⟩⟩
      case isFalse =>
        split
        · exact ⟨_, es, rfl, Effect.refused w es⟩
        · obtain ⟨r, hr, he⟩ := sharedValueSetLocked_spec o.set _ _ h.store h.valid
          exact ⟨r, _, hr, he⟩

theorem boundState_tabled {w : World} {old : List Entry} (path directory : Path)
    {loaded : LoadResult} {es : List Entry} (h : Tabled w old)
    (hslots : loaded.slots = Slots.ofEntries es) (hcount : loaded.count = es.length)
    (hvalid : ValidTable es) : Tabled ⟨boundState w.state path directory loaded, w.disk⟩ es := by
  constructor
  · have hslots' : w.state.toSlots = Slots.ofEntries old := congrArg Store.toSlots h.store
    have hcount' : w.state.count = old.length := congrArg Store.count h.store
    simp only [boundState, hslots', hcount', hslots, hcount, adoptLoaded_ofEntries]
    rfl
  · exact hvalid

/-- Binding keeps the table valid, and a successful seeding makes it durable: either the file was
just written, or it is the one that was loaded. -/
theorem bindStore_spec (o : RootOracle) {w : World} {old : List Entry} (path directory : Path)
    {loaded : LoadResult} {es : List Entry} (h : Tabled w old)
    (hslots : loaded.slots = Slots.ofEntries es) (hcount : loaded.count = es.length)
    (hvalid : ValidTable es)
    (hfile : es ≠ [] → w.disk path = some (.regular (storeFormat.print es))) :
    ∃ r, bindStore o w path directory loaded = .ok r ∧ (∃ es', Tabled r.2 es') ∧
      (r.1 = true → ∃ es', Durable r.2 path es') := by
  have htabled := boundState_tabled path directory h hslots hcount hvalid
  obtain ⟨r, es', hr, he⟩ := ensureInstallerPreferences_spec o.installer htabled
  have hbind : bindStore o w path directory loaded = .ok (r.1.result, r.2) := by
    simp only [bindStore, hr, ok_bind, return_eq]
  refine ⟨_, hbind, htabled.change he.change, ?_⟩
  intro hok
  cases he with
  | inl hsame =>
    have hpos : 0 < es.length := by
      have hcounted := hsame.2.1 hok
      rwa [show (boundState w.state path directory loaded).count = es.length from hcount] at hcounted
    have hne : es ≠ [] := List.ne_nil_of_length_pos hpos
    refine ⟨es, ⟨by rw [hsame.2.2.1]; exact htabled.store, hvalid⟩, ?_, ?_⟩
    · rw [hsame.2.2.1]
      rfl
    · rw [hsame.2.2.2 path rfl]
      exact hfile hne
  | inr hnew =>
    refine ⟨es', ⟨by rw [hnew.2.2.1]; rfl, hnew.2.1⟩, ?_, hnew.2.2.2 path rfl⟩
    rw [hnew.2.2.1]
    rfl

theorem validTable_nil : ValidTable [] := ⟨by simp, List.nodup_nil, by simp⟩

/-- What the loader may answer: an error, or a valid table that is in the file unless empty. -/
theorem sharedValuesLoadFile_spec (faults : LoadFaults) (node : Option Node) :
    ∃ loaded, sharedValuesLoadFile faults (node.map Node.view) Slots.empty = .ok loaded ∧
      (loaded.status = .ioError ∨ ∃ es, ValidTable es ∧ loaded.slots = Slots.ofEntries es ∧
        loaded.count = es.length ∧
        (es ≠ [] → loaded.status = .ok ∧ node = some (.regular (storeFormat.print es)))) := by
  have hempty : ∀ status, ∃ es, ValidTable es ∧
      (⟨status, Slots.empty, 0⟩ : LoadResult).slots = Slots.ofEntries es ∧
      (⟨status, Slots.empty, 0⟩ : LoadResult).count = es.length ∧
        (es ≠ [] → status = .ok ∧ node = some (.regular (storeFormat.print es))) := by
    intro status
    exact ⟨[], validTable_nil, rfl, rfl, fun h => absurd rfl h⟩
  by_cases hopen : faults.cannotOpen = true
  · exact ⟨⟨.ioError, Slots.empty, 0⟩, by simp [sharedValuesLoadFile, hopen], Or.inl rfl⟩
  · cases node with
    | none =>
      exact ⟨⟨.missing, Slots.empty, 0⟩, by simp [sharedValuesLoadFile, hopen], Or.inr (hempty _)⟩
    | some held =>
      cases held with
      | other =>
        by_cases hstat : faults.cannotStat = true
        · exact ⟨⟨.ioError, Slots.empty, 0⟩, by simp [sharedValuesLoadFile, hopen, hstat],
            Or.inl rfl⟩
        · exact ⟨⟨.corrupt, Slots.empty, 0⟩,
            by simp [sharedValuesLoadFile, hopen, hstat, Node.view], Or.inr (hempty _)⟩
      | regular contents =>
        cases sharedValuesLoadFile_cases faults contents with
        | inr hio => exact ⟨_, hio, Or.inl rfl⟩
        | inl hload =>
          refine ⟨_, hload, Or.inr ?_⟩
          cases hd : storeFormat.decode contents with
          | none => exact hempty .corrupt
          | some es =>
            obtain ⟨hv, rfl⟩ := (storeFormat.decode_eq_some_iff contents es).1 hd
            exact ⟨es, (storeFormat_valid es).1 hv, rfl, rfl, fun _ => ⟨rfl, rfl⟩⟩

theorem joinStoragePath_allocated {allocated : Bool} {left right path : Path}
    (h : joinStoragePath allocated left right = some path) :
    joinStoragePath true left right = some path := by
  cases allocated with
  | true => exact h
  | false =>
    simp only [joinStoragePath] at h
    grind

/-- The call gives up and leaves the state alone, or it binds the store to a valid table, which
is the one in the file unless it is empty. -/
theorem asm2AndroidSetStorageRoot_cases (o : RootOracle) (w : World) (root : Option Path) :
    (∃ w', asm2AndroidSetStorageRoot o w root = .ok (false, w') ∧ w'.state = w.state) ∨
      ∃ path directory loaded disk es, rootStorePath root = some path ∧
        asm2AndroidSetStorageRoot o w root = bindStore o ⟨w.state, disk⟩ path directory loaded ∧
        ValidTable es ∧ loaded.slots = Slots.ofEntries es ∧ loaded.count = es.length ∧
        (es ≠ [] → disk path = some (.regular (storeFormat.print es)) ∧
          w.disk path = some (.regular (storeFormat.print es))) := by
  unfold asm2AndroidSetStorageRoot
  cases root with
  | none => exact Or.inl ⟨w, rfl, rfl⟩
  | some root =>
    simp only
    split
    · exact Or.inl ⟨w, rfl, rfl⟩
    · cases hdirectory : joinStoragePath o.directoryJoined root sharedDirectory with
      | none => exact Or.inl ⟨w, rfl, rfl⟩
      | some directory =>
        simp only
        split
        · exact Or.inl ⟨w, rfl, rfl⟩
        · cases hpath : joinStoragePath o.pathJoined directory sharedFilename with
          | none => exact Or.inl ⟨w, rfl, rfl⟩
          | some path =>
            have hroot : rootStorePath (some root) = some path := by
              simp only [rootStorePath, Option.bind_some, joinStoragePath_allocated hdirectory,
                joinStoragePath_allocated hpath]
            simp only
            obtain ⟨loaded, hload, hcases⟩ := sharedValuesLoadFile_spec o.load (w.disk path)
            rw [hload, ok_bind]
            cases hcases with
            | inl hio =>
              rw [hio]
              exact Or.inl ⟨w, rfl, rfl⟩
            | inr htable =>
              obtain ⟨es, hv, hslots, hcount, hfile⟩ := htable
              cases hstatus : loaded.status with
              | ioError => exact Or.inl ⟨w, rfl, rfl⟩
              | corrupt =>
                -- A corrupt file gives no entries, so the new file need not be there yet.
                have hnil : es = [] := by
                  by_contra hne
                  have hok := (hfile hne).1
                  rw [hstatus] at hok
                  cases hok
                simp only
                split
                case h_1 disk' _ => exact Or.inl ⟨_, rfl, rfl⟩
                case h_2 disk' _ =>
                  exact Or.inr ⟨path, directory, loaded, disk', es, hroot, rfl, hv, hslots, hcount,
                    fun hne => absurd hnil hne⟩
              | ok =>
                exact Or.inr ⟨path, directory, loaded, w.disk, es, hroot, rfl, hv, hslots, hcount,
                  fun hne => ⟨(hfile hne).2, (hfile hne).2⟩⟩
              | missing =>
                exact Or.inr ⟨path, directory, loaded, w.disk, es, hroot, rfl, hv, hslots, hcount,
                  fun hne => ⟨(hfile hne).2, (hfile hne).2⟩⟩

theorem asm2AndroidSetStorageRoot_spec (o : RootOracle) {w : World} {old : List Entry}
    (root : Option Path) (h : Tabled w old) :
    ∃ r, asm2AndroidSetStorageRoot o w root = .ok r ∧ (∃ es, Tabled r.2 es) ∧
      (r.1 = true → ∃ path es, Durable r.2 path es) := by
  cases asm2AndroidSetStorageRoot_cases o w root with
  | inl hfail =>
    obtain ⟨w', hr, hw'⟩ := hfail
    exact ⟨_, hr, ⟨old, by rw [hw']; exact h.store, h.valid⟩, fun hf => by simp at hf⟩
  | inr hbound =>
    obtain ⟨path, directory, loaded, disk, es, _, heq, hv, hslots, hcount, hfile⟩ := hbound
    have h' : Tabled ⟨w.state, disk⟩ old := ⟨h.store, h.valid⟩
    obtain ⟨r, hr, ht, hd⟩ := bindStore_spec o path directory h' hslots hcount hv
      fun hne => (hfile hne).1
    exact ⟨r, heq.trans hr, ht, fun hok => ⟨path, hd hok⟩⟩

theorem eventStep_tabled {w w' : World} {e : Event} (h : ∃ es, Tabled w es)
    (hstep : eventStep w e = some w') : ∃ es, Tabled w' es := by
  obtain ⟨es, h⟩ := h
  cases e with
  | call c => exact h.change (callStep_change h hstep)
  | setStorageRoot o root =>
    obtain ⟨r, hr, ht, _⟩ := asm2AndroidSetStorageRoot_spec o root h
    simp only [eventStep, hr, Option.some.injEq] at hstep
    subst hstep
    exact ht

end Opening

section Main

/-- The table as the code keeps it: distinct keys of legal sizes, and null slots above them. -/
structure WellFormedStore (store : Store) : Prop where
  count_le : store.count ≤ sharedMaxEntries
  above : ∀ i, store.count ≤ i → store.keys i = none ∧ store.values i = none
  below : ∀ i, i < store.count → ∃ key value, store.keys i = some key ∧
    store.values i = some value ∧ 0 < key.length ∧ key.length ≤ sharedMaxKeySize ∧
      value.length ≤ sharedMaxValueSize
  distinct : ∀ i j, i < store.count → j < store.count → store.keys i = store.keys j → i = j

theorem ValidTable.wellFormed {es : List Entry} (h : ValidTable es) :
    WellFormedStore (Store.ofEntries es) where
  count_le := h.count_le
  above i hi := by
    have hnone : es[i]? = none := List.getElem?_eq_none hi
    simp [Store.ofEntries, Slots.ofEntries, hnone]
  below i hi := by
    have hlt : i < es.length := hi
    have he := h.entry es[i] (List.getElem_mem hlt)
    exact ⟨es[i].1, es[i].2, by simp [Store.ofEntries, Slots.ofEntries, hlt],
      by simp [Store.ofEntries, Slots.ofEntries, hlt], he⟩
  distinct i j hi hj heq := by
    have hi' : i < es.length := hi
    have hj' : j < es.length := hj
    have hki : i < (es.map Prod.fst).length := by simpa using hi'
    have hkj : j < (es.map Prod.fst).length := by simpa using hj'
    have hkeys : (es.map Prod.fst)[i] = (es.map Prod.fst)[j] := by
      simpa [Store.ofEntries, Slots.ofEntries, hi', hj'] using heq
    exact (List.Nodup.getElem_inj_iff h.nodup).1 hkeys

/-- After any history, a successful opening and any calls: the table is well formed, the store
file decodes to it, and a call whose write failed changes neither. -/
theorem durable_copy (resource : Option CString) (disk : Disk) (before : List Event)
    (o : RootOracle) (root : Option Path) (w opened now : World) (calls : List Call)
    (hbefore : run eventStep (initialWorld resource disk) before = some w)
    (hopen : asm2AndroidSetStorageRoot o w root = .ok (true, opened))
    (hcalls : run callStep opened calls = some now) :
    WellFormedStore now.state.toStore ∧
    ∃ path, now.state.sharedStoragePath = some path ∧
      sharedValuesLoadFile LoadFaults.never ((now.disk path).map Node.view) Slots.empty =
        .ok ⟨.ok, now.state.toSlots, now.state.count⟩ ∧
      ∀ call : Call, call.Allowed now → ∃ reply next, call.apply now = .ok (reply, next) ∧
        (reply.persisted = some false →
          next.state = now.state ∧ next.disk path = now.disk path) := by
  have hinit : ∃ es, Tabled (initialWorld resource disk) es := ⟨[], rfl, validTable_nil⟩
  obtain ⟨old, hold⟩ := run_invariant (P := fun w => ∃ es, Tabled w es)
    (fun _ _ _ => eventStep_tabled) hinit hbefore
  obtain ⟨r, hr, _, hdurable⟩ := asm2AndroidSetStorageRoot_spec o root hold
  rw [hopen, Except.ok.injEq] at hr
  subst hr
  obtain ⟨path, hfirst⟩ := hdurable rfl
  obtain ⟨es, hnow⟩ := Durable.run hfirst hcalls
  have hstore := hnow.store
  constructor
  · rw [hstore]
    exact hnow.valid.wellFormed
  · refine ⟨path, hnow.bound, ?_, ?_⟩
    · have hdecode := decodeFile_print hnow.valid
      rw [hnow.file, show now.state.toSlots = Slots.ofEntries es from congrArg Store.toSlots hstore,
        show now.state.count = es.length from congrArg Store.count hstore]
      exact hdecode
    · intro call hcall
      obtain ⟨reply, next, happly, _, hfailed⟩ := call.apply_spec hnow.toTabled hcall
      exact ⟨reply, next, happly, fun hp => ⟨(hfailed hp).1, (hfailed hp).2 path hnow.bound⟩⟩

/-- Writes succeed, unless the rename is refused. -/
def plainSet (refused : Bool) : SetOracle :=
  ⟨true, true, some fun _ => 0, 7, false, fun _ => false, none, none, false, false, refused, false⟩

def plainRoot : RootOracle :=
  ⟨true, true, true, .never, ⟨false, 0, 0, 7, fun _ => ⟨true, false, false⟩⟩,
    ⟨true, true, true, plainSet false⟩⟩

def plainWorld : World := initialWorld (some (.ofBuffer (ascii "/sdcard"))) fun _ => none

def plainCalls : List Call :=
  [.set (plainSet false) (some (.ofBuffer (ascii "a"))) (some (.ofBuffer (ascii "1"))),
    .set (plainSet true) (some (.ofBuffer (ascii "b"))) (some (.ofBuffer (ascii "2"))),
    .delete (plainSet false).persist (some (.ofBuffer (ascii "a")))]

def plainRun : Option World :=
  match asm2AndroidSetStorageRoot plainRoot plainWorld (some (ascii "/roms")) with
  | .ok (true, opened) => run callStep opened plainCalls
  | _ => none

theorem plainRun_isSome : plainRun.isSome = true := by decide +kernel

theorem durable_copy_plain : ∃ now, plainRun = some now ∧ WellFormedStore now.state.toStore := by
  have h := plainRun_isSome
  unfold plainRun at h ⊢
  split at h
  case h_1 opened hopen =>
    obtain ⟨now, hnow⟩ := Option.isSome_iff_exists.1 h
    have hbefore : run eventStep plainWorld [] = some plainWorld := rfl
    exact ⟨now, hnow,
      (durable_copy _ _ [] plainRoot _ plainWorld opened now plainCalls hbefore hopen hnow).1⟩
  case h_2 => simp at h

end Main

end Asm2Runtime.SharedFile
