import Asm2Runtime.SharedCodec
import Asm2Runtime.SharedStore

/-!
# The store's operations on its table

A table is a list of entries. Setting a key replaces its value in place or appends
an entry, deleting one closes the gap. Each operation of the store either commits
that list to memory and to the file, or changes neither.
-/

namespace Asm2Runtime.SharedFile

section Entries

def indexOf (es : List Entry) (key : CString) : Option Nat :=
  es.findIdx? fun e => e.1 = key

/-- The table a set asks for. -/
def putEntry (es : List Entry) (key value : CString) : List Entry :=
  match indexOf es key with
  | none => es ++ [(key, value)]
  | some i => es.set i (key, value)

/-- The table a delete asks for. -/
def eraseKey (es : List Entry) (key : CString) : List Entry :=
  match indexOf es key with
  | none => es
  | some i => es.eraseIdx i

theorem indexOf_some {es : List Entry} {key : CString} {i : Nat} (h : indexOf es key = some i) :
    ∃ hi : i < es.length, es[i].1 = key := by
  have hfound := List.findIdx?_eq_some_iff_getElem.1 h
  obtain ⟨hi, hkey, _⟩ := hfound
  exact ⟨hi, by simpa using hkey⟩

theorem indexOf_none {es : List Entry} {key : CString} (h : indexOf es key = none) :
    key ∉ es.map Prod.fst := by
  have hall := List.findIdx?_eq_none_iff.1 h
  intro hm
  obtain ⟨e, he, hkey⟩ := List.mem_map.1 hm
  have hne := hall e he
  simp [hkey] at hne

theorem map_fst_set {es : List Entry} {key value : CString} {i : Nat}
    (h : indexOf es key = some i) : (es.set i (key, value)).map Prod.fst = es.map Prod.fst := by
  obtain ⟨hi, hkey⟩ := indexOf_some h
  rw [List.map_set]
  apply List.ext_getElem
  · simp
  · intro j h1 h2
    by_cases hj : i = j
    · subst hj
      simp [hkey]
    · simp [hj]

theorem ValidTable.put {es : List Entry} (h : ValidTable es) {key value : CString}
    (he : ValidEntry (key, value)) (hroom : indexOf es key = none → es.length < sharedMaxEntries) :
    ValidTable (putEntry es key value) := by
  unfold putEntry
  cases hi : indexOf es key with
  | none =>
    constructor
    · have := hroom hi
      simp only [List.length_append, List.length_singleton]
      omega
    · exact nodup_keys_concat h.nodup (indexOf_none hi)
    · intro e hm
      cases List.mem_append.1 hm with
      | inl hm => exact h.entry e hm
      | inr hm =>
        rw [List.mem_singleton] at hm
        subst hm
        exact he
  | some i =>
    constructor
    · simpa using h.count_le
    · rw [map_fst_set hi]
      exact h.nodup
    · intro e hm
      cases List.mem_or_eq_of_mem_set hm with
      | inl hm => exact h.entry e hm
      | inr heq =>
        subst heq
        exact he

theorem ValidTable.eraseIdx {es : List Entry} (h : ValidTable es) (i : Nat) :
    ValidTable (es.eraseIdx i) := by
  have hsub : (es.eraseIdx i).Sublist es := List.eraseIdx_sublist es i
  constructor
  · exact Nat.le_trans hsub.length_le h.count_le
  · exact h.nodup.sublist (hsub.map Prod.fst)
  · intro e hm
    exact h.entry e (hsub.mem hm)

end Entries

section Slots

theorem sharedValueIndexFrom_eq (before after : List Entry) (key : CString) :
    sharedValueIndexFrom (Store.ofEntries (before ++ after)) key after.length before.length =
      (indexOf after key).map (· + before.length) := by
  induction after generalizing before with
  | nil => rfl
  | cons e after ih =>
    have hih := ih (before ++ [e])
    rw [List.append_assoc, List.singleton_append, List.length_append,
      List.length_singleton] at hih
    rw [List.length_cons, sharedValueIndexFrom, ofEntries_key]
    by_cases he : e.1 = key
    · simp [indexOf, List.findIdx?_cons, he]
    · have hne : ¬some e.1 = some key := by simpa using he
      rw [if_neg hne, hih]
      simp only [indexOf, List.findIdx?_cons, he, decide_false]
      cases List.findIdx? (fun e => decide (e.1 = key)) after with
      | none => rfl
      | some i => simp; omega

theorem sharedValueIndex_eq (es : List Entry) (key : CString) :
    sharedValueIndex (Store.ofEntries es) (some key) = indexOf es key := by
  have h := sharedValueIndexFrom_eq [] es key
  simp only [List.nil_append, List.length_nil, Nat.add_zero, Option.map_id'] at h
  exact h

theorem ofEntries_setValue {es : List Entry} {key value : CString} {i : Nat}
    (h : indexOf es key = some i) :
    (Slots.ofEntries es).setValue i (some value) = Slots.ofEntries (es.set i (key, value)) := by
  obtain ⟨hi, hkey⟩ := indexOf_some h
  apply Slots.ext_slots
  · intro j
    by_cases hj : i = j
    · subst hj
      simp [Slots.setValue, Slots.ofEntries, hi, hkey]
    · simp [Slots.setValue, Slots.ofEntries, hj]
  · intro j
    by_cases hj : i = j
    · subst hj
      simp [Slots.setValue, Slots.ofEntries, hi]
    · have hj' : j ≠ i := fun h => hj h.symm
      simp [Slots.setValue, Slots.ofEntries, hj, Function.update_of_ne hj']

theorem setValue_restore (s : Slots) (i : Nat) (value : Option CString) :
    (s.setValue i value).setValue i (s.values i) = s := by
  simp [Slots.setValue]

/-- Which slot the shift loop has moved into each place. -/
theorem shiftDown_at (s : Slots) (remaining current j : Nat) (hpos : 0 < current) :
    ((shiftDown s remaining current).keys j, (shiftDown s remaining current).values j) =
      if current ≤ j + 1 ∧ j + 1 < current + remaining then (s.keys (j + 1), s.values (j + 1))
      else (s.keys j, s.values j) := by
  induction remaining generalizing s current with
  | zero =>
    have hno : ¬(current ≤ j + 1 ∧ j + 1 < current + 0) := by omega
    rw [if_neg hno]
    rfl
  | succ remaining ih =>
    rw [shiftDown, ih _ (current + 1) (by omega)]
    by_cases hfirst : j + 1 = current
    · have h1 : ¬(current + 1 ≤ j + 1 ∧ j + 1 < current + 1 + remaining) := by omega
      have h2 : current ≤ j + 1 ∧ j + 1 < current + (remaining + 1) := by omega
      have hj : current - 1 = j := by omega
      rw [if_neg h1, if_pos h2, hj, hfirst]
      simp [Slots.set]
    · have hj : j ≠ current - 1 := by omega
      have hj1 : current + 1 ≤ j + 1 → j + 1 ≠ current - 1 := by omega
      by_cases hmid : current + 1 ≤ j + 1 ∧ j + 1 < current + 1 + remaining
      · have h2 : current ≤ j + 1 ∧ j + 1 < current + (remaining + 1) := by omega
        rw [if_pos hmid, if_pos h2]
        simp [Slots.set, Function.update_of_ne (hj1 hmid.1)]
      · have h2 : ¬(current ≤ j + 1 ∧ j + 1 < current + (remaining + 1)) := by omega
        rw [if_neg hmid, if_neg h2]
        simp [Slots.set, Function.update_of_ne hj]

theorem shiftUp_at (s : Slots) (remaining current j : Nat) (hle : remaining ≤ current) :
    ((shiftUp s remaining current).keys j, (shiftUp s remaining current).values j) =
      if current < j + remaining ∧ j ≤ current then (s.keys (j - 1), s.values (j - 1))
      else (s.keys j, s.values j) := by
  induction remaining generalizing s current with
  | zero =>
    have hno : ¬(current < j + 0 ∧ j ≤ current) := by omega
    rw [if_neg hno]
    rfl
  | succ remaining ih =>
    rw [shiftUp, ih _ (current - 1) (by omega)]
    by_cases hfirst : j = current
    · have h1 : ¬(current - 1 < j + remaining ∧ j ≤ current - 1) := by omega
      have h2 : current < j + (remaining + 1) ∧ j ≤ current := by omega
      rw [if_neg h1, if_pos h2, hfirst]
      simp [Slots.set]
    · by_cases hmid : current - 1 < j + remaining ∧ j ≤ current - 1
      · have h2 : current < j + (remaining + 1) ∧ j ≤ current := by omega
        have hj : j - 1 ≠ current := by omega
        rw [if_pos hmid, if_pos h2]
        simp [Slots.set, Function.update_of_ne hj]
      · have h2 : ¬(current < j + (remaining + 1) ∧ j ≤ current) := by omega
        rw [if_neg hmid, if_neg h2]
        simp [Slots.set, Function.update_of_ne hfirst]

theorem slots_eq {s t : Slots} (h : ∀ j, (s.keys j, s.values j) = (t.keys j, t.values j)) :
    s = t :=
  Slots.ext_slots (fun j => (Prod.mk.inj (h j)).1) (fun j => (Prod.mk.inj (h j)).2)

theorem set_at (s : Slots) (i j : Nat) (key value : Option CString) :
    ((s.set i key value).keys j, (s.set i key value).values j) =
      if j = i then (key, value) else (s.keys j, s.values j) := by
  by_cases h : j = i
  · subst h
    simp [Slots.set]
  · simp [Slots.set, h]

/-- Deleting slot `i` closes the gap. -/
theorem shiftDown_ofEntries {es : List Entry} {i : Nat} (hi : i < es.length) :
    (shiftDown (Slots.ofEntries es) (es.length - (i + 1)) (i + 1)).set (es.length - 1) none none =
      Slots.ofEntries (es.eraseIdx i) := by
  apply slots_eq
  intro j
  rw [set_at, shiftDown_at _ _ _ _ (by omega)]
  simp only [Slots.ofEntries, List.getElem?_eraseIdx]
  grind

/-- Rolling a delete back opens it again. -/
theorem shiftUp_ofEntries {es : List Entry} {i : Nat} (hi : i < es.length) :
    (shiftUp (Slots.ofEntries (es.eraseIdx i)) (es.length - 1 - i) (es.length - 1)).set i
      ((Slots.ofEntries es).keys i) ((Slots.ofEntries es).values i) = Slots.ofEntries es := by
  apply slots_eq
  intro j
  rw [set_at, shiftUp_at _ _ _ _ (by omega)]
  simp only [Slots.ofEntries, List.getElem?_eraseIdx]
  grind

end Slots

section Persist

/-- The store file is what it was. -/
def Kept (state : AndroidState) (disk disk' : Disk) : Prop :=
  ∀ path, state.sharedStoragePath = some path → disk' path = disk path

/-- The store file holds the table. -/
def Saved (state : AndroidState) (disk : Disk) (es : List Entry) : Prop :=
  ∀ path, state.sharedStoragePath = some path →
    disk path = some (.regular (storeFormat.print es))

theorem Kept.refl (state : AndroidState) (disk : Disk) : Kept state disk disk :=
  fun _ _ => rfl

theorem temporaryPath_ne (path : Path) (pid attempt : Nat) :
    path ≠ temporaryPath path pid attempt := by
  intro h
  have hlen := congrArg List.length h
  have hdot : (ascii ".").length = 1 := rfl
  simp only [temporaryPath, List.length_append, hdot] at hlen
  omega

theorem openTemporary_ne {o : WriteOracle} {disk : Disk} {path temporary : Path}
    {remaining attempt : Nat} (h : openTemporary o disk path remaining attempt = some temporary) :
    path ≠ temporary := by
  induction remaining generalizing attempt with
  | zero => simp [openTemporary] at h
  | succ remaining ih =>
    simp only [openTemporary] at h
    split at h
    · simp at h
    · split at h
      · simp at h
      · split at h
        · exact ih h
        · simp only [Option.some.injEq] at h
          subst h
          exact temporaryPath_ne path o.pid attempt

theorem writeAll_some {stops : Option Nat} {written data : List UInt8}
    (h : (writeAll stops written data).1 = true) :
    (writeAll stops written data).2 = written ++ data := by
  cases stops with
  | none => rfl
  | some n => simp [writeAll] at h

theorem writeContents_some {o : WriteOracle} {header payload : List UInt8}
    (h : (writeContents o header payload).1 = true) :
    (writeContents o header payload).2 = header ++ payload := by
  unfold writeContents at h ⊢
  by_cases hc : (writeAll o.headerStops [] header).1 = true ∧ payload ≠ []
  · simp only [if_pos hc] at h ⊢
    rw [writeAll_some h, writeAll_some hc.1, List.nil_append]
  · simp only [if_neg hc] at h ⊢
    have hempty : payload = [] := by
      by_contra hne
      exact hc ⟨h, hne⟩
    rw [writeAll_some h, hempty, List.append_nil, List.nil_append]

/-- The rename is the commit point: before it the store file is untouched. -/
theorem atomicWriteSharedFile_spec (o : WriteOracle) (disk : Disk) (path : Path)
    (header payload : List UInt8) :
    (∃ disk', atomicWriteSharedFile o disk path header payload = (true, disk') ∧
        disk' path = some (.regular (header ++ payload))) ∨
      (∃ disk', atomicWriteSharedFile o disk path header payload = (false, disk') ∧
        disk' path = disk path) := by
  unfold atomicWriteSharedFile
  split
  · right
    exact ⟨disk, rfl, rfl⟩
  · cases ht : openTemporary o disk path 16 0 with
    | none =>
      right
      exact ⟨disk, rfl, rfl⟩
    | some temporary =>
      have hne := openTemporary_ne ht
      simp only
      split
      case isTrue hok =>
        left
        simp only [Bool.and_eq_true] at hok
        refine ⟨_, rfl, ?_⟩
        rw [Function.update_of_ne hne, Function.update_self, Function.update_self,
          writeContents_some hok.1.1.1]
      case isFalse =>
        right
        refine ⟨_, rfl, ?_⟩
        split
        · rw [Function.update_of_ne hne]
        · rw [Function.update_of_ne hne, Function.update_of_ne hne]

theorem sharedValuesImage_cases {es : List Entry} (h : ValidTable es)
    (heap : Option (Nat → UInt8)) :
    sharedValuesImage (Store.ofEntries es) heap = .ok none ∨
      ∃ header payload, sharedValuesImage (Store.ofEntries es) heap = .ok (some (header, payload)) ∧
        header ++ payload = storeFormat.print es := by
  cases heap with
  | some fill =>
    right
    exact ⟨_, _, sharedValuesImage_eq h fill, (storeFormat_print es).symm⟩
  | none =>
    by_cases hz : (payloadOf es).length = 0
    · right
      have himage := sharedValuesImage_eq h fun _ => 0
      refine ⟨_, _, ?_, (storeFormat_print es).symm⟩
      rw [← himage]
      simp only [sharedValuesImage, sharedValuesEncodedSize_eq h, ok_bind, hz, if_true]
    · left
      simp [sharedValuesImage, sharedValuesEncodedSize_eq h, hz, malloc]

/-- A persist either commits the table to the file or leaves the file alone. -/
theorem sharedValuesPersist_spec (o : PersistOracle) {state : AndroidState} (disk : Disk)
    {es : List Entry} (hs : state.toStore = Store.ofEntries es) (h : ValidTable es) :
    (∃ disk', sharedValuesPersist o state disk = .ok (true, disk') ∧ Saved state disk' es) ∨
      (∃ disk', sharedValuesPersist o state disk = .ok (false, disk') ∧ Kept state disk disk') := by
  unfold sharedValuesPersist
  cases hp : state.sharedStoragePath with
  | none =>
    left
    refine ⟨disk, rfl, ?_⟩
    intro path hpath
    rw [hp] at hpath
    cases hpath
  | some path =>
    rw [hs]
    cases sharedValuesImage_cases h o.heap with
    | inl hnone =>
      right
      rw [hnone]
      exact ⟨disk, rfl, Kept.refl state disk⟩
    | inr hsome =>
      obtain ⟨header, payload, himage, hprint⟩ := hsome
      simp only [himage, ok_bind, return_eq]
      have honly : ∀ path', state.sharedStoragePath = some path' → path' = path := by
        intro path' hpath'
        rw [hp] at hpath'
        exact (Option.some.inj hpath').symm
      cases atomicWriteSharedFile_spec o.write disk path header payload with
      | inl hdone =>
        left
        obtain ⟨disk', hw, hfile⟩ := hdone
        refine ⟨disk', congrArg Except.ok hw, ?_⟩
        intro path' hpath'
        rw [honly path' hpath', hfile, hprint]
      | inr hfailed =>
        right
        obtain ⟨disk', hw, hfile⟩ := hfailed
        refine ⟨disk', congrArg Except.ok hw, ?_⟩
        intro path' hpath'
        rw [honly path' hpath', hfile]

end Persist

section Operations

/-- The operation committed the table to memory and file, or changed neither. A success without
a write needs an entry that is there. -/
def Effect (w : World) (es' : List Entry) (r : Outcome × World) : Prop :=
  (r.1.persisted ≠ some true ∧ (r.1.result = true → 0 < w.state.count) ∧
      r.2.state = w.state ∧ Kept w.state w.disk r.2.disk) ∨
    (r.1 = ⟨true, some true⟩ ∧ ValidTable es' ∧
      r.2.state = w.state.withStore (Store.ofEntries es') ∧ Saved w.state r.2.disk es')

theorem Effect.refused (w : World) (es' : List Entry) : Effect w es' (.refused, w) := by
  left
  exact ⟨by simp [Outcome.refused], by simp [Outcome.refused], rfl, Kept.refl w.state w.disk⟩

theorem withStore_eq {state : AndroidState} {store : Store} (h : state.toStore = store) :
    state.withStore store = state := by
  subst h
  rfl

theorem insertEntry_spec (o : SetOracle) {w : World} {es : List Entry} {key value : CString}
    (hs : w.state.toStore = Store.ofEntries es) (hv : ValidTable es)
    (he : ValidEntry (key, value)) (hi : indexOf es key = none) :
    ∃ r, insertEntry o w key value = .ok r ∧ Effect w (putEntry es key value) r := by
  have hcount : w.state.count = es.length := congrArg Store.count hs
  have hslots : w.state.toSlots = Slots.ofEntries es := congrArg Store.toSlots hs
  have hput : putEntry es key value = es ++ [(key, value)] := by simp [putEntry, hi]
  unfold insertEntry
  rw [hcount]
  by_cases hfull : es.length ≥ sharedMaxEntries
  · rw [if_pos hfull]
    exact ⟨_, rfl, Effect.refused w _⟩
  · have hroom : es.length < sharedMaxEntries := Nat.lt_of_not_le hfull
    rw [if_neg hfull]
    by_cases hk : o.keyCopied = false
    · rw [if_pos hk]
      exact ⟨_, rfl, Effect.refused w _⟩
    · have hgrown := hv.put he fun _ => hroom
      rw [hput] at hgrown ⊢
      have hwrite : w.state.toSlots.write es.length (some key) (some value) =
          .ok (Slots.ofEntries (es ++ [(key, value)])) := by
        rw [Slots.write, if_pos hroom, hslots, Slots.ofEntries_concat es (key, value)]
      have hback : (Slots.ofEntries (es ++ [(key, value)])).write es.length none none =
          .ok (Slots.ofEntries es) := by
        rw [Slots.write, if_pos hroom, Slots.ofEntries_dropLast]
      have hstore : (w.state.withStore
          ⟨Slots.ofEntries (es ++ [(key, value)]), es.length + 1⟩).toStore =
            Store.ofEntries (es ++ [(key, value)]) := by
        simp [AndroidState.withStore, Store.ofEntries]
      rw [if_neg hk]
      simp only [hwrite, ok_bind]
      cases sharedValuesPersist_spec o.persist w.disk hstore hgrown with
      | inl hdone =>
        obtain ⟨disk', hp, hsaved⟩ := hdone
        rw [hp]
        refine ⟨_, rfl, Or.inr ⟨rfl, hgrown, ?_, hsaved⟩⟩
        simp [AndroidState.withStore, Store.ofEntries]
      | inr hfailed =>
        obtain ⟨disk', hp, hkept⟩ := hfailed
        rw [hp]
        simp only [ok_bind, Bool.false_eq_true, if_false]
        rw [show (w.state.withStore ⟨Slots.ofEntries (es ++ [(key, value)]), es.length + 1⟩).toSlots
          = Slots.ofEntries (es ++ [(key, value)]) from rfl, hback]
        refine ⟨_, rfl, Or.inl ⟨by simp, by simp, ?_, hkept⟩⟩
        -- The slots are null again from the count on, as before.
        exact withStore_eq hs

theorem replaceValue_spec (o : SetOracle) {w : World} {es : List Entry} {key value : CString}
    {i : Nat} (hs : w.state.toStore = Store.ofEntries es) (hv : ValidTable es)
    (he : ValidEntry (key, value)) (hi : indexOf es key = some i) :
    ∃ r, replaceValue o w i value = .ok r ∧ Effect w (putEntry es key value) r := by
  have hcount : w.state.count = es.length := congrArg Store.count hs
  have hslots : w.state.toSlots = Slots.ofEntries es := congrArg Store.toSlots hs
  have hput : putEntry es key value = es.set i (key, value) := by simp [putEntry, hi]
  have hvalid := hv.put he fun hnone => by
    rw [hi] at hnone
    cases hnone
  have hstore : (w.state.withStore ⟨w.state.toSlots.setValue i (some value), w.state.count⟩).toStore
      = Store.ofEntries (putEntry es key value) := by
    rw [hput, hslots, hcount, ofEntries_setValue hi]
    simp [AndroidState.withStore, Store.ofEntries]
  unfold replaceValue
  cases sharedValuesPersist_spec o.persist w.disk hstore hvalid with
  | inl hdone =>
    obtain ⟨disk', hp, hsaved⟩ := hdone
    simp only [hp, ok_bind]
    refine ⟨_, rfl, Or.inr ⟨rfl, hvalid, ?_, hsaved⟩⟩
    rw [← hstore]
    rfl
  | inr hfailed =>
    obtain ⟨disk', hp, hkept⟩ := hfailed
    simp only [hp, ok_bind, Bool.false_eq_true, if_false]
    refine ⟨_, rfl, Or.inl ⟨by simp, by simp, ?_, hkept⟩⟩
    have hrestore : w.state.toStore =
        ⟨(w.state.toSlots.setValue i (some value)).setValue i (w.state.values i),
          w.state.count⟩ := by
      rw [setValue_restore]
    exact withStore_eq hrestore

/-- An entry of the table is no larger than the table. -/
theorem storedSize_eq {es : List Entry} (key : CString) {current : Nat} (hv : ValidTable es)
    (hc : current = (payloadOf es).length) :
    ∃ size, storedSize (Store.ofEntries es) (indexOf es key) = .ok size ∧ size ≤ current := by
  cases hi : indexOf es key with
  | none => exact ⟨0, rfl, Nat.zero_le current⟩
  | some i =>
    obtain ⟨hlt, _⟩ := indexOf_some hi
    have hentry : ValidEntry es[i] := hv.entry es[i] (List.getElem_mem hlt)
    have hk : es[i].1.length ≤ 1024 := hentry.2.1
    have hval : es[i].2.length ≤ 256 * 1024 := hentry.2.2
    have hsub : (entryFormat.print es[i]).length ≤ (payloadOf es).length :=
      (List.sublist_flatten_of_mem (List.mem_map_of_mem (List.getElem_mem hlt))).length_le
    rw [entryFormat_print_length] at hsub
    refine ⟨8 + es[i].1.length + es[i].2.length, ?_, by omega⟩
    simp only [storedSize, Store.ofEntries, Slots.ofEntries, List.getElem?_eq_getElem hlt,
      Option.map_some, deref, ok_bind]
    rw [sizeAdd_eq (by omega), ok_bind, sizeAdd_eq (by omega)]

theorem sharedValueSetLocked_spec (o : SetOracle) {w : World} {es : List Entry}
    (key value : Option CString) (hs : w.state.toStore = Store.ofEntries es)
    (hv : ValidTable es) :
    ∃ r, sharedValueSetLocked o w key value = .ok r ∧
      Effect w (putEntry es (key.getD .empty) (value.getD .empty)) r := by
  cases key with
  | none => exact ⟨_, rfl, Effect.refused w _⟩
  | some key =>
    simp only [sharedValueSetLocked, Option.getD_some]
    generalize value.getD .empty = value
    split
    · exact ⟨_, rfl, Effect.refused w _⟩
    case isFalse hsizes =>
      have he : ValidEntry (key, value) := by
        simp only [CString.nlength, sharedMaxKeySize, sharedMaxValueSize] at hsizes
        simp only [ValidEntry, sharedMaxKeySize, sharedMaxValueSize]
        omega
      have hk : key.nlength (sharedMaxKeySize + 1) = key.length :=
        Nat.min_eq_left (Nat.le_succ_of_le he.2.1)
      have hval : value.nlength (sharedMaxValueSize + 1) = value.length :=
        Nat.min_eq_left (Nat.le_succ_of_le he.2.2)
      have hkb : key.length ≤ 1024 := he.2.1
      have hvb : value.length ≤ 256 * 1024 := he.2.2
      rw [hs, sharedValueIndex_eq, hk, hval]
      split
      case isTrue hsame =>
        have hpos : 0 < w.state.count := by
          cases hi : indexOf es key with
          | none => simp [hi] at hsame
          | some i =>
            obtain ⟨hlt, _⟩ := indexOf_some hi
            rw [show w.state.count = es.length from congrArg Store.count hs]
            omega
        exact ⟨_, rfl, Or.inl ⟨by simp, fun _ => hpos, rfl, Kept.refl w.state w.disk⟩⟩
      case isFalse =>
        obtain ⟨size, hsize, hle⟩ := storedSize_eq key hv rfl
        rw [sharedValuesEncodedSize_eq hv, ok_bind]
        simp only [hsize, ok_bind]
        have hmax : sharedMaxPayloadSize = 33686528 := rfl
        rw [sizeSub_eq hle, ok_bind, hmax, sizeSub_eq (by omega), ok_bind, sizeSub_eq (by omega),
          ok_bind, sizeSub_eq (by omega), ok_bind]
        split
        · exact ⟨_, rfl, Effect.refused w _⟩
        · cases hi : indexOf es key with
          | none => exact insertEntry_spec o hs hv he hi
          | some i => exact replaceValue_spec o hs hv he hi

theorem sharedValueDeleteLocked_spec (o : PersistOracle) {w : World} {es : List Entry}
    (key : Option CString) (hs : w.state.toStore = Store.ofEntries es) (hv : ValidTable es) :
    ∃ r, sharedValueDeleteLocked o w key = .ok r ∧ Effect w (eraseKey es (key.getD .empty)) r := by
  cases key with
  | none => exact ⟨_, rfl, Effect.refused w _⟩
  | some key =>
    simp only [sharedValueDeleteLocked, Option.getD_some]
    rw [hs, sharedValueIndex_eq]
    cases hi : indexOf es key with
    | none => exact ⟨_, rfl, Effect.refused w _⟩
    | some i =>
      obtain ⟨hlt, _⟩ := indexOf_some hi
      have herase : eraseKey es key = es.eraseIdx i := by simp [eraseKey, hi]
      have hvalid := hv.eraseIdx i
      have hlen : (es.eraseIdx i).length = es.length - 1 := List.length_eraseIdx_of_lt hlt
      have hclose : (shiftDown (Store.ofEntries es).toSlots ((Store.ofEntries es).count - (i + 1))
          (i + 1)).set ((Store.ofEntries es).count - 1) none none = Slots.ofEntries (es.eraseIdx i) :=
        shiftDown_ofEntries hlt
      have hstore : (⟨Slots.ofEntries (es.eraseIdx i), (Store.ofEntries es).count - 1⟩ : Store) =
          Store.ofEntries (es.eraseIdx i) := by
        rw [Store.ofEntries, Store.ofEntries, hlen]
      simp only [hclose, hstore, herase]
      cases sharedValuesPersist_spec o w.disk
          (show (w.state.withStore (Store.ofEntries (es.eraseIdx i))).toStore = _ from rfl) hvalid with
      | inl hdone =>
        obtain ⟨disk', hp, hsaved⟩ := hdone
        simp only [hp, ok_bind]
        exact ⟨_, rfl, Or.inr ⟨rfl, hvalid, rfl, hsaved⟩⟩
      | inr hfailed =>
        obtain ⟨disk', hp, hkept⟩ := hfailed
        simp only [hp, ok_bind, Bool.false_eq_true, if_false]
        refine ⟨_, rfl, Or.inl ⟨by simp, by simp, ?_, hkept⟩⟩
        have hopen : (shiftUp (Slots.ofEntries (es.eraseIdx i)) (es.length - 1 - i)
            (es.length - 1)).set i ((Store.ofEntries es).keys i) ((Store.ofEntries es).values i) =
            Slots.ofEntries es := shiftUp_ofEntries hlt
        have hpos : es.length = (es.eraseIdx i).length + 1 := by omega
        have hback : w.state.toStore =
            ⟨(shiftUp (Slots.ofEntries (es.eraseIdx i)) (es.length - 1 - i) (es.length - 1)).set i
              ((Store.ofEntries es).keys i) ((Store.ofEntries es).values i),
              (es.eraseIdx i).length + 1⟩ := by
          rw [hopen, hs, Store.ofEntries, ← hpos]
        exact withStore_eq hback

end Operations

end Asm2Runtime.SharedFile
