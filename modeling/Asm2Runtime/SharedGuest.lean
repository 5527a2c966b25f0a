import Asm2Runtime.SharedDurable

/-!
# What the guest sees of the store

`asm2_android_method_callback` gives the guest two doors to the one store: the
DataSharing methods, which leave reserved keys alone, and the preference methods,
which use reserved keys only. A request works on one storage key; the contents of
the store are a map of such keys.
-/

namespace Asm2Runtime.SharedFile

section Callback

def preferenceStorageKeyReserved (key : Option CString) : Bool :=
  key.any fun key => preferenceKeyPrefix.isPrefixOf key.bytes

/-- The two signatures of `getPreferenceString` that are served. -/
inductive StringArguments where
  | two (key preferenceName : Option CString)
  | three (key defaultValue preferenceName : Option CString)
  | other

/-- The methods by which guest code reaches the store, with their arguments. -/
inductive Request where
  | setSharedValue (key value : Option CString)
  | getSharedValue (key : Option CString)
  | isSharedValue (key : Option CString)
  | deleteSharedValue (key : Option CString)
  | nativeGetPreference (bundle : Option Bundle)
  | nativeSetPreference (bundle : Option Bundle)
  | getPreferenceString (arguments : StringArguments)

inductive MethodResult where
  | void
  | string (chars : Option CString)
  | boolean (value : Bool)
  | bundle (value : Bundle)
  | unhandled

structure GuestOracle where
  get : GetOracle
  preference : PreferenceSetOracle
  set : SetOracle
  delete : PersistOracle

/-- The text of a stored string preference, else the default. -/
def stringPreference (stored defaultValue : Option CString) : Option CString :=
  match stored with
  | none => defaultValue
  | some stored =>
    match stored.bytes with
    | 0x73 :: 0x3a :: rest => some (.ofBuffer (rest ++ [0]))
    | _ => defaultValue

def preferenceGetStringMethod (o : GetOracle) (w : World) : StringArguments → MethodResult
  | .two key preferenceName =>
    let storageKey := preferenceStorageKey o.keyAllocated preferenceName key
    .string (stringPreference (storageKey.bind fun k => sharedValueCopy o.copied w (some k))
      (some .empty))
  | .three key defaultValue preferenceName =>
    let storageKey := preferenceStorageKey o.keyAllocated preferenceName key
    .string (stringPreference (storageKey.bind fun k => sharedValueCopy o.copied w (some k))
      defaultValue)
  | .other => .unhandled

def asm2AndroidMethodCallback (o : GuestOracle) (w : World) :
    Request → Checked (MethodResult × World)
  | .setSharedValue key value =>
    if preferenceStorageKeyReserved key then return (.void, w)
    else do
      let (_, w) ← sharedValueSetLocked o.set w key value
      return (.void, w)
  | .getSharedValue key =>
    if preferenceStorageKeyReserved key then return (.string (some .empty), w)
    else return (.string (some (sharedValueGet w key)), w)
  | .isSharedValue key =>
    if preferenceStorageKeyReserved key then return (.boolean false, w)
    else return (.boolean (sharedValueExists w key), w)
  | .deleteSharedValue key =>
    if preferenceStorageKeyReserved key then return (.void, w)
    else do
      let (_, w) ← sharedValueDeleteLocked o.delete w key
      return (.void, w)
  | .nativeGetPreference bundle =>
    return (.bundle (preferenceGet o.get w (bundle.getD fun _ => none)), w)
  | .nativeSetPreference none => return (.void, w)
  | .nativeSetPreference (some bundle) => do
    let (_, w) ← preferenceSet o.preference w bundle
    return (.void, w)
  | .getPreferenceString arguments => return (preferenceGetStringMethod o.get w arguments, w)

end Callback

section Contents

abbrev Contents := CString → Option CString

def lookup (es : List Entry) : Contents := fun key => (es.find? fun e => e.1 = key).map Prod.snd

theorem lookup_cons (e : Entry) (es : List Entry) (key : CString) :
    lookup (e :: es) key = if e.1 = key then some e.2 else lookup es key := by
  by_cases h : e.1 = key <;> simp [lookup, h]

theorem indexOf_cons (e : Entry) (es : List Entry) (key : CString) :
    indexOf (e :: es) key = if e.1 = key then some 0 else (indexOf es key).map (· + 1) := by
  by_cases h : e.1 = key <;> simp [indexOf, List.findIdx?_cons, h]

theorem lookup_eq (es : List Entry) (key : CString) :
    lookup es key = (indexOf es key).bind fun i => es[i]?.map Prod.snd := by
  induction es with
  | nil => rfl
  | cons e es ih =>
    rw [lookup_cons, indexOf_cons]
    by_cases h : e.1 = key
    · simp [h]
    · rw [if_neg h, if_neg h, ih]
      cases indexOf es key <;> simp

theorem lookup_isSome (es : List Entry) (key : CString) :
    (lookup es key).isSome = (indexOf es key).isSome := by
  induction es with
  | nil => rfl
  | cons e es ih =>
    rw [lookup_cons, indexOf_cons]
    by_cases h : e.1 = key <;> simp [h, ih]

theorem lookup_none_of_not_mem {es : List Entry} {key : CString} (h : key ∉ es.map Prod.fst) :
    lookup es key = none := by
  induction es with
  | nil => rfl
  | cons e es ih =>
    simp only [List.map_cons, List.mem_cons, not_or] at h
    rw [lookup_cons, if_neg fun heq => h.1 heq.symm, ih h.2]

theorem putEntry_cons (e : Entry) (es : List Entry) (key value : CString) :
    putEntry (e :: es) key value =
      if e.1 = key then (key, value) :: es else e :: putEntry es key value := by
  unfold putEntry
  rw [indexOf_cons]
  by_cases h : e.1 = key
  · simp [h]
  · cases hi : indexOf es key <;> simp [h]

theorem lookup_putEntry (es : List Entry) (key value : CString) :
    lookup (putEntry es key value) = Function.update (lookup es) key (some value) := by
  funext k
  induction es with
  | nil =>
    by_cases h : k = key
    · simp [putEntry, indexOf, lookup, h]
    · simp [putEntry, indexOf, lookup, h, Ne.symm h]
  | cons e es ih =>
    rw [putEntry_cons]
    by_cases he : e.1 = key
    · by_cases h : k = key
      · simp [he, lookup_cons, h]
      · simp [he, lookup_cons, h, Ne.symm h]
    · rw [if_neg he, lookup_cons, ih]
      by_cases h : k = key
      · subst k
        simp [he]
      · simp [h, lookup_cons]

theorem eraseKey_cons (e : Entry) (es : List Entry) (key : CString) :
    eraseKey (e :: es) key = if e.1 = key then es else e :: eraseKey es key := by
  unfold eraseKey
  rw [indexOf_cons]
  by_cases h : e.1 = key
  · simp [h]
  · cases hi : indexOf es key <;> simp [h]

theorem lookup_eraseKey {es : List Entry} (h : (es.map Prod.fst).Nodup) (key : CString) :
    lookup (eraseKey es key) = Function.update (lookup es) key none := by
  funext k
  induction es with
  | nil =>
    by_cases hk : k = key <;> simp [eraseKey, indexOf, lookup, hk]
  | cons e es ih =>
    rw [List.map_cons, List.nodup_cons] at h
    rw [eraseKey_cons]
    by_cases he : e.1 = key
    · rw [if_pos he]
      by_cases hk : k = key
      · subst k
        rw [Function.update_self, lookup_none_of_not_mem (he ▸ h.1)]
      · rw [Function.update_of_ne hk, lookup_cons, if_neg fun heq => hk (heq.symm.trans he)]
    · rw [if_neg he, lookup_cons, ih h.2]
      by_cases hk : k = key
      · subst k
        simp [he]
      · simp [hk, lookup_cons]

end Contents

section Reads

variable {w : World} {es : List Entry}

theorem Tabled.index (h : Tabled w es) (key : CString) :
    sharedValueIndex w.state.toStore (some key) = indexOf es key := by
  rw [h.store, sharedValueIndex_eq]

theorem Tabled.read (h : Tabled w es) (key : CString) :
    (sharedValueIndex w.state.toStore (some key)).bind w.state.values = lookup es key := by
  rw [h.index, lookup_eq]
  rw [show w.state.values = (Store.ofEntries es).values from congrArg (fun s => s.values) h.store]
  rfl

theorem Tabled.get (h : Tabled w es) (key : Option CString) :
    sharedValueGet w key = (key.bind (lookup es)).getD .empty := by
  cases key with
  | none => rfl
  | some key => rw [sharedValueGet, h.read]; rfl

theorem Tabled.exists (h : Tabled w es) (key : Option CString) :
    sharedValueExists w key = (key.bind (lookup es)).isSome := by
  cases key with
  | none => rfl
  | some key => rw [sharedValueExists, h.index, Option.bind_some, lookup_isSome]

theorem Tabled.copy (h : Tabled w es) (key : CString) :
    sharedValueCopy true w (some key) = lookup es key := by
  rw [sharedValueCopy, if_pos rfl, h.read]

end Reads

section Meaning

instance (e : Entry) : Decidable (ValidEntry e) := inferInstanceAs (Decidable (_ ∧ _ ∧ _))

/-- The key that a request works on, if any. -/
def Request.storageKey : Request → Option CString
  | .setSharedValue key _ | .getSharedValue key | .isSharedValue key | .deleteSharedValue key =>
    if preferenceStorageKeyReserved key then none else key
  | .nativeGetPreference bundle | .nativeSetPreference bundle =>
    let bundle := bundle.getD fun _ => none
    preferenceStorageKey true (bundle.getString "npPrefName") (bundle.getString "npKey")
  | .getPreferenceString (.two key preferenceName)
  | .getPreferenceString (.three key _ preferenceName) =>
    preferenceStorageKey true preferenceName key
  | .getPreferenceString .other => none

/-- The text that a request asks to keep under its key, `none` to remove the key. -/
def Request.asked : Request → Option (Option CString)
  | .setSharedValue _ value => some (some (value.getD .empty))
  | .deleteSharedValue _ => some none
  | .nativeSetPreference (some bundle) => (encodedPreference bundle).map some
  | _ => none

/-- The contents after a request that does not fail. -/
def Request.store (r : Request) (m : Contents) : Contents :=
  match r.storageKey with
  | none => m
  | some key =>
    match r.asked with
    | none => m
    | some none => Function.update m key none
    | some (some value) =>
      if ValidEntry (key, value) then Function.update m key (some value) else m

theorem Request.store_of_asks_nothing {r : Request} (h : r.asked = none) (m : Contents) :
    r.store m = m := by
  unfold Request.store
  cases r.storageKey with
  | none => rfl
  | some key => simp [h]

def GetOracle.works : GetOracle := ⟨true, true, true, true⟩

/-- The bundle handed back for a stored text. -/
def preferenceReply (o : GetOracle) (bundle : Bundle) (stored : Option CString) : Bundle :=
  let type := bundle.getInt "npDataType" 0
  match stored with
  | none => preferencePutDefault o.putPreset bundle type
  | some stored =>
    if 0 ≤ type.toInt ∧ type.toInt ≤ 3 then
      match storedValue type stored with
      | none => preferencePutDefault o.putPreset bundle type
      | some value =>
        let put := bundle.put o.putStored "npResult" value
        if put.1 then put.2 else preferencePutDefault o.putPreset put.2 type
    else bundle

/-- The result of a request that does not fail, for what is stored under its key. -/
def Request.answer (r : Request) (stored : Option CString) : MethodResult :=
  match r with
  | .setSharedValue _ _ | .deleteSharedValue _ | .nativeSetPreference _ => .void
  | .getSharedValue _ => .string (some (stored.getD .empty))
  | .isSharedValue _ => .boolean stored.isSome
  | .nativeGetPreference bundle =>
    .bundle (preferenceReply .works (bundle.getD fun _ => none) stored)
  | .getPreferenceString (.two _ _) => .string (stringPreference stored (some .empty))
  | .getPreferenceString (.three _ defaultValue _) => .string (stringPreference stored defaultValue)
  | .getPreferenceString .other => .unhandled

def Request.isPreference : Request → Bool
  | .setSharedValue _ _ | .getSharedValue _ | .isSharedValue _ | .deleteSharedValue _ => false
  | _ => true

/-- A set of a legal key and value is carried out. -/
def setServed (o : SetOracle) (w : World) (key value : Option CString) : Bool :=
  match key with
  | none => true
  | some key =>
    if ValidEntry (key, value.getD .empty) then
      match sharedValueSetLocked o w (some key) value with
      | .ok r => r.1.result
      | .error _ => false
    else true

/-- A delete of a key that is there is carried out. -/
def deleteServed (o : PersistOracle) (w : World) (key : Option CString) : Bool :=
  match sharedValueDeleteLocked o w key with
  | .ok r => r.1.result || !sharedValueExists w key
  | .error _ => false

/-- The request does not fail for lack of capacity or memory or by an I/O error. -/
def Request.served (r : Request) (o : GuestOracle) (w : World) : Bool :=
  match r with
  | .setSharedValue key value => preferenceStorageKeyReserved key || setServed o.set w key value
  | .deleteSharedValue key => preferenceStorageKeyReserved key || deleteServed o.delete w key
  | .getSharedValue _ | .isSharedValue _ => true
  | .nativeGetPreference _ | .getPreferenceString _ =>
    o.get.keyAllocated && o.get.copied && o.get.putStored && o.get.putPreset
  | .nativeSetPreference none => true
  | .nativeSetPreference (some bundle) =>
    o.preference.keyAllocated && o.preference.encodedAllocated &&
      match encodedPreference bundle with
      | none => true
      | some text => setServed o.preference.set w r.storageKey (some text)

end Meaning

section Spec

variable {w : World} {es : List Entry}

/-- A new or replaced entry is reported only once it is in the file. -/
theorem insertEntry_written {o : SetOracle} {key value : CString} {r : Outcome × World}
    (hr : insertEntry o w key value = .ok r) (hok : r.1.result = true) :
    r.1.persisted = some true := by
  unfold insertEntry at hr
  split at hr
  · obtain rfl := Except.ok.inj hr
    simp [Outcome.refused] at hok
  · split at hr
    · obtain rfl := Except.ok.inj hr
      simp [Outcome.refused] at hok
    · simp only [bind, Except.bind, pure, Except.pure] at hr
      grind

theorem replaceValue_written {o : SetOracle} {index : Nat} {value : CString}
    {r : Outcome × World} (hr : replaceValue o w index value = .ok r) (hok : r.1.result = true) :
    r.1.persisted = some true := by
  unfold replaceValue at hr
  simp only [bind, Except.bind, pure, Except.pure] at hr
  grind

/-- A carried out set that did not write found the value in place. -/
theorem sharedValueSetLocked_served {o : SetOracle} {key value : CString}
    {r : Outcome × World} (h : Tabled w es)
    (hr : sharedValueSetLocked o w (some key) (some value) = .ok r) (hok : r.1.result = true)
    (hp : r.1.persisted ≠ some true) : lookup es key = some value := by
  have hrefused : ∀ r : Outcome × World, (.ok (.refused, w) : Checked _) = .ok r →
      r.1.result ≠ true := by
    intro r hr hok
    obtain rfl := Except.ok.inj hr
    simp [Outcome.refused] at hok
  simp only [sharedValueSetLocked, Option.getD_some] at hr
  split at hr
  · exact absurd hok (hrefused r hr)
  · split at hr
    case isTrue hsame => rwa [h.read] at hsame
    case isFalse =>
      simp only [bind, Except.bind] at hr
      split at hr
      · cases hr
      · split at hr
        · exact absurd hok (hrefused r hr)
        · repeat (split at hr; · cases hr)
          split at hr
          · exact absurd hok (hrefused r hr)
          · split at hr
            · exact absurd (insertEntry_written hr hok) hp
            · exact absurd (replaceValue_written hr hok) hp

theorem sharedValueSetLocked_invalid (o : SetOracle) (w : World) {key value : CString}
    (h : ¬ ValidEntry (key, value)) :
    sharedValueSetLocked o w (some key) (some value) = .ok (.refused, w) := by
  simp only [sharedValueSetLocked, Option.getD_some]
  split
  · rfl
  case isFalse hsizes =>
    exfalso
    apply h
    simp only [CString.nlength, sharedMaxKeySize, sharedMaxValueSize] at hsizes
    simp only [ValidEntry, sharedMaxKeySize, sharedMaxValueSize]
    omega

theorem sharedValueSetLocked_tabled (o : SetOracle) (key value : CString) (h : Tabled w es) :
    ∃ r, sharedValueSetLocked o w (some key) (some value) = .ok r ∧ Change w r.2 ∧
      ∃ es', Tabled r.2 es' ∧ (es' = es ∨ es' = putEntry es key value) ∧
        (¬ ValidEntry (key, value) → es' = es) ∧
        (r.1.result = true → lookup es' = Function.update (lookup es) key (some value)) := by
  by_cases hvalid : ValidEntry (key, value)
  case neg =>
    exact ⟨_, sharedValueSetLocked_invalid o w hvalid, Change.refl w, es, h, Or.inl rfl,
      fun _ => rfl, fun hok => absurd hok (by simp [Outcome.refused])⟩
  obtain ⟨r, hr, heffect⟩ :=
    sharedValueSetLocked_spec o (some key) (some value) h.store h.valid
  refine ⟨r, hr, heffect.change, ?_⟩
  simp only [Option.getD_some] at heffect
  have hserved := sharedValueSetLocked_served h hr
  cases heffect with
  | inl hsame =>
    refine ⟨es, ⟨by rw [hsame.2.2.1]; exact h.store, h.valid⟩, Or.inl rfl, fun _ => rfl, ?_⟩
    intro hok
    have hstored := hserved hok hsame.1
    rw [← hstored, Function.update_eq_self]
  | inr hnew =>
    refine ⟨_, ⟨by rw [hnew.2.2.1]; rfl, hnew.2.1⟩, Or.inr rfl, ?_, ?_⟩
    · exact fun hinvalid => absurd hvalid hinvalid
    · exact fun _ => lookup_putEntry es key value

theorem sharedValueDeleteLocked_written {o : PersistOracle} {key : Option CString}
    {r : Outcome × World} (hr : sharedValueDeleteLocked o w key = .ok r)
    (hok : r.1.result = true) : r.1.persisted = some true := by
  unfold sharedValueDeleteLocked at hr
  split at hr
  · obtain rfl := Except.ok.inj hr
    simp [Outcome.refused] at hok
  · simp only [bind, Except.bind, pure, Except.pure] at hr
    grind

theorem sharedValueDeleteLocked_tabled (o : PersistOracle) (key : CString) (h : Tabled w es) :
    ∃ r, sharedValueDeleteLocked o w (some key) = .ok r ∧ Change w r.2 ∧
      ∃ es', Tabled r.2 es' ∧ (es' = es ∨ es' = eraseKey es key) ∧
        (r.1.result = true ∨ lookup es key = none →
          lookup es' = Function.update (lookup es) key none) := by
  obtain ⟨r, hr, heffect⟩ := sharedValueDeleteLocked_spec o (some key) h.store h.valid
  refine ⟨r, hr, heffect.change, ?_⟩
  simp only [Option.getD_some] at heffect
  cases heffect with
  | inl hsame =>
    refine ⟨es, ⟨by rw [hsame.2.2.1]; exact h.store, h.valid⟩, Or.inl rfl, ?_⟩
    rintro (hok | hnone)
    · exact absurd (sharedValueDeleteLocked_written hr hok) hsame.1
    · rw [← hnone, Function.update_eq_self]
  | inr hnew =>
    refine ⟨_, ⟨by rw [hnew.2.2.1]; rfl, hnew.2.1⟩, Or.inr rfl, ?_⟩
    exact fun _ => lookup_eraseKey h.valid.nodup key

/-- What a request does to the table: nothing, or what it asks for under its key. -/
def Request.Effect (r : Request) (es es' : List Entry) : Prop :=
  es' = es ∨ ∃ key, r.storageKey = some key ∧
    (r.isPreference = false ∧ es' = eraseKey es key ∨ ∃ value, es' = putEntry es key value)

/-- The spec of a request: what it may do at all, and what it does when it is served. -/
def Request.Spec (r : Request) (o : GuestOracle) (w : World) (es : List Entry) : Prop :=
  ∃ result w' es', asm2AndroidMethodCallback o w r = .ok (result, w') ∧ Change w w' ∧
    Tabled w' es' ∧ r.Effect es es' ∧
      (r.served o w = true → result = r.answer (r.storageKey.bind (lookup es)) ∧
        lookup es' = r.store (lookup es))

/-- A request that leaves the store as it is. -/
theorem Request.Spec.reads {r : Request} {o : GuestOracle} (result : MethodResult)
    (h : Tabled w es) (hr : asm2AndroidMethodCallback o w r = .ok (result, w))
    (hserved : r.served o w = true → result = r.answer (r.storageKey.bind (lookup es)) ∧
      r.store (lookup es) = lookup es) : r.Spec o w es := by
  refine ⟨result, w, es, hr, Change.refl w, h, Or.inl rfl, ?_⟩
  intro hs
  exact ⟨(hserved hs).1, (hserved hs).2.symm⟩

theorem setSharedValue_spec (o : GuestOracle) (key value : Option CString) (h : Tabled w es) :
    (Request.setSharedValue key value).Spec o w es := by
  by_cases hreserved : preferenceStorageKeyReserved key = true
  · apply Request.Spec.reads .void h
    · simp [asm2AndroidMethodCallback, hreserved]
    · intro _
      simp [Request.answer, Request.store, Request.storageKey, hreserved]
  cases key with
  | none =>
    apply Request.Spec.reads _ h
    · simp only [asm2AndroidMethodCallback, if_neg hreserved]
      rfl
    · intro _
      simp [Request.answer, Request.store, Request.storageKey]
  | some key =>
    obtain ⟨r, hr, hchange, es', htabled, hes, hrefused, hserved⟩ :=
      sharedValueSetLocked_tabled o.set key (value.getD .empty) h
    have hsame : sharedValueSetLocked o.set w (some key) value =
        sharedValueSetLocked o.set w (some key) (some (value.getD .empty)) := rfl
    have hkey : (Request.setSharedValue (some key) value).storageKey = some key := by
      simp [Request.storageKey, hreserved]
    refine ⟨.void, r.2, es', ?_, hchange, htabled, ?_, ?_⟩
    · simp only [asm2AndroidMethodCallback, if_neg hreserved, hsame, hr, ok_bind, return_eq]
    · exact hes.imp id fun hput => ⟨key, hkey, Or.inr ⟨_, hput⟩⟩
    · intro hs
      refine ⟨rfl, ?_⟩
      simp only [Request.store, hkey, Request.asked]
      by_cases hvalid : ValidEntry (key, value.getD .empty)
      · rw [if_pos hvalid]
        apply hserved
        simpa [Request.served, hreserved, setServed, hvalid, hsame, hr] using hs
      · rw [if_neg hvalid, hrefused hvalid]

theorem deleteSharedValue_spec (o : GuestOracle) (key : Option CString) (h : Tabled w es) :
    (Request.deleteSharedValue key).Spec o w es := by
  by_cases hreserved : preferenceStorageKeyReserved key = true
  · apply Request.Spec.reads .void h
    · simp [asm2AndroidMethodCallback, hreserved]
    · intro _
      simp [Request.answer, Request.store, Request.storageKey, hreserved]
  cases key with
  | none =>
    apply Request.Spec.reads _ h
    · simp only [asm2AndroidMethodCallback, if_neg hreserved]
      rfl
    · intro _
      simp [Request.answer, Request.store, Request.storageKey]
  | some key =>
    obtain ⟨r, hr, hchange, es', htabled, hes, hserved⟩ :=
      sharedValueDeleteLocked_tabled o.delete key h
    have hkey : (Request.deleteSharedValue (some key)).storageKey = some key := by
      simp [Request.storageKey, hreserved]
    refine ⟨.void, r.2, es', ?_, hchange, htabled, ?_, ?_⟩
    · simp only [asm2AndroidMethodCallback, if_neg hreserved, hr, ok_bind, return_eq]
    · exact hes.imp id fun herase => ⟨key, hkey, Or.inl ⟨rfl, herase⟩⟩
    · intro hs
      refine ⟨rfl, ?_⟩
      simp only [Request.store, hkey, Request.asked]
      apply hserved
      simpa [Request.served, hreserved, deleteServed, hr, h.exists] using hs

theorem getSharedValue_spec (o : GuestOracle) (key : Option CString) (h : Tabled w es) :
    (Request.getSharedValue key).Spec o w es := by
  by_cases hreserved : preferenceStorageKeyReserved key = true
  · apply Request.Spec.reads (.string (some .empty)) h
    · simp [asm2AndroidMethodCallback, hreserved]
    · intro _
      simp [Request.answer, Request.store, Request.storageKey, hreserved]
  · apply Request.Spec.reads (.string (some (sharedValueGet w key))) h
    · simp [asm2AndroidMethodCallback, hreserved]
    · intro _
      refine ⟨?_, Request.store_of_asks_nothing rfl _⟩
      simp [Request.answer, Request.storageKey, hreserved, h.get]

theorem isSharedValue_spec (o : GuestOracle) (key : Option CString) (h : Tabled w es) :
    (Request.isSharedValue key).Spec o w es := by
  by_cases hreserved : preferenceStorageKeyReserved key = true
  · apply Request.Spec.reads (.boolean false) h
    · simp [asm2AndroidMethodCallback, hreserved]
    · intro _
      simp [Request.answer, Request.store, Request.storageKey, hreserved]
  · apply Request.Spec.reads (.boolean (sharedValueExists w key)) h
    · simp [asm2AndroidMethodCallback, hreserved]
    · intro _
      refine ⟨?_, Request.store_of_asks_nothing rfl _⟩
      simp [Request.answer, Request.storageKey, hreserved, h.exists]

/-- Reading a preference depends on the store only through the text under its key. -/
theorem preferenceGet_eq (o : GetOracle) (w : World) (bundle : Bundle) :
    preferenceGet o w bundle = preferenceReply o bundle
      ((preferenceStorageKey o.keyAllocated (bundle.getString "npPrefName")
        (bundle.getString "npKey")).bind fun key => sharedValueCopy o.copied w (some key)) := by
  unfold preferenceGet preferenceReply
  cases preferenceStorageKey o.keyAllocated (bundle.getString "npPrefName")
    (bundle.getString "npKey") <;> rfl

theorem GetOracle.eq_works {o : GetOracle}
    (h : (o.keyAllocated && o.copied && o.putStored && o.putPreset) = true) : o = .works := by
  obtain ⟨keyAllocated, copied, putStored, putPreset⟩ := o
  simp only [Bool.and_eq_true] at h
  obtain ⟨⟨⟨rfl, rfl⟩, rfl⟩, rfl⟩ := h
  rfl

theorem nativeGetPreference_spec (o : GuestOracle) (bundle : Option Bundle) (h : Tabled w es) :
    (Request.nativeGetPreference bundle).Spec o w es := by
  apply Request.Spec.reads (.bundle (preferenceGet o.get w (bundle.getD fun _ => none))) h
  · rfl
  · intro hs
    have hworks := GetOracle.eq_works hs
    refine ⟨?_, Request.store_of_asks_nothing rfl _⟩
    rw [hworks, preferenceGet_eq]
    simp only [GetOracle.works, h.copy]
    rfl

theorem getPreferenceString_spec (o : GuestOracle) (arguments : StringArguments)
    (h : Tabled w es) : (Request.getPreferenceString arguments).Spec o w es := by
  apply Request.Spec.reads (preferenceGetStringMethod o.get w arguments) h
  · rfl
  · intro hs
    have hworks := GetOracle.eq_works hs
    refine ⟨?_, Request.store_of_asks_nothing rfl _⟩
    rw [hworks]
    cases arguments with
    | two key preferenceName =>
      simp only [preferenceGetStringMethod, GetOracle.works, h.copy]
      rfl
    | three key defaultValue preferenceName =>
      simp only [preferenceGetStringMethod, GetOracle.works, h.copy]
      rfl
    | other => rfl

theorem preferenceStorageKey_allocated {allocated : Bool} {preferenceName key : Option CString}
    {storageKey : CString} (h : preferenceStorageKey allocated preferenceName key = some storageKey) :
    preferenceStorageKey true preferenceName key = some storageKey := by
  cases allocated with
  | true => exact h
  | false =>
    simp only [preferenceStorageKey] at h
    grind

theorem nativeSetPreference_spec (o : GuestOracle) (bundle : Option Bundle) (h : Tabled w es) :
    (Request.nativeSetPreference bundle).Spec o w es := by
  cases bundle with
  | none =>
    apply Request.Spec.reads .void h rfl
    intro _
    exact ⟨rfl, Request.store_of_asks_nothing rfl _⟩
  | some bundle =>
    have hrest : ∀ text, encodedPreference bundle = some text →
        ∀ key, (Request.nativeSetPreference (some bundle)).storageKey = some key →
        (Request.nativeSetPreference (some bundle)).store (lookup es) =
          if ValidEntry (key, text) then Function.update (lookup es) key (some text)
          else lookup es := by
      intro text htext key hkey
      simp only [Request.store, hkey, Request.asked, htext, Option.map_some]
    have hnothing : ∀ key, preferenceStorageKey o.preference.keyAllocated
        (bundle.getString "npPrefName") (bundle.getString "npKey") = key →
        ∀ text, (if o.preference.encodedAllocated then encodedPreference bundle else none) = text →
        (key = none ∨ text = none) → (Request.nativeSetPreference (some bundle)).Spec o w es := by
      intro key hkey text htext hnone
      apply Request.Spec.reads .void h
      · simp only [asm2AndroidMethodCallback, preferenceSet, hkey, htext]
        cases key with
        | none => rfl
        | some key =>
          obtain rfl : text = none := by simpa using hnone
          rfl
      · intro hs
        refine ⟨rfl, ?_⟩
        simp only [Request.served, Bool.and_eq_true] at hs
        rw [hs.1.1] at hkey
        rw [hs.1.2, if_pos rfl] at htext
        have hstorage : (Request.nativeSetPreference (some bundle)).storageKey = key := hkey
        cases hnone with
        | inl hk => simp [Request.store, hstorage, hk]
        | inr ht =>
          apply Request.store_of_asks_nothing
          simp [Request.asked, htext, ht]
    cases hkey : preferenceStorageKey o.preference.keyAllocated (bundle.getString "npPrefName")
        (bundle.getString "npKey") with
    | none => exact hnothing _ hkey _ rfl (Or.inl rfl)
    | some key =>
      cases htext : (if o.preference.encodedAllocated then encodedPreference bundle else none) with
      | none => exact hnothing _ hkey _ htext (Or.inr rfl)
      | some text =>
        have hstorage : (Request.nativeSetPreference (some bundle)).storageKey = some key :=
          preferenceStorageKey_allocated hkey
        have hencoded : encodedPreference bundle = some text := by
          split at htext
          · exact htext
          · cases htext
        obtain ⟨r, hr, hchange, es', htabled, hes, hrefused, hserved⟩ :=
          sharedValueSetLocked_tabled o.preference.set key text h
        refine ⟨.void, r.2, es', ?_, hchange, htabled, ?_, ?_⟩
        · simp only [asm2AndroidMethodCallback, preferenceSet, hkey, htext, hr, ok_bind, return_eq]
        · exact hes.imp id fun hput => ⟨key, hstorage, Or.inr ⟨_, hput⟩⟩
        · intro hs
          refine ⟨rfl, ?_⟩
          rw [hrest text hencoded key hstorage]
          by_cases hvalid : ValidEntry (key, text)
          · rw [if_pos hvalid]
            apply hserved
            simpa [Request.served, hencoded, hstorage, setServed, hvalid, hr] using And.right
              (Bool.and_eq_true_iff.mp hs)
          · rw [if_neg hvalid, hrefused hvalid]

theorem asm2AndroidMethodCallback_spec (o : GuestOracle) (r : Request) (h : Tabled w es) :
    r.Spec o w es := by
  cases r with
  | setSharedValue key value => exact setSharedValue_spec o key value h
  | getSharedValue key => exact getSharedValue_spec o key h
  | isSharedValue key => exact isSharedValue_spec o key h
  | deleteSharedValue key => exact deleteSharedValue_spec o key h
  | nativeGetPreference bundle => exact nativeGetPreference_spec o bundle h
  | nativeSetPreference bundle => exact nativeSetPreference_spec o bundle h
  | getPreferenceString arguments => exact getPreferenceString_spec o arguments h

end Spec

end Asm2Runtime.SharedFile
