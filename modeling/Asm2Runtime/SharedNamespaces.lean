import Asm2Runtime.KeyedService
import Asm2Runtime.SharedGuest

/-!
# Preferences and shared values do not interfere

Every preference key begins with the reserved prefix, and the lengths in it make
the encoding of a name and a key unique. So the preference methods and the
DataSharing methods work on separate keys of the one store.
-/

namespace Asm2Runtime.SharedFile

open Transition KeyedService

section Encoding

theorem ascii_colon : ascii ":" = [0x3a] := by decide

/-- A digit of a decimal number. -/
theorem decimal_digit {n : Nat} {c : Char} (h : c ∈ Nat.toDigits 10 n) :
    48 ≤ c.toNat ∧ c.toNat ≤ 57 := by
  have hdigit := Nat.isDigit_of_mem_toDigits (by decide) (by decide) h
  simp only [Char.isDigit, Bool.and_eq_true, decide_eq_true_eq] at hdigit
  exact ⟨UInt32.le_iff_toNat_le.mp hdigit.1, UInt32.le_iff_toNat_le.mp hdigit.2⟩

theorem not_mem_decimal {n : Nat} {b : UInt8} (hb : b.toNat < 48 ∨ 57 < b.toNat) :
    b ∉ decimal n := by
  intro hmem
  obtain ⟨c, hc, rfl⟩ := List.mem_map.mp hmem
  obtain ⟨hlow, hhigh⟩ := decimal_digit hc
  simp only [Nat.toUInt8_eq, UInt8.toNat_ofNat'] at hb
  omega

theorem decimal_injective {n m : Nat} (h : decimal n = decimal m) : n = m := by
  have hback : ∀ k, (decimal k).map (fun b => Char.ofNat b.toNat) = Nat.toDigits 10 k := by
    intro k
    rw [decimal, List.map_map]
    refine (List.map_congr_left ?_).trans (List.map_id _)
    intro c hc
    obtain ⟨_, hhigh⟩ := decimal_digit hc
    have hsmall : c.toNat % 256 = c.toNat := Nat.mod_eq_of_lt (by omega)
    simp [hsmall]
  have hdigits := hback n
  rw [h, hback m] at hdigits
  rw [← Nat.ofDigitChars_ten_toDigits (n := n), ← hdigits, Nat.ofDigitChars_ten_toDigits]

/-- What stands before the first separator is determined. -/
theorem split_at_separator {c : UInt8} {a b x y : List UInt8} (ha : c ∉ a) (hb : c ∉ b)
    (h : a ++ c :: x = b ++ c :: y) : a = b ∧ x = y := by
  induction a generalizing b with
  | nil =>
    cases b with
    | nil => exact ⟨rfl, (List.cons.inj h).2⟩
    | cons d b =>
      have hd : c = d := (List.cons.inj h).1
      exact absurd (hd ▸ List.mem_cons_self) hb
  | cons d a ih =>
    cases b with
    | nil =>
      have hd : d = c := (List.cons.inj h).1
      exact absurd (hd ▸ List.mem_cons_self) ha
    | cons e b =>
      obtain ⟨rfl, htail⟩ := List.cons.inj h
      obtain ⟨rfl, hxy⟩ := ih (fun hm => ha (List.mem_cons_of_mem _ hm))
        (fun hm => hb (List.mem_cons_of_mem _ hm)) htail
      exact ⟨rfl, hxy⟩

theorem ofBuffer_bytes {bytes : List UInt8} (h : (0 : UInt8) ∉ bytes) :
    (CString.ofBuffer (bytes ++ [0])).bytes = bytes :=
  congrArg CString.bytes (CString.ofBuffer_terminated ⟨bytes, h⟩)

/-- The bytes of a preference's storage key. -/
theorem preferenceStorageKey_bytes {allocated : Bool} {preferenceName key : Option CString}
    {storageKey : CString} (h : preferenceStorageKey allocated preferenceName key = some storageKey) :
    ∃ k, key = some k ∧ storageKey.bytes = preferenceKeyPrefix ++
      (decimal (preferenceName.getD .empty).length ++ 0x3a ::
        ((preferenceName.getD .empty).bytes ++ 0x3a :: k.bytes)) := by
  cases key with
  | none => cases h
  | some k =>
    refine ⟨k, rfl, ?_⟩
    simp only [preferenceStorageKey, Option.ite_none_left_eq_some,
      Option.ite_none_right_eq_some, Option.some.injEq] at h
    obtain ⟨_, _, _, rfl⟩ := h
    have hzero : (0 : UInt8) ∉ preferenceKeyPrefix ++
        (decimal (preferenceName.getD .empty).length ++ ascii ":") ++
        (preferenceName.getD .empty).bytes ++ ascii ":" ++ k.bytes := by
      have hinitial : (0 : UInt8) ∉ preferenceKeyPrefix := by decide
      simp [ascii_colon, hinitial, k.noNul, (preferenceName.getD .empty).noNul,
        not_mem_decimal (show (0 : UInt8).toNat < 48 ∨ 57 < (0 : UInt8).toNat by decide)]
    rw [ofBuffer_bytes hzero]
    simp [ascii_colon]

/-- Different pairs have different storage keys; a null name is the empty one. -/
theorem preferenceStorageKey_injective {a a' : Bool} {p p' k k' : Option CString} {s : CString}
    (h : preferenceStorageKey a p k = some s) (h' : preferenceStorageKey a' p' k' = some s) :
    p.getD .empty = p'.getD .empty ∧ k = k' := by
  obtain ⟨key, rfl, hbytes⟩ := preferenceStorageKey_bytes h
  obtain ⟨key', rfl, hbytes'⟩ := preferenceStorageKey_bytes h'
  have hsame := List.append_cancel_left (hbytes.symm.trans hbytes')
  have hcolon : ∀ n, (0x3a : UInt8) ∉ decimal n := fun n => not_mem_decimal (by decide)
  obtain ⟨hlength, hrest⟩ := split_at_separator (hcolon _) (hcolon _) hsame
  obtain ⟨hname, hkey⟩ := List.append_inj hrest (decimal_injective hlength)
  refine ⟨CString.ext_bytes hname, ?_⟩
  rw [CString.ext_bytes (List.cons.inj hkey).2]

theorem preferenceStorageKey_reserved {a : Bool} {p k : Option CString} {s : CString}
    (h : preferenceStorageKey a p k = some s) : preferenceStorageKeyReserved (some s) = true := by
  obtain ⟨key, _, hbytes⟩ := preferenceStorageKey_bytes h
  simp [preferenceStorageKeyReserved, hbytes]

end Encoding

section Runs

/-- A world and the results that the guest has seen. -/
structure Guest where
  world : World
  log : List (Request × MethodResult)

def Guest.start (w : World) : Guest := ⟨w, []⟩

structure GuestCall where
  request : Request
  oracle : GuestOracle

def guestStep (g : Guest) (c : GuestCall) : Option Guest :=
  match asm2AndroidMethodCallback c.oracle g.world c.request with
  | .ok (result, w) => some ⟨w, g.log ++ [(c.request, result)]⟩
  | .error _ => none

/-- The call does not fail for lack of capacity or memory or by an I/O error. -/
def CallServed (g : Guest) (c : GuestCall) : Prop := c.request.served c.oracle g.world = true

instance (g : Guest) (c : GuestCall) : Decidable (CallServed g c) :=
  inferInstanceAs (Decidable (_ = true))

def Guest.results (g : Guest) (kind : Request → Bool) : List MethodResult :=
  (g.log.filter fun e => kind e.1).map Prod.snd

def requests (calls : List GuestCall) (kind : Request → Bool) : List Request :=
  (calls.map GuestCall.request).filter kind

def service : Service Request CString CString MethodResult where
  key := Request.storageKey
  answer := Request.answer
  update r key old :=
    match r.asked with
    | none => old
    | some none => none
    | some (some value) => if ValidEntry (key, value) then some value else old

theorem service_store (r : Request) (m : Contents) : service.store m r = r.store m := by
  funext k
  by_cases hk : r.storageKey = some k
  · simp only [Service.store, service, Request.store, hk]
    cases r.asked with
    | none => simp
    | some value =>
      cases value with
      | none => simp
      | some value => by_cases hvalid : ValidEntry (k, value) <;> simp [hvalid]
  · rw [Service.store_of_ne hk, Request.store]
    cases hkey : r.storageKey with
    | none => rfl
    | some key =>
      have hne : k ≠ key := fun heq => hk (heq ▸ hkey)
      cases r.asked with
      | none => rfl
      | some value =>
        cases value with
        | none => simp [hne]
        | some value => by_cases hvalid : ValidEntry (key, value) <;> simp [hvalid, hne]

theorem storageKey_reserved {r : Request} {k : CString} (h : r.isPreference = true)
    (hk : r.storageKey = some k) : preferenceStorageKeyReserved (some k) = true := by
  cases r with
  | nativeGetPreference bundle => exact preferenceStorageKey_reserved hk
  | nativeSetPreference bundle => exact preferenceStorageKey_reserved hk
  | getPreferenceString arguments =>
    cases arguments with
    | two key name => exact preferenceStorageKey_reserved hk
    | three key preset name => exact preferenceStorageKey_reserved hk
    | other => cases hk
  | setSharedValue key value => cases h
  | getSharedValue key => cases h
  | isSharedValue key => cases h
  | deleteSharedValue key => cases h

theorem storageKey_public {r : Request} {k : CString} (h : r.isPreference = false)
    (hk : r.storageKey = some k) : preferenceStorageKeyReserved (some k) = false := by
  have hpublic : ∀ key, (if preferenceStorageKeyReserved key then none else key) = some k →
      preferenceStorageKeyReserved (some k) = false := by
    intro key hkey
    split at hkey
    case isTrue => cases hkey
    case isFalse hfree => rw [← hkey]; simpa using hfree
  cases r with
  | setSharedValue key value => exact hpublic key hk
  | getSharedValue key => exact hpublic key hk
  | isSharedValue key => exact hpublic key hk
  | deleteSharedValue key => exact hpublic key hk
  | nativeGetPreference bundle => cases h
  | nativeSetPreference bundle => cases h
  | getPreferenceString arguments => cases h

theorem preferences_separated : service.Separated Request.isPreference
    fun k => preferenceStorageKeyReserved (some k) = true := by
  constructor
  · exact fun r k hkind hkey => storageKey_reserved hkind hkey
  · intro r k hkind hkey hreserved
    rw [storageKey_public hkind hkey] at hreserved
    cases hreserved

theorem sharedValues_separated : service.Separated (fun r => !r.isPreference)
    fun k => preferenceStorageKeyReserved (some k) = false := by
  constructor
  · exact fun r k hkind hkey => storageKey_public (by simpa using hkind) hkey
  · intro r k hkind hkey hfree
    rw [storageKey_reserved (by simpa using hkind) hkey] at hfree
    cases hfree

/-- The results of a run in which no call fails are the answers of the service. -/
theorem guest_results {w : World} {es : List Entry} {log : List (Request × MethodResult)}
    {calls : List GuestCall} {g : Guest} (kind : Request → Bool) (h : Tabled w es)
    (hrun : run guestStep ⟨w, log⟩ calls = some g)
    (hserved : Along guestStep CallServed ⟨w, log⟩ calls) :
    g.results kind = (Guest.mk w log).results kind ++
      service.answers kind (lookup es) (calls.map GuestCall.request) := by
  induction calls generalizing w es log with
  | nil =>
    obtain rfl : (⟨w, log⟩ : Guest) = g := by simpa using hrun
    simp [Service.answers]
  | cons c calls ih =>
    obtain ⟨next, hnext, hrest⟩ := run_cons.mp hrun
    obtain ⟨result, w', es', hcall, _, htabled, _, hdone⟩ :=
      asm2AndroidMethodCallback_spec c.oracle c.request h
    obtain ⟨hresult, hlookup⟩ := hdone hserved.1
    have hstep : guestStep ⟨w, log⟩ c = some ⟨w', log ++ [(c.request, result)]⟩ := by
      simp only [guestStep, hcall]
    obtain rfl : next = ⟨w', log ++ [(c.request, result)]⟩ :=
      Option.some.inj (hnext.symm.trans hstep)
    have htail := ih htabled hrest (hserved.2 _ hstep)
    rw [htail, hlookup, ← service_store, List.map_cons]
    cases hkind : kind c.request with
    | true => simp [Guest.results, Service.answers, hkind, hresult, service]
    | false => simp [Guest.results, Service.answers, hkind]

end Runs

section Main

/-- The preference that a request is about; a null name is the empty one. -/
def Request.preferencePair : Request → Option (CString × Option CString)
  | .nativeGetPreference bundle | .nativeSetPreference bundle =>
    let bundle := bundle.getD fun _ => none
    some ((bundle.getString "npPrefName").getD .empty, bundle.getString "npKey")
  | .getPreferenceString (.two key preferenceName)
  | .getPreferenceString (.three key _ preferenceName) => some (preferenceName.getD .empty, key)
  | _ => none

/-- The request reads a preference. -/
def Request.reads : Request → Bool
  | .nativeGetPreference _ | .getPreferenceString _ => true
  | _ => false

/-- Reading a preference depends on what is stored under its key only. -/
theorem reads_congr {w w' : World} {es es' : List Entry} (h : Tabled w es) (h' : Tabled w' es')
    {r : Request} (hreads : r.reads = true)
    (hsame : ∀ key, r.storageKey = some key → lookup es' key = lookup es key)
    (o : GuestOracle) :
    (asm2AndroidMethodCallback o w' r).map Prod.fst =
      (asm2AndroidMethodCallback o w r).map Prod.fst := by
  have hcopy : ∀ key, r.storageKey = some key → sharedValueCopy o.get.copied w' (some key) =
      sharedValueCopy o.get.copied w (some key) := by
    intro key hkey
    cases hc : o.get.copied with
    | false => rfl
    | true => rw [h.copy, h'.copy, hsame key hkey]
  have hbind : ∀ preferenceName key, (∀ s, preferenceStorageKey true preferenceName key = some s →
        r.storageKey = some s) →
      ((preferenceStorageKey o.get.keyAllocated preferenceName key).bind fun k =>
        sharedValueCopy o.get.copied w' (some k)) =
      (preferenceStorageKey o.get.keyAllocated preferenceName key).bind fun k =>
        sharedValueCopy o.get.copied w (some k) := by
    intro preferenceName key hkey
    cases hs : preferenceStorageKey o.get.keyAllocated preferenceName key with
    | none => rfl
    | some s => exact hcopy s (hkey s (preferenceStorageKey_allocated hs))
  cases r with
  | nativeGetPreference bundle =>
    have hstored := hbind ((bundle.getD fun _ => none).getString "npPrefName")
      ((bundle.getD fun _ => none).getString "npKey") fun s hs => hs
    simp only [asm2AndroidMethodCallback, preferenceGet_eq, hstored]
    rfl
  | getPreferenceString arguments =>
    cases arguments with
    | two key name =>
      have hstored := hbind name key fun s hs => hs
      simp only [asm2AndroidMethodCallback, preferenceGetStringMethod, hstored]
      rfl
    | three key preset name =>
      have hstored := hbind name key fun s hs => hs
      simp only [asm2AndroidMethodCallback, preferenceGetStringMethod, hstored]
      rfl
    | other => rfl
  | setSharedValue key value => cases hreads
  | getSharedValue key => cases hreads
  | isSharedValue key => cases hreads
  | deleteSharedValue key => cases hreads
  | nativeSetPreference bundle => cases hreads

/-- Two preference requests with one storage key are about one preference. -/
theorem preferencePair_eq {r r' : Request} {key : CString} (hr : r.isPreference = true)
    (hr' : r'.isPreference = true) (h : r.storageKey = some key) (h' : r'.storageKey = some key) :
    r.preferencePair = r'.preferencePair := by
  have hpair : ∀ r : Request, r.isPreference = true → r.storageKey = some key →
      ∃ p k, preferenceStorageKey true p k = some key ∧
        r.preferencePair = some (p.getD .empty, k) := by
    intro r hr h
    cases r with
    | nativeGetPreference bundle => exact ⟨_, _, h, rfl⟩
    | nativeSetPreference bundle => exact ⟨_, _, h, rfl⟩
    | getPreferenceString arguments =>
      cases arguments with
      | two k name => exact ⟨_, _, h, rfl⟩
      | three k preset name => exact ⟨_, _, h, rfl⟩
      | other => cases h
    | setSharedValue k value => cases hr
    | getSharedValue k => cases hr
    | isSharedValue k => cases hr
    | deleteSharedValue k => cases hr
  obtain ⟨p, k, hs, heq⟩ := hpair r hr h
  obtain ⟨p', k', hs', heq'⟩ := hpair r' hr' h'
  obtain ⟨hname, hkey⟩ := preferenceStorageKey_injective hs hs'
  rw [heq, heq', hname, hkey]

/-- Setting one preference, also when it fails, changes no other. -/
theorem set_changes_no_other {w w' : World} {es : List Entry} {set get : Request}
    {o : GuestOracle} {result : MethodResult} (h : Tabled w es) (hset : set.isPreference = true)
    (hget : get.reads = true) (hpair : set.preferencePair ≠ get.preferencePair)
    (hcall : asm2AndroidMethodCallback o w set = .ok (result, w')) (o' : GuestOracle) :
    (asm2AndroidMethodCallback o' w' get).map Prod.fst =
      (asm2AndroidMethodCallback o' w get).map Prod.fst := by
  obtain ⟨_, w₁, es', hcall', _, htabled, heffect, _⟩ := asm2AndroidMethodCallback_spec o set h
  rw [hcall, Except.ok.injEq, Prod.mk.injEq] at hcall'
  obtain ⟨_, rfl⟩ := hcall'
  have hpreference : get.isPreference = true := by
    cases get with
    | nativeGetPreference bundle => rfl
    | getPreferenceString arguments => rfl
    | nativeSetPreference bundle => rfl
    | setSharedValue key value => cases hget
    | getSharedValue key => cases hget
    | isSharedValue key => cases hget
    | deleteSharedValue key => cases hget
  apply reads_congr h htabled hget
  intro key hkey
  obtain rfl | ⟨key', hkey', hchange⟩ := heffect
  · rfl
  · have hne : key ≠ key' := by
      rintro rfl
      exact hpair (preferencePair_eq hset hpreference hkey' hkey)
    obtain ⟨hpublic, _⟩ | ⟨value, rfl⟩ := hchange
    · rw [hset] at hpublic
      cases hpublic
    · rw [lookup_putEntry, Function.update_of_ne hne]

/-- In every world that a process can reach, the two interfaces to the store do
not see each other's values, and preferences do not see each other's. -/
theorem namespaces_separate (resource : Option CString) (disk : Disk) (before : List Event)
    (w : World) (hbefore : run eventStep (initialWorld resource disk) before = some w) :
    (∀ a a' p p' k k' s, preferenceStorageKey a p k = some s →
      preferenceStorageKey a' p' k' = some s → p.getD .empty = p'.getD .empty ∧ k = k') ∧
    (∀ a p k s, preferenceStorageKey a p k = some s → preferenceKeyPrefix <+: s.bytes) ∧
    (∀ calls calls' g g', run guestStep (.start w) calls = some g →
      run guestStep (.start w) calls' = some g' →
      Along guestStep CallServed (.start w) calls → Along guestStep CallServed (.start w) calls' →
      (requests calls Request.isPreference = requests calls' Request.isPreference →
        g.results Request.isPreference = g'.results Request.isPreference) ∧
      (requests calls (fun r => !r.isPreference) = requests calls' (fun r => !r.isPreference) →
        g.results (fun r => !r.isPreference) = g'.results (fun r => !r.isPreference))) ∧
    (∀ o bundle result w', asm2AndroidMethodCallback o w (.nativeSetPreference bundle) =
        .ok (result, w') → ∀ get : Request, get.reads = true →
      (Request.nativeSetPreference bundle).preferencePair ≠ get.preferencePair → ∀ o',
        (asm2AndroidMethodCallback o' w' get).map Prod.fst =
          (asm2AndroidMethodCallback o' w get).map Prod.fst) := by
  have hinit : ∃ es, Tabled (initialWorld resource disk) es := ⟨[], rfl, validTable_nil⟩
  obtain ⟨es, h⟩ := run_invariant (P := fun w => ∃ es, Tabled w es)
    (fun _ _ _ => eventStep_tabled) hinit hbefore
  refine ⟨?_, ?_, ?_, ?_⟩
  · exact fun a a' p p' k k' s hs hs' => preferenceStorageKey_injective hs hs'
  · intro a p k s hs
    obtain ⟨key, _, hbytes⟩ := preferenceStorageKey_bytes hs
    exact ⟨_, hbytes.symm⟩
  · intro calls calls' g g' hrun hrun' hserved hserved'
    have hleft := fun kind => guest_results kind h hrun hserved
    have hright := fun kind => guest_results kind h hrun' hserved'
    constructor
    · intro hsame
      rw [hleft, hright, preferences_separated.answers_eq hsame]
    · intro hsame
      rw [hleft, hright, sharedValues_separated.answers_eq hsame]
  · intro o bundle result w' hcall get hget hpair o'
    exact set_changes_no_other h rfl hget hpair hcall o'

/-- The preference `(p, k)` as a string with the given data. -/
def stringBundle (data : String) : Bundle := fun name =>
  if name = "npDataType" then some (.int 3)
  else if name = "npPrefName" then some (.object (some (.ofBuffer (ascii "p"))))
  else if name = "npKey" then some (.object (some (.ofBuffer (ascii "k"))))
  else if name = "npData" then some (.object (some (.ofBuffer (ascii data))))
  else none

def plainGuest : GuestOracle :=
  ⟨.works, ⟨true, true, plainSet false⟩, plainSet false, (plainSet false).persist⟩

def preferenceCalls : List GuestCall :=
  [⟨.nativeSetPreference (some (stringBundle "v")), plainGuest⟩,
    ⟨.nativeGetPreference (some (stringBundle "")), plainGuest⟩]

/-- A public value whose key looks like that of the preference, but for the prefix. -/
def mixedCalls : List GuestCall :=
  ⟨.setSharedValue (some (.ofBuffer (ascii "1:p:k"))) (some (.ofBuffer (ascii "s:w"))),
    plainGuest⟩ :: preferenceCalls

theorem namespaces_separate_mixed :
    ∃ g g', run guestStep (.start plainWorld) preferenceCalls = some g ∧
      run guestStep (.start plainWorld) mixedCalls = some g' ∧
      g.results Request.isPreference = g'.results Request.isPreference := by
  have hsome : ∀ calls, (run guestStep (.start plainWorld) calls).isSome = true →
      ∃ g, run guestStep (.start plainWorld) calls = some g := fun calls h =>
    Option.isSome_iff_exists.mp h
  obtain ⟨g, hg⟩ := hsome preferenceCalls (by decide +kernel)
  obtain ⟨g', hg'⟩ := hsome mixedCalls (by decide +kernel)
  have h := namespaces_separate _ _ [] plainWorld rfl
  exact ⟨g, g', hg, hg',
    (h.2.2.1 _ _ _ _ hg hg' (by decide +kernel) (by decide +kernel)).1 rfl⟩

end Main

end Asm2Runtime.SharedFile
