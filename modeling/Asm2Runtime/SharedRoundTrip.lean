import Asm2Runtime.SharedOpening

/-!
# Preferences come back as they were set

A number is stored as `%d` prints it and read back by `strtol`. What is stored under
the key of a preference stays there until the next accepted set of it, also when the
store is loaded from its file again.
-/

namespace Asm2Runtime.SharedFile

open Transition

section Numbers

theorem toNat_decimal_digit {c : Char} (h : 48 ≤ c.toNat ∧ c.toNat ≤ 57) :
    c.toNat.toUInt8.toNat = c.toNat := by
  rw [Nat.toUInt8_eq, UInt8.toNat_ofNat']
  exact Nat.mod_eq_of_lt (by omega)

theorem isDigit_decimal {n : Nat} {b : UInt8} (h : b ∈ decimal n) : isDigit b = true := by
  obtain ⟨c, hc, rfl⟩ := List.mem_map.mp h
  have hdigit := decimal_digit hc
  have hbyte := toNat_decimal_digit hdigit
  simp only [isDigit, Bool.and_eq_true, decide_eq_true_eq, UInt8.le_iff_toNat_le, hbyte]
  exact hdigit

theorem decimal_ne_nil (n : Nat) : decimal n ≠ [] := by
  intro h
  exact Nat.toDigits_ne_nil (List.map_eq_nil_iff.mp h)

/-- The value of the printed digits. -/
theorem foldl_decimal (n : Nat) :
    (decimal n).foldl (fun m c => 10 * m + (c.toNat - 0x30)) 0 = n := by
  have hstep : ∀ (cs : List Char) (m : Nat), (∀ c ∈ cs, 48 ≤ c.toNat ∧ c.toNat ≤ 57) →
      (cs.map fun c => c.toNat.toUInt8).foldl (fun m c => 10 * m + (c.toNat - 0x30)) m =
        Nat.ofDigitChars 10 cs m := by
    intro cs
    induction cs with
    | nil => exact fun _ _ => rfl
    | cons c cs ih =>
      intro m hcs
      have hbyte := toNat_decimal_digit (hcs c List.mem_cons_self)
      rw [List.map_cons, List.foldl_cons, ih _ fun d hd => hcs d (List.mem_cons_of_mem c hd),
        hbyte]
      rfl
  rw [decimal, hstep _ _ fun c hc => decimal_digit hc, Nat.ofDigitChars_ten_toDigits]

/-- The first digit is none of the characters that `strtol` skips or takes for a sign. -/
theorem decimal_cons (n : Nat) :
    ∃ d rest, decimal n = d :: rest ∧ isSpace d = false ∧ d ≠ 0x2d ∧ d ≠ 0x2b := by
  obtain ⟨d, rest, heq⟩ := List.exists_cons_of_ne_nil (decimal_ne_nil n)
  have hdigit : isDigit d = true := isDigit_decimal (n := n) (heq ▸ List.mem_cons_self)
  refine ⟨d, rest, heq, ?_⟩
  simp only [isDigit, Bool.and_eq_true, decide_eq_true_eq, UInt8.le_iff_toNat_le] at hdigit
  obtain ⟨hlow, hhigh⟩ := hdigit
  refine ⟨?_, ?_, ?_⟩
  · rw [isSpace, Bool.or_eq_false_iff, beq_eq_false_iff_ne, Bool.and_eq_false_iff,
      decide_eq_false_iff_not, decide_eq_false_iff_not, UInt8.le_iff_toNat_le]
    refine ⟨?_, .inr ?_⟩
    · rintro rfl
      exact absurd hlow (by decide)
    · rw [UInt8.le_iff_toNat_le]
      exact fun h => absurd (hlow.trans h) (by decide)
  · rintro rfl
    exact absurd hlow (by decide)
  · rintro rfl
    exact absurd hlow (by decide)

/-- `strtol` reads what `%d` prints, to the last character. -/
theorem strtol_signedDecimal {low high n : Int} (hlow : low ≤ n) (hhigh : n ≤ high) :
    strtol low high (signedDecimal n) = some (n, []) := by
  obtain ⟨d, rest, heq, hspace, hminus, hplus⟩ := decimal_cons n.natAbs
  have hdigits : ∀ b ∈ decimal n.natAbs, isDigit b = true := fun b hb => isDigit_decimal hb
  have htake : (decimal n.natAbs).takeWhile isDigit = decimal n.natAbs :=
    List.takeWhile_eq_self_iff.mpr hdigits
  have hdrop : (decimal n.natAbs).dropWhile isDigit = [] := List.dropWhile_eq_nil_iff.mpr hdigits
  have hread : ∀ text, splitSign (text.dropWhile isSpace) = (decide (n < 0), decimal n.natAbs) →
      strtol low high text = some (n, []) := by
    intro text hsigned
    have hvalue : (if decide (n < 0) = true then -(n.natAbs : Int) else (n.natAbs : Int)) = n := by
      simp only [decide_eq_true_eq]
      omega
    unfold strtol
    dsimp only
    rw [hsigned]
    dsimp only
    rw [htake, if_neg (decimal_ne_nil _), foldl_decimal, hvalue, if_neg (by omega), hdrop]
  apply hread
  unfold signedDecimal
  by_cases hneg : n < 0
  · have hascii : ascii "-" = [0x2d] := by decide
    have hnospace : isSpace 0x2d = false := by decide
    rw [if_pos hneg, hascii, List.singleton_append, List.dropWhile_cons_of_neg (by simp [hnospace]),
      decide_eq_true hneg]
    rfl
  · rw [if_neg hneg, heq, List.dropWhile_cons_of_neg (by simp [hspace]), decide_eq_false hneg]
    unfold splitSign
    split
    · rename_i h
      exact absurd (List.cons.inj h).1 hminus
    · rename_i h
      exact absurd (List.cons.inj h).1 hplus
    · rfl

theorem signedDecimal_no_nul (n : Int) : (0 : UInt8) ∉ signedDecimal n := by
  have hdigits : (0 : UInt8) ∉ decimal n.natAbs := not_mem_decimal (by decide)
  unfold signedDecimal
  split
  · have hsign : (0 : UInt8) ∉ ascii "-" := by decide
    exact fun hmem => (List.mem_append.mp hmem).elim hsign hdigits
  · exact hdigits

theorem signedDecimal_cons (n : Int) : ∃ c rest, signedDecimal n = c :: rest := by
  apply List.exists_cons_of_ne_nil
  unfold signedDecimal
  split
  · exact List.append_ne_nil_of_right_ne_nil _ (decimal_ne_nil _)
  · exact decimal_ne_nil _

end Numbers

section Values

/-- A string that fits behind its tag. -/
abbrev ShortString := { chars : CString // chars.length ≤ sharedMaxValueSize - 2 }

inductive PreferenceValue where
  | int (value : Int32)
  | long (value : Int64)
  | boolean (value : Bool)
  | string (chars : ShortString)

namespace PreferenceValue

/-- `npDataType` -/
def type : PreferenceValue → Int32
  | int _ => 0
  | long _ => 1
  | boolean _ => 2
  | string _ => 3

def inBundle : PreferenceValue → BundleValue
  | int value => .int value
  | long value => .long value
  | boolean value => .boolean value
  | string chars => .object (some chars.val)

/-- The bytes that are stored for the value. -/
def bytes : PreferenceValue → List UInt8
  | int value => 0x69 :: 0x3a :: signedDecimal value.toInt
  | long value => 0x6a :: 0x3a :: signedDecimal value.toInt
  | boolean value => [0x7a, 0x3a, if value then 0x31 else 0x30]
  | string chars => 0x73 :: 0x3a :: chars.val.bytes

theorem no_nul (v : PreferenceValue) : (0 : UInt8) ∉ v.bytes := by
  cases v with
  | int value => simp [bytes, signedDecimal_no_nul]
  | long value => simp [bytes, signedDecimal_no_nul]
  | boolean value => cases value <;> simp [bytes]
  | string chars => simp [bytes, chars.val.noNul]

def text (v : PreferenceValue) : CString := ⟨v.bytes, v.no_nul⟩

theorem ofBuffer_text {v : PreferenceValue} {buffer : List UInt8} (h : buffer = v.bytes) :
    CString.ofBuffer (buffer ++ [0]) = v.text := by
  subst h
  exact CString.ofBuffer_terminated v.text

/-- What a set with this value asks to store. -/
theorem encodedPreference_eq (v : PreferenceValue) {bundle : Bundle}
    (htype : bundle.getInt "npDataType" 0 = v.type) (hdata : bundle "npData" = some v.inBundle) :
    encodedPreference bundle = some v.text := by
  unfold encodedPreference
  rw [htype]
  cases v with
  | int value =>
    have hget : bundle.getInt "npData" 0 = value := by simp [Bundle.getInt, hdata, inBundle]
    have htag : ascii "i:" = [0x69, 0x3a] := by decide
    exact congrArg some (ofBuffer_text (by rw [hget, htag]; rfl))
  | long value =>
    have hget : bundle.getLong "npData" 0 = value := by simp [Bundle.getLong, hdata, inBundle]
    have htag : ascii "j:" = [0x6a, 0x3a] := by decide
    exact congrArg some (ofBuffer_text (by rw [hget, htag]; rfl))
  | boolean value =>
    have hget : bundle.getBoolean "npData" false = value := by
      simp [Bundle.getBoolean, hdata, inBundle]
    have hzero : ascii "z:0" = [0x7a, 0x3a, 0x30] := by decide
    have hone : ascii "z:1" = [0x7a, 0x3a, 0x31] := by decide
    refine congrArg some (ofBuffer_text ?_)
    rw [hget, hzero, hone]
    cases value <;> rfl
  | string chars =>
    have hget : bundle.getString "npData" = some chars.val := by
      simp [Bundle.getString, hdata, inBundle]
    have htag : ascii "s:" = [0x73, 0x3a] := by decide
    have hfits := chars.property
    rw [hget]
    change (if chars.val.length ≤ sharedMaxValueSize - 2 then
      some (CString.ofBuffer (ascii "s:" ++ chars.val.bytes ++ [0])) else none) = _
    rw [if_pos hfits]
    exact congrArg some (ofBuffer_text (by rw [htag]; rfl))

theorem parsePreferenceInt_text (value : Int32) :
    parsePreferenceInt (int value).text = some value := by
  obtain ⟨c, rest, heq⟩ := signedDecimal_cons value.toInt
  have hlow : (-2 ^ 31 : Int) ≤ value.toInt := value.le_toInt
  have hhigh : value.toInt ≤ 2 ^ 31 - 1 := Int.le_sub_one_of_lt value.toInt_lt
  have hread := strtol_signedDecimal hlow hhigh
  simp only [parsePreferenceInt, text, bytes]
  rw [heq] at hread ⊢
  simp only [hread]
  rw [if_pos ⟨hlow, hhigh⟩, Int32.ofInt_toInt]

theorem parsePreferenceLong_text (value : Int64) :
    parsePreferenceLong (long value).text = some value := by
  obtain ⟨c, rest, heq⟩ := signedDecimal_cons value.toInt
  have hlow : (-2 ^ 63 : Int) ≤ value.toInt := value.le_toInt
  have hhigh : value.toInt ≤ 2 ^ 63 - 1 := Int.le_sub_one_of_lt value.toInt_lt
  have hread := strtol_signedDecimal hlow hhigh
  simp only [parsePreferenceLong, text, bytes]
  rw [heq] at hread ⊢
  simp only [hread]
  rw [Int64.ofInt_toInt]

theorem type_cases {t : Int32} (ht : 0 ≤ t.toInt ∧ t.toInt ≤ 3) :
    t = 0 ∨ t = 1 ∨ t = 2 ∨ t = 3 := by
  simp only [← Int32.toInt_inj, show (0 : Int32).toInt = 0 from rfl,
    show (1 : Int32).toInt = 1 from rfl, show (2 : Int32).toInt = 2 from rfl,
    show (3 : Int32).toInt = 3 from rfl]
  omega

/-- The stored text is a value of its own type, and of no other. -/
theorem storedValue_text (v : PreferenceValue) {t : Int32} (ht : 0 ≤ t.toInt ∧ t.toInt ≤ 3) :
    storedValue t v.text = if t = v.type then some v.inBundle else none := by
  obtain rfl | rfl | rfl | rfl := type_cases ht
  · cases v with
    | int value => exact congrArg (Option.map BundleValue.int) (parsePreferenceInt_text value)
    | _ => rfl
  · cases v with
    | long value => exact congrArg (Option.map BundleValue.long) (parsePreferenceLong_text value)
    | _ => rfl
  · cases v with
    | boolean value => cases value <;> rfl
    | _ => rfl
  · cases v with
    | string chars =>
      have hback := CString.ofBuffer_terminated chars.val
      exact congrArg (fun s => some (BundleValue.object (some s))) hback
    | _ => rfl

/-- A string value, else the default. -/
def stringOr (preset : Option CString) : PreferenceValue → Option CString
  | string chars => some chars.val
  | _ => preset

theorem stringPreference_text (v : PreferenceValue) (preset : Option CString) :
    stringPreference (some v.text) preset = v.stringOr preset := by
  cases v with
  | string chars => exact congrArg some (CString.ofBuffer_terminated chars.val)
  | _ => rfl

end PreferenceValue

/-- The caller's default for a type. -/
def Bundle.preset (bundle : Bundle) (type : Int32) : BundleValue :=
  match type.toInt with
  | 0 => .int (bundle.getInt "npDefaultValue" 0)
  | 1 => .long (bundle.getLong "npDefaultValue" 0)
  | 2 => .boolean (bundle.getBoolean "npDefaultValue" false)
  | _ => .object (bundle.getString "npDefaultValue")

theorem preferencePutDefault_eq (bundle : Bundle) {type : Int32}
    (ht : 0 ≤ type.toInt ∧ type.toInt ≤ 3) : preferencePutDefault true bundle type =
      Function.update bundle "npResult" (some (bundle.preset type)) := by
  obtain rfl | rfl | rfl | rfl := PreferenceValue.type_cases ht <;> rfl

/-- The value for its own type and the default for another. -/
theorem preferenceReply_text (v : PreferenceValue) {bundle : Bundle} {type : Int32}
    (htype : bundle.getInt "npDataType" 0 = type) (ht : 0 ≤ type.toInt ∧ type.toInt ≤ 3) :
    preferenceReply .works bundle (some v.text) = Function.update bundle "npResult"
      (some (if type = v.type then v.inBundle else bundle.preset type)) := by
  unfold preferenceReply
  dsimp only
  rw [htype, if_pos ht, v.storedValue_text ht]
  by_cases hsame : type = v.type
  · rw [if_pos hsame, if_pos hsame]
    rfl
  · rw [if_neg hsame, if_neg hsame]
    exact preferencePutDefault_eq bundle ht

end Values

section Files

/-- The store file holds the table, unless that is empty. -/
structure Filed (w : World) (es : List Entry) : Prop extends Tabled w es where
  file : ∀ path, w.state.sharedStoragePath = some path → es ≠ [] →
    w.disk path = some (.regular (storeFormat.print es))

theorem Tabled.unique {w : World} {es es' : List Entry} (h : Tabled w es) (h' : Tabled w es') :
    es' = es := by
  have hslots : Slots.ofEntries es = Slots.ofEntries es' :=
    congrArg Store.toSlots (h.store.symm.trans h'.store)
  apply List.ext_getElem?
  intro i
  have hkey := congrFun (congrArg Slots.keys hslots) i
  have hvalue := congrFun (congrArg Slots.values hslots) i
  simp only [Slots.ofEntries] at hkey hvalue
  cases hi : es[i]? with
  | none =>
    rw [hi, Option.map_none, eq_comm, Option.map_eq_none_iff] at hkey
    exact hkey
  | some e =>
    rw [hi, Option.map_some, eq_comm, Option.map_eq_some_iff] at hkey hvalue
    obtain ⟨e', he', hfst⟩ := hkey
    obtain ⟨e'', he'', hsnd⟩ := hvalue
    obtain rfl := Option.some.inj (he'.symm.trans he'')
    rw [he', Prod.ext hfst hsnd]

theorem Filed.change {w w' : World} {es es' : List Entry} (h : Filed w es) (hc : Change w w')
    (h' : Tabled w' es') : Filed w' es' := by
  refine ⟨h', ?_⟩
  intro path hpath hne
  cases hc with
  | inl hsame =>
    have hstore : w.state.toStore = w'.state.toStore := by rw [hsame.1]
    obtain rfl := Tabled.unique ⟨hstore ▸ h.store, h.valid⟩ h'
    rw [hsame.1] at hpath
    rw [hsame.2 path hpath]
    exact h.file path hpath hne
  | inr hnew =>
    obtain ⟨es'', hvalid, hstate, hsaved⟩ := hnew
    have hstored : Tabled w' es'' := ⟨by rw [hstate]; rfl, hvalid⟩
    obtain rfl := h'.unique hstored
    rw [hstate] at hpath
    exact hsaved path hpath

theorem storeEntries_print {es : List Entry} (h : ValidTable es) :
    storeEntries (some (.regular (storeFormat.print es))) = es := by
  rw [storeEntries, storeFormat.decode_print es ((storeFormat_valid es).2 h), Option.getD_some]

/-- Entries come from a file that is printed from them. -/
theorem eq_print_of_storeEntries {node : Option Node} (hne : storeEntries node ≠ []) :
    node = some (.regular (storeFormat.print (storeEntries node))) := by
  cases node with
  | none => exact absurd rfl hne
  | some held =>
    cases held with
    | other => exact absurd rfl hne
    | regular contents =>
      rw [storeEntries] at hne ⊢
      cases hdecode : storeFormat.decode contents with
      | none =>
        rw [hdecode] at hne
        exact absurd rfl hne
      | some es =>
        obtain ⟨-, rfl⟩ := (storeFormat.decode_eq_some_iff contents es).1 hdecode
        rfl

/-- A file with entries is not moved away. -/
theorem Switches.kept {o : RootOracle} {w : World} {root : Option Path} {path directory : Path}
    {disk : Disk} (h : Switches o w root path directory disk)
    (hne : storeEntries (w.disk path) ≠ []) : disk = w.disk := by
  obtain ⟨loaded, hload, hio, hdisk⟩ := h.loaded
  obtain ⟨loaded₁, hload₁, hentries⟩ := sharedValuesLoadFile_entries o.load (w.disk path)
  obtain rfl := Except.ok.inj (hload.symm.trans hload₁)
  obtain ⟨loaded₂, hload₂, hspec⟩ := sharedValuesLoadFile_spec o.load (w.disk path)
  obtain rfl := Except.ok.inj (hload.symm.trans hload₂)
  obtain ⟨-, -, hcount⟩ := hentries.resolve_left hio
  obtain ⟨es, -, -, hcount', hfile⟩ := hspec.resolve_left hio
  have hfilled : es ≠ [] := by
    rintro rfl
    exact hne (List.length_eq_zero_iff.mp (hcount.symm.trans hcount'))
  rwa [if_neg (by rw [(hfile hfilled).1]; decide)] at hdisk

/-- An opening leaves everything alone or seeds a table that is in its file. -/
theorem opening_cases {o : RootOracle} {w w' : World} {old : List Entry} {root : Option Path}
    {opened : Bool} (h : Tabled w old)
    (hcall : asm2AndroidSetStorageRoot o w root = .ok (opened, w')) :
    w' = w ∨ ∃ path directory disk loaded outcome, Switches o w root path directory disk ∧
      sharedValuesLoadFile o.load ((w.disk path).map Node.view) Slots.empty = .ok loaded ∧
      ensureInstallerPreferences o.installer ⟨boundState w.state path directory loaded, disk⟩ =
        .ok (outcome, w') ∧
      Filed ⟨boundState w.state path directory loaded, disk⟩ (storeEntries (w.disk path)) := by
  rcases asm2AndroidSetStorageRoot_switches o w root with
    ⟨hfail, -⟩ | ⟨path, directory, disk, bound, hswitches, hbind, hvalid, hslots, hcount⟩
  · exact .inl (Prod.mk.inj (Except.ok.inj (hcall.symm.trans hfail))).2
  · right
    obtain ⟨loaded, hload, hio, -⟩ := hswitches.loaded
    obtain ⟨loaded₁, hload₁, hentries⟩ := sharedValuesLoadFile_entries o.load (w.disk path)
    obtain rfl := Except.ok.inj (hload.symm.trans hload₁)
    obtain ⟨-, hslots', hcount'⟩ := hentries.resolve_left hio
    have hsame : boundState w.state path directory bound =
        boundState w.state path directory loaded := by
      unfold boundState
      rw [hslots, hcount, hslots', hcount']
    have htabled : Tabled ⟨boundState w.state path directory loaded, disk⟩
        (storeEntries (w.disk path)) :=
      boundState_tabled path directory (w := ⟨w.state, disk⟩) ⟨h.store, h.valid⟩ hslots' hcount'
        hvalid
    obtain ⟨r, -, hr, -⟩ := ensureInstallerPreferences_spec o.installer htabled
    rw [hbind] at hcall
    simp only [bindStore, hsame, hr, ok_bind, return_eq, Except.ok.injEq, Prod.mk.injEq] at hcall
    obtain ⟨-, rfl⟩ := hcall
    refine ⟨path, directory, disk, loaded, r.1, hswitches, hload, hr, htabled, ?_⟩
    intro path' hpath' hne
    obtain rfl := Option.some.inj hpath'
    rw [hswitches.kept hne]
    exact eq_print_of_storeEntries hne

theorem eventStep_filed {w w' : World} {e : Event} (h : ∃ es, Filed w es)
    (hstep : eventStep w e = some w') : ∃ es, Filed w' es := by
  obtain ⟨es, h⟩ := h
  cases e with
  | call c =>
    have hchange := callStep_change h.toTabled hstep
    obtain ⟨es', h'⟩ := h.toTabled.change hchange
    exact ⟨es', h.change hchange h'⟩
  | setStorageRoot o root =>
    obtain ⟨r, hr, -⟩ := asm2AndroidSetStorageRoot_spec o root h.toTabled
    simp only [eventStep, hr, Option.some.injEq] at hstep
    subst hstep
    rcases opening_cases h.toTabled hr with hsame |
      ⟨path, directory, disk, loaded, outcome, -, -, hseed, hfiled⟩
    · exact ⟨es, hsame ▸ h⟩
    · obtain ⟨r', es', hr', heffect⟩ := ensureInstallerPreferences_spec o.installer hfiled.toTabled
      obtain rfl := Except.ok.inj (hr'.symm.trans hseed)
      obtain ⟨es'', h''⟩ := hfiled.toTabled.change heffect.change
      exact ⟨es'', hfiled.change heffect.change h''⟩

end Files

section Later

/-- The request sets the preference with this storage key, and the set is accepted. -/
def AcceptsSet (o : GuestOracle) (w : World) (key : CString) : Request → Prop
  | .nativeSetPreference (some bundle) =>
    preferenceStorageKey true (bundle.getString "npPrefName") (bundle.getString "npKey") =
        some key ∧
      ∃ r, preferenceSet o.preference w bundle = .ok r ∧ r.1.result = true
  | _ => False

/-- The seeding does not find the installer preference, and its set of it is accepted. -/
def SeedingSets (o : InstallerOracle) (w : World) : Prop :=
  (sharedValueCopy o.copied w (some installerStorageKey)).any startsString = false ∧
    ∃ r, ensureInstallerPreferences o w = .ok r ∧ r.1.result = true

/-- The opening sets the preference with this storage key: it is the installer preference. -/
def OpeningSets (o : RootOracle) (w : World) (root : Option Path) (key : CString) : Prop :=
  key = installerStorageKey ∧ ∃ path directory disk loaded,
    Switches o w root path directory disk ∧
      sharedValuesLoadFile o.load ((w.disk path).map Node.view) Slots.empty = .ok loaded ∧
      SeedingSets o.installer ⟨boundState w.state path directory loaded, disk⟩

/-- The worlds that a world comes to without an accepted set of the preference, while the store
stays bound to its file. The file may be loaded again, in this process or in a new one. -/
inductive Later (key : CString) (w : World) : World → Prop
  | now : Later key w w
  | called (w₁ w₂ : World) (o : GuestOracle) (r : Request) (result : MethodResult) :
      Later key w w₁ → ¬ AcceptsSet o w₁ key r →
      asm2AndroidMethodCallback o w₁ r = .ok (result, w₂) → Later key w w₂
  | outside (w₁ : World) (path : Path) (node : Option Node) :
      Later key w w₁ → w₁.state.sharedStoragePath ≠ some path →
      Later key w ⟨w₁.state, Function.update w₁.disk path node⟩
  | reloaded (w₁ w₂ : World) (o : RootOracle) (root : Option Path) (opened : Bool) :
      Later key w w₁ → ¬ OpeningSets o w₁ root key →
      asm2AndroidSetStorageRoot o w₁ root = .ok (opened, w₂) →
      w₂.state.sharedStoragePath = w₁.state.sharedStoragePath → Later key w w₂
  | restarted (w₁ w₂ : World) (resource : Option CString) (disk : Disk) (o : RootOracle)
      (root : Option Path) (opened : Bool) (path : Path) :
      Later key w w₁ → ¬ OpeningSets o (initialWorld resource disk) root key →
      w₁.state.sharedStoragePath = some path → disk path = w₁.disk path →
      asm2AndroidSetStorageRoot o (initialWorld resource disk) root = .ok (opened, w₂) →
      w₂.state.sharedStoragePath = some path → Later key w w₂

/-- The table, in memory and in the file, has the text under the key. -/
def Holds (key text : CString) (w : World) : Prop :=
  ∃ es, Filed w es ∧ lookup es key = some text

variable {w : World} {es : List Entry} {key text : CString}

theorem Holds.change {w' : World} {es' : List Entry} (h : Filed w es) (hc : Change w w')
    (h' : Tabled w' es') (hlookup : lookup es' key = some text) : Holds key text w' :=
  ⟨es', h.change hc h', hlookup⟩

theorem Effect.storagePath {es' : List Entry} {r : Outcome × World} (h : Effect w es' r) :
    r.2.state.sharedStoragePath = w.state.sharedStoragePath := by
  cases h with
  | inl hsame => rw [hsame.2.2.1]
  | inr hnew => rw [hnew.2.2.1]; rfl

/-- A set of another key, or one that is not accepted, leaves the text there. -/
theorem Effect.holds {key' value : CString} {r : Outcome × World} (h : Filed w es)
    (hlookup : lookup es key = some text) (heffect : Effect w (putEntry es key' value) r)
    (hset : key = key' → r.1.result ≠ true) : Holds key text r.2 := by
  have hchange := heffect.change
  cases heffect with
  | inl hsame => exact .change h hchange ⟨by rw [hsame.2.2.1]; exact h.store, h.valid⟩ hlookup
  | inr hnew =>
    refine .change h hchange ⟨by rw [hnew.2.2.1]; rfl, hnew.2.1⟩ ?_
    have hne : key ≠ key' := fun heq => hset heq (by rw [hnew.1])
    rw [lookup_putEntry, Function.update_of_ne hne]
    exact hlookup

theorem preferenceSet_holds {o : PreferenceSetOracle} {bundle : Bundle} {r : Outcome × World}
    (h : Filed w es) (hlookup : lookup es key = some text)
    (hr : preferenceSet o w bundle = .ok r)
    (hset : preferenceStorageKey true (bundle.getString "npPrefName") (bundle.getString "npKey") =
      some key → r.1.result ≠ true) : Holds key text r.2 := by
  unfold preferenceSet at hr
  dsimp only at hr
  split at hr
  · rename_i key' text' hkey _
    obtain ⟨r', hr', heffect⟩ :=
      sharedValueSetLocked_spec o.set (some key') (some text') h.store h.valid
    obtain rfl := Except.ok.inj (hr'.symm.trans hr)
    refine Effect.holds h hlookup heffect ?_
    rintro rfl
    exact hset (preferenceStorageKey_allocated hkey)
  · obtain rfl := Except.ok.inj hr
    exact ⟨es, h, hlookup⟩

/-- A request of the guest that is not an accepted set of the preference. -/
theorem asm2AndroidMethodCallback_holds {o : GuestOracle} {r : Request} {result : MethodResult}
    {w' : World} (h : Filed w es) (hlookup : lookup es key = some text)
    (hreserved : preferenceStorageKeyReserved (some key) = true) (hset : ¬ AcceptsSet o w key r)
    (hcall : asm2AndroidMethodCallback o w r = .ok (result, w')) : Holds key text w' := by
  have hpublic : r.isPreference = false → Holds key text w' := by
    intro hkind
    obtain ⟨result', w₁, es', hcall', hchange, htabled, heffect, -⟩ :=
      asm2AndroidMethodCallback_spec o r h.toTabled
    obtain ⟨-, rfl⟩ := Prod.mk.inj (Except.ok.inj (hcall'.symm.trans hcall))
    refine .change h hchange htabled ?_
    rcases heffect with rfl | ⟨key', hkey', hput⟩
    · exact hlookup
    · have hne : key ≠ key' := by
        rintro rfl
        rw [storageKey_public hkind hkey'] at hreserved
        cases hreserved
      rcases hput with ⟨-, rfl⟩ | ⟨value, rfl⟩
      · rw [lookup_eraseKey h.valid.nodup, Function.update_of_ne hne]
        exact hlookup
      · rw [lookup_putEntry, Function.update_of_ne hne]
        exact hlookup
  have hread : asm2AndroidMethodCallback o w r = .ok (result, w) → Holds key text w' := by
    intro hkept
    obtain ⟨-, rfl⟩ := Prod.mk.inj (Except.ok.inj (hkept.symm.trans hcall))
    exact ⟨es, h, hlookup⟩
  cases r with
  | setSharedValue k value => exact hpublic rfl
  | getSharedValue k => exact hpublic rfl
  | isSharedValue k => exact hpublic rfl
  | deleteSharedValue k => exact hpublic rfl
  | nativeGetPreference bundle =>
    obtain ⟨-, rfl⟩ := Prod.mk.inj (Except.ok.inj hcall)
    exact ⟨es, h, hlookup⟩
  | getPreferenceString arguments =>
    obtain ⟨-, rfl⟩ := Prod.mk.inj (Except.ok.inj hcall)
    exact ⟨es, h, hlookup⟩
  | nativeSetPreference bundle =>
    cases bundle with
    | none =>
      obtain ⟨-, rfl⟩ := Prod.mk.inj (Except.ok.inj hcall)
      exact ⟨es, h, hlookup⟩
    | some bundle =>
      obtain ⟨r, -, hr, -⟩ := preferenceSet_spec o.preference bundle h.toTabled
      simp only [asm2AndroidMethodCallback, hr, ok_bind, return_eq, Except.ok.injEq,
        Prod.mk.injEq] at hcall
      obtain ⟨-, rfl⟩ := hcall
      exact preferenceSet_holds h hlookup hr fun hkey hok => hset ⟨hkey, r, hr, hok⟩

/-- A seeding that does not set the preference. -/
theorem ensureInstallerPreferences_holds {o : InstallerOracle} {r : Outcome × World}
    (h : Filed w es) (hlookup : lookup es key = some text)
    (hset : key = installerStorageKey → ¬ SeedingSets o w)
    (hr : ensureInstallerPreferences o w = .ok r) : Holds key text r.2 := by
  have hkept : ∀ outcome, (.ok (outcome, w) : Checked (Outcome × World)) = .ok r →
      Holds key text r.2 := by
    intro outcome heq
    obtain rfl := Except.ok.inj heq
    exact ⟨es, h, hlookup⟩
  cases hresource : w.state.resourceDirectory with
  | none =>
    exact hkept _ ((ensureInstallerPreferences_refused (.inl hresource)).symm.trans hr)
  | some resource =>
    cases hkey : o.keyAllocated with
    | false => exact hkept _ ((ensureInstallerPreferences_refused (.inr hkey)).symm.trans hr)
    | true =>
      have hsets := hr
      rw [ensureInstallerPreferences_eq h.toTabled hresource hkey] at hr
      split at hr
      · exact hkept _ hr
      · rename_i habsent
        split at hr
        · exact hkept _ hr
        · obtain ⟨r', hr', heffect⟩ := sharedValueSetLocked_spec o.set (some installerStorageKey)
            (some (installerText resource)) h.store h.valid
          obtain rfl := Except.ok.inj (hr'.symm.trans hr)
          refine Effect.holds h hlookup heffect fun heq hok => hset heq ⟨?_, _, hsets, hok⟩
          cases hcopied : o.copied with
          | false => rfl
          | true =>
            rw [h.copy]
            simpa [hcopied] using habsent

/-- An opening of the same file that does not set the preference. -/
theorem asm2AndroidSetStorageRoot_holds {w₁ w₂ : World} {old : List Entry} {o : RootOracle}
    {root : Option Path} {opened : Bool} {path : Path} (hbefore : Tabled w₁ old)
    (hbound : w₁.state.sharedStoragePath ≠ some path ∨ Holds key text w₁)
    (hvalid : ValidTable es) (hlookup : lookup es key = some text)
    (hfile : w₁.disk path = some (.regular (storeFormat.print es)))
    (hset : ¬ OpeningSets o w₁ root key)
    (hcall : asm2AndroidSetStorageRoot o w₁ root = .ok (opened, w₂))
    (hpath : w₂.state.sharedStoragePath = some path) : Holds key text w₂ := by
  rcases opening_cases hbefore hcall with rfl |
    ⟨path', directory, disk, loaded, outcome, hswitches, hload, hseed, hfiled⟩
  · exact hbound.resolve_left fun hne => hne hpath
  · obtain ⟨r, es', hr, heffect⟩ := ensureInstallerPreferences_spec o.installer hfiled.toTabled
    obtain rfl := Except.ok.inj (hr.symm.trans hseed)
    obtain rfl : path' = path := Option.some.inj (heffect.storagePath.symm.trans hpath)
    rw [hfile, storeEntries_print hvalid] at hfiled
    exact ensureInstallerPreferences_holds hfiled hlookup
      (fun heq hsets => hset ⟨heq, path', directory, disk, loaded, hswitches, hload, hsets⟩) hseed

theorem ne_nil_of_lookup (h : lookup es key = some text) : es ≠ [] := by
  rintro rfl
  cases h

theorem Later.holds {w' : World} (hlater : Later key w w')
    (hreserved : preferenceStorageKeyReserved (some key) = true) (h : Holds key text w) :
    Holds key text w' := by
  induction hlater with
  | now => exact h
  | called w₁ w₂ o r result _ hset hcall ih =>
    obtain ⟨es, hfiled, hlookup⟩ := ih
    exact asm2AndroidMethodCallback_holds hfiled hlookup hreserved hset hcall
  | outside w₁ path node _ hother ih =>
    obtain ⟨es, hfiled, hlookup⟩ := ih
    refine ⟨es, ⟨⟨hfiled.store, hfiled.valid⟩, ?_⟩, hlookup⟩
    intro path' hpath' hne
    have hdiffer : path' ≠ path := by
      rintro rfl
      exact hother hpath'
    exact (Function.update_of_ne hdiffer node w₁.disk).trans (hfiled.file path' hpath' hne)
  | reloaded w₁ w₂ o root opened _ hset hcall hpath ih =>
    obtain ⟨es, hfiled, hlookup⟩ := ih
    cases hbound : w₁.state.sharedStoragePath with
    | none =>
      rcases opening_cases hfiled.toTabled hcall with rfl |
        ⟨path', directory, disk, loaded, outcome, -, -, hseed, hbound'⟩
      · exact ⟨es, hfiled, hlookup⟩
      · obtain ⟨r, es', hr, heffect⟩ := ensureInstallerPreferences_spec o.installer hbound'.toTabled
        obtain rfl := Except.ok.inj (hr.symm.trans hseed)
        exact absurd (heffect.storagePath.symm.trans (hpath.trans hbound)) (Option.some_ne_none _)
    | some path =>
      exact asm2AndroidSetStorageRoot_holds hfiled.toTabled (.inr ⟨es, hfiled, hlookup⟩)
        hfiled.valid hlookup (hfiled.file path hbound (ne_nil_of_lookup hlookup)) hset hcall
        (hpath.trans hbound)
  | restarted w₁ w₂ resource disk o root opened path _ hset hbound hdisk hcall hpath ih =>
    obtain ⟨es, hfiled, hlookup⟩ := ih
    have hfile := hfiled.file path hbound (ne_nil_of_lookup hlookup)
    have hfresh : Tabled (initialWorld resource disk) [] := ⟨rfl, validTable_nil⟩
    exact asm2AndroidSetStorageRoot_holds hfresh (.inl (Option.some_ne_none path).symm)
      hfiled.valid hlookup (hdisk.trans hfile) hset hcall hpath

end Later

section Main

/-- An accepted set leaves its text in the table. -/
theorem preferenceSet_stored {o : PreferenceSetOracle} {w : World} {es : List Entry}
    {bundle : Bundle} {r : Outcome × World} {key text : CString} (h : Filed w es)
    (hkey : preferenceStorageKey true (bundle.getString "npPrefName")
      (bundle.getString "npKey") = some key)
    (htext : encodedPreference bundle = some text) (hr : preferenceSet o w bundle = .ok r)
    (hstored : r.1.result = true) : Holds key text r.2 := by
  unfold preferenceSet at hr
  dsimp only at hr
  split at hr
  · rename_i key' text' hkey' htext'
    obtain rfl := Option.some.inj ((preferenceStorageKey_allocated hkey').symm.trans hkey)
    have hencoded : text' = text := by
      split at htext'
      · exact Option.some.inj (htext'.symm.trans htext)
      · cases htext'
    subst hencoded
    obtain ⟨r', hr', hchange, es', htabled, -, -, hserved⟩ :=
      sharedValueSetLocked_tabled o.set key' text' h.toTabled
    obtain rfl := Except.ok.inj (hr'.symm.trans hr)
    refine .change h hchange htabled ?_
    rw [hserved hstored, Function.update_self]
  · obtain rfl := Except.ok.inj hr
    cases hstored

/-- A value that was stored is what a later read of its type gives; a read of another type gives
its default. -/
theorem preference_roundTrip (resource : Option CString) (disk : Disk) (before : List Event)
    (w w₁ w₂ : World) (o : PreferenceSetOracle) (outcome : Outcome) (v : PreferenceValue)
    (bundle : Bundle) (key : CString)
    (hbefore : run eventStep (initialWorld resource disk) before = some w)
    (hkey : preferenceStorageKey true (bundle.getString "npPrefName")
      (bundle.getString "npKey") = some key)
    (htype : bundle.getInt "npDataType" 0 = v.type) (hdata : bundle "npData" = some v.inBundle)
    (hset : preferenceSet o w bundle = .ok (outcome, w₁)) (hstored : outcome.result = true)
    (hlater : Later key w₁ w₂) (o' : GuestOracle) (hreads : o'.get = .works) :
    (∀ asked : Bundle, preferenceStorageKey true (asked.getString "npPrefName")
        (asked.getString "npKey") = some key →
      ∀ type, asked.getInt "npDataType" 0 = type → 0 ≤ type.toInt ∧ type.toInt ≤ 3 →
        asm2AndroidMethodCallback o' w₂ (.nativeGetPreference (some asked)) =
          .ok (.bundle (Function.update asked "npResult"
            (some (if type = v.type then v.inBundle else asked.preset type))), w₂)) ∧
    ∀ name k, preferenceStorageKey true name k = some key →
      asm2AndroidMethodCallback o' w₂ (.getPreferenceString (.two k name)) =
          .ok (.string (v.stringOr (some .empty)), w₂) ∧
        ∀ preset, asm2AndroidMethodCallback o' w₂ (.getPreferenceString (.three k preset name)) =
          .ok (.string (v.stringOr preset), w₂) := by
  have hinit : ∃ es, Filed (initialWorld resource disk) es :=
    ⟨[], ⟨rfl, validTable_nil⟩, fun _ _ hne => absurd rfl hne⟩
  obtain ⟨es, hfiled⟩ := run_invariant (P := fun w => ∃ es, Filed w es)
    (fun _ _ _ => eventStep_filed) hinit hbefore
  have hheld := preferenceSet_stored hfiled hkey (v.encodedPreference_eq htype hdata) hset hstored
  obtain ⟨es', hfiled', hlookup⟩ := hlater.holds (preferenceStorageKey_reserved hkey) hheld
  have hcopy : sharedValueCopy true w₂ (some key) = some v.text := by
    rw [hfiled'.copy, hlookup]
  constructor
  · intro asked hasked type hasks hrange
    simp only [asm2AndroidMethodCallback, Option.getD_some, preferenceGet_eq, hreads]
    simp only [GetOracle.works, hasked, Option.bind_some, hcopy]
    exact congrArg (fun b => Except.ok (MethodResult.bundle b, w₂))
      (preferenceReply_text v hasks hrange)
  · intro name k hasked
    have hread : ∀ preset, stringPreference ((preferenceStorageKey true name k).bind fun key =>
        sharedValueCopy true w₂ (some key)) preset = v.stringOr preset := by
      intro preset
      rw [hasked, Option.bind_some, hcopy, v.stringPreference_text]
    constructor
    · simp only [asm2AndroidMethodCallback, preferenceGetStringMethod, hreads, GetOracle.works,
        hread, return_eq]
    · intro preset
      simp only [asm2AndroidMethodCallback, preferenceGetStringMethod, hreads, GetOracle.works,
        hread, return_eq]

/-- The preference `(p, k)` as the number 7, with the default 1. -/
def numberBundle : Bundle := fun name =>
  if name = "npDataType" then some (.int 0)
  else if name = "npPrefName" then some (.object (some (.ofBuffer (ascii "p"))))
  else if name = "npKey" then some (.object (some (.ofBuffer (ascii "k"))))
  else if name = "npData" then some (.int 7)
  else if name = "npDefaultValue" then some (.int 1)
  else none

def openRoms (w : World) : Option World :=
  match asm2AndroidSetStorageRoot plainRoot w (some (ascii "/roms")) with
  | .ok (true, w') => some w'
  | _ => none

def setNumber (bundle : Bundle) (w : World) : Option World :=
  match preferenceSet plainGuest.preference w bundle with
  | .ok (⟨true, _⟩, w') => some w'
  | _ => none

def readNumber (o : GetOracle) (bundle : Bundle) (w : World) : Option BundleValue :=
  match asm2AndroidMethodCallback { plainGuest with get := o } w
      (.nativeGetPreference (some bundle)) with
  | .ok (.bundle result, _) => result "npResult"
  | _ => none

/-- A stored number is not read when there is no memory for its key, after the first opening of a
root, or when an opening has seeded the same preference. -/
theorem number_not_read :
    (¬ ∀ o, ((openRoms plainWorld).bind (setNumber numberBundle)).map (readNumber o numberBundle) =
      some (some (.int 7))) ∧
    ((setNumber numberBundle plainWorld).bind openRoms).map (readNumber .works numberBundle) =
      some (some (.int 1)) ∧
    (((openRoms plainWorld).bind (setNumber installerBundle)).bind openRoms).map
      (readNumber .works installerBundle) = some (some (.int 0)) := by
  refine ⟨fun h => ?_, by decide +kernel, by decide +kernel⟩
  exact absurd (h ⟨false, true, true, true⟩) (by decide +kernel)

theorem openRoms_some {w w' : World} (h : openRoms w = some w') :
    asm2AndroidSetStorageRoot plainRoot w (some (ascii "/roms")) = .ok (true, w') := by
  unfold openRoms at h
  split at h
  · rename_i heq
    rw [heq, Option.some.inj h]
  · cases h

theorem setNumber_some {bundle : Bundle} {w w' : World} (h : setNumber bundle w = some w') :
    ∃ outcome, preferenceSet plainGuest.preference w bundle = .ok (outcome, w') ∧
      outcome.result = true := by
  unfold setNumber at h
  split at h
  · rename_i heq
    rw [Option.some.inj h] at heq
    exact ⟨_, heq, rfl⟩
  · cases h

/-- A new process on the same disk. -/
def restart (w : World) : World := initialWorld plainWorld.state.resourceDirectory w.disk

theorem number_bound :
    ((openRoms plainWorld).bind (setNumber numberBundle)).map (fun w =>
      (w.state.sharedStoragePath, (openRoms (restart w)).map (·.state.sharedStoragePath))) =
        some (some romsPath, some (some romsPath)) := by
  decide +kernel

theorem preference_roundTrip_restarted :
    ∃ w w₁ w₂, openRoms plainWorld = some w ∧ setNumber numberBundle w = some w₁ ∧
      openRoms (restart w₁) = some w₂ ∧ readNumber .works numberBundle w₂ = some (.int 7) := by
  obtain ⟨w₁, hset, hpaths⟩ := Option.map_eq_some_iff.mp number_bound
  obtain ⟨w, hopened, hset⟩ := Option.bind_eq_some_iff.mp hset
  obtain ⟨hbound, hagain⟩ := Prod.mk.inj hpaths
  obtain ⟨w₂, hagain, hbound'⟩ := Option.map_eq_some_iff.mp hagain
  refine ⟨w, w₁, w₂, hopened, hset, hagain, ?_⟩
  obtain ⟨outcome, hstored, hok⟩ := setNumber_some hset
  have hcall := openRoms_some hopened
  have hbefore : run eventStep plainWorld [.setStorageRoot plainRoot (some (ascii "/roms"))] =
      some w := by
    rw [run, eventStep, hcall]
    rfl
  have hkey : preferenceStorageKey true (numberBundle.getString "npPrefName")
      (numberBundle.getString "npKey") =
        some (.ofBuffer (ascii "__asm2_shared_pref_v1__1:p:k")) := by
    decide +kernel
  have hother : CString.ofBuffer (ascii "__asm2_shared_pref_v1__1:p:k") ≠ installerStorageKey := by
    decide +kernel
  have hlater := Later.restarted w₁ w₂ _ w₁.disk plainRoot _ true romsPath .now
    (fun hsets => hother hsets.1) hbound rfl (openRoms_some hagain) hbound'
  have hround := preference_roundTrip _ _ _ w w₁ w₂ plainGuest.preference outcome (.int 7)
    numberBundle _ hbefore hkey rfl rfl hstored hok hlater plainGuest rfl
  have hread := hround.1 numberBundle hkey 0 rfl (by decide)
  have hguest : { plainGuest with get := GetOracle.works } = plainGuest := rfl
  rw [readNumber, hguest, hread]
  rfl

end Main

end Asm2Runtime.SharedFile
