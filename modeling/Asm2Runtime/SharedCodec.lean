import Asm2Runtime.SharedGrammar

/-!
# The loader decodes the store format

The loader's checks accept what the grammar accepts, entry by entry and then as a
whole, and meet no fault on any input. So the valid tables and the accepted files
correspond one to one.
-/

namespace Asm2Runtime.SharedFile

open CanonicalFormat

section Loader

/-- Every four bytes spell a word. -/
theorem exists_word (s : List UInt8) (h : 4 ≤ s.length) :
    ∃ value rest, s = putU32Le value ++ rest := by
  match s, h with
  | a :: b :: c :: d :: rest, _ =>
    exact ⟨joinU32 a b c d, rest, by rw [putU32Le_joinU32]; rfl⟩

theorem word_parse (value : UInt32) (rest : List UInt8) :
    word.parse (putU32Le value ++ rest) = some (value, rest) :=
  word.parse_print value rest trivial

theorem text_parse (size : Nat) (s : List UInt8) :
    (text size).parse s =
      if size ≤ s.length then (CString.ofBytes (s.take size)).map fun t => (t, s.drop size)
      else none := by
  simp only [text, Format.narrow, Format.take]
  by_cases h : size ≤ s.length
  · simp [h]
  · simp [h]

theorem ofBytes_isSome (bytes : List UInt8) :
    (CString.ofBytes bytes).isSome ↔ (0 : UInt8) ∉ bytes := by
  unfold CString.ofBytes
  split <;> simp_all

theorem entryFormat_parse (k v : UInt32) (rest : List UInt8) :
    entryFormat.parse (putU32Le k ++ putU32Le v ++ rest) =
      if sizesValid (k, v) then ((text k.toNat).pair (text v.toNat)).parse rest else none := by
  rw [List.append_assoc]
  simp only [entryFormat, Format.headed, Format.refine, Format.pair, word_parse, Option.bind_some,
    Option.map_some]
  by_cases hs : sizesValid (k, v)
  · simp [hs]
  · simp [hs]

/-- When two texts of known sizes can be read. -/
theorem texts_parse_isSome (k v : Nat) (rest : List UInt8) :
    (((text k).pair (text v)).parse rest).isSome ↔
      k ≤ rest.length ∧ v ≤ rest.length - k ∧ 0 ∉ rest.take k ∧ 0 ∉ (rest.drop k).take v := by
  simp only [Format.pair, text_parse]
  rw [← ofBytes_isSome, ← ofBytes_isSome]
  by_cases hk : k ≤ rest.length
  · by_cases hv : v ≤ rest.length - k
    · cases CString.ofBytes (rest.take k) with
      | none => simp [hk]
      | some key => simp [hk, hv]
    · cases CString.ofBytes (rest.take k) with
      | none => simp [hk]
      | some key => simp [hk, hv]
  · simp [hk]

theorem entryFormat_parse_short (s : List UInt8) (h : s.length < 8) :
    entryFormat.parse s = none := by
  cases hp : entryFormat.parse s with
  | none => rfl
  | some r =>
    have hlen := congrArg List.length (entryFormat.print_parse s r.1 r.2 hp).2
    rw [List.length_append, entryFormat_print_length] at hlen
    omega

theorem entryFits_eq (front tail : List UInt8) (k v : Nat)
    (hsize : front.length + tail.length < 2 ^ 32) :
    entryFits (front ++ tail) (front ++ tail).length k v front.length =
      .ok (decide ((k ≠ 0 ∧ k ≤ sharedMaxKeySize ∧ v ≤ sharedMaxValueSize) ∧
        (((text k).pair (text v)).parse tail).isSome)) := by
  have hroom : (front ++ tail).length - front.length = tail.length := by simp
  by_cases hs : k ≠ 0 ∧ k ≤ sharedMaxKeySize ∧ v ≤ sharedMaxValueSize
  · have hbad : ¬(k = 0 ∨ k > sharedMaxKeySize ∨ v > sharedMaxValueSize) := by omega
    rw [entryFits, if_neg hbad, sizeSub_eq (by simp), ok_bind, hroom]
    simp only [texts_parse_isSome]
    by_cases hk : k ≤ tail.length
    · rw [if_neg (Nat.not_lt.2 hk), ok_bind, sizeSub_eq hk, ok_bind]
      by_cases hv : v ≤ tail.length - k
      · have hkey : readSpan (front ++ tail) front.length k = .ok (tail.take k) := by
          simp [readSpan, hk]
        have hvalue : readSpan (front ++ tail) (front.length + k) v =
            .ok ((tail.drop k).take v) := by
          have hle : k + v ≤ tail.length := by omega
          have hfront : front.drop (front.length + k) = [] := List.drop_eq_nil_of_le (by omega)
          simp [readSpan, Nat.add_assoc, hle, List.drop_append, hfront]
        rw [if_neg (Nat.not_lt.2 hv), hkey, ok_bind, sizeAdd_eq (by omega), ok_bind, hvalue,
          ok_bind]
        by_cases h1 : 0 ∈ tail.take k
        · simp [h1]
        · by_cases h2 : 0 ∈ (tail.drop k).take v
          · simp [h1, h2]
          · simp [h1, h2, hs, hk, hv]
      · simp [Nat.lt_of_not_le hv, hv]
    · simp [Nat.lt_of_not_le hk, hk]
  · have hbad : k = 0 ∨ k > sharedMaxKeySize ∨ v > sharedMaxValueSize := by omega
    rw [entryFits, if_pos hbad]
    simp [hs]

/-- The checks on an entry accept what the grammar accepts. -/
theorem entrySizes_eq (front rest : List UInt8) (hsize : front.length + rest.length < 2 ^ 32) :
    entrySizes (front ++ rest) (front ++ rest).length front.length =
      .ok ((entryFormat.parse rest).map fun r =>
        (r.1.1.length, r.1.2.length, front.length + 8)) := by
  have hroom : (front ++ rest).length - front.length = rest.length := by simp
  rw [entrySizes, sizeSub_eq (by simp), ok_bind, hroom]
  by_cases hshort : rest.length < 8
  · rw [if_pos hshort, entryFormat_parse_short rest hshort]
    rfl
  · rw [if_neg hshort]
    obtain ⟨k, s, rfl⟩ := exists_word rest (by omega)
    obtain ⟨v, tail, rfl⟩ := exists_word s (by simp at hshort; omega)
    -- The two words move to the part already read.
    have hmove : front ++ (putU32Le k ++ (putU32Le v ++ tail)) =
        front ++ putU32Le k ++ putU32Le v ++ tail := by simp
    have hfront : (front ++ putU32Le k ++ putU32Le v).length = front.length + 8 := by simp
    have hkey := getU32Le_append front (putU32Le v ++ tail) k rfl
    have hvalue := getU32Le_append (front ++ putU32Le k) tail v
      (show front.length + 4 = _ by simp)
    have hfits := entryFits_eq (front ++ putU32Le k ++ putU32Le v) tail k.toNat v.toNat
      (by simp at hsize ⊢; omega)
    rw [← List.append_assoc] at hkey
    simp only [List.length_append, putU32Le_length] at hsize
    rw [hfront] at hfits
    rw [hmove, hkey, ok_bind, sizeAdd_eq (by omega), ok_bind, hvalue, ok_bind,
      sizeAdd_eq (by omega), ok_bind, hfits, ok_bind, ← List.append_assoc, entryFormat_parse]
    by_cases hs : sizesValid (k, v)
    · rw [if_pos hs]
      cases hp : ((text k.toNat).pair (text v.toNat)).parse tail with
      | none => simp
      | some r =>
        have hvalid := (Format.print_parse _ tail r.1 r.2 hp).1
        have h1 : r.1.1.length = k.toNat := hvalid.1
        have h2 : r.1.2.length = v.toNat := hvalid.2
        have hs' : k.toNat ≠ 0 ∧ k.toNat ≤ sharedMaxKeySize ∧ v.toNat ≤ sharedMaxValueSize := hs
        simp [hs', h1, h2]
    · have hs' : ¬(k.toNat ≠ 0 ∧ k.toNat ≤ sharedMaxKeySize ∧ v.toNat ≤ sharedMaxValueSize) := hs
      rw [if_neg hs]
      simp [hs']

/-- Looking for the key of the entry just stored among those before it. -/
theorem keyLoaded_eq (before after tail : List Entry) (key : CString) :
    keyLoaded (Slots.ofEntries (before ++ after ++ tail)).keys key after.length before.length =
      .ok (decide (key ∈ after.map Prod.fst)) := by
  induction after generalizing before with
  | nil => simp [keyLoaded]
  | cons e after ih =>
    have hih := ih (before ++ [e])
    rw [List.append_assoc before, List.singleton_append, List.length_append,
      List.length_singleton] at hih
    have hkey : (Slots.ofEntries (before ++ e :: after ++ tail)).keys before.length = some e.1 := by
      simp [Slots.ofEntries]
    simp only [List.length_cons, keyLoaded, hkey, deref, ok_bind]
    by_cases he : e.1 = key
    · simp [he]
    · have he' : ¬key = e.1 := fun h => he h.symm
      rw [if_neg he, hih]
      simp [he']

namespace Slots

theorem ext_slots {s t : Slots} (hk : ∀ i, s.keys i = t.keys i) (hv : ∀ i, s.values i = t.values i) :
    s = t := by
  cases s
  cases t
  congr
  · funext i
    exact hk i
  · funext i
    exact hv i

theorem ofEntries_concat (es : List Entry) (e : Entry) :
    (ofEntries es).set es.length (some e.1) (some e.2) = ofEntries (es ++ [e]) := by
  apply ext_slots
  · intro i
    by_cases hi : i = es.length
    · subst hi
      simp [set, ofEntries]
    · simp only [set, ofEntries, Function.update_of_ne hi]
      grind
  · intro i
    by_cases hi : i = es.length
    · subst hi
      simp [set, ofEntries]
    · simp only [set, ofEntries, Function.update_of_ne hi]
      grind

theorem set_set (s : Slots) (index : Nat) (key value key' value' : Option CString) :
    (s.set index key value).set index key' value' = s.set index key' value' := by
  simp [set]

theorem ofEntries_dropLast (es : List Entry) (e : Entry) :
    (ofEntries (es ++ [e])).set es.length none none = ofEntries es := by
  rw [← ofEntries_concat]
  apply ext_slots
  · intro i
    by_cases hi : i = es.length
    · subst hi
      simp [set, ofEntries]
    · simp [set, hi]
  · intro i
    by_cases hi : i = es.length
    · subst hi
      simp [set, ofEntries]
    · simp [set, hi]

@[simp] theorem ofEntries_nil : ofEntries [] = empty := rfl

end Slots

theorem sharedValueArraysClear_below (s : Slots) (count i : Nat) (h : i < count) :
    (sharedValueArraysClear s count).keys i = none ∧
      (sharedValueArraysClear s count).values i = none := by
  induction count with
  | zero => omega
  | succ count ih =>
    by_cases hi : i = count
    · subst hi
      simp [sharedValueArraysClear, Slots.set]
    · simp only [sharedValueArraysClear, Slots.set, Function.update_of_ne hi]
      exact ih (by omega)

theorem sharedValueArraysClear_above (s : Slots) (count i : Nat) (h : count ≤ i) :
    (sharedValueArraysClear s count).keys i = s.keys i ∧
      (sharedValueArraysClear s count).values i = s.values i := by
  induction count with
  | zero => exact ⟨rfl, rfl⟩
  | succ count ih =>
    have hi : i ≠ count := by omega
    simp only [sharedValueArraysClear, Slots.set, Function.update_of_ne hi]
    exact ih (by omega)

theorem sharedValueArraysClear_ofEntries (es : List Entry) :
    sharedValueArraysClear (Slots.ofEntries es) es.length = Slots.empty := by
  have h : ∀ i, (sharedValueArraysClear (Slots.ofEntries es) es.length).keys i = none ∧
      (sharedValueArraysClear (Slots.ofEntries es) es.length).values i = none := by
    intro i
    by_cases hi : i < es.length
    · exact sharedValueArraysClear_below _ _ i hi
    · have habove := sharedValueArraysClear_above (Slots.ofEntries es) es.length i (by omega)
      have hnone : es[i]? = none := List.getElem?_eq_none (by omega)
      rw [habove.1, habove.2]
      simp [Slots.ofEntries, hnone]
  exact Slots.ext_slots (fun i => (h i).1) (fun i => (h i).2)

def LoadResult.ofTable : Option (List Entry) → LoadResult
  | some es => ⟨.ok, Slots.ofEntries es, es.length⟩
  | none => ⟨.corrupt, Slots.empty, 0⟩

/-- What the loop makes of the entries it can still parse: nothing may be left over, and the
keys stay distinct. -/
def extendTable (es : List Entry) : Option (List Entry × List UInt8) → Option (List Entry)
  | some (more, []) => if ((es ++ more).map Prod.fst).Nodup then some (es ++ more) else none
  | _ => none

theorem extendTable_dup (es : List Entry) (e : Entry) (parsed : Option (List Entry × List UInt8))
    (h : e.1 ∈ es.map Prod.fst) :
    extendTable es (parsed.map fun q => (e :: q.1, q.2)) = none := by
  match parsed with
  | none => rfl
  | some (more, []) =>
    have hdup : ¬((es ++ e :: more).map Prod.fst).Nodup := by
      rw [List.map_append, List.map_cons, List.nodup_append]
      intro hn
      exact hn.2.2 e.1 h e.1 (by simp) rfl
    simp only [Option.map_some, extendTable, if_neg hdup]
  | some (more, b :: rest) => rfl

theorem extendTable_cons (es : List Entry) (e : Entry)
    (parsed : Option (List Entry × List UInt8)) :
    extendTable es (parsed.map fun q => (e :: q.1, q.2)) = extendTable (es ++ [e]) parsed := by
  match parsed with
  | none => rfl
  | some (more, []) => simp [extendTable]
  | some (more, b :: rest) => rfl

/-- The result is the expected one, unless a copy of an entry could not be allocated. -/
def Loads (allocated : Nat → Bool × Bool) (result : Checked LoadResult) (expected : LoadResult) :
    Prop :=
  result = .ok expected ∨
    (result = .ok ⟨.ioError, Slots.empty, 0⟩ ∧ ∃ i, allocated i ≠ (true, true))

theorem Loads.never {result : Checked LoadResult} {expected : LoadResult}
    (h : Loads LoadFaults.never.allocated result expected) : result = .ok expected := by
  cases h with
  | inl h => exact h
  | inr h =>
    obtain ⟨_, i, hi⟩ := h
    exact absurd rfl hi

theorem loadEntries_loads (allocated : Nat → Bool × Bool) (front rest : List UInt8)
    (es : List Entry) (remaining : Nat)
    (hkeys : (es.map Prod.fst).Nodup) (hmax : es.length + remaining ≤ sharedMaxEntries)
    (hsize : front.length + rest.length < 2 ^ 32) :
    Loads allocated
      (loadEntries allocated (front ++ rest) (front ++ rest).length remaining
        front.length es.length (Slots.ofEntries es))
      (.ofTable (extendTable es (entryFormat.parseMany remaining rest))) := by
  induction remaining generalizing front rest es with
  | zero =>
    left
    cases rest with
    | nil => simp [loadEntries, Format.parseMany, extendTable, hkeys, LoadResult.ofTable]
    | cons b rest =>
      simp [loadEntries, Format.parseMany, extendTable, LoadResult.ofTable,
        sharedValueArraysClear_ofEntries]
  | succ remaining ih =>
    have hsmall : es.length < sharedMaxEntries := by omega
    rw [loadEntries, entrySizes_eq front rest hsize, ok_bind, Format.parseMany]
    cases hp : entryFormat.parse rest with
    | none =>
      left
      simp [extendTable, LoadResult.ofTable, sharedValueArraysClear_ofEntries]
    | some r =>
      obtain ⟨e, tail⟩ := r
      simp only [Option.map_some]
      by_cases halloc : allocated es.length = (true, true)
      case neg =>
        right
        have hset : (Slots.ofEntries es).set es.length none none = Slots.ofEntries es := by
          rw [← Slots.ofEntries_dropLast es e, Slots.set_set]
        rw [if_pos halloc, Slots.write, if_pos hsmall, ok_bind, hset,
          sharedValueArraysClear_ofEntries]
        exact ⟨rfl, es.length, halloc⟩
      have hrest := (entryFormat.print_parse rest e tail hp).2
      subst hrest
      rw [List.length_append, entryFormat_print_length] at hsize
      -- The texts of the entry, once its two sizes belong to the part already read.
      have hmove : front ++ (entryFormat.print e ++ tail) =
          front ++ putU32Le (.ofNat e.1.length) ++ putU32Le (.ofNat e.2.length) ++
            e.1.bytes ++ (e.2.bytes ++ tail) := by
        rw [entryFormat_print]
        simp
      have hkey := readSpan_append
        (front ++ putU32Le (.ofNat e.1.length) ++ putU32Le (.ofNat e.2.length)) e.1.bytes
        (e.2.bytes ++ tail) (show front.length + 8 = _ by simp) (show e.1.length = _ from rfl)
      have hvalue := readSpan_append
        (front ++ putU32Le (.ofNat e.1.length) ++ putU32Le (.ofNat e.2.length) ++ e.1.bytes)
        e.2.bytes tail
        (show front.length + 8 + e.1.length = _ by
          simp only [List.length_append, putU32Le_length, CString.length])
        (show e.2.length = _ from rfl)
      rw [List.append_assoc _ e.2.bytes] at hvalue
      rw [← hmove] at hkey hvalue
      have hloaded := keyLoaded_eq [] es [e] e.1
      rw [List.nil_append, List.length_nil] at hloaded
      rw [if_neg (not_not.2 halloc), hkey, ok_bind, sizeAdd_eq (by omega), ok_bind, hvalue, ok_bind,
        sizeAdd_eq (by omega),
        ok_bind, CString.ofBuffer_terminated, CString.ofBuffer_terminated, Slots.write,
        if_pos hsmall, ok_bind, Slots.ofEntries_concat, hloaded, ok_bind]
      by_cases hdup : e.1 ∈ es.map Prod.fst
      · left
        rw [Option.bind_some, extendTable_dup es e _ hdup]
        simp [hdup, Slots.write, hsmall, Slots.ofEntries_dropLast,
          sharedValueArraysClear_ofEntries, LoadResult.ofTable]
      · have hkeys' := nodup_keys_concat hkeys hdup
        have hlen : (front ++ entryFormat.print e).length =
            front.length + 8 + e.1.length + e.2.length := by
          rw [List.length_append, entryFormat_print_length]
          omega
        have hih := ih (front ++ entryFormat.print e) tail (es ++ [e]) hkeys'
          (by rw [List.length_append, List.length_singleton]; omega)
          (by rw [hlen]; omega)
        have hcount : (es ++ [e]).length = es.length + 1 := by simp
        rw [hlen, List.append_assoc, hcount] at hih
        rw [Option.bind_some, extendTable_cons]
        simpa [hdup] using hih

theorem exists_header (s : List UInt8) (h : sharedHeaderSize ≤ s.length) :
    ∃ magic version count size crc payload, magic.length = 8 ∧
      s = magic ++ putU32Le version ++ putU32Le count ++ putU32Le size ++ putU32Le crc ++
        payload := by
  have h24 : 24 ≤ s.length := h
  obtain ⟨v, s1, h1⟩ := exists_word (s.drop 8) (by simp; omega)
  have hl1 := congrArg List.length h1
  simp only [List.length_drop, List.length_append, putU32Le_length] at hl1
  obtain ⟨c, s2, h2⟩ := exists_word s1 (by omega)
  have hl2 := congrArg List.length h2
  simp only [List.length_append, putU32Le_length] at hl2
  obtain ⟨p, s3, h3⟩ := exists_word s2 (by omega)
  have hl3 := congrArg List.length h3
  simp only [List.length_append, putU32Le_length] at hl3
  obtain ⟨k, payload, h4⟩ := exists_word s3 (by omega)
  refine ⟨s.take 8, v, c, p, k, payload, by simp; omega, ?_⟩
  rw [← List.take_append_drop 8 s, h1, h2, h3, h4]
  simp [show 8 ≤ s.length by omega]

theorem storeFormat_parse (magic payload : List UInt8) (v c p k : UInt32)
    (hm : magic.length = 8) :
    storeFormat.parse (magic ++ putU32Le v ++ putU32Le c ++ putU32Le p ++ putU32Le k ++ payload) =
      if magic = sharedMagic ∧ v = 1 ∧ c.toNat ≤ sharedMaxEntries then
        (entryFormat.parseMany c.toNat payload).bind fun r =>
          if (r.1.map Prod.fst).Nodup ∧ storeHeader r.1 = (magic, v, c, p, k) then some r else none
      else none := by
  simp only [List.append_assoc, storeFormat, Format.headed, Format.refine, headerFormat,
    Format.pair, Format.take, Format.many, List.length_append, hm]
  rw [if_pos (by omega), ← hm, List.drop_left, List.take_left]
  simp only [Option.bind_some, Option.map_some, word_parse]
  split <;> simp_all

/-- The header of a payload that parsed to the end is the one announced. -/
theorem storeHeader_eq_iff {payload : List UInt8} {es : List Entry} (c p k : UInt32)
    (h : entryFormat.parseMany c.toNat payload = some (es, []))
    (hsize : payload.length < 2 ^ 32) :
    storeHeader es = (sharedMagic, 1, c, p, k) ↔
      p.toNat = payload.length ∧ sharedCrc32 payload = k := by
  have hparse := entryFormat.print_parseMany c.toNat payload es [] h
  have hcount : es.length = c.toNat := hparse.1.1
  have hpayload : payloadOf es = payload := by
    rw [← hparse.2, List.append_nil]
    rfl
  simp only [storeHeader, hpayload, hcount, Prod.mk.injEq, true_and, UInt32.ofNat_toNat]
  constructor
  · intro hp
    rw [← hp.1, ofNat_toNat hsize]
    exact ⟨rfl, hp.2⟩
  · intro hp
    rw [← hp.1, UInt32.ofNat_toNat]
    exact ⟨rfl, hp.2⟩

/-- A file with a plausible header decodes to its entries when the size and the checksum fit. -/
theorem storeFormat_decode (payload : List UInt8) (c p k : UInt32)
    (hc : c.toNat ≤ sharedMaxEntries) (hsmall : payload.length < 2 ^ 32) :
    storeFormat.decode
        (sharedMagic ++ putU32Le 1 ++ putU32Le c ++ putU32Le p ++ putU32Le k ++ payload) =
      if p.toNat = payload.length ∧ sharedCrc32 payload = k then
        extendTable [] (entryFormat.parseMany c.toNat payload)
      else none := by
  rw [Format.decode, storeFormat_parse sharedMagic payload 1 c p k rfl, if_pos ⟨rfl, rfl, hc⟩]
  cases hparse : entryFormat.parseMany c.toNat payload with
  | none => simp [extendTable]
  | some parsed =>
    obtain ⟨es, rest⟩ := parsed
    cases rest with
    | nil =>
      have hiff := storeHeader_eq_iff c p k hparse hsmall
      by_cases hn : (es.map Prod.fst).Nodup
      · simp [hn, hiff, extendTable]
        split <;> simp_all
      · simp [hn, extendTable]
    | cons b rest =>
      by_cases hh : (es.map Prod.fst).Nodup ∧ storeHeader es = (sharedMagic, 1, c, p, k)
      · simp [hh, extendTable]
      · simp [hh, extendTable]

/-- The loader decodes the store format. -/
theorem loadContents_loads (allocated : Nat → Bool × Bool) (contents : List UInt8)
    (hmin : sharedHeaderSize ≤ contents.length)
    (hmax : contents.length ≤ sharedHeaderSize + sharedMaxPayloadSize) :
    Loads allocated (loadContents allocated contents contents.length Slots.empty)
      (.ofTable (storeFormat.decode contents)) := by
  obtain ⟨magic, v, c, p, k, payload, hm, rfl⟩ := exists_header contents hmin
  have hlen : (magic ++ putU32Le v ++ putU32Le c ++ putU32Le p ++ putU32Le k ++ payload).length =
      24 + payload.length := by
    simp only [List.length_append, putU32Le_length, hm]
  have hroom : payload.length ≤ sharedMaxPayloadSize := by
    rw [hlen] at hmax
    exact Nat.le_of_add_le_add_left hmax
  have hsmall : payload.length < 2 ^ 32 := Nat.lt_of_le_of_lt hroom (by decide)
  have hversion := getU32Le_append magic (putU32Le c ++ putU32Le p ++ putU32Le k ++ payload) v
    (show 8 = _ from hm.symm)
  have hcount := getU32Le_append (magic ++ putU32Le v) (putU32Le p ++ putU32Le k ++ payload) c
    (show 12 = _ by simp [hm])
  have hsize := getU32Le_append (magic ++ putU32Le v ++ putU32Le c) (putU32Le k ++ payload) p
    (show 16 = _ by simp [hm])
  have hcrc := getU32Le_append (magic ++ putU32Le v ++ putU32Le c ++ putU32Le p) payload k
    (show 20 = _ by simp [hm])
  have hmagic := readSpan_append [] magic
    (putU32Le v ++ putU32Le c ++ putU32Le p ++ putU32Le k ++ payload)
    (show 0 = _ from rfl) (show 8 = _ from hm.symm)
  have hpayload : (magic ++ putU32Le v ++ putU32Le c ++ putU32Le p ++ putU32Le k ++
      payload).drop sharedHeaderSize = payload := by
    rw [List.drop_append_of_le_length (by simp [hm, sharedHeaderSize]),
      List.drop_of_length_le (by simp [hm, sharedHeaderSize]), List.nil_append]
  simp only [List.nil_append, ← List.append_assoc] at hversion hcount hsize hcrc hmagic
  rw [loadContents, hversion, ok_bind, hcount, ok_bind, hsize, ok_bind, hcrc, ok_bind, hmagic,
    ok_bind, hlen, hpayload]
  by_cases hhead : magic = sharedMagic ∧ v = 1 ∧ c.toNat ≤ sharedMaxEntries
  · obtain ⟨rfl, rfl, hc⟩ := hhead
    have hgood : ¬(sharedMagic ≠ sharedMagic ∨ (1 : UInt32) ≠ 1 ∨ c.toNat > sharedMaxEntries) := by
      simpa using hc
    have hdata : 24 + payload.length - sharedHeaderSize = payload.length :=
      Nat.add_sub_cancel_left 24 payload.length
    have hloop := loadEntries_loads allocated [] payload [] c.toNat List.nodup_nil (by simpa using hc)
      (by simpa using hsmall)
    simp only [List.nil_append, List.length_nil, Slots.ofEntries_nil] at hloop
    have hall : readSpan payload 0 payload.length = .ok payload := by simp [readSpan]
    rw [if_neg hgood, sizeSub_eq (show sharedHeaderSize ≤ 24 + payload.length from
      Nat.le_add_right 24 _), ok_bind, hdata, storeFormat_decode payload c p k hc hsmall]
    by_cases hp : p.toNat = payload.length
    · rw [if_neg (by omega), hp]
      simp only [hall, ok_bind]
      by_cases hk : sharedCrc32 payload = k
      · simpa [hk] using hloop
      · left
        simp [hk, LoadResult.ofTable]
    · left
      rw [if_pos (Or.inl hp), if_neg fun h => hp h.1]
      rfl
  · have hbad : magic ≠ sharedMagic ∨ v ≠ 1 ∨ c.toNat > sharedMaxEntries := by
      by_contra h
      simp only [not_or, ne_eq, not_not, Nat.not_lt] at h
      exact hhead h
    left
    rw [if_pos hbad, Format.decode, storeFormat_parse magic payload v c p k hm, if_neg hhead]
    rfl

theorem storeFormat_print_length {es : List Entry} (h : ValidTable es) :
    sharedHeaderSize ≤ (storeFormat.print es).length ∧
      (storeFormat.print es).length ≤ sharedHeaderSize + sharedMaxPayloadSize := by
  rw [storeFormat_print, List.length_append, sharedHeader_length]
  exact ⟨Nat.le_add_right _ _, Nat.add_le_add_left h.payload_le _⟩

theorem storeFormat_decode_size (contents : List UInt8)
    (h : ¬(sharedHeaderSize ≤ contents.length ∧
      contents.length ≤ sharedHeaderSize + sharedMaxPayloadSize)) :
    storeFormat.decode contents = none := by
  cases hd : storeFormat.decode contents with
  | none => rfl
  | some es =>
    obtain ⟨hv, rfl⟩ := (storeFormat.decode_eq_some_iff contents es).1 hd
    exact absurd (storeFormat_print_length ((storeFormat_valid es).1 hv)) h

theorem sharedValuesLoadFile_eq (contents : List UInt8) :
    sharedValuesLoadFile LoadFaults.never (some (.regular contents)) Slots.empty =
      .ok (.ofTable (storeFormat.decode contents)) := by
  by_cases h : sharedHeaderSize ≤ contents.length ∧
      contents.length ≤ sharedHeaderSize + sharedMaxPayloadSize
  · have hsize : ¬(contents.length < sharedHeaderSize ∨
        contents.length > sharedHeaderSize + sharedMaxPayloadSize) := by omega
    have hload := (loadContents_loads LoadFaults.never.allocated contents h.1 h.2).never
    simp only [LoadFaults.never] at hload
    simp [sharedValuesLoadFile, LoadFaults.never, FileView.regular, hsize, hload]
  · have hsize : contents.length < sharedHeaderSize ∨
        contents.length > sharedHeaderSize + sharedMaxPayloadSize := by omega
    simp [sharedValuesLoadFile, LoadFaults.never, FileView.regular, hsize,
      storeFormat_decode_size contents h, LoadResult.ofTable]

/-- With faults the loader may also give up, and then leaves nothing behind. -/
theorem sharedValuesLoadFile_cases (faults : LoadFaults) (contents : List UInt8) :
    sharedValuesLoadFile faults (some (.regular contents)) Slots.empty =
        .ok (.ofTable (storeFormat.decode contents)) ∨
      sharedValuesLoadFile faults (some (.regular contents)) Slots.empty =
        .ok ⟨.ioError, Slots.empty, 0⟩ := by
  by_cases h : sharedHeaderSize ≤ contents.length ∧
      contents.length ≤ sharedHeaderSize + sharedMaxPayloadSize
  · have hsize : ¬(contents.length < sharedHeaderSize ∨
        contents.length > sharedHeaderSize + sharedMaxPayloadSize) := by omega
    have hload := loadContents_loads faults.allocated contents h.1 h.2
    simp only [sharedValuesLoadFile, FileView.regular, Bool.true_eq_false, hsize,
      if_false, Nat.lt_irrefl, or_false, return_eq]
    unfold Loads at hload
    grind
  · have hsize : contents.length < sharedHeaderSize ∨
        contents.length > sharedHeaderSize + sharedMaxPayloadSize := by omega
    simp only [sharedValuesLoadFile, FileView.regular, hsize, or_true, if_true, return_eq,
      storeFormat_decode_size contents h, LoadResult.ofTable]
    grind

end Loader

section Bijection

/-- The bytes that `shared_values_persist` writes. -/
def encodeStore (store : Store) (heap : Nat → UInt8) : Checked (Option (List UInt8)) :=
  (sharedValuesImage store (some heap)).map fun image => image.map fun parts => parts.1 ++ parts.2

/-- `shared_values_load_file` on a regular file that can be read. -/
def decodeFile (contents : List UInt8) : Checked LoadResult :=
  sharedValuesLoadFile LoadFaults.never (some (.regular contents)) Slots.empty

theorem encodeStore_eq {es : List Entry} (h : ValidTable es) (heap : Nat → UInt8) :
    encodeStore (Store.ofEntries es) heap = .ok (some (storeFormat.print es)) := by
  rw [encodeStore, sharedValuesImage_eq h heap, storeFormat_print]
  rfl

theorem decodeFile_print {es : List Entry} (h : ValidTable es) :
    decodeFile (storeFormat.print es) = .ok ⟨.ok, Slots.ofEntries es, es.length⟩ := by
  rw [decodeFile, sharedValuesLoadFile_eq,
    storeFormat.decode_print es ((storeFormat_valid es).2 h)]
  rfl

/-- Every valid table comes back from its file. Every byte string is decoded without a fault,
and is either exactly the file of the table it gives or leaves nothing behind. -/
theorem codec_bijection :
    (∀ (table : Table) (heap : Nat → UInt8), ∃ file,
      encodeStore (Store.ofEntries table.entries) heap = .ok (some file) ∧
        decodeFile file = .ok ⟨.ok, Slots.ofEntries table.entries, table.entries.length⟩) ∧
    (∀ contents : List UInt8, ∃ result, decodeFile contents = .ok result ∧
      ((result.status = .ok ∧ (∃ table : Table, ⟨result.slots, result.count⟩ =
            Store.ofEntries table.entries) ∧
          ∀ heap, encodeStore ⟨result.slots, result.count⟩ heap = .ok (some contents)) ∨
        (result.status = .corrupt ∧ result.slots = Slots.empty ∧ result.count = 0))) := by
  constructor
  · intro table heap
    exact ⟨storeFormat.print table.entries, encodeStore_eq table.valid heap,
      decodeFile_print table.valid⟩
  · intro contents
    refine ⟨.ofTable (storeFormat.decode contents), sharedValuesLoadFile_eq contents, ?_⟩
    cases hd : storeFormat.decode contents with
    | none =>
      right
      exact ⟨rfl, rfl, rfl⟩
    | some es =>
      left
      obtain ⟨hv, rfl⟩ := (storeFormat.decode_eq_some_iff contents es).1 hd
      have hvalid := (storeFormat_valid es).1 hv
      exact ⟨rfl, ⟨⟨es, hvalid⟩, rfl⟩, fun heap => encodeStore_eq hvalid heap⟩

end Bijection

end Asm2Runtime.SharedFile
