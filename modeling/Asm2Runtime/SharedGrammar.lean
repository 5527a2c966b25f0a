import Asm2Runtime.Format
import Asm2Runtime.SharedFile
import Mathlib.Data.List.Nodup
import Mathlib.Data.Nat.Bitwise

/-!
# The store file as a canonical format

The file format is composed from the canonical combinators, so its two laws hold
by construction. The encoder writes what the format prints.
-/

namespace Asm2Runtime.SharedFile

open CanonicalFormat

section Words

/-- A byte moved above `k` bits that are already there. -/
theorem or_shift_toNat {low high k : Nat} (hlow : low < 2 ^ k) (h : high * 2 ^ k < 2 ^ 32) :
    low ||| high <<< k % 2 ^ 32 = low + 2 ^ k * high := by
  have hmod : high <<< k % 2 ^ 32 = high <<< k := by
    rw [Nat.shiftLeft_eq]
    exact Nat.mod_eq_of_lt h
  rw [hmod, Nat.or_comm, ← Nat.shiftLeft_add_eq_or_of_lt hlow, Nat.shiftLeft_eq,
    Nat.mul_comm, Nat.add_comm]

theorem joinU32_toNat (a b c d : UInt8) :
    (joinU32 a b c d).toNat =
      a.toNat + 2 ^ 8 * b.toNat + 2 ^ 16 * c.toNat + 2 ^ 24 * d.toNat := by
  have ha := a.toNat_lt
  have hb := b.toNat_lt
  have hc := c.toNat_lt
  have hd := d.toNat_lt
  have h : (joinU32 a b c d).toNat =
      ((a.toNat ||| b.toNat <<< 8 % 2 ^ 32) ||| c.toNat <<< 16 % 2 ^ 32) |||
        d.toNat <<< 24 % 2 ^ 32 := rfl
  have h1 : a.toNat ||| b.toNat <<< 8 % 2 ^ 32 = a.toNat + 2 ^ 8 * b.toNat :=
    or_shift_toNat ha (by omega)
  have h2 : (a.toNat + 2 ^ 8 * b.toNat) ||| c.toNat <<< 16 % 2 ^ 32 =
      a.toNat + 2 ^ 8 * b.toNat + 2 ^ 16 * c.toNat :=
    or_shift_toNat (by omega) (by omega)
  rw [h, h1, h2]
  exact or_shift_toNat (by omega) (by omega)

/-- Reading four bytes and writing them again changes none of them. -/
theorem putU32Le_joinU32 (a b c d : UInt8) : putU32Le (joinU32 a b c d) = [a, b, c, d] := by
  have h := joinU32_toNat a b c d
  have ha := a.toNat_lt
  have hb := b.toNat_lt
  have hc := c.toNat_lt
  have hd := d.toNat_lt
  simp only [putU32Le, List.cons.injEq, and_true]
  refine ⟨?_, ?_, ?_, ?_⟩ <;> apply UInt8.toNat_inj.1 <;>
    simp [UInt32.toNat_toUInt8, UInt32.toNat_shiftRight, Nat.shiftRight_eq_div_pow, h] <;> omega

theorem joinU32_putU32Le (v : UInt32) :
    joinU32 v.toUInt8 (v >>> 8).toUInt8 (v >>> 16).toUInt8 (v >>> 24).toUInt8 = v := by
  apply UInt32.toNat_inj.1
  have hv := v.toNat_lt
  rw [joinU32_toNat]
  simp [UInt32.toNat_toUInt8, UInt32.toNat_shiftRight, Nat.shiftRight_eq_div_pow]
  omega

end Words

section Machine

@[simp] theorem ok_bind {α β : Type} (a : α) (f : α → Checked β) :
    ((Except.ok a : Checked α) >>= f) = f a := rfl

@[simp] theorem return_eq {α : Type} (a : α) : (pure a : Checked α) = .ok a := rfl

theorem sizeAdd_eq {a b : Nat} (h : a + b < 2 ^ 32) : sizeAdd a b = .ok (a + b) := by
  simp only [sizeAdd, if_pos h]

theorem sizeSub_eq {a b : Nat} (h : b ≤ a) : sizeSub a b = .ok (a - b) := by
  simp only [sizeSub, if_pos h]

/-- A part of a buffer that stands between two others is read back as it is. -/
theorem readSpan_append (front bytes back : List UInt8) {offset size : Nat}
    (ho : offset = front.length) (hs : size = bytes.length) :
    readSpan (front ++ bytes ++ back) offset size = .ok bytes := by
  subst ho hs
  simp [readSpan]

/-- A write into the gap behind the front leaves the rest of the gap. -/
theorem writeSpan_append (front gap bytes : List UInt8) {offset : Nat}
    (ho : offset = front.length) (h : bytes.length ≤ gap.length) :
    writeSpan (front ++ gap) offset bytes =
      .ok (front ++ bytes ++ gap.drop bytes.length) := by
  subst ho
  simp [writeSpan, List.drop_append, h]

@[simp] theorem putU32Le_length (value : UInt32) : (putU32Le value).length = 4 := rfl

theorem getU32Le_append (front back : List UInt8) (value : UInt32) {offset : Nat}
    (ho : offset = front.length) :
    getU32Le (front ++ putU32Le value ++ back) offset = .ok value := by
  have hr := readSpan_append front (putU32Le value) back ho (putU32Le_length value).symm
  simp only [getU32Le, hr, ok_bind]
  simp only [putU32Le, return_eq, joinU32_putU32Le]

end Machine

section Grammar

def word : Format UInt8 UInt32 where
  print := putU32Le
  parse
    | a :: b :: c :: d :: rest => some (joinU32 a b c d, rest)
    | _ => none
  Valid _ := True
  parse_print value rest _ := by
    simp only [putU32Le, List.cons_append, List.nil_append, joinU32_putU32Le]
  print_parse s value rest h := by
    match s, h with
    | a :: b :: c :: d :: rest, h =>
      simp only [Option.some.injEq, Prod.mk.injEq] at h
      obtain ⟨rfl, rfl⟩ := h
      simp [putU32Le_joinU32]

/-- The bytes of a string, when there is no terminator among them. -/
def CString.ofBytes (bytes : List UInt8) : Option CString :=
  if h : (0 : UInt8) ∉ bytes then some ⟨bytes, h⟩ else none

theorem CString.ofBytes_eq_some_iff (bytes : List UInt8) (s : CString) :
    CString.ofBytes bytes = some s ↔ s.bytes = bytes := by
  unfold CString.ofBytes
  constructor
  · intro h
    split at h
    · simp only [Option.some.injEq] at h
      rw [← h]
    · simp at h
  · intro h
    subst h
    rw [dif_pos s.noNul]

/-- The bytes of a C string whose length is known before. -/
def text (size : Nat) : Format UInt8 CString :=
  (Format.take size).narrow CString.ofBytes CString.bytes CString.ofBytes_eq_some_iff

/-- The bounds the decoder puts on the two lengths of an entry. -/
def sizesValid (sizes : UInt32 × UInt32) : Prop :=
  sizes.1.toNat ≠ 0 ∧ sizes.1.toNat ≤ sharedMaxKeySize ∧ sizes.2.toNat ≤ sharedMaxValueSize

instance : DecidablePred sizesValid := fun _ => inferInstanceAs (Decidable (_ ∧ _ ∧ _))

def entryHeader (e : Entry) : UInt32 × UInt32 := (.ofNat e.1.length, .ofNat e.2.length)

theorem entryHeader_eq (sizes : UInt32 × UInt32) (e : Entry)
    (h : ((text sizes.1.toNat).pair (text sizes.2.toNat)).Valid e) : entryHeader e = sizes := by
  have h1 : e.1.length = sizes.1.toNat := h.1
  have h2 : e.2.length = sizes.2.toNat := h.2
  simp [entryHeader, h1, h2]

/-- Two sizes, the key and the value. -/
def entryFormat : Format UInt8 Entry :=
  ((word.pair word).refine sizesValid).headed entryHeader
    (fun sizes => (text sizes.1.toNat).pair (text sizes.2.toNat)) entryHeader_eq

def payloadOf (es : List Entry) : List UInt8 := es.flatMap entryFormat.print

/-- The magic, and then the version, the count, the payload's size and its checksum. -/
def headerFormat : Format UInt8 (List UInt8 × UInt32 × UInt32 × UInt32 × UInt32) :=
  (Format.take 8).pair (word.pair (word.pair (word.pair word)))

def storeHeader (es : List Entry) : List UInt8 × UInt32 × UInt32 × UInt32 × UInt32 :=
  (sharedMagic, 1, .ofNat es.length, .ofNat (payloadOf es).length, sharedCrc32 (payloadOf es))

/-- The header announces the payload, and no two entries share a key. -/
def storeFormat : Format UInt8 (List Entry) :=
  (headerFormat.refine fun h => h.1 = sharedMagic ∧ h.2.1 = 1 ∧
      h.2.2.1.toNat ≤ sharedMaxEntries).headed storeHeader
    (fun h => (entryFormat.many h.2.2.1.toNat).refine fun es =>
      (es.map Prod.fst).Nodup ∧ storeHeader es = h)
    (fun _ _ h => h.2.2)

end Grammar

section Tables

/-- The bounds the setter and the encoder put on one entry. -/
def ValidEntry (e : Entry) : Prop :=
  0 < e.1.length ∧ e.1.length ≤ sharedMaxKeySize ∧ e.2.length ≤ sharedMaxValueSize

/-- What the file can hold: entries in bounds, keys that differ, and not too many of them. -/
structure ValidTable (es : List Entry) : Prop where
  count_le : es.length ≤ sharedMaxEntries
  nodup : (es.map Prod.fst).Nodup
  entry : ∀ e ∈ es, ValidEntry e

/-- A table that the store may hold. -/
structure Table where
  entries : List Entry
  valid : ValidTable entries

/-- The entries in the first slots, in their order. -/
def Slots.ofEntries (es : List Entry) : Slots :=
  ⟨fun i => es[i]?.map Prod.fst, fun i => es[i]?.map Prod.snd⟩

def Store.ofEntries (es : List Entry) : Store := ⟨Slots.ofEntries es, es.length⟩

theorem nodup_keys_concat {es : List Entry} {e : Entry} (h : (es.map Prod.fst).Nodup)
    (hnew : e.1 ∉ es.map Prod.fst) : ((es ++ [e]).map Prod.fst).Nodup := by
  rw [List.map_append, List.map_singleton, List.nodup_append]
  constructor
  · exact h
  · constructor
    · exact List.nodup_singleton e.1
    · intro k hk k' hk' heq
      rw [List.mem_singleton] at hk'
      subst heq hk'
      exact hnew hk

theorem ofNat_toNat {n : Nat} (h : n < 2 ^ 32) : (UInt32.ofNat n).toNat = n := by
  simp only [UInt32.toNat_ofNat']
  exact Nat.mod_eq_of_lt h

theorem entryFormat_valid (e : Entry) : entryFormat.Valid e ↔ ValidEntry e := by
  constructor
  · intro h
    have hs : sizesValid (entryHeader e) := h.1.2
    have h1 : e.1.length = (entryHeader e).1.toNat := h.2.1
    have h2 : e.2.length = (entryHeader e).2.toNat := h.2.2
    rw [ValidEntry, h1, h2]
    exact ⟨Nat.pos_of_ne_zero hs.1, hs.2⟩
  · intro h
    have hk : e.1.length ≤ 1024 := h.2.1
    have hv : e.2.length ≤ 256 * 1024 := h.2.2
    have h1 : (entryHeader e).1.toNat = e.1.length := ofNat_toNat (by omega)
    have h2 : (entryHeader e).2.toNat = e.2.length := ofNat_toNat (by omega)
    constructor
    · constructor
      · exact ⟨trivial, trivial⟩
      · rw [sizesValid, h1, h2]
        exact ⟨Nat.pos_iff_ne_zero.1 h.1, h.2⟩
    · exact ⟨h1.symm, h2.symm⟩

theorem storeFormat_valid (es : List Entry) : storeFormat.Valid es ↔ ValidTable es := by
  constructor
  · intro h
    have hc : (UInt32.ofNat es.length).toNat ≤ sharedMaxEntries := h.1.2.2.2
    have hl : es.length = (UInt32.ofNat es.length).toNat := h.2.1.1
    have he : ∀ e ∈ es, entryFormat.Valid e := h.2.1.2
    constructor
    · omega
    · exact h.2.2.1
    · intro e hm
      exact (entryFormat_valid e).1 (he e hm)
  · intro h
    have hc : es.length ≤ 128 := h.count_le
    have hl : (UInt32.ofNat es.length).toNat = es.length := ofNat_toNat (by omega)
    have hn : (UInt32.ofNat es.length).toNat ≤ sharedMaxEntries := by
      rw [hl]
      exact h.count_le
    constructor
    · exact ⟨⟨rfl, trivial, trivial, trivial, trivial⟩, rfl, rfl, hn⟩
    · constructor
      · exact ⟨hl.symm, fun e hm => (entryFormat_valid e).2 (h.entry e hm)⟩
      · exact ⟨h.nodup, rfl⟩

end Tables

section Encoder

theorem entryFormat_print (e : Entry) :
    entryFormat.print e = putU32Le (.ofNat e.1.length) ++ putU32Le (.ofNat e.2.length) ++
      (e.1.bytes ++ e.2.bytes) := rfl

theorem entryFormat_print_length (e : Entry) :
    (entryFormat.print e).length = 8 + e.1.length + e.2.length := by
  simp only [entryFormat_print, List.length_append, putU32Le_length, CString.length]
  omega

theorem payloadOf_cons (e : Entry) (es : List Entry) :
    payloadOf (e :: es) = entryFormat.print e ++ payloadOf es := rfl

theorem payloadOf_length_le (es : List Entry) (h : ∀ e ∈ es, ValidEntry e) :
    (payloadOf es).length ≤ es.length * (8 + sharedMaxKeySize + sharedMaxValueSize) := by
  induction es with
  | nil => simp [payloadOf]
  | cons e es ih =>
    have he : ValidEntry e := h e (by simp)
    have hes := ih fun e' hm => h e' (by simp [hm])
    have hk := he.2.1
    have hv := he.2.2
    rw [payloadOf_cons, List.length_append, entryFormat_print_length, List.length_cons,
      Nat.succ_mul]
    omega

/-- No table outgrows the bound that the file's header has for the payload. -/
theorem ValidTable.payload_le {es : List Entry} (h : ValidTable es) :
    (payloadOf es).length ≤ sharedMaxPayloadSize := by
  have hl := payloadOf_length_le es h.entry
  have hm := Nat.mul_le_mul_right (8 + sharedMaxKeySize + sharedMaxValueSize) h.count_le
  exact Nat.le_trans hl hm

theorem ofEntries_key (before after : List Entry) (e : Entry) :
    (Store.ofEntries (before ++ e :: after)).keys before.length = some e.1 := by
  simp [Store.ofEntries, Slots.ofEntries]

theorem ofEntries_value (before after : List Entry) (e : Entry) :
    (Store.ofEntries (before ++ e :: after)).values before.length = some e.2 := by
  simp [Store.ofEntries, Slots.ofEntries]

/-- The loop adds up the entries that are still to come. -/
theorem encodedSizeFrom_eq (before after : List Entry) (total : Nat)
    (h : ∀ e ∈ after, ValidEntry e)
    (hroom : total + after.length * (8 + sharedMaxKeySize + sharedMaxValueSize) ≤
      sharedMaxPayloadSize) :
    encodedSizeFrom (Store.ofEntries (before ++ after)) after.length before.length total =
      .ok (some (total + (payloadOf after).length)) := by
  induction after generalizing before total with
  | nil => simp [encodedSizeFrom, payloadOf]
  | cons e after ih =>
    have he : ValidEntry e := h e (by simp)
    have hk : 0 < e.1.length ∧ e.1.length ≤ 1024 := ⟨he.1, he.2.1⟩
    have hv : e.2.length ≤ 256 * 1024 := he.2.2
    have hmax : sharedMaxPayloadSize = 33686528 := rfl
    have hslot : 8 + sharedMaxKeySize + sharedMaxValueSize = 263176 := rfl
    rw [List.length_cons, hslot, hmax] at hroom
    have hkn : e.1.nlength (sharedMaxKeySize + 1) = e.1.length :=
      Nat.min_eq_left (Nat.le_succ_of_le he.2.1)
    have hvn : e.2.nlength (sharedMaxValueSize + 1) = e.2.length :=
      Nat.min_eq_left (Nat.le_succ_of_le he.2.2)
    have hbad : ¬(e.1.length = 0 ∨ e.1.length > sharedMaxKeySize ∨
        e.2.length > sharedMaxValueSize) := by
      simp only [sharedMaxKeySize, sharedMaxValueSize]
      omega
    have hfull : ¬total > 33686528 - 8 - e.1.length - e.2.length := by omega
    have hih := ih (before ++ [e]) (total + (8 + e.1.length + e.2.length))
      (fun e' hm => h e' (by simp [hm])) (by rw [hslot, hmax]; omega)
    rw [List.append_assoc, List.singleton_append, List.length_append] at hih
    simp only [List.length_cons, encodedSizeFrom, ofEntries_key, ofEntries_value, hkn, hvn,
      if_neg hbad, hmax]
    rw [sizeSub_eq (by omega), ok_bind, sizeSub_eq (by omega), ok_bind, sizeSub_eq (by omega),
      ok_bind, if_neg hfull, sizeAdd_eq (by omega), ok_bind, sizeAdd_eq (by omega), ok_bind,
      sizeAdd_eq (by omega), ok_bind]
    rw [payloadOf_cons, List.length_append, entryFormat_print_length]
    simpa only [List.length_singleton, Nat.add_assoc] using hih

theorem sharedValuesEncodedSize_eq {es : List Entry} (h : ValidTable es) :
    sharedValuesEncodedSize (Store.ofEntries es) = .ok (some (payloadOf es).length) := by
  have hcount : ¬(Store.ofEntries es).count > sharedMaxEntries := Nat.not_lt.2 h.count_le
  have hroom : 0 + es.length * (8 + sharedMaxKeySize + sharedMaxValueSize) ≤
      sharedMaxPayloadSize := by
    rw [Nat.zero_add]
    exact Nat.mul_le_mul_right _ h.count_le
  have hloop := encodedSizeFrom_eq [] es 0 h.entry hroom
  rw [List.nil_append, Nat.zero_add] at hloop
  rw [sharedValuesEncodedSize, if_neg hcount]
  exact hloop

/-- Whatever the block held before, the loop leaves the payload in it. -/
theorem fillPayload_eq (before after : List Entry) (front gap : List UInt8)
    (hgap : gap.length = (payloadOf after).length)
    (hsize : front.length + gap.length < 2 ^ 32) :
    fillPayload (Store.ofEntries (before ++ after)) after.length before.length front.length
      (front ++ gap) = .ok (front ++ payloadOf after) := by
  induction after generalizing before front gap with
  | nil =>
    have hnil : gap = [] := List.eq_nil_of_length_eq_zero hgap
    subst hnil
    rfl
  | cons e after ih =>
    rw [payloadOf_cons, List.length_append, entryFormat_print_length] at hgap
    have hk : e.1.bytes.length = e.1.length := rfl
    have hv : e.2.bytes.length = e.2.length := rfl
    -- The gap that is left once the four pieces of the entry are in place.
    have hih := ih (before ++ [e]) (front ++ entryFormat.print e)
      (gap.drop (8 + e.1.length + e.2.length))
      (by rw [List.length_drop]; omega)
      (by rw [List.length_append, List.length_drop, entryFormat_print_length]; omega)
    rw [List.append_assoc, List.singleton_append, List.length_append, List.length_append,
      List.length_singleton, entryFormat_print_length] at hih
    simp only [List.length_cons, fillPayload, ofEntries_key, ofEntries_value, deref, ok_bind]
    rw [writeSpan_append front gap _ rfl (by rw [putU32Le_length]; omega), ok_bind,
      sizeAdd_eq (by omega), ok_bind,
      writeSpan_append _ _ _ (by simp) (by simp only [List.length_drop, putU32Le_length]; omega),
      ok_bind, sizeAdd_eq (by omega), ok_bind,
      writeSpan_append _ _ _ (by simp) (by simp only [List.length_drop, putU32Le_length]; omega),
      ok_bind, sizeAdd_eq (by omega), ok_bind,
      writeSpan_append _ _ _ (by simp only [List.length_append, putU32Le_length, hk])
        (by simp only [List.length_drop, putU32Le_length]; omega),
      ok_bind, sizeAdd_eq (by omega), ok_bind]
    rw [payloadOf_cons, ← List.append_assoc]
    have hplace : ∀ x y z w : List UInt8,
        front ++ x ++ y ++ z ++ w = front ++ (x ++ y ++ (z ++ w)) := by simp
    simp only [List.drop_drop, putU32Le_length, hplace, ← entryFormat_print, hk, hv]
    convert hih using 2
    omega

theorem storeFormat_print (es : List Entry) :
    storeFormat.print es =
      sharedHeader es.length (payloadOf es).length (payloadOf es) ++ payloadOf es := by
  have hheader : headerFormat.print (storeHeader es) =
      sharedHeader es.length (payloadOf es).length (payloadOf es) := rfl
  rw [← hheader]
  rfl

theorem sharedHeader_length (count payloadSize : Nat) (payload : List UInt8) :
    (sharedHeader count payloadSize payload).length = sharedHeaderSize := rfl

theorem malloc_length (fill : Nat → UInt8) (size : Nat) :
    ((List.range size).map fill).length = size := by simp

/-- The image of a valid table, for an allocation that succeeds. -/
theorem sharedValuesImage_eq {es : List Entry} (h : ValidTable es) (fill : Nat → UInt8) :
    sharedValuesImage (Store.ofEntries es) (some fill) =
      .ok (some (sharedHeader es.length (payloadOf es).length (payloadOf es), payloadOf es)) := by
  have hsize : (payloadOf es).length ≤ 33686528 := h.payload_le
  have hblock : (if (payloadOf es).length = 0 then some []
      else malloc (some fill) (payloadOf es).length) =
      some ((List.range (payloadOf es).length).map fill) := by
    by_cases hz : (payloadOf es).length = 0
    · simp [hz]
    · simp [hz, malloc]
  have hfill := fillPayload_eq [] es [] ((List.range (payloadOf es).length).map fill)
    (malloc_length fill _) (by rw [malloc_length, List.length_nil]; omega)
  simp only [List.nil_append, List.length_nil] at hfill
  rw [sharedValuesImage, sharedValuesEncodedSize_eq h, ok_bind]
  simp only [hblock]
  rw [show (Store.ofEntries es).count = es.length from rfl, hfill, ok_bind]
  rfl

end Encoder

end Asm2Runtime.SharedFile
