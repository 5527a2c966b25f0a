import Asm2Runtime.AndroidManifest

/-!
# The layout of a binary manifest

What `parse_android_manifest` is made for: a document written chunk by chunk, with its
strings in one pool. The parser finds in it what was written.
-/

namespace Asm2Runtime.AndroidManifest

open RelativePath PayloadPlan

section Numbers

def le16 (n : Nat) : Bytes := [UInt8.ofNat n, UInt8.ofNat (n / 256)]

def le32 (n : Nat) : Bytes :=
  [UInt8.ofNat n, UInt8.ofNat (n / 256), UInt8.ofNat (n / 65536), UInt8.ofNat (n / 16777216)]

variable {front back : Bytes} {n offset : Nat}

@[simp] theorem le16_length (n : Nat) : (le16 n).length = 2 := rfl

@[simp] theorem le32_length (n : Nat) : (le32 n).length = 4 := rfl

theorem unpack16_at (hoffset : offset = front.length) (hn : n < 65536) :
    unpack16 (front ++ (le16 n ++ back)) offset = .ok n := by
  rw [unpack16, hoffset, List.drop_left]
  simp only [le16, List.cons_append, List.nil_append, UInt8.toNat_ofNat']
  congr 1
  omega

theorem unpack32_at (hoffset : offset = front.length) (hn : n < 4294967296) :
    unpack32 (front ++ (le32 n ++ back)) offset = .ok n := by
  rw [unpack32, hoffset, List.drop_left]
  simp only [le32, List.cons_append, List.nil_append, UInt8.toNat_ofNat']
  congr 1
  omega

theorem byteAt_at {byte : UInt8} (hoffset : offset = front.length) :
    byteAt (front ++ byte :: back) offset = .ok byte.toNat := by
  rw [byteAt, hoffset]
  simp

/-- A field of a record, behind the fields in front of it. -/
theorem unpack16_field {data : Bytes} (front back : Bytes) (hdata : data = front ++ (le16 n ++ back))
    (hoffset : offset = front.length) (hn : n < 65536) : unpack16 data offset = .ok n :=
  hdata ▸ unpack16_at hoffset hn

theorem unpack32_field {data : Bytes} (front back : Bytes) (hdata : data = front ++ (le32 n ++ back))
    (hoffset : offset = front.length) (hn : n < 4294967296) : unpack32 data offset = .ok n :=
  hdata ▸ unpack32_at hoffset hn

theorem byteAt_field {data : Bytes} {byte : UInt8} (front back : Bytes)
    (hdata : data = front ++ byte :: back) (hoffset : offset = front.length) :
    byteAt data offset = .ok byte.toNat :=
  hdata ▸ byteAt_at hoffset

theorem slice_at {middle : Bytes} {start stop : Nat} (hstart : start = front.length)
    (hstop : stop = front.length + middle.length) :
    slice (front ++ (middle ++ back)) start stop = middle := by
  rw [slice, hstart, hstop, ← List.append_assoc, ← List.length_append, List.take_left,
    List.drop_left]

end Numbers

section Texts

def utf16Units (c : Char) : Bytes :=
  if c.toNat < 0x10000 then le16 c.toNat
  else le16 (0xd800 + (c.toNat - 0x10000) / 0x400) ++ le16 (0xdc00 + (c.toNat - 0x10000) % 0x400)

def utf16Encode (text : Text) : Bytes := text.flatMap utf16Units

def utf8Encode (text : Text) : Bytes := text.flatMap String.utf8EncodeChar

theorem units_of_le16 {n : Nat} (h : n < 65536) :
    (UInt8.ofNat n).toNat + 256 * (UInt8.ofNat (n / 256)).toNat = n := by
  simp only [UInt8.toNat_ofNat']
  omega

theorem utf16Decode_units (c : Char) (rest : Bytes) :
    utf16Decode (utf16Units c ++ rest) = (utf16Decode rest).map (c :: ·) := by
  have hvalid : c.toNat < 0xd800 ∨ 0xdfff < c.toNat ∧ c.toNat < 0x110000 := c.valid
  rw [utf16Units]
  by_cases hshort : c.toNat < 0x10000
  · rw [if_pos hshort, le16, List.cons_append, List.cons_append, List.nil_append,
      utf16Decode.eq_def]
    dsimp only
    rw [units_of_le16 hshort, if_pos (by omega), Char.ofNat_toNat]
  · rw [if_neg hshort, le16, le16]
    simp only [List.cons_append, List.nil_append]
    rw [utf16Decode, units_of_le16 (by omega), if_neg (by omega)]
    simp only [units_of_le16 (n := 0xdc00 + (c.toNat - 0x10000) % 0x400) (by omega)]
    rw [if_pos (by omega)]
    have hback : 0x10000 + (0xd800 + (c.toNat - 0x10000) / 0x400 - 0xd800) * 0x400 +
        (0xdc00 + (c.toNat - 0x10000) % 0x400 - 0xdc00) = c.toNat := by
      omega
    rw [hback, Char.ofNat_toNat]

theorem utf16Decode_encode (text : Text) : utf16Decode (utf16Encode text) = some text := by
  induction text with
  | nil => rfl
  | cons c text ih =>
    rw [utf16Encode, List.flatMap_cons, utf16Decode_units, ← utf16Encode, ih]
    rfl

theorem utf8Decode_encode (text : Text) : utf8Decode (utf8Encode text) = some text := by
  have hdecode : text.utf8Encode.utf8Decode? = some text.toArray := List.utf8Decode?_utf8Encode
  have hencode : (utf8Encode text).toByteArray = text.utf8Encode := rfl
  rw [utf8Decode, hencode, hdecode]
  simp

theorem utf16Units_even (c : Char) : (utf16Units c).length % 2 = 0 := by
  rw [utf16Units]
  split <;> simp

theorem utf16Encode_even (text : Text) : (utf16Encode text).length % 2 = 0 := by
  induction text with
  | nil => rfl
  | cons c text ih =>
    have hunits := utf16Units_even c
    rw [utf16Encode, List.flatMap_cons, List.length_append, ← utf16Encode]
    omega

def encodeLength8 (n : Nat) : Bytes :=
  if n < 0x80 then [UInt8.ofNat n] else [UInt8.ofNat (0x80 + n / 0x100), UInt8.ofNat n]

def encodeLength16 (n : Nat) : Bytes :=
  if n < 0x8000 then le16 n else le16 (0x8000 + n / 0x10000) ++ le16 (n % 0x10000)

/-- A string of a pool: its lengths, its text and an end. -/
def encodeString (utf8 : Bool) (text : Text) : Bytes :=
  if utf8 then
    encodeLength8 ((utf16Encode text).length / 2) ++
      (encodeLength8 (utf8Encode text).length ++ (utf8Encode text ++ [0]))
  else encodeLength16 ((utf16Encode text).length / 2) ++ (utf16Encode text ++ [0, 0])

/-- The lengths that a pool can say. -/
def Sayable (utf8 : Bool) (text : Text) : Prop :=
  if utf8 then (utf16Encode text).length / 2 < 0x8000 ∧ (utf8Encode text).length < 0x8000
  else (utf16Encode text).length / 2 < 0x80000000

instance (utf8 : Bool) (text : Text) : Decidable (Sayable utf8 text) :=
  inferInstanceAs (Decidable (if utf8 then _ else _))

variable {front back : Bytes} {n offset : Nat}

theorem decodeLength8_at (hoffset : offset = front.length) (hn : n < 0x8000) :
    decodeLength8 (front ++ (encodeLength8 n ++ back)) offset =
      .ok (n, offset + (encodeLength8 n).length) := by
  rw [encodeLength8]
  split
  · next hshort =>
    have hfirst : byteAt (front ++ UInt8.ofNat n :: back) offset = .ok _ := byteAt_at hoffset
    rw [UInt8.toNat_ofNat', Nat.mod_eq_of_lt (by omega)] at hfirst
    rw [List.singleton_append, decodeLength8, hfirst]
    exact bind_ok.mpr ⟨n, rfl, if_neg (by omega)⟩
  · next hlong =>
    have hfirst : byteAt (front ++ UInt8.ofNat (0x80 + n / 0x100) :: UInt8.ofNat n :: back)
        offset = .ok _ := byteAt_at hoffset
    have hnext : offset + 1 = (front ++ [UInt8.ofNat (0x80 + n / 0x100)]).length := by
      simp [hoffset]
    have hsecond : byteAt (_ ++ UInt8.ofNat n :: back) (offset + 1) = .ok _ := byteAt_at hnext
    rw [List.append_assoc, List.singleton_append, UInt8.toNat_ofNat'] at hsecond
    rw [UInt8.toNat_ofNat', Nat.mod_eq_of_lt (by omega)] at hfirst
    rw [List.cons_append, List.singleton_append, decodeLength8, hfirst]
    refine bind_ok.mpr ⟨_, rfl, ?_⟩
    rw [if_pos (by omega), hsecond]
    refine bind_ok.mpr ⟨_, rfl, ?_⟩
    have hback : (0x80 + n / 0x100) % 0x80 * 0x100 + n % 2 ^ 8 = n := by omega
    rw [hback]
    rfl

theorem decodeLength16_at (hoffset : offset = front.length) (hn : n < 0x80000000) :
    decodeLength16 (front ++ (encodeLength16 n ++ back)) offset =
      .ok (n, offset + (encodeLength16 n).length) := by
  rw [encodeLength16]
  split
  · next hshort =>
    rw [decodeLength16, unpack16_at hoffset (by omega)]
    exact bind_ok.mpr ⟨n, rfl, if_neg (by omega)⟩
  · next hlong =>
    have hnext : offset + 2 = (front ++ le16 (0x8000 + n / 0x10000)).length := by
      simp [hoffset]
    have hsecond : unpack16 (front ++ (le16 (0x8000 + n / 0x10000) ++ (le16 (n % 0x10000) ++ back)))
        (offset + 2) = .ok (n % 0x10000) := by
      rw [← List.append_assoc front]
      exact unpack16_at hnext (by omega)
    rw [List.append_assoc, decodeLength16, unpack16_at hoffset (by omega)]
    refine bind_ok.mpr ⟨_, rfl, ?_⟩
    rw [if_pos (by omega), hsecond]
    refine bind_ok.mpr ⟨_, rfl, ?_⟩
    have hback : (0x8000 + n / 0x10000) % 0x8000 * 0x10000 + n % 0x10000 = n := by omega
    rw [hback]
    rfl

theorem stringBounds_utf8 (hoffset : offset = front.length) {m : Nat} (hn : n < 0x8000)
    (hm : m < 0x8000) :
    stringBounds (front ++ (encodeLength8 n ++ (encodeLength8 m ++ back))) true offset =
      .ok (offset + (encodeLength8 n).length + (encodeLength8 m).length, m) := by
  have hnext : offset + (encodeLength8 n).length = (front ++ encodeLength8 n).length := by
    rw [List.length_append, hoffset]
  have hsecond : decodeLength8 (front ++ encodeLength8 n ++ (encodeLength8 m ++ back)) _ = .ok _ :=
    decodeLength8_at hnext hm
  rw [List.append_assoc] at hsecond
  rw [stringBounds, if_pos rfl, decodeLength8_at hoffset hn]
  exact bind_ok.mpr ⟨_, rfl, bind_ok.mpr ⟨_, hsecond, rfl⟩⟩

theorem stringBounds_utf16 (hoffset : offset = front.length) (hn : n < 0x80000000) :
    stringBounds (front ++ (encodeLength16 n ++ back)) false offset =
      .ok (offset + (encodeLength16 n).length, n * 2) := by
  rw [stringBounds, if_neg Bool.false_ne_true, decodeLength16_at hoffset hn]
  exact bind_ok.mpr ⟨_, rfl, rfl⟩

/-- A string is read where it was written. -/
theorem poolString_at {utf8 : Bool} {text : Text} {chunkSize : Nat} (hoffset : offset = front.length)
    (hsayable : Sayable utf8 text) (hsize : offset + (encodeString utf8 text).length ≤ chunkSize) :
    poolString (front ++ (encodeString utf8 text ++ back)) chunkSize utf8 offset = .ok text := by
  cases utf8 with
  | true =>
    obtain ⟨hunits, hbytes⟩ : _ ∧ _ := hsayable
    simp only [encodeString, if_true, List.length_append, List.length_singleton] at hsize
    have hslice : slice (front ++ (encodeLength8 ((utf16Encode text).length / 2) ++
        (encodeLength8 (utf8Encode text).length ++ (utf8Encode text ++ ([0] ++ back)))))
        (offset + (encodeLength8 ((utf16Encode text).length / 2)).length +
          (encodeLength8 (utf8Encode text).length).length)
        (offset + (encodeLength8 ((utf16Encode text).length / 2)).length +
          (encodeLength8 (utf8Encode text).length).length + (utf8Encode text).length) =
        utf8Encode text := by
      rw [← List.append_assoc, ← List.append_assoc]
      exact slice_at (by simp [hoffset, Nat.add_assoc]) (by simp [hoffset, Nat.add_assoc])
    simp only [encodeString, if_true, List.append_assoc]
    rw [poolString, if_neg (by omega), stringBounds_utf8 hoffset hunits hbytes]
    refine bind_ok.mpr ⟨_, rfl, ?_⟩
    rw [if_neg (by omega), hslice]
    exact congrArg decoded (utf8Decode_encode text)
  | false =>
    have hunits : (utf16Encode text).length / 2 < 0x80000000 := hsayable
    have heven : (utf16Encode text).length / 2 * 2 = (utf16Encode text).length := by
      have hparity := utf16Encode_even text
      omega
    simp only [encodeString, Bool.false_eq_true, if_false, List.length_append, List.length_cons,
      List.length_nil] at hsize
    have hslice : slice (front ++ (encodeLength16 ((utf16Encode text).length / 2) ++
        (utf16Encode text ++ ([0, 0] ++ back))))
        (offset + (encodeLength16 ((utf16Encode text).length / 2)).length)
        (offset + (encodeLength16 ((utf16Encode text).length / 2)).length +
          (utf16Encode text).length) = utf16Encode text := by
      rw [← List.append_assoc]
      exact slice_at (by simp [hoffset]) (by simp [hoffset, Nat.add_assoc])
    simp only [encodeString, Bool.false_eq_true, if_false, List.append_assoc]
    rw [poolString, if_neg (by omega), stringBounds_utf16 hoffset hunits]
    refine bind_ok.mpr ⟨_, rfl, ?_⟩
    dsimp only
    rw [heven, if_neg (by omega), hslice]
    exact congrArg decoded (utf16Decode_encode text)

end Texts

section Pools

/-- The offsets of strings written one behind the other. -/
def offsetsFrom (utf8 : Bool) : Nat → List Text → List Nat
  | _, [] => []
  | start, text :: strings =>
    start :: offsetsFrom utf8 (start + (encodeString utf8 text).length) strings

def encodeStrings (utf8 : Bool) (strings : List Text) : Bytes :=
  strings.flatMap (encodeString utf8)

def encodeOffsets (offsets : List Nat) : Bytes := offsets.flatMap le32

/-- The size of a pool, whose padding and styles nothing reads. -/
def poolSize (utf8 : Bool) (strings : List Text) (padding : Bytes) : Nat :=
  28 + 4 * strings.length + (encodeStrings utf8 strings).length + padding.length

def encodePool (utf8 : Bool) (strings : List Text) (padding : Bytes) : Bytes :=
  le16 1 ++ (le16 28 ++ (le32 (poolSize utf8 strings padding) ++ (le32 strings.length ++ (le32 0 ++
    (le32 (if utf8 then 0x100 else 0) ++ (le32 (28 + 4 * strings.length) ++ (le32 0 ++
      (encodeOffsets (offsetsFrom utf8 0 strings) ++ (encodeStrings utf8 strings ++ padding)))))))))

/-- A pool that can be written. -/
structure Writable (utf8 : Bool) (strings : List Text) (padding : Bytes) : Prop where
  sayable : ∀ text ∈ strings, Sayable utf8 text
  count : strings.length ≤ 1000000
  size : poolSize utf8 strings padding < 4294967296

variable {utf8 : Bool} {strings : List Text} {padding : Bytes}

theorem offsetsFrom_length (utf8 : Bool) (start : Nat) (strings : List Text) :
    (offsetsFrom utf8 start strings).length = strings.length := by
  induction strings generalizing start with
  | nil => rfl
  | cons text strings ih => rw [offsetsFrom, List.length_cons, ih, List.length_cons]

theorem encodeOffsets_length (offsets : List Nat) :
    (encodeOffsets offsets).length = 4 * offsets.length := by
  induction offsets with
  | nil => rfl
  | cons offset offsets ih =>
    rw [encodeOffsets, List.flatMap_cons, List.length_append, ← encodeOffsets, ih, le32_length,
      List.length_cons]
    omega

theorem offsetsFrom_le {start offset : Nat} (h : offset ∈ offsetsFrom utf8 start strings) :
    offset ≤ start + (encodeStrings utf8 strings).length := by
  induction strings generalizing start with
  | nil => cases h
  | cons text strings ih =>
    rw [encodeStrings, List.flatMap_cons, List.length_append, ← encodeStrings]
    rcases List.mem_cons.mp h with rfl | h
    · omega
    · have hrest := ih h
      omega

theorem encodePool_length : (encodePool utf8 strings padding).length =
    poolSize utf8 strings padding := by
  simp [encodePool, poolSize, encodeOffsets_length, offsetsFrom_length]
  omega

theorem mapM_cons_ok {α β : Type} {f : α → Except ParseFailure β} {x : α} {xs : List α} {y : β}
    {ys : List β} (hx : f x = .ok y) (hxs : xs.mapM f = .ok ys) :
    (x :: xs).mapM f = .ok (y :: ys) := by
  rw [List.mapM_cons, hx]
  exact bind_ok.mpr ⟨y, rfl, bind_ok.mpr ⟨ys, hxs, rfl⟩⟩

/-- The table of offsets is read back. -/
theorem unpack_offsets (offsets : List Nat) (h : ∀ o ∈ offsets, o < 4294967296) (front back : Bytes) :
    (List.range offsets.length).mapM (fun k =>
      unpack32 (front ++ (encodeOffsets offsets ++ back)) (front.length + 4 * k)) = .ok offsets := by
  induction offsets generalizing front with
  | nil => rfl
  | cons offset offsets ih =>
    obtain ⟨hoffset, hrest⟩ := List.forall_mem_cons.mp h
    have hnext := ih hrest (front ++ le32 offset)
    rw [List.length_cons, List.range_succ_eq_map, encodeOffsets, List.flatMap_cons, ← encodeOffsets,
      List.append_assoc]
    refine mapM_cons_ok (unpack32_at (by simp) hoffset) ?_
    rw [List.mapM_map]
    simp only [List.append_assoc, List.length_append, le32_length, Nat.add_assoc] at hnext
    simpa only [Function.comp_def, Nat.succ_eq_add_one, Nat.mul_add, Nat.mul_one, Nat.add_comm 4]
      using hnext

/-- The strings are read back, from some one on. -/
theorem pool_strings (start : Nat) {base chunkSize : Nat} (front back : Bytes)
    (hsayable : ∀ text ∈ strings, Sayable utf8 text) (hbase : base + start = front.length)
    (hsize : base + start + (encodeStrings utf8 strings).length ≤ chunkSize) :
    (offsetsFrom utf8 start strings).mapM (fun item =>
      poolString (front ++ (encodeStrings utf8 strings ++ back)) chunkSize utf8 (base + item)) =
        .ok strings := by
  induction strings generalizing start front with
  | nil => rfl
  | cons text strings ih =>
    obtain ⟨htext, hrest⟩ := List.forall_mem_cons.mp hsayable
    rw [encodeStrings, List.flatMap_cons, ← encodeStrings] at hsize ⊢
    rw [List.length_append] at hsize
    rw [List.append_assoc, offsetsFrom]
    refine mapM_cons_ok (poolString_at hbase htext (by omega)) ?_
    have hnext := ih (start + (encodeString utf8 text).length) (front ++ encodeString utf8 text) hrest
      (by rw [List.length_append]; omega) (by omega)
    rwa [List.append_assoc] at hnext

/-- The header of a pool is read back. -/
theorem poolHeader_encode (h : Writable utf8 strings padding) :
    poolHeader (encodePool utf8 strings padding) =
      .ok ⟨28, poolSize utf8 strings padding, strings.length, utf8, 28 + 4 * strings.length⟩ := by
  have hlength : (encodePool utf8 strings padding).length = poolSize utf8 strings padding :=
    encodePool_length
  have hsize := h.size
  have hcount := h.count
  have hlow : 28 + 4 * strings.length ≤ poolSize utf8 strings padding := by
    rw [poolSize]
    omega
  have htype : unpack16 (encodePool utf8 strings padding) 0 = .ok 1 :=
    unpack16_field [] _ rfl rfl (by omega)
  have hheader : unpack16 (encodePool utf8 strings padding) 2 = .ok 28 :=
    unpack16_field (le16 1) _ rfl rfl (by omega)
  have hsaid : unpack32 (encodePool utf8 strings padding) 4 =
      .ok (poolSize utf8 strings padding) :=
    unpack32_field (le16 1 ++ le16 28) _ rfl rfl hsize
  have hstrings : unpack32 (encodePool utf8 strings padding) 8 = .ok strings.length :=
    unpack32_field (le16 1 ++ le16 28 ++ le32 (poolSize utf8 strings padding)) _ rfl rfl (by omega)
  have hflags : unpack32 (encodePool utf8 strings padding) 16 = .ok (if utf8 then 0x100 else 0) :=
    unpack32_field (le16 1 ++ le16 28 ++ le32 (poolSize utf8 strings padding) ++
      le32 strings.length ++ le32 0) _ rfl rfl (by split <;> omega)
  have hstart : unpack32 (encodePool utf8 strings padding) 20 = .ok (28 + 4 * strings.length) :=
    unpack32_field (le16 1 ++ le16 28 ++ le32 (poolSize utf8 strings padding) ++
      le32 strings.length ++ le32 0 ++ le32 (if utf8 then 0x100 else 0)) _ rfl rfl (by omega)
  have hbit : (if utf8 then 0x100 else 0 : Nat).testBit 8 = utf8 := by
    cases utf8 <;> rfl
  rw [poolHeader, if_neg (by omega), htype, hheader, hsaid]
  refine bind_ok.mpr ⟨_, rfl, bind_ok.mpr ⟨_, rfl, bind_ok.mpr ⟨_, rfl, ?_⟩⟩⟩
  rw [if_neg (by omega), hstrings, hflags, hstart]
  refine bind_ok.mpr ⟨_, rfl, bind_ok.mpr ⟨_, rfl, bind_ok.mpr ⟨_, rfl, ?_⟩⟩⟩
  rw [if_neg (by omega), hbit]
  rfl

/-- What is written as a pool is read as one. -/
theorem androidStringPool_encode (h : Writable utf8 strings padding) :
    androidStringPool (encodePool utf8 strings padding) = .ok strings := by
  let front := le16 1 ++ le16 28 ++ le32 (poolSize utf8 strings padding) ++ le32 strings.length ++
    le32 0 ++ le32 (if utf8 then 0x100 else 0) ++ le32 (28 + 4 * strings.length) ++ le32 0
  let offsets := offsetsFrom utf8 0 strings
  have hpool : encodePool utf8 strings padding =
      front ++ (encodeOffsets offsets ++ (encodeStrings utf8 strings ++ padding)) := rfl
  have hfront : front.length = 28 := rfl
  have hsize := h.size
  rw [poolSize] at hsize
  have hsmall : ∀ o ∈ offsets, o < 4294967296 := by
    intro o ho
    have hle := offsetsFrom_le ho
    omega
  have htable := unpack_offsets offsets hsmall front (encodeStrings utf8 strings ++ padding)
  rw [← hpool, hfront, offsetsFrom_length] at htable
  have hbase : 28 + 4 * strings.length + 0 = (front ++ encodeOffsets offsets).length := by
    rw [List.length_append, hfront, encodeOffsets_length, offsetsFrom_length, Nat.add_zero]
  have hstrings := pool_strings 0 (front ++ encodeOffsets offsets) padding h.sayable hbase
    (show _ ≤ poolSize utf8 strings padding by rw [poolSize]; omega)
  rw [List.append_assoc, ← hpool] at hstrings
  rw [androidStringPool, poolHeader_encode h]
  exact bind_ok.mpr ⟨_, rfl, bind_ok.mpr ⟨offsets, htable, hstrings⟩⟩

end Pools

section Elements

/-- An attribute as it stands in an element: a raw value or, with the index of none, a typed
one, of which type 3 is a string. -/
structure Attribute where
  space : Nat
  name : Nat
  rawValue : Nat
  valueType : UInt8
  valueData : Nat
  deriving DecidableEq, Repr

def Attribute.key (strings : List Text) (a : Attribute) : Text := strings.getD a.name []

def Attribute.text (strings : List Text) (a : Attribute) : Text :=
  if a.rawValue ≠ 0xffffffff then strings.getD a.rawValue []
  else if a.valueType = 3 then strings.getD a.valueData []
  else Nat.toDigits 10 a.valueData

/-- The indices of an attribute lie in the pool. -/
structure Attribute.Holds (strings : List Text) (a : Attribute) : Prop where
  name : a.name < strings.length
  rawValue : a.rawValue < strings.length ∨ a.rawValue = 0xffffffff
  typed : a.rawValue = 0xffffffff → a.valueType = 3 → a.valueData < strings.length
  valueData : a.valueData < 4294967296

def encodeAttribute (a : Attribute) : Bytes :=
  le32 a.space ++ (le32 a.name ++ (le32 a.rawValue ++ (le16 8 ++
    (0 :: a.valueType :: le32 a.valueData))))

def encodeAttributes (attributes : List Attribute) : Bytes := attributes.flatMap encodeAttribute

/-- What the parser takes from an attribute. -/
def enterAttribute (strings : List Text) (found : Found) (a : Attribute) : Found :=
  found.enter (some (a.key strings)) (some (a.text strings))

variable {strings : List Text} {a : Attribute} {attributes : List Attribute} {found : Found}
  {front back : Bytes}

@[simp] theorem encodeAttribute_length (a : Attribute) : (encodeAttribute a).length = 20 := rfl

theorem encodeAttributes_length (attributes : List Attribute) :
    (encodeAttributes attributes).length = 20 * attributes.length := by
  induction attributes with
  | nil => rfl
  | cons a attributes ih =>
    rw [encodeAttributes, List.flatMap_cons, List.length_append, ← encodeAttributes, ih,
      encodeAttribute_length, List.length_cons]
    omega

theorem poolGet_at {index : Nat} (hindex : index < strings.length)
    (hcount : strings.length ≤ 1000000) :
    poolGet strings index = .ok (some (strings.getD index [])) := by
  rw [poolGet, if_neg (by omega)]
  simp [hindex]

theorem attributeValue_at (h : a.Holds strings) (hcount : strings.length ≤ 1000000) :
    attributeValue strings a.rawValue a.valueType.toNat a.valueData =
      .ok (some (a.text strings)) := by
  rw [attributeValue, Attribute.text]
  split
  · next hraw => exact poolGet_at (h.rawValue.resolve_right hraw) hcount
  · next hraw =>
    have hnone : a.rawValue = 0xffffffff := by omega
    have htype : a.valueType.toNat = 3 ↔ a.valueType = 3 := by
      rw [← UInt8.toNat_inj]
      rfl
    by_cases htyped : a.valueType = 3
    · rw [if_pos (htype.mpr htyped), if_pos htyped]
      exact poolGet_at (h.typed hnone htyped) hcount
    · rw [if_neg fun hsame => htyped (htype.mp hsame), if_neg htyped]

/-- An attribute is read where it was written. -/
theorem readAttribute_at (h : a.Holds strings) (hcount : strings.length ≤ 1000000) {position : Nat}
    (hposition : position = front.length) :
    readAttribute strings (front ++ (encodeAttribute a ++ back)) position found =
      .ok (enterAttribute strings found a) := by
  have hname := h.name
  have hraw : a.rawValue < 4294967296 := by
    have hrawValue := h.rawValue
    omega
  have hfits : position + 20 ≤ (front ++ (encodeAttribute a ++ back)).length := by
    simp only [List.length_append, encodeAttribute_length]
    omega
  have hkey : unpack32 (front ++ (encodeAttribute a ++ back)) (position + 4) = .ok a.name :=
    unpack32_field (front ++ le32 a.space) _ (by simp [encodeAttribute]; rfl)
      (by simp [hposition]) (by omega)
  have hvalue : unpack32 (front ++ (encodeAttribute a ++ back)) (position + 8) = .ok a.rawValue :=
    unpack32_field (front ++ (le32 a.space ++ le32 a.name)) _ (by simp [encodeAttribute]; rfl)
      (by simp [hposition]) hraw
  have htype : byteAt (front ++ (encodeAttribute a ++ back)) (position + 15) =
      .ok a.valueType.toNat :=
    byteAt_field (front ++ (le32 a.space ++ (le32 a.name ++ (le32 a.rawValue ++ (le16 8 ++ [0])))))
      _ (by simp [encodeAttribute]; rfl) (by simp [hposition])
  have hdata : unpack32 (front ++ (encodeAttribute a ++ back)) (position + 16) = .ok a.valueData :=
    unpack32_field (front ++ (le32 a.space ++ (le32 a.name ++ (le32 a.rawValue ++
      (le16 8 ++ [0, a.valueType]))))) back (by simp [encodeAttribute]) (by simp [hposition])
      h.valueData
  rw [readAttribute, if_neg (by omega), hkey, hvalue, htype, hdata]
  refine bind_ok.mpr ⟨_, rfl, bind_ok.mpr ⟨_, rfl, bind_ok.mpr ⟨_, rfl, bind_ok.mpr ⟨_, rfl, ?_⟩⟩⟩⟩
  exact bind_ok.mpr ⟨_, poolGet_at hname hcount, bind_ok.mpr ⟨_, attributeValue_at h hcount, rfl⟩⟩

/-- The attributes are read back, from some one on. -/
theorem readAttributes_at (hall : ∀ a ∈ attributes, a.Holds strings)
    (hcount : strings.length ≤ 1000000) (found : Found) (front back : Bytes) :
    (List.range attributes.length).foldlM (fun found index => readAttribute strings
      (front ++ (encodeAttributes attributes ++ back)) (front.length + index * 20) found) found =
        .ok (attributes.foldl (enterAttribute strings) found) := by
  induction attributes generalizing front found with
  | nil => rfl
  | cons a attributes ih =>
    obtain ⟨ha, hall⟩ := List.forall_mem_cons.mp hall
    have hnext := ih hall (enterAttribute strings found a) (front ++ encodeAttribute a)
    rw [List.length_cons, List.range_succ_eq_map, encodeAttributes, List.flatMap_cons,
      ← encodeAttributes, List.append_assoc, List.foldlM_cons, Nat.zero_mul, Nat.add_zero,
      readAttribute_at ha hcount rfl]
    refine bind_ok.mpr ⟨_, rfl, ?_⟩
    rw [List.foldlM_map]
    simp only [List.append_assoc, List.length_append, encodeAttribute_length, Nat.add_assoc] at hnext
    simpa only [Nat.succ_eq_add_one, Nat.add_mul, Nat.one_mul, Nat.add_comm 20,
      List.foldl_cons] using hnext

/-- The size of a start element, whose other fields nothing reads. -/
def elementSize (attributes : List Attribute) (tail : Bytes) : Nat :=
  36 + 20 * attributes.length + tail.length

def encodeElement (line comment space name : Nat) (attributes : List Attribute) (tail : Bytes) :
    Bytes :=
  le16 0x0102 ++ (le16 16 ++ (le32 (elementSize attributes tail) ++ (le32 line ++ (le32 comment ++
    (le32 space ++ (le32 name ++ (le16 20 ++ (le16 20 ++ (le16 attributes.length ++ (le16 0 ++
      (le32 0 ++ (encodeAttributes attributes ++ tail))))))))))))

theorem encodeElement_length (line comment space name : Nat) (attributes : List Attribute)
    (tail : Bytes) : (encodeElement line comment space name attributes tail).length =
      elementSize attributes tail := by
  simp [encodeElement, elementSize, encodeAttributes_length]
  omega

/-- The text of the last attribute with a key. -/
def lastText (strings : List Text) (attributes : List Attribute) (key : Text) : Option Text :=
  (attributes.filter fun a => a.key strings = key).getLast?.map (Attribute.text strings)

theorem lastText_concat (strings : List Text) (attributes : List Attribute) (a : Attribute)
    (key : Text) : lastText strings (attributes ++ [a]) key =
      if a.key strings = key then some (a.text strings) else lastText strings attributes key := by
  by_cases hkey : a.key strings = key
  · simp [lastText, List.filter_append, hkey]
  · simp [lastText, List.filter_append, hkey]

/-- What is left of the attributes behind all of them. -/
theorem enterAttributes_eq (strings : List Text) (attributes : List Attribute) (found : Found) :
    attributes.foldl (enterAttribute strings) found =
      ⟨(lastText strings attributes "package".toList).or found.packageName,
        (lastText strings attributes "split".toList).getD found.split⟩ := by
  induction attributes using List.reverseRecOn with
  | nil => rfl
  | append_singleton attributes a ih =>
    have hdiffer : "package".toList ≠ "split".toList := by decide
    rw [List.foldl_concat, ih, lastText_concat, lastText_concat, enterAttribute, Found.enter]
    simp only [Option.some.injEq, Option.getD_some]
    by_cases hpackage : a.key strings = "package".toList
    · rw [hpackage, if_pos rfl, if_pos rfl, if_neg hdiffer]
      rfl
    · rw [if_neg hpackage, if_neg hpackage]
      by_cases hsplit : a.key strings = "split".toList
      · rw [if_pos hsplit, if_pos hsplit]
        rfl
      · rw [if_neg hsplit, if_neg hsplit]

/-- The element that the parser looks for. -/
theorem startElement_manifest {line comment space name : Nat} {tail : Bytes}
    (hall : ∀ a ∈ attributes, a.Holds strings) (hcount : strings.length ≤ 1000000)
    (hattributes : attributes.length ≤ 4096) (hname : strings[name]? = some "manifest".toList)
    {packageName : Text} (hpackage : lastText strings attributes "package".toList = some packageName)
    (hsome : packageName ≠ []) :
    startElement strings 16 (encodeElement line comment space name attributes tail) =
      .ok (some (packageName, (lastText strings attributes "split".toList).getD [])) := by
  let front := le16 0x0102 ++ le16 16 ++ le32 (elementSize attributes tail) ++ le32 line ++
    le32 comment ++ le32 space
  let fields := front ++ le32 name ++ le16 20 ++ le16 20 ++ le16 attributes.length ++ le16 0 ++ le32 0
  have hlength := encodeElement_length line comment space name attributes tail
  rw [elementSize] at hlength
  obtain ⟨hindex, hmanifest⟩ := List.getElem?_eq_some_iff.mp hname
  have hnameField : unpack32 (encodeElement line comment space name attributes tail) 20 = .ok name :=
    unpack32_field front _ rfl rfl (by omega)
  have hstart : unpack16 (encodeElement line comment space name attributes tail) 24 = .ok 20 :=
    unpack16_field (front ++ le32 name) _ rfl rfl (by omega)
  have hsize : unpack16 (encodeElement line comment space name attributes tail) 26 = .ok 20 :=
    unpack16_field (front ++ le32 name ++ le16 20) _ rfl rfl (by omega)
  have hcountField : unpack16 (encodeElement line comment space name attributes tail) 28 =
      .ok attributes.length :=
    unpack16_field (front ++ le32 name ++ le16 20 ++ le16 20) _ rfl rfl (by omega)
  have hread : (List.range attributes.length).foldlM (fun found index => readAttribute strings
      (encodeElement line comment space name attributes tail) (16 + 20 + index * 20) found) ⟨none, []⟩ =
        .ok (attributes.foldl (enterAttribute strings) ⟨none, []⟩) :=
    readAttributes_at hall hcount ⟨none, []⟩ fields tail
  rw [enterAttributes_eq, hpackage] at hread
  rw [startElement, if_neg (by omega), hnameField]
  refine bind_ok.mpr ⟨_, rfl, bind_ok.mpr ⟨_, poolGet_at hindex hcount, ?_⟩⟩
  have hfound : strings.getD name [] = "manifest".toList := by simp [hname]
  rw [hfound, if_neg (by simp), hstart, hsize, hcountField]
  refine bind_ok.mpr ⟨_, rfl, bind_ok.mpr ⟨_, rfl, bind_ok.mpr ⟨_, rfl, ?_⟩⟩⟩
  rw [if_neg (by omega)]
  refine bind_ok.mpr ⟨_, hread, ?_⟩
  cases packageName with
  | nil => exact absurd rfl hsome
  | cons c cs => rfl

end Elements

section Documents

/-- A chunk of any type, with what is in its header behind the sizes. -/
structure Chunk where
  chunkType : Nat
  extra : Bytes
  body : Bytes
  deriving DecidableEq, Repr

def Chunk.size (c : Chunk) : Nat := 8 + c.extra.length + c.body.length

def encodeChunk (c : Chunk) : Bytes :=
  le16 c.chunkType ++ (le16 (8 + c.extra.length) ++ (le32 c.size ++ (c.extra ++ c.body)))

def encodeChunks (chunks : List Chunk) : Bytes := chunks.flatMap encodeChunk

/-- A chunk that can be written. -/
structure Chunk.Writable (c : Chunk) : Prop where
  chunkType : c.chunkType < 65536
  headerSize : 8 + c.extra.length < 65536
  size : c.size < 4294967296

theorem encodeChunk_length (c : Chunk) : (encodeChunk c).length = c.size := by
  simp [encodeChunk, Chunk.size]
  omega

variable {front back data : Bytes} {chunkType headerSize xmlSize : Nat} {pool : Option (List Text)}

/-- What stands at a place of a document, as a chunk. -/
structure ChunkAt (data : Bytes) (offset : Nat) (chunk : Bytes) (chunkType headerSize : Nat) :
    Prop where
  stands : ∃ front back, data = front ++ (chunk ++ back) ∧ offset = front.length
  fields : ∃ rest, chunk = le16 chunkType ++ (le16 headerSize ++ (le32 chunk.length ++ rest))
  typed : chunkType < 65536
  headed : 8 ≤ headerSize ∧ headerSize < 65536
  sized : headerSize ≤ chunk.length ∧ chunk.length < 4294967296

variable {offset : Nat} {chunk : Bytes}

theorem ChunkAt.slice (h : ChunkAt data offset chunk chunkType headerSize) :
    slice data offset (offset + chunk.length) = chunk := by
  obtain ⟨front, back, hdata, hoffset⟩ := h.stands
  rw [hdata]
  exact slice_at hoffset (by rw [hoffset])

theorem ChunkAt.header (h : ChunkAt data offset chunk chunkType headerSize)
    (hend : offset + chunk.length ≤ xmlSize) :
    chunkHeader data xmlSize offset = .ok ⟨chunkType, headerSize, chunk.length,
      h.headed.1, h.sized.1⟩ := by
  obtain ⟨front, back, hdata, hoffset⟩ := h.stands
  obtain ⟨rest, hchunk⟩ := h.fields
  have hheaded := h.headed
  have hsized := h.sized
  have hfields : data = front ++ (le16 chunkType ++ (le16 headerSize ++
      (le32 chunk.length ++ (rest ++ back)))) := by
    rw [hdata]
    conv_lhs => rw [hchunk]
    simp only [List.append_assoc]
  have htype : unpack16 data offset = .ok chunkType := unpack16_field front _ hfields hoffset h.typed
  have hheader : unpack16 data (offset + 2) = .ok headerSize :=
    unpack16_field (front ++ le16 chunkType) (le32 chunk.length ++ (rest ++ back))
      (by simp [hfields]) (by simp [hoffset]) hheaded.2
  have hsize : unpack32 data (offset + 4) = .ok chunk.length :=
    unpack32_field (front ++ (le16 chunkType ++ le16 headerSize)) (rest ++ back)
      (by simp [hfields]) (by simp [hoffset]) hsized.2
  rw [chunkHeader, htype, hheader, hsize]
  refine bind_ok.mpr ⟨_, rfl, bind_ok.mpr ⟨_, rfl, bind_ok.mpr ⟨_, rfl, ?_⟩⟩⟩
  rw [dif_neg (by omega)]
  rfl

/-- A chunk that the parser goes on from. -/
theorem ChunkAt.next (h : ChunkAt data offset chunk chunkType headerSize)
    (hend : offset + chunk.length ≤ xmlSize) {pool' : Option (List Text)}
    (hread : readChunk pool chunkType headerSize chunk = .ok (.inl pool')) :
    readChunks data xmlSize pool offset = readChunks data xmlSize pool' (offset + chunk.length) := by
  have hsized := h.sized
  have hheaded := h.headed
  rw [readChunks, if_neg (by omega), h.header hend]
  dsimp only
  rw [h.slice, hread]

/-- The chunk that the parser ends at. -/
theorem ChunkAt.last (h : ChunkAt data offset chunk chunkType headerSize)
    (hend : offset + chunk.length ≤ xmlSize) {result : Text × Text}
    (hread : readChunk pool chunkType headerSize chunk = .ok (.inr result)) :
    readChunks data xmlSize pool offset = .ok result := by
  have hsized := h.sized
  have hheaded := h.headed
  rw [readChunks, if_neg (by omega), h.header hend]
  dsimp only
  rw [h.slice, hread]

/-- Chunks that change nothing. -/
theorem skip_chunks {chunks : List Chunk} (back : Bytes) (hwritable : ∀ c ∈ chunks, c.Writable)
    (hskipped : ∀ c ∈ chunks, ∀ bytes,
      readChunk pool c.chunkType (8 + c.extra.length) bytes = .ok (.inl pool))
    (hdata : data = front ++ (encodeChunks chunks ++ back))
    (hend : front.length + (encodeChunks chunks).length ≤ xmlSize) :
    readChunks data xmlSize pool front.length =
      readChunks data xmlSize pool (front.length + (encodeChunks chunks).length) := by
  induction chunks generalizing front with
  | nil => rfl
  | cons c chunks ih =>
    obtain ⟨hc, hwritable⟩ := List.forall_mem_cons.mp hwritable
    obtain ⟨hcskipped, hskipped⟩ := List.forall_mem_cons.mp hskipped
    rw [encodeChunks, List.flatMap_cons, ← encodeChunks] at hdata hend ⊢
    rw [List.length_append] at hend ⊢
    have hlength := encodeChunk_length c
    have hfront : (front ++ encodeChunk c).length = front.length + (encodeChunk c).length :=
      List.length_append
    have hat : ChunkAt data front.length (encodeChunk c) c.chunkType (8 + c.extra.length) := by
      refine ⟨⟨front, _, by rw [hdata, List.append_assoc], rfl⟩, ⟨c.extra ++ c.body, ?_⟩,
        hc.chunkType, ⟨by omega, hc.headerSize⟩, ?_⟩
      · rw [hlength]
        rfl
      · have hsize := hc.size
        rw [hlength]
        exact ⟨by rw [Chunk.size]; omega, hsize⟩
    rw [hat.next (by omega) (hcskipped _), ← hfront,
      ih hwritable hskipped (by rw [hdata, List.append_assoc, List.append_assoc]) (by omega), hfront,
      Nat.add_assoc]

/-- A binary manifest: chunks, a pool, chunks, the `manifest` element and what follows it. -/
structure Document where
  before : List Chunk
  utf8 : Bool
  strings : List Text
  padding : Bytes
  between : List Chunk
  line : Nat
  comment : Nat
  space : Nat
  name : Nat
  attributes : List Attribute
  tail : Bytes
  rest : Bytes
  deriving DecidableEq, Repr

def Document.body (d : Document) : Bytes :=
  encodeChunks d.before ++ (encodePool d.utf8 d.strings d.padding ++ (encodeChunks d.between ++
    (encodeElement d.line d.comment d.space d.name d.attributes d.tail ++ d.rest)))

def Document.encode (d : Document) : Bytes :=
  le16 3 ++ (le16 8 ++ (le32 (8 + d.body.length) ++ d.body))

/-- No chunk in front of the pool is one, none behind it is one or an element, and the indices
of the element lie in the pool. -/
structure Document.WellFormed (d : Document) : Prop where
  before : ∀ c ∈ d.before, c.Writable ∧ c.chunkType ≠ 1
  pool : Writable d.utf8 d.strings d.padding
  between : ∀ c ∈ d.between, c.Writable ∧ c.chunkType ≠ 1 ∧ c.chunkType ≠ 0x0102
  name : d.strings[d.name]? = some "manifest".toList
  attributes : ∀ a ∈ d.attributes, a.Holds d.strings
  count : d.attributes.length ≤ 4096
  size : 8 + d.body.length < 4294967296

theorem readChunk_before {c : Chunk} (h : c.chunkType ≠ 1) (bytes : Bytes) :
    readChunk none c.chunkType headerSize bytes = .ok (.inl none) := by
  unfold readChunk
  rw [if_neg h]

theorem readChunk_between {c : Chunk} {strings : List Text} (h : c.chunkType ≠ 1)
    (helement : c.chunkType ≠ 0x0102) (bytes : Bytes) :
    readChunk (some strings) c.chunkType headerSize bytes = .ok (.inl (some strings)) := by
  unfold readChunk
  rw [if_neg h]
  exact if_neg helement

/-- The chunks of a document are walked to its element. -/
theorem readChunks_document {d : Document} (h : d.WellFormed) {packageName : Text}
    (hpackage : lastText d.strings d.attributes "package".toList = some packageName)
    (hsome : packageName ≠ []) :
    readChunks d.encode (8 + d.body.length) none 8 =
      .ok (packageName, (lastText d.strings d.attributes "split".toList).getD []) := by
  let front := le16 3 ++ le16 8 ++ le32 (8 + d.body.length)
  let pool := encodePool d.utf8 d.strings d.padding
  let element := encodeElement d.line d.comment d.space d.name d.attributes d.tail
  have hbody : d.body.length = (encodeChunks d.before).length + (pool.length +
      ((encodeChunks d.between).length + (element.length + d.rest.length))) := by
    simp only [Document.body, List.length_append, pool, element]
  have hfront : front.length = 8 := rfl
  have hsize := h.size
  have hpoolSize : pool.length = poolSize d.utf8 d.strings d.padding := encodePool_length
  have helementSize : element.length = elementSize d.attributes d.tail :=
    encodeElement_length d.line d.comment d.space d.name d.attributes d.tail
  have hpool : ChunkAt d.encode (front ++ encodeChunks d.before).length pool 1 28 := by
    refine ⟨⟨_, _, (List.append_assoc front _ _).symm, rfl⟩, ⟨_, by rw [hpoolSize]; rfl⟩,
      by omega, by omega, ?_, by omega⟩
    rw [hpoolSize, poolSize]
    omega
  have helement : ChunkAt d.encode
      (front ++ encodeChunks d.before ++ pool ++ encodeChunks d.between).length element 0x0102 16 := by
    refine ⟨⟨_, d.rest, ?_, rfl⟩, ⟨_, by rw [helementSize]; rfl⟩, by omega, by omega, ?_, by omega⟩
    · simp only [List.append_assoc]
      rfl
    · rw [helementSize, elementSize]
      omega
  have hpoolRead : readChunk none 1 28 pool = .ok (.inl (some d.strings)) := by
    unfold readChunk
    rw [if_pos rfl]
    exact bind_ok.mpr ⟨_, androidStringPool_encode h.pool, rfl⟩
  have helementRead : readChunk (some d.strings) 0x0102 16 element =
      .ok (.inr (packageName, (lastText d.strings d.attributes "split".toList).getD [])) := by
    unfold readChunk
    rw [if_neg (by decide)]
    exact bind_ok.mpr ⟨_, startElement_manifest h.attributes h.pool.count h.count h.name hpackage
      hsome, rfl⟩
  have hbefore : readChunks d.encode (8 + d.body.length) none front.length =
      readChunks d.encode (8 + d.body.length) none (front.length + (encodeChunks d.before).length) :=
    skip_chunks _ (fun c hc => (h.before c hc).1)
      (fun c hc bytes => readChunk_before (h.before c hc).2 bytes) rfl (by omega)
  have hbetween : readChunks d.encode (8 + d.body.length) (some d.strings)
      (front ++ encodeChunks d.before ++ pool).length =
        readChunks d.encode (8 + d.body.length) (some d.strings)
          ((front ++ encodeChunks d.before ++ pool).length + (encodeChunks d.between).length) := by
    refine skip_chunks (element ++ d.rest) (fun c hc => (h.between c hc).1)
      (fun c hc bytes => readChunk_between (h.between c hc).2.1 (h.between c hc).2.2 bytes) ?_ ?_
    · simp only [List.append_assoc]
      rfl
    · simp only [List.length_append]
      omega
  simp only [List.length_append] at hpool helement hbetween
  calc readChunks d.encode (8 + d.body.length) none 8
      = readChunks d.encode (8 + d.body.length) none
          (front.length + (encodeChunks d.before).length) := hbefore
    _ = readChunks d.encode (8 + d.body.length) (some d.strings)
          (front.length + (encodeChunks d.before).length + pool.length) :=
        hpool.next (by omega) hpoolRead
    _ = readChunks d.encode (8 + d.body.length) (some d.strings)
          (front.length + (encodeChunks d.before).length + pool.length +
            (encodeChunks d.between).length) := hbetween
    _ = .ok (packageName, (lastText d.strings d.attributes "split".toList).getD []) :=
        helement.last (by omega) helementRead

/-- The parser finds the package and the split that a document was written with. -/
theorem parseAndroidManifest_encode (plain : Bytes → Except ParseFailure (Option Text × Text))
    {d : Document} (h : d.WellFormed) {packageName : Text}
    (hpackage : lastText d.strings d.attributes "package".toList = some packageName)
    (hsome : packageName ≠ []) :
    parseAndroidManifest plain d.encode =
      .ok (packageName, (lastText d.strings d.attributes "split".toList).getD []) := by
  have hplain : startsPlain d.encode = false := rfl
  have hlength : d.encode.length = 8 + d.body.length := by
    simp [Document.encode]
    omega
  have htype : unpack16 d.encode 0 = .ok 3 := unpack16_field [] _ rfl rfl (by omega)
  have hheader : unpack16 d.encode 2 = .ok 8 := unpack16_field (le16 3) _ rfl rfl (by omega)
  have hsize : unpack32 d.encode 4 = .ok (8 + d.body.length) :=
    unpack32_field (le16 3 ++ le16 8) _ rfl rfl h.size
  rw [parseAndroidManifest, hplain, if_neg Bool.false_ne_true, if_neg (by omega), htype, hheader,
    hsize]
  refine bind_ok.mpr ⟨_, rfl, bind_ok.mpr ⟨_, rfl, bind_ok.mpr ⟨_, rfl, ?_⟩⟩⟩
  rw [if_neg (by omega)]
  exact readChunks_document h hpackage hsome

/-- A manifest with a resource map and the start of a namespace in front of its element; the
split stands as a typed value. -/
def configManifest : Document where
  before := []
  utf8 := false
  strings := ["manifest".toList, "package".toList, "split".toList, "com.game".toList,
    "config.hdpi".toList]
  padding := [0, 0]
  between := [⟨0x0180, [], [0x1b, 2, 1, 1]⟩, ⟨0x0100, [1, 0, 0, 0, 255, 255, 255, 255], [3, 0]⟩]
  line := 2
  comment := 0xffffffff
  space := 0xffffffff
  name := 0
  attributes := [⟨0xffffffff, 2, 0xffffffff, 3, 4⟩, ⟨0xffffffff, 1, 3, 3, 3⟩]
  tail := []
  rest := [3, 1, 16, 0]

theorem configManifest_wellFormed : configManifest.WellFormed where
  before := nofun
  pool := ⟨by decide, by decide, by decide +kernel⟩
  between c hc := by
    rcases List.mem_pair.mp hc with rfl | rfl <;> exact ⟨⟨by decide, by decide, by decide⟩, by decide⟩
  name := rfl
  attributes a ha := by
    rcases List.mem_pair.mp ha with rfl | rfl <;> exact ⟨by decide, by decide, by decide, by decide⟩
  count := by decide
  size := by decide +kernel

theorem parseAndroidManifest_config :
    parseAndroidManifest (fun _ => .error .xmlError) configManifest.encode =
      .ok ("com.game".toList, "config.hdpi".toList) :=
  parseAndroidManifest_encode _ configManifest_wellFormed (by decide) (by decide)

end Documents

end Asm2Runtime.AndroidManifest
