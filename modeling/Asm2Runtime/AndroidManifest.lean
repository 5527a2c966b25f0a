import Asm2Runtime.PayloadPlan

/-!
# The Android manifest in nxextract.py

`parse_android_manifest` reads the package and the split of an APK out of a binary XML
document: chunks behind headers that say their types and sizes, among them a pool of strings
and the start of the `manifest` element with its attributes.
-/

namespace Asm2Runtime.AndroidManifest

open RelativePath PayloadPlan

section Bytes

abbrev Bytes := List UInt8

/-- `UnicodeDecodeError` is a `ValueError`; the others are not. -/
inductive ParseFailure where
  | valueError (text : String)
  | structError
  | indexError
  /-- `xml.etree.ElementTree.ParseError` -/
  | xmlError
  /-- of `fromstring`, at a declared encoding that nobody knows -/
  | lookupError
  deriving DecidableEq, Repr

/-- `data[offset]` -/
def byteAt (data : Bytes) (offset : Nat) : Except ParseFailure Nat :=
  match data[offset]? with
  | some byte => .ok byte.toNat
  | none => .error .indexError

/-- `struct.unpack_from("<H", data, offset)[0]` -/
def unpack16 (data : Bytes) (offset : Nat) : Except ParseFailure Nat :=
  match data.drop offset with
  | a :: b :: _ => .ok (a.toNat + 256 * b.toNat)
  | _ => .error .structError

/-- `struct.unpack_from("<I", data, offset)[0]` -/
def unpack32 (data : Bytes) (offset : Nat) : Except ParseFailure Nat :=
  match data.drop offset with
  | a :: b :: c :: d :: _ =>
    .ok (a.toNat + 256 * b.toNat + 65536 * c.toNat + 16777216 * d.toNat)
  | _ => .error .structError

/-- `data[start:stop]` -/
def slice (data : Bytes) (start stop : Nat) : Bytes := (data.take stop).drop start

end Bytes

section Texts

/-- `bytes.decode("utf-8", "strict")` -/
def utf8Decode (bytes : Bytes) : Option Text :=
  bytes.toByteArray.utf8Decode?.map Array.toList

/-- `bytes.decode("utf-16le", "strict")` -/
def utf16Decode : Bytes → Option Text
  | [] => some []
  | a :: b :: rest =>
    let unit := a.toNat + 256 * b.toNat
    if unit < 0xd800 ∨ 0xe000 ≤ unit then (utf16Decode rest).map (Char.ofNat unit :: ·)
    else
      match rest with
      | c :: d :: rest =>
        let low := c.toNat + 256 * d.toNat
        if unit < 0xdc00 ∧ 0xdc00 ≤ low ∧ low < 0xe000 then
          (utf16Decode rest).map
            (Char.ofNat (0x10000 + (unit - 0xd800) * 0x400 + (low - 0xdc00)) :: ·)
        else none
      | _ => none
  | _ => none

/-- A strict decoding, whose `UnicodeDecodeError` has no text here. -/
def decoded (text : Option Text) : Except ParseFailure Text :=
  match text with
  | some text => .ok text
  | none => .error (.valueError "codec can't decode bytes")

def decodeLength8 (data : Bytes) (offset : Nat) : Except ParseFailure (Nat × Nat) := do
  let first ← byteAt data offset
  if 0x80 ≤ first then do
    let second ← byteAt data (offset + 1)
    return (first % 0x80 * 0x100 + second, offset + 2)
  else return (first, offset + 1)

def decodeLength16 (data : Bytes) (offset : Nat) : Except ParseFailure (Nat × Nat) := do
  let first ← unpack16 data offset
  if 0x8000 ≤ first then do
    let second ← unpack16 data (offset + 2)
    return (first % 0x8000 * 0x10000 + second, offset + 4)
  else return (first, offset + 2)

/-- Where the text of a string starts and how many bytes it has. -/
def stringBounds (chunk : Bytes) (utf8 : Bool) (position : Nat) :
    Except ParseFailure (Nat × Nat) :=
  if utf8 then do
    let utf16Length ← decodeLength8 chunk position
    let byteLength ← decodeLength8 chunk utf16Length.2
    return (byteLength.2, byteLength.1)
  else do
    let charLength ← decodeLength16 chunk position
    return (charLength.2, charLength.1 * 2)

/-- One turn of the loop of `AndroidStringPool.__init__` -/
def poolString (chunk : Bytes) (chunkSize : Nat) (utf8 : Bool) (position : Nat) :
    Except ParseFailure Text :=
  if chunkSize ≤ position then .error (.valueError "Android string offset out of range")
  else do
    let bounds ← stringBounds chunk utf8 position
    if chunkSize < bounds.1 + bounds.2 then
      .error (.valueError (if utf8 then "truncated Android UTF-8 string"
        else "truncated Android UTF-16 string"))
    else
      let bytes := slice chunk bounds.1 (bounds.1 + bounds.2)
      decoded (if utf8 then utf8Decode bytes else utf16Decode bytes)

/-- What the header of a string pool says. -/
structure PoolHeader where
  headerSize : Nat
  chunkSize : Nat
  count : Nat
  utf8 : Bool
  stringsStart : Nat
  deriving DecidableEq, Repr

/-- The checks of `AndroidStringPool.__init__` -/
def poolHeader (chunk : Bytes) : Except ParseFailure PoolHeader :=
  if chunk.length < 28 then .error (.valueError "truncated Android string pool")
  else do
    let chunkType ← unpack16 chunk 0
    let headerSize ← unpack16 chunk 2
    let chunkSize ← unpack32 chunk 4
    if chunkType ≠ 1 ∨ chunk.length < chunkSize ∨ headerSize < 28 then
      .error (.valueError "invalid Android string pool")
    else do
      let count ← unpack32 chunk 8
      let flags ← unpack32 chunk 16
      let stringsStart ← unpack32 chunk 20
      if 1000000 < count ∨ chunkSize < headerSize + count * 4 then
        .error (.valueError "unreasonable Android string pool")
      else return ⟨headerSize, chunkSize, count, flags.testBit 8, stringsStart⟩

/-- `AndroidStringPool.__init__` -/
def androidStringPool (chunk : Bytes) : Except ParseFailure (List Text) := do
  let header ← poolHeader chunk
  let offsets ← (List.range header.count).mapM fun k => unpack32 chunk (header.headerSize + 4 * k)
  offsets.mapM fun item =>
    poolString chunk header.chunkSize header.utf8 (header.stringsStart + item)

/-- `AndroidStringPool.get` -/
def poolGet (strings : List Text) (index : Nat) : Except ParseFailure (Option Text) :=
  if index = 0xffffffff then .ok none
  else
    match strings[index]? with
    | some text => .ok (some text)
    | none => .error (.valueError "Android string index out of range")

end Texts

section Elements

/-- `package_name` and `split` -/
structure Found where
  packageName : Option Text
  split : Text
  deriving DecidableEq, Repr

def attributeValue (strings : List Text) (rawValue valueType valueData : Nat) :
    Except ParseFailure (Option Text) :=
  if rawValue ≠ 0xffffffff then poolGet strings rawValue
  else if valueType = 3 then poolGet strings valueData
  else .ok (some (Nat.toDigits 10 valueData))

def Found.enter (found : Found) (key value : Option Text) : Found :=
  if key = some "package".toList then { found with packageName := value }
  else if key = some "split".toList then { found with split := value.getD [] }
  else found

/-- One turn of the loop over the attributes -/
def readAttribute (strings : List Text) (chunk : Bytes) (position : Nat) (found : Found) :
    Except ParseFailure Found :=
  if chunk.length < position + 20 then
    .error (.valueError "truncated Android manifest attribute")
  else do
    let attributeName ← unpack32 chunk (position + 4)
    let rawValue ← unpack32 chunk (position + 8)
    let valueType ← byteAt chunk (position + 15)
    let valueData ← unpack32 chunk (position + 16)
    let key ← poolGet strings attributeName
    let value ← attributeValue strings rawValue valueType valueData
    return found.enter key value

/-- The branch for a start element: none goes on with the next chunk. -/
def startElement (strings : List Text) (headerSize : Nat) (chunk : Bytes) :
    Except ParseFailure (Option (Text × Text)) :=
  if headerSize < 16 ∨ chunk.length < 36 then
    .error (.valueError "truncated Android start element")
  else do
    let nameIndex ← unpack32 chunk 20
    let name ← poolGet strings nameIndex
    if name ≠ some "manifest".toList then return none
    else do
      let attributeStart ← unpack16 chunk 24
      let attributeSize ← unpack16 chunk 26
      let attributeCount ← unpack16 chunk 28
      if attributeSize < 20 ∨ 4096 < attributeCount then
        .error (.valueError "invalid Android manifest attributes")
      else do
        let found ← (List.range attributeCount).foldlM (fun found index =>
          readAttribute strings chunk (16 + attributeStart + index * attributeSize) found) ⟨none, []⟩
        match found.packageName with
        | some (c :: cs) => return some (c :: cs, found.split)
        | _ => .error (.valueError "Android manifest has no package")

/-- What a chunk does: the pool behind it, or the result. -/
def readChunk (pool : Option (List Text)) (chunkType headerSize : Nat) (chunk : Bytes) :
    Except ParseFailure (Option (List Text) ⊕ Text × Text) :=
  if chunkType = 1 then do
    let strings ← androidStringPool chunk
    return .inl (some strings)
  else
    match pool with
    | none => .ok (.inl none)
    | some strings =>
      if chunkType = 0x0102 then do
        let result ← startElement strings headerSize chunk
        match result with
        | some result => return .inr result
        | none => return .inl (some strings)
      else .ok (.inl (some strings))

/-- The header of a chunk that is taken. -/
structure ChunkHeader where
  chunkType : Nat
  headerSize : Nat
  chunkSize : Nat
  sized : 8 ≤ headerSize ∧ headerSize ≤ chunkSize

def chunkHeader (data : Bytes) (xmlSize offset : Nat) : Except ParseFailure ChunkHeader := do
  let chunkType ← unpack16 data offset
  let headerSize ← unpack16 data (offset + 2)
  let chunkSize ← unpack32 data (offset + 4)
  if h : headerSize < 8 ∨ chunkSize < headerSize ∨ xmlSize < offset + chunkSize then
    .error (.valueError "invalid Android XML chunk")
  else return ⟨chunkType, headerSize, chunkSize, by omega⟩

/-- The loop of `parse_android_manifest` -/
def readChunks (data : Bytes) (xmlSize : Nat) (pool : Option (List Text)) (offset : Nat) :
    Except ParseFailure (Text × Text) :=
  if xmlSize < offset + 8 then .error (.valueError "Android manifest root was not found")
  else
    match chunkHeader data xmlSize offset with
    | .error failure => .error failure
    | .ok header =>
      match readChunk pool header.chunkType header.headerSize
          (slice data offset (offset + header.chunkSize)) with
      | .error failure => .error failure
      | .ok (.inr result) => .ok result
      | .ok (.inl pool) => readChunks data xmlSize pool (offset + header.chunkSize)
termination_by xmlSize - offset
decreasing_by
  have hsized := header.sized
  omega

/-- `data.lstrip().startswith(b"<")` -/
def startsPlain (data : Bytes) : Bool :=
  (data.dropWhile fun byte => byte ∈ [0x20, 0x09, 0x0a, 0x0b, 0x0c, 0x0d]).head? = some 0x3c

/-- `parse_android_manifest`; `plain` is `fromstring`, which gives the two attributes of the root
of a plain document or fails in its own way. -/
def parseAndroidManifest (plain : Bytes → Except ParseFailure (Option Text × Text))
    (data : Bytes) : Except ParseFailure (Text × Text) :=
  if startsPlain data then do
    let root ← plain data
    match root.1 with
    | some (c :: cs) => return (c :: cs, root.2)
    | _ => .error (.valueError "plain Android manifest has no package")
  else if data.length < 8 then .error (.valueError "truncated Android manifest")
  else do
    let xmlType ← unpack16 data 0
    let xmlHeader ← unpack16 data 2
    let xmlSize ← unpack32 data 4
    if xmlType ≠ 3 ∨ xmlHeader < 8 ∨ data.length < xmlSize then
      .error (.valueError "not an Android binary XML document")
    else readChunks data xmlSize none xmlHeader

end Elements

section Failures

variable {α β : Type} {data chunk : Bytes} {offset : Nat}

/-- Fails with nothing but a `ValueError`, which is what the caller catches. -/
def Caught (x : Except ParseFailure α) : Prop := ∀ failure, x = .error failure →
  ∃ text, failure = .valueError text

theorem Caught.ok (a : α) : Caught (.ok a) := nofun

theorem Caught.valueError (text : String) : Caught (.error (.valueError text) : Except _ α) := by
  intro failure h
  exact ⟨text, (Except.error.inj h).symm⟩

theorem caught_error {failure : ParseFailure} :
    Caught (.error failure : Except _ α) ↔ ∃ text, failure = .valueError text :=
  ⟨fun h => h failure rfl, fun h _ hsame => by rwa [← Except.error.inj hsame]⟩

/-- What fails in a sequence is its first part, or the second behind a result of the first. -/
theorem caught_bind {x : Except ParseFailure α} {f : α → Except ParseFailure β} :
    Caught (x >>= f) ↔ Caught x ∧ ∀ a, x = .ok a → Caught (f a) := by
  cases x with
  | error failure =>
    constructor
    · intro h
      exact ⟨fun _ hsame => h _ (by rw [Except.error.inj hsame]; rfl), nofun⟩
    · intro h _ hsame
      exact h.1 _ (by rw [← Except.error.inj hsame])
  | ok a =>
    constructor
    · intro h
      refine ⟨.ok a, fun b hb => ?_⟩
      obtain rfl := Except.ok.inj hb
      exact h
    · exact fun h => h.2 a rfl

theorem unpack16_ok (h : offset + 2 ≤ data.length) : ∃ n, unpack16 data offset = .ok n := by
  rw [unpack16]
  have hlength : 2 ≤ (data.drop offset).length := by
    rw [List.length_drop]
    omega
  match hdrop : data.drop offset, hlength with
  | a :: b :: _, _ => exact ⟨_, rfl⟩

theorem unpack32_ok (h : offset + 4 ≤ data.length) : ∃ n, unpack32 data offset = .ok n := by
  rw [unpack32]
  have hlength : 4 ≤ (data.drop offset).length := by
    rw [List.length_drop]
    omega
  match hdrop : data.drop offset, hlength with
  | a :: b :: c :: d :: _, _ => exact ⟨_, rfl⟩

theorem unpack32_fits {n : Nat} (h : unpack32 data offset = .ok n) : offset + 4 ≤ data.length := by
  by_contra hshort
  have hlength : (data.drop offset).length < 4 := by
    rw [List.length_drop]
    omega
  rw [unpack32] at h
  split at h
  · next hdrop =>
    rw [hdrop] at hlength
    simp only [List.length_cons] at hlength
    omega
  · cases h

theorem byteAt_ok (h : offset < data.length) : ∃ n, byteAt data offset = .ok n := by
  simp [byteAt, h]

theorem caught_unpack16 (h : offset + 2 ≤ data.length) : Caught (unpack16 data offset) := by
  obtain ⟨n, hn⟩ := unpack16_ok h
  rw [hn]
  exact .ok n

theorem caught_unpack32 (h : offset + 4 ≤ data.length) : Caught (unpack32 data offset) := by
  obtain ⟨n, hn⟩ := unpack32_ok h
  rw [hn]
  exact .ok n

theorem caught_byteAt (h : offset < data.length) : Caught (byteAt data offset) := by
  obtain ⟨n, hn⟩ := byteAt_ok h
  rw [hn]
  exact .ok n

theorem caught_poolGet (strings : List Text) (index : Nat) : Caught (poolGet strings index) := by
  rw [poolGet]
  split
  · exact .ok _
  · split
    · exact .ok _
    · exact .valueError _

theorem caught_attributeValue (strings : List Text) (rawValue valueType valueData : Nat) :
    Caught (attributeValue strings rawValue valueType valueData) := by
  rw [attributeValue]
  split
  · exact caught_poolGet _ _
  · split
    · exact caught_poolGet _ _
    · exact .ok _

theorem caught_readAttribute (strings : List Text) (chunk : Bytes) (position : Nat)
    (found : Found) : Caught (readAttribute strings chunk position found) := by
  rw [readAttribute]
  split
  · exact .valueError _
  · next hfits =>
    rw [caught_bind]
    refine ⟨caught_unpack32 (by omega), fun name _ => ?_⟩
    rw [caught_bind]
    refine ⟨caught_unpack32 (by omega), fun rawValue _ => ?_⟩
    rw [caught_bind]
    refine ⟨caught_byteAt (by omega), fun valueType _ => ?_⟩
    rw [caught_bind]
    refine ⟨caught_unpack32 (by omega), fun valueData _ => ?_⟩
    rw [caught_bind]
    refine ⟨caught_poolGet _ _, fun key _ => ?_⟩
    rw [caught_bind]
    exact ⟨caught_attributeValue _ _ _ _, fun _ _ => .ok _⟩

theorem caught_foldlM {f : β → α → Except ParseFailure β} (h : ∀ b a, Caught (f b a))
    (xs : List α) (b : β) : Caught (xs.foldlM f b) := by
  induction xs generalizing b with
  | nil => exact .ok b
  | cons x xs ih =>
    rw [List.foldlM_cons, caught_bind]
    exact ⟨h b x, fun b _ => ih b⟩

/-- The bytes of an element are read behind the checks of its size. -/
theorem caught_startElement (strings : List Text) (headerSize : Nat) (chunk : Bytes) :
    Caught (startElement strings headerSize chunk) := by
  rw [startElement]
  split
  · exact .valueError _
  · next hfits =>
    rw [caught_bind]
    refine ⟨caught_unpack32 (by omega), fun nameIndex _ => ?_⟩
    rw [caught_bind]
    refine ⟨caught_poolGet _ _, fun name _ => ?_⟩
    split
    · exact .ok _
    · rw [caught_bind]
      refine ⟨caught_unpack16 (by omega), fun attributeStart _ => ?_⟩
      rw [caught_bind]
      refine ⟨caught_unpack16 (by omega), fun attributeSize _ => ?_⟩
      rw [caught_bind]
      refine ⟨caught_unpack16 (by omega), fun attributeCount _ => ?_⟩
      split
      · exact .valueError _
      · rw [caught_bind]
        refine ⟨caught_foldlM (fun found index => caught_readAttribute _ _ _ found) _ _,
          fun found _ => ?_⟩
        split
        · exact .ok _
        · exact .valueError _

theorem caught_poolHeader (chunk : Bytes) : Caught (poolHeader chunk) := by
  rw [poolHeader]
  split
  · exact .valueError _
  · next hfits =>
    rw [caught_bind]
    refine ⟨caught_unpack16 (by omega), fun chunkType _ => ?_⟩
    rw [caught_bind]
    refine ⟨caught_unpack16 (by omega), fun headerSize _ => ?_⟩
    rw [caught_bind]
    refine ⟨caught_unpack32 (by omega), fun chunkSize _ => ?_⟩
    split
    · exact .valueError _
    · rw [caught_bind]
      refine ⟨caught_unpack32 (by omega), fun count _ => ?_⟩
      rw [caught_bind]
      refine ⟨caught_unpack32 (by omega), fun flags _ => ?_⟩
      rw [caught_bind]
      refine ⟨caught_unpack32 (by omega), fun stringsStart _ => ?_⟩
      split
      · exact .valueError _
      · exact .ok _

/-- The table of offsets lies in the chunk. -/
theorem poolHeader_fits {header : PoolHeader} (h : poolHeader chunk = .ok header) :
    header.headerSize + header.count * 4 ≤ header.chunkSize ∧
      header.chunkSize ≤ chunk.length := by
  rw [poolHeader] at h
  split at h
  · cases h
  · obtain ⟨chunkType, -, h⟩ := bind_ok.mp h
    obtain ⟨headerSize, -, h⟩ := bind_ok.mp h
    obtain ⟨chunkSize, -, h⟩ := bind_ok.mp h
    split at h
    · cases h
    · next hchunk =>
      obtain ⟨count, -, h⟩ := bind_ok.mp h
      obtain ⟨flags, -, h⟩ := bind_ok.mp h
      obtain ⟨stringsStart, -, h⟩ := bind_ok.mp h
      split at h
      · cases h
      · next hcount =>
        obtain rfl := Except.ok.inj h
        dsimp only
        omega

theorem not_caught_mapM {f : α → Except ParseFailure β} {xs : List α} :
    ¬Caught (xs.mapM f) ↔ ∃ before x after, xs = before ++ x :: after ∧
      (∀ y ∈ before, ∃ b, f y = .ok b) ∧ ¬Caught (f x) := by
  induction xs with
  | nil =>
    refine ⟨fun h => absurd (.ok _) h, ?_⟩
    rintro ⟨before, x, after, h, -⟩
    cases before <;> cases h
  | cons x xs ih =>
    rw [List.mapM_cons, caught_bind, not_and_or]
    constructor
    · rintro (h | h)
      · exact ⟨[], x, xs, rfl, nofun, h⟩
      · push Not at h
        obtain ⟨b, hb, h⟩ := h
        rw [caught_bind, not_and_or] at h
        rcases h with h | h
        · obtain ⟨before, y, after, rfl, hbefore, hy⟩ := ih.mp h
          exact ⟨x :: before, y, after, rfl, List.forall_mem_cons.mpr ⟨⟨b, hb⟩, hbefore⟩, hy⟩
        · exact absurd (fun bs _ => .ok _) h
    · rintro ⟨before, y, after, h, hbefore, hy⟩
      cases before with
      | nil =>
        cases h
        exact .inl hy
      | cons z before =>
        cases h
        obtain ⟨⟨b, hb⟩, hbefore⟩ := List.forall_mem_cons.mp hbefore
        refine .inr fun h => ?_
        have hrest := (caught_bind.mp (h b hb)).1
        exact ih.mpr ⟨before, y, after, rfl, hbefore, hy⟩ hrest

theorem caught_decoded (text : Option Text) : Caught (decoded text) := by
  cases text with
  | none => exact .valueError _
  | some text => exact .ok text

theorem not_caught_poolString {chunkSize position : Nat} {utf8 : Bool} :
    ¬Caught (poolString chunk chunkSize utf8 position) ↔
      position < chunkSize ∧ ¬Caught (stringBounds chunk utf8 position) := by
  rw [poolString]
  split
  · next hout => exact ⟨fun h => absurd (.valueError _) h, fun h => absurd h.1 (by omega)⟩
  · next hin =>
    rw [caught_bind, not_and_or]
    constructor
    · rintro (h | h)
      · exact ⟨by omega, h⟩
      · refine absurd (fun bounds _ => ?_) h
        split
        · exact .valueError _
        · exact caught_decoded _
    · exact fun h => .inl h.2

/-- The lengths of a string are read within four bytes. -/
theorem caught_stringBounds (utf8 : Bool) {position : Nat} (h : position + 4 ≤ chunk.length) :
    Caught (stringBounds chunk utf8 position) := by
  have hlength8 : ∀ p, p + 2 ≤ chunk.length →
      ∃ n q, decodeLength8 chunk p = .ok (n, q) ∧ q ≤ p + 2 := by
    intro p hp
    obtain ⟨first, hfirst⟩ := byteAt_ok (show p < chunk.length by omega)
    obtain ⟨second, hsecond⟩ := byteAt_ok (show p + 1 < chunk.length by omega)
    rw [decodeLength8, hfirst]
    by_cases hlong : 0x80 ≤ first
    · exact ⟨_, p + 2, bind_ok.mpr ⟨first, rfl, by rw [if_pos hlong, hsecond]; rfl⟩, by omega⟩
    · exact ⟨_, p + 1, bind_ok.mpr ⟨first, rfl, by rw [if_neg hlong]; rfl⟩, by omega⟩
  rw [stringBounds]
  split
  · obtain ⟨n, q, hutf16, hq⟩ := hlength8 position (by omega)
    obtain ⟨m, r, hbytes, -⟩ := hlength8 q (by omega)
    rw [hutf16, caught_bind]
    refine ⟨.ok _, fun a ha => ?_⟩
    obtain rfl := Except.ok.inj ha
    rw [hbytes]
    exact .ok _
  · rw [caught_bind, decodeLength16, caught_bind]
    refine ⟨⟨caught_unpack16 (by omega), fun first _ => ?_⟩, fun _ _ => .ok _⟩
    split
    · rw [caught_bind]
      exact ⟨caught_unpack16 (by omega), fun _ _ => .ok _⟩
    · exact .ok _

/-- A string, behind strings that are read, whose lengths are cut off by the end of the pool. -/
def CutString (chunk : Bytes) : Prop := ∃ header before item after,
  poolHeader chunk = .ok header ∧
    (List.range header.count).mapM (fun k => unpack32 chunk (header.headerSize + 4 * k)) =
      .ok (before ++ item :: after) ∧
    (∀ o ∈ before, ∃ text,
      poolString chunk header.chunkSize header.utf8 (header.stringsStart + o) = .ok text) ∧
    header.stringsStart + item < header.chunkSize ∧
    ¬Caught (stringBounds chunk header.utf8 (header.stringsStart + item))

/-- Such a string starts in the last three bytes. -/
theorem CutString.at_end (h : CutString chunk) : ∃ header item, poolHeader chunk = .ok header ∧
    header.stringsStart + item < header.chunkSize ∧
      chunk.length < header.stringsStart + item + 4 := by
  obtain ⟨header, before, item, after, hheader, -, -, hin, hcut⟩ := h
  refine ⟨header, item, hheader, hin, ?_⟩
  by_contra hlength
  exact hcut (caught_stringBounds _ (by omega))

theorem caught_mapM {f : α → Except ParseFailure β} {xs : List α} (h : ∀ x ∈ xs, Caught (f x)) :
    Caught (xs.mapM f) := by
  by_contra hnot
  obtain ⟨before, x, after, rfl, -, hx⟩ := not_caught_mapM.mp hnot
  exact hx (h x (by simp))

theorem not_caught_pool : ¬Caught (androidStringPool chunk) ↔ CutString chunk := by
  rw [androidStringPool, caught_bind]
  constructor
  · intro h
    simp only [caught_poolHeader, true_and] at h
    push Not at h
    obtain ⟨header, hheader, h⟩ := h
    have hfits := poolHeader_fits hheader
    have htable : Caught ((List.range header.count).mapM fun k =>
        unpack32 chunk (header.headerSize + 4 * k)) := by
      apply caught_mapM
      intro k hk
      have hlt := List.mem_range.mp hk
      exact caught_unpack32 (by omega)
    rw [caught_bind] at h
    simp only [htable, true_and] at h
    push Not at h
    obtain ⟨offsets, hoffsets, h⟩ := h
    obtain ⟨before, item, after, rfl, hbefore, hitem⟩ := not_caught_mapM.mp h
    obtain ⟨hin, hcut⟩ := not_caught_poolString.mp hitem
    exact ⟨header, before, item, after, hheader, hoffsets, hbefore, hin, hcut⟩
  · rintro ⟨header, before, item, after, hheader, hoffsets, hbefore, hin, hcut⟩ h
    have hstrings := (caught_bind.mp (h.2 header hheader)).2 _ hoffsets
    exact not_caught_mapM.mpr ⟨before, item, after, rfl, hbefore,
      not_caught_poolString.mpr ⟨hin, hcut⟩⟩ hstrings

-- a pool of one string, which ends behind the first of its two lengths
example : androidStringPool [1, 0, 28, 0, 33, 0, 0, 0, 1, 0, 0, 0, 0, 0, 0, 0, 0, 1, 0, 0,
    32, 0, 0, 0, 0, 0, 0, 0, 0, 0, 0, 0, 1] = .error .indexError := by
  decide +kernel

end Failures

section Chunks

variable {data : Bytes} {xmlSize offset : Nat} {pool : Option (List Text)}

/-- The chunks that the loop goes on from, with the pool it has there. -/
inductive Reached (data : Bytes) (xmlSize : Nat) : Option (List Text) → Nat →
    Option (List Text) → Nat → Prop where
  | here (pool : Option (List Text)) (offset : Nat) : Reached data xmlSize pool offset pool offset
  | next {pool pool' pool'' : Option (List Text)} {offset offset'' : Nat} {header : ChunkHeader}
    (hfits : offset + 8 ≤ xmlSize) (hheader : chunkHeader data xmlSize offset = .ok header)
    (hread : readChunk pool header.chunkType header.headerSize
      (slice data offset (offset + header.chunkSize)) = .ok (.inl pool'))
    (hrest : Reached data xmlSize pool' (offset + header.chunkSize) pool'' offset'') :
    Reached data xmlSize pool offset pool'' offset''

theorem caught_chunkHeader (hfits : offset + 8 ≤ xmlSize) (hsize : xmlSize ≤ data.length) :
    Caught (chunkHeader data xmlSize offset) := by
  rw [chunkHeader, caught_bind]
  refine ⟨caught_unpack16 (by omega), fun chunkType _ => ?_⟩
  rw [caught_bind]
  refine ⟨caught_unpack16 (by omega), fun headerSize _ => ?_⟩
  rw [caught_bind]
  refine ⟨caught_unpack32 (by omega), fun chunkSize _ => ?_⟩
  split
  · exact .valueError _
  · exact .ok _

theorem not_caught_readChunk {chunkType headerSize : Nat} {chunk : Bytes} :
    ¬Caught (readChunk pool chunkType headerSize chunk) ↔ chunkType = 1 ∧ CutString chunk := by
  unfold readChunk
  split
  · next htype =>
    rw [caught_bind, ← not_caught_pool]
    constructor
    · exact fun h => ⟨htype, fun hpool => h ⟨hpool, fun _ _ => .ok _⟩⟩
    · exact fun h hboth => h.2 hboth.1
  · next htype =>
    refine ⟨fun h => absurd ?_ h, fun h => absurd h.1 htype⟩
    split
    · exact .ok _
    · split
      · rw [caught_bind]
        refine ⟨caught_startElement _ _ _, fun result _ => ?_⟩
        split
        · exact .ok _
        · exact .ok _
      · exact .ok _

/-- A pool with a cut off string, at a chunk that the loop comes to. -/
def CutPool (data : Bytes) (xmlSize : Nat) (pool : Option (List Text)) (offset : Nat) : Prop :=
  ∃ pool' offset' header, Reached data xmlSize pool offset pool' offset' ∧
    offset' + 8 ≤ xmlSize ∧ chunkHeader data xmlSize offset' = .ok header ∧ header.chunkType = 1 ∧
      CutString (slice data offset' (offset' + header.chunkSize))

/-- A chunk that is gone on from. -/
theorem cutPool_next {header : ChunkHeader} {pool' : Option (List Text)}
    (hfits : offset + 8 ≤ xmlSize) (hheader : chunkHeader data xmlSize offset = .ok header)
    (hread : readChunk pool header.chunkType header.headerSize
      (slice data offset (offset + header.chunkSize)) = .ok (.inl pool')) :
    CutPool data xmlSize pool offset ↔ CutPool data xmlSize pool' (offset + header.chunkSize) := by
  constructor
  · rintro ⟨last, place, lastHeader, hreached, hlast, hlastHeader, htype, hcut⟩
    cases hreached with
    | here =>
      rw [hheader] at hlastHeader
      obtain rfl := Except.ok.inj hlastHeader
      have hnot : ¬Caught (readChunk pool header.chunkType header.headerSize
          (slice data offset (offset + header.chunkSize))) :=
        not_caught_readChunk.mpr ⟨htype, hcut⟩
      rw [hread] at hnot
      exact absurd (.ok _) hnot
    | next _ hheader' hread' hrest =>
      rw [hheader] at hheader'
      obtain rfl := Except.ok.inj hheader'
      rw [hread] at hread'
      obtain rfl := Sum.inl.inj (Except.ok.inj hread')
      exact ⟨last, place, lastHeader, hrest, hlast, hlastHeader, htype, hcut⟩
  · rintro ⟨last, place, lastHeader, hreached, hlast⟩
    exact ⟨last, place, lastHeader, .next hfits hheader hread hreached, hlast⟩

/-- A chunk that is the last. -/
theorem cutPool_last {header : ChunkHeader} (hfits : offset + 8 ≤ xmlSize)
    (hheader : chunkHeader data xmlSize offset = .ok header)
    (hread : ∀ pool', readChunk pool header.chunkType header.headerSize
      (slice data offset (offset + header.chunkSize)) ≠ .ok (.inl pool')) :
    CutPool data xmlSize pool offset ↔ ¬Caught (readChunk pool header.chunkType header.headerSize
      (slice data offset (offset + header.chunkSize))) := by
  rw [not_caught_readChunk]
  constructor
  · rintro ⟨last, place, lastHeader, hreached, -, hlastHeader, hcut⟩
    cases hreached with
    | here =>
      rw [hheader] at hlastHeader
      obtain rfl := Except.ok.inj hlastHeader
      exact hcut
    | next _ hheader' hread' _ =>
      rw [hheader] at hheader'
      obtain rfl := Except.ok.inj hheader'
      exact absurd hread' (hread _)
  · exact fun hcut => ⟨pool, offset, header, .here pool offset, hfits, hheader, hcut⟩

/-- No chunk at all. -/
theorem not_cutPool (h : ∀ header, offset + 8 ≤ xmlSize →
    chunkHeader data xmlSize offset ≠ .ok header) : ¬CutPool data xmlSize pool offset := by
  rintro ⟨last, place, header, hreached, hfits, hheader, -⟩
  cases hreached with
  | here => exact h header hfits hheader
  | next hfits' hheader' _ _ => exact h _ hfits' hheader'

theorem not_caught_readChunks (hsize : xmlSize ≤ data.length) :
    ¬Caught (readChunks data xmlSize pool offset) ↔ CutPool data xmlSize pool offset := by
  induction pool, offset using readChunks.induct data xmlSize with
  | case1 pool offset hend =>
    rw [readChunks, if_pos hend]
    refine iff_of_false (fun h => h (.valueError _)) (not_cutPool fun _ hfits => ?_)
    omega
  | case2 pool offset hin failure hheader =>
    have hcaught : Caught (chunkHeader data xmlSize offset) :=
      caught_chunkHeader (by omega) hsize
    rw [hheader, caught_error] at hcaught
    rw [readChunks, if_neg hin, hheader]
    refine iff_of_false (fun h => h (caught_error.mpr hcaught)) (not_cutPool fun header _ hok => ?_)
    rw [hheader] at hok
    cases hok
  | case3 pool offset hin header hheader failure hread =>
    rw [cutPool_last (by omega) hheader (by simp [hread]), hread, caught_error, readChunks,
      if_neg hin, hheader]
    simp only [hread, caught_error]
  | case4 pool offset hin header hheader result hread =>
    rw [cutPool_last (by omega) hheader (by simp [hread]), hread, readChunks, if_neg hin, hheader]
    simp only [hread]
    exact iff_of_false (fun h => h (.ok _)) (fun h => h (.ok _))
  | case5 pool offset hin header hheader pool' hread ih =>
    rw [cutPool_next (by omega) hheader hread, ← ih, readChunks, if_neg hin, hheader]
    simp only [hread]

/-- Besides what `fromstring` raises for a plain document, all that makes the parser fail with
something that its caller does not catch is a string whose lengths the end of a pool cuts off. -/
theorem parseAndroidManifest_escapes (plain : Bytes → Except ParseFailure (Option Text × Text))
    (data : Bytes) :
    ¬Caught (parseAndroidManifest plain data) ↔
      startsPlain data = true ∧ ¬Caught (plain data) ∨
        startsPlain data = false ∧ ∃ xmlHeader xmlSize, unpack16 data 0 = .ok 3 ∧
          unpack16 data 2 = .ok xmlHeader ∧ unpack32 data 4 = .ok xmlSize ∧ 8 ≤ xmlHeader ∧
            xmlSize ≤ data.length ∧ CutPool data xmlSize none xmlHeader := by
  rw [parseAndroidManifest]
  split
  · next hplain =>
    simp only [hplain, true_and, Bool.true_eq_false, false_and, or_false]
    rw [caught_bind, not_iff_not]
    refine ⟨And.left, fun h => ⟨h, fun root _ => ?_⟩⟩
    split
    · exact .ok _
    · exact .valueError _
  · next hplain =>
    simp only [Bool.eq_false_iff.mpr hplain, Bool.false_eq_true, false_and, false_or, true_and]
    split
    · next hshort =>
      refine iff_of_false (fun h => h (.valueError _)) ?_
      rintro ⟨-, xmlSize, -, -, hsize, -⟩
      have hfits := unpack32_fits hsize
      omega
    · next hlength =>
      obtain ⟨xmlType, htype⟩ := unpack16_ok (show 0 + 2 ≤ data.length by omega)
      obtain ⟨xmlHeader, hheader⟩ := unpack16_ok (show 2 + 2 ≤ data.length by omega)
      obtain ⟨xmlSize, hsize⟩ := unpack32_ok (show 4 + 4 ≤ data.length by omega)
      simp only [htype, hheader, hsize, Except.ok.injEq]
      show ¬Caught (if xmlType ≠ 3 ∨ xmlHeader < 8 ∨ data.length < xmlSize then _ else _) ↔ _
      split
      · next hbad =>
        refine iff_of_false (fun h => h (.valueError _)) ?_
        rintro ⟨_, _, rfl, rfl, rfl, h8, hle, -⟩
        omega
      · next hgood =>
        rw [not_caught_readChunks (by omega)]
        constructor
        · exact fun h => ⟨xmlHeader, xmlSize, by omega, rfl, rfl, by omega, by omega, h⟩
        · rintro ⟨_, _, -, rfl, rfl, -, -, h⟩
          exact h

end Chunks

end Asm2Runtime.AndroidManifest
