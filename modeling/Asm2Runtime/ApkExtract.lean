import Asm2Runtime.DeflateRepair
import Mathlib.Data.List.Basic

/-!
# Finding and unpacking the members of an APK

`physical_headers` and `unpack_entry` of extract_apk.py. A member is looked up by its name
among the byte runs of the file that have the shape of a local header, wherever they stand.
-/

namespace Asm2Runtime.ApkExtract

open DeflateRepair

/-- `LOCAL_MAGIC` -/
def localMagic : List UInt8 := [0x50, 0x4b, 0x03, 0x04]

/-- `LOCAL_HEADER.size` -/
def localHeaderSize : Nat := 30

/-- The fields of `LOCAL_HEADER`, `<IHHHHHIIIHH`. -/
structure LocalHeader where
  magic : Nat
  extract : Nat
  flags : Nat
  method : Nat
  time : Nat
  date : Nat
  crc : Nat
  compressSize : Nat
  fileSize : Nat
  nameLength : Nat
  extraLength : Nat
  deriving DecidableEq, Repr

/-- A little-endian number of `width` bytes. -/
def number (blob : List UInt8) (start width : Nat) : Nat :=
  (slice blob start (start + width)).foldr (fun byte rest => byte.toNat + 256 * rest) 0

/-- `LOCAL_HEADER.unpack_from(blob, offset)`; `none` is `struct.error`. -/
def unpackFrom (blob : List UInt8) (offset : Nat) : Option LocalHeader :=
  if offset + localHeaderSize ≤ blob.length then
    some
      { magic := number blob offset 4
        extract := number blob (offset + 4) 2
        flags := number blob (offset + 6) 2
        method := number blob (offset + 8) 2
        time := number blob (offset + 10) 2
        date := number blob (offset + 12) 2
        crc := number blob (offset + 14) 4
        compressSize := number blob (offset + 18) 4
        fileSize := number blob (offset + 22) 4
        nameLength := number blob (offset + 26) 2
        extraLength := number blob (offset + 28) 2 }
  else none

/-- `bytes.decode("utf-8")` -/
def decodeUtf8 (bytes : List UInt8) : Option String := String.fromUTF8? ⟨bytes.toArray⟩

/-- The name in a local header at `offset` whose name and extra field are inside the file.
A name that is no UTF-8, or empty, is not used. -/
def headerName (blob : List UInt8) (offset : Nat) : Option String := do
  let fields ← unpackFrom blob offset
  let nameStart := offset + localHeaderSize
  let nameEnd := nameStart + fields.nameLength
  let extraEnd := nameEnd + fields.extraLength
  if extraEnd ≤ blob.length then
    let name ← decodeUtf8 (slice blob nameStart nameEnd)
    if name ≠ "" then some name else none
  else none

/-! ## The scan for headers -/

section Scan

variable (blob : List UInt8)

/-- `blob.find(LOCAL_MAGIC, offset)` -/
def findMagic (offset : Nat) : Option Nat :=
  (List.range' offset (blob.length + 1 - offset)).find? fun i =>
    localMagic.isPrefixOf (blob.drop i)

/-- `result.setdefault(name, offset)` -/
def setDefault (result : List (String × Nat)) (name : String) (offset : Nat) :
    List (String × Nat) :=
  if (result.lookup name).isSome then result else result ++ [(name, offset)]

def record (result : List (String × Nat)) (offset : Nat) : List (String × Nat) :=
  match headerName blob offset with
  | some name => setDefault result name offset
  | none => result

/-- The loop of `physical_headers`, which goes round at most once for each byte. -/
def scan : Nat → Nat → List (String × Nat) → List (String × Nat)
  | 0, _, result => result
  | fuel + 1, offset, result =>
    match findMagic blob offset with
    | none => result
    | some found => scan fuel (found + localMagic.length) (record blob result found)

/-- `physical_headers` -/
def physicalHeaders : List (String × Nat) := scan blob (blob.length + 1) 0 []

end Scan

/-! ## Unpacking a member -/

/-- The fields of `zipfile.ZipInfo` that are read or copied. -/
structure ZipInfo where
  filename : String
  dateTime : List Nat
  compressType : Nat
  comment : List UInt8
  extra : List UInt8
  createSystem : Nat
  createVersion : Nat
  extractVersion : Nat
  internalAttr : Nat
  externalAttr : Nat
  volume : Nat
  crc : Nat
  compressSize : Nat
  fileSize : Nat
  headerOffset : Nat
  deriving DecidableEq, Repr

/-- `zipfile.ZIP_STORED` -/
def zipStored : Nat := 0

/-- `zipfile.ZIP_DEFLATED` -/
def zipDeflated : Nat := 8

section Unpack

variable (zlib : Inflate)

/-- The payload decoded as the header's `method` says, with the repair that was made. -/
def unpackPayload (method : Nat) (compressed : List UInt8) (info : ZipInfo) :
    Except RecoverError (List UInt8 × Option (Nat × UInt8)) :=
  if method = zipStored then .ok (compressed, none)
  else if method = zipDeflated then
    match zlib.decode compressed with
    | some data => .ok (data, none)
    | none => do
      let (data, repairOffset, repairValue) ←
        repairSingleMissingDeflateByte zlib compressed info.fileSize info.crc
      return (data, some (repairOffset, repairValue))
  else .error (.valueError s!"unsupported compression method {method}")

/-- The bytes behind a header that a member of this `info` takes from it. -/
def payload (blob : List UInt8) (fields : LocalHeader) (info : ZipInfo) (offset : Nat) :
    List UInt8 :=
  let payloadStart := offset + localHeaderSize + fields.nameLength + fields.extraLength
  slice blob payloadStart (payloadStart + info.compressSize)

def sizeMismatch (got expected : Nat) : RecoverError :=
  .valueError s!"size mismatch: got {got}, expected {expected}"

/-- `unpack_entry` -/
def unpackEntry (blob : List UInt8) (info : ZipInfo) (offset : Nat) :
    Except RecoverError (List UInt8 × Nat × Option (Nat × UInt8)) :=
  match unpackFrom blob offset with
  | none => .error .structError
  | some fields =>
    if fields.magic ≠ 0x04034b50 then .error (.valueError "invalid local header")
    else if fields.flags &&& 0x1 ≠ 0 then
      .error (.valueError "encrypted entries are unsupported")
    else if (payload blob fields info offset).length ≠ info.compressSize then
      .error (.valueError "truncated compressed payload")
    else
      match unpackPayload zlib fields.method (payload blob fields info offset) info with
      | .error cause => .error cause
      | .ok (data, repair) =>
        if data.length ≠ info.fileSize then .error (sizeMismatch data.length info.fileSize)
        else .ok (data, crc32 data, repair)

end Unpack

/-! ## What the scan finds -/

section Found

variable {blob : List UInt8}

def MagicAt (blob : List UInt8) (offset : Nat) : Prop := localMagic <+: blob.drop offset

/-- A byte run of the shape of a local header that carries `name`. -/
def HeaderAt (blob : List UInt8) (offset : Nat) (name : String) : Prop :=
  MagicAt blob offset ∧ headerName blob offset = some name

/-- The first such run of the file. -/
def FirstHeader (blob : List UInt8) (name : String) (offset : Nat) : Prop :=
  HeaderAt blob offset name ∧ ∀ other, other < offset → ¬ HeaderAt blob other name

/-- A name with a header has a first one. -/
theorem exists_first {name : String} {offset : Nat} (h : HeaderAt blob offset name) :
    ∃ least, least ≤ offset ∧ FirstHeader blob name least := by
  induction offset using Nat.strongRecOn with
  | _ offset ih =>
    by_cases hearlier : ∃ other, other < offset ∧ HeaderAt blob other name
    · obtain ⟨other, hlt, hother⟩ := hearlier
      obtain ⟨least, hle, hfirst⟩ := ih other hlt hother
      exact ⟨least, by omega, hfirst⟩
    · push Not at hearlier
      exact ⟨offset, Nat.le_refl _, h, hearlier⟩

theorem MagicAt.getElem? {offset : Nat} (h : MagicAt blob offset) {i : Nat} (hi : i < 4) :
    blob[offset + i]? = localMagic[i]? := by
  obtain ⟨rest, hrest⟩ := h
  rw [← List.getElem?_drop, ← hrest]
  exact List.getElem?_append_left hi

theorem MagicAt.inside {offset : Nat} (h : MagicAt blob offset) : offset + 4 ≤ blob.length := by
  have hlen := h.length_le
  rw [List.length_drop] at hlen
  have hfour : localMagic.length = 4 := rfl
  omega

/-- The magic does not overlap itself, so the search may go on behind it. -/
theorem MagicAt.apart {i j : Nat} (hi : MagicAt blob i) (hj : MagicAt blob j) (hij : i < j) :
    i + 4 ≤ j := by
  by_contra hnear
  obtain ⟨k, rfl⟩ : ∃ k, j = i + k := ⟨j - i, by omega⟩
  have hk : k < 4 := by omega
  have hfirst := hj.getElem? (i := 0) (by decide)
  rw [Nat.add_zero, hi.getElem? hk] at hfirst
  obtain rfl | rfl | rfl : k = 1 ∨ k = 2 ∨ k = 3 := by omega
  all_goals exact absurd hfirst (by decide)

theorem findMagic_some {start found : Nat} (h : findMagic blob start = some found) :
    start ≤ found ∧ MagicAt blob found ∧ ∀ j, start ≤ j → j < found → ¬ MagicAt blob j := by
  obtain ⟨hmagic, hmem, hbefore⟩ := List.find?_range'_eq_some.mp h
  refine ⟨(List.mem_range'_1.mp hmem).1, List.isPrefixOf_iff_prefix.mp hmagic, ?_⟩
  intro j hle hlt hj
  have hno := hbefore j hle hlt
  rw [List.isPrefixOf_iff_prefix.mpr hj] at hno
  cases hno

theorem findMagic_none {start : Nat} (h : findMagic blob start = none) :
    ∀ j, start ≤ j → ¬ MagicAt blob j := by
  intro j hle hj
  have hin := hj.inside
  have hno := List.find?_eq_none.mp h j (List.mem_range'_1.mpr ⟨hle, by omega⟩)
  exact hno (List.isPrefixOf_iff_prefix.mpr hj)

/-- The names found below `start`, each with its first header. -/
def Scanned (blob : List UInt8) (start : Nat) (result : List (String × Nat)) : Prop :=
  ∀ name offset, result.lookup name = some offset ↔
    offset < start ∧ FirstHeader blob name offset

theorem Scanned.extend {start stop : Nat} {result : List (String × Nat)}
    (h : Scanned blob start result) (hle : start ≤ stop)
    (hnone : ∀ j, start ≤ j → j < stop → ¬ MagicAt blob j) : Scanned blob stop result := by
  intro name offset
  rw [h name offset]
  constructor
  · rintro ⟨hlt, hfirst⟩
    exact ⟨by omega, hfirst⟩
  · rintro ⟨hlt, hfirst⟩
    refine ⟨?_, hfirst⟩
    by_contra hge
    exact hnone offset (by omega) hlt hfirst.1.1

theorem lookup_setDefault (result : List (String × Nat)) (key name : String) (offset : Nat) :
    (setDefault result key offset).lookup name =
      (result.lookup name).or (if name = key then some offset else none) := by
  unfold setDefault
  by_cases hkey : (result.lookup key).isSome
  · rw [if_pos hkey]
    by_cases hname : name = key
    · subst hname
      rw [Option.or_of_isSome hkey]
    · rw [if_neg hname, Option.or_none]
  · rw [if_neg hkey, List.lookup_append]
    by_cases hname : name = key
    · rw [if_pos hname, hname, List.lookup_cons_self]
    · rw [if_neg hname, List.lookup_cons, beq_false_of_ne hname, List.lookup_nil]

/-- The name at one more header is entered unless it was found before. -/
theorem Scanned.record {found : Nat} {result : List (String × Nat)}
    (h : Scanned blob found result) (hmagic : MagicAt blob found) :
    Scanned blob (found + 1) (record blob result found) := by
  intro name offset
  have hstep : (ApkExtract.record blob result found).lookup name =
      (result.lookup name).or
        (if headerName blob found = some name then some found else none) := by
    unfold ApkExtract.record
    cases hname : headerName blob found with
    | none => rw [if_neg (fun h => nomatch h), Option.or_none]
    | some key =>
      refine (lookup_setDefault result key name found).trans ?_
      simp only [Option.some.injEq, eq_comm]
  rw [hstep, Option.or_eq_some_iff, h name offset]
  constructor
  · rintro (⟨hlt, hfirst⟩ | ⟨hnew, hhere⟩)
    · exact ⟨by omega, hfirst⟩
    · have hname : headerName blob found = some name := by
        by_contra hne
        rw [if_neg hne] at hhere
        cases hhere
      rw [if_pos hname] at hhere
      obtain rfl : found = offset := Option.some.inj hhere
      refine ⟨by omega, ⟨hmagic, hname⟩, ?_⟩
      intro other hlt hother
      obtain ⟨least, hleast, hfirst⟩ := exists_first hother
      have hsome := (h name least).mpr ⟨by omega, hfirst⟩
      rw [hnew] at hsome
      cases hsome
  · rintro ⟨hlt, hfirst⟩
    by_cases hbelow : offset < found
    · exact Or.inl ⟨hbelow, hfirst⟩
    · obtain rfl : found = offset := by omega
      refine Or.inr ⟨?_, if_pos hfirst.1.2⟩
      by_contra hsome
      obtain ⟨other, hother⟩ := Option.ne_none_iff_exists'.mp hsome
      obtain ⟨hlt', hfirst'⟩ := (h name other).mp hother
      exact hfirst.2 other hlt' hfirst'.1

/-- With no header left the names found are all there are. -/
theorem Scanned.complete {start : Nat} {result : List (String × Nat)}
    (h : Scanned blob start result) (hnone : ∀ j, start ≤ j → ¬ MagicAt blob j) (name : String)
    (offset : Nat) : result.lookup name = some offset ↔ FirstHeader blob name offset := by
  rw [h name offset]
  refine ⟨fun hfound => hfound.2, fun hfirst => ⟨?_, hfirst⟩⟩
  by_contra hge
  exact hnone offset (by omega) hfirst.1.1

/-- From any point of the search the loop finds the first header of every name. -/
theorem scan_lookup (fuel start : Nat) (result : List (String × Nat))
    (h : Scanned blob start result) (hfuel : blob.length < start + fuel) (name : String)
    (offset : Nat) :
    (scan blob fuel start result).lookup name = some offset ↔ FirstHeader blob name offset := by
  induction fuel generalizing start result with
  | zero =>
    refine h.complete (fun j hle hj => ?_) name offset
    have hin := hj.inside
    omega
  | succ fuel ih =>
    rw [scan]
    cases hfind : findMagic blob start with
    | none => exact h.complete (findMagic_none hfind) name offset
    | some found =>
      obtain ⟨hle, hmagic, hbefore⟩ := findMagic_some hfind
      have hrecord := (h.extend hle hbefore).record hmagic
      have hnext : Scanned blob (found + localMagic.length) (ApkExtract.record blob result found) :=
        hrecord.extend (Nat.le_add_right _ 3) fun j hj hlt hother =>
          absurd (hmagic.apart hother hj) (Nat.not_le.mpr hlt)
      refine ih (found + localMagic.length) _ hnext ?_
      have hfour : localMagic.length = 4 := rfl
      omega

/-- `physical_headers` gives every name its first header in the file. -/
theorem physicalHeaders_lookup (blob : List UInt8) (name : String) (offset : Nat) :
    (physicalHeaders blob).lookup name = some offset ↔ FirstHeader blob name offset := by
  refine scan_lookup (blob.length + 1) 0 [] ?_ (by omega) name offset
  intro name offset
  rw [List.lookup_nil]
  exact ⟨(fun h => nomatch h), fun h => absurd h.1 (Nat.not_lt_zero offset)⟩

end Found

/-! ## What unpacking gives -/

section Unpacked

variable {zlib : Inflate}

/-- A payload of `method` decodes to `data`, if need be with one byte restored. -/
inductive Decodes (zlib : Inflate) (info : ZipInfo) : Nat → List UInt8 → List UInt8 → Prop where
  | stored (data : List UInt8) : Decodes zlib info zipStored data data
  | deflated {compressed data : List UInt8} (h : zlib.decode compressed = some data) :
      Decodes zlib info zipDeflated compressed data
  | restored {compressed data : List UInt8} {e position : Nat} {value : UInt8}
      (hbroken : zlib.decode compressed = none) (hfails : zlib.FailsAt compressed e)
      (hmend : FirstMend zlib compressed info.fileSize info.crc e data position value) :
      Decodes zlib info zipDeflated compressed data

/-- The header at `offset` and the bytes behind it, read as the member `info`, give `data`. -/
def Unpacks (zlib : Inflate) (blob : List UInt8) (info : ZipInfo) (offset : Nat)
    (data : List UInt8) : Prop :=
  ∃ fields, unpackFrom blob offset = some fields ∧ fields.magic = 0x04034b50 ∧
    fields.flags &&& 0x1 = 0 ∧ (payload blob fields info offset).length = info.compressSize ∧
    Decodes zlib info fields.method (payload blob fields info offset) data ∧
    data.length = info.fileSize

theorem unpackPayload_decodes {method : Nat} {compressed data : List UInt8} {info : ZipInfo}
    {repair : Option (Nat × UInt8)}
    (h : unpackPayload zlib method compressed info = .ok (data, repair)) :
    Decodes zlib info method compressed data := by
  unfold unpackPayload at h
  by_cases hstored : method = zipStored
  · rw [if_pos hstored] at h
    obtain ⟨rfl, rfl⟩ := Prod.mk.inj (Except.ok.inj h)
    exact hstored ▸ Decodes.stored compressed
  rw [if_neg hstored] at h
  by_cases hdeflated : method = zipDeflated
  · rw [if_pos hdeflated] at h
    subst hdeflated
    cases hdecode : zlib.decode compressed with
    | some whole =>
      rw [hdecode] at h
      obtain ⟨rfl, rfl⟩ := Prod.mk.inj (Except.ok.inj h)
      exact Decodes.deflated hdecode
    | none =>
      rw [hdecode] at h
      by_cases hfails : ∃ e, zlib.FailsAt compressed e
      · obtain ⟨e, hfails⟩ := hfails
        cases hrepair : repairSingleMissingDeflateByte zlib compressed info.fileSize info.crc with
        | error cause =>
          rw [hrepair] at h
          cases h
        | ok found =>
          obtain ⟨restored, position, value⟩ := found
          rw [hrepair] at h
          obtain ⟨rfl, rfl⟩ := Prod.mk.inj (Except.ok.inj h)
          exact Decodes.restored hdecode hfails ((repair_eq_ok hfails).mp hrepair)
      · push Not at hfails
        rw [repair_of_not_failsAt hfails] at h
        cases h
  · rw [if_neg hdeflated] at h
    cases h

theorem Decodes.unpackPayload {method : Nat} {compressed data : List UInt8} {info : ZipInfo}
    (h : Decodes zlib info method compressed data) :
    ∃ repair, ApkExtract.unpackPayload zlib method compressed info = .ok (data, repair) := by
  cases h with
  | stored => exact ⟨none, rfl⟩
  | deflated h =>
    refine ⟨none, ?_⟩
    simp only [ApkExtract.unpackPayload, h]
    rfl
  | @restored compressed data e position value hbroken hfails hmend =>
    refine ⟨some (position, value), ?_⟩
    simp only [ApkExtract.unpackPayload, hbroken, (repair_eq_ok hfails).mpr hmend]
    rfl

/-- A check that raises, and what comes after it. -/
theorem checked_iff {ε α : Type} {p : Prop} [Decidable (¬ p)] {cause : ε} {rest : Except ε α}
    {a : α} : (if ¬ p then .error cause else rest) = .ok a ↔ p ∧ rest = .ok a := by
  by_cases hp : p
  · rw [if_neg (not_not.mpr hp)]
    exact (and_iff_right hp).symm
  · rw [if_pos hp]
    exact ⟨(fun h => nomatch h), fun h => absurd h.1 hp⟩

theorem unpackEntry_iff {blob data : List UInt8} {info : ZipInfo} {offset crc : Nat}
    {repair : Option (Nat × UInt8)} :
    unpackEntry zlib blob info offset = .ok (data, crc, repair) ↔
      ∃ fields, unpackFrom blob offset = some fields ∧ fields.magic = 0x04034b50 ∧
        fields.flags &&& 0x1 = 0 ∧
        (payload blob fields info offset).length = info.compressSize ∧
        unpackPayload zlib fields.method (payload blob fields info offset) info =
          .ok (data, repair) ∧
        data.length = info.fileSize ∧ crc32 data = crc := by
  unfold unpackEntry
  cases hfields : unpackFrom blob offset with
  | none => simp
  | some fields =>
    simp only [ne_eq, checked_iff, Option.some.injEq, exists_eq_left']
    refine and_congr Iff.rfl (and_congr Iff.rfl (and_congr Iff.rfl ?_))
    cases unpackPayload zlib fields.method (payload blob fields info offset) info with
    | error cause => simp
    | ok result =>
      simp only [checked_iff, Except.ok.injEq, Prod.ext_iff]
      constructor
      · rintro ⟨hsize, rfl, rfl, rfl⟩
        exact ⟨⟨rfl, rfl⟩, hsize, rfl⟩
      · rintro ⟨⟨rfl, rfl⟩, hsize, rfl⟩
        exact ⟨hsize, rfl, rfl, rfl⟩

theorem unpackEntry_unpacks {blob data : List UInt8} {info : ZipInfo} {offset crc : Nat}
    {repair : Option (Nat × UInt8)}
    (h : unpackEntry zlib blob info offset = .ok (data, crc, repair)) :
    Unpacks zlib blob info offset data := by
  obtain ⟨fields, hfields, hmagic, hplain, hwhole, hpayload, hsize, _⟩ := unpackEntry_iff.mp h
  exact ⟨fields, hfields, hmagic, hplain, hwhole, unpackPayload_decodes hpayload, hsize⟩

theorem Unpacks.unpackEntry {blob data : List UInt8} {info : ZipInfo} {offset : Nat}
    (h : Unpacks zlib blob info offset data) :
    ∃ repair, ApkExtract.unpackEntry zlib blob info offset = .ok (data, crc32 data, repair) := by
  obtain ⟨fields, hfields, hmagic, hplain, hwhole, hdecodes, hsize⟩ := h
  obtain ⟨repair, hpayload⟩ := hdecodes.unpackPayload
  exact ⟨repair, unpackEntry_iff.mpr
    ⟨fields, hfields, hmagic, hplain, hwhole, hpayload, hsize, rfl⟩⟩

/-- A header and the bytes behind it give one content. -/
theorem Unpacks.unique {blob data data' : List UInt8} {info : ZipInfo} {offset : Nat}
    (h : Unpacks zlib blob info offset data) (h' : Unpacks zlib blob info offset data') :
    data = data' := by
  obtain ⟨repair, hrun⟩ := h.unpackEntry
  obtain ⟨repair', hrun'⟩ := h'.unpackEntry
  exact (Prod.mk.inj (Except.ok.inj (hrun.symm.trans hrun'))).1

end Unpacked

end Asm2Runtime.ApkExtract
