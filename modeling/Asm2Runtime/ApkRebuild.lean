import Asm2Runtime.ApkExtract
import Asm2Runtime.Sha256
import Mathlib.Data.List.Basic
import Mathlib.Data.List.Forall2

/-!
# The rebuilt runtime APK

`recover`, `build` and `verify` of rebuild_runtime_apk.py. Python's `zipfile` is the
parameter `zipfile`, and `hashlib.sha256` the parameter `sha256`. What is printed on the
way is left out.
-/

namespace Asm2Runtime.ApkRebuild

open DeflateRepair ApkExtract

abbrev Bytes := List UInt8

/-- The parts of `zipfile` that are used; `none` stands for an exception. -/
structure ZipModule where
  /-- `ZipFile(path, "r").infolist()` -/
  infolist : Bytes → Option (List ZipInfo)
  /-- `ZipFile(path, "r").comment` -/
  comment : Bytes → Bytes
  /-- `testzip()`, the first bad member. -/
  testzip : Bytes → Option String
  read : Bytes → ZipInfo → Option Bytes
  /-- The file of an archive with this comment after one `writestr` for each item. -/
  write : Bytes → List (ZipInfo × Bytes) → Option Bytes
  /-- The name that a header's name field stands for under its flags. -/
  decodeName : Nat → Bytes → String

inductive RebuildError where
  | badZipFile
  | recovery (cause : RecoverError)
  /-- "duplicate entry names are unsupported" -/
  | duplicateNames
  /-- "physical local header not found" -/
  | headerNotFound (filename : String)
  /-- "unsupported compression method" -/
  | unsupportedMethod (compressType : Nat) (filename : String)
  /-- "standard ZIP CRC test failed" -/
  | crcTest (member : String)
  /-- "entry count mismatch" -/
  | entryCount (got expected : Nat)
  /-- "entry order/name mismatch" -/
  | entryName (got expected : String)
  /-- "compression method mismatch" -/
  | entryMethod (filename : String) (got expected : Nat)
  /-- "size mismatch" -/
  | entrySize (filename : String) (got expected : Nat)
  /-- "CRC mismatch" -/
  | entryCrc (filename : String) (got expected : Nat)
  /-- "byte comparison failed" -/
  | entryBytes (filename : String)

/-- `SUPPORTED_METHODS` -/
def supportedMethods : List Nat := [zipStored, zipDeflated]

structure RecoveredEntry (δ : Type) where
  name : String
  compressType : Nat
  size : Nat
  crc : Nat
  sha256 : δ

/-- `output_info`: the metadata that is copied, the rest as `ZipInfo` sets it. -/
def outputInfo (source : ZipInfo) : ZipInfo :=
  { filename := source.filename
    dateTime := source.dateTime
    compressType := zipStored
    comment := source.comment
    extra := source.extra
    createSystem := source.createSystem
    createVersion := source.createVersion
    extractVersion := source.extractVersion
    internalAttr := source.internalAttr
    externalAttr := source.externalAttr
    volume := source.volume
    crc := 0
    compressSize := 0
    fileSize := 0
    headerOffset := 0 }

section Rebuild

variable {δ : Type} (zlib : Inflate) (zipfile : ZipModule) (sha256 : Bytes → δ)

def recover (blob : Bytes) (info : ZipInfo) (headers : List (String × Nat)) :
    Except RebuildError (Bytes × Nat × Option (Nat × UInt8)) :=
  match headers.lookup info.filename with
  | none => .error (.headerNotFound info.filename)
  | some offset =>
    if info.compressType ∉ supportedMethods then
      .error (.unsupportedMethod info.compressType info.filename)
    else (unpackEntry zlib blob info offset).mapError .recovery

/-- The loop of `build` over the members: what is written for each, and what is noted. -/
def recoverAll (blob : Bytes) (headers : List (String × Nat)) :
    List ZipInfo → Except RebuildError (List ((ZipInfo × Bytes) × RecoveredEntry δ))
  | [] => .ok []
  | info :: rest =>
    match recover zlib blob info headers with
    | .error cause => .error cause
    | .ok (data, actualCrc, _) =>
      match recoverAll blob headers rest with
      | .error cause => .error cause
      | .ok others =>
        .ok (((outputInfo info, data),
          { name := info.filename, compressType := zipStored, size := data.length,
            crc := actualCrc, sha256 := sha256 data }) :: others)

/-- `build` up to the writing of the archive. -/
def recoverArchive (source : Bytes) :
    Except RebuildError (List ((ZipInfo × Bytes) × RecoveredEntry δ)) :=
  match zipfile.infolist source with
  | none => .error .badZipFile
  | some infos =>
    if ¬ (infos.map ZipInfo.filename).Nodup then .error .duplicateNames
    else recoverAll zlib sha256 source (physicalHeaders source) infos

/-- `build`: the temporary file and the entries that are expected in it. -/
def build (source : Bytes) : Except RebuildError (Bytes × List (RecoveredEntry δ)) :=
  match recoverArchive zlib zipfile sha256 source with
  | .error cause => .error cause
  | .ok recovered =>
    match zipfile.write (zipfile.comment source) (recovered.map Prod.fst) with
    | none => .error .badZipFile
    | some runtime => .ok (runtime, recovered.map Prod.snd)

variable [DecidableEq δ]

/-- The checks of `verify` on one entry. -/
def verifyEntry (runtime : Bytes) (info : ZipInfo) (reference : RecoveredEntry δ) :
    Except RebuildError Unit :=
  if info.filename ≠ reference.name then .error (.entryName info.filename reference.name)
  else if info.compressType ≠ reference.compressType then
    .error (.entryMethod info.filename info.compressType reference.compressType)
  else if info.fileSize ≠ reference.size then
    .error (.entrySize info.filename info.fileSize reference.size)
  else if info.crc ≠ reference.crc then
    .error (.entryCrc info.filename info.crc reference.crc)
  else
    match zipfile.read runtime info with
    | none => .error .badZipFile
    | some data =>
      if crc32 data ≠ reference.crc ∨ sha256 data ≠ reference.sha256 then
        .error (.entryBytes info.filename)
      else .ok ()

def verifyEntries (runtime : Bytes) :
    List (ZipInfo × RecoveredEntry δ) → Except RebuildError Unit
  | [] => .ok ()
  | (info, reference) :: rest =>
    match verifyEntry zipfile sha256 runtime info reference with
    | .error cause => .error cause
    | .ok () => verifyEntries runtime rest

/-- `verify` -/
def verify (runtime : Bytes) (expected : List (RecoveredEntry δ)) : Except RebuildError Unit :=
  match zipfile.testzip runtime with
  | some member => .error (.crcTest member)
  | none =>
    match zipfile.infolist runtime with
    | none => .error .badZipFile
    | some infos =>
      if infos.length ≠ expected.length then
        .error (.entryCount infos.length expected.length)
      else verifyEntries zipfile sha256 runtime (infos.zip expected)

/-- The archive that `main` puts in place, `build` and `verify` having accepted it. -/
def rebuild (source : Bytes) : Except RebuildError Bytes :=
  match build zlib zipfile sha256 source with
  | .error cause => .error cause
  | .ok (runtime, expected) =>
    match verify zipfile sha256 runtime expected with
    | .error cause => .error cause
    | .ok () => .ok runtime

end Rebuild

/-! ## Archives and their members -/

structure Member where
  info : ZipInfo
  contents : Bytes

/-- The member's own header carries its name and is followed by its payload. -/
def StandsIn (zlib : Inflate) (zipfile : ZipModule) (source : Bytes) (m : Member) : Prop :=
  ∃ fields, unpackFrom source m.info.headerOffset = some fields ∧
    fields.magic = 0x04034b50 ∧ fields.flags &&& 0x1 = 0 ∧
    fields.method = m.info.compressType ∧
    zipfile.decodeName fields.flags
      (slice source (m.info.headerOffset + localHeaderSize)
        (m.info.headerOffset + localHeaderSize + fields.nameLength)) = m.info.filename ∧
    (payload source fields m.info m.info.headerOffset).length = m.info.compressSize ∧
    (fields.method = zipStored ∧
        m.contents = payload source fields m.info m.info.headerOffset ∨
      fields.method = zipDeflated ∧
        zlib.decode (payload source fields m.info m.info.headerOffset) = some m.contents) ∧
    m.contents.length = m.info.fileSize ∧ crc32 m.contents = m.info.crc

/-- A well-formed archive with unique names. What else stands in the file, and what the
contents are, is free. -/
structure Archive (zlib : Inflate) (zipfile : ZipModule) (source : Bytes)
    (members : List Member) : Prop where
  listed : zipfile.infolist source = some (members.map Member.info)
  unique : (members.map fun m => m.info.filename).Nodup
  stands : ∀ m ∈ members, StandsIn zlib zipfile source m

/-- The members of `runtime`, in their order, have the names and the contents of `members`. -/
def Preserves (zipfile : ZipModule) (runtime : Bytes) (members : List Member) : Prop :=
  ∃ infos, zipfile.infolist runtime = some infos ∧
    List.Forall₂ (fun info m => info.filename = m.info.filename ∧
      zipfile.read runtime info = some m.contents) infos members

/-- The members of an archive are read as the contents that were written. -/
def ReadsBack (zipfile : ZipModule) (runtime : Bytes) (items : List (ZipInfo × Bytes)) : Prop :=
  ∀ infos, zipfile.infolist runtime = some infos →
    List.Forall₂ (fun info item => zipfile.read runtime info = some item.2) infos items

/-- Where the first run with a member's name is not its own header, the bytes behind it unpack
to the member's contents all the same. -/
def DecoysAgree (zlib : Inflate) (source : Bytes) (members : List Member) : Prop :=
  ∀ m ∈ members, ∀ offset, FirstHeader source m.info.filename offset →
    offset ≠ m.info.headerOffset → Unpacks zlib source m.info offset m.contents

/-! ## What the build and its verification accept -/

section Accepted

variable {δ : Type} {zlib : Inflate} {zipfile : ZipModule} {sha256 : Bytes → δ}
  {source runtime : Bytes}

theorem forall₂_join {α β γ : Type*} {R : α → β → Prop} {S : β → γ → Prop} {as : List α}
    {bs : List β} {cs : List γ} (hR : List.Forall₂ R as bs) (hS : List.Forall₂ S bs cs) :
    List.Forall₂ (fun a c => ∃ b, R a b ∧ S b c) as cs := by
  induction hR generalizing cs with
  | nil =>
    cases hS
    exact List.Forall₂.nil
  | cons hab _ ih =>
    cases hS with
    | cons hbc hrest => exact List.Forall₂.cons ⟨_, hab, hbc⟩ (ih hrest)

theorem exists_mem_zip {α β : Type*} {as : List α} {bs : List β}
    (hlength : as.length = bs.length) {b : β} (hb : b ∈ bs) : ∃ a, (a, b) ∈ as.zip bs := by
  rw [← List.map_snd_zip (Nat.le_of_eq hlength.symm)] at hb
  obtain ⟨pair, hpair, rfl⟩ := List.mem_map.mp hb
  exact ⟨pair.1, hpair⟩

/-- A member is recovered from the first header with its name. -/
theorem recover_ok {info : ZipInfo} {data : Bytes} {crc : Nat} {repair : Option (Nat × UInt8)}
    (h : recover zlib source info (physicalHeaders source) = .ok (data, crc, repair)) :
    ∃ offset, FirstHeader source info.filename offset ∧ Unpacks zlib source info offset data := by
  unfold recover at h
  cases hlookup : (physicalHeaders source).lookup info.filename with
  | none =>
    rw [hlookup] at h
    cases h
  | some offset =>
    rw [hlookup] at h
    dsimp only at h
    refine ⟨offset, (physicalHeaders_lookup source info.filename offset).mp hlookup, ?_⟩
    by_cases hmethod : info.compressType ∉ supportedMethods
    · rw [if_pos hmethod] at h
      cases h
    rw [if_neg hmethod] at h
    cases hunpack : unpackEntry zlib source info offset with
    | error cause =>
      rw [hunpack] at h
      cases h
    | ok result =>
      rw [hunpack] at h
      obtain rfl : result = (data, crc, repair) := Except.ok.inj h
      exact unpackEntry_unpacks hunpack

/-- What is written for a member, and what is expected of it. -/
def Recovered (zlib : Inflate) (source : Bytes) (info : ZipInfo)
    (r : (ZipInfo × Bytes) × RecoveredEntry δ) : Prop :=
  r.2.name = info.filename ∧
    ∃ offset, FirstHeader source info.filename offset ∧ Unpacks zlib source info offset r.1.2

theorem recoverAll_ok (infos : List ZipInfo)
    {recovered : List ((ZipInfo × Bytes) × RecoveredEntry δ)}
    (h : recoverAll zlib sha256 source (physicalHeaders source) infos = .ok recovered) :
    List.Forall₂ (Recovered zlib source) infos recovered := by
  induction infos generalizing recovered with
  | nil =>
    obtain rfl : [] = recovered := Except.ok.inj h
    exact List.Forall₂.nil
  | cons info rest ih =>
    rw [recoverAll] at h
    cases hrecover : recover zlib source info (physicalHeaders source) with
    | error cause =>
      rw [hrecover] at h
      cases h
    | ok result =>
      obtain ⟨data, crc, repair⟩ := result
      rw [hrecover] at h
      dsimp only at h
      cases hrest : recoverAll zlib sha256 source (physicalHeaders source) rest with
      | error cause =>
        rw [hrest] at h
        cases h
      | ok others =>
        rw [hrest] at h
        obtain rfl := Except.ok.inj h
        exact List.Forall₂.cons ⟨rfl, recover_ok hrecover⟩ (ih hrest)

theorem recoverArchive_ok {members : List Member}
    {recovered : List ((ZipInfo × Bytes) × RecoveredEntry δ)}
    (harchive : Archive zlib zipfile source members)
    (h : recoverArchive zlib zipfile sha256 source = .ok recovered) :
    List.Forall₂ (fun r m => Recovered zlib source m.info r) recovered members := by
  have hunique : ((members.map Member.info).map ZipInfo.filename).Nodup := by
    rw [List.map_map]
    exact harchive.unique
  rw [recoverArchive, harchive.listed] at h
  dsimp only at h
  rw [if_neg (not_not.mpr hunique)] at h
  exact (List.forall₂_map_left_iff.mp (recoverAll_ok _ h)).flip

variable [DecidableEq δ]

/-- An entry that agrees with what was recovered for it. -/
def Confirms (zipfile : ZipModule) (sha256 : Bytes → δ) (runtime : Bytes) (info : ZipInfo)
    (reference : RecoveredEntry δ) : Prop :=
  info.filename = reference.name ∧ info.compressType = reference.compressType ∧
    info.fileSize = reference.size ∧ info.crc = reference.crc ∧
    ∃ data, zipfile.read runtime info = some data ∧ crc32 data = reference.crc ∧
      sha256 data = reference.sha256

theorem verifyEntry_iff {info : ZipInfo} {reference : RecoveredEntry δ} :
    verifyEntry zipfile sha256 runtime info reference = .ok () ↔
      Confirms zipfile sha256 runtime info reference := by
  simp only [verifyEntry, ne_eq, checked_iff, Confirms]
  refine and_congr Iff.rfl (and_congr Iff.rfl (and_congr Iff.rfl (and_congr Iff.rfl ?_)))
  cases hread : zipfile.read runtime info with
  | none => simp
  | some data =>
    simp only [Option.some.injEq, exists_eq_left', ← not_and_or, checked_iff, and_true]

theorem verifyEntries_iff (infos : List ZipInfo) (expected : List (RecoveredEntry δ))
    (hlength : infos.length = expected.length) :
    verifyEntries zipfile sha256 runtime (infos.zip expected) = .ok () ↔
      List.Forall₂ (Confirms zipfile sha256 runtime) infos expected := by
  induction infos generalizing expected with
  | nil =>
    obtain rfl : expected = [] := List.length_eq_zero_iff.mp hlength.symm
    exact ⟨fun _ => List.Forall₂.nil, fun _ => rfl⟩
  | cons info infos ih =>
    cases expected with
    | nil => cases hlength
    | cons reference expected =>
      rw [List.zip_cons_cons, verifyEntries, List.forall₂_cons, ← verifyEntry_iff,
        ← ih expected (Nat.succ.inj hlength)]
      cases verifyEntry zipfile sha256 runtime info reference with
      | error cause => simp
      | ok accepted => simp

/-- What `verify` accepts: as many entries as were recovered, each agreeing with its own. -/
theorem verify_iff {expected : List (RecoveredEntry δ)} :
    verify zipfile sha256 runtime expected = .ok () ↔
      zipfile.testzip runtime = none ∧ ∃ infos, zipfile.infolist runtime = some infos ∧
        List.Forall₂ (Confirms zipfile sha256 runtime) infos expected := by
  unfold verify
  cases htest : zipfile.testzip runtime with
  | some member => simp
  | none =>
    cases hlist : zipfile.infolist runtime with
    | none => simp
    | some infos =>
      by_cases hlength : infos.length = expected.length
      · simp only [hlength, ne_eq, not_true_eq_false, if_false, Option.some.injEq, true_and,
          exists_eq_left']
        exact verifyEntries_iff infos expected hlength
      · dsimp only
        rw [if_pos hlength]
        simp only [reduceCtorEq, true_and, Option.some.injEq, exists_eq_left', false_iff]
        exact fun hall => hlength hall.length_eq

/-- Every member of an accepted archive is what the first header with its name gave. -/
theorem rebuild_members {members : List Member}
    (harchive : Archive zlib zipfile source members)
    (hrebuild : rebuild zlib zipfile sha256 source = .ok runtime)
    (hread : ∀ recovered, recoverArchive zlib zipfile sha256 source = .ok recovered →
      ReadsBack zipfile runtime (recovered.map Prod.fst)) :
    ∃ infos, zipfile.infolist runtime = some infos ∧
      List.Forall₂ (fun info m => info.filename = m.info.filename ∧
        ∃ offset data, FirstHeader source m.info.filename offset ∧
          Unpacks zlib source m.info offset data ∧ zipfile.read runtime info = some data)
        infos members := by
  unfold rebuild build at hrebuild
  cases hrecover : recoverArchive zlib zipfile sha256 source with
  | error cause =>
    rw [hrecover] at hrebuild
    cases hrebuild
  | ok recovered =>
    rw [hrecover] at hrebuild
    dsimp only at hrebuild
    cases hwrite : zipfile.write (zipfile.comment source) (recovered.map Prod.fst) with
    | none =>
      rw [hwrite] at hrebuild
      cases hrebuild
    | some written =>
      rw [hwrite] at hrebuild
      dsimp only at hrebuild
      cases hverify : verify zipfile sha256 written (recovered.map Prod.snd) with
      | error cause =>
        rw [hverify] at hrebuild
        cases hrebuild
      | ok accepted =>
        rw [hverify] at hrebuild
        obtain rfl : written = runtime := Except.ok.inj hrebuild
        obtain ⟨_, infos, hlist, hentries⟩ := verify_iff.mp hverify
        refine ⟨infos, hlist, ?_⟩
        have hdata := List.forall₂_map_right_iff.mp (hread recovered hrecover infos hlist)
        have hboth := List.Forall₂.mp (fun _ _ hentry hdata => And.intro hentry hdata)
          (List.forall₂_map_right_iff.mp hentries) hdata
        refine (forall₂_join hboth (recoverArchive_ok harchive hrecover)).imp ?_
        rintro info m ⟨r, ⟨hentry, hdata⟩, hexpected, offset, hfirst, hunpacks⟩
        exact ⟨hentry.1.trans hexpected, offset, r.1.2, hfirst, hunpacks, hdata⟩

end Accepted

/-! ## When the members are preserved -/

section Preserved

variable {zlib : Inflate} {zipfile : ZipModule} {source : Bytes}

/-- A member's own header and payload unpack to its contents. -/
theorem StandsIn.unpacks {m : Member} (h : StandsIn zlib zipfile source m) :
    Unpacks zlib source m.info m.info.headerOffset m.contents := by
  obtain ⟨fields, hfields, hmagic, hplain, _, _, hwhole, hdecodes, hsize, _⟩ := h
  refine ⟨fields, hfields, hmagic, hplain, hwhole, ?_, hsize⟩
  obtain ⟨hmethod, hstored⟩ | ⟨hmethod, hdeflated⟩ := hdecodes
  · rw [hmethod, ← hstored]
    exact Decodes.stored m.contents
  · rw [hmethod]
    exact Decodes.deflated hdeflated

theorem FirstHeader.unique {blob : Bytes} {name : String} {offset other : Nat}
    (h : FirstHeader blob name offset) (h' : FirstHeader blob name other) : offset = other := by
  have hle : ¬ other < offset := fun hlt => h.2 other hlt h'.1
  have hge : ¬ offset < other := fun hlt => h'.2 offset hlt h.1
  omega

/-- A member comes out right exactly when the first header with its name, if it is another
one, has the same contents behind it. -/
theorem member_preserved_iff {m : Member} (hm : StandsIn zlib zipfile source m)
    {offset : Nat} {data : Bytes} (hfirst : FirstHeader source m.info.filename offset)
    (hunpacks : Unpacks zlib source m.info offset data) :
    data = m.contents ↔ ∀ other, FirstHeader source m.info.filename other →
      other ≠ m.info.headerOffset → Unpacks zlib source m.info other m.contents := by
  constructor
  · rintro rfl other hother _
    rwa [FirstHeader.unique hother hfirst]
  · intro hagree
    by_cases hown : offset = m.info.headerOffset
    · exact Unpacks.unique hunpacks (hown ▸ hm.unpacks)
    · exact Unpacks.unique hunpacks (hagree offset hfirst hown)

/-- An accepted archive has the members of its source exactly when no header-like run inside
the source passes off other bytes as a member's. -/
theorem rebuild_preserves_iff {δ : Type} [DecidableEq δ] {sha256 : Bytes → δ} {runtime : Bytes}
    {members : List Member} (harchive : Archive zlib zipfile source members)
    (hrebuild : rebuild zlib zipfile sha256 source = .ok runtime)
    (hread : ∀ recovered, recoverArchive zlib zipfile sha256 source = .ok recovered →
      ReadsBack zipfile runtime (recovered.map Prod.fst)) :
    Preserves zipfile runtime members ↔ DecoysAgree zlib source members := by
  obtain ⟨infos, hlist, hmembers⟩ := rebuild_members harchive hrebuild hread
  have hpreserves : Preserves zipfile runtime members ↔
      List.Forall₂ (fun info m => info.filename = m.info.filename ∧
        zipfile.read runtime info = some m.contents) infos members := by
    constructor
    · rintro ⟨listed, hlisted, hsame⟩
      rw [hlist] at hlisted
      rwa [Option.some.inj hlisted]
    · exact fun hsame => ⟨infos, hlist, hsame⟩
  rw [hpreserves, List.forall₂_iff_zip]
  rw [List.forall₂_iff_zip] at hmembers
  obtain ⟨hlength, hmembers⟩ := hmembers
  constructor
  · rintro ⟨_, hsame⟩ m hm
    obtain ⟨info, hpair⟩ := exists_mem_zip hlength hm
    obtain ⟨_, offset, data, hfirst, hunpacks, hdata⟩ := hmembers hpair
    refine (member_preserved_iff (harchive.stands m hm) hfirst hunpacks).mp ?_
    exact Option.some.inj (hdata.symm.trans (hsame hpair).2)
  · intro hagree
    refine ⟨hlength, ?_⟩
    intro info m hpair
    obtain ⟨hname, offset, data, hfirst, hunpacks, hdata⟩ := hmembers hpair
    have hm := (List.of_mem_zip hpair).2
    rw [← (member_preserved_iff (harchive.stands m hm) hfirst hunpacks).mpr (hagree m hm)]
    exact ⟨hname, hdata⟩

end Preserved

/-! ## An archive with a header among its data

A reader and a writer of archives without comments, names being ASCII, to run the tool on. -/

section Plain

def numberBytes (width value : Nat) : Bytes :=
  (List.range width).map fun i => UInt8.ofNat (value / 256 ^ i)

def nameBytes (name : String) : Bytes := name.toByteArray.data.toList

def dosDate : List Nat → Nat
  | [year, month, day, _, _, _] => (year - 1980) * 512 + month * 32 + day
  | _ => 0

def dosTime : List Nat → Nat
  | [_, _, _, hour, minute, second] => hour * 2048 + minute * 32 + second / 2
  | _ => 0

/-- The fields that a local and a central header share, from the flags to the extra length. -/
def sharedFields (item : ZipInfo × Bytes) : Bytes :=
  numberBytes 2 0 ++ numberBytes 2 zipStored ++ numberBytes 2 (dosTime item.1.dateTime) ++
    numberBytes 2 (dosDate item.1.dateTime) ++ numberBytes 4 (crc32 item.2) ++
    numberBytes 4 item.2.length ++ numberBytes 4 item.2.length ++
    numberBytes 2 (nameBytes item.1.filename).length ++ numberBytes 2 item.1.extra.length

def localRecord (item : ZipInfo × Bytes) : Bytes :=
  localMagic ++ numberBytes 2 item.1.extractVersion ++ sharedFields item ++
    nameBytes item.1.filename ++ item.1.extra ++ item.2

def centralMagic : Bytes := [0x50, 0x4b, 0x01, 0x02]

def centralRecord (offset : Nat) (item : ZipInfo × Bytes) : Bytes :=
  centralMagic ++ numberBytes 1 item.1.createVersion ++ numberBytes 1 item.1.createSystem ++
    numberBytes 2 item.1.extractVersion ++ sharedFields item ++
    numberBytes 2 item.1.comment.length ++ numberBytes 2 item.1.volume ++
    numberBytes 2 item.1.internalAttr ++ numberBytes 4 item.1.externalAttr ++
    numberBytes 4 offset ++ nameBytes item.1.filename ++ item.1.extra ++ item.1.comment

def centralRecords : Nat → List (ZipInfo × Bytes) → Bytes
  | _, [] => []
  | offset, item :: rest =>
    centralRecord offset item ++ centralRecords (offset + (localRecord item).length) rest

def endMagic : Bytes := [0x50, 0x4b, 0x05, 0x06]

def writeArchive (items : List (ZipInfo × Bytes)) : Bytes :=
  let locals := items.flatMap localRecord
  let centrals := centralRecords 0 items
  locals ++ centrals ++
    (endMagic ++ numberBytes 2 0 ++ numberBytes 2 0 ++ numberBytes 2 items.length ++
      numberBytes 2 items.length ++ numberBytes 4 centrals.length ++
      numberBytes 4 locals.length ++ numberBytes 2 0)

def asciiName (bytes : Bytes) : String := String.ofList (bytes.map fun b => Char.ofNat b.toNat)

def dateTimeOf (date time : Nat) : List Nat :=
  [date / 512 + 1980, date / 32 % 16, date % 32, time / 2048, time / 32 % 64, time % 32 * 2]

/-- The central record at `offset`, and the offset behind it. -/
def readCentral (blob : Bytes) (offset : Nat) : Option (ZipInfo × Nat) :=
  let nameStart := offset + 46
  let nameEnd := nameStart + number blob (offset + 28) 2
  let extraEnd := nameEnd + number blob (offset + 30) 2
  let commentEnd := extraEnd + number blob (offset + 32) 2
  if slice blob offset (offset + 4) = centralMagic ∧ commentEnd ≤ blob.length then
    some
      ({ filename := asciiName (slice blob nameStart nameEnd)
         dateTime := dateTimeOf (number blob (offset + 14) 2) (number blob (offset + 12) 2)
         compressType := number blob (offset + 10) 2
         comment := slice blob extraEnd commentEnd
         extra := slice blob nameEnd extraEnd
         createSystem := number blob (offset + 5) 1
         createVersion := number blob (offset + 4) 1
         extractVersion := number blob (offset + 6) 2
         internalAttr := number blob (offset + 36) 2
         externalAttr := number blob (offset + 38) 4
         volume := number blob (offset + 34) 2
         crc := number blob (offset + 16) 4
         compressSize := number blob (offset + 20) 4
         fileSize := number blob (offset + 24) 4
         headerOffset := number blob (offset + 42) 4 }, commentEnd)
  else none

def readCentrals (blob : Bytes) : Nat → Nat → Option (List ZipInfo)
  | 0, _ => some []
  | count + 1, offset => do
    let (info, next) ← readCentral blob offset
    let rest ← readCentrals blob count next
    return info :: rest

def plainInfolist (blob : Bytes) : Option (List ZipInfo) :=
  let ending := blob.length - 22
  if slice blob ending (ending + 4) = endMagic then
    readCentrals blob (number blob (ending + 10) 2) (number blob (ending + 16) 4)
  else none

/-- A stored member whose bytes have its CRC. -/
def plainRead (blob : Bytes) (info : ZipInfo) : Option Bytes := do
  let fields ← unpackFrom blob info.headerOffset
  let data := payload blob fields info info.headerOffset
  if fields.method = zipStored ∧ crc32 data = info.crc then some data else none

def plainTestzip (blob : Bytes) : Option String := do
  let infos ← plainInfolist blob
  let bad ← infos.find? fun info => (plainRead blob info).isNone
  return bad.filename

def plainZip : ZipModule where
  infolist := plainInfolist
  comment _ := []
  testzip := plainTestzip
  read := plainRead
  write _ items := some (writeArchive items)
  decodeName _ := asciiName

/-- `hashlib.sha256(data).hexdigest()` -/
def hexDigest (data : Bytes) : String :=
  String.ofList
    ((BlockStream.blocks 4 (Sha256.sha256 (data.flatMap fun b => Sha256.bitsOf b.toBitVec))).map
      fun bits => Nat.digitChar (Sha256.natOfBits bits))

/-- `ZipInfo(filename)`, made on Unix, as it is for a stored member. -/
def plainInfo (filename : String) : ZipInfo :=
  { filename := filename, dateTime := [1980, 1, 1, 0, 0, 0], compressType := zipStored,
    comment := [], extra := [], createSystem := 3, createVersion := 20, extractVersion := 20,
    internalAttr := 0, externalAttr := 0x1800000, volume := 0, crc := 0, compressSize := 0,
    fileSize := 0, headerOffset := 0 }

/-- The member `a` holds a stored archive member of the name `b`, with the contents `X`. -/
def nested : Bytes := localRecord (plainInfo "b", [0x58])

/-- The archive of `a` and of a member `b` with the contents `Y`. -/
def nestedApk : Bytes := writeArchive [(plainInfo "a", nested), (plainInfo "b", [0x59])]

def outerMember : Member where
  info := { plainInfo "a" with crc := 0x0af78b72, compressSize := 32, fileSize := 32 }
  contents := nested

def ownMember : Member where
  info := { plainInfo "b" with
    crc := 0xc0b506dd, compressSize := 1, fileSize := 1, headerOffset := 63 }
  contents := [0x59]

def nestedMembers : List Member := [outerMember, ownMember]

/-- What comes out has the contents `X` for `b`. -/
def rebuiltApk : Bytes := writeArchive [(plainInfo "a", nested), (plainInfo "b", [0x58])]

/-- The central record of the member that came out for `b`. -/
def rebuiltInfo : ZipInfo :=
  { plainInfo "b" with crc := 0xb7b2364b, compressSize := 1, fileSize := 1, headerOffset := 63 }

/-- The local header that goes with a central record. -/
def plainHeader (info : ZipInfo) : LocalHeader :=
  { magic := 0x04034b50, extract := 20, flags := 0, method := zipStored, time := 0, date := 33,
    crc := info.crc, compressSize := info.compressSize, fileSize := info.fileSize,
    nameLength := 1, extraLength := 0 }

/-- A stored member behind the header that goes with its central record. -/
theorem standsIn_of_header {blob : Bytes} {m : Member} (hmethod : m.info.compressType = zipStored)
    (hheader : unpackFrom blob m.info.headerOffset = some (plainHeader m.info))
    (hname : asciiName (slice blob (m.info.headerOffset + 30) (m.info.headerOffset + 31)) =
      m.info.filename)
    (hpayload : payload blob (plainHeader m.info) m.info m.info.headerOffset = m.contents)
    (hcompress : m.contents.length = m.info.compressSize)
    (hsize : m.contents.length = m.info.fileSize) (hcrc : crc32 m.contents = m.info.crc) :
    StandsIn storedBlocks plainZip blob m :=
  ⟨plainHeader m.info, hheader, rfl, Nat.zero_and 1, hmethod.symm, hname,
    hpayload ▸ hcompress, Or.inl ⟨rfl, hpayload.symm⟩, hsize, hcrc⟩

/-- What is read in the archive: its members, and the headers in the order of the bytes. -/
theorem nestedApk_reads :
    plainZip.infolist nestedApk = some (nestedMembers.map Member.info) ∧
      (∀ m ∈ nestedMembers,
        unpackFrom nestedApk m.info.headerOffset = some (plainHeader m.info) ∧
        asciiName (slice nestedApk (m.info.headerOffset + 30) (m.info.headerOffset + 31)) =
          m.info.filename ∧
        payload nestedApk (plainHeader m.info) m.info m.info.headerOffset = m.contents ∧
        m.contents.length = m.info.compressSize ∧ m.contents.length = m.info.fileSize ∧
        crc32 m.contents = m.info.crc) ∧
      physicalHeaders nestedApk = [("a", 0), ("b", 31)] := by
  decide +kernel

theorem nestedApk_recovers :
    (recover storedBlocks nestedApk outerMember.info [("a", 0), ("b", 31)]).toOption =
        some (nested, 0x0af78b72, none) ∧
      (recover storedBlocks nestedApk ownMember.info [("a", 0), ("b", 31)]).toOption =
        some ([0x58], 0xb7b2364b, none) := by
  decide +kernel

/-- What is written for the recovered members, and what is read in it. -/
theorem rebuiltApk_reads :
    plainZip.write (plainZip.comment nestedApk)
        [(outputInfo outerMember.info, nested), (outputInfo ownMember.info, [0x58])] =
          some rebuiltApk ∧
      plainZip.infolist rebuiltApk = some [outerMember.info, rebuiltInfo] ∧
      plainZip.testzip rebuiltApk = none ∧
      plainZip.read rebuiltApk outerMember.info = some nested ∧
      plainZip.read rebuiltApk rebuiltInfo = some [0x58] ∧
      crc32 [0x58] = 0xb7b2364b := by
  decide +kernel

theorem nestedApk_archive : Archive storedBlocks plainZip nestedApk nestedMembers where
  listed := nestedApk_reads.1
  unique := by decide
  stands := by
    intro m hm
    obtain ⟨hheader, hname, hpayload, hcompress, hsize, hcrc⟩ := nestedApk_reads.2.1 m hm
    have hmethod : m.info.compressType = zipStored := by
      rw [nestedMembers, List.mem_cons, List.mem_singleton] at hm
      obtain rfl | rfl := hm <;> rfl
    exact standsIn_of_header hmethod hheader hname hpayload hcompress hsize hcrc

theorem nestedApk_recover {info : ZipInfo} {data : Bytes} {crc : Nat}
    (h : (recover storedBlocks nestedApk info [("a", 0), ("b", 31)]).toOption =
      some (data, crc, none)) :
    recover storedBlocks nestedApk info (physicalHeaders nestedApk) = .ok (data, crc, none) := by
  rw [nestedApk_reads.2.2]
  cases hrun : recover storedBlocks nestedApk info [("a", 0), ("b", 31)] with
  | error cause =>
    rw [hrun] at h
    cases h
  | ok found =>
    rw [hrun] at h
    exact congrArg _ (Option.some.inj h)

/-- The run of `build` over the two members. -/
theorem nestedApk_recovered (sha256 : Bytes → String) :
    recoverArchive storedBlocks plainZip sha256 nestedApk =
      .ok [((outputInfo outerMember.info, nested),
          ⟨"a", zipStored, nested.length, 0x0af78b72, sha256 nested⟩),
        ((outputInfo ownMember.info, [0x58]),
          ⟨"b", zipStored, 1, 0xb7b2364b, sha256 [0x58]⟩)] := by
  have hunique : ((nestedMembers.map Member.info).map ZipInfo.filename).Nodup := by decide
  have houter := nestedApk_recover nestedApk_recovers.1
  have hown := nestedApk_recover nestedApk_recovers.2
  rw [recoverArchive, nestedApk_reads.1]
  dsimp only
  rw [if_neg (not_not.mpr hunique), nestedMembers, List.map_cons, List.map_singleton]
  simp only [recoverAll, houter, hown]
  rfl

theorem nestedApk_rebuilt (sha256 : Bytes → String) :
    rebuild storedBlocks plainZip sha256 nestedApk = .ok rebuiltApk := by
  obtain ⟨hwrite, hlist, htest, houter, hown, hcrc⟩ := rebuiltApk_reads
  obtain ⟨_, _, _, _, hsize, hnested⟩ := nestedApk_reads.2.1 outerMember List.mem_cons_self
  have hverify : verify plainZip sha256 rebuiltApk
      [⟨"a", zipStored, nested.length, 0x0af78b72, sha256 nested⟩,
        ⟨"b", zipStored, 1, 0xb7b2364b, sha256 [0x58]⟩] = .ok () := by
    refine verify_iff.mpr ⟨htest, [outerMember.info, rebuiltInfo], hlist, ?_⟩
    refine List.Forall₂.cons ?_ (List.Forall₂.cons ?_ List.Forall₂.nil)
    · exact ⟨rfl, rfl, hsize.symm, rfl, nested, houter, hnested, rfl⟩
    · exact ⟨rfl, rfl, rfl, rfl, [0x58], hown, hcrc, rfl⟩
  rw [rebuild, build, nestedApk_recovered]
  simp only [List.map_cons, List.map_nil, hwrite, hverify]

theorem rebuiltApk_readsBack (sha256 : Bytes → String) :
    ∀ recovered, recoverArchive storedBlocks plainZip sha256 nestedApk = .ok recovered →
      ReadsBack plainZip rebuiltApk (recovered.map Prod.fst) := by
  intro recovered hrun infos hlist
  obtain ⟨_, hlisted, _, houter, hown, _⟩ := rebuiltApk_reads
  rw [nestedApk_recovered] at hrun
  rw [hlisted] at hlist
  obtain rfl := Except.ok.inj hrun
  obtain rfl := Option.some.inj hlist
  exact List.Forall₂.cons houter (List.Forall₂.cons hown List.Forall₂.nil)

theorem rebuiltApk_not_preserves : ¬ Preserves plainZip rebuiltApk nestedMembers := by
  rintro ⟨infos, hlist, hmembers⟩
  obtain ⟨_, hlisted, _, _, hown, _⟩ := rebuiltApk_reads
  rw [hlisted] at hlist
  obtain rfl := Option.some.inj hlist
  obtain ⟨_, hrest⟩ := List.forall₂_cons.mp hmembers
  have hread := (List.forall₂_cons.mp hrest).1.2
  rw [hown] at hread
  exact absurd hread (by decide)

/-- A well-formed archive that is rebuilt, verified, and comes out with another member `b`. -/
theorem nested_header_replaces_member :
    Archive storedBlocks plainZip nestedApk nestedMembers ∧
      (∀ sha256 : Bytes → String,
        rebuild storedBlocks plainZip sha256 nestedApk = .ok rebuiltApk ∧
          ∀ recovered, recoverArchive storedBlocks plainZip sha256 nestedApk = .ok recovered →
            ReadsBack plainZip rebuiltApk (recovered.map Prod.fst)) ∧
      ¬ Preserves plainZip rebuiltApk nestedMembers :=
  ⟨nestedApk_archive, fun sha256 => ⟨nestedApk_rebuilt sha256, rebuiltApk_readsBack sha256⟩,
    rebuiltApk_not_preserves⟩

theorem rebuild_preserves_iff_nested :
    Preserves plainZip rebuiltApk nestedMembers ↔
      DecoysAgree storedBlocks nestedApk nestedMembers :=
  rebuild_preserves_iff nestedApk_archive (nestedApk_rebuilt hexDigest)
    (rebuiltApk_readsBack hexDigest)

end Plain

end Asm2Runtime.ApkRebuild
