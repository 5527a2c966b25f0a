import Asm2Runtime.ShellNumber
import Mathlib.Data.List.DropRight

/-!
# The interpreter of an ELF file

u16le_at, u32le_at, u64le_at and elf_interpreter of run.sh. The arithmetic of the shell is
that of signed 64-bit numbers that wrap around. od fails on a negative offset and on one past
the end of the file, and dd reads nothing there; both stop at the end of the file.
-/

namespace Asm2Runtime.ElfInterpreter

open ShellNumber

abbrev Byte := BitVec 8

/-- A file of a size that `off_t` can hold. -/
structure File where
  size : Nat
  byte : Nat → Byte
  size_lt : size < 2 ^ 63

/-- The bytes from `offset` on, at most `count` of them. -/
def File.available (f : File) (offset count : Nat) : List Byte :=
  (List.range (min count (f.size - offset))).map fun i => f.byte (offset + i)

section Shell

variable (f : File)

/-- `od -An -v -t u1 -j "$skip" -N count "$file"` -/
def od (skip : Number) (count : Nat) : Option (List Byte) :=
  if skip.slt 0 ∨ f.size < skip.toNat then none else some (f.available skip.toNat count)

/-- What `u16le_at`, `u32le_at` and `u64le_at` have in common. -/
def leAt (count : Nat) (offset : Number) : Option Number := do
  let bytes ← od f offset count
  if bytes.length = count then some (shiftedSum bytes) else none

def u16leAt : Number → Option Number := leAt f 2

def u32leAt : Number → Option Number := leAt f 4

def u64leAt : Number → Option Number := leAt f 8

/-- `dd if="$file" bs=1 skip="$skip" count="$count"` -/
def dd (skip count : Number) : List Byte :=
  if skip.slt 0 ∨ count.slt 0 then [] else f.available skip.toNat count.toNat

/-- `wc -c < "$file"` -/
def fileSize : Number := BitVec.ofNat 64 f.size

/-- `$(... | tr -d '\000')` -/
def substituted (text : List Byte) : List Byte := (text.filter (· ≠ 0)).rdropWhile (· = 0x0a)

/-- The pattern `/*`. -/
def startsWithSlash (text : List Byte) : Bool := text.head? == some 0x2f

/-- A class with the offsets of its fields. -/
structure Layout where
  elf_class : Byte
  phoffAt : Nat
  phentsizeAt : Nat
  phnumAt : Nat
  phentsizeMin : Nat
  offsetAt : Nat
  fileszAt : Nat
  deriving DecidableEq, Repr

/-- `case "$elf_class"` -/
def layout (elf_class : Byte) : Option Layout :=
  if elf_class = 1 then some ⟨1, 28, 42, 44, 32, 4, 16⟩
  else if elf_class = 2 then some ⟨2, 32, 54, 56, 56, 8, 32⟩
  else none

/-- The function that reads the words of a class. -/
def wordAt (l : Layout) : Number → Option Number :=
  if l.elf_class = 1 then u32leAt f else u64leAt f

/-- The branch for a header of type PT_INTERP. -/
def interpreterAt (l : Layout) (entry : Number) : Option (List Byte) := do
  let p_offset ← wordAt f l (entry + BitVec.ofNat 64 l.offsetAt)
  let p_filesz ← wordAt f l (entry + BitVec.ofNat 64 l.fileszAt)
  if (0 : Number).sle p_offset ∧ (1 : Number).slt p_filesz ∧ p_filesz.sle 4096 ∧
      (p_offset + p_filesz).sle (fileSize f) then
    let interpreter := substituted (dd f p_offset p_filesz)
    if startsWithSlash interpreter then some interpreter else none
  else none

/-- The loop of `elf_interpreter` from `index` on, with `left` headers to go. -/
def scan (l : Layout) (phoff phentsize : Number) : Nat → Number → Option (List Byte)
  | 0, _ => none
  | left + 1, index =>
    let entry := phoff + index * phentsize
    if (0 : Number).sle entry ∧ (entry + phentsize).sle (fileSize f) then do
      let p_type ← u32leAt f entry
      if p_type = 3 then interpreterAt f l entry else scan l phoff phentsize left (index + 1)
    else none

/-- `elf_interpreter` -/
def elfInterpreter : Option (List Byte) := do
  let header ← od f 0 6
  if header.length = 6 ∧ header.take 4 = [127, 69, 76, 70] ∧ header.getD 5 0 = 1 then
    let l ← layout (header.getD 4 0)
    let phoff ← wordAt f l (BitVec.ofNat 64 l.phoffAt)
    let phentsize ← u16leAt f (BitVec.ofNat 64 l.phentsizeAt)
    let phnum ← u16leAt f (BitVec.ofNat 64 l.phnumAt)
    if (BitVec.ofNat 64 l.phentsizeMin).sle phentsize ∧ (0 : Number).sle phoff ∧
        (0 : Number).slt phnum ∧ phnum.sle 128 then
      scan f l phoff phentsize phnum.toNat 0
    else none
  else none

end Shell

/-! ## Well-formed headers -/

/-- The unsigned little-endian number of `count` bytes that lie in the file. -/
def File.field (f : File) (offset count : Nat) : Option Nat :=
  if offset + count ≤ f.size then some (littleEndian (f.available offset count)) else none

def Layout.wordBytes (l : Layout) : Nat := if l.elf_class = 1 then 4 else 8

/-- What the headers of a file say about its first header of type PT_INTERP. -/
structure Segment where
  layout : Layout
  phoff : Nat
  phentsize : Nat
  phnum : Nat
  index : Nat
  offset : Nat
  filesz : Nat

namespace Segment

variable (s : Segment)

/-- The offset of a program header. -/
def entry (j : Nat) : Nat := s.phoff + j * s.phentsize

/-- The end of the header of type PT_INTERP. -/
def entryEnd : Nat := s.entry s.index + s.phentsize

/-- The end of the bytes that it names. -/
def segmentEnd : Nat := s.offset + s.filesz

end Segment

/-- The fields that are read stand in the file and have these values. -/
structure Describes (f : File) (s : Segment) : Prop where
  ident : 6 ≤ f.size
  magic : f.available 0 4 = [127, 69, 76, 70]
  data : f.byte 5 = 1
  layout : layout (f.byte 4) = some s.layout
  phoff : f.field s.layout.phoffAt s.layout.wordBytes = some s.phoff
  phentsize : f.field s.layout.phentsizeAt 2 = some s.phentsize
  phnum : f.field s.layout.phnumAt 2 = some s.phnum
  sized : s.layout.phentsizeMin ≤ s.phentsize
  counted : 1 ≤ s.phnum ∧ s.phnum ≤ 128
  index : s.index < s.phnum
  first : ∀ j < s.index, ∃ type, f.field (s.entry j) 4 = some type ∧ type ≠ 3
  interp : f.field (s.entry s.index) 4 = some 3
  offset : f.field (s.entry s.index + s.layout.offsetAt) s.layout.wordBytes = some s.offset
  filesz : f.field (s.entry s.index + s.layout.fileszAt) s.layout.wordBytes = some s.filesz

/-- The bytes that the header names, without NUL bytes and the newlines at the end. -/
def Segment.path (f : File) (s : Segment) : List Byte :=
  substituted (f.available s.offset s.filesz)

/-- The header has an acceptable size and names a path. -/
structure Names (f : File) (s : Segment) : Prop extends Describes f s where
  size : 1 < s.filesz ∧ s.filesz ≤ 4096
  absolute : startsWithSlash (s.path f) = true

/-- A file whose first header of type PT_INTERP, and all before it, lie inside the file, like
the path `text` that it names. -/
def WellFormed (f : File) (text : List Byte) : Prop :=
  ∃ s : Segment, Names f s ∧ (∀ j ≤ s.index, s.entry j + s.phentsize ≤ f.size) ∧
    s.segmentEnd ≤ f.size ∧ text = s.path f

/-- The file ends before `n`, and `n` is not so large that it wraps. -/
def Rejects (f : File) (n : Nat) : Prop := f.size < n ∧ n < 2 ^ 63

instance (f : File) (n : Nat) : Decidable (Rejects f n) := inferInstanceAs (Decidable (_ ∧ _))

/-- Where one of the two sums of the header wraps around, the other one is rejected. -/
def NoWrap (f : File) : Prop :=
  ∀ s : Segment, Names f s →
    (2 ^ 63 ≤ s.entryEnd → Rejects f s.segmentEnd) ∧ (2 ^ 63 ≤ s.segmentEnd → Rejects f s.entryEnd)

/-! ## What is read -/

section Reads

variable {f : File} {l : Layout} {count value o : Nat}

theorem available_length (f : File) (o count : Nat) :
    (f.available o count).length = min count (f.size - o) := by
  simp [File.available]

theorem field_eq_some (h : f.field o count = some value) :
    o + count ≤ f.size ∧ value < 2 ^ (8 * count) := by
  unfold File.field at h
  split at h
  · rename_i hinside
    refine ⟨hinside, ?_⟩
    have hlength := available_length f o count
    rw [← Option.some.inj h]
    have hlt := littleEndian_lt (f.available o count)
    rwa [hlength, Nat.min_eq_left (by omega)] at hlt
  · cases h

/-- The fields are read as they stand in the file, and not at all when they do not lie in it. -/
theorem leAt_eq (f : File) (hcount : 0 < count) (x : Number) :
    leAt f count x = (f.field x.toNat count).map (BitVec.ofNat 64) := by
  have hsize := f.size_lt
  unfold leAt od File.field
  by_cases hstart : x.slt 0 = true ∨ f.size < x.toNat
  · have houtside : ¬ x.toNat + count ≤ f.size := by
      rw [slt_zero_iff] at hstart
      omega
    rw [if_pos hstart, if_neg houtside]
    rfl
  · rw [if_neg hstart, Option.bind_eq_bind, Option.bind_some, available_length, shiftedSum_eq]
    rw [not_or] at hstart
    by_cases hinside : x.toNat + count ≤ f.size
    · rw [if_pos (by omega), if_pos hinside]
      rfl
    · rw [if_neg (by omega), if_neg hinside]
      rfl

theorem wordBytes_le (l : Layout) : 0 < l.wordBytes ∧ l.wordBytes ≤ 8 := by
  unfold Layout.wordBytes
  split <;> decide

theorem wordAt_eq (f : File) (l : Layout) (x : Number) :
    wordAt f l x = (f.field x.toNat l.wordBytes).map (BitVec.ofNat 64) := by
  rw [← leAt_eq f (wordBytes_le l).1]
  unfold wordAt Layout.wordBytes
  split <;> rfl

theorem word_lt (h : f.field o l.wordBytes = some value) : value < 2 ^ 64 :=
  Nat.lt_of_lt_of_le (field_eq_some h).2
    (Nat.pow_le_pow_right Nat.two_pos (Nat.mul_le_mul_left 8 (wordBytes_le l).2))

theorem substituted_nil : substituted [] = [] := rfl

/-- A path begins inside the file. -/
theorem lt_size_of_path (h : startsWithSlash (substituted (f.available o count)) = true) :
    o < f.size := by
  by_contra hpast
  have hnil : f.available o count = [] := by
    rw [← List.length_eq_zero_iff, available_length]
    omega
  rw [hnil, substituted_nil] at h
  cases h

theorem sle_fileSize_iff {x : Number} : x.sle (fileSize f) = true ↔ ¬ Rejects f x.toNat := by
  rw [fileSize, sle_ofNat_iff f.size_lt, Rejects]
  omega

theorem dd_ofNat (f : File) (ho : o < 2 ^ 63) (hcount : count < 2 ^ 63) :
    dd f (BitVec.ofNat 64 o) (BitVec.ofNat 64 count) = f.available o count := by
  have hsigned : ¬ ((BitVec.ofNat 64 o).slt 0 = true ∨ (BitVec.ofNat 64 count).slt 0 = true) := by
    rw [slt_zero_iff, slt_zero_iff, toNat_ofNat_of_lt (by omega), toNat_ofNat_of_lt (by omega)]
    omega
  rw [dd, if_neg hsigned, toNat_ofNat_of_lt (by omega), toNat_ofNat_of_lt (by omega)]

/-- The checks of a header of type PT_INTERP. -/
theorem interpreterAt_checks {p_offset p_filesz : Nat} (hoffset : p_offset < 2 ^ 64)
    (hfilesz : p_filesz < 2 ^ 64) :
    ((0 : Number).sle (BitVec.ofNat 64 p_offset) = true ∧
        (1 : Number).slt (BitVec.ofNat 64 p_filesz) = true ∧
        (BitVec.ofNat 64 p_filesz).sle 4096 = true ∧
        (BitVec.ofNat 64 p_offset + BitVec.ofNat 64 p_filesz).sle (fileSize f) = true) ↔
      p_offset < 2 ^ 63 ∧ (1 < p_filesz ∧ p_filesz ≤ 4096) ∧ ¬ Rejects f (p_offset + p_filesz) := by
  have hzero : (0 : Number).sle (BitVec.ofNat 64 p_offset) = true ↔ _ :=
    ofNat_sle_iff (n := 0) (by decide)
  have hone : (1 : Number).slt (BitVec.ofNat 64 p_filesz) = true ↔ _ :=
    ofNat_slt_iff (n := 1) (by decide)
  have hmany : (BitVec.ofNat 64 p_filesz).sle 4096 = true ↔ _ :=
    sle_ofNat_iff (n := 4096) (by decide)
  rw [toNat_ofNat_of_lt hoffset] at hzero
  rw [toNat_ofNat_of_lt hfilesz] at hone hmany
  rw [← BitVec.ofNat_add, sle_fileSize_iff, hzero, hone, hmany]
  constructor
  · rintro ⟨hstart, hmin, hmax, hend⟩
    rw [toNat_ofNat_of_lt (by omega)] at hend
    exact ⟨hstart.2, ⟨hmin.1, by omega⟩, hend⟩
  · rintro ⟨hstart, hsize, hend⟩
    rw [toNat_ofNat_of_lt (by omega)]
    exact ⟨⟨Nat.zero_le _, hstart⟩, ⟨hsize.1, by omega⟩, Or.inl hsize.2, hend⟩

/-- The branch prints the path exactly if the checks pass and it begins with a slash. -/
theorem interpreterAt_iff {e : Nat} (he : e + l.offsetAt < 2 ^ 64 ∧ e + l.fileszAt < 2 ^ 64)
    {text : List Byte} :
    interpreterAt f l (BitVec.ofNat 64 e) = some text ↔
      ∃ p_offset p_filesz, f.field (e + l.offsetAt) l.wordBytes = some p_offset ∧
        f.field (e + l.fileszAt) l.wordBytes = some p_filesz ∧
        (1 < p_filesz ∧ p_filesz ≤ 4096) ∧ ¬ Rejects f (p_offset + p_filesz) ∧
        text = substituted (f.available p_offset p_filesz) ∧ startsWithSlash text = true := by
  have hsize := f.size_lt
  rw [interpreterAt, wordAt_eq, wordAt_eq, ← BitVec.ofNat_add, ← BitVec.ofNat_add,
    toNat_ofNat_of_lt he.1, toNat_ofNat_of_lt he.2]
  cases hoffset : f.field (e + l.offsetAt) l.wordBytes with
  | none => simp
  | some p_offset =>
    cases hfilesz : f.field (e + l.fileszAt) l.wordBytes with
    | none => simp
    | some p_filesz =>
      have hchecks := interpreterAt_checks (f := f) (word_lt hoffset) (word_lt hfilesz)
      rw [Option.map_some, Option.map_some, Option.bind_eq_bind, Option.bind_some,
        Option.bind_some, if_congr hchecks rfl rfl]
      dsimp only
      constructor
      · intro h
        split at h
        · rename_i hpass
          obtain ⟨hstart, hlimits, hend⟩ := hpass
          rw [dd_ofNat f hstart (by omega)] at h
          split at h
          · rename_i hslash
            obtain rfl := Option.some.inj h
            exact ⟨p_offset, p_filesz, rfl, rfl, hlimits, hend, rfl, hslash⟩
          · cases h
        · cases h
      · rintro ⟨o, z, ho, hz, hlimits, hend, rfl, hslash⟩
        obtain rfl := Option.some.inj ho
        obtain rfl := Option.some.inj hz
        have hstart := Nat.lt_trans (lt_size_of_path hslash) hsize
        rw [if_pos ⟨hstart, hlimits, hend⟩, dd_ofNat f hstart (by omega), if_pos hslash]

end Reads

section Scan

variable {f : File} {l : Layout} {phoff phentsize : Nat}

/-- One header of the loop: it is rejected, taken, or passed over. -/
theorem scan_step (hphoff : phoff < 2 ^ 63) (hphentsize : phentsize < 2 ^ 16) (left : Nat)
    {index : Nat} (hindex : index < 2 ^ 16) :
    scan f l (BitVec.ofNat 64 phoff) (BitVec.ofNat 64 phentsize) (left + 1)
        (BitVec.ofNat 64 index) =
      if Rejects f (phoff + index * phentsize + phentsize) then none
      else (f.field (phoff + index * phentsize) 4).bind fun p_type =>
        if p_type = 3 then interpreterAt f l (BitVec.ofNat 64 (phoff + index * phentsize))
        else scan f l (BitVec.ofNat 64 phoff) (BitVec.ofNat 64 phentsize) left
          (BitVec.ofNat 64 (index + 1)) := by
  have hproduct : index * phentsize < 2 ^ 16 * 2 ^ 16 :=
    Nat.mul_lt_mul'' hindex hphentsize
  have hentry : BitVec.ofNat 64 phoff + BitVec.ofNat 64 index * BitVec.ofNat 64 phentsize =
      BitVec.ofNat 64 (phoff + index * phentsize) := by
    rw [← BitVec.ofNat_mul, ← BitVec.ofNat_add]
  have hentryEnd : BitVec.ofNat 64 (phoff + index * phentsize) + BitVec.ofNat 64 phentsize =
      BitVec.ofNat 64 (phoff + index * phentsize + phentsize) :=
    (BitVec.ofNat_add _ _).symm
  have hnext : BitVec.ofNat 64 index + 1 = BitVec.ofNat 64 (index + 1) :=
    (BitVec.ofNat_add index 1).symm
  have hstart : (0 : Number).sle (BitVec.ofNat 64 (phoff + index * phentsize)) = true ↔ _ :=
    ofNat_sle_iff (n := 0) (by decide)
  rw [toNat_ofNat_of_lt (by omega)] at hstart
  have hpass : ((0 : Number).sle (BitVec.ofNat 64 (phoff + index * phentsize)) = true ∧
      (BitVec.ofNat 64 (phoff + index * phentsize + phentsize)).sle (fileSize f) = true) ↔
        (0 ≤ phoff + index * phentsize ∧ phoff + index * phentsize < 2 ^ 63) ∧
          ¬ Rejects f (phoff + index * phentsize + phentsize) := by
    rw [hstart, sle_fileSize_iff, toNat_ofNat_of_lt (by omega)]
  rw [scan, hentry, hentryEnd, hnext, if_congr hpass rfl rfl, u32leAt, leAt_eq f (by decide),
    toNat_ofNat_of_lt (by omega)]
  by_cases hwrap : 2 ^ 63 ≤ phoff + index * phentsize
  · have hpast : f.field (phoff + index * phentsize) 4 = none := by
      rw [File.field, if_neg (by have := f.size_lt; omega)]
    rw [if_neg (by omega), hpast]
    split <;> rfl
  · by_cases hends : Rejects f (phoff + index * phentsize + phentsize)
    · rw [if_neg (fun h => h.2 hends), if_pos hends]
    · rw [if_pos ⟨⟨Nat.zero_le _, by omega⟩, hends⟩, if_neg hends]
      cases htype : f.field (phoff + index * phentsize) 4 with
      | none => rfl
      | some p_type =>
        have hthree : BitVec.ofNat 64 p_type = 3 ↔ p_type = 3 := by
          have hlt := (field_eq_some htype).2
          rw [← BitVec.toNat_inj, toNat_ofNat_of_lt (by omega)]
          rfl
        rw [Option.map_some, Option.bind_eq_bind, Option.bind_some, Option.bind_some,
          if_congr hthree rfl rfl]

/-- The loop prints what the branch prints for the first header of type PT_INTERP. -/
theorem scan_iff (hphoff : phoff < 2 ^ 63) (hphentsize : phentsize < 2 ^ 16) {left index : Nat}
    (hcount : index + left < 2 ^ 16) {text : List Byte} :
    scan f l (BitVec.ofNat 64 phoff) (BitVec.ofNat 64 phentsize) left (BitVec.ofNat 64 index) =
        some text ↔
      ∃ i, (index ≤ i ∧ i < index + left) ∧
        (∀ j, index ≤ j → j < i → ∃ type, f.field (phoff + j * phentsize) 4 = some type ∧
          type ≠ 3) ∧
        f.field (phoff + i * phentsize) 4 = some 3 ∧
        ¬ Rejects f (phoff + i * phentsize + phentsize) ∧
        interpreterAt f l (BitVec.ofNat 64 (phoff + i * phentsize)) = some text := by
  induction left generalizing index with
  | zero =>
    simp only [scan, reduceCtorEq, false_iff]
    rintro ⟨i, hi, -⟩
    omega
  | succ left ih =>
    rw [scan_step hphoff hphentsize left (by omega)]
    constructor
    · intro h
      split at h
      · cases h
      · rename_i hends
        obtain ⟨p_type, htype, h⟩ := Option.bind_eq_some_iff.mp h
        by_cases hthree : p_type = 3
        · rw [if_pos hthree] at h
          exact ⟨index, ⟨Nat.le_refl index, by omega⟩, fun j hlow hhigh => by omega,
            hthree ▸ htype, hends, h⟩
        · rw [if_neg hthree] at h
          obtain ⟨i, hi, hfirst, hinterp⟩ := (ih (by omega)).mp h
          refine ⟨i, by omega, fun j hlow hhigh => ?_, hinterp⟩
          by_cases hj : j = index
          · exact ⟨p_type, hj ▸ htype, hthree⟩
          · exact hfirst j (by omega) hhigh
    · rintro ⟨i, hi, hfirst, htype, hends, hprints⟩
      by_cases hhere : i = index
      · subst hhere
        rw [if_neg hends, htype, Option.bind_some, if_pos rfl]
        exact hprints
      · obtain ⟨p_type, hpassed, hother⟩ := hfirst index (Nat.le_refl index) (by omega)
        have hlater : (index + 1) * phentsize ≤ i * phentsize :=
          Nat.mul_le_mul_right phentsize (by omega)
        rw [Nat.add_mul, Nat.one_mul] at hlater
        have hinside : ¬ Rejects f (phoff + index * phentsize + phentsize) := by
          have hin := (field_eq_some htype).1
          unfold Rejects
          omega
        rw [if_neg hinside, hpassed, Option.bind_some, if_neg hother]
        exact (ih (by omega)).mpr
          ⟨i, by omega, fun j hlow hhigh => hfirst j (by omega) hhigh, htype, hends, hprints⟩

end Scan

section Acceptance

variable {f : File}

theorem layout_bounds {elf_class : Byte} {l : Layout} (h : layout elf_class = some l) :
    l.phoffAt < 2 ^ 16 ∧ l.phentsizeAt < 2 ^ 16 ∧ l.phnumAt < 2 ^ 16 ∧ l.phentsizeMin < 2 ^ 16 ∧
      l.offsetAt < 2 ^ 16 ∧ l.fileszAt < 2 ^ 16 := by
  unfold layout at h
  split at h
  · obtain rfl := Option.some.inj h
    decide
  · split at h
    · obtain rfl := Option.some.inj h
      decide
    · cases h

theorem od_zero (f : File) (count : Nat) : od f 0 count = some (f.available 0 count) := by
  have hstart : ¬ ((0 : Number).slt 0 = true ∨ f.size < (0 : Number).toNat) := by
    rw [slt_zero_iff]
    change ¬ (2 ^ 63 ≤ 0 ∨ f.size < 0)
    omega
  exact if_neg hstart

theorem available_zero (count : Nat) (h : count ≤ f.size) :
    f.available 0 count = (List.range count).map f.byte := by
  rw [File.available, Nat.sub_zero, Nat.min_eq_left h]
  simp

/-- The identification bytes that are looked at. -/
theorem header_iff (f : File) :
    ((f.available 0 6).length = 6 ∧ (f.available 0 6).take 4 = [127, 69, 76, 70] ∧
        (f.available 0 6).getD 5 0 = 1) ↔
      6 ≤ f.size ∧ f.available 0 4 = [127, 69, 76, 70] ∧ f.byte 5 = 1 := by
  by_cases hsize : 6 ≤ f.size
  · rw [available_zero 6 hsize, available_zero 4 (by omega)]
    exact and_congr (iff_of_true rfl hsize) Iff.rfl
  · rw [available_length]
    exact iff_of_false (fun h => by omega) (fun h => hsize h.1)

/-- The checks of the fields of the file header. -/
theorem fields_checks {phentsizeMin phoff phentsize phnum : Nat} (hmin : phentsizeMin < 2 ^ 16)
    (hphoff : phoff < 2 ^ 64) (hphentsize : phentsize < 2 ^ 16) (hphnum : phnum < 2 ^ 16) :
    ((BitVec.ofNat 64 phentsizeMin).sle (BitVec.ofNat 64 phentsize) = true ∧
        (0 : Number).sle (BitVec.ofNat 64 phoff) = true ∧
        (0 : Number).slt (BitVec.ofNat 64 phnum) = true ∧
        (BitVec.ofNat 64 phnum).sle 128 = true) ↔
      phentsizeMin ≤ phentsize ∧ phoff < 2 ^ 63 ∧ 1 ≤ phnum ∧ phnum ≤ 128 := by
  have hsized := ofNat_sle_iff (x := BitVec.ofNat 64 phentsize) (n := phentsizeMin) (by omega)
  have hzero : (0 : Number).sle (BitVec.ofNat 64 phoff) = true ↔ _ :=
    ofNat_sle_iff (n := 0) (by decide)
  have hsome : (0 : Number).slt (BitVec.ofNat 64 phnum) = true ↔ _ :=
    ofNat_slt_iff (n := 0) (by decide)
  have hmany : (BitVec.ofNat 64 phnum).sle 128 = true ↔ _ :=
    sle_ofNat_iff (n := 128) (by decide)
  rw [toNat_ofNat_of_lt hphoff] at hzero
  rw [toNat_ofNat_of_lt (by omega)] at hsized hsome hmany
  rw [hsized, hzero, hsome, hmany]
  omega

/-- The fields of the file header. -/
theorem elfInterpreter_eq_some_iff {text : List Byte} :
    elfInterpreter f = some text ↔
      (6 ≤ f.size ∧ f.available 0 4 = [127, 69, 76, 70] ∧ f.byte 5 = 1) ∧
      ∃ l phoff phentsize phnum, layout (f.byte 4) = some l ∧
        f.field l.phoffAt l.wordBytes = some phoff ∧ f.field l.phentsizeAt 2 = some phentsize ∧
        f.field l.phnumAt 2 = some phnum ∧
        (l.phentsizeMin ≤ phentsize ∧ phoff < 2 ^ 63 ∧ 1 ≤ phnum ∧ phnum ≤ 128) ∧
        scan f l (BitVec.ofNat 64 phoff) (BitVec.ofNat 64 phentsize) phnum (BitVec.ofNat 64 0) =
          some text := by
  rw [elfInterpreter, od_zero, Option.bind_eq_bind, Option.bind_some,
    if_congr (header_iff f) rfl rfl]
  by_cases hident : 6 ≤ f.size ∧ f.available 0 4 = [127, 69, 76, 70] ∧ f.byte 5 = 1
  · have hclass : (f.available 0 6).getD 4 0 = f.byte 4 := by
      rw [available_zero 6 hident.1]
      rfl
    rw [if_pos hident, hclass, and_iff_right hident]
    cases hlayout : layout (f.byte 4) with
    | none => simp
    | some l =>
      obtain ⟨hphoffAt, hphentsizeAt, hphnumAt, hmin, -, -⟩ := layout_bounds hlayout
      rw [Option.bind_eq_bind, Option.bind_some, wordAt_eq, toNat_ofNat_of_lt (by omega), u16leAt,
        leAt_eq f (by decide), toNat_ofNat_of_lt (by omega), leAt_eq f (by decide),
        toNat_ofNat_of_lt (by omega)]
      cases hphoff : f.field l.phoffAt l.wordBytes with
      | none => simp [hphoff]
      | some phoff =>
        cases hphentsize : f.field l.phentsizeAt 2 with
        | none => simp [hphentsize]
        | some phentsize =>
          cases hphnum : f.field l.phnumAt 2 with
          | none => simp [hphnum]
          | some phnum =>
            have hsmall := (field_eq_some hphentsize).2
            have hfew := (field_eq_some hphnum).2
            have hchecks := fields_checks hmin (word_lt hphoff) hsmall hfew
            rw [Option.map_some, Option.map_some, Option.map_some, Option.bind_eq_bind,
              Option.bind_some, Option.bind_some, Option.bind_some, if_congr hchecks rfl rfl,
              toNat_ofNat_of_lt (by omega)]
            constructor
            · intro h
              split at h
              · rename_i hpass
                exact ⟨l, phoff, phentsize, phnum, rfl, hphoff, hphentsize, hphnum, hpass, h⟩
              · cases h
            · rintro ⟨l', phoff', phentsize', phnum', hl, hphoff', hphentsize', hphnum', hpass, h⟩
              obtain rfl := Option.some.inj hl
              obtain rfl := Option.some.inj (hphoff.symm.trans hphoff')
              obtain rfl := Option.some.inj (hphentsize.symm.trans hphentsize')
              obtain rfl := Option.some.inj (hphnum.symm.trans hphnum')
              rw [if_pos hpass]
              exact h
  · rw [if_neg hident]
    exact iff_of_false (fun h => nomatch h) (fun h => hident h.1)

theorem Describes.phoff_lt {s : Segment} (h : Describes f s) : s.phoff < 2 ^ 63 := by
  have hstart : s.phoff ≤ s.entry s.index := Nat.le_add_right _ _
  have hin := (field_eq_some h.interp).1
  have hsize := f.size_lt
  omega

/-- What is printed is the path of the first header of type PT_INTERP, if neither sum is
rejected. -/
theorem elfInterpreter_iff {text : List Byte} :
    elfInterpreter f = some text ↔
      ∃ s, Names f s ∧ ¬ Rejects f s.entryEnd ∧ ¬ Rejects f s.segmentEnd ∧ text = s.path f := by
  have hsize := f.size_lt
  rw [elfInterpreter_eq_some_iff]
  constructor
  · rintro ⟨⟨hident, hmagic, hdata⟩, l, phoff, phentsize, phnum, hlayout, hphoff, hphentsize,
      hphnum, ⟨hsized, hlow, hcounted⟩, hscan⟩
    obtain ⟨-, -, -, -, hoffsetAt, hfileszAt⟩ := layout_bounds hlayout
    have hsmall := (field_eq_some hphentsize).2
    obtain ⟨i, hi, hfirst, hinterp, hends, hprints⟩ :=
      (scan_iff hlow (by omega) (by omega)).mp hscan
    have hin := (field_eq_some hinterp).1
    have hindex : i < phnum := by omega
    obtain ⟨p_offset, p_filesz, hoffset, hfilesz, hlimits, hend, rfl, hslash⟩ :=
      (interpreterAt_iff ⟨by omega, by omega⟩).mp hprints
    exact ⟨⟨l, phoff, phentsize, phnum, i, p_offset, p_filesz⟩,
      ⟨⟨hident, hmagic, hdata, hlayout, hphoff, hphentsize, hphnum, hsized, hcounted, hindex,
        fun j hj => hfirst j (Nat.zero_le j) hj, hinterp, hoffset, hfilesz⟩, hlimits, hslash⟩,
      hends, hend, rfl⟩
  · rintro ⟨s, hnames, hends, hend, rfl⟩
    obtain ⟨-, -, -, -, hoffsetAt, hfileszAt⟩ := layout_bounds hnames.layout
    have hsmall := (field_eq_some hnames.phentsize).2
    have hfew := hnames.counted.2
    have hlow := hnames.phoff_lt
    have hin := (field_eq_some hnames.interp).1
    have hindex := hnames.index
    refine ⟨⟨hnames.ident, hnames.magic, hnames.data⟩, s.layout, s.phoff, s.phentsize, s.phnum,
      hnames.layout, hnames.phoff, hnames.phentsize, hnames.phnum,
      ⟨hnames.sized, hlow, hnames.counted⟩, ?_⟩
    refine (scan_iff hlow (by omega) (by omega)).mpr ⟨s.index, ⟨Nat.zero_le _, by omega⟩,
      fun j _ hj => hnames.first j hj, hnames.interp, hends, ?_⟩
    refine (interpreterAt_iff ⟨?_, ?_⟩).mpr ⟨s.offset, s.filesz, hnames.offset, hnames.filesz,
      hnames.size, hend, rfl, hnames.absolute⟩
    all_goals
      unfold Segment.entry at hin
      omega

/-- The headers of a file say one thing only. -/
theorem Describes.unique {s s' : Segment} (h : Describes f s) (h' : Describes f s') : s = s' := by
  obtain ⟨l, phoff, phentsize, phnum, i, offset, filesz⟩ := s
  obtain ⟨l', phoff', phentsize', phnum', i', offset', filesz'⟩ := s'
  obtain rfl := Option.some.inj (h.layout.symm.trans h'.layout)
  obtain rfl := Option.some.inj (h.phoff.symm.trans h'.phoff)
  obtain rfl := Option.some.inj (h.phentsize.symm.trans h'.phentsize)
  obtain rfl := Option.some.inj (h.phnum.symm.trans h'.phnum)
  obtain rfl : i = i' := by
    obtain hlt | heq | hgt := Nat.lt_trichotomy i i'
    · obtain ⟨type, htype, hother⟩ := h'.first i hlt
      exact absurd (Option.some.inj (htype.symm.trans h.interp)) hother
    · exact heq
    · obtain ⟨type, htype, hother⟩ := h.first i' hgt
      exact absurd (Option.some.inj (htype.symm.trans h'.interp)) hother
  obtain rfl := Option.some.inj (h.offset.symm.trans h'.offset)
  obtain rfl := Option.some.inj (h.filesz.symm.trans h'.filesz)
  rfl

/-- The headers before the first one of type PT_INTERP lie before it. -/
theorem Segment.inside {s : Segment} (hend : s.entryEnd ≤ f.size) :
    ∀ j ≤ s.index, s.entry j + s.phentsize ≤ f.size := by
  intro j hj
  have hbefore : j * s.phentsize ≤ s.index * s.phentsize := Nat.mul_le_mul_right _ hj
  unfold Segment.entryEnd Segment.entry at hend
  unfold Segment.entry
  omega

theorem wellFormed_iff {text : List Byte} :
    WellFormed f text ↔
      ∃ s, Names f s ∧ s.entryEnd ≤ f.size ∧ s.segmentEnd ≤ f.size ∧ text = s.path f := by
  constructor
  · rintro ⟨s, hnames, hinside, hend, rfl⟩
    exact ⟨s, hnames, hinside s.index (Nat.le_refl _), hend, rfl⟩
  · rintro ⟨s, hnames, hinside, hend, rfl⟩
    exact ⟨s, hnames, s.inside hinside, hend, rfl⟩

/-- The files on which the function is right. -/
theorem accepts_wellFormed_iff :
    (∀ text, elfInterpreter f = some text ↔ WellFormed f text) ↔ NoWrap f := by
  have hsize := f.size_lt
  constructor
  · intro hright s hnames
    have hboth : ¬ Rejects f s.entryEnd → ¬ Rejects f s.segmentEnd →
        s.entryEnd ≤ f.size ∧ s.segmentEnd ≤ f.size := by
      intro hends hend
      obtain ⟨s', hnames', hinside, hinside', -⟩ := wellFormed_iff.mp
        ((hright (s.path f)).mp (elfInterpreter_iff.mpr ⟨s, hnames, hends, hend, rfl⟩))
      obtain rfl := hnames.toDescribes.unique hnames'.toDescribes
      exact ⟨hinside, hinside'⟩
    unfold Rejects at hboth ⊢
    omega
  · intro hfits text
    rw [elfInterpreter_iff, wellFormed_iff]
    refine exists_congr fun s => and_congr_right fun hnames => ?_
    obtain ⟨hentry, hsegment⟩ := hfits s hnames
    unfold Rejects at hentry hsegment ⊢
    constructor
    · rintro ⟨hends, hend, htext⟩
      exact ⟨by omega, by omega, htext⟩
    · rintro ⟨hends, hend, htext⟩
      exact ⟨by omega, by omega, htext⟩

/-- In a file that leaves room for one header entry below 2^63 no sum wraps. -/
theorem noWrap_of_size (h : f.size ≤ 2 ^ 63 - 2 ^ 16) : NoWrap f := by
  intro s hnames
  have hin := (field_eq_some hnames.interp).1
  have hsmall := (field_eq_some hnames.phentsize).2
  have hpath := lt_size_of_path hnames.absolute
  have hlimit := hnames.size.2
  unfold Segment.entryEnd Segment.segmentEnd
  exact ⟨fun hwrap => by omega, fun hwrap => by omega⟩

end Acceptance

/-- The function accepts exactly the well-formed headers where no sum wraps around, and so in
every file up to 2^63 - 2^16 bytes. -/
theorem elfInterpreter_wellFormed_iff (f : File) :
    ((∀ text, elfInterpreter f = some text ↔ WellFormed f text) ↔ NoWrap f) ∧
      (f.size ≤ 2 ^ 63 - 2 ^ 16 → ∀ text, elfInterpreter f = some text ↔ WellFormed f text) :=
  ⟨accepts_wellFormed_iff, fun h => accepts_wellFormed_iff.mpr (noWrap_of_size h)⟩

section Examples

/-- A file of these bytes, and zeros behind them. -/
def fileOf (chunks : List (Nat × List Byte)) (size : Nat) (h : size < 2 ^ 63) : File where
  size := size
  byte i := ((chunks.find? fun c => c.1 ≤ i ∧ i < c.1 + c.2.length).map
    fun c => c.2.getD (i - c.1) 0).getD 0
  size_lt := h

/-- `/lib/x` -/
def shortPath : List Byte := [0x2f, 0x6c, 0x69, 0x62, 0x2f, 0x78]

/-- A 32-bit file with one program header, of type PT_INTERP. -/
def plainElf : File :=
  fileOf [(0, [127, 69, 76, 70, 1, 1]), (28, [52]), (42, [32]), (44, [1]), (52, [3]), (56, [84]),
    (68, [7]), (84, shortPath)] 91 (by decide)

theorem plainElf_wellFormed : WellFormed plainElf shortPath :=
  ((elfInterpreter_wellFormed_iff plainElf).2 (by decide) shortPath).mp (by decide +kernel)

/-- A sparse 64-bit file of 2^63 - 1 bytes; its program header at 2^63 - 48 ends behind it. -/
def sparseElf : File :=
  fileOf [(0, [127, 69, 76, 70, 2, 1]), (32, [0xd0, 0xff, 0xff, 0xff, 0xff, 0xff, 0xff, 0x7f]),
    (54, [56]), (56, [1]), (256, shortPath), (2 ^ 63 - 48, [3]), (2 ^ 63 - 40, [0, 1]),
    (2 ^ 63 - 16, [7])] (2 ^ 63 - 1) (by decide)

/-- The end of the program header wraps around, and the path is printed all the same. -/
theorem sparse_header_accepted :
    elfInterpreter sparseElf = some shortPath ∧ ¬ WellFormed sparseElf shortPath := by
  refine ⟨by decide +kernel, ?_⟩
  rintro ⟨s, hnames, hinside, -⟩
  have hlayout : layout (sparseElf.byte 4) = some ⟨2, 32, 54, 56, 56, 8, 32⟩ := by decide +kernel
  have hphoff : sparseElf.field 32 8 = some (2 ^ 63 - 48) := by decide +kernel
  have hphentsize : sparseElf.field 54 2 = some 56 := by decide +kernel
  have hl := Option.some.inj (hlayout.symm.trans hnames.layout)
  have hstart := hnames.phoff
  have hentry := hnames.phentsize
  rw [← hl] at hstart hentry
  have hstart := Option.some.inj (hphoff.symm.trans hstart)
  have hentry := Option.some.inj (hphentsize.symm.trans hentry)
  have hfirst := hinside 0 (Nat.zero_le s.index)
  rw [Segment.entry, Nat.zero_mul, ← hstart, ← hentry] at hfirst
  exact absurd hfirst (by decide)

end Examples

end Asm2Runtime.ElfInterpreter
