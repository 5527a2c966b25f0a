import Asm2Runtime.BitFields
import Asm2Runtime.ElfRelocate
import Mathlib.Tactic.Ring

/-!
# The checks before a module is copied

`so_load` of both loaders, from the file in memory to the list of its copies. All sums
are those of a 32-bit `size_t` and a 32-bit `uintptr_t`, except the one end of a
segment's file range that the code computes in 64 bits. Headers are read where the
pointers lead, also outside the file.
-/

namespace Asm2Runtime.Elf

open BitFields

section Headers

/-- `Elf32_Ehdr` -/
structure Ehdr where
  eiClass : BitVec 8
  eMachine : BitVec 16
  ePhoff : Word
  eShoff : Word
  ePhnum : BitVec 16
  eShnum : BitVec 16
  eShstrndx : BitVec 16
  deriving DecidableEq, Repr

/-- `Elf32_Phdr` -/
structure Phdr where
  pType : Word
  pOffset : Word
  pVaddr : Word
  pFilesz : Word
  pMemsz : Word
  pFlags : Word
  deriving DecidableEq, Repr

def sizeofEhdr : Nat := 52
def sizeofPhdr : Nat := 32
def sizeofShdr : Nat := 40

def elfmag : List (BitVec 8) := [0x7f, 0x45, 0x4c, 0x46]
def elfclass32 : BitVec 8 := 1
def emArm : BitVec 16 := 40
def em386 : BitVec 16 := 3
def ptLoad : Word := 1
def pfX : Word := 1
def pfW : Word := 2

def Memory.ehdr (m : Memory) (a : Word) : Ehdr :=
  { eiClass := m (a + 4)
    eMachine := m.half (a + 18)
    ePhoff := m.word (a + 28)
    eShoff := m.word (a + 32)
    ePhnum := m.half (a + 44)
    eShnum := m.half (a + 48)
    eShstrndx := m.half (a + 50) }

def Memory.phdr (m : Memory) (a : Word) : Phdr :=
  ⟨m.word a, m.word (a + 4), m.word (a + 8), m.word (a + 16), m.word (a + 20), m.word (a + 24)⟩

/-- `prog_hdr[0 .. e_phnum)` -/
def Memory.progHdr (m : Memory) (soBase : Word) : List Phdr :=
  (List.range (m.ehdr soBase).ePhnum.toNat).map fun i =>
    m.phdr (soBase + (m.ehdr soBase).ePhoff + BitVec.ofNat 32 (sizeofPhdr * i))

/-- `ALIGN_MEM` -/
def alignMem (x align : Word) : Word := (x + (align - 1)) &&& ~~~(align - 1)

end Headers

section Load

/-- What the loop over the program headers finds. -/
structure Extent where
  loadMinVaddr : Word
  maximumVaddr : Word
  textSegno : Option Nat
  dataSegno : Option Nat
  deriving DecidableEq, Repr

/-- One iteration; `none` is the return of -1. -/
def Extent.add (soSize : Word) (x : Extent) (hdr : Phdr × Nat) : Option Extent :=
  let ph := hdr.1
  if ph.pType = ptLoad then
    if ph.pFilesz > ph.pMemsz ∨ ph.pOffset.toNat + ph.pFilesz.toNat > soSize.toNat then none
    else
      let start := ph.pVaddr &&& ~~~0xfff
      let finish := alignMem (ph.pVaddr + ph.pMemsz) 0x1000
      if finish < start then none
      else some
        { loadMinVaddr := if start < x.loadMinVaddr then start else x.loadMinVaddr
          maximumVaddr := if finish > x.maximumVaddr then finish else x.maximumVaddr
          textSegno :=
            if ph.pFlags &&& pfX ≠ 0 ∧ x.textSegno = none then some hdr.2 else x.textSegno
          dataSegno :=
            if ph.pFlags &&& pfW ≠ 0 ∧ x.dataSegno = none then some hdr.2 else x.dataSegno }
  else some x

def extent (soSize : Word) (progHdr : List Phdr) : Option Extent :=
  progHdr.zipIdx.foldlM (Extent.add soSize) ⟨0xffffffff, 0, none, none⟩

/-- `memcpy(destination, source, count)` -/
structure Copy where
  destination : Word
  source : Word
  count : Word
  deriving DecidableEq, Repr

/-- A module whose checks have passed, with the copies of its segments. -/
structure Load where
  loadMinVaddr : Word
  loadSize : Word
  copies : List Copy
  deriving DecidableEq, Repr

/-- From the file at `soBase` to the copies; the errors are the results of `so_load`. -/
def soLoad (machine : BitVec 16) (m : Memory) (soBase soSize base maxSize : Word) :
    Except Int Load :=
  let hdr := m.ehdr soBase
  let progHdr := m.progHdr soBase
  -- reading an item of size 0 reads none
  if soSize = 0 then .error (-3)
  else if (List.range 4).map (fun i => m (soBase + BitVec.ofNat 32 i)) ≠ elfmag then .error (-1)
  else if hdr.eiClass ≠ elfclass32 then .error (-1)
  else if hdr.eMachine ≠ machine then .error (-1)
  else if hdr.ePhoff + BitVec.ofNat 32 (hdr.ePhnum.toNat * sizeofPhdr) > soSize then .error (-1)
  else if hdr.eShoff + BitVec.ofNat 32 (hdr.eShnum.toNat * sizeofShdr) > soSize then .error (-1)
  else if hdr.eShstrndx ≥ hdr.eShnum then .error (-1)
  else match extent soSize progHdr with
    | none => .error (-1)
    | some x =>
      if x.loadMinVaddr = 0xffffffff ∨ x.maximumVaddr ≤ x.loadMinVaddr ∨ x.textSegno = none ∨
          x.dataSegno = none then .error (-1)
      else
        let loadSize := x.maximumVaddr - x.loadMinVaddr
        if loadSize > maxSize then .error (-3)
        else if base = 0 then .error (-1)
        else
          let loadVirtbase := base - x.loadMinVaddr
          .ok
            { loadMinVaddr := x.loadMinVaddr
              loadSize
              copies := (progHdr.filter fun ph => ph.pType = ptLoad).map fun ph =>
                ⟨loadVirtbase + ph.pVaddr, soBase + ph.pOffset, ph.pFilesz⟩ }

/-- `so_load` of so_util.c -/
def SoUtil.soLoad (m : Memory) (soBase soSize base maxSize : Word) : Except Int Load :=
  Elf.soLoad emArm m soBase soSize base maxSize

/-- `so_load` of so_util_x86.c -/
def SoUtilX86.soLoad (m : Memory) (soBase soSize base maxSize : Word) : Except Int Load :=
  Elf.soLoad em386 m soBase soSize base maxSize

end Load

section Words

/-- Rounding down to a page. -/
theorem toNat_page (x : Word) : (x &&& ~~~0xfff).toNat = x.toNat - x.toNat % 4096 :=
  toNat_and_high x (show (~~~(~~~(0xfff : Word))).toNat = 2 ^ 12 - 1 by decide)

theorem toNat_alignMem (x : Word) :
    (alignMem x 0x1000).toNat = (x.toNat + 0xfff) % 2 ^ 32 - (x.toNat + 0xfff) % 2 ^ 32 % 4096 := by
  have h := toNat_page (x + 0xfff)
  rw [BitVec.toNat_add] at h
  exact h

end Words

section Extent

variable {soSize : Word} {x y : Extent} {ph : Phdr} {hdrs : List (Phdr × Nat)}

/-- What the loop knows of a loaded segment. -/
structure Extent.Covers (soSize : Word) (x : Extent) (ph : Phdr) : Prop where
  filesz : ph.pFilesz.toNat ≤ ph.pMemsz.toNat
  inFile : ph.pOffset.toNat + ph.pFilesz.toNat ≤ soSize.toNat
  ordered : (ph.pVaddr &&& ~~~0xfff).toNat ≤ (alignMem (ph.pVaddr + ph.pMemsz) 0x1000).toNat
  above : x.loadMinVaddr.toNat ≤ (ph.pVaddr &&& ~~~0xfff).toNat
  below : (alignMem (ph.pVaddr + ph.pMemsz) 0x1000).toNat ≤ x.maximumVaddr.toNat

theorem Extent.Covers.grow (h : x.Covers soSize ph)
    (hmin : y.loadMinVaddr.toNat ≤ x.loadMinVaddr.toNat)
    (hmax : x.maximumVaddr.toNat ≤ y.maximumVaddr.toNat) : y.Covers soSize ph :=
  ⟨h.filesz, h.inFile, h.ordered, Nat.le_trans hmin h.above, Nat.le_trans h.below hmax⟩

/-- One iteration: bounds only grow, and they cover the segment. -/
theorem Extent.add_spec {i : Nat} (h : x.add soSize (ph, i) = some y)
    (hpage : x.maximumVaddr.toNat ≤ 0xfffff000) :
    y.loadMinVaddr.toNat ≤ x.loadMinVaddr.toNat ∧ x.maximumVaddr.toNat ≤ y.maximumVaddr.toNat ∧
      y.maximumVaddr.toNat ≤ 0xfffff000 ∧ (ph.pType = ptLoad → y.Covers soSize ph) := by
  unfold Extent.add at h
  dsimp only at h
  split at h
  · split at h
    · cases h
    · rename_i hfile
      split at h
      · cases h
      · rename_i hordered
        simp only [gt_iff_lt, not_or, BitVec.not_lt, Nat.not_lt, BitVec.le_def] at hfile hordered
        have hlast := toNat_alignMem (ph.pVaddr + ph.pMemsz)
        cases h
        have hmin : (if ph.pVaddr &&& ~~~0xfff < x.loadMinVaddr then ph.pVaddr &&& ~~~0xfff
            else x.loadMinVaddr).toNat =
              min (ph.pVaddr &&& ~~~0xfff).toNat x.loadMinVaddr.toNat := by
          split <;> rename_i hlt <;> rw [BitVec.lt_def] at hlt <;> omega
        have hmax : (if alignMem (ph.pVaddr + ph.pMemsz) 0x1000 > x.maximumVaddr then
            alignMem (ph.pVaddr + ph.pMemsz) 0x1000 else x.maximumVaddr).toNat =
              max (alignMem (ph.pVaddr + ph.pMemsz) 0x1000).toNat x.maximumVaddr.toNat := by
          split <;> rename_i hlt <;> rw [gt_iff_lt, BitVec.lt_def] at hlt <;> omega
        refine ⟨?_, ?_, ?_, fun _ => ⟨hfile.1, hfile.2, hordered, ?_, ?_⟩⟩
        · rw [hmin]
          exact Nat.min_le_right _ _
        · rw [hmax]
          exact Nat.le_max_right _ _
        · rw [hmax]
          omega
        · rw [hmin]
          exact Nat.min_le_left _ _
        · rw [hmax]
          exact Nat.le_max_left _ _
  · rename_i hother
    cases h
    exact ⟨Nat.le_refl _, Nat.le_refl _, hpage, fun hload => absurd hload hother⟩

theorem Extent.fold_spec (h : hdrs.foldlM (Extent.add soSize) x = some y)
    (hpage : x.maximumVaddr.toNat ≤ 0xfffff000) :
    y.loadMinVaddr.toNat ≤ x.loadMinVaddr.toNat ∧ x.maximumVaddr.toNat ≤ y.maximumVaddr.toNat ∧
      y.maximumVaddr.toNat ≤ 0xfffff000 ∧
      ∀ hdr ∈ hdrs, hdr.1.pType = ptLoad → y.Covers soSize hdr.1 := by
  induction hdrs generalizing x with
  | nil =>
    obtain rfl : x = y := by simpa using h
    exact ⟨Nat.le_refl _, Nat.le_refl _, hpage, by simp⟩
  | cons hdr hdrs ih =>
    obtain ⟨z, hz, hrest⟩ := Option.bind_eq_some_iff.mp (by simpa [List.foldlM_cons] using h)
    obtain ⟨ph, i⟩ := hdr
    obtain ⟨hmin, hmax, hpage', hcovers⟩ := Extent.add_spec hz hpage
    obtain ⟨hmin', hmax', hpage'', hrest'⟩ := ih hrest hpage'
    refine ⟨Nat.le_trans hmin' hmin, Nat.le_trans hmax hmax', hpage'', fun hdr hhdr hload => ?_⟩
    obtain rfl | hlater := List.mem_cons.mp hhdr
    · exact (hcovers hload).grow hmin' hmax'
    · exact hrest' hdr hlater hload

theorem extent_spec {progHdr : List Phdr} (h : extent soSize progHdr = some x) :
    x.maximumVaddr.toNat ≤ 0xfffff000 ∧
      ∀ ph ∈ progHdr, ph.pType = ptLoad → x.Covers soSize ph := by
  obtain ⟨-, -, hpage, hcovers⟩ := Extent.fold_spec h (by decide)
  refine ⟨hpage, fun ph hph hload => ?_⟩
  obtain ⟨i, hi⟩ := List.mem_iff_getElem?.mp hph
  exact hcovers (ph, i) (List.mk_mem_zipIdx_iff_getElem?.mpr hi) hload

end Extent

section Inside

variable {machine : BitVec 16} {m : Memory} {soBase soSize base maxSize : Word} {load : Load}
  {x : Extent} {ph : Phdr}

/-- `[p_vaddr, p_vaddr + p_memsz)` lies inside the load range, without wrapping. -/
def Phdr.Inside (ph : Phdr) (loadMinVaddr loadSize : Word) : Prop :=
  ∀ v : Nat, ph.pVaddr.toNat ≤ v → v < ph.pVaddr.toNat + ph.pMemsz.toNat →
    loadMinVaddr.toNat ≤ v ∧ v < loadMinVaddr.toNat + loadSize.toNat

/-- Every byte that a copy writes lies in the mapping at `base`. -/
def Copy.Inside (c : Copy) (base loadSize : Word) : Prop :=
  ∀ k < c.count.toNat, (c.destination + BitVec.ofNat 32 k - base).toNat < loadSize.toNat

/-- What the checks are for: nothing read or written lies outside its range. -/
structure LoadsInside (m : Memory) (soBase soSize base maxSize : Word) (load : Load) : Prop where
  header : sizeofEhdr ≤ soSize.toNat
  progHdr : (m.ehdr soBase).ePhoff.toNat + (m.ehdr soBase).ePhnum.toNat * sizeofPhdr ≤ soSize.toNat
  secHdr : (m.ehdr soBase).eShoff.toNat + (m.ehdr soBase).eShnum.toNat * sizeofShdr ≤ soSize.toNat
  size : load.loadSize.toNat ≤ maxSize.toNat
  filesz : ∀ ph ∈ m.progHdr soBase, ph.pType = ptLoad → ph.pFilesz.toNat ≤ ph.pMemsz.toNat
  inFile : ∀ ph ∈ m.progHdr soBase, ph.pType = ptLoad →
    ph.pOffset.toNat + ph.pFilesz.toNat ≤ soSize.toNat
  segments : ∀ ph ∈ m.progHdr soBase, ph.pType = ptLoad →
    ph.Inside load.loadMinVaddr load.loadSize
  copies : ∀ c ∈ load.copies, c.Inside base load.loadSize

/-- The file has a header, and the sums of the checks stay below `2 ^ 32`. -/
structure NoWrap (m : Memory) (soBase soSize : Word) : Prop where
  header : sizeofEhdr ≤ soSize.toNat
  progHdr : (m.ehdr soBase).ePhoff.toNat + (m.ehdr soBase).ePhnum.toNat * sizeofPhdr < 2 ^ 32
  secHdr : (m.ehdr soBase).eShoff.toNat + (m.ehdr soBase).eShnum.toNat * sizeofShdr < 2 ^ 32
  segments : ∀ ph ∈ m.progHdr soBase, ph.pType = ptLoad →
    ph.pVaddr.toNat + ph.pMemsz.toNat + 0xfff < 2 ^ 32

/-- The checks that a module with copies has passed. -/
structure Passed (m : Memory) (soBase soSize base maxSize : Word) (load : Load) : Prop where
  progHdr : (m.ehdr soBase).ePhoff + BitVec.ofNat 32 ((m.ehdr soBase).ePhnum.toNat * sizeofPhdr) ≤
    soSize
  secHdr : (m.ehdr soBase).eShoff + BitVec.ofNat 32 ((m.ehdr soBase).eShnum.toNat * sizeofShdr) ≤
    soSize
  found : ∃ x, extent soSize (m.progHdr soBase) = some x ∧ x.loadMinVaddr < x.maximumVaddr ∧
    load = { loadMinVaddr := x.loadMinVaddr
             loadSize := x.maximumVaddr - x.loadMinVaddr
             copies := ((m.progHdr soBase).filter fun ph => ph.pType = ptLoad).map fun ph =>
               ⟨base - x.loadMinVaddr + ph.pVaddr, soBase + ph.pOffset, ph.pFilesz⟩ }
  size : load.loadSize ≤ maxSize

theorem ok_of_guard {α : Type} {c : Prop} [Decidable c] {e : Int} {r : Except Int α} {v : α}
    (h : (if c then .error e else r) = .ok v) : ¬ c ∧ r = .ok v := by
  split at h
  · cases h
  · exact ⟨‹_›, h⟩

theorem soLoad_passed (h : soLoad machine m soBase soSize base maxSize = .ok load) :
    Passed m soBase soSize base maxSize load := by
  unfold soLoad at h
  dsimp only at h
  obtain ⟨-, h⟩ := ok_of_guard h
  obtain ⟨-, h⟩ := ok_of_guard h
  obtain ⟨-, h⟩ := ok_of_guard h
  obtain ⟨-, h⟩ := ok_of_guard h
  obtain ⟨hprog, h⟩ := ok_of_guard h
  obtain ⟨hsec, h⟩ := ok_of_guard h
  obtain ⟨-, h⟩ := ok_of_guard h
  split at h
  · cases h
  rename_i x hx
  obtain ⟨hrange, h⟩ := ok_of_guard h
  obtain ⟨hsize, h⟩ := ok_of_guard h
  obtain ⟨-, h⟩ := ok_of_guard h
  cases h
  simp only [not_or, BitVec.not_le] at hrange
  exact ⟨BitVec.not_lt.mp hprog, BitVec.not_lt.mp hsec, ⟨x, hx, hrange.2.1, rfl⟩,
    BitVec.not_lt.mp hsize⟩

/-- A file for one machine is not taken by the loader for another. -/
theorem soLoad_refused {other : BitVec 16} (hne : machine ≠ other)
    (h : soLoad machine m soBase soSize base maxSize = .ok load) :
    soLoad other m soBase soSize base maxSize = .error (-1) := by
  unfold soLoad at h
  dsimp only at h
  obtain ⟨hsize, h⟩ := ok_of_guard h
  obtain ⟨hmagic, h⟩ := ok_of_guard h
  obtain ⟨hclass, h⟩ := ok_of_guard h
  obtain ⟨hmachine, -⟩ := ok_of_guard h
  have hother : (m.ehdr soBase).eMachine ≠ other := fun heq =>
    hmachine fun hm => hne (hm.symm.trans heq)
  unfold soLoad
  dsimp only
  rw [if_neg hsize, if_neg hmagic, if_neg hclass, if_pos hother]

/-- A module that the ARM loader copies is refused by the i386 loader. -/
theorem SoUtilX86.soLoad_refused (h : SoUtil.soLoad m soBase soSize base maxSize = .ok load) :
    SoUtilX86.soLoad m soBase soSize base maxSize = .error (-1) :=
  Elf.soLoad_refused (by decide) h

/-- A table's sum that passed its check wraps exactly if the table ends outside the file. -/
theorem table_inside {off soSize : Word} {size : Nat} (hsize : size < 2 ^ 32)
    (h : off + BitVec.ofNat 32 size ≤ soSize) :
    off.toNat + size ≤ soSize.toNat ↔ off.toNat + size < 2 ^ 32 := by
  rw [BitVec.le_def, BitVec.toNat_add, BitVec.toNat_ofNat, Nat.mod_eq_of_lt hsize] at h
  constructor
  · intro hin
    omega
  · intro hwrap
    rwa [Nat.mod_eq_of_lt hwrap] at h

theorem table_lt (count : BitVec 16) {size : Nat} (h : size ≤ 40) :
    count.toNat * size < 2 ^ 32 := by
  have hcount := count.isLt
  calc count.toNat * size ≤ count.toNat * 40 := Nat.mul_le_mul_left _ h
    _ < 2 ^ 32 := by omega

theorem loadSize_toNat (h : x.loadMinVaddr < x.maximumVaddr) :
    (x.maximumVaddr - x.loadMinVaddr).toNat = x.maximumVaddr.toNat - x.loadMinVaddr.toNat := by
  rw [BitVec.lt_def] at h
  exact BitVec.toNat_sub_of_le (BitVec.le_def.mpr (by omega))

/-- A covered segment lies inside exactly if its end does not wrap. -/
theorem Extent.Covers.inside_iff (h : x.Covers soSize ph)
    (hpage : x.maximumVaddr.toNat ≤ 0xfffff000) (hlt : x.loadMinVaddr < x.maximumVaddr) :
    ph.Inside x.loadMinVaddr (x.maximumVaddr - x.loadMinVaddr) ↔
      ph.pVaddr.toNat + ph.pMemsz.toNat + 0xfff < 2 ^ 32 := by
  have hend := toNat_alignMem (ph.pVaddr + ph.pMemsz)
  rw [BitVec.toNat_add] at hend
  have hstart := toNat_page ph.pVaddr
  have horder := h.ordered
  have habove := h.above
  have hbelow := h.below
  have hvaddr := ph.pVaddr.isLt
  unfold Phdr.Inside
  rw [loadSize_toNat hlt]
  rw [BitVec.lt_def] at hlt
  constructor
  · intro hin
    obtain hzero | hpos := Nat.eq_zero_or_pos ph.pMemsz.toNat
    · -- an empty segment whose end wraps ends below its start
      rw [hzero] at hend
      omega
    · obtain ⟨-, hlast⟩ := hin (ph.pVaddr.toNat + ph.pMemsz.toNat - 1) (by omega) (by omega)
      omega
  · intro hwrap v hv hv'
    omega

/-- The copy of a covered segment that does not wrap stays in the mapping. -/
theorem Extent.Covers.copy_inside (h : x.Covers soSize ph) (hlt : x.loadMinVaddr < x.maximumVaddr)
    (hin : ph.Inside x.loadMinVaddr (x.maximumVaddr - x.loadMinVaddr)) (source : Word) :
    (Copy.mk (base - x.loadMinVaddr + ph.pVaddr) source ph.pFilesz).Inside base
      (x.maximumVaddr - x.loadMinVaddr) := by
  intro k hk
  dsimp only at hk ⊢
  have hfilesz := h.filesz
  obtain ⟨hlow, hhigh⟩ := hin (ph.pVaddr.toNat + k) (by omega) (by omega)
  have hsize := loadSize_toNat hlt
  have hmax := x.maximumVaddr.isLt
  have hoffset : base - x.loadMinVaddr + ph.pVaddr + BitVec.ofNat 32 k - base =
      BitVec.ofNat 32 (ph.pVaddr.toNat + k) - x.loadMinVaddr := by
    rw [BitVec.ofNat_add, BitVec.ofNat_toNat, BitVec.setWidth_eq]
    ring
  have hbyte : (BitVec.ofNat 32 (ph.pVaddr.toNat + k)).toNat = ph.pVaddr.toNat + k := by
    rw [BitVec.toNat_ofNat]
    exact Nat.mod_eq_of_lt (by omega)
  rw [hoffset, BitVec.toNat_sub_of_le (BitVec.le_def.mpr (by omega)), hbyte]
  omega

/-- A module whose copies are made stays inside its ranges exactly if no sum wraps. -/
theorem soLoad_inside_iff (machine : BitVec 16) (m : Memory) (soBase soSize base maxSize : Word)
    (load : Load) (h : soLoad machine m soBase soSize base maxSize = .ok load) :
    LoadsInside m soBase soSize base maxSize load ↔ NoWrap m soBase soSize := by
  obtain ⟨hprog, hsec, ⟨x, hx, hlt, rfl⟩, hsize⟩ := soLoad_passed h
  obtain ⟨hpage, hcovers⟩ := extent_spec hx
  have hprogHdr := table_inside (table_lt _ (by decide)) hprog
  have hsecHdr := table_inside (table_lt _ (by decide)) hsec
  constructor
  · intro hin
    exact
      { header := hin.header
        progHdr := hprogHdr.mp hin.progHdr
        secHdr := hsecHdr.mp hin.secHdr
        segments := fun ph hph hload =>
          ((hcovers ph hph hload).inside_iff hpage hlt).mp (hin.segments ph hph hload) }
  · intro hwrap
    have hsegments : ∀ ph ∈ m.progHdr soBase, ph.pType = ptLoad →
        ph.Inside x.loadMinVaddr (x.maximumVaddr - x.loadMinVaddr) := fun ph hph hload =>
      ((hcovers ph hph hload).inside_iff hpage hlt).mpr (hwrap.segments ph hph hload)
    exact
      { header := hwrap.header
        progHdr := hprogHdr.mpr hwrap.progHdr
        secHdr := hsecHdr.mpr hwrap.secHdr
        size := BitVec.le_def.mp hsize
        filesz := fun ph hph hload => (hcovers ph hph hload).filesz
        inFile := fun ph hph hload => (hcovers ph hph hload).inFile
        segments := hsegments
        copies := by
          intro c hc
          obtain ⟨ph, hph, rfl⟩ := List.mem_map.mp hc
          obtain ⟨hph, hload⟩ := List.mem_filter.mp hph
          have hload := of_decide_eq_true hload
          exact (hcovers ph hph hload).copy_inside hlt (hsegments ph hph hload) _ }

def littleEndian (count : Nat) (v : Nat) : List (BitVec 8) :=
  (List.range count).map fun i => BitVec.ofNat 8 (v / 2 ^ (8 * i))

/-- A file with one segment and one section header behind its header. -/
def sampleFile (machine : BitVec 16) (ph : Phdr) : List (BitVec 8) :=
  elfmag ++ [elfclass32] ++ littleEndian 11 1 ++ littleEndian 2 3 ++
    littleEndian 2 machine.toNat ++ littleEndian 4 1 ++ littleEndian 4 0 ++ littleEndian 4 52 ++
    littleEndian 4 84 ++ littleEndian 4 0 ++ littleEndian 2 52 ++ littleEndian 2 32 ++
    littleEndian 2 1 ++ littleEndian 2 40 ++ littleEndian 2 1 ++ littleEndian 2 0 ++
    ([ph.pType, ph.pOffset, ph.pVaddr, 0, ph.pFilesz, ph.pMemsz, ph.pFlags].flatMap
      fun w => littleEndian 4 w.toNat) ++ littleEndian 4 0x1000 ++ littleEndian 40 0

/-- The file at an address, zeros around it. -/
def memoryOf (soBase : Word) (bytes : List (BitVec 8)) : Memory := fun a =>
  bytes.getD (a - soBase).toNat 0

theorem soLoad_inside_iff_sample :
    LoadsInside (memoryOf 0x10000 (sampleFile emArm ⟨1, 0, 0, 124, 0x1000, 7⟩)) 0x10000 124
      0x100000 0x2000 ⟨0, 0x1000, [⟨0x100000, 0x10000, 124⟩]⟩ :=
  (soLoad_inside_iff emArm _ _ _ _ _ _ (by decide +kernel)).mpr
    { header := by decide
      progHdr := by decide +kernel
      secHdr := by decide +kernel
      segments := by
        have hhdr : (memoryOf 0x10000 (sampleFile emArm ⟨1, 0, 0, 124, 0x1000, 7⟩)).progHdr 0x10000 =
            [⟨1, 0, 0, 124, 0x1000, 7⟩] := by decide +kernel
        rw [hhdr]
        intro ph hph _
        obtain rfl := List.mem_singleton.mp hph
        decide }

/-- A segment whose end wraps to the page behind its start is copied past the mapping. -/
theorem soLoad_outside : ¬ ∀ (machine : BitVec 16) (m : Memory)
    (soBase soSize base maxSize : Word) (load : Load),
    soLoad machine m soBase soSize base maxSize = .ok load →
      LoadsInside m soBase soSize base maxSize load := by
  intro h
  have hload := h emArm
    (memoryOf 0x10000 (sampleFile emArm ⟨1, 0, 0x1fff, 0x2000, 0xffffffff, 7⟩)) 0x10000 0x2000
    0x100000 0x10000 ⟨0x1000, 0x1000, [⟨0x100fff, 0x10000, 0x2000⟩]⟩ (by decide +kernel)
  have hbyte := hload.copies _ List.mem_cons_self 1 (by decide)
  exact absurd hbyte (by decide)

end Inside

end Asm2Runtime.Elf
