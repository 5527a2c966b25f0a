import Mathlib.Data.BitVec

/-!
# Relocating and resolving a loaded module

`so_relocate` and `so_resolve`, in the ARM loader and in the i386 loader. The memory
is the whole 32-bit address space: the relocation, symbol and string tables are read
from it at every iteration, as the code does.
-/

namespace Asm2Runtime.Elf

section Memory

abbrev Word := BitVec 32

abbrev Memory := Word → BitVec 8

def Memory.half (m : Memory) (a : Word) : BitVec 16 := m (a + 1) ++ m a

/-- A `uintptr_t` at an address, low byte first. -/
def Memory.word (m : Memory) (a : Word) : Word := m.half (a + 2) ++ m.half a

def Memory.setWord (m : Memory) (a v : Word) : Memory := fun b =>
  if b = a then v.extractLsb' 0 8
  else if b = a + 1 then v.extractLsb' 8 8
  else if b = a + 2 then v.extractLsb' 16 8
  else if b = a + 3 then v.extractLsb' 24 8
  else m b

abbrev Name := List (BitVec 8)

def text (s : String) : Name := s.toList.map fun c => BitVec.ofNat 8 c.toNat

def Memory.stringFrom (m : Memory) (a : Word) : Nat → Name
  | 0 => []
  | remaining + 1 => if m a = 0 then [] else m a :: m.stringFrom (a + 1) remaining

/-- The bytes before the terminator. -/
def Memory.string (m : Memory) (a : Word) : Name := m.stringFrom a (2 ^ 32)

end Memory

section Module

/-- A section header with its name; the loader keeps these outside the image. -/
structure SectionHeader where
  name : Name
  shAddr : Word
  shSize : Word

/-- The loader's globals after `so_load`. -/
structure SoModule where
  mappingBase : Word
  loadSize : Nat
  loadVirtbase : Word
  secHdr : List SectionHeader
  syms : Word
  numSyms : Nat
  dynstrtab : Word

/-- `Elf32_Rel` -/
structure Rel where
  rOffset : Word
  rInfo : Word

/-- `Elf32_Sym` -/
structure Sym where
  stName : Word
  stValue : Word
  stInfo : BitVec 8
  stShndx : BitVec 16
  deriving DecidableEq

def elf32RSym (info : Word) : Word := info >>> 8
def elf32RType (info : Word) : BitVec 8 := info.setWidth 8
def elf32StBind (info : BitVec 8) : BitVec 8 := info >>> 4

def shnUndef : BitVec 16 := 0
def stbWeak : BitVec 8 := 2

def Memory.rel (m : Memory) (a : Word) : Rel := ⟨m.word a, m.word (a + 4)⟩

def Memory.sym (m : Memory) (a : Word) : Sym :=
  ⟨m.word a, m.word (a + 4), m (a + 12), m.half (a + 14)⟩

/-- `&syms[index]` -/
def SoModule.symAddress (mod : SoModule) (index : Word) : Word := mod.syms + 16 * index

/-- One iteration of the loops: `&rels[j]` in section `i`. -/
structure Slot where
  i : Nat
  j : Nat
  address : Word
  deriving DecidableEq

def SectionHeader.slots (mod : SoModule) (sec : SectionHeader) (i : Nat) : List Slot :=
  if sec.name = text ".rel.dyn" ∨ sec.name = text ".rel.plt" then
    (List.range (sec.shSize.toNat / 8)).map fun j =>
      ⟨i, j, mod.loadVirtbase + sec.shAddr + BitVec.ofNat 32 (8 * j)⟩
  else []

/-- The iterations of the two nested loops, in their order. -/
def SoModule.slots (mod : SoModule) : List Slot :=
  mod.secHdr.zipIdx.flatMap fun (sec, i) => sec.slots mod i

end Module

section Relocate

/-- The numbers of the four handled types on one architecture. -/
structure RelocTypes where
  abs32 : BitVec 8
  globDat : BitVec 8
  jumpSlot : BitVec 8
  relative : BitVec 8

/-- One iteration of `so_relocate`; `none` is `fatal_error`. -/
def relocateEntry (t : RelocTypes) (mod : SoModule) (slot : Slot) (m : Memory) : Option Memory :=
  let rel := m.rel slot.address
  let ptr := mod.loadVirtbase + rel.rOffset
  let sym := m.sym (mod.symAddress (elf32RSym rel.rInfo))
  let type := elf32RType rel.rInfo
  if type = t.abs32 then
    if sym.stShndx ≠ shnUndef then
      some (m.setWord ptr (mod.loadVirtbase + sym.stValue + m.word ptr))
    else some m
  else if type = t.relative then some (m.setWord ptr (mod.loadVirtbase + m.word ptr))
  else if type = t.globDat ∨ type = t.jumpSlot then
    -- Only the defined ones; imports are left to `so_resolve`.
    if sym.stShndx ≠ shnUndef then some (m.setWord ptr (mod.loadVirtbase + sym.stValue))
    else some m
  else none

def relocateWith (t : RelocTypes) (mod : SoModule) (m : Memory) : Option Memory :=
  mod.slots.foldlM (fun m slot => relocateEntry t mod slot m) m

end Relocate

section Resolve

/-- `DynLibFunction` -/
structure DynLibFunction where
  symbol : Name
  func : Word

/-- What `dlsym` answers when an iteration asks it for a name; 0 is null. -/
abbrev Dlsym := Slot → Name → Word

end Resolve

/-! ## so_util.c -/

namespace SoUtil

def armTypes : RelocTypes where
  abs32 := 2
  globDat := 21
  jumpSlot := 22
  relative := 23

def soRelocate (mod : SoModule) (m : Memory) : Option Memory := relocateWith armTypes mod m

/-- One iteration of `so_resolve`, with the count of unresolved imports. -/
def resolveEntry (mod : SoModule) (funcs : List DynLibFunction) (dlsym : Dlsym)
    (taintMissingImports : Bool) (slot : Slot) (s : Memory × Nat) : Memory × Nat :=
  let (m, unresolved) := s
  let rel := m.rel slot.address
  let ptr := mod.loadVirtbase + rel.rOffset
  let symAddress := mod.symAddress (elf32RSym rel.rInfo)
  let type := elf32RType rel.rInfo
  if type = armTypes.globDat ∨ type = armTypes.jumpSlot ∨ type = armTypes.abs32 then
    if (m.sym symAddress).stShndx = shnUndef then
      let addend := if type = armTypes.abs32 then m.word ptr else 0
      let m := if taintMissingImports then m.setWord ptr rel.rOffset else m
      let sym := m.sym symAddress
      let name := m.string (mod.dynstrtab + sym.stName)
      match funcs.find? fun f => f.symbol = name with
      | some f => (m.setWord ptr (f.func + addend), unresolved)
      | none =>
        let p := dlsym slot name
        if p ≠ 0 then (m.setWord ptr (p + addend), unresolved)
        else if elf32StBind sym.stInfo = stbWeak then (m.setWord ptr addend, unresolved)
        else (m, unresolved + 1)
    else (m, unresolved)
  else (m, unresolved)

def soResolve (mod : SoModule) (funcs : List DynLibFunction) (dlsym : Dlsym)
    (taintMissingImports : Bool) (m : Memory) : Memory × Nat :=
  mod.slots.foldl (fun s slot => resolveEntry mod funcs dlsym taintMissingImports slot s) (m, 0)

end SoUtil

/-! ## so_util_x86.c -/

namespace SoUtilX86

def i386Types : RelocTypes where
  abs32 := 1
  globDat := 6
  jumpSlot := 7
  relative := 8

def soRelocate (mod : SoModule) (m : Memory) : Option Memory := relocateWith i386Types mod m

/-- One iteration of `so_resolve`: a missing import is not tainted first, but sent to
`missing_import_target` last. -/
def resolveEntry (mod : SoModule) (funcs : List DynLibFunction) (dlsym : Dlsym)
    (missingImportTarget : Word) (taintMissingImports : Bool) (slot : Slot)
    (s : Memory × Nat) : Memory × Nat :=
  let (m, unresolved) := s
  let rel := m.rel slot.address
  let ptr := mod.loadVirtbase + rel.rOffset
  let sym := m.sym (mod.symAddress (elf32RSym rel.rInfo))
  let type := elf32RType rel.rInfo
  if type = i386Types.globDat ∨ type = i386Types.jumpSlot ∨ type = i386Types.abs32 then
    if sym.stShndx = shnUndef then
      let addend := if type = i386Types.abs32 then m.word ptr else 0
      let name := m.string (mod.dynstrtab + sym.stName)
      match funcs.find? fun f => f.symbol = name with
      | some f => (m.setWord ptr (f.func + addend), unresolved)
      | none =>
        let p := dlsym slot name
        if p ≠ 0 then (m.setWord ptr (p + addend), unresolved)
        else if elf32StBind sym.stInfo = stbWeak then (m.setWord ptr addend, unresolved)
        else if taintMissingImports ∧ missingImportTarget ≠ 0 then
          (m.setWord ptr (missingImportTarget + addend), unresolved + 1)
        else (m, unresolved + 1)
    else (m, unresolved)
  else (m, unresolved)

def soResolve (mod : SoModule) (funcs : List DynLibFunction) (dlsym : Dlsym)
    (missingImportTarget : Word) (taintMissingImports : Bool) (m : Memory) : Memory × Nat :=
  mod.slots.foldl
    (fun s slot => resolveEntry mod funcs dlsym missingImportTarget taintMissingImports slot s)
    (m, 0)

end SoUtilX86

end Asm2Runtime.Elf
