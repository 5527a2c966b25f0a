import Asm2Runtime.ElfRelocate
import Asm2Runtime.ScatteredPass

/-!
# What a relocated module holds

The two passes together leave in every relocated word its value of the ELF rules,
with the original word as the addend, and change nothing else. The two architectures
number the types differently and do the same.
-/

namespace Asm2Runtime.Elf

section Words

/-- The addresses of `n` bytes from `a` on. -/
def span (a : Word) (n : Nat) : List Word := (List.range n).map fun k => a + BitVec.ofNat 32 k

theorem mem_span {a b : Word} {n : Nat} : b ∈ span a n ↔ ∃ k < n, a + BitVec.ofNat 32 k = b := by
  simp [span]

theorem mem_span_word {a p : Word} :
    a ∈ span p 4 ↔ a = p ∨ a = p + 1 ∨ a = p + 2 ∨ a = p + 3 := by
  simp [span, List.range_succ]

theorem setWord_frame (m : Memory) {p a : Word} (v : Word) (h : a ∉ span p 4) :
    m.setWord p v a = m a := by
  rw [mem_span_word] at h
  simp only [not_or] at h
  simp only [Memory.setWord, if_neg h.1, if_neg h.2.1, if_neg h.2.2.1, if_neg h.2.2.2]

/-- What a word was written to does not depend on what was there. -/
theorem setWord_eqOn (m m' : Memory) (p v : Word) {a : Word} (h : a ∈ span p 4) :
    m.setWord p v a = m'.setWord p v a := by
  rw [mem_span_word] at h
  simp only [Memory.setWord]
  grind

theorem add_two_one (p : Word) : p + 2 + 1 = p + 3 := by rw [BitVec.add_assoc]; rfl

theorem word_congr {m m' : Memory} {p : Word} (h : ∀ a ∈ span p 4, m a = m' a) :
    m.word p = m'.word p := by
  have h0 := h p (mem_span_word.mpr (Or.inl rfl))
  have h1 := h (p + 1) (mem_span_word.mpr (Or.inr (Or.inl rfl)))
  have h2 := h (p + 2) (mem_span_word.mpr (Or.inr (Or.inr (Or.inl rfl))))
  have h3 := h (p + 3) (mem_span_word.mpr (Or.inr (Or.inr (Or.inr rfl))))
  simp only [Memory.word, Memory.half, add_two_one, h0, h1, h2, h3]

theorem bytes_joined (v : Word) :
    ((v.extractLsb' 24 8 ++ v.extractLsb' 16 8 : BitVec 16) ++
      (v.extractLsb' 8 8 ++ v.extractLsb' 0 8 : BitVec 16) : BitVec 32) = v := by
  rw [BitVec.extractLsb'_append_extractLsb'_eq_extractLsb' (by rfl),
    BitVec.extractLsb'_append_extractLsb'_eq_extractLsb' (by rfl),
    BitVec.extractLsb'_append_extractLsb'_eq_extractLsb' (by rfl)]
  simp

theorem joined_bytes (a b c d : BitVec 8) :
    ((d ++ c : BitVec 16) ++ (b ++ a : BitVec 16) : BitVec 32).extractLsb' 0 8 = a ∧
    ((d ++ c : BitVec 16) ++ (b ++ a : BitVec 16) : BitVec 32).extractLsb' 8 8 = b ∧
    ((d ++ c : BitVec 16) ++ (b ++ a : BitVec 16) : BitVec 32).extractLsb' 16 8 = c ∧
    ((d ++ c : BitVec 16) ++ (b ++ a : BitVec 16) : BitVec 32).extractLsb' 24 8 = d := by
  refine ⟨?_, ?_, ?_, ?_⟩ <;> ext i hi <;> simp <;> grind

theorem word_setWord (m : Memory) (p v : Word) : (m.setWord p v).word p = v := by
  have h1 : p + 1 ≠ p := by simp
  have h2 : p + 2 ≠ p := by simp
  have h21 : p + 2 ≠ p + 1 := by simp
  have h3 : p + 3 ≠ p := by simp
  have h31 : p + 3 ≠ p + 1 := by simp
  have h32 : p + 3 ≠ p + 2 := by simp
  simp only [Memory.word, Memory.half, add_two_one, Memory.setWord, if_true, if_neg h1, if_neg h2,
    if_neg h21, if_neg h3, if_neg h31, if_neg h32]
  exact bytes_joined v

/-- Writing back what is there changes nothing. -/
theorem setWord_word (m : Memory) (p : Word) : m.setWord p (m.word p) = m := by
  obtain ⟨h0, h1, h2, h3⟩ := joined_bytes (m p) (m (p + 1)) (m (p + 2)) (m (p + 3))
  funext a
  simp only [Memory.setWord, Memory.word, Memory.half, add_two_one, h0, h1, h2, h3]
  grind

end Words

section Tables

/-- A span inside a span. -/
theorem span_subset {a : Word} {n k l : Nat} (h : k + l ≤ n) {b : Word}
    (hb : b ∈ span (a + BitVec.ofNat 32 k) l) : b ∈ span a n := by
  obtain ⟨j, hj, rfl⟩ := mem_span.mp hb
  exact mem_span.mpr ⟨k + j, by omega, by rw [BitVec.ofNat_add, BitVec.add_assoc]⟩

theorem rel_congr {m m' : Memory} {a : Word} (h : ∀ b ∈ span a 8, m b = m' b) :
    m.rel a = m'.rel a := by
  have hlow : m.word a = m'.word a := word_congr fun b hb => by
    have hb' : b ∈ span (a + BitVec.ofNat 32 0) 4 := by simpa using hb
    exact h b (span_subset (by omega) hb')
  have hhigh : m.word (a + 4) = m'.word (a + 4) := word_congr fun b hb =>
    h b (span_subset (k := 4) (by omega) hb)
  simp only [Memory.rel, hlow, hhigh]

theorem sym_congr {m m' : Memory} {a : Word} (h : ∀ b ∈ span a 16, m b = m' b) :
    m.sym a = m'.sym a := by
  have hname : m.word a = m'.word a := word_congr fun b hb => by
    have hb' : b ∈ span (a + BitVec.ofNat 32 0) 4 := by simpa using hb
    exact h b (span_subset (by omega) hb')
  have hvalue : m.word (a + 4) = m'.word (a + 4) := word_congr fun b hb =>
    h b (span_subset (k := 4) (by omega) hb)
  have hinfo : m (a + 12) = m' (a + 12) := h _ (mem_span.mpr ⟨12, by omega, rfl⟩)
  have h14 : m (a + 14) = m' (a + 14) := h _ (mem_span.mpr ⟨14, by omega, rfl⟩)
  have h15 : m (a + 15) = m' (a + 15) := h _ (mem_span.mpr ⟨15, by omega, rfl⟩)
  have hsum : a + 14 + 1 = a + 15 := by rw [BitVec.add_assoc]; rfl
  simp only [Memory.sym, hname, hvalue, hinfo, Memory.half, hsum, h14, h15]

theorem span_succ {a b : Word} {n : Nat} : b ∈ span a (n + 1) ↔ b = a ∨ b ∈ span (a + 1) n := by
  constructor
  · intro h
    obtain ⟨k, hk, rfl⟩ := mem_span.mp h
    cases k with
    | zero => exact Or.inl (by simp)
    | succ k =>
      right
      refine mem_span.mpr ⟨k, by omega, ?_⟩
      rw [Nat.add_comm k 1, BitVec.ofNat_add, BitVec.add_assoc]
      rfl
  · rintro (rfl | h)
    · exact mem_span.mpr ⟨0, by omega, by simp⟩
    · exact span_subset (k := 1) (by omega) h

theorem stringFrom_congr {m m' : Memory} {a : Word} (remaining : Nat)
    (h : ∀ b ∈ span a ((m.stringFrom a remaining).length + 1), m b = m' b) :
    m'.stringFrom a remaining = m.stringFrom a remaining := by
  induction remaining generalizing a with
  | zero => rfl
  | succ remaining ih =>
    have hfirst : m a = m' a := h a (span_succ.mpr (Or.inl rfl))
    by_cases hzero : m a = 0
    · simp [Memory.stringFrom, ← hfirst, hzero]
    · simp only [Memory.stringFrom, ← hfirst, if_neg hzero, List.length_cons] at h ⊢
      rw [ih fun b hb => h b (span_succ.mpr (Or.inr hb))]

theorem string_congr {m m' : Memory} {a : Word}
    (h : ∀ b ∈ span a ((m.string a).length + 1), m b = m' b) : m'.string a = m.string a :=
  stringFrom_congr (2 ^ 32) h

end Tables

section Meaning

/-- The four handled types. -/
inductive RelKind
  | abs32
  | relative
  | globDat
  | jumpSlot
  deriving DecidableEq

def RelocTypes.kind (t : RelocTypes) (type : BitVec 8) : Option RelKind :=
  if type = t.abs32 then some .abs32
  else if type = t.relative then some .relative
  else if type = t.globDat then some .globDat
  else if type = t.jumpSlot then some .jumpSlot
  else none

variable (mod : SoModule) (m : Memory) (slot : Slot)

/-- The word that an entry relocates. -/
def SoModule.target : Word := mod.loadVirtbase + (m.rel slot.address).rOffset

def Slot.type : BitVec 8 := elf32RType (m.rel slot.address).rInfo

def SoModule.symbol : Sym := m.sym (mod.symAddress (elf32RSym (m.rel slot.address).rInfo))

/-- The name of an entry's symbol. -/
def SoModule.symbolName : Name := m.string (mod.dynstrtab + (mod.symbol m slot).stName)

/-- The symbol, string and relocation tables; of the strings, the names that are looked up. -/
def SoModule.tables : List Word :=
  span mod.syms (16 * mod.numSyms) ++
    (mod.slots.flatMap fun slot => span slot.address 8) ++
    ((mod.slots.filter fun slot => (mod.symbol m slot).stShndx = shnUndef).flatMap fun slot =>
      span (mod.dynstrtab + (mod.symbol m slot).stName) ((mod.symbolName m slot).length + 1))

/-- What the module's relocations have to be like. -/
structure Relocatable (t : RelocTypes) : Prop where
  handled : ∀ slot ∈ mod.slots, (t.kind (slot.type m)).isSome = true
  indexed : ∀ slot ∈ mod.slots,
    (elf32RSym (m.rel slot.address).rInfo).toNat < mod.numSyms
  image : mod.mappingBase.toNat + mod.loadSize ≤ 2 ^ 32
  inside : ∀ slot ∈ mod.slots, mod.mappingBase.toNat ≤ (mod.target m slot).toNat ∧
    (mod.target m slot).toNat + 4 ≤ mod.mappingBase.toNat + mod.loadSize
  apart : mod.slots.Pairwise fun s s' =>
    (mod.target m s).toNat + 4 ≤ (mod.target m s').toNat ∨
      (mod.target m s').toNat + 4 ≤ (mod.target m s).toNat
  off : ∀ slot ∈ mod.slots, ∀ a ∈ span (mod.target m slot) 4, a ∉ mod.tables m

/-- `S`: the symbol of the module itself, else the first import of the name, else what the
system has, else 0 for a weak one. -/
def symbolValue (funcs : List DynLibFunction) (dlsym : Dlsym) : Option Word :=
  let sym := mod.symbol m slot
  let name := mod.symbolName m slot
  if sym.stShndx ≠ shnUndef then some (mod.loadVirtbase + sym.stValue)
  else match funcs.find? fun f => f.symbol = name with
    | some f => some f.func
    | none =>
      if dlsym slot name ≠ 0 then some (dlsym slot name)
      else if elf32StBind sym.stInfo = stbWeak then some 0
      else none

/-- The value of a relocated word: `B` is the load bias, `A` the addend. -/
def elfValue (kind : RelKind) (B : Word) (S : Option Word) (A : Word) : Option Word :=
  match kind with
  | .abs32 => S.map fun S => S + A
  | .relative => some (B + A)
  | .globDat | .jumpSlot => S

/-- The memory after both passes, with the count of unresolved imports. -/
structure Meant (t : RelocTypes) (funcs : List DynLibFunction) (dlsym : Dlsym)
    (final : Memory × Nat) : Prop where
  value : final.2 = 0 → ∀ slot ∈ mod.slots,
    ((t.kind (slot.type m)).bind fun kind => elfValue kind mod.loadVirtbase
        (symbolValue mod m slot funcs dlsym) (m.word (mod.target m slot))) =
      some (final.1.word (mod.target m slot))
  frame : ∀ a, (∀ slot ∈ mod.slots, a ∉ span (mod.target m slot) 4) → final.1 a = m a

end Meaning

section Passes

variable {mod : SoModule} {m₀ : Memory} {t : RelocTypes}

/-- The memory still has the tables of the loaded module. -/
def SameTables (mod : SoModule) (m₀ m : Memory) : Prop :=
  Set.EqOn m m₀ {a | a ∈ mod.tables m₀}

theorem mem_tables_symbol {a : Word} (h : a ∈ span mod.syms (16 * mod.numSyms)) :
    a ∈ mod.tables m₀ := by
  simp [SoModule.tables, h]

theorem mem_tables_rel {slot : Slot} (hslot : slot ∈ mod.slots) {a : Word}
    (h : a ∈ span slot.address 8) : a ∈ mod.tables m₀ := by
  simp only [SoModule.tables, List.mem_append, List.mem_flatMap]
  exact Or.inl (Or.inr ⟨slot, hslot, h⟩)

theorem mem_tables_name {slot : Slot} (hslot : slot ∈ mod.slots)
    (hundef : (mod.symbol m₀ slot).stShndx = shnUndef) {a : Word}
    (h : a ∈ span (mod.dynstrtab + (mod.symbol m₀ slot).stName)
      ((mod.symbolName m₀ slot).length + 1)) : a ∈ mod.tables m₀ := by
  simp only [SoModule.tables, List.mem_append, List.mem_flatMap]
  exact Or.inr ⟨slot, by simp [hslot, hundef], h⟩

theorem SameTables.rel {m : Memory} (h : SameTables mod m₀ m) {slot : Slot}
    (hslot : slot ∈ mod.slots) : m.rel slot.address = m₀.rel slot.address :=
  rel_congr fun _ hb => h (mem_tables_rel hslot hb)

theorem SameTables.symbol {m : Memory} (h : SameTables mod m₀ m) {slot : Slot}
    (hindex : (elf32RSym (m₀.rel slot.address).rInfo).toNat < mod.numSyms) :
    m.sym (mod.symAddress (elf32RSym (m₀.rel slot.address).rInfo)) = mod.symbol m₀ slot := by
  apply sym_congr
  intro b hb
  apply h
  apply mem_tables_symbol
  have haddress : mod.symAddress (elf32RSym (m₀.rel slot.address).rInfo) =
      mod.syms + BitVec.ofNat 32 (16 * (elf32RSym (m₀.rel slot.address).rInfo).toNat) := by
    rw [SoModule.symAddress, BitVec.ofNat_mul]
    simp
  rw [haddress] at hb
  exact span_subset (by omega) hb

theorem SameTables.name {m : Memory} (h : SameTables mod m₀ m) {slot : Slot}
    (hslot : slot ∈ mod.slots) (hundef : (mod.symbol m₀ slot).stShndx = shnUndef) :
    m.string (mod.dynstrtab + (mod.symbol m₀ slot).stName) = mod.symbolName m₀ slot :=
  string_congr fun _ hb => (h (mem_tables_name hslot hundef hb)).symm

/-- The word that `so_relocate` leaves for an entry. -/
def relocated (kind : RelKind) (B : Word) (sym : Sym) (A : Word) : Word :=
  match kind with
  | .abs32 => if sym.stShndx ≠ shnUndef then B + sym.stValue + A else A
  | .relative => B + A
  | .globDat | .jumpSlot => if sym.stShndx ≠ shnUndef then B + sym.stValue else A

/-- The word that `so_resolve` leaves for an entry, given what it finds there. -/
def resolved (kind : RelKind) (sym : Sym) (S : Option Word) (A : Word) : Word :=
  if sym.stShndx = shnUndef then
    match kind, S with
    | .abs32, some S => S + A
    | .globDat, some S | .jumpSlot, some S => S
    | _, _ => A
  else A

/-- The entry is counted as unresolved. -/
def missing (kind : RelKind) (sym : Sym) (S : Option Word) : Bool :=
  kind ≠ .relative && sym.stShndx = shnUndef && S.isNone

theorem relocateEntry_eq (h : Relocatable mod m₀ t) {m : Memory} (hm : SameTables mod m₀ m)
    {slot : Slot} (hslot : slot ∈ mod.slots) {kind : RelKind}
    (hkind : t.kind (slot.type m₀) = some kind) :
    relocateEntry t mod slot m = some (m.setWord (mod.target m₀ slot)
      (relocated kind mod.loadVirtbase (mod.symbol m₀ slot) (m.word (mod.target m₀ slot)))) := by
  have htarget : mod.loadVirtbase + (m₀.rel slot.address).rOffset = mod.target m₀ slot := rfl
  have htype : elf32RType (m₀.rel slot.address).rInfo = slot.type m₀ := rfl
  simp only [relocateEntry, hm.rel hslot, hm.symbol (h.indexed slot hslot), htarget, htype]
  unfold RelocTypes.kind at hkind
  by_cases habs : slot.type m₀ = t.abs32
  · rw [if_pos habs] at hkind ⊢
    obtain rfl := Option.some.inj hkind
    by_cases hdef : (mod.symbol m₀ slot).stShndx ≠ shnUndef
    · simp only [relocated, if_pos hdef]
    · simp only [relocated, if_neg hdef, setWord_word]
  · rw [if_neg habs] at hkind ⊢
    by_cases hrel : slot.type m₀ = t.relative
    · rw [if_pos hrel] at hkind ⊢
      obtain rfl := Option.some.inj hkind
      rfl
    · rw [if_neg hrel] at hkind ⊢
      have hgot : (slot.type m₀ = t.globDat ∨ slot.type m₀ = t.jumpSlot) ∧
          (kind = .globDat ∨ kind = .jumpSlot) := by
        grind
      rw [if_pos hgot.1]
      by_cases hdef : (mod.symbol m₀ slot).stShndx ≠ shnUndef
      · obtain rfl | rfl := hgot.2 <;> simp only [relocated, if_pos hdef]
      · obtain rfl | rfl := hgot.2 <;> simp only [relocated, if_neg hdef, setWord_word]

/-- One iteration of `so_resolve` without taint, for either numbering. -/
def resolveUntainted (t : RelocTypes) (mod : SoModule) (funcs : List DynLibFunction)
    (dlsym : Dlsym) (slot : Slot) (s : Memory × Nat) : Memory × Nat :=
  let (m, unresolved) := s
  let rel := m.rel slot.address
  let ptr := mod.loadVirtbase + rel.rOffset
  let sym := m.sym (mod.symAddress (elf32RSym rel.rInfo))
  let type := elf32RType rel.rInfo
  if type = t.globDat ∨ type = t.jumpSlot ∨ type = t.abs32 then
    if sym.stShndx = shnUndef then
      let addend := if type = t.abs32 then m.word ptr else 0
      let name := m.string (mod.dynstrtab + sym.stName)
      match funcs.find? fun f => f.symbol = name with
      | some f => (m.setWord ptr (f.func + addend), unresolved)
      | none =>
        let p := dlsym slot name
        if p ≠ 0 then (m.setWord ptr (p + addend), unresolved)
        else if elf32StBind sym.stInfo = stbWeak then (m.setWord ptr addend, unresolved)
        else (m, unresolved + 1)
    else (m, unresolved)
  else (m, unresolved)

/-- The trap for missing imports needs the taint flag as well. -/
theorem soUtilX86_resolveEntry (mod : SoModule) (funcs : List DynLibFunction) (dlsym : Dlsym)
    (missingImportTarget : Word) (slot : Slot) (s : Memory × Nat) :
    SoUtilX86.resolveEntry mod funcs dlsym missingImportTarget false slot s =
      resolveUntainted SoUtilX86.i386Types mod funcs dlsym slot s := by
  simp only [SoUtilX86.resolveEntry, Bool.false_eq_true, false_and, if_false]
  rfl

/-- No two of the handled types share a number. -/
def RelocTypes.Distinct (t : RelocTypes) : Prop :=
  [t.abs32, t.globDat, t.jumpSlot, t.relative].Nodup

theorem kind_imports (hd : t.Distinct) {type : BitVec 8} {kind : RelKind}
    (hkind : t.kind type = some kind) :
    (kind ≠ .relative ↔ type = t.globDat ∨ type = t.jumpSlot ∨ type = t.abs32) ∧
      (kind = .abs32 ↔ type = t.abs32) := by
  simp only [RelocTypes.Distinct, List.nodup_cons, List.mem_cons, not_or] at hd
  unfold RelocTypes.kind at hkind
  grind

theorem resolveUntainted_eq (hd : t.Distinct) (h : Relocatable mod m₀ t)
    (funcs : List DynLibFunction) (dlsym : Dlsym) {m : Memory} (hm : SameTables mod m₀ m) (n : Nat)
    {slot : Slot} (hslot : slot ∈ mod.slots) {kind : RelKind}
    (hkind : t.kind (slot.type m₀) = some kind) :
    resolveUntainted t mod funcs dlsym slot (m, n) =
      (m.setWord (mod.target m₀ slot)
        (resolved kind (mod.symbol m₀ slot) (symbolValue mod m₀ slot funcs dlsym)
          (m.word (mod.target m₀ slot))),
        if missing kind (mod.symbol m₀ slot) (symbolValue mod m₀ slot funcs dlsym) then n + 1
        else n) := by
  have htarget : mod.loadVirtbase + (m₀.rel slot.address).rOffset = mod.target m₀ slot := rfl
  have htype : elf32RType (m₀.rel slot.address).rInfo = slot.type m₀ := rfl
  obtain ⟨himport, habs⟩ := kind_imports hd hkind
  simp only [resolveUntainted, hm.rel hslot, hm.symbol (h.indexed slot hslot), htarget, htype]
  by_cases hrelative : kind = .relative
  · rw [if_neg (mt himport.mpr (not_not.mpr hrelative))]
    simp [hrelative, resolved, missing, setWord_word]
  · rw [if_pos (himport.mp hrelative)]
    by_cases hundef : (mod.symbol m₀ slot).stShndx = shnUndef
    · rw [if_pos hundef, hm.name hslot hundef]
      simp only [← habs, resolved, missing, symbolValue, hundef, ne_eq,
        not_true_eq_false, if_false, hrelative, not_false_eq_true, decide_true, Bool.true_and]
      cases funcs.find? fun f => f.symbol = mod.symbolName m₀ slot with
      | some f => cases kind <;> simp_all
      | none =>
        by_cases hsystem : dlsym slot (mod.symbolName m₀ slot) = 0
        · by_cases hweak : elf32StBind (mod.symbol m₀ slot).stInfo = stbWeak
          · cases kind <;> simp_all
          · cases kind <;> simp_all [setWord_word]
        · cases kind <;> simp_all
    · simp [hrelative, hundef, resolved, missing, setWord_word]

end Passes

section Results

variable {mod : SoModule} {m₀ : Memory} {t : RelocTypes}

/-- A handled entry's type. -/
def Slot.kind (slot : Slot) (t : RelocTypes) (m : Memory) : RelKind :=
  (t.kind (slot.type m)).getD .relative

theorem Relocatable.kind (h : Relocatable mod m₀ t) {slot : Slot} (hslot : slot ∈ mod.slots) :
    t.kind (slot.type m₀) = some (slot.kind t m₀) := by
  obtain ⟨kind, hkind⟩ := Option.isSome_iff_exists.mp (h.handled slot hslot)
  rw [Slot.kind, hkind, Option.getD_some]

theorem toNat_of_mem_span {a p : Word} (hp : p.toNat + 4 ≤ 2 ^ 32) (h : a ∈ span p 4) :
    p.toNat ≤ a.toNat ∧ a.toNat < p.toNat + 4 := by
  obtain ⟨k, hk, rfl⟩ := mem_span.mp h
  rw [BitVec.toNat_add, BitVec.toNat_ofNat]
  omega

/-- Patching the targets is a scattered pass, whatever is computed from the old words. -/
theorem Relocatable.pass (h : Relocatable mod m₀ t) (g : Slot → Word → Word) :
    ScatteredPass (fun slot => {a | a ∈ span (mod.target m₀ slot) 4}) {a | a ∈ mod.tables m₀} m₀
      (fun slot (m : Memory) =>
        m.setWord (mod.target m₀ slot) (g slot (m.word (mod.target m₀ slot))))
      mod.slots where
  apart := by
    apply h.apart.imp_of_mem
    intro s s' hs hs' hdist
    have himage := h.image
    have hinside := h.inside s hs
    have hinside' := h.inside s' hs'
    rw [Set.disjoint_left]
    intro a ha ha'
    have hnear := toNat_of_mem_span (by omega) ha
    have hnear' := toNat_of_mem_span (by omega) ha'
    omega
  off slot hslot := Set.disjoint_left.mpr fun a ha => h.off slot hslot a ha
  frame slot _ m _ a ha := setWord_frame m _ ha
  own slot _ m m' _ _ hsame := by
    intro a ha
    have hword : Memory.word m (mod.target m₀ slot) = Memory.word m' (mod.target m₀ slot) :=
      word_congr fun b hb => hsame hb
    simp only [hword]
    exact setWord_eqOn m m' _ _ ha

variable (mod m₀ t) in
/-- What both passes leave for an entry. -/
def finalWord (funcs : List DynLibFunction) (dlsym : Dlsym) (slot : Slot) : Word :=
  resolved (slot.kind t m₀) (mod.symbol m₀ slot) (symbolValue mod m₀ slot funcs dlsym)
    (relocated (slot.kind t m₀) mod.loadVirtbase (mod.symbol m₀ slot)
      (m₀.word (mod.target m₀ slot)))

variable (mod t) in
/-- `so_relocate`, and then `so_resolve` without taint. -/
def loadUntainted (funcs : List DynLibFunction) (dlsym : Dlsym) (m : Memory) :
    Option (Memory × Nat) :=
  (relocateWith t mod m).map fun m =>
    mod.slots.foldl (fun s slot => resolveUntainted t mod funcs dlsym slot s) (m, 0)

/-- Both passes, word by word. -/
theorem loadUntainted_spec (hd : t.Distinct) (h : Relocatable mod m₀ t)
    (funcs : List DynLibFunction) (dlsym : Dlsym) :
    ∃ final, loadUntainted mod t funcs dlsym m₀ = some final ∧
      (∀ slot ∈ mod.slots, ∀ a ∈ span (mod.target m₀ slot) 4,
        final.1 a = m₀.setWord (mod.target m₀ slot) (finalWord mod m₀ t funcs dlsym slot) a) ∧
      (∀ a, (∀ slot ∈ mod.slots, a ∉ span (mod.target m₀ slot) 4) → final.1 a = m₀ a) ∧
      final.2 = mod.slots.countP fun slot => missing (slot.kind t m₀) (mod.symbol m₀ slot)
        (symbolValue mod m₀ slot funcs dlsym) := by
  have hfirst := h.pass fun slot A =>
    relocated (slot.kind t m₀) mod.loadVirtbase (mod.symbol m₀ slot) A
  have hsecond := h.pass fun slot A =>
    resolved (slot.kind t m₀) (mod.symbol m₀ slot) (symbolValue mod m₀ slot funcs dlsym) A
  have hstart : SameTables mod m₀ m₀ := Set.eqOn_refl m₀ _
  have hrelocate := hfirst.foldlM_eq
    (fun slot hslot m hm => relocateEntry_eq h hm hslot (h.kind hslot)) hstart
  have hmiddle := hfirst.foldl_fixed hstart
  have hresolve := hsecond.foldl_count
    (fun slot hslot m n hm => resolveUntainted_eq hd h funcs dlsym hm n hslot (h.kind hslot))
    0 hmiddle
  have hload := congrArg (Option.map fun m =>
    mod.slots.foldl (fun s slot => resolveUntainted t mod funcs dlsym slot s) (m, 0)) hrelocate
  rw [Option.map_some, hresolve] at hload
  refine ⟨_, hload, ?_, ?_, by simp⟩
  · intro slot hslot a ha
    -- The first pass has left its word in the cell, and nothing since has touched it.
    have hword := word_congr fun b hb => hfirst.foldl_cell hslot hstart hb
    rw [word_setWord] at hword
    have hcell := hsecond.foldl_cell hslot hmiddle ha
    simp only [hword] at hcell
    exact hcell.trans (setWord_eqOn _ _ _ _ ha)
  · intro a ha
    exact (hsecond.foldl_frame hmiddle ha).trans (hfirst.foldl_frame hstart ha)

/-- An entry that is not missing has its value by the ELF rules. -/
theorem elfValue_finalWord (h : Relocatable mod m₀ t) (funcs : List DynLibFunction) (dlsym : Dlsym)
    {slot : Slot} (hslot : slot ∈ mod.slots)
    (hfound : missing (slot.kind t m₀) (mod.symbol m₀ slot)
      (symbolValue mod m₀ slot funcs dlsym) = false) :
    ((t.kind (slot.type m₀)).bind fun kind => elfValue kind mod.loadVirtbase
        (symbolValue mod m₀ slot funcs dlsym) (m₀.word (mod.target m₀ slot))) =
      some (finalWord mod m₀ t funcs dlsym slot) := by
  rw [h.kind hslot, Option.bind_some, finalWord]
  by_cases hundef : (mod.symbol m₀ slot).stShndx = shnUndef
  · -- An import: the first pass left the addend alone.
    cases hS : symbolValue mod m₀ slot funcs dlsym with
    | none =>
      rw [hS] at hfound
      cases hkind : slot.kind t m₀ <;> simp_all [missing, elfValue, resolved, relocated]
    | some S => cases slot.kind t m₀ <;> simp [elfValue, resolved, relocated, hundef]
  · have hS : symbolValue mod m₀ slot funcs dlsym =
        some (mod.loadVirtbase + (mod.symbol m₀ slot).stValue) := by
      simp [symbolValue, hundef]
    rw [hS]
    cases slot.kind t m₀ <;> simp [elfValue, resolved, relocated, hundef]

theorem loadUntainted_meant (hd : t.Distinct) (h : Relocatable mod m₀ t)
    (funcs : List DynLibFunction) (dlsym : Dlsym) :
    ∃ final, loadUntainted mod t funcs dlsym m₀ = some final ∧
      Meant mod m₀ t funcs dlsym final := by
  obtain ⟨final, hload, hcells, hframe, hcount⟩ := loadUntainted_spec hd h funcs dlsym
  refine ⟨final, hload, ?_, hframe⟩
  intro hzero slot hslot
  rw [hcount, List.countP_eq_zero] at hzero
  rw [elfValue_finalWord h funcs dlsym hslot (by simpa using hzero slot hslot)]
  congr 1
  exact ((word_congr (hcells slot hslot)).trans (word_setWord m₀ _ _)).symm

end Results

section Main

/-- One module for both architectures: only the numbers of the relocation types differ. -/
structure Renamed (mod : SoModule) (m m' : Memory) : Prop where
  offset : ∀ slot ∈ mod.slots, (m'.rel slot.address).rOffset = (m.rel slot.address).rOffset
  index : ∀ slot ∈ mod.slots,
    elf32RSym (m'.rel slot.address).rInfo = elf32RSym (m.rel slot.address).rInfo
  kind : ∀ slot ∈ mod.slots,
    SoUtilX86.i386Types.kind (slot.type m') = SoUtil.armTypes.kind (slot.type m)
  symbol : ∀ slot ∈ mod.slots, mod.symbol m' slot = mod.symbol m slot
  name : ∀ slot ∈ mod.slots, mod.symbolName m' slot = mod.symbolName m slot
  bytes : ∀ a, (∀ slot ∈ mod.slots, a ≠ slot.address + 4) → m' a = m a

def SoUtil.load (mod : SoModule) (funcs : List DynLibFunction) (dlsym : Dlsym) (m : Memory) :
    Option (Memory × Nat) :=
  (SoUtil.soRelocate mod m).map (SoUtil.soResolve mod funcs dlsym false)

def SoUtilX86.load (mod : SoModule) (funcs : List DynLibFunction) (dlsym : Dlsym)
    (missingImportTarget : Word) (m : Memory) : Option (Memory × Nat) :=
  (SoUtilX86.soRelocate mod m).map
    (SoUtilX86.soResolve mod funcs dlsym missingImportTarget false)

theorem SoUtil.load_eq (mod : SoModule) (funcs : List DynLibFunction) (dlsym : Dlsym)
    (m : Memory) : SoUtil.load mod funcs dlsym m =
      loadUntainted mod SoUtil.armTypes funcs dlsym m := rfl

theorem SoUtilX86.load_eq (mod : SoModule) (funcs : List DynLibFunction) (dlsym : Dlsym)
    (missingImportTarget : Word) (m : Memory) :
    SoUtilX86.load mod funcs dlsym missingImportTarget m =
      loadUntainted mod SoUtilX86.i386Types funcs dlsym m := by
  unfold SoUtilX86.load loadUntainted SoUtilX86.soResolve
  simp only [soUtilX86_resolveEntry]
  rfl

theorem armTypes_distinct : SoUtil.armTypes.Distinct := by
  unfold RelocTypes.Distinct
  decide

theorem i386Types_distinct : SoUtilX86.i386Types.Distinct := by
  unfold RelocTypes.Distinct
  decide

variable {mod : SoModule} {m m' : Memory}

theorem Renamed.target (hren : Renamed mod m m') {slot : Slot} (hslot : slot ∈ mod.slots) :
    mod.target m' slot = mod.target m slot := by
  rw [SoModule.target, SoModule.target, hren.offset slot hslot]

theorem Renamed.tables (hren : Renamed mod m m') {a : Word} (h : a ∈ mod.tables m') :
    a ∈ mod.tables m := by
  simp only [SoModule.tables, List.mem_append, List.mem_flatMap, List.mem_filter,
    decide_eq_true_eq] at h ⊢
  refine h.imp_right fun hname => ?_
  obtain ⟨slot, ⟨hslot, hundef⟩, ha⟩ := hname
  rw [hren.symbol slot hslot] at hundef ha
  rw [hren.name slot hslot] at ha
  exact ⟨slot, ⟨hslot, hundef⟩, ha⟩

theorem Renamed.relocatable (hren : Renamed mod m m')
    (h : Relocatable mod m SoUtil.armTypes) : Relocatable mod m' SoUtilX86.i386Types where
  handled slot hslot := by
    rw [hren.kind slot hslot]
    exact h.handled slot hslot
  indexed slot hslot := by
    rw [hren.index slot hslot]
    exact h.indexed slot hslot
  image := h.image
  inside slot hslot := by
    rw [hren.target hslot]
    exact h.inside slot hslot
  apart := h.apart.imp_of_mem fun hs hs' hdist => by
    rw [hren.target hs, hren.target hs']
    exact hdist
  off slot hslot a ha htable := by
    rw [hren.target hslot] at ha
    exact h.off slot hslot a ha (hren.tables htable)

theorem Renamed.symbolValue (hren : Renamed mod m m') {slot : Slot} (hslot : slot ∈ mod.slots)
    (funcs : List DynLibFunction) (dlsym : Dlsym) :
    symbolValue mod m' slot funcs dlsym = symbolValue mod m slot funcs dlsym := by
  simp only [Elf.symbolValue, hren.symbol slot hslot, hren.name slot hslot]

theorem Renamed.slotKind (hren : Renamed mod m m') {slot : Slot} (hslot : slot ∈ mod.slots) :
    slot.kind SoUtilX86.i386Types m' = slot.kind SoUtil.armTypes m := by
  rw [Slot.kind, Slot.kind, hren.kind slot hslot]

/-- The type of an entry is not relocated. -/
theorem Relocatable.not_type {t : RelocTypes} (h : Relocatable mod m t) {slot slot' : Slot}
    (hslot : slot ∈ mod.slots) (hslot' : slot' ∈ mod.slots) {a : Word}
    (ha : a ∈ span (mod.target m slot) 4) : a ≠ slot'.address + 4 := by
  rintro rfl
  exact h.off slot hslot _ ha (mem_tables_rel hslot' (mem_span.mpr ⟨4, by omega, rfl⟩))

theorem Renamed.finalWord (hren : Renamed mod m m') (h : Relocatable mod m SoUtil.armTypes)
    {slot : Slot} (hslot : slot ∈ mod.slots) (funcs : List DynLibFunction) (dlsym : Dlsym) :
    finalWord mod m' SoUtilX86.i386Types funcs dlsym slot =
      finalWord mod m SoUtil.armTypes funcs dlsym slot := by
  have hword : m'.word (mod.target m slot) = m.word (mod.target m slot) :=
    word_congr fun a ha => hren.bytes a fun _ hslot' => h.not_type hslot hslot' ha
  simp only [Elf.finalWord, hren.slotKind hslot, hren.symbol slot hslot, hren.symbolValue hslot,
    hren.target hslot, hword]

/-- The two implementations do the same to the same module. -/
theorem Renamed.load (hren : Renamed mod m m') (h : Relocatable mod m SoUtil.armTypes)
    (funcs : List DynLibFunction) (dlsym : Dlsym) (missingImportTarget : Word) :
    ∃ final final', SoUtil.load mod funcs dlsym m = some final ∧
      SoUtilX86.load mod funcs dlsym missingImportTarget m' = some final' ∧
      final'.2 = final.2 ∧
      ∀ a, (∀ slot ∈ mod.slots, a ≠ slot.address + 4) → final'.1 a = final.1 a := by
  obtain ⟨final, hload, hcells, hframe, hcount⟩ :=
    loadUntainted_spec armTypes_distinct h funcs dlsym
  obtain ⟨final', hload', hcells', hframe', hcount'⟩ :=
    loadUntainted_spec i386Types_distinct (hren.relocatable h) funcs dlsym
  rw [← SoUtil.load_eq] at hload
  rw [← SoUtilX86.load_eq mod funcs dlsym missingImportTarget] at hload'
  refine ⟨final, final', hload, hload', ?_, ?_⟩
  · rw [hcount, hcount']
    apply List.countP_congr
    intro slot hslot
    rw [hren.slotKind hslot, hren.symbol slot hslot, hren.symbolValue hslot]
  · intro a ha
    by_cases hcell : ∃ slot ∈ mod.slots, a ∈ span (mod.target m slot) 4
    · obtain ⟨slot, hslot, hmem⟩ := hcell
      have hmem' : a ∈ span (mod.target m' slot) 4 := by rwa [hren.target hslot]
      rw [hcells slot hslot a hmem, hcells' slot hslot a hmem', hren.finalWord h hslot,
        hren.target hslot]
      exact setWord_eqOn m' m _ _ hmem
    · have hout : ∀ slot ∈ mod.slots, a ∉ span (mod.target m slot) 4 := fun slot hslot hmem =>
        hcell ⟨slot, hslot, hmem⟩
      rw [hframe a hout, hframe' a fun slot hslot => by
        rw [hren.target hslot]; exact hout slot hslot]
      exact hren.bytes a ha

/-- For every module, import table and answers of the system: both loaders leave the ELF values
and change nothing else, and they leave the same memory. -/
theorem relocations_meant (mod : SoModule) (funcs : List DynLibFunction) (dlsym : Dlsym)
    (missingImportTarget : Word) :
    (∀ m, Relocatable mod m SoUtil.armTypes →
      ∃ final, SoUtil.load mod funcs dlsym m = some final ∧
        Meant mod m SoUtil.armTypes funcs dlsym final) ∧
    (∀ m, Relocatable mod m SoUtilX86.i386Types →
      ∃ final, SoUtilX86.load mod funcs dlsym missingImportTarget m = some final ∧
        Meant mod m SoUtilX86.i386Types funcs dlsym final) ∧
    ∀ m m', Relocatable mod m SoUtil.armTypes → Renamed mod m m' →
      ∃ final final', SoUtil.load mod funcs dlsym m = some final ∧
        SoUtilX86.load mod funcs dlsym missingImportTarget m' = some final' ∧
        final'.2 = final.2 ∧
        ∀ a, (∀ slot ∈ mod.slots, a ≠ slot.address + 4) → final'.1 a = final.1 a := by
  refine ⟨?_, ?_, ?_⟩
  · intro m h
    exact loadUntainted_meant armTypes_distinct h funcs dlsym
  · intro m h
    rw [SoUtilX86.load_eq]
    exact loadUntainted_meant i386Types_distinct h funcs dlsym
  · intro m m' h hren
    exact hren.load h funcs dlsym missingImportTarget

/-- Four words, four entries, three symbols and their names, at 0x1000. -/
def plainBytes : List (BitVec 8) :=
  [5, 0, 0, 0, 0x20, 0, 0, 0, 0, 0, 0, 0, 0, 0, 0, 0,
    0, 0, 0, 0, 0, 0, 0, 0, 4, 0, 0, 0, 0, 0, 0, 0, 8, 0, 0, 0, 0, 1, 0, 0,
    12, 0, 0, 0, 0, 2, 0, 0,
    1, 0, 0, 0, 0, 0, 0, 0, 0, 0, 0, 0, 0x10, 0, 0, 0,
    3, 0, 0, 0, 0, 0, 0, 0, 0, 0, 0, 0, 0x20, 0, 0, 0,
    0, 0, 0, 0, 0x40, 0, 0, 0, 0, 0, 0, 0, 0x10, 0, 1, 0,
    0, 0x66, 0, 0x77, 0]

/-- An import with an addend, a relative word, a weak import and a defined function. -/
def plainMemory (t : RelocTypes) : Memory := fun a =>
  if a = 0x1014 then t.abs32
  else if a = 0x101c then t.relative
  else if a = 0x1024 then t.globDat
  else if a = 0x102c then t.jumpSlot
  else plainBytes.getD (a.toNat - 0x1000) 0

def plainModule : SoModule where
  mappingBase := 0x1000
  loadSize := 0x1000
  loadVirtbase := 0x1000
  secHdr := [⟨text ".text", 0, 16⟩, ⟨text ".rel.dyn", 0x10, 24⟩, ⟨text ".rel.plt", 0x28, 8⟩]
  syms := 0x1030
  numSyms := 3
  dynstrtab := 0x1060

theorem plainMemory_relocatable :
    Relocatable plainModule (plainMemory SoUtil.armTypes) SoUtil.armTypes where
  handled := by decide +kernel
  indexed := by decide +kernel
  image := by decide +kernel
  inside := by decide +kernel
  apart := by decide +kernel
  off := by
    -- The words come before the tables.
    have hwords : ∀ slot ∈ plainModule.slots,
        ((span (plainModule.target (plainMemory SoUtil.armTypes) slot) 4).all fun a =>
          a.toNat ≤ 0x100f) = true := by
      decide +kernel
    have htables : ((plainModule.tables (plainMemory SoUtil.armTypes)).all fun a =>
        0x1010 ≤ a.toNat) = true := by
      decide +kernel
    intro slot hslot a ha hmem
    have hlow := List.all_eq_true.mp (hwords slot hslot) a ha
    have hhigh := List.all_eq_true.mp htables a hmem
    simp only [decide_eq_true_eq] at hlow hhigh
    omega

theorem plainMemory_renamed :
    Renamed plainModule (plainMemory SoUtil.armTypes) (plainMemory SoUtilX86.i386Types) where
  offset := by decide +kernel
  index := by decide +kernel
  kind := by decide +kernel
  symbol := by decide +kernel
  name := by decide +kernel
  bytes := by
    have hslots : (plainModule.slots.map Slot.address) = [0x1010, 0x1018, 0x1020, 0x1028] := by
      decide +kernel
    intro a ha
    have hne : ∀ k ∈ plainModule.slots.map Slot.address, a ≠ k + 4 := by
      intro k hk
      obtain ⟨slot, hslot, rfl⟩ := List.mem_map.mp hk
      exact ha slot hslot
    simp [hslots] at hne
    simp [plainMemory, hne]

/-- `f` is imported at 0x9000, and the system has nothing. -/
theorem relocations_meant_plain :
    ∃ final final', SoUtil.load plainModule [⟨text "f", 0x9000⟩] (fun _ _ => 0)
        (plainMemory SoUtil.armTypes) = some final ∧
      SoUtilX86.load plainModule [⟨text "f", 0x9000⟩] (fun _ _ => 0) 0
        (plainMemory SoUtilX86.i386Types) = some final' ∧
      Meant plainModule (plainMemory SoUtil.armTypes) SoUtil.armTypes [⟨text "f", 0x9000⟩]
        (fun _ _ => 0) final ∧
      final'.2 = final.2 ∧ final'.1 0x1000 = final.1 0x1000 := by
  obtain ⟨harm, _, hsame⟩ := relocations_meant plainModule [⟨text "f", 0x9000⟩] (fun _ _ => 0) 0
  obtain ⟨final, hload, hmeant⟩ := harm _ plainMemory_relocatable
  obtain ⟨final₁, final', hload₁, hload', hcount, hbytes⟩ :=
    hsame _ _ plainMemory_relocatable plainMemory_renamed
  obtain rfl := Option.some.inj (hload.symm.trans hload₁)
  have htype : ∀ slot ∈ plainModule.slots, (0x1000 : Word) ≠ slot.address + 4 := by
    decide +kernel
  exact ⟨final, final', hload, hload', hmeant, hcount, hbytes _ htype⟩

end Main

end Asm2Runtime.Elf
