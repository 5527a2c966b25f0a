import Asm2Runtime.ElfMeaning

/-!
# Running i386 code

The instructions that the machine code of the runtime is made of, over the memory of a
32-bit process. Of the flags only ZF is ever read. A call that leaves the code comes back
by the relation `external`.
-/

namespace Asm2Runtime.X86

open Elf

section Words

/-- The word at `p` lies outside the `n` bytes from `a` on. -/
def Apart (a : Word) (n : Nat) (p : Word) : Prop :=
  n ≤ (p - a).toNat ∧ (p - a).toNat ≤ 2 ^ 32 - 4

instance (a : Word) (n : Nat) (p : Word) : Decidable (Apart a n p) :=
  inferInstanceAs (Decidable (_ ∧ _))

theorem Apart.not_mem {a p b : Word} {n : Nat} (h : Apart a n p) (hn : n ≤ 2 ^ 32)
    (hb : b ∈ span p 4) : b ∉ span a n := by
  intro hb'
  obtain ⟨hlow, hhigh⟩ := h
  obtain ⟨j, hj, rfl⟩ := mem_span.mp hb'
  obtain ⟨k, hk, hsame⟩ := mem_span.mp hb
  have hdiff : p - a = BitVec.ofNat 32 j - BitVec.ofNat 32 k := by
    rw [show p = a + BitVec.ofNat 32 j - BitVec.ofNat 32 k by rw [← hsame]; simp]
    bv_omega
  rw [hdiff, BitVec.toNat_sub, BitVec.toNat_ofNat, BitVec.toNat_ofNat] at hlow hhigh
  omega

theorem word_setWord_apart {m : Memory} {a p v : Word} (h : Apart a 4 p) :
    (m.setWord p v).word a = m.word a :=
  word_congr fun _ hb => setWord_frame m v fun hb' => h.not_mem (by decide) hb' hb

/-- The same for offsets from one address. -/
theorem word_setWord_offset {m : Memory} {x a b v : Word} (h : Apart b 4 a) :
    (m.setWord (x + a) v).word (x + b) = m.word (x + b) := by
  apply word_setWord_apart
  have hdiff : x + a - (x + b) = a - b := by bv_omega
  rw [Apart, hdiff]
  exact h

theorem word_setWord_above {m : Memory} {x a v : Word} (h : Apart 0 4 a) :
    (m.setWord (x + a) v).word x = m.word x := by
  have hoffset := word_setWord_offset (m := m) (x := x) (v := v) h
  rwa [BitVec.ofNat_eq_ofNat, BitVec.add_zero] at hoffset

/-- The words from an address on, the one at the lowest address first. -/
def Words (m : Memory) : Word → List Word → Prop
  | _, [] => True
  | a, w :: ws => m.word a = w ∧ Words m (a + 4) ws

@[simp] theorem words_nil (m : Memory) (a : Word) : Words m a [] := trivial

@[simp] theorem words_cons {m : Memory} {a w : Word} {ws : List Word} :
    Words m a (w :: ws) ↔ m.word a = w ∧ Words m (a + 4) ws := Iff.rfl

theorem Words.setWord {m : Memory} {a p v : Word} {ws : List Word} (h : Words m a ws)
    (happart : Apart a (4 * ws.length) p) : Words (m.setWord p v) a ws := by
  induction ws generalizing a with
  | nil => trivial
  | cons w ws ih =>
    obtain ⟨hlow, hhigh⟩ := happart
    rw [List.length_cons] at hlow
    refine ⟨?_, ih h.2 ?_⟩
    · rw [word_setWord_apart ⟨by omega, hhigh⟩]
      exact h.1
    · have hnext : (p - (a + 4)).toNat = (p - a).toNat - 4 := by bv_omega
      exact ⟨by omega, by omega⟩

/-- A push in front of a block. -/
theorem Words.push {m : Memory} {a v : Word} {ws : List Word} (h : Words m a ws)
    (hroom : 4 * ws.length + 4 ≤ 2 ^ 32) : Words (m.setWord (a - 4) v) (a - 4) (v :: ws) := by
  have hback : a - 4 + 4 = a := by bv_omega
  have hplace : (a - 4 - a).toNat = 2 ^ 32 - 4 := by bv_omega
  refine ⟨word_setWord m _ v, ?_⟩
  rw [hback]
  exact h.setWord ⟨by omega, by omega⟩

theorem words_append {m : Memory} {a : Word} {xs ys : List Word} :
    Words m a (xs ++ ys) ↔ Words m a xs ∧ Words m (a + BitVec.ofNat 32 (4 * xs.length)) ys := by
  induction xs generalizing a with
  | nil => simp
  | cons x xs ih =>
    have hnext : a + 4 + BitVec.ofNat 32 (4 * xs.length) =
        a + BitVec.ofNat 32 (4 * (x :: xs).length) := by
      rw [List.length_cons, Nat.mul_succ, BitVec.ofNat_add]
      bv_omega
    rw [List.cons_append, words_cons, ih, hnext, words_cons, and_assoc]

theorem Words.get {m : Memory} {a v : Word} {ws : List Word} {k : Nat} (h : Words m a ws)
    (hk : ws[k]? = some v) : m.word (a + BitVec.ofNat 32 (4 * k)) = v := by
  obtain ⟨hlt, rfl⟩ := List.getElem?_eq_some_iff.mp hk
  rw [← List.take_append_drop k ws, List.drop_eq_getElem_cons hlt] at h
  have hword := (words_append.mp h).2.1
  rwa [List.length_take, min_eq_left (by omega)] at hword

/-- A store to one word of a block. -/
theorem Words.replace {m : Memory} {a v w : Word} {xs ys : List Word}
    (h : Words m a (xs ++ v :: ys)) (hroom : 4 * (xs ++ v :: ys).length ≤ 2 ^ 32) :
    Words (m.setWord (a + BitVec.ofNat 32 (4 * xs.length)) w) a (xs ++ w :: ys) := by
  obtain ⟨hxs, -, hys⟩ := words_append.mp h
  rw [List.length_append, List.length_cons] at hroom
  have hoffset : (BitVec.ofNat 32 (4 * xs.length)).toNat = 4 * xs.length := by
    rw [BitVec.toNat_ofNat]
    omega
  rw [words_append]
  refine ⟨hxs.setWord ?_, word_setWord m _ w, hys.setWord ?_⟩
  · have hplace : a + BitVec.ofNat 32 (4 * xs.length) - a = BitVec.ofNat 32 (4 * xs.length) := by
      bv_omega
    rw [Apart, hplace, hoffset]
    omega
  · have hplace : a + BitVec.ofNat 32 (4 * xs.length) -
        (a + BitVec.ofNat 32 (4 * xs.length) + 4) = -4 := by
      bv_omega
    rw [Apart, hplace, show (-4 : Word).toNat = 2 ^ 32 - 4 from rfl]
    omega

end Words

section Cpu

inductive Reg where
  | eax | ecx | edx | ebx | esp | ebp | esi | edi
  deriving DecidableEq, Repr

structure Cpu where
  reg : Reg → Word
  eip : Word
  zf : Bool
  mem : Memory

namespace Cpu

def set (s : Cpu) (r : Reg) (v : Word) : Cpu :=
  { s with reg := fun q => if q = r then v else s.reg q }

def store (s : Cpu) (a v : Word) : Cpu := { s with mem := s.mem.setWord a v }

def goto (s : Cpu) (a : Word) : Cpu := { s with eip := a }

/-- The zero flag of a result. -/
def flag (s : Cpu) (result : Word) : Cpu := { s with zf := result = 0 }

def push (s : Cpu) (v : Word) : Cpu := (s.store (s.reg .esp - 4) v).set .esp (s.reg .esp - 4)

def pop (s : Cpu) : Cpu := s.set .esp (s.reg .esp + 4)

variable (s : Cpu) (r q : Reg) (a v : Word)

@[simp] theorem set_reg : (s.set r v).reg q = if q = r then v else s.reg q := rfl
@[simp] theorem set_mem : (s.set r v).mem = s.mem := rfl
@[simp] theorem set_eip : (s.set r v).eip = s.eip := rfl
@[simp] theorem set_zf : (s.set r v).zf = s.zf := rfl
@[simp] theorem store_reg : (s.store a v).reg = s.reg := rfl
@[simp] theorem store_mem : (s.store a v).mem = s.mem.setWord a v := rfl
@[simp] theorem store_eip : (s.store a v).eip = s.eip := rfl
@[simp] theorem store_zf : (s.store a v).zf = s.zf := rfl
@[simp] theorem goto_reg : (s.goto a).reg = s.reg := rfl
@[simp] theorem goto_mem : (s.goto a).mem = s.mem := rfl
@[simp] theorem goto_eip : (s.goto a).eip = a := rfl
@[simp] theorem goto_zf : (s.goto a).zf = s.zf := rfl
@[simp] theorem flag_reg : (s.flag v).reg = s.reg := rfl
@[simp] theorem flag_mem : (s.flag v).mem = s.mem := rfl
@[simp] theorem flag_eip : (s.flag v).eip = s.eip := rfl
@[simp] theorem flag_zf : (s.flag v).zf = decide (v = 0) := rfl

@[simp] theorem push_reg : (s.push v).reg q = if q = .esp then s.reg .esp - 4 else s.reg q := rfl
@[simp] theorem push_mem : (s.push v).mem = s.mem.setWord (s.reg .esp - 4) v := rfl
@[simp] theorem push_zf : (s.push v).zf = s.zf := rfl
@[simp] theorem pop_reg : (s.pop).reg q = if q = .esp then s.reg .esp + 4 else s.reg q := rfl
@[simp] theorem pop_mem : s.pop.mem = s.mem := rfl
@[simp] theorem pop_zf : s.pop.zf = s.zf := rfl

/-- The words on the stack, its top first. -/
def Stack (s : Cpu) (ws : List Word) : Prop := Words s.mem (s.reg .esp) ws

theorem Stack.push {s : Cpu} {ws : List Word} (h : s.Stack ws) (hroom : 4 * ws.length + 4 ≤ 2 ^ 32)
    (v : Word) : (s.push v).Stack (v :: ws) :=
  Words.push h hroom

end Cpu

end Cpu

section Instructions

/-- `disp(base)` -/
structure Operand where
  base : Reg
  disp : Word
  deriving DecidableEq, Repr

def Operand.address (o : Operand) (s : Cpu) : Word := s.reg o.base + o.disp

/-- Instructions that go on with the next one. -/
inductive Plain where
  | load (dst : Reg) (src : Operand)
  | store (dst : Operand) (src : Reg)
  | pushMem (src : Operand)
  | pushImm (value : Word)
  | pushal
  | popal
  | add (dst : Reg) (value : Word)
  | sub (dst : Reg) (value : Word)
  | inc (dst : Reg)
  | xor (dst src : Reg)
  | test (left right : Reg)
  | nop
  deriving DecidableEq, Repr

inductive Instr where
  | plain (p : Plain)
  | jmp (rel : Word)
  | jmpReg (target : Reg)
  | je (rel : Word)
  | jne (rel : Word)
  | call (rel : Word)
  | ret
  deriving DecidableEq, Repr

/-- What `pushal` pushes, in its order. -/
def pushed : List Reg := [.eax, .ecx, .edx, .ebx, .esp, .ebp, .esi, .edi]

/-- One register of `popal`, which skips the saved stack pointer. -/
def Cpu.popInto (s : Cpu) (r : Reg) : Cpu :=
  if r = .esp then s.pop else s.pop.set r (s.mem.word (s.reg .esp))

def Plain.effect : Plain → Cpu → Cpu
  | .load dst src, s => s.set dst (s.mem.word (src.address s))
  | .store dst src, s => s.store (dst.address s) (s.reg src)
  | .pushMem src, s => s.push (s.mem.word (src.address s))
  | .pushImm value, s => s.push value
  | .pushal, s => pushed.foldl (fun t r => t.push (s.reg r)) s
  | .popal, s => pushed.reverse.foldl Cpu.popInto s
  | .add dst value, s => (s.set dst (s.reg dst + value)).flag (s.reg dst + value)
  | .sub dst value, s => (s.set dst (s.reg dst - value)).flag (s.reg dst - value)
  | .inc dst, s => (s.set dst (s.reg dst + 1)).flag (s.reg dst + 1)
  | .xor dst src, s => (s.set dst (s.reg dst ^^^ s.reg src)).flag (s.reg dst ^^^ s.reg src)
  | .test left right, s => s.flag (s.reg left &&& s.reg right)
  | .nop, s => s

section Stack

variable {s : Cpu} {ws : List Word}

theorem pushes_stack (regs : Reg → Word) (rs : List Reg) (h : s.Stack ws)
    (hroom : 4 * (ws.length + rs.length) ≤ 2 ^ 32) :
    (rs.foldl (fun t r => t.push (regs r)) s).Stack (rs.reverse.map regs ++ ws) := by
  induction rs generalizing s ws with
  | nil => exact h
  | cons r rs ih =>
    rw [List.length_cons] at hroom
    have hpush := ih (h.push (by omega) (regs r)) (by rw [List.length_cons]; omega)
    rwa [List.reverse_cons, List.map_append, List.append_assoc]

theorem pushal_stack (h : s.Stack ws) (hroom : 4 * (ws.length + 8) ≤ 2 ^ 32) :
    (Plain.pushal.effect s).Stack (pushed.reverse.map s.reg ++ ws) := by
  have hpushed : pushed.length = 8 := rfl
  have hstack := pushes_stack s.reg pushed h (by rwa [hpushed])
  rwa [Plain.effect]

theorem pushal_reg (s : Cpu) (r : Reg) :
    (Plain.pushal.effect s).reg r = if r = .esp then s.reg .esp - 32 else s.reg r := by
  by_cases h : r = .esp
  · simp [Plain.effect, pushed, h]
    bv_omega
  · simp [Plain.effect, pushed, h]

theorem popal_reg {regs : Reg → Word} (h : s.Stack (pushed.reverse.map regs ++ ws)) (r : Reg) :
    (Plain.popal.effect s).reg r = if r = .esp then s.reg .esp + 32 else regs r := by
  obtain ⟨hedi, hesi, hebp, -, hebx, hedx, hecx, heax, -⟩ := h
  simp only [BitVec.ofNat_eq_ofNat, BitVec.add_assoc, BitVec.reduceAdd] at hedi hesi hebp hebx
  simp only [BitVec.ofNat_eq_ofNat, BitVec.add_assoc, BitVec.reduceAdd] at hedx hecx heax
  cases r <;>
    simp [Plain.effect, pushed, Cpu.popInto, BitVec.add_assoc, hedi, hesi, hebp, hebx, hedx, hecx,
      heax]

theorem popal_mem (s : Cpu) : (Plain.popal.effect s).mem = s.mem := by
  simp [Plain.effect, pushed, Cpu.popInto]

/-- The word that a stack pointer moved down uncovers can be any. -/
theorem sub_stack (h : s.Stack ws) :
    ((Plain.sub .esp 4).effect s).Stack (s.mem.word (s.reg .esp - 4) :: ws) := by
  have hback : s.reg .esp - 4 + 4 = s.reg .esp := by bv_omega
  refine ⟨rfl, ?_⟩
  have hwords : Words s.mem (s.reg .esp) ws := h
  rwa [← hback] at hwords

theorem pushMem_stack {k : Nat} {v : Word} (h : s.Stack ws) (hroom : 4 * ws.length + 4 ≤ 2 ^ 32)
    (hk : ws[k]? = some v) :
    ((Plain.pushMem ⟨.esp, BitVec.ofNat 32 (4 * k)⟩).effect s).Stack (v :: ws) := by
  have hword : s.mem.word (s.reg .esp + BitVec.ofNat 32 (4 * k)) = v := Words.get h hk
  simp only [Plain.effect, Operand.address, hword]
  exact h.push hroom v

end Stack

/-- `next` is the address behind the instruction. -/
def Instr.exec (next : Word) : Instr → Cpu → Cpu
  | .plain p, s => (p.effect s).goto next
  | .jmp rel, s => s.goto (next + rel)
  | .jmpReg target, s => s.goto (s.reg target)
  | .je rel, s => s.goto (if s.zf then next + rel else next)
  | .jne rel, s => s.goto (if s.zf then next else next + rel)
  | .call rel, s => (s.push next).goto (next + rel)
  | .ret, s => s.pop.goto (s.mem.word (s.reg .esp))

/-- The bytes behind the opcode that name a memory operand. -/
def Operand.size (o : Operand) : Word :=
  let sib := if o.base = .esp then 1 else 0
  let disp := if o.disp = 0 ∧ o.base ≠ .ebp then 0 else if o.disp + 128 < 256 then 1 else 4
  1 + sib + disp

/-- The length of an instruction as it is assembled; immediates of `add` and `sub` are
bytes, and `jne` is short. -/
def Instr.size : Instr → Word
  | .plain (.load _ src) => 1 + src.size
  | .plain (.store dst _) => 1 + dst.size
  | .plain (.pushMem src) => 1 + src.size
  | .plain (.pushImm _) => 5
  | .plain .pushal => 1
  | .plain .popal => 1
  | .plain (.add _ _) => 3
  | .plain (.sub _ _) => 3
  | .plain (.inc _) => 1
  | .plain (.xor _ _) => 2
  | .plain (.test _ _) => 2
  | .plain .nop => 1
  | .jmp _ => 5
  | .jmpReg _ => 2
  | .je _ => 6
  | .jne _ => 2
  | .call _ => 5
  | .ret => 1

end Instructions

section Code

/-- The instruction at an address, with the address behind it. -/
abbrev Code := Word → Option (Instr × Word)

def Reg.ofBits (b : BitVec 3) : Reg :=
  if b = 0 then .eax else if b = 1 then .ecx else if b = 2 then .edx else if b = 3 then .ebx
  else if b = 4 then .esp else if b = 5 then .ebp else if b = 6 then .esi else .edi

/-- A ModR/M byte with what follows it: the register, the other operand, the next address.
Forms with an index register or without a base are left out. -/
def modrm (m : Memory) (a : Word) : Option (Reg × (Reg ⊕ Operand) × Word) :=
  let mode := (m a).extractLsb' 6 2
  let rm := (m a).extractLsb' 0 3
  let reg := Reg.ofBits ((m a).extractLsb' 3 3)
  if mode = 3 then some (reg, .inl (.ofBits rm), a + 1)
  else
    let sib := m (a + 1)
    let base := if rm = 4 then sib.extractLsb' 0 3 else rm
    let next := if rm = 4 then a + 2 else a + 1
    if (rm = 4 ∧ sib.extractLsb' 3 3 ≠ 4) ∨ (mode = 0 ∧ base = 5) then none
    else if mode = 0 then some (reg, .inr ⟨.ofBits base, 0⟩, next)
    else if mode = 1 then some (reg, .inr ⟨.ofBits base, (m next).signExtend 32⟩, next + 1)
    else some (reg, .inr ⟨.ofBits base, m.word next⟩, next + 4)

/-- The instruction that the bytes at an address stand for. -/
def decode (m : Memory) : Code := fun a =>
  if m a = 0x68 then some (.plain (.pushImm (m.word (a + 1))), a + 5)
  else if m a = 0x90 then some (.plain .nop, a + 1)
  else if m a = 0xe8 then some (.call (m.word (a + 1)), a + 5)
  else if m a = 0xe9 then some (.jmp (m.word (a + 1)), a + 5)
  else if m a = 0x0f ∧ m (a + 1) = 0x84 then some (.je (m.word (a + 2)), a + 6)
  else (modrm m (a + 1)).bind fun (reg, other, next) =>
    match other with
    | .inr o =>
      if m a = 0x89 then some (.plain (.store o reg), next)
      else if m a = 0x8b then some (.plain (.load reg o), next)
      else none
    | .inl r => if m a = 0x85 then some (.plain (.test r reg), next) else none

/-- Instructions assembled from an address on. -/
def assemble : Word → List Instr → Code
  | _, [], _ => none
  | a, i :: is, b => if b = a then some (i, a + i.size) else assemble (a + i.size) is b

variable {code : Code} {external : Cpu → Cpu → Prop} {s t u : Cpu} {a b : Word}

/-- Runs of the code, with calls outside of it. -/
inductive Reaches (code : Code) (external : Cpu → Cpu → Prop) : Cpu → Cpu → Prop where
  | refl (s : Cpu) : Reaches code external s s
  | step {s u : Cpu} {i : Instr} {next : Word} (h : code s.eip = some (i, next))
      (hrest : Reaches code external (i.exec next s) u) : Reaches code external s u
  | outside {s t u : Cpu} (h : external s t) (hrest : Reaches code external t u) :
      Reaches code external s u

theorem Reaches.trans (h : Reaches code external s t) (k : Reaches code external t u) :
    Reaches code external s u := by
  induction h with
  | refl => exact k
  | step h _ ih => exact .step h (ih k)
  | outside h _ ih => exact .outside h (ih k)

/-- Plain instructions one behind the other. -/
inductive Placed (code : Code) : Word → List Plain → Word → Prop where
  | nil (a : Word) : Placed code a [] a
  | cons {a next b : Word} {p : Plain} {ps : List Plain} (h : code a = some (.plain p, next))
      (hrest : Placed code next ps b) : Placed code a (p :: ps) b

/-- Where the block ends that is placed at an address, if it is. -/
def place (code : Code) : Word → List Plain → Option Word
  | a, [] => some a
  | a, p :: ps =>
    (code a).bind fun found => if found.1 = .plain p then place code found.2 ps else none

theorem Placed.of_place {ps : List Plain} (h : place code a ps = some b) : Placed code a ps b := by
  induction ps generalizing a with
  | nil =>
    obtain rfl := Option.some.inj h
    exact .nil a
  | cons p ps ih =>
    obtain ⟨⟨i, next⟩, hcode, hrest⟩ := Option.bind_eq_some_iff.mp h
    split at hrest
    · next hsame =>
      obtain rfl : i = .plain p := hsame
      exact .cons hcode (ih hrest)
    · cases hrest

/-- What a block does, whatever its addresses. -/
def effects (ps : List Plain) (s : Cpu) : Cpu := ps.foldl (fun s p => p.effect s) s

theorem popInto_goto (s : Cpu) (r : Reg) (a : Word) :
    (s.goto a).popInto r = (s.popInto r).goto a := by
  cases r <;> rfl

theorem foldl_goto {α : Type} {f : Cpu → α → Cpu} (hf : ∀ s x a, f (s.goto a) x = (f s x).goto a)
    (xs : List α) (s : Cpu) (a : Word) : xs.foldl f (s.goto a) = (xs.foldl f s).goto a := by
  induction xs generalizing s with
  | nil => rfl
  | cons x xs ih => rw [List.foldl_cons, hf, ih, List.foldl_cons]

/-- Plain instructions do not read where they stand. -/
theorem effect_goto (s : Cpu) (p : Plain) (a : Word) :
    p.effect (s.goto a) = (p.effect s).goto a := by
  cases p with
  | pushal => exact foldl_goto (f := fun t r => t.push (s.reg r)) (fun _ _ _ => rfl) pushed s a
  | popal => exact foldl_goto popInto_goto pushed.reverse s a
  | _ => rfl

theorem effects_goto (ps : List Plain) (s : Cpu) (a : Word) :
    effects ps (s.goto a) = (effects ps s).goto a :=
  foldl_goto effect_goto ps s a

theorem goto_goto (s : Cpu) (a b : Word) : (s.goto a).goto b = s.goto b := rfl

theorem Placed.reaches (external : Cpu → Cpu → Prop) {ps : List Plain} (h : Placed code a ps b)
    (hs : s.eip = a) :
    Reaches code external s ((effects ps s).goto b) := by
  induction h generalizing s with
  | nil a =>
    have hsame : (effects [] s).goto a = s := by rw [← hs]; rfl
    rw [hsame]
    exact .refl s
  | @cons a next b p ps hcode _ ih =>
    rw [← hs] at hcode
    have hrun := ih (s := (p.effect s).goto next) rfl
    rw [effects_goto, goto_goto] at hrun
    exact .step hcode hrun

end Code

end Asm2Runtime.X86
