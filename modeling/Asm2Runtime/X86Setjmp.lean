import Asm2Runtime.X86

/-!
# setjmp and longjmp on i386

setjmp_bridge_x86.S. `asm2_setjmp` saves its return address in the buffer and a stack
pointer below which that address lies as well. `asm2_longjmp` returns through the stack.
-/

namespace Asm2Runtime.X86

open Elf

section Setjmp

/-- `asm2_setjmp` up to its `ret` -/
def asm2Setjmp : List Plain :=
  [.load .ecx ⟨.esp, 4⟩, .load .edx ⟨.esp, 0⟩, .store ⟨.ecx, 0⟩ .edx, .store ⟨.ecx, 4⟩ .ebx,
    .store ⟨.ecx, 8⟩ .esp, .store ⟨.ecx, 12⟩ .ebp, .store ⟨.ecx, 16⟩ .esi,
    .store ⟨.ecx, 20⟩ .edi, .xor .eax .eax]

structure SetjmpAt (code : Code) (entry : Word) : Prop where
  placed : ∃ b next, Placed code entry asm2Setjmp b ∧ code b = some (.ret, next)

/-- `asm2_longjmp`: up to its branch, the skipped instruction, and from the label on. -/
def asm2LongjmpTest : List Plain :=
  [.load .ecx ⟨.esp, 4⟩, .load .eax ⟨.esp, 8⟩, .test .eax .eax]

def asm2LongjmpRestore : List Plain :=
  [.load .ebx ⟨.ecx, 4⟩, .load .ebp ⟨.ecx, 12⟩, .load .esi ⟨.ecx, 16⟩, .load .edi ⟨.ecx, 20⟩,
    .load .esp ⟨.ecx, 8⟩]

structure LongjmpAt (code : Code) (entry : Word) : Prop where
  placed : ∃ branch skipped label last next rel,
    Placed code entry asm2LongjmpTest branch ∧ code branch = some (.jne rel, skipped) ∧
      Placed code skipped [.inc .eax] label ∧ skipped + rel = label ∧
      Placed code label asm2LongjmpRestore last ∧ code last = some (.ret, next)

/-- The registers that a call preserves. -/
def preserved : List Reg := [.ebx, .ebp, .esi, .edi]

/-- What `asm2_setjmp` writes to the buffer. -/
def jmpBuf (s : Cpu) : List Word :=
  [s.mem.word (s.reg .esp), s.reg .ebx, s.reg .esp, s.reg .ebp, s.reg .esi, s.reg .edi]

end Setjmp

section Blocks

variable {s : Cpu} {returnTo env value : Word}

theorem setjmp_mem (h : s.Stack [returnTo, env]) :
    (effects asm2Setjmp s).mem =
      (((((s.mem.setWord (env + 0) returnTo).setWord (env + 4) (s.reg .ebx)).setWord (env + 8)
        (s.reg .esp)).setWord (env + 12) (s.reg .ebp)).setWord (env + 16) (s.reg .esi)).setWord
        (env + 20) (s.reg .edi) := by
  obtain ⟨hreturn, henv, -⟩ := h
  have henv : s.mem.word (s.reg .esp + 4#32) = env := henv
  simp [asm2Setjmp, effects, Plain.effect, Operand.address, hreturn, henv]

theorem setjmp_reg (s : Cpu) (r : Reg) (h : r ≠ .ecx ∧ r ≠ .edx ∧ r ≠ .eax) :
    (effects asm2Setjmp s).reg r = s.reg r := by
  obtain ⟨hecx, hedx, heax⟩ := h
  simp [asm2Setjmp, effects, Plain.effect, hecx, hedx, heax]

theorem setjmp_result (s : Cpu) : (effects asm2Setjmp s).reg .eax = 0 := by
  simp [asm2Setjmp, effects, Plain.effect]

theorem setjmp_buffer (h : s.Stack [returnTo, env]) :
    Words (effects asm2Setjmp s).mem env (jmpBuf s) := by
  have hreturn : s.mem.word (s.reg .esp) = returnTo := h.1
  rw [setjmp_mem h, jmpBuf, hreturn]
  simp (disch := decide) only [BitVec.ofNat_eq_ofNat, BitVec.add_zero, words_cons, words_nil,
    BitVec.add_assoc, BitVec.reduceAdd, word_setWord_above, word_setWord_offset, word_setWord,
    and_true]

/-- Outside the buffer nothing is written. -/
theorem setjmp_frame (h : s.Stack [returnTo, env]) {a : Word} (ha : a ∉ span env 24) :
    (effects asm2Setjmp s).mem a = s.mem a := by
  have hword : ∀ k ≤ 20, a ∉ span (env + BitVec.ofNat 32 k) 4 := fun k hk hin =>
    ha (span_subset (by omega) hin)
  have h0 : a ∉ span (env + 0) 4 := hword 0 (by decide)
  have h4 : a ∉ span (env + 4) 4 := hword 4 (by decide)
  have h8 : a ∉ span (env + 8) 4 := hword 8 (by decide)
  have h12 : a ∉ span (env + 12) 4 := hword 12 (by decide)
  have h16 : a ∉ span (env + 16) 4 := hword 16 (by decide)
  have h20 : a ∉ span (env + 20) 4 := hword 20 (by decide)
  rw [setjmp_mem h, setWord_frame _ _ h20, setWord_frame _ _ h16, setWord_frame _ _ h12,
    setWord_frame _ _ h8, setWord_frame _ _ h4, setWord_frame _ _ h0]

end Blocks

section Runs

variable {code : Code} (external : Cpu → Cpu → Prop) {setjmpEntry longjmpEntry : Word}
  {s u : Cpu} {returnTo env value : Word}

/-- The state after a call of `asm2_setjmp`. -/
def afterSetjmp (s : Cpu) : Cpu :=
  ((effects asm2Setjmp s).pop).goto (s.mem.word (s.reg .esp))

theorem setjmp_runs (hcode : SetjmpAt code setjmpEntry) (hs : s.eip = setjmpEntry)
    (hstack : s.Stack [returnTo, env]) (hapart : Apart env 24 (s.reg .esp)) :
    Reaches code external s (afterSetjmp s) := by
  obtain ⟨b, next, hplaced, hret⟩ := hcode.placed
  refine (hplaced.reaches external hs).trans (.step (by exact hret) ?_)
  have hesp : (effects asm2Setjmp s).reg .esp = s.reg .esp := setjmp_reg s .esp (by decide)
  have htop : (effects asm2Setjmp s).mem.word (s.reg .esp) = s.mem.word (s.reg .esp) :=
    word_congr fun a ha => setjmp_frame hstack (hapart.not_mem (by decide) ha)
  have hend : Instr.ret.exec next ((effects asm2Setjmp s).goto b) = afterSetjmp s := by
    simp only [Instr.exec, afterSetjmp, Cpu.goto_mem, Cpu.goto_reg, hesp, htop]
    rfl
  rw [hend]
  exact .refl _

/-- The value that `asm2_longjmp` makes `asm2_setjmp` return. -/
def longjmpResult (value : Word) : Word := if value = 0 then 1 else value

theorem longjmp_test (hstack : u.Stack [returnTo, env, value]) :
    effects asm2LongjmpTest u = ((u.set .ecx env).set .eax value).flag value := by
  obtain ⟨-, henv, hvalue, -⟩ := hstack
  have henv : u.mem.word (u.reg .esp + 4#32) = env := henv
  have hvalue : u.mem.word (u.reg .esp + 8#32) = value := by
    rw [← hvalue, BitVec.add_assoc]
    rfl
  simp only [asm2LongjmpTest, effects, List.foldl_cons, List.foldl_nil, Plain.effect,
    Operand.address]
  simp [henv, hvalue]

/-- Both branches meet at the label. -/
theorem longjmp_joins {branch skipped label rel : Word} (hu : u.eip = longjmpEntry)
    (hstack : u.Stack [returnTo, env, value]) (htest : Placed code longjmpEntry asm2LongjmpTest branch)
    (hjne : code branch = some (.jne rel, skipped)) (hinc : Placed code skipped [.inc .eax] label)
    (hlabel : skipped + rel = label) :
    ∃ w, Reaches code external u w ∧ w.eip = label ∧ w.mem = u.mem ∧ w.reg .ecx = env ∧
      w.reg .eax = longjmpResult value := by
  have hfirst := htest.reaches external hu
  rw [longjmp_test hstack] at hfirst
  have hbranch := hfirst.trans (.step (by exact hjne) (.refl _))
  by_cases hvalue : value = 0#32
  · have hskipped : (Instr.exec skipped (.jne rel)
        ((((u.set .ecx env).set .eax value).flag value).goto branch)).eip = skipped := by
      simp [Instr.exec, hvalue]
    refine ⟨_, hbranch.trans (hinc.reaches external hskipped), rfl, rfl, rfl, ?_⟩
    simp [Instr.exec, effects, Plain.effect, longjmpResult, hvalue]
  · refine ⟨_, hbranch, ?_, rfl, rfl, ?_⟩
    · simp [Instr.exec, hvalue, hlabel]
    · simp [Instr.exec, longjmpResult, hvalue]

/-- From the label on, with the buffer's address and the result in their registers. -/
theorem longjmp_restores {w : Cpu} {label last next : Word} (hw : w.eip = label)
    (hplaced : Placed code label asm2LongjmpRestore last) (hret : code last = some (.ret, next))
    {pc ebx esp ebp esi edi : Word} (hbuf : Words w.mem (w.reg .ecx) [pc, ebx, esp, ebp, esi, edi]) :
    ∃ v, Reaches code external w v ∧ v.eip = w.mem.word esp ∧ v.mem = w.mem ∧
      v.reg .eax = w.reg .eax ∧ v.reg .esp = esp + 4 ∧
      v.reg .ebx = ebx ∧ v.reg .ebp = ebp ∧ v.reg .esi = esi ∧ v.reg .edi = edi := by
  obtain ⟨-, hebx, hesp, hebp, hesi, hedi, -⟩ := hbuf
  simp only [BitVec.ofNat_eq_ofNat, BitVec.add_assoc, BitVec.reduceAdd] at hebx hesp hebp hesi hedi
  refine ⟨_, (hplaced.reaches external hw).trans (.step (by exact hret) (.refl _)), ?_⟩
  simp [Instr.exec, asm2LongjmpRestore, effects, Plain.effect, Operand.address, hebx, hesp, hebp,
    hesi, hedi]

theorem longjmp_runs (hcode : LongjmpAt code longjmpEntry) (hu : u.eip = longjmpEntry)
    (hstack : u.Stack [returnTo, env, value]) {pc ebx esp ebp esi edi : Word}
    (hbuf : Words u.mem env [pc, ebx, esp, ebp, esi, edi]) :
    ∃ v, Reaches code external u v ∧ v.eip = u.mem.word esp ∧ v.mem = u.mem ∧
      v.reg .eax = longjmpResult value ∧ v.reg .esp = esp + 4 ∧
      v.reg .ebx = ebx ∧ v.reg .ebp = ebp ∧ v.reg .esi = esi ∧ v.reg .edi = edi := by
  obtain ⟨branch, skipped, label, last, next, rel, htest, hjne, hinc, hlabel, hrestore, hret⟩ :=
    hcode.placed
  obtain ⟨w, hjoins, hw, hmem, hecx, heax⟩ :=
    longjmp_joins external hu hstack htest hjne hinc hlabel
  rw [← hmem, ← hecx] at hbuf
  obtain ⟨v, hrestores, heip, hvmem, hveax, hsaved⟩ :=
    longjmp_restores external hw hrestore hret hbuf
  rw [hmem] at heip hvmem
  exact ⟨v, hjoins.trans hrestores, heip, hvmem, hveax.trans heax, hsaved⟩

/-- `longjmp` restores what a call preserves and the stack pointer, and returns its value. It goes
on at the word below the restored stack pointer, whatever the buffer has as the saved address: so
it resumes behind `setjmp` exactly if that word is still the return address. The next call from
there overwrites the word. -/
theorem longjmp_resumes_iff (hset : SetjmpAt code setjmpEntry) (hlong : LongjmpAt code longjmpEntry)
    (hs : s.eip = setjmpEntry) (hstack : s.Stack [returnTo, env])
    (hapart : Apart env 24 (s.reg .esp)) :
    ∃ t, Reaches code external s t ∧ t.eip = returnTo ∧ t.reg .eax = 0 ∧
      t.reg .esp = s.reg .esp + 4 ∧ (∀ r ∈ preserved, t.reg r = s.reg r) ∧
      (∀ a ∉ span env 24, t.mem a = s.mem a) ∧ Words t.mem env (jmpBuf s) ∧
      (∀ u back value pc, u.eip = longjmpEntry → u.Stack [back, env, value] →
        Words u.mem env (pc :: (jmpBuf s).tail) →
        ∃ v, Reaches code external u v ∧ v.mem = u.mem ∧ v.reg .eax = longjmpResult value ∧
          v.reg .esp = t.reg .esp ∧ (∀ r ∈ preserved, v.reg r = t.reg r) ∧
          v.eip = u.mem.word (t.reg .esp - 4) ∧
          (v.eip = t.eip ↔ u.mem.word (t.reg .esp - 4) = t.eip)) ∧
      ∀ w rel next, w.reg .esp = t.reg .esp →
        ((Instr.call rel).exec next w).mem.word (t.reg .esp - 4) = next := by
  have hkept : ∀ r, r ∈ preserved → (afterSetjmp s).reg r = s.reg r := by
    intro r hr
    have hne : r ≠ .esp ∧ r ≠ .ecx ∧ r ≠ .edx ∧ r ≠ .eax := by
      revert r
      decide
    simp [afterSetjmp, hne.1, setjmp_reg s r hne.2]
  have hesp : (afterSetjmp s).reg .esp = s.reg .esp + 4 := by
    simp [afterSetjmp, setjmp_reg s .esp (by decide)]
  have hbelow : s.reg .esp + 4 - 4 = s.reg .esp := by simp
  refine ⟨afterSetjmp s, setjmp_runs external hset hs hstack hapart, hstack.1, ?_, hesp, hkept,
    fun a ha => setjmp_frame hstack ha, setjmp_buffer hstack, ?_, ?_⟩
  · simp [afterSetjmp, setjmp_result]
  · intro u back value pc hu hustack hbuf
    obtain ⟨v, hrun, heip, hmem, heax, hvesp, hebx, hebp, hesi, hedi⟩ :=
      longjmp_runs external hlong hu hustack hbuf
    have hresumed : v.eip = u.mem.word ((afterSetjmp s).reg .esp - 4) := by
      rw [heip, hesp, hbelow]
    refine ⟨v, hrun, hmem, heax, hvesp.trans hesp.symm, ?_, hresumed, by rw [hresumed]⟩
    intro r hr
    rw [hkept r hr]
    simp only [preserved, List.mem_cons, List.not_mem_nil, or_false] at hr
    rcases hr with rfl | rfl | rfl | rfl
    · exact hebx
    · exact hebp
    · exact hesi
    · exact hedi
  · intro w rel next hw
    rw [← hw]
    exact word_setWord _ _ _

end Runs

section Examples

/-- The two routines at 0x1000 and 0x1020. -/
def setjmpBridge : Code := fun a =>
  if a < 0x1020 then assemble 0x1000 (asm2Setjmp.map .plain ++ [.ret]) a
  else assemble 0x1020 (asm2LongjmpTest.map .plain ++ [.jne 1, .plain (.inc .eax)] ++
    asm2LongjmpRestore.map .plain ++ [.ret]) a

/-- A call of `asm2_setjmp` at 0x1000 from behind 0x2000, with the buffer at 0x9000. -/
def setjmpCall : Cpu where
  reg r := if r = .esp then 0x8000 else 0
  eip := 0x1000
  zf := false
  mem := (Memory.setWord (fun _ => 0) 0x8000 0x2000).setWord 0x8004 0x9000

/-- Later, a call of `asm2_longjmp` at 0x1020 with 0: the stack word at 0x8000 is still there, and
the address saved in the buffer is not. -/
def longjmpCall : Cpu where
  reg r := if r = .esp then 0x7ff0 else 1
  eip := 0x1020
  zf := false
  mem := (((setjmpCall.mem.setWord 0x9000 0xdead).setWord 0x9008 0x8000).setWord 0x7ff0
    0x3000).setWord 0x7ff4 0x9000

/-- It resumes behind the call of `asm2_setjmp`, with 1. -/
theorem longjmp_resumes_iff_placed :
    ∃ t v, Reaches setjmpBridge (fun _ _ => False) setjmpCall t ∧ t.eip = 0x2000 ∧
      Reaches setjmpBridge (fun _ _ => False) longjmpCall v ∧ v.eip = t.eip ∧ v.reg .eax = 1 := by
  have hset : SetjmpAt setjmpBridge 0x1000 :=
    ⟨0x101a, 0x101b, .of_place (by decide), by decide⟩
  have hlong : LongjmpAt setjmpBridge 0x1020 :=
    ⟨0x102a, 0x102c, 0x102d, 0x103c, 0x103d, 1, .of_place (by decide), by decide,
      .of_place (by decide), by decide, .of_place (by decide), by decide⟩
  have hbuf : Words longjmpCall.mem 0x9000 (0xdead :: (jmpBuf setjmpCall).tail) :=
    ⟨by decide, by decide, by decide, by decide, by decide, by decide, trivial⟩
  obtain ⟨t, hrun, heip, -, hesp, -, -, -, hlongjmp, -⟩ :=
    longjmp_resumes_iff (fun _ _ => False) hset hlong rfl
      (show setjmpCall.Stack [0x2000, 0x9000] from ⟨by decide, by decide, trivial⟩) (by decide)
  obtain ⟨v, hlongrun, -, heax, -, -, -, hresumes⟩ :=
    hlongjmp longjmpCall 0x3000 0 0xdead rfl ⟨by decide, by decide, by decide, trivial⟩ hbuf
  refine ⟨t, v, hrun, heip, hlongrun, hresumes.mpr ?_, heax⟩
  rw [hesp, heip]
  decide

end Examples

end Asm2Runtime.X86
