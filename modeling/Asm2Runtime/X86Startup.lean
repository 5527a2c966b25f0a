import Asm2Runtime.X86

/-!
# The startup patch of the i386 game

startup_compat.c moves a null check of the game in front of the call that needs it, in the
same 21 bytes. The helper that is called is code of the game, a relation from the state at
its entry to a state behind its return.
-/

namespace Asm2Runtime.X86

open Elf

section Bytes

/-- `asm2_first_profile_original` -/
def firstProfileOriginal : List (BitVec 8) :=
  [0x89, 0x3c, 0x24, 0x89, 0x07, 0xe8, 0x89, 0x95, 0x00, 0x00, 0x8b, 0x77, 0x64, 0x85, 0xf6, 0x0f,
    0x84, 0xad, 0x00, 0x00, 0x00]

/-- `asm2_first_profile_guarded` -/
def firstProfileGuarded : List (BitVec 8) :=
  [0x89, 0x3c, 0x24, 0x89, 0x07, 0x8b, 0x77, 0x64, 0x85, 0xf6, 0x0f, 0x84, 0xb2, 0x00, 0x00, 0x00,
    0xe8, 0x7e, 0x95, 0x00, 0x00]

structure BytesAt (text : Memory) (a : Word) (bytes : List (BitVec 8)) : Prop where
  byte : ∀ k (h : k < bytes.length), text (a + BitVec.ofNat 32 k) = bytes[k]

/-- The stores in front of the check, and the check. -/
def profileStores : List Plain := [.store ⟨.esp, 0⟩ .edi, .store ⟨.edi, 0⟩ .eax]

def profileCheck : List Plain := [.load .esi ⟨.edi, 0x64⟩, .test .esi .esi]

variable {text : Memory} {a : Word}

/-- The stores are the same five bytes in both versions. -/
theorem stores_placed (h0 : text a = 0x89#8) (h1 : text (a + 1#32) = 0x3c#8)
    (h2 : text (a + 2#32) = 0x24#8) (h3 : text (a + 3#32) = 0x89#8)
    (h4 : text (a + 4#32) = 0x07#8) : Placed (decode text) a profileStores (a + 5) := by
  have hfirst : decode text a = some (.plain (.store ⟨.esp, 0⟩ .edi), a + 3) := by
    simp [decode, modrm, BitVec.add_assoc, h0, h1, h2, Reg.ofBits]
  have hsecond : decode text (a + 3) = some (.plain (.store ⟨.edi, 0⟩ .eax), a + 5) := by
    simp [decode, modrm, BitVec.add_assoc, h3, h4, Reg.ofBits]
  exact .cons hfirst (.cons hsecond (.nil _))

/-- The check is the same five bytes in both versions, at different places. -/
theorem check_placed (h0 : text a = 0x8b#8) (h1 : text (a + 1#32) = 0x77#8)
    (h2 : text (a + 2#32) = 0x64#8) (h3 : text (a + 3#32) = 0x85#8)
    (h4 : text (a + 4#32) = 0xf6#8) : Placed (decode text) a profileCheck (a + 5) := by
  have hfirst : decode text a = some (.plain (.load .esi ⟨.edi, 0x64⟩), a + 3) := by
    simp [decode, modrm, BitVec.add_assoc, h0, h1, h2, Reg.ofBits]
  have hsecond : decode text (a + 3) = some (.plain (.test .esi .esi), a + 5) := by
    simp [decode, modrm, BitVec.add_assoc, h3, h4, Reg.ofBits]
  exact .cons hfirst (.cons hsecond (.nil _))

structure OriginalAt (text : Memory) (a : Word) : Prop where
  stores : Placed (decode text) a profileStores (a + 5)
  call : decode text (a + 5) = some (.call 0x9589, a + 10)
  check : Placed (decode text) (a + 10) profileCheck (a + 15)
  branch : decode text (a + 15) = some (.je 0xad, a + 21)

structure GuardedAt (text : Memory) (a : Word) : Prop where
  stores : Placed (decode text) a profileStores (a + 5)
  check : Placed (decode text) (a + 5) profileCheck (a + 10)
  branch : decode text (a + 10) = some (.je 0xb2, a + 16)
  call : decode text (a + 16) = some (.call 0x957e, a + 21)

theorem BytesAt.original (h : BytesAt text a firstProfileOriginal) : OriginalAt text a := by
  have hbyte := h.byte
  rw [firstProfileOriginal] at hbyte
  have hfirst : text a = 0x89#8 := by simpa using hbyte 0 (by decide)
  have hcheck : a + 10 + 5 = a + 15 := by bv_omega
  constructor
  · apply stores_placed <;> simp [hfirst, hbyte]
  · simp [decode, BitVec.add_assoc, Memory.word, Memory.half, hbyte]
  · rw [← hcheck]
    apply check_placed <;> simp [BitVec.add_assoc, hbyte]
  · simp [decode, BitVec.add_assoc, Memory.word, Memory.half, hbyte]

theorem BytesAt.guarded (h : BytesAt text a firstProfileGuarded) : GuardedAt text a := by
  have hbyte := h.byte
  rw [firstProfileGuarded] at hbyte
  have hfirst : text a = 0x89#8 := by simpa using hbyte 0 (by decide)
  have hcheck : a + 5 + 5 = a + 10 := by bv_omega
  constructor
  · apply stores_placed <;> simp [hfirst, hbyte]
  · rw [← hcheck]
    apply check_placed <;> simp [BitVec.add_assoc, hbyte]
  · simp [decode, BitVec.add_assoc, Memory.word, Memory.half, hbyte]
  · simp [decode, BitVec.add_assoc, Memory.word, Memory.half, hbyte]

end Bytes

section Helper

/-- The helper's entry, the cleanup that the null branch goes to, and the code behind both. -/
def profileHelper (a : Word) : Word := a + 0x9593

def profileCleanup (a : Word) : Word := a + 0xc2

def profileRest (a : Word) : Word := a + 21

/-- The stack below `top` that a call and what it calls may leave anything in. -/
def deadStack (top : Word) (depth : Nat) : List Word := span (top - BitVec.ofNat 32 depth) depth

/-- Two entries of a function that only differ in what a function of the C calling convention
does not depend on: its return address, `esi`, which it has to keep, and the flags. -/
structure Alike (u u' : Cpu) : Prop where
  eip : u'.eip = u.eip
  reg : ∀ r, r ≠ .esi → u'.reg r = u.reg r
  mem : ∀ b ∉ span (u.reg .esp) 4, u'.mem b = u.mem b

theorem Alike.symm {u u' : Cpu} (h : Alike u u') : Alike u' u := by
  refine ⟨h.eip.symm, fun r hr => (h.reg r hr).symm, fun b hb => (h.mem b ?_).symm⟩
  rwa [h.reg .esp (by decide)] at hb

/-- The calling convention, of a function whose frames are `depth` bytes deep. -/
structure CallingConvention (helper : Cpu → Cpu → Prop) (depth : Nat) : Prop where
  returns : ∀ u v, helper u v → v.eip = u.mem.word (u.reg .esp)
  pops : ∀ u v, helper u v → v.reg .esp = u.reg .esp + 4
  keeps : ∀ u v, helper u v → ∀ r ∈ [Reg.ebx, .ebp, .esi, .edi], v.reg r = u.reg r
  blind : ∀ u u' v, helper u v → Alike u u' → ∃ v', helper u' v' ∧
    (∀ r ∈ [Reg.eax, .ecx, .edx], v'.reg r = v.reg r) ∧
    ∀ b ∉ deadStack (u.reg .esp + 4) depth, v'.mem b = v.mem b

end Helper

section Runs

variable {text text' : Memory} {a : Word} {s v v' : Cpu} {external helper : Cpu → Cpu → Prop}
  {depth : Nat}

/-- The state behind the two stores. -/
def storedProfile (s : Cpu) : Cpu := effects profileStores s

/-- The pointer that the check is about. -/
def Cpu.profileObject (s : Cpu) : Word := s.mem.word (s.reg .edi + 0x64)

/-- The state behind the check, in front of the branch. -/
def checkedProfile (s : Cpu) : Cpu := (s.set .esi s.profileObject).flag s.profileObject

/-- The state at the helper's entry, called from in front of `next`. -/
def enteredHelper (a next : Word) (s : Cpu) : Cpu := (s.push next).goto (profileHelper a)

theorem storedProfile_reg (s : Cpu) : (storedProfile s).reg = s.reg := rfl

theorem check_effects (s : Cpu) : effects profileCheck s = checkedProfile s := by
  simp [profileCheck, effects, Plain.effect, Operand.address, checkedProfile, Cpu.profileObject]

theorem OriginalAt.enters (h : OriginalAt text a) (hs : s.eip = a) :
    Reaches (decode text) external s (enteredHelper a (a + 10) (storedProfile s)) := by
  refine (h.stores.reaches external hs).trans (.step (by exact h.call) ?_)
  have hentry : a + 10 + 0x9589 = profileHelper a := by
    rw [profileHelper]
    bv_omega
  rw [Instr.exec, hentry]
  exact .refl _

/-- The state behind the branch of the original, which goes by the pointer just loaded. -/
def branchedProfile (a : Word) (v : Cpu) : Cpu :=
  (checkedProfile v).goto (if v.profileObject = 0 then profileCleanup a else profileRest a)

theorem OriginalAt.checks (h : OriginalAt text a) (hv : v.eip = a + 10) :
    Reaches (decode text) external v (branchedProfile a v) := by
  refine (h.check.reaches external hv).trans (.step (by exact h.branch) ?_)
  have hcleanup : a + 21 + 0xad = profileCleanup a := by
    rw [profileCleanup]
    bv_omega
  rw [check_effects, Instr.exec, hcleanup, branchedProfile]
  by_cases hnull : v.profileObject = 0#32
  · simpa [checkedProfile, hnull, goto_goto] using Reaches.refl _
  · simpa [checkedProfile, hnull, goto_goto, profileRest] using Reaches.refl _

/-- Both versions have the same stores; the guarded one then checks. -/
theorem GuardedAt.checks (h : GuardedAt text a) (hs : s.eip = a) :
    Reaches (decode text) external s ((checkedProfile (storedProfile s)).goto
      (if (storedProfile s).profileObject = 0 then profileCleanup a else a + 16)) := by
  have hstores := h.stores.reaches external hs
  have hcheck := h.check.reaches external (s := (storedProfile s).goto (a + 5)) rfl
  refine (hstores.trans hcheck).trans (.step (by exact h.branch) ?_)
  have hcleanup : a + 16 + 0xb2 = profileCleanup a := by
    rw [profileCleanup]
    bv_omega
  rw [effects_goto, goto_goto, check_effects, Instr.exec, hcleanup]
  by_cases hnull : (storedProfile s).profileObject = 0#32
  · simpa [checkedProfile, hnull, goto_goto] using Reaches.refl _
  · simpa [checkedProfile, hnull, goto_goto] using Reaches.refl _

theorem GuardedAt.enters (h : GuardedAt text a) (hs : s.eip = a)
    (hobject : (storedProfile s).profileObject ≠ 0) :
    Reaches (decode text) external s
      (enteredHelper a (a + 21) (checkedProfile (storedProfile s))) := by
  have hchecks : Reaches (decode text) external s _ := h.checks hs
  rw [if_neg hobject] at hchecks
  refine hchecks.trans (.step (by exact h.call) ?_)
  have hentry : a + 21 + 0x957e = profileHelper a := by
    rw [profileHelper]
    bv_omega
  rw [Instr.exec, hentry]
  exact .refl _

theorem entered_esp (a next : Word) (s : Cpu) :
    (enteredHelper a next s).reg .esp + 4 = s.reg .esp := by
  simp [enteredHelper]

/-- The two entries that the versions come to. -/
theorem entered_alike (a next next' : Word) (s : Cpu) :
    Alike (enteredHelper a next s) (enteredHelper a next' (checkedProfile s)) := by
  constructor
  · rfl
  · intro r hr
    simp [enteredHelper, checkedProfile, hr]
  · intro b hb
    have hout : b ∉ span (s.reg .esp - 4) 4 := by simpa [enteredHelper] using hb
    simp only [enteredHelper, checkedProfile, Cpu.goto_mem, Cpu.push_mem, Cpu.flag_mem,
      Cpu.flag_reg, Cpu.set_reg, Cpu.set_mem, reduceCtorEq, if_false]
    rw [setWord_frame _ _ hout, setWord_frame _ _ hout]

/-- A return `v'` of the helper in the guarded version, which is behind the patch, beside a return
`v` in the original, where the check follows: behind its branch that one has the same memory, and
is at the same place with the same registers exactly if the helper has kept the pointer. -/
structure ProfileKept (text : Memory) (a : Word) (depth : Nat) (s v v' : Cpu) : Prop where
  behind : v'.eip = profileRest a
  branched : Reaches (decode text) (fun _ _ => False) v (branchedProfile a v)
  mem : ∀ b ∉ deadStack (s.reg .esp) depth, v'.mem b = (branchedProfile a v).mem b
  alike : (branchedProfile a v).eip = v'.eip ∧ (branchedProfile a v).reg = v'.reg ↔
    v.mem.word (s.reg .edi + 0x64) = s.profileObject

theorem ProfileKept.of_returns (horiginal : OriginalAt text a)
    (hhelper : CallingConvention helper depth) (hobject : s.profileObject ≠ 0)
    (hv : helper (enteredHelper a (a + 10) s) v)
    (hv' : helper (enteredHelper a (a + 21) (checkedProfile s)) v')
    (hreg : ∀ r ∈ [Reg.eax, .ecx, .edx], v'.reg r = v.reg r)
    (hmem : ∀ b ∉ deadStack (s.reg .esp) depth, v'.mem b = v.mem b) :
    ProfileKept text a depth s v v' := by
  have heip : v.eip = a + 10 := by
    rw [hhelper.returns _ _ hv]
    simp [enteredHelper, word_setWord]
  have heip' : v'.eip = profileRest a := by
    rw [hhelper.returns _ _ hv']
    simp [enteredHelper, checkedProfile, word_setWord, profileRest]
  have hesp : v.reg .esp = s.reg .esp := by
    rw [hhelper.pops _ _ hv]
    simp [enteredHelper]
  have hesp' : v'.reg .esp = s.reg .esp := by
    rw [hhelper.pops _ _ hv']
    simp [enteredHelper, checkedProfile]
  have hesi' : v'.reg .esi = s.profileObject := by
    rw [hhelper.keeps _ _ hv' .esi (by decide)]
    simp [enteredHelper, checkedProfile]
  have hkept : ∀ r ∈ [Reg.ebx, .ebp, .edi], v.reg r = s.reg r ∧ v'.reg r = s.reg r := by
    intro r hr
    have hsaved : r ∈ [Reg.ebx, .ebp, .esi, .edi] ∧ r ≠ .esp ∧ r ≠ .esi := by
      revert r
      decide
    rw [hhelper.keeps _ _ hv r hsaved.1, hhelper.keeps _ _ hv' r hsaved.1]
    simp [enteredHelper, checkedProfile, hsaved.2]
  have hload : v.profileObject = v.mem.word (s.reg .edi + 0x64) := by
    rw [Cpu.profileObject, (hkept .edi (by decide)).1]
  refine ⟨heip', horiginal.checks heip, hmem, ?_⟩
  rw [← hload, heip', branchedProfile]
  constructor
  · intro h
    have hesi := congrFun h.2 .esi
    rw [hesi'] at hesi
    simpa [checkedProfile] using hesi
  · intro hsame
    have hnonnull : v.profileObject ≠ 0 := by rwa [hsame]
    refine ⟨by rw [Cpu.goto_eip, if_neg hnonnull], ?_⟩
    funext r
    cases r with
    | eax => exact (hreg .eax (by decide)).symm
    | ecx => exact (hreg .ecx (by decide)).symm
    | edx => exact (hreg .edx (by decide)).symm
    | ebx => exact (hkept .ebx (by decide)).1.trans (hkept .ebx (by decide)).2.symm
    | esp => exact hesp.trans hesp'.symm
    | ebp => exact (hkept .ebp (by decide)).1.trans (hkept .ebp (by decide)).2.symm
    | esi => exact hsame.trans hesi'.symm
    | edi => exact (hkept .edi (by decide)).1.trans (hkept .edi (by decide)).2.symm

/-- The guarded version keeps the helper away from a null pointer and goes to the cleanup with
no call made. Otherwise both versions call the helper, and each return in one has a return in
the other beside which it goes on alike, exactly if the helper has kept the pointer. -/
theorem guarded_keeps_profile (horiginal : BytesAt text a firstProfileOriginal)
    (hguarded : BytesAt text' a firstProfileGuarded) (hs : s.eip = a)
    (hhelper : CallingConvention helper depth) :
    ∃ u, Reaches (decode text) (fun _ _ => False) s u ∧ u.eip = profileHelper a ∧
      ((storedProfile s).profileObject = 0 →
        ∃ t, Reaches (decode text') (fun _ _ => False) s t ∧ t.eip = profileCleanup a ∧
          t.mem = (storedProfile s).mem ∧ t.reg .esi = 0 ∧ ∀ r ≠ .esi, t.reg r = s.reg r) ∧
      ((storedProfile s).profileObject ≠ 0 →
        ∃ u', Reaches (decode text') (fun _ _ => False) s u' ∧ u'.eip = profileHelper a ∧
          (∀ v, helper u v → ∃ v', helper u' v' ∧
            ProfileKept text a depth (storedProfile s) v v') ∧
          ∀ v', helper u' v' → ∃ v, helper u v ∧
            ProfileKept text a depth (storedProfile s) v v') := by
  refine ⟨_, horiginal.original.enters hs, rfl, ?_, ?_⟩
  · intro hnull
    refine ⟨_, hguarded.guarded.checks hs, ?_, rfl, ?_, ?_⟩
    · rw [Cpu.goto_eip, if_pos hnull]
    · simpa [checkedProfile] using hnull
    · intro r hr
      simp [checkedProfile, hr, storedProfile_reg]
  · intro hobject
    have halike := entered_alike a (a + 10) (a + 21) (storedProfile s)
    refine ⟨_, hguarded.guarded.enters hs hobject, rfl, ?_, ?_⟩
    · intro v hv
      obtain ⟨v', hv', hreg, hmem⟩ := hhelper.blind _ _ v hv halike
      rw [entered_esp] at hmem
      exact ⟨v', hv', .of_returns horiginal.original hhelper hobject hv hv' hreg hmem⟩
    · intro v' hv'
      obtain ⟨v, hv, hreg, hmem⟩ := hhelper.blind _ _ v' hv' halike.symm
      rw [entered_esp] at hmem
      exact ⟨v, hv, .of_returns horiginal.original hhelper hobject hv hv'
        (fun r hr => (hreg r hr).symm) fun b hb => (hmem b hb).symm⟩

end Runs

section Examples

/-- The bytes at an address, and nothing else. -/
def bytesFrom (a : Word) (bytes : List (BitVec 8)) : Memory :=
  fun b => bytes.getD (b - a).toNat 0

theorem bytesFrom_at (a : Word) {bytes : List (BitVec 8)} (h : bytes.length ≤ 2 ^ 32) :
    BytesAt (bytesFrom a bytes) a bytes := by
  constructor
  intro k hk
  have hplace : (a + BitVec.ofNat 32 k - a).toNat = k := by bv_omega
  rw [bytesFrom, hplace]
  simp [hk]

/-- A helper that returns at once, with 0. -/
def idleHelper (u v : Cpu) : Prop := v = (u.pop.goto (u.mem.word (u.reg .esp))).set .eax 0

theorem idleHelper_convention : CallingConvention idleHelper 4 := by
  constructor
  · rintro u v rfl
    rfl
  · rintro u v rfl
    rfl
  · rintro u v rfl r hr
    have hne : r ≠ .esp ∧ r ≠ .eax := by
      revert r
      decide
    simp [hne]
  · rintro u u' v rfl h
    refine ⟨_, rfl, ?_, ?_⟩
    · intro r hr
      have hne : r ≠ .esp ∧ r ≠ .esi := by
        revert r
        decide
      simp [hne, h.reg r hne.2]
    · intro b hb
      apply h.mem b
      simpa [deadStack] using hb

/-- A profile whose object is there, at the address in the game. -/
def profileCall : Cpu where
  reg r := if r = .esp then 0x8000 else if r = .edi then 0x9000 else 0
  eip := 0x57144d
  zf := false
  mem := Memory.setWord (fun _ => 0) 0x9064 0x5000

theorem guarded_keeps_profile_idle :
    ∃ u, Reaches (decode (bytesFrom 0x57144d firstProfileOriginal)) (fun _ _ => False)
      profileCall u ∧ u.eip = 0x57a9e0 ∧
        ∃ u', Reaches (decode (bytesFrom 0x57144d firstProfileGuarded)) (fun _ _ => False)
          profileCall u' ∧ u'.eip = 0x57a9e0 := by
  obtain ⟨u, hrun, heip, -, hobject⟩ := guarded_keeps_profile (s := profileCall)
    (bytesFrom_at 0x57144d (by decide)) (bytesFrom_at 0x57144d (by decide)) rfl
    idleHelper_convention
  obtain ⟨u', hrun', heip', -⟩ := hobject (by decide)
  exact ⟨u, hrun, heip, u', hrun', heip'⟩

end Examples

end Asm2Runtime.X86
