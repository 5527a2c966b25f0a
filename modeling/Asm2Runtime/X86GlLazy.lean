import Asm2Runtime.Transition
import Asm2Runtime.X86

/-!
# Lazy GL functions on i386

x86_runtime_compat.c hands out a stub of ten bytes for each GL function that the guest
imports. The first call through a stub resolves the function; x86_gl_lazy.S saves the
registers around that and leaves the caller's stack as it found it. The pages of the stubs
come filled with zeros, which nothing reads.
-/

namespace Asm2Runtime.X86

open Elf

section Stubs

def stubBytes : Nat := 10
def maxStubs : Nat := 160

/-- The slots; a null `stubMemory` is not mapped yet, and a null pointer is not resolved. -/
structure GlSlots where
  names : List Name
  resolved : List Word
  stubMemory : Word
  mem : Memory

def GlSlots.initial (m : Memory) : GlSlots := ⟨[], [], 0, m⟩

/-- `strncmp(name, "gl", 2) == 0` -/
def isGlName (name : Name) : Bool := text "gl" <+: name

def setByte (m : Memory) (a : Word) (b : BitVec 8) : Memory := fun x => if x = a then b else m x

def GlSlots.stub (g : GlSlots) (index : Nat) : Word :=
  g.stubMemory + BitVec.ofNat 32 (stubBytes * index)

/-- `push index` and `jmp asm2_x86_gl_lazy_common` -/
def writeStub (m : Memory) (stub : Word) (index : Nat) (common : Word) : Memory :=
  let pushes := (setByte m stub 0x68).setWord (stub + 1) (BitVec.ofNat 32 index)
  (setByte pushes (stub + 5) 0xe9).setWord (stub + 6) (common - (stub + 10))

/-- What `mmap` and `strdup` answer, should they be called. -/
structure StubAnswers where
  mapped : Option Word
  duplicated : Bool
  deriving DecidableEq

/-- `asm2_allocate_gl_stubs` -/
def allocateGlStubs (mapped : Option Word) (g : GlSlots) : Option GlSlots :=
  if g.stubMemory ≠ 0 then some g else mapped.map fun base => { g with stubMemory := base }

/-- `asm2_x86_gl_lazy_stub`; a displacement always fits 32 bits. -/
def glLazyStub (common : Word) (answers : StubAnswers) (name : Option Name) (g : GlSlots) :
    Word × GlSlots :=
  match name with
  | none => (0, g)
  | some name =>
    if isGlName name = false then (0, g)
    else match g.names.findIdx? (· = name) with
      | some index => (g.stub index, g)
      | none =>
        if maxStubs ≤ g.names.length then (0, g)
        else match allocateGlStubs answers.mapped g with
          | none => (0, g)
          | some g =>
            if answers.duplicated = false then (0, g)
            else
              (g.stub g.names.length,
                { g with
                  names := g.names ++ [name]
                  resolved := g.resolved ++ [0]
                  mem := writeStub g.mem (g.stub g.names.length) g.names.length common })

/-- `SDL_GL_GetProcAddress` and `dlsym`, which return null for an unknown name. -/
structure GlLibrary where
  getProcAddress : Name → Word
  dlsym : Name → Word

/-- `asm2_x86_gl_resolve_now` -/
def glResolveNow (lib : GlLibrary) (name : Name) : Word :=
  if isGlName name = false then 0
  else if lib.getProcAddress name ≠ 0 then lib.getProcAddress name
  else lib.dlsym name

/-- `asm2_x86_gl_resolve_index`; `none` is its `_exit`. -/
def glResolveIndex (lib : GlLibrary) (index : Word) (g : GlSlots) : Option (Word × GlSlots) :=
  if g.names.length ≤ index.toNat then none
  else
    let cached := g.resolved.getD index.toNat 0
    if cached ≠ 0 then some (cached, g)
    else
      let function := glResolveNow lib (g.names.getD index.toNat [])
      if function = 0 then none
      else some (function, { g with resolved := g.resolved.set index.toNat function })

inductive GlEvent where
  | stub (name : Option Name) (answers : StubAnswers)
  | resolve (index : Word)

def glStep (common : Word) (lib : GlLibrary) (g : GlSlots) : GlEvent → Option GlSlots
  | .stub name answers => some (glLazyStub common answers name g).2
  | .resolve index => (glResolveIndex lib index g).map Prod.snd

/-- `mmap` returns pages that lie in the address space. -/
def GlEvent.MapsPages : GlEvent → Prop
  | .stub _ answers =>
    ∀ base, answers.mapped = some base → base ≠ 0 ∧ base.toNat + stubBytes * maxStubs ≤ 2 ^ 32
  | .resolve _ => True

end Stubs

section StubCode

/-- A stub that pushes the index and jumps to the common code. -/
structure StubAt (m : Memory) (stub : Word) (index : Nat) (common : Word) : Prop where
  push : m stub = 0x68
  index : m.word (stub + 1) = BitVec.ofNat 32 index
  jump : m (stub + 5) = 0xe9
  rel : m.word (stub + 6) = common - (stub + 10)

variable {m m' : Memory} {stub common : Word} {index : Nat}

theorem setByte_same (m : Memory) (a : Word) (b : BitVec 8) : setByte m a b a = b := by
  simp [setByte]

theorem setByte_other {a x : Word} {b : BitVec 8} (h : x ≠ a) : setByte m a b x = m x := by
  simp [setByte, h]

theorem word_setByte {a p : Word} {b : BitVec 8} (h : a ∉ span p 4) :
    (setByte m a b).word p = m.word p :=
  word_congr fun _ hx => setByte_other fun hsame => h (hsame ▸ hx)

theorem decode_push {a : Word} (h : m a = 0x68) :
    decode m a = some (.plain (.pushImm (m.word (a + 1))), a + 5) := by
  simp [decode, h]

theorem decode_jmp {a : Word} (h : m a = 0xe9) :
    decode m a = some (.jmp (m.word (a + 1)), a + 5) := by
  simp [decode, h]

theorem StubAt.pushes (h : StubAt m stub index common) :
    decode m stub = some (.plain (.pushImm (BitVec.ofNat 32 index)), stub + 5) := by
  rw [decode_push h.push, h.index]

theorem StubAt.jumps (h : StubAt m stub index common) :
    decode m (stub + 5) = some (.jmp (common - (stub + 10)), stub + 10) := by
  have hrel : m.word (stub + 5 + 1) = common - (stub + 10) := by
    rw [BitVec.add_assoc]
    exact h.rel
  rw [decode_jmp h.jump, hrel, BitVec.add_assoc]
  rfl

theorem writeStub_stubAt (m : Memory) (stub common : Word) (index : Nat) :
    StubAt (writeStub m stub index common) stub index common := by
  constructor
  · rw [writeStub, setWord_frame _ _ (by simp [mem_span_word, BitVec.add_assoc]),
      setByte_other (by simp), setWord_frame _ _ (by simp [mem_span_word, BitVec.add_assoc]),
      setByte_same]
  · rw [writeStub, word_setWord_offset (by decide), word_setByte, word_setWord]
    simp [mem_span_word, BitVec.add_assoc]
  · rw [writeStub, setWord_frame _ _ (by simp [mem_span_word, BitVec.add_assoc]), setByte_same]
  · exact word_setWord _ _ _

/-- Only the ten bytes of the stub are written. -/
theorem writeStub_frame {x : Word} (h : x ∉ span stub stubBytes) :
    writeStub m stub index common x = m x := by
  have hword : ∀ k ≤ 6, x ∉ span (stub + BitVec.ofNat 32 k) 4 := fun k hk hin =>
    h (span_subset (by rw [stubBytes]; omega) hin)
  have hbyte : ∀ k < 10, x ≠ stub + BitVec.ofNat 32 k := fun k hk hsame =>
    h (mem_span.mpr ⟨k, hk, hsame.symm⟩)
  have h0 : x ≠ stub := by simpa using hbyte 0 (by decide)
  have h1 : x ∉ span (stub + 1) 4 := hword 1 (by decide)
  have h5 : x ≠ stub + 5 := hbyte 5 (by decide)
  have h6 : x ∉ span (stub + 6) 4 := hword 6 (by decide)
  rw [writeStub, setWord_frame _ _ h6, setByte_other h5, setWord_frame _ _ h1, setByte_other h0]

/-- A stub is its ten bytes. -/
theorem StubAt.congr (h : StubAt m stub index common)
    (hsame : ∀ x ∈ span stub stubBytes, m' x = m x) : StubAt m' stub index common := by
  have hbyte : ∀ k < 10, m' (stub + BitVec.ofNat 32 k) = m (stub + BitVec.ofNat 32 k) :=
    fun k hk => hsame _ (mem_span.mpr ⟨k, hk, rfl⟩)
  have hword : ∀ k ≤ 6, m'.word (stub + BitVec.ofNat 32 k) = m.word (stub + BitVec.ofNat 32 k) :=
    fun k hk => word_congr fun x hx => hsame x (span_subset (by rw [stubBytes]; omega) hx)
  have h0 : m' stub = m stub := by simpa using hbyte 0 (by decide)
  exact ⟨h0.trans h.push, (hword 1 (by decide)).trans h.index,
    (hbyte 5 (by decide)).trans h.jump, (hword 6 (by decide)).trans h.rel⟩

end StubCode

section Slots

variable {common : Word} {lib : GlLibrary} {g g' : GlSlots}

/-- What holds of the slots at every moment. -/
structure GlSlots.Sound (common : Word) (lib : GlLibrary) (g : GlSlots) : Prop where
  nodup : g.names.Nodup
  gl : ∀ name ∈ g.names, isGlName name = true
  bound : g.names.length ≤ maxStubs
  lengths : g.resolved.length = g.names.length
  cached : ∀ (i : Nat) (name : Name), g.names[i]? = some name →
    g.resolved.getD i 0 = 0 ∨ g.resolved.getD i 0 = glResolveNow lib name
  unmapped : g.stubMemory = 0 → g.names = []
  region : g.stubMemory.toNat + stubBytes * maxStubs ≤ 2 ^ 32
  stubs : ∀ i < g.names.length, StubAt g.mem (g.stub i) i common

theorem GlSlots.Sound.initial (common : Word) (lib : GlLibrary) (m : Memory) :
    (GlSlots.initial m).Sound common lib where
  nodup := List.nodup_nil
  gl := by simp [GlSlots.initial]
  bound := Nat.zero_le _
  lengths := rfl
  cached := by simp [GlSlots.initial]
  unmapped _ := rfl
  region := show 0 + stubBytes * maxStubs ≤ 2 ^ 32 by decide
  stubs i hi := absurd hi (Nat.not_lt_zero i)

theorem stub_toNat (h : g.stubMemory.toNat + stubBytes * maxStubs ≤ 2 ^ 32) {i : Nat}
    (hi : i < maxStubs) : (g.stub i).toNat = g.stubMemory.toNat + stubBytes * i := by
  rw [stubBytes, maxStubs] at *
  rw [GlSlots.stub, stubBytes, BitVec.toNat_add, BitVec.toNat_ofNat]
  omega

/-- The stubs lie one behind the other. -/
theorem stub_apart (h : g.stubMemory.toNat + stubBytes * maxStubs ≤ 2 ^ 32) {i j : Nat}
    (hi : i < maxStubs) (hj : j < maxStubs) (hne : i ≠ j) {x : Word}
    (hx : x ∈ span (g.stub i) stubBytes) : x ∉ span (g.stub j) stubBytes := by
  intro hx'
  obtain ⟨k, hk, rfl⟩ := mem_span.mp hx
  obtain ⟨l, hl, hsame⟩ := mem_span.mp hx'
  have hi' := stub_toNat h hi
  have hj' := stub_toNat h hj
  have hsame := congrArg BitVec.toNat hsame
  rw [BitVec.toNat_add, BitVec.toNat_add, BitVec.toNat_ofNat, BitVec.toNat_ofNat, hi', hj'] at hsame
  rw [stubBytes, maxStubs] at *
  rw [Nat.mod_eq_of_lt (a := k) (by omega), Nat.mod_eq_of_lt (a := l) (by omega),
    Nat.mod_eq_of_lt (by omega), Nat.mod_eq_of_lt (by omega)] at hsame
  omega

/-- A new slot at the end of the table. -/
def GlSlots.append (common : Word) (g : GlSlots) (name : Name) : GlSlots :=
  { g with
    names := g.names ++ [name]
    resolved := g.resolved ++ [0]
    mem := writeStub g.mem (g.stub g.names.length) g.names.length common }

theorem GlSlots.Sound.append (h : g.Sound common lib) {name : Name} (hnew : name ∉ g.names)
    (hgl : isGlName name = true) (hroom : g.names.length < maxStubs) (hmap : g.stubMemory ≠ 0) :
    (g.append common name).Sound common lib where
  nodup := by
    simp only [GlSlots.append, List.nodup_append, List.mem_singleton]
    exact ⟨h.nodup, List.nodup_singleton _, fun a ha b hb hsame => hnew (hb ▸ hsame ▸ ha)⟩
  gl other hother := by
    rcases List.mem_append.mp hother with hold | hnew
    · exact h.gl other hold
    · rw [List.mem_singleton.mp hnew, hgl]
  bound := by
    simp only [GlSlots.append, List.length_append, List.length_singleton]
    exact hroom
  lengths := by simp [GlSlots.append, h.lengths]
  cached i other hother := by
    by_cases hi : i < g.names.length
    · have hold : g.names[i]? = some other := by
        rwa [GlSlots.append, List.getElem?_append_left hi] at hother
      have hkeep : (g.append common name).resolved.getD i 0 = g.resolved.getD i 0 := by
        simp [GlSlots.append, List.getElem?_append_left (h.lengths ▸ hi)]
      rw [hkeep]
      exact h.cached i other hold
    · left
      simp only [GlSlots.append, List.getD_eq_getElem?_getD]
      rw [List.getElem?_append_right (by rw [h.lengths]; omega)]
      cases i - g.resolved.length <;> simp
  unmapped hnull := absurd hnull hmap
  region := h.region
  stubs i hi := by
    simp only [GlSlots.append, List.length_append, List.length_singleton] at hi
    by_cases hlast : i = g.names.length
    · subst i
      exact writeStub_stubAt _ _ _ _
    · have hold := h.stubs i (by omega)
      exact hold.congr fun x hx => writeStub_frame
        (stub_apart h.region (by omega) hroom hlast hx)

theorem allocate_names {mapped : Option Word} (h : allocateGlStubs mapped g = some g') :
    g'.names = g.names := by
  rw [allocateGlStubs] at h
  split at h
  · rw [← Option.some.inj h]
  · obtain ⟨base, -, rfl⟩ := Option.map_eq_some_iff.mp h
    rfl

/-- What a request for a stub can do. -/
theorem glLazyStub_cases (common : Word) (answers : StubAnswers) (name : Option Name)
    (g : GlSlots) :
    (∃ n index, name = some n ∧ isGlName n = true ∧ g.names[index]? = some n ∧
      glLazyStub common answers name g = (g.stub index, g)) ∨
    (∃ n mapped, name = some n ∧ isGlName n = true ∧ n ∉ g.names ∧ g.names.length < maxStubs ∧
      allocateGlStubs answers.mapped g = some mapped ∧
      (glLazyStub common answers name g = (0, mapped) ∨
        glLazyStub common answers name g =
          (mapped.stub g.names.length, mapped.append common n))) ∨
    glLazyStub common answers name g = (0, g) := by
  cases name with
  | none => exact .inr (.inr rfl)
  | some n =>
    by_cases hgl : isGlName n = true
    · cases hfind : g.names.findIdx? (· = n) with
      | some index =>
        obtain ⟨hlt, hname, -⟩ := List.findIdx?_eq_some_iff_getElem.mp hfind
        refine .inl ⟨n, index, rfl, hgl, ?_, by simp [glLazyStub, hgl, hfind]⟩
        rw [List.getElem?_eq_getElem hlt, of_decide_eq_true hname]
      | none =>
        have hnew : n ∉ g.names := fun hin => by
          simpa using List.findIdx?_eq_none_iff.mp hfind n hin
        by_cases hroom : g.names.length < maxStubs
        · cases halloc : allocateGlStubs answers.mapped g with
          | none => exact .inr (.inr (by simp [glLazyStub, hgl, hfind, halloc]))
          | some mapped =>
            refine .inr (.inl ⟨n, mapped, rfl, hgl, hnew, hroom, rfl, ?_⟩)
            cases hdup : answers.duplicated with
            | false =>
              left
              simp [glLazyStub, hgl, hfind, halloc, hdup, Nat.not_le.mpr hroom]
            | true =>
              right
              simp [glLazyStub, hgl, hfind, halloc, hdup, Nat.not_le.mpr hroom, GlSlots.append,
                allocate_names halloc]
        · exact .inr (.inr (by simp [glLazyStub, hgl, hfind, Nat.not_lt.mp hroom]))
    · exact .inr (.inr (by simp [glLazyStub, hgl]))

theorem GlSlots.Sound.allocate (h : g.Sound common lib) {mapped : Option Word}
    (hpages : ∀ base, mapped = some base → base ≠ 0 ∧ base.toNat + stubBytes * maxStubs ≤ 2 ^ 32)
    (halloc : allocateGlStubs mapped g = some g') :
    g'.Sound common lib ∧ g'.stubMemory ≠ 0 ∧ g'.names = g.names ∧
      (g.names ≠ [] → g'.stubMemory = g.stubMemory) := by
  rw [allocateGlStubs] at halloc
  split at halloc
  · next hmap =>
    obtain rfl := Option.some.inj halloc
    exact ⟨h, hmap, rfl, fun _ => rfl⟩
  · next hmap =>
    obtain ⟨base, hbase, rfl⟩ := Option.map_eq_some_iff.mp halloc
    have hnone : g.names = [] := h.unmapped (not_not.mp hmap)
    obtain ⟨hnull, hregion⟩ := hpages base hbase
    refine ⟨⟨h.nodup, h.gl, h.bound, h.lengths, h.cached, fun _ => hnone, hregion, ?_⟩, hnull, rfl,
      fun hsome => absurd hnone hsome⟩
    intro i hi
    simp [hnone] at hi

/-- Slots are only added, and their stubs stay where they are. -/
def GlSlots.Extends (g g' : GlSlots) : Prop :=
  g.names <+: g'.names ∧ (g.names ≠ [] → g'.stubMemory = g.stubMemory)

theorem GlSlots.Extends.refl (g : GlSlots) : g.Extends g := ⟨List.prefix_rfl, fun _ => rfl⟩

theorem GlSlots.Extends.trans {a b c : GlSlots} (h : a.Extends b) (k : b.Extends c) : a.Extends c := by
  refine ⟨h.1.trans k.1, fun hsome => ?_⟩
  have hb : b.names ≠ [] := fun hnil => hsome (List.prefix_nil.mp (hnil ▸ h.1))
  rw [k.2 hb, h.2 hsome]

theorem lazyStub_step (h : g.Sound common lib) {name : Option Name} {answers : StubAnswers}
    (hpages : (GlEvent.stub name answers).MapsPages) :
    (glLazyStub common answers name g).2.Sound common lib ∧
      g.Extends (glLazyStub common answers name g).2 := by
  rcases glLazyStub_cases common answers name g with
    ⟨n, index, -, -, -, hsame⟩ | ⟨n, mapped, -, hgl, hnew, hroom, halloc, hfail | hadd⟩ | hsame
  · rw [hsame]
    exact ⟨h, .refl g⟩
  · obtain ⟨hsound, -, hnames, hkeep⟩ := h.allocate hpages halloc
    rw [hfail]
    exact ⟨hsound, hnames ▸ List.prefix_rfl, hkeep⟩
  · obtain ⟨hsound, hmap, hnames, hkeep⟩ := h.allocate hpages halloc
    rw [hadd]
    rw [← hnames] at hnew hroom
    refine ⟨hsound.append hnew hgl hroom hmap, ?_, hkeep⟩
    rw [← hnames]
    exact List.prefix_append _ _
  · rw [hsame]
    exact ⟨h, .refl g⟩

theorem resolve_step (h : g.Sound common lib) {index : Word} {function : Word}
    (hresolve : glResolveIndex lib index g = some (function, g')) :
    g'.Sound common lib ∧ g.Extends g' ∧ ∃ name, g.names[index.toNat]? = some name ∧
      function = glResolveNow lib name := by
  rw [glResolveIndex] at hresolve
  split at hresolve
  · cases hresolve
  · next hlt =>
    have hlt : index.toNat < g.names.length := Nat.not_le.mp hlt
    have hname : g.names[index.toNat]? = some g.names[index.toNat] := List.getElem?_eq_getElem hlt
    have hgetD : g.names.getD index.toNat [] = g.names[index.toNat] := by
      simp [List.getD_eq_getElem?_getD, hname]
    simp only [hgetD] at hresolve
    split at hresolve
    · next hcached =>
      obtain ⟨rfl, rfl⟩ := Prod.mk.inj (Option.some.inj hresolve)
      exact ⟨h, .refl g, _, hname, (h.cached _ _ hname).resolve_left hcached⟩
    · split at hresolve
      · cases hresolve
      · obtain ⟨rfl, rfl⟩ := Prod.mk.inj (Option.some.inj hresolve)
        refine ⟨⟨h.nodup, h.gl, h.bound, by simp [h.lengths], ?_, h.unmapped, h.region, h.stubs⟩,
          .refl g, _, hname, rfl⟩
        intro i other hother
        by_cases hi : i = index.toNat
        · subst i
          right
          rw [Option.some.inj (hother.symm.trans hname)]
          simp [List.getD_eq_getElem?_getD, h.lengths ▸ hlt]
        · have hkeep : (g.resolved.set index.toNat (glResolveNow lib g.names[index.toNat])).getD i 0
              = g.resolved.getD i 0 := by
            simp [List.getD_eq_getElem?_getD, List.getElem?_set_ne (Ne.symm hi)]
          simp only [hkeep]
          exact h.cached i other hother

theorem glStep_sound (common : Word) (lib : GlLibrary) (e : GlEvent) (hpages : e.MapsPages)
    (h : g.Sound common lib) (hstep : glStep common lib g e = some g') :
    g'.Sound common lib ∧ g.Extends g' := by
  cases e with
  | stub name answers =>
    obtain rfl := Option.some.inj hstep
    exact lazyStub_step h hpages
  | resolve index =>
    obtain ⟨⟨function, last⟩, hresolve, rfl⟩ := Option.map_eq_some_iff.mp hstep
    obtain ⟨hsound, hext, -⟩ := resolve_step h hresolve
    exact ⟨hsound, hext⟩

theorem glRun_sound {es : List GlEvent} (hpages : ∀ e ∈ es, e.MapsPages)
    (h : g.Sound common lib) (hrun : Transition.run (glStep common lib) g es = some g') :
    g'.Sound common lib ∧ g.Extends g' := by
  induction es generalizing g with
  | nil =>
    obtain rfl := Option.some.inj hrun
    exact ⟨h, .refl g⟩
  | cons e es ih =>
    obtain ⟨mid, hstep, hrest⟩ := Transition.run_cons.mp hrun
    obtain ⟨hmid, hext⟩ := glStep_sound common lib e (hpages e List.mem_cons_self) h hstep
    obtain ⟨hend, hlast⟩ := ih (fun e he => hpages e (List.mem_cons_of_mem _ he)) hmid hrest
    exact ⟨hend, hext.trans hlast⟩

/-- A stub handed out is the stub of a slot with that name. -/
theorem lazyStub_slot {name : Name} {answers : StubAnswers}
    (hstub : (glLazyStub common answers (some name) g).1 ≠ 0) :
    ∃ i, (glLazyStub common answers (some name) g).2.names[i]? = some name ∧
      (glLazyStub common answers (some name) g).1 =
        (glLazyStub common answers (some name) g).2.stub i := by
  rcases glLazyStub_cases common answers (some name) g with
    ⟨n, index, hn, -, hname, hsame⟩ | ⟨n, mapped, hn, -, -, -, halloc, hfail | hadd⟩ | hsame
  · obtain rfl := Option.some.inj hn
    exact ⟨index, by rw [hsame]; exact hname, by rw [hsame]⟩
  · exact absurd (congrArg Prod.fst hfail) hstub
  · obtain rfl := Option.some.inj hn
    refine ⟨g.names.length, ?_, by rw [hadd]; rfl⟩
    simp [hadd, GlSlots.append, allocate_names halloc]
  · exact absurd (congrArg Prod.fst hsame) hstub

/-- The slot of a name stays its slot. -/
theorem GlSlots.Extends.slot (h : g.Extends g') {name : Name} {i : Nat}
    (hname : g.names[i]? = some name) : g'.names[i]? = some name ∧ g'.stub i = g.stub i := by
  have hi : i < g.names.length := (List.getElem?_eq_some_iff.mp hname).1
  have hsome : g.names ≠ [] := List.ne_nil_of_length_pos (by omega)
  refine ⟨?_, by rw [GlSlots.stub, GlSlots.stub, h.2 hsome]⟩
  obtain ⟨more, hmore⟩ := h.1
  rw [← hmore, List.getElem?_append_left hi, hname]

/-- A later request for the same name answers with the same stub. -/
theorem lazyStub_again (h : g.Sound common lib) {name : Name} {i : Nat}
    (hname : g.names[i]? = some name) (answers : StubAnswers) :
    glLazyStub common answers (some name) g = (g.stub i, g) := by
  have hin : name ∈ g.names := List.mem_of_getElem? hname
  have hgl := h.gl name hin
  have hi : i < g.names.length := (List.getElem?_eq_some_iff.mp hname).1
  have hfind : g.names.findIdx? (· = name) = some i := by
    rw [List.findIdx?_eq_some_iff_getElem]
    refine ⟨hi, by simpa using (List.getElem?_eq_some_iff.mp hname).2, fun j hj => ?_⟩
    have hne : g.names[j] ≠ g.names[i] := fun hsame =>
      Nat.ne_of_lt hj (h.nodup.getElem_inj_iff.mp hsame)
    simpa [(List.getElem?_eq_some_iff.mp hname).2] using hne
  simp [glLazyStub, hgl, hfind]

/-- The index that a slot's stub pushes is resolved to the function of its name. -/
theorem resolveIndex_slot (h : g.Sound common lib) {name : Name} {i : Nat}
    (hname : g.names[i]? = some name) (hknown : glResolveNow lib name ≠ 0) :
    ∃ g', glResolveIndex lib (BitVec.ofNat 32 i) g = some (glResolveNow lib name, g') := by
  have hi : i < g.names.length := (List.getElem?_eq_some_iff.mp hname).1
  have hbound := h.bound
  rw [maxStubs] at hbound
  have hindex : (BitVec.ofNat 32 i).toNat = i := by
    rw [BitVec.toNat_ofNat]
    omega
  have hgetD : g.names.getD i [] = name := by simp [List.getD_eq_getElem?_getD, hname]
  rw [glResolveIndex, hindex, if_neg (by omega)]
  simp only [hgetD, if_neg hknown]
  split
  · next hcached => exact ⟨g, by rw [(h.cached i name hname).resolve_left hcached]⟩
  · exact ⟨_, rfl⟩

end Slots

section Common

variable {code : Code} {external : Cpu → Cpu → Prop} {common resolver : Word} {s : Cpu}

/-- `asm2_x86_gl_lazy_common` around its call -/
def lazyBefore : List Plain := [.pushal, .sub .esp 4, .pushMem ⟨.esp, 36⟩]

def lazyAfter : List Plain := [.add .esp 8, .store ⟨.esp, 28⟩ .eax, .popal, .add .esp 4]

structure CommonAt (code : Code) (common resolver : Word) : Prop where
  placed : ∃ a b c d rel, Placed code common lazyBefore a ∧ code a = some (.call rel, b) ∧
    b + rel = resolver ∧ Placed code b lazyAfter c ∧ code c = some (.jmpReg .eax, d)

/-- A call of the resolver that the C compiler translates: entered with the stack pointer
12 above a multiple of 16, it returns the function and may use its argument's word, but not
the words above. Of these, `depth` many count. -/
def ResolverAbi (external : Cpu → Cpu → Prop) (resolver : Word) (lib : GlLibrary) (g : GlSlots)
    (depth : Nat) : Prop :=
  ∀ u returnTo index ws function g', u.eip = resolver → (u.reg .esp).toNat % 16 = 12 →
    u.Stack (returnTo :: index :: ws) → ws.length ≤ depth →
    glResolveIndex lib index g = some (function, g') →
    ∃ v, external u v ∧ v.eip = returnTo ∧ v.reg .esp = u.reg .esp + 4 ∧ v.reg .eax = function ∧
      (∀ r, r = .ebx ∨ r = .ebp ∨ r = .esi ∨ r = .edi → v.reg r = u.reg r) ∧
      Words v.mem (u.reg .esp + 8) ws

/-- Up to the call. -/
theorem lazyBefore_stack {index : Word} {ws : List Word} (h : s.Stack (index :: ws))
    (hroom : 4 * (ws.length + 16) ≤ 2 ^ 32) :
    ∃ pad, (effects lazyBefore s).Stack
      (index :: pad :: (pushed.reverse.map s.reg ++ index :: ws)) := by
  have hsaved := sub_stack (pushal_stack h (by rw [List.length_cons]; omega))
  refine ⟨_, pushMem_stack (k := 9) hsaved ?_ rfl⟩
  simp [pushed]
  omega

theorem lazyBefore_reg (s : Cpu) (r : Reg) :
    (effects lazyBefore s).reg r = if r = .esp then s.reg .esp - 40 else s.reg r := by
  have hblock : effects lazyBefore s = effects [.sub .esp 4, .pushMem ⟨.esp, 36⟩]
      (Plain.pushal.effect s) := rfl
  have hsaved := pushal_reg s
  rw [hblock]
  generalize Plain.pushal.effect s = t at hsaved
  have hesp : s.reg .esp - 32 - 4 - 4 = s.reg .esp - 40 := by bv_omega
  by_cases hr : r = .esp
  · simpa [effects, Plain.effect, hsaved, hr] using hesp
  · simp [effects, Plain.effect, hsaved, hr]

/-- From the resolver's return on: the registers come back, but for the function in `eax`. -/
theorem lazyAfter_returns {arg pad index : Word} {regs : Reg → Word} {ws : List Word}
    (h : s.Stack (arg :: pad :: (pushed.reverse.map regs ++ index :: ws)))
    (hroom : 4 * (ws.length + 16) ≤ 2 ^ 32) :
    (∀ r, (effects lazyAfter s).reg r = if r = .esp then s.reg .esp + 44 else
      if r = .eax then s.reg .eax else regs r) ∧ (effects lazyAfter s).Stack ws := by
  generalize hdrop : (Plain.add .esp 8).effect s = dropped
  have hesp : dropped.reg .esp = s.reg .esp + 8 := by rw [← hdrop]; rfl
  have hdropped : dropped.Stack (pushed.reverse.map regs ++ index :: ws) := by
    have hrest := h.2.2
    rw [BitVec.add_assoc] at hrest
    rw [Cpu.Stack, hesp, ← hdrop]
    exact hrest
  generalize hstore : (Plain.store ⟨.esp, 28⟩ .eax).effect dropped = stored
  have hstored : stored.Stack
      (pushed.reverse.map (fun r => if r = .eax then s.reg .eax else regs r) ++ index :: ws) := by
    have hblock : dropped.Stack ([regs .edi, regs .esi, regs .ebp, regs .esp, regs .ebx,
      regs .edx, regs .ecx] ++ regs .eax :: index :: ws) := hdropped
    have hwords := Words.replace (w := s.reg .eax) hblock (by simp; omega)
    have hsame : stored.reg .esp = dropped.reg .esp := by rw [← hstore]; rfl
    have heax : dropped.reg .eax = s.reg .eax := by rw [← hdrop]; rfl
    have hmem : stored.mem = dropped.mem.setWord (dropped.reg .esp + 28) (s.reg .eax) := by
      rw [← hstore, ← heax]
      rfl
    rw [Cpu.Stack, hsame, hmem]
    exact hwords
  have hblock : effects lazyAfter s = (Plain.add .esp 4).effect (Plain.popal.effect stored) := by
    rw [← hstore, ← hdrop]
    rfl
  have hsame : stored.reg .esp = s.reg .esp + 8 := by rw [← hesp, ← hstore]; rfl
  have hreg := popal_reg hstored
  have hmem := popal_mem stored
  rw [hblock]
  generalize Plain.popal.effect stored = restored at hreg hmem
  have hend : s.reg .esp + 8 + 32 + 4 = s.reg .esp + 44 := by bv_omega
  constructor
  · intro r
    by_cases hr : r = .esp
    · simpa [Plain.effect, hr, hreg, hsame] using hend
    · simp [Plain.effect, hr, hreg]
  · have hrest := (words_append.mp hstored).2.2
    have hlast : restored.reg .esp + 4 = stored.reg .esp + 32 + 4 := by rw [hreg]; rfl
    rw [Cpu.Stack]
    simp only [Plain.effect, Cpu.flag_mem, Cpu.set_mem, Cpu.flag_reg, Cpu.set_reg, if_true, hlast,
      hmem]
    exact hrest

/-- The common code, with the index of a slot on top of the caller's stack. -/
theorem lazyCommon_runs {lib : GlLibrary} {g g' : GlSlots} {depth : Nat} {index function : Word}
    {ws : List Word} (hcommon : CommonAt code common resolver)
    (habi : ResolverAbi external resolver lib g depth) (hs : s.eip = common)
    (hstack : s.Stack (index :: ws)) (halign : (s.reg .esp).toNat % 16 = 8)
    (hdepth : ws.length + 10 ≤ depth) (hroom : 4 * (ws.length + 16) ≤ 2 ^ 32)
    (hresolve : glResolveIndex lib index g = some (function, g')) :
    ∃ t, Reaches code external s t ∧ t.eip = function ∧
      (∀ r, r ≠ .eax → t.reg r = if r = .esp then s.reg .esp + 4 else s.reg r) ∧ t.Stack ws := by
  obtain ⟨a, b, c, d, rel, hbefore, hcall, hrel, hafter, hjmp⟩ := hcommon.placed
  obtain ⟨pad, hpushed⟩ := lazyBefore_stack hstack hroom
  have hreg := lazyBefore_reg s
  have hfirst := hbefore.reaches external hs
  generalize effects lazyBefore s = t at hpushed hreg hfirst
  generalize hu : Instr.exec b (.call rel) (t.goto a) = u
  have hentered : Reaches code external s u := by
    rw [← hu]
    exact hfirst.trans (.step (by exact hcall) (.refl _))
  have hustack : u.Stack (b :: index :: pad :: (pushed.reverse.map s.reg ++ index :: ws)) := by
    rw [← hu]
    exact hpushed.push (by simp [pushed]; omega) b
  have huesp : u.reg .esp = s.reg .esp - 44 := by
    have hesp : u.reg .esp = t.reg .esp - 4 := by rw [← hu]; rfl
    rw [hesp, hreg, if_pos rfl]
    bv_omega
  have hualign : (u.reg .esp).toNat % 16 = 12 := by
    rw [huesp]
    bv_omega
  obtain ⟨v, hexternal, hveip, hvesp, hveax, -, hvwords⟩ := habi u b index _ function g'
    (by rw [← hu, ← hrel]; rfl) hualign hustack (by simp [pushed]; omega) hresolve
  have hvstack : v.Stack (v.mem.word (v.reg .esp) :: pad ::
      (pushed.reverse.map s.reg ++ index :: ws)) := by
    refine ⟨rfl, ?_⟩
    rw [hvesp, BitVec.add_assoc]
    exact hvwords
  have hrest := hafter.reaches external hveip
  obtain ⟨hlast, hend⟩ := lazyAfter_returns hvstack hroom
  generalize effects lazyAfter v = w at hrest hlast hend
  have hleaves : Reaches code external (w.goto c) (Instr.exec d (.jmpReg .eax) (w.goto c)) :=
    .step (by exact hjmp) (.refl _)
  refine ⟨_, hentered.trans (.outside hexternal (hrest.trans hleaves)), ?_, ?_, hend⟩
  · have heax : w.reg .eax = v.reg .eax := hlast .eax
    exact heax.trans hveax
  · intro r hr
    have hback : u.reg .esp + 4 + 44 = s.reg .esp + 4 := by
      rw [huesp]
      bv_omega
    have hwr : w.reg r = if r = .esp then s.reg .esp + 4 else s.reg r := by
      rw [hlast, hvesp, hback, if_neg hr]
    exact hwr

end Common

section Calls

variable {common resolver : Word} {lib : GlLibrary} {code : Code} {external : Cpu → Cpu → Prop}

/-- The stub of a slot enters the common code with the slot's index. -/
theorem stub_enters {m : Memory} {stub : Word} {index : Nat} (external : Cpu → Cpu → Prop)
    (h : StubAt m stub index common) (hcode : ∀ a ∈ span stub stubBytes, code a = decode m a)
    {s : Cpu} (hs : s.eip = stub) :
    Reaches code external s ((s.push (BitVec.ofNat 32 index)).goto common) := by
  subst stub
  have hfirst := hcode s.eip (mem_span.mpr ⟨0, by decide, by simp⟩)
  have hsecond := hcode (s.eip + 5) (mem_span.mpr ⟨5, by decide, rfl⟩)
  rw [h.pushes] at hfirst
  rw [h.jumps] at hsecond
  have hjump : s.eip + 10 + (common - (s.eip + 10)) = common := by bv_omega
  refine .step hfirst (.step (by exact hsecond) ?_)
  have hend : Instr.exec (s.eip + 10) (.jmp (common - (s.eip + 10)))
      (Instr.exec (s.eip + 5) (.plain (.pushImm (BitVec.ofNat 32 index))) s) =
      (s.push (BitVec.ofNat 32 index)).goto common := by
    simp only [Instr.exec, hjump]
    rfl
  rw [hend]
  exact .refl _

/-- In every run, a stub once handed out for a name stays the stub of that name, and a call
through it at any later moment arrives at the function of the name as if it were called
directly: with the caller's stack and in all registers but `eax`. -/
theorem lazy_stub_calls {m : Memory} {es fs : List GlEvent} {name : Name} {answers : StubAnswers}
    {g h : GlSlots} {s : Cpu} {ws : List Word} {depth : Nat}
    (hbefore : Transition.run (glStep common lib) (.initial m) es = some g)
    (hafter : Transition.run (glStep common lib) (glLazyStub common answers (some name) g).2 fs =
      some h)
    (hpages : ∀ e ∈ es ++ .stub (some name) answers :: fs, e.MapsPages)
    (hstub : (glLazyStub common answers (some name) g).1 ≠ 0)
    (hknown : glResolveNow lib name ≠ 0)
    (hcode : ∀ a ∈ span (glLazyStub common answers (some name) g).1 stubBytes,
      code a = decode h.mem a)
    (hcommon : CommonAt code common resolver) (habi : ResolverAbi external resolver lib h depth)
    (hs : s.eip = (glLazyStub common answers (some name) g).1)
    (halign : (s.reg .esp).toNat % 16 = 12) (hstack : s.Stack ws)
    (hdepth : ws.length + 10 ≤ depth) (hroom : 4 * (ws.length + 16) ≤ 2 ^ 32) :
    (∀ answers', glLazyStub common answers' (some name) h =
      ((glLazyStub common answers (some name) g).1, h)) ∧
    ∃ t, Reaches code external s t ∧ t.eip = glResolveNow lib name ∧
      (∀ r, r ≠ .eax → t.reg r = s.reg r) ∧ t.Stack ws := by
  have hg := (glRun_sound (fun e he => hpages e (List.mem_append_left _ he))
    (.initial common lib m) hbefore).1
  have hnext := (lazyStub_step hg (hpages (.stub (some name) answers) (by simp))).1
  obtain ⟨i, hslot, haddress⟩ := lazyStub_slot hstub
  rw [haddress] at hs hcode ⊢
  generalize (glLazyStub common answers (some name) g).2 = given at *
  obtain ⟨hh, hext⟩ := glRun_sound (fun e he => hpages e (by simp [he])) hnext hafter
  obtain ⟨hname, hsame⟩ := hext.slot hslot
  have hi : i < h.names.length := (List.getElem?_eq_some_iff.mp hname).1
  rw [← hsame] at hs hcode ⊢
  refine ⟨lazyStub_again hh hname, ?_⟩
  have henters := stub_enters external (hh.stubs i hi) hcode hs
  obtain ⟨h', hresolve⟩ := resolveIndex_slot hh hname hknown
  have hesp : ((s.push (BitVec.ofNat 32 i)).goto common).reg .esp = s.reg .esp - 4 := rfl
  have hpushed : ((s.push (BitVec.ofNat 32 i)).goto common).Stack (BitVec.ofNat 32 i :: ws) :=
    hstack.push (by omega) _
  obtain ⟨t, hruns, hteip, htreg, htstack⟩ := lazyCommon_runs hcommon habi rfl hpushed
    (by rw [hesp]; bv_omega) hdepth hroom hresolve
  refine ⟨t, henters.trans hruns, hteip, fun r hr => ?_, htstack⟩
  rw [htreg r hr, hesp]
  by_cases hresp : r = .esp
  · rw [if_pos hresp, hresp]
    bv_omega
  · rw [if_neg hresp]
    simp [hresp]

end Calls

section Examples

def flush : Name := text "glFlush"
def clear : Name := text "glClear"
def finish : Name := text "glFinish"

def answersAt : StubAnswers := ⟨some 0x70000000, true⟩

def clearLibrary : GlLibrary := ⟨fun _ => 0x1234, fun _ => 0⟩

def stubOf (name : Name) : GlEvent := .stub (some name) answersAt

/-- The slots when `glClear` is asked for; the common code is at 0x5000. -/
def flushSlots : GlSlots := (glLazyStub 0x5000 answersAt (some flush) (.initial fun _ => 0)).2

def clearSlots : GlSlots := (glLazyStub 0x5000 answersAt (some clear) flushSlots).2

/-- A third stub is made and the first two are resolved before the call. -/
def lateSlots : GlSlots :=
  { (glLazyStub 0x5000 answersAt (some finish) clearSlots).2 with resolved := [0x1234, 0x1234, 0] }

/-- The stub, and the common code with the resolver at 0x6000. -/
def lazyCode : Code := fun a =>
  if a ∈ span 0x7000000a stubBytes then decode lateSlots.mem a
  else assemble 0x5000 (lazyBefore.map .plain ++ [.call 0xff3] ++ lazyAfter.map .plain ++
    [.jmpReg .eax]) a

/-- A resolver that returns at once. -/
def resolves (u v : Cpu) : Prop :=
  v = ((u.set .eax 0x1234).pop).goto (u.mem.word (u.reg .esp))

/-- A call through the stub that returns to 0x2000. -/
def clearCall : Cpu where
  reg r := if r = .esp then 0x7ffc else 0
  eip := 0x7000000a
  zf := false
  mem := Memory.setWord (fun _ => 0) 0x7ffc 0x2000

theorem resolves_abi : ResolverAbi resolves 0x6000 clearLibrary lateSlots 11 := by
  intro u returnTo index ws function g' _ _ hstack _ hresolve
  have hfunction : function = 0x1234 := by
    rw [glResolveIndex] at hresolve
    split at hresolve
    · cases hresolve
    · next hlt =>
      have hlength : lateSlots.names.length = 3 := rfl
      have hindex : index.toNat = 0 ∨ index.toNat = 1 ∨ index.toNat = 2 := by omega
      rcases hindex with hindex | hindex | hindex <;> rw [hindex] at hresolve <;>
        exact (congrArg Prod.fst (Option.some.inj hresolve)).symm
  refine ⟨_, rfl, hstack.1, rfl, hfunction.symm, ?_, ?_⟩
  · rintro r (rfl | rfl | rfl | rfl) <;> rfl
  · have hwords := hstack.2.2
    rwa [BitVec.add_assoc] at hwords

theorem lazy_stub_calls_clear :
    ∃ t, Reaches lazyCode resolves clearCall t ∧ t.eip = 0x1234 ∧ t.Stack [0x2000] := by
  have hcommon : CommonAt lazyCode 0x5000 0x6000 :=
    ⟨0x5008, 0x500d, 0x5018, 0x501a, 0xff3, .of_place (by decide), by decide, by decide,
      .of_place (by decide), by decide⟩
  have hbefore : Transition.run (glStep 0x5000 clearLibrary) (.initial fun _ => 0) [stubOf flush] =
      some flushSlots := rfl
  have hafter : Transition.run (glStep 0x5000 clearLibrary) clearSlots
      [stubOf finish, .resolve 0, .resolve 1] = some lateSlots := rfl
  have hpages : ∀ e ∈ [stubOf flush] ++ GlEvent.stub (some clear) answersAt ::
      [stubOf finish, .resolve 0, .resolve 1], e.MapsPages := by
    simp [GlEvent.MapsPages, stubOf, answersAt, stubBytes, maxStubs]
  have hstack : clearCall.Stack [0x2000] := ⟨by decide, trivial⟩
  obtain ⟨-, t, hruns, heip, -, htop⟩ := lazy_stub_calls hbefore hafter hpages (by decide)
    (by decide) (fun a ha => if_pos ha) hcommon resolves_abi rfl (by decide) hstack (by decide)
    (by decide)
  exact ⟨t, hruns, heip, htop⟩

end Examples

end Asm2Runtime.X86
