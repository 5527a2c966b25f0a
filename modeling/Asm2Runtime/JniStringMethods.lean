import Asm2Runtime.JniStrings

/-!
# The methods of java/lang/String

`asm2_default_method` measures and hashes the bytes of a text, `GetStringLength` and
`GetStringChars` show the units that its decoder writes. A sequence of several bytes has
fewer units than bytes; a refused byte is one unit, but another number.
-/

namespace Asm2Runtime.JniUtf

section Singles

theorem Sequence.lead_not_tail {seq : List Byte} {v : Nat} (h : Sequence seq v) :
    ∃ a rest, seq = a :: rest ∧ ¬ Tail a := by
  unfold Tail
  cases h <;> exact ⟨_, _, rfl, by omega⟩

/-- A sequence of a text is read at its own lead byte: it is the one read first, or lies in
the rest. -/
theorem Sequence.read_or_later {seq seq' rest before later : List Byte} {v v' : Nat}
    (hseq : Sequence seq v) (hseq' : Sequence seq' v')
    (htext : before ++ (seq ++ later) = seq' ++ rest) :
    (seq' = seq ∧ v' = v) ∨ ∃ inner, inner ++ (seq ++ later) = rest := by
  obtain ⟨a, tail, rfl, ha⟩ := hseq.lead_not_tail
  cases List.append_eq_append_iff.mp htext with
  | inr hinside =>
    obtain ⟨inner, _, hrest⟩ := hinside
    exact Or.inr ⟨inner, hrest.symm⟩
  | inl houtside =>
    obtain ⟨inner, hbefore, hrest⟩ := houtside
    cases inner with
    | nil => exact Or.inr ⟨[], hrest⟩
    | cons b inner =>
      obtain ⟨rfl, hinner⟩ := List.cons.inj hrest
      cases before with
      | nil =>
        have hcodepoint := utf8Codepoint_sequence hseq later
        rw [← List.nil_append (a :: tail ++ later), htext, utf8Codepoint_sequence hseq'] at hcodepoint
        obtain ⟨rfl, rfl⟩ := Prod.mk.inj (Option.some.inj hcodepoint)
        exact Or.inl ⟨(List.append_cancel_right htext).symm, rfl⟩
      | cons c before =>
        refine absurd (hseq'.tail a ?_) ha
        rw [hbefore]
        simp

theorem Sequence.written_lt {seq : List Byte} {v : Nat} (h : Sequence seq v)
    (hlong : 2 ≤ seq.length) : (written v).length < seq.length := by
  unfold written
  cases h with
  | one ha => simp at hlong
  | two ha ha' hb =>
    unfold Tail at hb
    rw [if_pos (by omega)]
    simp
  | three ha ha' hb hc =>
    unfold Tail at hb hc
    rw [if_pos (by omega)]
    simp
  | four ha ha' hb hc hd => split <;> simp

/-- No sequence of the text has several bytes. -/
def Singles (text : List Byte) : Prop := ∀ seq v, Sequence seq v → seq <:+: text → seq.length = 1

/-- A sequence of several bytes makes the text longer than its units. -/
theorem Runs.length_lt {text seq : List Byte} {units : List Jchar} {v : Nat} (h : Runs text units)
    (hseq : Sequence seq v) (hlong : 2 ≤ seq.length) (hpart : seq <:+: text) :
    units.length < text.length := by
  obtain ⟨before, later, htext⟩ := hpart
  rw [List.append_assoc] at htext
  induction h generalizing before with
  | done =>
    have hlength := congrArg List.length htext
    simp only [List.length_append, List.length_nil] at hlength
    omega
  | @sequence seq' rest v' units hseq' hrest ih =>
    have hwritten := hseq'.written_length
    rw [List.length_append, List.length_append]
    obtain ⟨rfl, rfl⟩ | ⟨inner, hinner⟩ := hseq.read_or_later hseq' htext
    · have hlt := hseq.written_lt hlong
      have hle := hrest.length_le
      omega
    · have hlt := ih inner hinner
      omega
  | @refused b rest units hnone _ ih =>
    cases before with
    | nil => exact absurd ⟨later, htext⟩ (hnone _ _ hseq)
    | cons c before => exact Nat.succ_lt_succ (ih before (List.cons.inj htext).2)

/-- What the decoder writes for a byte that is read alone. -/
def single (b : Byte) : Jchar := if b.toNat < 0x80 then b.setWidth 16 else 0xfffd

theorem Runs.units_of_singles {text : List Byte} {units : List Jchar} (h : Runs text units)
    (hsingles : Singles text) : units = text.map single := by
  induction h with
  | done => rfl
  | @sequence seq rest v units hseq _ ih =>
    have hrest : Singles rest := fun seq' v' hseq' hpart =>
      hsingles seq' v' hseq' (hpart.trans (List.suffix_append seq rest).isInfix)
    have hone := hsingles seq v hseq (List.prefix_append seq rest).isInfix
    rw [ih hrest]
    cases hseq with
    | one ha =>
      rename_i a
      have hwritten : written a.toNat = [single a] := by
        rw [written, if_pos (by omega), single, if_pos ha]
        refine congrArg (· :: []) (BitVec.eq_of_toNat_eq ?_)
        rw [BitVec.toNat_ofNat, BitVec.toNat_setWidth]
      rw [hwritten]
      rfl
    | two ha ha' hb => simp at hone
    | three ha ha' hb hc => simp at hone
    | four ha ha' hb hc hd => simp at hone
  | @refused b rest units hnone _ ih =>
    have hrest : Singles rest := fun seq' v' hseq' hpart =>
      hsingles seq' v' hseq' (hpart.trans (List.suffix_cons b rest).isInfix)
    have hhigh : ¬ b.toNat < 0x80 := fun hlow => hnone _ _ (Sequence.one hlow) ⟨rest, rfl⟩
    rw [ih hrest, List.map_cons, single, if_neg hhigh]

theorem Runs.length_eq_iff {text : List Byte} {units : List Jchar} (h : Runs text units) :
    units.length = text.length ↔ Singles text := by
  constructor
  · intro hlength seq v hseq hpart
    have hpos := hseq.length_pos
    by_contra hne
    have hlt := h.length_lt hseq (by omega) hpart
    omega
  · intro hsingles
    rw [h.units_of_singles hsingles, List.length_map]

theorem singles_of_ascii {text : List Byte} (h : ∀ b ∈ text, b.toNat < 0x80) : Singles text := by
  intro seq v hseq hpart
  have hlow : ∀ b ∈ seq, b.toNat < 0x80 := fun b hb => h b (hpart.subset hb)
  cases hseq with
  | one ha => rfl
  | two ha ha' hb =>
    have hlead := hlow _ List.mem_cons_self
    omega
  | three ha ha' hb hc =>
    have hlead := hlow _ List.mem_cons_self
    omega
  | four ha ha' hb hc hd =>
    have hlead := hlow _ List.mem_cons_self
    omega

end Singles

end Asm2Runtime.JniUtf

namespace Asm2Runtime.Jni

open JniUtf Transition

section Hash

/-- x₀ · 31 ^ (n - 1) + … + x₍ₙ₋₁₎, modulo 2 ^ 32. -/
def polynomial : List (BitVec 32) → BitVec 32
  | [] => 0
  | x :: xs => x * 31 ^ xs.length + polynomial xs

/-- The hash of `java.lang.String`. -/
def javaHash (units : List Jchar) : BitVec 32 := polynomial (units.map (BitVec.setWidth 32))

/-- The loop of `hashCode` over the bytes of the text. -/
def hashLoop : List Byte → BitVec 32 → BitVec 32
  | [], hash => hash
  | b :: cursor, hash => hashLoop cursor (hash * 31 + b.setWidth 32)

theorem hashLoop_eq (bytes : List Byte) (hash : BitVec 32) :
    hashLoop bytes hash = hash * 31 ^ bytes.length + polynomial (bytes.map (BitVec.setWidth 32)) := by
  induction bytes generalizing hash with
  | nil => simp [hashLoop, polynomial]
  | cons b bytes ih =>
    rw [hashLoop, ih, List.map_cons, polynomial, List.length_map, List.length_cons, pow_succ]
    ring

theorem polynomial_add {α : Type} (f g : α → BitVec 32) (xs : List α) :
    polynomial (xs.map fun x => f x + g x) = polynomial (xs.map f) + polynomial (xs.map g) := by
  induction xs with
  | nil => rfl
  | cons x xs ih =>
    simp only [List.map_cons, polynomial, List.length_map]
    rw [ih]
    ring

/-- By how much the unit of a byte that is read alone differs from the byte. -/
def drift (b : Byte) : BitVec 32 := if b.toNat < 0x80 then 0 else 0xfffd - b.setWidth 32

theorem single_eq (b : Byte) : (single b).setWidth 32 = b.setWidth 32 + drift b := by
  unfold single drift
  split
  · have hlt := b.isLt
    refine BitVec.eq_of_toNat_eq ?_
    rw [add_zero, BitVec.toNat_setWidth, BitVec.toNat_setWidth, BitVec.toNat_setWidth]
    omega
  · rw [add_sub_cancel]
    rfl

/-- Without sequences of several bytes the hashes differ by the drift of the bytes. -/
theorem javaHash_singles (bytes : List Byte) :
    javaHash (bytes.map single) = hashLoop bytes 0 + polynomial (bytes.map drift) := by
  rw [hashLoop_eq, zero_mul, zero_add, ← polynomial_add, javaHash, List.map_map]
  congr 1
  exact List.map_congr_left fun b _ => single_eq b

end Hash

section Methods

/-- `asm2_default_method` for the methods of `java/lang/String` that it reads a text for. -/
def stringMethod (name : CString) (receiver : Pointer) (t : Table) : Option JniValue :=
  let text := stringChars t receiver
  if name = literal "length" then
    some (.ofI (text.elim 0 fun text => BitVec.ofNat 32 text.bytes.length))
  else if name = literal "hashCode" then
    some (.ofI (hashLoop (text.getD emptyText).bytes 0))
  else if name = literal "isEmpty" then
    some (.ofZ (if text.elim true fun text => text.bytes.isEmpty then 1 else 0))
  else none

/-- Both methods agree with the units of a string. -/
def MethodsAgree (string : Pointer) (t : Table) : Prop :=
  ∃ units, getStringChars string t = some units ∧
    (stringMethod (literal "length") string t).map JniValue.i = some (getStringLength string t) ∧
    (stringMethod (literal "hashCode") string t).map JniValue.i = some (javaHash units)

/-- Every sequence is one byte, and the refused bytes do not change the hash; every ASCII
text is one of these. -/
def SameView (text : CString) : Prop :=
  Singles text.bytes ∧ polynomial (text.bytes.map drift) = 0

theorem sameView_of_ascii {text : CString} (h : ∀ b ∈ text.bytes, b.toNat < 0x80) :
    SameView text := by
  refine ⟨singles_of_ascii h, ?_⟩
  have hzero : ∀ bytes : List Byte, (∀ b ∈ bytes, b.toNat < 0x80) →
      polynomial (bytes.map drift) = 0 := by
    intro bytes hbytes
    induction bytes with
    | nil => rfl
    | cons b bytes ih =>
      have hb := hbytes b List.mem_cons_self
      rw [List.map_cons, polynomial, ih fun c hc => hbytes c (List.mem_cons_of_mem b hc), drift,
        if_pos hb, zero_mul, zero_add]
  exact hzero text.bytes h

/-- The methods of a string of any run agree with its units exactly for these texts; a text
lies in the 32-bit address space. -/
theorem methods_agree_iff {events : List (Thread × Operation)} {s : Bridge}
    (hrun : run Bridge.step emptyBridge events = some s) {string : Pointer} {handle : Handle}
    (hp : s.table.heap string = some handle) (hkind : handle.kind = .string)
    (hsize : ∀ text, handle.text = some text → text.bytes.length < 2 ^ 32) :
    ∃ text, handle.text = some text ∧ (MethodsAgree string s.table ↔ SameView text) := by
  have hsound := (refines_of_run hrun).sound
  obtain ⟨text, htext, hfill⟩ := (hsound.valid string handle hp).string hkind
  refine ⟨text, htext, ?_⟩
  have hlt := hsize text htext
  obtain ⟨units, hruns, hunits, hle⟩ := fillUtf16_runs text
  rw [hunits] at hfill
  have hchars : stringChars s.table string = some text := by
    simp [stringChars, hsound.chained.handleAt, hp, hkind, htext]
  have hutf16 : getStringChars string s.table = some units := by
    simp [getStringChars, hsound.chained.handleAt, hp, hkind, hfill]
  have hlength : getStringLength string s.table = BitVec.ofNat 32 units.length := by
    simp [getStringLength, hsound.chained.handleAt, hp, hkind, hfill]
  have hmethod : (stringMethod (literal "length") string s.table).map JniValue.i =
      some (BitVec.ofNat 32 text.bytes.length) := by
    simp [stringMethod, hchars]
  have hhash : (stringMethod (literal "hashCode") string s.table).map JniValue.i =
      some (hashLoop text.bytes 0) := by
    have hname : literal "hashCode" ≠ literal "length" := by decide
    simp [stringMethod, hchars, hname]
  unfold MethodsAgree SameView
  rw [hmethod, hhash, hlength, hutf16]
  constructor
  · intro hagree
    obtain ⟨units', hsome, hsame, hcode⟩ := hagree
    obtain rfl : units = units' := Option.some.inj hsome
    have hnat := congrArg BitVec.toNat (Option.some.inj hsame)
    rw [BitVec.toNat_ofNat, BitVec.toNat_ofNat, Nat.mod_eq_of_lt hlt,
      Nat.mod_eq_of_lt (by omega)] at hnat
    have hsingles := hruns.length_eq_iff.mp hnat.symm
    refine ⟨hsingles, ?_⟩
    rw [hruns.units_of_singles hsingles, javaHash_singles, Option.some.injEq, eq_comm,
      add_eq_left] at hcode
    exact hcode
  · intro hsame
    obtain ⟨hsingles, hdrift⟩ := hsame
    refine ⟨units, rfl, ?_, ?_⟩
    · rw [hruns.length_eq_iff.mpr hsingles]
    · rw [hruns.units_of_singles hsingles, javaHash_singles, hdrift, add_zero]

theorem methods_agree_textX : ∃ (s : Bridge) (handle : Handle),
    run Bridge.step emptyBridge [(0, .intern 16 (.string (some textX)))] = some s ∧
      s.table.heap 16 = some handle ∧ handle.kind = .string ∧
      ∃ text, handle.text = some text ∧ (MethodsAgree 16 s.table ↔ SameView text) := by
  have hrun : ((run Bridge.step emptyBridge [(0, .intern 16 (.string (some textX)))]).bind
      fun s => s.table.heap 16).map (fun handle => (handle.kind, handle.text)) =
        some (.string, some textX) := by decide +kernel
  obtain ⟨handle, hbind, hfields⟩ := Option.map_eq_some_iff.mp hrun
  obtain ⟨s, hs, hheap⟩ := Option.bind_eq_some_iff.mp hbind
  obtain ⟨hkind, htext⟩ := Prod.mk.inj hfields
  have hsize : ∀ text, handle.text = some text → text.bytes.length < 2 ^ 32 := by
    intro text hsome
    obtain rfl : textX = text := Option.some.inj (htext.symm.trans hsome)
    decide
  exact ⟨s, handle, hs, hheap, hkind, methods_agree_iff hs hheap hkind hsize⟩

/-- The bytes C3 A9, the letter e with an acute accent. -/
def acute : CString := ⟨[0xc3, 0xa9], by decide⟩

/-- The string of one unit has the length 2. -/
theorem methods_disagree :
    ¬ ∀ (events : List (Thread × Operation)) (s : Bridge),
      run Bridge.step emptyBridge events = some s → ∀ (string : Pointer) (handle : Handle),
      s.table.heap string = some handle → handle.kind = .string →
      (∀ text, handle.text = some text → text.bytes.length < 2 ^ 32) →
        MethodsAgree string s.table := by
  intro h
  have hrun : ((run Bridge.step emptyBridge [(0, .intern 16 (.string (some acute)))]).bind
      fun s => (s.table.heap 16).map fun handle => (s, handle)).map
        (fun r => (r.2.kind, r.2.text, getStringLength 16 r.1.table,
          (stringMethod (literal "length") 16 r.1.table).map JniValue.i)) =
        some (.string, some acute, 1, some 2) := by decide +kernel
  obtain ⟨⟨s, handle⟩, hbind, hfields⟩ := Option.map_eq_some_iff.mp hrun
  obtain ⟨s', hs, hmap⟩ := Option.bind_eq_some_iff.mp hbind
  obtain ⟨handle', hheap, hpair⟩ := Option.map_eq_some_iff.mp hmap
  obtain ⟨rfl, rfl⟩ := Prod.mk.inj hpair
  simp only [Prod.mk.injEq] at hfields
  obtain ⟨hkind, htext, hlength, hmethod⟩ := hfields
  have hsize : ∀ text, handle'.text = some text → text.bytes.length < 2 ^ 32 := by
    intro text hsome
    obtain rfl : acute = text := Option.some.inj (htext.symm.trans hsome)
    decide
  obtain ⟨_, _, hsame, _⟩ := h _ s' hs 16 handle' hheap hkind hsize
  rw [hmethod, hlength] at hsame
  exact absurd hsame (by decide)

end Methods

end Asm2Runtime.Jni
