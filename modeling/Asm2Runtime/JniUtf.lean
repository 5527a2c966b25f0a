import Asm2Runtime.BitFields
import Mathlib.Data.List.TakeWhile

/-!
# UTF-8 and UTF-16 of the JNI strings

`asm2_utf16_to_utf8`, `asm2_utf8_codepoint` and `asm2_fill_utf16` of jni_bridge.c. A
cursor is the list of the bytes from it to the end of the block, the terminator included;
a read past the block and a write past the output are the result `none`. No block is
larger than `PTRDIFF_MAX`, so the sizes do not wrap.
-/

namespace Asm2Runtime.JniUtf

open BitFields

abbrev Byte := BitVec 8
abbrev Jchar := BitVec 16

/-- The bytes of a text before its terminator. -/
structure CString where
  bytes : List Byte
  nonzero : (0 : Byte) ∉ bytes
  deriving DecidableEq

section Decoder

/-- `left && right`, where `right` is read only if it has to be. -/
def andAlso : Option Bool → Option Bool → Option Bool
  | none, _ => none
  | some false, _ => some false
  | some true, right => right

@[simp] theorem andAlso_true (right : Option Bool) : andAlso (some true) right = right := rfl

@[simp] theorem andAlso_false (right : Option Bool) : andAlso (some false) right = some false := rfl

/-- `if (test) yes else no` -/
def branch {α : Type} (test : Option Bool) (yes no : Option α) : Option α :=
  test.bind fun t => if t then yes else no

@[simp] theorem branch_true {α : Type} (yes no : Option α) : branch (some true) yes no = yes := rfl

@[simp] theorem branch_false {α : Type} (yes no : Option α) : branch (some false) yes no = no := rfl

/-- `(text[index] & 0xc0) == 0x80` -/
def isTail (text : List Byte) (index : Nat) : Option Bool :=
  text[index]?.map fun b => b &&& 0xc0 = 0x80

/-- `text[index] & mask`, of a byte that has been read. -/
def masked (text : List Byte) (index : Nat) (mask : Byte) : Nat := (text.getD index 0 &&& mask).toNat

/-- `asm2_utf8_codepoint`: the code point and the new cursor. -/
def utf8Codepoint (text : List Byte) : Option (Nat × List Byte) :=
  text[0]?.bind fun first =>
    if first < 0x80 then some (first.toNat, text.drop 1)
    else
      branch (andAlso (some (first &&& 0xe0 = 0xc0)) (isTail text 1))
        (some (masked text 0 0x1f <<< 6 ||| masked text 1 0x3f, text.drop 2))
      (branch (andAlso (andAlso (some (first &&& 0xf0 = 0xe0)) (isTail text 1)) (isTail text 2))
        (some (masked text 0 0x0f <<< 12 ||| masked text 1 0x3f <<< 6 ||| masked text 2 0x3f,
          text.drop 3))
      (branch (andAlso (andAlso (andAlso (some (first &&& 0xf8 = 0xf0)) (isTail text 1))
          (isTail text 2)) (isTail text 3))
        (some (masked text 0 0x07 <<< 18 ||| masked text 1 0x3f <<< 12 |||
          masked text 2 0x3f <<< 6 ||| masked text 3 0x3f, text.drop 4))
      (some (0xfffd, text.drop 1))))

/-- `output[count++] = unit`, in a block of `maximum` units. -/
def store (maximum : Nat) (output : List Jchar) (unit : Jchar) : Option (List Jchar) :=
  if output.length < maximum then some (output ++ [unit]) else none

/-- The loop of `asm2_fill_utf16`; also `none` when the fuel runs out. -/
def fillLoop (maximum : Nat) : Nat → List Byte → List Jchar → Option (List Jchar)
  | 0, _, _ => none
  | fuel + 1, cursor, output => do
    let first ← cursor[0]?
    if first = 0 then return output
    let (codepoint, cursor) ← utf8Codepoint cursor
    if codepoint ≤ 0xffff then
      let output ← store maximum output (BitVec.ofNat 16 codepoint)
      fillLoop maximum fuel cursor output
    else
      let codepoint := codepoint - 0x10000
      let output ← store maximum output (BitVec.ofNat 16 (0xd800 ||| codepoint >>> 10))
      let output ← store maximum output (BitVec.ofNat 16 (0xdc00 ||| codepoint &&& 0x3ff))
      fillLoop maximum fuel cursor output

/-- `asm2_fill_utf16` with its block allocated: the units, `utf16_length` of them. -/
def fillUtf16 (text : CString) : Option (List Jchar) :=
  fillLoop (text.bytes.length * 2 + 1) (text.bytes.length + 1) (text.bytes ++ [0]) []

end Decoder

section Encoder

def encodeCodepoint (codepoint : Nat) : List Byte :=
  if codepoint < 0x80 then [BitVec.ofNat 8 codepoint]
  else if codepoint < 0x800 then
    [BitVec.ofNat 8 (0xc0 ||| codepoint >>> 6), BitVec.ofNat 8 (0x80 ||| codepoint &&& 0x3f)]
  else if codepoint < 0x10000 then
    [BitVec.ofNat 8 (0xe0 ||| codepoint >>> 12), BitVec.ofNat 8 (0x80 ||| codepoint >>> 6 &&& 0x3f),
      BitVec.ofNat 8 (0x80 ||| codepoint &&& 0x3f)]
  else
    [BitVec.ofNat 8 (0xf0 ||| codepoint >>> 18),
      BitVec.ofNat 8 (0x80 ||| codepoint >>> 12 &&& 0x3f),
      BitVec.ofNat 8 (0x80 ||| codepoint >>> 6 &&& 0x3f), BitVec.ofNat 8 (0x80 ||| codepoint &&& 0x3f)]

/-- The loop of `asm2_utf16_to_utf8`, before the terminator is written. -/
def encodeUtf16 : List Jchar → List Byte
  | [] => []
  | [unit] => encodeCodepoint unit.toNat
  | unit :: next :: rest =>
    if 0xd800 ≤ unit.toNat ∧ unit.toNat ≤ 0xdbff ∧ 0xdc00 ≤ next.toNat ∧ next.toNat ≤ 0xdfff then
      encodeCodepoint (0x10000 + (unit.toNat - 0xd800) <<< 10 + (next.toNat - 0xdc00)) ++
        encodeUtf16 rest
    else encodeCodepoint unit.toNat ++ encodeUtf16 (next :: rest)

/-- The text in a block that ends with a terminator. -/
def CString.ofBlock (block : List Byte) : CString where
  bytes := block.takeWhile (· ≠ 0)
  nonzero := by
    intro h
    have hzero := List.mem_takeWhile_imp h
    exact absurd rfl (of_decide_eq_true hzero)

/-- `asm2_utf16_to_utf8` with its block allocated. -/
def utf16ToUtf8 (units : List Jchar) : CString := CString.ofBlock (encodeUtf16 units)

end Encoder

section Sequences

/-- A byte of the form 10xxxxxx. -/
def Tail (b : Byte) : Prop := 0x80 ≤ b.toNat ∧ b.toNat < 0xc0

instance (b : Byte) : Decidable (Tail b) := inferInstanceAs (Decidable (_ ∧ _))

/-- The sequences that the decoder accepts, with their values; overlong forms and
surrogates are among them. -/
inductive Sequence : List Byte → Nat → Prop where
  | one {a : Byte} : a.toNat < 0x80 → Sequence [a] a.toNat
  | two {a b : Byte} : 0xc0 ≤ a.toNat → a.toNat < 0xe0 → Tail b →
      Sequence [a, b] ((a.toNat - 0xc0) * 2 ^ 6 + (b.toNat - 0x80))
  | three {a b c : Byte} : 0xe0 ≤ a.toNat → a.toNat < 0xf0 → Tail b → Tail c →
      Sequence [a, b, c]
        ((a.toNat - 0xe0) * 2 ^ 12 + (b.toNat - 0x80) * 2 ^ 6 + (c.toNat - 0x80))
  | four {a b c d : Byte} : 0xf0 ≤ a.toNat → a.toNat < 0xf8 → Tail b → Tail c → Tail d →
      Sequence [a, b, c, d]
        ((a.toNat - 0xf0) * 2 ^ 18 + (b.toNat - 0x80) * 2 ^ 12 + (c.toNat - 0x80) * 2 ^ 6 +
          (d.toNat - 0x80))

theorem isTail_of_get {text : List Byte} {index : Nat} {b : Byte} (h : text[index]? = some b) :
    isTail text index = some (decide (Tail b)) := by
  have htail : b &&& 0xc0 = 0x80 ↔ Tail b :=
    and_high_eq_iff b (k := 6) (by decide) (by decide)
  rw [isTail, h, Option.map_some]
  exact congrArg some (decide_eq_decide.mpr htail)

theorem lead_two (a : Byte) : a &&& 0xe0 = 0xc0 ↔ 0xc0 ≤ a.toNat ∧ a.toNat < 0xe0 :=
  and_high_eq_iff a (k := 5) (by decide) (by decide)

theorem lead_three (a : Byte) : a &&& 0xf0 = 0xe0 ↔ 0xe0 ≤ a.toNat ∧ a.toNat < 0xf0 :=
  and_high_eq_iff a (k := 4) (by decide) (by decide)

theorem lead_four (a : Byte) : a &&& 0xf8 = 0xf0 ↔ 0xf0 ≤ a.toNat ∧ a.toNat < 0xf8 :=
  and_high_eq_iff a (k := 3) (by decide) (by decide)

theorem masked_tail {text : List Byte} {index : Nat} {b : Byte} (h : text[index]? = some b)
    (hb : Tail b) : masked text index 0x3f = b.toNat - 0x80 := by
  have hlow : (b &&& 0x3f).toNat = b.toNat % 2 ^ 6 := toNat_and_low b (by decide)
  rw [masked, List.getD_eq_getElem?_getD, h, Option.getD_some, hlow]
  unfold Tail at hb
  omega

/-- The first branch that takes a sequence that begins with this byte. -/
theorem utf8Codepoint_cons (a : Byte) (rest : List Byte) (ha : 0x80 ≤ a.toNat) :
    utf8Codepoint (a :: rest) =
      branch (andAlso (some (decide (0xc0 ≤ a.toNat ∧ a.toNat < 0xe0))) (isTail (a :: rest) 1))
        (some (masked (a :: rest) 0 0x1f <<< 6 ||| masked (a :: rest) 1 0x3f, rest.drop 1))
      (branch (andAlso (andAlso (some (decide (0xe0 ≤ a.toNat ∧ a.toNat < 0xf0)))
          (isTail (a :: rest) 1)) (isTail (a :: rest) 2))
        (some (masked (a :: rest) 0 0x0f <<< 12 ||| masked (a :: rest) 1 0x3f <<< 6 |||
          masked (a :: rest) 2 0x3f, rest.drop 2))
      (branch (andAlso (andAlso (andAlso (some (decide (0xf0 ≤ a.toNat ∧ a.toNat < 0xf8)))
          (isTail (a :: rest) 1)) (isTail (a :: rest) 2)) (isTail (a :: rest) 3))
        (some (masked (a :: rest) 0 0x07 <<< 18 ||| masked (a :: rest) 1 0x3f <<< 12 |||
          masked (a :: rest) 2 0x3f <<< 6 ||| masked (a :: rest) 3 0x3f, rest.drop 3))
      (some (0xfffd, rest)))) := by
  have hascii : ¬ a < 0x80 := by
    rw [BitVec.lt_def]
    exact Nat.not_lt.mpr ha
  rw [← decide_eq_decide.mpr (lead_two a), ← decide_eq_decide.mpr (lead_three a),
    ← decide_eq_decide.mpr (lead_four a)]
  change (if a < 0x80 then _ else _) = _
  rw [if_neg hascii]
  rfl

theorem masked_lead {a : Byte} {rest : List Byte} {k : Nat} {mask : Byte}
    (hmask : mask.toNat = 2 ^ k - 1) : masked (a :: rest) 0 mask = a.toNat % 2 ^ k :=
  toNat_and_low a hmask

theorem utf8Codepoint_sequence {seq : List Byte} {v : Nat} (h : Sequence seq v)
    (rest : List Byte) : utf8Codepoint (seq ++ rest) = some (v, rest) := by
  cases h with
  | one ha =>
    rename_i a
    change (if a < 0x80 then _ else _) = _
    rw [if_pos (BitVec.lt_def.mpr ha)]
    rfl
  | two ha ha' hb =>
    rename_i a b
    have hget : (a :: b :: rest)[1]? = some b := rfl
    change utf8Codepoint (a :: b :: rest) = _
    rw [utf8Codepoint_cons a _ (by omega), isTail_of_get hget, masked_tail hget hb,
      masked_lead (k := 5) (by decide)]
    simp only [ha, ha', hb, and_self, decide_true, andAlso_true, branch_true]
    unfold Tail at hb
    rw [shiftLeft_or (by omega)]
    simp only [List.drop_one, List.tail_cons, Option.some.injEq, Prod.mk.injEq, and_true]
    omega
  | three ha ha' hb hc =>
    rename_i a b c
    have hget : (a :: b :: c :: rest)[1]? = some b := rfl
    have hget' : (a :: b :: c :: rest)[2]? = some c := rfl
    have hnot : ¬ (0xc0 ≤ a.toNat ∧ a.toNat < 0xe0) := by omega
    change utf8Codepoint (a :: b :: c :: rest) = _
    rw [utf8Codepoint_cons a _ (by omega), isTail_of_get hget, isTail_of_get hget',
      masked_tail hget hb, masked_tail hget' hc]
    simp only [hnot, ha, ha', hb, hc, and_self, decide_true, decide_false, andAlso_true,
      andAlso_false, branch_true, branch_false]
    rw [masked_lead (k := 4) (by decide)]
    unfold Tail at hb hc
    have hmiddle : (b.toNat - 0x80) <<< 6 ||| (c.toNat - 0x80) =
        (b.toNat - 0x80) * 2 ^ 6 + (c.toNat - 0x80) := shiftLeft_or (by omega)
    rw [Nat.or_assoc, hmiddle, shiftLeft_or (by omega)]
    simp only [List.drop_succ_cons, List.drop_zero, Option.some.injEq, Prod.mk.injEq, and_true]
    omega
  | four ha ha' hb hc hd =>
    rename_i a b c d
    have hget : (a :: b :: c :: d :: rest)[1]? = some b := rfl
    have hget' : (a :: b :: c :: d :: rest)[2]? = some c := rfl
    have hget'' : (a :: b :: c :: d :: rest)[3]? = some d := rfl
    have hnot : ¬ (0xc0 ≤ a.toNat ∧ a.toNat < 0xe0) := by omega
    have hnot' : ¬ (0xe0 ≤ a.toNat ∧ a.toNat < 0xf0) := by omega
    change utf8Codepoint (a :: b :: c :: d :: rest) = _
    rw [utf8Codepoint_cons a _ (by omega), isTail_of_get hget, isTail_of_get hget',
      isTail_of_get hget'', masked_tail hget hb, masked_tail hget' hc, masked_tail hget'' hd]
    simp only [hnot, hnot', ha, ha', hb, hc, hd, and_self, decide_true, decide_false, andAlso_true,
      andAlso_false, branch_true, branch_false]
    rw [masked_lead (k := 3) (by decide)]
    unfold Tail at hb hc hd
    have hlast : (c.toNat - 0x80) <<< 6 ||| (d.toNat - 0x80) =
        (c.toNat - 0x80) * 2 ^ 6 + (d.toNat - 0x80) := shiftLeft_or (by omega)
    have hmiddle : (b.toNat - 0x80) <<< 12 ||| ((c.toNat - 0x80) * 2 ^ 6 + (d.toNat - 0x80)) =
        (b.toNat - 0x80) * 2 ^ 12 + ((c.toNat - 0x80) * 2 ^ 6 + (d.toNat - 0x80)) :=
      shiftLeft_or (by omega)
    rw [Nat.or_assoc, Nat.or_assoc, hlast, hmiddle, shiftLeft_or (by omega)]
    simp only [List.drop_succ_cons, List.drop_zero, Option.some.injEq, Prod.mk.injEq, and_true]
    omega

/-- A block whose last byte is the terminator. -/
def Terminated (text : List Byte) : Prop := ∃ bytes, text = bytes ++ [0]

theorem Terminated.tail {a : Byte} {rest : List Byte} (h : Terminated (a :: rest)) (ha : a ≠ 0) :
    Terminated rest := by
  obtain ⟨bytes, hbytes⟩ := h
  cases bytes with
  | nil => exact absurd (List.cons.inj hbytes).1 ha
  | cons b bytes => exact ⟨bytes, (List.cons.inj hbytes).2⟩

theorem Terminated.exists_cons {text : List Byte} (h : Terminated text) :
    ∃ b rest, text = b :: rest := by
  obtain ⟨bytes, rfl⟩ := h
  cases bytes with
  | nil => exact ⟨0, [], rfl⟩
  | cons b bytes => exact ⟨b, bytes ++ [0], rfl⟩

theorem Tail.ne_zero {b : Byte} (h : Tail b) : b ≠ 0 := by
  rintro rfl
  exact absurd h (by decide)

/-- The bytes read after a first one: the next byte, and another one after every tail. -/
theorem utf8Codepoint_refused {a : Byte} {rest : List Byte} (hend : Terminated (a :: rest))
    (ha : a ≠ 0) (hnone : ∀ seq v, Sequence seq v → ¬ seq <+: a :: rest) :
    utf8Codepoint (a :: rest) = some (0xfffd, rest) := by
  have hascii : 0x80 ≤ a.toNat := by
    by_contra hlow
    exact hnone _ _ (Sequence.one (Nat.not_le.mp hlow)) ⟨rest, rfl⟩
  obtain ⟨b, rest, rfl⟩ := (hend.tail ha).exists_cons
  have hget : (a :: b :: rest)[1]? = some b := rfl
  rw [utf8Codepoint_cons a _ hascii, isTail_of_get hget]
  by_cases hb : Tail b
  · have htwo : ¬ (0xc0 ≤ a.toNat ∧ a.toNat < 0xe0) := fun hlead =>
      hnone _ _ (Sequence.two hlead.1 hlead.2 hb) ⟨rest, rfl⟩
    obtain ⟨c, rest, rfl⟩ := ((hend.tail ha).tail hb.ne_zero).exists_cons
    have hget' : (a :: b :: c :: rest)[2]? = some c := rfl
    rw [isTail_of_get hget']
    by_cases hc : Tail c
    · have hthree : ¬ (0xe0 ≤ a.toNat ∧ a.toNat < 0xf0) := fun hlead =>
        hnone _ _ (Sequence.three hlead.1 hlead.2 hb hc) ⟨rest, rfl⟩
      obtain ⟨d, rest, rfl⟩ := (((hend.tail ha).tail hb.ne_zero).tail hc.ne_zero).exists_cons
      have hget'' : (a :: b :: c :: d :: rest)[3]? = some d := rfl
      rw [isTail_of_get hget'']
      by_cases hd : Tail d
      · have hfour : ¬ (0xf0 ≤ a.toNat ∧ a.toNat < 0xf8) := fun hlead =>
          hnone _ _ (Sequence.four hlead.1 hlead.2 hb hc hd) ⟨rest, rfl⟩
        simp only [htwo, hthree, hfour, decide_false, andAlso_false, branch_false]
      · by_cases hfour : 0xf0 ≤ a.toNat ∧ a.toNat < 0xf8 <;>
          simp only [htwo, hthree, hfour, hb, hc, hd, and_self, decide_true, decide_false,
            andAlso_true, andAlso_false, branch_false]
    · by_cases hthree : 0xe0 ≤ a.toNat ∧ a.toNat < 0xf0 <;>
        by_cases hfour : 0xf0 ≤ a.toNat ∧ a.toNat < 0xf8 <;>
        simp only [htwo, hthree, hfour, hb, hc, and_self, decide_true, decide_false,
          andAlso_true, andAlso_false, branch_false]
  · by_cases htwo : 0xc0 ≤ a.toNat ∧ a.toNat < 0xe0 <;>
      by_cases hthree : 0xe0 ≤ a.toNat ∧ a.toNat < 0xf0 <;>
      by_cases hfour : 0xf0 ≤ a.toNat ∧ a.toNat < 0xf8 <;>
      simp only [htwo, hthree, hfour, hb, and_self, decide_true, decide_false, andAlso_true,
        andAlso_false, branch_false]

end Sequences

section Loop

/-- The units that the loop writes for a code point. -/
def written (v : Nat) : List Jchar :=
  if v ≤ 0xffff then [BitVec.ofNat 16 v]
  else
    [BitVec.ofNat 16 (0xd800 ||| (v - 0x10000) >>> 10),
      BitVec.ofNat 16 (0xdc00 ||| (v - 0x10000) &&& 0x3ff)]

/-- The iterations of the loop over a text, and all units that they write. -/
inductive Runs : List Byte → List Jchar → Prop where
  | done : Runs [] []
  | sequence {seq rest : List Byte} {v : Nat} {units : List Jchar} :
      Sequence seq v → Runs rest units → Runs (seq ++ rest) (written v ++ units)
  | refused {b : Byte} {rest : List Byte} {units : List Jchar} :
      (∀ seq v, Sequence seq v → ¬ seq <+: b :: rest) → Runs rest units →
        Runs (b :: rest) (0xfffd :: units)

theorem Sequence.length_pos {seq : List Byte} {v : Nat} (h : Sequence seq v) : 0 < seq.length := by
  cases h <;> simp

/-- Only the sequence of one byte may end with a terminator. -/
theorem Sequence.unterminated {seq bytes : List Byte} {v : Nat} (h : Sequence seq v)
    (hend : seq = bytes ++ [0]) : bytes = [] := by
  have hlast : seq.getLast? = some 0 := by simp [hend]
  cases h with
  | one ha => simpa using congrArg List.length hend
  | two ha ha' hb => exact absurd (by simpa using hlast) hb.ne_zero
  | three ha ha' hb hc => exact absurd (by simpa using hlast) hc.ne_zero
  | four ha ha' hb hc hd => exact absurd (by simpa using hlast) hd.ne_zero

/-- Only a sequence of four bytes is written as two units. -/
theorem Sequence.written_length {seq : List Byte} {v : Nat} (h : Sequence seq v) :
    (written v).length ≤ seq.length := by
  unfold written
  cases h with
  | one ha =>
    rw [if_pos (Nat.le_trans (Nat.le_of_lt ha) (by decide))]
    simp
  | two ha ha' hb =>
    split <;> simp
  | three ha ha' hb hc =>
    split <;> simp
  | four ha ha' hb hc hd =>
    split <;> simp

theorem runs_total (text : List Byte) : ∃ units, Runs text units := by
  induction hlength : text.length using Nat.strong_induction_on generalizing text with
  | _ n ih =>
    subst hlength
    cases text with
    | nil => exact ⟨[], Runs.done⟩
    | cons b rest =>
      by_cases hnone : ∀ seq v, Sequence seq v → ¬ seq <+: b :: rest
      · obtain ⟨units, hunits⟩ := ih rest.length (Nat.lt_succ_self _) rest rfl
        exact ⟨_, Runs.refused hnone hunits⟩
      · push Not at hnone
        obtain ⟨seq, v, hseq, later, hlater⟩ := hnone
        have hlength := hseq.length_pos
        have htotal := congrArg List.length hlater
        rw [List.length_append] at htotal
        obtain ⟨units, hunits⟩ := ih later.length (by omega) later rfl
        rw [← hlater]
        exact ⟨_, Runs.sequence hseq hunits⟩

theorem Runs.length_le {text : List Byte} {units : List Jchar} (h : Runs text units) :
    units.length ≤ text.length := by
  induction h with
  | done => exact Nat.le_refl 0
  | sequence hseq _ ih =>
    have hwritten := hseq.written_length
    simp only [List.length_append]
    omega
  | refused _ _ ih => simpa using ih

theorem store_of_lt {maximum : Nat} {output : List Jchar} {unit : Jchar}
    (h : output.length < maximum) : store maximum output unit = some (output ++ [unit]) := if_pos h

/-- The writes of one iteration fit, when the units of the text fit. -/
theorem fillLoop_step {maximum fuel : Nat} {a : Byte} {cursor rest : List Byte}
    {output : List Jchar} {v : Nat} (ha : a ≠ 0)
    (hcodepoint : utf8Codepoint (a :: cursor) = some (v, rest))
    (hfits : output.length + (written v).length ≤ maximum) :
    fillLoop maximum (fuel + 1) (a :: cursor) output =
      fillLoop maximum fuel rest (output ++ written v) := by
  unfold written at hfits ⊢
  change (if a = 0 then _ else _) = _
  rw [if_neg ha, hcodepoint]
  change (if v ≤ 0xffff then _ else _) = _
  split
  · rename_i hv
    rw [if_pos hv] at hfits
    have hroom : output.length + 1 ≤ maximum := by simpa using hfits
    rw [store_of_lt (by omega)]
    rfl
  · rename_i hv
    rw [if_neg hv] at hfits
    have hroom : output.length + 2 ≤ maximum := by simpa using hfits
    change (store _ _ _).bind _ = _
    rw [store_of_lt (by omega)]
    change (store _ _ _).bind _ = _
    rw [store_of_lt (by simp; omega), List.append_assoc]
    rfl

theorem Runs.fillLoop {text : List Byte} {units : List Jchar} (h : Runs text units)
    (hzero : (0 : Byte) ∉ text) {maximum fuel : Nat} (hfuel : text.length < fuel)
    {output : List Jchar} (hfits : output.length + units.length ≤ maximum) :
    fillLoop maximum fuel (text ++ [0]) output = some (output ++ units) := by
  induction h generalizing fuel output with
  | done =>
    obtain ⟨fuel, rfl⟩ := Nat.exists_eq_succ_of_ne_zero (Nat.ne_zero_of_lt hfuel)
    rw [List.append_nil]
    rfl
  | @sequence seq rest v units hseq _ ih =>
    obtain ⟨fuel, rfl⟩ := Nat.exists_eq_succ_of_ne_zero (Nat.ne_zero_of_lt hfuel)
    have hlength := hseq.length_pos
    have hcodepoint := utf8Codepoint_sequence hseq (rest ++ [0])
    obtain ⟨a, tail, rfl⟩ := List.exists_cons_of_length_pos hlength
    simp only [List.length_append, List.length_cons, List.cons_append, List.mem_cons,
      List.mem_append, not_or] at hfuel hfits hzero hcodepoint ⊢
    rw [List.append_assoc, fillLoop_step (Ne.symm hzero.1) hcodepoint (by omega),
      ih hzero.2.2 (by omega) (by rw [List.length_append]; omega), List.append_assoc]
  | @refused b rest units hnone _ ih =>
    obtain ⟨fuel, rfl⟩ := Nat.exists_eq_succ_of_ne_zero (Nat.ne_zero_of_lt hfuel)
    simp only [List.length_cons, List.mem_cons, not_or] at hfuel hfits hzero
    have hnone' : ∀ seq v, Sequence seq v → ¬ seq <+: b :: (rest ++ [0]) := by
      intro seq v hseq hinitial
      cases List.prefix_concat_iff.mp (show seq <+: (b :: rest) ++ [0] from hinitial) with
      | inl heq => exact absurd (hseq.unterminated heq) (List.cons_ne_nil b rest)
      | inr hinner => exact hnone seq v hseq hinner
    have hcodepoint : utf8Codepoint (b :: (rest ++ [0])) = some (0xfffd, rest ++ [0]) :=
      utf8Codepoint_refused ⟨b :: rest, rfl⟩ (Ne.symm hzero.1) hnone'
    have hunit : written 0xfffd = [0xfffd] := rfl
    rw [List.cons_append, fillLoop_step (Ne.symm hzero.1) hcodepoint (by rw [hunit]; simp; omega),
      ih hzero.2 (by omega) (by rw [hunit]; simp; omega), hunit, List.append_assoc]
    rfl

end Loop

section Decoding

/-- One unit, or a surrogate pair, that stands for a value. -/
inductive Spells : List Jchar → Nat → Prop where
  | unit {v : Nat} : v ≤ 0xffff → Spells [BitVec.ofNat 16 v] v
  | pair {high low : Jchar} : 0xd800 ≤ high.toNat → high.toNat ≤ 0xdbff → 0xdc00 ≤ low.toNat →
      low.toNat ≤ 0xdfff →
      Spells [high, low] (0x10000 + (high.toNat - 0xd800) * 0x400 + (low.toNat - 0xdc00))

/-- What a decoder of this syntax should write: every sequence's value, and U+FFFD for
every byte at which no sequence starts. -/
inductive Decodes : List Byte → List Jchar → Prop where
  | done : Decodes [] []
  | sequence {seq rest : List Byte} {v : Nat} {spelled units : List Jchar} :
      Sequence seq v → Spells spelled v → Decodes rest units →
        Decodes (seq ++ rest) (spelled ++ units)
  | refused {b : Byte} {rest : List Byte} {units : List Jchar} :
      (∀ seq v, Sequence seq v → ¬ seq <+: b :: rest) → Decodes rest units →
        Decodes (b :: rest) (0xfffd :: units)

/-- No sequence of the text is beyond the range of Unicode. -/
def InRange (text : List Byte) : Prop :=
  ∀ seq v, Sequence seq v → seq <:+: text → v ≤ 0x10ffff

theorem toNat_high {v : Nat} (hv : v < 0x200000) :
    (BitVec.ofNat 16 (0xd800 ||| (v - 0x10000) >>> 10)).toNat = 0xd800 + (v - 0x10000) / 0x400 := by
  have hfield : (v - 0x10000) >>> 10 = (v - 0x10000) / 0x400 := Nat.shiftRight_eq_div_pow _ _
  have hor : 0xd800 ||| (v - 0x10000) / 0x400 = 0xd800 + (v - 0x10000) / 0x400 :=
    or_eq_add (k := 11) (by decide) (by omega)
  rw [hfield, hor, BitVec.toNat_ofNat]
  omega

theorem toNat_low (v : Nat) :
    (BitVec.ofNat 16 (0xdc00 ||| (v - 0x10000) &&& 0x3ff)).toNat =
      0xdc00 + (v - 0x10000) % 0x400 := by
  have hfield : (v - 0x10000) &&& 0x3ff = (v - 0x10000) % 0x400 :=
    Nat.and_two_pow_sub_one_eq_mod _ 10
  have hor : 0xdc00 ||| (v - 0x10000) % 0x400 = 0xdc00 + (v - 0x10000) % 0x400 :=
    or_eq_add (k := 10) (by decide) (by omega)
  rw [hfield, hor, BitVec.toNat_ofNat]
  omega

theorem written_spells {v : Nat} (hv : v ≤ 0x10ffff) : Spells (written v) v := by
  unfold written
  split
  · rename_i hunit
    exact Spells.unit hunit
  · rename_i hpair
    have hhigh := toNat_high (v := v) (by omega)
    have hlow := toNat_low v
    have hvalue : v = 0x10000 +
        ((BitVec.ofNat 16 (0xd800 ||| (v - 0x10000) >>> 10)).toNat - 0xd800) * 0x400 +
        ((BitVec.ofNat 16 (0xdc00 ||| (v - 0x10000) &&& 0x3ff)).toNat - 0xdc00) := by
      rw [hhigh, hlow]
      omega
    nth_rewrite 3 [hvalue]
    refine Spells.pair ?_ ?_ ?_ ?_ <;> omega

theorem Spells.le {spelled : List Jchar} {v : Nat} (h : Spells spelled v) : v ≤ 0x10ffff := by
  cases h with
  | unit hv => omega
  | pair hhigh hhigh' hlow hlow' => omega

theorem Sequence.tail {seq : List Byte} {v : Nat} (h : Sequence seq v) : ∀ b ∈ seq.tail, Tail b := by
  cases h <;> simp_all

/-- A sequence beyond the range begins with a byte that is no tail. -/
theorem Sequence.lead {seq : List Byte} {v : Nat} (h : Sequence seq v) (hv : 0x10ffff < v) :
    ∃ a rest, seq = a :: rest ∧ ¬ Tail a := by
  cases h with
  | one ha => omega
  | two ha ha' hb =>
    unfold Tail at hb
    omega
  | three ha ha' hb hc =>
    unfold Tail at hb hc
    omega
  | four ha ha' hb hc hd =>
    refine ⟨_, _, rfl, fun htail => ?_⟩
    unfold Tail at htail
    omega

/-- Sequences are read from their first byte on, so one beyond the range is met and has no
spelling. -/
theorem Decodes.inRange {text : List Byte} {units : List Jchar} (h : Decodes text units) :
    InRange text := by
  intro seq v hseq hpart
  by_contra hv
  obtain ⟨a, tail, rfl, ha⟩ := hseq.lead (Nat.not_le.mp hv)
  obtain ⟨before, later, htext⟩ := hpart
  rw [List.append_assoc] at htext
  induction h generalizing before with
  | done => simp at htext
  | @sequence seq' rest v' spelled units hseq' hspells _ ih =>
    cases List.append_eq_append_iff.mp htext with
    | inl houtside =>
      obtain ⟨inner, hbefore, hrest⟩ := houtside
      cases inner with
      | nil => exact ih [] hrest
      | cons b inner =>
        obtain ⟨rfl, hinner⟩ := List.cons.inj hrest
        cases before with
        | nil =>
          have hcodepoint := utf8Codepoint_sequence hseq later
          rw [← List.nil_append (a :: tail ++ later), htext, utf8Codepoint_sequence hseq'] at hcodepoint
          have hsame : v' = v := congrArg Prod.fst (Option.some.inj hcodepoint)
          exact hv (hsame ▸ hspells.le)
        | cons c before =>
          refine ha (hseq'.tail a ?_)
          rw [hbefore]
          simp
    | inr hinside =>
      obtain ⟨inner, _, hrest⟩ := hinside
      exact ih inner hrest.symm
  | @refused b rest units hnone _ ih =>
    cases before with
    | nil => exact hnone _ _ hseq ⟨later, htext⟩
    | cons c before => exact ih before (List.cons.inj htext).2

theorem Runs.decodes {text : List Byte} {units : List Jchar} (h : Runs text units)
    (hrange : InRange text) : Decodes text units := by
  induction h with
  | done => exact Decodes.done
  | @sequence seq rest v units hseq _ ih =>
    have hv := hrange seq v hseq (List.prefix_append seq rest).isInfix
    exact Decodes.sequence hseq (written_spells hv) (ih fun seq' v' hseq' hpart =>
      hrange seq' v' hseq' (hpart.trans (List.suffix_append seq rest).isInfix))
  | @refused b rest units hnone _ ih =>
    exact Decodes.refused hnone (ih fun seq' v' hseq' hpart =>
      hrange seq' v' hseq' (hpart.trans (List.suffix_cons b rest).isInfix))

/-- The decoder ends, inside the text and inside its output, with at most one unit a byte. -/
theorem fillUtf16_runs (text : CString) :
    ∃ units, Runs text.bytes units ∧ fillUtf16 text = some units ∧
      units.length ≤ text.bytes.length := by
  obtain ⟨units, hunits⟩ := runs_total text.bytes
  have hlength := hunits.length_le
  refine ⟨units, hunits, ?_, hlength⟩
  exact hunits.fillLoop text.nonzero (Nat.lt_succ_self _) (by simp; omega)

/-- The units are those of the syntax exactly for a text inside the range of Unicode. -/
theorem fillUtf16_decodes_iff (text : CString) :
    (∃ units, fillUtf16 text = some units ∧ units.length ≤ text.bytes.length ∧
      Decodes text.bytes units) ↔ InRange text.bytes := by
  obtain ⟨units, hruns, hfill, hlength⟩ := fillUtf16_runs text
  constructor
  · intro h
    obtain ⟨_, _, _, hdecodes⟩ := h
    exact hdecodes.inRange
  · intro hrange
    exact ⟨units, hfill, hlength, hruns.decodes hrange⟩

/-- F4 90 80 80, the sequence of 0x110000. -/
def beyondUnicode : CString := ⟨[0xf4, 0x90, 0x80, 0x80], by decide⟩

theorem fillUtf16_not_decodes : ¬ ∀ text : CString,
    ∃ units, fillUtf16 text = some units ∧ units.length ≤ text.bytes.length ∧
      Decodes text.bytes units := by
  intro h
  obtain ⟨_, _, _, hdecodes⟩ := h beyondUnicode
  have hseq : Sequence beyondUnicode.bytes 0x110000 :=
    Sequence.four (by decide) (by decide) (by decide) (by decide) (by decide)
  exact absurd (hdecodes.inRange _ _ hseq List.infix_rfl) (by decide)

end Decoding

end Asm2Runtime.JniUtf
