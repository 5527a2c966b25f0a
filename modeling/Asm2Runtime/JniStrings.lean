import Asm2Runtime.JniBundleRuns

/-!
# Strings made from UTF-16

`asm2_utf16_to_utf8` writes one sequence of the decoder for each code point, so the decoder
gives the units back up to the first U+0000, whose byte ends the text.
-/

namespace Asm2Runtime.JniUtf

open BitFields

section Encoding

theorem lead_byte {base x k : Nat} (hbase : base % 2 ^ k = 0) (hx : x < 2 ^ k)
    (hsum : base + x < 256) : (BitVec.ofNat 8 (base ||| x)).toNat = base + x := by
  rw [or_eq_add hbase hx, BitVec.toNat_ofNat, Nat.mod_eq_of_lt hsum]

theorem tail_byte (x : Nat) : (BitVec.ofNat 8 (0x80 ||| x &&& 0x3f)).toNat = 0x80 + x % 64 := by
  have hmask : x &&& 0x3f = x % 64 := Nat.and_two_pow_sub_one_eq_mod x 6
  rw [hmask]
  exact lead_byte (k := 6) (by decide) (Nat.mod_lt _ (by decide)) (by omega)

theorem tail_byte_tail (x : Nat) : Tail (BitVec.ofNat 8 (0x80 ||| x &&& 0x3f)) := by
  unfold Tail
  rw [tail_byte]
  omega

/-- The encoder writes a sequence that the decoder accepts. -/
theorem encodeCodepoint_sequence {v : Nat} (hv : v < 0x200000) : Sequence (encodeCodepoint v) v := by
  unfold encodeCodepoint
  simp only [Nat.shiftRight_eq_div_pow]
  split
  · rename_i hone
    have hbyte : (BitVec.ofNat 8 v).toNat = v := by
      rw [BitVec.toNat_ofNat]
      omega
    have hseq := Sequence.one (a := BitVec.ofNat 8 v) (by omega)
    rwa [hbyte] at hseq
  · split
    · have hlead : (BitVec.ofNat 8 (0xc0 ||| v / 2 ^ 6)).toNat = 0xc0 + v / 2 ^ 6 :=
        lead_byte (k := 6) (by decide) (by omega) (by omega)
      have hseq := Sequence.two (a := BitVec.ofNat 8 (0xc0 ||| v / 2 ^ 6)) (by omega) (by omega)
        (tail_byte_tail v)
      rw [hlead, tail_byte] at hseq
      have hvalue : (0xc0 + v / 2 ^ 6 - 0xc0) * 2 ^ 6 + (0x80 + v % 64 - 0x80) = v := by omega
      rwa [hvalue] at hseq
    · split
      · have hlead : (BitVec.ofNat 8 (0xe0 ||| v / 2 ^ 12)).toNat = 0xe0 + v / 2 ^ 12 :=
          lead_byte (k := 5) (by decide) (by omega) (by omega)
        have hseq := Sequence.three (a := BitVec.ofNat 8 (0xe0 ||| v / 2 ^ 12)) (by omega)
          (by omega) (tail_byte_tail (v / 2 ^ 6)) (tail_byte_tail v)
        rw [hlead, tail_byte, tail_byte] at hseq
        have hvalue : (0xe0 + v / 2 ^ 12 - 0xe0) * 2 ^ 12 + (0x80 + v / 2 ^ 6 % 64 - 0x80) * 2 ^ 6 +
            (0x80 + v % 64 - 0x80) = v := by omega
        rwa [hvalue] at hseq
      · have hlead : (BitVec.ofNat 8 (0xf0 ||| v / 2 ^ 18)).toNat = 0xf0 + v / 2 ^ 18 :=
          lead_byte (k := 4) (by decide) (by omega) (by omega)
        have hseq := Sequence.four (a := BitVec.ofNat 8 (0xf0 ||| v / 2 ^ 18)) (by omega)
          (by omega) (tail_byte_tail (v / 2 ^ 12)) (tail_byte_tail (v / 2 ^ 6)) (tail_byte_tail v)
        rw [hlead, tail_byte, tail_byte, tail_byte] at hseq
        have hvalue : (0xf0 + v / 2 ^ 18 - 0xf0) * 2 ^ 18 + (0x80 + v / 2 ^ 12 % 64 - 0x80) * 2 ^ 12 +
            (0x80 + v / 2 ^ 6 % 64 - 0x80) * 2 ^ 6 + (0x80 + v % 64 - 0x80) = v := by omega
        rwa [hvalue] at hseq

theorem encodeCodepoint_length (v : Nat) : (encodeCodepoint v).length ≤ 4 := by
  unfold encodeCodepoint
  split <;> [skip; split <;> [skip; split]] <;> simp

/-- A lead byte and a tail are not the terminator. -/
theorem ne_zero_of_le {a : Byte} (h : 0x80 ≤ a.toNat) : (0 : Byte) ≠ a := by
  rintro rfl
  exact absurd h (by decide)

theorem Sequence.nonzero {seq : List Byte} {v : Nat} (h : Sequence seq v) (hv : v ≠ 0) :
    (0 : Byte) ∉ seq := by
  have hhigh : (∀ b ∈ seq, 0x80 ≤ b.toNat) → (0 : Byte) ∉ seq := by
    intro hall hmem
    exact ne_zero_of_le (hall 0 hmem) rfl
  cases h with
  | one ha =>
    rw [List.mem_singleton]
    rintro rfl
    exact hv rfl
  | two ha ha' hb =>
    refine hhigh ?_
    unfold Tail at hb
    simp only [List.forall_mem_cons]
    exact ⟨by omega, by omega, by simp⟩
  | three ha ha' hb hc =>
    refine hhigh ?_
    unfold Tail at hb hc
    simp only [List.forall_mem_cons]
    exact ⟨by omega, by omega, by omega, by simp⟩
  | four ha ha' hb hc hd =>
    refine hhigh ?_
    unfold Tail at hb hc hd
    simp only [List.forall_mem_cons]
    exact ⟨by omega, by omega, by omega, by omega, by simp⟩

/-- The bytes of a code point but U+0000 are kept by the text. -/
theorem takeWhile_encodeCodepoint {v : Nat} (hv : v < 0x200000) (hzero : v ≠ 0)
    (rest : List Byte) : (encodeCodepoint v ++ rest).takeWhile (· ≠ 0) =
      encodeCodepoint v ++ rest.takeWhile (· ≠ 0) := by
  refine List.takeWhile_append_of_pos fun b hb => decide_eq_true ?_
  rintro rfl
  exact (encodeCodepoint_sequence hv).nonzero hzero hb

theorem unit_lt (unit : Jchar) : unit.toNat < 0x200000 := by
  have := unit.isLt
  omega

theorem written_unit (unit : Jchar) : written unit.toNat = [unit] := by
  have hlt := unit.isLt
  rw [written, if_pos (by omega), BitVec.ofNat_toNat, BitVec.setWidth_eq]

/-- The code point of a pair is written as the pair. -/
theorem written_pair {unit next : Jchar} (hunit : 0xd800 ≤ unit.toNat ∧ unit.toNat ≤ 0xdbff)
    (hnext : 0xdc00 ≤ next.toNat ∧ next.toNat ≤ 0xdfff) :
    0x10000 + (unit.toNat - 0xd800) <<< 10 + (next.toNat - 0xdc00) < 0x200000 ∧
      written (0x10000 + (unit.toNat - 0xd800) <<< 10 + (next.toNat - 0xdc00)) = [unit, next] := by
  rw [Nat.shiftLeft_eq]
  have hlt : 0x10000 + (unit.toNat - 0xd800) * 2 ^ 10 + (next.toNat - 0xdc00) < 0x200000 := by omega
  refine ⟨hlt, ?_⟩
  rw [written, if_neg (by omega)]
  have hhigh := toNat_high hlt
  have hlow := toNat_low (0x10000 + (unit.toNat - 0xd800) * 2 ^ 10 + (next.toNat - 0xdc00))
  congr 1
  · refine BitVec.eq_of_toNat_eq ?_
    rw [hhigh]
    omega
  · congr 1
    refine BitVec.eq_of_toNat_eq ?_
    rw [hlow]
    omega

/-- The sequences of the units are decoded to the units. -/
theorem encodeUtf16_runs (units : List Jchar) : Runs (encodeUtf16 units) units := by
  induction units using encodeUtf16.induct with
  | case1 => exact Runs.done
  | case2 unit =>
    have h := Runs.sequence (encodeCodepoint_sequence (unit_lt unit)) Runs.done
    rwa [written_unit, List.append_nil] at h
  | case3 unit next rest hpair ih =>
    obtain ⟨hlt, hwritten⟩ := written_pair ⟨hpair.1, hpair.2.1⟩ hpair.2.2
    have h := Runs.sequence (encodeCodepoint_sequence hlt) ih
    rw [hwritten] at h
    rw [encodeUtf16, if_pos hpair]
    exact h
  | case4 unit next rest hpair ih =>
    have h := Runs.sequence (encodeCodepoint_sequence (unit_lt unit)) ih
    rw [written_unit] at h
    rw [encodeUtf16, if_neg hpair]
    exact h

theorem encodeUtf16_length (units : List Jchar) :
    (encodeUtf16 units).length ≤ 4 * units.length := by
  induction units using encodeUtf16.induct with
  | case1 => exact Nat.le_refl 0
  | case2 unit => exact encodeCodepoint_length unit.toNat
  | case3 unit next rest hpair ih =>
    rw [encodeUtf16, if_pos hpair, List.length_append]
    have hlength := encodeCodepoint_length
      (0x10000 + (unit.toNat - 0xd800) <<< 10 + (next.toNat - 0xdc00))
    simp only [List.length_cons]
    omega
  | case4 unit next rest hpair ih =>
    rw [encodeUtf16, if_neg hpair, List.length_append]
    have hlength := encodeCodepoint_length unit.toNat
    simp only [List.length_cons] at ih ⊢
    omega

theorem toNat_ne_zero {unit : Jchar} (h : unit ≠ 0) : unit.toNat ≠ 0 := by
  intro hzero
  exact h (BitVec.eq_of_toNat_eq hzero)

theorem takeWhile_cons_zero (units : List Jchar) :
    ((0 : Jchar) :: units).takeWhile (· ≠ 0) = [] := rfl

theorem takeWhile_cons {unit : Jchar} (h : unit ≠ 0) (units : List Jchar) :
    (unit :: units).takeWhile (· ≠ 0) = unit :: units.takeWhile (· ≠ 0) :=
  List.takeWhile_cons_of_pos (decide_eq_true h)

/-- The text ends at the first U+0000. -/
theorem takeWhile_encodeUtf16 (units : List Jchar) :
    (encodeUtf16 units).takeWhile (· ≠ 0) = encodeUtf16 (units.takeWhile (· ≠ 0)) := by
  induction units using encodeUtf16.induct with
  | case1 => rfl
  | case2 unit =>
    by_cases hunit : unit = 0
    · subst hunit
      rfl
    · have h := takeWhile_encodeCodepoint (unit_lt unit) (toNat_ne_zero hunit) []
      rw [List.append_nil, List.takeWhile_nil, List.append_nil] at h
      rw [takeWhile_cons hunit]
      exact h
  | case3 unit next rest hpair ih =>
    obtain ⟨hlt, _⟩ := written_pair ⟨hpair.1, hpair.2.1⟩ hpair.2.2
    have hunit : unit ≠ 0 := by
      rintro rfl
      exact absurd hpair.1 (by decide)
    have hnext : next ≠ 0 := by
      rintro rfl
      exact absurd hpair.2.2.1 (by decide)
    rw [takeWhile_cons hunit, takeWhile_cons hnext, encodeUtf16, encodeUtf16, if_pos hpair,
      if_pos hpair, takeWhile_encodeCodepoint hlt (by omega), ih]
  | case4 unit next rest hpair ih =>
    rw [encodeUtf16, if_neg hpair]
    by_cases hunit : unit = 0
    · subst hunit
      rfl
    · rw [takeWhile_encodeCodepoint (unit_lt unit) (toNat_ne_zero hunit), ih, takeWhile_cons hunit]
      by_cases hnext : next = 0
      · subst hnext
        rw [takeWhile_cons_zero, encodeUtf16, encodeUtf16, List.append_nil]
      · rw [takeWhile_cons hnext, encodeUtf16, if_neg hpair]

/-- The decoder gives back the units before the first U+0000. -/
theorem fillUtf16_utf16ToUtf8 (units : List Jchar) :
    fillUtf16 (utf16ToUtf8 units) = some (units.takeWhile (· ≠ 0)) := by
  have hbytes : (utf16ToUtf8 units).bytes = encodeUtf16 (units.takeWhile (· ≠ 0)) :=
    takeWhile_encodeUtf16 units
  have hruns := encodeUtf16_runs (units.takeWhile (· ≠ 0))
  rw [← hbytes] at hruns
  have hlength := hruns.length_le
  exact hruns.fillLoop (utf16ToUtf8 units).nonzero (Nat.lt_succ_self _)
    (by rw [List.length_nil]; omega)

/-- Only a unit U+0000 is lost. -/
theorem takeWhile_eq_self_iff (units : List Jchar) :
    units.takeWhile (· ≠ 0) = units ↔ (0 : Jchar) ∉ units := by
  rw [List.takeWhile_eq_self_iff]
  constructor
  · intro h hmem
    exact of_decide_eq_true (h 0 hmem) rfl
  · intro h unit hmem
    refine decide_eq_true ?_
    rintro rfl
    exact h hmem

end Encoding

end Asm2Runtime.JniUtf

namespace Asm2Runtime.Jni

open JniUtf Transition

section RoundTrip

/-- The string has the length and the units of an array. -/
def RoundTrips (units : List Jchar) (string : Pointer) (t : Table) : Prop :=
  getStringLength string t = BitVec.ofNat 32 units.length ∧
    ∃ chars, getStringChars string t = some chars ∧ chars.take units.length = units

variable {t : Table} {item string : Pointer}

/-- What is read from a string whose text was made from an array. -/
theorem Table.Sound.roundTrips_iff (h : t.Sound) {handle : Handle} (units : List Jchar)
    (hn : 4 * units.length + 1 < 2 ^ 32) (hp : t.heap string = some handle)
    (hkind : handle.kind = .string) (htext : handle.text = some (utf16ToUtf8 units)) :
    RoundTrips units string t ↔ (0 : Jchar) ∉ units := by
  have hutf16 : handle.utf16 = some (units.takeWhile (· ≠ 0)) := by
    obtain ⟨text, htext', hfill⟩ := (h.valid string handle hp).string hkind
    obtain rfl : text = utf16ToUtf8 units := Option.some.inj (htext'.symm.trans htext)
    rw [hfill, fillUtf16_utf16ToUtf8]
  have hlength : getStringLength string t =
      BitVec.ofNat 32 (units.takeWhile (· ≠ 0)).length := by
    simp [getStringLength, h.chained.handleAt, hp, hkind, hutf16]
  have hchars : getStringChars string t = some (units.takeWhile (· ≠ 0)) := by
    simp [getStringChars, h.chained.handleAt, hp, hkind, hutf16]
  rw [← takeWhile_eq_self_iff]
  have hpart : units.takeWhile (· ≠ 0) <+: units := List.takeWhile_prefix _
  have hle := hpart.length_le
  constructor
  · intro hround
    have hsame : (units.takeWhile (· ≠ 0)).length = units.length := by
      have heq := congrArg BitVec.toNat (hlength.symm.trans hround.1)
      rw [BitVec.toNat_ofNat, BitVec.toNat_ofNat, Nat.mod_eq_of_lt (by omega),
        Nat.mod_eq_of_lt (by omega)] at heq
      exact heq
    exact hpart.eq_of_length hsame
  · intro hsame
    rw [hsame] at hlength hchars
    exact ⟨hlength, units, hchars, List.take_length⟩

/-- An array of this length is accepted, and its text fits into the block. -/
theorem newString_accepts (item classItem throwable : Pointer) (unicode : Nat → Jchar) {n : Nat}
    (hn : 4 * n + 1 < 2 ^ 32) (e : Env) :
    newString item classItem throwable (some unicode) (BitVec.ofNat 32 n) e =
      some ((internString item (some (utf16ToUtf8 ((List.range n).map unicode))) e.table).1,
        { e with
          table :=
            (internString item (some (utf16ToUtf8 ((List.range n).map unicode))) e.table).2 }) := by
  have hnat : (BitVec.ofNat 32 n).toNat = n := by
    rw [BitVec.toNat_ofNat]
    omega
  have hsigned : (BitVec.ofNat 32 n).slt 0 = false := by
    change (BitVec.ofNat 32 n).slt 0#32 = false
    rw [BitVec.slt_zero_eq_msb, BitVec.msb_eq_false_iff_two_mul_lt, hnat]
    omega
  have hblock : (BitVec.ofNat 32 n * 4 + 1).toNat = 4 * n + 1 := by
    rw [BitVec.toNat_add, BitVec.toNat_mul, hnat]
    change (n * 4 % 2 ^ 32 + 1) % 2 ^ 32 = _
    omega
  have hfits := encodeUtf16_length ((List.range n).map unicode)
  rw [List.length_map, List.length_range] at hfits
  rw [newString, hsigned, hnat, hblock, if_neg (by simp)]
  exact if_pos (Nat.succ_le_succ hfits)

/-- A string made from an array, in any run, gives the array back exactly when no unit of it
is U+0000; the encoder writes that unit as a terminator. -/
theorem newString_roundTrips_iff {events : List (Thread × Operation)} {s : Bridge}
    (hrun : run Bridge.step emptyBridge events = some s) (pending : Pointer)
    {item classItem throwable : Pointer} (hfresh : s.table.FreshAll [item, classItem, throwable])
    (unicode : Nat → Jchar) {n : Nat} (hn : 4 * n + 1 < 2 ^ 32) :
    ∃ string e, newString item classItem throwable (some unicode) (BitVec.ofNat 32 n)
        { table := s.table, pending } = some (string, e) ∧
      ((RoundTrips ((List.range n).map unicode) string e.table ∧
        fillUtf16 (utf16ToUtf8 ((List.range n).map unicode)) =
          some ((List.range n).map unicode)) ↔ ∀ i < n, unicode i ≠ 0) := by
  have hzero : (∀ i < n, unicode i ≠ 0) ↔ (0 : Jchar) ∉ (List.range n).map unicode := by
    simp [List.mem_map]
  refine ⟨_, _, newString_accepts item classItem throwable unicode hn _, ?_⟩
  have hsound := (refines_of_run hrun).sound
  obtain ⟨hgrows, handle, hheap, hkind, htext⟩ := hsound.internString
    (hfresh.2 item (by simp)) (some (utf16ToUtf8 ((List.range n).map unicode)))
  have hround := hgrows.sound.roundTrips_iff ((List.range n).map unicode)
    (by rwa [List.length_map, List.length_range]) hheap hkind htext
  rw [hzero]
  constructor
  · intro h
    exact hround.mp h.1
  · intro h
    refine ⟨hround.mpr h, ?_⟩
    rw [fillUtf16_utf16ToUtf8, (takeWhile_eq_self_iff _).mpr h]

/-- A letter before an unpaired high surrogate. -/
def letterSurrogate (i : Nat) : Jchar := if i = 0 then 0x41 else 0xd800

theorem newString_roundTrips_letterSurrogate :
    ∃ string e, newString 16 32 48 (some letterSurrogate) (BitVec.ofNat 32 2)
        { table := emptyTable, pending := 0 } = some (string, e) ∧
      RoundTrips ((List.range 2).map letterSurrogate) string e.table ∧
        fillUtf16 (utf16ToUtf8 ((List.range 2).map letterSurrogate)) =
          some ((List.range 2).map letterSurrogate) := by
  have hrun : run Bridge.step emptyBridge [] = some emptyBridge := rfl
  have hfresh : emptyBridge.table.FreshAll [16, 32, 48] := by decide
  obtain ⟨string, e, hnew, hround⟩ :=
    newString_roundTrips_iff hrun 0 hfresh letterSurrogate (n := 2) (by decide)
  exact ⟨string, e, hnew, hround.mpr (by decide)⟩

/-- The array of one U+0000 becomes the empty string. -/
theorem newString_not_roundTrips :
    ¬ ∀ (events : List (Thread × Operation)) (s : Bridge),
      run Bridge.step emptyBridge events = some s → ∀ pending item classItem throwable : Pointer,
      s.table.FreshAll [item, classItem, throwable] → ∀ (unicode : Nat → Jchar) (n : Nat),
      4 * n + 1 < 2 ^ 32 →
        ∃ string e, newString item classItem throwable (some unicode) (BitVec.ofNat 32 n)
            { table := s.table, pending } = some (string, e) ∧
          RoundTrips ((List.range n).map unicode) string e.table ∧
          fillUtf16 (utf16ToUtf8 ((List.range n).map unicode)) =
            some ((List.range n).map unicode) := by
  intro h
  obtain ⟨string, e, hnew, hround, _⟩ := h [] emptyBridge rfl 0 16 32 48 (by decide) (fun _ => 0) 1
    (by decide)
  have hempty : (newString 16 32 48 (some fun _ => 0) (BitVec.ofNat 32 1)
      { table := emptyTable, pending := 0 }).map
        (fun r => getStringLength r.1 r.2.table) = some 0 := by decide +kernel
  have hzero : getStringLength string e.table = 0 := by
    have hmap := congrArg (Option.map fun r => getStringLength r.1 r.2.table) hnew
    exact Option.some.inj (hmap.symm.trans hempty)
  exact absurd (hzero.symm.trans hround.1) (by decide)

end RoundTrip

end Asm2Runtime.Jni
