import Asm2Runtime.CrcRegister
import Asm2Runtime.StreamDecoder
import Mathlib.Data.List.Basic

/-!
# The repair of a DEFLATE stream with one byte missing

`repair_single_missing_deflate_byte` of extract_apk.py. `zlib.decompressobj(-MAX_WBITS)` is
the parameter `zlib`, a streaming decoder of bytes, and `zlib.decompress` is its `decode`.
A copied decompressor is the same state used twice, and a decompressor that raised
`zlib.error` is not used again.
-/

namespace Asm2Runtime.DeflateRepair

/-- `zlib.decompressobj(-zlib.MAX_WBITS)` and what may be done with it. -/
abbrev Inflate := StreamDecoder UInt8 UInt8

/-- The exceptions of `extract_apk`. -/
inductive RecoverError where
  | zlibError
  | structError
  | valueError (text : String)
  deriving DecidableEq, Repr

/-- `binascii.crc32(data) & 0xFFFFFFFF` -/
def crc32 (data : List UInt8) : Nat :=
  (~~~ CrcRegister.feeds 0xedb88320#32 8 0xffffffff#32
    (data.map fun byte => byte.toBitVec.zeroExtend 32)).toNat

example : crc32 [0x31, 0x32, 0x33, 0x34, 0x35, 0x36, 0x37, 0x38, 0x39] = 0xcbf43926 := by
  decide +kernel

/-- `blob[start:stop]` -/
def slice (blob : List UInt8) (start stop : Nat) : List UInt8 := (blob.take stop).drop start

/-- The values of `range(256)`. -/
def byteValues : List UInt8 := (List.range 256).map UInt8.ofNat

/-- `compressed[:position] + bytes((value,)) + compressed[position:]` -/
def repaired (compressed : List UInt8) (position : Nat) (value : UInt8) : List UInt8 :=
  compressed.take position ++ value :: compressed.drop position

section Search

variable (zlib : Inflate) (compressed : List UInt8)

/-- The pass over blocks of 64 KiB. -/
def safeBlocks (probe : zlib.State) (safe : Nat) : Nat :=
  if safe + 65536 ≤ compressed.length then
    match zlib.feed probe (slice compressed safe (safe + 65536)) with
    | none => safe
    | some (probe, _) => safeBlocks probe (safe + 65536)
  else safe
termination_by compressed.length - safe
decreasing_by omega

/-- The pass over single bytes, `range(safe, len(compressed))` being the positions. -/
def firstError (probe : zlib.State) : List Nat → Option Nat
  | [] => none
  | position :: rest =>
    match zlib.feed probe (slice compressed position (position + 1)) with
    | none => some position
    | some (probe, _) => firstError probe rest

/-- The candidates that the look-ahead up to `probeEnd` does not rule out. -/
def survivors (probeEnd : Nat) (state : zlib.State) : List Nat → List (Nat × UInt8)
  | [] => []
  | position :: rest =>
    let tail := slice compressed position probeEnd
    let here := (byteValues.filter fun value => (zlib.feed state ([value] ++ tail)).isSome).map
      fun value => (position, value)
    match zlib.feed state (slice compressed position (position + 1)) with
    | none => here
    | some (state, _) => here ++ survivors probeEnd state rest

/-- The first survivor whose whole stream has the expected size and CRC. -/
def accepted (expectedSize expectedCrc : Nat) :
    List (Nat × UInt8) → Option (List UInt8 × Nat × UInt8)
  | [] => none
  | (position, value) :: rest =>
    match zlib.decode (repaired compressed position value) with
    | none => accepted expectedSize expectedCrc rest
    | some data =>
      if data.length = expectedSize ∧ crc32 data = expectedCrc then some (data, position, value)
      else accepted expectedSize expectedCrc rest

/-- What `probe.decompress(...)` leaves, or its `zlib.error`. -/
def decompress (probe : zlib.State) (chunk : List UInt8) : Except RecoverError zlib.State :=
  match zlib.feed probe chunk with
  | none => .error .zlibError
  | some (probe, _) => .ok probe

/-- `repair_single_missing_deflate_byte` -/
def repairSingleMissingDeflateByte (expectedSize expectedCrc : Nat) :
    Except RecoverError (List UInt8 × Nat × UInt8) := do
  let safe := safeBlocks zlib compressed zlib.init 0
  let probe ← decompress zlib zlib.init (compressed.take safe)
  let some firstError := firstError zlib compressed probe
      (List.range' safe (compressed.length - safe))
    | throw (.valueError "DEFLATE failed but no parser-error position was found")
  let searchStart := firstError - 512
  let probeEnd := min compressed.length (firstError + 131072)
  let state ← decompress zlib zlib.init (compressed.take searchStart)
  let survivors := survivors zlib compressed probeEnd state
    (List.range' searchStart (firstError + 1 - searchStart))
  match accepted zlib compressed expectedSize expectedCrc survivors with
  | some found => return found
  | none => throw (.valueError
      s!"single-byte DEFLATE repair failed near compressed offset {firstError}")

end Search

/-! ## What a repair is -/

section Meaning

variable (zlib : Inflate) (compressed : List UInt8) (expectedSize expectedCrc : Nat)

/-- With `value` inserted at `position` the whole stream has the expected size and CRC. -/
def Mends (position : Nat) (value : UInt8) (data : List UInt8) : Prop :=
  zlib.decode (repaired compressed position value) = some data ∧
    data.length = expectedSize ∧ crc32 data = expectedCrc

/-- `position` is in `[max(0, e - 512), e]`. -/
def InWindow (e position : Nat) : Prop := e - 512 ≤ position ∧ position ≤ e

/-- The order of the search: positions first, values second. -/
def Before (a b : Nat × UInt8) : Prop := a.1 < b.1 ∨ a.1 = b.1 ∧ a.2 < b.2

theorem before_irrefl {a : Nat × UInt8} : ¬ Before a a := by
  rintro (h | ⟨_, h⟩)
  · exact Nat.lt_irrefl _ h
  · exact UInt8.lt_irrefl _ h

theorem before_trans {a b c : Nat × UInt8} (hab : Before a b) (hbc : Before b c) :
    Before a c := by
  obtain h | ⟨h, hv⟩ := hab <;> obtain h' | ⟨h', hv'⟩ := hbc
  · exact Or.inl (Nat.lt_trans h h')
  · exact Or.inl (h' ▸ h)
  · exact Or.inl (h ▸ h')
  · exact Or.inr ⟨h.trans h', UInt8.lt_trans hv hv'⟩

structure FirstMend (e : Nat) (data : List UInt8) (position : Nat) (value : UInt8) : Prop where
  window : InWindow e position
  mends : Mends zlib compressed expectedSize expectedCrc position value data
  first : ∀ q w other, InWindow e q → Mends zlib compressed expectedSize expectedCrc q w other →
    ¬ Before (q, w) (position, value)

end Meaning

section Passes

variable {zlib : Inflate} {compressed : List UInt8}

theorem take_slice (blob : List UInt8) {start stop : Nat} (h : start ≤ stop) :
    blob.take start ++ slice blob start stop = blob.take stop := by
  have hstart : (blob.take stop).take start = blob.take start := by
    rw [List.take_take, Nat.min_eq_left h]
  rw [slice, ← hstart, List.take_append_drop]

theorem slice_begins (blob : List UInt8) (start stop : Nat) :
    slice blob start stop <+: blob.drop start := by
  rw [slice, List.drop_take]
  exact List.take_prefix _ _

theorem reaches_slice {start stop : Nat} {s t : zlib.State} {out : List UInt8}
    (h : zlib.Reaches (compressed.take start) s) (hle : start ≤ stop)
    (hfeed : zlib.feed s (slice compressed start stop) = some (t, out)) :
    zlib.Reaches (compressed.take stop) t := by
  rw [← take_slice compressed hle]
  exact h.feed hfeed

/-- The blocks that were passed are read. -/
theorem safeBlocks_reads (compressed : List UInt8) (probe : zlib.State) (safe : Nat)
    (h : zlib.Reaches (compressed.take safe) probe) :
    zlib.Reads (compressed.take (safeBlocks zlib compressed probe safe)) := by
  fun_induction safeBlocks zlib compressed probe safe with
  | case1 probe safe hle hfeed => exact h.reads
  | case2 probe safe hle next out hfeed ih => exact ih (reaches_slice h (by omega) hfeed)
  | case3 probe safe hle => exact h.reads

/-- The pass over bytes stops at the first one that fails. -/
theorem firstError_eq_some (probe : zlib.State) (start count e : Nat)
    (h : zlib.Reaches (compressed.take start) probe) :
    firstError zlib compressed probe (List.range' start count) = some e ↔
      start ≤ e ∧ e < start + count ∧ zlib.Reads (compressed.take e) ∧
        ¬ zlib.Reads (compressed.take (e + 1)) := by
  induction count generalizing probe start with
  | zero =>
    simp only [List.range'_zero, firstError]
    constructor
    · intro hnone
      cases hnone
    · rintro ⟨hle, hlt, _⟩
      omega
  | succ count ih =>
    have hread := h.feed_eq_none (slice compressed start (start + 1))
    rw [take_slice compressed (Nat.le_succ start)] at hread
    rw [List.range'_succ, firstError]
    cases hfeed : zlib.feed probe (slice compressed start (start + 1)) with
    | none =>
      have hfail := hread.mp hfeed
      constructor
      · intro hstart
        obtain rfl : start = e := Option.some.inj hstart
        exact ⟨Nat.le_refl _, by omega, h.reads, hfail⟩
      · rintro ⟨hle, _, hbefore, _⟩
        have hlast : ¬ start < e := fun hlt =>
          hfail (hbefore.of_prefix (List.take_prefix_take_left hlt))
        rw [show start = e by omega]
    | some result =>
      obtain ⟨next, out⟩ := result
      have hnext : zlib.Reaches (compressed.take (start + 1)) next :=
        reaches_slice h (Nat.le_succ start) hfeed
      refine (ih next (start + 1) hnext).trans ?_
      constructor
      · rintro ⟨hle, hlt, hreads⟩
        exact ⟨by omega, by omega, hreads⟩
      · rintro ⟨hle, hlt, hbefore, hfail⟩
        have hne : start ≠ e := by
          rintro rfl
          exact hfail hnext.reads
        exact ⟨by omega, by omega, hbefore, hfail⟩

end Passes

section Candidates

variable {zlib : Inflate} {compressed : List UInt8}

theorem mem_byteValues (value : UInt8) : value ∈ byteValues := by
  have hlt : value.toNat < 256 := value.toNat_lt
  exact List.mem_map.mpr ⟨value.toNat, List.mem_range.mpr hlt, UInt8.ofNat_toNat⟩

theorem byteValues_sorted : byteValues.Pairwise (· < ·) := by
  refine List.pairwise_map.mpr (List.pairwise_lt_range.imp_of_mem ?_)
  intro a b ha hb hab
  have ha := List.mem_range.mp ha
  have hb := List.mem_range.mp hb
  rw [UInt8.lt_iff_toNat_lt, UInt8.toNat_ofNat_of_lt' ha, UInt8.toNat_ofNat_of_lt' hb]
  exact hab

/-- The candidates of one position, with the state behind the bytes before it. -/
theorem mem_here {probeEnd position p : Nat} {value : UInt8} {state : zlib.State}
    (h : zlib.Reaches (compressed.take position) state) :
    (p, value) ∈ (byteValues.filter fun value =>
        (zlib.feed state ([value] ++ slice compressed position probeEnd)).isSome).map
          (fun value => (position, value)) ↔
      p = position ∧
        zlib.Reads (compressed.take p ++ ([value] ++ slice compressed p probeEnd)) := by
  rw [List.mem_map]
  constructor
  · rintro ⟨v, hv, heq⟩
    obtain ⟨rfl, rfl⟩ := Prod.mk.inj heq
    exact ⟨rfl, (h.feed_isSome _).mp (List.mem_filter.mp hv).2⟩
  · rintro ⟨rfl, hread⟩
    exact ⟨value, List.mem_filter.mpr ⟨mem_byteValues value, (h.feed_isSome _).mpr hread⟩, rfl⟩

theorem here_sorted {position : Nat} (keep : UInt8 → Bool) :
    ((byteValues.filter keep).map fun value => (position, value)).Pairwise Before := by
  refine List.pairwise_map.mpr ((byteValues_sorted.filter keep).imp ?_)
  intro a b hab
  exact Or.inr ⟨rfl, hab⟩

/-- No candidate that the look-ahead admits is skipped, whichever copy of the state it is fed to. -/
theorem mem_survivors {probeEnd : Nat} (state : zlib.State) (start count p : Nat) (value : UInt8)
    (h : zlib.Reaches (compressed.take start) state) :
    (p, value) ∈ survivors zlib compressed probeEnd state (List.range' start count) ↔
      start ≤ p ∧ p < start + count ∧ zlib.Reads (compressed.take p) ∧
        zlib.Reads (compressed.take p ++ ([value] ++ slice compressed p probeEnd)) := by
  induction count generalizing state start with
  | zero =>
    simp only [List.range'_zero, survivors, List.not_mem_nil, false_iff]
    rintro ⟨hle, hlt, _⟩
    omega
  | succ count ih =>
    have hread := h.feed_eq_none (slice compressed start (start + 1))
    rw [take_slice compressed (Nat.le_succ start)] at hread
    rw [List.range'_succ, survivors]
    cases hfeed : zlib.feed state (slice compressed start (start + 1)) with
    | none =>
      have hfail := hread.mp hfeed
      refine (mem_here h).trans ?_
      constructor
      · rintro ⟨rfl, hcand⟩
        exact ⟨Nat.le_refl _, by omega, h.reads, hcand⟩
      · rintro ⟨hle, _, hbefore, hcand⟩
        have hlast : ¬ start < p := fun hlt =>
          hfail (hbefore.of_prefix (List.take_prefix_take_left hlt))
        exact ⟨by omega, hcand⟩
    | some result =>
      obtain ⟨next, out⟩ := result
      have hnext : zlib.Reaches (compressed.take (start + 1)) next :=
        reaches_slice h (Nat.le_succ start) hfeed
      refine List.mem_append.trans ((or_congr (mem_here h) (ih next (start + 1) hnext)).trans ?_)
      constructor
      · rintro (⟨rfl, hcand⟩ | ⟨hle, hlt, hreads⟩)
        · exact ⟨Nat.le_refl _, by omega, h.reads, hcand⟩
        · exact ⟨by omega, by omega, hreads⟩
      · rintro ⟨hle, hlt, hbefore, hcand⟩
        by_cases hp : p = start
        · exact Or.inl ⟨hp, hcand⟩
        · exact Or.inr ⟨by omega, by omega, hbefore, hcand⟩

theorem survivors_from {probeEnd : Nat} (state : zlib.State) (start count : Nat)
    {c : Nat × UInt8}
    (hc : c ∈ survivors zlib compressed probeEnd state (List.range' start count)) :
    start ≤ c.1 := by
  induction count generalizing state start with
  | zero => exact absurd hc List.not_mem_nil
  | succ count ih =>
    rw [List.range'_succ, survivors] at hc
    have hhere : ∀ keep : UInt8 → Bool,
        c ∈ (byteValues.filter keep).map (fun value => (start, value)) → start ≤ c.1 := by
      intro keep hmem
      obtain ⟨value, _, rfl⟩ := List.mem_map.mp hmem
      exact Nat.le_refl _
    cases hfeed : zlib.feed state (slice compressed start (start + 1)) with
    | none =>
      rw [hfeed] at hc
      exact hhere _ hc
    | some result =>
      rw [hfeed] at hc
      cases List.mem_append.mp hc with
      | inl hfirst => exact hhere _ hfirst
      | inr hrest => exact Nat.le_of_succ_le (ih result.1 (start + 1) hrest)

theorem survivors_sorted {probeEnd : Nat} (state : zlib.State) (start count : Nat) :
    (survivors zlib compressed probeEnd state (List.range' start count)).Pairwise Before := by
  induction count generalizing state start with
  | zero => exact List.Pairwise.nil
  | succ count ih =>
    rw [List.range'_succ, survivors]
    cases hfeed : zlib.feed state (slice compressed start (start + 1)) with
    | none => exact here_sorted _
    | some result =>
      refine List.pairwise_append.mpr ⟨here_sorted _, ih result.1 (start + 1), ?_⟩
      intro a ha b hb
      obtain ⟨value, _, rfl⟩ := List.mem_map.mp ha
      exact Or.inl (survivors_from result.1 (start + 1) count hb)

end Candidates

/-! ## The result -/

section Result

variable {zlib : Inflate} {compressed : List UInt8} {expectedSize expectedCrc : Nat}

/-- A candidate that does not mend the stream is passed over. -/
theorem accepted_skip {c : Nat × UInt8} (rest : List (Nat × UInt8))
    (h : ∀ other, ¬ Mends zlib compressed expectedSize expectedCrc c.1 c.2 other) :
    accepted zlib compressed expectedSize expectedCrc (c :: rest) =
      accepted zlib compressed expectedSize expectedCrc rest := by
  obtain ⟨position, value⟩ := c
  rw [accepted]
  cases hdecode : zlib.decode (repaired compressed position value) with
  | none => rfl
  | some data => exact if_neg fun hgood => h data ⟨hdecode, hgood⟩

theorem accepted_take {position : Nat} {value : UInt8} {data : List UInt8}
    (rest : List (Nat × UInt8))
    (h : Mends zlib compressed expectedSize expectedCrc position value data) :
    accepted zlib compressed expectedSize expectedCrc ((position, value) :: rest) =
      some (data, position, value) := by
  obtain ⟨hdecode, hgood⟩ := h
  rw [accepted, hdecode]
  exact if_pos hgood

/-- The accepted candidate mends the stream and stands before every other that does. -/
theorem accepted_eq_some {candidates : List (Nat × UInt8)} {data : List UInt8} {position : Nat}
    {value : UInt8} (hsorted : candidates.Pairwise Before) :
    accepted zlib compressed expectedSize expectedCrc candidates = some (data, position, value) ↔
      (position, value) ∈ candidates ∧
        Mends zlib compressed expectedSize expectedCrc position value data ∧
        ∀ c ∈ candidates, ∀ other,
          Mends zlib compressed expectedSize expectedCrc c.1 c.2 other →
            ¬ Before c (position, value) := by
  induction candidates with
  | nil =>
    rw [accepted]
    exact ⟨(fun h => nomatch h), fun h => absurd h.1 List.not_mem_nil⟩
  | cons c rest ih =>
    obtain ⟨hc, hrest⟩ := List.pairwise_cons.mp hsorted
    by_cases hmends : ∃ other, Mends zlib compressed expectedSize expectedCrc c.1 c.2 other
    · obtain ⟨found, hfound⟩ := hmends
      rw [accepted_take rest hfound]
      constructor
      · intro h
        obtain ⟨rfl, hplace⟩ := Prod.mk.inj (Option.some.inj h)
        obtain ⟨rfl, rfl⟩ := Prod.mk.inj hplace
        refine ⟨List.mem_cons_self, hfound, ?_⟩
        intro b hb other _ hbefore
        cases List.mem_cons.mp hb with
        | inl heq => exact before_irrefl (heq ▸ hbefore)
        | inr hb => exact before_irrefl (before_trans hbefore (hc b hb))
      · rintro ⟨hmem, hmend, hfirst⟩
        have hne := hfirst c List.mem_cons_self found hfound
        cases List.mem_cons.mp hmem with
        | inl heq =>
          subst heq
          rw [show found = data from Option.some.inj (hfound.1.symm.trans hmend.1)]
        | inr hmem => exact absurd (hc _ hmem) hne
    · push Not at hmends
      rw [accepted_skip rest hmends, ih hrest]
      constructor
      · rintro ⟨hmem, hmend, hfirst⟩
        refine ⟨List.mem_cons_of_mem c hmem, hmend, ?_⟩
        intro b hb other hother
        cases List.mem_cons.mp hb with
        | inl heq => exact absurd (heq ▸ hother) (hmends other)
        | inr hb => exact hfirst b hb other hother
      · rintro ⟨hmem, hmend, hfirst⟩
        have hne : (position, value) ≠ c := by
          rintro rfl
          exact hmends data hmend
        exact ⟨List.mem_of_ne_of_mem hne hmem, hmend,
          fun b hb => hfirst b (List.mem_cons_of_mem c hb)⟩

theorem accepted_eq_none {candidates : List (Nat × UInt8)} {position : Nat} {value : UInt8}
    {data : List UInt8}
    (h : accepted zlib compressed expectedSize expectedCrc candidates = none)
    (hmends : Mends zlib compressed expectedSize expectedCrc position value data) :
    (position, value) ∉ candidates := by
  induction candidates with
  | nil => exact List.not_mem_nil
  | cons c rest ih =>
    by_cases hc : ∃ other, Mends zlib compressed expectedSize expectedCrc c.1 c.2 other
    · obtain ⟨other, hother⟩ := hc
      rw [accepted_take rest hother] at h
      cases h
    · push Not at hc
      rw [accepted_skip rest hc] at h
      rintro (_ | _)
      · exact hc data hmends
      · exact ih h ‹_›

theorem decompress_take {n : Nat} (h : zlib.Reads (compressed.take n)) :
    ∃ state, decompress zlib zlib.init (compressed.take n) = .ok state ∧
      zlib.Reaches (compressed.take n) state := by
  obtain ⟨state, out, hfeed⟩ := h.reaches
  exact ⟨state, by rw [decompress, hfeed], out, hfeed⟩

/-- The two passes together stop at the first failing byte, or at none. -/
theorem firstError_iff {probe : zlib.State} {safe e : Nat}
    (h : zlib.Reaches (compressed.take safe) probe) :
    firstError zlib compressed probe (List.range' safe (compressed.length - safe)) = some e ↔
      zlib.FailsAt compressed e := by
  rw [firstError_eq_some probe safe (compressed.length - safe) e h]
  constructor
  · rintro ⟨hle, hlt, hbefore, hfail⟩
    exact ⟨by omega, hbefore, hfail⟩
  · intro hfails
    have hsafe := (hfails.reads_take safe).mp h.reads
    have hinside := hfails.1
    exact ⟨hsafe, by omega, hfails.2⟩

/-- The candidates of the window, in the order in which they are tried. -/
theorem survivors_window {e : Nat} (hfails : zlib.FailsAt compressed e) {state : zlib.State}
    (hstate : zlib.Reaches (compressed.take (e - 512)) state) {probeEnd p : Nat} {value : UInt8} :
    (p, value) ∈ survivors zlib compressed probeEnd state
        (List.range' (e - 512) (e + 1 - (e - 512))) ↔
      InWindow e p ∧
        zlib.Reads (compressed.take p ++ ([value] ++ slice compressed p probeEnd)) := by
  rw [mem_survivors state _ _ p value hstate, hfails.reads_take]
  constructor
  · rintro ⟨hle, _, hlast, hcand⟩
    exact ⟨⟨hle, hlast⟩, hcand⟩
  · rintro ⟨⟨hle, hlast⟩, hcand⟩
    exact ⟨hle, by omega, hlast, hcand⟩

/-- A repair of the whole stream is not ruled out by the bounded look-ahead. -/
theorem Mends.survives {p probeEnd : Nat} {value : UInt8} {data : List UInt8}
    (h : Mends zlib compressed expectedSize expectedCrc p value data) :
    zlib.Reads (compressed.take p ++ ([value] ++ slice compressed p probeEnd)) := by
  have hread := StreamDecoder.Reads.of_decode h.1
  refine hread.of_prefix ?_
  exact (List.prefix_append_right_inj _).mpr
    ((List.prefix_append_right_inj [value]).mpr (slice_begins compressed p probeEnd))

/-- The run on a stream that fails at `e`: the candidates stand in the order of the search, and
none that could mend the stream is missing. -/
theorem repair_run (expectedSize expectedCrc : Nat) {e : Nat}
    (hfails : zlib.FailsAt compressed e) :
    ∃ candidates : List (Nat × UInt8), candidates.Pairwise Before ∧
      (∀ c ∈ candidates, InWindow e c.1) ∧
      (∀ p value data, InWindow e p →
        Mends zlib compressed expectedSize expectedCrc p value data → (p, value) ∈ candidates) ∧
      repairSingleMissingDeflateByte zlib compressed expectedSize expectedCrc =
        match accepted zlib compressed expectedSize expectedCrc candidates with
        | some found => .ok found
        | none => .error (.valueError
            s!"single-byte DEFLATE repair failed near compressed offset {e}") := by
  obtain ⟨probe, hprobe, hreaches⟩ :=
    decompress_take (safeBlocks_reads compressed zlib.init 0
      (by simpa using StreamDecoder.reaches_nil))
  obtain ⟨state, hstate, hstart⟩ :=
    decompress_take ((hfails.reads_take (e - 512)).mpr (Nat.sub_le e 512))
  have hlocated := (firstError_iff hreaches).mpr hfails
  refine ⟨survivors zlib compressed (min compressed.length (e + 131072)) state
    (List.range' (e - 512) (e + 1 - (e - 512))), survivors_sorted state _ _, ?_, ?_, ?_⟩
  · rintro ⟨p, value⟩ hc
    exact ((survivors_window hfails hstart).mp hc).1
  · intro p value data hp hmends
    exact (survivors_window hfails hstart).mpr ⟨hp, hmends.survives⟩
  · rw [repairSingleMissingDeflateByte]
    simp only [hprobe, hlocated, hstate, bind, Except.bind]
    cases accepted zlib compressed expectedSize expectedCrc
      (survivors zlib compressed (min compressed.length (e + 131072)) state
        (List.range' (e - 512) (e + 1 - (e - 512)))) with
    | none => rfl
    | some found => rfl

/-- What is returned is the first repair of the window. -/
theorem repair_eq_ok {e : Nat} (hfails : zlib.FailsAt compressed e) {data : List UInt8}
    {position : Nat} {value : UInt8} :
    repairSingleMissingDeflateByte zlib compressed expectedSize expectedCrc =
        .ok (data, position, value) ↔
      FirstMend zlib compressed expectedSize expectedCrc e data position value := by
  obtain ⟨candidates, hsorted, hinside, hcomplete, hrun⟩ :=
    repair_run expectedSize expectedCrc hfails
  have haccepted : repairSingleMissingDeflateByte zlib compressed expectedSize expectedCrc =
        .ok (data, position, value) ↔
      accepted zlib compressed expectedSize expectedCrc candidates =
        some (data, position, value) := by
    rw [hrun]
    cases accepted zlib compressed expectedSize expectedCrc candidates with
    | none => exact ⟨(fun h => nomatch h), (fun h => nomatch h)⟩
    | some found =>
      exact ⟨fun h => congrArg some (Except.ok.inj h), fun h => congrArg _ (Option.some.inj h)⟩
  rw [haccepted, accepted_eq_some hsorted]
  constructor
  · rintro ⟨hmem, hmends, hfirst⟩
    exact ⟨hinside _ hmem, hmends, fun q w other hq hother =>
      hfirst (q, w) (hcomplete q w other hq hother) other hother⟩
  · rintro ⟨hwindow, hmends, hfirst⟩
    exact ⟨hcomplete _ _ _ hwindow hmends, hmends, fun c hc other hother =>
      hfirst c.1 c.2 other (hinside c hc) hother⟩

/-- A window with a repair has a first one, and the search ends with it. -/
theorem repair_succeeds {e : Nat} (hfails : zlib.FailsAt compressed e) {p : Nat} {v : UInt8}
    {other : List UInt8} (hp : InWindow e p)
    (hmends : Mends zlib compressed expectedSize expectedCrc p v other) :
    ∃ data position value,
      repairSingleMissingDeflateByte zlib compressed expectedSize expectedCrc =
        .ok (data, position, value) := by
  obtain ⟨candidates, hsorted, _, hcomplete, hrun⟩ :=
    repair_run expectedSize expectedCrc hfails
  rw [hrun]
  cases haccepted : accepted zlib compressed expectedSize expectedCrc candidates with
  | none => exact absurd (hcomplete p v other hp hmends) (accepted_eq_none haccepted hmends)
  | some found => exact ⟨found.1, found.2.1, found.2.2, rfl⟩

/-- A stream that no byte makes fail, such as a truncated one, is not searched. -/
theorem repair_of_not_failsAt (h : ∀ e, ¬ zlib.FailsAt compressed e) :
    repairSingleMissingDeflateByte zlib compressed expectedSize expectedCrc =
      .error (.valueError "DEFLATE failed but no parser-error position was found") := by
  obtain ⟨probe, hprobe, hreaches⟩ :=
    decompress_take (safeBlocks_reads compressed zlib.init 0
      (by simpa using StreamDecoder.reaches_nil))
  rw [repairSingleMissingDeflateByte]
  cases hlocated : firstError zlib compressed probe
      (List.range' (safeBlocks zlib compressed zlib.init 0)
        (compressed.length - safeBlocks zlib compressed zlib.init 0)) with
  | none =>
    simp only [hprobe, hlocated, bind, Except.bind]
    rfl
  | some e => exact absurd ((firstError_iff hreaches).mp hlocated) (h e)

end Result

/-! ## A stream with its length cut -/

/-- Streams of stored blocks, whose headers all start at a byte. -/
inductive StoredState where
  | header
  | lengths (final : Bool) (bytes : List UInt8)
  | data (final : Bool) (left : Nat)
  | done
  deriving DecidableEq

def storedNext (final : Bool) : Nat → StoredState
  | 0 => if final then .done else .header
  | left + 1 => .data final (left + 1)

def storedStep : StoredState → UInt8 → Option (StoredState × List UInt8)
  | .header, byte => if byte &&& 6 = 0 then some (.lengths (byte &&& 1 = 1) [], []) else none
  | .lengths final [low, high, lowCheck], byte =>
    if low = ~~~ lowCheck ∧ high = ~~~ byte then
      some (storedNext final (low.toNat + 256 * high.toNat), [])
    else none
  | .lengths final bytes, byte => some (.lengths final (bytes ++ [byte]), [])
  | .data final left, byte => some (storedNext final (left - 1), [byte])
  | .done, _ => some (.done, [])

def storedBlocks : Inflate := StreamDecoder.ofStep storedStep .header (· = .done)

/-! ## Soundness and completeness -/

/-- Soundness and completeness of the repair within its window. -/
theorem repair_sound_complete (zlib : Inflate) (compressed : List UInt8)
    (expectedSize expectedCrc e : Nat) (hfails : zlib.FailsAt compressed e) :
    (∀ data position value,
      repairSingleMissingDeflateByte zlib compressed expectedSize expectedCrc =
          .ok (data, position, value) →
        data.length = expectedSize ∧ crc32 data = expectedCrc ∧
          zlib.decode (compressed.take position ++ value :: compressed.drop position) =
            some data) ∧
    ((∃ position value data, InWindow e position ∧
        Mends zlib compressed expectedSize expectedCrc position value data) →
      ∃ data position value,
        repairSingleMissingDeflateByte zlib compressed expectedSize expectedCrc =
            .ok (data, position, value) ∧
          FirstMend zlib compressed expectedSize expectedCrc e data position value) := by
  constructor
  · intro data position value hrun
    obtain ⟨hdecode, hsize, hcrc⟩ := ((repair_eq_ok hfails).mp hrun).mends
    exact ⟨hsize, hcrc, hdecode⟩
  · rintro ⟨p, v, other, hp, hmends⟩
    obtain ⟨data, position, value, hrun⟩ := repair_succeeds hfails hp hmends
    exact ⟨data, position, value, hrun, (repair_eq_ok hfails).mp hrun⟩

/-- The two bytes of a stored block come back when the high byte of its length was lost. -/
theorem repair_sound_complete_stored :
    ∃ data position value,
      repairSingleMissingDeflateByte storedBlocks [0x01, 0x02, 0xfd, 0xff, 0x41, 0x42] 2
          (crc32 [0x41, 0x42]) = .ok (data, position, value) ∧
        FirstMend storedBlocks [0x01, 0x02, 0xfd, 0xff, 0x41, 0x42] 2 (crc32 [0x41, 0x42]) 4
          data position value := by
  have hfails : storedBlocks.FailsAt [0x01, 0x02, 0xfd, 0xff, 0x41, 0x42] 4 := by
    refine ⟨by decide, rfl, ?_⟩
    intro hread
    exact absurd hread (by unfold StreamDecoder.Reads; decide)
  exact (repair_sound_complete storedBlocks _ 2 _ 4 hfails).2
    ⟨2, 0, [0x41, 0x42], ⟨by decide, by decide⟩, rfl, rfl, rfl⟩

end Asm2Runtime.DeflateRepair
