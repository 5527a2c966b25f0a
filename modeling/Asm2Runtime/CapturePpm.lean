import Asm2Runtime.CaptureDigest
import Mathlib.Logic.Function.Basic

/-!
# Writing a captured frame

`asm2_capture_write_ppm` of capture_x86.c: a temporary file is written, hashed on the way and
renamed to the output path. Sizes are formed in the 32 bits of `size_t`; a size that wraps and
an access outside an object are faults. System calls and allocations answer from an oracle.
-/

namespace Asm2Runtime.CapturePpm

open CaptureSha BlockAccess

inductive Fault where
  | wraps
  | outside
  deriving DecidableEq, Repr

abbrev Checked := Except Fault

/-- A value of type `size_t`. -/
def sized (n : Nat) : Checked Nat := if n < 2 ^ 32 then .ok n else .error .wraps

/-- An access inside an object, or a fault. -/
def inside {α : Type} : Option α → Checked α
  | some a => .ok a
  | none => .error .outside

abbrev Path := List Byte

abbrev Disk := Path → Option (List Byte)

section Text

def ascii (text : String) : List Byte := text.toList.map fun c => BitVec.ofNat 8 c.toNat

/-- `%d` and `%ld` of a number that is not negative. -/
def decimal (n : Nat) : List Byte := (Nat.toDigits 10 n).map fun c => BitVec.ofNat 8 c.toNat

/-- `%02x` of a byte. -/
def hexByte (b : Byte) : List Byte :=
  [b.toNat / 16, b.toNat % 16].map fun digit => BitVec.ofNat 8 (Nat.digitChar digit).toNat

/-- `snprintf(temporary, ..., "%s.part.%ld", asm2_capture.output, (long)getpid())` -/
def temporaryPath (output : Path) (pid : Nat) : Path := output ++ ascii ".part." ++ decimal pid

/-- `snprintf(header, ..., "P6\n%d %d\n255\n", width, height)` -/
def headerText (width height : Nat) : List Byte :=
  ascii "P6\n" ++ decimal width ++ ascii " " ++ decimal height ++ ascii "\n255\n"

end Text

section Writer

/-- How the calls answer. `fwrite` stops after as many bytes as its limit. -/
structure Oracle where
  opened : Bool
  headerLimit : Nat
  malloc : Nat → Option (List Byte)
  malloc_sized : ∀ {size block}, malloc size = some block → block.length = size
  rowLimit : Nat → Nat
  flushed : Bool
  synced : Bool
  closed : Bool
  renamed : Bool
  unlinked : Bool

/-- What has been written to the temporary file, its hash, and the row. -/
structure Job where
  stream : List Byte
  sha : Sha
  row : List Byte

/-- `fwrite` of the bytes and, when it took all of them, `asm2_sha256_update`. -/
def emit (limit : Nat) (job : Job) (data : List Byte) : Checked (Bool × Job) :=
  let count := min limit data.length
  let written := { job with stream := job.stream ++ data.take count }
  if count ≠ data.length then .ok (false, written)
  else do
    let sha ← inside (update job.sha data)
    return (true, { written with sha })

/-- `row[(size_t)x * 3u + channel] = source[(size_t)x * 4u + channel]` -/
def copyChannel (rgba : List Byte) (source x : Nat) (row : List Byte) (channel : Nat) :
    Checked (List Byte) := do
  let target ← sized (x * 3 + channel)
  let offset ← sized (x * 4 + channel)
  let value ← inside rgba[source + offset]?
  inside (put row target [value])

/-- The loop over the pixels of a row. -/
def fillRow (rgba : List Byte) (source width : Nat) (row : List Byte) : Checked (List Byte) :=
  (List.range width).foldlM
    (fun row x => (List.range 3).foldlM (copyChannel rgba source x) row) row

/-- The loop over the rows that are left; false when a write failed. -/
def writeRows (o : Oracle) (rgba : List Byte) (width height : Nat) :
    List Nat → Job → Checked (Bool × Job)
  | [], job => .ok (true, job)
  | output_y :: rest, job => do
    let source_y := height - output_y - 1
    let source ← sized (source_y * width * 4)
    let row ← fillRow rgba source width job.row
    let (complete, job) ← emit (o.rowLimit output_y) { job with row } row
    if complete then writeRows o rgba width height rest job else .ok (false, job)

inductive Errno where
  | nameTooLong
  | overflow
  deriving DecidableEq, Repr

/-- From the header to the last row. False with the errno that the function itself sets. -/
def writeContents (o : Oracle) (rgba : List Byte) (width height : Nat) :
    Checked (Bool × Option Errno × Job) := do
  let header := headerText width height
  let job : Job := ⟨[], init, []⟩
  if 64 ≤ header.length then return (false, some .overflow, job)
  let (complete, job) ← emit o.headerLimit job header
  if complete = false then return (false, none, job)
  let row_size ← sized (width * 3)
  match o.malloc row_size with
  | none => return (false, none, job)
  | some row =>
    let (complete, job) ← writeRows o rgba width height (List.range height) { job with row }
    return (complete, none, job)

/-- `snprintf(digest_hex + index * 2u, 3, "%02x", digest[index])` for every index, and the
terminator. -/
def writeDigest (digest : List Byte) (digest_hex : List Byte) : Checked (List Byte) := do
  let digest_hex ← (List.range 32).foldlM (fun digest_hex index => do
    let value ← inside digest[index]?
    inside (put digest_hex (index * 2) (hexByte value ++ [0]))) digest_hex
  inside (put digest_hex 64 [0])

/-- What the function returns, and what it has changed. -/
structure Result where
  result : Int
  errno : Option Errno
  disk : Disk
  digest_hex : List Byte
  written_size : Option Nat

/-- `asm2_capture_write_ppm` -/
def writePpm (o : Oracle) (output : Path) (pid : Nat) (disk : Disk) (rgba : List Byte)
    (width height : Nat) (digest_hex : List Byte) : Checked Result := do
  let temporary := temporaryPath output pid
  if 4096 ≤ temporary.length then return ⟨-1, some .nameTooLong, disk, digest_hex, none⟩
  if o.opened = false then return ⟨-1, none, disk, digest_hex, none⟩
  let (complete, errno, job) ← writeContents o rgba width height
  let disk := Function.update disk temporary (some job.stream)
  if complete && o.flushed && o.synced && o.closed && o.renamed then
    let disk := Function.update (Function.update disk output (disk temporary)) temporary none
    let digest ← inside (final job.sha)
    let digest_hex ← writeDigest digest digest_hex
    let written_size ← sized ((headerText width height).length + height * width * 3)
    return ⟨0, none, disk, digest_hex, some written_size⟩
  else
    let disk := if o.unlinked then Function.update disk temporary none else disk
    return ⟨-1, errno, disk, digest_hex, none⟩

end Writer

/-! ## The file that is meant -/

/-- The colours of a pixel, without its alpha. -/
def rgb (rgba : List Byte) (width y x : Nat) : List Byte :=
  (List.range 3).map fun channel => rgba.getD ((y * width + x) * 4 + channel) 0

def rgbRow (rgba : List Byte) (width y : Nat) : List Byte :=
  (List.range width).flatMap (rgb rgba width y)

/-- The P6 file of the image, its last row first. -/
def ppm (rgba : List Byte) (width height : Nat) : List Byte :=
  headerText width height ++ (List.range height).reverse.flatMap (rgbRow rgba width)

/-- Two rows of two pixels: red and green, above them blue and white. -/
def testImage : List Byte :=
  [255, 0, 0, 255, 0, 255, 0, 255, 0, 0, 255, 255, 255, 255, 255, 255]

example : ppm testImage 2 2 =
    ascii "P6\n2 2\n255\n" ++ [0, 0, 255, 255, 255, 255, 255, 0, 0, 0, 255, 0] := by
  decide +kernel

/-! ## The loops -/

section Loops

variable {rgba row : List Byte} {source width x : Nat}

@[simp] theorem ok_bind {α β : Type} (a : α) (k : α → Checked β) : (.ok a >>= k) = k a := rfl

theorem sized_eq {n : Nat} (h : n < 2 ^ 32) : sized n = .ok n := if_pos h

/-- One assignment writes the next byte of the row. -/
theorem copyChannel_eq {channel : Nat} (hsize : x * 4 + channel < 2 ^ 32)
    (hread : source + (x * 4 + channel) < rgba.length) (hroom : x * 3 + channel < row.length) :
    copyChannel rgba source x row channel =
      .ok (overwrite row (x * 3 + channel) [rgba.getD (source + (x * 4 + channel)) 0]) := by
  have hvalue : rgba[source + (x * 4 + channel)]? =
      some (rgba.getD (source + (x * 4 + channel)) 0) := by
    rw [List.getD_eq_getElem?_getD, List.getElem?_eq_getElem hread, Option.getD_some]
  have hput : put row (x * 3 + channel) [rgba.getD (source + (x * 4 + channel)) 0] = some _ :=
    put_eq hroom
  rw [copyChannel, sized_eq (by omega), sized_eq hsize]
  change (inside rgba[source + (x * 4 + channel)]? >>= fun value =>
    inside (put row (x * 3 + channel) [value])) = _
  rw [hvalue]
  exact congrArg inside hput

/-- The three assignments for a pixel. -/
theorem copyPixel_fills (hwidth : 4 * width < 2 ^ 32) (hread : source + 4 * width ≤ rgba.length)
    (hx : x < width) (hrow : row.length = 3 * width) :
    ∃ row', (List.range 3).foldlM (copyChannel rgba source x) row = .ok row' ∧
      row'.length = 3 * width ∧
      row'.take (0 + 3 * (x + 1)) = row.take (0 + 3 * x) ++
        (List.range 3).map fun channel => rgba.getD (source + (x * 4 + channel)) 0 := by
  have hstep : ∀ channel < 3, ∀ row : List Byte, row.length = 3 * width →
      ∃ row', copyChannel rgba source x row channel = .ok row' ∧ row'.length = 3 * width ∧
        row'.take (x * 3 + 1 * (channel + 1)) = row.take (x * 3 + 1 * channel) ++
          [rgba.getD (source + (x * 4 + channel)) 0] := by
    intro channel hchannel row hrow
    have hroom : x * 3 + channel < row.length := by omega
    refine ⟨_, copyChannel_eq (by omega) (by omega) hroom, ?_, ?_⟩
    · rw [overwrite_length hroom, hrow]
    · rw [Nat.one_mul, Nat.one_mul]
      exact overwrite_take hroom.le [_]
  obtain ⟨row', hrun, hlength, htake⟩ :=
    foldlM_range_fills _ _ (3 * width) (x * 3) 1 3 hstep hrow
  refine ⟨row', hrun, hlength, ?_⟩
  rw [show 0 + 3 * (x + 1) = x * 3 + 1 * 3 by omega, show 0 + 3 * x = x * 3 by omega, htake]
  rfl

/-- The row that is filled is the row of the image. -/
theorem fillRow_eq {y : Nat} (hwidth : 4 * width < 2 ^ 32)
    (hread : y * width * 4 + 4 * width ≤ rgba.length) (hrow : row.length = 3 * width) :
    fillRow rgba (y * width * 4) width row = .ok (rgbRow rgba width y) := by
  obtain ⟨row', hrun, hlength, htake⟩ := foldlM_range_fills _ _ (3 * width) 0 3 width
    (fun x hx row hrow => copyPixel_fills hwidth hread hx hrow) hrow
  rw [Nat.zero_add, List.take_of_length_le (Nat.le_of_eq hlength), List.take_zero,
    List.nil_append] at htake
  rw [fillRow, hrun, htake]
  refine congrArg Except.ok (List.flatMap_congr fun x _ => List.map_congr_left fun channel _ => ?_)
  rw [show y * width * 4 + (x * 4 + channel) = (y * width + x) * 4 + channel by omega]

theorem rgbRow_length (y : Nat) : (rgbRow rgba width y).length = 3 * width := by
  unfold rgbRow rgb
  rw [List.length_flatMap]
  simp [Nat.mul_comm]

end Loops

section Stream

variable {job : Job} {message : List Byte}

/-- The stream and the hash have taken the same bytes. -/
structure Emitted (job : Job) (message : List Byte) : Prop where
  stream : job.stream = message
  carries : Carries job.sha message
  counted : job.sha.bitCount = BitVec.ofNat 64 (8 * message.length)

theorem Emitted.with_row (h : Emitted job message) (row : List Byte) :
    Emitted { job with row } message :=
  ⟨h.stream, h.carries, h.counted⟩

/-- A write that is complete is also hashed. -/
theorem Emitted.emit (h : Emitted job message) (limit : Nat) (data : List Byte) :
    ∃ complete job', emit limit job data = .ok (complete, job') ∧ job'.row = job.row ∧
      (complete = true ↔ data.length ≤ limit) ∧
      (complete = true → Emitted job' (message ++ data)) := by
  unfold CapturePpm.emit
  by_cases hlimit : data.length ≤ limit
  · obtain ⟨sha, hupdate, hcarries, hcounted⟩ := updates_carry [data] h.carries h.counted
    rw [List.flatten_singleton] at hcarries hcounted
    have hsha : update job.sha data = some sha :=
      (bind_pure (update job.sha data)).symm.trans hupdate
    have htaken : data.take (min limit data.length) = data := by
      rw [Nat.min_eq_right hlimit, List.take_length]
    refine ⟨true, { job with stream := job.stream ++ data, sha }, ?_, rfl, iff_of_true rfl hlimit,
      fun _ => ⟨congrArg (· ++ data) h.stream, hcarries, hcounted⟩⟩
    dsimp only
    rw [if_neg (not_not.mpr (Nat.min_eq_right hlimit)), hsha, htaken]
    rfl
  · refine ⟨false, _, if_pos ?_, rfl, iff_of_false Bool.false_ne_true hlimit,
      fun hcomplete => absurd hcomplete Bool.false_ne_true⟩
    omega

variable {rgba : List Byte} {width height : Nat}

/-- The rows that are left are written in their order. -/
theorem writeRows_spec (o : Oracle) (hsize : 4 * (height * width) < 2 ^ 32)
    (hrgba : rgba.length = width * height * 4) (ys : List Nat) (hys : ∀ y ∈ ys, y < height)
    (h : Emitted job message) (hrow : job.row.length = 3 * width) :
    ∃ complete job', writeRows o rgba width height ys job = .ok (complete, job') ∧
      (complete = true ↔ ∀ y ∈ ys, 3 * width ≤ o.rowLimit y) ∧
      (complete = true →
        Emitted job' (message ++ ys.flatMap fun y => rgbRow rgba width (height - y - 1))) := by
  induction ys generalizing job message with
  | nil => exact ⟨true, job, rfl, by simp, fun _ => by simpa using h⟩
  | cons y ys ih =>
    have hy : y < height := hys y List.mem_cons_self
    have hinside : (height - y - 1) * width + width ≤ height * width := by
      rw [← Nat.succ_mul]
      exact Nat.mul_le_mul_right width (by omega)
    have hread : (height - y - 1) * width * 4 + 4 * width ≤ rgba.length := by
      rw [hrgba, Nat.mul_comm width height]
      omega
    have hfilled := fillRow_eq (by omega) hread hrow
    have hwidth : (rgbRow rgba width (height - y - 1)).length = 3 * width := rgbRow_length _
    obtain ⟨complete, next, hemit, hkeep, hlimit, hnext⟩ :=
      (h.with_row (rgbRow rgba width (height - y - 1))).emit (o.rowLimit y)
        (rgbRow rgba width (height - y - 1))
    rw [hwidth] at hlimit
    have hrun : writeRows o rgba width height (y :: ys) job =
        if complete then writeRows o rgba width height ys next else .ok (false, next) := by
      rw [writeRows]
      simp only [sized_eq (show (height - y - 1) * width * 4 < 2 ^ 32 by omega), ok_bind, hfilled,
        hemit]
    cases complete with
    | false =>
      refine ⟨false, next, hrun, iff_of_false Bool.false_ne_true fun hall => ?_,
        fun hcomplete => absurd hcomplete Bool.false_ne_true⟩
      exact Bool.false_ne_true (hlimit.mpr (hall y List.mem_cons_self))
    | true =>
      obtain ⟨complete', last, hrest, hlimits, hlast⟩ :=
        ih (fun y' hy' => hys y' (List.mem_cons_of_mem y hy')) (hnext rfl) (by rw [hkeep]; exact hwidth)
      refine ⟨complete', last, hrun.trans hrest, ?_, ?_⟩
      · rw [hlimits, List.forall_mem_cons, and_iff_right (hlimit.mp rfl)]
      · intro hcomplete
        rw [List.flatMap_cons, ← List.append_assoc]
        exact hlast hcomplete

end Stream

section Digest

theorem hexByte_length (b : Byte) : (hexByte b).length = 2 := rfl

theorem range_getD (bytes : List Byte) :
    (List.range bytes.length).map (fun index => bytes.getD index 0) = bytes := by
  refine List.ext_getElem (by simp) fun index _ hindex => ?_
  simp [List.getElem?_eq_getElem hindex]

/-- Each of the thirty-two rounds writes two digits, over the terminator of the one before. -/
theorem writeDigest_eq {digest digest_hex : List Byte} (hdigest : digest.length = 32)
    (hhex : digest_hex.length = 65) :
    writeDigest digest digest_hex = .ok (digest.flatMap hexByte ++ [0]) := by
  have hstep : ∀ index < 32, ∀ text : List Byte, text.length = 65 →
      ∃ text', (do
          let value ← inside digest[index]?
          inside (put text (index * 2) (hexByte value ++ [0])) : Checked (List Byte)) = .ok text' ∧
        text'.length = 65 ∧
        text'.take (0 + 2 * (index + 1)) = text.take (0 + 2 * index) ++
          hexByte (digest.getD index 0) := by
    intro index hindex text htext
    have hvalue : digest[index]? = some (digest.getD index 0) := by
      rw [List.getD_eq_getElem?_getD, List.getElem?_eq_getElem (by omega), Option.getD_some]
    have hroom : index * 2 + (hexByte (digest.getD index 0) ++ [0]).length ≤ text.length := by
      rw [List.length_append, hexByte_length, List.length_singleton]
      omega
    refine ⟨overwrite text (index * 2) (hexByte (digest.getD index 0) ++ [0]), ?_, ?_, ?_⟩
    · rw [hvalue]
      exact congrArg inside (put_eq hroom)
    · rw [overwrite_length hroom, htext]
    · have hwritten := overwrite_take (show index * 2 ≤ text.length by omega)
        (hexByte (digest.getD index 0) ++ [0])
      have hshort : (text.take (index * 2) ++ hexByte (digest.getD index 0)).length =
          2 * (index + 1) := by
        rw [List.length_append, List.length_take, hexByte_length]
        omega
      have hless : 2 * (index + 1) ≤ index * 2 + (hexByte (digest.getD index 0) ++ [0]).length := by
        rw [List.length_append, hexByte_length, List.length_singleton]
        omega
      rw [Nat.zero_add, Nat.zero_add, ← Nat.min_eq_left hless, ← List.take_take, hwritten,
        ← List.append_assoc, List.take_left' hshort, Nat.mul_comm 2 index]
  obtain ⟨text, hrun, hlength, htake⟩ := foldlM_range_fills _ _ 65 0 2 32 hstep hhex
  have hroom : 64 + ([0] : List Byte).length ≤ text.length := Nat.le_of_eq hlength.symm
  have hend := overwrite_take (show 64 ≤ text.length by omega) ([0] : List Byte)
  have hdigits : (List.range 32).flatMap (fun index => hexByte (digest.getD index 0)) =
      digest.flatMap hexByte := by
    conv_rhs => rw [← range_getD digest, hdigest, List.flatMap_map]
  rw [List.take_of_length_le (by rw [overwrite_length hroom]; exact Nat.le_of_eq hlength),
    show 64 = 0 + 2 * 32 from rfl, htake, hdigits, List.take_zero, List.nil_append] at hend
  rw [writeDigest, hrun, ok_bind, put_eq hroom]
  exact congrArg Except.ok hend

end Digest

section Contents

variable {width height : Nat}

theorem decimal_length_le {n : Nat} (h : n < 10 ^ 8) : (decimal n).length ≤ 8 := by
  rw [decimal, List.length_map]
  exact (Nat.length_toDigits_le_iff (by decide) (by decide)).mpr h

/-- The header of an image that the caller accepts is short. -/
theorem headerText_length_lt (hwidth : width < 10 ^ 8) (hheight : height < 10 ^ 8) :
    (headerText width height).length < 64 := by
  have hw := decimal_length_le hwidth
  have hh := decimal_length_le hheight
  have hstart : (ascii "P6\n").length = 3 := rfl
  have hblank : (ascii " ").length = 1 := rfl
  have hend : (ascii "\n255\n").length = 5 := rfl
  simp only [headerText, List.length_append, hstart, hblank, hend]
  omega

/-- The rows in the order of the loop. -/
theorem flatMap_reverse_range (row : Nat → List Byte) (height : Nat) :
    (List.range height).flatMap (fun y => row (height - y - 1)) =
      (List.range height).reverse.flatMap row := by
  have hreverse : (List.range height).reverse =
      (List.range height).map fun y => height - y - 1 := by
    refine List.ext_getElem (by simp) fun y hy _ => ?_
    rw [List.getElem_reverse, List.getElem_range, List.getElem_map, List.getElem_range,
      List.length_range]
    omega
  rw [hreverse, List.flatMap_map]

variable {rgba : List Byte}

/-- The writes that `writeContents` makes and the allocation of the row succeed. -/
def Completes (o : Oracle) (width height : Nat) : Prop :=
  (headerText width height).length ≤ o.headerLimit ∧ o.malloc (width * 3) ≠ none ∧
    ∀ y < height, 3 * width ≤ o.rowLimit y

theorem init_emitted : Emitted ⟨[], init, []⟩ [] := ⟨rfl, init_carries, rfl⟩

/-- From the header to the last row. -/
theorem writeContents_spec (o : Oracle) (hheight : 0 < height)
    (hheader : (headerText width height).length < 64) (hsize : 4 * (height * width) < 2 ^ 32)
    (hrgba : rgba.length = width * height * 4) :
    ∃ complete errno job, writeContents o rgba width height = .ok (complete, errno, job) ∧
      (complete = true ↔ Completes o width height) ∧
      (complete = true → Emitted job (ppm rgba width height)) := by
  obtain ⟨complete, job, hemit, -, hlimit, hjob⟩ :=
    init_emitted.emit o.headerLimit (headerText width height)
  have hwidth : width ≤ height * width := Nat.le_mul_of_pos_left width hheight
  rw [writeContents]
  simp only [if_neg (Nat.not_le.mpr hheader), ok_bind, hemit]
  cases complete with
  | false =>
    refine ⟨false, none, job, rfl, iff_of_false Bool.false_ne_true fun hall => ?_,
      fun hcomplete => absurd hcomplete Bool.false_ne_true⟩
    exact Bool.false_ne_true (hlimit.mpr hall.1)
  | true =>
    rw [if_neg (fun h => Bool.false_ne_true h.symm), sized_eq (by omega), ok_bind]
    cases hrow : o.malloc (width * 3) with
    | none =>
      refine ⟨false, none, job, rfl, iff_of_false Bool.false_ne_true fun hall => hall.2.1 hrow,
        fun hcomplete => absurd hcomplete Bool.false_ne_true⟩
    | some row =>
      obtain ⟨complete, last, hrows, hlimits, hlast⟩ := writeRows_spec o hsize hrgba
        (List.range height) (fun y hy => List.mem_range.mp hy) ((hjob rfl).with_row row)
        ((o.malloc_sized hrow).trans (Nat.mul_comm width 3))
      dsimp only
      rw [hrows, ok_bind]
      refine ⟨complete, none, last, rfl, ?_, fun hcomplete => ?_⟩
      · simp only [hlimits, Completes, hlimit.mp rfl, hrow, List.mem_range, ne_eq, reduceCtorEq,
          not_false_eq_true, true_and]
      · rw [ppm, ← flatMap_reverse_range]
        exact hlast hcomplete

end Contents

/-! ## The file, or nothing -/

section Correct

/-- The name is too long or a call fails. -/
def Fails (o : Oracle) (output : Path) (pid width height : Nat) : Prop :=
  4096 ≤ (temporaryPath output pid).length ∨ o.opened = false ∨ ¬ Completes o width height ∨
    o.flushed = false ∨ o.synced = false ∨ o.closed = false ∨ o.renamed = false

/-- The hexadecimal SHA-256 of a message, with its terminator. -/
def HexDigest (digest_hex message : List Byte) : Prop :=
  ∃ digest : List Byte, digest.length = 32 ∧ bits digest = Sha256.sha256 (bits message) ∧
    digest_hex = digest.flatMap hexByte ++ [0]

/-- The file stands at the output path, the temporary one is gone and nothing else has changed;
the digest and the size are those of the file. -/
structure Written (file : List Byte) (output temporary : Path) (disk : Disk) (r : Result) :
    Prop where
  disk : r.disk = Function.update (Function.update disk output (some file)) temporary none
  digest : HexDigest r.digest_hex file
  size : r.written_size = some file.length

/-- Nothing has changed but the temporary file, and that is gone if it was opened and unlink
succeeds. -/
structure Untouched (o : Oracle) (output temporary : Path) (disk : Disk) (r : Result) : Prop where
  previous : r.disk output = disk output
  others : ∀ path, path ≠ temporary → r.disk path = disk path
  unopened : 4096 ≤ temporary.length ∨ o.opened = false → r.disk = disk
  removed : temporary.length < 4096 → o.opened = true → o.unlinked = true →
    r.disk temporary = none

theorem output_ne_temporary (output : Path) (pid : Nat) : output ≠ temporaryPath output pid := by
  intro hsame
  have hlength := congrArg List.length hsame
  have hmark : (ascii ".part.").length = 6 := rfl
  rw [temporaryPath, List.length_append, List.length_append, hmark] at hlength
  omega

theorem ppm_length (rgba : List Byte) (width height : Nat) :
    (ppm rgba width height).length = (headerText width height).length + height * width * 3 := by
  rw [ppm, List.length_append, List.length_flatMap]
  simp only [rgbRow_length, List.map_const', List.sum_replicate_nat, List.length_reverse,
    List.length_range]
  rw [Nat.mul_assoc, Nat.mul_comm 3]

variable {o : Oracle} {output : Path} {pid : Nat} {disk : Disk} {rgba digest_hex : List Byte}
variable {width height : Nat}

/-- A call that fails before the temporary file is opened. -/
theorem untouched_of_unopened {errno : Option Errno}
    (h : 4096 ≤ (temporaryPath output pid).length ∨ o.opened = false) :
    Untouched o output (temporaryPath output pid) disk ⟨-1, errno, disk, digest_hex, none⟩ where
  previous := rfl
  others _ _ := rfl
  unopened _ := rfl
  removed hshort hopened := by
    rw [hopened] at h
    cases h with
    | inl hlong => omega
    | inr hclosed => cases hclosed

/-- A call that fails after it, whatever the temporary file holds. -/
theorem untouched_of_opened {errno : Option Errno} {contents : List Byte}
    (hshort : (temporaryPath output pid).length < 4096) (hopened : o.opened = true) :
    Untouched o output (temporaryPath output pid) disk
      ⟨-1, errno, if o.unlinked then
        Function.update (Function.update disk (temporaryPath output pid) (some contents))
          (temporaryPath output pid) none
        else Function.update disk (temporaryPath output pid) (some contents), digest_hex, none⟩ := by
  have hothers : ∀ path, path ≠ temporaryPath output pid →
      (if o.unlinked then
        Function.update (Function.update disk (temporaryPath output pid) (some contents))
          (temporaryPath output pid) none
        else Function.update disk (temporaryPath output pid) (some contents)) path = disk path := by
    intro path hpath
    split <;> simp [Function.update_of_ne hpath]
  refine ⟨hothers output (output_ne_temporary output pid), hothers, fun h => ?_,
    fun _ _ hunlinked => ?_⟩
  · rw [hopened] at h
    cases h with
    | inl hlong => omega
    | inr hclosed => cases hclosed
  · dsimp only
    rw [if_pos hunlinked, Function.update_self]

/-- The disk after the temporary file was written and renamed. -/
def renamed (disk : Disk) (output temporary : Path) (contents : List Byte) : Disk :=
  let disk := Function.update disk temporary (some contents)
  Function.update (Function.update disk output (disk temporary)) temporary none

theorem renamed_eq (temporary : Path) (contents : List Byte) :
    renamed disk output temporary contents =
      Function.update (Function.update disk output (some contents)) temporary none := by
  funext path
  unfold renamed
  by_cases htemporary : path = temporary
  · rw [htemporary, Function.update_self, Function.update_self]
  · rw [Function.update_of_ne htemporary, Function.update_of_ne htemporary, Function.update_self]
    by_cases houtput : path = output
    · rw [houtput, Function.update_self, Function.update_self]
    · rw [Function.update_of_ne houtput, Function.update_of_ne houtput,
        Function.update_of_ne htemporary]

/-- A digest of the whole file is written after the rename. -/
theorem written_of_emitted (disk : Disk) {job : Job} (hjob : Emitted job (ppm rgba width height))
    (hhex : digest_hex.length = 65)
    (hsize : (headerText width height).length + height * width * 3 < 2 ^ 32) :
    ∃ r : Result, (do
        let digest ← inside (final job.sha)
        let digest_hex ← writeDigest digest digest_hex
        let written_size ← sized ((headerText width height).length + height * width * 3)
        return ⟨0, none, disk, digest_hex, some written_size⟩ : Checked Result) = .ok r ∧
      r.result = 0 ∧ r.disk = disk ∧ HexDigest r.digest_hex (ppm rgba width height) ∧
      r.written_size = some (ppm rgba width height).length := by
  obtain ⟨digest, hfinal, hlength, hbits⟩ := final_spec hjob.carries hjob.counted
  rw [hfinal]
  simp only [inside, ok_bind, writeDigest_eq hlength hhex, sized_eq hsize]
  exact ⟨_, rfl, rfl, rfl, ⟨digest, hlength, hbits, rfl⟩,
    congrArg some (ppm_length rgba width height).symm⟩

/-- The function writes the whole file, or it leaves what was there. -/
theorem writePpm_correct (o : Oracle) (output : Path) (pid : Nat) (disk : Disk)
    (rgba digest_hex : List Byte) (width height : Nat) (hwidth : 0 < width)
    (hheight : 0 < height) (hpixels : width * height ≤ 4096 * 4096)
    (hrgba : rgba.length = width * height * 4) (hhex : digest_hex.length = 65) :
    ∃ r, writePpm o output pid disk rgba width height digest_hex = .ok r ∧
      ((r.result = 0 ∧ ¬ Fails o output pid width height ∧
          Written (ppm rgba width height) output (temporaryPath output pid) disk r) ∨
        (r.result = -1 ∧ Fails o output pid width height ∧
          Untouched o output (temporaryPath output pid) disk r)) := by
  have hwide : width ≤ width * height := Nat.le_mul_of_pos_right width hheight
  have hhigh : height ≤ width * height := Nat.le_mul_of_pos_left height hwidth
  have hheader : (headerText width height).length < 64 :=
    headerText_length_lt (by omega) (by omega)
  have hproduct : height * width = width * height := Nat.mul_comm height width
  obtain ⟨complete, errno, job, hcontents, hcomplete, hjob⟩ :=
    writeContents_spec o hheight hheader (by omega) hrgba
  rw [writePpm]
  by_cases hname : 4096 ≤ (temporaryPath output pid).length
  · rw [if_pos hname]
    exact ⟨_, rfl, .inr ⟨rfl, .inl hname, untouched_of_unopened (.inl hname)⟩⟩
  · rw [if_neg hname]
    by_cases hopened : o.opened = false
    · rw [if_pos hopened]
      exact ⟨_, rfl, .inr ⟨rfl, .inr (.inl hopened), untouched_of_unopened (.inr hopened)⟩⟩
    · rw [if_neg hopened, hcontents, ok_bind]
      dsimp only
      by_cases hall : (complete && o.flushed && o.synced && o.closed && o.renamed) = true
      · rw [if_pos hall]
        simp only [Bool.and_eq_true] at hall
        obtain ⟨⟨⟨⟨hdone, hflushed⟩, hsynced⟩, hclosed⟩, hrenamed⟩ := hall
        obtain ⟨r, hrun, hresult, hdisk, hdigest, hsize⟩ := written_of_emitted
          (renamed disk output (temporaryPath output pid) job.stream) (hjob hdone) hhex (by omega)
        refine ⟨r, hrun, .inl ⟨hresult, ?_, ⟨?_, hdigest, hsize⟩⟩⟩
        · rintro (hlong | hshut | hcalls | h | h | h | h)
          · exact hname hlong
          · exact hopened hshut
          · exact hcalls (hcomplete.mp hdone)
          · exact absurd (hflushed.symm.trans h) Bool.false_ne_true.symm
          · exact absurd (hsynced.symm.trans h) Bool.false_ne_true.symm
          · exact absurd (hclosed.symm.trans h) Bool.false_ne_true.symm
          · exact absurd (hrenamed.symm.trans h) Bool.false_ne_true.symm
        · rw [hdisk, renamed_eq, (hjob hdone).stream]
      · rw [if_neg hall]
        refine ⟨_, rfl, .inr ⟨rfl, ?_, untouched_of_opened (by omega) (by simpa using hopened)⟩⟩
        refine .inr (.inr ?_)
        by_contra hnone
        simp only [not_or, not_not, Bool.not_eq_false] at hnone
        obtain ⟨hdone, hflushed, hsynced, hclosed, hrenamed⟩ := hnone
        exact hall (by rw [hcomplete.mpr hdone, hflushed, hsynced, hclosed, hrenamed]; rfl)

/-- Every call succeeds. -/
def plainOracle : Oracle where
  opened := true
  headerLimit := 64
  malloc size := some (List.replicate size 0)
  malloc_sized h := by
    obtain rfl := Option.some.inj h
    exact List.length_replicate
  rowLimit _ := 64
  flushed := true
  synced := true
  closed := true
  renamed := true
  unlinked := true

theorem plainOracle_not_fails : ¬ Fails plainOracle (ascii "/tmp/frame.ppm") 7 2 2 := by
  rintro (hlong | hshut | hcalls | h | h | h | h)
  · exact absurd hlong (by decide)
  · cases hshut
  · exact hcalls ⟨by decide, (fun h => nomatch h), by decide⟩
  all_goals cases h

theorem writePpm_correct_plain :
    ∃ r, writePpm plainOracle (ascii "/tmp/frame.ppm") 7 (fun _ => none) testImage 2 2
        (List.replicate 65 0) = .ok r ∧ r.result = 0 ∧
      Written (ppm testImage 2 2) (ascii "/tmp/frame.ppm")
        (temporaryPath (ascii "/tmp/frame.ppm") 7) (fun _ => none) r := by
  obtain ⟨r, hrun, ⟨hresult, -, hwritten⟩ | ⟨-, hfails, -⟩⟩ :=
    writePpm_correct plainOracle (ascii "/tmp/frame.ppm") 7 (fun _ => none) testImage
      (List.replicate 65 0) 2 2 (by decide) (by decide) (by decide) (by decide) (by decide)
  · exact ⟨r, hrun, hresult, hwritten⟩
  · exact absurd hfails plainOracle_not_fails

end Correct

end Asm2Runtime.CapturePpm
