import Asm2Runtime.DeflateRepair
import Asm2Runtime.PayloadPlan
import Asm2Runtime.PayloadTransaction
import Mathlib.Logic.Relation

/-!
# Extracting the payload in nxextract.py

Each item of a plan is written to a temporary file beside its destination, which is then
renamed. A later attempt leaves alone what it finds valid in the stage. An attempt ends
behind any operation: the process is killed, or an exception runs the `finally` clause.
-/

namespace Asm2Runtime.PayloadExtract

open RelativePath PayloadPlan

section Stage

/-- The parts of a path below the stage. -/
abbrev Place := List Text

/-- `mode` is what `os.chmod` has set. -/
inductive Node where
  | directory
  | file (bytes : List UInt8) (mode : Option Int)
  deriving DecidableEq, Repr

abbrev Stage := Place → Option Node

inductive Operation where
  | makeDirectory (place : Place)
  | unlink (place : Place)
  | create (place : Place)
  | append (place : Place) (block : List UInt8)
  | replace (source destination : Place)
  | changeMode (place : Place) (mode : Int)
  deriving DecidableEq, Repr

def Stage.put (s : Stage) (place : Place) (node : Option Node) : Stage :=
  fun p => if p = place then node else s p

/-- What an operation does that raises nothing. -/
def Stage.apply (s : Stage) : Operation → Stage
  | .makeDirectory place => s.put place (some .directory)
  | .unlink place => s.put place none
  | .create place => s.put place (some (.file [] none))
  | .append place block =>
    match s place with
    | some (.file bytes mode) => s.put place (some (.file (bytes ++ block) mode))
    | _ => s
  | .replace source destination => (s.put destination (s source)).put source none
  | .changeMode place mode =>
    match s place with
    | some (.file bytes _) => s.put place (some (.file bytes (some mode)))
    | _ => s

def Stage.run (s : Stage) (ops : List Operation) : Stage := ops.foldl Stage.apply s

@[simp] theorem put_same (s : Stage) (p : Place) (n : Option Node) : s.put p n p = n := by
  simp [Stage.put]

theorem put_other {s : Stage} {p q : Place} {n : Option Node} (h : q ≠ p) :
    s.put p n q = s q := by
  simp [Stage.put, h]

@[simp] theorem run_nil (s : Stage) : s.run [] = s := rfl

@[simp] theorem run_cons (s : Stage) (op : Operation) (ops : List Operation) :
    s.run (op :: ops) = (s.apply op).run ops := rfl

theorem run_append (s : Stage) (first second : List Operation) :
    s.run (first ++ second) = (s.run first).run second :=
  List.foldl_append

end Stage

section Copy

/-- `binascii.crc32(block, crc)` -/
def crc32 (block : List UInt8) (crc : BitVec 32) : BitVec 32 :=
  ~~~ CrcRegister.feeds 0xedb88320#32 8 (~~~ crc)
    (block.map fun byte => byte.toBitVec.zeroExtend 32)

theorem crc32_append (first second : List UInt8) (crc : BitVec 32) :
    crc32 (first ++ second) crc = crc32 second (crc32 first crc) := by
  simp [crc32, CrcRegister.feeds_append]

theorem crc32_blocks (blocks : List (List UInt8)) (crc : BitVec 32) :
    blocks.foldl (fun crc block => crc32 block crc) crc = crc32 blocks.flatten crc := by
  induction blocks generalizing crc with
  | nil => simp [crc32, CrcRegister.feeds]
  | cons block blocks ih => rw [List.foldl_cons, ih, List.flatten_cons, crc32_append]

theorem length_blocks (blocks : List (List UInt8)) (written : Nat) :
    blocks.foldl (fun written block => written + block.length) written =
      written + blocks.flatten.length := by
  induction blocks generalizing written with
  | nil => rfl
  | cons block blocks ih =>
    rw [List.foldl_cons, ih, List.flatten_cons, List.length_append, Nat.add_assoc]

/-- `mode` of a rule, as `int(str(mode), 8)` reads it. -/
inductive RuleMode where
  | absent
  | notOctal
  | octal (value : Int)
  deriving DecidableEq, Repr

/-- What the attempts find outside the stage: the blocks that reading an item gives, whether a
loose file still passes the rule's validation, and the rules' modes. -/
structure Inputs where
  blocks : SourceItem → List (List UInt8)
  looseValid : SourceItem → Bool
  mode : Text → RuleMode
  sha256 : List UInt8 → List UInt8

inductive ExtractFailure where
  | path (failure : PathFailure)
  /-- an `OSError`: a file where a directory has to be, or a directory where a file has to be -/
  | occupied (place : Place)
  /-- "short extraction for %s (%d/%d bytes)" -/
  | short (sourceName : Text) (written size : Nat)
  /-- "CRC mismatch while extracting %s" -/
  | crcMismatch (sourceName : Text)
  /-- "extract %s mode must be octal" -/
  | modeNotOctal (ruleId : Text)
  /-- "extract %s mode is out of range" -/
  | modeOutOfRange (ruleId : Text)
  deriving DecidableEq, Repr

/-- The operations of a run, and the exception that ends it, if one does. -/
structure Outcome where
  ops : List Operation
  failure : Option ExtractFailure
  deriving DecidableEq, Repr

def Outcome.andThen (first : Outcome) (next : Outcome) : Outcome :=
  match first.failure with
  | some _ => first
  | none => ⟨first.ops ++ next.ops, next.failure⟩

variable (inputs : Inputs)

def Inputs.contents (item : SourceItem) : List UInt8 := (inputs.blocks item).flatten

def place (item : SourceItem) : Place := split item.destination

/-- `destination + ".nxpart"` -/
def temporary (item : SourceItem) : Place := split (item.destination ++ ".nxpart".toList)

/-- `os.path.dirname` of a place and what lies above it. -/
def parents (p : Place) : List Place := p.dropLast.inits.filter fun q => q ≠ []

/-- `_resume_item_valid` -/
def resumeItemValid (item : SourceItem) (s : Stage) : Bool :=
  match s (place item) with
  | some (.file bytes _) =>
    if bytes.length ≠ item.size then false
    else
      match item.crc with
      | some crc => (crc32 bytes 0).toNat = crc
      | none => inputs.looseValid item ∧ inputs.sha256 bytes = inputs.sha256 (inputs.contents item)
  | _ => false

/-- The directories made for an item, and its bytes on their way to the temporary file. -/
def writeItem (item : SourceItem) (s : Stage) : List Operation :=
  ((parents (place item)).filter fun p => s p = none).map .makeDirectory ++
    .unlink (temporary item) :: .create (temporary item) ::
      (inputs.blocks item).map (.append (temporary item))

/-- The checks behind the bytes, and the rename. -/
def checkItem (item : SourceItem) : Option ExtractFailure :=
  let written := (inputs.blocks item).foldl (fun written block => written + block.length) 0
  let crc := (inputs.blocks item).foldl (fun crc block => crc32 block crc) 0
  if written ≠ item.size then some (.short item.sourceName written item.size)
  else if item.crc.any (fun expected => crc.toNat ≠ expected) then
    some (.crcMismatch item.sourceName)
  else none

/-- `_copy_item` -/
def copyItem (item : SourceItem) (s : Stage) : Outcome :=
  if (parents (place item)).any fun p => s p ≠ none ∧ s p ≠ some .directory then
    ⟨[], some (.occupied (place item))⟩
  else if s (temporary item) = some .directory then
    ⟨((parents (place item)).filter fun p => s p = none).map .makeDirectory,
      some (.occupied (temporary item))⟩
  else
    match checkItem inputs item with
    | some failure => ⟨writeItem inputs item s ++ [.unlink (temporary item)], some failure⟩
    | none =>
      if s (place item) = some .directory then
        ⟨writeItem inputs item s ++ [.unlink (temporary item)], some (.occupied (place item))⟩
      else
        -- the `finally` clause finds no temporary file any more
        ⟨writeItem inputs item s ++ [.replace (temporary item) (place item),
          .unlink (temporary item)], none⟩

/-- The mode of an item's rule, set behind its copy -/
def setMode (item : SourceItem) : Outcome :=
  match inputs.mode item.ruleId with
  | .absent => ⟨[], none⟩
  | .notOctal => ⟨[], some (.modeNotOctal item.ruleId)⟩
  | .octal value =>
    if value < 0 ∨ 0o777 < value then ⟨[], some (.modeOutOfRange item.ruleId)⟩
    else ⟨[.changeMode (place item) value], none⟩

/-- A turn of the second loop of `extract_plan` for an item that is not valid -/
def turn (item : SourceItem) (s : Stage) : Outcome :=
  (copyItem inputs item s).andThen (setMode inputs item)

/-- The second loop of `extract_plan` -/
def extractItems : List SourceItem → Stage → Outcome
  | [], _ => ⟨[], none⟩
  | item :: rest, s =>
    if resumeItemValid inputs item s then extractItems rest s
    else (turn inputs item s).andThen (extractItems rest (s.run (turn inputs item s).ops))

/-- The destinations that the first loop of `extract_plan` accepts. -/
def stageDestinations (plan : Plan) : Except PathFailure (List Place) :=
  plan.items.mapM fun item => safeJoin [] "stage destination".toList item.destination

/-- `extract_plan`, the stage being a directory -/
def extractPlan (plan : Plan) (s : Stage) : Outcome :=
  match stageDestinations plan with
  | .error failure => ⟨[], some (.path failure)⟩
  | .ok _ => extractItems inputs plan.items s

/-- How an attempt can end: behind any of its operations, when it is killed, or by an exception
in the copy of an item, whose `finally` removes the temporary file. -/
inductive Attempt (plan : Plan) (s : Stage) : Stage → Prop where
  | killed {ops : List Operation} (h : ops <+: (extractPlan inputs plan s).ops) :
    Attempt plan s (s.run ops)
  | raised {places : List Place} {before rest : List SourceItem} {item : SourceItem}
    {ops : List Operation} {t : Stage} (hplaces : stageDestinations plan = .ok places)
    (hitems : plan.items = before ++ item :: rest)
    (hbefore : (extractItems inputs before s).failure = none)
    (ht : t = s.run (extractItems inputs before s).ops)
    (hinvalid : resumeItemValid inputs item t = false)
    (hops : ops <+: (copyItem inputs item t).ops) :
    Attempt plan s (t.run (ops ++ [.unlink (temporary item)]))

end Copy

section Separate

/-- No destination is above another or above the temporary file of one, nor is a temporary file
above a destination or at it. -/
structure Separate (items : List SourceItem) : Prop where
  nodup : items.Nodup
  above : ∀ i ∈ items, ∀ j ∈ items, place i <+: place j → i = j
  temporaries : ∀ i ∈ items, ∀ j ∈ items, ¬temporary i <+: place j

theorem mem_parents {p q : Place} : q ∈ parents p ↔ q <+: p.dropLast ∧ q ≠ [] := by
  simp [parents]

theorem parents_above {p q : Place} (h : q ∈ parents p) : q <+: p :=
  (mem_parents.mp h).1.trans (List.dropLast_prefix p)

theorem not_mem_parents (p : Place) : p ∉ parents p := by
  intro h
  obtain ⟨hstart, hne⟩ := mem_parents.mp h
  have hlength := hstart.length_le
  have hpos := List.length_pos_of_ne_nil hne
  rw [List.length_dropLast] at hlength
  omega

/-- A suffix without a slash lengthens the last part. -/
theorem split_suffix (v : Text) {w : Text} (hw : '/' ∉ w) :
    ∃ dirs last, split v = dirs ++ [last] ∧ split (v ++ w) = dirs ++ [last ++ w] := by
  induction v with
  | nil => exact ⟨[], [], rfl, List.splitOn_eq_singleton hw⟩
  | cons c v ih =>
    obtain ⟨dirs, last, hv, hvw⟩ := ih
    rw [split] at hv hvw
    rw [List.cons_append, split, split, List.splitOn_cons_eq_if_modifyHead,
      List.splitOn_cons_eq_if_modifyHead, hv, hvw]
    cases hc : c == '/' with
    | true => exact ⟨[] :: dirs, last, rfl, rfl⟩
    | false =>
      cases dirs with
      | nil => exact ⟨[], c :: last, rfl, rfl⟩
      | cons d dirs => exact ⟨(c :: d) :: dirs, last, rfl, rfl⟩

variable {items : List SourceItem} {i j : SourceItem}

theorem temporary_beside (i : SourceItem) : ∃ dirs last, place i = dirs ++ [last] ∧
    temporary i = dirs ++ [last ++ ".nxpart".toList] :=
  split_suffix i.destination (by decide)

theorem temporary_injective (h : temporary i = temporary j) : place i = place j := by
  obtain ⟨dirs, last, hi, hti⟩ := temporary_beside i
  obtain ⟨dirs', last', hj, htj⟩ := temporary_beside j
  rw [hti, htj] at h
  obtain ⟨rfl, hlast⟩ := List.append_inj' h rfl
  obtain rfl : last = last' := List.append_left_injective _ (List.singleton_inj.mp hlast)
  rw [hi, hj]

theorem temporary_ne_place (i : SourceItem) : temporary i ≠ place i := by
  obtain ⟨dirs, last, hplace, htemporary⟩ := temporary_beside i
  rw [hplace, htemporary]
  intro h
  have hlast := congrArg List.length (List.singleton_inj.mp (List.append_cancel_left h))
  simp at hlast

theorem temporary_not_mem_parents (i : SourceItem) : temporary i ∉ parents (place i) := by
  obtain ⟨dirs, last, hplace, htemporary⟩ := temporary_beside i
  intro h
  have hlength := (mem_parents.mp h).1.length_le
  rw [hplace, htemporary, List.dropLast_concat, List.length_append, List.length_singleton] at hlength
  omega

namespace Separate

variable (h : Separate items) (hi : i ∈ items) (hj : j ∈ items)
include h hi hj

theorem place_not_parent : place i ∉ parents (place j) := by
  intro hparent
  obtain rfl := h.above i hi j hj (parents_above hparent)
  exact not_mem_parents _ hparent

theorem temporary_not_parent : temporary i ∉ parents (place j) :=
  fun hparent => h.temporaries i hi j hj (parents_above hparent)

theorem temporary_not_place : temporary i ≠ place j :=
  fun hsame => h.temporaries i hi j hj (hsame ▸ List.prefix_rfl)

theorem temporaries_apart (hne : i ≠ j) : temporary i ≠ temporary j :=
  fun hsame => hne (h.above i hi j hj (temporary_injective hsame ▸ List.prefix_rfl))

theorem places_apart (hne : i ≠ j) : place i ≠ place j :=
  fun hsame => hne (h.above i hi j hj (hsame ▸ List.prefix_rfl))

end Separate

end Separate

section Turns

variable {inputs : Inputs} {i : SourceItem} {s t : Stage} {op : Operation} {ops : List Operation}

/-- A turn changes its own item's places only, and makes directories where nothing was. -/
structure Beside (i : SourceItem) (s t : Stage) : Prop where
  others : ∀ p, p ≠ place i → p ≠ temporary i → p ∉ parents (place i) → t p = s p
  above : ∀ p ∈ parents (place i), t p = s p ∨ s p = none ∧ t p = some .directory

theorem Beside.refl (i : SourceItem) (s : Stage) : Beside i s s :=
  ⟨fun _ _ _ _ => rfl, fun _ _ => .inl rfl⟩

/-- The item's own places are not looked at. -/
theorem Beside.put {p : Place} {n : Option Node} (h : Beside i s t)
    (hp : p = place i ∨ p = temporary i) : Beside i s (t.put p n) := by
  constructor
  · intro q hplace htemporary hparent
    have hne : q ≠ p := by
      rcases hp with rfl | rfl <;> assumption
    rw [put_other hne]
    exact h.others q hplace htemporary hparent
  · intro q hq
    have hne : q ≠ p := by
      rintro rfl
      rcases hp with rfl | rfl
      · exact not_mem_parents _ hq
      · exact temporary_not_mem_parents i hq
    rw [put_other hne]
    exact h.above q hq

/-- Operations in front of the rename. -/
inductive Writes (i : SourceItem) (s : Stage) : Operation → Prop where
  | makeDirectory {p : Place} (hp : p ∈ parents (place i)) (hnone : s p = none) :
    Writes i s (.makeDirectory p)
  | unlink : Writes i s (.unlink (temporary i))
  | create : Writes i s (.create (temporary i))
  | append (block : List UInt8) : Writes i s (.append (temporary i) block)

/-- In front of the rename only the temporary file has changed. -/
structure Writing (i : SourceItem) (s t : Stage) : Prop extends Beside i s t where
  kept : t (place i) = s (place i)
  unfinished : t (temporary i) = s (temporary i) ∨ t (temporary i) ≠ some .directory

theorem Writing.refl (i : SourceItem) (s : Stage) : Writing i s s :=
  ⟨.refl i s, rfl, .inl rfl⟩

theorem Writing.put {n : Option Node} (h : Writing i s t) (hn : n ≠ some .directory) :
    Writing i s (t.put (temporary i) n) := by
  refine ⟨h.toBeside.put (.inr rfl), ?_, .inr (by rwa [put_same])⟩
  rw [put_other (temporary_ne_place i).symm]
  exact h.kept

theorem Writing.apply (h : Writing i s t) (hop : Writes i s op) : Writing i s (t.apply op) := by
  cases hop with
  | makeDirectory hp hnone =>
    refine ⟨⟨?_, ?_⟩, ?_, ?_⟩
    · intro q hplace htemporary hparent
      rw [Stage.apply, put_other]
      · exact h.others q hplace htemporary hparent
      · rintro rfl
        exact hparent hp
    · intro q hq
      rw [Stage.apply, Stage.put]
      split
      · next hsame => exact .inr ⟨hsame ▸ hnone, rfl⟩
      · exact h.above q hq
    · rw [Stage.apply, put_other]
      · exact h.kept
      · rintro rfl
        exact not_mem_parents _ hp
    · rw [Stage.apply, put_other]
      · exact h.unfinished
      · rintro rfl
        exact temporary_not_mem_parents i hp
  | unlink => exact h.put nofun
  | create => exact h.put nofun
  | append block =>
    rw [Stage.apply]
    split
    · exact h.put nofun
    · exact h

theorem Writing.run (h : Writing i s t) (hops : ∀ op ∈ ops, Writes i s op) :
    Writing i s (t.run ops) := by
  induction ops generalizing t with
  | nil => exact h
  | cons op ops ih =>
    exact ih (h.apply (hops op List.mem_cons_self)) fun op hop => hops op (List.mem_cons_of_mem _ hop)

theorem directories_write (i : SourceItem) (s : Stage) :
    ∀ op ∈ ((parents (place i)).filter fun p => s p = none).map .makeDirectory, Writes i s op := by
  intro op hop
  obtain ⟨p, hp, rfl⟩ := List.mem_map.mp hop
  obtain ⟨hparent, hnone⟩ := List.mem_filter.mp hp
  exact .makeDirectory hparent (of_decide_eq_true hnone)

theorem writeItem_writes (inputs : Inputs) (i : SourceItem) (s : Stage) :
    ∀ op ∈ writeItem inputs i s, Writes i s op := by
  intro op hop
  rcases List.mem_append.mp hop with hop | hop
  · exact directories_write i s op hop
  · rcases List.mem_cons.mp hop with rfl | hop
    · exact .unlink
    · rcases List.mem_cons.mp hop with rfl | hop
      · exact .create
      · obtain ⟨block, -, rfl⟩ := List.mem_map.mp hop
        exact .append block

theorem appends_run {p : Place} {bytes : List UInt8} {mode : Option Int}
    (blocks : List (List UInt8)) (h : t p = some (.file bytes mode)) :
    t.run (blocks.map (.append p)) p = some (.file (bytes ++ blocks.flatten) mode) := by
  induction blocks generalizing t bytes with
  | nil => simpa using h
  | cons block blocks ih =>
    have hput : t.apply (.append p block) p = some (.file (bytes ++ block) mode) := by
      simp [Stage.apply, h]
    rw [List.map_cons, run_cons, ih hput, List.flatten_cons, List.append_assoc]

/-- All of an item is in its temporary file. -/
theorem writeItem_run (inputs : Inputs) (i : SourceItem) (s : Stage) :
    s.run (writeItem inputs i s) (temporary i) = some (.file (inputs.contents i) none) := by
  rw [writeItem, run_append, run_cons, run_cons]
  exact appends_run (inputs.blocks i) (put_same _ _ _)

theorem checkItem_iff : checkItem inputs i = none ↔
    (inputs.contents i).length = i.size ∧
      ∀ crc, i.crc = some crc → (crc32 (inputs.contents i) 0).toNat = crc := by
  rw [checkItem, crc32_blocks, length_blocks, Nat.zero_add]
  show (if (inputs.contents i).length ≠ i.size then _ else
    if i.crc.any (fun expected => (crc32 (inputs.contents i) 0).toNat ≠ expected) then _ else _) =
      none ↔ _
  cases hcrc : i.crc with
  | none => simp
  | some crc =>
    by_cases hsize : (inputs.contents i).length = i.size
    · simp [hsize]
    · simp [hsize]

/-- The mode that a rule gives its files, where it gives one. -/
def Inputs.modeOf (inputs : Inputs) (i : SourceItem) : Option Int :=
  match inputs.mode i.ruleId with
  | .octal value => some value
  | _ => none

/-- Behind the rename all of the item is at its destination, and its mode may still be to set. -/
structure Delivered (inputs : Inputs) (i : SourceItem) (s t : Stage) : Prop extends
    Beside i s t where
  sound : checkItem inputs i = none
  filled : ∃ mode, t (place i) = some (.file (inputs.contents i) mode) ∧
    (mode = none ∨ mode = inputs.modeOf i)
  cleared : t (temporary i) = none

theorem setMode_ops {i : SourceItem} (hop : op ∈ (setMode inputs i).ops) :
    ∃ value, inputs.modeOf i = some value ∧ op = .changeMode (place i) value := by
  rw [setMode] at hop
  rw [Inputs.modeOf]
  split at hop
  · cases hop
  · cases hop
  · next value hmode =>
    split at hop
    · cases hop
    · refine ⟨value, by rw [hmode], ?_⟩
      simpa using hop

theorem Delivered.apply (h : Delivered inputs i s t)
    (hop : op = .unlink (temporary i) ∨ op ∈ (setMode inputs i).ops) :
    Delivered inputs i s (t.apply op) := by
  obtain ⟨mode, hfile, hmode⟩ := h.filled
  rcases hop with rfl | hop
  · refine ⟨h.toBeside.put (.inr rfl), h.sound, ⟨mode, ?_, hmode⟩, put_same _ _ _⟩
    rw [Stage.apply, put_other (temporary_ne_place i).symm]
    exact hfile
  · obtain ⟨value, hvalue, rfl⟩ := setMode_ops hop
    have happly : t.apply (.changeMode (place i) value) =
        t.put (place i) (some (.file (inputs.contents i) (some value))) := by
      rw [Stage.apply, hfile]
    rw [happly]
    refine ⟨h.toBeside.put (.inl rfl), h.sound, ⟨some value, put_same _ _ _, .inr hvalue.symm⟩, ?_⟩
    rw [put_other (temporary_ne_place i)]
    exact h.cleared

theorem Delivered.run (h : Delivered inputs i s t)
    (hops : ∀ op ∈ ops, op = .unlink (temporary i) ∨ op ∈ (setMode inputs i).ops) :
    Delivered inputs i s (t.run ops) := by
  induction ops generalizing t with
  | nil => exact h
  | cons op ops ih =>
    exact ih (h.apply (hops op List.mem_cons_self)) fun op hop => hops op (List.mem_cons_of_mem _ hop)

theorem setMode_run {bytes : List UInt8} (hfile : t (place i) = some (.file bytes none))
    (h : (setMode inputs i).failure = none) :
    t.run (setMode inputs i).ops (place i) = some (.file bytes (inputs.modeOf i)) := by
  rw [setMode] at h ⊢
  rw [Inputs.modeOf]
  split at h
  · next hmode => simpa [hmode] using hfile
  · cases h
  · next value hmode =>
    split at h
    · cases h
    · next hrange => simp [hmode, hrange, Stage.apply, hfile]

/-- The rename, behind the bytes that pass the checks. -/
theorem Writing.replaced (h : Writing i s t) (hsound : checkItem inputs i = none)
    (hfile : t (temporary i) = some (.file (inputs.contents i) none)) :
    Delivered inputs i s (t.apply (.replace (temporary i) (place i))) := by
  have hput := h.toBeside.put (n := t (temporary i)) (.inl rfl)
  refine ⟨hput.put (.inr rfl), hsound, ⟨none, ?_, .inl rfl⟩, put_same _ _ _⟩
  rw [Stage.apply, put_other (temporary_ne_place i).symm, put_same]
  exact hfile

/-- A copy either fails with writes only, or it is all of the writes and the rename. -/
theorem copyItem_cases (inputs : Inputs) (i : SourceItem) (s : Stage) :
    ((copyItem inputs i s).failure ≠ none ∧ ∀ op ∈ (copyItem inputs i s).ops, Writes i s op) ∨
      (checkItem inputs i = none ∧ copyItem inputs i s =
        ⟨writeItem inputs i s ++ [.replace (temporary i) (place i), .unlink (temporary i)], none⟩) := by
  have hclean : ∀ op ∈ writeItem inputs i s ++ [.unlink (temporary i)], Writes i s op := by
    intro op hop
    rcases List.mem_append.mp hop with hop | hop
    · exact writeItem_writes inputs i s op hop
    · obtain rfl := List.mem_singleton.mp hop
      exact .unlink
  rw [copyItem]
  split
  · exact .inl ⟨nofun, nofun⟩
  · split
    · exact .inl ⟨nofun, directories_write i s⟩
    · split
      · exact .inl ⟨nofun, hclean⟩
      · next hsound =>
        split
        · exact .inl ⟨nofun, hclean⟩
        · exact .inr ⟨hsound, rfl⟩

/-- What is left of a turn that is cut off: the destination as it was, or all of the item. -/
theorem turn_cut (h : ops <+: (turn inputs i s).ops) :
    Writing i s (s.run ops) ∨ Delivered inputs i s (s.run ops) := by
  rcases copyItem_cases inputs i s with ⟨hfailed, hwrites⟩ | ⟨hsound, hcopy⟩
  · obtain ⟨failure, hfailure⟩ := Option.ne_none_iff_exists'.mp hfailed
    rw [turn, Outcome.andThen, hfailure] at h
    exact .inl ((Writing.refl i s).run fun op hop => hwrites op (h.subset hop))
  · rw [turn, hcopy, Outcome.andThen] at h
    rw [List.append_assoc, List.cons_append] at h
    rcases PayloadTransaction.prefix_append_cases h with h | ⟨more, rfl, hmore⟩
    · exact .inl ((Writing.refl i s).run fun op hop => writeItem_writes inputs i s op (h.subset hop))
    · have hwritten := (Writing.refl i s).run (writeItem_writes inputs i s)
      rw [run_append]
      cases more with
      | nil => exact .inl hwritten
      | cons op more =>
        obtain ⟨rfl, htail⟩ := List.cons_prefix_cons.mp hmore
        refine .inr ((hwritten.replaced hsound (writeItem_run inputs i s)).run fun op hop => ?_)
        simpa using htail.subset hop

/-- An exception in a copy, and the `finally` clause. -/
theorem copy_raised (h : ops <+: (copyItem inputs i s).ops) :
    Writing i s (s.run (ops ++ [.unlink (temporary i)])) ∨
      Delivered inputs i s (s.run (ops ++ [.unlink (temporary i)])) := by
  have hturn : ops <+: (turn inputs i s).ops := by
    rw [turn, Outcome.andThen]
    split
    · exact h
    · exact h.trans (List.prefix_append _ _)
  rw [run_append]
  rcases turn_cut hturn with h | h
  · exact .inl (h.apply .unlink)
  · exact .inr (h.apply (.inl rfl))

/-- A turn that raises nothing. -/
theorem turn_finished (h : (turn inputs i s).failure = none) :
    Delivered inputs i s (s.run (turn inputs i s).ops) ∧
      s.run (turn inputs i s).ops (place i) =
        some (.file (inputs.contents i) (inputs.modeOf i)) := by
  rcases copyItem_cases inputs i s with ⟨hfailed, -⟩ | ⟨hsound, hcopy⟩
  · obtain ⟨failure, hfailure⟩ := Option.ne_none_iff_exists'.mp hfailed
    rw [turn, Outcome.andThen, hfailure] at h
    exact absurd h hfailed
  · have hwritten := (Writing.refl i s).run (writeItem_writes inputs i s)
    have hcopied := writeItem_run inputs i s
    rw [turn, hcopy, Outcome.andThen] at h ⊢
    rw [List.append_assoc, run_append, List.cons_append, run_cons, List.singleton_append]
    refine ⟨(hwritten.replaced hsound hcopied).run fun op hop => List.mem_cons.mp hop, ?_⟩
    refine setMode_run ?_ h
    rw [Stage.apply, put_other (temporary_ne_place i).symm, Stage.apply,
      put_other (temporary_ne_place i).symm, put_same]
    exact hcopied

end Turns

section Attempts

variable {inputs : Inputs} {items todo : List SourceItem} {i j : SourceItem} {s t : Stage}
  {ops : List Operation}

/-- What every attempt keeps: files are whole items or temporary, directories lie above items,
and an item with a temporary file will be copied again. -/
structure Staged (inputs : Inputs) (items : List SourceItem) (s : Stage) : Prop where
  files : ∀ p bytes mode, s p = some (.file bytes mode) →
    (∃ i ∈ items, p = place i ∧ bytes = inputs.contents i ∧ (mode = none ∨ mode = inputs.modeOf i)) ∨
      ∃ i ∈ items, p = temporary i
  directories : ∀ p, s p = some .directory → ∃ i ∈ items, p ∈ parents (place i)
  pending : ∀ i ∈ items, s (temporary i) ≠ none → resumeItemValid inputs i s = false

theorem Staged.empty (inputs : Inputs) (items : List SourceItem) :
    Staged inputs items fun _ => none :=
  ⟨nofun, nofun, fun _ _ h => absurd rfl h⟩

theorem resume_congr (h : t (place i) = s (place i)) :
    resumeItemValid inputs i t = resumeItemValid inputs i s := by
  rw [resumeItemValid, resumeItemValid, h]

/-- A turn does not touch the other items. -/
theorem Beside.other (h : Beside i s t) (hsep : Separate items) (hi : i ∈ items) (hj : j ∈ items)
    (hne : j ≠ i) : t (place j) = s (place j) ∧ t (temporary j) = s (temporary j) :=
  ⟨h.others _ (hsep.places_apart hj hi hne) (hsep.temporary_not_place hi hj).symm
      (hsep.place_not_parent hj hi),
    h.others _ (hsep.temporary_not_place hj hi) (hsep.temporaries_apart hj hi hne)
      (hsep.temporary_not_parent hj hi)⟩

/-- Outside the turn's own places a file was there before, and a directory was or is above. -/
theorem Beside.found (h : Beside i s t) {p : Place} (hplace : p ≠ place i)
    (htemporary : p ≠ temporary i) :
    t p = s p ∨ p ∈ parents (place i) ∧ t p = some .directory := by
  by_cases hp : p ∈ parents (place i)
  · exact (h.above p hp).imp_right fun hmade => ⟨hp, hmade.2⟩
  · exact .inl (h.others p hplace htemporary hp)

theorem Staged.turn (h : Staged inputs items s) (hsep : Separate items) (hi : i ∈ items)
    (hinvalid : resumeItemValid inputs i s = false)
    (hturn : Writing i s t ∨ Delivered inputs i s t) : Staged inputs items t := by
  have hbeside : Beside i s t := by
    rcases hturn with hturn | hturn
    · exact hturn.toBeside
    · exact hturn.toBeside
  constructor
  · intro p bytes mode hfile
    by_cases htemporary : p = temporary i
    · exact .inr ⟨i, hi, htemporary⟩
    · by_cases hplace : p = place i
      · subst hplace
        rcases hturn with hturn | hturn
        · rw [hturn.kept] at hfile
          exact h.files _ _ _ hfile
        · obtain ⟨mode', hfilled, hmode⟩ := hturn.filled
          rw [hfilled] at hfile
          cases hfile
          exact .inl ⟨i, hi, rfl, rfl, hmode⟩
      · rcases hbeside.found hplace htemporary with hsame | ⟨-, hmade⟩
        · rw [hsame] at hfile
          exact h.files _ _ _ hfile
        · rw [hmade] at hfile
          cases hfile
  · intro p hdirectory
    by_cases htemporary : p = temporary i
    · subst htemporary
      rcases hturn with hturn | hturn
      · rcases hturn.unfinished with hsame | hother
        · rw [hsame] at hdirectory
          exact h.directories _ hdirectory
        · exact absurd hdirectory hother
      · rw [hturn.cleared] at hdirectory
        cases hdirectory
    · by_cases hplace : p = place i
      · subst hplace
        rcases hturn with hturn | hturn
        · rw [hturn.kept] at hdirectory
          exact h.directories _ hdirectory
        · obtain ⟨mode, hfilled, -⟩ := hturn.filled
          rw [hfilled] at hdirectory
          cases hdirectory
      · rcases hbeside.found hplace htemporary with hsame | ⟨hparent, -⟩
        · rw [hsame] at hdirectory
          exact h.directories _ hdirectory
        · exact ⟨i, hi, hparent⟩
  · intro j hj hpart
    by_cases hne : j = i
    · subst hne
      rcases hturn with hturn | hturn
      · rw [resume_congr hturn.kept]
        exact hinvalid
      · exact absurd hturn.cleared hpart
    · obtain ⟨hplace, htemporary⟩ := hbeside.other hsep hi hj hne
      rw [htemporary] at hpart
      rw [resume_congr hplace]
      exact h.pending j hj hpart

/-- The items of an attempt that is cut off anywhere. -/
theorem Staged.cut (h : Staged inputs items s) (hsep : Separate items) (htodo : todo ⊆ items)
    (hops : ops <+: (extractItems inputs todo s).ops) : Staged inputs items (s.run ops) := by
  induction todo generalizing s ops with
  | nil =>
    obtain rfl := List.prefix_nil.mp hops
    exact h
  | cons i rest ih =>
    obtain ⟨hi, hrest⟩ := List.cons_subset.mp htodo
    rw [extractItems] at hops
    split at hops
    · exact ih h hrest hops
    · next hvalid =>
      have hinvalid := Bool.eq_false_iff.mpr hvalid
      rw [Outcome.andThen] at hops
      split at hops
      · exact h.turn hsep hi hinvalid (turn_cut hops)
      · rcases PayloadTransaction.prefix_append_cases hops with hops | ⟨more, rfl, hmore⟩
        · exact h.turn hsep hi hinvalid (turn_cut hops)
        · rw [run_append]
          exact ih (h.turn hsep hi hinvalid (turn_cut List.prefix_rfl)) hrest hmore

theorem Attempt.staged {plan : Plan} (h : Attempt inputs plan s t)
    (hstaged : Staged inputs plan.items s) (hsep : Separate plan.items) :
    Staged inputs plan.items t := by
  cases h with
  | killed hops =>
    rw [extractPlan] at hops
    split at hops
    · obtain rfl := List.prefix_nil.mp hops
      exact hstaged
    · exact hstaged.cut hsep (List.Subset.refl _) hops
  | raised hplaces hitems hbefore ht hinvalid hops =>
    subst ht
    have hsubset := hitems ▸ List.subset_append_left _ _
    have hcut := hstaged.cut hsep hsubset List.prefix_rfl
    exact hcut.turn hsep (by simp [hitems]) hinvalid (copy_raised hops)

/-- The mode of an item behind a whole attempt: a file that was valid keeps what it has. -/
def modeAfter (inputs : Inputs) (i : SourceItem) (s : Stage) : Option Int :=
  match s (place i) with
  | some (.file _ mode) => if resumeItemValid inputs i s then mode else inputs.modeOf i
  | _ => inputs.modeOf i

theorem turn_beside (inputs : Inputs) (i : SourceItem) (s : Stage) :
    Beside i s (s.run (turn inputs i s).ops) := by
  rcases turn_cut List.prefix_rfl with hturn | hturn
  · exact hturn.toBeside
  · exact hturn.toBeside

/-- The operations of an attempt do not touch the items that it is not about. -/
theorem extract_other (inputs : Inputs) (s : Stage) (hsep : Separate items) (htodo : todo ⊆ items)
    (hj : j ∈ items) (hjtodo : j ∉ todo) :
    s.run (extractItems inputs todo s).ops (place j) = s (place j) ∧
      s.run (extractItems inputs todo s).ops (temporary j) = s (temporary j) := by
  induction todo generalizing s with
  | nil => exact ⟨rfl, rfl⟩
  | cons i rest ih =>
    obtain ⟨hi, hrest⟩ := List.cons_subset.mp htodo
    rw [List.mem_cons, not_or] at hjtodo
    have hother := (turn_beside inputs i s).other hsep hi hj hjtodo.1
    rw [extractItems]
    split
    · exact ih s hrest hjtodo.2
    · rw [Outcome.andThen]
      split
      · exact hother
      · obtain ⟨hplace, htemporary⟩ := ih (s.run (turn inputs i s).ops) hrest hjtodo.2
        rw [run_append]
        exact ⟨hplace.trans hother.1, htemporary.trans hother.2⟩

theorem Staged.valid (h : Staged inputs items s) (hsep : Separate items) (hi : i ∈ items)
    (hvalid : resumeItemValid inputs i s = true) :
    ∃ mode, s (place i) = some (.file (inputs.contents i) mode) ∧ s (temporary i) = none := by
  have hnone : s (temporary i) = none := by
    by_contra hpart
    rw [h.pending i hi hpart] at hvalid
    cases hvalid
  cases hnode : s (place i) with
  | none => simp [resumeItemValid, hnode] at hvalid
  | some node =>
    cases node with
    | directory => simp [resumeItemValid, hnode] at hvalid
    | file bytes mode =>
      rcases h.files _ _ _ hnode with ⟨j, hj, hplace, rfl, -⟩ | ⟨j, hj, hpart⟩
      · obtain rfl := hsep.above i hi j hj (hplace ▸ List.prefix_rfl)
        exact ⟨mode, rfl, hnone⟩
      · exact absurd hpart.symm (hsep.temporary_not_place hj hi)

theorem modeAfter_congr (h : t (place i) = s (place i)) :
    modeAfter inputs i t = modeAfter inputs i s := by
  rw [modeAfter, modeAfter, h, resume_congr h]

theorem modeAfter_valid {bytes : List UInt8} {mode : Option Int}
    (hfile : s (place i) = some (.file bytes mode)) (h : resumeItemValid inputs i s = true) :
    modeAfter inputs i s = mode := by
  rw [modeAfter, hfile]
  exact if_pos h

theorem modeAfter_invalid (h : resumeItemValid inputs i s = false) :
    modeAfter inputs i s = inputs.modeOf i := by
  rw [modeAfter]
  split
  · rw [h]
    rfl
  · rfl

theorem andThen_failure (first next : Outcome) :
    (first.andThen next).failure = none ↔ first.failure = none ∧ next.failure = none := by
  rw [Outcome.andThen]
  split
  · next failure hfailure => simp [hfailure]
  · next hnone => simp [hnone]

/-- A whole attempt delivers every item. -/
theorem extract_finished (h : Staged inputs items s) (hsep : Separate items) (htodo : todo ⊆ items)
    (hnodup : todo.Nodup) (hfinished : (extractItems inputs todo s).failure = none) :
    ∀ i ∈ todo, s.run (extractItems inputs todo s).ops (place i) =
        some (.file (inputs.contents i) (modeAfter inputs i s)) ∧
      s.run (extractItems inputs todo s).ops (temporary i) = none := by
  induction todo generalizing s with
  | nil => exact nofun
  | cons i rest ih =>
    obtain ⟨hi, hrest⟩ := List.cons_subset.mp htodo
    obtain ⟨hnot, hnodup⟩ := List.nodup_cons.mp hnodup
    rw [extractItems] at hfinished ⊢
    split
    · next hvalid =>
      rw [if_pos hvalid] at hfinished
      refine List.forall_mem_cons.mpr ⟨?_, ih h hrest hnodup hfinished⟩
      obtain ⟨mode, hfile, hnone⟩ := h.valid hsep hi hvalid
      obtain ⟨hplace, htemporary⟩ := extract_other inputs s hsep hrest hi hnot
      rw [hplace, htemporary, modeAfter_valid hfile hvalid]
      exact ⟨hfile, hnone⟩
    · next hvalid =>
      have hinvalid := Bool.eq_false_iff.mpr hvalid
      rw [if_neg hvalid] at hfinished
      have hstaged := h.turn hsep hi hinvalid (turn_cut List.prefix_rfl)
      rw [Outcome.andThen] at hfinished ⊢
      split at hfinished
      · next hfailure =>
        rw [hfailure] at hfinished
        cases hfinished
      · next hturned =>
        obtain ⟨hdelivered, hfile⟩ := turn_finished hturned
        rw [run_append]
        refine List.forall_mem_cons.mpr ⟨?_, fun j hj => ?_⟩
        · obtain ⟨hplace, htemporary⟩ :=
            extract_other inputs (s.run (turn inputs i s).ops) hsep hrest hi hnot
          rw [hplace, htemporary, hfile, modeAfter_invalid hinvalid]
          exact ⟨rfl, hdelivered.cleared⟩
        · have hne : j ≠ i := by
            rintro rfl
            exact hnot hj
          have hother := hdelivered.other hsep hi (hrest hj) hne
          rw [← modeAfter_congr hother.1]
          exact ih hstaged hrest hnodup hfinished j hj

/-- The items of a plan are never in each other's way. -/
theorem copyItem_succeeds (h : Staged inputs items s) (hsep : Separate items) (hi : i ∈ items) :
    (copyItem inputs i s).failure = none ↔ checkItem inputs i = none := by
  have hparents : ¬((parents (place i)).any fun p => s p ≠ none ∧ s p ≠ some .directory) = true := by
    intro hany
    obtain ⟨p, hp, hfile⟩ := List.any_eq_true.mp hany
    obtain ⟨hsome, hnot⟩ := of_decide_eq_true hfile
    cases hnode : s p with
    | none => exact hsome hnode
    | some node =>
      cases node with
      | directory => exact hnot hnode
      | file bytes mode =>
        rcases h.files _ _ _ hnode with ⟨j, hj, rfl, -⟩ | ⟨j, hj, rfl⟩
        · exact hsep.place_not_parent hj hi hp
        · exact hsep.temporary_not_parent hj hi hp
  have htemporary : s (temporary i) ≠ some .directory := by
    intro hdirectory
    obtain ⟨j, hj, hparent⟩ := h.directories _ hdirectory
    exact hsep.temporary_not_parent hi hj hparent
  have hplace : s (place i) ≠ some .directory := by
    intro hdirectory
    obtain ⟨j, hj, hparent⟩ := h.directories _ hdirectory
    exact hsep.place_not_parent hi hj hparent
  rw [copyItem, if_neg hparents, if_neg htemporary]
  split
  · next failure hcheck => simp [hcheck]
  · next hcheck => simp [hcheck, hplace]

theorem extract_succeeds (h : Staged inputs items s) (hsep : Separate items) (htodo : todo ⊆ items)
    (hnodup : todo.Nodup) : (extractItems inputs todo s).failure = none ↔
      ∀ i ∈ todo, resumeItemValid inputs i s = true ∨
        checkItem inputs i = none ∧ (setMode inputs i).failure = none := by
  induction todo generalizing s with
  | nil => simp [extractItems]
  | cons i rest ih =>
    obtain ⟨hi, hrest⟩ := List.cons_subset.mp htodo
    obtain ⟨hnot, hnodup⟩ := List.nodup_cons.mp hnodup
    rw [extractItems, List.forall_mem_cons]
    split
    · next hvalid => simp only [ih h hrest hnodup, hvalid, true_or, true_and]
    · next hvalid =>
      have hinvalid := Bool.eq_false_iff.mpr hvalid
      have hstaged := h.turn hsep hi hinvalid (turn_cut List.prefix_rfl)
      have hvalid' : ∀ j ∈ rest, resumeItemValid inputs j (s.run (turn inputs i s).ops) =
          resumeItemValid inputs j s := by
        intro j hj
        have hne : j ≠ i := by
          rintro rfl
          exact hnot hj
        exact resume_congr ((turn_beside inputs i s).other hsep hi (hrest hj) hne).1
      rw [andThen_failure, turn, andThen_failure, copyItem_succeeds h hsep hi, ← turn,
        ih hstaged hrest hnodup, hinvalid]
      simp only [Bool.false_eq_true, false_or]
      exact and_congr_right fun _ => forall₂_congr fun j hj => by rw [hvalid' j hj]

theorem stageDestinations_iff (items : List SourceItem) :
    (∃ places, items.mapM (fun i => safeJoin [] "stage destination".toList i.destination) =
      .ok places) ↔ ∀ i ∈ items, IsPlain i.destination := by
  induction items with
  | nil => exact ⟨fun _ => nofun, fun _ => ⟨[], rfl⟩⟩
  | cons i items ih =>
    rw [List.forall_mem_cons, ← ih, List.mapM_cons]
    constructor
    · rintro ⟨places, h⟩
      obtain ⟨p, hp, h⟩ := bind_ok.mp h
      obtain ⟨ps, hps, -⟩ := bind_ok.mp h
      exact ⟨(safeJoin_iff.mp hp).1, ps, hps⟩
    · rintro ⟨hplain, ps, hps⟩
      exact ⟨place i :: ps, bind_ok.mpr ⟨_, safeJoin_iff.mpr ⟨hplain, rfl⟩, bind_ok.mpr ⟨ps, hps, rfl⟩⟩⟩

/-- However many attempts at a plan were cut off, wherever, in an empty stage: its files are whole
items, or temporary; an attempt succeeds exactly if every item is valid or passes its checks;
and then the files are the items and nothing else. A mode is not set on what was valid. -/
theorem extract_resumed {plan : Plan} (hsep : Separate plan.items)
    (hruns : Relation.ReflTransGen (Attempt inputs plan) (fun _ => none) s) :
    (∀ p bytes mode, s p = some (.file bytes mode) →
      (∃ i ∈ plan.items, p = place i ∧ bytes = inputs.contents i) ∨
        ∃ i ∈ plan.items, p = temporary i) ∧
    ((extractPlan inputs plan s).failure = none ↔ ∀ i ∈ plan.items, IsPlain i.destination ∧
      (resumeItemValid inputs i s = true ∨ ((inputs.contents i).length = i.size ∧
        ∀ crc, i.crc = some crc → (crc32 (inputs.contents i) 0).toNat = crc) ∧
          (setMode inputs i).failure = none)) ∧
    ((extractPlan inputs plan s).failure = none → ∀ p bytes mode,
      s.run (extractPlan inputs plan s).ops p = some (.file bytes mode) ↔
        ∃ i ∈ plan.items, p = place i ∧ bytes = inputs.contents i ∧
          mode = modeAfter inputs i s) := by
  have hstaged : Staged inputs plan.items s := by
    induction hruns with
    | refl => exact .empty inputs plan.items
    | tail _ hattempt ih => exact hattempt.staged ih hsep
  have hsubset := List.Subset.refl plan.items
  have hiff := extract_succeeds hstaged hsep hsubset hsep.nodup
  refine ⟨?_, ?_, ?_⟩
  · intro p bytes mode hfile
    refine (hstaged.files p bytes mode hfile).imp_left ?_
    rintro ⟨i, hi, hplace, hbytes, -⟩
    exact ⟨i, hi, hplace, hbytes⟩
  · have hplaces := stageDestinations_iff plan.items
    rw [← stageDestinations] at hplaces
    simp only [← checkItem_iff]
    rw [extractPlan, forall₂_and, ← hplaces, ← hiff]
    cases stageDestinations plan with
    | error failure => simp
    | ok places => simp
  · intro hfinished p bytes mode
    rw [extractPlan] at hfinished ⊢
    split at hfinished
    · cases hfinished
    · have hdelivered := extract_finished hstaged hsep hsubset hsep.nodup hfinished
      have hafter := hstaged.cut hsep hsubset List.prefix_rfl
      constructor
      · intro hfile
        rcases hafter.files p bytes mode hfile with ⟨i, hi, rfl, -⟩ | ⟨i, hi, rfl⟩
        · rw [(hdelivered i hi).1] at hfile
          cases hfile
          exact ⟨i, hi, rfl, rfl, rfl⟩
        · rw [(hdelivered i hi).2] at hfile
          cases hfile
      · rintro ⟨i, hi, rfl, rfl, rfl⟩
        exact (hdelivered i hi).1

end Attempts

section Examples

/-- Two items, and inputs whose blocks are what the items say. -/
def samplePlan : Plan where
  group := ⟨[], []⟩
  abi := []
  items :=
    [⟨"first".toList, "data/a".toList, .loose ⟨[], [], 3, 0⟩, 3, none, [], []⟩,
      ⟨"second".toList, "b".toList, .loose ⟨[], [], 3, 0⟩, 3, none, [], []⟩]
  commitPaths := []

def sampleInputs : Inputs where
  blocks _ := [[1, 2], [3]]
  looseValid _ := true
  mode ruleId := if ruleId = "first".toList then .octal 0o755 else .absent
  sha256 bytes := bytes

/-- Killed behind the rename of the first item, in front of its mode. -/
def killedStage : Stage :=
  Stage.run (fun _ => none) ((extractPlan sampleInputs samplePlan fun _ => none).ops.take 6)

theorem extract_resumed_killed :
    (extractPlan sampleInputs samplePlan killedStage).failure = none ∧
      killedStage.run (extractPlan sampleInputs samplePlan killedStage).ops
        ["data".toList, "a".toList] = some (.file [1, 2, 3] none) := by
  have hsep : Separate samplePlan.items := ⟨by decide, by decide, by decide⟩
  have hkilled : Attempt sampleInputs samplePlan (fun _ => none) killedStage :=
    .killed (List.take_prefix _ _)
  obtain ⟨-, -, hfiles⟩ := extract_resumed hsep (.single hkilled)
  have hfinished : (extractPlan sampleInputs samplePlan killedStage).failure = none := by
    decide +kernel
  refine ⟨hfinished, (hfiles hfinished _ _ _).mpr ?_⟩
  decide +kernel

end Examples

end Asm2Runtime.PayloadExtract
