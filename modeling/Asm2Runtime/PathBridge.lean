import Mathlib.Algebra.Group.Nat.Defs
import Mathlib.Data.List.Basic
import Mathlib.Data.List.Infix

/-!
# The path bridge

Guest paths below the SD card are host paths below the storage root. bionic_compat.c
translates them there and back; a path is a C string without its NUL.
-/

namespace Asm2Runtime.PathBridge

section Functions

abbrev Path := List Char

def PATH_MAX : Nat := 4096
def INT_MAX : Nat := 2 ^ 31 - 1

inductive Errno where
  | ENAMETOOLONG
  | ERANGE
  | EINVAL
  | other (code : Nat)
  deriving DecidableEq, Repr

/-- `snprintf` of one text: the length it would have written, and the buffer. -/
def snprintf (size : Nat) (text : Path) : Int × Path :=
  (if text.length ≤ INT_MAX then text.length else -1, text.take (size - 1))

/-- `join_path` of main.c -/
def joinPath (size : Nat) (directory name : Path) : Option Path :=
  let (written, output) := snprintf size (directory ++ '/' :: name)
  if written ≥ 0 ∧ written < size then some output else none

/-- The storage root that `asm2_bionic_init` keeps; an empty one disables the bridge. -/
def bionicInit (storageRoot : Option Path) : Path :=
  match storageRoot with
  | none => []
  | some storageRoot =>
    let (written, root) := snprintf PATH_MAX storageRoot
    if written < 0 ∨ written ≥ PATH_MAX then [] else root

def prefixes : List Path :=
  ["/sdcard".toList, "sdcard".toList, "/mnt/sdcard".toList, "/storage/sdcard0".toList,
    "/storage/emulated/0".toList]

/-- What follows `start` in `path`, if the component ends there (`strncmp` and the test of the
next character). -/
def afterStart (start path : Path) : Option Path :=
  if path.take start.length ≠ start ∨
      (path[start.length]? ≠ none ∧ path[start.length]? ≠ some '/') then none
  else some (path.drop start.length)

/-- What `asm2_translate_path` returns: its argument, its buffer or NULL. -/
inductive Translation where
  | unchanged
  | rewritten (buffer : Path)
  | failed (errno : Errno)
  deriving DecidableEq, Repr

def translateFrom (root : Path) (path : Path) (size : Nat) : List Path → Translation
  | [] => .unchanged
  | start :: rest =>
    match afterStart start path with
    | none => translateFrom root path size rest
    | some suffix =>
      let (written, buffer) := snprintf size (root ++ suffix)
      if written < 0 ∨ written ≥ size then .failed .ENAMETOOLONG else .rewritten buffer

/-- `asm2_translate_path` -/
def translatePath (root : Path) (path : Option Path) (size : Nat) : Translation :=
  match path with
  | none => .unchanged
  | some path => if root = [] then .unchanged else translateFrom root path size prefixes

/-- The host path a translation of `path` stands for, if there is one. -/
def Translation.hostPath (path : Path) : Translation → Option Path
  | .unchanged => some path
  | .rewritten buffer => some buffer
  | .failed _ => none

/-- Host `getcwd` in a directory; it may also fail for reasons of its own. -/
def hostGetcwd (failure : Option Errno) (directory : Path) (size : Nat) : Except Errno Path :=
  match failure with
  | some errno => .error errno
  | none => if directory.length < size then .ok directory else .error .ERANGE

/-- The path `asm2_getcwd` shows for a host directory. -/
def virtualPath (root hostPath : Path) : Except Errno Path :=
  if root = [] then .ok hostPath
  else match afterStart root hostPath with
    | none => .ok hostPath
    | some suffix =>
      let (written, result) := snprintf PATH_MAX ("/sdcard".toList ++ suffix)
      if written < 0 ∨ written ≥ PATH_MAX then .error .ERANGE else .ok result

/-- The buffer of a call of `getcwd`. -/
structure CwdBuffer where
  isNull : Bool
  size : Nat

/-- `asm2_getcwd`; `strdup` fails with the code `noMemory` gives. -/
def getcwd (root : Path) (failure : Option Errno) (directory : Path) (buffer : CwdBuffer)
    (noMemory : Option Errno) : Except Errno Path := do
  let hostPath ← hostGetcwd failure directory PATH_MAX
  let result ← virtualPath root hostPath
  if buffer.isNull then
    if buffer.size ≠ 0 then .error .EINVAL
    else match noMemory with
      | some errno => .error errno
      | none => .ok result
  else if result.length + 1 > buffer.size then .error .ERANGE
  else .ok result

/-- The six characters host `mkstemp` puts in place of `XXXXXX`: they stay in one component. -/
structure Chosen where
  chars : List Char
  six : chars.length = 6
  noSlash : '/' ∉ chars

/-- Host `mkstemp`: the template, changed to the path of the file it created. -/
def hostMkstemp (outcome : Except Errno Chosen) (template : Path) : Except Errno Path :=
  if template.drop (template.length - 6) ≠ "XXXXXX".toList then .error .EINVAL
  else outcome.map fun chosen => template.take (template.length - 6) ++ chosen.chars

/-- A successful `asm2_mkstemp`: the file that was created and the guest's template after. -/
structure Created where
  file : Path
  template : Path

/-- `asm2_mkstemp` -/
def mkstemp (root : Path) (outcome : Except Errno Chosen) (template : Option Path) :
    Except Errno Created :=
  match template with
  | none => .error .EINVAL
  | some template =>
    match translatePath root (some template) PATH_MAX with
    | .failed errno => .error errno
    | .unchanged => do
      let file ← hostMkstemp outcome template
      return { file, template := file }
    | .rewritten translated => do
      let file ← hostMkstemp outcome translated
      let template :=
        if template.length ≥ 6 ∧ file.length ≥ 6 then
          template.take (template.length - 6) ++ file.drop (file.length - 6)
        else template
      return { file, template }

end Functions

section Components

/-- A rest of a path that begins at the end of a component. -/
def AtBoundary (suffix : Path) : Prop := suffix = [] ∨ suffix.head? = some '/'

theorem afterStart_eq_some {start path suffix : Path} :
    afterStart start path = some suffix ↔ path = start ++ suffix ∧ AtBoundary suffix := by
  constructor
  · intro h
    unfold afterStart at h
    split at h
    · cases h
    · next hn =>
      push Not at hn
      obtain ⟨hstart, hnext⟩ := hn
      cases h
      refine ⟨?_, ?_⟩
      · calc path = path.take start.length ++ path.drop start.length :=
              (List.take_append_drop _ _).symm
          _ = start ++ path.drop start.length := by rw [hstart]
      · rw [AtBoundary, List.head?_drop, ← List.length_eq_zero_iff, List.length_drop]
        by_cases hend : path[start.length]? = none
        · exact .inl (Nat.sub_eq_zero_of_le (List.getElem?_eq_none_iff.mp hend))
        · exact .inr (hnext hend)
  · rintro ⟨rfl, hboundary⟩
    have hnext : (start ++ suffix)[start.length]? = suffix.head? := by
      rw [List.getElem?_append_right (Nat.le_refl _), Nat.sub_self, List.head?_eq_getElem?]
    rw [afterStart, if_neg, List.drop_left]
    rw [List.take_left, hnext]
    rintro (h | ⟨hsome, hslash⟩)
    · exact h rfl
    · rcases hboundary with rfl | h
      · exact hsome rfl
      · exact hslash h

theorem afterStart_eq_none {start path : Path} :
    afterStart start path = none ↔ ∀ suffix, path = start ++ suffix → ¬ AtBoundary suffix := by
  rw [Option.eq_none_iff_forall_ne_some]
  refine forall_congr' fun suffix => ?_
  rw [ne_eq, afterStart_eq_some, not_and]

/-- A path that one of the five prefixes begins, as whole components. -/
structure Splits (path start suffix : Path) : Prop where
  mem : start ∈ prefixes
  eq : path = start ++ suffix
  boundary : AtBoundary suffix

/-- No prefix begins another. -/
theorem prefixes_free : ∀ start ∈ prefixes, ∀ other ∈ prefixes, start <+: other → start = other := by
  decide

theorem Splits.unique {path start suffix start' suffix' : Path} (h : Splits path start suffix)
    (h' : Splits path start' suffix') : start' = start ∧ suffix' = suffix := by
  have hs : start <+: path := ⟨suffix, h.eq.symm⟩
  have hs' : start' <+: path := ⟨suffix', h'.eq.symm⟩
  have heq : start' = start := by
    rcases List.prefix_or_prefix_of_prefix hs hs' with hle | hle
    · exact (prefixes_free _ h.mem _ h'.mem hle).symm
    · exact prefixes_free _ h'.mem _ h.mem hle
  subst heq
  exact ⟨rfl, List.append_cancel_left (h'.eq.symm.trans h.eq)⟩

end Components

section Translate

/-- What `snprintf` can put in a buffer whole. -/
def Fits (size : Nat) (text : Path) : Prop := text.length < size ∧ text.length ≤ INT_MAX

instance (size : Nat) (text : Path) : Decidable (Fits size text) :=
  inferInstanceAs (Decidable (_ ∧ _))

theorem snprintf_of_fits {size : Nat} {text : Path} (h : Fits size text) :
    snprintf size text = ((text.length : Int), text) := by
  obtain ⟨hsize, hint⟩ := h
  rw [snprintf, if_pos hint, List.take_of_length_le (by omega)]

theorem snprintf_rejected {size : Nat} {text : Path} (h : ¬ Fits size text) :
    (snprintf size text).1 < 0 ∨ (snprintf size text).1 ≥ size := by
  unfold Fits at h
  unfold snprintf
  dsimp only
  split
  · right
    omega
  · left
    decide

theorem fits_pathMax {text : Path} : Fits PATH_MAX text ↔ text.length < PATH_MAX := by
  unfold Fits PATH_MAX INT_MAX
  omega

theorem snprintf_accepted {size : Nat} {text : Path} (h : Fits size text) :
    ¬ ((snprintf size text).1 < 0 ∨ (snprintf size text).1 ≥ size) := by
  rw [snprintf_of_fits h]
  have := h.1
  dsimp only
  omega

/-- `root ++ suffix`, or ENAMETOOLONG. -/
def rewritten (root suffix : Path) (size : Nat) : Translation :=
  if Fits size (root ++ suffix) then .rewritten (root ++ suffix) else .failed .ENAMETOOLONG

theorem translateFrom_split {root path start suffix : Path} {size : Nat} {starts : List Path}
    (hmem : start ∈ starts) (hafter : afterStart start path = some suffix)
    (honly : ∀ other ∈ starts, other ≠ start → afterStart other path = none) :
    translateFrom root path size starts = rewritten root suffix size := by
  induction starts with
  | nil => exact absurd hmem List.not_mem_nil
  | cons first rest ih =>
    by_cases hfirst : first = start
    · subst hfirst
      rw [translateFrom, hafter, rewritten]
      dsimp only
      by_cases hfits : Fits size (root ++ suffix)
      · rw [if_neg (snprintf_accepted hfits), if_pos hfits, snprintf_of_fits hfits]
      · rw [if_pos (snprintf_rejected hfits), if_neg hfits]
    · rw [translateFrom, honly first List.mem_cons_self hfirst]
      refine ih ?_ fun other hother => honly other (List.mem_cons_of_mem _ hother)
      exact (List.mem_cons.mp hmem).resolve_left (Ne.symm hfirst)

theorem translateFrom_none {root path : Path} {size : Nat} {starts : List Path}
    (h : ∀ start ∈ starts, afterStart start path = none) :
    translateFrom root path size starts = .unchanged := by
  induction starts with
  | nil => rfl
  | cons first rest ih =>
    rw [translateFrom, h first List.mem_cons_self]
    exact ih fun start hstart => h start (List.mem_cons_of_mem _ hstart)

theorem translatePath_split {root path start suffix : Path} (size : Nat) (hroot : root ≠ [])
    (h : Splits path start suffix) :
    translatePath root (some path) size = rewritten root suffix size := by
  rw [translatePath, if_neg hroot]
  refine translateFrom_split h.mem (afterStart_eq_some.mpr ⟨h.eq, h.boundary⟩) ?_
  intro other hother hne
  refine afterStart_eq_none.mpr fun suffix' heq hboundary => ?_
  exact hne (h.unique ⟨hother, heq, hboundary⟩).1

theorem translatePath_unchanged {root path : Path} (size : Nat)
    (h : ∀ start suffix, ¬ Splits path start suffix) :
    translatePath root (some path) size = .unchanged := by
  rw [translatePath]
  split
  · rfl
  · refine translateFrom_none fun start hstart => ?_
    exact afterStart_eq_none.mpr fun suffix heq hboundary => h start suffix ⟨hstart, heq, hboundary⟩

end Translate

section StorageRoot

def gamefiles : List Char := "gamefiles".toList

def LastComponent (name path : Path) : Prop :=
  path = name ∨ ∃ directory, path = directory ++ '/' :: name

/-- A storage root as main.c builds it. -/
structure StorageRoot where
  text : Path
  named : LastComponent gamefiles text

theorem joinPath_eq_some {size : Nat} {directory name path : Path} :
    joinPath size directory name = some path ↔
      path = directory ++ '/' :: name ∧ Fits size path := by
  unfold joinPath
  dsimp only
  by_cases hfits : Fits size (directory ++ '/' :: name)
  · have haccepted := snprintf_accepted hfits
    rw [if_pos (by omega), snprintf_of_fits hfits]
    constructor
    · intro h
      cases h
      exact ⟨rfl, hfits⟩
    · rintro ⟨rfl, -⟩
      rfl
  · have hrejected := snprintf_rejected hfits
    rw [if_neg (by omega)]
    constructor
    · intro h
      cases h
    · rintro ⟨rfl, hfits'⟩
      exact absurd hfits' hfits

/-- The root main.c passes to `asm2_bionic_init` is kept, and ends in `gamefiles`. -/
theorem bionicInit_joinPath {directory path : Path}
    (h : joinPath PATH_MAX directory gamefiles = some path) :
    bionicInit (some path) = path ∧ LastComponent gamefiles path := by
  obtain ⟨hpath, hfits⟩ := joinPath_eq_some.mp h
  refine ⟨?_, .inr ⟨directory, hpath⟩⟩
  have haccepted := snprintf_accepted hfits
  unfold bionicInit
  dsimp only
  rw [if_neg haccepted, snprintf_of_fits hfits]

variable (root : StorageRoot)

theorem StorageRoot.gamefiles_suffix : gamefiles <:+ root.text := by
  rcases root.named with h | ⟨directory, h⟩
  · rw [h]
  · exact ⟨directory ++ ['/'], by rw [h, List.append_assoc]; rfl⟩

theorem StorageRoot.nine_le : 9 ≤ root.text.length := root.gamefiles_suffix.length_le

theorem StorageRoot.ne_nil : root.text ≠ [] := by
  intro h
  have := root.nine_le
  rw [h] at this
  exact absurd this (by decide)

/-- The root is none of the prefixes it replaces. -/
theorem StorageRoot.notMem_prefixes : root.text ∉ prefixes := by
  have hnone : ∀ start ∈ prefixes, ¬ gamefiles <:+ start := by decide
  exact fun hmem => hnone _ hmem root.gamefiles_suffix

end StorageRoot

section Getcwd

variable {root : StorageRoot}

/-- A directory equal to the root or below it. -/
def AtOrBelow (root directory : Path) : Prop :=
  directory = root ∨ ∃ rest, directory = root ++ '/' :: rest

theorem atOrBelow_iff {root directory : Path} :
    AtOrBelow root directory ↔ ∃ suffix, directory = root ++ suffix ∧ AtBoundary suffix := by
  constructor
  · rintro (rfl | ⟨rest, rfl⟩)
    · exact ⟨[], (List.append_nil _).symm, .inl rfl⟩
    · exact ⟨'/' :: rest, rfl, .inr rfl⟩
  · rintro ⟨suffix, rfl, rfl | hslash⟩
    · exact .inl (List.append_nil _)
    · obtain ⟨rest, rfl⟩ : ∃ rest, suffix = '/' :: rest := by
        cases suffix with
        | nil => cases hslash
        | cons c rest => exact ⟨rest, by simpa using hslash⟩
      exact .inr ⟨rest, rfl⟩

/-- Below the root the virtual path is the same suffix of `/sdcard`; elsewhere it is the path. -/
theorem virtualPath_below {suffix : Path} (hboundary : AtBoundary suffix)
    (hfits : (root.text ++ suffix).length < PATH_MAX) :
    virtualPath root.text (root.text ++ suffix) = .ok ("/sdcard".toList ++ suffix) := by
  have hshort : Fits PATH_MAX ("/sdcard".toList ++ suffix) := by
    have hnine := root.nine_le
    have hseven : "/sdcard".toList.length = 7 := rfl
    rw [List.length_append] at hfits
    rw [fits_pathMax, List.length_append]
    omega
  rw [virtualPath, if_neg root.ne_nil, afterStart_eq_some.mpr ⟨rfl, hboundary⟩]
  dsimp only
  rw [if_neg (snprintf_accepted hshort), snprintf_of_fits hshort]

theorem virtualPath_elsewhere {directory : Path} (h : ¬ AtOrBelow root.text directory) :
    virtualPath root.text directory = .ok directory := by
  rw [virtualPath, if_neg root.ne_nil, afterStart_eq_none.mpr]
  intro suffix heq hboundary
  exact h (atOrBelow_iff.mpr ⟨suffix, heq, hboundary⟩)

/-- A successful `getcwd` returns the virtual path of a directory the host could return. -/
theorem getcwd_ok {root directory result : Path} {failure noMemory : Option Errno}
    {buffer : CwdBuffer} (h : getcwd root failure directory buffer noMemory = .ok result) :
    directory.length < PATH_MAX ∧ virtualPath root directory = .ok result := by
  unfold getcwd hostGetcwd at h
  cases failure with
  | some errno => cases h
  | none =>
    dsimp only at h
    split at h
    · next hfits =>
      refine ⟨hfits, ?_⟩
      change (virtualPath root directory >>= _) = _ at h
      cases hvirtual : virtualPath root directory with
      | error errno => rw [hvirtual] at h; cases h
      | ok path =>
        rw [hvirtual] at h
        change (if _ then _ else _) = _ at h
        split at h
        · split at h
          · cases h
          · cases noMemory with
            | some errno => cases h
            | none => exact h
        · split at h
          · cases h
          · exact h
    · cases h

/-- `getcwd` and the translation are inverse below the root. -/
theorem getcwd_translates {directory result : Path} {failure noMemory : Option Errno}
    {buffer : CwdBuffer} (hbelow : AtOrBelow root.text directory)
    (h : getcwd root.text failure directory buffer noMemory = .ok result) :
    translatePath root.text (some result) PATH_MAX = .rewritten directory := by
  obtain ⟨hlength, hvirtual⟩ := getcwd_ok h
  obtain ⟨suffix, rfl, hboundary⟩ := atOrBelow_iff.mp hbelow
  rw [virtualPath_below hboundary hlength] at hvirtual
  cases hvirtual
  have hsplit : Splits ("/sdcard".toList ++ suffix) "/sdcard".toList suffix :=
    ⟨List.mem_cons_self, rfl, hboundary⟩
  rw [translatePath_split PATH_MAX root.ne_nil hsplit, rewritten, if_pos (fits_pathMax.mpr hlength)]

theorem getcwd_elsewhere {directory result : Path} {failure noMemory : Option Errno}
    {buffer : CwdBuffer} (h : ¬ AtOrBelow root.text directory)
    (hok : getcwd root.text failure directory buffer noMemory = .ok result) :
    result = directory := by
  obtain ⟨-, hvirtual⟩ := getcwd_ok hok
  rw [virtualPath_elsewhere h] at hvirtual
  cases hvirtual
  rfl

end Getcwd

section Mkstemp

variable {root : StorageRoot} {outcome : Except Errno Chosen}

def pattern : List Char := "XXXXXX".toList

theorem hostMkstemp_ok {template file : Path} (h : hostMkstemp outcome template = .ok file) :
    ∃ chosen stem, outcome = .ok chosen ∧ template = stem ++ pattern ∧
      file = stem ++ chosen.chars := by
  unfold hostMkstemp at h
  split at h
  · cases h
  · next hpattern =>
    push Not at hpattern
    cases outcome with
    | error errno => cases h
    | ok chosen =>
      cases h
      have htemplate := List.take_append_drop (template.length - 6) template
      rw [hpattern] at htemplate
      exact ⟨chosen, template.take (template.length - 6), rfl, htemplate.symm, rfl⟩

theorem hostMkstemp_pattern (chosen : Chosen) (stem : Path) :
    hostMkstemp (.ok chosen) (stem ++ pattern) = .ok (stem ++ chosen.chars) := by
  have hlength : (stem ++ pattern).length - 6 = stem.length := by
    have hsix : pattern.length = 6 := rfl
    rw [List.length_append, hsix, Nat.add_sub_cancel]
  rw [hostMkstemp, hlength, List.drop_left, if_neg (by exact fun h => h rfl), List.take_left]
  rfl

/-- The template is translated to itself, or the file lies below the root. -/
theorem mkstemp_ok {template : Path} {created : Created}
    (h : mkstemp root.text outcome (some template) = .ok created) :
    (translatePath root.text (some template) PATH_MAX = .unchanged ∧
      hostMkstemp outcome template = .ok created.file ∧ created.template = created.file) ∨
    ∃ translated, translatePath root.text (some template) PATH_MAX = .rewritten translated ∧
      hostMkstemp outcome translated = .ok created.file ∧
      created.template = if template.length ≥ 6 ∧ created.file.length ≥ 6 then
        template.take (template.length - 6) ++ created.file.drop (created.file.length - 6)
        else template := by
  unfold mkstemp at h
  dsimp only at h
  split at h
  · cases h
  · next htranslation =>
    cases hhost : hostMkstemp outcome template with
    | error errno => rw [hhost] at h; cases h
    | ok file =>
      rw [hhost] at h
      cases h
      exact .inl ⟨htranslation, rfl, rfl⟩
  · next translated htranslation =>
    cases hhost : hostMkstemp outcome translated with
    | error errno => rw [hhost] at h; cases h
    | ok file =>
      rw [hhost] at h
      cases h
      exact .inr ⟨translated, htranslation, hhost, rfl⟩

/-- The pattern at the end of a translated template lies in its suffix, below a slash. -/
theorem pattern_in_suffix {suffix stem : Path} (hboundary : AtBoundary suffix)
    (h : root.text ++ suffix = stem ++ pattern) :
    ∃ rest, stem = root.text ++ rest ∧ suffix = rest ++ pattern ∧ rest.head? = some '/' := by
  rcases List.append_eq_append_iff.mp h with ⟨rest, hstem, hsuffix⟩ | ⟨rest, hroot, hpattern⟩
  · refine ⟨rest, hstem, hsuffix, ?_⟩
    rw [hsuffix] at hboundary
    rcases hboundary with hnil | hhead
    · exact absurd (List.append_eq_nil_iff.mp hnil).2 (by decide)
    · cases rest with
      | nil => exact absurd hhead (by decide)
      | cons c rest => exact hhead
  · rcases hboundary with rfl | hhead
    · have hends : pattern <:+ root.text := ⟨stem, by rw [hroot, hpattern, List.append_nil]⟩
      have hlength : pattern.length ≤ gamefiles.length := by decide
      exact absurd (List.suffix_of_suffix_length_le hends root.gamefiles_suffix hlength) (by decide)
    · have hslash : '/' ∈ pattern := by
        rw [hpattern]
        exact List.mem_append_right _ (List.mem_of_mem_head? hhead)
      exact absurd hslash (by decide)

/-- Below the root, the characters copied into the template are those of the file. -/
theorem mkstemp_rewritten {start suffix : Path} {created : Created}
    (hsplit : Splits (start ++ suffix) start suffix)
    (hfits : Fits PATH_MAX (root.text ++ suffix))
    (hhost : hostMkstemp outcome (root.text ++ suffix) = .ok created.file)
    (htemplate : created.template = if (start ++ suffix).length ≥ 6 ∧ created.file.length ≥ 6 then
      (start ++ suffix).take ((start ++ suffix).length - 6) ++
        created.file.drop (created.file.length - 6) else start ++ suffix) :
    translatePath root.text (some created.template) PATH_MAX = .rewritten created.file := by
  obtain ⟨chosen, stem, -, hstem, hfile⟩ := hostMkstemp_ok hhost
  obtain ⟨rest, rfl, rfl, hhead⟩ := pattern_in_suffix hsplit.boundary hstem
  have hsix : pattern.length = 6 := rfl
  have hstart : (start ++ (rest ++ pattern)).take ((start ++ (rest ++ pattern)).length - 6) =
      start ++ rest := by
    rw [← List.append_assoc, List.length_append, hsix, Nat.add_sub_cancel, List.take_left]
  have hchars : created.file.drop (created.file.length - 6) = chosen.chars := by
    rw [hfile, List.length_append, chosen.six, Nat.add_sub_cancel, List.drop_left]
  have hlong : (start ++ (rest ++ pattern)).length ≥ 6 ∧ created.file.length ≥ 6 := by
    rw [hfile, List.length_append, List.length_append, List.length_append, chosen.six, hsix]
    omega
  rw [if_pos hlong, hstart, hchars, List.append_assoc] at htemplate
  have hsplit' : Splits created.template start (rest ++ chosen.chars) := by
    refine ⟨hsplit.mem, htemplate, .inr ?_⟩
    rw [List.head?_append, hhead]
    rfl
  have hfits' : Fits PATH_MAX (root.text ++ (rest ++ chosen.chars)) := by
    rw [fits_pathMax] at hfits ⊢
    rw [List.length_append, List.length_append] at hfits ⊢
    rw [chosen.six]
    exact hfits
  rw [translatePath_split PATH_MAX root.ne_nil hsplit', rewritten, if_pos hfits', hfile,
    List.append_assoc]

/-- A completed template begins with a prefix only if the template did, or if it is the prefix. -/
theorem splits_completed {chosen : Chosen} {stem start suffix : Path}
    (h : Splits (stem ++ chosen.chars) start suffix) :
    suffix = [] ∨ ∃ rest, Splits (stem ++ pattern) start (rest ++ pattern) := by
  rcases h.boundary with hnil | hhead
  · exact .inl hnil
  · right
    rcases List.append_eq_append_iff.mp h.eq with ⟨rest, hstart, hchars⟩ | ⟨rest, hstem, hsuffix⟩
    · have hslash : '/' ∈ chosen.chars := by
        rw [hchars]
        exact List.mem_append_right _ (List.mem_of_mem_head? hhead)
      exact absurd hslash chosen.noSlash
    · refine ⟨rest, h.mem, by rw [hstem, List.append_assoc], .inr ?_⟩
      cases rest with
      | nil =>
        rw [hsuffix] at hhead
        exact absurd (List.mem_of_mem_head? hhead) chosen.noSlash
      | cons c rest =>
        rw [hsuffix] at hhead
        exact hhead

/-- A template that can be completed to a prefix is not translated. -/
theorem not_splits_pattern {chosen : Chosen} {stem : Path} (hmem : stem ++ chosen.chars ∈ prefixes)
    (start suffix : Path) : ¬ Splits (stem ++ pattern) start suffix := by
  intro h
  rcases List.append_eq_append_iff.mp h.eq with ⟨rest, hstart, hpattern⟩ | ⟨rest, hstem, -⟩
  · have hnoX : ∀ start ∈ prefixes, 'X' ∉ start := by decide
    rcases h.boundary with rfl | hhead
    · refine hnoX _ h.mem ?_
      rw [hstart, ← List.append_nil rest, ← hpattern]
      exact List.mem_append_right _ List.mem_cons_self
    · have hslash : '/' ∈ pattern := by
        rw [hpattern]
        exact List.mem_append_right _ (List.mem_of_mem_head? hhead)
      exact absurd hslash (by decide)
  · have hbegins : start <+: stem ++ chosen.chars :=
      ⟨rest ++ chosen.chars, by rw [hstem, List.append_assoc]⟩
    have heq := congrArg List.length (prefixes_free _ h.mem _ hmem hbegins)
    rw [List.length_append, hstem, List.length_append, chosen.six] at heq
    omega

/-- The host completes the template to exactly one of the five prefixes. -/
def Collides (outcome : Except Errno Chosen) (template : Option Path) : Prop :=
  ∃ chosen stem, outcome = .ok chosen ∧ template = some (stem ++ pattern) ∧
    stem ++ chosen.chars ∈ prefixes

/-- After a successful `mkstemp` the template translates to the file it created. -/
def MkstempAgrees (root : StorageRoot) (outcome : Except Errno Chosen) (template : Option Path) :
    Prop :=
  ∀ created, mkstemp root.text outcome template = .ok created →
    (translatePath root.text (some created.template) PATH_MAX).hostPath created.template =
      some created.file

theorem mkstempAgrees_of_not_collides {template : Option Path}
    (h : ¬ Collides outcome template) : MkstempAgrees root outcome template := by
  intro created hok
  cases template with
  | none => cases hok
  | some template =>
    rcases mkstemp_ok hok with
      ⟨htranslation, hhost, hsame⟩ | ⟨translated, htranslation, hhost, htemplate⟩
    · obtain ⟨chosen, stem, rfl, rfl, hfile⟩ := hostMkstemp_ok hhost
      have hnone : ∀ start suffix, ¬ Splits created.template start suffix := by
        intro start suffix hsplit
        rw [hsame, hfile] at hsplit
        rcases splits_completed hsplit with rfl | ⟨rest, hbefore⟩
        · refine h ⟨chosen, stem, rfl, rfl, ?_⟩
          rw [hsplit.eq, List.append_nil]
          exact hsplit.mem
        · rw [translatePath_split PATH_MAX root.ne_nil hbefore, rewritten] at htranslation
          split at htranslation <;> cases htranslation
      rw [translatePath_unchanged PATH_MAX hnone, Translation.hostPath, hsame]
    · by_cases hsplits : ∃ start suffix, Splits template start suffix
      · obtain ⟨start, suffix, hsplit⟩ := hsplits
        rw [translatePath_split PATH_MAX root.ne_nil hsplit, rewritten] at htranslation
        split at htranslation
        · next hfits =>
          cases htranslation
          obtain rfl := hsplit.eq
          rw [mkstemp_rewritten hsplit hfits hhost htemplate, Translation.hostPath]
        · cases htranslation
      · push Not at hsplits
        rw [translatePath_unchanged PATH_MAX hsplits] at htranslation
        cases htranslation

/-- On a collision the template names the storage root, and the file is elsewhere. -/
theorem not_mkstempAgrees_of_collides {template : Option Path} (h : Collides outcome template) :
    ¬ MkstempAgrees root outcome template := by
  obtain ⟨chosen, stem, rfl, rfl, hmem⟩ := h
  intro hagrees
  have hsplit : Splits (stem ++ chosen.chars) (stem ++ chosen.chars) [] :=
    ⟨hmem, (List.append_nil _).symm, .inl rfl⟩
  have hnone := not_splits_pattern hmem
  have hmkstemp : mkstemp root.text (.ok chosen) (some (stem ++ pattern)) =
      .ok ⟨stem ++ chosen.chars, stem ++ chosen.chars⟩ := by
    rw [mkstemp]
    dsimp only
    rw [translatePath_unchanged PATH_MAX hnone]
    dsimp only
    rw [hostMkstemp_pattern]
    rfl
  have htranslate := hagrees _ hmkstemp
  dsimp only at htranslate
  rw [translatePath_split PATH_MAX root.ne_nil hsplit, rewritten, List.append_nil] at htranslate
  split at htranslate
  · rw [Translation.hostPath, Option.some.injEq] at htranslate
    rw [← htranslate] at hmem
    exact root.notMem_prefixes hmem
  · cases htranslate

end Mkstemp

section Virtualization

/-- A path is rewritten exactly if a prefix begins it, never truncated, and else unchanged. -/
def Rewrites (root : Path) : Prop :=
  (∀ path start suffix size, Splits path start suffix →
    (∀ start' suffix', Splits path start' suffix' → start' = start ∧ suffix' = suffix) ∧
    translatePath root (some path) size = rewritten root suffix size) ∧
  ∀ path size, (∀ start suffix, ¬ Splits path start suffix) →
    translatePath root (some path) size = .unchanged

/-- A successful `getcwd` translates back to a directory of the root, and is any other directory. -/
def CwdAgrees (root : Path) : Prop :=
  ∀ failure directory buffer noMemory result,
    getcwd root failure directory buffer noMemory = .ok result →
    (AtOrBelow root directory → translatePath root (some result) PATH_MAX = .rewritten directory) ∧
    (¬ AtOrBelow root directory → result = directory)

theorem rewrites (root : StorageRoot) : Rewrites root.text :=
  ⟨fun _ _ _ size h => ⟨fun _ _ h' => h.unique h', translatePath_split size root.ne_nil h⟩,
    fun _ size h => translatePath_unchanged size h⟩

theorem cwdAgrees (root : StorageRoot) : CwdAgrees root.text :=
  fun _ _ _ _ _ hok => ⟨fun hbelow => getcwd_translates hbelow hok, fun h => getcwd_elsewhere h hok⟩

/-- Translation and `getcwd` are right everywhere; `mkstemp` unless the template is completed
to a prefix. -/
theorem virtualizes_iff (root : StorageRoot) (outcome : Except Errno Chosen)
    (template : Option Path) :
    Rewrites root.text ∧ CwdAgrees root.text ∧
      (MkstempAgrees root outcome template ↔ ¬ Collides outcome template) := by
  refine ⟨rewrites root, cwdAgrees root, ?_, mkstempAgrees_of_not_collides⟩
  exact fun hagrees hcollides => not_mkstempAgrees_of_collides hcollides hagrees

def portRoot : StorageRoot :=
  ⟨"/roms/ports/asm2/gamefiles".toList, .inr ⟨"/roms/ports/asm2".toList, rfl⟩⟩

def sdcard : Chosen := ⟨"sdcard".toList, rfl, by decide⟩

/-- The file `sdcard` of the working directory: its path means the storage root. -/
theorem mkstemp_sdcard : ¬ MkstempAgrees portRoot (.ok sdcard) (some pattern) := by
  intro hagrees
  have hmkstemp : mkstemp portRoot.text (.ok sdcard) (some pattern) =
      .ok ⟨"sdcard".toList, "sdcard".toList⟩ := rfl
  have htranslate : (translatePath portRoot.text (some "sdcard".toList) PATH_MAX).hostPath
      "sdcard".toList = some portRoot.text := by decide +kernel
  have h := (hagrees _ hmkstemp).symm.trans htranslate
  exact absurd h (by decide)

end Virtualization

end Asm2Runtime.PathBridge
