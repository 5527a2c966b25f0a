import Mathlib.Data.List.Infix

/-!
# Relative paths of nxextract.py

A path is text with slashes. What counts is the list of its parts, and the tests on texts
agree with the ones on parts.
-/

namespace Asm2Runtime.RelativePath

abbrev Text := List Char

section Parts

def split (value : Text) : List Text := value.splitOn '/'

def join (parts : List Text) : Text := List.intercalate ['/'] parts

def isUnder (value root : Text) : Bool := value = root || (root ++ ['/']).isPrefixOf value

@[simp] theorem join_split (value : Text) : join (split value) = value :=
  List.intercalate_splitOn '/'

theorem split_ne_nil (value : Text) : split value ≠ [] := List.splitOn_ne_nil _ _

theorem split_injective {v w : Text} (h : split v = split w) : v = w := by
  rw [← join_split v, h, join_split]

theorem split_slash (v w : Text) : split (v ++ '/' :: w) = split v ++ split w :=
  List.splitOn_append_cons_self v w

theorem join_append {parts more : List Text} (h : parts ≠ []) (hmore : more ≠ []) :
    join (parts ++ more) = join parts ++ '/' :: join more := by
  induction parts with
  | nil => exact absurd rfl h
  | cons part parts ih =>
    cases parts with
    | nil =>
      rw [List.singleton_append, join, List.intercalate_cons_of_ne_nil hmore]
      simp [join]
    | cons next parts =>
      have hrest := ih (List.cons_ne_nil _ _)
      simp only [join, List.cons_append, List.intercalate_cons_cons] at hrest ⊢
      rw [hrest]
      simp

theorem isUnder_iff {value root : Text} :
    isUnder value root = true ↔ split root <+: split value := by
  rw [isUnder, Bool.or_eq_true, decide_eq_true_iff, List.isPrefixOf_iff_prefix]
  constructor
  · rintro (rfl | ⟨more, rfl⟩)
    · exact List.prefix_rfl
    · rw [List.append_assoc, List.singleton_append, split_slash]
      exact List.prefix_append _ _
  · rintro ⟨more, hmore⟩
    by_cases hnil : more = []
    · rw [hnil, List.append_nil] at hmore
      exact .inl (split_injective hmore).symm
    · refine .inr ⟨join more, ?_⟩
      have hvalue := join_append (split_ne_nil root) hnil
      rw [hmore, join_split, join_split] at hvalue
      rw [hvalue, List.append_assoc, List.singleton_append]

end Parts

section Checks

/-- `RecipeError` and `SourceError` of the functions below, with what their texts show. -/
inductive PathFailure where
  /-- "unsafe %s: %r" -/
  | unsafePath (label value : Text)
  /-- "unsafe ZIP entry name: %r" -/
  | unsafeEntryName (name : Text)
  /-- "unsafe absolute ZIP entry: %r" -/
  | unsafeAbsoluteEntry (name : Text)
  /-- "unsafe ZIP entry path: %r" -/
  | unsafeEntryPath (name : Text)
  /-- "%s escapes its root: %s" -/
  | escapesRoot (label relative : Text)
  deriving DecidableEq, Repr

/-- A character that no path may hold. -/
def isUnsafe (c : Char) : Bool := c = '\x00' || c = '\\' || c.toNat < 32

/-- `part in ("", ".", "..")` -/
def isDots (part : Text) : Bool := part = [] || part = ['.'] || part = ['.', '.']

/-- `validate_relative_path` without `allow_dot`, which no caller sets -/
def validateRelativePath (label value : Text) : Except PathFailure Text :=
  if value.any isUnsafe then .error (.unsafePath label value)
  else if value = [] ∨ ['/'].isPrefixOf value then .error (.unsafePath label value)
  else if (split value).any isDots then .error (.unsafePath label value)
  else .ok (join (split value))

def safeZipName (name : Text) (directory : Bool) : Except PathFailure Text :=
  if name.any isUnsafe then .error (.unsafeEntryName name)
  else if ['/'].isPrefixOf name then .error (.unsafeAbsoluteEntry name)
  else
    let clean := if directory ∧ name.getLast? = some '/' then name.dropLast else name
    if clean = [] then .ok []
    else if (split clean).any fun part => isDots part || ':' ∈ part then
      .error (.unsafeEntryPath name)
    else .ok (join (split clean))

/-- One part of a path as `os.path.abspath` reads it, behind the parts so far. -/
def enter (parts : List Text) (part : Text) : List Text :=
  if part = [] ∨ part = ['.'] then parts
  else if part = ['.', '.'] then parts.dropLast
  else parts ++ [part]

/-- `safe_join`: below the parts of the real path of a root. -/
def safeJoin (root : List Text) (label relative : Text) : Except PathFailure (List Text) := do
  let relative ← validateRelativePath label relative
  let destination := (split relative).foldl enter root
  -- os.path.commonpath((root, destination)) == root
  if root.isPrefixOf destination then .ok destination else .error (.escapesRoot label relative)

/-- A path all of whose parts name something. -/
def IsPlain (value : Text) : Prop := (∀ c ∈ value, isUnsafe c = false) ∧
  ∀ part ∈ split value, isDots part = false

theorem head_of_split {value : Text} (h : ['/'].isPrefixOf value = true) : [] ∈ split value := by
  obtain ⟨more, rfl⟩ := List.isPrefixOf_iff_prefix.mp h
  have hsplit := split_slash [] more
  rw [List.nil_append] at hsplit
  rw [List.singleton_append, hsplit]
  exact List.mem_append_left _ (by decide)

/-- The check changes nothing: a path is taken as it is, or not. -/
theorem validateRelativePath_iff {label value result : Text} :
    validateRelativePath label value = .ok result ↔ result = value ∧ IsPlain value := by
  rw [validateRelativePath]
  by_cases hunsafe : value.any isUnsafe = true
  · obtain ⟨c, hc, hbad⟩ := List.any_eq_true.mp hunsafe
    rw [if_pos hunsafe]
    refine ⟨fun h => (by cases h), fun h => ?_⟩
    simp [h.2.1 c hc] at hbad
  · rw [if_neg hunsafe]
    have hchars : ∀ c ∈ value, isUnsafe c = false := by
      simpa using hunsafe
    by_cases hstart : value = [] ∨ ['/'].isPrefixOf value = true
    · rw [if_pos hstart]
      refine ⟨fun h => (by cases h), fun h => ?_⟩
      have hempty : [] ∈ split value := by
        rcases hstart with rfl | hslash
        · decide
        · exact head_of_split hslash
      exact absurd (h.2.2 [] hempty) (by decide)
    · rw [if_neg hstart]
      by_cases hdots : (split value).any isDots = true
      · obtain ⟨part, hpart, hbad⟩ := List.any_eq_true.mp hdots
        rw [if_pos hdots]
        refine ⟨fun h => (by cases h), fun h => ?_⟩
        simp [h.2.2 part hpart] at hbad
      · have hparts : ∀ part ∈ split value, isDots part = false := by
          simpa using hdots
        rw [if_neg hdots, join_split]
        exact ⟨fun h => ⟨(Except.ok.inj h).symm, hchars, hparts⟩, fun h => by rw [h.1]⟩

/-- A plain path is entered part by part, whatever the root. -/
theorem foldl_enter {parts : List Text} (h : ∀ part ∈ parts, isDots part = false)
    (root : List Text) : parts.foldl enter root = root ++ parts := by
  induction parts generalizing root with
  | nil => simp
  | cons part parts ih =>
    have hpart := h part List.mem_cons_self
    simp only [isDots, Bool.or_eq_false_iff, decide_eq_false_iff_not] at hpart
    rw [List.foldl_cons, enter, if_neg (by tauto), if_neg hpart.2,
      ih fun p hp => h p (List.mem_cons_of_mem _ hp)]
    simp

/-- Behind the check of the path, `safe_join` never finds that it escapes. -/
theorem safeJoin_iff {root : List Text} {label relative : Text} {destination : List Text} :
    safeJoin root label relative = .ok destination ↔
      IsPlain relative ∧ destination = root ++ split relative := by
  rw [safeJoin]
  cases hcheck : validateRelativePath label relative with
  | error failure =>
    refine ⟨fun h => (by cases h), fun h => ?_⟩
    rw [validateRelativePath_iff.mpr ⟨rfl, h.1⟩] at hcheck
    cases hcheck
  | ok result =>
    obtain ⟨rfl, hplain⟩ := validateRelativePath_iff.mp hcheck
    have hfold := foldl_enter hplain.2 root
    have hinside : root.isPrefixOf (root ++ split result) = true :=
      List.isPrefixOf_iff_prefix.mpr (List.prefix_append _ _)
    show (if root.isPrefixOf ((split result).foldl enter root) then _ else _) = _ ↔ _
    rw [hfold, if_pos hinside]
    exact ⟨fun h => ⟨hplain, (Except.ok.inj h).symm⟩, fun h => by rw [h.2]⟩

end Checks

end Asm2Runtime.RelativePath
