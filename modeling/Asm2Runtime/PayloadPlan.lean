import Asm2Runtime.RelativePath
import Mathlib.Data.List.DropRight
import Mathlib.Data.List.Nodup
import Mathlib.Data.List.Pairwise

/-!
# Choosing the payload in nxextract.py

`build_plan_for` selects the members and files of one input set by the rules of the recipe
and gives each a destination below a commit path. Formats of templates, case folding and
patterns are Python's; validations of contents are left to the recipe's tests.
-/

namespace Asm2Runtime.PayloadPlan

open RelativePath

section Inputs

structure Info where
  fileSize : Nat
  crc : Nat
  deriving DecidableEq, Repr

/-- Members are keyed by their checked names, in the order of the archive. -/
structure Archive where
  path : Text
  kind : Text
  label : Text
  members : List (Text × Info)
  deriving DecidableEq, Repr

structure LooseFile where
  path : Text
  label : Text
  size : Nat
  crc : Nat
  deriving DecidableEq, Repr

structure Group where
  archives : List Archive
  loose : List LooseFile
  deriving DecidableEq, Repr

inductive SourceKind where
  | entry | entries | file | entryOrFile
  deriving DecidableEq, Repr

/-- `source` of a rule; `case_sensitive` has two defaults. -/
structure Source where
  kind : SourceKind
  patterns : List Text
  scopes : List Text
  caseSensitive : Option Bool
  fileExtensions : List Text
  stripPrefix : Text
  flatten : Bool

structure Rule (Spec : Type) where
  id : Text
  source : Source
  destination : Text
  required : Bool
  validate : Spec

/-- A recipe whose rules have passed `_validate_rule`, which refuses an id it has seen. -/
structure Recipe (Spec : Type) where
  extract : List (Rule Spec)
  commit : List Text
  ids : (extract.map Rule.id).Nodup

/-- What a plan item is copied from. -/
inductive Candidate where
  | member (archive : Archive) (info : Info) (name : Text)
  | loose (file : LooseFile)
  deriving DecidableEq, Repr

structure SourceItem where
  ruleId : Text
  destination : Text
  source : Candidate
  size : Nat
  crc : Option Nat
  sourceName : Text
  sourceLabel : Text
  deriving DecidableEq, Repr

/-- `SourceItem.__init__` -/
def SourceItem.new (ruleId destination : Text) : Candidate → SourceItem
  | .member archive info name =>
    ⟨ruleId, destination, .member archive info name, info.fileSize, some info.crc, name,
      archive.label⟩
  | .loose file => ⟨ruleId, destination, .loose file, file.size, none, file.label, file.label⟩

structure Plan where
  group : Group
  abi : Text
  items : List SourceItem
  commitPaths : List Text
  deriving DecidableEq, Repr

/-- The exceptions of the planning. -/
inductive PlanFailure where
  | path (failure : PathFailure)
  /-- "invalid template %r: %s" -/
  | invalidTemplate (value : Text)
  /-- "expanded commit paths overlap: %s / %s" -/
  | commitOverlap (left right : Text)
  /-- "source scopes must contain apk and/or bundle" -/
  | sourceScopes
  /-- "required payload %s was not found", with the candidates that failed the validation -/
  | notFound (rule : Text) (rejected : Nat)
  /-- "payload %s is ambiguous (%d different matching files)" -/
  | ambiguous (rule : Text) (identities : Nat)
  /-- "required payload tree %s was not found" -/
  | treeNotFound (rule : Text)
  /-- "payload %s has a conflicting destination: %s" -/
  | treeConflict (rule destination : Text)
  /-- "payload tree %s failed count/size validation" -/
  | treeInvalid (rule : Text)
  /-- "destination %s is outside recipe commit roots" -/
  | outsideCommit (destination : Text)
  /-- "two rules write conflicting path %s" -/
  | rulesConflict (destination : Text)
  /-- "recipe selected no payload" -/
  | nothingSelected
  deriving DecidableEq, Repr

/-- Python's text functions, and the tests of contents and sums against a validation. -/
structure Library (Spec : Type) where
  /-- `value.format(abi=abi, basename=basename)`; none is a `KeyError` or `ValueError`. -/
  format : Text → Text → Text → Option Text
  casefold : Text → Text
  fnmatch : Text → Text → Bool
  /-- `Path(path).suffix.lower()` -/
  suffix : Text → Text
  lower : Text → Text
  memberValid : Archive → Info → Spec → Text → Bool
  looseValid : LooseFile → Spec → Text → Bool
  summaryValid : Nat → Nat → Spec → Bool

end Inputs

section Selection

variable {Spec : Type} (lib : Library Spec)

def templateValue (value abi basename : Text) : Except PlanFailure Text :=
  match lib.format value abi basename with
  | some result => .ok result
  | none => .error (.invalidTemplate value)

def checkedPath (label value : Text) : Except PlanFailure Text :=
  (validateRelativePath label value).mapError .path

def memberMatches (name pattern : Text) (caseSensitive : Bool) : Bool :=
  if caseSensitive then lib.fnmatch name pattern
  else lib.fnmatch (lib.casefold name) (lib.casefold pattern)

/-- `_source_scopes` -/
def sourceScopes (source : Source) : Except PlanFailure (List Text) :=
  if source.scopes.all fun scope => scope = "apk".toList ∨ scope = "bundle".toList then
    .ok source.scopes
  else .error .sourceScopes

abbrev Match := Archive × Info × Text

/-- `_candidate_members`, the matches of each pattern -/
def candidateMembers (group : Group) (source : Source) (abi : Text) :
    Except PlanFailure (List (List Match)) := do
  let patterns ← source.patterns.mapM fun value => templateValue lib value abi []
  let scopes ← sourceScopes source
  return patterns.map fun pattern =>
    (group.archives.filter fun archive => archive.kind ∈ scopes).flatMap fun archive =>
      (archive.members.filter fun member =>
        memberMatches lib member.1 pattern (source.caseSensitive.getD true)).map fun member =>
          (archive, member.2, member.1)

/-- `_candidate_loose` -/
def candidateLoose (group : Group) (source : Source) (abi : Text) :
    Except PlanFailure (List LooseFile) := do
  let patterns ← source.patterns.mapM fun value => templateValue lib value abi []
  let extensions := source.fileExtensions.map lib.lower
  return group.loose.filter fun loose =>
    (extensions.isEmpty || lib.suffix loose.path ∈ extensions) &&
      patterns.any fun pattern =>
        memberMatches lib loose.label pattern (source.caseSensitive.getD false)

/-- The loop of `_choose_one` over the patterns: the valid matches of the first pattern that has
any, and how many matches were rejected up to there. -/
def firstValid (valid : Match → Bool) : List (List Match) → Nat → List Match × Nat
  | [], rejected => ([], rejected)
  | found :: rest, rejected =>
    let rejected := rejected + (found.filter fun found => !valid found).length
    if found.filter valid = [] then firstValid valid rest rejected
    else (found.filter valid, rejected)

/-- The key of a candidate in `identities` -/
def Candidate.key : Candidate → Nat × Nat
  | .member _ info _ => (info.fileSize, info.crc)
  | .loose file => (file.size, file.crc)

/-- `PurePosixPath(name).name` of a checked name -/
def baseName (name : Text) : Text := (split name).getLastD []

def Candidate.baseName : Candidate → Text
  | .member _ _ name => PayloadPlan.baseName name
  | .loose file => file.label

/-- The members that `_choose_one` takes into account, with the number of rejected ones. -/
def memberCandidates (rule : Rule Spec) (group : Group) (abi : Text) :
    Except PlanFailure (List Match × Nat) :=
  if rule.source.kind = .entry ∨ rule.source.kind = .entryOrFile then
    (candidateMembers lib group rule.source abi).map fun byPattern =>
      firstValid (fun found => lib.memberValid found.1 found.2.1 rule.validate abi) byPattern 0
  else .ok ([], 0)

/-- The files that `_choose_one` takes into account, valid or not. -/
def looseCandidates (rule : Rule Spec) (group : Group) (abi : Text) :
    Except PlanFailure (List LooseFile) :=
  if rule.source.kind = .file ∨ rule.source.kind = .entryOrFile then
    candidateLoose lib group rule.source abi
  else .ok []

/-- The end of `_choose_one`: all candidates must agree in size and CRC. -/
def chooseCandidate (rule : Rule Spec) (abi : Text) (rejected : Nat) (candidates : List Candidate) :
    Except PlanFailure (Option SourceItem) :=
  match candidates with
  | [] => if rule.required then .error (.notFound rule.id rejected) else .ok none
  | selected :: _ =>
    let identities := (candidates.map Candidate.key).dedup
    if identities.length > 1 then .error (.ambiguous rule.id identities.length)
    else do
      let destination ← templateValue lib rule.destination abi selected.baseName
      let destination ← checkedPath "destination".toList destination
      return some (.new rule.id destination selected)

/-- `_choose_one` -/
def chooseOne (rule : Rule Spec) (group : Group) (abi : Text) :
    Except PlanFailure (Option SourceItem) := do
  let (members, rejectedMembers) ← memberCandidates lib rule group abi
  let looseAll ← looseCandidates lib rule group abi
  let loose := looseAll.filter fun file => lib.looseValid file rule.validate abi
  chooseCandidate lib rule abi (rejectedMembers + (looseAll.length - loose.length))
    (members.map (fun (archive, info, name) => Candidate.member archive info name) ++
      loose.map .loose)

/-- The matches of all patterns, each member of an archive once. -/
def distinctMatches (found : List Match) : List Match :=
  found.foldl (fun seen m =>
    if seen.any fun s => s.1.path = m.1.path ∧ s.2.2 = m.2.2 then seen else seen ++ [m]) []

/-- The path of a member below the destination of its tree; none is skipped. -/
def treeRelative (source : Source) (stripPrefix name : Text) : Option Text :=
  let relative :=
    if stripPrefix ≠ [] then
      if stripPrefix.isPrefixOf name then some (name.drop stripPrefix.length) else none
    else some (if source.flatten then baseName name else name)
  relative.bind fun relative =>
    let relative := if source.flatten then baseName relative else relative
    if relative = [] then none else some relative

/-- `value.rstrip("/")` -/
def rstripSlash (value : Text) : Text := value.rdropWhile (· = '/')

/-- One turn of the loop of `_choose_many`; `destinations` has its values for its keys. -/
def addTreeItem (rule : Rule Spec) (root stripPrefix : Text) (destinations : List SourceItem)
    (found : Match) : Except PlanFailure (List SourceItem) :=
  let (archive, info, name) := found
  match treeRelative rule.source stripPrefix name with
  | none => .ok destinations
  | some relative => do
    let _ ← (safeZipName relative false).mapError PlanFailure.path
    let destination := rstripSlash root ++ '/' :: relative
    let destination ← checkedPath "destination".toList destination
    match destinations.find? fun i => lib.casefold i.destination = lib.casefold destination with
    | some previous =>
      if previous.destination ≠ destination ∨ previous.size ≠ info.fileSize ∨
          previous.crc ≠ some info.crc then
        throw (.treeConflict rule.id destination)
      else return destinations
    | none => return destinations ++ [.new rule.id destination (.member archive info name)]

def addTreeItems (rule : Rule Spec) (root stripPrefix : Text) : List SourceItem → List Match →
    Except PlanFailure (List SourceItem)
  | destinations, [] => .ok destinations
  | destinations, found :: rest => do
    let destinations ← addTreeItem lib rule root stripPrefix destinations found
    addTreeItems rule root stripPrefix destinations rest

/-- `strip_prefix` of a rule, with a slash at its end -/
def treePrefix (source : Source) (abi : Text) : Except PlanFailure Text :=
  if source.stripPrefix = [] then .ok []
  else (templateValue lib source.stripPrefix abi []).map fun value =>
    if value ≠ [] ∧ value.getLast? ≠ some '/' then value ++ ['/'] else value

/-- Python's order of texts. -/
def textLe (left right : Text) : Bool := !right.lex left fun c d => c.toNat < d.toNat

/-- `_choose_many` from its matches on -/
def chooseTree (rule : Rule Spec) (abi : Text) (found : List Match) :
    Except PlanFailure (List SourceItem) := do
  let stripPrefix ← treePrefix lib rule.source abi
  let root ← templateValue lib rule.destination abi []
  let root ← checkedPath "destination".toList root
  let destinations ← addTreeItems lib rule root stripPrefix [] found
  let items := destinations.mergeSort fun a b =>
    textLe (lib.casefold a.destination) (lib.casefold b.destination)
  let total := items.foldl (fun total item => total + item.size) 0
  if lib.summaryValid items.length total rule.validate then .ok items
  else .error (.treeInvalid rule.id)

/-- `_choose_many` -/
def chooseMany (rule : Rule Spec) (group : Group) (abi : Text) :
    Except PlanFailure (List SourceItem) := do
  let byPattern ← candidateMembers lib group rule.source abi
  let found := distinctMatches byPattern.flatten
  if found = [] then if rule.required then .error (.treeNotFound rule.id) else .ok []
  else chooseTree lib rule abi found

end Selection

section Planning

variable {Spec : Type} (lib : Library Spec)

def commitOverlaps (left right : Text) : Bool :=
  left = right || (right ++ ['/']).isPrefixOf left || (left ++ ['/']).isPrefixOf right

/-- The pairs of the two loops of `_expand_commit_paths` -/
def firstOverlap : List Text → Option (Text × Text)
  | [] => none
  | left :: rest =>
    match rest.find? (commitOverlaps left) with
    | some right => some (left, right)
    | none => firstOverlap rest

/-- `_expand_commit_paths` -/
def expandCommitPaths (recipe : Recipe Spec) (abi : Text) : Except PlanFailure (List Text) := do
  let paths ← recipe.commit.mapM fun value => do
    checkedPath "commit path".toList (← templateValue lib value abi [])
  match firstOverlap paths with
  | some (left, right) => throw (.commitOverlap left right)
  | none => return paths

/-- `_under_any_commit` -/
def underAnyCommit (destination : Text) (commitPaths : List Text) : Bool :=
  commitPaths.any fun root =>
    destination = root || (rstripSlash root ++ ['/']).isPrefixOf destination

/-- `SourceItem.identity` -/
def SourceItem.identity (item : SourceItem) : Text × Text × Nat × Option Nat × Text :=
  (item.ruleId, lib.casefold item.destination, item.size, item.crc, item.sourceName)

def SourceItem.key (item : SourceItem) : Text := lib.casefold item.destination

/-- What `build_plan_for` selects by one rule. -/
def select (rule : Rule Spec) (group : Group) (abi : Text) : Except PlanFailure (List SourceItem) :=
  if rule.source.kind = .entries then chooseMany lib rule group abi
  else (chooseOne lib rule group abi).map Option.toList

/-- One item in `build_plan_for`; the values of `destinations` are the items so far. -/
def addItem (commitPaths : List Text) (items : List SourceItem) (item : SourceItem) :
    Except PlanFailure (List SourceItem) :=
  if underAnyCommit item.destination commitPaths = false then
    .error (.outsideCommit item.destination)
  else
    match items.find? fun previous => previous.key lib = item.key lib with
    | some previous =>
      if previous.identity lib ≠ item.identity lib then .error (.rulesConflict item.destination)
      else .ok items
    | none => .ok (items ++ [item])

def addItems (commitPaths : List Text) : List SourceItem → List SourceItem →
    Except PlanFailure (List SourceItem)
  | items, [] => .ok items
  | items, item :: rest => do addItems commitPaths (← addItem lib commitPaths items item) rest

def addRules (group : Group) (abi : Text) (commitPaths : List Text) : List SourceItem →
    List (Rule Spec) → Except PlanFailure (List SourceItem)
  | items, [] => .ok items
  | items, rule :: rest => do
    let selected ← select lib rule group abi
    addRules group abi commitPaths (← addItems lib commitPaths items selected) rest

/-- `build_plan_for` -/
def buildPlanFor (recipe : Recipe Spec) (group : Group) (abi : Text) : Except PlanFailure Plan := do
  let commitPaths ← expandCommitPaths lib recipe abi
  let items ← addRules lib group abi commitPaths [] recipe.extract
  if items = [] then throw .nothingSelected
  else return ⟨group, abi, items, commitPaths⟩

end Planning

section Results

theorem bind_ok {ε α β : Type} {x : Except ε α} {f : α → Except ε β} {b : β} :
    x >>= f = .ok b ↔ ∃ a, x = .ok a ∧ f a = .ok b := by
  cases x with
  | error e => exact ⟨fun h => (by cases h), fun ⟨a, h, _⟩ => (by cases h)⟩
  | ok a => exact ⟨fun h => ⟨a, rfl, h⟩, fun ⟨_, h, hf⟩ => by cases h; exact hf⟩

theorem map_ok {ε α β : Type} {x : Except ε α} {f : α → β} {b : β} :
    x.map f = .ok b ↔ ∃ a, x = .ok a ∧ f a = b := by
  cases x with
  | error e => exact ⟨fun h => (by cases h), fun ⟨a, h, _⟩ => (by cases h)⟩
  | ok a => exact ⟨fun h => ⟨a, rfl, Except.ok.inj h⟩, fun ⟨_, h, hf⟩ => by cases h; rw [← hf]; rfl⟩

theorem mapError_ok {ε ε' α : Type} {x : Except ε α} {f : ε → ε'} {a : α} :
    x.mapError f = .ok a ↔ x = .ok a := by
  cases x with
  | error e => exact ⟨fun h => (by cases h), fun h => (by cases h)⟩
  | ok b => exact ⟨fun h => by rw [Except.ok.inj h], fun h => by rw [Except.ok.inj h]; rfl⟩

theorem mapM_ok {ε α β : Type} {f : α → Except ε β} {xs : List α} {ys : List β}
    (h : xs.mapM f = .ok ys) : ∀ y ∈ ys, ∃ x ∈ xs, f x = .ok y := by
  induction xs generalizing ys with
  | nil =>
    obtain rfl : [] = ys := Except.ok.inj h
    simp
  | cons x xs ih =>
    rw [List.mapM_cons, bind_ok] at h
    obtain ⟨y, hy, h⟩ := h
    obtain ⟨rest, hrest, h⟩ := bind_ok.mp h
    obtain rfl : y :: rest = ys := Except.ok.inj h
    intro z hz
    rcases List.mem_cons.mp hz with rfl | hz
    · exact ⟨x, List.mem_cons_self, hy⟩
    · obtain ⟨w, hw, hfw⟩ := ih hrest z hz
      exact ⟨w, List.mem_cons_of_mem _ hw, hfw⟩

theorem checkedPath_iff {label value result : Text} :
    checkedPath label value = .ok result ↔ result = value ∧ IsPlain value := by
  rw [checkedPath, mapError_ok, validateRelativePath_iff]

end Results

section CommitPaths

/-- Neither path is the other or lies below it. -/
def Disjoint (left right : Text) : Prop :=
  ¬ split left <+: split right ∧ ¬ split right <+: split left

instance : Std.Symm Disjoint := ⟨fun _ _ h => ⟨h.2, h.1⟩⟩

theorem commitOverlaps_eq_false {left right : Text} :
    commitOverlaps left right = false ↔ Disjoint left right := by
  have hunder : commitOverlaps left right = (isUnder left right || isUnder right left) := by
    rw [commitOverlaps, isUnder, isUnder]
    by_cases h : left = right
    · simp [h]
    · simp [h, Ne.symm h]
  rw [hunder, Bool.or_eq_false_iff, ← Bool.not_eq_true, ← Bool.not_eq_true, isUnder_iff,
    isUnder_iff, Disjoint, and_comm]

theorem firstOverlap_eq_none {paths : List Text} :
    firstOverlap paths = none ↔ paths.Pairwise Disjoint := by
  induction paths with
  | nil => simp [firstOverlap]
  | cons left rest ih =>
    rw [firstOverlap, List.pairwise_cons, ← ih]
    cases hfind : rest.find? (commitOverlaps left) with
    | some right =>
      have hright := List.mem_of_find?_eq_some hfind
      have hoverlap := List.find?_some hfind
      refine ⟨fun h => (by cases h), fun h => ?_⟩
      rw [commitOverlaps_eq_false.mpr (h.1 right hright)] at hoverlap
      cases hoverlap
    | none =>
      have hnone := List.find?_eq_none.mp hfind
      simp only [iff_and_self]
      exact fun _ right hright => commitOverlaps_eq_false.mp (by simpa using hnone right hright)

/-- A plain path has no slash at its end. -/
theorem rstripSlash_plain {value : Text} (h : IsPlain value) : rstripSlash value = value := by
  rw [rstripSlash, List.rdropWhile_eq_self_iff]
  intro hne hlast
  have hslash : value.dropLast ++ '/' :: [] = value := by
    rw [← of_decide_eq_true hlast]
    exact List.dropLast_append_getLast hne
  have hempty : [] ∈ split value := by
    rw [← hslash, split_slash]
    exact List.mem_append_right _ (by decide)
  exact absurd (h.2 [] hempty) (by decide)

variable {Spec : Type} {lib : Library Spec} {recipe : Recipe Spec} {abi : Text}

/-- The commit paths are plain and disjoint. -/
theorem expandCommitPaths_ok {paths : List Text} (h : expandCommitPaths lib recipe abi = .ok paths) :
    (∀ path ∈ paths, IsPlain path) ∧ paths.Pairwise Disjoint := by
  rw [expandCommitPaths, bind_ok] at h
  obtain ⟨expanded, hexpanded, h⟩ := h
  cases hoverlap : firstOverlap expanded with
  | some pair =>
    rw [hoverlap] at h
    cases h
  | none =>
    rw [hoverlap] at h
    obtain rfl : expanded = paths := Except.ok.inj h
    refine ⟨fun path hpath => ?_, firstOverlap_eq_none.mp hoverlap⟩
    obtain ⟨value, -, hvalue⟩ := mapM_ok hexpanded path hpath
    obtain ⟨text, -, hchecked⟩ := bind_ok.mp hvalue
    obtain ⟨rfl, hplain⟩ := checkedPath_iff.mp hchecked
    exact hplain

theorem underAnyCommit_iff {destination : Text} {paths : List Text}
    (h : ∀ path ∈ paths, IsPlain path) :
    underAnyCommit destination paths = true ↔
      ∃ root ∈ paths, split root <+: split destination := by
  rw [underAnyCommit, List.any_eq_true]
  refine exists_congr fun root => and_congr_right fun hroot => ?_
  rw [rstripSlash_plain (h root hroot)]
  exact isUnder_iff

/-- At most one of disjoint roots is above a path. -/
theorem Disjoint.unique {left right destination : Text} (h : Disjoint left right)
    (hleft : split left <+: split destination) : ¬ split right <+: split destination := by
  intro hright
  rcases List.prefix_or_prefix_of_prefix hleft hright with h' | h'
  · exact h.1 h'
  · exact h.2 h'

end CommitPaths

section Selections

variable {Spec : Type} {lib : Library Spec} {rule : Rule Spec} {group : Group} {abi : Text}

/-- The items of a rule: its own, with plain destinations, no two of which fold to one. -/
structure Selected (lib : Library Spec) (rule : Rule Spec) (items : List SourceItem) : Prop where
  rule : ∀ item ∈ items, item.ruleId = rule.id
  plain : ∀ item ∈ items, IsPlain item.destination
  keys : (items.map (SourceItem.key lib)).Nodup

theorem SourceItem.new_ruleId (id destination : Text) (c : Candidate) :
    (SourceItem.new id destination c).ruleId = id := by
  cases c <;> rfl

theorem SourceItem.new_destination (id destination : Text) (c : Candidate) :
    (SourceItem.new id destination c).destination = destination := by
  cases c <;> rfl

theorem addTreeItem_selected {root stripPrefix : Text} {destinations items : List SourceItem}
    {found : Match} (hsel : Selected lib rule destinations)
    (h : addTreeItem lib rule root stripPrefix destinations found = .ok items) :
    Selected lib rule items := by
  obtain ⟨archive, info, name⟩ := found
  rw [addTreeItem] at h
  cases hrelative : treeRelative rule.source stripPrefix name with
  | none =>
    simp only [hrelative] at h
    obtain rfl := Except.ok.inj h
    exact hsel
  | some relative =>
    simp only [hrelative] at h
    obtain ⟨-, -, h⟩ := bind_ok.mp h
    obtain ⟨destination, hchecked, h⟩ := bind_ok.mp h
    obtain ⟨rfl, hplain⟩ := checkedPath_iff.mp hchecked
    split at h
    · split at h
      · cases h
      · obtain rfl := Except.ok.inj h
        exact hsel
    · next hfind =>
      obtain rfl := Except.ok.inj h
      refine ⟨fun item hitem => ?_, fun item hitem => ?_, ?_⟩
      · rcases List.mem_append.mp hitem with hitem | hitem
        · exact hsel.rule item hitem
        · rw [List.mem_singleton.mp hitem, SourceItem.new_ruleId]
      · rcases List.mem_append.mp hitem with hitem | hitem
        · exact hsel.plain item hitem
        · rw [List.mem_singleton.mp hitem, SourceItem.new_destination]
          exact hplain
      · rw [List.map_append, List.nodup_append]
        refine ⟨hsel.keys, List.nodup_singleton _, fun key hkey other hother hsame => ?_⟩
        obtain ⟨item, hitem, rfl⟩ := List.mem_map.mp hkey
        have hnone := List.find?_eq_none.mp hfind item hitem
        rw [List.map_singleton, List.mem_singleton] at hother
        rw [hother, SourceItem.key, SourceItem.key, SourceItem.new_destination] at hsame
        exact hnone (decide_eq_true hsame)

theorem addTreeItems_selected {root stripPrefix : Text} {found : List Match} :
    ∀ {destinations items : List SourceItem}, Selected lib rule destinations →
      addTreeItems lib rule root stripPrefix destinations found = .ok items →
      Selected lib rule items := by
  induction found with
  | nil =>
    intro destinations items hsel h
    obtain rfl := Except.ok.inj h
    exact hsel
  | cons m found ih =>
    intro destinations items hsel h
    obtain ⟨next, hnext, h⟩ := bind_ok.mp h
    exact ih (addTreeItem_selected hsel hnext) h

theorem Selected.perm {items sorted : List SourceItem} (h : Selected lib rule items)
    (hperm : sorted.Perm items) : Selected lib rule sorted where
  rule item hitem := h.rule item (hperm.mem_iff.mp hitem)
  plain item hitem := h.plain item (hperm.mem_iff.mp hitem)
  keys := (hperm.map (SourceItem.key lib)).nodup_iff.mpr h.keys

theorem Selected.nil : Selected lib rule [] := ⟨by simp, by simp, List.nodup_nil⟩

theorem chooseTree_selected {found : List Match} {items : List SourceItem}
    (h : chooseTree lib rule abi found = .ok items) : Selected lib rule items := by
  rw [chooseTree, bind_ok] at h
  obtain ⟨stripPrefix, -, h⟩ := h
  rw [bind_ok] at h
  obtain ⟨text, -, h⟩ := h
  rw [bind_ok] at h
  obtain ⟨root, -, h⟩ := h
  rw [bind_ok] at h
  obtain ⟨destinations, hadded, h⟩ := h
  simp only at h
  split at h
  · obtain rfl := Except.ok.inj h
    exact (addTreeItems_selected .nil hadded).perm (List.mergeSort_perm _ _)
  · cases h

theorem chooseMany_selected {items : List SourceItem}
    (h : chooseMany lib rule group abi = .ok items) : Selected lib rule items := by
  rw [chooseMany, bind_ok] at h
  obtain ⟨byPattern, -, h⟩ := h
  simp only at h
  split at h
  · split at h
    · cases h
    · obtain rfl := Except.ok.inj h
      exact .nil
  · exact chooseTree_selected h

theorem chooseCandidate_selected {rejected : Nat} {candidates : List Candidate}
    {item : Option SourceItem} (h : chooseCandidate lib rule abi rejected candidates = .ok item) :
    Selected lib rule item.toList := by
  cases candidates with
  | nil =>
    simp only [chooseCandidate] at h
    split at h
    · cases h
    · obtain rfl := Except.ok.inj h
      exact .nil
  | cons selected rest =>
    simp only [chooseCandidate] at h
    split at h
    · cases h
    · rw [bind_ok] at h
      obtain ⟨text, -, h⟩ := h
      rw [bind_ok] at h
      obtain ⟨destination, hchecked, h⟩ := h
      obtain ⟨rfl, hplain⟩ := checkedPath_iff.mp hchecked
      obtain rfl := Except.ok.inj h
      refine ⟨?_, ?_, by simp⟩
      · simp [SourceItem.new_ruleId]
      · simpa [SourceItem.new_destination] using hplain

theorem chooseOne_selected {item : Option SourceItem}
    (h : chooseOne lib rule group abi = .ok item) : Selected lib rule item.toList := by
  rw [chooseOne, bind_ok] at h
  obtain ⟨members, -, h⟩ := h
  rw [bind_ok] at h
  obtain ⟨looseAll, -, h⟩ := h
  exact chooseCandidate_selected h

theorem select_selected {items : List SourceItem} (h : select lib rule group abi = .ok items) :
    Selected lib rule items := by
  rw [select] at h
  split at h
  · exact chooseMany_selected h
  · obtain ⟨item, hitem, rfl⟩ := map_ok.mp h
    exact chooseOne_selected hitem

end Selections

section Plans

variable {Spec : Type} {lib : Library Spec} {group : Group} {abi : Text} {roots : List Text}

/-- An item behind those of other rules and those of its own rule with other keys. A key that is
taken is taken by another rule, whose identity is another one. -/
theorem addItem_iff {older done out : List SourceItem} {item : SourceItem}
    (holder : ∀ p ∈ older, p.ruleId ≠ item.ruleId) (hdone : ∀ p ∈ done, p.key lib ≠ item.key lib) :
    addItem lib roots (older ++ done) item = .ok out ↔
      out = older ++ done ++ [item] ∧ underAnyCommit item.destination roots = true ∧
        ∀ p ∈ older, p.key lib ≠ item.key lib := by
  rw [addItem]
  cases hunder : underAnyCommit item.destination roots with
  | false => simp
  | true =>
    rw [if_neg (by simp)]
    cases hfind : (older ++ done).find? fun previous => previous.key lib = item.key lib with
    | none =>
      have hnone := List.find?_eq_none.mp hfind
      refine ⟨fun h => ⟨(Except.ok.inj h).symm, rfl, fun p hp => ?_⟩, fun h => by rw [h.1]⟩
      simpa using hnone p (List.mem_append_left _ hp)
    | some previous =>
      have hkey : previous.key lib = item.key lib := by simpa using List.find?_some hfind
      have hin : previous ∈ older := by
        refine (List.mem_append.mp (List.mem_of_find?_eq_some hfind)).resolve_right fun hin => ?_
        exact hdone previous hin hkey
      have hother : previous.identity lib ≠ item.identity lib := fun hsame =>
        holder previous hin (congrArg Prod.fst hsame)
      simp only [if_pos hother]
      exact ⟨fun h => (by cases h), fun h => absurd hkey (h.2.2 previous hin)⟩

theorem addItems_iff {older done items out : List SourceItem}
    (holder : ∀ p ∈ older, ∀ i ∈ items, p.ruleId ≠ i.ruleId)
    (hkeys : ((done ++ items).map (SourceItem.key lib)).Nodup) :
    addItems lib roots (older ++ done) items = .ok out ↔
      out = older ++ (done ++ items) ∧ (∀ i ∈ items, underAnyCommit i.destination roots = true) ∧
        ∀ p ∈ older, ∀ i ∈ items, p.key lib ≠ i.key lib := by
  induction items generalizing done with
  | nil =>
    rw [addItems, List.append_nil]
    exact ⟨fun h => ⟨(Except.ok.inj h).symm, by simp, by simp⟩, fun h => by rw [h.1]⟩
  | cons item items ih =>
    have hnew : ∀ p ∈ done, p.key lib ≠ item.key lib := by
      intro p hp
      rw [List.map_append, List.nodup_append] at hkeys
      exact hkeys.2.2 _ (List.mem_map_of_mem hp) _ List.mem_cons_self
    have hitem : ∀ out, addItem lib roots (older ++ done) item = .ok out ↔
        out = older ++ done ++ [item] ∧ underAnyCommit item.destination roots = true ∧
          ∀ p ∈ older, p.key lib ≠ item.key lib :=
      fun out => addItem_iff (fun p hp => holder p hp item List.mem_cons_self) hnew
    have hkeys' : (((done ++ [item]) ++ items).map (SourceItem.key lib)).Nodup := by
      rwa [List.append_assoc, List.singleton_append]
    have hnext := ih (fun p hp i hi => holder p hp i (List.mem_cons_of_mem _ hi)) hkeys'
    rw [addItems, bind_ok]
    simp only [hitem, List.append_assoc, List.singleton_append] at hnext ⊢
    simp only [List.forall_mem_cons]
    constructor
    · rintro ⟨_, ⟨rfl, hunder, hapart⟩, h⟩
      obtain ⟨hout, hall, hkeys⟩ := hnext.mp h
      exact ⟨hout, ⟨hunder, hall⟩, fun p hp => ⟨hapart p hp, hkeys p hp⟩⟩
    · rintro ⟨hout, ⟨hunder, hall⟩, hkeys⟩
      exact ⟨_, ⟨rfl, hunder, fun p hp => (hkeys p hp).1⟩,
        hnext.mpr ⟨hout, hall, fun p hp => (hkeys p hp).2⟩⟩

/-- The rules of a recipe from some one on, behind the items of those before. -/
theorem addRules_iff {rules : List (Rule Spec)} {items out : List SourceItem}
    (hids : (rules.map Rule.id).Nodup) (hnew : ∀ p ∈ items, p.ruleId ∉ rules.map Rule.id)
    (hkeys : (items.map (SourceItem.key lib)).Nodup) :
    addRules lib group abi roots items rules = .ok out ↔
      ∃ selections, rules.mapM (fun rule => select lib rule group abi) = .ok selections ∧
        out = items ++ selections.flatten ∧
        (∀ i ∈ selections.flatten, underAnyCommit i.destination roots = true) ∧
        (out.map (SourceItem.key lib)).Nodup := by
  induction rules generalizing items with
  | nil =>
    rw [addRules, List.mapM_nil]
    constructor
    · intro h
      obtain rfl := Except.ok.inj h
      exact ⟨[], rfl, by simp, by simp, hkeys⟩
    · rintro ⟨selections, h, rfl, -, -⟩
      obtain rfl : [] = selections := Except.ok.inj h
      simp
  | cons rule rules ih =>
    rw [List.map_cons, List.nodup_cons] at hids
    rw [addRules, bind_ok]
    simp only [List.mapM_cons, bind_ok]
    have holder : ∀ selected, Selected lib rule selected →
        ∀ p ∈ items, ∀ i ∈ selected, p.ruleId ≠ i.ruleId := by
      intro selected hselected p hp i hi hsame
      rw [hselected.rule i hi] at hsame
      exact hnew p hp (hsame ▸ List.mem_cons_self)
    have hadd : ∀ selected, Selected lib rule selected → ∀ next,
        addItems lib roots items selected = .ok next ↔ next = items ++ selected ∧
          (∀ i ∈ selected, underAnyCommit i.destination roots = true) ∧
          ∀ p ∈ items, ∀ i ∈ selected, p.key lib ≠ i.key lib := by
      intro selected hselected next
      have hiff : addItems lib roots (items ++ []) selected = .ok next ↔ _ :=
        addItems_iff (holder selected hselected) (by simpa using hselected.keys)
      simpa using hiff
    have hnext : ∀ selected, Selected lib rule selected →
        (∀ p ∈ items, ∀ i ∈ selected, p.key lib ≠ i.key lib) →
        (∀ p ∈ items ++ selected, p.ruleId ∉ rules.map Rule.id) ∧
          ((items ++ selected).map (SourceItem.key lib)).Nodup := by
      intro selected hselected hapart
      constructor
      · intro p hp
        rcases List.mem_append.mp hp with hp | hp
        · exact fun hin => hnew p hp (List.mem_cons_of_mem _ hin)
        · rw [hselected.rule p hp]
          exact hids.1
      · rw [List.map_append, List.nodup_append]
        refine ⟨hkeys, hselected.keys, fun key hkey other hother => ?_⟩
        obtain ⟨p, hp, rfl⟩ := List.mem_map.mp hkey
        obtain ⟨i, hi, rfl⟩ := List.mem_map.mp hother
        exact hapart p hp i hi
    constructor
    · rintro ⟨selected, hsel, next, hadded, hrest⟩
      have hselected := select_selected hsel
      obtain ⟨rfl, hunder, hapart⟩ := (hadd selected hselected next).mp hadded
      obtain ⟨hnew', hkeys'⟩ := hnext selected hselected hapart
      obtain ⟨selections, hmap, rfl, hall, hnodup⟩ := (ih hids.2 hnew' hkeys').mp hrest
      refine ⟨selected :: selections, ⟨selected, hsel, selections, hmap, rfl⟩, ?_, ?_, hnodup⟩
      · rw [List.flatten_cons, List.append_assoc]
      · intro i hi
        rcases List.mem_append.mp hi with hi | hi
        · exact hunder i hi
        · exact hall i hi
    · rintro ⟨all, ⟨selected, hsel, selections, hmap, hpure⟩, rfl, hall, hnodup⟩
      obtain rfl : selected :: selections = all := Except.ok.inj hpure
      have hselected := select_selected hsel
      have hapart : ∀ p ∈ items, ∀ i ∈ selected, p.key lib ≠ i.key lib := by
        intro p hp i hi
        rw [List.map_append, List.nodup_append] at hnodup
        exact hnodup.2.2 _ (List.mem_map_of_mem hp) _
          (List.mem_map_of_mem (List.mem_append_left _ hi))
      obtain ⟨hnew', hkeys'⟩ := hnext selected hselected hapart
      refine ⟨selected, hsel, _, (hadd selected hselected _).mpr ⟨rfl, fun i hi =>
        hall i (List.mem_append_left _ hi), hapart⟩, (ih hids.2 hnew' hkeys').mpr
          ⟨selections, hmap, ?_, fun i hi => hall i (List.mem_append_right _ hi), hnodup⟩⟩
      rw [List.flatten_cons, List.append_assoc]

/-- The rules one behind the other, with commit paths that are accepted. -/
theorem addRules_selections {recipe : Recipe Spec} {roots : List Text} {items : List SourceItem}
    (hroots : expandCommitPaths lib recipe abi = .ok roots) :
    addRules lib group abi roots [] recipe.extract = .ok items ↔
      ∃ selections, recipe.extract.mapM (fun rule => select lib rule group abi) = .ok selections ∧
        items = selections.flatten ∧
        (∀ i ∈ items, ∃ root ∈ roots, split root <+: split i.destination) ∧
        (items.map (SourceItem.key lib)).Nodup := by
  have hunder : ∀ i : SourceItem, underAnyCommit i.destination roots = true ↔
      ∃ root ∈ roots, split root <+: split i.destination :=
    fun _ => underAnyCommit_iff (expandCommitPaths_ok hroots).1
  have hrules : addRules lib group abi roots [] recipe.extract = .ok items ↔
      ∃ selections, recipe.extract.mapM (fun rule => select lib rule group abi) = .ok selections ∧
        items = [] ++ selections.flatten ∧
        (∀ i ∈ selections.flatten, underAnyCommit i.destination roots = true) ∧
        (items.map (SourceItem.key lib)).Nodup :=
    addRules_iff recipe.ids (by simp) List.nodup_nil
  rw [hrules]
  constructor
  · rintro ⟨selections, hmap, rfl, hall, hnodup⟩
    exact ⟨selections, hmap, rfl, fun i hi => (hunder i).mp (hall i hi), hnodup⟩
  · rintro ⟨selections, hmap, rfl, hall, hnodup⟩
    exact ⟨selections, hmap, rfl, fun i hi => (hunder i).mpr (hall i hi), hnodup⟩

theorem buildPlanFor_ok {recipe : Recipe Spec} {plan : Plan} :
    buildPlanFor lib recipe group abi = .ok plan ↔
      ∃ roots items, expandCommitPaths lib recipe abi = .ok roots ∧
        addRules lib group abi roots [] recipe.extract = .ok items ∧ items ≠ [] ∧
        plan = ⟨group, abi, items, roots⟩ := by
  rw [buildPlanFor, bind_ok]
  constructor
  · rintro ⟨roots, hroots, h⟩
    rw [bind_ok] at h
    obtain ⟨items, hitems, h⟩ := h
    split at h
    · cases h
    · next hsome => exact ⟨roots, items, hroots, hitems, hsome, (Except.ok.inj h).symm⟩
  · rintro ⟨roots, items, hroots, hitems, hsome, rfl⟩
    refine ⟨roots, hroots, bind_ok.mpr ⟨items, hitems, ?_⟩⟩
    rw [if_neg hsome]
    rfl

/-- A plan is what the rules select, one behind the other: no item is left out for another. It
exists exactly if the commit paths expand, every rule selects, every destination lies below a
commit path, no two destinations fold to one, and anything is selected at all. -/
theorem buildPlanFor_iff {recipe : Recipe Spec} {plan : Plan} :
    buildPlanFor lib recipe group abi = .ok plan ↔
      ∃ roots selections, expandCommitPaths lib recipe abi = .ok roots ∧
        recipe.extract.mapM (fun rule => select lib rule group abi) = .ok selections ∧
        (∀ i ∈ selections.flatten, ∃ root ∈ roots, split root <+: split i.destination) ∧
        (selections.flatten.map (SourceItem.key lib)).Nodup ∧ selections.flatten ≠ [] ∧
        plan = ⟨group, abi, selections.flatten, roots⟩ := by
  rw [buildPlanFor_ok]
  constructor
  · rintro ⟨roots, items, hroots, hitems, hsome, rfl⟩
    obtain ⟨selections, hmap, rfl, hunder, hnodup⟩ := (addRules_selections hroots).mp hitems
    exact ⟨roots, selections, hroots, hmap, hunder, hnodup, hsome, rfl⟩
  · rintro ⟨roots, selections, hroots, hmap, hunder, hnodup, hsome, rfl⟩
    exact ⟨roots, _, hroots, (addRules_selections hroots).mpr ⟨_, hmap, rfl, hunder, hnodup⟩,
      hsome, rfl⟩

/-- Whatever the archives hold, a plan writes only below its commit paths. These are disjoint, so
each item belongs to one of them; no two items meet, not even without regard to case; and below
any root an item's file is at its own parts, never above. -/
theorem buildPlanFor_safe {recipe : Recipe Spec} {plan : Plan}
    (h : buildPlanFor lib recipe group abi = .ok plan) :
    (∀ path ∈ plan.commitPaths, IsPlain path) ∧ plan.commitPaths.Pairwise Disjoint ∧
    (plan.items.map (SourceItem.key lib)).Nodup ∧
    ∀ item ∈ plan.items, (∃! path, path ∈ plan.commitPaths ∧
        split path <+: split item.destination) ∧
      ∀ root label, safeJoin root label item.destination =
        .ok (root ++ split item.destination) := by
  obtain ⟨roots, items, hroots, hitems, -, rfl⟩ := buildPlanFor_ok.mp h
  obtain ⟨selections, hmap, rfl, hunder, hnodup⟩ := (addRules_selections hroots).mp hitems
  obtain ⟨hplain, hdisjoint⟩ := expandCommitPaths_ok hroots
  refine ⟨hplain, hdisjoint, hnodup, fun item hitem => ⟨?_, fun root label => ?_⟩⟩
  · obtain ⟨path, hpath, hprefix⟩ := hunder item hitem
    refine ⟨path, ⟨hpath, hprefix⟩, fun other ⟨hother, hbelow⟩ => ?_⟩
    by_contra hne
    exact (hdisjoint.forall hpath hother (Ne.symm hne)).unique hprefix hbelow
  · obtain ⟨selected, hselected, hin⟩ := List.mem_flatten.mp hitem
    obtain ⟨rule, -, hrule⟩ := mapM_ok hmap selected hselected
    exact safeJoin_iff.mpr ⟨(select_selected hrule).plain item hin, rfl⟩

/-- Templates without fields, and patterns that match themselves or, with a slash at the end, what
lies below. -/
def literalLibrary : Library Unit where
  format value _ _ := some value
  casefold value := value.map Char.toLower
  fnmatch name pattern :=
    name = pattern || pattern.getLast? = some '/' && pattern.isPrefixOf name
  suffix _ := []
  lower value := value
  memberValid _ _ _ _ := true
  looseValid _ _ _ := true
  summaryValid _ _ _ := true

/-- A rule for the game's library and one for the tree of its textures. -/
def libraryRule : Rule Unit :=
  ⟨"lib".toList, ⟨.entry, ["lib/armeabi/libtasm2.so".toList], ["apk".toList], none, [], [], false⟩,
    "lib/libtasm2.so".toList, true, ()⟩

def assetsRule : Rule Unit :=
  ⟨"assets".toList, ⟨.entries, ["assets/".toList], ["apk".toList, "bundle".toList], none, [],
    "assets".toList, false⟩, "data/tex".toList, true, ()⟩

def gameRecipe : Recipe Unit where
  extract := [libraryRule, assetsRule]
  commit := ["data".toList, "lib".toList]
  ids := by decide

def gameApk : Archive :=
  ⟨"/game.apk".toList, "apk".toList, "game.apk".toList,
    [("lib/armeabi/libtasm2.so".toList, ⟨100, 7⟩), ("res/icon.png".toList, ⟨5, 9⟩),
      ("assets/web.tga".toList, ⟨40, 3⟩)]⟩

def gameBundle : Archive :=
  ⟨"/game.obb".toList, "bundle".toList, "game.obb".toList,
    [("assets/city/roof.tga".toList, ⟨60, 4⟩)]⟩

def gameGroup : Group := ⟨[gameApk, gameBundle], []⟩

def libraryItem : SourceItem := .new "lib".toList "lib/libtasm2.so".toList
  (.member gameApk ⟨100, 7⟩ "lib/armeabi/libtasm2.so".toList)

def webItem : SourceItem := .new "assets".toList "data/tex/web.tga".toList
  (.member gameApk ⟨40, 3⟩ "assets/web.tga".toList)

def roofItem : SourceItem := .new "assets".toList "data/tex/city/roof.tga".toList
  (.member gameBundle ⟨60, 4⟩ "assets/city/roof.tga".toList)

theorem assetsRule_select :
    select literalLibrary assetsRule gameGroup "armeabi".toList = .ok [roofItem, webItem] := by
  have hcandidates : candidateMembers literalLibrary gameGroup assetsRule.source "armeabi".toList =
      .ok [[(gameApk, ⟨40, 3⟩, "assets/web.tga".toList),
        (gameBundle, ⟨60, 4⟩, "assets/city/roof.tga".toList)]] := by
    decide +kernel
  have hitems : addTreeItems literalLibrary assetsRule "data/tex".toList "assets/".toList []
      [(gameApk, ⟨40, 3⟩, "assets/web.tga".toList),
        (gameBundle, ⟨60, 4⟩, "assets/city/roof.tga".toList)] = .ok [webItem, roofItem] := by
    decide +kernel
  have horder : textLe (literalLibrary.casefold webItem.destination)
      (literalLibrary.casefold roofItem.destination) = false := by
    decide
  have hsorted : [webItem, roofItem].mergeSort (fun a b =>
      textLe (literalLibrary.casefold a.destination) (literalLibrary.casefold b.destination)) =
        [roofItem, webItem] := by
    simp [List.mergeSort, horder]
  have hkind : assetsRule.source.kind = .entries := rfl
  rw [select, if_pos hkind, chooseMany]
  refine bind_ok.mpr ⟨_, hcandidates, ?_⟩
  rw [if_neg (by decide), chooseTree]
  refine bind_ok.mpr ⟨"assets/".toList, by decide, bind_ok.mpr ⟨"data/tex".toList, rfl,
    bind_ok.mpr ⟨"data/tex".toList, by decide, bind_ok.mpr ⟨_, hitems, ?_⟩⟩⟩⟩
  rw [hsorted]
  rfl

theorem buildPlanFor_safe_library :
    ∃ plan, buildPlanFor literalLibrary gameRecipe gameGroup "armeabi".toList = .ok plan ∧
      plan.commitPaths.Pairwise Disjoint ∧ plan.items = [libraryItem, roofItem, webItem] := by
  have hselections : gameRecipe.extract.mapM (fun rule =>
      select literalLibrary rule gameGroup "armeabi".toList) =
        .ok [[libraryItem], [roofItem, webItem]] := by
    have hlibrary : select literalLibrary libraryRule gameGroup "armeabi".toList =
        .ok [libraryItem] := by
      decide +kernel
    have hextract : gameRecipe.extract = [libraryRule, assetsRule] := rfl
    rw [hextract, List.mapM_cons, List.mapM_cons, hlibrary, assetsRule_select]
    rfl
  have hroots : expandCommitPaths literalLibrary gameRecipe "armeabi".toList =
      .ok ["data".toList, "lib".toList] := by
    decide
  have hitems : addRules literalLibrary gameGroup "armeabi".toList ["data".toList, "lib".toList] []
      gameRecipe.extract = .ok [libraryItem, roofItem, webItem] :=
    (addRules_selections hroots).mpr ⟨_, hselections, rfl, by decide, by decide⟩
  have hplan : buildPlanFor literalLibrary gameRecipe gameGroup "armeabi".toList =
      .ok ⟨gameGroup, "armeabi".toList, [libraryItem, roofItem, webItem],
        ["data".toList, "lib".toList]⟩ :=
    buildPlanFor_ok.mpr ⟨_, _, hroots, hitems, by decide, rfl⟩
  exact ⟨_, hplan, (buildPlanFor_safe hplan).2.1, rfl⟩

end Plans

end Asm2Runtime.PayloadPlan
