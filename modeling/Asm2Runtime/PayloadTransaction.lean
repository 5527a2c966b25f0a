import Mathlib.Data.List.Infix
import Mathlib.Data.List.Nodup

/-!
# The payload transaction of nxextract.py

A commit renames each payload path of the plan to the backup and its staged successor to
its place, and writes the journal behind each rename. A crash leaves what a first part of
the operations makes of the disk; the next start reads the journal that it finds.
-/

namespace Asm2Runtime.PayloadTransaction

section Disk

/-- What lies below one commit path in the game directory, the stage and the backup.
Commit paths do not contain each other. -/
structure Slot (α : Type) where
  destination : Option α
  staged : Option α
  previous : Option α
  deriving DecidableEq, Repr

/-- The renames and `remove_path(destination)`. -/
inductive Move where
  | backUp | install | withdraw | restore | discard
  deriving DecidableEq, Repr

variable {α π : Type} [DecidableEq π]

def Slot.move (s : Slot α) : Move → Slot α
  | .backUp => { s with destination := none, previous := s.destination }
  | .install => { s with staged := none, destination := s.staged }
  | .withdraw => { s with destination := none, staged := s.destination }
  | .restore => { s with previous := none, destination := s.previous }
  | .discard => { s with destination := none }

structure Item (π : Type) where
  path : π
  backedUp : Bool
  installed : Bool
  deriving DecidableEq, Repr

structure Journal (π : Type) where
  transactionId : Nat
  published : Bool
  paths : List (Item π)
  deriving DecidableEq, Repr

/-- The disk; of the install marker only its transaction counts here. -/
structure Disk (π α : Type) where
  slots : π → Slot α
  journal : Option (Journal π)
  marker : Option Nat

inductive Operation (π : Type) where
  | move (path : π) (m : Move)
  | writeJournal (j : Journal π)
  | writeMarker (transactionId : Nat)
  | removeBackup
  | removeStage
  | unlinkJournal
  deriving DecidableEq, Repr

def Disk.apply (d : Disk π α) : Operation π → Disk π α
  | .move path m => { d with slots := fun p => if p = path then (d.slots p).move m else d.slots p }
  | .writeJournal j => { d with journal := some j }
  | .writeMarker transactionId => { d with marker := some transactionId }
  | .removeBackup => { d with slots := fun p => { d.slots p with previous := none } }
  | .removeStage => { d with slots := fun p => { d.slots p with staged := none } }
  | .unlinkJournal => { d with journal := none }

def Disk.run (d : Disk π α) (ops : List (Operation π)) : Disk π α := ops.foldl Disk.apply d

end Disk

section Commit

variable {α π : Type} [DecidableEq π]

/-- One turn of the loop of `commit_stage`, with the items before and behind in the journal. -/
def commitTurn (j : Journal π) (done : List (Item π)) (item : Item π) (rest : List (Item π))
    (d : Disk π α) : List (Operation π) × Item π :=
  let journalWrite (item : Item π) : Operation π :=
    .writeJournal { j with paths := done ++ item :: rest }
  let present := (d.slots item.path).destination.isSome
  let kept := if present then { item with backedUp := true } else item
  let moved := { kept with installed := true }
  ((if present then [.move item.path .backUp, journalWrite kept] else []) ++
    [.move item.path .install, journalWrite moved], moved)

/-- The `try` block of `commit_stage` from some turn of its loop on. -/
def commitPaths (j : Journal π) (done : List (Item π)) : List (Item π) → Disk π α →
    List (Operation π)
  | [], _ =>
    [.writeMarker j.transactionId, .writeJournal { j with published := true, paths := done }]
  | item :: rest, d =>
    let turn := commitTurn j done item rest d
    turn.1 ++ commitPaths j (done ++ [turn.2]) rest (d.run turn.1)

/-- The journal that `commit_stage` starts with. -/
def commitJournal (transactionId : Nat) (paths : List π) : Journal π :=
  ⟨transactionId, false, paths.map fun path => ⟨path, false, false⟩⟩

/-- What runs before the `try` block -/
def commitStart (transactionId : Nat) (paths : List π) : List (Operation π) :=
  [.removeBackup, .writeJournal (commitJournal transactionId paths)]

/-- `commit_stage`, whose operations all succeed -/
def commitStage (transactionId : Nat) (paths : List π) (d : Disk π α) : List (Operation π) :=
  -- a missing staged path raises the ValidationError before the journal is written
  if paths.any fun p => (d.slots p).staged.isNone then [.removeBackup]
  else
    let j := commitJournal transactionId paths
    commitStart transactionId paths ++
      (commitPaths j [] j.paths (d.run (commitStart transactionId paths)) ++
        [.removeBackup, .removeStage, .unlinkJournal])

end Commit

section Rollback

variable {α π : Type} [DecidableEq π]

/-- One turn of the loop of `rollback_transaction` -/
def rollbackMoves (item : Item π) (s : Slot α) : List Move :=
  let withdrawn :=
    if item.installed ∧ s.destination.isSome then
      if s.staged.isNone then [.withdraw] else [.discard]
    else []
  let s := withdrawn.foldl Slot.move s
  withdrawn ++
    if item.backedUp ∧ s.previous.isSome then
      (if s.destination.isSome then [.discard] else []) ++ [.restore]
    else []

def rollbackItems : List (Item π) → Disk π α → List (Operation π)
  | [], _ => [.removeBackup, .unlinkJournal]
  | item :: rest, d =>
    let ops := (rollbackMoves item (d.slots item.path)).map (.move item.path)
    ops ++ rollbackItems rest (d.run ops)

def rollbackTransaction (j : Journal π) (d : Disk π α) : List (Operation π) :=
  rollbackItems j.paths.reverse d

def recoverTransaction (d : Disk π α) : List (Operation π) :=
  match d.journal with
  | none => []
  | some j =>
    if j.published ∨ d.marker = some j.transactionId then
      [.removeBackup, .removeStage, .unlinkJournal]
    else rollbackTransaction j d

/-- The journal in memory: each flag is set behind its rename, before the journal is written. -/
def Journal.note (j : Journal π) : Operation π → Journal π
  | .move path .backUp => { j with
      paths := j.paths.map fun i => if i.path = path then { i with backedUp := true } else i }
  | .move path .install => { j with
      paths := j.paths.map fun i => if i.path = path then { i with installed := true } else i }
  | _ => j

/-- `commit_stage` when an operation of its `try` block raises an exception behind those given. -/
def commitRaising (transactionId : Nat) (paths : List π) (ops : List (Operation π))
    (d : Disk π α) : List (Operation π) :=
  let before := commitStart transactionId paths ++ ops
  before ++ rollbackTransaction (ops.foldl Journal.note (commitJournal transactionId paths))
    (d.run before)

end Rollback

section Runs

variable {α π : Type} [DecidableEq π] {d : Disk π α} {ops : List (Operation π)}

@[simp] theorem run_nil (d : Disk π α) : d.run [] = d := rfl

@[simp] theorem run_cons (d : Disk π α) (op : Operation π) (ops : List (Operation π)) :
    d.run (op :: ops) = (d.apply op).run ops := rfl

theorem run_append (d : Disk π α) (first second : List (Operation π)) :
    d.run (first ++ second) = (d.run first).run second :=
  List.foldl_append

/-- What a crash leaves of two blocks, one behind the other. -/
theorem prefix_append_cases {β : Type} {xs first second : List β} (h : xs <+: first ++ second) :
    xs <+: first ∨ ∃ more, xs = first ++ more ∧ more <+: second := by
  rcases List.prefix_or_prefix_of_prefix h (List.prefix_append first second) with h' | ⟨more, rfl⟩
  · exact .inl h'
  · exact .inr ⟨more, rfl, (List.prefix_append_right_inj first).mp h⟩

/-- The moves of one path go by in another's slot. -/
theorem run_moves (d : Disk π α) (path : π) (ms : List Move) :
    d.run (ms.map (.move path)) =
      { d with slots := fun p => if p = path then ms.foldl Slot.move (d.slots p) else d.slots p } := by
  induction ms generalizing d with
  | nil => simp
  | cons m ms ih =>
    rw [List.map_cons, run_cons, ih]
    simp only [Disk.apply, List.foldl_cons]
    congr 1
    funext p
    by_cases hp : p = path <;> simp [hp]

end Runs

section CommitRuns

variable {α π : Type} [DecidableEq π]

/-- How far a path is: its item in the journal on the disk, and where its payload lies. The
journal is behind the disk exactly while a rename of the path is the last operation. -/
inductive Progress (s : Slot α) (path : π) (last : Option (Operation π)) :
    Item π → Slot α → Prop where
  | waiting (h : ∀ m, last ≠ some (.move path m)) :
    Progress s path last ⟨path, false, false⟩ ⟨s.destination, s.staged, none⟩
  | emptied (h : last = some (.move path .backUp)) (hsome : s.destination.isSome) :
    Progress s path last ⟨path, false, false⟩ ⟨none, s.staged, s.destination⟩
  | backed (h : ∀ m, last ≠ some (.move path m)) (hsome : s.destination.isSome) :
    Progress s path last ⟨path, true, false⟩ ⟨none, s.staged, s.destination⟩
  | filled (h : last = some (.move path .install)) :
    Progress s path last ⟨path, s.destination.isSome, false⟩ ⟨s.staged, none, s.destination⟩
  | done (h : ∀ m, last ≠ some (.move path m)) :
    Progress s path last ⟨path, s.destination.isSome, true⟩ ⟨s.staged, none, s.destination⟩

omit [DecidableEq π] in
theorem Progress.of_eq {s t t' : Slot α} {p : π} {last : Option (Operation π)} {i i' : Item π}
    (h : Progress s p last i t) (hitem : i' = i) (hslot : t' = t) : Progress s p last i' t' := by
  subst hitem hslot
  exact h

/-- Between two turns of the loop. -/
structure Reached (start : π → Slot α) (j : Journal π) (done rest : List (Item π))
    (d : Disk π α) : Prop where
  nodup : ((done ++ rest).map Item.path).Nodup
  journal : d.journal = some { j with paths := done ++ rest }
  settled : ∀ i ∈ done, i = ⟨i.path, (start i.path).destination.isSome, true⟩ ∧
    d.slots i.path = ⟨(start i.path).staged, none, (start i.path).destination⟩
  waiting : ∀ i ∈ rest, i = ⟨i.path, false, false⟩ ∧
    d.slots i.path = ⟨(start i.path).destination, (start i.path).staged, none⟩

variable {start : π → Slot α} {j : Journal π} {done rest : List (Item π)} {item : Item π}
  {d e : Disk π α} {ops : List (Operation π)}

omit [DecidableEq π] in
theorem Reached.apart (h : Reached start j done (item :: rest) d) {i : Item π}
    (hi : i ∈ done ∨ i ∈ rest) : i.path ≠ item.path := by
  have hnodup := h.nodup
  rw [List.map_append, List.map_cons, List.nodup_append, List.nodup_cons] at hnodup
  obtain ⟨-, ⟨hrest, -⟩, hdone⟩ := hnodup
  intro hsame
  rcases hi with hi | hi
  · exact hdone _ (List.mem_map_of_mem hi) _ List.mem_cons_self hsame
  · exact hrest (hsame ▸ List.mem_map_of_mem hi)

omit [DecidableEq π] in
/-- During a turn only the turn's path moves. -/
theorem Reached.during (h : Reached start j done (item :: rest) d) {moved : Item π}
    (hpath : moved.path = item.path) (hslots : ∀ q, q ≠ item.path → e.slots q = d.slots q)
    {last : Option (Operation π)} (hlast : ∀ q m, last = some (.move q m) → q = item.path)
    (hmoved : Progress (start item.path) item.path last moved (e.slots item.path)) :
    ∀ i ∈ done ++ moved :: rest, Progress (start i.path) i.path last i (e.slots i.path) := by
  intro i hi
  have hother : i ∈ done ∨ i ∈ rest → ∀ m, last ≠ some (.move i.path m) := fun hi m hm =>
    h.apart hi (hlast _ _ hm)
  rcases List.mem_append.mp hi with hi | hi
  · obtain ⟨hitem, hslot⟩ := h.settled i hi
    rw [hslots _ (h.apart (.inl hi)), hslot, hitem]
    exact .done (hother (.inl hi))
  · rcases List.mem_cons.mp hi with rfl | hi
    · rw [hpath]
      exact hmoved
    · obtain ⟨hitem, hslot⟩ := h.waiting i (List.mem_cons_of_mem _ hi)
      rw [hslots _ (h.apart (.inr hi)), hslot, hitem]
      exact .waiting (hother (.inr hi))

omit [DecidableEq π] in
/-- A turn for a path whose item is at its start. -/
theorem commitTurn_eq (j : Journal π) (done rest : List (Item π)) {p : π} {s : Slot α}
    (hslot : d.slots p = ⟨s.destination, s.staged, none⟩) :
    commitTurn j done ⟨p, false, false⟩ rest d =
      ((if s.destination.isSome then [.move p .backUp,
          .writeJournal { j with paths := done ++ ⟨p, true, false⟩ :: rest }] else []) ++
        [.move p .install, .writeJournal
          { j with paths := done ++ ⟨p, s.destination.isSome, true⟩ :: rest }],
        ⟨p, s.destination.isSome, true⟩) := by
  rw [commitTurn, hslot]
  cases s.destination <;> rfl

theorem commitTurn_run (j : Journal π) (done rest : List (Item π)) {p : π} {s : Slot α}
    (hslot : d.slots p = ⟨s.destination, s.staged, none⟩) :
    d.run (commitTurn j done ⟨p, false, false⟩ rest d).1 =
      { d with
        slots := fun q => if q = p then ⟨s.staged, none, s.destination⟩ else d.slots q
        journal := some { j with paths := done ++ ⟨p, s.destination.isSome, true⟩ :: rest } } := by
  rw [commitTurn_eq j done rest hslot]
  cases hs : s.destination with
  | none =>
    simp only [Option.isSome_none, Bool.false_eq_true, if_false, List.nil_append, run_cons,
      run_nil, Disk.apply]
    congr 1
    funext q
    by_cases hq : q = p
    · simp [hq, hslot, hs, Slot.move]
    · simp [hq]
  | some old =>
    simp only [Option.isSome_some, if_true, List.cons_append, List.nil_append, run_cons, run_nil,
      Disk.apply]
    congr 1
    funext q
    by_cases hq : q = p
    · simp [hq, hslot, hs, Slot.move]
    · simp [hq]

/-- After a turn. -/
theorem Reached.next (h : Reached start j done (item :: rest) d) :
    Reached start j (done ++ [(commitTurn j done item rest d).2]) rest
        (d.run (commitTurn j done item rest d).1) ∧
      (d.run (commitTurn j done item rest d).1).marker = d.marker := by
  obtain ⟨hitem, hslot⟩ := h.waiting item List.mem_cons_self
  have hapart := fun i hi => h.apart (i := i) hi
  generalize hp : item.path = p at *
  subst item
  have hturn := commitTurn_eq j done rest hslot
  have hrun := commitTurn_run j done rest hslot
  rw [hrun, hturn]
  refine ⟨⟨?_, ?_, ?_, ?_⟩, rfl⟩
  · have hnodup := h.nodup
    simpa using hnodup
  · simp
  · intro i hi
    rcases List.mem_append.mp hi with hi | hi
    · obtain ⟨hold, hplace⟩ := h.settled i hi
      exact ⟨hold, by simp only [if_neg (hapart i (.inl hi)), hplace]⟩
    · obtain rfl := List.mem_singleton.mp hi
      exact ⟨rfl, if_pos rfl⟩
  · intro i hi
    obtain ⟨hold, hplace⟩ := h.waiting i (List.mem_cons_of_mem _ hi)
    exact ⟨hold, by simp only [if_neg (hapart i (.inr hi)), hplace]⟩

/-- What a crash before the marker leaves: the journal names the plan's paths, and each path
is some way on. -/
structure Interrupted (start : π → Slot α) (j : Journal π) (paths : List π)
    (last : Option (Operation π)) (d : Disk π α) : Prop where
  journal : ∃ items, d.journal = some { j with paths := items } ∧ items.map Item.path = paths ∧
    ∀ i ∈ items, Progress (start i.path) i.path last i (d.slots i.path)

theorem Reached.interrupted (h : Reached start j done (item :: rest) d)
    (hops : ops <+: (commitTurn j done item rest d).1) :
    Interrupted start j ((done ++ item :: rest).map Item.path) ops.getLast? (d.run ops) ∧
      (d.run ops).marker = d.marker := by
  obtain ⟨hitem, hslot⟩ := h.waiting item List.mem_cons_self
  generalize hp : item.path = p at *
  subst item
  have hduring : ∀ (e : Disk π α) (moved : Item π) (last : Option (Operation π)),
      moved.path = p → e.journal = some { j with paths := done ++ moved :: rest } →
      (∀ q, q ≠ p → e.slots q = d.slots q) → (∀ q m, last = some (.move q m) → q = p) →
      Progress (start p) p last moved (e.slots p) →
      Interrupted start j ((done ++ ⟨p, false, false⟩ :: rest).map Item.path) last e :=
    fun e moved last hpath hjournal hslots hlast hmoved =>
      ⟨_, hjournal, by simp [hpath], h.during hpath hslots hlast hmoved⟩
  have hfirst := hduring d _ none rfl h.journal (fun _ _ => rfl) (by simp)
    (hslot ▸ .waiting (by simp))
  rw [commitTurn_eq (s := start p) j done rest hslot] at hops
  cases hs : (start p).destination with
  | none =>
    simp only [hs, Option.isSome_none, Bool.false_eq_true, if_false, List.nil_append,
      List.prefix_cons_iff, List.prefix_nil] at hops
    rcases hops with rfl | ⟨_, rfl, rfl | ⟨_, rfl, rfl⟩⟩
    · exact ⟨hfirst, rfl⟩
    · refine ⟨hduring _ _ _ rfl h.journal (fun q hq => by simp [Disk.apply, hq]) (by simp)
        (.of_eq (.filled rfl) ?_ ?_), rfl⟩
      · simp [hs]
      · simp [hslot, hs, Disk.apply, Slot.move]
    · refine ⟨hduring _ _ _ rfl rfl (fun q hq => by simp [Disk.apply, hq]) (by simp)
        (.of_eq (.done (by simp)) ?_ ?_), rfl⟩
      · simp [hs]
      · simp [hslot, hs, Disk.apply, Slot.move]
  | some old =>
    simp only [hs, Option.isSome_some, if_true, List.cons_append, List.nil_append,
      List.prefix_cons_iff, List.prefix_nil] at hops
    rcases hops with rfl | ⟨_, rfl, rfl | ⟨_, rfl, rfl | ⟨_, rfl, rfl | ⟨_, rfl, rfl⟩⟩⟩⟩
    · exact ⟨hfirst, rfl⟩
    · refine ⟨hduring _ _ _ rfl h.journal (fun q hq => by simp [Disk.apply, hq]) (by simp)
        (.of_eq (.emptied rfl (by simp [hs])) rfl ?_), rfl⟩
      simp [hslot, hs, Disk.apply, Slot.move]
    · refine ⟨hduring _ _ _ rfl rfl (fun q hq => by simp [Disk.apply, hq]) (by simp)
        (.of_eq (.backed (by simp) (by simp [hs])) rfl ?_), rfl⟩
      simp [hslot, hs, Disk.apply, Slot.move]
    · refine ⟨hduring _ _ _ rfl rfl (fun q hq => by simp [Disk.apply, hq]) (by simp)
        (.of_eq (.filled rfl) ?_ ?_), rfl⟩
      · simp [hs]
      · simp [hslot, hs, Disk.apply, Slot.move]
    · refine ⟨hduring _ _ _ rfl rfl (fun q hq => by simp [Disk.apply, hq]) (by simp)
        (.of_eq (.done (by simp)) ?_ ?_), rfl⟩
      · simp [hs]
      · simp [hslot, hs, Disk.apply, Slot.move]

/-- What a crash from the marker on leaves. -/
structure Published (start : π → Slot α) (j : Journal π) (paths : List π) (d : Disk π α) :
    Prop where
  slots : ∀ p ∈ paths, d.slots p = ⟨(start p).staged, none, (start p).destination⟩
  marker : d.marker = some j.transactionId
  journal : ∃ j', d.journal = some j' ∧ j'.transactionId = j.transactionId

theorem commitPaths_prefix (h : Reached start j done rest d) {paths : List π}
    (hpaths : paths = (done ++ rest).map Item.path) (hops : ops <+: commitPaths j done rest d) :
    (.writeMarker j.transactionId ∉ ops ∧ (d.run ops).marker = d.marker ∧
      Interrupted start j paths ops.getLast? (d.run ops)) ∨
    (.writeMarker j.transactionId ∈ ops ∧ Published start j paths (d.run ops)) := by
  induction rest generalizing done d ops with
  | nil =>
    have hjournal := h.journal
    have hslots : ∀ p ∈ paths, d.slots p = ⟨(start p).staged, none, (start p).destination⟩ := by
      intro p hp
      rw [hpaths, List.append_nil] at hp
      obtain ⟨i, hi, rfl⟩ := List.mem_map.mp hp
      exact (h.settled i hi).2
    simp only [commitPaths, List.prefix_cons_iff] at hops
    rcases hops with rfl | ⟨_, rfl, rfl | ⟨_, rfl, hops⟩⟩
    · refine .inl ⟨by simp, rfl, _, hjournal, hpaths.symm, fun i hi => ?_⟩
      rw [List.append_nil] at hi
      obtain ⟨hitem, hslot⟩ := h.settled i hi
      exact .of_eq (.done (by simp)) hitem hslot
    · exact .inr ⟨by simp, hslots, rfl, _, hjournal, rfl⟩
    · obtain rfl := List.prefix_nil.mp hops
      exact .inr ⟨by simp, hslots, rfl, _, rfl, rfl⟩
  | cons item rest ih =>
    have hturn : ∀ ops, ops <+: (commitTurn j done item rest d).1 →
        .writeMarker j.transactionId ∉ ops := by
      intro ops hprefix hin
      have hin := hprefix.subset hin
      simp [commitTurn] at hin
    obtain ⟨hnext, hmarker⟩ := h.next
    rcases prefix_append_cases hops with hops | ⟨more, rfl, hmore⟩
    · obtain ⟨hinterrupted, hsame⟩ := h.interrupted hops
      exact .inl ⟨hturn ops hops, hsame, hpaths ▸ hinterrupted⟩
    · have hmoved : paths = (done ++ [(commitTurn j done item rest d).2] ++ rest).map Item.path := by
        rw [hpaths]
        simp [commitTurn]
        split <;> rfl
      rw [run_append, List.mem_append, or_iff_right (hturn _ List.prefix_rfl)]
      rcases ih hnext hmoved hmore with ⟨hno, hsame, hinterrupted⟩ | ⟨hyes, hpublished⟩
      · refine .inl ⟨hno, hsame.trans hmarker, ?_⟩
        cases hlast : more with
        | nil =>
          rw [List.append_nil]
          exact hpaths ▸ (h.interrupted List.prefix_rfl).1
        | cons op ops =>
          rw [List.getLast?_append_of_ne_nil _ (by simp), ← hlast]
          exact hinterrupted
      · exact .inr ⟨hyes, hpublished⟩

end CommitRuns

section RollbackRuns

variable {α π : Type} [DecidableEq π] {items : List (Item π)} {d : Disk π α}
  {ops : List (Operation π)}

/-- The rollback of one item. -/
def rolledBack (i : Item π) (s : Slot α) : Slot α := (rollbackMoves i s).foldl Slot.move s

theorem rollbackTurn_slots (d : Disk π α) {i : Item π} {p : π} (h : p ≠ i.path) (ms : List Move) :
    (d.run (ms.map (.move i.path))).slots p = d.slots p := by
  rw [run_moves]
  exact if_neg h

theorem rollbackItems_run (hnodup : (items.map Item.path).Nodup) :
    (∀ i ∈ items, (d.run (rollbackItems items d)).slots i.path =
      { rolledBack i (d.slots i.path) with previous := none }) ∧
    (∀ p, p ∉ items.map Item.path → (d.run (rollbackItems items d)).slots p =
      { d.slots p with previous := none }) ∧
    (d.run (rollbackItems items d)).journal = none ∧
    (d.run (rollbackItems items d)).marker = d.marker := by
  induction items generalizing d with
  | nil => exact ⟨by simp, fun _ _ => rfl, rfl, rfl⟩
  | cons item rest ih =>
    rw [List.map_cons, List.nodup_cons] at hnodup
    obtain ⟨hnew, hrest⟩ := hnodup
    rw [rollbackItems, run_append]
    generalize hd' : d.run ((rollbackMoves item (d.slots item.path)).map (.move item.path)) = d'
    have hother : ∀ p, p ≠ item.path → d'.slots p = d.slots p := fun p hp => by
      rw [← hd', rollbackTurn_slots d hp]
    have hitem : d'.slots item.path = rolledBack item (d.slots item.path) := by
      rw [← hd', run_moves]
      exact if_pos rfl
    have hmarker : d'.marker = d.marker := by rw [← hd', run_moves]
    obtain ⟨hitems, hothers, hjournal, hsame⟩ := ih (d := d') hrest
    refine ⟨fun i hi => ?_, fun p hp => ?_, hjournal, hsame.trans hmarker⟩
    · rcases List.mem_cons.mp hi with rfl | hi
      · rw [hothers _ hnew, hitem]
      · have hne : i.path ≠ item.path := fun h => hnew (h ▸ List.mem_map_of_mem hi)
        rw [hitems i hi, hother _ hne]
    · rw [List.map_cons, List.mem_cons, not_or] at hp
      rw [hothers p hp.2, hother p hp.1]

/-- What an interrupted rollback has done to one path: a first part of its moves. -/
structure Partly (i : Item π) (d e : Disk π α) (ops : List (Operation π)) : Prop where
  moved : ∃ ms, ms <+: rollbackMoves i (d.slots i.path) ∧
    (∀ m, .move i.path m ∈ ops ↔ m ∈ ms) ∧
    (e.slots i.path = ms.foldl Slot.move (d.slots i.path) ∨
      e.slots i.path = { rolledBack i (d.slots i.path) with previous := none } ∧
        ms = rollbackMoves i (d.slots i.path))

theorem rollbackItems_prefix (hnodup : (items.map Item.path).Nodup)
    (hops : ops <+: rollbackItems items d) (hno : .unlinkJournal ∉ ops) :
    (∀ i ∈ items, Partly i d (d.run ops) ops) ∧
    (∀ p, p ∉ items.map Item.path → (∀ m, .move p m ∉ ops) ∧
      ((d.run ops).slots p = d.slots p ∨
        (d.run ops).slots p = { d.slots p with previous := none })) ∧
    (d.run ops).journal = d.journal ∧ (d.run ops).marker = d.marker := by
  induction items generalizing d ops with
  | nil =>
    simp only [rollbackItems, List.prefix_cons_iff] at hops
    rcases hops with rfl | ⟨_, rfl, rfl | ⟨_, rfl, -⟩⟩
    · exact ⟨by simp, by simp, rfl, rfl⟩
    · exact ⟨by simp, fun p _ => ⟨by simp, .inr rfl⟩, rfl, rfl⟩
    · simp at hno
  | cons item rest ih =>
    rw [List.map_cons, List.nodup_cons] at hnodup
    obtain ⟨hnew, hrest⟩ := hnodup
    rw [rollbackItems] at hops
    rcases prefix_append_cases hops with hops | ⟨more, rfl, hmore⟩
    · obtain ⟨ms, hms, rfl⟩ := List.prefix_map_iff.mp hops
      have hmoves : ∀ p, p ≠ item.path → ∀ m, .move p m ∉ ms.map (Operation.move item.path) :=
        fun p hp m hin => by simp [Ne.symm hp] at hin
      refine ⟨fun i hi => ?_, fun p hp => ?_, by rw [run_moves], by rw [run_moves]⟩
      · rcases List.mem_cons.mp hi with rfl | hi
        · exact ⟨ms, hms, by simp, .inl (by rw [run_moves]; exact if_pos rfl)⟩
        · have hne : i.path ≠ item.path := fun h => hnew (h ▸ List.mem_map_of_mem hi)
          exact ⟨[], List.nil_prefix, fun m => by simp [hmoves _ hne],
            .inl (rollbackTurn_slots d hne ms)⟩
      · rw [List.map_cons, List.mem_cons, not_or] at hp
        exact ⟨hmoves p hp.1, .inl (rollbackTurn_slots d hp.1 ms)⟩
    · generalize hms : rollbackMoves item (d.slots item.path) = ms at *
      have hmoves : ∀ p, p ≠ item.path → ∀ m, .move p m ∉ ms.map (Operation.move item.path) :=
        fun p hp m hin => by simp [Ne.symm hp] at hin
      have hitem : (d.run (ms.map (.move item.path))).slots item.path =
          rolledBack item (d.slots item.path) := by
        rw [run_moves, rolledBack, hms]
        exact if_pos rfl
      obtain ⟨hitems, hothers, hjournal, hmarker⟩ :=
        ih hrest hmore (fun hin => hno (List.mem_append_right _ hin))
      rw [run_append]
      refine ⟨fun i hi => ?_, fun p hp => ?_, by rw [hjournal, run_moves],
        by rw [hmarker, run_moves]⟩
      · rcases List.mem_cons.mp hi with rfl | hi
        · obtain ⟨hnone, hsame⟩ := hothers _ hnew
          refine ⟨ms, by rw [hms], fun m => by simp [hnone m], ?_⟩
          rw [hitem] at hsame
          rcases hsame with hsame | hsame
          · exact .inl (by rw [hsame, rolledBack, hms])
          · exact .inr ⟨hsame, hms.symm⟩
        · have hne : i.path ≠ item.path := fun h => hnew (h ▸ List.mem_map_of_mem hi)
          obtain ⟨ms', hprefix, hmem, hslots⟩ := hitems i hi
          rw [rollbackTurn_slots d hne] at hprefix hslots
          exact ⟨ms', hprefix, fun m => by simp [hmoves _ hne, hmem], hslots⟩
      · rw [List.map_cons, List.mem_cons, not_or] at hp
        obtain ⟨hnone, hsame⟩ := hothers p hp.2
        rw [rollbackTurn_slots d hp.1] at hsame
        exact ⟨fun m => by simp [hmoves _ hp.1, hnone m], hsame⟩

end RollbackRuns

section Crash

variable {α π : Type} [DecidableEq π] {transactionId : Nat} {paths : List π} {d : Disk π α}
  {ops : List (Operation π)}

/-- A disk that a commit starts on. The transaction is a fresh UUID. -/
structure Ready (transactionId : Nat) (paths : List π) (d : Disk π α) : Prop where
  nodup : paths.Nodup
  staged : ∀ p ∈ paths, (d.slots p).staged.isSome
  journal : d.journal = none
  fresh : d.marker ≠ some transactionId

/-- What the game directory and the stage hold of a path. -/
def Slot.payload (s : Slot α) : Option α × Option α := (s.destination, s.staged)

/-- A path after the recovery from a crash before the marker. -/
def afterCrash (s : Slot α) (path : π) (last : Option (Operation π)) : Option α × Option α :=
  if last = some (.move path .backUp) then (none, s.staged)
  else if last = some (.move path .install) then (s.destination.or s.staged, none)
  else s.payload

theorem Progress.recovered {s t : Slot α} {p : π} {last : Option (Operation π)} {i : Item π}
    (h : Progress s p last i t) (hstaged : s.staged.isSome) :
    (rolledBack i t).payload = afterCrash s p last := by
  obtain ⟨new, hnew⟩ := Option.isSome_iff_exists.mp hstaged
  cases h with
  | waiting h => simp [rolledBack, rollbackMoves, afterCrash, Slot.payload, h]
  | emptied h => simp [rolledBack, rollbackMoves, afterCrash, Slot.payload, h]
  | backed h hsome => simp [rolledBack, rollbackMoves, afterCrash, Slot.payload, h, hsome, Slot.move]
  | filled h =>
    cases hold : s.destination <;>
      simp [rolledBack, rollbackMoves, afterCrash, Slot.payload, h, hold, hnew, Slot.move]
  | done h =>
    cases hold : s.destination <;>
      simp [rolledBack, rollbackMoves, afterCrash, Slot.payload, h, hold, hnew, Slot.move]

/-- The disk before the loop of a commit. -/
theorem Ready.reached (h : Ready transactionId paths d) :
    Reached d.slots (commitJournal transactionId paths) []
      (commitJournal transactionId paths).paths
      (d.run (commitStart transactionId paths)) where
  nodup := by simpa [commitJournal, Function.comp_def] using h.nodup
  journal := rfl
  settled := by simp
  waiting i hi := by
    obtain ⟨p, -, rfl⟩ := List.mem_map.mp hi
    exact ⟨rfl, rfl⟩

theorem Ready.commitStage_eq (h : Ready transactionId paths d) :
    commitStage transactionId paths d = commitStart transactionId paths ++
      (commitPaths (commitJournal transactionId paths) [] (commitJournal transactionId paths).paths
        (d.run (commitStart transactionId paths)) ++
        [.removeBackup, .removeStage, .unlinkJournal]) := by
  have hstaged : (paths.any fun p => (d.slots p).staged.isNone) = false := by
    rw [List.any_eq_false]
    intro p hp hnone
    have hsome := h.staged p hp
    rw [Option.isNone_iff_eq_none.mp hnone] at hsome
    cases hsome
  rw [commitStage, hstaged]
  rfl

theorem writeMarker_mem (j : Journal π) (done rest : List (Item π)) (d : Disk π α) :
    .writeMarker j.transactionId ∈ commitPaths j done rest d := by
  induction rest generalizing done d with
  | nil => simp [commitPaths]
  | cons item rest ih => exact List.mem_append_right _ (ih _ _)

/-- The recovery ends, and leaves this of the paths. -/
def RecoversTo (paths : List π) (payload : π → Option α × Option α) (e : Disk π α) : Prop :=
  (e.run (recoverTransaction e)).journal = none ∧
    ∀ p ∈ paths, ((e.run (recoverTransaction e)).slots p).payload = payload p

/-- The recovery of a commit that was cut off before its marker. -/
theorem Interrupted.recovered {e : Disk π α} {last : Option (Operation π)}
    (h : Ready transactionId paths d)
    (he : Interrupted d.slots (commitJournal transactionId paths) paths last e)
    (hmarker : e.marker ≠ some transactionId) :
    RecoversTo paths (fun p => afterCrash (d.slots p) p last) e := by
  obtain ⟨items, hjournal, hpaths, hprogress⟩ := he.journal
  have hrecover : recoverTransaction e = rollbackItems items.reverse e := by
    simp [recoverTransaction, hjournal, commitJournal, hmarker, rollbackTransaction]
  have hnodup : (items.reverse.map Item.path).Nodup := by
    rw [List.map_reverse, List.nodup_reverse, hpaths]
    exact h.nodup
  obtain ⟨hitems, -, hnone, -⟩ := rollbackItems_run (d := e) hnodup
  rw [RecoversTo, hrecover]
  refine ⟨hnone, fun p hp => ?_⟩
  rw [← hpaths] at hp
  obtain ⟨i, hi, rfl⟩ := List.mem_map.mp hp
  rw [hitems i (List.mem_reverse.mpr hi)]
  exact (hprogress i hi).recovered (h.staged _ (hpaths ▸ hp))

/-- The recovery of a commit that was cut off behind its marker. -/
theorem Published.recovered {e : Disk π α}
    (he : Published d.slots (commitJournal transactionId paths) paths e) {more : List (Operation π)}
    (hmore : more <+: [.removeBackup, .removeStage, .unlinkJournal]) :
    RecoversTo paths (fun p => ((d.slots p).staged, none)) (e.run more) := by
  obtain ⟨j', hjournal, hid⟩ := he.journal
  have hmarker := he.marker
  have hslots := he.slots
  simp only [List.prefix_cons_iff, List.prefix_nil] at hmore
  rcases hmore with rfl | ⟨_, rfl, rfl | ⟨_, rfl, rfl | ⟨_, rfl, rfl⟩⟩⟩ <;>
    simp_all [RecoversTo, recoverTransaction, Disk.apply, Slot.payload]

omit [DecidableEq π] in
theorem Progress.congr {s t : Slot α} {p : π} {last last' : Option (Operation π)} {i : Item π}
    (h : Progress s p last i t) (hlast : ∀ m, last' = some (.move p m) ↔ last = some (.move p m)) :
    Progress s p last' i t := by
  cases h with
  | waiting h => exact .waiting fun m hm => h m ((hlast m).mp hm)
  | emptied h hsome => exact .emptied ((hlast _).mpr h) hsome
  | backed h hsome => exact .backed (fun m hm => h m ((hlast m).mp hm)) hsome
  | filled h => exact .filled ((hlast _).mpr h)
  | done h => exact .done fun m hm => h m ((hlast m).mp hm)

/-- The first part of a commit ends before its journal, before its marker or behind it. -/
theorem commitStage_prefix (h : Ready transactionId paths d)
    (hops : ops <+: commitStage transactionId paths d) :
    (.writeMarker transactionId ∉ ops ∧ (d.run ops).journal = none ∧
      ∀ p, ((d.run ops).slots p).payload = (d.slots p).payload ∧
        ∀ m, ops.getLast? ≠ some (.move p m)) ∨
    (.writeMarker transactionId ∉ ops ∧ (d.run ops).marker ≠ some transactionId ∧
      Interrupted d.slots (commitJournal transactionId paths) paths ops.getLast? (d.run ops)) ∨
    (.writeMarker transactionId ∈ ops ∧ ∃ e more, d.run ops = e.run more ∧
      Published d.slots (commitJournal transactionId paths) paths e ∧
      more <+: [.removeBackup, .removeStage, .unlinkJournal]) := by
  have hpaths : paths = ([] ++ (commitJournal transactionId paths).paths).map Item.path := by
    simp [commitJournal, Function.comp_def]
  have hmem : ∀ more, .writeMarker transactionId ∈ commitStart transactionId paths ++ more ↔
      .writeMarker transactionId ∈ more := by
    simp [commitStart]
  have hlast : ∀ (more : List (Operation π)) p m,
      (commitStart transactionId paths ++ more).getLast? = some (.move p m) ↔
        more.getLast? = some (.move p m) := by
    intro more p m
    cases more with
    | nil => simp [commitStart]
    | cons op more => rw [List.getLast?_append_of_ne_nil _ (by simp)]
  have hjournaled : ∀ more, more <+: commitPaths (commitJournal transactionId paths) []
      (commitJournal transactionId paths).paths (d.run (commitStart transactionId paths)) →
      (.writeMarker transactionId ∉ more ∧
        (d.run (commitStart transactionId paths ++ more)).marker ≠ some transactionId ∧
        Interrupted d.slots (commitJournal transactionId paths) paths
          (commitStart transactionId paths ++ more).getLast?
          (d.run (commitStart transactionId paths ++ more))) ∨
      (.writeMarker transactionId ∈ more ∧ Published d.slots (commitJournal transactionId paths)
        paths (d.run (commitStart transactionId paths ++ more))) := by
    intro more hmore
    rw [run_append]
    rcases commitPaths_prefix h.reached hpaths hmore with ⟨hno, hmarker, hinterrupted⟩ | hpublished
    · obtain ⟨items, hjournal, hsame, hprogress⟩ := hinterrupted.journal
      exact .inl ⟨hno, by rw [hmarker]; exact h.fresh, items, hjournal, hsame,
        fun i hi => (hprogress i hi).congr (hlast more i.path)⟩
    · exact .inr hpublished
  rw [h.commitStage_eq] at hops
  rcases prefix_append_cases hops with hstart | ⟨more, rfl, hmore⟩
  · simp only [commitStart, List.prefix_cons_iff, List.prefix_nil] at hstart
    rcases hstart with rfl | ⟨_, rfl, rfl | ⟨_, rfl, rfl⟩⟩
    · exact .inl ⟨by simp, h.journal, fun p => ⟨rfl, by simp⟩⟩
    · exact .inl ⟨by simp, h.journal, fun p => ⟨rfl, by simp⟩⟩
    · rcases hjournaled [] List.nil_prefix with ⟨-, hmarker, hinterrupted⟩ | ⟨hyes, -⟩
      · exact .inr (.inl ⟨by simp, hmarker, hinterrupted⟩)
      · cases hyes
  · rw [hmem]
    rcases prefix_append_cases hmore with htry | ⟨cleanup, rfl, hcleanup⟩
    · rcases hjournaled more htry with hbefore | ⟨hyes, hpublished⟩
      · exact .inr (.inl hbefore)
      · exact .inr (.inr ⟨hyes, _, [], rfl, hpublished, List.nil_prefix⟩)
    · have hmarked : Operation.writeMarker transactionId ∈ commitPaths
          (commitJournal transactionId paths) [] (commitJournal transactionId paths).paths
          (d.run (commitStart transactionId paths)) := writeMarker_mem _ _ _ _
      rcases hjournaled _ List.prefix_rfl with ⟨hno, -⟩ | ⟨-, hpublished⟩
      · exact absurd hmarked hno
      · exact .inr (.inr ⟨List.mem_append_left _ hmarked, _, cleanup,
          by rw [← List.append_assoc, run_append], hpublished, hcleanup⟩)

/-- A crash anywhere in a commit, and the recovery at the next start. From the marker on every
path holds its new payload. Before, every path holds its old one and the stage keeps the new
one, but for a path whose rename was the last operation: the journal does not know of it. Behind
its backup the old payload is deleted; behind its installation the staged one is, or stays in
place where nothing was before. -/
theorem crash_recovered (h : Ready transactionId paths d)
    (hops : ops <+: commitStage transactionId paths d) :
    RecoversTo paths (fun p =>
      if .writeMarker transactionId ∈ ops then ((d.slots p).staged, none)
      else afterCrash (d.slots p) p ops.getLast?) (d.run ops) := by
  rcases commitStage_prefix h hops with
    ⟨hno, hjournal, hsame⟩ | ⟨hno, hmarker, hinterrupted⟩ | ⟨hyes, e, more, hrun, hpublished, hmore⟩
  · simp only [RecoversTo, recoverTransaction, hjournal, if_neg hno]
    refine ⟨hjournal, fun p hp => ?_⟩
    rw [run_nil, (hsame p).1, afterCrash, if_neg ((hsame p).2 _), if_neg ((hsame p).2 _)]
  · simp only [if_neg hno]
    exact hinterrupted.recovered h hmarker
  · simp only [if_pos hyes, hrun]
    exact hpublished.recovered hmore

/-- Path 0 is replaced, path 1 is new. -/
def update : Disk Nat Nat where
  slots p := if p = 0 then ⟨some 10, some 20, none⟩ else if p = 1 then ⟨none, some 21, none⟩
    else ⟨none, none, none⟩
  journal := none
  marker := some 6

theorem update_ready : Ready 7 [0, 1] update := ⟨by decide, by decide, rfl, by decide⟩

/-- A crash right behind the first backup loses the old payload of its path. -/
theorem crash_recovered_emptied :
    let cut := update.run ((commitStage 7 [0, 1] update).take 3)
    ((cut.run (recoverTransaction cut)).slots 0).payload = (none, some 20) :=
  (crash_recovered update_ready (List.take_prefix 3 _)).2 0 (by decide)

end Crash

end Asm2Runtime.PayloadTransaction
