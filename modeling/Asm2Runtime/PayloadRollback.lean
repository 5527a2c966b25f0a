import Asm2Runtime.PayloadTransaction

/-!
# Rolling a payload transaction back

An exception rolls back with the journal in memory, which knows of every rename. The recovery
at a start goes by the journal on the disk, which a rollback does not write: one that is cut
short is begun again from the first item.
-/

namespace Asm2Runtime.PayloadTransaction

section Exceptions

variable {α π : Type} [DecidableEq π] {start : π → Slot α} {j : Journal π}
  {done rest : List (Item π)} {item : Item π} {d : Disk π α} {ops : List (Operation π)}

theorem map_here {done rest : List (Item π)} {item : Item π} {p : π} (f : Item π → Item π)
    (hnodup : ((done ++ item :: rest).map Item.path).Nodup) (hp : item.path = p) :
    (done ++ item :: rest).map (fun i => if i.path = p then f i else i) =
      done ++ f item :: rest := by
  subst hp
  rw [List.map_append, List.map_cons, List.nodup_append, List.nodup_cons] at hnodup
  obtain ⟨-, ⟨hrest, -⟩, hdone⟩ := hnodup
  have hbefore : done.map (fun i => if i.path = item.path then f i else i) = done := by
    rw [List.map_congr_left (g := id), List.map_id]
    exact fun i hi => if_neg (hdone _ (List.mem_map_of_mem hi) _ List.mem_cons_self)
  have hbehind : rest.map (fun i => if i.path = item.path then f i else i) = rest := by
    rw [List.map_congr_left (g := id), List.map_id]
    exact fun i hi => if_neg fun hsame : i.path = item.path =>
      hrest (hsame ▸ List.mem_map_of_mem hi)
  rw [List.map_append, List.map_cons, hbefore, hbehind, if_pos rfl]

/-- Through a turn the flags in memory follow the renames. -/
theorem Reached.noted (h : Reached start j done (item :: rest) d)
    (hops : ops <+: (commitTurn j done item rest d).1) :
    ∃ moved : Item π, ops.foldl Journal.note { j with paths := done ++ item :: rest } =
        { j with paths := done ++ moved :: rest } ∧ moved.path = item.path ∧
      (ops = (commitTurn j done item rest d).1 → moved = (commitTurn j done item rest d).2) ∧
      (∀ q, q ≠ item.path → (d.run ops).slots q = d.slots q) ∧
      Progress (start item.path) item.path none moved ((d.run ops).slots item.path) := by
  obtain ⟨hitem, hslot⟩ := h.waiting item List.mem_cons_self
  have hnodup : ∀ moved : Item π, moved.path = item.path →
      ((done ++ moved :: rest).map Item.path).Nodup := fun moved hmoved => by
    simpa [hmoved] using h.nodup
  generalize hp : item.path = p at *
  subst item
  have hbackUp : ∀ moved : Item π, moved.path = p →
      Journal.note { j with paths := done ++ moved :: rest } (.move p .backUp) =
        { j with paths := done ++ { moved with backedUp := true } :: rest } := fun moved hmoved => by
    rw [Journal.note, map_here _ (hnodup moved hmoved) hmoved]
  have hinstall : ∀ moved : Item π, moved.path = p →
      Journal.note { j with paths := done ++ moved :: rest } (.move p .install) =
        { j with paths := done ++ { moved with installed := true } :: rest } := fun moved hmoved => by
    rw [Journal.note, map_here _ (hnodup moved hmoved) hmoved]
  rw [commitTurn_eq (s := start p) j done rest hslot] at hops ⊢
  cases hs : (start p).destination with
  | none =>
    simp only [hs, Option.isSome_none, Bool.false_eq_true, if_false, List.nil_append,
      List.prefix_cons_iff, List.prefix_nil] at hops
    rcases hops with rfl | ⟨_, rfl, rfl | ⟨_, rfl, rfl⟩⟩
    · exact ⟨_, rfl, rfl, by simp, fun _ _ => rfl, .of_eq (.waiting (by simp)) rfl hslot⟩
    · refine ⟨_, hinstall _ rfl, rfl, by simp, fun q hq => by simp [Disk.apply, hq],
        .of_eq (.done (by simp)) ?_ ?_⟩
      · simp [hs]
      · simp [hslot, hs, Disk.apply, Slot.move]
    · refine ⟨_, hinstall _ rfl, rfl, by simp, fun q hq => by simp [Disk.apply, hq],
        .of_eq (.done (by simp)) ?_ ?_⟩
      · simp [hs]
      · simp [hslot, hs, Disk.apply, Slot.move]
  | some old =>
    simp only [hs, Option.isSome_some, if_true, List.cons_append, List.nil_append,
      List.prefix_cons_iff, List.prefix_nil] at hops
    have hboth : Journal.note (Journal.note { j with paths := done ++ ⟨p, false, false⟩ :: rest }
        (.move p .backUp)) (.move p .install) =
        { j with paths := done ++ ⟨p, true, true⟩ :: rest } := by
      rw [hbackUp _ rfl, hinstall _ rfl]
    rcases hops with rfl | ⟨_, rfl, rfl | ⟨_, rfl, rfl | ⟨_, rfl, rfl | ⟨_, rfl, rfl⟩⟩⟩⟩
    · exact ⟨_, rfl, rfl, by simp, fun _ _ => rfl, .of_eq (.waiting (by simp)) rfl hslot⟩
    · refine ⟨_, hbackUp _ rfl, rfl, by simp, fun q hq => by simp [Disk.apply, hq],
        .of_eq (.backed (by simp) (by simp [hs])) rfl ?_⟩
      simp [hslot, hs, Disk.apply, Slot.move]
    · refine ⟨_, hbackUp _ rfl, rfl, by simp, fun q hq => by simp [Disk.apply, hq],
        .of_eq (.backed (by simp) (by simp [hs])) rfl ?_⟩
      simp [hslot, hs, Disk.apply, Slot.move]
    · refine ⟨_, hboth, rfl, by simp, fun q hq => by simp [Disk.apply, hq],
        .of_eq (.done (by simp)) ?_ ?_⟩
      · simp [hs]
      · simp [hslot, hs, Disk.apply, Slot.move]
    · refine ⟨_, hboth, rfl, by simp, fun q hq => by simp [Disk.apply, hq],
        .of_eq (.done (by simp)) ?_ ?_⟩
      · simp [hs]
      · simp [hslot, hs, Disk.apply, Slot.move]

/-- At every moment of the loop the journal in memory says of each path what happened to it. -/
theorem commitPaths_noted (h : Reached start j done rest d) {paths : List π}
    (hpaths : paths = (done ++ rest).map Item.path) (hops : ops <+: commitPaths j done rest d) :
    ∃ items, ops.foldl Journal.note { j with paths := done ++ rest } = { j with paths := items } ∧
      items.map Item.path = paths ∧
      ∀ i ∈ items, Progress (start i.path) i.path none i ((d.run ops).slots i.path) := by
  induction rest generalizing done d ops with
  | nil =>
    refine ⟨done ++ [], ?_, hpaths.symm, fun i hi => ?_⟩
    · simp only [commitPaths, List.prefix_cons_iff, List.prefix_nil] at hops
      rcases hops with rfl | ⟨_, rfl, rfl | ⟨_, rfl, rfl⟩⟩ <;> rfl
    · rw [List.append_nil] at hi
      obtain ⟨hitem, hslot⟩ := h.settled i hi
      refine .of_eq (.done (by simp)) hitem ?_
      rw [← hslot]
      simp only [commitPaths, List.prefix_cons_iff, List.prefix_nil] at hops
      rcases hops with rfl | ⟨_, rfl, rfl | ⟨_, rfl, rfl⟩⟩ <;> rfl
  | cons item rest ih =>
    rcases prefix_append_cases hops with hops | ⟨more, rfl, hmore⟩
    · obtain ⟨moved, hnote, hpath, -, hslots, hprogress⟩ := h.noted hops
      exact ⟨_, hnote, by simp [hpaths, hpath], h.during hpath hslots (by simp) hprogress⟩
    · obtain ⟨moved, hnote, hpath, hall, -, -⟩ := h.noted List.prefix_rfl
      obtain rfl := hall rfl
      rw [List.foldl_append, hnote, run_append]
      have hstep := ih h.next.1 (by simp [hpaths, hpath]) hmore
      rwa [List.append_assoc, List.singleton_append] at hstep

theorem Progress.undone {s t : Slot α} {p : π} {i : Item π} (h : Progress s p none i t)
    (hstaged : s.staged.isSome) : (rolledBack i t).payload = s.payload :=
  h.recovered hstaged

/-- An exception at any operation of the `try` block is rolled back exactly: every path holds its
old payload again and the stage keeps every new one. The marker, once written, stays. -/
theorem raising_rolledBack {transactionId : Nat} {paths : List π}
    (h : Ready transactionId paths d)
    (hops : ops <+: commitPaths (commitJournal transactionId paths) []
      (commitJournal transactionId paths).paths (d.run (commitStart transactionId paths))) :
    (d.run (commitRaising transactionId paths ops d)).journal = none ∧
    (∀ p ∈ paths, ((d.run (commitRaising transactionId paths ops d)).slots p).payload =
      (d.slots p).payload) ∧
    (d.run (commitRaising transactionId paths ops d)).marker =
      if .writeMarker transactionId ∈ ops then some transactionId else d.marker := by
  have hpaths : paths = ([] ++ (commitJournal transactionId paths).paths).map Item.path := by
    simp [commitJournal, Function.comp_def]
  obtain ⟨items, hnote, hsame, hprogress⟩ := commitPaths_noted h.reached hpaths hops
  have hnoted : (ops.foldl Journal.note (commitJournal transactionId paths)).paths = items :=
    congrArg Journal.paths hnote
  have hnodup : (items.reverse.map Item.path).Nodup := by
    rw [List.map_reverse, List.nodup_reverse, hsame]
    exact h.nodup
  obtain ⟨hitems, -, hnone, hmarker⟩ :=
    rollbackItems_run (d := d.run (commitStart transactionId paths ++ ops)) hnodup
  rw [commitRaising, run_append, rollbackTransaction, hnoted]
  refine ⟨hnone, fun p hp => ?_, hmarker.trans ?_⟩
  · rw [← hsame] at hp
    obtain ⟨i, hi, rfl⟩ := List.mem_map.mp hp
    rw [hitems i (List.mem_reverse.mpr hi), run_append]
    exact (hprogress i hi).undone (h.staged _ (hsame ▸ hp))
  · rw [run_append]
    rcases commitPaths_prefix h.reached hpaths hops with ⟨hno, hkeep, -⟩ | ⟨hyes, hpublished⟩
    · rw [if_neg (by exact hno), hkeep]
      rfl
    · rw [if_pos (by exact hyes)]
      exact hpublished.marker

/-- The journal cannot be written as published: the marker stays, the payloads do not. -/
theorem raising_rolledBack_marked :
    let ops := (commitPaths (commitJournal 7 [0, 1]) [] (commitJournal 7 [0, 1]).paths
      (update.run (commitStart 7 [0, 1]))).take 7
    let d := update.run (commitRaising 7 [0, 1] ops update)
    (d.slots 0).payload = (some 10, some 20) ∧ d.marker = some 7 := by
  obtain ⟨-, hslots, hmarker⟩ := raising_rolledBack update_ready (List.take_prefix 7 _)
  exact ⟨hslots 0 (by decide), hmarker⟩

end Exceptions

section Interruptions

variable {α π : Type} [DecidableEq π]

/-- Starts whose recovery is cut off before it has unlinked the journal. -/
inductive Restarts : Disk π α → List (List (Operation π)) → Disk π α → Prop where
  | nil (e : Disk π α) : Restarts e [] e
  | cons {e f : Disk π α} {cut : List (Operation π)} {cuts : List (List (Operation π))}
      (hcut : cut <+: recoverTransaction e) (hno : .unlinkJournal ∉ cut)
      (hrest : Restarts (e.run cut) cuts f) : Restarts e (cut :: cuts) f

/-- A path during the recoveries after a crash before the marker. The item stays what it was, so
a second recovery takes a payload that is back in its place for the one installed. The last
argument tells whether a rename from the backup has been done. -/
inductive Recovering (s : Slot α) (p : π) (last : Option (Operation π)) :
    Item π → Slot α → Prop → Prop where
  | waiting (h : ∀ m, last ≠ some (.move p m)) :
    Recovering s p last ⟨p, false, false⟩ ⟨s.destination, s.staged, none⟩ False
  | emptied (h : last = some (.move p .backUp)) (kept : Option α) :
    Recovering s p last ⟨p, false, false⟩ ⟨none, s.staged, kept⟩ False
  | backed (h : ∀ m, last ≠ some (.move p m)) (hsome : s.destination.isSome) :
    Recovering s p last ⟨p, true, false⟩ ⟨none, s.staged, s.destination⟩ False
  | restored (h : ∀ m, last ≠ some (.move p m)) :
    Recovering s p last ⟨p, true, false⟩ ⟨s.destination, s.staged, none⟩ True
  | filledNew (h : last = some (.move p .install)) (hnone : s.destination = none) :
    Recovering s p last ⟨p, false, false⟩ ⟨s.staged, none, none⟩ False
  | filled (h : last = some (.move p .install)) (hsome : s.destination.isSome) (now : Option α) :
    Recovering s p last ⟨p, true, false⟩ ⟨now, none, s.destination⟩ False
  | refilled (h : last = some (.move p .install)) (hsome : s.destination.isSome) :
    Recovering s p last ⟨p, true, false⟩ ⟨s.destination, none, none⟩ True
  | doneNew (h : ∀ m, last ≠ some (.move p m)) (hnone : s.destination = none) :
    Recovering s p last ⟨p, false, true⟩ ⟨s.staged, none, none⟩ False
  | withdrawnNew (h : ∀ m, last ≠ some (.move p m)) (hnone : s.destination = none) :
    Recovering s p last ⟨p, false, true⟩ ⟨none, s.staged, none⟩ False
  | done (h : ∀ m, last ≠ some (.move p m)) (hsome : s.destination.isSome) :
    Recovering s p last ⟨p, true, true⟩ ⟨s.staged, none, s.destination⟩ False
  | withdrawn (h : ∀ m, last ≠ some (.move p m)) (hsome : s.destination.isSome) :
    Recovering s p last ⟨p, true, true⟩ ⟨none, s.staged, s.destination⟩ False
  | back (h : ∀ m, last ≠ some (.move p m)) (hsome : s.destination.isSome) :
    Recovering s p last ⟨p, true, true⟩ ⟨s.destination, s.staged, none⟩ True
  | lost (h : ∀ m, last ≠ some (.move p m)) :
    Recovering s p last ⟨p, true, true⟩ ⟨none, s.staged, none⟩ True

omit [DecidableEq π] in
theorem Recovering.of_eq {s t t' : Slot α} {p : π} {last : Option (Operation π)} {i : Item π}
    {r r' : Prop} (h : Recovering s p last i t r) (ht : t' = t) (hr : r' ↔ r) :
    Recovering s p last i t' r' := by
  subst ht
  rwa [propext hr]

omit [DecidableEq π] in
theorem Progress.recovering {s t : Slot α} {p : π} {last : Option (Operation π)} {i : Item π}
    (h : Progress s p last i t) : Recovering s p last i t False := by
  cases h with
  | waiting h => exact .waiting h
  | emptied h => exact .emptied h _
  | backed h hsome => exact .backed h hsome
  | filled h =>
    cases hold : s.destination with
    | none => exact .filledNew h hold
    | some old =>
      have hfilled := Recovering.filled (s := s) h (by simp [hold]) s.staged
      rwa [hold] at hfilled
  | done h =>
    cases hold : s.destination with
    | none => exact .doneNew h hold
    | some old =>
      have hdone := Recovering.done (s := s) h (by simp [hold])
      rwa [hold] at hdone

section Cuts

variable {t t' : Slot α} {i : Item π} {ms : List Move} {m n : Move}

/-- The moves of one path that a recovery makes before it is cut off. One that makes them all
may also remove the backup root. -/
def Cut (i : Item π) (t t' : Slot α) (ms : List Move) : Prop :=
  ms <+: rollbackMoves i t ∧
    (t' = ms.foldl Slot.move t ∨ t' = { rolledBack i t with previous := none } ∧
      ms = rollbackMoves i t)

omit [DecidableEq π] in
theorem Cut.none (h : Cut i t t' ms) (hmoves : rollbackMoves i t = [])
    (hprevious : t.previous = none) : ms = [] ∧ t' = t := by
  obtain ⟨hms, ht⟩ := h
  rw [hmoves] at hms
  obtain rfl := List.prefix_nil.mp hms
  rcases ht with rfl | ⟨rfl, -⟩
  · exact ⟨rfl, rfl⟩
  · rw [rolledBack, hmoves]
    exact ⟨rfl, by simp [← hprevious]⟩

omit [DecidableEq π] in
theorem Cut.one (h : Cut i t t' ms) (hmoves : rollbackMoves i t = [m])
    (hprevious : (t.move m).previous = .none) :
    ms = [] ∧ t' = t ∨ ms = [m] ∧ t' = t.move m := by
  obtain ⟨hms, ht⟩ := h
  have hrolled : { rolledBack i t with previous := .none } = t.move m := by
    rw [rolledBack, hmoves, ← hprevious]
    rfl
  rw [hrolled, hmoves] at ht
  simp only [hmoves, List.prefix_cons_iff, List.prefix_nil] at hms
  rcases hms with rfl | ⟨_, rfl, rfl⟩
  · exact .inl ⟨rfl, by simpa using ht⟩
  · exact .inr ⟨rfl, by simpa using ht⟩

omit [DecidableEq π] in
theorem Cut.two (h : Cut i t t' ms) (hmoves : rollbackMoves i t = [m, n])
    (hprevious : ((t.move m).move n).previous = .none) :
    ms = [] ∧ t' = t ∨ ms = [m] ∧ t' = t.move m ∨ ms = [m, n] ∧ t' = (t.move m).move n := by
  obtain ⟨hms, ht⟩ := h
  have hrolled : { rolledBack i t with previous := .none } = (t.move m).move n := by
    rw [rolledBack, hmoves, ← hprevious]
    rfl
  rw [hrolled, hmoves] at ht
  simp only [hmoves, List.prefix_cons_iff, List.prefix_nil] at hms
  rcases hms with rfl | ⟨_, rfl, rfl | ⟨_, rfl, rfl⟩⟩
  · exact .inl ⟨rfl, by simpa using ht⟩
  · exact .inr (.inl ⟨rfl, by simpa using ht⟩)
  · exact .inr (.inr ⟨rfl, by simpa using ht⟩)

variable {s : Slot α} {p : π} {last : Option (Operation π)} {r : Prop}

omit [DecidableEq π] in
/-- A payload that is being installed is discarded, and the old one comes back. -/
theorem Recovering.cut_filled (h : last = some (.move p .install)) (hsome : s.destination.isSome)
    (now : Option α) (hcut : Cut ⟨p, true, false⟩ ⟨now, none, s.destination⟩ t' ms) :
    Recovering s p last ⟨p, true, false⟩ t' (False ∨ .restore ∈ ms) := by
  cases now with
  | none =>
    obtain ⟨rfl, rfl⟩ | ⟨rfl, rfl⟩ := hcut.one (m := .restore) (by simp [rollbackMoves, hsome]) rfl
    · exact .of_eq (.filled h hsome none) rfl (by simp)
    · exact .of_eq (.refilled h hsome) rfl (by simp)
  | some now =>
    obtain ⟨rfl, rfl⟩ | ⟨rfl, rfl⟩ | ⟨rfl, rfl⟩ :=
      hcut.two (m := .discard) (n := .restore) (by simp [rollbackMoves, hsome]) rfl
    · exact .of_eq (.filled h hsome (some now)) rfl (by simp)
    · exact .of_eq (.filled h hsome none) rfl (by simp)
    · exact .of_eq (.refilled h hsome) rfl (by simp)

omit [DecidableEq π] in
/-- A recovery of a path that is cut off, anywhere. -/
theorem Recovering.cut (h : Recovering s p last i t r) (hstaged : s.staged.isSome)
    (hcut : Cut i t t' ms) : Recovering s p last i t' (r ∨ .restore ∈ ms) := by
  obtain ⟨new, hnew⟩ := Option.isSome_iff_exists.mp hstaged
  cases h with
  | waiting h =>
    obtain ⟨rfl, rfl⟩ := hcut.none (by simp [rollbackMoves]) rfl
    exact .of_eq (.waiting h) rfl (by simp)
  | emptied h kept =>
    have hmoves : rollbackMoves ⟨p, false, false⟩ ⟨none, s.staged, kept⟩ = [] := by
      simp [rollbackMoves]
    obtain ⟨hms, ht⟩ := hcut
    rw [hmoves] at hms
    obtain rfl := List.prefix_nil.mp hms
    rcases ht with rfl | ⟨rfl, -⟩
    · exact .of_eq (.emptied h kept) rfl (by simp)
    · exact .of_eq (.emptied h none) (by simp [rolledBack, hmoves]) (by simp)
  | backed h hsome =>
    obtain ⟨rfl, rfl⟩ | ⟨rfl, rfl⟩ := hcut.one (m := .restore) (by simp [rollbackMoves, hsome]) rfl
    · exact .of_eq (.backed h hsome) rfl (by simp)
    · exact .of_eq (.restored h) rfl (by simp)
  | restored h =>
    obtain ⟨rfl, rfl⟩ := hcut.none (by simp [rollbackMoves]) rfl
    exact .of_eq (.restored h) rfl (by simp)
  | filledNew h hnone =>
    obtain ⟨rfl, rfl⟩ := hcut.none (by simp [rollbackMoves]) rfl
    exact .of_eq (.filledNew h hnone) rfl (by simp)
  | filled h hsome now => exact .cut_filled h hsome now hcut
  | refilled h hsome =>
    obtain ⟨rfl, rfl⟩ := hcut.none (by simp [rollbackMoves]) rfl
    exact .of_eq (.refilled h hsome) rfl (by simp)
  | doneNew h hnone =>
    obtain ⟨rfl, rfl⟩ | ⟨rfl, rfl⟩ := hcut.one (m := .withdraw) (by simp [rollbackMoves, hnew]) rfl
    · exact .of_eq (.doneNew h hnone) rfl (by simp)
    · exact .of_eq (.withdrawnNew h hnone) rfl (by simp)
  | withdrawnNew h hnone =>
    obtain ⟨rfl, rfl⟩ := hcut.none (by simp [rollbackMoves]) rfl
    exact .of_eq (.withdrawnNew h hnone) rfl (by simp)
  | done h hsome =>
    have hmoves : rollbackMoves ⟨p, true, true⟩ ⟨s.staged, none, s.destination⟩ =
        [.withdraw, .restore] := by
      simp [rollbackMoves, hnew, hsome, Slot.move]
    obtain ⟨rfl, rfl⟩ | ⟨rfl, rfl⟩ | ⟨rfl, rfl⟩ := hcut.two hmoves rfl
    · exact .of_eq (.done h hsome) rfl (by simp)
    · exact .of_eq (.withdrawn h hsome) rfl (by simp)
    · exact .of_eq (.back h hsome) rfl (by simp)
  | withdrawn h hsome =>
    obtain ⟨rfl, rfl⟩ | ⟨rfl, rfl⟩ := hcut.one (m := .restore) (by simp [rollbackMoves, hsome]) rfl
    · exact .of_eq (.withdrawn h hsome) rfl (by simp)
    · exact .of_eq (.back h hsome) rfl (by simp)
  | back h hsome =>
    have hmoves : rollbackMoves ⟨p, true, true⟩ ⟨s.destination, s.staged, none⟩ = [.discard] := by
      simp [rollbackMoves, hnew, hsome, Slot.move]
    obtain ⟨rfl, rfl⟩ | ⟨rfl, rfl⟩ := hcut.one hmoves rfl
    · exact .of_eq (.back h hsome) rfl (by simp)
    · exact .of_eq (.lost h) rfl (by simp)
  | lost h =>
    obtain ⟨rfl, rfl⟩ := hcut.none (by simp [rollbackMoves]) rfl
    exact .of_eq (.lost h) rfl (by simp)

end Cuts

/-- The payload after a recovery that is not cut off. -/
theorem Recovering.recovered {s t : Slot α} {p : π} {last : Option (Operation π)} {i : Item π}
    {r : Prop} (h : Recovering s p last i t r) (hstaged : s.staged.isSome) :
    (r ∧ i.installed = true → (rolledBack i t).payload = (none, s.staged)) ∧
    (¬ (r ∧ i.installed = true) → (rolledBack i t).payload = afterCrash s p last) := by
  obtain ⟨new, hnew⟩ := Option.isSome_iff_exists.mp hstaged
  cases h with
  | waiting h | restored h => simp [rolledBack, rollbackMoves, afterCrash, Slot.payload, h]
  | emptied h kept => simp [rolledBack, rollbackMoves, afterCrash, Slot.payload, h]
  | backed h hsome => simp [rolledBack, rollbackMoves, afterCrash, Slot.payload, Slot.move, h, hsome]
  | filledNew h hnone => simp [rolledBack, rollbackMoves, afterCrash, Slot.payload, h, hnone]
  | filled h hsome now =>
    obtain ⟨old, hold⟩ := Option.isSome_iff_exists.mp hsome
    cases now <;>
      simp [rolledBack, rollbackMoves, afterCrash, Slot.payload, Slot.move, h, hold]
  | refilled h hsome =>
    obtain ⟨old, hold⟩ := Option.isSome_iff_exists.mp hsome
    simp [rolledBack, rollbackMoves, afterCrash, Slot.payload, h, hold]
  | doneNew h hnone =>
    simp [rolledBack, rollbackMoves, afterCrash, Slot.payload, Slot.move, h, hnone, hnew]
  | withdrawnNew h hnone =>
    simp [rolledBack, rollbackMoves, afterCrash, Slot.payload, h, hnone]
  | done h hsome =>
    simp [rolledBack, rollbackMoves, afterCrash, Slot.payload, Slot.move, h, hsome, hnew]
  | withdrawn h hsome =>
    simp [rolledBack, rollbackMoves, afterCrash, Slot.payload, Slot.move, h, hsome]
  | back h hsome => simp [rolledBack, rollbackMoves, Slot.payload, Slot.move, hsome, hnew]
  | lost h => simp [rolledBack, rollbackMoves, Slot.payload]

variable {transactionId : Nat} {paths : List π} {start : π → Slot α} {d e f : Disk π α}
  {ops : List (Operation π)} {cuts : List (List (Operation π))} {items : List (Item π)}
  {j : Journal π} {last : Option (Operation π)}

theorem recoverTransaction_eq (hjournal : e.journal = some { j with paths := items })
    (hpublished : j.published = false) (hmarker : e.marker ≠ some j.transactionId) :
    recoverTransaction e = rollbackItems items.reverse e := by
  simp [recoverTransaction, hjournal, hpublished, hmarker, rollbackTransaction]

theorem Restarts.recovering (restored : π → Prop) (hcuts : Restarts e cuts f)
    (hjournal : e.journal = some { j with paths := items }) (hpublished : j.published = false)
    (hmarker : e.marker ≠ some j.transactionId) (hnodup : (items.map Item.path).Nodup)
    (hstaged : ∀ i ∈ items, (start i.path).staged.isSome)
    (h : ∀ i ∈ items, Recovering (start i.path) i.path last i (e.slots i.path) (restored i.path)) :
    f.journal = e.journal ∧ f.marker = e.marker ∧ ∀ i ∈ items,
      Recovering (start i.path) i.path last i (f.slots i.path)
        (restored i.path ∨ ∃ cut ∈ cuts, .move i.path .restore ∈ cut) := by
  induction hcuts generalizing restored with
  | nil e => exact ⟨rfl, rfl, fun i hi => (h i hi).of_eq rfl (by simp)⟩
  | @cons e f cut cuts hcut hno hrest ih =>
    rw [recoverTransaction_eq hjournal hpublished hmarker] at hcut
    have hreverse : (items.reverse.map Item.path).Nodup := by
      rwa [List.map_reverse, List.nodup_reverse]
    obtain ⟨hpartly, -, hsame, hkept⟩ := rollbackItems_prefix hreverse hcut hno
    have hnext : ∀ i ∈ items, Recovering (start i.path) i.path last i ((e.run cut).slots i.path)
        (restored i.path ∨ .move i.path .restore ∈ cut) := by
      intro i hi
      obtain ⟨ms, hms, hmem, hslots⟩ := hpartly i (List.mem_reverse.mpr hi)
      rw [hmem]
      exact (h i hi).cut (hstaged i hi) ⟨hms, hslots⟩
    obtain ⟨hj, hm, hend⟩ := ih (fun p => restored p ∨ .move p .restore ∈ cut)
      (hsame.trans hjournal) (by rwa [hkept]) hnext
    refine ⟨hj.trans hsame, hm.trans hkept, fun i hi => (hend i hi).of_eq rfl ?_⟩
    rw [or_assoc, List.exists_mem_cons_iff]

/-- Without a journal a start does nothing. -/
theorem Restarts.idle (hcuts : Restarts e cuts f) (hjournal : e.journal = none) :
    f = e ∧ ∀ cut ∈ cuts, cut = [] := by
  induction hcuts with
  | nil e => exact ⟨rfl, by simp⟩
  | @cons e f cut cuts hcut hno hrest ih =>
    rw [recoverTransaction, hjournal] at hcut
    obtain rfl := List.prefix_nil.mp hcut
    obtain ⟨hf, hall⟩ := ih hjournal
    exact ⟨hf, by simpa using hall⟩

/-- The journal on the disk calls the path installed. -/
def InstalledIn (d : Disk π α) (p : π) : Prop :=
  ∃ j i, d.journal = some j ∧ i ∈ j.paths ∧ i.path = p ∧ i.installed = true

/-- A crash before the marker, any number of recoveries that are cut off as well, and one that
is not. A path ends as it would without the cut recoveries, unless one of them has put the old
payload back and the journal calls the path installed: then the next one takes that payload for
the new one and removes it. -/
theorem interrupted_recoveries (h : Ready transactionId paths d)
    (hops : ops <+: commitStage transactionId paths d) (hno : .writeMarker transactionId ∉ ops)
    (hcuts : Restarts (d.run ops) cuts f) :
    (f.run (recoverTransaction f)).journal = none ∧ ∀ p ∈ paths,
      ((∃ cut ∈ cuts, .move p .restore ∈ cut) ∧ InstalledIn (d.run ops) p →
        ((f.run (recoverTransaction f)).slots p).payload = (none, (d.slots p).staged)) ∧
      (¬ ((∃ cut ∈ cuts, .move p .restore ∈ cut) ∧ InstalledIn (d.run ops) p) →
        ((f.run (recoverTransaction f)).slots p).payload =
          afterCrash (d.slots p) p ops.getLast?) := by
  rcases commitStage_prefix h hops with
    ⟨-, hjournal, hsame⟩ | ⟨-, hmarker, hinterrupted⟩ | ⟨hyes, -⟩
  · obtain ⟨rfl, hidle⟩ := hcuts.idle hjournal
    rw [recoverTransaction, hjournal]
    refine ⟨hjournal, fun p hp => ⟨?_, fun _ => ?_⟩⟩
    · rintro ⟨⟨cut, hcut, hin⟩, -⟩
      simp [hidle cut hcut] at hin
    · rw [run_nil, (hsame p).1, afterCrash, if_neg ((hsame p).2 _), if_neg ((hsame p).2 _)]
  · obtain ⟨items, hjournal, hpaths, hprogress⟩ := hinterrupted.journal
    have hnodup : (items.map Item.path).Nodup := hpaths ▸ h.nodup
    have hstaged : ∀ i ∈ items, (d.slots i.path).staged.isSome := fun i hi =>
      h.staged _ (hpaths ▸ List.mem_map_of_mem hi)
    obtain ⟨hkept, hmark, hend⟩ := Restarts.recovering (fun _ => False) hcuts hjournal rfl hmarker
      hnodup hstaged fun i hi => (hprogress i hi).recovering
    have hrecover := recoverTransaction_eq (hkept.trans hjournal) rfl (hmark ▸ hmarker)
    have hreverse : (items.reverse.map Item.path).Nodup := by
      rwa [List.map_reverse, List.nodup_reverse]
    obtain ⟨hitems, -, hnone, -⟩ := rollbackItems_run (d := f) hreverse
    rw [hrecover]
    refine ⟨hnone, fun p hp => ?_⟩
    rw [← hpaths] at hp
    obtain ⟨i, hi, rfl⟩ := List.mem_map.mp hp
    have hinstalled : InstalledIn (d.run ops) i.path ↔ i.installed = true := by
      constructor
      · rintro ⟨j, i', hj, hi', hpath, hinstalled⟩
        obtain rfl := Option.some.inj (hjournal.symm.trans hj)
        rwa [← List.inj_on_of_nodup_map hnodup hi' hi hpath]
      · exact fun hinstalled => ⟨_, i, hjournal, hi, rfl, hinstalled⟩
    have hpayload := (hend i hi).recovered (hstaged i hi)
    rw [false_or] at hpayload
    rw [hitems i (List.mem_reverse.mpr hi), hinstalled]
    exact hpayload
  · exact absurd hyes hno

/-- A crash behind the first path's installation, and a recovery cut off when its old payload is
back: the next recovery removes it. -/
theorem interrupted_recoveries_lost :
    let first := update.run ((commitStage 7 [0, 1] update).take 6)
    let second := first.run ((recoverTransaction first).take 2)
    ((second.run (recoverTransaction second)).slots 0).payload = (none, some 20) := by
  intro first second
  have hcuts : Restarts first [(recoverTransaction first).take 2] second :=
    .cons (List.take_prefix 2 _) (by decide) (.nil second)
  have hinstalled : InstalledIn first 0 :=
    ⟨_, ⟨0, true, true⟩, rfl, List.mem_cons_self, rfl, rfl⟩
  exact ((interrupted_recoveries update_ready (List.take_prefix 6 _) (by decide) hcuts).2 0
    (by decide)).1 ⟨⟨_, List.mem_singleton.mpr rfl, by decide⟩, hinstalled⟩

end Interruptions

end Asm2Runtime.PayloadTransaction
