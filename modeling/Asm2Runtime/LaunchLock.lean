import Asm2Runtime.Transition
import Mathlib.Logic.Function.Basic

/-!
# The mkdir lock of the launcher

run.sh guards the game with a lock directory when there is no flock command.
Every file-system access of acquire_launch_lock and lock_cleanup is one step,
any number of launchers take their steps in any order, and a launcher may die at
any moment. Directories and files are instances with an identity of their own,
so that a path can name one instance now and another one later.

An owner file holds the two words that `read -r` takes from it. A word is a list
of characters; process_starttime of a process that does not exist is the empty
word. The system call of a step may fail for reasons of its own.
-/

namespace Asm2Runtime.LaunchLock

open Transition

abbrev Lid := Nat
abbrev DirId := Nat
abbrev FileId := Nat
abbrev Word := List Char

/-- The words of an owner file. -/
structure Owner where
  pid : Word
  start : Word
  deriving DecidableEq, Repr

/-- The case pattern that rejects an owner file. -/
def ownerValid (owner : Owner) : Bool :=
  let text := owner.pid ++ ':' :: owner.start
  text.all (fun c => c.isDigit || c == ':') && text.head? != some ':' && text.getLast? != some ':'

/-- The step that the launcher takes next. The directory `dir` is the one that
its own mkdir created, and `judged` the one whose owner file it read; the script
knows neither, it only uses paths. -/
inductive Pc where
  | unborn | gone
  | mkdir | testReadable | readOwner
  | checkLive (judged : DirId) (owner : Owner)
  | moveStale (judged : DirId)
  | removeStaleOwner | removeStale
  | openOwner (dir : DirId) | writeOwner (dir : DirId) (file : FileId)
  | undoOwner (dir : DirId) | undoDir (dir : DirId)
  | holding (dir : DirId)
  | cleanupTest (dir : DirId) | cleanupRead (dir : DirId)
  | cleanupOwner (dir : DirId) | cleanupDir (dir : DirId)
  deriving DecidableEq, Repr

/-- The directory that the launcher created and has not removed. -/
def Pc.dir : Pc → Option DirId
  | .openOwner d | .writeOwner d _ | .undoOwner d | .undoDir d | .holding d
  | .cleanupTest d | .cleanupRead d | .cleanupOwner d | .cleanupDir d => some d
  | _ => none

def Pc.judged : Pc → Option DirId
  | .checkLive d _ | .moveStale d => some d
  | _ => none

def Pc.live : Pc → Bool
  | .unborn | .gone => false
  | _ => true

/-- acquire_launch_lock has returned and lock_cleanup has not finished. -/
def Pc.locked : Pc → Bool
  | .holding _ | .cleanupTest _ | .cleanupRead _ | .cleanupOwner _ | .cleanupDir _ => true
  | _ => false

/-- `id` holds `$$` and LOCK_START. -/
structure Launcher where
  id : Owner
  pc : Pc
  deriving DecidableEq, Repr

/-- `stale l` lists the directory at the path stale_dir of launcher `l`, then the
ones that a later mv put into it. The content of a file is none when `read` fails
on it. -/
structure State where
  launchers : Lid → Launcher
  spawned : List Lid
  lockDir : Option DirId
  stale : Lid → List DirId
  owner : DirId → Option FileId
  content : FileId → Option Owner
  nextDir : DirId
  nextFile : FileId

/-- What an earlier session left at LOCK_DIR. -/
inductive Leftover where
  | nothing
  | directory
  | ownerFile (content : Option Owner)
  deriving DecidableEq, Repr

def initial (leftover : Leftover) : State :=
  { launchers := fun _ => ⟨⟨[], []⟩, .unborn⟩, spawned := []
    lockDir := match leftover with
      | .nothing => none
      | .directory | .ownerFile _ => some 0
    stale := fun _ => []
    owner := fun d => match leftover with
      | .ownerFile _ => if d = 0 then some 0 else none
      | .nothing | .directory => none
    content := fun _ => match leftover with
      | .ownerFile content => content
      | .nothing | .directory => none
    nextDir := 1, nextFile := 1 }

namespace State

def goto (s : State) (l : Lid) (pc : Pc) : State :=
  { s with launchers := Function.update s.launchers l { s.launchers l with pc } }

/-- What `read -r` finds in the owner file of a directory. -/
def readFrom (s : State) (d : DirId) : Option Owner := (s.owner d).bind s.content

/-- `[ -r "$LOCK_DIR/owner" ]` -/
def readable (s : State) : Bool := (s.lockDir.bind s.owner).isSome

/-- `rm -f -- dir/owner` -/
def removeOwner (s : State) (d : Option DirId) (ok : Bool) : State :=
  match d, ok with
  | some d, true => { s with owner := Function.update s.owner d none }
  | _, _ => s

/-- `rmdir -- "$LOCK_DIR"` -/
def removeLockDir (s : State) (ok : Bool) : State :=
  match s.lockDir, ok with
  | some d, true => if s.owner d = none then { s with lockDir := none } else s
  | _, _ => s

/-- Opening `"$LOCK_DIR/owner"` for writing creates or truncates it. -/
def openLockOwner (s : State) : Option (State × FileId) :=
  s.lockDir.map fun d =>
    match s.owner d with
    | some f => ({ s with content := Function.update s.content f none }, f)
    | none =>
      ({ s with
        owner := Function.update s.owner d (some s.nextFile)
        content := Function.update s.content s.nextFile none
        nextFile := s.nextFile + 1 }, s.nextFile)

/-- process_starttime is right about live launchers; of other processes anything
may be observed. -/
def Observes (s : State) (pid observed : Word) : Prop :=
  ∀ l ∈ s.spawned, (s.launchers l).pc.live = true → (s.launchers l).id.pid = pid →
    observed = (s.launchers l).id.start

instance (s : State) (pid observed : Word) : Decidable (s.Observes pid observed) :=
  inferInstanceAs (Decidable (∀ l ∈ s.spawned, _))

/-- `$$` and LOCK_START are numbers, and identify the process among all launchers. -/
def Fresh (s : State) (id : Owner) : Prop :=
  ownerValid id = true ∧ ∀ l ∈ s.spawned, (s.launchers l).id ≠ id ∧
    ((s.launchers l).pc.live = true → (s.launchers l).id.pid ≠ id.pid)

instance (s : State) (id : Owner) : Decidable (s.Fresh id) :=
  inferInstanceAs (Decidable (_ ∧ ∀ l ∈ s.spawned, _))

/-- The next step of launcher `l`. `ok` says that the system call did not fail
for a reason outside the model, `observed` is what process_starttime printed. -/
def act (s : State) (l : Lid) (ok : Bool) (observed : Word) : Option State :=
  match (s.launchers l).pc with
  | .unborn | .gone | .holding _ => none
  | .mkdir =>
    if ok ∧ s.lockDir = none then
      some ({ s with
        lockDir := some s.nextDir
        owner := Function.update s.owner s.nextDir none
        nextDir := s.nextDir + 1 }.goto l (.openOwner s.nextDir))
    else some (s.goto l .testReadable)
  | .testReadable => if ok ∧ s.readable then some (s.goto l .readOwner) else some (s.goto l .gone)
  | .readOwner =>
    match s.lockDir with
    | none => some (s.goto l .gone)
    | some d =>
      match s.readFrom d with
      | none => some (s.goto l .gone)
      | some owner =>
        if ok ∧ ownerValid owner then some (s.goto l (.checkLive d owner))
        else some (s.goto l .gone)
  | .checkLive d owner =>
    if s.Observes owner.pid observed then
      if observed = owner.start then some (s.goto l .gone) else some (s.goto l (.moveStale d))
    else none
  | .moveStale _ =>
    match s.lockDir, ok with
    | some d, true =>
      some ({ s with
        lockDir := none
        stale := Function.update s.stale l (s.stale l ++ [d]) }.goto l .removeStaleOwner)
    | _, _ => some (s.goto l .mkdir)
  | .removeStaleOwner => some ((s.removeOwner (s.stale l).head? ok).goto l .removeStale)
  | .removeStale =>
    match s.stale l, ok with
    | [d], true =>
      if s.owner d = none then
        some ({ s with stale := Function.update s.stale l [] }.goto l .mkdir)
      else some (s.goto l .mkdir)
    | _, _ => some (s.goto l .mkdir)
  | .openOwner d =>
    match s.openLockOwner, ok with
    | some (s, f), true => some (s.goto l (.writeOwner d f))
    | _, _ => some (s.goto l (.undoOwner d))
  | .writeOwner d f =>
    if ok then
      some ({ s with content := Function.update s.content f (some (s.launchers l).id) }.goto l
        (.holding d))
    else some (s.goto l (.undoOwner d))
  | .undoOwner d => some ((s.removeOwner s.lockDir ok).goto l (.undoDir d))
  | .undoDir _ => some ((s.removeLockDir ok).goto l .gone)
  | .cleanupTest d =>
    if ok ∧ s.readable then some (s.goto l (.cleanupRead d)) else some (s.goto l .gone)
  | .cleanupRead d =>
    if ok ∧ s.lockDir.bind s.readFrom = some (s.launchers l).id then
      some (s.goto l (.cleanupOwner d))
    else some (s.goto l .gone)
  | .cleanupOwner d => some ((s.removeOwner s.lockDir ok).goto l (.cleanupDir d))
  | .cleanupDir _ => some ((s.removeLockDir ok).goto l .gone)

/-- A launcher that is not live takes no step of its own. -/
theorem act_of_not_live {s : State} {l : Lid} (h : (s.launchers l).pc.live = false) (ok : Bool)
    (observed : Word) : s.act l ok observed = none := by
  cases hpc : (s.launchers l).pc with
  | unborn | gone => simp only [act, hpc]
  | _ => simp [hpc, Pc.live] at h

end State

inductive Event where
  | spawn (l : Lid) (id : Owner)
  | act (l : Lid) (ok : Bool) (observed : Word)
  /-- the launcher leaves the game and its EXIT trap runs lock_cleanup -/
  | exit (l : Lid)
  /-- the launcher dies without running its trap -/
  | die (l : Lid)
  deriving DecidableEq, Repr

def step (s : State) : Event → Option State
  | .spawn l id =>
    if (s.launchers l).pc = .unborn ∧ s.Fresh id then
      some { s with
        launchers := Function.update s.launchers l ⟨id, .mkdir⟩, spawned := l :: s.spawned }
    else none
  | .act l ok observed => s.act l ok observed
  | .exit l =>
    match (s.launchers l).pc with
    | .holding d => some (s.goto l (.cleanupTest d))
    | _ => none
  | .die l => if (s.launchers l).pc.live then some (s.goto l .gone) else none

/-! ## The directory of a live launcher stays in place -/

/-- A launcher that judged a directory stale still finds that directory when its
mv finds one at all. -/
def JudgedInPlace (s : State) : Event → Prop
  | .act l ok _ => ok = true → ∀ j, (s.launchers l).pc = .moveStale j →
      s.lockDir = none ∨ s.lockDir = some j
  | _ => True

instance decidableJudgedInPlace (s : State) : ∀ e, Decidable (JudgedInPlace s e)
  | .act l ok _ =>
    match h : (s.launchers l).pc with
    | .moveStale j =>
      decidable_of_iff (ok = true → s.lockDir = none ∨ s.lockDir = some j)
        (by simp [JudgedInPlace, h])
    | .unborn | .gone | .mkdir | .testReadable | .readOwner | .checkLive _ _ | .removeStaleOwner
    | .removeStale | .openOwner _ | .writeOwner _ _ | .undoOwner _ | .undoDir _ | .holding _
    | .cleanupTest _ | .cleanupRead _ | .cleanupOwner _ | .cleanupDir _ =>
      isTrue (by simp [JudgedInPlace, h])
  | .spawn _ _ | .exit _ | .die _ => isTrue trivial

/-- At most one live launcher is past acquire_launch_lock, and the directory of
every live launcher is where the launcher made it. -/
structure MutualExclusion (s : State) : Prop where
  exclusive : ∀ l m, (s.launchers l).pc.locked = true → (s.launchers m).pc.locked = true → l = m
  kept : ∀ l d, (s.launchers l).pc.dir = some d → s.lockDir = some d

/-- The owner file of a live launcher's directory names it, and what a launcher
judged stale belongs to no live launcher. -/
structure Guarded (s : State) : Prop where
  spawned : ∀ l, (s.launchers l).pc.live = true → l ∈ s.spawned
  freshLock : ∀ d, s.lockDir = some d → d < s.nextDir
  freshJudged : ∀ l d, (s.launchers l).pc.judged = some d → d < s.nextDir
  inPlace : ∀ l d, (s.launchers l).pc.dir = some d → s.lockDir = some d
  unique : ∀ l m d, (s.launchers l).pc.dir = some d → (s.launchers m).pc.dir = some d → l = m
  named : ∀ l d owner, (s.launchers l).pc.dir = some d → s.readFrom d = some owner →
    owner = (s.launchers l).id
  judging : ∀ l m d owner, (s.launchers l).pc = .checkLive d owner →
    (s.launchers m).pc.dir = some d → owner = (s.launchers m).id
  stale : ∀ l m d, (s.launchers l).pc = .moveStale d → (s.launchers m).pc.dir ≠ some d

theorem initial_guarded (leftover : Leftover) : Guarded (initial leftover) := by
  refine ⟨?_, ?_, ?_, ?_, ?_, ?_, ?_, ?_⟩
  case refine_2 => cases leftover <;> simp [initial]
  all_goals simp [initial, Pc.live, Pc.judged, Pc.dir]

theorem Pc.live_of_dir {pc : Pc} {d : DirId} (h : pc.dir = some d) : pc.live = true := by
  cases pc <;> simp_all [Pc.dir, Pc.live]

theorem Pc.dir_of_locked {pc : Pc} (h : pc.locked = true) : ∃ d, pc.dir = some d := by
  cases pc <;> simp_all [Pc.locked, Pc.dir]

theorem Guarded.mutualExclusion {s : State} (h : Guarded s) : MutualExclusion s := by
  refine ⟨?_, h.inPlace⟩
  intro l m hl hm
  obtain ⟨d, hd⟩ := Pc.dir_of_locked hl
  obtain ⟨d', hd'⟩ := Pc.dir_of_locked hm
  have heq : d = d' := by
    have := (h.inPlace l d hd).symm.trans (h.inPlace m d' hd')
    exact Option.some.inj this
  subst d'
  exact h.unique l m d hd hd'

/-- Two launchers with a directory are the same launcher. -/
theorem Guarded.owner_unique {s : State} (h : Guarded s) {l m : Lid} {d d' : DirId}
    (hl : (s.launchers l).pc.dir = some d) (hm : (s.launchers m).pc.dir = some d') : l = m := by
  have := (h.inPlace l d hl).symm.trans (h.inPlace m d' hm)
  obtain rfl := Option.some.inj this
  exact h.unique l m d hl hm

/-- Launcher `l` moves on, at most writing its own name into its directory. -/
theorem Guarded.update {s s' : State} (h : Guarded s) (l : Lid) {launcher : Launcher}
    (hl : s'.launchers = Function.update s.launchers l launcher)
    (hspawned : ∀ m ∈ s.spawned, m ∈ s'.spawned)
    (hlive : launcher.pc.live = true → l ∈ s'.spawned)
    (hjudged : launcher.pc.judged = none)
    (hdir : ∀ d, launcher.pc.dir = some d →
      (s.launchers l).pc.dir = some d ∧ launcher.id = (s.launchers l).id)
    (hlock : s'.lockDir = s.lockDir) (hnext : s'.nextDir = s.nextDir)
    (hread : ∀ d owner, s'.readFrom d = some owner → s.readFrom d = some owner ∨
      ∃ e, (s.launchers l).pc.dir = some e ∧ owner = (s.launchers l).id) : Guarded s' := by
  have hself : s'.launchers l = launcher := by simp [hl]
  have hother : ∀ m, m ≠ l → s'.launchers m = s.launchers m := by
    intro m hm
    simp [hl, hm]
  have hold : ∀ m d, (s'.launchers m).pc.dir = some d →
      (s.launchers m).pc.dir = some d ∧ (s'.launchers m).id = (s.launchers m).id := by
    intro m d hd
    by_cases hm : m = l
    · subst m
      rw [hself] at hd ⊢
      exact hdir d hd
    · rw [hother m hm] at hd ⊢
      exact ⟨hd, rfl⟩
  have hjudging : ∀ m d, (s'.launchers m).pc.judged = some d → s'.launchers m = s.launchers m := by
    intro m d hd
    apply hother
    rintro rfl
    rw [hself, hjudged] at hd
    cases hd
  refine ⟨?_, ?_, ?_, ?_, ?_, ?_, ?_, ?_⟩
  · intro m hm
    by_cases hml : m = l
    · subst m
      exact hlive (hself ▸ hm)
    · rw [hother m hml] at hm
      exact hspawned m (h.spawned m hm)
  · rw [hlock, hnext]
    exact h.freshLock
  · intro m d hd
    rw [hnext]
    exact h.freshJudged m d (hjudging m d hd ▸ hd)
  · intro m d hd
    rw [hlock]
    exact h.inPlace m d (hold m d hd).1
  · intro m n d hm hn
    exact h.unique m n d (hold m d hm).1 (hold n d hn).1
  · intro m d owner hm howner
    obtain ⟨hmd, hid⟩ := hold m d hm
    rw [hid]
    rcases hread d owner howner with hsame | ⟨e, he, heq⟩
    · exact h.named m d owner hmd hsame
    · obtain rfl := h.owner_unique hmd he
      exact heq
  · intro m n d owner hm hn
    obtain ⟨hnd, hid⟩ := hold n d hn
    rw [hjudging m d (by simp [hm, Pc.judged])] at hm
    rw [hid]
    exact h.judging m n d owner hm hnd
  · intro m n d hm hn
    rw [hjudging m d (by simp [hm, Pc.judged])] at hm
    exact h.stale m n d hm (hold n d hn).1

theorem Guarded.goto {s : State} (h : Guarded s) {l : Lid} {pc : Pc}
    (hlive : (s.launchers l).pc.live = true) (hjudged : pc.judged = none)
    (hdir : ∀ d, pc.dir = some d → (s.launchers l).pc.dir = some d) : Guarded (s.goto l pc) :=
  h.update l rfl (fun _ hm => hm) (fun _ => h.spawned l hlive) hjudged
    (fun d hd => ⟨hdir d hd, rfl⟩) rfl rfl fun _ _ hr => .inl hr

/-- Owner files that disappear or become empty do no harm. -/
theorem Guarded.files {s s' : State} (h : Guarded s) (hl : s'.launchers = s.launchers)
    (hspawned : s'.spawned = s.spawned) (hlock : s'.lockDir = s.lockDir)
    (hnext : s'.nextDir = s.nextDir)
    (hread : ∀ d owner, s'.readFrom d = some owner → s.readFrom d = some owner) :
    Guarded s' := by
  refine ⟨?_, ?_, ?_, ?_, ?_, ?_, ?_, ?_⟩
  · rw [hl, hspawned]; exact h.spawned
  · rw [hlock, hnext]; exact h.freshLock
  · rw [hl, hnext]; exact h.freshJudged
  · rw [hl, hlock]; exact h.inPlace
  · rw [hl]; exact h.unique
  · rw [hl]
    intro m d owner hm howner
    exact h.named m d owner hm (hread d owner howner)
  · rw [hl]; exact h.judging
  · rw [hl]; exact h.stale

theorem Guarded.removeOwner {s : State} (h : Guarded s) (d : Option DirId) (ok : Bool) :
    Guarded (s.removeOwner d ok) := by
  cases d with
  | none => exact h
  | some d =>
    cases ok with
    | false => exact h
    | true =>
      refine h.files rfl rfl rfl rfl ?_
      intro e owner he
      by_cases hed : e = d
      · subst e
        simp [State.removeOwner, State.readFrom] at he
      · simpa [State.removeOwner, State.readFrom, hed] using he

@[simp] theorem launchers_removeOwner (s : State) (d : Option DirId) (ok : Bool) :
    (s.removeOwner d ok).launchers = s.launchers := by
  unfold State.removeOwner
  split <;> rfl

theorem Guarded.openLockOwner {s s' : State} (h : Guarded s) {f : FileId}
    (hopen : s.openLockOwner = some (s', f)) : Guarded s' ∧ s'.launchers = s.launchers := by
  obtain ⟨d, hd, hout⟩ := Option.map_eq_some_iff.mp hopen
  cases howner : s.owner d with
  | some g =>
    simp only [howner, Prod.mk.injEq] at hout
    obtain ⟨rfl, rfl⟩ := hout
    refine ⟨h.files rfl rfl rfl rfl ?_, rfl⟩
    intro e owner he
    obtain ⟨k, hk, hcontent⟩ := Option.bind_eq_some_iff.mp he
    have hkg : k ≠ g := by
      rintro rfl
      simp at hcontent
    exact Option.bind_eq_some_iff.mpr ⟨k, hk, by simpa [hkg] using hcontent⟩
  | none =>
    simp only [howner, Prod.mk.injEq] at hout
    obtain ⟨rfl, rfl⟩ := hout
    refine ⟨h.files rfl rfl rfl rfl ?_, rfl⟩
    intro e owner he
    obtain ⟨k, hk, hcontent⟩ := Option.bind_eq_some_iff.mp he
    have hkn : k ≠ s.nextFile := by
      rintro rfl
      simp at hcontent
    have hed : e ≠ d := by
      rintro rfl
      exact hkn (by simpa using hk.symm)
    exact Option.bind_eq_some_iff.mpr
      ⟨k, by simpa [hed] using hk, by simpa [hkn] using hcontent⟩

/-- LOCK_DIR disappears while no other launcher has a directory. -/
theorem Guarded.clear {s : State} (h : Guarded s) (l : Lid) {pc : Pc} (stale : Lid → List DirId)
    (hlive : (s.launchers l).pc.live = true) (hjudged : pc.judged = none) (hdir : pc.dir = none)
    (hother : ∀ m d, m ≠ l → (s.launchers m).pc.dir ≠ some d) :
    Guarded ({ s with lockDir := none, stale }.goto l pc) := by
  have hbase : Guarded (s.goto l pc) := h.goto hlive hjudged (by simp [hdir])
  have hnobody : ∀ m d, ((s.goto l pc).launchers m).pc.dir ≠ some d := by
    intro m d
    by_cases hm : m = l
    · subst m
      simp [State.goto, hdir]
    · simpa [State.goto, hm] using hother m d hm
  refine ⟨hbase.spawned, by simp [State.goto], hbase.freshJudged, ?_, hbase.unique, hbase.named,
    hbase.judging, hbase.stale⟩
  intro m d hd
  exact absurd hd (hnobody m d)

theorem Guarded.removeLockDir {s : State} (h : Guarded s) {l : Lid} {d : DirId} (ok : Bool)
    (hl : (s.launchers l).pc.dir = some d) : Guarded ((s.removeLockDir ok).goto l .gone) := by
  have hlive := Pc.live_of_dir hl
  have hstay : Guarded (s.goto l .gone) := h.goto hlive rfl (by simp [Pc.dir])
  have hclear : Guarded ({ s with lockDir := none }.goto l .gone) := by
    refine h.clear l s.stale hlive rfl rfl ?_
    intro m e hm he
    exact hm (h.owner_unique he hl)
  unfold State.removeLockDir
  split
  · split
    · exact hclear
    · exact hstay
  · exact hstay

/-- mkdir succeeds only when nobody has a directory, and makes a fresh one. -/
theorem Guarded.create {s : State} (h : Guarded s) {l : Lid}
    (hlive : (s.launchers l).pc.live = true) (hfree : s.lockDir = none) :
    Guarded ({ s with
      lockDir := some s.nextDir
      owner := Function.update s.owner s.nextDir none
      nextDir := s.nextDir + 1 }.goto l (.openOwner s.nextDir)) := by
  have hnobody : ∀ m d, (s.launchers m).pc.dir ≠ some d := by
    intro m d hd
    have := h.inPlace m d hd
    simp [hfree] at this
  have hdir : ∀ m d, ((s.goto l (.openOwner s.nextDir)).launchers m).pc.dir = some d →
      m = l ∧ d = s.nextDir := by
    intro m d hd
    by_cases hm : m = l
    · subst m
      exact ⟨rfl, by simpa [State.goto, Pc.dir, eq_comm] using hd⟩
    · exact absurd (by simpa [State.goto, hm] using hd) (hnobody m d)
  have hjudged : ∀ m d, ((s.goto l (.openOwner s.nextDir)).launchers m).pc.judged = some d →
      d < s.nextDir := by
    intro m d hd
    by_cases hm : m = l
    · subst m
      simp [State.goto, Pc.judged] at hd
    · exact h.freshJudged m d (by simpa [State.goto, hm] using hd)
  refine ⟨?_, ?_, ?_, ?_, ?_, ?_, ?_, ?_⟩
  · intro m hm
    by_cases hml : m = l
    · subst m
      exact h.spawned l hlive
    · exact h.spawned m (by simpa [State.goto, hml] using hm)
  · intro d hd
    have : s.nextDir = d := by simpa [State.goto] using hd
    simp [State.goto, ← this]
  · intro m d hd
    exact Nat.lt_succ_of_lt (hjudged m d hd)
  · intro m d hd
    simp [State.goto, (hdir m d hd).2]
  · intro m n d hm hn
    rw [(hdir m d hm).1, (hdir n d hn).1]
  · intro m d owner hm howner
    rw [(hdir m d hm).2] at howner
    simp [State.goto, State.readFrom] at howner
  · intro m n d owner hm hn
    have hlt := hjudged m d (by rw [State.goto] at hm ⊢; simp only at hm ⊢; simp [hm, Pc.judged])
    rw [(hdir n d hn).2] at hlt
    exact absurd hlt (Nat.lt_irrefl _)
  · intro m n d hm hn
    have hlt := hjudged m d (by rw [State.goto] at hm ⊢; simp only at hm ⊢; simp [hm, Pc.judged])
    rw [(hdir n d hn).2] at hlt
    exact absurd hlt (Nat.lt_irrefl _)

/-- Launcher `l` reads or judges the owner of directory `d`. -/
theorem Guarded.judge {s : State} (h : Guarded s) {l : Lid} {pc : Pc} {d : DirId}
    (hlive : (s.launchers l).pc.live = true) (hdir : pc.dir = none) (hfresh : d < s.nextDir)
    (hjudged : pc.judged = some d)
    (hcheck : ∀ owner, pc = .checkLive d owner → ∀ m, (s.launchers m).pc.dir = some d →
      owner = (s.launchers m).id)
    (hmove : pc = .moveStale d → ∀ m, (s.launchers m).pc.dir ≠ some d) : Guarded (s.goto l pc) := by
  have hold : ∀ m e, ((s.goto l pc).launchers m).pc.dir = some e →
      m ≠ l ∧ (s.launchers m).pc.dir = some e := by
    intro m e he
    by_cases hm : m = l
    · subst m
      simp [State.goto, hdir] at he
    · exact ⟨hm, by simpa [State.goto, hm] using he⟩
  have hid : ∀ m, ((s.goto l pc).launchers m).id = (s.launchers m).id := by
    intro m
    by_cases hm : m = l
    · subst m; simp [State.goto]
    · simp [State.goto, hm]
  refine ⟨?_, h.freshLock, ?_, ?_, ?_, ?_, ?_, ?_⟩
  · intro m hm
    by_cases hml : m = l
    · subst m
      exact h.spawned l hlive
    · exact h.spawned m (by simpa [State.goto, hml] using hm)
  · intro m e he
    by_cases hm : m = l
    · subst m
      have : d = e := by simpa [State.goto, hjudged] using he
      exact this ▸ hfresh
    · exact h.freshJudged m e (by simpa [State.goto, hm] using he)
  · intro m e he
    exact h.inPlace m e (hold m e he).2
  · intro m n e hm hn
    exact h.unique m n e (hold m e hm).2 (hold n e hn).2
  · intro m e owner hm howner
    rw [hid]
    exact h.named m e owner (hold m e hm).2 howner
  · intro m n e owner hm hn
    rw [hid]
    by_cases hml : m = l
    · subst m
      have hpc : pc = .checkLive e owner := by simpa [State.goto] using hm
      obtain rfl : d = e := by simpa [hpc, Pc.judged, eq_comm] using hjudged
      exact hcheck owner hpc n (hold n d hn).2
    · exact h.judging m n e owner (by simpa [State.goto, hml] using hm) (hold n e hn).2
  · intro m n e hm hn
    by_cases hml : m = l
    · subst m
      have hpc : pc = .moveStale e := by simpa [State.goto] using hm
      obtain rfl : d = e := by simpa [hpc, Pc.judged, eq_comm] using hjudged
      exact hmove hpc n (hold n d hn).2
    · exact h.stale m n e (by simpa [State.goto, hml] using hm) (hold n e hn).2

/-- When the owner is observed not to live, no live launcher has the directory. -/
theorem Guarded.dead {s : State} (h : Guarded s) {l : Lid} {d : DirId} {owner : Owner}
    {observed : Word} (hpc : (s.launchers l).pc = .checkLive d owner)
    (hobs : s.Observes owner.pid observed) (hstale : observed ≠ owner.start) (m : Lid) :
    (s.launchers m).pc.dir ≠ some d := by
  intro hm
  have hlive := Pc.live_of_dir hm
  have hid := h.judging l m d owner hpc hm
  have := hobs m (h.spawned m hlive) hlive (by rw [← hid])
  rw [← hid] at this
  exact hstale this

section Act

variable {s s' : State} {l : Lid} {ok : Bool} {observed : Word}

/-- The owner that the launcher judges is the one in the lock it has read. -/
theorem readOwner_guarded (h : Guarded s)
    (hpc : (s.launchers l).pc = .readOwner) (hstep : s.act l ok observed = some s') :
    Guarded s' := by
  have hlive : (s.launchers l).pc.live = true := by simp [hpc, Pc.live]
  have hgone : Guarded (s.goto l .gone) := h.goto hlive rfl (by simp [Pc.dir])
  simp only [State.act, hpc] at hstep
  split at hstep
  · obtain rfl := Option.some.inj hstep
    exact hgone
  · rename_i d hd
    split at hstep
    · obtain rfl := Option.some.inj hstep
      exact hgone
    · rename_i owner howner
      split at hstep
      · obtain rfl := Option.some.inj hstep
        refine h.judge hlive rfl (h.freshLock d hd) rfl ?_ (by simp)
        intro owner' he m hm
        obtain rfl : owner = owner' := by simpa using he
        exact h.named m d owner hm howner
      · obtain rfl := Option.some.inj hstep
        exact hgone

/-- The verdict on the owner that was read. -/
theorem checkLive_guarded {d : DirId} {owner : Owner} (h : Guarded s)
    (hpc : (s.launchers l).pc = .checkLive d owner) (hstep : s.act l ok observed = some s') :
    Guarded s' := by
  have hlive : (s.launchers l).pc.live = true := by simp [hpc, Pc.live]
  simp only [State.act, hpc, Option.ite_none_right_eq_some] at hstep
  obtain ⟨hobs, hstep⟩ := hstep
  split at hstep
  · obtain rfl := Option.some.inj hstep
    exact h.goto hlive rfl (by simp [Pc.dir])
  · rename_i hstale
    obtain rfl := Option.some.inj hstep
    exact h.judge hlive rfl (h.freshJudged l d (by simp [hpc, Pc.judged])) rfl (by simp)
      fun _ => h.dead hpc hobs hstale

/-- The `mv` takes the lock that was judged. -/
theorem moveStale_guarded {j : DirId} (h : Guarded s) (hok : JudgedInPlace s (.act l ok observed))
    (hpc : (s.launchers l).pc = .moveStale j) (hstep : s.act l ok observed = some s') :
    Guarded s' := by
  have hlive : (s.launchers l).pc.live = true := by simp [hpc, Pc.live]
  simp only [State.act, hpc] at hstep
  split at hstep
  · rename_i d hd
    obtain rfl := Option.some.inj hstep
    have hdj : d = j := by
      rcases hok rfl j hpc with hnone | hsome
      · simp [hnone] at hd
      · exact Option.some.inj (hd.symm.trans hsome)
    subst hdj
    refine h.clear l _ hlive rfl rfl ?_
    intro m e hm he
    have hed : e = d := Option.some.inj ((h.inPlace m e he).symm.trans hd)
    exact h.stale l m d hpc (hed ▸ he)
  · obtain rfl := Option.some.inj hstep
    exact h.goto hlive rfl (by simp [Pc.dir])

theorem removeStale_guarded (h : Guarded s)
    (hpc : (s.launchers l).pc = .removeStale) (hstep : s.act l ok observed = some s') :
    Guarded s' := by
  have hlive : (s.launchers l).pc.live = true := by simp [hpc, Pc.live]
  have hagain : Guarded (s.goto l .mkdir) := h.goto hlive rfl (by simp [Pc.dir])
  simp only [State.act, hpc] at hstep
  split at hstep
  · split at hstep
    · obtain rfl := Option.some.inj hstep
      exact hagain.files rfl rfl rfl rfl fun _ _ hr => hr
    · obtain rfl := Option.some.inj hstep
      exact hagain
  · obtain rfl := Option.some.inj hstep
    exact hagain

/-- The owner file is opened in the lock of the launcher. -/
theorem openOwner_guarded {d : DirId} (h : Guarded s)
    (hpc : (s.launchers l).pc = .openOwner d) (hstep : s.act l ok observed = some s') :
    Guarded s' := by
  simp only [State.act, hpc] at hstep
  split at hstep
  · rename_i s₁ f hopen
    obtain rfl := Option.some.inj hstep
    obtain ⟨h₁, hl⟩ := h.openLockOwner hopen
    exact h₁.goto (by simp [hl, hpc, Pc.live]) rfl (by simp [hl, hpc, Pc.dir])
  · obtain rfl := Option.some.inj hstep
    exact h.goto (by simp [hpc, Pc.live]) rfl (by simp [hpc, Pc.dir])

/-- Only the lock of the launcher gets its owner. -/
theorem writeOwner_guarded {d : DirId} {f : FileId} (h : Guarded s)
    (hpc : (s.launchers l).pc = .writeOwner d f) (hstep : s.act l ok observed = some s') :
    Guarded s' := by
  simp only [State.act, hpc] at hstep
  split at hstep
  · obtain rfl := Option.some.inj hstep
    refine h.update l rfl (fun _ hm => hm) (fun _ => h.spawned l (by simp [hpc, Pc.live])) rfl
      (by simp [hpc, Pc.dir]) rfl rfl ?_
    intro e owner he
    obtain ⟨k, hk, hcontent⟩ := Option.bind_eq_some_iff.mp he
    by_cases hkf : k = f
    · subst k
      exact .inr ⟨d, by simp [hpc, Pc.dir], by simpa [State.goto, eq_comm] using hcontent⟩
    · exact .inl (Option.bind_eq_some_iff.mpr
        ⟨k, hk, by simpa [State.goto, hkf] using hcontent⟩)
  · obtain rfl := Option.some.inj hstep
    exact h.goto (by simp [hpc, Pc.live]) rfl (by simp [hpc, Pc.dir])

theorem act_guarded (h : Guarded s) (hok : JudgedInPlace s (.act l ok observed))
    (hstep : s.act l ok observed = some s') : Guarded s' := by
  cases hpc : (s.launchers l).pc with
  | unborn | gone => simp [State.act_of_not_live, hpc, Pc.live] at hstep
  | holding d => simp [State.act, hpc] at hstep
  | mkdir =>
    have hlive : (s.launchers l).pc.live = true := by simp [hpc, Pc.live]
    simp only [State.act, hpc] at hstep
    split at hstep
    · rename_i hfree
      obtain rfl := Option.some.inj hstep
      exact h.create hlive hfree.2
    · obtain rfl := Option.some.inj hstep
      exact h.goto hlive rfl (by simp [Pc.dir])
  | testReadable =>
    have hlive : (s.launchers l).pc.live = true := by simp [hpc, Pc.live]
    simp only [State.act, hpc] at hstep
    split at hstep <;>
      (obtain rfl := Option.some.inj hstep; exact h.goto hlive rfl (by simp [Pc.dir]))
  | readOwner => exact readOwner_guarded h hpc hstep
  | checkLive d owner => exact checkLive_guarded h hpc hstep
  | moveStale j => exact moveStale_guarded h hok hpc hstep
  | removeStaleOwner =>
    simp only [State.act, hpc] at hstep
    obtain rfl := Option.some.inj hstep
    exact (h.removeOwner _ ok).goto (by simp [hpc, Pc.live]) rfl (by simp [Pc.dir])
  | removeStale => exact removeStale_guarded h hpc hstep
  | openOwner d => exact openOwner_guarded h hpc hstep
  | writeOwner d f => exact writeOwner_guarded h hpc hstep
  | undoOwner d | cleanupOwner d =>
    simp only [State.act, hpc] at hstep
    obtain rfl := Option.some.inj hstep
    exact (h.removeOwner _ ok).goto (by simp [hpc, Pc.live]) rfl (by simp [hpc, Pc.dir])
  | undoDir d | cleanupDir d =>
    simp only [State.act, hpc] at hstep
    obtain rfl := Option.some.inj hstep
    have hdir : (s.launchers l).pc.dir = some d := by simp [hpc, Pc.dir]
    exact h.removeLockDir ok hdir
  | cleanupTest d | cleanupRead d =>
    simp only [State.act, hpc] at hstep
    split at hstep <;>
      (obtain rfl := Option.some.inj hstep
       exact h.goto (by simp [hpc, Pc.live]) rfl (by simp [hpc, Pc.dir]))

end Act

theorem step_guarded {s s' : State} {e : Event} (h : Guarded s) (hok : JudgedInPlace s e)
    (hstep : step s e = some s') : Guarded s' := by
  cases e with
  | spawn l id =>
    simp only [step, Option.ite_none_right_eq_some, Option.some.injEq] at hstep
    obtain ⟨⟨hunborn, -⟩, rfl⟩ := hstep
    exact h.update l rfl (fun _ hm => List.mem_cons_of_mem _ hm) (fun _ => List.mem_cons_self ..)
      rfl (by simp [Pc.dir]) rfl rfl fun _ _ hr => .inl hr
  | act l ok observed => exact act_guarded h hok hstep
  | exit l =>
    simp only [step] at hstep
    split at hstep
    · rename_i d hpc
      obtain rfl := Option.some.inj hstep
      exact h.goto (by simp [hpc, Pc.live]) rfl (by simp [hpc, Pc.dir])
    · simp at hstep
  | die l =>
    simp only [step, Option.ite_none_right_eq_some, Option.some.injEq] at hstep
    obtain ⟨hlive, rfl⟩ := hstep
    exact h.goto hlive rfl (by simp [Pc.dir])

/-- If every mv that finds a lock directory finds the one that was judged stale,
the lock is exclusive at every moment of the run. -/
theorem launch_lock_exclusive (leftover : Leftover) (es : List Event)
    (hok : Along step JudgedInPlace (initial leftover) es) :
    Always step MutualExclusion (initial leftover) es := by
  intro fs gs s hes hrun
  subst es
  have hguarded : Guarded s :=
    run_invariant_along (fun _ _ _ h hok hstep => step_guarded h hok hstep)
      (initial_guarded leftover) (hok.append hrun).1 hrun
  exact hguarded.mutualExclusion

/-- A dead launcher 7 left its lock. Launchers 1 and 2 both judge it stale;
launcher 1 replaces it, and launcher 2 moves the new one away. -/
def deadOwner : Leftover := .ownerFile (some ⟨['7'], ['7']⟩)

/-- mkdir fails, the owner is read and judged stale. -/
def judgeStale (l : Lid) : List Event :=
  [.act l true [], .act l true [], .act l true [], .act l true []]

/-- The lock is moved away and removed, and a new one is made and held. -/
def takeOver (l : Lid) : List Event :=
  [.act l true [], .act l true [], .act l true [], .act l true [], .act l true [], .act l true []]

def doubleTakeOver : List Event :=
  [.spawn 1 ⟨['1', '1'], ['1']⟩, .spawn 2 ⟨['1', '2'], ['1']⟩] ++ judgeStale 1 ++ judgeStale 2 ++
    takeOver 1 ++ takeOver 2

theorem doubleTakeOver_breaks_lock :
    (∃ s, run step (initial deadOwner) doubleTakeOver = some s ∧
      (s.launchers 1).pc = .holding 1 ∧ (s.launchers 2).pc = .holding 2 ∧
      s.lockDir = some 2) ∧
    ¬ Always step MutualExclusion (initial deadOwner) doubleTakeOver := by
  have hrun : ∃ s, run step (initial deadOwner) doubleTakeOver = some s ∧
      (s.launchers 1).pc = .holding 1 ∧ (s.launchers 2).pc = .holding 2 ∧ s.lockDir = some 2 :=
    ⟨_, rfl, by decide, by decide, by decide⟩
  refine ⟨hrun, ?_⟩
  obtain ⟨s, hs, h1, h2, -⟩ := hrun
  intro h
  have := (h _ [] s (List.append_nil _).symm hs).exclusive 1 2 (by simp [h1, Pc.locked])
    (by simp [h2, Pc.locked])
  exact absurd this (by decide)

theorem launch_lock_exclusive_stale :
    Always step MutualExclusion (initial deadOwner)
      ([.spawn 1 ⟨['1', '1'], ['1']⟩] ++ judgeStale 1 ++ takeOver 1) :=
  launch_lock_exclusive deadOwner _ (by decide)

end Asm2Runtime.LaunchLock
