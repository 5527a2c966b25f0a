import Asm2Runtime.LinkedChain
import Asm2Runtime.Transition
import Mathlib.Tactic.Basic
import Mathlib.Data.List.Count

/-!
# The FILE registry of the bionic bridge

Guest streams are addresses of calloc'ed wrappers, kept in hash chains under
asm2_file_mutex. Every section of the mutex is one step; pthread_cond_wait in
asm2_take_file_for_close ends one section and starts another, and since
spurious wake-ups are legal the second one may run at any time. The waiting
thread keeps its local variables `link` and `wrapper` across the wait.

Wrappers are never freed, so calloc only returns addresses not used before. The
unbounded counters stand for the 64-bit ones of the source. debugPrintf writes
to standard error and is taken to leave errno alone.
-/

namespace Asm2Runtime.FileRegistry

open LinkedChain Transition

abbrev Addr := Nat
abbrev Tid := Nat
abbrev Errno := Nat

def EBADF : Errno := 9

def fileBuckets : Nat := 1024

def fileBucket (stream : Addr) : Nat :=
  let value := stream ^^^ (stream >>> 16)
  let value := value ^^^ (value >>> 8)
  value &&& (fileBuckets - 1)

/-- A host FILE: one of the three standard streams, or the one that the n-th
successful fopen or fdopen of the process returned. -/
inductive Host where
  | stdin | stdout | stderr
  | opened : Nat → Host
  deriving DecidableEq, Repr

inductive FileState where
  | opened | closing | closed
  deriving DecidableEq, Repr

structure FileWrapper where
  flags : Nat
  descriptor : Int
  host : Option Host
  baseFlags : Nat
  activeOperations : Nat
  state : FileState
  hashNext : Option Addr
  retiredNext : Option Addr

/-- The memory and the static variables of bionic_compat.c. Addresses that hold
no wrapper yet read as `unused`; `serial` numbers the wrappers in the order of
their creation and is not a variable of the source. -/
structure Registry where
  bionicSF : Addr
  wrapper : Addr → FileWrapper
  activeFiles : Nat → Option Addr
  retiredFiles : Option Addr
  createdCount : Nat
  openCount : Nat
  closedCount : Nat
  serial : Addr → Nat

def unused : FileWrapper := ⟨0, 0, none, 0, 0, .closed, none, none⟩

namespace Registry

def next (r : Registry) (a : Addr) : Option Addr := (r.wrapper a).hashNext

def setWrapper (r : Registry) (a : Addr) (w : FileWrapper) : Registry :=
  { r with wrapper := Function.update r.wrapper a w }

/-- `*link = value` -/
def store (r : Registry) (value : Option Addr) : Link Nat Addr → Registry
  | .head b => { r with activeFiles := Function.update r.activeFiles b value }
  | .next a => r.setWrapper a { r.wrapper a with hashNext := value }

end Registry

def standardStream (r : Registry) (stream : Addr) : Option Host :=
  if stream = r.bionicSF then some .stdin
  else if stream = r.bionicSF + 84 then some .stdout
  else if stream = r.bionicSF + 168 then some .stderr
  else none

def fileModeFlags : Option (List Char) → Nat
  | none => 0
  | some mode =>
    let flags := if '+' ∈ mode then 0x0010 else if mode.head? = some 'r' then 0x0004 else 0x0008
    if 'a' ∈ mode then flags ||| 0x0100 else flags

def fileImageDescriptor (fd : Int) : Int := if -32768 ≤ fd ∧ fd ≤ 32767 then fd else -1

/-- The walk of a bucket chain; the outer none means that it is longer than the
number of wrappers, that is, that it never ends. -/
def findActiveFileLocked (r : Registry) (stream : Addr) : Option (Option Addr) :=
  find r.next (· == stream) r.createdCount (r.activeFiles (fileBucket stream))

/-- asm2_wrap_file after a successful calloc at address `a`. -/
def wrapFile (r : Registry) (host : Host) (mode : Option (List Char)) (fd : Int) (a : Addr) :
    Registry :=
  let bucket := fileBucket a
  let r := r.setWrapper a
    { flags := fileModeFlags mode, descriptor := fileImageDescriptor fd, host := some host,
      baseFlags := fileModeFlags mode, activeOperations := 0, state := .opened,
      hashNext := r.activeFiles bucket, retiredNext := none }
  { r with
    activeFiles := Function.update r.activeFiles bucket (some a)
    serial := Function.update r.serial a r.createdCount
    createdCount := r.createdCount + 1
    openCount := r.openCount + 1 }

structure StreamReference where
  host : Option Host
  wrapper : Option Addr
  deriving DecidableEq, Repr

inductive Acquire where
  | granted : StreamReference → Acquire
  | rejected : Errno → Acquire
  deriving DecidableEq, Repr

def acquireStream (r : Registry) (stream : Addr) : Option (Registry × Acquire) :=
  match standardStream r stream with
  | some standard => some (r, .granted ⟨some standard, none⟩)
  | none =>
    match findActiveFileLocked r stream with
    | none => none
    | some none => some (r, .rejected EBADF)
    | some (some a) =>
      let w := r.wrapper a
      if w.state = .opened ∧ w.host.isSome then
        some (r.setWrapper a { w with activeOperations := w.activeOperations + 1 },
          .granted ⟨w.host, some a⟩)
      else some (r, .rejected EBADF)

/-- The broadcast at the end wakes waiting closers; wake-ups are free here. -/
def releaseStream (r : Registry) (reference : StreamReference) : Registry :=
  match reference.wrapper with
  | none => r
  | some a =>
    let w := r.wrapper a
    if 0 < w.activeOperations then
      r.setWrapper a { w with activeOperations := w.activeOperations - 1 }
    else r

/-- Local variables of a closer inside pthread_cond_wait. -/
structure Waiter where
  link : Link Nat Addr
  wrapper : Addr
  deriving DecidableEq, Repr

inductive Take where
  | rejected : Errno → Take
  | waiting : Waiter → Take
  | taken : Addr → Option Host → Take
  deriving DecidableEq, Repr

/-- From the end of the wait loop to the unlock. -/
def takeFinish (r : Registry) (link : Link Nat Addr) (a : Addr) : Registry :=
  let r := r.setWrapper a { r.wrapper a with host := none, state := .closed }
  let r := r.store (r.next a) link
  let r := r.setWrapper a { r.wrapper a with hashNext := none, retiredNext := r.retiredFiles }
  { r with
    retiredFiles := some a
    openCount := if r.openCount ≠ 0 then r.openCount - 1 else r.openCount
    closedCount := r.closedCount + 1 }

/-- `while (wrapper->active_operations != 0) pthread_cond_wait(..)` and what follows. -/
def takeLoop (r : Registry) (link : Link Nat Addr) (a : Addr) : Registry × Take :=
  if (r.wrapper a).activeOperations ≠ 0 then (r, .waiting ⟨link, a⟩)
  else (takeFinish r link a, .taken a (r.wrapper a).host)

/-- asm2_take_file_for_close up to its first wait, or to its end. -/
def takeFileForClose (r : Registry) (stream : Addr) : Option (Registry × Take) :=
  match seek r.activeFiles r.next (· == stream) r.createdCount
      (Link.head (fileBucket stream)) with
  | none => none
  | some link =>
    match link.load r.activeFiles r.next with
    | none => some (r, .rejected EBADF)
    | some a =>
      if (r.wrapper a).state ≠ .opened then some (r, .rejected EBADF)
      else some (takeLoop (r.setWrapper a { r.wrapper a with state := .closing }) link a)

/-- What asm2_fclose returns on a stream that is not standard. -/
inductive Fclose where
  | eof : Errno → Fclose
  | host : Host → Fclose
  deriving DecidableEq, Repr

/-- The registry and the threads inside a call. `hosts`, `fclosed`, `created` and
`results` record the past: the FILEs that were opened, those handed to fclose,
the wrappers, and how each asm2_fclose that has left the mutex went. -/
structure System where
  registry : Registry
  operating : List (Tid × StreamReference)
  waiting : List (Tid × Waiter)
  taken : List (Tid × Addr × Host)
  hosts : List Host
  fclosed : List Host
  created : List Addr
  results : List (Addr × Fclose)

def initial (bionicSF : Addr) : System :=
  { registry :=
      { bionicSF, wrapper := fun _ => unused, activeFiles := fun _ => none, retiredFiles := none
        createdCount := 0, openCount := 0, closedCount := 0, serial := fun _ => 0 }
    operating := [], waiting := [], taken := [], hosts := [], fclosed := [], created := []
    results := [] }

inductive Event where
  /-- asm2_wrap_file on the result of fopen or fdopen, with the result of calloc -/
  | wrapFile (t : Tid) (host : Option Host) (mode : Option (List Char)) (fd : Int)
      (calloc : Option Addr)
  /-- asm2_acquire_stream of an operation, and its asm2_release_stream -/
  | acquire (t : Tid) (stream : Addr)
  | release (t : Tid) (reference : StreamReference)
  /-- asm2_fclose up to the wait, the end of a wait, and the final fclose -/
  | fclose (t : Tid) (stream : Addr)
  | wake (t : Tid) (waiter : Waiter)
  | fcloseHost (t : Tid) (a : Addr) (host : Host)
  deriving DecidableEq, Repr

/-- The thread is not inside a call. -/
def System.Idle (s : System) (t : Tid) : Prop :=
  t ∉ s.operating.map Prod.fst ∧ t ∉ s.waiting.map Prod.fst ∧ t ∉ s.taken.map Prod.fst

instance (s : System) (t : Tid) : Decidable (s.Idle t) :=
  inferInstanceAs (Decidable (_ ∧ _ ∧ _))

/-- calloc returns an address that no object occupies. -/
def System.Fresh (s : System) (a : Addr) : Prop :=
  a ≠ 0 ∧ a ∉ s.created ∧ standardStream s.registry a = none

instance (s : System) (a : Addr) : Decidable (s.Fresh a) :=
  inferInstanceAs (Decidable (_ ∧ _ ∧ _))

/-- Leave the mutex with the outcome of asm2_take_file_for_close. -/
def System.afterTake (s : System) (t : Tid) (stream : Addr) (r : Registry) : Take → System
  | .rejected errno => { s with registry := r, results := (stream, .eof errno) :: s.results }
  | .waiting w => { s with registry := r, waiting := (t, w) :: s.waiting }
  | .taken _ none => { s with registry := r, results := (stream, .eof EBADF) :: s.results }
  | .taken a (some h) =>
    { s with registry := r, taken := (t, a, h) :: s.taken,
             results := (stream, .host h) :: s.results }

def step (s : System) : Event → Option System
  | .wrapFile t none _ _ _ => if s.Idle t then some s else none
  | .wrapFile t (some h) _ _ none =>
    if s.Idle t ∧ h ∉ s.hosts then
      some { s with hosts := h :: s.hosts, fclosed := h :: s.fclosed }
    else none
  | .wrapFile t (some h) mode fd (some a) =>
    if s.Idle t ∧ h ∉ s.hosts ∧ s.Fresh a then
      some { s with
        registry := wrapFile s.registry h mode fd a
        hosts := h :: s.hosts, created := a :: s.created }
    else none
  | .acquire t stream =>
    if s.Idle t then
      match acquireStream s.registry stream with
      | none => none
      | some (r, .rejected _) => some { s with registry := r }
      | some (r, .granted reference) =>
        some { s with registry := r, operating := (t, reference) :: s.operating }
    else none
  | .release t reference =>
    if (t, reference) ∈ s.operating then
      some { s with
        registry := releaseStream s.registry reference
        operating := s.operating.erase (t, reference) }
    else none
  | .fclose t stream =>
    if s.Idle t then
      match standardStream s.registry stream with
      | some _ => some s
      | none =>
        (takeFileForClose s.registry stream).map fun (r, take) => s.afterTake t stream r take
    else none
  | .wake t w =>
    if (t, w) ∈ s.waiting then
      let (r, take) := takeLoop s.registry w.link w.wrapper
      some (System.afterTake { s with waiting := s.waiting.erase (t, w) } t w.wrapper r take)
    else none
  | .fcloseHost t a h =>
    if (t, a, h) ∈ s.taken then
      some { s with taken := s.taken.erase (t, a, h), fclosed := h :: s.fclosed }
    else none

/-! ## Fields after an update -/

namespace Registry

@[simp] theorem wrapper_setWrapper (r : Registry) (a : Addr) (w : FileWrapper) :
    (r.setWrapper a w).wrapper = Function.update r.wrapper a w := rfl

@[simp] theorem activeFiles_setWrapper (r : Registry) (a : Addr) (w : FileWrapper) :
    (r.setWrapper a w).activeFiles = r.activeFiles := rfl

theorem next_setWrapper (r : Registry) (a : Addr) (w : FileWrapper) :
    (r.setWrapper a w).next = Function.update r.next a w.hashNext := by
  funext x
  by_cases h : x = a
  · subst x; simp [next]
  · simp [next, h]

/-- Fields other than the link may change freely under a chain. -/
theorem next_setWrapper_same {r : Registry} {a : Addr} {w : FileWrapper}
    (h : w.hashNext = r.next a) : (r.setWrapper a w).next = r.next := by
  rw [next_setWrapper, h, Function.update_eq_self]

end Registry

theorem next_wrapFile (r : Registry) (h : Host) (mode : Option (List Char)) (fd : Int) (a : Addr) :
    (wrapFile r h mode fd a).next =
      Function.update r.next a (r.activeFiles (fileBucket a)) :=
  Registry.next_setWrapper r a _

theorem activeFiles_wrapFile (r : Registry) (h : Host) (mode : Option (List Char)) (fd : Int)
    (a : Addr) : (wrapFile r h mode fd a).activeFiles =
      Function.update r.activeFiles (fileBucket a) (some a) := rfl

theorem next_takeFinish_head (r : Registry) (b : Nat) (a : Addr) :
    (takeFinish r (.head b) a).next = Function.update r.next a none := by
  funext x
  by_cases h : x = a
  · subst x; simp [takeFinish, Registry.next, Registry.store]
  · simp [takeFinish, Registry.next, Registry.store, h]

theorem next_takeFinish_next (r : Registry) (p a : Addr) :
    (takeFinish r (.next p) a).next =
      Function.update (Function.update r.next p (r.next a)) a none := by
  funext x
  by_cases h : x = a
  · subst x; simp [takeFinish, Registry.next, Registry.store]
  · by_cases hp : x = p
    · subst x; simp [takeFinish, Registry.next, Registry.store, h]
    · simp [takeFinish, Registry.next, Registry.store, h, hp]

theorem activeFiles_takeFinish_head (r : Registry) (b : Nat) (a : Addr) :
    (takeFinish r (.head b) a).activeFiles = Function.update r.activeFiles b (r.next a) := by
  simp [takeFinish, Registry.next, Registry.store]

theorem activeFiles_takeFinish_next (r : Registry) (p a : Addr) :
    (takeFinish r (.next p) a).activeFiles = r.activeFiles := rfl

/-- The close changes no field but the link of another wrapper. -/
theorem takeFinish_wrapper (r : Registry) (link : Link Nat Addr) (a x : Addr) :
    ((takeFinish r link a).wrapper x).state = (if x = a then .closed else (r.wrapper x).state) ∧
    ((takeFinish r link a).wrapper x).host = (if x = a then none else (r.wrapper x).host) ∧
    ((takeFinish r link a).wrapper x).activeOperations = (r.wrapper x).activeOperations := by
  cases link with
  | head b => by_cases h : x = a <;> simp [takeFinish, Registry.store, h]
  | next p =>
    by_cases h : x = a <;> by_cases hp : x = p <;> by_cases hap : a = p <;>
      simp_all [takeFinish, Registry.store]

/-! ## What each section can do -/

theorem acquireStream_cases {r r' : Registry} {stream : Addr} {out : Acquire}
    (h : acquireStream r stream = some (r', out)) :
    (∃ standard, standardStream r stream = some standard ∧ r' = r ∧
      out = .granted ⟨some standard, none⟩) ∨
    (r' = r ∧ out = .rejected EBADF) ∨
    ((r.wrapper stream).state = .opened ∧
      r' = r.setWrapper stream { r.wrapper stream with
        activeOperations := (r.wrapper stream).activeOperations + 1 } ∧
      out = .granted ⟨(r.wrapper stream).host, some stream⟩) := by
  unfold acquireStream at h
  split at h
  · rename_i standard hstd
    simp only [Option.some.injEq, Prod.mk.injEq] at h
    exact .inl ⟨standard, hstd, h.1.symm, h.2.symm⟩
  · split at h
    · simp at h
    · simp only [Option.some.injEq, Prod.mk.injEq] at h
      exact .inr (.inl ⟨h.1.symm, h.2.symm⟩)
    · rename_i a hfind
      have ha : a = stream := by simpa using find_spec hfind
      subst a
      dsimp only at h
      split at h
      · rename_i hopen
        simp only [Option.some.injEq, Prod.mk.injEq] at h
        exact .inr (.inr ⟨hopen.1, h.1.symm, h.2.symm⟩)
      · simp only [Option.some.injEq, Prod.mk.injEq] at h
        exact .inr (.inl ⟨h.1.symm, h.2.symm⟩)

/-- The two ways through the first section of asm2_take_file_for_close. -/
theorem takeFileForClose_cases {r r' : Registry} {stream : Addr} {take : Take}
    (h : takeFileForClose r stream = some (r', take)) :
    (r' = r ∧ take = .rejected EBADF) ∨
    ∃ link, link.load r.activeFiles r.next = some stream ∧
      (r.wrapper stream).state = .opened ∧
      takeLoop (r.setWrapper stream { r.wrapper stream with state := .closing }) link stream =
        (r', take) := by
  unfold takeFileForClose at h
  split at h
  · simp at h
  · rename_i link hseek
    split at h
    · rename_i hload
      simp only [Option.some.injEq, Prod.mk.injEq] at h
      exact .inl ⟨h.1.symm, h.2.symm⟩
    · rename_i a hload
      have ha : a = stream := by simpa using seek_spec hseek hload
      subst a
      split at h
      · simp only [Option.some.injEq, Prod.mk.injEq] at h
        exact .inl ⟨h.1.symm, h.2.symm⟩
      · rename_i hopen
        exact .inr ⟨link, hload, by simpa using hopen, by simpa using h⟩

/-- The two ways out of the wait loop. -/
theorem takeLoop_cases {r r' : Registry} {link : Link Nat Addr} {a : Addr} {take : Take}
    (h : takeLoop r link a = (r', take)) :
    ((r.wrapper a).activeOperations ≠ 0 ∧ r' = r ∧ take = .waiting ⟨link, a⟩) ∨
    ((r.wrapper a).activeOperations = 0 ∧ r' = takeFinish r link a ∧
      take = .taken a (r.wrapper a).host) := by
  unfold takeLoop at h
  split at h
  · rename_i hactive
    simp only [Prod.mk.injEq] at h
    exact .inl ⟨hactive, h.1.symm, h.2.symm⟩
  · rename_i hactive
    simp only [Prod.mk.injEq] at h
    exact .inr ⟨by simpa using hactive, h.1.symm, h.2.symm⟩

/-- What one event can do to the system, with the facts that hold at that moment. -/
inductive Effect (s : System) : Event → System → Prop
  | notOpened {t mode fd calloc} : Effect s (.wrapFile t none mode fd calloc) s
  | notWrapped {t h mode fd} : h ∉ s.hosts →
      Effect s (.wrapFile t (some h) mode fd none)
        { s with hosts := h :: s.hosts, fclosed := h :: s.fclosed }
  | wrapped {t h mode fd a} : h ∉ s.hosts → s.Fresh a →
      Effect s (.wrapFile t (some h) mode fd (some a))
        { s with
          registry := wrapFile s.registry h mode fd a
          hosts := h :: s.hosts, created := a :: s.created }
  | standard {t stream host} :
      Effect s (.acquire t stream)
        { s with operating := (t, ⟨some host, none⟩) :: s.operating }
  | refused {t stream} : Effect s (.acquire t stream) s
  | acquired {t a} : (s.registry.wrapper a).state = .opened →
      Effect s (.acquire t a)
        { s with
          registry := s.registry.setWrapper a { s.registry.wrapper a with
            activeOperations := (s.registry.wrapper a).activeOperations + 1 }
          operating := (t, ⟨(s.registry.wrapper a).host, some a⟩) :: s.operating }
  | releasedIdle {t reference} : (t, reference) ∈ s.operating →
      (∀ a, reference.wrapper = some a → (s.registry.wrapper a).activeOperations = 0) →
      Effect s (.release t reference)
        { s with operating := s.operating.erase (t, reference) }
  | released {t reference a} : (t, reference) ∈ s.operating → reference.wrapper = some a →
      0 < (s.registry.wrapper a).activeOperations →
      Effect s (.release t reference)
        { s with
          registry := s.registry.setWrapper a { s.registry.wrapper a with
            activeOperations := (s.registry.wrapper a).activeOperations - 1 }
          operating := s.operating.erase (t, reference) }
  | closeStandard {t stream} : Effect s (.fclose t stream) s
  | closeRefused {t stream} :
      Effect s (.fclose t stream) { s with results := (stream, .eof EBADF) :: s.results }
  | closing {t a link r take} : link.load s.registry.activeFiles s.registry.next = some a →
      (s.registry.wrapper a).state = .opened →
      takeLoop (s.registry.setWrapper a { s.registry.wrapper a with state := .closing }) link a =
        (r, take) →
      Effect s (.fclose t a) (s.afterTake t a r take)
  | woken {t w r take} : (t, w) ∈ s.waiting →
      takeLoop s.registry w.link w.wrapper = (r, take) →
      Effect s (.wake t w)
        (System.afterTake { s with waiting := s.waiting.erase (t, w) } t w.wrapper r take)
  | fclosed {t a h} : (t, a, h) ∈ s.taken →
      Effect s (.fcloseHost t a h)
        { s with taken := s.taken.erase (t, a, h), fclosed := h :: s.fclosed }

theorem step_effect {s s' : System} {e : Event} (hstep : step s e = some s') : Effect s e s' := by
  cases e with
  | wrapFile t host mode fd calloc =>
    cases host with
    | none =>
      simp only [step, Option.ite_none_right_eq_some, Option.some.injEq] at hstep
      obtain ⟨-, rfl⟩ := hstep
      exact .notOpened
    | some host =>
      cases calloc with
      | none =>
        simp only [step, Option.ite_none_right_eq_some, Option.some.injEq] at hstep
        obtain ⟨⟨-, hh⟩, rfl⟩ := hstep
        exact .notWrapped hh
      | some a =>
        simp only [step, Option.ite_none_right_eq_some, Option.some.injEq] at hstep
        obtain ⟨⟨-, hh, ha⟩, rfl⟩ := hstep
        exact .wrapped hh ha
  | acquire t stream =>
    simp only [step, Option.ite_none_right_eq_some] at hstep
    replace hstep := hstep.2
    split at hstep
    · simp at hstep
    · rename_i r errno hacq
      obtain rfl := Option.some.inj hstep
      rcases acquireStream_cases hacq with ⟨_, _, _, hout⟩ | ⟨rfl, _⟩ | ⟨_, _, hout⟩
      · cases hout
      · exact .refused
      · cases hout
    · rename_i r reference hacq
      obtain rfl := Option.some.inj hstep
      rcases acquireStream_cases hacq with ⟨host, _, rfl, hout⟩ | ⟨_, hout⟩ | ⟨hopen, rfl, hout⟩
      · obtain rfl := Acquire.granted.inj hout
        exact .standard
      · cases hout
      · obtain rfl := Acquire.granted.inj hout
        exact .acquired hopen
  | release t reference =>
    simp only [step, Option.ite_none_right_eq_some, Option.some.injEq] at hstep
    obtain ⟨hmem, rfl⟩ := hstep
    cases hw : reference.wrapper with
    | none =>
      simp only [releaseStream, hw]
      exact .releasedIdle hmem (by simp [hw])
    | some a =>
      by_cases hpos : 0 < (s.registry.wrapper a).activeOperations
      · simp only [releaseStream, hw, hpos, if_true]
        exact .released hmem hw hpos
      · simp only [releaseStream, hw, hpos, if_false]
        refine .releasedIdle hmem ?_
        intro b hb
        obtain rfl : a = b := by simpa [hw] using hb
        omega
  | fclose t stream =>
    simp only [step, Option.ite_none_right_eq_some] at hstep
    replace hstep := hstep.2
    split at hstep
    · obtain rfl := Option.some.inj hstep
      exact .closeStandard
    · obtain ⟨⟨r, take⟩, htake, rfl⟩ := Option.map_eq_some_iff.mp hstep
      rcases takeFileForClose_cases htake with ⟨rfl, rfl⟩ | ⟨link, hload, hopen, hloop⟩
      · exact .closeRefused
      · exact .closing hload hopen hloop
  | wake t w =>
    simp only [step, Option.ite_none_right_eq_some, Option.some.injEq] at hstep
    obtain ⟨hmem, rfl⟩ := hstep
    exact .woken hmem rfl
  | fcloseHost t a h =>
    simp only [step, Option.ite_none_right_eq_some, Option.some.injEq] at hstep
    obtain ⟨hmem, rfl⟩ := hstep
    exact .fclosed hmem

end Asm2Runtime.FileRegistry
