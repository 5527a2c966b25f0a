import Asm2Runtime.Transition
import Mathlib.Logic.Function.Basic

/-!
# One-time initialisation

asm2_pthread_once of pthread_bridge.c, with once_lock, once_cond and the
cancellation handler. Every access of a control word, every broadcast and every
unlock is one step; an init routine is guest code and may call
asm2_pthread_once again, so a thread has a stack of calls, innermost first.

Cancellation is deferred. It can be taken in guest code and in
pthread_cond_wait, where the cancelled thread owns once_lock again.
-/

namespace Asm2Runtime.Once

open Transition

abbrev Tid := Nat
abbrev Addr := Nat
abbrev Errno := Nat

def EINVAL : Errno := 22

/-- Where a call is. The last five are once_init_cancelled. -/
inductive Pc where
  | lock | test | waiting | woken | load
  | leave : Errno → Pc
  | claim | claimed | install
  | init
  | lockDone | storeDone | broadcastDone | unlockDone
  | lockCancelled | testCancelled | storeCancelled | broadcastCancelled | unlockCancelled
  deriving DecidableEq, Repr

/-- An activation of asm2_pthread_once. -/
structure Frame where
  guestOnce : Addr
  oldCancelState : Bool
  pc : Pc
  deriving DecidableEq, Repr

/-- What callers can see. An execution of an init routine is entered and then
either completed, when the routine returns, or abandoned, when the handler of a
cancelled thread has put the word back. A call with a null argument is refused
with the given error. -/
inductive Obs where
  | entered : Tid → Addr → Obs
  | completed : Tid → Addr → Obs
  | abandoned : Tid → Addr → Obs
  | returned : Tid → Addr → Errno → Obs
  | refused : Tid → Errno → Obs
  deriving DecidableEq, Repr

structure Process where
  words : Addr → UInt32
  onceLock : Option Tid
  «stacks» : Tid → List Frame
  cancelEnabled : Tid → Bool
  cancelled : Tid → Bool
  log : List Obs

def initial (words : Addr → UInt32) (cancelEnabled : Tid → Bool) : Process :=
  { words, onceLock := none, «stacks» := fun _ => [], cancelEnabled
    cancelled := fun _ => false, log := [] }

inductive Event where
  | call : Tid → Option Addr → Bool → Event
  | move : Tid → Event
  | wake : Tid → Event
  | initReturns : Tid → Event
  | setCancelState : Tid → Bool → Event
  | cancel : Tid → Event
  deriving DecidableEq, Repr

namespace Process

def setStack (s : Process) (t : Tid) (stack : List Frame) : Process :=
  { s with «stacks» := Function.update s.stacks t stack }

@[simp] theorem setStack_words (s : Process) (t : Tid) (stack : List Frame) :
    (s.setStack t stack).words = s.words := rfl
@[simp] theorem setStack_onceLock (s : Process) (t : Tid) (stack : List Frame) :
    (s.setStack t stack).onceLock = s.onceLock := rfl
@[simp] theorem setStack_cancelEnabled (s : Process) (t : Tid) (stack : List Frame) :
    (s.setStack t stack).cancelEnabled = s.cancelEnabled := rfl
@[simp] theorem setStack_log (s : Process) (t : Tid) (stack : List Frame) :
    (s.setStack t stack).log = s.log := rfl
@[simp] theorem setStack_self (s : Process) (t : Tid) (stack : List Frame) :
    (s.setStack t stack).stacks t = stack := by simp [setStack]
def note (s : Process) (o : Obs) : Process := { s with log := s.log ++ [o] }

def slotStore (s : Process) (guestOnce : Addr) (word : UInt32) : Process :=
  { s with words := Function.update s.words guestOnce word }

/-- Guest code is running on the thread. -/
def inGuest (s : Process) (t : Tid) : Bool :=
  match s.stacks t with
  | [] => !s.cancelled t
  | f :: _ => f.pc = .init

def awaken : List Frame → List Frame
  | [] => []
  | f :: rest => (if f.pc = .waiting then { f with pc := .woken } else f) :: rest

def broadcast (s : Process) : Process := { s with «stacks» := fun t => awaken (s.stacks t) }

/-- A cancelled thread runs the handler of its next call; every handler was
installed before the routine that the thread was cancelled in. -/
def unwind : List Frame → List Frame
  | [] => []
  | f :: rest => { f with pc := .lockCancelled } :: rest

/-- The next step of the innermost call of a thread. -/
def advance (s : Process) (t : Tid) (f : Frame) (rest : List Frame) : Option Process :=
  let goto (s : Process) (pc : Pc) : Process := s.setStack t ({ f with pc } :: rest)
  let word := s.words f.guestOnce
  match f.pc with
  | .lock | .woken =>
    if s.onceLock = none then some { goto s .test with onceLock := some t } else none
  | .test =>
    if word = 1 then some { goto s .waiting with onceLock := none } else some (goto s .load)
  | .waiting => none
  | .load =>
    if word = 2 then some (goto s (.leave 0))
    else if word ≠ 0 then some (goto s (.leave EINVAL))
    else some (goto s .claim)
  | .leave result =>
    some ({ s.setStack t rest with
      onceLock := none
      cancelEnabled := Function.update s.cancelEnabled t f.oldCancelState }.note
        (.returned t f.guestOnce result))
  | .claim => some (goto (s.slotStore f.guestOnce 1) .claimed)
  | .claimed => some { goto s .install with onceLock := none }
  | .install =>
    some ({ goto s .init with
      cancelEnabled := Function.update s.cancelEnabled t f.oldCancelState }.note
        (.entered t f.guestOnce))
  | .init => none
  | .lockDone =>
    if s.onceLock = none then some { goto s .storeDone with onceLock := some t } else none
  | .storeDone => some (goto (s.slotStore f.guestOnce 2) .broadcastDone)
  | .broadcastDone => some (goto s.broadcast .unlockDone)
  | .unlockDone =>
    some ({ s.setStack t rest with onceLock := none }.note (.returned t f.guestOnce 0))
  | .lockCancelled =>
    if s.onceLock = none then some { goto s .testCancelled with onceLock := some t } else none
  | .testCancelled =>
    if word = 1 then some (goto s .storeCancelled) else some (goto s .broadcastCancelled)
  | .storeCancelled =>
    some ((goto (s.slotStore f.guestOnce 0) .broadcastCancelled).note (.abandoned t f.guestOnce))
  | .broadcastCancelled => some (goto s.broadcast .unlockCancelled)
  | .unlockCancelled => some { s.setStack t (unwind rest) with onceLock := none }

/-- A call that sleeps, or whose routine runs, takes no step of its own. -/
theorem advance_rests {f : Frame} (h : f.pc = .waiting ∨ f.pc = .init) (s : Process) (t : Tid)
    (rest : List Frame) : s.advance t f rest = none := by
  obtain hpc | hpc := h <;> simp only [advance, hpc]

end Process

open Process in
def step (s : Process) : Event → Option Process
  | .call t guestOnce initRoutine =>
    if s.inGuest t then
      match guestOnce, initRoutine with
      | some w, true =>
        some { s.setStack t (⟨w, s.cancelEnabled t, .lock⟩ :: s.stacks t) with
          cancelEnabled := Function.update s.cancelEnabled t false }
      | _, _ => some (s.note (.refused t EINVAL))
    else none
  | .move t =>
    match s.stacks t with
    | [] => none
    | f :: rest => s.advance t f rest
  | .wake t =>
    match s.stacks t with
    | f :: rest =>
      if f.pc = .waiting then some (s.setStack t ({ f with pc := .woken } :: rest)) else none
    | [] => none
  | .initReturns t =>
    match s.stacks t with
    | f :: rest =>
      if f.pc = .init then
        some ((s.setStack t ({ f with pc := .lockDone } :: rest)).note (.completed t f.guestOnce))
      else none
    | [] => none
  | .setCancelState t enabled =>
    if s.inGuest t then
      some { s with cancelEnabled := Function.update s.cancelEnabled t enabled }
    else none
  | .cancel t =>
    if s.cancelEnabled t ∧ s.cancelled t = false then
      match s.stacks t with
      | [] => some { s with cancelled := Function.update s.cancelled t true }
      | f :: rest =>
        if f.pc = .init then
          some { s.setStack t (unwind (f :: rest)) with
            cancelled := Function.update s.cancelled t true }
        else if f.pc = .waiting ∧ s.onceLock = none then
          some { s.setStack t (unwind rest) with
            onceLock := some t, cancelled := Function.update s.cancelled t true }
        else none
    else none

/-- A thread with no call has no step of one to take. -/
theorem step_move_idle {s : Process} {t : Tid} (h : s.stacks t = []) :
    step s (.move t) = none := by
  simp only [step, h]

/-- An init routine for the word is running on the thread. -/
def Process.Inside (s : Process) (t : Tid) (w : Addr) : Prop :=
  ∃ f ∈ s.stacks t, f.guestOnce = w ∧ f.pc = .init

/-- The thread sleeps in pthread_cond_wait until the word changes. -/
def Process.Asleep (s : Process) (t : Tid) (w : Addr) : Prop :=
  ∃ f ∈ (s.stacks t).head?, f.guestOnce = w ∧ f.pc = .waiting

/-- The thread calls for the word and has yet to look at it, for the first time
or again. -/
def Process.Calling (s : Process) (t : Tid) (w : Addr) : Prop :=
  ∃ f ∈ (s.stacks t).head?, f.guestOnce = w ∧ (f.pc = .lock ∨ f.pc = .woken)

/-! ## The life of a control word -/

/-- What a control word stands for. A word that starts as 1 is `stuck`: no call
owns it and none will reset it. -/
inductive Phase where
  | fresh | running : Tid → Phase
  | done | stuck | invalid
  deriving DecidableEq, Repr

def Phase.ofWord (word : UInt32) : Phase :=
  if word = 0 then .fresh else if word = 1 then .stuck else if word = 2 then .done else .invalid

/-- The observations that the life of the word allows. -/
def Phase.next (w : Addr) (p : Phase) : Obs → Option Phase
  | .entered t v =>
    if v = w then if p = .fresh then some (.running t) else none else some p
  | .completed t v =>
    if v = w then if p = .running t then some .done else none else some p
  | .abandoned t v =>
    if v = w then if p = .running t then some .fresh else none else some p
  | .returned _ v result =>
    if v = w then
      if result = 0 ∧ p = .done ∨ result = EINVAL ∧ p = .invalid then some p else none
    else some p
  | .refused _ _ => some p

def Obs.about (w : Addr) : Obs → Bool
  | .entered _ v | .completed _ v | .abandoned _ v | .returned _ v _ => v = w
  | .refused _ _ => false

/-- The phase after the observations, none if they are out of order. -/
def phase (words : Addr → UInt32) (log : List Obs) (w : Addr) : Option Phase :=
  log.foldlM (Phase.next w) (.ofWord (words w))

end Asm2Runtime.Once
