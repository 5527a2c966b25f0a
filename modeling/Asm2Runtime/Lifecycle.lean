import Asm2Runtime.Transition
import Mathlib.Logic.Function.Basic
import Mathlib.Data.List.Count

/-!
# Terminal lifecycle of the process

Guest code may call GL2JNIActivity.sExitGame and RestartGame from any thread and
from inside any guest function, also from those that main calls while it shuts
down. Every atomic access of android_callbacks.c is one step. main runs the
frame loop and the shutdown of main.c; it takes one snapshot of the lifecycle
request and decides from it, several guest calls later, whether to call
GameOptions.onExit itself and which exit code to return.

Only processes that run continuously are modelled, with the guest functions
that main requires for that; GameOptions.onExit alone may be missing.
-/

namespace Asm2Runtime.Lifecycle

open Transition

abbrev Tid := Nat

def mainThread : Tid := 0

def ASM2_ANDROID_RESTART_EXIT_CODE : Nat := 75

inductive LifecycleRequest where
  | none | exit | restart
  deriving DecidableEq, Repr

inductive GameOptionsExitPhase where
  | idle | running | done
  deriving DecidableEq, Repr

/-- Guest functions called by main or by dispatch_game_options_exit_once;
`callback` stands for those of the boot and of the input code. -/
inductive Guest where
  | callback | nativeStep | nativeOnPause | gameOptionsOnPause | gameOptionsOnExit
  | nativeStateChanged
  deriving DecidableEq, Repr

/-- An activation on the stack of a thread. A JNI callback is at the named
atomic access, at the call of game_options_exit, or at the store of DONE. -/
inductive Frame where
  | guest : Guest → Frame
  | sExitGame | dispatchGameOptionsExitOnce | callGameOptionsExit | storeDone
  | restartGame
  deriving DecidableEq, Repr

/-- Where main is; it waits for its own guest call to return before it moves. -/
inductive MainPc where
  | boot | firstStep | inputInit
  | testSignal | testRequest | inputPump | nativeStep
  | snapshot | onPause | optionsOnPause | inputShutdown | optionsOnExit | stateChanged
  | videoShutdown | finished
  deriving DecidableEq, Repr

/-- `gameOptionsExit` says whether the guest has GameOptions.onExit. `snapshot`
is the local variable lifecycle_request of main. The last three fields record
the entries of onExit, from sExitGame and from main, and the accepted requests,
latest first. -/
structure Process where
  gameOptionsExit : Bool
  lifecycleRequest : LifecycleRequest
  gameOptionsExitPhase : GameOptionsExitPhase
  exitSignalRequested : Bool
  main : MainPc
  snapshot : LifecycleRequest
  processExitCode : Nat
  «stacks» : Tid → List Frame
  dispatched : Nat
  shutdownExits : Nat
  accepted : List LifecycleRequest

def initial (gameOptionsExit : Bool) : Process :=
  { gameOptionsExit, lifecycleRequest := .none, gameOptionsExitPhase := .idle
    exitSignalRequested := false, main := .boot, snapshot := .none, processExitCode := 0
    «stacks» := fun _ => [], dispatched := 0, shutdownExits := 0, accepted := [] }

namespace Process

def setStack (p : Process) (t : Tid) (stack : List Frame) : Process :=
  { p with «stacks» := Function.update p.stacks t stack }

def call (p : Process) (t : Tid) (f : Frame) : Process := p.setStack t (f :: p.stacks t)

/-- The compare-exchange of the request; the second component says that it succeeded. -/
def lifecycleRequestOnce (p : Process) (request : LifecycleRequest) : Process × Bool :=
  if p.lifecycleRequest = .none then
    ({ p with lifecycleRequest := request, accepted := request :: p.accepted }, true)
  else (p, false)

/-- Guest code is running on the thread. All of main's own calls have returned
when the stack of its thread is empty. -/
def inGuest (p : Process) (t : Tid) : Bool :=
  match p.stacks t with
  | [] => t ≠ mainThread
  | .guest _ :: _ => true
  | _ => false

/-- The next access of the callback on top of a stack. -/
def advance (p : Process) (t : Tid) (rest : List Frame) : Frame → Option Process
  | .guest _ => none
  | .sExitGame =>
    match p.lifecycleRequestOnce .exit with
    | (p, true) => some (p.setStack t (.dispatchGameOptionsExitOnce :: rest))
    | (p, false) => some (p.setStack t rest)
  | .dispatchGameOptionsExitOnce =>
    if p.gameOptionsExitPhase = .idle then
      some ({ p with gameOptionsExitPhase := .running }.setStack t (.callGameOptionsExit :: rest))
    else some (p.setStack t rest)
  | .callGameOptionsExit =>
    if p.gameOptionsExit then
      some ({ p with dispatched := p.dispatched + 1 }.setStack t
        (.guest .gameOptionsOnExit :: .storeDone :: rest))
    else some (p.setStack t (.storeDone :: rest))
  | .storeDone => some ({ p with gameOptionsExitPhase := .done }.setStack t rest)
  | .restartGame => some ((p.lifecycleRequestOnce .restart).1.setStack t rest)

def callFromMain (p : Process) (g : Guest) : Process := p.call mainThread (.guest g)

/-- One step of main; `pumped` is what asm2_input_pump returns. -/
def mainStep (p : Process) (pumped : Bool) : Process :=
  match p.main with
  | .boot => { p with main := .firstStep }
  | .firstStep => { p with main := .inputInit }.callFromMain .nativeStep
  | .inputInit => { p with main := .testSignal }
  | .testSignal =>
    if p.exitSignalRequested then { p with main := .snapshot } else { p with main := .testRequest }
  | .testRequest =>
    if p.lifecycleRequest ≠ .none then { p with main := .snapshot }
    else { p with main := .inputPump }
  | .inputPump => if pumped then { p with main := .nativeStep } else { p with main := .snapshot }
  | .nativeStep => { p with main := .testSignal }.callFromMain .nativeStep
  | .snapshot => { p with main := .onPause, snapshot := p.lifecycleRequest }
  | .onPause => { p with main := .optionsOnPause }.callFromMain .nativeOnPause
  | .optionsOnPause => { p with main := .inputShutdown }.callFromMain .gameOptionsOnPause
  | .inputShutdown => { p with main := .optionsOnExit }
  | .optionsOnExit =>
    if p.snapshot = .none ∧ p.gameOptionsExit then
      { p with main := .stateChanged, shutdownExits := p.shutdownExits + 1 }.callFromMain
        .gameOptionsOnExit
    else if p.snapshot = .restart then
      { p with main := .stateChanged, processExitCode := ASM2_ANDROID_RESTART_EXIT_CODE }
    else { p with main := .stateChanged }
  | .stateChanged =>
    if p.snapshot = .none then
      { p with main := .videoShutdown }.callFromMain .nativeStateChanged
    else { p with main := .videoShutdown }
  | .videoShutdown => { p with main := .finished }
  | .finished => p

/-- Where main calls code that may call guest functions any number of times. -/
def maycall : MainPc → Bool
  | .boot | .inputInit | .inputPump | .inputShutdown => true
  | _ => false

end Process

inductive Method where
  | sExitGame | restartGame
  deriving DecidableEq, Repr

def Method.frame : Method → Frame
  | .sExitGame => .sExitGame
  | .restartGame => .restartGame

inductive Event where
  | signal
  | enter (t : Tid) (method : Method)
  | advance (t : Tid)
  | leave (t : Tid)
  | mainCallback
  | main (pumped : Bool)
  deriving DecidableEq, Repr

/-- No thread moves after main has returned. -/
def step (p : Process) (e : Event) : Option Process :=
  if p.main = .finished then none
  else match e with
  | .signal => some { p with exitSignalRequested := true }
  | .enter t method => if p.inGuest t then some (p.call t method.frame) else none
  | .advance t =>
    match p.stacks t with
    | [] => none
    | f :: rest => p.advance t rest f
  | .leave t =>
    match p.stacks t with
    | .guest _ :: rest => some (p.setStack t rest)
    | _ => none
  | .mainCallback =>
    if p.stacks mainThread = [] ∧ Process.maycall p.main then some (p.callFromMain .callback)
    else none
  | .main pumped => if p.stacks mainThread = [] then some (p.mainStep pumped) else none

/-! ## The two once-mechanisms -/

/-- main has read the lifecycle request. -/
def MainPc.decided : MainPc → Bool
  | .onPause | .optionsOnPause | .inputShutdown | .optionsOnExit | .stateChanged | .videoShutdown
  | .finished => true
  | _ => false

/-- main has passed its own call of onExit. -/
def MainPc.exited : MainPc → Bool
  | .stateChanged | .videoShutdown | .finished => true
  | _ => false

/-- Frames that only an accepted exit request puts on a stack. -/
def Frame.exiting : Frame → Bool
  | .dispatchGameOptionsExitOnce | .callGameOptionsExit | .storeDone => true
  | _ => false

/-- How many calls of onExit the exit phase has admitted. -/
def GameOptionsExitPhase.admitted : GameOptionsExitPhase → Nat
  | .idle => 0
  | .running | .done => 1

theorem admitted_le_one (phase : GameOptionsExitPhase) : phase.admitted ≤ 1 := by
  cases phase <;> decide

/-- What holds in every run, late requests or not. The exit phase admits one
thread `caller` to the call of onExit, and main acts on its snapshot. -/
structure Consistent (p : Process) : Prop where
  frames : ∀ t, ∀ f ∈ p.stacks t, f.exiting = true → p.lifecycleRequest = .exit
  phase : p.gameOptionsExitPhase ≠ .idle → p.lifecycleRequest = .exit
  caller : ∃ o, (∀ t, t ≠ o → .callGameOptionsExit ∉ p.stacks t) ∧
    (p.stacks o).count .callGameOptionsExit + p.dispatched ≤ p.gameOptionsExitPhase.admitted
  missing : p.gameOptionsExit = false → p.dispatched = 0
  accepted : p.accepted = if p.lifecycleRequest = .none then [] else [p.lifecycleRequest]
  shutdownExits : p.shutdownExits =
    if p.main.exited ∧ p.snapshot = .none ∧ p.gameOptionsExit then 1 else 0
  exitCode : p.processExitCode =
    if p.main.exited ∧ p.snapshot = .restart then ASM2_ANDROID_RESTART_EXIT_CODE else 0

theorem initial_consistent (available : Bool) : Consistent (initial available) := by
  refine ⟨?_, ?_, ⟨0, ?_⟩, ?_, ?_, ?_, ?_⟩ <;> simp [initial, MainPc.exited]

/-- A new stack without new exiting frames. -/
theorem Consistent.setStack {p : Process} (h : Consistent p) (t : Tid) {stack : List Frame}
    (hexit : ∀ f ∈ stack, f.exiting = true → p.lifecycleRequest = .exit)
    (hcall : stack.count .callGameOptionsExit ≤ (p.stacks t).count .callGameOptionsExit) :
    Consistent (p.setStack t stack) := by
  refine ⟨?_, h.phase, ?_, h.missing, h.accepted, h.shutdownExits, h.exitCode⟩
  · intro u f hf he
    by_cases hu : u = t
    · subst u
      exact hexit f (by simpa [Process.setStack] using hf) he
    · exact h.frames u f (by simpa [Process.setStack, hu] using hf) he
  · obtain ⟨o, hother, hbudget⟩ := h.caller
    refine ⟨o, ?_, ?_⟩
    · intro u hu hm
      by_cases hut : u = t
      · subst u
        have hold := List.count_eq_zero.mpr (hother t hu)
        have hnew : Frame.callGameOptionsExit ∈ stack := by simpa [Process.setStack] using hm
        have := List.count_pos_iff.mpr hnew
        omega
      · exact hother u hu (by simpa [Process.setStack, hut] using hm)
    · by_cases hot : o = t
      · subst o
        refine Nat.le_trans ?_ hbudget
        simp only [Process.setStack, Function.update_self]
        omega
      · simpa [Process.setStack, hot] using hbudget

theorem Consistent.pop {p : Process} (h : Consistent p) {t : Tid} {f : Frame} {rest : List Frame}
    (hstack : p.stacks t = f :: rest) : Consistent (p.setStack t rest) := by
  apply h.setStack t
  · intro g hg
    exact h.frames t g (by simp [hstack, hg])
  · rw [hstack]
    exact List.count_le_count_cons

theorem Consistent.call {p : Process} (h : Consistent p) (t : Tid) {f : Frame}
    (hf : f.exiting = false) : Consistent (p.call t f) := by
  apply h.setStack t
  · intro g hg he
    rcases List.mem_cons.mp hg with rfl | hg
    · simp [hf] at he
    · exact h.frames t g hg he
  · have hne : f ≠ .callGameOptionsExit := by rintro rfl; simp [Frame.exiting] at hf
    exact Nat.le_of_eq (List.count_cons_of_ne hne)

/-- The first request is recorded; nothing waits for the exit phase before. -/
theorem Consistent.accept {p : Process} (h : Consistent p) (hnone : p.lifecycleRequest = .none)
    {request : LifecycleRequest} (hrequest : request ≠ .none) :
    Consistent { p with lifecycleRequest := request, accepted := request :: p.accepted } := by
  refine ⟨?_, ?_, h.caller, h.missing, ?_, h.shutdownExits, h.exitCode⟩
  · intro t f hf he
    exact absurd (h.frames t f hf he) (by simp [hnone])
  · intro hphase
    exact absurd (h.phase hphase) (by simp [hnone])
  · simp [h.accepted, hnone, hrequest]

theorem Consistent.request {p : Process} (h : Consistent p) {request : LifecycleRequest}
    (hrequest : request ≠ .none) : Consistent (p.lifecycleRequestOnce request).1 := by
  unfold Process.lifecycleRequestOnce
  by_cases hnone : p.lifecycleRequest = .none
  · rw [if_pos hnone]
    exact h.accept hnone hrequest
  · rw [if_neg hnone]
    exact h

theorem stacks_lifecycleRequestOnce (p : Process) (request : LifecycleRequest) :
    (p.lifecycleRequestOnce request).1.stacks = p.stacks := by
  unfold Process.lifecycleRequestOnce
  by_cases hnone : p.lifecycleRequest = .none <;> simp [hnone]

theorem advance_consistent {p p' : Process} (h : Consistent p) {t : Tid} {f : Frame}
    {rest : List Frame} (hstack : p.stacks t = f :: rest)
    (hstep : p.advance t rest f = some p') : Consistent p' := by
  have hmem : f ∈ p.stacks t := by simp [hstack]
  have hrest : ∀ g ∈ rest, g.exiting = true → p.lifecycleRequest = .exit := by
    intro g hg
    exact h.frames t g (by simp [hstack, hg])
  cases f with
  | guest g => simp [Process.advance] at hstep
  | sExitGame =>
    by_cases hnone : p.lifecycleRequest = .none
    · simp only [Process.advance, Process.lifecycleRequestOnce, hnone, if_true,
        Option.some.injEq] at hstep
      subst p'
      apply (h.accept hnone (by simp)).setStack t
      · simp
      · simp [hstack]
    · simp only [Process.advance, Process.lifecycleRequestOnce, hnone, if_false,
        Option.some.injEq] at hstep
      subst p'
      exact h.pop hstack
  | restartGame =>
    simp only [Process.advance, Option.some.injEq] at hstep
    subst p'
    apply (h.request (by simp)).pop
    rw [stacks_lifecycleRequestOnce, hstack]
  | dispatchGameOptionsExitOnce =>
    have hexit := h.frames t _ hmem rfl
    by_cases hidle : p.gameOptionsExitPhase = .idle
    · simp only [Process.advance, hidle, if_true, Option.some.injEq] at hstep
      subst p'
      obtain ⟨o, hother, hbudget⟩ := h.caller
      simp only [hidle, GameOptionsExitPhase.admitted] at hbudget
      have hnobody : ∀ u, (p.stacks u).count .callGameOptionsExit = 0 := by
        intro u
        by_cases hu : u = o
        · subst u; omega
        · exact List.count_eq_zero.mpr (hother u hu)
      refine ⟨?_, fun _ => hexit, ⟨t, ?_, ?_⟩, h.missing, h.accepted, h.shutdownExits, h.exitCode⟩
      · intro u g hg he
        exact hexit
      · intro u hu
        simpa [Process.setStack, hu] using List.count_eq_zero.mp (hnobody u)
      · have ht := hnobody t
        rw [hstack, List.count_cons_of_ne (by simp)] at ht
        simp only [Process.setStack, Function.update_self, List.count_cons_self, ht]
        simp only [GameOptionsExitPhase.admitted]
        omega
    · simp only [Process.advance, hidle, if_false, Option.some.injEq] at hstep
      subst p'
      exact h.pop hstack
  | callGameOptionsExit =>
    have hexit := h.frames t _ hmem rfl
    cases havail : p.gameOptionsExit with
    | true =>
      rw [Process.advance, if_pos havail, Option.some.injEq] at hstep
      subst p'
      obtain ⟨o, hother, hbudget⟩ := h.caller
      have hot : t = o := by
        by_contra hne
        exact hother t hne hmem
      subst o
      rw [hstack, List.count_cons_self] at hbudget
      refine ⟨?_, h.phase, ⟨t, ?_, ?_⟩, ?_, h.accepted, h.shutdownExits, h.exitCode⟩
      · intro u g hg he
        exact hexit
      · intro u hu
        simpa [Process.setStack, hu] using hother u hu
      · refine Nat.le_trans ?_ hbudget
        simp only [Process.setStack, Function.update_self]
        rw [List.count_cons_of_ne (by simp), List.count_cons_of_ne (by simp)]
        omega
      · simp [Process.setStack, havail]
    | false =>
      simp only [Process.advance, havail, Bool.false_eq_true, if_false, Option.some.injEq] at hstep
      subst p'
      apply h.setStack t
      · intro g _ _
        exact hexit
      · rw [hstack, List.count_cons_of_ne (by simp)]
        exact List.count_le_count_cons
  | storeDone =>
    have hexit := h.frames t _ hmem rfl
    simp only [Process.advance, Option.some.injEq] at hstep
    subst p'
    obtain ⟨o, hother, hbudget⟩ := h.caller
    have hdone : Consistent { p with gameOptionsExitPhase := .done } := by
      refine ⟨h.frames, fun _ => hexit, ⟨o, hother, ?_⟩, h.missing, h.accepted, h.shutdownExits,
        h.exitCode⟩
      exact Nat.le_trans hbudget (admitted_le_one _)
    exact hdone.pop hstack

/-- main moves without passing its own call of onExit. -/
theorem Consistent.goto {p : Process} (h : Consistent p) {pc : MainPc}
    (hexited : pc.exited = p.main.exited) : Consistent { p with main := pc } := by
  refine ⟨h.frames, h.phase, h.caller, h.missing, h.accepted, ?_, ?_⟩
  · dsimp only
    rw [hexited]
    exact h.shutdownExits
  · dsimp only
    rw [hexited]
    exact h.exitCode

/-- main decides from its snapshot whether to call onExit and which code to return. -/
theorem optionsOnExit_consistent {p : Process} (h : Consistent p) (hpc : p.main = .optionsOnExit)
    (pumped : Bool) : Consistent (p.mainStep pumped) := by
  have hexits : p.shutdownExits = 0 := by simpa [hpc, MainPc.exited] using h.shutdownExits
  have hcode : p.processExitCode = 0 := by simpa [hpc, MainPc.exited] using h.exitCode
  rw [Process.mainStep, hpc]
  dsimp only
  by_cases hcall : p.snapshot = .none ∧ p.gameOptionsExit
  · rw [if_pos hcall]
    have hmoved : Consistent
        { p with main := .stateChanged, shutdownExits := p.shutdownExits + 1 } := by
      refine ⟨h.frames, h.phase, h.caller, h.missing, h.accepted, ?_, ?_⟩
      · simp [hexits, MainPc.exited, hcall]
      · simp [hcode, hcall]
    exact hmoved.call _ rfl
  · rw [if_neg hcall]
    by_cases hrestart : p.snapshot = .restart
    · rw [if_pos hrestart]
      refine ⟨h.frames, h.phase, h.caller, h.missing, h.accepted, ?_, ?_⟩
      · simp [hexits, hrestart]
      · simp [hrestart, MainPc.exited]
    · rw [if_neg hrestart]
      refine ⟨h.frames, h.phase, h.caller, h.missing, h.accepted, ?_, ?_⟩
      · simp [hexits, hcall]
      · simp [hcode, hrestart]

theorem mainStep_consistent {p : Process} (h : Consistent p) (pumped : Bool) :
    Consistent (p.mainStep pumped) := by
  cases hpc : p.main with
  | optionsOnExit => exact optionsOnExit_consistent h hpc pumped
  | snapshot =>
    simp only [Process.mainStep, hpc]
    refine ⟨h.frames, h.phase, h.caller, h.missing, h.accepted, ?_, ?_⟩
    · simpa [hpc, MainPc.exited] using h.shutdownExits
    · simpa [hpc, MainPc.exited] using h.exitCode
  | boot | inputInit | inputShutdown | videoShutdown =>
    simp only [Process.mainStep, hpc]
    exact h.goto (by simp [hpc, MainPc.exited])
  | firstStep | nativeStep | onPause | optionsOnPause =>
    simp only [Process.mainStep, hpc]
    exact (h.goto (by simp [hpc, MainPc.exited])).call _ rfl
  | testSignal | testRequest | inputPump =>
    simp only [Process.mainStep, hpc]
    split <;> exact h.goto (by simp [hpc, MainPc.exited])
  | stateChanged =>
    simp only [Process.mainStep, hpc]
    split
    · exact (h.goto (by simp [hpc, MainPc.exited])).call _ rfl
    · exact h.goto (by simp [hpc, MainPc.exited])
  | finished =>
    simp only [Process.mainStep, hpc]
    exact h

theorem step_consistent {p p' : Process} {e : Event} (h : Consistent p)
    (hstep : step p e = some p') : Consistent p' := by
  simp only [step, Option.ite_none_left_eq_some] at hstep
  replace hstep := hstep.2
  cases e with
  | signal =>
    obtain rfl := Option.some.inj hstep
    exact ⟨h.frames, h.phase, h.caller, h.missing, h.accepted, h.shutdownExits, h.exitCode⟩
  | enter t method =>
    simp only [Option.ite_none_right_eq_some, Option.some.injEq] at hstep
    obtain ⟨-, rfl⟩ := hstep
    exact h.call t (by cases method <;> rfl)
  | advance t =>
    cases hstack : p.stacks t with
    | nil => simp [hstack] at hstep
    | cons f rest =>
      simp only [hstack] at hstep
      exact advance_consistent h hstack hstep
  | leave t =>
    simp only at hstep
    split at hstep
    · rename_i hstack
      obtain rfl := Option.some.inj hstep
      exact h.pop hstack
    · simp at hstep
  | mainCallback =>
    simp only [Option.ite_none_right_eq_some, Option.some.injEq] at hstep
    obtain ⟨-, rfl⟩ := hstep
    exact h.call _ rfl
  | main pumped =>
    simp only [Option.ite_none_right_eq_some, Option.some.injEq] at hstep
    obtain ⟨-, rfl⟩ := hstep
    exact mainStep_consistent h pumped

/-! ## Requests that come in time -/

/-- onExit is entered at most once and not after a restart request, the first
accepted request stays, and the exit code tells a restart from everything else. -/
structure TerminalOnce (p : Process) : Prop where
  once : p.dispatched + p.shutdownExits ≤ 1
  restart : p.lifecycleRequest = .restart → p.dispatched + p.shutdownExits = 0
  kept : p.accepted.length ≤ 1 ∧ ∀ request ∈ p.accepted, p.lifecycleRequest = request
  exitCode : p.main = .finished →
    (p.processExitCode = ASM2_ANDROID_RESTART_EXIT_CODE ↔ p.lifecycleRequest = .restart)

/-- After main has taken its snapshot no request is accepted, unless it is an
exit request of a guest that has no onExit. -/
def InTime (p : Process) : Event → Prop
  | .advance t => p.main.decided = true → p.lifecycleRequest = .none →
      (p.stacks t).head? ≠ some .restartGame ∧
      ((p.stacks t).head? = some .sExitGame → p.gameOptionsExit = false)
  | _ => True

instance decidableInTime (p : Process) : ∀ e, Decidable (InTime p e)
  | .advance _ => inferInstanceAs (Decidable (_ → _ → _ ∧ _))
  | .signal | .enter _ _ | .leave _ | .mainCallback | .main _ => isTrue trivial

/-- The snapshot of main is still the request, or the difference cannot matter. -/
def Settled (p : Process) : Prop :=
  p.main.decided = true → p.lifecycleRequest = p.snapshot ∨
    (p.gameOptionsExit = false ∧ p.snapshot = .none ∧ p.lifecycleRequest = .exit)

/-- A callback changes the request at its compare-exchange only, and nothing that
main decides from. -/
theorem advance_request {p p' : Process} {t : Tid} {f : Frame} {rest : List Frame}
    (hstep : p.advance t rest f = some p') :
    (p'.main = p.main ∧ p'.snapshot = p.snapshot ∧ p'.gameOptionsExit = p.gameOptionsExit) ∧
    (p'.lifecycleRequest = p.lifecycleRequest ∨ p.lifecycleRequest = .none ∧
      (f = .sExitGame ∧ p'.lifecycleRequest = .exit ∨ f = .restartGame)) := by
  cases f with
  | guest g => simp [Process.advance] at hstep
  | sExitGame | restartGame =>
    by_cases hnone : p.lifecycleRequest = .none
    · simp only [Process.advance, Process.lifecycleRequestOnce, hnone, if_true,
        Option.some.injEq] at hstep
      subst p'
      simp [Process.setStack, hnone]
    · simp only [Process.advance, Process.lifecycleRequestOnce, hnone, if_false,
        Option.some.injEq] at hstep
      subst p'
      simp [Process.setStack]
  | dispatchGameOptionsExitOnce | callGameOptionsExit =>
    simp only [Process.advance] at hstep
    split at hstep <;> (obtain rfl := Option.some.inj hstep; simp [Process.setStack])
  | storeDone =>
    obtain rfl := Option.some.inj hstep
    simp [Process.setStack]

theorem mainStep_settled {p : Process} (h : Settled p) (pumped : Bool) :
    Settled (p.mainStep pumped) := by
  cases hpc : p.main with
  | boot | inputInit | firstStep | nativeStep =>
    simp only [Process.mainStep, hpc]
    intro hdecided
    cases hdecided
  | testSignal | testRequest | inputPump =>
    simp only [Process.mainStep, hpc]
    intro hdecided
    split at hdecided <;> cases hdecided
  | snapshot =>
    simp only [Process.mainStep, hpc]
    intro _
    exact .inl rfl
  | onPause | optionsOnPause | inputShutdown | videoShutdown =>
    simp only [Process.mainStep, hpc]
    intro _
    exact h (by simp [hpc, MainPc.decided])
  | optionsOnExit =>
    have hold := h (by simp [hpc, MainPc.decided])
    simp only [Process.mainStep, hpc]
    split
    · exact fun _ => hold
    · split <;> exact fun _ => hold
  | stateChanged =>
    have hold := h (by simp [hpc, MainPc.decided])
    simp only [Process.mainStep, hpc]
    split <;> exact fun _ => hold
  | finished =>
    simp only [Process.mainStep, hpc]
    exact h

theorem step_settled {p p' : Process} {e : Event} (h : Settled p) (hok : InTime p e)
    (hstep : step p e = some p') : Settled p' := by
  simp only [step, Option.ite_none_left_eq_some] at hstep
  replace hstep := hstep.2
  cases e with
  | signal =>
    obtain rfl := Option.some.inj hstep
    exact h
  | enter t method =>
    simp only [Option.ite_none_right_eq_some, Option.some.injEq] at hstep
    obtain ⟨-, rfl⟩ := hstep
    exact h
  | advance t =>
    cases hstack : p.stacks t with
    | nil => simp [hstack] at hstep
    | cons f rest =>
      simp only [hstack] at hstep
      obtain ⟨⟨hmain, hsnapshot, havail⟩, hrequest⟩ := advance_request hstep
      intro hdecided
      rw [hmain] at hdecided
      rw [hsnapshot, havail]
      rcases hrequest with hsame | ⟨hnone, hchange⟩
      · rw [hsame]
        exact h hdecided
      · have hlate := hok hdecided hnone
        rw [hstack] at hlate
        have hold := h hdecided
        rcases hchange with ⟨rfl, hexit⟩ | rfl
        · have hsnap : p.snapshot = .none := by
            rcases hold with heq | ⟨-, heq, -⟩
            · rw [← heq, hnone]
            · exact heq
          exact .inr ⟨hlate.2 rfl, hsnap, hexit⟩
        · exact absurd rfl hlate.1
  | leave t =>
    simp only at hstep
    split at hstep
    · obtain rfl := Option.some.inj hstep
      exact h
    · simp at hstep
  | mainCallback =>
    simp only [Option.ite_none_right_eq_some, Option.some.injEq] at hstep
    obtain ⟨-, rfl⟩ := hstep
    exact h
  | main pumped =>
    simp only [Option.ite_none_right_eq_some, Option.some.injEq] at hstep
    obtain ⟨-, rfl⟩ := hstep
    exact mainStep_settled h pumped

theorem terminalOnce {p : Process} (h : Consistent p) (hsettled : Settled p) :
    TerminalOnce p := by
  obtain ⟨o, -, hbudget⟩ := h.caller
  have hphase : p.lifecycleRequest ≠ .exit → p.dispatched = 0 := by
    intro hne
    have hidle : p.gameOptionsExitPhase = .idle := by
      by_contra hn
      exact hne (h.phase hn)
    rw [hidle, GameOptionsExitPhase.admitted] at hbudget
    omega
  -- main calls onExit only while no request was accepted
  have hmain : p.shutdownExits ≠ 0 → p.shutdownExits = 1 ∧ p.lifecycleRequest = .none := by
    intro hne
    have hcalled : p.main.exited ∧ p.snapshot = .none ∧ p.gameOptionsExit := by
      by_contra hn
      exact hne (h.shutdownExits.trans (if_neg hn))
    refine ⟨h.shutdownExits.trans (if_pos hcalled), ?_⟩
    have hdecided : p.main.decided = true := by
      revert hcalled
      cases p.main <;> simp [MainPc.exited, MainPc.decided]
    rcases hsettled hdecided with heq | ⟨hmissing, -, -⟩
    · rw [heq, hcalled.2.1]
    · simp [hmissing] at hcalled
  refine ⟨?_, ?_, ?_, ?_⟩
  · by_cases hzero : p.shutdownExits = 0
    · have := admitted_le_one p.gameOptionsExitPhase
      omega
    · obtain ⟨hone, hnone⟩ := hmain hzero
      have := hphase (by simp [hnone])
      omega
  · intro hrestart
    have hdispatched := hphase (by simp [hrestart])
    by_cases hzero : p.shutdownExits = 0
    · omega
    · have := (hmain hzero).2
      simp [hrestart] at this
  · rw [h.accepted]
    by_cases hnone : p.lifecycleRequest = .none <;> simp [hnone]
  · intro hfinished
    have hcode := h.exitCode
    simp only [hfinished, MainPc.exited, true_and] at hcode
    have hsnapshot : p.processExitCode = ASM2_ANDROID_RESTART_EXIT_CODE ↔
        p.snapshot = .restart := by
      rw [hcode]
      by_cases hs : p.snapshot = .restart <;> simp [hs, ASM2_ANDROID_RESTART_EXIT_CODE]
    rw [hsnapshot]
    rcases hsettled (by simp [hfinished, MainPc.decided]) with heq | ⟨-, hnone, hexit⟩
    · rw [heq]
    · simp [hnone, hexit]

/-- If every request that is accepted comes in time, the terminal callbacks run
once, at every moment of the run. -/
theorem lifecycle_once (available : Bool) (es : List Event)
    (hok : Along step InTime (initial available) es) :
    Always step TerminalOnce (initial available) es := by
  intro fs gs p hes hrun
  subst es
  have hconsistent : Consistent p :=
    run_invariant (fun _ _ _ h hstep => step_consistent h hstep)
      (initial_consistent available) hrun
  have hsettled : Settled p :=
    run_invariant_along (fun _ _ _ h hok hstep => step_settled h hok hstep)
      (by intro hdecided; cases hdecided) (hok.append hrun).1 hrun
  exact terminalOnce hconsistent hsettled

/-- A signal ends the frame loop, and GL2JNILib.onPause calls back during the shutdown. -/
def latePause (method : Method) (callback : List Event) : List Event :=
  [.main true, .main true, .leave 0, .main true, .signal, .main true, .main true,
   .main true, .enter 0 method] ++ callback ++
  [.leave 0, .main true, .leave 0, .main true, .main true]

/-- The exit request dispatches onExit at once, and main calls it again. -/
def lateExit : List Event :=
  latePause .sExitGame [.advance 0, .advance 0, .advance 0, .leave 0, .advance 0]

/-- The restart request is accepted, but main calls onExit and returns 0. -/
def lateRestart : List Event :=
  latePause .restartGame [.advance 0] ++ [.leave 0, .main true, .leave 0, .main true]

theorem late_requests_break_once :
    (∃ p, run step (initial true) lateExit = some p ∧
      p.dispatched = 1 ∧ p.shutdownExits = 1 ∧ ¬ TerminalOnce p) ∧
    (∃ p, run step (initial true) lateRestart = some p ∧ p.main = .finished ∧
      p.lifecycleRequest = .restart ∧ p.shutdownExits = 1 ∧ p.processExitCode = 0 ∧
      ¬ TerminalOnce p) := by
  constructor
  · exact ⟨_, rfl, rfl, rfl, fun h => absurd h.once (by decide)⟩
  · exact ⟨_, rfl, rfl, rfl, rfl, rfl, fun h => absurd (h.restart rfl) (by decide)⟩

/-- sExitGame from a frame of the game, in time. -/
def exitFromFrame : List Event :=
  [.main true, .main true, .enter 0 .sExitGame, .advance 0, .advance 0, .advance 0,
   .enter 0 .sExitGame, .advance 0, .leave 0, .advance 0, .leave 0]

theorem lifecycle_once_frame : Always step TerminalOnce (initial true) exitFromFrame :=
  lifecycle_once true exitFromFrame (by decide)

end Asm2Runtime.Lifecycle
