import Asm2Runtime.AudioWaits

/-!
# Destroy comes to its end

Once Destroy has begun, the worker, the audio callback or Destroy itself has a step left that
brings the end nearer, unless one of them waits in the bridge for other threads. Such a wait is
over when those go on, except when it comes back to the thread of Destroy.
-/

namespace Asm2Runtime.AudioTeardown

open AudioPlayer AudioPlayer.System Transition

section Measure

def stageLeft : Stage → Nat
  | .taken _ => 2
  | .resizeFailed _ | .filled _ => 1

def callsLeft (running : List Running) : Nat := (running.map fun r => stageLeft r.stage).sum

def ExitPc.left : ExitPc → Nat
  | .reading => 4
  | .waiting => 3
  | .counting _ => 2
  | .releasing => 1

/-- How far the worker is from its end, once the player has been shut down; `guest` counts what is
left of a call that its callback makes to the bridge. -/
def workerLeft (exit : ExitPc) (guest : Nat) : WorkerPc → Nat
  | .start => 9
  | .top | .waiting => 8
  | .dispatched _ _ _ => 12 + guest
  | .inCallback _ _ _ => 11 + guest
  | .reporting => 10
  | .leaving => exit.left
  | .exited => 0

def audioLeft : AudioPc → Nat
  | .idle => 0
  | .entered => 2
  | .left => 1

def destroyLeft (bridge : MutexBridge.State) : DestroyPc → Nat
  | .locked _ _ _ _ _ _ => 60
  | .lending t _ => 40 + (bridge.pc t).left
  | .closing _ _ _ _ => 30
  | .joining _ _ => 28
  | .detaching _ => 20
  | .marking _ => 19
  | .takingBack t => 10 + (bridge.pc t).left
  | .releasing _ => 5
  | .returned _ _ => 1
  | .idle | .past _ => 0

def guestLeft (s : State) : Nat := (s.bridge.pc s.workerThread).left

/-- A bound on the steps until the player is gone. -/
def remaining (s : State) : Nat :=
  destroyLeft s.bridge s.destroy + workerLeft s.exit (guestLeft s) s.system.worker +
    callsLeft s.system.running + audioLeft s.audio

/-- A step that brings the end nearer. Those of Destroy itself are possible whatever the guest and
the outside world decide. -/
def Advances (cfg : Config) (s : State) : Prop :=
  (∀ word code raw, ∃ s', step cfg s (.destroyNext word code raw) = some s' ∧
    remaining s' < remaining s) ∨
  ∃ e s', step cfg s e = some s' ∧ remaining s' < remaining s

/-- The callback waits in the bridge. -/
def CallbackWaits (s : State) : Prop :=
  System.inCallback s.system.worker = true ∧ MutexBridge.Waits s.bridge s.workerThread

/-- Destroy waits in asm2_pthread_mutex_handoff_end for the thread that holds the mutex, or the
callback waits for a mutex or a condition. -/
def Waiting (s : State) : Prop :=
  (∃ t v, s.destroy = .takingBack t ∧ MutexBridge.AwaitsMutex s.bridge t v) ∨ CallbackWaits s

/-- Other threads, none of which waits for Destroy, have to go on first. -/
def HeldUp (s : State) : Prop := Waiting s ∧ ¬ CircularWait s

variable {cfg : Config} {s s' : State} {t : ThreadId}

theorem callsLeft_perm {running running' : List Running} (h : running.Perm running') :
    callsLeft running = callsLeft running' := (h.map _).sum_nat

theorem callsLeft_cons (r : Running) (running : List Running) :
    callsLeft (r :: running) = stageLeft r.stage + callsLeft running := by
  simp [callsLeft]

/-- A step of the player that leaves Destroy and the audio callback alone. -/
theorem advance_player {e : AudioPlayer.Event} {system : System} (hallows : s.allows e = true)
    (hstep : s.system.step (s.playerConfig cfg) e = some system)
    (hless : workerLeft s.exit (guestLeft s) system.worker + callsLeft system.running <
      workerLeft s.exit (guestLeft s) s.system.worker + callsLeft s.system.running) :
    Advances cfg s := by
  refine .inr ⟨.player e, { s with system }, ?_, ?_⟩
  · simp only [step, hallows, if_true, hstep, Option.map_some]
  · change destroyLeft s.bridge s.destroy + workerLeft s.exit (guestLeft s) system.worker +
      callsLeft system.running + audioLeft s.audio < remaining s
    unfold remaining
    omega

theorem prepareBuffer_left (s : System) (r : Running) (a : Addr) :
    (s.prepareBuffer r a none).worker = s.worker ∧
      callsLeft (s.prepareBuffer r a none).running = 1 + callsLeft (s.without r.thread) := by
  simp only [System.prepareBuffer]
  split <;> exact ⟨rfl, callsLeft_cons _ _⟩

theorem stageLeft_pos (stage : Stage) : 1 ≤ stageLeft stage := by
  cases stage <;> simp [stageLeft]

/-- The worker's own Enqueue comes to its end. -/
theorem advance_call (haside : aside s.system = (.none, false)) {r : Running}
    (hcall : s.system.callOf s.workerThread = some r) : Advances cfg s := by
  have hreleased : s.system.released = false := congrArg Prod.snd haside
  obtain ⟨hperm, hthread⟩ := running_perm hcall
  have hbefore : callsLeft s.system.running =
      stageLeft r.stage + callsLeft (s.system.without s.workerThread) := by
    rw [callsLeft_perm hperm, callsLeft_cons]
  have hpositive := stageLeft_pos r.stage
  have hover : ∀ {e : AudioPlayer.Event} {system : System}, s.allows e = true →
      s.system.step (s.playerConfig cfg) e = some system → system.worker = s.system.worker →
      system.running = s.system.without s.workerThread → Advances cfg s := by
    intro e system hallows hstep hworker hrunning
    refine advance_player hallows hstep ?_
    rw [hworker, hrunning, hbefore]
    omega
  cases hstage : r.stage with
  | taken buffer =>
    cases buffer with
    | none =>
      have hstep : s.system.step (s.playerConfig cfg) (.enqueuePrepare s.workerThread none none) =
          some ({ s.system with running := s.system.without s.workerThread }.record s.system.player
            (.refused s.workerThread .memoryFailure)) := by
        simp only [System.step, System.enqueuePrepare, hreleased, hcall, hstage]
        rfl
      exact hover rfl hstep rfl rfl
    | some a =>
      have hstep : s.system.step (s.playerConfig cfg) (.enqueuePrepare s.workerThread none none) =
          some (s.system.prepareBuffer r a none) := by
        simp only [System.step, System.enqueuePrepare, hreleased, hcall, hstage]
        rfl
      obtain ⟨hworker, hleft⟩ := prepareBuffer_left s.system r a
      refine advance_player rfl hstep ?_
      rw [hworker, hleft, hbefore, hstage, hthread]
      simp only [stageLeft]
      omega
  | resizeFailed a =>
    have hstep : ∃ system, s.system.step (s.playerConfig cfg) (.enqueueEnd s.workerThread) =
        some system ∧ system.worker = s.system.worker ∧
        system.running = s.system.without s.workerThread := by
      simp only [System.step, System.enqueueEnd, hreleased, hcall, hstage]
      exact ⟨_, rfl, rfl, rfl⟩
    obtain ⟨system, hstep, hworker, hrunning⟩ := hstep
    exact hover rfl hstep hworker hrunning
  | filled a =>
    have hstep : ∃ system, s.system.step (s.playerConfig cfg) (.enqueueEnd s.workerThread) =
        some system ∧ system.worker = s.system.worker ∧
        system.running = s.system.without s.workerThread := by
      simp only [System.step, System.enqueueEnd, hreleased, hcall, hstage, Bool.false_eq_true,
        if_false]
      split <;> exact ⟨_, rfl, rfl, rfl⟩
    obtain ⟨system, hstep, hworker, hrunning⟩ := hstep
    exact hover rfl hstep hworker hrunning

/-- A player that is shut down does not wait for completions. -/
theorem shutdown_leaves (system : System) (hshutdown : system.player.shutdown = true) :
    system.waitOrTake = { system with worker := .leaving } := by
  simp [System.waitOrTake, System.takeSection, hshutdown]

theorem poll_shutdown (system : System) (hshutdown : system.player.shutdown = true) :
    system.poll = system := by
  simp [System.poll, Player.recoveryReady, hshutdown]

theorem destroyLeft_congr {b b' : MutexBridge.State} {pc : DestroyPc}
    (h : ∀ t, pc.thread = some t → b'.pc t = b.pc t) : destroyLeft b' pc = destroyLeft b pc := by
  cases pc with
  | lending t device | takingBack t =>
    have hpc := h t rfl
    simp only [destroyLeft, hpc]
  | _ => rfl

/-- A call that the callback makes to the bridge goes on, or the callback waits there. -/
theorem advance_callback (hinv : Inv cfg s) (hregistered : MutexBridge.Registered s.bridge)
    (hself : s.destroy.thread ≠ some s.workerThread)
    (hin : System.inCallback s.system.worker = true)
    (hbusy : s.bridge.pc s.workerThread ≠ .idle) : CallbackWaits s ∨ Advances cfg s := by
  have hlive : s.workerThread ∈ s.bridge.live := by
    by_contra hdead
    exact hbusy (hinv.agreed.idle s.workerThread hdead)
  have hgo : ∀ {b : MutexBridge.Event} (bridge : MutexBridge.State),
      b.thread = some s.workerThread → s.MayBridge cfg b →
      MutexBridge.step cfg.platform s.bridge b = some bridge →
      (bridge.pc s.workerThread).left < (s.bridge.pc s.workerThread).left → Advances cfg s := by
    intro b bridge hthread hmay hbridge hless
    have hdestroy : destroyLeft bridge s.destroy = destroyLeft s.bridge s.destroy := by
      refine destroyLeft_congr fun t ht => ?_
      have hother : b.thread ≠ some t := by
        rw [hthread]
        rintro heq
        exact hself (ht.trans heq.symm)
      exact (MutexBridge.step_beside hinv.agreed hother hbridge).1
    obtain ⟨f, c, n, hw⟩ := (System.inCallback_iff _).mp hin
    refine .inr ⟨.bridge b, { s with bridge }, ?_, ?_⟩
    · simp only [step, if_pos hmay, hbridge, Option.map_some]
    · simp only [remaining, guestLeft, hdestroy, hw, workerLeft]
      omega
  have hthread : some s.workerThread = none ∨ some s.workerThread ≠ s.destroy.thread :=
    .inr (Ne.symm hself)
  by_cases hwaits : MutexBridge.Waits s.bridge s.workerThread
  · exact .inl ⟨hin, hwaits⟩
  · right
    cases hdone : (s.bridge.pc s.workerThread).isDone with
    | true =>
      have hmay : s.MayBridge cfg (.resume s.workerThread) := ⟨hthread, rfl, (by simp), rfl⟩
      refine hgo (s.bridge.goto s.workerThread .idle) rfl hmay ?_ ?_
      · cases hpc : s.bridge.pc s.workerThread with
        | returned | notFound => simp only [MutexBridge.step, hpc, if_pos hlive]
        | _ =>
          rw [hpc] at hdone
          cases hdone
      · rw [MutexBridge.pc_goto_self]
        cases hpc : s.bridge.pc s.workerThread with
        | returned | notFound => simp [MutexBridge.Pc.left]
        | _ =>
          rw [hpc] at hdone
          cases hdone
    | false =>
      have hmay : s.MayBridge cfg (.act s.workerThread 0 0) := ⟨hthread, rfl, (by simp), rfl⟩
      obtain ⟨bridge, hact, hless⟩ :=
        MutexBridge.moves (p := cfg.platform) hregistered hbusy hdone hwaits 0 0
      refine hgo bridge rfl hmay ?_ hless
      simpa only [MutexBridge.step, if_pos hlive] using hact

/-- After the shutdown the worker comes to its end, unless it is in Destroy itself or Destroy has
not closed the device yet, or unless its callback waits. -/
theorem advance_worker (hinv : Inv cfg s) (hsure : Sure cfg s)
    (hregistered : MutexBridge.Registered s.bridge)
    (hshutdown : s.system.player.shutdown = true) (hexited : s.system.worker ≠ .exited)
    (hself : s.destroy.thread ≠ some s.workerThread)
    (hclosed : s.system.player.destroyOnWorkerExit = true →
      s.system.player.destroyResourcesClosed = true) : CallbackWaits s ∨ Advances cfg s := by
  have hloop : ∀ (e : AudioPlayer.Event) (pc : WorkerPc), s.allows e = true →
      (∃ system, s.system.step (s.playerConfig cfg) e = some system ∧
        system.running = s.system.running ∧ system.worker = pc) →
      workerLeft s.exit (guestLeft s) pc < workerLeft s.exit (guestLeft s) s.system.worker →
      Advances cfg s := by
    rintro e pc hallows ⟨system, hstep, hrunning, rfl⟩ hless
    refine advance_player hallows hstep ?_
    rw [hrunning]
    omega
  cases hw : s.system.worker with
  | exited => exact absurd hw hexited
  | start =>
    refine .inr (hloop .workerStart .top rfl ?_ (by rw [hw]; simp [workerLeft]))
    simp only [System.step, hw, if_true]
    exact ⟨_, rfl, rfl, rfl⟩
  | top =>
    have hexit := hinv.leaves.inside (by rw [hw]; simp) hexited
    refine .inr (hloop .workerLock .leaving rfl ?_
      (by rw [hw, hexit]; simp [workerLeft, ExitPc.left]))
    simp only [System.step, hw, if_true, shutdown_leaves s.system hshutdown]
    exact ⟨_, rfl, rfl, rfl⟩
  | waiting =>
    have hexit := hinv.leaves.inside (by rw [hw]; simp) hexited
    refine .inr (hloop .workerWake .leaving rfl ?_
      (by rw [hw, hexit]; simp [workerLeft, ExitPc.left]))
    simp only [System.step, hw, if_true, poll_shutdown s.system hshutdown,
      shutdown_leaves s.system hshutdown]
    exact ⟨_, rfl, rfl, rfl⟩
  | dispatched f c n =>
    refine .inr (hloop .workerInvoke (.inCallback f c n) rfl ?_ (by rw [hw]; simp [workerLeft]))
    simp only [System.step, hw]
    exact ⟨_, rfl, rfl, rfl⟩
  | inCallback f c n =>
    cases hcall : s.system.callOf s.workerThread with
    | some r => exact .inr (advance_call hsure.aside hcall)
    | none =>
      by_cases hidle : s.bridge.pc s.workerThread = .idle
      · have hdestroyer : s.system.destroyer = .none := congrArg Prod.fst hsure.aside
        have hallows : s.allows .workerReturn = true := by
          simp [State.allows, hself, hidle]
        refine .inr (hloop .workerReturn .reporting hallows ?_ ?_)
        · simp only [System.step, hw, State.playerConfig, hcall, System.isDestroying, hdestroyer]
          exact ⟨_, rfl, rfl, rfl⟩
        · simp only [hw, workerLeft]
          omega
      · exact advance_callback hinv hregistered hself (by rw [hw]; rfl) hidle
  | reporting =>
    refine .inr (hloop (.workerReport false) .top rfl ?_ (by rw [hw]; simp [workerLeft]))
    simp only [System.step, hw, if_true]
    exact ⟨_, rfl, rfl, rfl⟩
  | leaving =>
    obtain ⟨-, hat⟩ := hinv.leaves.leaving hw
    have hgo : (∃ s', s.workerExit = some s' ∧
        destroyLeft s'.bridge s'.destroy = destroyLeft s.bridge s.destroy ∧ s'.audio = s.audio ∧
        s'.system.running = s.system.running ∧
        workerLeft s'.exit (guestLeft s') s'.system.worker < s.exit.left) →
        CallbackWaits s ∨ Advances cfg s := by
      rintro ⟨s', hstep, hdestroy, haudio, hrunning, hless⟩
      refine .inr (.inr ⟨.workerExit, s', hstep, ?_⟩)
      have hbefore : workerLeft s.exit (guestLeft s) s.system.worker = s.exit.left := by
        rw [hw]
        rfl
      simp only [remaining, hdestroy, haudio, hrunning]
      rw [hbefore]
      omega
    apply hgo
    cases hexit : s.exit with
    | reading =>
      simp only [State.workerExit, hw, hexit, if_true]
      refine ⟨_, rfl, rfl, rfl, rfl, ?_⟩
      cases s.system.player.destroyOnWorkerExit <;> simp [workerLeft, ExitPc.left, hw]
    | waiting =>
      rw [hexit] at hat
      simp only [State.workerExit, hw, hexit, hclosed hat, if_true]
      exact ⟨_, rfl, rfl, rfl, rfl, by simp [workerLeft, ExitPc.left, hw]⟩
    | counting release =>
      cases release with
      | true =>
        simp only [State.workerExit, hw, hexit, if_true]
        exact ⟨_, rfl, rfl, rfl, rfl, by simp [workerLeft, ExitPc.left, hw]⟩
      | false =>
        simp only [State.workerExit, hw, hexit, if_true]
        exact ⟨_, rfl, rfl, rfl, rfl, by simp [State.setWorker, workerLeft, ExitPc.left]⟩
    | releasing =>
      simp only [State.workerExit, hw, hexit, if_true]
      exact ⟨_, rfl, rfl, rfl, rfl,
        by simp [State.setWorker, State.releasePlayer, workerLeft, ExitPc.left]⟩

end Measure

section Progress

variable {cfg : Config} {s s' : State} {t : ThreadId}

/-- Destroy leaves the other parts of the player where they are. -/
theorem destroyNext_rest {word : MutexBridge.Addr} {code : MutexBridge.Errno} {raw : Nat}
    (hstep : s.destroyNext cfg word code raw = some s') :
    s'.exit = s.exit ∧ s'.audio = s.audio ∧ s'.system.running = s.system.running := by
  have henter : ∀ {u op m pc}, s.enterBridge cfg u op m pc = some s' →
      s'.exit = s.exit ∧ s'.audio = s.audio ∧ s'.system.running = s.system.running := by
    intro u op m pc henter
    obtain ⟨bridge, -, rfl⟩ := Option.map_eq_some_iff.mp henter
    exact ⟨rfl, rfl, rfl⟩
  have hin : ∀ {u} {next : Int → DestroyPc}, s.inBridge cfg u code raw next = some s' →
      s'.exit = s.exit ∧ s'.audio = s.audio ∧ s'.system.running = s.system.running := by
    intro u next hin
    simp only [State.inBridge] at hin
    split at hin <;> obtain ⟨bridge, -, rfl⟩ := Option.map_eq_some_iff.mp hin <;>
      exact ⟨rfl, rfl, rfl⟩
  simp only [State.destroyNext] at hstep
  split at hstep
  case h_1 | h_10 | h_11 => cases hstep
  case h_2 =>
    split at hstep
    · split at hstep
      · exact henter hstep
      · obtain rfl := Option.some.inj hstep
        exact ⟨rfl, rfl, rfl⟩
    · obtain rfl := Option.some.inj hstep
      exact ⟨rfl, rfl, rfl⟩
  case h_3 | h_8 => exact hin hstep
  case h_4 =>
    split at hstep
    · simp only [Option.ite_none_right_eq_some, Option.some.injEq] at hstep
      obtain ⟨-, rfl⟩ := hstep
      exact ⟨rfl, rfl, rfl⟩
    · obtain rfl := Option.some.inj hstep
      exact ⟨rfl, rfl, rfl⟩
  case h_7 =>
    split at hstep
    · cases hstep
    · split at hstep
      · exact henter hstep
      · obtain rfl := Option.some.inj hstep
        exact ⟨rfl, rfl, rfl⟩
  all_goals
    obtain rfl := Option.some.inj hstep
    exact ⟨rfl, rfl, rfl⟩

/-- The worker is as far from its end as before: its thread is not that of Destroy, or it has
ended. -/
theorem destroyNext_worker (hinv : Inv cfg s) (hsure : Sure cfg s) {word : MutexBridge.Addr}
    {code : MutexBridge.Errno} {raw : Nat} (hstep : s.destroyNext cfg word code raw = some s') :
    workerLeft s'.exit (guestLeft s') s'.system.worker =
      workerLeft s.exit (guestLeft s) s.system.worker := by
  have honward := destroyNext_onward hstep
  have hsame : guestLeft s' = guestLeft s → workerLeft s'.exit (guestLeft s') s'.system.worker =
      workerLeft s.exit (guestLeft s) s.system.worker := by
    intro hguest
    rw [(destroyNext_rest hstep).1, hguest, honward.worker]
  rcases destroyNext_bridge hstep with hbridge | ⟨u, b, hthread, hbridge, hat⟩
  · exact hsame (by rw [guestLeft, guestLeft, hbridge, honward.workerThread])
  · by_cases hu : u = s.workerThread
    · subst hu
      have hflow := hinv.flow
      rw [hat.resolve_left hsure.apart] at hflow
      have hended : Ended s := hflow
      rw [honward.worker, hended.worker]
      rfl
    · have hother : b.thread ≠ some s.workerThread := by
        rw [hthread]
        simpa using hu
      have hpc := (MutexBridge.step_beside hinv.agreed hother hbridge).1
      exact hsame (by rw [guestLeft, guestLeft, honward.workerThread, hpc])

/-- Destroy goes on by itself. -/
theorem advance_destroy (hinv : Inv cfg s) (hsure : Sure cfg s)
    (h : ∀ word code raw, ∃ s', s.destroyNext cfg word code raw = some s' ∧
      destroyLeft s'.bridge s'.destroy < destroyLeft s.bridge s.destroy) : Advances cfg s := by
  refine .inl ?_
  intro word code raw
  obtain ⟨s', hstep, hless⟩ := h word code raw
  obtain ⟨-, haudio, hrunning⟩ := destroyNext_rest hstep
  refine ⟨s', hstep, ?_⟩
  simp only [remaining, destroyNext_worker hinv hsure hstep, haudio, hrunning]
  omega

/-- Destroy enters the bridge. -/
theorem enterBridge_some {op : MutexBridge.Op} {m : MutexBridge.Addr} {pc : DestroyPc}
    (hlive : t ∈ s.bridge.live) (hidle : s.bridge.pc t = .idle) :
    s.enterBridge cfg t op m pc = some { s with
      bridge := MutexBridge.start cfg.platform s.bridge t op m, destroy := pc } := by
  simp only [State.enterBridge, MutexBridge.step, hlive, hidle, and_self, if_true, Option.map_some]

/-- What a call of the bridge does next, if it does not wait. -/
theorem inBridge_some {next : Int → DestroyPc} (hlive : t ∈ s.bridge.live)
    (hmoves : (s.bridge.pc t).isDone = false → MutexBridge.Moves cfg.platform s.bridge t)
    (code : MutexBridge.Errno) (raw : Nat) :
    (∃ result, s.inBridge cfg t code raw next = some { s with
      bridge := s.bridge.goto t .idle, destroy := next result }) ∨
    ∃ bridge, s.inBridge cfg t code raw next = some { s with bridge } ∧
      (bridge.pc t).left < (s.bridge.pc t).left := by
  cases hdone : (s.bridge.pc t).isDone with
  | true =>
    left
    cases hpc : s.bridge.pc t with
    | returned c result =>
      exact ⟨result, by simp [State.inBridge, MutexBridge.step, hpc, hlive]⟩
    | notFound c result =>
      exact ⟨result, by simp [State.inBridge, MutexBridge.step, hpc, hlive]⟩
    | _ =>
      rw [hpc] at hdone
      cases hdone
  | false =>
    right
    obtain ⟨bridge, hact, hless⟩ := hmoves hdone code raw
    refine ⟨bridge, ?_, hless⟩
    have hstep : MutexBridge.step cfg.platform s.bridge (.act t code raw) = some bridge := by
      simp only [MutexBridge.step, hlive, if_true, hact]
    unfold State.inBridge
    split
    · rename_i hpc
      rw [hpc] at hdone
      cases hdone
    · rename_i hpc
      rw [hpc] at hdone
      cases hdone
    · rw [hstep]
      rfl

theorem locked_advances {view₀ : MutexBridge.Addr → Option MutexBridge.Object}
    (hb : Borrowing cfg t view₀ s) (hinv : Inv cfg s) (hsure : Sure cfg s) {u : ThreadId}
    {deferred device inFlight : Bool} {callback : Option GuestFunction} {context : Context}
    (hpc : s.destroy = .locked u deferred device inFlight callback context) : Advances cfg s := by
  have hholding := hb.holding
  rw [hpc] at hholding
  obtain ⟨rfl, hidle, -⟩ := hholding
  have hlive := hb.live (by rw [hpc]; rfl)
  refine advance_destroy hinv hsure fun word code raw => ?_
  have hclosing : ∃ s', some { s with destroy := .closing u deferred false device } = some s' ∧
      destroyLeft s'.bridge s'.destroy < destroyLeft s.bridge s.destroy :=
    ⟨_, rfl, by rw [hpc]; simp [destroyLeft]⟩
  simp only [State.destroyNext, hpc]
  split
  · split
    · rename_i m _
      rw [enterBridge_some hlive hidle]
      refine ⟨_, rfl, ?_⟩
      simp [destroyLeft, MutexBridge.start, MutexBridge.Pc.left]
    · rwa [hpc] at hclosing
  · rwa [hpc] at hclosing

theorem lending_advances {view₀ : MutexBridge.Addr → Option MutexBridge.Object}
    (hb : Borrowing cfg t view₀ s) (hinv : Inv cfg s) (hsure : Sure cfg s)
    (hregistered : MutexBridge.Registered s.bridge) {u : ThreadId} {device : Bool}
    (hpc : s.destroy = .lending u device) : Advances cfg s := by
  have hholding := hb.holding
  rw [hpc] at hholding
  obtain ⟨rfl, m, hlending⟩ := hholding
  have hlive := hb.live (by rw [hpc]; rfl)
  refine advance_destroy hinv hsure fun word code raw => ?_
  have hmoves := MutexBridge.lending_moves (p := cfg.platform) hregistered hlending
  simp only [State.destroyNext, hpc]
  rcases inBridge_some hlive hmoves code raw with ⟨result, hstep⟩ | ⟨bridge, hstep, hless⟩
  · rw [hstep]
    refine ⟨_, rfl, ?_⟩
    simp only [destroyLeft]
    omega
  · rw [hstep]
    refine ⟨_, rfl, ?_⟩
    simp only [hpc, destroyLeft]
    omega

/-- It waits at the host lock, or it goes on. -/
theorem takingBack_advances {view₀ : MutexBridge.Addr → Option MutexBridge.Object}
    (hb : Borrowing cfg t view₀ s) (hinv : Inv cfg s) (hsure : Sure cfg s)
    (hregistered : MutexBridge.Registered s.bridge) {u : ThreadId}
    (hpc : s.destroy = .takingBack u) : Waiting s ∨ Advances cfg s := by
  have hholding := hb.holding
  rw [hpc] at hholding
  obtain ⟨rfl, m, hreturning⟩ := hholding
  have hlive := hb.live (by rw [hpc]; rfl)
  by_cases hwaits : ∃ v, MutexBridge.AwaitsMutex s.bridge u v
  · obtain ⟨v, hv⟩ := hwaits
    exact .inl (.inl ⟨u, v, hpc, hv⟩)
  · refine .inr (advance_destroy hinv hsure fun word code raw => ?_)
    have hmoves : (s.bridge.pc u).isDone = false →
        MutexBridge.Moves cfg.platform s.bridge u := fun hdone =>
      MutexBridge.returning_moves hregistered hreturning hdone fun v hv => hwaits ⟨v, hv⟩
    simp only [State.destroyNext, hpc]
    rcases inBridge_some hlive hmoves code raw with ⟨result, hstep⟩ | ⟨bridge, hstep, hless⟩
    · rw [hstep]
      refine ⟨_, rfl, ?_⟩
      simp only [destroyLeft]
      omega
    · rw [hstep]
      refine ⟨_, rfl, ?_⟩
      simp only [hpc, destroyLeft]
      omega

/-- After the shutdown an audio section writes silence. -/
theorem silent_section (hsure : Sure cfg s) (hshutdown : s.system.player.shutdown = true) :
    ∃ system, s.system.audio 0 = some system ∧ system.worker = s.system.worker ∧
      system.running = s.system.running := by
  have hdestroyer : s.system.destroyer = .none := congrArg Prod.fst hsure.aside
  have hinactive : s.system.player.isActive = false := by
    simp [Player.isActive, hshutdown]
  simp only [System.audio, System.deviceOpen, hdestroyer, Player.sdlAudioCallback, hinactive]
  exact ⟨_, rfl, rfl, rfl⟩

/-- The device is closed, or the audio callback that is running goes on. -/
theorem closing_advances (hinv : Inv cfg s) (hsure : Sure cfg s) {u : ThreadId}
    {deferred lent device : Bool} (hpc : s.destroy = .closing u deferred lent device) :
    Advances cfg s := by
  have hflow := hinv.flow
  rw [hpc] at hflow
  have hshutdown := hflow.1.shutdown
  have hnext : destroyLeft s.bridge (if deferred then .detaching u else .joining u lent) <
      destroyLeft s.bridge s.destroy := by
    rw [hpc]
    cases deferred <;> simp [destroyLeft]
  cases haudio : s.audio with
  | idle =>
    refine advance_destroy hinv hsure fun word code raw => ?_
    simp only [State.destroyNext, hpc, haudio, if_true]
    rw [hpc] at hnext
    split
    · exact ⟨_, rfl, hnext⟩
    · exact ⟨_, rfl, hnext⟩
  | entered =>
    obtain ⟨system, hsystem, hworker, hrunning⟩ := silent_section hsure hshutdown
    refine .inr ⟨.audioSection 0, { s with system, audio := .left }, ?_, ?_⟩
    · simp only [step, haudio, if_true, hsystem, Option.map_some]
    · change destroyLeft s.bridge s.destroy + workerLeft s.exit (guestLeft s) system.worker +
        callsLeft system.running + 1 < remaining s
      simp only [remaining, haudio, hworker, hrunning, audioLeft]
      omega
  | left =>
    refine .inr ⟨.audioLeave, { s with audio := .idle }, ?_, ?_⟩
    · simp only [step, haudio, if_true]
    · change destroyLeft s.bridge s.destroy + workerLeft s.exit (guestLeft s) s.system.worker +
        callsLeft s.system.running + 0 < remaining s
      simp only [remaining, haudio, audioLeft]
      omega

theorem joining_advances {view₀ : MutexBridge.Addr → Option MutexBridge.Object}
    (hb : Borrowing cfg t view₀ s) (hinv : Inv cfg s) (hsure : Sure cfg s)
    (hregistered : MutexBridge.Registered s.bridge) {u : ThreadId} {lent : Bool}
    (hpc : s.destroy = .joining u lent) : CallbackWaits s ∨ Advances cfg s := by
  have hflow := hinv.flow
  rw [hpc] at hflow
  have hholding := hb.holding
  rw [hpc] at hholding
  obtain ⟨rfl, hidle, hheld⟩ := hholding
  have hlive := hb.live (by rw [hpc]; rfl)
  by_cases hworker : s.system.worker = .exited
  · refine .inr (advance_destroy hinv hsure fun word code raw => ?_)
    simp only [State.destroyNext, hpc]
    rw [if_neg fun hw => hw.2 hworker]
    cases lent with
    | true =>
      obtain ⟨m, hsame, hfound, hgiven⟩ := hheld
      rw [if_pos rfl, enterBridge_some hlive hidle]
      refine ⟨_, rfl, ?_⟩
      simp [destroyLeft, MutexBridge.start, hgiven.held, MutexBridge.Pc.left]
    | false => exact ⟨_, rfl, by simp [destroyLeft]⟩
  · have hapart := hsure.apart
    rw [hpc] at hapart
    refine advance_worker hinv hsure hregistered hflow.1.shutdown hworker
      (by rw [hpc]; exact hapart) ?_
    intro hdeferred
    cases hdeferred.symm.trans hflow.1.deferred

/-- Everything is over, and the player has been released once. -/
structure Finished (s : State) : Prop where
  past : ∃ deferred, s.destroy = .past deferred
  gone : Gone s
  released : s.playersReleased = 1

theorem past_progress (hinv : Inv cfg s) (hsure : Sure cfg s)
    (hregistered : MutexBridge.Registered s.bridge) {deferred : Bool}
    (hpc : s.destroy = .past deferred) : Finished s ∨ CallbackWaits s ∨ Advances cfg s := by
  have hflow := hinv.flow
  have hcount := hinv.count
  rw [hpc] at hflow hcount
  cases deferred with
  | false =>
    have hended : Ended s := hflow
    have hworker : s.workerReleases = 0 := by
      rw [State.workerReleases, if_neg]
      rw [hended.deferred]
      simp
    have hone : s.playersReleased = 1 := by rw [hcount, hworker]; rfl
    exact .inl ⟨⟨false, hpc⟩, hinv.gone (by omega), hone⟩
  | true =>
    by_cases hw : s.system.worker = .exited
    · have hworker : s.workerReleases = 1 := if_pos ⟨hw, hflow.1.deferred⟩
      have hone : s.playersReleased = 1 := by rw [hcount, hworker]; rfl
      exact .inl ⟨⟨true, hpc⟩, hinv.gone (by omega), hone⟩
    · refine .inr (advance_worker hinv hsure hregistered hflow.1.shutdown hw ?_
        fun _ => hflow.1.marked)
      rw [hpc]
      simp [DestroyPc.thread]

theorem progress {view₀ : MutexBridge.Addr → Option MutexBridge.Object}
    (hb : Borrowing cfg t view₀ s) (hinv : Inv cfg s) (hsure : Sure cfg s)
    (hregistered : MutexBridge.Registered s.bridge) :
    Finished s ∨ Waiting s ∨ Advances cfg s := by
  cases hpc : s.destroy with
  | idle => exact absurd hpc hb.begun
  | locked => exact .inr (.inr (locked_advances hb hinv hsure hpc))
  | lending => exact .inr (.inr (lending_advances hb hinv hsure hregistered hpc))
  | closing => exact .inr (.inr (closing_advances hinv hsure hpc))
  | joining => exact .inr ((joining_advances hb hinv hsure hregistered hpc).imp_left .inr)
  | takingBack => exact .inr (takingBack_advances hb hinv hsure hregistered hpc)
  | detaching u | marking u | releasing u =>
    refine .inr (.inr (advance_destroy hinv hsure fun word code raw => ?_))
    simp only [State.destroyNext, hpc]
    exact ⟨_, rfl, by simp [destroyLeft]⟩
  | returned u deferred =>
    refine .inr (.inr (.inr ⟨.resume, { s with destroy := .past deferred }, ?_, ?_⟩))
    · simp only [step, hpc]
    · change 0 + workerLeft s.exit (guestLeft s) s.system.worker + callsLeft s.system.running +
        audioLeft s.audio < remaining s
      simp only [remaining, hpc, destroyLeft]
      omega
  | past =>
    exact (past_progress hinv hsure hregistered hpc).imp_right fun h => h.imp_left .inr

end Progress

section Outside

variable {cfg : Config} {s s' : State} {t : ThreadId}

/-- The event is not a step of anybody who uses the player. -/
def Event.isOutside : Event → Bool
  | .bridge _ | .resume => true
  | _ => false

theorem Gone.begun (h : Gone s) : s.destroy ≠ .idle := by
  rcases h.destroy with ⟨t, deferred, hpc⟩ | ⟨deferred, hpc⟩ <;> rw [hpc] <;> simp

/-- Nobody may call a player that is gone. -/
theorem Gone.not_mayCall (cfg : Config) (h : Gone s) (hmay : s.mayCall t = true) :
    ¬ s.system.MayCall (s.playerConfig cfg) t := by
  rintro ⟨-, -, -, hinside⟩
  simp only [State.mayCall, Bool.and_eq_true, Bool.or_eq_true, decide_eq_true_eq] at hmay
  have hself := hmay.1.2.resolve_left h.begun
  obtain ⟨f, c, n, hw⟩ := hinside hself
  cases h.worker.symm.trans hw

theorem Gone.callOf_none (h : Gone s) (t : ThreadId) : s.system.callOf t = none := by
  simp [System.callOf, h.calls]

theorem Gone.no_player (h : Gone s) {e : AudioPlayer.Event} (hallows : s.allows e = true) :
    s.system.step (s.playerConfig cfg) e = none := by
  cases e with
  | audio | destroyBegin | destroyClose | destroyEnd | workerExit => cases hallows
  | enqueueBegin t data =>
    simp only [State.allows, Bool.and_eq_true] at hallows
    have hnot := h.not_mayCall cfg hallows.2
    simp [System.step, System.enqueueBegin, hnot]
  | setPlayState t state =>
    simp only [State.allows, Bool.and_eq_true] at hallows
    have hnot := h.not_mayCall cfg hallows.2
    simp [System.step, hnot]
  | clear t =>
    simp only [State.allows, Bool.and_eq_true] at hallows
    have hnot := h.not_mayCall cfg hallows.2
    simp [System.step, hnot]
  | registerCallback t callback context =>
    simp only [State.allows, Bool.and_eq_true] at hallows
    have hnot := h.not_mayCall cfg hallows.2
    simp [System.step, hnot]
  | enqueuePrepare t => simp [System.step, System.enqueuePrepare, h.callOf_none t]
  | enqueueEnd t => simp [System.step, System.enqueueEnd, h.callOf_none t]
  | _ => simp [System.step, h.worker]

theorem Gone.outside (h : Gone s) (hinv : Inv cfg s) {e : Event}
    (hstep : step cfg s e = some s') : e.isOutside = true := by
  have hbegun := h.begun
  cases e with
  | bridge | resume => rfl
  | registerCallback callback context =>
    simp only [step, Option.ite_none_right_eq_some] at hstep
    exact absurd hstep.1.2 hbegun
  | realize =>
    simp only [step, Option.ite_none_right_eq_some] at hstep
    exact absurd hstep.1.1 hbegun
  | openNext succeeds worker =>
    have hopening : s.opening ≠ .none := by
      intro hnone
      simp only [step, State.openNext, hnone] at hstep
      cases hstep
    exact absurd (hinv.idle_of_opening hopening) hbegun
  | player e =>
    simp only [step, Option.ite_none_right_eq_some] at hstep
    obtain ⟨hallows, hstep⟩ := hstep
    rw [h.no_player hallows] at hstep
    cases hstep
  | audioEnter =>
    simp only [step, Option.ite_none_right_eq_some] at hstep
    cases h.silent.device.symm.trans hstep.1.1
  | audioSection length =>
    simp only [step, Option.ite_none_right_eq_some] at hstep
    cases h.silent.audio.symm.trans hstep.1
  | audioLeave =>
    simp only [step, Option.ite_none_right_eq_some] at hstep
    cases h.silent.audio.symm.trans hstep.1
  | workerExit =>
    simp only [step, State.workerExit, Option.ite_none_right_eq_some] at hstep
    cases h.worker.symm.trans hstep.1
  | destroy t =>
    simp only [step, Option.ite_none_right_eq_some] at hstep
    exact absurd hstep.1.1 hbegun
  | destroyNext word code raw =>
    rcases h.destroy with ⟨t, deferred, hpc⟩ | ⟨deferred, hpc⟩ <;>
      simp only [step, State.destroyNext, hpc] at hstep <;> cases hstep

end Outside

section Teardown

variable {cfg : Config} {s s' : State} {t : ThreadId}

/-- All that holds of every state. -/
structure Whole (cfg : Config) (s : State) : Prop where
  inv : Inv cfg s
  sure : Sure cfg s
  guest : Guest s
  registered : MutexBridge.Registered s.bridge
  spare : Spare cfg s
  borrowing : s.destroy ≠ .idle → ∃ t view₀, Borrowing cfg t view₀ s

/-- Nothing but a call of Destroy begins it. -/
theorem begins {e : Event} (hidle : s.destroy = .idle) (hbegun : s'.destroy ≠ .idle)
    (hstep : step cfg s e = some s') : ∃ t, e = .destroy t := by
  cases e with
  | destroy t => exact ⟨t, rfl⟩
  | registerCallback | realize | audioEnter | audioLeave =>
    simp only [step, Option.ite_none_right_eq_some, Option.some.injEq] at hstep
    obtain ⟨-, rfl⟩ := hstep
    exact absurd hidle hbegun
  | openNext succeeds worker => exact absurd ((openNext_same hstep).trans hidle) hbegun
  | player | audioSection | bridge =>
    simp only [step, Option.ite_none_right_eq_some, Option.map_eq_some_iff] at hstep
    obtain ⟨-, _, -, rfl⟩ := hstep
    exact absurd hidle hbegun
  | workerExit => exact absurd ((workerExit_same hstep).2.1.trans hidle) hbegun
  | destroyNext word code raw =>
    simp only [step, State.destroyNext, hidle] at hstep
    cases hstep
  | resume =>
    simp only [step, hidle] at hstep
    cases hstep

theorem step_whole (h : Whole cfg s) {e : Event} (hstep : step cfg s e = some s') :
    Whole cfg s' where
  inv := step_inv h.inv hstep
  sure := step_sure h.sure h.inv hstep
  guest := step_guest h.guest h.inv h.sure hstep
  registered := by
    rcases step_bridge hstep with hbridge | ⟨b, hbridge⟩
    · rw [hbridge]
      exact h.registered
    · exact MutexBridge.step_registered h.registered h.inv.agreed hbridge
  spare := step_spare h.spare h.inv.agreed hstep
  borrowing := by
    intro hbegun
    by_cases hidle : s.destroy = .idle
    · obtain ⟨t, rfl⟩ := begins hidle hbegun hstep
      exact ⟨t, _, destroy_borrowing h.spare hstep⟩
    · obtain ⟨t, view₀, hb⟩ := h.borrowing hidle
      exact ⟨t, view₀, step_borrowing hb h.inv hstep⟩

theorem initial_whole (cfg : Config) : Whole cfg initial :=
  ⟨initial_inv cfg, initial_sure cfg, fun hbusy => absurd rfl hbusy,
    MutexBridge.initial_registered, initial_spare cfg, fun hbegun => absurd rfl hbegun⟩

theorem Whole.run (h : Whole cfg s) {es : List Event}
    (hrun : Transition.run (step cfg) s es = some s') : Whole cfg s' :=
  run_invariant (fun _ _ _ h hstep => step_whole h hstep) h hrun

theorem run_whole (cfg : Config) {es : List Event}
    (hrun : run (step cfg) initial es = some s) : Whole cfg s :=
  (initial_whole cfg).run hrun

theorem CircularWait.begun (h : CircularWait s) : s.destroy ≠ .idle := by
  obtain ⟨t, hthread, -⟩ := h
  intro hidle
  rw [hidle] at hthread
  cases hthread

/-- Once Destroy waits in a circle, it waits for good, and nobody releases the player. -/
theorem CircularWait.run (h : CircularWait s) (hwhole : Whole cfg s) {es : List Event}
    (hrun : Transition.run (step cfg) s es = some s') :
    CircularWait s' ∧ s'.playersReleased = 0 := by
  have hkept : Whole cfg s' ∧ CircularWait s' := by
    refine run_invariant (P := fun s => Whole cfg s ∧ CircularWait s) ?_ ⟨hwhole, h⟩ hrun
    intro s e s' ⟨hwhole, h⟩ hstep
    obtain ⟨t, view₀, hb⟩ := hwhole.borrowing h.begun
    exact ⟨step_whole hwhole hstep, h.keep hwhole.inv hwhole.sure hwhole.guest hb hstep⟩
  obtain ⟨hwhole', h'⟩ := hkept
  obtain ⟨t, view₀, hb⟩ := hwhole'.borrowing h'.begun
  exact ⟨h', h'.unreleased hwhole'.inv hb⟩

/-- The thread holds the guest mutex at this depth; the host mutex and its shadow agree. -/
def Owns (cfg : Config) (s : State) (t : ThreadId) (m : MutexBridge.Addr) (depth : Nat) : Prop :=
  ∃ o, s.bridge.object m = some o ∧ o.host.holder = some t ∧ o.host.count = depth ∧
    o.mutexOwner = cfg.platform.mutexCurrentOwner t ∧ o.mutexDepth = depth

/-- The release of a player: what holds in every state of its life. -/
structure ReleasedLast (cfg : Config) (s : State) : Prop where
  once : s.playersReleased ≤ 1
  last : 0 < s.playersReleased → Gone s
  outside : 0 < s.playersReleased → ∀ e s', step cfg s e = some s' → e.isOutside = true
  /-- A Destroy that was not left to the worker has released the player when it returns. -/
  returned : ∀ t, s.destroy = .returned t false → s.playersReleased = 1
  /-- One that was left to the worker returns first, and the worker releases the player at its
  end. -/
  deferred : ∀ t, s.destroy = .returned t true ∨ s.destroy = .past true →
    s.system.worker = .exited → s.playersReleased = 1

/-- The player is released last and once, and this is not held up for ever. -/
structure TornDown (cfg : Config) (s : State) : Prop extends ReleasedLast cfg s where
  progress : s.destroy ≠ .idle → Finished s ∨ HeldUp s ∨ Advances cfg s

theorem Inv.ended_count (h : Inv cfg s) (hended : Ended s) :
    s.playersReleased = s.destroy.releases := by
  rw [h.count, State.workerReleases, if_neg]
  · rfl
  · rw [hended.deferred]
    simp

theorem Inv.once (h : Inv cfg s) : s.playersReleased ≤ 1 := by
  have hcount := h.count
  have hworker : s.workerReleases ≤ 1 := by
    unfold State.workerReleases
    split <;> decide
  have hflow := h.flow
  have hended : ∀ {n}, Ended s → s.destroy.releases = n → n ≤ 1 → s.playersReleased ≤ 1 := by
    intro n he hn hle
    rw [h.ended_count he, hn]
    exact hle
  cases hpc : s.destroy with
  | returned t deferred =>
    rw [hpc] at hflow hcount
    cases deferred with
    | true =>
      simp only [DestroyPc.releases] at hcount
      omega
    | false => exact hended hflow (by rw [hpc]; rfl) (Nat.le_refl 1)
  | past deferred =>
    rw [hpc] at hflow hcount
    cases deferred with
    | true =>
      simp only [DestroyPc.releases] at hcount
      omega
    | false => exact hended hflow (by rw [hpc]; rfl) (Nat.le_refl 1)
  | _ =>
    rw [hpc] at hcount
    simp only [DestroyPc.releases] at hcount
    omega

theorem Whole.releasedLast (h : Whole cfg s) : ReleasedLast cfg s where
  once := h.inv.once
  last := h.inv.gone
  outside := fun hreleased _ _ hstep => (h.inv.gone hreleased).outside h.inv hstep
  returned := by
    intro t hpc
    have hflow := h.inv.flow
    rw [hpc] at hflow
    have hended : Ended s := hflow
    rw [h.inv.ended_count hended, hpc]
    rfl
  deferred := by
    intro t hpc hworker
    have hflow := h.inv.flow
    have hongoing : Ongoing s true true := by
      rcases hpc with hpc | hpc <;> rw [hpc] at hflow <;> exact hflow.1
    have hreleases : s.destroy.releases = 0 := by
      rcases hpc with hpc | hpc <;> rw [hpc] <;> rfl
    have hone : s.workerReleases = 1 := if_pos ⟨hworker, hongoing.deferred⟩
    rw [h.inv.count, hreleases, hone]

theorem Whole.tornDown (h : Whole cfg s) (hclear : ¬ CircularWait s) : TornDown cfg s where
  toReleasedLast := h.releasedLast
  progress := by
    intro hbegun
    obtain ⟨t, view₀, hb⟩ := h.borrowing hbegun
    exact (AudioTeardown.progress hb h.inv h.sure h.registered).imp_right
      fun h => h.imp_left fun hwaiting => ⟨hwaiting, hclear⟩

/-- Destroy has returned, so it does not wait. -/
theorem Whole.clear_of_returned (h : Whole cfg s) {deferred : Bool}
    (hpc : s.destroy = .returned t deferred) : ¬ CircularWait s := by
  intro hcircle
  obtain ⟨u, view₀, hb⟩ := h.borrowing hcircle.begun
  rcases (hcircle.destroy hb).2.2 with ⟨lent, hjoining⟩ | htaking
  · cases hpc.symm.trans hjoining
  · cases hpc.symm.trans htaking

/-- What the thread of Destroy held before, it holds when Destroy returns. -/
theorem owns_of_borrowing {s₀ : State} (hb : Borrowing cfg t (s₀.bridge.view t) s)
    {deferred : Bool} (hpc : s.destroy = .returned t deferred) {m : MutexBridge.Addr} {depth : Nat}
    (h : Owns cfg s₀ t m depth) : Owns cfg s t m depth := by
  obtain ⟨o, ho, hholder, hcount, howner, hdepth⟩ := h
  have hholding := hb.holding
  rw [hpc] at hholding
  obtain ⟨-, -, hkept⟩ := hholding
  have hview : s₀.bridge.view t m = some o := MutexBridge.State.view_eq_some.mpr ⟨ho, hholder⟩
  obtain ⟨o', ho', howner', hdepth', hcount'⟩ := hkept m o hview howner
  obtain ⟨hobject, hholder'⟩ := MutexBridge.State.view_eq_some.mp ho'
  exact ⟨o', hobject, hholder', hcount'.trans hcount, howner', hdepth'.trans hdepth⟩

/-- However Realize, Destroy, the worker, the audio callback and other threads interleave, the
player is released at most once and last, and the thread of Destroy gets back what it lent.
Unless Destroy waits in a circle, the release is nearer or held up by others; in a circle the
player is never released. -/
theorem player_torn_down (cfg : Config) {es : List Event} {s : State}
    (hrun : run (step cfg) initial es = some s) :
    ReleasedLast cfg s ∧ (¬ CircularWait s → TornDown cfg s) ∧
      (CircularWait s → ∀ fs u, run (step cfg) s fs = some u →
        CircularWait u ∧ u.playersReleased = 0) ∧
      ∀ t s₁ fs s₂ deferred, step cfg s (.destroy t) = some s₁ →
        run (step cfg) s₁ fs = some s₂ → s₂.destroy = .returned t deferred →
        TornDown cfg s₂ ∧ ∀ m depth, Owns cfg s t m depth → Owns cfg s₂ t m depth := by
  have h := run_whole cfg hrun
  refine ⟨h.releasedLast, h.tornDown, fun hcircle fs u hmore => hcircle.run h hmore, ?_⟩
  intro t s₁ fs s₂ deferred hdestroy hrest hpc
  have h₁ := step_whole h hdestroy
  have h₂ := h₁.run hrest
  have hb := run_borrowing (destroy_borrowing h.spare hdestroy) h₁.inv hrest
  refine ⟨h₂.tornDown (h₂.clear_of_returned hpc), fun m depth howns => ?_⟩
  exact owns_of_borrowing hb hpc howns

/-- The callback of the game is 5, and its context has the mutex 64 in its second word. -/
def lentConfig : Config := ⟨MutexBridge.smallPlatform, System.plainConfig, some 5, 0⟩

def accesses (t : ThreadId) (count : Nat) : List Event :=
  List.replicate count (.bridge (.act t 0 0))

/-- Thread 1 has locked the mutex while the worker, thread 9, is in the callback and waits for
it. -/
def lentEvents : List Event :=
  [.bridge (.spawn 1), .bridge (.init 64 .normal), .registerCallback (some 5) 50, .realize,
    .openNext true 0, .openNext true 0, .openNext true 9, .openNext true 0, .openNext true 0,
    .player .workerStart, .player (.setPlayState 1 .playing), .player .workerLock,
    .player .workerWake, .player .workerInvoke, .bridge (.call 1 .lock 64)] ++
  accesses 1 5 ++ [.bridge (.resume 1), .bridge (.call 9 .lock 64)] ++ accesses 9 1

/-- Destroy lends the mutex, the callback locks and unlocks it and returns, and the worker ends. -/
def returnEvents : List Event :=
  List.replicate 10 (.destroyNext 64 0 0) ++ accesses 9 4 ++
  [.bridge (.resume 9), .destroyNext 0 0 0, .bridge (.call 9 .unlock 64)] ++ accesses 9 6 ++
  [.bridge (.resume 9), .player .workerReturn, .player (.workerReport false), .player .workerLock,
    .workerExit, .workerExit] ++ List.replicate 7 (.destroyNext 0 0 0)

theorem lentRun :
    ((run (step lentConfig) initial lentEvents).bind fun s =>
      (step lentConfig s (.destroy 1)).bind fun s₁ =>
        (run (step lentConfig) s₁ returnEvents).map fun s₂ =>
          (s.bridge.object 64, s₂.destroy)) =
      some (some ⟨⟨.normal, some 1, 1⟩, 1, 1⟩, .returned 1 false) := by
  decide +kernel

theorem player_torn_down_lent :
    ∃ s s₁ s₂, run (step lentConfig) initial lentEvents = some s ∧
      step lentConfig s (.destroy 1) = some s₁ ∧
      run (step lentConfig) s₁ returnEvents = some s₂ ∧ TornDown lentConfig s₂ ∧
      s₂.playersReleased = 1 ∧ Owns lentConfig s 1 64 1 ∧ Owns lentConfig s₂ 1 64 1 := by
  obtain ⟨s, hs, hrest⟩ := Option.bind_eq_some_iff.mp lentRun
  obtain ⟨s₁, hs₁, hrest⟩ := Option.bind_eq_some_iff.mp hrest
  obtain ⟨s₂, hs₂, hend⟩ := Option.map_eq_some_iff.mp hrest
  obtain ⟨hobject, hpc⟩ := Prod.mk.inj hend
  have howns : Owns lentConfig s 1 64 1 := ⟨_, hobject, rfl, rfl, rfl, rfl⟩
  obtain ⟨-, -, -, hreturned⟩ := player_torn_down lentConfig hs
  obtain ⟨htorn, hkept⟩ := hreturned 1 s₁ returnEvents s₂ false hs₁ hs₂ hpc
  exact ⟨s, s₁, s₂, hs, hs₁, hs₂, htorn, htorn.returned 1 hpc, howns, hkept 64 1 howns⟩

/-- Thread 1 has locked a recursive mutex twice, the callback waits for it, and Destroy, which may
not hand it over at depth 2, joins the worker. -/
def deadlockEvents : List Event :=
  [.bridge (.spawn 1), .bridge (.init 64 .recursive), .registerCallback (some 5) 50, .realize,
    .openNext true 0, .openNext true 0, .openNext true 9, .openNext true 0, .openNext true 0,
    .player .workerStart, .player (.setPlayState 1 .playing), .player .workerLock,
    .player .workerWake, .player .workerInvoke, .bridge (.call 1 .lock 64)] ++
  accesses 1 5 ++ [.bridge (.resume 1), .bridge (.call 1 .lock 64)] ++ accesses 1 4 ++
  [.bridge (.resume 1), .bridge (.call 9 .lock 64)] ++ accesses 9 1 ++ [.destroy 1] ++
  List.replicate 6 (.destroyNext 64 0 0)

theorem deadlockRun :
    ((run (step lentConfig) initial deadlockEvents).map fun s =>
      ((s.destroy, s.callbackThread, decide (s.system.worker = .exited)),
        (s.workerThread, s.bridge.pc 9, s.bridge.object 64))) =
      some ((.joining 1 false, true, false), (9, .hostLock ⟨.lock, 64, false, 2⟩,
        some ⟨⟨.recursive, some 1, 2⟩, 1, 2⟩)) := by
  decide +kernel

theorem player_not_released :
    ∃ s, run (step lentConfig) initial deadlockEvents = some s ∧ s.destroy = .joining 1 false ∧
      Owns lentConfig s 1 64 2 ∧
      ∀ fs u, run (step lentConfig) s fs = some u → u.playersReleased = 0 := by
  obtain ⟨s, hs, hend⟩ := Option.map_eq_some_iff.mp deadlockRun
  simp only [Prod.mk.injEq, decide_eq_false_iff_not] at hend
  obtain ⟨⟨hpc, hcallback, hworker⟩, hthread, hlock, hobject⟩ := hend
  have hjoin : Awaits s 1 9 := .inr ⟨⟨false, hpc⟩, hcallback, hworker, hthread.symm⟩
  have hmutex : Awaits s 9 1 :=
    .inl ⟨⟨.lock, 64, false, 2⟩, _, by rw [hlock]; rfl, hobject, rfl, by simp⟩
  have hcircle : CircularWait s := ⟨1, by rw [hpc]; rfl, .head hjoin (.single hmutex)⟩
  refine ⟨s, hs, hpc, ⟨_, hobject, rfl, rfl, rfl, rfl⟩, fun fs u hmore => ?_⟩
  exact (hcircle.run (run_whole lentConfig hs) hmore).2

end Teardown

end Asm2Runtime.AudioTeardown
