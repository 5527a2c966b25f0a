import Asm2Runtime.AudioFence

/-!
# Fencing of callback generations

Every event is a move of the fence. With it, what a run leaves in its log after a
mark (SetPlayState(STOPPED), Clear, RegisterCallback or Destroy) stems from after
the mark.
-/

namespace Asm2Runtime.AudioPlayer

open Transition EventLog

namespace System

section Moves

variable {cfg : Config} {start : Option GuestFunction × Context} {s t : System}

theorem takeCompletion_eq (p : Player) : ∃ recovery served, p.takeCompletion =
    { p with
      pendingCallbacks := p.pendingCallbacks - 1
      pendingRecoveryCallbacks := recovery
      recoveryCallbacks := served } := by
  rw [Player.takeCompletion]
  split
  case isTrue => exact ⟨_, _, rfl⟩
  case isFalse => exact ⟨p.pendingRecoveryCallbacks, p.recoveryCallbacks, rfl⟩

theorem ready_outside (hw : s.worker = .top ∨ s.worker = .waiting) :
    s.control.worker.isBusy = false ∧ s.control.worker ≠ .start ∧ s.control.worker ≠ .exited := by
  have hcontrol : s.control.worker = s.worker := rfl
  rw [hcontrol]
  cases hw with
  | inl hw =>
    rw [hw]
    decide
  | inr hw =>
    rw [hw]
    decide

theorem takeSection_fence (h : Fence cfg start s.control s.log)
    (hw : s.worker = .top ∨ s.worker = .waiting)
    (hpending : s.player.shutdown = false → s.player.pendingCallbacks ≠ 0) :
    Fence cfg start s.takeSection.control s.takeSection.log := by
  obtain ⟨hfrom, hstart, hexit⟩ := ready_outside hw
  obtain ⟨recovery, served, htaken⟩ := takeCompletion_eq s.player
  simp only [takeSection, htaken]
  split
  case isTrue => exact h.idle hfrom hstart hexit rfl WorkerPc.noConfusion
  case isFalse hshutdown =>
    have hsome := hpending ((Bool.not_eq_true _).mp hshutdown)
    split
    case h_1 => exact h.drop hfrom hstart hexit hsome s.player.callbackContext
    case h_2 f hf => exact h.take hstart hexit hsome hf s.player.enqueueSerial

theorem waitOrTake_fence (h : Fence cfg start s.control s.log)
    (hw : s.worker = .top ∨ s.worker = .waiting) :
    Fence cfg start s.waitOrTake.control s.waitOrTake.log := by
  obtain ⟨hfrom, hstart, hexit⟩ := ready_outside hw
  rw [waitOrTake]
  split
  case isTrue => exact h.idle hfrom hstart hexit rfl WorkerPc.noConfusion
  case isFalse hready =>
    apply takeSection_fence h hw
    intro hshutdown hzero
    simp [hshutdown, hzero] at hready

theorem poll_fence (h : Fence cfg start s.control s.log) :
    Fence cfg start s.poll.control s.poll.log := by
  rw [poll]
  split
  case isTrue hready =>
    simp only [Player.requestRecovery, hready, if_true]
    apply h.passive (n := 1) rfl
    · intro data heq
      cases heq
    · exact Nat.le_add_left _ _
  case isFalse => exact h

theorem audio_fence (h : Fence cfg start s.control s.log) (hsound : s.Sound cfg) {length : Nat}
    (ht : s.audio length = some t) : Fence cfg start t.control t.log := by
  rw [audio] at ht
  split at ht
  case isFalse => cases ht
  case isTrue =>
    obtain ⟨result, hresult, rfl⟩ := Option.map_eq_some_iff.1 ht
    cases hactive : s.player.isActive with
    | false =>
      simp only [Player.sdlAudioCallback, hactive] at hresult
      obtain rfl := Option.some.inj hresult
      apply h.passive rfl
      · intro data heq
        cases heq
      · exact Nat.le_add_right _ _
    | true =>
      obtain ⟨queue, free, hinv⟩ := hsound
      obtain ⟨c, queue', free', bytes, hcopied, _, rfl⟩ :=
        Player.sdlAudioCallback_active hinv.shape hinv.filled hactive hresult
      have hpending := hcopied.pending
      have hshorter := hcopied.shorter
      have hcompleted := hcopied.completed
      have hcontrol : ∀ o, (s.record (c.player.countUnderrun c.remaining) o).control =
          { s.control with pending := c.player.pendingCallbacks } := by
        intro o
        rw [Player.countUnderrun, hcopied.frame]
        split <;> rfl
      have hcount : (c.player.countUnderrun c.remaining).completedBuffers =
          c.player.completedBuffers :=
        congrArg Player.AudioPart.completedBuffers (Player.countUnderrun_audioPart _ _)
      rw [hcontrol]
      apply h.passive rfl
      · intro data heq
        cases heq
      · simp only [Obs.arrivals, hcount, control]
        omega

theorem poll_worker (s : System) : s.poll.worker = s.worker := by
  rw [poll]
  split <;> rfl

theorem bump_fence (h : Fence cfg start s.control s.log) {p : Player} {o : Obs}
    (ho : o.isBump = true) {r : Option GuestFunction × Context}
    (hr : registrationPost (s.player.callback, s.player.callbackContext) o = r)
    (hp : (s.record p o).control = { s.control with
      generation := s.player.callbackGeneration + 1
      pending := 0
      callback := r.1
      context := r.2 }) : Fence cfg start (s.record p o).control (s.record p o).log := by
  rw [hp]
  exact h.bump ho hr

theorem setPlayState_fence (h : Fence cfg start s.control s.log) (state : PlayState) :
    Fence cfg start (s.record (s.player.setPlayState state) (.stateSet state)).control
      (s.record (s.player.setPlayState state) (.stateSet state)).log := by
  cases state with
  | stopped => exact bump_fence h rfl rfl rfl
  | paused => exact h.passive rfl (fun data heq => by cases heq) (Nat.le_add_right _ _)
  | playing => exact h.passive rfl (fun data heq => by cases heq) (Nat.le_add_right _ _)

/-- The calls of the worker thread run inside a callback. -/
def Inside (cfg : Config) (s : System) : Prop :=
  ∀ r ∈ s.running, r.thread = cfg.workerThread → inCallback s.worker = true

/-- A call of the worker thread that is not stale belongs to a callback of this generation. -/
theorem accepted_fresh (h : Fence cfg start s.control s.log) (hinside : s.Inside cfg)
    {r : Running} (hr : r ∈ s.running) (hthread : r.thread = cfg.workerThread)
    (hclear : s.player.refuses cfg.capacity r.thread = false) (hbound : Bounded s.log) :
    flight s.log = some 0 := by
  have hin := hinside r hr hthread
  obtain ⟨f, d, n, hw⟩ := (inCallback_iff s.worker).1 hin
  have hcontrol : s.control.worker = .inCallback f d n := hw
  have hflying := h.flying
  have hbusy : s.player.callbackInFlight = s.control.worker.isBusy := h.busy
  have hid : s.player.callbackThreadId =
      if s.control.worker = .start then none else some cfg.workerThread := h.thread
  rw [hcontrol] at hflying hbusy hid
  obtain ⟨k, hk⟩ := Option.isSome_iff_exists.1 hflying
  have hgeneration : s.player.callbackGeneration =
      s.player.inFlightGeneration + UInt32.ofNat k := h.generation k hk
  have hsame : s.player.inFlightGeneration = s.player.callbackGeneration := by
    simp only [Player.refuses, Bool.or_eq_false_iff] at hclear
    have hstale := hclear.1.2
    simpa [Player.stale, hbusy, hid, hthread, WorkerPc.isBusy] using hstale
  have hzero : UInt32.ofNat k = 0 := by
    rw [hsame] at hgeneration
    exact (UInt32.add_eq_left).1 hgeneration.symm
  have hlt := hbound.flight_lt hk
  have hmod : k % 2 ^ 32 = 0 := by
    have hnat := congrArg UInt32.toNat hzero
    simpa using hnat
  rw [hk]
  congr 1
  omega

theorem move_fence {e : Event} (h : Fence cfg start s.control s.log) (hinside : s.Inside cfg)
    (hmove : CallMove cfg s t e) : Fence cfg start t.control t.log := by
  cases hmove with
  | reject u result hrunning hlog hcontrol _ =>
    rw [hcontrol, hlog]
    exact h.passive rfl (fun data heq => by cases heq) (Nat.le_add_right _ _)
  | begin u data stage hevent hmay hrunning hlog hcontrol _ =>
    rw [hcontrol, hlog]
    exact h
  | prepare r stage hcall hrunning hlog hcontrol _ =>
    rw [hcontrol, hlog]
    exact h
  | refuse r result hcall hrunning hlog hcontrol _ =>
    rw [hcontrol, hlog]
    exact h.passive rfl (fun data heq => by cases heq) (Nat.le_add_right _ _)
  | accept r hcall hclear hrunning hlog hcontrol _ =>
    rw [hcontrol, hlog]
    have hr : r ∈ s.running := (running_perm hcall).1.mem_iff.2 (by simp)
    apply h.passive rfl
    · intro data heq hbound
      simp only [Obs.enqueued.injEq] at heq
      exact accepted_fresh h hinside hr heq.1 hclear hbound
    · exact Nat.le_add_right _ _

theorem CallMove.worker_eq {e : Event} (h : CallMove cfg s t e) : t.worker = s.worker := by
  have hcontrol : t.control = s.control := by
    cases h <;> assumption
  exact congrArg Control.worker hcontrol

/-- The worker leaves a callback only when its thread makes no call. -/
theorem step_worker {e : Event} (ht : s.step cfg e = some t) (hin : inCallback s.worker = true) :
    inCallback t.worker = true ∨ s.callOf cfg.workerThread = none := by
  cases e with
  | enqueueBegin u data =>
    rw [(enqueueBegin_move ht).worker_eq]
    exact Or.inl hin
  | enqueuePrepare u fresh block =>
    have hmove : CallMove cfg s t (.enqueuePrepare u fresh block) := enqueuePrepare_move ht
    rw [hmove.worker_eq]
    exact Or.inl hin
  | enqueueEnd u =>
    have hmove : CallMove cfg s t (.enqueueEnd u) := enqueueEnd_move ht
    rw [hmove.worker_eq]
    exact Or.inl hin
  | audio length =>
    simp only [step, audio, Option.ite_none_right_eq_some, Option.map_eq_some_iff] at ht
    obtain ⟨_, result, _, rfl⟩ := ht
    exact Or.inl hin
  | clear u =>
    simp only [step, Option.ite_none_right_eq_some, Option.map_eq_some_iff] at ht
    obtain ⟨_, result, _, rfl⟩ := ht
    exact Or.inl hin
  | setPlayState u state =>
    simp only [step, Option.ite_none_right_eq_some, Option.some.injEq] at ht
    rw [← ht.2]
    exact Or.inl hin
  | registerCallback u callback context =>
    simp only [step, Option.ite_none_right_eq_some, Option.some.injEq] at ht
    rw [← ht.2]
    exact Or.inl hin
  | destroyBegin u =>
    simp only [step, Option.ite_none_right_eq_some, Option.some.injEq] at ht
    rw [← ht.2]
    exact Or.inl hin
  | destroyClose =>
    simp only [step] at ht
    split at ht
    case h_1 =>
      obtain rfl := Option.some.inj ht
      exact Or.inl hin
    case h_2 => cases ht
  | destroyEnd =>
    simp only [step, destroyEnd] at ht
    split at ht
    case h_1 =>
      obtain rfl := Option.some.inj ht
      exact Or.inl hin
    case h_2 =>
      simp only [Option.ite_none_right_eq_some, Option.some.injEq] at ht
      rw [← ht.2]
      exact Or.inl hin
    case h_3 => cases ht
  | workerReturn =>
    simp only [step] at ht
    split at ht
    case h_1 =>
      simp only [Option.ite_none_right_eq_some] at ht
      exact Or.inr ht.1.1
    case h_2 => cases ht
  | workerStart =>
    simp only [step, Option.ite_none_right_eq_some] at ht
    rw [ht.1] at hin
    cases hin
  | workerLock =>
    simp only [step, Option.ite_none_right_eq_some] at ht
    rw [ht.1] at hin
    cases hin
  | workerWake =>
    simp only [step, Option.ite_none_right_eq_some] at ht
    rw [ht.1] at hin
    cases hin
  | workerReport due =>
    simp only [step, Option.ite_none_right_eq_some] at ht
    rw [ht.1] at hin
    cases hin
  | workerInvoke =>
    simp only [step] at ht
    split at ht
    case h_1 hw =>
      rw [hw] at hin
      cases hin
    case h_2 => cases ht
  | workerExit =>
    simp only [step, workerExit] at ht
    split at ht
    case h_1 hw =>
      rw [hw] at hin
      cases hin
    case h_2 => cases ht

theorem step_inside {e : Event} (h : s.Inside cfg) (ht : s.step cfg e = some t) :
    t.Inside cfg := by
  cases step_move ht with
  | inr hidle =>
    obtain ⟨_, hrunning, _, _⟩ := hidle
    intro r hr hthread
    rw [hrunning] at hr
    cases step_worker ht (h r hr hthread) with
    | inl hin => exact hin
    | inr hnone =>
      have hother := List.find?_eq_none.1 hnone r hr
      simp [hthread] at hother
  | inl hmove =>
    have hworker := hmove.worker_eq
    intro r hr hthread
    rw [hworker]
    cases hmove with
    | reject u result hrunning _ _ _ =>
      rw [hrunning] at hr
      exact h r hr hthread
    | begin u data stage _ hmay hrunning _ _ _ =>
      rw [hrunning] at hr
      cases List.mem_cons.1 hr with
      | inl heq =>
        subst heq
        exact (inCallback_iff s.worker).2 (hmay.2.2.2 hthread)
      | inr hr => exact h r hr hthread
    | prepare q stage hcall hrunning _ _ _ =>
      have hperm := (running_perm hcall).1
      rw [hrunning] at hr
      cases List.mem_cons.1 hr with
      | inl heq =>
        subst heq
        exact h q (hperm.mem_iff.2 (by simp)) hthread
      | inr hr => exact h r (hperm.mem_iff.2 (List.mem_cons_of_mem q hr)) hthread
    | refuse q result hcall hrunning _ _ _ =>
      rw [hrunning] at hr
      exact h r ((running_perm hcall).1.mem_iff.2 (List.mem_cons_of_mem q hr)) hthread
    | accept q hcall _ hrunning _ _ _ =>
      rw [hrunning] at hr
      exact h r ((running_perm hcall).1.mem_iff.2 (List.mem_cons_of_mem q hr)) hthread

theorem destroyBegin_fence (h : Fence cfg start s.control s.log) {u : ThreadId}
    (hmay : s.MayCall cfg u) (hd : s.destroyer = .none) :
    Fence cfg start
      ({ s.record (s.player.beginDestroy u) .destroyed with
        destroyer := .locked u (s.player.callbackThreadId == some u) } : System).control
      (s.log ++ [.destroyed]) := by
  have hbump := h.bump (o := .destroyed) rfl rfl
  have hlock := hbump.lock hd (u := u) (by
    intro hu hstart
    obtain ⟨f, d, n, hw⟩ := hmay.2.2.2 hu
    have hworker : s.worker = .start := hstart
    rw [hw] at hworker
    cases hworker)
  exact hlock

theorem destroyEnd_fence (h : Fence cfg start s.control s.log) (ht : s.destroyEnd = some t) :
    Fence cfg start t.control t.log := by
  rw [destroyEnd] at ht
  split at ht
  case h_1 u hd =>
    obtain rfl := Option.some.inj ht
    exact h.leave hd fun hfalse => by cases hfalse
  case h_2 u hd =>
    simp only [Option.ite_none_right_eq_some, Option.some.injEq] at ht
    obtain ⟨hjoined, rfl⟩ := ht
    have hreleased := h.passive (o := .released) (n := s.player.pendingCallbacks) rfl
      (fun data heq => by cases heq) (Nat.le_add_right _ _)
    have hleave := hreleased.leave hd fun _ => hjoined
    rw [List.append_assoc] at hleave
    exact hleave
  case h_3 => cases ht

theorem workerExit_fence (h : Fence cfg start s.control s.log) (ht : s.workerExit = some t) :
    Fence cfg start t.control t.log := by
  rw [workerExit] at ht
  split at ht
  case h_2 => cases ht
  case h_1 hw =>
    have hworker : s.control.worker = .leaving := hw
    have hexited := h.idle (p := .exited) (by rw [hworker]; rfl) (by rw [hworker]; decide)
      (by rw [hworker]; decide) rfl WorkerPc.noConfusion
    split at ht
    case isFalse =>
      obtain rfl := Option.some.inj ht
      exact hexited
    case isTrue =>
      simp only [Option.ite_none_right_eq_some, Option.some.injEq] at ht
      rw [← ht.2]
      exact hexited.passive rfl (fun data heq => by cases heq) (Nat.le_add_right _ _)

/-- No step lets a request of an old generation be served. -/
theorem step_fence {e : Event} (h : Fence cfg start s.control s.log) (hinside : s.Inside cfg)
    (hsound : s.Sound cfg) (ht : s.step cfg e = some t) : Fence cfg start t.control t.log := by
  cases e with
  | enqueueBegin u data => exact move_fence h hinside (enqueueBegin_move ht)
  | enqueuePrepare u fresh block =>
    exact move_fence (e := .enqueuePrepare u fresh block) h hinside (enqueuePrepare_move ht)
  | enqueueEnd u => exact move_fence (e := .enqueueEnd u) h hinside (enqueueEnd_move ht)
  | audio length => exact audio_fence h hsound ht
  | setPlayState u state =>
    simp only [step, Option.ite_none_right_eq_some, Option.some.injEq] at ht
    rw [← ht.2]
    exact setPlayState_fence h state
  | clear u =>
    simp only [step, Option.ite_none_right_eq_some, Option.map_eq_some_iff] at ht
    obtain ⟨_, result, hresult, rfl⟩ := ht
    obtain ⟨Q, hrestart, _⟩ := bufferClear_eq hresult
    rw [hrestart]
    exact bump_fence h rfl rfl rfl
  | registerCallback u callback context =>
    simp only [step, Option.ite_none_right_eq_some, Option.some.injEq] at ht
    rw [← ht.2]
    exact bump_fence h rfl rfl rfl
  | destroyBegin u =>
    simp only [step, Option.ite_none_right_eq_some, Option.some.injEq] at ht
    obtain ⟨⟨hmay, hd⟩, rfl⟩ := ht
    exact destroyBegin_fence h hmay hd
  | destroyClose =>
    simp only [step] at ht
    split at ht
    case h_1 hd =>
      obtain rfl := Option.some.inj ht
      exact h.close hd
    case h_2 => cases ht
  | destroyEnd => exact destroyEnd_fence h ht
  | workerStart =>
    simp only [step, Option.ite_none_right_eq_some, Option.some.injEq] at ht
    obtain ⟨hw, rfl⟩ := ht
    exact h.begin hw
  | workerLock =>
    simp only [step, Option.ite_none_right_eq_some, Option.some.injEq] at ht
    rw [← ht.2]
    exact waitOrTake_fence h (Or.inl ht.1)
  | workerWake =>
    simp only [step, Option.ite_none_right_eq_some, Option.some.injEq] at ht
    rw [← ht.2]
    exact waitOrTake_fence (poll_fence h) (Or.inr ((poll_worker s).trans ht.1))
  | workerInvoke =>
    simp only [step] at ht
    split at ht
    case h_1 f c n hw =>
      obtain rfl := Option.some.inj ht
      exact h.invoke hw
    case h_2 => cases ht
  | workerReturn =>
    simp only [step] at ht
    split at ht
    case h_1 hw =>
      simp only [Option.ite_none_right_eq_some, Option.some.injEq] at ht
      rw [← ht.2]
      exact h.finish hw
    case h_2 => cases ht
  | workerReport due =>
    simp only [step, Option.ite_none_right_eq_some, Option.some.injEq] at ht
    rw [← ht.2]
    have hworker : s.control.worker = .reporting := ht.1
    have hidle := h.idle (p := .top) (by rw [hworker]; rfl) (by rw [hworker]; decide)
      (by rw [hworker]; decide) rfl WorkerPc.noConfusion
    cases due with
    | true => exact hidle
    | false => exact hidle
  | workerExit => exact workerExit_fence h ht

end Moves

section Runs

variable {cfg : Config} {start : Option GuestFunction × Context} {s t : System}

/-- What holds in every reachable state. -/
structure Fenced (cfg : Config) (start : Option GuestFunction × Context) (s : System) : Prop where
  sound : s.Sound cfg
  inside : s.Inside cfg
  fence : Fence cfg start s.control s.log

theorem step_fenced {e : Event} (h : s.Fenced cfg start) (ht : s.step cfg e = some t) :
    t.Fenced cfg start :=
  ⟨step_sound h.sound ht, step_inside h.inside ht, step_fence h.fence h.inside h.sound ht⟩

/-- The fences stand after every run. -/
theorem run_fenced {callback : Option GuestFunction} {context : Context} {generation : UInt32}
    {es : List Event}
    (hrun : run (step cfg) (initial callback context generation) es = some s) :
    s.Fenced cfg (callback, context) := by
  have hinitial : (initial callback context generation).Fenced cfg (callback, context) := by
    constructor
    · exact ⟨[], [], Inv.initial cfg callback context generation⟩
    · intro r hr
      cases hr
    · exact Fence.initial cfg callback context generation
  exact run_invariant (fun _ _ _ h ht => step_fenced h ht) hinitial hrun

end Runs

section Marks

variable {log before after : List Obs} {o : Obs}

/-- No generation has passed only if the callback was dequeued after the last mark. -/
theorem flight_zero_dequeued (ho : o.isBump = true)
    (h : flight (before ++ o :: after) = some 0) : ∃ f c, .dequeued (some f) c ∈ after := by
  induction after using List.reverseRecOn with
  | nil =>
    rw [flight_snoc, flightPost_bump _ ho] at h
    obtain ⟨n, _, hn⟩ := Option.map_eq_some_iff.1 h
    cases hn
  | append_singleton after p ih =>
    have hassoc : before ++ o :: (after ++ [p]) = (before ++ o :: after) ++ [p] := by simp
    rw [hassoc, flight_snoc] at h
    obtain hnone | ⟨_, f, c, rfl⟩ | hsame | hsucc :=
      flightPost_cases (flight (before ++ o :: after)) p
    · rw [hnone] at h
      cases h
    · exact ⟨f, c, by simp⟩
    · rw [hsame] at h
      obtain ⟨f, c, hm⟩ := ih h
      exact ⟨f, c, List.mem_append_left _ hm⟩
    · rw [hsucc] at h
      obtain ⟨n, _, hn⟩ := Option.map_eq_some_iff.1 h
      cases hn

end Marks

section Fencing

/-- What the log of a run says about the marks in it. -/
structure Fencing (cfg : Config) (start : Option GuestFunction × Context) (s : System) : Prop where
  /-- A call of the worker thread accepted after a mark belongs to a callback dequeued after it. -/
  enqueued : ∀ before o between data after,
    s.log = before ++ o :: (between ++ .enqueued cfg.workerThread data :: after) →
      o.isBump = true → ∃ f c, .dequeued (some f) c ∈ between
  /-- The completions pending at a mark are gone: no more are taken than arrive after it. -/
  taken : ∀ before o after, s.log = before ++ o :: after → o.isBump = true →
    taken after ≤ arrivals after
  /-- A callback is invoked once for the completion taken last, with the pair registered then. -/
  invoked : ∀ before f c after, s.log = before ++ .invoked f c :: after →
    ∃ early late, before = early ++ .dequeued (some f) c :: late ∧
      registration start early = (some f, c) ∧ (∀ g d, .dequeued g d ∉ late) ∧
      ∀ g d, .invoked g d ∉ late
  /-- Once Destroy has returned to another thread, the worker is gone. -/
  joined : ∀ u d, s.destroyer = .returned u d → u ≠ cfg.workerThread → s.worker = .exited
  silent : ∀ before u after, s.log = before ++ .destroyReturned u :: after →
    u ≠ cfg.workerThread → ∀ f c, .invoked f c ∉ after

theorem generation_fencing (cfg : Config) (callback : Option GuestFunction) (context : Context)
    (generation : UInt32) {es : List Event} {s : System}
    (hrun : run (step cfg) (initial callback context generation) es = some s)
    (hbound : Bounded s.log) : Fencing cfg (callback, context) s := by
  have hfenced := (run_fenced hrun).fence
  constructor
  · intro before o between data after hlog ho
    have hsplit : s.log =
        (before ++ o :: between) ++ .enqueued cfg.workerThread data :: after := by
      rw [hlog]
      simp
    have hzero := hfenced.history.accepted hbound _ _ _ hsplit data rfl
    exact flight_zero_dequeued ho hzero
  · intro before o after hlog ho
    have hcredit := hfenced.credit before o after hlog ho
    omega
  · intro before f c after hlog
    exact hfenced.history.invoked before _ after hlog f c rfl
  · exact hfenced.joined
  · intro before u after hlog hu
    exact hfenced.history.silent before _ after hlog ⟨u, hu, rfl⟩

/-- A callback is overtaken by a registration while it calls Enqueue; then another thread destroys
the player. -/
def fencedEvents : List Event :=
  [.workerStart, .setPlayState 1 .playing, .enqueueBegin 1 [1, 2, 3, 4],
    .enqueuePrepare 1 (some 100) (some fun _ => 0), .enqueueEnd 1, .audio 4, .workerLock,
    .workerInvoke, .enqueueBegin 9 [5, 6], .registerCallback 1 (some 6) 60,
    .enqueuePrepare 9 none none, .enqueueEnd 9, .workerReturn, .workerReport false,
    .destroyBegin 1, .workerLock, .workerExit, .destroyClose, .destroyEnd]

theorem fencedLog_length :
    (run (step plainConfig) (initial (some 5) 50 0) fencedEvents).map (fun s => s.log.length) =
      some 11 := by
  decide +kernel

theorem generation_fencing_plain :
    ∃ s, run (step plainConfig) (initial (some 5) 50 0) fencedEvents = some s ∧
      Fencing plainConfig (some 5, 50) s := by
  obtain ⟨s, hs, hlength⟩ := Option.map_eq_some_iff.1 fencedLog_length
  have hshort : s.log.length < 2 ^ 32 := by omega
  exact ⟨s, hs, generation_fencing plainConfig (some 5) 50 0 hs (bounded_of_length hshort)⟩

end Fencing

end System

end Asm2Runtime.AudioPlayer
