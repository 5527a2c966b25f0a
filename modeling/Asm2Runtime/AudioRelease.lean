import Asm2Runtime.AudioTeardown

/-!
# A player is released once

Destroy and the worker each have a place where they release the player. The flags that
Destroy leaves under the mutex decide which of the two gets there, and neither gets there
before the worker has ended its loop and the device is closed.
-/

namespace Asm2Runtime.AudioTeardown

open AudioPlayer AudioPlayer.System Transition

section Calm

/-- What Destroy tells the worker, and the handle of the device. -/
structure Flags where
  shutdown : Bool
  destroyOnWorkerExit : Bool
  destroyResourcesClosed : Bool
  device : Bool

def flags (p : Player) : Flags :=
  ⟨p.shutdown, p.destroyOnWorkerExit, p.destroyResourcesClosed, p.device⟩

/-- The worker stays in its loop, or leaves it after a shutdown. -/
def Loops (s s' : System) : Prop :=
  s'.worker = s.worker ∨
    s.worker ≠ .leaving ∧ s.worker ≠ .exited ∧ s'.worker ≠ .exited ∧
      (s'.worker = .leaving → s.player.shutdown = true)

/-- The coarser Destroy of a system does not take place here. -/
def aside (s : System) : AudioPlayer.DestroyPc × Bool := (s.destroyer, s.released)

/-- What calls, audio sections and the loop of the worker leave alone. -/
structure Calm (s s' : System) : Prop where
  worker : Loops s s'
  flags : flags s'.player = flags s.player
  aside : aside s' = aside s

variable {cfg : AudioPlayer.Config} {s s' : System} {t : ThreadId}

theorem calm_of_move {e : AudioPlayer.Event} (hmove : CallMove cfg s s' e)
    (h : flags s'.player = flags s.player ∧ aside s' = aside s) : Calm s s' :=
  ⟨.inl hmove.worker_eq, h.1, h.2⟩

/-- What one turn of the copy loop keeps, the loop keeps. -/
theorem copyLoop_keeps {α : Type} {f : Player → α}
    (hf : ∀ c a, f (Player.copyBuffer c a).player = f c.player) {fuel : Nat}
    {c c' : Player.Copying} (h : Player.copyLoop fuel c = some c') : f c'.player = f c.player := by
  induction fuel generalizing c with
  | zero => cases h
  | succ fuel ih =>
    rw [Player.copyLoop] at h
    split at h
    · obtain rfl := Option.some.inj h
      rfl
    · rename_i a _
      split at h
      · obtain rfl := Option.some.inj h
        rfl
      · exact (ih h).trans (hf c a)

theorem copyBuffer_flags (c : Player.Copying) (a : Addr) :
    flags (Player.copyBuffer c a).player = flags c.player := by
  simp only [Player.copyBuffer]
  split <;> split <;> rfl

theorem countUnderrun_flags (p : Player) (remaining : Nat) :
    flags (p.countUnderrun remaining) = flags p := by
  simp only [Player.countUnderrun]
  split <;> rfl

theorem audio_calm {length : Nat} (h : s.audio length = some s') : Calm s s' := by
  simp only [System.audio, Option.ite_none_right_eq_some, Option.map_eq_some_iff] at h
  obtain ⟨-, r, hr, rfl⟩ := h
  refine ⟨.inl rfl, ?_, rfl⟩
  simp only [Player.sdlAudioCallback] at hr
  split at hr
  · obtain ⟨c, hc, rfl⟩ := Option.map_eq_some_iff.mp hr
    exact (countUnderrun_flags c.player c.remaining).trans (copyLoop_keeps copyBuffer_flags hc)
  · obtain rfl := Option.some.inj hr
    rfl

theorem enqueueBegin_calm {data : List UInt8} (h : s.enqueueBegin cfg t data = some s') :
    Calm s s' := by
  refine calm_of_move (enqueueBegin_move h) ?_
  rw [System.enqueueBegin] at h
  split at h
  · split at h
    · obtain rfl := Option.some.inj h
      exact ⟨rfl, rfl⟩
    · split at h
      · obtain rfl := Option.some.inj h
        exact ⟨rfl, rfl⟩
      · split at h
        · split at h <;> obtain rfl := Option.some.inj h <;> exact ⟨rfl, rfl⟩
        · cases h
  · cases h

theorem prepareBuffer_calm (s : System) (r : Running) (a : Addr) (block : Option (Nat → UInt8)) :
    flags (s.prepareBuffer r a block).player = flags s.player ∧
      aside (s.prepareBuffer r a block) = aside s := by
  simp only [System.prepareBuffer]
  split
  · split <;> exact ⟨rfl, rfl⟩
  · exact ⟨rfl, rfl⟩

theorem enqueuePrepare_calm (cfg : AudioPlayer.Config) {fresh : Option Addr}
    {block : Option (Nat → UInt8)} (h : s.enqueuePrepare t fresh block = some s') :
    Calm s s' := by
  have hmove : CallMove cfg s s' (.enqueuePrepare t fresh block) := enqueuePrepare_move h
  refine calm_of_move hmove ?_
  rw [System.enqueuePrepare] at h
  split at h
  · cases h
  · split at h
    · split at h
      · obtain rfl := Option.some.inj h
        exact prepareBuffer_calm s _ _ block
      · split at h
        · obtain rfl := Option.some.inj h
          exact ⟨rfl, rfl⟩
        · split at h
          · cases h
          · obtain rfl := Option.some.inj h
            exact prepareBuffer_calm _ _ _ block
      · cases h
    · cases h

theorem enqueueEnd_calm (h : s.enqueueEnd cfg t = some s') : Calm s s' := by
  have hmove : CallMove cfg s s' (.enqueueEnd t) := enqueueEnd_move h
  refine calm_of_move hmove ?_
  rw [System.enqueueEnd] at h
  split at h
  · cases h
  · split at h
    · split at h
      · obtain rfl := Option.some.inj h
        exact ⟨rfl, rfl⟩
      · split at h <;> obtain rfl := Option.some.inj h <;> exact ⟨rfl, rfl⟩
      · cases h
    · cases h

theorem takeCompletion_flags (p : Player) : flags p.takeCompletion = flags p := by
  simp only [Player.takeCompletion]
  split <;> rfl

/-- The worker is in its loop and has not been told to leave it. -/
theorem takeSection_calm (hleaving : s.worker ≠ .leaving) (hexited : s.worker ≠ .exited) :
    Calm s s.takeSection := by
  have hloops : ∀ {u : System}, u.worker ≠ .exited →
      (u.worker = .leaving → s.player.shutdown = true) → Loops s u :=
    fun hu hl => .inr ⟨hleaving, hexited, hu, hl⟩
  simp only [System.takeSection]
  split
  · rename_i hshutdown
    exact ⟨hloops (by simp) fun _ => hshutdown, rfl, rfl⟩
  · split
    · exact ⟨hloops (by simp) (by simp), takeCompletion_flags s.player, rfl⟩
    · exact ⟨hloops (by simp) (by simp), takeCompletion_flags s.player, rfl⟩

theorem waitOrTake_calm (hleaving : s.worker ≠ .leaving) (hexited : s.worker ≠ .exited) :
    Calm s s.waitOrTake := by
  simp only [System.waitOrTake]
  split
  · exact ⟨.inr ⟨hleaving, hexited, by simp, by simp⟩, rfl, rfl⟩
  · exact takeSection_calm hleaving hexited

theorem poll_flags (s : System) : flags s.poll.player = flags s.player := by
  simp only [System.poll]
  split
  · simp only [System.record, Player.requestRecovery]
    split <;> rfl
  · rfl

theorem poll_aside (s : System) : aside s.poll = aside s := by
  simp only [System.poll]
  split <;> rfl

theorem workerWake_calm (hw : s.worker = .waiting) : Calm s s.poll.waitOrTake := by
  have hpoll : s.poll.worker = s.worker := poll_worker s
  have hcalm : Calm s.poll s.poll.waitOrTake :=
    waitOrTake_calm (by rw [hpoll, hw]; simp) (by rw [hpoll, hw]; simp)
  have hshutdown : s.poll.player.shutdown = s.player.shutdown :=
    congrArg Flags.shutdown (poll_flags s)
  have hloops := hcalm.worker
  rw [Loops, hpoll, hshutdown] at hloops
  exact ⟨hloops, hcalm.flags.trans (poll_flags s), hcalm.aside.trans (poll_aside s)⟩

theorem clear_flags {fuel : Nat} {p : Player} {r : Player × Nat} (h : p.bufferClear fuel = some r) :
    flags r.1 = flags p := by
  obtain ⟨q, -, rfl⟩ := Option.map_eq_some_iff.mp h
  rfl

/-- All events of the player that are steps of its life. -/
theorem step_calm {T : State} {e : AudioPlayer.Event} (hallows : T.allows e = true)
    (h : s.step cfg e = some s') : Calm s s' := by
  cases e with
  | audio | destroyBegin | destroyClose | destroyEnd | workerExit => cases hallows
  | enqueueBegin u data => exact enqueueBegin_calm h
  | enqueuePrepare u fresh block => exact enqueuePrepare_calm cfg h
  | enqueueEnd u => exact enqueueEnd_calm h
  | setPlayState u state =>
    simp only [System.step, Option.ite_none_right_eq_some, Option.some.injEq] at h
    obtain ⟨-, rfl⟩ := h
    refine ⟨.inl rfl, ?_, rfl⟩
    simp only [System.record, Player.setPlayState]
    split <;> rfl
  | clear u =>
    simp only [System.step, Option.ite_none_right_eq_some, Option.map_eq_some_iff] at h
    obtain ⟨-, r, hr, rfl⟩ := h
    exact ⟨.inl rfl, clear_flags hr, rfl⟩
  | registerCallback u callback context =>
    simp only [System.step, Option.ite_none_right_eq_some, Option.some.injEq] at h
    obtain ⟨-, rfl⟩ := h
    exact ⟨.inl rfl, rfl, rfl⟩
  | workerStart =>
    simp only [System.step, Option.ite_none_right_eq_some, Option.some.injEq] at h
    obtain ⟨hw, rfl⟩ := h
    exact ⟨.inr ⟨by rw [hw]; simp, by rw [hw]; simp, by simp, by simp⟩, rfl, rfl⟩
  | workerLock =>
    simp only [System.step, Option.ite_none_right_eq_some, Option.some.injEq] at h
    obtain ⟨hw, rfl⟩ := h
    exact waitOrTake_calm (by rw [hw]; simp) (by rw [hw]; simp)
  | workerWake =>
    simp only [System.step, Option.ite_none_right_eq_some, Option.some.injEq] at h
    obtain ⟨hw, rfl⟩ := h
    exact workerWake_calm hw
  | workerInvoke =>
    simp only [System.step] at h
    split at h
    · rename_i f c n hw
      obtain rfl := Option.some.inj h
      exact ⟨.inr ⟨by rw [hw]; simp, by rw [hw]; simp, by simp, by simp⟩, rfl, rfl⟩
    · cases h
  | workerReturn =>
    simp only [System.step] at h
    split at h
    · rename_i f c n hw
      simp only [Option.ite_none_right_eq_some, Option.some.injEq] at h
      obtain ⟨-, rfl⟩ := h
      exact ⟨.inr ⟨by rw [hw]; simp, by rw [hw]; simp, by simp, by simp⟩, rfl, rfl⟩
    · cases h
  | workerReport due =>
    simp only [System.step, Option.ite_none_right_eq_some, Option.some.injEq] at h
    obtain ⟨hw, rfl⟩ := h
    refine ⟨.inr ⟨by rw [hw]; simp, by rw [hw]; simp, by simp, by simp⟩, ?_, rfl⟩
    cases due <;> rfl

/-- A call that runs afterwards ran before, or it is the one that the event begins. -/
theorem step_running {e : AudioPlayer.Event} (h : s.step cfg e = some s') {r : Running}
    (hr : r ∈ s'.running) :
    (∃ q ∈ s.running, q.thread = r.thread) ∨
      caller e = some r.thread ∧ ∃ data, e = .enqueueBegin r.thread data := by
  have hwithout : ∀ {u}, s'.running = s.without u → r ∈ s.running := by
    intro u hu
    rw [hu] at hr
    exact List.mem_of_mem_eraseP hr
  cases step_move h with
  | inr hidle =>
    obtain ⟨-, hrunning, -⟩ := hidle
    exact .inl ⟨r, hrunning ▸ hr, rfl⟩
  | inl hmove =>
    cases hmove with
    | reject _ _ hrunning => exact .inl ⟨r, hrunning ▸ hr, rfl⟩
    | begin u data stage hevent hmay hrunning =>
      rw [hrunning] at hr
      cases List.mem_cons.mp hr with
      | inl hr =>
        subst r
        exact .inr ⟨by rw [hevent]; rfl, data, hevent⟩
      | inr hr => exact .inl ⟨r, hr, rfl⟩
    | prepare q stage hcall hrunning =>
      rw [hrunning] at hr
      cases List.mem_cons.mp hr with
      | inl hr =>
        subst r
        exact .inl ⟨q, List.mem_of_find?_eq_some hcall, rfl⟩
      | inr hr => exact .inl ⟨r, List.mem_of_mem_eraseP hr, rfl⟩
    | refuse q _ _ hrunning => exact .inl ⟨r, hwithout hrunning, rfl⟩
    | accept q _ _ hrunning => exact .inl ⟨r, hwithout hrunning, rfl⟩

end Calm

section Life

/-- SDL does not call the player. -/
structure Silent (s : State) : Prop where
  device : s.deviceOpen = false
  audio : s.audio = .idle

/-- What a player has: its mutex, a worker, a reason for that to end, and a device. -/
structure Stock where
  mutex : Bool
  thread : Bool
  shutdown : Bool
  device : Bool

/-- What it has while Destroy has not begun. -/
def stock (realized : Bool) : OpenPc → Stock
  | .none => if realized then ⟨true, true, false, true⟩ else ⟨false, false, false, false⟩
  | .subsystem | .synchronization => ⟨false, false, false, false⟩
  | .creating => ⟨true, false, false, false⟩
  | .device | .shutting => ⟨true, true, false, false⟩
  | .joining => ⟨true, true, true, false⟩
  | .ready => ⟨true, true, false, true⟩

structure Standing (s : State) (k : Stock) : Prop where
  mutex : s.mutex = k.mutex
  thread : s.callbackThread = k.thread
  shutdown : s.system.player.shutdown = k.shutdown
  device : s.system.player.device = k.device
  absent : k.thread = false → s.system.worker = .exited
  alive : k.thread = true → k.shutdown = false → s.system.worker ≠ .exited
  silent : k.device = false → Silent s

/-- Destroy has not begun. -/
structure Untouched (s : State) : Prop where
  deferred : s.system.player.destroyOnWorkerExit = false
  marked : s.system.player.destroyResourcesClosed = false
  realized : s.opening ≠ .none → s.realized = false
  standing : Standing s (stock s.realized s.opening)

/-- The worker has been told to end, and who releases the player has been decided. -/
structure Ongoing (s : State) (deferred marked : Bool) : Prop where
  shutdown : s.system.player.shutdown = true
  deferred : s.system.player.destroyOnWorkerExit = deferred
  marked : s.system.player.destroyResourcesClosed = marked
  opening : s.opening = .none

/-- Only Destroy is left. -/
structure Ended (s : State) : Prop where
  worker : s.system.worker = .exited
  deferred : s.system.player.destroyOnWorkerExit = false
  opening : s.opening = .none
  silent : Silent s

def Flow (s : State) : DestroyPc → Prop
  | .idle => Untouched s
  | .locked _ deferred device _ _ _ =>
    Ongoing s deferred false ∧ s.callbackThread = true ∧ (device = false → Silent s)
  | .lending _ device =>
    Ongoing s false false ∧ s.callbackThread = true ∧ (device = false → Silent s)
  | .closing _ deferred _ device =>
    Ongoing s deferred false ∧ s.callbackThread = true ∧ (device = false → Silent s)
  | .detaching _ | .marking _ => Ongoing s true false ∧ Silent s
  | .joining _ _ => Ongoing s false false ∧ s.callbackThread = true ∧ Silent s
  | .takingBack _ | .releasing _ => Ended s
  | .returned _ deferred | .past deferred =>
    if deferred then Ongoing s true true ∧ Silent s else Ended s

/-- What the worker knows after its loop. -/
def ExitAt (p : Player) : ExitPc → Prop
  | .reading => True
  | .waiting => p.destroyOnWorkerExit = true
  | .counting release =>
    p.destroyOnWorkerExit = release ∧ (release = true → p.destroyResourcesClosed = true)
  | .releasing => p.destroyOnWorkerExit = true ∧ p.destroyResourcesClosed = true

structure Leaves (s : State) : Prop where
  leaving : s.system.worker = .leaving →
    s.system.player.shutdown = true ∧ ExitAt s.system.player s.exit
  exited : s.system.worker = .exited → s.system.player.destroyOnWorkerExit = true →
    s.system.player.destroyResourcesClosed = true
  inside : s.system.worker ≠ .leaving → s.system.worker ≠ .exited → s.exit = .reading

/-- How often Destroy has released the player. -/
def DestroyPc.releases : DestroyPc → Nat
  | .returned _ false | .past false => 1
  | _ => 0

/-- How often the worker has. -/
def State.workerReleases (s : State) : Nat :=
  if s.system.worker = .exited ∧ s.system.player.destroyOnWorkerExit = true then 1 else 0

structure Inv (cfg : Config) (s : State) : Prop where
  flow : Flow s s.destroy
  leaves : Leaves s
  count : s.playersReleased = s.destroy.releases + s.workerReleases
  unrealized : s.realized = false → s.system.running = []
  calls : s.destroy ≠ .idle → ∀ r ∈ s.system.running, r.thread = s.workerThread
  inside : s.system.Inside (s.playerConfig cfg)
  agreed : MutexBridge.Agreed cfg.platform s.bridge

variable {cfg : Config} {s s' : State} {t : ThreadId}

/-- What everything but Realize and Destroy leaves alone. -/
structure Frame (s s' : State) : Prop where
  flags : flags s'.system.player = flags s.system.player
  kept : s.system.worker = .exited → s'.system.worker = .exited
  ended : s'.system.worker = .exited → s.system.worker = .exited ∨ s.system.player.shutdown = true
  realized : s'.realized = s.realized
  mutex : s'.mutex = s.mutex
  thread : s'.callbackThread = s.callbackThread
  opening : s'.opening = s.opening
  silent : Silent s → Silent s'

theorem Frame.shutdown (h : Frame s s') :
    s'.system.player.shutdown = s.system.player.shutdown := congrArg Flags.shutdown h.flags

theorem Frame.deferred (h : Frame s s') : s'.system.player.destroyOnWorkerExit =
    s.system.player.destroyOnWorkerExit := congrArg Flags.destroyOnWorkerExit h.flags

theorem Frame.marked (h : Frame s s') : s'.system.player.destroyResourcesClosed =
    s.system.player.destroyResourcesClosed := congrArg Flags.destroyResourcesClosed h.flags

theorem Frame.device (h : Frame s s') :
    s'.system.player.device = s.system.player.device := congrArg Flags.device h.flags

theorem Frame.untouched (h : Frame s s') (hu : Untouched s) : Untouched s' where
  deferred := h.deferred.trans hu.deferred
  marked := h.marked.trans hu.marked
  realized := by rw [h.opening, h.realized]; exact hu.realized
  standing := by
    rw [h.opening, h.realized]
    have hs := hu.standing
    refine ⟨h.mutex.trans hs.mutex, h.thread.trans hs.thread, h.shutdown.trans hs.shutdown,
      h.device.trans hs.device, fun hk => h.kept (hs.absent hk), ?_, fun hk => h.silent (hs.silent hk)⟩
    intro hk hrun hexited
    rcases h.ended hexited with hw | hshutdown
    · exact hs.alive hk hrun hw
    · rw [hs.shutdown, hrun] at hshutdown
      cases hshutdown

theorem Frame.ongoing (h : Frame s s') {deferred marked : Bool} (ho : Ongoing s deferred marked) :
    Ongoing s' deferred marked :=
  ⟨h.shutdown.trans ho.shutdown, h.deferred.trans ho.deferred, h.marked.trans ho.marked,
    h.opening.trans ho.opening⟩

theorem Frame.endedState (h : Frame s s') (he : Ended s) : Ended s' :=
  ⟨h.kept he.worker, h.deferred.trans he.deferred, h.opening.trans he.opening, h.silent he.silent⟩

theorem Frame.flow (h : Frame s s') {pc : DestroyPc} (hf : Flow s pc) : Flow s' pc := by
  cases pc with
  | idle => exact h.untouched hf
  | locked | lending | closing =>
    exact ⟨h.ongoing hf.1, h.thread.trans hf.2.1, fun hd => h.silent (hf.2.2 hd)⟩
  | detaching | marking => exact ⟨h.ongoing hf.1, h.silent hf.2⟩
  | joining => exact ⟨h.ongoing hf.1, h.thread.trans hf.2.1, h.silent hf.2.2⟩
  | takingBack | releasing => exact h.endedState hf
  | returned u deferred | past deferred =>
    cases deferred with
    | true => exact ⟨h.ongoing hf.1, h.silent hf.2⟩
    | false => exact h.endedState hf

theorem ExitAt.congr {p p' : Player} (h : flags p' = flags p) {pc : ExitPc} (hp : ExitAt p pc) :
    ExitAt p' pc := by
  have hdeferred := congrArg Flags.destroyOnWorkerExit h
  have hmarked := congrArg Flags.destroyResourcesClosed h
  cases pc with
  | reading => trivial
  | waiting => exact hdeferred.trans hp
  | counting release => exact ⟨hdeferred.trans hp.1, fun hr => hmarked.trans (hp.2 hr)⟩
  | releasing => exact ⟨hdeferred.trans hp.1, hmarked.trans hp.2⟩

theorem Loops.exited {a b : System} (h : Loops a b) : b.worker = .exited ↔ a.worker = .exited := by
  rcases h with hw | ⟨-, hexited, hexited', -⟩
  · rw [hw]
  · exact iff_of_false hexited' hexited

theorem Frame.of_calm {system : System} {audio : AudioPc} (hcalm : Calm s.system system)
    (hsilent : Silent s → audio = .idle) : Frame s { s with system, audio } :=
  ⟨hcalm.flags, hcalm.worker.exited.mpr, fun hw => .inl (hcalm.worker.exited.mp hw), rfl, rfl, rfl,
    rfl, fun hs => ⟨hs.device, hsilent hs⟩⟩

theorem Leaves.of_calm {system : System} {audio : AudioPc} (h : Leaves s)
    (hcalm : Calm s.system system) : Leaves { s with system, audio } where
  leaving := by
    intro hleaving
    have hshutdown : system.player.shutdown = s.system.player.shutdown :=
      congrArg Flags.shutdown hcalm.flags
    rcases hcalm.worker with hw | ⟨hleaving', hexited, -, hnew⟩
    · obtain ⟨hs, hat⟩ := h.leaving (hw.symm.trans hleaving)
      exact ⟨hshutdown.trans hs, hat.congr hcalm.flags⟩
    · refine ⟨hshutdown.trans (hnew hleaving), ?_⟩
      rw [show s.exit = .reading from h.inside hleaving' hexited]
      trivial
  exited := by
    intro hexited hdeferred
    have hold := h.exited (hcalm.worker.exited.mp hexited)
      ((congrArg Flags.destroyOnWorkerExit hcalm.flags).symm.trans hdeferred)
    exact (congrArg Flags.destroyResourcesClosed hcalm.flags).trans hold
  inside := by
    intro hleaving hexited
    rcases hcalm.worker with hw | ⟨hleaving', hexited', -⟩
    · exact h.inside (fun hl => hleaving (hw.trans hl)) fun he => hexited (hw.trans he)
    · exact h.inside hleaving' hexited'

/-- A step of the calls, the audio callback or the loop of the worker. -/
theorem Inv.calm (h : Inv cfg s) {system : System} {audio : AudioPc}
    (hcalm : Calm s.system system) (hsilent : Silent s → audio = .idle)
    (hunrealized : s.realized = false → system.running = [])
    (hcalls : s.destroy ≠ .idle → ∀ r ∈ system.running, r.thread = s.workerThread)
    (hinside : system.Inside (s.playerConfig cfg)) : Inv cfg { s with system, audio } where
  flow := (Frame.of_calm hcalm hsilent).flow h.flow
  leaves := h.leaves.of_calm hcalm
  count := by
    have hworker : State.workerReleases { s with system, audio } = s.workerReleases := by
      have hdeferred : system.player.destroyOnWorkerExit = s.system.player.destroyOnWorkerExit :=
        congrArg Flags.destroyOnWorkerExit hcalm.flags
      simp only [State.workerReleases, hcalm.worker.exited, hdeferred]
    exact h.count.trans (congrArg (s.destroy.releases + ·) hworker.symm)
  unrealized := hunrealized
  calls := hcalls
  inside := hinside
  agreed := h.agreed

/-- After Destroy has begun the worker alone begins calls. -/
theorem allows_enqueueBegin {data : List UInt8}
    (h : s.allows (.enqueueBegin t data) = true) :
    s.realized = true ∧ (s.destroy ≠ .idle → t = s.workerThread) := by
  simp only [State.allows, State.mayCall, Bool.and_eq_true, Bool.or_eq_true,
    decide_eq_true_eq] at h
  exact ⟨h.1, fun hd => h.2.1.2.resolve_left hd⟩

theorem player_inv (h : Inv cfg s) {e : AudioPlayer.Event}
    (hstep : step cfg s (.player e) = some s') : Inv cfg s' := by
  simp only [step, Option.ite_none_right_eq_some, Option.map_eq_some_iff] at hstep
  obtain ⟨hallows, system, hsystem, rfl⟩ := hstep
  have hcalm := step_calm hallows hsystem
  change Inv cfg { s with system, audio := s.audio }
  refine h.calm hcalm (fun hs => hs.audio) ?_ ?_ (step_inside h.inside hsystem)
  · intro hunrealized
    have hempty := h.unrealized hunrealized
    rw [List.eq_nil_iff_forall_not_mem]
    intro r hr
    rcases step_running hsystem hr with ⟨q, hq, -⟩ | ⟨-, data, rfl⟩
    · rw [hempty] at hq
      cases hq
    · rw [(allows_enqueueBegin hallows).1] at hunrealized
      cases hunrealized
  · intro hdestroy r hr
    rcases step_running hsystem hr with ⟨q, hq, hthread⟩ | ⟨-, data, rfl⟩
    · exact hthread.symm.trans (h.calls hdestroy q hq)
    · exact (allows_enqueueBegin hallows).2 hdestroy

/-- An audio section makes no call. -/
theorem audioSection_inv (h : Inv cfg s) {length : Nat}
    (hstep : step cfg s (.audioSection length) = some s') : Inv cfg s' := by
  simp only [step, Option.ite_none_right_eq_some, Option.map_eq_some_iff] at hstep
  obtain ⟨hentered, system, hsystem, rfl⟩ := hstep
  have hrunning : system.running = s.system.running := by
    simp only [System.audio, Option.ite_none_right_eq_some, Option.map_eq_some_iff] at hsystem
    obtain ⟨-, r, -, rfl⟩ := hsystem
    rfl
  refine h.calm (audio_calm hsystem) ?_ ?_ ?_ ?_
  · intro hs
    rw [hs.audio] at hentered
    cases hentered
  · intro hunrealized
    rw [hrunning]
    exact h.unrealized hunrealized
  · rw [hrunning]
    exact h.calls
  · exact step_inside (e := .audio length) h.inside hsystem

theorem Calm.refl (a : System) : Calm a a := ⟨.inl rfl, rfl, rfl⟩

theorem Inv.audio (h : Inv cfg s) {pc : AudioPc} (hsilent : Silent s → pc = .idle) :
    Inv cfg { s with audio := pc } :=
  h.calm (.refl s.system) hsilent h.unrealized h.calls h.inside

theorem Inv.setPlayer (h : Inv cfg s) {p : Player} (hflags : flags p = flags s.system.player) :
    Inv cfg (s.setPlayer p) := by
  have hcalm : Calm s.system { s.system with player := p } := ⟨.inl rfl, hflags, rfl⟩
  change Inv cfg { s with system := { s.system with player := p }, audio := s.audio }
  exact h.calm hcalm (fun hs => hs.audio) h.unrealized h.calls h.inside

theorem Inv.bridge (h : Inv cfg s) {bridge : MutexBridge.State}
    (hagreed : MutexBridge.Agreed cfg.platform bridge) : Inv cfg { s with bridge } where
  flow := by
    have hframe : Frame s { s with bridge } :=
      ⟨rfl, id, .inl, rfl, rfl, rfl, rfl, fun hs => ⟨hs.device, hs.audio⟩⟩
    exact hframe.flow h.flow
  leaves := ⟨h.leaves.leaving, h.leaves.exited, h.leaves.inside⟩
  count := h.count
  unrealized := h.unrealized
  calls := h.calls
  inside := h.inside
  agreed := hagreed

section Realize

/-- Before Destroy nobody has released the player. -/
theorem Untouched.inv (hu : Untouched s) (hidle : s.destroy = .idle) (hleaves : Leaves s)
    (hcount : s.playersReleased = 0) (hrunning : s.system.running = [])
    (hagreed : MutexBridge.Agreed cfg.platform s.bridge) : Inv cfg s where
  flow := by rw [hidle]; exact hu
  leaves := hleaves
  count := by
    rw [hcount, hidle, State.workerReleases, if_neg]
    · rfl
    · rw [hu.deferred]
      simp
  unrealized := fun _ => hrunning
  calls := fun hd => absurd hidle hd
  inside := by
    intro r hr
    rw [hrunning] at hr
    cases hr
  agreed := hagreed

theorem Inv.untouched (h : Inv cfg s) (hidle : s.destroy = .idle) : Untouched s := by
  have hflow := h.flow
  rw [hidle] at hflow
  exact hflow

theorem Inv.idle_count (h : Inv cfg s) (hidle : s.destroy = .idle) : s.playersReleased = 0 := by
  rw [h.count, hidle, State.workerReleases, if_neg]
  · rfl
  · rw [(h.untouched hidle).deferred]
    simp

/-- Realize runs before Destroy. -/
theorem Inv.idle_of_opening (h : Inv cfg s) (hopening : s.opening ≠ .none) :
    s.destroy = .idle := by
  have hflow := h.flow
  cases hd : s.destroy with
  | idle => rfl
  | locked | lending | closing | detaching | marking | joining =>
    rw [hd] at hflow
    exact absurd hflow.1.opening hopening
  | takingBack | releasing =>
    rw [hd] at hflow
    exact absurd hflow.opening hopening
  | returned u deferred | past deferred =>
    rw [hd] at hflow
    cases deferred with
    | true => exact absurd hflow.1.opening hopening
    | false => exact absurd hflow.opening hopening

/-- A player without a worker has nothing that anybody could use. -/
theorem Leaves.of_exited (hworker : s.system.worker = .exited)
    (hdeferred : s.system.player.destroyOnWorkerExit = false) : Leaves s where
  leaving := by
    rw [hworker]
    simp
  exited := by
    rw [hdeferred]
    simp
  inside := fun _ hexited => absurd hworker hexited

theorem realize_inv (h : Inv cfg s) (hstep : step cfg s .realize = some s') : Inv cfg s' := by
  simp only [step, Option.ite_none_right_eq_some, Option.some.injEq] at hstep
  obtain ⟨⟨hidle, hopening, hrealized⟩, rfl⟩ := hstep
  have hu := h.untouched hidle
  have hs := hu.standing
  rw [hopening, hrealized] at hs
  have hsilent := hs.silent rfl
  have hu' : Untouched { s with opening := .subsystem } :=
    ⟨hu.deferred, hu.marked, fun _ => hrealized,
      ⟨hs.mutex, hs.thread, hs.shutdown, hs.device, hs.absent, (fun hk => by cases hk),
        fun _ => ⟨hsilent.device, hsilent.audio⟩⟩⟩
  exact hu'.inv hidle ⟨h.leaves.leaving, h.leaves.exited, h.leaves.inside⟩ (h.idle_count hidle)
    (h.unrealized hrealized) h.agreed

/-- Realize has given up before there was a worker, or after it ended. -/
theorem failOpen_untouched (hu : Untouched s) (hworker : s.system.worker = .exited)
    (hrealized : s.realized = false) (hshutdown : s.system.player.shutdown = false)
    (hdevice : s.system.player.device = false) (hsilent : Silent s) : Untouched s.failOpen where
  deferred := hu.deferred
  marked := hu.marked
  realized := fun _ => hrealized
  standing := by
    have hstock : stock s.failOpen.realized s.failOpen.opening = ⟨false, false, false, false⟩ := by
      simp [State.failOpen, stock, hrealized]
    rw [hstock]
    exact ⟨rfl, rfl, hshutdown, hdevice, fun _ => hworker, (fun hk => by cases hk),
      fun _ => ⟨hsilent.device, hsilent.audio⟩⟩

/-- Without a worker. -/
theorem failOpen_inv (h : Inv cfg s) (hidle : s.destroy = .idle) (hrealized : s.realized = false)
    (hworker : s.system.worker = .exited) (hshutdown : s.system.player.shutdown = false)
    (hdevice : s.system.player.device = false) (hsilent : Silent s) : Inv cfg s.failOpen := by
  have hu := h.untouched hidle
  have hu' := failOpen_untouched hu hworker hrealized hshutdown hdevice hsilent
  exact hu'.inv hidle (.of_exited hworker hu.deferred) (h.idle_count hidle)
    (h.unrealized hrealized) h.agreed

/-- What a step of Realize starts from. -/
structure Opens (cfg : Config) (s : State) : Prop where
  inv : Inv cfg s
  idle : s.destroy = .idle
  untouched : Untouched s
  realized : s.realized = false
  count : s.playersReleased = 0
  running : s.system.running = []
  standing : Standing s (stock false s.opening)

theorem Inv.opens (h : Inv cfg s) (hopening : s.opening ≠ .none) : Opens cfg s where
  inv := h
  idle := h.idle_of_opening hopening
  untouched := h.untouched (h.idle_of_opening hopening)
  realized := (h.untouched (h.idle_of_opening hopening)).realized hopening
  count := h.idle_count (h.idle_of_opening hopening)
  running := h.unrealized ((h.untouched (h.idle_of_opening hopening)).realized hopening)
  standing := by
    have hu := h.untouched (h.idle_of_opening hopening)
    rw [← hu.realized hopening]
    exact hu.standing

section Open

variable {succeeds : Bool} {worker : ThreadId}

/-- The audio subsystem is acquired, or Realize gives up. -/
theorem subsystem_inv (ho : Opens cfg s) (hpc : s.opening = .subsystem)
    (hstep : s.openNext cfg succeeds worker = some s') : Inv cfg s' := by
  have hs := ho.standing
  rw [hpc] at hs
  have hsilent := hs.silent rfl
  simp only [State.openNext, hpc] at hstep
  split at hstep <;> obtain rfl := Option.some.inj hstep
  · have hu' : Untouched { s with audioSubsystemAcquired := true, opening := .synchronization } :=
      ⟨ho.untouched.deferred, ho.untouched.marked, fun _ => ho.realized,
        ⟨hs.mutex, hs.thread, hs.shutdown, hs.device, hs.absent, (fun hk => by cases hk),
          fun _ => ⟨hsilent.device, hsilent.audio⟩⟩⟩
    exact hu'.inv ho.idle ⟨ho.inv.leaves.leaving, ho.inv.leaves.exited, ho.inv.leaves.inside⟩
      ho.count ho.running ho.inv.agreed
  · have hstock : stock s.realized .none = ⟨false, false, false, false⟩ := by
      simp [stock, ho.realized]
    have hu' : Untouched { s with opening := .none } :=
      ⟨ho.untouched.deferred, ho.untouched.marked, fun _ => ho.realized, hstock ▸
        ⟨hs.mutex, hs.thread, hs.shutdown, hs.device, hs.absent, (fun hk => by cases hk),
          fun _ => ⟨hsilent.device, hsilent.audio⟩⟩⟩
    exact hu'.inv ho.idle ⟨ho.inv.leaves.leaving, ho.inv.leaves.exited, ho.inv.leaves.inside⟩
      ho.count ho.running ho.inv.agreed

/-- The mutex and the condition variable are made. -/
theorem synchronization_inv (ho : Opens cfg s) (hpc : s.opening = .synchronization)
    (hstep : s.openNext cfg succeeds worker = some s') : Inv cfg s' := by
  have hs := ho.standing
  rw [hpc] at hs
  have hsilent := hs.silent rfl
  simp only [State.openNext, hpc] at hstep
  split at hstep <;> obtain rfl := Option.some.inj hstep
  · have hu' : Untouched { s with mutex := true, opening := .creating } :=
      ⟨ho.untouched.deferred, ho.untouched.marked, fun _ => ho.realized,
        ⟨rfl, hs.thread, hs.shutdown, hs.device, hs.absent, (fun hk => by cases hk),
          fun _ => ⟨hsilent.device, hsilent.audio⟩⟩⟩
    exact hu'.inv ho.idle ⟨ho.inv.leaves.leaving, ho.inv.leaves.exited, ho.inv.leaves.inside⟩
      ho.count ho.running ho.inv.agreed
  · exact failOpen_inv ho.inv ho.idle ho.realized (hs.absent rfl) hs.shutdown hs.device hsilent

/-- The worker is created, with an identity of the bridge. -/
theorem creating_inv (ho : Opens cfg s) (hpc : s.opening = .creating)
    (hstep : s.openNext cfg succeeds worker = some s') : Inv cfg s' := by
  have hs := ho.standing
  rw [hpc] at hs
  have hsilent := hs.silent rfl
  simp only [State.openNext, hpc] at hstep
  split at hstep
  · obtain ⟨bridge, hbridge, rfl⟩ := Option.map_eq_some_iff.mp hstep
    have hu' : Untouched { s.setWorker .start with
        callbackThread := true, workerThread := worker, exit := .reading, opening := .device,
        bridge } :=
      ⟨ho.untouched.deferred, ho.untouched.marked, fun _ => ho.realized,
        ⟨hs.mutex, rfl, hs.shutdown, hs.device, (fun hk => by cases hk),
          fun _ _ => by simp [State.setWorker],
          fun _ => ⟨hsilent.device, hsilent.audio⟩⟩⟩
    have hleaves' : Leaves { s.setWorker .start with
        callbackThread := true, workerThread := worker, exit := .reading, opening := .device,
        bridge } :=
      ⟨(fun hl => by cases hl), (fun he => by cases he), fun _ _ => rfl⟩
    exact hu'.inv ho.idle hleaves' ho.count ho.running
      (MutexBridge.step_agreed ho.inv.agreed hbridge)
  · obtain rfl := Option.some.inj hstep
    exact failOpen_inv ho.inv ho.idle ho.realized (hs.absent rfl) hs.shutdown hs.device hsilent

/-- The device is opened, or the worker is sent home. -/
theorem device_inv (ho : Opens cfg s) (hpc : s.opening = .device)
    (hstep : s.openNext cfg succeeds worker = some s') : Inv cfg s' := by
  have hs := ho.standing
  rw [hpc] at hs
  simp only [State.openNext, hpc] at hstep
  split at hstep <;> obtain rfl := Option.some.inj hstep
  · have hu' : Untouched { s.setPlayer { s.system.player with device := true } with
        deviceOpen := true, opening := .ready } :=
      ⟨ho.untouched.deferred, ho.untouched.marked, fun _ => ho.realized,
        ⟨hs.mutex, hs.thread, hs.shutdown, rfl, (fun hk => by cases hk), hs.alive,
          fun hk => by cases hk⟩⟩
    exact hu'.inv ho.idle ⟨ho.inv.leaves.leaving, ho.inv.leaves.exited, ho.inv.leaves.inside⟩
      ho.count ho.running ho.inv.agreed
  · have hu' : Untouched { s with opening := .shutting } :=
      ⟨ho.untouched.deferred, ho.untouched.marked, fun _ => ho.realized,
        ⟨hs.mutex, hs.thread, hs.shutdown, hs.device, (fun hk => by cases hk), hs.alive,
          fun _ => ⟨(hs.silent rfl).device, (hs.silent rfl).audio⟩⟩⟩
    exact hu'.inv ho.idle ⟨ho.inv.leaves.leaving, ho.inv.leaves.exited, ho.inv.leaves.inside⟩
      ho.count ho.running ho.inv.agreed

theorem shutting_inv (ho : Opens cfg s) (hpc : s.opening = .shutting)
    (hstep : s.openNext cfg succeeds worker = some s') : Inv cfg s' := by
  have hs := ho.standing
  rw [hpc] at hs
  simp only [State.openNext, hpc] at hstep
  obtain rfl := Option.some.inj hstep
  have hu' : Untouched { s.setPlayer { s.system.player with shutdown := true } with
      opening := .joining } :=
    ⟨ho.untouched.deferred, ho.untouched.marked, fun _ => ho.realized,
      ⟨hs.mutex, hs.thread, rfl, hs.device, (fun hk => by cases hk), (fun _ hk => by cases hk),
        fun _ => ⟨(hs.silent rfl).device, (hs.silent rfl).audio⟩⟩⟩
  have hleaves' : Leaves { s.setPlayer { s.system.player with shutdown := true } with
      opening := .joining } :=
    ⟨fun hl => ⟨rfl, (ho.inv.leaves.leaving hl).2⟩, ho.inv.leaves.exited, ho.inv.leaves.inside⟩
  exact hu'.inv ho.idle hleaves' ho.count ho.running ho.inv.agreed

/-- Realize waits for the worker before it gives up. -/
theorem joinWorker_inv (ho : Opens cfg s) (hpc : s.opening = .joining)
    (hstep : s.openNext cfg succeeds worker = some s') : Inv cfg s' := by
  have hs := ho.standing
  rw [hpc] at hs
  simp only [State.openNext, hpc, Option.ite_none_right_eq_some, Option.some.injEq] at hstep
  obtain ⟨hworker, rfl⟩ := hstep
  have hsilent := hs.silent rfl
  have hstock : stock (s.setPlayer { s.system.player with shutdown := false }).failOpen.realized
      .none = ⟨false, false, false, false⟩ := by
    simp [stock, State.failOpen, State.setPlayer, ho.realized]
  have hu' : Untouched (s.setPlayer { s.system.player with shutdown := false }).failOpen :=
    ⟨ho.untouched.deferred, ho.untouched.marked, fun _ => ho.realized, hstock ▸
      ⟨rfl, rfl, rfl, hs.device, fun _ => hworker, (fun hk => by cases hk),
        fun _ => ⟨hsilent.device, hsilent.audio⟩⟩⟩
  exact hu'.inv ho.idle (.of_exited hworker ho.untouched.deferred) ho.count ho.running ho.inv.agreed

theorem ready_inv (ho : Opens cfg s) (hpc : s.opening = .ready)
    (hstep : s.openNext cfg succeeds worker = some s') : Inv cfg s' := by
  have hs := ho.standing
  rw [hpc] at hs
  simp only [State.openNext, hpc] at hstep
  obtain rfl := Option.some.inj hstep
  have hu' : Untouched { s with realized := true, opening := .none } :=
    ⟨ho.untouched.deferred, ho.untouched.marked, fun hne => absurd rfl hne,
      ⟨hs.mutex, hs.thread, hs.shutdown, hs.device, (fun hk => by cases hk), hs.alive,
        fun hk => by cases hk⟩⟩
  exact hu'.inv ho.idle ⟨ho.inv.leaves.leaving, ho.inv.leaves.exited, ho.inv.leaves.inside⟩
    ho.count ho.running ho.inv.agreed

theorem openNext_inv (h : Inv cfg s) (hstep : s.openNext cfg succeeds worker = some s') :
    Inv cfg s' := by
  have hopening : s.opening ≠ .none := by
    intro hnone
    rw [State.openNext, hnone] at hstep
    cases hstep
  have ho := h.opens hopening
  cases hpc : s.opening with
  | none => exact absurd hpc hopening
  | subsystem => exact subsystem_inv ho hpc hstep
  | synchronization => exact synchronization_inv ho hpc hstep
  | creating => exact creating_inv ho hpc hstep
  | device => exact device_inv ho hpc hstep
  | shutting => exact shutting_inv ho hpc hstep
  | joining => exact joinWorker_inv ho hpc hstep
  | ready => exact ready_inv ho hpc hstep

end Open

end Realize

section End

/-- A step of the worker after its loop. -/
theorem exit_frame (hw : s.system.worker = .leaving)
    (hshutdown : s.system.player.shutdown = true)
    (hflags : flags s'.system.player = flags s.system.player) (hrealized : s'.realized = s.realized)
    (hmutex : s'.mutex = s.mutex) (hthread : s'.callbackThread = s.callbackThread)
    (hopening : s'.opening = s.opening) (hsilent : Silent s → Silent s') : Frame s s' where
  flags := hflags
  kept := by
    rw [hw]
    simp
  ended := fun _ => .inr hshutdown
  realized := hrealized
  mutex := hmutex
  thread := hthread
  opening := hopening
  silent := hsilent

/-- The worker goes on to its end. -/
theorem exitStep_inv (h : Inv cfg s) (hw : s.system.worker = .leaving) {pc : ExitPc}
    (hat : ExitAt s.system.player pc) : Inv cfg { s with exit := pc } where
  flow := by
    have hshutdown := (h.leaves.leaving hw).1
    have hframe : Frame s { s with exit := pc } :=
      exit_frame hw hshutdown rfl rfl rfl rfl rfl fun hs => ⟨hs.device, hs.audio⟩
    exact hframe.flow h.flow
  leaves := ⟨fun _ => ⟨(h.leaves.leaving hw).1, hat⟩, h.leaves.exited, fun hne => absurd hw hne⟩
  count := h.count
  unrealized := h.unrealized
  calls := h.calls
  inside := h.inside
  agreed := h.agreed

/-- A call of the worker runs inside a callback only. -/
theorem Inv.no_call (h : Inv cfg s) (hw : inCallback s.system.worker = false) :
    ∀ r ∈ s.system.running, r.thread ≠ s.workerThread := by
  intro r hr hthread
  rw [h.inside r hr hthread] at hw
  cases hw

/-- The worker ends; it has released the player if that was left to it. -/
theorem workerEnd_inv (h : Inv cfg s) (hw : s.system.worker = .leaving) {released : Nat}
    {acquired : Bool} (hmarked : s.system.player.destroyOnWorkerExit = true →
      s.system.player.destroyResourcesClosed = true)
    (hcount : released = s.playersReleased +
      if s.system.player.destroyOnWorkerExit = true then 1 else 0) :
    Inv cfg { s.setWorker .exited with
      playersReleased := released, audioSubsystemAcquired := acquired } where
  flow := by
    have hshutdown := (h.leaves.leaving hw).1
    have hframe : Frame s { s.setWorker .exited with
        playersReleased := released, audioSubsystemAcquired := acquired } :=
      exit_frame hw hshutdown rfl rfl rfl rfl rfl fun hs => ⟨hs.device, hs.audio⟩
    exact hframe.flow h.flow
  leaves := ⟨(fun hl => by cases hl), fun _ => hmarked, fun _ hne => absurd rfl hne⟩
  count := by
    have hbefore : s.workerReleases = 0 := by
      simp [State.workerReleases, hw]
    have hold := h.count
    rw [hbefore] at hold
    have hafter : State.workerReleases { s.setWorker .exited with
        playersReleased := released, audioSubsystemAcquired := acquired } =
        if s.system.player.destroyOnWorkerExit = true then 1 else 0 := by
      simp [State.workerReleases, State.setWorker]
    rw [hafter]
    change released = s.destroy.releases + _
    omega
  unrealized := h.unrealized
  calls := h.calls
  inside := by
    intro r hr hthread
    exact absurd hthread (h.no_call (by rw [hw]; rfl) r hr)
  agreed := h.agreed

theorem workerExit_inv (h : Inv cfg s) (hstep : s.workerExit = some s') : Inv cfg s' := by
  simp only [State.workerExit] at hstep
  split at hstep
  case isFalse => cases hstep
  case isTrue hw =>
    obtain ⟨-, hat⟩ := h.leaves.leaving hw
    cases hexit : s.exit with
    | reading =>
      simp only [hexit] at hstep
      obtain rfl := Option.some.inj hstep
      refine exitStep_inv h hw ?_
      cases hdeferred : s.system.player.destroyOnWorkerExit with
      | true => exact hdeferred
      | false => exact ⟨hdeferred, fun hr => by cases hr⟩
    | waiting =>
      rw [hexit] at hat
      simp only [hexit, Option.ite_none_right_eq_some, Option.some.injEq] at hstep
      obtain ⟨hmarked, rfl⟩ := hstep
      exact exitStep_inv h hw ⟨hat, fun _ => hmarked⟩
    | counting release =>
      rw [hexit] at hat
      obtain ⟨hdeferred, hmarked⟩ := hat
      simp only [hexit] at hstep
      cases release with
      | true =>
        obtain rfl := Option.some.inj hstep
        exact exitStep_inv h hw ⟨hdeferred, hmarked rfl⟩
      | false =>
        obtain rfl := Option.some.inj hstep
        refine workerEnd_inv h hw ?_ ?_ <;> rw [hdeferred]
        · simp
        · rfl
    | releasing =>
      rw [hexit] at hat
      simp only [hexit] at hstep
      obtain rfl := Option.some.inj hstep
      refine workerEnd_inv h hw (fun _ => hat.2) ?_
      rw [hat.1]
      rfl

end End

section Destroy

theorem destroyBegin_inv (h : Inv cfg s) (hmay : s.MayDestroy cfg t) :
    Inv cfg (s.destroyBegin t) := by
  obtain ⟨hidle, hopening, -, -, -, hcalls⟩ := hmay
  have hu := h.untouched hidle
  have hs := hu.standing
  rw [hopening] at hs
  have hcount := h.idle_count hidle
  cases hmutex : s.mutex with
  | false =>
    have hrealized : s.realized = false := by
      cases hr : s.realized with
      | false => rfl
      | true =>
        rw [hr] at hs
        cases hmutex.symm.trans hs.mutex
    rw [hrealized] at hs
    have hended : Ended s := ⟨hs.absent rfl, hu.deferred, hopening, hs.silent rfl⟩
    rw [State.destroyBegin, if_neg (by rw [hmutex]; simp)]
    exact {
      flow := ⟨hended.worker, hended.deferred, hopening, ⟨hended.silent.device, hended.silent.audio⟩⟩
      leaves := ⟨h.leaves.leaving, h.leaves.exited, h.leaves.inside⟩
      count := by
        have hold := h.count
        rw [hidle] at hold
        exact hold
      unrealized := h.unrealized
      calls := fun _ => hcalls
      inside := h.inside
      agreed := h.agreed }
  | true =>
    have hrealized : s.realized = true := by
      cases hr : s.realized with
      | true => rfl
      | false =>
        rw [hr] at hs
        cases hmutex.symm.trans hs.mutex
    rw [hrealized] at hs
    have halive : s.system.worker ≠ .exited := hs.alive rfl rfl
    have hloop : s.system.worker ≠ .leaving := by
      intro hleaving
      cases hs.shutdown.symm.trans (h.leaves.leaving hleaving).1
    rw [State.destroyBegin, if_pos hmutex]
    exact {
      flow := ⟨⟨rfl, by simp only [State.setPlayer, hu.deferred, Bool.false_or], hu.marked,
        hopening⟩, hs.thread, fun hd => by cases hs.device.symm.trans hd⟩
      leaves := ⟨fun hl => absurd hl hloop, fun he => absurd he halive, h.leaves.inside⟩
      count := by
        rw [State.workerReleases, if_neg fun hw => halive hw.1]
        exact hcount
      unrealized := h.unrealized
      calls := fun _ => hcalls
      inside := h.inside
      agreed := h.agreed }

/-- Destroy goes on without touching the player. -/
theorem Inv.goDestroy (h : Inv cfg s) (hbegun : s.destroy ≠ .idle) {pc : DestroyPc}
    {bridge : MutexBridge.State} {deviceOpen callbackThread : Bool}
    (hflow : Flow { s with destroy := pc, bridge, deviceOpen, callbackThread } pc)
    (hreleases : pc.releases = s.destroy.releases)
    (hagreed : MutexBridge.Agreed cfg.platform bridge) :
    Inv cfg { s with destroy := pc, bridge, deviceOpen, callbackThread } where
  flow := hflow
  leaves := ⟨h.leaves.leaving, h.leaves.exited, h.leaves.inside⟩
  count := by
    have hold := h.count
    rw [← hreleases] at hold
    exact hold
  unrealized := h.unrealized
  calls := fun _ => h.calls hbegun
  inside := h.inside
  agreed := hagreed

theorem enterBridge_inv (h : Inv cfg s) (hbegun : s.destroy ≠ .idle) {op : MutexBridge.Op}
    {m : MutexBridge.Addr} {pc : DestroyPc}
    (hflow : ∀ bridge, Flow { s with destroy := pc, bridge } pc)
    (hreleases : pc.releases = s.destroy.releases)
    (hstep : s.enterBridge cfg t op m pc = some s') : Inv cfg s' := by
  obtain ⟨bridge, hbridge, rfl⟩ := Option.map_eq_some_iff.mp hstep
  exact h.goDestroy hbegun (hflow bridge) hreleases (MutexBridge.step_agreed h.agreed hbridge)

theorem inBridge_inv (h : Inv cfg s) (hbegun : s.destroy ≠ .idle) {code : MutexBridge.Errno}
    {raw : Nat} {next : Int → DestroyPc}
    (hflow : ∀ result bridge, Flow { s with destroy := next result, bridge } (next result))
    (hreleases : ∀ result, (next result).releases = s.destroy.releases)
    (hstep : s.inBridge cfg t code raw next = some s') : Inv cfg s' := by
  simp only [State.inBridge] at hstep
  split at hstep
  · obtain ⟨bridge, hbridge, rfl⟩ := Option.map_eq_some_iff.mp hstep
    exact h.goDestroy hbegun (hflow _ bridge) (hreleases _)
      (MutexBridge.step_agreed h.agreed hbridge)
  · obtain ⟨bridge, hbridge, rfl⟩ := Option.map_eq_some_iff.mp hstep
    exact h.goDestroy hbegun (hflow _ bridge) (hreleases _)
      (MutexBridge.step_agreed h.agreed hbridge)
  · obtain ⟨bridge, hbridge, rfl⟩ := Option.map_eq_some_iff.mp hstep
    exact h.bridge (MutexBridge.step_agreed h.agreed hbridge)

/-- The steps between its two sections keep what it has said to the worker. -/
theorem Ongoing.keep {deferred marked : Bool} (ho : Ongoing s deferred marked)
    (hsystem : s'.system = s.system) (hopening : s'.opening = s.opening) :
    Ongoing s' deferred marked := by
  refine ⟨?_, ?_, ?_, hopening.trans ho.opening⟩ <;> rw [hsystem]
  · exact ho.shutdown
  · exact ho.deferred
  · exact ho.marked

theorem closing_inv (h : Inv cfg s) {deferred lent device : Bool}
    (hpc : s.destroy = .closing t deferred lent device) {word : MutexBridge.Addr}
    {code : MutexBridge.Errno} {raw : Nat} (hstep : s.destroyNext cfg word code raw = some s') :
    Inv cfg s' := by
  have hbegun : s.destroy ≠ .idle := by
    rw [hpc]
    simp
  have hflow := h.flow
  rw [hpc] at hflow
  obtain ⟨ho, hthread, hsilent⟩ := hflow
  have hnext : ∀ deviceOpen, Silent { s with deviceOpen } →
      Inv cfg { s with
        deviceOpen, destroy := if deferred then .detaching t else .joining t lent } := by
    intro deviceOpen hs
    cases deferred with
    | true =>
      have hflow' : Flow { s with deviceOpen, destroy := .detaching t } (.detaching t) :=
        ⟨ho.keep rfl rfl, hs.device, hs.audio⟩
      exact h.goDestroy hbegun hflow' (by rw [hpc]; rfl) h.agreed
    | false =>
      have hflow' : Flow { s with deviceOpen, destroy := .joining t lent } (.joining t lent) :=
        ⟨ho.keep rfl rfl, hthread, hs.device, hs.audio⟩
      exact h.goDestroy hbegun hflow' (by rw [hpc]; rfl) h.agreed
  simp only [State.destroyNext, hpc] at hstep
  split at hstep
  · simp only [Option.ite_none_right_eq_some, Option.some.injEq] at hstep
    obtain ⟨haudio, rfl⟩ := hstep
    exact hnext false ⟨rfl, haudio⟩
  · rename_i hdevice
    obtain rfl := Option.some.inj hstep
    exact hnext s.deviceOpen (hsilent (by simpa using hdevice))

theorem joining_inv (h : Inv cfg s) {lent : Bool} (hpc : s.destroy = .joining t lent)
    {word : MutexBridge.Addr} {code : MutexBridge.Errno} {raw : Nat}
    (hstep : s.destroyNext cfg word code raw = some s') : Inv cfg s' := by
  have hbegun : s.destroy ≠ .idle := by
    rw [hpc]
    simp
  have hflow := h.flow
  rw [hpc] at hflow
  obtain ⟨ho, hthread, hsilent⟩ := hflow
  simp only [State.destroyNext, hpc] at hstep
  split at hstep
  · cases hstep
  · rename_i hjoined
    have hworker : s.system.worker = .exited := by
      by_contra hrunning
      exact hjoined ⟨hthread, hrunning⟩
    have hended : ∀ pc bridge, Ended { s with destroy := pc, bridge } := fun pc bridge =>
      ⟨hworker, ho.deferred, ho.opening, hsilent.device, hsilent.audio⟩
    split at hstep
    · have hflow' : ∀ bridge, Flow { s with destroy := .takingBack t, bridge } (.takingBack t) :=
        hended _
      exact enterBridge_inv h hbegun hflow' (by rw [hpc]; rfl) hstep
    · obtain rfl := Option.some.inj hstep
      have hflow' : Flow { s with destroy := .releasing t } (.releasing t) := hended _ s.bridge
      exact h.goDestroy hbegun hflow' (by rw [hpc]; rfl) h.agreed

/-- The mutex is offered to a callback in flight. -/
theorem locked_inv (h : Inv cfg s) {u : ThreadId} {deferred device inFlight : Bool}
    {callback : Option GuestFunction} {context : Context}
    (hpc : s.destroy = .locked u deferred device inFlight callback context)
    {word : MutexBridge.Addr} {code : MutexBridge.Errno} {raw : Nat}
    (hstep : s.destroyNext cfg word code raw = some s') : Inv cfg s' := by
  have hbegun : s.destroy ≠ .idle := by
    rw [hpc]
    simp
  have hflow := h.flow
  rw [hpc] at hflow
  obtain ⟨ho, hthread, hsilent⟩ := hflow
  have hsilent' : ∀ pc bridge, device = false → Silent { s with destroy := pc, bridge } :=
    fun pc bridge hd => ⟨(hsilent hd).device, (hsilent hd).audio⟩
  have hclosing : Inv cfg { s with destroy := .closing u deferred false device } :=
    h.goDestroy hbegun ⟨ho.keep rfl rfl, hthread, hsilent' _ s.bridge⟩ (by rw [hpc]; rfl) h.agreed
  simp only [State.destroyNext, hpc] at hstep
  split at hstep
  · rename_i hlend
    have hdeferred : deferred = false := by
      simp only [Bool.and_eq_true, Bool.not_eq_true'] at hlend
      exact hlend.1
    subst hdeferred
    split at hstep
    · have hflow' : ∀ bridge, Flow { s with destroy := .lending u device, bridge }
          (.lending u device) := fun bridge => ⟨ho.keep rfl rfl, hthread, hsilent' _ bridge⟩
      exact enterBridge_inv h hbegun hflow' (by rw [hpc]; rfl) hstep
    · obtain rfl := Option.some.inj hstep
      exact hclosing
  · obtain rfl := Option.some.inj hstep
    exact hclosing

theorem lending_inv (h : Inv cfg s) {u : ThreadId} {device : Bool}
    (hpc : s.destroy = .lending u device) {word : MutexBridge.Addr}
    {code : MutexBridge.Errno} {raw : Nat} (hstep : s.destroyNext cfg word code raw = some s') :
    Inv cfg s' := by
  have hbegun : s.destroy ≠ .idle := by
    rw [hpc]
    simp
  have hflow := h.flow
  rw [hpc] at hflow
  obtain ⟨ho, hthread, hsilent⟩ := hflow
  simp only [State.destroyNext, hpc] at hstep
  refine inBridge_inv h hbegun ?_ (fun _ => by rw [hpc]; rfl) hstep
  intro result bridge
  change Ongoing _ false false ∧ _
  exact ⟨ho.keep rfl rfl, hthread, fun hd => ⟨(hsilent hd).device, (hsilent hd).audio⟩⟩

/-- What the worker may count on is said under the mutex. -/
theorem marking_inv (h : Inv cfg s) {u : ThreadId}
    (hpc : s.destroy = .marking u) {word : MutexBridge.Addr}
    {code : MutexBridge.Errno} {raw : Nat} (hstep : s.destroyNext cfg word code raw = some s') :
    Inv cfg s' := by
  have hbegun : s.destroy ≠ .idle := by
    rw [hpc]
    simp
  have hflow := h.flow
  rw [hpc] at hflow
  obtain ⟨ho, hsilent⟩ := hflow
  simp only [State.destroyNext, hpc] at hstep
  obtain rfl := Option.some.inj hstep
  have hat : ∀ pc, ExitAt s.system.player pc →
      ExitAt { s.system.player with destroyResourcesClosed := true } pc := by
    intro pc hp
    cases pc with
    | reading | waiting => exact hp
    | counting release => exact ⟨hp.1, fun _ => rfl⟩
    | releasing => exact ⟨hp.1, rfl⟩
  exact {
    flow := ⟨⟨ho.shutdown, ho.deferred, rfl, ho.opening⟩, hsilent.device, hsilent.audio⟩
    leaves := ⟨fun hl => ⟨ho.shutdown, hat s.exit (h.leaves.leaving hl).2⟩, fun _ _ => rfl,
      h.leaves.inside⟩
    count := by
      have hold := h.count
      rw [hpc] at hold
      exact hold
    unrealized := h.unrealized
    calls := fun _ => h.calls hbegun
    inside := h.inside
    agreed := h.agreed }

/-- Destroy releases the player itself. -/
theorem releasing_inv (h : Inv cfg s) {u : ThreadId}
    (hpc : s.destroy = .releasing u) {word : MutexBridge.Addr}
    {code : MutexBridge.Errno} {raw : Nat} (hstep : s.destroyNext cfg word code raw = some s') :
    Inv cfg s' := by
  have hbegun : s.destroy ≠ .idle := by
    rw [hpc]
    simp
  have hflow := h.flow
  rw [hpc] at hflow
  simp only [State.destroyNext, hpc] at hstep
  obtain rfl := Option.some.inj hstep
  exact {
    flow := ⟨hflow.worker, hflow.deferred, hflow.opening, hflow.silent.device,
      hflow.silent.audio⟩
    leaves := ⟨h.leaves.leaving, h.leaves.exited, h.leaves.inside⟩
    count := by
      have hold := h.count
      rw [hpc] at hold
      change s.playersReleased = 0 + s.workerReleases at hold
      change s.playersReleased + 1 = 1 + s.workerReleases
      omega
    unrealized := h.unrealized
    calls := fun _ => h.calls hbegun
    inside := h.inside
    agreed := h.agreed }

theorem destroyNext_inv (h : Inv cfg s) {word : MutexBridge.Addr} {code : MutexBridge.Errno}
    {raw : Nat} (hstep : s.destroyNext cfg word code raw = some s') : Inv cfg s' := by
  have hflow := h.flow
  cases hpc : s.destroy with
  | idle | returned | past =>
    rw [State.destroyNext, hpc] at hstep
    cases hstep
  | locked u deferred device inFlight callback context => exact locked_inv h hpc hstep
  | lending u device => exact lending_inv h hpc hstep
  | closing u deferred lent device => exact closing_inv h hpc hstep
  | detaching u =>
    have hbegun : s.destroy ≠ .idle := by
      rw [hpc]
      simp
    rw [hpc] at hflow
    simp only [State.destroyNext, hpc] at hstep
    obtain rfl := Option.some.inj hstep
    have hflow' : Flow { s with callbackThread := false, destroy := .marking u } (.marking u) :=
      ⟨hflow.1.keep rfl rfl, hflow.2.device, hflow.2.audio⟩
    exact h.goDestroy hbegun hflow' (by rw [hpc]; rfl) h.agreed
  | marking u => exact marking_inv h hpc hstep
  | joining u lent => exact joining_inv h hpc hstep
  | takingBack u =>
    have hbegun : s.destroy ≠ .idle := by
      rw [hpc]
      simp
    rw [hpc] at hflow
    simp only [State.destroyNext, hpc] at hstep
    refine inBridge_inv h hbegun ?_ (fun _ => by rw [hpc]; rfl) hstep
    intro result bridge
    exact ⟨hflow.worker, hflow.deferred, hflow.opening, hflow.silent.device, hflow.silent.audio⟩
  | releasing u => exact releasing_inv h hpc hstep

theorem resume_inv (h : Inv cfg s) (hstep : step cfg s .resume = some s') : Inv cfg s' := by
  have hflow := h.flow
  simp only [step] at hstep
  split at hstep
  case h_2 => cases hstep
  case h_1 u deferred hpc =>
    obtain rfl := Option.some.inj hstep
    rw [hpc] at hflow
    have hbegun : s.destroy ≠ .idle := by
      rw [hpc]
      simp
    cases deferred with
    | true =>
      have hflow' : Flow { s with destroy := .past true } (.past true) :=
        ⟨hflow.1.keep rfl rfl, hflow.2.device, hflow.2.audio⟩
      exact h.goDestroy hbegun hflow' (by rw [hpc]; rfl) h.agreed
    | false =>
      have hflow' : Flow { s with destroy := .past false } (.past false) :=
        ⟨hflow.worker, hflow.deferred, hflow.opening, hflow.silent.device, hflow.silent.audio⟩
      exact h.goDestroy hbegun hflow' (by rw [hpc]; rfl) h.agreed

end Destroy

theorem step_inv (h : Inv cfg s) {e : Event} (hstep : step cfg s e = some s') : Inv cfg s' := by
  cases e with
  | registerCallback callback context =>
    simp only [step, Option.ite_none_right_eq_some, Option.some.injEq] at hstep
    obtain ⟨-, rfl⟩ := hstep
    exact h.setPlayer rfl
  | realize => exact realize_inv h hstep
  | openNext succeeds worker => exact openNext_inv h hstep
  | player e => exact player_inv h hstep
  | audioEnter =>
    simp only [step, Option.ite_none_right_eq_some, Option.some.injEq] at hstep
    obtain ⟨⟨hopen, -⟩, rfl⟩ := hstep
    refine h.audio fun hs => ?_
    rw [hs.device] at hopen
    cases hopen
  | audioSection length => exact audioSection_inv h hstep
  | audioLeave =>
    simp only [step, Option.ite_none_right_eq_some, Option.some.injEq] at hstep
    obtain ⟨-, rfl⟩ := hstep
    exact h.audio fun _ => rfl
  | workerExit => exact workerExit_inv h hstep
  | destroy t =>
    simp only [step, Option.ite_none_right_eq_some, Option.some.injEq] at hstep
    obtain ⟨hmay, rfl⟩ := hstep
    exact destroyBegin_inv h hmay
  | destroyNext word code raw => exact destroyNext_inv h hstep
  | resume => exact resume_inv h hstep
  | bridge e =>
    simp only [step, Option.ite_none_right_eq_some, Option.map_eq_some_iff] at hstep
    obtain ⟨-, bridge, hbridge, rfl⟩ := hstep
    exact h.bridge (MutexBridge.step_agreed h.agreed hbridge)

theorem initial_inv (cfg : Config) : Inv cfg initial := by
  have hu : Untouched initial :=
    ⟨rfl, rfl, fun hne => absurd rfl hne,
      ⟨rfl, rfl, rfl, rfl, fun _ => rfl, (fun hk => by cases hk), fun _ => ⟨rfl, rfl⟩⟩⟩
  exact hu.inv rfl (.of_exited rfl rfl) rfl rfl (MutexBridge.initial_agreed cfg.platform)

/-- Nobody uses the player any more. -/
structure Gone (s : State) : Prop where
  worker : s.system.worker = .exited
  silent : Silent s
  calls : s.system.running = []
  destroy : (∃ t deferred, s.destroy = .returned t deferred) ∨ ∃ deferred, s.destroy = .past deferred

theorem Inv.running_nil (h : Inv cfg s) (hbegun : s.destroy ≠ .idle)
    (hworker : s.system.worker = .exited) : s.system.running = [] := by
  rw [List.eq_nil_iff_forall_not_mem]
  intro r hr
  exact h.no_call (by rw [hworker]; rfl) r hr (h.calls hbegun r hr)

/-- The worker releases the player only once Destroy has returned. -/
theorem Inv.deferred_flow (h : Inv cfg s) (hworker : s.system.worker = .exited)
    (hdeferred : s.system.player.destroyOnWorkerExit = true) :
    ((∃ t, s.destroy = .returned t true) ∨ s.destroy = .past true) ∧ Silent s := by
  have hmarked := h.leaves.exited hworker hdeferred
  have hflow := h.flow
  have hongoing : ∀ {d}, Ongoing s d false → False := fun ho => by
    cases hmarked.symm.trans ho.marked
  have hended : Ended s → False := fun he => by cases hdeferred.symm.trans he.deferred
  cases hpc : s.destroy with
  | idle =>
    rw [hpc] at hflow
    cases hdeferred.symm.trans hflow.deferred
  | locked | lending | closing | detaching | marking | joining =>
    rw [hpc] at hflow
    exact (hongoing hflow.1).elim
  | takingBack | releasing =>
    rw [hpc] at hflow
    exact (hended hflow).elim
  | returned t deferred =>
    rw [hpc] at hflow
    cases deferred with
    | true => exact ⟨.inl ⟨t, rfl⟩, hflow.2⟩
    | false => exact (hended hflow).elim
  | past deferred =>
    rw [hpc] at hflow
    cases deferred with
    | true => exact ⟨.inr rfl, hflow.2⟩
    | false => exact (hended hflow).elim

theorem Inv.gone (h : Inv cfg s) (hreleased : 0 < s.playersReleased) : Gone s := by
  by_cases hworker : s.workerReleases = 0
  · have hcount := h.count
    rw [hworker] at hcount
    have hflow := h.flow
    have hpc : (∃ t, s.destroy = .returned t false) ∨ s.destroy = .past false := by
      cases hpc : s.destroy with
      | returned t deferred =>
        cases deferred with
        | false => exact .inl ⟨t, rfl⟩
        | true =>
          rw [hpc] at hcount
          simp only [DestroyPc.releases] at hcount
          omega
      | past deferred =>
        cases deferred with
        | false => exact .inr rfl
        | true =>
          rw [hpc] at hcount
          simp only [DestroyPc.releases] at hcount
          omega
      | _ =>
        rw [hpc] at hcount
        simp only [DestroyPc.releases] at hcount
        omega
    have hended : Ended s := by
      rcases hpc with ⟨t, hpc⟩ | hpc
      · rw [hpc] at hflow
        exact hflow
      · rw [hpc] at hflow
        exact hflow
    have hbegun : s.destroy ≠ .idle := by
      rcases hpc with ⟨t, hpc⟩ | hpc <;> rw [hpc] <;> simp
    refine ⟨hended.worker, hended.silent, h.running_nil hbegun hended.worker, ?_⟩
    exact hpc.imp (fun ⟨t, ht⟩ => ⟨t, false, ht⟩) fun ht => ⟨false, ht⟩
  · have hexited : s.system.worker = .exited ∧ s.system.player.destroyOnWorkerExit = true := by
      by_contra hnot
      exact hworker (if_neg hnot)
    obtain ⟨hpc, hsilent⟩ := h.deferred_flow hexited.1 hexited.2
    have hbegun : s.destroy ≠ .idle := by
      rcases hpc with ⟨t, hpc⟩ | hpc <;> rw [hpc] <;> simp
    refine ⟨hexited.1, hsilent, h.running_nil hbegun hexited.1, ?_⟩
    exact hpc.imp (fun ⟨t, ht⟩ => ⟨t, true, ht⟩) fun ht => ⟨true, ht⟩

end Life

end Asm2Runtime.AudioTeardown
