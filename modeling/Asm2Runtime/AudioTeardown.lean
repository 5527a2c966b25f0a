import Asm2Runtime.AudioGeneration
import Asm2Runtime.MutexHandoff

/-!
# The life of a player

A player from its creation through Realize to its release. Its lists, its calls and
the loop of its worker are those of AudioPlayer, and guest mutexes are those of the
pthread bridge. What Realize, Destroy, the end of the worker and the audio callback do
outside the player's mutex is a step for each access.
-/

namespace Asm2Runtime.AudioTeardown

open AudioPlayer

/-- The next step of asm2_sl_open_player, and of Realize after it. -/
inductive OpenPc where
  | none
  | subsystem
  | synchronization
  | creating
  | device
  /-- The device could not be opened, so the worker has to end. -/
  | shutting
  | joining
  | ready
  deriving DecidableEq

/-- The audio callback of SDL around its section. -/
inductive AudioPc where
  | idle
  | entered
  | left
  deriving DecidableEq

/-- Where the worker is once it has left its loop. -/
inductive ExitPc where
  | reading
  | waiting
  | counting (release : Bool)
  | releasing
  deriving DecidableEq

/-- Where Destroy is, with its local variables: the thread, `deferred_destroy`, `device`,
`callback_in_flight` with the pair it belongs to, and whether `handoff_result` is 1. -/
inductive DestroyPc where
  | idle
  | locked (thread : ThreadId) (deferred device inFlight : Bool)
      (callback : Option GuestFunction) (context : Context)
  /-- inside asm2_pthread_mutex_handoff_begin -/
  | lending (thread : ThreadId) (device : Bool)
  | closing (thread : ThreadId) (deferred lent device : Bool)
  | detaching (thread : ThreadId)
  | marking (thread : ThreadId)
  | joining (thread : ThreadId) (lent : Bool)
  /-- inside asm2_pthread_mutex_handoff_end -/
  | takingBack (thread : ThreadId)
  | releasing (thread : ThreadId)
  /-- Destroy is over; the thread has not gone on yet. -/
  | returned (thread : ThreadId) (deferred : Bool)
  | past (deferred : Bool)
  deriving DecidableEq

def DestroyPc.thread : DestroyPc → Option ThreadId
  | .idle | .past _ => none
  | .locked t _ _ _ _ _ | .lending t _ | .closing t _ _ _ | .detaching t | .marking t
  | .joining t _ | .takingBack t | .releasing t | .returned t _ => some t

/-- `callbackThread` is the handle, `exit` belongs to the worker, and `deviceOpen` says
whether SDL has the device open. -/
structure State where
  system : System
  realized : Bool
  audioSubsystemAcquired : Bool
  mutex : Bool
  callbackThread : Bool
  workerThread : ThreadId
  opening : OpenPc
  deviceOpen : Bool
  audio : AudioPc
  exit : ExitPc
  destroy : DestroyPc
  playersReleased : Nat
  bridge : MutexBridge.State

/-- The worker thread of `player` is replaced by the one that Realize creates. `audioCallback`
is the callback of the game that audio_compat knows, and `handoff` is the record on the stack
of Destroy. -/
structure Config where
  platform : MutexBridge.Platform
  player : AudioPlayer.Config
  audioCallback : Option GuestFunction
  handoff : MutexBridge.HandoffId

/-- A call carries what the guest or the outside world decides: the thread, a failure, the thread
id of a new worker, the word behind the context of a callback. -/
inductive Event where
  | registerCallback (callback : Option GuestFunction) (context : Context)
  | realize
  | openNext (succeeds : Bool) (worker : ThreadId)
  | player (e : AudioPlayer.Event)
  | audioEnter
  | audioSection (length : Nat)
  | audioLeave
  | workerExit
  | destroy (thread : ThreadId)
  | destroyNext (word : MutexBridge.Addr) (code : MutexBridge.Errno) (raw : Nat)
  | resume
  | bridge (e : MutexBridge.Event)

def caller : AudioPlayer.Event → Option ThreadId
  | .enqueueBegin t _ | .enqueuePrepare t _ _ | .enqueueEnd t | .setPlayState t _ | .clear t
  | .registerCallback t _ _ => some t
  | _ => none

def entering : MutexBridge.Event → Option ThreadId
  | .call t _ _ => some t
  | _ => none

/-- asm2_audio_compat_callback_mutex; the word behind the context is read from guest memory. -/
def callbackMutex (audioCallback callback : Option GuestFunction) (context : Context)
    (word : MutexBridge.Addr) : Option MutexBridge.Addr :=
  if audioCallback = none ∨ callback ≠ audioCallback ∨ context = 0 ∨ word = 0 then none
  else some word

namespace State

def playerConfig (cfg : Config) (s : State) : AudioPlayer.Config :=
  { cfg.player with workerThread := s.workerThread }

/-- Nobody calls the player out of the bridge, and after Destroy has begun only the callback that
is running does. -/
def mayCall (s : State) (t : ThreadId) : Bool :=
  decide (s.destroy.thread ≠ some t) &&
    (decide (s.destroy = .idle) || decide (t = s.workerThread)) && decide (s.bridge.pc t = .idle)

/-- The steps of AudioPlayer that are steps here, with what the calls test first. The callback
returns out of guest code, not out of a call of the bridge. -/
def allows (s : State) : AudioPlayer.Event → Bool
  | .enqueueBegin t _ | .setPlayState t _ => s.realized && s.mayCall t
  | .clear t | .registerCallback t _ _ => s.mutex && s.mayCall t
  | .workerReturn =>
    decide (s.destroy.thread ≠ some s.workerThread) && decide (s.bridge.pc s.workerThread = .idle)
  | .audio _ | .destroyBegin _ | .destroyClose | .destroyEnd | .workerExit => false
  | _ => true

/-- The bridge is entered out of guest code: not in the middle of an Enqueue, and by the worker
only out of its callback, or once it is no worker any more. -/
def mayEnter (s : State) (t : ThreadId) : Bool :=
  (s.system.callOf t).isNone &&
    (decide (t ≠ s.workerThread) || System.inCallback s.system.worker ||
      decide (s.system.worker = .exited))

def setPlayer (s : State) (p : Player) : State := { s with system := { s.system with player := p } }

def setWorker (s : State) (pc : WorkerPc) : State :=
  { s with system := { s.system with worker := pc } }

def releasePlayer (s : State) : State :=
  { s with playersReleased := s.playersReleased + 1, audioSubsystemAcquired := false }

def failOpen (s : State) : State :=
  { s with opening := .none, audioSubsystemAcquired := false, mutex := false,
           callbackThread := false }

def openNext (cfg : Config) (s : State) (succeeds : Bool) (worker : ThreadId) : Option State :=
  match s.opening with
  | .none => none
  | .subsystem =>
    if succeeds then some { s with audioSubsystemAcquired := true, opening := .synchronization }
    else some { s with opening := .none }
  | .synchronization =>
    if succeeds then some { s with mutex := true, opening := .creating } else some s.failOpen
  | .creating =>
    if succeeds then
      (MutexBridge.step cfg.platform s.bridge (.spawn worker)).map fun bridge =>
        { s.setWorker .start with
          callbackThread := true
          workerThread := worker
          exit := .reading
          opening := .device
          bridge }
    else some s.failOpen
  | .device =>
    if succeeds then
      some { s.setPlayer { s.system.player with device := true } with
        deviceOpen := true, opening := .ready }
    else some { s with opening := .shutting }
  | .shutting =>
    some { s.setPlayer { s.system.player with shutdown := true } with opening := .joining }
  | .joining =>
    -- SDL_WaitThread
    if s.system.worker = .exited then
      some (s.setPlayer { s.system.player with shutdown := false }).failOpen
    else none
  | .ready => some { s with realized := true, opening := .none }

def workerExit (s : State) : Option State :=
  if s.system.worker = .leaving then
    match s.exit with
    | .reading =>
      some { s with
        exit := if s.system.player.destroyOnWorkerExit then .waiting else .counting false }
    | .waiting =>
      if s.system.player.destroyResourcesClosed then some { s with exit := .counting true } else none
    | .counting release =>
      if release then some { s with exit := .releasing } else some (s.setWorker .exited)
    | .releasing => some (s.setWorker .exited).releasePlayer
  else none

/-- asm2_sl_object_destroy up to the end of its first section. -/
def destroyBegin (s : State) (t : ThreadId) : State :=
  if s.mutex then
    let p := s.system.player
    let deferred := s.callbackThread && p.callbackThreadId == some t
    { s.setPlayer { p.beginDestroy t with
        destroyOnWorkerExit := p.destroyOnWorkerExit || deferred } with
      destroy := .locked t deferred p.device p.callbackInFlight p.inFlightCallback
        p.inFlightContext }
  else { s with destroy := .releasing t }

section Destroy

variable (cfg : Config)

def enterBridge (s : State) (t : ThreadId) (op : MutexBridge.Op) (m : MutexBridge.Addr)
    (pc : DestroyPc) : Option State :=
  (MutexBridge.step cfg.platform s.bridge (.call t op m)).map fun bridge =>
    { s with bridge, destroy := pc }

def inBridge (s : State) (t : ThreadId) (code : MutexBridge.Errno) (raw : Nat)
    (next : Int → DestroyPc) : Option State :=
  match s.bridge.pc t with
  | .returned _ result | .notFound _ result =>
    (MutexBridge.step cfg.platform s.bridge (.resume t)).map fun bridge =>
      { s with bridge, destroy := next result }
  | _ =>
    (MutexBridge.step cfg.platform s.bridge (.act t code raw)).map fun bridge => { s with bridge }

def destroyNext (s : State) (word : MutexBridge.Addr) (code : MutexBridge.Errno) (raw : Nat) :
    Option State :=
  match s.destroy with
  | .idle => none
  | .locked t deferred device inFlight callback context =>
    if !deferred && inFlight then
      match callbackMutex cfg.audioCallback callback context word with
      | some m => s.enterBridge cfg t (.handoffBegin cfg.handoff) m (.lending t device)
      | none => some { s with destroy := .closing t deferred false device }
    else some { s with destroy := .closing t deferred false device }
  | .lending t device =>
    s.inBridge cfg t code raw fun result => .closing t false (result = 1) device
  | .closing t deferred lent device =>
    let next : DestroyPc := if deferred then .detaching t else .joining t lent
    if device then
      -- SDL_CloseAudioDevice returns after the last audio callback.
      if s.audio = .idle then some { s with deviceOpen := false, destroy := next } else none
    else some { s with destroy := next }
  | .detaching t => some { s with callbackThread := false, destroy := .marking t }
  | .marking t =>
    some { s.setPlayer { s.system.player with destroyResourcesClosed := true } with
      destroy := .returned t true }
  | .joining t lent =>
    if s.callbackThread ∧ s.system.worker ≠ .exited then none
    else if lent then s.enterBridge cfg t (.handoffEnd cfg.handoff) 0 (.takingBack t)
    else some { s with destroy := .releasing t }
  | .takingBack t => s.inBridge cfg t code raw fun _ => .releasing t
  | .releasing t => some { s.releasePlayer with destroy := .returned t false }
  | .returned _ _ | .past _ => none

end Destroy

end State

open State

/-- Who may call Destroy: nobody is in Realize or, but for the callback that is running, in
another call, and the thread is in guest code. -/
def State.MayDestroy (cfg : Config) (s : State) (t : ThreadId) : Prop :=
  s.destroy = .idle ∧ s.opening = .none ∧ t ∈ s.bridge.live ∧ s.bridge.pc t = .idle ∧
    (s.mutex = true → s.system.MayCall (s.playerConfig cfg) t) ∧
    ∀ r ∈ s.system.running, r.thread = s.workerThread

instance (cfg : Config) (s : State) (t : ThreadId) : Decidable (s.MayDestroy cfg t) :=
  inferInstanceAs (Decidable (_ ∧ _ ∧ _ ∧ _ ∧ (_ → _) ∧ _))

/-- What the other threads, and the worker until it ends, do with guest mutexes. -/
def State.MayBridge (cfg : Config) (s : State) (e : MutexBridge.Event) : Prop :=
  (e.thread = none ∨ e.thread ≠ s.destroy.thread) ∧ e.uses cfg.handoff = false ∧
    (e = .exit s.workerThread → s.system.worker = .exited) ∧
    (entering e).all s.mayEnter = true

instance (cfg : Config) (s : State) (e : MutexBridge.Event) : Decidable (s.MayBridge cfg e) :=
  inferInstanceAs (Decidable (_ ∧ _ ∧ (_ → _) ∧ _))

def step (cfg : Config) (s : State) : Event → Option State
  | .registerCallback callback context =>
    -- Without the mutex the completions are left as they are.
    if s.mutex = false ∧ s.destroy = .idle then
      some (s.setPlayer { s.system.player with
        callbackGeneration := s.system.player.callbackGeneration + 1
        callback := callback
        callbackContext := context })
    else none
  | .realize =>
    if s.destroy = .idle ∧ s.opening = .none ∧ s.realized = false then
      some { s with opening := .subsystem }
    else none
  | .openNext succeeds worker => s.openNext cfg succeeds worker
  | .player e =>
    if s.allows e then
      (s.system.step (s.playerConfig cfg) e).map fun system => { s with system }
    else none
  | .audioEnter =>
    if s.deviceOpen = true ∧ s.audio = .idle then some { s with audio := .entered } else none
  | .audioSection length =>
    if s.audio = .entered then
      (s.system.audio length).map fun system => { s with system, audio := .left }
    else none
  | .audioLeave => if s.audio = .left then some { s with audio := .idle } else none
  | .workerExit => s.workerExit
  | .destroy t => if s.MayDestroy cfg t then some (s.destroyBegin t) else none
  | .destroyNext word code raw => s.destroyNext cfg word code raw
  | .resume =>
    match s.destroy with
    | .returned _ deferred => some { s with destroy := .past deferred }
    | _ => none
  | .bridge e =>
    if s.MayBridge cfg e then
      (MutexBridge.step cfg.platform s.bridge e).map fun bridge => { s with bridge }
    else none

/-- A player as asm2_sl_engine_create_audio_player returns it; there is no worker. -/
def initial : State where
  system := { System.initial none 0 0 with
    player := { Player.realized none 0 0 with device := false }
    worker := .exited }
  realized := false
  audioSubsystemAcquired := false
  mutex := false
  callbackThread := false
  workerThread := 0
  opening := .none
  deviceOpen := false
  audio := .idle
  exit := .reading
  destroy := .idle
  playersReleased := 0
  bridge := MutexBridge.initial

end Asm2Runtime.AudioTeardown
