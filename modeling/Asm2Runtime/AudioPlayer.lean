import Asm2Runtime.AudioQueue
import Asm2Runtime.Transition
import Mathlib.Algebra.Group.Nat.Defs

/-!
# The OpenSL player

One realized player with its callback worker, the SDL audio callback and any
number of threads that call its interfaces. A section under the player's mutex is
one step. What the guest does, which allocation fails and who moves next come
with the event, and each event leaves what it did in a log.
-/

namespace Asm2Runtime.AudioPlayer

abbrev ThreadId := Nat
/-- A guest callback and the context it is registered with. -/
abbrev GuestFunction := Nat
abbrev Context := Nat

inductive PlayState where
  | stopped
  | paused
  | playing
  deriving DecidableEq, Repr

inductive SlResult where
  | success
  | preconditionsViolated
  | parameterInvalid
  | memoryFailure
  | bufferInsufficient
  deriving DecidableEq, Repr

structure Player extends BufferQueue where
  callbackThreadId : Option ThreadId
  device : Bool
  playIndex : UInt32
  playedFrames : Nat
  playState : PlayState
  pendingCallbacks : UInt32
  pendingRecoveryCallbacks : UInt32
  callbackInFlight : Bool
  callbackGeneration : UInt32
  inFlightGeneration : UInt32
  shutdown : Bool
  destroyOnWorkerExit : Bool
  destroyResourcesClosed : Bool
  callback : Option GuestFunction
  callbackContext : Context
  inFlightCallback : Option GuestFunction
  inFlightContext : Context
  enqueueSerial : Nat
  enqueues : Nat
  completedBuffers : Nat
  callbacks : Nat
  callbacksWithoutEnqueue : Nat
  recoveryCallbacks : Nat
  staleEnqueues : Nat
  enqueueFailures : Nat
  underruns : Nat
  underrunBytes : Nat
  peakPcm : Nat

def bytesPerFrame : Nat := 4

/-- `a - b` on `uint32_t` -/
def subU32 (a b : Nat) : Nat := (a + 2 ^ 32 - b) % 2 ^ 32

namespace Player

def withQueue (p : Player) (Q : BufferQueue) : Player := { p with toBufferQueue := Q }

section Enqueue

def stale (p : Player) (t : ThreadId) : Bool :=
  p.callbackInFlight && p.callbackThreadId == some t &&
    p.inFlightGeneration != p.callbackGeneration

/-- The test that both sections of Enqueue make. -/
def refuses (capacity : Nat) (p : Player) (t : ThreadId) : Bool :=
  p.shutdown || p.stale t || decide (p.queuedCount ≥ capacity)

/-- The source reads `shutdown` for this once more, after it has released the mutex. -/
def refusal (p : Player) (t : ThreadId) : SlResult :=
  if p.shutdown || p.stale t then .preconditionsViolated else .bufferInsufficient

def countRefusal (p : Player) (t : ThreadId) : Player :=
  { p with
    enqueueFailures := p.enqueueFailures + 1
    staleEnqueues := if p.stale t then p.staleEnqueues + 1 else p.staleEnqueues }

/-- The buffer that is filled without the mutex: one from the free list or a new one. -/
def fillBuffer (b : AudioBuffer) (data : List UInt8) : AudioBuffer :=
  { b with data := data ++ b.data.drop data.length, size := data.length, offset := 0, next := none }

/-- `realloc` to the size of the data; the bytes behind the old block are whatever is there. -/
def resizeBuffer (b : AudioBuffer) (size : Nat) (fill : Nat → UInt8) : AudioBuffer :=
  { b with data := b.data ++ (List.range (size - b.data.length)).map fill, capacity := size }

def sampleMagnitude (low high : UInt8) : Nat :=
  let sample := low.toNat + 2 ^ 8 * high.toNat
  if sample < 2 ^ 15 then sample else 2 ^ 16 - sample

def pcmPeak : List UInt8 → Nat
  | low :: high :: rest => max (sampleMagnitude low high) (pcmPeak rest)
  | _ => 0

/-- The end of the second section: the filled buffer enters the queue. -/
def linkBuffer (p : Player) (a : Addr) (data : List UInt8) : Player :=
  { p.withQueue (p.toBufferQueue.linkLast a) with
    enqueueSerial := p.enqueueSerial + 1
    enqueues := p.enqueues + 1
    peakPcm := max p.peakPcm (pcmPeak data) }

end Enqueue

section Audio

/-- `memcpy` into the output. -/
def overwrite (stream : List UInt8) (offset : Nat) (bytes : List UInt8) : List UInt8 :=
  stream.take offset ++ bytes ++ stream.drop (offset + bytes.length)

/-- The bookkeeping of a buffer that has been played to its end. -/
def completeBuffer (p : Player) (a : Addr) : Player :=
  { p.withQueue (p.toBufferQueue.completeFirst a) with
    playIndex := p.playIndex + 1
    pendingCallbacks := p.pendingCallbacks + 1
    completedBuffers := p.completedBuffers + 1 }

/-- `count` bytes of the buffer have been copied. -/
def advance (p : Player) (a : Addr) (count : Nat) : Player :=
  { p.withQueue (p.toBufferQueue.put a
      { p.heap a with offset := (p.heap a).offset + count }) with
    playedFrames := p.playedFrames + count / bytesPerFrame }

/-- Where the copy loop stands: the player, the output and what of it is still to be filled. -/
structure Copying where
  player : Player
  stream : List UInt8
  output : Nat
  remaining : Nat

/-- One turn of the loop over the first buffer. -/
def copyBuffer (c : Copying) (a : Addr) : Copying :=
  let buffer := c.player.heap a
  let available := subU32 buffer.size buffer.offset
  let count := if available < c.remaining then available else c.remaining
  let player := c.player.advance a count
  ⟨if buffer.offset + count = buffer.size then player.completeBuffer a else player,
    overwrite c.stream c.output ((buffer.data.drop buffer.offset).take count),
    c.output + count, c.remaining - count⟩

def copyLoop : Nat → Copying → Option Copying
  | 0, _ => none
  | fuel + 1, c =>
    match c.player.head with
    | none => some c
    | some a => if c.remaining = 0 then some c else copyLoop fuel (copyBuffer c a)

def isActive (p : Player) : Bool := p.playState = .playing && !p.shutdown

def countUnderrun (p : Player) (remaining : Nat) : Player :=
  if remaining ≠ 0 then
    { p with underruns := p.underruns + 1, underrunBytes := p.underrunBytes + remaining }
  else p

/-- The stream as SDL gets it, and how many of its bytes came out of buffers. -/
def sdlAudioCallback (fuel : Nat) (p : Player) (length : Nat) :
    Option (Player × List UInt8 × Nat) :=
  let silence := List.replicate length 0
  if p.isActive then
    (copyLoop fuel ⟨p, silence, 0, length⟩).map fun c =>
      (c.player.countUnderrun c.remaining, c.stream, c.output)
  else some (p, silence, 0)

end Audio

section Control

/-- What every operation that starts a new generation does to it and to the completions. -/
def dropCompletions (p : Player) : Player :=
  { p with
    callbackGeneration := p.callbackGeneration + 1
    pendingCallbacks := 0
    pendingRecoveryCallbacks := 0 }

def setPlayState (p : Player) (state : PlayState) : Player :=
  { if state = .stopped then p.dropCompletions else p with playState := state }

/-- What Clear does around its loop, which leaves the lists `Q`. -/
def restart (p : Player) (Q : BufferQueue) : Player :=
  { (p.withQueue Q).dropCompletions with playIndex := 0, playedFrames := 0 }

/-- With the number of buffers dropped. -/
def bufferClear (fuel : Nat) (p : Player) : Option (Player × Nat) :=
  (p.toBufferQueue.clearQueuedBuffersLocked fuel).map fun r => (p.restart r.1, r.2)

def registerCallback (p : Player) (callback : Option GuestFunction) (context : Context) : Player :=
  { p.dropCompletions with callback := callback, callbackContext := context }

/-- The locked section of Destroy on thread `t`; the worker thread itself defers the rest. -/
def beginDestroy (p : Player) (t : ThreadId) : Player :=
  { p.dropCompletions with
    shutdown := true
    playState := .stopped
    callback := none
    callbackContext := 0
    device := false
    destroyOnWorkerExit := p.destroyOnWorkerExit || p.callbackThreadId == some t }

end Control

section Worker

def recoveryReady (p : Player) : Bool :=
  !p.shutdown && p.playState = .playing && p.callback.isSome && p.head.isNone &&
    p.queuedCount = 0 && p.pendingCallbacks = 0 && !p.callbackInFlight

def requestRecovery (p : Player) : Player :=
  if p.recoveryReady then { p with pendingCallbacks := 1, pendingRecoveryCallbacks := 1 } else p

/-- One completion is taken. -/
def takeCompletion (p : Player) : Player :=
  let taken := { p with pendingCallbacks := p.pendingCallbacks - 1 }
  if p.pendingRecoveryCallbacks ≠ 0 then
    { taken with
      pendingRecoveryCallbacks := p.pendingRecoveryCallbacks - 1
      recoveryCallbacks := p.recoveryCallbacks + 1 }
  else taken

def startCallback (p : Player) (f : GuestFunction) : Player :=
  { p with
    callbackInFlight := true
    inFlightGeneration := p.callbackGeneration
    inFlightCallback := some f
    inFlightContext := p.callbackContext }

def finishCallback (p : Player) (enqueueBefore : Nat) : Player :=
  { p with
    callbacks := p.callbacks + 1
    callbacksWithoutEnqueue :=
      if p.enqueueSerial = enqueueBefore then p.callbacksWithoutEnqueue + 1
      else p.callbacksWithoutEnqueue
    callbackInFlight := false
    inFlightGeneration := 0
    inFlightCallback := none
    inFlightContext := 0 }

end Worker

end Player

section System

/-- Where a running Enqueue stands between its two sections. -/
inductive Stage where
  /-- It has left the first section, with a free buffer if there was one. -/
  | taken (buffer : Option Addr)
  /-- The block could not be enlarged; the buffer goes back. -/
  | resizeFailed (buffer : Addr)
  | filled (buffer : Addr)
  deriving DecidableEq

def Stage.buffer : Stage → Option Addr
  | .taken buffer => buffer
  | .resizeFailed buffer => some buffer
  | .filled buffer => some buffer

/-- A buffer still to be allocated. -/
def Stage.owes : Stage → Nat
  | .taken none => 1
  | _ => 0

structure Running where
  thread : ThreadId
  data : List UInt8
  stage : Stage

inductive WorkerPc where
  | start
  | top
  /-- Inside `SDL_CondWaitTimeout`, without the mutex. -/
  | waiting
  /-- Has left the section that took a completion, with the callback to invoke. -/
  | dispatched (callback : GuestFunction) (context : Context) (enqueueBefore : Nat)
  | inCallback (callback : GuestFunction) (context : Context) (enqueueBefore : Nat)
  | reporting
  | leaving
  | exited
  deriving DecidableEq

inductive DestroyPc where
  | none
  | locked (thread : ThreadId) (deferred : Bool)
  | closed (thread : ThreadId) (deferred : Bool)
  | returned (thread : ThreadId) (deferred : Bool)
  deriving DecidableEq

inductive Obs where
  | enqueued (thread : ThreadId) (data : List UInt8)
  | refused (thread : ThreadId) (result : SlResult)
  /-- The output of an SDL callback, how many of its bytes came out of buffers, how many buffers
  that completed, and whether the player was playing and not shut down. -/
  | played (stream : List UInt8) (copied completed : Nat) (active : Bool)
  | cleared (dropped : Nat)
  | stateSet (state : PlayState)
  | registered (callback : Option GuestFunction) (context : Context)
  | destroyed
  | recovery
  | dequeued (callback : Option GuestFunction) (context : Context)
  | invoked (callback : GuestFunction) (context : Context)
  | finished
  | destroyReturned (thread : ThreadId)
  | released
  deriving DecidableEq

structure System where
  player : Player
  /-- All buffers allocated so far. -/
  allocated : List Addr
  running : List Running
  worker : WorkerPc
  destroyer : DestroyPc
  released : Bool
  log : List Obs

structure Config where
  capacity : Nat
  capacity_pos : 0 < capacity
  capacity_le : capacity ≤ 64
  /-- How many Enqueue calls may run at once. -/
  limit : Nat
  workerThread : ThreadId

inductive Event where
  | enqueueBegin (thread : ThreadId) (data : List UInt8)
  /-- The part without the mutex: a new buffer if needed, a larger block if needed, the copy. -/
  | enqueuePrepare (thread : ThreadId) (fresh : Option Addr) (block : Option (Nat → UInt8))
  | enqueueEnd (thread : ThreadId)
  | audio (length : Nat)
  | setPlayState (thread : ThreadId) (state : PlayState)
  | clear (thread : ThreadId)
  | registerCallback (thread : ThreadId) (callback : Option GuestFunction) (context : Context)
  | destroyBegin (thread : ThreadId)
  | destroyClose
  | destroyEnd
  | workerStart
  | workerLock
  | workerWake
  | workerInvoke
  | workerReturn
  | workerReport (due : Bool)
  | workerExit

namespace System

def callOf (s : System) (t : ThreadId) : Option Running := s.running.find? fun r => r.thread = t

/-- The other calls that are running. -/
def without (s : System) (t : ThreadId) : List Running := s.running.eraseP fun r => r.thread = t

def record (s : System) (p : Player) (o : Obs) : System :=
  { s with player := p, log := s.log ++ [o] }

def isDestroying (s : System) (t : ThreadId) : Bool :=
  match s.destroyer with
  | .locked u _ => u = t
  | .closed u _ => u = t
  | _ => false

/-- A thread can call the player when it is not inside another call; the worker thread calls it
only out of a callback. -/
def MayCall (cfg : Config) (s : System) (t : ThreadId) : Prop :=
  s.released = false ∧ s.callOf t = none ∧ s.isDestroying t = false ∧
    (t = cfg.workerThread → ∃ f c n, s.worker = .inCallback f c n)

def inCallback : WorkerPc → Bool
  | .inCallback _ _ _ => true
  | _ => false

theorem inCallback_iff (pc : WorkerPc) :
    inCallback pc = true ↔ ∃ f c n, pc = .inCallback f c n := by
  cases pc <;> simp [inCallback]

instance (cfg : Config) (s : System) (t : ThreadId) : Decidable (s.MayCall cfg t) :=
  have : Decidable (∃ f c n, s.worker = .inCallback f c n) :=
    decidable_of_iff _ (inCallback_iff s.worker)
  inferInstanceAs (Decidable (_ ∧ _ ∧ _ ∧ (_ → _)))

/-- Enough turns for a loop over a list of buffers. -/
def fuel (s : System) : Nat := s.allocated.length + 1

def enqueueBegin (cfg : Config) (s : System) (t : ThreadId) (data : List UInt8) :
    Option System :=
  if s.MayCall cfg t ∧ data.length < 2 ^ 32 then
    if data = [] then
      some (s.record s.player (.refused t .parameterInvalid))
    else if s.player.refuses cfg.capacity t then
      some (s.record (s.player.countRefusal t) (.refused t (s.player.refusal t)))
    else if s.running.length < cfg.limit then
      match s.player.freeBuffers with
      | none => some { s with running := ⟨t, data, .taken none⟩ :: s.running }
      | some a =>
        some { s with
          player := s.player.withQueue (s.player.toBufferQueue.takeFree a)
          running := ⟨t, data, .taken (some a)⟩ :: s.running }
    else none
  else none

/-- Enlarge the block if it is too small, then copy. -/
def prepareBuffer (s : System) (r : Running) (a : Addr) (block : Option (Nat → UInt8)) : System :=
  let b := s.player.heap a
  if b.capacity < r.data.length then
    match block with
    | none => { s with running := { r with stage := .resizeFailed a } :: s.without r.thread }
    | some fill =>
      { s with
        player := s.player.withQueue (s.player.toBufferQueue.put a
          (Player.fillBuffer (Player.resizeBuffer b r.data.length fill) r.data))
        running := { r with stage := .filled a } :: s.without r.thread }
  else
    { s with
      player := s.player.withQueue (s.player.toBufferQueue.put a (Player.fillBuffer b r.data))
      running := { r with stage := .filled a } :: s.without r.thread }

def enqueuePrepare (s : System) (t : ThreadId) (fresh : Option Addr)
    (block : Option (Nat → UInt8)) : Option System :=
  if s.released then none
  else match s.callOf t with
    | some r =>
      match r.stage with
      | .taken (some a) => some (s.prepareBuffer r a block)
      | .taken none =>
        match fresh with
        | none =>
          some ({ s with running := s.without t }.record s.player (.refused t .memoryFailure))
        | some a =>
          if a ∈ s.allocated then none
          else
            some ({ s with
              player := s.player.withQueue (s.player.toBufferQueue.put a .zero)
              allocated := a :: s.allocated }.prepareBuffer r a block)
      | _ => none
    | none => none

def enqueueEnd (cfg : Config) (s : System) (t : ThreadId) : Option System :=
  if s.released then none
  else match s.callOf t with
    | some r =>
      match r.stage with
      | .resizeFailed a =>
        let back := s.player.withQueue (s.player.toBufferQueue.recycleBufferLocked a)
        some ({ s with running := s.without t }.record
          { back with enqueueFailures := back.enqueueFailures + 1 } (.refused t .memoryFailure))
      | .filled a =>
        if s.player.refuses cfg.capacity t then
          let back := (s.player.countRefusal t).withQueue
            (s.player.toBufferQueue.recycleBufferLocked a)
          some ({ s with running := s.without t }.record back (.refused t (s.player.refusal t)))
        else
          some ({ s with running := s.without t }.record (s.player.linkBuffer a r.data)
            (.enqueued t r.data))
      | _ => none
    | none => none

/-- SDL calls until `SDL_CloseAudioDevice` has returned. -/
def deviceOpen (s : System) : Bool :=
  match s.destroyer with
  | .none => true
  | .locked _ _ => true
  | _ => false

def audio (s : System) (length : Nat) : Option System :=
  if s.deviceOpen ∧ length < 2 ^ 31 then
    (s.player.sdlAudioCallback s.fuel length).map fun r =>
      s.record r.1 (.played r.2.1 r.2.2 (r.1.completedBuffers - s.player.completedBuffers)
        s.player.isActive)
  else none

/-- The section of the worker that takes a completion, once there is one or the player shuts
down. -/
def takeSection (s : System) : System :=
  if s.player.shutdown then { s with worker := .leaving }
  else
    let p := s.player.takeCompletion
    match p.callback with
    | none => { s.record p (.dequeued none p.callbackContext) with worker := .top }
    | some f =>
      { s.record (p.startCallback f) (.dequeued (some f) p.callbackContext) with
        worker := .dispatched f p.callbackContext p.enqueueSerial }

/-- The loop test: wait while there is nothing to do. -/
def waitOrTake (s : System) : System :=
  if !s.player.shutdown && s.player.pendingCallbacks == 0 then { s with worker := .waiting }
  else s.takeSection

/-- The poll after a wait. -/
def poll (s : System) : System :=
  if s.player.recoveryReady then s.record s.player.requestRecovery .recovery else s

def destroyEnd (s : System) : Option System :=
  match s.destroyer with
  | .closed t true =>
    some { s.record { s.player with destroyResourcesClosed := true } (.destroyReturned t) with
      destroyer := .returned t true }
  | .closed t false =>
    -- The join.
    if s.worker = .exited then
      some { s with
        destroyer := .returned t false
        released := true
        log := s.log ++ [.released, .destroyReturned t] }
    else none
  | _ => none

def workerExit (s : System) : Option System :=
  match s.worker with
  | .leaving =>
    if s.player.destroyOnWorkerExit then
      if s.player.destroyResourcesClosed then
        some { s with worker := .exited, released := true, log := s.log ++ [.released] }
      else none
    else some { s with worker := .exited }
  | _ => none

def step (cfg : Config) (s : System) : Event → Option System
  | .enqueueBegin t data => s.enqueueBegin cfg t data
  | .enqueuePrepare t fresh block => s.enqueuePrepare t fresh block
  | .enqueueEnd t => s.enqueueEnd cfg t
  | .audio length => s.audio length
  | .setPlayState t state =>
    if s.MayCall cfg t then some (s.record (s.player.setPlayState state) (.stateSet state)) else none
  | .clear t =>
    if s.MayCall cfg t then
      (s.player.bufferClear s.fuel).map fun r => s.record r.1 (.cleared r.2)
    else none
  | .registerCallback t callback context =>
    if s.MayCall cfg t then
      some (s.record (s.player.registerCallback callback context) (.registered callback context))
    else none
  | .destroyBegin t =>
    if s.MayCall cfg t ∧ s.destroyer = .none then
      some { s.record (s.player.beginDestroy t) .destroyed with
        destroyer := .locked t (s.player.callbackThreadId == some t) }
    else none
  | .destroyClose =>
    match s.destroyer with
    | .locked t deferred => some { s with destroyer := .closed t deferred }
    | _ => none
  | .destroyEnd => s.destroyEnd
  | .workerStart =>
    if s.worker = .start then
      some { s with
        player := { s.player with callbackThreadId := some cfg.workerThread }
        worker := .top }
    else none
  | .workerLock => if s.worker = .top then some s.waitOrTake else none
  | .workerWake => if s.worker = .waiting then some s.poll.waitOrTake else none
  | .workerInvoke =>
    match s.worker with
    | .dispatched f c n => some { s.record s.player (.invoked f c) with worker := .inCallback f c n }
    | _ => none
  | .workerReturn =>
    match s.worker with
    | .inCallback _ _ n =>
      if s.callOf cfg.workerThread = none ∧ s.isDestroying cfg.workerThread = false then
        some { s.record (s.player.finishCallback n) .finished with worker := .reporting }
      else none
    | _ => none
  | .workerReport due =>
    if s.worker = .reporting then
      some { s with
        player := if due then { s.player with peakPcm := 0 } else s.player
        worker := .top }
    else none
  | .workerExit => s.workerExit

end System

/-- A player just realized, with the registration made before. -/
def Player.realized (callback : Option GuestFunction) (context : Context) (generation : UInt32) :
    Player where
  heap := fun _ => .zero
  head := none
  tail := none
  freeBuffers := none
  queuedCount := 0
  callbackThreadId := none
  device := true
  playIndex := 0
  playedFrames := 0
  playState := .stopped
  pendingCallbacks := 0
  pendingRecoveryCallbacks := 0
  callbackInFlight := false
  callbackGeneration := generation
  inFlightGeneration := 0
  shutdown := false
  destroyOnWorkerExit := false
  destroyResourcesClosed := false
  callback := callback
  callbackContext := context
  inFlightCallback := none
  inFlightContext := 0
  enqueueSerial := 0
  enqueues := 0
  completedBuffers := 0
  callbacks := 0
  callbacksWithoutEnqueue := 0
  recoveryCallbacks := 0
  staleEnqueues := 0
  enqueueFailures := 0
  underruns := 0
  underrunBytes := 0
  peakPcm := 0

def System.initial (callback : Option GuestFunction) (context : Context) (generation : UInt32) :
    System :=
  ⟨.realized callback context generation, [], [], .start, .none, false, []⟩

end System

end Asm2Runtime.AudioPlayer
