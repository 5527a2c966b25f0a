import Asm2Runtime.Transition
import Mathlib.Algebra.Group.Nat.Defs
import Mathlib.Logic.Function.Basic

/-!
# Guest mutexes over host mutexes

pthread_bridge.c gives every guest mutex a host pthread mutex and keeps a shadow
of its ownership in two atomic words, mutex_owner and mutex_depth. Every atomic
access of the shadow and every host call is one step of one thread; a host call
that blocks is a step that is not enabled yet. Guest mutexes are named by their
address, whose registered object never changes once it exists.

A call remembers what the shadow said about its thread when it began. No function
reads that record; it is there to state what the call returns.
-/

namespace Asm2Runtime.MutexBridge

open Transition

abbrev Tid := Nat
abbrev Addr := Nat
abbrev Errno := Nat

def EPERM : Errno := 1
def EAGAIN : Errno := 11
def EBUSY : Errno := 16
def EINVAL : Errno := 22
def EDEADLK : Errno := 35

def UINT32_MAX : Nat := 2 ^ 32 - 1
def UINTPTR_MAX : Nat := 2 ^ 32 - 1

/-- What the host gives: pthread_self of each thread, and the number of times a
recursive mutex can be locked, which is counted in 32 bits. -/
structure Platform where
  pthreadSelf : Tid → Nat
  recursionLimit : Nat
  recursionLimit_pos : 1 ≤ recursionLimit
  recursionLimit_le : recursionLimit ≤ UINT32_MAX

/-- The token of a thread in mutex_owner; zero is left for free mutexes. -/
def Platform.mutexCurrentOwner (p : Platform) (t : Tid) : Nat :=
  if p.pthreadSelf t = 0 then UINTPTR_MAX else p.pthreadSelf t

theorem Platform.mutexCurrentOwner_ne_zero (p : Platform) (t : Tid) :
    p.mutexCurrentOwner t ≠ 0 := by
  unfold mutexCurrentOwner
  split
  · decide
  · assumption

/-! ## The host mutex -/

inductive MutexType where
  | normal | recursive | errorcheck
  deriving DecidableEq, Repr

structure HostMutex where
  type : MutexType
  holder : Option Tid
  count : Nat
  deriving DecidableEq, Repr

namespace HostMutex

def acquire (h : HostMutex) (t : Tid) : HostMutex := { h with holder := some t, count := 1 }

/-- Lock again, if the type counts. -/
def relock (p : Platform) (h : HostMutex) : HostMutex × Errno :=
  if h.count < p.recursionLimit then ({ h with count := h.count + 1 }, 0) else (h, EAGAIN)

/-- pthread_mutex_lock; none while it blocks, for ever on a NORMAL mutex of its own. -/
def lock (p : Platform) (h : HostMutex) (t : Tid) : Option (HostMutex × Errno) :=
  match h.holder with
  | none => some (h.acquire t, 0)
  | some u =>
    if u = t then
      match h.type with
      | .normal => none
      | .recursive => some (h.relock p)
      | .errorcheck => some (h, EDEADLK)
    else none

def trylock (p : Platform) (h : HostMutex) (t : Tid) : HostMutex × Errno :=
  match h.holder with
  | none => (h.acquire t, 0)
  | some u => if u = t ∧ h.type = .recursive then h.relock p else (h, EBUSY)

/-- pthread_mutex_unlock. A NORMAL mutex does not check its holder. -/
def unlock (h : HostMutex) (t : Tid) : HostMutex × Errno :=
  if h.holder = some t ∨ h.type = .normal then
    if 1 < h.count then ({ h with count := h.count - 1 }, 0)
    else ({ h with holder := none, count := 0 }, 0)
  else (h, EPERM)

end HostMutex

/-- The registered object of a guest mutex. -/
structure Object where
  host : HostMutex
  mutexOwner : Nat
  mutexDepth : Nat
  deriving DecidableEq, Repr

/-- An object as object_allocate_locked and mutex_host_init leave it. -/
def Object.fresh (type : MutexType) : Object := ⟨⟨type, none, 0⟩, 0, 0⟩

/-- The type that an old-bionic static initializer encodes. -/
def staticMutexType (raw : Nat) : Option MutexType :=
  if raw % 2 ^ 13 ≠ 0 ∨ 2 ^ 16 ≤ raw then none
  else match raw / 2 ^ 14 with
    | 0 => some .normal
    | 1 => some .recursive
    | 2 => some .errorcheck
    | _ => none

/-! ## Calls -/

abbrev HandoffId := Nat

inductive Op where
  | lock | trylock | unlock
  | handoffBegin (handoff : HandoffId) | handoffEnd (handoff : HandoffId)
  | condWait | condTimedwait
  deriving DecidableEq, Repr

/-- A wait on a condition variable. -/
def Op.waits : Op → Bool
  | .condWait | .condTimedwait => true
  | _ => false

/-- A call that ends with mutex_record_acquired after locking the host mutex. -/
def Op.locks : Op → Bool
  | .lock | .trylock | .handoffEnd _ => true
  | _ => false

def Op.beginsHandoff : Op → Bool
  | .handoffBegin _ => true
  | _ => false

/-- A call of the bridge. `owned` and `depth` record the shadow at its start. -/
structure Call where
  op : Op
  mutex : Addr
  owned : Bool
  depth : Nat
  deriving DecidableEq, Repr

/-- The next access of a thread, with the local variables it needs. `error` is
what the call is going to return. -/
inductive Pc where
  | idle
  /-- cond_get_or_create, and both parts of mutex_get_or_create -/
  | findCond (c : Call) | find (c : Call) | create (c : Call)
  | hostLock (c : Call)
  /-- mutex_record_acquired -/
  | loadAcquired (c : Call) (error : Errno) | addDepth (c : Call) (error : Errno)
  | storeDepthOne (c : Call) (error : Errno) | storeOwner (c : Call) (error : Errno)
  /-- the two tests of asm2_pthread_mutex_handoff_begin -/
  | handoffOwner (c : Call) | handoffDepth (c : Call)
  /-- mutex_record_releasing -/
  | releaseLoadOwner (c : Call) | releaseLoadDepth (c : Call) (owner : Nat)
  | releaseStoreDepth (c : Call) (depth : Nat)
  | releaseStoreOwner (c : Call) (depth : Nat) | releaseStoreZero (c : Call) (depth : Nat)
  | hostUnlock (c : Call) (depth : Nat)
  /-- mutex_record_restore -/
  | restoreDepth (c : Call) (depth : Nat) (error : Errno)
  | restoreOwner (c : Call) (depth : Nat) (error : Errno)
  /-- pthread_cond_wait up to its release of the mutex, and after it -/
  | hostWait (c : Call) | waiting (c : Call)
  /-- the call is over; in the second case it did not find its objects -/
  | returned (c : Call) (result : Int) | notFound (c : Call) (result : Int)
  deriving DecidableEq, Repr

/-- `mutexes` lists the addresses that have an object. -/
structure State where
  live : List Tid
  pc : Tid → Pc
  mutexes : List Addr
  object : Addr → Option Object
  handoff : HandoffId → Option Addr

def initial : State :=
  { live := [], pc := fun _ => .idle, mutexes := [], object := fun _ => none
    handoff := fun _ => none }

namespace State

def goto (s : State) (t : Tid) (pc : Pc) : State := { s with pc := Function.update s.pc t pc }

def setObject (s : State) (m : Addr) (o : Object) : State :=
  { s with object := Function.update s.object m (some o) }

/-- object_publish_locked -/
def publish (s : State) (m : Addr) (type : MutexType) : State :=
  { s.setObject m (.fresh type) with mutexes := m :: s.mutexes }

end State

/-- Once the object is found. -/
def Call.found (c : Call) : Pc :=
  match c.op with
  | .lock | .trylock | .handoffEnd _ => .hostLock c
  | .unlock | .condWait | .condTimedwait => .releaseLoadOwner c
  | .handoffBegin _ => .handoffOwner c

/-- After mutex_record_releasing has returned 0. -/
def Call.released (c : Call) (depth : Nat) : Pc :=
  if c.op.waits then
    if depth ≠ 1 then .restoreDepth c depth EINVAL else .hostWait c
  else .hostUnlock c depth

/-- asm2_pthread_mutex_handoff_begin returns its errors negated. -/
def Call.failure (c : Call) (error : Errno) : Int :=
  if c.op.beginsHandoff then -(error : Int) else error

/-- After mutex_record_acquired; a handoff that has ended is cleared. -/
def State.acquired (s : State) (t : Tid) (c : Call) (error : Errno) : State :=
  match c.op with
  | .handoffEnd h => { s with handoff := Function.update s.handoff h none }.goto t (.returned c error)
  | _ => s.goto t (.returned c error)

/-- After the host unlock has succeeded. -/
def State.unlocked (s : State) (t : Tid) (c : Call) : State :=
  match c.op with
  | .handoffBegin h =>
    { s with handoff := Function.update s.handoff h (some c.mutex) }.goto t (.returned c 1)
  | _ => s.goto t (.returned c 0)

section Step

variable (p : Platform)

/-- The accesses that need the object of the mutex. -/
def onObject (s : State) (t : Tid) (o : Object) (code : Errno) : Pc → Option State
  | .hostLock c =>
    match if c.op = .trylock then some (o.host.trylock p t) else o.host.lock p t with
    | none => none
    | some (host, error) =>
      if error = 0 then
        some ((s.setObject c.mutex { o with host }).goto t (.loadAcquired c 0))
      else some (s.goto t (.returned c error))
  | .loadAcquired c error =>
    if o.mutexOwner = p.mutexCurrentOwner t then some (s.goto t (.addDepth c error))
    else some (s.goto t (.storeDepthOne c error))
  | .addDepth c error =>
    some ((s.setObject c.mutex { o with mutexDepth := (o.mutexDepth + 1) % 2 ^ 32 }).acquired t c
      error)
  | .storeDepthOne c error =>
    some ((s.setObject c.mutex { o with mutexDepth := 1 }).goto t (.storeOwner c error))
  | .storeOwner c error =>
    some ((s.setObject c.mutex { o with mutexOwner := p.mutexCurrentOwner t }).acquired t c error)
  | .handoffOwner c =>
    if o.mutexOwner ≠ p.mutexCurrentOwner t then some (s.goto t (.returned c 0))
    else some (s.goto t (.handoffDepth c))
  | .handoffDepth c =>
    if o.mutexDepth ≠ 1 then some (s.goto t (.returned c 0))
    else some (s.goto t (.releaseLoadOwner c))
  | .releaseLoadOwner c => some (s.goto t (.releaseLoadDepth c o.mutexOwner))
  | .releaseLoadDepth c owner =>
    if owner ≠ p.mutexCurrentOwner t ∨ o.mutexDepth = 0 then
      some (s.goto t (.returned c (c.failure EPERM)))
    else if 1 < o.mutexDepth then some (s.goto t (.releaseStoreDepth c o.mutexDepth))
    else some (s.goto t (.releaseStoreOwner c o.mutexDepth))
  | .releaseStoreDepth c depth =>
    some ((s.setObject c.mutex { o with mutexDepth := depth - 1 }).goto t (c.released depth))
  | .releaseStoreOwner c depth =>
    some ((s.setObject c.mutex { o with mutexOwner := 0 }).goto t (.releaseStoreZero c depth))
  | .releaseStoreZero c depth =>
    some ((s.setObject c.mutex { o with mutexDepth := 0 }).goto t (c.released depth))
  | .hostUnlock c depth =>
    match o.host.unlock t with
    | (host, 0) => some ((s.setObject c.mutex { o with host }).unlocked t c)
    | (_, error) => some (s.goto t (.restoreDepth c depth error))
  | .restoreDepth c depth error =>
    some ((s.setObject c.mutex { o with mutexDepth := depth }).goto t (.restoreOwner c depth error))
  | .restoreOwner c _ error =>
    some ((s.setObject c.mutex { o with mutexOwner := p.mutexCurrentOwner t }).goto t
      (.returned c (c.failure error)))
  | .hostWait c =>
    -- an error is found before the mutex is released
    if code = 0 then
      some ((s.setObject c.mutex { o with host := (o.host.unlock t).1 }).goto t (.waiting c))
    else some (s.goto t (.loadAcquired c code))
  | .waiting c =>
    if o.host.holder = none then
      some ((s.setObject c.mutex { o with host := o.host.acquire t }).goto t (.loadAcquired c code))
    else none
  | _ => none

/-- The mutex of the accesses in `onObject`. -/
def Pc.target : Pc → Option Addr
  | .hostLock c | .loadAcquired c _ | .addDepth c _ | .storeDepthOne c _ | .storeOwner c _
  | .handoffOwner c | .handoffDepth c | .releaseLoadOwner c | .releaseLoadDepth c _
  | .releaseStoreDepth c _ | .releaseStoreOwner c _ | .releaseStoreZero c _ | .hostUnlock c _
  | .restoreDepth c _ _ | .restoreOwner c _ _ | .hostWait c | .waiting c => some c.mutex
  | .idle | .findCond _ | .find _ | .create _ | .returned _ _ | .notFound _ _ => none

/-- One access of thread `t`. `code` is the error that the outside world decides:
of an allocation, or of a wait on a condition variable. `raw` is the word that
the guest has in a mutex without object. -/
def act (s : State) (t : Tid) (code : Errno) (raw : Nat) : Option State :=
  match s.pc t with
  | .findCond c =>
    if code = 0 then some (s.goto t (.find c)) else some (s.goto t (.notFound c code))
  | .find c =>
    if (s.object c.mutex).isSome then some (s.goto t c.found) else some (s.goto t (.create c))
  | .create c =>
    if (s.object c.mutex).isSome then some (s.goto t c.found)
    else match staticMutexType raw with
      | none => some (s.goto t (.notFound c (c.failure EINVAL)))
      | some type =>
        if code = 0 then some ((s.publish c.mutex type).goto t c.found)
        else some (s.goto t (.notFound c (c.failure code)))
  | pc =>
    match pc.target with
    | none => none
    | some m => (s.object m).bind fun o => onObject p s t o code pc

/-- The shadow as thread `t` sees it when it enters the bridge. -/
def enter (s : State) (t : Tid) (op : Op) (m : Addr) : Call :=
  match s.object m with
  | none => ⟨op, m, false, 0⟩
  | some o => ⟨op, m, o.mutexOwner = p.mutexCurrentOwner t, o.mutexDepth⟩

def start (s : State) (t : Tid) (op : Op) (m : Addr) : State :=
  match op with
  | .lock | .trylock | .unlock => s.goto t (.find (enter p s t op m))
  | .condWait | .condTimedwait => s.goto t (.findCond (enter p s t op m))
  | .handoffBegin h =>
    { s with handoff := Function.update s.handoff h none }.goto t (.find (enter p s t op m))
  | .handoffEnd h =>
    match s.handoff h with
    | some m => s.goto t (.hostLock (enter p s t op m))
    | none => s.goto t (.notFound (enter p s t op m) EINVAL)

inductive Event where
  /-- a thread starts or ends -/
  | spawn (t : Tid) | exit (t : Tid)
  /-- asm2_pthread_mutex_init -/
  | init (m : Addr) (type : MutexType)
  /-- a thread enters the bridge, moves in it, and goes on in guest code -/
  | call (t : Tid) (op : Op) (m : Addr)
  | act (t : Tid) (code : Errno) (raw : Nat)
  | resume (t : Tid)
  deriving DecidableEq, Repr

/-- The tokens of live threads differ, and a thread ends without a mutex. -/
def step (s : State) : Event → Option State
  | .spawn t =>
    if t ∉ s.live ∧ ∀ u ∈ s.live, p.mutexCurrentOwner u ≠ p.mutexCurrentOwner t then
      some { s with live := t :: s.live }
    else none
  | .exit t =>
    if t ∈ s.live ∧ s.pc t = .idle ∧
        ∀ m ∈ s.mutexes, (s.object m).bind (fun o => o.host.holder) ≠ some t then
      some { s with live := s.live.erase t }
    else none
  | .init m type => if (s.object m).isSome then some s else some (s.publish m type)
  | .call t op m => if t ∈ s.live ∧ s.pc t = .idle then some (start p s t op m) else none
  | .act t code raw => if t ∈ s.live then act p s t code raw else none
  | .resume t =>
    match s.pc t with
    | .returned _ _ | .notFound _ _ => if t ∈ s.live then some (s.goto t .idle) else none
    | _ => none

end Step

end Asm2Runtime.MutexBridge
