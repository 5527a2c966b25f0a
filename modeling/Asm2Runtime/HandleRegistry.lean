import Asm2Runtime.LinkedChain
import Asm2Runtime.Transition

/-!
# The registry of guest handles

pthread_bridge.c keeps a host object for every guest attribute, mutex, condition
variable and semaphore. The guest's word holds the object's address; a registry of
256 chains says which words are handles. Lookups take no lock. Every load of a
lookup and every store to what others can see is one step of one thread.

Objects are never freed once they are published. `published` and `unlinked` list the
addresses that were put into a chain and taken out of it, newest first; with `stored`
and `log` they are a record that no function reads.
-/

namespace Asm2Runtime.HandleRegistry

open LinkedChain Transition

abbrev Tid := Nat
abbrev Errno := Nat

/-- A guest word, or an address. -/
abbrev Word := BitVec 32

def ENOMEM : Errno := 12
def EBUSY : Errno := 16
def EINVAL : Errno := 22

section Objects

/-- `asm2_object_kind` -/
inductive Kind where
  | attr | mutexAttr | mutex | cond | sem
  deriving DecidableEq, Repr

/-- The kinds that a first operation creates from a static initializer. -/
def Kind.lazy : Kind → Bool
  | .attr | .mutexAttr => false
  | .mutex | .cond | .sem => true

def asm2BridgeMagic : Word := 0x41313237

/-- `asm2_bridge_object`; of the host object the semaphore's initial value is kept. -/
structure BridgeObject where
  magic : Word
  kind : Kind
  active : Bool
  owner : Word
  rawHandle : Word
  guestMutexType : Nat
  semValue : Nat
  activeNext : Option Word
  retiredNext : Option Word
  deriving DecidableEq, Repr

/-- What `calloc` may return: nothing in the first 64 KiB, which no process has mapped. -/
structure Platform where
  callocs : Word → Bool
  unmapped : ∀ a, callocs a = true → 0x10000 ≤ a.toNat

def registryBucket (rawHandle : Word) : BitVec 8 :=
  let rawHandle := rawHandle ^^^ (rawHandle >>> 16)
  let rawHandle := rawHandle ^^^ (rawHandle >>> 8)
  rawHandle.setWidth 8

def staticMutexType (raw : Word) : Option Nat :=
  if raw &&& ~~~0xe000#32 ≠ 0 then none
  else
    let encodedType := (raw >>> 14) &&& 3
    if encodedType.toNat > 2 then none else some encodedType.toNat

/-- The type or the value that a static initializer of a kind stands for. -/
def staticInitializer (kind : Kind) (raw : Word) : Option Nat :=
  match kind with
  | .attr | .mutexAttr => none
  | .mutex => staticMutexType raw
  | .cond => if raw &&& ~~~3#32 ≠ 0 then none else some 0
  | .sem => if raw.toNat > 0x7fff then none else some raw.toNat

structure Registry where
  heap : Word → BridgeObject
  allocated : Word → Bool
  registry : BitVec 8 → Option Word
  retiredObjects : Option Word
  slots : Word → Word
  created : Nat
  active : Nat
  retired : Nat
  published : List Word
  unlinked : List Word

namespace Registry

def setObject (reg : Registry) (a : Word) (o : BridgeObject) : Registry :=
  { reg with heap := Function.update reg.heap a o }

def slotStore (reg : Registry) (slot value : Word) : Registry :=
  { reg with slots := Function.update reg.slots slot value }

def activeNext (reg : Registry) (a : Word) : Option Word := (reg.heap a).activeNext

/-- Store to a bucket head or to the `active_next` of an object. -/
def setLink (reg : Registry) (link : Link (BitVec 8) Word) (value : Option Word) : Registry :=
  match link with
  | .head b => { reg with registry := Function.update reg.registry b value }
  | .next a => reg.setObject a { reg.heap a with activeNext := value }

def loadLink (reg : Registry) (link : Link (BitVec 8) Word) : Option Word :=
  link.load reg.registry reg.activeNext

/-- The store that puts an object into its chain. -/
def publishHead (reg : Registry) (a : Word) : Registry :=
  { reg.setLink (.head (registryBucket a)) (some a) with published := a :: reg.published }

/-- The store that takes it out, to the link that leads to it. -/
def unlink (reg : Registry) (a : Word) (link : Link (BitVec 8) Word) : Registry :=
  { reg.setLink link (reg.activeNext a) with unlinked := a :: reg.unlinked }

/-- The objects that were ever in a chain, newest first. -/
def born (reg : Registry) (b : BitVec 8) : List Word :=
  reg.published.filter fun a => registryBucket a = b

/-- The objects that are in it. -/
def chain (reg : Registry) (b : BitVec 8) : List Word :=
  (reg.born b).filter fun a => a ∉ reg.unlinked

end Registry

end Objects

section Calls

/-- The arguments of `registry_find`. -/
structure Query where
  raw : Word
  owner : Word
  kind : Kind
  deriving DecidableEq, Repr

/-- The test in the loop of `registry_find`. -/
def Query.finds (q : Query) (o : BridgeObject) : Bool :=
  o.rawHandle = q.raw && o.owner = q.owner && o.magic = asm2BridgeMagic && o.kind = q.kind &&
    o.active

/-- The next load of `registry_find`: the bucket head, the `active` of an object or its
`active_next`. -/
inductive Walk where
  | head
  | node (a : Word)
  | next (a : Word)
  deriving DecidableEq, Repr

/-- The entry points, by what they do to the registry. `get` is `object_get` and may store a
mutex type into an attribute; `use` is one of the `get_or_create` functions. -/
inductive Op where
  | init (kind : Kind) (slot : Word) (attr : Option Word) (value : Nat)
  | get (kind : Kind) (slot : Word) (type : Option Nat)
  | use (kind : Kind) (slot : Word)
  | destroy (kind : Kind) (slot : Word)
  deriving DecidableEq, Repr

def Op.kind : Op → Kind
  | .init kind _ _ _ | .get kind _ _ | .use kind _ | .destroy kind _ => kind

def Op.slot : Op → Word
  | .init _ slot _ _ | .get _ slot _ | .use _ slot | .destroy _ slot => slot

def asm2PthreadAttrInit (guestAttr : Word) : Op := .init .attr guestAttr none 0
def asm2PthreadMutexattrInit (guestAttr : Word) : Op := .init .mutexAttr guestAttr none 0
def asm2PthreadMutexInit (guestMutex guestAttr : Word) : Op :=
  .init .mutex guestMutex (if guestAttr = 0 then none else some guestAttr) 0
def asm2PthreadCondInit (guestCond : Word) : Op := .init .cond guestCond none 0
def asm2SemInit (guestSem : Word) (value : Nat) : Op := .init .sem guestSem none value

def asm2PthreadAttrDestroy (guestAttr : Word) : Op := .destroy .attr guestAttr
def asm2PthreadMutexattrDestroy (guestAttr : Word) : Op := .destroy .mutexAttr guestAttr
def asm2PthreadMutexDestroy (guestMutex : Word) : Op := .destroy .mutex guestMutex
def asm2PthreadCondDestroy (guestCond : Word) : Op := .destroy .cond guestCond
def asm2SemDestroy (guestSem : Word) : Op := .destroy .sem guestSem

/-- Every other operation on a mutex, a condition variable or a semaphore starts like this. -/
def mutexGetOrCreate (guestMutex : Word) : Op := .use .mutex guestMutex
def condGetOrCreate (guestCond : Word) : Op := .use .cond guestCond
def semGetOrCreate (guestSem : Word) : Op := .use .sem guestSem

def asm2PthreadMutexattrSettype (guestAttr : Word) (type : Nat) : Op :=
  .get .mutexAttr guestAttr (some type)

/-- Which lookup a call is at: for the attribute of a new mutex, without the lock, or under it. -/
inductive Stage where
  | attr | early | locked
  deriving DecidableEq, Repr

/-- A call, with the mutex type it has read and the object it is going to destroy. -/
structure Call where
  op : Op
  stage : Stage
  type : Nat
  target : Option Word
  deriving DecidableEq, Repr

/-- The slot that the call looks up. -/
def Call.address (c : Call) : Word :=
  match c.stage, c.op with
  | .attr, .init _ _ (some attr) _ => attr
  | _, op => op.slot

def Call.query (c : Call) (raw : Word) : Query :=
  ⟨raw, c.address, if c.stage = .attr then .mutexAttr else c.op.kind⟩

inductive Outcome where
  | found (a : Word)
  | done
  | failed (error : Errno)
  deriving DecidableEq, Repr

/-- The next step of a thread. -/
inductive Pc where
  | idle
  | loading (c : Call) | finding (c : Call) (q : Query) (w : Walk)
  | found (c : Call) (q : Query) (r : Option Word)
  | locking (c : Call)
  | allocating (c : Call) (type : Nat) | initializing (c : Call) (a : Word) (type : Nat)
  /-- object_publish_locked -/
  | linking (c : Call) (a : Word) | heading (c : Call) (a : Word) | storing (c : Call) (a : Word)
  | counting (c : Call) (a : Word)
  /-- the host destroy, and object_retire_locked -/
  | destroying (c : Call) (a : Word) | deactivating (c : Call) (a : Word)
  | clearing (c : Call) (a : Word) | seeking (c : Call) (a : Word) (link : Link (BitVec 8) Word)
  | unlinking (c : Call) (a : Word) (link : Link (BitVec 8) Word) | pushing (c : Call) (a : Word)
  | discounting (c : Call) (a : Word)
  | unlocking (c : Call) (o : Outcome)
  | returned (c : Call) (o : Outcome)
  deriving DecidableEq, Repr

/-- The call owns `registry_lock`. -/
def Pc.inside : Pc → Bool
  | .idle | .locking _ | .returned _ _ => false
  | .loading c | .finding c _ _ | .found c _ _ => c.stage = .locked
  | _ => true

/-- The step stores to what other threads can see. -/
def Pc.stores : Pc → Bool
  | .heading _ _ | .storing _ _ | .counting _ _ | .deactivating _ _ | .clearing _ _
  | .unlinking _ _ _ | .pushing _ _ | .discounting _ _ => true
  | .found ⟨.get _ _ (some _), _, _, _⟩ _ (some _) => true
  | _ => false

/-- The result of a call as it was logged. -/
structure Return where
  tid : Tid
  op : Op
  outcome : Outcome
  stored : Bool
  deriving DecidableEq, Repr

structure State where
  reg : Registry
  registryLock : Option Tid
  pc : Tid → Pc
  stored : Tid → Bool
  log : List Return

/-- A process before its first call, with whatever the guest has in its words. -/
def initial (slots : Word → Word) : State :=
  { reg :=
      { heap := fun _ => ⟨0, .attr, false, 0, 0, 0, 0, none, none⟩
        allocated := fun _ => false, registry := fun _ => none, retiredObjects := none, slots
        created := 0, active := 0, retired := 0, published := [], unlinked := [] }
    registryLock := none, pc := fun _ => .idle, stored := fun _ => false, log := [] }

end Calls

section Step

/-- Where a call begins. -/
def begin (op : Op) : Pc :=
  let call (stage : Stage) : Call := ⟨op, stage, 0, none⟩
  if op.slot = 0 then .returned (call .early) (.failed EINVAL)
  else match op with
    | .init .mutex _ (some _) _ => .loading (call .attr)
    | .init _ _ _ _ => .locking (call .locked)
    | .get _ _ (some type) =>
      -- A type that the host has no mutex for is refused before the lookup.
      if type > 2 then .returned (call .early) (.failed EINVAL) else .loading (call .early)
    | .get _ _ none | .use _ _ => .loading (call .early)
    | .destroy kind _ => if kind.lazy then .loading (call .early) else .locking (call .locked)

/-- After `registry_find` has returned. -/
def resume (reg : Registry) (c : Call) (q : Query) (r : Option Word) : Registry × Pc :=
  match c.stage, r with
  | .attr, none => (reg, .returned c (.failed EINVAL))
  | .attr, some a =>
    (reg, .locking { c with stage := .locked, type := (reg.heap a).guestMutexType })
  | .early, none =>
    match c.op with
    | .get _ _ _ => (reg, .returned c (.failed EINVAL))
    | _ => (reg, .locking { c with stage := .locked })
  | .early, some a =>
    match c.op with
    | .get _ _ (some type) =>
      (reg.setObject a { reg.heap a with guestMutexType := type }, .returned c .done)
    | .destroy _ _ => (reg, .locking { c with stage := .locked, target := some a })
    | _ => (reg, .returned c (.found a))
  | .locked, none =>
    match c.op with
    | .init _ _ _ value => (reg, .allocating c (if c.op.kind = .sem then value else c.type))
    | .get _ _ _ => (reg, .unlocking c (.failed EINVAL))
    | .use kind _ | .destroy kind _ =>
      match staticInitializer kind q.raw with
      | none => (reg, .unlocking c (.failed EINVAL))
      | some type => (reg, .allocating c type)
  | .locked, some a =>
    match c.op with
    | .init _ _ _ _ => (reg, .unlocking c (.failed EBUSY))
    | .destroy kind _ =>
      if kind.lazy then (reg, .unlocking c (.found a)) else (reg, .destroying c a)
    | _ => (reg, .unlocking c (.found a))

/-- After the unlock: a destroy that had to create its object goes on with it. -/
def leave (c : Call) (o : Outcome) : Pc :=
  match c.op, c.target, o with
  | .destroy _ _, none, .found a => .locking { c with target := some a }
  | _, _, _ => .returned c o

/-- `calloc` and `object_allocate_locked`. -/
def newObject (c : Call) (a : Word) : BridgeObject :=
  ⟨asm2BridgeMagic, c.op.kind, true, c.op.slot, a, 0, 0, none, none⟩

/-- The host object of a kind, whose `init` has returned `code`. -/
def hostInit (kind : Kind) (type : Nat) (code : Errno) (o : BridgeObject) :
    Except Errno BridgeObject :=
  match kind with
  | .mutex =>
    if type > 2 then .error EINVAL
    else if code = 0 then .ok { o with guestMutexType := type } else .error code
  | .sem => if code = 0 then .ok { o with semValue := type } else .error code
  | _ => if code = 0 then .ok o else .error code

/-- The next load of `registry_find` after a pointer was read. -/
def visit (c : Call) (q : Query) : Option Word → Pc
  | none => .found c q none
  | some a => .finding c q (.node a)

/-- One step of a thread at `pc`. `calloc` is what an allocation returns and `code` what a host
function does; none means that the step is not enabled. -/
def advance (p : Platform) (reg : Registry) (lock : Option Tid) (t : Tid) (calloc : Option Word)
    (code : Errno) : Pc → Option (Registry × Option Tid × Pc)
  | .idle | .returned _ _ => none
  | .loading c => some (reg, lock, .finding c (c.query (reg.slots c.address)) .head)
  | .finding c q .head =>
    if q.raw = 0 then some (reg, lock, .found c q none)
    else some (reg, lock, visit c q (reg.registry (registryBucket q.raw)))
  | .finding c q (.node a) =>
    if q.finds (reg.heap a) then some (reg, lock, .found c q (some a))
    else some (reg, lock, .finding c q (.next a))
  | .finding c q (.next a) => some (reg, lock, visit c q (reg.activeNext a))
  | .found c q r => some ((resume reg c q r).1, lock, (resume reg c q r).2)
  | .locking c =>
    if lock = none then
      match c.target with
      | some a => some (reg, some t, .destroying c a)
      | none => some (reg, some t, .loading c)
    else none
  | .allocating c type =>
    match calloc with
    | none => some (reg, lock, .unlocking c (.failed ENOMEM))
    | some a =>
      if p.callocs a ∧ reg.allocated a = false then
        some ({ reg.setObject a (newObject c a) with
          allocated := Function.update reg.allocated a true }, lock, .initializing c a type)
      else none
  | .initializing c a type =>
    match hostInit c.op.kind type code (reg.heap a) with
    | .ok o => some (reg.setObject a o, lock, .linking c a)
    | .error error =>
      some ({ reg with allocated := Function.update reg.allocated a false }, lock,
        .unlocking c (.failed error))
  | .linking c a =>
    some (reg.setLink (.next a) (reg.registry (registryBucket a)), lock, .heading c a)
  | .heading c a => some (reg.publishHead a, lock, .storing c a)
  | .storing c a =>
    some (reg.slotStore (reg.heap a).owner (reg.heap a).rawHandle, lock, .counting c a)
  | .counting c a =>
    some ({ reg with created := reg.created + 1, active := reg.active + 1 }, lock,
      .unlocking c (.found a))
  | .destroying c a =>
    if code = 0 then some (reg, lock, .deactivating c a)
    else some (reg, lock, .unlocking c (.failed code))
  | .deactivating c a =>
    some (reg.setObject a { reg.heap a with active := false }, lock, .clearing c a)
  | .clearing c a =>
    some (reg.slotStore (reg.heap a).owner 0, lock, .seeking c a (.head (registryBucket a)))
  | .seeking c a link =>
    match reg.loadLink link with
    | none => some (reg, lock, .pushing c a)
    | some b =>
      if b = a then some (reg, lock, .unlinking c a link)
      else some (reg, lock, .seeking c a (.next b))
  | .unlinking c a link => some (reg.unlink a link, lock, .pushing c a)
  | .pushing c a =>
    some ({ reg.setObject a { reg.heap a with retiredNext := reg.retiredObjects } with
      retiredObjects := some a }, lock, .discounting c a)
  | .discounting c _ =>
    some ({ reg with active := reg.active - 1, retired := reg.retired + 1 }, lock,
      .unlocking c .done)
  | .unlocking c o => some (reg, none, leave c o)

inductive Event where
  | start (t : Tid) (op : Op)
  | act (t : Tid) (calloc : Option Word) (code : Errno)
  /-- The guest stores a word of its own. -/
  | guestStore (slot value : Word)
  deriving DecidableEq, Repr

/-- The thread is not in a call. -/
def Pc.free : Pc → Bool
  | .idle | .returned _ _ => true
  | _ => false

/-- Move a thread, and log the call if it returns. -/
def State.move (s : State) (t : Tid) (pc : Pc) (stored : Bool) : State :=
  { s with
    pc := Function.update s.pc t pc
    stored := Function.update s.stored t stored
    log := match pc with
      | .returned c o => s.log ++ [⟨t, c.op, o, stored⟩]
      | _ => s.log }

def step (p : Platform) (s : State) : Event → Option State
  | .start t op => if (s.pc t).free then some (s.move t (begin op) false) else none
  | .act t calloc code =>
    (advance p s.reg s.registryLock t calloc code (s.pc t)).map fun r =>
      State.move { s with reg := r.1, registryLock := r.2.1 } t r.2.2
        (s.stored t || (s.pc t).stores)
  | .guestStore slot value => some { s with reg := s.reg.slotStore slot value }

end Step

end Asm2Runtime.HandleRegistry
