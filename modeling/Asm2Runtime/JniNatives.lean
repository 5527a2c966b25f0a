import Asm2Runtime.JniKeeps

/-!
# Registered natives

`asm2_register_natives`, `asm2_unregister_natives` and the lookup of jni_bridge.c. A call of
the first takes the lock once for each entry of its table, so a run is a list of these
sections, of unregistrations and of the other calls, in any order. The callback that reports
an entry is made outside the lock and reads nothing back.
-/

namespace Asm2Runtime.Jni

open JniUtf KeyedChain Transition

section Registry

structure NativeMethod where
  name : Option CString
  signature : Option CString
  function : Pointer

/-- `asm2_registered_native` -/
structure Record where
  className : Option CString
  name : CString
  signature : CString
  function : Pointer
  deriving DecidableEq

structure Natives where
  records : List Record
  /-- `asm2_native_count` -/
  count : Nat

/-- `was_active` -/
def Record.active (record : Record) : Bool := record.function ≠ 0

/-- The tests of the loops over the records. -/
def Record.is (record : Record) (className name signature : Option CString) : Bool :=
  textEqual record.className className ∧ textEqual (some record.name) name ∧
    textEqual (some record.signature) signature

/-- The critical section of `asm2_register_natives`. -/
def registerRecord (className : Option CString) (method : NativeMethod) (n : Natives) : Natives :=
  let name := method.name.getD emptyText
  let signature := method.signature.getD emptyText
  let found := n.records.findIdx? fun item => item.is className (some name) (some signature)
  let wasActive := ((found.bind fun index => n.records[index]?).map Record.active).getD false
  let records :=
    match found with
    | some index => n.records.modify index fun record => { record with function := method.function }
    | none => { className, name, signature, function := method.function } :: n.records
  let count :=
    if ¬ wasActive ∧ method.function ≠ 0 then n.count + 1
    else if wasActive ∧ method.function = 0 ∧ n.count ≠ 0 then n.count - 1
    else n.count
  { records, count }

/-- The loop of `asm2_unregister_natives`. -/
def unregisterLoop (className : Option CString) : List Record → Nat → List Record × Nat
  | [], count => ([], count)
  | item :: items, count =>
    if item.function ≠ 0 ∧ textEqual item.className className then
      let (items, count) := unregisterLoop className items (if count ≠ 0 then count - 1 else count)
      ({ item with function := 0 } :: items, count)
    else
      let (items, count) := unregisterLoop className items count
      (item :: items, count)

def unregisterClass (className : Option CString) (n : Natives) : Natives :=
  let (records, count) := unregisterLoop className n.records n.count
  { records, count }

/-- `asm2_jni_find_registered_native` -/
def findRegisteredNative (n : Natives) (className name signature : Option CString) : Pointer :=
  match n.records.find? fun item => item.function ≠ 0 ∧ item.is className name signature with
  | some item => item.function
  | none => 0

/-- `asm2_jni_registered_native_count` -/
def registeredNativeCount (n : Natives) : Nat := n.count

end Registry

section Calls

/-- What a critical section does, with the class name that it reads. -/
inductive Update where
  | register (className : Option CString) (method : NativeMethod)
  | unregister (className : Option CString)

def Update.apply (n : Natives) : Update → Natives
  | .register className method => registerRecord className method n
  | .unregister className => unregisterClass className n

/-- A call of `asm2_register_natives`: `class_item` and the entries that are left. -/
structure RegisterCall where
  classItem : Pointer
  methods : List NativeMethod

structure NativeState where
  bridge : Bridge
  natives : Natives
  calls : Thread → Option RegisterCall
  /-- The critical sections so far with the calling threads, the last one first. -/
  history : List (Thread × Update)
  /-- What the calls returned, the last one first: whether it is `ASM2_JNI_OK`. -/
  returned : List (Thread × Bool)

def emptyNatives : NativeState :=
  { bridge := emptyBridge, natives := { records := [], count := 0 }, calls := fun _ => none
    history := [], returned := [] }

inductive NativeEvent where
  | bridge (thread : Thread) (operation : Operation)
  /-- `asm2_register_natives` up to its loop; `methods` is the memory at the caller's pointer. -/
  | register (thread : Thread) (classHandle : Pointer) (methods : Option (Nat → NativeMethod))
    (methodCount : BitVec 32)
  /-- The next iteration of the loop, or the return after the last one. -/
  | next (thread : Thread)
  | unregister (thread : Thread) (classHandle : Pointer)

def NativeState.perform (s : NativeState) (thread : Thread) (update : Update) : NativeState :=
  { s with natives := update.apply s.natives, history := (thread, update) :: s.history }

def NativeState.return (s : NativeState) (thread : Thread) (ok : Bool) : NativeState :=
  { s with returned := (thread, ok) :: s.returned }

def NativeState.step (s : NativeState) : NativeEvent → Option NativeState
  | .bridge thread operation =>
    if (s.calls thread).isNone then
      (s.bridge.step (thread, operation)).map fun bridge => { s with bridge }
    else none
  | .register thread classHandle methods methodCount =>
    if (s.calls thread).isNone then
      match lookupHandle s.bridge.table classHandle, methods with
      | some classItem, some methods =>
        if methodCount.slt 0 then some (s.return thread false)
        else
          let call := { classItem, methods := (List.range methodCount.toNat).map methods }
          some { s with calls := Function.update s.calls thread (some call) }
      | _, _ => some (s.return thread false)
    else none
  | .next thread => do
    let call ← s.calls thread
    match call.methods with
    | [] => return { s with calls := Function.update s.calls thread none }.return thread true
    | method :: methods =>
      let item ← s.bridge.table.heap call.classItem
      let calls := Function.update s.calls thread (some { call with methods })
      return { s with calls }.perform thread (.register item.className method)
  | .unregister thread classHandle =>
    if (s.calls thread).isNone then
      match lookupHandle s.bridge.table classHandle with
      | some classItem => do
        let item ← s.bridge.table.heap classItem
        return (s.perform thread (.unregister item.className)).return thread true
      | none => some (s.return thread false)
    else none

end Calls

section Requests

/-- What a call of `asm2_register_natives` asks of the registry, unless it is refused: one
registration for each entry of the table, under the class name of the handle. -/
def registrations (item : Option Handle) (methods : Option (Nat → NativeMethod))
    (methodCount : BitVec 32) : Option (List Update) :=
  match item, methods with
  | some item, some methods =>
    if methodCount.slt 0 then none
    else some ((List.range methodCount.toNat).map fun index =>
      .register item.className (methods index))
  | _, _ => none

/-- The call that the thread makes with the event, as what it asks of the registry. -/
def NativeEvent.call (thread : Thread) (b : Bridge) : NativeEvent → List (Option (List Update))
  | .register caller classHandle methods methodCount =>
    if caller = thread then [registrations (handleAt b.table classHandle) methods methodCount]
    else []
  | .unregister caller classHandle =>
    if caller = thread then
      [(handleAt b.table classHandle).map fun item => [.unregister item.className]]
    else []
  | .bridge _ _ | .next _ => []

/-- Calls on the registry leave the bridge as it is. -/
def NativeEvent.bridgeAfter (b : Bridge) : NativeEvent → Bridge
  | .bridge thread operation => (b.step (thread, operation)).getD b
  | .register _ _ _ _ | .next _ | .unregister _ _ => b

/-- The calls of a thread on the registry, in their order. -/
def callsOf (thread : Thread) : Bridge → List NativeEvent → List (Option (List Update))
  | _, [] => []
  | b, event :: events => event.call thread b ++ callsOf thread (event.bridgeAfter b) events

/-- The entries of a thread in a log whose last entry stands first. -/
def entriesOf {α : Type} (thread : Thread) (log : List (Thread × α)) : List α :=
  ((log.filter fun entry => entry.1 = thread).map Prod.snd).reverse

/-- What the running call of the thread still has to do. -/
def NativeState.left (s : NativeState) (thread : Thread) : List Update :=
  match s.calls thread with
  | none => []
  | some call =>
    call.methods.map (.register ((s.bridge.table.heap call.classItem).bind Handle.className))

/-- The answer that the running call of the thread will give. -/
def NativeState.promised (s : NativeState) (thread : Thread) : List Bool :=
  (s.calls thread).toList.map fun _ => true

/-- The sections of every thread are what its calls asked for, in order and up to what the
running call has left, and a call returns `ASM2_JNI_OK` exactly if it is not refused. -/
structure NativeState.Answers (s : NativeState) (events : List NativeEvent) : Prop where
  sections : ∀ thread, entriesOf thread s.history ++ s.left thread =
    (callsOf thread emptyBridge events).flatMap fun asked => asked.getD []
  returned : ∀ thread, entriesOf thread s.returned ++ s.promised thread =
    (callsOf thread emptyBridge events).map Option.isSome

end Requests

section Lookup

/-- The class name, the name and the signature of a native method. -/
abbrev NativeKey := Option CString × CString × CString

def Record.key (record : Record) : NativeKey := (record.className, record.name, record.signature)

/-- The critical sections so far, of all threads, the last one first. -/
def NativeState.updates (s : NativeState) : List Update := s.history.map Prod.snd

/-- The last registration of the triple since the last unregistration of its class; the list
begins with the last section. -/
def lastFunction (key : NativeKey) : List Update → Pointer
  | [] => 0
  | .register className method :: earlier =>
    if (className, method.name.getD emptyText, method.signature.getD emptyText) = key then
      method.function
    else lastFunction key earlier
  | .unregister className :: earlier =>
    if className = key.1 then 0 else lastFunction key earlier

theorem Record.is_iff (record : Record) (className : Option CString) (name signature : CString) :
    record.is className (some name) (some signature) =
      decide (record.key = (className, name, signature)) := by
  unfold Record.is Record.key
  simp only [textEqual_iff, Option.some.injEq, Prod.mk.injEq]

/-- The record that a registration stores. -/
def NativeMethod.record (className : Option CString) (method : NativeMethod) : Record :=
  { className, name := method.name.getD emptyText, signature := method.signature.getD emptyText
    function := method.function }

variable {n : Natives} {className : Option CString} {method : NativeMethod}

theorem registerRecord_found (n : Natives) (className : Option CString) (method : NativeMethod) :
    (n.records.findIdx? fun item =>
      item.is className (some (method.name.getD emptyText))
        (some (method.signature.getD emptyText))) =
      indexOf Record.key n.records (method.record className).key := by
  unfold indexOf
  congr 1
  funext item
  exact item.is_iff _ _ _

theorem registerRecord_records :
    (registerRecord className method n).records =
      put Record.key (method.record className) n.records := by
  unfold registerRecord
  simp only [registerRecord_found]
  cases hindex : indexOf Record.key n.records (method.record className).key with
  | none => rw [put, hindex]; rfl
  | some index =>
    refine (put_eq_modify hindex fun x hx => ?_).symm
    obtain ⟨hclass, hname, hsignature⟩ : _ ∧ _ ∧ _ := by
      simpa [Record.key, NativeMethod.record] using hx
    simp [NativeMethod.record, ← hclass, ← hname, ← hsignature]

/-- The counter stays the number of the active records. -/
theorem registerRecord_count (h : n.count = n.records.countP Record.active) :
    (registerRecord className method n).count =
      (registerRecord className method n).records.countP Record.active := by
  rw [registerRecord_records]
  have hput :
      (put Record.key (method.record className) n.records).countP Record.active +
        ((toMap Record.key Record.active n.records
          (method.record className).key).getD false).toNat =
      n.records.countP Record.active + (method.record className).active.toNat :=
    countP_put Record.active (method.record className) n.records
  have hactive : (method.record className).active = decide (method.function ≠ 0) := rfl
  unfold registerRecord
  simp only [registerRecord_found]
  rw [toMap_eq_index] at hput
  rw [h]
  have hwas : ((indexOf Record.key n.records (method.record className).key).bind fun index =>
      n.records[index]?).map Record.active =
        (indexOf Record.key n.records (method.record className).key).bind fun index =>
          n.records[index]?.map Record.active := by
    rw [Option.map_bind]
    rfl
  rw [hwas]
  generalize ((indexOf Record.key n.records (method.record className).key).bind fun index =>
    n.records[index]?.map Record.active).getD false = wasActive at hput ⊢
  rw [hactive] at hput
  generalize n.records.countP Record.active = old at hput ⊢
  generalize (put Record.key (method.record className) n.records).countP Record.active = new
    at hput ⊢
  by_cases hfunction : method.function = 0
  · have hnew : decide (method.function ≠ 0) = false := decide_eq_false (not_not.mpr hfunction)
    rw [hnew, Bool.toNat_false, Nat.add_zero] at hput
    cases wasActive with
    | false =>
      rw [if_neg fun h => h.2 hfunction, if_neg fun h => Bool.false_ne_true h.1]
      exact hput.symm
    | true =>
      rw [Bool.toNat_true] at hput
      rw [if_neg fun h => h.2 hfunction, if_pos ⟨rfl, hfunction, by omega⟩]
      omega
  · have hnew : decide (method.function ≠ 0) = true := decide_eq_true hfunction
    rw [hnew, Bool.toNat_true] at hput
    cases wasActive with
    | false =>
      rw [if_pos ⟨Bool.false_ne_true, hfunction⟩]
      exact hput.symm
    | true =>
      rw [Bool.toNat_true] at hput
      rw [if_neg fun h => h.1 rfl, if_neg fun h => hfunction h.2.1]
      omega

/-- What an unregistration does to a record. -/
def Record.clear (className : Option CString) (record : Record) : Record :=
  if record.className = className then { record with function := 0 } else record

theorem Record.clear_key (className : Option CString) (record : Record) :
    (record.clear className).key = record.key := by
  unfold Record.clear
  split <;> rfl

/-- The loop of an unregistration, on a counter that counts the records left and others. -/
theorem unregisterLoop_eq (className : Option CString) (records : List Record) (others : Nat) :
    unregisterLoop className records (others + records.countP Record.active) =
      (records.map (Record.clear className),
        others + (records.map (Record.clear className)).countP Record.active) := by
  induction records generalizing others with
  | nil => rfl
  | cons record records ih =>
    rw [unregisterLoop, List.map_cons, List.countP_cons, List.countP_cons]
    by_cases hcleared : record.function ≠ 0 ∧ textEqual record.className className
    · have hclass := textEqual_iff.mp hcleared.2
      have hactive : record.active = true := decide_eq_true hcleared.1
      have hrecord : record.clear className = { record with function := 0 } := by
        rw [Record.clear, if_pos hclass]
      have hinactive : (record.clear className).active = false := by
        rw [hrecord]
        rfl
      have hcount : (if others + (records.countP Record.active + 1) ≠ 0 then
          others + (records.countP Record.active + 1) - 1
          else others + (records.countP Record.active + 1)) =
            others + records.countP Record.active := by
        rw [if_pos (by omega)]
        omega
      rw [if_pos hcleared, hactive, if_pos rfl, hcount, ih, hinactive, hrecord]
      simp
    · have hrecord : record.clear className = record := by
        unfold Record.clear
        split
        · rename_i hclass
          have hfunction : record.function = 0 := by
            by_contra hfunction
            exact hcleared ⟨hfunction, textEqual_iff.mpr hclass⟩
          rw [← hfunction]
        · rfl
      have hcount : others + (records.countP Record.active + if record.active then 1 else 0) =
          (others + if record.active then 1 else 0) + records.countP Record.active := by omega
      rw [if_neg hcleared, hcount, ih, hrecord]
      simp only [Prod.mk.injEq, true_and]
      omega

theorem unregisterClass_eq (h : n.count = n.records.countP Record.active) :
    unregisterClass className n =
      { records := n.records.map (Record.clear className)
        count := (n.records.map (Record.clear className)).countP Record.active } := by
  have hloop := unregisterLoop_eq className n.records 0
  rw [Nat.zero_add, Nat.zero_add, ← h] at hloop
  rw [unregisterClass, hloop]

theorem findRegisteredNative_eq (h : Unique Record.key n.records) (className : Option CString)
    (name signature : CString) :
    findRegisteredNative n className (some name) (some signature) =
      (toMap Record.key Record.function n.records (className, name, signature)).getD 0 := by
  have hfind : (n.records.find? fun item =>
      item.function ≠ 0 ∧ item.is className (some name) (some signature)) =
        (n.records.find? fun item => item.key = (className, name, signature)).filter
          Record.active := by
    rw [← h.find?_and]
    congr 1
    funext item
    rw [item.is_iff, Record.active]
    simp
  unfold findRegisteredNative toMap
  rw [hfind]
  cases hrecord : n.records.find? fun item => item.key = (className, name, signature) with
  | none => rfl
  | some item =>
    by_cases hfunction : item.function = 0
    · have hinactive : item.active = false := decide_eq_false (not_not.mpr hfunction)
      rw [Option.filter, hinactive]
      exact hfunction.symm
    · have hactive : item.active = true := decide_eq_true hfunction
      rw [Option.filter, hactive]
      rfl

end Lookup

section Followed

variable {s s' : NativeState} {thread caller : Thread} {event : NativeEvent}

theorem entriesOf_cons {α : Type} (thread caller : Thread) (x : α) (log : List (Thread × α)) :
    entriesOf thread ((caller, x) :: log) =
      entriesOf thread log ++ if caller = thread then [x] else [] := by
  unfold entriesOf
  rw [List.filter_cons]
  by_cases hcaller : caller = thread
  · rw [if_pos hcaller, if_pos (decide_eq_true hcaller), List.map_cons, List.reverse_cons]
  · rw [if_neg hcaller, if_neg (by simpa using hcaller), List.append_nil]

theorem callsOf_snoc (thread : Thread) (b : Bridge) (events : List NativeEvent)
    (event : NativeEvent) :
    callsOf thread b (events ++ [event]) =
      callsOf thread b events ++ event.call thread (events.foldl NativeEvent.bridgeAfter b) := by
  induction events generalizing b with
  | nil => exact List.append_nil _
  | cons first events ih => rw [List.cons_append, callsOf, callsOf, ih, List.append_assoc]; rfl

/-- A step answers what the thread asks with it. -/
structure NativeState.Moves (s : NativeState) (thread : Thread)
    (asked : List (Option (List Update))) (s' : NativeState) : Prop where
  sections : entriesOf thread s'.history ++ s'.left thread =
    entriesOf thread s.history ++ s.left thread ++ asked.flatMap fun asked => asked.getD []
  returned : entriesOf thread s'.returned ++ s'.promised thread =
    entriesOf thread s.returned ++ s.promised thread ++ asked.map Option.isSome

/-- The bridge is that of the events, the class of a running call is a handle, and every call
has been answered. -/
structure NativeState.Follows (events : List NativeEvent) (s : NativeState) : Prop where
  refines : s.bridge.Refines
  bridge : s.bridge = events.foldl NativeEvent.bridgeAfter emptyBridge
  classItem : ∀ thread call, s.calls thread = some call →
    (s.bridge.table.heap call.classItem).isSome
  answers : s.Answers events

theorem follows_empty : emptyNatives.Follows [] where
  refines := refines_empty
  bridge := rfl
  classItem := fun _ _ h => (nomatch h)
  answers := ⟨fun _ => rfl, fun _ => rfl⟩

theorem NativeState.Answers.snoc {events : List NativeEvent} (h : s.Answers events)
    (hmoves : ∀ thread, s.Moves thread
      (event.call thread (events.foldl NativeEvent.bridgeAfter emptyBridge)) s') :
    s'.Answers (events ++ [event]) where
  sections := fun thread => by
    rw [callsOf_snoc, List.flatMap_append, ← h.sections thread]
    exact (hmoves thread).sections
  returned := fun thread => by
    rw [callsOf_snoc, List.map_append, ← h.returned thread]
    exact (hmoves thread).returned

/-- What is left of a call does not change when other threads use the bridge. -/
theorem left_bridge {bridge : Bridge} {operation : Thread × Operation}
    (hstep : s.bridge.step operation = some bridge)
    (hitem : ∀ call, s.calls thread = some call → (s.bridge.table.heap call.classItem).isSome) :
    NativeState.left { s with bridge } thread = s.left thread := by
  unfold NativeState.left
  dsimp only
  cases hcall : s.calls thread with
  | none => rfl
  | some call =>
    obtain ⟨handle, hp⟩ := Option.isSome_iff_exists.mp (hitem call hcall)
    obtain ⟨handle', hp', hname⟩ := Bridge.step_className hp hstep
    simp only [hp, hp', Option.bind_some, hname]

/-- A thread that is not the caller sees no change. -/
theorem moves_other (hbridge : s'.bridge = s.bridge) (hcalls : s'.calls thread = s.calls thread)
    (hhistory : entriesOf thread s'.history = entriesOf thread s.history)
    (hreturned : entriesOf thread s'.returned = entriesOf thread s.returned) :
    s.Moves thread [] s' := by
  have hleft : s'.left thread = s.left thread := by
    unfold NativeState.left
    rw [hbridge, hcalls]
  refine ⟨?_, ?_⟩
  · rw [hhistory, hleft]
    exact (List.append_nil _).symm
  · rw [hreturned, NativeState.promised, hcalls]
    exact (List.append_nil _).symm

/-- A call that is refused. -/
theorem moves_refuse (hidle : s.calls caller = none) :
    s.Moves thread (if caller = thread then [none] else []) (s.return caller false) := by
  by_cases hcaller : caller = thread
  · rw [if_pos hcaller]
    subst hcaller
    refine ⟨(List.append_nil _).symm, ?_⟩
    change entriesOf caller ((caller, false) :: s.returned) ++ s.promised caller = _
    rw [entriesOf_cons, if_pos rfl, NativeState.promised, hidle]
    simp
  · rw [if_neg hcaller]
    refine moves_other rfl rfl rfl ?_
    change entriesOf thread ((caller, false) :: s.returned) = _
    rw [entriesOf_cons, if_neg hcaller, List.append_nil]

/-- A call begins with all the entries of its table left. -/
theorem moves_start (call : RegisterCall) {item : Handle} (hidle : s.calls caller = none)
    (hitem : s.bridge.table.heap call.classItem = some item) :
    s.Moves thread
      (if caller = thread then [some (call.methods.map (.register item.className))] else [])
      { s with calls := Function.update s.calls caller (some call) } := by
  by_cases hcaller : caller = thread
  · rw [if_pos hcaller]
    subst hcaller
    refine ⟨?_, ?_⟩
    · simp [NativeState.left, hidle, hitem]
    · simp [NativeState.promised, hidle]
  · rw [if_neg hcaller]
    exact moves_other rfl (Function.update_of_ne (Ne.symm hcaller) _ _) rfl rfl

/-- One iteration of the loop does the first of the entries that are left. -/
theorem moves_section {call : RegisterCall} {method : NativeMethod} {methods : List NativeMethod}
    {item : Handle} (hcall : s.calls caller = some call)
    (hmethods : call.methods = method :: methods)
    (hitem : s.bridge.table.heap call.classItem = some item) :
    s.Moves thread []
      (NativeState.perform
        { s with calls := Function.update s.calls caller (some { call with methods }) }
        caller (.register item.className method)) := by
  by_cases hcaller : caller = thread
  · subst hcaller
    refine ⟨?_, ?_⟩
    · change entriesOf caller ((caller, _) :: s.history) ++ _ = _
      rw [entriesOf_cons, if_pos rfl]
      simp [NativeState.left, NativeState.perform, hcall, hitem, hmethods]
    · simp [NativeState.promised, NativeState.perform, hcall]
  · refine moves_other rfl (Function.update_of_ne (Ne.symm hcaller) _ _) ?_ rfl
    change entriesOf thread ((caller, _) :: s.history) = _
    rw [entriesOf_cons, if_neg hcaller, List.append_nil]

/-- A call returns when nothing is left. -/
theorem moves_return {call : RegisterCall} (hcall : s.calls caller = some call)
    (hmethods : call.methods = []) :
    s.Moves thread []
      (NativeState.return { s with calls := Function.update s.calls caller none } caller true) := by
  by_cases hcaller : caller = thread
  · subst hcaller
    refine ⟨?_, ?_⟩
    · simp [NativeState.left, NativeState.return, hcall, hmethods]
    · change entriesOf caller ((caller, true) :: s.returned) ++ _ = _
      rw [entriesOf_cons, if_pos rfl]
      simp [NativeState.promised, NativeState.return, hcall]
  · refine moves_other rfl (Function.update_of_ne (Ne.symm hcaller) _ _) rfl ?_
    change entriesOf thread ((caller, true) :: s.returned) = _
    rw [entriesOf_cons, if_neg hcaller, List.append_nil]

/-- An unregistration is one section. -/
theorem moves_unregister (hidle : s.calls caller = none) (className : Option CString) :
    s.Moves thread (if caller = thread then [some [.unregister className]] else [])
      ((s.perform caller (.unregister className)).return caller true) := by
  by_cases hcaller : caller = thread
  · rw [if_pos hcaller]
    subst hcaller
    refine ⟨?_, ?_⟩
    · change entriesOf caller ((caller, _) :: s.history) ++ _ = _
      rw [entriesOf_cons, if_pos rfl]
      simp [NativeState.left, NativeState.perform, NativeState.return, hidle]
    · change entriesOf caller ((caller, true) :: s.returned) ++ _ = _
      rw [entriesOf_cons, if_pos rfl]
      simp [NativeState.promised, NativeState.perform, NativeState.return, hidle]
  · rw [if_neg hcaller]
    refine moves_other rfl rfl ?_ ?_
    · change entriesOf thread ((caller, _) :: s.history) = _
      rw [entriesOf_cons, if_neg hcaller, List.append_nil]
    · change entriesOf thread ((caller, true) :: s.returned) = _
      rw [entriesOf_cons, if_neg hcaller, List.append_nil]

/-- A handle that is found has been allocated. -/
theorem handle_of_lookup {p classItem : Pointer} (h : s.bridge.Refines)
    (hlookup : lookupHandle s.bridge.table p = some classItem) :
    ∃ item, s.bridge.table.heap classItem = some item ∧
      handleAt s.bridge.table p = some item := by
  have hfound := hlookup
  rw [h.sound.chained.lookupHandle] at hfound
  split at hfound
  · rename_i hsome
    obtain rfl := Option.some.inj hfound
    obtain ⟨item, hitem⟩ := Option.isSome_iff_exists.mp hsome
    refine ⟨item, hitem, ?_⟩
    rw [handleAt, hlookup]
    exact hitem
  · cases hfound

theorem registrations_refused {classHandle : Pointer} {methods : Option (Nat → NativeMethod)}
    (h : ∀ classItem table, lookupHandle s.bridge.table classHandle = some classItem →
      methods = some table → False) (methodCount : BitVec 32) :
    registrations (handleAt s.bridge.table classHandle) methods methodCount = none := by
  unfold registrations handleAt
  cases hlookup : lookupHandle s.bridge.table classHandle with
  | none => rfl
  | some classItem =>
    cases methods with
    | none => cases (some classItem).bind s.bridge.table.heap <;> rfl
    | some table => exact (h classItem table hlookup rfl).elim

/-- A step on the registry leaves the bridge as it is. -/
theorem NativeState.Follows.same {events : List NativeEvent} (h : s.Follows events)
    (hbridge : s'.bridge = s.bridge) (hafter : event.bridgeAfter s.bridge = s.bridge)
    {running : Option RegisterCall} (hcalls : s'.calls = Function.update s.calls caller running)
    (hrunning : ∀ call, running = some call → (s.bridge.table.heap call.classItem).isSome)
    (hmoves : ∀ thread, s.Moves thread (event.call thread s.bridge) s') :
    s'.Follows (events ++ [event]) where
  refines := hbridge ▸ h.refines
  bridge := by
    rw [List.foldl_append, ← h.bridge]
    exact hbridge.trans hafter.symm
  classItem := fun thread call hcall => by
    rw [hcalls, Function.update_apply] at hcall
    rw [hbridge]
    split at hcall
    · exact hrunning call hcall
    · exact h.classItem thread call hcall
  answers := by
    refine h.answers.snoc fun thread => ?_
    rw [← h.bridge]
    exact hmoves thread

/-- The same of a step that leaves the running calls as they are. -/
theorem NativeState.Follows.settled {events : List NativeEvent} (h : s.Follows events)
    (hbridge : s'.bridge = s.bridge) (hafter : event.bridgeAfter s.bridge = s.bridge)
    (hcalls : s'.calls = s.calls) (caller : Thread)
    (hmoves : ∀ thread, s.Moves thread (event.call thread s.bridge) s') :
    s'.Follows (events ++ [event]) :=
  h.same hbridge hafter (hcalls.trans (Function.update_eq_self caller s.calls).symm)
    (h.classItem caller) hmoves

theorem NativeState.Follows.step {events : List NativeEvent} (h : s.Follows events)
    (hstep : s.step event = some s') : s'.Follows (events ++ [event]) := by
  cases event with
  | bridge caller operation =>
    rw [NativeState.step] at hstep
    split at hstep
    · obtain ⟨bridge, hbridge, rfl⟩ := Option.map_eq_some_iff.mp hstep
      refine ⟨h.refines.step hbridge, ?_, fun thread call hcall => ?_,
        h.answers.snoc fun thread => ?_⟩
      · rw [List.foldl_append, ← h.bridge]
        simp [NativeEvent.bridgeAfter, hbridge]
      · obtain ⟨handle, hp⟩ := Option.isSome_iff_exists.mp (h.classItem thread call hcall)
        obtain ⟨handle', hp', -⟩ := Bridge.step_className hp hbridge
        exact Option.isSome_iff_exists.mpr ⟨handle', hp'⟩
      · have hleft := left_bridge hbridge (h.classItem thread)
        refine ⟨?_, (List.append_nil _).symm⟩
        rw [hleft]
        exact (List.append_nil _).symm
    · cases hstep
  | register caller classHandle methods methodCount =>
    unfold NativeState.step at hstep
    dsimp only at hstep
    split at hstep
    · rename_i hidle
      have hidle := Option.isNone_iff_eq_none.mp hidle
      split at hstep
      · rename_i classItem methods hlookup
        obtain ⟨item, hitem, hhandle⟩ := handle_of_lookup h.refines hlookup
        split at hstep
        · rename_i hnegative
          obtain rfl := Option.some.inj hstep
          refine h.settled rfl rfl rfl caller fun thread => ?_
          have hcall : registrations (handleAt s.bridge.table classHandle) (some methods)
              methodCount = none := by
            rw [hhandle]
            exact if_pos hnegative
          rw [NativeEvent.call, hcall]
          exact moves_refuse hidle
        · rename_i hcount
          obtain rfl := Option.some.inj hstep
          refine h.same rfl rfl rfl (fun call hcall => ?_) fun thread => ?_
          · obtain rfl := Option.some.inj hcall
            exact Option.isSome_iff_exists.mpr ⟨item, hitem⟩
          · have hcall : registrations (handleAt s.bridge.table classHandle) (some methods)
                methodCount = some (((List.range methodCount.toNat).map methods).map
                  (.register item.className)) := by
              rw [hhandle, List.map_map]
              exact if_neg hcount
            rw [NativeEvent.call, hcall]
            exact moves_start { classItem, methods := (List.range methodCount.toNat).map methods }
              hidle hitem
      · rename_i hrefused
        obtain rfl := Option.some.inj hstep
        refine h.settled rfl rfl rfl caller fun thread => ?_
        rw [NativeEvent.call, registrations_refused hrefused]
        exact moves_refuse hidle
    · cases hstep
  | next caller =>
    obtain ⟨call, hcall, hstep⟩ := Option.bind_eq_some_iff.mp hstep
    split at hstep
    · rename_i hmethods
      obtain rfl := Option.some.inj hstep
      exact h.same rfl rfl rfl (fun _ h => nomatch h) fun thread => moves_return hcall hmethods
    · rename_i method methods hmethods
      obtain ⟨item, hitem, hstep⟩ := Option.bind_eq_some_iff.mp hstep
      obtain rfl := Option.some.inj hstep
      refine h.same rfl rfl rfl (fun call' hcall' => ?_)
        fun thread => moves_section hcall hmethods hitem
      obtain rfl := Option.some.inj hcall'
      exact h.classItem caller call hcall
  | unregister caller classHandle =>
    rw [NativeState.step] at hstep
    split at hstep
    · rename_i hidle
      have hidle := Option.isNone_iff_eq_none.mp hidle
      split at hstep
      · rename_i classItem hlookup
        obtain ⟨item, hitem, hstep⟩ := Option.bind_eq_some_iff.mp hstep
        obtain rfl := Option.some.inj hstep
        refine h.settled rfl rfl rfl caller fun thread => ?_
        have hhandle : handleAt s.bridge.table classHandle = some item := by
          rw [handleAt, hlookup]
          exact hitem
        rw [NativeEvent.call, hhandle]
        exact moves_unregister hidle item.className
      · rename_i hlookup
        obtain rfl := Option.some.inj hstep
        refine h.settled rfl rfl rfl caller fun thread => ?_
        have hhandle : handleAt s.bridge.table classHandle = none := by
          rw [handleAt, hlookup]
          rfl
        rw [NativeEvent.call, hhandle]
        exact moves_refuse hidle
    · cases hstep

theorem answers_of_run {events : List NativeEvent}
    (hrun : run NativeState.step emptyNatives events = some s) : s.Answers events :=
  (run_history (fun _ _ _ _ hs hstep => hs.step hstep) follows_empty hrun).answers

end Followed

section Runs

/-- The records show the history, and the counter counts the active ones. -/
structure NativeState.Holds (s : NativeState) : Prop where
  named : s.bridge.table.Named
  unique : Unique Record.key s.natives.records
  count : s.natives.count = s.natives.records.countP Record.active
  classes : ∀ record ∈ s.natives.records, record.className.isSome
  function : ∀ key, (toMap Record.key Record.function s.natives.records key).getD 0 =
    lastFunction key s.updates

variable {s s' : NativeState}

theorem holds_empty : emptyNatives.Holds where
  named := fun _ _ h => (nomatch h)
  unique := List.nodup_nil
  count := rfl
  classes := fun _ h => (nomatch h)
  function := fun _ => rfl

/-- Only the bridge, the records and the history matter. -/
theorem NativeState.Holds.of_fields (h : s.Holds) (hbridge : s'.bridge = s.bridge)
    (hnatives : s'.natives = s.natives) (hhistory : s'.history = s.history) : s'.Holds where
  named := hbridge ▸ h.named
  unique := hnatives ▸ h.unique
  count := hnatives ▸ h.count
  classes := hnatives ▸ h.classes
  function := by
    rw [hnatives, NativeState.updates, hhistory]
    exact h.function

theorem NativeState.Holds.register (h : s.Holds) {className : Option CString} (thread : Thread)
    (hclass : className.isSome) (method : NativeMethod) :
    (s.perform thread (.register className method)).Holds := by
  have hrecords : (s.perform thread (.register className method)).natives.records =
      put Record.key (method.record className) s.natives.records := registerRecord_records
  refine ⟨h.named, ?_, registerRecord_count h.count, fun record hmem => ?_, fun key => ?_⟩
  · rw [hrecords]
    exact h.unique.put _
  · rw [hrecords] at hmem
    cases mem_put hmem with
    | inl hnew =>
      rw [hnew]
      exact hclass
    | inr hold => exact h.classes record hold
  · change _ = if (method.record className).key = key then _ else lastFunction key s.updates
    rw [hrecords, toMap_put, Function.update_apply, ← h.function key]
    by_cases hkey : (method.record className).key = key
    · rw [if_pos hkey, if_pos hkey.symm]
      rfl
    · rw [if_neg hkey, if_neg fun heq => hkey heq.symm]

theorem NativeState.Holds.unregister (h : s.Holds) (thread : Thread) (className : Option CString) :
    (s.perform thread (.unregister className)).Holds := by
  have hnatives : (s.perform thread (.unregister className)).natives =
      { records := s.natives.records.map (Record.clear className)
        count := (s.natives.records.map (Record.clear className)).countP Record.active } :=
    unregisterClass_eq h.count
  refine ⟨h.named, ?_, ?_, fun record hmem => ?_, fun key => ?_⟩
  · rw [hnatives]
    exact h.unique.map (Record.clear_key className)
  · rw [hnatives]
  · rw [hnatives] at hmem
    obtain ⟨old, hold, rfl⟩ := List.mem_map.mp hmem
    have hkey := congrArg Prod.fst (old.clear_key className)
    exact (congrArg Option.isSome hkey).trans (h.classes old hold)
  · change _ = if className = key.1 then 0 else lastFunction key s.updates
    rw [hnatives, toMap_map (Record.clear_key className), ← h.function key]
    unfold toMap
    cases hfind : s.natives.records.find? fun e => e.key = key with
    | none => simp
    | some record =>
      have hkey : record.key = key := by simpa using List.find?_some hfind
      have hclass : record.className = key.1 := congrArg Prod.fst hkey
      rw [Option.map_some, Option.map_some, Option.getD_some, Option.getD_some, Record.clear,
        hclass]
      by_cases heq : className = key.1
      · rw [if_pos heq, if_pos heq.symm]
      · rw [if_neg heq, if_neg fun h => heq h.symm]

theorem NativeState.Holds.step (h : s.Holds) {event : NativeEvent}
    (hstep : s.step event = some s') : s'.Holds := by
  cases event with
  | bridge thread operation =>
    rw [NativeState.step] at hstep
    split at hstep
    · obtain ⟨bridge, hbridge, rfl⟩ := Option.map_eq_some_iff.mp hstep
      exact ⟨h.named.step hbridge, h.unique, h.count, h.classes, h.function⟩
    · cases hstep
  | register thread classHandle methods methodCount =>
    unfold NativeState.step at hstep
    dsimp only at hstep
    split at hstep
    · split at hstep
      · split at hstep
        · obtain rfl := Option.some.inj hstep
          exact h.of_fields rfl rfl rfl
        · obtain rfl := Option.some.inj hstep
          exact h.of_fields rfl rfl rfl
      · obtain rfl := Option.some.inj hstep
        exact h.of_fields rfl rfl rfl
    · cases hstep
  | next thread =>
    obtain ⟨call, -, hstep⟩ := Option.bind_eq_some_iff.mp hstep
    split at hstep
    · obtain rfl := Option.some.inj hstep
      exact h.of_fields rfl rfl rfl
    · obtain ⟨item, hitem, hstep⟩ := Option.bind_eq_some_iff.mp hstep
      obtain rfl := Option.some.inj hstep
      refine NativeState.Holds.register ?_ thread (h.named _ item hitem) _
      exact h.of_fields rfl rfl rfl
  | unregister thread classHandle =>
    rw [NativeState.step] at hstep
    split at hstep
    · split at hstep
      · obtain ⟨item, -, hstep⟩ := Option.bind_eq_some_iff.mp hstep
        obtain rfl := Option.some.inj hstep
        exact (h.unregister thread item.className).of_fields rfl rfl rfl
      · obtain rfl := Option.some.inj hstep
        exact h.of_fields rfl rfl rfl
    · cases hstep

theorem holds_of_run {events : List NativeEvent}
    (hrun : run NativeState.step emptyNatives events = some s) : s.Holds :=
  run_invariant (fun _ _ _ hs hstep => hs.step hstep) holds_empty hrun

/-- The triples of texts that have a function. -/
def registered (n : Natives) : Set (CString × CString × CString) :=
  {key | findRegisteredNative n (some key.1) (some key.2.1) (some key.2.2) ≠ 0}

theorem mem_registered (n : Natives) (key : CString × CString × CString) :
    key ∈ registered n ↔
      ∃ record ∈ n.records, record.active ∧ record.key = (some key.1, key.2.1, key.2.2) := by
  have hsome : (n.records.find? fun item =>
      item.function ≠ 0 ∧ item.is (some key.1) (some key.2.1) (some key.2.2)).isSome ↔
        ∃ record ∈ n.records, record.active ∧ record.key = (some key.1, key.2.1, key.2.2) := by
    rw [List.find?_isSome]
    simp only [Record.is_iff, decide_eq_true_eq, Record.active]
  rw [← hsome]
  change findRegisteredNative n _ _ _ ≠ 0 ↔ _
  unfold findRegisteredNative
  cases hfind : n.records.find? fun item =>
      item.function ≠ 0 ∧ item.is (some key.1) (some key.2.1) (some key.2.2) with
  | none => simp
  | some item =>
    have htest := List.find?_some hfind
    have hfunction : item.function ≠ 0 := (of_decide_eq_true htest).1
    simpa using hfunction

theorem NativeState.Holds.ncard (h : s.Holds) :
    (registered s.natives).Finite ∧ (registered s.natives).ncard = s.natives.count := by
  have hactive : Unique Record.key (s.natives.records.filter Record.active) :=
    (List.filter_sublist.map Record.key).nodup h.unique
  obtain ⟨hfinite, hncard⟩ := hactive.ncard Record.function
  have himage : {key | (toMap Record.key Record.function
      (s.natives.records.filter Record.active) key).isSome} =
        (fun key : CString × CString × CString => (some key.1, key.2.1, key.2.2)) ''
          registered s.natives := by
    ext key
    change (toMap Record.key Record.function _ key).isSome ↔ _
    rw [← mem_keys_iff, List.mem_map]
    constructor
    · intro hmem
      obtain ⟨record, hrecord, rfl⟩ := hmem
      obtain ⟨hrecord, hactive⟩ := List.mem_filter.mp hrecord
      obtain ⟨className, hclass⟩ := Option.isSome_iff_exists.mp (h.classes record hrecord)
      have hkey : record.key = (some className, record.name, record.signature) := by
        rw [Record.key, hclass]
      refine ⟨(className, record.name, record.signature), ?_, hkey.symm⟩
      exact (mem_registered _ _).mpr ⟨record, hrecord, hactive, hkey⟩
    · intro hmem
      obtain ⟨triple, htriple, rfl⟩ := hmem
      obtain ⟨record, hrecord, hactive, hkey⟩ := (mem_registered _ _).mp htriple
      exact ⟨record, List.mem_filter.mpr ⟨hrecord, hactive⟩, hkey⟩
  have hinjective : Function.Injective
      (fun key : CString × CString × CString => (some key.1, key.2.1, key.2.2)) := by
    intro a b hab
    simp only [Prod.mk.injEq, Option.some.injEq] at hab
    exact Prod.ext hab.1 (Prod.ext hab.2.1 hab.2.2)
  rw [himage] at hfinite hncard
  refine ⟨hfinite.of_finite_image hinjective.injOn, ?_⟩
  rw [← Set.ncard_image_of_injective _ hinjective, hncard, h.count, List.countP_eq_length_filter]

/-- In every run the calls have done what they asked for, the lookup of a triple finds the
function that was registered last, the counter is the number of triples with a function, and no
triple has two records. -/
theorem natives_registry {events : List NativeEvent}
    (hrun : run NativeState.step emptyNatives events = some s) :
    s.Answers events ∧
      (∀ className name signature, findRegisteredNative s.natives (some className) (some name)
        (some signature) = lastFunction (some className, name, signature) s.updates) ∧
      (registered s.natives).Finite ∧
      registeredNativeCount s.natives = (registered s.natives).ncard ∧
      (s.natives.records.map Record.key).Nodup := by
  have h := holds_of_run hrun
  refine ⟨answers_of_run hrun, fun className name signature => ?_, h.ncard.1, h.ncard.2.symm,
    h.unique⟩
  rw [findRegisteredNative_eq h.unique, h.function]

/-- Registered, unregistered and registered again without a function. -/
def reviveX : List NativeEvent :=
  [.bridge 0 (.intern 16 (.class (some textX))),
    .register 0 16 (some fun _ => ⟨some textX, none, 7⟩) 1, .next 0, .next 0, .unregister 1 16,
    .register 1 16 (some fun _ => ⟨some textX, some emptyText, 0⟩) 1, .next 1]

theorem natives_registry_reviveX :
    ∃ s, run NativeState.step emptyNatives reviveX = some s ∧ s.natives.records.length = 1 ∧
      s.Answers reviveX ∧
      (∀ className name signature, findRegisteredNative s.natives (some className) (some name)
        (some signature) = lastFunction (some className, name, signature) s.updates) ∧
      (registered s.natives).Finite ∧
      registeredNativeCount s.natives = (registered s.natives).ncard ∧
      (s.natives.records.map Record.key).Nodup := by
  have hlength : (run NativeState.step emptyNatives reviveX).map
      (fun s => s.natives.records.length) = some 1 := by decide +kernel
  obtain ⟨s, hrun, hs⟩ := Option.map_eq_some_iff.mp hlength
  exact ⟨s, hrun, hs, natives_registry hrun⟩

end Runs

end Asm2Runtime.Jni
