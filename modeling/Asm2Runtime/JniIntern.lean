import Asm2Runtime.Interning
import Asm2Runtime.JniHandles

/-!
# Interned JNI handles

Runs of the four intern functions on any threads. A call first computes what it asks for
(`asm2_intern_id` looks the class up in a critical section of its own), then interns it in
one critical section.
-/

namespace Asm2Runtime.Jni

open JniUtf Transition EventLog Interning

section Requests

/-- The kinds for which `asm2_intern_id` is called. -/
inductive IdKind where
  | method | field
  deriving DecidableEq, Repr

def IdKind.kind : IdKind → HandleKind
  | .method => .method
  | .field => .field

/-- The arguments of a call of an intern function. -/
inductive Call where
  | class (className : Option CString)
  | object (className : Option CString)
  | id (kind : IdKind) (classHandle : Pointer) (name signature : Option CString) (isStatic : Bool)
  | string (text : Option CString)
  deriving DecidableEq

/-- What a call asks for when it takes the lock of the intern chains. -/
inductive Request where
  | class (className : Option CString)
  | object (className : Option CString)
  | id (kind : IdKind) (className : CString) (name signature : Option CString) (isStatic : Bool)
  | string (text : Option CString)
  deriving DecidableEq

def Call.request (t : Table) : Call → Request
  | .class className => .class className
  | .object className => .object className
  | .id kind classHandle name signature isStatic =>
    .id kind (idClassName t classHandle) name signature isStatic
  | .string text => .string text

/-- The handle returned and the handles after the critical section. -/
def Request.answer (item : Pointer) (t : Table) : Request → Pointer × Table
  | .class className => internClass item className t
  | .object className => internObject item className t
  | .id kind className name signature isStatic =>
    internId kind.kind item className name signature isStatic t
  | .string text => internString item text t

/-- What identifies an interned handle. -/
structure Key where
  kind : HandleKind
  className : Option CString
  name : Option CString
  signature : Option CString
  text : Option CString
  isStatic : Bool
  deriving DecidableEq

def Handle.key (handle : Handle) : Key :=
  { kind := handle.kind, className := handle.className, name := handle.name
    signature := handle.signature, text := handle.text, isStatic := handle.isStatic }

/-- The key of what the functions store for a request. -/
def Request.key : Request → Key
  | .class className => ⟨.class, some (classOrObject className), none, none, none, false⟩
  | .object className => ⟨.object, some (classOrObject className), none, none, none, false⟩
  | .id kind className name signature isStatic =>
    ⟨kind.kind, some className, some (name.getD emptyText), some (signature.getD emptyText), none,
      isStatic⟩
  | .string text => ⟨.string, some stringName, none, none, some (text.getD emptyText), false⟩

/-- A request for an id that passes a null name or a null signature. -/
def Request.nullable : Request → Prop
  | .id _ _ name signature _ => name = none ∨ signature = none
  | _ => False

instance : DecidablePred Request.nullable
  | .class _ => inferInstanceAs (Decidable False)
  | .object _ => inferInstanceAs (Decidable False)
  | .id _ _ name signature _ => inferInstanceAs (Decidable (name = none ∨ signature = none))
  | .string _ => inferInstanceAs (Decidable False)

/-- The intern chain of a request. -/
def Request.bucket : Request → Bucket
  | .class className =>
    internBucket .class (some (classOrObject className)) none none none false
  | .object className =>
    internBucket .object (some (classOrObject className)) none none none false
  | .id kind className name signature isStatic =>
    internBucket kind.kind (some className) name signature none isStatic
  | .string text => internBucket .string none none none (some (text.getD emptyText)) false

/-- The test of the chain's loop. -/
def Request.same : Request → Handle → Bool
  | .class className, item =>
    item.kind = .class ∧ textEqual item.className (some (classOrObject className))
  | .object className, item =>
    item.kind = .object ∧ textEqual item.className (some (classOrObject className))
  | .id kind className name signature isStatic, item =>
    item.kind = kind.kind ∧ item.isStatic = isStatic ∧
      textEqual item.className (some className) ∧
      textEqual item.name name ∧ textEqual item.signature signature
  | .string text, item => item.kind = .string ∧ textEqual item.text (some (text.getD emptyText))

/-- The handle stored for a request. -/
def Request.handle : Request → Handle
  | .class className => newHandle .class (some (classOrObject className))
  | .object className => newHandle .object (some (classOrObject className))
  | .id kind className name signature isStatic =>
    { newHandle kind.kind (some className) with
      name := some (name.getD emptyText), signature := some (signature.getD emptyText), isStatic }
  | .string text =>
    { newHandle .string (some stringName) with text := some (text.getD emptyText) }.fillUtf16

theorem Handle.fillUtf16_key (handle : Handle) : handle.fillUtf16.key = handle.key := by
  unfold Handle.fillUtf16
  split <;> rfl

theorem Request.handle_key (r : Request) : r.handle.key = r.key := by
  cases r with
  | string text => exact Handle.fillUtf16_key _
  | _ => rfl

theorem hashText_none (hash : BitVec 32) (text : Option CString) :
    hashText hash (some (text.getD emptyText)) = hashText hash text := by
  cases text <;> rfl

/-- The chain of a request in terms of what is stored for it. -/
def Key.bucket (key : Key) : Bucket :=
  internBucket key.kind (if key.kind = .string then none else key.className) key.name
    key.signature key.text key.isStatic

theorem internBucket_normalised (kind : HandleKind) (className name signature text : Option CString)
    (isStatic : Bool) :
    internBucket kind className (some (name.getD emptyText)) (some (signature.getD emptyText)) text
      isStatic = internBucket kind className name signature text isStatic := by
  simp only [internBucket, hashText_none]

theorem Request.bucket_key (r : Request) : r.bucket = r.key.bucket := by
  cases r with
  | id kind className name signature isStatic =>
    cases kind <;> exact (internBucket_normalised _ _ _ _ _ _).symm
  | _ => rfl

/-- Against a stored handle the test compares the keys, unless the request is nullable. -/
theorem Request.same_iff {r r' : Request} {item : Handle} (hitem : item.key = r'.key) :
    r.same item ↔ ¬ r.nullable ∧ r'.key = r.key := by
  have hkind : item.kind = r'.key.kind := congrArg Key.kind hitem
  have hclass : item.className = r'.key.className := congrArg Key.className hitem
  have hname : item.name = r'.key.name := congrArg Key.name hitem
  have hsignature : item.signature = r'.key.signature := congrArg Key.signature hitem
  have htext : item.text = r'.key.text := congrArg Key.text hitem
  have hstatic : item.isStatic = r'.key.isStatic := congrArg Key.isStatic hitem
  cases r with
  | id kind className name signature isStatic =>
    simp only [Request.same, decide_eq_true_eq, textEqual_iff, hkind, hclass, hname, hsignature,
      hstatic, Request.nullable]
    cases r' with
    | id kind' className' name' signature' isStatic' =>
      cases name <;> cases signature <;> simp [Request.key]
      tauto
    | _ => cases kind <;> simp [Request.key, IdKind.kind]
  | _ =>
    simp only [Request.same, decide_eq_true_eq, textEqual_iff, hkind, hclass, htext,
      Request.nullable, not_false_eq_true, true_and]
    cases r' with
    | id kind' className' name' signature' isStatic' =>
      cases kind' <;> simp [Request.key, IdKind.kind]
    | _ => simp [Request.key]

/-- A new handle with all that is stored in it before its chain shows it. -/
def storeHandle (item : Pointer) (handle : Handle) (t : Table) : Table :=
  modifyHandle item (fun _ => handle) (allocateHandle item handle.kind handle.className t)

theorem allocateHandle_store (item : Pointer) (kind : HandleKind) (className : Option CString)
    (t : Table) :
    allocateHandle item kind className t = storeHandle item (newHandle kind className) t := by
  simp [storeHandle, modifyHandle, allocateHandle, newHandle]

theorem modifyHandle_store (item : Pointer) (handle : Handle) (f : Handle → Handle) (t : Table)
    (hkind : (f handle).kind = handle.kind) :
    modifyHandle item f (storeHandle item handle t) = storeHandle item (f handle) t := by
  simp [storeHandle, modifyHandle, allocateHandle, hkind]

/-- One lookup in the chain, and a new handle at its head if it fails. -/
theorem Request.answer_eq (r : Request) (item : Pointer) (t : Table) :
    r.answer item t =
      match findIntern t r.bucket r.same with
      | some found => (found, t)
      | none => (item, publishIntern item r.bucket (storeHandle item r.handle t)) := by
  cases r with
  | id kind className name signature isStatic =>
    simp only [Request.answer, internId, allocateHandle_store]
    rw [modifyHandle_store _ _ _ _ rfl]
    rfl
  | string text =>
    simp only [Request.answer, internString, allocateHandle_store]
    rw [modifyHandle_store _ _ _ _ rfl]
    rfl
  | _ =>
    simp only [Request.answer, internClass, internObject, internNamed, allocateHandle_store]
    rfl

@[simp] theorem storeHandle_heap (item : Pointer) (handle : Handle) (t : Table) :
    (storeHandle item handle t).heap = Function.update t.heap item (some handle) := by
  simp [storeHandle, modifyHandle, allocateHandle]

@[simp] theorem storeHandle_internBuckets (item : Pointer) (handle : Handle) (t : Table) :
    (storeHandle item handle t).internBuckets = t.internBuckets := rfl

theorem Table.Chained.store {t : Table} {item : Pointer} (h : t.Chained) (hfresh : t.Fresh item)
    (handle : Handle) : (storeHandle item handle t).Chained :=
  (h.allocate hfresh _ _).modify item _

theorem findIntern_eq_some {t : Table} {bucket : Bucket} {same : Handle → Bool} {found : Pointer}
    (h : findIntern t bucket same = some found) :
    found ∈ t.internBuckets bucket ∧ ∀ handle, t.heap found = some handle → same handle := by
  refine ⟨List.mem_of_find?_eq_some h, fun handle hhandle => ?_⟩
  have := List.find?_some h
  simpa [hhandle] using this

theorem findIntern_eq_none {t : Table} {bucket : Bucket} {same : Handle → Bool}
    (h : findIntern t bucket same = none) {p : Pointer} (hp : p ∈ t.internBuckets bucket)
    {handle : Handle} (hhandle : t.heap p = some handle) : ¬ same handle := by
  have := List.find?_eq_none.mp h p hp
  simpa [hhandle] using this

end Requests

section Runs

abbrev Thread := Nat

structure World where
  table : Table
  /-- What the call of a thread is about to intern. -/
  pending : Thread → Option Request
  /-- The requests so far, with the handles returned. -/
  answers : List (Request × Pointer)

inductive Event where
  /-- The call up to the lock of the intern chains. -/
  | call (thread : Thread) (call : Call)
  /-- Its critical section; `item` is what `calloc` would return. -/
  | intern (thread : Thread) (item : Pointer)
  deriving DecidableEq

def World.call (w : World) (thread : Thread) (call : Call) : Option World :=
  match w.pending thread with
  | some _ => none
  | none =>
    some { w with pending := Function.update w.pending thread (some (call.request w.table)) }

def World.intern (w : World) (thread : Thread) (item : Pointer) : Option World :=
  (w.pending thread).bind fun r =>
    if w.table.Fresh item then
      let (p, table) := r.answer item w.table
      some
        { table
          pending := Function.update w.pending thread none
          answers := w.answers ++ [(r, p)] }
    else none

def step (w : World) : Event → Option World
  | .call thread call => w.call thread call
  | .intern thread item => w.intern thread item

def emptyWorld : World := { table := emptyTable, pending := fun _ => none, answers := [] }

/-- The intern chains hold the handles that were returned, with what was stored for them. -/
structure World.Stored (w : World) : Prop where
  chained : w.table.Chained
  interned : ∀ b, ∀ p ∈ w.table.internBuckets b, ∃ r : Request,
    (r, p) ∈ w.answers ∧ w.table.heap p = some r.handle
  answered : ∀ e ∈ w.answers, ∃ r : Request, w.table.heap e.2 = some r.handle ∧ r.key = e.1.key ∧
    e.2 ∈ w.table.internBuckets r.bucket
  returned : Throughout (Returned Request.key Request.nullable) w.answers

theorem stored_empty : emptyWorld.Stored := by
  refine ⟨chained_empty, ?_, ?_, Throughout.nil _⟩
  · intro b p hp
    cases hp
  · intro e he
    cases he

variable {w w' : World} {thread : Thread} {item p : Pointer} {r r' : Request}

/-- A handle found for a request was returned for its key before. -/
theorem World.Stored.found (h : w.Stored)
    (hfound : findIntern w.table r.bucket r.same = some p) :
    ∃ r', (r', p) ∈ w.answers ∧ w.table.heap p = some r'.handle ∧ ¬ r.nullable ∧
      r'.key = r.key := by
  obtain ⟨hmem, hsame⟩ := findIntern_eq_some hfound
  obtain ⟨r', hanswer, hheap⟩ := h.interned r.bucket p hmem
  have hkey := (Request.same_iff r'.handle_key).mp (hsame _ hheap)
  exact ⟨r', hanswer, hheap, hkey⟩

/-- A recognised request finds the handle of its key. -/
theorem World.Stored.not_found (h : w.Stored)
    (hnone : findIntern w.table r.bucket r.same = none) (hr : ¬ r.nullable) {e : Request × Pointer}
    (he : e ∈ w.answers) : e.1.key ≠ r.key := by
  intro hkey
  obtain ⟨r', hheap, hkey', hmem⟩ := h.answered e he
  have hbucket : r'.bucket = r.bucket := by
    rw [r'.bucket_key, r.bucket_key, hkey', hkey]
  rw [hbucket] at hmem
  refine findIntern_eq_none hnone hmem hheap ?_
  exact (Request.same_iff r'.handle_key).mpr ⟨hr, hkey'.trans hkey⟩

theorem World.Stored.returned_found (h : w.Stored)
    (hfound : findIntern w.table r.bucket r.same = some p) :
    Returned Request.key Request.nullable w.answers (r, p) := by
  obtain ⟨r', hanswer, hheap, hrecognised, hkey⟩ := h.found hfound
  refine ⟨fun o ho hvalue => ?_, fun hnull => absurd hnull hrecognised,
    fun _ _ => ⟨(r', p), hanswer, hkey, rfl⟩⟩
  obtain ⟨r'', hheap', hkey', -⟩ := h.answered o ho
  rw [hvalue, hheap] at hheap'
  have hhandle : r'.handle = r''.handle := Option.some.inj hheap'
  calc o.1.key = r''.key := hkey'.symm
    _ = r'.key := by rw [← r''.handle_key, ← hhandle, r'.handle_key]
    _ = r.key := hkey

theorem World.Stored.returned_new (h : w.Stored) (hfresh : w.table.Fresh item)
    (hnone : findIntern w.table r.bucket r.same = none) :
    Returned Request.key Request.nullable w.answers (r, item) := by
  have hnew : ∀ o ∈ w.answers, o.2 ≠ item := by
    intro o ho hvalue
    obtain ⟨r', hheap, -⟩ := h.answered o ho
    rw [hvalue, hfresh.free] at hheap
    cases hheap
  refine ⟨fun o ho hvalue => absurd hvalue (hnew o ho), fun _ => hnew, fun hr hold => ?_⟩
  obtain ⟨o, ho, hkey⟩ := hold
  exact absurd hkey (h.not_found hnone hr ho)

theorem World.Stored.intern_found (h : w.Stored)
    (hfound : findIntern w.table r.bucket r.same = some p) (pending : Thread → Option Request) :
    World.Stored { table := w.table, pending, answers := w.answers ++ [(r, p)] } := by
  refine ⟨h.chained, fun b q hq => ?_, fun e he => ?_, h.returned.snoc (h.returned_found hfound)⟩
  · obtain ⟨r', hanswer, hheap⟩ := h.interned b q hq
    exact ⟨r', List.mem_append_left _ hanswer, hheap⟩
  · rw [List.mem_append, List.mem_singleton] at he
    obtain he | rfl := he
    · exact h.answered e he
    · obtain ⟨r', hanswer, hheap, -, hkey⟩ := h.found hfound
      obtain ⟨r'', hheap', hkey', hmem⟩ := h.answered _ hanswer
      exact ⟨r'', hheap', hkey'.trans hkey, hmem⟩

theorem World.Stored.intern_new (h : w.Stored) (hfresh : w.table.Fresh item)
    (hnone : findIntern w.table r.bucket r.same = none) (pending : Thread → Option Request) :
    World.Stored
      { table := publishIntern item r.bucket (storeHandle item r.handle w.table), pending
        answers := w.answers ++ [(r, item)] } := by
  have hheap : ∀ q handle, w.table.heap q = some handle →
      Function.update w.table.heap item (some r.handle) q = some handle := by
    intro q handle hq
    have hne : q ≠ item := by
      rintro rfl
      rw [hfresh.free] at hq
      cases hq
    rw [Function.update_of_ne hne, hq]
  have hchain : ∀ b q, q ∈ Function.update w.table.internBuckets r.bucket
      (item :: w.table.internBuckets r.bucket) b ↔
        (q = item ∧ b = r.bucket) ∨ q ∈ w.table.internBuckets b := by
    intro b q
    by_cases hb : b = r.bucket
    · subst hb
      simp
    · simp [hb]
  refine ⟨(h.chained.store hfresh _).publish _ _, fun b q hq => ?_, fun e he => ?_,
    h.returned.snoc (h.returned_new hfresh hnone)⟩
  · obtain ⟨rfl, -⟩ | hold := (hchain b q).mp hq
    · exact ⟨r, List.mem_append_right _ (List.mem_singleton_self _), by simp [publishIntern]⟩
    · obtain ⟨r', hanswer, hq'⟩ := h.interned b q hold
      refine ⟨r', List.mem_append_left _ hanswer, ?_⟩
      simpa only [publishIntern, storeHandle_heap] using hheap q _ hq'
  · rw [List.mem_append, List.mem_singleton] at he
    obtain he | rfl := he
    · obtain ⟨r', hq, hkey, hmem⟩ := h.answered e he
      refine ⟨r', ?_, hkey, (hchain _ _).mpr (Or.inr hmem)⟩
      simpa only [publishIntern, storeHandle_heap] using hheap e.2 _ hq
    · exact ⟨r, by simp [publishIntern], rfl, (hchain _ _).mpr (Or.inl ⟨rfl, rfl⟩)⟩

theorem World.Stored.step (h : w.Stored) {e : Event} (hstep : Jni.step w e = some w') :
    w'.Stored := by
  cases e with
  | call thread call =>
    simp only [Jni.step, World.call] at hstep
    split at hstep
    · cases hstep
    · cases hstep
      exact ⟨h.chained, h.interned, h.answered, h.returned⟩
  | intern thread item =>
    simp only [Jni.step, World.intern, Option.bind_eq_some_iff] at hstep
    obtain ⟨r, -, hstep⟩ := hstep
    split at hstep
    · rename_i hfresh
      rw [r.answer_eq] at hstep
      cases hfound : findIntern w.table r.bucket r.same with
      | some found =>
        rw [hfound] at hstep
        cases hstep
        exact h.intern_found hfound _
      | none =>
        rw [hfound] at hstep
        cases hstep
        exact h.intern_new hfresh hfound _
    · cases hstep

/-- In every run the handles are found by their pointers and counted; they name the keys of
the requests exactly when no id has been asked for with a null name or signature after a
request with the same key. -/
theorem interned_iff_first {events : List Event} (hrun : run step emptyWorld events = some w) :
    ((∀ e ∈ w.answers, ∀ e' ∈ w.answers, e.2 = e'.2 ↔ e.1.key = e'.1.key) ∧
      (∀ p, (w.table.heap p).isSome →
        ∀ b, (w.table.handleBuckets b).count p = if b = handleBucket p then 1 else 0) ∧
      (∀ p, lookupHandle w.table p = if (w.table.heap p).isSome then some p else none) ∧
      w.table.stats.handles = {p | (w.table.heap p).isSome}.ncard) ↔
    ∀ before r p after, w.answers = before ++ (r, p) :: after → r.nullable →
      ∀ e ∈ before, e.1.key ≠ r.key := by
  have h : w.Stored := run_invariant (fun _ _ _ hw hstep => hw.step hstep) stored_empty hrun
  have hfirst : Throughout (First Request.key Request.nullable) w.answers ↔
      ∀ before r p after, w.answers = before ++ (r, p) :: after → r.nullable →
        ∀ e ∈ before, e.1.key ≠ r.key :=
    ⟨fun hall before r p after hsplit => hall before (r, p) after hsplit,
      fun hall before e after hsplit => hall before e.1 e.2 after hsplit⟩
  rw [← hfirst, ← interned_iff h.returned]
  refine and_iff_left ⟨fun p hp b => ?_, h.chained.lookupHandle, h.chained.ncard.symm⟩
  exact h.chained.count hp b

def textX : CString := literal "x"

/-- `FindClass`, then `GetFieldID` twice in the class found. -/
def fieldTwice (signature : Option CString) : List Event :=
  let fieldId := Call.id .field 16 (some textX) signature false
  [.call 0 (.class (some textX)), .intern 0 16, .call 0 fieldId, .intern 0 32, .call 0 fieldId,
    .intern 0 48]

def fieldAnswers (signature : Option CString) (second : Pointer) : List (Request × Pointer) :=
  let fieldId := Request.id .field textX (some textX) signature false
  [(.class (some textX), 16), (fieldId, 32), (fieldId, second)]

theorem interned_iff_first_fields : ∃ w, run step emptyWorld (fieldTwice (some textX)) = some w ∧
    w.answers = fieldAnswers (some textX) 32 ∧
    ((∀ e ∈ w.answers, ∀ e' ∈ w.answers, e.2 = e'.2 ↔ e.1.key = e'.1.key) ∧
      (∀ p, (w.table.heap p).isSome →
        ∀ b, (w.table.handleBuckets b).count p = if b = handleBucket p then 1 else 0) ∧
      (∀ p, lookupHandle w.table p = if (w.table.heap p).isSome then some p else none) ∧
      w.table.stats.handles = {p | (w.table.heap p).isSome}.ncard) := by
  have hanswers : (run step emptyWorld (fieldTwice (some textX))).map World.answers =
      some (fieldAnswers (some textX) 32) := by decide +kernel
  obtain ⟨w, hrun, hw⟩ := Option.map_eq_some_iff.mp hanswers
  refine ⟨w, hrun, hw, (interned_iff_first hrun).mpr fun before r p after hsplit hnull => ?_⟩
  have hmem : (r, p) ∈ fieldAnswers (some textX) 32 := by
    rw [← hw, hsplit]
    exact List.mem_append_right _ List.mem_cons_self
  simp only [fieldAnswers, List.mem_cons, List.not_mem_nil, or_false, Prod.mk.injEq] at hmem
  obtain ⟨rfl, -⟩ | ⟨rfl, -⟩ | ⟨rfl, -⟩ := hmem <;> simp [Request.nullable] at hnull

/-- Without a signature the second request gets another handle. -/
theorem not_interned : ¬ ∀ events w, run step emptyWorld events = some w →
    ∀ e ∈ w.answers, ∀ e' ∈ w.answers, e.2 = e'.2 ↔ e.1.key = e'.1.key := by
  intro hall
  have hanswers : (run step emptyWorld (fieldTwice none)).map World.answers =
      some (fieldAnswers none 48) := by decide +kernel
  obtain ⟨w, hrun, hw⟩ := Option.map_eq_some_iff.mp hanswers
  have hsame := hall _ w hrun (.id .field textX (some textX) none false, 32)
    (by simp [hw, fieldAnswers]) (.id .field textX (some textX) none false, 48)
    (by simp [hw, fieldAnswers])
  simp at hsame

end Runs

end Asm2Runtime.Jni
