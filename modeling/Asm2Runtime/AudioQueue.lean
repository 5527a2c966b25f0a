import Asm2Runtime.LinkedChain

/-!
# The buffer lists of a player

A player's buffers are linked through one field: the queue runs from `head` to
`tail`, the free list from `free_buffers`. The operations below are the ones done
under the player's mutex. `Shape` says which buffers are in which list.
-/

namespace Asm2Runtime.AudioPlayer

open LinkedChain

abbrev Addr := Nat

/-- A buffer with its bytes, its size and how far it has been played. -/
structure AudioBuffer where
  next : Option Addr
  /-- The block behind `data`, `capacity` bytes long. -/
  data : List UInt8
  size : Nat
  offset : Nat
  capacity : Nat

/-- `calloc` -/
def AudioBuffer.zero : AudioBuffer := ⟨none, [], 0, 0, 0⟩

/-- The queue between `head` and `tail`, and the list of free buffers. -/
structure BufferQueue where
  heap : Addr → AudioBuffer
  head : Option Addr
  tail : Option Addr
  freeBuffers : Option Addr
  queuedCount : Nat

namespace BufferQueue

def links (Q : BufferQueue) : Addr → Option Addr := fun a => (Q.heap a).next

def put (Q : BufferQueue) (a : Addr) (b : AudioBuffer) : BufferQueue :=
  { Q with heap := Function.update Q.heap a b }

def recycleBufferLocked (Q : BufferQueue) (a : Addr) : BufferQueue :=
  { Q.put a { Q.heap a with size := 0, offset := 0, next := Q.freeBuffers } with
    freeBuffers := some a }

/-- The loop over the queue of `asm2_sl_clear_queued_buffers_locked`, with the number of buffers
it met. -/
def recycleFrom : Nat → BufferQueue → Option Addr → Nat → Option (BufferQueue × Nat)
  | _, Q, none, dropped => some (Q, dropped)
  | 0, _, some _, _ => none
  | fuel + 1, Q, some a, dropped =>
    recycleFrom fuel (Q.recycleBufferLocked a) (Q.heap a).next (dropped + 1)

def clearQueuedBuffersLocked (fuel : Nat) (Q : BufferQueue) : Option (BufferQueue × Nat) :=
  (recycleFrom fuel Q Q.head 0).map fun r =>
    ({ r.1 with head := none, tail := none, queuedCount := 0 }, r.2)

/-- Enqueue takes the first free buffer. -/
def takeFree (Q : BufferQueue) (a : Addr) : BufferQueue :=
  { Q.put a { Q.heap a with next := none } with freeBuffers := (Q.heap a).next }

/-- Enqueue links a filled buffer behind the last one. -/
def linkLast (Q : BufferQueue) (a : Addr) : BufferQueue :=
  match Q.tail with
  | some t =>
    { Q.put t { Q.heap t with next := some a } with
      tail := some a, queuedCount := Q.queuedCount + 1 }
  | none => { Q with head := some a, tail := some a, queuedCount := Q.queuedCount + 1 }

/-- The SDL callback unlinks the first buffer and recycles it. -/
def completeFirst (Q : BufferQueue) (a : Addr) : BufferQueue :=
  ({ Q with
    head := (Q.heap a).next
    tail := if (Q.heap a).next = none then none else Q.tail
    queuedCount := if Q.queuedCount = 0 then 0 else Q.queuedCount - 1 } :
      BufferQueue).recycleBufferLocked a

end BufferQueue

/-- The queue and the free list, as the lists of their buffers. -/
structure Shape (Q : BufferQueue) (queue free : List Addr) : Prop where
  queued : Chain Q.links Q.head queue
  last : Q.tail = queue.getLast?
  count : Q.queuedCount = queue.length
  recycled : Chain Q.links Q.freeBuffers free
  apart : (queue ++ free).Nodup

/-- An operation that leaves the blocks behind the buffers as they are. -/
def SameBlocks (Q Q' : BufferQueue) : Prop :=
  ∀ a, (Q'.heap a).data = (Q.heap a).data ∧ (Q'.heap a).capacity = (Q.heap a).capacity

section Links

variable {Q : BufferQueue} {queue free : List Addr} {a : Addr}

theorem links_put (Q : BufferQueue) (a : Addr) (b : AudioBuffer) :
    (Q.put a b).links = Function.update Q.links a b.next := by
  funext c
  by_cases h : c = a
  · subst h
    simp [BufferQueue.links, BufferQueue.put]
  · simp [BufferQueue.links, BufferQueue.put, h]

theorem heap_put_of_ne (Q : BufferQueue) {a c : Addr} (b : AudioBuffer) (h : c ≠ a) :
    (Q.put a b).heap c = Q.heap c := by
  simp [BufferQueue.put, h]

theorem links_recycle (Q : BufferQueue) (a : Addr) :
    (Q.recycleBufferLocked a).links = Function.update Q.links a Q.freeBuffers :=
  links_put Q a _

theorem heap_recycle_of_ne (Q : BufferQueue) {a c : Addr} (h : c ≠ a) :
    (Q.recycleBufferLocked a).heap c = Q.heap c :=
  heap_put_of_ne Q _ h

theorem SameBlocks.refl (Q : BufferQueue) : SameBlocks Q Q := fun _ => ⟨rfl, rfl⟩

theorem SameBlocks.trans {Q Q' Q'' : BufferQueue} (h : SameBlocks Q Q') (h' : SameBlocks Q' Q'') :
    SameBlocks Q Q'' := fun a => ⟨(h' a).1.trans (h a).1, (h' a).2.trans (h a).2⟩

theorem SameBlocks.put {b : AudioBuffer} (hdata : b.data = (Q.heap a).data)
    (hcapacity : b.capacity = (Q.heap a).capacity) : SameBlocks Q (Q.put a b) := by
  intro c
  by_cases hca : c = a
  · subst hca
    simpa [BufferQueue.put] using And.intro hdata hcapacity
  · rw [heap_put_of_ne Q b hca]
    exact ⟨rfl, rfl⟩

theorem SameBlocks.recycle (Q : BufferQueue) (a : Addr) : SameBlocks Q (Q.recycleBufferLocked a) :=
  SameBlocks.put (Q := Q) rfl rfl

theorem SameBlocks.completeFirst (Q : BufferQueue) (a : Addr) : SameBlocks Q (Q.completeFirst a) :=
  SameBlocks.put (Q := Q) rfl rfl

theorem heap_completeFirst_of_ne (Q : BufferQueue) {a c : Addr} (h : c ≠ a) :
    (Q.completeFirst a).heap c = Q.heap c := by
  rw [BufferQueue.completeFirst]
  exact heap_recycle_of_ne _ h

theorem Shape.empty (heap : Addr → AudioBuffer) : Shape ⟨heap, none, none, none, 0⟩ [] [] :=
  ⟨rfl, rfl, rfl, rfl, List.nodup_nil⟩

theorem Shape.head_eq (h : Shape Q queue free) : Q.head = queue.head? := by
  cases queue with
  | nil => exact h.queued
  | cons a queue => exact h.queued.1

/-- `head` and `tail` are null together. -/
theorem Shape.head_none_iff (h : Shape Q queue free) : Q.head = none ↔ Q.tail = none := by
  rw [h.head_eq, h.last]
  simp

theorem Shape.put_other (h : Shape Q queue free) {b : AudioBuffer}
    (ha : a ∉ queue ++ free ∨ b.next = (Q.heap a).next) : Shape (Q.put a b) queue free := by
  have hlinks : ∀ c ∈ queue ++ free, (Q.put a b).links c = Q.links c := by
    intro c hc
    rw [links_put]
    by_cases hca : c = a
    · subst hca
      cases ha with
      | inl hnot => exact absurd hc hnot
      | inr hsame => rw [Function.update_self, hsame]; rfl
    · rw [Function.update_of_ne hca]
  constructor
  · exact h.queued.congr fun c hc => hlinks c (List.mem_append_left free hc)
  · exact h.last
  · exact h.count
  · exact h.recycled.congr fun c hc => hlinks c (List.mem_append_right queue hc)
  · exact h.apart

theorem Shape.recycle (h : Shape Q queue free) (ha : a ∉ queue ++ free) :
    Shape (Q.recycleBufferLocked a) queue (a :: free) := by
  have hq : a ∉ queue := fun hm => ha (List.mem_append_left free hm)
  have hf : a ∉ free := fun hm => ha (List.mem_append_right queue hm)
  constructor
  · rw [links_recycle]
    exact h.queued.update hq _
  · exact h.last
  · exact h.count
  · rw [links_recycle]
    exact h.recycled.push hf
  · rw [List.nodup_middle]
    exact List.nodup_cons.2 ⟨ha, h.apart⟩

theorem Shape.takeFree (h : Shape Q queue free) (ha : Q.freeBuffers = some a) :
    ∃ rest, free = a :: rest ∧ Shape (Q.takeFree a) queue rest ∧ a ∉ queue ++ rest ∧
      ((Q.takeFree a).heap a).next = none := by
  have hchain := h.recycled
  rw [ha] at hchain
  obtain ⟨rest, rfl, hrest⟩ := hchain.pop
  have happart := h.apart
  rw [List.nodup_middle, List.nodup_cons] at happart
  have hq : a ∉ queue := fun hm => happart.1 (List.mem_append_left rest hm)
  have hlinks : (Q.takeFree a).links = Function.update Q.links a none := links_put Q a _
  refine ⟨rest, rfl, ?_, happart.1, by simp [BufferQueue.takeFree, BufferQueue.put]⟩
  constructor
  · rw [hlinks]
    exact h.queued.update hq _
  · exact h.last
  · exact h.count
  · rw [hlinks]
    exact hrest
  · exact happart.2

/-- A buffer that is on neither list goes to the end of the queue. -/
theorem Shape.linkLast (h : Shape Q queue free) (ha : a ∉ queue ++ free)
    (hnext : (Q.heap a).next = none) : Shape (Q.linkLast a) (queue ++ [a]) free := by
  have hq : a ∉ queue := fun hm => ha (List.mem_append_left free hm)
  have hf : a ∉ free := fun hm => ha (List.mem_append_right queue hm)
  have happart : (queue ++ [a] ++ free).Nodup := by
    rw [List.append_assoc, List.singleton_append, List.nodup_middle]
    exact List.nodup_cons.2 ⟨ha, h.apart⟩
  unfold BufferQueue.linkLast
  cases ht : Q.tail with
  | none =>
    have hnil : queue = [] := by
      have hlast := h.last
      rw [ht] at hlast
      exact List.getLast?_eq_none_iff.1 hlast.symm
    subst hnil
    constructor
    · exact ⟨rfl, hnext⟩
    · rfl
    · simp [h.count]
    · exact h.recycled
    · exact happart
  | some t =>
    have hlast := h.last
    rw [ht] at hlast
    obtain ⟨before, rfl⟩ := List.getLast?_eq_some_iff.1 hlast.symm
    have htf : t ∉ free := fun hm =>
      (List.nodup_append.1 h.apart).2.2 t (by simp) t hm rfl
    have hlinks : (Q.put t { Q.heap t with next := some a }).links =
        Function.update Q.links t (some a) := links_put Q t _
    constructor
    · exact hlinks ▸ h.queued.enqueue hq hnext
    · simp
    · simp [h.count]
    · exact hlinks ▸ h.recycled.update htf _
    · exact happart

/-- Linking a buffer writes no more than the link of the last one. -/
theorem linkLast_heap (Q : BufferQueue) (a c : Addr) :
    ∃ next, (Q.linkLast a).heap c = { Q.heap c with next := next } := by
  unfold BufferQueue.linkLast
  cases Q.tail with
  | none => exact ⟨(Q.heap c).next, rfl⟩
  | some t =>
    by_cases hct : c = t
    · subst hct
      exact ⟨some a, by simp [BufferQueue.put]⟩
    · exact ⟨(Q.heap c).next, heap_put_of_ne Q _ hct⟩

theorem linkLast_others (h : Shape Q queue free) {c : Addr} (hc : c ∉ queue) :
    (Q.linkLast a).heap c = Q.heap c := by
  have hlast := h.last
  unfold BufferQueue.linkLast
  cases ht : Q.tail with
  | none => rfl
  | some t =>
    rw [ht] at hlast
    have hmem : t ∈ queue := List.mem_of_getLast? hlast.symm
    apply heap_put_of_ne
    intro heq
    exact hc (heq ▸ hmem)

theorem Shape.completeFirst (h : Shape Q queue free) (ha : Q.head = some a) :
    ∃ rest, queue = a :: rest ∧ Shape (Q.completeFirst a) rest (a :: free) := by
  cases queue with
  | nil =>
    have hnone : Q.head = none := h.queued
    rw [hnone] at ha
    cases ha
  | cons b rest =>
    obtain ⟨hb, hrest⟩ := h.queued
    obtain rfl : a = b := Option.some.inj (ha.symm.trans hb)
    have happart := h.apart
    rw [List.cons_append, List.nodup_cons] at happart
    refine ⟨rest, rfl, ?_⟩
    unfold BufferQueue.completeFirst
    apply Shape.recycle
    · constructor
      · exact hrest
      · -- The last buffer changes only when the queue runs empty.
        cases rest with
        | nil =>
          have hnone : (Q.heap a).next = none := hrest
          simp [hnone]
        | cons c rest =>
          have hsome : (Q.heap a).next = some c := hrest.1
          simp [hsome, h.last, List.getLast?_cons_cons]
      · simp [h.count]
      · exact h.recycled
      · exact happart.2
    · exact happart.1

theorem recycleFrom_shape {fuel : Nat} {p : Option Addr} {dropped : Nat} {r : BufferQueue × Nat}
    (hq : Chain Q.links p queue) (hf : Chain Q.links Q.freeBuffers free)
    (happart : (queue ++ free).Nodup)
    (hr : BufferQueue.recycleFrom fuel Q p dropped = some r) :
    Chain r.1.links r.1.freeBuffers (queue.reverse ++ free) ∧
      r.2 = dropped + queue.length := by
  induction queue generalizing fuel Q p dropped free with
  | nil =>
    have hp : p = none := hq
    subst hp
    cases fuel with
    | zero =>
      simp only [BufferQueue.recycleFrom, Option.some.injEq] at hr
      subst hr
      exact ⟨hf, rfl⟩
    | succ fuel =>
      simp only [BufferQueue.recycleFrom, Option.some.injEq] at hr
      subst hr
      exact ⟨hf, rfl⟩
  | cons a queue ih =>
    obtain ⟨rfl, hrest⟩ := hq
    rw [List.cons_append, List.nodup_cons] at happart
    have haq : a ∉ queue := fun hm => happart.1 (List.mem_append_left free hm)
    have haf : a ∉ free := fun hm => happart.1 (List.mem_append_right queue hm)
    cases fuel with
    | zero => simp [BufferQueue.recycleFrom] at hr
    | succ fuel =>
      rw [BufferQueue.recycleFrom] at hr
      have hq' : Chain (Q.recycleBufferLocked a).links (Q.heap a).next queue := by
        rw [links_recycle]
        exact hrest.update haq _
      have hf' : Chain (Q.recycleBufferLocked a).links (Q.recycleBufferLocked a).freeBuffers
          (a :: free) := by
        rw [links_recycle]
        exact hf.push haf
      have happart' : (queue ++ a :: free).Nodup := by
        rw [List.nodup_middle]
        exact List.nodup_cons.2 happart
      obtain ⟨hchain, hdropped⟩ := ih hq' hf' happart' hr
      rw [List.reverse_cons, List.append_assoc, List.singleton_append, List.length_cons]
      exact ⟨hchain, by omega⟩

theorem Shape.clear (h : Shape Q queue free) {fuel : Nat} {r : BufferQueue × Nat}
    (hr : Q.clearQueuedBuffersLocked fuel = some r) :
    Shape r.1 [] (queue.reverse ++ free) ∧ r.2 = queue.length := by
  simp only [BufferQueue.clearQueuedBuffersLocked, Option.map_eq_some_iff] at hr
  obtain ⟨r', hr', rfl⟩ := hr
  obtain ⟨hchain, hdropped⟩ := recycleFrom_shape h.queued h.recycled h.apart hr'
  constructor
  · constructor
    · rfl
    · rfl
    · rfl
    · exact hchain
    · rw [List.nil_append]
      exact ((List.reverse_perm queue).append_right free).nodup_iff.2 h.apart
  · simpa using hdropped

theorem recycleFrom_others {fuel : Nat} {p : Option Addr} {dropped : Nat} {r : BufferQueue × Nat}
    (hq : Chain Q.links p queue) (hr : BufferQueue.recycleFrom fuel Q p dropped = some r) :
    ∀ c, c ∉ queue → r.1.heap c = Q.heap c := by
  induction queue generalizing fuel Q p dropped with
  | nil =>
    have hp : p = none := hq
    subst hp
    intro c _
    cases fuel with
    | zero => rw [← Option.some.inj hr]
    | succ fuel => rw [← Option.some.inj hr]
  | cons a queue ih =>
    have hnd := hq.nodup
    obtain ⟨rfl, hrest⟩ := hq
    cases fuel with
    | zero => simp [BufferQueue.recycleFrom] at hr
    | succ fuel =>
      rw [BufferQueue.recycleFrom] at hr
      have hq' : Chain (Q.recycleBufferLocked a).links (Q.heap a).next queue := by
        rw [links_recycle]
        exact hrest.update (List.nodup_cons.1 hnd).1 _
      intro c hc
      rw [ih hq' hr c fun hm => hc (List.mem_cons_of_mem a hm)]
      apply heap_recycle_of_ne
      intro heq
      subst heq
      exact hc (List.mem_cons_self ..)

theorem recycleFrom_sameBlocks {fuel : Nat} {p : Option Addr} {dropped : Nat}
    {r : BufferQueue × Nat} (hr : BufferQueue.recycleFrom fuel Q p dropped = some r) :
    SameBlocks Q r.1 := by
  induction fuel generalizing Q p dropped with
  | zero =>
    cases p with
    | none =>
      rw [← Option.some.inj hr]
      exact SameBlocks.refl Q
    | some a => simp [BufferQueue.recycleFrom] at hr
  | succ fuel ih =>
    cases p with
    | none =>
      rw [← Option.some.inj hr]
      exact SameBlocks.refl Q
    | some a => exact (SameBlocks.recycle Q a).trans (ih hr)

theorem clear_others (h : Shape Q queue free) {fuel : Nat} {r : BufferQueue × Nat}
    (hr : Q.clearQueuedBuffersLocked fuel = some r) :
    SameBlocks Q r.1 ∧ ∀ c, c ∉ queue → r.1.heap c = Q.heap c := by
  simp only [BufferQueue.clearQueuedBuffersLocked, Option.map_eq_some_iff] at hr
  obtain ⟨r', hr', rfl⟩ := hr
  have hblocks := recycleFrom_sameBlocks hr'
  have hothers := recycleFrom_others h.queued hr'
  exact ⟨hblocks, hothers⟩

/-- The loop ends when it has met every buffer of the queue. -/
theorem recycleFrom_isSome {fuel : Nat} {p : Option Addr} {dropped : Nat}
    (hq : Chain Q.links p queue) (hfuel : queue.length ≤ fuel) :
    (BufferQueue.recycleFrom fuel Q p dropped).isSome := by
  induction queue generalizing fuel Q p dropped with
  | nil =>
    have hp : p = none := hq
    subst hp
    cases fuel <;> rfl
  | cons a queue ih =>
    have hnd := hq.nodup
    obtain ⟨rfl, hrest⟩ := hq
    cases fuel with
    | zero => simp at hfuel
    | succ fuel =>
      rw [BufferQueue.recycleFrom]
      apply ih
      · rw [links_recycle]
        exact hrest.update (List.nodup_cons.1 hnd).1 _
      · simpa using hfuel

end Links

end Asm2Runtime.AudioPlayer
