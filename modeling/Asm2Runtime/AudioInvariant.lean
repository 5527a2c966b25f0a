import Asm2Runtime.AudioCopy
import Mathlib.Algebra.Ring.Nat

/-!
# The buffer queue under every interleaving

The invariant over the lists, the buffers and the bytes of a player. It reads only
a part of the system, so the steps of the worker and the control operations leave
it alone by definition.
-/

namespace Asm2Runtime.AudioPlayer

open LinkedChain

section Accounts

/-- What the log says was accepted and not cleared, what was delivered, how many buffers Clear
dropped, and how many filler bytes were written while playing. -/
structure Account where
  kept : List UInt8
  delivered : List UInt8
  dropped : Nat
  filler : Nat

def Account.post (A : Account) : Obs → Account
  | .enqueued _ data => { A with kept := A.kept ++ data }
  | .cleared dropped =>
    { A with kept := A.kept.take A.delivered.length, dropped := A.dropped + dropped }
  | .played stream copied _ active =>
    { A with
      delivered := A.delivered ++ stream.take copied
      filler := A.filler + if active then stream.length - copied else 0 }
  | _ => A

def account (log : List Obs) : Account := log.foldl Account.post ⟨[], [], 0, 0⟩

theorem account_append (log : List Obs) (o : Obs) :
    account (log ++ [o]) = (account log).post o := by
  rw [account, List.foldl_append]
  rfl

end Accounts

section View

structure View where
  lists : BufferQueue
  allocated : List Addr
  running : List Running
  enqueues : Nat
  completedBuffers : Nat
  underrunBytes : Nat
  account : Account

def System.view (s : System) : View :=
  ⟨s.player.toBufferQueue, s.allocated, s.running, s.player.enqueues,
    s.player.completedBuffers, s.player.underrunBytes, account s.log⟩

/-- The buffers in the hands of running calls. -/
def hands (running : List Running) : List Addr := running.filterMap fun r => r.stage.buffer

def owed (running : List Running) : Nat := (running.map fun r => r.stage.owes).sum

/-- A buffer that a call has filled with its data. -/
structure Loaded (b : AudioBuffer) (data : List UInt8) : Prop where
  next : b.next = none
  size : b.size = data.length
  offset : b.offset = 0
  capacity : data.length ≤ b.capacity
  data : b.data.take data.length = data

structure CallOk (Q : BufferQueue) (r : Running) : Prop where
  nonempty : r.data ≠ []
  size_lt : r.data.length < 2 ^ 32
  loaded : ∀ a, r.stage = .filled a → Loaded (Q.heap a) r.data

structure Inv (cfg : Config) (v : View) (queue free : List Addr) : Prop where
  shape : Shape v.lists queue free
  /-- Every buffer is in the queue, in the free list or in the hands of a call. -/
  owned : (queue ++ free ++ hands v.running).Perm v.allocated
  nodup : v.allocated.Nodup
  room : queue.length ≤ cfg.capacity
  limited : v.running.length ≤ cfg.limit
  total : v.allocated.length + owed v.running ≤ cfg.capacity + cfg.limit - 1
  blocks : ∀ a ∈ v.allocated, (v.lists.heap a).data.length = (v.lists.heap a).capacity
  filled : ∀ a ∈ queue, Filled (v.lists.heap a)
  calls : ∀ r ∈ v.running, CallOk v.lists r
  counted : v.enqueues = v.completedBuffers + queue.length + v.account.dropped
  ledger : v.account.delivered ++ queuedBytes v.lists queue = v.account.kept
  underrun : v.underrunBytes = v.account.filler

theorem Inv.initial (cfg : Config) (callback : Option GuestFunction) (context : Context)
    (generation : UInt32) : Inv cfg (System.initial callback context generation).view [] [] where
  shape := Shape.empty _
  owned := List.Perm.nil
  nodup := List.nodup_nil
  room := Nat.zero_le _
  limited := Nat.zero_le _
  total := Nat.zero_le _
  blocks := by simp [System.view, System.initial]
  filled := by simp
  calls := by simp [System.view, System.initial]
  counted := rfl
  ledger := rfl
  underrun := rfl

/-- Each running call holds a buffer or will allocate one. -/
theorem hands_length (running : List Running) :
    (hands running).length + owed running = running.length := by
  induction running with
  | nil => rfl
  | cons r running ih =>
    obtain ⟨thread, data, stage⟩ := r
    have hcons : owed (⟨thread, data, stage⟩ :: running) = stage.owes + owed running := by
      simp [owed]
    rw [hcons, List.length_cons]
    cases stage with
    | taken buffer =>
      cases buffer with
      | none => simp only [hands, List.filterMap_cons, Stage.buffer, Stage.owes] at ih ⊢; omega
      | some a =>
        simp only [hands, List.filterMap_cons, Stage.buffer, Stage.owes, List.length_cons] at ih ⊢
        omega
    | resizeFailed a =>
      simp only [hands, List.filterMap_cons, Stage.buffer, Stage.owes, List.length_cons] at ih ⊢
      omega
    | filled a =>
      simp only [hands, List.filterMap_cons, Stage.buffer, Stage.owes, List.length_cons] at ih ⊢
      omega

/-- The call of a thread stands for itself among the running ones. -/
theorem running_perm {s : System} {t : ThreadId} {r : Running} (h : s.callOf t = some r) :
    s.running.Perm (r :: s.without t) ∧ r.thread = t := by
  obtain ⟨hp, before, after, hrun, hbefore⟩ := List.find?_eq_some_iff_append.1 h
  have ht : r.thread = t := by simpa using hp
  constructor
  · have hnone : ∀ x ∈ before, ¬decide (x.thread = t) = true := by
      intro x hx
      simpa using hbefore x hx
    have hcut : (r :: after).eraseP (fun r => r.thread = t) = after := List.eraseP_cons_of_pos hp
    rw [System.without, hrun, List.eraseP_append_right _ hnone, hcut]
    exact List.perm_middle
  · exact ht

end View

section Moves

variable {cfg : Config} {v : View} {queue free : List Addr} {r : Running} {rest : List Running}
  {a : Addr}

theorem hands_perm (h : v.running.Perm (r :: rest)) :
    (hands v.running).Perm (r.stage.buffer.toList ++ hands rest) := by
  have hp := h.filterMap fun r => r.stage.buffer
  cases hb : r.stage.buffer with
  | none => simpa [hands, List.filterMap_cons, hb] using hp
  | some a => simpa [hands, List.filterMap_cons, hb] using hp

theorem owed_perm (h : v.running.Perm (r :: rest)) : owed v.running = r.stage.owes + owed rest := by
  have hp := (h.map fun r => r.stage.owes).sum_nat
  simpa [owed] using hp

/-- The buffer of a call is nowhere else. -/
theorem Inv.hand_apart (h : Inv cfg v queue free) (hrun : v.running.Perm (r :: rest))
    (hb : r.stage.buffer = some a) : a ∉ queue ++ free ∧ a ∉ hands rest ∧ a ∈ v.allocated := by
  have hall : (queue ++ free ++ a :: hands rest).Perm v.allocated := by
    have hp := hands_perm hrun
    rw [hb] at hp
    exact (hp.symm.append_left (queue ++ free)).trans h.owned
  have hnd := hall.nodup_iff.2 h.nodup
  rw [List.nodup_append] at hnd
  obtain ⟨_, hhand, hdisj⟩ := hnd
  constructor
  · intro hm
    exact hdisj a hm a (by simp) rfl
  · constructor
    · exact (List.nodup_cons.1 hhand).1
    · exact hall.mem_iff.1 (by simp)

theorem CallOk.congr {Q Q' : BufferQueue} (h : CallOk Q r)
    (hsame : ∀ a, r.stage.buffer = some a → Q'.heap a = Q.heap a) : CallOk Q' r := by
  refine ⟨h.nonempty, h.size_lt, ?_⟩
  intro a ha
  rw [hsame a (by rw [ha]; rfl)]
  exact h.loaded a ha

theorem mem_hands {running : List Running} (hr : r ∈ running) (hb : r.stage.buffer = some a) :
    a ∈ hands running :=
  List.mem_filterMap.2 ⟨r, hr, hb⟩

/-- The calls that do not hold `a` are not affected by a change of its buffer. -/
theorem Inv.rest_ok (h : Inv cfg v queue free) (hrun : v.running.Perm (r :: rest))
    {Q : BufferQueue} (ha : a ∉ hands rest) (hQ : ∀ c, c ≠ a → Q.heap c = v.lists.heap c) :
    ∀ r' ∈ rest, CallOk Q r' := by
  intro r' hr'
  apply (h.calls r' (hrun.mem_iff.2 (List.mem_cons_of_mem r hr'))).congr
  intro c hc
  apply hQ
  intro heq
  subst heq
  exact ha (mem_hands hr' hc)

/-- The order of the running calls is of no matter. -/
theorem Inv.perm (h : Inv cfg v queue free) {running : List Running}
    (hrun : v.running.Perm running) : Inv cfg { v with running := running } queue free := by
  have hhands : (hands v.running).Perm (hands running) := hrun.filterMap _
  have hsum := (hrun.map fun r => r.stage.owes).sum_nat
  have howed : owed v.running = owed running := hsum
  have htotal := h.total
  rw [howed] at htotal
  refine { h with owned := ?_, limited := ?_, total := htotal, calls := ?_ }
  · exact (hhands.symm.append_left (queue ++ free)).trans h.owned
  · rw [← hrun.length_eq]
    exact h.limited
  · intro r hr
    exact h.calls r (hrun.mem_iff.2 hr)

/-- A call that starts without a free buffer will allocate one. -/
theorem Inv.begin (h : Inv cfg v queue free) (t : ThreadId) {data : List UInt8}
    (hdata : data ≠ []) (hsize : data.length < 2 ^ 32) (hlimit : v.running.length < cfg.limit)
    (hroom : queue.length < cfg.capacity) (hfree : v.lists.freeBuffers = none) :
    Inv cfg { v with running := ⟨t, data, .taken none⟩ :: v.running } queue free := by
  have hnil : free = [] := by
    have hchain := h.shape.recycled
    rw [hfree] at hchain
    cases free with
    | nil => rfl
    | cons b free => exact absurd hchain.1 (by simp)
  have hlen := h.owned.length_eq
  have hcount := hands_length v.running
  rw [hnil, List.append_nil, List.length_append] at hlen
  refine { h with owned := h.owned, limited := ?_, total := ?_, calls := ?_ }
  · exact hlimit
  · have howed : owed (⟨t, data, .taken none⟩ :: v.running) = 1 + owed v.running := by
      simp [owed, Stage.owes]
    simp only [howed]
    omega
  · intro r hr
    cases List.mem_cons.1 hr with
    | inl heq =>
      subst heq
      exact ⟨hdata, hsize, fun a ha => by cases ha⟩
    | inr hr => exact h.calls r hr

theorem Inv.take (h : Inv cfg v queue free) (t : ThreadId) {data : List UInt8}
    (hdata : data ≠ []) (hsize : data.length < 2 ^ 32) (hlimit : v.running.length < cfg.limit)
    (hfree : v.lists.freeBuffers = some a) :
    ∃ free', Inv cfg { v with
      lists := v.lists.takeFree a
      running := ⟨t, data, .taken (some a)⟩ :: v.running } queue free' := by
  obtain ⟨free', rfl, hshape, hnot, _⟩ := h.shape.takeFree hfree
  have hheap : ∀ c, c ≠ a → (v.lists.takeFree a).heap c = v.lists.heap c := fun c hc =>
    heap_put_of_ne v.lists _ hc
  have hself : (v.lists.takeFree a).heap a = { v.lists.heap a with next := none } := by
    simp [BufferQueue.takeFree, BufferQueue.put]
  have hq : a ∉ queue := fun hm => hnot (List.mem_append_left free' hm)
  have hnothand : a ∉ hands v.running := by
    have hnd := h.owned.nodup_iff.2 h.nodup
    intro hm
    exact (List.nodup_append.1 hnd).2.2 a (by simp) a hm rfl
  have hne : ∀ c ∈ queue, c ≠ a := by
    intro c hc heq
    subst heq
    exact hq hc
  refine ⟨free', {
    shape := hshape
    owned := ?_
    nodup := h.nodup
    room := h.room
    limited := hlimit
    total := ?_
    blocks := ?_
    filled := ?_
    calls := ?_
    counted := h.counted
    ledger := ?_
    underrun := h.underrun
  }⟩
  · refine List.Perm.trans ?_ h.owned
    simp only [hands, List.filterMap_cons, Stage.buffer, List.append_assoc, List.cons_append]
    exact (List.perm_middle).append_left queue
  · have howed : owed (⟨t, data, .taken (some a)⟩ :: v.running) = owed v.running := by
      simp [owed, Stage.owes]
    simp only [howed]
    exact h.total
  · intro c hc
    by_cases hca : c = a
    · subst hca
      rw [hself]
      exact h.blocks c hc
    · rw [hheap c hca]
      exact h.blocks c hc
  · intro c hc
    rw [hheap c (hne c hc)]
    exact h.filled c hc
  · intro r hr
    cases List.mem_cons.1 hr with
    | inl heq =>
      subst heq
      exact ⟨hdata, hsize, fun a ha => by cases ha⟩
    | inr hold =>
      apply (h.calls r hold).congr
      intro c hc
      apply hheap
      intro heq
      subst heq
      exact hnothand (mem_hands hold hc)
  · rw [queuedBytes_congr fun c hc => hheap c (hne c hc)]
    exact h.ledger

/-- A call gives up before it has a buffer. -/
theorem Inv.giveUp (h : Inv cfg v queue free) (hrun : v.running.Perm (r :: rest))
    (hb : r.stage.buffer = none) : Inv cfg { v with running := rest } queue free := by
  have hp := hands_perm hrun
  have howed := owed_perm hrun
  have hlen := hrun.length_eq
  rw [hb] at hp
  have htotal := h.total
  have hlimited := h.limited
  refine { h with owned := ?_, limited := ?_, total := ?_, calls := ?_ }
  · exact (hp.symm.append_left (queue ++ free)).trans h.owned
  · simp only [List.length_cons] at hlen ⊢
    omega
  · simp only
    omega
  · intro r' hr'
    exact h.calls r' (hrun.mem_iff.2 (List.mem_cons_of_mem r hr'))

/-- A call gets the buffer that it owes from the allocator. -/
theorem Inv.allocate (h : Inv cfg v queue free) (hrun : v.running.Perm (r :: rest))
    (hs : r.stage = .taken none) (ha : a ∉ v.allocated) :
    Inv cfg { v with
      lists := v.lists.put a .zero
      allocated := a :: v.allocated
      running := { r with stage := .taken (some a) } :: rest } queue free := by
  have hp := hands_perm hrun
  have howed := owed_perm hrun
  have hlen := hrun.length_eq
  have htotal := h.total
  have hlimited := h.limited
  rw [hs] at hp howed
  have hlists : ∀ c ∈ queue ++ free, c ≠ a := by
    intro c hc heq
    subst heq
    exact ha (h.owned.mem_iff.1 (List.mem_append_left _ hc))
  have hhands : a ∉ hands rest := by
    intro hm
    have hmem : a ∈ hands v.running := hp.mem_iff.2 hm
    exact ha (h.owned.mem_iff.1 (List.mem_append_right _ hmem))
  have hnot : a ∉ queue ++ free := fun hm => hlists a hm rfl
  have hheap : ∀ c, c ≠ a → (v.lists.put a .zero).heap c = v.lists.heap c := fun c hc =>
    heap_put_of_ne v.lists _ hc
  have hqueue : ∀ c ∈ queue, (v.lists.put a .zero).heap c = v.lists.heap c := fun c hc =>
    hheap c (hlists c (List.mem_append_left free hc))
  refine {
    shape := h.shape.put_other (Or.inl hnot)
    owned := ?_
    nodup := List.nodup_cons.2 ⟨ha, h.nodup⟩
    room := h.room
    limited := ?_
    total := ?_
    blocks := ?_
    filled := ?_
    calls := ?_
    counted := h.counted
    ledger := ?_
    underrun := h.underrun
  }
  · have hmove : (queue ++ free ++ a :: hands rest).Perm (a :: (queue ++ free ++ hands rest)) :=
      List.perm_middle
    exact hmove.trans (((hp.symm.append_left (queue ++ free)).trans h.owned).cons a)
  · simp only [List.length_cons] at hlen ⊢
    omega
  · have howed' : owed ({ r with stage := .taken (some a) } :: rest) = owed rest := by
      simp [owed, Stage.owes]
    simp only [Stage.owes] at howed
    simp only [howed', List.length_cons]
    omega
  · intro c hc
    by_cases hca : c = a
    · subst hca
      simp [BufferQueue.put, AudioBuffer.zero]
    · rw [hheap c hca]
      exact h.blocks c ((List.mem_cons.1 hc).resolve_left hca)
  · intro c hc
    rw [hqueue c hc]
    exact h.filled c hc
  · intro r' hr'
    cases List.mem_cons.1 hr' with
    | inl heq =>
      subst heq
      have hold := h.calls r (hrun.mem_iff.2 (by simp))
      exact ⟨hold.nonempty, hold.size_lt, fun a ha => by cases ha⟩
    | inr hr' => exact h.rest_ok hrun hhands hheap r' hr'
  · rw [queuedBytes_congr hqueue]
    exact h.ledger

/-- A call writes its own buffer and moves on. -/
theorem Inv.write (h : Inv cfg v queue free) (hrun : v.running.Perm (r :: rest))
    (hb : r.stage.buffer = some a) {b : AudioBuffer} {stage : Stage}
    (hstage : stage.buffer = some a) (howes : stage.owes = r.stage.owes)
    (hblock : b.data.length = b.capacity)
    (hload : stage = .filled a → Loaded b r.data) :
    Inv cfg { v with
      lists := v.lists.put a b
      running := { r with stage := stage } :: rest } queue free := by
  obtain ⟨hnot, hhands, hmem⟩ := h.hand_apart hrun hb
  have hp := hands_perm hrun
  have howed := owed_perm hrun
  have hlen := hrun.length_eq
  have htotal := h.total
  have hlimited := h.limited
  rw [hb] at hp
  have hheap : ∀ c, c ≠ a → (v.lists.put a b).heap c = v.lists.heap c := fun c hc =>
    heap_put_of_ne v.lists _ hc
  have hqueue : ∀ c ∈ queue, (v.lists.put a b).heap c = v.lists.heap c := by
    intro c hc
    apply hheap
    intro heq
    subst heq
    exact hnot (List.mem_append_left free hc)
  refine {
    shape := h.shape.put_other (Or.inl hnot)
    owned := ?_
    nodup := h.nodup
    room := h.room
    limited := ?_
    total := ?_
    blocks := ?_
    filled := ?_
    calls := ?_
    counted := h.counted
    ledger := ?_
    underrun := h.underrun
  }
  · have hsame : hands ({ r with stage := stage } :: rest) = a :: hands rest := by
      simp [hands, hstage]
    simp only [hsame]
    exact (hp.symm.append_left (queue ++ free)).trans h.owned
  · simp only [List.length_cons] at hlen ⊢
    omega
  · have howed' : owed ({ r with stage := stage } :: rest) = r.stage.owes + owed rest := by
      simp [owed, howes]
    simp only [howed']
    omega
  · intro c hc
    by_cases hca : c = a
    · subst hca
      simpa [BufferQueue.put] using hblock
    · rw [hheap c hca]
      exact h.blocks c hc
  · intro c hc
    rw [hqueue c hc]
    exact h.filled c hc
  · intro r' hr'
    cases List.mem_cons.1 hr' with
    | inl heq =>
      subst heq
      have hold := h.calls r (hrun.mem_iff.2 (by simp))
      refine ⟨hold.nonempty, hold.size_lt, ?_⟩
      intro c hc
      simp only at hc
      obtain rfl : c = a := by
        rw [hc] at hstage
        exact Option.some.inj hstage
      simpa [BufferQueue.put] using hload hc
    | inr hr' => exact h.rest_ok hrun hhands hheap r' hr'
  · rw [queuedBytes_congr hqueue]
    exact h.ledger

/-- A call returns its buffer to the free list. -/
theorem Inv.giveBack (h : Inv cfg v queue free) (hrun : v.running.Perm (r :: rest))
    (hb : r.stage.buffer = some a) :
    Inv cfg { v with lists := v.lists.recycleBufferLocked a, running := rest } queue
      (a :: free) := by
  obtain ⟨hnot, hhands, hmem⟩ := h.hand_apart hrun hb
  have hp := hands_perm hrun
  have howed := owed_perm hrun
  have hlen := hrun.length_eq
  have htotal := h.total
  have hlimited := h.limited
  rw [hb] at hp
  have hheap : ∀ c, c ≠ a → (v.lists.recycleBufferLocked a).heap c = v.lists.heap c :=
    fun c hc => heap_recycle_of_ne v.lists hc
  have hqueue : ∀ c ∈ queue, (v.lists.recycleBufferLocked a).heap c = v.lists.heap c := by
    intro c hc
    apply hheap
    intro heq
    subst heq
    exact hnot (List.mem_append_left free hc)
  refine {
    shape := h.shape.recycle hnot
    owned := ?_
    nodup := h.nodup
    room := h.room
    limited := ?_
    total := ?_
    blocks := ?_
    filled := ?_
    calls := ?_
    counted := h.counted
    ledger := ?_
    underrun := h.underrun
  }
  · have hmove : (queue ++ a :: free ++ hands rest).Perm (queue ++ free ++ a :: hands rest) := by
      have h1 : (queue ++ a :: free ++ hands rest).Perm (a :: (queue ++ free ++ hands rest)) := by
        rw [List.append_assoc, List.append_assoc]
        exact List.perm_middle
      exact h1.trans List.perm_middle.symm
    exact hmove.trans ((hp.symm.append_left (queue ++ free)).trans h.owned)
  · simp only [List.length_cons] at hlen ⊢
    omega
  · simp only
    omega
  · intro c hc
    by_cases hca : c = a
    · subst hca
      simpa [BufferQueue.recycleBufferLocked, BufferQueue.put] using h.blocks c hc
    · rw [hheap c hca]
      exact h.blocks c hc
  · intro c hc
    rw [hqueue c hc]
    exact h.filled c hc
  · exact h.rest_ok hrun hhands hheap
  · rw [queuedBytes_congr hqueue]
    exact h.ledger

theorem Filled.link {b : AudioBuffer} (h : Filled b) (next : Option Addr) :
    Filled { b with next := next } :=
  ⟨h.offset_lt, h.size_le, h.size_lt, h.block⟩

/-- The buffers in hands are in no list. -/
theorem Inv.calls_others (h : Inv cfg v queue free) {Q : BufferQueue}
    (hQ : ∀ c, c ∉ queue ++ free → Q.heap c = v.lists.heap c) :
    ∀ r ∈ v.running, CallOk Q r := by
  have hnd := h.owned.nodup_iff.2 h.nodup
  intro r hr
  apply (h.calls r hr).congr
  intro c hc
  apply hQ
  intro hm
  exact (List.nodup_append.1 hnd).2.2 c hm c (mem_hands hr hc) rfl

/-- A call links its buffer: its bytes are accepted. -/
theorem Inv.link (h : Inv cfg v queue free) (hrun : v.running.Perm (r :: rest))
    (hs : r.stage = .filled a) (hroom : queue.length < cfg.capacity) :
    Inv cfg { v with
      lists := v.lists.linkLast a
      running := rest
      enqueues := v.enqueues + 1
      account := v.account.post (.enqueued r.thread r.data) } (queue ++ [a]) free := by
  have hb : r.stage.buffer = some a := by
    rw [hs]
    rfl
  obtain ⟨hnot, hhands, hmem⟩ := h.hand_apart hrun hb
  have hcall := h.calls r (hrun.mem_iff.2 (by simp))
  have hloaded := hcall.loaded a hs
  have hp := hands_perm hrun
  have howed := owed_perm hrun
  have hlen := hrun.length_eq
  have htotal := h.total
  have hlimited := h.limited
  have hcounted := h.counted
  rw [hb] at hp
  have hqueue : a ∉ queue := fun hm => hnot (List.mem_append_left free hm)
  have hself : (v.lists.linkLast a).heap a = v.lists.heap a := linkLast_others h.shape hqueue
  have hbytes : ∀ c, unplayed ((v.lists.linkLast a).heap c) = unplayed (v.lists.heap c) := by
    intro c
    obtain ⟨next, hnext⟩ := linkLast_heap v.lists a c
    rw [hnext]
    rfl
  constructor
  · exact h.shape.linkLast hnot hloaded.next
  · have hmove : (queue ++ [a] ++ free ++ hands rest).Perm
        (queue ++ free ++ a :: hands rest) := by
      have h1 : (queue ++ [a] ++ free ++ hands rest).Perm (a :: (queue ++ free ++ hands rest)) := by
        simp only [List.append_assoc, List.cons_append, List.nil_append]
        exact List.perm_middle
      exact h1.trans List.perm_middle.symm
    exact hmove.trans ((hp.symm.append_left (queue ++ free)).trans h.owned)
  · exact h.nodup
  · rw [List.length_append]
    exact hroom
  · simp only [List.length_cons] at hlen ⊢
    omega
  · simp only
    omega
  · intro c hc
    obtain ⟨next, hnext⟩ := linkLast_heap v.lists a c
    simp only [hnext]
    exact h.blocks c hc
  · intro c hc
    obtain ⟨next, hnext⟩ := linkLast_heap v.lists a c
    rw [hnext]
    apply Filled.link
    cases List.mem_append.1 hc with
    | inl hold => exact h.filled c hold
    | inr hlast =>
      obtain rfl : c = a := List.mem_singleton.1 hlast
      have hpos : 0 < r.data.length := List.length_pos_of_ne_nil hcall.nonempty
      constructor
      · rw [hloaded.offset, hloaded.size]
        exact hpos
      · rw [hloaded.size]
        exact hloaded.capacity
      · rw [hloaded.size]
        exact hcall.size_lt
      · exact h.blocks c hmem
  · intro r' hr'
    apply h.calls_others (fun c hc => linkLast_others h.shape fun hm => hc (by simp [hm])) r'
    exact hrun.mem_iff.2 (List.mem_cons_of_mem r hr')
  · simp only [List.length_append, List.length_singleton, Account.post]
    omega
  · have hall : unplayed ((v.lists.linkLast a).heap a) = r.data := by
      rw [hself, unplayed, hloaded.offset, hloaded.size, List.drop_zero, hloaded.data]
    have hbefore : queuedBytes (v.lists.linkLast a) queue = queuedBytes v.lists queue := by
      unfold queuedBytes
      apply List.flatMap_congr
      intro c _
      exact hbytes c
    have happend : queuedBytes (v.lists.linkLast a) (queue ++ [a]) =
        queuedBytes v.lists queue ++ r.data := by
      rw [← hbefore, ← hall]
      simp [queuedBytes]
    simp only [Account.post]
    rw [happend, ← h.ledger, List.append_assoc]
  · exact h.underrun

/-- Clear drops what is queued. -/
theorem Inv.clear (h : Inv cfg v queue free) {fuel : Nat} {result : BufferQueue × Nat}
    (hr : v.lists.clearQueuedBuffersLocked fuel = some result) :
    Inv cfg { v with lists := result.1, account := v.account.post (.cleared result.2) } []
      (queue.reverse ++ free) := by
  obtain ⟨hshape, hdropped⟩ := h.shape.clear hr
  obtain ⟨hblocks, hothers⟩ := clear_others h.shape hr
  have hcounted := h.counted
  constructor
  · exact hshape
  · have hreverse : (queue.reverse ++ free).Perm (queue ++ free) :=
      (List.reverse_perm queue).append_right free
    exact (hreverse.append_right (hands v.running)).trans h.owned
  · exact h.nodup
  · exact Nat.zero_le _
  · exact h.limited
  · exact h.total
  · intro c hc
    rw [(hblocks c).1, (hblocks c).2]
    exact h.blocks c hc
  · intro c hc
    cases hc
  · exact h.calls_others fun c hc => hothers c fun hm => hc (List.mem_append_left free hm)
  · simp only [Account.post, List.length_nil, hdropped]
    omega
  · simp only [Account.post]
    rw [← h.ledger, List.take_left]
    exact List.append_nil _
  · exact h.underrun

/-- An SDL callback of a playing player. -/
theorem Inv.audio (h : Inv cfg v queue free) {p : Player} (hp : p.toBufferQueue = v.lists)
    (hcompleted : p.completedBuffers = v.completedBuffers) {length : Nat} {c : Player.Copying}
    {queue' free' : List Addr} {bytes : List UInt8}
    (hc : Player.Copied p queue free length c queue' free' bytes) (completed : Nat) :
    Inv cfg { v with
      lists := c.player.toBufferQueue
      completedBuffers := c.player.completedBuffers
      underrunBytes := v.underrunBytes + c.remaining
      account := v.account.post (.played c.stream c.output completed true) } queue' free' := by
  have hcounted := h.counted
  have hmoved := hc.moved
  have hdone := hc.completed
  have hstream := hc.stream
  have hlength : c.stream.length = c.output + c.remaining := by
    rw [hstream, List.length_append, List.length_replicate, hc.output]
  constructor
  · exact hc.shape
  · exact (hc.perm.append_right (hands v.running)).trans h.owned
  · exact h.nodup
  · exact Nat.le_trans hc.shorter h.room
  · exact h.limited
  · exact h.total
  · intro a ha
    rw [(hc.blocks a).1, (hc.blocks a).2, hp]
    exact h.blocks a ha
  · exact hc.filled
  · exact h.calls_others fun a ha => by rw [hc.others a ha, hp]
  · simp only [Account.post]
    omega
  · have htake : c.stream.take c.output = bytes := by
      rw [hstream, hc.output, List.take_left]
    simp only [Account.post, htake]
    rw [List.append_assoc, hmoved, hp]
    exact h.ledger
  · simp only [Account.post, if_true, hlength, Nat.add_sub_cancel_left]
    rw [h.underrun]

end Moves

end Asm2Runtime.AudioPlayer
