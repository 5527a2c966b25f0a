import Asm2Runtime.AudioPlayer

/-!
# The copy loop of the SDL callback

The loop moves the front of the queued bytes into the output. `Copied` holds at
every turn: what is written plus what is queued is what was queued at the start.
-/

namespace Asm2Runtime.AudioPlayer

section Bytes

/-- What of a queued buffer is still to be played. -/
def unplayed (b : AudioBuffer) : List UInt8 := (b.data.take b.size).drop b.offset

def queuedBytes (Q : BufferQueue) (queue : List Addr) : List UInt8 :=
  queue.flatMap fun a => unplayed (Q.heap a)

structure Filled (b : AudioBuffer) : Prop where
  offset_lt : b.offset < b.size
  size_le : b.size ≤ b.capacity
  size_lt : b.size < 2 ^ 32
  block : b.data.length = b.capacity

theorem queuedBytes_congr {Q Q' : BufferQueue} {queue : List Addr}
    (h : ∀ a ∈ queue, Q'.heap a = Q.heap a) : queuedBytes Q' queue = queuedBytes Q queue := by
  unfold queuedBytes
  apply List.flatMap_congr
  intro a ha
  rw [h a ha]

theorem queuedBytes_cons (Q : BufferQueue) (a : Addr) (queue : List Addr) :
    queuedBytes Q (a :: queue) = unplayed (Q.heap a) ++ queuedBytes Q queue := rfl

theorem subU32_eq {a b : Nat} (h : b ≤ a) (ha : a < 2 ^ 32) : subU32 a b = a - b := by
  have hshift : a + 2 ^ 32 - b = (a - b) + 2 ^ 32 := by omega
  rw [subU32, hshift, Nat.add_mod_right, Nat.mod_eq_of_lt (by omega)]

theorem unplayed_eq (b : AudioBuffer) :
    unplayed b = (b.data.drop b.offset).take (b.size - b.offset) := List.drop_take ..

/-- The next bytes of a buffer, and what is left of it. -/
theorem unplayed_split {b : AudioBuffer} {count : Nat} (hc : b.offset + count ≤ b.size) :
    (b.data.drop b.offset).take count ++ unplayed { b with offset := b.offset + count } =
      unplayed b := by
  have hsum : b.size - b.offset = count + (b.size - (b.offset + count)) := by omega
  rw [unplayed_eq, unplayed_eq, hsum, List.take_add, List.drop_drop]

/-- A block holds as many bytes as are copied out of it. -/
theorem Filled.copied_length {b : AudioBuffer} (h : Filled b) {count : Nat}
    (hc : b.offset + count ≤ b.size) : ((b.data.drop b.offset).take count).length = count := by
  have hsize := h.size_le
  have hblock := h.block
  rw [List.length_take, List.length_drop]
  omega

theorem overwrite_append (done rest bytes : List UInt8) :
    Player.overwrite (done ++ rest) done.length bytes =
      done ++ bytes ++ rest.drop bytes.length := by
  simp [Player.overwrite, List.drop_append]

end Bytes

namespace Player

/-- Everything but what a copy may change. -/
def copyFrame (p q : Player) : Player :=
  { p with
    toBufferQueue := q.toBufferQueue
    playIndex := q.playIndex
    playedFrames := q.playedFrames
    pendingCallbacks := q.pendingCallbacks
    completedBuffers := q.completedBuffers }

theorem copyFrame_trans {p q r : Player} (hq : q = p.copyFrame q) (hr : r = q.copyFrame r) :
    r = p.copyFrame r := by
  calc r = q.copyFrame r := hr
    _ = (p.copyFrame q).copyFrame r := by rw [← hq]
    _ = p.copyFrame r := rfl

structure Copied (p : Player) (queue free : List Addr) (length : Nat) (c : Copying)
    (queue' free' : List Addr) (bytes : List UInt8) : Prop where
  shape : Shape c.player.toBufferQueue queue' free'
  perm : (queue' ++ free').Perm (queue ++ free)
  shorter : queue'.length ≤ queue.length
  filled : ∀ a ∈ queue', Filled (c.player.heap a)
  blocks : SameBlocks p.toBufferQueue c.player.toBufferQueue
  others : ∀ a, a ∉ queue ++ free → c.player.heap a = p.heap a
  moved : bytes ++ queuedBytes c.player.toBufferQueue queue' = queuedBytes p.toBufferQueue queue
  stream : c.stream = bytes ++ List.replicate c.remaining 0
  output : c.output = bytes.length
  total : c.output + c.remaining = length
  completed : c.player.completedBuffers + queue'.length = p.completedBuffers + queue.length
  pending : c.player.pendingCallbacks.toNat + p.completedBuffers ≤
    p.pendingCallbacks.toNat + c.player.completedBuffers
  pendingCount : c.player.pendingCallbacks =
    p.pendingCallbacks + UInt32.ofNat (c.player.completedBuffers - p.completedBuffers)
  frame : c.player = p.copyFrame c.player

variable {p : Player} {queue free queue' free' : List Addr} {length : Nat} {c : Copying}
  {bytes : List UInt8} {a : Addr}

theorem Copied.start (h : Shape p.toBufferQueue queue free) (hf : ∀ a ∈ queue, Filled (p.heap a))
    (length : Nat) :
    Copied p queue free length ⟨p, List.replicate length 0, 0, length⟩ queue free [] where
  shape := h
  perm := List.Perm.refl _
  shorter := Nat.le_refl _
  filled := hf
  blocks := SameBlocks.refl _
  others _ _ := rfl
  moved := rfl
  stream := rfl
  output := rfl
  total := Nat.zero_add length
  completed := rfl
  pending := Nat.le_refl _
  pendingCount := by
    rw [Nat.sub_self]
    exact (UInt32.add_zero _).symm
  frame := rfl

theorem pending_succ_le (n : UInt32) : (n + 1).toNat ≤ n.toNat + 1 := by
  rw [UInt32.toNat_add]
  exact Nat.mod_le _ _

/-- The output after one more piece. -/
theorem Copied.stream_append (h : Copied p queue free length c queue' free' bytes)
    {piece : List UInt8} :
    overwrite c.stream c.output piece =
      bytes ++ piece ++ List.replicate (c.remaining - piece.length) 0 := by
  rw [h.stream, h.output, overwrite_append, List.drop_replicate]

theorem copyBuffer_complete (h : Filled (c.player.heap a))
    (hcount : (c.player.heap a).size - (c.player.heap a).offset ≤ c.remaining) :
    copyBuffer c a =
      ⟨(c.player.advance a ((c.player.heap a).size - (c.player.heap a).offset)).completeBuffer a,
        overwrite c.stream c.output (unplayed (c.player.heap a)),
        c.output + ((c.player.heap a).size - (c.player.heap a).offset),
        c.remaining - ((c.player.heap a).size - (c.player.heap a).offset)⟩ := by
  have hoffset := h.offset_lt
  have havailable := subU32_eq (Nat.le_of_lt hoffset) h.size_lt
  have hmin : (if (c.player.heap a).size - (c.player.heap a).offset < c.remaining
      then (c.player.heap a).size - (c.player.heap a).offset else c.remaining) =
      (c.player.heap a).size - (c.player.heap a).offset := by
    split <;> omega
  have hend : (c.player.heap a).offset + ((c.player.heap a).size - (c.player.heap a).offset) =
      (c.player.heap a).size := by omega
  simp only [copyBuffer, havailable, hmin, hend, if_true, unplayed_eq]

theorem copyBuffer_inside (h : Filled (c.player.heap a))
    (hcount : c.remaining < (c.player.heap a).size - (c.player.heap a).offset) :
    copyBuffer c a =
      ⟨c.player.advance a c.remaining,
        overwrite c.stream c.output
          (((c.player.heap a).data.drop (c.player.heap a).offset).take c.remaining),
        c.output + c.remaining, 0⟩ := by
  have hoffset := h.offset_lt
  have havailable := subU32_eq (Nat.le_of_lt hoffset) h.size_lt
  have hmin : (if (c.player.heap a).size - (c.player.heap a).offset < c.remaining
      then (c.player.heap a).size - (c.player.heap a).offset else c.remaining) = c.remaining := by
    split <;> omega
  have hend : (c.player.heap a).offset + c.remaining ≠ (c.player.heap a).size := by omega
  simp only [copyBuffer, havailable, hmin, hend, if_false, Nat.sub_self]

theorem advance_heap_self (p : Player) (a : Addr) (count : Nat) :
    (p.advance a count).heap a = { p.heap a with offset := (p.heap a).offset + count } := by
  simp [advance, withQueue, BufferQueue.put]

theorem advance_heap_of_ne (p : Player) {a b : Addr} (count : Nat) (h : b ≠ a) :
    (p.advance a count).heap b = p.heap b :=
  heap_put_of_ne p.toBufferQueue _ h

theorem advance_shape (h : Shape p.toBufferQueue queue free) (count : Nat) :
    Shape (p.advance a count).toBufferQueue queue free :=
  h.put_other (Or.inr rfl)

theorem advance_blocks (p : Player) (a : Addr) (count : Nat) :
    SameBlocks p.toBufferQueue (p.advance a count).toBufferQueue :=
  SameBlocks.put rfl rfl

/-- The buffer is played to its end and recycled. -/
theorem Copied.complete (h : Copied p queue free length c (a :: queue') free' bytes)
    (hcount : (c.player.heap a).size - (c.player.heap a).offset ≤ c.remaining) :
    Copied p queue free length (copyBuffer c a) queue' (a :: free')
      (bytes ++ unplayed (c.player.heap a)) := by
  have hfilled := h.filled a (by simp)
  have hoffset := hfilled.offset_lt
  have hlength : (unplayed (c.player.heap a)).length =
      (c.player.heap a).size - (c.player.heap a).offset := by
    rw [unplayed_eq]
    exact hfilled.copied_length (by omega)
  have hahead : (c.player.advance a
      ((c.player.heap a).size - (c.player.heap a).offset)).head = some a := h.shape.queued.1
  obtain ⟨rest, hrest, hshape⟩ := (advance_shape h.shape _).completeFirst hahead
  obtain rfl : queue' = rest := (List.cons.inj hrest).2
  have hnot : a ∉ queue' := (List.nodup_cons.1 (List.nodup_append.1 h.shape.apart).1).1
  have hheap : ∀ b, b ≠ a → ((c.player.advance a
      ((c.player.heap a).size - (c.player.heap a).offset)).completeBuffer a).heap b =
        c.player.heap b := by
    intro b hb
    have hcompleted := heap_completeFirst_of_ne (c.player.advance a
      ((c.player.heap a).size - (c.player.heap a).offset)).toBufferQueue hb
    exact hcompleted.trans (advance_heap_of_ne c.player _ hb)
  have hqueue : ∀ b ∈ queue', ((c.player.advance a
      ((c.player.heap a).size - (c.player.heap a).offset)).completeBuffer a).heap b =
        c.player.heap b := by
    intro b hb
    apply hheap
    intro heq
    exact hnot (heq ▸ hb)
  have hin : a ∈ queue ++ free := h.perm.mem_iff.1 (by simp)
  have hshorter := h.shorter
  have htotal := h.total
  have hcompleted := h.completed
  have hpending := h.pending
  have hsucc := pending_succ_le c.player.pendingCallbacks
  simp only [List.length_cons] at hshorter hcompleted
  rw [copyBuffer_complete hfilled hcount]
  constructor
  · exact hshape
  · exact List.perm_middle.trans h.perm
  · omega
  · intro b hb
    rw [hqueue b hb]
    exact h.filled b (List.mem_cons_of_mem a hb)
  · exact h.blocks.trans ((advance_blocks c.player a _).trans (SameBlocks.completeFirst _ a))
  · intro b hb
    rw [hheap b fun heq => hb (heq ▸ hin)]
    exact h.others b hb
  · have hmoved := h.moved
    rw [queuedBytes_cons, ← List.append_assoc] at hmoved
    rw [queuedBytes_congr hqueue]
    exact hmoved
  · rw [h.stream_append, hlength]
  · rw [List.length_append, hlength, h.output]
  · simp only
    omega
  · simp only [completeBuffer, advance, withQueue]
    omega
  · simp only [completeBuffer, advance, withQueue]
    omega
  · have hmore : c.player.completedBuffers + 1 - p.completedBuffers =
        (c.player.completedBuffers - p.completedBuffers) + 1 := by omega
    simp only [completeBuffer, advance, withQueue, hmore, UInt32.ofNat_add, h.pendingCount,
      UInt32.add_assoc]
    rfl
  · exact copyFrame_trans h.frame rfl

/-- The output ends inside the buffer. -/
theorem Copied.inside (h : Copied p queue free length c (a :: queue') free' bytes)
    (hcount : c.remaining < (c.player.heap a).size - (c.player.heap a).offset) :
    Copied p queue free length (copyBuffer c a) (a :: queue') free'
      (bytes ++ ((c.player.heap a).data.drop (c.player.heap a).offset).take c.remaining) := by
  have hfilled := h.filled a (by simp)
  have hoffset := hfilled.offset_lt
  have hend : (c.player.heap a).offset + c.remaining ≤ (c.player.heap a).size := by omega
  have hlength := hfilled.copied_length hend
  have hnot : a ∉ queue' := (List.nodup_cons.1 (List.nodup_append.1 h.shape.apart).1).1
  have hqueue : ∀ b ∈ queue', (c.player.advance a c.remaining).heap b = c.player.heap b := by
    intro b hb
    apply advance_heap_of_ne
    intro heq
    exact hnot (heq ▸ hb)
  have hin : a ∈ queue ++ free := h.perm.mem_iff.1 (by simp)
  rw [copyBuffer_inside hfilled hcount]
  constructor
  · exact advance_shape h.shape c.remaining
  · exact h.perm
  · exact h.shorter
  · intro b hb
    cases List.mem_cons.1 hb with
    | inl heq =>
      subst heq
      rw [advance_heap_self]
      constructor
      · simp only
        omega
      · exact hfilled.size_le
      · exact hfilled.size_lt
      · exact hfilled.block
    | inr hb =>
      rw [hqueue b hb]
      exact h.filled b (List.mem_cons_of_mem a hb)
  · exact h.blocks.trans (advance_blocks c.player a _)
  · intro b hb
    have hba : b ≠ a := fun heq => hb (heq ▸ hin)
    rw [advance_heap_of_ne c.player _ hba]
    exact h.others b hb
  · have hmoved := h.moved
    rw [queuedBytes_cons, ← unplayed_split hend] at hmoved
    rw [queuedBytes_cons, queuedBytes_congr hqueue, advance_heap_self]
    simpa only [List.append_assoc] using hmoved
  · rw [h.stream_append, hlength, Nat.sub_self]
  · rw [List.length_append, hlength, h.output]
  · exact h.total
  · exact h.completed
  · exact h.pending
  · exact h.pendingCount
  · exact copyFrame_trans h.frame rfl

/-- The loop stops when the output is full or the queue is empty. -/
theorem Copied.loop {fuel : Nat} {c' : Copying}
    (h : Copied p queue free length c queue' free' bytes) (hr : copyLoop fuel c = some c') :
    ∃ queue'' free'' bytes', Copied p queue free length c' queue'' free'' bytes' ∧
      (c'.remaining = 0 ∨ queue'' = []) := by
  induction fuel generalizing c queue' free' bytes with
  | zero => cases hr
  | succ fuel ih =>
    have hhead := h.shape.head_eq
    rw [copyLoop] at hr
    cases queue' with
    | nil =>
      rw [hhead] at hr
      obtain rfl := Option.some.inj hr
      exact ⟨[], free', bytes, h, Or.inr rfl⟩
    | cons a queue' =>
      simp only [hhead, List.head?_cons] at hr
      split at hr
      case isTrue hzero =>
        obtain rfl := Option.some.inj hr
        exact ⟨a :: queue', free', bytes, h, Or.inl hzero⟩
      case isFalse =>
        by_cases hcount : (c.player.heap a).size - (c.player.heap a).offset ≤ c.remaining
        · exact ih (h.complete hcount) hr
        · exact ih (h.inside (Nat.lt_of_not_le hcount)) hr

theorem copyLoop_full (fuel : Nat) (h : c.remaining = 0) : copyLoop (fuel + 1) c = some c := by
  rw [copyLoop]
  cases c.player.head with
  | none => rfl
  | some a => simp [h]

/-- Every turn but the last plays a buffer to its end. -/
theorem Copied.loop_isSome {fuel : Nat} (h : Copied p queue free length c queue' free' bytes)
    (hfuel : queue'.length < fuel) : (copyLoop fuel c).isSome := by
  induction fuel generalizing c queue' free' bytes with
  | zero => exact absurd hfuel (Nat.not_lt_zero _)
  | succ fuel ih =>
    have hhead := h.shape.head_eq
    cases queue' with
    | nil =>
      rw [copyLoop, hhead]
      rfl
    | cons a queue' =>
      have hfilled := h.filled a (by simp)
      by_cases hzero : c.remaining = 0
      · rw [copyLoop_full fuel hzero]
        rfl
      · have hlt : queue'.length < fuel := by simpa using hfuel
        simp only [copyLoop, hhead, List.head?_cons, if_neg hzero]
        by_cases hcount : (c.player.heap a).size - (c.player.heap a).offset ≤ c.remaining
        · exact ih (h.complete hcount) hlt
        · -- The turn fills the output, so the next one stops.
          obtain ⟨turns, rfl⟩ : ∃ turns, fuel = turns + 1 := ⟨fuel - 1, by omega⟩
          have hfull : (copyBuffer c a).remaining = 0 := by
            rw [copyBuffer_inside hfilled (Nat.lt_of_not_le hcount)]
          rw [copyLoop_full turns hfull]
          rfl

/-- What an SDL callback does while the player is playing. -/
theorem sdlAudioCallback_active {fuel : Nat} {r : Player × List UInt8 × Nat}
    (hshape : Shape p.toBufferQueue queue free) (hfilled : ∀ a ∈ queue, Filled (p.heap a))
    (hactive : p.isActive = true) (hr : p.sdlAudioCallback fuel length = some r) :
    ∃ c queue' free' bytes, Copied p queue free length c queue' free' bytes ∧
      (c.remaining = 0 ∨ queue' = []) ∧
      r = (c.player.countUnderrun c.remaining, c.stream, c.output) := by
  simp only [sdlAudioCallback, hactive, if_true, Option.map_eq_some_iff] at hr
  obtain ⟨c, hc, rfl⟩ := hr
  obtain ⟨queue', free', bytes, hcopied, hstop⟩ := (Copied.start hshape hfilled length).loop hc
  exact ⟨c, queue', free', bytes, hcopied, hstop, rfl⟩

theorem sdlAudioCallback_isSome {fuel : Nat} (hshape : Shape p.toBufferQueue queue free)
    (hfilled : ∀ a ∈ queue, Filled (p.heap a)) (hfuel : queue.length < fuel) (length : Nat) :
    (p.sdlAudioCallback fuel length).isSome := by
  rw [sdlAudioCallback]
  split
  case isTrue =>
    rw [Option.isSome_map]
    exact (Copied.start hshape hfilled length).loop_isSome hfuel
  case isFalse => rfl

end Player

end Asm2Runtime.AudioPlayer
