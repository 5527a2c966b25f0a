import Asm2Runtime.AudioRuns
import Mathlib.Algebra.Ring.Nat

/-!
# The play position

The copy loop cuts the queued bytes at the ends of the buffers and of the outputs, and
divides each piece by the size of a frame. What the divisions leave over is lost.
-/

namespace Asm2Runtime.AudioPlayer

open LinkedChain Transition

section Pieces

/-- The pieces that a number of bytes is cut into by the sizes of the buffers. -/
def cut : List Nat → Nat → List Nat
  | [], _ => []
  | size :: sizes, remaining =>
    if remaining = 0 then []
    else if size ≤ remaining then size :: cut sizes (remaining - size)
    else [remaining]

/-- The bytes left over by the divisions. -/
def leftOver (pieces : List Nat) : Nat := (pieces.map (· % bytesPerFrame)).sum

def frames (pieces : List Nat) : Nat := (pieces.map (· / bytesPerFrame)).sum

theorem sum_eq_frames (pieces : List Nat) :
    pieces.sum = bytesPerFrame * frames pieces + leftOver pieces := by
  induction pieces with
  | nil => rfl
  | cons piece pieces ih =>
    have hpiece := Nat.div_add_mod piece bytesPerFrame
    unfold frames leftOver at ih ⊢
    simp only [List.map_cons, List.sum_cons, Nat.mul_add]
    omega

/-- The bytes of a queued buffer that are still to be played. -/
def sizeLeft (b : AudioBuffer) : Nat := b.size - b.offset

/-- The walk over the queue. -/
def sizesFrom (Q : BufferQueue) : Nat → Option Addr → List Nat
  | _, none => []
  | 0, some _ => []
  | fuel + 1, some a => sizeLeft (Q.heap a) :: sizesFrom Q fuel (Q.heap a).next

theorem sizesFrom_eq {Q : BufferQueue} {p : Option Addr} {queue : List Addr}
    (h : Chain Q.links p queue) {fuel : Nat} (hfuel : queue.length ≤ fuel) :
    sizesFrom Q fuel p = queue.map fun a => sizeLeft (Q.heap a) := by
  induction queue generalizing p fuel with
  | nil =>
    obtain rfl : p = none := h
    cases fuel <;> rfl
  | cons a queue ih =>
    obtain ⟨rfl, hrest⟩ := h
    cases fuel with
    | zero => exact absurd hfuel (Nat.not_succ_le_zero _)
    | succ fuel => exact congrArg _ (ih hrest (Nat.le_of_succ_le_succ hfuel))

end Pieces

namespace Player

section Copy

variable {p : Player} {queue free queue' free' : List Addr} {length : Nat} {c c' : Copying}
  {bytes : List UInt8} {a : Addr}

/-- The buffers behind the one that is completed stay as they are. -/
theorem Copied.complete_sizes (h : Copied p queue free length c (a :: queue') free' bytes)
    (hcount : sizeLeft (c.player.heap a) ≤ c.remaining) :
    (queue'.map fun b => sizeLeft ((copyBuffer c a).player.heap b)) =
      queue'.map fun b => sizeLeft (c.player.heap b) := by
  have hnot : a ∉ queue' := (List.nodup_cons.1 (List.nodup_append.1 h.shape.apart).1).1
  rw [copyBuffer_complete (h.filled a (by simp)) hcount]
  refine List.map_congr_left fun b hb => congrArg sizeLeft ?_
  have hne : b ≠ a := fun heq => hnot (heq ▸ hb)
  have hcompleted := heap_completeFirst_of_ne
    (c.player.advance a (sizeLeft (c.player.heap a))).toBufferQueue hne
  exact hcompleted.trans (advance_heap_of_ne c.player _ hne)

/-- The loop copies and counts the pieces of the queue. -/
theorem Copied.pieces {fuel : Nat} (h : Copied p queue free length c queue' free' bytes)
    (hr : copyLoop fuel c = some c') :
    c'.output = c.output +
        (cut (queue'.map fun b => sizeLeft (c.player.heap b)) c.remaining).sum ∧
      c'.player.playedFrames = c.player.playedFrames +
        frames (cut (queue'.map fun b => sizeLeft (c.player.heap b)) c.remaining) := by
  induction fuel generalizing c queue' free' bytes with
  | zero => cases hr
  | succ fuel ih =>
    have hhead := h.shape.head_eq
    rw [copyLoop] at hr
    cases queue' with
    | nil =>
      rw [hhead] at hr
      obtain rfl := Option.some.inj hr
      exact ⟨rfl, rfl⟩
    | cons a queue' =>
      simp only [hhead, List.head?_cons] at hr
      rw [List.map_cons, cut]
      split at hr
      case isTrue hzero =>
        obtain rfl := Option.some.inj hr
        rw [if_pos hzero]
        exact ⟨rfl, rfl⟩
      case isFalse hmore =>
        rw [if_neg hmore]
        by_cases hcount : sizeLeft (c.player.heap a) ≤ c.remaining
        · rw [if_pos hcount]
          obtain ⟨houtput, hframes⟩ := ih (h.complete hcount) hr
          rw [h.complete_sizes hcount] at houtput hframes
          rw [copyBuffer_complete (h.filled a (by simp)) hcount] at houtput hframes
          constructor
          · rw [houtput, List.sum_cons, ← Nat.add_assoc]
            rfl
          · rw [hframes, frames, frames, List.map_cons, List.sum_cons, ← Nat.add_assoc]
            rfl
        · rw [if_neg hcount]
          have hinside := Nat.lt_of_not_le hcount
          obtain ⟨houtput, hframes⟩ := ih (h.inside hinside) hr
          have hstop : (copyBuffer c a).remaining = 0 := by
            rw [copyBuffer_inside (h.filled a (by simp)) hinside]
          rw [hstop, List.map_cons, cut, if_pos rfl] at houtput hframes
          rw [copyBuffer_inside (h.filled a (by simp)) hinside] at houtput hframes
          constructor
          · rw [houtput]
            rfl
          · rw [hframes]
            rfl

end Copy

section Position

def frequency : Nat := 32000

/-- `asm2_sl_play_get_position` -/
def playGetPosition (p : Player) : Nat :=
  p.playedFrames * 1000 % 2 ^ 64 / frequency % 2 ^ 32

end Position

end Player

namespace System

section Pieces

/-- The bytes out of buffers since the last Clear. -/
def consumedPost (n : Nat) : Obs → Nat
  | .played _ copied _ _ => n + copied
  | .cleared _ => 0
  | _ => n

def consumed (log : List Obs) : Nat := log.foldl consumedPost 0

theorem consumed_snoc (log : List Obs) (o : Obs) :
    consumed (log ++ [o]) = consumedPost (consumed log) o := by
  rw [consumed, List.foldl_append]
  rfl

/-- The pieces that an event cuts off the queue of the state before it. -/
def pieces (s : System) : Event → List Nat
  | .audio length =>
    if s.player.isActive then cut (sizesFrom s.player.toBufferQueue s.fuel s.player.head) length
    else []
  | _ => []

/-- What has been left over since the last Clear. -/
def lostPost (s : System) (lost : Nat) : Event → Nat
  | .clear _ => 0
  | e => lost + leftOver (s.pieces e)

def lostFrom (cfg : Config) : System → Nat → List Event → Nat
  | _, lost, [] => lost
  | s, lost, e :: es =>
    match s.step cfg e with
    | some t => lostFrom cfg t (s.lostPost lost e) es
    | none => lost

end Pieces

section Steps

variable {cfg : Config} {s t : System}

/-- What GetPosition and the account of the consumed bytes depend on. -/
def meter (s : System) : Nat × Nat := (s.player.playedFrames, consumed s.log)

theorem record_meter {p : Player} {o : Obs} (hp : p.playedFrames = s.player.playedFrames)
    (ho : ∀ n, consumedPost n o = n) : (s.record p o).meter = s.meter := by
  unfold meter record
  rw [consumed_snoc, ho, hp]

theorem enqueueBegin_meter {u : ThreadId} {data : List UInt8}
    (ht : s.enqueueBegin cfg u data = some t) : t.meter = s.meter := by
  rw [enqueueBegin] at ht
  split at ht
  case isFalse => cases ht
  case isTrue =>
    split at ht
    case isTrue =>
      obtain rfl := Option.some.inj ht
      exact record_meter rfl fun _ => rfl
    case isFalse =>
      split at ht
      case isTrue =>
        obtain rfl := Option.some.inj ht
        exact record_meter rfl fun _ => rfl
      case isFalse =>
        split at ht
        case isFalse => cases ht
        case isTrue => split at ht <;> obtain rfl := Option.some.inj ht <;> rfl

theorem prepareBuffer_meter (s : System) (r : Running) (a : Addr) (block : Option (Nat → UInt8)) :
    (s.prepareBuffer r a block).meter = s.meter := by
  unfold prepareBuffer
  simp only
  split
  · split <;> rfl
  · rfl

theorem enqueuePrepare_meter {u : ThreadId} {fresh : Option Addr} {block : Option (Nat → UInt8)}
    (ht : s.enqueuePrepare u fresh block = some t) : t.meter = s.meter := by
  rw [enqueuePrepare] at ht
  split at ht
  case isTrue => cases ht
  case isFalse =>
    split at ht
    case h_2 => cases ht
    case h_1 r _ =>
      split at ht
      case h_3 => cases ht
      case h_1 a _ =>
        obtain rfl := Option.some.inj ht
        exact prepareBuffer_meter s r a block
      case h_2 =>
        split at ht
        case h_1 =>
          obtain rfl := Option.some.inj ht
          have hrecord : ({ s with running := s.without u }.record s.player
              (.refused u .memoryFailure)).meter = { s with running := s.without u }.meter :=
            record_meter rfl fun _ => rfl
          exact hrecord
        case h_2 a =>
          split at ht
          case isTrue => cases ht
          case isFalse =>
            obtain rfl := Option.some.inj ht
            exact prepareBuffer_meter _ r a block

theorem enqueueEnd_meter {u : ThreadId} (ht : s.enqueueEnd cfg u = some t) :
    t.meter = s.meter := by
  rw [enqueueEnd] at ht
  split at ht
  case isTrue => cases ht
  case isFalse =>
    split at ht
    case h_2 => cases ht
    case h_1 r _ =>
      have hwithout : { s with running := s.without u }.meter = s.meter := rfl
      split at ht
      case h_3 => cases ht
      case h_1 =>
        obtain rfl := Option.some.inj ht
        rw [← hwithout]
        exact record_meter rfl fun _ => rfl
      case h_2 =>
        split at ht
        all_goals
          obtain rfl := Option.some.inj ht
          rw [← hwithout]
          exact record_meter rfl fun _ => rfl

theorem takeSection_meter (s : System) : s.takeSection.meter = s.meter := by
  have hframes : s.player.takeCompletion.playedFrames = s.player.playedFrames := by
    unfold Player.takeCompletion
    simp only
    split <;> rfl
  simp only [takeSection]
  split
  case isTrue => rfl
  case isFalse =>
    split
    case h_1 =>
      exact record_meter (s := s) (o := .dequeued none s.player.takeCompletion.callbackContext)
        hframes fun _ => rfl
    case h_2 f _ =>
      exact record_meter (s := s)
        (o := .dequeued (some f) s.player.takeCompletion.callbackContext) hframes fun _ => rfl

theorem waitOrTake_meter (s : System) : s.waitOrTake.meter = s.meter := by
  rw [waitOrTake]
  split
  case isTrue => rfl
  case isFalse => exact takeSection_meter s

theorem poll_meter (s : System) : s.poll.meter = s.meter := by
  rw [poll]
  split
  case isTrue =>
    refine record_meter ?_ fun _ => rfl
    unfold Player.requestRecovery
    split <;> rfl
  case isFalse => rfl

theorem destroyEnd_meter (ht : s.destroyEnd = some t) : t.meter = s.meter := by
  rw [destroyEnd] at ht
  split at ht
  case h_1 u _ =>
    obtain rfl := Option.some.inj ht
    exact record_meter (s := s) (p := { s.player with destroyResourcesClosed := true })
      (o := .destroyReturned u) rfl fun _ => rfl
  case h_2 =>
    split at ht
    case isTrue =>
      obtain rfl := Option.some.inj ht
      simp only [meter, consumed, List.foldl_append, List.foldl_cons, List.foldl_nil, consumedPost]
    case isFalse => cases ht
  case h_3 => cases ht

theorem workerExit_meter (ht : s.workerExit = some t) : t.meter = s.meter := by
  rw [workerExit] at ht
  split at ht
  case h_2 => cases ht
  case h_1 =>
    split at ht
    case isFalse =>
      obtain rfl := Option.some.inj ht
      rfl
    case isTrue =>
      split at ht
      case isFalse => cases ht
      case isTrue =>
        obtain rfl := Option.some.inj ht
        simp only [meter, consumed_snoc, consumedPost]

/-- A callback adds the frames and the bytes of its pieces. -/
theorem audio_meter (h : s.Sound cfg) {length : Nat} (ht : s.audio length = some t) :
    t.meter = (s.player.playedFrames + frames (s.pieces (.audio length)),
      consumed s.log + (s.pieces (.audio length)).sum) := by
  obtain ⟨queue, free, hinv⟩ := h
  rw [audio] at ht
  split at ht
  case isFalse => cases ht
  case isTrue =>
    obtain ⟨result, hresult, rfl⟩ := Option.map_eq_some_iff.1 ht
    unfold Player.sdlAudioCallback at hresult
    rw [pieces, meter, record, consumed_snoc, consumedPost]
    simp only at hresult
    split at hresult
    case isFalse hactive =>
      obtain rfl := Option.some.inj hresult
      rw [if_neg hactive]
      rfl
    case isTrue hactive =>
      obtain ⟨c, hc, rfl⟩ := Option.map_eq_some_iff.1 hresult
      have hstart := Player.Copied.start hinv.shape hinv.filled length
      obtain ⟨houtput, hframes⟩ := hstart.pieces hc
      have hsizes : sizesFrom s.player.toBufferQueue s.fuel s.player.head =
          queue.map fun a => sizeLeft (s.player.heap a) :=
        sizesFrom_eq hinv.shape.queued (Nat.le_of_lt (queue_fuel hinv))
      have hcount : (c.player.countUnderrun c.remaining).playedFrames = c.player.playedFrames := by
        unfold Player.countUnderrun
        split <;> rfl
      rw [if_pos hactive, hsizes, hcount, hframes, houtput, Nat.zero_add]

theorem clear_meter {u : ThreadId} (ht : s.step cfg (.clear u) = some t) : t.meter = (0, 0) := by
  simp only [step] at ht
  split at ht
  case isFalse => cases ht
  case isTrue =>
    obtain ⟨result, hresult, rfl⟩ := Option.map_eq_some_iff.1 ht
    obtain ⟨Q, hrestart, _⟩ := bufferClear_eq hresult
    rw [meter, record, consumed_snoc, consumedPost, hrestart]
    rfl

/-- Only a callback and Clear move the counters. -/
theorem step_meter (h : s.Sound cfg) {e : Event} (ht : s.step cfg e = some t)
    (hclear : ∀ u, e ≠ .clear u) :
    t.meter = (s.player.playedFrames + frames (s.pieces e),
      consumed s.log + (s.pieces e).sum) := by
  cases e with
  | audio length => exact audio_meter h ht
  | clear u => exact absurd rfl (hclear u)
  | enqueueBegin u data => exact enqueueBegin_meter ht
  | enqueuePrepare u fresh block => exact enqueuePrepare_meter ht
  | enqueueEnd u => exact enqueueEnd_meter ht
  | setPlayState u state =>
    simp only [step, Option.ite_none_right_eq_some, Option.some.injEq] at ht
    rw [← ht.2]
    refine record_meter ?_ fun _ => rfl
    unfold Player.setPlayState
    split <;> rfl
  | registerCallback u callback context =>
    simp only [step, Option.ite_none_right_eq_some, Option.some.injEq] at ht
    rw [← ht.2]
    exact record_meter rfl fun _ => rfl
  | destroyBegin u =>
    simp only [step, Option.ite_none_right_eq_some, Option.some.injEq] at ht
    rw [← ht.2]
    exact record_meter (s := s) (p := s.player.beginDestroy u) (o := .destroyed) rfl fun _ => rfl
  | destroyClose =>
    simp only [step] at ht
    split at ht
    case h_1 =>
      obtain rfl := Option.some.inj ht
      rfl
    case h_2 => cases ht
  | destroyEnd => exact destroyEnd_meter ht
  | workerStart =>
    simp only [step, Option.ite_none_right_eq_some, Option.some.injEq] at ht
    rw [← ht.2]
    rfl
  | workerLock =>
    simp only [step, Option.ite_none_right_eq_some, Option.some.injEq] at ht
    rw [← ht.2]
    exact waitOrTake_meter s
  | workerWake =>
    simp only [step, Option.ite_none_right_eq_some, Option.some.injEq] at ht
    rw [← ht.2]
    exact (waitOrTake_meter s.poll).trans (poll_meter s)
  | workerInvoke =>
    simp only [step] at ht
    split at ht
    case h_1 f c _ _ =>
      obtain rfl := Option.some.inj ht
      exact record_meter (s := s) (p := s.player) (o := .invoked f c) rfl fun _ => rfl
    case h_2 => cases ht
  | workerReturn =>
    simp only [step] at ht
    split at ht
    case h_1 n _ =>
      simp only [Option.ite_none_right_eq_some, Option.some.injEq] at ht
      rw [← ht.2]
      exact record_meter (s := s) (p := s.player.finishCallback n) (o := .finished) rfl fun _ => rfl
    case h_2 => cases ht
  | workerReport due =>
    simp only [step, Option.ite_none_right_eq_some, Option.some.injEq] at ht
    rw [← ht.2]
    cases due <;> rfl
  | workerExit => exact workerExit_meter ht

end Steps

section Runs

variable {cfg : Config} {s t : System} {es : List Event}

/-- The consumed bytes are those of the frames and the lost ones. -/
theorem step_account (h : s.Sound cfg) {e : Event} {lost : Nat}
    (haccount : consumed s.log = bytesPerFrame * s.player.playedFrames + lost)
    (ht : s.step cfg e = some t) :
    consumed t.log = bytesPerFrame * t.player.playedFrames + s.lostPost lost e := by
  by_cases hclear : ∃ u, e = .clear u
  · obtain ⟨u, rfl⟩ := hclear
    obtain ⟨hframes, hconsumed⟩ := Prod.mk.inj (clear_meter ht)
    rw [hframes, hconsumed]
    rfl
  · have hnot : ∀ u, e ≠ .clear u := fun u heq => hclear ⟨u, heq⟩
    obtain ⟨hframes, hconsumed⟩ := Prod.mk.inj (step_meter h ht hnot)
    have hlost : s.lostPost lost e = lost + leftOver (s.pieces e) := by
      cases e with
      | clear u => exact absurd rfl (hnot u)
      | _ => rfl
    rw [hframes, hconsumed, hlost, haccount, sum_eq_frames, Nat.mul_add]
    omega

theorem run_account (h : s.Sound cfg) {lost : Nat}
    (haccount : consumed s.log = bytesPerFrame * s.player.playedFrames + lost)
    (hrun : run (step cfg) s es = some t) :
    consumed t.log = bytesPerFrame * t.player.playedFrames + lostFrom cfg s lost es := by
  induction es generalizing s lost with
  | nil =>
    obtain rfl : s = t := by simpa using hrun
    exact haccount
  | cons e es ih =>
    obtain ⟨u, hu, hmore⟩ := run_cons.mp hrun
    rw [lostFrom, hu]
    exact ih (step_sound h hu) (step_account h haccount hu) hmore

theorem run_frames_le (h : s.Sound cfg) (hclear : ∀ u, .clear u ∉ es)
    (hrun : run (step cfg) s es = some t) : s.player.playedFrames ≤ t.player.playedFrames := by
  induction es generalizing s with
  | nil =>
    obtain rfl : s = t := by simpa using hrun
    exact Nat.le_refl _
  | cons e es ih =>
    obtain ⟨u, hu, hmore⟩ := run_cons.mp hrun
    have hnot : ∀ w, e ≠ .clear w := fun w heq => hclear w (heq ▸ List.mem_cons_self)
    have hframes := congrArg Prod.fst (step_meter h hu hnot)
    have hrest := ih (step_sound h hu) (fun w hw => hclear w (List.mem_cons_of_mem e hw)) hmore
    have hstep : u.player.playedFrames = s.player.playedFrames + frames (s.pieces e) := hframes
    omega

/-- The position counts the consumed frames, and never decreases before the next Clear. -/
structure CountsFrames (cfg : Config) (s : System) : Prop where
  frames : s.player.playedFrames = consumed s.log / bytesPerFrame
  mono : ∀ es t, run (step cfg) s es = some t → (∀ u, .clear u ∉ es) →
    t.player.playedFrames * 1000 / Player.frequency < 2 ^ 32 →
      s.player.playGetPosition ≤ t.player.playGetPosition

theorem position_mono (h : s.Sound cfg) (hclear : ∀ u, .clear u ∉ es)
    (hrun : run (step cfg) s es = some t)
    (hrange : t.player.playedFrames * 1000 / Player.frequency < 2 ^ 32) :
    s.player.playGetPosition ≤ t.player.playGetPosition := by
  have hle := run_frames_le h hclear hrun
  have hmillis : s.player.playedFrames * 1000 ≤ t.player.playedFrames * 1000 :=
    Nat.mul_le_mul_right 1000 hle
  have hbound : t.player.playedFrames * 1000 < 2 ^ 32 * Player.frequency :=
    (Nat.div_lt_iff_lt_mul (by decide)).mp hrange
  have hword : 2 ^ 32 * Player.frequency < 2 ^ 64 := by decide +kernel
  have hlater := Nat.lt_trans hbound hword
  have hdiv := Nat.div_le_div_right hmillis (c := Player.frequency)
  unfold Player.playGetPosition
  rw [Nat.mod_eq_of_lt (Nat.lt_of_le_of_lt hmillis hlater), Nat.mod_eq_of_lt hlater,
    Nat.mod_eq_of_lt (Nat.lt_of_le_of_lt hdiv hrange), Nat.mod_eq_of_lt hrange]
  exact hdiv

/-- The position counts the frames of a run exactly when the divisions of its pieces have left
over less than a frame since the last Clear. -/
theorem counts_frames_iff (cfg : Config) (callback : Option GuestFunction) (context : Context)
    (generation : UInt32)
    (hrun : run (step cfg) (initial callback context generation) es = some s) :
    CountsFrames cfg s ↔ lostFrom cfg (initial callback context generation) 0 es < bytesPerFrame := by
  have hstart : (initial callback context generation).Sound cfg :=
    ⟨[], [], Inv.initial cfg callback context generation⟩
  have haccount : consumed s.log = bytesPerFrame * s.player.playedFrames +
      lostFrom cfg (initial callback context generation) 0 es := run_account hstart rfl hrun
  have hdiv : consumed s.log / bytesPerFrame = s.player.playedFrames +
      lostFrom cfg (initial callback context generation) 0 es / bytesPerFrame := by
    rw [haccount, Nat.mul_add_div (by decide)]
  constructor
  · intro hcounts
    have hframes := hcounts.frames
    have hzero : lostFrom cfg (initial callback context generation) 0 es / bytesPerFrame = 0 := by
      omega
    exact (Nat.div_eq_zero_iff_lt (by decide)).mp hzero
  · intro hlost
    refine ⟨?_, fun es' t hmore hclear hrange => position_mono (run_sound hrun) hclear hmore hrange⟩
    rw [hdiv, Nat.div_eq_of_lt hlost, Nat.add_zero]

/-- Two buffers of the given contents, played by one callback of four bytes. -/
def playTwo (first second : List UInt8) : List Event :=
  [.enqueueBegin 1 first, .enqueuePrepare 1 (some 100) (some fun _ => 0), .enqueueEnd 1,
    .enqueueBegin 1 second, .enqueuePrepare 1 (some 200) (some fun _ => 0), .enqueueEnd 1,
    .setPlayState 1 .playing, .audio 4]

theorem counts_frames_playTwo :
    ∃ s, run (step plainConfig) (initial none 0 0) (playTwo [1, 2, 3] [4, 5, 6, 7]) = some s ∧
      s.player.playedFrames = 0 ∧
      (CountsFrames plainConfig s ↔
        lostFrom plainConfig (initial none 0 0) 0 (playTwo [1, 2, 3] [4, 5, 6, 7]) <
          bytesPerFrame) := by
  have hframes : (run (step plainConfig) (initial none 0 0)
      (playTwo [1, 2, 3] [4, 5, 6, 7])).map (fun s => s.player.playedFrames) = some 0 := by
    decide +kernel
  obtain ⟨s, hrun, hs⟩ := Option.map_eq_some_iff.mp hframes
  exact ⟨s, hrun, hs, counts_frames_iff plainConfig none 0 0 hrun⟩

/-- Half a frame out of each of two buffers. -/
theorem not_counts_frames :
    ¬ ∀ (cfg : Config) (callback : Option GuestFunction) (context : Context) (generation : UInt32)
      (es : List Event) (s : System),
      run (step cfg) (initial callback context generation) es = some s → CountsFrames cfg s := by
  intro h
  have hmeter : (run (step plainConfig) (initial none 0 0) (playTwo [1, 2] [3, 4])).map meter =
      some (0, 4) := by decide +kernel
  obtain ⟨s, hrun, hs⟩ := Option.map_eq_some_iff.mp hmeter
  obtain ⟨hframes, hconsumed⟩ := Prod.mk.inj hs
  have hcounts := (h plainConfig none 0 0 _ s hrun).frames
  rw [hframes, hconsumed] at hcounts
  exact absurd hcounts (by decide)

end Runs

end System

end Asm2Runtime.AudioPlayer
