import Asm2Runtime.AudioInvariant

/-!
# Runs of the player

Every event is one of the moves of the invariant, or it does not touch the part of
the system that the invariant reads.
-/

namespace Asm2Runtime.AudioPlayer

open LinkedChain Transition

namespace Player

/-- The part of a player that the invariant over its buffers reads. -/
structure AudioPart where
  lists : BufferQueue
  enqueues : Nat
  completedBuffers : Nat
  underrunBytes : Nat

def audioPart (p : Player) : AudioPart :=
  ⟨p.toBufferQueue, p.enqueues, p.completedBuffers, p.underrunBytes⟩

theorem setPlayState_audioPart (p : Player) (state : PlayState) :
    (p.setPlayState state).audioPart = p.audioPart := by
  rw [setPlayState]
  split <;> rfl

theorem takeCompletion_audioPart (p : Player) : p.takeCompletion.audioPart = p.audioPart := by
  simp only [takeCompletion]
  split <;> rfl

theorem requestRecovery_audioPart (p : Player) : p.requestRecovery.audioPart = p.audioPart := by
  rw [requestRecovery]
  split <;> rfl

theorem countUnderrun_audioPart (p : Player) (remaining : Nat) :
    (p.countUnderrun remaining).audioPart =
      { p.audioPart with underrunBytes := p.underrunBytes + remaining } := by
  rw [countUnderrun]
  split
  case isTrue => rfl
  case isFalse h =>
    have hzero : remaining = 0 := by simpa using h
    subst hzero
    rfl

end Player

namespace System

section Views

variable {s : System} {p : Player} {o : Obs}

theorem record_view (hp : p.audioPart = s.player.audioPart) :
    (s.record p o).view = { s.view with account := s.view.account.post o } := by
  have hlists := congrArg Player.AudioPart.lists hp
  have henqueues := congrArg Player.AudioPart.enqueues hp
  have hcompleted := congrArg Player.AudioPart.completedBuffers hp
  have hunderrun := congrArg Player.AudioPart.underrunBytes hp
  simp only [Player.audioPart] at hlists henqueues hcompleted hunderrun
  simp only [view, record, account_append, hlists, henqueues, hcompleted, hunderrun]

theorem poll_view (s : System) : s.poll.view = s.view := by
  rw [poll]
  split
  case isTrue => exact record_view (Player.requestRecovery_audioPart s.player)
  case isFalse => rfl

theorem takeSection_view (s : System) : s.takeSection.view = s.view := by
  have htaken := Player.takeCompletion_audioPart s.player
  simp only [takeSection]
  split
  case isTrue => rfl
  case isFalse =>
    split
    case h_1 => exact record_view (o := .dequeued none _) htaken
    case h_2 f _ => exact record_view (o := .dequeued (some f) _) htaken

theorem waitOrTake_view (s : System) : s.waitOrTake.view = s.view := by
  rw [waitOrTake]
  split
  case isTrue => rfl
  case isFalse => exact takeSection_view s

end Views

/-- The lists of a system are in order. -/
def Sound (cfg : Config) (s : System) : Prop := ∃ queue free, Inv cfg s.view queue free

section Steps

variable {cfg : Config} {s t : System} {queue free : List Addr} {r : Running} {a : Addr}

theorem Sound.of_view (h : s.Sound cfg) (hv : t.view = s.view) : t.Sound cfg := by
  rw [Sound, hv]
  exact h

theorem Sound.record (h : s.Sound cfg) {p : Player} {o : Obs}
    (hp : p.audioPart = s.player.audioPart) (ho : ∀ A : Account, A.post o = A) :
    (s.record p o).Sound cfg := by
  apply h.of_view
  rw [record_view hp, ho]

/-- A call that is let in finds room in the queue. -/
theorem refuses_room {capacity : Nat} {p : Player} {u : ThreadId}
    (h : p.refuses capacity u = false) : p.queuedCount < capacity := by
  simp only [Player.refuses, Bool.or_eq_false_iff, decide_eq_false_iff_not] at h
  omega

theorem enqueueBegin_sound (h : s.Sound cfg) {u : ThreadId} {data : List UInt8}
    (ht : s.enqueueBegin cfg u data = some t) : t.Sound cfg := by
  rw [enqueueBegin] at ht
  split at ht
  case isFalse => cases ht
  case isTrue hcall =>
    split at ht
    case isTrue =>
      obtain rfl := Option.some.inj ht
      exact h.record rfl fun _ => rfl
    case isFalse hdata =>
      split at ht
      case isTrue =>
        obtain rfl := Option.some.inj ht
        exact h.record rfl fun _ => rfl
      case isFalse hrefuses =>
        have hroom := refuses_room ((Bool.not_eq_true _).mp hrefuses)
        obtain ⟨queue, free, hinv⟩ := h
        have hcount : s.player.queuedCount = queue.length := hinv.shape.count
        split at ht
        case isFalse => cases ht
        case isTrue hlimit =>
          split at ht
          case h_1 hfree =>
            obtain rfl := Option.some.inj ht
            exact ⟨queue, free, hinv.begin u hdata hcall.2 hlimit (by omega) hfree⟩
          case h_2 a hfree =>
            obtain rfl := Option.some.inj ht
            obtain ⟨free', hinv'⟩ := hinv.take u hdata hcall.2 hlimit hfree
            exact ⟨queue, free', hinv'⟩

/-- A block that fits the data takes it. -/
theorem fillBuffer_ok {b : AudioBuffer} {data : List UInt8} (hblock : b.data.length = b.capacity)
    (hfits : data.length ≤ b.capacity) :
    (Player.fillBuffer b data).data.length = (Player.fillBuffer b data).capacity ∧
      Loaded (Player.fillBuffer b data) data := by
  constructor
  · simp only [Player.fillBuffer, List.length_append, List.length_drop]
    omega
  · constructor
    · rfl
    · rfl
    · rfl
    · exact hfits
    · exact List.take_left

theorem resizeBuffer_length {b : AudioBuffer} {size : Nat} (fill : Nat → UInt8)
    (hsize : b.data.length ≤ size) : (Player.resizeBuffer b size fill).data.length = size := by
  simp only [Player.resizeBuffer, List.length_append, List.length_map, List.length_range]
  omega

theorem put_self (Q : BufferQueue) (a : Addr) : Q.put a (Q.heap a) = Q := by
  simp [BufferQueue.put]

/-- A call that holds a buffer fills it, or finds that it cannot. -/
theorem prepareBuffer_inv {block : Option (Nat → UInt8)}
    (h : Inv cfg { s.view with
      running := { r with stage := .taken (some a) } :: s.without r.thread } queue free) :
    Inv cfg (s.prepareBuffer r a block).view queue free := by
  obtain ⟨_, _, hmem⟩ := h.hand_apart (List.Perm.refl _) rfl
  have hblock : (s.player.heap a).data.length = (s.player.heap a).capacity := h.blocks a hmem
  simp only [prepareBuffer]
  split
  case isTrue hsmall =>
    split
    case h_1 =>
      have hfailed : Inv cfg { s.view with
          lists := s.view.lists.put a (s.view.lists.heap a)
          running := { r with stage := .resizeFailed a } :: s.without r.thread } queue free :=
        h.write (List.Perm.refl _) rfl rfl rfl hblock fun hs => by cases hs
      rw [put_self] at hfailed
      exact hfailed
    case h_2 fill =>
      have hshort : (s.player.heap a).data.length ≤ r.data.length := by omega
      have hresized := resizeBuffer_length fill hshort
      obtain ⟨hwide, hloaded⟩ := fillBuffer_ok hresized (Nat.le_refl _)
      exact h.write (List.Perm.refl _) rfl rfl rfl hwide fun _ => hloaded
  case isFalse hfits =>
    obtain ⟨hwide, hloaded⟩ := fillBuffer_ok hblock (Nat.le_of_not_lt hfits)
    exact h.write (List.Perm.refl _) rfl rfl rfl hwide fun _ => hloaded

theorem enqueuePrepare_sound (h : s.Sound cfg) {u : ThreadId} {fresh : Option Addr}
    {block : Option (Nat → UInt8)} (ht : s.enqueuePrepare u fresh block = some t) :
    t.Sound cfg := by
  obtain ⟨queue, free, hinv⟩ := h
  rw [enqueuePrepare] at ht
  split at ht
  case isTrue => cases ht
  case isFalse =>
    split at ht
    case h_2 => cases ht
    case h_1 r hcall =>
      obtain ⟨hperm, rfl⟩ := running_perm hcall
      split at ht
      case h_3 => cases ht
      case h_1 a hstage =>
        obtain rfl := Option.some.inj ht
        have hself : r = { r with stage := .taken (some a) } := by rw [← hstage]
        refine ⟨queue, free, prepareBuffer_inv ?_⟩
        rw [← hself]
        exact hinv.perm hperm
      case h_2 hstage =>
        split at ht
        case h_1 =>
          obtain rfl := Option.some.inj ht
          refine Sound.record ⟨queue, free, ?_⟩ rfl fun _ => rfl
          exact hinv.giveUp hperm (by rw [hstage]; rfl)
        case h_2 a =>
          split at ht
          case isTrue => cases ht
          case isFalse hfresh =>
            obtain rfl := Option.some.inj ht
            exact ⟨queue, free, prepareBuffer_inv (hinv.allocate hperm hstage hfresh)⟩

theorem enqueueEnd_sound (h : s.Sound cfg) {u : ThreadId}
    (ht : s.enqueueEnd cfg u = some t) : t.Sound cfg := by
  obtain ⟨queue, free, hinv⟩ := h
  rw [enqueueEnd] at ht
  split at ht
  case isTrue => cases ht
  case isFalse =>
    split at ht
    case h_2 => cases ht
    case h_1 r hcall =>
      obtain ⟨hperm, rfl⟩ := running_perm hcall
      split at ht
      case h_3 => cases ht
      case h_1 a hstage =>
        obtain rfl := Option.some.inj ht
        have hback := hinv.giveBack hperm (a := a) (by rw [hstage]; rfl)
        refine ⟨queue, a :: free, ?_⟩
        simp only [view, record, account_append]
        exact hback
      case h_2 a hstage =>
        split at ht
        case isTrue =>
          obtain rfl := Option.some.inj ht
          have hback := hinv.giveBack hperm (a := a) (by rw [hstage]; rfl)
          refine ⟨queue, a :: free, ?_⟩
          simp only [view, record, account_append]
          exact hback
        case isFalse hrefuses =>
          obtain rfl := Option.some.inj ht
          have hroom := refuses_room ((Bool.not_eq_true _).mp hrefuses)
          have hcount : s.player.queuedCount = queue.length := hinv.shape.count
          have hlink := hinv.link hperm hstage (by omega)
          refine ⟨queue ++ [a], free, ?_⟩
          simp only [view, record, account_append]
          exact hlink

theorem bufferClear_eq {fuel : Nat} {p : Player} {result : Player × Nat}
    (h : p.bufferClear fuel = some result) : ∃ Q, result.1 = p.restart Q ∧
      p.toBufferQueue.clearQueuedBuffersLocked fuel = some (Q, result.2) := by
  obtain ⟨cleared, hcleared, rfl⟩ := Option.map_eq_some_iff.1 h
  exact ⟨cleared.1, rfl, hcleared⟩

theorem clear_sound (h : s.Sound cfg) {u : ThreadId}
    (ht : s.step cfg (.clear u) = some t) : t.Sound cfg := by
  obtain ⟨queue, free, hinv⟩ := h
  simp only [step] at ht
  split at ht
  case isFalse => cases ht
  case isTrue =>
    obtain ⟨result, hresult, rfl⟩ := Option.map_eq_some_iff.1 ht
    obtain ⟨Q, hrestart, hclear⟩ := bufferClear_eq hresult
    refine ⟨[], queue.reverse ++ free, ?_⟩
    rw [hrestart]
    simp only [view, record, account_append]
    exact hinv.clear hclear

theorem audio_sound (h : s.Sound cfg) {length : Nat} (ht : s.audio length = some t) :
    t.Sound cfg := by
  obtain ⟨queue, free, hinv⟩ := h
  rw [audio] at ht
  split at ht
  case isFalse => cases ht
  case isTrue =>
    obtain ⟨result, hresult, rfl⟩ := Option.map_eq_some_iff.1 ht
    cases hactive : s.player.isActive with
    | false =>
      simp only [Player.sdlAudioCallback, hactive] at hresult
      obtain rfl := Option.some.inj hresult
      refine Sound.record ⟨queue, free, hinv⟩ rfl ?_
      intro A
      simp [Account.post]
    | true =>
      obtain ⟨c, queue', free', bytes, hcopied, _, rfl⟩ :=
        Player.sdlAudioCallback_active hinv.shape hinv.filled hactive hresult
      have haudio := hinv.audio rfl rfl hcopied
        ((c.player.countUnderrun c.remaining).completedBuffers - s.player.completedBuffers)
      have hpart := Player.countUnderrun_audioPart c.player c.remaining
      have henqueues : c.player.enqueues = s.player.enqueues := by
        rw [hcopied.frame]
        rfl
      have hunderrun : c.player.underrunBytes = s.player.underrunBytes := by
        rw [hcopied.frame]
        rfl
      simp only [Player.audioPart, hunderrun] at hpart
      have hlists := congrArg Player.AudioPart.lists hpart
      have hcount := congrArg Player.AudioPart.enqueues hpart
      have hcompleted := congrArg Player.AudioPart.completedBuffers hpart
      have hbytes := congrArg Player.AudioPart.underrunBytes hpart
      simp only at hlists hcount hcompleted hbytes
      refine ⟨queue', free', ?_⟩
      simp only [view, record, account_append, hlists, hcount, hbytes, henqueues]
      rw [hcompleted] at haudio ⊢
      exact haudio

theorem destroyEnd_sound (h : s.Sound cfg) (ht : s.destroyEnd = some t) : t.Sound cfg := by
  rw [destroyEnd] at ht
  split at ht
  case h_1 u _ =>
    obtain rfl := Option.some.inj ht
    have hrecord := h.record (p := { s.player with destroyResourcesClosed := true })
      (o := .destroyReturned u) rfl fun _ => rfl
    exact hrecord.of_view rfl
  case h_2 =>
    split at ht
    case isTrue =>
      obtain rfl := Option.some.inj ht
      apply h.of_view
      simp only [view, account, List.foldl_append, List.foldl_cons, List.foldl_nil, Account.post]
    case isFalse => cases ht
  case h_3 => cases ht

theorem workerExit_sound (h : s.Sound cfg) (ht : s.workerExit = some t) : t.Sound cfg := by
  rw [workerExit] at ht
  split at ht
  case h_2 => cases ht
  case h_1 =>
    split at ht
    case isFalse =>
      obtain rfl := Option.some.inj ht
      exact h.of_view rfl
    case isTrue =>
      split at ht
      case isFalse => cases ht
      case isTrue =>
        obtain rfl := Option.some.inj ht
        apply h.of_view
        simp only [view, account_append, Account.post]

/-- Each of the player's steps keeps the queue and its bytes in order. -/
theorem step_sound {e : Event} (h : s.Sound cfg) (ht : s.step cfg e = some t) : t.Sound cfg := by
  cases e with
  | enqueueBegin u data => exact enqueueBegin_sound h ht
  | enqueuePrepare u fresh block => exact enqueuePrepare_sound h ht
  | enqueueEnd u => exact enqueueEnd_sound h ht
  | audio length => exact audio_sound h ht
  | setPlayState u state =>
    simp only [step, Option.ite_none_right_eq_some, Option.some.injEq] at ht
    rw [← ht.2]
    exact h.record (Player.setPlayState_audioPart s.player state) fun _ => rfl
  | clear u => exact clear_sound h ht
  | registerCallback u callback context =>
    simp only [step, Option.ite_none_right_eq_some, Option.some.injEq] at ht
    rw [← ht.2]
    exact h.record rfl fun _ => rfl
  | destroyBegin u =>
    simp only [step, Option.ite_none_right_eq_some, Option.some.injEq] at ht
    rw [← ht.2]
    have hrecord := h.record (p := s.player.beginDestroy u) (o := .destroyed) rfl fun _ => rfl
    exact hrecord.of_view rfl
  | destroyClose =>
    simp only [step] at ht
    split at ht
    case h_1 =>
      obtain rfl := Option.some.inj ht
      exact h.of_view rfl
    case h_2 => cases ht
  | destroyEnd => exact destroyEnd_sound h ht
  | workerStart =>
    simp only [step, Option.ite_none_right_eq_some, Option.some.injEq] at ht
    rw [← ht.2]
    exact h.of_view rfl
  | workerLock =>
    simp only [step, Option.ite_none_right_eq_some, Option.some.injEq] at ht
    rw [← ht.2]
    exact h.of_view (waitOrTake_view s)
  | workerWake =>
    simp only [step, Option.ite_none_right_eq_some, Option.some.injEq] at ht
    rw [← ht.2]
    exact h.of_view ((waitOrTake_view s.poll).trans (poll_view s))
  | workerInvoke =>
    simp only [step] at ht
    split at ht
    case h_1 f c _ _ =>
      obtain rfl := Option.some.inj ht
      have hrecord := h.record (p := s.player) (o := .invoked f c) rfl fun _ => rfl
      exact hrecord.of_view rfl
    case h_2 => cases ht
  | workerReturn =>
    simp only [step] at ht
    split at ht
    case h_1 n _ =>
      simp only [Option.ite_none_right_eq_some, Option.some.injEq] at ht
      rw [← ht.2]
      have hrecord := h.record (p := s.player.finishCallback n) (o := .finished) rfl fun _ => rfl
      exact hrecord.of_view rfl
    case h_2 => cases ht
  | workerReport due =>
    simp only [step, Option.ite_none_right_eq_some, Option.some.injEq] at ht
    rw [← ht.2]
    apply h.of_view
    cases due <;> rfl
  | workerExit => exact workerExit_sound h ht

/-- So does a run of them, from the player as it is made. -/
theorem run_sound {callback : Option GuestFunction} {context : Context} {generation : UInt32}
    {es : List Event}
    (hrun : run (step cfg) (initial callback context generation) es = some s) : s.Sound cfg :=
  run_invariant (fun _ _ _ h ht => step_sound h ht)
    ⟨[], [], Inv.initial cfg callback context generation⟩ hrun

/-- The queue has no more buffers than there are. -/
theorem queue_fuel (h : Inv cfg s.view queue free) : queue.length < s.fuel := by
  have hlen := h.owned.length_eq
  simp only [List.length_append, view] at hlen
  rw [fuel]
  omega

/-- The loops over the lists end: no section is left out of the runs. -/
theorem sections_return (h : s.Sound cfg) (length : Nat) :
    (s.player.sdlAudioCallback s.fuel length).isSome ∧ (s.player.bufferClear s.fuel).isSome := by
  obtain ⟨queue, free, hinv⟩ := h
  have hfuel := queue_fuel hinv
  constructor
  · exact Player.sdlAudioCallback_isSome hinv.shape hinv.filled hfuel length
  · rw [Player.bufferClear, Option.isSome_map, BufferQueue.clearQueuedBuffersLocked,
      Option.isSome_map]
    exact recycleFrom_isSome hinv.shape.queued (Nat.le_of_lt hfuel)

end Steps

section Representation

/-- What holds of the lists of a player whenever its mutex is free. -/
structure Represented (cfg : Config) (s : System) (queue free : List Addr) : Prop where
  /-- The list from `head` is finite and meets no buffer twice. -/
  queued : Chain s.player.links s.player.head queue
  count : s.player.queuedCount = queue.length
  room : s.player.queuedCount ≤ cfg.capacity
  tail : s.player.tail = queue.getLast?
  null : s.player.head = none ↔ s.player.tail = none
  playable : ∀ a ∈ queue, (s.player.heap a).offset < (s.player.heap a).size ∧
    (s.player.heap a).size ≤ (s.player.heap a).capacity
  recycled : Chain s.player.links s.player.freeBuffers free
  /-- Each buffer allocated so far is in exactly one place. -/
  owned : (queue ++ free ++ hands s.running).Perm s.allocated
  nodup : s.allocated.Nodup
  total : s.allocated.length ≤ cfg.capacity + cfg.limit - 1
  counted : s.player.enqueues =
    s.player.completedBuffers + s.player.queuedCount + (account s.log).dropped

theorem queue_representation (cfg : Config) (callback : Option GuestFunction) (context : Context)
    (generation : UInt32) {es : List Event} {s : System}
    (hrun : run (step cfg) (initial callback context generation) es = some s) :
    ∃ queue free, Represented cfg s queue free := by
  obtain ⟨queue, free, hinv⟩ := run_sound hrun
  have hcount : s.player.queuedCount = queue.length := hinv.shape.count
  have htotal := hinv.total
  refine ⟨queue, free, ?_⟩
  constructor
  · exact hinv.shape.queued
  · exact hcount
  · rw [hcount]
    exact hinv.room
  · exact hinv.shape.last
  · exact hinv.shape.head_none_iff
  · intro a ha
    exact ⟨(hinv.filled a ha).offset_lt, (hinv.filled a ha).size_le⟩
  · exact hinv.shape.recycled
  · exact hinv.owned
  · exact hinv.nodup
  · simp only [view] at htotal
    omega
  · rw [hcount]
    exact hinv.counted

def plainConfig : Config := ⟨2, by decide, by decide, 2, 9⟩

/-- Two calls at once, a callback that ends inside a buffer and one that runs dry, a buffer that
is used again, and a Clear. -/
def plainEvents : List Event :=
  [.enqueueBegin 1 [1, 2, 3, 4], .enqueuePrepare 1 (some 100) (some fun _ => 0),
    .enqueueBegin 2 [5, 6], .enqueueEnd 1, .enqueuePrepare 2 (some 200) (some fun _ => 7),
    .setPlayState 1 .playing, .audio 3, .enqueueEnd 2, .audio 5,
    .enqueueBegin 1 [8], .enqueuePrepare 1 none none, .enqueueEnd 1, .clear 1]

theorem plainRun_isSome :
    (run (step plainConfig) (initial none 0 0) plainEvents).isSome = true := by
  decide +kernel

theorem queue_representation_plain :
    ∃ s, run (step plainConfig) (initial none 0 0) plainEvents = some s ∧
      ∃ queue free, Represented plainConfig s queue free := by
  obtain ⟨s, hs⟩ := Option.isSome_iff_exists.1 plainRun_isSome
  exact ⟨s, hs, queue_representation plainConfig none 0 0 hs⟩

end Representation

end System

end Asm2Runtime.AudioPlayer
