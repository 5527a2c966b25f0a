import Asm2Runtime.AudioRuns

/-!
# The stream of a player

What the callbacks write is what the accepted calls passed. `CallMove` says once what an
event can do to the running calls; the bytes of an accepted call are then those of the
event that started it.
-/

namespace Asm2Runtime.AudioPlayer

open LinkedChain Transition

/-- The part of a system that decides about callbacks; calls of Enqueue leave it alone. -/
structure Control where
  threadId : Option ThreadId
  inFlight : Bool
  generation : UInt32
  inFlightGeneration : UInt32
  pending : UInt32
  callback : Option GuestFunction
  context : Context
  worker : WorkerPc
  destroyer : DestroyPc

def System.control (s : System) : Control :=
  ⟨s.player.callbackThreadId, s.player.callbackInFlight, s.player.callbackGeneration,
    s.player.inFlightGeneration, s.player.pendingCallbacks, s.player.callback,
    s.player.callbackContext, s.worker, s.destroyer⟩

/-- The counters of completions and of recovery callbacks. -/
structure Books where
  pending : UInt32
  pendingRecovery : UInt32
  completed : Nat
  recovered : Nat

def System.books (s : System) : Books :=
  ⟨s.player.pendingCallbacks, s.player.pendingRecoveryCallbacks, s.player.completedBuffers,
    s.player.recoveryCallbacks⟩

namespace System

section Calls

variable {cfg : Config} {s t : System} {r : Running} {u w : ThreadId} {e : Event}

/-- No call is accepted by these observations. -/
def Quiet (obs : List Obs) : Prop := ∀ u data, .enqueued u data ∉ obs

/-- The running calls stay as they are, and none is accepted. -/
def Idle (s t : System) : Prop :=
  ∃ obs, t.running = s.running ∧ t.log = s.log ++ obs ∧ Quiet obs

/-- What a section of Enqueue does. -/
inductive CallMove (cfg : Config) (s t : System) (e : Event) : Prop where
  | reject (u : ThreadId) (result : SlResult) (running : t.running = s.running)
      (log : t.log = s.log ++ [.refused u result]) (control : t.control = s.control)
      (books : t.books = s.books)
  | begin (u : ThreadId) (data : List UInt8) (stage : Stage) (event : e = .enqueueBegin u data)
      (may : s.MayCall cfg u) (running : t.running = ⟨u, data, stage⟩ :: s.running)
      (log : t.log = s.log) (control : t.control = s.control)
      (books : t.books = s.books)
  | prepare (r : Running) (stage : Stage) (call : s.callOf r.thread = some r)
      (running : t.running = { r with stage := stage } :: s.without r.thread)
      (log : t.log = s.log) (control : t.control = s.control)
      (books : t.books = s.books)
  | refuse (r : Running) (result : SlResult) (call : s.callOf r.thread = some r)
      (running : t.running = s.without r.thread) (log : t.log = s.log ++ [.refused r.thread result])
      (control : t.control = s.control)
      (books : t.books = s.books)
  | accept (r : Running) (call : s.callOf r.thread = some r)
      (clear : s.player.refuses cfg.capacity r.thread = false)
      (running : t.running = s.without r.thread)
      (log : t.log = s.log ++ [.enqueued r.thread r.data]) (control : t.control = s.control)
      (books : t.books = s.books)

theorem Idle.record {p : Player} {o : Obs} (ho : Quiet [o]) : s.Idle (s.record p o) :=
  ⟨[o], rfl, rfl, ho⟩

theorem Idle.still (hrunning : t.running = s.running) (hlog : t.log = s.log) : s.Idle t := by
  refine ⟨[], hrunning, ?_, ?_⟩
  · rw [hlog, List.append_nil]
  · intro u data hm
    cases hm

theorem Idle.trans {t' : System} (h : s.Idle t) (h' : t.Idle t') : s.Idle t' := by
  obtain ⟨obs, hrunning, hlog, hquiet⟩ := h
  obtain ⟨obs', hrunning', hlog', hquiet'⟩ := h'
  refine ⟨obs ++ obs', hrunning'.trans hrunning, ?_, ?_⟩
  · rw [hlog', hlog, List.append_assoc]
  · intro u data hm
    cases List.mem_append.1 hm with
    | inl hm => exact hquiet u data hm
    | inr hm => exact hquiet' u data hm

theorem enqueueBegin_move {data : List UInt8} (ht : s.enqueueBegin cfg u data = some t) :
    CallMove cfg s t (.enqueueBegin u data) := by
  rw [enqueueBegin] at ht
  split at ht
  case isFalse => cases ht
  case isTrue hcall =>
    split at ht
    case isTrue =>
      obtain rfl := Option.some.inj ht
      exact .reject u .parameterInvalid rfl rfl rfl rfl
    case isFalse =>
      split at ht
      case isTrue =>
        obtain rfl := Option.some.inj ht
        exact .reject u (s.player.refusal u) rfl rfl rfl rfl
      case isFalse =>
        split at ht
        case isFalse => cases ht
        case isTrue =>
          split at ht
          case h_1 =>
            obtain rfl := Option.some.inj ht
            exact .begin u data (.taken none) rfl hcall.1 rfl rfl rfl rfl
          case h_2 a _ =>
            obtain rfl := Option.some.inj ht
            exact .begin u data (.taken (some a)) rfl hcall.1 rfl rfl rfl rfl

theorem prepareBuffer_running (s : System) (r : Running) (a : Addr)
    (block : Option (Nat → UInt8)) : ∃ stage,
      (s.prepareBuffer r a block).running = { r with stage := stage } :: s.without r.thread ∧
      (s.prepareBuffer r a block).log = s.log ∧
      (s.prepareBuffer r a block).control = s.control ∧
      (s.prepareBuffer r a block).books = s.books := by
  simp only [prepareBuffer]
  split
  case isTrue =>
    split
    case h_1 => exact ⟨.resizeFailed a, rfl, rfl, rfl, rfl⟩
    case h_2 => exact ⟨.filled a, rfl, rfl, rfl, rfl⟩
  case isFalse => exact ⟨.filled a, rfl, rfl, rfl, rfl⟩

theorem enqueuePrepare_move {fresh : Option Addr} {block : Option (Nat → UInt8)}
    (ht : s.enqueuePrepare u fresh block = some t) : CallMove cfg s t e := by
  rw [enqueuePrepare] at ht
  split at ht
  case isTrue => cases ht
  case isFalse =>
    split at ht
    case h_2 => cases ht
    case h_1 r hcall =>
      obtain ⟨_, rfl⟩ := running_perm hcall
      split at ht
      case h_3 => cases ht
      case h_1 a _ =>
        obtain rfl := Option.some.inj ht
        obtain ⟨stage, hrunning, hlog, hcontrol, hbooks⟩ := prepareBuffer_running s r a block
        exact .prepare r stage hcall hrunning hlog hcontrol hbooks
      case h_2 =>
        split at ht
        case h_1 =>
          obtain rfl := Option.some.inj ht
          exact .refuse r .memoryFailure hcall rfl rfl rfl rfl
        case h_2 a =>
          split at ht
          case isTrue => cases ht
          case isFalse =>
            obtain rfl := Option.some.inj ht
            obtain ⟨stage, hrunning, hlog, hcontrol, hbooks⟩ := prepareBuffer_running
              { s with
                player := s.player.withQueue (s.player.toBufferQueue.put a .zero)
                allocated := a :: s.allocated } r a block
            exact .prepare r stage hcall hrunning hlog hcontrol hbooks

theorem enqueueEnd_move (ht : s.enqueueEnd cfg u = some t) : CallMove cfg s t e := by
  rw [enqueueEnd] at ht
  split at ht
  case isTrue => cases ht
  case isFalse =>
    split at ht
    case h_2 => cases ht
    case h_1 r hcall =>
      obtain ⟨_, rfl⟩ := running_perm hcall
      split at ht
      case h_3 => cases ht
      case h_1 =>
        obtain rfl := Option.some.inj ht
        exact .refuse r .memoryFailure hcall rfl rfl rfl rfl
      case h_2 =>
        split at ht
        case isTrue =>
          obtain rfl := Option.some.inj ht
          exact .refuse r (s.player.refusal r.thread) hcall rfl rfl rfl rfl
        case isFalse hclear =>
          obtain rfl := Option.some.inj ht
          exact .accept r hcall ((Bool.not_eq_true _).mp hclear) rfl rfl rfl rfl

theorem takeSection_idle (s : System) : s.Idle s.takeSection := by
  simp only [takeSection]
  split
  case isTrue => exact .still rfl rfl
  case isFalse =>
    split
    case h_1 => exact ⟨[.dequeued none _], rfl, rfl, by simp [Quiet]⟩
    case h_2 f _ => exact ⟨[.dequeued (some f) _], rfl, rfl, by simp [Quiet]⟩

theorem waitOrTake_idle (s : System) : s.Idle s.waitOrTake := by
  rw [waitOrTake]
  split
  case isTrue => exact .still rfl rfl
  case isFalse => exact takeSection_idle s

theorem poll_idle (s : System) : s.Idle s.poll := by
  rw [poll]
  split
  case isTrue => exact .record (by simp [Quiet])
  case isFalse => exact .still rfl rfl

/-- Every event is a section of Enqueue or leaves the running calls alone. -/
theorem step_move (ht : s.step cfg e = some t) : CallMove cfg s t e ∨ s.Idle t := by
  cases e with
  | enqueueBegin u data => exact Or.inl (enqueueBegin_move ht)
  | enqueuePrepare u fresh block => exact Or.inl (enqueuePrepare_move ht)
  | enqueueEnd u => exact Or.inl (enqueueEnd_move ht)
  | audio length =>
    simp only [step, audio, Option.ite_none_right_eq_some, Option.map_eq_some_iff] at ht
    obtain ⟨_, result, _, rfl⟩ := ht
    exact Or.inr (.record (by simp [Quiet]))
  | setPlayState u state =>
    simp only [step, Option.ite_none_right_eq_some, Option.some.injEq] at ht
    rw [← ht.2]
    exact Or.inr (.record (by simp [Quiet]))
  | clear u =>
    simp only [step, Option.ite_none_right_eq_some, Option.map_eq_some_iff] at ht
    obtain ⟨_, result, _, rfl⟩ := ht
    exact Or.inr (.record (by simp [Quiet]))
  | registerCallback u callback context =>
    simp only [step, Option.ite_none_right_eq_some, Option.some.injEq] at ht
    rw [← ht.2]
    exact Or.inr (.record (by simp [Quiet]))
  | destroyBegin u =>
    simp only [step, Option.ite_none_right_eq_some, Option.some.injEq] at ht
    rw [← ht.2]
    exact Or.inr ⟨[.destroyed], rfl, rfl, by simp [Quiet]⟩
  | destroyClose =>
    simp only [step] at ht
    split at ht
    case h_1 =>
      obtain rfl := Option.some.inj ht
      exact Or.inr (.still rfl rfl)
    case h_2 => cases ht
  | destroyEnd =>
    simp only [step, destroyEnd] at ht
    split at ht
    case h_1 u _ =>
      obtain rfl := Option.some.inj ht
      exact Or.inr ⟨[.destroyReturned u], rfl, rfl, by simp [Quiet]⟩
    case h_2 u _ =>
      simp only [Option.ite_none_right_eq_some, Option.some.injEq] at ht
      rw [← ht.2]
      exact Or.inr ⟨[.released, .destroyReturned u], rfl, rfl, by simp [Quiet]⟩
    case h_3 => cases ht
  | workerStart =>
    simp only [step, Option.ite_none_right_eq_some, Option.some.injEq] at ht
    rw [← ht.2]
    exact Or.inr (.still rfl rfl)
  | workerLock =>
    simp only [step, Option.ite_none_right_eq_some, Option.some.injEq] at ht
    rw [← ht.2]
    exact Or.inr (waitOrTake_idle s)
  | workerWake =>
    simp only [step, Option.ite_none_right_eq_some, Option.some.injEq] at ht
    rw [← ht.2]
    exact Or.inr ((poll_idle s).trans (waitOrTake_idle s.poll))
  | workerInvoke =>
    simp only [step] at ht
    split at ht
    case h_1 f c _ _ =>
      obtain rfl := Option.some.inj ht
      exact Or.inr ⟨[.invoked f c], rfl, rfl, by simp [Quiet]⟩
    case h_2 => cases ht
  | workerReturn =>
    simp only [step] at ht
    split at ht
    case h_1 =>
      simp only [Option.ite_none_right_eq_some, Option.some.injEq] at ht
      rw [← ht.2]
      exact Or.inr ⟨[.finished], rfl, rfl, by simp [Quiet]⟩
    case h_2 => cases ht
  | workerReport due =>
    simp only [step, Option.ite_none_right_eq_some, Option.some.injEq] at ht
    rw [← ht.2]
    exact Or.inr (.still rfl rfl)
  | workerExit =>
    simp only [step, workerExit] at ht
    split at ht
    case h_2 => cases ht
    case h_1 =>
      split at ht
      case isFalse =>
        obtain rfl := Option.some.inj ht
        exact Or.inr (.still rfl rfl)
      case isTrue =>
        simp only [Option.ite_none_right_eq_some, Option.some.injEq] at ht
        rw [← ht.2]
        exact Or.inr ⟨[.released], rfl, rfl, by simp [Quiet]⟩

end Calls

section Accepted

variable {cfg : Config} {s t : System} {r : Running} {w : ThreadId} {es : List Event} {e : Event}

/-- What the calls of thread `w` passed, in order. -/
def callsOf (w : ThreadId) (es : List Event) : List (List UInt8) :=
  es.filterMap fun
    | .enqueueBegin u data => if u = w then some data else none
    | _ => none

def acceptedOf (w : ThreadId) (log : List Obs) : List (List UInt8) :=
  log.filterMap fun
    | .enqueued u data => if u = w then some data else none
    | _ => none

/-- What the running call of thread `w` passed. -/
def openOf (w : ThreadId) (running : List Running) : List (List UInt8) :=
  running.filterMap fun r => if r.thread = w then some r.data else none

theorem acceptedOf_quiet {obs : List Obs} (h : Quiet obs) : acceptedOf w obs = [] := by
  rw [acceptedOf, List.filterMap_eq_nil_iff]
  intro o ho
  cases o with
  | enqueued u data => exact absurd ho (h u data)
  | _ => rfl

theorem acceptedOf_append (log obs : List Obs) :
    acceptedOf w (log ++ obs) = acceptedOf w log ++ acceptedOf w obs := List.filterMap_append

theorem openOf_cons (r : Running) (running : List Running) :
    openOf w (r :: running) = openOf w [r] ++ openOf w running := by
  by_cases h : r.thread = w <;> simp [openOf, h]

theorem openOf_callOf_none (h : s.callOf w = none) : openOf w s.running = [] := by
  rw [openOf, List.filterMap_eq_nil_iff]
  intro r hr
  have hne := List.find?_eq_none.1 h r hr
  simpa using hne

theorem perm_eq_of_length {α : Type} {l l' : List α} (h : l.Perm l') (hl : l.length ≤ 1) :
    l = l' := by
  cases l with
  | nil => exact h.nil_eq
  | cons a l =>
    cases l with
    | nil => exact (List.perm_singleton.1 h.symm).symm
    | cons b l => simp at hl

/-- A thread makes one call at a time. -/
theorem openOf_call (h : s.callOf r.thread = some r) (hone : (openOf w s.running).length ≤ 1) :
    openOf w s.running = openOf w [r] ++ openOf w (s.without r.thread) := by
  rw [← openOf_cons]
  exact perm_eq_of_length ((running_perm h).1.filterMap _) hone

/-- The accepted calls of a thread and its running one are calls it made, in order. -/
def Calls (w : ThreadId) (es : List Event) (s : System) : Prop :=
  (openOf w s.running).length ≤ 1 ∧
    (acceptedOf w s.log ++ openOf w s.running).Sublist (callsOf w es)

theorem acceptedOf_snoc_quiet (log : List Obs) {obs : List Obs} (h : Quiet obs) :
    acceptedOf w (log ++ obs) = acceptedOf w log := by
  rw [acceptedOf_append, acceptedOf_quiet h, List.append_nil]

theorem step_calls (h : Calls w es s) (ht : s.step cfg e = some t) : Calls w (es ++ [e]) t := by
  obtain ⟨hone, hsub⟩ := h
  have hlonger : callsOf w (es ++ [e]) = callsOf w es ++ callsOf w [e] := List.filterMap_append
  have hmore : (callsOf w es).Sublist (callsOf w (es ++ [e])) := by
    rw [hlonger]
    exact List.sublist_append_left _ _
  cases step_move ht with
  | inr hidle =>
    obtain ⟨obs, hrunning, hlog, hquiet⟩ := hidle
    rw [Calls, hrunning, hlog, acceptedOf_snoc_quiet s.log hquiet]
    exact ⟨hone, hsub.trans hmore⟩
  | inl hmove =>
    cases hmove with
    | reject u result hrunning hlog _ _ =>
      rw [Calls, hrunning, hlog, acceptedOf_snoc_quiet s.log (by simp [Quiet])]
      exact ⟨hone, hsub.trans hmore⟩
    | begin u data stage hevent hmay hrunning hlog _ _ =>
      rw [Calls, hrunning, hlog, openOf_cons]
      by_cases huw : u = w
      · subst huw
        have hopen := openOf_callOf_none hmay.2.1
        have hcalls : callsOf u [e] = openOf u [⟨u, data, stage⟩] := by
          rw [hevent]
          simp [callsOf, openOf]
        rw [hopen, List.append_nil] at hsub ⊢
        constructor
        · simp [openOf]
        · rw [hlonger, hcalls]
          exact hsub.append (List.Sublist.refl _)
      · have hother : openOf w [⟨u, data, stage⟩] = [] := by simp [openOf, huw]
        rw [hother, List.nil_append]
        exact ⟨hone, hsub.trans hmore⟩
    | prepare r stage hcall hrunning hlog _ _ =>
      have hsame : openOf w t.running = openOf w s.running := by
        rw [openOf_call hcall hone, hrunning, openOf_cons]
        rfl
      rw [Calls, hsame, hlog]
      exact ⟨hone, hsub.trans hmore⟩
    | refuse r result hcall hrunning hlog _ _ =>
      have hopen := openOf_call hcall hone
      rw [hopen, List.length_append] at hone
      rw [hopen] at hsub
      have hdrop := (List.sublist_append_right (openOf w [r])
        (openOf w (s.without r.thread))).append_left (acceptedOf w s.log)
      rw [Calls, hrunning, hlog, acceptedOf_snoc_quiet s.log (by simp [Quiet])]
      constructor
      · omega
      · exact (hdrop.trans hsub).trans hmore
    | accept r hcall hclear hrunning hlog _ _ =>
      have hopen := openOf_call hcall hone
      have hlog' : acceptedOf w t.log = acceptedOf w s.log ++ openOf w [r] := by
        rw [hlog, acceptedOf_append]
        by_cases hrw : r.thread = w <;> simp [acceptedOf, openOf, hrw]
      rw [hopen, List.length_append] at hone
      rw [Calls, hrunning, hlog', List.append_assoc, ← hopen]
      constructor
      · omega
      · exact hsub.trans hmore

/-- The accepted calls of a thread are some of the calls it made, in the order of the calls. -/
theorem run_calls {callback : Option GuestFunction} {context : Context} {generation : UInt32}
    (hrun : run (step cfg) (initial callback context generation) es = some s) (w : ThreadId) :
    (acceptedOf w s.log).Sublist (callsOf w es) := by
  have hstart : Calls w [] (initial callback context generation) :=
    ⟨Nat.zero_le _, List.Sublist.refl _⟩
  have hcalls : Calls w ([] ++ es) s :=
    run_history (fun _ _ _ _ h ht => step_calls h ht) hstart hrun
  exact (List.sublist_append_left _ _).trans hcalls.2

end Accepted

section Stream

variable {cfg : Config} {s t : System}

/-- The output of a callback: bytes out of buffers, then filler. -/
structure Output (s t : System) (length : Nat) (stream : List UInt8) (copied : Nat) : Prop where
  size : stream.length = length
  copied_le : copied ≤ length
  filler : stream.drop copied = List.replicate (length - copied) 0
  /-- A player that is not playing, or is shut down, gives filler only. -/
  inactive : s.player.isActive = false → copied = 0
  /-- A playing one gives filler only once its queue is empty. -/
  dry : s.player.isActive = true → copied < length → t.player.head = none

theorem audio_output (h : s.Sound cfg) {length : Nat} (hopen : s.deviceOpen = true)
    (hlength : length < 2 ^ 31) : ∃ t stream copied completed, s.audio length = some t ∧
      t.log = s.log ++ [.played stream copied completed s.player.isActive] ∧
      Output s t length stream copied := by
  obtain ⟨queue, free, hinv⟩ := h
  obtain ⟨result, hresult⟩ := Option.isSome_iff_exists.1
    (Player.sdlAudioCallback_isSome hinv.shape hinv.filled (queue_fuel hinv) length)
  have haudio : s.audio length = some (s.record result.1 (.played result.2.1 result.2.2
      (result.1.completedBuffers - s.player.completedBuffers) s.player.isActive)) := by
    rw [audio, if_pos ⟨hopen, hlength⟩, hresult]
    rfl
  refine ⟨_, result.2.1, result.2.2, _, haudio, rfl, ?_⟩
  cases hactive : s.player.isActive with
  | false =>
    simp only [Player.sdlAudioCallback, hactive] at hresult
    obtain rfl := Option.some.inj hresult
    constructor
    · exact List.length_replicate
    · exact Nat.zero_le _
    · rfl
    · intro _
      rfl
    · intro hplaying
      rw [hactive] at hplaying
      cases hplaying
  | true =>
    obtain ⟨c, queue', free', bytes, hcopied, hstop, rfl⟩ :=
      Player.sdlAudioCallback_active hinv.shape hinv.filled hactive hresult
    have htotal := hcopied.total
    have hstream := hcopied.stream
    have hout := hcopied.output
    constructor
    · simp only [hstream, List.length_append, List.length_replicate]
      omega
    · simp only
      omega
    · have hremaining : c.remaining = length - c.output := by omega
      simp only [hstream, hout, List.drop_left, hremaining]
    · intro hnot
      rw [hactive] at hnot
      cases hnot
    · intro _ hshort
      have hnil : queue' = [] := by
        cases hstop with
        | inl hfull => simp only at hshort; omega
        | inr hnil => exact hnil
      subst hnil
      have hlists := congrArg Player.AudioPart.lists
        (Player.countUnderrun_audioPart c.player c.remaining)
      have hhead := congrArg BufferQueue.head hlists
      exact hhead.trans hcopied.shape.queued

/-- What was delivered and what is queued are, in order, what was accepted and not cleared; the
accepted data are those of the calls; every callback gives its bytes before any filler; and the
underrun count is the filler of a playing player. -/
theorem pcm_stream_fifo (cfg : Config) (callback : Option GuestFunction) (context : Context)
    (generation : UInt32) {es : List Event} {s : System}
    (hrun : run (step cfg) (initial callback context generation) es = some s) :
    (∃ queue, Chain s.player.links s.player.head queue ∧
      (account s.log).delivered ++ queuedBytes s.player.toBufferQueue queue =
        (account s.log).kept) ∧
    (∀ w, (acceptedOf w s.log).Sublist (callsOf w es)) ∧
    s.player.underrunBytes = (account s.log).filler ∧
    ∀ length, s.deviceOpen = true → length < 2 ^ 31 →
      ∃ t stream copied completed, s.step cfg (.audio length) = some t ∧
        t.log = s.log ++ [.played stream copied completed s.player.isActive] ∧
        Output s t length stream copied := by
  have hsound := run_sound hrun
  have hcalls := run_calls hrun
  obtain ⟨queue, free, hinv⟩ := hsound
  refine ⟨⟨queue, hinv.shape.queued, hinv.ledger⟩, hcalls, hinv.underrun, ?_⟩
  intro length hopen hlength
  exact audio_output ⟨queue, free, hinv⟩ hopen hlength

theorem pcm_stream_fifo_plain :
    ∃ s, run (step plainConfig) (initial none 0 0) plainEvents = some s ∧
      s.player.underrunBytes = (account s.log).filler ∧
      ∃ queue, Chain s.player.links s.player.head queue ∧
        (account s.log).delivered ++ queuedBytes s.player.toBufferQueue queue =
          (account s.log).kept := by
  obtain ⟨s, hs⟩ := Option.isSome_iff_exists.1 plainRun_isSome
  obtain ⟨hledger, _, hunderrun, _⟩ := pcm_stream_fifo plainConfig none 0 0 hs
  exact ⟨s, hs, hunderrun, hledger⟩

end Stream

end System

end Asm2Runtime.AudioPlayer
