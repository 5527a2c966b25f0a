import Asm2Runtime.AudioHandoff
import Asm2Runtime.MutexWaits
import Mathlib.Logic.Relation

/-!
# Who waits for whom

Destroy waits for the worker, whose callback may wait for a guest mutex. The handoff gives that
mutex up only at depth one; when the wait comes back to the thread of Destroy, it is for good.
-/

namespace Asm2Runtime.AudioTeardown

open AudioPlayer AudioPlayer.System Transition

section Known

variable {cfg : AudioPlayer.Config} {s s' : System}

/-- The player knows its worker once that has started. -/
def Known (cfg : AudioPlayer.Config) (s : System) : Prop :=
  s.worker ≠ .start → s.worker ≠ .exited → s.player.callbackThreadId = some cfg.workerThread

theorem Known.keep (h : Known cfg s) (hworker : s.worker ≠ .start) (hexited : s.worker ≠ .exited)
    (hthread : s'.player.callbackThreadId = s.player.callbackThreadId) : Known cfg s' :=
  fun _ _ => hthread.trans (h hworker hexited)

theorem Known.same (h : Known cfg s) (hworker : s'.worker = s.worker)
    (hthread : s'.player.callbackThreadId = s.player.callbackThreadId) : Known cfg s' :=
  fun hstart hexited => hthread.trans (h (hworker ▸ hstart) (hworker ▸ hexited))

theorem copyBuffer_threadId (c : Player.Copying) (a : Addr) :
    (Player.copyBuffer c a).player.callbackThreadId = c.player.callbackThreadId := by
  simp only [Player.copyBuffer]
  split <;> split <;> rfl

theorem audio_threadId {length : Nat} (h : s.audio length = some s') :
    s'.player.callbackThreadId = s.player.callbackThreadId := by
  simp only [System.audio, Option.ite_none_right_eq_some, Option.map_eq_some_iff] at h
  obtain ⟨-, r, hr, rfl⟩ := h
  simp only [Player.sdlAudioCallback] at hr
  split at hr
  · obtain ⟨c, hc, rfl⟩ := Option.map_eq_some_iff.mp hr
    refine Eq.trans ?_ (copyLoop_keeps copyBuffer_threadId hc)
    simp only [System.record, Player.countUnderrun]
    split <;> rfl
  · obtain rfl := Option.some.inj hr
    rfl

theorem takeSection_threadId (s : System) :
    s.takeSection.player.callbackThreadId = s.player.callbackThreadId := by
  have htake : s.player.takeCompletion.callbackThreadId = s.player.callbackThreadId := by
    simp only [Player.takeCompletion]
    split <;> rfl
  simp only [System.takeSection]
  split
  · rfl
  · split <;> exact htake

theorem waitOrTake_threadId (s : System) :
    s.waitOrTake.player.callbackThreadId = s.player.callbackThreadId := by
  simp only [System.waitOrTake]
  split
  · rfl
  · exact takeSection_threadId s

theorem poll_threadId (s : System) :
    s.poll.player.callbackThreadId = s.player.callbackThreadId := by
  simp only [System.poll]
  split
  · simp only [System.record, Player.requestRecovery]
    split <;> rfl
  · rfl

theorem CallMove.known {e : AudioPlayer.Event} (hmove : CallMove cfg s s' e) (h : Known cfg s) :
    Known cfg s' := by
  have hcontrol : s'.control = s.control := by
    cases hmove <;> assumption
  exact h.same (congrArg Control.worker hcontrol) (congrArg Control.threadId hcontrol)

theorem step_known {T : State} {e : AudioPlayer.Event} (hallows : T.allows e = true)
    (h : Known cfg s) (hstep : s.step cfg e = some s') : Known cfg s' := by
  cases e with
  | audio | destroyBegin | destroyClose | destroyEnd | workerExit => cases hallows
  | enqueueBegin u data => exact CallMove.known (enqueueBegin_move hstep) h
  | enqueuePrepare u fresh block =>
    have hmove : CallMove cfg s s' (.enqueuePrepare u fresh block) := enqueuePrepare_move hstep
    exact CallMove.known hmove h
  | enqueueEnd u =>
    have hmove : CallMove cfg s s' (.enqueueEnd u) := enqueueEnd_move hstep
    exact CallMove.known hmove h
  | setPlayState u state =>
    simp only [System.step, Option.ite_none_right_eq_some, Option.some.injEq] at hstep
    obtain ⟨-, rfl⟩ := hstep
    refine h.same rfl ?_
    simp only [System.record, Player.setPlayState]
    split <;> rfl
  | clear u =>
    simp only [System.step, Option.ite_none_right_eq_some, Option.map_eq_some_iff] at hstep
    obtain ⟨-, r, hr, rfl⟩ := hstep
    obtain ⟨q, -, rfl⟩ := Option.map_eq_some_iff.mp hr
    exact h.same rfl rfl
  | registerCallback u callback context =>
    simp only [System.step, Option.ite_none_right_eq_some, Option.some.injEq] at hstep
    obtain ⟨-, rfl⟩ := hstep
    exact h.same rfl rfl
  | workerStart =>
    simp only [System.step, Option.ite_none_right_eq_some, Option.some.injEq] at hstep
    obtain ⟨-, rfl⟩ := hstep
    exact fun _ _ => rfl
  | workerLock =>
    simp only [System.step, Option.ite_none_right_eq_some, Option.some.injEq] at hstep
    obtain ⟨hw, rfl⟩ := hstep
    exact h.keep (by rw [hw]; simp) (by rw [hw]; simp) (waitOrTake_threadId s)
  | workerWake =>
    simp only [System.step, Option.ite_none_right_eq_some, Option.some.injEq] at hstep
    obtain ⟨hw, rfl⟩ := hstep
    exact h.keep (by rw [hw]; simp) (by rw [hw]; simp)
      ((waitOrTake_threadId s.poll).trans (poll_threadId s))
  | workerInvoke =>
    simp only [System.step] at hstep
    split at hstep
    · rename_i f c n hw
      obtain rfl := Option.some.inj hstep
      exact h.keep (by rw [hw]; simp) (by rw [hw]; simp) rfl
    · cases hstep
  | workerReturn =>
    simp only [System.step] at hstep
    split at hstep
    · rename_i f c n hw
      simp only [Option.ite_none_right_eq_some, Option.some.injEq] at hstep
      obtain ⟨-, rfl⟩ := hstep
      exact h.keep (by rw [hw]; simp) (by rw [hw]; simp) rfl
    · cases hstep
  | workerReport due =>
    simp only [System.step, Option.ite_none_right_eq_some, Option.some.injEq] at hstep
    obtain ⟨hw, rfl⟩ := hstep
    refine h.keep (by rw [hw]; simp) (by rw [hw]; simp) ?_
    cases due <;> rfl

end Known

section Sure

variable {cfg : Config} {s s' : State} {t : ThreadId}

/-- The thread that is going to wait for the worker. -/
def DestroyPc.joins : DestroyPc → Option ThreadId
  | .locked t false _ _ _ _ | .lending t _ | .closing t false _ _ | .joining t _ => some t
  | _ => none

/-- The worker does not wait for itself. -/
structure Sure (cfg : Config) (s : State) : Prop where
  known : Known (s.playerConfig cfg) s.system
  aside : aside s.system = (.none, false)
  apart : s.destroy.joins ≠ some s.workerThread

/-- A step that leaves the worker and what the player knows of it. -/
structure Onward (s s' : State) : Prop where
  worker : s'.system.worker = s.system.worker
  threadId : s'.system.player.callbackThreadId = s.system.player.callbackThreadId
  aside : aside s'.system = aside s.system
  workerThread : s'.workerThread = s.workerThread
  joins : s'.destroy.joins = none ∨ s'.destroy.joins = s.destroy.joins

theorem Sure.onward (h : Sure cfg s) (ho : Onward s s') : Sure cfg s' where
  known := by
    have hknown := h.known
    have hconfig : s'.playerConfig cfg = s.playerConfig cfg := by
      simp only [State.playerConfig, ho.workerThread]
    rw [hconfig]
    exact hknown.same ho.worker ho.threadId
  aside := ho.aside.trans h.aside
  apart := by
    rw [ho.workerThread]
    rcases ho.joins with hnone | hsame
    · rw [hnone]
      simp
    · rw [hsame]
      exact h.apart

theorem Onward.system (hsystem : s'.system = s.system) (hthread : s'.workerThread = s.workerThread)
    (hjoins : s'.destroy.joins = none ∨ s'.destroy.joins = s.destroy.joins) : Onward s s' := by
  refine ⟨?_, ?_, ?_, hthread, hjoins⟩ <;> rw [hsystem]

theorem enterBridge_onward {op : MutexBridge.Op} {m : MutexBridge.Addr} {pc : DestroyPc}
    (hjoins : pc.joins = none ∨ pc.joins = s.destroy.joins)
    (hstep : s.enterBridge cfg t op m pc = some s') : Onward s s' := by
  obtain ⟨bridge, -, rfl⟩ := Option.map_eq_some_iff.mp hstep
  exact .system rfl rfl hjoins

theorem inBridge_onward {code : MutexBridge.Errno} {raw : Nat} {next : Int → DestroyPc}
    (hjoins : ∀ result, (next result).joins = none ∨ (next result).joins = s.destroy.joins)
    (hstep : s.inBridge cfg t code raw next = some s') : Onward s s' := by
  simp only [State.inBridge] at hstep
  split at hstep <;> obtain ⟨bridge, -, rfl⟩ := Option.map_eq_some_iff.mp hstep
  · exact .system rfl rfl (hjoins _)
  · exact .system rfl rfl (hjoins _)
  · exact .system rfl rfl (.inr rfl)

theorem destroyNext_onward {word : MutexBridge.Addr} {code : MutexBridge.Errno} {raw : Nat}
    (hstep : s.destroyNext cfg word code raw = some s') : Onward s s' := by
  cases hpc : s.destroy with
  | idle | returned | past =>
    rw [State.destroyNext, hpc] at hstep
    cases hstep
  | locked u deferred device inFlight callback context =>
    have hclosing : Onward s { s with destroy := .closing u deferred false device } := by
      refine .system rfl rfl ?_
      rw [hpc]
      cases deferred
      · exact .inr rfl
      · exact .inl rfl
    simp only [State.destroyNext, hpc] at hstep
    split at hstep
    · rename_i hlend
      split at hstep
      · refine enterBridge_onward (.inr ?_) hstep
        simp only [Bool.and_eq_true, Bool.not_eq_true'] at hlend
        rw [hpc, hlend.1]
        rfl
      · obtain rfl := Option.some.inj hstep
        exact hclosing
    · obtain rfl := Option.some.inj hstep
      exact hclosing
  | lending u device =>
    simp only [State.destroyNext, hpc] at hstep
    exact inBridge_onward (fun _ => .inr (by rw [hpc]; rfl)) hstep
  | takingBack u =>
    simp only [State.destroyNext, hpc] at hstep
    exact inBridge_onward (fun _ => .inl rfl) hstep
  | closing u deferred lent device =>
    have hjoins : (if deferred then DestroyPc.detaching u else .joining u lent).joins = none ∨
        (if deferred then DestroyPc.detaching u else .joining u lent).joins = s.destroy.joins := by
      rw [hpc]
      cases deferred
      · exact .inr rfl
      · exact .inl rfl
    simp only [State.destroyNext, hpc] at hstep
    split at hstep
    · simp only [Option.ite_none_right_eq_some, Option.some.injEq] at hstep
      obtain ⟨-, rfl⟩ := hstep
      exact .system rfl rfl hjoins
    · obtain rfl := Option.some.inj hstep
      exact .system rfl rfl hjoins
  | joining u lent =>
    simp only [State.destroyNext, hpc] at hstep
    split at hstep
    · cases hstep
    · split at hstep
      · exact enterBridge_onward (.inl rfl) hstep
      · obtain rfl := Option.some.inj hstep
        exact .system rfl rfl (.inl rfl)
  | detaching u | releasing u =>
    simp only [State.destroyNext, hpc] at hstep
    obtain rfl := Option.some.inj hstep
    exact .system rfl rfl (.inl rfl)
  | marking u =>
    simp only [State.destroyNext, hpc] at hstep
    obtain rfl := Option.some.inj hstep
    exact ⟨rfl, rfl, rfl, rfl, .inl rfl⟩

theorem openNext_sure (h : Sure cfg s) (hinv : Inv cfg s) {succeeds : Bool} {worker : ThreadId}
    (hstep : s.openNext cfg succeeds worker = some s') : Sure cfg s' := by
  have hsame := openNext_same hstep
  have hopening : s.opening ≠ .none := by
    intro hnone
    rw [State.openNext, hnone] at hstep
    cases hstep
  have hidle := hinv.idle_of_opening hopening
  have hjoins : s'.destroy.joins = none := by
    rw [hsame, hidle]
    rfl
  simp only [State.openNext] at hstep
  split at hstep
  case h_1 => cases hstep
  case h_4 =>
    split at hstep
    · obtain ⟨bridge, -, rfl⟩ := Option.map_eq_some_iff.mp hstep
      refine ⟨fun hstart => absurd rfl hstart, h.aside, ?_⟩
      rw [hjoins]
      simp
    · obtain rfl := Option.some.inj hstep
      exact h.onward (.system rfl rfl (.inl hjoins))
  case h_7 =>
    simp only [Option.ite_none_right_eq_some, Option.some.injEq] at hstep
    obtain ⟨-, rfl⟩ := hstep
    exact h.onward ⟨rfl, rfl, rfl, rfl, .inl hjoins⟩
  case h_6 | h_8 =>
    obtain rfl := Option.some.inj hstep
    exact h.onward ⟨rfl, rfl, rfl, rfl, .inl hjoins⟩
  all_goals
    split at hstep <;> obtain rfl := Option.some.inj hstep <;>
      exact h.onward ⟨rfl, rfl, rfl, rfl, .inl hjoins⟩

/-- A Destroy out of the player's own callback is left to the worker. -/
theorem destroyBegin_sure (h : Sure cfg s) (hinv : Inv cfg s) (hmay : s.MayDestroy cfg t) :
    Sure cfg (s.destroyBegin t) := by
  obtain ⟨hidle, hopening, -, -, hcall, -⟩ := hmay
  unfold State.destroyBegin
  split
  case isFalse => exact h.onward (.system rfl rfl (.inl rfl))
  case isTrue hmutex =>
    have hs := (hinv.untouched hidle).standing
    have hthread : s.callbackThread = true := by
      rw [hopening] at hs
      cases hr : s.realized with
      | true =>
        rw [hr] at hs
        exact hs.thread
      | false =>
        rw [hr] at hs
        cases hmutex.symm.trans hs.mutex
    refine ⟨h.known.same rfl rfl, h.aside, ?_⟩
    intro hjoins
    change DestroyPc.joins (.locked t _ _ _ _ _) = some s.workerThread at hjoins
    have hself : t = s.workerThread := by
      generalize (s.callbackThread && s.system.player.callbackThreadId == some t) = deferred
        at hjoins
      cases deferred with
      | false => exact Option.some.inj hjoins
      | true => cases hjoins
    obtain ⟨f, c, n, hw⟩ := (hcall hmutex).2.2.2 hself
    have hid := h.known (by rw [hw]; simp) (by rw [hw]; simp)
    have hdeferred : (s.callbackThread && s.system.player.callbackThreadId == some t) = true := by
      rw [hthread, hid, hself]
      simp [State.playerConfig]
    rw [hdeferred] at hjoins
    cases hjoins

theorem workerExit_sure (h : Sure cfg s) (hstep : s.workerExit = some s') : Sure cfg s' := by
  simp only [State.workerExit] at hstep
  split at hstep
  · split at hstep
    · obtain rfl := Option.some.inj hstep
      exact h.onward (.system rfl rfl (.inr rfl))
    · simp only [Option.ite_none_right_eq_some, Option.some.injEq] at hstep
      obtain ⟨-, rfl⟩ := hstep
      exact h.onward (.system rfl rfl (.inr rfl))
    · split at hstep <;> obtain rfl := Option.some.inj hstep
      · exact h.onward (.system rfl rfl (.inr rfl))
      · exact ⟨fun _ hexited => absurd rfl hexited, h.aside, h.apart⟩
    · obtain rfl := Option.some.inj hstep
      exact ⟨fun _ hexited => absurd rfl hexited, h.aside, h.apart⟩
  · cases hstep

theorem step_sure (h : Sure cfg s) (hinv : Inv cfg s) {e : Event}
    (hstep : step cfg s e = some s') : Sure cfg s' := by
  cases e with
  | registerCallback callback context =>
    simp only [step, Option.ite_none_right_eq_some, Option.some.injEq] at hstep
    obtain ⟨-, rfl⟩ := hstep
    exact h.onward ⟨rfl, rfl, rfl, rfl, .inr rfl⟩
  | realize | audioEnter | audioLeave =>
    simp only [step, Option.ite_none_right_eq_some, Option.some.injEq] at hstep
    obtain ⟨-, rfl⟩ := hstep
    exact h.onward (.system rfl rfl (.inr rfl))
  | openNext succeeds worker => exact openNext_sure h hinv hstep
  | player e =>
    simp only [step, Option.ite_none_right_eq_some, Option.map_eq_some_iff] at hstep
    obtain ⟨hallows, system, hsystem, rfl⟩ := hstep
    exact ⟨step_known hallows h.known hsystem, (step_calm hallows hsystem).aside.trans h.aside,
      h.apart⟩
  | audioSection length =>
    simp only [step, Option.ite_none_right_eq_some, Option.map_eq_some_iff] at hstep
    obtain ⟨-, system, hsystem, rfl⟩ := hstep
    have hworker : system.worker = s.system.worker := by
      simp only [System.audio, Option.ite_none_right_eq_some, Option.map_eq_some_iff] at hsystem
      obtain ⟨-, r, -, rfl⟩ := hsystem
      rfl
    exact ⟨h.known.same hworker (audio_threadId hsystem), (audio_calm hsystem).aside.trans h.aside,
      h.apart⟩
  | workerExit => exact workerExit_sure h hstep
  | destroy t =>
    simp only [step, Option.ite_none_right_eq_some, Option.some.injEq] at hstep
    obtain ⟨hmay, rfl⟩ := hstep
    exact destroyBegin_sure h hinv hmay
  | destroyNext word code raw => exact h.onward (destroyNext_onward hstep)
  | resume =>
    simp only [step] at hstep
    split at hstep
    · obtain rfl := Option.some.inj hstep
      exact h.onward (.system rfl rfl (.inl rfl))
    · cases hstep
  | bridge e =>
    simp only [step, Option.ite_none_right_eq_some, Option.map_eq_some_iff] at hstep
    obtain ⟨-, bridge, -, rfl⟩ := hstep
    exact h.onward (.system rfl rfl (.inr rfl))

theorem initial_sure (cfg : Config) : Sure cfg initial :=
  ⟨fun _ hexited => absurd rfl hexited, rfl, by simp [initial, DestroyPc.joins]⟩

end Sure

section Guest

variable {cfg : Config} {s s' : State} {t : ThreadId}

/-- The thread of the worker is in the bridge only during its callback, or once it is no worker any
more. -/
def Guest (s : State) : Prop :=
  s.bridge.pc s.workerThread ≠ .idle →
    System.inCallback s.system.worker = true ∨ s.system.worker = .exited

/-- What Destroy does in the bridge. -/
theorem destroyNext_bridge {word : MutexBridge.Addr} {code : MutexBridge.Errno} {raw : Nat}
    (hstep : s.destroyNext cfg word code raw = some s') :
    s'.bridge = s.bridge ∨ ∃ u b, b.thread = some u ∧
      MutexBridge.step cfg.platform s.bridge b = some s'.bridge ∧
      (s.destroy.joins = some u ∨ s.destroy = .takingBack u) := by
  have henter : ∀ {u op m pc}, s.enterBridge cfg u op m pc = some s' → s.destroy.joins = some u →
      ∃ u b, b.thread = some u ∧ MutexBridge.step cfg.platform s.bridge b = some s'.bridge ∧
        (s.destroy.joins = some u ∨ s.destroy = .takingBack u) := by
    intro u op m pc henter hjoins
    obtain ⟨bridge, hbridge, rfl⟩ := Option.map_eq_some_iff.mp henter
    exact ⟨u, .call u op m, rfl, hbridge, .inl hjoins⟩
  have hin : ∀ {u} {next : Int → DestroyPc}, s.inBridge cfg u code raw next = some s' →
      s.destroy.joins = some u ∨ s.destroy = .takingBack u →
      ∃ u b, b.thread = some u ∧ MutexBridge.step cfg.platform s.bridge b = some s'.bridge ∧
        (s.destroy.joins = some u ∨ s.destroy = .takingBack u) := by
    intro u next hin hat
    simp only [State.inBridge] at hin
    split at hin <;> obtain ⟨bridge, hbridge, rfl⟩ := Option.map_eq_some_iff.mp hin
    · exact ⟨u, .resume u, rfl, hbridge, hat⟩
    · exact ⟨u, .resume u, rfl, hbridge, hat⟩
    · exact ⟨u, .act u code raw, rfl, hbridge, hat⟩
  cases hpc : s.destroy with
  | idle | returned | past =>
    rw [State.destroyNext, hpc] at hstep
    cases hstep
  | locked u deferred device inFlight callback context =>
    simp only [State.destroyNext, hpc] at hstep
    split at hstep
    · rename_i hlend
      split at hstep
      · rw [← hpc]
        refine .inr (henter hstep ?_)
        simp only [Bool.and_eq_true, Bool.not_eq_true'] at hlend
        rw [hpc, hlend.1]
        rfl
      · obtain rfl := Option.some.inj hstep
        exact .inl rfl
    · obtain rfl := Option.some.inj hstep
      exact .inl rfl
  | lending u device =>
    simp only [State.destroyNext, hpc] at hstep
    rw [← hpc]
    exact .inr (hin hstep (.inl (by rw [hpc]; rfl)))
  | takingBack u =>
    simp only [State.destroyNext, hpc] at hstep
    rw [← hpc]
    exact .inr (hin hstep (.inr hpc))
  | closing u deferred lent device =>
    simp only [State.destroyNext, hpc] at hstep
    split at hstep
    · simp only [Option.ite_none_right_eq_some, Option.some.injEq] at hstep
      obtain ⟨-, rfl⟩ := hstep
      exact .inl rfl
    · obtain rfl := Option.some.inj hstep
      exact .inl rfl
  | joining u lent =>
    simp only [State.destroyNext, hpc] at hstep
    split at hstep
    · cases hstep
    · split at hstep
      · rw [← hpc]
        exact .inr (henter hstep (by rw [hpc]; rfl))
      · obtain rfl := Option.some.inj hstep
        exact .inl rfl
  | detaching u | marking u | releasing u =>
    simp only [State.destroyNext, hpc] at hstep
    obtain rfl := Option.some.inj hstep
    exact .inl rfl

/-- Realize spawns a thread, and nothing else happens in the bridge. -/
theorem openNext_bridge {succeeds : Bool} {worker : ThreadId}
    (hstep : s.openNext cfg succeeds worker = some s') :
    s'.bridge = s.bridge ∧ s'.workerThread = s.workerThread ∧ s'.system.worker = s.system.worker ∨
      s'.workerThread = worker ∧
        MutexBridge.step cfg.platform s.bridge (.spawn worker) = some s'.bridge := by
  simp only [State.openNext] at hstep
  split at hstep
  case h_1 => cases hstep
  case h_4 =>
    split at hstep
    · obtain ⟨bridge, hbridge, rfl⟩ := Option.map_eq_some_iff.mp hstep
      exact .inr ⟨rfl, hbridge⟩
    · obtain rfl := Option.some.inj hstep
      exact .inl ⟨rfl, rfl, rfl⟩
  case h_7 =>
    simp only [Option.ite_none_right_eq_some, Option.some.injEq] at hstep
    obtain ⟨-, rfl⟩ := hstep
    exact .inl ⟨rfl, rfl, rfl⟩
  case h_6 | h_8 =>
    obtain rfl := Option.some.inj hstep
    exact .inl ⟨rfl, rfl, rfl⟩
  all_goals
    split at hstep <;> obtain rfl := Option.some.inj hstep <;> exact .inl ⟨rfl, rfl, rfl⟩

/-- A step makes one event of the bridge at most. -/
theorem step_bridge {e : Event} (hstep : step cfg s e = some s') :
    s'.bridge = s.bridge ∨ ∃ b, MutexBridge.step cfg.platform s.bridge b = some s'.bridge := by
  cases e with
  | registerCallback | realize | audioEnter | audioLeave =>
    simp only [step, Option.ite_none_right_eq_some, Option.some.injEq] at hstep
    obtain ⟨-, rfl⟩ := hstep
    exact .inl rfl
  | openNext succeeds worker =>
    exact (openNext_bridge hstep).imp (fun h => h.1) fun h => ⟨.spawn worker, h.2⟩
  | player | audioSection =>
    simp only [step, Option.ite_none_right_eq_some, Option.map_eq_some_iff] at hstep
    obtain ⟨-, system, -, rfl⟩ := hstep
    exact .inl rfl
  | workerExit => exact .inl (workerExit_same hstep).1
  | destroy t =>
    simp only [step, Option.ite_none_right_eq_some, Option.some.injEq] at hstep
    obtain ⟨-, rfl⟩ := hstep
    unfold State.destroyBegin
    split <;> exact .inl rfl
  | destroyNext word code raw =>
    rcases destroyNext_bridge hstep with hsame | ⟨u, b, -, hbridge, -⟩
    · exact .inl hsame
    · exact .inr ⟨b, hbridge⟩
  | resume =>
    simp only [step] at hstep
    split at hstep
    · obtain rfl := Option.some.inj hstep
      exact .inl rfl
    · cases hstep
  | bridge b =>
    simp only [step, Option.ite_none_right_eq_some, Option.map_eq_some_iff] at hstep
    obtain ⟨-, bridge, hbridge, rfl⟩ := hstep
    exact .inr ⟨b, hbridge⟩

/-- A callback that does not return goes on, whatever the player does. -/
theorem step_worker {cfg : AudioPlayer.Config} {s s' : System} {T : State} {e : AudioPlayer.Event}
    (hallows : T.allows e = true) (hreturn : e ≠ .workerReturn)
    (h : System.inCallback s.worker = true ∨ s.worker = .exited)
    (hstep : s.step cfg e = some s') : s'.worker = s.worker := by
  have hnot : ∀ {pc : WorkerPc}, s.worker = pc → System.inCallback pc = false → pc ≠ .exited →
      False := by
    rintro pc rfl hin hexited
    rcases h with hin' | hexited'
    · cases hin.symm.trans hin'
    · exact hexited hexited'
  cases e with
  | audio | destroyBegin | destroyClose | destroyEnd | workerExit => cases hallows
  | workerReturn => exact absurd rfl hreturn
  | enqueueBegin u data => exact CallMove.worker_eq (enqueueBegin_move hstep)
  | enqueuePrepare u fresh block =>
    have hmove : CallMove cfg s s' (.enqueuePrepare u fresh block) := enqueuePrepare_move hstep
    exact hmove.worker_eq
  | enqueueEnd u =>
    have hmove : CallMove cfg s s' (.enqueueEnd u) := enqueueEnd_move hstep
    exact hmove.worker_eq
  | setPlayState u state | registerCallback u callback context =>
    simp only [System.step, Option.ite_none_right_eq_some, Option.some.injEq] at hstep
    obtain ⟨-, rfl⟩ := hstep
    rfl
  | clear u =>
    simp only [System.step, Option.ite_none_right_eq_some, Option.map_eq_some_iff] at hstep
    obtain ⟨-, r, -, rfl⟩ := hstep
    rfl
  | workerStart | workerLock | workerWake | workerReport =>
    simp only [System.step, Option.ite_none_right_eq_some, Option.some.injEq] at hstep
    exact (hnot hstep.1 rfl (by simp)).elim
  | workerInvoke =>
    simp only [System.step] at hstep
    split at hstep
    · rename_i f c n hw
      exact (hnot hw rfl (by simp)).elim
    · cases hstep

theorem Guest.same (h : Guest s) (hbridge : s'.bridge = s.bridge)
    (hthread : s'.workerThread = s.workerThread)
    (hworker : s'.system.worker = s.system.worker) : Guest s' := by
  unfold Guest
  rw [hbridge, hthread, hworker]
  exact h

theorem openNext_guest (h : Guest s) (hagreed : MutexBridge.Agreed cfg.platform s.bridge)
    {succeeds : Bool} {worker : ThreadId} (hstep : s.openNext cfg succeeds worker = some s') :
    Guest s' := by
  rcases openNext_bridge hstep with ⟨hbridge, hthread, hworker⟩ | ⟨hthread, hspawn⟩
  · exact h.same hbridge hthread hworker
  · intro hbusy
    simp only [MutexBridge.step, Option.ite_none_right_eq_some, Option.some.injEq] at hspawn
    obtain ⟨⟨hdead, -⟩, hbridge⟩ := hspawn
    rw [hthread, ← hbridge] at hbusy
    exact absurd (hagreed.idle worker hdead) hbusy

theorem destroyNext_guest (h : Guest s) (hinv : Inv cfg s) (hsure : Sure cfg s)
    {word : MutexBridge.Addr} {code : MutexBridge.Errno} {raw : Nat}
    (hstep : s.destroyNext cfg word code raw = some s') : Guest s' := by
  have honward := destroyNext_onward hstep
  rcases destroyNext_bridge hstep with hbridge | ⟨u, b, hthread, hbridge, hat⟩
  · exact h.same hbridge honward.workerThread honward.worker
  · by_cases hu : u = s.workerThread
    · -- only at handoff_end, when the worker has ended
      subst hu
      have hpc := hat.resolve_left hsure.apart
      have hflow := hinv.flow
      rw [hpc] at hflow
      have hended : Ended s := hflow
      exact fun _ => .inr (honward.worker.trans hended.worker)
    · have hother : b.thread ≠ some s.workerThread := by
        rw [hthread]
        simpa using hu
      obtain ⟨hpc, -⟩ := MutexBridge.step_beside hinv.agreed hother hbridge
      intro hbusy
      rw [honward.workerThread, hpc] at hbusy
      rw [honward.worker]
      exact h hbusy

theorem bridge_guest (h : Guest s) (hagreed : MutexBridge.Agreed cfg.platform s.bridge)
    {b : MutexBridge.Event} (hstep : step cfg s (.bridge b) = some s') : Guest s' := by
  simp only [step, Option.ite_none_right_eq_some, Option.map_eq_some_iff] at hstep
  obtain ⟨⟨-, -, -, henter⟩, bridge, hbridge, rfl⟩ := hstep
  intro hbusy
  rcases MutexBridge.step_busy hagreed hbridge hbusy with hbefore | ⟨op, m, rfl⟩
  · exact h hbefore
  · simp only [entering, Option.all_some, State.mayEnter, Bool.and_eq_true, Bool.or_eq_true,
      decide_eq_true_eq] at henter
    exact henter.2.imp (fun hin => hin.resolve_left fun hne => hne rfl) id

theorem step_guest (h : Guest s) (hinv : Inv cfg s) (hsure : Sure cfg s) {e : Event}
    (hstep : step cfg s e = some s') : Guest s' := by
  cases e with
  | registerCallback | realize | audioEnter | audioLeave =>
    simp only [step, Option.ite_none_right_eq_some, Option.some.injEq] at hstep
    obtain ⟨-, rfl⟩ := hstep
    exact h
  | openNext succeeds worker => exact openNext_guest h hinv.agreed hstep
  | player e =>
    simp only [step, Option.ite_none_right_eq_some, Option.map_eq_some_iff] at hstep
    obtain ⟨hallows, system, hsystem, rfl⟩ := hstep
    intro hbusy
    have hreturn : e ≠ .workerReturn := by
      rintro rfl
      simp only [State.allows, Bool.and_eq_true, decide_eq_true_eq] at hallows
      exact hbusy hallows.2
    have hworker := step_worker hallows hreturn (h hbusy) hsystem
    rw [hworker]
    exact h hbusy
  | audioSection length =>
    simp only [step, Option.ite_none_right_eq_some, Option.map_eq_some_iff] at hstep
    obtain ⟨-, system, hsystem, rfl⟩ := hstep
    have hworker : system.worker = s.system.worker := by
      simp only [System.audio, Option.ite_none_right_eq_some, Option.map_eq_some_iff] at hsystem
      obtain ⟨-, r, -, rfl⟩ := hsystem
      rfl
    exact h.same rfl rfl hworker
  | workerExit =>
    obtain ⟨hbridge, -, hthread⟩ := workerExit_same hstep
    simp only [step, State.workerExit, Option.ite_none_right_eq_some] at hstep
    intro hbusy
    rw [hbridge, hthread] at hbusy
    rcases h hbusy with hin | hexited
    · rw [hstep.1] at hin
      cases hin
    · rw [hstep.1] at hexited
      cases hexited
  | destroy t =>
    simp only [step, Option.ite_none_right_eq_some, Option.some.injEq] at hstep
    obtain ⟨-, rfl⟩ := hstep
    unfold State.destroyBegin
    split <;> exact h
  | destroyNext word code raw => exact destroyNext_guest h hinv hsure hstep
  | resume =>
    simp only [step] at hstep
    split at hstep
    · obtain rfl := Option.some.inj hstep
      exact h
    · cases hstep
  | bridge b => exact bridge_guest h hinv.agreed hstep

end Guest

section Circle

variable {cfg : Config} {s s' : State} {t u v w : ThreadId}

/-- Thread `u` waits for `v`: for a mutex that `v` holds, or in SDL_WaitThread for the worker. -/
def Awaits (s : State) (u v : ThreadId) : Prop :=
  MutexBridge.AwaitsMutex s.bridge u v ∨
    (∃ lent, s.destroy = .joining u lent) ∧ s.callbackThread = true ∧
      s.system.worker ≠ .exited ∧ v = s.workerThread

/-- The thread of Destroy waits, over any number of threads, for itself. -/
def CircularWait (s : State) : Prop :=
  ∃ t, s.destroy.thread = some t ∧ Relation.TransGen (Awaits s) t t

theorem not_awaits_of_idle (hidle : s.bridge.pc u = .idle) :
    ¬ MutexBridge.AwaitsMutex s.bridge u v := by
  rintro ⟨c, o, hwants, -⟩
  rw [hidle] at hwants
  cases hwants

/-- Destroy waits in SDL_WaitThread or at the host lock of handoff_end. -/
theorem Awaits.destroy {view₀ : MutexBridge.Addr → Option MutexBridge.Object}
    (h : Awaits s t v) (hb : Borrowing cfg t view₀ s) (hthread : s.destroy.thread = some t) :
    (∃ lent, s.destroy = .joining t lent) ∧ s.callbackThread = true ∧
        s.system.worker ≠ .exited ∨
      s.destroy = .takingBack t ∧ MutexBridge.AwaitsMutex s.bridge t v := by
  rcases h with hmutex | hjoin
  · have hholding := hb.holding
    cases hpc : s.destroy with
    | idle | past =>
      rw [hpc] at hthread
      cases hthread
    | takingBack u =>
      rw [hpc] at hthread
      obtain rfl := Option.some.inj hthread
      exact .inr ⟨rfl, hmutex⟩
    | lending u device =>
      rw [hpc] at hholding
      obtain ⟨-, m, hlending⟩ := hholding
      obtain ⟨c, o, hwants, -⟩ := hmutex
      have hat := hlending.here
      cases hin : s.bridge.pc t with
      | hostLock | waiting =>
        rw [hin] at hat
        exact hat.elim
      | _ =>
        rw [hin] at hwants
        cases hwants
    | _ =>
      rw [hpc] at hholding
      exact absurd hmutex (not_awaits_of_idle hholding.2.1)
  · exact .inl ⟨hjoin.1, hjoin.2.1, hjoin.2.2.1⟩

/-- What no step changes while Destroy waits in a circle. -/
structure Still (cfg : Config) (t : ThreadId) (s s' : State) : Prop where
  destroy : s'.destroy = s.destroy
  workerThread : s'.workerThread = s.workerThread
  thread : s'.callbackThread = s.callbackThread
  worker : s.system.worker ≠ .exited → s'.system.worker ≠ .exited
  bridge : s'.bridge = s.bridge ∨ ∃ b, b.thread ≠ some t ∧
    MutexBridge.step cfg.platform s.bridge b = some s'.bridge

theorem Still.of_bridge (hbridge : s'.bridge = s.bridge) (hdestroy : s'.destroy = s.destroy)
    (hworkerThread : s'.workerThread = s.workerThread)
    (hthread : s'.callbackThread = s.callbackThread)
    (hworker : s.system.worker ≠ .exited → s'.system.worker ≠ .exited) : Still cfg t s s' :=
  ⟨hdestroy, hworkerThread, hthread, hworker, .inl hbridge⟩

/-- A wait for a thread that waits goes on. -/
theorem Still.awaits (h : Still cfg t s s') (hagreed : MutexBridge.Agreed cfg.platform s.bridge)
    (hthread : s.destroy.thread = some t) (huv : Awaits s u v) (hvw : Awaits s v w) :
    Awaits s' u v := by
  rcases huv with hmutex | ⟨⟨lent, hpc⟩, hcallback, hworker, rfl⟩
  · left
    rcases h.bridge with hsame | ⟨b, hother, hbridge⟩
    · rw [hsame]
      exact hmutex
    · refine hmutex.keep hagreed ?_ hbridge
      rcases hvw with hmutex' | ⟨⟨lent, hpc⟩, -⟩
      · exact hmutex'.no_event hagreed hbridge
      · rw [hpc] at hthread
        obtain rfl := Option.some.inj hthread
        exact hother
  · exact .inr ⟨⟨lent, h.destroy.trans hpc⟩, h.thread.trans hcallback, h.worker hworker,
      h.workerThread.symm⟩

/-- Destroy does not go on by itself. -/
theorem destroyNext_blocked (hwaits : (∃ lent, s.destroy = .joining t lent) ∧
      s.callbackThread = true ∧ s.system.worker ≠ .exited ∨
    s.destroy = .takingBack t ∧ MutexBridge.AwaitsMutex s.bridge t v)
    (word : MutexBridge.Addr) (code : MutexBridge.Errno) (raw : Nat) :
    s.destroyNext cfg word code raw = none := by
  rcases hwaits with ⟨⟨lent, hpc⟩, hcallback, hworker⟩ | ⟨hpc, hmutex⟩
  · simp only [State.destroyNext, hpc]
    exact if_pos ⟨hcallback, hworker⟩
  · have hact : MutexBridge.step cfg.platform s.bridge (.act t code raw) = none := by
      simp only [MutexBridge.step, hmutex.blocked code raw, ite_self]
    obtain ⟨c, o, hwants, -⟩ := hmutex
    simp only [State.destroyNext, hpc, State.inBridge]
    split
    · rename_i hdone
      rw [hdone] at hwants
      cases hwants
    · rename_i hdone
      rw [hdone] at hwants
      cases hwants
    · rw [hact]
      rfl

/-- The worker is in its callback, or Destroy no longer waits for it. -/
theorem circle_worker {view₀ : MutexBridge.Addr → Option MutexBridge.Object} (hinv : Inv cfg s)
    (hsure : Sure cfg s) (hguest : Guest s) (hb : Borrowing cfg t view₀ s)
    (hthread : s.destroy.thread = some t) (hcircle : Relation.TransGen (Awaits s) t t) :
    System.inCallback s.system.worker = true ∨ s.system.worker = .exited := by
  obtain ⟨v, hfirst, hrest⟩ := Relation.TransGen.head'_iff.mp hcircle
  rcases hfirst.destroy hb hthread with ⟨⟨lent, hpc⟩, -⟩ | ⟨hpc, -⟩
  · have hapart : t ≠ s.workerThread := by
      have hapart := hsure.apart
      rw [hpc] at hapart
      exact fun heq => hapart (congrArg some heq)
    have hidle : s.bridge.pc t = .idle := by
      have hholding := hb.holding
      rw [hpc] at hholding
      exact hholding.2.1
    obtain rfl : v = s.workerThread :=
      (hfirst.resolve_left (not_awaits_of_idle hidle)).2.2.2
    obtain ⟨w, hnext⟩ : ∃ w, Awaits s s.workerThread w := by
      rcases Relation.ReflTransGen.cases_head hrest with heq | ⟨w, hnext, -⟩
      · exact absurd heq.symm hapart
      · exact ⟨w, hnext⟩
    refine hguest fun hworker => ?_
    rcases hnext with hmutex | ⟨⟨lent', hpc'⟩, -⟩
    · exact not_awaits_of_idle hworker hmutex
    · rw [hpc] at hpc'
      cases hpc'
      exact hapart rfl
  · have hflow := hinv.flow
    rw [hpc] at hflow
    have hended : Ended s := hflow
    exact .inr hended.worker

theorem step_still {view₀ : MutexBridge.Addr → Option MutexBridge.Object} (hinv : Inv cfg s)
    (hsure : Sure cfg s) (hguest : Guest s) (hb : Borrowing cfg t view₀ s)
    (hthread : s.destroy.thread = some t) (hcircle : Relation.TransGen (Awaits s) t t) {e : Event}
    (hstep : step cfg s e = some s') : Still cfg t s s' := by
  have hbegun := hb.begun
  obtain ⟨v, hfirst⟩ := chain_first hcircle
  have hwaits := hfirst.destroy hb hthread
  cases e with
  | registerCallback | realize =>
    simp only [step, Option.ite_none_right_eq_some] at hstep
    first
      | exact absurd hstep.1.2 hbegun
      | exact absurd hstep.1.1 hbegun
  | openNext succeeds worker =>
    have hopening : s.opening ≠ .none := by
      intro hnone
      simp only [step, State.openNext, hnone] at hstep
      cases hstep
    exact absurd (hinv.idle_of_opening hopening) hbegun
  | player e =>
    simp only [step, Option.ite_none_right_eq_some, Option.map_eq_some_iff] at hstep
    obtain ⟨hallows, system, hsystem, rfl⟩ := hstep
    have hloops := (step_calm hallows hsystem).worker
    exact .of_bridge rfl rfl rfl rfl fun hworker hexited => hworker (hloops.exited.mp hexited)
  | audioEnter | audioLeave =>
    simp only [step, Option.ite_none_right_eq_some, Option.some.injEq] at hstep
    obtain ⟨-, rfl⟩ := hstep
    exact .of_bridge rfl rfl rfl rfl id
  | audioSection length =>
    simp only [step, Option.ite_none_right_eq_some, Option.map_eq_some_iff] at hstep
    obtain ⟨-, system, hsystem, rfl⟩ := hstep
    have hloops := (audio_calm hsystem).worker
    exact .of_bridge rfl rfl rfl rfl fun hworker hexited => hworker (hloops.exited.mp hexited)
  | workerExit =>
    simp only [step, State.workerExit, Option.ite_none_right_eq_some] at hstep
    rcases circle_worker hinv hsure hguest hb hthread hcircle with hin | hexited
    · rw [hstep.1] at hin
      cases hin
    · rw [hstep.1] at hexited
      cases hexited
  | destroy u =>
    simp only [step, Option.ite_none_right_eq_some] at hstep
    exact absurd hstep.1.1 hbegun
  | destroyNext word code raw =>
    simp only [step, destroyNext_blocked hwaits word code raw] at hstep
    cases hstep
  | resume =>
    simp only [step] at hstep
    split at hstep
    · rename_i hpc
      rcases hwaits with ⟨⟨lent, hjoining⟩, -⟩ | ⟨htaking, -⟩
      · cases hpc.symm.trans hjoining
      · cases hpc.symm.trans htaking
    · cases hstep
  | bridge b =>
    simp only [step, Option.ite_none_right_eq_some, Option.map_eq_some_iff] at hstep
    obtain ⟨⟨hother, -⟩, bridge, hbridge, rfl⟩ := hstep
    refine ⟨rfl, rfl, rfl, id, .inr ⟨b, ?_, hbridge⟩⟩
    rw [hthread] at hother
    rcases hother with hnone | hne
    · rw [hnone]
      simp
    · exact hne

/-- The thread in the circle is that of Destroy, which waits in one of two places. -/
theorem CircularWait.destroy {view₀ : MutexBridge.Addr → Option MutexBridge.Object}
    (h : CircularWait s) (hb : Borrowing cfg u view₀ s) :
    s.destroy.thread = some u ∧ Relation.TransGen (Awaits s) u u ∧
      ((∃ lent, s.destroy = .joining u lent) ∨ s.destroy = .takingBack u) := by
  obtain ⟨t, hthread, hcircle⟩ := h
  obtain rfl : t = u := by
    rcases hb.holding.thread with hnone | hsome
    · cases hnone.symm.trans hthread
    · exact (Option.some.inj (hsome.symm.trans hthread)).symm
  obtain ⟨v, hfirst⟩ := chain_first hcircle
  refine ⟨hthread, hcircle, ?_⟩
  exact (hfirst.destroy hb hthread).imp (fun hjoin => hjoin.1) fun htake => htake.1

/-- A circle is for good. -/
theorem CircularWait.keep {view₀ : MutexBridge.Addr → Option MutexBridge.Object}
    (h : CircularWait s) (hinv : Inv cfg s) (hsure : Sure cfg s) (hguest : Guest s)
    (hb : Borrowing cfg u view₀ s) {e : Event} (hstep : step cfg s e = some s') :
    CircularWait s' := by
  obtain ⟨hthread, hcircle, -⟩ := h.destroy hb
  have hstill := step_still hinv hsure hguest hb hthread hcircle hstep
  obtain ⟨v, hfirst⟩ := chain_first hcircle
  refine ⟨u, (congrArg DestroyPc.thread hstill.destroy).trans hthread, ?_⟩
  exact chain_keep (fun _ _ _ huv hvw => hstill.awaits hinv.agreed hthread huv hvw) hfirst hcircle

/-- Destroy has not released the player, and the worker will not. -/
theorem CircularWait.unreleased {view₀ : MutexBridge.Addr → Option MutexBridge.Object}
    (h : CircularWait s) (hinv : Inv cfg s) (hb : Borrowing cfg u view₀ s) :
    s.playersReleased = 0 := by
  by_contra hreleased
  obtain ⟨-, -, hpc⟩ := h.destroy hb
  rcases (hinv.gone (Nat.pos_of_ne_zero hreleased)).destroy with ⟨t, deferred, hover⟩ | ⟨d, hover⟩
  · rcases hpc with ⟨lent, hpc⟩ | hpc <;> cases hpc.symm.trans hover
  · rcases hpc with ⟨lent, hpc⟩ | hpc <;> cases hpc.symm.trans hover

end Circle

end Asm2Runtime.AudioTeardown
