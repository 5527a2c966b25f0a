import Asm2Runtime.AudioRelease

/-!
# Destroy gives guest mutexes back

While the thread of Destroy is in the bridge or waits for the worker, other threads use guest
mutexes as they like. What the thread holds follows the steps of Destroy alone.
-/

namespace Asm2Runtime.AudioTeardown

open AudioPlayer Transition
open MutexBridge (Tid HandoffId Object Aside Quiet Unused Lending Returning SameBut Given HeldOnce
  Kept Agreed)

section Holding

/-- One mutex is with the handoff. -/
def Away (cfg : Config) (t : ThreadId) (view₀ : MutexBridge.Addr → Option Object)
    (b : MutexBridge.State) : Prop :=
  ∃ m, SameBut m view₀ (b.view t) ∧ (b.object m).isSome = true ∧
    Given (cfg.platform.mutexCurrentOwner t) view₀ (b.view t) (b.handoff cfg.handoff) m

/-- Between the two calls of the bridge. -/
def Held (cfg : Config) (t : ThreadId) (view₀ : MutexBridge.Addr → Option Object)
    (b : MutexBridge.State) : Bool → Prop
  | true => Away cfg t view₀ b
  | false => Kept (cfg.platform.mutexCurrentOwner t) view₀ (b.view t)

/-- What thread `t`, which saw `view₀` when it called Destroy, holds now. -/
def Holding (cfg : Config) (t : ThreadId) (view₀ : MutexBridge.Addr → Option Object)
    (b : MutexBridge.State) : DestroyPc → Prop
  | .idle => False
  | .locked u _ _ _ _ _ => u = t ∧ b.pc t = .idle ∧ b.view t = view₀
  | .lending u _ => u = t ∧ ∃ m, Lending cfg.platform view₀ b t cfg.handoff m
  | .closing u deferred lent _ =>
    u = t ∧ b.pc t = .idle ∧ (deferred = true → lent = false) ∧ Held cfg t view₀ b lent
  | .joining u lent => u = t ∧ b.pc t = .idle ∧ Held cfg t view₀ b lent
  | .takingBack u => u = t ∧ ∃ m, Returning cfg.platform view₀ b t cfg.handoff m
  | .detaching u | .marking u | .releasing u | .returned u _ =>
    u = t ∧ b.pc t = .idle ∧ Kept (cfg.platform.mutexCurrentOwner t) view₀ (b.view t)
  | .past _ => True

/-- Thread `t` is in Destroy, or has been. -/
structure Borrowing (cfg : Config) (t : ThreadId) (view₀ : MutexBridge.Addr → Option Object)
    (s : State) : Prop where
  live : s.destroy.thread = some t → t ∈ s.bridge.live
  quiet : s.destroy.thread = some t → Quiet s.bridge t cfg.handoff
  holding : Holding cfg t view₀ s.bridge s.destroy

variable {cfg : Config} {s s' : State} {t : ThreadId} {view₀ : MutexBridge.Addr → Option Object}
  {b b' : MutexBridge.State}

theorem Away.aside (h : Away cfg t view₀ b) (haside : Aside b b' t cfg.handoff) :
    Away cfg t view₀ b' := by
  obtain ⟨m, hsame, hfound, hgiven⟩ := h
  refine ⟨m, by rw [haside.view]; exact hsame, haside.objects m hfound, ?_⟩
  rw [haside.view, haside.handoff]
  exact hgiven

theorem Held.aside {lent : Bool} (h : Held cfg t view₀ b lent)
    (haside : Aside b b' t cfg.handoff) : Held cfg t view₀ b' lent := by
  cases lent with
  | true => exact Away.aside h haside
  | false =>
    rw [Held, haside.view]
    exact h

theorem Holding.aside {pc : DestroyPc} (h : Holding cfg t view₀ b pc)
    (haside : Aside b b' t cfg.handoff) : Holding cfg t view₀ b' pc := by
  cases pc with
  | idle => exact h
  | past => trivial
  | locked => exact ⟨h.1, haside.pc.trans h.2.1, haside.view.trans h.2.2⟩
  | lending =>
    obtain ⟨hu, m, hm⟩ := h
    exact ⟨hu, m, hm.aside haside⟩
  | takingBack =>
    obtain ⟨hu, m, hm⟩ := h
    exact ⟨hu, m, hm.aside haside⟩
  | closing => exact ⟨h.1, haside.pc.trans h.2.1, h.2.2.1, h.2.2.2.aside haside⟩
  | joining => exact ⟨h.1, haside.pc.trans h.2.1, h.2.2.aside haside⟩
  | detaching | marking | releasing | returned =>
    refine ⟨h.1, haside.pc.trans h.2.1, ?_⟩
    rw [haside.view]
    exact h.2.2

/-- Only the thread of Destroy is named in it. -/
theorem Holding.thread {pc : DestroyPc} (h : Holding cfg t view₀ b pc) :
    pc.thread = none ∨ pc.thread = some t := by
  cases pc with
  | idle | past => exact .inl rfl
  | _ => exact .inr (congrArg some h.1)

theorem bridge_borrowing (h : Borrowing cfg t view₀ s) (hagreed : Agreed cfg.platform s.bridge)
    {e : MutexBridge.Event} (hstep : step cfg s (.bridge e) = some s') :
    Borrowing cfg t view₀ s' := by
  simp only [step, Option.ite_none_right_eq_some, Option.map_eq_some_iff] at hstep
  obtain ⟨⟨hthread, huses, -⟩, bridge, hbridge, rfl⟩ := hstep
  rcases h.holding.thread with hnone | hsome
  · have hover : ∃ d, s.destroy = .past d := by
      have hholding := h.holding
      cases hpc : s.destroy with
      | past d => exact ⟨d, rfl⟩
      | idle =>
        rw [hpc] at hholding
        exact hholding.elim
      | _ =>
        rw [hpc] at hnone
        cases hnone
    obtain ⟨d, hpc⟩ := hover
    refine ⟨?_, ?_, ?_⟩
    · intro hsome
      cases hnone.symm.trans hsome
    · intro hsome
      cases hnone.symm.trans hsome
    · change Holding cfg t view₀ bridge s.destroy
      rw [hpc]
      trivial
  · have hother : e.thread ≠ some t := by
      rw [hsome] at hthread
      rcases hthread with hnone | hne
      · rw [hnone]
        simp
      · exact hne
    have haside := MutexBridge.step_aside hagreed hother huses (h.quiet hsome) hbridge
    exact ⟨fun _ => haside.live (h.live hsome), fun _ => haside.quiet, h.holding.aside haside⟩

theorem enterBridge_borrowing (h : Borrowing cfg t view₀ s) (hthread : s.destroy.thread = some t)
    {op : MutexBridge.Op} {m : MutexBridge.Addr} {pc : DestroyPc}
    (hholding : Holding cfg t view₀ (MutexBridge.start cfg.platform s.bridge t op m) pc)
    (hstep : s.enterBridge cfg t op m pc = some s') : Borrowing cfg t view₀ s' := by
  obtain ⟨bridge, hbridge, rfl⟩ := Option.map_eq_some_iff.mp hstep
  simp only [MutexBridge.step, Option.ite_none_right_eq_some, Option.some.injEq] at hbridge
  obtain ⟨⟨hlive, -⟩, rfl⟩ := hbridge
  refine ⟨fun _ => ?_, fun _ => MutexBridge.start_quiet (h.quiet hthread), hholding⟩
  change t ∈ (MutexBridge.start cfg.platform s.bridge t op m).live
  rw [MutexBridge.start_live]
  exact hlive

/-- The call of the bridge goes on, or Destroy goes on with its result. -/
theorem inBridge_borrowing (h : Borrowing cfg t view₀ s) (hagreed : Agreed cfg.platform s.bridge)
    (hthread : s.destroy.thread = some t) {code : MutexBridge.Errno} {raw : Nat}
    {next : Int → DestroyPc}
    (hact : ∀ bridge, MutexBridge.act cfg.platform s.bridge t code raw = some bridge →
      Holding cfg t view₀ bridge s.destroy)
    (hdone : ∀ c result, s.bridge.pc t = .returned c result ∨ s.bridge.pc t = .notFound c result →
      Holding cfg t view₀ (s.bridge.goto t .idle) (next result))
    (hstep : s.inBridge cfg t code raw next = some s') : Borrowing cfg t view₀ s' := by
  have hlive := h.live hthread
  have hidle : Quiet (s.bridge.goto t .idle) t cfg.handoff :=
    (h.quiet hthread).goto fun c hc => by cases hc
  simp only [State.inBridge] at hstep
  split at hstep
  · rename_i c result hpc
    obtain ⟨bridge, hbridge, rfl⟩ := Option.map_eq_some_iff.mp hstep
    simp only [MutexBridge.step, hpc, if_pos hlive] at hbridge
    obtain rfl := Option.some.inj hbridge
    exact ⟨fun _ => hlive, fun _ => hidle, hdone c result (.inl hpc)⟩
  · rename_i c result hpc
    obtain ⟨bridge, hbridge, rfl⟩ := Option.map_eq_some_iff.mp hstep
    simp only [MutexBridge.step, hpc, if_pos hlive] at hbridge
    obtain rfl := Option.some.inj hbridge
    exact ⟨fun _ => hlive, fun _ => hidle, hdone c result (.inr hpc)⟩
  · obtain ⟨bridge, hbridge, rfl⟩ := Option.map_eq_some_iff.mp hstep
    simp only [MutexBridge.step, if_pos hlive] at hbridge
    have hacted := MutexBridge.act_acted hagreed hlive hbridge
    refine ⟨fun _ => ?_, fun _ => hacted.quiet (h.quiet hthread), hact bridge hbridge⟩
    change t ∈ bridge.live
    rw [hacted.live]
    exact hlive

theorem lending_borrowing (h : Borrowing cfg t view₀ s) (hagreed : Agreed cfg.platform s.bridge)
    {u : ThreadId} {device : Bool} (hpc : s.destroy = .lending u device)
    {word : MutexBridge.Addr} {code : MutexBridge.Errno} {raw : Nat}
    (hstep : s.destroyNext cfg word code raw = some s') : Borrowing cfg t view₀ s' := by
  have hholding := h.holding
  rw [hpc] at hholding
  obtain ⟨rfl, m, hlending⟩ := hholding
  have hthread : s.destroy.thread = some u := by rw [hpc]; rfl
  simp only [State.destroyNext, hpc] at hstep
  refine inBridge_borrowing h hagreed hthread ?_ ?_ hstep
  · intro bridge hact
    rw [hpc]
    exact ⟨rfl, m, MutexBridge.lending_act hagreed (h.live hthread) hlending hact⟩
  · intro c result hover
    refine ⟨rfl, MutexBridge.pc_goto_self s.bridge u .idle, (fun hd => by cases hd), ?_⟩
    have hat := hlending.here
    have hcases : result = 1 ∧ Away cfg u view₀ s.bridge ∨
        result ≠ 1 ∧ Kept (cfg.platform.mutexCurrentOwner u) view₀ (s.bridge.view u) := by
      rcases hover with hret | hret
      · have hfound := hlending.found (by rw [hret]; rfl)
        rw [hret] at hat
        rcases hat with ⟨hone, hgiven⟩ | ⟨hne, hview⟩
        · exact .inl ⟨hone, m, hlending.same, hfound, hgiven⟩
        · exact .inr ⟨hne, hlending.same.kept hview⟩
      · rw [hret] at hat
        exact .inr ⟨hat.1, hlending.same.kept hat.2⟩
    rcases hcases with ⟨hone, haway⟩ | ⟨hne, hkept⟩
    · rw [decide_eq_true hone]
      exact haway
    · rw [decide_eq_false hne]
      exact hkept

theorem takingBack_borrowing (h : Borrowing cfg t view₀ s)
    (hagreed : Agreed cfg.platform s.bridge) {u : ThreadId} (hpc : s.destroy = .takingBack u)
    {word : MutexBridge.Addr} {code : MutexBridge.Errno} {raw : Nat}
    (hstep : s.destroyNext cfg word code raw = some s') : Borrowing cfg t view₀ s' := by
  have hholding := h.holding
  rw [hpc] at hholding
  obtain ⟨rfl, m, hreturning⟩ := hholding
  have hthread : s.destroy.thread = some u := by rw [hpc]; rfl
  simp only [State.destroyNext, hpc] at hstep
  refine inBridge_borrowing h hagreed hthread ?_ ?_ hstep
  · intro bridge hact
    rw [hpc]
    exact ⟨rfl, m, MutexBridge.returning_act hagreed (h.live hthread) hreturning hact⟩
  · intro c result hover
    refine ⟨rfl, MutexBridge.pc_goto_self s.bridge u .idle, ?_⟩
    have hat := hreturning.here
    rcases hover with hret | hret
    · rw [hret] at hat
      exact hreturning.same.kept_once hreturning.once hat.2
    · rw [hret] at hat
      exact hat.elim

/-- The thread goes on without the bridge. -/
theorem Borrowing.go (h : Borrowing cfg t view₀ s) (hthread : s.destroy.thread = some t)
    (hbridge : s'.bridge = s.bridge) (hholding : Holding cfg t view₀ s.bridge s'.destroy) :
    Borrowing cfg t view₀ s' := by
  refine ⟨fun _ => ?_, fun _ => ?_, ?_⟩ <;> rw [hbridge]
  · exact h.live hthread
  · exact h.quiet hthread
  · exact hholding

theorem destroyNext_borrowing (h : Borrowing cfg t view₀ s)
    (hagreed : Agreed cfg.platform s.bridge) {word : MutexBridge.Addr} {code : MutexBridge.Errno}
    {raw : Nat} (hstep : s.destroyNext cfg word code raw = some s') :
    Borrowing cfg t view₀ s' := by
  have hholding := h.holding
  cases hpc : s.destroy with
  | idle | returned | past =>
    rw [State.destroyNext, hpc] at hstep
    cases hstep
  | locked u deferred device inFlight callback context =>
    rw [hpc] at hholding
    obtain ⟨rfl, hidle, hview⟩ := hholding
    have hthread : s.destroy.thread = some u := by rw [hpc]; rfl
    have hclosing : Borrowing cfg u view₀
        { s with destroy := .closing u deferred false device } := by
      refine h.go hthread rfl ⟨rfl, hidle, fun _ => rfl, ?_⟩
      rw [Held, hview]
      exact .refl _ view₀
    simp only [State.destroyNext, hpc] at hstep
    split at hstep
    · split at hstep
      · rename_i m _
        have hholding' : Holding cfg u view₀
            (MutexBridge.start cfg.platform s.bridge u (.handoffBegin cfg.handoff) m)
            (.lending u device) := by
          rw [← hview]
          exact ⟨rfl, m, MutexBridge.start_lending s.bridge u cfg.handoff m⟩
        exact enterBridge_borrowing h hthread hholding' hstep
      · obtain rfl := Option.some.inj hstep
        exact hclosing
    · obtain rfl := Option.some.inj hstep
      exact hclosing
  | lending u device => exact lending_borrowing h hagreed hpc hstep
  | closing u deferred lent device =>
    rw [hpc] at hholding
    obtain ⟨rfl, hidle, hdeferred, hheld⟩ := hholding
    have hthread : s.destroy.thread = some u := by rw [hpc]; rfl
    have hnext : Holding cfg u view₀ s.bridge
        (if deferred then .detaching u else .joining u lent) := by
      cases deferred with
      | true =>
        obtain rfl := hdeferred rfl
        exact ⟨rfl, hidle, hheld⟩
      | false => exact ⟨rfl, hidle, hheld⟩
    simp only [State.destroyNext, hpc] at hstep
    split at hstep
    · simp only [Option.ite_none_right_eq_some, Option.some.injEq] at hstep
      obtain ⟨-, rfl⟩ := hstep
      exact h.go hthread rfl hnext
    · obtain rfl := Option.some.inj hstep
      exact h.go hthread rfl hnext
  | detaching u =>
    rw [hpc] at hholding
    have hthread : s.destroy.thread = some t := by rw [hpc]; exact congrArg some hholding.1
    simp only [State.destroyNext, hpc] at hstep
    obtain rfl := Option.some.inj hstep
    exact h.go hthread rfl hholding
  | marking u =>
    rw [hpc] at hholding
    have hthread : s.destroy.thread = some t := by rw [hpc]; exact congrArg some hholding.1
    simp only [State.destroyNext, hpc] at hstep
    obtain rfl := Option.some.inj hstep
    exact h.go hthread rfl hholding
  | joining u lent =>
    rw [hpc] at hholding
    obtain ⟨rfl, hidle, hlent⟩ := hholding
    have hthread : s.destroy.thread = some u := by rw [hpc]; rfl
    simp only [State.destroyNext, hpc] at hstep
    split at hstep
    · cases hstep
    · cases lent with
      | true =>
        obtain ⟨m, hsame, hfound, hgiven⟩ := hlent
        have hholding' : Holding cfg u view₀
            (MutexBridge.start cfg.platform s.bridge u (.handoffEnd cfg.handoff) 0)
            (.takingBack u) := ⟨rfl, m, MutexBridge.start_returning hsame hgiven hfound 0⟩
        exact enterBridge_borrowing h hthread hholding' hstep
      | false =>
        obtain rfl := Option.some.inj hstep
        exact h.go hthread rfl ⟨rfl, hidle, hlent⟩
  | takingBack u => exact takingBack_borrowing h hagreed hpc hstep
  | releasing u =>
    rw [hpc] at hholding
    have hthread : s.destroy.thread = some t := by rw [hpc]; exact congrArg some hholding.1
    simp only [State.destroyNext, hpc] at hstep
    obtain rfl := Option.some.inj hstep
    exact h.go hthread rfl hholding

theorem Borrowing.begun (h : Borrowing cfg t view₀ s) : s.destroy ≠ .idle := by
  intro hidle
  have hholding := h.holding
  rw [hidle] at hholding
  exact hholding

theorem Borrowing.same (h : Borrowing cfg t view₀ s) (hbridge : s'.bridge = s.bridge)
    (hdestroy : s'.destroy = s.destroy) : Borrowing cfg t view₀ s' := by
  refine ⟨?_, ?_, ?_⟩ <;> rw [hdestroy, hbridge]
  · exact h.live
  · exact h.quiet
  · exact h.holding

theorem workerExit_same (hstep : s.workerExit = some s') :
    s'.bridge = s.bridge ∧ s'.destroy = s.destroy ∧ s'.workerThread = s.workerThread := by
  simp only [State.workerExit] at hstep
  split at hstep
  · split at hstep
    · obtain rfl := Option.some.inj hstep
      exact ⟨rfl, rfl, rfl⟩
    · simp only [Option.ite_none_right_eq_some, Option.some.injEq] at hstep
      obtain ⟨-, rfl⟩ := hstep
      exact ⟨rfl, rfl, rfl⟩
    · split at hstep <;> obtain rfl := Option.some.inj hstep <;> exact ⟨rfl, rfl, rfl⟩
    · obtain rfl := Option.some.inj hstep
      exact ⟨rfl, rfl, rfl⟩
  · cases hstep

theorem step_borrowing (h : Borrowing cfg t view₀ s) (hinv : Inv cfg s) {e : Event}
    (hstep : step cfg s e = some s') : Borrowing cfg t view₀ s' := by
  cases e with
  | registerCallback callback context =>
    simp only [step, Option.ite_none_right_eq_some, Option.some.injEq] at hstep
    obtain ⟨-, rfl⟩ := hstep
    exact h.same rfl rfl
  | realize =>
    simp only [step, Option.ite_none_right_eq_some, Option.some.injEq] at hstep
    exact absurd hstep.1.1 h.begun
  | openNext succeeds worker =>
    have hopening : s.opening ≠ .none := by
      intro hnone
      simp only [step, State.openNext, hnone] at hstep
      cases hstep
    exact absurd (hinv.idle_of_opening hopening) h.begun
  | player e =>
    simp only [step, Option.ite_none_right_eq_some, Option.map_eq_some_iff] at hstep
    obtain ⟨-, system, -, rfl⟩ := hstep
    exact h.same rfl rfl
  | audioEnter | audioLeave =>
    simp only [step, Option.ite_none_right_eq_some, Option.some.injEq] at hstep
    obtain ⟨-, rfl⟩ := hstep
    exact h.same rfl rfl
  | audioSection length =>
    simp only [step, Option.ite_none_right_eq_some, Option.map_eq_some_iff] at hstep
    obtain ⟨-, system, -, rfl⟩ := hstep
    exact h.same rfl rfl
  | workerExit =>
    obtain ⟨hbridge, hdestroy, -⟩ := workerExit_same hstep
    exact h.same hbridge hdestroy
  | destroy u =>
    simp only [step, Option.ite_none_right_eq_some, Option.some.injEq] at hstep
    exact absurd hstep.1.1 h.begun
  | destroyNext word code raw => exact destroyNext_borrowing h hinv.agreed hstep
  | resume =>
    simp only [step] at hstep
    split at hstep
    · obtain rfl := Option.some.inj hstep
      exact ⟨(fun hd => by cases hd), (fun hd => by cases hd), trivial⟩
    · cases hstep
  | bridge e => exact bridge_borrowing h hinv.agreed hstep

theorem run_borrowing (h : Borrowing cfg t view₀ s) (hinv : Inv cfg s) {es : List Event}
    (hrun : run (step cfg) s es = some s') : Borrowing cfg t view₀ s' := by
  have hboth : Borrowing cfg t view₀ s' ∧ Inv cfg s' :=
    run_invariant (P := fun s => Borrowing cfg t view₀ s ∧ Inv cfg s)
      (fun _ _ _ h hstep => ⟨step_borrowing h.1 h.2 hstep, step_inv h.2 hstep⟩) ⟨h, hinv⟩ hrun
  exact hboth.1

end Holding

section Begin

variable {cfg : Config} {s s' : State} {t : ThreadId}

/-- The record of Destroy is used by Destroy alone. -/
def Spare (cfg : Config) (s : State) : Prop :=
  s.destroy = .idle → Unused s.bridge cfg.handoff

theorem initial_spare (cfg : Config) : Spare cfg initial := by
  intro _ t c hc
  cases hc

theorem openNext_same {succeeds : Bool} {worker : ThreadId}
    (hstep : s.openNext cfg succeeds worker = some s') : s'.destroy = s.destroy := by
  simp only [State.openNext] at hstep
  split at hstep
  case h_1 => cases hstep
  case h_4 =>
    split at hstep
    · obtain ⟨bridge, -, rfl⟩ := Option.map_eq_some_iff.mp hstep
      rfl
    · obtain rfl := Option.some.inj hstep
      rfl
  case h_7 =>
    simp only [Option.ite_none_right_eq_some, Option.some.injEq] at hstep
    obtain ⟨-, rfl⟩ := hstep
    rfl
  case h_6 | h_8 =>
    obtain rfl := Option.some.inj hstep
    rfl
  all_goals
    split at hstep <;> obtain rfl := Option.some.inj hstep <;> rfl

theorem destroyBegin_begun (s : State) (t : ThreadId) : (s.destroyBegin t).destroy ≠ .idle := by
  unfold State.destroyBegin
  split <;> simp

theorem openNext_spare (h : Unused s.bridge cfg.handoff) (hagreed : Agreed cfg.platform s.bridge)
    {succeeds : Bool} {worker : ThreadId} (hstep : s.openNext cfg succeeds worker = some s') :
    Unused s'.bridge cfg.handoff := by
  simp only [State.openNext] at hstep
  split at hstep
  case h_1 => cases hstep
  case h_4 =>
    split at hstep
    · obtain ⟨bridge, hbridge, rfl⟩ := Option.map_eq_some_iff.mp hstep
      exact MutexBridge.step_unused hagreed rfl h hbridge
    · obtain rfl := Option.some.inj hstep
      exact h
  case h_7 =>
    simp only [Option.ite_none_right_eq_some, Option.some.injEq] at hstep
    obtain ⟨-, rfl⟩ := hstep
    exact h
  case h_6 | h_8 =>
    obtain rfl := Option.some.inj hstep
    exact h
  all_goals
    split at hstep <;> obtain rfl := Option.some.inj hstep <;> exact h

theorem enterBridge_begun {op : MutexBridge.Op} {m : MutexBridge.Addr} {pc : DestroyPc}
    (hpc : pc ≠ .idle) (hstep : s.enterBridge cfg t op m pc = some s') : s'.destroy ≠ .idle := by
  obtain ⟨bridge, -, rfl⟩ := Option.map_eq_some_iff.mp hstep
  exact hpc

theorem inBridge_begun {code : MutexBridge.Errno} {raw : Nat} {next : Int → DestroyPc}
    (hbegun : s.destroy ≠ .idle) (hnext : ∀ result, next result ≠ .idle)
    (hstep : s.inBridge cfg t code raw next = some s') : s'.destroy ≠ .idle := by
  simp only [State.inBridge] at hstep
  split at hstep <;> obtain ⟨bridge, -, rfl⟩ := Option.map_eq_some_iff.mp hstep
  · exact hnext _
  · exact hnext _
  · exact hbegun

/-- Destroy does not begin again. -/
theorem destroyNext_begun {word : MutexBridge.Addr} {code : MutexBridge.Errno} {raw : Nat}
    (hstep : s.destroyNext cfg word code raw = some s') : s'.destroy ≠ .idle := by
  cases hpc : s.destroy with
  | idle | returned | past =>
    rw [State.destroyNext, hpc] at hstep
    cases hstep
  | locked u deferred device inFlight callback context =>
    simp only [State.destroyNext, hpc] at hstep
    split at hstep
    · split at hstep
      · exact enterBridge_begun (by simp) hstep
      · obtain rfl := Option.some.inj hstep
        simp
    · obtain rfl := Option.some.inj hstep
      simp
  | lending u device =>
    simp only [State.destroyNext, hpc] at hstep
    exact inBridge_begun (by rw [hpc]; simp) (by simp) hstep
  | takingBack u =>
    simp only [State.destroyNext, hpc] at hstep
    exact inBridge_begun (by rw [hpc]; simp) (by simp) hstep
  | closing u deferred lent device =>
    have hnext : (if deferred then DestroyPc.detaching u else .joining u lent) ≠ .idle := by
      cases deferred <;> simp
    simp only [State.destroyNext, hpc] at hstep
    split at hstep
    · simp only [Option.ite_none_right_eq_some, Option.some.injEq] at hstep
      obtain ⟨-, rfl⟩ := hstep
      exact hnext
    · obtain rfl := Option.some.inj hstep
      exact hnext
  | joining u lent =>
    simp only [State.destroyNext, hpc] at hstep
    split at hstep
    · cases hstep
    · split at hstep
      · exact enterBridge_begun (by simp) hstep
      · obtain rfl := Option.some.inj hstep
        simp
  | detaching | marking | releasing =>
    simp only [State.destroyNext, hpc] at hstep
    obtain rfl := Option.some.inj hstep
    simp

theorem step_spare (h : Spare cfg s) (hagreed : Agreed cfg.platform s.bridge) {e : Event}
    (hstep : step cfg s e = some s') : Spare cfg s' := by
  intro hidle
  cases e with
  | registerCallback callback context =>
    simp only [step, Option.ite_none_right_eq_some, Option.some.injEq] at hstep
    obtain ⟨-, rfl⟩ := hstep
    exact h hidle
  | realize =>
    simp only [step, Option.ite_none_right_eq_some, Option.some.injEq] at hstep
    obtain ⟨-, rfl⟩ := hstep
    exact h hidle
  | openNext succeeds worker =>
    have hsame : s'.destroy = s.destroy := openNext_same hstep
    exact openNext_spare (h (hsame.symm.trans hidle)) hagreed hstep
  | player e =>
    simp only [step, Option.ite_none_right_eq_some, Option.map_eq_some_iff] at hstep
    obtain ⟨-, system, -, rfl⟩ := hstep
    exact h hidle
  | audioEnter | audioLeave =>
    simp only [step, Option.ite_none_right_eq_some, Option.some.injEq] at hstep
    obtain ⟨-, rfl⟩ := hstep
    exact h hidle
  | audioSection length =>
    simp only [step, Option.ite_none_right_eq_some, Option.map_eq_some_iff] at hstep
    obtain ⟨-, system, -, rfl⟩ := hstep
    exact h hidle
  | workerExit =>
    obtain ⟨hbridge, hdestroy, -⟩ := workerExit_same hstep
    rw [hbridge]
    exact h (hdestroy.symm.trans hidle)
  | destroy u =>
    simp only [step, Option.ite_none_right_eq_some, Option.some.injEq] at hstep
    obtain ⟨-, rfl⟩ := hstep
    exact absurd hidle (destroyBegin_begun s u)
  | destroyNext word code raw => exact absurd hidle (destroyNext_begun hstep)
  | resume =>
    simp only [step] at hstep
    split at hstep
    · obtain rfl := Option.some.inj hstep
      cases hidle
    · cases hstep
  | bridge e =>
    simp only [step, Option.ite_none_right_eq_some, Option.map_eq_some_iff] at hstep
    obtain ⟨⟨-, huses, -⟩, bridge, hbridge, rfl⟩ := hstep
    exact MutexBridge.step_unused hagreed huses (h hidle) hbridge

/-- Destroy begins with the mutexes that its thread holds. -/
theorem destroy_borrowing (hspare : Spare cfg s) (hstep : step cfg s (.destroy t) = some s') :
    Borrowing cfg t (s.bridge.view t) s' := by
  simp only [step, Option.ite_none_right_eq_some, Option.some.injEq] at hstep
  obtain ⟨⟨hidle, -, hlive, hpc, -⟩, rfl⟩ := hstep
  have hquiet := (hspare hidle).quiet t
  unfold State.destroyBegin
  split
  · exact ⟨fun _ => hlive, fun _ => hquiet, rfl, hpc, rfl⟩
  · exact ⟨fun _ => hlive, fun _ => hquiet, rfl, hpc, .refl _ _⟩

end Begin

end Asm2Runtime.AudioTeardown
