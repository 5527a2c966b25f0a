import Asm2Runtime.MutexHandoff

/-!
# Waiting in the bridge

A call goes on, whatever the outside world decides, until it is over, unless its thread waits
for a mutex or for a condition. Every address that a call or a handoff works on has an object.
-/

namespace Asm2Runtime.MutexBridge

open Transition

section Registered

variable {p : Platform} {s s' : State} {t : Tid}

/-- The objects of the running calls and of the handoffs exist. -/
structure Registered (s : State) : Prop where
  target : ∀ t m, (s.pc t).target = some m → (s.object m).isSome = true
  handoff : ∀ g m, s.handoff g = some m → (s.object m).isSome = true

theorem initial_registered : Registered initial :=
  ⟨fun _ _ h => (nomatch h), fun _ _ h => (nomatch h)⟩

/-- The thread goes on to where the object exists. -/
theorem Registered.goto (h : Registered s) {pc : Pc}
    (htarget : ∀ m, pc.target = some m → (s.object m).isSome = true) :
    Registered (s.goto t pc) where
  target := by
    intro u m hm
    by_cases hu : u = t
    · subst hu
      rw [pc_goto_self] at hm
      exact htarget m hm
    · rw [pc_goto_of_ne s pc hu] at hm
      exact h.target u m hm
  handoff := h.handoff

theorem Registered.publish (h : Registered s) (m : Addr) (type : MutexType) :
    Registered (s.publish m type) :=
  ⟨fun t n hn => object_isSome s m (.fresh type) n (h.target t n hn),
    fun g n hn => object_isSome s m (.fresh type) n (h.handoff g n hn)⟩

theorem publish_isSome (s : State) (m : Addr) (type : MutexType) :
    ((s.publish m type).object m).isSome = true := by
  simp [State.publish, State.setObject]

theorem found_target {c : Call} {m : Addr} (h : c.found.target = some m) : m = c.mutex :=
  target_mutex h (call_found c)

theorem acquired_handoff {c : Call} {error : Errno} {g : HandoffId} {m : Addr}
    (h : (s.acquired t c error).handoff g = some m) : s.handoff g = some m := by
  unfold State.acquired at h
  split at h
  · change Function.update s.handoff _ none g = some m at h
    rw [Function.update_apply] at h
    split at h
    · cases h
    · exact h
  · exact h

theorem unlocked_handoff {c : Call} {g : HandoffId} {m : Addr}
    (h : (s.unlocked t c).handoff g = some m) : s.handoff g = some m ∨ m = c.mutex := by
  unfold State.unlocked at h
  split at h
  · change Function.update s.handoff _ (some c.mutex) g = some m at h
    rw [Function.update_apply] at h
    split at h
    · exact .inr (Option.some.inj h).symm
    · exact .inl h
  · exact .inl h

/-- A handoff gets the mutex of the access, or it was there before. -/
theorem onObject_handoff {o : Object} {code : Errno} {pc : Pc} {m n : Addr} {g : HandoffId}
    (htarget : pc.target = some n) (hstep : onObject p s t o code pc = some s')
    (hg : s'.handoff g = some m) : s.handoff g = some m ∨ m = n := by
  cases pc with
  | idle | findCond | find | create | returned | notFound => cases htarget
  | addDepth c error | storeOwner c error =>
    obtain rfl := Option.some.inj hstep
    have hold := acquired_handoff hg
    exact .inl hold
  | hostUnlock c depth =>
    obtain rfl := Option.some.inj htarget
    simp only [onObject] at hstep
    split at hstep <;> obtain rfl := Option.some.inj hstep
    · have hold := unlocked_handoff hg
      exact hold
    · exact .inl hg
  | hostLock c =>
    simp only [onObject] at hstep
    split at hstep
    · cases hstep
    · split at hstep <;> obtain rfl := Option.some.inj hstep <;> exact .inl hg
  | releaseLoadDepth c owner =>
    simp only [onObject] at hstep
    split at hstep
    · obtain rfl := Option.some.inj hstep
      exact .inl hg
    · split at hstep <;> obtain rfl := Option.some.inj hstep <;> exact .inl hg
  | loadAcquired | handoffOwner | handoffDepth | hostWait =>
    simp only [onObject] at hstep
    split at hstep <;> obtain rfl := Option.some.inj hstep <;> exact .inl hg
  | waiting c =>
    simp only [onObject, Option.ite_none_right_eq_some, Option.some.injEq] at hstep
    obtain ⟨-, rfl⟩ := hstep
    exact .inl hg
  | _ =>
    obtain rfl := Option.some.inj hstep
    exact .inl hg

/-- An access of an object leaves the thread with this object. -/
theorem Registered.access (h : Registered s) (hacted : Acted s s' t) {n : Addr}
    (htarget : (s.pc t).target = some n)
    (hhandoff : ∀ g m, s'.handoff g = some m → s.handoff g = some m ∨ m = n) : Registered s' where
  target := by
    intro u m hm
    refine hacted.objects m ?_
    by_cases hu : u = t
    · subst hu
      obtain ⟨c, hc⟩ : ∃ c, (s.pc u).call = some c := by
        cases hpc : s.pc u with
        | idle =>
          rw [hpc] at htarget
          cases htarget
        | _ => exact ⟨_, rfl⟩
      have hmutex := target_mutex htarget hc
      rw [← hacted.call] at hc
      rw [target_mutex hm hc, ← hmutex]
      exact h.target u n htarget
    · rw [hacted.pc u hu] at hm
      exact h.target u m hm
  handoff := by
    intro g m hm
    refine hacted.objects m ?_
    rcases hhandoff g m hm with hold | rfl
    · exact h.handoff g m hold
    · exact h.target t m htarget

theorem act_registered (h : Registered s) (hagreed : Agreed p s) (ht : t ∈ s.live) {code : Errno}
    {raw : Nat} (hstep : act p s t code raw = some s') : Registered s' := by
  have hacted := act_acted hagreed ht hstep
  have hfound : ∀ {q : State} {c : Call}, Registered q → (q.object c.mutex).isSome = true →
      Registered (q.goto t c.found) := by
    intro q c hq hsome
    refine hq.goto fun m hm => ?_
    rw [found_target hm]
    exact hsome
  have hnone : ∀ {pc : Pc}, pc.target = none → Registered (s.goto t pc) := by
    intro pc hpc
    refine h.goto fun m hm => ?_
    rw [hpc] at hm
    cases hm
  unfold act at hstep
  split at hstep
  · split at hstep <;> obtain rfl := Option.some.inj hstep <;> exact hnone rfl
  · split at hstep <;> obtain rfl := Option.some.inj hstep
    · rename_i hsome
      exact hfound h hsome
    · exact hnone rfl
  · split at hstep
    · rename_i hsome
      obtain rfl := Option.some.inj hstep
      exact hfound h hsome
    · split at hstep
      · obtain rfl := Option.some.inj hstep
        exact hnone rfl
      · split at hstep <;> obtain rfl := Option.some.inj hstep
        · exact hfound (h.publish _ _) (publish_isSome s _ _)
        · exact hnone rfl
  · split at hstep
    · cases hstep
    · rename_i m htarget
      obtain ⟨o, ho, hon⟩ := Option.bind_eq_some_iff.mp hstep
      exact h.access hacted htarget fun g n hn => onObject_handoff htarget hon hn

theorem start_registered (h : Registered s) {op : Op} {m : Addr} :
    Registered (start p s t op m) := by
  have hnone : ∀ {pc : Pc}, pc.target = none → Registered (s.goto t pc) := by
    intro pc hpc
    refine h.goto fun m hm => ?_
    rw [hpc] at hm
    cases hm
  unfold start
  cases op with
  | handoffBegin g =>
    have hfind : Registered (s.goto t (.find (enter p s t (.handoffBegin g) m))) := hnone rfl
    refine ⟨hfind.target, fun f n hn => ?_⟩
    change Function.update s.handoff g none f = some n at hn
    rw [Function.update_apply] at hn
    split at hn
    · cases hn
    · exact h.handoff f n hn
  | handoffEnd g =>
    dsimp only
    split
    · rename_i n hn
      refine h.goto fun k hk => ?_
      rw [target_mutex hk rfl, enter_mutex]
      exact h.handoff g n hn
    · exact hnone rfl
  | _ => exact hnone rfl

theorem step_registered (h : Registered s) (hagreed : Agreed p s) {e : Event}
    (hstep : step p s e = some s') : Registered s' := by
  have hidle : ∀ {u}, Registered (s.goto u .idle) := fun {u} => h.goto fun m hm => by cases hm
  cases e with
  | spawn t | exit t =>
    simp only [step, Option.ite_none_right_eq_some, Option.some.injEq] at hstep
    obtain ⟨-, rfl⟩ := hstep
    exact ⟨h.target, h.handoff⟩
  | init m type =>
    simp only [step] at hstep
    split at hstep <;> obtain rfl := Option.some.inj hstep
    · exact h
    · exact h.publish m type
  | call t op m =>
    simp only [step, Option.ite_none_right_eq_some, Option.some.injEq] at hstep
    obtain ⟨-, rfl⟩ := hstep
    exact start_registered h
  | act t code raw =>
    simp only [step, Option.ite_none_right_eq_some] at hstep
    exact act_registered h hagreed hstep.1 hstep.2
  | resume t =>
    simp only [step] at hstep
    split at hstep
    · simp only [Option.ite_none_right_eq_some, Option.some.injEq] at hstep
      obtain ⟨-, rfl⟩ := hstep
      exact hidle
    · simp only [Option.ite_none_right_eq_some, Option.some.injEq] at hstep
      obtain ⟨-, rfl⟩ := hstep
      exact hidle
    · cases hstep

end Registered

section Waiting

/-- How many accesses of a call are left at most. -/
def Pc.left : Pc → Nat
  | .findCond _ => 15
  | .find _ => 14
  | .create _ => 13
  | .handoffOwner _ => 12
  | .handoffDepth _ => 11
  | .releaseLoadOwner _ => 10
  | .releaseLoadDepth _ _ => 9
  | .releaseStoreOwner _ _ => 8
  | .releaseStoreDepth _ _ | .releaseStoreZero _ _ => 7
  | .hostWait _ => 6
  | .hostLock _ | .waiting _ => 5
  | .hostUnlock _ _ | .loadAcquired _ _ => 4
  | .storeDepthOne _ _ | .restoreDepth _ _ _ => 3
  | .addDepth _ _ | .storeOwner _ _ | .restoreOwner _ _ _ => 2
  | .returned _ _ | .notFound _ _ => 1
  | .idle => 0

/-- The call is over. -/
def Pc.isDone : Pc → Bool
  | .returned _ _ | .notFound _ _ => true
  | _ => false

/-- The call that is about to lock its mutex, perhaps again after a wait. -/
def Pc.wants : Pc → Option Call
  | .hostLock c => if c.op = .trylock then none else some c
  | .waiting c => some c
  | _ => none

/-- Thread `u` waits for a mutex that `v` holds; a thread waits for itself on a NORMAL mutex. -/
def AwaitsMutex (s : State) (u v : Tid) : Prop :=
  ∃ c o, (s.pc u).wants = some c ∧ s.object c.mutex = some o ∧ o.host.holder = some v ∧
    (v = u → o.host.type = .normal)

/-- The thread waits for a mutex or for a condition. -/
def Waits (s : State) (u : Tid) : Prop := (∃ v, AwaitsMutex s u v) ∨ ∃ c, s.pc u = .waiting c

variable {p : Platform} {s s' : State} {u v w : Tid} {g : HandoffId} {m : Addr}
  {view₀ : Addr → Option Object}

theorem left_found (c : Call) : c.found.left < 13 := by
  unfold Call.found
  cases c.op <;> simp [Pc.left]

theorem left_released (c : Call) (depth : Nat) : (c.released depth).left < 7 := by
  unfold Call.released
  split
  · split <;> simp [Pc.left]
  · simp [Pc.left]

theorem left_acquired (s : State) (u : Tid) (c : Call) (error : Errno) :
    ((s.acquired u c error).pc u).left = 1 := by
  unfold State.acquired
  split <;> rw [pc_goto_self] <;> rfl

theorem left_unlocked (s : State) (u : Tid) (c : Call) : ((s.unlocked u c).pc u).left = 1 := by
  unfold State.unlocked
  split <;> rw [pc_goto_self] <;> rfl

theorem act_onObject {o : Object} {code : Errno} {raw : Nat} (htarget : (s.pc u).target = some m)
    (ho : s.object m = some o) : act p s u code raw = onObject p s u o code (s.pc u) := by
  unfold act
  cases hpc : s.pc u with
  | idle | findCond | find | create | returned | notFound =>
    rw [hpc] at htarget
    cases htarget
  | _ =>
    rw [hpc] at htarget
    simp only [htarget, ho, Option.bind_some]

theorem wants_target {pc : Pc} {c : Call} (h : pc.wants = some c) : pc.target = some c.mutex := by
  cases pc with
  | hostLock d =>
    simp only [Pc.wants, Option.ite_none_left_eq_some, Option.some.injEq] at h
    obtain ⟨-, rfl⟩ := h
    rfl
  | waiting d =>
    obtain rfl := Option.some.inj h
    rfl
  | _ => cases h

/-- A thread that waits for a mutex cannot go on. -/
theorem AwaitsMutex.blocked (h : AwaitsMutex s u v) (code : Errno) (raw : Nat) :
    act p s u code raw = none := by
  obtain ⟨c, o, hwants, ho, hholder, hself⟩ := h
  rw [act_onObject (wants_target hwants) ho]
  cases hpc : s.pc u with
  | hostLock d =>
    rw [hpc] at hwants
    simp only [Pc.wants, Option.ite_none_left_eq_some, Option.some.injEq] at hwants
    obtain ⟨hop, rfl⟩ := hwants
    by_cases hv : v = u
    · simp only [onObject, if_neg hop, HostMutex.lock, hholder, if_pos hv, hself hv]
    · simp only [onObject, if_neg hop, HostMutex.lock, hholder, if_neg hv]
  | waiting d => simp [onObject, hholder]
  | _ =>
    rw [hpc] at hwants
    cases hwants

/-- The next access can be made, whatever the outside world decides. -/
def Moves (p : Platform) (s : State) (u : Tid) : Prop :=
  ∀ code raw, ∃ s', act p s u code raw = some s' ∧ (s'.pc u).left < (s.pc u).left

/-- The host lock that does not wait. -/
theorem hostLock_moves {c : Call} {o : Object} (hpc : s.pc u = .hostLock c)
    (ho : s.object c.mutex = some o) (hwaits : ¬ Waits s u) : Moves p s u := by
  intro code raw
  have htarget : (s.pc u).target = some c.mutex := by rw [hpc]; rfl
  have hlock : ∃ r, (if c.op = .trylock then some (o.host.trylock p u) else o.host.lock p u) =
      some r := by
    by_cases hop : c.op = .trylock
    · exact ⟨_, if_pos hop⟩
    · rw [if_neg hop]
      cases hholder : o.host.holder with
      | none =>
        simp only [HostMutex.lock, hholder]
        exact ⟨_, rfl⟩
      | some v =>
        have hwants : (s.pc u).wants = some c := by
          rw [hpc]
          exact if_neg hop
        by_cases hv : v = u
        · cases htype : o.host.type with
          | normal => exact absurd (.inl ⟨v, c, o, hwants, ho, hholder, fun _ => htype⟩) hwaits
          | recursive | errorcheck =>
            simp only [HostMutex.lock, hholder, if_pos hv, htype]
            exact ⟨_, rfl⟩
        · exact absurd (.inl ⟨v, c, o, hwants, ho, hholder, fun heq => absurd heq hv⟩) hwaits
  obtain ⟨⟨host, error⟩, hlock⟩ := hlock
  rw [act_onObject htarget ho, hpc]
  simp only [onObject, hlock]
  split <;> exact ⟨_, rfl, by rw [pc_goto_self]; simp [Pc.left]⟩

theorem search_moves (hsearch : (s.pc u).target = none) (hbusy : s.pc u ≠ .idle)
    (hdone : (s.pc u).isDone = false) : Moves p s u := by
  intro code raw
  unfold act
  cases hpc : s.pc u with
  | idle => exact absurd hpc hbusy
  | returned | notFound =>
    rw [hpc] at hdone
    cases hdone
  | findCond c =>
    dsimp only
    split <;> exact ⟨_, rfl, by rw [pc_goto_self]; simp [Pc.left]⟩
  | find c =>
    have hfound := left_found c
    dsimp only
    split <;> refine ⟨_, rfl, ?_⟩ <;> rw [pc_goto_self]
    · exact Nat.lt_succ_of_lt hfound
    · simp [Pc.left]
  | create c =>
    have hfound := left_found c
    dsimp only
    split
    · exact ⟨_, rfl, by rw [pc_goto_self]; exact hfound⟩
    · split
      · exact ⟨_, rfl, by rw [pc_goto_self]; simp [Pc.left]⟩
      · split
        · exact ⟨_, rfl, by rw [pc_goto_self]; exact hfound⟩
        · exact ⟨_, rfl, by rw [pc_goto_self]; simp [Pc.left]⟩
  | _ =>
    rw [hpc] at hsearch
    cases hsearch

/-- A call that does not wait goes on. -/
theorem moves (h : Registered s) (hbusy : s.pc u ≠ .idle) (hdone : (s.pc u).isDone = false)
    (hwaits : ¬ Waits s u) : Moves p s u := by
  cases htarget : (s.pc u).target with
  | none => exact search_moves htarget hbusy hdone
  | some m =>
    obtain ⟨o, ho⟩ := Option.isSome_iff_exists.mp (h.target u m htarget)
    have hact : ∀ code raw, act p s u code raw = onObject p s u o code (s.pc u) :=
      fun _ _ => act_onObject htarget ho
    cases hpc : s.pc u with
    | idle | findCond | find | create | returned | notFound =>
      rw [hpc] at htarget
      cases htarget
    | hostLock c =>
      rw [hpc] at htarget
      obtain rfl := Option.some.inj htarget
      exact hostLock_moves hpc ho hwaits
    | waiting c => exact absurd (.inr ⟨c, hpc⟩) hwaits
    | loadAcquired | handoffOwner | handoffDepth | hostWait =>
      intro code raw
      rw [hact, hpc]
      simp only [onObject]
      split <;> exact ⟨_, rfl, by rw [pc_goto_self]; simp [Pc.left]⟩
    | releaseLoadDepth =>
      intro code raw
      rw [hact, hpc]
      simp only [onObject]
      split
      · exact ⟨_, rfl, by rw [pc_goto_self]; simp [Pc.left]⟩
      · split <;> exact ⟨_, rfl, by rw [pc_goto_self]; simp [Pc.left]⟩
    | addDepth | storeOwner =>
      intro code raw
      rw [hact, hpc]
      exact ⟨_, rfl, by rw [left_acquired]; simp [Pc.left]⟩
    | releaseStoreDepth c depth | releaseStoreZero c depth =>
      intro code raw
      rw [hact, hpc]
      exact ⟨_, rfl, by rw [pc_goto_self]; exact left_released c depth⟩
    | hostUnlock =>
      intro code raw
      rw [hact, hpc]
      simp only [onObject]
      split
      · exact ⟨_, rfl, by rw [left_unlocked]; simp [Pc.left]⟩
      · exact ⟨_, rfl, by rw [pc_goto_self]; simp [Pc.left]⟩
    | storeDepthOne | releaseLoadOwner | releaseStoreOwner | restoreDepth | restoreOwner =>
      intro code raw
      rw [hact, hpc]
      exact ⟨_, rfl, by rw [pc_goto_self]; simp [Pc.left]⟩

/-- handoff_begin never waits. -/
theorem lending_moves (hregistered : Registered s) (h : Lending p view₀ s u g m)
    (hdone : (s.pc u).isDone = false) : Moves p s u := by
  have hat := h.here
  obtain ⟨c, hcall, -⟩ := h.call
  refine moves hregistered ?_ hdone ?_
  · intro hidle
    rw [hidle] at hcall
    cases hcall
  · rintro (⟨v, d, o, hwants, -⟩ | ⟨d, hwaiting⟩)
    · cases hpc : s.pc u with
      | hostLock =>
        rw [hpc] at hat
        exact hat
      | waiting =>
        rw [hpc] at hat
        exact hat
      | _ =>
        rw [hpc] at hwants
        cases hwants
    · rw [hwaiting] at hat
      exact hat

/-- handoff_end waits only for another thread that holds the mutex. -/
theorem returning_moves (hregistered : Registered s) (h : Returning p view₀ s u g m)
    (hdone : (s.pc u).isDone = false) (hfree : ∀ v, ¬ AwaitsMutex s u v) : Moves p s u := by
  have hat := h.here
  obtain ⟨c, hcall, -⟩ := h.call
  refine moves hregistered ?_ hdone ?_
  · intro hidle
    rw [hidle] at hcall
    cases hcall
  · rintro (⟨v, hv⟩ | ⟨d, hwaiting⟩)
    · exact hfree v hv
    · rw [hwaiting] at hat
      exact hat

/-- A thread that waits makes no event. -/
theorem AwaitsMutex.no_event (h : AwaitsMutex s u v) (hagreed : Agreed p s) {e : Event}
    (hstep : step p s e = some s') : e.thread ≠ some u := by
  obtain ⟨c, o, hwants, -⟩ := id h
  have hbusy : s.pc u ≠ .idle := by
    intro hidle
    rw [hidle] at hwants
    cases hwants
  have hlive : u ∈ s.live := by
    by_contra hdead
    exact hbusy (hagreed.idle u hdead)
  intro he
  cases e with
  | init m type => cases he
  | spawn t =>
    obtain rfl := Option.some.inj he
    simp only [step, Option.ite_none_right_eq_some] at hstep
    exact hstep.1.1 hlive
  | exit t =>
    obtain rfl := Option.some.inj he
    simp only [step, Option.ite_none_right_eq_some] at hstep
    exact hbusy hstep.1.2.1
  | call t op m =>
    obtain rfl := Option.some.inj he
    simp only [step, Option.ite_none_right_eq_some] at hstep
    exact hbusy hstep.1.2
  | act t code raw =>
    obtain rfl := Option.some.inj he
    simp only [step, Option.ite_none_right_eq_some] at hstep
    rw [h.blocked code raw] at hstep
    cases hstep.2
  | resume t =>
    obtain rfl := Option.some.inj he
    simp only [step] at hstep
    split at hstep
    · rename_i hpc
      rw [hpc] at hwants
      cases hwants
    · rename_i hpc
      rw [hpc] at hwants
      cases hwants
    · cases hstep

/-- Only its own events change where a thread is and what it holds. -/
theorem step_beside (hagreed : Agreed p s) {e : Event} (hother : e.thread ≠ some u)
    (hstep : step p s e = some s') : s'.pc u = s.pc u ∧ s'.view u = s.view u := by
  have hne : ∀ {t}, e.thread = some t → u ≠ t := by
    rintro t ht rfl
    exact hother ht
  cases e with
  | spawn t | exit t =>
    simp only [step, Option.ite_none_right_eq_some, Option.some.injEq] at hstep
    obtain ⟨-, rfl⟩ := hstep
    exact ⟨rfl, rfl⟩
  | init m type =>
    cases hm : s.object m with
    | some o =>
      simp only [step, hm, Option.isSome_some, if_true, Option.some.injEq] at hstep
      exact hstep ▸ ⟨rfl, rfl⟩
    | none =>
      simp only [step, hm, Option.isSome_none, Bool.false_eq_true, if_false,
        Option.some.injEq] at hstep
      exact hstep ▸ ⟨rfl, congrFun (hagreed.publish hm type).2 u⟩
  | call t op m =>
    simp only [step, Option.ite_none_right_eq_some, Option.some.injEq] at hstep
    obtain ⟨-, rfl⟩ := hstep
    unfold start
    cases op with
    | handoffEnd h =>
      dsimp only
      split <;> exact ⟨pc_goto_of_ne s _ (hne rfl), rfl⟩
    | _ => exact ⟨pc_goto_of_ne _ _ (hne rfl), rfl⟩
  | act t code raw =>
    simp only [step, Option.ite_none_right_eq_some] at hstep
    have hacted := act_acted hagreed hstep.1 hstep.2
    exact ⟨hacted.pc u (hne rfl), hacted.view u (hne rfl)⟩
  | resume t =>
    simp only [step] at hstep
    split at hstep
    · simp only [Option.ite_none_right_eq_some, Option.some.injEq] at hstep
      obtain ⟨-, rfl⟩ := hstep
      exact ⟨pc_goto_of_ne s _ (hne rfl), rfl⟩
    · simp only [Option.ite_none_right_eq_some, Option.some.injEq] at hstep
      obtain ⟨-, rfl⟩ := hstep
      exact ⟨pc_goto_of_ne s _ (hne rfl), rfl⟩
    · cases hstep

/-- A thread is in the bridge because it was, or because it has just entered. -/
theorem step_busy (hagreed : Agreed p s) {e : Event} (hstep : step p s e = some s')
    (hbusy : s'.pc u ≠ .idle) : s.pc u ≠ .idle ∨ ∃ op m, e = .call u op m := by
  by_cases hother : e.thread = some u
  · cases e with
    | init m type => cases hother
    | spawn t | exit t =>
      simp only [step, Option.ite_none_right_eq_some, Option.some.injEq] at hstep
      obtain ⟨-, rfl⟩ := hstep
      exact .inl hbusy
    | call t op m =>
      obtain rfl := Option.some.inj hother
      exact .inr ⟨op, m, rfl⟩
    | act t code raw =>
      obtain rfl := Option.some.inj hother
      refine .inl fun hidle => ?_
      simp only [step, act, hidle, Pc.target, Option.ite_none_right_eq_some] at hstep
      cases hstep.2
    | resume t =>
      obtain rfl := Option.some.inj hother
      simp only [step] at hstep
      refine .inl fun hidle => ?_
      rw [hidle] at hstep
      cases hstep
  · rw [(step_beside hagreed hother hstep).1] at hbusy
    exact .inl hbusy

/-- A wait for a thread that does not move goes on. -/
theorem AwaitsMutex.keep (h : AwaitsMutex s u v) (hagreed : Agreed p s) {e : Event}
    (hother : e.thread ≠ some v) (hstep : step p s e = some s') : AwaitsMutex s' u v := by
  obtain ⟨hpc, -⟩ := step_beside hagreed (h.no_event hagreed hstep) hstep
  obtain ⟨-, hview⟩ := step_beside hagreed hother hstep
  obtain ⟨c, o, hwants, ho, hholder, hself⟩ := h
  have hv : s'.view v c.mutex = some o := by
    rw [hview]
    exact State.view_eq_some.mpr ⟨ho, hholder⟩
  refine ⟨c, o, ?_, (State.view_eq_some.mp hv).1, hholder, hself⟩
  rw [hpc]
  exact hwants

end Waiting

end Asm2Runtime.MutexBridge
