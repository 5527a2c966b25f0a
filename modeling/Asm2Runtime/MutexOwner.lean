import Asm2Runtime.MutexBridge

/-!
# The ownership shadow agrees with the host

A thread sees, of all mutexes, those whose host mutex it holds. What the shadow
words of these say is determined by where the thread is in its call, and no
other thread can change them, so every thread keeps its own part of the
invariant and the interleaving drops out.
-/

namespace Asm2Runtime.MutexBridge

open Transition

/-- The objects whose host mutex the thread holds. -/
def State.view (s : State) (t : Tid) (m : Addr) : Option Object :=
  (s.object m).filter fun o => o.host.holder = some t

theorem State.view_eq_some {s : State} {t : Tid} {m : Addr} {o : Object} :
    s.view t m = some o ↔ s.object m = some o ∧ o.host.holder = some t := by
  simp [State.view, Option.filter_eq_some_iff]

/-- The shadow agrees with the host count of the holder. -/
def Neutral (cur : Nat) (o : Object) : Prop :=
  o.mutexOwner = cur ∧ o.mutexDepth = o.host.count

/-- Before the call has changed anything: its record is right. -/
def Fresh (view : Addr → Option Object) (cur : Nat) (c : Call) : Prop :=
  match view c.mutex with
  | none => c.owned = false
  | some o => c.owned = true ∧ c.depth = o.mutexDepth ∧ Neutral cur o

/-- mutex_record_releasing has read this depth. -/
def Passed (c : Call) (depth : Nat) : Prop :=
  c.op.locks = false ∧ c.owned = true ∧ c.depth = depth ∧ (c.op.beginsHandoff = true → depth = 1)

/-- A call that locked the host mutex itself, or waited with depth one. -/
def Acquires (c : Call) : Prop := c.op.locks = true ∨ c.op.waits = true ∧ Passed c 1

/-- What a call has done when it returns. -/
def Outcome (view : Addr → Option Object) (cur : Nat) (c : Call) (result : Int) : Prop :=
  match c.op with
  | .lock | .trylock | .handoffEnd _ => result = 0 → (view c.mutex).isSome
  | .unlock => result = if c.owned then 0 else EPERM
  | .handoffBegin _ => result = if c.owned ∧ c.depth = 1 then 1 else 0
  | .condWait | .condTimedwait =>
    if c.owned then
      ∃ o, view c.mutex = some o ∧ Neutral cur o ∧ o.mutexDepth = c.depth ∧
        (c.depth ≠ 1 → result = EINVAL)
    else result = EPERM

/-- What a thread knows about the mutex of its call. -/
def Here (view : Addr → Option Object) (cur : Nat) : Pc → Prop
  | .idle | .notFound _ _ => True
  | .findCond c | .find c | .create c => Fresh view cur c
  | .hostLock c => c.op.locks = true
  | .handoffOwner c => Fresh view cur c ∧ c.op.beginsHandoff = true
  | .handoffDepth c => Fresh view cur c ∧ c.op.beginsHandoff = true ∧ c.owned = true
  | .releaseLoadOwner c =>
    Fresh view cur c ∧ c.op.locks = false ∧
      (c.op.beginsHandoff = true → c.owned = true ∧ c.depth = 1)
  | .releaseLoadDepth c owner =>
    Fresh view cur c ∧ c.op.locks = false ∧
      (c.op.beginsHandoff = true → c.owned = true ∧ c.depth = 1) ∧ (owner = cur ↔ c.owned = true)
  | .releaseStoreDepth c d =>
    ∃ o, view c.mutex = some o ∧ Neutral cur o ∧ o.mutexDepth = d ∧ 1 < d ∧ Passed c d
  | .releaseStoreOwner c d =>
    ∃ o, view c.mutex = some o ∧ Neutral cur o ∧ o.mutexDepth = d ∧ d = 1 ∧ Passed c d
  | .releaseStoreZero c d =>
    ∃ o, view c.mutex = some o ∧ o.mutexOwner = 0 ∧ o.host.count = 1 ∧ d = 1 ∧ Passed c d
  | .hostUnlock c d =>
    ∃ o, view c.mutex = some o ∧ o.host.count = d ∧ Passed c d ∧ c.op.waits = false ∧
      (1 < d ∧ o.mutexOwner = cur ∧ o.mutexDepth + 1 = d ∨ d = 1 ∧ o.mutexOwner = 0)
  | .restoreDepth c d e =>
    ∃ o, view c.mutex = some o ∧ o.host.count = d ∧ o.mutexOwner = cur ∧ 1 < d ∧ Passed c d ∧
      c.op.waits = true ∧ e = EINVAL
  | .restoreOwner c d e =>
    ∃ o, view c.mutex = some o ∧ o.host.count = d ∧ o.mutexOwner = cur ∧ o.mutexDepth = d ∧ 1 < d ∧
      Passed c d ∧ c.op.waits = true ∧ e = EINVAL
  | .hostWait c =>
    ∃ o, view c.mutex = some o ∧ o.host.count = 1 ∧ o.mutexOwner = 0 ∧ Passed c 1 ∧
      c.op.waits = true
  | .waiting c => view c.mutex = none ∧ Passed c 1 ∧ c.op.waits = true
  | .loadAcquired c _ =>
    ∃ o, view c.mutex = some o ∧ Acquires c ∧
      (c.op.locks = true ∧ o.mutexOwner = cur ∧ o.mutexDepth + 1 = o.host.count ∨
        o.mutexOwner = 0 ∧ o.host.count = 1)
  | .addDepth c _ =>
    ∃ o, view c.mutex = some o ∧ c.op.locks = true ∧ o.mutexOwner = cur ∧
      o.mutexDepth + 1 = o.host.count
  | .storeDepthOne c _ =>
    ∃ o, view c.mutex = some o ∧ Acquires c ∧ o.mutexOwner = 0 ∧ o.host.count = 1
  | .storeOwner c _ =>
    ∃ o, view c.mutex = some o ∧ Acquires c ∧ o.mutexOwner = 0 ∧ o.host.count = 1 ∧
      o.mutexDepth = 1
  | .returned c result => Outcome view cur c result

/-- The mutex whose shadow may differ from the host while the thread is here. -/
def Pc.changing : Pc → Option Addr
  | .loadAcquired c _ | .addDepth c _ | .storeDepthOne c _ | .storeOwner c _
  | .releaseStoreZero c _ | .hostUnlock c _ | .restoreDepth c _ _ | .restoreOwner c _ _
  | .hostWait c => some c.mutex
  | _ => none

theorem Pc.target_of_changing {pc : Pc} {m : Addr} (h : pc.changing = some m) :
    pc.target = some m := by
  cases pc <;> simp_all [Pc.changing, Pc.target]

/-- One thread's part of the invariant. -/
structure Good (view : Addr → Option Object) (cur : Nat) (pc : Pc) : Prop where
  here : Here view cur pc
  neutral : ∀ m o, view m = some o → pc.changing ≠ some m → Neutral cur o

/-- The thread moves without touching an object. -/
theorem Good.move {view : Addr → Option Object} {cur : Nat} {pc pc' : Pc} (h : Good view cur pc)
    (hhere : Here view cur pc') (hchanging : ∀ m, pc.changing = some m → pc'.changing = some m) :
    Good view cur pc' := by
  refine ⟨hhere, ?_⟩
  intro m o ho hm
  exact h.neutral m o ho fun hc => hm (hchanging m hc)

/-- The thread changes the object it works on. -/
theorem Good.write {view : Addr → Option Object} {cur : Nat} {pc pc' : Pc} {m : Addr}
    {v : Option Object} (h : Good view cur pc) (htarget : pc.target = some m)
    (hhere : Here (Function.update view m v) cur pc')
    (hneutral : ∀ o, v = some o → pc'.changing ≠ some m → Neutral cur o) :
    Good (Function.update view m v) cur pc' := by
  refine ⟨hhere, ?_⟩
  intro n o ho hn
  by_cases hnm : n = m
  · subst n
    exact hneutral o (by simpa using ho) hn
  · rw [Function.update_of_ne hnm] at ho
    refine h.neutral n o ho ?_
    intro hc
    have := (Pc.target_of_changing hc).symm.trans htarget
    exact hnm (Option.some.inj this)

/-! ## All threads together -/

structure Agreed (p : Platform) (s : State) : Prop where
  tokens : ∀ t ∈ s.live, ∀ u ∈ s.live, p.mutexCurrentOwner t = p.mutexCurrentOwner u → t = u
  nodup : s.live.Nodup
  idle : ∀ t, t ∉ s.live → s.pc t = .idle
  mutexes : ∀ m o, s.object m = some o → m ∈ s.mutexes
  free : ∀ m o, s.object m = some o → o.host.holder = none → o.mutexOwner = 0
  held : ∀ m o t, s.object m = some o → o.host.holder = some t →
    t ∈ s.live ∧ 1 ≤ o.host.count ∧ o.host.count ≤ p.recursionLimit
  good : ∀ t ∈ s.live, Good (s.view t) (p.mutexCurrentOwner t) (s.pc t)

theorem initial_agreed (p : Platform) : Agreed p initial := by
  refine ⟨?_, ?_, ?_, ?_, ?_, ?_, ?_⟩ <;> simp [initial]

theorem view_setObject (s : State) (t : Tid) (pc : Pc) (m : Addr) (o : Object) (u : Tid) :
    ((s.setObject m o).goto t pc).view u =
      Function.update (s.view u) m (if o.host.holder = some u then some o else none) := by
  funext n
  by_cases hn : n = m
  · subst n
    by_cases ho : o.host.holder = some u <;> simp [State.view, State.setObject, State.goto, ho]
  · simp [State.view, State.setObject, State.goto, hn]

@[simp] theorem pc_goto_self (s : State) (t : Tid) (pc : Pc) : (s.goto t pc).pc t = pc := by
  simp [State.goto]

theorem pc_goto_of_ne (s : State) {t u : Tid} (pc : Pc) (h : u ≠ t) :
    (s.goto t pc).pc u = s.pc u := by
  simp [State.goto, h]

variable {p : Platform} {s : State}

/-- The invariant does not look at the handoffs. -/
theorem Agreed.handoff (h : Agreed p s) (handoff : HandoffId → Option Addr) :
    Agreed p { s with handoff } :=
  ⟨h.tokens, h.nodup, h.idle, h.mutexes, h.free, h.held, h.good⟩

theorem Agreed.goto (h : Agreed p s) {t : Tid} (ht : t ∈ s.live) {pc : Pc}
    (hgood : Good (s.view t) (p.mutexCurrentOwner t) pc) : Agreed p (s.goto t pc) := by
  refine ⟨h.tokens, h.nodup, ?_, h.mutexes, h.free, h.held, ?_⟩
  · intro u hu
    have hut : u ≠ t := by rintro rfl; exact hu ht
    simpa [State.goto, hut] using h.idle u hu
  · intro u hu
    by_cases hut : u = t
    · subst u
      rw [pc_goto_self]
      exact hgood
    · rw [pc_goto_of_ne s pc hut]
      exact h.good u hu

/-- A thread changes an object that nobody else holds. -/
theorem Agreed.change (h : Agreed p s) {t : Tid} (ht : t ∈ s.live) {m : Addr} {o o' : Object}
    {pc : Pc} (ho : s.object m = some o)
    (hbefore : o.host.holder = some t ∨ o.host.holder = none)
    (hafter : o'.host.holder = some t ∧ 1 ≤ o'.host.count ∧ o'.host.count ≤ p.recursionLimit ∨
      o'.host.holder = none ∧ o'.mutexOwner = 0)
    (hgood : Good (Function.update (s.view t) m (if o'.host.holder = some t then some o' else none))
      (p.mutexCurrentOwner t) pc) : Agreed p ((s.setObject m o').goto t pc) := by
  have hobject : ∀ n, n ≠ m → ((s.setObject m o').goto t pc).object n = s.object n := by
    intro n hn
    simp [State.setObject, State.goto, hn]
  have hself : ((s.setObject m o').goto t pc).object m = some o' := by
    simp [State.setObject, State.goto]
  refine ⟨h.tokens, h.nodup, ?_, ?_, ?_, ?_, ?_⟩
  · intro u hu
    have hut : u ≠ t := by rintro rfl; exact hu ht
    simpa [State.goto, State.setObject, hut] using h.idle u hu
  · intro n q hq
    by_cases hn : n = m
    · subst n
      exact h.mutexes m o ho
    · exact h.mutexes n q (hobject n hn ▸ hq)
  · intro n q hq hnone
    by_cases hn : n = m
    · subst n
      obtain rfl : o' = q := by simpa [hself] using hq
      rcases hafter with ⟨hh, -⟩ | ⟨-, hzero⟩
      · simp [hh] at hnone
      · exact hzero
    · exact h.free n q (hobject n hn ▸ hq) hnone
  · intro n q u hq hu
    by_cases hn : n = m
    · subst n
      obtain rfl : o' = q := by simpa [hself] using hq
      rcases hafter with ⟨hh, hcount⟩ | ⟨hh, -⟩
      · obtain rfl : t = u := by simpa [hh] using hu
        exact ⟨ht, hcount⟩
      · simp [hh] at hu
    · exact h.held n q u (hobject n hn ▸ hq) hu
  · intro u hu
    rw [view_setObject]
    by_cases hut : u = t
    · subst u
      simpa [State.goto] using hgood
    · have hview : s.view u m = none := by
        rcases hbefore with hh | hh <;> simp [State.view, ho, hh, Ne.symm hut]
      have hnew : o'.host.holder ≠ some u := by
        rcases hafter with ⟨hh, -⟩ | ⟨hh, -⟩ <;> simp [hh, Ne.symm hut]
      have hsame : Function.update (s.view u) m none = s.view u := by
        rw [← hview, Function.update_eq_self]
      rw [if_neg hnew, hsame]
      simpa [State.goto, State.setObject, hut] using h.good u hu

/-- object_publish_locked makes a free mutex. -/
theorem Agreed.publish (h : Agreed p s) {m : Addr} (hm : s.object m = none) (type : MutexType) :
    Agreed p (s.publish m type) ∧ (s.publish m type).view = s.view := by
  have hview : (s.publish m type).view = s.view := by
    funext u n
    by_cases hn : n = m
    · subst n
      simp [State.view, State.publish, State.setObject, Object.fresh, hm]
    · simp [State.view, State.publish, State.setObject, hn]
  have hold : ∀ n o, (s.publish m type).object n = some o →
      n = m ∧ o = .fresh type ∨ s.object n = some o := by
    intro n o ho
    by_cases hn : n = m
    · subst n
      exact .inl ⟨rfl, by simpa [State.publish, State.setObject, eq_comm] using ho⟩
    · exact .inr (by simpa [State.publish, State.setObject, hn] using ho)
  refine ⟨⟨h.tokens, h.nodup, h.idle, ?_, ?_, ?_, ?_⟩, hview⟩
  · intro n o ho
    rcases hold n o ho with ⟨rfl, -⟩ | ho
    · exact List.mem_cons_self ..
    · exact List.mem_cons_of_mem _ (h.mutexes n o ho)
  · intro n o ho hnone
    rcases hold n o ho with ⟨-, rfl⟩ | ho
    · rfl
    · exact h.free n o ho hnone
  · intro n o t ho hheld
    rcases hold n o ho with ⟨-, rfl⟩ | ho
    · cases hheld
    · exact h.held n o t ho hheld
  · intro t ht
    rw [hview]
    exact h.good t ht

/-- The owner word of a held mutex is the token of the holder or zero. -/
theorem Good.owner {view : Addr → Option Object} {cur : Nat} {pc : Pc} (h : Good view cur pc)
    {m : Addr} {o : Object} (ho : view m = some o) : o.mutexOwner = cur ∨ o.mutexOwner = 0 := by
  by_cases hm : pc.changing = some m
  · have hhere := h.here
    cases pc <;> simp only [Pc.changing, Option.some.injEq, reduceCtorEq] at hm <;>
      simp only [Here, hm, ho, Option.some.injEq, exists_eq_left'] at hhere <;> grind
  · exact .inl (h.neutral m o ho hm).1

/-- The token in the owner word is the one of the host holder. -/
theorem Agreed.holder_of_owner (h : Agreed p s) {m : Addr} {o : Object} (ho : s.object m = some o)
    (hne : o.mutexOwner ≠ 0) :
    ∃ t ∈ s.live, o.mutexOwner = p.mutexCurrentOwner t ∧ o.host.holder = some t := by
  cases hh : o.host.holder with
  | none => exact absurd (h.free m o ho hh) hne
  | some t =>
    obtain ⟨ht, -⟩ := h.held m o t ho hh
    rcases (h.good t ht).owner (State.view_eq_some.mpr ⟨ho, hh⟩) with howner | hzero
    · exact ⟨t, ht, howner, rfl⟩
    · exact absurd hzero hne

/-- Only the host holder has its token in the owner word. -/
theorem Agreed.holder_of_token (h : Agreed p s) {t : Tid} (ht : t ∈ s.live) {m : Addr} {o : Object}
    (ho : s.object m = some o) (heq : o.mutexOwner = p.mutexCurrentOwner t) :
    o.host.holder = some t := by
  obtain ⟨u, hu, howner, hholder⟩ := h.holder_of_owner ho
    (by rw [heq]; exact p.mutexCurrentOwner_ne_zero t)
  obtain rfl := h.tokens u hu t ht (howner.symm.trans heq)
  exact hholder

/-! ## The host calls of a holder -/

theorem HostMutex.lock_cases {h host : HostMutex} {t : Tid} {error : Errno}
    (hlock : h.lock p t = some (host, error)) (hzero : error = 0) :
    (h.holder = none ∧ host = h.acquire t) ∨
    (h.holder = some t ∧ h.count < p.recursionLimit ∧ host = { h with count := h.count + 1 }) := by
  unfold HostMutex.lock HostMutex.relock at hlock
  subst error
  cases hh : h.holder with
  | none =>
    rw [hh] at hlock
    exact .inl ⟨rfl, by simpa [eq_comm] using hlock⟩
  | some u =>
    rw [hh] at hlock
    by_cases hu : u = t
    · subst u
      cases htype : h.type <;> simp only [htype, if_true] at hlock
      · cases hlock
      · split at hlock
        · rename_i hlt
          exact .inr ⟨rfl, hlt, by simpa [eq_comm] using hlock⟩
        · simp [EAGAIN] at hlock
      · simp [EDEADLK] at hlock
    · simp [hu] at hlock

theorem HostMutex.trylock_cases {h host : HostMutex} {t : Tid} {error : Errno}
    (hlock : h.trylock p t = (host, error)) (hzero : error = 0) :
    (h.holder = none ∧ host = h.acquire t) ∨
    (h.holder = some t ∧ h.count < p.recursionLimit ∧ host = { h with count := h.count + 1 }) := by
  unfold HostMutex.trylock HostMutex.relock at hlock
  subst error
  cases hh : h.holder with
  | none =>
    rw [hh] at hlock
    exact .inl ⟨rfl, by simpa [eq_comm] using hlock⟩
  | some u =>
    rw [hh] at hlock
    simp only at hlock
    split at hlock
    · rename_i hu
      obtain ⟨rfl, -⟩ := hu
      split at hlock
      · rename_i hlt
        exact .inr ⟨rfl, hlt, by simpa [eq_comm] using hlock⟩
      · simp [EAGAIN] at hlock
    · simp [EBUSY] at hlock

/-- The holder unlocks without an error. -/
theorem HostMutex.unlock_holder {h : HostMutex} {t : Tid} (hh : h.holder = some t) :
    h.unlock t = (if 1 < h.count then { h with count := h.count - 1 }
      else { h with holder := none, count := 0 }, 0) := by
  unfold HostMutex.unlock
  rw [if_pos (.inl hh)]
  split <;> rfl

/-! ## One access of a thread -/

/-- The record of a call is right when it begins. -/
theorem Agreed.enter (h : Agreed p s) {t : Tid} (ht : t ∈ s.live) (hpc : s.pc t = .idle)
    (op : Op) (m : Addr) : Fresh (s.view t) (p.mutexCurrentOwner t) (enter p s t op m) := by
  have hneutral : ∀ o, s.view t m = some o → Neutral (p.mutexCurrentOwner t) o := fun o ho =>
    (h.good t ht).neutral m o ho (by simp [hpc, Pc.changing])
  unfold MutexBridge.enter
  cases ho : s.object m with
  | none => simp [Fresh, State.view, ho]
  | some o =>
    by_cases hheld : o.host.holder = some t
    · have hview : s.view t m = some o := State.view_eq_some.mpr ⟨ho, hheld⟩
      simp [Fresh, hview, hneutral o hview, (hneutral o hview).1]
    · have hview : s.view t m = none := by simp [State.view, ho, hheld]
      have hother : o.mutexOwner ≠ p.mutexCurrentOwner t := by
        intro heq
        exact hheld (h.holder_of_token ht ho heq)
      simp [Fresh, hview, hother]

theorem Fresh.cases {view : Addr → Option Object} {cur : Nat} {c : Call} (h : Fresh view cur c) :
    (c.owned = true ∧ ∃ o, view c.mutex = some o ∧ c.depth = o.mutexDepth ∧ Neutral cur o) ∨
    (c.owned = false ∧ view c.mutex = none) := by
  unfold Fresh at h
  cases hv : view c.mutex with
  | none => exact .inr ⟨by simpa [hv] using h, rfl⟩
  | some o =>
    rw [hv] at h
    exact .inl ⟨h.1, o, rfl, h.2⟩

/-- What a fresh call reads in the owner word agrees with its record. -/
theorem Agreed.owner_iff (h : Agreed p s) {t : Tid} (ht : t ∈ s.live) {c : Call} {o : Object}
    (hfresh : Fresh (s.view t) (p.mutexCurrentOwner t) c) (ho : s.object c.mutex = some o) :
    o.mutexOwner = p.mutexCurrentOwner t ↔ c.owned = true := by
  constructor
  · intro heq
    have hv := State.view_eq_some.mpr ⟨ho, h.holder_of_token ht ho heq⟩
    rcases hfresh.cases with ⟨howned, -⟩ | ⟨-, hnone⟩
    · exact howned
    · simp [hv] at hnone
  · intro howned
    rcases hfresh.cases with ⟨-, q, hv, -, hn⟩ | ⟨hnot, -⟩
    · have := (State.view_eq_some.mp hv).1
      obtain rfl : o = q := Option.some.inj (ho.symm.trans this)
      exact hn.1
    · simp [howned] at hnot

/-- A thread writes a shadow word of a mutex that it holds. -/
theorem Agreed.shadow (h : Agreed p s) {t : Tid} (ht : t ∈ s.live) {m : Addr}
    (htarget : (s.pc t).target = some m) {o o' : Object} (hv : s.view t m = some o)
    (hhost : o'.host = o.host) {pc : Pc}
    (hhere : Here (Function.update (s.view t) m (some o')) (p.mutexCurrentOwner t) pc)
    (hneutral : pc.changing ≠ some m → Neutral (p.mutexCurrentOwner t) o') :
    Agreed p ((s.setObject m o').goto t pc) := by
  obtain ⟨ho, hholder⟩ := State.view_eq_some.mp hv
  obtain ⟨-, hcount⟩ := h.held m o t ho hholder
  apply h.change ht ho (.inl hholder)
  · rw [hhost]
    exact .inl ⟨hholder, hcount⟩
  · rw [hhost, if_pos hholder]
    refine (h.good t ht).write htarget hhere ?_
    intro q hq hc
    obtain rfl : o' = q := by simpa using hq
    exact hneutral hc

theorem acquired_agreed {t : Tid} {c : Call} {error : Errno}
    (h : Agreed p (s.goto t (.returned c error))) : Agreed p (s.acquired t c error) := by
  unfold State.acquired
  split
  · exact h.handoff _
  · exact h

theorem unlocked_agreed {t : Tid} {c : Call}
    (h : Agreed p (s.goto t (.returned c (if c.op.beginsHandoff then 1 else 0)))) :
    Agreed p (s.unlocked t c) := by
  unfold State.unlocked
  cases hop : c.op <;> simp only [hop, Op.beginsHandoff] at h ⊢
  case handoffBegin => exact h.handoff _
  all_goals exact h

/-- Where a call goes when it has found its mutex. -/
theorem Good.found {view : Addr → Option Object} {cur : Nat} {pc : Pc} {c : Call}
    (h : Good view cur pc) (hpc : pc.changing = none) (hfresh : Fresh view cur c) :
    Good view cur c.found := by
  refine h.move ?_ (by simp [hpc])
  unfold Call.found
  cases hop : c.op <;> simp [Here, hop, Op.locks, Op.beginsHandoff, hfresh]

/-- mutex_record_acquired ends with the caller as the owner. -/
theorem outcome_acquired {view : Addr → Option Object} {cur : Nat} {c : Call} {error : Errno}
    {o : Object} (hv : view c.mutex = some o) (hn : Neutral cur o)
    (hc : c.op.locks = true ∨ c.op.waits = true ∧ Passed c 1 ∧ o.mutexDepth = 1) :
    Outcome view cur c error := by
  unfold Outcome
  cases hop : c.op <;> simp only [hop, Op.locks, Op.waits] at hc ⊢ <;> simp_all [Passed]

/-- The host lock, by lock, trylock or handoff_end. -/
theorem hostLock_agreed (h : Agreed p s) {t : Tid} (ht : t ∈ s.live) {c : Call} {o : Object}
    (hpc : s.pc t = .hostLock c) (ho : s.object c.mutex = some o) {host : HostMutex}
    (hhost : (o.host.holder = none ∧ host = o.host.acquire t) ∨
      (o.host.holder = some t ∧ o.host.count < p.recursionLimit ∧
        host = { o.host with count := o.host.count + 1 })) :
    Agreed p ((s.setObject c.mutex { o with host }).goto t (.loadAcquired c 0)) := by
  have hg := h.good t ht
  have hlocks : c.op.locks = true := by
    have := hg.here
    rw [hpc] at this
    exact this
  have htarget : (s.pc t).target = some c.mutex := by rw [hpc]; rfl
  rcases hhost with ⟨hfree, rfl⟩ | ⟨hholder, hlt, rfl⟩
  · apply h.change ht ho (.inr hfree)
    · exact .inl ⟨rfl, Nat.le_refl 1, p.recursionLimit_pos⟩
    · rw [if_pos (show (o.host.acquire t).holder = some t from rfl)]
      refine hg.write htarget ?_ (by simp [Pc.changing])
      have hzero := h.free c.mutex o ho hfree
      exact ⟨_, Function.update_self .., .inl hlocks, .inr ⟨hzero, rfl⟩⟩
  · obtain ⟨-, hone, -⟩ := h.held c.mutex o t ho hholder
    have hn := hg.neutral c.mutex o (State.view_eq_some.mpr ⟨ho, hholder⟩) (by simp [hpc, Pc.changing])
    apply h.change ht ho (.inl hholder)
    · exact .inl ⟨hholder, by simp, hlt⟩
    · rw [if_pos hholder]
      refine hg.write htarget ?_ (by simp [Pc.changing])
      refine ⟨_, Function.update_self .., .inl hlocks, .inl ⟨hlocks, hn.1, ?_⟩⟩
      simp [hn.2]

/-- The test of mutex_record_releasing. -/
theorem releaseLoadDepth_agreed (h : Agreed p s) {t : Tid} (ht : t ∈ s.live) {c : Call} {o : Object}
    {owner : Nat} (hpc : s.pc t = .releaseLoadDepth c owner) (ho : s.object c.mutex = some o) {pc : Pc}
    (hnext : pc = if owner ≠ p.mutexCurrentOwner t ∨ o.mutexDepth = 0 then
        .returned c (c.failure EPERM)
      else if 1 < o.mutexDepth then .releaseStoreDepth c o.mutexDepth
      else .releaseStoreOwner c o.mutexDepth) : Agreed p (s.goto t pc) := by
  have hg := h.good t ht
  rw [hpc] at hg
  obtain ⟨hfresh, hlocks, hbegins, hown⟩ := hg.here
  apply h.goto ht
  refine hg.move ?_ (by simp [Pc.changing])
  rcases hfresh.cases with ⟨howned, q, hq, hdepth, hn⟩ | ⟨howned, -⟩
  · obtain ⟨hoq, hholder⟩ := State.view_eq_some.mp hq
    obtain rfl : o = q := by simpa [ho] using hoq
    obtain ⟨-, hone, -⟩ := h.held c.mutex o t ho hholder
    have howner : owner = p.mutexCurrentOwner t := hown.mpr howned
    have hpos : o.mutexDepth ≠ 0 := by have := hn.2; omega
    have hpassed : ∀ d, o.mutexDepth = d → Passed c d := by
      intro d hd
      refine ⟨hlocks, howned, hdepth.trans hd, ?_⟩
      intro hb
      have := (hbegins hb).2
      omega
    rw [hnext, if_neg (by simp [howner, hpos])]
    by_cases hnested : 1 < o.mutexDepth
    · rw [if_pos hnested]
      exact ⟨o, hq, hn, rfl, hnested, hpassed _ rfl⟩
    · rw [if_neg hnested]
      exact ⟨o, hq, hn, rfl, by omega, hpassed _ rfl⟩
  · have hne : owner ≠ p.mutexCurrentOwner t := by
      intro he
      simp [hown.mp he] at howned
    rw [hnext, if_pos (.inl hne)]
    have hnot : c.op.beginsHandoff = false := by
      by_contra hb
      simp [(hbegins (by simpa using hb)).1] at howned
    simp only [Here, Outcome, Call.failure, hnot]
    cases hop : c.op <;> simp_all [Op.locks, Op.beginsHandoff]

/-- After the release of the shadow: the call goes to the host, or restores the
shadow of a nested mutex that it cannot wait with. -/
theorem Here.released {view : Addr → Option Object} {cur : Nat} {c : Call} {d : Nat} {o : Object}
    (hv : view c.mutex = some o) (hcount : o.host.count = d) (hpassed : Passed c d)
    (hshadow : 1 < d ∧ o.mutexOwner = cur ∧ o.mutexDepth + 1 = d ∨ d = 1 ∧ o.mutexOwner = 0) :
    Here view cur (c.released d) := by
  unfold Call.released
  cases hwaits : c.op.waits with
  | false =>
    simp only [Bool.false_eq_true, if_false]
    exact ⟨o, hv, hcount, hpassed, hwaits, hshadow⟩
  | true =>
    simp only [if_true]
    rcases hshadow with ⟨hlt, howner, -⟩ | ⟨rfl, hzero⟩
    · rw [if_pos (by omega)]
      exact ⟨o, hv, hcount, howner, hlt, hpassed, hwaits, rfl⟩
    · rw [if_neg (by simp)]
      exact ⟨o, hv, hcount, hzero, hpassed, hwaits⟩

theorem changing_released (c : Call) (d : Nat) : (c.released d).changing = some c.mutex := by
  unfold Call.released
  split
  · split <;> rfl
  · rfl

/-- The host unlock of unlock and handoff_begin succeeds. -/
theorem hostUnlock_agreed (h : Agreed p s) {t : Tid} (ht : t ∈ s.live) {c : Call} {d : Nat}
    {o : Object} (hpc : s.pc t = .hostUnlock c d) (hv : s.view t c.mutex = some o) :
    Agreed p ((s.setObject c.mutex { o with host := (o.host.unlock t).1 }).unlocked t c) := by
  have hg := h.good t ht
  obtain ⟨ho, hholder⟩ := State.view_eq_some.mp hv
  have hhere := hg.here
  rw [hpc] at hhere
  obtain ⟨q, hq, hcount, ⟨hlocks, howned, hdepth, hbegins⟩, hwaits, hshadow⟩ := hhere
  obtain rfl : o = q := by simpa [hv] using hq
  have htarget : (s.pc t).target = some c.mutex := by rw [hpc]; rfl
  have houtcome : ∀ view cur, Outcome view cur c (if c.op.beginsHandoff then 1 else 0) := by
    intro view cur
    unfold Outcome
    cases hop : c.op <;> simp_all [Op.locks, Op.waits, Op.beginsHandoff]
  apply unlocked_agreed
  rw [HostMutex.unlock_holder hholder]
  obtain ⟨-, -, hlimit⟩ := h.held c.mutex o t ho hholder
  rcases hshadow with ⟨hlt, howner, hd⟩ | ⟨hone, hzero⟩
  · rw [if_pos (by omega)]
    apply h.change ht ho (.inl hholder)
    · refine .inl ⟨hholder, ?_, ?_⟩
      · simp only; omega
      · simp only; omega
    · rw [if_pos hholder]
      refine hg.write htarget (houtcome _ _) ?_
      intro q hq _
      obtain rfl := Option.some.inj hq
      refine ⟨howner, ?_⟩
      simp only
      omega
  · rw [if_neg (by omega)]
    apply h.change ht ho (.inl hholder)
    · exact .inr ⟨rfl, hzero⟩
    · rw [if_neg (by simp)]
      exact hg.write htarget (houtcome _ _) (by simp)

/-- What the thread knows, by where it is. -/
theorem Agreed.here (h : Agreed p s) {t : Tid} (ht : t ∈ s.live) {pc : Pc} (hpc : s.pc t = pc) :
    Here (s.view t) (p.mutexCurrentOwner t) pc :=
  hpc ▸ (h.good t ht).here

/-- The object that the thread knows about is the one at hand. -/
theorem State.view_same {t : Tid} {m : Addr} {o q : Object} (ho : s.object m = some o)
    (hq : s.view t m = some q) : q = o := by
  have := (State.view_eq_some.mp hq).1
  exact Option.some.inj (this.symm.trans ho)

/-! ## One access to the object of the call -/

section Access

variable {t : Tid} {o : Object} {code : Errno} {s' : State}

/-- The host lock of lock, trylock and handoff_end, with its error. -/
theorem hostLock_step_agreed (h : Agreed p s) (ht : t ∈ s.live) {c : Call}
    (hpc : s.pc t = .hostLock c) (ho : s.object c.mutex = some o)
    (hstep : onObject p s t o code (.hostLock c) = some s') : Agreed p s' := by
  have hg := h.good t ht
  rw [hpc] at hg
  simp only [onObject] at hstep
  split at hstep
  · simp at hstep
  · rename_i host error hlock
    by_cases herror : error = 0
    · rw [if_pos herror] at hstep
      obtain rfl := Option.some.inj hstep
      refine hostLock_agreed h ht hpc ho ?_
      by_cases htry : c.op = .trylock
      · rw [if_pos htry] at hlock
        exact HostMutex.trylock_cases (Option.some.inj hlock) herror
      · rw [if_neg htry] at hlock
        exact HostMutex.lock_cases hlock herror
    · rw [if_neg herror] at hstep
      obtain rfl := Option.some.inj hstep
      have hlocks : c.op.locks = true := hg.here
      apply h.goto ht
      refine hg.move ?_ (by simp [Pc.changing])
      simp only [Here, Outcome]
      cases hop : c.op <;> simp_all [Op.locks]

/-- mutex_record_acquired tells a nested lock from a first one. -/
theorem loadAcquired_agreed (h : Agreed p s) (ht : t ∈ s.live) {c : Call} {error : Errno}
    (hpc : s.pc t = .loadAcquired c error) (ho : s.object c.mutex = some o)
    (hstep : onObject p s t o code (.loadAcquired c error) = some s') : Agreed p s' := by
  have hg := h.good t ht
  obtain ⟨q, hv, hacq, hshadow⟩ := h.here ht hpc
  obtain rfl := State.view_same ho hv
  simp only [onObject] at hstep
  split at hstep
  · rename_i howner
    obtain rfl := Option.some.inj hstep
    apply h.goto ht
    refine hg.move ?_ (by simp [hpc, Pc.changing])
    rcases hshadow with ⟨hlocks, -, hdepth⟩ | ⟨hzero, -⟩
    · exact ⟨q, hv, hlocks, howner, hdepth⟩
    · exact absurd (howner.symm.trans hzero) (p.mutexCurrentOwner_ne_zero t)
  · rename_i howner
    obtain rfl := Option.some.inj hstep
    apply h.goto ht
    refine hg.move ?_ (by simp [hpc, Pc.changing])
    rcases hshadow with ⟨-, hcur, -⟩ | ⟨hzero, hcount⟩
    · exact absurd hcur howner
    · exact ⟨q, hv, hacq, hzero, hcount⟩

/-- A nested lock counts in the shadow: the host count bounds the depth, so it does not wrap. -/
theorem addDepth_agreed (h : Agreed p s) (ht : t ∈ s.live) {c : Call} {error : Errno}
    (hpc : s.pc t = .addDepth c error) (ho : s.object c.mutex = some o)
    (hstep : onObject p s t o code (.addDepth c error) = some s') : Agreed p s' := by
  obtain ⟨q, hv, hlocks, howner, hdepth⟩ := h.here ht hpc
  obtain rfl := State.view_same ho hv
  obtain rfl := Option.some.inj hstep
  obtain ⟨-, -, hlimit⟩ := h.held c.mutex q t ho (State.view_eq_some.mp hv).2
  -- the host count bounds the depth, so the addition does not wrap
  have hsum : (q.mutexDepth + 1) % 2 ^ 32 = q.host.count := by
    have hmax := p.recursionLimit_le
    simp only [UINT32_MAX] at hmax
    rw [hdepth]
    exact Nat.mod_eq_of_lt (by omega)
  apply acquired_agreed
  apply h.shadow ht (by rw [hpc]; rfl) hv
  · rfl
  · exact outcome_acquired (Function.update_self ..) ⟨howner, hsum⟩ (.inl hlocks)
  · exact fun _ => ⟨howner, hsum⟩

theorem storeDepthOne_agreed (h : Agreed p s) (ht : t ∈ s.live) {c : Call} {error : Errno}
    (hpc : s.pc t = .storeDepthOne c error) (ho : s.object c.mutex = some o)
    (hstep : onObject p s t o code (.storeDepthOne c error) = some s') : Agreed p s' := by
  obtain ⟨q, hv, hacq, hzero, hcount⟩ := h.here ht hpc
  obtain rfl := State.view_same ho hv
  obtain rfl := Option.some.inj hstep
  apply h.shadow ht (by rw [hpc]; rfl) hv
  · rfl
  · exact ⟨_, Function.update_self .., hacq, hzero, hcount, rfl⟩
  · simp [Pc.changing]

/-- A first lock, or a wait that is over, makes the caller the owner. -/
theorem storeOwner_agreed (h : Agreed p s) (ht : t ∈ s.live) {c : Call} {error : Errno}
    (hpc : s.pc t = .storeOwner c error) (ho : s.object c.mutex = some o)
    (hstep : onObject p s t o code (.storeOwner c error) = some s') : Agreed p s' := by
  obtain ⟨q, hv, hacq, hzero, hcount, hdepth⟩ := h.here ht hpc
  obtain rfl := State.view_same ho hv
  obtain rfl := Option.some.inj hstep
  have hn : Neutral (p.mutexCurrentOwner t) { q with mutexOwner := p.mutexCurrentOwner t } :=
    ⟨rfl, hdepth.trans hcount.symm⟩
  apply acquired_agreed
  apply h.shadow ht (by rw [hpc]; rfl) hv
  · rfl
  · refine outcome_acquired (Function.update_self ..) hn ?_
    rcases hacq with hlocks | ⟨hwaits, hpassed⟩
    · exact .inl hlocks
    · exact .inr ⟨hwaits, hpassed, hdepth⟩
  · exact fun _ => hn

/-- handoff_begin turns away a caller that is not the owner. -/
theorem handoffOwner_agreed (h : Agreed p s) (ht : t ∈ s.live) {c : Call}
    (hpc : s.pc t = .handoffOwner c) (ho : s.object c.mutex = some o)
    (hstep : onObject p s t o code (.handoffOwner c) = some s') : Agreed p s' := by
  have hg := h.good t ht
  obtain ⟨hfresh, hbegins⟩ := h.here ht hpc
  simp only [onObject] at hstep
  split at hstep
  · rename_i howner
    obtain rfl := Option.some.inj hstep
    apply h.goto ht
    refine hg.move ?_ (by simp [hpc, Pc.changing])
    have howned : c.owned = false := by simpa [h.owner_iff ht hfresh ho] using howner
    simp only [Here, Outcome]
    cases hop : c.op <;> simp_all [Op.beginsHandoff]
  · rename_i howner
    obtain rfl := Option.some.inj hstep
    apply h.goto ht
    refine hg.move ?_ (by simp [hpc, Pc.changing])
    exact ⟨hfresh, hbegins, (h.owner_iff ht hfresh ho).mp (by simpa using howner)⟩

/-- handoff_begin turns away a nested owner. -/
theorem handoffDepth_agreed (h : Agreed p s) (ht : t ∈ s.live) {c : Call}
    (hpc : s.pc t = .handoffDepth c) (ho : s.object c.mutex = some o)
    (hstep : onObject p s t o code (.handoffDepth c) = some s') : Agreed p s' := by
  have hg := h.good t ht
  obtain ⟨hfresh, hbegins, howned⟩ := h.here ht hpc
  have hdepth : c.depth = o.mutexDepth := by
    rcases hfresh.cases with ⟨-, q, hv, hdepth, -⟩ | ⟨hnot, -⟩
    · exact State.view_same ho hv ▸ hdepth
    · simp [howned] at hnot
  simp only [onObject] at hstep
  split at hstep
  · rename_i hne
    obtain rfl := Option.some.inj hstep
    apply h.goto ht
    refine hg.move ?_ (by simp [hpc, Pc.changing])
    simp only [Here, Outcome]
    cases hop : c.op <;> simp_all [Op.beginsHandoff]
  · rename_i hone
    obtain rfl := Option.some.inj hstep
    apply h.goto ht
    refine hg.move ⟨hfresh, ?_, fun _ => ⟨howned, by omega⟩⟩ (by simp [hpc, Pc.changing])
    cases hop : c.op <;> simp_all [Op.beginsHandoff, Op.locks]

theorem releaseLoadOwner_agreed (h : Agreed p s) (ht : t ∈ s.live) {c : Call}
    (hpc : s.pc t = .releaseLoadOwner c) (ho : s.object c.mutex = some o)
    (hstep : onObject p s t o code (.releaseLoadOwner c) = some s') : Agreed p s' := by
  have hg := h.good t ht
  obtain ⟨hfresh, hlocks, hbegins⟩ := h.here ht hpc
  obtain rfl := Option.some.inj hstep
  apply h.goto ht
  exact hg.move ⟨hfresh, hlocks, hbegins, h.owner_iff ht hfresh ho⟩ (by simp [hpc, Pc.changing])

theorem releaseLoadDepth_step_agreed (h : Agreed p s) (ht : t ∈ s.live) {c : Call} {owner : Nat}
    (hpc : s.pc t = .releaseLoadDepth c owner) (ho : s.object c.mutex = some o)
    (hstep : onObject p s t o code (.releaseLoadDepth c owner) = some s') : Agreed p s' := by
  simp only [onObject] at hstep
  have hs' : s' = s.goto t (if owner ≠ p.mutexCurrentOwner t ∨ o.mutexDepth = 0 then
        .returned c (c.failure EPERM)
      else if 1 < o.mutexDepth then .releaseStoreDepth c o.mutexDepth
      else .releaseStoreOwner c o.mutexDepth) := by
    split at hstep
    · rw [if_pos ‹_›]; exact (Option.some.inj hstep).symm
    · rw [if_neg ‹_›]
      split at hstep
      · rw [if_pos ‹_›]; exact (Option.some.inj hstep).symm
      · rw [if_neg ‹_›]; exact (Option.some.inj hstep).symm
  rw [hs']
  exact releaseLoadDepth_agreed h ht hpc ho rfl

/-- The release of a nested mutex. -/
theorem releaseStoreDepth_agreed (h : Agreed p s) (ht : t ∈ s.live) {c : Call} {d : Nat}
    (hpc : s.pc t = .releaseStoreDepth c d) (ho : s.object c.mutex = some o)
    (hstep : onObject p s t o code (.releaseStoreDepth c d) = some s') : Agreed p s' := by
  obtain ⟨q, hv, hn, hdepth, hlt, hpassed⟩ := h.here ht hpc
  obtain rfl := State.view_same ho hv
  obtain rfl := Option.some.inj hstep
  have hcount : q.host.count = d := hn.2.symm.trans hdepth
  apply h.shadow ht (by rw [hpc]; rfl) hv
  · rfl
  · refine Here.released (Function.update_self ..) hcount hpassed (.inl ⟨hlt, hn.1, ?_⟩)
    simp only
    omega
  · intro hc
    exact absurd (changing_released c d) hc

/-- The release of the last level gives the owner up first. -/
theorem releaseStoreOwner_agreed (h : Agreed p s) (ht : t ∈ s.live) {c : Call} {d : Nat}
    (hpc : s.pc t = .releaseStoreOwner c d) (ho : s.object c.mutex = some o)
    (hstep : onObject p s t o code (.releaseStoreOwner c d) = some s') : Agreed p s' := by
  obtain ⟨q, hv, hn, hdepth, hone, hpassed⟩ := h.here ht hpc
  obtain rfl := State.view_same ho hv
  obtain rfl := Option.some.inj hstep
  apply h.shadow ht (by rw [hpc]; rfl) hv
  · rfl
  · exact ⟨_, Function.update_self .., rfl, by rw [← hone, ← hdepth]; exact hn.2.symm, hone, hpassed⟩
  · simp [Pc.changing]

theorem releaseStoreZero_agreed (h : Agreed p s) (ht : t ∈ s.live) {c : Call} {d : Nat}
    (hpc : s.pc t = .releaseStoreZero c d) (ho : s.object c.mutex = some o)
    (hstep : onObject p s t o code (.releaseStoreZero c d) = some s') : Agreed p s' := by
  obtain ⟨q, hv, hzero, hcount, hone, hpassed⟩ := h.here ht hpc
  obtain rfl := State.view_same ho hv
  obtain rfl := Option.some.inj hstep
  apply h.shadow ht (by rw [hpc]; rfl) hv
  · rfl
  · exact Here.released (Function.update_self ..) (hcount.trans hone.symm) hpassed
      (.inr ⟨hone, hzero⟩)
  · intro hc
    exact absurd (changing_released c d) hc

/-- The host unlock of unlock and handoff_begin. -/
theorem hostUnlock_step_agreed (h : Agreed p s) (ht : t ∈ s.live) {c : Call} {d : Nat}
    (hpc : s.pc t = .hostUnlock c d) (ho : s.object c.mutex = some o)
    (hstep : onObject p s t o code (.hostUnlock c d) = some s') : Agreed p s' := by
  obtain ⟨q, hv, -⟩ := h.here ht hpc
  obtain rfl := State.view_same ho hv
  have hunlock := HostMutex.unlock_holder (State.view_eq_some.mp hv).2
  have hagreed := hostUnlock_agreed h ht hpc hv
  simp only [onObject, hunlock] at hstep hagreed
  obtain rfl := Option.some.inj hstep
  exact hagreed

/-- A wait with a nested mutex fails and puts the shadow back. -/
theorem restoreDepth_agreed (h : Agreed p s) (ht : t ∈ s.live) {c : Call} {d : Nat} {error : Errno}
    (hpc : s.pc t = .restoreDepth c d error) (ho : s.object c.mutex = some o)
    (hstep : onObject p s t o code (.restoreDepth c d error) = some s') : Agreed p s' := by
  obtain ⟨q, hv, hcount, howner, hlt, hpassed, hwaits, herror⟩ := h.here ht hpc
  obtain rfl := State.view_same ho hv
  obtain rfl := Option.some.inj hstep
  apply h.shadow ht (by rw [hpc]; rfl) hv
  · rfl
  · exact ⟨_, Function.update_self .., hcount, howner, rfl, hlt, hpassed, hwaits, herror⟩
  · simp [Pc.changing]

theorem restoreOwner_agreed (h : Agreed p s) (ht : t ∈ s.live) {c : Call} {d : Nat} {error : Errno}
    (hpc : s.pc t = .restoreOwner c d error) (ho : s.object c.mutex = some o)
    (hstep : onObject p s t o code (.restoreOwner c d error) = some s') : Agreed p s' := by
  obtain ⟨q, hv, hcount, howner, hdepth, hlt, ⟨hlocks, howned, hcd, hbegins⟩, hwaits, herror⟩ :=
    h.here ht hpc
  obtain rfl := State.view_same ho hv
  obtain rfl := Option.some.inj hstep
  have hn : Neutral (p.mutexCurrentOwner t) { q with mutexOwner := p.mutexCurrentOwner t } :=
    ⟨rfl, hdepth.trans hcount.symm⟩
  apply h.shadow ht (by rw [hpc]; rfl) hv
  · rfl
  · have hfailure : c.failure error = EINVAL := by
      rw [Call.failure, herror]
      cases hop : c.op <;> simp_all [Op.waits, Op.beginsHandoff]
    have hout : ∃ o, Function.update (s.view t) c.mutex
        (some { q with mutexOwner := p.mutexCurrentOwner t }) c.mutex = some o ∧
        Neutral (p.mutexCurrentOwner t) o ∧ o.mutexDepth = c.depth ∧
        (c.depth ≠ 1 → c.failure error = EINVAL) :=
      ⟨_, Function.update_self .., hn, hdepth.trans hcd.symm, fun _ => hfailure⟩
    simp only [Here, Outcome]
    cases hop : c.op <;> simp only [hop, Op.waits] at hwaits ⊢ <;> first
      | exact absurd hwaits (by decide)
      | (rw [if_pos howned]; exact hout)
  · exact fun _ => hn

/-- The host wait gives the mutex up, or fails at once. -/
theorem hostWait_agreed (h : Agreed p s) (ht : t ∈ s.live) {c : Call}
    (hpc : s.pc t = .hostWait c) (ho : s.object c.mutex = some o)
    (hstep : onObject p s t o code (.hostWait c) = some s') : Agreed p s' := by
  have hg := h.good t ht
  obtain ⟨q, hv, hcount, hzero, hpassed, hwaits⟩ := h.here ht hpc
  obtain rfl := State.view_same ho hv
  have hholder := (State.view_eq_some.mp hv).2
  simp only [onObject, HostMutex.unlock_holder hholder, hcount] at hstep
  split at hstep
  · obtain rfl := Option.some.inj hstep
    apply h.change ht ho (.inl hholder)
    · exact .inr ⟨rfl, hzero⟩
    · rw [if_neg (by simp)]
      exact hg.write (by rw [hpc]; rfl) ⟨Function.update_self .., hpassed, hwaits⟩ (by simp)
  · obtain rfl := Option.some.inj hstep
    apply h.goto ht
    refine hg.move ?_ (by simp [hpc, Pc.changing])
    exact ⟨q, hv, .inr ⟨hwaits, hpassed⟩, .inr ⟨hzero, hcount⟩⟩

/-- The wait is over when the host mutex is free. -/
theorem waiting_agreed (h : Agreed p s) (ht : t ∈ s.live) {c : Call}
    (hpc : s.pc t = .waiting c) (ho : s.object c.mutex = some o)
    (hstep : onObject p s t o code (.waiting c) = some s') : Agreed p s' := by
  have hg := h.good t ht
  obtain ⟨hv, hpassed, hwaits⟩ := h.here ht hpc
  simp only [onObject] at hstep
  split at hstep
  · rename_i hfree
    obtain rfl := Option.some.inj hstep
    apply h.change ht ho (.inr hfree)
    · exact .inl ⟨rfl, Nat.le_refl 1, p.recursionLimit_pos⟩
    · rw [if_pos (show (o.host.acquire t).holder = some t from rfl)]
      refine hg.write (by rw [hpc]; rfl) ?_ (by simp [Pc.changing])
      exact ⟨_, Function.update_self .., .inr ⟨hwaits, hpassed⟩,
        .inr ⟨h.free c.mutex o ho hfree, rfl⟩⟩
  · simp at hstep

theorem onObject_agreed (h : Agreed p s) (ht : t ∈ s.live) {m : Addr}
    (htarget : (s.pc t).target = some m) (ho : s.object m = some o)
    (hstep : onObject p s t o code (s.pc t) = some s') : Agreed p s' := by
  have hmutex : ∀ {c : Call}, (s.pc t).target = some c.mutex → s.object c.mutex = some o := by
    intro c hc
    rw [Option.some.inj (hc.symm.trans htarget)]
    exact ho
  cases hpc : s.pc t with
  | idle | findCond | find | create | returned | notFound => simp [hpc, Pc.target] at htarget
  | hostLock c =>
    rw [hpc] at hstep hmutex
    exact hostLock_step_agreed h ht hpc (hmutex rfl) hstep
  | loadAcquired c error =>
    rw [hpc] at hstep hmutex
    exact loadAcquired_agreed h ht hpc (hmutex rfl) hstep
  | addDepth c error =>
    rw [hpc] at hstep hmutex
    exact addDepth_agreed h ht hpc (hmutex rfl) hstep
  | storeDepthOne c error =>
    rw [hpc] at hstep hmutex
    exact storeDepthOne_agreed h ht hpc (hmutex rfl) hstep
  | storeOwner c error =>
    rw [hpc] at hstep hmutex
    exact storeOwner_agreed h ht hpc (hmutex rfl) hstep
  | handoffOwner c =>
    rw [hpc] at hstep hmutex
    exact handoffOwner_agreed h ht hpc (hmutex rfl) hstep
  | handoffDepth c =>
    rw [hpc] at hstep hmutex
    exact handoffDepth_agreed h ht hpc (hmutex rfl) hstep
  | releaseLoadOwner c =>
    rw [hpc] at hstep hmutex
    exact releaseLoadOwner_agreed h ht hpc (hmutex rfl) hstep
  | releaseLoadDepth c owner =>
    rw [hpc] at hstep hmutex
    exact releaseLoadDepth_step_agreed h ht hpc (hmutex rfl) hstep
  | releaseStoreDepth c d =>
    rw [hpc] at hstep hmutex
    exact releaseStoreDepth_agreed h ht hpc (hmutex rfl) hstep
  | releaseStoreOwner c d =>
    rw [hpc] at hstep hmutex
    exact releaseStoreOwner_agreed h ht hpc (hmutex rfl) hstep
  | releaseStoreZero c d =>
    rw [hpc] at hstep hmutex
    exact releaseStoreZero_agreed h ht hpc (hmutex rfl) hstep
  | hostUnlock c d =>
    rw [hpc] at hstep hmutex
    exact hostUnlock_step_agreed h ht hpc (hmutex rfl) hstep
  | restoreDepth c d error =>
    rw [hpc] at hstep hmutex
    exact restoreDepth_agreed h ht hpc (hmutex rfl) hstep
  | restoreOwner c d error =>
    rw [hpc] at hstep hmutex
    exact restoreOwner_agreed h ht hpc (hmutex rfl) hstep
  | hostWait c =>
    rw [hpc] at hstep hmutex
    exact hostWait_agreed h ht hpc (hmutex rfl) hstep
  | waiting c =>
    rw [hpc] at hstep hmutex
    exact waiting_agreed h ht hpc (hmutex rfl) hstep

end Access

theorem act_agreed (h : Agreed p s) {t : Tid} (ht : t ∈ s.live) {code : Errno} {raw : Nat}
    {s' : State} (hstep : act p s t code raw = some s') : Agreed p s' := by
  have hg := h.good t ht
  unfold act at hstep
  split at hstep
  · rename_i c hpc
    rw [hpc] at hg
    split at hstep <;> obtain rfl := Option.some.inj hstep
    · exact h.goto ht (hg.move hg.here (by simp [Pc.changing]))
    · exact h.goto ht (hg.move trivial (by simp [Pc.changing]))
  · rename_i c hpc
    rw [hpc] at hg
    split at hstep <;> obtain rfl := Option.some.inj hstep
    · exact h.goto ht (hg.found rfl hg.here)
    · exact h.goto ht (hg.move hg.here (by simp [Pc.changing]))
  · rename_i c hpc
    rw [hpc] at hg
    split at hstep
    · obtain rfl := Option.some.inj hstep
      exact h.goto ht (hg.found rfl hg.here)
    · rename_i hnone
      split at hstep
      · obtain rfl := Option.some.inj hstep
        exact h.goto ht (hg.move trivial (by simp [Pc.changing]))
      · rename_i type htype
        split at hstep <;> obtain rfl := Option.some.inj hstep
        · obtain ⟨hpublished, hview⟩ := h.publish (by simpa using hnone) type
          refine hpublished.goto ht ?_
          rw [hview]
          exact hg.found rfl hg.here
        · exact h.goto ht (hg.move trivial (by simp [Pc.changing]))
  · split at hstep
    · simp at hstep
    · rename_i m htarget
      obtain ⟨o, ho, hon⟩ := Option.bind_eq_some_iff.mp hstep
      exact onObject_agreed h ht htarget ho hon

theorem start_agreed (h : Agreed p s) {t : Tid} (ht : t ∈ s.live) (hpc : s.pc t = .idle) (op : Op)
    (m : Addr) : Agreed p (start p s t op m) := by
  have hg := h.good t ht
  have hfresh := h.enter ht hpc op m
  rw [hpc] at hg
  have hfind : Agreed p (s.goto t (.find (enter p s t op m))) :=
    h.goto ht (hg.move hfresh (by simp [Pc.changing]))
  unfold start
  cases op with
  | lock | trylock | unlock => exact hfind
  | condWait | condTimedwait => exact h.goto ht (hg.move hfresh (by simp [Pc.changing]))
  | handoffBegin handoff => exact hfind.handoff _
  | handoffEnd handoff =>
    simp only
    split
    · rename_i n hn
      refine h.goto ht (hg.move ?_ (by simp [Pc.changing]))
      simp only [Here, MutexBridge.enter]
      split <;> rfl
    · exact h.goto ht (hg.move trivial (by simp [Pc.changing]))

theorem step_agreed (h : Agreed p s) {e : Event} {s' : State} (hstep : step p s e = some s') :
    Agreed p s' := by
  cases e with
  | spawn t =>
    simp only [step, Option.ite_none_right_eq_some, Option.some.injEq] at hstep
    obtain ⟨⟨hnew, htoken⟩, rfl⟩ := hstep
    have hidle := h.idle t hnew
    have hview : ∀ m, s.view t m = none := by
      intro m
      cases hv : s.view t m with
      | none => rfl
      | some o =>
        obtain ⟨ho, hholder⟩ := State.view_eq_some.mp hv
        exact absurd (h.held m o t ho hholder).1 hnew
    refine ⟨?_, List.nodup_cons.mpr ⟨hnew, h.nodup⟩, ?_, h.mutexes, h.free, ?_, ?_⟩
    · intro u hu v hv heq
      rcases List.mem_cons.mp hu with rfl | hu' <;> rcases List.mem_cons.mp hv with rfl | hv'
      · rfl
      · exact absurd heq.symm (htoken v hv')
      · exact absurd heq (htoken u hu')
      · exact h.tokens u hu' v hv' heq
    · intro u hu
      exact h.idle u fun hm => hu (List.mem_cons_of_mem _ hm)
    · intro m o u ho hu
      obtain ⟨hlive, hcount⟩ := h.held m o u ho hu
      exact ⟨List.mem_cons_of_mem _ hlive, hcount⟩
    · intro u hu
      rcases List.mem_cons.mp hu with rfl | hu
      · change Good (s.view u) _ (s.pc u)
        rw [hidle]
        refine ⟨trivial, ?_⟩
        intro m o ho
        simp [hview m] at ho
      · exact h.good u hu
  | exit t =>
    simp only [step, Option.ite_none_right_eq_some, Option.some.injEq] at hstep
    obtain ⟨⟨ht, hidle, hfree⟩, rfl⟩ := hstep
    refine ⟨?_, h.nodup.erase t, ?_, h.mutexes, h.free, ?_, ?_⟩
    · intro u hu v hv
      exact h.tokens u (List.mem_of_mem_erase hu) v (List.mem_of_mem_erase hv)
    · intro u hu
      by_cases hut : u = t
      · exact hut ▸ hidle
      · exact h.idle u fun hm => hu ((List.mem_erase_of_ne hut).mpr hm)
    · intro m o u ho hu
      obtain ⟨hlive, hcount⟩ := h.held m o u ho hu
      have hut : u ≠ t := by
        rintro rfl
        have hbind : (s.object m).bind (fun o => o.host.holder) = some u := by
          rw [show s.object m = some o from ho]
          exact hu
        exact hfree m (h.mutexes m o ho) hbind
      exact ⟨(List.mem_erase_of_ne hut).mpr hlive, hcount⟩
    · intro u hu
      exact h.good u (List.mem_of_mem_erase hu)
  | init m type =>
    cases hm : s.object m with
    | some o =>
      simp only [step, hm, Option.isSome_some, if_true, Option.some.injEq] at hstep
      exact hstep ▸ h
    | none =>
      simp only [step, hm, Option.isSome_none, Bool.false_eq_true, if_false,
        Option.some.injEq] at hstep
      exact hstep ▸ (h.publish hm type).1
  | call t op m =>
    simp only [step, Option.ite_none_right_eq_some, Option.some.injEq] at hstep
    obtain ⟨⟨ht, hpc⟩, rfl⟩ := hstep
    exact start_agreed h ht hpc op m
  | act t code raw =>
    simp only [step, Option.ite_none_right_eq_some] at hstep
    exact act_agreed h hstep.1 hstep.2
  | resume t =>
    have hidle : ∀ pc, s.pc t = pc → pc.changing = none → t ∈ s.live →
        Agreed p (s.goto t .idle) := by
      intro pc hpc hchanging ht
      refine h.goto ht ((h.good t ht).move trivial ?_)
      simp [hpc, hchanging]
    simp only [step] at hstep
    split at hstep
    · rename_i c result hpc
      simp only [Option.ite_none_right_eq_some, Option.some.injEq] at hstep
      obtain ⟨ht, rfl⟩ := hstep
      exact hidle _ hpc rfl ht
    · rename_i c result hpc
      simp only [Option.ite_none_right_eq_some, Option.some.injEq] at hstep
      obtain ⟨ht, rfl⟩ := hstep
      exact hidle _ hpc rfl ht
    · simp at hstep

/-! ## The shadow agrees -/

/-- The call of a thread that is inside the bridge. -/
def Pc.call : Pc → Option Call
  | .idle => none
  | .findCond c | .find c | .create c | .hostLock c | .loadAcquired c _ | .addDepth c _
  | .storeDepthOne c _ | .storeOwner c _ | .handoffOwner c | .handoffDepth c
  | .releaseLoadOwner c | .releaseLoadDepth c _ | .releaseStoreDepth c _
  | .releaseStoreOwner c _ | .releaseStoreZero c _ | .hostUnlock c _ | .restoreDepth c _ _
  | .restoreOwner c _ _ | .hostWait c | .waiting c | .returned c _ | .notFound c _ => some c

/-- An unlock or wait of a thread that was not the owner at its start, or a
handoff_begin of one that was not the owner at depth one. -/
def Call.denied (c : Call) : Prop :=
  (c.op = .unlock ∨ c.op.waits = true) ∧ c.owned = false ∨
  c.op.beginsHandoff = true ∧ (c.owned = false ∨ c.depth ≠ 1)

/-- The thread is between two calls of the bridge. -/
def Pc.between : Pc → Bool
  | .idle | .returned _ _ | .notFound _ _ => true
  | _ => false

/-- Ownership as the bridge records it and as the host has it. -/
structure OwnershipAgrees (p : Platform) (s : State) : Prop where
  holder : ∀ m o, s.object m = some o → o.mutexOwner ≠ 0 →
    ∃ t ∈ s.live, o.mutexOwner = p.mutexCurrentOwner t ∧ o.host.holder = some t
  depth : ∀ t ∈ s.live, (s.pc t).between = true → ∀ m o, s.object m = some o →
    (o.mutexOwner = p.mutexCurrentOwner t ↔ o.host.holder = some t) ∧
    (o.host.holder = some t → o.host.count = o.mutexDepth ∧ 1 ≤ o.mutexDepth)
  denied : ∀ t ∈ s.live, ∀ c result, s.pc t = .returned c result → c.owned = false →
    c.op = .unlock ∨ c.op.waits = true → result = EPERM
  handoffDenied : ∀ t ∈ s.live, ∀ c result, s.pc t = .returned c result →
    c.op.beginsHandoff = true → c.owned = false ∨ c.depth ≠ 1 → result = 0
  untouched : ∀ t c, (s.pc t).call = some c → c.denied → ∀ code raw s',
    step p s (.act t code raw) = some s' → ∀ m o, s.object m = some o → s'.object m = some o
  nested : ∀ t ∈ s.live, ∀ c result, s.pc t = .returned c result → c.op.waits = true →
    c.owned = true → c.depth ≠ 1 → result = EINVAL ∧
      ∃ o, s.object c.mutex = some o ∧ o.mutexOwner = p.mutexCurrentOwner t ∧
        o.mutexDepth = c.depth
  waited : ∀ t ∈ s.live, ∀ c result, s.pc t = .returned c result → c.op.waits = true →
    c.owned = true → c.depth = 1 →
      ∃ o, s.object c.mutex = some o ∧ o.mutexOwner = p.mutexCurrentOwner t ∧
        o.mutexDepth = 1 ∧ o.host.holder = some t ∧ o.host.count = 1

theorem Call.not_denied_of_locks {c : Call} (h : c.op.locks = true) : ¬ c.denied := by
  unfold Call.denied
  cases hop : c.op <;> simp_all [Op.locks, Op.waits, Op.beginsHandoff]

theorem Passed.not_denied {c : Call} {d : Nat} (h : Passed c d) : ¬ c.denied := by
  obtain ⟨-, howned, hdepth, hbegins⟩ := h
  rintro (⟨-, hnot⟩ | ⟨hb, hnot | hne⟩)
  · simp [howned] at hnot
  · simp [howned] at hnot
  · exact hne (hdepth.trans (hbegins hb))

theorem Acquires.not_denied {c : Call} (h : Acquires c) : ¬ c.denied := by
  rcases h with hlocks | ⟨-, hpassed⟩
  · exact Call.not_denied_of_locks hlocks
  · exact hpassed.not_denied

/-- The accesses of the bridge that change no object that exists. -/
def Pc.reads : Pc → Bool
  | .idle | .findCond _ | .find _ | .create _ | .handoffOwner _ | .handoffDepth _
  | .releaseLoadOwner _ | .releaseLoadDepth _ _ | .returned _ _ | .notFound _ _ => true
  | _ => false

/-- While a call is denied, the thread stays in front of every store and host call. -/
theorem Here.denied_reads {view : Addr → Option Object} {cur : Nat} {pc : Pc} {c : Call}
    (h : Here view cur pc) (hcall : pc.call = some c) (hdenied : c.denied) : pc.reads = true := by
  cases pc with
  | idle | findCond | find | create | handoffOwner | handoffDepth | releaseLoadOwner
  | releaseLoadDepth | returned | notFound => rfl
  | hostLock d =>
    obtain rfl := Option.some.inj hcall
    exact absurd hdenied (Call.not_denied_of_locks h)
  | loadAcquired d e | storeDepthOne d e | storeOwner d e =>
    obtain rfl := Option.some.inj hcall
    obtain ⟨o, -, hacq, -⟩ := h
    exact absurd hdenied hacq.not_denied
  | addDepth d e =>
    obtain rfl := Option.some.inj hcall
    obtain ⟨o, -, hlocks, -⟩ := h
    exact absurd hdenied (Call.not_denied_of_locks hlocks)
  | releaseStoreDepth d n | releaseStoreOwner d n | releaseStoreZero d n =>
    obtain rfl := Option.some.inj hcall
    obtain ⟨o, -, -, -, -, hpassed⟩ := h
    exact absurd hdenied hpassed.not_denied
  | hostUnlock d n =>
    obtain rfl := Option.some.inj hcall
    obtain ⟨o, -, -, hpassed, -⟩ := h
    exact absurd hdenied hpassed.not_denied
  | restoreDepth d n e =>
    obtain rfl := Option.some.inj hcall
    obtain ⟨o, -, -, -, -, hpassed, -⟩ := h
    exact absurd hdenied hpassed.not_denied
  | restoreOwner d n e =>
    obtain rfl := Option.some.inj hcall
    obtain ⟨o, -, -, -, -, -, hpassed, -⟩ := h
    exact absurd hdenied hpassed.not_denied
  | hostWait d =>
    obtain rfl := Option.some.inj hcall
    obtain ⟨o, -, -, -, hpassed, -⟩ := h
    exact absurd hdenied hpassed.not_denied
  | waiting d =>
    obtain rfl := Option.some.inj hcall
    exact absurd hdenied h.2.1.not_denied

/-- An access that only reads leaves every object as it is. -/
theorem reads_untouched {t : Tid} {code : Errno} {raw : Nat} {s' : State}
    (hreads : (s.pc t).reads = true) (hstep : act p s t code raw = some s') {m : Addr} {o : Object}
    (ho : s.object m = some o) : s'.object m = some o := by
  cases hpc : s.pc t with
  | idle | returned | notFound => simp [act, hpc, Pc.target] at hstep
  | findCond c | find c =>
    simp only [act, hpc] at hstep
    split at hstep <;> (obtain rfl := Option.some.inj hstep; exact ho)
  | create c =>
    simp only [act, hpc] at hstep
    split at hstep
    · obtain rfl := Option.some.inj hstep
      exact ho
    · rename_i hnone
      have hm : m ≠ c.mutex := by
        rintro rfl
        simp [ho] at hnone
      split at hstep
      · obtain rfl := Option.some.inj hstep
        exact ho
      · split at hstep <;> obtain rfl := Option.some.inj hstep
        · simpa [State.goto, State.publish, State.setObject, hm] using ho
        · exact ho
  | handoffOwner c | handoffDepth c =>
    simp only [act, hpc, Pc.target, Option.bind_eq_some_iff, onObject] at hstep
    obtain ⟨q, -, hq⟩ := hstep
    split at hq <;> (obtain rfl := Option.some.inj hq; exact ho)
  | releaseLoadOwner c =>
    simp only [act, hpc, Pc.target, Option.bind_eq_some_iff, onObject] at hstep
    obtain ⟨q, -, hq⟩ := hstep
    obtain rfl := Option.some.inj hq
    exact ho
  | releaseLoadDepth c owner =>
    simp only [act, hpc, Pc.target, Option.bind_eq_some_iff, onObject] at hstep
    obtain ⟨q, -, hq⟩ := hstep
    split at hq
    · obtain rfl := Option.some.inj hq
      exact ho
    · split at hq <;> (obtain rfl := Option.some.inj hq; exact ho)
  | hostLock | loadAcquired | addDepth | storeDepthOne | storeOwner | releaseStoreDepth
  | releaseStoreOwner | releaseStoreZero | hostUnlock | restoreDepth | restoreOwner | hostWait
  | waiting => simp [hpc, Pc.reads] at hreads

theorem Pc.changing_of_between {pc : Pc} (h : pc.between = true) : pc.changing = none := by
  cases pc <;> simp_all [Pc.between, Pc.changing]

theorem Agreed.ownershipAgrees (h : Agreed p s) : OwnershipAgrees p s := by
  have hreturned : ∀ t ∈ s.live, ∀ c result, s.pc t = .returned c result →
      Outcome (s.view t) (p.mutexCurrentOwner t) c result := by
    intro t ht c result hpc
    have := (h.good t ht).here
    rwa [hpc] at this
  have hwait : ∀ t ∈ s.live, ∀ c result, s.pc t = .returned c result → c.op.waits = true →
      if c.owned then ∃ o, s.view t c.mutex = some o ∧ Neutral (p.mutexCurrentOwner t) o ∧
        o.mutexDepth = c.depth ∧ (c.depth ≠ 1 → result = EINVAL) else result = EPERM := by
    intro t ht c result hpc hwaits
    have hout := hreturned t ht c result hpc
    unfold Outcome at hout
    cases hop : c.op <;> simp only [hop, Op.waits] at hwaits hout <;> first
      | exact hout
      | exact absurd hwaits (by decide)
  refine ⟨?_, ?_, ?_, ?_, ?_, ?_, ?_⟩
  · intro m o ho hne
    exact h.holder_of_owner ho hne
  · intro t ht hbetween m o ho
    have hneutral : o.host.holder = some t → Neutral (p.mutexCurrentOwner t) o := fun hh =>
      (h.good t ht).neutral m o (State.view_eq_some.mpr ⟨ho, hh⟩)
        (by rw [Pc.changing_of_between hbetween]; simp)
    refine ⟨⟨h.holder_of_token ht ho, fun hh => (hneutral hh).1⟩, ?_⟩
    intro hh
    obtain ⟨-, hone, -⟩ := h.held m o t ho hh
    have := (hneutral hh).2
    omega
  · intro t ht c result hpc hnot hop
    rcases hop with hunlock | hwaits
    · have hout := hreturned t ht c result hpc
      simpa [Outcome, hunlock, hnot] using hout
    · have hout := hwait t ht c result hpc hwaits
      simpa [hnot] using hout
  · intro t ht c result hpc hbegins hnot
    have hout := hreturned t ht c result hpc
    have hne : ¬ (c.owned = true ∧ c.depth = 1) := by
      rintro ⟨howned, hdepth⟩
      rcases hnot with hnot | hnot
      · simp [howned] at hnot
      · exact hnot hdepth
    cases hop : c.op <;> simp only [hop, Op.beginsHandoff, reduceCtorEq] at hbegins
    rw [Outcome, hop] at hout
    simpa [hne] using hout
  · intro t c hcall hdenied code raw s' hstep m o ho
    simp only [step, Option.ite_none_right_eq_some] at hstep
    have hhere := (h.good t hstep.1).here
    exact reads_untouched (hhere.denied_reads hcall hdenied) hstep.2 ho
  · intro t ht c result hpc hwaits howned hdepth
    have hout := hwait t ht c result hpc hwaits
    rw [if_pos howned] at hout
    obtain ⟨o, hv, hn, hd, hresult⟩ := hout
    exact ⟨hresult hdepth, o, (State.view_eq_some.mp hv).1, hn.1, hd⟩
  · intro t ht c result hpc hwaits howned hdepth
    have hout := hwait t ht c result hpc hwaits
    rw [if_pos howned] at hout
    obtain ⟨o, hv, hn, hd, -⟩ := hout
    obtain ⟨ho, hholder⟩ := State.view_eq_some.mp hv
    have hone := hd.trans hdepth
    exact ⟨o, ho, hn.1, hone, hholder, hn.2.symm.trans hone⟩

/-- In every state of every run the shadow agrees with the host. -/
theorem mutex_ownership (p : Platform) (es : List Event) (s : State)
    (hrun : run (step p) initial es = some s) : OwnershipAgrees p s := by
  have hagreed : Agreed p s :=
    run_invariant (fun _ _ _ h hstep => step_agreed h hstep) (initial_agreed p) hrun
  exact hagreed.ownershipAgrees

/-- The thread numbers are the tokens, and a mutex can be locked twice. -/
def smallPlatform : Platform := ⟨fun t => t, 2, by decide, by decide⟩

/-- Thread 1 locks a recursive mutex twice; its wait fails, and thread 2 cannot unlock. -/
def nestedWait : List Event :=
  let lock := [.call 1 .lock 64, .act 1 0 0x4000, .act 1 0 0x4000, .act 1 0 0, .act 1 0 0]
  [.spawn 1, .spawn 2] ++ lock ++ [.act 1 0 0, .act 1 0 0, .resume 1,
    .call 1 .lock 64, .act 1 0 0, .act 1 0 0, .act 1 0 0, .act 1 0 0, .resume 1,
    .call 2 .unlock 64, .act 2 0 0, .act 2 0 0, .act 2 0 0,
    .call 1 .condWait 64, .act 1 0 0, .act 1 0 0, .act 1 0 0, .act 1 0 0, .act 1 0 0,
    .act 1 0 0, .act 1 0 0]

theorem mutex_ownership_nested :
    ∃ s, run (step smallPlatform) initial nestedWait = some s ∧
      s.pc 1 = .returned ⟨.condWait, 64, true, 2⟩ 22 ∧
      s.pc 2 = .returned ⟨.unlock, 64, false, 2⟩ 1 ∧ OwnershipAgrees smallPlatform s :=
  ⟨_, rfl, by decide, by decide, mutex_ownership smallPlatform nestedWait _ rfl⟩

end Asm2Runtime.MutexBridge
