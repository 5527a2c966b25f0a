import Asm2Runtime.MutexOwner

/-!
# A mutex that is lent and taken back

asm2_pthread_mutex_handoff_begin gives up a mutex that the caller owns at depth one, and
handoff_end takes it again. What a thread holds is changed by its own calls only, so
other threads can lock and unlock the mutex in between as they like.
-/

namespace Asm2Runtime.MutexBridge

open Transition

variable {p : Platform} {s s' : State} {t : Tid}

section Others

/-- The call works on this handoff. -/
def Op.uses (g : HandoffId) : Op → Bool
  | .handoffBegin h | .handoffEnd h => h == g
  | _ => false

/-- What an access of thread `t` leaves alone. -/
structure Acted (s s' : State) (t : Tid) : Prop where
  live : s'.live = s.live
  call : (s'.pc t).call = (s.pc t).call
  pc : ∀ u, u ≠ t → s'.pc u = s.pc u
  view : ∀ u, u ≠ t → s'.view u = s.view u
  handoff : ∀ g, (∀ c, (s.pc t).call = some c → c.op.uses g = false) →
    s'.handoff g = s.handoff g
  objects : ∀ n, (s.object n).isSome = true → (s'.object n).isSome = true

theorem object_isSome (s : State) (m : Addr) (o : Object) (n : Addr)
    (h : (s.object n).isSome = true) : ((s.setObject m o).object n).isSome = true := by
  by_cases hn : n = m
  · simp [State.setObject, hn]
  · simpa [State.setObject, hn] using h

theorem Acted.goto {pc : Pc} (hcall : pc.call = (s.pc t).call) : Acted s (s.goto t pc) t where
  live := rfl
  call := by rw [pc_goto_self]; exact hcall
  pc := fun u hu => pc_goto_of_ne s pc hu
  view := fun _ _ => rfl
  handoff := fun _ _ => rfl
  objects := fun _ ho => ho

/-- An object that nobody else holds is changed. -/
theorem Acted.change {c : Call} {o o' : Object} {pc : Pc} (hpc : (s.pc t).call = some c)
    (ho : s.object c.mutex = some o) (hbefore : o.host.holder = some t ∨ o.host.holder = none)
    (hafter : o'.host.holder = some t ∨ o'.host.holder = none) (hcall : pc.call = some c) :
    Acted s ((s.setObject c.mutex o').goto t pc) t where
  live := rfl
  call := by rw [pc_goto_self, hcall, hpc]
  pc := fun u hu => pc_goto_of_ne _ pc hu
  view := by
    intro u hu
    have hold : s.view u c.mutex = none := by
      rcases hbefore with hh | hh <;> simp [State.view, ho, hh, Ne.symm hu]
    have hnew : o'.host.holder ≠ some u := by
      rcases hafter with hh | hh <;> simp [hh, Ne.symm hu]
    rw [view_setObject, if_neg hnew, ← hold, Function.update_eq_self]
  handoff := fun _ _ => rfl
  objects := object_isSome s c.mutex o'

/-- The call also writes its own handoff. -/
theorem Acted.withHandoff {c : Call} {h : HandoffId} {held : Option Addr} (hacted : Acted s s' t)
    (hpc : (s.pc t).call = some c) (huses : c.op.uses h = true) :
    Acted s { s' with handoff := Function.update s'.handoff h held } t where
  live := hacted.live
  call := hacted.call
  pc := hacted.pc
  view := hacted.view
  handoff := by
    intro g hg
    have hne : g ≠ h := by
      rintro rfl
      rw [hg c hpc] at huses
      cases huses
    exact (Function.update_of_ne hne held s'.handoff).trans (hacted.handoff g hg)
  objects := hacted.objects

theorem Acted.acquired {c : Call} {error : Errno} (hpc : (s.pc t).call = some c)
    (hacted : Acted s (s'.goto t (.returned c error)) t) : Acted s (s'.acquired t c error) t := by
  unfold State.acquired
  cases hop : c.op with
  | handoffEnd h => exact hacted.withHandoff hpc (by simp [hop, Op.uses])
  | _ => exact hacted

theorem Acted.unlocked {c : Call} (hpc : (s.pc t).call = some c)
    (hacted : ∀ result, Acted s (s'.goto t (.returned c result)) t) :
    Acted s (s'.unlocked t c) t := by
  unfold State.unlocked
  cases hop : c.op with
  | handoffBegin h => exact (hacted 1).withHandoff hpc (by simp [hop, Op.uses])
  | _ => exact hacted 0

theorem target_mutex {pc : Pc} {m : Addr} {c : Call} (htarget : pc.target = some m)
    (hcall : pc.call = some c) : m = c.mutex := by
  cases pc with
  | idle | findCond | find | create | returned | notFound => cases htarget
  | _ =>
    obtain rfl := Option.some.inj hcall
    exact (Option.some.inj htarget).symm

theorem call_found (c : Call) : c.found.call = some c := by
  unfold Call.found
  cases c.op <;> rfl

theorem call_released (c : Call) (depth : Nat) : (c.released depth).call = some c := by
  unfold Call.released
  split
  · split <;> rfl
  · rfl

/-- The thread changes an object that it holds, and holds it still. -/
theorem Acted.shadow {c : Call} {o o' : Object} {pc : Pc} (hpc : (s.pc t).call = some c)
    (hv : s.view t c.mutex = some o) (hhost : o'.host = o.host) (hcall : pc.call = some c) :
    Acted s ((s.setObject c.mutex o').goto t pc) t := by
  obtain ⟨ho, hholder⟩ := State.view_eq_some.mp hv
  exact .change hpc ho (.inl hholder) (.inl (by rw [hhost]; exact hholder)) hcall

theorem HostMutex.unlock_holder_cases (h : HostMutex) (hh : h.holder = some t) :
    (h.unlock t).1.holder = some t ∨ (h.unlock t).1.holder = none := by
  rw [HostMutex.unlock_holder hh]
  split
  · exact .inl hh
  · exact .inr rfl

theorem hostLock_acted {c : Call} {o : Object} (hpc : s.pc t = .hostLock c)
    (ho : s.object c.mutex = some o) {code : Errno}
    (hstep : onObject p s t o code (.hostLock c) = some s') : Acted s s' t := by
  have hcall : (s.pc t).call = some c := by rw [hpc]; rfl
  simp only [onObject] at hstep
  split at hstep
  · cases hstep
  · rename_i host error hlock
    split at hstep
    · rename_i hzero
      obtain rfl := Option.some.inj hstep
      have hcases : (o.host.holder = none ∧ host = o.host.acquire t) ∨
          (o.host.holder = some t ∧ o.host.count < p.recursionLimit ∧
            host = { o.host with count := o.host.count + 1 }) := by
        split at hlock
        · exact HostMutex.trylock_cases (Option.some.inj hlock) hzero
        · exact HostMutex.lock_cases hlock hzero
      rcases hcases with ⟨hfree, rfl⟩ | ⟨hheld, -, rfl⟩
      · exact .change hcall ho (.inr hfree) (.inl rfl) rfl
      · exact .change hcall ho (.inl hheld) (.inl hheld) rfl
    · obtain rfl := Option.some.inj hstep
      exact .goto (by rw [hcall]; rfl)

/-- The accesses that read a shadow word. -/
def Pc.loads : Pc → Bool
  | .loadAcquired _ _ | .handoffOwner _ | .handoffDepth _ | .releaseLoadOwner _
  | .releaseLoadDepth _ _ => true
  | _ => false

theorem load_acted {pc : Pc} {o : Object} {code : Errno} (hloads : pc.loads = true)
    (hpc : s.pc t = pc) (hstep : onObject p s t o code pc = some s') : Acted s s' t := by
  cases pc with
  | loadAcquired c error | handoffOwner c | handoffDepth c =>
    simp only [onObject] at hstep
    split at hstep <;> obtain rfl := Option.some.inj hstep <;> exact .goto (by rw [hpc]; rfl)
  | releaseLoadOwner c =>
    obtain rfl := Option.some.inj hstep
    exact .goto (by rw [hpc]; rfl)
  | releaseLoadDepth c owner =>
    simp only [onObject] at hstep
    split at hstep
    · obtain rfl := Option.some.inj hstep
      exact .goto (by rw [hpc]; rfl)
    · split at hstep <;> obtain rfl := Option.some.inj hstep <;> exact .goto (by rw [hpc]; rfl)
  | _ => cases hloads

/-- The accesses that store to a shadow word. -/
def Pc.stores : Pc → Bool
  | .addDepth _ _ | .storeOwner _ _ | .storeDepthOne _ _ | .restoreDepth _ _ _
  | .restoreOwner _ _ _ | .releaseStoreDepth _ _ | .releaseStoreOwner _ _
  | .releaseStoreZero _ _ => true
  | _ => false

/-- A thread stores to a mutex that it holds. -/
theorem Here.object {view : Addr → Option Object} {cur : Nat} {pc : Pc} {c : Call}
    (hhere : Here view cur pc) (hstores : pc.stores = true) (hcall : pc.call = some c) :
    ∃ q, view c.mutex = some q := by
  cases pc with
  | addDepth | storeOwner | storeDepthOne | restoreDepth | restoreOwner | releaseStoreDepth
  | releaseStoreOwner | releaseStoreZero =>
    obtain rfl := Option.some.inj hcall
    obtain ⟨q, hv, -⟩ := hhere
    exact ⟨q, hv⟩
  | _ => cases hstores

theorem store_acted {pc : Pc} {c : Call} {o : Object} {code : Errno} (hstores : pc.stores = true)
    (hpc : s.pc t = pc) (hcall : pc.call = some c) (hv : s.view t c.mutex = some o)
    (hstep : onObject p s t o code pc = some s') : Acted s s' t := by
  have hcalls : (s.pc t).call = some c := by rw [hpc]; exact hcall
  cases pc with
  | addDepth c error | storeOwner c error =>
    obtain rfl := Option.some.inj hcall
    obtain rfl := Option.some.inj hstep
    exact .acquired hcalls (.shadow hcalls hv rfl rfl)
  | storeDepthOne c error | restoreDepth c d error | restoreOwner c d error
  | releaseStoreOwner c d =>
    obtain rfl := Option.some.inj hcall
    obtain rfl := Option.some.inj hstep
    exact .shadow hcalls hv rfl rfl
  | releaseStoreDepth c d | releaseStoreZero c d =>
    obtain rfl := Option.some.inj hcall
    obtain rfl := Option.some.inj hstep
    exact .shadow hcalls hv rfl (call_released c d)
  | _ => cases hstores

theorem hostUnlock_acted {c : Call} {d : Nat} {o : Object} {code : Errno}
    (hpc : s.pc t = .hostUnlock c d) (hv : s.view t c.mutex = some o)
    (hstep : onObject p s t o code (.hostUnlock c d) = some s') : Acted s s' t := by
  have hcall : (s.pc t).call = some c := by rw [hpc]; rfl
  obtain ⟨ho, hholder⟩ := State.view_eq_some.mp hv
  have hunlock := HostMutex.unlock_holder hholder
  have hafter := HostMutex.unlock_holder_cases o.host hholder
  rw [hunlock] at hafter
  simp only [onObject, hunlock] at hstep
  obtain rfl := Option.some.inj hstep
  exact .unlocked hcall fun result => .change hcall ho (.inl hholder) hafter rfl

theorem hostWait_acted {c : Call} {o : Object} {code : Errno} (hpc : s.pc t = .hostWait c)
    (hv : s.view t c.mutex = some o) (hstep : onObject p s t o code (.hostWait c) = some s') :
    Acted s s' t := by
  have hcall : (s.pc t).call = some c := by rw [hpc]; rfl
  obtain ⟨ho, hholder⟩ := State.view_eq_some.mp hv
  simp only [onObject] at hstep
  split at hstep <;> obtain rfl := Option.some.inj hstep
  · exact .change hcall ho (.inl hholder) (HostMutex.unlock_holder_cases o.host hholder) rfl
  · exact .goto (by rw [hcall]; rfl)

theorem waiting_acted {c : Call} {o : Object} {code : Errno} (hpc : s.pc t = .waiting c)
    (ho : s.object c.mutex = some o) (hstep : onObject p s t o code (.waiting c) = some s') :
    Acted s s' t := by
  simp only [onObject] at hstep
  split at hstep
  · rename_i hfree
    obtain rfl := Option.some.inj hstep
    exact .change (by rw [hpc]; rfl) ho (.inr hfree) (.inl rfl) rfl
  · cases hstep

theorem onObject_acted (h : Agreed p s) (ht : t ∈ s.live) {m : Addr} {o : Object} {code : Errno}
    (htarget : (s.pc t).target = some m) (ho : s.object m = some o)
    (hstep : onObject p s t o code (s.pc t) = some s') : Acted s s' t := by
  have hview : ∀ {c : Call} {q : Object}, (s.pc t).target = some c.mutex →
      s.view t c.mutex = some q → s.view t c.mutex = some o := by
    intro c q hc hq
    obtain rfl := Option.some.inj (hc.symm.trans htarget)
    rw [hq, State.view_same ho hq]
  cases hpc : s.pc t with
  | idle | findCond | find | create | returned | notFound =>
    rw [hpc] at htarget
    cases htarget
  | hostLock c =>
    rw [hpc] at htarget hstep
    obtain rfl := Option.some.inj htarget
    exact hostLock_acted hpc ho hstep
  | loadAcquired | handoffOwner | handoffDepth | releaseLoadOwner | releaseLoadDepth =>
    rw [hpc] at hstep
    exact load_acted rfl hpc hstep
  | addDepth | storeOwner | storeDepthOne | restoreDepth | restoreOwner | releaseStoreDepth
  | releaseStoreOwner | releaseStoreZero =>
    rw [hpc] at hstep hview
    obtain ⟨q, hq⟩ := (h.here ht hpc).object rfl rfl
    exact store_acted rfl hpc rfl (hview rfl hq) hstep
  | hostUnlock c d =>
    rw [hpc] at hstep hview
    obtain ⟨q, hq, -⟩ := h.here ht hpc
    exact hostUnlock_acted hpc (hview rfl hq) hstep
  | hostWait c =>
    rw [hpc] at hstep hview
    obtain ⟨q, hq, -⟩ := h.here ht hpc
    exact hostWait_acted hpc (hview rfl hq) hstep
  | waiting c =>
    rw [hpc] at htarget hstep
    obtain rfl := Option.some.inj htarget
    exact waiting_acted hpc ho hstep

/-- A new object is free, so nobody sees it. -/
theorem Acted.publish {c : Call} {type : MutexType} {pc : Pc} (hpc : (s.pc t).call = some c)
    (hview : (s.publish c.mutex type).view = s.view) (hcall : pc.call = some c) :
    Acted s ((s.publish c.mutex type).goto t pc) t where
  live := rfl
  call := by rw [pc_goto_self, hcall, hpc]
  pc := fun u hu => pc_goto_of_ne _ pc hu
  view := fun u _ => congrFun hview u
  handoff := fun _ _ => rfl
  objects := object_isSome s c.mutex (.fresh type)

theorem act_acted (h : Agreed p s) (ht : t ∈ s.live) {code : Errno} {raw : Nat}
    (hstep : act p s t code raw = some s') : Acted s s' t := by
  unfold act at hstep
  split at hstep
  · rename_i c hpc
    split at hstep <;> obtain rfl := Option.some.inj hstep <;> exact .goto (by rw [hpc]; rfl)
  · rename_i c hpc
    split at hstep <;> obtain rfl := Option.some.inj hstep
    · exact .goto (by rw [hpc, call_found]; rfl)
    · exact .goto (by rw [hpc]; rfl)
  · rename_i c hpc
    have hcall : (s.pc t).call = some c := by rw [hpc]; rfl
    split at hstep
    · obtain rfl := Option.some.inj hstep
      exact .goto (by rw [hcall, call_found])
    · rename_i hnone
      split at hstep
      · obtain rfl := Option.some.inj hstep
        exact .goto (by rw [hcall]; rfl)
      · rename_i type _
        split at hstep <;> obtain rfl := Option.some.inj hstep
        · exact .publish hcall (h.publish (by simpa using hnone) type).2 (call_found c)
        · exact .goto (by rw [hcall]; rfl)
  · split at hstep
    · cases hstep
    · rename_i m htarget
      obtain ⟨o, ho, hon⟩ := Option.bind_eq_some_iff.mp hstep
      exact onObject_acted h ht htarget ho hon

/-- The thread that makes the event. -/
def Event.thread : Event → Option Tid
  | .spawn t | .exit t | .call t _ _ | .act t _ _ | .resume t => some t
  | .init _ _ => none

def Event.uses (g : HandoffId) : Event → Bool
  | .call _ op _ => op.uses g
  | _ => false

/-- No call of another thread works on this handoff. -/
def Quiet (s : State) (u : Tid) (g : HandoffId) : Prop :=
  ∀ t, t ≠ u → ∀ c, (s.pc t).call = some c → c.op.uses g = false

/-- What an event of other threads leaves of thread `u`. -/
structure Aside (s s' : State) (u : Tid) (g : HandoffId) : Prop where
  live : u ∈ s.live → u ∈ s'.live
  pc : s'.pc u = s.pc u
  view : s'.view u = s.view u
  handoff : s'.handoff g = s.handoff g
  objects : ∀ n, (s.object n).isSome = true → (s'.object n).isSome = true
  quiet : Quiet s' u g

variable {u : Tid} {g : HandoffId}

/-- The thread goes on to where its call does not work on the handoff. -/
theorem Quiet.goto (h : Quiet s u g) {pc : Pc} (hcall : ∀ c, pc.call = some c → c.op.uses g = false) :
    Quiet (s.goto t pc) u g := by
  intro v hv c hc
  by_cases hvt : v = t
  · rw [hvt, pc_goto_self] at hc
    exact hcall c hc
  · rw [pc_goto_of_ne s pc hvt] at hc
    exact h v hv c hc

theorem Acted.aside (h : Acted s s' t) (hne : u ≠ t) (hquiet : Quiet s u g) : Aside s s' u g where
  live := fun hu => by rw [h.live]; exact hu
  pc := h.pc u hne
  view := h.view u hne
  handoff := h.handoff g fun c hc => hquiet t (Ne.symm hne) c hc
  objects := h.objects
  quiet := by
    intro v hv c hc
    by_cases hvt : v = t
    · rw [hvt, h.call] at hc
      exact hquiet t (Ne.symm hne) c hc
    · rw [h.pc v hvt] at hc
      exact hquiet v hv c hc

/-- The thread itself moves. -/
theorem Acted.quiet (h : Acted s s' u) (hquiet : Quiet s u g) : Quiet s' u g := by
  intro v hv c hc
  rw [h.pc v hv] at hc
  exact hquiet v hv c hc

theorem enter_op (s : State) (t : Tid) (op : Op) (m : Addr) : (enter p s t op m).op = op := by
  unfold enter
  split <;> rfl

theorem enter_mutex (s : State) (t : Tid) (op : Op) (m : Addr) :
    (enter p s t op m).mutex = m := by
  unfold enter
  split <;> rfl

theorem goto_aside {pc : Pc} (hne : u ≠ t) (hquiet : Quiet s u g)
    (hcall : ∀ c, pc.call = some c → c.op.uses g = false) : Aside s (s.goto t pc) u g :=
  ⟨id, pc_goto_of_ne s pc hne, rfl, rfl, fun _ ho => ho, hquiet.goto hcall⟩

theorem start_aside {op : Op} {m : Addr} (hne : u ≠ t) (huses : op.uses g = false)
    (hquiet : Quiet s u g) : Aside s (start p s t op m) u g := by
  have hcall : ∀ n c, c = enter p s t op n → c.op.uses g = false := by
    rintro n c rfl
    rw [enter_op]
    exact huses
  have hfind : Aside s (s.goto t (.find (enter p s t op m))) u g :=
    goto_aside hne hquiet fun c hc => hcall m c (Option.some.inj hc).symm
  unfold start
  cases op with
  | lock | trylock | unlock => exact hfind
  | condWait | condTimedwait =>
    exact goto_aside hne hquiet fun c hc => hcall m c (Option.some.inj hc).symm
  | handoffBegin h =>
    have hg : g ≠ h := by
      rintro rfl
      simp [Op.uses] at huses
    have hhandoff := Function.update_of_ne hg none s.handoff
    exact ⟨hfind.live, hfind.pc, hfind.view, hhandoff, hfind.objects, hfind.quiet⟩
  | handoffEnd h =>
    dsimp only
    split
    · exact goto_aside hne hquiet fun c hc => hcall _ c (Option.some.inj hc).symm
    · exact goto_aside hne hquiet fun c hc => hcall _ c (Option.some.inj hc).symm

/-- Whatever the other threads do. -/
theorem step_aside (h : Agreed p s) {e : Event} (hother : e.thread ≠ some u)
    (huses : e.uses g = false) (hquiet : Quiet s u g) (hstep : step p s e = some s') :
    Aside s s' u g := by
  have hne : ∀ {t}, e.thread = some t → u ≠ t := by
    rintro t ht rfl
    exact hother ht
  cases e with
  | spawn t =>
    simp only [step, Option.ite_none_right_eq_some, Option.some.injEq] at hstep
    obtain ⟨-, rfl⟩ := hstep
    exact ⟨fun hu => List.mem_cons_of_mem t hu, rfl, rfl, rfl, fun _ ho => ho, hquiet⟩
  | exit t =>
    simp only [step, Option.ite_none_right_eq_some, Option.some.injEq] at hstep
    obtain ⟨-, rfl⟩ := hstep
    exact ⟨fun hu => (List.mem_erase_of_ne (hne rfl)).mpr hu, rfl, rfl, rfl, fun _ ho => ho,
      hquiet⟩
  | init m type =>
    cases hm : s.object m with
    | some o =>
      simp only [step, hm, Option.isSome_some, if_true, Option.some.injEq] at hstep
      exact hstep ▸ ⟨id, rfl, rfl, rfl, fun _ ho => ho, hquiet⟩
    | none =>
      simp only [step, hm, Option.isSome_none, Bool.false_eq_true, if_false,
        Option.some.injEq] at hstep
      exact hstep ▸ ⟨id, rfl, congrFun (h.publish hm type).2 u, rfl,
        object_isSome s m (.fresh type), hquiet⟩
  | call t op m =>
    simp only [step, Option.ite_none_right_eq_some, Option.some.injEq] at hstep
    obtain ⟨-, rfl⟩ := hstep
    exact start_aside (hne rfl) huses hquiet
  | act t code raw =>
    simp only [step, Option.ite_none_right_eq_some] at hstep
    exact (act_acted h hstep.1 hstep.2).aside (hne rfl) hquiet
  | resume t =>
    simp only [step] at hstep
    split at hstep
    · simp only [Option.ite_none_right_eq_some, Option.some.injEq] at hstep
      obtain ⟨-, rfl⟩ := hstep
      exact goto_aside (hne rfl) hquiet fun c hc => by cases hc
    · simp only [Option.ite_none_right_eq_some, Option.some.injEq] at hstep
      obtain ⟨-, rfl⟩ := hstep
      exact goto_aside (hne rfl) hquiet fun c hc => by cases hc
    · cases hstep

/-- No call works on this handoff. -/
def Unused (s : State) (g : HandoffId) : Prop :=
  ∀ t c, (s.pc t).call = some c → c.op.uses g = false

theorem Unused.quiet (h : Unused s g) (u : Tid) : Quiet s u g := fun t _ c hc => h t c hc

theorem exists_third (a b : Nat) : ∃ u, a ≠ u ∧ b ≠ u := ⟨a + b + 1, by omega, by omega⟩

/-- An event that does not begin one leaves it so: what another thread could see of it holds of
every thread. -/
theorem step_unused (h : Agreed p s) {e : Event} (huses : e.uses g = false) (hunused : Unused s g)
    (hstep : step p s e = some s') : Unused s' g := by
  intro t c hc
  obtain ⟨u, hut, hother⟩ : ∃ u, t ≠ u ∧ e.thread ≠ some u := by
    obtain ⟨u, hut, hu⟩ := exists_third t (e.thread.getD 0)
    refine ⟨u, hut, ?_⟩
    intro he
    rw [he] at hu
    exact hu rfl
  exact (step_aside h hother huses (hunused.quiet u) hstep).quiet t hut c hc

theorem start_quiet {op : Op} {m : Addr} (hquiet : Quiet s u g) :
    Quiet (start p s u op m) u g := by
  have hgoto : ∀ pc, Quiet (s.goto u pc) u g := by
    intro pc t ht c hc
    rw [pc_goto_of_ne s pc ht] at hc
    exact hquiet t ht c hc
  unfold start
  cases op with
  | handoffBegin h => exact hgoto _
  | handoffEnd h =>
    dsimp only
    split <;> exact hgoto _
  | _ => exact hgoto _

theorem start_live {op : Op} {m : Addr} : (start p s u op m).live = s.live := by
  unfold start
  cases op with
  | handoffEnd h =>
    dsimp only
    split <;> rfl
  | _ => rfl

end Others

section Lending

/-- The shadow and the host agree that the thread holds this once. -/
def Once (cur : Nat) (o : Object) : Prop :=
  o.mutexOwner = cur ∧ o.mutexDepth = 1 ∧ o.host.count = 1

def HeldOnce (cur : Nat) (view : Addr → Option Object) (m : Addr) : Prop :=
  ∃ o, view m = some o ∧ Once cur o

/-- Nothing has changed but for one mutex. -/
def SameBut (m : Addr) (view₀ view : Addr → Option Object) : Prop :=
  ∀ n, n ≠ m → view n = view₀ n

/-- The mutex was held once, and the handoff has it now. -/
structure Given (cur : Nat) (view₀ view : Addr → Option Object) (held : Option Addr) (m : Addr) :
    Prop where
  held : held = some m
  gone : view m = none
  once : HeldOnce cur view₀ m

/-- Where the mutex is while handoff_begin is running. -/
def LendingAt (cur : Nat) (view₀ view : Addr → Option Object) (held : Option Addr) (m : Addr) :
    Pc → Prop
  | .find _ | .create _ | .handoffOwner _ | .handoffDepth _ | .releaseLoadOwner _
  | .releaseLoadDepth _ _ | .releaseStoreOwner _ _ => view m = view₀ m
  | .releaseStoreZero _ _ | .hostUnlock _ _ => HeldOnce cur view₀ m
  | .notFound _ result => result ≠ 1 ∧ view m = view₀ m
  | .returned _ result =>
    result = 1 ∧ Given cur view₀ view held m ∨ result ≠ 1 ∧ view m = view₀ m
  | _ => False

/-- The mutex may have no object yet. -/
def Pc.searches : Pc → Bool
  | .find _ | .create _ | .notFound _ _ => true
  | _ => false

/-- The thread is inside handoff_begin for this mutex. -/
structure Lending (p : Platform) (view₀ : Addr → Option Object) (s : State) (u : Tid)
    (g : HandoffId) (m : Addr) : Prop where
  call : ∃ c, (s.pc u).call = some c ∧ c.op = .handoffBegin g ∧ c.mutex = m
  same : SameBut m view₀ (s.view u)
  here : LendingAt (p.mutexCurrentOwner u) view₀ (s.view u) (s.handoff g) m (s.pc u)
  found : (s.pc u).searches = false → (s.object m).isSome = true

variable {p : Platform} {s s' : State} {u : Tid} {g : HandoffId} {m : Addr}
  {view₀ : Addr → Option Object}

theorem Lending.aside (h : Lending p view₀ s u g m) (haside : Aside s s' u g) :
    Lending p view₀ s' u g m where
  call := by rw [haside.pc]; exact h.call
  same := by rw [haside.view]; exact h.same
  here := by rw [haside.pc, haside.view, haside.handoff]; exact h.here
  found := by
    rw [haside.pc]
    exact fun hp => haside.objects m (h.found hp)

theorem start_lending (s : State) (u : Tid) (g : HandoffId) (m : Addr) :
    Lending p (s.view u) (start p s u (.handoffBegin g) m) u g m where
  call := ⟨enter p s u (.handoffBegin g) m, by simp [start, Pc.call], enter_op s u _ m,
    enter_mutex s u _ m⟩
  same := fun _ _ => rfl
  here := by
    simp only [start, pc_goto_self]
    exact rfl
  found := by simp [start, Pc.searches]

/-- The thread moves without touching an object. -/
theorem Lending.goto (h : Lending p view₀ s u g m) {pc : Pc} (hcall : pc.call = (s.pc u).call)
    (hhere : LendingAt (p.mutexCurrentOwner u) view₀ (s.view u) (s.handoff g) m pc)
    (hfound : pc.searches = false → (s.object m).isSome = true) :
    Lending p view₀ (s.goto u pc) u g m where
  call := by rw [pc_goto_self, hcall]; exact h.call
  same := h.same
  here := by rw [pc_goto_self]; exact hhere
  found := by rw [pc_goto_self]; exact hfound

theorem SameBut.update (h : SameBut m view₀ (s.view u)) (o : Object) (pc : Pc) :
    SameBut m view₀ (((s.setObject m o).goto u pc).view u) := by
  intro n hn
  rw [view_setObject, Function.update_of_ne hn]
  exact h n hn

/-- The thread changes the object of its mutex. -/
theorem Lending.setObject (h : Lending p view₀ s u g m) {o : Object} {pc : Pc}
    (hcall : pc.call = (s.pc u).call)
    (hhere : ∀ view, LendingAt (p.mutexCurrentOwner u) view₀ view (s.handoff g) m pc) :
    Lending p view₀ ((s.setObject m o).goto u pc) u g m where
  call := by rw [pc_goto_self, hcall]; exact h.call
  same := h.same.update o pc
  here := by rw [pc_goto_self]; exact hhere _
  found := fun _ => by simp [State.goto, State.setObject]

/-- What the thread sees of a mutex that it has not given up yet is what it saw. -/
theorem Here.heldOnce {view : Addr → Option Object} {cur : Nat} {c : Call} {d : Nat}
    (hhere : Here view cur (.releaseStoreOwner c d)) (hsame : view c.mutex = view₀ c.mutex) :
    HeldOnce cur view₀ c.mutex := by
  obtain ⟨o, hv, hneutral, hdepth, hone, -⟩ := hhere
  have hd : o.mutexDepth = 1 := hdepth.trans hone
  exact ⟨o, hsame.symm.trans hv, hneutral.1, hd, hneutral.2.symm.trans hd⟩

theorem Call.found_begin {c : Call} (hop : c.op = .handoffBegin g) :
    c.found = .handoffOwner c := by
  simp [Call.found, hop]

theorem Call.released_begin {c : Call} {d : Nat} (hop : c.op = .handoffBegin g) :
    c.released d = .hostUnlock c d := by
  simp [Call.released, hop, Op.waits]

/-- An error is negated, so it is not the 1 of a handoff. -/
theorem Call.failure_ne_one {c : Call} (hop : c.op = .handoffBegin g) (error : Errno) :
    c.failure error ≠ 1 := by
  simp only [Call.failure, hop, Op.beginsHandoff, if_true]
  omega

/-- The object is found or made. -/
theorem lending_found (h : Lending p view₀ s u g m) {c : Call} (hcall : (s.pc u).call = some c)
    (hop : c.op = .handoffBegin g) (hview : s.view u m = view₀ m)
    (hfound : (s.object m).isSome = true) : Lending p view₀ (s.goto u c.found) u g m := by
  rw [Call.found_begin hop]
  exact h.goto (by rw [hcall]; rfl) hview fun _ => hfound

theorem Lending.publish (h : Lending p view₀ s u g m) (hagreed : Agreed p s) {n : Addr}
    (hn : s.object n = none) (type : MutexType) : Lending p view₀ (s.publish n type) u g m where
  call := h.call
  same := by rw [(hagreed.publish hn type).2]; exact h.same
  here := by rw [(hagreed.publish hn type).2]; exact h.here
  found := fun hp => object_isSome s n (.fresh type) m (h.found hp)

/-- The last step of handoff_begin gives the mutex away. -/
theorem lending_unlocked (h : Lending p view₀ s u g m) {c : Call} {o : Object}
    (hop : c.op = .handoffBegin g) (hmutex : c.mutex = m)
    (hfree : o.host.holder = none) (honce : HeldOnce (p.mutexCurrentOwner u) view₀ m) :
    Lending p view₀ ((s.setObject m o).unlocked u c) u g m := by
  have hsame := h.same.update o (.returned c 1)
  unfold State.unlocked
  rw [hop]
  refine ⟨⟨c, by simp [Pc.call], hop, hmutex⟩, hsame, ?_,
    fun _ => by simp [State.goto, State.setObject]⟩
  rw [pc_goto_self]
  refine .inl ⟨rfl, ?_, ?_, honce⟩
  · simp [State.goto, hmutex]
  · have hview := view_setObject s u (.returned c 1) m o u
    simp only [hfree, reduceCtorEq, if_false] at hview
    exact (congrFun hview m).trans (Function.update_self m none (s.view u))

/-- One access of the thread that lends to the object of the mutex. -/
theorem lending_onObject (hagreed : Agreed p s) (hu : u ∈ s.live) (h : Lending p view₀ s u g m)
    {o : Object} {code : Errno} (ho : s.object m = some o)
    (hstep : onObject p s u o code (s.pc u) = some s') : Lending p view₀ s' u g m := by
  obtain ⟨c, hcall, hop, rfl⟩ := h.call
  have hhere := (hagreed.good u hu).here
  have hat := h.here
  have hfound : ∀ pc : Pc, pc.searches = false → (s.object c.mutex).isSome = true :=
    fun _ _ => by rw [ho]; rfl
  cases hpc : s.pc u with
  | handoffOwner d | handoffDepth d =>
    rw [hpc] at hstep hat hcall
    simp only [onObject] at hstep
    split at hstep <;> obtain rfl := Option.some.inj hstep
    · exact h.goto (by rw [hpc]; rfl) (.inr ⟨by decide, hat⟩) (hfound _)
    · exact h.goto (by rw [hpc]; rfl) hat (hfound _)
  | releaseLoadOwner d =>
    rw [hpc] at hstep hat hcall
    obtain rfl := Option.some.inj hstep
    exact h.goto (by rw [hpc]; rfl) hat (hfound _)
  | releaseLoadDepth d owner =>
    rw [hpc] at hstep hat hcall hhere
    obtain rfl := Option.some.inj hcall
    obtain ⟨hfresh, -, hbegins, -⟩ := hhere
    obtain ⟨howned, hdepth⟩ := hbegins (by rw [hop]; rfl)
    have hone : o.mutexDepth = 1 := by
      rcases hfresh.cases with ⟨-, q, hv, hq, -⟩ | ⟨hno, -⟩
      · obtain rfl := Option.some.inj (ho.symm.trans (State.view_eq_some.mp hv).1)
        exact hq.symm.trans hdepth
      · rw [howned] at hno
        cases hno
    simp only [onObject, hone] at hstep
    split at hstep
    · obtain rfl := Option.some.inj hstep
      exact h.goto (by rw [hpc]; rfl) (.inr ⟨Call.failure_ne_one hop EPERM, hat⟩) (hfound _)
    · rw [if_neg (by decide)] at hstep
      obtain rfl := Option.some.inj hstep
      exact h.goto (by rw [hpc]; rfl) hat (hfound _)
  | releaseStoreOwner d depth =>
    rw [hpc] at hstep hat hcall hhere
    obtain rfl := Option.some.inj hcall
    obtain rfl := Option.some.inj hstep
    have honce := hhere.heldOnce hat
    exact h.setObject (by rw [hpc]; rfl) fun _ => honce
  | releaseStoreZero d depth =>
    rw [hpc] at hstep hat hcall
    obtain rfl := Option.some.inj hcall
    obtain rfl := Option.some.inj hstep
    rw [Call.released_begin hop]
    exact h.setObject (by rw [hpc]; rfl) fun _ => hat
  | hostUnlock d depth =>
    rw [hpc] at hstep hat hcall hhere
    obtain rfl := Option.some.inj hcall
    obtain ⟨q, hv, hcount, hpassed, -⟩ := hhere
    obtain ⟨hq, hholder⟩ := State.view_eq_some.mp hv
    obtain rfl := Option.some.inj (ho.symm.trans hq)
    have hone : o.host.count = 1 := hcount.trans (hpassed.2.2.2 (by rw [hop]; rfl))
    have hunlock := HostMutex.unlock_holder hholder
    rw [hone, if_neg (by decide)] at hunlock
    simp only [onObject, hunlock] at hstep
    obtain rfl := Option.some.inj hstep
    exact lending_unlocked h hop rfl rfl hat
  | _ =>
    rw [hpc] at hat hstep
    first | exact hat.elim | cases hstep

/-- One access of the thread that lends. -/
theorem lending_act (hagreed : Agreed p s) (hu : u ∈ s.live) (h : Lending p view₀ s u g m)
    {code : Errno} {raw : Nat} (hstep : act p s u code raw = some s') :
    Lending p view₀ s' u g m := by
  obtain ⟨c, hcall, hop, rfl⟩ := h.call
  have hat := h.here
  unfold act at hstep
  split at hstep
  · rename_i d hpc
    rw [hpc] at hat
    exact hat.elim
  · rename_i d hpc
    rw [hpc] at hat hcall
    obtain rfl := Option.some.inj hcall
    split at hstep
    · rename_i hsome
      obtain rfl := Option.some.inj hstep
      exact lending_found h (by rw [hpc]; rfl) hop hat hsome
    · obtain rfl := Option.some.inj hstep
      exact h.goto (by rw [hpc]; rfl) hat fun hp => by cases hp
  · rename_i d hpc
    rw [hpc] at hat hcall
    obtain rfl := Option.some.inj hcall
    have hself : (s.pc u).call = some d := by rw [hpc]; rfl
    split at hstep
    · rename_i hsome
      obtain rfl := Option.some.inj hstep
      exact lending_found h hself hop hat hsome
    · rename_i hnone
      split at hstep
      · obtain rfl := Option.some.inj hstep
        exact h.goto hself.symm ⟨Call.failure_ne_one hop EINVAL, hat⟩ fun hp => by cases hp
      · rename_i type _
        split at hstep <;> obtain rfl := Option.some.inj hstep
        · have hno : s.object d.mutex = none := by simpa using hnone
          refine lending_found (h.publish hagreed hno type) hself hop ?_ ?_
          · rw [(hagreed.publish hno type).2]
            exact hat
          · simp [State.publish, State.setObject]
        · exact h.goto hself.symm ⟨Call.failure_ne_one hop code, hat⟩ fun hp => by cases hp
  · split at hstep
    · cases hstep
    · rename_i n htarget
      obtain ⟨o, ho, hon⟩ := Option.bind_eq_some_iff.mp hstep
      obtain rfl := target_mutex htarget hcall
      exact lending_onObject hagreed hu h ho hon

end Lending

section Returning

/-- Where the mutex is while handoff_end is running. -/
def ReturningAt (cur : Nat) (view : Addr → Option Object) (m : Addr) : Pc → Prop
  | .hostLock _ => view m = none
  | .loadAcquired _ error =>
    error = 0 ∧ ∃ o, view m = some o ∧ o.mutexOwner = 0 ∧ o.host.count = 1
  | .storeDepthOne _ error | .storeOwner _ error => error = 0
  | .returned _ result => result = 0 ∧ HeldOnce cur view m
  | _ => False

/-- The thread is inside handoff_end for this mutex, which it held once before. -/
structure Returning (p : Platform) (view₀ : Addr → Option Object) (s : State) (u : Tid)
    (g : HandoffId) (m : Addr) : Prop where
  call : ∃ c, (s.pc u).call = some c ∧ c.op = .handoffEnd g ∧ c.mutex = m
  same : SameBut m view₀ (s.view u)
  once : HeldOnce (p.mutexCurrentOwner u) view₀ m
  here : ReturningAt (p.mutexCurrentOwner u) (s.view u) m (s.pc u)
  found : (s.object m).isSome = true

variable {p : Platform} {s s' : State} {u : Tid} {g : HandoffId} {m : Addr}
  {view₀ : Addr → Option Object}

theorem Returning.aside (h : Returning p view₀ s u g m) (haside : Aside s s' u g) :
    Returning p view₀ s' u g m where
  call := by rw [haside.pc]; exact h.call
  same := by rw [haside.view]; exact h.same
  once := h.once
  here := by rw [haside.pc, haside.view]; exact h.here
  found := haside.objects m h.found

theorem start_returning (hsame : SameBut m view₀ (s.view u))
    (h : Given (p.mutexCurrentOwner u) view₀ (s.view u) (s.handoff g) m)
    (hfound : (s.object m).isSome = true) (n : Addr) :
    Returning p view₀ (start p s u (.handoffEnd g) n) u g m := by
  simp only [start, h.held]
  exact {
    call := ⟨enter p s u (.handoffEnd g) m, by simp [Pc.call], enter_op s u _ m,
      enter_mutex s u _ m⟩
    same := hsame
    once := h.once
    here := by rw [pc_goto_self]; exact h.gone
    found := hfound }

theorem Returning.goto (h : Returning p view₀ s u g m) {pc : Pc} (hcall : pc.call = (s.pc u).call)
    (hhere : ReturningAt (p.mutexCurrentOwner u) (s.view u) m pc) :
    Returning p view₀ (s.goto u pc) u g m where
  call := by rw [pc_goto_self, hcall]; exact h.call
  same := h.same
  once := h.once
  here := by rw [pc_goto_self]; exact hhere
  found := h.found

/-- The thread changes the object, which it holds. -/
theorem Returning.setObject (h : Returning p view₀ s u g m) {o : Object} {pc : Pc}
    (hcall : pc.call = (s.pc u).call) (hholder : o.host.holder = some u)
    (hhere : ∀ view, view m = some o → ReturningAt (p.mutexCurrentOwner u) view m pc) :
    Returning p view₀ ((s.setObject m o).goto u pc) u g m where
  call := by rw [pc_goto_self, hcall]; exact h.call
  same := h.same.update o pc
  once := h.once
  here := by
    rw [pc_goto_self]
    refine hhere _ ?_
    rw [view_setObject, if_pos hholder, Function.update_self]
  found := by simp [State.goto, State.setObject]

/-- The host lock is taken from a free mutex, or it waits. -/
theorem returning_hostLock (hagreed : Agreed p s) (h : Returning p view₀ s u g m) {c : Call}
    {o : Object} {code : Errno} (hpc : s.pc u = .hostLock c) (ho : s.object m = some o)
    (hstep : onObject p s u o code (.hostLock c) = some s') : Returning p view₀ s' u g m := by
  obtain ⟨d, hcall, hop, rfl⟩ := h.call
  have hat := h.here
  rw [hpc] at hat hcall
  obtain rfl := Option.some.inj hcall
  have hnot : o.host.holder ≠ some u := by
    intro hholder
    have hview : s.view u c.mutex = some o := State.view_eq_some.mpr ⟨ho, hholder⟩
    cases hview.symm.trans hat
  simp only [onObject, hop, reduceCtorEq, if_false, HostMutex.lock] at hstep
  cases hholder : o.host.holder with
  | some w =>
    have hw : w ≠ u := by
      rintro rfl
      exact hnot hholder
    simp [hholder, hw] at hstep
  | none =>
    have hzero := hagreed.free c.mutex o ho hholder
    simp only [hholder, if_true] at hstep
    obtain rfl := Option.some.inj hstep
    exact h.setObject (by rw [hpc]; rfl) rfl fun _ hview => ⟨rfl, _, hview, hzero, rfl⟩

/-- One access of the thread that takes the mutex back. -/
theorem returning_onObject (hagreed : Agreed p s) (hu : u ∈ s.live)
    (h : Returning p view₀ s u g m) {o : Object} {code : Errno} (ho : s.object m = some o)
    (hstep : onObject p s u o code (s.pc u) = some s') : Returning p view₀ s' u g m := by
  obtain ⟨c, hcall, hop, rfl⟩ := h.call
  have hhere := (hagreed.good u hu).here
  have hat := h.here
  have hseen : ∀ {q}, s.view u c.mutex = some q → q = o ∧ o.host.holder = some u := by
    intro q hq
    obtain ⟨hobject, hholder⟩ := State.view_eq_some.mp hq
    obtain rfl := Option.some.inj (ho.symm.trans hobject)
    exact ⟨rfl, hholder⟩
  cases hpc : s.pc u with
  | hostLock d =>
    rw [hpc] at hstep
    exact returning_hostLock hagreed h hpc ho hstep
  | loadAcquired d error =>
    rw [hpc] at hstep hat
    obtain ⟨hzero, q, hq, howner, -⟩ := hat
    obtain ⟨rfl, -⟩ := hseen hq
    have hne : q.mutexOwner ≠ p.mutexCurrentOwner u := by
      rw [howner]
      exact Ne.symm (p.mutexCurrentOwner_ne_zero u)
    simp only [onObject, if_neg hne] at hstep
    obtain rfl := Option.some.inj hstep
    exact h.goto (by rw [hpc]; rfl) hzero
  | storeDepthOne d error =>
    rw [hpc] at hstep hat hcall hhere
    obtain rfl := Option.some.inj hcall
    obtain ⟨q, hq, -⟩ := hhere
    obtain ⟨rfl, hholder⟩ := hseen hq
    obtain rfl := Option.some.inj hstep
    exact h.setObject (by rw [hpc]; rfl) hholder fun _ _ => hat
  | storeOwner d error =>
    rw [hpc] at hstep hat hcall hhere
    obtain rfl := Option.some.inj hcall
    obtain ⟨q, hq, -, -, hcount, hdepth⟩ := hhere
    obtain ⟨rfl, hholder⟩ := hseen hq
    obtain rfl : error = 0 := hat
    simp only [onObject, State.acquired, hop] at hstep
    obtain rfl := Option.some.inj hstep
    have hdone : Returning p view₀ ((s.setObject d.mutex
        { q with mutexOwner := p.mutexCurrentOwner u }).goto u (.returned d 0)) u g d.mutex :=
      h.setObject (by rw [hpc]; rfl) hholder fun _ hview => ⟨rfl, _, hview, rfl, hdepth, hcount⟩
    exact ⟨hdone.call, hdone.same, hdone.once, hdone.here, hdone.found⟩
  | _ =>
    rw [hpc] at hat hstep
    first | exact hat.elim | cases hstep

theorem returning_act (hagreed : Agreed p s) (hu : u ∈ s.live) (h : Returning p view₀ s u g m)
    {code : Errno} {raw : Nat} (hstep : act p s u code raw = some s') :
    Returning p view₀ s' u g m := by
  obtain ⟨c, hcall, hop, rfl⟩ := h.call
  have hat := h.here
  unfold act at hstep
  split at hstep
  · rename_i d hpc
    rw [hpc] at hat
    exact hat.elim
  · rename_i d hpc
    rw [hpc] at hat
    exact hat.elim
  · rename_i d hpc
    rw [hpc] at hat
    exact hat.elim
  · split at hstep
    · cases hstep
    · rename_i n htarget
      obtain ⟨o, ho, hon⟩ := Option.bind_eq_some_iff.mp hstep
      obtain rfl := target_mutex htarget hcall
      exact returning_onObject hagreed hu h ho hon

/-- The thread holds at least what it held before, at the same depth. -/
def Kept (cur : Nat) (view₀ view : Addr → Option Object) : Prop :=
  ∀ n o, view₀ n = some o → o.mutexOwner = cur →
    ∃ o', view n = some o' ∧ o'.mutexOwner = cur ∧ o'.mutexDepth = o.mutexDepth ∧
      o'.host.count = o.host.count

theorem Kept.refl (cur : Nat) (view : Addr → Option Object) : Kept cur view view :=
  fun _ o ho howner => ⟨o, ho, howner, rfl, rfl⟩

/-- All but one mutex as before, and that one too. -/
theorem SameBut.kept {cur : Nat} {view : Addr → Option Object} (h : SameBut m view₀ view)
    (hm : view m = view₀ m) : Kept cur view₀ view := by
  have heq : view = view₀ := by
    funext n
    by_cases hn : n = m
    · rw [hn]
      exact hm
    · exact h n hn
  rw [heq]
  exact .refl cur view₀

/-- After handoff_end. -/
theorem SameBut.kept_once {cur : Nat} {view : Addr → Option Object} (h : SameBut m view₀ view)
    (hbefore : HeldOnce cur view₀ m) (hafter : HeldOnce cur view m) : Kept cur view₀ view := by
  intro n o ho howner
  by_cases hn : n = m
  · subst n
    obtain ⟨q, hq, -, hdepth, hcount⟩ := hbefore
    obtain ⟨q', hq', howner', hdepth', hcount'⟩ := hafter
    obtain rfl := Option.some.inj (ho.symm.trans hq)
    exact ⟨q', hq', howner', hdepth'.trans hdepth.symm, hcount'.trans hcount.symm⟩
  · exact ⟨o, (h n hn).trans ho, howner, rfl, rfl⟩

end Returning

end Asm2Runtime.MutexBridge
