import Asm2Runtime.HandleLookup

/-!
# First operations on a slot

A slot with a static initializer gets its object from the first operation that holds the
lock. The word of the slot is the initializer until that object's handle is stored, so a
thread that finds nothing under the lock while the word is the initializer is the first.
-/

namespace Asm2Runtime.HandleRegistry

open LinkedChain StaleChain Transition

section Frame

/-- The call that a thread is in, or has returned from. -/
def Pc.call : Pc → Option Call
  | .idle => none
  | .loading c | .finding c _ _ | .found c _ _ | .locking c | .allocating c _
  | .initializing c _ _ | .linking c _ | .heading c _ | .storing c _ | .counting c _
  | .destroying c _ | .deactivating c _ | .clearing c _ | .seeking c _ _ | .unlinking c _ _
  | .pushing c _ | .discounting c _ | .unlocking c _ | .returned c _ => some c

/-- What a step of a call leaves to the other slots: their words and their objects. -/
structure Frame (reg reg' : Registry) (slot : Word) : Prop where
  slots : ∀ other, other ≠ slot → reg'.slots other = reg.slots other
  active : ∀ x ∈ reg.published, (reg.heap x).owner ≠ slot →
    (reg'.heap x).active = (reg.heap x).active
  type : ∀ x ∈ reg.published, (reg.heap x).owner ≠ slot →
    (reg'.heap x).guestMutexType = (reg.heap x).guestMutexType
  value : ∀ x ∈ reg.published, (reg'.heap x).semValue = (reg.heap x).semValue
  published : ∀ x ∈ reg'.published, x ∈ reg.published ∨ (reg'.heap x).owner = slot

variable {p : Platform} {reg reg' : Registry} {pc pc' : Pc} {c : Call} {q : Query} {a : Word}

theorem Frame.refl (reg : Registry) (slot : Word) : Frame reg reg slot :=
  ⟨fun _ _ => rfl, fun _ _ _ => rfl, fun _ _ _ => rfl, fun _ _ => rfl, fun _ hx => Or.inl hx⟩

/-- A step that changes no more than one object, of its own slot or not published yet. -/
theorem Frame.setObject {slot : Word} {o : BridgeObject}
    (hown : a ∈ reg.published → (reg.heap a).owner = slot)
    (hvalue : a ∈ reg.published → o.semValue = (reg.heap a).semValue) :
    Frame reg (reg.setObject a o) slot := by
  have hother : ∀ x ∈ reg.published, (reg.heap x).owner ≠ slot →
      (reg.setObject a o).heap x = reg.heap x := by
    intro x hx howner
    have hxa : x ≠ a := fun heq => howner (heq ▸ hown (heq ▸ hx))
    simp [Registry.setObject, hxa]
  refine ⟨fun _ _ => rfl, ?_, ?_, ?_, fun x hx => Or.inl hx⟩
  · intro x hx howner
    rw [hother x hx howner]
  · intro x hx howner
    rw [hother x hx howner]
  · intro x hx
    by_cases hxa : x = a
    · subst hxa
      simpa [Registry.setObject] using hvalue hx
    · simp [Registry.setObject, hxa]

theorem Frame.slotStore {slot : Word} (value : Word) : Frame reg (reg.slotStore slot value) slot :=
  ⟨fun _ hother => Function.update_of_ne hother _ _, fun _ _ _ => rfl, fun _ _ _ => rfl,
    fun _ _ => rfl, fun _ hx => Or.inl hx⟩

/-- Only `heap`, `slots` and `published` matter. -/
theorem Frame.congr {reg₁ reg₂ : Registry} {slot : Word} (h : Frame reg reg₁ slot)
    (hheap : reg₂.heap = reg₁.heap) (hslots : reg₂.slots = reg₁.slots)
    (hpublished : reg₂.published = reg₁.published) : Frame reg reg₂ slot := by
  constructor
  · rw [hslots]
    exact h.slots
  · rw [hheap]
    exact h.active
  · rw [hheap]
    exact h.type
  · rw [hheap]
    exact h.value
  · rw [hheap, hpublished]
    exact h.published

theorem frame_unlink (link : Link (BitVec 8) Word) (slot : Word) :
    Frame reg (reg.unlink a link) slot := by
  cases link with
  | head bucket => exact (Frame.refl reg slot).congr rfl rfl rfl
  | next x =>
    have hlink : ∀ y, (reg.unlink a (.next x)).heap y =
        if y = x then { reg.heap x with activeNext := reg.activeNext a } else reg.heap y := by
      intro y
      simp [Registry.unlink, Registry.setLink, Registry.setObject, Function.update_apply]
    refine ⟨fun _ _ => rfl, ?_, ?_, ?_, fun y hy => Or.inl hy⟩
    · intro y _ _
      rw [hlink]
      split
      · rename_i heq
        rw [heq]
      · rfl
    · intro y _ _
      rw [hlink]
      split
      · rename_i heq
        rw [heq]
      · rfl
    · intro y _
      rw [hlink]
      split
      · rename_i heq
        rw [heq]
      · rfl

theorem resume_frame {r : Option Word} (hgood : reg.Good (.found c q r)) :
    Frame reg (resume reg c q r).1 c.op.slot := by
  obtain ⟨-, hq, hfound⟩ := hgood
  unfold resume
  split
  case h_4 a hstage =>
    have ha := published_of_query hq (by simp [hstage]) (hfound a rfl).1
    split
    · exact Frame.setObject (fun _ => ha.owner) fun _ => rfl
    · exact Frame.refl _ _
    · exact Frame.refl _ _
  all_goals
    repeat' split
    all_goals exact Frame.refl _ _

theorem advance_frame {lock lock' : Option Tid} {t : Tid} {calloc : Option Word} {code : Errno}
    (hsound : reg.Sound p) (hgood : reg.Good pc) (hcall : pc.call = some c)
    (hstep : advance p reg lock t calloc code pc = some (reg', lock', pc')) :
    Frame reg reg' c.op.slot := by
  cases pc <;> cases hcall
  case returned => cases hstep
  case finding =>
    rw [advance_finding] at hstep
    cases hstep
    exact Frame.refl _ _
  case found q r =>
    cases hstep
    exact resume_frame hgood
  case locking =>
    simp only [advance] at hstep
    split at hstep
    · split at hstep <;> cases hstep <;> exact Frame.refl _ _
    · cases hstep
  case allocating type =>
    simp only [advance] at hstep
    split at hstep
    · cases hstep
      exact Frame.refl _ _
    · rename_i a
      split at hstep
      · rename_i hcalloc
        cases hstep
        have ha : a ∉ reg.published := by
          intro hm
          rw [hsound.held a hm] at hcalloc
          simp at hcalloc
        exact (Frame.setObject (fun hm => absurd hm ha) fun hm => absurd hm ha).congr rfl rfl rfl
      · cases hstep
  case initializing a type =>
    have ha := hgood.2.unpublished
    simp only [advance] at hstep
    split at hstep
    · cases hstep
      exact Frame.setObject (fun hm => absurd hm ha) fun hm => absurd hm ha
    · cases hstep
      exact (Frame.refl reg _).congr rfl rfl rfl
  case linking a =>
    have ha := hgood.2.unpublished
    cases hstep
    exact Frame.setObject (fun hm => absurd hm ha) fun hm => absurd hm ha
  case heading a =>
    cases hstep
    refine ⟨fun _ _ => rfl, fun _ _ _ => rfl, fun _ _ _ => rfl, fun _ _ => rfl, fun x hx => ?_⟩
    obtain rfl | hold := List.mem_cons.mp hx
    · exact Or.inr hgood.2.1.owner
    · exact Or.inl hold
  case storing a =>
    cases hstep
    rw [hgood.2.owner]
    exact Frame.slotStore _
  case destroying a =>
    simp only [advance] at hstep
    split at hstep <;> cases hstep <;> exact Frame.refl _ _
  case deactivating a =>
    cases hstep
    exact Frame.setObject (fun _ => hgood.2.owner) fun _ => rfl
  case clearing a =>
    cases hstep
    rw [hgood.2.published.owner]
    exact Frame.slotStore _
  case seeking a link =>
    simp only [advance] at hstep
    split at hstep
    · cases hstep
      exact Frame.refl _ _
    · split at hstep <;> cases hstep <;> exact Frame.refl _ _
  case unlinking a link =>
    cases hstep
    exact frame_unlink link _
  case pushing a =>
    cases hstep
    have hframe : Frame reg (reg.setObject a { reg.heap a with retiredNext := reg.retiredObjects })
        c.op.slot := Frame.setObject (fun _ => hgood.2.1.published.owner) fun _ => rfl
    exact hframe.congr rfl rfl rfl
  all_goals
    cases hstep
    exact (Frame.refl reg _).congr rfl rfl rfl

end Frame

section Calls

variable {p : Platform} {reg reg' : Registry} {pc pc' : Pc} {c c' : Call}

theorem begin_op {op : Op} (h : (begin op).call = some c) : c.op = op := by
  unfold begin at h
  repeat' split at h
  all_goals
    simp only [Pc.call, Option.some.injEq] at h
    subst h
    rfl

theorem resume_op {reg : Registry} {q : Query} {r : Option Word}
    (h : (resume reg c q r).2.call = some c') : c'.op = c.op := by
  unfold resume at h
  repeat' split at h
  all_goals
    simp only [Pc.call, Option.some.injEq] at h
    subst h
    rfl

theorem leave_op {o : Outcome} (h : (leave c o).call = some c') : c'.op = c.op := by
  unfold leave at h
  split at h <;> simp only [Pc.call, Option.some.injEq] at h <;> subst h <;> rfl

/-- A thread stays in its call. -/
theorem advance_op {lock lock' : Option Tid} {t : Tid} {calloc : Option Word} {code : Errno}
    (hcall : pc.call = some c) (hcall' : pc'.call = some c')
    (hstep : advance p reg lock t calloc code pc = some (reg', lock', pc')) : c'.op = c.op := by
  cases pc <;> cases hcall
  case returned => cases hstep
  case finding q w =>
    rw [advance_finding] at hstep
    cases hstep
    obtain ⟨r, hr⟩ | ⟨a, ha | ha⟩ := walk_cases reg c q w
    · rw [hr] at hcall'
      cases hcall'
      rfl
    · rw [ha] at hcall'
      cases hcall'
      rfl
    · rw [ha] at hcall'
      cases hcall'
      rfl
  case found q r =>
    cases hstep
    exact resume_op hcall'
  case unlocking o =>
    cases hstep
    exact leave_op hcall'
  case locking =>
    simp only [advance] at hstep
    split at hstep
    · split at hstep <;> cases hstep <;> cases hcall' <;> rfl
    · cases hstep
  case allocating type =>
    simp only [advance] at hstep
    split at hstep
    · cases hstep
      cases hcall'
      rfl
    · split at hstep <;> cases hstep
      cases hcall'
      rfl
  case initializing a type =>
    simp only [advance] at hstep
    split at hstep <;> cases hstep <;> cases hcall' <;> rfl
  case destroying a =>
    simp only [advance] at hstep
    split at hstep <;> cases hstep <;> cases hcall' <;> rfl
  case seeking a link =>
    simp only [advance] at hstep
    split at hstep
    · cases hstep
      cases hcall'
      rfl
    · split at hstep <;> cases hstep <;> cases hcall' <;> rfl
  all_goals
    cases hstep
    cases hcall'
    rfl

end Calls

section Thorough

/-- A lookup under the lock misses nothing. -/
def Registry.Thorough (reg : Registry) : Pc → Prop
  | .finding c q w => c.stage = .locked →
      ∀ x, reg.Answers q x → (reg.heap x).active = true → reg.Ahead x q w
  | .found c q none => c.stage = .locked →
      ∀ x, reg.Answers q x → (reg.heap x).active = false
  | _ => True

variable {p : Platform} {reg reg' : Registry} {pc pc' : Pc} {s s' : State} {e : Event}

theorem Registry.Thorough.outside (h : pc.inside = false) : reg.Thorough pc := by
  cases pc with
  | finding c q w =>
    intro hstage
    simp [Pc.inside, hstage] at h
  | found c q r =>
    cases r with
    | none =>
      intro hstage
      simp [Pc.inside, hstage] at h
    | some a => trivial
  | _ => trivial

theorem Like.answers {q : Query} {x : Word} (h : Like reg reg') (hx : reg'.Answers q x) :
    reg.Answers q x where
  published :=
    ⟨h.published ▸ hx.published.mem, (h.later x).owner.symm.trans hx.published.owner,
      (h.later x).kind.symm.trans hx.published.kind⟩
  raw := (h.later x).rawHandle.symm.trans hx.raw

theorem Registry.Thorough.like (h : reg.Thorough pc) (hlike : Like reg reg') :
    reg'.Thorough pc := by
  cases pc with
  | finding c q w =>
    intro hstage x hx hactive
    have hahead := h hstage x (hlike.answers hx) ((hlike.active x).symm.trans hactive)
    cases w with
    | head => trivial
    | node a =>
      rw [Registry.Ahead, hlike.born]
      exact hahead
    | next a =>
      rw [Registry.Ahead, hlike.born]
      exact hahead
  | found c q r =>
    cases r with
    | none =>
      intro hstage x hx
      rw [hlike.active]
      exact h hstage x (hlike.answers hx)
    | some a => trivial
  | _ => trivial

theorem resume_thorough (reg reg' : Registry) (c : Call) (q : Query) (r : Option Word) :
    reg'.Thorough (resume reg c q r).2 := by
  unfold resume
  repeat' split
  all_goals trivial

theorem advance_thorough {lock lock' : Option Tid} {t : Tid} {calloc : Option Word} {code : Errno}
    (h : reg.Thorough pc) (hsound : reg.Sound p) (hgood : reg.Good pc)
    (hstep : advance p reg lock t calloc code pc = some (reg', lock', pc')) :
    reg'.Thorough pc' := by
  cases pc with
  | idle => cases hstep
  | returned c o => cases hstep
  | loading c =>
    cases hstep
    intro _ _ _ _
    trivial
  | finding c q w =>
    rw [advance_finding] at hstep
    cases hstep
    have hwalk : ∀ x, c.stage = .locked → reg.Answers q x → (reg.heap x).active = true →
        reg.walk c q w = .found c q (some x) ∨
          ∃ w', reg.walk c q w = .finding c q w' ∧ reg.Ahead x q w' :=
      fun x hstage hx hactive => walk_ahead hsound hgood hx hactive (h hstage x hx hactive)
    obtain ⟨r, hr⟩ | ⟨a, ha⟩ := walk_cases reg c q w
    · rw [hr]
      cases r with
      | some a => trivial
      | none =>
        intro hstage x hx
        by_contra hactive
        obtain hfound | ⟨w', hw', -⟩ := hwalk x hstage hx (by simpa using hactive)
        · rw [hr] at hfound
          cases hfound
        · rw [hr] at hw'
          cases hw'
    · obtain ⟨w', hw'⟩ : ∃ w', reg.walk c q w = .finding c q w' := by
        obtain ha | ha := ha
        · exact ⟨_, ha⟩
        · exact ⟨_, ha⟩
      rw [hw']
      intro hstage x hx hactive
      obtain hfound | ⟨w'', hw'', hahead⟩ := hwalk x hstage hx hactive
      · rw [hw'] at hfound
        cases hfound
      · rw [hw'] at hw''
        cases hw''
        exact hahead
  | found c q r =>
    cases hstep
    exact resume_thorough reg _ c q r
  | locking c =>
    simp only [advance] at hstep
    split at hstep
    · split at hstep <;> cases hstep <;> trivial
    · cases hstep
  | allocating c type =>
    simp only [advance] at hstep
    split at hstep
    · cases hstep
      trivial
    · split at hstep <;> cases hstep
      trivial
  | initializing c a type =>
    simp only [advance] at hstep
    split at hstep <;> cases hstep <;> trivial
  | destroying c a =>
    simp only [advance] at hstep
    split at hstep <;> cases hstep <;> trivial
  | seeking c a link =>
    simp only [advance] at hstep
    split at hstep
    · cases hstep
      trivial
    · split at hstep <;> cases hstep <;> trivial
  | unlocking c o =>
    cases hstep
    exact Registry.Thorough.outside (leave_inside c o)
  | _ =>
    cases hstep
    trivial

theorem Invariant.step_thorough (h : Invariant p s) (hthorough : ∀ t, s.reg.Thorough (s.pc t))
    (hstep : HandleRegistry.step p s e = some s') : ∀ t, s'.reg.Thorough (s'.pc t) := by
  intro u
  cases e with
  | guestStore slot value =>
    cases hstep
    exact (hthorough u).like (Like.slotStore s.reg slot value)
  | start t op =>
    simp only [HandleRegistry.step] at hstep
    split at hstep <;> cases hstep
    rw [Invariant.move_pc]
    by_cases hu : u = t
    · subst hu
      rw [Function.update_self]
      exact Registry.Thorough.outside (begin_inside op)
    · rw [Function.update_of_ne hu]
      exact hthorough u
  | act t calloc code =>
    simp only [HandleRegistry.step, Option.map_eq_some_iff, Prod.exists] at hstep
    obtain ⟨reg', lock', pc', hadvance, rfl⟩ := hstep
    rw [Invariant.move_pc]
    by_cases hu : u = t
    · subst hu
      rw [Function.update_self]
      exact advance_thorough (hthorough u) h.sound (h.good u) hadvance
    · rw [Function.update_of_ne hu]
      cases hin : (s.pc u).inside with
      | false => exact Registry.Thorough.outside hin
      | true =>
        exact (hthorough u).like ((advance_kept h.sound (h.good t) hadvance).like (h.alone hu hin))

end Thorough

section FirstUse

/-- The host object of a kind was initialised with the type or the value. -/
def Initialised (kind : Kind) (type : Nat) (o : BridgeObject) : Prop :=
  match kind with
  | .mutex => o.guestMutexType = type
  | .sem => o.semValue = type
  | _ => True

/-- A thread that uses a slot whose word was `word` at first; `made` is the object that was
published for it since, and `stored` says whether the thread has changed anything. -/
def FirstUse (reg : Registry) (word : Word) (type : Nat) (made : Option Word) (stored : Bool) :
    Pc → Prop
  | .loading _ | .locking _ => stored = false
  | .finding c q _ | .found c q _ => stored = false ∧ (q.raw = word ∨ made = some q.raw) ∧
      (c.stage = .locked → q.raw = reg.slots c.op.slot)
  | .allocating _ type' | .initializing _ _ type' =>
      stored = false ∧ made = none ∧ type' = type
  | .linking c a | .heading c a =>
      stored = false ∧ made = none ∧ Initialised c.op.kind type (reg.heap a)
  | .storing _ a | .counting _ a => made = some a
  | .unlocking _ (.found a) | .returned _ (.found a) => made = some a
  | .unlocking _ (.failed _) | .returned _ (.failed _) => stored = false
  | _ => False

variable {p : Platform} {reg reg' : Registry} {pc pc' : Pc} {c : Call} {word : Word} {type : Nat}
  {made made' : Option Word} {stored : Bool}

/-- A thread without the lock does not depend on what the others do. -/
theorem FirstUse.outside (h : FirstUse reg word type made stored pc)
    (houtside : pc.inside = false) (hmade : ∀ x, made = some x → made' = some x) :
    FirstUse reg' word type made' stored pc := by
  cases pc with
  | loading c => exact h
  | locking c => exact h
  | finding c q w =>
    refine ⟨h.1, h.2.1.imp_right (hmade _), fun hstage => ?_⟩
    simp [Pc.inside, hstage] at houtside
  | found c q r =>
    refine ⟨h.1, h.2.1.imp_right (hmade _), fun hstage => ?_⟩
    simp [Pc.inside, hstage] at houtside
  | returned c o =>
    cases o with
    | found a => exact hmade a h
    | failed error => exact h
    | done => exact h
  | idle => exact h
  | _ => simp [Pc.inside] at houtside

/-- And one with the lock on nothing that they can change. -/
theorem FirstUse.inside (h : FirstUse reg word type made stored pc) (hgood : reg.Good pc)
    (hslots : reg'.slots = reg.slots)
    (hheap : ∀ x, x ∉ reg.published → reg'.heap x = reg.heap x) :
    FirstUse reg' word type made stored pc := by
  cases pc with
  | finding c q w => exact ⟨h.1, h.2.1, hslots ▸ h.2.2⟩
  | found c q r => exact ⟨h.1, h.2.1, hslots ▸ h.2.2⟩
  | linking c a => exact ⟨h.1, h.2.1, hheap a hgood.2.unpublished ▸ h.2.2⟩
  | heading c a => exact ⟨h.1, h.2.1, hheap a hgood.2.1.unpublished ▸ h.2.2⟩
  | returned c o => cases o <;> exact h
  | unlocking c o => cases o <;> exact h
  | _ => exact h

theorem hostInit_initialised {kind : Kind} {code : Errno} {o o' : BridgeObject}
    (h : hostInit kind type code o = .ok o') : Initialised kind type o' := by
  unfold hostInit at h
  split at h
  · split at h
    · cases h
    · split at h
      · cases h
        exact rfl
      · cases h
  · split at h
    · cases h
      exact rfl
    · cases h
  · unfold Initialised
    split <;> simp_all

/-- The store of a step that is not one of `storing`, `heading` and the like changes nothing
that other threads can see. -/
structure Unseen (reg reg' : Registry) : Prop where
  registry : reg'.registry = reg.registry
  retiredObjects : reg'.retiredObjects = reg.retiredObjects
  slots : reg'.slots = reg.slots
  statistics : reg'.created = reg.created ∧ reg'.active = reg.active ∧ reg'.retired = reg.retired
  published : reg'.published = reg.published
  object : ∀ x ∈ reg.published, reg'.heap x = reg.heap x

theorem Unseen.refl (reg : Registry) : Unseen reg reg :=
  ⟨rfl, rfl, rfl, ⟨rfl, rfl, rfl⟩, rfl, fun _ _ => rfl⟩

theorem unseen_private {a : Word} (ha : a ∉ reg.published) (hregistry : reg'.registry = reg.registry)
    (hretired : reg'.retiredObjects = reg.retiredObjects) (hslots : reg'.slots = reg.slots)
    (hstatistics : reg'.created = reg.created ∧ reg'.active = reg.active ∧
      reg'.retired = reg.retired)
    (hpublished : reg'.published = reg.published)
    (hheap : ∀ x, x ≠ a → reg'.heap x = reg.heap x) : Unseen reg reg' :=
  ⟨hregistry, hretired, hslots, hstatistics, hpublished, fun x hx => hheap x fun heq => ha (heq ▸ hx)⟩

theorem advance_unseen {lock lock' : Option Tid} {t : Tid} {calloc : Option Word} {code : Errno}
    (hsound : reg.Sound p) (hgood : reg.Good pc) (hstores : pc.stores = false)
    (hstep : advance p reg lock t calloc code pc = some (reg', lock', pc')) :
    Unseen reg reg' := by
  cases pc with
  | idle => cases hstep
  | returned c o => cases hstep
  | loading c =>
    cases hstep
    exact Unseen.refl reg
  | finding c q w =>
    rw [advance_finding] at hstep
    cases hstep
    exact Unseen.refl reg
  | found c q r =>
    cases hstep
    unfold resume
    split
    case h_4 a hstage =>
      split
      · rename_i hop
        obtain ⟨op, stage, type, target⟩ := c
        subst hop
        simp [Pc.stores] at hstores
      · exact Unseen.refl reg
      · exact Unseen.refl reg
    all_goals
      repeat' split
      all_goals exact Unseen.refl reg
  | locking c =>
    simp only [advance] at hstep
    split at hstep
    · split at hstep <;> cases hstep <;> exact Unseen.refl reg
    · cases hstep
  | allocating c type =>
    simp only [advance] at hstep
    split at hstep
    · cases hstep
      exact Unseen.refl reg
    · rename_i a
      split at hstep
      · rename_i hcalloc
        cases hstep
        have ha : a ∉ reg.published := by
          intro hm
          rw [hsound.held a hm] at hcalloc
          simp at hcalloc
        exact unseen_private ha rfl rfl rfl ⟨rfl, rfl, rfl⟩ rfl
          fun x hx => Function.update_of_ne hx _ _
      · cases hstep
  | initializing c a type =>
    simp only [advance] at hstep
    split at hstep
    · cases hstep
      exact unseen_private hgood.2.unpublished rfl rfl rfl ⟨rfl, rfl, rfl⟩ rfl
        fun x hx => Function.update_of_ne hx _ _
    · cases hstep
      exact unseen_private hgood.2.unpublished rfl rfl rfl ⟨rfl, rfl, rfl⟩ rfl fun _ _ => rfl
  | linking c a =>
    cases hstep
    exact unseen_private hgood.2.unpublished rfl rfl rfl ⟨rfl, rfl, rfl⟩ rfl
      fun x hx => Function.update_of_ne hx _ _
  | destroying c a =>
    simp only [advance] at hstep
    split at hstep <;> cases hstep <;> exact Unseen.refl reg
  | seeking c a link =>
    simp only [advance] at hstep
    split at hstep
    · cases hstep
      exact Unseen.refl reg
    · split at hstep <;> cases hstep <;> exact Unseen.refl reg
  | unlocking c o =>
    cases hstep
    exact Unseen.refl reg
  | _ => simp [Pc.stores] at hstores

section Step

variable {lock lock' : Option Tid} {t : Tid} {calloc : Option Word} {code : Errno} {kind : Kind}
  {slot : Word} {q : Query} {r : Option Word}

/-- A word below 64 KiB is no handle, so what a lookup has found is the new object. -/
theorem FirstUse.made_of_found {a : Word} (hsound : reg.Sound p)
    (hgood : reg.Good (.found c q (some a)))
    (h : FirstUse reg word type made stored (.found c q (some a)))
    (hinitializer : staticInitializer kind word = some type) : made = some a := by
  have hlow : word.toNat < 0x10000 :=
    staticInitializer_lt (show (staticInitializer kind word).isSome by rw [hinitializer]; rfl)
  obtain ⟨hpublished, hraw, -⟩ := hgood.2.2 a rfl
  have hunmapped := p.unmapped a (hsound.callocs a (hsound.held a hpublished.mem))
  obtain hinit | hmade := h.2.1
  · rw [hraw, hinit] at hunmapped
    omega
  · rw [hraw]
    exact hmade

/-- The lookup under the lock finds nothing only where no object has been made. -/
theorem FirstUse.none_of_missed (hsound : reg.Sound p) (hgood : reg.Good (.found c q none))
    (hthorough : reg.Thorough (.found c q none)) (hop : c.op = .use kind slot)
    (hstage : c.stage = .locked) (h : FirstUse reg word type made stored (.found c q none))
    (halone : made = none ∨ made = some (reg.slots slot))
    (hmade : ∀ x, made = some x → reg.Published x slot kind ∧ (reg.heap x).active = true) :
    made = none ∧ q.raw = word := by
  obtain ⟨-, hraw, hcurrent⟩ := h
  have hnone : made = none := by
    obtain hnone | hsome := halone
    · exact hnone
    · obtain ⟨hpublished, hactive⟩ := hmade _ hsome
      have hq := hgood.2.1
      rw [Call.query_early (by simp [hstage])] at hq
      have hanswers : reg.Answers q (reg.slots slot) := by
        refine ⟨?_, ?_⟩
        · rw [hq, hop]
          exact hpublished
        · rw [hsound.handle _ hpublished.mem, hcurrent hstage, hop]
          rfl
      rw [hthorough hstage _ hanswers] at hactive
      cases hactive
  refine ⟨hnone, ?_⟩
  obtain hinit | hmade := hraw
  · exact hinit
  · rw [hnone] at hmade
    cases hmade

/-- What follows a lookup: its result, the lock, or the new object. -/
theorem found_firstUse (hsound : reg.Sound p) (hgood : reg.Good (.found c q r))
    (hthorough : reg.Thorough (.found c q r)) (hop : c.op = .use kind slot)
    (htarget : c.target = none) (h : FirstUse reg word type made stored (.found c q r))
    (hinitializer : staticInitializer kind word = some type)
    (halone : c.stage = .locked → made = none ∨ made = some (reg.slots slot))
    (hmade : ∀ x, made = some x → reg.Published x slot kind ∧ (reg.heap x).active = true)
    (hstep : advance p reg lock t calloc code (.found c q r) = some (reg', lock', pc')) :
    FirstUse reg' word type made (stored || (Pc.found c q r).stores) pc' ∧
      ∀ c', pc'.call = some c' → c'.target = none := by
  obtain ⟨op, stage, type₀, target⟩ := c
  subst hop htarget
  cases hstep
  have hstored := h.1
  cases stage with
  | attr =>
    cases r with
    | none => exact ⟨by simpa [Pc.stores, FirstUse, resume] using hstored, by rintro c' ⟨⟩; rfl⟩
    | some a => exact ⟨by simpa [Pc.stores, FirstUse, resume] using hstored, by rintro c' ⟨⟩; rfl⟩
  | early =>
    cases r with
    | none => exact ⟨by simpa [Pc.stores, FirstUse, resume] using hstored, by rintro c' ⟨⟩; rfl⟩
    | some a => exact ⟨h.made_of_found hsound hgood hinitializer, by rintro c' ⟨⟩; rfl⟩
  | locked =>
    cases r with
    | some a => exact ⟨h.made_of_found hsound hgood hinitializer, by rintro c' ⟨⟩; rfl⟩
    | none =>
      obtain ⟨hnone, hword⟩ :=
        h.none_of_missed hsound hgood hthorough rfl rfl (halone rfl) hmade
      have hresume : resume reg ⟨.use kind slot, .locked, type₀, none⟩ q none =
          (reg, .allocating ⟨.use kind slot, .locked, type₀, none⟩ type) := by
        simp [resume, hword, hinitializer]
      rw [hresume]
      exact ⟨⟨by simpa [Pc.stores] using hstored, hnone, rfl⟩, by rintro c' ⟨⟩; rfl⟩

/-- A new object keeps the type of the initializer until it is linked. -/
theorem making_firstUse (htarget : c.target = none)
    (hpc : (∃ type', pc = .allocating c type') ∨ (∃ a type', pc = .initializing c a type') ∨
      ∃ a, pc = .linking c a)
    (h : FirstUse reg word type made stored pc)
    (hstep : advance p reg lock t calloc code pc = some (reg', lock', pc')) :
    FirstUse reg' word type made (stored || pc.stores) pc' ∧
      ∀ c', pc'.call = some c' → c'.target = none := by
  obtain ⟨type', rfl⟩ | ⟨a, type', rfl⟩ | ⟨a, rfl⟩ := hpc
  · obtain ⟨hstored, hnone, htype⟩ := h
    simp only [advance] at hstep
    split at hstep
    · cases hstep
      exact ⟨by simpa [Pc.stores, FirstUse] using hstored, by rintro c' ⟨⟩; exact htarget⟩
    · split at hstep <;> cases hstep
      exact ⟨⟨by simpa [Pc.stores] using hstored, hnone, htype⟩, by rintro c' ⟨⟩; exact htarget⟩
  · obtain ⟨hstored, hnone, rfl⟩ := h
    simp only [advance] at hstep
    split at hstep
    · rename_i o ho
      cases hstep
      refine ⟨⟨by simpa [Pc.stores] using hstored, hnone, ?_⟩, by rintro c' ⟨⟩; exact htarget⟩
      simpa [Registry.setObject] using hostInit_initialised ho
    · cases hstep
      exact ⟨by simpa [Pc.stores, FirstUse] using hstored, by rintro c' ⟨⟩; exact htarget⟩
  · obtain ⟨hstored, hnone, htyped⟩ := h
    cases hstep
    refine ⟨⟨by simpa [Pc.stores] using hstored, hnone, ?_⟩, by rintro c' ⟨⟩; exact htarget⟩
    simpa [Registry.setLink, Registry.setObject, Initialised] using htyped

/-- What a thread that uses the slot does next, the two stores of the publication apart. -/
theorem advance_firstUse (hsound : reg.Sound p) (hgood : reg.Good pc)
    (hthorough : reg.Thorough pc) (hcall : pc.call = some c) (hop : c.op = .use kind slot)
    (htarget : c.target = none) (h : FirstUse reg word type made stored pc)
    (hinitializer : staticInitializer kind word = some type)
    (hword : reg.slots slot = word ∨ made = some (reg.slots slot))
    (halone : pc.inside = true → (∀ x, pc ≠ .storing c x) → made = none ∨ made = some (reg.slots slot))
    (hmade : ∀ x, made = some x → reg.Published x slot kind ∧ (reg.heap x).active = true)
    (hheading : ∀ x, pc ≠ .heading c x)
    (hstep : advance p reg lock t calloc code pc = some (reg', lock', pc')) :
    FirstUse reg' word type made (stored || pc.stores) pc' ∧
      ∀ c', pc'.call = some c' → c'.target = none := by
  have hslot : c.op.slot = slot := by rw [hop]; rfl
  cases pc <;> cases hcall
  case returned => cases hstep
  case loading =>
    cases hstep
    have haddress : c.address = slot := by simp [Call.address, hop, Op.slot]
    refine ⟨⟨by simpa [Pc.stores, FirstUse] using h, ?_, fun _ => ?_⟩, ?_⟩
    · change reg.slots c.address = word ∨ made = some (reg.slots c.address)
      rw [haddress]
      exact hword
    · change reg.slots c.address = _
      rw [haddress, hslot]
    · rintro c' ⟨⟩
      exact htarget
  case finding q w =>
    rw [advance_finding] at hstep
    cases hstep
    obtain ⟨r, hr⟩ | ⟨a, ha | ha⟩ := walk_cases reg c q w
    · rw [hr]
      exact ⟨⟨by simpa [Pc.stores] using h.1, h.2⟩, by rintro c' ⟨⟩; exact htarget⟩
    · rw [ha]
      exact ⟨⟨by simpa [Pc.stores] using h.1, h.2⟩, by rintro c' ⟨⟩; exact htarget⟩
    · rw [ha]
      exact ⟨⟨by simpa [Pc.stores] using h.1, h.2⟩, by rintro c' ⟨⟩; exact htarget⟩
  case found q r =>
    refine found_firstUse hsound hgood hthorough hop htarget h hinitializer ?_ hmade hstep
    intro hstage
    exact halone (by simp [Pc.inside, hstage]) (by simp)
  case locking =>
    simp only [advance, htarget] at hstep
    split at hstep
    · cases hstep
      exact ⟨by simpa [Pc.stores, FirstUse] using h, by rintro c' ⟨⟩; exact htarget⟩
    · cases hstep
  case allocating type' =>
    exact making_firstUse htarget (.inl ⟨type', rfl⟩) h hstep
  case initializing a type' =>
    exact making_firstUse htarget (.inr (.inl ⟨a, type', rfl⟩)) h hstep
  case linking a =>
    exact making_firstUse htarget (.inr (.inr ⟨a, rfl⟩)) h hstep
  case heading a => exact absurd rfl (hheading a)
  case storing a =>
    cases hstep
    exact ⟨h, by rintro c' ⟨⟩; exact htarget⟩
  case counting a =>
    cases hstep
    exact ⟨h, by rintro c' ⟨⟩; exact htarget⟩
  case unlocking o =>
    cases hstep
    have hleave : leave c o = .returned c o := by simp [leave, hop]
    rw [hleave]
    refine ⟨?_, by rintro c' ⟨⟩; exact htarget⟩
    cases o with
    | found a => exact h
    | failed error => simpa [Pc.stores, FirstUse] using h
    | done => exact h
  all_goals exact absurd h id

end Step

end FirstUse

section Runs

/-- Only `use` of one kind starts on the slot, and only the bridge stores to its word. -/
def Event.uses (kind : Kind) (slot : Word) : Event → Prop
  | .start _ op => op.slot = slot → op = .use kind slot
  | .act _ _ _ => True
  | .guestStore other _ => other ≠ slot

/-- No thread is in a call on the slot. -/
def State.Unused (s : State) (slot : Word) : Prop :=
  ∀ t c, (s.pc t).call = some c → c.op.slot = slot → (s.pc t).free = true

/-- A call on the slot has returned the object that was made for it, or has failed without
changing anything. -/
def Settled (slot : Word) (made : Option Word) (r : Return) : Prop :=
  r.op.slot = slot → (∃ x, r.outcome = .found x ∧ made = some x) ∨
    ∃ error, r.outcome = .failed error ∧ r.stored = false

/-- What holds from a state `s₀` on, in which the slot held an initializer and was not in use. -/
structure Single (p : Platform) (kind : Kind) (slot word : Word) (type : Nat) (s₀ : State)
    (made : Option Word) (s : State) : Prop where
  invariant : Invariant p s
  thorough : ∀ t, s.reg.Thorough (s.pc t)
  grows : Grows s₀.reg s.reg
  users : ∀ t c, (s.pc t).free = false → (s.pc t).call = some c → c.op.slot = slot →
    c.op = .use kind slot ∧ c.target = none ∧
      FirstUse s.reg word type made (s.stored t) (s.pc t)
  word : (made = none ∧ s.reg.slots slot = word) ∨ made = some (s.reg.slots slot) ∨
    (s.reg.slots slot = word ∧ ∃ t c x, made = some x ∧ s.pc t = .storing c x)
  object : ∀ x, made = some x → x ∉ s₀.reg.published ∧ s.reg.Published x slot kind ∧
    (s.reg.heap x).active = true ∧ Initialised kind type (s.reg.heap x)
  fresh : ∀ x ∈ s.reg.published, (s.reg.heap x).owner = slot →
    x ∈ s₀.reg.published ∨ made = some x
  log : ∃ new, s.log = s₀.log ++ new ∧ ∀ r ∈ new, Settled slot made r

/-- A step that leaves the slot and its objects alone. -/
structure Leaves (reg reg' : Registry) (slot : Word) : Prop where
  word : reg'.slots slot = reg.slots slot
  object : ∀ x ∈ reg.published, (reg.heap x).owner = slot →
    (reg'.heap x).active = (reg.heap x).active ∧
      (reg'.heap x).guestMutexType = (reg.heap x).guestMutexType ∧
      (reg'.heap x).semValue = (reg.heap x).semValue
  fresh : ∀ x ∈ reg'.published, (reg'.heap x).owner = slot → x ∈ reg.published

variable {p : Platform} {reg reg' : Registry} {kind : Kind} {slot word : Word} {type : Nat}
  {s₀ s s' : State} {made made' : Option Word} {t : Tid} {e : Event} {c : Call} {pc' : Pc}

theorem Frame.leaves {other : Word} (h : Frame reg reg' other) (hne : slot ≠ other) :
    Leaves reg reg' slot where
  word := h.slots slot hne
  object x hx howner := by
    have hother : (reg.heap x).owner ≠ other := fun heq => hne (howner.symm.trans heq)
    exact ⟨h.active x hx hother, h.type x hx hother, h.value x hx⟩
  fresh x hx howner := by
    obtain hold | hnew := h.published x hx
    · exact hold
    · exact absurd (howner.symm.trans hnew) hne

theorem Unseen.leaves (h : Unseen reg reg') : Leaves reg reg' slot where
  word := by rw [h.slots]
  object x hx _ := by
    rw [h.object x hx]
    exact ⟨rfl, rfl, rfl⟩
  fresh x hx _ := h.published ▸ hx

theorem Initialised.congr {o o' : BridgeObject} (h : Initialised kind type o)
    (htype : o'.guestMutexType = o.guestMutexType) (hvalue : o'.semValue = o.semValue) :
    Initialised kind type o' := by
  unfold Initialised at *
  split at h
  · exact htype.trans h
  · exact hvalue.trans h
  · trivial

theorem Settled.mono {r : Return} (h : Settled slot made r)
    (hmade : ∀ x, made = some x → made' = some x) : Settled slot made' r := fun hslot =>
  (h hslot).imp_left fun ⟨x, hx, hm⟩ => ⟨x, hx, hmade x hm⟩

/-- The log after a thread was moved. -/
theorem log_move {new : List Return} {stored : Bool} (hlog : s.log = s₀.log ++ new)
    (hnew : ∀ r ∈ new, Settled slot made r)
    (hreturn : ∀ c o, pc' = .returned c o → Settled slot made ⟨t, c.op, o, stored⟩) :
    ∃ new, (s.move t pc' stored).log = s₀.log ++ new ∧ ∀ r ∈ new, Settled slot made r := by
  unfold State.move
  cases pc' with
  | returned c o =>
    refine ⟨new ++ [⟨t, c.op, o, stored⟩], by simp [hlog], fun r hr => ?_⟩
    obtain hold | hlast := List.mem_append.mp hr
    · exact hnew r hold
    · obtain rfl := List.mem_singleton.mp hlast
      exact hreturn c o rfl
  | _ => exact ⟨new, hlog, hnew⟩

/-- The other threads on the slot, after a step. -/
theorem Single.others (h : Single p kind slot word type s₀ made s) {lock' : Option Tid}
    {calloc : Option Word} {code : Errno}
    (hadvance : advance p s.reg s.registryLock t calloc code (s.pc t) = some (reg', lock', pc'))
    (hmade : ∀ x, made = some x → made' = some x)
    (hsame : (s.pc t).inside = false → made' = made) {u : Tid} (hu : u ≠ t)
    (hfirst : FirstUse s.reg word type made (s.stored u) (s.pc u)) :
    FirstUse reg' word type made' (s.stored u) (s.pc u) := by
  cases hin : (s.pc u).inside with
  | false => exact hfirst.outside hin hmade
  | true =>
    have hout := h.invariant.alone hu hin
    rw [hsame hout]
    refine hfirst.inside (h.invariant.good u)
      (advance_slots (h.invariant.good t) hout hadvance) fun x hx => ?_
    obtain rfl | ⟨a, ha, type', rfl⟩ := advance_outside (h.invariant.good t) hout hadvance
    · rfl
    · have hxa : x ≠ a := by
        rintro rfl
        exact hx ha
      simp [Registry.setObject, hxa]

/-- All but the publication itself. -/
theorem Single.move (h : Single p kind slot word type s₀ made s) {lock' : Option Tid}
    {calloc : Option Word} {code : Errno} (hstep : step p s (.act t calloc code) = some s')
    (hadvance : advance p s.reg s.registryLock t calloc code (s.pc t) = some (reg', lock', pc'))
    (hs' : s' = State.move { s with reg := reg', registryLock := lock' } t pc'
      (s.stored t || (s.pc t).stores))
    (hleaves : Leaves s.reg reg' slot) (hstoring : ∀ c x, s.pc t ≠ .storing c x ∨ c.op.slot ≠ slot)
    (hmine : ∀ c, pc'.call = some c → c.op.slot = slot → c.op = .use kind slot ∧ c.target = none ∧
      FirstUse reg' word type made (s.stored t || (s.pc t).stores) pc') :
    Single p kind slot word type s₀ made s' := by
  have hinvariant := h.invariant.step hstep
  have hgrows := h.invariant.step_grows hstep
  have hthorough := h.invariant.step_thorough h.thorough hstep
  subst hs'
  refine ⟨hinvariant, hthorough, h.grows.trans hgrows, ?_, ?_, ?_, ?_, ?_⟩
  · intro u c hfree hcall hslot
    by_cases hu : u = t
    · subst hu
      simp only [State.move, Function.update_self] at hcall ⊢
      exact hmine c hcall hslot
    · simp only [State.move, Function.update_of_ne hu] at hfree hcall ⊢
      obtain ⟨hop, htarget, hfirst⟩ := h.users u c hfree hcall hslot
      exact ⟨hop, htarget, h.others hadvance (fun _ hx => hx) (fun _ => rfl) hu hfirst⟩
  · change (made = none ∧ reg'.slots slot = word) ∨ made = some (reg'.slots slot) ∨ _
    rw [hleaves.word]
    refine h.word.imp_right fun hword => hword.imp_right ?_
    rintro ⟨hw, u, c, x, hx, hpc⟩
    refine ⟨hleaves.word.trans hw, u, c, x, hx, ?_⟩
    have hu : u ≠ t := by
      rintro rfl
      obtain hne | hne := hstoring c x
      · exact hne hpc
      · -- The object that is stored is the one of the slot.
        have howner := (h.invariant.good u)
        rw [hpc] at howner
        exact hne (howner.2.owner.symm.trans (h.object x hx).2.1.owner)
    rw [Invariant.move_pc, Function.update_of_ne hu]
    exact hpc
  · intro x hx
    obtain ⟨hnew, hpublished, hactive, hinit⟩ := h.object x hx
    obtain ⟨ha, ht, hv⟩ := hleaves.object x hpublished.mem hpublished.owner
    exact ⟨hnew, hgrows.keeps hpublished, ha.trans hactive, hinit.congr ht hv⟩
  · intro x hx howner
    have hold := hleaves.fresh x hx howner
    exact h.fresh x hold ((hgrows.later x hold).owner.symm.trans howner)
  · obtain ⟨new, hlog, hnew⟩ := h.log
    refine log_move hlog hnew ?_
    rintro c o rfl hslot
    obtain ⟨-, -, hfirst⟩ := hmine c rfl hslot
    cases o with
    | found x => exact Or.inl ⟨x, rfl, hfirst⟩
    | failed error => exact Or.inr ⟨error, rfl, hfirst⟩
    | done => exact absurd hfirst id

/-- The bucket head is stored: the object of the slot is made. -/
theorem Single.heading (h : Single p kind slot word type s₀ made s) {calloc : Option Word}
    {code : Errno} {a : Word} (hpc : s.pc t = .heading c a) (hop : c.op = .use kind slot)
    (htarget : c.target = none)
    (hfirst : FirstUse s.reg word type made (s.stored t) (.heading c a))
    (hstep : step p s (.act t calloc code) = some s') :
    made = none ∧ Single p kind slot word type s₀ (some a) s' := by
  have hinvariant := h.invariant.step hstep
  have hgrows := h.invariant.step_grows hstep
  have hthorough := h.invariant.step_thorough h.thorough hstep
  obtain ⟨-, hfresh, -⟩ : s.reg.Good (.heading c a) := hpc ▸ h.invariant.good t
  obtain ⟨-, hnone, hinit⟩ := hfirst
  have hslot : c.op.slot = slot := by rw [hop]; rfl
  have hkind : c.op.kind = kind := by rw [hop]; rfl
  have hadvance : advance p s.reg s.registryLock t calloc code (s.pc t) =
      some (s.reg.publishHead a, s.registryLock, .storing c a) := by rw [hpc]; rfl
  simp only [step, hadvance, Option.map_some, Option.some.injEq] at hstep
  subst hstep
  refine ⟨hnone, hinvariant, hthorough, h.grows.trans hgrows, ?_, ?_, ?_, ?_, ?_⟩
  · intro u c' hfree hcall hslot'
    by_cases hu : u = t
    · subst hu
      simp only [State.move, Function.update_self, Pc.call, Option.some.injEq] at hcall ⊢
      subst hcall
      exact ⟨hop, htarget, rfl⟩
    · simp only [State.move, Function.update_of_ne hu] at hfree hcall ⊢
      obtain ⟨hop', htarget', hfirst'⟩ := h.users u c' hfree hcall hslot'
      refine ⟨hop', htarget', h.others hadvance ?_ ?_ hu hfirst'⟩
      · simp [hnone]
      · simp [hpc, Pc.inside]
  · have hword : s.reg.slots slot = word := by
      obtain ⟨-, hw⟩ | hsome | ⟨hw, -⟩ := h.word
      · exact hw
      · rw [hnone] at hsome
        cases hsome
      · exact hw
    exact Or.inr (Or.inr ⟨hword, t, c, a, rfl, by simp [State.move]⟩)
  · intro x hx
    obtain rfl := Option.some.inj hx
    refine ⟨fun hold => hfresh.unpublished (h.grows.mem hold), ⟨List.mem_cons_self, ?_, ?_⟩,
      hfresh.active, ?_⟩
    · exact hfresh.owner.trans hslot
    · exact hfresh.kind.trans hkind
    · rw [hkind] at hinit
      exact hinit
  · intro x hx howner
    obtain rfl | hold := List.mem_cons.mp hx
    · exact Or.inr rfl
    · refine Or.inl ((h.fresh x hold howner).resolve_right ?_)
      rw [hnone]
      simp
  · obtain ⟨new, hlog, hnew⟩ := h.log
    have hmono : ∀ r ∈ new, Settled slot (some a) r := fun r hr =>
      (hnew r hr).mono (by simp [hnone])
    exact log_move (s := { s with reg := s.reg.publishHead a }) hlog hmono fun c o hreturn => by
      cases hreturn

/-- The handle is stored to the slot. -/
theorem Single.storing (h : Single p kind slot word type s₀ made s) {calloc : Option Word}
    {code : Errno} {a : Word} (hpc : s.pc t = .storing c a) (hop : c.op = .use kind slot)
    (htarget : c.target = none) (hmade : made = some a)
    (hstep : step p s (.act t calloc code) = some s') :
    Single p kind slot word type s₀ made s' := by
  have hinvariant := h.invariant.step hstep
  have hgrows := h.invariant.step_grows hstep
  have hthorough := h.invariant.step_thorough h.thorough hstep
  obtain ⟨-, hpublished⟩ : s.reg.Good (.storing c a) := hpc ▸ h.invariant.good t
  have hslot : c.op.slot = slot := by rw [hop]; rfl
  have hraw := h.invariant.sound.handle a hpublished.mem
  have hadvance : advance p s.reg s.registryLock t calloc code (s.pc t) =
      some (s.reg.slotStore slot a, s.registryLock, .counting c a) := by
    rw [hpc, ← hslot, ← hpublished.owner]
    simp [advance, hraw]
  simp only [step, hadvance, Option.map_some, Option.some.injEq] at hstep
  subst hstep
  refine ⟨hinvariant, hthorough, h.grows.trans hgrows, ?_, ?_, ?_, h.fresh, ?_⟩
  · intro u c' hfree hcall hslot'
    by_cases hu : u = t
    · subst hu
      simp only [State.move, Function.update_self, Pc.call, Option.some.injEq] at hcall ⊢
      subst hcall
      exact ⟨hop, htarget, hmade⟩
    · simp only [State.move, Function.update_of_ne hu] at hfree hcall ⊢
      obtain ⟨hop', htarget', hfirst'⟩ := h.users u c' hfree hcall hslot'
      exact ⟨hop', htarget', h.others hadvance (fun _ hx => hx) (fun _ => rfl) hu hfirst'⟩
  · refine Or.inr (Or.inl ?_)
    simp [State.move, Registry.slotStore, hmade]
  · intro x hx
    obtain ⟨hnew, hx', hactive, hinit⟩ := h.object x hx
    exact ⟨hnew, hgrows.keeps hx', hactive, hinit⟩
  · obtain ⟨new, hlog, hnew⟩ := h.log
    exact log_move (s := { s with reg := s.reg.slotStore slot a }) hlog hnew fun c o hreturn => by
      cases hreturn

theorem leaves_counting (reg : Registry) (created active : Nat) :
    Leaves reg { reg with created, active } slot :=
  ⟨rfl, fun _ _ _ => ⟨rfl, rfl, rfl⟩, fun _ hx _ => hx⟩

/-- Any step of a thread that uses the slot. -/
theorem Single.act_user (h : Single p kind slot word type s₀ made s)
    (hinitializer : staticInitializer kind word = some type) {calloc : Option Word} {code : Errno}
    (hcall : (s.pc t).call = some c) (hslot : c.op.slot = slot)
    (hstep : step p s (.act t calloc code) = some s') :
    ∃ made', Single p kind slot word type s₀ made' s' := by
  obtain ⟨reg', lock', pc', hadvance, hs'⟩ : ∃ reg' lock' pc',
      advance p s.reg s.registryLock t calloc code (s.pc t) = some (reg', lock', pc') ∧
        State.move { s with reg := reg', registryLock := lock' } t pc'
          (s.stored t || (s.pc t).stores) = s' := by
    simpa [step] using hstep
  have hfree : (s.pc t).free = false := by
    cases hpc : s.pc t <;> first | rfl | (rw [hpc] at hadvance; cases hadvance)
  obtain ⟨hop, htarget, hfirst⟩ := h.users t c hfree hcall hslot
  by_cases hheading : ∃ a, s.pc t = .heading c a
  · obtain ⟨a, ha⟩ := hheading
    exact ⟨_, (h.heading ha hop htarget (ha ▸ hfirst) hstep).2⟩
  by_cases hstoring : ∃ a, s.pc t = .storing c a
  · obtain ⟨a, ha⟩ := hstoring
    have hmade : FirstUse s.reg word type made (s.stored t) (.storing c a) := ha ▸ hfirst
    exact ⟨_, h.storing ha hop htarget hmade hstep⟩
  have hsound := h.invariant.sound
  have hgood := h.invariant.good t
  have hword : s.reg.slots slot = word ∨ made = some (s.reg.slots slot) := by
    obtain ⟨-, hw⟩ | hsome | ⟨hw, -⟩ := h.word
    · exact Or.inl hw
    · exact Or.inr hsome
    · exact Or.inl hw
  have halone : (s.pc t).inside = true → (∀ x, s.pc t ≠ .storing c x) →
      made = none ∨ made = some (s.reg.slots slot) := by
    intro hin _
    obtain ⟨hnone, -⟩ | hsome | ⟨-, u, c', x, -, hu⟩ := h.word
    · exact Or.inl hnone
    · exact Or.inr hsome
    · -- Another thread has the lock while it stores.
      have hut : u ≠ t := by
        rintro rfl
        rw [hu] at hcall
        cases hcall
        exact hstoring ⟨x, hu⟩
      have hout := h.invariant.alone (Ne.symm hut) hin
      rw [hu] at hout
      cases hout
  obtain ⟨hfirst', htarget'⟩ := advance_firstUse hsound hgood (h.thorough t) hcall hop htarget
    hfirst hinitializer hword halone (fun x hx => ⟨(h.object x hx).2.1, (h.object x hx).2.2.1⟩)
    (fun x hx => hheading ⟨x, hx⟩) hadvance
  have hleaves : Leaves s.reg reg' slot := by
    cases hstores : (s.pc t).stores with
    | false => exact (advance_unseen hsound hgood hstores hadvance).leaves
    | true =>
      cases hpc : s.pc t <;> rw [hpc] at hstores hcall hfirst hadvance <;>
        first | (cases hstores; done) | skip
      case counting =>
        cases hadvance
        exact leaves_counting _ _ _
      case found c' q r =>
        cases hcall
        obtain ⟨op, stage, type₀, target⟩ := c
        subst hop
        simp [Pc.stores] at hstores
      case heading c' a =>
        cases hcall
        exact absurd ⟨a, hpc⟩ hheading
      case storing c' a =>
        cases hcall
        exact absurd ⟨a, hpc⟩ hstoring
      all_goals exact absurd hfirst id
  refine ⟨made, h.move hstep hadvance hs'.symm hleaves (fun c' x => ?_) fun c' hcall' _ => ?_⟩
  · by_cases hpc : s.pc t = .storing c' x
    · rw [hpc] at hcall
      cases hcall
      exact absurd ⟨x, hpc⟩ hstoring
    · exact Or.inl hpc
  · exact ⟨(advance_op hcall hcall' hadvance).trans hop, htarget' c' hcall', hfirst'⟩

/-- A step of a thread that is busy with another slot. -/
theorem Single.act_other (h : Single p kind slot word type s₀ made s) {calloc : Option Word}
    {code : Errno} (hcall : (s.pc t).call = some c) (hslot : c.op.slot ≠ slot)
    (hstep : step p s (.act t calloc code) = some s') :
    Single p kind slot word type s₀ made s' := by
  obtain ⟨reg', lock', pc', hadvance, hs'⟩ : ∃ reg' lock' pc',
      advance p s.reg s.registryLock t calloc code (s.pc t) = some (reg', lock', pc') ∧
        State.move { s with reg := reg', registryLock := lock' } t pc'
          (s.stored t || (s.pc t).stores) = s' := by
    simpa [step] using hstep
  have hleaves := (advance_frame h.invariant.sound (h.invariant.good t) hcall hadvance).leaves
    (Ne.symm hslot)
  refine h.move hstep hadvance hs'.symm hleaves (fun c' x => ?_) fun c' hcall' hslot' => ?_
  · by_cases hpc : s.pc t = .storing c' x
    · rw [hpc] at hcall
      cases hcall
      exact Or.inr hslot
    · exact Or.inl hpc
  · rw [advance_op hcall hcall' hadvance] at hslot'
    exact absurd hslot' hslot

theorem begin_use (kind : Kind) (slot : Word) :
    begin (.use kind slot) = .returned ⟨.use kind slot, .early, 0, none⟩ (.failed EINVAL) ∨
      begin (.use kind slot) = .loading ⟨.use kind slot, .early, 0, none⟩ := by
  unfold begin
  split
  · exact Or.inl rfl
  · exact Or.inr rfl

theorem Single.start (h : Single p kind slot word type s₀ made s) {op : Op}
    (huses : (Event.start t op).uses kind slot) (hstep : step p s (.start t op) = some s') :
    Single p kind slot word type s₀ made s' := by
  have hinvariant := h.invariant.step hstep
  have hthorough := h.invariant.step_thorough h.thorough hstep
  simp only [step] at hstep
  split at hstep
  · rename_i hidle
    cases hstep
    refine ⟨hinvariant, hthorough, h.grows, ?_, ?_, h.object, h.fresh, ?_⟩
    · intro u c hfree hcall hslot
      by_cases hu : u = t
      · subst hu
        simp only [State.move, Function.update_self] at hfree hcall ⊢
        have hop := begin_op hcall
        have huse : op = .use kind slot := huses (hop ▸ hslot)
        subst huse
        obtain hb | hb := begin_use kind slot
        · rw [hb] at hfree
          cases hfree
        · rw [hb] at hcall ⊢
          cases hcall
          exact ⟨rfl, rfl, rfl⟩
      · simp only [State.move, Function.update_of_ne hu] at hfree hcall ⊢
        exact h.users u c hfree hcall hslot
    · refine h.word.imp_right fun hword => hword.imp_right ?_
      rintro ⟨hw, u, c, x, hx, hpc⟩
      refine ⟨hw, u, c, x, hx, ?_⟩
      have hu : u ≠ t := by
        rintro rfl
        rw [hpc] at hidle
        cases hidle
      rw [Invariant.move_pc, Function.update_of_ne hu]
      exact hpc
    · obtain ⟨new, hlog, hnew⟩ := h.log
      refine log_move hlog hnew ?_
      rintro c o hreturn hslot
      have hop := begin_op (c := c) (by rw [hreturn]; rfl)
      have huse : op = .use kind slot := huses (hop ▸ hslot)
      subst huse
      obtain hb | hb := begin_use kind slot <;> rw [hb] at hreturn <;> cases hreturn
      exact Or.inr ⟨EINVAL, rfl, rfl⟩
  · cases hstep

theorem Single.guestStore (h : Single p kind slot word type s₀ made s) {other value : Word}
    (huses : (Event.guestStore other value).uses kind slot)
    (hstep : step p s (.guestStore other value) = some s') :
    Single p kind slot word type s₀ made s' := by
  have hinvariant := h.invariant.step hstep
  have hthorough := h.invariant.step_thorough h.thorough hstep
  have hgrows := h.invariant.step_grows hstep
  cases hstep
  have hslot : Function.update s.reg.slots other value slot = s.reg.slots slot :=
    Function.update_of_ne (Ne.symm huses) _ _
  refine ⟨hinvariant, hthorough, h.grows.trans hgrows, ?_, ?_, ?_, h.fresh, h.log⟩
  · intro u c hfree hcall hslot'
    obtain ⟨hop, htarget, hfirst⟩ := h.users u c hfree hcall hslot'
    refine ⟨hop, htarget, ?_⟩
    have hcallslot : ∀ c', (s.pc u).call = some c' →
        (s.reg.slotStore other value).slots c'.op.slot = s.reg.slots c'.op.slot := by
      intro c' hc'
      obtain rfl := Option.some.inj (hcall.symm.trans hc')
      rw [hslot']
      exact hslot
    revert hfirst hcallslot
    cases s.pc u with
    | finding c' q w => exact fun hfirst hc => ⟨hfirst.1, hfirst.2.1, hc c' rfl ▸ hfirst.2.2⟩
    | found c' q r => exact fun hfirst hc => ⟨hfirst.1, hfirst.2.1, hc c' rfl ▸ hfirst.2.2⟩
    | returned c' o => exact fun hfirst _ => by cases o <;> exact hfirst
    | unlocking c' o => exact fun hfirst _ => by cases o <;> exact hfirst
    | _ => exact fun hfirst _ => hfirst
  · change (made = none ∧ Function.update s.reg.slots other value slot = word) ∨
      made = some (Function.update s.reg.slots other value slot) ∨
      (Function.update s.reg.slots other value slot = word ∧ _)
    rw [hslot]
    exact h.word
  · intro x hx
    obtain ⟨hnew, hx', hactive, hinit⟩ := h.object x hx
    exact ⟨hnew, hgrows.keeps hx', hactive, hinit⟩

theorem Single.step (h : Single p kind slot word type s₀ made s)
    (hinitializer : staticInitializer kind word = some type) (huses : e.uses kind slot)
    (hstep : HandleRegistry.step p s e = some s') :
    ∃ made', Single p kind slot word type s₀ made' s' := by
  cases e with
  | start t op => exact ⟨made, h.start huses hstep⟩
  | guestStore other value => exact ⟨made, h.guestStore huses hstep⟩
  | act t calloc code =>
    cases hcall : (s.pc t).call with
    | none =>
      cases hpc : s.pc t <;> rw [hpc] at hcall <;> cases hcall
      simp [HandleRegistry.step, hpc, advance] at hstep
    | some c =>
      by_cases hslot : c.op.slot = slot
      · exact h.act_user hinitializer hcall hslot hstep
      · exact ⟨made, h.act_other hcall hslot hstep⟩

theorem Single.run {es : List Event} (h : Single p kind slot word type s₀ made s)
    (hinitializer : staticInitializer kind word = some type)
    (huses : ∀ e ∈ es, e.uses kind slot)
    (hrun : Transition.run (HandleRegistry.step p) s es = some s') :
    ∃ made', Single p kind slot word type s₀ made' s' := by
  induction es generalizing s made with
  | nil =>
    obtain rfl : s = s' := by simpa using hrun
    exact ⟨made, h⟩
  | cons e es ih =>
    obtain ⟨u, hu, hrest⟩ := run_cons.mp hrun
    obtain ⟨made', h'⟩ := h.step hinitializer (huses e (by simp)) hu
    exact ih h' (fun e he => huses e (by simp [he])) hrest

/-- The state in which the slot is used for the first time. -/
theorem Single.first (hinvariant : Invariant p s) (hthorough : ∀ t, s.reg.Thorough (s.pc t))
    (hunused : s.Unused slot) (hword : s.reg.slots slot = word) :
    Single p kind slot word type s none s where
  invariant := hinvariant
  thorough := hthorough
  grows := Grows.refl s.reg
  users t c hfree hcall hslot := by
    rw [hunused t c hcall hslot] at hfree
    cases hfree
  word := Or.inl ⟨rfl, hword⟩
  object x hx := by cases hx
  fresh x hx _ := Or.inl hx
  log := ⟨[], by simp⟩

end Runs

section Rejected

def Op.isInit : Op → Bool
  | .init _ _ _ _ => true
  | _ => false

/-- Any operation of the kind but `init` starts on the slot. -/
def Event.asks (kind : Kind) (slot : Word) : Event → Prop
  | .start _ op => op.slot = slot → op.kind = kind ∧ op.isInit = false
  | .act _ _ _ => True
  | .guestStore other _ => other ≠ slot

/-- A thread that asks for the object of a word that is no handle and no initializer. -/
def Refused (word : Word) (stored : Bool) : Pc → Prop
  | .loading _ | .locking _ => stored = false
  | .finding _ q _ => stored = false ∧ q.raw = word
  | .found _ q r => stored = false ∧ q.raw = word ∧ r = none
  | .unlocking _ (.failed error) | .returned _ (.failed error) => stored = false ∧ error = EINVAL
  | _ => False

def Declined (slot : Word) (r : Return) : Prop :=
  r.op.slot = slot → r.outcome = .failed EINVAL ∧ r.stored = false

/-- What holds from a state `s₀` on, in which the word of the slot was of no use. -/
structure Rejecting (p : Platform) (kind : Kind) (slot word : Word) (s₀ s : State) : Prop where
  invariant : Invariant p s
  users : ∀ t c, (s.pc t).free = false → (s.pc t).call = some c → c.op.slot = slot →
    c.op.kind = kind ∧ c.op.isInit = false ∧ c.stage ≠ .attr ∧ c.target = none ∧
      Refused word (s.stored t) (s.pc t)
  held : s.reg.slots slot = word
  useless : ∀ x, s.reg.Answers ⟨word, slot, kind⟩ x → (s.reg.heap x).active = false
  log : ∃ new, s.log = s₀.log ++ new ∧ ∀ r ∈ new, Declined slot r

variable {p : Platform} {reg reg' : Registry} {kind : Kind} {slot word : Word}
  {s₀ s s' : State} {t : Tid} {e : Event} {c : Call} {pc pc' : Pc} {stored : Bool}

theorem address_of_not_init (hinit : c.op.isInit = false) : c.address = c.op.slot := by
  unfold Call.address
  split
  · rename_i hop
    rw [hop] at hinit
    cases hinit
  · rfl

/-- Each step of such a thread leads to the refusal. -/
theorem advance_refused {lock lock' : Option Tid} {calloc : Option Word} {code : Errno}
    (hgood : reg.Good pc) (hcall : pc.call = some c) (hinit : c.op.isInit = false)
    (hstage : c.stage ≠ .attr) (htarget : c.target = none)
    (hinitializer : staticInitializer c.op.kind word = none)
    (h : Refused word stored pc) (hword : reg.slots c.op.slot = word)
    (huseless : ∀ x, reg.Answers ⟨word, c.op.slot, c.op.kind⟩ x → (reg.heap x).active = false)
    (hstep : advance p reg lock t calloc code pc = some (reg', lock', pc')) :
    Refused word (stored || pc.stores) pc' ∧
      ∀ c', pc'.call = some c' → c'.stage ≠ .attr ∧ c'.target = none := by
  cases pc <;> cases hcall
  case returned => cases hstep
  case loading =>
    cases hstep
    refine ⟨⟨by simpa [Pc.stores, Refused] using h, ?_⟩, by rintro c' ⟨⟩; exact ⟨hstage, htarget⟩⟩
    change reg.slots c.address = word
    rw [address_of_not_init hinit]
    exact hword
  case finding q w =>
    obtain ⟨hstored, hraw⟩ := h
    rw [advance_finding] at hstep
    cases hstep
    obtain ⟨r, hr⟩ | ⟨a, ha | ha⟩ := walk_cases reg c q w
    · rw [hr]
      refine ⟨⟨by simpa [Pc.stores] using hstored, hraw, ?_⟩,
        by rintro c' ⟨⟩; exact ⟨hstage, htarget⟩⟩
      cases r with
      | none => rfl
      | some a =>
        obtain ⟨hanswers, hactive⟩ := walk_found hgood hr
        have hq := hgood.2.1
        rw [Call.query_early hstage, hraw] at hq
        rw [hq] at hanswers
        rw [huseless a hanswers] at hactive
        cases hactive
    · rw [ha]
      exact ⟨⟨by simpa [Pc.stores] using hstored, hraw⟩,
        by rintro c' ⟨⟩; exact ⟨hstage, htarget⟩⟩
    · rw [ha]
      exact ⟨⟨by simpa [Pc.stores] using hstored, hraw⟩,
        by rintro c' ⟨⟩; exact ⟨hstage, htarget⟩⟩
  case found q r =>
    obtain ⟨hstored, hraw, rfl⟩ := h
    cases hstep
    have hstores : (stored || (Pc.found c q none).stores) = false := by
      simpa [Pc.stores] using hstored
    rw [hstores]
    obtain ⟨op, stage, type, target⟩ := c
    dsimp only at hstage htarget hinit hinitializer
    subst htarget hraw
    cases stage with
    | attr => exact absurd rfl hstage
    | early =>
      cases op with
      | init kind slot attr value => cases hinit
      | get kind slot type' => exact ⟨⟨rfl, rfl⟩, by rintro c' ⟨⟩; exact ⟨by simp, rfl⟩⟩
      | use kind slot => exact ⟨rfl, by rintro c' ⟨⟩; exact ⟨by simp, rfl⟩⟩
      | destroy kind slot => exact ⟨rfl, by rintro c' ⟨⟩; exact ⟨by simp, rfl⟩⟩
    | locked =>
      cases op with
      | init kind slot attr value => cases hinit
      | get kind slot type' => exact ⟨⟨rfl, rfl⟩, by rintro c' ⟨⟩; exact ⟨by simp, rfl⟩⟩
      | use kind slot =>
        have hnone : staticInitializer kind q.raw = none := hinitializer
        simp only [resume, hnone]
        exact ⟨⟨rfl, rfl⟩, by rintro c' ⟨⟩; exact ⟨by simp, rfl⟩⟩
      | destroy kind slot =>
        have hnone : staticInitializer kind q.raw = none := hinitializer
        simp only [resume, hnone]
        exact ⟨⟨rfl, rfl⟩, by rintro c' ⟨⟩; exact ⟨by simp, rfl⟩⟩
  case locking =>
    simp only [advance, htarget] at hstep
    split at hstep
    · cases hstep
      exact ⟨by simpa [Pc.stores, Refused] using h,
        by rintro c' ⟨⟩; exact ⟨hstage, htarget⟩⟩
    · cases hstep
  case unlocking o =>
    cases hstep
    cases o with
    | found a => exact absurd h id
    | done => exact absurd h id
    | failed error =>
      have hleave : leave c (.failed error) = .returned c (.failed error) := by
        unfold leave
        split
        · rename_i hfound
          cases hfound
        · rfl
      rw [hleave]
      exact ⟨by simpa [Pc.stores, Refused] using h, by rintro c' ⟨⟩; exact ⟨hstage, htarget⟩⟩
  all_goals exact absurd h id

/-- A refused thread stores nothing. -/
theorem Refused.stores (h : Refused word stored pc) : pc.stores = false := by
  cases pc with
  | found c q r =>
    obtain ⟨-, -, rfl⟩ := h
    simp [Pc.stores]
  | _ => first | rfl | exact absurd h id

theorem declined_move {new : List Return} (hlog : s.log = s₀.log ++ new)
    (hnew : ∀ r ∈ new, Declined slot r)
    (hreturn : ∀ c o, pc' = .returned c o → Declined slot ⟨t, c.op, o, stored⟩) :
    ∃ new, (s.move t pc' stored).log = s₀.log ++ new ∧ ∀ r ∈ new, Declined slot r := by
  unfold State.move
  cases pc' with
  | returned c o =>
    refine ⟨new ++ [⟨t, c.op, o, stored⟩], by simp [hlog], fun r hr => ?_⟩
    obtain hold | hlast := List.mem_append.mp hr
    · exact hnew r hold
    · obtain rfl := List.mem_singleton.mp hlast
      exact hreturn c o rfl
  | _ => exact ⟨new, hlog, hnew⟩

theorem useless_of_leaves (huseless : ∀ x, reg.Answers ⟨word, slot, kind⟩ x →
      (reg.heap x).active = false) (hleaves : Leaves reg reg' slot) (hgrows : Grows reg reg') :
    ∀ x, reg'.Answers ⟨word, slot, kind⟩ x → (reg'.heap x).active = false := by
  intro x hx
  have hmem := hleaves.fresh x hx.published.mem hx.published.owner
  have hlater := hgrows.later x hmem
  have hold : reg.Answers ⟨word, slot, kind⟩ x :=
    ⟨⟨hmem, hlater.owner.symm.trans hx.published.owner,
      hlater.kind.symm.trans hx.published.kind⟩, hlater.rawHandle.symm.trans hx.raw⟩
  exact hgrows.stays_inactive hmem (huseless x hold)

theorem Rejecting.act (h : Rejecting p kind slot word s₀ s)
    (hinitializer : staticInitializer kind word = none) {calloc : Option Word} {code : Errno}
    (hstep : HandleRegistry.step p s (.act t calloc code) = some s') :
    Rejecting p kind slot word s₀ s' := by
  have hinvariant := h.invariant.step hstep
  have hgrows := h.invariant.step_grows hstep
  simp only [HandleRegistry.step, Option.map_eq_some_iff, Prod.exists] at hstep
  obtain ⟨reg', lock', pc', hadvance, rfl⟩ := hstep
  obtain ⟨c, hcall⟩ : ∃ c, (s.pc t).call = some c := by
    cases hpc : s.pc t <;> first | exact ⟨_, rfl⟩ | (rw [hpc] at hadvance; cases hadvance)
  have hfree : (s.pc t).free = false := by
    cases hpc : s.pc t <;> first | rfl | (rw [hpc] at hadvance; cases hadvance)
  have hmine : c.op.slot = slot → Leaves s.reg reg' slot ∧
      Refused word (s.stored t || (s.pc t).stores) pc' ∧
        ∀ c', pc'.call = some c' → c'.stage ≠ .attr ∧ c'.target = none := by
    intro hslot
    obtain ⟨hkind, hinit, hstage, htarget, hrefused⟩ := h.users t c hfree hcall hslot
    subst hslot hkind
    exact ⟨(advance_unseen h.invariant.sound (h.invariant.good t) hrefused.stores hadvance).leaves,
      advance_refused (h.invariant.good t) hcall hinit hstage htarget hinitializer hrefused h.held
        h.useless hadvance⟩
  have hleaves : Leaves s.reg reg' slot := by
    by_cases hslot : c.op.slot = slot
    · exact (hmine hslot).1
    · exact (advance_frame h.invariant.sound (h.invariant.good t) hcall hadvance).leaves
        (Ne.symm hslot)
  refine ⟨hinvariant, ?_, hleaves.word.trans h.held, useless_of_leaves h.useless hleaves hgrows, ?_⟩
  · intro u c' hfree' hcall' hslot
    by_cases hu : u = t
    · subst hu
      simp only [State.move, Function.update_self] at hcall' ⊢
      have hop := advance_op hcall hcall' hadvance
      obtain ⟨hkind, hinit, -⟩ := h.users u c hfree hcall (hop ▸ hslot)
      obtain ⟨-, hrefused, hcalls⟩ := hmine (hop ▸ hslot)
      obtain ⟨hstage, htarget⟩ := hcalls c' hcall'
      rw [hop]
      exact ⟨hkind, hinit, hstage, htarget, hrefused⟩
    · simp only [State.move, Function.update_of_ne hu] at hfree' hcall' ⊢
      exact h.users u c' hfree' hcall' hslot
  · obtain ⟨new, hlog, hnew⟩ := h.log
    refine declined_move hlog hnew ?_
    rintro c' o rfl hslot
    have hop := advance_op hcall rfl hadvance
    obtain ⟨-, hrefused, -⟩ := hmine (hop ▸ hslot)
    cases o with
    | found a => exact absurd hrefused id
    | done => exact absurd hrefused id
    | failed error => exact ⟨by rw [hrefused.2], hrefused.1⟩

theorem begin_not_init (word : Word) {op : Op} (hinit : op.isInit = false) :
    Refused word false (begin op) ∧
      ∀ c, (begin op).call = some c → c.stage ≠ .attr ∧ c.target = none := by
  unfold begin
  split
  · exact ⟨⟨rfl, rfl⟩, by rintro c' ⟨⟩; exact ⟨by simp, rfl⟩⟩
  · cases op with
    | init kind slot attr value => cases hinit
    | get kind slot type =>
      cases type with
      | none => exact ⟨rfl, by rintro c' ⟨⟩; exact ⟨by simp, rfl⟩⟩
      | some type =>
        dsimp only
        split
        · exact ⟨⟨rfl, rfl⟩, by rintro c' ⟨⟩; exact ⟨by simp, rfl⟩⟩
        · exact ⟨rfl, by rintro c' ⟨⟩; exact ⟨by simp, rfl⟩⟩
    | use kind slot => exact ⟨rfl, by rintro c' ⟨⟩; exact ⟨by simp, rfl⟩⟩
    | destroy kind slot =>
      dsimp only
      split
      · exact ⟨rfl, by rintro c' ⟨⟩; exact ⟨by simp, rfl⟩⟩
      · exact ⟨rfl, by rintro c' ⟨⟩; exact ⟨by simp, rfl⟩⟩

theorem Rejecting.step (h : Rejecting p kind slot word s₀ s)
    (hinitializer : staticInitializer kind word = none) (hasks : e.asks kind slot)
    (hstep : HandleRegistry.step p s e = some s') : Rejecting p kind slot word s₀ s' := by
  cases e with
  | act t calloc code => exact h.act hinitializer hstep
  | guestStore other value =>
    have hinvariant := h.invariant.step hstep
    cases hstep
    exact ⟨hinvariant, h.users, (Function.update_of_ne (Ne.symm hasks) _ _).trans h.held,
      fun x hx => h.useless x ⟨⟨hx.published.mem, hx.published.owner, hx.published.kind⟩, hx.raw⟩,
      h.log⟩
  | start t op =>
    have hinvariant := h.invariant.step hstep
    simp only [HandleRegistry.step] at hstep
    split at hstep <;> cases hstep
    refine ⟨hinvariant, ?_, h.held, h.useless, ?_⟩
    · intro u c hfree hcall hslot
      by_cases hu : u = t
      · subst hu
        simp only [State.move, Function.update_self] at hcall ⊢
        have hop := begin_op hcall
        obtain ⟨hkind, hinit⟩ := hasks (hop ▸ hslot)
        obtain ⟨hrefused, hcalls⟩ := begin_not_init word hinit
        obtain ⟨hstage, htarget⟩ := hcalls c hcall
        rw [hop]
        exact ⟨hkind, hinit, hstage, htarget, hrefused⟩
      · simp only [State.move, Function.update_of_ne hu] at hfree hcall ⊢
        exact h.users u c hfree hcall hslot
    · obtain ⟨new, hlog, hnew⟩ := h.log
      refine declined_move hlog hnew ?_
      rintro c o hreturn hslot
      have hop := begin_op (c := c) (by rw [hreturn]; rfl)
      obtain ⟨-, hinit⟩ := hasks (hop ▸ hslot)
      have hrefused := (begin_not_init word hinit).1
      rw [hreturn] at hrefused
      cases o with
      | found a => exact absurd hrefused id
      | done => exact absurd hrefused id
      | failed error => exact ⟨by rw [hrefused.2], hrefused.1⟩

theorem Rejecting.run {es : List Event} (h : Rejecting p kind slot word s₀ s)
    (hinitializer : staticInitializer kind word = none) (hasks : ∀ e ∈ es, e.asks kind slot)
    (hrun : Transition.run (HandleRegistry.step p) s es = some s') :
    Rejecting p kind slot word s₀ s' := by
  induction es generalizing s with
  | nil =>
    obtain rfl : s = s' := by simpa using hrun
    exact h
  | cons e es ih =>
    obtain ⟨u, hu, hrest⟩ := run_cons.mp hrun
    exact ih (h.step hinitializer (hasks e (by simp)) hu) (fun e he => hasks e (by simp [he])) hrest

end Rejected

section Main

variable {p : Platform} {s s' : State} {e : Event}

theorem initial_thorough (slots : Word → Word) (t : Tid) :
    (initial slots).reg.Thorough ((initial slots).pc t) := trivial

theorem thorough_of_run {slots : Word → Word} {es : List Event}
    (hrun : run (step p) (initial slots) es = some s) : ∀ t, s.reg.Thorough (s.pc t) := by
  have hkeep := run_invariant
    (P := fun s => Invariant p s ∧ ∀ t, s.reg.Thorough (s.pc t))
    (fun _ _ _ h hstep => ⟨h.1.step hstep, h.1.step_thorough h.2 hstep⟩)
    ⟨Invariant.initial p slots, initial_thorough slots⟩ hrun
  exact hkeep.2

/-- First operations on a slot: those that succeed work on one object, the only one that is
published for the slot, and it is as the initializer says; those that fail have stored nothing.
While the word is neither an initializer nor an active handle of the slot and the kind, every
operation fails with EINVAL. A step that is not marked as storing changes nothing that another
thread can see. -/
theorem lazy_creation_unique {p : Platform} {slots : Word → Word} {before : List Event}
    {s₀ : State} {kind : Kind} {slot : Word}
    (hs₀ : run (step p) (initial slots) before = some s₀) (hunused : s₀.Unused slot) :
    (∀ type, staticInitializer kind (s₀.reg.slots slot) = some type →
      ∀ es s, (∀ e ∈ es, e.uses kind slot) → run (step p) s₀ es = some s →
        ∃ made : Option Word,
          (∀ x, made = some x → x ∉ s₀.reg.published ∧ s.reg.Published x slot kind ∧
            (s.reg.heap x).active = true ∧ Initialised kind type (s.reg.heap x)) ∧
          (∀ x ∈ s.reg.published, (s.reg.heap x).owner = slot →
            x ∈ s₀.reg.published ∨ made = some x) ∧
          ∃ new, s.log = s₀.log ++ new ∧ ∀ r ∈ new, Settled slot made r) ∧
      (staticInitializer kind (s₀.reg.slots slot) = none →
        (∀ x, s₀.reg.Answers ⟨s₀.reg.slots slot, slot, kind⟩ x →
          (s₀.reg.heap x).active = false) →
        ∀ es s, (∀ e ∈ es, e.asks kind slot) → run (step p) s₀ es = some s →
          s.reg.slots slot = s₀.reg.slots slot ∧
            ∃ new, s.log = s₀.log ++ new ∧ ∀ r ∈ new, Declined slot r) ∧
      ∀ es s t calloc code u, run (step p) s₀ es = some s → (s.pc t).stores = false →
        step p s (.act t calloc code) = some u → Unseen s.reg u.reg := by
  have hinvariant := (Invariant.initial p slots).run hs₀
  refine ⟨?_, ?_, ?_⟩
  · intro type hinitializer es s huses hrun
    have hfirst : Single p kind slot _ type s₀ none s₀ :=
      Single.first hinvariant (thorough_of_run hs₀) hunused rfl
    obtain ⟨made, h⟩ := hfirst.run hinitializer huses hrun
    exact ⟨made, h.object, h.fresh, h.log⟩
  · intro hinitializer huseless es s hasks hrun
    have hfirst : Rejecting p kind slot (s₀.reg.slots slot) s₀ s₀ := by
      refine ⟨hinvariant, ?_, rfl, huseless, [], by simp⟩
      intro t c hfree hcall hslot
      rw [hunused t c hcall hslot] at hfree
      cases hfree
    have h := hfirst.run hinitializer hasks hrun
    exact ⟨h.held, h.log⟩
  · intro es s t calloc code u hrun hstores hstep
    have h := hinvariant.run hrun
    simp only [step, Option.map_eq_some_iff, Prod.exists] at hstep
    obtain ⟨reg', lock', pc', hadvance, rfl⟩ := hstep
    exact advance_unseen h.sound (h.good t) hstores hadvance

/-- The word of slot 0x40 is the initializer of a recursive mutex. -/
def recursiveMutex : Word → Word := fun slot => if slot = 0x40 then 0x4000 else 0

/-- Two threads lock the mutex for the first time; the first one has no memory. -/
def racingLocks : List Event :=
  [.start 1 (mutexGetOrCreate 0x40), .start 2 (mutexGetOrCreate 0x40)] ++
    List.replicate 4 (.act 1 none 0) ++ List.replicate 3 (.act 2 none 0) ++
    List.replicate 5 (.act 1 none 0) ++ List.replicate 4 (.act 2 none 0) ++
    [.act 2 (some 0x10000) 0] ++ List.replicate 6 (.act 2 none 0) ++
    [.start 1 (mutexGetOrCreate 0x40)] ++ List.replicate 4 (.act 1 none 0)

def afterRacingLocks : State :=
  (run (step smallPlatform) (initial recursiveMutex) racingLocks).getD (initial recursiveMutex)

theorem lazy_creation_unique_racing :
    run (step smallPlatform) (initial recursiveMutex) racingLocks = some afterRacingLocks ∧
      afterRacingLocks.log = [⟨1, mutexGetOrCreate 0x40, .failed ENOMEM, false⟩,
        ⟨2, mutexGetOrCreate 0x40, .found 0x10000, true⟩,
        ⟨1, mutexGetOrCreate 0x40, .found 0x10000, false⟩] ∧
      ∃ made : Option Word,
        (∀ x, made = some x → x ∉ (initial recursiveMutex).reg.published ∧
          afterRacingLocks.reg.Published x 0x40 .mutex ∧
          (afterRacingLocks.reg.heap x).active = true ∧
          Initialised .mutex 1 (afterRacingLocks.reg.heap x)) ∧
        ∃ new, afterRacingLocks.log = [] ++ new ∧ ∀ r ∈ new, Settled 0x40 made r := by
  have hrun := (Option.getD_of_ne_none (Option.isSome_iff_ne_none.mp
    (show (run (step smallPlatform) (initial recursiveMutex) racingLocks).isSome = true by
      decide +kernel)) (initial recursiveMutex)).symm
  have hunused : (initial recursiveMutex).Unused 0x40 := fun t c hcall => by cases hcall
  have huses : ∀ e ∈ racingLocks, e.uses .mutex 0x40 := by
    simp [racingLocks, Event.uses, mutexGetOrCreate]
  have hstart : run (step smallPlatform) (initial recursiveMutex) [] =
      some (initial recursiveMutex) := rfl
  obtain ⟨hlegal, -⟩ := lazy_creation_unique hstart hunused
  obtain ⟨made, hobject, -, hlog⟩ := hlegal 1 (by decide) racingLocks _ huses hrun
  exact ⟨hrun, by decide +kernel, made, hobject, hlog⟩

end Main

end Asm2Runtime.HandleRegistry
