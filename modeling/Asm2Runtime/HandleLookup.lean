import Asm2Runtime.HandleInvariant

/-!
# Lookups without the lock

A lookup may be on an object that is taken out of its chain under it. The object's own
link stays, and all objects behind it are older, so the walk goes on towards the object
it seeks and ends.
-/

namespace Asm2Runtime.HandleRegistry

open LinkedChain StaleChain Transition

/-- The event is a step of this thread. -/
def Event.acts (t : Tid) : Event → Bool
  | .act u _ _ => u = t
  | _ => false

/-- The thread is in this call of `registry_find`. -/
def Pc.looks (c : Call) (q : Query) : Pc → Bool
  | .finding c' q' _ => c' = c && q' = q
  | _ => false

def Looking (t : Tid) (c : Call) (q : Query) (s : State) : Prop := (s.pc t).looks c q = true

instance decidableLooking (t : Tid) (c : Call) (q : Query) (s : State) :
    Decidable (Looking t c q s) := inferInstanceAs (Decidable (_ = true))

namespace Registry

/-- The object was published for the word, the slot and the kind of a lookup. -/
structure Answers (reg : Registry) (q : Query) (a : Word) : Prop where
  published : reg.Published a q.owner q.kind
  raw : (reg.heap a).rawHandle = q.raw

/-- Where a lookup is after its next step. -/
def walk (reg : Registry) (c : Call) (q : Query) : Walk → Pc
  | .head => if q.raw = 0 then .found c q none
    else visit c q (reg.registry (registryBucket q.raw))
  | .node a => if q.finds (reg.heap a) then .found c q (some a) else .finding c q (.next a)
  | .next a => visit c q (reg.activeNext a)

/-- The number of steps that a lookup may still take; it ends at the oldest object. -/
def stepsLeft (reg : Registry) (q : Query) : Walk → Nat
  | .head => 0
  | .node a => 2 * age (reg.born (registryBucket q.raw)) a
  | .next a => 2 * age (reg.born (registryBucket q.raw)) a - 1

/-- The lookup has not passed the object. -/
def Ahead (reg : Registry) (x : Word) (q : Query) : Walk → Prop
  | .head => True
  | .node a => age (reg.born (registryBucket q.raw)) x ≤ age (reg.born (registryBucket q.raw)) a
  | .next a => age (reg.born (registryBucket q.raw)) x < age (reg.born (registryBucket q.raw)) a

end Registry

section Steps

variable {p : Platform} {reg : Registry} {s s' : State} {e : Event} {t : Tid} {c : Call}
  {q : Query} {w : Walk} {x : Word}

theorem advance_finding (p : Platform) (reg : Registry) (lock : Option Tid) (t : Tid)
    (calloc : Option Word) (code : Errno) (c : Call) (q : Query) (w : Walk) :
    advance p reg lock t calloc code (.finding c q w) = some (reg, lock, reg.walk c q w) := by
  cases w with
  | head =>
    simp only [advance, Registry.walk]
    split <;> rfl
  | node a =>
    simp only [advance, Registry.walk]
    split <;> rfl
  | next a => rfl

/-- A lookup is moved by its own thread only, and it changes nothing. -/
theorem step_looking (hw : s.pc t = .finding c q w) (hstep : step p s e = some s') :
    (e.acts t = true ∧ s'.reg = s.reg ∧ s'.pc t = s.reg.walk c q w) ∨
      (e.acts t = false ∧ s'.pc t = .finding c q w) := by
  cases e with
  | guestStore slot value =>
    cases hstep
    exact Or.inr ⟨rfl, hw⟩
  | start u op =>
    simp only [step] at hstep
    split at hstep
    · rename_i hfree
      cases hstep
      have hu : t ≠ u := by
        rintro rfl
        simp [hw, Pc.free] at hfree
      refine Or.inr ⟨rfl, ?_⟩
      rw [Invariant.move_pc, Function.update_of_ne hu, hw]
    · cases hstep
  | act u calloc code =>
    by_cases hu : u = t
    · subst hu
      simp only [step, hw, advance_finding, Option.map_some, Option.some.injEq] at hstep
      subst hstep
      exact Or.inl ⟨by simp [Event.acts], rfl, by simp [Invariant.move_pc]⟩
    · simp only [step, Option.map_eq_some_iff, Prod.exists] at hstep
      obtain ⟨reg', lock', pc', -, rfl⟩ := hstep
      refine Or.inr ⟨by simp [Event.acts, hu], ?_⟩
      rw [Invariant.move_pc, Function.update_of_ne (Ne.symm hu), hw]

/-- The walk goes on with an object of the bucket, or the lookup is over. -/
theorem walk_cases (reg : Registry) (c : Call) (q : Query) (w : Walk) :
    (∃ r, reg.walk c q w = .found c q r) ∨
      ∃ a, reg.walk c q w = .finding c q (.node a) ∨ reg.walk c q w = .finding c q (.next a) := by
  cases w with
  | head =>
    simp only [Registry.walk]
    split
    · exact Or.inl ⟨none, rfl⟩
    · cases reg.registry (registryBucket q.raw) with
      | none => exact Or.inl ⟨none, rfl⟩
      | some a => exact Or.inr ⟨a, Or.inl rfl⟩
  | node a =>
    simp only [Registry.walk]
    split
    · exact Or.inl ⟨some a, rfl⟩
    · exact Or.inr ⟨a, Or.inr rfl⟩
  | next a =>
    simp only [Registry.walk]
    cases reg.activeNext a with
    | none => exact Or.inl ⟨none, rfl⟩
    | some b => exact Or.inr ⟨b, Or.inl rfl⟩

/-- What a lookup returns was active at its last step. -/
theorem walk_found (hgood : reg.Good (.finding c q w)) {a : Word}
    (hwalk : reg.walk c q w = .found c q (some a)) :
    reg.Answers q a ∧ (reg.heap a).active = true := by
  cases w with
  | head =>
    simp only [Registry.walk] at hwalk
    split at hwalk
    · simp at hwalk
    · cases hload : reg.registry (registryBucket q.raw) <;> simp [hload, visit] at hwalk
  | next b => cases hload : reg.activeNext b <;> simp [Registry.walk, hload, visit] at hwalk
  | node b =>
    simp only [Registry.walk] at hwalk
    split at hwalk
    · rename_i hfinds
      simp only [Pc.found.injEq, true_and, Option.some.injEq] at hwalk
      subst hwalk
      simp only [Query.finds, Bool.and_eq_true, decide_eq_true_eq] at hfinds
      obtain ⟨⟨⟨⟨hraw, howner⟩, -⟩, hkind⟩, hactive⟩ := hfinds
      exact ⟨⟨⟨(Registry.mem_born.mp hgood.2.2).1, howner, hkind⟩, hraw⟩, hactive⟩
    · simp at hwalk

/-- Each step of a walk is one less to go. -/
theorem walk_stepsLeft {w' : Walk} (h : reg.Sound p) (hgood : reg.Good (.finding c q w))
    (hw : w ≠ .head) (hwalk : reg.walk c q w = .finding c q w') :
    reg.stepsLeft q w' < reg.stepsLeft q w := by
  have hpos : ∀ {a}, a ∈ reg.born (registryBucket q.raw) →
      0 < age (reg.born (registryBucket q.raw)) a := age_pos_iff.mpr
  cases w with
  | head => exact absurd rfl hw
  | node a =>
    simp only [Registry.walk] at hwalk
    split at hwalk
    · simp at hwalk
    · simp only [Pc.finding.injEq, true_and] at hwalk
      subst hwalk
      have := hpos hgood.2.2
      simp only [Registry.stepsLeft]
      omega
  | next a =>
    simp only [Registry.walk] at hwalk
    cases hload : reg.activeNext a with
    | none => simp [hload, visit] at hwalk
    | some b =>
      simp only [hload, visit, Pc.finding.injEq, true_and] at hwalk
      subst hwalk
      obtain ⟨hb, hlt⟩ := (h.trail _).down a hgood.2.2 b hload
      simp only [Registry.stepsLeft]
      omega

theorem stepsLeft_pos (hgood : reg.Good (.finding c q w)) (hw : w ≠ .head) :
    0 < reg.stepsLeft q w := by
  cases w with
  | head => exact absurd rfl hw
  | node a =>
    have : 0 < age (reg.born (registryBucket q.raw)) a := age_pos_iff.mpr hgood.2.2
    simp only [Registry.stepsLeft]
    omega
  | next a =>
    have : 0 < age (reg.born (registryBucket q.raw)) a := age_pos_iff.mpr hgood.2.2
    simp only [Registry.stepsLeft]
    omega

theorem stepsLeft_le (reg : Registry) (q : Query) (w : Walk) :
    reg.stepsLeft q w ≤ 2 * reg.published.length := by
  have hborn : (reg.born (registryBucket q.raw)).length ≤ reg.published.length :=
    List.length_filter_le _ _
  cases w with
  | head => exact Nat.zero_le _
  | node a =>
    have := age_le (reg.born (registryBucket q.raw)) a
    simp only [Registry.stepsLeft]
    omega
  | next a =>
    have := age_le (reg.born (registryBucket q.raw)) a
    simp only [Registry.stepsLeft]
    omega

/-- An active object that answers the lookup is not walked past. -/
theorem walk_ahead (h : reg.Sound p) (hgood : reg.Good (.finding c q w))
    (hx : reg.Answers q x) (hactive : (reg.heap x).active = true) (hahead : reg.Ahead x q w) :
    reg.walk c q w = .found c q (some x) ∨
      ∃ w', reg.walk c q w = .finding c q w' ∧ reg.Ahead x q w' := by
  have hraw : x = q.raw := (h.handle x hx.published.mem).symm.trans hx.raw
  have hlive : x ∈ reg.chain (registryBucket q.raw) := by
    rw [← hraw]
    exact Registry.mem_chain.mpr ⟨⟨hx.published.mem, rfl⟩, h.linked x hx.published.mem hactive⟩
  have htrail := h.trail (registryBucket q.raw)
  cases w with
  | head =>
    have hne : q.raw ≠ 0 := by
      have hunmapped := p.unmapped x (h.callocs x (h.held x hx.published.mem))
      rintro hzero
      simp [hraw, hzero] at hunmapped
    obtain ⟨a, ha, -, hle⟩ := htrail.head_bound hlive
    refine Or.inr ⟨.node a, ?_, hle⟩
    rw [Registry.walk, if_neg hne, ha, visit]
  | node a =>
    by_cases hfinds : q.finds (reg.heap a) = true
    · obtain rfl : a = x := by
        simp only [Query.finds, Bool.and_eq_true, decide_eq_true_eq] at hfinds
        rw [hraw, ← hfinds.1.1.1.1]
        exact (h.handle a (Registry.mem_born.mp hgood.2.2).1).symm
      exact Or.inl (by rw [Registry.walk, if_pos hfinds])
    · refine Or.inr ⟨.next a, by rw [Registry.walk, if_neg hfinds], ?_⟩
      have hne : age (reg.born (registryBucket q.raw)) x ≠
          age (reg.born (registryBucket q.raw)) a := by
        intro heq
        obtain rfl := age_inj (htrail.subset x hlive) heq
        have hmagic := h.magic x hx.published.mem
        simp [Query.finds, hx.raw, hx.published.owner, hx.published.kind, hactive, hmagic] at hfinds
      exact Nat.lt_of_le_of_ne hahead hne
  | next a =>
    obtain ⟨b, hb, hle⟩ := htrail.gap a hgood.2.2 x hlive hahead
    refine Or.inr ⟨.node b, ?_, hle⟩
    rw [Registry.walk, hb, visit]

end Steps

section Runs

variable {p : Platform} {reg reg' : Registry} {s s' : State} {e : Event} {es : List Event}
  {t : Tid} {c : Call} {q : Query} {w : Walk} {x : Word}

theorem Registry.Answers.grows (hx : reg.Answers q x) (h : Grows reg reg') : reg'.Answers q x :=
  ⟨h.keeps hx.published, (h.later x hx.published.mem).rawHandle.trans hx.raw⟩

theorem Grows.age_born (h : Grows reg reg') (hsound : reg'.Sound p) {b : BitVec 8} {a : Word}
    (ha : a ∈ reg.born b) : age (reg'.born b) a = age (reg.born b) a :=
  age_suffix (h.published.filter _) (hsound.nodup.filter _) ha

/-- The steps of other threads do not lengthen a walk. -/
theorem Grows.stepsLeft (h : Grows reg reg') (hsound : reg'.Sound p)
    (hgood : reg.Good (.finding c q w)) : reg'.stepsLeft q w = reg.stepsLeft q w := by
  cases w with
  | head => rfl
  | node a => rw [Registry.stepsLeft, Registry.stepsLeft, h.age_born hsound hgood.2.2]
  | next a => rw [Registry.stepsLeft, Registry.stepsLeft, h.age_born hsound hgood.2.2]

theorem Grows.ahead (h : Grows reg reg') (hsound : reg'.Sound p)
    (hgood : reg.Good (.finding c q w)) (hx : x ∈ reg.born (registryBucket q.raw))
    (hahead : reg.Ahead x q w) : reg'.Ahead x q w := by
  cases w with
  | head => trivial
  | node a =>
    rw [Registry.Ahead, h.age_born hsound hx, h.age_born hsound hgood.2.2]
    exact hahead
  | next a =>
    rw [Registry.Ahead, h.age_born hsound hx, h.age_born hsound hgood.2.2]
    exact hahead

/-- A lookup takes no step after the one that ends it. -/
theorem along_found {r : Option Word} (hwithin : Along (step p) (fun s _ => Looking t c q s) s es)
    (hfound : s.pc t = .found c q r) : es = [] := by
  cases es with
  | nil => rfl
  | cons e es =>
    have hlooking := hwithin.1
    simp [Looking, hfound, Pc.looks] at hlooking

theorem lookup_steps (h : Invariant p s) (hloaded : w ≠ .head) (hw : s.pc t = .finding c q w)
    (hrun : run (step p) s es = some s')
    (hwithin : Along (step p) (fun s _ => Looking t c q s) s es) :
    es.countP (Event.acts t) ≤ s.reg.stepsLeft q w := by
  induction es generalizing s w with
  | nil => exact Nat.zero_le _
  | cons e es ih =>
    obtain ⟨u, hu, hrest⟩ := run_cons.mp hrun
    have hgood : s.reg.Good (.finding c q w) := hw ▸ h.good t
    rw [List.countP_cons]
    obtain ⟨hacts, hreg, hpc⟩ | ⟨hacts, hpc⟩ := step_looking hw hu
    · rw [if_pos hacts]
      have hpos := stepsLeft_pos hgood hloaded
      obtain ⟨r, hr⟩ | ⟨a, ha⟩ := walk_cases s.reg c q w
      · rw [along_found (hwithin.2 u hu) (hpc.trans hr), List.countP_nil]
        exact hpos
      · obtain ⟨w', hw', hloaded'⟩ : ∃ w', s.reg.walk c q w = .finding c q w' ∧ w' ≠ .head := by
          obtain ha | ha := ha
          · exact ⟨_, ha, by simp⟩
          · exact ⟨_, ha, by simp⟩
        have hlt := walk_stepsLeft h.sound hgood hloaded hw'
        have hle := ih (h.step hu) hloaded' (hpc.trans hw') hrest (hwithin.2 u hu)
        rw [hreg] at hle
        omega
    · have hle := ih (h.step hu) hloaded hpc hrest (hwithin.2 u hu)
      rw [(h.step_grows hu).stepsLeft (h.step hu).sound hgood] at hle
      simpa [hacts] using hle

/-- The last step of a lookup. -/
theorem lookup_last {r : Option Word} (hw : s.pc t = .finding c q w)
    (hrun : run (step p) s es = some s')
    (hwithin : Along (step p) (fun s _ => Looking t c q s) s es)
    (hfound : s'.pc t = .found c q r) :
    ∃ fs gs u w', es = fs ++ gs ∧ run (step p) s fs = some u ∧ run (step p) u gs = some s' ∧
      u.pc t = .finding c q w' ∧ u.reg.walk c q w' = .found c q r := by
  induction es generalizing s w with
  | nil =>
    obtain rfl : s = s' := by simpa using hrun
    rw [hw] at hfound
    cases hfound
  | cons e es ih =>
    obtain ⟨v, hv, hrest⟩ := run_cons.mp hrun
    obtain ⟨w', hw'⟩ | hlast :
        (∃ w', v.pc t = .finding c q w') ∨ s.reg.walk c q w = .found c q r := by
      obtain ⟨-, -, hpc⟩ | ⟨-, hpc⟩ := step_looking hw hv
      · obtain ⟨r', hr'⟩ | ⟨a, ha | ha⟩ := walk_cases s.reg c q w
        · have hnil := along_found (hwithin.2 v hv) (hpc.trans hr')
          subst hnil
          obtain rfl : v = s' := by simpa using hrest
          exact Or.inr (hpc.symm.trans hfound)
        · exact Or.inl ⟨_, hpc.trans ha⟩
        · exact Or.inl ⟨_, hpc.trans ha⟩
      · exact Or.inl ⟨w, hpc⟩
    · obtain ⟨fs, gs, u, w'', rfl, hfs, hgs, hu, hlast⟩ :=
        ih hw' hrest (hwithin.2 v hv)
      exact ⟨e :: fs, gs, u, w'', rfl, run_cons.mpr ⟨v, hv, hfs⟩, hgs, hu, hlast⟩
    · exact ⟨[], e :: es, s, w, rfl, rfl, hrun, hw, hlast⟩

theorem lookup_ahead {r : Option Word} (h : Invariant p s) (hw : s.pc t = .finding c q w)
    (hrun : run (step p) s es = some s')
    (hwithin : Along (step p) (fun s _ => Looking t c q s) s es)
    (hfound : s'.pc t = .found c q r) (hx : s.reg.Answers q x)
    (hactive : Always (step p) (fun s => (s.reg.heap x).active = true) s es)
    (hahead : s.reg.Ahead x q w) : r = some x := by
  induction es generalizing s w with
  | nil =>
    obtain rfl : s = s' := by simpa using hrun
    rw [hw] at hfound
    cases hfound
  | cons e es ih =>
    obtain ⟨u, hu, hrest⟩ := run_cons.mp hrun
    have hgood : s.reg.Good (.finding c q w) := hw ▸ h.good t
    have hgrows := h.step_grows hu
    obtain ⟨-, hreg, hpc⟩ | ⟨-, hpc⟩ := step_looking hw hu
    · obtain hend | ⟨w', hw', hahead'⟩ :=
        walk_ahead h.sound hgood hx (hactive [] (e :: es) s rfl rfl) hahead
      · have hnil := along_found (hwithin.2 u hu) (hpc.trans hend)
        subst hnil
        obtain rfl : u = s' := by simpa using hrest
        rw [hpc, hend] at hfound
        exact (Pc.found.inj hfound).2.2.symm
      · exact ih (h.step hu) (hpc.trans hw') hrest (hwithin.2 u hu) (hx.grows hgrows)
          (hactive.cons hu).2 (hreg ▸ hahead')
    · have hborn : x ∈ s.reg.born (registryBucket q.raw) := by
        refine Registry.mem_born.mpr ⟨hx.published.mem, ?_⟩
        rw [← hx.raw, h.sound.handle x hx.published.mem]
      exact ih (h.step hu) hpc hrest (hwithin.2 u hu) (hx.grows hgrows) (hactive.cons hu).2
        (hgrows.ahead (h.step hu).sound hgood hborn hahead)

end Runs

section Words

/-- While only the bridge stores to guest words, a lookup under the lock is for the word that
its slot holds. -/
def Registry.Current (reg : Registry) : Pc → Prop
  | .finding c q _ | .found c q _ => c.stage = .locked → q.raw = reg.slots c.op.slot
  | .destroying c a => c.target = none → reg.slots c.op.slot = a
  | _ => True

/-- The event is not a store of the guest. -/
def Event.bridge : Event → Bool
  | .guestStore _ _ => false
  | _ => true

variable {p : Platform} {reg reg' : Registry} {pc pc' : Pc} {s s' : State} {e : Event}

theorem Registry.Current.outside (h : pc.inside = false) : reg.Current pc := by
  cases pc with
  | finding c q w =>
    intro hstage
    simp [Pc.inside, hstage] at h
  | found c q r =>
    intro hstage
    simp [Pc.inside, hstage] at h
  | destroying c a => simp [Pc.inside] at h
  | _ => trivial

theorem Registry.Current.congr (h : reg.Current pc) (hslots : reg'.slots = reg.slots) :
    reg'.Current pc := by
  cases pc with
  | finding c q w =>
    intro hstage
    rw [hslots]
    exact h hstage
  | found c q r =>
    intro hstage
    rw [hslots]
    exact h hstage
  | destroying c a =>
    intro htarget
    rw [hslots]
    exact h htarget
  | _ => trivial

theorem resume_current {c : Call} {q : Query} {r : Option Word} (h : reg.Current (.found c q r))
    (hgood : reg.Good (.found c q r)) :
    (resume reg c q r).1.Current (resume reg c q r).2 := by
  unfold resume
  split
  case h_6 a hstage =>
    split
    · trivial
    · split
      · trivial
      · intro _
        exact (h hstage).symm.trans (hgood.2.2 a rfl).2.1.symm
    · trivial
  all_goals
    repeat' split
    all_goals trivial

theorem advance_current {lock lock' : Option Tid} {t : Tid} {calloc : Option Word} {code : Errno}
    (h : reg.Current pc) (hgood : reg.Good pc)
    (hstep : advance p reg lock t calloc code pc = some (reg', lock', pc')) :
    reg'.Current pc' := by
  cases pc with
  | idle => cases hstep
  | returned c o => cases hstep
  | loading c =>
    cases hstep
    intro hstage
    change reg.slots c.address = reg.slots c.op.slot
    unfold Call.address
    split
    · simp_all
    · rfl
  | finding c q w =>
    rw [advance_finding] at hstep
    cases hstep
    obtain ⟨r, hr⟩ | ⟨a, ha | ha⟩ := walk_cases reg c q w
    · rw [hr]
      exact h
    · rw [ha]
      exact h
    · rw [ha]
      exact h
  | found c q r =>
    cases hstep
    exact resume_current h hgood
  | locking c =>
    simp only [advance] at hstep
    split at hstep
    · split at hstep
      · rename_i a ha
        cases hstep
        simp [Registry.Current, ha]
      · cases hstep
        trivial
    · cases hstep
  | allocating c type =>
    simp only [advance] at hstep
    split at hstep
    · cases hstep
      trivial
    · split at hstep <;> cases hstep
      trivial
  | initializing c a type =>
    simp only [advance] at hstep
    split at hstep <;> cases hstep <;> trivial
  | destroying c a =>
    simp only [advance] at hstep
    split at hstep <;> cases hstep <;> trivial
  | seeking c a link =>
    simp only [advance] at hstep
    split at hstep
    · cases hstep
      trivial
    · split at hstep <;> cases hstep <;> trivial
  | unlocking c o =>
    cases hstep
    exact Registry.Current.outside (leave_inside c o)
  | _ =>
    cases hstep
    trivial

/-- What a step of one thread leaves as it is for the owner of the lock. -/
theorem advance_slots {lock lock' : Option Tid} {t : Tid} {calloc : Option Word} {code : Errno}
    (hgood : reg.Good pc) (houtside : pc.inside = false)
    (hstep : advance p reg lock t calloc code pc = some (reg', lock', pc')) :
    reg'.slots = reg.slots := by
  obtain rfl | ⟨a, -, type, rfl⟩ := advance_outside hgood houtside hstep <;> rfl

theorem Invariant.step_current (h : Invariant p s) (hcurrent : ∀ t, s.reg.Current (s.pc t))
    (hbridge : e.bridge = true) (hstep : HandleRegistry.step p s e = some s') :
    ∀ t, s'.reg.Current (s'.pc t) := by
  intro u
  cases e with
  | guestStore slot value => cases hbridge
  | start t op =>
    simp only [HandleRegistry.step] at hstep
    split at hstep <;> cases hstep
    rw [Invariant.move_pc]
    by_cases hu : u = t
    · subst hu
      rw [Function.update_self]
      exact Registry.Current.outside (begin_inside op)
    · rw [Function.update_of_ne hu]
      exact hcurrent u
  | act t calloc code =>
    simp only [HandleRegistry.step, Option.map_eq_some_iff, Prod.exists] at hstep
    obtain ⟨reg', lock', pc', hadvance, rfl⟩ := hstep
    rw [Invariant.move_pc]
    by_cases hu : u = t
    · subst hu
      rw [Function.update_self]
      exact advance_current (hcurrent u) (h.good u) hadvance
    · rw [Function.update_of_ne hu]
      cases hin : (s.pc u).inside with
      | false => exact Registry.Current.outside hin
      | true => exact (hcurrent u).congr (advance_slots (h.good t) (h.alone hu hin) hadvance)

end Words

section Main

/-- What a lookup that is called in `s` and returns `r` in `s'` promises. -/
structure Resolves (p : Platform) (s s' : State) (es : List Event) (q : Query)
    (r : Option Word) : Prop where
  /-- Only an object of this word, slot and kind, and active at some moment. -/
  active : ∀ a, r = some a → ∃ fs gs u, es = fs ++ gs ∧ run (step p) s fs = some u ∧
    u.reg.Answers q a ∧ (u.reg.heap a).active = true
  /-- No handle of another slot or of another kind. -/
  foreign : ∀ a ∈ s'.reg.published, (s'.reg.heap a).rawHandle = q.raw →
    (s'.reg.heap a).owner ≠ q.owner ∨ (s'.reg.heap a).kind ≠ q.kind → r = none
  initializer : ∀ kind, (staticInitializer kind q.raw).isSome → r = none
  destroyed : ∀ a ∈ s.reg.published, (s.reg.heap a).rawHandle = q.raw →
    (s.reg.heap a).active = false → r = none
  /-- An object that is active throughout is found. -/
  complete : ∀ x, s.reg.Answers q x →
    Always (step p) (fun s => (s.reg.heap x).active = true) s es → r = some x

variable {p : Platform} {s s' : State} {es : List Event} {t : Tid} {c : Call} {q : Query}
  {w : Walk}

theorem toNat_le_of_and_not {n : Nat} {raw mask : BitVec n} (h : raw &&& ~~~mask = 0) :
    raw.toNat ≤ mask.toNat := by
  have hraw : raw = raw &&& mask := by
    ext i hi
    have hbit := congrArg (fun v : BitVec n => v.getLsbD i) h
    simp [hi] at hbit ⊢
    exact hbit
  rw [hraw, BitVec.toNat_and]
  exact Nat.and_le_right

/-- No static initializer is an address that `calloc` returns. -/
theorem staticInitializer_lt {kind : Kind} {raw : Word}
    (h : (staticInitializer kind raw).isSome) : raw.toNat < 0x10000 := by
  unfold staticInitializer at h
  split at h
  · cases h
  · cases h
  · unfold staticMutexType at h
    split at h
    · cases h
    · rename_i hmask
      have hle := toNat_le_of_and_not (of_not_not hmask)
      exact Nat.lt_of_le_of_lt hle (by decide)
  · split at h
    · cases h
    · rename_i hmask
      have hle := toNat_le_of_and_not (of_not_not hmask)
      exact Nat.lt_of_le_of_lt hle (by decide)
  · split at h
    · cases h
    · omega

theorem resolves (h : Invariant p s) (hcalled : s.pc t = .finding c q .head)
    (hrun : run (step p) s es = some s')
    (hwithin : Along (step p) (fun s _ => Looking t c q s) s es) {r : Option Word}
    (hfound : s'.pc t = .found c q r) : Resolves p s s' es q r := by
  obtain ⟨fs, gs, u, w, rfl, hfs, hgs, hu, hlast⟩ := lookup_last hcalled hrun hwithin hfound
  have hinv := h.run hfs
  have hgood : u.reg.Good (.finding c q w) := hu ▸ hinv.good t
  have hbefore := h.run_grows hfs
  have hafter := hinv.run_grows hgs
  have hanswer : ∀ a, r = some a → u.reg.Answers q a ∧ (u.reg.heap a).active = true := by
    rintro a rfl
    exact walk_found hgood hlast
  have hraw : ∀ {a}, u.reg.Answers q a → a = q.raw := fun ha =>
    (hinv.sound.handle _ ha.published.mem).symm.trans ha.raw
  constructor
  case active =>
    intro a ha
    exact ⟨fs, gs, u, rfl, hfs, hanswer a ha⟩
  case foreign =>
    intro a hmem haraw hforeign
    cases r with
    | none => rfl
    | some b =>
      have hb := (hanswer b rfl).1
      obtain rfl : a = b := by
        rw [hraw hb, ← haraw, (h.run hrun).sound.handle a hmem]
      have hlater := (hb.grows hafter).published
      rcases hforeign with howner | hkind
      · exact absurd hlater.owner howner
      · exact absurd hlater.kind hkind
  case initializer =>
    intro kind hkind
    cases r with
    | none => rfl
    | some b =>
      have hb := (hanswer b rfl).1
      have hheld := hinv.sound.held b hb.published.mem
      have hunmapped := p.unmapped b (hinv.sound.callocs b hheld)
      have hlt := staticInitializer_lt hkind
      rw [hraw hb] at hunmapped
      omega
  case destroyed =>
    intro a hmem haraw hoff
    cases r with
    | none => rfl
    | some b =>
      obtain ⟨hb, hon⟩ := hanswer b rfl
      obtain rfl : a = b := by
        rw [hraw hb, ← haraw, h.sound.handle a hmem]
      rw [hbefore.stays_inactive hmem hoff] at hon
      cases hon
  case complete =>
    intro x hx hactive
    exact lookup_ahead h hcalled hrun hwithin hfound hx hactive trivial

/-- For every interleaving and every word, lookups find what is there and nothing else: no two
objects are ever published under one handle, a walk ends after two steps for each object that
was published when it loaded the bucket head, and what it returns is as in `Resolves`. -/
theorem lookups_resolve {p : Platform} {slots : Word → Word} {before : List Event} {s : State}
    (hs : run (step p) (initial slots) before = some s) :
    (s.reg.published.map fun a => (s.reg.heap a).rawHandle).Nodup ∧
      ∀ t c q w, s.pc t = .finding c q w →
        (∀ calloc code, ∃ u, step p s (.act t calloc code) = some u ∧
          ∀ w', u.pc t = .finding c q w' → w' ≠ .head) ∧
        ∀ es s', run (step p) s es = some s' →
          Along (step p) (fun s _ => Looking t c q s) s es →
          (w ≠ .head → es.countP (Event.acts t) ≤ 2 * s.reg.published.length) ∧
          ∀ r, w = .head → s'.pc t = .found c q r → Resolves p s s' es q r := by
  have h := (Invariant.initial p slots).run hs
  refine ⟨?_, fun t c q w hw => ⟨fun calloc code => ?_, fun es s' hrun hwithin => ⟨?_, ?_⟩⟩⟩
  · have hhandles : (s.reg.published.map fun a => (s.reg.heap a).rawHandle) = s.reg.published := by
      refine (List.map_congr_left h.sound.handle).trans ?_
      simp
    rw [hhandles]
    exact h.sound.nodup
  · have henabled : ∃ u, step p s (.act t calloc code) = some u := by
      simp [step, hw, advance_finding]
    obtain ⟨u, hu⟩ := henabled
    refine ⟨u, hu, fun w' hw' => ?_⟩
    obtain ⟨-, -, hpc⟩ | ⟨hacts, -⟩ := step_looking hw hu
    · obtain ⟨r, hr⟩ | ⟨a, ha | ha⟩ := walk_cases s.reg c q w <;> rw [hpc] at hw'
      · rw [hr] at hw'
        cases hw'
      · rw [ha] at hw'
        cases hw'
        simp
      · rw [ha] at hw'
        cases hw'
        simp
    · simp [Event.acts] at hacts
  · intro hloaded
    exact Nat.le_trans (lookup_steps h hloaded hw hrun hwithin) (stepsLeft_le s.reg q w)
  · rintro r rfl hfound
    exact resolves h hw hrun hwithin hfound

/-- A platform whose `calloc` returns the addresses from 64 KiB. -/
def smallPlatform : Platform := ⟨fun a => 0x10000 ≤ a.toNat, by simp⟩

/-- A mutex is initialised, and its slot is looked up while it is destroyed. -/
def lookedUpWhileDestroyed : List Event :=
  [.start 0 (asm2PthreadMutexInit 0x40 0)] ++ List.replicate 4 (.act 0 none 0) ++
    [.act 0 (some 0x10000) 0] ++ List.replicate 6 (.act 0 none 0) ++
    [.start 1 (mutexGetOrCreate 0x40), .act 1 none 0]

def destroyedDuringLookup : List Event :=
  [.start 0 (asm2PthreadMutexDestroy 0x40)] ++ List.replicate 6 (.act 0 none 0) ++
    [.act 1 none 0] ++ List.replicate 5 (.act 0 none 0) ++ List.replicate 2 (.act 1 none 0)

def lookedUp : State :=
  (run (step smallPlatform) (initial fun _ => 0) lookedUpWhileDestroyed).getD (initial fun _ => 0)

def lookupOver : State := (run (step smallPlatform) lookedUp destroyedDuringLookup).getD lookedUp

/-- The walk goes on from the object after it was taken out, and finds nothing. -/
theorem lookups_resolve_destroyed :
    run (step smallPlatform) (initial fun _ => 0) lookedUpWhileDestroyed = some lookedUp ∧
      run (step smallPlatform) lookedUp destroyedDuringLookup = some lookupOver ∧
      lookupOver.reg.unlinked = [0x10000] ∧
      lookupOver.pc 1 =
        .found ⟨mutexGetOrCreate 0x40, .early, 0, none⟩ ⟨0x10000, 0x40, .mutex⟩ none ∧
      Resolves smallPlatform lookedUp lookupOver destroyedDuringLookup ⟨0x10000, 0x40, .mutex⟩
        none := by
  have hs := (Option.getD_of_ne_none (Option.isSome_iff_ne_none.mp
    (show (run (step smallPlatform) (initial fun _ => 0) lookedUpWhileDestroyed).isSome = true by
      decide +kernel)) (initial fun _ => 0)).symm
  have hs' := (Option.getD_of_ne_none (Option.isSome_iff_ne_none.mp
    (show (run (step smallPlatform) lookedUp destroyedDuringLookup).isSome = true by
      decide +kernel)) lookedUp).symm
  obtain ⟨-, hlookups⟩ := lookups_resolve hs
  obtain ⟨-, hruns⟩ := hlookups 1 ⟨mutexGetOrCreate 0x40, .early, 0, none⟩
    ⟨0x10000, 0x40, .mutex⟩ .head (by decide +kernel)
  obtain ⟨-, hresolves⟩ := hruns destroyedDuringLookup _ hs' (by decide +kernel)
  exact ⟨hs, hs', by decide +kernel, by decide +kernel, hresolves none rfl (by decide +kernel)⟩

end Main

end Asm2Runtime.HandleRegistry
