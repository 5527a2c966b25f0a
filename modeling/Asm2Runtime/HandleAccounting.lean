import Asm2Runtime.HandleLookup
import Mathlib.Algebra.BigOperators.Group.List.Basic
import Mathlib.Algebra.Ring.Nat

/-!
# The books of the registry

While a thread has the lock the books may be off by the one object it publishes or
retires. `Books` says by what, from the step the thread is at; when the lock is free
they agree.

A destroy of a mutex, a condition variable or a semaphore finds its object before it
takes the lock for the host destroy, and does not look again. `DestroysCurrent` is what
a second look would tell it.
-/

namespace Asm2Runtime.HandleRegistry

open LinkedChain StaleChain Transition

section Books

/-- An object that is not active any more, but in its chain still. -/
def Pc.off : Pc → Option Word
  | .clearing _ a | .seeking _ a _ | .unlinking _ a _ => some a
  | _ => none

/-- An object in no list. -/
def Pc.loose : Pc → Option Word
  | .pushing _ a => some a
  | _ => none

/-- Objects in a chain that the statistics have not counted. -/
def Pc.uncounted : Pc → Nat
  | .storing _ _ | .counting _ _ => 1
  | _ => 0

/-- Retired objects that they count as active. -/
def Pc.undiscounted : Pc → Nat
  | .pushing _ _ | .discounting _ _ => 1
  | _ => 0

/-- The lists and the statistics while the owner of the lock is at `pc`. -/
structure Books (reg : Registry) (retired : List Word) (pc : Pc) : Prop where
  list : Chain (fun a => (reg.heap a).retiredNext) reg.retiredObjects retired
  nodup : reg.unlinked.Nodup
  active : ∀ a ∈ reg.published, (reg.heap a).active = true ↔ a ∉ reg.unlinked ∧ pc.off ≠ some a
  off : ∀ a, pc.off = some a → a ∉ reg.unlinked
  gone : ∀ a, a ∈ reg.unlinked ↔ a ∈ retired ∨ pc.loose = some a
  loose : ∀ a, pc.loose = some a → a ∉ retired
  created : reg.created + pc.uncounted = reg.published.length
  live : reg.active + reg.unlinked.length + pc.uncounted =
    reg.published.length + pc.undiscounted
  dead : reg.retired + pc.undiscounted = reg.unlinked.length

/-- The same books, in two registries. -/
structure Quiet (reg reg' : Registry) : Prop where
  published : reg'.published = reg.published
  unlinked : reg'.unlinked = reg.unlinked
  retiredObjects : reg'.retiredObjects = reg.retiredObjects
  created : reg'.created = reg.created
  active : reg'.active = reg.active
  retired : reg'.retired = reg.retired
  object : ∀ a ∈ reg.published, (reg'.heap a).active = (reg.heap a).active ∧
    (reg'.heap a).retiredNext = (reg.heap a).retiredNext

/-- The owner is at a step of the same kind. -/
structure Alike (pc pc' : Pc) : Prop where
  off : pc'.off = pc.off
  loose : pc'.loose = pc.loose
  uncounted : pc'.uncounted = pc.uncounted
  undiscounted : pc'.undiscounted = pc.undiscounted

variable {p : Platform} {reg reg' : Registry} {retired : List Word} {pc pc' : Pc}

theorem Quiet.refl (reg : Registry) : Quiet reg reg :=
  ⟨rfl, rfl, rfl, rfl, rfl, rfl, fun _ _ => ⟨rfl, rfl⟩⟩

theorem Quiet.setObject {a : Word} {o : BridgeObject}
    (ho : a ∈ reg.published → o.active = (reg.heap a).active ∧
      o.retiredNext = (reg.heap a).retiredNext) : Quiet reg (reg.setObject a o) := by
  refine ⟨rfl, rfl, rfl, rfl, rfl, rfl, fun b hb => ?_⟩
  by_cases hba : b = a
  · subst hba
    simpa [Registry.setObject] using ho hb
  · simp [Registry.setObject, hba]

theorem Books.quiet (h : Books reg retired pc) (hsound : reg.Sound p) (hquiet : Quiet reg reg')
    (halike : Alike pc pc') : Books reg' retired pc' where
  list := by
    have hlist : Chain (fun a => (reg'.heap a).retiredNext) reg.retiredObjects retired :=
      h.list.congr fun a ha => by
        have hmem := hsound.unlinked a ((h.gone a).mpr (Or.inl ha))
        exact (hquiet.object a hmem).2
    rw [hquiet.retiredObjects]
    exact hlist
  nodup := hquiet.unlinked ▸ h.nodup
  active a ha := by
    rw [hquiet.published] at ha
    rw [(hquiet.object a ha).1, hquiet.unlinked, halike.off]
    exact h.active a ha
  off a ha := by
    rw [hquiet.unlinked]
    exact h.off a (halike.off ▸ ha)
  gone a := by
    rw [hquiet.unlinked, halike.loose]
    exact h.gone a
  loose a ha := h.loose a (halike.loose ▸ ha)
  created := by
    rw [hquiet.created, hquiet.published, halike.uncounted]
    exact h.created
  live := by
    rw [hquiet.active, hquiet.unlinked, hquiet.published, halike.uncounted, halike.undiscounted]
    exact h.live
  dead := by
    rw [hquiet.retired, hquiet.unlinked, halike.undiscounted]
    exact h.dead

theorem Alike.refl (pc : Pc) : Alike pc pc := ⟨rfl, rfl, rfl, rfl⟩

theorem Alike.trans {pc'' : Pc} (h : Alike pc pc') (h' : Alike pc' pc'') : Alike pc pc'' :=
  ⟨h'.off.trans h.off, h'.loose.trans h.loose, h'.uncounted.trans h.uncounted,
    h'.undiscounted.trans h.undiscounted⟩

/-- Any two steps without the lock are alike. -/
theorem Alike.outside (h : pc.inside = false) (h' : pc'.inside = false) : Alike pc pc' := by
  cases pc <;> first | (simp [Pc.inside] at h; done) | skip
  all_goals cases pc' <;> first | (simp [Pc.inside] at h'; done) | exact ⟨rfl, rfl, rfl, rfl⟩

theorem alike_leave (c : Call) (o : Outcome) : Alike (.unlocking c o) (leave c o) := by
  unfold leave
  split <;> exact ⟨rfl, rfl, rfl, rfl⟩

theorem alike_resume (reg : Registry) (c : Call) (q : Query) (r : Option Word) :
    Alike (.found c q r) (resume reg c q r).2 := by
  unfold resume
  repeat' split
  all_goals exact ⟨rfl, rfl, rfl, rfl⟩

theorem quiet_resume (reg : Registry) (c : Call) (q : Query) (r : Option Word) :
    Quiet reg (resume reg c q r).1 := by
  unfold resume
  repeat' split
  all_goals first
    | exact Quiet.refl reg
    | exact Quiet.setObject fun _ => ⟨rfl, rfl⟩

variable {c : Call} {a : Word} {link : Link (BitVec 8) Word}

theorem Books.heading (h : Books reg retired (.heading c a)) (hsound : reg.Sound p)
    (hfresh : reg.Fresh c a) : Books (reg.publishHead a) retired (.storing c a) where
  list := h.list
  nodup := h.nodup
  active b hb := by
    change (reg.heap b).active = true ↔ b ∉ reg.unlinked ∧ none ≠ some b
    obtain rfl | hold := List.mem_cons.mp hb
    · have hunlinked : b ∉ reg.unlinked := fun hm => hfresh.unpublished (hsound.unlinked b hm)
      simp [hfresh.active, hunlinked]
    · exact h.active b hold
  off b hb := by cases hb
  gone := h.gone
  loose b hb := by cases hb
  created := by
    have := h.created
    simp only [Registry.publishHead, Registry.setLink, Pc.uncounted, List.length_cons] at *
    omega
  live := by
    have := h.live
    simp only [Registry.publishHead, Registry.setLink, Pc.uncounted, Pc.undiscounted,
      List.length_cons] at *
    omega
  dead := h.dead

theorem Books.counting (h : Books reg retired (.counting c a)) (o : Outcome) :
    Books { reg with created := reg.created + 1, active := reg.active + 1 } retired
      (.unlocking c o) where
  list := h.list
  nodup := h.nodup
  active := h.active
  off b hb := by cases hb
  gone := h.gone
  loose b hb := by cases hb
  created := by
    have := h.created
    simp only [Pc.uncounted] at *
    omega
  live := by
    have := h.live
    simp only [Pc.uncounted, Pc.undiscounted] at *
    omega
  dead := h.dead

theorem Books.deactivating (h : Books reg retired (.deactivating c a)) (ha : a ∈ reg.published)
    (hactive : (reg.heap a).active = true) :
    Books (reg.setObject a { reg.heap a with active := false }) retired (.clearing c a) where
  list := by
    refine h.list.congr fun b hb => ?_
    by_cases hba : b = a
    · subst hba
      simp [Registry.setObject]
    · simp [Registry.setObject, hba]
  nodup := h.nodup
  active b hb := by
    by_cases hba : b = a
    · subst hba
      simp [Registry.setObject, Pc.off]
    · have hold := h.active b hb
      have hab : a ≠ b := Ne.symm hba
      simpa [Registry.setObject, Pc.off, hba, hab] using hold
  off b hb := by
    obtain rfl := Option.some.inj hb
    exact ((h.active a ha).mp hactive).1
  gone := h.gone
  loose b hb := by cases hb
  created := h.created
  live := h.live
  dead := h.dead

theorem Books.unlinking (h : Books reg retired (.unlinking c a link)) :
    Books (reg.unlink a link) retired (.pushing c a) := by
  have ha := h.off a rfl
  have hunlinked : (reg.unlink a link).unlinked = a :: reg.unlinked := by cases link <;> rfl
  have hpublished : (reg.unlink a link).published = reg.published := by cases link <;> rfl
  have hnext : ∀ b, ((reg.unlink a link).heap b).retiredNext = (reg.heap b).retiredNext := by
    intro b
    cases link with
    | head bucket => rfl
    | next x =>
      by_cases hb : b = x
      · subst hb
        simp [Registry.unlink, Registry.setLink, Registry.setObject]
      · simp [Registry.unlink, Registry.setLink, Registry.setObject, hb]
  constructor
  case list =>
    have hlist : Chain (fun b => ((reg.unlink a link).heap b).retiredNext) reg.retiredObjects
        retired := h.list.congr fun b _ => hnext b
    cases link <;> exact hlist
  case nodup =>
    rw [hunlinked]
    exact List.nodup_cons.mpr ⟨ha, h.nodup⟩
  case active =>
    intro b hb
    rw [hpublished] at hb
    have hold := h.active b hb
    rw [active_unlink, hunlinked]
    by_cases hba : b = a
    · subst hba
      simpa [Pc.off] using hold
    · have hab : a ≠ b := Ne.symm hba
      simpa [Pc.off, hba, hab] using hold
  case off =>
    intro b hb
    cases hb
  case gone =>
    intro b
    have hold := h.gone b
    rw [hunlinked, List.mem_cons, hold]
    have hcomm : a = b ↔ b = a := ⟨Eq.symm, Eq.symm⟩
    simp [Pc.loose, hcomm, or_comm]
  case loose =>
    intro b hb
    obtain rfl := Option.some.inj hb
    exact fun hm => ha ((h.gone a).mpr (Or.inl hm))
  case created => cases link <;> exact h.created
  case live =>
    have := h.live
    have hactive : (reg.unlink a link).active = reg.active := by cases link <;> rfl
    simp only [hunlinked, hpublished, hactive, Pc.uncounted, Pc.undiscounted,
      List.length_cons] at *
    omega
  case dead =>
    have := h.dead
    have hretired : (reg.unlink a link).retired = reg.retired := by cases link <;> rfl
    simp only [hunlinked, hretired, Pc.undiscounted, List.length_cons] at *
    omega

theorem Books.pushing (h : Books reg retired (.pushing c a)) :
    Books { reg.setObject a { reg.heap a with retiredNext := reg.retiredObjects } with
      retiredObjects := some a } (a :: retired) (.discounting c a) where
  list := by
    have ha := h.loose a rfl
    have hpush := h.list.push ha
    refine Seg.congr hpush fun b _ => ?_
    by_cases hba : b = a
    · subst hba
      simp [Registry.setObject]
    · simp [Registry.setObject, hba]
  nodup := h.nodup
  active b hb := by
    have hold := h.active b hb
    by_cases hba : b = a
    · subst hba
      simpa [Registry.setObject, Pc.off] using hold
    · simpa [Registry.setObject, Pc.off, hba] using hold
  off b hb := by cases hb
  gone b := by
    change b ∈ reg.unlinked ↔ b ∈ a :: retired ∨ none = some b
    have hcomm : a = b ↔ b = a := ⟨Eq.symm, Eq.symm⟩
    rw [h.gone b]
    simp [Pc.loose, hcomm, or_comm]
  loose b hb := by cases hb
  created := h.created
  live := h.live
  dead := h.dead

theorem Books.discounting (h : Books reg retired (.discounting c a)) (hsound : reg.Sound p)
    (o : Outcome) :
    Books { reg with active := reg.active - 1, retired := reg.retired + 1 } retired
      (.unlocking c o) where
  list := h.list
  nodup := h.nodup
  active := h.active
  off b hb := by cases hb
  gone := h.gone
  loose b hb := by cases hb
  created := h.created
  live := by
    -- More objects were published than unlinked, so the count of active ones is not zero.
    have hle : reg.unlinked.length ≤ reg.published.length :=
      (List.subperm_of_subset h.nodup hsound.unlinked).length_le
    have := h.live
    simp only [Pc.uncounted, Pc.undiscounted] at *
    omega
  dead := by
    have := h.dead
    simp only [Pc.undiscounted] at *
    omega

/-- The steps that work on the lists and the statistics. -/
def Pc.accounts : Pc → Bool
  | .heading _ _ | .counting _ _ | .deactivating _ _ | .seeking _ _ _ | .unlinking _ _ _
  | .pushing _ _ | .discounting _ _ => true
  | _ => false

/-- The other steps leave both as they are. -/
theorem advance_quiet {lock lock' : Option Tid} {t : Tid} {calloc : Option Word} {code : Errno}
    (hpc : pc.accounts = false) (hsound : reg.Sound p) (hgood : reg.Good pc)
    (hstep : advance p reg lock t calloc code pc = some (reg', lock', pc')) :
    Quiet reg reg' ∧ Alike pc pc' := by
  cases pc with
  | idle => cases hstep
  | returned c o => cases hstep
  | loading c =>
    cases hstep
    exact ⟨Quiet.refl reg, ⟨rfl, rfl, rfl, rfl⟩⟩
  | finding c q w =>
    rw [advance_finding] at hstep
    cases hstep
    refine ⟨Quiet.refl reg, ?_⟩
    obtain ⟨r, hr⟩ | ⟨a, ha | ha⟩ := walk_cases reg c q w
    · rw [hr]
      exact ⟨rfl, rfl, rfl, rfl⟩
    · rw [ha]
      exact ⟨rfl, rfl, rfl, rfl⟩
    · rw [ha]
      exact ⟨rfl, rfl, rfl, rfl⟩
  | found c q r =>
    cases hstep
    exact ⟨quiet_resume reg c q r, alike_resume reg c q r⟩
  | locking c =>
    simp only [advance] at hstep
    split at hstep
    · split at hstep <;> cases hstep <;> exact ⟨Quiet.refl reg, ⟨rfl, rfl, rfl, rfl⟩⟩
    · cases hstep
  | allocating c type =>
    simp only [advance] at hstep
    split at hstep
    · cases hstep
      exact ⟨Quiet.refl reg, ⟨rfl, rfl, rfl, rfl⟩⟩
    · rename_i a
      split at hstep
      · rename_i hcalloc
        cases hstep
        have hquiet : Quiet reg (reg.setObject a (newObject c a)) := Quiet.setObject fun ha => by
          rw [hsound.held a ha] at hcalloc
          simp at hcalloc
        exact ⟨⟨rfl, rfl, rfl, rfl, rfl, rfl, hquiet.object⟩, ⟨rfl, rfl, rfl, rfl⟩⟩
      · cases hstep
  | initializing c a type =>
    have hfresh := hgood.2.unpublished
    simp only [advance] at hstep
    split at hstep <;> cases hstep
    · exact ⟨Quiet.setObject fun ha => absurd ha hfresh, ⟨rfl, rfl, rfl, rfl⟩⟩
    · exact ⟨⟨rfl, rfl, rfl, rfl, rfl, rfl, fun _ _ => ⟨rfl, rfl⟩⟩, ⟨rfl, rfl, rfl, rfl⟩⟩
  | linking c a =>
    cases hstep
    exact ⟨Quiet.setObject fun _ => ⟨rfl, rfl⟩, ⟨rfl, rfl, rfl, rfl⟩⟩
  | storing c a =>
    cases hstep
    exact ⟨⟨rfl, rfl, rfl, rfl, rfl, rfl, fun _ _ => ⟨rfl, rfl⟩⟩, ⟨rfl, rfl, rfl, rfl⟩⟩
  | destroying c a =>
    simp only [advance] at hstep
    split at hstep <;> cases hstep <;> exact ⟨Quiet.refl reg, ⟨rfl, rfl, rfl, rfl⟩⟩
  | clearing c a =>
    cases hstep
    exact ⟨⟨rfl, rfl, rfl, rfl, rfl, rfl, fun _ _ => ⟨rfl, rfl⟩⟩, ⟨rfl, rfl, rfl, rfl⟩⟩
  | unlocking c o =>
    cases hstep
    exact ⟨Quiet.refl reg, alike_leave c o⟩
  | _ => cases hpc

/-- What the steps under the lock do to the books. -/
theorem advance_books {lock lock' : Option Tid} {t : Tid} {calloc : Option Word} {code : Errno}
    (h : Books reg retired pc) (hsound : reg.Sound p) (hgood : reg.Good pc)
    (hdue : ∀ c a, pc = .deactivating c a → (reg.heap a).active = true)
    (hstep : advance p reg lock t calloc code pc = some (reg', lock', pc')) :
    ∃ retired', Books reg' retired' pc' := by
  by_cases hpc : pc.accounts = false
  · obtain ⟨hquiet, halike⟩ := advance_quiet hpc hsound hgood hstep
    exact ⟨retired, h.quiet hsound hquiet halike⟩
  cases pc with
  | heading c a =>
    cases hstep
    exact ⟨retired, h.heading hsound hgood.2.1⟩
  | counting c a =>
    cases hstep
    exact ⟨retired, h.counting _⟩
  | deactivating c a =>
    cases hstep
    exact ⟨retired, h.deactivating hgood.2.mem (hdue c a rfl)⟩
  | seeking c a link =>
    simp only [advance] at hstep
    split at hstep
    · rename_i hload
      have hmem := hsound.unlinked_of_end hgood.2.1.published.mem hgood.2.2 hload
      exact absurd hmem (h.off a rfl)
    · split at hstep <;> cases hstep <;>
        exact ⟨retired, h.quiet hsound (Quiet.refl reg) ⟨rfl, rfl, rfl, rfl⟩⟩
  | unlinking c a link =>
    cases hstep
    exact ⟨retired, h.unlinking⟩
  | pushing c a =>
    cases hstep
    exact ⟨a :: retired, h.pushing⟩
  | discounting c a =>
    cases hstep
    exact ⟨retired, h.discounting hsound _⟩
  | _ => exact absurd rfl hpc

/-- Without the lock a thread has the books of others to leave alone. -/
theorem alike_of_locking {lock lock' : Option Tid} {t : Tid} {calloc : Option Word} {code : Errno}
    (houtside : pc.inside = false)
    (hstep : advance p reg lock t calloc code pc = some (reg', lock', pc')) :
    Alike .idle pc' := by
  cases pc with
  | locking c =>
    simp only [advance] at hstep
    split at hstep
    · split at hstep <;> cases hstep <;> exact ⟨rfl, rfl, rfl, rfl⟩
    · cases hstep
  | finding c q w =>
    rw [advance_finding] at hstep
    cases hstep
    obtain ⟨r, hr⟩ | ⟨a, ha | ha⟩ := walk_cases reg c q w
    · rw [hr]
      exact ⟨rfl, rfl, rfl, rfl⟩
    · rw [ha]
      exact ⟨rfl, rfl, rfl, rfl⟩
    · rw [ha]
      exact ⟨rfl, rfl, rfl, rfl⟩
  | found c q r =>
    cases hstep
    have hfound : Alike .idle (.found c q r) := ⟨rfl, rfl, rfl, rfl⟩
    exact hfound.trans (alike_resume reg c q r)
  | loading c =>
    cases hstep
    exact ⟨rfl, rfl, rfl, rfl⟩
  | idle => cases hstep
  | returned c o => cases hstep
  | _ => simp [Pc.inside] at houtside

end Books

section Due

/-- The word of the object's slot is the handle of another active object of the slot. -/
def Registry.Reused (reg : Registry) (a : Word) : Prop :=
  let b := reg.slots (reg.heap a).owner
  b ≠ a ∧ b ∈ reg.published ∧ (reg.heap b).owner = (reg.heap a).owner ∧
    (reg.heap b).active = true

instance decidableReused (reg : Registry) (a : Word) : Decidable (reg.Reused a) :=
  inferInstanceAs (Decidable (_ ∧ _ ∧ _ ∧ _))

/-- An object that was found before the lock was taken is retired only if it is still active,
and its slot has not been given to another one. -/
def DestroysCurrent (s : State) : Event → Prop
  | .act t _ code =>
    match s.pc t with
    | .destroying c a =>
      code = 0 → c.target ≠ none → (s.reg.heap a).active = true ∧ ¬ s.reg.Reused a
    | _ => True
  | _ => True

instance decidableDestroysCurrent (s : State) (e : Event) : Decidable (DestroysCurrent s e) := by
  unfold DestroysCurrent
  repeat' split
  all_goals infer_instance

/-- A destroy that has passed the host destroy. -/
def Registry.Due (reg : Registry) : Pc → Prop
  | .deactivating _ a => (reg.heap a).active = true ∧ ¬ reg.Reused a
  | .clearing _ a => ¬ reg.Reused a
  | _ => True

variable {p : Platform} {reg reg' : Registry} {pc pc' : Pc} {c : Call} {a : Word}

theorem Registry.Due.outside (h : pc.inside = false) : reg.Due pc := by
  cases pc <;> trivial

theorem Registry.Reused.of_like (hlike : Like reg reg') (hslots : reg'.slots = reg.slots)
    (h : reg'.Reused a) : reg.Reused a := by
  simp only [Registry.Reused, hslots, hlike.published, hlike.active, (hlike.later _).owner] at h
  exact h

theorem Registry.Due.like (h : reg.Due pc) (hlike : Like reg reg')
    (hslots : reg'.slots = reg.slots) : reg'.Due pc := by
  cases pc with
  | deactivating c a =>
    exact ⟨(hlike.active a).trans h.1, fun hr => h.2 (hr.of_like hlike hslots)⟩
  | clearing c a => exact fun hr => h (hr.of_like hlike hslots)
  | _ => trivial

/-- The object that attr destroy and mutexattr destroy find is the current one of its slot. -/
theorem not_reused (hgood : reg.Good (.destroying c a)) (hcurrent : reg.Current (.destroying c a))
    (htarget : c.target = none) : (reg.heap a).active = true ∧ ¬ reg.Reused a := by
  refine ⟨hgood.2.2 htarget, fun hr => hr.1 ?_⟩
  rw [hgood.2.1.owner]
  exact hcurrent htarget

theorem advance_due {lock lock' : Option Tid} {t : Tid} {calloc : Option Word} {code : Errno}
    (h : reg.Due pc) (hgood : reg.Good pc) (hcurrent : reg.Current pc)
    (hok : ∀ c a, pc = .destroying c a → code = 0 → c.target ≠ none →
      (reg.heap a).active = true ∧ ¬ reg.Reused a)
    (hstep : advance p reg lock t calloc code pc = some (reg', lock', pc')) : reg'.Due pc' := by
  cases pc with
  | destroying c a =>
    simp only [advance] at hstep
    split at hstep
    · rename_i hcode
      cases hstep
      by_cases htarget : c.target = none
      · exact not_reused hgood hcurrent htarget
      · exact hok c a rfl hcode htarget
    · cases hstep
      trivial
  | deactivating c a =>
    cases hstep
    rintro ⟨hne, hmem, howner, hactive⟩
    refine h.2 ?_
    simp only [Registry.setObject, Function.update_self] at hne hmem howner hactive
    rw [Function.update_of_ne hne] at howner hactive
    exact ⟨hne, hmem, howner, hactive⟩
  | idle => cases hstep
  | returned c o => cases hstep
  | locking c =>
    simp only [advance] at hstep
    split at hstep
    · split at hstep <;> cases hstep <;> trivial
    · cases hstep
  | finding c q w =>
    rw [advance_finding] at hstep
    cases hstep
    obtain ⟨r, hr⟩ | ⟨a, ha | ha⟩ := walk_cases reg c q w
    · rw [hr]
      trivial
    · rw [ha]
      trivial
    · rw [ha]
      trivial
  | found c q r =>
    cases hstep
    unfold resume
    repeat' split
    all_goals trivial
  | allocating c type =>
    simp only [advance] at hstep
    split at hstep
    · cases hstep
      trivial
    · split at hstep <;> cases hstep
      trivial
  | initializing c a type =>
    simp only [advance] at hstep
    split at hstep <;> cases hstep <;> trivial
  | seeking c a link =>
    simp only [advance] at hstep
    split at hstep
    · cases hstep
      trivial
    · split at hstep <;> cases hstep <;> trivial
  | unlocking c o =>
    cases hstep
    exact Registry.Due.outside (leave_inside c o)
  | _ =>
    cases hstep
    trivial

end Due

/-- Where the owner of the lock is. -/
def holder (lock : Option Tid) (pc : Tid → Pc) : Pc :=
  match lock with
  | none => .idle
  | some t => pc t

/-- What holds at every moment of runs in which destroys find their objects current. -/
structure Accounting (p : Platform) (s : State) : Prop where
  invariant : Invariant p s
  current : ∀ t, s.reg.Current (s.pc t)
  due : ∀ t, s.reg.Due (s.pc t)
  books : ∃ retired, Books s.reg retired (holder s.registryLock s.pc)

namespace Accounting

variable {p : Platform} {s s' : State} {e : Event}

theorem initial (p : Platform) (slots : Word → Word) :
    Accounting p (HandleRegistry.initial slots) where
  invariant := Invariant.initial p slots
  current _ := trivial
  due _ := trivial
  books := by
    refine ⟨[], rfl, List.nodup_nil, ?_, ?_, ?_, ?_, rfl, rfl, rfl⟩ <;>
      simp [HandleRegistry.initial, holder, Pc.off, Pc.loose]

/-- A step without the lock. -/
theorem books_outside (h : Accounting p s) {t : Tid} {calloc : Option Word} {code : Errno}
    {reg' : Registry} {lock' : Option Tid} {pc' : Pc}
    (houtside : (s.pc t).inside = false)
    (hstep : advance p s.reg s.registryLock t calloc code (s.pc t) = some (reg', lock', pc')) :
    ∃ retired, Books reg' retired (holder lock' (Function.update s.pc t pc')) := by
  obtain ⟨retired, hbooks⟩ := h.books
  have hquiet : Quiet s.reg reg' := by
    obtain rfl | ⟨a, -, type, rfl⟩ := advance_outside (h.invariant.good t) houtside hstep
    · exact Quiet.refl s.reg
    · exact Quiet.setObject fun _ => ⟨rfl, rfl⟩
  have hpc' := alike_of_locking houtside hstep
  have hidle : Alike (s.pc t) .idle := Alike.outside houtside rfl
  refine ⟨retired, hbooks.quiet h.invariant.sound hquiet ?_⟩
  obtain rfl | ⟨hfree, rfl, -⟩ | ⟨-, hin, -⟩ := advance_takes hstep
  · cases s.registryLock with
    | none => exact Alike.refl _
    | some u =>
      by_cases hu : u = t
      · subst hu
        rw [holder, holder, Function.update_self]
        exact hidle.trans hpc'
      · rw [holder, holder, Function.update_of_ne hu]
        exact Alike.refl _
  · rw [hfree, holder, holder, Function.update_self]
    exact hpc'
  · rw [houtside] at hin
    cases hin

theorem books_inside (h : Accounting p s) {t : Tid} {calloc : Option Word} {code : Errno}
    {reg' : Registry} {lock' : Option Tid} {pc' : Pc}
    (hinside : (s.pc t).inside = true)
    (hstep : advance p s.reg s.registryLock t calloc code (s.pc t) = some (reg', lock', pc')) :
    ∃ retired, Books reg' retired (holder lock' (Function.update s.pc t pc')) := by
  obtain ⟨retired, hbooks⟩ := h.books
  have howner := h.invariant.owned t hinside
  rw [howner, holder] at hbooks
  have hdue : ∀ c a, s.pc t = .deactivating c a → (s.reg.heap a).active = true := by
    intro c a hpc
    have hd := h.due t
    rw [hpc] at hd
    exact hd.1
  obtain ⟨retired', hbooks'⟩ :=
    advance_books hbooks h.invariant.sound (h.invariant.good t) hdue hstep
  have hsound := (advance_kept h.invariant.sound (h.invariant.good t) hstep).sound
  refine ⟨retired', hbooks'.quiet hsound (Quiet.refl reg') ?_⟩
  obtain rfl | ⟨-, -, hout⟩ | ⟨rfl, -, hout⟩ := advance_takes hstep
  · rw [howner, holder, Function.update_self]
    exact Alike.refl _
  · rw [hinside] at hout
    cases hout
  · exact Alike.outside hout rfl

theorem step (h : Accounting p s) (hbridge : e.bridge = true) (hok : DestroysCurrent s e)
    (hstep : HandleRegistry.step p s e = some s') : Accounting p s' := by
  refine ⟨h.invariant.step hstep, h.invariant.step_current h.current hbridge hstep, ?_, ?_⟩
  all_goals cases e with
  | guestStore slot value => cases hbridge
  | start t op => ?_
  | act t calloc code => ?_
  · intro u
    simp only [HandleRegistry.step] at hstep
    split at hstep <;> cases hstep
    rw [Invariant.move_pc]
    by_cases hu : u = t
    · subst hu
      rw [Function.update_self]
      exact Registry.Due.outside (begin_inside op)
    · rw [Function.update_of_ne hu]
      exact h.due u
  · intro u
    simp only [HandleRegistry.step, Option.map_eq_some_iff, Prod.exists] at hstep
    obtain ⟨reg', lock', pc', hadvance, rfl⟩ := hstep
    rw [Invariant.move_pc]
    by_cases hu : u = t
    · subst hu
      rw [Function.update_self]
      refine advance_due (h.due u) (h.invariant.good u) (h.current u) ?_ hadvance
      intro c a hpc
      simpa [DestroysCurrent, hpc] using hok
    · rw [Function.update_of_ne hu]
      cases hin : (s.pc u).inside with
      | false => exact Registry.Due.outside hin
      | true =>
        have hout := h.invariant.alone hu hin
        have hlike := (advance_kept h.invariant.sound (h.invariant.good t) hadvance).like hout
        exact (h.due u).like hlike (advance_slots (h.invariant.good t) hout hadvance)
  · simp only [HandleRegistry.step] at hstep
    split at hstep
    · rename_i hfree
      cases hstep
      obtain ⟨retired, hbooks⟩ := h.books
      refine ⟨retired, hbooks.quiet h.invariant.sound (Quiet.refl s.reg) ?_⟩
      have hout : (s.pc t).inside = false := by
        cases hpc : s.pc t <;> simp [hpc, Pc.free, Pc.inside] at hfree ⊢
      rw [Invariant.move_registryLock, Invariant.move_pc]
      cases s.registryLock with
      | none => exact Alike.refl _
      | some u =>
        by_cases hu : u = t
        · subst hu
          rw [holder, holder, Function.update_self]
          exact Alike.outside hout (begin_inside op)
        · rw [holder, holder, Function.update_of_ne hu]
          exact Alike.refl _
    · cases hstep
  · simp only [HandleRegistry.step, Option.map_eq_some_iff, Prod.exists] at hstep
    obtain ⟨reg', lock', pc', hadvance, rfl⟩ := hstep
    cases hin : (s.pc t).inside with
    | false => exact h.books_outside hin hadvance
    | true => exact h.books_inside hin hadvance

theorem run {es : List Event} (h : Accounting p s) (hbridge : ∀ e ∈ es, e.bridge = true)
    (hok : Along (HandleRegistry.step p) DestroysCurrent s es)
    (hrun : Transition.run (HandleRegistry.step p) s es = some s') : Accounting p s' := by
  induction es generalizing s with
  | nil =>
    obtain rfl : s = s' := by simpa using hrun
    exact h
  | cons e es ih =>
    obtain ⟨u, hu, hrest⟩ := run_cons.mp hrun
    exact ih (h.step (hbridge e (by simp)) hok.1 hu) (fun e he => hbridge e (by simp [he]))
      (hok.2 u hu) hrest

end Accounting

section Main

/-- The bucket chains and the retired list are finite and without cycles, every published object
is in exactly one of them, and the statistics agree with them. -/
structure Accounted (reg : Registry) (chain : BitVec 8 → List Word) (retired : List Word) :
    Prop where
  buckets : ∀ b, Chain reg.activeNext (reg.registry b) (chain b)
  list : Chain (fun a => (reg.heap a).retiredNext) reg.retiredObjects retired
  nodup : (∀ b, (chain b).Nodup) ∧ retired.Nodup
  published : (∀ b, ∀ a ∈ chain b, a ∈ reg.published) ∧ ∀ a ∈ retired, a ∈ reg.published
  listed : ∀ a ∈ reg.published,
    ((reg.heap a).active = true ∧ a ∉ retired ∧ ∀ b, a ∈ chain b ↔ b = registryBucket a) ∨
      ((reg.heap a).active = false ∧ a ∈ retired ∧ ∀ b, a ∉ chain b)
  created : reg.created = reg.active + reg.retired
  active : reg.active =
    ((List.range 256).map fun bucket => (chain (BitVec.ofNat 8 bucket)).length).sum

theorem sum_indicator (k n : Nat) :
    ((List.range n).map fun i => if i = k then 1 else 0).sum = if k < n then 1 else 0 := by
  induction n with
  | zero => rfl
  | succ n ih =>
    rw [List.range_succ, List.map_append, List.sum_append, ih]
    simp only [List.map_cons, List.map_nil, List.sum_cons, List.sum_nil]
    split <;> split <;> split <;> omega

/-- An object is in one bucket. -/
theorem sum_single (b : BitVec 8) :
    ((List.range 256).map fun bucket => if b = BitVec.ofNat 8 bucket then 1 else 0).sum = 1 := by
  have hbucket : ∀ i ∈ List.range 256,
      (if b = BitVec.ofNat 8 i then 1 else 0) = if i = b.toNat then 1 else 0 := by
    intro i hi
    have hi : i < 2 ^ 8 := List.mem_range.mp hi
    have hiff : b = BitVec.ofNat 8 i ↔ i = b.toNat := by
      rw [← BitVec.toNat_inj, BitVec.toNat_ofNat, Nat.mod_eq_of_lt hi, eq_comm]
    simp only [hiff]
  rw [List.map_congr_left hbucket, sum_indicator, if_pos b.isLt]

/-- The chain lengths add up to the number of objects. -/
theorem sum_buckets (l : List Word) :
    ((List.range 256).map fun bucket =>
      (l.filter fun a => registryBucket a = BitVec.ofNat 8 bucket).length).sum = l.length := by
  induction l with
  | nil =>
    refine List.sum_eq_zero fun n hn => ?_
    obtain ⟨_, -, rfl⟩ := List.mem_map.mp hn
    rfl
  | cons a l ih =>
    have hcons : ∀ bucket, ((a :: l).filter fun x => registryBucket x = BitVec.ofNat 8 bucket).length =
        (if registryBucket a = BitVec.ofNat 8 bucket then 1 else 0) +
          (l.filter fun x => registryBucket x = BitVec.ofNat 8 bucket).length := by
      intro bucket
      rw [List.filter_cons]
      by_cases hb : registryBucket a = BitVec.ofNat 8 bucket
      · simp [hb, Nat.add_comm]
      · simp [hb]
    simp only [hcons, List.sum_map_add, sum_single, ih, List.length_cons]
    omega

variable {p : Platform} {s : State}

theorem Accounting.accounted (h : Accounting p s) (hfree : s.registryLock = none) :
    ∃ chain retired, Accounted s.reg chain retired := by
  obtain ⟨retired, hbooks⟩ := h.books
  rw [hfree, holder] at hbooks
  have hsound := h.invariant.sound
  have hgone : ∀ a, a ∈ s.reg.unlinked ↔ a ∈ retired := by
    intro a
    rw [hbooks.gone]
    simp [Pc.loose]
  have hactive : ∀ a ∈ s.reg.published, (s.reg.heap a).active = true ↔ a ∉ s.reg.unlinked := by
    intro a ha
    rw [hbooks.active a ha]
    simp [Pc.off]
  refine ⟨s.reg.chain, retired, ?_⟩
  constructor
  case buckets => exact fun b => (hsound.trail b).chain
  case list => exact hbooks.list
  case nodup => exact ⟨fun b => (hsound.trail b).chain.nodup, hbooks.list.nodup⟩
  case published =>
    exact ⟨fun b a ha => (Registry.mem_chain.mp ha).1.1,
      fun a ha => hsound.unlinked a ((hgone a).mpr ha)⟩
  case listed =>
    intro a ha
    by_cases hmem : a ∈ s.reg.unlinked
    · refine Or.inr ⟨?_, (hgone a).mp hmem, fun b hb => (Registry.mem_chain.mp hb).2 hmem⟩
      have hoff := mt (hactive a ha).mp (not_not.mpr hmem)
      simpa using hoff
    · refine Or.inl ⟨(hactive a ha).mpr hmem, fun hm => hmem ((hgone a).mpr hm), fun b => ?_⟩
      simp [ha, hmem, eq_comm]
  case created =>
    have hcreated := hbooks.created
    have hlive := hbooks.live
    have hdead := hbooks.dead
    simp only [Pc.uncounted, Pc.undiscounted] at hcreated hlive hdead
    omega
  case active =>
    have hchains : ∀ bucket, s.reg.chain (BitVec.ofNat 8 bucket) =
        (s.reg.published.filter fun a => a ∉ s.reg.unlinked).filter fun a =>
          registryBucket a = BitVec.ofNat 8 bucket := by
      intro bucket
      rw [Registry.chain, Registry.born, List.filter_comm]
    simp only [hchains, sum_buckets]
    have hperm : (s.reg.published.filter fun a => a ∈ s.reg.unlinked).Perm s.reg.unlinked := by
      refine (List.perm_ext_iff_of_nodup (hsound.nodup.filter _) hbooks.nodup).mpr fun a => ?_
      simp only [List.mem_filter, decide_eq_true_eq]
      exact ⟨And.right, fun ha => ⟨hsound.unlinked a ha, ha⟩⟩
    have hsplit := s.reg.published.length_eq_length_filter_add fun a => a ∈ s.reg.unlinked
    simp only [decide_not] at *
    have hlive := hbooks.live
    have hlength := hperm.length_eq
    simp only [Pc.uncounted, Pc.undiscounted] at hlive
    omega

/-- In every run in which the objects that destroys have found are still the current ones of
their slots when the host destroy has succeeded, the books agree whenever the lock is free, and
no destroy clears the slot of another active object. -/
theorem registry_accounted {p : Platform} {slots : Word → Word} {es : List Event} {s : State}
    (hbridge : ∀ e ∈ es, e.bridge = true) (hrun : run (step p) (initial slots) es = some s)
    (hok : Along (step p) DestroysCurrent (initial slots) es) :
    (s.registryLock = none → ∃ chain retired, Accounted s.reg chain retired) ∧
      ∀ t c a, s.pc t = .clearing c a → ¬ s.reg.Reused a := by
  have h := (Accounting.initial p slots).run hbridge hok hrun
  refine ⟨h.accounted, fun t c a hpc => ?_⟩
  have hdue := h.due t
  rw [hpc] at hdue
  exact hdue

/-- A mutex is initialised by thread 0 in slot 0x40. -/
def mutexInitialised (calloc : Word) : List Event :=
  [.start 0 (asm2PthreadMutexInit 0x40 0)] ++ List.replicate 4 (.act 0 none 0) ++
    [.act 0 (some calloc) 0] ++ List.replicate 6 (.act 0 none 0)

/-- Two threads call destroy, and both find the object without the lock. -/
def destroysOverlap : List Event :=
  [.start 1 (asm2PthreadMutexDestroy 0x40), .start 2 (asm2PthreadMutexDestroy 0x40)] ++
    List.replicate 4 (.act 1 none 0) ++ List.replicate 4 (.act 2 none 0)

/-- Each host destroy returns 0, as glibc's does for a mutex that is destroyed already. -/
def retiredTwice : List Event :=
  mutexInitialised 0x10000 ++ destroysOverlap ++ List.replicate 9 (.act 1 none 0) ++
    List.replicate 8 (.act 2 none 0)

/-- The slot is initialised again before the second host destroy. -/
def retiredAfterReinit : List Event :=
  mutexInitialised 0x10000 ++ destroysOverlap ++ List.replicate 9 (.act 1 none 0) ++
    mutexInitialised 0x20000 ++ List.replicate 3 (.act 2 none 0)

def afterRetiredTwice : State :=
  (run (step smallPlatform) (initial fun _ => 0) retiredTwice).getD (initial fun _ => 0)

def afterReinit : State :=
  (run (step smallPlatform) (initial fun _ => 0) retiredAfterReinit).getD (initial fun _ => 0)

/-- One object was created, none is active, and two were retired; and a destroy is about to
clear the slot of the mutex that was initialised after it had found its object. -/
theorem registry_not_accounted :
    (run (step smallPlatform) (initial fun _ => 0) retiredTwice = some afterRetiredTwice ∧
        afterRetiredTwice.registryLock = none ∧
        ¬ ∃ chain retired, Accounted afterRetiredTwice.reg chain retired) ∧
      run (step smallPlatform) (initial fun _ => 0) retiredAfterReinit = some afterReinit ∧
      (∃ c, afterReinit.pc 2 = .clearing c 0x10000) ∧ afterReinit.reg.Reused 0x10000 := by
  have htwice := (Option.getD_of_ne_none (Option.isSome_iff_ne_none.mp
    (show (run (step smallPlatform) (initial fun _ => 0) retiredTwice).isSome = true by
      decide +kernel)) (initial fun _ => 0)).symm
  have hreinit := (Option.getD_of_ne_none (Option.isSome_iff_ne_none.mp
    (show (run (step smallPlatform) (initial fun _ => 0) retiredAfterReinit).isSome = true by
      decide +kernel)) (initial fun _ => 0)).symm
  refine ⟨⟨htwice, by decide +kernel, ?_⟩, hreinit, ?_, by decide +kernel⟩
  · rintro ⟨chain, retired, h⟩
    have hcreated : afterRetiredTwice.reg.created = 1 := by decide +kernel
    have hactive : afterRetiredTwice.reg.active = 0 := by decide +kernel
    have hretired : afterRetiredTwice.reg.retired = 2 := by decide +kernel
    have := h.created
    omega
  · exact ⟨⟨asm2PthreadMutexDestroy 0x40, .locked, 0, some 0x10000⟩, by decide +kernel⟩

/-- One destroy by itself. -/
def retiredOnce : List Event :=
  mutexInitialised 0x10000 ++ [.start 1 (asm2PthreadMutexDestroy 0x40)] ++
    List.replicate 13 (.act 1 none 0)

def afterRetiredOnce : State :=
  (run (step smallPlatform) (initial fun _ => 0) retiredOnce).getD (initial fun _ => 0)

theorem registry_accounted_once :
    run (step smallPlatform) (initial fun _ => 0) retiredOnce = some afterRetiredOnce ∧
      afterRetiredOnce.reg.retired = 1 ∧
      ∃ chain retired, Accounted afterRetiredOnce.reg chain retired := by
  have honce := (Option.getD_of_ne_none (Option.isSome_iff_ne_none.mp
    (show (run (step smallPlatform) (initial fun _ => 0) retiredOnce).isSome = true by
      decide +kernel)) (initial fun _ => 0)).symm
  have hbridge : ∀ e ∈ retiredOnce, e.bridge = true := by decide +kernel
  obtain ⟨haccounted, -⟩ := registry_accounted hbridge honce (by decide +kernel)
  exact ⟨honce, by decide +kernel, haccounted (by decide +kernel)⟩

end Main

end Asm2Runtime.HandleRegistry
