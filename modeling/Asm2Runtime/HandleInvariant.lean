import Asm2Runtime.HandleRegistry
import Asm2Runtime.StaleChain

/-!
# What always holds of the registry

Published objects keep their identity, and of a published object only `active` and the
links change, `active` from true to false only. Each bucket chain with all the objects
that were ever in it is a trail: that is what a lookup without the lock relies on.
-/

namespace Asm2Runtime.HandleRegistry

open LinkedChain StaleChain Transition

namespace Registry

/-- The object was published for this slot and this kind. -/
structure Published (reg : Registry) (a owner : Word) (kind : Kind) : Prop where
  mem : a ∈ reg.published
  owner : (reg.heap a).owner = owner
  kind : (reg.heap a).kind = kind

/-- A new object that no other thread knows. -/
structure Fresh (reg : Registry) (c : Call) (a : Word) : Prop where
  allocated : reg.allocated a = true
  unpublished : a ∉ reg.published
  magic : (reg.heap a).magic = asm2BridgeMagic
  rawHandle : (reg.heap a).rawHandle = a
  owner : (reg.heap a).owner = c.op.slot
  kind : (reg.heap a).kind = c.op.kind
  active : (reg.heap a).active = true

structure Sound (p : Platform) (reg : Registry) : Prop where
  nodup : reg.published.Nodup
  unlinked : ∀ a ∈ reg.unlinked, a ∈ reg.published
  held : ∀ a ∈ reg.published, reg.allocated a = true
  callocs : ∀ a, reg.allocated a = true → p.callocs a = true
  magic : ∀ a ∈ reg.published, (reg.heap a).magic = asm2BridgeMagic
  handle : ∀ a ∈ reg.published, (reg.heap a).rawHandle = a
  trail : ∀ b, Trail reg.activeNext (reg.registry b) (reg.born b) (reg.chain b)
  linked : ∀ a ∈ reg.published, (reg.heap a).active = true → a ∉ reg.unlinked

@[simp] theorem mem_born {reg : Registry} {b : BitVec 8} {a : Word} :
    a ∈ reg.born b ↔ a ∈ reg.published ∧ registryBucket a = b := by
  simp [born]

@[simp] theorem mem_chain {reg : Registry} {b : BitVec 8} {a : Word} :
    a ∈ reg.chain b ↔ (a ∈ reg.published ∧ registryBucket a = b) ∧ a ∉ reg.unlinked := by
  simp [chain]

/-- Position of a retiring thread: it has not passed the object. -/
def Before (reg : Registry) (a : Word) : Link (BitVec 8) Word → Prop
  | .head b => b = registryBucket a
  | .next x => ∃ front rest, reg.chain (registryBucket a) = front ++ x :: rest ∧
      a ∉ front ∧ a ≠ x

end Registry

/-- An object later: `active` may have been cleared. -/
structure Later (o o' : BridgeObject) : Prop where
  magic : o'.magic = o.magic
  kind : o'.kind = o.kind
  owner : o'.owner = o.owner
  rawHandle : o'.rawHandle = o.rawHandle
  active : o'.active = true → o.active = true

/-- Nothing changed that an invariant reads. -/
structure Like (reg reg' : Registry) : Prop where
  published : reg'.published = reg.published
  unlinked : reg'.unlinked = reg.unlinked
  registry : reg'.registry = reg.registry
  allocated : reg'.allocated = reg.allocated
  later : ∀ a, Later (reg.heap a) (reg'.heap a)
  active : ∀ a, (reg'.heap a).active = (reg.heap a).active
  activeNext : ∀ a, (reg'.heap a).activeNext = (reg.heap a).activeNext

/-- What every step leaves of the published objects. -/
structure Grows (reg reg' : Registry) : Prop where
  published : reg.published <:+ reg'.published
  later : ∀ a ∈ reg.published, Later (reg.heap a) (reg'.heap a)

theorem Later.refl (o : BridgeObject) : Later o o := ⟨rfl, rfl, rfl, rfl, id⟩

theorem Later.trans {o o' o'' : BridgeObject} (h : Later o o') (h' : Later o' o'') :
    Later o o'' where
  magic := h'.magic.trans h.magic
  kind := h'.kind.trans h.kind
  owner := h'.owner.trans h.owner
  rawHandle := h'.rawHandle.trans h.rawHandle
  active ha := h.active (h'.active ha)

namespace Grows

variable {reg reg' reg'' : Registry} {a owner : Word} {kind : Kind}

theorem refl (reg : Registry) : Grows reg reg :=
  ⟨List.suffix_refl _, fun _ _ => Later.refl _⟩

theorem mem (h : Grows reg reg') (ha : a ∈ reg.published) : a ∈ reg'.published :=
  h.published.subset ha

theorem trans (h : Grows reg reg') (h' : Grows reg' reg'') : Grows reg reg'' where
  published := h.published.trans h'.published
  later a ha := (h.later a ha).trans (h'.later a (h.mem ha))

theorem keeps (h : Grows reg reg') (ha : reg.Published a owner kind) :
    reg'.Published a owner kind where
  mem := h.mem ha.mem
  owner := (h.later a ha.mem).owner.trans ha.owner
  kind := (h.later a ha.mem).kind.trans ha.kind

theorem stays_inactive (h : Grows reg reg') (ha : a ∈ reg.published)
    (hoff : (reg.heap a).active = false) : (reg'.heap a).active = false := by
  by_contra hon
  rw [(h.later a ha).active (by simpa using hon)] at hoff
  cases hoff

end Grows

namespace Like

variable {reg reg' : Registry}

theorem refl (reg : Registry) : Like reg reg :=
  ⟨rfl, rfl, rfl, rfl, fun _ => Later.refl _, fun _ => rfl, fun _ => rfl⟩

theorem grows (h : Like reg reg') : Grows reg reg' where
  published := h.published ▸ List.suffix_refl _
  later a _ := h.later a

theorem links (h : Like reg reg') : reg'.activeNext = reg.activeNext := funext h.activeNext

theorem born (h : Like reg reg') (b : BitVec 8) : reg'.born b = reg.born b := by
  rw [Registry.born, Registry.born, h.published]

theorem chain (h : Like reg reg') (b : BitVec 8) : reg'.chain b = reg.chain b := by
  rw [Registry.chain, Registry.chain, h.born, h.unlinked]

theorem loadLink (h : Like reg reg') (link : Link (BitVec 8) Word) :
    reg'.loadLink link = reg.loadLink link := by
  rw [Registry.loadLink, Registry.loadLink, h.registry, h.links]

theorem fresh {c : Call} {a : Word} (h : Like reg reg') (ha : reg.Fresh c a) :
    reg'.Fresh c a where
  allocated := by rw [h.allocated]; exact ha.allocated
  unpublished := by rw [h.published]; exact ha.unpublished
  magic := (h.later a).magic.trans ha.magic
  rawHandle := (h.later a).rawHandle.trans ha.rawHandle
  owner := (h.later a).owner.trans ha.owner
  kind := (h.later a).kind.trans ha.kind
  active := (h.active a).trans ha.active

theorem before {a : Word} {link : Link (BitVec 8) Word} (h : Like reg reg')
    (ha : reg.Before a link) : reg'.Before a link := by
  cases link with
  | head b => exact ha
  | next x =>
    simp only [Registry.Before, h.chain] at ha ⊢
    exact ha

theorem slotStore (reg : Registry) (slot value : Word) : Like reg (reg.slotStore slot value) :=
  ⟨rfl, rfl, rfl, rfl, fun _ => Later.refl _, fun _ => rfl, fun _ => rfl⟩

theorem setObject {a : Word} {o : BridgeObject} (hlater : Later (reg.heap a) o)
    (hactive : o.active = (reg.heap a).active) (hnext : o.activeNext = (reg.heap a).activeNext) :
    Like reg (reg.setObject a o) := by
  refine ⟨rfl, rfl, rfl, rfl, ?_, ?_, ?_⟩ <;> intro b <;> by_cases hb : b = a
  all_goals simp only [Registry.setObject]
  · subst hb
    rwa [Function.update_self]
  · rw [Function.update_of_ne hb]
    exact Later.refl _
  · subst hb
    rwa [Function.update_self]
  · rw [Function.update_of_ne hb]
  · subst hb
    rwa [Function.update_self]
  · rw [Function.update_of_ne hb]

end Like

/-- What every step but the two stores that change a chain leaves as it is. -/
structure Same (reg reg' : Registry) : Prop where
  published : reg'.published = reg.published
  unlinked : reg'.unlinked = reg.unlinked
  registry : reg'.registry = reg.registry
  held : ∀ a ∈ reg.published, reg'.allocated a = reg.allocated a
  later : ∀ a ∈ reg.published, Later (reg.heap a) (reg'.heap a)
  activeNext : ∀ a ∈ reg.published, (reg'.heap a).activeNext = (reg.heap a).activeNext

theorem Like.same {reg reg' : Registry} (h : Like reg reg') : Same reg reg' where
  published := h.published
  unlinked := h.unlinked
  registry := h.registry
  held _ _ := by rw [h.allocated]
  later a _ := h.later a
  activeNext a _ := h.activeNext a

theorem Same.grows {reg reg' : Registry} (h : Same reg reg') : Grows reg reg' where
  published := h.published ▸ List.suffix_refl _
  later := h.later

/-- A change of an object that is not published. -/
theorem Same.private_change {reg reg' : Registry} {a : Word} (ha : a ∉ reg.published)
    (hpublished : reg'.published = reg.published) (hunlinked : reg'.unlinked = reg.unlinked)
    (hregistry : reg'.registry = reg.registry)
    (hheld : ∀ b, b ≠ a → reg'.allocated b = reg.allocated b)
    (hheap : ∀ b, b ≠ a → reg'.heap b = reg.heap b) : Same reg reg' := by
  have hne : ∀ b ∈ reg.published, b ≠ a := by
    rintro b hb rfl
    exact ha hb
  refine ⟨hpublished, hunlinked, hregistry, ?_, ?_, ?_⟩ <;> intro b hb
  · exact hheld b (hne b hb)
  · rw [hheap b (hne b hb)]
    exact Later.refl _
  · rw [hheap b (hne b hb)]

namespace Registry

variable {reg : Registry} {a b : Word}

theorem born_publishHead (reg : Registry) (a : Word) (b : BitVec 8) :
    (reg.publishHead a).born b = if registryBucket a = b then a :: reg.born b else reg.born b := by
  simp [Registry.born, publishHead, List.filter_cons]

theorem chain_publishHead (ha : a ∉ reg.unlinked) (b : BitVec 8) :
    (reg.publishHead a).chain b =
      if registryBucket a = b then a :: reg.chain b else reg.chain b := by
  rw [Registry.chain, born_publishHead]
  change List.filter (fun x => x ∉ reg.unlinked) _ = _
  split
  · rw [List.filter_cons, if_pos (by simpa using ha), Registry.chain]
  · rfl

theorem chain_unlink (reg : Registry) (a : Word) (link : Link (BitVec 8) Word) (b : BitVec 8) :
    (reg.unlink a link).chain b = (reg.chain b).filter fun x => x ≠ a := by
  cases link <;> simp [Registry.chain, Registry.born, unlink, setLink, setObject, Bool.and_assoc]

theorem born_unlink (reg : Registry) (a : Word) (link : Link (BitVec 8) Word) (b : BitVec 8) :
    (reg.unlink a link).born b = reg.born b := by
  cases link <;> rfl

end Registry

namespace Registry.Sound

variable {p : Platform} {reg reg' : Registry} {a : Word}

theorem same (h : reg.Sound p) (hsame : Same reg reg')
    (hcallocs : ∀ a, reg'.allocated a = true → p.callocs a = true) : reg'.Sound p where
  nodup := hsame.published ▸ h.nodup
  unlinked := by
    rw [hsame.unlinked, hsame.published]
    exact h.unlinked
  held a ha := by
    rw [hsame.published] at ha
    rw [hsame.held a ha]
    exact h.held a ha
  callocs := hcallocs
  magic a ha := by
    rw [hsame.published] at ha
    rw [(hsame.later a ha).magic]
    exact h.magic a ha
  handle a ha := by
    rw [hsame.published] at ha
    rw [(hsame.later a ha).rawHandle]
    exact h.handle a ha
  trail b := by
    have htrail := h.trail b
    rw [Registry.born, Registry.chain, Registry.born, hsame.published, hsame.unlinked,
      hsame.registry]
    exact htrail.congr fun a ha => hsame.activeNext a (mem_born.mp ha).1
  linked a ha hactive := by
    rw [hsame.published] at ha
    rw [hsame.unlinked]
    exact h.linked a ha ((hsame.later a ha).active hactive)

theorem like (h : reg.Sound p) (hlike : Like reg reg') : reg'.Sound p :=
  h.same hlike.same fun a ha => h.callocs a (hlike.allocated ▸ ha)

/-- The store to the bucket head of object_publish_locked. -/
theorem publishHead {c : Call} (h : reg.Sound p) (ha : reg.Fresh c a)
    (hnext : reg.activeNext a = reg.registry (registryBucket a)) :
    (reg.publishHead a).Sound p where
  nodup := List.nodup_cons.mpr ⟨ha.unpublished, h.nodup⟩
  unlinked b hb := List.mem_cons_of_mem a (h.unlinked b hb)
  held b hb := by
    obtain rfl | hold := List.mem_cons.mp hb
    · exact ha.allocated
    · exact h.held b hold
  callocs := h.callocs
  magic b hb := by
    obtain rfl | hold := List.mem_cons.mp hb
    · exact ha.magic
    · exact h.magic b hold
  handle b hb := by
    obtain rfl | hold := List.mem_cons.mp hb
    · exact ha.rawHandle
    · exact h.handle b hold
  trail b := by
    have hunlinked : a ∉ reg.unlinked := fun hm => ha.unpublished (h.unlinked a hm)
    rw [born_publishHead, chain_publishHead hunlinked]
    change Trail reg.activeNext (Function.update reg.registry _ _ b) _ _
    by_cases hb : registryBucket a = b
    · subst hb
      rw [Function.update_self, if_pos rfl, if_pos rfl]
      exact (h.trail _).push (fun hm => ha.unpublished (mem_born.mp hm).1) hnext
    · rw [Function.update_of_ne (Ne.symm hb), if_neg hb, if_neg hb]
      exact h.trail b
  linked b hb hactive := by
    obtain rfl | hold := List.mem_cons.mp hb
    · exact fun hm => ha.unpublished (h.unlinked b hm)
    · exact h.linked b hold hactive

/-- A retiring thread reads the link of an older object until it is at its own. -/
theorem before_next {b : Word} {link : Link (BitVec 8) Word} (h : reg.Sound p)
    (hlink : reg.Before a link) (hload : reg.loadLink link = some b) (hne : b ≠ a) :
    reg.Before a (.next b) := by
  have hchain := (h.trail (registryBucket a)).chain
  cases link with
  | head bucket =>
    subst hlink
    rw [show reg.registry (registryBucket a) = some b from hload] at hchain
    obtain ⟨rest, hrest⟩ : ∃ rest, reg.chain (registryBucket a) = b :: rest := by
      cases hc : reg.chain (registryBucket a) with
      | nil => simp [hc] at hchain
      | cons c rest =>
        rw [hc] at hchain
        exact ⟨rest, by rw [Option.some.inj hchain.1]⟩
    exact ⟨[], rest, hrest, List.not_mem_nil, hne.symm⟩
  | next x =>
    obtain ⟨front, rest, hc, hfront, hx⟩ := hlink
    rw [hc] at hchain
    obtain ⟨r, -, rfl, htail⟩ := seg_append.mp hchain
    rw [show reg.activeNext x = some b from hload] at htail
    cases rest with
    | nil => simp at htail
    | cons c rest =>
      obtain rfl := Option.some.inj htail.1
      refine ⟨front ++ [x], rest, by simp [hc], ?_, hne.symm⟩
      simp [hfront, hx]

/-- At the end of the chain it has not met its object, which is in no chain then. -/
theorem unlinked_of_end {link : Link (BitVec 8) Word} (h : reg.Sound p) (ha : a ∈ reg.published)
    (hlink : reg.Before a link) (hload : reg.loadLink link = none) : a ∈ reg.unlinked := by
  have hchain := (h.trail (registryBucket a)).chain
  have hmem : a ∉ reg.chain (registryBucket a) := by
    cases link with
    | head bucket =>
      subst hlink
      rw [show reg.registry (registryBucket a) = none from hload] at hchain
      cases hc : reg.chain (registryBucket a) with
      | nil => exact List.not_mem_nil
      | cons c rest => simp [hc] at hchain
    | next x =>
      obtain ⟨front, rest, hc, hfront, hx⟩ := hlink
      rw [hc] at hchain
      obtain ⟨r, -, rfl, htail⟩ := seg_append.mp hchain
      rw [show reg.activeNext x = none from hload] at htail
      cases rest with
      | nil => simp [hc, hfront, hx]
      | cons c rest => simp at htail
  by_contra hlinked
  exact hmem (mem_chain.mpr ⟨⟨ha, rfl⟩, hlinked⟩)

theorem activeNext_unlink_next (reg : Registry) (a x : Word) :
    (reg.unlink a (.next x)).activeNext =
      Function.update reg.activeNext x (reg.activeNext a) := by
  funext y
  by_cases hy : y = x
  · subst hy
    simp [Registry.activeNext, unlink, setLink, setObject]
  · simp [Registry.activeNext, unlink, setLink, setObject, hy]

/-- The chain of an object without it. -/
theorem filter_ne_eq {front rest : List Word} (hnodup : (front ++ a :: rest).Nodup) :
    (front ++ a :: rest).filter (fun x => x ≠ a) = front ++ rest := by
  obtain ⟨hnd, ha⟩ := List.nodup_middle.mp hnodup |> List.nodup_cons.mp |>.symm
  have hkeep : ∀ x ∈ front ++ rest, x ≠ a := by
    rintro x hx rfl
    exact ha hx
  rw [List.filter_append, List.filter_cons, if_neg (by simp), ← List.filter_append]
  exact List.filter_eq_self.mpr fun x hx => by simpa using hkeep x hx

theorem later_unlink (reg : Registry) (a b : Word) (link : Link (BitVec 8) Word) :
    Later (reg.heap b) ((reg.unlink a link).heap b) := by
  cases link with
  | head bucket => exact Later.refl _
  | next x =>
    by_cases hb : b = x
    · subst hb
      simp only [Registry.unlink, setLink, setObject, Function.update_self]
      exact ⟨rfl, rfl, rfl, rfl, id⟩
    · simp only [Registry.unlink, setLink, setObject, Function.update_of_ne hb]
      exact Later.refl _

theorem trail_unlink_head (h : reg.Sound p)
    (hload : reg.registry (registryBucket a) = some a) (b : BitVec 8) :
    Trail reg.activeNext (Function.update reg.registry (registryBucket a) (reg.activeNext a) b)
      (reg.born b) ((reg.chain b).filter fun x => x ≠ a) := by
  have htrail := h.trail b
  by_cases hb : b = registryBucket a
  · subst hb
    rw [Function.update_self]
    rw [hload] at htrail
    cases hc : reg.chain (registryBucket a) with
    | nil =>
      have hchain := htrail.chain
      simp [hc] at hchain
    | cons c rest =>
      rw [hc] at htrail
      obtain rfl : a = c := Option.some.inj htrail.chain.1
      have hnd := htrail.chain.nodup
      rw [show a :: rest = [] ++ a :: rest from rfl, filter_ne_eq hnd]
      exact htrail.unlinkHead
  · have hmem : a ∉ reg.chain b := fun hm => hb (mem_chain.mp hm).1.2.symm
    rw [Function.update_of_ne hb, List.filter_eq_self.mpr]
    · exact htrail
    · intro x hx
      have hxa : x ≠ a := fun heq => hmem (heq ▸ hx)
      simpa using hxa

theorem trail_unlink_next {x : Word} {front rest : List Word} (h : reg.Sound p)
    (hc : reg.chain (registryBucket a) = front ++ x :: rest) (hload : reg.activeNext x = some a)
    (b : BitVec 8) :
    Trail (Function.update reg.activeNext x (reg.activeNext a)) (reg.registry b) (reg.born b)
      ((reg.chain b).filter fun x => x ≠ a) := by
  have htrail := h.trail b
  by_cases hb : b = registryBucket a
  · subst hb
    rw [hc] at htrail
    obtain ⟨rest, rfl⟩ : ∃ later, rest = a :: later := by
      obtain ⟨r, -, -, hlater⟩ := seg_append.mp htrail.chain
      rw [hload] at hlater
      cases rest with
      | nil => simp at hlater
      | cons c later => exact ⟨later, by rw [Option.some.inj hlater.1]⟩
    have hnd := htrail.chain.nodup
    have hsplit : front ++ x :: a :: rest = (front ++ [x]) ++ a :: rest := by simp
    rw [hc, hsplit, filter_ne_eq (hsplit ▸ hnd)]
    simpa using htrail.unlinkNext
  · have hmem : a ∉ reg.chain b := fun hm => hb (mem_chain.mp hm).1.2.symm
    have hx : x ∈ reg.chain (registryBucket a) := by simp [hc]
    rw [List.filter_eq_self.mpr]
    · apply htrail.congr
      intro y hy
      apply Function.update_of_ne
      rintro rfl
      exact hb ((mem_born.mp hy).2.symm.trans (mem_chain.mp hx).1.2)
    · intro y hy
      have hya : y ≠ a := fun heq => hmem (heq ▸ hy)
      simpa using hya

/-- The store that takes an object out of its chain. -/
theorem unlink {link : Link (BitVec 8) Word} (h : reg.Sound p) (ha : a ∈ reg.published)
    (hoff : (reg.heap a).active = false) (hlink : reg.Before a link)
    (hload : reg.loadLink link = some a) : (reg.unlink a link).Sound p where
  nodup := by cases link <;> exact h.nodup
  unlinked b hb := by
    have hpublished : (reg.unlink a link).published = reg.published := by cases link <;> rfl
    rw [hpublished]
    obtain rfl | hold := List.mem_cons.mp hb
    · exact ha
    · exact h.unlinked b (by cases link <;> exact hold)
  held b hb := by cases link <;> exact h.held b hb
  callocs b hb := by cases link <;> exact h.callocs b hb
  magic b hb := by
    rw [(later_unlink reg a b link).magic]
    cases link <;> exact h.magic b hb
  handle b hb := by
    rw [(later_unlink reg a b link).rawHandle]
    cases link <;> exact h.handle b hb
  trail b := by
    rw [born_unlink, chain_unlink]
    cases link with
    | head bucket =>
      subst hlink
      exact h.trail_unlink_head hload b
    | next x =>
      obtain ⟨front, rest, hc, -, -⟩ := hlink
      rw [activeNext_unlink_next]
      exact h.trail_unlink_next hc hload b
  linked b hb hactive := by
    have hon := (later_unlink reg a b link).active hactive
    have hb' : b ∈ reg.published := by cases link <;> exact hb
    intro hm
    obtain rfl | hold := List.mem_cons.mp hm
    · rw [hoff] at hon
      cases hon
    · exact h.linked b hb' hon (by cases link <;> exact hold)

end Registry.Sound

section Threads

/-- The result of a call names an object of its slot. -/
def Outcome.Good (reg : Registry) (c : Call) : Outcome → Prop
  | .found a => reg.Published a c.op.slot c.op.kind
  | _ => True

/-- The object of a call that is about to retire it. -/
structure Registry.Retiring (reg : Registry) (c : Call) (a : Word) : Prop where
  published : reg.Published a c.op.slot c.op.kind
  inactive : (reg.heap a).active = false

/-- What holds of a thread at its next step. -/
def Registry.Good (reg : Registry) : Pc → Prop
  | .idle => True
  | .loading c => c.target = none
  | .finding c q w => c.target = none ∧ q = c.query q.raw ∧
      match w with
      | .head => True
      | .node a | .next a => a ∈ reg.born (registryBucket q.raw)
  | .found c q r => c.target = none ∧ q = c.query q.raw ∧
      ∀ a, r = some a → reg.Published a q.owner q.kind ∧ a = q.raw ∧
        (c.stage = .locked → (reg.heap a).active = true)
  | .locking c => c.stage = .locked ∧
      ∀ a, c.target = some a → reg.Published a c.op.slot c.op.kind
  | .allocating c _ => c.stage = .locked
  | .initializing c a _ | .linking c a => c.stage = .locked ∧ reg.Fresh c a
  | .heading c a => c.stage = .locked ∧ reg.Fresh c a ∧
      reg.activeNext a = reg.registry (registryBucket a)
  | .storing c a | .counting c a => c.stage = .locked ∧ reg.Published a c.op.slot c.op.kind
  | .destroying c a => c.stage = .locked ∧ reg.Published a c.op.slot c.op.kind ∧
      (c.target = none → (reg.heap a).active = true)
  | .deactivating c a => c.stage = .locked ∧ reg.Published a c.op.slot c.op.kind
  | .clearing c a => c.stage = .locked ∧ reg.Retiring c a
  | .seeking c a link => c.stage = .locked ∧ reg.Retiring c a ∧ reg.Before a link
  | .unlinking c a link => c.stage = .locked ∧ reg.Retiring c a ∧ reg.Before a link ∧
      reg.loadLink link = some a
  | .pushing c a | .discounting c a => c.stage = .locked ∧ reg.Retiring c a ∧ a ∈ reg.unlinked
  | .unlocking c o => c.stage = .locked ∧ o.Good reg c
  | .returned c o => o.Good reg c

variable {reg reg' : Registry} {pc : Pc}

theorem Outcome.Good.grows {c : Call} {o : Outcome} (h : o.Good reg c) (hgrows : Grows reg reg') :
    o.Good reg' c := by
  cases o with
  | found a => exact hgrows.keeps h
  | done => trivial
  | failed error => trivial

/-- What a thread without the lock relies on survives every step. -/
theorem Registry.Good.grows (h : reg.Good pc) (hgrows : Grows reg reg')
    (houtside : pc.inside = false) : reg'.Good pc := by
  cases pc with
  | idle => trivial
  | loading c => exact h
  | finding c q w =>
    refine ⟨h.1, h.2.1, ?_⟩
    cases w with
    | head => trivial
    | node a =>
      obtain ⟨hmem, hb⟩ := mem_born.mp h.2.2
      exact mem_born.mpr ⟨hgrows.mem hmem, hb⟩
    | next a =>
      obtain ⟨hmem, hb⟩ := mem_born.mp h.2.2
      exact mem_born.mpr ⟨hgrows.mem hmem, hb⟩
  | found c q r =>
    refine ⟨h.1, h.2.1, fun a ha => ?_⟩
    obtain ⟨hp, hraw, -⟩ := h.2.2 a ha
    refine ⟨hgrows.keeps hp, hraw, fun hstage => ?_⟩
    simp [Pc.inside, hstage] at houtside
  | locking c =>
    exact ⟨h.1, fun a ha => hgrows.keeps (h.2 a ha)⟩
  | returned c o => exact Outcome.Good.grows h hgrows
  | _ => simp [Pc.inside] at houtside

/-- And what the owner of the lock relies on survives the steps of the others. -/
theorem Registry.Good.like (h : reg.Good pc) (hlike : Like reg reg') : reg'.Good pc := by
  have hgrows := hlike.grows
  have hretiring : ∀ {c a}, reg.Retiring c a → reg'.Retiring c a := fun hr =>
    ⟨hgrows.keeps hr.published, (hlike.active _).trans hr.inactive⟩
  cases pc with
  | found c q r =>
    refine ⟨h.1, h.2.1, fun a ha => ?_⟩
    obtain ⟨hp, hraw, hactive⟩ := h.2.2 a ha
    exact ⟨hgrows.keeps hp, hraw, fun hstage => (hlike.active a).trans (hactive hstage)⟩
  | finding c q w =>
    refine ⟨h.1, h.2.1, ?_⟩
    cases w with
    | head => trivial
    | node a => exact hlike.born _ ▸ h.2.2
    | next a => exact hlike.born _ ▸ h.2.2
  | allocating c type => exact h
  | initializing c a type => exact ⟨h.1, hlike.fresh h.2⟩
  | linking c a => exact ⟨h.1, hlike.fresh h.2⟩
  | heading c a =>
    refine ⟨h.1, hlike.fresh h.2.1, ?_⟩
    rw [hlike.links, hlike.registry]
    exact h.2.2
  | storing c a => exact ⟨h.1, hgrows.keeps h.2⟩
  | counting c a => exact ⟨h.1, hgrows.keeps h.2⟩
  | destroying c a =>
    exact ⟨h.1, hgrows.keeps h.2.1, fun htarget => (hlike.active a).trans (h.2.2 htarget)⟩
  | deactivating c a => exact ⟨h.1, hgrows.keeps h.2⟩
  | clearing c a => exact ⟨h.1, hretiring h.2⟩
  | seeking c a link => exact ⟨h.1, hretiring h.2.1, hlike.before h.2.2⟩
  | unlinking c a link =>
    refine ⟨h.1, hretiring h.2.1, hlike.before h.2.2.1, ?_⟩
    rw [hlike.loadLink]
    exact h.2.2.2
  | pushing c a => exact ⟨h.1, hretiring h.2.1, hlike.unlinked ▸ h.2.2⟩
  | discounting c a => exact ⟨h.1, hretiring h.2.1, hlike.unlinked ▸ h.2.2⟩
  | unlocking c o => exact ⟨h.1, Outcome.Good.grows h.2 hgrows⟩
  | idle => trivial
  | loading c => exact h
  | locking c => exact Registry.Good.grows h hgrows rfl
  | returned c o => exact Outcome.Good.grows h hgrows

end Threads

section Step

variable {p : Platform} {reg reg' : Registry} {pc pc' : Pc} {c : Call} {q : Query} {a : Word}

theorem Call.query_early {c : Call} (h : c.stage ≠ .attr) (raw : Word) :
    c.query raw = ⟨raw, c.op.slot, c.op.kind⟩ := by
  have haddress : c.address = c.op.slot := by
    unfold Call.address
    split
    · contradiction
    · rfl
  rw [Call.query, if_neg h, haddress]

/-- A found object is one of the call's slot, unless it is the attribute of a new mutex. -/
theorem published_of_query (hq : q = c.query q.raw) (hstage : c.stage ≠ .attr)
    (ha : reg.Published a q.owner q.kind) : reg.Published a c.op.slot c.op.kind := by
  rw [hq, Call.query_early hstage] at ha
  exact ha

theorem resume_like (reg : Registry) (c : Call) (q : Query) (r : Option Word) :
    Like reg (resume reg c q r).1 := by
  unfold resume
  split
  · exact Like.refl reg
  · exact Like.refl reg
  · split <;> exact Like.refl reg
  · split
    · exact Like.setObject ⟨rfl, rfl, rfl, rfl, id⟩ rfl rfl
    · exact Like.refl reg
    · exact Like.refl reg
  · split
    · exact Like.refl reg
    · exact Like.refl reg
    all_goals split <;> exact Like.refl reg
  · split
    · exact Like.refl reg
    · split <;> exact Like.refl reg
    · exact Like.refl reg

theorem resume_good {r : Option Word} (h : reg.Good (.found c q r)) :
    reg.Good (resume reg c q r).2 := by
  obtain ⟨htarget, hq, hfound⟩ := h
  have hnone : ∀ a, c.target = some a → reg.Published a c.op.slot c.op.kind := by
    simp [htarget]
  unfold resume
  split
  case h_1 => trivial
  case h_2 => exact ⟨rfl, hnone⟩
  case h_3 =>
    split
    · trivial
    · exact ⟨rfl, hnone⟩
  case h_4 a hstage =>
    have ha := published_of_query hq (by simp [hstage]) (hfound a rfl).1
    split
    · trivial
    · refine ⟨rfl, fun b hb => ?_⟩
      obtain rfl := Option.some.inj hb
      exact ha
    · exact ha
  case h_5 hstage =>
    split
    · exact hstage
    · exact ⟨hstage, trivial⟩
    all_goals
      split
      · exact ⟨hstage, trivial⟩
      · exact hstage
  case h_6 a hstage =>
    have ha := published_of_query hq (by simp [hstage]) (hfound a rfl).1
    split
    · exact ⟨hstage, trivial⟩
    · split
      · exact ⟨hstage, ha⟩
      · exact ⟨hstage, ha, fun _ => (hfound a rfl).2.2 hstage⟩
    · exact ⟨hstage, ha⟩

theorem leave_good {o : Outcome} (hstage : c.stage = .locked) (h : o.Good reg c) :
    reg.Good (leave c o) := by
  unfold leave
  split
  · refine ⟨hstage, fun b hb => ?_⟩
    obtain rfl := Option.some.inj hb
    exact h
  · exact h

theorem visit_good (link : Link (BitVec 8) Word) (htarget : c.target = none)
    (hq : q = c.query q.raw) (hlink : ∀ x, reg.loadLink link = some x →
      x ∈ reg.born (registryBucket q.raw)) :
    reg.Good (visit c q (reg.loadLink link)) := by
  cases hload : reg.loadLink link with
  | none => exact ⟨htarget, hq, by simp⟩
  | some x => exact ⟨htarget, hq, hlink x hload⟩

/-- What one step of a thread keeps. -/
structure Kept (p : Platform) (reg reg' : Registry) (pc pc' : Pc) : Prop where
  sound : reg'.Sound p
  good : reg'.Good pc'
  grows : Grows reg reg'
  like : pc.inside = false → Like reg reg'

theorem Kept.of_like (h : reg.Sound p) (hlike : Like reg reg') (hgood : reg.Good pc') :
    Kept p reg reg' pc pc' :=
  ⟨h.like hlike, hgood.like hlike, hlike.grows, fun _ => hlike⟩

theorem Kept.stay (h : reg.Sound p) (hgood : reg.Good pc') : Kept p reg reg pc pc' :=
  Kept.of_like h (Like.refl reg) hgood

/-- A step that changes an object nobody else knows. -/
theorem Kept.private_change (h : reg.Sound p) (ha : a ∉ reg.published)
    (hpublished : reg'.published = reg.published) (hunlinked : reg'.unlinked = reg.unlinked)
    (hregistry : reg'.registry = reg.registry)
    (hheld : ∀ b, b ≠ a → reg'.allocated b = reg.allocated b)
    (hcallocs : reg'.allocated a = true → p.callocs a = true)
    (hheap : ∀ b, b ≠ a → reg'.heap b = reg.heap b)
    (hgood : reg'.Good pc') (hinside : pc.inside = true) : Kept p reg reg' pc pc' := by
  have hsame := Same.private_change ha hpublished hunlinked hregistry hheld hheap
  refine ⟨h.same hsame fun b hb => ?_, hgood, hsame.grows, by simp [hinside]⟩
  by_cases hne : b = a
  · subst hne
    exact hcallocs hb
  · exact h.callocs b (hheld b hne ▸ hb)

/-- The host initialisation writes the host object and the mutex type. -/
theorem hostInit_later {kind : Kind} {type : Nat} {code : Errno} {o o' : BridgeObject}
    (h : hostInit kind type code o = .ok o') :
    Later o o' ∧ o'.active = o.active ∧ o'.activeNext = o.activeNext := by
  unfold hostInit at h
  split at h
  · split at h
    · cases h
    · split at h
      · cases h
        exact ⟨⟨rfl, rfl, rfl, rfl, id⟩, rfl, rfl⟩
      · cases h
  all_goals
    split at h
    · cases h
      exact ⟨⟨rfl, rfl, rfl, rfl, id⟩, rfl, rfl⟩
    · cases h

theorem advance_allocating {type : Nat} {lock lock' : Option Tid} {t : Tid}
    {calloc : Option Word} {code : Errno} (h : reg.Sound p) (hgood : reg.Good (.allocating c type))
    (hstep : advance p reg lock t calloc code (.allocating c type) = some (reg', lock', pc')) :
    Kept p reg reg' (.allocating c type) pc' := by
  simp only [advance] at hstep
  split at hstep
  · cases hstep
    exact Kept.stay h ⟨hgood, trivial⟩
  · rename_i a
    split at hstep
    · rename_i hcalloc
      cases hstep
      have ha : a ∉ reg.published := by
        intro hm
        rw [h.held a hm] at hcalloc
        simp at hcalloc
      refine Kept.private_change h ha rfl rfl rfl (fun b hb => Function.update_of_ne hb _ _)
        (fun _ => hcalloc.1) (fun b hb => Function.update_of_ne hb _ _) ⟨hgood, ?_⟩ rfl
      constructor <;> simp [Registry.setObject, newObject]
      exact ha
    · cases hstep

theorem advance_initializing {type : Nat} {lock lock' : Option Tid} {t : Tid}
    {calloc : Option Word} {code : Errno} (h : reg.Sound p)
    (hgood : reg.Good (.initializing c a type))
    (hstep : advance p reg lock t calloc code (.initializing c a type) =
      some (reg', lock', pc')) :
    Kept p reg reg' (.initializing c a type) pc' := by
  simp only [advance] at hstep
  split at hstep
  · rename_i o ho
    cases hstep
    obtain ⟨hlater, hactive, hnext⟩ := hostInit_later ho
    exact Kept.of_like h (Like.setObject hlater hactive hnext) hgood
  · cases hstep
    exact Kept.private_change h hgood.2.unpublished rfl rfl rfl
      (fun b hb => Function.update_of_ne hb _ _) (by simp) (fun b _ => rfl) ⟨hgood.1, trivial⟩ rfl

theorem advance_linking {lock lock' : Option Tid} {t : Tid}
    {calloc : Option Word} {code : Errno} (h : reg.Sound p) (hgood : reg.Good (.linking c a))
    (hstep : advance p reg lock t calloc code (.linking c a) = some (reg', lock', pc')) :
    Kept p reg reg' (.linking c a) pc' := by
  obtain ⟨hstage, hfresh⟩ := hgood
  cases hstep
  refine Kept.private_change h hfresh.unpublished rfl rfl rfl (fun b _ => rfl)
    (fun _ => h.callocs a hfresh.allocated) (fun b hb => Function.update_of_ne hb _ _)
    ⟨hstage, ?_, ?_⟩ rfl
  · obtain ⟨hallocated, hunpublished, hmagic, hraw, howner, hkind, hactive⟩ := hfresh
    constructor <;> simp only [Registry.setLink, Registry.setObject, Function.update_self]
      <;> assumption
  · simp [Registry.activeNext, Registry.setLink, Registry.setObject]

theorem advance_heading {lock lock' : Option Tid} {t : Tid}
    {calloc : Option Word} {code : Errno} (h : reg.Sound p) (hgood : reg.Good (.heading c a))
    (hstep : advance p reg lock t calloc code (.heading c a) = some (reg', lock', pc')) :
    Kept p reg reg' (.heading c a) pc' := by
  obtain ⟨hstage, hfresh, hnext⟩ := hgood
  cases hstep
  refine ⟨h.publishHead hfresh hnext, ⟨hstage, ?_, hfresh.owner, hfresh.kind⟩, ?_, by simp [Pc.inside]⟩
  · exact List.mem_cons_self
  · exact ⟨List.suffix_cons a reg.published, fun b _ => Later.refl _⟩

theorem advance_deactivating {lock lock' : Option Tid} {t : Tid}
    {calloc : Option Word} {code : Errno} (h : reg.Sound p) (hgood : reg.Good (.deactivating c a))
    (hstep : advance p reg lock t calloc code (.deactivating c a) = some (reg', lock', pc')) :
    Kept p reg reg' (.deactivating c a) pc' := by
  obtain ⟨hstage, hmem, howner, hkind⟩ := hgood
  cases hstep
  have hsame : Same reg (reg.setObject a { reg.heap a with active := false }) := by
    refine ⟨rfl, rfl, rfl, fun b _ => rfl, ?_, ?_⟩ <;> intro b hb <;> by_cases hba : b = a
    all_goals simp only [Registry.setObject]
    · subst hba
      rw [Function.update_self]
      exact ⟨rfl, rfl, rfl, rfl, by simp⟩
    · rw [Function.update_of_ne hba]
      exact Later.refl _
    · subst hba
      rw [Function.update_self]
    · rw [Function.update_of_ne hba]
  have hpublished := hsame.grows.keeps ⟨hmem, howner, hkind⟩
  refine ⟨h.same hsame h.callocs, ⟨hstage, hpublished, ?_⟩, hsame.grows, by simp [Pc.inside]⟩
  simp [Registry.setObject]

theorem advance_seeking {link : Link (BitVec 8) Word} {lock lock' : Option Tid} {t : Tid}
    {calloc : Option Word} {code : Errno} (h : reg.Sound p)
    (hgood : reg.Good (.seeking c a link))
    (hstep : advance p reg lock t calloc code (.seeking c a link) = some (reg', lock', pc')) :
    Kept p reg reg' (.seeking c a link) pc' := by
  obtain ⟨hstage, hretiring, hbefore⟩ := hgood
  simp only [advance] at hstep
  split at hstep
  · rename_i hload
    cases hstep
    exact Kept.stay h
      ⟨hstage, hretiring, h.unlinked_of_end hretiring.published.mem hbefore hload⟩
  · rename_i b hload
    split at hstep
    · rename_i hb
      subst hb
      cases hstep
      exact Kept.stay h ⟨hstage, hretiring, hbefore, hload⟩
    · rename_i hb
      cases hstep
      exact Kept.stay h ⟨hstage, hretiring, h.before_next hbefore hload hb⟩

theorem grows_unlink (reg : Registry) (a : Word) (link : Link (BitVec 8) Word) :
    Grows reg (reg.unlink a link) where
  published := by cases link <;> exact List.suffix_refl _
  later b _ := Registry.Sound.later_unlink reg a b link

theorem active_unlink (reg : Registry) (a b : Word) (link : Link (BitVec 8) Word) :
    ((reg.unlink a link).heap b).active = (reg.heap b).active := by
  cases link with
  | head bucket => rfl
  | next x =>
    by_cases hb : b = x
    · subst hb
      simp [Registry.unlink, Registry.setLink, Registry.setObject]
    · simp [Registry.unlink, Registry.setLink, Registry.setObject, hb]

theorem advance_unlinking {link : Link (BitVec 8) Word} {lock lock' : Option Tid} {t : Tid}
    {calloc : Option Word} {code : Errno} (h : reg.Sound p)
    (hgood : reg.Good (.unlinking c a link))
    (hstep : advance p reg lock t calloc code (.unlinking c a link) = some (reg', lock', pc')) :
    Kept p reg reg' (.unlinking c a link) pc' := by
  obtain ⟨hstage, ⟨hp, hoff⟩, hbefore, hload⟩ := hgood
  cases hstep
  have hgrows := grows_unlink reg a link
  refine ⟨h.unlink hp.mem hoff hbefore hload, ⟨hstage, ⟨hgrows.keeps hp, ?_⟩, ?_⟩, hgrows,
    by simp [Pc.inside]⟩
  · rw [active_unlink]
    exact hoff
  · exact List.mem_cons_self

theorem advance_kept {lock lock' : Option Tid} {t : Tid} {calloc : Option Word} {code : Errno}
    (h : reg.Sound p) (hgood : reg.Good pc)
    (hstep : advance p reg lock t calloc code pc = some (reg', lock', pc')) :
    Kept p reg reg' pc pc' := by
  cases pc with
  | idle => cases hstep
  | returned c o => cases hstep
  | loading c =>
    cases hstep
    exact Kept.stay h ⟨hgood, rfl, trivial⟩
  | finding c q w =>
    obtain ⟨htarget, hq, hway⟩ := hgood
    cases w with
    | head =>
      simp only [advance] at hstep
      split at hstep
      · cases hstep
        exact Kept.stay h ⟨htarget, hq, by simp⟩
      · cases hstep
        refine Kept.stay h (visit_good (.head _) htarget hq fun x hx => ?_)
        exact (h.trail _).head_mem hx
    | node a =>
      simp only [advance] at hstep
      split at hstep
      · rename_i hfinds
        cases hstep
        refine Kept.stay h ⟨htarget, hq, fun b hb => ?_⟩
        obtain rfl := Option.some.inj hb
        simp only [Query.finds, Bool.and_eq_true, decide_eq_true_eq] at hfinds
        obtain ⟨⟨⟨⟨hraw, howner⟩, -⟩, hkind⟩, hactive⟩ := hfinds
        have hmem := (Registry.mem_born.mp hway).1
        exact ⟨⟨hmem, howner, hkind⟩, (h.handle a hmem).symm.trans hraw, fun _ => hactive⟩
      · cases hstep
        exact Kept.stay h ⟨htarget, hq, hway⟩
    | next a =>
      cases hstep
      refine Kept.stay h (visit_good (.next a) htarget hq fun x hx => ?_)
      exact ((h.trail _).down a hway x hx).1
  | found c q r =>
    cases hstep
    exact Kept.of_like h (resume_like reg c q r) (resume_good hgood)
  | locking c =>
    simp only [advance] at hstep
    split at hstep
    · split at hstep
      · rename_i a ha
        cases hstep
        exact Kept.stay h ⟨hgood.1, hgood.2 a ha, by simp [ha]⟩
      · rename_i ha
        cases hstep
        exact Kept.stay h ha
    · cases hstep
  | allocating c type => exact advance_allocating h hgood hstep
  | initializing c a type => exact advance_initializing h hgood hstep
  | linking c a => exact advance_linking h hgood hstep
  | heading c a => exact advance_heading h hgood hstep
  | storing c a =>
    cases hstep
    exact Kept.of_like h (Like.slotStore reg _ _) hgood
  | counting c a =>
    cases hstep
    refine Kept.of_like h ?_ hgood
    exact ⟨rfl, rfl, rfl, rfl, fun _ => Later.refl _, fun _ => rfl, fun _ => rfl⟩
  | destroying c a =>
    simp only [advance] at hstep
    split at hstep
    · cases hstep
      exact Kept.stay h ⟨hgood.1, hgood.2.1⟩
    · cases hstep
      exact Kept.stay h ⟨hgood.1, trivial⟩
  | deactivating c a => exact advance_deactivating h hgood hstep
  | clearing c a =>
    cases hstep
    exact Kept.of_like h (Like.slotStore reg _ _) ⟨hgood.1, hgood.2, rfl⟩
  | seeking c a link => exact advance_seeking h hgood hstep
  | unlinking c a link => exact advance_unlinking h hgood hstep
  | pushing c a =>
    cases hstep
    have hlike : Like reg (reg.setObject a { reg.heap a with retiredNext := reg.retiredObjects }) :=
      Like.setObject ⟨rfl, rfl, rfl, rfl, id⟩ rfl rfl
    exact Kept.of_like h
      ⟨rfl, rfl, rfl, rfl, hlike.later, hlike.active, hlike.activeNext⟩ hgood
  | discounting c a =>
    cases hstep
    refine Kept.of_like h ?_ ⟨hgood.1, trivial⟩
    exact ⟨rfl, rfl, rfl, rfl, fun _ => Later.refl _, fun _ => rfl, fun _ => rfl⟩
  | unlocking c o =>
    cases hstep
    exact Kept.stay h (leave_good hgood.1 hgood.2)

theorem resume_inside {r : Option Word} :
    (resume reg c q r).2.inside = true → c.stage = .locked := by
  unfold resume
  repeat' split
  all_goals simp_all [Pc.inside]

theorem leave_inside (c : Call) (o : Outcome) : (leave c o).inside = false := by
  unfold leave
  split <;> rfl

theorem visit_inside (c : Call) (q : Query) (x : Option Word) :
    (visit c q x).inside = decide (c.stage = .locked) := by
  cases x <;> rfl

/-- A thread inside has the lock, and nobody takes it from another thread. -/
theorem advance_lock {lock lock' : Option Tid} {t : Tid} {calloc : Option Word} {code : Errno}
    (hgood : reg.Good pc) (hlock : pc.inside = true → lock = some t)
    (hstep : advance p reg lock t calloc code pc = some (reg', lock', pc')) :
    (pc'.inside = true → lock' = some t) ∧ ∀ u, u ≠ t → lock = some u → lock' = some u := by
  have hstay : lock' = lock → ∀ u, u ≠ t → lock = some u → lock' = some u := fun heq u _ hu =>
    heq.trans hu
  cases pc with
  | idle => cases hstep
  | returned c o => cases hstep
  | locking c =>
    simp only [advance] at hstep
    split at hstep
    · rename_i hfree
      split at hstep <;> cases hstep <;> simp [hfree]
    · cases hstep
  | unlocking c o =>
    cases hstep
    have howner := hlock rfl
    refine ⟨by simp [leave_inside], fun u hu hother => ?_⟩
    exact absurd (Option.some.inj (hother.symm.trans howner)) hu
  | found c q r =>
    cases hstep
    refine ⟨fun hin => hlock ?_, hstay rfl⟩
    simpa [Pc.inside] using resume_inside hin
  | finding c q w =>
    cases w with
    | head =>
      simp only [advance] at hstep
      split at hstep <;> cases hstep <;> refine ⟨fun hin => hlock ?_, hstay rfl⟩
      · exact hin
      · exact (visit_inside c q _).symm.trans hin
    | node a =>
      simp only [advance] at hstep
      split at hstep <;> cases hstep <;> exact ⟨fun hin => hlock hin, hstay rfl⟩
    | next a =>
      cases hstep
      exact ⟨fun hin => hlock ((visit_inside c q _).symm.trans hin), hstay rfl⟩
  | loading c =>
    cases hstep
    exact ⟨fun hin => hlock hin, hstay rfl⟩
  | allocating c type =>
    simp only [advance] at hstep
    split at hstep
    · cases hstep
      exact ⟨fun _ => hlock rfl, hstay rfl⟩
    · split at hstep <;> cases hstep
      exact ⟨fun _ => hlock rfl, hstay rfl⟩
  | initializing c a type =>
    simp only [advance] at hstep
    split at hstep <;> cases hstep <;> exact ⟨fun _ => hlock rfl, hstay rfl⟩
  | destroying c a =>
    simp only [advance] at hstep
    split at hstep <;> cases hstep <;> exact ⟨fun _ => hlock rfl, hstay rfl⟩
  | seeking c a link =>
    simp only [advance] at hstep
    split at hstep
    · cases hstep
      exact ⟨fun _ => hlock rfl, hstay rfl⟩
    · split at hstep <;> cases hstep <;> exact ⟨fun _ => hlock rfl, hstay rfl⟩
  | _ =>
    cases hstep
    exact ⟨fun _ => hlock rfl, hstay rfl⟩

theorem begin_good (reg : Registry) (op : Op) : reg.Good (begin op) := by
  unfold begin
  repeat' split
  all_goals simp [Registry.Good, Outcome.Good]

theorem begin_inside (op : Op) : (begin op).inside = false := by
  unfold begin
  repeat' split
  all_goals rfl

end Step

/-- All that a thread without the lock writes is the type of a published attribute. -/
theorem advance_outside {lock lock' : Option Tid} {t : Tid} {calloc : Option Word} {code : Errno}
    {p : Platform} {reg reg' : Registry} {pc pc' : Pc} (hgood : reg.Good pc)
    (houtside : pc.inside = false)
    (hstep : advance p reg lock t calloc code pc = some (reg', lock', pc')) :
    reg' = reg ∨ ∃ a ∈ reg.published, ∃ type,
      reg' = reg.setObject a { reg.heap a with guestMutexType := type } := by
  cases pc with
  | loading c =>
    cases hstep
    exact Or.inl rfl
  | locking c =>
    simp only [advance] at hstep
    split at hstep
    · split at hstep <;> cases hstep <;> exact Or.inl rfl
    · cases hstep
  | finding c q w =>
    cases w with
    | head =>
      simp only [advance] at hstep
      split at hstep <;> cases hstep <;> exact Or.inl rfl
    | node a =>
      simp only [advance] at hstep
      split at hstep <;> cases hstep <;> exact Or.inl rfl
    | next a =>
      cases hstep
      exact Or.inl rfl
  | found c q r =>
    cases hstep
    unfold resume
    split
    case h_4 a hstage =>
      split
      · exact Or.inr ⟨a, (hgood.2.2 a rfl).1.mem, _, rfl⟩
      · exact Or.inl rfl
      · exact Or.inl rfl
    all_goals
      repeat' split
      all_goals exact Or.inl rfl
  | idle => cases hstep
  | returned c o => cases hstep
  | _ => simp [Pc.inside] at houtside

/-- Who has the lock after a step. -/
theorem advance_takes {lock lock' : Option Tid} {t : Tid} {calloc : Option Word} {code : Errno}
    {p : Platform} {reg reg' : Registry} {pc pc' : Pc}
    (hstep : advance p reg lock t calloc code pc = some (reg', lock', pc')) :
    lock' = lock ∨ (lock = none ∧ lock' = some t ∧ pc.inside = false) ∨
      (lock' = none ∧ pc.inside = true ∧ pc'.inside = false) := by
  cases pc with
  | idle => cases hstep
  | returned c o => cases hstep
  | locking c =>
    simp only [advance] at hstep
    split at hstep
    · rename_i hfree
      split at hstep <;> cases hstep <;> exact Or.inr (Or.inl ⟨hfree, rfl, rfl⟩)
    · cases hstep
  | unlocking c o =>
    cases hstep
    exact Or.inr (Or.inr ⟨rfl, rfl, leave_inside c o⟩)
  | finding c q w =>
    cases w with
    | head =>
      simp only [advance] at hstep
      split at hstep <;> cases hstep <;> exact Or.inl rfl
    | node a =>
      simp only [advance] at hstep
      split at hstep <;> cases hstep <;> exact Or.inl rfl
    | next a =>
      cases hstep
      exact Or.inl rfl
  | allocating c type =>
    simp only [advance] at hstep
    split at hstep
    · cases hstep
      exact Or.inl rfl
    · split at hstep <;> cases hstep
      exact Or.inl rfl
  | initializing c a type =>
    simp only [advance] at hstep
    split at hstep <;> cases hstep <;> exact Or.inl rfl
  | destroying c a =>
    simp only [advance] at hstep
    split at hstep <;> cases hstep <;> exact Or.inl rfl
  | seeking c a link =>
    simp only [advance] at hstep
    split at hstep
    · cases hstep
      exact Or.inl rfl
    · split at hstep <;> cases hstep <;> exact Or.inl rfl
  | _ =>
    cases hstep
    exact Or.inl rfl

/-- What holds of the registry and of all threads at every moment. -/
structure Invariant (p : Platform) (s : State) : Prop where
  sound : s.reg.Sound p
  owned : ∀ t, (s.pc t).inside = true → s.registryLock = some t
  good : ∀ t, s.reg.Good (s.pc t)

namespace Invariant

variable {p : Platform} {s s' : State} {e : Event}

@[simp] theorem move_reg (s : State) (t : Tid) (pc : Pc) (stored : Bool) :
    (s.move t pc stored).reg = s.reg := rfl

@[simp] theorem move_registryLock (s : State) (t : Tid) (pc : Pc) (stored : Bool) :
    (s.move t pc stored).registryLock = s.registryLock := rfl

theorem move_pc (s : State) (t : Tid) (pc : Pc) (stored : Bool) :
    (s.move t pc stored).pc = Function.update s.pc t pc := rfl

theorem initial (p : Platform) (slots : Word → Word) :
    Invariant p (HandleRegistry.initial slots) where
  sound := by
    constructor
    case trail => exact fun b => Trail.empty _
    case nodup => exact List.nodup_nil
    all_goals simp [HandleRegistry.initial]
  owned t h := by cases h
  good t := trivial

/-- While a thread is inside, the others are not. -/
theorem alone (h : Invariant p s) {t u : Tid} (hu : u ≠ t) (hin : (s.pc u).inside = true) :
    (s.pc t).inside = false := by
  by_contra ht
  have howner := h.owned t (by simpa using ht)
  exact hu (Option.some.inj ((h.owned u hin).symm.trans howner))

/-- Steps of one thread as the others see them. -/
theorem other_good (h : Invariant p s) {reg' : Registry} {t u : Tid} (hu : u ≠ t)
    (hgrows : Grows s.reg reg') (hlike : (s.pc t).inside = false → Like s.reg reg') :
    reg'.Good (s.pc u) := by
  cases hin : (s.pc u).inside with
  | false => exact (h.good u).grows hgrows hin
  | true => exact (h.good u).like (hlike (h.alone hu hin))

theorem step (h : Invariant p s) (hstep : HandleRegistry.step p s e = some s') :
    Invariant p s' := by
  cases e with
  | guestStore slot value =>
    cases hstep
    have hlike := Like.slotStore s.reg slot value
    exact ⟨h.sound.like hlike, h.owned, fun t => (h.good t).like hlike⟩
  | start t op =>
    simp only [HandleRegistry.step] at hstep
    split at hstep
    · cases hstep
      refine ⟨h.sound, fun u hu => ?_, fun u => ?_⟩
      all_goals rw [move_pc] at *; by_cases hut : u = t
      · subst hut
        rw [Function.update_self, begin_inside] at hu
        cases hu
      · rw [Function.update_of_ne hut] at hu
        exact h.owned u hu
      · subst hut
        rw [Function.update_self]
        exact begin_good _ op
      · rw [Function.update_of_ne hut]
        exact h.good u
    · cases hstep
  | act t calloc code =>
    simp only [HandleRegistry.step, Option.map_eq_some_iff, Prod.exists] at hstep
    obtain ⟨reg', lock', pc', hadvance, rfl⟩ := hstep
    have hkept := advance_kept h.sound (h.good t) hadvance
    obtain ⟨hmine, hothers⟩ := advance_lock (h.good t) (h.owned t) hadvance
    refine ⟨hkept.sound, fun u hu => ?_, fun u => ?_⟩
    all_goals rw [move_pc] at *; by_cases hut : u = t
    · subst hut
      rw [Function.update_self] at hu
      exact hmine hu
    · rw [Function.update_of_ne hut] at hu
      exact hothers u hut (h.owned u hu)
    · subst hut
      rw [Function.update_self]
      exact hkept.good
    · rw [Function.update_of_ne hut]
      exact h.other_good hut hkept.grows hkept.like

theorem step_grows (h : Invariant p s) (hstep : HandleRegistry.step p s e = some s') :
    Grows s.reg s'.reg := by
  cases e with
  | guestStore slot value =>
    cases hstep
    exact (Like.slotStore s.reg slot value).grows
  | start t op =>
    simp only [HandleRegistry.step] at hstep
    split at hstep <;> cases hstep
    exact Grows.refl s.reg
  | act t calloc code =>
    simp only [HandleRegistry.step, Option.map_eq_some_iff, Prod.exists] at hstep
    obtain ⟨reg', lock', pc', hadvance, rfl⟩ := hstep
    exact (advance_kept h.sound (h.good t) hadvance).grows

theorem run {es : List Event} (h : Invariant p s)
    (hrun : Transition.run (HandleRegistry.step p) s es = some s') : Invariant p s' :=
  run_invariant (fun _ _ _ ht hstep => ht.step hstep) h hrun

theorem run_grows {es : List Event} (h : Invariant p s)
    (hrun : Transition.run (HandleRegistry.step p) s es = some s') : Grows s.reg s'.reg :=
  run_relation (R := fun s s' => Grows s.reg s'.reg) (fun _ _ _ ht hstep => ht.step hstep)
    (fun s => Grows.refl s.reg) (fun _ _ _ => Grows.trans)
    (fun _ _ _ ht hstep => ht.step_grows hstep) h hrun

end Invariant

end Asm2Runtime.HandleRegistry
