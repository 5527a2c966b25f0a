import Asm2Runtime.LinkedChain
import Mathlib.Data.List.Basic

/-!
# Chains that are read while they change

New nodes go to the front of a chain, and a node is taken out by redirecting the link
of its predecessor. Its own link stays, so a reader that is on it can go on. Links lead
from younger nodes to older ones; from every node that was ever in the chain they reach
all older nodes that are still in it.
-/

namespace Asm2Runtime.StaleChain

open LinkedChain

variable {α : Type*} [DecidableEq α]

/-- The position of a node in the order of arrival, from 1; `born` has the newest first. -/
def age (born : List α) (a : α) : Nat := born.length - born.idxOf a

section Age

variable {born : List α} {a b : α}

theorem age_pos_iff : 0 < age born a ↔ a ∈ born := by
  rw [age, ← List.idxOf_lt_length_iff]
  omega

theorem age_le (born : List α) (a : α) : age born a ≤ born.length := Nat.sub_le _ _

theorem age_inj (ha : a ∈ born) (h : age born a = age born b) : a = b := by
  have hb : b ∈ born := by
    rw [← age_pos_iff, ← h, age_pos_iff]
    exact ha
  have hla := List.idxOf_lt_length_iff.mpr ha
  have hlb := List.idxOf_lt_length_iff.mpr hb
  apply (List.idxOf_inj ha).mp
  unfold age at h
  omega

theorem age_cons_self (born : List α) (a : α) : age (a :: born) a = born.length + 1 := by
  simp [age]

theorem age_cons_of_ne (h : b ≠ a) : age (a :: born) b = age born b := by
  rw [age, age, List.idxOf_cons_ne born h.symm, List.length_cons]
  omega

/-- New nodes do not change the age of the old ones. -/
theorem age_suffix {born' : List α} (h : born <:+ born') (hnodup : born'.Nodup) (ha : a ∈ born) :
    age born' a = age born a := by
  obtain ⟨new, rfl⟩ := h
  induction new with
  | nil => rfl
  | cons b new ih =>
    obtain ⟨hb, hrest⟩ := List.nodup_cons.mp hnodup
    have hne : a ≠ b := by
      rintro rfl
      exact hb (List.mem_append_right new ha)
    rw [List.cons_append, age_cons_of_ne hne]
    exact ih hrest

end Age

/-- A chain with the nodes that were ever in it. -/
structure Trail (next : α → Option α) (head : Option α) (born live : List α) : Prop where
  chain : Chain next head live
  subset : ∀ a ∈ live, a ∈ born
  down : ∀ a ∈ born, ∀ b, next a = some b → b ∈ born ∧ age born b < age born a
  gap : ∀ a ∈ born, ∀ x ∈ live, age born x < age born a →
    ∃ b, next a = some b ∧ age born x ≤ age born b

namespace Trail

variable {next : α → Option α} {head : Option α} {born live : List α} {a x : α}

theorem empty (next : α → Option α) : Trail next none [] [] := by
  constructor <;> simp

theorem congr {next' : α → Option α} (h : Trail next head born live)
    (hnext : ∀ a ∈ born, next' a = next a) : Trail next' head born live where
  chain := Seg.congr h.chain fun a ha => hnext a (h.subset a ha)
  subset := h.subset
  down a ha b hb := h.down a ha b (hnext a ha ▸ hb)
  gap a ha x hx hlt := by
    rw [hnext a ha]
    exact h.gap a ha x hx hlt

/-- Every node of a chain is at least as young as the ones behind it. -/
theorem age_lt_first {rest : List α} (h : Trail next head born live)
    (hrest : ∀ b ∈ a :: rest, b ∈ born) (hchain : Chain next (some a) (a :: rest)) (hx : x ∈ rest) :
    age born x < age born a := by
  induction rest generalizing a with
  | nil => cases hx
  | cons b rest ih =>
    obtain ⟨hb, hlt⟩ := h.down a (hrest a (by simp)) b hchain.2.1
    obtain rfl | hlater := List.mem_cons.mp hx
    · exact hlt
    · have hstep := ih (fun c hc => hrest c (List.mem_cons_of_mem a hc)) ⟨rfl, hchain.2.2⟩ hlater
      omega

/-- A reader of the head is not past any node of the chain. -/
theorem head_bound (h : Trail next head born live) (hx : x ∈ live) :
    ∃ a, head = some a ∧ a ∈ born ∧ age born x ≤ age born a := by
  cases live with
  | nil => cases hx
  | cons a rest =>
    have hhead := h.chain.1
    subst hhead
    refine ⟨a, rfl, h.subset a (by simp), ?_⟩
    obtain rfl | hlater := List.mem_cons.mp hx
    · exact Nat.le_refl _
    · exact Nat.le_of_lt (h.age_lt_first h.subset h.chain hlater)

theorem head_mem (h : Trail next head born live) (ha : head = some a) : a ∈ born := by
  subst ha
  exact h.subset a h.chain.head_mem

/-- Put a new node in front; its link has been set before. -/
theorem push (h : Trail next head born live) (ha : a ∉ born) (hnext : next a = head) :
    Trail next (some a) (a :: born) (a :: live) where
  chain := ⟨rfl, hnext ▸ h.chain⟩
  subset b hb := by
    obtain rfl | hold := List.mem_cons.mp hb
    · exact List.mem_cons_self
    · exact List.mem_cons_of_mem a (h.subset b hold)
  down b hb c hc := by
    obtain rfl | hold := List.mem_cons.mp hb
    · have hmem := h.head_mem (hnext.symm.trans hc)
      have hne : c ≠ b := fun heq => ha (heq ▸ hmem)
      refine ⟨List.mem_cons_of_mem b hmem, ?_⟩
      rw [age_cons_self, age_cons_of_ne hne]
      have := age_le born c
      omega
    · obtain ⟨hmem, hlt⟩ := h.down b hold c hc
      have hb : b ≠ a := fun heq => ha (heq ▸ hold)
      have hca : c ≠ a := fun heq => ha (heq ▸ hmem)
      rw [age_cons_of_ne hb, age_cons_of_ne hca]
      exact ⟨List.mem_cons_of_mem a hmem, hlt⟩
  gap b hb y hy hlt := by
    have hle := age_le born b
    obtain rfl | hlive := List.mem_cons.mp hy
    · -- No node is younger than the new one.
      rw [age_cons_self] at hlt
      have := age_le (y :: born) b
      simp only [List.length_cons] at this
      omega
    · have hya : y ≠ a := fun heq => ha (heq ▸ h.subset y hlive)
      obtain rfl | hold := List.mem_cons.mp hb
      · obtain ⟨c, hc, hmem, hbound⟩ := h.head_bound hlive
        have hcb : c ≠ b := fun heq => ha (heq ▸ hmem)
        exact ⟨c, hnext.trans hc, by rwa [age_cons_of_ne hya, age_cons_of_ne hcb]⟩
      · have hba : b ≠ a := fun heq => ha (heq ▸ hold)
        rw [age_cons_of_ne hya, age_cons_of_ne hba] at hlt
        obtain ⟨c, hc, hbound⟩ := h.gap b hold y hlive hlt
        have hca : c ≠ a := fun heq => ha (heq ▸ (h.down b hold c hc).1)
        exact ⟨c, hc, by rwa [age_cons_of_ne hya, age_cons_of_ne hca]⟩

/-- Take out the first node. -/
theorem unlinkHead {rest : List α} (h : Trail next head born (a :: rest)) :
    Trail next (next a) born rest where
  chain := h.chain.2
  subset b hb := h.subset b (List.mem_cons_of_mem a hb)
  down := h.down
  gap b hb y hy hlt := h.gap b hb y (List.mem_cons_of_mem a hy) hlt

/-- Take out the node behind `x`. -/
theorem unlinkNext {front rest : List α} (h : Trail next head born (front ++ x :: a :: rest)) :
    Trail (Function.update next x (next a)) head born (front ++ x :: rest) where
  chain := by
    have hnd := h.chain.nodup
    simp only [List.nodup_append, List.nodup_cons, List.mem_cons, not_or] at hnd
    obtain ⟨-, ⟨hx, -, -⟩, hfront⟩ := hnd
    have hxf : x ∉ front := fun hm => hfront x hm x (Or.inl rfl) rfl
    obtain ⟨r, hseg, rfl, -, htail⟩ := seg_append.mp h.chain
    refine seg_append.mpr ⟨some x, hseg.update hxf _, rfl, ?_⟩
    rw [Function.update_self]
    exact htail.update hx.2 _
  subset b hb := h.subset b (by
    simp only [List.mem_append, List.mem_cons] at hb ⊢
    tauto)
  down b hb c hc := by
    by_cases hbx : b = x
    · subst hbx
      rw [Function.update_self] at hc
      have hlink : next b = some a := by
        obtain ⟨r, -, rfl, hlink, -⟩ := seg_append.mp h.chain
        exact hlink
      obtain ⟨ha, hlt⟩ := h.down b hb a hlink
      obtain ⟨hmem, hlt'⟩ := h.down a ha c hc
      exact ⟨hmem, by omega⟩
    · rw [Function.update_of_ne hbx] at hc
      exact h.down b hb c hc
  gap b hb y hy hlt := by
    have hy' : y ∈ front ++ x :: a :: rest := by
      simp only [List.mem_append, List.mem_cons] at hy ⊢
      tauto
    obtain ⟨c, hc, hbound⟩ := h.gap b hb y hy' hlt
    by_cases hbx : b = x
    · -- The link of `x` now is the one of `a`, and `a` itself is gone.
      subst hbx
      have hlink : next b = some a := by
        obtain ⟨r, -, rfl, hlink, -⟩ := seg_append.mp h.chain
        exact hlink
      obtain rfl : c = a := Option.some.inj (hc.symm.trans hlink)
      have hne : y ≠ c := by
        rintro rfl
        have hnd := h.chain.nodup
        simp only [List.nodup_append, List.nodup_cons, List.mem_cons, not_or] at hnd
        simp only [List.mem_append, List.mem_cons] at hy
        obtain hf | rfl | hr := hy
        · exact hnd.2.2 y hf y (Or.inr (Or.inl rfl)) rfl
        · exact hnd.2.1.1.1 rfl
        · exact hnd.2.1.2.1 hr
      have hmem := h.subset y hy'
      have hages : age born y ≠ age born c := fun heq => hne (age_inj hmem heq)
      have hlt' : age born y < age born c := by omega
      rw [Function.update_self]
      exact h.gap c (h.down b hb c hlink).1 y hy' hlt'
    · rw [Function.update_of_ne hbx]
      exact ⟨c, hc, hbound⟩

end Trail

end Asm2Runtime.StaleChain
