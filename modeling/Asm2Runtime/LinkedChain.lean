import Mathlib.Data.List.Nodup
import Mathlib.Logic.Function.Basic

/-!
# Singly linked lists in a heap

Nodes are addresses and `next` is the contents of the link field, so a list in
memory is a start pointer together with the nodes met on the way to NULL. The
loops of a C program over such a list take a fuel argument; the lemmas below
say that any fuel at least the number of nodes gives the whole walk.
-/

namespace Asm2Runtime.LinkedChain

variable {α : Type*}

/-- Following `next` from `p` meets exactly the listed nodes and arrives at `q`. -/
def Seg (next : α → Option α) : Option α → List α → Option α → Prop
  | p, [], q => p = q
  | p, a :: l, q => p = some a ∧ Seg next (next a) l q

/-- A segment that ends in NULL. -/
abbrev Chain (next : α → Option α) (p : Option α) (l : List α) : Prop := Seg next p l none

@[simp] theorem seg_nil {next : α → Option α} {p q : Option α} : Seg next p [] q ↔ p = q := Iff.rfl

@[simp] theorem seg_cons {next : α → Option α} {p q : Option α} {a : α} {l : List α} :
    Seg next p (a :: l) q ↔ p = some a ∧ Seg next (next a) l q := Iff.rfl

theorem seg_append {next : α → Option α} {p q : Option α} {l m : List α} :
    Seg next p (l ++ m) q ↔ ∃ r, Seg next p l r ∧ Seg next r m q := by
  induction l generalizing p with
  | nil => simp
  | cons a l ih => simp [ih, and_assoc]

theorem seg_concat {next : α → Option α} {p q : Option α} {a : α} {l : List α} :
    Seg next p (l ++ [a]) q ↔ Seg next p l (some a) ∧ next a = q := by
  simp only [seg_append, seg_cons, seg_nil]
  constructor
  · rintro ⟨r, hl, rfl, hq⟩
    exact ⟨hl, hq⟩
  · rintro ⟨hl, hq⟩
    exact ⟨_, hl, rfl, hq⟩

/-- A segment reads only the link fields of its own nodes. -/
theorem Seg.congr {next next' : α → Option α} {p q : Option α} {l : List α}
    (h : Seg next p l q) (he : ∀ a ∈ l, next' a = next a) : Seg next' p l q := by
  induction l generalizing p with
  | nil => exact h
  | cons a l ih =>
    refine ⟨h.1, ?_⟩
    rw [he a (by simp)]
    exact ih h.2 fun b hb => he b (by simp [hb])

theorem Seg.update [DecidableEq α] {next : α → Option α} {p q : Option α} {l : List α} {a : α}
    (h : Seg next p l q) (ha : a ∉ l) (v : Option α) :
    Seg (Function.update next a v) p l q := by
  apply h.congr
  intro b hb
  have hba : b ≠ a := by rintro rfl; exact ha hb
  exact Function.update_of_ne hba _ _

/-- The start pointer determines the nodes of a chain. -/
theorem Chain.unique {next : α → Option α} {p : Option α} {l m : List α}
    (hl : Chain next p l) (hm : Chain next p m) : l = m := by
  induction l generalizing p m with
  | nil =>
    cases m with
    | nil => rfl
    | cons b m => exact absurd (hl.symm.trans hm.1) (by simp)
  | cons a l ih =>
    cases m with
    | nil => exact absurd (hm.symm.trans hl.1) (by simp)
    | cons b m =>
      obtain rfl : a = b := by simpa using hl.1.symm.trans hm.1
      rw [ih hl.2 hm.2]

/-- A chain is acyclic: a node met twice would have two different tails. -/
theorem Chain.nodup {next : α → Option α} {p : Option α} {l : List α}
    (h : Chain next p l) : l.Nodup := by
  induction l generalizing p with
  | nil => exact List.nodup_nil
  | cons a l ih =>
    refine List.nodup_cons.mpr ⟨?_, ih h.2⟩
    intro ha
    obtain ⟨before, after, rfl⟩ := List.append_of_mem ha
    obtain ⟨r, -, hr⟩ := seg_append.mp h.2
    have heq : before ++ a :: after = after := Chain.unique h.2 hr.2
    have hlen := congrArg List.length heq
    simp at hlen
    omega

theorem Chain.head_mem {next : α → Option α} {a : α} {l : List α}
    (h : Chain next (some a) l) : a ∈ l := by
  cases l with
  | nil => simp at h
  | cons b l =>
    obtain rfl : a = b := by simpa using h.1
    simp

theorem Chain.next_mem {next : α → Option α} {p : Option α} {a b : α} {l : List α}
    (h : Chain next p l) (ha : a ∈ l) (hab : next a = some b) : b ∈ l := by
  obtain ⟨before, after, rfl⟩ := List.append_of_mem ha
  obtain ⟨r, -, -, hr⟩ := seg_append.mp h
  rw [hab] at hr
  simp [Chain.head_mem hr]

/-- Link a new node in front. -/
theorem Chain.push [DecidableEq α] {next : α → Option α} {p : Option α} {l : List α} {a : α}
    (h : Chain next p l) (ha : a ∉ l) : Chain (Function.update next a p) (some a) (a :: l) := by
  refine ⟨rfl, ?_⟩
  rw [Function.update_self]
  exact h.update ha p

/-- Link a new last node behind the old last node. -/
theorem Chain.enqueue [DecidableEq α] {next : α → Option α} {p : Option α} {l : List α} {t a : α}
    (h : Chain next p (l ++ [t])) (hfresh : a ∉ l ++ [t]) (ha : next a = none) :
    Chain (Function.update next t (some a)) p (l ++ [t] ++ [a]) := by
  have hnd := h.nodup
  have ht : t ∉ l := fun hm => (List.nodup_append.mp hnd).2.2 t hm t (by simp) rfl
  have hat : a ≠ t := by rintro rfl; simp at hfresh
  have hseg := (seg_concat.mp h).1
  exact seg_concat.mpr ⟨seg_concat.mpr ⟨hseg.update ht _, by simp⟩, by simp [hat, ha]⟩

/-- Redirect the link of the predecessor around a node and clear the node's own link. -/
theorem Chain.unlink [DecidableEq α] {next : α → Option α} {p : Option α} {l m : List α} {a w : α}
    (h : Chain next p (l ++ a :: w :: m)) :
    Chain (Function.update (Function.update next a (next w)) w none) p (l ++ a :: m) := by
  have hnd := h.nodup
  simp only [List.nodup_append, List.nodup_cons, List.mem_cons] at hnd
  obtain ⟨-, ⟨ha, hw, -⟩, hl⟩ := hnd
  have hal : a ∉ l := fun hm => hl a hm a (by simp) rfl
  have hwl : w ∉ l := fun hm => hl w hm w (by simp) rfl
  have ham : a ∉ m := fun hm => ha (by simp [hm])
  have haw : a ≠ w := fun he => ha (by simp [he])
  obtain ⟨r, hr, rfl, -, hm⟩ := seg_append.mp h
  refine seg_append.mpr ⟨some a, (hr.update hal _).update hwl _, rfl, ?_⟩
  rw [Function.update_of_ne haw, Function.update_self]
  exact (hm.update ham _).update hw _

/-- Drop the first node and clear its link. -/
theorem Chain.pop [DecidableEq α] {next : α → Option α} {w : α} {l : List α}
    (h : Chain next (some w) l) :
    ∃ m, l = w :: m ∧ Chain (Function.update next w none) (next w) m := by
  cases l with
  | nil => simp at h
  | cons b m =>
    obtain rfl : w = b := by simpa using h.1
    have hw := (List.nodup_cons.mp h.nodup).1
    exact ⟨m, rfl, h.2.update hw _⟩

section Rank

variable {next : α → Option α} {rank : α → Nat}

/-- Links that always lead to a smaller rank end in NULL from every start. -/
theorem exists_chain (hrank : ∀ a b, next a = some b → rank b < rank a) (a : α) :
    ∃ l, Chain next (some a) l ∧ l.length ≤ rank a + 1 := by
  induction hn : rank a using Nat.strongRecOn generalizing a with
  | ind n ih =>
    cases hb : next a with
    | none => exact ⟨[a], by simp [hb], by simp⟩
    | some b =>
      have hlt := hrank a b hb
      obtain ⟨l, hl, hlen⟩ := ih (rank b) (by omega) b rfl
      refine ⟨a :: l, ⟨rfl, by rw [hb]; exact hl⟩, ?_⟩
      simp only [List.length_cons]
      omega

end Rank

section Walk

variable (next : α → Option α) (p : α → Bool)

/-- `for (n = start; n; n = n->next) if (p(n)) return n; return NULL;` -/
def find : Nat → Option α → Option (Option α)
  | _, none => some none
  | 0, some _ => none
  | fuel + 1, some a => if p a then some (some a) else find fuel (next a)

variable {next p}

theorem find_eq {q : Option α} {l : List α} {fuel : Nat} (h : Chain next q l)
    (hfuel : l.length ≤ fuel) : find next p fuel q = some (l.find? p) := by
  induction l generalizing q fuel with
  | nil =>
    obtain rfl : q = none := h
    cases fuel <;> rfl
  | cons a l ih =>
    obtain ⟨rfl, htail⟩ := h
    cases fuel with
    | zero => simp at hfuel
    | succ fuel =>
      have := ih htail (by simpa using hfuel)
      cases hp : p a <;> simp [find, hp, this]

theorem find_spec {q : Option α} {fuel : Nat} {a : α} (h : find next p fuel q = some (some a)) :
    p a = true := by
  induction fuel generalizing q with
  | zero => cases q <;> simp [find] at h
  | succ fuel ih =>
    cases q with
    | none => simp [find] at h
    | some b =>
      simp only [find] at h
      split at h
      · rename_i hb
        obtain rfl : b = a := by simpa using h
        exact hb
      · exact ih h

end Walk

/-- A place that holds a pointer: the head of a list or the link field of a node. -/
inductive Link (β α : Type*) where
  | head : β → Link β α
  | next : α → Link β α
  deriving DecidableEq, Repr

/-- Read the pointer in a place. -/
def Link.load {β : Type*} (heads : β → Option α) (next : α → Option α) : Link β α → Option α
  | .head b => heads b
  | .next a => next a

section Seek

variable {β : Type*} (heads : β → Option α) (next : α → Option α) (p : α → Bool)

/-- `while (*link && !p(*link)) link = &(*link)->next;` with the final link. -/
def seek : Nat → Link β α → Option (Link β α)
  | fuel, link =>
    match link.load heads next with
    | none => some link
    | some a =>
      if p a then some link
      else match fuel with
        | 0 => none
        | fuel + 1 => seek fuel (.next a)

variable {heads next p}

/-- With fuel for the whole chain the search ends, on the first match or at the end. -/
theorem seek_eq {link : Link β α} {l : List α} {fuel : Nat}
    (h : Chain next (link.load heads next) l) (hfuel : l.length ≤ fuel) :
    ∃ final, seek heads next p fuel link = some final ∧
      final.load heads next = l.find? p := by
  induction l generalizing link fuel with
  | nil =>
    have hload : link.load heads next = none := h
    exact ⟨link, by unfold seek; simp [hload], by simp [hload]⟩
  | cons a l ih =>
    obtain ⟨hload, htail⟩ := h
    by_cases hp : p a
    · exact ⟨link, by unfold seek; simp [hload, hp], by simp [hload, hp]⟩
    · cases fuel with
      | zero => simp at hfuel
      | succ fuel =>
        have hrest : Chain next ((Link.next a : Link β α).load heads next) l := htail
        obtain ⟨final, hfinal, hres⟩ := ih hrest (by simpa using hfuel)
        exact ⟨final, by unfold seek; simp [hload, hp, hfinal], by simp [hp, hres]⟩

theorem seek_spec {link final : Link β α} {fuel : Nat} {a : α}
    (h : seek heads next p fuel link = some final) (hload : final.load heads next = some a) :
    p a = true := by
  induction fuel generalizing link with
  | zero =>
    unfold seek at h
    split at h
    · rename_i hnone
      obtain rfl : link = final := by simpa using h
      simp [hload] at hnone
    · rename_i b hb
      split at h
      · rename_i hp
        obtain rfl : link = final := by simpa using h
        obtain rfl : a = b := by simpa [hload] using hb
        exact hp
      · simp at h
  | succ fuel ih =>
    unfold seek at h
    split at h
    · rename_i hnone
      obtain rfl : link = final := by simpa using h
      simp [hload] at hnone
    · rename_i b hb
      split at h
      · rename_i hp
        obtain rfl : link = final := by simpa using h
        obtain rfl : a = b := by simpa [hload] using hb
        exact hp
      · exact ih h

end Seek

end Asm2Runtime.LinkedChain
