import Mathlib.Data.Set.Function
import Mathlib.Data.Set.Lattice
import Mathlib.Order.CompletePartialOrder

/-!
# Passes over a memory that patch cells in place

A pass takes the items of a list one after another. Each changes a cell of its own, and
reads that cell and fixed places only. When the cells are apart, the order does not
matter: every cell ends as its item alone would have left it.
-/

namespace Asm2Runtime

section Pass

variable {ι α β : Type*}

/-- The steps of a pass that starts from a memory that agrees with `m₀` on the fixed places. -/
structure ScatteredPass (cell : ι → Set α) (fixed : Set α) (m₀ : α → β)
    (step : ι → (α → β) → α → β) (items : List ι) : Prop where
  apart : items.Pairwise fun i j => Disjoint (cell i) (cell j)
  off : ∀ i ∈ items, Disjoint (cell i) fixed
  frame : ∀ i ∈ items, ∀ m, Set.EqOn m m₀ fixed → ∀ a, a ∉ cell i → step i m a = m a
  own : ∀ i ∈ items, ∀ m m', Set.EqOn m m₀ fixed → Set.EqOn m' m₀ fixed →
    Set.EqOn m m' (cell i) → Set.EqOn (step i m) (step i m') (cell i)

variable {cell : ι → Set α} {fixed : Set α} {m₀ : α → β} {step : ι → (α → β) → α → β}
  {i : ι} {items : List ι}

namespace ScatteredPass

theorem tail (h : ScatteredPass cell fixed m₀ step (i :: items)) :
    ScatteredPass cell fixed m₀ step items where
  apart := h.apart.tail
  off j hj := h.off j (List.mem_cons_of_mem i hj)
  frame j hj := h.frame j (List.mem_cons_of_mem i hj)
  own j hj := h.own j (List.mem_cons_of_mem i hj)

theorem step_fixed (h : ScatteredPass cell fixed m₀ step items) (hi : i ∈ items) {m : α → β}
    (hm : Set.EqOn m m₀ fixed) : Set.EqOn (step i m) m₀ fixed := by
  intro a ha
  have hout : a ∉ cell i := fun hcell => Set.disjoint_left.mp (h.off i hi) hcell ha
  rw [h.frame i hi m hm a hout, hm ha]

/-- Outside the cells a pass changes nothing. -/
theorem foldl_frame (h : ScatteredPass cell fixed m₀ step items) {m : α → β}
    (hm : Set.EqOn m m₀ fixed) {a : α} (ha : ∀ i ∈ items, a ∉ cell i) :
    items.foldl (fun m i => step i m) m a = m a := by
  induction items generalizing m with
  | nil => rfl
  | cons i items ih =>
    have hmem : i ∈ i :: items := List.mem_cons_self
    rw [List.foldl_cons, ih h.tail (h.step_fixed hmem hm) fun j hj =>
      ha j (List.mem_cons_of_mem i hj)]
    exact h.frame i hmem m hm a (ha i hmem)

theorem foldl_fixed (h : ScatteredPass cell fixed m₀ step items) {m : α → β}
    (hm : Set.EqOn m m₀ fixed) : Set.EqOn (items.foldl (fun m i => step i m) m) m₀ fixed := by
  intro a ha
  have hout : ∀ i ∈ items, a ∉ cell i := fun i hi hcell =>
    Set.disjoint_left.mp (h.off i hi) hcell ha
  rw [h.foldl_frame hm hout, hm ha]

/-- A cell ends as its own item leaves it. -/
theorem foldl_cell (h : ScatteredPass cell fixed m₀ step items) (hi : i ∈ items) {m : α → β}
    (hm : Set.EqOn m m₀ fixed) :
    Set.EqOn (items.foldl (fun m i => step i m) m) (step i m) (cell i) := by
  induction items generalizing m with
  | nil => cases hi
  | cons j items ih =>
    have hj : j ∈ j :: items := List.mem_cons_self
    have hnext := h.step_fixed hj hm
    have hapart := List.pairwise_cons.mp h.apart
    intro a ha
    rw [List.foldl_cons]
    obtain rfl | hlater := List.mem_cons.mp hi
    · -- The items after this one keep off its cell.
      have hout : ∀ k ∈ items, a ∉ cell k := fun k hk hcell =>
        Set.disjoint_left.mp (hapart.1 k hk) ha hcell
      rw [h.tail.foldl_frame hnext hout]
    · rw [ih h.tail hlater hnext ha]
      -- The first item has not touched the cell yet.
      have hsame : Set.EqOn (step j m) m (cell i) := by
        intro b hb
        have hout : b ∉ cell j := fun hcell =>
          Set.disjoint_left.mp (hapart.1 i hlater) hcell hb
        exact h.frame j hj m hm b hout
      exact h.own i hi (step j m) m hnext hm hsame ha

/-- A pass whose steps can fail, but do not, is a pass. -/
theorem foldlM_eq {stepM : ι → (α → β) → Option (α → β)}
    (h : ScatteredPass cell fixed m₀ step items)
    (hsteps : ∀ i ∈ items, ∀ m, Set.EqOn m m₀ fixed → stepM i m = some (step i m)) {m : α → β}
    (hm : Set.EqOn m m₀ fixed) :
    items.foldlM (fun m i => stepM i m) m = some (items.foldl (fun m i => step i m) m) := by
  induction items generalizing m with
  | nil => rfl
  | cons i items ih =>
    have hi : i ∈ i :: items := List.mem_cons_self
    rw [List.foldlM_cons, hsteps i hi m hm, List.foldl_cons]
    exact ih h.tail (fun j hj => hsteps j (List.mem_cons_of_mem i hj)) (h.step_fixed hi hm)

/-- A pass that also counts the items with a property that the fixed places decide. -/
theorem foldl_count {stepN : ι → (α → β) × Nat → (α → β) × Nat} {counted : ι → Bool}
    (h : ScatteredPass cell fixed m₀ step items)
    (hsteps : ∀ i ∈ items, ∀ m n, Set.EqOn m m₀ fixed →
      stepN i (m, n) = (step i m, if counted i then n + 1 else n)) {m : α → β} (n : Nat)
    (hm : Set.EqOn m m₀ fixed) :
    items.foldl (fun s i => stepN i s) (m, n) =
      (items.foldl (fun m i => step i m) m, n + items.countP counted) := by
  induction items generalizing m n with
  | nil => rfl
  | cons i items ih =>
    have hi : i ∈ i :: items := List.mem_cons_self
    have hrest := fun j hj => hsteps j (List.mem_cons_of_mem i hj)
    rw [List.foldl_cons, hsteps i hi m n hm, List.foldl_cons,
      ih h.tail hrest _ (h.step_fixed hi hm)]
    cases hc : counted i with
    | true =>
      simp only [if_pos, List.countP_cons_of_pos hc]
      congr 1
      omega
    | false => simp [hc]

end ScatteredPass

end Pass

end Asm2Runtime
