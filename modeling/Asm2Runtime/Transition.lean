import Mathlib.Data.List.Basic
import Mathlib.Logic.Relation

/-!
# Runs of a partial step function

A system is a partial step function on states. An event carries everything the
environment chooses (which thread moves, what an allocation or a system call
returns), so one list of events is one interleaving, and a theorem about every
list is a theorem about every interleaving. Since every initial part of a list
is a list, a property of all end states holds at every moment.
-/

namespace Asm2Runtime.Transition

variable {σ ε : Type*}

/-- Execute the events in order; none means that some event was not enabled. -/
def run (step : σ → ε → Option σ) : σ → List ε → Option σ
  | s, [] => some s
  | s, e :: es => (step s e).bind fun t => run step t es

@[simp] theorem run_nil (step : σ → ε → Option σ) (s : σ) : run step s [] = some s := rfl

theorem run_cons {step : σ → ε → Option σ} {s u : σ} {e : ε} {es : List ε} :
    run step s (e :: es) = some u ↔ ∃ t, step s e = some t ∧ run step t es = some u := by
  simp [run, Option.bind_eq_some_iff]

theorem run_append (step : σ → ε → Option σ) (s : σ) (es fs : List ε) :
    run step s (es ++ fs) = (run step s es).bind fun t => run step t fs := by
  induction es generalizing s with
  | nil => rfl
  | cons e es ih => cases h : step s e <;> simp [run, h, ih]

theorem run_append_some {step : σ → ε → Option σ} {s u : σ} {es fs : List ε} :
    run step s (es ++ fs) = some u ↔ ∃ t, run step s es = some t ∧ run step t fs = some u := by
  simp [run_append, Option.bind_eq_some_iff]

/-- A predicate kept by every enabled event holds at the end of every run. -/
theorem run_invariant {step : σ → ε → Option σ} {P : σ → Prop}
    (hstep : ∀ s e t, P s → step s e = some t → P t)
    {s u : σ} {es : List ε} (hs : P s) (hrun : run step s es = some u) : P u := by
  induction es generalizing s with
  | nil =>
    obtain rfl : s = u := by simpa using hrun
    exact hs
  | cons e es ih =>
    obtain ⟨t, ht, hu⟩ := run_cons.mp hrun
    exact ih (hstep s e t hs ht) hu

/-- The same rule for a relation between the events so far and the state. -/
theorem run_history {step : σ → ε → Option σ} {P : List ε → σ → Prop}
    (hstep : ∀ es s e t, P es s → step s e = some t → P (es ++ [e]) t)
    {s u : σ} {before es : List ε} (hs : P before s) (hrun : run step s es = some u) :
    P (before ++ es) u := by
  induction es generalizing s before with
  | nil =>
    obtain rfl : s = u := by simpa using hrun
    rwa [List.append_nil]
  | cons e es ih =>
    obtain ⟨t, ht, hu⟩ := run_cons.mp hrun
    have hmore := ih (hstep before s e t hs ht) hu
    rwa [List.append_assoc, List.singleton_append] at hmore

/-- The same rule for a relation between the start and the current state. -/
theorem run_relation {step : σ → ε → Option σ} {P : σ → Prop} {R : σ → σ → Prop}
    (hP : ∀ s e t, P s → step s e = some t → P t)
    (hrefl : ∀ s, R s s) (htrans : ∀ s t u, R s t → R t u → R s u)
    (hR : ∀ s e t, P s → step s e = some t → R s t)
    {s u : σ} {es : List ε} (hs : P s) (hrun : run step s es = some u) : R s u := by
  induction es generalizing s with
  | nil =>
    obtain rfl : s = u := by simpa using hrun
    exact hrefl s
  | cons e es ih =>
    obtain ⟨t, ht, hu⟩ := run_cons.mp hrun
    exact htrans s t u (hR s e t hs ht) (ih (hP s e t hs ht) hu)

/-- Every step of the run meets the condition, which reads the state before
the step and the event. -/
def Along (step : σ → ε → Option σ) (ok : σ → ε → Prop) : σ → List ε → Prop
  | _, [] => True
  | s, e :: es => ok s e ∧ ∀ t, step s e = some t → Along step ok t es

instance decidableAlong (step : σ → ε → Option σ) (ok : σ → ε → Prop)
    [∀ s e, Decidable (ok s e)] : ∀ s es, Decidable (Along step ok s es)
  | _, [] => isTrue trivial
  | s, e :: es =>
    match h : step s e with
    | none => decidable_of_iff (ok s e) (by simp [Along, h])
    | some t =>
      have := decidableAlong step ok t es
      decidable_of_iff (ok s e ∧ Along step ok t es) (by simp [Along, h])

theorem Along.append {step : σ → ε → Option σ} {ok : σ → ε → Prop} {s t : σ} {es fs : List ε}
    (h : Along step ok s (es ++ fs)) (hrun : run step s es = some t) :
    Along step ok s es ∧ Along step ok t fs := by
  induction es generalizing s with
  | nil =>
    obtain rfl : s = t := by simpa using hrun
    exact ⟨trivial, h⟩
  | cons e es ih =>
    obtain ⟨u, hu, ht⟩ := run_cons.mp hrun
    refine ⟨⟨h.1, ?_⟩, (ih (h.2 u hu) ht).2⟩
    intro v hv
    obtain rfl : u = v := by simpa [hu] using hv
    exact (ih (h.2 u hu) ht).1

/-- Invariant rule for runs all of whose steps meet a condition. -/
theorem run_invariant_along {step : σ → ε → Option σ} {ok : σ → ε → Prop} {P : σ → Prop}
    (hstep : ∀ s e t, P s → ok s e → step s e = some t → P t)
    {s u : σ} {es : List ε} (hs : P s) (hok : Along step ok s es)
    (hrun : run step s es = some u) : P u := by
  induction es generalizing s with
  | nil =>
    obtain rfl : s = u := by simpa using hrun
    exact hs
  | cons e es ih =>
    obtain ⟨t, ht, hu⟩ := run_cons.mp hrun
    exact ih (hstep s e t hs hok.1 ht) (hok.2 t ht) hu

/-- The property holds in every state that the run passes through. -/
def Always (step : σ → ε → Option σ) (Q : σ → Prop) (s : σ) (es : List ε) : Prop :=
  ∀ fs gs t, es = fs ++ gs → run step s fs = some t → Q t

theorem Always.cons {step : σ → ε → Option σ} {Q : σ → Prop} {s t : σ} {e : ε} {es : List ε}
    (h : Always step Q s (e :: es)) (ht : step s e = some t) : Q t ∧ Always step Q t es := by
  constructor
  · exact h [e] es t rfl (by simp [run, ht])
  · intro fs gs u he hu
    exact h (e :: fs) gs u (by simp [he]) (run_cons.mpr ⟨t, ht, hu⟩)

/-- When a step that violates the condition breaks the property at once, the
property holds throughout a run exactly when every step meets the condition. -/
theorem always_iff_along {step : σ → ε → Option σ} {ok : σ → ε → Prop} {P Q : σ → Prop}
    (hPQ : ∀ s, P s → Q s)
    (hkeep : ∀ s e t, P s → ok s e → step s e = some t → P t)
    (hbreak : ∀ s e t, P s → ¬ ok s e → step s e = some t → ¬ Q t)
    {s u : σ} {es : List ε} (hs : P s) (hrun : run step s es = some u) :
    Always step Q s es ↔ Along step ok s es := by
  constructor
  · intro h
    induction es generalizing s with
    | nil => trivial
    | cons e es ih =>
      obtain ⟨t, ht, hu⟩ := run_cons.mp hrun
      have hok : ok s e := by
        by_contra hn
        exact hbreak s e t hs hn ht (h.cons ht).1
      refine ⟨hok, ?_⟩
      intro v hv
      obtain rfl : t = v := by simpa [ht] using hv
      exact ih (hkeep s e t hs hok ht) hu (h.cons ht).2
  · intro h fs gs t he ht
    subst es
    exact hPQ t (run_invariant_along hkeep hs (h.append ht).1 ht)

/-- A chain begins with a link. -/
theorem chain_first {r : σ → σ → Prop} {a b : σ} (h : Relation.TransGen r a b) : ∃ c, r a c := by
  obtain ⟨c, hc, -⟩ := Relation.TransGen.head'_iff.mp h
  exact ⟨c, hc⟩

/-- What keeps every link to a state with a further link keeps a chain to such a state. -/
theorem chain_keep {r r' : σ → σ → Prop} {a b c : σ} (hkeep : ∀ u v w, r u v → r v w → r' u v)
    (hb : r b c) (h : Relation.TransGen r a b) : Relation.TransGen r' a b := by
  induction h using Relation.TransGen.head_induction_on with
  | single hab => exact .single (hkeep _ _ _ hab hb)
  | head hac hcb ih =>
    obtain ⟨d, hd⟩ := chain_first hcb
    exact .head (hkeep _ _ _ hac hd) ih

end Asm2Runtime.Transition
