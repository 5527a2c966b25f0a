import Mathlib.Data.List.Basic

/-!
# Properties of a growing log

A log only grows at its end. `Throughout` is a property of every entry with what
precedes it, `Since` one of what follows every entry of a kind. Each has a rule for
one more entry.
-/

namespace Asm2Runtime.EventLog

variable {α : Type*}

theorem snoc_split {log before after : List α} {x o : α}
    (h : log ++ [x] = before ++ o :: after) :
    (after = [] ∧ before = log ∧ o = x) ∨
      ∃ rest, after = rest ++ [x] ∧ log = before ++ o :: rest := by
  cases List.eq_nil_or_concat after with
  | inl hnil =>
    subst hnil
    obtain ⟨hlog, ho⟩ := List.append_inj' h rfl
    exact Or.inl ⟨rfl, hlog.symm, (List.cons.inj ho).1.symm⟩
  | inr hconcat =>
    obtain ⟨rest, y, rfl⟩ := hconcat
    have hassoc : log ++ [x] = (before ++ o :: rest) ++ [y] := by simpa using h
    obtain ⟨hlog, hx⟩ := List.append_inj' hassoc rfl
    exact Or.inr ⟨rest, by rw [(List.cons.inj hx).1, List.concat_eq_append], hlog⟩

/-- Every entry is good, given the entries before it. -/
def Throughout (good : List α → α → Prop) (log : List α) : Prop :=
  ∀ before o after, log = before ++ o :: after → good before o

theorem Throughout.nil (good : List α → α → Prop) : Throughout good [] := by
  intro before o after h
  simp at h

theorem Throughout.snoc {good : List α → α → Prop} {log : List α} {x : α}
    (h : Throughout good log) (hx : good log x) : Throughout good (log ++ [x]) := by
  intro before o after hsplit
  cases snoc_split hsplit with
  | inl hlast =>
    obtain ⟨_, rfl, rfl⟩ := hlast
    exact hx
  | inr hinner =>
    obtain ⟨rest, _, hlog⟩ := hinner
    exact h before o rest hlog

theorem Throughout.of_append {good : List α → α → Prop} {log more : List α}
    (h : Throughout good (log ++ more)) : Throughout good log := by
  intro before o after hsplit
  subst hsplit
  exact h before o (after ++ more) (by simp)

/-- What follows an entry of the kind `start` has the property. -/
def Since (start : α → Prop) (P : List α → Prop) (log : List α) : Prop :=
  ∀ before o after, log = before ++ o :: after → start o → P after

theorem Since.nil (start : α → Prop) (P : List α → Prop) : Since start P [] := by
  intro before o after h
  simp at h

theorem Since.snoc {start : α → Prop} {P P' : List α → Prop} {log : List α} {x : α}
    (h : Since start P log) (hmore : ∀ after, P after → P' (after ++ [x]))
    (hstart : start x → P' []) : Since start P' (log ++ [x]) := by
  intro before o after hsplit ho
  cases snoc_split hsplit with
  | inl hlast =>
    obtain ⟨rfl, _, rfl⟩ := hlast
    exact hstart ho
  | inr hinner =>
    obtain ⟨rest, rfl, hlog⟩ := hinner
    exact hmore rest (h before o rest hlog ho)

theorem Since.mono {start : α → Prop} {P P' : List α → Prop} {log : List α}
    (h : Since start P log) (hP : ∀ after, P after → P' after) : Since start P' log :=
  fun before o after hsplit ho => hP after (h before o after hsplit ho)

/-- Nothing of the kind has happened. -/
theorem Since.of_none {start : α → Prop} {P : List α → Prop} {log : List α}
    (h : ∀ o ∈ log, ¬ start o) : Since start P log := by
  intro before o after hsplit ho
  exact absurd ho (h o (by rw [hsplit]; simp))

end Asm2Runtime.EventLog
