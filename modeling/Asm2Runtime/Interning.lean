import Asm2Runtime.EventLog
import Mathlib.Data.List.Induction

/-!
# Interning

A log of requests with what was returned for each. `Interned` says that the returned
values name the keys of the requests. An interning function that fails to recognise some
requests still returns such values, as long as no such request comes second.
-/

namespace Asm2Runtime.Interning

open EventLog

variable {ρ κ ν : Type*} {key : ρ → κ} {misses : ρ → Prop}

/-- Two requests got the same value exactly when they have the same key. -/
def Interned (key : ρ → κ) (log : List (ρ × ν)) : Prop :=
  ∀ o ∈ log, ∀ o' ∈ log, o.2 = o'.2 ↔ key o.1 = key o'.1

/-- What an interning function returns, given the requests before; a request that
`misses` gets a new value. -/
structure Returned (key : ρ → κ) (misses : ρ → Prop) (before : List (ρ × ν)) (e : ρ × ν) :
    Prop where
  shared : ∀ o ∈ before, o.2 = e.2 → key o.1 = key e.1
  missed : misses e.1 → ∀ o ∈ before, o.2 ≠ e.2
  found : ¬ misses e.1 → (∃ o ∈ before, key o.1 = key e.1) →
    ∃ o ∈ before, key o.1 = key e.1 ∧ o.2 = e.2

/-- The key of the request has not been asked for, unless the request is recognised. -/
def First (key : ρ → κ) (misses : ρ → Prop) (before : List (ρ × ν)) (e : ρ × ν) : Prop :=
  misses e.1 → ∀ o ∈ before, key o.1 ≠ key e.1

theorem Interned.first {log : List (ρ × ν)} (h : Throughout (Returned key misses) log)
    (hlog : Interned key log) : Throughout (First key misses) log := by
  intro before e after hsplit hmisses o ho hkey
  have hold : o ∈ log := by
    rw [hsplit]
    exact List.mem_append_left _ ho
  have hnew : e ∈ log := by
    rw [hsplit]
    exact List.mem_append_right _ List.mem_cons_self
  exact (h before e after hsplit).missed hmisses o ho ((hlog o hold e hnew).mpr hkey)

/-- One more request, recognised or with a new key. -/
theorem Interned.snoc {log : List (ρ × ν)} {e : ρ × ν} (hlog : Interned key log)
    (he : Returned key misses log e) (hfirst : First key misses log e) :
    Interned key (log ++ [e]) := by
  have hnew : ∀ o ∈ log, o.2 = e.2 ↔ key o.1 = key e.1 := by
    intro o ho
    refine ⟨he.shared o ho, fun hkey => ?_⟩
    have hrecognised : ¬ misses e.1 := fun hmisses => hfirst hmisses o ho hkey
    obtain ⟨o', ho', hkey', hvalue⟩ := he.found hrecognised ⟨o, ho, hkey⟩
    rw [← hvalue]
    exact (hlog o ho o' ho').mpr (hkey.trans hkey'.symm)
  intro o ho o' ho'
  rw [List.mem_append, List.mem_singleton] at ho ho'
  obtain ho | rfl := ho
  · obtain ho' | rfl := ho'
    · exact hlog o ho o' ho'
    · exact hnew o ho
  · obtain ho' | rfl := ho'
    · rw [eq_comm, hnew o' ho', eq_comm]
    · exact iff_of_true rfl rfl

theorem Interned.of_first {log : List (ρ × ν)} (h : Throughout (Returned key misses) log)
    (hfirst : Throughout (First key misses) log) : Interned key log := by
  induction log using List.reverseRecOn with
  | nil =>
    intro o ho
    cases ho
  | append_singleton log e ih =>
    have hlog := ih h.of_append hfirst.of_append
    exact hlog.snoc (h log e [] rfl) (hfirst log e [] rfl)

theorem interned_iff {log : List (ρ × ν)} (h : Throughout (Returned key misses) log) :
    Interned key log ↔ Throughout (First key misses) log :=
  ⟨Interned.first h, Interned.of_first h⟩

end Asm2Runtime.Interning
