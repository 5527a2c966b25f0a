import Mathlib.Data.List.Basic

/-!
# Requests on separate keys

A service keeps values under keys, and a request reads and replaces the value of
at most one key. When the requests of one kind and all others work on separate
keys, the answers to that kind are those of a run from which the others have been
purged.
-/

namespace Asm2Runtime.KeyedService

/-- What a request does with the value under its key. -/
structure Service (ρ κ ν β : Type*) where
  key : ρ → Option κ
  answer : ρ → Option ν → β
  update : ρ → κ → Option ν → Option ν

namespace Service

variable {ρ κ ν β : Type*} [DecidableEq κ]

def store (S : Service ρ κ ν β) (m : κ → Option ν) (r : ρ) : κ → Option ν :=
  fun k => if S.key r = some k then S.update r k (m k) else m k

/-- The answers to the requests of one kind, in a run of all of them. -/
def answers (S : Service ρ κ ν β) (kind : ρ → Bool) : (κ → Option ν) → List ρ → List β
  | _, [] => []
  | m, r :: rs =>
    if kind r then S.answer r ((S.key r).bind m) :: S.answers kind (S.store m r) rs
    else S.answers kind (S.store m r) rs

/-- Requests of the kind work on keys in the domain, others do not. -/
structure Separated (S : Service ρ κ ν β) (kind : ρ → Bool) (domain : κ → Prop) : Prop where
  inside : ∀ r k, kind r = true → S.key r = some k → domain k
  outside : ∀ r k, kind r = false → S.key r = some k → ¬ domain k

variable {S : Service ρ κ ν β} {kind : ρ → Bool} {domain : κ → Prop} {m m' : κ → Option ν}

theorem store_of_ne {r : ρ} {k : κ} (h : S.key r ≠ some k) : S.store m r k = m k := if_neg h

/-- Values that are equal stay equal under a request. -/
theorem store_congr (r : ρ) {k : κ} (h : m k = m' k) : S.store m r k = S.store m' r k := by
  simp only [store, h]

/-- Purging the other requests changes no answer. -/
theorem Separated.answers_filter (hsep : S.Separated kind domain) {rs : List ρ}
    (h : ∀ k, domain k → m k = m' k) : S.answers kind m rs = S.answers kind m' (rs.filter kind) := by
  induction rs generalizing m m' with
  | nil => rfl
  | cons r rs ih =>
    cases hkind : kind r with
    | true =>
      have hread : (S.key r).bind m = (S.key r).bind m' := by
        cases hk : S.key r with
        | none => rfl
        | some k => exact h k (hsep.inside r k hkind hk)
      have hnext : S.answers kind (S.store m r) rs =
          S.answers kind (S.store m' r) (rs.filter kind) :=
        ih fun k hk => store_congr r (h k hk)
      rw [List.filter_cons_of_pos hkind]
      simp only [answers, hkind, if_true, hread, hnext]
    | false =>
      rw [List.filter_cons_of_neg (by simp [hkind])]
      simp only [answers, hkind, Bool.false_eq_true, if_false]
      apply ih
      intro k hk
      rw [store_of_ne fun hkey => hsep.outside r k hkind hkey hk, h k hk]

/-- Two runs with the same requests of the kind give them the same answers. -/
theorem Separated.answers_eq (hsep : S.Separated kind domain) {rs rs' : List ρ}
    (h : rs.filter kind = rs'.filter kind) : S.answers kind m rs = S.answers kind m rs' := by
  have hleft : S.answers kind m rs = S.answers kind m (rs.filter kind) :=
    hsep.answers_filter fun _ _ => rfl
  have hright : S.answers kind m rs' = S.answers kind m (rs'.filter kind) :=
    hsep.answers_filter fun _ _ => rfl
  rw [hleft, hright, h]

end Service

end Asm2Runtime.KeyedService
