import Mathlib.Data.Set.Card
import Mathlib.Logic.Function.Basic

/-!
# A chain of entries as a finite map

Entries are found by their key; an entry is replaced in place or put at the head. A chain
without repeated keys has one entry for each key of its map.
-/

namespace Asm2Runtime.KeyedChain

variable {ε κ ν : Type*} [DecidableEq κ] (key : ε → κ) (value : ε → ν)

/-- The map that the chain stands for: the first entry of a key counts. -/
def toMap (chain : List ε) (k : κ) : Option ν := (chain.find? fun e => key e = k).map value

/-- The index of the first entry of a key. -/
def indexOf (chain : List ε) (k : κ) : Option Nat := chain.findIdx? fun e => key e = k

/-- The entry replaces the one of its key or becomes the head. -/
def put (e : ε) (chain : List ε) : List ε :=
  match indexOf key chain (key e) with
  | some i => chain.set i e
  | none => e :: chain

/-- No two entries have the same key. -/
def Unique (chain : List ε) : Prop := (chain.map key).Nodup

variable {key value} {chain : List ε} {e : ε} {k : κ}

@[simp] theorem toMap_nil : toMap key value [] k = none := rfl

theorem indexOf_none (h : indexOf key chain k = none) : ∀ y ∈ chain, key y ≠ k := by
  intro y hy
  simpa using List.findIdx?_eq_none_iff.mp h y hy

theorem indexOf_some {i : Nat} (h : indexOf key chain k = some i) :
    ∃ before x after, chain = before ++ x :: after ∧ before.length = i ∧ key x = k ∧
      ∀ y ∈ before, key y ≠ k := by
  obtain ⟨hi, hx, hbefore⟩ := List.findIdx?_eq_some_iff_getElem.mp h
  refine ⟨chain.take i, chain[i], chain.drop (i + 1), ?_, by simp; omega, by simpa using hx, ?_⟩
  · rw [← List.drop_eq_getElem_cons hi, List.take_append_drop]
  · intro y hy
    obtain ⟨j, hj, rfl⟩ := List.mem_iff_getElem.mp hy
    rw [List.length_take] at hj
    rw [List.getElem_take]
    simpa using hbefore j (by omega)

/-- What `put` does: replace the first entry of the key, or add a new one. -/
theorem put_cases (key : ε → κ) (e : ε) (chain : List ε) :
    (∃ before x after, chain = before ++ x :: after ∧ put key e chain = before ++ e :: after ∧
      key x = key e ∧ ∀ y ∈ before, key y ≠ key e) ∨
    (put key e chain = e :: chain ∧ ∀ y ∈ chain, key y ≠ key e) := by
  unfold put
  cases hindex : indexOf key chain (key e) with
  | none => exact Or.inr ⟨rfl, indexOf_none hindex⟩
  | some i =>
    obtain ⟨before, x, after, rfl, rfl, hkey, hbefore⟩ := indexOf_some hindex
    exact Or.inl ⟨before, x, after, rfl, by simp, hkey, hbefore⟩

/-- A change of the first entry of the key in place is a `put`. -/
theorem put_eq_modify {i : Nat} {f : ε → ε} (h : indexOf key chain (key e) = some i)
    (hf : ∀ x, key x = key e → f x = e) : put key e chain = chain.modify i f := by
  unfold put
  rw [h]
  obtain ⟨before, x, after, rfl, rfl, hkey, -⟩ := indexOf_some h
  simp [List.modify_eq_take_drop, hf x hkey]

theorem find?_of_ne {chain : List ε} (h : ∀ y ∈ chain, key y ≠ k) :
    chain.find? (fun e => key e = k) = none := by
  simpa [List.find?_eq_none] using h

theorem toMap_eq_index (chain : List ε) (k : κ) :
    toMap key value chain k = (indexOf key chain k).bind fun i => chain[i]?.map value := by
  cases hindex : indexOf key chain k with
  | none => rw [toMap, find?_of_ne (indexOf_none hindex)]; rfl
  | some i =>
    obtain ⟨before, x, after, rfl, rfl, hkey, hbefore⟩ := indexOf_some hindex
    rw [toMap, List.find?_append, find?_of_ne hbefore]
    simp [hkey]

theorem toMap_put (e : ε) (chain : List ε) :
    toMap key value (put key e chain) =
      Function.update (toMap key value chain) (key e) (some (value e)) := by
  funext k
  by_cases hk : k = key e
  · subst hk
    rw [Function.update_self]
    obtain ⟨before, x, after, -, hput, -, hbefore⟩ | ⟨hput, -⟩ := put_cases key e chain
    · rw [hput, toMap, List.find?_append, find?_of_ne hbefore]
      simp
    · simp [hput, toMap]
  · rw [Function.update_of_ne hk]
    obtain ⟨before, x, after, rfl, hput, hkey, -⟩ | ⟨hput, -⟩ := put_cases key e chain
    · have hx : key x ≠ k := fun h => hk (h.symm.trans hkey)
      rw [hput, toMap, toMap, List.find?_append, List.find?_append]
      simp [hx, Ne.symm hk]
    · simp [hput, toMap, Ne.symm hk]

theorem mem_keys_iff : k ∈ chain.map key ↔ (toMap key value chain k).isSome := by
  simp [toMap, List.find?_isSome]

theorem Unique.put (h : Unique key chain) (e : ε) : Unique key (KeyedChain.put key e chain) := by
  obtain ⟨before, x, after, rfl, hput, hkey, -⟩ | ⟨hput, hnew⟩ := put_cases key e chain
  · have hkeys : (before ++ e :: after).map key = (before ++ x :: after).map key := by
      simp [hkey]
    rw [Unique, hput, hkeys]
    exact h
  · rw [Unique, hput, List.map_cons, List.nodup_cons]
    refine ⟨?_, h⟩
    simpa using hnew

theorem put_length (e : ε) (chain : List ε) :
    (put key e chain).length =
      if (toMap key value chain (key e)).isSome then chain.length else chain.length + 1 := by
  obtain ⟨before, x, after, rfl, hput, hkey, -⟩ | ⟨hput, hnew⟩ := put_cases key e chain
  · have hsome : (toMap key value (before ++ x :: after) (key e)).isSome := by
      rw [← mem_keys_iff]
      simp [hkey]
    rw [if_pos hsome, hput]
    simp
  · have hnone : ¬ (toMap key value chain (key e)).isSome := by
      rw [← mem_keys_iff]
      simpa using hnew
    rw [if_neg hnone, hput, List.length_cons]

theorem mem_put {y : ε} (h : y ∈ put key e chain) : y = e ∨ y ∈ chain := by
  obtain ⟨before, x, after, rfl, hput, -⟩ | ⟨hput, -⟩ := put_cases key e chain
  · rw [hput] at h
    simp only [List.mem_append, List.mem_cons] at h ⊢
    tauto
  · rw [hput] at h
    simpa using h

/-- A `put` exchanges what the entry of its key counts for what the new entry counts. -/
theorem countP_put (p : ε → Bool) (e : ε) (chain : List ε) :
    (put key e chain).countP p + ((toMap key p chain (key e)).getD false).toNat =
      chain.countP p + (p e).toNat := by
  have hcons : ∀ (x : ε) (rest : List ε), (x :: rest).countP p = rest.countP p + (p x).toNat := by
    intro x rest
    rw [List.countP_cons]
    cases p x <;> rfl
  obtain ⟨before, x, after, rfl, hput, hkey, hbefore⟩ | ⟨hput, hnew⟩ := put_cases key e chain
  · have hold : toMap key p (before ++ x :: after) (key e) = some (p x) := by
      rw [toMap, List.find?_append, find?_of_ne hbefore]
      simp [hkey]
    rw [hput, hold, List.countP_append, List.countP_append, hcons, hcons, Option.getD_some]
    omega
  · have hnone : toMap key p chain (key e) = none := by rw [toMap, find?_of_ne hnew]; rfl
    rw [hput, hnone, hcons]
    rfl

/-- A change of the entries that keeps the keys. -/
theorem toMap_map {f : ε → ε} (hf : ∀ x, key (f x) = key x) (chain : List ε) (k : κ) :
    toMap key value (chain.map f) k = toMap key (fun x => value (f x)) chain k := by
  unfold toMap
  rw [List.find?_map, Option.map_map]
  simp only [Function.comp_def, hf]

omit [DecidableEq κ] in
theorem Unique.map {f : ε → ε} (h : Unique key chain) (hf : ∀ x, key (f x) = key x) :
    Unique key (chain.map f) := by
  have hkeys : (chain.map f).map key = chain.map key := by
    rw [List.map_map]
    exact List.map_congr_left fun x _ => hf x
  rw [Unique, hkeys]
  exact h

/-- The search for an entry of a kind finds the entry of its key or nothing. -/
theorem Unique.find?_and (h : Unique key chain) (p : ε → Bool) (k : κ) :
    chain.find? (fun e => p e && decide (key e = k)) =
      (chain.find? fun e => key e = k).filter p := by
  induction chain with
  | nil => rfl
  | cons e chain ih =>
    have hrest : Unique key chain := (List.nodup_cons.mp h).2
    by_cases hk : key e = k
    · subst hk
      have hlater : ∀ y ∈ chain, key y ≠ key e := by
        intro y hy heq
        exact (List.nodup_cons.mp h).1 (heq ▸ List.mem_map_of_mem hy)
      cases hp : p e with
      | true => simp [hp, Option.filter]
      | false => simp [hp, ih hrest, find?_of_ne hlater, Option.filter]
    · simp [hk, ih hrest]

/-- One entry for each key of the map. -/
theorem Unique.ncard (h : Unique key chain) (value : ε → ν) :
    {k | (toMap key value chain k).isSome}.Finite ∧
      {k | (toMap key value chain k).isSome}.ncard = chain.length := by
  have hset : {k | (toMap key value chain k).isSome} = ((chain.map key).toFinset : Set κ) := by
    ext k
    rw [Finset.mem_coe, List.mem_toFinset, mem_keys_iff]
    rfl
  rw [hset]
  refine ⟨Finset.finite_toSet _, ?_⟩
  rw [Set.ncard_coe_finset, List.toFinset_card_of_nodup h, List.length_map]

end Asm2Runtime.KeyedChain
