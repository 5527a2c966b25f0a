import Mathlib.Data.List.Basic

/-!
# Streams taken in blocks

An input is cut into blocks of `n` symbols and a state is folded over the blocks. A reader
that gets the input in pieces keeps the state behind the whole blocks and the symbols that
do not yet make one.
-/

namespace Asm2Runtime.BlockStream

variable {α σ : Type*} {n : Nat}

/-- The whole blocks of an input. -/
def blocks (n : Nat) (xs : List α) : List (List α) :=
  if 0 < n ∧ n ≤ xs.length then xs.take n :: blocks n (xs.drop n) else []
termination_by xs.length
decreasing_by
  rw [List.length_drop]
  omega

theorem blocks_short {xs : List α} (h : xs.length < n) : blocks n xs = [] := by
  rw [blocks, if_neg (by omega)]

theorem blocks_cons {block : List α} (hn : 0 < n) (hblock : block.length = n) (xs : List α) :
    blocks n (block ++ xs) = block :: blocks n xs := by
  subst hblock
  rw [blocks, if_pos ⟨hn, by rw [List.length_append]; omega⟩, List.take_left, List.drop_left]

/-- A list of blocks is what its joined symbols are cut into. -/
theorem blocks_flatten (hn : 0 < n) {bs : List (List α)} (h : ∀ b ∈ bs, b.length = n) :
    blocks n bs.flatten = bs := by
  induction bs with
  | nil => exact blocks_short hn
  | cons block bs ih =>
    rw [List.flatten_cons, blocks_cons hn (h block List.mem_cons_self),
      ih fun b hb => h b (List.mem_cons_of_mem block hb)]

/-- Cutting commutes with a change of symbols that gives `k` for each one. -/
theorem blocks_flatMap {β : Type*} {f : α → List β} {k : Nat} (hk : ∀ a, (f a).length = k)
    (hn : 0 < n) (hpos : 0 < k) {bs : List (List α)} (h : ∀ b ∈ bs, b.length = n) :
    blocks (n * k) (bs.flatten.flatMap f) = bs.map fun b => b.flatMap f := by
  have hflat : bs.flatten.flatMap f = (bs.map fun b => b.flatMap f).flatten := by
    induction bs with
    | nil => rfl
    | cons block bs ih =>
      rw [List.flatten_cons, List.flatMap_append, List.map_cons, List.flatten_cons,
        ih fun b hb => h b (List.mem_cons_of_mem block hb)]
  rw [hflat]
  refine blocks_flatten (Nat.mul_pos hn hpos) ?_
  intro b hb
  obtain ⟨block, hblock, rfl⟩ := List.mem_map.mp hb
  rw [List.length_flatMap, List.map_congr_left (g := fun _ => k) (fun a _ => hk a),
    List.map_const', List.sum_replicate_nat, h block hblock]

/-- The blocks of an input of `m` whole ones, by their place. -/
theorem blocks_eq_range (hn : 0 < n) {m : Nat} {xs : List α} (h : xs.length = n * m) :
    blocks n xs = (List.range m).map fun i => (xs.drop (n * i)).take n := by
  induction m generalizing xs with
  | zero =>
    rw [blocks_short (by omega)]
    rfl
  | succ m ih =>
    have hrest : (xs.drop n).length = n * m := by
      rw [List.length_drop, h, Nat.mul_succ]
      omega
    have hlen : n ≤ xs.length := by
      rw [h, Nat.mul_succ]
      omega
    rw [blocks, if_pos ⟨hn, hlen⟩, ih hrest, List.range_succ_eq_map, List.map_cons, List.map_map,
      Nat.mul_zero, List.drop_zero]
    refine congrArg _ (List.map_congr_left fun i _ => ?_)
    rw [Function.comp_apply, List.drop_drop, Nat.mul_succ, Nat.add_comm]

theorem flatten_blocks (hn : 0 < n) {m : Nat} {xs : List α} (h : xs.length = n * m) :
    (blocks n xs).flatten = xs ∧ ∀ b ∈ blocks n xs, b.length = n := by
  induction m generalizing xs with
  | zero =>
    obtain rfl : xs = [] := List.length_eq_zero_iff.mp (by omega)
    rw [blocks_short hn]
    exact ⟨rfl, fun _ hb => absurd hb List.not_mem_nil⟩
  | succ m ih =>
    have hrest : (xs.drop n).length = n * m := by
      rw [List.length_drop, h, Nat.mul_succ]
      omega
    have hlen : n ≤ xs.length := by
      rw [h, Nat.mul_succ]
      omega
    obtain ⟨hflat, hblocks⟩ := ih hrest
    rw [blocks, if_pos ⟨hn, hlen⟩, List.flatten_cons, hflat, List.take_append_drop]
    refine ⟨rfl, fun b hb => ?_⟩
    cases List.mem_cons.mp hb with
    | inl hfirst => rw [hfirst, List.length_take_of_le hlen]
    | inr hrest => exact hblocks b hrest

/-! ## A reader that gets the input in pieces -/

section Absorbed

variable (n) (step : σ → List α → σ) (start : σ)

/-- `state` is behind the whole blocks of `input`, and `pending` are the symbols after them. -/
def Absorbed (input : List α) (state : σ) (pending : List α) : Prop :=
  ∃ bs : List (List α), (∀ b ∈ bs, b.length = n) ∧ input = bs.flatten ++ pending ∧
    state = bs.foldl step start

variable {n step start} {input pending : List α} {state : σ}

theorem Absorbed.nil : Absorbed n step start [] start [] :=
  ⟨[], fun _ h => absurd h List.not_mem_nil, rfl, rfl⟩

theorem Absorbed.push (h : Absorbed n step start input state pending) (xs : List α) :
    Absorbed n step start (input ++ xs) state (pending ++ xs) := by
  obtain ⟨bs, hbs, rfl, rfl⟩ := h
  exact ⟨bs, hbs, List.append_assoc _ _ _, rfl⟩

theorem Absorbed.complete (h : Absorbed n step start input state pending)
    (hfull : pending.length = n) : Absorbed n step start input (step state pending) [] := by
  obtain ⟨bs, hbs, rfl, rfl⟩ := h
  refine ⟨bs ++ [pending], ?_, by simp, by rw [List.foldl_append]; rfl⟩
  intro b hb
  cases List.mem_append.mp hb with
  | inl hold => exact hbs b hold
  | inr hnew => rw [List.mem_singleton.mp hnew, hfull]

theorem Absorbed.length_mod (h : Absorbed n step start input state pending)
    (hshort : pending.length < n) : pending.length = input.length % n := by
  obtain ⟨bs, hbs, rfl, rfl⟩ := h
  have hflat : bs.flatten.length = n * bs.length := by
    rw [List.length_flatten, List.map_congr_left (g := fun _ => n) hbs, List.map_const',
      List.sum_replicate_nat, Nat.mul_comm]
  rw [List.length_append, hflat, Nat.mul_add_mod, Nat.mod_eq_of_lt hshort]

end Absorbed

end Asm2Runtime.BlockStream
