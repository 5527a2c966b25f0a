import Mathlib.Data.List.Basic

/-!
# Access to an allocated block

A pointer to a block is null or stands for the block's contents. Reading and writing a
range of it is undefined (`none`) for a null pointer and past the end; a range of no
elements is never touched.
-/

namespace Asm2Runtime.BlockAccess

variable {α : Type*}

/-- The range of the block replaced. -/
def overwrite (block : List α) (offset : Nat) (values : List α) : List α :=
  block.take offset ++ values ++ block.drop (offset + values.length)

/-- Copy `count` elements out of the block. -/
def readBlock (block : Option (List α)) (offset count : Nat) : Option (List α) :=
  if count = 0 then some []
  else block.bind fun contents =>
    if offset + count ≤ contents.length then some ((contents.drop offset).take count) else none

/-- Copy the values into the block. -/
def writeBlock (block : Option (List α)) (offset : Nat) (values : List α) :
    Option (Option (List α)) :=
  if values = [] then some block
  else block.bind fun contents =>
    if offset + values.length ≤ contents.length then some (some (overwrite contents offset values))
    else none

/-- A range of some elements lies inside an allocated block. -/
def Inside (block : Option (List α)) (offset count : Nat) : Prop :=
  ∃ contents, block = some contents ∧ offset + count ≤ contents.length

theorem overwrite_length {block values : List α} {offset : Nat}
    (h : offset + values.length ≤ block.length) :
    (overwrite block offset values).length = block.length := by
  simp only [overwrite, List.length_append, List.length_take, List.length_drop]
  omega

theorem overwrite_inside {block values : List α} {offset : Nat}
    (h : offset + values.length ≤ block.length) :
    ((overwrite block offset values).drop offset).take values.length = values := by
  have htake : (block.take offset).length = offset := by
    rw [List.length_take]
    omega
  rw [overwrite, List.append_assoc, List.drop_append_of_le_length (by omega),
    List.drop_of_length_le (by omega), List.nil_append, List.take_left]

/-- The block up to the end of the new range. -/
theorem overwrite_take {block : List α} {offset : Nat} (h : offset ≤ block.length)
    (values : List α) :
    (overwrite block offset values).take (offset + values.length) =
      block.take offset ++ values := by
  have htake : (block.take offset ++ values).length = offset + values.length := by
    rw [List.length_append, List.length_take_of_le h]
  rw [overwrite, ← htake, List.take_left]

/-- A loop that fills a block in order, each round writing the next `width` elements from
`base` on. -/
theorem foldlM_range_fills {ε : Type} (f : List α → Nat → Except ε (List α))
    (value : Nat → List α) (size base width count : Nat)
    (hstep : ∀ i < count, ∀ block : List α, block.length = size →
      ∃ block', f block i = .ok block' ∧ block'.length = size ∧
        block'.take (base + width * (i + 1)) = block.take (base + width * i) ++ value i)
    {block : List α} (hsize : block.length = size) :
    ∃ block', (List.range count).foldlM f block = .ok block' ∧ block'.length = size ∧
      block'.take (base + width * count) = block.take base ++ (List.range count).flatMap value := by
  induction count with
  | zero => exact ⟨block, rfl, hsize, by simp⟩
  | succ count ih =>
    obtain ⟨mid, hmid, hmidSize, hmidTake⟩ := ih fun i hi => hstep i (Nat.lt_succ_of_lt hi)
    obtain ⟨last, hlast, hlastSize, hlastTake⟩ :=
      hstep count (Nat.lt_succ_self count) mid hmidSize
    refine ⟨last, ?_, hlastSize, ?_⟩
    · rw [List.range_succ, List.foldlM_append, hmid]
      exact (bind_pure (f mid count)).trans hlast
    · rw [hlastTake, hmidTake, List.range_succ, List.flatMap_append, List.append_assoc]
      simp

theorem overwrite_outside {block values : List α} {offset i : Nat}
    (h : offset + values.length ≤ block.length)
    (hi : i < offset ∨ offset + values.length ≤ i) :
    (overwrite block offset values)[i]? = block[i]? := by
  have htake : (block.take offset).length = offset := by
    rw [List.length_take]
    omega
  cases hi with
  | inl hbefore =>
    rw [overwrite, List.append_assoc, List.getElem?_append_left (by omega),
      List.getElem?_take_of_lt hbefore]
  | inr hafter =>
    rw [overwrite, List.getElem?_append_right (by rw [List.length_append]; omega),
      List.getElem?_drop, List.length_append, htake]
    congr 1
    omega

variable {block block' : Option (List α)} {offset count : Nat} {values : List α}

theorem Inside.isSome (h : Inside block offset count) : block.isSome := by
  obtain ⟨contents, rfl, -⟩ := h
  rfl

theorem writeBlock_isSome : (writeBlock block offset values).isSome ↔
    values = [] ∨ Inside block offset values.length := by
  unfold writeBlock Inside
  split
  · rename_i hnil
    simp [hnil]
  · rename_i hcons
    cases block <;> simp [hcons]

theorem writeBlock_eq_some (h : writeBlock block offset values = some block') :
    (values = [] ∧ block' = block) ∨
      ∃ contents, block = some contents ∧ offset + values.length ≤ contents.length ∧
        block' = some (overwrite contents offset values) := by
  unfold writeBlock at h
  split at h
  · rename_i hnil
    exact Or.inl ⟨hnil, (Option.some.inj h).symm⟩
  · obtain ⟨contents, hblock, h⟩ := Option.bind_eq_some_iff.mp h
    split at h
    · rename_i hinside
      exact Or.inr ⟨contents, hblock, hinside, (Option.some.inj h).symm⟩
    · cases h

/-- What was written is read back. -/
theorem readBlock_writeBlock (h : writeBlock block offset values = some block') :
    readBlock block' offset values.length = some values := by
  obtain ⟨rfl, rfl⟩ | ⟨contents, -, hinside, rfl⟩ := writeBlock_eq_some h
  · rfl
  · unfold readBlock
    split
    · rename_i hzero
      rw [List.length_eq_zero_iff.mp hzero]
    · rw [Option.bind_some, if_pos (by rwa [overwrite_length hinside]), overwrite_inside hinside]

/-- The rest of the block keeps its contents, and the block its size. -/
theorem writeBlock_outside (h : writeBlock block offset values = some block') :
    block'.isSome = block.isSome ∧ (block'.getD []).length = (block.getD []).length ∧
      ∀ i, i < offset ∨ offset + values.length ≤ i →
        (block'.getD [])[i]? = (block.getD [])[i]? := by
  obtain ⟨rfl, rfl⟩ | ⟨contents, rfl, hinside, rfl⟩ := writeBlock_eq_some h
  · exact ⟨rfl, rfl, fun _ _ => rfl⟩
  · exact ⟨rfl, overwrite_length hinside, fun i hi => overwrite_outside hinside hi⟩

end Asm2Runtime.BlockAccess
