import Mathlib.Data.List.Basic

/-!
# Streaming decoders

A decoder is fed in chunks. A chunk is either consumed whole, with the symbols it
gives, or it fails. Cutting an input into chunks changes neither what comes out nor
whether it fails, so an input that fails has one first symbol at which it does.
-/

namespace Asm2Runtime

structure StreamDecoder (α β : Type*) where
  State : Type
  init : State
  feed : State → List α → Option (State × List β)
  /-- The end of the stream has been read. -/
  finished : State → Bool
  feed_nil : ∀ s, feed s [] = some (s, [])
  feed_append : ∀ s xs ys, feed s (xs ++ ys) =
    (feed s xs).bind fun first =>
      (feed first.1 ys).map fun second => (second.1, first.2 ++ second.2)

namespace StreamDecoder

variable {α β : Type*} (d : StreamDecoder α β)

/-- The result of a complete stream. -/
def decode (xs : List α) : Option (List β) :=
  (d.feed d.init xs).bind fun last => if d.finished last.1 then some last.2 else none

/-- The input is consumed without a failure. -/
def Reads (xs : List α) : Prop := (d.feed d.init xs).isSome

/-- The state that is left behind an input. -/
def Reaches (xs : List α) (s : d.State) : Prop := ∃ out, d.feed d.init xs = some (s, out)

/-- The symbol at `e` is the first one that makes the decoder fail. -/
def FailsAt (xs : List α) (e : Nat) : Prop :=
  e < xs.length ∧ d.Reads (xs.take e) ∧ ¬ d.Reads (xs.take (e + 1))

variable {d}

theorem feed_append_of_some {s t : d.State} {xs : List α} {out : List β}
    (h : d.feed s xs = some (t, out)) (ys : List α) :
    d.feed s (xs ++ ys) = (d.feed t ys).map fun second => (second.1, out ++ second.2) := by
  rw [d.feed_append, h]
  rfl

theorem feed_append_of_none {s : d.State} {xs : List α} (h : d.feed s xs = none) (ys : List α) :
    d.feed s (xs ++ ys) = none := by
  rw [d.feed_append, h]
  rfl

theorem reaches_nil : d.Reaches [] d.init := ⟨[], d.feed_nil d.init⟩

theorem Reaches.reads {xs : List α} {s : d.State} (h : d.Reaches xs s) : d.Reads xs := by
  obtain ⟨out, h⟩ := h
  rw [Reads, h]
  rfl

theorem Reads.reaches {xs : List α} (h : d.Reads xs) : ∃ s, d.Reaches xs s := by
  obtain ⟨⟨s, out⟩, h⟩ := Option.isSome_iff_exists.mp h
  exact ⟨s, out, h⟩

theorem Reaches.feed {xs ys : List α} {s t : d.State} {out : List β} (h : d.Reaches xs s)
    (hys : d.feed s ys = some (t, out)) : d.Reaches (xs ++ ys) t := by
  obtain ⟨before, h⟩ := h
  exact ⟨before ++ out, by rw [feed_append_of_some h, hys]; rfl⟩

/-- From the state behind `xs`, a chunk is read exactly when `xs` with the chunk is. -/
theorem Reaches.feed_isSome {xs : List α} {s : d.State} (h : d.Reaches xs s) (ys : List α) :
    (d.feed s ys).isSome = true ↔ d.Reads (xs ++ ys) := by
  obtain ⟨before, h⟩ := h
  rw [Reads, feed_append_of_some h, Option.isSome_map]

theorem Reaches.feed_eq_none {xs : List α} {s : d.State} (h : d.Reaches xs s) (ys : List α) :
    d.feed s ys = none ↔ ¬ d.Reads (xs ++ ys) := by
  rw [← h.feed_isSome, Option.not_isSome_iff_eq_none]

theorem Reads.of_append {xs ys : List α} (h : d.Reads (xs ++ ys)) : d.Reads xs := by
  cases hfeed : d.feed d.init xs with
  | none =>
    rw [Reads, feed_append_of_none hfeed] at h
    exact absurd h (by simp)
  | some result =>
    rw [Reads, hfeed]
    rfl

theorem Reads.of_prefix {xs ys : List α} (h : d.Reads ys) (hxs : xs <+: ys) : d.Reads xs := by
  obtain ⟨rest, rfl⟩ := hxs
  exact h.of_append

theorem Reads.of_decode {xs : List α} {data : List β} (h : d.decode xs = some data) :
    d.Reads xs := by
  obtain ⟨last, hlast, _⟩ := Option.bind_eq_some_iff.mp h
  rw [Reads, hlast]
  rfl

/-! ## The first failure -/

/-- The prefixes that are read are those that end before the failing symbol. -/
theorem FailsAt.reads_take {xs : List α} {e : Nat} (h : d.FailsAt xs e) (n : Nat) :
    d.Reads (xs.take n) ↔ n ≤ e := by
  obtain ⟨_, hbefore, hat⟩ := h
  constructor
  · intro hread
    by_contra hn
    exact hat (hread.of_prefix (List.take_prefix_take_left (by omega)))
  · intro hn
    exact hbefore.of_prefix (List.take_prefix_take_left hn)

/-! ## Decoders given symbol by symbol -/

section Steps

variable {σ : Type} (step : σ → α → Option (σ × List β))

def feedSteps : σ → List α → Option (σ × List β)
  | s, [] => some (s, [])
  | s, x :: xs =>
    (step s x).bind fun first =>
      (feedSteps first.1 xs).map fun second => (second.1, first.2 ++ second.2)

theorem feedSteps_append (s : σ) (xs ys : List α) :
    feedSteps step s (xs ++ ys) =
      (feedSteps step s xs).bind fun first =>
        (feedSteps step first.1 ys).map fun second => (second.1, first.2 ++ second.2) := by
  induction xs generalizing s with
  | nil =>
    rw [List.nil_append]
    exact (Option.map_id' (x := feedSteps step s ys)).symm
  | cons x xs ih =>
    rw [List.cons_append, feedSteps, feedSteps]
    cases step s x with
    | none => rfl
    | some first =>
      rw [Option.bind_some, Option.bind_some, ih]
      cases feedSteps step first.1 xs with
      | none => rfl
      | some second => simp [Function.comp_def]

def ofStep (init : σ) (finished : σ → Bool) : StreamDecoder α β where
  State := σ
  init := init
  feed := feedSteps step
  finished := finished
  feed_nil _ := rfl
  feed_append := feedSteps_append step

end Steps

end StreamDecoder

end Asm2Runtime
