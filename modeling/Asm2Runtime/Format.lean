import Mathlib.Data.List.Basic

/-!
# Canonical formats

A format prints values of one type as lists of units and parses them back. The
two laws say that parsing undoes printing, whatever follows, and that every
accepted input is what printing the parsed value gives: no second spelling of a
value gets through. The combinators below keep both laws, so a composed format
is canonical by construction.
-/

namespace Asm2Runtime.CanonicalFormat

universe u v w

structure Format (β : Type u) (α : Type v) where
  print : α → List β
  parse : List β → Option (α × List β)
  Valid : α → Prop
  parse_print : ∀ a rest, Valid a → parse (print a ++ rest) = some (a, rest)
  print_parse : ∀ s a rest, parse s = some (a, rest) → Valid a ∧ print a ++ rest = s

namespace Format

variable {β : Type u} {α : Type v} {γ : Type w}

theorem parse_eq_some_iff (f : Format β α) (s : List β) (a : α) (rest : List β) :
    f.parse s = some (a, rest) ↔ f.Valid a ∧ f.print a ++ rest = s := by
  constructor
  · intro h
    exact f.print_parse s a rest h
  · intro h
    rw [← h.2]
    exact f.parse_print a rest h.1

/-- A format accepts a whole input when nothing is left over. -/
def decode (f : Format β α) (s : List β) : Option α :=
  match f.parse s with
  | some (a, []) => some a
  | _ => none

theorem decode_eq_some_iff (f : Format β α) (s : List β) (a : α) :
    f.decode s = some a ↔ f.Valid a ∧ f.print a = s := by
  have h := f.parse_eq_some_iff s a []
  rw [List.append_nil] at h
  rw [← h]
  cases hp : f.parse s with
  | none => simp [decode, hp]
  | some r =>
    obtain ⟨b, rest⟩ := r
    cases rest with
    | nil => simp [decode, hp]
    | cons x xs => simp [decode, hp]

theorem decode_print (f : Format β α) (a : α) (h : f.Valid a) :
    f.decode (f.print a) = some a :=
  (f.decode_eq_some_iff (f.print a) a).2 ⟨h, rfl⟩

/-- A fixed number of units. -/
def take (n : Nat) : Format β (List β) where
  print := id
  parse s := if n ≤ s.length then some (s.take n, s.drop n) else none
  Valid a := a.length = n
  parse_print a rest h := by
    subst h
    simp
  print_parse s a rest h := by
    simp only [Option.ite_none_right_eq_some, Option.some.injEq, Prod.mk.injEq] at h
    obtain ⟨hn, rfl, rfl⟩ := h
    simp [hn]

/-- Only the values of `f` that pass `p`. -/
def refine (f : Format β α) (p : α → Prop) [DecidablePred p] : Format β α where
  print := f.print
  parse s := (f.parse s).bind fun r => if p r.1 then some r else none
  Valid a := f.Valid a ∧ p a
  parse_print a rest h := by simp [f.parse_print a rest h.1, h.2]
  print_parse s a rest h := by
    simp only [Option.bind_eq_some_iff, Option.ite_none_right_eq_some, Option.some.injEq] at h
    obtain ⟨r, hr, hp, rfl⟩ := h
    have hf := f.print_parse s a rest hr
    exact ⟨⟨hf.1, hp⟩, hf.2⟩

/-- The values of `f` that `into` accepts, under a new type. -/
def narrow (f : Format β α) (into : α → Option γ) (back : γ → α)
    (h : ∀ a c, into a = some c ↔ back c = a) : Format β γ where
  print c := f.print (back c)
  parse s := (f.parse s).bind fun r => (into r.1).map fun c => (c, r.2)
  Valid c := f.Valid (back c)
  parse_print c rest hc := by
    have hb : into (back c) = some c := (h (back c) c).2 rfl
    simp [f.parse_print (back c) rest hc, hb]
  print_parse s c rest hs := by
    simp only [Option.bind_eq_some_iff, Option.map_eq_some_iff, Prod.mk.injEq] at hs
    obtain ⟨r, hr, c', hc, rfl, rfl⟩ := hs
    have hb : back c' = r.1 := (h r.1 c').1 hc
    have hf := f.print_parse s r.1 r.2 hr
    rw [hb]
    exact hf

/-- One value after another. -/
def pair (f : Format β α) (g : Format β γ) : Format β (α × γ) where
  print a := f.print a.1 ++ g.print a.2
  parse s := (f.parse s).bind fun r => (g.parse r.2).map fun q => ((r.1, q.1), q.2)
  Valid a := f.Valid a.1 ∧ g.Valid a.2
  parse_print a rest h := by
    rw [List.append_assoc]
    simp [f.parse_print a.1 _ h.1, g.parse_print a.2 rest h.2]
  print_parse s a rest h := by
    simp only [Option.bind_eq_some_iff, Option.map_eq_some_iff, Prod.mk.injEq] at h
    obtain ⟨r, hr, q, hq, rfl, rfl⟩ := h
    have hf := f.print_parse s r.1 r.2 hr
    have hg := g.print_parse r.2 q.1 q.2 hq
    constructor
    · exact ⟨hf.1, hg.1⟩
    · rw [List.append_assoc, hg.2, hf.2]

/-- A header computed from the value, then a body whose shape the header fixes. -/
def headed (f : Format β γ) (header : α → γ) (body : γ → Format β α)
    (h : ∀ c a, (body c).Valid a → header a = c) : Format β α where
  print a := f.print (header a) ++ (body (header a)).print a
  parse s := (f.parse s).bind fun r => (body r.1).parse r.2
  Valid a := f.Valid (header a) ∧ (body (header a)).Valid a
  parse_print a rest ha := by
    rw [List.append_assoc]
    simp [f.parse_print (header a) _ ha.1, (body (header a)).parse_print a rest ha.2]
  print_parse s a rest hs := by
    simp only [Option.bind_eq_some_iff] at hs
    obtain ⟨r, hr, hb⟩ := hs
    have hf := f.print_parse s r.1 r.2 hr
    have hg := (body r.1).print_parse r.2 a rest hb
    have hc : header a = r.1 := h r.1 a hg.1
    rw [hc]
    constructor
    · exact ⟨hf.1, hg.1⟩
    · rw [List.append_assoc, hg.2, hf.2]

/-- Parse `n` values in a row. -/
def parseMany (f : Format β α) : Nat → List β → Option (List α × List β)
  | 0, s => some ([], s)
  | n + 1, s => (f.parse s).bind fun r =>
      (parseMany f n r.2).map fun q => (r.1 :: q.1, q.2)

theorem parseMany_print (f : Format β α) (as : List α) (rest : List β)
    (h : ∀ a ∈ as, f.Valid a) :
    f.parseMany as.length (as.flatMap f.print ++ rest) = some (as, rest) := by
  induction as with
  | nil => rfl
  | cons a as ih =>
    have ha : f.Valid a := h a (by simp)
    have has := ih fun b hb => h b (by simp [hb])
    simp [parseMany, List.append_assoc, f.parse_print a _ ha, has]

theorem print_parseMany (f : Format β α) (n : Nat) (s : List β) (as : List α) (rest : List β)
    (h : f.parseMany n s = some (as, rest)) :
    (as.length = n ∧ ∀ a ∈ as, f.Valid a) ∧ as.flatMap f.print ++ rest = s := by
  induction n generalizing s as with
  | zero =>
    simp only [parseMany, Option.some.injEq, Prod.mk.injEq] at h
    obtain ⟨rfl, rfl⟩ := h
    simp
  | succ n ih =>
    simp only [parseMany, Option.bind_eq_some_iff, Option.map_eq_some_iff, Prod.mk.injEq] at h
    obtain ⟨r, hr, q, hq, rfl, rfl⟩ := h
    have hf := f.print_parse s r.1 r.2 hr
    have hm := ih r.2 q.1 hq
    constructor
    · simpa [hm.1.1, hf.1] using hm.1.2
    · rw [List.flatMap_cons, List.append_assoc, hm.2, hf.2]

/-- A known number of values. -/
def many (f : Format β α) (n : Nat) : Format β (List α) where
  print as := as.flatMap f.print
  parse := f.parseMany n
  Valid as := as.length = n ∧ ∀ a ∈ as, f.Valid a
  parse_print as rest h := by
    rw [← h.1]
    exact f.parseMany_print as rest h.2
  print_parse := f.print_parseMany n

end Format

end Asm2Runtime.CanonicalFormat
