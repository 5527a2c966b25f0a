import Mathlib.Data.List.Infix

/-!
# Delimiters and words

What stands behind the first occurrence of a delimiter, and the words between blanks.
-/

namespace Asm2Runtime.ShellWords

variable {α : Type}

section Delimiters

variable [DecidableEq α]

/-- What stands behind the first occurrence of the delimiter. -/
def afterFirst (delimiter : List α) : List α → Option (List α)
  | [] => if delimiter = [] then some [] else none
  | a :: text =>
    if delimiter <+: a :: text then some ((a :: text).drop delimiter.length)
    else afterFirst delimiter text

/-- The text without its shortest beginning that ends with the delimiter, if there is one. -/
def stripShortest (delimiter text : List α) : List α := (afterFirst delimiter text).getD text

variable {delimiter : List α}

theorem afterFirst_of_starts {text : List α} (h : delimiter <+: text) :
    afterFirst delimiter text = some (text.drop delimiter.length) := by
  cases text with
  | nil => simp [afterFirst, List.prefix_nil.mp h]
  | cons a text => rw [afterFirst, if_pos h]

example : afterFirst [')', ' '] [')', ' ', 'S', ' ', '1'] = some ['S', ' ', '1'] := by
  decide +kernel

theorem afterFirst_cons_of_not_starts {a : α} {text : List α} (h : ¬ delimiter <+: a :: text) :
    afterFirst delimiter (a :: text) = afterFirst delimiter text := by
  rw [afterFirst, if_neg h]

theorem afterFirst_eq_none_iff {text : List α} :
    afterFirst delimiter text = none ↔ ¬ delimiter <:+: text := by
  induction text with
  | nil => simp [afterFirst]
  | cons a text ih =>
    rw [List.infix_cons_iff, not_or, ← ih]
    by_cases h : delimiter <+: a :: text
    · simp [afterFirst_of_starts h, h]
    · simp [afterFirst_cons_of_not_starts h, h]

theorem afterFirst_length {text rest : List α} (h : afterFirst delimiter text = some rest) :
    rest.length ≤ text.length := by
  induction text with
  | nil =>
    by_cases hnil : delimiter = []
    · simp [afterFirst, hnil] at h
      simp [← h]
    · simp [afterFirst, hnil] at h
  | cons a text ih =>
    rw [afterFirst] at h
    split at h
    · rw [← Option.some.inj h, List.length_drop]
      exact Nat.sub_le _ _
    · exact Nat.le_succ_of_le (ih h)

/-- The first occurrence stays the first when more text follows. -/
theorem afterFirst_append {text rest : List α} (h : afterFirst delimiter text = some rest)
    (later : List α) : afterFirst delimiter (text ++ later) = some (rest ++ later) := by
  induction text with
  | nil =>
    by_cases hnil : delimiter = []
    · subst hnil
      obtain rfl : [] = rest := by simpa [afterFirst] using h
      exact afterFirst_of_starts List.nil_prefix
    · simp [afterFirst, hnil] at h
  | cons a text ih =>
    by_cases hstarts : delimiter <+: a :: text
    · rw [afterFirst_of_starts hstarts] at h
      obtain rfl := Option.some.inj h
      rw [afterFirst_of_starts (hstarts.trans (List.prefix_append _ later)),
        List.drop_append_of_le_length hstarts.length_le]
    · rw [afterFirst_cons_of_not_starts hstarts] at h
      have hinside : delimiter <:+: text := by
        by_contra hnone
        rw [afterFirst_eq_none_iff.mpr hnone] at h
        cases h
      have hlater : ¬ delimiter <+: a :: (text ++ later) := fun hlater =>
        hstarts (List.prefix_of_prefix_length_le hlater (List.prefix_append (a :: text) later)
          (Nat.le_succ_of_le hinside.length_le))
      rw [List.cons_append, afterFirst_cons_of_not_starts hlater, ih h]

/-- The delimiter does not begin where its first character does not stand. -/
theorem afterFirst_append_of_not_mem {a : α} {text : List α} (h : a ∉ text) (rest : List α) :
    afterFirst (a :: delimiter) (text ++ rest) = afterFirst (a :: delimiter) rest := by
  induction text with
  | nil => rfl
  | cons c text ih =>
    rw [List.mem_cons, not_or] at h
    have hstarts : ¬ a :: delimiter <+: c :: (text ++ rest) :=
      fun hstarts => h.1 (List.cons_prefix_cons.mp hstarts).1
    rw [List.cons_append, afterFirst_cons_of_not_starts hstarts, ih h.2]

/-- Two different characters do not overlap with themselves. -/
theorem afterFirst_pair {a b : α} (hab : a ≠ b) {text : List α} (h : ¬ [a, b] <:+: text)
    (rest : List α) : afterFirst [a, b] (text ++ a :: b :: rest) = some rest := by
  induction text with
  | nil => exact afterFirst_of_starts (List.prefix_append [a, b] rest)
  | cons c text ih =>
    rw [List.infix_cons_iff, not_or] at h
    have hstarts : ¬ [a, b] <+: c :: (text ++ a :: b :: rest) := by
      intro hstarts
      obtain ⟨rfl, hnext⟩ := List.cons_prefix_cons.mp hstarts
      cases text with
      | nil => exact hab (List.cons_prefix_cons.mp hnext).1.symm
      | cons d text =>
        obtain ⟨rfl, _⟩ := List.cons_prefix_cons.mp hnext
        exact h.1 (List.prefix_append [a, b] text)
    rw [List.cons_append, afterFirst_cons_of_not_starts hstarts, ih h.2]

end Delimiters

section Words

variable (blank : α → Bool)

/-- The words between blanks. -/
def words (text : List α) : List (List α) := (text.splitOnP blank).filter (· ≠ [])

variable {blank}

theorem words_append_blank (text rest : List α) {b : α} (hb : blank b = true) :
    words blank (text ++ b :: rest) = words blank text ++ words blank rest := by
  rw [words, List.splitOnP_append_cons text rest hb, List.filter_append]
  rfl

theorem words_of_plain {word : List α} (hne : word ≠ []) (h : ∀ c ∈ word, blank c = false) :
    words blank word = [word] := by
  rw [words, List.splitOnP_eq_singleton h, List.filter_singleton, decide_eq_true hne]
  rfl

/-- Words behind blanks are read back. -/
theorem words_join {b : α} (hb : blank b = true) (ws : List (List α))
    (h : ∀ w ∈ ws, w ≠ [] ∧ ∀ c ∈ w, blank c = false) (text : List α) :
    words blank (text ++ ws.flatMap (b :: ·)) = words blank text ++ ws := by
  induction ws generalizing text with
  | nil => simp
  | cons w ws ih =>
    obtain ⟨hne, hplain⟩ := h w List.mem_cons_self
    have hrest := ih (fun w' hw' => h w' (List.mem_cons_of_mem w hw')) w
    rw [List.flatMap_cons, List.cons_append, words_append_blank text _ hb, hrest,
      words_of_plain hne hplain, List.singleton_append]

/-- There are at most as many words as characters. -/
theorem words_length_le (text : List α) : (words blank text).length ≤ text.length := by
  induction text with
  | nil => simp [words]
  | cons a text ih =>
    rw [words] at ih ⊢
    rw [List.splitOnP_cons_eq_if_modifyHead]
    split
    · exact Nat.le_succ_of_le (by simpa using ih)
    · cases hsplit : text.splitOnP blank with
      | nil => exact absurd hsplit (List.splitOnP_ne_nil blank text)
      | cons w ws =>
        rw [hsplit] at ih
        have hgrow : (ws.filter (· ≠ [])).length ≤ ((w :: ws).filter (· ≠ [])).length :=
          ((List.sublist_cons_self w ws).filter _).length_le
        simpa using hgrow.trans ih

end Words

end Asm2Runtime.ShellWords
