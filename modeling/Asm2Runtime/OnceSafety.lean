import Asm2Runtime.EventLog
import Asm2Runtime.OnceControl

/-!
# Every init routine runs once

A call that has stored 1 in a control word owns the word until it stores 2 or 0;
no two calls own one word. The observations of every word follow its phases, and
what they imply for callers is read off the phases alone.
-/

namespace Asm2Runtime.Once

open Transition EventLog

variable {words : Addr → UInt32} {s u : Process} {t t' : Tid} {w : Addr}

/-! ## What the phases say about the log -/

@[simp] theorem phase_nil (words : Addr → UInt32) (w : Addr) :
    phase words [] w = some (.ofWord (words w)) := rfl

theorem phase_append (words : Addr → UInt32) (before after : List Obs) (w : Addr) :
    phase words (before ++ after) w =
      (phase words before w).bind fun p => after.foldlM (Phase.next w) p := by
  simp [phase, List.foldlM_append]

theorem phase_snoc (words : Addr → UInt32) (log : List Obs) (o : Obs) (w : Addr) :
    phase words (log ++ [o]) w = (phase words log w).bind fun p => p.next w o := by
  rw [phase_append]
  cases phase words log w <;> simp

theorem Phase.next_of_not_about {o : Obs} (h : o.about w = false) (p : Phase) :
    p.next w o = some p := by
  cases o <;> simp_all [Obs.about, Phase.next]

theorem phase_note {log : List Obs} {o : Obs} (h : o.about w = false) :
    phase words (log ++ [o]) w = phase words log w := by
  rw [phase_snoc]
  cases phase words log w <;> simp [Phase.next_of_not_about h]

/-- An observation in the middle of an orderly log. -/
theorem phase_split {before after : List Obs} {o : Obs} {r : Phase}
    (h : phase words (before ++ o :: after) w = some r) :
    ∃ p q, phase words before w = some p ∧ p.next w o = some q ∧
      after.foldlM (Phase.next w) q = some r := by
  rw [phase_append] at h
  obtain ⟨p, hp, h⟩ := Option.bind_eq_some_iff.mp h
  rw [List.foldlM_cons] at h
  obtain ⟨q, hq, hr⟩ := Option.bind_eq_some_iff.mp h
  exact ⟨p, q, hp, hq, hr⟩

/-- A phase that is left by no observation. -/
def Phase.Final (p : Phase) : Prop := p = .done ∨ p = .stuck ∨ p = .invalid

theorem Phase.Final.next {p q : Phase} {o : Obs} (h : p.Final) (hq : p.next w o = some q) :
    q = p ∧ ∀ t, o ≠ .entered t w := by
  obtain rfl | rfl | rfl := h <;> cases o <;> simp_all [Phase.next] <;> grind

/-- In a final phase no routine is entered any more. -/
theorem Phase.Final.run {p q : Phase} {log : List Obs} (h : p.Final)
    (hq : log.foldlM (Phase.next w) p = some q) :
    q = p ∧ ∀ t, .entered t w ∉ log := by
  induction log with
  | nil => simp_all
  | cons o log ih =>
    rw [List.foldlM_cons] at hq
    obtain ⟨r, hr, hrun⟩ := Option.bind_eq_some_iff.mp hq
    obtain ⟨rfl, ho⟩ := h.next hr
    obtain ⟨hqr, hlog⟩ := ih hrun
    refine ⟨hqr, ?_⟩
    intro t hmem
    cases List.mem_cons.mp hmem with
    | inl heq => exact ho t heq.symm
    | inr htail => exact hlog t htail

/-- A word gets to `done` by a completed execution only. -/
theorem completed_of_done {p : Phase} {log : List Obs}
    (h : log.foldlM (Phase.next w) p = some .done) :
    p = .done ∨ ∃ t, .completed t w ∈ log := by
  induction log generalizing p with
  | nil => exact Or.inl (by simpa using h)
  | cons o log ih =>
    rw [List.foldlM_cons] at h
    obtain ⟨q, hq, h⟩ := Option.bind_eq_some_iff.mp h
    obtain rfl | ⟨t, ht⟩ := ih h
    · cases o <;> simp [Phase.next] at hq <;> grind
    · exact Or.inr ⟨t, List.mem_cons_of_mem _ ht⟩

/-- Between a fresh word and a completed execution a routine is entered. -/
theorem entered_of_completed {log : List Obs} {q : Phase}
    (h : log.foldlM (Phase.next w) .fresh = some q) (hcompleted : .completed t w ∈ log) :
    ∃ t', .entered t' w ∈ log := by
  induction log with
  | nil => simp at hcompleted
  | cons o log ih =>
    rw [List.foldlM_cons] at h
    obtain ⟨p, hp, h⟩ := Option.bind_eq_some_iff.mp h
    by_cases ho : ∃ t', o = .entered t' w
    · obtain ⟨t', rfl⟩ := ho
      exact ⟨t', List.mem_cons_self⟩
    · have hfresh : p = .fresh := by
        cases o <;> simp [Phase.next] at hp <;> grind
      subst p
      have hmem : .completed t w ∈ log := by
        cases List.mem_cons.mp hcompleted with
        | inl heq => simp [← heq, Phase.next] at hp
        | inr htail => exact htail
      obtain ⟨t', ht'⟩ := ih h hmem
      exact ⟨t', List.mem_cons_of_mem _ ht'⟩

/-- A fresh word stays fresh while no routine is entered. -/
theorem fresh_of_not_entered {log : List Obs} {q : Phase}
    (h : log.foldlM (Phase.next w) .fresh = some q) (hnone : ∀ t, .entered t w ∉ log) :
    q = .fresh := by
  induction log with
  | nil => simpa using h.symm
  | cons o log ih =>
    rw [List.foldlM_cons] at h
    obtain ⟨p, hp, h⟩ := Option.bind_eq_some_iff.mp h
    have ho : ∀ t, o ≠ .entered t w := fun t heq => hnone t (by simp [heq])
    have hfresh : p = .fresh := by
      cases o <;> simp [Phase.next] at hp <;> grind
    subst p
    exact ih h fun t ht => hnone t (List.mem_cons_of_mem _ ht)

/-! ## Ownership of the words -/

/-- The call is between the lock of once_lock and its release. -/
def Pc.locked : Pc → Bool
  | .test | .load | .leave _ | .claim | .claimed | .storeDone | .broadcastDone | .unlockDone
  | .testCancelled | .storeCancelled | .broadcastCancelled | .unlockCancelled => true
  | _ => false

/-- The call has stored 1 and owns the word. -/
def Pc.claims : Pc → Bool
  | .claimed | .install | .init | .lockDone | .storeDone
  | .lockCancelled | .testCancelled | .storeCancelled => true
  | _ => false

/-- The call has yet to restore the cancellation state of its caller. -/
def Pc.shielded : Pc → Bool
  | .lock | .test | .waiting | .woken | .load | .leave _ | .claim | .claimed | .install => true
  | _ => false

def Pc.broadcasts : Pc → Bool
  | .broadcastDone | .broadcastCancelled => true
  | _ => false

/-- The phase of a word that is owned from here. -/
def Pc.phase (t : Tid) : Pc → Phase
  | .lockDone | .storeDone => .done
  | .init | .lockCancelled | .testCancelled | .storeCancelled => .running t
  | _ => .fresh

/-- What the call knows about the word while it holds once_lock. -/
def Pc.Sees (word : UInt32) : Pc → Prop
  | .load => word ≠ 1
  | .leave result =>
    result = 0 ∧ word = 2 ∨ result = EINVAL ∧ word ≠ 0 ∧ word ≠ 1 ∧ word ≠ 2
  | .claim => word = 0
  | .broadcastDone | .unlockDone => word = 2
  | _ => True

theorem Pc.sees_of_not_locked {pc : Pc} (h : pc.locked = false) (word : UInt32) :
    pc.Sees word := by
  cases pc <;> simp_all [Pc.locked, Pc.Sees]

/-- The words that the calls of a stack own. -/
def held (stack : List Frame) : List Addr :=
  (stack.filter fun f => f.pc.claims).map Frame.guestOnce

theorem held_cons (f : Frame) (rest : List Frame) :
    held (f :: rest) = if f.pc.claims then f.guestOnce :: held rest else held rest := by
  by_cases h : f.pc.claims <;> simp [held, h]

theorem mem_held {stack : List Frame} :
    w ∈ held stack ↔ ∃ f ∈ stack, f.guestOnce = w ∧ f.pc.claims := by
  simp [held]
  grind

@[simp] theorem held_unwind {stack : List Frame} (h : ∀ f ∈ stack, f.pc = .init) :
    held (Process.unwind stack) = held stack := by
  cases stack with
  | nil => rfl
  | cons f rest => simp [Process.unwind, held_cons, Pc.claims, h f List.mem_cons_self]

@[simp] theorem held_awaken (stack : List Frame) : held (Process.awaken stack) = held stack := by
  cases stack with
  | nil => rfl
  | cons f rest =>
    by_cases h : f.pc = .waiting <;> simp [Process.awaken, held_cons, h, Pc.claims]

/-- One thread's part of the invariant. -/
structure Good (word : Addr → UInt32) (phase : Addr → Option Phase) (onceLock : Option Tid)
    (enabled : Bool) (t : Tid) (stack : List Frame) : Prop where
  lock : onceLock = some t ↔ ∃ f ∈ stack.head?, f.pc.locked = true
  below : ∀ f ∈ stack.tail, f.pc = .init
  shield : ∀ f ∈ stack.head?, f.pc.shielded = true → enabled = false
  nodup : (held stack).Nodup
  owns : ∀ f ∈ stack, f.pc.claims = true →
    word f.guestOnce = 1 ∧ phase f.guestOnce = some (f.pc.phase t)
  sees : ∀ f ∈ stack.head?, f.pc.Sees (word f.guestOnce)

/-- What holds of a word. A word that did not start as 0 is never written. -/
structure WordGood (words : Addr → UInt32) (s : Process) (w : Addr) : Prop where
  free : (∀ t, w ∉ held (s.stacks t)) → phase words s.log w = some (.ofWord (s.words w))
  kept : words w ≠ 0 → s.words w = words w ∧ ∀ t, w ∉ held (s.stacks t)
  owned : words w = 0 → s.words w = 1 → ∃ t, w ∈ held (s.stacks t)
  range : words w = 0 → s.words w = 0 ∨ s.words w = 1 ∨ s.words w = 2

structure Inv (words : Addr → UInt32) (s : Process) : Prop where
  thread : ∀ t, Good s.words (phase words s.log) s.onceLock (s.cancelEnabled t) t (s.stacks t)
  word : ∀ w, WordGood words s w
  disjoint : ∀ t t' w, w ∈ held (s.stacks t) → w ∈ held (s.stacks t') → t = t'
  asleep : ∀ t w, s.Asleep t w → s.words w = 1 ∨
    ∃ t', ∃ f ∈ (s.stacks t').head?, f.pc.broadcasts = true

theorem inv_initial (words : Addr → UInt32) (cancelEnabled : Tid → Bool) :
    Inv words (initial words cancelEnabled) := by
  constructor
  · intro t
    constructor <;> simp [initial, held]
  · intro w
    refine ⟨fun _ => rfl, fun _ => ⟨rfl, by simp [initial, held]⟩, ?_, fun h => Or.inl h⟩
    intro h h1
    simp [initial, h] at h1
  · intro t t' w h
    simp [initial, held] at h
  · intro t w h
    simp [initial, Process.Asleep] at h

/-- A word that no other call may own: it is not 1. -/
theorem Inv.unowned (h : Inv words s) (hw : s.words w ≠ 1) (t : Tid) : w ∉ held (s.stacks t) := by
  intro hmem
  obtain ⟨f, hf, rfl, hclaims⟩ := mem_held.mp hmem
  exact hw ((h.thread t).owns f hf hclaims).1

/-! ## Moves of one thread -/

/-- A thread moves. Every word is left alone, or its change is of no other
thread's concern. -/
theorem Inv.act (h : Inv words s)
    (hstacks : ∀ t', t' ≠ t → u.stacks t' = s.stacks t')
    (henabled : ∀ t', t' ≠ t → u.cancelEnabled t' = s.cancelEnabled t')
    (hlock : ∀ t', t' ≠ t → (u.onceLock = some t' ↔ s.onceLock = some t'))
    (hwrite : ∀ v, u.words v ≠ s.words v → s.onceLock = some t)
    (hword : ∀ v, u.words v = s.words v ∧ phase words u.log v = phase words s.log v ∧
        (v ∈ held (u.stacks t) ↔ v ∈ held (s.stacks t)) ∨
      (∀ t', t' ≠ t → v ∉ held (s.stacks t')) ∧ WordGood words u v)
    (hgood : Good u.words (phase words u.log) u.onceLock (u.cancelEnabled t) t (u.stacks t))
    (hasleep : ∀ t' v, u.Asleep t' v → u.words v = 1 ∨
      ∃ t', ∃ f ∈ (u.stacks t').head?, f.pc.broadcasts = true) : Inv words u := by
  have heldOther : ∀ t', t' ≠ t → held (u.stacks t') = held (s.stacks t') := by
    intro t' ht
    rw [hstacks t' ht]
  constructor
  · intro t'
    by_cases ht : t' = t
    · subst t'
      exact hgood
    have hold := h.thread t'
    rw [hstacks t' ht, henabled t' ht]
    refine ⟨(hlock t' ht).trans hold.lock, hold.below, hold.shield, hold.nodup, ?_, ?_⟩
    · intro f hf hclaims
      have hmem : f.guestOnce ∈ held (s.stacks t') := mem_held.mpr ⟨f, hf, rfl, hclaims⟩
      cases hword f.guestOnce with
      | inl hsame =>
        rw [hsame.1, hsame.2.1]
        exact hold.owns f hf hclaims
      | inr hmine => exact absurd hmem (hmine.1 t' ht)
    · intro f hf
      by_cases hlocked : f.pc.locked = true
      · -- the lock of the other thread keeps the word from being written
        have hsame : u.words f.guestOnce = s.words f.guestOnce := by
          by_contra hne
          have ht' := hold.lock.mpr ⟨f, hf, hlocked⟩
          rw [hwrite _ hne] at ht'
          exact ht (Option.some.inj ht').symm
        rw [hsame]
        exact hold.sees f hf
      · exact Pc.sees_of_not_locked (by simpa using hlocked) _
  · intro v
    cases hword v with
    | inr hmine => exact hmine.2
    | inl hsame =>
      obtain ⟨hwords, hphase, hheld⟩ := hsame
      have hold := h.word v
      have hany : ∀ t', v ∈ held (u.stacks t') ↔ v ∈ held (s.stacks t') := by
        intro t'
        by_cases ht : t' = t
        · subst t'
          exact hheld
        · rw [heldOther t' ht]
      constructor
      · simpa only [hany, hphase, hwords] using hold.free
      · simpa only [hany, hwords] using hold.kept
      · simpa only [hany, hwords] using hold.owned
      · simpa only [hwords] using hold.range
  · intro t₁ t₂ v h₁ h₂
    cases hword v with
    | inr hmine =>
      have only : ∀ t', v ∈ held (u.stacks t') → t' = t := by
        intro t' hmem
        by_contra ht
        rw [heldOther t' ht] at hmem
        exact hmine.1 t' ht hmem
      rw [only t₁ h₁, only t₂ h₂]
    | inl hsame =>
      have hany : ∀ t', v ∈ held (u.stacks t') → v ∈ held (s.stacks t') := by
        intro t' hmem
        by_cases ht : t' = t
        · subst t'
          exact hsame.2.2.mp hmem
        · rwa [heldOther t' ht] at hmem
      exact h.disjoint t₁ t₂ v (hany t₁ h₁) (hany t₂ h₂)
  · exact hasleep

/-- The innermost call moves on without touching its word. -/
theorem Good.move {word : Addr → UInt32} {phase phase' : Addr → Option Phase}
    {onceLock onceLock' : Option Tid} {enabled enabled' : Bool} {f f' : Frame}
    {rest : List Frame} (h : Good word phase onceLock enabled t (f :: rest))
    (hphase : ∀ v, phase' v = phase v) (hguest : f'.guestOnce = f.guestOnce)
    (hclaims : f'.pc.claims = f.pc.claims)
    (hsame : f.pc.claims = true → f'.pc.phase t = f.pc.phase t)
    (hlock : onceLock' = some t ↔ f'.pc.locked = true)
    (hshield : f'.pc.shielded = true → enabled' = false)
    (hsees : f'.pc.Sees (word f.guestOnce)) :
    Good word phase' onceLock' enabled' t (f' :: rest) := by
  have hfunext : phase' = phase := funext hphase
  subst hfunext
  constructor
  · simpa using hlock
  · exact h.below
  · simpa using hshield
  · simpa [held_cons, hclaims, hguest] using h.nodup
  · intro g hg hg'
    cases List.mem_cons.mp hg with
    | inl heq =>
      subst g
      rw [hguest, hsame (hclaims ▸ hg')]
      exact h.owns f List.mem_cons_self (hclaims ▸ hg')
    | inr hrest => exact h.owns g (List.mem_cons_of_mem _ hrest) hg'
  · simpa [hguest] using hsees

/-- The innermost call changes its word, which no outer call of the thread owns,
or the phase of the word. -/
theorem Good.write {word word' : Addr → UInt32} {phase phase' : Addr → Option Phase}
    {onceLock onceLock' : Option Tid} {enabled enabled' : Bool} {f f' : Frame}
    {rest : List Frame} (h : Good word phase onceLock enabled t (f :: rest))
    (hword : ∀ v, v ≠ f.guestOnce → word' v = word v ∧ phase' v = phase v)
    (hguest : f'.guestOnce = f.guestOnce) (hrest : f.guestOnce ∉ held rest)
    (howns : f'.pc.claims = true →
      word' f.guestOnce = 1 ∧ phase' f.guestOnce = some (f'.pc.phase t))
    (hlock : onceLock' = some t ↔ f'.pc.locked = true)
    (hshield : f'.pc.shielded = true → enabled' = false)
    (hsees : f'.pc.Sees (word' f.guestOnce)) :
    Good word' phase' onceLock' enabled' t (f' :: rest) := by
  have hnodup : (held rest).Nodup := by
    have hall := h.nodup
    rw [held_cons] at hall
    split at hall
    · exact (List.nodup_cons.mp hall).2
    · exact hall
  constructor
  · simpa using hlock
  · exact h.below
  · simpa using hshield
  · rw [held_cons, hguest]
    split
    · exact List.nodup_cons.mpr ⟨hrest, hnodup⟩
    · exact hnodup
  · intro g hg hclaims
    cases List.mem_cons.mp hg with
    | inl heq =>
      subst g
      rw [hguest]
      exact howns hclaims
    | inr hmem =>
      have hne : g.guestOnce ≠ f.guestOnce := by
        intro heq
        exact hrest (mem_held.mpr ⟨g, hmem, heq, hclaims⟩)
      rw [(hword _ hne).1, (hword _ hne).2]
      exact h.owns g (List.mem_cons_of_mem _ hmem) hclaims
  · simpa [hguest] using hsees

/-- The innermost call, which owns nothing, is gone; the thread is in guest code
again or runs its next handler. -/
theorem Good.pop {word : Addr → UInt32} {phase phase' : Addr → Option Phase}
    {onceLock onceLock' : Option Tid} {enabled enabled' : Bool} {f : Frame}
    {rest stack : List Frame} (h : Good word phase onceLock enabled t (f :: rest))
    (hphase : ∀ v, phase' v = phase v) (hlock : onceLock' ≠ some t)
    (hf : f.pc.claims = false) (hstack : stack = rest ∨ stack = Process.unwind rest) :
    Good word phase' onceLock' enabled' t stack := by
  have hfunext : phase' = phase := funext hphase
  subst hfunext
  have hbelow : ∀ g ∈ rest, g.pc = .init := h.below
  have hnodup : (held rest).Nodup := by simpa [held_cons, hf] using h.nodup
  have howns : ∀ g ∈ rest, word g.guestOnce = 1 ∧ phase' g.guestOnce = some (.running t) := by
    intro g hg
    have hpc := hbelow g hg
    simpa [hpc, Pc.phase] using h.owns g (List.mem_cons_of_mem _ hg) (by simp [hpc, Pc.claims])
  cases rest with
  | nil =>
    have hnil : stack = [] := by simpa [Process.unwind] using hstack
    subst hnil
    constructor <;> simp [hlock, held]
  | cons g rest =>
    have hg := hbelow g List.mem_cons_self
    obtain rfl | rfl := hstack
    · constructor
      · simp [hlock, hg, Pc.locked]
      · exact fun e he => hbelow e (List.mem_cons_of_mem _ he)
      · simp [hg, Pc.shielded]
      · exact hnodup
      · intro e he _
        simpa [hbelow e he, Pc.phase] using howns e he
      · simp [hg, Pc.Sees]
    · constructor
      · simp [hlock, Process.unwind, Pc.locked]
      · exact fun e he => hbelow e (List.mem_cons_of_mem _ he)
      · simp [Process.unwind, Pc.shielded]
      · simpa [held_unwind hbelow] using hnodup
      · intro e he _
        cases List.mem_cons.mp he with
        | inl heq =>
          subst e
          exact howns g List.mem_cons_self
        | inr hmem =>
          rw [hbelow e (List.mem_cons_of_mem _ hmem)]
          exact howns e (List.mem_cons_of_mem _ hmem)
      · simp [Process.unwind, Pc.Sees]

/-- Nobody sleeps after a broadcast. -/
theorem not_asleep_broadcast (s : Process) (t : Tid) (w : Addr) : ¬ s.broadcast.Asleep t w := by
  rintro ⟨f, hf, _, hpc⟩
  simp only [Process.broadcast] at hf
  cases hstack : s.stacks t with
  | nil => simp [hstack, Process.awaken] at hf
  | cons g rest =>
    by_cases hg : g.pc = .waiting
    · simp only [hstack, Process.awaken, if_pos hg, List.head?_cons, Option.mem_some_iff] at hf
      subst hf
      simp at hpc
    · simp only [hstack, Process.awaken, if_neg hg, List.head?_cons, Option.mem_some_iff] at hf
      subst hf
      exact hg hpc

theorem Good.awaken {word : Addr → UInt32} {phase : Addr → Option Phase}
    {onceLock : Option Tid} {enabled : Bool} {stack : List Frame}
    (h : Good word phase onceLock enabled t stack) :
    Good word phase onceLock enabled t (Process.awaken stack) := by
  cases stack with
  | nil => exact h
  | cons f rest =>
    by_cases hf : f.pc = .waiting
    · have hlock := h.lock
      have hshield := h.shield f rfl
      simp only [Process.awaken, if_pos hf]
      refine h.move (fun _ => rfl) rfl ?_ ?_ ?_ ?_ ?_
      · simp [hf, Pc.claims]
      · simp [hf, Pc.claims]
      · simpa [hf, Pc.locked] using hlock
      · simpa [hf, Pc.shielded] using hshield
      · simp [Pc.Sees]
    · simpa only [Process.awaken, if_neg hf] using h

theorem Inv.broadcast (h : Inv words s) : Inv words s.broadcast := by
  have hheld : ∀ t, held (s.broadcast.stacks t) = held (s.stacks t) := fun t => held_awaken _
  constructor
  · intro t
    exact (h.thread t).awaken
  · intro w
    have hold := h.word w
    constructor
    · intro hfree
      exact hold.free fun t => hheld t ▸ hfree t
    · intro hw
      exact ⟨(hold.kept hw).1, fun t => (hheld t).symm ▸ (hold.kept hw).2 t⟩
    · intro hw h1
      obtain ⟨t, ht⟩ := hold.owned hw h1
      exact ⟨t, (hheld t).symm ▸ ht⟩
    · exact hold.range
  · intro t t' w hw hw'
    rw [hheld] at hw hw'
    exact h.disjoint t t' w hw hw'
  · intro t w hasleep
    exact absurd hasleep (not_asleep_broadcast s t w)

/-! ## Every step keeps the invariant -/

/-- A move that changes neither a word, nor what is owned, nor the phase of a word. -/
theorem Inv.quiet (h : Inv words s) (stack : List Frame) {onceLock : Option Tid}
    (enabled : Bool) {log : List Obs} (cancelled : Tid → Bool)
    (hphase : ∀ v, phase words log v = phase words s.log v)
    (hheld : ∀ v, v ∈ held stack ↔ v ∈ held (s.stacks t))
    (hlock : ∀ t', t' ≠ t → (onceLock = some t' ↔ s.onceLock = some t'))
    (hgood : Good s.words (phase words log) onceLock enabled t stack)
    (hwaits : ∀ f ∈ stack.head?, f.pc = .waiting → s.words f.guestOnce = 1)
    (hbroadcast : (∀ f ∈ (s.stacks t).head?, f.pc.broadcasts = false) ∨
      ∀ t' w, ¬ s.Asleep t' w) :
    Inv words { s with
      «stacks» := Function.update s.stacks t stack, onceLock, log, cancelled
      cancelEnabled := Function.update s.cancelEnabled t enabled } := by
  apply h.act (t := t)
  · intro t' ht
    simp [ht]
  · intro t' ht
    simp [ht]
  · exact hlock
  · intro v hv
    exact absurd rfl hv
  · intro v
    exact Or.inl ⟨rfl, hphase v, by simpa using hheld v⟩
  · simpa using hgood
  · rintro t' v ⟨f, hf, rfl, hpc⟩
    by_cases ht : t' = t
    · subst t'
      exact Or.inl (hwaits f (by simpa using hf) hpc)
    have hold : s.Asleep t' f.guestOnce := ⟨f, by simpa [ht] using hf, rfl, hpc⟩
    cases hbroadcast with
    | inr hnone => exact absurd hold (hnone t' _)
    | inl hquiet =>
      cases h.asleep t' _ hold with
      | inl hone => exact Or.inl hone
      | inr hpending =>
        obtain ⟨t₂, g, hg, hgb⟩ := hpending
        have hne : t₂ ≠ t := by
          rintro rfl
          simp [hquiet g hg] at hgb
        exact Or.inr ⟨t₂, g, by simpa [hne] using hg, hgb⟩

/-- The innermost call changes its word or the phase of its word. -/
theorem Inv.write (h : Inv words s) {f : Frame} {rest : List Frame}
    (hstack : s.stacks t = f :: rest) (f' : Frame) (hguest : f'.guestOnce = f.guestOnce)
    (x : UInt32) (log : List Obs) (enabled : Bool)
    (hothers : ∀ t', t' ≠ t → f.guestOnce ∉ held (s.stacks t'))
    (hrest : f.guestOnce ∉ held rest) (hzero : words f.guestOnce = 0)
    (hstore : x ≠ s.words f.guestOnce → s.onceLock = some t)
    (hphase : ∀ v, v ≠ f.guestOnce → phase words log v = phase words s.log v)
    (hlater : f'.pc.claims = true ∧ x = 1 ∧
        phase words log f.guestOnce = some (f'.pc.phase t) ∨
      f'.pc.claims = false ∧ (x = 0 ∨ x = 2) ∧ phase words log f.guestOnce = some (.ofWord x))
    (hlock : s.onceLock = some t ↔ f'.pc.locked = true)
    (hshield : f'.pc.shielded = true → enabled = false)
    (hsees : f'.pc.Sees x) (hwakes : x = 1 ∨ f'.pc.broadcasts = true)
    (hquiet : f.pc.broadcasts = false) (hwaits : f'.pc ≠ .waiting) :
    Inv words { s with
      words := Function.update s.words f.guestOnce x
      «stacks» := Function.update s.stacks t (f' :: rest)
      cancelEnabled := Function.update s.cancelEnabled t enabled, log } := by
  have hold := h.thread t
  rw [hstack] at hold
  have hwords : ∀ v, v ≠ f.guestOnce → Function.update s.words f.guestOnce x v = s.words v :=
    fun v hv => Function.update_of_ne hv _ _
  apply h.act (t := t)
  · intro t' ht
    simp [ht]
  · intro t' ht
    simp [ht]
  · exact fun t' _ => Iff.rfl
  · intro v hv
    by_cases hvf : v = f.guestOnce
    · subst v
      exact hstore (by simpa using hv)
    · exact absurd (hwords v hvf) hv
  · intro v
    by_cases hvf : v = f.guestOnce
    · subst v
      refine Or.inr ⟨hothers, ?_, ?_, ?_, ?_⟩
      · intro hfree
        have hmine := hfree t
        simp only [Function.update_self, held_cons, hguest] at hmine ⊢
        cases hlater with
        | inl hclaims => simp [hclaims.1] at hmine
        | inr hword => exact hword.2.2
      · exact fun hne => absurd hzero hne
      · intro _ hone
        refine ⟨t, ?_⟩
        simp only [Function.update_self] at hone ⊢
        cases hlater with
        | inl hclaims => simp [held_cons, hguest, hclaims.1]
        | inr hword =>
          obtain ⟨_, rfl | rfl, _⟩ := hword <;> exact absurd hone (by decide)
      · intro _
        simp only [Function.update_self]
        cases hlater with
        | inl hclaims => exact Or.inr (Or.inl hclaims.2.1)
        | inr hword => exact hword.2.1.imp id Or.inr
    · refine Or.inl ⟨hwords v hvf, hphase v hvf, ?_⟩
      simp only [Function.update_self, hstack, held_cons, hguest]
      grind
  · simp only [Function.update_self]
    apply hold.write (fun v hv => ⟨hwords v hv, hphase v hv⟩) hguest hrest
    · intro hclaims
      cases hlater with
      | inl hword => exact ⟨by simpa using hword.2.1, hword.2.2⟩
      | inr hword => simp [hword.1] at hclaims
    · exact hlock
    · exact hshield
    · simpa using hsees
  · rintro t' v ⟨g, hg, rfl, hpc⟩
    by_cases ht : t' = t
    · subst t'
      simp only [Function.update_self, List.head?_cons, Option.mem_some_iff] at hg
      subst g
      exact absurd hpc hwaits
    by_cases hgf : g.guestOnce = f.guestOnce
    · cases hwakes with
      | inl hone => exact Or.inl (by simp [hgf, hone])
      | inr hb => exact Or.inr ⟨t, f', by simp, hb⟩
    · have hsleep : s.Asleep t' g.guestOnce := ⟨g, by simpa [ht] using hg, rfl, hpc⟩
      cases h.asleep t' _ hsleep with
      | inl hone => exact Or.inl ((hwords _ hgf).trans hone)
      | inr hpending =>
        obtain ⟨t₂, e, he, heb⟩ := hpending
        have hne : t₂ ≠ t := by
          rintro rfl
          obtain rfl : f = e := by simpa [hstack] using he
          simp [hquiet] at heb
        exact Or.inr ⟨t₂, e, by simpa [hne] using he, heb⟩

/-- A call that owns its word is the only one that does. -/
theorem Inv.exclusive (h : Inv words s) {f : Frame} {rest : List Frame}
    (hstack : s.stacks t = f :: rest) (hf : f.pc.claims = true) :
    (∀ t', t' ≠ t → f.guestOnce ∉ held (s.stacks t')) ∧ f.guestOnce ∉ held rest ∧
      words f.guestOnce = 0 := by
  have hmem : f.guestOnce ∈ held (s.stacks t) := by simp [hstack, held_cons, hf]
  refine ⟨?_, ?_, ?_⟩
  · intro t' ht hother
    exact ht (h.disjoint t' t _ hother hmem)
  · have hnodup := (h.thread t).nodup
    rw [hstack, held_cons, if_pos hf] at hnodup
    exact (List.nodup_cons.mp hnodup).1
  · by_contra hne
    exact ((h.word f.guestOnce).kept hne).2 t hmem

/-- The result of a call agrees with the phase, so noting it changes no phase. -/
theorem phase_returned {log : List Obs} {p : Phase} {result : Errno}
    (hp : phase words log w = some p)
    (hresult : result = 0 ∧ p = .done ∨ result = EINVAL ∧ p = .invalid) (v : Addr) :
    phase words (log ++ [.returned t w result]) v = phase words log v := by
  by_cases hv : w = v
  · subst v
    rw [phase_snoc, hp]
    simp [Phase.next, hresult]
  · exact phase_note (by simpa [Obs.about] using hv)

/-- The lock changes hands between the thread and nobody. -/
def LockOf (t : Tid) (onceLock : Option Tid) : Prop := onceLock = none ∨ onceLock = some t

theorem LockOf.other {a b : Option Tid} (ha : LockOf t a) (hb : LockOf t b) (h : t' ≠ t) :
    a = some t' ↔ b = some t' := by
  obtain rfl | rfl := ha <;> obtain rfl | rfl := hb <;> simp [h.symm]

/-- The innermost call moves on; its word and what it owns stay as they are. -/
theorem Inv.goto (h : Inv words s) {f : Frame} {rest : List Frame}
    (hstack : s.stacks t = f :: rest) {f' : Frame} {onceLock : Option Tid}
    (hkeep : ∀ t', t' ≠ t → (onceLock = some t' ↔ s.onceLock = some t'))
    (hguest : f'.guestOnce = f.guestOnce) (hclaims : f'.pc.claims = f.pc.claims)
    (hsame : f.pc.claims = true → f'.pc.phase t = f.pc.phase t)
    (hlock : onceLock = some t ↔ f'.pc.locked = true)
    (hshield : f'.pc.shielded = true → s.cancelEnabled t = false)
    (hsees : f'.pc.Sees (s.words f.guestOnce))
    (hquiet : f.pc.broadcasts = false ∨ ∀ t' w, ¬ s.Asleep t' w)
    (hwaits : f'.pc = .waiting → s.words f.guestOnce = 1) :
    Inv words { s.setStack t (f' :: rest) with onceLock } := by
  have hold := h.thread t
  rw [hstack] at hold
  have hquiet' := h.quiet (t := t) (f' :: rest) (s.cancelEnabled t) s.cancelled (fun _ => rfl)
    (by simp [hstack, held_cons, hclaims, hguest]) hkeep
    (hold.move (fun _ => rfl) hguest hclaims hsame hlock hshield hsees)
    (by simpa [hguest] using hwaits) (by simpa [hstack] using hquiet)
  simpa [Process.setStack, Function.update_eq_self] using hquiet'

/-- The innermost call, which owns nothing, returns or is unwound. -/
theorem Inv.pop (h : Inv words s) {f : Frame} {rest stack : List Frame}
    (hstack : s.stacks t = f :: rest) (hmine : s.onceLock = some t) (enabled : Bool)
    (log : List Obs) (hphase : ∀ v, phase words log v = phase words s.log v)
    (hf : f.pc.claims = false) (hquiet : f.pc.broadcasts = false)
    (hnext : stack = rest ∨ stack = Process.unwind rest) :
    Inv words { s with
      «stacks» := Function.update s.stacks t stack, onceLock := none, log
      cancelEnabled := Function.update s.cancelEnabled t enabled } := by
  have hold := h.thread t
  rw [hstack] at hold
  have hrest : ∀ g ∈ rest, g.pc = .init := hold.below
  have hheld : held stack = held rest := by
    obtain rfl | rfl := hnext
    · rfl
    · exact held_unwind hrest
  have hstackPc : ∀ g ∈ stack.head?, g.pc ≠ .waiting := by
    intro g hg hpc
    obtain rfl | rfl := hnext
    · simp [hrest g (List.mem_of_mem_head? hg)] at hpc
    · cases rest with
      | nil => simp [Process.unwind] at hg
      | cons e rest =>
        obtain rfl : { e with pc := Pc.lockCancelled } = g := by simpa [Process.unwind] using hg
        simp at hpc
  apply h.quiet (t := t) _ _ _ hphase
  · intro v
    rw [hheld, hstack, held_cons, hf]
    rfl
  · exact fun t' ht => LockOf.other (Or.inl rfl) (Or.inr hmine) ht
  · exact hold.pop hphase (by simp) hf hnext
  · exact fun g hg hpc => absurd hpc (hstackPc g hg)
  · exact Or.inl (by simpa [hstack] using hquiet)

/-- The phase of the word that the call sees while it holds the lock and nobody owns it. -/
theorem Inv.phase_seen (h : Inv words s) (hw : s.words w ≠ 1) :
    phase words s.log w = some (.ofWord (s.words w)) :=
  (h.word w).free fun t => h.unowned hw t

/-- What the invariant says of the innermost call of a thread. -/
theorem Inv.top (h : Inv words s) {f : Frame} {rest : List Frame}
    (hstack : s.stacks t = f :: rest) :
    f.pc.Sees (s.words f.guestOnce) ∧ (s.onceLock = some t ↔ f.pc.locked = true) ∧
      (f.pc.shielded = true → s.cancelEnabled t = false) := by
  have hgood := h.thread t
  rw [hstack] at hgood
  exact ⟨hgood.sees _ rfl, by simpa using hgood.lock, hgood.shield _ rfl⟩

/-- The word of a call that owns it, and its phase. -/
theorem Inv.owns (h : Inv words s) {f : Frame} {rest : List Frame}
    (hstack : s.stacks t = f :: rest) (hclaims : f.pc.claims = true) :
    s.words f.guestOnce = 1 ∧ phase words s.log f.guestOnce = some (f.pc.phase t) :=
  (h.thread t).owns f (by simp [hstack]) hclaims

/-! ## The steps of a call, by what they do -/

section Advance

variable {old : Bool} {pc : Pc} {rest : List Frame}

/-- The four steps that take once_lock when it is free. -/
theorem advance_takes (h : Inv words s) (hstack : s.stacks t = ⟨w, old, pc⟩ :: rest)
    (hpc : pc = .lock ∨ pc = .woken ∨ pc = .lockDone ∨ pc = .lockCancelled)
    (hstep : s.advance t ⟨w, old, pc⟩ rest = some u) : Inv words u := by
  obtain ⟨-, -, hshield⟩ := h.top hstack
  have htakes : ∀ pc' : Pc, s.onceLock = none → pc'.claims = pc.claims →
      (pc.claims = true → pc'.phase t = pc.phase t) → pc'.locked = true →
      (pc'.shielded = true → pc.shielded = true) → pc'.Sees (s.words w) → pc' ≠ .waiting →
      Inv words { s.setStack t (⟨w, old, pc'⟩ :: rest) with onceLock := some t } := by
    intro pc' hfree hclaims hphase hlocked hnow hsees hwaits
    refine h.goto hstack (fun t' ht => LockOf.other (Or.inr rfl) (Or.inl hfree) ht) rfl hclaims
      hphase (by simp [hlocked]) (fun hp => hshield (hnow hp)) hsees (Or.inl ?_)
      (fun heq => absurd heq hwaits)
    obtain rfl | rfl | rfl | rfl := hpc <;> rfl
  obtain rfl | rfl | rfl | rfl := hpc <;>
    simp only [Process.advance, Option.ite_none_right_eq_some, Option.some.injEq] at hstep <;>
    obtain ⟨hfree, rfl⟩ := hstep
  · exact htakes .test hfree rfl (by simp [Pc.claims]) rfl (fun _ => rfl) trivial (by simp)
  · exact htakes .test hfree rfl (by simp [Pc.claims]) rfl (fun _ => rfl) trivial (by simp)
  · exact htakes .storeDone hfree rfl (by simp [Pc.phase]) rfl (by simp [Pc.shielded]) trivial
      (by simp)
  · exact htakes .testCancelled hfree rfl (by simp [Pc.phase]) rfl (by simp [Pc.shielded]) trivial
      (by simp)

/-- The test for a running routine: the caller sleeps or goes on. -/
theorem advance_test (h : Inv words s) (hstack : s.stacks t = ⟨w, old, .test⟩ :: rest)
    (hstep : s.advance t ⟨w, old, .test⟩ rest = some u) : Inv words u := by
  obtain ⟨-, hlocked, hshield⟩ := h.top hstack
  have hmine := hlocked.mpr rfl
  simp only [Process.advance] at hstep
  split at hstep
  case isTrue hone =>
    obtain rfl := Option.some.inj hstep
    exact h.goto hstack (fun t' ht => LockOf.other (Or.inl rfl) (Or.inr hmine) ht) rfl rfl
      (by simp [Pc.claims]) (by simp [Pc.locked]) (fun _ => hshield rfl) trivial (Or.inl rfl)
      (fun _ => hone)
  case isFalse hone =>
    obtain rfl := Option.some.inj hstep
    exact h.goto hstack (fun _ _ => Iff.rfl) rfl rfl (by simp [Pc.claims])
      (by simp [Pc.locked, hmine]) (fun _ => hshield rfl) hone (Or.inl rfl) (by simp)

/-- The test for a finished routine, an invalid word or a fresh one. -/
theorem advance_load (h : Inv words s) (hstack : s.stacks t = ⟨w, old, .load⟩ :: rest)
    (hstep : s.advance t ⟨w, old, .load⟩ rest = some u) : Inv words u := by
  obtain ⟨hsees, hlocked, hshield⟩ := h.top hstack
  have hmine := hlocked.mpr rfl
  have hone : s.words w ≠ 1 := hsees
  have hgoto : ∀ pc : Pc, pc.claims = false → pc.locked = true → pc ≠ .waiting →
      pc.Sees (s.words w) → Inv words (s.setStack t (⟨w, old, pc⟩ :: rest)) := by
    intro pc hclaims hpc hwaits hnow
    exact h.goto hstack (fun _ _ => Iff.rfl) rfl hclaims (by simp [Pc.claims])
      (by simp [hmine, hpc]) (fun _ => hshield rfl) hnow (Or.inl rfl)
      (fun heq => absurd heq hwaits)
  simp only [Process.advance] at hstep
  split at hstep
  case isTrue htwo =>
    obtain rfl := Option.some.inj hstep
    exact hgoto _ rfl rfl (by simp) (Or.inl ⟨rfl, htwo⟩)
  case isFalse htwo =>
    split at hstep
    case isTrue hzero =>
      obtain rfl := Option.some.inj hstep
      exact hgoto _ rfl rfl (by simp) (Or.inr ⟨rfl, hzero, hone, htwo⟩)
    case isFalse hzero =>
      obtain rfl := Option.some.inj hstep
      exact hgoto _ rfl rfl (by simp) (not_not.mp hzero)

/-- A call that runs no routine returns with the lock. -/
theorem advance_leave (h : Inv words s) {result : Errno}
    (hstack : s.stacks t = ⟨w, old, .leave result⟩ :: rest)
    (hstep : s.advance t ⟨w, old, .leave result⟩ rest = some u) : Inv words u := by
  obtain ⟨hsees, hlocked, -⟩ := h.top hstack
  simp only [Process.advance] at hstep
  obtain rfl := Option.some.inj hstep
  apply h.pop hstack (hlocked.mpr rfl) _ _ ?_ rfl rfl (Or.inl rfl)
  have hresult : result = 0 ∧ s.words w = 2 ∨
      result = EINVAL ∧ s.words w ≠ 0 ∧ s.words w ≠ 1 ∧ s.words w ≠ 2 := hsees
  have hone : s.words w ≠ 1 := by
    obtain ⟨_, h2⟩ | ⟨_, _, h1, _⟩ := hresult
    · rw [h2]; decide
    · exact h1
  intro v
  refine phase_returned (h.phase_seen hone) ?_ v
  obtain ⟨h0, h2⟩ | ⟨hE, h0, h1, h2⟩ := hresult
  · exact Or.inl ⟨h0, by rw [h2]; rfl⟩
  · exact Or.inr ⟨hE, by simp [Phase.ofWord, h0, h1, h2]⟩

/-- The store of 1 makes the call the owner of a fresh word. -/
theorem advance_claim (h : Inv words s) (hstack : s.stacks t = ⟨w, old, .claim⟩ :: rest)
    (hstep : s.advance t ⟨w, old, .claim⟩ rest = some u) : Inv words u := by
  obtain ⟨hsees, hlocked, hshield⟩ := h.top hstack
  have hzero : s.words w = 0 := hsees
  have hfree := h.unowned (w := w) (by rw [hzero]; decide)
  have hrest : w ∉ held rest := by simpa [hstack, held_cons, Pc.claims] using hfree t
  have hstart : words w = 0 := by
    by_contra hne
    exact hne (((h.word w).kept hne).1 ▸ hzero)
  simp only [Process.advance] at hstep
  obtain rfl := Option.some.inj hstep
  have hphase : phase words s.log w = some .fresh := by
    rw [h.phase_seen (by rw [hzero]; decide), hzero]
    rfl
  have hwrite := h.write hstack ⟨w, old, .claimed⟩ rfl 1 s.log (s.cancelEnabled t)
    (fun t' _ => hfree t') hrest hstart (fun _ => hlocked.mpr rfl) (fun _ _ => rfl)
    (Or.inl ⟨rfl, rfl, hphase⟩) hlocked (fun _ => hshield rfl) trivial (Or.inl rfl) rfl (by simp)
  simpa [Process.setStack, Process.slotStore, Function.update_eq_self] using hwrite

/-- The owner unlocks and enters the routine, with the cancellation state of its caller. -/
theorem advance_enters (h : Inv words s) (hstack : s.stacks t = ⟨w, old, pc⟩ :: rest)
    (hpc : pc = .claimed ∨ pc = .install) (hstep : s.advance t ⟨w, old, pc⟩ rest = some u) :
    Inv words u := by
  obtain ⟨-, hlocked, hshield⟩ := h.top hstack
  obtain rfl | rfl := hpc
  · have hmine := hlocked.mpr rfl
    simp only [Process.advance] at hstep
    obtain rfl := Option.some.inj hstep
    exact h.goto hstack (fun t' ht => LockOf.other (Or.inl rfl) (Or.inr hmine) ht) rfl rfl
      (by simp [Pc.phase]) (by simp [Pc.locked]) (fun _ => hshield rfl) trivial (Or.inl rfl)
      (by simp)
  · obtain ⟨hone, hphase⟩ := h.owns hstack rfl
    obtain ⟨hothers, hrest, hstart⟩ := h.exclusive hstack rfl
    simp only [Process.advance] at hstep
    obtain rfl := Option.some.inj hstep
    have hwrite := h.write hstack ⟨w, old, .init⟩ rfl (s.words w) (s.log ++ [.entered t w]) old
      hothers hrest hstart (fun hne => absurd rfl hne)
      (fun v hv => phase_note (by simpa [Obs.about] using Ne.symm hv))
      (Or.inl ⟨rfl, hone, by simp [phase_snoc, hphase, Phase.next, Pc.phase]⟩) hlocked
      (by simp [Pc.shielded]) trivial (Or.inl hone) rfl (by simp)
    simpa [Process.setStack, Process.note, Function.update_eq_self] using hwrite

/-- The owner gives the word up, with 2 behind its routine and with 0 in the handler. -/
theorem advance_stores (h : Inv words s) (hstack : s.stacks t = ⟨w, old, pc⟩ :: rest)
    (hpc : pc = .storeDone ∨ pc = .storeCancelled)
    (hstep : s.advance t ⟨w, old, pc⟩ rest = some u) : Inv words u := by
  obtain ⟨-, hlocked, -⟩ := h.top hstack
  obtain rfl | rfl := hpc
  · obtain ⟨-, hphase⟩ := h.owns hstack rfl
    obtain ⟨hothers, hrest, hstart⟩ := h.exclusive hstack rfl
    simp only [Process.advance] at hstep
    obtain rfl := Option.some.inj hstep
    have hwrite := h.write hstack ⟨w, old, .broadcastDone⟩ rfl 2 s.log (s.cancelEnabled t)
      hothers hrest hstart (fun _ => hlocked.mpr rfl) (fun _ _ => rfl)
      (Or.inr ⟨rfl, Or.inr rfl, hphase⟩) hlocked (by simp [Pc.shielded]) rfl (Or.inr rfl) rfl
      (by simp)
    simpa [Process.setStack, Process.slotStore, Function.update_eq_self] using hwrite
  · obtain ⟨-, hphase⟩ := h.owns hstack rfl
    obtain ⟨hothers, hrest, hstart⟩ := h.exclusive hstack rfl
    simp only [Process.advance] at hstep
    obtain rfl := Option.some.inj hstep
    have hwrite := h.write hstack ⟨w, old, .broadcastCancelled⟩ rfl 0
      (s.log ++ [.abandoned t w]) (s.cancelEnabled t) hothers hrest hstart
      (fun _ => hlocked.mpr rfl)
      (fun v hv => phase_note (by simpa [Obs.about] using Ne.symm hv))
      (Or.inr ⟨rfl, Or.inl rfl, by simp [phase_snoc, hphase, Phase.next, Pc.phase, Phase.ofWord]⟩)
      hlocked (by simp [Pc.shielded]) trivial (Or.inr rfl) rfl (by simp)
    simpa [Process.setStack, Process.slotStore, Process.note, Function.update_eq_self] using hwrite

/-- The handler finds the word as its call has left it. -/
theorem advance_testCancelled (h : Inv words s)
    (hstack : s.stacks t = ⟨w, old, .testCancelled⟩ :: rest)
    (hstep : s.advance t ⟨w, old, .testCancelled⟩ rest = some u) : Inv words u := by
  obtain ⟨-, hlocked, -⟩ := h.top hstack
  have hmine := hlocked.mpr rfl
  have hone : s.words w = 1 := (h.owns hstack rfl).1
  simp only [Process.advance, if_pos hone] at hstep
  obtain rfl := Option.some.inj hstep
  exact h.goto hstack (fun _ _ => Iff.rfl) rfl rfl (by simp [Pc.phase])
    (by simp [Pc.locked, hmine]) (by simp [Pc.shielded]) trivial (Or.inl rfl) (by simp)

/-- Nobody sleeps behind a broadcast. -/
theorem advance_broadcasts (h : Inv words s) (hstack : s.stacks t = ⟨w, old, pc⟩ :: rest)
    (hpc : pc = .broadcastDone ∨ pc = .broadcastCancelled)
    (hstep : s.advance t ⟨w, old, pc⟩ rest = some u) : Inv words u := by
  obtain ⟨hsees, hlocked, -⟩ := h.top hstack
  have hsame : s.broadcast.stacks t = ⟨w, old, pc⟩ :: rest := by
    obtain rfl | rfl := hpc <;> simp [Process.broadcast, hstack, Process.awaken]
  obtain rfl | rfl := hpc
  · have hmine := hlocked.mpr rfl
    simp only [Process.advance] at hstep
    obtain rfl := Option.some.inj hstep
    exact h.broadcast.goto hsame (fun _ _ => Iff.rfl) rfl rfl (by simp [Pc.claims])
      (by simp [Pc.locked, Process.broadcast, hmine]) (by simp [Pc.shielded]) hsees
      (Or.inr (not_asleep_broadcast s)) (by simp)
  · have hmine := hlocked.mpr rfl
    simp only [Process.advance] at hstep
    obtain rfl := Option.some.inj hstep
    exact h.broadcast.goto hsame (fun _ _ => Iff.rfl) rfl rfl (by simp [Pc.claims])
      (by simp [Pc.locked, Process.broadcast, hmine]) (by simp [Pc.shielded]) trivial
      (Or.inr (not_asleep_broadcast s)) (by simp)

/-- The last unlock, of a call that has run its routine and of the handler. -/
theorem advance_unlocks (h : Inv words s) (hstack : s.stacks t = ⟨w, old, pc⟩ :: rest)
    (hpc : pc = .unlockDone ∨ pc = .unlockCancelled)
    (hstep : s.advance t ⟨w, old, pc⟩ rest = some u) : Inv words u := by
  obtain ⟨hsees, hlocked, -⟩ := h.top hstack
  obtain rfl | rfl := hpc
  · have htwo : s.words w = 2 := hsees
    simp only [Process.advance] at hstep
    obtain rfl := Option.some.inj hstep
    have hpop := h.pop hstack (hlocked.mpr rfl) (s.cancelEnabled t)
      (s.log ++ [.returned t w 0]) ?_ rfl rfl (Or.inl rfl)
    · simpa [Process.setStack, Process.note, Function.update_eq_self] using hpop
    · intro v
      refine phase_returned (h.phase_seen (by rw [htwo]; decide)) (Or.inl ⟨rfl, ?_⟩) v
      rw [htwo]
      rfl
  · simp only [Process.advance] at hstep
    obtain rfl := Option.some.inj hstep
    have hpop := h.pop hstack (hlocked.mpr rfl) (s.cancelEnabled t) s.log (fun _ => rfl) rfl rfl
      (Or.inr rfl)
    simpa [Process.setStack, Function.update_eq_self] using hpop

theorem advance_inv (h : Inv words s) {f : Frame} (hstack : s.stacks t = f :: rest)
    (hstep : s.advance t f rest = some u) : Inv words u := by
  obtain ⟨w, old, pc⟩ := f
  cases pc with
  | lock | woken | lockDone | lockCancelled => exact advance_takes h hstack (by simp) hstep
  | test => exact advance_test h hstack hstep
  | load => exact advance_load h hstack hstep
  | leave result => exact advance_leave h hstack hstep
  | claim => exact advance_claim h hstack hstep
  | claimed | install => exact advance_enters h hstack (by simp) hstep
  | storeDone | storeCancelled => exact advance_stores h hstack (by simp) hstep
  | testCancelled => exact advance_testCancelled h hstack hstep
  | broadcastDone | broadcastCancelled => exact advance_broadcasts h hstack (by simp) hstep
  | unlockDone | unlockCancelled => exact advance_unlocks h hstack (by simp) hstep
  | waiting | init => simp [Process.advance_rests] at hstep

end Advance

/-- Guest code runs at the top of the stack only. -/
theorem Good.guest {word : Addr → UInt32} {phase : Addr → Option Phase}
    {onceLock : Option Tid} {enabled : Bool}
    (h : Good word phase onceLock enabled t (s.stacks t)) (hguest : s.inGuest t = true) :
    ∀ f ∈ s.stacks t, f.pc = .init := by
  intro f hf
  have hbelow := h.below
  simp only [Process.inGuest] at hguest
  cases hstack : s.stacks t with
  | nil => simp [hstack] at hf
  | cons g rest =>
    simp only [hstack, decide_eq_true_eq, List.tail_cons] at hguest hbelow
    rw [hstack] at hf
    cases List.mem_cons.mp hf with
    | inl heq => exact heq ▸ hguest
    | inr hmem => exact hbelow f hmem

theorem Good.push {word : Addr → UInt32} {phase : Addr → Option Phase}
    {onceLock : Option Tid} {enabled : Bool} {stack : List Frame}
    (h : Good word phase onceLock enabled t stack) (hguest : ∀ f ∈ stack, f.pc = .init)
    (w : Addr) (old : Bool) : Good word phase onceLock false t (⟨w, old, .lock⟩ :: stack) := by
  constructor
  · rw [h.lock]
    cases stack with
    | nil => simp [Pc.locked]
    | cons f rest => simp [Pc.locked, hguest f List.mem_cons_self]
  · exact hguest
  · exact fun _ _ _ => rfl
  · simpa [held_cons, Pc.claims] using h.nodup
  · intro f hf hclaims
    cases List.mem_cons.mp hf with
    | inl heq => simp [heq, Pc.claims] at hclaims
    | inr hmem => exact h.owns f hmem hclaims
  · simp [Pc.Sees]

/-- Guest code may change its own cancellation state. -/
theorem Good.enable {word : Addr → UInt32} {phase phase' : Addr → Option Phase}
    {onceLock : Option Tid} {enabled enabled' : Bool} {stack : List Frame}
    (h : Good word phase onceLock enabled t stack) (hphase : ∀ v, phase' v = phase v)
    (hguest : ∀ f ∈ stack, f.pc = .init) : Good word phase' onceLock enabled' t stack := by
  have hfunext : phase' = phase := funext hphase
  subst hfunext
  refine ⟨h.lock, h.below, ?_, h.nodup, h.owns, h.sees⟩
  intro f hf hshield
  simp [hguest f (List.mem_of_mem_head? hf), Pc.shielded] at hshield

theorem Inv.mark (h : Inv words s) (cancelled : Tid → Bool) : Inv words { s with cancelled } := by
  refine ⟨h.thread, ?_, h.disjoint, h.asleep⟩
  intro w
  have hold := h.word w
  exact ⟨hold.free, hold.kept, hold.owned, hold.range⟩

/-! ## The steps of the callers -/

/-- Guest code calls asm2_pthread_once, with a word or with a null argument. -/
theorem call_inv {guestOnce : Option Addr} {initRoutine : Bool} (h : Inv words s)
    (hstep : step s (.call t guestOnce initRoutine) = some u) : Inv words u := by
  simp only [step, Option.ite_none_right_eq_some] at hstep
  obtain ⟨hguest, hstep⟩ := hstep
  have hinit := (h.thread t).guest hguest
  have hnone : ∀ f ∈ s.stacks t, f.pc.broadcasts = false := by
    intro f hf
    rw [hinit f hf]
    rfl
  split at hstep
  case h_1 w =>
    obtain rfl := Option.some.inj hstep
    apply h.quiet (t := t) _ _ _ (fun _ => rfl)
    · intro v
      simp [held_cons, Pc.claims]
    · exact fun _ _ => Iff.rfl
    · exact (h.thread t).push hinit w _
    · simp
    · exact Or.inl fun f hf => hnone f (List.mem_of_mem_head? hf)
  case h_2 =>
    obtain rfl := Option.some.inj hstep
    have hphase : ∀ v, phase words (s.log ++ [.refused t EINVAL]) v = phase words s.log v :=
      fun v => phase_note rfl
    have hquiet := h.quiet (t := t) (s.stacks t) (s.cancelEnabled t) s.cancelled hphase
      (fun _ => Iff.rfl) (fun _ _ => Iff.rfl) ((h.thread t).enable hphase hinit)
      (fun f hf hpc => by simp [hinit f (List.mem_of_mem_head? hf)] at hpc)
      (Or.inl fun f hf => hnone f (List.mem_of_mem_head? hf))
    simpa [Process.note, Function.update_eq_self] using hquiet

/-- A sleeping caller wakes up, with or without a broadcast. -/
theorem wake_inv (h : Inv words s) (hstep : step s (.wake t) = some u) : Inv words u := by
  simp only [step] at hstep
  split at hstep
  case h_2 => exact absurd hstep (by simp)
  case h_1 f rest hstack =>
    obtain ⟨hpc, hstep⟩ := Option.ite_none_right_eq_some.mp hstep
    obtain rfl := Option.some.inj hstep
    obtain ⟨-, hlock, hshield⟩ := h.top hstack
    exact h.goto hstack (fun _ _ => Iff.rfl) rfl (by simp [hpc, Pc.claims])
      (by simp [hpc, Pc.claims]) (by simpa [hpc, Pc.locked] using hlock)
      (by simpa [hpc, Pc.shielded] using hshield) trivial (Or.inl (by simp [hpc, Pc.broadcasts]))
      (by simp)

/-- The routine of the innermost call returns. -/
theorem initReturns_inv (h : Inv words s) (hstep : step s (.initReturns t) = some u) :
    Inv words u := by
  simp only [step] at hstep
  split at hstep
  case h_2 => exact absurd hstep (by simp)
  case h_1 f rest hstack =>
    obtain ⟨hpc, hstep⟩ := Option.ite_none_right_eq_some.mp hstep
    obtain rfl := Option.some.inj hstep
    obtain ⟨w, old, pc⟩ := f
    obtain rfl : pc = .init := hpc
    obtain ⟨-, hlock, -⟩ := h.top hstack
    obtain ⟨hone, hphase⟩ := h.owns hstack rfl
    obtain ⟨hothers, hrest, hstart⟩ := h.exclusive hstack rfl
    have hwrite := h.write hstack ⟨w, old, .lockDone⟩ rfl (s.words w)
      (s.log ++ [.completed t w]) (s.cancelEnabled t) hothers hrest hstart
      (fun hne => absurd rfl hne) (fun v hv => phase_note (by simpa [Obs.about] using Ne.symm hv))
      (Or.inl ⟨rfl, hone, by simp [phase_snoc, hphase, Phase.next, Pc.phase]⟩)
      (by simpa [Pc.locked] using hlock) (by simp [Pc.shielded]) trivial (Or.inl hone) rfl
      (by simp)
    simpa [Process.setStack, Process.note, Function.update_eq_self] using hwrite

theorem setCancelState_inv {enabled : Bool} (h : Inv words s)
    (hstep : step s (.setCancelState t enabled) = some u) : Inv words u := by
  obtain ⟨hguest, hstep⟩ := Option.ite_none_right_eq_some.mp hstep
  obtain rfl := Option.some.inj hstep
  have hinit := (h.thread t).guest hguest
  have hquiet := h.quiet (t := t) (s.stacks t) enabled s.cancelled (fun _ => rfl)
    (fun _ => Iff.rfl) (fun _ _ => Iff.rfl) ((h.thread t).enable (fun _ => rfl) hinit)
    (fun f hf hpc => by simp [hinit f (List.mem_of_mem_head? hf)] at hpc)
    (Or.inl fun f hf => by rw [hinit f (List.mem_of_mem_head? hf)]; rfl)
  simpa [Function.update_eq_self] using hquiet

/-- Cancellation is taken in a routine or outside of every call. -/
theorem cancel_inv (h : Inv words s) (hstep : step s (.cancel t) = some u) : Inv words u := by
  simp only [step, Option.ite_none_right_eq_some] at hstep
  obtain ⟨⟨henabled, _⟩, hstep⟩ := hstep
  split at hstep
  case h_1 hstack =>
    obtain rfl := Option.some.inj hstep
    exact h.mark _
  case h_2 f rest hstack =>
    obtain ⟨-, hlock, hshield⟩ := h.top hstack
    split at hstep
    case isTrue hpc =>
      obtain rfl := Option.some.inj hstep
      obtain ⟨w, old, pc⟩ := f
      obtain rfl : pc = .init := hpc
      have hgoto : Inv words (s.setStack t (⟨w, old, .lockCancelled⟩ :: rest)) :=
        h.goto hstack (fun _ _ => Iff.rfl) rfl rfl (by simp [Pc.phase])
          (by simpa [Pc.locked] using hlock) (by simp [Pc.shielded]) trivial
          (Or.inl rfl) (by simp)
      exact hgoto.mark _
    case isFalse hpc =>
      -- a caller that sleeps has cancellation disabled
      obtain ⟨⟨hwaiting, _⟩, _⟩ := Option.ite_none_right_eq_some.mp hstep
      have hdisabled := hshield (by simp [hwaiting, Pc.shielded])
      simp [hdisabled] at henabled

theorem step_inv {e : Event} (h : Inv words s) (hstep : step s e = some u) : Inv words u := by
  cases e with
  | call t guestOnce initRoutine => exact call_inv h hstep
  | move t =>
    cases hstack : s.stacks t with
    | nil => simp [step_move_idle hstack] at hstep
    | cons f rest => exact advance_inv h hstack (by simpa only [step, hstack] using hstep)
  | wake t => exact wake_inv h hstep
  | initReturns t => exact initReturns_inv h hstep
  | setCancelState t enabled => exact setCancelState_inv h hstep
  | cancel t => exact cancel_inv h hstep

/-! ## What callers can rely on -/

theorem run_inv {cancelEnabled : Tid → Bool} {es : List Event}
    (hrun : run step (initial words cancelEnabled) es = some s) : Inv words s :=
  run_invariant (fun _ _ _ => step_inv) (inv_initial words cancelEnabled) hrun

/-- The observations of every word are in order. -/
theorem Inv.orderly (h : Inv words s) (w : Addr) : ∃ p, phase words s.log w = some p := by
  by_cases howned : ∃ t, w ∈ held (s.stacks t)
  · obtain ⟨t, hmem⟩ := howned
    obtain ⟨f, hf, rfl, hclaims⟩ := mem_held.mp hmem
    exact ⟨_, ((h.thread t).owns f hf hclaims).2⟩
  · exact ⟨_, (h.word w).free fun t ht => howned ⟨t, ht⟩⟩

theorem Phase.next_returned {p q : Phase} {result : Errno}
    (h : p.next w (.returned t w result) = some q) :
    q = p ∧ (result = 0 ∧ p = .done ∨ result = EINVAL ∧ p = .invalid) := by
  simp only [Phase.next, if_true, Option.ite_none_right_eq_some, Option.some.injEq] at h
  exact ⟨h.2.symm, h.1⟩

theorem Phase.ofWord_done {word : UInt32} (h : Phase.ofWord word = .done) : word = 2 := by
  unfold Phase.ofWord at h
  split_ifs at h with h0 h1 h2
  exact h2

theorem Phase.ofWord_fresh {word : UInt32} (h : Phase.ofWord word = .fresh) : word = 0 := by
  unfold Phase.ofWord at h
  split_ifs at h with h0
  exact h0

/-- A call has succeeded only after an execution has completed. -/
theorem Inv.success (h : Inv words s) :
    Throughout (fun before o => ∀ t w, o = .returned t w 0 →
      words w = 2 ∨ ∃ t', .completed t' w ∈ before) s.log := by
  rintro before o after hlog t w rfl
  obtain ⟨p, hp⟩ := h.orderly w
  rw [hlog] at hp
  obtain ⟨q, r, hq, hr, _⟩ := phase_split hp
  obtain ⟨_, hdone | hinvalid⟩ := Phase.next_returned hr
  · rw [hdone.2] at hq
    exact (completed_of_done hq).imp Phase.ofWord_done id
  · exact absurd hinvalid.1 (by decide)

/-- Once an execution has completed, no routine is entered for the word. -/
theorem Inv.once (h : Inv words s) (t : Tid) (w : Addr) :
    Since (· = .completed t w) (fun after => ∀ t', .entered t' w ∉ after) s.log := by
  rintro before o after hlog rfl
  obtain ⟨p, hp⟩ := h.orderly w
  rw [hlog] at hp
  obtain ⟨q, r, _, hr, hafter⟩ := phase_split hp
  have hdone : r = .done := by
    simp only [Phase.next, if_true, Option.ite_none_right_eq_some, Option.some.injEq] at hr
    exact hr.2.symm
  subst r
  exact (Phase.Final.run (Or.inl rfl) hafter).2

/-- The call owns the word and is on its way into the routine. -/
def Process.Entering (s : Process) (t : Tid) (w : Addr) : Prop :=
  ∃ f ∈ (s.stacks t).head?, f.guestOnce = w ∧ (f.pc = .claimed ∨ f.pc = .install)

/-- What an observed abandoned execution leaves to the other callers. -/
def Reopened (w : Addr) (after : List Obs) : Prop :=
  ∀ t mid rest, after = mid ++ .returned t w 0 :: rest →
    (∃ t', .entered t' w ∈ mid) ∧ ∃ t', .completed t' w ∈ mid

theorem Inv.abandoned (h : Inv words s) {before after : List Obs}
    (hlog : s.log = before ++ .abandoned t w :: after) :
    Reopened w after ∧
      ((∀ t', .entered t' w ∉ after) → s.words w = 0 ∨ ∃ t', s.Entering t' w) := by
  obtain ⟨p, hp⟩ := h.orderly w
  have hwhole := hp
  rw [hlog] at hp
  obtain ⟨q, r, _, hr, hafter⟩ := phase_split hp
  have hfresh : r = .fresh := by
    simp only [Phase.next, if_true, Option.ite_none_right_eq_some, Option.some.injEq] at hr
    exact hr.2.symm
  subst r
  constructor
  · rintro t' mid rest rfl
    rw [List.foldlM_append] at hafter
    obtain ⟨m, hm, hrest⟩ := Option.bind_eq_some_iff.mp hafter
    rw [List.foldlM_cons] at hrest
    obtain ⟨n, hn, _⟩ := Option.bind_eq_some_iff.mp hrest
    obtain ⟨_, hdone | hinvalid⟩ := Phase.next_returned hn
    · rw [hdone.2] at hm
      obtain hcompleted := (completed_of_done hm).resolve_left (by simp)
      obtain ⟨t₁, ht₁⟩ := hcompleted
      exact ⟨entered_of_completed hm ht₁, t₁, ht₁⟩
    · exact absurd hinvalid.1 (by decide)
  · intro hnone
    have hp' : p = .fresh := fresh_of_not_entered hafter hnone
    subst p
    by_cases howned : ∃ t, w ∈ held (s.stacks t)
    · obtain ⟨t', hmem⟩ := howned
      obtain ⟨f, hf, rfl, hclaims⟩ := mem_held.mp hmem
      have hphase := ((h.thread t').owns f hf hclaims).2
      rw [hwhole] at hphase
      have hpc : f.pc = .claimed ∨ f.pc = .install := by
        cases hfpc : f.pc <;> simp_all [Pc.claims, Pc.phase]
      refine Or.inr ⟨t', f, ?_, rfl, hpc⟩
      -- outer calls are inside their routines
      have hbelow := (h.thread t').below
      cases hstack : s.stacks t' with
      | nil => simp [hstack] at hf
      | cons g rest =>
        rw [hstack] at hf hbelow
        cases List.mem_cons.mp hf with
        | inl heq => simp [heq]
        | inr hrest => simp [hbelow f hrest] at hpc
    · have hword := (h.word w).free fun t ht => howned ⟨t, ht⟩
      rw [hwhole, Option.some.injEq] at hword
      exact Or.inl (Phase.ofWord_fresh hword.symm)

/-- No wakeup is lost: a thread sleeps only while its word is 1, or until the
holder of once_lock broadcasts. -/
theorem Inv.awake (h : Inv words s) (hfree : s.onceLock = none) (hw : s.words w ≠ 1) (t : Tid) :
    ¬ s.Asleep t w := by
  intro hasleep
  cases h.asleep t w hasleep with
  | inl hone => exact hw hone
  | inr hpending =>
    obtain ⟨t', f, hf, hb⟩ := hpending
    have hlocked : f.pc.locked = true := by
      cases hpc : f.pc <;> simp_all [Pc.broadcasts, Pc.locked]
    have hlock := (h.thread t').lock.mpr ⟨f, hf, hlocked⟩
    rw [hfree] at hlock
    cases hlock

/-- The holder of once_lock is never blocked. -/
theorem Inv.holder_moves (h : Inv words s) (hlock : s.onceLock = some t) :
    (step s (.move t)).isSome := by
  obtain ⟨f, hf, hlocked⟩ := (h.thread t).lock.mp hlock
  cases hstack : s.stacks t with
  | nil => simp [hstack] at hf
  | cons g rest =>
    obtain rfl : g = f := by simpa [hstack] using hf
    simp only [step, hstack]
    cases hpc : g.pc <;> simp_all [Process.advance, Pc.locked] <;> split_ifs <;> rfl

/-- A cancelled execution puts the word back and wakes every caller. -/
theorem Inv.cleanup (h : Inv words s) {f : Frame} {rest : List Frame}
    (hstack : s.stacks t = f :: rest) (hpc : f.pc = .lockCancelled) (hfree : s.onceLock = none) :
    ∃ u, run step s (List.replicate 5 (.move t)) = some u ∧ u.words f.guestOnce = 0 ∧
      u.onceLock = none ∧ ∀ t', ¬ u.Asleep t' f.guestOnce := by
  obtain ⟨w, old, pc⟩ := f
  obtain rfl : pc = .lockCancelled := hpc
  have hgood := h.thread t
  rw [hstack] at hgood
  have hone : s.words w = 1 := (hgood.owns _ List.mem_cons_self rfl).1
  obtain ⟨u, hrun, hword, hlock⟩ : ∃ u, run step s (List.replicate 5 (.move t)) = some u ∧
      u.words w = 0 ∧ u.onceLock = none := by
    simp [List.replicate, run, step, hstack, Process.advance, hfree, hone, Process.slotStore,
      Process.note, Process.broadcast, Process.awaken]
  have hinv : Inv words u := run_invariant (fun _ _ _ => step_inv) h hrun
  exact ⟨u, hrun, hword, hlock, hinv.awake hlock (by rw [hword]; decide)⟩

/-- A caller that finds the word 0 runs its routine. -/
theorem enters_of_zero (hcalling : s.Calling t w) (hword : s.words w = 0)
    (hfree : s.onceLock = none) :
    ∃ u, run step s (List.replicate 6 (.move t)) = some u ∧ u.Inside t w := by
  obtain ⟨⟨w, old, pc⟩, hf, rfl, hpc⟩ := hcalling
  cases hstack : s.stacks t with
  | nil => simp [hstack] at hf
  | cons g rest =>
    obtain rfl : g = ⟨w, old, pc⟩ := by simpa [hstack] using hf
    simp only at hpc hword
    obtain rfl | rfl := hpc <;>
      simp [List.replicate, run, step, hstack, Process.advance, hfree, hword, Process.slotStore,
        Process.note, Process.Inside]

/-- A caller that finds another word is refused. -/
theorem refused_of_invalid (hcalling : s.Calling t w) (h0 : s.words w ≠ 0) (h1 : s.words w ≠ 1)
    (h2 : s.words w ≠ 2) (hfree : s.onceLock = none) :
    ∃ u, run step s (List.replicate 4 (.move t)) = some u ∧ u.words = s.words ∧
      u.log = s.log ++ [.returned t w EINVAL] := by
  obtain ⟨⟨w, old, pc⟩, hf, rfl, hpc⟩ := hcalling
  cases hstack : s.stacks t with
  | nil => simp [hstack] at hf
  | cons g rest =>
    obtain rfl : g = ⟨w, old, pc⟩ := by simpa [hstack] using hf
    simp only at hpc h0 h1 h2
    obtain rfl | rfl := hpc <;>
      simp [List.replicate, run, step, hstack, Process.advance, hfree, h0, h1, h2, Process.note]

/-- A word that did not start as 0 is never written, and its only results are
those of its value. -/
theorem Inv.fixed (h : Inv words s) (hw : words w ≠ 0) :
    s.words w = words w ∧ (∀ t, .entered t w ∉ s.log) ∧
      ∀ t result, .returned t w result ∈ s.log →
        result = 0 ∧ words w = 2 ∨ result = EINVAL ∧ words w ≠ 1 ∧ words w ≠ 2 := by
  have hfinal : (Phase.ofWord (words w)).Final := by
    by_cases h1 : words w = 1
    · exact Or.inr (Or.inl (by rw [h1]; rfl))
    by_cases h2 : words w = 2
    · exact Or.inl (by rw [h2]; rfl)
    · exact Or.inr (Or.inr (by simp [Phase.ofWord, hw, h1, h2]))
  obtain ⟨p, hp⟩ := h.orderly w
  refine ⟨((h.word w).kept hw).1, (hfinal.run hp).2, ?_⟩
  intro t result hmem
  obtain ⟨before, after, hlog⟩ := List.append_of_mem hmem
  rw [hlog] at hp
  obtain ⟨q, r, hq, hr, _⟩ := phase_split hp
  obtain ⟨rfl, _⟩ := hfinal.run hq
  obtain ⟨_, hdone | hinvalid⟩ := Phase.next_returned hr
  · exact Or.inl ⟨hdone.1, Phase.ofWord_done hdone.2⟩
  · refine Or.inr ⟨hinvalid.1, ?_, ?_⟩
    · intro h1
      simp [h1, Phase.ofWord] at hinvalid
    · intro h2
      simp [h2, Phase.ofWord] at hinvalid

/-- At most one execution at a time, in all threads and in the calls of each. -/
theorem Inv.inside_unique (h : Inv words s) (w : Addr) :
    (∀ t t', s.Inside t w → s.Inside t' w → t = t') ∧
      ∀ t, ((s.stacks t).filter fun f => f.guestOnce = w ∧ f.pc = .init).length ≤ 1 := by
  constructor
  · rintro t t' ⟨f, hf, rfl, hpc⟩ ⟨g, hg, hgw, hgpc⟩
    apply h.disjoint t t' f.guestOnce
    · exact mem_held.mpr ⟨f, hf, rfl, by simp [hpc, Pc.claims]⟩
    · exact mem_held.mpr ⟨g, hg, hgw, by simp [hgpc, Pc.claims]⟩
  · intro t
    have hcount := List.nodup_iff_count.mp (h.thread t).nodup w
    rw [held, List.count_eq_length_filter, List.filter_map, List.length_map,
      List.filter_filter] at hcount
    refine Nat.le_trans (List.Sublist.length_le (List.monotone_filter_right _ ?_)) hcount
    intro f hf
    obtain ⟨hw, hpc⟩ := of_decide_eq_true hf
    simp [hw, hpc, Pc.claims]

/-- What asm2_pthread_once promises in a state that calls have led to, where
`words` are the values that the control words started with. -/
structure RunsOnce (words : Addr → UInt32) (s : Process) : Prop where
  /-- At most one thread is inside a routine for the word, in one call. -/
  exclusive : ∀ w, (∀ t t', s.Inside t w → s.Inside t' w → t = t') ∧
    ∀ t, ((s.stacks t).filter fun f => f.guestOnce = w ∧ f.pc = .init).length ≤ 1
  /-- A word that starts as 1 is never runnable. -/
  stuck : ∀ w, words w = 1 → s.words w = 1 ∧ (∀ t, .entered t w ∉ s.log) ∧
    ∀ t result, .returned t w result ∉ s.log
  /-- A call returns 0 only after a completed execution, or if the word started as 2. -/
  success : Throughout (fun before o => ∀ t w, o = .returned t w 0 →
    words w = 2 ∨ ∃ t', .completed t' w ∈ before) s.log
  /-- After a completed execution no routine is entered for the word. -/
  once : ∀ t w, Since (· = .completed t w) (fun after => ∀ t', .entered t' w ∉ after) s.log
  /-- After an abandoned execution the word is 0, until a caller goes to run its
  routine; no call succeeds before a routine has run. -/
  reopened : ∀ t w before after, s.log = before ++ .abandoned t w :: after →
    Reopened w after ∧
      ((∀ t', .entered t' w ∉ after) → s.words w = 0 ∨ ∃ t', s.Entering t' w)
  /-- The handler of a cancelled thread gets to that point and wakes the callers. -/
  cleanup : ∀ t f rest, s.stacks t = f :: rest → f.pc = .lockCancelled → s.onceLock = none →
    ∃ u, run step s (List.replicate 5 (.move t)) = some u ∧ u.words f.guestOnce = 0 ∧
      u.onceLock = none ∧ ∀ t', ¬ u.Asleep t' f.guestOnce
  /-- No caller sleeps on a word that it could take. -/
  awake : s.onceLock = none → ∀ w, s.words w ≠ 1 → ∀ t, ¬ s.Asleep t w
  /-- The next caller of a word that is 0 runs its routine. -/
  taken : ∀ t w, s.Calling t w → s.words w = 0 → s.onceLock = none →
    ∃ u, run step s (List.replicate 6 (.move t)) = some u ∧ u.Inside t w
  /-- The holder of once_lock is never blocked. -/
  unblocked : ∀ t, s.onceLock = some t → (step s (.move t)).isSome
  /-- A word other than 0, 1 and 2 is never written, and calls only fail with EINVAL. -/
  invalid : ∀ w, words w ≠ 0 → words w ≠ 1 → words w ≠ 2 → s.words w = words w ∧
    (∀ t, .entered t w ∉ s.log) ∧ ∀ t result, .returned t w result ∈ s.log → result = EINVAL
  refused : ∀ t w, s.Calling t w → s.words w ≠ 0 → s.words w ≠ 1 → s.words w ≠ 2 →
    s.onceLock = none → ∃ u, run step s (List.replicate 4 (.move t)) = some u ∧
      u.words = s.words ∧ u.log = s.log ++ [.returned t w EINVAL]
  /-- Only those words are invalid. -/
  range : ∀ w, words w = 0 → s.words w = 0 ∨ s.words w = 1 ∨ s.words w = 2

/-- Every interleaving of calls, routines and cancellations keeps the promise. -/
theorem pthread_once_runs_once {words : Addr → UInt32} {cancelEnabled : Tid → Bool}
    {es : List Event} {s : Process}
    (hrun : run step (initial words cancelEnabled) es = some s) : RunsOnce words s := by
  have hinv := run_inv hrun
  constructor
  · exact hinv.inside_unique
  · intro w hw
    obtain ⟨hword, hentered, hreturned⟩ := hinv.fixed (w := w) (by rw [hw]; decide)
    refine ⟨hword.trans hw, hentered, ?_⟩
    intro t result hmem
    obtain ⟨_, htwo⟩ | ⟨_, hone, _⟩ := hreturned t result hmem
    · rw [hw] at htwo
      exact absurd htwo (by decide)
    · exact hone hw
  · exact hinv.success
  · exact hinv.once
  · exact fun t w before after hlog => hinv.abandoned hlog
  · exact fun t f rest hstack hpc hfree => hinv.cleanup hstack hpc hfree
  · exact fun hfree w hw => hinv.awake hfree hw
  · exact fun t w hcalling hword hfree => enters_of_zero hcalling hword hfree
  · exact fun t hlock => hinv.holder_moves hlock
  · intro w h0 h1 h2
    obtain ⟨hword, hentered, hreturned⟩ := hinv.fixed h0
    refine ⟨hword, hentered, ?_⟩
    intro t result hmem
    obtain ⟨_, htwo⟩ | ⟨hresult, _⟩ := hreturned t result hmem
    · exact absurd htwo h2
    · exact hresult
  · exact fun t w hcalling h0 h1 h2 hfree => refused_of_invalid hcalling h0 h1 h2 hfree
  · exact fun w hw => (hinv.word w).range hw

/-- Thread 1 is cancelled inside the routine while thread 2 sleeps on the word,
which then runs the routine and succeeds. -/
def contested : List Event :=
  [.call 1 (some 7) true] ++ List.replicate 6 (.move 1) ++
  [.call 2 (some 7) true, .move 2, .move 2, .cancel 1] ++ List.replicate 5 (.move 1) ++
  List.replicate 6 (.move 2) ++ [.initReturns 2] ++ List.replicate 4 (.move 2)

theorem pthread_once_runs_once_contested :
    ∃ s, run step (initial (fun _ => 0) fun _ => true) contested = some s ∧
      s.log = [.entered 1 7, .abandoned 1 7, .entered 2 7, .completed 2 7, .returned 2 7 0] ∧
      s.words 7 = 2 ∧ RunsOnce (fun _ => 0) s := by
  have hlog : (run step (initial (fun _ => 0) fun _ => true) contested).map
      (fun s => (s.log, s.words 7)) =
      some ([.entered 1 7, .abandoned 1 7, .entered 2 7, .completed 2 7, .returned 2 7 0], 2) := by
    decide +kernel
  obtain ⟨s, hrun, hs⟩ := Option.map_eq_some_iff.mp hlog
  obtain ⟨hobs, hword⟩ := Prod.mk.inj hs
  exact ⟨s, hrun, hobs, hword, pthread_once_runs_once hrun⟩

end Asm2Runtime.Once
