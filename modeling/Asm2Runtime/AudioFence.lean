import Asm2Runtime.AudioStream
import Asm2Runtime.EventLog
import Mathlib.Data.List.Induction

/-!
# Generations of callbacks

Every operation that starts a new generation leaves a mark in the log. The fence ties
the counters of the player to the marks: how many generations passed since the
callback in flight was dequeued, which registration is current, and how many
completions came and went since each mark.
-/

namespace Asm2Runtime.AudioPlayer

open Transition EventLog

section Marks

/-- The operations that start a new generation. -/
def Obs.isBump : Obs → Bool
  | .stateSet .stopped => true
  | .cleared _ => true
  | .registered _ _ => true
  | .destroyed => true
  | _ => false

/-- The number of generations that passed since the callback in flight was dequeued. -/
def flightPost (n : Option Nat) : Obs → Option Nat
  | .dequeued (some _) _ => some 0
  | .finished => none
  | o => if o.isBump then n.map (· + 1) else n

def flight (log : List Obs) : Option Nat := log.foldl flightPost none

def registrationPost (r : Option GuestFunction × Context) : Obs → Option GuestFunction × Context
  | .registered callback context => (callback, context)
  | .destroyed => (none, 0)
  | _ => r

/-- The pair of the last RegisterCallback. -/
def registration (start : Option GuestFunction × Context) (log : List Obs) :
    Option GuestFunction × Context :=
  log.foldl registrationPost start

/-- The completions that an observation adds. -/
def Obs.arrivals : Obs → Nat
  | .played _ _ completed _ => completed
  | .recovery => 1
  | _ => 0

/-- The completions that it takes. -/
def Obs.taken : Obs → Nat
  | .dequeued _ _ => 1
  | _ => 0

def arrivals (log : List Obs) : Nat := (log.map Obs.arrivals).sum

def taken (log : List Obs) : Nat := (log.map Obs.taken).sum

/-- During no callback do 2^32 generations pass. -/
def Bounded (log : List Obs) : Prop :=
  ∀ before after n, log = before ++ after → flight before = some n → n < 2 ^ 32

variable {log : List Obs} {o : Obs} {start : Option GuestFunction × Context}

theorem flight_snoc : flight (log ++ [o]) = flightPost (flight log) o := by
  rw [flight, List.foldl_append]
  rfl

theorem registration_snoc :
    registration start (log ++ [o]) = registrationPost (registration start log) o := by
  rw [registration, List.foldl_append]
  rfl

theorem arrivals_snoc : arrivals (log ++ [o]) = arrivals log + o.arrivals := by
  simp [arrivals]

theorem taken_snoc : taken (log ++ [o]) = taken log + o.taken := by
  simp [taken]

theorem Bounded.init (h : Bounded (log ++ [o])) : Bounded log := by
  intro before after n hsplit hn
  apply h before (after ++ [o]) n _ hn
  rw [hsplit, List.append_assoc]

theorem Bounded.flight_lt (h : Bounded log) {n : Nat} (hn : flight log = some n) : n < 2 ^ 32 :=
  h log [] n (List.append_nil log).symm hn

theorem flightPost_cases (n : Option Nat) (o : Obs) : flightPost n o = none ∨
    (flightPost n o = some 0 ∧ ∃ f c, o = .dequeued (some f) c) ∨ flightPost n o = n ∨
    flightPost n o = n.map (· + 1) := by
  unfold flightPost
  split
  case h_1 f c => exact Or.inr (Or.inl ⟨rfl, f, c, rfl⟩)
  case h_2 => exact Or.inl rfl
  case h_3 =>
    split
    case isTrue => exact Or.inr (Or.inr (Or.inr rfl))
    case isFalse => exact Or.inr (Or.inr (Or.inl rfl))

theorem flight_le_length (log : List Obs) : ∀ n, flight log = some n → n ≤ log.length := by
  induction log using List.reverseRecOn with
  | nil =>
    intro n hn
    cases hn
  | append_singleton log o ih =>
    intro n hn
    rw [flight_snoc] at hn
    rw [List.length_append, List.length_singleton]
    obtain hnone | ⟨hzero, _⟩ | hsame | hsucc := flightPost_cases (flight log) o
    · rw [hnone] at hn
      cases hn
    · rw [hzero] at hn
      cases hn
      exact Nat.zero_le _
    · rw [hsame] at hn
      exact Nat.le_succ_of_le (ih n hn)
    · rw [hsucc] at hn
      obtain ⟨m, hm, rfl⟩ := Option.map_eq_some_iff.1 hn
      exact Nat.succ_le_succ (ih m hm)

/-- A short log is within the bound. -/
theorem bounded_of_length (h : log.length < 2 ^ 32) : Bounded log := by
  intro before after n hsplit hn
  have hle := flight_le_length before n hn
  rw [hsplit, List.length_append] at h
  omega

theorem flightPost_bump (n : Option Nat) (ho : o.isBump = true) :
    flightPost n o = n.map (· + 1) := by
  cases o with
  | dequeued f c => cases ho
  | finished => cases ho
  | _ => simp [flightPost, ho]

/-- What neither starts a generation nor has to do with callbacks. -/
def Obs.isPassive : Obs → Bool
  | .enqueued _ _ => true
  | .refused _ _ => true
  | .played _ _ _ _ => true
  | .stateSet .paused => true
  | .stateSet .playing => true
  | .recovery => true
  | .released => true
  | _ => false

theorem flightPost_passive (n : Option Nat) (ho : o.isPassive = true) : flightPost n o = n := by
  cases o with
  | stateSet state => cases state <;> first | rfl | cases ho
  | _ => first | rfl | cases ho

theorem registrationPost_passive (r : Option GuestFunction × Context) (ho : o.isPassive = true) :
    registrationPost r o = r := by
  cases o <;> first | rfl | cases ho

end Marks

section Fence

/-- Between the section that takes a completion and the one that finishes the callback. -/
def WorkerPc.isBusy : WorkerPc → Bool
  | .dispatched _ _ _ => true
  | .inCallback _ _ _ => true
  | _ => false

/-- The last completion was taken for this pair, which was registered then, and no callback has
been invoked since. -/
def Dispatched (start : Option GuestFunction × Context) (f : GuestFunction) (c : Context)
    (log : List Obs) : Prop :=
  ∃ before after, log = before ++ .dequeued (some f) c :: after ∧
    registration start before = (some f, c) ∧
    (∀ g d, .dequeued g d ∉ after) ∧ ∀ g d, .invoked g d ∉ after

def DestroyPc.thread : DestroyPc → Option (ThreadId × Bool)
  | .none => Option.none
  | .locked u deferred => some (u, deferred)
  | .closed u deferred => some (u, deferred)
  | .returned u deferred => some (u, deferred)

/-- Destroy has returned to a thread other than the worker. -/
def Obs.IsJoin (cfg : Config) (o : Obs) : Prop :=
  ∃ u, u ≠ cfg.workerThread ∧ o = .destroyReturned u

/-- What the log itself says. -/
structure History (cfg : Config) (start : Option GuestFunction × Context) (log : List Obs) :
    Prop where
  invoked : Throughout (fun before o => ∀ f d, o = .invoked f d → Dispatched start f d before) log
  accepted : Bounded log → Throughout (fun before o =>
    ∀ data, o = .enqueued cfg.workerThread data → flight before = some 0) log
  silent : Since (Obs.IsJoin cfg) (fun after => ∀ f d, .invoked f d ∉ after) log

structure Fence (cfg : Config) (start : Option GuestFunction × Context) (c : Control)
    (log : List Obs) : Prop where
  history : History cfg start log
  thread : c.threadId = if c.worker = .start then none else some cfg.workerThread
  busy : c.inFlight = c.worker.isBusy
  flying : (flight log).isSome = c.worker.isBusy
  generation : ∀ n, flight log = some n → c.generation = c.inFlightGeneration + UInt32.ofNat n
  registered : registration start log = (c.callback, c.context)
  dispatched : ∀ f d n, c.worker = .dispatched f d n → Dispatched start f d log
  /-- Since every mark no more completions were taken than arrived. -/
  credit : Since (fun o => o.isBump = true)
    (fun after => taken after + c.pending.toNat ≤ arrivals after) log
  deferred : ∀ u d, c.destroyer.thread = some (u, d) → (d = true ↔ u = cfg.workerThread)
  returned : ∀ u, .destroyReturned u ∈ log → ∃ d, c.destroyer = .returned u d
  joined : ∀ u d, c.destroyer = .returned u d → u ≠ cfg.workerThread → c.worker = .exited

variable {cfg : Config} {start : Option GuestFunction × Context} {c : Control} {log : List Obs}
  {o : Obs}

/-- An entry that neither takes a completion nor invokes a callback. -/
theorem Dispatched.snoc {f : GuestFunction} {d : Context} (h : Dispatched start f d log)
    (htaken : ∀ g e, o ≠ .dequeued g e) (hinvoked : ∀ g e, o ≠ .invoked g e) :
    Dispatched start f d (log ++ [o]) := by
  obtain ⟨before, after, rfl, hregistered, hdequeued, hrest⟩ := h
  refine ⟨before, after ++ [o], by simp, hregistered, ?_, ?_⟩
  · intro g e hm
    cases List.mem_append.1 hm with
    | inl hm => exact hdequeued g e hm
    | inr hm => exact htaken g e (List.mem_singleton.1 hm).symm
  · intro g e hm
    cases List.mem_append.1 hm with
    | inl hm => exact hrest g e hm
    | inr hm => exact hinvoked g e (List.mem_singleton.1 hm).symm

theorem History.snoc (h : History cfg start log)
    (hinvoked : ∀ f d, o = .invoked f d →
      Dispatched start f d log ∧ ∀ p ∈ log, ¬ Obs.IsJoin cfg p)
    (haccepted : ∀ data, o = .enqueued cfg.workerThread data → Bounded log →
      flight log = some 0) : History cfg start (log ++ [o]) := by
  constructor
  · exact h.invoked.snoc fun f d ho => (hinvoked f d ho).1
  · intro hbound
    exact (h.accepted hbound.init).snoc fun data ho => haccepted data ho hbound.init
  · by_cases ho : ∃ f d, o = .invoked f d
    · obtain ⟨f, d, rfl⟩ := ho
      apply Since.of_none
      intro p hp
      cases List.mem_append.1 hp with
      | inl hp => exact (hinvoked f d rfl).2 p hp
      | inr hp =>
        rw [List.mem_singleton.1 hp]
        rintro ⟨u, _, hu⟩
        cases hu
    · refine h.silent.snoc ?_ ?_
      · intro after hafter f d hm
        cases List.mem_append.1 hm with
        | inl hm => exact hafter f d hm
        | inr hm => exact ho ⟨f, d, (List.mem_singleton.1 hm).symm⟩
      · intro _ f d hm
        cases hm

/-- The entries with which nothing has to be shown. -/
theorem History.plain (h : History cfg start log) (hinvoked : ∀ f d, o ≠ .invoked f d)
    (haccepted : ∀ data, o ≠ .enqueued cfg.workerThread data) : History cfg start (log ++ [o]) :=
  h.snoc (fun f d ho => absurd ho (hinvoked f d)) fun data ho => absurd ho (haccepted data)

theorem Fence.initial (cfg : Config) (callback : Option GuestFunction) (context : Context)
    (generation : UInt32) : Fence cfg (callback, context)
      (System.initial callback context generation).control [] where
  history := ⟨Throughout.nil _, fun _ => Throughout.nil _, Since.nil _ _⟩
  thread := rfl
  busy := rfl
  flying := rfl
  generation := by
    intro n hn
    cases hn
  registered := rfl
  dispatched := by
    intro f d n hn
    cases hn
  credit := Since.nil _ _
  deferred := by
    intro u d hd
    cases hd
  returned := by
    intro u hu
    cases hu
  joined := by
    intro u d hd
    cases hd

theorem not_join_of_mem (h : Fence cfg start c log) (hw : c.worker ≠ .exited) :
    ∀ p ∈ log, ¬ Obs.IsJoin cfg p := by
  intro p hp hjoin
  obtain ⟨u, hu, rfl⟩ := hjoin
  obtain ⟨d, hd⟩ := h.returned u hp
  exact hw (h.joined u d hd hu)

theorem returned_snoc (h : Fence cfg start c log) (ho : ∀ u, o ≠ .destroyReturned u) :
    ∀ u, .destroyReturned u ∈ log ++ [o] → ∃ d, c.destroyer = .returned u d := by
  intro u hm
  cases List.mem_append.1 hm with
  | inl hm => exact h.returned u hm
  | inr hm => exact absurd (List.mem_singleton.1 hm).symm (ho u)

/-- An entry that has nothing to do with generations and callbacks. -/
theorem Fence.passive (h : Fence cfg start c log) (ho : o.isPassive = true)
    (haccepted : ∀ data, o = .enqueued cfg.workerThread data → Bounded log → flight log = some 0)
    {n : UInt32} (hpending : n.toNat ≤ c.pending.toNat + o.arrivals) :
    Fence cfg start { c with pending := n } (log ++ [o]) := by
  have hinvoked : ∀ f d, o ≠ .invoked f d := by
    intro f d heq
    subst heq
    cases ho
  have hdequeued : ∀ f d, o ≠ .dequeued f d := by
    intro f d heq
    subst heq
    cases ho
  have hreturned : ∀ u, o ≠ .destroyReturned u := by
    intro u heq
    subst heq
    cases ho
  have hback := returned_snoc h hreturned
  have hflight : flight (log ++ [o]) = flight log := by
    rw [flight_snoc, flightPost_passive _ ho]
  have htaken : o.taken = 0 := by
    cases o <;> first | rfl | cases ho
  have hbump : o.isBump = false := by
    cases o with
    | stateSet state => cases state <;> first | rfl | cases ho
    | _ => first | rfl | cases ho
  constructor
  · exact h.history.snoc (fun f d heq => absurd heq (hinvoked f d)) haccepted
  · exact h.thread
  · exact h.busy
  · rw [hflight]
    exact h.flying
  · rw [hflight]
    exact h.generation
  · rw [registration_snoc, registrationPost_passive _ ho]
    exact h.registered
  · intro f d n hw
    exact (h.dispatched f d n hw).snoc hdequeued hinvoked
  · refine h.credit.snoc ?_ ?_
    · intro after hafter
      rw [taken_snoc, arrivals_snoc, htaken]
      simp only
      omega
    · intro hstart
      rw [hbump] at hstart
      cases hstart
  · exact h.deferred
  · exact hback
  · exact h.joined

/-- A new generation: what was pending is dropped. -/
theorem Fence.bump (h : Fence cfg start c log) (ho : o.isBump = true)
    {r : Option GuestFunction × Context}
    (hr : registrationPost (c.callback, c.context) o = r) :
    Fence cfg start { c with
      generation := c.generation + 1
      pending := 0
      callback := r.1
      context := r.2 } (log ++ [o]) := by
  have hinvoked : ∀ f d, o ≠ .invoked f d := by
    intro f d heq
    subst heq
    cases ho
  have hdequeued : ∀ f d, o ≠ .dequeued f d := by
    intro f d heq
    subst heq
    cases ho
  have hreturned : ∀ u, o ≠ .destroyReturned u := by
    intro u heq
    subst heq
    cases ho
  have haccepted : ∀ data, o ≠ .enqueued cfg.workerThread data := by
    intro data heq
    subst heq
    cases ho
  have hback := returned_snoc h hreturned
  have hflight : flight (log ++ [o]) = (flight log).map (· + 1) := by
    rw [flight_snoc, flightPost_bump _ ho]
  have hnone : o.taken = 0 ∧ o.arrivals = 0 := by
    cases o <;> first | exact ⟨rfl, rfl⟩ | cases ho
  constructor
  · exact h.history.plain hinvoked haccepted
  · exact h.thread
  · exact h.busy
  · rw [hflight, Option.isSome_map]
    exact h.flying
  · intro n hn
    rw [hflight] at hn
    obtain ⟨m, hm, rfl⟩ := Option.map_eq_some_iff.1 hn
    simp only [h.generation m hm, UInt32.ofNat_add, UInt32.add_assoc]
    rfl
  · rw [registration_snoc, h.registered, hr]
  · intro f d n hw
    exact (h.dispatched f d n hw).snoc hdequeued hinvoked
  · refine h.credit.snoc ?_ ?_
    · intro after hafter
      rw [taken_snoc, arrivals_snoc, hnone.1, hnone.2]
      simp only [UInt32.toNat_zero]
      omega
    · intro _
      exact Nat.le_refl _
  · exact h.deferred
  · exact hback
  · exact h.joined

/-- The worker moves between two points outside a callback. -/
theorem Fence.idle (h : Fence cfg start c log) {p : WorkerPc} (hfrom : c.worker.isBusy = false)
    (hstart : c.worker ≠ .start) (hexit : c.worker ≠ .exited) (hto : p.isBusy = false)
    (hpc : p ≠ .start) : Fence cfg start { c with worker := p } log := by
  have hthread := h.thread
  have hbusy := h.busy
  have hflying := h.flying
  rw [if_neg hstart] at hthread
  rw [hfrom] at hbusy hflying
  refine { h with thread := ?_, busy := ?_, flying := ?_, dispatched := ?_, joined := ?_ }
  · rw [if_neg hpc]
    exact hthread
  · rw [hto]
    exact hbusy
  · rw [hto]
    exact hflying
  · intro f d n hw
    simp only at hw
    rw [hw] at hto
    cases hto
  · intro u d hd hu
    exact absurd (h.joined u d hd hu) hexit

theorem Fence.begin (h : Fence cfg start c log) (hw : c.worker = .start) :
    Fence cfg start { c with threadId := some cfg.workerThread, worker := .top } log := by
  have hbusy := h.busy
  have hflying := h.flying
  rw [hw] at hbusy hflying
  refine { h with thread := rfl, busy := hbusy, flying := hflying, dispatched := ?_, joined := ?_ }
  · intro f d n hpc
    cases hpc
  · intro u d hd hu
    have hexit := h.joined u d hd hu
    rw [hw] at hexit
    cases hexit

theorem pending_pred {n : UInt32} (h : n ≠ 0) : (n - 1).toNat + 1 = n.toNat := by
  have hpos : n.toNat ≠ 0 := fun hz => h (UInt32.toNat_inj.1 hz)
  have hle : (1 : UInt32) ≤ n := by
    rw [UInt32.le_iff_toNat_le]
    exact Nat.one_le_iff_ne_zero.2 hpos
  rw [UInt32.toNat_sub_of_le _ _ hle]
  have hone : (1 : UInt32).toNat = 1 := rfl
  omega

/-- What taking a completion does to the counts since each mark. -/
theorem credit_take (h : Fence cfg start c log) (hpending : c.pending ≠ 0)
    (f : Option GuestFunction) (d : Context) :
    Since (fun o => o.isBump = true)
      (fun after => taken after + (c.pending - 1).toNat ≤ arrivals after)
      (log ++ [.dequeued f d]) := by
  have hpred := pending_pred hpending
  refine h.credit.snoc ?_ ?_
  · intro after hafter
    rw [taken_snoc, arrivals_snoc]
    simp only [Obs.taken, Obs.arrivals]
    omega
  · intro hstart
    cases hstart

/-- A completion is taken while no callback is registered. -/
theorem Fence.drop (h : Fence cfg start c log) (hfrom : c.worker.isBusy = false)
    (hstart : c.worker ≠ .start) (hexit : c.worker ≠ .exited) (hpending : c.pending ≠ 0)
    (d : Context) : Fence cfg start { c with pending := c.pending - 1, worker := .top }
      (log ++ [.dequeued none d]) := by
  have hflight : flight (log ++ [.dequeued none d]) = flight log := flight_snoc
  have hregistration : registration start (log ++ [.dequeued none d]) = registration start log :=
    registration_snoc
  have hback := returned_snoc h (o := .dequeued none d) fun u hu => by cases hu
  have hcredit := credit_take h hpending none d
  have hidle := h.idle hfrom hstart hexit (p := .top) rfl (by decide)
  constructor
  · exact h.history.plain (fun f e heq => by cases heq) fun data heq => by cases heq
  · exact hidle.thread
  · exact hidle.busy
  · rw [hflight]
    exact hidle.flying
  · rw [hflight]
    exact h.generation
  · rw [hregistration]
    exact h.registered
  · intro f e n hw
    cases hw
  · exact hcredit
  · exact h.deferred
  · exact hback
  · exact hidle.joined

/-- A completion is taken for the registered callback. -/
theorem Fence.take (h : Fence cfg start c log) (hstart : c.worker ≠ .start)
    (hexit : c.worker ≠ .exited) (hpending : c.pending ≠ 0) {f : GuestFunction}
    (hf : c.callback = some f) (n : Nat) :
    Fence cfg start { c with
      pending := c.pending - 1
      inFlight := true
      inFlightGeneration := c.generation
      worker := .dispatched f c.context n } (log ++ [.dequeued (some f) c.context]) := by
  have hflight : flight (log ++ [.dequeued (some f) c.context]) = some 0 := flight_snoc
  have hregistration : registration start (log ++ [.dequeued (some f) c.context]) =
      registration start log := registration_snoc
  have hback := returned_snoc h (o := .dequeued (some f) c.context) fun u hu => by cases hu
  have hcredit := credit_take h hpending (some f) c.context
  have hthread := h.thread
  have hcurrent := h.registered
  rw [if_neg hstart] at hthread
  rw [hf] at hcurrent
  constructor
  · exact h.history.plain (fun f e heq => by cases heq) fun data heq => by cases heq
  · exact hthread
  · rfl
  · rw [hflight]
    rfl
  · intro m hm
    rw [hflight] at hm
    cases hm
    exact (UInt32.add_zero c.generation).symm
  · rw [hregistration]
    exact h.registered
  · intro g e k hw
    simp only [WorkerPc.dispatched.injEq] at hw
    obtain ⟨rfl, rfl, _⟩ := hw
    refine ⟨log, [], rfl, hcurrent, ?_, ?_⟩
    · intro g e hm
      cases hm
    · intro g e hm
      cases hm
  · exact hcredit
  · exact h.deferred
  · exact hback
  · intro u d hd hu
    exact absurd (h.joined u d hd hu) hexit

theorem Fence.invoke (h : Fence cfg start c log) {f : GuestFunction} {d : Context} {n : Nat}
    (hw : c.worker = .dispatched f d n) :
    Fence cfg start { c with worker := .inCallback f d n } (log ++ [.invoked f d]) := by
  have hflight : flight (log ++ [.invoked f d]) = flight log := flight_snoc
  have hregistration : registration start (log ++ [.invoked f d]) = registration start log :=
    registration_snoc
  have hback := returned_snoc h (o := .invoked f d) fun u hu => by cases hu
  have hthread := h.thread
  have hbusy := h.busy
  have hflying := h.flying
  have hexit : c.worker ≠ .exited := by simp [hw]
  rw [if_neg (by simp [hw])] at hthread
  rw [hw] at hbusy hflying
  constructor
  · apply h.history.snoc
    · intro g e heq
      cases heq
      exact ⟨h.dispatched f d n hw, not_join_of_mem h hexit⟩
    · intro data heq
      cases heq
  · exact hthread
  · exact hbusy
  · rw [hflight]
    exact hflying
  · rw [hflight]
    exact h.generation
  · rw [hregistration]
    exact h.registered
  · intro g e k hpc
    cases hpc
  · refine h.credit.snoc ?_ ?_
    · intro after hafter
      rw [taken_snoc, arrivals_snoc]
      exact hafter
    · intro hstart
      cases hstart
  · exact h.deferred
  · exact hback
  · intro u e he hu
    exact absurd (h.joined u e he hu) hexit

theorem Fence.finish (h : Fence cfg start c log) {f : GuestFunction} {d : Context} {n : Nat}
    (hw : c.worker = .inCallback f d n) :
    Fence cfg start { c with inFlight := false, inFlightGeneration := 0, worker := .reporting }
      (log ++ [.finished]) := by
  have hflight : flight (log ++ [.finished]) = none := flight_snoc
  have hregistration : registration start (log ++ [.finished]) = registration start log :=
    registration_snoc
  have hback := returned_snoc h (o := .finished) fun u hu => by cases hu
  have hthread := h.thread
  have hexit : c.worker ≠ .exited := by simp [hw]
  rw [if_neg (by simp [hw])] at hthread
  constructor
  · exact h.history.plain (fun f e heq => by cases heq) fun data heq => by cases heq
  · exact hthread
  · rfl
  · rw [hflight]
    rfl
  · intro m hm
    rw [hflight] at hm
    cases hm
  · rw [hregistration]
    exact h.registered
  · intro g e k hpc
    cases hpc
  · refine h.credit.snoc ?_ ?_
    · intro after hafter
      rw [taken_snoc, arrivals_snoc]
      exact hafter
    · intro hstart
      cases hstart
  · exact h.deferred
  · exact hback
  · intro u e he hu
    exact absurd (h.joined u e he hu) hexit

theorem Fence.lock (h : Fence cfg start c log) (hd : c.destroyer = .none) {u : ThreadId}
    (hu : u = cfg.workerThread → c.worker ≠ .start) :
    Fence cfg start { c with destroyer := .locked u (c.threadId == some u) } log := by
  have hthread := h.thread
  refine { h with deferred := ?_, returned := ?_, joined := ?_ }
  · intro v d hv
    simp only [DestroyPc.thread, Option.some.injEq, Prod.mk.injEq] at hv
    obtain ⟨rfl, rfl⟩ := hv
    by_cases hstart : c.worker = .start
    · rw [if_pos hstart] at hthread
      rw [hthread]
      constructor
      · intro hnone
        cases hnone
      · intro heq
        exact absurd hstart (hu heq)
    · rw [if_neg hstart] at hthread
      rw [hthread, beq_iff_eq, Option.some.injEq]
      exact ⟨Eq.symm, Eq.symm⟩
  · intro v hv
    obtain ⟨d, hreturned⟩ := h.returned v hv
    rw [hd] at hreturned
    cases hreturned
  · intro v d hv
    cases hv

theorem Fence.close (h : Fence cfg start c log) {u : ThreadId} {d : Bool}
    (hd : c.destroyer = .locked u d) :
    Fence cfg start { c with destroyer := .closed u d } log := by
  refine { h with deferred := ?_, returned := ?_, joined := ?_ }
  · intro v d' hv
    apply h.deferred v d'
    rw [hd]
    exact hv
  · intro v hv
    obtain ⟨d', hreturned⟩ := h.returned v hv
    rw [hd] at hreturned
    cases hreturned
  · intro v d' hv
    cases hv

/-- Destroy returns: on another thread than the worker it has joined the worker before. -/
theorem Fence.leave (h : Fence cfg start c log) {u : ThreadId} {d : Bool}
    (hd : c.destroyer = .closed u d) (hjoin : d = false → c.worker = .exited) :
    Fence cfg start { c with destroyer := .returned u d } (log ++ [.destroyReturned u]) := by
  have hflight : flight (log ++ [.destroyReturned u]) = flight log := flight_snoc
  have hregistration : registration start (log ++ [.destroyReturned u]) =
      registration start log := registration_snoc
  have hdeferred := h.deferred u d (by rw [hd]; rfl)
  constructor
  · exact h.history.plain (fun f e heq => by cases heq) fun data heq => by cases heq
  · exact h.thread
  · exact h.busy
  · rw [hflight]
    exact h.flying
  · rw [hflight]
    exact h.generation
  · rw [hregistration]
    exact h.registered
  · intro f e n hw
    refine (h.dispatched f e n hw).snoc (fun g k heq => ?_) fun g k heq => ?_
    · cases heq
    · cases heq
  · refine h.credit.snoc ?_ ?_
    · intro after hafter
      rw [taken_snoc, arrivals_snoc]
      exact hafter
    · intro hstart
      cases hstart
  · intro v d' hv
    apply h.deferred v d'
    rw [hd]
    exact hv
  · intro v hv
    cases List.mem_append.1 hv with
    | inl hv =>
      obtain ⟨d', hreturned⟩ := h.returned v hv
      rw [hd] at hreturned
      cases hreturned
    | inr hv =>
      cases List.mem_singleton.1 hv
      exact ⟨d, rfl⟩
  · intro v d' hv hother
    simp only [DestroyPc.returned.injEq] at hv
    obtain ⟨rfl, rfl⟩ := hv
    apply hjoin
    cases d with
    | false => rfl
    | true => exact absurd (hdeferred.1 rfl) hother

end Fence

end Asm2Runtime.AudioPlayer
