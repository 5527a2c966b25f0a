import Asm2Runtime.AudioGeneration

/-!
# Completions and recovery callbacks

The worker polls a dry queue and then asks for a callback through the same counter
that completions use. `BookMove` says what an event can do to the counters; in
every run the completions add up and a recovery callback is taken in the section
that asked for it.
-/

namespace Asm2Runtime.AudioPlayer

open Transition EventLog

/-- An observation that no counter and no callback has to do with. -/
def Obs.isNeutral : Obs → Bool
  | .enqueued _ _ => true
  | .refused _ _ => true
  | .stateSet .paused => true
  | .stateSet .playing => true
  | .released => true
  | .destroyReturned _ => true
  | _ => false

/-- The buffers that an observation completes. -/
def Obs.completions : Obs → Nat
  | .played _ _ completed _ => completed
  | _ => 0

def Obs.recoveries : Obs → Nat
  | .recovery => 1
  | _ => 0

def completedIn (log : List Obs) : Nat := (log.map Obs.completions).sum

def recoveriesIn (log : List Obs) : Nat := (log.map Obs.recoveries).sum

def outstandingPost (n : Nat) (o : Obs) : Nat :=
  if o.isBump then 0 else n + o.arrivals - o.taken

/-- The completions that have arrived since the last mark and have not been taken. -/
def outstanding (log : List Obs) : Nat := log.foldl outstandingPost 0

/-- There are never 2^32 completions outstanding. -/
def Unwrapped (log : List Obs) : Prop :=
  ∀ before after, log = before ++ after → outstanding before < 2 ^ 32

/-- A callback runs. -/
def runningPost (b : Bool) : Obs → Bool
  | .invoked _ _ => true
  | .finished => false
  | _ => b

def runningIn (log : List Obs) : Bool := log.foldl runningPost false

section Sums

variable {log : List Obs} {o : Obs}

theorem completedIn_snoc : completedIn (log ++ [o]) = completedIn log + o.completions := by
  simp [completedIn]

theorem recoveriesIn_snoc : recoveriesIn (log ++ [o]) = recoveriesIn log + o.recoveries := by
  simp [recoveriesIn]

theorem outstanding_snoc : outstanding (log ++ [o]) = outstandingPost (outstanding log) o := by
  rw [outstanding, List.foldl_append]
  rfl

theorem runningIn_snoc : runningIn (log ++ [o]) = runningPost (runningIn log) o := by
  rw [runningIn, List.foldl_append]
  rfl

theorem Obs.arrivals_eq (o : Obs) : o.arrivals = o.completions + o.recoveries := by
  cases o <;> rfl

theorem arrivals_eq (log : List Obs) : arrivals log = completedIn log + recoveriesIn log := by
  induction log with
  | nil => rfl
  | cons o log ih =>
    simp only [arrivals, completedIn, recoveriesIn, List.map_cons, List.sum_cons] at ih ⊢
    rw [ih, o.arrivals_eq]
    omega

theorem Unwrapped.init (h : Unwrapped (log ++ [o])) : Unwrapped log := by
  intro before after hsplit
  apply h before (after ++ [o])
  rw [hsplit, List.append_assoc]

theorem Unwrapped.lt (h : Unwrapped log) : outstanding log < 2 ^ 32 :=
  h log [] (List.append_nil log).symm

theorem outstanding_le_arrivals (log : List Obs) : outstanding log ≤ arrivals log := by
  induction log using List.reverseRecOn with
  | nil => exact Nat.le_refl _
  | append_singleton log o ih =>
    rw [outstanding_snoc, arrivals_snoc, outstandingPost]
    split <;> omega

/-- No wrap when few completions arrive at all. -/
theorem unwrapped_of_arrivals (h : arrivals log < 2 ^ 32) : Unwrapped log := by
  intro before after hsplit
  have hle := outstanding_le_arrivals before
  have hsum : arrivals log = arrivals before + arrivals after := by
    rw [hsplit]
    simp [arrivals]
  omega

end Sums

section Tally

/-- The callback of a completion that was taken: it is still to be invoked, or it was the next one
invoked. -/
def Served (w : WorkerPc) (f : GuestFunction) (c : Context) (after : List Obs) : Prop :=
  ((∃ n, w = .dispatched f c n) ∧ (∀ g d, .dequeued g d ∉ after) ∧ ∀ g d, .invoked g d ∉ after) ∨
    ∃ mid rest, after = mid ++ .invoked f c :: rest ∧ (∀ g d, .dequeued g d ∉ mid) ∧
      ∀ g d, .invoked g d ∉ mid

structure Tally (start : Option GuestFunction × Context) (b : Books) (w : WorkerPc)
    (log : List Obs) : Prop where
  recovery : b.pendingRecovery = 0
  pending : Unwrapped log → b.pending.toNat = outstanding log
  completed : b.completed = completedIn log
  recovered : b.recovered = recoveriesIn log
  balance : Unwrapped log → Since (fun o => o.isBump = true) (fun after =>
    (∀ p ∈ after, p.isBump = false) → taken after + outstanding log = arrivals after) log
  served : ∀ f c, Since (fun o => o = .dequeued (some f) c) (Served w f c) log
  registered : Throughout (fun before o =>
    ∀ g c, o = .dequeued g c → registration start before = (g, c)) log
  flying : runningIn log = System.inCallback w
  single : Throughout (fun before o => ∀ f c, o = .invoked f c → runningIn before = false) log

variable {start : Option GuestFunction × Context} {b : Books} {w : WorkerPc} {log : List Obs}
  {o : Obs}

theorem Tally.initial (start : Option GuestFunction × Context) :
    Tally start ⟨0, 0, 0, 0⟩ .start [] where
  recovery := rfl
  pending _ := rfl
  completed := rfl
  recovered := rfl
  balance _ := Since.nil _ _
  served _ _ := Since.nil _ _
  registered := Throughout.nil _
  flying := rfl
  single := Throughout.nil _

theorem Served.snoc {f : GuestFunction} {c : Context} {after : List Obs} (h : Served w f c after)
    (htaken : ∀ g d, o ≠ .dequeued g d) (hinvoked : ∀ g d, o ≠ .invoked g d) :
    Served w f c (after ++ [o]) := by
  cases h with
  | inl hwaiting =>
    obtain ⟨hw, hdequeued, hnone⟩ := hwaiting
    refine Or.inl ⟨hw, ?_, ?_⟩
    · intro g d hm
      cases List.mem_append.1 hm with
      | inl hm => exact hdequeued g d hm
      | inr hm => exact htaken g d (List.mem_singleton.1 hm).symm
    · intro g d hm
      cases List.mem_append.1 hm with
      | inl hm => exact hnone g d hm
      | inr hm => exact hinvoked g d (List.mem_singleton.1 hm).symm
  | inr hserved =>
    obtain ⟨mid, rest, rfl, hmid⟩ := hserved
    exact Or.inr ⟨mid, rest ++ [o], by simp, hmid⟩

/-- A worker that is not about to invoke a callback has served all it took. -/
theorem Served.done {f : GuestFunction} {c : Context} {after : List Obs} (h : Served w f c after)
    (hw : ∀ g d n, w ≠ .dispatched g d n) (w' : WorkerPc) (rest : List Obs) :
    Served w' f c (after ++ rest) := by
  cases h with
  | inl hwaiting =>
    obtain ⟨⟨n, hn⟩, _⟩ := hwaiting
    exact absurd hn (hw f c n)
  | inr hserved =>
    obtain ⟨mid, more, rfl, hmid⟩ := hserved
    exact Or.inr ⟨mid, more ++ rest, by simp, hmid⟩

/-- One more observation. -/
theorem Tally.snoc (h : Tally start b w log) {b' : Books} {w' : WorkerPc}
    (hrecovery : b'.pendingRecovery = 0)
    (hpending : Unwrapped (log ++ [o]) → b.pending.toNat = outstanding log →
      b'.pending.toNat = outstandingPost (outstanding log) o)
    (hcompleted : b'.completed = b.completed + o.completions)
    (hrecovered : b'.recovered = b.recovered + o.recoveries)
    (htaken : o.taken ≠ 0 → b.pending ≠ 0)
    (hserved : ∀ f c after, Served w f c after → Served w' f c (after ++ [o]))
    (hnew : ∀ f c, o = .dequeued (some f) c → Served w' f c [])
    (hregistered : ∀ g c, o = .dequeued g c → registration start log = (g, c))
    (hflying : runningPost (System.inCallback w) o = System.inCallback w')
    (hsingle : ∀ f c, o = .invoked f c → System.inCallback w = false) :
    Tally start b' w' (log ++ [o]) := by
  constructor
  · exact hrecovery
  · intro hbound
    rw [outstanding_snoc]
    exact hpending hbound (h.pending hbound.init)
  · rw [completedIn_snoc, hcompleted, h.completed]
  · rw [recoveriesIn_snoc, hrecovered, h.recovered]
  · intro hbound
    have hcount := h.pending hbound.init
    have hle : o.taken ≤ 1 := by cases o <;> simp [Obs.taken]
    refine (h.balance hbound.init).snoc ?_ ?_
    · intro after hafter hmarks
      have hbefore := hafter fun p hp => hmarks p (List.mem_append_left _ hp)
      have hmark : o.isBump = false := hmarks o (by simp)
      rw [taken_snoc, arrivals_snoc, outstanding_snoc, outstandingPost, hmark]
      by_cases hzero : o.taken = 0
      · simp only [Bool.false_eq_true, if_false]
        omega
      · have hpos : b.pending.toNat ≠ 0 := fun hz => htaken hzero (UInt32.toNat_inj.1 hz)
        simp only [Bool.false_eq_true, if_false]
        omega
    · intro hmark hmarks
      rw [outstanding_snoc, outstandingPost, hmark]
      rfl
  · intro f c
    exact (h.served f c).snoc (hserved f c) (hnew f c)
  · exact h.registered.snoc hregistered
  · rw [runningIn_snoc, h.flying, hflying]
  · apply h.single.snoc
    intro f c ho
    rw [h.flying]
    exact hsingle f c ho

/-- An observation that no callback has to do with. -/
theorem Tally.note (h : Tally start b w log) {b' : Books}
    (hrecovery : b'.pendingRecovery = 0)
    (hpending : Unwrapped (log ++ [o]) → b.pending.toNat = outstanding log →
      b'.pending.toNat = outstandingPost (outstanding log) o)
    (hcompleted : b'.completed = b.completed + o.completions)
    (hrecovered : b'.recovered = b.recovered + o.recoveries)
    (hdequeued : ∀ g c, o ≠ .dequeued g c) (hinvoked : ∀ g c, o ≠ .invoked g c)
    (hfinished : o ≠ .finished) : Tally start b' w (log ++ [o]) := by
  have htaken : o.taken = 0 := by
    cases o with
    | dequeued g c => exact absurd rfl (hdequeued g c)
    | _ => rfl
  apply h.snoc hrecovery hpending hcompleted hrecovered
  · intro hne
    exact absurd htaken hne
  · intro f c after hserved
    exact hserved.snoc hdequeued hinvoked
  · intro f c ho
    exact absurd ho (hdequeued (some f) c)
  · intro g c ho
    exact absurd ho (hdequeued g c)
  · cases o with
    | invoked g c => exact absurd rfl (hinvoked g c)
    | finished => exact absurd rfl hfinished
    | _ => rfl
  · intro f c ho
    exact absurd ho (hinvoked f c)

theorem Tally.neutral (h : Tally start b w log) (ho : o.isNeutral = true) :
    Tally start b w (log ++ [o]) := by
  have hpost : outstandingPost (outstanding log) o = outstanding log := by
    cases o with
    | stateSet state => cases state <;> first | rfl | cases ho
    | _ => first | rfl | cases ho
  apply h.note h.recovery
  · intro _ hcount
    rw [hpost, hcount]
  · cases o <;> first | rfl | cases ho
  · cases o <;> first | rfl | cases ho
  · intro g c heq
    subst heq
    cases ho
  · intro g c heq
    subst heq
    cases ho
  · intro heq
    subst heq
    cases ho

theorem Tally.neutrals (h : Tally start b w log) {obs : List Obs}
    (hobs : ∀ o ∈ obs, o.isNeutral = true) : Tally start b w (log ++ obs) := by
  induction obs generalizing log with
  | nil =>
    rw [List.append_nil]
    exact h
  | cons o obs ih =>
    have hone := h.neutral (hobs o (by simp))
    have hrest := ih hone fun p hp => hobs p (List.mem_cons_of_mem o hp)
    rwa [List.append_assoc, List.singleton_append] at hrest

/-- The worker moves outside callbacks. -/
theorem Tally.worker (h : Tally start b w log) {w' : WorkerPc} (hw : w.isBusy = false)
    (hw' : w'.isBusy = false) : Tally start b w' log := by
  have hin : System.inCallback w = false := by cases w <;> first | rfl | cases hw
  have hin' : System.inCallback w' = false := by cases w' <;> first | rfl | cases hw'
  refine { h with served := ?_, flying := ?_ }
  · intro f c
    refine (h.served f c).mono ?_
    intro after hserved
    rw [← List.append_nil after]
    apply hserved.done
    intro g d n hn
    subst hn
    cases hw
  · rw [h.flying, hin, hin']

theorem Tally.played (h : Tally start b w log) (stream : List UInt8) (copied completed : Nat)
    (active : Bool) :
    Tally start { b with
      pending := b.pending + UInt32.ofNat completed
      completed := b.completed + completed } w
      (log ++ [.played stream copied completed active]) := by
  apply h.note
  · exact h.recovery
  · intro hbound hcount
    have hlt := hbound.lt
    rw [outstanding_snoc] at hlt
    simp only [outstandingPost, Obs.isBump, Obs.arrivals, Obs.taken] at hlt ⊢
    simp only [UInt32.toNat_add, hcount, UInt32.toNat_ofNat']
    simp only [Bool.false_eq_true, if_false, Nat.sub_zero] at hlt ⊢
    omega
  · rfl
  · rfl
  · intro g c heq
    cases heq
  · intro g c heq
    cases heq
  · intro heq
    cases heq

theorem Tally.bump (h : Tally start b w log) (ho : o.isBump = true) :
    Tally start { b with pending := 0, pendingRecovery := 0 } w (log ++ [o]) := by
  apply h.note rfl
  · intro _ _
    rw [outstandingPost, ho]
    rfl
  · cases o <;> first | rfl | cases ho
  · cases o <;> first | rfl | cases ho
  · intro g c heq
    subst heq
    cases ho
  · intro g c heq
    subst heq
    cases ho
  · intro heq
    subst heq
    cases ho

/-- The worker asks for a callback while nothing is outstanding. -/
theorem Tally.ask (h : Tally start b w log) (hzero : b.pending = 0) :
    Tally start { b with pending := 1, recovered := b.recovered + 1 } w (log ++ [.recovery]) := by
  apply h.note
  · exact h.recovery
  · intro _ hcount
    rw [hzero] at hcount
    simp only [outstandingPost, Obs.isBump, Obs.arrivals, Obs.taken, ← hcount]
    rfl
  · rfl
  · rfl
  · intro g c heq
    cases heq
  · intro g c heq
    cases heq
  · intro heq
    cases heq

/-- A completion is taken. -/
theorem Tally.take (h : Tally start b w log) (hpending : b.pending ≠ 0)
    {g : Option GuestFunction} {c : Context} (hg : registration start log = (g, c))
    (hw : w.isBusy = false) {w' : WorkerPc}
    (hw' : (g = none ∧ w'.isBusy = false) ∨ ∃ f n, g = some f ∧ w' = .dispatched f c n) :
    Tally start { b with pending := b.pending - 1 } w' (log ++ [.dequeued g c]) := by
  have hpred := pending_pred hpending
  have hin : System.inCallback w = false := by cases w <;> first | rfl | cases hw
  have hidle : ∀ f d n, w ≠ .dispatched f d n := by
    intro f d n hn
    subst hn
    cases hw
  apply h.snoc
  · exact h.recovery
  · intro _ hcount
    simp only [outstandingPost, Obs.isBump, Obs.arrivals, Obs.taken]
    simp only [Bool.false_eq_true, if_false]
    omega
  · rfl
  · rfl
  · intro _
    exact hpending
  · intro f d after hserved
    exact hserved.done hidle w' _
  · intro f d heq
    cases heq
    cases hw' with
    | inl hnone => cases hnone.1
    | inr hsome =>
      obtain ⟨f', n, hf, rfl⟩ := hsome
      cases hf
      refine Or.inl ⟨⟨n, rfl⟩, ?_, ?_⟩
      · intro k e hm
        cases hm
      · intro k e hm
        cases hm
  · intro k e heq
    cases heq
    exact hg
  · cases hw' with
    | inl hnone =>
      have hin' : System.inCallback w' = false := by
        cases w' <;> first | rfl | cases hnone.2
      rw [hin, hin']
      rfl
    | inr hsome =>
      obtain ⟨f', n, _, rfl⟩ := hsome
      rw [hin]
      rfl
  · intro k e heq
    cases heq

theorem Tally.invoke (h : Tally start b w log) {f : GuestFunction} {c : Context} {n : Nat}
    (hw : w = .dispatched f c n) :
    Tally start b (.inCallback f c n) (log ++ [.invoked f c]) := by
  subst hw
  apply h.snoc h.recovery
  · intro _ hcount
    rw [hcount]
    rfl
  · rfl
  · rfl
  · intro hne
    exact absurd rfl hne
  · intro g d after hserved
    cases hserved with
    | inl hwaiting =>
      obtain ⟨⟨m, hm⟩, hdequeued, hinvoked⟩ := hwaiting
      cases hm
      exact Or.inr ⟨after, [], rfl, hdequeued, hinvoked⟩
    | inr hserved =>
      obtain ⟨mid, rest, rfl, hmid⟩ := hserved
      exact Or.inr ⟨mid, rest ++ [.invoked f c], by simp, hmid⟩
  · intro g d heq
    cases heq
  · intro g d heq
    cases heq
  · rfl
  · intro _ _ _
    rfl

theorem Tally.finish (h : Tally start b w log) (hw : System.inCallback w = true) {w' : WorkerPc}
    (hw' : w'.isBusy = false) : Tally start b w' (log ++ [.finished]) := by
  have hin' : System.inCallback w' = false := by cases w' <;> first | rfl | cases hw'
  have hidle : ∀ f d n, w ≠ .dispatched f d n := by
    intro f d n hn
    subst hn
    cases hw
  apply h.snoc h.recovery
  · intro _ hcount
    rw [hcount]
    rfl
  · rfl
  · rfl
  · intro hne
    exact absurd rfl hne
  · intro f d after hserved
    exact hserved.done hidle w' _
  · intro f d heq
    cases heq
  · intro f d heq
    cases heq
  · rw [hin']
    rfl
  · intro f d heq
    cases heq

end Tally

namespace System

/-- What an event does to the counters, the worker and the log. -/
inductive BookMove (s t : System) : Prop where
  | quiet (obs : List Obs) (log : t.log = s.log ++ obs) (neutral : ∀ o ∈ obs, o.isNeutral = true)
      (books : t.books = s.books)
      (worker : t.worker = s.worker ∨ (s.worker.isBusy = false ∧ t.worker.isBusy = false))
  | played (stream : List UInt8) (copied completed : Nat) (active : Bool)
      (log : t.log = s.log ++ [.played stream copied completed active])
      (books : t.books = { s.books with
        pending := s.books.pending + UInt32.ofNat completed
        completed := s.books.completed + completed })
      (worker : t.worker = s.worker)
  | bump (o : Obs) (mark : o.isBump = true) (log : t.log = s.log ++ [o])
      (books : t.books = { s.books with pending := 0, pendingRecovery := 0 })
      (worker : t.worker = s.worker)
  | drop (pending : s.books.pending ≠ 0) (callback : s.player.callback = none)
      (log : t.log = s.log ++ [.dequeued none s.player.callbackContext])
      (books : t.books = { s.books with pending := s.books.pending - 1 })
      (before : s.worker.isBusy = false) (worker : t.worker.isBusy = false)
  | take (f : GuestFunction) (n : Nat) (pending : s.books.pending ≠ 0)
      (callback : s.player.callback = some f)
      (log : t.log = s.log ++ [.dequeued (some f) s.player.callbackContext])
      (books : t.books = { s.books with pending := s.books.pending - 1 })
      (before : s.worker.isBusy = false)
      (worker : t.worker = .dispatched f s.player.callbackContext n)
  | recover (f : GuestFunction) (n : Nat) (ready : s.player.recoveryReady = true)
      (callback : s.player.callback = some f)
      (log : t.log = s.log ++ [.recovery, .dequeued (some f) s.player.callbackContext])
      (books : t.books = { s.books with recovered := s.books.recovered + 1 })
      (before : s.worker.isBusy = false)
      (worker : t.worker = .dispatched f s.player.callbackContext n)
  | invoke (f : GuestFunction) (c : Context) (n : Nat) (before : s.worker = .dispatched f c n)
      (log : t.log = s.log ++ [.invoked f c]) (books : t.books = s.books)
      (worker : t.worker = .inCallback f c n)
  | finish (before : inCallback s.worker = true) (log : t.log = s.log ++ [.finished])
      (books : t.books = s.books) (worker : t.worker.isBusy = false)

section Moves

variable {cfg : Config} {s t : System}

theorem BookMove.still (hlog : t.log = s.log) (hbooks : t.books = s.books)
    (hworker : t.worker = s.worker ∨ (s.worker.isBusy = false ∧ t.worker.isBusy = false)) :
    BookMove s t := by
  refine .quiet [] ?_ ?_ hbooks hworker
  · rw [hlog, List.append_nil]
  · intro o ho
    cases ho

theorem BookMove.note {o : Obs} (hlog : t.log = s.log ++ [o]) (ho : o.isNeutral = true)
    (hbooks : t.books = s.books)
    (hworker : t.worker = s.worker ∨ (s.worker.isBusy = false ∧ t.worker.isBusy = false)) :
    BookMove s t := by
  refine .quiet [o] hlog ?_ hbooks hworker
  intro p hp
  rw [List.mem_singleton.1 hp]
  exact ho

theorem takeCompletion_plain {p : Player} (h : p.pendingRecoveryCallbacks = 0) :
    p.takeCompletion = { p with pendingCallbacks := p.pendingCallbacks - 1 } := by
  simp [Player.takeCompletion, h]

/-- A completion is taken while no recovery is pending. -/
theorem takeSection_books (hrecovery : s.player.pendingRecoveryCallbacks = 0)
    (hbusy : s.worker.isBusy = false)
    (hpending : s.player.shutdown = false → s.player.pendingCallbacks ≠ 0) :
    BookMove s s.takeSection := by
  simp only [takeSection, takeCompletion_plain hrecovery]
  split
  case isTrue => exact .still rfl rfl (Or.inr ⟨hbusy, rfl⟩)
  case isFalse hshutdown =>
    have hsome := hpending ((Bool.not_eq_true _).mp hshutdown)
    split
    case h_1 hf => exact .drop hsome hf rfl rfl hbusy rfl
    case h_2 f hf => exact .take f s.player.enqueueSerial hsome hf rfl rfl hbusy rfl

theorem waitOrTake_books (hrecovery : s.player.pendingRecoveryCallbacks = 0)
    (hbusy : s.worker.isBusy = false) : BookMove s s.waitOrTake := by
  rw [waitOrTake]
  split
  case isTrue => exact .still rfl rfl (Or.inr ⟨hbusy, rfl⟩)
  case isFalse hready =>
    apply takeSection_books hrecovery hbusy
    intro hshutdown hzero
    simp [hshutdown, hzero] at hready

/-- The conditions under which the poll asks for a callback. -/
theorem recoveryReady_iff (p : Player) : p.recoveryReady = true ↔
    p.shutdown = false ∧ p.playState = .playing ∧ (∃ f, p.callback = some f) ∧ p.head = none ∧
      p.queuedCount = 0 ∧ p.pendingCallbacks = 0 ∧ p.callbackInFlight = false := by
  simp [Player.recoveryReady, Option.isSome_iff_exists, and_assoc]

/-- A recovery callback is taken in the section that asks for it. -/
theorem wake_recover (hready : s.player.recoveryReady = true)
    (hrecovery : s.player.pendingRecoveryCallbacks = 0) (hbusy : s.worker.isBusy = false) :
    BookMove s s.poll.waitOrTake := by
  obtain ⟨hshutdown, _, ⟨f, hf⟩, _, _, hpending, _⟩ := (recoveryReady_iff s.player).1 hready
  have hpoll : s.poll = s.record
      { s.player with pendingCallbacks := 1, pendingRecoveryCallbacks := 1 } .recovery := by
    simp only [poll, Player.requestRecovery, hready, if_true]
  have htake : s.poll.waitOrTake = { s with
      player := Player.startCallback { s.player with
        pendingCallbacks := 0
        pendingRecoveryCallbacks := 0
        recoveryCallbacks := s.player.recoveryCallbacks + 1 } f
      worker := .dispatched f s.player.callbackContext s.player.enqueueSerial
      log := s.log ++ [.recovery] ++ [.dequeued (some f) s.player.callbackContext] } := by
    rw [hpoll]
    simp [waitOrTake, takeSection, Player.takeCompletion, record, hshutdown, hf]
  rw [htake]
  refine .recover f s.player.enqueueSerial hready hf (by simp) ?_ hbusy rfl
  simp only [books, Player.startCallback, hpending, hrecovery]

theorem CallMove.books_move {e : Event} (h : CallMove cfg s t e) : BookMove s t := by
  have hworker := Or.inl (b := s.worker.isBusy = false ∧ t.worker.isBusy = false) h.worker_eq
  cases h with
  | reject u result hrunning hlog _ hbooks => exact .note hlog rfl hbooks hworker
  | begin u data stage _ _ hrunning hlog _ hbooks => exact .still hlog hbooks hworker
  | prepare r stage _ hrunning hlog _ hbooks => exact .still hlog hbooks hworker
  | refuse r result _ hrunning hlog _ hbooks => exact .note hlog rfl hbooks hworker
  | accept r _ _ hrunning hlog _ hbooks => exact .note hlog rfl hbooks hworker

theorem audio_books (hsound : s.Sound cfg) {length : Nat} (ht : s.audio length = some t) :
    BookMove s t := by
  rw [audio] at ht
  split at ht
  case isFalse => cases ht
  case isTrue =>
    obtain ⟨result, hresult, rfl⟩ := Option.map_eq_some_iff.1 ht
    cases hactive : s.player.isActive with
    | false =>
      simp only [Player.sdlAudioCallback, hactive] at hresult
      obtain rfl := Option.some.inj hresult
      have hzero : s.player.completedBuffers - s.player.completedBuffers = 0 := Nat.sub_self _
      refine .played _ _ _ _ rfl ?_ rfl
      simp only [hzero]
      exact congrArg (fun n => Books.mk n _ _ _) (UInt32.add_zero _).symm
    | true =>
      obtain ⟨queue, free, hinv⟩ := hsound
      obtain ⟨c, queue', free', bytes, hcopied, _, rfl⟩ :=
        Player.sdlAudioCallback_active hinv.shape hinv.filled hactive hresult
      have hshorter := hcopied.shorter
      have hcompleted := hcopied.completed
      have hframe : c.player.pendingRecoveryCallbacks = s.player.pendingRecoveryCallbacks ∧
          c.player.recoveryCallbacks = s.player.recoveryCallbacks := by
        rw [hcopied.frame]
        exact ⟨rfl, rfl⟩
      have hbooks : ∀ o, (s.record (c.player.countUnderrun c.remaining) o).books =
          ⟨c.player.pendingCallbacks, c.player.pendingRecoveryCallbacks,
            c.player.completedBuffers, c.player.recoveryCallbacks⟩ := by
        intro o
        simp only [books, record, Player.countUnderrun]
        split <;> rfl
      have hcount : (c.player.countUnderrun c.remaining).completedBuffers =
          c.player.completedBuffers :=
        congrArg Player.AudioPart.completedBuffers (Player.countUnderrun_audioPart _ _)
      refine .played _ _ _ _ rfl ?_ rfl
      rw [hbooks, hcount, hframe.1, hframe.2, hcopied.pendingCount]
      simp only [books, Books.mk.injEq, true_and, and_true]
      omega

theorem wake_books (hrecovery : s.player.pendingRecoveryCallbacks = 0)
    (hw : s.worker = .waiting) : BookMove s s.poll.waitOrTake := by
  have hbusy : s.worker.isBusy = false := by
    rw [hw]
    rfl
  cases hready : s.player.recoveryReady with
  | true => exact wake_recover hready hrecovery hbusy
  | false =>
    have hpoll : s.poll = s := by simp [poll, hready]
    rw [hpoll]
    exact waitOrTake_books hrecovery hbusy

/-- The calls that change the player in one section. -/
def inSection : Event → Bool
  | .setPlayState _ _ | .clear _ | .registerCallback _ _ _ | .destroyBegin _ => true
  | _ => false

theorem section_books {e : Event} (hsection : inSection e = true) (ht : s.step cfg e = some t) :
    BookMove s t := by
  cases e with
  | setPlayState u state =>
    simp only [step, Option.ite_none_right_eq_some, Option.some.injEq] at ht
    rw [← ht.2]
    cases state with
    | stopped => exact .bump (.stateSet .stopped) rfl rfl rfl rfl
    | paused => exact .note rfl rfl rfl (Or.inl rfl)
    | playing => exact .note rfl rfl rfl (Or.inl rfl)
  | clear u =>
    simp only [step, Option.ite_none_right_eq_some, Option.map_eq_some_iff] at ht
    obtain ⟨_, result, hresult, rfl⟩ := ht
    obtain ⟨Q, hrestart, _⟩ := bufferClear_eq hresult
    rw [hrestart]
    exact .bump (.cleared result.2) rfl rfl rfl rfl
  | registerCallback u callback context =>
    simp only [step, Option.ite_none_right_eq_some, Option.some.injEq] at ht
    rw [← ht.2]
    exact .bump (.registered callback context) rfl rfl rfl rfl
  | destroyBegin u =>
    simp only [step, Option.ite_none_right_eq_some, Option.some.injEq] at ht
    rw [← ht.2]
    exact .bump .destroyed rfl rfl rfl rfl
  | _ => cases hsection

/-- The steps of the worker. -/
def ofWorker : Event → Bool
  | .workerStart | .workerLock | .workerWake | .workerInvoke | .workerReturn | .workerReport _
  | .workerExit => true
  | _ => false

theorem worker_books {e : Event} (hworker : ofWorker e = true)
    (hrecovery : s.player.pendingRecoveryCallbacks = 0) (ht : s.step cfg e = some t) :
    BookMove s t := by
  cases e with
  | workerStart =>
    simp only [step, Option.ite_none_right_eq_some, Option.some.injEq] at ht
    rw [← ht.2]
    refine .still rfl rfl (Or.inr ⟨?_, rfl⟩)
    rw [ht.1]
    rfl
  | workerLock =>
    simp only [step, Option.ite_none_right_eq_some, Option.some.injEq] at ht
    rw [← ht.2]
    apply waitOrTake_books hrecovery
    rw [ht.1]
    rfl
  | workerWake =>
    simp only [step, Option.ite_none_right_eq_some, Option.some.injEq] at ht
    rw [← ht.2]
    exact wake_books hrecovery ht.1
  | workerInvoke =>
    simp only [step] at ht
    split at ht
    case h_1 f c n hw =>
      obtain rfl := Option.some.inj ht
      exact .invoke f c n hw rfl rfl rfl
    case h_2 => cases ht
  | workerReturn =>
    simp only [step] at ht
    split at ht
    case h_1 hw =>
      simp only [Option.ite_none_right_eq_some, Option.some.injEq] at ht
      rw [← ht.2]
      refine .finish ?_ rfl rfl rfl
      rw [hw]
      rfl
    case h_2 => cases ht
  | workerReport due =>
    simp only [step, Option.ite_none_right_eq_some, Option.some.injEq] at ht
    rw [← ht.2]
    refine .still rfl ?_ (Or.inr ⟨?_, rfl⟩)
    · cases due <;> rfl
    · rw [ht.1]
      rfl
  | workerExit =>
    simp only [step, workerExit] at ht
    split at ht
    case h_2 => cases ht
    case h_1 hw =>
      have hbusy : s.worker.isBusy = false := by
        rw [hw]
        rfl
      split at ht
      case isFalse =>
        obtain rfl := Option.some.inj ht
        exact .still rfl rfl (Or.inr ⟨hbusy, rfl⟩)
      case isTrue =>
        simp only [Option.ite_none_right_eq_some, Option.some.injEq] at ht
        rw [← ht.2]
        exact .note (o := .released) rfl rfl rfl (Or.inr ⟨hbusy, rfl⟩)
  | _ => cases hworker

theorem step_books {e : Event} (hsound : s.Sound cfg)
    (hrecovery : s.player.pendingRecoveryCallbacks = 0) (ht : s.step cfg e = some t) :
    BookMove s t := by
  cases e with
  | enqueueBegin u data => exact (enqueueBegin_move ht).books_move
  | enqueuePrepare u fresh block =>
    have hmove : CallMove cfg s t (.enqueuePrepare u fresh block) := enqueuePrepare_move ht
    exact hmove.books_move
  | enqueueEnd u =>
    have hmove : CallMove cfg s t (.enqueueEnd u) := enqueueEnd_move ht
    exact hmove.books_move
  | audio length => exact audio_books hsound ht
  | setPlayState | clear | registerCallback | destroyBegin => exact section_books rfl ht
  | destroyClose =>
    simp only [step] at ht
    split at ht
    case h_1 =>
      obtain rfl := Option.some.inj ht
      exact .still rfl rfl (Or.inl rfl)
    case h_2 => cases ht
  | destroyEnd =>
    simp only [step, destroyEnd] at ht
    split at ht
    case h_1 u _ =>
      obtain rfl := Option.some.inj ht
      exact .note (o := .destroyReturned u) rfl rfl rfl (Or.inl rfl)
    case h_2 u _ =>
      simp only [Option.ite_none_right_eq_some, Option.some.injEq] at ht
      rw [← ht.2]
      refine .quiet [.released, .destroyReturned u] rfl ?_ rfl (Or.inl rfl)
      simp [Obs.isNeutral]
    case h_3 => cases ht
  | workerStart | workerLock | workerWake | workerInvoke | workerReturn | workerReport
  | workerExit => exact worker_books rfl hrecovery ht

end Moves

section Runs

variable {cfg : Config} {start : Option GuestFunction × Context} {s t : System}

/-- Since every mark no more callbacks were asked for than completions taken. -/
def Asked (log : List Obs) : Prop :=
  Since (fun o => o.isBump = true) (fun after => recoveriesIn after ≤ taken after) log

theorem Asked.snoc {log : List Obs} {o : Obs} (h : Asked log) (ho : o.recoveries ≤ o.taken) :
    Asked (log ++ [o]) := by
  refine Since.snoc h ?_ ?_
  · intro after hafter
    rw [recoveriesIn_snoc, taken_snoc]
    omega
  · intro _
    exact Nat.le_refl _

theorem Asked.recover {log : List Obs} (h : Asked log) (f : Option GuestFunction) (c : Context) :
    Asked (log ++ [.recovery, .dequeued f c]) := by
  have hasked : Since (fun o => o.isBump = true)
      (fun after => recoveriesIn after ≤ taken after + 1) (log ++ [.recovery]) := by
    refine Since.snoc h ?_ ?_
    · intro after hafter
      rw [recoveriesIn_snoc, taken_snoc]
      simp only [Obs.recoveries, Obs.taken]
      omega
    · intro _
      exact Nat.zero_le _
  have hassoc : log ++ [.recovery, .dequeued f c] = log ++ [.recovery] ++ [.dequeued f c] := by
    simp
  rw [hassoc]
  refine Since.snoc hasked ?_ ?_
  · intro after hafter
    rw [recoveriesIn_snoc, taken_snoc]
    exact hafter
  · intro _
    exact Nat.zero_le _

structure Tallied (cfg : Config) (start : Option GuestFunction × Context) (s : System) : Prop where
  fenced : s.Fenced cfg start
  tally : Tally start s.books s.worker s.log
  asked : Asked s.log

theorem neutral_asked {log obs : List Obs} (h : Asked log) (hobs : ∀ o ∈ obs, o.isNeutral = true) :
    Asked (log ++ obs) := by
  induction obs generalizing log with
  | nil =>
    rw [List.append_nil]
    exact h
  | cons o obs ih =>
    have hneutral := hobs o (by simp)
    have hzero : o.recoveries ≤ o.taken := by
      cases o <;> first | exact Nat.le_refl _ | cases hneutral
    have hrest := ih (h.snoc hzero) fun p hp => hobs p (List.mem_cons_of_mem o hp)
    rwa [List.append_assoc, List.singleton_append] at hrest

theorem move_tallied (h : s.Tallied cfg start) (hmove : BookMove s t) :
    Tally start t.books t.worker t.log ∧ Asked t.log := by
  obtain ⟨hfenced, htally, hasked⟩ := h
  have hcurrent : registration start s.log = (s.player.callback, s.player.callbackContext) :=
    hfenced.fence.registered
  cases hmove with
  | quiet obs hlog hneutral hbooks hworker =>
    rw [hlog, hbooks]
    have hmore := htally.neutrals hneutral
    refine ⟨?_, neutral_asked hasked hneutral⟩
    cases hworker with
    | inl hsame =>
      rw [hsame]
      exact hmore
    | inr hidle => exact hmore.worker hidle.1 hidle.2
  | played stream copied completed active hlog hbooks hworker =>
    rw [hlog, hbooks, hworker]
    exact ⟨htally.played stream copied completed active, hasked.snoc (Nat.zero_le _)⟩
  | bump o hmark hlog hbooks hworker =>
    rw [hlog, hbooks, hworker]
    have hzero : o.recoveries ≤ o.taken := by
      cases o <;> first | exact Nat.le_refl _ | cases hmark
    exact ⟨htally.bump hmark, hasked.snoc hzero⟩
  | drop hpending hcallback hlog hbooks hbefore hworker =>
    rw [hcallback] at hcurrent
    rw [hlog, hbooks]
    exact ⟨htally.take hpending hcurrent hbefore (Or.inl ⟨rfl, hworker⟩),
      hasked.snoc (Nat.zero_le _)⟩
  | take f n hpending hcallback hlog hbooks hbefore hworker =>
    rw [hcallback] at hcurrent
    rw [hlog, hbooks]
    exact ⟨htally.take hpending hcurrent hbefore (Or.inr ⟨f, n, rfl, hworker⟩),
      hasked.snoc (Nat.zero_le _)⟩
  | recover f n hready hcallback hlog hbooks hbefore hworker =>
    obtain ⟨_, _, _, _, _, hzero, _⟩ := (recoveryReady_iff s.player).1 hready
    have hpending : s.books.pending = 0 := hzero
    have hask := htally.ask hpending
    have hregistration : registration start (s.log ++ [.recovery]) =
        (some f, s.player.callbackContext) := by
      rw [registration_snoc, hcurrent, hcallback]
      rfl
    have htake := hask.take (by simp) hregistration hbefore (Or.inr ⟨f, n, rfl, hworker⟩)
    rw [List.append_assoc] at htake
    rw [hlog, hbooks]
    constructor
    · have hback : (1 : UInt32) - 1 = s.books.pending := by
        rw [hpending]
        rfl
      simp only [hback] at htake
      exact htake
    · exact hasked.recover (some f) _
  | invoke f c n hbefore hlog hbooks hworker =>
    rw [hlog, hbooks, hworker]
    exact ⟨htally.invoke hbefore, hasked.snoc (Nat.zero_le _)⟩
  | finish hbefore hlog hbooks hworker =>
    rw [hlog, hbooks]
    exact ⟨htally.finish hbefore hworker, hasked.snoc (Nat.zero_le _)⟩

theorem step_tallied {e : Event} (h : s.Tallied cfg start) (ht : s.step cfg e = some t) :
    t.Tallied cfg start := by
  obtain ⟨htally, hasked⟩ :=
    move_tallied h (step_books h.fenced.sound h.tally.recovery ht)
  exact ⟨step_fenced h.fenced ht, htally, hasked⟩

theorem run_tallied {callback : Option GuestFunction} {context : Context} {generation : UInt32}
    {es : List Event}
    (hrun : run (step cfg) (initial callback context generation) es = some s) :
    s.Tallied cfg (callback, context) := by
  have hnone : run (step cfg) (initial callback context generation) [] =
      some (initial callback context generation) := rfl
  have hinitial : (initial callback context generation).Tallied cfg (callback, context) := by
    constructor
    · exact run_fenced hnone
    · exact Tally.initial _
    · exact Since.nil _ _
  exact run_invariant (fun _ _ _ h ht => step_tallied h ht) hinitial hrun

/-- A recovery completion is only taken in the section that asked for it. -/
theorem recovered_step {e : Event} (h : s.Tallied cfg start) (ht : s.step cfg e = some t)
    (hmore : t.player.recoveryCallbacks ≠ s.player.recoveryCallbacks) :
    s.player.recoveryReady = true ∧ ∃ f n, s.player.callback = some f ∧
      t.worker = .dispatched f s.player.callbackContext n := by
  have hbooks : t.books.recovered ≠ s.books.recovered := hmore
  cases step_books h.fenced.sound h.tally.recovery ht with
  | recover f n hready hcallback _ _ _ hworker => exact ⟨hready, f, n, hcallback, hworker⟩
  | quiet _ _ _ hsame _ => exact absurd (congrArg Books.recovered hsame) hbooks
  | played _ _ _ _ _ hsame _ => exact absurd (congrArg Books.recovered hsame) hbooks
  | bump _ _ _ hsame _ => exact absurd (congrArg Books.recovered hsame) hbooks
  | drop _ _ _ hsame _ _ => exact absurd (congrArg Books.recovered hsame) hbooks
  | take _ _ _ _ _ hsame _ _ => exact absurd (congrArg Books.recovered hsame) hbooks
  | invoke _ _ _ _ _ hsame _ => exact absurd (congrArg Books.recovered hsame) hbooks
  | finish _ _ hsame _ => exact absurd (congrArg Books.recovered hsame) hbooks

/-- A callback that is not running has been finished since it was invoked. -/
theorem finished_of_idle {before mid : List Obs} {f : GuestFunction} {c : Context}
    (h : runningIn (before ++ .invoked f c :: mid) = false) : .finished ∈ mid := by
  induction mid using List.reverseRecOn with
  | nil =>
    rw [runningIn_snoc] at h
    cases h
  | append_singleton mid o ih =>
    have hassoc : before ++ .invoked f c :: (mid ++ [o]) =
        (before ++ .invoked f c :: mid) ++ [o] := by simp
    rw [hassoc, runningIn_snoc] at h
    cases o with
    | finished => simp
    | invoked g d => cases h
    | _ => exact List.mem_append_left _ (ih h)

/-- What the log and the counters of a run say about completions. -/
structure Conserved (cfg : Config) (start : Option GuestFunction × Context) (s : System) :
    Prop where
  /-- From a mark to the next one, the buffers completed are the completions taken that were not
  asked for, and the pending ones. -/
  completed : ∀ before o after, s.log = before ++ o :: after → o.isBump = true →
    (∀ p ∈ after, p.isBump = false) → recoveriesIn after ≤ taken after ∧
      completedIn after =
        (taken after - recoveriesIn after) + s.player.pendingCallbacks.toNat
  counters : s.player.completedBuffers = completedIn s.log ∧
    s.player.recoveryCallbacks = recoveriesIn s.log
  /-- A completion is taken for the current registration, -/
  registered : ∀ before g c after, s.log = before ++ .dequeued g c :: after →
    registration start before = (g, c)
  /-- and its callback is the next one invoked, -/
  served : ∀ before f c after, s.log = before ++ .dequeued (some f) c :: after →
    Served s.worker f c after
  /-- once: there is a completion taken before each callback and after the one before. -/
  once : ∀ before f c after, s.log = before ++ .invoked f c :: after → Dispatched start f c before
  recovery : ∀ e t, s.step cfg e = some t →
    t.player.recoveryCallbacks ≠ s.player.recoveryCallbacks →
      s.player.playState = .playing ∧ s.player.shutdown = false ∧ s.player.head = none ∧
        s.player.queuedCount = 0 ∧ s.player.pendingCallbacks = 0 ∧
        s.player.callbackInFlight = false ∧ ∃ f n, s.player.callback = some f ∧
          t.worker = .dispatched f s.player.callbackContext n
  pendingRecovery : s.player.pendingRecoveryCallbacks = 0
  single : ∀ before f c mid g d after,
    s.log = before ++ .invoked f c :: (mid ++ .invoked g d :: after) → .finished ∈ mid

theorem completions_conserved (cfg : Config) (callback : Option GuestFunction) (context : Context)
    (generation : UInt32) {es : List Event} {s : System}
    (hrun : run (step cfg) (initial callback context generation) es = some s)
    (hbound : Unwrapped s.log) : Conserved cfg (callback, context) s := by
  have htallied := run_tallied hrun
  obtain ⟨hfenced, htally, hasked⟩ := htallied
  constructor
  · intro before o after hlog hmark hmarks
    have hbalance := htally.balance hbound before o after hlog hmark hmarks
    have hle := hasked before o after hlog hmark
    have hpending : s.player.pendingCallbacks.toNat = outstanding s.log := htally.pending hbound
    rw [arrivals_eq] at hbalance
    exact ⟨hle, by omega⟩
  · exact ⟨htally.completed, htally.recovered⟩
  · intro before g c after hlog
    exact htally.registered before _ after hlog g c rfl
  · intro before f c after hlog
    exact htally.served f c before _ after hlog rfl
  · intro before f c after hlog
    exact hfenced.fence.history.invoked before _ after hlog f c rfl
  · intro e t ht hmore
    obtain ⟨hready, hdispatched⟩ := recovered_step ⟨hfenced, htally, hasked⟩ ht hmore
    obtain ⟨hshutdown, hplaying, _, hhead, hcount, hpending, hflight⟩ :=
      (recoveryReady_iff s.player).1 hready
    exact ⟨hplaying, hshutdown, hhead, hcount, hpending, hflight, hdispatched⟩
  · exact htally.recovery
  · intro before f c mid g d after hlog
    have hsplit : s.log = (before ++ .invoked f c :: mid) ++ .invoked g d :: after := by
      rw [hlog]
      simp
    exact finished_of_idle (htally.single _ _ _ hsplit g d rfl)

/-- A buffer is completed and its callback enqueues nothing; the queue is dry and a callback is
asked for. -/
def recoveryEvents : List Event :=
  [.workerStart, .setPlayState 1 .stopped, .setPlayState 1 .playing, .enqueueBegin 1 [1, 2, 3, 4],
    .enqueuePrepare 1 (some 100) (some fun _ => 0), .enqueueEnd 1, .workerLock, .audio 6,
    .workerWake, .workerInvoke, .workerReturn, .workerReport true, .workerLock, .workerWake]

theorem recoveryLog_arrivals :
    (run (step plainConfig) (initial (some 5) 50 0) recoveryEvents).map (fun s => arrivals s.log) =
      some 2 := by
  decide +kernel

theorem completions_conserved_dry :
    ∃ s, run (step plainConfig) (initial (some 5) 50 0) recoveryEvents = some s ∧
      Conserved plainConfig (some 5, 50) s := by
  obtain ⟨s, hs, harrivals⟩ := Option.map_eq_some_iff.1 recoveryLog_arrivals
  have hfew : arrivals s.log < 2 ^ 32 := by omega
  exact ⟨s, hs, completions_conserved plainConfig (some 5) 50 0 hs (unwrapped_of_arrivals hfew)⟩

end Runs

end System

end Asm2Runtime.AudioPlayer
