import Asm2Runtime.EventLog
import Asm2Runtime.Transition
import Mathlib.Logic.Function.Basic
import Mathlib.Data.BitVec

/-!
# The flags of guest streams

A guest FILE image has a word of flags, its host FILE an EOF and an error indicator. An
operation of bionic_compat.c first clears indicators whose bits the guest has cleared, then
calls the host function, and most of them copy the indicators back into the word. What the
host function does to the indicators comes with the event.
-/

namespace Asm2Runtime.StreamFlags

open EventLog Transition

section Operations

def SEOF : BitVec 16 := 0x0020
def SERR : BitVec 16 := 0x0040

/-- `feof` and `ferror` of a host FILE. -/
structure Indicators where
  eof : Bool
  error : Bool
  deriving DecidableEq

/-- An open stream: the flags of its image, as `asm2_file_image_set_flags` last stored them and
as they are now, and the indicators of its host FILE. -/
structure Stream where
  stored : BitVec 16
  flags : BitVec 16
  host : Indicators
  deriving DecidableEq

/-- `clearerr` of the host. -/
def clearerr : Indicators := { eof := false, error := false }

/-- `asm2_apply_guest_cleared_flags` -/
def applyGuestClearedFlags (s : Stream) : Stream :=
  if (s.flags &&& SEOF = 0 ∧ s.host.eof) ∨ (s.flags &&& SERR = 0 ∧ s.host.error) then
    { s with host := clearerr }
  else s

/-- `asm2_sync_stream_flags` -/
def syncStreamFlags (s : Stream) : Stream :=
  let flags := s.flags &&& ~~~(SEOF ||| SERR)
  let flags := if s.host.eof then flags ||| SEOF else flags
  let flags := if s.host.error then flags ||| SERR else flags
  { s with stored := flags, flags }

/-- The functions that acquire a stream. -/
inductive Operation where
  | clearerr | fflush | fgets | fprintf | fputc | fputs | fread | fseek | fseeko | ftell | ftello
  | fwrite | getc | getwc | putc | putwc | setvbuf | ungetc | ungetwc | vfprintf
  deriving DecidableEq

/-- Whether the function calls `asm2_sync_stream_flags`. -/
def Operation.syncs : Operation → Bool
  | .ftell | .ftello => false
  | _ => true

/-- The indicators after the host function; those of the others are its own affair. -/
def Operation.hostCall (result : Indicators) : Operation → Indicators
  | .clearerr => StreamFlags.clearerr
  | _ => result

/-- A stream as the guest left it, as it was acquired, after the host call, and as it is
released. -/
structure Observation where
  operation : Operation
  left : Stream
  acquired : Stream
  called : Stream
  released : Stream
  deriving DecidableEq

/-- A function on an open stream. -/
def Operation.perform (result : Indicators) (s : Stream) (operation : Operation) : Observation :=
  let acquired := applyGuestClearedFlags s
  let called := { acquired with host := operation.hostCall result }
  let released := if operation.syncs then syncStreamFlags called else called
  { operation, left := s, acquired, called, released }

abbrev Addr := Nat

structure State where
  streams : Addr → Stream
  log : List Observation

inductive Event where
  /-- The guest stores a flag word in its image. -/
  | guestWrite (stream : Addr) (flags : BitVec 16)
  /-- The host works on its FILE, as `fflush(NULL)` does. -/
  | outside (stream : Addr) (host : Indicators)
  | operate (stream : Addr) (operation : Operation) (result : Indicators)

def step (s : State) : Event → Option State
  | .guestWrite stream flags =>
    some { s with streams := Function.update s.streams stream { s.streams stream with flags } }
  | .outside stream host =>
    some { s with streams := Function.update s.streams stream { s.streams stream with host } }
  | .operate stream operation result =>
    let o := operation.perform result (s.streams stream)
    some { streams := Function.update s.streams stream o.released, log := s.log ++ [o] }

end Operations

section Acquiring

/-- The bits that the guest sees as its indicators. -/
def guestEof (flags : BitVec 16) : Bool := flags &&& SEOF ≠ 0
def guestError (flags : BitVec 16) : Bool := flags &&& SERR ≠ 0

/-- An indicator or a bit that was set has been cleared. -/
def Cleared (before after : Bool) : Prop := before = true ∧ after = false

instance (before after : Bool) : Decidable (Cleared before after) :=
  inferInstanceAs (Decidable (_ ∧ _))

/-- Acquiring clears an indicator exactly when it was set and the guest has cleared its bit in
the word that was stored for it. -/
structure Independent (left acquired : Stream) : Prop where
  eof : Cleared left.host.eof acquired.host.eof ↔
    left.host.eof = true ∧ Cleared (guestEof left.stored) (guestEof left.flags)
  error : Cleared left.host.error acquired.host.error ↔
    left.host.error = true ∧ Cleared (guestError left.stored) (guestError left.flags)
  eofKept : acquired.host.eof = true → left.host.eof = true
  errorKept : acquired.host.error = true → left.host.error = true
  flags : acquired.flags = left.flags

/-- Both indicators are set, and one of the bits is. -/
def OneCleared (s : Stream) : Prop :=
  s.host = { eof := true, error := true } ∧ guestEof s.flags ≠ guestError s.flags

/-- An indicator is set whose bit is zero as it was stored: it was set after the word. -/
def SetLater (s : Stream) : Prop :=
  (s.host.eof = true ∧ guestEof s.stored = false ∧ guestEof s.flags = false) ∨
    (s.host.error = true ∧ guestError s.stored = false ∧ guestError s.flags = false)

instance (s : Stream) : Decidable (OneCleared s) := inferInstanceAs (Decidable (_ ∧ _))

instance (s : Stream) : Decidable (SetLater s) := inferInstanceAs (Decidable (_ ∨ _))

/-- Acquiring clears both indicators or none. -/
theorem applyGuestClearedFlags_eq (s : Stream) :
    applyGuestClearedFlags s =
      if (!guestEof s.flags && s.host.eof) || (!guestError s.flags && s.host.error) then
        { s with host := clearerr }
      else s := by
  unfold applyGuestClearedFlags guestEof guestError
  simp

/-- The cases of the two indicators, their bits as they were stored and as they are now. -/
theorem clearing_cases : ∀ eof error storedEof storedError guestEof guestError : Bool,
    let host : Indicators := if (!guestEof && eof) || (!guestError && error) then clearerr
      else { eof, error }
    ((Cleared eof host.eof ↔ eof = true ∧ Cleared storedEof guestEof) ∧
      (Cleared error host.error ↔ error = true ∧ Cleared storedError guestError) ∧
      (host.eof = true → eof = true) ∧ (host.error = true → error = true)) ↔
      ¬ (({ eof, error } : Indicators) = { eof := true, error := true } ∧
        guestEof ≠ guestError) ∧
      ¬ ((eof = true ∧ storedEof = false ∧ guestEof = false) ∨
        (error = true ∧ storedError = false ∧ guestError = false)) := by
  intro eof error
  cases eof <;> cases error <;> decide

theorem independent_iff (s : Stream) :
    Independent s (applyGuestClearedFlags s) ↔ ¬ OneCleared s ∧ ¬ SetLater s := by
  obtain ⟨stored, flags, eof, error⟩ := s
  have hflags : (applyGuestClearedFlags ⟨stored, flags, eof, error⟩).flags = flags := by
    unfold applyGuestClearedFlags
    split <;> rfl
  have hhost := congrArg Stream.host (applyGuestClearedFlags_eq ⟨stored, flags, eof, error⟩)
  have hbits := clearing_cases eof error (guestEof stored) (guestError stored) (guestEof flags)
    (guestError flags)
  rw [apply_ite Stream.host] at hhost
  simp only at hhost hbits
  unfold OneCleared SetLater
  rw [← hbits, ← hhost]
  constructor
  · intro h
    exact ⟨h.eof, h.error, h.eofKept, h.errorKept⟩
  · intro h
    exact ⟨h.1, h.2.1, h.2.2.1, h.2.2.2, hflags⟩

end Acquiring

section Syncing

/-- The bits are the indicators, and the other bits those of the word before. -/
structure Synced (before after : Stream) : Prop where
  host : after.host = before.host
  eof : guestEof after.flags = before.host.eof
  error : guestError after.flags = before.host.error
  others : after.flags &&& ~~~(SEOF ||| SERR) = before.flags &&& ~~~(SEOF ||| SERR)

/-- A word without the two bits, with the bits of the indicators. -/
theorem syncStreamFlags_flags (s : Stream) :
    (syncStreamFlags s).flags = s.flags &&& ~~~(SEOF ||| SERR) |||
      ((if s.host.eof then SEOF else 0) ||| (if s.host.error then SERR else 0)) := by
  obtain ⟨stored, flags, eof, error⟩ := s
  cases eof <;> cases error <;> simp [syncStreamFlags, BitVec.or_assoc]

/-- A mask reads the fields that it overlaps with. -/
theorem masked_fields (word mask keep fields : BitVec 16) :
    (word &&& keep ||| fields) &&& mask = word &&& (keep &&& mask) ||| fields &&& mask := by
  rw [BitVec.and_or_distrib_right, BitVec.and_assoc]

theorem synced (s : Stream) : Synced s (syncStreamFlags s) := by
  have hflags := syncStreamFlags_flags s
  refine ⟨rfl, ?_, ?_, ?_⟩
  · unfold guestEof
    have hkeep : ~~~(SEOF ||| SERR) &&& SEOF = 0#16 := by decide
    rw [hflags, masked_fields, hkeep, BitVec.and_zero, BitVec.zero_or]
    cases s.host.eof <;> cases s.host.error <;> decide
  · unfold guestError
    have hkeep : ~~~(SEOF ||| SERR) &&& SERR = 0#16 := by decide
    rw [hflags, masked_fields, hkeep, BitVec.and_zero, BitVec.zero_or]
    cases s.host.eof <;> cases s.host.error <;> decide
  · have hfields : ((if s.host.eof then SEOF else 0) ||| (if s.host.error then SERR else 0)) &&&
        ~~~(SEOF ||| SERR) = 0#16 := by
      cases s.host.eof <;> cases s.host.error <;> decide
    rw [hflags, masked_fields, BitVec.and_self, hfields, BitVec.or_zero]

end Syncing

section Runs

/-- What an operation should do with the flags that the guest left. -/
structure Observation.Good (o : Observation) : Prop where
  acquired : Independent o.left o.acquired
  released : o.operation.syncs = true →
    guestEof o.released.flags = o.called.host.eof ∧
      guestError o.released.flags = o.called.host.error ∧
      o.released.flags &&& ~~~(SEOF ||| SERR) = o.left.flags &&& ~~~(SEOF ||| SERR)

theorem perform_good_iff (operation : Operation) (result : Indicators) (s : Stream) :
    (operation.perform result s).Good ↔ ¬ OneCleared s ∧ ¬ SetLater s := by
  rw [← independent_iff]
  constructor
  · intro h
    exact h.acquired
  · intro h
    refine ⟨h, fun hsyncs => ?_⟩
    have hsynced := synced (operation.perform result s).called
    have hreleased : (operation.perform result s).released =
        syncStreamFlags (operation.perform result s).called := if_pos hsyncs
    have hflags : (operation.perform result s).called.flags = s.flags := h.flags
    have hothers := hsynced.others
    rw [hflags] at hothers
    rw [hreleased]
    exact ⟨hsynced.eof, hsynced.error, hothers⟩

/-- Every observation is one of an operation on the flags that were left. -/
def State.Recorded (s : State) : Prop :=
  ∀ o ∈ s.log, o = o.operation.perform o.called.host o.left

theorem hostCall_idem (result : Indicators) (operation : Operation) :
    operation.hostCall (operation.hostCall result) = operation.hostCall result := by
  cases operation <;> rfl

theorem State.Recorded.step {s s' : State} {event : Event} (h : s.Recorded)
    (hstep : StreamFlags.step s event = some s') : s'.Recorded := by
  cases event with
  | guestWrite stream flags =>
    obtain rfl := Option.some.inj hstep
    exact h
  | outside stream host =>
    obtain rfl := Option.some.inj hstep
    exact h
  | operate stream operation result =>
    obtain rfl := Option.some.inj hstep
    intro o ho
    cases List.mem_append.mp ho with
    | inl hold => exact h o hold
    | inr hnew =>
      obtain rfl := List.mem_singleton.mp hnew
      change _ = operation.perform (operation.hostCall result) (s.streams stream)
      unfold Operation.perform
      rw [hostCall_idem]

theorem log_good_iff {streams : Addr → Stream} {events : List Event} {s : State}
    (hrun : run step { streams, log := [] } events = some s) :
    (∀ o ∈ s.log, o.Good) ↔ ∀ o ∈ s.log, ¬ OneCleared o.left ∧ ¬ SetLater o.left := by
  have hrecorded : s.Recorded :=
    run_invariant (fun _ _ _ h hstep => h.step hstep) (fun _ ho => absurd ho List.not_mem_nil)
      hrun
  refine forall₂_congr fun o ho => ?_
  rw [hrecorded o ho]
  exact perform_good_iff o.operation o.called.host o.left

/-- In every history of streams, all operations treat the two flags independently exactly when
none acquires a stream that has both indicators set and one of the bits cleared, or one whose
indicator was set after its word was stored: `clearerr` clears both indicators, and a bit that
was never set counts as cleared. -/
theorem flags_independent_iff {streams : Addr → Stream} {events : List Event} {s : State}
    (hrun : run step { streams, log := [] } events = some s) :
    (∀ o ∈ s.log, o.Good) ↔ ∀ o ∈ s.log, ¬ OneCleared o.left ∧ ¬ SetLater o.left :=
  log_good_iff hrun

/-- A stream as `asm2_wrap_file` makes it. -/
def opened (flags : BitVec 16) : Stream :=
  { stored := flags, flags, host := { eof := false, error := false } }

/-- A read reaches the end, the guest clears the EOF bit, and a write fails. -/
def resetEof : List Event :=
  [.operate 0 .fread { eof := true, error := false }, .guestWrite 0 0x0010,
    .operate 0 .fwrite { eof := false, error := true }, .operate 0 .ftell ⟨false, true⟩]

theorem flags_independent_resetEof :
    ∃ s, run step { streams := fun _ => opened 0x0010, log := [] } resetEof = some s ∧
      (s.streams 0).flags = 0x0050 ∧ ∀ o ∈ s.log, o.Good := by
  have hfields : (run step { streams := fun _ => opened 0x0010, log := [] } resetEof).map
      (fun s => ((s.streams 0).flags,
        s.log.all fun o => ¬ OneCleared o.left ∧ ¬ SetLater o.left)) =
        some (0x0050, true) := by decide +kernel
  obtain ⟨s, hrun, hs⟩ := Option.map_eq_some_iff.mp hfields
  obtain ⟨hflags, hall⟩ := Prod.mk.inj hs
  refine ⟨s, hrun, hflags, (flags_independent_iff hrun).mpr fun o ho => ?_⟩
  exact of_decide_eq_true (List.all_eq_true.mp hall o ho)

/-- Both indicators are set, and the guest clears the EOF bit only: the error is lost. -/
def loseError : List Event :=
  [.operate 0 .fread { eof := true, error := true }, .guestWrite 0 0x0050,
    .operate 0 .ftell ⟨false, false⟩]

/-- A write is buffered, `fflush(NULL)` fails, and the guest writes on: the error is lost, and
the guest has never touched the word. -/
def loseFlush : List Event :=
  [.operate 0 .fwrite { eof := false, error := false },
    .outside 0 { eof := false, error := true },
    .operate 0 .fwrite { eof := false, error := false }]

theorem flags_not_independent :
    (∃ s, run step { streams := fun _ => opened 0x0010, log := [] } loseError = some s ∧
      ¬ ∀ o ∈ s.log, o.Good) ∧
      ∃ s, run step { streams := fun _ => opened 0x0010, log := [] } loseFlush = some s ∧
        ¬ ∀ o ∈ s.log, o.Good := by
  have hbad : ∀ events ∈ [loseError, loseFlush],
      (run step { streams := fun _ => opened 0x0010, log := [] } events).map
        (fun s => s.log.all fun o => ¬ OneCleared o.left ∧ ¬ SetLater o.left) = some false := by
    decide +kernel
  have hlost : ∀ events ∈ [loseError, loseFlush],
      ∃ s, run step { streams := fun _ => opened 0x0010, log := [] } events = some s ∧
        ¬ ∀ o ∈ s.log, o.Good := by
    intro events hevents
    obtain ⟨s, hrun, hs⟩ := Option.map_eq_some_iff.mp (hbad events hevents)
    refine ⟨s, hrun, fun hgood => ?_⟩
    have hnone := (log_good_iff hrun).mp hgood
    have hall : (s.log.all fun o => decide (¬ OneCleared o.left ∧ ¬ SetLater o.left)) = true :=
      List.all_eq_true.mpr fun o ho => decide_eq_true (hnone o ho)
    rw [hall] at hs
    cases hs
  exact ⟨hlost loseError (by simp), hlost loseFlush (by simp)⟩

end Runs

end Asm2Runtime.StreamFlags
