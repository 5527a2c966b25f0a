import Asm2Runtime.InputRelease
import Asm2Runtime.PathBridge

/-!
# The first-run sequence

Below its last stage the first-run sequence takes the presses of the face buttons and sends
one synthetic press and release per stage. The stage is written to a file whenever it has
changed, and main.c reads it at the next start.
-/

namespace Asm2Runtime.InputPump

open PathBridge (Path joinPath snprintf PATH_MAX)

section StateFile

abbrev Disk := Path → Option (List Char)

/-- How the system calls of one write of the state file end; `written` is the result of `write`. -/
structure WriteOracle where
  cannotOpen : Bool
  written : Option Nat
  cannotSync : Bool
  cannotClose : Bool
  cannotRename : Bool

/-- `next=%d` and a newline -/
def stateText (stage : Int) : List Char := "next=".toList ++ (toString stage).toList ++ ['\n']

/-- `persist_first_run_touch_state`: whether the stage was saved, and the disk. -/
def persistFirstRunTouchState (o : WriteOracle) (statePath : Option Path) (stage : Int)
    (disk : Disk) : Bool × Disk :=
  let statePath := statePath.getD []
  if statePath = [] then (false, disk)
  else
    let (pathLength, temporaryPath) := snprintf PATH_MAX (statePath ++ ".tmp".toList)
    if pathLength < 0 ∨ pathLength ≥ PATH_MAX ∨ o.cannotOpen then (false, disk)
    else if o.written ≠ some (stateText stage).length ∨ o.cannotSync ∨ o.cannotClose ∨
        o.cannotRename then
      (false, Function.update disk temporaryPath none)
    else
      (true,
        Function.update (Function.update disk temporaryPath none) statePath
          (some (stateText stage)))

def saveDirectory : Path := "Android/data/com.gameloft.android.ANMP.GloftASHM/files/save/".toList

def firstRunTouchState : Path := saveDirectory ++ "asm2-first-run-touch-state-v3".toList
def firstAcceptV2Marker : Path := saveDirectory ++ ".asm2-legal-accepted-v2".toList
def firstAcceptV1Marker : Path := saveDirectory ++ ".asm2-legal-accepted-v1".toList

def existingProfileMarker : Path :=
  "Android/data/com.gameloft.android.ANMP.GloftASHM/files/ud_Control.sav".toList

def firstAcceptLegacyV1 : Int := 4
def firstAcceptLegacyV2 : Int := 5

/-- `asm2_first_run_resume_stage` -/
def firstRunResumeStage (storedStage : Int) : Int :=
  if storedStage ≥ firstRunTouchLegal ∧ storedStage < firstRunTouchComplete then storedStage
  else firstRunTouchLegal

def isSpace (c : Char) : Bool := c = ' ' ∨ (0x09 ≤ c.toNat ∧ c.toNat ≤ 0x0d)

/-- `%d` of `fscanf`, with the limits of an `int` -/
def scanInt (text : List Char) : Option Int :=
  let text := text.dropWhile isSpace
  let (sign, text) : Int × List Char :=
    match text with
    | '-' :: text => (-1, text)
    | '+' :: text => (1, text)
    | text => (1, text)
  let digits := text.takeWhile Char.isDigit
  if digits = [] then none
  else
    let value : Nat := digits.foldl (fun value c => value * 10 + (c.toNat - '0'.toNat)) 0
    some (max (-2 ^ 31) (min (2 ^ 31 - 1) (sign * value)))

/-- `fscanf(state, "next=%d", …)` -/
def scanNext (content : List Char) : Option Int :=
  if content.take 5 = "next=".toList then scanInt (content.drop 5) else none

/-- `configure_first_run_touch`: the path of the state file and the configuration. -/
def configureFirstRunTouch (storageRoot : Path) (disk : Disk) : Path × Int :=
  match joinPath 4096 storageRoot firstRunTouchState, joinPath 4096 storageRoot firstAcceptV1Marker,
    joinPath 4096 storageRoot firstAcceptV2Marker,
    joinPath 4096 storageRoot existingProfileMarker with
  | some statePath, some v1Marker, some v2Marker, some existingProfile =>
    (statePath,
      if (disk existingProfile).isSome then firstRunTouchComplete
      else match disk statePath with
        | some content =>
          match scanNext content with
          | some nextStage =>
            if nextStage ≥ firstRunTouchLegal ∧ nextStage ≤ firstRunTouchComplete then
              firstRunResumeStage nextStage
            else firstRunTouchLegal
          | none => firstRunTouchLegal
        | none =>
          if (disk v2Marker).isSome then firstAcceptLegacyV2
          else if (disk v1Marker).isSome then firstAcceptLegacyV1
          else firstRunTouchLegal)
  | _, _, _, _ => ([], firstRunTouchComplete)

end StateFile

section Timeline

variable (F : Floats)

/-- Who told the guest: `begin_first_run_touch`, `finish_first_run_touch` or anyone else. -/
inductive Origin where
  | press
  | release
  | ordinary
  deriving DecidableEq, Repr

/-- One callback, or one change of the stage. -/
inductive Moment where
  | told (origin : Origin) (report : Report)
  | advanced (before after : Int)
  deriving DecidableEq, Repr

/-- What the guest was told from one state to a later one. -/
def news (s s' : State) : List Report := (s'.calls.drop s.calls.length).map Call.report

def told (origin : Origin) (s s' : State) : List Moment := (news s s').map (Moment.told origin)

/-- An event of the open controller. -/
def Input.Ours (input : Input) (which : Int) : Prop :=
  input.controller ≠ none ∧ which = input.instanceId

instance (input : Input) (which : Int) : Decidable (input.Ours which) :=
  inferInstanceAs (Decidable (_ ∧ _))

/-- The first-run contact is down and belongs to the button. -/
def Input.Remembers (input : Input) (button : SdlButton) : Prop :=
  input.firstRunTouchActive ∧ some button = input.firstRunTouchButton

instance (input : Input) (button : SdlButton) : Decidable (input.Remembers button) :=
  inferInstanceAs (Decidable (_ ∧ _))

/-- The button with which the action calls `begin_first_run_touch`. -/
def beginning (s : State) : Action → Option SdlButton
  | .event _ (.controllerButton which button pressed) =>
    if s.input.Ours which ∧ ¬ s.input.Remembers button ∧ pressed ∧
        s.input.firstRunTouchStage < firstRunTouchComplete ∧ isFirstRunTouchButton button then
      some button
    else none
  | _ => none

/-- The state in which the action calls `finish_first_run_touch`. -/
def finishing (s : State) : Action → Option State
  | .event _ (.controllerButton which button pressed) =>
    if s.input.Ours which ∧ s.input.Remembers button ∧ ¬ pressed then some s else none
  | .event _ (.controllerDeviceRemoved which) =>
    if s.input.Ours which then some s else none
  | .event _ .windowFocusLost => some s
  | .shutdown =>
    let s := releaseAllTouches F (releaseMouseTouch (releaseKeyboardState s))
    if s.input.controller ≠ none then some s else none
  | _ => none

/-- What `finish_first_run_touch` does, in its order. -/
def finishMoments (s : State) : List Moment :=
  let s' := finishFirstRunTouch F s
  told .release s s' ++
    if s'.input.firstRunTouchStage = s.input.firstRunTouchStage then []
    else [.advanced s.input.firstRunTouchStage s'.input.firstRunTouchStage]

def moments (s : State) (action : Action) : List Moment :=
  match beginning s action, finishing F s action with
  | some button, _ => told .press s (beginFirstRunTouch F button s)
  | none, some at_ =>
    told .ordinary s at_ ++ finishMoments F at_ ++
      told .ordinary (finishFirstRunTouch F at_) (act F s action)
  | none, none => told .ordinary s (act F s action)

def timeline (s : State) : List Action → List Moment
  | [] => []
  | action :: actions => moments F s action ++ timeline (act F s action) actions

end Timeline

section Sequence

/-- Where the sequence stands: before the press of a stage, between press and release, after
the first of the two calls that lift a touch, and after the release. -/
inductive Phase where
  | waiting (stage : Int)
  | pressed (stage : Int)
  | lifting (stage : Int)
  | released (stage : Int)
  deriving DecidableEq, Repr

def Report.isTouch (action : TouchAction) : Report → Bool
  | .touch action' _ _ pointerId => action' = action ∧ pointerId = 0
  | _ => false

def HidEventId.isFace (id : HidEventId) : Bool := id = .a ∨ id = .b ∨ id = .x ∨ id = .y

def Report.isFacePress : Report → Bool
  | .hid id value => id.isFace ∧ value = 1
  | _ => false

/-- The press that belongs to a stage. -/
def isPressOf (stage : Int) (report : Report) : Bool :=
  if stage = firstRunTouchUpdateLog then report = .hid .a 1 else report.isTouch .down

/-- At each stage one press, then one release and at once the next stage; besides, no face
button is pressed before the last stage. -/
def follow : Phase → Moment → Option Phase
  | .waiting stage, .told .press report =>
    if isPressOf stage report then some (.pressed stage) else none
  | .pressed stage, .told .release report =>
    if stage = firstRunTouchUpdateLog then
      if report = .hid .a 0 then some (.released stage) else none
    else if report.isTouch .up then some (.lifting stage) else none
  | .lifting stage, .told .release report =>
    if report = endSentinel then some (.released stage) else none
  | .released stage, .advanced before after =>
    if before = stage ∧ after = stage + 1 then some (.waiting after) else none
  | .waiting stage, .told .ordinary report =>
    if stage < firstRunTouchComplete ∧ report.isFacePress then none else some (.waiting stage)
  | .pressed stage, .told .ordinary report =>
    if report.isFacePress then none else some (.pressed stage)
  | _, _ => none

def followAll : Phase → List Moment → Option Phase
  | phase, [] => some phase
  | phase, moment :: moments => (follow phase moment).bind fun phase => followAll phase moments

/-- No other face button is pressed while a synthetic touch is down, and the A button is not
released while it is down for another button. -/
def Orderly (s : State) : Action → Prop
  | .event _ (.controllerButton which button pressed) =>
    s.input.Ours which → s.input.firstRunTouchActive → some button ≠ s.input.firstRunTouchButton →
      if pressed then
        isFirstRunTouchButton button → s.input.firstRunTouchStage = firstRunTouchUpdateLog
      else button = .a → s.input.firstRunTouchStage ≠ firstRunTouchUpdateLog
  | _ => True

end Sequence

section Calm

variable {F : Floats} {s s' s'' : State}

/-- Nothing of the sequence has happened from one state to a later one: only the A button may
have been let go, unless it is held down for the guest. -/
structure Calm (s s' : State) : Prop where
  calls : ∃ later, s'.calls = s.calls ++ later ∧
    (s.input.firstRunTouchStage < firstRunTouchComplete →
      ∀ call ∈ later, call.report.isFacePress = false)
  stage : s'.input.firstRunTouchStage = s.input.firstRunTouchStage
  active : s'.input.firstRunTouchActive = s.input.firstRunTouchActive
  held : s.input.firstRunTouchStage < firstRunTouchComplete →
    (s'.input.hidValues .a = s.input.hidValues .a ∧ s'.input.hidSent .a = s.input.hidSent .a) ∨
    (s'.input.hidValues .a = 0 ∧
      ¬ (s.input.firstRunTouchActive ∧ s.input.firstRunTouchStage = firstRunTouchUpdateLog))

theorem Calm.refl (s : State) : Calm s s :=
  ⟨⟨[], (List.append_nil _).symm, fun _ _ hnil => absurd hnil List.not_mem_nil⟩, rfl, rfl,
    fun _ => .inl ⟨rfl, rfl⟩⟩

theorem Calm.trans (h : Calm s s') (h' : Calm s' s'') : Calm s s'' := by
  obtain ⟨later, hcalls, hquiet⟩ := h.calls
  obtain ⟨later', hcalls', hquiet'⟩ := h'.calls
  refine ⟨⟨later ++ later', ?_, fun hstage call hmem => ?_⟩, h'.stage.trans h.stage,
    h'.active.trans h.active, ?_⟩
  · rw [hcalls', hcalls, List.append_assoc]
  · rcases List.mem_append.mp hmem with hmem | hmem
    · exact hquiet hstage call hmem
    · exact hquiet' (h.stage ▸ hstage) call hmem
  · intro hbelow
    have hheld := h'.held (h.stage ▸ hbelow)
    rw [h.active, h.stage] at hheld
    rcases hheld with ⟨hvalue, hsent⟩ | hzero
    · rcases h.held hbelow with ⟨hvalue', hsent'⟩ | ⟨hvalue', hfree⟩
      · exact .inl ⟨hvalue.trans hvalue', hsent.trans hsent'⟩
      · exact .inr ⟨hvalue.trans hvalue', hfree⟩
    · exact .inr hzero

/-- A report, with a change of the record before it. -/
theorem Calm.tell {input : Input} {report : Report}
    (h : s.input.firstRunTouchStage < firstRunTouchComplete → report.isFacePress = false)
    (hstage : input.firstRunTouchStage = s.input.firstRunTouchStage)
    (hactive : input.firstRunTouchActive = s.input.firstRunTouchActive)
    (hheld : s.input.firstRunTouchStage < firstRunTouchComplete →
      (input.hidValues .a = s.input.hidValues .a ∧ input.hidSent .a = s.input.hidSent .a) ∨
      (input.hidValues .a = 0 ∧
        ¬ (s.input.firstRunTouchActive ∧ s.input.firstRunTouchStage = firstRunTouchUpdateLog))) :
    Calm s (emit report { s with input }) := by
  refine ⟨⟨[_], rfl, fun hbelow call hmem => ?_⟩, hstage, hactive, hheld⟩
  rw [List.mem_singleton.mp hmem]
  exact h hbelow

/-- A change of the record outside the sequence. -/
theorem Calm.record {input : Input}
    (hstage : input.firstRunTouchStage = s.input.firstRunTouchStage)
    (hactive : input.firstRunTouchActive = s.input.firstRunTouchActive)
    (hvalue : input.hidValues .a = s.input.hidValues .a)
    (hsent : input.hidSent .a = s.input.hidSent .a) : Calm s { s with input } :=
  ⟨⟨[], (List.append_nil _).symm, fun _ _ hnil => absurd hnil List.not_mem_nil⟩, hstage, hactive,
    fun _ => .inl ⟨hvalue, hsent⟩⟩

theorem Calm.foldl {α : Type} {f : State → α → State} (h : ∀ s a, Calm s (f s a)) (items : List α)
    (s : State) : Calm s (items.foldl f s) := by
  induction items generalizing s with
  | nil => exact Calm.refl s
  | cons item items ih => exact (h s item).trans (ih _)

theorem Calm.touch (action : TouchAction) (x y : Int) (pointerId : Nat) (s : State) :
    Calm s (InputPump.emit (.touch action x y pointerId) s) :=
  Calm.tell (fun _ => rfl) rfl rfl fun _ => .inl ⟨rfl, rfl⟩

theorem Calm.openController (sdl : Sdl) (deviceIndex : Int) (s : State) :
    Calm s (openController sdl deviceIndex s) := by
  unfold InputPump.openController
  split
  · exact Calm.refl s
  · split
    · exact Calm.refl s
    · split
      · exact Calm.refl s
      · exact Calm.tell (fun _ => rfl) rfl rfl fun _ => .inl ⟨rfl, rfl⟩

theorem Calm.openFirst (sdl : Sdl) (indices : List Nat) (s : State) :
    Calm s (openFirst sdl indices s) := by
  induction indices generalizing s with
  | nil => exact Calm.refl s
  | cons index indices ih =>
    unfold InputPump.openFirst
    dsimp only
    split
    · exact Calm.openController sdl index s
    · exact (Calm.openController sdl index s).trans (ih _)

theorem Calm.openFirstController (sdl : Sdl) (s : State) :
    Calm s (openFirstController sdl s) := by
  unfold InputPump.openFirstController
  split
  · exact Calm.refl s
  · exact Calm.openFirst sdl _ s

theorem Calm.sendKey (key : Nat) (pressed : Bool) (s : State) :
    Calm s (sendKey key pressed s) := by
  unfold InputPump.sendKey
  split
  · exact Calm.refl s
  · split
    · exact Calm.refl s
    · exact Calm.tell (fun _ => rfl) rfl rfl fun _ => .inl ⟨rfl, rfl⟩

theorem Calm.releaseKeyboardState (s : State) : Calm s (releaseKeyboardState s) := by
  refine Calm.foldl (fun s key => ?_) _ s
  unfold releaseKey
  split
  · exact Calm.tell (fun _ => rfl) rfl rfl fun _ => .inl ⟨rfl, rfl⟩
  · exact Calm.refl s

theorem Calm.setMouse (x y : Int) (pressed : Bool) (s : State) :
    Calm s (setMouse x y pressed s) :=
  Calm.record rfl rfl rfl rfl

theorem Calm.releaseMouseTouch (s : State) : Calm s (releaseMouseTouch s) := by
  unfold InputPump.releaseMouseTouch
  split
  · exact (Calm.touch .up _ _ 0 s).trans ((Calm.setMouse _ _ _ _).trans (Calm.touch .up _ _ 0 _))
  · exact Calm.refl s

theorem Calm.releaseAllTouches (s : State) : Calm s (releaseAllTouches F s) := by
  have hfold : Calm s (slots.foldl (releaseTouch F) s) := by
    refine Calm.foldl (fun s slot => ?_) _ s
    unfold releaseTouch
    dsimp only
    split
    · exact (Calm.touch .up _ _ slot s).trans (Calm.record rfl rfl rfl rfl)
    · exact Calm.refl s
  unfold InputPump.releaseAllTouches
  dsimp only
  split
  · exact hfold.trans (Calm.touch .up _ _ 0 _)
  · exact hfold

/-- What a loss of focus and a shutdown let go besides the controller. -/
theorem Calm.releaseRest (s : State) :
    Calm s (InputPump.releaseAllTouches F
      (InputPump.releaseMouseTouch (InputPump.releaseKeyboardState s))) :=
  ((Calm.releaseKeyboardState s).trans (Calm.releaseMouseTouch _)).trans (Calm.releaseAllTouches _)

theorem Calm.setFinger (slot : Fin inputMaxFingers) (finger : TouchSlot) (s : State) :
    Calm s (setFinger slot finger s) :=
  Calm.record rfl rfl rfl rfl

theorem Calm.allocateTouchSlot (fingerId : Int) (s : State) :
    Calm s (allocateTouchSlot fingerId s).2 := by
  unfold InputPump.allocateTouchSlot
  split
  · exact Calm.refl s
  · split
    · exact Calm.setFinger _ _ s
    · exact Calm.refl s

theorem Calm.handleFingerEvent (finger : TouchFingerEvent) (type : FingerEventType) (s : State) :
    Calm s (handleFingerEvent F finger type s) := by
  unfold InputPump.handleFingerEvent
  cases type with
  | down =>
    dsimp only
    have hslot := Calm.allocateTouchSlot finger.fingerId s
    split
    · rename_i hfound
      rwa [hfound] at hslot
    · rename_i hfound
      rw [hfound] at hslot
      exact hslot.trans ((Calm.setFinger _ _ _).trans (Calm.touch .down _ _ _ _))
  | motion =>
    cases touchSlotForFinger s.input finger.fingerId with
    | none => exact Calm.refl s
    | some slot => exact (Calm.setFinger slot _ s).trans (Calm.touch .move _ _ _ _)
  | up =>
    cases touchSlotForFinger s.input finger.fingerId with
    | none => exact Calm.refl s
    | some slot =>
      dsimp only
      split
      · exact (Calm.setFinger slot _ s).trans ((Calm.touch .up _ _ slot _).trans
          ((Calm.setFinger slot _ _).trans (Calm.touch .up _ _ 0 _)))
      · exact (Calm.setFinger slot _ s).trans ((Calm.touch .up _ _ slot _).trans
          (Calm.setFinger slot _ _))

theorem Calm.handleMouseButton (sdl : Sdl) (button : MouseButtonEvent) (down : Bool) (s : State) :
    Calm s (handleMouseButton F sdl button down s) := by
  unfold InputPump.handleMouseButton
  split
  · exact Calm.refl s
  · dsimp only
    split
    · split
      · exact Calm.setMouse _ _ _ s
      · exact (Calm.setMouse _ _ _ s).trans (Calm.touch .down _ _ 0 _)
    · split
      · exact (Calm.setMouse _ _ true s).trans ((Calm.touch .up _ _ 0 _).trans
          ((Calm.setMouse _ _ false _).trans (Calm.touch .up _ _ 0 _)))
      · exact Calm.setMouse _ _ _ s

theorem Calm.handleMouseMotion (sdl : Sdl) (motion : MouseMotionEvent) (s : State) :
    Calm s (handleMouseMotion F sdl motion s) := by
  unfold InputPump.handleMouseMotion
  split
  · exact Calm.refl s
  · exact (Calm.setMouse _ _ true s).trans (Calm.touch .move _ _ 0 _)

/-- A control is told a value; if it is A, the value is 0 and nobody holds A. -/
theorem Calm.sendHid {eventId : Option HidEventId} {value : ℚ}
    (hface : s.input.firstRunTouchStage < firstRunTouchComplete → ∀ id, eventId = some id →
      (Report.hid id value).isFacePress = false)
    (ha : s.input.firstRunTouchStage < firstRunTouchComplete → eventId = some .a → value = 0 ∧
      ¬ (s.input.firstRunTouchActive ∧ s.input.firstRunTouchStage = firstRunTouchUpdateLog)) :
    Calm s (sendHid F eventId value s) := by
  unfold InputPump.sendHid
  cases eventId with
  | none => exact Calm.refl s
  | some id =>
    dsimp only
    split
    · exact Calm.refl s
    · refine Calm.tell (fun hbelow => hface hbelow id rfl) rfl rfl fun hbelow => ?_
      dsimp only
      by_cases hid : id = .a
      · subst hid
        obtain ⟨rfl, hfree⟩ := ha hbelow rfl
        exact .inr ⟨Function.update_self .., hfree⟩
      · have hne : HidEventId.a ≠ id := Ne.symm hid
        exact .inl ⟨Function.update_of_ne hne .., Function.update_of_ne hne ..⟩

/-- When no contact is down, letting go of the controls is outside the sequence. -/
theorem Calm.releaseHid (hidle : s.input.firstRunTouchActive = false) (id : HidEventId) :
    Calm s (releaseHid s id) := by
  unfold InputPump.releaseHid
  split
  · refine Calm.tell (fun _ => ?_) rfl rfl fun _ => ?_
    · simp [Report.isFacePress]
    dsimp only
    by_cases hid : id = .a
    · subst hid
      exact .inr ⟨Function.update_self .., by rw [hidle]; exact fun h => Bool.false_ne_true h.1⟩
    · exact .inl ⟨Function.update_of_ne (Ne.symm hid) .., rfl⟩
  · exact Calm.refl s

theorem Calm.releaseHids (hidle : s.input.firstRunTouchActive = false) (ids : List HidEventId) :
    Calm s (ids.foldl InputPump.releaseHid s) := by
  induction ids generalizing s with
  | nil => exact Calm.refl s
  | cons id ids ih =>
    have hfirst := Calm.releaseHid hidle id
    exact hfirst.trans (ih (hfirst.active.trans hidle))

/-- What `release_controller_state` does after `finish_first_run_touch`. -/
theorem Calm.releaseControls (hidle : s.input.firstRunTouchActive = false) :
    Calm s
      { HidEventId.all.foldl InputPump.releaseHid s with
        input :=
          { (HidEventId.all.foldl InputPump.releaseHid s).input with
            hidValues := fun _ => 0
            hidSent := fun _ => false
            selectPressed := false
            startPressed := false } } := by
  refine (Calm.releaseHids hidle HidEventId.all).trans ⟨⟨[], (List.append_nil _).symm,
    fun _ _ hnil => absurd hnil List.not_mem_nil⟩, rfl, rfl, fun _ => .inr ⟨rfl, ?_⟩⟩
  rw [(Calm.releaseHids hidle _).active, hidle]
  exact fun h => Bool.false_ne_true h.1

end Calm

section Ready

variable {F : Floats} {s s' : State} {input : Input}

/-- Rounding to a `double`: exact on small integers, monotone, and positive on the threshold of
`send_hid`. -/
structure Doubles extends Floats where
  exact : ∀ n : ℤ, n.natAbs ≤ 2 ^ 53 → double n = n
  mono : Monotone double
  threshold : 0 < double 0.000001

theorem Doubles.apart (F : Doubles) {n : ℤ} (h : n.natAbs = 1) :
    ¬ |F.double n| < F.double 0.000001 := by
  have hle : F.double 0.000001 ≤ F.double ((1 : ℤ) : ℚ) := F.mono (by norm_num)
  rw [F.exact 1 (by decide)] at hle
  rw [F.exact n (by omega), not_lt]
  refine hle.trans (le_of_eq ?_)
  rcases Int.natAbs_eq n with hn | hn <;> rw [hn, h] <;> norm_num

theorem Doubles.same (F : Doubles) : |F.double ((0 : ℤ) : ℚ)| < F.double 0.000001 := by
  rw [F.exact 0 (by decide)]
  simpa using F.threshold

/-- The value of A that the guest has been told while the sequence lasts. -/
def Input.HoldsA (input : Input) : Prop :=
  if input.firstRunTouchActive ∧ input.firstRunTouchStage = firstRunTouchUpdateLog then
    input.hidValues .a = 1 ∧ input.hidSent .a
  else input.hidValues .a = 0

theorem Input.HoldsA.of_idle (hidle : input.firstRunTouchActive = false)
    (hzero : input.hidValues .a = 0) : input.HoldsA := by
  rw [Input.HoldsA, hidle, if_neg fun hboth => Bool.false_ne_true hboth.1]
  exact hzero

structure Ready (input : Input) : Prop where
  low : firstRunTouchLegal ≤ input.firstRunTouchStage
  high : input.firstRunTouchStage ≤ firstRunTouchComplete
  below : input.firstRunTouchActive → input.firstRunTouchStage < firstRunTouchComplete
  held : input.firstRunTouchStage < firstRunTouchComplete → input.HoldsA

theorem Ready.calm (h : Ready s.input) (hcalm : Calm s s') : Ready s'.input := by
  refine ⟨hcalm.stage ▸ h.low, hcalm.stage ▸ h.high, ?_, fun hbelow => ?_⟩
  · rw [hcalm.active, hcalm.stage]
    exact h.below
  · rw [hcalm.stage] at hbelow
    have hheld := h.held hbelow
    unfold Input.HoldsA at hheld ⊢
    rw [hcalm.active, hcalm.stage]
    rcases hcalm.held hbelow with ⟨hvalue, hsent⟩ | ⟨hzero, hfree⟩
    · rw [hvalue, hsent]
      exact hheld
    · rw [if_neg hfree]
      exact hzero

/-- The phase a record stands in. -/
def phaseOf (input : Input) : Phase :=
  if input.firstRunTouchActive then .pressed input.firstRunTouchStage
  else .waiting input.firstRunTouchStage

theorem followAll_append (phase : Phase) (first rest : List Moment) :
    followAll phase (first ++ rest) =
      (followAll phase first).bind fun phase => followAll phase rest := by
  induction first generalizing phase with
  | nil => rfl
  | cons moment first ih =>
    rw [List.cons_append, followAll, followAll]
    cases follow phase moment with
    | none => rfl
    | some phase => exact ih phase

theorem news_append {later : List Call} (h : s'.calls = s.calls ++ later) :
    news s s' = later.map Call.report := by
  rw [news, h, List.drop_left]

theorem follow_ordinary {report : Report} (h : Ready input)
    (hreport : input.firstRunTouchStage < firstRunTouchComplete → report.isFacePress = false) :
    follow (phaseOf input) (.told .ordinary report) = some (phaseOf input) := by
  unfold phaseOf
  split
  · rename_i hactive
    rw [follow, hreport (h.below hactive)]
    rfl
  · rw [follow, if_neg]
    rintro ⟨hbelow, hpress⟩
    rw [hreport hbelow] at hpress
    cases hpress

theorem followAll_ordinary (h : Ready input) {later : List Call}
    (hquiet : input.firstRunTouchStage < firstRunTouchComplete →
      ∀ call ∈ later, call.report.isFacePress = false) :
    followAll (phaseOf input) ((later.map Call.report).map (Moment.told .ordinary)) =
      some (phaseOf input) := by
  induction later with
  | nil => rfl
  | cons call later ih =>
    have hcall := follow_ordinary h fun hbelow => hquiet hbelow call List.mem_cons_self
    rw [List.map_cons, List.map_cons, followAll, hcall]
    exact ih fun hbelow other hother => hquiet hbelow other (List.mem_cons_of_mem _ hother)

/-- Outside the sequence the phase stays. -/
theorem Calm.follow (hcalm : Calm s s') (h : Ready s.input) :
    followAll (phaseOf s.input) (told .ordinary s s') = some (phaseOf s'.input) := by
  have hphase : phaseOf s'.input = phaseOf s.input := by
    rw [phaseOf, hcalm.active, hcalm.stage, phaseOf]
  obtain ⟨later, hcalls, hquiet⟩ := hcalm.calls
  rw [hphase, told, news_append hcalls]
  exact followAll_ordinary h hquiet

end Ready

section Tap

variable {s : State} (F : Doubles)

theorem sendHid_tells {id : HidEventId} {value : ℚ}
    (h : ¬ (s.input.hidSent id ∧ |F.double (s.input.hidValues id - value)| < F.double 0.000001)) :
    sendHid F.toFloats (some id) value s =
      emit (.hid id value)
        { s with
          input :=
            { s.input with
              hidValues := Function.update s.input.hidValues id value
              hidSent := Function.update s.input.hidSent id true } } := by
  unfold sendHid
  dsimp only
  rw [if_neg h]

/-- The release of A at the second stage is never suppressed. -/
theorem sendHid_release (hvalue : s.input.hidValues .a = 1) :
    ¬ (s.input.hidSent .a ∧ |F.double (s.input.hidValues .a - 0)| < F.double 0.000001) := by
  rintro ⟨-, hclose⟩
  rw [hvalue] at hclose
  exact F.apart (n := 1) rfl (by simpa using hclose)

theorem sendHid_press (hvalue : s.input.hidValues .a = 0) :
    ¬ (s.input.hidSent .a ∧ |F.double (s.input.hidValues .a - 1)| < F.double 0.000001) := by
  rintro ⟨-, hclose⟩
  rw [hvalue] at hclose
  exact F.apart (n := -1) rfl (by simpa using hclose)

theorem finish_idle (hidle : s.input.firstRunTouchActive = false) :
    finishFirstRunTouch F.toFloats s = s := by
  unfold finishFirstRunTouch
  rw [if_neg (by rw [hidle]; exact Bool.false_ne_true)]

/-- The synthetic release: its calls, and the record with the next stage. -/
theorem finish_active (h : Ready s.input) (hactive : s.input.firstRunTouchActive) :
    ∃ later : List Call,
      (finishFirstRunTouch F.toFloats s).calls = s.calls ++ later ∧
      (finishFirstRunTouch F.toFloats s).input.firstRunTouchStage =
        s.input.firstRunTouchStage + 1 ∧
      (finishFirstRunTouch F.toFloats s).input.firstRunTouchActive = false ∧
      (finishFirstRunTouch F.toFloats s).input.hidValues .a = 0 ∧
      followAll (.pressed s.input.firstRunTouchStage)
        ((later.map Call.report).map (Moment.told .release)) =
          some (.released s.input.firstRunTouchStage) := by
  have hbelow := h.below hactive
  have hheld := h.held hbelow
  unfold Input.HoldsA at hheld
  unfold finishFirstRunTouch
  rw [if_pos hactive]
  dsimp only
  by_cases hlog : s.input.firstRunTouchStage = firstRunTouchUpdateLog
  · rw [if_pos ⟨hactive, hlog⟩] at hheld
    rw [if_pos hlog, sendHid_tells F (sendHid_release F hheld.1)]
    refine ⟨[_], rfl, if_pos hbelow, rfl,
      Function.update_self HidEventId.a 0 s.input.hidValues, ?_⟩
    rw [hlog]
    rfl
  · rw [if_neg fun hboth => hlog hboth.2] at hheld
    rw [if_neg hlog]
    refine ⟨[_, _], List.append_assoc _ _ _, if_pos hbelow, rfl, hheld, ?_⟩
    simp only [List.map_cons, List.map_nil, followAll, follow, if_neg hlog, Report.isTouch]
    rfl

theorem finish_follow (h : Ready s.input) :
    followAll (phaseOf s.input) (finishMoments F.toFloats s) =
        some (phaseOf (finishFirstRunTouch F.toFloats s).input) ∧
      Ready (finishFirstRunTouch F.toFloats s).input ∧
      (finishFirstRunTouch F.toFloats s).input.firstRunTouchActive = false := by
  cases hactive : s.input.firstRunTouchActive with
  | false =>
    unfold finishMoments
    rw [finish_idle F hactive]
    dsimp only
    rw [if_pos rfl, told, news_append (List.append_nil _).symm]
    exact ⟨rfl, h, hactive⟩
  | true =>
    obtain ⟨later, hcalls, hstage, hidle, hzero, hfollow⟩ := finish_active F h hactive
    have hbelow := h.below hactive
    have hlow := h.low
    unfold firstRunTouchLegal at hlow
    unfold firstRunTouchComplete at hbelow
    refine ⟨?_, ⟨?_, ?_, ?_, fun _ => ?_⟩, hidle⟩
    · unfold finishMoments
      dsimp only
      rw [hstage, if_neg (by omega), followAll_append, told, news_append hcalls, phaseOf,
        if_pos hactive, hfollow, phaseOf, hidle, hstage]
      simp [followAll, follow]
    · rw [hstage, firstRunTouchLegal]
      omega
    · rw [hstage, firstRunTouchComplete]
      omega
    · rw [hidle]
      exact fun hnever => absurd hnever Bool.false_ne_true
    · exact Input.HoldsA.of_idle hidle hzero

/-- The record during the synthetic press. -/
def Input.tapped (input : Input) (button : SdlButton) : Input :=
  { input with firstRunTouchActive := true, firstRunTouchButton := some button }

theorem Ready.tapped {input input' : Input} (h : Ready input)
    (hbelow : input.firstRunTouchStage < firstRunTouchComplete)
    (hstage : input'.firstRunTouchStage = input.firstRunTouchStage) (hheld : input'.HoldsA) :
    Ready input' :=
  ⟨hstage ▸ h.low, hstage ▸ h.high, fun _ => hstage ▸ hbelow, fun _ => hheld⟩

theorem begin_updateLog (button : SdlButton)
    (hlog : s.input.firstRunTouchStage = firstRunTouchUpdateLog) :
    beginFirstRunTouch F.toFloats button s =
      sendHid F.toFloats (some .a) 1 { s with input := s.input.tapped button } := by
  unfold beginFirstRunTouch
  exact if_pos hlog

/-- A is down for the guest already, and the press of another face button tells it nothing. -/
theorem begin_again (button : SdlButton)
    (hlog : s.input.firstRunTouchStage = firstRunTouchUpdateLog)
    (hheld : s.input.hidValues .a = 1 ∧ s.input.hidSent .a) :
    beginFirstRunTouch F.toFloats button s = { s with input := s.input.tapped button } := by
  rw [begin_updateLog F button hlog, sendHid]
  dsimp only
  refine if_pos ⟨hheld.2, ?_⟩
  change |F.double (s.input.hidValues .a - 1)| < _
  have hsame := F.same
  rw [hheld.1, sub_self]
  rwa [Int.cast_zero] at hsame

/-- The synthetic press, when no touch is down. -/
theorem begin_follow (h : Ready s.input) (button : SdlButton)
    (hbelow : s.input.firstRunTouchStage < firstRunTouchComplete)
    (halone : s.input.firstRunTouchActive →
      s.input.firstRunTouchStage = firstRunTouchUpdateLog) :
    followAll (phaseOf s.input) (told .press s (beginFirstRunTouch F.toFloats button s)) =
        some (phaseOf (beginFirstRunTouch F.toFloats button s).input) ∧
      Ready (beginFirstRunTouch F.toFloats button s).input := by
  have hheld := h.held hbelow
  unfold Input.HoldsA at hheld
  by_cases hlog : s.input.firstRunTouchStage = firstRunTouchUpdateLog
  · cases hactive : s.input.firstRunTouchActive with
    | true =>
      rw [if_pos ⟨hactive, hlog⟩] at hheld
      have hnews : news s { s with input := s.input.tapped button } = ([] : List Call).map _ :=
        news_append (List.append_nil _).symm
      rw [begin_again F button hlog hheld, told, hnews, phaseOf, if_pos hactive]
      refine ⟨rfl, h.tapped hbelow rfl ?_⟩
      rw [Input.HoldsA, if_pos ⟨rfl, hlog⟩]
      exact hheld
    | false =>
      rw [if_neg fun hboth => Bool.false_ne_true (hactive ▸ hboth.1)] at hheld
      have hpress := sendHid_press F (s := { s with input := s.input.tapped button }) hheld
      rw [begin_updateLog F button hlog, sendHid_tells F hpress, told, news_append rfl, phaseOf,
        if_neg (by rw [hactive]; exact Bool.false_ne_true)]
      refine ⟨?_, h.tapped hbelow rfl ?_⟩
      · rw [hlog]
        have hphase : phaseOf (s.input.tapped button) = .pressed s.input.firstRunTouchStage := rfl
        rw [hlog] at hphase
        exact congrArg some hphase.symm
      · rw [Input.HoldsA, if_pos ⟨rfl, hlog⟩]
        exact ⟨Function.update_self HidEventId.a 1 s.input.hidValues,
          show Function.update s.input.hidSent .a true .a = true from Function.update_self ..⟩
  · have hidle : s.input.firstRunTouchActive = false := by
      by_contra hnot
      exact hlog (halone (by simpa using hnot))
    rw [if_neg fun hboth => hlog hboth.2] at hheld
    unfold beginFirstRunTouch
    dsimp only
    rw [if_neg hlog, told, news_append rfl, phaseOf,
      if_neg (by rw [hidle]; exact Bool.false_ne_true)]
    refine ⟨?_, h.tapped hbelow rfl ?_⟩
    · simp only [List.map_cons, List.map_nil, followAll, follow, isPressOf, if_neg hlog,
        Report.isTouch]
      rfl
    · rw [Input.HoldsA, if_neg fun hboth => hlog hboth.2]
      exact hheld

end Tap

section Steps

variable {F : Floats} {s t : State} {action : Action}

theorem hidButton_a {button : SdlButton} (h : hidButton button = some .a) : button = .a := by
  cases button <;> simp [hidButton] at h
  rfl

theorem hidButton_face {button : SdlButton} {id : HidEventId} (h : hidButton button = some id)
    (hface : id.isFace) : isFirstRunTouchButton button := by
  cases button <;> simp only [hidButton, Option.some.injEq, reduceCtorEq] at h <;> subst h <;>
    first | rfl | exact absurd hface (by decide)

theorem axisReport_face (axis : SdlAxis) (value : BitVec 16) (id : HidEventId)
    (h : (axisReport F axis value).1 = some id) : id.isFace = false := by
  cases axis <;> simp only [axisReport, Option.some.injEq, reduceCtorEq] at h <;> subst h <;> rfl

theorem Calm.selects (eventId : Option HidEventId) (pressed : Bool) (s : State) :
    Calm s
      (if eventId = some .select then { s with input := { s.input with selectPressed := pressed } }
      else if eventId = some .start then
        { s with input := { s.input with startPressed := pressed } }
      else s) := by
  split
  · exact Calm.record rfl rfl rfl rfl
  · split
    · exact Calm.record rfl rfl rfl rfl
    · exact Calm.refl s

theorem closeController_open (notify : Bool) (hopen : s.input.controller ≠ none)
    (hidle : (finishFirstRunTouch F s).input.firstRunTouchActive = false) :
    Calm (finishFirstRunTouch F s) (closeController F notify s) := by
  unfold closeController
  rw [if_neg hopen]
  have hcontrols := Calm.releaseControls hidle
  refine hcontrols.trans ?_
  cases notify with
  | false => exact Calm.record rfl rfl rfl rfl
  | true =>
    exact Calm.trans (Calm.tell (fun _ => rfl) rfl rfl fun _ => .inl ⟨rfl, rfl⟩)
      (Calm.record rfl rfl rfl rfl)

/-- A button event of the open controller. -/
theorem act_button {sdl : Sdl} {which : Int} {button : SdlButton} {pressed : Bool}
    (hours : s.input.Ours which) :
    act F s (.event sdl (.controllerButton which button pressed)) =
      (handleControllerButton F button pressed s).1 := by
  have hopen : ¬ (s.input.controller = none ∨ which ≠ s.input.instanceId) := by
    rintro (hclosed | hother)
    · exact hours.1 hclosed
    · exact hother hours.2
  unfold act handleEvent
  dsimp only
  rw [if_neg hopen]

theorem button_remembered {button : SdlButton} {pressed : Bool}
    (h : s.input.Remembers button) :
    (handleControllerButton F button pressed s).1 =
      if pressed then s else finishFirstRunTouch F s := by
  have htap : handleControllerButton F button pressed s =
      (if pressed then s else finishFirstRunTouch F s, true) := if_pos h
  rw [htap]

theorem button_begins {button : SdlButton} {pressed : Bool} (h : ¬ s.input.Remembers button)
    (hbegins : pressed ∧ s.input.firstRunTouchStage < firstRunTouchComplete ∧
      isFirstRunTouchButton button) :
    (handleControllerButton F button pressed s).1 = beginFirstRunTouch F button s := by
  have htap : handleControllerButton F button pressed s = (beginFirstRunTouch F button s, true) :=
    (if_neg h).trans (if_pos hbegins)
  rw [htap]

/-- Other buttons are told as they are, and a face button only when it is let go. -/
theorem button_told {button : SdlButton} {pressed : Bool} (h : ¬ s.input.Remembers button)
    (hbegins : ¬ (pressed ∧ s.input.firstRunTouchStage < firstRunTouchComplete ∧
      isFirstRunTouchButton button))
    (hfree : pressed = false → button = .a →
      ¬ (s.input.firstRunTouchActive ∧ s.input.firstRunTouchStage = firstRunTouchUpdateLog)) :
    Calm s (handleControllerButton F button pressed s).1 := by
  have htold : (handleControllerButton F button pressed s).1 =
      (let s := sendHid F (hidButton button) (if pressed then 1 else 0) s
      if hidButton button = some .select then
        { s with input := { s.input with selectPressed := pressed } }
      else if hidButton button = some .start then
        { s with input := { s.input with startPressed := pressed } }
      else s) := congrArg Prod.fst ((if_neg h).trans (if_neg hbegins))
  rw [htold]
  refine Calm.trans ?_ (Calm.selects _ pressed _)
  refine Calm.sendHid (fun hbelow id hid => ?_) fun hbelow ha => ?_
  · cases pressed with
    | false => simp [Report.isFacePress]
    | true =>
      cases hface : id.isFace with
      | false => simp [Report.isFacePress, hface]
      | true => exact absurd ⟨rfl, hbelow, hidButton_face hid hface⟩ hbegins
  · have hbutton := hidButton_a ha
    cases pressed with
    | false => exact ⟨rfl, hfree rfl hbutton⟩
    | true => exact absurd ⟨rfl, hbelow, by rw [hbutton]; rfl⟩ hbegins

theorem act_beginning {button : SdlButton} (h : beginning s action = some button) :
    act F s action = beginFirstRunTouch F button s ∧
      s.input.firstRunTouchStage < firstRunTouchComplete ∧
      (Orderly s action → s.input.firstRunTouchActive →
        s.input.firstRunTouchStage = firstRunTouchUpdateLog) := by
  unfold beginning at h
  split at h
  · rename_i sdl which button' pressed
    split at h
    · rename_i hbegins
      obtain ⟨hours, hforgotten, hpressed, hbelow, hface⟩ := hbegins
      cases h
      refine ⟨?_, hbelow, fun horderly hactive => ?_⟩
      · rw [act_button hours, button_begins hforgotten ⟨hpressed, hbelow, hface⟩]
      · have hother := horderly hours hactive fun hsame => hforgotten ⟨hactive, hsame⟩
        rw [if_pos hpressed] at hother
        exact hother hface
    · cases h
  · cases h

/-- Around `finish_first_run_touch` an action does nothing of the sequence. -/
theorem act_finishing (h : finishing F s action = some t) :
    Calm s t ∧ Calm (finishFirstRunTouch F t) (act F s action) := by
  have hidle : (finishFirstRunTouch F t).input.firstRunTouchActive = false := by
    obtain ⟨_, _, _, _, hinput⟩ := finishFirstRunTouch_input (F := F) t
    rw [hinput]
  unfold finishing at h
  split at h
  · rename_i sdl which button pressed
    split at h
    · rename_i hfinishes
      obtain ⟨hours, hremembers, hreleased⟩ := hfinishes
      cases h
      rw [act_button hours, button_remembered hremembers, if_neg hreleased]
      exact ⟨Calm.refl s, Calm.refl _⟩
    · cases h
  · rename_i sdl which
    split at h
    · rename_i hours
      cases h
      refine ⟨Calm.refl s, ?_⟩
      unfold act handleEvent
      dsimp only
      rw [if_pos hours.2]
      exact (closeController_open true hours.1 hidle).trans (Calm.openFirstController sdl _)
    · cases h
  · rename_i sdl
    cases h
    have hcontrols : Calm (finishFirstRunTouch F s) (releaseControllerState F s) :=
      Calm.releaseControls hidle
    have hlost : act F s (.event sdl .windowFocusLost) = handleFocusLost F s := by
      simp only [act, handleEvent]
    rw [hlost]
    exact ⟨Calm.refl s, hcontrols.trans (Calm.releaseRest _)⟩
  · dsimp only at h
    split at h
    · rename_i hopen
      obtain rfl := Option.some.inj h
      exact ⟨Calm.releaseRest s, closeController_open true hopen hidle⟩
    · cases h
  · cases h

/-- An action that calls neither of the two functions is outside the sequence. -/
theorem act_calm (horderly : Orderly s action) (hbegin : beginning s action = none)
    (hfinish : finishing F s action = none) : Calm s (act F s action) := by
  cases action with
  | shutdown =>
    unfold finishing at hfinish
    dsimp only at hfinish
    unfold act shutdown closeController
    split at hfinish
    · cases hfinish
    · rename_i hclosed
      rw [if_pos (not_not.mp hclosed)]
      exact Calm.releaseRest s
  | event sdl event =>
    cases event with
    | controllerDeviceAdded which => exact Calm.openController sdl which s
    | controllerDeviceRemoved which =>
      unfold finishing at hfinish
      dsimp only at hfinish
      split at hfinish
      · cases hfinish
      · rename_i hother
        unfold act handleEvent
        dsimp only
        split
        · rename_i hwhich
          have hclosed : s.input.controller = none := by
            by_contra hopen
            exact hother ⟨hopen, hwhich⟩
          rw [closeController, if_pos hclosed]
          exact Calm.openFirstController sdl s
        · exact Calm.refl s
    | controllerButton which button pressed =>
      unfold beginning at hbegin
      unfold finishing at hfinish
      dsimp only at hbegin hfinish
      by_cases hours : s.input.Ours which
      · rw [act_button hours]
        by_cases hremembers : s.input.Remembers button
        · rw [button_remembered hremembers]
          cases pressed with
          | false =>
            rw [if_pos ⟨hours, hremembers, Bool.false_ne_true⟩] at hfinish
            cases hfinish
          | true => exact Calm.refl s
        · refine button_told hremembers (fun hbegins => ?_) fun hreleased ha hheld => ?_
          · rw [if_pos ⟨hours, hremembers, hbegins⟩] at hbegin
            cases hbegin
          · have hother := horderly hours hheld.1 fun hsame => hremembers ⟨hheld.1, hsame⟩
            rw [if_neg (by rw [hreleased]; exact Bool.false_ne_true)] at hother
            exact hother ha hheld.2
      · have hact : act F s (.event sdl (.controllerButton which button pressed)) = s := by
          unfold act handleEvent
          dsimp only
          split
          · rfl
          · rename_i hopen
            push Not at hopen
            exact absurd hopen hours
        rw [hact]
        exact Calm.refl s
    | controllerAxisMotion which axis value =>
      unfold act handleEvent
      dsimp only
      split
      · exact Calm.refl s
      · refine Calm.sendHid (fun _ id hid => ?_) fun _ ha => ?_
        · rw [Report.isFacePress, axisReport_face axis value id hid]
          rfl
        · exact absurd (axisReport_face axis value .a ha) (by decide)
    | finger type tfinger => exact Calm.handleFingerEvent tfinger type s
    | mouseButton pressed button => exact Calm.handleMouseButton sdl button pressed s
    | mouseMotion motion => exact Calm.handleMouseMotion sdl motion s
    | key pressed repeated sym =>
      unfold act handleEvent
      dsimp only
      split
      · exact Calm.refl s
      · exact Calm.sendKey _ _ s
    | windowSizeChanged data1 data2 => exact Calm.record rfl rfl rfl rfl
    | windowFocusLost => cases hfinish
    | quit | other => exact Calm.refl s

end Steps

section Runs

variable {F : Doubles} {s t : State} {action : Action}

/-- A step keeps to the sequence. -/
theorem step_follow (h : Ready s.input) (horderly : Orderly s action) :
    followAll (phaseOf s.input) (moments F.toFloats s action) =
        some (phaseOf (act F.toFloats s action).input) ∧
      Ready (act F.toFloats s action).input := by
  unfold moments
  cases hbegin : beginning s action with
  | some button =>
    obtain ⟨hact, hbelow, halone⟩ := act_beginning (F := F.toFloats) hbegin
    rw [hact]
    exact begin_follow F h button hbelow (halone horderly)
  | none =>
    cases hfinish : finishing F.toFloats s action with
    | some t =>
      obtain ⟨hbefore, hafter⟩ := act_finishing hfinish
      have ht := h.calm hbefore
      obtain ⟨hfollow, hready, -⟩ := finish_follow F ht
      dsimp only
      rw [followAll_append, followAll_append, hbefore.follow h, Option.bind_some, hfollow,
        Option.bind_some]
      exact ⟨hafter.follow hready, hready.calm hafter⟩
    | none =>
      have hcalm := act_calm horderly hbegin hfinish
      exact ⟨hcalm.follow h, h.calm hcalm⟩

def OrderlyRun (F : Floats) (s : State) : List Action → Prop
  | [] => True
  | action :: actions => Orderly s action ∧ OrderlyRun F (act F s action) actions

theorem run_follow (h : Ready s.input) {actions : List Action}
    (horderly : OrderlyRun F.toFloats s actions) :
    followAll (phaseOf s.input) (timeline F.toFloats s actions) =
        some (phaseOf (after F.toFloats s actions).input) ∧
      Ready (after F.toFloats s actions).input := by
  induction actions generalizing s with
  | nil => exact ⟨rfl, h⟩
  | cons action actions ih =>
    obtain ⟨hfollow, hready⟩ := step_follow h horderly.1
    obtain ⟨hrest, hend⟩ := ih hready horderly.2
    refine ⟨?_, hend⟩
    rw [timeline, followAll_append, hfollow, Option.bind_some, hrest]
    rfl

end Runs

section Faithful

variable {F : Floats} {s t u : State} {action : Action}

/-- The report of a moment; a change of the stage is none. -/
def Moment.report : Moment → Option Report
  | .told _ report => some report
  | .advanced _ _ => none

theorem told_reports (origin : Origin) (s t : State) :
    (told origin s t).filterMap Moment.report = news s t := by
  unfold told
  rw [List.filterMap_map]
  exact List.filterMap_some

theorem news_trans (h : s.calls <+: t.calls) (h' : t.calls <+: u.calls) :
    news s t ++ news t u = news s u := by
  obtain ⟨later, hlater⟩ := h
  obtain ⟨later', hlater'⟩ := h'
  have hboth : u.calls = s.calls ++ (later ++ later') := by
    rw [← hlater', ← hlater, List.append_assoc]
  rw [news_append hlater.symm, news_append hlater'.symm, ← List.map_append, news_append hboth]

theorem Calm.extends (h : Calm s t) : s.calls <+: t.calls := by
  obtain ⟨later, hcalls, -⟩ := h.calls
  exact ⟨later, hcalls.symm⟩

theorem finishMoments_reports (s : State) :
    (finishMoments F s).filterMap Moment.report = news s (finishFirstRunTouch F s) := by
  unfold finishMoments
  dsimp only
  rw [List.filterMap_append, told_reports]
  split
  · exact List.append_nil _
  · exact List.append_nil _

/-- The moments of an action are what it tells the guest. -/
theorem moments_reports (s : State) (action : Action) :
    (moments F s action).filterMap Moment.report = news s (act F s action) := by
  unfold moments
  cases hbegin : beginning s action with
  | some button =>
    rw [(act_beginning (F := F) hbegin).1]
    exact told_reports _ _ _
  | none =>
    cases hfinish : finishing F s action with
    | some t =>
      obtain ⟨hbefore, hafter⟩ := act_finishing hfinish
      dsimp only
      rw [List.filterMap_append, List.filterMap_append, told_reports, told_reports,
        finishMoments_reports, news_trans hbefore.extends (finishFirstRunTouch_extends F t),
        news_trans (hbefore.extends.trans (finishFirstRunTouch_extends F t)) hafter.extends]
    | none => exact told_reports _ _ _

theorem timeline_reports (s : State) (actions : List Action) :
    (timeline F s actions).filterMap Moment.report = news s (after F s actions) := by
  induction actions generalizing s with
  | nil => exact (news_append (List.append_nil s.calls).symm).symm
  | cons action actions ih =>
    rw [timeline, List.filterMap_append, moments_reports, ih,
      news_trans (act_extends F s action) (after_extends F _ actions)]
    rfl

end Faithful

section Saved

variable {F : Doubles}

theorem persist_saved {o : WriteOracle} {statePath : Path} {stage : Int} {disk : Disk}
    (h : (persistFirstRunTouchState o (some statePath) stage disk).1) :
    (persistFirstRunTouchState o (some statePath) stage disk).2 statePath =
      some (stateText stage) := by
  unfold persistFirstRunTouchState at h ⊢
  dsimp only at h ⊢
  split at h
  · cases h
  · rename_i hpath
    rw [if_neg hpath]
    split at h
    · cases h
    · rename_i hopen
      rw [if_neg hopen]
      split at h
      · cases h
      · rename_i hwritten
        rw [if_neg hwritten]
        exact Function.update_self ..

theorem persist_named {o : WriteOracle} {statePath : Path} {stage : Int} {disk : Disk}
    (h : (persistFirstRunTouchState o (some statePath) stage disk).1) : statePath ≠ [] := by
  rintro rfl
  cases h

theorem scanNext_stateText {stage : Int} (hlow : firstRunTouchLegal ≤ stage)
    (hhigh : stage ≤ firstRunTouchComplete) : scanNext (stateText stage) = some stage := by
  unfold firstRunTouchLegal at hlow
  unfold firstRunTouchComplete at hhigh
  have hcases : stage = 0 ∨ stage = 1 ∨ stage = 2 ∨ stage = 3 := by omega
  rcases hcases with rfl | rfl | rfl | rfl <;> decide +kernel

/-- No completed profile lies below the root. -/
def NoProfile (storageRoot : Path) (disk : Disk) : Prop :=
  (joinPath 4096 storageRoot existingProfileMarker).bind disk = none

/-- Where the state file has a path, all markers have one. -/
theorem configure_path {storageRoot statePath : Path} {disk : Disk}
    (h : (configureFirstRunTouch storageRoot disk).1 = statePath) (hpath : statePath ≠ []) :
    joinPath 4096 storageRoot firstRunTouchState = some statePath := by
  unfold configureFirstRunTouch at h
  split at h
  · rename_i hstate _ _ _
    rw [hstate, ← h]
  · exact absurd h.symm hpath

theorem joinPath_shorter {storageRoot name shorter path : Path}
    (h : joinPath 4096 storageRoot name = some path) (hle : shorter.length ≤ name.length) :
    joinPath 4096 storageRoot shorter = some (storageRoot ++ '/' :: shorter) := by
  obtain ⟨rfl, hfits⟩ := PathBridge.joinPath_eq_some.mp h
  refine PathBridge.joinPath_eq_some.mpr ⟨rfl, ?_⟩
  unfold PathBridge.Fits at hfits ⊢
  rw [List.length_append, List.length_cons] at hfits ⊢
  omega

theorem firstRunResumeStage_eq {stage : Int} (hlow : firstRunTouchLegal ≤ stage)
    (hhigh : stage ≤ firstRunTouchComplete) :
    firstRunResumeStage stage =
      if stage = firstRunTouchComplete then firstRunTouchLegal else stage := by
  unfold firstRunResumeStage
  split
  · rename_i hbelow
    rw [if_neg (Int.ne_of_lt hbelow.2)]
  · rename_i hnot
    rw [if_pos (Int.le_antisymm hhigh (not_lt.mp fun hbelow => hnot ⟨hlow, hbelow⟩))]

/-- What the next start reads back. -/
theorem configure_reads {storageRoot statePath : Path} {disk : Disk} {stage : Int}
    (hpath : joinPath 4096 storageRoot firstRunTouchState = some statePath)
    (hsaved : disk statePath = some (stateText stage)) (hprofile : NoProfile storageRoot disk)
    (hlow : firstRunTouchLegal ≤ stage) (hhigh : stage ≤ firstRunTouchComplete) :
    (configureFirstRunTouch storageRoot disk).2 =
      if stage = firstRunTouchComplete then firstRunTouchLegal else stage := by
  have hprofilePath : joinPath 4096 storageRoot existingProfileMarker = _ :=
    joinPath_shorter hpath (by decide)
  unfold NoProfile at hprofile
  rw [hprofilePath, Option.bind_some] at hprofile
  unfold configureFirstRunTouch
  rw [hpath, joinPath_shorter hpath (by decide), joinPath_shorter hpath (by decide), hprofilePath]
  dsimp only
  rw [hprofile, hsaved, Option.isSome_none, if_neg Bool.false_ne_true]
  dsimp only
  rw [scanNext_stateText hlow hhigh]
  dsimp only
  rw [if_pos ⟨hlow, hhigh⟩, firstRunResumeStage_eq hlow hhigh]

end Saved

section World

variable {F : Doubles}

/-- A session with its disk; `saved` says how the latest write of the state file ended. -/
structure World where
  state : State
  disk : Disk
  saved : Option Bool

/-- Whether the action runs through `finish_first_run_touch` and so to the write. -/
def finishes (F : Floats) (s : State) (action : Action) : Bool :=
  ((finishing F s action).map fun s => s.input.firstRunTouchActive).getD false

def World.act (F : Floats) (statePath : Path) (w : World) (step : Action × WriteOracle) : World :=
  let state := InputPump.act F w.state step.1
  if finishes F w.state step.1 then
    let (saved, disk) := persistFirstRunTouchState step.2 (some statePath)
      state.input.firstRunTouchStage w.disk
    { state, disk, saved := some saved }
  else { w with state }

def World.after (F : Floats) (statePath : Path) (w : World) (steps : List (Action × WriteOracle)) :
    World :=
  steps.foldl (World.act F statePath) w

/-- After a successful write the state file holds the stage in memory. -/
def World.Kept (statePath : Path) (w : World) : Prop :=
  w.saved = some true →
    statePath ≠ [] ∧ w.disk statePath = some (stateText w.state.input.firstRunTouchStage)

theorem begin_stage (F : Floats) (button : SdlButton) (s : State) :
    (beginFirstRunTouch F button s).input.firstRunTouchStage = s.input.firstRunTouchStage := by
  unfold beginFirstRunTouch
  dsimp only
  split
  · obtain ⟨_, _, hinput⟩ := sendHid_input (F := F) (some .a) 1
      { s with input := s.input.tapped button }
    exact (congrArg Input.firstRunTouchStage hinput).trans rfl
  · rfl

/-- Without a finished contact the stage stays. -/
theorem stage_of_not_finishes {s : State} {action : Action}
    (horderly : Orderly s action) (hnot : finishes F.toFloats s action = false) :
    (InputPump.act F.toFloats s action).input.firstRunTouchStage = s.input.firstRunTouchStage := by
  cases hbegin : beginning s action with
  | some button =>
    rw [(act_beginning (F := F.toFloats) hbegin).1]
    exact begin_stage F.toFloats button s
  | none =>
    cases hfinish : finishing F.toFloats s action with
    | some t =>
      obtain ⟨hbefore, hafter⟩ := act_finishing hfinish
      have hidle : t.input.firstRunTouchActive = false := by
        rw [finishes, hfinish] at hnot
        exact hnot
      rw [hafter.stage, finish_idle F hidle, hbefore.stage]
    | none => exact (act_calm horderly hbegin hfinish).stage

theorem World.act_state (statePath : Path) (w : World) (step : Action × WriteOracle) :
    (w.act F.toFloats statePath step).state = InputPump.act F.toFloats w.state step.1 := by
  unfold World.act
  dsimp only
  split <;> rfl

theorem World.Kept.act {statePath : Path} {w : World} (h : w.Kept statePath)
    (step : Action × WriteOracle) (horderly : Orderly w.state step.1) :
    (w.act F.toFloats statePath step).Kept statePath := by
  unfold World.act
  dsimp only
  split
  · intro hsaved
    have hsaved' := Option.some.inj hsaved
    exact ⟨persist_named hsaved', persist_saved hsaved'⟩
  · rename_i hnot
    intro hsaved
    rw [stage_of_not_finishes horderly (by simpa using hnot)]
    exact h hsaved

theorem World.after_state (statePath : Path) (w : World) (steps : List (Action × WriteOracle)) :
    (w.after F.toFloats statePath steps).state =
      InputPump.after F.toFloats w.state (steps.map Prod.fst) := by
  induction steps generalizing w with
  | nil => rfl
  | cons step steps ih =>
    refine (ih (w.act F.toFloats statePath step)).trans ?_
    rw [World.act_state]
    rfl

theorem World.Kept.after {statePath : Path} {w : World} (h : w.Kept statePath)
    {steps : List (Action × WriteOracle)}
    (horderly : OrderlyRun F.toFloats w.state (steps.map Prod.fst)) :
    (w.after F.toFloats statePath steps).Kept statePath := by
  induction steps generalizing w with
  | nil => exact h
  | cons step steps ih =>
    refine ih (h.act step horderly.1) ?_
    rw [World.act_state]
    exact horderly.2

/-- The record `asm2_input_init` makes, and the first controller opened. -/
theorem ready_initial (sdl : Sdl) (drawableWidth drawableHeight : Int) (statePath : Option String)
    (stage : Int) :
    Ready (initial sdl drawableWidth drawableHeight statePath stage).input ∧
      (initial sdl drawableWidth drawableHeight statePath stage).input.firstRunTouchActive =
        false := by
  have hcalm : Calm _ (initial sdl drawableWidth drawableHeight statePath stage) :=
    Calm.openFirstController sdl _
  refine ⟨Ready.calm ⟨?_, ?_, fun hnever => absurd hnever Bool.false_ne_true, fun _ => ?_⟩ hcalm,
    hcalm.active⟩
  · dsimp only
    split
    · decide
    · rename_i hstage
      omega
  · dsimp only
    split
    · decide
    · rename_i hstage
      omega
  · exact Input.HoldsA.of_idle rfl rfl

/-- A session: the controllers and the drawable at its start, the storage root with its disk, and
the stage it begins with. -/
structure Session where
  sdl : Sdl
  drawableWidth : Int
  drawableHeight : Int
  storageRoot : Path
  disk : Disk
  stage : Int

/-- The path of the state file, as main.c has configured it. -/
def Session.statePath (session : Session) : Path :=
  (configureFirstRunTouch session.storageRoot session.disk).1

def Session.start (session : Session) : State :=
  initial session.sdl session.drawableWidth session.drawableHeight
    (some (String.ofList session.statePath)) session.stage

def Session.after (F : Floats) (session : Session) (steps : List (Action × WriteOracle)) : World :=
  World.after F session.statePath ⟨session.start, session.disk, none⟩ steps

def Session.timeline (F : Floats) (session : Session) (steps : List (Action × WriteOracle)) :
    List Moment :=
  InputPump.timeline F session.start (steps.map Prod.fst)

/-- The timeline is what the guest is told and keeps to the order of the sequence, and a stage
that was saved is read back at the next start. -/
structure KeepsSequence (F : Floats) (session : Session) (steps : List (Action × WriteOracle)) :
    Prop where
  told : (session.timeline F steps).filterMap Moment.report =
    news session.start (session.after F steps).state
  follows : followAll (.waiting session.start.input.firstRunTouchStage) (session.timeline F steps) =
    some (phaseOf (session.after F steps).state.input)
  readsBack : (session.after F steps).saved = some true → ∀ disk,
    disk session.statePath = (session.after F steps).disk session.statePath →
    NoProfile session.storageRoot disk →
    (configureFirstRunTouch session.storageRoot disk).2 =
      if (session.after F steps).state.input.firstRunTouchStage = firstRunTouchComplete then
        firstRunTouchLegal
      else (session.after F steps).state.input.firstRunTouchStage

/-- A session in which no second button interferes with the synthetic contact keeps to the
sequence. -/
theorem keepsSequence (F : Doubles) (session : Session) (steps : List (Action × WriteOracle))
    (horderly : OrderlyRun F.toFloats session.start (steps.map Prod.fst)) :
    KeepsSequence F.toFloats session steps := by
  obtain ⟨hready, hidle⟩ := ready_initial session.sdl session.drawableWidth session.drawableHeight
    (some (String.ofList session.statePath)) session.stage
  obtain ⟨hfollow, hend⟩ := run_follow hready horderly
  have hstate : (session.after F.toFloats steps).state =
      InputPump.after F.toFloats session.start (steps.map Prod.fst) :=
    World.after_state session.statePath _ steps
  refine ⟨?_, ?_, fun hsaved disk hsame hprofile => ?_⟩
  · rw [hstate]
    exact timeline_reports _ _
  · rw [phaseOf, if_neg (by rw [hidle]; exact Bool.false_ne_true)] at hfollow
    rw [hstate]
    exact hfollow
  · have hkept : World.Kept session.statePath ⟨session.start, session.disk, none⟩ :=
      fun hnever => nomatch hnever
    obtain ⟨hpath, hdisk⟩ := hkept.after horderly hsaved
    rw [hstate]
    change (session.after F.toFloats steps).disk _ = some (stateText
      (session.after F.toFloats steps).state.input.firstRunTouchStage) at hdisk
    rw [hdisk, hstate] at hsame
    exact configure_reads (configure_path rfl hpath) hsame hprofile hend.low hend.high

/-- Numbers that need no rounding. -/
def unrounded : Doubles :=
  ⟨⟨id, id, fun _ h => h⟩, fun _ _ => rfl, monotone_id, by norm_num⟩

/-- One controller, of instance 7. -/
def onePad : Sdl := ⟨1, fun _ => true, fun _ => some ⟨7, none⟩, none⟩

def firstSession : Session := ⟨onePad, 640, 480, "/game/gamefiles".toList, fun _ => none, 0⟩

def face (button : SdlButton) (pressed : Bool) : Action × WriteOracle :=
  (.event onePad (.controllerButton 7 button pressed), ⟨false, some 7, false, false, false⟩)

/-- One tap of A. -/
theorem keepsSequence_tap :
    KeepsSequence unrounded.toFloats firstSession [face .a true, face .a false] :=
  keepsSequence unrounded firstSession [face .a true, face .a false]
    ⟨fun _ hactive => absurd hactive (by decide +kernel),
      fun _ _ hother => absurd (by decide +kernel) hother, trivial⟩

/-- A and then B, both held: the legal notice gets two presses. -/
theorem chord_breaks_sequence :
    ¬ KeepsSequence unrounded.toFloats firstSession [face .a true, face .b true] := by
  intro h
  have hbroken : followAll (.waiting firstSession.start.input.firstRunTouchStage)
      (firstSession.timeline unrounded.toFloats [face .a true, face .b true]) = none := by
    decide +kernel
  rw [h.follows] at hbroken
  cases hbroken

end World

end Asm2Runtime.InputPump
