import Asm2Runtime.InputPump
import Mathlib.Order.Fin.Basic

/-!
# No input stays pressed

What the guest was told last is computed from the recorded calls. The record agrees with
it at every call, and a pointer that the guest takes for pressed is held by the mouse, by
the synthetic tap or by a finger, so that releasing these three releases every pointer.
-/

namespace Asm2Runtime.InputPump

open EventLog

section Told

variable {α : Type} {of : Report → Option α} {calls : List Call} {call : Call}

/-- The last of the reports that are selected. -/
def latest (of : Report → Option α) (calls : List Call) : Option α :=
  calls.reverse.findSome? fun call => of call.report

@[simp] theorem latest_nil (of : Report → Option α) : latest of [] = none := rfl

@[simp] theorem latest_snoc :
    latest of (calls ++ [call]) = (of call.report).or (latest of calls) := by
  unfold latest
  rw [List.reverse_append, List.reverse_singleton, List.singleton_append, List.findSome?_cons]
  cases of call.report <;> rfl

def Report.hidOf (id : HidEventId) : Report → Option ℚ
  | .hid id' value => if id' = id then some value else none
  | _ => none

def Report.keyOf (key : Nat) : Report → Option Bool
  | .key key' pressed => if key' = key then some pressed else none
  | _ => none

def Report.actionOf (p : Nat) : Report → Option TouchAction
  | .touch action _ _ p' => if p' = p then some action else none
  | _ => none

/-- The value the guest was told last; a control that was never reported counts as 0. -/
def toldHid (id : HidEventId) (calls : List Call) : ℚ := (latest (Report.hidOf id) calls).getD 0

def toldKey (key : Nat) (calls : List Call) : Bool := (latest (Report.keyOf key) calls).getD false

def toldAction (p : Nat) (calls : List Call) : TouchAction :=
  (latest (Report.actionOf p) calls).getD .up

/-- The guest has been told the values of the record. -/
structure Tracks (input : Input) (calls : List Call) : Prop where
  hid : ∀ id, toldHid id calls = input.hidValues id
  key : ∀ key, toldKey key calls = input.keyDown key

/-- The guest takes nothing for pressed. -/
structure Released (calls : List Call) : Prop where
  hid : ∀ id, toldHid id calls = 0
  key : ∀ key, toldKey key calls = false
  touch : ∀ p, toldAction p calls = .up

/-- Reports of neither a control nor a key. -/
def Report.Quiet : Report → Prop
  | .hid _ _ | .key _ _ => False
  | _ => True

variable {input input' : Input} {report : Report}

/-- A change of the record that keeps the controls and keys stays in step with the calls. -/
theorem Tracks.record (h : Tracks input calls) (hhid : input'.hidValues = input.hidValues)
    (hkey : input'.keyDown = input.keyDown) : Tracks input' calls := by
  constructor
  · intro id
    rw [hhid, h.hid]
  · intro key
    rw [hkey, h.key]

theorem Tracks.quiet (h : Tracks input calls) (hquiet : call.report.Quiet) :
    Tracks input (calls ++ [call]) := by
  have hhid : ∀ id, call.report.hidOf id = none := by
    cases hreport : call.report <;> simp_all [Report.hidOf, Report.Quiet]
  have hkey : ∀ key, call.report.keyOf key = none := by
    cases hreport : call.report <;> simp_all [Report.keyOf, Report.Quiet]
  constructor
  · intro id
    rw [toldHid, latest_snoc, hhid id, Option.none_or]
    exact h.hid id
  · intro key
    rw [toldKey, latest_snoc, hkey key, Option.none_or]
    exact h.key key

/-- A report of a control is in step with a record of the same value. -/
theorem Tracks.hidReport {id : HidEventId} {value : ℚ} {during : Input} (h : Tracks input calls)
    (hhid : input'.hidValues = Function.update input.hidValues id value)
    (hkey : input'.keyDown = input.keyDown) :
    Tracks input' (calls ++ [⟨.hid id value, during⟩]) := by
  constructor
  · intro id'
    by_cases hid : id = id'
    · subst hid
      simp [toldHid, Report.hidOf, hhid]
    · have hother := h.hid id'
      simpa [toldHid, Report.hidOf, hhid, hid, Function.update_of_ne (Ne.symm hid)] using hother
  · intro key
    simpa [toldKey, Report.keyOf, hkey] using h.key key

theorem Tracks.keyReport {key : Nat} {pressed : Bool} {during : Input} (h : Tracks input calls)
    (hhid : input'.hidValues = input.hidValues)
    (hkey : input'.keyDown = Function.update input.keyDown key pressed) :
    Tracks input' (calls ++ [⟨.key key pressed, during⟩]) := by
  constructor
  · intro id
    simpa [toldHid, Report.hidOf, hhid] using h.hid id
  · intro key'
    by_cases heq : key = key'
    · subst heq
      simp [toldKey, Report.keyOf, hkey]
    · have hother := h.key key'
      simpa [toldKey, Report.keyOf, hkey, heq, Function.update_of_ne (Ne.symm heq)] using hother

end Told

section Sources

/-- The synthetic tap has a contact down. -/
def Input.Tapping (input : Input) : Prop :=
  input.firstRunTouchActive ∧ input.firstRunTouchStage ≠ firstRunTouchUpdateLog

/-- Mouse, tap or a finger has a contact down on the pointer. -/
def Input.Holds (input : Input) (p : Nat) : Prop :=
  (p = 0 ∧ (input.mousePressed ∨ input.Tapping)) ∨
    ∃ slot : Fin inputMaxFingers, slot.val = p ∧ (input.fingers slot).active

/-- What the fields of the record say of each other. -/
structure Input.Consistent (input : Input) : Prop where
  unsent : ∀ id, input.hidSent id = false → input.hidValues id = 0
  closed : input.controller = none →
    (∀ id, input.hidValues id = 0) ∧ input.firstRunTouchActive = false
  keys : ∀ key, input.keyDown key → key ∈ List.range' 1 (keyCount - 1)

/-- What the shutdown relies on: the record agrees with what the guest has been told. -/
structure Sound (s : State) : Prop where
  consistent : s.input.Consistent
  tracks : Tracks s.input s.calls
  atCalls : Throughout (fun before call => Tracks call.during (before ++ [call])) s.calls
  held : ∀ p, toldAction p s.calls ≠ .up → s.input.Holds p

variable {s : State} {input : Input} {report : Report}

theorem Sound.record (h : Sound s) (hconsistent : input.Consistent)
    (hhid : input.hidValues = s.input.hidValues) (hkey : input.keyDown = s.input.keyDown)
    (hheld : ∀ p, toldAction p s.calls ≠ .up → input.Holds p) : Sound { s with input } :=
  ⟨hconsistent, h.tracks.record hhid hkey, h.atCalls, hheld⟩

/-- The record changes, and then the guest is told. -/
theorem Sound.tell (h : Sound s) (hconsistent : input.Consistent)
    (htracks : Tracks input (s.calls ++ [⟨report, input⟩]))
    (hheld : ∀ p, toldAction p (s.calls ++ [⟨report, input⟩]) ≠ .up → input.Holds p) :
    Sound (emit report { s with input }) :=
  ⟨hconsistent, htracks, h.atCalls.snoc htracks, hheld⟩

theorem toldAction_snoc {calls : List Call} {call : Call} {p : Nat}
    (h : call.report.actionOf p = none) :
    toldAction p (calls ++ [call]) = toldAction p calls := by
  rw [toldAction, latest_snoc, h, Option.none_or, toldAction]

/-- The last action of a pointer is the one just reported. -/
theorem toldAction_touch {calls : List Call} {during : Input} {action : TouchAction} {x y : Int}
    {p p' : Nat} :
    toldAction p' (calls ++ [⟨.touch action x y p, during⟩]) =
      if p = p' then action else toldAction p' calls := by
  rw [toldAction, latest_snoc]
  by_cases hp : p = p'
  · simp [Report.actionOf, hp]
  · simp [Report.actionOf, hp, toldAction]

/-- Only an upward touch, or one on a held pointer. -/
theorem Sound.touch {action : TouchAction} {x y : Int} {p : Nat} (h : Sound s)
    (hp : action = .up ∨ s.input.Holds p) : Sound (emit (.touch action x y p) s) := by
  refine h.tell h.consistent (h.tracks.quiet trivial) fun p' hp' => ?_
  rw [toldAction_touch] at hp'
  split at hp'
  · rename_i heq
    subst heq
    exact hp.resolve_left hp'
  · exact h.held p' hp'

end Sources

section Fields

variable {F : Floats} {s : State}

@[simp] theorem emit_input (report : Report) (s : State) : (emit report s).input = s.input := rfl

@[simp] theorem emit_calls (report : Report) (s : State) :
    (emit report s).calls = s.calls ++ [⟨report, s.input⟩] := rfl

/-- `send_hid` changes the values and the sent bits only. -/
theorem sendHid_input (eventId : Option HidEventId) (value : ℚ) (s : State) :
    ∃ hidValues hidSent, (sendHid F eventId value s).input = { s.input with hidValues, hidSent } := by
  unfold sendHid
  cases eventId with
  | none => exact ⟨_, _, rfl⟩
  | some id =>
    dsimp only
    split
    · exact ⟨_, _, rfl⟩
    · exact ⟨_, _, rfl⟩

/-- After the synthetic tap; stage, values and sent bits may have changed. -/
theorem finishFirstRunTouch_input (s : State) :
    ∃ hidValues hidSent firstRunTouchStage firstRunTouchButton,
      (finishFirstRunTouch F s).input =
        { s.input with
          hidValues, hidSent, firstRunTouchStage, firstRunTouchButton
          firstRunTouchActive := false } := by
  unfold finishFirstRunTouch
  split
  · split
    · obtain ⟨hidValues, hidSent, hinput⟩ := sendHid_input (F := F) (some .a) 0 s
      dsimp only
      rw [hinput]
      exact ⟨_, _, _, _, rfl⟩
    · exact ⟨_, _, _, _, rfl⟩
  · rename_i hidle
    rw [Bool.not_eq_true] at hidle
    refine ⟨s.input.hidValues, s.input.hidSent, s.input.firstRunTouchStage,
      s.input.firstRunTouchButton, ?_⟩
    rw [← hidle]

def Input.setHid (input : Input) (hidValues : HidEventId → ℚ) : Input := { input with hidValues }

def Input.setKeys (input : Input) (keyDown : Nat → Bool) : Input := { input with keyDown }

def Input.setFingers (input : Input) (fingers : Fin inputMaxFingers → TouchSlot) : Input :=
  { input with fingers }

theorem releaseHid_input (s : State) (id : HidEventId) :
    (releaseHid s id).input = s.input.setHid fun id' =>
      if id' = id ∧ s.input.hidSent id' then 0 else s.input.hidValues id' := by
  unfold releaseHid
  split
  · rename_i hset
    refine congrArg s.input.setHid (funext fun id' => ?_)
    by_cases hid : id' = id
    · simp [hid, hset.1]
    · simp [hid]
  · rename_i hset
    change s.input.setHid s.input.hidValues = _
    refine congrArg s.input.setHid (funext fun id' => ?_)
    by_cases hid : id' = id
    · subst hid
      by_cases hsent : s.input.hidSent id' = true
      · simpa [hsent] using hset
      · simp [hsent]
    · simp [hid]

/-- Controls that were never sent are not released. -/
theorem releaseHid_fold (ids : List HidEventId) (s : State) :
    (ids.foldl releaseHid s).input = s.input.setHid fun id =>
      if id ∈ ids ∧ s.input.hidSent id then 0 else s.input.hidValues id := by
  induction ids generalizing s with
  | nil =>
    change s.input.setHid s.input.hidValues = _
    refine congrArg s.input.setHid (funext fun id => ?_)
    simp
  | cons id ids ih =>
    rw [List.foldl_cons, ih, releaseHid_input]
    refine congrArg s.input.setHid (funext fun id' => ?_)
    by_cases hsent : s.input.hidSent id' = true
    · by_cases hid : id' = id
      · subst hid
        simp [Input.setHid, hsent]
      · simp [Input.setHid, hsent, hid]
    · simp [Input.setHid, hsent]

theorem releaseKey_input (s : State) (key : Nat) :
    (releaseKey s key).input =
      s.input.setKeys fun key' => s.input.keyDown key' && !decide (key' = key) := by
  unfold releaseKey
  split
  · refine congrArg s.input.setKeys (funext fun key' => ?_)
    by_cases hkey : key' = key <;> simp [hkey]
  · rename_i hup
    change s.input.setKeys s.input.keyDown = _
    refine congrArg s.input.setKeys (funext fun key' => ?_)
    by_cases hkey : key' = key
    · subst hkey
      simpa using hup
    · simp [hkey]

theorem releaseKey_fold (keys : List Nat) (s : State) :
    (keys.foldl releaseKey s).input =
      s.input.setKeys fun key => s.input.keyDown key && !decide (key ∈ keys) := by
  induction keys generalizing s with
  | nil =>
    change s.input.setKeys s.input.keyDown = _
    refine congrArg s.input.setKeys (funext fun key => ?_)
    simp
  | cons key keys ih =>
    rw [List.foldl_cons, ih, releaseKey_input]
    refine congrArg s.input.setKeys (funext fun key' => ?_)
    by_cases hkey : key' = key <;> simp [Input.setKeys, hkey]

def TouchSlot.released (finger : TouchSlot) : TouchSlot := { finger with active := false }

theorem TouchSlot.released_of_idle {finger : TouchSlot} (h : finger.active = false) :
    finger.released = finger := by
  unfold TouchSlot.released
  rw [← h]

theorem releaseTouch_input (s : State) (slot : Fin inputMaxFingers) :
    (releaseTouch F s slot).input = s.input.setFingers fun slot' =>
      if slot' = slot then (s.input.fingers slot').released else s.input.fingers slot' := by
  unfold releaseTouch
  dsimp only
  split
  · refine congrArg s.input.setFingers (funext fun slot' => ?_)
    by_cases hslot : slot' = slot
    · subst hslot
      simp [TouchSlot.released]
    · simp [hslot, sendTouch]
  · rename_i hidle
    rw [Bool.not_eq_true] at hidle
    change s.input.setFingers s.input.fingers = _
    refine congrArg s.input.setFingers (funext fun slot' => ?_)
    by_cases hslot : slot' = slot
    · subst hslot
      simp [TouchSlot.released_of_idle hidle]
    · simp [hslot]

theorem releaseTouch_fold (released : List (Fin inputMaxFingers)) (s : State) :
    (released.foldl (releaseTouch F) s).input = s.input.setFingers fun slot =>
      if slot ∈ released then (s.input.fingers slot).released else s.input.fingers slot := by
  induction released generalizing s with
  | nil =>
    change s.input.setFingers s.input.fingers = _
    refine congrArg s.input.setFingers (funext fun slot => ?_)
    simp
  | cons slot released ih =>
    rw [List.foldl_cons, ih, releaseTouch_input]
    refine congrArg s.input.setFingers (funext fun slot' => ?_)
    by_cases hslot : slot' = slot <;> simp [Input.setFingers, TouchSlot.released, hslot]

theorem releaseAllTouches_input (s : State) :
    (releaseAllTouches F s).input =
      s.input.setFingers fun slot => (s.input.fingers slot).released := by
  have hfold := releaseTouch_fold (F := F) slots s
  simp only [slots, List.mem_finRange, if_true] at hfold
  unfold releaseAllTouches
  dsimp only
  split
  · exact hfold
  · exact hfold

theorem releaseMouseTouch_input (s : State) :
    (releaseMouseTouch s).input = { s.input with mousePressed := false } := by
  unfold releaseMouseTouch
  split
  · rfl
  · rename_i hup
    rw [Bool.not_eq_true] at hup
    rw [← hup]

theorem releaseKeyboardState_input (h : s.input.Consistent) :
    (releaseKeyboardState s).input = s.input.setKeys fun _ => false := by
  unfold releaseKeyboardState
  rw [releaseKey_fold]
  refine congrArg s.input.setKeys (funext fun key => ?_)
  by_cases hdown : s.input.keyDown key = true
  · simp [h.keys key hdown]
  · simp [hdown]

theorem releaseControllerState_input (s : State) :
    ∃ firstRunTouchStage firstRunTouchButton,
      (releaseControllerState F s).input =
        { s.input with
          hidValues := fun _ => 0
          hidSent := fun _ => false
          selectPressed := false
          startPressed := false
          firstRunTouchStage, firstRunTouchButton
          firstRunTouchActive := false } := by
  obtain ⟨_, _, stage, button, hfinish⟩ := finishFirstRunTouch_input (F := F) s
  refine ⟨stage, button, ?_⟩
  unfold releaseControllerState
  dsimp only
  rw [releaseHid_fold, hfinish]
  rfl

end Fields

section Handlers

variable {F : Floats} {s : State} {input : Input}

theorem Input.Holds.mono {p : Nat} (h : input.Holds p) {input' : Input}
    (hmouse : input.mousePressed → input'.mousePressed) (htap : input.Tapping → input'.Tapping)
    (hfingers : ∀ slot, (input.fingers slot).active → (input'.fingers slot).active) :
    input'.Holds p := by
  cases h with
  | inl hzero => exact Or.inl ⟨hzero.1, hzero.2.imp hmouse htap⟩
  | inr hfinger =>
    obtain ⟨slot, hslot, hactive⟩ := hfinger
    exact Or.inr ⟨slot, hslot, hfingers slot hactive⟩

/-- Pointers other than 0 are held by fingers only. -/
theorem Input.Holds.finger {p : Nat} (h : input.Holds p) (hp : p ≠ 0) {input' : Input}
    (hfingers : input'.fingers = input.fingers) : input'.Holds p := by
  cases h with
  | inl hzero => exact absurd hzero.1 hp
  | inr hfinger => exact Or.inr (hfingers ▸ hfinger)

/-- A controller that sends is open, so what it holds is given back when it closes. -/
theorem Sound.sendHid (h : Sound s) (hopen : s.input.controller ≠ none)
    (eventId : Option HidEventId) (value : ℚ) : Sound (sendHid F eventId value s) := by
  unfold InputPump.sendHid
  cases eventId with
  | none => exact h
  | some id =>
    dsimp only
    split
    · exact h
    · refine h.tell ⟨?_, fun hclosed => absurd hclosed hopen, h.consistent.keys⟩
        (h.tracks.hidReport rfl rfl) fun p hp => ?_
      · intro id' hsent
        dsimp only at hsent ⊢
        by_cases hid : id' = id
        · simp [hid] at hsent
        · rw [Function.update_of_ne hid] at hsent ⊢
          exact h.consistent.unsent id' hsent
      · rw [toldAction_snoc rfl] at hp
        exact h.held p hp

/-- A lifted pointer 0, and the record without one of its sources. -/
theorem Sound.lift (h : Sound s) (hup : toldAction 0 s.calls = .up) {input : Input}
    (hconsistent : input.Consistent) (hhid : input.hidValues = s.input.hidValues)
    (hkey : input.keyDown = s.input.keyDown) (hfingers : input.fingers = s.input.fingers) :
    Sound { s with input } := by
  refine h.record hconsistent hhid hkey fun p hp => ?_
  refine (h.held p hp).finger ?_ hfingers
  intro hzero
  rw [hzero] at hp
  exact hp hup

theorem Sound.sendTouchPixels (h : Sound s) (action : TouchAction) (x y : Int) (p : Nat)
    (hp : action = .up ∨ s.input.Holds p) : Sound (sendTouchPixels action x y p s) :=
  h.touch hp

theorem Sound.sendTouch (h : Sound s) (action : TouchAction) (x y : ℚ) (p : Nat)
    (hp : action = .up ∨ s.input.Holds p) : Sound (sendTouch F action x y p s) :=
  h.touch hp

theorem Sound.sendTouchEndSentinel (h : Sound s) : Sound (sendTouchEndSentinel s) :=
  h.touch (Or.inl rfl)

theorem toldAction_sentinel (s : State) : toldAction 0 (sendTouchEndSentinel s).calls = .up := by
  unfold sendTouchEndSentinel endSentinel
  rw [emit_calls, toldAction_touch, if_pos rfl]

theorem Sound.finishFirstRunTouch (h : Sound s) : Sound (finishFirstRunTouch F s) := by
  unfold InputPump.finishFirstRunTouch
  split
  · rename_i hactive
    have hopen : s.input.controller ≠ none := by
      intro hclosed
      have hidle := (h.consistent.closed hclosed).2
      rw [hactive] at hidle
      cases hidle
    split
    · rename_i hstage
      have hsent := h.sendHid (F := F) hopen (some .a) 0
      obtain ⟨_, _, hinput⟩ := sendHid_input (F := F) (some .a) 0 s
      refine hsent.record ⟨hsent.consistent.unsent,
        fun hclosed => ⟨(hsent.consistent.closed hclosed).1, rfl⟩, hsent.consistent.keys⟩ rfl rfl
        fun p hp => (hsent.held p hp).mono id ?_ fun _ => id
      intro htap
      rw [hinput] at htap
      exact absurd hstage htap.2
    · have hlifted := (h.sendTouchPixels .up s.input.firstRunTouchX s.input.firstRunTouchY 0
        (Or.inl rfl)).sendTouchEndSentinel
      exact hlifted.lift (toldAction_sentinel _) ⟨h.consistent.unsent,
        fun hclosed => ⟨(h.consistent.closed hclosed).1, rfl⟩, h.consistent.keys⟩ rfl rfl rfl
  · exact h

/-- A new record of a finger, unless it forgets a contact. -/
theorem Sound.setFinger (h : Sound s) (slot : Fin inputMaxFingers) (finger : TouchSlot)
    (hslot : finger.active ∨ ¬ (s.input.fingers slot).active ∨ toldAction slot s.calls = .up) :
    Sound (setFinger slot finger s) := by
  refine h.record ⟨h.consistent.unsent, h.consistent.closed, h.consistent.keys⟩ rfl rfl
    fun p hp => ?_
  cases h.held p hp with
  | inl hzero => exact Or.inl hzero
  | inr hfinger =>
    obtain ⟨slot', rfl, hactive⟩ := hfinger
    refine Or.inr ⟨slot', rfl, ?_⟩
    by_cases heq : slot' = slot
    · subst heq
      obtain hnew | hidle | hup := hslot
      · simpa using hnew
      · exact absurd hactive hidle
      · exact absurd hup hp
    · simpa [heq] using hactive

/-- The mouse may be taken up at any time; letting go of it is for `Sound.liftMouse`. -/
theorem Sound.setMouse (h : Sound s) (x y : Int) (pressed : Bool)
    (hpressed : s.input.mousePressed → pressed) : Sound (setMouse x y pressed s) :=
  h.record ⟨h.consistent.unsent, h.consistent.closed, h.consistent.keys⟩ rfl rfl
    fun p hp => (h.held p hp).mono hpressed id fun _ => id

theorem toldAction_sendTouchPixels (action : TouchAction) (x y : Int) (p : Nat) (s : State) :
    toldAction p (sendTouchPixels action x y p s).calls = action := by
  unfold InputPump.sendTouchPixels
  rw [emit_calls, toldAction_touch, if_pos rfl]

theorem toldAction_sendTouch (action : TouchAction) (x y : ℚ) (p : Nat) (s : State) :
    toldAction p (sendTouch F action x y p s).calls = action := by
  unfold InputPump.sendTouch
  rw [emit_calls, toldAction_touch, if_pos rfl]

/-- The release of the mouse, from its own event or from a loss of focus. -/
theorem Sound.liftMouse (h : Sound s) (x y : Int) :
    Sound (InputPump.sendTouchEndSentinel
      (InputPump.setMouse x y false (InputPump.sendTouchPixels .up x y 0 s))) := by
  have hlifted := h.sendTouchPixels .up x y 0 (Or.inl rfl)
  have hset : Sound (InputPump.setMouse x y false (InputPump.sendTouchPixels .up x y 0 s)) :=
    hlifted.lift (toldAction_sendTouchPixels _ _ _ _ _)
      ⟨h.consistent.unsent, h.consistent.closed, h.consistent.keys⟩ rfl rfl rfl
  exact hset.sendTouchEndSentinel

theorem Sound.releaseMouseTouch (h : Sound s) : Sound (releaseMouseTouch s) := by
  unfold InputPump.releaseMouseTouch
  split
  · exact h.liftMouse _ _
  · exact h

theorem Sound.handleMouseButton (h : Sound s) (sdl : Sdl) (button : MouseButtonEvent)
    (down : Bool) : Sound (handleMouseButton F sdl button down s) := by
  unfold InputPump.handleMouseButton
  split
  · exact h
  · dsimp only
    split
    · have hset := h.setMouse (mouseDrawableCoordinate F s.input sdl button.x true)
        (mouseDrawableCoordinate F s.input sdl button.y false) true fun _ => rfl
      split
      · exact hset
      · exact hset.sendTouchPixels _ _ _ _ (Or.inr (Or.inl ⟨rfl, Or.inl rfl⟩))
    · split
      · exact (h.setMouse _ _ true fun _ => rfl).liftMouse _ _
      · rename_i hidle
        exact h.setMouse _ _ false fun hpressed => absurd hpressed hidle

theorem Sound.handleMouseMotion (h : Sound s) (sdl : Sdl) (motion : MouseMotionEvent) :
    Sound (handleMouseMotion F sdl motion s) := by
  unfold InputPump.handleMouseMotion
  split
  · exact h
  · exact (h.setMouse _ _ true fun _ => rfl).sendTouchPixels _ _ _ _
      (Or.inr (Or.inl ⟨rfl, Or.inl rfl⟩))

/-- The release of a finger, from its own event or from a loss of focus. -/
theorem Sound.liftFinger (h : Sound s) (slot : Fin inputMaxFingers) (x y : ℚ)
    (finger : TouchSlot) :
    Sound (InputPump.setFinger slot finger (InputPump.sendTouch F .up x y slot s)) :=
  (h.sendTouch .up x y slot (Or.inl rfl)).setFinger slot finger
    (Or.inr (Or.inr (toldAction_sendTouch _ _ _ _ _)))

theorem Sound.releaseAllTouches (h : Sound s) : Sound (releaseAllTouches F s) := by
  have hfold : Sound (slots.foldl (releaseTouch F) s) := by
    refine List.foldlRecOn slots (releaseTouch F) h fun s h slot _ => ?_
    unfold releaseTouch
    dsimp only
    split
    · exact h.liftFinger slot _ _ _
    · exact h
  unfold InputPump.releaseAllTouches
  dsimp only
  split
  · exact hfold.sendTouchEndSentinel
  · exact hfold

theorem touchSlotForFinger_active {fingerId : Int} {slot : Fin inputMaxFingers}
    (h : touchSlotForFinger input fingerId = some slot) : (input.fingers slot).active := by
  have hfound := List.find?_some h
  simp only [Bool.decide_and, Bool.and_eq_true, decide_eq_true_eq] at hfound
  exact hfound.1

theorem Sound.allocateTouchSlot (h : Sound s) (fingerId : Int) :
    Sound (allocateTouchSlot fingerId s).2 ∧
      ∀ slot, (allocateTouchSlot fingerId s).1 = some slot →
        ((allocateTouchSlot fingerId s).2.input.fingers slot).active := by
  unfold InputPump.allocateTouchSlot
  split
  · rename_i existing hexisting
    refine ⟨h, fun slot hslot => ?_⟩
    cases hslot
    exact touchSlotForFinger_active hexisting
  · split
    · rename_i free _
      refine ⟨h.setFinger free _ (Or.inl rfl), fun slot hslot => ?_⟩
      cases hslot
      simp [InputPump.setFinger]
    · exact ⟨h, fun slot hslot => nomatch hslot⟩

/-- A finger event in the slot that was found for it. -/
theorem Sound.fingerReport (h : Sound s) (slot : Fin inputMaxFingers)
    (hactive : (s.input.fingers slot).active) (finger : TouchFingerEvent)
    (action : TouchAction) :
    Sound (InputPump.sendTouch F action finger.x finger.y slot
      (InputPump.setFinger slot { s.input.fingers slot with x := finger.x, y := finger.y } s)) := by
  refine (h.setFinger slot _ (Or.inl ?_)).sendTouch _ _ _ _ (Or.inr (Or.inr ⟨slot, rfl, ?_⟩))
  · exact hactive
  · simpa [InputPump.setFinger] using hactive

/-- Every kind of finger event, for a finger with a slot and for one without. -/
theorem Sound.handleFingerEvent (h : Sound s) (finger : TouchFingerEvent)
    (type : FingerEventType) : Sound (handleFingerEvent F finger type s) := by
  unfold InputPump.handleFingerEvent
  cases type with
  | down =>
    obtain ⟨hallocated, hactive⟩ := h.allocateTouchSlot finger.fingerId
    dsimp only
    split
    · rename_i found
      rw [found] at hallocated
      exact hallocated
    · rename_i slot s' found
      rw [found] at hallocated hactive
      exact hallocated.fingerReport slot (hactive slot rfl) finger .down
  | motion =>
    dsimp only
    split
    · rename_i found
      obtain ⟨-, rfl⟩ := Prod.mk.inj found
      exact h
    · rename_i slot s' found
      obtain ⟨hslot, rfl⟩ := Prod.mk.inj found
      exact h.fingerReport slot (touchSlotForFinger_active hslot) finger .move
  | up =>
    dsimp only
    split
    · rename_i found
      obtain ⟨-, rfl⟩ := Prod.mk.inj found
      exact h
    · rename_i slot s' found
      obtain ⟨hslot, rfl⟩ := Prod.mk.inj found
      have hlifted := (h.setFinger slot
        { s.input.fingers slot with x := finger.x, y := finger.y }
        (Or.inl (touchSlotForFinger_active hslot))).liftFinger (F := F) slot finger.x finger.y
      split
      · exact (hlifted _).sendTouchEndSentinel
      · exact hlifted _

theorem Sound.sendKey (h : Sound s) (key : Nat) (pressed : Bool) : Sound (sendKey key pressed s) := by
  unfold InputPump.sendKey
  split
  · exact h
  · rename_i hrange
    split
    · exact h
    · refine h.tell ⟨h.consistent.unsent, h.consistent.closed, fun key' hdown => ?_⟩
        (h.tracks.keyReport rfl rfl) fun p hp => ?_
      · dsimp only at hdown
        by_cases heq : key' = key
        · subst heq
          unfold keyCount at *
          rw [List.mem_range'_1]
          omega
        · rw [Function.update_of_ne heq] at hdown
          exact h.consistent.keys key' hdown
      · rw [toldAction_snoc rfl] at hp
        exact h.held p hp

/-- The keys that the guest holds are among those that are let go. -/
theorem Sound.releaseKeyboardState (h : Sound s) : Sound (releaseKeyboardState s) := by
  refine List.foldlRecOn _ releaseKey h fun s h key _ => ?_
  unfold releaseKey
  split
  · refine h.tell ⟨h.consistent.unsent, h.consistent.closed, fun key' hdown => ?_⟩
      (h.tracks.keyReport rfl rfl) fun p hp => ?_
    · dsimp only at hdown
      by_cases heq : key' = key
      · simp [heq] at hdown
      · rw [Function.update_of_ne heq] at hdown
        exact h.consistent.keys key' hdown
    · rw [toldAction_snoc rfl] at hp
      exact h.held p hp
  · exact h

theorem Sound.releaseHid_fold (h : Sound s) (ids : List HidEventId) :
    Sound (ids.foldl releaseHid s) := by
  refine List.foldlRecOn ids releaseHid h fun s h id _ => ?_
  unfold releaseHid
  split
  · have hzero : ∀ id', s.input.hidValues id' = 0 →
        Function.update s.input.hidValues id 0 id' = 0 := by
      intro id' hid'
      by_cases heq : id' = id
      · simp [heq]
      · rwa [Function.update_of_ne heq]
    refine h.tell ⟨fun id' hsent => hzero id' (h.consistent.unsent id' hsent),
      fun hclosed => ⟨fun id' => hzero id' ((h.consistent.closed hclosed).1 id'),
        (h.consistent.closed hclosed).2⟩, h.consistent.keys⟩
      (h.tracks.hidReport rfl rfl) fun p hp => ?_
    rw [toldAction_snoc rfl] at hp
    exact h.held p hp
  · exact h

/-- The loop has released every control, so clearing the values tells no lie. -/
theorem Sound.releaseControllerState (h : Sound s) : Sound (releaseControllerState F s) := by
  have hfinish := h.finishFirstRunTouch (F := F)
  have hloop := hfinish.releaseHid_fold HidEventId.all
  have hzero : ((HidEventId.all.foldl releaseHid (InputPump.finishFirstRunTouch F s)).input).hidValues
      = fun _ => 0 := by
    rw [InputPump.releaseHid_fold]
    funext id
    by_cases hsent : (InputPump.finishFirstRunTouch F s).input.hidSent id = true
    · simp [Input.setHid, HidEventId.mem_all, hsent]
    · simp [Input.setHid, hsent, hfinish.consistent.unsent id (by simpa using hsent)]
  exact hloop.record ⟨fun _ _ => rfl, fun hclosed => ⟨fun _ => rfl,
    (hloop.consistent.closed hclosed).2⟩, hloop.consistent.keys⟩ hzero.symm rfl
    fun p hp => (hloop.held p hp).mono id id fun _ => id

theorem Sound.closeController (h : Sound s) (notify : Bool) :
    Sound (closeController F notify s) := by
  unfold InputPump.closeController
  split
  · exact h
  · have hreleased := h.releaseControllerState (F := F)
    obtain ⟨_, _, hinput⟩ := releaseControllerState_input (F := F) s
    have hnotified : Sound (if notify then
        emit .controllerDisconnected (InputPump.releaseControllerState F s)
        else InputPump.releaseControllerState F s) := by
      split
      · refine hreleased.tell hreleased.consistent (hreleased.tracks.quiet trivial) fun p hp => ?_
        rw [toldAction_snoc rfl] at hp
        exact hreleased.held p hp
      · exact hreleased
    refine hnotified.record ⟨hnotified.consistent.unsent, fun _ => ?_,
      hnotified.consistent.keys⟩ rfl rfl fun p hp => (hnotified.held p hp).mono id id fun _ => id
    cases notify with
    | true => exact ⟨fun id => by simp [hinput], by simp [hinput]⟩
    | false => exact ⟨fun id => by simp [hinput], by simp [hinput]⟩

theorem Sound.openController (h : Sound s) (sdl : Sdl) (deviceIndex : Int) :
    Sound (openController sdl deviceIndex s) := by
  unfold InputPump.openController
  split
  · exact h
  · split
    · exact h
    · split
      · exact h
      · refine h.tell ⟨h.consistent.unsent, fun hclosed => (nomatch hclosed), h.consistent.keys⟩
          ?_ fun p hp => ?_
        · refine Tracks.quiet (h.tracks.record rfl rfl) ?_
          trivial
        · rw [toldAction_snoc rfl] at hp
          exact (h.held p hp).mono id id fun _ => id

theorem Sound.openFirstController (h : Sound s) (sdl : Sdl) :
    Sound (openFirstController sdl s) := by
  have hfirst : ∀ indices (s : State), Sound s → Sound (openFirst sdl indices s) := by
    intro indices
    induction indices with
    | nil =>
      intro s h
      exact h
    | cons index indices ih =>
      intro s h
      unfold openFirst
      dsimp only
      split
      · exact h.openController sdl index
      · exact ih _ (h.openController sdl index)
  unfold InputPump.openFirstController
  split
  · exact h
  · exact hfirst _ s h

theorem Sound.beginFirstRunTouch (h : Sound s) (hopen : s.input.controller ≠ none)
    (button : SdlButton) : Sound (beginFirstRunTouch F button s) := by
  have hactive : Sound { s with input := { s.input with
      firstRunTouchActive := true, firstRunTouchButton := some button } } :=
    h.record ⟨h.consistent.unsent, fun hclosed => absurd hclosed hopen, h.consistent.keys⟩ rfl rfl
      fun p hp => (h.held p hp).mono id (fun htap => ⟨rfl, htap.2⟩) fun _ => id
  unfold InputPump.beginFirstRunTouch
  dsimp only
  split
  · exact hactive.sendHid hopen (some .a) 1
  · rename_i hstage
    refine Sound.sendTouchPixels ?_ _ _ _ _ (Or.inr (Or.inl ⟨rfl, Or.inr ⟨rfl, hstage⟩⟩))
    exact hactive.record ⟨h.consistent.unsent, fun hclosed => absurd hclosed hopen,
      h.consistent.keys⟩ rfl rfl fun p hp => (hactive.held p hp).mono id id fun _ => id

theorem Sound.handleControllerButton (h : Sound s) (hopen : s.input.controller ≠ none)
    (button : SdlButton) (pressed : Bool) :
    Sound (handleControllerButton F button pressed s).1 := by
  unfold InputPump.handleControllerButton
  dsimp only
  split
  · split
    · exact h
    · exact h.finishFirstRunTouch
  · split
    · exact h.beginFirstRunTouch hopen button
    · have hsent := h.sendHid (F := F) hopen (hidButton button) (if pressed then 1 else 0)
      have hconsistent := hsent.consistent
      split
      · exact hsent.record ⟨hconsistent.unsent, hconsistent.closed, hconsistent.keys⟩ rfl rfl
          fun p hp => (hsent.held p hp).mono id id fun _ => id
      · split
        · exact hsent.record ⟨hconsistent.unsent, hconsistent.closed, hconsistent.keys⟩ rfl rfl
            fun p hp => (hsent.held p hp).mono id id fun _ => id
        · exact hsent

theorem Sound.handleFocusLost (h : Sound s) : Sound (handleFocusLost F s) :=
  Sound.releaseAllTouches (Sound.releaseMouseTouch
    (Sound.releaseKeyboardState h.releaseControllerState))

theorem Sound.handleEvent (h : Sound s) (sdl : Sdl) (event : Event) :
    Sound (handleEvent F sdl event s).1 := by
  cases event with
  | quit => exact h
  | controllerDeviceAdded which => exact h.openController sdl which
  | controllerDeviceRemoved which =>
    unfold InputPump.handleEvent
    dsimp only
    split
    · exact (h.closeController true).openFirstController sdl
    · exact h
  | controllerButton which button pressed =>
    unfold InputPump.handleEvent
    dsimp only
    split
    · exact h
    · rename_i hours
      exact h.handleControllerButton (not_or.mp hours).1 button pressed
  | controllerAxisMotion which axis value =>
    unfold InputPump.handleEvent
    dsimp only
    split
    · exact h
    · rename_i hours
      exact h.sendHid (not_or.mp hours).1 _ _
  | finger type tfinger => exact h.handleFingerEvent tfinger type
  | mouseButton pressed button => exact h.handleMouseButton sdl button pressed
  | mouseMotion motion => exact h.handleMouseMotion sdl motion
  | key pressed repeated sym =>
    unfold InputPump.handleEvent
    dsimp only
    split
    · exact h
    · exact h.sendKey _ _
  | windowSizeChanged data1 data2 =>
    exact h.record ⟨h.consistent.unsent, h.consistent.closed, h.consistent.keys⟩ rfl rfl
      fun p hp => (h.held p hp).mono id id fun _ => id
  | windowFocusLost =>
    have hlost := h.handleFocusLost (F := F)
    simpa only [InputPump.handleEvent] using hlost
  | other => exact h

theorem Sound.shutdown (h : Sound s) : Sound (shutdown F s) :=
  Sound.closeController (Sound.releaseAllTouches (Sound.releaseMouseTouch
    (Sound.releaseKeyboardState h))) true

/-- Nothing is held and nothing has been told. -/
theorem sound_initial (sdl : Sdl) (drawableWidth drawableHeight : Int) (statePath : Option String)
    (stage : Int) : Sound (initial sdl drawableWidth drawableHeight statePath stage) := by
  refine Sound.openFirstController ?_ sdl
  exact ⟨⟨fun _ _ => rfl, fun _ => ⟨fun _ => rfl, rfl⟩, fun _ hdown => nomatch hdown⟩,
    ⟨fun _ => rfl, fun _ => rfl⟩, Throughout.nil _, fun _ hp => absurd rfl hp⟩

end Handlers

section Growth

variable (F : Floats)

theorem sendHid_extends (eventId : Option HidEventId) (value : ℚ) (s : State) :
    s.calls <+: (sendHid F eventId value s).calls := by
  unfold sendHid
  cases eventId with
  | none => exact List.prefix_rfl
  | some id =>
    dsimp only
    split
    · exact List.prefix_rfl
    · exact List.prefix_append _ _

/-- No call of the input's functions takes back a report. -/
theorem finishFirstRunTouch_extends (s : State) :
    s.calls <+: (finishFirstRunTouch F s).calls := by
  unfold finishFirstRunTouch
  split
  · split
    · exact sendHid_extends F (some .a) 0 s
    · exact (List.prefix_append _ _).trans (List.prefix_append _ _)
  · exact List.prefix_rfl

theorem foldl_extends {α : Type} {f : State → α → State} (h : ∀ s a, s.calls <+: (f s a).calls)
    (l : List α) (s : State) : s.calls <+: (l.foldl f s).calls := by
  induction l generalizing s with
  | nil => exact List.prefix_rfl
  | cons a l ih => exact (h s a).trans (ih (f s a))

theorem releaseHid_extends (ids : List HidEventId) (s : State) :
    s.calls <+: (ids.foldl releaseHid s).calls := by
  refine foldl_extends (fun s id => ?_) ids s
  unfold releaseHid
  split
  · exact List.prefix_append _ _
  · exact List.prefix_rfl

theorem releaseControllerState_extends (s : State) :
    s.calls <+: (releaseControllerState F s).calls :=
  (finishFirstRunTouch_extends F s).trans (releaseHid_extends HidEventId.all _)

theorem openController_extends (sdl : Sdl) (deviceIndex : Int) (s : State) :
    s.calls <+: (openController sdl deviceIndex s).calls := by
  unfold openController
  split
  · exact List.prefix_rfl
  · split
    · exact List.prefix_rfl
    · split
      · exact List.prefix_rfl
      · exact List.prefix_append _ _

theorem openFirstController_extends (sdl : Sdl) (s : State) :
    s.calls <+: (openFirstController sdl s).calls := by
  unfold openFirstController
  split
  · exact List.prefix_rfl
  · induction List.range sdl.numJoysticks generalizing s with
    | nil => exact List.prefix_rfl
    | cons index indices ih =>
      unfold openFirst
      dsimp only
      split
      · exact openController_extends sdl index s
      · rename_i hclosed
        exact (openController_extends sdl index s).trans (ih _ hclosed)

theorem closeController_extends (notify : Bool) (s : State) :
    s.calls <+: (closeController F notify s).calls := by
  unfold closeController
  split
  · exact List.prefix_rfl
  · refine (releaseControllerState_extends F s).trans ?_
    cases notify with
    | true => exact List.prefix_append _ _
    | false => exact List.prefix_rfl

theorem releaseKeyboardState_extends (s : State) :
    s.calls <+: (releaseKeyboardState s).calls := by
  refine foldl_extends (fun s key => ?_) _ s
  unfold releaseKey
  split
  · exact List.prefix_append _ _
  · exact List.prefix_rfl

theorem releaseMouseTouch_extends (s : State) : s.calls <+: (releaseMouseTouch s).calls := by
  unfold releaseMouseTouch
  split
  · exact (List.prefix_append _ _).trans (List.prefix_append _ _)
  · exact List.prefix_rfl

theorem releaseAllTouches_extends (s : State) : s.calls <+: (releaseAllTouches F s).calls := by
  have hfold : s.calls <+: (slots.foldl (releaseTouch F) s).calls := by
    refine foldl_extends (fun s slot => ?_) slots s
    unfold releaseTouch
    dsimp only
    split
    · exact List.prefix_append _ _
    · exact List.prefix_rfl
  unfold releaseAllTouches
  dsimp only
  split
  · exact hfold.trans (List.prefix_append _ _)
  · exact hfold

theorem handleMouseButton_extends (sdl : Sdl) (button : MouseButtonEvent) (down : Bool) (s : State) :
    s.calls <+: (handleMouseButton F sdl button down s).calls := by
  unfold handleMouseButton
  split
  · exact List.prefix_rfl
  · dsimp only
    split
    · split
      · exact List.prefix_rfl
      · exact List.prefix_append _ _
    · split
      · exact (List.prefix_append _ _).trans (List.prefix_append _ _)
      · exact List.prefix_rfl

theorem handleMouseMotion_extends (sdl : Sdl) (motion : MouseMotionEvent) (s : State) :
    s.calls <+: (handleMouseMotion F sdl motion s).calls := by
  unfold handleMouseMotion
  split
  · exact List.prefix_rfl
  · exact List.prefix_append _ _

theorem allocateTouchSlot_calls (fingerId : Int) (s : State) :
    (allocateTouchSlot fingerId s).2.calls = s.calls := by
  unfold allocateTouchSlot
  split
  · rfl
  · split <;> rfl

theorem handleFingerEvent_extends (finger : TouchFingerEvent) (type : FingerEventType) (s : State) :
    s.calls <+: (handleFingerEvent F finger type s).calls := by
  have hcalls := allocateTouchSlot_calls finger.fingerId s
  unfold handleFingerEvent
  cases type with
  | down =>
    dsimp only
    rw [← hcalls]
    split
    · rename_i found
      rewrite [found]
      exact List.prefix_rfl
    · rename_i found
      rewrite [found]
      exact List.prefix_append _ _
  | motion =>
    cases touchSlotForFinger s.input finger.fingerId with
    | none => exact List.prefix_rfl
    | some slot => exact List.prefix_append _ _
  | up =>
    cases touchSlotForFinger s.input finger.fingerId with
    | none => exact List.prefix_rfl
    | some slot =>
      dsimp only
      split
      · exact (List.prefix_append _ _).trans (List.prefix_append _ _)
      · exact List.prefix_append _ _

theorem sendKey_extends (key : Nat) (pressed : Bool) (s : State) :
    s.calls <+: (sendKey key pressed s).calls := by
  unfold sendKey
  split
  · exact List.prefix_rfl
  · split
    · exact List.prefix_rfl
    · exact List.prefix_append _ _

theorem handleControllerButton_extends (button : SdlButton) (pressed : Bool) (s : State) :
    s.calls <+: (handleControllerButton F button pressed s).1.calls := by
  unfold handleControllerButton
  dsimp only
  split
  · split
    · exact List.prefix_rfl
    · exact finishFirstRunTouch_extends F s
  · split
    · unfold beginFirstRunTouch
      dsimp only
      split
      · exact sendHid_extends F (some .a) 1 { s with input := { s.input with
          firstRunTouchActive := true, firstRunTouchButton := some button } }
      · exact List.prefix_append _ _
    · split
      · exact sendHid_extends F _ _ s
      · split
        · exact sendHid_extends F _ _ s
        · exact sendHid_extends F _ _ s

theorem handleFocusLost_extends (s : State) : s.calls <+: (handleFocusLost F s).calls :=
  (releaseControllerState_extends F s).trans ((releaseKeyboardState_extends _).trans
    ((releaseMouseTouch_extends _).trans (releaseAllTouches_extends F _)))

theorem handleEvent_extends (sdl : Sdl) (event : Event) (s : State) :
    s.calls <+: (handleEvent F sdl event s).1.calls := by
  cases event with
  | controllerDeviceAdded which => exact openController_extends sdl which s
  | controllerDeviceRemoved which =>
    unfold handleEvent
    dsimp only
    split
    · exact (closeController_extends F true s).trans (openFirstController_extends sdl _)
    · exact List.prefix_rfl
  | controllerButton which button pressed =>
    unfold handleEvent
    dsimp only
    split
    · exact List.prefix_rfl
    · exact handleControllerButton_extends F button pressed s
  | controllerAxisMotion which axis value =>
    unfold handleEvent
    dsimp only
    split
    · exact List.prefix_rfl
    · exact sendHid_extends F _ _ s
  | finger type tfinger => exact handleFingerEvent_extends F tfinger type s
  | mouseButton pressed button => exact handleMouseButton_extends F sdl button pressed s
  | mouseMotion motion => exact handleMouseMotion_extends F sdl motion s
  | key pressed repeated sym =>
    unfold handleEvent
    dsimp only
    split
    · exact List.prefix_rfl
    · exact sendKey_extends _ _ s
  | windowFocusLost =>
    have hlost := handleFocusLost_extends F s
    simpa only [handleEvent] using hlost
  | quit | windowSizeChanged | other => exact List.prefix_rfl

theorem shutdown_extends (s : State) : s.calls <+: (shutdown F s).calls :=
  (releaseKeyboardState_extends s).trans ((releaseMouseTouch_extends _).trans
    ((releaseAllTouches_extends F _).trans (closeController_extends F true _)))

end Growth

section Runs

variable {F : Floats} {s : State}

/-- One processed event, or one shutdown. -/
inductive Action where
  | event (sdl : Sdl) (event : Event)
  | shutdown

def act (F : Floats) (s : State) : Action → State
  | .event sdl event => (handleEvent F sdl event s).1
  | .shutdown => shutdown F s

def after (F : Floats) (s : State) (actions : List Action) : State := actions.foldl (act F) s

theorem act_extends (F : Floats) (s : State) (action : Action) :
    s.calls <+: (act F s action).calls := by
  cases action with
  | event sdl event => exact handleEvent_extends F sdl event s
  | shutdown => exact shutdown_extends F s

theorem after_extends (F : Floats) (s : State) (actions : List Action) :
    s.calls <+: (after F s actions).calls :=
  foldl_extends (act_extends F) actions s

/-- The pump processes the polled events up to one that makes it return. -/
theorem pump_after (polled : List (Sdl × Event)) (s : State) :
    ∃ processed, polled = processed ++ (pump F polled s).2.2 ∧
      (pump F polled s).2.1 = after F s (processed.map fun e => .event e.1 e.2) := by
  induction polled generalizing s with
  | nil => exact ⟨[], rfl, rfl⟩
  | cons first polled ih =>
    obtain ⟨sdl, event⟩ := first
    unfold pump
    split
    · rename_i t hstep
      obtain ⟨processed, hpolled, hstate⟩ := ih t
      refine ⟨(sdl, event) :: processed, by rw [List.cons_append, ← hpolled], ?_⟩
      rw [hstate, List.map_cons]
      change _ = after F (handleEvent F sdl event s).1 _
      rw [hstep]
    · rename_i t hstep
      refine ⟨[(sdl, event)], rfl, ?_⟩
      change t = (handleEvent F sdl event s).1
      rw [hstep]

theorem Sound.after (h : Sound s) (actions : List Action) : Sound (after F s actions) := by
  refine List.foldlRecOn actions (act F) h fun t ht action _ => ?_
  cases action with
  | event sdl event => exact ht.handleEvent sdl event
  | shutdown => exact ht.shutdown

/-- A record that holds nothing has been told so. -/
theorem Sound.released (h : Sound s) (hhid : ∀ id, s.input.hidValues id = 0)
    (hkey : ∀ key, s.input.keyDown key = false) (hmouse : s.input.mousePressed = false)
    (htap : s.input.firstRunTouchActive = false)
    (hfingers : ∀ slot, (s.input.fingers slot).active = false) : Released s.calls := by
  refine ⟨fun id => (h.tracks.hid id).trans (hhid id),
    fun key => (h.tracks.key key).trans (hkey key), fun p => ?_⟩
  by_contra hp
  cases h.held p hp with
  | inl hzero =>
    obtain ⟨-, hpressed | htapping⟩ := hzero
    · rw [hmouse] at hpressed
      cases hpressed
    · rw [Input.Tapping, htap] at htapping
      cases htapping.1
  | inr hfinger =>
    obtain ⟨slot, -, hactive⟩ := hfinger
    rw [hfingers slot] at hactive
    cases hactive

theorem Sound.focusLost_released (h : Sound s) : Released (InputPump.handleFocusLost F s).calls := by
  have hlost := h.handleFocusLost (F := F)
  have hcontroller := h.releaseControllerState (F := F)
  obtain ⟨_, _, hinput⟩ := releaseControllerState_input (F := F) s
  have hfields : ∃ firstRunTouchStage firstRunTouchButton,
      (InputPump.handleFocusLost F s).input =
        { s.input with
          hidValues := fun _ => 0
          hidSent := fun _ => false
          selectPressed := false
          startPressed := false
          firstRunTouchStage, firstRunTouchButton
          firstRunTouchActive := false
          keyDown := fun _ => false
          mousePressed := false
          fingers := fun slot => (s.input.fingers slot).released } := by
    unfold InputPump.handleFocusLost
    rw [releaseAllTouches_input, releaseMouseTouch_input,
      releaseKeyboardState_input hcontroller.consistent, hinput]
    exact ⟨_, _, rfl⟩
  obtain ⟨_, _, hinput'⟩ := hfields
  refine hlost.released ?_ ?_ ?_ ?_ ?_ <;> simp [hinput', TouchSlot.released]

theorem Sound.shutdown_released (h : Sound s) : Released (InputPump.shutdown F s).calls := by
  have hdown := h.shutdown (F := F)
  have htouches : (InputPump.releaseAllTouches F (InputPump.releaseMouseTouch
      (InputPump.releaseKeyboardState s))).input =
      { s.input with
        keyDown := fun _ => false
        mousePressed := false
        fingers := fun slot => (s.input.fingers slot).released } := by
    rw [releaseAllTouches_input, releaseMouseTouch_input,
      releaseKeyboardState_input h.consistent]
    rfl
  unfold InputPump.shutdown InputPump.closeController at hdown ⊢
  rw [htouches] at hdown ⊢
  split at hdown
  · rename_i hclosed
    rw [if_pos hclosed]
    obtain ⟨hhid, htap⟩ := h.consistent.closed hclosed
    refine hdown.released ?_ ?_ ?_ ?_ ?_ <;> simp [htouches, hhid, htap, TouchSlot.released]
  · rename_i hopen
    rw [if_neg hopen]
    obtain ⟨_, _, hinput⟩ := releaseControllerState_input (F := F)
      (InputPump.releaseAllTouches F (InputPump.releaseMouseTouch
        (InputPump.releaseKeyboardState s)))
    refine hdown.released ?_ ?_ ?_ ?_ ?_ <;> simp [hinput, htouches, TouchSlot.released]

/-- Between the controls' release and the disconnect callback nothing is told. -/
theorem Sound.removed_released (h : Sound s) (sdl : Sdl) (hopen : s.input.controller ≠ none) :
    ∃ before during later,
      (InputPump.handleEvent F sdl (.controllerDeviceRemoved s.input.instanceId) s).1.calls =
        before ++ ⟨.controllerDisconnected, during⟩ :: later ∧
      s.calls <+: before ∧ ∀ id, toldHid id before = 0 := by
  have hreleased := h.releaseControllerState (F := F)
  obtain ⟨_, _, hinput⟩ := releaseControllerState_input (F := F) s
  have hclose : (InputPump.closeController F true s).calls =
      (InputPump.releaseControllerState F s).calls ++
        [⟨.controllerDisconnected, (InputPump.releaseControllerState F s).input⟩] := by
    unfold InputPump.closeController
    rw [if_neg hopen]
    rfl
  obtain ⟨later, hlater⟩ := openFirstController_extends sdl (InputPump.closeController F true s)
  refine ⟨(InputPump.releaseControllerState F s).calls,
    (InputPump.releaseControllerState F s).input, later, ?_, releaseControllerState_extends F s,
    fun id => ?_⟩
  · unfold InputPump.handleEvent
    dsimp only
    rw [if_pos rfl, ← hlater, hclose, List.append_assoc]
    rfl
  · rw [hreleased.tracks.hid id, hinput]

/-- After every event and every shutdown, and at every call in between, the record says what
the guest was told; a loss of focus and a shutdown leave nothing pressed, and a removed
controller is reported after its controls. The pump itself makes such a run. -/
theorem nothing_stuck (F : Floats) (sdl : Sdl) (drawableWidth drawableHeight : Int)
    (statePath : Option String) (stage : Int) (actions : List Action) :
    let s := after F (initial sdl drawableWidth drawableHeight statePath stage) actions
    Tracks s.input s.calls ∧
      (∀ before call later, s.calls = before ++ call :: later →
        Tracks call.during (before ++ [call])) ∧
      (∀ sdl, Released (act F s (.event sdl .windowFocusLost)).calls) ∧
      Released (act F s .shutdown).calls ∧
      (∀ sdl, s.input.controller ≠ none → ∃ before during later,
        (act F s (.event sdl (.controllerDeviceRemoved s.input.instanceId))).calls =
          before ++ ⟨.controllerDisconnected, during⟩ :: later ∧
        s.calls <+: before ∧ ∀ id, toldHid id before = 0) ∧
      ∀ polled, ∃ processed, polled = processed ++ (pump F polled s).2.2 ∧
        (pump F polled s).2.1 = after F s (processed.map fun e => .event e.1 e.2) := by
  intro s
  have h : Sound s := (sound_initial sdl drawableWidth drawableHeight statePath stage).after actions
  refine ⟨h.tracks, h.atCalls, fun sdl => ?_, h.shutdown_released, fun sdl hopen =>
    h.removed_released sdl hopen, fun polled => pump_after polled s⟩
  have hlost := h.focusLost_released (F := F)
  simpa only [act, InputPump.handleEvent] using hlost

end Runs

end Asm2Runtime.InputPump
