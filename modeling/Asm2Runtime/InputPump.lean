import Asm2Runtime.EventLog
import Mathlib.Algebra.Order.Field.Rat
import Mathlib.Algebra.Order.Floor.Defs
import Mathlib.Data.Rat.Floor

/-!
# The input pump

`asm2_input_pump` and `asm2_input_shutdown` of input.c with all callbacks set. Every call
of a callback is recorded with the input record as it stands during the call. What SDL
answers while an event is handled comes with the event. The file of the first-run stage is
only written here, so it is left out.
-/

namespace Asm2Runtime.InputPump

section Guest

/-- `enum asm2_hid_event_id`, from `ASM2_HID_LEFT_TRIGGER` to `ASM2_HID_RIGHT_STICK` -/
inductive HidEventId where
  | leftTrigger | rightTrigger | leftX | leftY | rightX | rightY
  | dpadUp | dpadDown | dpadLeft | dpadRight | leftShoulder | rightShoulder
  | y | a | x | b | start | select | back | leftStick | rightStick
  deriving DecidableEq, Repr

/-- The controls in the order of their identifiers. -/
def HidEventId.all : List HidEventId :=
  [.leftTrigger, .rightTrigger, .leftX, .leftY, .rightX, .rightY, .dpadUp, .dpadDown, .dpadLeft,
    .dpadRight, .leftShoulder, .rightShoulder, .y, .a, .x, .b, .start, .select, .back, .leftStick,
    .rightStick]

theorem HidEventId.mem_all (id : HidEventId) : id ∈ all := by
  cases id <;> decide

/-- `enum asm2_touch_action` -/
inductive TouchAction where
  | up | down | move
  deriving DecidableEq, Repr

/-- One call of one of the callbacks. -/
inductive Report where
  | controllerConnected (name : String)
  | controllerDisconnected
  | hid (eventId : HidEventId) (value : ℚ)
  | key (androidKeycode : Nat) (pressed : Bool)
  | touch (action : TouchAction) (x y : Int) (pointerId : Nat)
  deriving DecidableEq, Repr

def ANDROID_KEY_BACK : Nat := 4
def ANDROID_KEY_DPAD_UP : Nat := 19
def ANDROID_KEY_DPAD_DOWN : Nat := 20
def ANDROID_KEY_DPAD_LEFT : Nat := 21
def ANDROID_KEY_DPAD_RIGHT : Nat := 22
def ANDROID_KEY_ENTER : Nat := 66
def ANDROID_KEY_BUTTON_A : Nat := 96
def ANDROID_KEY_BUTTON_B : Nat := 97
def ANDROID_KEY_BUTTON_X : Nat := 99
def ANDROID_KEY_BUTTON_Y : Nat := 100
def ANDROID_KEY_BUTTON_L1 : Nat := 102
def ANDROID_KEY_BUTTON_R1 : Nat := 103
def ANDROID_KEY_BUTTON_L2 : Nat := 104
def ANDROID_KEY_BUTTON_R2 : Nat := 105
def ANDROID_KEY_BUTTON_THUMBL : Nat := 106
def ANDROID_KEY_BUTTON_THUMBR : Nat := 107
def ANDROID_KEY_BUTTON_START : Nat := 108
def ANDROID_KEY_BUTTON_SELECT : Nat := 109
def ANDROID_KEY_BUTTON_MODE : Nat := 110

/-- The stages of the first start, as the file of the state holds them. -/
def firstRunTouchLegal : Int := 0
def firstRunTouchUpdateLog : Int := 1
def firstRunTouchCloudNotice : Int := 2
def firstRunTouchComplete : Int := 3

end Guest

section Sdl

/-- The buttons that `hid_button` knows; `other` is every other one. -/
inductive SdlButton where
  | a | b | x | y | back | guide | start | leftStick | rightStick | leftShoulder | rightShoulder
  | dpadUp | dpadDown | dpadLeft | dpadRight | other
  deriving DecidableEq, Repr

/-- The axes of a controller. -/
inductive SdlAxis where
  | leftX | leftY | rightX | rightY | triggerLeft | triggerRight | other
  deriving DecidableEq, Repr

/-- The keys that `keyboard_android_key` knows; `other` is every other one. -/
inductive SdlKeycode where
  | return | escape | backspace | up | down | left | right | z | x | a | s | q | w | one | two
  | lshift | rshift | tab | space | home | other
  deriving DecidableEq, Repr

/-- An opened game controller with its joystick's instance and its name, if it has one. -/
structure Controller where
  instanceId : Int
  name : Option String
  deriving DecidableEq, Repr

structure Window where
  size : Int × Int
  drawableSize : Int × Int
  deriving DecidableEq, Repr

/-- What SDL answers while one event is handled; `window` is that of the event. -/
structure Sdl where
  numJoysticks : Nat
  isGameController : Int → Bool
  gameControllerOpen : Int → Option Controller
  window : Option Window

inductive FingerEventType where
  | down | motion | up
  deriving DecidableEq, Repr

/-- The fields of SDL's events that are read; coordinates of a finger are normalized. -/
structure TouchFingerEvent where
  fingerId : Int
  x : ℚ
  y : ℚ
  deriving DecidableEq, Repr

structure MouseButtonEvent where
  which : BitVec 32
  button : Nat
  x : Int
  y : Int
  deriving DecidableEq, Repr

structure MouseMotionEvent where
  which : BitVec 32
  x : Int
  y : Int
  deriving DecidableEq, Repr

inductive Event where
  | quit
  | controllerDeviceAdded (which : Int)
  | controllerDeviceRemoved (which : Int)
  | controllerButton (which : Int) (button : SdlButton) (pressed : Bool)
  | controllerAxisMotion (which : Int) (axis : SdlAxis) (value : BitVec 16)
  | finger (type : FingerEventType) (tfinger : TouchFingerEvent)
  | mouseButton (pressed : Bool) (button : MouseButtonEvent)
  | mouseMotion (motion : MouseMotionEvent)
  | key (pressed repeated : Bool) (sym : SdlKeycode)
  | windowSizeChanged (data1 data2 : Int)
  | windowFocusLost
  | other

def sdlTouchMouseId : BitVec 32 := 0xffffffff
def sdlButtonLeft : Nat := 1

end Sdl

section Record

def inputMaxFingers : Nat := 10

structure TouchSlot where
  fingerId : Int
  active : Bool
  x : ℚ
  y : ℚ

/-- `struct asm2_input`; an invalid first-run button is `none`. -/
structure Input where
  controller : Option Controller
  instanceId : Int
  hidValues : HidEventId → ℚ
  hidSent : HidEventId → Bool
  drawableWidth : Int
  drawableHeight : Int
  firstRunTouchStage : Int
  firstRunTouchActive : Bool
  firstRunTouchButton : Option SdlButton
  firstRunTouchX : Int
  firstRunTouchY : Int
  selectPressed : Bool
  startPressed : Bool
  mousePressed : Bool
  mouseX : Int
  mouseY : Int
  keyDown : Nat → Bool
  fingers : Fin inputMaxFingers → TouchSlot

/-- A call of a callback, with the record during the call. -/
structure Call where
  report : Report
  during : Input

structure State where
  input : Input
  calls : List Call

/-- Rounding to a `double` and to a `float`, with the one law of them that is used. -/
structure Floats where
  double : ℚ → ℚ
  float : ℚ → ℚ
  float_nonneg : ∀ q, 0 ≤ q → 0 ≤ float q

def emit (report : Report) (s : State) : State :=
  { s with calls := s.calls ++ [⟨report, s.input⟩] }

end Record

section Coordinates

/-- `(int)` of a floating-point value -/
def truncate (q : ℚ) : Int := if 0 ≤ q then ⌊q⌋ else ⌈q⌉

/-- A normalized coordinate may lie outside the drawable and is then cut off at its border. -/
def pixelCoordinate (fl : Floats) (normalized : ℚ) (extent : Int) : Int :=
  if extent ≤ 0 then 0
  else
    let normalized := if normalized < 0 then 0 else normalized
    let normalized := if normalized > 1 then 1 else normalized
    let pixel := truncate (fl.float (normalized * fl.float extent))
    if pixel < extent then pixel else extent - 1

/-- A coordinate stays inside the drawable. -/
def clampPixelCoordinate (coordinate extent : Int) : Int :=
  if extent ≤ 0 ∨ coordinate < 0 then 0
  else if coordinate < extent then coordinate else extent - 1

def sendTouch (fl : Floats) (action : TouchAction) (x y : ℚ) (pointerId : Nat) (s : State) :
    State :=
  emit (.touch action (pixelCoordinate fl x s.input.drawableWidth)
    (pixelCoordinate fl y s.input.drawableHeight) pointerId) s

def sendTouchPixels (action : TouchAction) (x y : Int) (pointerId : Nat) (s : State) : State :=
  emit (.touch action (clampPixelCoordinate x s.input.drawableWidth)
    (clampPixelCoordinate y s.input.drawableHeight) pointerId) s

/-- The call that the guest takes for the end of a gesture. -/
def endSentinel : Report := .touch .up (-2000) (-2000) 0

def sendTouchEndSentinel (s : State) : State := emit endSentinel s

def positiveExtent (extent : Int) : Int := if extent > 0 then extent else 1

/-- The drawables that get the layout of a nearly square screen. -/
def isSquareLayout (width height : Int) : Bool := width * 8 ≤ height * 9

/-- The buttons of the first screens stand at a fixed share of the height. -/
def firstAcceptPosition (drawableWidth drawableHeight : Int) : Int × Int :=
  let width := positiveExtent drawableWidth
  let height := positiveExtent drawableHeight
  let verticalThousandths : Int :=
    if isSquareLayout width height then 675 else if width * 2 ≤ height * 3 then 790 else 883
  (width / 2, height * verticalThousandths / 1000)

def firstRunTouchPosition (stage drawableWidth drawableHeight : Int) : Int × Int :=
  let width := positiveExtent drawableWidth
  let height := positiveExtent drawableHeight
  if stage = firstRunTouchCloudNotice then (width / 2, height / 2 + width * 3 / 32)
  else firstAcceptPosition width height

end Coordinates

section Controls

variable (fl : Floats)

/-- `none` is an identifier outside the controls. -/
def sendHid (eventId : Option HidEventId) (value : ℚ) (s : State) : State :=
  match eventId with
  | none => s
  | some id =>
    if s.input.hidSent id ∧ |fl.double (s.input.hidValues id - value)| < fl.double 0.000001 then s
    else emit (.hid id value)
      { s with
        input :=
          { s.input with
            hidValues := Function.update s.input.hidValues id value
            hidSent := Function.update s.input.hidSent id true } }

def isFirstRunTouchButton (button : SdlButton) : Bool :=
  button = .a ∨ button = .b ∨ button = .x ∨ button = .y

def beginFirstRunTouch (button : SdlButton) (s : State) : State :=
  let s :=
    { s with
      input := { s.input with firstRunTouchActive := true, firstRunTouchButton := some button } }
  if s.input.firstRunTouchStage = firstRunTouchUpdateLog then sendHid fl (some .a) 1 s
  else
    let position := firstRunTouchPosition s.input.firstRunTouchStage s.input.drawableWidth
      s.input.drawableHeight
    sendTouchPixels .down position.1 position.2 0
      { s with
        input := { s.input with firstRunTouchX := position.1, firstRunTouchY := position.2 } }

def finishFirstRunTouch (s : State) : State :=
  if s.input.firstRunTouchActive then
    let s :=
      if s.input.firstRunTouchStage = firstRunTouchUpdateLog then sendHid fl (some .a) 0 s
      else sendTouchEndSentinel
        (sendTouchPixels .up s.input.firstRunTouchX s.input.firstRunTouchY 0 s)
    { s with
      input :=
        { s.input with
          firstRunTouchActive := false
          firstRunTouchStage :=
            if s.input.firstRunTouchStage < firstRunTouchComplete then
              s.input.firstRunTouchStage + 1
            else s.input.firstRunTouchStage
          firstRunTouchButton := none } }
  else s

/-- One iteration of the loop of `release_controller_state`. -/
def releaseHid (s : State) (id : HidEventId) : State :=
  if s.input.hidSent id ∧ s.input.hidValues id ≠ 0 then
    emit (.hid id 0)
      { s with input := { s.input with hidValues := Function.update s.input.hidValues id 0 } }
  else s

def releaseControllerState (s : State) : State :=
  let s := HidEventId.all.foldl releaseHid (finishFirstRunTouch fl s)
  { s with
    input :=
      { s.input with
        hidValues := fun _ => 0
        hidSent := fun _ => false
        selectPressed := false
        startPressed := false } }

def closeController (notify : Bool) (s : State) : State :=
  if s.input.controller = none then s
  else
    let s := releaseControllerState fl s
    let s := if notify then emit .controllerDisconnected s else s
    { s with input := { s.input with controller := none, instanceId := -1 } }

def openController (sdl : Sdl) (deviceIndex : Int) (s : State) : State :=
  if s.input.controller ≠ none ∨ deviceIndex < 0 ∨ ¬ sdl.isGameController deviceIndex then s
  else
    match sdl.gameControllerOpen deviceIndex with
    | none => s
    | some controller =>
      if controller.instanceId < 0 then s
      else
        let name := controller.name.getD ""
        emit (.controllerConnected (if name = "" then "SDL Game Controller" else name))
          { s with
            input :=
              { s.input with controller := some controller, instanceId := controller.instanceId } }

/-- The loop of `open_first_controller`. -/
def openFirst (sdl : Sdl) : List Nat → State → State
  | [], s => s
  | index :: rest, s =>
    let s := openController sdl index s
    if s.input.controller ≠ none then s else openFirst sdl rest s

def openFirstController (sdl : Sdl) (s : State) : State :=
  if s.input.controller ≠ none then s else openFirst sdl (List.range sdl.numJoysticks) s

def hidButton : SdlButton → Option HidEventId
  | .a => some .a
  | .b => some .b
  | .x => some .x
  | .y => some .y
  | .back => some .select
  | .guide => some .back
  | .start => some .start
  | .leftStick => some .leftStick
  | .rightStick => some .rightStick
  | .leftShoulder => some .leftShoulder
  | .rightShoulder => some .rightShoulder
  | .dpadUp => some .dpadUp
  | .dpadDown => some .dpadDown
  | .dpadLeft => some .dpadLeft
  | .dpadRight => some .dpadRight
  | .other => none

def normalizedStickAxis (raw : BitVec 16) : ℚ :=
  let value :=
    if raw.toInt < 0 then fl.double (raw.toInt / 32768) else fl.double (raw.toInt / 32767)
  if |value| ≤ fl.double 0.12 then 0 else value

def normalizedTriggerAxis (raw : BitVec 16) : ℚ :=
  if raw.toInt ≤ 0 then 0 else fl.double (raw.toInt / 32767)

/-- The control and the value of an axis event. -/
def axisReport (axis : SdlAxis) (raw : BitVec 16) : Option HidEventId × ℚ :=
  match axis with
  | .leftX => (some .leftX, normalizedStickAxis fl raw)
  | .leftY => (some .leftY, normalizedStickAxis fl raw)
  | .rightX => (some .rightX, normalizedStickAxis fl raw)
  | .rightY => (some .rightY, normalizedStickAxis fl raw)
  | .triggerLeft => (some .leftTrigger, normalizedTriggerAxis fl raw)
  | .triggerRight => (some .rightTrigger, normalizedTriggerAxis fl raw)
  | .other => (none, 0)

end Controls

section Keys

/-- `sizeof(input->key_down)` -/
def keyCount : Nat := 128

def sendKey (key : Nat) (pressed : Bool) (s : State) : State :=
  if key = 0 ∨ key ≥ keyCount then s
  else if s.input.keyDown key = pressed then s
  else emit (.key key pressed)
    { s with input := { s.input with keyDown := Function.update s.input.keyDown key pressed } }

/-- One iteration of the loop of `release_keyboard_state`. -/
def releaseKey (s : State) (key : Nat) : State :=
  if s.input.keyDown key then
    emit (.key key false)
      { s with input := { s.input with keyDown := Function.update s.input.keyDown key false } }
  else s

def releaseKeyboardState (s : State) : State := (List.range' 1 (keyCount - 1)).foldl releaseKey s

def keyboardAndroidKey : SdlKeycode → Nat
  | .return => ANDROID_KEY_ENTER
  | .escape | .backspace => ANDROID_KEY_BACK
  | .up => ANDROID_KEY_DPAD_UP
  | .down => ANDROID_KEY_DPAD_DOWN
  | .left => ANDROID_KEY_DPAD_LEFT
  | .right => ANDROID_KEY_DPAD_RIGHT
  | .z => ANDROID_KEY_BUTTON_A
  | .x => ANDROID_KEY_BUTTON_B
  | .a => ANDROID_KEY_BUTTON_X
  | .s => ANDROID_KEY_BUTTON_Y
  | .q => ANDROID_KEY_BUTTON_L1
  | .w => ANDROID_KEY_BUTTON_R1
  | .one => ANDROID_KEY_BUTTON_L2
  | .two => ANDROID_KEY_BUTTON_R2
  | .lshift => ANDROID_KEY_BUTTON_THUMBL
  | .rshift => ANDROID_KEY_BUTTON_THUMBR
  | .tab => ANDROID_KEY_BUTTON_SELECT
  | .space => ANDROID_KEY_BUTTON_START
  | .home => ANDROID_KEY_BUTTON_MODE
  | .other => 0

end Keys

section Touches

variable (fl : Floats)

/-- The slots in the order of the loops over them. -/
def slots : List (Fin inputMaxFingers) := List.finRange inputMaxFingers

def touchSlotForFinger (input : Input) (fingerId : Int) : Option (Fin inputMaxFingers) :=
  slots.find? fun slot =>
    (input.fingers slot).active ∧ (input.fingers slot).fingerId = fingerId

def freeTouchSlot (input : Input) : Option (Fin inputMaxFingers) :=
  slots.find? fun slot => ¬ (input.fingers slot).active

def setFinger (slot : Fin inputMaxFingers) (finger : TouchSlot) (s : State) : State :=
  { s with input := { s.input with fingers := Function.update s.input.fingers slot finger } }

/-- The slot of the finger, or -1, and the state after it. -/
def allocateTouchSlot (fingerId : Int) (s : State) : Option (Fin inputMaxFingers) × State :=
  match touchSlotForFinger s.input fingerId with
  | some existing => (some existing, s)
  | none =>
    match freeTouchSlot s.input with
    | some slot =>
      (some slot, setFinger slot { s.input.fingers slot with fingerId, active := true } s)
    | none => (none, s)

def activeTouchCount (input : Input) : Nat := slots.countP fun slot => (input.fingers slot).active

/-- The window's coordinates scaled to the drawable's. -/
def mouseDrawableCoordinate (input : Input) (sdl : Sdl) (coordinate : Int) (horizontal : Bool) :
    Int :=
  let drawableExtent := if horizontal then input.drawableWidth else input.drawableHeight
  let windowSize := (sdl.window.map Window.size).getD (input.drawableWidth, input.drawableHeight)
  let windowExtent := if horizontal then windowSize.1 else windowSize.2
  let coordinate :=
    if windowExtent > 0 ∧ windowExtent ≠ drawableExtent then
      truncate (fl.double (fl.double (coordinate * drawableExtent) / windowExtent))
    else coordinate
  clampPixelCoordinate coordinate drawableExtent

def setMouse (x y : Int) (pressed : Bool) (s : State) : State :=
  { s with input := { s.input with mouseX := x, mouseY := y, mousePressed := pressed } }

def handleMouseButton (sdl : Sdl) (button : MouseButtonEvent) (down : Bool) (s : State) : State :=
  if button.which = sdlTouchMouseId ∨ button.button ≠ sdlButtonLeft then s
  else
    let x := mouseDrawableCoordinate fl s.input sdl button.x true
    let y := mouseDrawableCoordinate fl s.input sdl button.y false
    if down then
      if s.input.mousePressed then setMouse x y true s
      else sendTouchPixels .down x y 0 (setMouse x y true s)
    else if s.input.mousePressed then
      sendTouchEndSentinel
        (setMouse x y false (sendTouchPixels .up x y 0 (setMouse x y true s)))
    else setMouse x y false s

def handleMouseMotion (sdl : Sdl) (motion : MouseMotionEvent) (s : State) : State :=
  if motion.which = sdlTouchMouseId ∨ ¬ s.input.mousePressed then s
  else
    let x := mouseDrawableCoordinate fl s.input sdl motion.x true
    let y := mouseDrawableCoordinate fl s.input sdl motion.y false
    sendTouchPixels .move x y 0 (setMouse x y true s)

def releaseMouseTouch (s : State) : State :=
  if s.input.mousePressed then
    let x := s.input.mouseX
    let y := s.input.mouseY
    sendTouchEndSentinel (setMouse x y false (sendTouchPixels .up x y 0 s))
  else s

/-- One iteration of the loop of `release_all_touches`. -/
def releaseTouch (s : State) (slot : Fin inputMaxFingers) : State :=
  let finger := s.input.fingers slot
  if finger.active then
    setFinger slot { finger with active := false } (sendTouch fl .up finger.x finger.y slot s)
  else s

def releaseAllTouches (s : State) : State :=
  let hadTouches := activeTouchCount s.input ≠ 0
  let s := slots.foldl (releaseTouch fl) s
  if hadTouches then sendTouchEndSentinel s else s

def handleFingerEvent (finger : TouchFingerEvent) (type : FingerEventType) (s : State) : State :=
  let found :=
    match type with
    | .down => allocateTouchSlot finger.fingerId s
    | _ => (touchSlotForFinger s.input finger.fingerId, s)
  match found with
  | (none, s) => s
  | (some slot, s) =>
    let s := setFinger slot { s.input.fingers slot with x := finger.x, y := finger.y } s
    match type with
    | .down => sendTouch fl .down finger.x finger.y slot s
    | .motion => sendTouch fl .move finger.x finger.y slot s
    | .up =>
      let s := sendTouch fl .up finger.x finger.y slot s
      let s := setFinger slot { s.input.fingers slot with active := false } s
      if activeTouchCount s.input = 0 then sendTouchEndSentinel s else s

end Touches

section Pump

variable (fl : Floats)

def initial (sdl : Sdl) (drawableWidth drawableHeight : Int) (statePath : Option String)
    (stage : Int) : State :=
  openFirstController sdl
    { input :=
        { controller := none
          instanceId := -1
          hidValues := fun _ => 0
          hidSent := fun _ => false
          drawableWidth := if drawableWidth > 0 then drawableWidth else 1
          drawableHeight := if drawableHeight > 0 then drawableHeight else 1
          firstRunTouchStage :=
            if statePath.getD "" = "" ∨ stage < firstRunTouchLegal ∨ stage > firstRunTouchComplete
            then firstRunTouchComplete else stage
          firstRunTouchActive := false
          firstRunTouchButton := none
          firstRunTouchX := 0
          firstRunTouchY := 0
          selectPressed := false
          startPressed := false
          mousePressed := false
          mouseX := 0
          mouseY := 0
          keyDown := fun _ => false
          fingers := fun _ => ⟨0, false, 0, 0⟩ }
      calls := [] }

/-- The press that begins the tap of a stage reaches no control, and its release ends the tap. -/
def handleControllerButton (button : SdlButton) (pressed : Bool) (s : State) : State × Bool :=
  let eventId := hidButton button
  if s.input.firstRunTouchActive ∧ some button = s.input.firstRunTouchButton then
    (if pressed then s else finishFirstRunTouch fl s, true)
  else if pressed ∧ s.input.firstRunTouchStage < firstRunTouchComplete ∧
      isFirstRunTouchButton button then
    (beginFirstRunTouch fl button s, true)
  else
    let s := sendHid fl eventId (if pressed then 1 else 0) s
    let s :=
      if eventId = some .select then { s with input := { s.input with selectPressed := pressed } }
      else if eventId = some .start then
        { s with input := { s.input with startPressed := pressed } }
      else s
    (s, ¬ (s.input.selectPressed ∧ s.input.startPressed))

/-- A window that is gone leaves the event's own size. -/
def resizeDrawable (sdl : Sdl) (data1 data2 : Int) (s : State) : State :=
  let size := (sdl.window.map Window.drawableSize).getD (data1, data2)
  { s with
    input :=
      { s.input with
        drawableWidth := if size.1 > 0 then size.1 else s.input.drawableWidth
        drawableHeight := if size.2 > 0 then size.2 else s.input.drawableHeight } }

/-- Everything that is held is given up. -/
def handleFocusLost (s : State) : State :=
  releaseAllTouches fl (releaseMouseTouch (releaseKeyboardState (releaseControllerState fl s)))

/-- One iteration of the loop; the flag says that the loop goes on. -/
def handleEvent (sdl : Sdl) (event : Event) (s : State) : State × Bool :=
  match event with
  | .quit => (s, false)
  | .controllerDeviceAdded which => (openController sdl which s, true)
  | .controllerDeviceRemoved which =>
    (if which = s.input.instanceId then openFirstController sdl (closeController fl true s) else s,
      true)
  | .controllerButton which button pressed =>
    if s.input.controller = none ∨ which ≠ s.input.instanceId then (s, true)
    else handleControllerButton fl button pressed s
  | .controllerAxisMotion which axis value =>
    if s.input.controller = none ∨ which ≠ s.input.instanceId then (s, true)
    else (sendHid fl (axisReport fl axis value).1 (axisReport fl axis value).2 s, true)
  | .finger type tfinger => (handleFingerEvent fl tfinger type s, true)
  | .mouseButton pressed button => (handleMouseButton fl sdl button pressed s, true)
  | .mouseMotion motion => (handleMouseMotion fl sdl motion s, true)
  | .key pressed repeated sym =>
    (if repeated then s else sendKey (keyboardAndroidKey sym) pressed s, true)
  | .windowSizeChanged data1 data2 => (resizeDrawable sdl data1 data2 s, true)
  | .windowFocusLost => (handleFocusLost fl s, true)
  | .other => (s, true)

/-- `asm2_input_pump` on the polled events: its result, the state, and what is left. -/
def pump : List (Sdl × Event) → State → Bool × State × List (Sdl × Event)
  | [], s => (true, s, [])
  | (sdl, event) :: polled, s =>
    match handleEvent fl sdl event s with
    | (s, true) => pump polled s
    | (s, false) => (false, s, polled)

/-- The controller is closed last, once nothing else is held. -/
def shutdown (s : State) : State :=
  closeController fl true (releaseAllTouches fl (releaseMouseTouch (releaseKeyboardState s)))

end Pump

end Asm2Runtime.InputPump
