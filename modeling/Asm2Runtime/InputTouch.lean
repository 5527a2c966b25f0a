import Asm2Runtime.InputRelease
import Asm2Runtime.Transition
import Mathlib.Data.List.Induction

/-!
# The stream of touches

A pointer's touches should be strokes, each a contact, its moves and its lift, and the
sentinel should close a gesture that has no contact left. Mouse, synthetic tap and fingers
keep their own state and share pointer 0, so the stream keeps this form exactly as long as
they keep out of each other's way.
-/

namespace Asm2Runtime.InputPump

open EventLog Transition

section Strokes

/-- The words of (DOWN MOVE* UP)*. -/
inductive Strokes : List TouchAction → Prop where
  | nil : Strokes []
  | stroke (moves : Nat) {rest : List TouchAction} :
      Strokes rest → Strokes (.down :: (List.replicate moves .move ++ .up :: rest))

/-- The beginning of such a word. -/
def StrokePrefix (actions : List TouchAction) : Prop := ∃ word, Strokes word ∧ actions <+: word

/-- The last touch has left a contact. -/
def IsDown (actions : List TouchAction) : Prop :=
  actions.getLast? = some .down ∨ actions.getLast? = some .move

instance (actions : List TouchAction) : Decidable (IsDown actions) :=
  inferInstanceAs (Decidable (_ ∨ _))

@[simp] theorem isDown_nil : ¬ IsDown [] := by simp [IsDown]

@[simp] theorem isDown_snoc {actions : List TouchAction} {action : TouchAction} :
    IsDown (actions ++ [action]) ↔ action ≠ .up := by
  cases action <;> simp [IsDown]

/-- One touch on a pointer that is down or not; none if it does not fit. -/
def stroke (down : Bool) : TouchAction → Option Bool
  | .down => if down then none else some true
  | .move => if down then some true else none
  | .up => if down then some false else none

def strokes (down : Bool) (actions : List TouchAction) : Option Bool := actions.foldlM stroke down

theorem strokes_moves (moves : Nat) (rest : List TouchAction) :
    strokes true (List.replicate moves .move ++ rest) = strokes true rest := by
  induction moves with
  | zero => rfl
  | succ moves ih => simpa [List.replicate_succ, strokes, stroke] using ih

theorem Strokes.accepted {word : List TouchAction} (h : Strokes word) :
    strokes false word = some false := by
  induction h with
  | nil => rfl
  | stroke moves _ ih =>
    change strokes true (List.replicate moves .move ++ .up :: _) = some false
    rw [strokes_moves]
    exact ih

/-- A word that fits is finished by lifting the pointer, from both sides of a contact. -/
theorem strokes_finish (actions : List TouchAction) :
    (∀ down, strokes false actions = some down →
      Strokes (actions ++ if down then [.up] else [])) ∧
    ∀ down, strokes true actions = some down → ∃ moves rest, Strokes rest ∧
      (actions ++ if down then [.up] else []) = List.replicate moves .move ++ .up :: rest := by
  induction actions with
  | nil =>
    constructor
    · intro down h
      cases h
      exact Strokes.nil
    · intro down h
      cases h
      exact ⟨0, [], Strokes.nil, rfl⟩
  | cons action actions ih =>
    constructor
    · intro down h
      cases action with
      | down =>
        obtain ⟨moves, rest, hrest, heq⟩ := ih.2 down h
        rw [List.cons_append, heq]
        exact Strokes.stroke moves hrest
      | move => cases h
      | up => cases h
    · intro down h
      cases action with
      | down => cases h
      | move =>
        obtain ⟨moves, rest, hrest, heq⟩ := ih.2 down h
        exact ⟨moves + 1, rest, hrest, by rw [List.cons_append, heq]; rfl⟩
      | up => exact ⟨0, _, ih.1 down h, rfl⟩

theorem strokePrefix_iff {actions : List TouchAction} :
    StrokePrefix actions ↔ ∃ down, strokes false actions = some down := by
  constructor
  · intro h
    obtain ⟨word, hword, rest, rfl⟩ := h
    have haccepted := hword.accepted
    rw [strokes, List.foldlM_append] at haccepted
    obtain ⟨down, hdown, -⟩ := Option.bind_eq_some_iff.mp haccepted
    exact ⟨down, hdown⟩
  · intro h
    obtain ⟨down, hdown⟩ := h
    exact ⟨_, (strokes_finish actions).1 down hdown, List.prefix_append _ _⟩

theorem strokes_snoc (actions : List TouchAction) (action : TouchAction) :
    strokes false (actions ++ [action]) =
      (strokes false actions).bind fun down => stroke down action := by
  unfold strokes
  rw [List.foldlM_append]
  simp

theorem strokes_isDown {actions : List TouchAction} {down : Bool}
    (h : strokes false actions = some down) : down = true ↔ IsDown actions := by
  cases List.eq_nil_or_concat actions with
  | inl hnil =>
    subst hnil
    cases h
    simp
  | inr hconcat =>
    obtain ⟨actions, action, rfl⟩ := hconcat
    rw [List.concat_eq_append, strokes_snoc] at h
    obtain ⟨before, -, hstep⟩ := Option.bind_eq_some_iff.mp h
    rw [List.concat_eq_append, isDown_snoc]
    cases action <;> cases before <;> simp_all [stroke]

/-- One more touch: a contact comes exactly when there is none. -/
theorem strokePrefix_snoc {actions : List TouchAction} {action : TouchAction} :
    StrokePrefix (actions ++ [action]) ↔
      StrokePrefix actions ∧ (action = .down ↔ ¬ IsDown actions) := by
  simp only [strokePrefix_iff, strokes_snoc]
  constructor
  · intro h
    obtain ⟨down, hdown⟩ := h
    obtain ⟨before, hbefore, hstep⟩ := Option.bind_eq_some_iff.mp hdown
    refine ⟨⟨before, hbefore⟩, ?_⟩
    rw [← strokes_isDown hbefore]
    cases action <;> cases before <;> simp_all [stroke]
  · intro h
    obtain ⟨⟨before, hbefore⟩, haction⟩ := h
    rw [← strokes_isDown hbefore] at haction
    rw [hbefore]
    cases action <;> cases before <;> simp_all [stroke]

end Strokes

section Stream

/-- A touch of the pointer that is not the sentinel. -/
def Report.contactOf (p : Nat) (report : Report) : Option TouchAction :=
  if report = endSentinel then none else report.actionOf p

/-- The touches of one pointer, without the sentinel. -/
def stream (p : Nat) (calls : List Call) : List TouchAction :=
  calls.filterMap fun call => call.report.contactOf p

/-- The pointers' touches are strokes, and a sentinel comes only when none is down. -/
structure WellFormed (calls : List Call) : Prop where
  strokes : ∀ p, StrokePrefix (stream p calls)
  sentinel : ∀ before call later, calls = before ++ call :: later → call.report = endSentinel →
    ∀ p, ¬ IsDown (stream p before)

/-- What the next call has to meet. -/
def Fits (before : List Call) (call : Call) : Prop :=
  (call.report = endSentinel → ∀ p, ¬ IsDown (stream p before)) ∧
    ∀ p action, call.report.contactOf p = some action →
      (action = .down ↔ ¬ IsDown (stream p before))

theorem stream_snoc (p : Nat) (calls : List Call) (call : Call) :
    stream p (calls ++ [call]) = stream p calls ++ (call.report.contactOf p).toList := by
  unfold stream
  rw [List.filterMap_append]
  cases h : call.report.contactOf p <;> simp [h]

theorem wellFormed_iff {calls : List Call} : WellFormed calls ↔ Throughout Fits calls := by
  constructor
  · intro h before call later hcalls
    refine ⟨h.sentinel before call later hcalls, fun p action hcontact => ?_⟩
    have hinitial : stream p (before ++ [call]) <+: stream p calls := by
      refine List.IsPrefix.filterMap _ ⟨later, ?_⟩
      rw [hcalls, List.append_assoc, List.singleton_append]
    obtain ⟨word, hword, hall⟩ := h.strokes p
    have hsnoc : StrokePrefix (stream p before ++ [action]) := by
      rw [stream_snoc, hcontact] at hinitial
      exact ⟨word, hword, hinitial.trans hall⟩
    exact (strokePrefix_snoc.mp hsnoc).2
  · intro h
    refine ⟨fun p => ?_, fun before call later hcalls => (h before call later hcalls).1⟩
    have hinitial : ∀ before, before <+: calls → StrokePrefix (stream p before) := by
      intro before
      induction before using List.reverseRecOn with
      | nil => exact fun _ => ⟨[], Strokes.nil, List.prefix_rfl⟩
      | append_singleton before call ih =>
        intro hbefore
        obtain ⟨later, hcalls⟩ := hbefore
        rw [List.append_assoc, List.singleton_append] at hcalls
        have hstrokes := ih ⟨call :: later, hcalls⟩
        rw [stream_snoc]
        cases hcontact : call.report.contactOf p with
        | none => simpa using hstrokes
        | some action =>
          exact strokePrefix_snoc.mpr
            ⟨hstrokes, (h before call later hcalls.symm).2 p action hcontact⟩
    exact hinitial calls List.prefix_rfl

end Stream

section Tracked

variable {calls : List Call} {down : Nat → Prop}

/-- A well-formed stream, and the pointers that it has left down. -/
structure Tracked (calls : List Call) (down : Nat → Prop) : Prop where
  fits : Throughout Fits calls
  down : ∀ p, IsDown (stream p calls) ↔ down p

theorem Tracked.congr (h : Tracked calls down) {down' : Nat → Prop} (hdown : ∀ p, down p ↔ down' p) :
    Tracked calls down' :=
  ⟨h.fits, fun p => (h.down p).trans (hdown p)⟩

/-- A report that is no touch. -/
def Report.Silent : Report → Prop
  | .touch _ _ _ _ => False
  | _ => True

theorem Report.Silent.contactOf {report : Report} (h : report.Silent) (p : Nat) :
    report.contactOf p = none := by
  unfold Report.contactOf
  split
  · rfl
  · cases report with
    | touch action x y p' => exact h.elim
    | _ => rfl

theorem Tracked.silent (h : Tracked calls down) {call : Call} (hsilent : call.report.Silent) :
    Tracked (calls ++ [call]) down := by
  refine ⟨h.fits.snoc ⟨fun hsentinel => ?_, fun p action hcontact => ?_⟩, fun p => ?_⟩
  · rw [hsentinel] at hsilent
    exact hsilent.elim
  · rw [hsilent.contactOf p] at hcontact
    cases hcontact
  · rw [stream_snoc, hsilent.contactOf p, Option.toList_none, List.append_nil]
    exact h.down p

/-- A touch inside the drawable is not the sentinel. -/
theorem contactOf_touch {action : TouchAction} {x y : Int} {p p' : Nat} (hx : 0 ≤ x) :
    (Report.touch action x y p).contactOf p' = if p = p' then some action else none := by
  unfold Report.contactOf endSentinel
  rw [if_neg]
  · rfl
  · intro h
    injection h
    omega

theorem contactOf_sentinel (p : Nat) : endSentinel.contactOf p = none := if_pos rfl

variable {action : TouchAction} {x y : Int} {p : Nat} {during : Input}

theorem Tracked.touch (h : Tracked calls down) (hx : 0 ≤ x) (haction : action = .down ↔ ¬ down p) :
    Tracked (calls ++ [⟨.touch action x y p, during⟩])
      fun q => if p = q then action ≠ .up else down q := by
  have hne : Report.touch action x y p ≠ endSentinel := by
    intro heq
    have hcontact : (Report.touch action x y p).contactOf p = _ := contactOf_touch hx
    rw [heq, contactOf_sentinel, if_pos rfl] at hcontact
    cases hcontact
  refine ⟨h.fits.snoc ⟨fun heq => absurd heq hne, fun q action' hcontact => ?_⟩, fun q => ?_⟩
  · rw [contactOf_touch hx] at hcontact
    split at hcontact
    · rename_i hpq
      cases hcontact
      rw [h.down, ← hpq]
      exact haction
    · cases hcontact
  · rw [stream_snoc, contactOf_touch hx]
    by_cases hpq : p = q
    · rw [if_pos hpq, if_pos hpq]
      exact isDown_snoc
    · rw [if_neg hpq, if_neg hpq, Option.toList_none, List.append_nil]
      exact h.down q

theorem Tracked.sentinel (h : Tracked calls down) (hnone : ∀ p, ¬ down p) :
    Tracked (calls ++ [⟨endSentinel, during⟩]) down := by
  refine ⟨h.fits.snoc ⟨fun _ p => ?_, fun p action hcontact => ?_⟩, fun p => ?_⟩
  · rw [h.down]
    exact hnone p
  · rw [contactOf_sentinel] at hcontact
    cases hcontact
  · rw [stream_snoc, contactOf_sentinel, Option.toList_none, List.append_nil]
    exact h.down p

/-- The same contact twice. -/
theorem Tracked.twice (h : Tracked calls down) (hx : 0 ≤ x) (hp : down p) :
    ¬ Throughout Fits (calls ++ [⟨.touch .down x y p, during⟩]) := by
  intro hfits
  have hlast := (hfits calls _ [] rfl).2 p .down (by rw [contactOf_touch hx, if_pos rfl])
  exact hlast.mp rfl ((h.down p).mpr hp)

/-- A sentinel while a pointer is down. -/
theorem Tracked.early (h : Tracked calls down) (hp : down p) :
    ¬ Throughout Fits (calls ++ [⟨endSentinel, during⟩]) := by
  intro hfits
  exact (hfits calls _ [] rfl).1 rfl p ((h.down p).mpr hp)

theorem fits_of_initial {calls' : List Call} (h : Throughout Fits calls')
    (hinitial : calls <+: calls') : Throughout Fits calls := by
  obtain ⟨rest, rfl⟩ := hinitial
  intro before call later hcalls
  exact h before call (later ++ rest) (by rw [hcalls, List.append_assoc, List.cons_append])

end Tracked

section Sources

variable {F : Floats} {s : State} {input input' : Input}

theorem clampPixelCoordinate_nonneg (coordinate extent : Int) :
    0 ≤ clampPixelCoordinate coordinate extent := by
  unfold clampPixelCoordinate
  split
  · exact Int.le_refl 0
  · rename_i hpositive
    split <;> omega

theorem truncate_nonneg {q : ℚ} (h : 0 ≤ q) : 0 ≤ truncate q := by
  unfold truncate
  rw [if_pos h]
  exact Int.floor_nonneg.mpr h

theorem pixelCoordinate_nonneg (F : Floats) (normalized : ℚ) (extent : Int) :
    0 ≤ pixelCoordinate F normalized extent := by
  have hlow : (0 : ℚ) ≤ if normalized < 0 then 0 else normalized := by
    split <;> rename_i hnormalized
    · exact le_rfl
    · exact not_lt.mp hnormalized
  have hclamp : ∀ q : ℚ, 0 ≤ q → (0 : ℚ) ≤ if q > 1 then 1 else q := by
    intro q hq
    split
    · exact zero_le_one
    · exact hq
  unfold pixelCoordinate
  split
  · exact Int.le_refl 0
  · rename_i hextent
    have hpixel : ∀ q : ℚ, 0 ≤ q → 0 ≤ truncate (F.float (q * F.float extent)) := by
      intro q hq
      have hsize : (0 : ℚ) ≤ extent := by exact_mod_cast (not_le.mp hextent).le
      exact truncate_nonneg (F.float_nonneg _ (mul_nonneg hq (F.float_nonneg _ hsize)))
    have hbound : ∀ pixel : Int, 0 ≤ pixel → 0 ≤ if pixel < extent then pixel else extent - 1 := by
      intro pixel hpositive
      split <;> omega
    exact hbound _ (hpixel _ (hclamp _ hlow))

def firstSlot : Fin inputMaxFingers := ⟨0, by decide⟩

/-- Mouse, tap and the finger in slot 0 never have pointer 0 together. -/
structure Input.Single (input : Input) : Prop where
  mouseTap : ¬ (input.mousePressed ∧ input.Tapping)
  mouseFinger : ¬ (input.mousePressed ∧ (input.fingers firstSlot).active)
  tapFinger : ¬ (input.Tapping ∧ (input.fingers firstSlot).active)

/-- A finger has a contact down. -/
def Input.Fingered (input : Input) : Prop := ∃ slot, (input.fingers slot).active

/-- The same sources have contacts. -/
structure Input.Alike (input input' : Input) : Prop where
  mouse : input'.mousePressed = input.mousePressed
  tap : input'.Tapping ↔ input.Tapping
  fingers : ∀ slot, (input'.fingers slot).active = (input.fingers slot).active

theorem Input.Alike.holds (h : input.Alike input') (p : Nat) : input.Holds p ↔ input'.Holds p := by
  unfold Input.Holds
  simp only [h.mouse, h.tap, h.fingers]

theorem Input.Alike.single (h : input.Alike input') (hsingle : input.Single) : input'.Single := by
  constructor
  · rw [h.mouse, h.tap]
    exact hsingle.mouseTap
  · rw [h.mouse, h.fingers]
    exact hsingle.mouseFinger
  · rw [h.tap, h.fingers]
    exact hsingle.tapFinger

/-- The stream is well formed and the record knows who has a contact. -/
structure Clean (s : State) : Prop where
  tracked : Tracked s.calls s.input.Holds
  single : s.input.Single

theorem Clean.record (h : Clean s) (halike : s.input.Alike input) : Clean { s with input } :=
  ⟨h.tracked.congr halike.holds, halike.single h.single⟩

theorem Clean.silent (h : Clean s) {report : Report} (halike : s.input.Alike input)
    (hsilent : report.Silent) : Clean (emit report { s with input }) :=
  ⟨(h.tracked.congr halike.holds).silent hsilent, halike.single h.single⟩

theorem Clean.sendHid (h : Clean s) (eventId : Option HidEventId) (value : ℚ) :
    Clean (sendHid F eventId value s) := by
  unfold InputPump.sendHid
  cases eventId with
  | none => exact h
  | some id =>
    dsimp only
    split
    · exact h
    · exact h.silent ⟨rfl, Iff.rfl, fun _ => rfl⟩ trivial

theorem Clean.sendKey (h : Clean s) (key : Nat) (pressed : Bool) : Clean (sendKey key pressed s) := by
  unfold InputPump.sendKey
  split
  · exact h
  · split
    · exact h
    · exact h.silent ⟨rfl, Iff.rfl, fun _ => rfl⟩ trivial

theorem Clean.releaseKeyboardState (h : Clean s) : Clean (releaseKeyboardState s) := by
  refine List.foldlRecOn _ releaseKey h fun s h key _ => ?_
  unfold releaseKey
  split
  · exact h.silent ⟨rfl, Iff.rfl, fun _ => rfl⟩ trivial
  · exact h

theorem Clean.openController (h : Clean s) (sdl : Sdl) (deviceIndex : Int) :
    Clean (openController sdl deviceIndex s) := by
  unfold InputPump.openController
  split
  · exact h
  · split
    · exact h
    · split
      · exact h
      · exact h.silent ⟨rfl, Iff.rfl, fun _ => rfl⟩ trivial

theorem Clean.openFirstController (h : Clean s) (sdl : Sdl) : Clean (openFirstController sdl s) := by
  have hfirst : ∀ indices (s : State), Clean s → Clean (openFirst sdl indices s) := by
    intro indices
    induction indices with
    | nil =>
      intro s h
      exact h
    | cons index indices ih =>
      intro s h
      unfold openFirst
      dsimp only
      split
      · exact h.openController sdl index
      · exact ih _ (h.openController sdl index)
  unfold InputPump.openFirstController
  split
  · exact h
  · exact hfirst _ s h

/-- The rest of `release_controller_state`, after the tap. -/
theorem Clean.releaseHids (h : Clean (InputPump.finishFirstRunTouch F s)) :
    Clean (releaseControllerState F s) := by
  have hloop : Clean (HidEventId.all.foldl releaseHid (InputPump.finishFirstRunTouch F s)) := by
    refine List.foldlRecOn _ releaseHid h fun s h id _ => ?_
    unfold releaseHid
    split
    · exact h.silent ⟨rfl, Iff.rfl, fun _ => rfl⟩ trivial
    · exact h
  exact hloop.record ⟨rfl, Iff.rfl, fun _ => rfl⟩

end Sources

section Gestures

variable {F : Floats} {s : State} {input : Input}

/-- The tap is the only source with a contact. -/
def Input.TapAlone (input : Input) : Prop := ¬ input.mousePressed ∧ ¬ input.Fingered

/-- The mouse is the only source with a contact. -/
def Input.MouseAlone (input : Input) : Prop := ¬ input.Tapping ∧ ¬ input.Fingered

/-- Fingers are the only sources with contacts. -/
def Input.FingersAlone (input : Input) : Prop := ¬ input.mousePressed ∧ ¬ input.Tapping

/-- Pointer 0 is lifted by the mouse or the tap, and the sentinel follows. -/
theorem Tracked.lift {calls : List Call} {down : Nat → Prop} (h : Tracked calls down)
    (hzero : down 0) (hone : ∀ p, down p → p = 0) {x y : Int} (hx : 0 ≤ x)
    {during during' : Input} :
    Tracked ((calls ++ [⟨.touch .up x y 0, during⟩]) ++ [⟨endSentinel, during'⟩])
      fun _ => False := by
  have hup : Tracked (calls ++ [⟨.touch .up x y 0, during⟩]) _ :=
    h.touch hx (by simpa using hzero)
  refine (hup.sentinel fun p hp => ?_).congr fun p => ?_
  · split at hp
    · exact hp rfl
    · rename_i hp0
      exact hp0 (hone p hp).symm
  · split
    · simp
    · rename_i hp0
      exact ⟨fun hp => hp0 (hone p hp).symm, False.elim⟩

/-- The lift of a pointer closes no gesture while another one is down. -/
theorem Tracked.lift_early {calls : List Call} {down : Nat → Prop} (h : Tracked calls down)
    {p q : Nat} (hp : down p) (hq : down q) (hne : q ≠ p) {x y : Int} (hx : 0 ≤ x)
    {during during' : Input} :
    ¬ Throughout Fits ((calls ++ [⟨.touch .up x y p, during⟩]) ++ [⟨endSentinel, during'⟩]) := by
  have hup : Tracked (calls ++ [⟨.touch .up x y p, during⟩]) _ :=
    h.touch hx (by simpa using hp)
  exact hup.early (p := q) (by rwa [if_neg (Ne.symm hne)])

theorem Input.Single.elsewhere (h : input.Single) (hzero : input.mousePressed ∨ input.Tapping)
    (hfingered : input.Fingered) : ∃ q, input.Holds q ∧ q ≠ 0 := by
  obtain ⟨slot, hslot⟩ := hfingered
  refine ⟨slot.val, Or.inr ⟨slot, rfl, hslot⟩, fun heq => ?_⟩
  obtain rfl : slot = firstSlot := Fin.ext heq
  cases hzero with
  | inl hmouse => exact h.mouseFinger ⟨hmouse, hslot⟩
  | inr htap => exact h.tapFinger ⟨htap, hslot⟩

theorem Input.holds_zero_of_unfingered (h : ¬ input.Fingered) {p : Nat} (hp : input.Holds p) :
    p = 0 := by
  cases hp with
  | inl hzero => exact hzero.1
  | inr hfinger =>
    obtain ⟨slot, -, hactive⟩ := hfinger
    exact absurd ⟨slot, hactive⟩ h

/-- A record without any contact. -/
theorem Input.not_holds (hmouse : ¬ input.mousePressed) (htap : ¬ input.Tapping)
    (hfingered : ¬ input.Fingered) (p : Nat) : ¬ input.Holds p := by
  intro hp
  cases hp with
  | inl hzero =>
    cases hzero.2 with
    | inl hpressed => exact hmouse hpressed
    | inr htapping => exact htap htapping
  | inr hfinger =>
    obtain ⟨slot, -, hactive⟩ := hfinger
    exact hfingered ⟨slot, hactive⟩

theorem Input.single_of_unfingered (hfingered : ¬ input.Fingered)
    (hmouse : ¬ (input.mousePressed ∧ input.Tapping)) : input.Single :=
  ⟨hmouse, fun h => hfingered ⟨_, h.2⟩, fun h => hfingered ⟨_, h.2⟩⟩

theorem Clean.finishFirstRunTouch (h : Clean s) (halone : s.input.Tapping → s.input.TapAlone) :
    Clean (finishFirstRunTouch F s) := by
  unfold InputPump.finishFirstRunTouch
  split
  · rename_i hactive
    split
    · rename_i hstage
      have hsent := h.sendHid (F := F) (some .a) 0
      refine hsent.record ⟨rfl, ?_, fun _ => rfl⟩
      obtain ⟨_, _, hinput⟩ := sendHid_input (F := F) (some .a) 0 s
      dsimp only
      rw [hinput]
      simp [Input.Tapping, hstage]
    · rename_i hstage
      obtain ⟨hmouse, hfingered⟩ := halone ⟨hactive, hstage⟩
      have hzero : s.input.Holds 0 := Or.inl ⟨rfl, Or.inr ⟨hactive, hstage⟩⟩
      refine ⟨(h.tracked.lift hzero (fun p hp => Input.holds_zero_of_unfingered hfingered hp)
        (clampPixelCoordinate_nonneg _ _)).congr fun p => ?_, ?_⟩
      · refine iff_of_false not_false (Input.not_holds ?_ ?_ ?_ p)
        · exact hmouse
        · exact fun htap => Bool.false_ne_true htap.1
        · exact hfingered
      · exact Input.single_of_unfingered hfingered fun hboth => hmouse hboth.1
  · exact h

theorem Clean.finishFirstRunTouch_early (h : Clean s) (htap : s.input.Tapping)
    (hcrowd : ¬ s.input.TapAlone) : ¬ Throughout Fits (InputPump.finishFirstRunTouch F s).calls := by
  have hfingered : s.input.Fingered := by
    by_contra hfingered
    exact hcrowd ⟨fun hmouse => h.single.mouseTap ⟨hmouse, htap⟩, hfingered⟩
  obtain ⟨q, hq, hne⟩ := h.single.elsewhere (Or.inr htap) hfingered
  unfold InputPump.finishFirstRunTouch
  rw [if_pos htap.1, if_neg htap.2]
  exact h.tracked.lift_early (Or.inl ⟨rfl, Or.inr htap⟩) hq hne (clampPixelCoordinate_nonneg _ _)

theorem Clean.liftMouse (h : Clean s) (hmouse : s.input.mousePressed)
    (halone : s.input.MouseAlone) (x y : Int) :
    Clean (sendTouchEndSentinel (setMouse x y false (sendTouchPixels .up x y 0 s))) := by
  have hzero : s.input.Holds 0 := Or.inl ⟨rfl, Or.inl hmouse⟩
  refine ⟨(h.tracked.lift hzero (fun p hp => Input.holds_zero_of_unfingered halone.2 hp)
    (clampPixelCoordinate_nonneg _ _)).congr fun p => ?_, ?_⟩
  · refine iff_of_false not_false (Input.not_holds ?_ ?_ ?_ p)
    · exact fun hpressed => Bool.false_ne_true hpressed
    · exact halone.1
    · exact halone.2
  · exact Input.single_of_unfingered halone.2 fun hboth => halone.1 hboth.2

theorem Clean.liftMouse_early (h : Clean s) (hmouse : s.input.mousePressed)
    (hcrowd : ¬ s.input.MouseAlone) (x y : Int) :
    ¬ Throughout Fits
      (sendTouchEndSentinel (setMouse x y false (sendTouchPixels .up x y 0 s))).calls := by
  have hfingered : s.input.Fingered := by
    by_contra hfingered
    exact hcrowd ⟨fun htap => h.single.mouseTap ⟨hmouse, htap⟩, hfingered⟩
  obtain ⟨q, hq, hne⟩ := h.single.elsewhere (Or.inl hmouse) hfingered
  exact h.tracked.lift_early (Or.inl ⟨rfl, Or.inl hmouse⟩) hq hne (clampPixelCoordinate_nonneg _ _)

/-- A new contact on pointer 0, by the mouse or the tap. -/
theorem Clean.press (h : Clean s) (hfree : ¬ s.input.Holds 0) (x y : Int)
    (hmouse : input.mousePressed ∨ input.Tapping)
    (hone : ¬ (input.mousePressed ∧ input.Tapping)) (hfingers : input.fingers = s.input.fingers) :
    Clean (sendTouchPixels .down x y 0 { s with input }) := by
  have hfinger : ¬ (input.fingers firstSlot).active := by
    rw [hfingers]
    exact fun hactive => hfree (Or.inr ⟨firstSlot, rfl, hactive⟩)
  refine ⟨(h.tracked.touch (clampPixelCoordinate_nonneg _ _) (by simpa using hfree)).congr
    fun p => ?_, ⟨hone, fun hboth => hfinger hboth.2, fun hboth => hfinger hboth.2⟩⟩
  by_cases hp : 0 = p
  · subst hp
    simp only [if_true, ne_eq, reduceCtorEq, not_false_eq_true, true_iff]
    exact Or.inl ⟨rfl, hmouse⟩
  · rw [if_neg hp]
    constructor
    · intro hholds
      exact hholds.finger (Ne.symm hp) hfingers
    · intro hholds
      exact Input.Holds.finger hholds (Ne.symm hp) hfingers.symm

theorem Clean.press_twice (h : Clean s) (hheld : s.input.Holds 0) (x y : Int) :
    ¬ Throughout Fits (sendTouchPixels .down x y 0 { s with input }).calls :=
  h.tracked.twice (clampPixelCoordinate_nonneg _ _) hheld

/-- A move of a pointer that is down. -/
theorem Clean.move (h : Clean s) {p : Nat} (hheld : s.input.Holds p) {x y : Int} (hx : 0 ≤ x) :
    Clean (emit (.touch .move x y p) s) := by
  refine ⟨(h.tracked.touch hx (by simpa using hheld)).congr fun q => ?_, h.single⟩
  by_cases hp : p = q
  · subst hp
    simpa using hheld
  · rw [if_neg hp]
    rfl

/-- A new contact of a finger in a slot whose pointer is free. -/
theorem Clean.pressFinger (h : Clean s) (slot : Fin inputMaxFingers)
    (hfree : ¬ s.input.Holds slot) (x y : ℚ) (hmouse : input.mousePressed = s.input.mousePressed)
    (htap : input.Tapping ↔ s.input.Tapping) (hslot : (input.fingers slot).active)
    (hothers : ∀ slot', slot' ≠ slot →
      (input.fingers slot').active = (s.input.fingers slot').active) :
    Clean (sendTouch F .down x y slot { s with input }) := by
  have hfirst : (input.fingers firstSlot).active →
      (s.input.fingers firstSlot).active ∨ (¬ s.input.mousePressed ∧ ¬ s.input.Tapping) := by
    intro hactive
    by_cases heq : firstSlot = slot
    · subst heq
      exact Or.inr ⟨fun hpressed => hfree (Or.inl ⟨rfl, Or.inl hpressed⟩),
        fun htapping => hfree (Or.inl ⟨rfl, Or.inr htapping⟩)⟩
    · rw [hothers firstSlot heq] at hactive
      exact Or.inl hactive
  refine ⟨(h.tracked.touch (pixelCoordinate_nonneg F _ _) (by simpa using hfree)).congr
    fun p => ?_, ?_, ?_, ?_⟩
  · by_cases hp : slot.val = p
    · rw [if_pos hp]
      exact iff_of_true (by simp) (Or.inr ⟨slot, hp, hslot⟩)
    · rw [if_neg hp]
      change s.input.Holds p ↔ input.Holds p
      unfold Input.Holds
      rw [hmouse, htap]
      refine or_congr_right (exists_congr fun slot' => and_congr_right fun hslot' => ?_)
      rw [hothers slot' (fun heq => hp (heq ▸ hslot'))]
  · change ¬ (input.mousePressed ∧ input.Tapping)
    rw [hmouse, htap]
    exact h.single.mouseTap
  · intro hboth
    change input.mousePressed ∧ _ at hboth
    rw [hmouse] at hboth
    cases hfirst hboth.2 with
    | inl hactive => exact h.single.mouseFinger ⟨hboth.1, hactive⟩
    | inr hidle => exact hidle.1 hboth.1
  · intro hboth
    change input.Tapping ∧ _ at hboth
    rw [htap] at hboth
    cases hfirst hboth.2 with
    | inl hactive => exact h.single.tapFinger ⟨hboth.1, hactive⟩
    | inr hidle => exact hidle.2 hboth.1

/-- The lift of a finger that is down. -/
theorem Clean.liftFinger (h : Clean s) (slot : Fin inputMaxFingers)
    (hactive : (s.input.fingers slot).active) (x y : ℚ) (finger : TouchSlot)
    (hfinger : finger.active = false) :
    Clean (setFinger slot finger (sendTouch F .up x y slot s)) := by
  have hheld : s.input.Holds slot := Or.inr ⟨slot, rfl, hactive⟩
  have hfingers : ∀ slot', ((setFinger slot finger (sendTouch F .up x y slot s)).input.fingers
      slot').active ↔ slot' ≠ slot ∧ (s.input.fingers slot').active := by
    intro slot'
    by_cases heq : slot' = slot
    · subst heq
      simp [setFinger, sendTouch, hfinger]
    · simp [setFinger, sendTouch, heq]
  refine ⟨(h.tracked.touch (pixelCoordinate_nonneg F _ _) (by simpa using hheld)).congr
    fun p => ?_, h.single.mouseTap, fun hboth => ?_, fun hboth => ?_⟩
  · unfold Input.Holds
    simp only [hfingers]
    by_cases hp : slot.val = p
    · rw [if_pos hp]
      refine iff_of_false (by simp) ?_
      intro hholds
      cases hholds with
      | inl hzero =>
        obtain rfl : slot = firstSlot := Fin.ext (hp.trans hzero.1)
        cases hzero.2 with
        | inl hmouse => exact h.single.mouseFinger ⟨hmouse, hactive⟩
        | inr htap => exact h.single.tapFinger ⟨htap, hactive⟩
      | inr hother =>
        obtain ⟨slot', hslot', hne, -⟩ := hother
        exact hne (Fin.ext (hslot'.trans hp.symm))
    · rw [if_neg hp]
      refine or_congr_right (exists_congr fun slot' => and_congr_right fun hslot' => ?_)
      exact ⟨fun hdown => ⟨fun heq => hp (heq ▸ hslot'), hdown⟩, fun hdown => hdown.2⟩
  · exact h.single.mouseFinger ⟨hboth.1, ((hfingers _).mp hboth.2).2⟩
  · exact h.single.tapFinger ⟨hboth.1, ((hfingers _).mp hboth.2).2⟩

theorem Clean.sentinel (h : Clean s) (hnone : ∀ p, ¬ s.input.Holds p) :
    Clean (sendTouchEndSentinel s) :=
  ⟨h.tracked.sentinel hnone, h.single⟩

theorem activeTouchCount_ne_zero : activeTouchCount input ≠ 0 ↔ input.Fingered := by
  unfold activeTouchCount Input.Fingered
  rw [← Nat.pos_iff_ne_zero, List.countP_pos_iff]
  simp [slots]

theorem Clean.releaseTouch_fold (h : Clean s) (released : List (Fin inputMaxFingers)) :
    Clean (released.foldl (releaseTouch F) s) := by
  refine List.foldlRecOn released (releaseTouch F) h fun s h slot _ => ?_
  unfold releaseTouch
  dsimp only
  split
  · rename_i hactive
    exact h.liftFinger slot hactive _ _ _ rfl
  · exact h

theorem Clean.releaseAllTouches (h : Clean s) (halone : s.input.Fingered → s.input.FingersAlone) :
    Clean (releaseAllTouches F s) := by
  have hfold := h.releaseTouch_fold (F := F) slots
  have hinput := InputPump.releaseTouch_fold (F := F) slots s
  unfold InputPump.releaseAllTouches
  dsimp only
  split
  · rename_i hfingered
    obtain ⟨hmouse, htap⟩ := halone (activeTouchCount_ne_zero.mp hfingered)
    refine hfold.sentinel fun p => ?_
    rw [hinput]
    refine Input.not_holds ?_ ?_ ?_ p
    · exact hmouse
    · exact htap
    · simp [Input.Fingered, Input.setFingers, slots, TouchSlot.released]
  · exact hfold

/-- The pointers of mouse and tap are still down when the last finger is lifted. -/
theorem Clean.releaseAllTouches_early (h : Clean s) (hfingered : s.input.Fingered)
    (hcrowd : ¬ s.input.FingersAlone) :
    ¬ Throughout Fits (InputPump.releaseAllTouches F s).calls := by
  have hfold := h.releaseTouch_fold (F := F) slots
  have hinput := InputPump.releaseTouch_fold (F := F) slots s
  have hzero : (slots.foldl (releaseTouch F) s).input.Holds 0 := by
    rw [hinput]
    refine Or.inl ⟨rfl, ?_⟩
    by_contra hnone
    exact hcrowd (not_or.mp hnone)
  unfold InputPump.releaseAllTouches
  dsimp only
  rw [if_pos (activeTouchCount_ne_zero.mpr hfingered)]
  exact hfold.tracked.early hzero

end Gestures

section Events

variable {F : Floats} {s : State} {input : Input}

/-- The slot is the only one with a contact. -/
def Input.Last (input : Input) (slot : Fin inputMaxFingers) : Prop :=
  ∀ slot', (input.fingers slot').active → slot' = slot

/-- Mouse and tap, if they have a contact, have the only one. -/
def Input.Apart (input : Input) : Prop :=
  (input.Tapping → input.TapAlone) ∧ (input.mousePressed → input.MouseAlone)

/-- The button ends the synthetic tap. -/
def Input.OwnsTap (input : Input) (button : SdlButton) : Prop :=
  input.firstRunTouchActive ∧ some button = input.firstRunTouchButton

/-- The button begins a synthetic tap. -/
def Input.BeginsTap (input : Input) (button : SdlButton) : Prop :=
  ¬ input.OwnsTap button ∧ input.firstRunTouchStage < firstRunTouchComplete ∧
    isFirstRunTouchButton button

/-- No source presses a pointer that is down, and none ends its last contact, with the
sentinel, while another one has a contact. -/
def Uncrossed (input : Input) : Action → Prop
  | .shutdown => input.Apart
  | .event _ event =>
    match event with
    | .controllerDeviceRemoved which =>
      which = input.instanceId → input.controller ≠ none → input.Tapping → input.TapAlone
    | .controllerButton which button pressed =>
      ¬ (input.controller = none ∨ which ≠ input.instanceId) →
        (pressed → input.BeginsTap button → input.firstRunTouchStage ≠ firstRunTouchUpdateLog →
          ¬ input.Holds 0) ∧
        (pressed = false → input.OwnsTap button → input.Tapping → input.TapAlone)
    | .finger .down tfinger =>
      touchSlotForFinger input tfinger.fingerId = none ∧
        ∀ slot, freeTouchSlot input = some slot → ¬ input.Holds slot
    | .finger .up tfinger =>
      ∀ slot, touchSlotForFinger input tfinger.fingerId = some slot → input.Last slot →
        input.FingersAlone
    | .mouseButton pressed button =>
      ¬ (button.which = sdlTouchMouseId ∨ button.button ≠ sdlButtonLeft) →
        (pressed → ¬ input.mousePressed → ¬ input.Holds 0) ∧
        (pressed = false → input.mousePressed → input.MouseAlone)
    | .windowFocusLost => input.Apart
    | _ => True

theorem Clean.setMouse (h : Clean s) (x y : Int) (pressed : Bool)
    (hpressed : pressed = s.input.mousePressed) : Clean (setMouse x y pressed s) :=
  h.record ⟨hpressed, Iff.rfl, fun _ => rfl⟩

theorem Clean.handleMouseButton (h : Clean s) (sdl : Sdl) (button : MouseButtonEvent) (down : Bool)
    (hok : Uncrossed s.input (.event sdl (.mouseButton down button))) :
    Clean (handleMouseButton F sdl button down s) := by
  unfold InputPump.handleMouseButton
  split
  · exact h
  · rename_i hours
    obtain ⟨hpress, hlift⟩ := hok hours
    dsimp only
    split
    · rename_i hdown
      split
      · rename_i hmouse
        exact h.setMouse _ _ true hmouse.symm
      · rename_i hidle
        have hfree := hpress hdown hidle
        exact h.press hfree _ _ (Or.inl rfl)
          (fun hboth => hfree (Or.inl ⟨rfl, Or.inr hboth.2⟩)) rfl
    · rename_i hup
      split
      · rename_i hmouse
        have hset := h.setMouse (mouseDrawableCoordinate F s.input sdl button.x true)
          (mouseDrawableCoordinate F s.input sdl button.y false) true hmouse.symm
        exact hset.liftMouse rfl (hlift (by simpa using hup) hmouse) _ _
      · rename_i hidle
        exact h.setMouse _ _ false (by simpa using hidle)

theorem Clean.handleMouseButton_crossed (h : Clean s) (sdl : Sdl) (button : MouseButtonEvent)
    (down : Bool) (hbad : ¬ Uncrossed s.input (.event sdl (.mouseButton down button))) :
    ¬ Throughout Fits (InputPump.handleMouseButton F sdl button down s).calls := by
  unfold Uncrossed at hbad
  dsimp only at hbad
  rw [Classical.not_imp] at hbad
  obtain ⟨hours, hbad⟩ := hbad
  unfold InputPump.handleMouseButton
  rw [if_neg hours]
  dsimp only
  cases down with
  | true =>
    have hheld : ¬ s.input.mousePressed ∧ s.input.Holds 0 := by simpa using hbad
    rw [if_pos rfl, if_neg hheld.1]
    exact h.press_twice hheld.2 _ _
  | false =>
    have hcrowd : s.input.mousePressed ∧ ¬ s.input.MouseAlone := by simpa using hbad
    rw [if_neg Bool.false_ne_true, if_pos hcrowd.1]
    have hset := h.setMouse (mouseDrawableCoordinate F s.input sdl button.x true)
      (mouseDrawableCoordinate F s.input sdl button.y false) true hcrowd.1.symm
    exact hset.liftMouse_early rfl hcrowd.2 _ _

theorem Clean.handleMouseMotion (h : Clean s) (sdl : Sdl) (motion : MouseMotionEvent) :
    Clean (handleMouseMotion F sdl motion s) := by
  unfold InputPump.handleMouseMotion
  split
  · exact h
  · rename_i hours
    have hmouse : s.input.mousePressed = true := not_not.mp (not_or.mp hours).2
    exact (h.setMouse _ _ true hmouse.symm).move (Or.inl ⟨rfl, Or.inl rfl⟩)
      (clampPixelCoordinate_nonneg _ _)

theorem Clean.releaseMouseTouch (h : Clean s)
    (halone : s.input.mousePressed → s.input.MouseAlone) : Clean (releaseMouseTouch s) := by
  unfold InputPump.releaseMouseTouch
  split
  · rename_i hmouse
    exact h.liftMouse hmouse (halone hmouse) _ _
  · exact h

/-- A finger's record with a new place. -/
theorem Clean.moveFinger (h : Clean s) (slot : Fin inputMaxFingers) (x y : ℚ) :
    Clean (setFinger slot { s.input.fingers slot with x, y } s) := by
  refine h.record ⟨rfl, Iff.rfl, fun slot' => ?_⟩
  by_cases heq : slot' = slot
  · subst heq
    simp
  · simp [heq]

theorem moveFinger_input (slot slot' : Fin inputMaxFingers) (x y : ℚ) (s : State) :
    ((setFinger slot { s.input.fingers slot with x, y } s).input.fingers slot').active =
      (s.input.fingers slot').active := by
  by_cases heq : slot' = slot
  · subst heq
    simp [setFinger]
  · simp [setFinger, heq]

theorem Clean.fingerDown (h : Clean s) (sdl : Sdl) (finger : TouchFingerEvent)
    (hok : Uncrossed s.input (.event sdl (.finger .down finger))) :
    Clean (handleFingerEvent F finger .down s) := by
  obtain ⟨hnew, hfree⟩ := hok
  unfold handleFingerEvent allocateTouchSlot
  dsimp only
  rw [hnew]
  dsimp only
  cases hslot : freeTouchSlot s.input with
  | none => exact h
  | some slot =>
    refine h.pressFinger slot (hfree slot hslot) _ _ rfl Iff.rfl ?_ fun slot' hne => ?_
    · simp [setFinger]
    · simp [setFinger, hne]

theorem Clean.fingerDown_crossed (h : Clean s) (sdl : Sdl) (finger : TouchFingerEvent)
    (hbad : ¬ Uncrossed s.input (.event sdl (.finger .down finger))) :
    ¬ Throughout Fits (handleFingerEvent F finger .down s).calls := by
  unfold handleFingerEvent allocateTouchSlot
  dsimp only
  cases hknown : touchSlotForFinger s.input finger.fingerId with
  | some slot =>
    have hactive := touchSlotForFinger_active hknown
    exact h.tracked.twice (pixelCoordinate_nonneg F _ _) (Or.inr ⟨slot, rfl, hactive⟩)
  | none =>
    obtain ⟨slot, hslot, hheld⟩ : ∃ slot, freeTouchSlot s.input = some slot ∧
        s.input.Holds slot := by
      simpa [Uncrossed, hknown] using hbad
    dsimp only
    rw [hslot]
    exact h.tracked.twice (pixelCoordinate_nonneg F _ _) hheld

theorem Clean.fingerMotion (h : Clean s) (finger : TouchFingerEvent) :
    Clean (handleFingerEvent F finger .motion s) := by
  unfold handleFingerEvent
  dsimp only
  cases hslot : touchSlotForFinger s.input finger.fingerId with
  | none => exact h
  | some slot =>
    have hactive := touchSlotForFinger_active hslot
    have hmoved := h.moveFinger slot finger.x finger.y
    refine hmoved.move (Or.inr ⟨slot, rfl, ?_⟩) (pixelCoordinate_nonneg F _ _)
    rwa [moveFinger_input]

/-- The record after the lift of a finger. -/
theorem Input.fingered_after_lift (slot : Fin inputMaxFingers) (x y : ℚ) (s : State)
    (hlifted : input.fingers = (setFinger slot
      { (setFinger slot { s.input.fingers slot with x, y } s).input.fingers slot with
        active := false }
      (setFinger slot { s.input.fingers slot with x, y } s)).input.fingers) :
    ¬ input.Fingered ↔ s.input.Last slot := by
  unfold Input.Fingered Input.Last
  rw [hlifted, not_exists]
  refine forall_congr' fun slot' => ?_
  by_cases heq : slot' = slot
  · subst heq
    simp [setFinger]
  · simp [setFinger, heq]

theorem Clean.fingerUp (h : Clean s) (sdl : Sdl) (finger : TouchFingerEvent)
    (hok : Uncrossed s.input (.event sdl (.finger .up finger))) :
    Clean (handleFingerEvent F finger .up s) := by
  unfold handleFingerEvent
  dsimp only
  cases hslot : touchSlotForFinger s.input finger.fingerId with
  | none => exact h
  | some slot =>
    have hactive := touchSlotForFinger_active hslot
    have hmoved := h.moveFinger slot finger.x finger.y
    rw [← moveFinger_input slot slot finger.x finger.y s] at hactive
    have hlifted := hmoved.liftFinger (F := F) slot hactive finger.x finger.y
    dsimp only
    split
    · rename_i hcount
      have hunfingered := (not_congr activeTouchCount_ne_zero).mp (not_not.mpr hcount)
      have hlast := (Input.fingered_after_lift slot finger.x finger.y s rfl).mp hunfingered
      obtain ⟨hmouse, htap⟩ := hok slot hslot hlast
      refine (hlifted _ rfl).sentinel (Input.not_holds ?_ ?_ ?_)
      · exact hmouse
      · exact htap
      · exact hunfingered
    · exact hlifted _ rfl

theorem Clean.fingerUp_crossed (h : Clean s) (sdl : Sdl) (finger : TouchFingerEvent)
    (hbad : ¬ Uncrossed s.input (.event sdl (.finger .up finger))) :
    ¬ Throughout Fits (handleFingerEvent F finger .up s).calls := by
  obtain ⟨slot, hslot, hlast, hcrowd⟩ : ∃ slot,
      touchSlotForFinger s.input finger.fingerId = some slot ∧ s.input.Last slot ∧
        ¬ s.input.FingersAlone := by
    simpa [Uncrossed] using hbad
  have hactive := touchSlotForFinger_active hslot
  have hmoved := h.moveFinger slot finger.x finger.y
  rw [← moveFinger_input slot slot finger.x finger.y s] at hactive
  have hlifted := hmoved.liftFinger (F := F) slot hactive finger.x finger.y
  unfold handleFingerEvent
  dsimp only
  rw [hslot]
  dsimp only
  rw [if_pos]
  · refine (hlifted _ rfl).tracked.early (p := 0) (Or.inl ⟨rfl, ?_⟩)
    by_contra hnone
    exact hcrowd (not_or.mp hnone)
  · by_contra hcount
    exact (Input.fingered_after_lift slot finger.x finger.y s rfl).mpr hlast
      (activeTouchCount_ne_zero.mp hcount)

theorem Input.Alike.fingered {input' : Input} (h : input.Alike input') :
    input'.Fingered ↔ input.Fingered := by
  unfold Input.Fingered
  simp only [h.fingers]

theorem releaseKeyboardState_alike (s : State) :
    s.input.Alike (releaseKeyboardState s).input := by
  unfold InputPump.releaseKeyboardState
  rw [releaseKey_fold]
  exact ⟨rfl, Iff.rfl, fun _ => rfl⟩

/-- Without a contact of the tap, the sources stay as they are. -/
theorem releaseControllerState_alike (htap : ¬ s.input.Tapping) :
    s.input.Alike (releaseControllerState F s).input := by
  obtain ⟨_, _, hinput⟩ := releaseControllerState_input (F := F) s
  rw [hinput]
  exact ⟨rfl, iff_of_false (fun htap' => Bool.false_ne_true htap'.1) htap, fun _ => rfl⟩

/-- With a contact of the tap alone, none is left. -/
theorem releaseControllerState_idle (halone : s.input.TapAlone) :
    ¬ (releaseControllerState F s).input.mousePressed ∧
      ¬ (releaseControllerState F s).input.Fingered := by
  obtain ⟨_, _, hinput⟩ := releaseControllerState_input (F := F) s
  rw [hinput]
  exact halone

theorem Clean.beginFirstRunTouch (h : Clean s) (button : SdlButton)
    (hfree : s.input.firstRunTouchStage ≠ firstRunTouchUpdateLog → ¬ s.input.Holds 0) :
    Clean (beginFirstRunTouch F button s) := by
  unfold InputPump.beginFirstRunTouch
  dsimp only
  split
  · rename_i hstage
    refine Clean.sendHid ?_ _ _
    refine h.record ⟨rfl, ?_, fun _ => rfl⟩
    exact iff_of_false (fun htap => htap.2 hstage) fun htap => htap.2 hstage
  · rename_i hstage
    have hnone := hfree hstage
    exact h.press hnone _ _ (Or.inr ⟨rfl, hstage⟩)
      (fun hboth => hnone (Or.inl ⟨rfl, Or.inl hboth.1⟩)) rfl

theorem Clean.beginFirstRunTouch_twice (h : Clean s) (button : SdlButton)
    (hstage : s.input.firstRunTouchStage ≠ firstRunTouchUpdateLog) (hheld : s.input.Holds 0) :
    ¬ Throughout Fits (InputPump.beginFirstRunTouch F button s).calls := by
  unfold InputPump.beginFirstRunTouch
  dsimp only
  rw [if_neg hstage]
  exact h.press_twice hheld _ _

theorem Clean.handleControllerButton (h : Clean s) (button : SdlButton) (pressed : Bool)
    (hbegin : pressed → s.input.BeginsTap button →
      s.input.firstRunTouchStage ≠ firstRunTouchUpdateLog → ¬ s.input.Holds 0)
    (hend : pressed = false → s.input.OwnsTap button → s.input.Tapping → s.input.TapAlone) :
    Clean (handleControllerButton F button pressed s).1 := by
  unfold InputPump.handleControllerButton
  dsimp only
  split
  · rename_i howns
    split
    · exact h
    · rename_i hup
      exact h.finishFirstRunTouch (hend (by simpa using hup) howns)
  · rename_i hother
    split
    · rename_i hdown
      exact h.beginFirstRunTouch button (hbegin hdown.1 ⟨hother, hdown.2⟩)
    · have hsent := h.sendHid (F := F) (hidButton button) (if pressed then 1 else 0)
      split
      · exact hsent.record ⟨rfl, Iff.rfl, fun _ => rfl⟩
      · split
        · exact hsent.record ⟨rfl, Iff.rfl, fun _ => rfl⟩
        · exact hsent

theorem Clean.handleControllerButton_crossed (h : Clean s) (button : SdlButton) (pressed : Bool)
    (hbad : ¬ ((pressed → s.input.BeginsTap button →
        s.input.firstRunTouchStage ≠ firstRunTouchUpdateLog → ¬ s.input.Holds 0) ∧
      (pressed = false → s.input.OwnsTap button → s.input.Tapping → s.input.TapAlone))) :
    ¬ Throughout Fits (InputPump.handleControllerButton F button pressed s).1.calls := by
  unfold InputPump.handleControllerButton
  dsimp only
  cases pressed with
  | true =>
    obtain ⟨hbegins, hstage, hheld⟩ : s.input.BeginsTap button ∧
        s.input.firstRunTouchStage ≠ firstRunTouchUpdateLog ∧ s.input.Holds 0 := by
      simpa using hbad
    have hother : ¬ (s.input.firstRunTouchActive = true ∧
        some button = s.input.firstRunTouchButton) := hbegins.1
    have hbegin : true = true ∧ s.input.firstRunTouchStage < firstRunTouchComplete ∧
        isFirstRunTouchButton button = true := ⟨rfl, hbegins.2⟩
    rw [if_neg hother, if_pos hbegin]
    exact h.beginFirstRunTouch_twice button hstage hheld
  | false =>
    obtain ⟨howns, htap, hcrowd⟩ : s.input.OwnsTap button ∧ s.input.Tapping ∧
        ¬ s.input.TapAlone := by
      simpa using hbad
    have hsame : s.input.firstRunTouchActive = true ∧
        some button = s.input.firstRunTouchButton := howns
    rw [if_pos hsame]
    exact h.finishFirstRunTouch_early htap hcrowd

theorem Clean.releaseControllerState (h : Clean s)
    (halone : s.input.Tapping → s.input.TapAlone) : Clean (releaseControllerState F s) :=
  (h.finishFirstRunTouch halone).releaseHids

theorem Clean.releaseControllerState_early (h : Clean s) (htap : s.input.Tapping)
    (hcrowd : ¬ s.input.TapAlone) :
    ¬ Throughout Fits (InputPump.releaseControllerState F s).calls := by
  intro hfits
  refine h.finishFirstRunTouch_early (F := F) htap hcrowd (fits_of_initial hfits ?_)
  exact releaseHid_extends _ _

theorem Clean.closeController (h : Clean s)
    (halone : s.input.controller ≠ none → s.input.Tapping → s.input.TapAlone) (notify : Bool) :
    Clean (closeController F notify s) := by
  unfold InputPump.closeController
  split
  · exact h
  · rename_i hopen
    have hreleased := h.releaseControllerState (F := F) (halone hopen)
    dsimp only
    refine Clean.record ?_ ⟨rfl, Iff.rfl, fun _ => rfl⟩
    split
    · exact hreleased.silent ⟨rfl, Iff.rfl, fun _ => rfl⟩ trivial
    · exact hreleased

/-- The release of the mouse, unless another source has a contact. -/
theorem Clean.releaseMouseTouch_early (h : Clean s) (hmouse : s.input.mousePressed)
    (hcrowd : ¬ s.input.MouseAlone) :
    ¬ Throughout Fits (InputPump.releaseMouseTouch s).calls := by
  unfold InputPump.releaseMouseTouch
  rw [if_pos hmouse]
  exact h.liftMouse_early hmouse hcrowd _ _

/-- Mouse and fingers are released one after the other. -/
theorem Clean.releaseTouches (h : Clean s) (hmouse : s.input.mousePressed → s.input.MouseAlone)
    (htap : s.input.Tapping → ¬ s.input.Fingered) :
    Clean (InputPump.releaseAllTouches F (InputPump.releaseMouseTouch s)) := by
  have hreleased := h.releaseMouseTouch hmouse
  refine hreleased.releaseAllTouches fun hfingered => ?_
  rw [releaseMouseTouch_input] at hfingered ⊢
  exact ⟨Bool.false_ne_true, fun htap' => htap htap' hfingered⟩

theorem Input.not_apart (h : ¬ input.Apart) :
    (input.Tapping ∧ ¬ input.TapAlone) ∨ (input.mousePressed ∧ ¬ input.MouseAlone) := by
  obtain htap | hmouse := not_and_or.mp h
  · exact Or.inl (Classical.not_imp.mp htap)
  · exact Or.inr (Classical.not_imp.mp hmouse)

theorem Input.Alike.mouseAlone {input' : Input} (h : input.Alike input') :
    input'.MouseAlone ↔ input.MouseAlone := by
  unfold Input.MouseAlone
  rw [h.tap, h.fingered]

/-- The mouse and the fingers after the tap, in the order of a loss of focus. -/
theorem Clean.handleFocusLost (h : Clean s) (hapart : s.input.Apart) :
    Clean (handleFocusLost F s) := by
  have halike := releaseKeyboardState_alike (InputPump.releaseControllerState F s)
  have hkeys := (h.releaseControllerState (F := F) hapart.1).releaseKeyboardState
  have htap : ¬ (InputPump.releaseControllerState F s).input.Tapping := by
    obtain ⟨_, _, hinput⟩ := releaseControllerState_input (F := F) s
    rw [hinput]
    exact fun htap => Bool.false_ne_true htap.1
  have hmouse : (InputPump.releaseControllerState F s).input.mousePressed →
      (InputPump.releaseControllerState F s).input.MouseAlone := by
    intro hpressed
    by_cases htapping : s.input.Tapping
    · exact absurd hpressed (releaseControllerState_idle (hapart.1 htapping)).1
    · have hsame := releaseControllerState_alike (F := F) htapping
      rw [hsame.mouse] at hpressed
      exact hsame.mouseAlone.mpr (hapart.2 hpressed)
  unfold InputPump.handleFocusLost
  generalize InputPump.releaseKeyboardState (InputPump.releaseControllerState F s) = t
    at halike hkeys
  refine hkeys.releaseTouches (fun hpressed => ?_) fun htapping => ?_
  · rw [halike.mouse] at hpressed
    exact halike.mouseAlone.mpr (hmouse hpressed)
  · exact absurd (halike.tap.mp htapping) htap

theorem Clean.handleFocusLost_early (h : Clean s) (hbad : ¬ s.input.Apart) :
    ¬ Throughout Fits (InputPump.handleFocusLost F s).calls := by
  intro hfits
  cases Input.not_apart hbad with
  | inl htap =>
    refine h.releaseControllerState_early (F := F) htap.1 htap.2 (fits_of_initial hfits ?_)
    exact (releaseKeyboardState_extends _).trans
      ((releaseMouseTouch_extends _).trans (releaseAllTouches_extends F _))
  | inr hmouse =>
    have hidle : ¬ s.input.Tapping := fun htap => h.single.mouseTap ⟨hmouse.1, htap⟩
    have hsame := releaseControllerState_alike (F := F) hidle
    have halike := releaseKeyboardState_alike (InputPump.releaseControllerState F s)
    have hkeys := (h.releaseControllerState (F := F)
      fun htap => absurd htap hidle).releaseKeyboardState
    unfold InputPump.handleFocusLost at hfits
    generalize InputPump.releaseKeyboardState (InputPump.releaseControllerState F s) = t
      at halike hkeys hfits
    refine hkeys.releaseMouseTouch_early ?_ ?_
      (fits_of_initial hfits (releaseAllTouches_extends F _))
    · rw [halike.mouse, hsame.mouse]
      exact hmouse.1
    · rw [halike.mouseAlone, hsame.mouseAlone]
      exact hmouse.2

theorem Clean.shutdown (h : Clean s) (hapart : s.input.Apart) : Clean (shutdown F s) := by
  have halike := releaseKeyboardState_alike s
  have hkeys := h.releaseKeyboardState
  unfold InputPump.shutdown
  generalize InputPump.releaseKeyboardState s = t at halike hkeys
  have htouches : Clean (InputPump.releaseAllTouches F (InputPump.releaseMouseTouch t)) := by
    refine hkeys.releaseTouches (fun hmouse => ?_) fun htap => ?_
    · rw [halike.mouse] at hmouse
      exact halike.mouseAlone.mpr (hapart.2 hmouse)
    · rw [halike.fingered]
      exact (hapart.1 (halike.tap.mp htap)).2
  refine htouches.closeController (fun _ _ => ?_) true
  rw [releaseAllTouches_input, releaseMouseTouch_input]
  refine ⟨Bool.false_ne_true, fun hfingered => ?_⟩
  obtain ⟨slot, hactive⟩ := hfingered
  exact Bool.false_ne_true hactive

theorem Clean.shutdown_early (h : Clean s) (hbad : ¬ s.input.Apart) :
    ¬ Throughout Fits (InputPump.shutdown F s).calls := by
  have halike := releaseKeyboardState_alike s
  have hkeys := h.releaseKeyboardState
  intro hfits
  have hfits := fits_of_initial hfits (closeController_extends F true _)
  generalize InputPump.releaseKeyboardState s = t at halike hkeys hfits
  cases Input.not_apart hbad with
  | inl htap =>
    have hup : ¬ s.input.mousePressed := fun hpressed => h.single.mouseTap ⟨hpressed, htap.1⟩
    have hfingered : s.input.Fingered := by
      by_contra hnone
      exact htap.2 ⟨hup, hnone⟩
    have hreleased : Clean (InputPump.releaseMouseTouch t) := by
      refine hkeys.releaseMouseTouch fun hpressed => ?_
      rw [halike.mouse] at hpressed
      exact absurd hpressed hup
    refine hreleased.releaseAllTouches_early ?_ ?_ hfits
    · rw [releaseMouseTouch_input]
      exact halike.fingered.mpr hfingered
    · rw [releaseMouseTouch_input]
      exact fun halone => halone.2 (halike.tap.mpr htap.1)
  | inr hmouse =>
    refine hkeys.releaseMouseTouch_early ?_ ?_
      (fits_of_initial hfits (releaseAllTouches_extends F _))
    · rw [halike.mouse]
      exact hmouse.1
    · rw [halike.mouseAlone]
      exact hmouse.2

end Events

section Runs

variable {F : Floats} {s : State}

theorem Clean.act (h : Clean s) {action : Action} (hok : Uncrossed s.input action) :
    Clean (act F s action) := by
  cases action with
  | shutdown => exact h.shutdown hok
  | event sdl event =>
    unfold InputPump.act handleEvent
    cases event with
    | controllerDeviceAdded which => exact h.openController sdl which
    | controllerDeviceRemoved which =>
      dsimp only
      split
      · rename_i hwhich
        exact (h.closeController (hok hwhich) true).openFirstController sdl
      · exact h
    | controllerButton which button pressed =>
      dsimp only
      split
      · exact h
      · rename_i hours
        obtain ⟨hbegin, hend⟩ := hok hours
        exact h.handleControllerButton button pressed hbegin hend
    | controllerAxisMotion which axis value =>
      dsimp only
      split
      · exact h
      · exact h.sendHid _ _
    | finger type tfinger =>
      cases type with
      | down => exact h.fingerDown sdl tfinger hok
      | motion => exact h.fingerMotion tfinger
      | up => exact h.fingerUp sdl tfinger hok
    | mouseButton pressed button => exact h.handleMouseButton sdl button pressed hok
    | mouseMotion motion => exact h.handleMouseMotion sdl motion
    | key pressed repeated sym =>
      dsimp only
      split
      · exact h
      · exact h.sendKey _ _
    | windowSizeChanged data1 data2 => exact h.record ⟨rfl, Iff.rfl, fun _ => rfl⟩
    | windowFocusLost =>
      have hlost := h.handleFocusLost (F := F) hok
      simpa only using hlost
    | quit | other => exact h

theorem Clean.act_crossed (h : Clean s) {action : Action} (hbad : ¬ Uncrossed s.input action) :
    ¬ Throughout Fits (InputPump.act F s action).calls := by
  cases action with
  | shutdown => exact h.shutdown_early hbad
  | event sdl event =>
    unfold InputPump.act handleEvent
    cases event with
    | controllerDeviceRemoved which =>
      obtain ⟨hwhich, hopen, htap, hcrowd⟩ : which = s.input.instanceId ∧
          s.input.controller ≠ none ∧ s.input.Tapping ∧ ¬ s.input.TapAlone := by
        simpa [Uncrossed] using hbad
      intro hfits
      dsimp only at hfits
      rw [if_pos hwhich] at hfits
      have hclosed := fits_of_initial hfits (openFirstController_extends sdl _)
      unfold InputPump.closeController at hclosed
      rw [if_neg hopen] at hclosed
      exact h.releaseControllerState_early (F := F) htap hcrowd
        (fits_of_initial hclosed (List.prefix_append _ _))
    | controllerButton which button pressed =>
      obtain ⟨hours, hbad⟩ := Classical.not_imp.mp hbad
      dsimp only
      rw [if_neg hours]
      exact h.handleControllerButton_crossed button pressed hbad
    | finger type tfinger =>
      cases type with
      | down => exact h.fingerDown_crossed sdl tfinger hbad
      | motion => exact absurd trivial hbad
      | up => exact h.fingerUp_crossed sdl tfinger hbad
    | mouseButton pressed button => exact h.handleMouseButton_crossed sdl button pressed hbad
    | windowFocusLost =>
      have hlost := h.handleFocusLost_early (F := F) hbad
      simpa only using hlost
    | _ => exact absurd trivial hbad

theorem clean_initial (sdl : Sdl) (drawableWidth drawableHeight : Int) (statePath : Option String)
    (stage : Int) : Clean (initial sdl drawableWidth drawableHeight statePath stage) := by
  refine Clean.openFirstController ?_ sdl
  refine ⟨⟨Throughout.nil _, fun p => iff_of_false isDown_nil ?_⟩, ?_⟩
  · exact Input.not_holds Bool.false_ne_true (fun htap => Bool.false_ne_true htap.1)
      (fun hfingered => hfingered.elim fun _ => Bool.false_ne_true) p
  · exact Input.single_of_unfingered (fun hfingered => hfingered.elim fun _ => Bool.false_ne_true)
      fun hboth => Bool.false_ne_true hboth.1

/-- Every step of the run meets the condition. -/
def UncrossedRun (F : Floats) (s : State) (actions : List Action) : Prop :=
  ∀ before action later, actions = before ++ action :: later →
    Uncrossed (after F s before).input action

theorem after_snoc (F : Floats) (s : State) (actions : List Action) (action : Action) :
    after F s (actions ++ [action]) = act F (after F s actions) action := by
  unfold after
  rw [List.foldl_append]
  rfl

/-- A run is well formed and clean, or it has met a crossing and stays spoilt. -/
theorem Clean.run (h : Clean s) (actions : List Action) :
    (UncrossedRun F s actions → Clean (after F s actions)) ∧
      (Throughout Fits (after F s actions).calls → UncrossedRun F s actions) := by
  induction actions using List.reverseRecOn with
  | nil =>
    refine ⟨fun _ => h, fun _ before action later hsplit => ?_⟩
    simp at hsplit
  | append_singleton actions action ih =>
    rw [after_snoc]
    constructor
    · intro hrun
      refine Clean.act (ih.1 fun before action' later hsplit => ?_) (hrun actions action [] rfl)
      exact hrun before action' (later ++ [action]) (by rw [hsplit, List.append_assoc,
        List.cons_append])
    · intro hfits
      have hrun := ih.2 (fits_of_initial hfits (act_extends F _ action))
      have hok : Uncrossed (after F s actions).input action := by
        by_contra hbad
        exact (ih.1 hrun).act_crossed hbad hfits
      have hsnoc : Throughout (fun before action => Uncrossed (after F s before).input action)
          (actions ++ [action]) := Throughout.snoc hrun hok
      exact hsnoc

/-- The touches of a run are well formed exactly if no step of it crosses two sources. -/
theorem touches_wellFormed_iff (F : Floats) (sdl : Sdl) (drawableWidth drawableHeight : Int)
    (statePath : Option String) (stage : Int) (actions : List Action) :
    WellFormed (after F (initial sdl drawableWidth drawableHeight statePath stage) actions).calls ↔
      UncrossedRun F (initial sdl drawableWidth drawableHeight statePath stage) actions := by
  have hrun := (clean_initial sdl drawableWidth drawableHeight statePath stage).run (F := F) actions
  rw [wellFormed_iff]
  exact ⟨hrun.2, fun huncrossed => (hrun.1 huncrossed).tracked.fits⟩

/-- A session without controllers, on numbers that need no rounding. -/
def exactFloats : Floats := ⟨id, id, fun _ h => h⟩

def noControllers : Sdl := ⟨0, fun _ => false, fun _ => none, none⟩

/-- A finger is put down, and then the left mouse button is pressed. -/
def fingerThenMouse : List Action :=
  [.event noControllers (.finger .down ⟨1, 0, 0⟩),
    .event noControllers (.mouseButton true ⟨0, sdlButtonLeft, 0, 0⟩)]

theorem touches_not_wellFormed : ¬ ∀ (F : Floats) (sdl : Sdl) (drawableWidth drawableHeight : Int)
    (statePath : Option String) (stage : Int) (actions : List Action),
    WellFormed
      (after F (initial sdl drawableWidth drawableHeight statePath stage) actions).calls := by
  intro h
  have hwellFormed := h exactFloats noControllers 640 480 none firstRunTouchComplete fingerThenMouse
  have hrun := ((clean_initial noControllers 640 480 none firstRunTouchComplete).run
    fingerThenMouse).2 (wellFormed_iff.mp hwellFormed)
  have hmouse := hrun [fingerThenMouse.head (by decide)] _ [] rfl
  refine (hmouse (by decide)).1 rfl (by decide) (Or.inr ⟨firstSlot, rfl, ?_⟩)
  rfl

end Runs

end Asm2Runtime.InputPump
