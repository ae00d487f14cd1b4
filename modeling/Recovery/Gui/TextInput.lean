import Mathlib.Algebra.Order.Ring.Int
import Recovery.Gui.InputHandler

/-!
# The input box (`gui/input.cpp`)

* `InputBox` — what the theme says of it; `BoxVariable` — `DataManager`, as it sees its variable.
* `GUIInput` — its text, as it is stored and as it is displayed, and its cursor.
* `UpdateDisplayText`, `HandleTextLocation`, `HandleCursorByTouch`, `HandleCursorByText`.
* `NotifyVarChange`, `NotifyTouch`, `NotifyKey`, `NotifyCharInput`; `step`, `run`.

Nothing is returned where `std::string` throws.  Drawing is left out, and with it `mRendered`.

Events are the notifications that an object gets, in any order; fonts and the keyboard layout only
enter through the widths that a touch is compared with.
-/

set_option autoImplicit false

namespace Recovery.Gui

abbrev Text := List UInt8

structure InputBox where
  mVariable : String
  mMask : Text
  /-- There is an `mFont`. -/
  mFont : Bool
  /-- `gr_ttf_measureEx`, in this font. -/
  measure : Text → Int
  AllowedList : Text
  DisabledList : Text
  MinLen : Nat
  MaxLen : Nat
  mRenderX : Int
  mRenderY : Int
  mRenderW : Int
  mRenderH : Int
  CursorWidth : Nat
  /-- What `mAction` returns, if there is one. -/
  mAction : Option Int

/-- `GetValue` and `SetValue` of `mVariable`; `δ` is all that they depend on. -/
structure BoxVariable (δ : Type) where
  getValue : δ → Option Text
  /-- Whether the box is notified, too. -/
  setValue : Text → δ → δ × Bool

structure GUIInput where
  mValue : Text
  displayValue : Text
  /-- An index, or -1 for the end. -/
  mCursorLocation : Int
  cursorX : Int
  scrollingX : Int
  textWidth : Int
  lastX : Int
  HasInputFocus : Bool
  DrawCursor : Bool
  isLocalChange : Bool
  /-- `startSelection` of `NotifyTouch`. -/
  startSelection : Int
deriving DecidableEq

/-! ## Strings -/

/-- `insert(pos, 1, c)`. -/
def insert? (text : Text) (pos : Int) (c : UInt8) : Option Text :=
  if 0 ≤ pos ∧ pos ≤ text.length then some (text.insertIdx pos.toNat c) else none

/-- `erase(pos, 1)`. -/
def erase? (text : Text) (pos : Int) : Option Text :=
  if 0 ≤ pos ∧ pos ≤ text.length then some (text.eraseIdx pos.toNat) else none

/-- `resize(size)`. -/
def resize (text : Text) (size : Nat) : Text :=
  text.take size ++ List.replicate (size - text.length) 0

/-- A `char` made of an `int`. -/
def char (key : Int) : UInt8 := UInt8.ofNat (key % 2 ^ 8).toNat

namespace GUIInput

/-- A new box. -/
def new (HasInputFocus : Bool) (startSelection : Int) : GUIInput where
  mValue := []
  displayValue := []
  mCursorLocation := -1
  cursorX := 0
  scrollingX := 0
  textWidth := 0
  lastX := 0
  HasInputFocus
  DrawCursor := HasInputFocus
  isLocalChange := true
  startSelection

variable {δ : Type} (c : InputBox) (v : BoxVariable δ)

/-! ## Text and cursor -/

/-- `HandleTextLocation(x)`; none stands for `TW_INPUT_NO_UPDATE`. -/
def HandleTextLocation (x : Option Int) (s : GUIInput) : GUIInput :=
  if s.textWidth ≤ c.mRenderW then { s with lastX := x.getD s.lastX, scrollingX := 0 }
  else
    let scrollingX :=
      if s.scrollingX + s.textWidth < c.mRenderW then c.mRenderW - s.textWidth else s.scrollingX
    match x with
    | none => { s with scrollingX }
    | some x =>
      let scrollingX := scrollingX + (x - s.lastX)
      if 0 < scrollingX then { s with scrollingX := 0, lastX := x }
      else if scrollingX + s.textWidth < c.mRenderW then
        { s with scrollingX := c.mRenderW - s.textWidth, lastX := x }
      else { s with scrollingX, lastX := x }

/-- The value, or one `mMask` for each of its bytes. -/
def displayed (value : Text) : Text :=
  if c.mMask ≠ [] then (List.replicate value.length c.mMask).flatten else value

def UpdateDisplayText (d : δ) (s : GUIInput) : GUIInput :=
  if c.mFont then
    let mValue := (v.getValue d).getD s.mValue
    let displayValue := displayed c mValue
    { s with mValue, displayValue, textWidth := c.measure displayValue }
  else { s with textWidth := 0 }

/-- The loop of `HandleCursorByTouch`, for so many more values of `index`. -/
def touchLoop (x : Int) : Nat → Nat → Int → GUIInput → GUIInput
  | 0, _, _, s => { s with mCursorLocation := -1 }
  | more + 1, index, prevX, s =>
    let cursorX := c.measure (s.displayValue.take index) + c.mRenderX + s.scrollingX
    if x < cursorX then
      if 0 < index ∧ x ≤ cursorX - (x - prevX).tdiv 2 ∧ c.mRenderX ≤ prevX then
        { s with mCursorLocation := index - 1, cursorX := prevX }
      else if c.mRenderX + c.mRenderW < cursorX then
        { s with mCursorLocation := index - 1, cursorX := prevX }
      else if c.mRenderX ≤ cursorX then { s with mCursorLocation := index, cursorX }
      else touchLoop x more (index + 1) cursorX { s with mCursorLocation := index, cursorX }
    else touchLoop x more (index + 1) cursorX { s with cursorX }

def HandleCursorByTouch (x : Int) (s : GUIInput) : GUIInput :=
  if s.displayValue.length = 0 then { s with mCursorLocation := -1, cursorX := c.mRenderX }
  else if c.mFont then
    touchLoop c x (s.displayValue.length + 1) 0 (c.mRenderX + s.scrollingX) s
  else s

def HandleCursorByText (s : GUIInput) : GUIInput :=
  if s.DrawCursor ∧ c.mFont then
    let cursorTextWidth :=
      if s.mCursorLocation ≠ -1 then c.measure (resize s.displayValue s.mCursorLocation.toNat)
      else s.textWidth
    let cursorX := c.mRenderX + cursorTextWidth + s.scrollingX
    if c.mRenderX + c.mRenderW ≤ cursorX then
      { s with
        scrollingX := c.mRenderW - cursorTextWidth
        cursorX := c.mRenderX + c.mRenderW - c.CursorWidth }
    else if cursorX < c.mRenderX then
      { s with scrollingX := -cursorTextWidth, cursorX := c.mRenderX }
    else { s with cursorX }
  else s

/-! ## Events -/

def NotifyVarChange (varName : String) (d : δ) (s : GUIInput) : GUIInput :=
  if varName = c.mVariable then
    if s.isLocalChange then { s with isLocalChange := false }
    else HandleTextLocation c none (UpdateDisplayText c v d s)
  else if varName = "" then
    HandleCursorByText c (HandleTextLocation c none (UpdateDisplayText c v d s))
  else s

def GetSelection (x y : Int) : Int :=
  if x < c.mRenderX ∨ c.mRenderW < x - c.mRenderX ∨ y < c.mRenderY ∨ c.mRenderH < y - c.mRenderY then
    -1
  else x - c.mRenderX

/-- `NotifyTouch`; `shown` is `isConditionTrue`. -/
def NotifyTouch (shown : Bool) (state : TouchState) (x y : Int) (s : GUIInput) : Int × GUIInput :=
  if !shown then (-1, s)
  else if !s.HasInputFocus then
    if state ≠ .release then (0, s)
    else if 0 ≤ GetSelection c x y then (0, { s with HasInputFocus := true, DrawCursor := true })
    else (0, s)
  else
    match state with
    | .hold | .repeat => (0, s)
    | .start =>
      (0, { s with startSelection := GetSelection c x y, lastX := x, DrawCursor := false })
    | .drag =>
      if GetSelection c x y = -1 then (0, { s with lastX := 0 })
      else
        let s := { s with DrawCursor := false }
        if s.startSelection ≠ -1 ∧ (x - s.lastX).natAbs < 6 then (0, s)
        else
          let s := { s with startSelection := -1 }
          if s.lastX ≠ x then (0, HandleTextLocation c (some x) s) else (0, s)
    | .release => (0, HandleCursorByTouch c x { s with DrawCursor := true })

def KEY_HOME : Int := 102
def KEY_UP : Int := 103
def KEY_LEFT : Int := 105
def KEY_RIGHT : Int := 106
def KEY_END : Int := 107
def KEY_DOWN : Int := 108

def NotifyKey (key : Int) (down : Bool) (s : GUIInput) : Int × GUIInput :=
  if !s.HasInputFocus || !down then (1, s)
  else if key = KEY_LEFT then
    if s.mCursorLocation = 0 then (0, s)
    else if s.mCursorLocation = -1 then
      if s.displayValue.length = 0 then (0, { s with cursorX := c.mRenderX })
      else (0, HandleCursorByText c { s with mCursorLocation := s.displayValue.length - 1 })
    else (0, HandleCursorByText c { s with mCursorLocation := s.mCursorLocation - 1 })
  else if key = KEY_RIGHT then
    if s.mCursorLocation = -1 then (0, s)
    else
      let mCursorLocation := s.mCursorLocation + 1
      if s.displayValue.length ≤ mCursorLocation then
        (0, HandleCursorByText c { s with mCursorLocation := -1 })
      else (0, HandleCursorByText c { s with mCursorLocation })
  else if key = KEY_HOME ∨ key = KEY_UP then
    if s.displayValue.length = 0 then (0, s)
    else (0, { s with mCursorLocation := 0, cursorX := c.mRenderX })
  else if key = KEY_END ∨ key = KEY_DOWN then
    (0, HandleCursorByText c { s with mCursorLocation := -1 })
  else (1, s)

def KEYBOARD_BACKSPACE : Int := 8
def KEYBOARD_ACTION : Int := 13
def KEYBOARD_SWIPE_LEFT : Int := 21

/-- `DataManager::SetValue` of the variable. -/
def SetValue (value : Text) (s : GUIInput) (d : δ) : GUIInput × δ :=
  let (d, notified) := v.setValue value d
  (if notified then NotifyVarChange c v c.mVariable d s else s, d)

/-- What follows a change of `mValue`. -/
def setText (s : GUIInput) (d : δ) : Int × GUIInput × δ :=
  let (s, d) := SetValue c v s.mValue { s with isLocalChange := true } d
  (0, HandleCursorByText c (HandleTextLocation c none (UpdateDisplayText c v d s)), d)

/-- `KEYBOARD_SWIPE_LEFT`. -/
def deleteAll (s : GUIInput) (d : δ) : Int × GUIInput × δ :=
  let s := { s with isLocalChange := true }
  let (s, d) :=
    if s.mCursorLocation = -1 then
      let (s, d) := SetValue c v [] s d
      ({ s with mValue := [], textWidth := 0, mCursorLocation := -1 }, d)
    else
      let s := { s with mValue := s.mValue.drop s.mCursorLocation.toNat }
      let (s, d) := SetValue c v s.mValue s d
      ({ s with mCursorLocation := 0 }, d)
  (0, { UpdateDisplayText c v d s with cursorX := c.mRenderX, scrollingX := 0 }, d)

/-- The restrictions of a regular key. -/
def allowed (key : Int) (s : GUIInput) : Bool :=
  (c.AllowedList = [] ∨ char key ∈ c.AllowedList) ∧
    (c.DisabledList = [] ∨ char key ∉ c.DisabledList) ∧
    ¬ (c.MaxLen ≠ 0 ∧ c.MaxLen ≤ s.mValue.length)

def NotifyCharInput (key : Int) (s : GUIInput) (d : δ) : Option (Int × GUIInput × δ) :=
  if s.HasInputFocus then
    if key = KEYBOARD_BACKSPACE then
      if 0 < s.mValue.length ∧ s.mCursorLocation ≠ 0 then
        if s.mCursorLocation = -1 then setText c v { s with mValue := s.mValue.dropLast } d
        else do
          let mValue ← erase? s.mValue (s.mCursorLocation - 1)
          setText c v { s with mValue, mCursorLocation := s.mCursorLocation - 1 } d
      else some (0, s, d)
    else if key = KEYBOARD_SWIPE_LEFT then some (deleteAll c v s d)
    else if 32 ≤ key then
      if !allowed c key s then some (0, s, d)
      else if s.mCursorLocation = -1 then setText c v { s with mValue := s.mValue ++ [char key] } d
      else do
        let mValue ← insert? s.mValue s.mCursorLocation (char key)
        setText c v { s with mValue, mCursorLocation := s.mCursorLocation + 1 } d
    else if key = KEYBOARD_ACTION then
      match c.mAction with
      | none => some (0, s, d)
      | some ret =>
        if s.mValue.length < c.MinLen then some (0, s, d)
        else if c.MaxLen ≠ 0 ∧ c.MaxLen < s.mValue.length then some (0, s, d)
        else some (ret, s, d)
    else some (0, s, d)
  else some (1, s, d)

end GUIInput

/-- What happens to a box. -/
inductive BoxEvent (δ : Type) where
  | varChange (varName : String)
  | touch (shown : Bool) (state : TouchState) (x y : Int)
  | key (key : Int) (down : Bool)
  | char (key : Int)
  /-- Other code changes variables, the focus and `startSelection`. -/
  | other (d : δ) (focus : Bool) (startSelection : Int)

namespace GUIInput

variable {δ : Type} (c : InputBox) (v : BoxVariable δ)

def step (s : GUIInput) (d : δ) : BoxEvent δ → Option (GUIInput × δ)
  | .varChange varName => some (NotifyVarChange c v varName d s, d)
  | .touch shown state x y => some ((NotifyTouch c shown state x y s).2, d)
  | .key key down => some ((NotifyKey c key down s).2, d)
  | .char key => (NotifyCharInput c v key s d).map (·.2)
  | .other d focus startSelection => some ({ s with HasInputFocus := focus, startSelection }, d)

def run (s : GUIInput) (d : δ) : List (BoxEvent δ) → Option (GUIInput × δ)
  | [] => some (s, d)
  | e :: events => do
    let (s, d) ← step c v s d e
    run s d events

end GUIInput

end Recovery.Gui
