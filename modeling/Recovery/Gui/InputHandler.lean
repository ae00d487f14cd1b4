import Mathlib.Data.List.Basic

/-!
# Touches, keys and the mouse (`gui/gui.cpp`, `gui/pages.cpp`)

* `Device` — the objects of a page, the keyboard and the mouse cursor, which react in any way.
* `InputHandler` — its variables, `mTouchStart` of the page, and what objects were notified of.
* `NotifyTouch` — `Page::NotifyTouch`.
* `doTouchStart`, `process_EV_ABS`, `process_EV_KEY`, `process_EV_REL`, `processHoldAndRepeat`,
  `handleDrag` — the handlers; `step`, `run`.

The screen saver is left out, and so are changes of the page.

What an object does with an event is up to `Device`: the handlers see only whether there is one at
a place, and what it returns.
-/

set_option autoImplicit false

namespace Recovery.Gui

/-- `TOUCH_STATE`. -/
inductive TouchState where
  | start
  | drag
  | release
  | hold
  | repeat
deriving DecidableEq

/-- An object was notified, and returned something. -/
structure Notice where
  object : Nat
  state : TouchState
  ret : Int
deriving DecidableEq

/-- What the handlers call; `ω` is everything that objects and the keyboard can change. -/
structure Device (ω : Type) where
  /-- `TW_USE_KEY_CODE_TOUCH_SYNC`. -/
  touchSync : Option Int
  /-- The size of `mActions`. -/
  mActions : Nat
  isInRegion : Nat → Int → Int → ω → Bool
  notifyTouch : Nat → TouchState → Int → Int → ω → Int × ω
  keyDown : Int → ω → Bool × ω
  keyUp : Int → ω → ω
  keyRepeat : ω → ω
  cursorPos : ω → Int × Int
  cursorMove : Int → Int → ω → ω

inductive TouchStatus where
  | none
  | touchAndHold
  | touchRepeat
deriving DecidableEq

inductive KeyStatus where
  | none
  | keyPressed
  | keyRepeat
deriving DecidableEq

inductive ActionState where
  | inActionArea
  | noAction
deriving DecidableEq

structure InputHandler (ω : Type) where
  touch_status : TouchStatus
  key_status : KeyStatus
  state : ActionState
  x : Int
  y : Int
  /-- Of `handleDrag`. -/
  prevx : Int
  prevy : Int
  mTouchStart : Option Nat
  world : ω
  /-- What objects were notified of, in order. -/
  notices : List Notice

inductive InputEvent where
  | abs (code value : Int)
  | rel (code value : Int)
  | key (code value : Int)
  /-- No event came. -/
  | timeout (mtime : Int)
  /-- The render loop. -/
  | render

namespace InputHandler

variable {ω : Type} (d : Device ω)

/-- `init`, with a page that was just loaded. -/
def init (world : ω) : InputHandler ω where
  touch_status := .none
  key_status := .none
  state := .noAction
  x := 0
  y := 0
  prevx := 0
  prevy := 0
  mTouchStart := none
  world := world
  notices := []

/-! ## `Page::NotifyTouch` -/

/-- `object->NotifyTouch(state, x, y)`. -/
def notify (object : Nat) (state : TouchState) (s : InputHandler ω) : Int × InputHandler ω :=
  let (ret, world) := d.notifyTouch object state s.x s.y s.world
  (ret, { s with world, notices := s.notices ++ [⟨object, state, ret⟩] })

/-- The loop for `TOUCH_START`. -/
def notifyStart : List Nat → Int → InputHandler ω → Int × InputHandler ω
  | [], ret, s => (ret, s)
  | object :: objects, ret, s =>
    if d.isInRegion object s.x s.y s.world then
      let (ret, s) := notify d object .start { s with mTouchStart := some object }
      if ret ≥ 0 then (ret, s) else notifyStart objects ret { s with mTouchStart := none }
    else notifyStart objects ret s

def NotifyTouch (state : TouchState) (s : InputHandler ω) : Int × InputHandler ω :=
  if d.mActions = 0 then (1, s)
  else
    match state, s.mTouchStart with
    | .start, _ => notifyStart d (List.range d.mActions).reverse 1 s
    | .release, some object =>
      let (ret, s) := notify d object .release s
      (ret, { s with mTouchStart := none })
    | state, some object => notify d object state s
    | _, none => (1, s)

/-! ## Handlers -/

/-- What `NotifyTouch` returns decides whether the rest of the touch is looked at. -/
def setState (ret : Int) (s : InputHandler ω) : InputHandler ω :=
  { s with state := if ret > 0 then .noAction else .inActionArea }

def doTouchStart (s : InputHandler ω) : InputHandler ω :=
  let (ret, s) := NotifyTouch d .start s
  { setState ret s with touch_status := .touchAndHold }

def process_EV_ABS (code value : Int) (s : InputHandler ω) : InputHandler ω :=
  let s := { s with x := value / 65536, y := value % 65536 }
  if code = 0 then
    if d.touchSync = none then
      let s := if s.state = .inActionArea then (NotifyTouch d .release s).2 else s
      { s with touch_status := .none }
    else s
  else if s.touch_status = .none then if d.touchSync = none then doTouchStart d s else s
  else s

def BTN_LEFT : Int := 0x110
def BTN_SIDE : Int := 0x113
def KEY_BACK : Int := 158

/-- `cursor->GetPos(x, y)`. -/
def getPos (s : InputHandler ω) : InputHandler ω :=
  { s with x := (d.cursorPos s.world).1, y := (d.cursorPos s.world).2 }

def keyUp (code : Int) (s : InputHandler ω) : InputHandler ω := { s with world := d.keyUp code s.world }

def keyDown (code : Int) (s : InputHandler ω) : Bool × InputHandler ω :=
  let (repeats, world) := d.keyDown code s.world
  (repeats, { s with world })

def process_EV_KEY (code value : Int) (s : InputHandler ω) : InputHandler ω :=
  if code = BTN_LEFT then
    if value = 1 then doTouchStart d (getPos d s)
    else if s.touch_status ≠ .none then
      let s := if s.state = .inActionArea then (NotifyTouch d .release (getPos d s)).2 else s
      { s with touch_status := .none }
    else s
  else if code = BTN_SIDE then
    if value = 1 then (keyDown d KEY_BACK s).2 else keyUp d KEY_BACK s
  else if value ≠ 0 then
    if d.touchSync = some code then doTouchStart d s
    else
      let (repeats, s) := keyDown d code s
      { s with key_status := if repeats then .keyPressed else .none, touch_status := .none }
  else
    let s := { keyUp d code s with key_status := .none, touch_status := .none }
    if d.touchSync = some code then (NotifyTouch d .release s).2 else s

def REL_X : Int := 0
def REL_Y : Int := 1

def process_EV_REL (code value : Int) (s : InputHandler ω) : InputHandler ω :=
  let s :=
    if code = REL_X then { s with world := d.cursorMove value 0 s.world }
    else if code = REL_Y then { s with world := d.cursorMove 0 value s.world }
    else s
  if s.touch_status ≠ .none then { getPos d s with key_status := .none } else s

def touch_hold_ms : Int := 500
def touch_repeat_ms : Int := 100
def key_hold_ms : Int := 500
def key_repeat_ms : Int := 100

/-- `mtime`: the milliseconds since the last touch or key. -/
def processHoldAndRepeat (mtime : Int) (s : InputHandler ω) : InputHandler ω :=
  if s.touch_status = .touchAndHold ∧ mtime > touch_hold_ms then
    (NotifyTouch d .hold { s with touch_status := .touchRepeat }).2
  else if s.touch_status = .touchRepeat ∧ mtime > touch_repeat_ms then
    (NotifyTouch d .repeat s).2
  else if s.key_status = .keyPressed ∧ mtime > key_hold_ms then
    { s with key_status := .keyRepeat, world := d.keyRepeat s.world }
  else if s.key_status = .keyRepeat ∧ mtime > key_repeat_ms then
    { s with world := d.keyRepeat s.world }
  else s

def handleDrag (s : InputHandler ω) : InputHandler ω :=
  if s.touch_status ≠ .none ∧ (s.x ≠ s.prevx ∨ s.y ≠ s.prevy) then
    let (ret, s) := NotifyTouch d .drag { s with prevx := s.x, prevy := s.y }
    setState ret s
  else s

/-! ## Runs -/

def step (s : InputHandler ω) : InputEvent → InputHandler ω
  | .abs code value => process_EV_ABS d code value s
  | .rel code value => process_EV_REL d code value s
  | .key code value => process_EV_KEY d code value s
  | .timeout mtime =>
    if s.touch_status ≠ .none ∨ s.key_status ≠ .none then processHoldAndRepeat d mtime s else s
  | .render => handleDrag d s

def run (s : InputHandler ω) (events : List InputEvent) : InputHandler ω := events.foldl (step d) s

end InputHandler

end Recovery.Gui
