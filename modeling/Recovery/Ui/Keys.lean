import Mathlib.Data.List.Forall2
import Mathlib.Data.Fin.Basic
import Mathlib.Logic.Function.Basic
import Recovery.Lib.Trace

/-!
# Key presses (`ui.cpp`)

The input thread, one timer thread for each press and the thread that waits for keys share the
members of `RecoveryUI` under `key_queue_mutex`.  A step of the model is one critical section (or
one unprotected access to what another thread writes); between two steps any other thread may run.

* `step` — `ProcessKey`, `CheckKey`, `EnqueueKey`, `time_key`, `WaitKey`, `FlushKeys`,
  `SetEnableReboot` and the calls of `ShowText`.  The input thread is a program counter (`Pc`), so
  that every other thread may run between any two of its critical sections; each timer thread is an
  entry of `timers`, which may wake at any time after its press.
* `registered_iff` — a key is registered exactly when it is released after its press with no press
  or release in between, and as a long press exactly when that press's own timer ran meanwhile.
-/

set_option autoImplicit false

namespace Recovery.Ui

open Recovery.Lib (runs runs_invariant)

/-! ## The state -/

abbrev KEY_MAX : Nat := 0x2ff

/-- `OnInputEvent` passes no code above `KEY_MAX`. -/
abbrev Key := Fin (KEY_MAX + 1)

def KEY_ENTER : Key := 28

def KEY_UP : Key := 103

def KEY_VOLUMEUP : Key := 115

def KEY_POWER : Key := 116

inductive ScreensaverState where
  | DISABLED | NORMAL | DIMMED | OFF
deriving DecidableEq

/-- What `Init` finds out about the device. -/
structure Device where
  has_power_key : Bool
  has_up_key : Bool
  has_down_key : Bool
  has_touch_screen : Bool
  touch_screen_allowed_ : Bool

def HasThreeButtons (d : Device) : Bool := d.has_power_key && d.has_up_key && d.has_down_key

def queue_max : Nat := 256

/-- `key_queue` with `key_queue_len`. -/
structure KeyQueue where
  keys : List Key
  bounded : keys.length ≤ queue_max

namespace KeyQueue

def empty : KeyQueue := ⟨[], Nat.zero_le _⟩

def push (q : KeyQueue) (k : Key) : Option KeyQueue :=
  if h : q.keys.length < queue_max then some ⟨q.keys ++ [k], by
    rw [List.length_append]
    exact h⟩ else none

/-- The `memcpy` down by one cell.  Its two areas overlap; it is taken to move the cells as
`memmove` does. -/
def shift (q : KeyQueue) : KeyQueue :=
  ⟨q.keys.tail, by
    rw [List.length_tail]
    exact (Nat.sub_le _ _).trans q.bounded⟩

end KeyQueue

/-- Where the input thread is between two critical sections. -/
inductive Pc where
  | idle
  /-- `CheckKey` is about to clear `key_long_press`. -/
  | check (key : Key) (long_press reboot_enabled : Bool)
  /-- `IsKeyPressed(KEY_POWER)`. -/
  | chord (key : Key) (reboot_enabled : Bool)
  /-- `is_long_press && !IsTextVisible()`. -/
  | hidden (key : Key) (reboot_enabled : Bool)
  /-- `is_long_press && IsTextVisible()`. -/
  | shown (key : Key) (reboot_enabled : Bool)
  /-- "Press power seven times in a row to reboot." -/
  | power (key : Key) (reboot_enabled : Bool)
  /-- The two reads of the last line. -/
  | visible (key : Key)
  | screensaver (key : Key)
  /-- `ShowText(!IsTextVisible())`, the read and the call. -/
  | toggle
  | showText (visible : Bool)
  | reboot (reboot_enabled : Bool)
  | enqueue (key : Key)
  /-- `pause()` for ever. -/
  | paused

structure RecoveryUI where
  key_queue : KeyQueue
  key_pressed : Key → Int
  /-- `-1` is `none`. -/
  key_last_down : Option Key
  key_long_press : Bool
  key_down_count : Nat
  enable_reboot : Bool
  consecutive_power_keys : Nat
  last_key : Option Key
  screensaver_state_ : ScreensaverState
  /-- What `IsTextVisible` reads. -/
  show_text : Bool
  /-- The `key_timer_t` of every timer thread that still sleeps. -/
  timers : List (Key × Nat)
  pc : Pc

/-- The constructor and `Init`. -/
def RecoveryUI.new (screensaver : ScreensaverState) (show_text : Bool) : RecoveryUI where
  key_queue := .empty
  key_pressed := fun _ => 0
  key_last_down := none
  key_long_press := false
  key_down_count := 0
  enable_reboot := true
  consecutive_power_keys := 0
  last_key := none
  screensaver_state_ := screensaver
  show_text := show_text
  timers := []
  pc := .idle

/-- What can be seen from outside. -/
inductive Event where
  | registered (key : Key) (long_press : Bool)
  /-- The call of `KeyLongPress`. -/
  | longPress (key : Key)
  /-- The power test of `CheckKey`: it counts a power key, or another key starts the count again.
  Keys whose check ends before the test (a chord, a long press) give neither event. -/
  | power | other
  | reboot
  | accepted (key : Key)
  | rejected (key : Key)
  /-- `WaitKey` drops the key that lights the screen. -/
  | dropped (key : Key)
  /-- The value of `WaitKey`; `-1` is `none`. -/
  | returned (key : Option Key)
  | flushed (keys : List Key)

/-! ## The steps -/

/-- The first critical section. -/
def ProcessKey (ui : RecoveryUI) (key_code : Key) (updown : Int) : RecoveryUI × List Event :=
  let ui := { ui with key_pressed := Function.update ui.key_pressed key_code (updown.bmod 256) }
  if updown ≠ 0 then
    ({ ui with
        key_down_count := ui.key_down_count + 1
        key_last_down := some key_code
        key_long_press := false
        timers := ui.timers ++ [(key_code, ui.key_down_count + 1)] }, [])
  else if ui.key_last_down = some key_code then
    ({ ui with
        key_last_down := none
        pc := .check key_code ui.key_long_press ui.enable_reboot },
      [.registered key_code ui.key_long_press])
  else ({ ui with key_last_down := none }, [])

def EnqueueKey (ui : RecoveryUI) (key_code : Key) : RecoveryUI × List Event :=
  match ui.key_queue.push key_code with
  | some q => ({ ui with key_queue := q }, [.accepted key_code])
  | none => (ui, [.rejected key_code])

/-- The rest of `ProcessKey` with `CheckKey`, one section at a time. -/
def CheckKey (d : Device) (ui : RecoveryUI) : Option (RecoveryUI × List Event) :=
  match ui.pc with
  | .idle => none
  | .check key is_long_press r =>
    let ui := { ui with key_long_press := false }
    if HasThreeButtons d ||
        (d.has_power_key && d.has_touch_screen && d.touch_screen_allowed_) then
      if key = KEY_VOLUMEUP ∨ key = KEY_UP then some ({ ui with pc := .chord key r }, [])
      else some ({ ui with pc := .power key r }, [])
    else if is_long_press then some ({ ui with pc := .hidden key r }, [])
    else some ({ ui with pc := .power key r }, [])
  | .chord key r =>
    if ui.key_pressed KEY_POWER ≠ 0 then some ({ ui with pc := .toggle }, [])
    else some ({ ui with pc := .power key r }, [])
  | .hidden key r =>
    if !ui.show_text then some ({ ui with pc := .toggle }, [])
    else some ({ ui with pc := .shown key r }, [])
  | .shown key r =>
    -- The text may have been hidden since the read before.
    if ui.show_text then some ({ ui with pc := .enqueue KEY_ENTER }, [])
    else some ({ ui with pc := .power key r }, [])
  | .power key r =>
    if key = KEY_POWER then
      if ui.enable_reboot then
        let ui := { ui with consecutive_power_keys := ui.consecutive_power_keys + 1 }
        if 7 ≤ ui.consecutive_power_keys then some ({ ui with pc := .reboot r }, [.power])
        else some ({ ui with last_key := some key, pc := .visible key }, [.power])
      else some ({ ui with last_key := some key, pc := .visible key }, [])
    else
      some ({ ui with consecutive_power_keys := 0, last_key := some key, pc := .visible key },
        [.other])
  | .visible key =>
    if ui.show_text then some ({ ui with pc := .enqueue key }, [])
    else some ({ ui with pc := .screensaver key }, [])
  | .screensaver key =>
    if ui.screensaver_state_ = .OFF then some ({ ui with pc := .enqueue key }, [])
    else some ({ ui with pc := .idle }, [])
  | .toggle => some ({ ui with pc := .showText !ui.show_text }, [])
  | .showText v => some ({ ui with show_text := v, pc := .idle }, [])
  | .reboot r =>
    if r then some ({ ui with pc := .paused }, [.reboot]) else some ({ ui with pc := .idle }, [])
  | .enqueue key => some (EnqueueKey { ui with pc := .idle } key)
  | .paused => none

/-- The timer thread of `(key_code, count)` after its 750 ms. -/
def time_key (ui : RecoveryUI) (key_code : Key) (count : Nat) :
    Option (RecoveryUI × List Event) :=
  if (key_code, count) ∈ ui.timers then
    let timers := ui.timers.erase (key_code, count)
    if ui.key_last_down = some key_code ∧ ui.key_down_count = count then
      some ({ ui with timers, key_long_press := true }, [.longPress key_code])
    else some ({ ui with timers }, [])
  else none

/-- The new state counts when the brightness file took its value. -/
def setBrightness (ui : RecoveryUI) (state : ScreensaverState) (written : Bool) : RecoveryUI :=
  { ui with screensaver_state_ := if written then state else ui.screensaver_state_ }

/-- The screensaver's part of `WaitKey`. -/
def screensaver (ui : RecoveryUI) (timedOut written : Bool) : RecoveryUI × List Event :=
  match ui.screensaver_state_ with
  | .DISABLED => (ui, [])
  | .NORMAL => (if timedOut then setBrightness ui .DIMMED written else ui, [])
  | .DIMMED => (setBrightness ui (if timedOut then .OFF else .NORMAL) written, [])
  | .OFF =>
    if timedOut then (ui, [])
    else
      (setBrightness { ui with key_queue := ui.key_queue.shift } .NORMAL written,
        (ui.key_queue.keys.head?.map Event.dropped).toList)

/-- `WaitKey` from the end of its inner loop to its next wait or its end. -/
def WaitKey (ui : RecoveryUI) (timedOut written usb : Bool) : Option (RecoveryUI × List Event) :=
  if ui.key_queue.keys = [] ∧ !timedOut then none
  else
    let (ui, es) := screensaver ui timedOut written
    match ui.key_queue.keys with
    | [] => if usb then some (ui, es) else some (ui, es ++ [.returned none])
    | key :: _ => some ({ ui with key_queue := ui.key_queue.shift }, es ++ [.returned (some key)])

inductive Action where
  | key (key_code : Key) (updown : Int)
  | input
  | timer (key_code : Key) (count : Nat)
  | wait (timedOut written usb : Bool)
  | flush
  | setEnableReboot (enabled : Bool)
  /-- A call of `ShowText` by another thread. -/
  | showText (visible : Bool)

def step (d : Device) (ui : RecoveryUI) : Action → Option (RecoveryUI × List Event)
  | .key key_code updown =>
    match ui.pc with
    | .idle => some (ProcessKey ui key_code updown)
    | _ => none
  | .input => CheckKey d ui
  | .timer key_code count => time_key ui key_code count
  | .wait timedOut written usb => WaitKey ui timedOut written usb
  | .flush => some ({ ui with key_queue := .empty }, [.flushed ui.key_queue.keys])
  | .setEnableReboot enabled => some ({ ui with enable_reboot := enabled }, [])
  | .showText visible => some ({ ui with show_text := visible }, [])

/-! ## What a step leaves alone -/

variable {d : Device} {ui ui' : RecoveryUI} {es : List Event}

/-- The keys that the key in flight may still put into the queue. -/
def Pc.MayEnqueue : Pc → Key → Prop
  | .check key long_press _, x => x = key ∨ long_press = true ∧ x = KEY_ENTER
  | .hidden key _, x => x = key ∨ x = KEY_ENTER
  | .shown key _, x => x = key ∨ x = KEY_ENTER
  | .chord key _, x => x = key
  | .power key _, x => x = key
  | .visible key, x => x = key
  | .screensaver key, x => x = key
  | .enqueue key, x => x = key
  | _, _ => False

/-- What a step does for the count of power keys. -/
inductive PowerStep (ui ui' : RecoveryUI) : List Event → Prop where
  | none : ui'.consecutive_power_keys = ui.consecutive_power_keys →
      (∀ r, ui'.pc = .reboot r → ui.pc = .reboot r) → PowerStep ui ui' []
  | other : ui'.consecutive_power_keys = 0 → (∀ r, ui'.pc ≠ .reboot r) → PowerStep ui ui' [.other]
  | power : ui.enable_reboot = true →
      ui'.consecutive_power_keys = ui.consecutive_power_keys + 1 →
      (∀ r, ui'.pc = .reboot r → 7 ≤ ui'.consecutive_power_keys) → PowerStep ui ui' [.power]
  | reboot : ui.pc = .reboot true → ui'.consecutive_power_keys = ui.consecutive_power_keys →
      (∀ r, ui'.pc ≠ .reboot r) → PowerStep ui ui' [.reboot]

/-- A step of the input thread outside `EnqueueKey`. -/
theorem CheckKey_quiet (h : CheckKey d ui = some (ui', es)) (hpc : ∀ key, ui.pc ≠ .enqueue key) :
    ui.pc ≠ .idle ∧ ui'.key_queue = ui.key_queue ∧ ui'.key_last_down = ui.key_last_down ∧
      ui'.key_down_count = ui.key_down_count ∧ ui'.enable_reboot = ui.enable_reboot ∧
      PowerStep ui ui' es ∧ ∀ x, ui'.pc.MayEnqueue x → ui.pc.MayEnqueue x := by
  unfold CheckKey at h
  cases hc : ui.pc <;> simp only [hc] at h
  case enqueue key => exact absurd hc (hpc key)
  all_goals
    try split_ifs at h
    all_goals
      simp only [Option.some.injEq, Prod.mk.injEq, reduceCtorEq] at h
    all_goals
      obtain ⟨rfl, rfl⟩ := h
      refine ⟨by simp, rfl, rfl, rfl, rfl, ?_, ?_⟩
    all_goals
      first
      | exact .none rfl (by simp)
      | exact .other rfl (by simp)
      | exact .power ‹_› rfl (by simp_all)
      | exact .reboot (by simp_all) rfl (by simp)
      | simp_all [Pc.MayEnqueue]

/-- A press, the release of the key pressed last, and any other release. -/
theorem ProcessKey_cases {k : Key} {updown : Int}
    (h : step d ui (.key k updown) = some (ui', es)) :
    ui.pc = .idle ∧ ∃ pressed,
      ((updown ≠ 0 ∧ es = [] ∧ ui' =
          { ui with
            key_pressed := pressed
            key_down_count := ui.key_down_count + 1
            key_last_down := some k
            key_long_press := false
            timers := ui.timers ++ [(k, ui.key_down_count + 1)] }) ∨
        (updown = 0 ∧ ui.key_last_down = some k ∧ es = [.registered k ui.key_long_press] ∧ ui' =
          { ui with
            key_pressed := pressed
            key_last_down := none
            pc := .check k ui.key_long_press ui.enable_reboot }) ∨
        (updown = 0 ∧ ui.key_last_down ≠ some k ∧ es = [] ∧
          ui' = { ui with key_pressed := pressed, key_last_down := none })) := by
  simp only [step] at h
  split at h
  case h_2 => cases h
  rename_i hidle
  unfold ProcessKey at h
  simp only [Option.some.injEq] at h
  refine ⟨hidle, Function.update ui.key_pressed k (updown.bmod 256), ?_⟩
  split_ifs at h with hup hdown
  · obtain ⟨rfl, rfl⟩ := Prod.mk.inj h
    exact .inl ⟨hup, rfl, rfl⟩
  · obtain ⟨rfl, rfl⟩ := Prod.mk.inj h
    exact .inr (.inl ⟨not_not.mp hup, hdown, rfl, rfl⟩)
  · obtain ⟨rfl, rfl⟩ := Prod.mk.inj h
    exact .inr (.inr ⟨not_not.mp hup, hdown, rfl, rfl⟩)

theorem CheckKey_enqueue {key : Key} (h : CheckKey d ui = some (ui', es))
    (hpc : ui.pc = .enqueue key) : (ui', es) = EnqueueKey { ui with pc := .idle } key := by
  unfold CheckKey at h
  rw [hpc] at h
  exact (Option.some.inj h).symm

/-- Either the key enters the queue, or the queue is full. -/
theorem EnqueueKey_cases {key : Key} (h : (ui', es) = EnqueueKey ui key) :
    (∃ q, ui' = { ui with key_queue := q } ∧ q.keys = ui.key_queue.keys ++ [key] ∧
      es = [.accepted key]) ∨
    (ui' = ui ∧ ui.key_queue.keys.length = queue_max ∧ es = [.rejected key]) := by
  unfold EnqueueKey KeyQueue.push at h
  split at h
  · rename_i q hq
    split_ifs at hq
    cases hq
    obtain ⟨rfl, rfl⟩ := Prod.mk.inj h
    exact .inl ⟨_, rfl, rfl, rfl⟩
  · rename_i hq
    split_ifs at hq with hlt
    obtain ⟨rfl, rfl⟩ := Prod.mk.inj h
    exact .inr ⟨rfl, le_antisymm (KeyQueue.bounded _) (not_lt.mp hlt), rfl⟩

theorem time_key_cases {key : Key} {count : Nat} (h : time_key ui key count = some (ui', es)) :
    ∃ ts, (ui.key_last_down = some key ∧ ui.key_down_count = count ∧
        ui' = { ui with timers := ts, key_long_press := true } ∧ es = [.longPress key]) ∨
      (¬ (ui.key_last_down = some key ∧ ui.key_down_count = count) ∧
        ui' = { ui with timers := ts } ∧ es = []) := by
  refine ⟨ui.timers.erase (key, count), ?_⟩
  simp only [time_key] at h
  split_ifs at h with hmem hdown
  · obtain ⟨rfl, rfl⟩ := Prod.mk.inj (Option.some.inj h)
    exact .inl ⟨hdown.1, hdown.2, rfl, rfl⟩
  · obtain ⟨rfl, rfl⟩ := Prod.mk.inj (Option.some.inj h)
    exact .inr ⟨hdown, rfl, rfl⟩

theorem screensaver_frame (ui : RecoveryUI) (timedOut written : Bool) :
    ∃ q st, (screensaver ui timedOut written).1 =
      { ui with key_queue := q, screensaver_state_ := st } := by
  unfold screensaver
  split <;> (try split_ifs) <;> exact ⟨_, _, rfl⟩

theorem WaitKey_cases {timedOut written usb : Bool}
    (h : WaitKey ui timedOut written usb = some (ui', es)) :
    ∃ r, screensaver ui timedOut written = r ∧
      ((r.1.key_queue.keys = [] ∧ ui' = r.1 ∧ (es = r.2 ∨ es = r.2 ++ [.returned none])) ∨
        ∃ key rest, r.1.key_queue.keys = key :: rest ∧
          ui' = { r.1 with key_queue := r.1.key_queue.shift } ∧
          es = r.2 ++ [.returned (some key)]) := by
  refine ⟨_, rfl, ?_⟩
  simp only [WaitKey] at h
  split at h
  · cases h
  split at h
  · rename_i hnil
    split at h <;> cases h
    · exact .inl ⟨hnil, rfl, .inl rfl⟩
    · exact .inl ⟨hnil, rfl, .inr rfl⟩
  · rename_i key rest hcons
    cases h
    exact .inr ⟨key, rest, hcons, rfl, rfl⟩

theorem WaitKey_frame {timedOut written usb : Bool}
    (h : WaitKey ui timedOut written usb = some (ui', es)) :
    ∃ q st, ui' = { ui with key_queue := q, screensaver_state_ := st } := by
  obtain ⟨q, st, hs⟩ := screensaver_frame ui timedOut written
  obtain ⟨r, rfl, ⟨-, rfl, -⟩ | ⟨key, rest, -, rfl, -⟩⟩ := WaitKey_cases h
  · exact ⟨q, st, hs⟩
  · exact ⟨_, st, by rw [hs]⟩

/-! ## When a key is registered -/

/-- A call of `ProcessKey`. -/
def Action.IsKey : Action → Prop
  | .key _ _ => True
  | _ => False

theorem Action.isKey_key (k : Key) (updown : Int) : (Action.key k updown).IsKey := trivial

def Action.isPress : Action → Bool
  | .key _ updown => updown ≠ 0
  | _ => false

def presses (as : List Action) : Nat := as.countP Action.isPress

theorem presses_snoc (as : List Action) (a : Action) :
    presses (as ++ [a]) = presses as + if a.isPress then 1 else 0 := by
  simp [presses, List.countP_cons]

/-- The last call of `ProcessKey` in `as` was the press of `k` after `before`. -/
def Pressed (as before : List Action) (k : Key) (between : List Action) : Prop :=
  ∃ updown, updown ≠ 0 ∧ as = before ++ .key k updown :: between ∧ ∀ a ∈ between, ¬ a.IsKey

theorem Pressed.unique {as b b' m m' : List Action} {k k' : Key} (h : Pressed as b k m)
    (h' : Pressed as b' k' m') : b = b' ∧ k = k' ∧ m = m' := by
  obtain ⟨u, -, rfl, hm⟩ := h
  obtain ⟨u', -, heq, hm'⟩ := h'
  obtain ⟨rfl, hk, rfl⟩ := Lib.last_unique (Action.isKey_key k u) (Action.isKey_key k' u')
    hm hm' heq
  simp only [Action.key.injEq] at hk
  exact ⟨rfl, hk.1, rfl⟩

theorem Pressed.snoc {as before between : List Action} {k : Key} {a : Action} (ha : ¬ a.IsKey)
    (h : Pressed as before k between) : Pressed (as ++ [a]) before k (between ++ [a]) := by
  obtain ⟨u, hu, rfl, hm⟩ := h
  refine ⟨u, hu, by simp, ?_⟩
  intro x hx
  rcases List.mem_append.mp hx with hx | hx
  · exact hm x hx
  · rwa [List.mem_singleton.mp hx]

theorem Pressed.of_snoc {as before between : List Action} {k : Key} {a : Action}
    (ha : ¬ a.IsKey) (h : Pressed (as ++ [a]) before k between) :
    ∃ m, between = m ++ [a] ∧ Pressed as before k m := by
  obtain ⟨u, hu, heq, hm⟩ := h
  rcases List.eq_nil_or_concat between with rfl | ⟨m, x, rfl⟩
  · obtain ⟨-, hx⟩ := List.append_inj' heq rfl
    simp only [List.cons.injEq, and_true] at hx
    exact absurd (hx ▸ Action.isKey_key k u) ha
  · rw [List.concat_eq_append, ← List.cons_append, ← List.append_assoc] at heq
    obtain ⟨rfl, hx⟩ := List.append_inj' heq rfl
    simp only [List.cons.injEq, and_true] at hx
    subst hx
    exact ⟨m, by simp, u, hu, rfl, fun y hy => hm y (by simp [hy])⟩

theorem pressed_snoc_key {as before between : List Action} {k k' : Key} {updown : Int} :
    Pressed (as ++ [.key k updown]) before k' between ↔
      updown ≠ 0 ∧ before = as ∧ k' = k ∧ between = [] := by
  constructor
  · rintro ⟨u, hu, heq, hm⟩
    obtain ⟨rfl, hk, rfl⟩ := Lib.last_unique (Action.isKey_key k updown) (Action.isKey_key k' u)
      (by simp) hm heq
    simp only [Action.key.injEq] at hk
    obtain ⟨rfl, rfl⟩ := hk
    exact ⟨hu, rfl, rfl, rfl⟩
  · rintro ⟨hu, rfl, rfl, rfl⟩
    exact ⟨updown, hu, rfl, by simp⟩

theorem pressed_snoc_other {as before between : List Action} {k : Key} {a : Action}
    (ha : ¬ a.IsKey) :
    Pressed (as ++ [a]) before k between ↔ ∃ m, between = m ++ [a] ∧ Pressed as before k m := by
  constructor
  · exact Pressed.of_snoc ha
  · rintro ⟨m, rfl, h⟩
    exact h.snoc ha

theorem exists_pressed_snoc {as : List Action} {k : Key} {a : Action} (ha : ¬ a.IsKey) :
    (∃ before between, Pressed (as ++ [a]) before k between) ↔
      ∃ before between, Pressed as before k between := by
  constructor
  · rintro ⟨before, between, hp⟩
    obtain ⟨m, -, hp⟩ := hp.of_snoc ha
    exact ⟨before, m, hp⟩
  · rintro ⟨before, between, hp⟩
    exact ⟨before, _, hp.snoc ha⟩

theorem presses_eq_zero {as : List Action} (h : ∀ a ∈ as, ¬ a.IsKey) : presses as = 0 := by
  refine List.countP_eq_zero.mpr fun a ha hp => h a ha ?_
  cases a
  case key => trivial
  all_goals exact absurd hp (by simp [Action.isPress])

theorem Pressed.presses_eq {as before between : List Action} {k : Key}
    (h : Pressed as before k between) : presses as = presses before + 1 := by
  obtain ⟨u, hu, rfl, hm⟩ := h
  have h0 := presses_eq_zero hm
  unfold presses at *
  rw [List.countP_append, List.countP_cons_of_pos (by simpa [Action.isPress] using hu), h0]

/-- What `RecoveryUI` remembers of the calls of `ProcessKey` so far. -/
structure Heard (as : List Action) (ui : RecoveryUI) : Prop where
  count : ui.key_down_count = presses as
  down : ∀ k, ui.key_last_down = some k ↔ ∃ before between, Pressed as before k between
  idle : ∀ k, ui.key_last_down = some k → ui.pc = .idle
  long : ∀ before k between, Pressed as before k between →
    (ui.key_long_press = true ↔ .timer k (presses before + 1) ∈ between)

theorem Heard.init (screensaver : ScreensaverState) (show_text : Bool) :
    Heard [] (.new screensaver show_text) := by
  have hnot : ∀ before k between, ¬ Pressed [] before k between := by
    rintro before k between ⟨u, -, h, -⟩
    simp at h
  refine ⟨rfl, fun k => ⟨fun h => (by cases h), ?_⟩, fun k h => (by cases h), ?_⟩
  · rintro ⟨before, between, h⟩
    exact absurd h (hnot _ _ _)
  · intro before k between h
    exact absurd h (hnot _ _ _)

theorem Heard.key {as : List Action} {k : Key} {updown : Int} (hi : Heard as ui)
    (h : step d ui (.key k updown) = some (ui', es)) : Heard (as ++ [.key k updown]) ui' := by
  have hcount : presses (as ++ [.key k updown]) = presses as + if updown ≠ 0 then 1 else 0 := by
    simp [presses_snoc, Action.isPress]
  obtain ⟨hidle, pressed, ⟨hup, -, rfl⟩ | ⟨hup, -, -, rfl⟩ | ⟨hup, -, -, rfl⟩⟩ :=
    ProcessKey_cases h
  · refine ⟨by simp [hcount, hup, hi.count], fun k' => ?_, fun _ _ => hidle, ?_⟩
    · simp [pressed_snoc_key, hup, eq_comm]
    · intro before k' between hp
      obtain ⟨-, -, -, rfl⟩ := pressed_snoc_key.mp hp
      simp
  all_goals
    refine ⟨?_, fun k' => ?_, fun _ h => (by cases h), ?_⟩
    · rw [hcount, if_neg (not_not.mpr hup), Nat.add_zero]
      exact hi.count
    · simp [pressed_snoc_key, hup]
    · simp [pressed_snoc_key, hup]

theorem Heard.timer {as : List Action} {k : Key} {count : Nat} (hi : Heard as ui)
    (h : step d ui (.timer k count) = some (ui', es)) : Heard (as ++ [.timer k count]) ui' := by
  have ha : ¬ (Action.timer k count).IsKey := fun h => h
  have hcount : presses (as ++ [.timer k count]) = presses as := by
    simp [presses_snoc, Action.isPress]
  obtain ⟨ts, ⟨hk, hc, rfl, -⟩ | ⟨hne, rfl, -⟩⟩ := time_key_cases h
  · -- The timer of the last press: no other key can be down.
    refine ⟨hcount ▸ hi.count, fun k' => (hi.down k').trans (exists_pressed_snoc ha).symm,
      hi.idle, ?_⟩
    intro before k' between hp
    obtain ⟨m, rfl, hm⟩ := (pressed_snoc_other ha).mp hp
    have hk' := (hi.down k').mpr ⟨before, m, hm⟩
    obtain rfl : k = k' := Option.some.inj (hk.symm.trans hk')
    have hcnt : presses before + 1 = count := by rw [← hm.presses_eq, ← hi.count, hc]
    simp [hcnt]
  · refine ⟨hcount ▸ hi.count, fun k' => (hi.down k').trans (exists_pressed_snoc ha).symm,
      hi.idle, ?_⟩
    intro before k' between hp
    obtain ⟨m, rfl, hm⟩ := (pressed_snoc_other ha).mp hp
    have hk' := (hi.down k').mpr ⟨before, m, hm⟩
    have hcnt : ui.key_down_count = presses before + 1 := by rw [hi.count, hm.presses_eq]
    have hother : Action.timer k' (presses before + 1) ≠ .timer k count := by
      rintro ⟨⟩
      exact hne ⟨hk', hcnt⟩
    rw [List.mem_append, List.mem_singleton, or_iff_left hother]
    exact hi.long before k' m hm

/-- The steps that are neither a call of `ProcessKey` nor a timer. -/
theorem step_frame {a : Action} (ha : ¬ a.IsKey) (ht : ∀ k count, a ≠ .timer k count)
    (h : step d ui a = some (ui', es)) :
    ui'.key_last_down = ui.key_last_down ∧ ui'.key_down_count = ui.key_down_count ∧
      (ui.pc = .idle → ui'.pc = .idle ∧ ui'.key_long_press = ui.key_long_press) := by
  cases a with
  | key k u => exact absurd trivial ha
  | timer k count => exact absurd rfl (ht k count)
  | input =>
    by_cases hpc : ∃ key, ui.pc = .enqueue key
    · obtain ⟨key, hpc⟩ := hpc
      rcases EnqueueKey_cases (CheckKey_enqueue h hpc) with ⟨q, rfl, -⟩ | ⟨rfl, -⟩ <;>
        simp [hpc]
    · obtain ⟨hbusy, -, h1, h2, -⟩ := CheckKey_quiet h (not_exists.mp hpc)
      exact ⟨h1, h2, fun hidle => absurd hidle hbusy⟩
  | wait timedOut written usb =>
    obtain ⟨q, st, rfl⟩ := WaitKey_frame h
    exact ⟨rfl, rfl, fun h => ⟨h, rfl⟩⟩
  | flush | setEnableReboot | showText =>
    cases h
    exact ⟨rfl, rfl, fun h => ⟨h, rfl⟩⟩

theorem Heard.other {as : List Action} {a : Action} (ha : ¬ a.IsKey)
    (ht : ∀ k count, a ≠ .timer k count) (hi : Heard as ui)
    (h : step d ui a = some (ui', es)) : Heard (as ++ [a]) ui' := by
  obtain ⟨h1, h2, h3⟩ := step_frame ha ht h
  have hcount : presses (as ++ [a]) = presses as := by
    unfold presses
    rw [List.countP_append]
    exact congrArg (presses as + ·) (presses_eq_zero (by simpa using ha))
  refine ⟨by rw [h2, hcount, hi.count], fun k => ?_, fun k hk => ?_, ?_⟩
  · rw [h1, hi.down k, exists_pressed_snoc ha]
  · exact (h3 (hi.idle k (h1 ▸ hk))).1
  · intro before k between hp
    obtain ⟨m, rfl, hm⟩ := (pressed_snoc_other ha).mp hp
    have hk := (hi.down k).mpr ⟨before, m, hm⟩
    rw [(h3 (hi.idle k hk)).2, hi.long before k m hm, List.mem_append, List.mem_singleton,
      or_iff_left (Ne.symm (ht _ _))]

variable {sv : ScreensaverState} {vis : Bool}

theorem runs_heard {as : List Action}
    (h : runs (step d) (.new sv vis) as = some (ui, es)) : Heard as ui := by
  refine runs_invariant (I := fun as _ ui => Heard as ui) (Heard.init _ _) ?_ h
  intro as _ ui a ui' es' hi hstep
  cases a with
  | key k updown => exact hi.key hstep
  | timer k count => exact hi.timer hstep
  | input | wait | flush | setEnableReboot | showText =>
    exact hi.other (fun h => h) (fun _ _ h => (by cases h)) hstep

/-- **A key is registered** when it is released, no key having been pressed or released since it
was pressed; the press is a long one when its own timer has run since then. -/
theorem registered_iff {as : List Action} (h : runs (step d) (.new sv vis) as = some (ui, es))
    {k : Key} {updown : Int} {es' : List Event}
    (hk : step d ui (.key k updown) = some (ui', es')) (long_press : Bool) :
    .registered k long_press ∈ es' ↔ updown = 0 ∧ ∃ before between, Pressed as before k between ∧
      (long_press = true ↔ .timer k (presses before + 1) ∈ between) := by
  have hi := runs_heard h
  obtain ⟨-, pressed, ⟨hup, rfl, -⟩ | ⟨hup, hdown, rfl, -⟩ | ⟨hup, hdown, rfl, -⟩⟩ :=
    ProcessKey_cases hk
  · simp [hup]
  · obtain ⟨before, between, hp⟩ := (hi.down k).mp hdown
    have hlong := hi.long before k between hp
    constructor
    · intro hmem
      simp only [List.mem_singleton, Event.registered.injEq, true_and] at hmem
      exact ⟨hup, before, between, hp, hmem ▸ hlong⟩
    · rintro ⟨-, before', between', hp', hlong'⟩
      obtain ⟨rfl, -, rfl⟩ := hp.unique hp'
      simp only [List.mem_singleton, Event.registered.injEq, true_and]
      exact Bool.eq_iff_iff.mpr (hlong'.trans hlong.symm)
  · simp only [List.not_mem_nil, false_iff]
    rintro ⟨-, before, between, hp, -⟩
    exact hdown ((hi.down k).mpr ⟨before, between, hp⟩)

/-- A phone with three buttons. -/
def phone : Device := ⟨true, true, true, false, false⟩

theorem registered_iff_long :
    ∃ before between, Pressed [.key 30 1, .timer 30 1] before 30 between ∧
      (true = true ↔ .timer 30 (presses before + 1) ∈ between) :=
  have h : runs (step phone) (.new .NORMAL true) [.key 30 1, .timer 30 1] =
      some (_, [.longPress 30]) := rfl
  have hk : step phone _ (.key 30 0) = some (_, [.registered 30 true]) := rfl
  ((registered_iff h hk true).mp (List.mem_singleton_self _)).2

end Recovery.Ui
