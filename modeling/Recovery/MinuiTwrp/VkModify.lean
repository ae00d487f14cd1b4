import Mathlib.Algebra.Ring.Int.Defs
import Mathlib.Data.List.Induction

/-!
# Events of a touchscreen (`minuitwrp/events.cpp`)

* `Device` — `struct ev`, and how the recovery was built; `Driver` — with the static variables.
* `vk_modify` — what is done with an event of the kernel; `Lifts` — it is taken for a lift.
* `Output`, `classify` — what the other code sees of the events that are let through.
* `Bracketed` — touches with their release, and virtual keys with theirs.
* `Gesture`, `Tracks` — what the static variables know of the gesture; `step_tracks`, `run_tracks`.
* `bracketed_iff` — over runs; `second_report_releases` — a run that is not well-bracketed.

Multi-touch events of both kernel protocols come in, with tracking ids and without.
-/

set_option autoImplicit false

namespace Recovery.MinuiTwrp

/-- `struct input_event`, without its time. -/
structure InputEvent where
  type : Nat
  code : Nat
  value : Int
deriving DecidableEq

def EV_SYN : Nat := 0x00
def EV_KEY : Nat := 0x01
def EV_REL : Nat := 0x02
def EV_ABS : Nat := 0x03
def SYN_REPORT : Nat := 0x00
def SYN_MT_REPORT : Nat := 0x02
def REL_Z : Nat := 0x02
def ABS_X : Nat := 0x00
def ABS_Y : Nat := 0x01
def ABS_MT_POSITION : Nat := 0x2a
def ABS_MT_TOUCH_MAJOR : Nat := 0x30
def ABS_MT_TOUCH_MINOR : Nat := 0x31
def ABS_MT_WIDTH_MAJOR : Nat := 0x32
def ABS_MT_WIDTH_MINOR : Nat := 0x33
def ABS_MT_POSITION_X : Nat := 0x35
def ABS_MT_POSITION_Y : Nat := 0x36
def ABS_MT_TRACKING_ID : Nat := 0x39
def ABS_MT_PRESSURE : Nat := 0x3a

structure VirtualKey where
  scancode : Int
  centerx : Int
  centery : Int
  width : Int
  height : Int

/-- `struct input_absinfo`. -/
structure AbsInfo where
  minimum : Int
  maximum : Int

structure Position where
  x : Int
  y : Int
  synced : Nat

/-- What does not change: the device, the screen, and how the recovery was built. -/
structure Device where
  vks : List VirtualKey
  /-- Of `p`. -/
  xi : AbsInfo
  yi : AbsInfo
  /-- Of `mt_p`. -/
  mt_xi : AbsInfo
  mt_yi : AbsInfo
  fb_width : Int
  fb_height : Int
  TW_IGNORE_MT_POSITION_0 : Bool
  TW_IGNORE_MAJOR_AXIS_0 : Bool
  TW_IGNORE_ABS_MT_TRACKING_ID : Bool
  RECOVERY_TOUCHSCREEN_SWAP_XY : Bool
  RECOVERY_TOUCHSCREEN_FLIP_X : Bool
  RECOVERY_TOUCHSCREEN_FLIP_Y : Bool

structure Driver where
  ignored : Bool
  p : Position
  mt_p : Position
  downX : Int
  downY : Int
  discard : Bool
  last_virt_key : Int
  lastWasSynReport : Bool
  touchReleaseOnNextSynReport : Nat
  use_tracking_id_negative_as_touch_release : Bool

/-- When the program starts. -/
def Driver.start : Driver where
  ignored := false
  p := ⟨0, 0, 0⟩
  mt_p := ⟨0, 0, 0⟩
  downX := -1
  downY := -1
  discard := false
  last_virt_key := 0
  lastWasSynReport := false
  touchReleaseOnNextSynReport := 0
  use_tracking_id_negative_as_touch_release := false

def vk_tp_to_screen (d : Device) (xi yi : AbsInfo) (p : Position) : Int × Int :=
  if xi.minimum = xi.maximum ∨ yi.minimum = yi.maximum then (p.x, p.y)
  else
    let fb_width := if d.RECOVERY_TOUCHSCREEN_SWAP_XY then d.fb_height else d.fb_width
    let fb_height := if d.RECOVERY_TOUCHSCREEN_SWAP_XY then d.fb_width else d.fb_height
    (((p.x - xi.minimum) * (fb_width - 1)).tdiv (xi.maximum - xi.minimum),
      ((p.y - yi.minimum) * (fb_height - 1)).tdiv (yi.maximum - yi.minimum))

/-- A key as the `__u16` of an event. -/
def keyCode (key : Int) : Nat := (BitVec.ofInt 16 key).toNat

/-- `(x << 16) | y`. -/
def pack (x y : Int) : Int := ((BitVec.ofInt 32 x <<< 16) ||| BitVec.ofInt 32 y).toInt

namespace Driver

variable (d : Device) (s : Driver)

/-- The finger is up. -/
def lift : Driver := { s with mt_p := { s.mt_p with x := 0, y := 0 } }

/-- The `switch` for `EV_ABS`; without a result, the event is skipped at once. -/
def absEvent (ev : InputEvent) : Option Driver :=
  if ev.code = ABS_X then
    some { s with p := { s.p with synced := s.p.synced ||| 1, x := ev.value } }
  else if ev.code = ABS_Y then
    some { s with p := { s.p with synced := s.p.synced ||| 2, y := ev.value } }
  else if ev.code = ABS_MT_POSITION then
    let s := { s with mt_p := { s.mt_p with synced := 3 } }
    if ev.value = -2 ^ 31 then
      if d.TW_IGNORE_MT_POSITION_0 then some s else some { s.lift with lastWasSynReport := true }
    else
      let value := BitVec.ofInt 32 ev.value
      some { s with
        lastWasSynReport := false
        mt_p := ⟨((value &&& 0x7FFF0000#32) >>> 16).toNat, (value &&& 0xFFFF#32).toNat, 3⟩ }
  else if ev.code = ABS_MT_TOUCH_MAJOR then
    if ev.value = 0 ∧ !d.TW_IGNORE_MAJOR_AXIS_0 then
      some { s.lift with touchReleaseOnNextSynReport := 1 }
    else some s
  else if ev.code = ABS_MT_PRESSURE then
    if ev.value = 0 then some { s.lift with touchReleaseOnNextSynReport := 1 } else some s
  else if ev.code = ABS_MT_POSITION_X then
    some { s with mt_p := { s.mt_p with synced := s.mt_p.synced ||| 1, x := ev.value } }
  else if ev.code = ABS_MT_POSITION_Y then
    some { s with mt_p := { s.mt_p with synced := s.mt_p.synced ||| 2, y := ev.value } }
  else if ev.code = ABS_MT_TOUCH_MINOR ∨ ev.code = ABS_MT_WIDTH_MAJOR ∨
      ev.code = ABS_MT_WIDTH_MINOR then
    some s
  else if ev.code = ABS_MT_TRACKING_ID then
    if d.TW_IGNORE_ABS_MT_TRACKING_ID then none
    else if ev.value < 0 then
      some { s.lift with
        touchReleaseOnNextSynReport := 2
        use_tracking_id_negative_as_touch_release := true }
    else some s
  else none

/-- A report is taken for the end of a touch. -/
def LiftsNow : Prop :=
  ((s.lastWasSynReport = true ∨ s.touchReleaseOnNextSynReport = 1) ∧
      s.use_tracking_id_negative_as_touch_release = false) ∨
    (s.use_tracking_id_negative_as_touch_release = true ∧ s.touchReleaseOnNextSynReport = 2)

instance : Decidable s.LiftsNow := inferInstanceAs (Decidable (_ ∨ _))

/-- "We are a finger-up state". -/
def release (ev : InputEvent) : Bool × InputEvent × Driver :=
  let s := { s with touchReleaseOnNextSynReport := 0 }
  let ev := if !s.discard then ⟨EV_ABS, 0, pack s.downX s.downY⟩ else ev
  let s := { s with downX := -1, downY := -1 }
  if s.discard then (false, ⟨EV_KEY, keyCode s.last_virt_key, 0⟩, { s with discard := false })
  else (false, ev, s)

/-- The position of a report, with what the recovery was built for. -/
def orient (x y : Int) : Int × Int :=
  let (x, y) := if d.RECOVERY_TOUCHSCREEN_SWAP_XY then (y, x) else (x, y)
  (if d.RECOVERY_TOUCHSCREEN_FLIP_X then d.fb_width - x else x,
    if d.RECOVERY_TOUCHSCREEN_FLIP_Y then d.fb_height - y else y)

/-- The first touch, at a virtual key. -/
def virtualKey (x y : Int) : Option VirtualKey :=
  d.vks.find? fun vk =>
    (vk.centerx - x).natAbs < vk.width.tdiv 2 ∧ (vk.centery - y).natAbs < vk.height.tdiv 2

/-- A touch at a position of the screen. -/
def touch (ev : InputEvent) (x y : Int) : Bool × InputEvent × Driver :=
  -- nothing useful to report, and extra data after the last sync
  if x = -1 ∨ y = -1 then (true, ev, s)
  else if x = 0 ∧ y = 0 then (true, ev, s)
  else
    match if s.downX = -1 then virtualKey d x y else none with
    | some vk =>
      (false, ⟨EV_KEY, keyCode vk.scancode, 1⟩,
        { s with last_virt_key := vk.scancode, discard := true, downX := 0 })
    | none =>
      if s.discard then (true, ev, s)
      else (false, ⟨EV_ABS, 1, pack x y⟩, { s with downX := x, downY := y })

/-- A report, or a position that is one. -/
def report (ev : InputEvent) : Bool × InputEvent × Driver :=
  if s.LiftsNow then s.release ev
  else
    let s := { s with lastWasSynReport := true }
    if s.p.synced &&& 3 ≠ 0 ∨ s.mt_p.synced &&& 3 ≠ 0 then
      let (x, y) := if s.p.synced &&& 3 ≠ 0 then vk_tp_to_screen d d.xi d.yi s.p
        else vk_tp_to_screen d d.mt_xi d.mt_yi s.mt_p
      let (x, y) := orient d x y
      let s := { s with p := { s.p with synced := 0 }, mt_p := { s.mt_p with synced := 0 } }
      s.touch d ev x y
    else (true, ev, s)

/-- What is behind the `switch`. -/
def afterSwitch (ev : InputEvent) : Bool × InputEvent × Driver :=
  if ev.code ≠ ABS_MT_POSITION ∧
      (ev.type ≠ EV_SYN ∨ (ev.code ≠ SYN_REPORT ∧ ev.code ≠ SYN_MT_REPORT)) then
    (false, ev, { s with lastWasSynReport := false })
  else if ev.code = SYN_MT_REPORT then (false, ev, s)
  else s.report d ev

/-- Whether the event is consumed, and what it is otherwise. -/
def vk_modify (ev : InputEvent) : Bool × InputEvent × Driver :=
  if s.ignored then (true, ev, s)
  else if ev.type = EV_REL ∧ ev.code = REL_Z then (true, ev, { s with ignored := true })
  else if ev.type = EV_KEY then (false, ev, s)
  else if ev.type = EV_ABS then
    match s.absEvent d ev with
    | none => (true, ev, s)
    | some s =>
      if ev.code ≠ ABS_MT_POSITION then (true, ev, { s with lastWasSynReport := false })
      else s.afterSwitch d ev
  else s.afterSwitch d ev

/-- The state in which an event comes to be a report. -/
def reaches (ev : InputEvent) : Option Driver :=
  if s.ignored ∨ (ev.type = EV_REL ∧ ev.code = REL_Z) ∨ ev.type = EV_KEY then none
  else if ev.type = EV_ABS then
    if ev.code = ABS_MT_POSITION then s.absEvent d ev else none
  else if ev.code = ABS_MT_POSITION ∨ (ev.type = EV_SYN ∧ ev.code = SYN_REPORT) then some s
  else none

/-- The event is taken for the end of a touch. -/
def Lifts (ev : InputEvent) : Prop := ∃ r ∈ s.reaches d ev, r.LiftsNow

/-- A finger is down, on the screen or on a virtual key. -/
def InGesture : Prop := s.downX ≠ -1

/-- What is known of the finger. -/
def finger : Int × Int × Bool × Int := (s.downX, s.downY, s.discard, s.last_virt_key)

end Driver

/-! ### What is let through -/

/-- What the other code sees of a touchscreen. -/
inductive Output where
  | touch (value : Int)
  | release (value : Int)
  | press (code : Nat)
  | unpress (code : Nat)
deriving DecidableEq

/-- An event of the kernel with what became of it; the keys of the device itself and its other
events are not part of a gesture. -/
def classify (ev : InputEvent) : Bool × InputEvent × Driver → Option Output
  | (consumed, out, _) =>
    if consumed then none
    else if out.type = EV_ABS ∧ out.code = 1 then some (.touch out.value)
    else if out.type = EV_ABS ∧ out.code = 0 then some (.release out.value)
    else if ev.type ≠ EV_KEY ∧ out.type = EV_KEY then
      some (if out.value = 1 then .press out.code else .unpress out.code)
    else none

/-- The state after some events. -/
def after (d : Device) (s : Driver) : List InputEvent → Driver
  | [] => s
  | ev :: evs => after d (s.vk_modify d ev).2.2 evs

/-- What is let through of them. -/
def outputs (d : Device) (s : Driver) : List InputEvent → List Output
  | [] => []
  | ev :: evs =>
    (classify ev (s.vk_modify d ev)).toList ++ outputs d (s.vk_modify d ev).2.2 evs

/-- Touches with their release, and virtual keys with theirs. -/
structure Bracketed (os : List Output) : Prop where
  /-- Before a release is a touch, at the same position. -/
  release : ∀ pre v post, os = pre ++ .release v :: post → ∃ a, pre = a ++ [.touch v]
  /-- After a press is the release of that key. -/
  press : ∀ pre k post, os = pre ++ .press k :: post → post = [] ∨ ∃ b, post = .unpress k :: b
  unpress : ∀ pre k post, os = pre ++ .unpress k :: post → ∃ a, pre = a ++ [.press k]
  /-- A finger on the screen is not at the same time on a virtual key. -/
  touch : ∀ pre v post, os = pre ++ .touch v :: post →
    post = [] ∨ ∃ o b, post = o :: b ∧ ((∃ w, o = .touch w) ∨ o = .release v)

/-! ### What the static variables know -/

/-- What has been let through and is not over. -/
inductive Gesture where
  | idle
  | touching (value : Int)
  | key (code : Nat)

def Gesture.next : Gesture → Output → Option Gesture
  | .idle, .touch v => some (.touching v)
  | .idle, .press k => some (.key k)
  | .touching _, .touch v => some (.touching v)
  | .touching v, .release w => if v = w then some .idle else none
  | .key k, .unpress l => if k = l then some .idle else none
  | _, _ => none

def Driver.Tracks (s : Driver) : Gesture → Prop
  | .idle => s.downX = -1 ∧ s.discard = false
  | .touching v => s.downX ≠ -1 ∧ s.discard = false ∧ v = pack s.downX s.downY
  | .key k => s.downX ≠ -1 ∧ s.discard = true ∧ k = keyCode s.last_virt_key

variable {d : Device} {s s' : Driver} {ev : InputEvent} {g g' : Gesture} {os : List Output}

theorem Driver.Tracks.congr (h : s.Tracks g) (he : s'.finger = s.finger) : s'.Tracks g := by
  simp only [Driver.finger, Prod.mk.injEq] at he
  obtain ⟨hx, hy, hd, hk⟩ := he
  cases g <;> simpa only [Driver.Tracks, hx, hy, hd, hk] using h

theorem forall_mem_ite {α : Type} {p : α → Prop} {c : Prop} [Decidable c] {a b : Option α}
    (ha : ∀ r ∈ a, p r) (hb : ∀ r ∈ b, p r) : ∀ r ∈ (if c then a else b), p r := by
  split
  · exact ha
  · exact hb

theorem Driver.absEvent_finger : ∀ r ∈ s.absEvent d ev, r.finger = s.finger := by
  have hs : ∀ t : Driver, t.finger = s.finger → ∀ r ∈ some t, r.finger = s.finger := by
    rintro t ht r ⟨⟩
    exact ht
  have hn : ∀ r ∈ (none : Option Driver), r.finger = s.finger := fun r hr => nomatch hr
  unfold Driver.absEvent
  repeat' apply forall_mem_ite
  all_goals first
    | exact hn
    | exact hs _ rfl

/-- An event let through as it is, is no part of a gesture. -/
theorem classify_self (ha : ev.type ≠ EV_ABS) : classify ev (false, ev, s') = none := by
  simp [classify, ha]

/-- An event that is no report is not part of a gesture. -/
theorem vk_modify_of_reaches_none (h : s.reaches d ev = none) :
    classify ev (s.vk_modify d ev) = none ∧ (s.vk_modify d ev).2.2.finger = s.finger := by
  rw [Driver.reaches] at h
  rw [Driver.vk_modify]
  by_cases hi : s.ignored
  · rw [if_pos hi]
    exact ⟨rfl, rfl⟩
  by_cases hr : ev.type = EV_REL ∧ ev.code = REL_Z
  · rw [if_neg hi, if_pos hr]
    exact ⟨rfl, rfl⟩
  by_cases hk : ev.type = EV_KEY
  · rw [if_neg hi, if_neg hr, if_pos hk]
    exact ⟨classify_self (by rw [hk]; decide), rfl⟩
  rw [if_neg (by tauto)] at h
  rw [if_neg hi, if_neg hr, if_neg hk]
  by_cases ha : ev.type = EV_ABS
  · rw [if_pos ha] at h ⊢
    cases he : s.absEvent d ev with
    | none => exact ⟨rfl, rfl⟩
    | some r =>
      have hc : ev.code ≠ ABS_MT_POSITION := by
        intro hc
        rw [if_pos hc, he] at h
        cases h
      have hf := Driver.absEvent_finger r he
      dsimp only
      rw [if_pos hc]
      exact ⟨rfl, hf⟩
  · rw [if_neg ha] at h ⊢
    have hc : ev.code ≠ ABS_MT_POSITION := by
      intro hc
      rw [if_pos (.inl hc)] at h
      cases h
    have hs : ¬ (ev.type = EV_SYN ∧ ev.code = SYN_REPORT) := by
      intro hs
      rw [if_pos (.inr hs)] at h
      cases h
    rw [Driver.afterSwitch]
    by_cases hm : ev.type = EV_SYN ∧ ev.code = SYN_MT_REPORT
    · rw [if_neg (by tauto), if_pos hm.2]
      exact ⟨classify_self ha, rfl⟩
    · rw [if_pos (by tauto)]
      exact ⟨classify_self ha, rfl⟩

/-- The other events are reports. -/
theorem vk_modify_of_reaches {r : Driver} (h : s.reaches d ev = some r) :
    s.vk_modify d ev = r.report d ev ∧ r.finger = s.finger ∧ ev.type ≠ EV_KEY := by
  rw [Driver.reaches] at h
  rw [Driver.vk_modify]
  split_ifs at h with h1 h2 h3 h4
  · have hf := Driver.absEvent_finger r h
    rw [if_neg (by tauto), if_neg (by tauto), if_neg (by tauto), if_pos h2, h]
    dsimp only
    rw [if_neg (not_not_intro h3), Driver.afterSwitch, if_neg (by tauto),
      if_neg (by rw [h3]; decide)]
    exact ⟨rfl, hf, by tauto⟩
  · obtain rfl := Option.some.inj h
    have hm : ev.code ≠ SYN_MT_REPORT := by
      obtain h4 | h4 := h4
      · rw [h4]; decide
      · rw [h4.2]; decide
    rw [if_neg (by tauto), if_neg (by tauto), if_neg (by tauto), if_neg h2, Driver.afterSwitch,
      if_neg (by tauto), if_neg hm]
    exact ⟨rfl, rfl, by tauto⟩

theorem classify_key (hk : ev.type ≠ EV_KEY) (k : Nat) (v : Int) :
    classify ev (false, ⟨EV_KEY, k, v⟩, s') = some (if v = 1 then .press k else .unpress k) := by
  have hk : ev.type ≠ 1 := hk
  simp [classify, hk, EV_KEY, EV_ABS]

theorem report_lifts (h : s.LiftsNow) (hk : ev.type ≠ EV_KEY) :
    classify ev (s.report d ev) = some (if s.discard then .unpress (keyCode s.last_virt_key)
      else .release (pack s.downX s.downY)) ∧
    (s.report d ev).2.2.downX = -1 ∧ (s.report d ev).2.2.discard = false := by
  rw [Driver.report, if_pos h]
  cases hd : s.discard with
  | true =>
    simp only [Driver.release, hd, reduceIte]
    exact ⟨classify_key hk _ _, trivial, trivial⟩
  | false => simp [Driver.release, hd, classify]

/-- What a position does. -/
theorem touch_cases (hk : ev.type ≠ EV_KEY) (x y : Int) :
    (classify ev (s.touch d ev x y) = none ∧ (s.touch d ev x y).2.2.finger = s.finger) ∨
    (x ≠ -1 ∧ s.discard = false ∧ classify ev (s.touch d ev x y) = some (.touch (pack x y)) ∧
      (s.touch d ev x y).2.2.finger = (x, y, false, s.last_virt_key)) ∨
    (s.downX = -1 ∧ ∃ key, classify ev (s.touch d ev x y) = some (.press (keyCode key)) ∧
      (s.touch d ev x y).2.2.finger = (0, s.downY, true, key)) := by
  rw [Driver.touch]
  by_cases h1 : x = -1 ∨ y = -1
  · rw [if_pos h1]
    exact .inl ⟨rfl, rfl⟩
  by_cases h2 : x = 0 ∧ y = 0
  · rw [if_neg h1, if_pos h2]
    exact .inl ⟨rfl, rfl⟩
  rw [if_neg h1, if_neg h2]
  split
  · rename_i vk hv
    have hx : s.downX = -1 := by
      by_contra hx
      rw [if_neg hx] at hv
      cases hv
    exact .inr (.inr ⟨hx, vk.scancode, classify_key hk _ _, rfl⟩)
  · cases hd : s.discard with
    | true => exact .inl ⟨rfl, rfl⟩
    | false =>
      refine .inr (.inl ⟨by tauto, rfl, rfl, ?_⟩)
      simp [Driver.finger]

/-- A report that is not taken for a lift. -/
theorem report_cases (h : ¬ s.LiftsNow) (hk : ev.type ≠ EV_KEY) :
    (classify ev (s.report d ev) = none ∧ (s.report d ev).2.2.finger = s.finger) ∨
    (∃ x y, x ≠ -1 ∧ s.discard = false ∧
      classify ev (s.report d ev) = some (.touch (pack x y)) ∧
      (s.report d ev).2.2.finger = (x, y, false, s.last_virt_key)) ∨
    (s.downX = -1 ∧ ∃ key, classify ev (s.report d ev) = some (.press (keyCode key)) ∧
      (s.report d ev).2.2.finger = (0, s.downY, true, key)) := by
  rw [Driver.report, if_neg h]
  dsimp only
  split
  · obtain hc | ⟨hx, hd, hc, hf⟩ | hc := touch_cases (d := d) (s := { s with
        lastWasSynReport := true
        p := { s.p with synced := 0 }
        mt_p := { s.mt_p with synced := 0 } }) hk _ _
    · exact .inl hc
    · exact .inr (.inl ⟨_, _, hx, hd, hc, hf⟩)
    · exact .inr (.inr hc)
  · exact .inl ⟨rfl, rfl⟩

/-- One event: the gesture goes on, unless a lift is seen with no finger down. -/
theorem step_tracks (h : s.Tracks g) (hl : s.Lifts d ev → s.InGesture) :
    ∃ g', (classify ev (s.vk_modify d ev)).toList.foldlM Gesture.next g = some g' ∧
      (s.vk_modify d ev).2.2.Tracks g' := by
  cases hr : s.reaches d ev with
  | none =>
    obtain ⟨hc, hf⟩ := vk_modify_of_reaches_none hr
    exact ⟨g, by rw [hc]; rfl, h.congr hf⟩
  | some r =>
    obtain ⟨he, hf, hk⟩ := vk_modify_of_reaches hr
    have hg : r.Tracks g := h.congr hf
    have hx : s.downX = r.downX := congrArg Prod.fst hf.symm
    rw [he]
    by_cases hn : r.LiftsNow
    · have hi : r.downX ≠ -1 := hx ▸ hl ⟨r, hr, hn⟩
      obtain ⟨hc, h1, h2⟩ := report_lifts (d := d) hn hk
      refine ⟨.idle, ?_, h1, h2⟩
      rw [hc]
      cases g with
      | idle => exact absurd hg.1 hi
      | touching v =>
        obtain ⟨-, hd, rfl⟩ := hg
        simp [hd, Gesture.next]
      | key k =>
        obtain ⟨-, hd, rfl⟩ := hg
        simp [hd, Gesture.next]
    · obtain ⟨hc, hf⟩ | ⟨x, y, hx, hd, hc, hf⟩ | ⟨hx, key, hc, hf⟩ := report_cases (d := d) hn hk
      · exact ⟨g, by rw [hc]; rfl, hg.congr hf⟩
      · simp only [Driver.finger, Prod.mk.injEq] at hf
        obtain ⟨h1, h2, h3, -⟩ := hf
        refine ⟨.touching (pack x y), ?_, by rwa [h1], h3, by rw [h1, h2]⟩
        rw [hc]
        cases g with
        | idle => rfl
        | touching v => rfl
        | key k => exact absurd hg.2.1 (by simp [hd])
      · simp only [Driver.finger, Prod.mk.injEq] at hf
        obtain ⟨h1, -, h3, h4⟩ := hf
        refine ⟨.key (keyCode key), ?_, by rw [h1]; decide, h3, by rw [h4]⟩
        rw [hc]
        cases g with
        | idle => rfl
        | touching v => exact absurd hx hg.1
        | key k => exact absurd hx hg.1

/-- A lift with no finger down is a release of nothing. -/
theorem step_releases (h : s.Tracks g) (hl : s.Lifts d ev) (hi : ¬ s.InGesture) :
    g = .idle ∧ ∃ v, classify ev (s.vk_modify d ev) = some (.release v) := by
  obtain ⟨r, hr, hn⟩ := hl
  obtain ⟨he, hf, hk⟩ := vk_modify_of_reaches hr
  have hx : s.downX = -1 := not_not.mp hi
  cases g with
  | idle =>
    have hd : r.discard = false := (Driver.Tracks.congr h hf).2
    refine ⟨rfl, pack r.downX r.downY, ?_⟩
    rw [he, (report_lifts hn hk).1, hd]
    rfl
  | touching v => exact absurd hx h.1
  | key k => exact absurd hx h.1

/-! ### Runs -/

theorem after_append (evs evs' : List InputEvent) :
    after d s (evs ++ evs') = after d (after d s evs) evs' := by
  induction evs generalizing s with
  | nil => rfl
  | cons ev evs ih => exact ih

theorem outputs_append (evs evs' : List InputEvent) :
    outputs d s (evs ++ evs') = outputs d s evs ++ outputs d (after d s evs) evs' := by
  induction evs generalizing s with
  | nil => rfl
  | cons ev evs ih => simp only [List.cons_append, outputs, ih, after, List.append_assoc]

theorem run_tracks (d : Device) (evs : List InputEvent)
    (hl : ∀ pre ev post, evs = pre ++ ev :: post →
      (after d .start pre).Lifts d ev → (after d .start pre).InGesture) :
    ∃ g, (outputs d .start evs).foldlM Gesture.next .idle = some g ∧
      (after d .start evs).Tracks g := by
  induction evs using List.reverseRecOn with
  | nil => exact ⟨.idle, rfl, rfl, rfl⟩
  | append_singleton evs ev ih =>
    obtain ⟨g, hg, ht⟩ := ih fun pre e post he => hl pre e (post ++ [ev]) (by simp [he])
    obtain ⟨g', hg', ht'⟩ := step_tracks ht (hl evs ev [] rfl)
    refine ⟨g', ?_, ?_⟩
    · rw [outputs_append, List.foldlM_append, hg]
      simpa [outputs] using hg'
    · rw [after_append]
      exact ht'

theorem Gesture.touching_of_run {v : Int} (h : os.foldlM Gesture.next .idle = some (.touching v)) :
    ∃ a, os = a ++ [.touch v] := by
  obtain rfl | ⟨a, o, rfl⟩ := os.eq_nil_or_concat
  · cases h
  · rw [List.concat_eq_append, List.foldlM_append] at h
    obtain ⟨g, -, ho⟩ := Option.bind_eq_some_iff.1 h
    refine ⟨a, ?_⟩
    cases g <;> cases o <;> simp_all [Gesture.next]

theorem Gesture.key_of_run {k : Nat} (h : os.foldlM Gesture.next .idle = some (.key k)) :
    ∃ a, os = a ++ [.press k] := by
  obtain rfl | ⟨a, o, rfl⟩ := os.eq_nil_or_concat
  · cases h
  · rw [List.concat_eq_append, List.foldlM_append] at h
    obtain ⟨g, -, ho⟩ := Option.bind_eq_some_iff.1 h
    refine ⟨a, ?_⟩
    cases g <;> cases o <;> simp_all [Gesture.next]

/-- What comes before an event, and what after it. -/
theorem Gesture.run_at {o : Output} {pre post : List Output}
    (h : (pre ++ o :: post).foldlM Gesture.next .idle = some g) :
    ∃ a b, pre.foldlM Gesture.next .idle = some a ∧ a.next o = some b ∧
      post.foldlM Gesture.next b = some g := by
  rw [List.foldlM_append] at h
  obtain ⟨a, ha, h⟩ := Option.bind_eq_some_iff.1 h
  obtain ⟨b, hb, h⟩ := Option.bind_eq_some_iff.1 h
  exact ⟨a, b, ha, hb, h⟩

theorem Bracketed.of_run (h : os.foldlM Gesture.next .idle = some g) : Bracketed os where
  release := by
    rintro pre v post rfl
    obtain ⟨a, b, ha, hb, -⟩ := Gesture.run_at h
    cases a with
    | touching w =>
      obtain rfl : w = v := by
        by_contra hw
        simp [Gesture.next, hw] at hb
      exact Gesture.touching_of_run ha
    | idle => cases hb
    | key k => cases hb
  press := by
    rintro pre k post rfl
    obtain ⟨a, b, ha, hb, hp⟩ := Gesture.run_at h
    obtain rfl : b = .key k := by
      cases a <;> simp_all [Gesture.next]
    cases post with
    | nil => exact .inl rfl
    | cons o post =>
      obtain ⟨c, hc, -⟩ := Option.bind_eq_some_iff.1 hp
      cases o <;> simp_all [Gesture.next]
  unpress := by
    rintro pre k post rfl
    obtain ⟨a, b, ha, hb, -⟩ := Gesture.run_at h
    cases a with
    | key l =>
      obtain rfl : l = k := by
        by_contra hl
        simp [Gesture.next, hl] at hb
      exact Gesture.key_of_run ha
    | idle => cases hb
    | touching v => cases hb
  touch := by
    rintro pre v post rfl
    obtain ⟨a, b, ha, hb, hp⟩ := Gesture.run_at h
    obtain rfl : b = .touching v := by
      cases a <;> simp_all [Gesture.next]
    cases post with
    | nil => exact .inl rfl
    | cons o post =>
      obtain ⟨c, hc, -⟩ := Option.bind_eq_some_iff.1 hp
      refine .inr ⟨o, post, rfl, ?_⟩
      cases o <;> simp_all [Gesture.next]

/-- The release of nothing, behind a gesture that is over. -/
theorem not_bracketed_release {v : Int} (post : List Output)
    (h : os.foldlM Gesture.next .idle = some .idle) :
    ¬ Bracketed (os ++ .release v :: post) := by
  intro hb
  obtain ⟨a, rfl⟩ := hb.release os v post rfl
  rw [List.foldlM_append] at h
  obtain ⟨g, -, hg⟩ := Option.bind_eq_some_iff.1 h
  cases g <;> cases hg

/-- The events let through are well-bracketed exactly in the runs in which no report is taken for a
lift while no finger is down. -/
theorem bracketed_iff (d : Device) (evs : List InputEvent) :
    Bracketed (outputs d .start evs) ↔
      ∀ pre ev post, evs = pre ++ ev :: post →
        (after d .start pre).Lifts d ev → (after d .start pre).InGesture := by
  constructor
  · intro hb pre
    -- the first lift that is out of place has a well-bracketed run before it
    induction hn : pre.length using Nat.strongRecOn generalizing pre with
    | ind n ih =>
      rintro ev post rfl hl
      by_contra hi
      obtain ⟨g, hg, ht⟩ := run_tracks d pre fun p e q hp =>
        ih p.length (by simp [← hn, hp]) p rfl e (q ++ ev :: post) (by simp [hp])
      obtain ⟨rfl, v, hv⟩ := step_releases ht hl hi
      rw [outputs_append, outputs, hv] at hb
      exact not_bracketed_release _ hg hb
  · intro hl
    obtain ⟨g, hg, -⟩ := run_tracks d evs hl
    exact .of_run hg

/-- A screen of one hundred by one hundred, without virtual keys. -/
def plainDevice : Device where
  vks := []
  xi := ⟨0, 0⟩
  yi := ⟨0, 0⟩
  mt_xi := ⟨0, 99⟩
  mt_yi := ⟨0, 99⟩
  fb_width := 100
  fb_height := 100
  TW_IGNORE_MT_POSITION_0 := false
  TW_IGNORE_MAJOR_AXIS_0 := false
  TW_IGNORE_ABS_MT_TRACKING_ID := false
  RECOVERY_TOUCHSCREEN_SWAP_XY := false
  RECOVERY_TOUCHSCREEN_FLIP_X := false
  RECOVERY_TOUCHSCREEN_FLIP_Y := false

/-- A touch, its release, and a report more: a second release, of no touch. -/
theorem second_report_releases :
    let evs : List InputEvent := [⟨EV_ABS, ABS_MT_POSITION_X, 10⟩, ⟨EV_ABS, ABS_MT_POSITION_Y, 20⟩,
      ⟨EV_SYN, SYN_REPORT, 0⟩, ⟨EV_SYN, SYN_REPORT, 0⟩, ⟨EV_SYN, SYN_REPORT, 0⟩]
    outputs plainDevice .start evs = [.touch 655380, .release 655380, .release (-1)] ∧
      ¬ Bracketed (outputs plainDevice .start evs) := by
  have h : outputs plainDevice .start [⟨EV_ABS, ABS_MT_POSITION_X, 10⟩,
      ⟨EV_ABS, ABS_MT_POSITION_Y, 20⟩, ⟨EV_SYN, SYN_REPORT, 0⟩, ⟨EV_SYN, SYN_REPORT, 0⟩,
      ⟨EV_SYN, SYN_REPORT, 0⟩] = [.touch 655380, .release 655380, .release (-1)] := by
    decide
  refine ⟨h, ?_⟩
  intro hb
  rw [h] at hb
  have hg : [Output.touch 655380, .release 655380].foldlM Gesture.next .idle = some .idle := rfl
  exact not_bracketed_release [] hg hb

end Recovery.MinuiTwrp
