import Recovery.Gui.Keyboard

/-!
# Touches of the keyboard (`gui/keyboard.cpp`)

* `HitTestKey`, `trigger`, `repeatKey`, `NotifyTouch` — as in the source; `none` is an access
  outside of the layouts. `run` is a sequence of touches.
* `InKey` — the rectangle that `Render` gives a key.
* `KeyFunction.perform` — what a function of a key does to the keyboard, and what is sent.
* `hitKey_eq` — what is hit in the rectangle of a key.
* `notifyTouch_defined`, `run_defined` — the current layout is defined, over runs.
* `press_release` — a press and a release in the rectangle of a key do what its record says.
* `keyboard_spec` — when tables, layouts and presses are as the XML says; `layout_key_lost` — a key
  that does nothing any more.
-/

set_option autoImplicit false

namespace Recovery.Gui.GUIKeyboard

/-- A pointer to a key in the table. -/
structure KeyRef where
  layout : Int
  row : Nat
  col : Nat
  deriving DecidableEq

/-- `NotifyCharInput` and `NotifyKey`. -/
inductive Output where
  | char (c : Int)
  | key (code : Int) (down : Bool)
  deriving DecidableEq

structure State where
  currentLayout : Int
  CapsLockOn : Bool
  CtrlActive : Bool
  currentKey : Option KeyRef
  highlightRenderCount : Int
  mRendered : Bool
  was_held : Bool
  startX : Int
  sent : List Output
  deriving DecidableEq

/-- After the constructor; static variables have the values that they have. -/
def init (CtrlActive was_held : Bool) (startX : Int) : State :=
  ⟨1, false, CtrlActive, none, 0, false, was_held, startX, []⟩

def KeyCharToCtrlChar (key : Int) : Int :=
  if 65 ≤ key ∧ key ≤ 127 ∧ key ≠ 96 then key % 32 else key

/-! ### The source -/

/-- The row and the column of the key at a place of the layout. -/
def hitKey (lay : Layout) (relx rely : Int) : Option (Nat × Nat) :=
  match (List.range MAX_KEYBOARD_ROWS).find? fun row => lay.row_end_y row > rely with
  | none => none
  | some row =>
    ((List.range MAX_KEYBOARD_KEYS).find? fun col =>
      lay.x1 row col ≤ relx ∧ relx < (lay.key row col).end_x ∧
        ((lay.key row col).key ≠ 0 ∨ (lay.key row col).layout ≠ 0)).map (row, ·)

namespace Keyboard

variable (kb : Keyboard)

def IsInRegion (x y : Int) : Bool :=
  ¬ (x < kb.mActionX ∨ x ≥ kb.mActionX + kb.mActionW ∨ y < kb.mActionY ∨
    y ≥ kb.mActionY + kb.mActionH)

/-- `layouts[currentLayout - 1]`. -/
def layout (currentLayout : Int) : Option Layout :=
  if 1 ≤ currentLayout then kb.layouts[(currentLayout - 1).toNat]? else none

def key (ref : KeyRef) : Key := ((kb.layout ref.layout).map (·.key ref.row ref.col)).getD .zero

def HitTestKey (currentLayout x y : Int) : Option (Option KeyRef) :=
  if kb.IsInRegion x y = false then some none
  else
    (kb.layout currentLayout).map fun lay =>
      (hitKey lay (x - kb.mRenderX) (y - kb.mRenderY)).map fun (row, col) =>
        ⟨currentLayout, row, col⟩

end Keyboard

namespace State

variable (s : State)

def send (o : Output) : State := { s with sent := s.sent ++ [o] }

def unhighlight : State :=
  if s.highlightRenderCount ≠ 0 then { s with highlightRenderCount := 0, mRendered := false } else s

/-- It goes on after a release for a while. -/
def highlight (state : TouchState) : State :=
  if s.highlightRenderCount ≠ 0 then
    { s with highlightRenderCount := if state = .release then 2 else -1, mRendered := false }
  else s

end State

/-- Caps lock was not set: change layouts. -/
def revertLayout (lay : Layout) (s : State) : State :=
  if s.CapsLockOn = false ∧ lay.is_caps then
    { s with currentLayout := lay.revert_layout, mRendered := false }
  else s

/-- A key is released that was not held. -/
def trigger (lay : Layout) (key : Key) (s : State) : State :=
  if key.layout > 0 then
    let s :=
      if lay.is_caps ∧ key.layout = lay.revert_layout ∧ s.CapsLockOn = false then
        { s with CapsLockOn := true }
      else { s with CapsLockOn := false, currentLayout := key.layout }
    { s with mRendered := false }
  else if key.key = KEYBOARD_ACTION then
    { s with highlightRenderCount := 0 }.send (.char key.key)
  else if key.key = -KEY_LEFTCTRL then
    { s with CtrlActive := !s.CtrlActive, mRendered := false }
  else if key.key ≠ 0 then
    let s :=
      if key.key > 0 then
        if s.CtrlActive then
          { s with CtrlActive := false, mRendered := false }.send
            (.char (KeyCharToCtrlChar key.key))
        else s.send (.char key.key)
      else (s.send (.key (-key.key) true)).send (.key (-key.key) false)
    revertLayout lay s
  else s

def repeatKey (key : Key) (s : State) : State :=
  let s := if key.key = KEYBOARD_BACKSPACE then s.send (.char key.key) else s
  if key.key = -KEY_LEFT ∨ key.key = -KEY_RIGHT ∨ key.key = -KEY_UP ∨ key.key = -KEY_DOWN then
    (s.send (.key (-key.key) true)).send (.key (-key.key) false)
  else s

/-- Touched, held or released where the touch of a key has started. -/
def notifyCurrentKey (kb : Keyboard) (s : State) (ref : KeyRef) (state : TouchState) (x y : Int) :
    Option State := do
  let hit ← kb.HitTestKey s.currentLayout x y
  if hit ≠ some ref then return { s with currentKey := none }.unhighlight
  else
    let key := kb.key ref
    let lay ← kb.layout s.currentLayout
    if state = .release ∧ s.was_held = false then return trigger lay key s
    else if state = .hold then
      let s := { s with was_held := true }
      if key.longpresskey > 0 then return s.send (.char key.longpresskey)
      else return repeatKey key s
    else if state = .repeat then return repeatKey key { s with was_held := true }
    else return s

/-- Of a release that is no swipe, and of a key that is held. -/
def notifyKey (kb : Keyboard) (s : State) (state : TouchState) (x y : Int) : Option State :=
  match s.currentKey with
  | none => some s.unhighlight
  | some ref => notifyCurrentKey kb (s.highlight state) ref state x y

structure Event where
  /-- The conditions of the object hold. -/
  condition : Bool
  state : TouchState
  x : Int
  y : Int

def NotifyTouch (kb : Keyboard) (s : State) (e : Event) : Option State :=
  if e.condition = false then some s
  else
    match e.state with
    | .start =>
      (kb.HitTestKey s.currentLayout e.x e.y).map fun key =>
        { s with
          was_held := false
          startX := e.x
          currentKey := key
          highlightRenderCount := if key.isSome then -1 else 0
          mRendered := false }
    | .drag => some s
    | .release =>
      -- half of the width is compared exactly
      if 2 * e.x < 2 * s.startX - kb.mRenderW then
        some (s.unhighlight.send (.char KEYBOARD_SWIPE_LEFT))
      else if 2 * e.x > 2 * s.startX + kb.mRenderW then
        some (s.unhighlight.send (.char KEYBOARD_SWIPE_RIGHT))
      else notifyKey kb s .release e.x e.y
    | .hold => notifyKey kb s .hold e.x e.y
    | .repeat => notifyKey kb s .repeat e.x e.y

def run (kb : Keyboard) : State → List Event → Option State
  | s, [] => some s
  | s, e :: es => (NotifyTouch kb s e).bind fun s => run kb s es

/-- The rectangle that `Render` gives a key of a layout. -/
def InKey (kb : Keyboard) (lay : Layout) (row col : Nat) (x y : Int) : Prop :=
  let keyX := kb.mRenderX + lay.x1 row col
  let keyW := (lay.key row col).end_x - lay.x1 row col
  let keyY := kb.mRenderY + lay.y1 row
  let keyH := lay.row_end_y row - lay.y1 row
  keyX ≤ x ∧ x < keyX + keyW ∧ keyY ≤ y ∧ y < keyY + keyH

/-! ### What functions do -/

/-- The layout and the keys that are locked. -/
structure Mode where
  layout : Int
  caps : Bool
  ctrl : Bool
  deriving DecidableEq

def State.mode (s : State) : Mode := ⟨s.currentLayout, s.CapsLockOn, s.CtrlActive⟩

/-- Behind a regular key, a layout of capitals that is not locked gives way. -/
def Mode.shift (m : Mode) (reverts : Option Int) : Mode :=
  match reverts with
  | some n => if m.caps then m else { m with layout := n }
  | none => m

/-- `reverts` is where a layout of capitals goes back to. -/
def KeyFunction.perform (reverts : Option Int) (m : Mode) : KeyFunction → Mode × List Output
  | .nothing => (m, [])
  | .char c =>
    (({ m with ctrl := false } : Mode).shift reverts,
      [.char (if m.ctrl then KeyCharToCtrlChar c else c)])
  | .code k => (m.shift reverts, [.key k true, .key k false])
  | .layout n =>
    if reverts = some n ∧ m.caps = false then ({ m with caps := true }, [])
    else ({ m with caps := false, layout := n }, [])
  | .action => (m, [.char KEYBOARD_ACTION])
  | .ctrl => ({ m with ctrl := !m.ctrl }, [])

def Layout.reverts (lay : Layout) : Option Int :=
  if lay.is_caps then some lay.revert_layout else none

/-- What is sent and the mode are those of the function. -/
def Performs (reverts : Option Int) (f : KeyFunction) (s s' : State) : Prop :=
  s'.mode = (f.perform reverts s.mode).1 ∧ s'.sent = s.sent ++ (f.perform reverts s.mode).2

theorem revertLayout_mode (lay : Layout) (s : State) :
    (revertLayout lay s).mode = s.mode.shift lay.reverts := by
  unfold revertLayout Mode.shift Layout.reverts State.mode
  cases hl : lay.is_caps <;> cases hs : s.CapsLockOn <;> simp [hs]

theorem revertLayout_sent (lay : Layout) (s : State) : (revertLayout lay s).sent = s.sent := by
  unfold revertLayout
  split <;> rfl

theorem trigger_performs (lay : Layout) (key : Key) (s : State) :
    Performs lay.reverts key.function s (trigger lay key s) := by
  rw [trigger, Key.function]
  by_cases hlay : 0 < key.layout
  · rw [if_pos hlay, if_pos hlay]
    have hcond : (lay.is_caps = true ∧ key.layout = lay.revert_layout ∧ s.CapsLockOn = false) ↔
        lay.reverts = some key.layout ∧ s.mode.caps = false := by
      unfold Layout.reverts State.mode
      cases lay.is_caps with
      | false => simp
      | true =>
        simp only [true_and, if_true, Option.some.injEq]
        exact and_congr_left' ⟨Eq.symm, Eq.symm⟩
    simp only [Performs, KeyFunction.perform]
    by_cases hc : lay.reverts = some key.layout ∧ s.mode.caps = false
    · rw [if_pos (hcond.2 hc), if_pos hc]
      exact ⟨rfl, (List.append_nil _).symm⟩
    · rw [if_neg (mt hcond.1 hc), if_neg hc]
      exact ⟨rfl, (List.append_nil _).symm⟩
  · rw [if_neg hlay, if_neg hlay, KeyFunction.ofKey]
    by_cases ha : key.key = KEYBOARD_ACTION
    · rw [if_pos ha, if_pos ha, ha]
      exact ⟨rfl, rfl⟩
    · rw [if_neg ha, if_neg ha]
      by_cases hc : key.key = -KEY_LEFTCTRL
      · rw [if_pos hc, if_pos hc]
        exact ⟨rfl, (List.append_nil _).symm⟩
      · rw [if_neg hc, if_neg hc]
        by_cases hp : 0 < key.key
        · rw [if_pos (by lia : key.key ≠ 0), if_pos hp]
          dsimp only
          rw [if_pos hp]
          refine ⟨?_, ?_⟩
          · rw [revertLayout_mode]
            cases hctrl : s.CtrlActive <;> simp [KeyFunction.perform, State.mode, State.send, hctrl]
          · rw [revertLayout_sent]
            cases hctrl : s.CtrlActive <;> simp [KeyFunction.perform, State.mode, State.send, hctrl]
        · by_cases hn : key.key < 0
          · rw [if_pos (by lia : key.key ≠ 0), if_neg hp, if_pos hn]
            dsimp only
            rw [if_neg hp]
            refine ⟨?_, ?_⟩
            · rw [revertLayout_mode]
              rfl
            · rw [revertLayout_sent]
              simp [KeyFunction.perform, State.send]
          · rw [if_neg (by lia : ¬ key.key ≠ 0), if_neg hp, if_neg hn]
            exact ⟨rfl, (List.append_nil _).symm⟩

/-! ### What is hit -/

section

variable {t : Theme} {node : LayoutNode} {row col : Nat} {nodes : List KeyNode} {key : KeyNode}

theorem rowWidth_take_le (h : ∀ key ∈ nodes, key.Loads t (node.keyWidth t)) {i j : Nat}
    (hij : i ≤ j) : rowWidth t (node.keyWidth t) (nodes.take i) ≤
      rowWidth t (node.keyWidth t) (nodes.take j) := by
  obtain ⟨k, rfl⟩ := Nat.exists_eq_add_of_le hij
  have hsum : rowWidth t (node.keyWidth t) (nodes.take (i + k)) =
      rowWidth t (node.keyWidth t) (nodes.take i) +
        rowWidth t (node.keyWidth t) ((nodes.drop i).take k) := by
    simp only [rowWidth, List.take_add, List.map_append, List.sum_append]
  have hrest : 0 ≤ rowWidth t (node.keyWidth t) ((nodes.drop i).take k) :=
    rowWidth_nonneg fun key hk => h key (List.mem_of_mem_drop (List.mem_of_mem_take hk))
  lia

/-- The right edge of a key. -/
theorem table_end_x (hr : node.rows[row]? = some nodes) (hk : nodes[col]? = some key) :
    ((node.table t).key row col).end_x =
      rowWidth t (node.keyWidth t) (nodes.take (col + 1)) - 1 := by
  rw [table_key hr hk, rowWidth_take_succ hk]
  rfl

theorem table_y1 (hr : node.rows[row]? = some nodes) :
    (node.table t).y1 row = row * node.keyHeight t := by
  cases row with
  | zero => exact (Int.zero_mul _).symm
  | succ row =>
    obtain ⟨hlt, -⟩ := List.getElem?_eq_some_iff.1 hr
    obtain ⟨above, habove⟩ : ∃ above, node.rows[row]? = some above :=
      ⟨_, List.getElem?_eq_getElem (by lia)⟩
    exact table_row_end_y habove

/-- In a row only one key has a place. -/
theorem col_eq (hl : node.Loads t) (hr : node.rows[row]? = some nodes)
    (hk : nodes[col]? = some key) {relx : Int}
    (hx : (node.table t).x1 row col ≤ relx ∧ relx < ((node.table t).key row col).end_x) {j : Nat}
    (hj : (node.table t).x1 row j ≤ relx ∧ relx < ((node.table t).key row j).end_x ∧
      (((node.table t).key row j).key ≠ 0 ∨ ((node.table t).key row j).layout ≠ 0)) : j = col := by
  have hloads := (hl.rows_load nodes (List.mem_of_getElem? hr)).nodes_load
  -- the left edge of a key is the right edge of the one before
  have hleft : ∀ {a b : Nat} {node' : KeyNode}, a < b → nodes[a]? = some node' → b ≤ nodes.length →
      ((node.table t).key row a).end_x ≤ (node.table t).x1 row b := by
    intro a b node' hab ha hb
    obtain ⟨b, rfl⟩ : ∃ c, b = c + 1 := ⟨b - 1, by lia⟩
    obtain ⟨before, hbefore⟩ : ∃ before, nodes[b]? = some before :=
      ⟨_, List.getElem?_eq_getElem (by lia)⟩
    rw [Layout.x1, table_end_x hr ha, table_end_x hr hbefore]
    have := rowWidth_take_le hloads (show a + 1 ≤ b + 1 by lia)
    lia
  have hcol := (List.getElem?_eq_some_iff.1 hk).1
  rcases Nat.lt_trichotomy j col with hlt | heq | hgt
  · obtain ⟨other, hother⟩ : ∃ other, nodes[j]? = some other :=
      ⟨_, List.getElem?_eq_getElem (by lia)⟩
    have := hleft hlt hother (by lia)
    lia
  · exact heq
  · by_cases hlen : j < nodes.length
    · have := hleft hgt hk (by lia)
      lia
    · rw [table_key_zero hr (List.getElem?_eq_none (by lia))] at hj
      exact absurd hj.2.2 (by decide)

theorem row_find (hl : node.Loads t) (hr : node.rows[row]? = some nodes) {rely : Int}
    (hy : (node.table t).y1 row ≤ rely ∧ rely < (node.table t).row_end_y row) :
    ((List.range MAX_KEYBOARD_ROWS).find? fun row => (node.table t).row_end_y row > rely) =
      some row := by
  have hlen := hl.length_le
  obtain ⟨hlt, -⟩ := List.getElem?_eq_some_iff.1 hr
  rw [table_y1 hr, table_row_end_y hr, Int.add_mul, Int.one_mul] at hy
  rw [List.find?_range_eq_some]
  refine ⟨decide_eq_true ?_, List.mem_range.2 (by lia), fun j hj => ?_⟩
  · rw [table_row_end_y hr, Int.add_mul, Int.one_mul]
    exact hy.2
  · obtain ⟨above, habove⟩ : ∃ above, node.rows[j]? = some above :=
      ⟨_, List.getElem?_eq_getElem (by lia)⟩
    have hmul : ((j : Int) + 1) * node.keyHeight t ≤ row * node.keyHeight t :=
      Int.mul_le_mul_of_nonneg_right (by lia) (by lia)
    rw [table_row_end_y habove, Bool.not_eq_true', decide_eq_false_iff_not]
    lia

/-- In the rectangle of a key nothing else is hit. -/
theorem hitKey_eq (hl : node.Loads t) (hr : node.rows[row]? = some nodes)
    (hk : nodes[col]? = some key) {relx rely : Int}
    (hx : (node.table t).x1 row col ≤ relx ∧ relx < ((node.table t).key row col).end_x)
    (hy : (node.table t).y1 row ≤ rely ∧ rely < (node.table t).row_end_y row) :
    hitKey (node.table t) relx rely =
      if ((node.table t).key row col).key ≠ 0 ∨ ((node.table t).key row col).layout ≠ 0 then
        some (row, col)
      else none := by
  have hwide := (hl.rows_load nodes (List.mem_of_getElem? hr)).length_le
  have hcol := (List.getElem?_eq_some_iff.1 hk).1
  rw [hitKey, row_find hl hr hy]
  dsimp only
  split
  · rename_i hfun
    rw [Option.map_eq_some_iff]
    refine ⟨col, List.find?_range_eq_some.2
      ⟨decide_eq_true ⟨hx.1, hx.2, hfun⟩, List.mem_range.2 (by lia), fun j hj => ?_⟩, rfl⟩
    rw [Bool.not_eq_true', decide_eq_false_iff_not]
    intro hj'
    have := col_eq hl hr hk hx hj'
    lia
  · rename_i hfun
    rw [Option.map_eq_none_iff, List.find?_eq_none]
    intro j _ hj
    have hj' := of_decide_eq_true hj
    rw [col_eq hl hr hk hx hj'] at hj'
    exact hfun hj'.2.2

end

/-! ### The current layout -/

/-- The number of a layout that is defined. -/
def Defined (node : KeyboardNode) (n : Int) : Prop := 1 ≤ n ∧ n ≤ node.layouts.length

/-- A layout of capitals says where it goes back to. -/
def RevertsGiven (node : KeyboardNode) : Prop :=
  ∀ lay ∈ node.layouts, lay.capslock = 0 → lay.revert_layout ≠ none

@[simp] theorem unhighlight_mode (s : State) : s.unhighlight.mode = s.mode := by
  unfold State.unhighlight
  split <;> rfl

@[simp] theorem unhighlight_sent (s : State) : s.unhighlight.sent = s.sent := by
  unfold State.unhighlight
  split <;> rfl

@[simp] theorem highlight_mode (s : State) (state : TouchState) :
    (s.highlight state).mode = s.mode := by
  unfold State.highlight
  split <;> rfl

@[simp] theorem send_mode (s : State) (o : Output) : (s.send o).mode = s.mode := rfl

@[simp] theorem repeatKey_mode (key : Key) (s : State) : (repeatKey key s).mode = s.mode := by
  unfold repeatKey
  dsimp only
  split <;> split <;> rfl

theorem perform_layout (reverts : Option Int) (m : Mode) (f : KeyFunction) :
    (f.perform reverts m).1.layout = m.layout ∨ f = .layout (f.perform reverts m).1.layout ∨
      reverts = some (f.perform reverts m).1.layout := by
  have hshift : ∀ m : Mode, (m.shift reverts).layout = m.layout ∨
      reverts = some (m.shift reverts).layout := by
    intro m
    unfold Mode.shift
    cases reverts with
    | none => exact .inl rfl
    | some n =>
      cases m.caps with
      | true => exact .inl rfl
      | false => exact .inr rfl
  cases f with
  | nothing | action | ctrl => exact .inl rfl
  | char c => exact (hshift { m with ctrl := false }).imp id .inr
  | code k => exact (hshift m).imp id .inr
  | layout n =>
    rw [KeyFunction.perform]
    split
    · exact .inl rfl
    · exact .inr (.inl rfl)

theorem layout_of_function {key : Key} {n : Int} (h : key.function = .layout n) :
    0 < key.layout ∧ key.layout = n := by
  rw [Key.function] at h
  split at h
  · rename_i hpos
    injection h with h
    exact ⟨hpos, h⟩
  · exact absurd h (KeyFunction.ofKey_ne_layout _ n)

section

variable {t : Theme} (xml : KeyboardXml t)

theorem defined_of_layoutNumber {s : Str} {keyWidth : Int}
    (h : RefersTo t xml.layouts.length s) (hpos : 0 < (functionOf t keyWidth s).layoutNumber) :
    Defined xml.toKeyboardNode (functionOf t keyWidth s).layoutNumber := by
  cases hf : functionOf t keyWidth s with
  | layout n => exact layout_pos h hf
  | nothing | char | code | action | ctrl =>
    rw [hf] at hpos
    exact absurd hpos (Int.lt_irrefl 0)

/-- A key of the table switches to a layout that is defined. -/
theorem defined_of_key {node : LayoutNode} (hn : node ∈ xml.layouts) {row col : Nat}
    (hpos : 0 < ((node.table t).key row col).layout) :
    Defined xml.toKeyboardNode ((node.table t).key row col).layout := by
  cases hr : node.rows[row]? with
  | none =>
    rw [table_row_zero hr] at hpos
    exact absurd hpos (by decide)
  | some nodes =>
    cases hk : nodes[col]? with
    | none =>
      rw [table_key_zero hr hk] at hpos
      exact absurd hpos (by decide)
    | some key =>
      obtain ⟨hkey, hlong⟩ := xml.keys_refer node hn nodes (List.mem_of_getElem? hr) key
        (List.mem_of_getElem? hk)
      rw [table_key hr hk, KeyNode.record] at hpos ⊢
      dsimp only at hpos ⊢
      cases hl : key.long with
      | none =>
        simp only [hl, Option.isSome_none, Bool.false_eq_true, if_false] at hpos ⊢
        exact defined_of_layoutNumber xml hkey hpos
      | some s =>
        have hg : key.longFunction t (node.keyWidth t) = functionOf t (node.keyWidth t) s := by
          rw [KeyNode.longFunction, hl]
          rfl
        simp only [hl, hg, Option.isSome_some, if_true] at hpos ⊢
        exact defined_of_layoutNumber xml (hlong s hl) hpos

variable {xml} (hload : Loads t xml.toKeyboardNode)

include hload

theorem layout_eq {n : Int} (h : Defined xml.toKeyboardNode n) :
    ∃ node, xml.layouts[(n - 1).toNat]? = some node ∧
      (construct t xml.toKeyboardNode).layout n = some (node.table t) := by
  obtain ⟨h1, h2⟩ := h
  obtain ⟨node, hnode⟩ : ∃ node, xml.layouts[(n - 1).toNat]? = some node :=
    ⟨_, List.getElem?_eq_getElem (by omega)⟩
  refine ⟨node, hnode, ?_⟩
  rw [Keyboard.layout, if_pos h1]
  exact construct_layout hload hnode

theorem hitTestKey_eq {n x y : Int} (h : Defined xml.toKeyboardNode n) :
    ∃ hit, (construct t xml.toKeyboardNode).HitTestKey n x y = some hit ∧
      ∀ ref, hit = some ref → ref.layout = n := by
  obtain ⟨node, -, hlay⟩ := layout_eq hload h
  rw [Keyboard.HitTestKey, hlay]
  split
  · exact ⟨none, rfl, fun _ h => nomatch h⟩
  · refine ⟨_, rfl, fun ref href => ?_⟩
    obtain ⟨⟨row, col⟩, -, rfl⟩ := Option.map_eq_some_iff.1 href
    rfl

/-- A key that is released switches to a layout that is defined. -/
theorem trigger_defined (hrev : RevertsGiven xml.toKeyboardNode) {s : State} {ref : KeyRef}
    (h : Defined xml.toKeyboardNode s.currentLayout) (href : ref.layout = s.currentLayout)
    {lay : Layout} (hlay : (construct t xml.toKeyboardNode).layout s.currentLayout = some lay) :
    Defined xml.toKeyboardNode
      (trigger lay ((construct t xml.toKeyboardNode).key ref) s).currentLayout := by
  obtain ⟨node, hnode, hlay'⟩ := layout_eq hload h
  obtain rfl : node.table t = lay := Option.some.inj (hlay'.symm.trans hlay)
  have hmem := List.mem_of_getElem? hnode
  have hkey : (construct t xml.toKeyboardNode).key ref = (node.table t).key ref.row ref.col := by
    rw [Keyboard.key, href, hlay]
    rfl
  rw [hkey]
  obtain ⟨hmode, -⟩ := trigger_performs (node.table t) ((node.table t).key ref.row ref.col) s
  have hl := congrArg Mode.layout hmode
  change (trigger _ _ s).currentLayout = _ at hl
  have hcases := perform_layout (node.table t).reverts s.mode
    ((node.table t).key ref.row ref.col).function
  generalize (KeyFunction.perform _ _ _).1.layout = n at hl hcases
  rw [hl]
  rcases hcases with hsame | hfun | hback
  · rw [hsame]
    exact h
  · obtain ⟨hpos, heq⟩ := layout_of_function hfun
    rw [← heq]
    exact defined_of_key xml hmem hpos
  · rw [Layout.reverts] at hback
    split at hback
    · rename_i hcaps
      rw [← Option.some.inj hback]
      have hne := hrev node hmem (of_decide_eq_true hcaps)
      obtain ⟨r, hr⟩ := Option.ne_none_iff_exists'.1 hne
      change Defined _ (node.revert_layout.getD (-1))
      rw [hr]
      exact xml.reverts_refer node hmem r hr
    · exact nomatch hback

theorem notifyCurrentKey_defined (hrev : RevertsGiven xml.toKeyboardNode) {s : State}
    (h : Defined xml.toKeyboardNode s.currentLayout) (ref : KeyRef) (state : TouchState)
    (x y : Int) :
    ∃ s', notifyCurrentKey (construct t xml.toKeyboardNode) s ref state x y = some s' ∧
      Defined xml.toKeyboardNode s'.currentLayout := by
  obtain ⟨hit, hhit, href⟩ := hitTestKey_eq hload (x := x) (y := y) h
  obtain ⟨node, -, hlay⟩ := layout_eq hload h
  have hrepeat : ∀ (key : Key) (s' : State), s'.mode = s.mode →
      Defined xml.toKeyboardNode (repeatKey key s').currentLayout := by
    intro key s' hs'
    change Defined _ (repeatKey key s').mode.layout
    rw [repeatKey_mode, hs']
    exact h
  rw [notifyCurrentKey, hhit, Option.bind_eq_bind, Option.bind_some]
  split
  · refine ⟨_, rfl, ?_⟩
    change Defined _ (State.unhighlight _).mode.layout
    rw [unhighlight_mode]
    exact h
  · rename_i hsame
    have href' := href ref (not_not.1 hsame)
    rw [hlay, Option.bind_eq_bind, Option.bind_some]
    split
    · exact ⟨_, rfl, trigger_defined hload hrev h href' hlay⟩
    · split
      · split
        · exact ⟨_, rfl, h⟩
        · exact ⟨_, rfl, hrepeat _ _ rfl⟩
      · split
        · exact ⟨_, rfl, hrepeat _ _ rfl⟩
        · exact ⟨_, rfl, h⟩

theorem notifyKey_defined (hrev : RevertsGiven xml.toKeyboardNode) {s : State}
    (h : Defined xml.toKeyboardNode s.currentLayout) (state : TouchState) (x y : Int) :
    ∃ s', notifyKey (construct t xml.toKeyboardNode) s state x y = some s' ∧
      Defined xml.toKeyboardNode s'.currentLayout := by
  rw [notifyKey]
  cases s.currentKey with
  | none =>
    refine ⟨_, rfl, ?_⟩
    change Defined _ s.unhighlight.mode.layout
    rw [unhighlight_mode]
    exact h
  | some ref =>
    refine notifyCurrentKey_defined hload hrev ?_ ref state x y
    change Defined _ (s.highlight state).mode.layout
    rw [highlight_mode]
    exact h

theorem notifyTouch_defined (hrev : RevertsGiven xml.toKeyboardNode) {s : State}
    (h : Defined xml.toKeyboardNode s.currentLayout) (e : Event) :
    ∃ s', NotifyTouch (construct t xml.toKeyboardNode) s e = some s' ∧
      Defined xml.toKeyboardNode s'.currentLayout := by
  have hswipe : ∀ c, Defined xml.toKeyboardNode (s.unhighlight.send (.char c)).currentLayout := by
    intro c
    change Defined _ s.unhighlight.mode.layout
    rw [unhighlight_mode]
    exact h
  rw [NotifyTouch]
  split
  · exact ⟨s, rfl, h⟩
  · cases e.state with
    | start =>
      obtain ⟨hit, hhit, -⟩ := hitTestKey_eq (x := e.x) (y := e.y) hload h
      dsimp only
      rw [hhit]
      exact ⟨_, rfl, h⟩
    | drag => exact ⟨s, rfl, h⟩
    | release =>
      dsimp only
      split
      · exact ⟨_, rfl, hswipe _⟩
      · split
        · exact ⟨_, rfl, hswipe _⟩
        · exact notifyKey_defined hload hrev h .release e.x e.y
    | hold => exact notifyKey_defined hload hrev h .hold e.x e.y
    | «repeat» => exact notifyKey_defined hload hrev h .repeat e.x e.y

theorem run_defined (hrev : RevertsGiven xml.toKeyboardNode) {s : State}
    (h : Defined xml.toKeyboardNode s.currentLayout) (events : List Event) :
    ∃ s', run (construct t xml.toKeyboardNode) s events = some s' ∧
      Defined xml.toKeyboardNode s'.currentLayout := by
  induction events generalizing s with
  | nil => exact ⟨s, rfl, h⟩
  | cons e events ih =>
    obtain ⟨s1, hs1, h1⟩ := notifyTouch_defined hload hrev h e
    obtain ⟨s2, hs2, h2⟩ := ih h1
    refine ⟨s2, ?_, h2⟩
    rw [run, hs1]
    exact hs2

end

/-! ### Presses -/

/-- A touch starts, moves and ends. -/
def press (x y : Int) (drags : List (Int × Int)) (x' y' : Int) : List Event :=
  ⟨true, .start, x, y⟩ ::
    (drags.map (fun p => ⟨true, .drag, p.1, p.2⟩) ++ [⟨true, .release, x', y'⟩])

/-- The start and the end are in the rectangle of a key and in the region of the keyboard, and not
more than half of its width apart. -/
structure Press (kb : Keyboard) (lay : Layout) (row col : Nat) (x y x' y' : Int) : Prop where
  inRegion : kb.IsInRegion x y = true
  inKey : InKey kb lay row col x y
  inRegion' : kb.IsInRegion x' y' = true
  inKey' : InKey kb lay row col x' y'
  no_swipe : -kb.mRenderW ≤ 2 * (x' - x) ∧ 2 * (x' - x) ≤ kb.mRenderW

theorem run_drags (kb : Keyboard) (s : State) (drags : List (Int × Int)) (events : List Event) :
    run kb s (drags.map (fun p => ⟨true, .drag, p.1, p.2⟩) ++ events) = run kb s events := by
  induction drags with
  | nil => rfl
  | cons p drags ih =>
    rw [List.map_cons, List.cons_append, run]
    exact ih

section

variable {t : Theme} {xml : KeyboardXml t} (hload : Loads t xml.toKeyboardNode)

include hload

theorem hitTestKey_inKey {n : Int} (h : Defined xml.toKeyboardNode n) {node : LayoutNode}
    (hn : xml.layouts[(n - 1).toNat]? = some node) {row col : Nat} {nodes : List KeyNode}
    {key : KeyNode} (hr : node.rows[row]? = some nodes) (hk : nodes[col]? = some key) {x y : Int}
    (hregion : (construct t xml.toKeyboardNode).IsInRegion x y = true)
    (hin : InKey (construct t xml.toKeyboardNode) (node.table t) row col x y) :
    (construct t xml.toKeyboardNode).HitTestKey n x y = some
      (if ((node.table t).key row col).key ≠ 0 ∨ ((node.table t).key row col).layout ≠ 0 then
        some ⟨n, row, col⟩
      else none) := by
  obtain ⟨node', hn', hlay⟩ := layout_eq hload h
  obtain rfl : node' = node := Option.some.inj (hn'.symm.trans hn)
  obtain ⟨h1, h2, h3, h4⟩ := hin
  rw [Keyboard.HitTestKey, if_neg (by rw [hregion]; decide), hlay, Option.map_some,
    hitKey_eq (hload.layouts_load node' (List.mem_of_getElem? hn)) hr hk ⟨by lia, by lia⟩
      ⟨by lia, by lia⟩]
  split <;> rfl

/-- A press and a release in the rectangle of a key do what its record says. -/
theorem press_release {s : State} (h : Defined xml.toKeyboardNode s.currentLayout)
    {node : LayoutNode} (hn : xml.layouts[(s.currentLayout - 1).toNat]? = some node)
    {row col : Nat} {nodes : List KeyNode} {key : KeyNode} (hr : node.rows[row]? = some nodes)
    (hk : nodes[col]? = some key) {x y x' y' : Int}
    (hp : Press (construct t xml.toKeyboardNode) (node.table t) row col x y x' y')
    (drags : List (Int × Int)) :
    ∃ s', run (construct t xml.toKeyboardNode) s (press x y drags x' y') = some s' ∧
      Performs (node.table t).reverts ((node.table t).key row col).function s s' := by
  have hhit := hitTestKey_inKey hload h hn hr hk hp.inRegion hp.inKey
  have hhit' := hitTestKey_inKey hload h hn hr hk hp.inRegion' hp.inKey'
  obtain ⟨node', hn', hlay⟩ := layout_eq hload h
  obtain rfl : node' = node := Option.some.inj (hn'.symm.trans hn)
  have hleft := hp.no_swipe.1
  have hright := hp.no_swipe.2
  rw [press, run, NotifyTouch, if_neg (by exact fun h => nomatch h)]
  dsimp only
  rw [hhit, Option.map_some, Option.bind_some, run_drags, run, NotifyTouch,
    if_neg (by exact fun h => nomatch h)]
  dsimp only
  rw [if_neg (by lia), if_neg (by lia), notifyKey]
  by_cases hfun : ((node'.table t).key row col).key ≠ 0 ∨ ((node'.table t).key row col).layout ≠ 0
  · rw [if_pos hfun] at hhit' ⊢
    dsimp only
    generalize hs1 : State.highlight _ TouchState.release = s1
    have hmode : s1.mode = s.mode ∧ s1.sent = s.sent ∧ s1.was_held = false := by
      rw [← hs1]
      exact ⟨rfl, rfl, rfl⟩
    have hcur : s1.currentLayout = s.currentLayout := congrArg Mode.layout hmode.1
    have hkey : (construct t xml.toKeyboardNode).key ⟨s.currentLayout, row, col⟩ =
        (node'.table t).key row col := by
      rw [Keyboard.key, hlay]
      rfl
    rw [notifyCurrentKey, hcur, hhit', Option.bind_eq_bind, Option.bind_some,
      if_neg (not_not.2 rfl), hkey, hlay, Option.bind_eq_bind, Option.bind_some,
      if_pos ⟨rfl, hmode.2.2⟩]
    refine ⟨_, rfl, ?_⟩
    have := trigger_performs (node'.table t) ((node'.table t).key row col) s1
    rwa [Performs, hmode.1, hmode.2.1] at this
  · rw [if_neg hfun]
    obtain ⟨hk0, hl0⟩ := not_or.1 hfun
    have hnothing : ((node'.table t).key row col).function = .nothing := by
      rw [Key.function, not_not.1 hk0, not_not.1 hl0]
      rfl
    refine ⟨_, rfl, ?_⟩
    rw [hnothing, Performs, unhighlight_mode, unhighlight_sent]
    exact ⟨rfl, (List.append_nil _).symm⟩

end

/-! ### What the XML says -/

/-- Where a layout of capitals goes back to. -/
def LayoutNode.reverts (node : LayoutNode) : Option Int :=
  if node.capslock = 0 then node.revert_layout else none

/-- Every key does what its attributes say. -/
def FaithfulTable (t : Theme) (xml : KeyboardNode) : Prop :=
  ∀ (l row col : Nat) (node : LayoutNode) (nodes : List KeyNode) (key : KeyNode),
    xml.layouts[l]? = some node → node.rows[row]? = some nodes → nodes[col]? = some key →
    ∃ lay : Layout, (construct t xml).layouts[l]? = some lay ∧
      FaithfulKey t (node.keyWidth t) nodes col key (lay.key row col)

/-- No key that switches layouts has a long press, and no long press switches layouts. -/
def Unclashed (t : Theme) (xml : KeyboardNode) : Prop :=
  ∀ node ∈ xml.layouts, ∀ nodes ∈ node.rows, ∀ key ∈ nodes, NoClash t (node.keyWidth t) key

/-- After all touches the current layout is defined. -/
def LayoutsDefined (t : Theme) (xml : KeyboardNode) : Prop :=
  ∀ CtrlActive was_held startX events,
    ∃ s, run (construct t xml) (init CtrlActive was_held startX) events = some s ∧
      Defined xml s.currentLayout

/-- After all touches, a press of a key of the current layout does what its attribute says. -/
def PressesPerform (t : Theme) (xml : KeyboardNode) : Prop :=
  ∀ CtrlActive was_held startX events s,
    run (construct t xml) (init CtrlActive was_held startX) events = some s →
    ∀ (row col : Nat) (node : LayoutNode) (nodes : List KeyNode) (key : KeyNode),
      xml.layouts[(s.currentLayout - 1).toNat]? = some node →
      node.rows[row]? = some nodes → nodes[col]? = some key → ∀ x y x' y' drags,
      Press (construct t xml) (node.table t) row col x y x' y' →
      ∃ s', run (construct t xml) s (press x y drags x' y') = some s' ∧
        Performs node.reverts (key.function t (node.keyWidth t)) s s'

theorem table_reverts {t : Theme} {xml : KeyboardNode} (h : RevertsGiven xml) {node : LayoutNode}
    (hn : node ∈ xml.layouts) : (node.table t).reverts = node.reverts := by
  rw [Layout.reverts, LayoutNode.reverts, LayoutNode.table]
  by_cases hc : node.capslock = 0
  · obtain ⟨r, hr⟩ := Option.ne_none_iff_exists'.1 (h node hn hc)
    simp [hc, hr]
  · simp [hc]

theorem faithfulTable_iff {t : Theme} {xml : KeyboardXml t} (hload : Loads t xml.toKeyboardNode) :
    FaithfulTable t xml.toKeyboardNode ↔ Unclashed t xml.toKeyboardNode := by
  have hiff : ∀ (l row col : Nat) (node : LayoutNode) (nodes : List KeyNode) (key : KeyNode),
      xml.layouts[l]? = some node → node.rows[row]? = some nodes → nodes[col]? = some key →
      (FaithfulKey t (node.keyWidth t) nodes col key ((node.table t).key row col) ↔
        NoClash t (node.keyWidth t) key) := by
    intro l row col node nodes key hl hr hk
    rw [table_key hr hk]
    exact faithfulKey_iff hk (xml.keys_refer node (List.mem_of_getElem? hl) nodes
      (List.mem_of_getElem? hr) key (List.mem_of_getElem? hk)).1
  constructor
  · intro h node hl nodes hr key hk
    obtain ⟨l, hl⟩ := List.getElem?_of_mem hl
    obtain ⟨row, hr⟩ := List.getElem?_of_mem hr
    obtain ⟨col, hk⟩ := List.getElem?_of_mem hk
    obtain ⟨lay, hlay, hf⟩ := h l row col node nodes key hl hr hk
    rw [construct_layout hload hl] at hlay
    obtain rfl := Option.some.inj hlay
    exact (hiff l row col node nodes key hl hr hk).1 hf
  · intro h l row col node nodes key hl hr hk
    exact ⟨_, construct_layout hload hl, (hiff l row col node nodes key hl hr hk).2
      (h node (List.mem_of_getElem? hl) nodes (List.mem_of_getElem? hr) key
        (List.mem_of_getElem? hk))⟩

/-- For XML that is read to its end: the table is as it says just when long presses meet no switch
of layouts, the layouts are defined when all layouts of capitals go back to one, and when both is
so presses do what the attributes say. -/
theorem keyboard_spec (t : Theme) (xml : KeyboardXml t) (hload : Loads t xml.toKeyboardNode) :
    (FaithfulTable t xml.toKeyboardNode ↔ Unclashed t xml.toKeyboardNode) ∧
      (RevertsGiven xml.toKeyboardNode → LayoutsDefined t xml.toKeyboardNode) ∧
      (Unclashed t xml.toKeyboardNode → RevertsGiven xml.toKeyboardNode →
        PressesPerform t xml.toKeyboardNode) := by
  have hstart : Defined xml.toKeyboardNode 1 := by
    have := List.length_pos_of_ne_nil hload.layouts_ne
    exact ⟨Int.le_refl 1, by omega⟩
  refine ⟨faithfulTable_iff hload, fun hrev CtrlActive was_held startX events => ?_, ?_⟩
  · exact run_defined hload hrev hstart events
  · intro hun hrev CtrlActive was_held startX events s hs row col node nodes key hn hr hk
      x y x' y' drags hp
    obtain ⟨s1, hs1, hdef⟩ := run_defined hload hrev (s := init CtrlActive was_held startX)
      hstart events
    obtain rfl : s1 = s := Option.some.inj (hs1.symm.trans hs)
    obtain ⟨s', hs', hperf⟩ := press_release hload hdef hn hr hk hp drags
    obtain ⟨lay, hlay, hf⟩ :=
      (faithfulTable_iff hload).2 hun _ row col node nodes key hn hr hk
    rw [construct_layout hload hn] at hlay
    obtain rfl := Option.some.inj hlay
    rw [hf.function, table_reverts hrev (List.mem_of_getElem? hn)] at hperf
    exact ⟨s', hs', hperf⟩

/-! ### Two layouts -/

/-- Lengths are not scaled. -/
def plainTheme : Theme := ⟨id, id, false⟩

/-- `9:layout2` and `9:layout1`. -/
def toLayout2 : Str := [57, 58, 108, 97, 121, 111, 117, 116, 50]
def toLayout1 : Str := [57, 58, 108, 97, 121, 111, 117, 116, 49]

/-- A key that switches to the second layout, with or without `long01="a"`, and a layout of capitals
that goes back. -/
def twoLayouts (long : Option Str) : KeyboardNode where
  layouts := [
    ⟨10, 10, 1, none, [[⟨toLayout2, long⟩, ⟨[97], some [49]⟩]]⟩,
    ⟨10, 10, 0, some 1, [[⟨toLayout1, none⟩, ⟨[65], none⟩]]⟩]
  x := 0
  y := 0
  w := 40
  h := 10

theorem refersTo_single (c : UInt8) (n : Nat) : RefersTo plainTheme n [c] := by
  intro keyWidth d hd m hm
  obtain rfl : (⟨keyWidth, .ofKey (plainTheme.char c)⟩ : Definition) = d := Option.some.inj hd
  exact absurd hm (KeyFunction.ofKey_ne_layout _ m)

theorem definition_toLayout2 (keyWidth : Int) :
    definition plainTheme keyWidth toLayout2 = some ⟨9, .layout 2⟩ := rfl

theorem definition_toLayout1 (keyWidth : Int) :
    definition plainTheme keyWidth toLayout1 = some ⟨9, .layout 1⟩ := rfl

theorem refersTo_of_eq {s : Str} {w n : Int} (hn : 1 ≤ n ∧ n ≤ 2)
    (h : ∀ keyWidth, definition plainTheme keyWidth s = some ⟨w, .layout n⟩) :
    RefersTo plainTheme 2 s := by
  intro keyWidth d hd m hm
  obtain rfl := Option.some.inj ((h keyWidth).symm.trans hd)
  injection hm with hm
  rwa [← hm]

def twoLayoutsXml (long : Option Str) (hlong : ∀ s, long = some s → s = [97]) :
    KeyboardXml plainTheme where
  toKeyboardNode := twoLayouts long
  keys_refer := by
    have h1 : RefersTo plainTheme 2 toLayout1 := refersTo_of_eq (by decide) definition_toLayout1
    have h2 : RefersTo plainTheme 2 toLayout2 := refersTo_of_eq (by decide) definition_toLayout2
    change ∀ lay ∈ (twoLayouts long).layouts, ∀ row ∈ lay.rows, ∀ node ∈ row,
      RefersTo plainTheme 2 node.key ∧ ∀ s, node.long = some s → RefersTo plainTheme 2 s
    intro lay hlay row hrow node hnode
    simp only [twoLayouts, List.mem_cons, List.not_mem_nil, or_false] at hlay
    rcases hlay with rfl | rfl
    · rw [List.mem_singleton.1 hrow, List.mem_cons, List.mem_singleton] at hnode
      rcases hnode with rfl | rfl
      · refine ⟨h2, fun s hs => ?_⟩
        rw [hlong s hs]
        exact refersTo_single 97 2
      · refine ⟨refersTo_single 97 2, fun s hs => ?_⟩
        rw [← Option.some.inj hs]
        exact refersTo_single 49 2
    · rw [List.mem_singleton.1 hrow, List.mem_cons, List.mem_singleton] at hnode
      rcases hnode with rfl | rfl
      · exact ⟨h1, fun s hs => nomatch hs⟩
      · exact ⟨refersTo_single 65 2, fun s hs => nomatch hs⟩
  reverts_refer := by
    intro lay hlay n hn
    simp only [twoLayouts, List.mem_cons, List.not_mem_nil, or_false] at hlay
    rcases hlay with rfl | rfl
    · exact nomatch hn
    · rw [← Option.some.inj hn]
      exact ⟨Int.le_refl 1, show (1 : Int) ≤ 2 by decide⟩

theorem twoLayouts_loads (long : Option Str) (hlong : long ≠ some []) :
    Loads plainTheme (twoLayouts long) := by
  have hsingle : ∀ (c : UInt8) (long : Option Str), long ≠ some [] →
      KeyNode.Loads plainTheme 10 ⟨[c], long⟩ := by
    intro c long hl
    exact ⟨⟨_, definition_single c 10, show (0 : Int) ≤ 10 by decide⟩, hl⟩
  have hrow1 : RowLoads plainTheme 10 [⟨toLayout2, long⟩, ⟨[97], some [49]⟩] := by
    have hwidth : rowWidth plainTheme 10 [⟨toLayout2, long⟩, ⟨[97], some [49]⟩] = 19 := by
      simp only [rowWidth, List.map_cons, List.map_nil, KeyNode.width, definition_toLayout2,
        definition_single, Option.map_some, Option.getD_some]
      decide
    refine ⟨fun node hnode => ?_, show 2 ≤ 20 by decide, by rw [hwidth]; decide⟩
    rw [List.mem_cons, List.mem_singleton] at hnode
    rcases hnode with rfl | rfl
    · exact ⟨⟨_, definition_toLayout2 10, by decide⟩, hlong⟩
    · exact hsingle 97 _ (by decide)
  have hrow2 : RowLoads plainTheme 10 [⟨toLayout1, none⟩, ⟨[65], none⟩] := by
    refine ⟨fun node hnode => ?_, by decide, by decide⟩
    rw [List.mem_cons, List.mem_singleton] at hnode
    rcases hnode with rfl | rfl
    · exact ⟨⟨_, definition_toLayout1 10, by decide⟩, by decide⟩
    · exact hsingle 65 _ (by decide)
  refine ⟨fun lay hlay => ?_, show 2 ≤ 5 by decide, List.cons_ne_nil _ _⟩
  simp only [twoLayouts, List.mem_cons, List.not_mem_nil, or_false] at hlay
  rcases hlay with rfl | rfl
  · refine ⟨fun nodes hn => ?_, show 1 ≤ 9 by decide, fun k hk => ?_⟩
    · rw [List.mem_singleton.1 hn]
      exact hrow1
    · change k ≤ 1 at hk
      change -2 ^ 31 ≤ (k : Int) * 10 ∧ (k : Int) * 10 < 2 ^ 31
      lia
  · refine ⟨fun nodes hn => ?_, show 1 ≤ 9 by decide, fun k hk => ?_⟩
    · rw [List.mem_singleton.1 hn]
      exact hrow2
    · change k ≤ 1 at hk
      change -2 ^ 31 ≤ (k : Int) * 10 ∧ (k : Int) * 10 < 2 ^ 31
      lia

theorem twoLayouts_reverts (long : Option Str) : RevertsGiven (twoLayouts long) := by
  intro lay hlay hcaps
  simp only [twoLayouts, List.mem_cons, List.not_mem_nil, or_false] at hlay
  rcases hlay with rfl | rfl
  · exact absurd hcaps (show ¬ (1 : Int) = 0 by decide)
  · exact fun h => nomatch h

theorem twoLayouts_unclashed : Unclashed plainTheme (twoLayouts none) := by
  have hsingle : ∀ (c d : UInt8), NoClash plainTheme 10 ⟨[c], some [d]⟩ := by
    intro c d
    exact .inr ⟨KeyFunction.ofKey_ne_layout _, KeyFunction.ofKey_ne_layout _⟩
  intro lay hlay nodes hn key hk
  simp only [twoLayouts, List.mem_cons, List.not_mem_nil, or_false] at hlay
  rcases hlay with rfl | rfl
  · rw [List.mem_singleton.1 hn, List.mem_cons, List.mem_singleton] at hk
    rcases hk with rfl | rfl
    · exact .inl rfl
    · exact hsingle 97 49
  · rw [List.mem_singleton.1 hn, List.mem_cons, List.mem_singleton] at hk
    rcases hk with rfl | rfl <;> exact .inl rfl

theorem keyboard_spec_twoLayouts :
    FaithfulTable plainTheme (twoLayouts none) ∧ LayoutsDefined plainTheme (twoLayouts none) ∧
      PressesPerform plainTheme (twoLayouts none) := by
  obtain ⟨h1, h2, h3⟩ := keyboard_spec plainTheme (twoLayoutsXml none fun _ h => nomatch h)
    (twoLayouts_loads none (by decide))
  have hrev := twoLayouts_reverts none
  exact ⟨h1.2 twoLayouts_unclashed, h2 hrev, h3 twoLayouts_unclashed hrev⟩

/-- With `long01="a"` the first key switches to no layout any more: it does nothing. -/
theorem layout_key_lost :
    KeyNode.function plainTheme 10 ⟨toLayout2, some [97]⟩ = .layout 2 ∧
    ((construct plainTheme (twoLayouts (some [97]))).layout 1).map (·.key 0 0) =
      some ⟨0, 97, 8, 0⟩ ∧
    (∀ CtrlActive was_held startX,
      (run (construct plainTheme (twoLayouts (some [97]))) (init CtrlActive was_held startX)
        (press 3 3 [] 3 3)).map (fun s => (s.currentLayout, s.sent)) = some (1, [])) ∧
    ¬ FaithfulTable plainTheme (twoLayouts (some [97])) := by
  have hfun : KeyNode.function plainTheme 10 ⟨toLayout2, some [97]⟩ = .layout 2 := rfl
  have hkey : ((construct plainTheme (twoLayouts (some [97]))).layout 1).map (·.key 0 0) =
      some ⟨0, 97, 8, 0⟩ := by decide +kernel
  refine ⟨hfun, hkey, fun CtrlActive was_held startX => ?_, fun h => ?_⟩
  · cases CtrlActive <;> cases was_held <;> rfl
  · obtain ⟨lay, hlay, hf⟩ := h 0 0 0 _ _ _ rfl rfl rfl
    have hk : lay.key 0 0 = ⟨0, 97, 8, 0⟩ := by
      change ((construct plainTheme (twoLayouts (some [97]))).layouts[0]?).map (·.key 0 0) = _
        at hkey
      rw [hlay] at hkey
      exact Option.some.inj hkey
    have hf' := hf.function
    rw [hk] at hf'
    exact nomatch hf'.trans hfun

end Recovery.Gui.GUIKeyboard
