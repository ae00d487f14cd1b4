import Recovery.Fstab.Flags
import Recovery.Gui.InputHandler
import Recovery.Lib.CInt

/-!
# The keyboard and its tables (`gui/keyboard.cpp`)

* `Theme` — how lengths are scaled, and whether `char` has a sign.
* `KeyNode`, `LayoutNode`, `KeyboardNode` — the XML; `KeyboardXml` — its layout numbers are those
  of layouts that are defined.
* `KeyFunction`, `definition` — what an attribute says that a key does.
* `ParseKey`, `loadKeys`, `loadRows`, `loadLayouts`, `construct` — as in the source.
* `ParseKey_eq` — what a definition does to the record of a key.
* `Loads` — XML that is read to its end; `construct_layout`, `table_key` — what is in the table
  then.
* `FaithfulKey`, `faithfulKey_iff` — when a key does what its attributes say.
-/

set_option autoImplicit false

namespace Recovery.Gui.GUIKeyboard

open Recovery.Lib (toInt toInt_eq)
open Recovery.Fstab (atoi)

abbrev Str := List UInt8

def MAX_KEYBOARD_LAYOUTS : Nat := 5
def MAX_KEYBOARD_ROWS : Nat := 9
def MAX_KEYBOARD_KEYS : Nat := 20

def KEYBOARD_ACTION : Int := 13
def KEYBOARD_BACKSPACE : Int := 8
def KEYBOARD_SWIPE_LEFT : Int := 21
def KEYBOARD_SWIPE_RIGHT : Int := 11

def KEY_LEFTCTRL : Int := 29
def KEY_UP : Int := 103
def KEY_LEFT : Int := 105
def KEY_RIGHT : Int := 106
def KEY_DOWN : Int := 108

structure Theme where
  scale_theme_x : Int → Int
  scale_theme_y : Int → Int
  signedChar : Bool

/-- The value of a `char`. -/
def Theme.char (t : Theme) (c : UInt8) : Int :=
  if t.signedChar ∧ 128 ≤ c then c.toNat - 256 else c.toNat

/-! ### The XML -/

/-- The attributes `keyNN` and `longNN`. -/
structure KeyNode where
  key : Str
  long : Option Str

/-- A layout with its rows of keys; numbers are those of the attributes or their defaults. -/
structure LayoutNode where
  height : Int
  width : Int
  capslock : Int
  revert_layout : Option Int
  rows : List (List KeyNode)

/-- The layouts, and the placement. -/
structure KeyboardNode where
  layouts : List LayoutNode
  x : Int
  y : Int
  w : Int
  h : Int

/-! ### What a definition says -/

inductive KeyFunction where
  | nothing
  | char (c : Int)
  | code (k : Int)
  | layout (n : Int)
  | action
  | ctrl
  deriving DecidableEq

namespace KeyFunction

/-- Of a number: positive ones are characters, negative ones key codes. -/
def ofKey (key : Int) : KeyFunction :=
  if key = KEYBOARD_ACTION then .action
  else if key = -KEY_LEFTCTRL then .ctrl
  else if 0 < key then .char key
  else if key < 0 then .code (-key)
  else .nothing

/-- The number in the record of a key. -/
def key : KeyFunction → Int
  | .nothing => 0
  | .char c => c
  | .code k => -k
  | .layout _ => 0
  | .action => KEYBOARD_ACTION
  | .ctrl => -KEY_LEFTCTRL

/-- The layout in the record of a key. -/
def layoutNumber : KeyFunction → Int
  | .layout n => n
  | _ => 0

theorem key_ofKey (k : Int) : (ofKey k).key = k := by
  unfold ofKey
  split
  · rename_i h
    exact h.symm
  · split
    · rename_i h
      exact h.symm
    · split
      · rfl
      · split
        · exact Int.neg_neg k
        · exact (by lia : (0 : Int) = k)

theorem layoutNumber_ofKey (k : Int) : (ofKey k).layoutNumber = 0 := by
  unfold ofKey
  split
  · rfl
  · split
    · rfl
    · split
      · rfl
      · split <;> rfl

theorem ofKey_ne_layout (k n : Int) : ofKey k ≠ .layout n := by
  unfold ofKey
  split
  · exact fun h => nomatch h
  · split
    · exact fun h => nomatch h
    · split
      · exact fun h => nomatch h
      · split <;> exact fun h => nomatch h

end KeyFunction

/-- Behind the first colon, when no blank comes before it. -/
def afterColon (t : Theme) : Str → Option Str
  | [] => none
  | c :: s => if c = 58 then some s else if 32 < t.char c then afterColon t s else none

/-- Behind the width: a character, `c:` and its code, `k:` and the code of a key, `layout` and a
number, or `action`. -/
def meaning (t : Theme) (s : Str) : Option KeyFunction :=
  match s with
  | [] => some .nothing
  | [c] => some (.ofKey (t.char c))
  | c :: _ =>
    if c = 99 then some (.ofKey (atoi (s.drop 2)))
    else if c = 107 then some (.ofKey (toInt (-atoi (s.drop 2))))
    else if c = 108 then some (.layout (atoi (s.drop 6)))
    else if c = 97 then some .action
    else none

structure Definition where
  width : Int
  function : KeyFunction

/-- A single character of the default width, or a width, a colon and what the key does. -/
def definition (t : Theme) (keyWidth : Int) (s : Str) : Option Definition :=
  match s with
  | [c] => some ⟨keyWidth, .ofKey (t.char c)⟩
  | _ => (afterColon t s).bind fun what =>
      (meaning t what).map fun f => ⟨t.scale_theme_x (atoi s), f⟩

/-- The layout number of a definition is that of one of `n` layouts. -/
def RefersTo (t : Theme) (n : Nat) (s : Str) : Prop :=
  ∀ keyWidth d, definition t keyWidth s = some d → ∀ m, d.function = .layout m → 1 ≤ m ∧ m ≤ n

structure KeyboardXml (t : Theme) extends KeyboardNode where
  keys_refer : ∀ lay ∈ layouts, ∀ row ∈ lay.rows, ∀ node ∈ row,
    RefersTo t layouts.length node.key ∧ ∀ s, node.long = some s → RefersTo t layouts.length s
  reverts_refer : ∀ lay ∈ layouts, ∀ n, lay.revert_layout = some n → 1 ≤ n ∧ n ≤ layouts.length

/-! ### The source -/

structure Key where
  key : Int
  longpresskey : Int
  end_x : Int
  layout : Int
  deriving DecidableEq

/-- After `memset`. -/
def Key.zero : Key := ⟨0, 0, 0, 0⟩

/-- The end of `ParseKey`, when there was no error. -/
def store (key : Key) (Xindex keyWidth keychar : Int) (longpress : Bool) : Key × Int × Int :=
  if longpress then ({ key with longpresskey := keychar }, Xindex, 0)
  else
    let Xindex := toInt (Xindex + keyWidth)
    ({ key with key := keychar, end_x := toInt (Xindex - 1) }, Xindex, 0)

/-- `ParseKey` behind the colon. -/
def parseAfterColon (t : Theme) (ptr : Str) (key : Key) (Xindex keyWidth : Int)
    (longpress : Bool) : Key × Int × Int :=
  match ptr with
  | [] => store key Xindex keyWidth 0 longpress
  | [c] => store key Xindex keyWidth (t.char c) longpress
  | c :: _ =>
    if c = 99 then store key Xindex keyWidth (atoi (ptr.drop 2)) longpress
    else if c = 107 then store key Xindex keyWidth (toInt (-atoi (ptr.drop 2))) longpress
    else if c = 108 then store { key with layout := atoi (ptr.drop 6) } Xindex keyWidth 0 longpress
    else if c = 97 then store key Xindex keyWidth KEYBOARD_ACTION longpress
    else (key, Xindex, -1)

/-- The record of the key, `Xindex`, and what is returned. -/
def ParseKey (t : Theme) (keyinfo : Str) (key : Key) (Xindex keyWidth : Int) (longpress : Bool) :
    Key × Int × Int :=
  let key := { key with layout := 0 }
  match keyinfo with
  | [c] => store key Xindex keyWidth (t.char c) longpress
  | _ =>
    match afterColon t keyinfo with
    | none => (key, Xindex, -1)
    | some ptr => parseAfterColon t ptr key Xindex (t.scale_theme_x (atoi keyinfo)) longpress

/-- The loop over the keys of a row; nothing more is read after an error. -/
def loadKeys (t : Theme) (keyWidth : Int) : Nat → Int → List KeyNode → List Key × Bool
  | _, _, [] => ([], true)
  | keyindex, Xindex, node :: nodes =>
    if keyindex > MAX_KEYBOARD_KEYS then ([], false)
    else if node.key = [] then ([], false)
    else
      let (key, Xindex, _) := ParseKey t node.key .zero Xindex keyWidth false
      match node.long with
      | none =>
        let (keys, go) := loadKeys t keyWidth (keyindex + 1) Xindex nodes
        (key :: keys, go)
      | some keyinfo =>
        if keyinfo = [] then ([key], false)
        else
          let (key, Xindex, _) := ParseKey t keyinfo key Xindex keyWidth true
          let (keys, go) := loadKeys t keyWidth (keyindex + 1) Xindex nodes
          (key :: keys, go)

/-- A row of the table: its lower edge and its keys. -/
structure Row where
  end_y : Int
  keys : List Key

/-- The loop over the rows: the name of the tenth would be `row:`. -/
def loadRows (t : Theme) (keyHeight keyWidth : Int) :
    Nat → Int → List (List KeyNode) → List Row × Bool
  | _, _, [] => ([], true)
  | rowindex, Yindex, row :: rows =>
    if rowindex > MAX_KEYBOARD_ROWS then ([], true)
    else
      let Yindex := toInt (Yindex + keyHeight)
      let (keys, go) := loadKeys t keyWidth 1 0 row
      if go then
        let (table, go) := loadRows t keyHeight keyWidth (rowindex + 1) Yindex rows
        (⟨Yindex, keys⟩ :: table, go)
      else ([⟨Yindex, keys⟩], false)

structure Layout where
  rows : List Row
  is_caps : Bool
  revert_layout : Int

namespace Layout

variable (lay : Layout)

/-- `keys[row][col]`; a key that was not loaded is zero. -/
def key (row col : Nat) : Key := ((lay.rows[row]?).bind (·.keys[col]?)).getD .zero

def row_end_y (row : Nat) : Int := ((lay.rows[row]?).map (·.end_y)).getD 0

/-- The left edge of a key, `x1`. -/
def x1 (row : Nat) : Nat → Int
  | 0 => 0
  | col + 1 => (lay.key row col).end_x

/-- The upper edge of a row, `y1`. -/
def y1 : Nat → Int
  | 0 => 0
  | row + 1 => lay.row_end_y row

end Layout

/-- The loop over the layouts. -/
def loadLayouts (t : Theme) : Nat → List LayoutNode → List Layout × Bool
  | _, [] => ([], true)
  | layoutindex, node :: nodes =>
    if layoutindex > MAX_KEYBOARD_LAYOUTS then ([], false)
    else
      let keyHeight := t.scale_theme_y node.height
      let keyWidth := t.scale_theme_x node.width
      let (rows, go) := loadRows t keyHeight keyWidth 1 0 node.rows
      let lay : Layout := ⟨rows, node.capslock = 0, node.revert_layout.getD (-1)⟩
      if go then
        let (lays, go) := loadLayouts t (layoutindex + 1) nodes
        (lay :: lays, go)
      else ([lay], false)

/-- What the constructor makes. -/
structure Keyboard where
  layouts : List Layout
  mRenderX : Int
  mRenderY : Int
  mRenderW : Int
  mRenderH : Int
  mActionX : Int
  mActionY : Int
  mActionW : Int
  mActionH : Int

/-- A layout that was not loaded has no keys; its other fields are never read. -/
def Layout.unused : Layout := ⟨[], false, 0⟩

/-- `SetActionPos` refuses negative coordinates. -/
def construct (t : Theme) (node : KeyboardNode) : Keyboard :=
  let (lays, go) := loadLayouts t 1 node.layouts
  let layouts := lays ++ List.replicate (MAX_KEYBOARD_LAYOUTS - lays.length) .unused
  let sized := node.w ≠ 0 ∨ node.h ≠ 0
  let placed := 0 ≤ node.x ∧ 0 ≤ node.y
  if go then {
    layouts := layouts
    mRenderX := node.x
    mRenderY := node.y
    mRenderW := if sized then node.w else 0
    mRenderH := if sized then node.h else 0
    mActionX := if placed then node.x else 0
    mActionY := if placed then node.y else 0
    mActionW := if placed ∧ sized then node.w else 0
    mActionH := if placed ∧ sized then node.h else 0 }
  else ⟨layouts, 0, 0, 0, 0, 0, 0, 0, 0⟩

/-! ### Definitions and records -/

section

variable {t : Theme}

/-- The function is that of its numbers. -/
theorem ofKey_key {s : Str} {f : KeyFunction} (h : meaning t s = some f) :
    (∃ n, f = .layout n) ∨ .ofKey f.key = f ∧ f.layoutNumber = 0 := by
  have hkey : ∀ k, KeyFunction.ofKey (KeyFunction.ofKey k).key = .ofKey k ∧
      (KeyFunction.ofKey k).layoutNumber = 0 :=
    fun k => ⟨by rw [KeyFunction.key_ofKey], KeyFunction.layoutNumber_ofKey k⟩
  unfold meaning at h
  split at h
  · cases h
    exact .inr ⟨rfl, rfl⟩
  · cases h
    exact .inr (hkey _)
  · split at h
    · cases h
      exact .inr (hkey _)
    · split at h
      · cases h
        exact .inr (hkey _)
      · split at h
        · cases h
          exact .inl ⟨_, rfl⟩
        · split at h
          · cases h
            exact .inr ⟨rfl, rfl⟩
          · cases h

theorem parseAfterColon_eq (ptr : Str) (key : Key) (Xindex keyWidth : Int) (longpress : Bool) :
    parseAfterColon t ptr { key with layout := 0 } Xindex keyWidth longpress =
      match meaning t ptr with
      | some f => store { key with layout := f.layoutNumber } Xindex keyWidth f.key longpress
      | none => ({ key with layout := 0 }, Xindex, -1) := by
  match ptr with
  | [] => rfl
  | [c] =>
    simp only [parseAfterColon, meaning, KeyFunction.key_ofKey, KeyFunction.layoutNumber_ofKey]
  | c :: c' :: rest =>
    rw [parseAfterColon, meaning]
    by_cases h1 : c = 99
    · rw [if_pos h1, if_pos h1]
      simp only [KeyFunction.key_ofKey, KeyFunction.layoutNumber_ofKey]
    · rw [if_neg h1, if_neg h1]
      by_cases h2 : c = 107
      · rw [if_pos h2, if_pos h2]
        simp only [KeyFunction.key_ofKey, KeyFunction.layoutNumber_ofKey]
      · rw [if_neg h2, if_neg h2]
        by_cases h3 : c = 108
        · rw [if_pos h3, if_pos h3]
          rfl
        · rw [if_neg h3, if_neg h3]
          by_cases h4 : c = 97
          · rw [if_pos h4, if_pos h4]
            rfl
          · rw [if_neg h4, if_neg h4]
    all_goals exact fun h => nomatch h

theorem ParseKey_long {s : Str} (hs : ∀ c, s ≠ [c]) (key : Key) (Xindex keyWidth : Int)
    (longpress : Bool) : ParseKey t s key Xindex keyWidth longpress =
      match afterColon t s with
      | none => ({ key with layout := 0 }, Xindex, -1)
      | some ptr => parseAfterColon t ptr { key with layout := 0 } Xindex
          (t.scale_theme_x (atoi s)) longpress := by
  match s, hs with
  | [], _ => rfl
  | [c], hs => exact absurd rfl (hs c)
  | _ :: _ :: _, _ => rfl

theorem definition_single (c : UInt8) (keyWidth : Int) :
    definition t keyWidth [c] = some ⟨keyWidth, .ofKey (t.char c)⟩ := rfl

theorem definition_long {s : Str} (hs : ∀ c, s ≠ [c]) (keyWidth : Int) :
    definition t keyWidth s = (afterColon t s).bind fun what =>
      (meaning t what).map fun f => ⟨t.scale_theme_x (atoi s), f⟩ := by
  match s, hs with
  | [], _ => rfl
  | [c], hs => exact absurd rfl (hs c)
  | _ :: _ :: _, _ => rfl

theorem single_or (s : Str) : (∃ c, s = [c]) ∨ ∀ c, s ≠ [c] := by
  by_cases h : ∃ c, s = [c]
  · exact .inl h
  · exact .inr fun c hc => h ⟨c, hc⟩

/-- What a definition does to a record; the layout is lost first. -/
theorem ParseKey_eq {s : Str} {keyWidth : Int} {d : Definition}
    (h : definition t keyWidth s = some d) (key : Key) (Xindex : Int) (longpress : Bool) :
    ParseKey t s key Xindex keyWidth longpress =
      store { key with layout := d.function.layoutNumber } Xindex d.width d.function.key
        longpress := by
  rcases single_or s with ⟨c, rfl⟩ | hs
  · obtain rfl : (⟨keyWidth, .ofKey (t.char c)⟩ : Definition) = d := Option.some.inj h
    simp only [ParseKey, KeyFunction.key_ofKey, KeyFunction.layoutNumber_ofKey]
  · rw [definition_long hs] at h
    obtain ⟨what, hw, hm⟩ := Option.bind_eq_some_iff.1 h
    obtain ⟨f, hf, rfl⟩ := Option.map_eq_some_iff.1 hm
    rw [ParseKey_long hs, hw]
    dsimp only
    rw [parseAfterColon_eq, hf]

theorem ParseKey_error {s : Str} {keyWidth : Int} (h : definition t keyWidth s = none)
    (key : Key) (Xindex : Int) (longpress : Bool) :
    ParseKey t s key Xindex keyWidth longpress = ({ key with layout := 0 }, Xindex, -1) := by
  rcases single_or s with ⟨c, rfl⟩ | hs
  · exact nomatch h
  · rw [definition_long hs] at h
    rw [ParseKey_long hs]
    cases hw : afterColon t s with
    | none => rfl
    | some what =>
      rw [hw] at h
      have hm : meaning t what = none := Option.map_eq_none_iff.1 h
      dsimp only
      rw [parseAfterColon_eq, hm]

theorem definition_function {s : Str} {keyWidth : Int} {d : Definition}
    (h : definition t keyWidth s = some d) :
    (∃ n, d.function = .layout n) ∨
      .ofKey d.function.key = d.function ∧ d.function.layoutNumber = 0 := by
  rcases single_or s with ⟨c, rfl⟩ | hs
  · obtain rfl : (⟨keyWidth, .ofKey (t.char c)⟩ : Definition) = d := Option.some.inj h
    exact .inr ⟨by rw [KeyFunction.key_ofKey], KeyFunction.layoutNumber_ofKey _⟩
  · rw [definition_long hs] at h
    obtain ⟨what, -, hm⟩ := Option.bind_eq_some_iff.1 h
    obtain ⟨f, hf, rfl⟩ := Option.map_eq_some_iff.1 hm
    exact ofKey_key hf

end

/-! ### What is read -/

section

variable (t : Theme) (keyWidth : Int)

/-- What an attribute says; nothing when it is wrong. -/
def functionOf (s : Str) : KeyFunction := ((definition t keyWidth s).map (·.function)).getD .nothing

namespace KeyNode

variable (node : KeyNode)

def width : Int := ((definition t keyWidth node.key).map (·.width)).getD 0

def function : KeyFunction := functionOf t keyWidth node.key

def longFunction : KeyFunction := (node.long.map (functionOf t keyWidth)).getD .nothing

/-- The record that is made of the attributes, where the keys before take `Xindex`. -/
def record (Xindex : Int) : Key where
  key := (node.function t keyWidth).key
  longpresskey := (node.longFunction t keyWidth).key
  end_x := Xindex + node.width t keyWidth - 1
  layout :=
    if node.long.isSome then (node.longFunction t keyWidth).layoutNumber
    else (node.function t keyWidth).layoutNumber

/-- The key is defined and takes no negative width, and a long press is not empty. -/
structure Loads : Prop where
  defined : ∃ d, definition t keyWidth node.key = some d ∧ 0 ≤ d.width
  long_ne : node.long ≠ some []

end KeyNode

/-- The records of the keys of a row. -/
def records : Int → List KeyNode → List Key
  | _, [] => []
  | Xindex, node :: nodes =>
    node.record t keyWidth Xindex :: records (Xindex + node.width t keyWidth) nodes

def rowWidth (nodes : List KeyNode) : Int := (nodes.map (·.width t keyWidth)).sum

variable {t keyWidth}

theorem KeyNode.Loads.width_nonneg {node : KeyNode} (h : node.Loads t keyWidth) :
    0 ≤ node.width t keyWidth := by
  obtain ⟨d, hd, hw⟩ := h.defined
  rw [KeyNode.width, hd]
  exact hw

theorem rowWidth_nonneg {nodes : List KeyNode} (h : ∀ node ∈ nodes, node.Loads t keyWidth) :
    0 ≤ rowWidth t keyWidth nodes := by
  induction nodes with
  | nil => exact Int.le_refl 0
  | cons node nodes ih =>
    have h1 := (h node List.mem_cons_self).width_nonneg
    have h2 := ih fun n hn => h n (List.mem_cons_of_mem _ hn)
    rw [rowWidth, List.map_cons, List.sum_cons]
    exact Int.add_nonneg h1 h2

/-- One key: the two definitions one after the other. -/
theorem parse_node {node : KeyNode} (h : node.Loads t keyWidth) {Xindex : Int} (h0 : 0 ≤ Xindex)
    (hfit : Xindex + node.width t keyWidth < 2 ^ 31) :
    ∃ key, ParseKey t node.key .zero Xindex keyWidth false =
        (key, Xindex + node.width t keyWidth, 0) ∧
      match node.long with
      | none => key = node.record t keyWidth Xindex
      | some s => ∃ ret, ParseKey t s key (Xindex + node.width t keyWidth) keyWidth true =
          (node.record t keyWidth Xindex, Xindex + node.width t keyWidth, ret) := by
  obtain ⟨d, hd, hw⟩ := h.defined
  have hwidth : node.width t keyWidth = d.width := by rw [KeyNode.width, hd]; rfl
  have hfun : node.function t keyWidth = d.function := by
    rw [KeyNode.function, functionOf, hd]
    rfl
  rw [hwidth] at hfit ⊢
  have h1 : toInt (Xindex + d.width) = Xindex + d.width := toInt_eq (by lia) hfit
  have h2 : toInt (Xindex + d.width - 1) = Xindex + d.width - 1 := toInt_eq (by lia) (by lia)
  refine ⟨⟨d.function.key, 0, Xindex + d.width - 1, d.function.layoutNumber⟩, ?_, ?_⟩
  · rw [ParseKey_eq hd]
    simp only [store, h1, h2, Bool.false_eq_true, if_false]
    rfl
  · cases hlong : node.long with
    | none => simp [KeyNode.record, KeyNode.longFunction, hlong, hfun, hwidth, KeyFunction.key]
    | some s =>
      have hlf : node.longFunction t keyWidth = functionOf t keyWidth s := by
        rw [KeyNode.longFunction, hlong]
        rfl
      simp only [KeyNode.record, hlong, hfun, hwidth, hlf, Option.isSome_some, if_true]
      cases hg : definition t keyWidth s with
      | none =>
        refine ⟨-1, ?_⟩
        rw [ParseKey_error hg, functionOf, hg]
        rfl
      | some g =>
        refine ⟨0, ?_⟩
        rw [ParseKey_eq hg, functionOf, hg]
        rfl

theorem loadKeys_eq {nodes : List KeyNode} (h : ∀ node ∈ nodes, node.Loads t keyWidth)
    {keyindex : Nat} (hi : keyindex + nodes.length ≤ MAX_KEYBOARD_KEYS + 1) {Xindex : Int}
    (h0 : 0 ≤ Xindex) (hfit : Xindex + rowWidth t keyWidth nodes < 2 ^ 31) :
    loadKeys t keyWidth keyindex Xindex nodes = (records t keyWidth Xindex nodes, true) := by
  induction nodes generalizing keyindex Xindex with
  | nil => rfl
  | cons node nodes ih =>
    have hnode := h node List.mem_cons_self
    have hnodes := fun n hn => h n (List.mem_cons_of_mem node hn)
    have hrest := rowWidth_nonneg hnodes
    have hw := hnode.width_nonneg
    rw [rowWidth, List.map_cons, List.sum_cons, ← rowWidth] at hfit
    rw [List.length_cons] at hi
    have ih' : loadKeys t keyWidth (keyindex + 1) (Xindex + node.width t keyWidth) nodes = _ :=
      ih hnodes (by lia) (by lia) (by lia)
    obtain ⟨key, hkey, hlong⟩ := parse_node hnode h0 (by lia)
    have hne : node.key ≠ [] := by
      intro hnil
      obtain ⟨d, hd, -⟩ := hnode.defined
      rw [hnil] at hd
      exact nomatch hd
    rw [loadKeys, if_neg (by lia), if_neg hne, hkey, records]
    dsimp only
    cases hl : node.long with
    | none =>
      rw [hl] at hlong
      dsimp only at hlong ⊢
      rw [ih', hlong]
    | some s =>
      rw [hl] at hlong
      obtain ⟨ret, hret⟩ := hlong
      dsimp only
      rw [if_neg fun hs => hnode.long_ne (by rw [hl, hs]), hret]
      dsimp only
      rw [ih']

theorem records_getElem? (Xindex : Int) (nodes : List KeyNode) (col : Nat) :
    (records t keyWidth Xindex nodes)[col]? = (nodes[col]?).map fun node =>
      node.record t keyWidth (Xindex + rowWidth t keyWidth (nodes.take col)) := by
  induction nodes generalizing Xindex col with
  | nil => rfl
  | cons node nodes ih =>
    cases col with
    | zero => simp [records, rowWidth]
    | succ col =>
      rw [records, List.getElem?_cons_succ, List.getElem?_cons_succ, ih, List.take_succ_cons]
      simp only [rowWidth, List.map_cons, List.sum_cons, Int.add_assoc]

/-- A row of keys that is read to its end. -/
structure RowLoads (t : Theme) (keyWidth : Int) (nodes : List KeyNode) : Prop where
  nodes_load : ∀ node ∈ nodes, node.Loads t keyWidth
  length_le : nodes.length ≤ MAX_KEYBOARD_KEYS
  width_lt : rowWidth t keyWidth nodes < 2 ^ 31

/-- The rows of the table. -/
def rowsFrom (t : Theme) (keyHeight keyWidth : Int) : Int → List (List KeyNode) → List Row
  | _, [] => []
  | Yindex, nodes :: rows =>
    ⟨Yindex + keyHeight, records t keyWidth 0 nodes⟩ ::
      rowsFrom t keyHeight keyWidth (Yindex + keyHeight) rows

theorem loadRows_eq {keyHeight : Int} {rows : List (List KeyNode)}
    (h : ∀ nodes ∈ rows, RowLoads t keyWidth nodes) {rowindex : Nat}
    (hi : rowindex + rows.length ≤ MAX_KEYBOARD_ROWS + 1) {Yindex : Int}
    (hfit : ∀ k : Nat, k ≤ rows.length →
      -2 ^ 31 ≤ Yindex + k * keyHeight ∧ Yindex + k * keyHeight < 2 ^ 31) :
    loadRows t keyHeight keyWidth rowindex Yindex rows =
      (rowsFrom t keyHeight keyWidth Yindex rows, true) := by
  induction rows generalizing rowindex Yindex with
  | nil => rfl
  | cons nodes rows ih =>
    rw [List.length_cons] at hi hfit
    have h1 := hfit 1 (by lia)
    have hY : toInt (Yindex + keyHeight) = Yindex + keyHeight := toInt_eq (by lia) (by lia)
    have hrow := h nodes List.mem_cons_self
    have hkeys : loadKeys t keyWidth 1 0 nodes = (records t keyWidth 0 nodes, true) := by
      have hlen := hrow.length_le
      have hwidth := hrow.width_lt
      exact loadKeys_eq hrow.nodes_load (by lia) (Int.le_refl 0) (by lia)
    have ih' : loadRows t keyHeight keyWidth (rowindex + 1) (Yindex + keyHeight) rows =
        (rowsFrom t keyHeight keyWidth (Yindex + keyHeight) rows, true) := by
      refine ih (fun n hn => h n (List.mem_cons_of_mem _ hn)) (by lia) fun k hk => ?_
      have hk' := hfit (k + 1) (by lia)
      rw [Int.natCast_add, Int.add_mul] at hk'
      lia
    rw [loadRows, if_neg (by lia), hY, hkeys]
    dsimp only
    rw [if_pos rfl, ih', rowsFrom]

theorem rowsFrom_getElem? (keyHeight Yindex : Int) (rows : List (List KeyNode)) (row : Nat) :
    (rowsFrom t keyHeight keyWidth Yindex rows)[row]? = (rows[row]?).map fun nodes =>
      ⟨Yindex + (row + 1) * keyHeight, records t keyWidth 0 nodes⟩ := by
  induction rows generalizing Yindex row with
  | nil => rfl
  | cons nodes rows ih =>
    cases row with
    | zero => simp [rowsFrom]
    | succ row =>
      rw [rowsFrom, List.getElem?_cons_succ, List.getElem?_cons_succ, ih]
      have : Yindex + keyHeight + ((row : Int) + 1) * keyHeight =
          Yindex + (((row + 1 : Nat) : Int) + 1) * keyHeight := by
        rw [Int.natCast_add, Int.add_mul, Int.add_mul, Int.add_mul]
        lia
      rw [this]

end

namespace LayoutNode

variable (t : Theme) (node : LayoutNode)

def keyHeight : Int := t.scale_theme_y node.height

def keyWidth : Int := t.scale_theme_x node.width

/-- A layout that is read to its end. -/
structure Loads : Prop where
  rows_load : ∀ nodes ∈ node.rows, RowLoads t (node.keyWidth t) nodes
  length_le : node.rows.length ≤ MAX_KEYBOARD_ROWS
  height_fits : ∀ k : Nat, k ≤ node.rows.length →
    -2 ^ 31 ≤ k * node.keyHeight t ∧ k * node.keyHeight t < 2 ^ 31

def table : Layout where
  rows := rowsFrom t (node.keyHeight t) (node.keyWidth t) 0 node.rows
  is_caps := node.capslock = 0
  revert_layout := node.revert_layout.getD (-1)

end LayoutNode

/-- XML that is read to its end. -/
structure Loads (t : Theme) (xml : KeyboardNode) : Prop where
  layouts_load : ∀ node ∈ xml.layouts, node.Loads t
  length_le : xml.layouts.length ≤ MAX_KEYBOARD_LAYOUTS
  layouts_ne : xml.layouts ≠ []

section

variable {t : Theme}

theorem loadLayouts_eq {nodes : List LayoutNode} (h : ∀ node ∈ nodes, node.Loads t)
    {layoutindex : Nat} (hi : layoutindex + nodes.length ≤ MAX_KEYBOARD_LAYOUTS + 1) :
    loadLayouts t layoutindex nodes = (nodes.map (·.table t), true) := by
  induction nodes generalizing layoutindex with
  | nil => rfl
  | cons node nodes ih =>
    rw [List.length_cons] at hi
    have hnode := h node List.mem_cons_self
    have hrows : loadRows t (t.scale_theme_y node.height) (t.scale_theme_x node.width) 1 0
        node.rows = (rowsFrom t (node.keyHeight t) (node.keyWidth t) 0 node.rows, true) := by
      have hlen := hnode.length_le
      refine loadRows_eq hnode.rows_load (by lia) fun k hk => ?_
      rw [Int.zero_add]
      exact hnode.height_fits k hk
    have ih' : loadLayouts t (layoutindex + 1) nodes = _ :=
      ih (fun n hn => h n (List.mem_cons_of_mem _ hn)) (by lia)
    rw [loadLayouts, if_neg (by lia)]
    dsimp only
    rw [hrows, if_pos rfl, ih']
    rfl

theorem construct_layout {xml : KeyboardNode} (h : Loads t xml) {l : Nat} {node : LayoutNode}
    (hn : xml.layouts[l]? = some node) : (construct t xml).layouts[l]? = some (node.table t) := by
  have hlen := h.length_le
  have hload : loadLayouts t 1 xml.layouts = _ := loadLayouts_eq h.layouts_load (by lia)
  have hlt := (List.getElem?_eq_some_iff.1 hn).1
  rw [construct, hload]
  dsimp only
  rw [if_pos rfl]
  dsimp only
  rw [List.getElem?_append_left (by rwa [List.length_map]), List.getElem?_map, hn]
  rfl

/-! ### Records and attributes -/

/-- What a record of a key does. -/
def Key.function (key : Key) : KeyFunction :=
  if 0 < key.layout then .layout key.layout else .ofKey key.key

/-- What it does when it is held. -/
def Key.longFunction (key : Key) : KeyFunction := .ofKey key.longpresskey

/-- The record says what the attributes say. -/
structure FaithfulKey (t : Theme) (keyWidth : Int) (nodes : List KeyNode) (col : Nat)
    (node : KeyNode) (key : Key) : Prop where
  function : key.function = node.function t keyWidth
  right : key.end_x = rowWidth t keyWidth (nodes.take (col + 1)) - 1
  long : key.longFunction = node.longFunction t keyWidth

/-- A key with a long press switches no layout, neither when it is pressed nor when it is held. -/
def NoClash (t : Theme) (keyWidth : Int) (node : KeyNode) : Prop :=
  node.long = none ∨ ((∀ n, node.function t keyWidth ≠ .layout n) ∧
    ∀ n, node.longFunction t keyWidth ≠ .layout n)

end

theorem functionOf_cases (t : Theme) (keyWidth : Int) (s : Str) :
    (∃ n, functionOf t keyWidth s = .layout n) ∨
      .ofKey (functionOf t keyWidth s).key = functionOf t keyWidth s ∧
        (functionOf t keyWidth s).layoutNumber = 0 := by
  unfold functionOf
  cases hd : definition t keyWidth s with
  | none => exact .inr ⟨rfl, rfl⟩
  | some d => exact definition_function hd

theorem longFunction_cases (t : Theme) (keyWidth : Int) (node : KeyNode) :
    (∃ n, node.longFunction t keyWidth = .layout n) ∨
      .ofKey (node.longFunction t keyWidth).key = node.longFunction t keyWidth ∧
        (node.longFunction t keyWidth).layoutNumber = 0 := by
  unfold KeyNode.longFunction
  cases node.long with
  | none => exact .inr ⟨rfl, rfl⟩
  | some s => exact functionOf_cases t keyWidth s

theorem layout_pos {t : Theme} {n : Nat} {s : Str} (h : RefersTo t n s) {keyWidth m : Int}
    (hm : functionOf t keyWidth s = .layout m) : 1 ≤ m ∧ m ≤ n := by
  cases hd : definition t keyWidth s with
  | none =>
    rw [functionOf, hd] at hm
    exact nomatch hm
  | some d =>
    rw [functionOf, hd] at hm
    exact h keyWidth d hd m hm

theorem rowWidth_take_succ {t : Theme} {keyWidth : Int} {nodes : List KeyNode} {col : Nat}
    {node : KeyNode} (h : nodes[col]? = some node) :
    rowWidth t keyWidth (nodes.take (col + 1)) =
      rowWidth t keyWidth (nodes.take col) + node.width t keyWidth := by
  rw [List.take_add_one, h, rowWidth, List.map_append, List.sum_append]
  simp [rowWidth]

/-- The record says what the attributes say just when a long press meets no switch of layouts. -/
theorem faithfulKey_iff {t : Theme} {keyWidth : Int} {nodes : List KeyNode} {col : Nat}
    {node : KeyNode} {n : Nat} (hnode : nodes[col]? = some node)
    (hkey : RefersTo t n node.key) :
    FaithfulKey t keyWidth nodes col node
        (node.record t keyWidth (rowWidth t keyWidth (nodes.take col))) ↔
      NoClash t keyWidth node := by
  have hright : rowWidth t keyWidth (nodes.take (col + 1)) = _ := rowWidth_take_succ hnode
  have hnothing : ∀ m, KeyFunction.ofKey (KeyFunction.layout m).key ≠ .layout m :=
    fun m => KeyFunction.ofKey_ne_layout _ m
  cases hl : node.long with
  | none =>
    have hlong : node.longFunction t keyWidth = .nothing := by
      rw [KeyNode.longFunction, hl]
      rfl
    refine iff_of_true ⟨?_, hright.symm ▸ rfl, ?_⟩ (.inl hl)
    · have hlayout : (node.record t keyWidth (rowWidth t keyWidth (nodes.take col))).layout =
          (node.function t keyWidth).layoutNumber := by
        rw [KeyNode.record, hl]
        rfl
      rw [Key.function, hlayout]
      rcases functionOf_cases t keyWidth node.key with ⟨m, hm⟩ | ⟨hf, h0⟩
      · have hpos := layout_pos hkey hm
        change node.function t keyWidth = _ at hm
        rw [hm]
        exact if_pos (Int.lt_of_lt_of_le (by decide) hpos.1)
      · change (node.function t keyWidth).layoutNumber = 0 at h0
        rw [h0, if_neg (by decide)]
        exact hf
    · rw [Key.longFunction, KeyNode.record, hlong]
      rfl
  | some s =>
    have hlayout : (node.record t keyWidth (rowWidth t keyWidth (nodes.take col))).layout =
        (node.longFunction t keyWidth).layoutNumber := by
      rw [KeyNode.record, hl]
      rfl
    constructor
    · rintro ⟨hfun, -, hlong⟩
      rcases longFunction_cases t keyWidth node with ⟨m, hm⟩ | ⟨hf, h0⟩
      · rw [Key.longFunction, KeyNode.record, hm] at hlong
        exact absurd hlong (hnothing m)
      · refine .inr ⟨fun m hm => ?_, fun m hm => ?_⟩
        · rw [Key.function, hlayout, h0, if_neg (by decide), KeyNode.record, hm] at hfun
          exact hnothing m hfun
        · rw [hm] at hf
          exact hnothing m hf
    · rintro (h | ⟨hf, hg⟩)
      · rw [hl] at h
        exact nomatch h
      · rcases longFunction_cases t keyWidth node with ⟨m, hm⟩ | ⟨hg', hg0⟩
        · exact absurd hm (hg m)
        · refine ⟨?_, hright.symm ▸ rfl, hg'⟩
          rw [Key.function, hlayout, hg0, if_neg (by decide)]
          rcases functionOf_cases t keyWidth node.key with ⟨m, hm⟩ | ⟨hf', -⟩
          · exact absurd hm (hf m)
          · exact hf'

/-! ### The table -/

section

variable {t : Theme} {node : LayoutNode} {row col : Nat}

theorem table_key {nodes : List KeyNode} {key : KeyNode} (hr : node.rows[row]? = some nodes)
    (hk : nodes[col]? = some key) : (node.table t).key row col =
      key.record t (node.keyWidth t) (rowWidth t (node.keyWidth t) (nodes.take col)) := by
  rw [Layout.key, LayoutNode.table]
  dsimp only
  rw [rowsFrom_getElem?, hr]
  dsimp only [Option.map_some, Option.bind_some]
  rw [records_getElem?, hk, Int.zero_add]
  rfl

theorem table_key_zero {nodes : List KeyNode} (hr : node.rows[row]? = some nodes)
    (hk : nodes[col]? = none) : (node.table t).key row col = .zero := by
  rw [Layout.key, LayoutNode.table]
  dsimp only
  rw [rowsFrom_getElem?, hr]
  dsimp only [Option.map_some, Option.bind_some]
  rw [records_getElem?, hk]
  rfl

theorem table_row_zero (hr : node.rows[row]? = none) : (node.table t).key row col = .zero := by
  rw [Layout.key, LayoutNode.table]
  dsimp only
  rw [rowsFrom_getElem?, hr]
  rfl

theorem table_row_end_y {nodes : List KeyNode} (hr : node.rows[row]? = some nodes) :
    (node.table t).row_end_y row = (row + 1) * node.keyHeight t := by
  rw [Layout.row_end_y, LayoutNode.table]
  dsimp only
  rw [rowsFrom_getElem?, hr, Option.map_some, Option.map_some, Option.getD_some, Int.zero_add]

end

end Recovery.Gui.GUIKeyboard
