import Recovery.Lib.CInt

/-!
# Scroll lists (`gui/scrolllist.cpp`)

The position of a list is the item at its top and an offset in pixels. Touches, drags, kinetic
updates, renders and `SetVisibleListLocation` move it, and the number of items changes between
them.

* A handler is `none` where it divides by zero.
* What the number of items goes into is converted to `int` and `size_t` as the code converts it;
  places on the screen are far from the ends of `int`.
* Drawing, the text of the header and the notification of a selection are left out; a list whose
  condition is false does nothing.

Integer division truncates towards zero as in C++, and a remainder has the sign of the dividend.
-/

set_option autoImplicit false

namespace Recovery.Gui

open Recovery.Lib

/-- What does not change after the list is loaded. -/
structure ScrollLayout where
  mRenderX : Int
  mRenderY : Int
  mRenderW : Int
  mRenderH : Int
  mHeaderH : Int
  actualItemHeight : Int
  mFastScrollW : Int
  mFastScrollRectH : Int
  touchDebounce : Int
  allowSelection : Bool

structure GUIScrollList where
  /-- `GetItemCount`. -/
  itemCount : Nat
  firstDisplayedItem : Int
  y_offset : Int
  scrollingSpeed : Int
  hasScroll : Bool
  fastScroll : Bool
  /-- `none` is `NO_ITEM`. -/
  selectedItem : Option Nat
  lastY : Int
  last2Y : Int
  mFastScrollRectCurrentY : Int
  mFastScrollRectCurrentH : Int
  mFastScrollRectTouchY : Int
  deriving DecidableEq, Repr

/-- The constructor, which leaves `hasScroll` as it finds it. -/
def GUIScrollList.new (itemCount : Nat) (hasScroll : Bool) : GUIScrollList where
  itemCount
  firstDisplayedItem := 0
  y_offset := 0
  scrollingSpeed := 0
  hasScroll
  fastScroll := false
  selectedItem := none
  lastY := 0
  last2Y := 0
  mFastScrollRectCurrentY := 0
  mFastScrollRectCurrentH := 0
  mFastScrollRectTouchY := 0

def quotient (a b : Int) : Option Int := if b = 0 then none else some (a.tdiv b)

def remainder (a b : Int) : Option Int := if b = 0 then none else some (a.tmod b)

/-- An `int` as `unsigned`. -/
def asUnsigned (z : Int) : Int := z % 2 ^ 32

/-- An `int` as `size_t`. -/
def asSize (z : Int) : Int := z % 2 ^ 64

namespace ScrollLayout

variable (l : ScrollLayout)

/-- The height of the box below the header. -/
def boxH : Int := l.mRenderH - l.mHeaderH

def GetDisplayItemCount : Option Int := quotient l.boxH l.actualItemHeight

def GetDisplayRemainder : Option Int := remainder l.boxH l.actualItemHeight

/-- The height of the whole list as an `int`. -/
def totalHeight (itemCount : Nat) : Int := toInt (itemCount * l.actualItemHeight)

end ScrollLayout

namespace GUIScrollList

variable (l : ScrollLayout) (s : GUIScrollList)

def SetVisibleListLocation (list_index : Nat) : Option GUIScrollList := do
  let lines ← l.GetDisplayItemCount
  if list_index ≤ asUnsigned s.firstDisplayedItem then
    return { s with firstDisplayedItem := toInt list_index, y_offset := 0, scrollingSpeed := 0 }
  else if asSize (s.firstDisplayedItem + lines) ≤ list_index then
    let first := toInt (list_index - lines + 1)
    let rest ← l.GetDisplayRemainder
    if rest ≠ 0 then
      return {
        s with
        firstDisplayedItem := max (first - 1) 0
        y_offset := rest - l.actualItemHeight
        scrollingSpeed := 0 }
    else
      return { s with firstDisplayedItem := max first 0, y_offset := 0, scrollingSpeed := 0 }
  else return { s with scrollingSpeed := 0 }

/-- `Render`: where the list is, and the bar of the fast scroll. -/
def Render : Option GUIScrollList := do
  let lines ← l.GetDisplayItemCount
  if s.itemCount ≤ asSize lines then
    return { s with hasScroll := false, scrollingSpeed := 0, y_offset := 0 }
  else
    let fHeight := l.boxH
    let totalHeight := l.totalHeight s.itemCount
    let topPos := s.firstDisplayedItem * l.actualItemHeight - s.y_offset
    let boxH ← quotient (fHeight * fHeight) totalHeight
    let boxH := max boxH l.mFastScrollRectH
    let boxY ← quotient (toInt ((fHeight - boxH) * topPos)) (totalHeight - fHeight)
    return {
      s with
      hasScroll := true
      mFastScrollRectCurrentY := boxY
      mFastScrollRectCurrentH := boxH }

/-! ## `HandleScrolling` -/

/-- The loop for dragging downward: the item at the top and the offset. -/
def scrollUp (itemH : Int) : Nat → Int → Int → Int × Int
  | 0, first, y => (first, y)
  | fuel + 1, first, y =>
    if first ≠ 0 ∧ y > 0 then scrollUp itemH fuel (first - 1) (y - itemH) else (first, y)

/-- The loop for dragging upward; `last` is the item that the loop does not go past. -/
def scrollDown (itemH last : Int) : Nat → Int → Int → Int × Int
  | 0, first, y => (first, y)
  | fuel + 1, first, y =>
    if first < last ∧ (y.natAbs : Int) > itemH then scrollDown itemH last fuel (first + 1) (y + itemH)
    else (first, y)

/-- A list that was dragged too far, at its bottom. -/
def setBottom (totalSize lines bottom_offset : Int) : GUIScrollList :=
  if bottom_offset ≠ 0 ∧ s.firstDisplayedItem + lines + 1 ≥ totalSize ∧
      s.y_offset ≤ bottom_offset then {
    s with
    firstDisplayedItem := totalSize - lines - 1
    y_offset := bottom_offset
    scrollingSpeed := 0 }
  else if s.firstDisplayedItem + lines ≥ totalSize ∧ s.y_offset < 0 then
    { s with firstDisplayedItem := totalSize - lines, y_offset := 0, scrollingSpeed := 0 }
  else s

def HandleScrolling : Option GUIScrollList := do
  let (first, y) :=
    scrollUp l.actualItemHeight s.y_offset.toNat s.firstDisplayedItem s.y_offset
  let top := first = 0 ∧ y > 0
  let y := if top then 0 else y
  let speed := if top then 0 else s.scrollingSpeed
  let totalSize := toInt s.itemCount
  let lines ← l.GetDisplayItemCount
  let rest ← l.GetDisplayRemainder
  let bottom_offset := rest - l.actualItemHeight
  let last := totalSize - lines - (if bottom_offset ≠ 0 then 1 else 0)
  let (first, y) := scrollDown l.actualItemHeight last (last - first).toNat first y
  let s := { s with firstDisplayedItem := first, y_offset := y, scrollingSpeed := speed }
  return setBottom s totalSize lines bottom_offset

/-! ## `Update` -/

/-- `actualItemHeight * max(2.5, lines / 4 + 0.5)`, truncated. -/
def maxScrollDistance (lines : Int) : Int :=
  (l.actualItemHeight * max 5 (2 * lines.tdiv 4 + 1)).tdiv 2

/-- What an update adds to the offset. -/
def kinetic (lines : Int) : Int :=
  let maxDistance := maxScrollDistance l lines
  if s.scrollingSpeed > 0 then
    if s.scrollingSpeed < maxDistance then s.scrollingSpeed else maxDistance
  else if (s.scrollingSpeed.natAbs : Int) < maxDistance then s.scrollingSpeed
  else -maxDistance

/-- Friction: nine tenths, truncated, and nothing below `SCROLLING_FLOOR`. -/
def slowed (speed : Int) : Int :=
  let slower := (9 * speed).tdiv 10
  let slower :=
    if slower ≠ speed then slower else if speed > 0 then slower - 1 else slower + 1
  if slower.natAbs < 2 then 0 else slower

def Update : Option GUIScrollList := do
  let lines ← l.GetDisplayItemCount
  if s.scrollingSpeed = 0 then return s
  else
    HandleScrolling l {
      s with
      y_offset := s.y_offset + kinetic l s lines
      scrollingSpeed := slowed s.scrollingSpeed }

/-! ## `NotifyTouch` -/

/-- The loop of `HitTestItem`. -/
def hitItem (itemH start : Int) : Nat → Int → Int → Int
  | 0, item, _ => item
  | fuel + 1, item, selectY =>
    if selectY + itemH < start then hitItem itemH start fuel (item + 1) (selectY + itemH) else item

def HitTestItem (y : Int) : Option Nat :=
  if y < l.mRenderY ∨ y - l.mRenderY ≤ l.mHeaderH ∨ y - l.mRenderY > l.mRenderH then none
  else
    let start := y - l.mRenderY - l.mHeaderH
    let item := hitItem l.actualItemHeight start (start - s.y_offset).toNat s.firstDisplayedItem
      s.y_offset
    if asSize item < s.itemCount then some (asSize item).toNat else none

def TouchStart (x y : Int) : GUIScrollList :=
  let inFastScroll := s.hasScroll ∧ x ≥ l.mRenderX + l.mRenderW - l.mFastScrollW
  let boxTop := s.mFastScrollRectCurrentY + l.mRenderY + l.mHeaderH
  let s :=
    if inFastScroll then {
      s with
      fastScroll := true
      mFastScrollRectTouchY :=
        if y ≥ boxTop ∧ y < boxTop + s.mFastScrollRectCurrentH then y - boxTop
        else s.mFastScrollRectCurrentH.tdiv 2 }
    else s
  let s :=
    if s.scrollingSpeed ≠ 0 then { s with selectedItem := none, scrollingSpeed := 0 }
    else if ¬ s.fastScroll ∧ l.allowSelection then { s with selectedItem := HitTestItem l s y }
    else s
  { s with lastY := y, last2Y := y }

/-- The new top of the bar of the fast scroll, below the header. -/
def newY (y : Int) : Int :=
  let relY := y - l.mRenderY - l.mHeaderH
  min (max (relY - s.mFastScrollRectTouchY) 0) (l.boxH - s.mFastScrollRectCurrentH)

/-- A drag that started in the fast scroll region. -/
def FastDrag (y : Int) : Option GUIScrollList := do
  let totalHeight := l.totalHeight s.itemCount
  let newTopPos ←
    quotient (toInt (newY l s y * (totalHeight - l.boxH))) (l.boxH - s.mFastScrollRectCurrentH)
  let newTopPos := min newTopPos (totalHeight - l.boxH)
  let first ← quotient newTopPos l.actualItemHeight
  let y_offset ← remainder (-newTopPos) l.actualItemHeight
  return {
    s with firstDisplayedItem := first, y_offset, selectedItem := none, scrollingSpeed := 0 }

def TouchDrag (y : Int) : Option GUIScrollList :=
  if s.fastScroll then FastDrag l s y
  else if s.selectedItem ≠ none ∧ ((y - s.lastY).natAbs : Int) < l.touchDebounce then some s
  else if s.hasScroll then
    HandleScrolling l {
      s with
      selectedItem := none
      y_offset := s.y_offset + (y - s.lastY)
      last2Y := s.lastY
      lastY := y }
  else some { s with selectedItem := none, y_offset := 0 }

def TouchRelease : GUIScrollList :=
  if s.selectedItem ≠ none then { s with fastScroll := false, selectedItem := none }
  else
    let speed := s.lastY - s.last2Y
    {
      s with
      fastScroll := false
      scrollingSpeed := if (speed.natAbs : Int) < l.touchDebounce then 0 else speed }

/-! ## Runs -/

end GUIScrollList

inductive ScrollEvent where
  /-- The derived list has another number of items. -/
  | setItemCount (itemCount : Nat)
  | touchStart (x y : Int)
  | touchDrag (y : Int)
  | touchRelease
  | update
  | render
  | setVisible (list_index : Nat)

namespace GUIScrollList

def handle (l : ScrollLayout) (s : GUIScrollList) : ScrollEvent → Option GUIScrollList
  | .setItemCount itemCount => some { s with itemCount }
  | .touchStart x y => some (TouchStart l s x y)
  | .touchDrag y => TouchDrag l s y
  | .touchRelease => some (TouchRelease l s)
  | .update => Update l s
  | .render => Render l s
  | .setVisible list_index => SetVisibleListLocation l s list_index

def run (l : ScrollLayout) : GUIScrollList → List ScrollEvent → Option GUIScrollList
  | s, [] => some s
  | s, e :: events => do
    let s ← handle l s e
    run l s events

end GUIScrollList

end Recovery.Gui
