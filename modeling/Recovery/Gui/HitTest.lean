import Recovery.Gui.ScrollPosition
import Mathlib.Tactic.Ring

/-!
# Touching what is drawn in a scroll list (`gui/scrolllist.cpp`)

`Render` draws rows one below the other, from the offset on; `HitTestItem` walks the same rows down
to a pixel row.

* `visibleRows` — the rows that `Render` draws; `DrawnAt` — the item at a pixel row of the box.
* `mem_renderRows`, `drawnAt_iff` — which rows these are, without the loop.
* `hitItem_spec`, `hitTest_iff` — what `HitTestItem` finds.
* `InOrder` — positions as `Render` leaves them: `rendered_inOrder`.
* `hitTest_agrees_iff` — both agree except on the edges of rows; `hitTest_spec` — over runs.

`HitTestItem` compares strictly, so the first pixel row of an item counts for the one above it
(`edge_row_disagrees`).
-/

set_option autoImplicit false

namespace Recovery.Gui

open Recovery.Lib

namespace GUIScrollList

variable (l : ScrollLayout) (s : GUIScrollList)

/-! ## Drawing -/

/-- The loop of `Render` over the visible items: each with the top of its row. -/
def renderRows (itemH : Int) (listSize : Nat) : Nat → Int → Int → List (Nat × Int)
  | 0, _, _ => []
  | lines + 1, item, yPos =>
    if (listSize : Int) ≤ asSize item then []
    else ((asSize item).toNat, yPos) :: renderRows itemH listSize lines (item + 1) (yPos + itemH)

def visibleRows : Option (List (Nat × Int)) := do
  let lines ← l.GetDisplayItemCount
  let rows := renderRows l.actualItemHeight s.itemCount
  let top := l.mRenderY + l.mHeaderH
  if s.itemCount ≤ asSize lines then return rows s.itemCount s.firstDisplayedItem top
  else
    let lines := (asSize lines).toNat + 1
    let lines := if lines < s.itemCount then lines + 1 else lines
    return rows lines s.firstDisplayedItem (top + s.y_offset)

/-- The row of this item is drawn at a pixel row. -/
def DrawnAt (y : Int) (i : Nat) : Prop :=
  ∃ rows top, visibleRows l s = some rows ∧ (i, top) ∈ rows ∧ top ≤ y ∧ y < top + l.actualItemHeight

/-- The pixel rows of the list below the header. -/
def InArea (y : Int) : Prop :=
  l.mRenderY ≤ y ∧ l.mRenderY + l.mHeaderH ≤ y ∧ y < l.mRenderY + l.mRenderH

/-- A touch finds the item that is drawn there, and none exactly where none is. -/
def Agrees (y : Int) : Prop := ∀ i, HitTestItem l s y = some i ↔ DrawnAt l s y i

/-! ## Positions -/

/-- A position as `Render` leaves it. -/
structure InOrder : Prop where
  first_nonneg : 0 ≤ s.firstDisplayedItem
  first_lt : s.firstDisplayedItem < 2 ^ 31
  count_lt : (s.itemCount : Int) < 2 ^ 31
  offset_low : -l.actualItemHeight ≤ s.y_offset
  offset_high : s.y_offset ≤ 0
  /-- A list that fits in the box is not moved. -/
  short : s.itemCount ≤ l.lines → s.y_offset = 0

/-- How far a pixel row is below the header. -/
def depth (y : Int) : Int := y - l.mRenderY - l.mHeaderH

/-- How far the end of the list is below the header. -/
def listEnd : Int := (s.itemCount - s.firstDisplayedItem) * l.actualItemHeight + s.y_offset

/-- The row is no first one, of an item or of what is below the last item; or the list ends
above it. -/
def OffEdges (y : Int) : Prop :=
  (depth l y = 0 ∧ listEnd l s ≤ 0) ∨
    (0 < depth l y ∧ (listEnd l s < depth l y ∨ ¬ l.actualItemHeight ∣ depth l y - s.y_offset))

instance (y : Int) : Decidable (OffEdges l s y) := by
  unfold OffEdges
  infer_instance

variable {l s}

theorem asSize_eq {z : Int} (h : 0 ≤ z) (h' : z < 2 ^ 64) : asSize z = z := Int.emod_eq_of_lt h h'

theorem mem_renderRows {itemH : Int} {listSize lines : Nat} {item yPos : Int} (hitem : 0 ≤ item)
    (hlt : item + lines < 2 ^ 64) {i : Nat} {top : Int} :
    (i, top) ∈ renderRows itemH listSize lines item yPos ↔
      i < listSize ∧ ∃ k : Nat, k < lines ∧ (i : Int) = item + k ∧ top = yPos + k * itemH := by
  induction lines generalizing item yPos with
  | zero => simp [renderRows]
  | succ lines ih =>
    have hsize : asSize item = item := asSize_eq hitem (by lia)
    rw [renderRows, hsize]
    split
    · rename_i hend
      constructor
      · nofun
      · rintro ⟨hi, k, -, hk, -⟩
        lia
    · rename_i hmore
      rw [List.mem_cons, ih (by lia) (by push_cast at hlt; lia)]
      constructor
      · rintro (heq | ⟨hi, k, hk, hik, htop⟩)
        · cases heq
          exact ⟨by lia, 0, by lia, by lia, by simp⟩
        · refine ⟨hi, k + 1, by lia, by push_cast; lia, ?_⟩
          rw [htop]
          push_cast
          ring
      · rintro ⟨hi, k, hk, hik, htop⟩
        cases k with
        | zero =>
          left
          have hfirst : i = item.toNat := by lia
          rw [htop, hfirst]
          simp
        | succ k =>
          right
          refine ⟨hi, k, by lia, by push_cast at hik; lia, ?_⟩
          rw [htop]
          push_cast
          ring

theorem drawnAt_iff (hl : l.Sound) (hs : InOrder l s) {y : Int} (hy : InArea l y) {i : Nat} :
    DrawnAt l s y i ↔ i < s.itemCount ∧ ∃ k : Nat, (i : Int) = s.firstDisplayedItem + k ∧
      s.y_offset + k * l.actualItemHeight ≤ depth l y ∧
      depth l y < s.y_offset + k * l.actualItemHeight + l.actualItemHeight := by
  obtain ⟨hfirst, hfirst', hcount, hlow, hhigh, hshort⟩ := hs
  obtain ⟨-, hy, hy'⟩ := hy
  have hpos := hl.itemHeight_pos
  have hlines := ScrollLayout.lines_nonneg hl
  have hlines' := ScrollLayout.lines_lt hl
  have hsize : asSize l.lines = l.lines := asSize_eq hlines (by lia)
  have hbox : depth l y < l.lines * l.actualItemHeight + l.actualItemHeight := by
    have hrest := ScrollLayout.rest_lt hl
    have heq : l.mRenderH - l.mHeaderH = _ := ScrollLayout.boxH_eq
    unfold depth
    lia
  unfold DrawnAt visibleRows
  rw [ScrollLayout.displayItemCount_eq hl, Option.bind_eq_bind, Option.bind_some, hsize]
  by_cases hfits : s.itemCount ≤ l.lines
  · rw [if_pos hfits, hshort hfits]
    constructor
    · rintro ⟨_, top, ⟨⟩, hmem, htop, htop'⟩
      obtain ⟨hi, k, -, hik, rfl⟩ := (mem_renderRows hfirst (by lia)).1 hmem
      exact ⟨hi, k, hik, by unfold depth; lia, by unfold depth; lia⟩
    · rintro ⟨hi, k, hik, hlow, hhigh⟩
      unfold depth at hlow hhigh
      refine ⟨_, _, rfl, (mem_renderRows hfirst (by lia)).2 ⟨hi, k, by lia, hik, rfl⟩, ?_, ?_⟩
      · lia
      · lia
  · rw [if_neg hfits]
    constructor
    · rintro ⟨_, top, ⟨⟩, hmem, htop, htop'⟩
      obtain ⟨hi, k, -, hik, rfl⟩ := (mem_renderRows hfirst (by split <;> lia)).1 hmem
      exact ⟨hi, k, hik, by unfold depth; lia, by unfold depth; lia⟩
    · rintro ⟨hi, k, hik, hlow', hhigh'⟩
      -- a row that begins in the box is among the whole rows of the box or the two after them
      have hk : (k : Int) < l.lines + 2 := by
        by_contra hge
        have hmul : (l.lines + 2) * l.actualItemHeight ≤ k * l.actualItemHeight :=
          mul_le_mul_of_nonneg_right (not_lt.1 hge) hpos.le
        rw [add_mul] at hmul
        lia
      unfold depth at hlow' hhigh'
      refine ⟨_, _, rfl, (mem_renderRows hfirst (by split <;> lia)).2
        ⟨hi, k, by split <;> lia, hik, rfl⟩, ?_, ?_⟩
      · lia
      · lia

/-! ## Touching -/

theorem hitItem_spec {itemH start : Int} (hpos : 0 < itemH) (fuel : Nat) {item selectY : Int}
    (hfuel : start - selectY ≤ fuel) :
    ∃ k : Nat, hitItem itemH start fuel item selectY = item + k ∧
      start ≤ selectY + k * itemH + itemH ∧ (k = 0 ∨ selectY + k * itemH < start) := by
  induction fuel generalizing item selectY with
  | zero => exact ⟨0, by simp [hitItem], by push_cast at hfuel; lia, .inl rfl⟩
  | succ fuel ih =>
    rw [hitItem]
    split
    · rename_i hmore
      obtain ⟨k, hk, hle, hlt⟩ := @ih (item + 1) (selectY + itemH) (by push_cast at hfuel; lia)
      have hmul : ((k + 1 : Nat) : Int) * itemH = k * itemH + itemH := by
        push_cast
        ring
      refine ⟨k + 1, ?_, ?_, .inr ?_⟩
      · rw [hk]
        push_cast
        ring
      · rw [hmul]
        lia
      · rw [hmul]
        obtain rfl | hlt := hlt
        · simpa using hmore
        · lia
    · exact ⟨0, by simp, by simp; lia, .inl rfl⟩

/-- A place is in one row only. -/
theorem row_unique {itemH offset z : Int} (hpos : 0 < itemH) {k k' : Nat}
    (hlow : offset + k * itemH < z) (hhigh : z ≤ offset + k * itemH + itemH)
    (hlow' : offset + k' * itemH < z) (hhigh' : z ≤ offset + k' * itemH + itemH) : k = k' := by
  have hle {m n : Nat} (h : (m : Int) * itemH < n * itemH + itemH) : m ≤ n := by
    have h' : (m : Int) * itemH < (n + 1 : Int) * itemH := by
      rw [add_mul]
      lia
    have := lt_of_mul_lt_mul_right h' hpos.le
    lia
  exact le_antisymm (hle (by lia)) (hle (by lia))

theorem hitTest_iff (hl : l.Sound) (hs : InOrder l s) {y : Int} (hy : InArea l y) {i : Nat} :
    HitTestItem l s y = some i ↔ 0 < depth l y ∧ i < s.itemCount ∧
      ∃ k : Nat, (i : Int) = s.firstDisplayedItem + k ∧
        s.y_offset + k * l.actualItemHeight < depth l y ∧
        depth l y ≤ s.y_offset + k * l.actualItemHeight + l.actualItemHeight := by
  obtain ⟨hfirst, hfirst', hcount, hlow, hhigh, -⟩ := hs
  obtain ⟨hy, hy', hy''⟩ := hy
  have hpos := hl.itemHeight_pos
  have hbox := hl.boxH_lt
  have hdepth : depth l y < l.boxH := by
    unfold depth ScrollLayout.boxH
    lia
  by_cases hzero : depth l y ≤ 0
  · rw [HitTestItem, if_pos (by unfold depth at hzero; lia)]
    constructor
    · nofun
    · intro h
      lia
  · have hrow : y - l.mRenderY - l.mHeaderH = depth l y := rfl
    rw [HitTestItem, if_neg (by unfold depth at hzero; lia)]
    dsimp only
    rw [hrow]
    obtain ⟨k, hk, hle, hlt⟩ := @hitItem_spec l.actualItemHeight (depth l y) hpos
      (depth l y - s.y_offset).toNat s.firstDisplayedItem s.y_offset (by lia)
    have hlt : s.y_offset + k * l.actualItemHeight < depth l y := by
      obtain rfl | hlt := hlt
      · simp
        lia
      · exact hlt
    -- few enough rows for the number of the item not to wrap
    have hkbox : (k : Int) < 2 ^ 31 + 1 := by
      by_contra hge
      have hmul : (k - 1 : Int) * 1 ≤ (k - 1) * l.actualItemHeight :=
        mul_le_mul_of_nonneg_left (by lia) (by lia)
      have hexp : (k - 1 : Int) * l.actualItemHeight =
          k * l.actualItemHeight - l.actualItemHeight := by ring
      lia
    rw [hk, asSize_eq (by lia) (by lia)]
    constructor
    · intro h
      split at h
      · cases h
        exact ⟨by lia, by lia, k, by lia, hlt, hle⟩
      · cases h
    · rintro ⟨-, hi, k', hik, hlow', hhigh'⟩
      have hsame : k' = k := row_unique hpos hlow' hhigh' hlt hle
      subst hsame
      rw [if_pos (by lia)]
      congr 1
      lia

/-! ## Agreement -/

/-- A row of an item ends above the end of the list. -/
theorem row_le_listEnd (hl : l.Sound) {i k : Nat} (hi : i < s.itemCount)
    (hik : (i : Int) = s.firstDisplayedItem + k) :
    s.y_offset + k * l.actualItemHeight + l.actualItemHeight ≤ listEnd l s := by
  have hmul : (k + 1 : Int) * l.actualItemHeight ≤
      (s.itemCount - s.firstDisplayedItem) * l.actualItemHeight :=
    mul_le_mul_of_nonneg_right (by lia) hl.itemHeight_pos.le
  rw [add_mul] at hmul
  unfold listEnd
  lia

theorem lt_count_of_row (hl : l.Sound) {k : Nat}
    (h : s.y_offset + k * l.actualItemHeight < listEnd l s) :
    s.firstDisplayedItem + k < s.itemCount := by
  have hmul : (k : Int) * l.actualItemHeight <
      (s.itemCount - s.firstDisplayedItem) * l.actualItemHeight := by
    unfold listEnd at h
    lia
  have hlt := lt_of_mul_lt_mul_right hmul hl.itemHeight_pos.le
  lia

/-- The last item above a place in the list. -/
theorem exists_row (hl : l.Sound) {z : Int} (hlow : s.y_offset ≤ z) :
    ∃ k : Nat, s.y_offset + k * l.actualItemHeight ≤ z ∧
      z < s.y_offset + k * l.actualItemHeight + l.actualItemHeight := by
  have hpos := hl.itemHeight_pos
  have hdiv := Int.mul_ediv_add_emod (z - s.y_offset) l.actualItemHeight
  have hmod := Int.emod_nonneg (z - s.y_offset) hpos.ne'
  have hmod' := Int.emod_lt_of_pos (z - s.y_offset) hpos
  have hnonneg : 0 ≤ (z - s.y_offset) / l.actualItemHeight := Int.ediv_nonneg (by omega) hpos.le
  refine ⟨((z - s.y_offset) / l.actualItemHeight).toNat, ?_⟩
  rw [Int.toNat_of_nonneg hnonneg, mul_comm]
  constructor
  · omega
  · omega

/-- **Touching and drawing** agree on a pixel row exactly if it is on no edge of a row. -/
theorem hitTest_agrees_iff (hl : l.Sound) (hs : InOrder l s) {y : Int} (hy : InArea l y) :
    Agrees l s y ↔ OffEdges l s y := by
  have hpos := hl.itemHeight_pos
  have hnonneg : 0 ≤ depth l y := by
    have := hy.2.1
    unfold depth
    lia
  unfold Agrees
  simp only [hitTest_iff hl hs hy, drawnAt_iff hl hs hy]
  have hoff := hs.offset_high
  have hfirst := hs.first_nonneg
  constructor
  · intro hagrees
    by_contra hedge
    obtain ⟨hzero, hstep⟩ := not_or.1 hedge
    by_cases htop : depth l y = 0
    · obtain ⟨k, hlow, hhigh⟩ := @exists_row l s hl (depth l y) (by lia)
      have hi := lt_count_of_row hl (s := s) (k := k) (by lia)
      have hhit := (hagrees (s.firstDisplayedItem + k).toNat).2
        ⟨by lia, k, by lia, hlow, hhigh⟩
      lia
    · -- the first row below an item, which a touch still finds
      obtain ⟨hend, hdvd⟩ := not_or.1 (not_and.1 hstep (by lia))
      obtain ⟨q, hq⟩ := not_not.1 hdvd
      have hqpos : 0 < q := pos_of_mul_pos_right (by lia) hpos.le
      obtain ⟨k, rfl⟩ : ∃ k : Nat, q = k + 1 := ⟨(q - 1).toNat, by lia⟩
      rw [mul_comm, add_mul] at hq
      have hi := lt_count_of_row hl (s := s) (k := k) (by lia)
      obtain ⟨-, k', hk', -, hhigh⟩ := (hagrees (s.firstDisplayedItem + k).toNat).1
        ⟨by lia, by lia, k, by lia, by lia, by lia⟩
      have hsame : k' = k := by lia
      subst hsame
      lia
  · rintro (⟨hzero, hend⟩ | ⟨hdepth, hend | hedge⟩) i
    · constructor
      · intro h
        lia
      · rintro ⟨hi, k, hik, hlow, hhigh⟩
        have hle := row_le_listEnd hl hi hik
        lia
    · constructor
      · rintro ⟨-, hi, k, hik, hlow, hhigh⟩
        have hle := row_le_listEnd hl hi hik
        lia
      · rintro ⟨hi, k, hik, hlow, hhigh⟩
        have hle := row_le_listEnd hl hi hik
        lia
    · have hne : ∀ k : Nat, s.y_offset + k * l.actualItemHeight ≠ depth l y := by
        rintro k hk
        exact hedge ⟨k, by rw [mul_comm]; lia⟩
      constructor
      · rintro ⟨-, hi, k, hik, hlow, hhigh⟩
        have hne' := hne (k + 1)
        push_cast at hne'
        rw [add_mul] at hne'
        exact ⟨hi, k, hik, hlow.le, by lia⟩
      · rintro ⟨hi, k, hik, hlow, hhigh⟩
        exact ⟨hdepth, hi, k, hik, lt_of_le_of_ne hlow (hne k), hhigh.le⟩

/-! ## Runs -/

theorem rendered_inOrder (hl : l.Sound) (h : Held l s) : ∃ s', Render l s = some s' ∧ InOrder l s' := by
  obtain ⟨s', hs', hheld⟩ := render_held hl h
  refine ⟨s', hs', hheld.settled.first_nonneg, hheld.first_lt hl, hheld.count_lt hl,
    hheld.settled.offset_low, hheld.settled.offset_high, ?_⟩
  intro hshort
  have hlines := ScrollLayout.lines_lt hl
  have hsize : asSize l.lines = l.lines :=
    asSize_eq (ScrollLayout.lines_nonneg hl) (by omega)
  rw [Render, ScrollLayout.displayItemCount_eq hl, Option.bind_eq_bind, Option.bind_some, hsize] at hs'
  split at hs'
  · cases hs'
    rfl
  · obtain ⟨boxH, -, hs'⟩ := Option.bind_eq_some_iff.1 hs'
    obtain ⟨boxY, -, hs'⟩ := Option.bind_eq_some_iff.1 hs'
    cases hs'
    contradiction

/-- **Touching what is drawn**, in every position of a run: with a position that is in order, off
the edges of rows and nowhere else; allowed events lead to such positions. -/
theorem hitTest_spec (l : ScrollLayout) (hl : l.Sound) (n : Nat) (hasScroll : Bool)
    (events : List ScrollEvent) {s : GUIScrollList}
    (hrun : run l (.new n hasScroll) events = some s) :
    (InOrder l s → ∀ y, InArea l y → (Agrees l s y ↔ OffEdges l s y)) ∧
      (n * l.actualItemHeight < 2 ^ 31 → AllAllowed l (.new n hasScroll) events →
        ∃ s', Render l s = some s' ∧ InOrder l s') := by
  constructor
  · intro hs y hy
    exact hitTest_agrees_iff hl hs hy
  · intro hn hall
    obtain ⟨s', hs', hheld, -⟩ := run_held hl (new_held hl hn hasScroll) hall
    cases hrun.symm.trans hs'
    exact rendered_inOrder hl hheld

/-- A list that was dragged by 50 pixels: the row at 151 is that of item 1. -/
theorem hitTest_spec_example :
    ∃ s, run exampleLayout (.new 20 false) [.render, .touchStart 100 300, .touchDrag 250] = some s ∧
      Agrees exampleLayout s 151 ∧ ∃ s', Render exampleLayout s = some s' ∧ InOrder exampleLayout s' := by
  have hspec := hitTest_spec exampleLayout (by decide) 20 false
    [.render, .touchStart 100 300, .touchDrag 250] rfl
  refine ⟨_, rfl, (hspec.1 ?_ 151 ?_).2 (by decide), hspec.2 (by decide) (by decide)⟩
  · exact ⟨by decide, by decide, by decide, by decide, by decide, by decide⟩
  · exact ⟨by decide, by decide, by decide⟩

/-- The first pixel row of item 1 of a list that has just been drawn: a touch finds item 0. -/
theorem edge_row_disagrees :
    ∃ s, run exampleLayout (.new 20 false) [.render] = some s ∧ InArea exampleLayout 180 ∧
      HitTestItem exampleLayout s 180 = some 0 ∧ DrawnAt exampleLayout s 180 1 ∧
      ¬ Agrees exampleLayout s 180 := by
  have hdrawn : DrawnAt exampleLayout
      { GUIScrollList.new 20 true with mFastScrollRectCurrentH := 60 } 180 1 :=
    ⟨_, 180, rfl, by decide, by decide, by decide⟩
  refine ⟨_, rfl, ⟨by decide, by decide, by decide⟩, by decide, hdrawn, fun hagrees => ?_⟩
  have hfound := (hagrees 1).2 hdrawn
  revert hfound
  decide

end GUIScrollList

end Recovery.Gui
