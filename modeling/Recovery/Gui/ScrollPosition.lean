import Recovery.Gui.ScrollList
import Mathlib.Tactic.Linarith

/-!
# Where a scroll list stays (`gui/scrolllist.cpp`)

What every run of touches, drags, updates, renders and `SetVisibleListLocation` calls keeps of the
position of a list, while the number of its items changes.

* `Position` — the first displayed item is in the list, its offset is at most an item, and a list
  longer than the box fills it to the bottom.
* `Allowed` — the events that the handlers are made for: none of them puts right a position that
  the number of items has left behind.
* `Reaches` — the list below a position fills the box, in items and rows and without products.
* `handleScrolling_held`, `fastDrag_held`, `setVisible_spec`, `render_held` — every handler keeps
  the position.
* `scrolling_spec` — a run of allowed events divides by nothing that is zero and keeps the
  position, and an item made visible is completely in the box.
* `shrunk_list_gap` — a list scrolled to its end stays there when it loses items.
-/

set_option autoImplicit false

namespace Recovery.Gui

open Recovery.Lib

namespace ScrollLayout

variable (l : ScrollLayout)

/-- Items have a height, and the box has one that is not that of the smallest fast scroll bar. -/
structure Sound : Prop where
  itemHeight_pos : 0 < l.actualItemHeight
  boxH_pos : 0 < l.boxH
  boxH_lt : l.boxH < 2 ^ 31
  bar : l.mFastScrollRectH ≠ l.boxH

instance : Decidable l.Sound :=
  decidable_of_iff
    (0 < l.actualItemHeight ∧ 0 < l.boxH ∧ l.boxH < 2 ^ 31 ∧ l.mFastScrollRectH ≠ l.boxH)
    ⟨fun ⟨h, h', h'', h'''⟩ => ⟨h, h', h'', h'''⟩, fun h => ⟨h.1, h.2, h.3, h.4⟩⟩

/-- The whole rows of the box. -/
def lines : Int := l.boxH.tdiv l.actualItemHeight

/-- What is left of the box below them. -/
def rest : Int := l.boxH.tmod l.actualItemHeight

variable {l}

theorem displayItemCount_eq (h : l.Sound) : l.GetDisplayItemCount = some l.lines := by
  rw [GetDisplayItemCount, quotient, if_neg (ne_of_gt h.itemHeight_pos)]
  rfl

theorem displayRemainder_eq (h : l.Sound) : l.GetDisplayRemainder = some l.rest := by
  rw [GetDisplayRemainder, remainder, if_neg (ne_of_gt h.itemHeight_pos)]
  rfl

theorem boxH_eq : l.boxH = l.lines * l.actualItemHeight + l.rest := by
  rw [mul_comm]
  exact (Int.mul_tdiv_add_tmod l.boxH l.actualItemHeight).symm

theorem lines_nonneg (h : l.Sound) : 0 ≤ l.lines :=
  Int.tdiv_nonneg h.boxH_pos.le h.itemHeight_pos.le

theorem lines_lt (h : l.Sound) : l.lines < 2 ^ 31 := by
  have hle : l.lines ≤ l.boxH := Int.tdiv_le_self _ h.boxH_pos.le
  exact lt_of_le_of_lt hle h.boxH_lt

theorem rest_nonneg (h : l.Sound) : 0 ≤ l.rest := Int.tmod_nonneg _ h.boxH_pos.le

theorem rest_lt (h : l.Sound) : l.rest < l.actualItemHeight :=
  Int.tmod_lt_of_pos _ h.itemHeight_pos

theorem lines_or_rest (h : l.Sound) : 0 < l.lines ∨ 0 < l.rest := by
  have hbox := h.boxH_pos
  have hlines := lines_nonneg h
  have hrest := rest_nonneg h
  rw [boxH_eq] at hbox
  by_contra hno
  have hlines : l.lines = 0 := by omega
  rw [hlines] at hbox
  omega

/-- A list is longer than the box when it has more items than the box has whole rows. -/
theorem longer_iff (h : l.Sound) (n : Int) : l.boxH < n * l.actualItemHeight ↔ l.lines < n := by
  have hpos := h.itemHeight_pos
  have hrest := rest_nonneg h
  have hlt := rest_lt h
  rw [boxH_eq]
  constructor
  · intro hlong
    by_contra hle
    have hmul := mul_le_mul_of_nonneg_right (not_lt.1 hle) hpos.le
    omega
  · intro hlines
    have hmul : (l.lines + 1) * l.actualItemHeight ≤ n * l.actualItemHeight :=
      mul_le_mul_of_nonneg_right hlines hpos.le
    rw [add_mul] at hmul
    omega

/-- The list from a position on fills the box. -/
def Reaches (l : ScrollLayout) (n first y : Int) : Prop :=
  first + l.lines + 2 ≤ n ∨ (first + l.lines + 1 = n ∧ l.rest - y ≤ l.actualItemHeight) ∨
    (first + l.lines = n ∧ l.rest - y ≤ 0)

theorem reaches_iff (h : l.Sound) {n first y : Int} (hlow : -l.actualItemHeight ≤ y)
    (hhigh : y ≤ 0) :
    l.Reaches n first y ↔ first * l.actualItemHeight - y + l.boxH ≤ n * l.actualItemHeight := by
  have hpos := h.itemHeight_pos
  have hrest := rest_nonneg h
  have hlt := rest_lt h
  have hsplit : n * l.actualItemHeight = first * l.actualItemHeight +
      l.lines * l.actualItemHeight + (n - first - l.lines) * l.actualItemHeight := by
    rw [sub_mul, sub_mul]
    lia
  generalize hd : n - first - l.lines = d at hsplit
  rw [hsplit, boxH_eq, Reaches]
  have hcases : d ≤ -1 ∨ d = 0 ∨ d = 1 ∨ 2 ≤ d := by lia
  rcases hcases with hneg | rfl | rfl | htwo
  · have hmul := mul_le_mul_of_nonneg_right hneg hpos.le
    lia
  · lia
  · lia
  · have hmul := mul_le_mul_of_nonneg_right htwo hpos.le
    lia

end ScrollLayout

namespace GUIScrollList

variable {l : ScrollLayout} {s : GUIScrollList}

/-! ## The position -/

structure Position (l : ScrollLayout) (s : GUIScrollList) : Prop where
  first_nonneg : 0 ≤ s.firstDisplayedItem
  first_le : s.firstDisplayedItem ≤ max 0 (s.itemCount - 1)
  offset_low : -l.actualItemHeight ≤ s.y_offset
  offset_high : s.y_offset ≤ 0
  /-- The end of a list that is longer than the box is not above the bottom of the box. -/
  bottom : l.boxH < s.itemCount * l.actualItemHeight →
    l.boxH ≤ (s.itemCount - s.firstDisplayedItem) * l.actualItemHeight + s.y_offset

/-- Item `i` is completely in the box. -/
def Visible (l : ScrollLayout) (s : GUIScrollList) (i : Int) : Prop :=
  0 ≤ (i - s.firstDisplayedItem) * l.actualItemHeight + s.y_offset ∧
    (i - s.firstDisplayedItem + 1) * l.actualItemHeight + s.y_offset ≤ l.boxH

/-- A position that a handler leaves. -/
structure Settled (l : ScrollLayout) (n first y : Int) : Prop where
  first_nonneg : 0 ≤ first
  offset_low : -l.actualItemHeight ≤ y
  offset_high : y ≤ 0
  place : (first = 0 ∧ y = 0) ∨ l.Reaches n first y ∨ (first = 0 ∧ n ≤ l.lines)

/-- What the handlers keep. -/
structure Held (l : ScrollLayout) (s : GUIScrollList) : Prop where
  settled : Settled l s.itemCount s.firstDisplayedItem s.y_offset
  total_lt : s.itemCount * l.actualItemHeight < 2 ^ 31
  bar : s.mFastScrollRectCurrentH ≠ l.boxH

theorem Held.position (h : Held l s) (hl : l.Sound) : Position l s := by
  obtain ⟨hfirst, hlow, hhigh, hplace⟩ := h.settled
  have hrest := ScrollLayout.rest_nonneg hl
  have hsome := ScrollLayout.lines_or_rest hl
  have hlines := ScrollLayout.lines_nonneg hl
  refine ⟨hfirst, ?_, hlow, hhigh, ?_⟩
  · obtain ⟨h0, -⟩ | hreach | ⟨h0, -⟩ := hplace
    · lia
    · rw [ScrollLayout.Reaches] at hreach
      lia
    · lia
  · intro hlong
    have hexp : (s.itemCount - s.firstDisplayedItem) * l.actualItemHeight =
        s.itemCount * l.actualItemHeight - s.firstDisplayedItem * l.actualItemHeight :=
      sub_mul _ _ _
    rw [hexp]
    obtain ⟨h0, hy⟩ | hreach | ⟨-, hshort⟩ := hplace
    · rw [h0, hy]
      lia
    · have hbox := (ScrollLayout.reaches_iff hl hlow hhigh).1 hreach
      lia
    · have hlt := (ScrollLayout.longer_iff hl s.itemCount).1 hlong
      lia

/-- The number of items fits an `int`, and so does every item. -/
theorem Held.count_lt (h : Held l s) (hl : l.Sound) : (s.itemCount : Int) < 2 ^ 31 := by
  have hpos := hl.itemHeight_pos
  have hle : (s.itemCount : Int) * 1 ≤ s.itemCount * l.actualItemHeight :=
    mul_le_mul_of_nonneg_left (by lia) (by lia)
  have htotal := h.total_lt
  lia

theorem Held.totalHeight (h : Held l s) (hl : l.Sound) :
    l.totalHeight s.itemCount = s.itemCount * l.actualItemHeight := by
  have hpos := hl.itemHeight_pos
  have hnonneg : 0 ≤ (s.itemCount : Int) * l.actualItemHeight :=
    mul_nonneg (by lia) hpos.le
  exact toInt_eq (by lia) h.total_lt

/-! ## `HandleScrolling` -/

/-- Scrolling up moves item by item and does not go past offset zero by more than an item. -/
theorem scrollUp_spec {itemH : Int} (hpos : 0 < itemH) (fuel : Nat) {first y : Int}
    (hfirst : 0 ≤ first) (hfuel : y ≤ fuel) :
    let p := scrollUp itemH fuel first y
    0 ≤ p.1 ∧ p.1 ≤ first ∧ (p.1 = 0 ∨ p.2 ≤ 0) ∧ (y ≤ 0 ∨ first = 0 → p = (first, y)) ∧
      (0 < y → -itemH < p.2) := by
  induction fuel generalizing first y with
  | zero =>
    rw [scrollUp]
    exact ⟨hfirst, le_refl _, by simpa using Or.inr hfuel, fun _ => rfl, by simp; lia⟩
  | succ fuel ih =>
    rw [scrollUp]
    split
    · rename_i hcond
      obtain ⟨h0, hle, htop, hstop, hlow⟩ := @ih (first - 1) (y - itemH) (by lia) (by lia)
      refine ⟨h0, by lia, htop, fun hy => by lia, fun _ => ?_⟩
      by_cases hy : 0 < y - itemH
      · exact hlow hy
      · rw [hstop (.inl (by lia))]
        dsimp only
        lia
    · rename_i hcond
      dsimp only
      refine ⟨hfirst, le_refl _, by lia, fun _ => rfl, by lia⟩

theorem scrollDown_spec {itemH last : Int} (hpos : 0 < itemH) (fuel : Nat) {first y : Int}
    (hfuel : last - first ≤ fuel) (hy : y ≤ 0) :
    let p := scrollDown itemH last fuel first y
    first ≤ p.1 ∧ (p.1 = first ∧ p.2 = y ∨ p.1 ≤ last) ∧ p.2 ≤ 0 ∧
      (last ≤ p.1 ∨ -itemH ≤ p.2) := by
  induction fuel generalizing first y with
  | zero =>
    rw [scrollDown]
    exact ⟨le_refl _, .inl ⟨rfl, rfl⟩, hy, .inl (by simpa using hfuel)⟩
  | succ fuel ih =>
    rw [scrollDown]
    split
    · rename_i hcond
      have hrest := @ih (first + 1) (y + itemH) (by omega) (by omega)
      dsimp only at hrest ⊢
      omega
    · rename_i hcond
      dsimp only
      omega

/-- A move to offset `y` that `HandleScrolling` can put in its place: more items than rows, or no move
upward, or one that leaves a list of exactly the box's rows where it is. -/
def Rolls (l : ScrollLayout) (n y : Int) : Prop :=
  l.lines < n ∨ 0 ≤ y ∨ (n = l.lines ∧ l.rest - l.actualItemHeight < y)

/-- Where the list is after dragging downward, and back at offset zero at its top. -/
structure Lifted (l : ScrollLayout) (n first y : Int) : Prop where
  first_nonneg : 0 ≤ first
  offset_high : y ≤ 0
  place : first = 0 ∨ l.Reaches n first 0
  rolls : Rolls l n y

theorem scrollUp_lifted (hl : l.Sound) {n first y : Int} (hfirst : 0 ≤ first)
    (hplace : first = 0 ∨ l.Reaches n first 0) (hrolls : Rolls l n y) :
    let p := scrollUp l.actualItemHeight y.toNat first y
    Lifted l n p.1 (if p.1 = 0 ∧ p.2 > 0 then 0 else p.2) := by
  intro p
  have hpos := hl.itemHeight_pos
  have hlines := ScrollLayout.lines_nonneg hl
  have hup := @scrollUp_spec _ hpos y.toNat _ y hfirst (by lia)
  change 0 ≤ p.1 ∧ p.1 ≤ first ∧ (p.1 = 0 ∨ p.2 ≤ 0) ∧
    (y ≤ 0 ∨ first = 0 → p = (first, y)) ∧ (0 < y → -l.actualItemHeight < p.2) at hup
  generalize p = p at hup ⊢
  obtain ⟨first', y'⟩ := p
  obtain ⟨h0, hle, htop, hstay, hlow⟩ := hup
  rw [ScrollLayout.Reaches] at hplace
  rw [Rolls] at hrolls
  refine ⟨h0, ?_, ?_, ?_⟩
  · dsimp only at htop ⊢
    split <;> lia
  · rw [ScrollLayout.Reaches]
    dsimp only at hle ⊢
    lia
  · rw [Rolls]
    by_cases hstop : y ≤ 0 ∨ first = 0
    · obtain ⟨rfl, rfl⟩ := Prod.mk.inj (hstay hstop)
      dsimp only
      split <;> lia
    · left
      lia

/-- **After dragging upward the list is in its place, or is put at its bottom.** -/
theorem scrollDown_settled (hl : l.Sound) {n first y : Int} (h : Lifted l n first y) :
    let p := scrollDown l.actualItemHeight (n - l.lines - 1) (n - l.lines - 1 - first).toNat first y
    (n ≤ p.1 + l.lines + 1 → p.2 ≤ l.rest - l.actualItemHeight →
      Settled l n (n - l.lines - 1) (l.rest - l.actualItemHeight)) ∧
    (n ≤ p.1 + l.lines → p.2 < 0 → l.rest - l.actualItemHeight < p.2 →
      Settled l n (n - l.lines) 0) ∧
    ((n ≤ p.1 + l.lines + 1 → l.rest - l.actualItemHeight < p.2) →
      (n ≤ p.1 + l.lines → 0 ≤ p.2) → Settled l n p.1 p.2) := by
  intro p
  have hpos := hl.itemHeight_pos
  have hlines := ScrollLayout.lines_nonneg hl
  have hrest := ScrollLayout.rest_nonneg hl
  have hrlt := ScrollLayout.rest_lt hl
  obtain ⟨h0, hy, hplace, hrolls⟩ := h
  have hdown := @scrollDown_spec _ (n - l.lines - 1) hpos (n - l.lines - 1 - first).toNat first y
    (by lia) hy
  change first ≤ p.1 ∧ (p.1 = first ∧ p.2 = y ∨ p.1 ≤ n - l.lines - 1) ∧ p.2 ≤ 0 ∧
    (n - l.lines - 1 ≤ p.1 ∨ -l.actualItemHeight ≤ p.2) at hdown
  generalize p = p at hdown ⊢
  obtain ⟨first', y'⟩ := p
  dsimp only at hdown ⊢
  rw [ScrollLayout.Reaches] at hplace
  rw [Rolls] at hrolls
  refine ⟨fun hend hlow => ?_, fun hend hneg hhigh => ?_, fun hfar htop => ?_⟩
  · refine ⟨by lia, by lia, by lia, .inr (.inl ?_)⟩
    rw [ScrollLayout.Reaches]
    lia
  · refine ⟨by lia, by lia, le_refl 0, ?_⟩
    rw [ScrollLayout.Reaches]
    lia
  · refine ⟨by lia, by lia, by lia, ?_⟩
    rw [ScrollLayout.Reaches]
    lia

theorem setBottom_held (hl : l.Sound) {first y : Int} (h : Lifted l s.itemCount first y)
    (htotal : s.itemCount * l.actualItemHeight < 2 ^ 31) (hbar : s.mFastScrollRectCurrentH ≠ l.boxH)
    (speed : Int) :
    let p := scrollDown l.actualItemHeight (s.itemCount - l.lines - 1)
      (s.itemCount - l.lines - 1 - first).toNat first y
    Held l (setBottom
      { s with firstDisplayedItem := p.1, y_offset := p.2, scrollingSpeed := speed }
      s.itemCount l.lines (l.rest - l.actualItemHeight)) := by
  intro p
  have hrlt := ScrollLayout.rest_lt hl
  have hdown := scrollDown_settled hl h
  change (s.itemCount ≤ p.1 + l.lines + 1 → p.2 ≤ l.rest - l.actualItemHeight → _) ∧
    (s.itemCount ≤ p.1 + l.lines → p.2 < 0 → l.rest - l.actualItemHeight < p.2 → _) ∧
    ((s.itemCount ≤ p.1 + l.lines + 1 → l.rest - l.actualItemHeight < p.2) →
      (s.itemCount ≤ p.1 + l.lines → 0 ≤ p.2) → Settled l s.itemCount p.1 p.2) at hdown
  generalize p = p at hdown ⊢
  obtain ⟨first', y'⟩ := p
  obtain ⟨hend, hlast, hsettled⟩ := hdown
  dsimp only at hend hlast hsettled
  unfold setBottom
  dsimp only
  split
  · rename_i hcond
    exact ⟨hend hcond.2.1 hcond.2.2, htotal, hbar⟩
  split
  · rename_i hcond
    exact ⟨hlast hcond.1 hcond.2 (by omega), htotal, hbar⟩
  · exact ⟨hsettled (by omega) (by omega), htotal, hbar⟩

theorem handleScrolling_eq (hl : l.Sound) (hcount : (s.itemCount : Int) < 2 ^ 31) :
    let p := scrollUp l.actualItemHeight s.y_offset.toNat s.firstDisplayedItem s.y_offset
    let y := if p.1 = 0 ∧ p.2 > 0 then 0 else p.2
    let q := scrollDown l.actualItemHeight (s.itemCount - l.lines - 1)
      (s.itemCount - l.lines - 1 - p.1).toNat p.1 y
    HandleScrolling l s = some (setBottom {
      s with
      firstDisplayedItem := q.1
      y_offset := q.2
      scrollingSpeed := if p.1 = 0 ∧ p.2 > 0 then 0 else s.scrollingSpeed }
      s.itemCount l.lines (l.rest - l.actualItemHeight)) := by
  have hrlt := ScrollLayout.rest_lt hl
  have hbottom : l.rest - l.actualItemHeight ≠ 0 := by lia
  have htotal : toInt s.itemCount = s.itemCount := toInt_eq (by lia) hcount
  intro p y q
  rw [HandleScrolling, ScrollLayout.displayItemCount_eq hl, ScrollLayout.displayRemainder_eq hl,
    htotal]
  simp only [Option.bind_eq_bind, Option.bind_some, if_pos hbottom]
  rfl

/-- **`HandleScrolling` puts any offset in its place.** -/
theorem handleScrolling_held (hl : l.Sound) {t : GUIScrollList} (h : Held l t)
    (hfirst : s.firstDisplayedItem = t.firstDisplayedItem) (hcount : s.itemCount = t.itemCount)
    (hbar : s.mFastScrollRectCurrentH = t.mFastScrollRectCurrentH)
    (hrolls : Rolls l s.itemCount s.y_offset) :
    ∃ s', HandleScrolling l s = some s' ∧ Held l s' := by
  have hplace : s.firstDisplayedItem = 0 ∨ l.Reaches s.itemCount s.firstDisplayedItem 0 := by
    have hhigh := h.settled.offset_high
    rw [hfirst, hcount]
    obtain ⟨h0, -⟩ | hreach | ⟨h0, -⟩ := h.settled.place
    · exact .inl h0
    · right
      rw [ScrollLayout.Reaches] at hreach ⊢
      lia
    · exact .inl h0
  have hlifted := scrollUp_lifted hl (hfirst ▸ h.settled.first_nonneg) hplace hrolls
  have hheld := setBottom_held hl hlifted (hcount ▸ h.total_lt) (hbar ▸ h.bar)
  exact ⟨_, handleScrolling_eq hl (hcount ▸ h.count_lt hl), hheld _⟩

/-! ## The other handlers -/

theorem Settled.lower {n first y : Int} (hl : l.Sound) (h : Settled l n first y) {first' : Int}
    (h0 : 0 ≤ first') (hle : first' ≤ first) : Settled l n first' 0 := by
  have hpos := hl.itemHeight_pos
  have hrlt := ScrollLayout.rest_lt hl
  obtain ⟨-, hlow, hhigh, hplace⟩ := h
  refine ⟨h0, by lia, le_refl 0, ?_⟩
  unfold ScrollLayout.Reaches at hplace ⊢
  lia

theorem Held.first_lt (h : Held l s) (hl : l.Sound) : s.firstDisplayedItem < 2 ^ 31 := by
  have hcount := h.count_lt hl
  have hlines := ScrollLayout.lines_nonneg hl
  obtain ⟨-, -, -, hplace⟩ := h.settled
  unfold ScrollLayout.Reaches at hplace
  lia

/-- **`SetVisibleListLocation` puts an item of the list completely into the box.** -/
theorem setVisible_spec (hl : l.Sound) (h : Held l s) {i : Nat}
    (hi : (i : Int) ≤ s.firstDisplayedItem ∨ i < s.firstDisplayedItem + l.lines ∨
      i < s.itemCount) :
    ∃ s', SetVisibleListLocation l s i = some s' ∧ Held l s' ∧ s'.itemCount = s.itemCount ∧
      (i < s.itemCount → 1 ≤ l.lines → Visible l s' i) := by
  have hpos := hl.itemHeight_pos
  have hlines := ScrollLayout.lines_nonneg hl
  have hlinesLt := ScrollLayout.lines_lt hl
  have hrest := ScrollLayout.rest_nonneg hl
  have hrlt := ScrollLayout.rest_lt hl
  have hfirstLt := h.first_lt hl
  have hcount := h.count_lt hl
  obtain ⟨hfirst, hlow, hhigh, hplace⟩ := h.settled
  have hunsigned : asUnsigned s.firstDisplayedItem = s.firstDisplayedItem := by
    unfold asUnsigned
    lia
  have hsize : asSize (s.firstDisplayedItem + l.lines) = s.firstDisplayedItem + l.lines := by
    unfold asSize
    lia
  rw [SetVisibleListLocation, ScrollLayout.displayItemCount_eq hl,
    ScrollLayout.displayRemainder_eq hl, hunsigned]
  simp only [Option.bind_eq_bind, Option.bind_some, hsize]
  have hrow : 1 ≤ l.lines → l.actualItemHeight ≤ l.lines * l.actualItemHeight := by
    intro hone
    have hmul := mul_le_mul_of_nonneg_right hone hpos.le
    lia
  split
  · rename_i habove
    have htoInt : toInt i = i := toInt_eq (by lia) (by lia)
    rw [htoInt]
    refine ⟨_, rfl, ⟨h.settled.lower hl (Int.natCast_nonneg i) habove, h.total_lt, h.bar⟩,
      rfl, fun _ hone => ?_⟩
    have hbox := hrow hone
    rw [Visible, ScrollLayout.boxH_eq]
    dsimp only
    rw [sub_self, zero_mul, zero_add, zero_add, one_mul]
    lia
  rename_i hbelow
  split
  · rename_i hunder
    have htoInt : toInt (i - l.lines + 1) = i - l.lines + 1 := toInt_eq (by lia) (by lia)
    rw [htoInt]
    split
    · rename_i hpartial
      have hmax : max ((i : Int) - l.lines + 1 - 1) 0 = i - l.lines := by lia
      rw [hmax]
      refine ⟨_, rfl, ⟨⟨?_, ?_, ?_, .inr (.inl ?_)⟩, h.total_lt, h.bar⟩, rfl, fun _ hone => ?_⟩
      · dsimp only
        lia
      · dsimp only
        lia
      · dsimp only
        lia
      · unfold ScrollLayout.Reaches
        dsimp only
        lia
      · have hbox := hrow hone
        rw [Visible, ScrollLayout.boxH_eq]
        dsimp only
        rw [show (i : Int) - (i - l.lines) = l.lines by lia, add_mul]
        lia
    · rename_i hwhole
      have hmax : max ((i : Int) - l.lines + 1) 0 = i - l.lines + 1 := by lia
      rw [hmax]
      refine ⟨_, rfl, ⟨⟨?_, ?_, ?_, .inr (.inl ?_)⟩, h.total_lt, h.bar⟩, rfl, fun _ hone => ?_⟩
      · dsimp only
        lia
      · dsimp only
        lia
      · exact le_refl 0
      · unfold ScrollLayout.Reaches
        dsimp only
        lia
      · have hbox := hrow hone
        rw [Visible, ScrollLayout.boxH_eq]
        dsimp only
        rw [show (i : Int) - (i - l.lines + 1) = l.lines - 1 by lia, sub_mul, sub_add_cancel]
        lia
  · rename_i hunder
    refine ⟨_, rfl, ⟨h.settled, h.total_lt, h.bar⟩, rfl, fun _ hone => ?_⟩
    have hone' : 1 * l.actualItemHeight ≤ (i - s.firstDisplayedItem) * l.actualItemHeight :=
      mul_le_mul_of_nonneg_right (by lia) hpos.le
    have hlast : (i - s.firstDisplayedItem + 1) * l.actualItemHeight ≤
        l.lines * l.actualItemHeight := mul_le_mul_of_nonneg_right (by lia) hpos.le
    rw [Visible, ScrollLayout.boxH_eq]
    dsimp only
    lia

/-- A list longer than the box has a fast scroll bar shorter than the box, or the smallest one. -/
theorem render_held (hl : l.Sound) (h : Held l s) :
    ∃ s', Render l s = some s' ∧ Held l s' := by
  have hbox := hl.boxH_pos
  have hlines := ScrollLayout.lines_nonneg hl
  have hlinesLt := ScrollLayout.lines_lt hl
  have hsize : asSize l.lines = l.lines := by
    unfold asSize
    omega
  rw [Render, ScrollLayout.displayItemCount_eq hl]
  simp only [Option.bind_eq_bind, Option.bind_some, hsize]
  split
  · have hsettled := h.settled.lower hl h.settled.first_nonneg (le_refl _)
    exact ⟨_, rfl, hsettled, h.total_lt, h.bar⟩
  · rename_i hlong
    have hlonger := (ScrollLayout.longer_iff hl s.itemCount).2 (by omega)
    have hbar : (l.boxH * l.boxH).tdiv (s.itemCount * l.actualItemHeight) < l.boxH := by
      rw [Int.tdiv_eq_ediv_of_nonneg (mul_nonneg hbox.le hbox.le)]
      apply Int.ediv_lt_of_lt_mul (by omega)
      exact mul_lt_mul_of_pos_left hlonger hbox
    have htotal : s.itemCount * l.actualItemHeight ≠ 0 := by omega
    have hhidden : s.itemCount * l.actualItemHeight - l.boxH ≠ 0 := by omega
    simp only [h.totalHeight hl, quotient, if_neg htotal, if_neg hhidden, Option.bind_some]
    refine ⟨_, rfl, h.settled, h.total_lt, ?_⟩
    have hmin := hl.bar
    dsimp only
    omega

theorem update_held (hl : l.Sound) (h : Held l s)
    (hrolls : s.scrollingSpeed ≠ 0 → Rolls l s.itemCount (s.y_offset + kinetic l s l.lines)) :
    ∃ s', Update l s = some s' ∧ Held l s' := by
  rw [Update, ScrollLayout.displayItemCount_eq hl]
  simp only [Option.bind_eq_bind, Option.bind_some]
  split
  · exact ⟨s, rfl, h⟩
  · rename_i hmoving
    exact handleScrolling_held hl h rfl rfl rfl (hrolls hmoving)

/-- The new top of the list in a fast scroll is between its top and its bottom. -/
theorem newTop_bounds {newY bar hidden : Int} (hbar : bar ≠ 0) (hhidden : 0 ≤ hidden)
    (hnew : (0 ≤ newY ∧ newY ≤ bar) ∨ (newY = bar ∧ bar < 0)) :
    0 ≤ min ((newY * hidden).tdiv bar) hidden := by
  obtain ⟨h0, hle⟩ | ⟨rfl, -⟩ := hnew
  · have hdiv : 0 ≤ (newY * hidden).tdiv bar :=
      Int.tdiv_nonneg (mul_nonneg h0 hhidden) (by omega)
    omega
  · rw [Int.mul_tdiv_cancel_left hidden hbar]
    omega

/-- **A fast scroll comes to a place in the list.** -/
theorem fastDrag_held (hl : l.Sound) (h : Held l s) {y : Int}
    (hfill : l.boxH ≤ s.itemCount * l.actualItemHeight)
    (hlow : -2 ^ 31 ≤ newY l s y * (s.itemCount * l.actualItemHeight - l.boxH))
    (hhigh : newY l s y * (s.itemCount * l.actualItemHeight - l.boxH) < 2 ^ 31) :
    ∃ s', FastDrag l s y = some s' ∧ Held l s' := by
  have hpos := hl.itemHeight_pos
  have hbar : l.boxH - s.mFastScrollRectCurrentH ≠ 0 := by
    have hne := h.bar
    omega
  have hnew : (0 ≤ newY l s y ∧ newY l s y ≤ l.boxH - s.mFastScrollRectCurrentH) ∨
      (newY l s y = l.boxH - s.mFastScrollRectCurrentH ∧
        l.boxH - s.mFastScrollRectCurrentH < 0) := by
    rw [newY]
    omega
  have htop := @newTop_bounds _ _ (s.itemCount * l.actualItemHeight - l.boxH) hbar (by omega) hnew
  have hne : l.actualItemHeight ≠ 0 := by omega
  simp only [FastDrag, h.totalHeight hl, toInt_eq hlow hhigh, quotient, remainder, if_neg hbar,
    if_neg hne, Option.bind_eq_bind, Option.bind_some]
  have hle := min_le_right
    ((newY l s y * (s.itemCount * l.actualItemHeight - l.boxH)).tdiv
      (l.boxH - s.mFastScrollRectCurrentH)) (s.itemCount * l.actualItemHeight - l.boxH)
  generalize min _ (s.itemCount * l.actualItemHeight - l.boxH) = top at htop hle ⊢
  refine ⟨_, rfl, ?_, h.total_lt, h.bar⟩
  have hsum := Int.tdiv_mul_add_tmod top l.actualItemHeight
  have hmod := Int.tmod_nonneg l.actualItemHeight htop
  have hmodlt := Int.tmod_lt_of_pos top hpos
  have hfirst := Int.tdiv_nonneg htop hpos.le
  dsimp only
  rw [Int.neg_tmod]
  refine ⟨hfirst, by omega, by omega, .inr (.inl ?_)⟩
  exact (ScrollLayout.reaches_iff hl (by omega) (by omega)).2 (by omega)

theorem touchDrag_held (hl : l.Sound) (h : Held l s) {y : Int}
    (hfast : s.fastScroll = true → l.boxH ≤ s.itemCount * l.actualItemHeight ∧
      -2 ^ 31 ≤ newY l s y * (s.itemCount * l.actualItemHeight - l.boxH) ∧
      newY l s y * (s.itemCount * l.actualItemHeight - l.boxH) < 2 ^ 31)
    (hdrag : s.fastScroll = false → s.hasScroll = true →
      ¬ (s.selectedItem ≠ none ∧ ((y - s.lastY).natAbs : Int) < l.touchDebounce) →
      Rolls l s.itemCount (s.y_offset + (y - s.lastY))) :
    ∃ s', TouchDrag l s y = some s' ∧ Held l s' := by
  rw [TouchDrag]
  split
  · rename_i hfs
    obtain ⟨hfill, hlow, hhigh⟩ := hfast hfs
    exact fastDrag_held hl h hfill hlow hhigh
  rename_i hslow
  split
  · exact ⟨s, rfl, h⟩
  rename_i hfar
  split
  · rename_i hscroll
    have hrolls := hdrag (by simpa using hslow) hscroll hfar
    exact handleScrolling_held hl h rfl rfl rfl hrolls
  · have hsettled := h.settled.lower hl h.settled.first_nonneg (le_refl _)
    exact ⟨_, rfl, hsettled, h.total_lt, h.bar⟩

/-- Everything of a list that its place depends on is as it was. -/
structure SamePlace (s s' : GUIScrollList) : Prop where
  itemCount : s'.itemCount = s.itemCount
  firstDisplayedItem : s'.firstDisplayedItem = s.firstDisplayedItem
  y_offset : s'.y_offset = s.y_offset
  bar : s'.mFastScrollRectCurrentH = s.mFastScrollRectCurrentH

theorem Held.same (h : Held l s) {s' : GUIScrollList} (hs : SamePlace s s') : Held l s' := by
  obtain ⟨hcount, hfirst, hoffset, hbar⟩ := hs
  refine ⟨?_, ?_, ?_⟩
  · rw [hcount, hfirst, hoffset]
    exact h.settled
  · rw [hcount]
    exact h.total_lt
  · rw [hbar]
    exact h.bar

theorem touchStart_same (x y : Int) : SamePlace s (TouchStart l s x y) := by
  unfold TouchStart
  dsimp only
  split <;> split <;> try split
  all_goals exact ⟨rfl, rfl, rfl, rfl⟩

theorem touchRelease_same : SamePlace s (TouchRelease l s) := by
  unfold TouchRelease
  split <;> exact ⟨rfl, rfl, rfl, rfl⟩

/-! ## Runs -/

/-- The events that the handlers are made for. -/
def Allowed (l : ScrollLayout) (s : GUIScrollList) : ScrollEvent → Prop
  | .setItemCount n =>
    -- the list is at its top, or its new end is not above the bottom of the box
    n * l.actualItemHeight < 2 ^ 31 ∧
      ((s.firstDisplayedItem = 0 ∧ s.y_offset = 0) ∨
        s.firstDisplayedItem * l.actualItemHeight - s.y_offset + l.boxH ≤ n * l.actualItemHeight ∨
        (s.firstDisplayedItem = 0 ∧ n ≤ l.lines))
  | .touchDrag y =>
    (s.fastScroll = true → l.boxH ≤ s.itemCount * l.actualItemHeight ∧
      -2 ^ 31 ≤ newY l s y * (s.itemCount * l.actualItemHeight - l.boxH) ∧
      newY l s y * (s.itemCount * l.actualItemHeight - l.boxH) < 2 ^ 31) ∧
    (s.fastScroll = false → s.hasScroll = true →
      ¬ (s.selectedItem ≠ none ∧ ((y - s.lastY).natAbs : Int) < l.touchDebounce) →
      Rolls l s.itemCount (s.y_offset + (y - s.lastY)))
  | .update => s.scrollingSpeed ≠ 0 → Rolls l s.itemCount (s.y_offset + kinetic l s l.lines)
  | .setVisible i =>
    (i : Int) ≤ s.firstDisplayedItem ∨ i < s.firstDisplayedItem + l.lines ∨ i < s.itemCount
  | .touchStart _ _ | .touchRelease | .render => True

instance (l : ScrollLayout) (n y : Int) : Decidable (Rolls l n y) := by
  unfold Rolls
  infer_instance

instance (l : ScrollLayout) (s : GUIScrollList) : DecidablePred (Allowed l s)
  | .setItemCount _ => inferInstanceAs (Decidable (_ ∧ _))
  | .touchDrag _ => inferInstanceAs (Decidable (_ ∧ _))
  | .update => inferInstanceAs (Decidable (_ → _))
  | .setVisible _ => inferInstanceAs (Decidable (_ ∨ _))
  | .touchStart _ _ => inferInstanceAs (Decidable True)
  | .touchRelease => inferInstanceAs (Decidable True)
  | .render => inferInstanceAs (Decidable True)

/-- Every event of a run is allowed where it comes. -/
def AllAllowed (l : ScrollLayout) : GUIScrollList → List ScrollEvent → Prop
  | _, [] => True
  | s, e :: events => Allowed l s e ∧ ∀ s' ∈ handle l s e, AllAllowed l s' events

instance decidableAllAllowed (l : ScrollLayout) :
    ∀ (s : GUIScrollList) (events : List ScrollEvent), Decidable (AllAllowed l s events)
  | _, [] => inferInstanceAs (Decidable True)
  | s, e :: events =>
    have := fun s' => decidableAllAllowed l s' events
    inferInstanceAs (Decidable (_ ∧ ∀ s' ∈ handle l s e, _))

/-- **One event**: every handler keeps the position. -/
theorem handle_held (hl : l.Sound) (h : Held l s) {e : ScrollEvent} (he : Allowed l s e) :
    ∃ s', handle l s e = some s' ∧ Held l s' ∧
      ∀ i, e = .setVisible i → i < s'.itemCount → 1 ≤ l.lines → Visible l s' i := by
  cases e with
  | setItemCount n =>
    obtain ⟨htotal, hplace⟩ := he
    obtain ⟨hfirst, hlow, hhigh, -⟩ := h.settled
    rw [← ScrollLayout.reaches_iff hl hlow hhigh] at hplace
    exact ⟨_, rfl, ⟨⟨hfirst, hlow, hhigh, hplace⟩, htotal, h.bar⟩, nofun⟩
  | touchStart x y => exact ⟨_, rfl, h.same (touchStart_same x y), nofun⟩
  | touchDrag y =>
    obtain ⟨s', hs', hheld⟩ := touchDrag_held hl h he.1 he.2
    exact ⟨s', hs', hheld, nofun⟩
  | touchRelease => exact ⟨_, rfl, h.same touchRelease_same, nofun⟩
  | update =>
    obtain ⟨s', hs', hheld⟩ := update_held hl h he
    exact ⟨s', hs', hheld, nofun⟩
  | render =>
    obtain ⟨s', hs', hheld⟩ := render_held hl h
    exact ⟨s', hs', hheld, nofun⟩
  | setVisible i =>
    obtain ⟨s', hs', hheld, hcount, hvisible⟩ := setVisible_spec hl h he
    refine ⟨s', hs', hheld, ?_⟩
    rintro i' ⟨⟩ hi
    exact hvisible (hcount ▸ hi)

theorem run_held (hl : l.Sound) {events : List ScrollEvent} (h : Held l s)
    (hall : AllAllowed l s events) :
    ∃ s', run l s events = some s' ∧ Held l s' ∧
      ∀ i, events.getLast? = some (.setVisible i) → i < s'.itemCount → 1 ≤ l.lines →
        Visible l s' i := by
  induction events generalizing s with
  | nil => exact ⟨s, rfl, h, nofun⟩
  | cons e events ih =>
    obtain ⟨s', hs', hheld, hvisible⟩ := handle_held hl h hall.1
    obtain ⟨s'', hs'', hheld', hlast⟩ := ih hheld (hall.2 s' hs')
    refine ⟨s'', by rw [run, hs', Option.bind_eq_bind, Option.bind_some, hs''], hheld', ?_⟩
    cases events with
    | nil =>
      cases hs''
      rintro i ⟨⟩
      exact hvisible i rfl
    | cons e' events => exact hlast

theorem new_held (hl : l.Sound) {n : Nat} (hn : n * l.actualItemHeight < 2 ^ 31) (hasScroll : Bool) :
    Held l (.new n hasScroll) := by
  have hpos := hl.itemHeight_pos
  have hbox := hl.boxH_pos
  refine ⟨⟨le_refl 0, ?_, le_refl 0, .inl ⟨rfl, rfl⟩⟩, hn, ?_⟩
  · exact neg_nonpos.2 hpos.le
  · exact hbox.ne

/-- **Runs of a scroll list**: nothing is divided by zero, the position is in the list, and an item
made visible is completely in the box. -/
theorem scrolling_spec (l : ScrollLayout) (hl : l.Sound) (n : Nat) (hasScroll : Bool)
    (hn : n * l.actualItemHeight < 2 ^ 31) (events : List ScrollEvent)
    (hall : AllAllowed l (.new n hasScroll) events) :
    ∃ s, run l (.new n hasScroll) events = some s ∧ Position l s ∧
      ∀ i, events.getLast? = some (.setVisible i) → i < s.itemCount → 1 ≤ l.lines →
        Visible l s i := by
  obtain ⟨s, hs, hheld, hvisible⟩ := run_held hl (new_held hl hn hasScroll) hall
  exact ⟨s, hs, hheld.position hl, hvisible⟩

/-- A list of items of 40 pixels in a box of 220. -/
def exampleLayout : ScrollLayout where
  mRenderX := 0
  mRenderY := 100
  mRenderW := 480
  mRenderH := 260
  mHeaderH := 40
  actualItemHeight := 40
  mFastScrollW := 30
  mFastScrollRectH := 20
  touchDebounce := 13
  allowSelection := true

/-- A drag, a fling, a fast scroll, a list that grows, and its last item. -/
theorem scrolling_spec_example :
    let events := [.render, .touchStart 100 300, .touchDrag 200, .touchDrag 150, .touchRelease,
      .update, .update, .touchStart 470 200, .touchDrag 300, .touchRelease, .setItemCount 25, .render,
      .setVisible 24]
    ∃ s, run exampleLayout (.new 20 false) events = some s ∧ Position exampleLayout s ∧
      ∀ i, events.getLast? = some (.setVisible i) → i < s.itemCount → 1 ≤ exampleLayout.lines →
        Visible exampleLayout s i :=
  scrolling_spec exampleLayout (by decide) 20 false (by decide) _ (by decide)

/-- A list of 20 items, scrolled to its end, of which 16 are left: two are shown, at the top. -/
theorem shrunk_list_gap :
    ∃ s, run exampleLayout (.new 20 false)
      [.render, .touchStart 470 300, .touchDrag 400, .touchRelease, .setItemCount 16, .render] =
        some s ∧ s.firstDisplayedItem = 14 ∧ ¬ Position exampleLayout s := by
  refine ⟨_, rfl, by decide, fun h => ?_⟩
  have hbottom := h.bottom (by decide)
  exact absurd hbottom (by decide)

end GUIScrollList

end Recovery.Gui
