import Recovery.Gui.TextInput

/-!
# The cursor of the input box (`gui/input.cpp`)

* `SameText` — neither texts nor the cursor are changed.
* `Inv` — the cursor is in the text, and the text is displayed.
* `HandleCursorByTouch_spec`, `setText_spec` — what is left after a touch, and after an edit.
* `Kept` — texts that are read are not shorter than the cursor's place, and edits are kept.
* `step_inv`, `run_inv` — steps and runs that are kept.
* `input_cursor` — with masks of one byte; `changed_under_cursor` — what else may happen.

The invariant names the text that is displayed, since a touch is looked up there; a variable that
shrinks under the cursor is the first way to break it.
-/

set_option autoImplicit false

namespace Recovery.Gui

variable {δ : Type} (c : InputBox) (v : BoxVariable δ)

/-- What is set is kept, or there is no variable. -/
def BoxVariable.Keeps (d : δ) : Prop :=
  ∀ value, (v.getValue (v.setValue value d).1).getD value = value

namespace GUIInput

/-- The cursor, as a position in the displayed text. -/
def displayedCursor (s : GUIInput) : Nat :=
  if s.mCursorLocation = -1 then s.displayValue.length else s.mCursorLocation.toNat

/-- -1, or a position in both texts. -/
def InRange (s : GUIInput) : Prop :=
  s.mCursorLocation = -1 ∨ 0 ≤ s.mCursorLocation ∧ s.mCursorLocation ≤ s.mValue.length ∧
    s.mCursorLocation ≤ s.displayValue.length

instance (s : GUIInput) : Decidable (InRange s) := by
  unfold InRange
  infer_instance

structure SameText (s s' : GUIInput) : Prop where
  value : s'.mValue = s.mValue
  display : s'.displayValue = s.displayValue
  cursor : s'.mCursorLocation = s.mCursorLocation

theorem SameText.trans {s s' s'' : GUIInput} (h : SameText s s') (h' : SameText s' s'') :
    SameText s s'' :=
  ⟨h'.value.trans h.value, h'.display.trans h.display, h'.cursor.trans h.cursor⟩

theorem SameText.ite {s s₁ s₂ : GUIInput} {p : Prop} [Decidable p] (h₁ : SameText s s₁)
    (h₂ : SameText s s₂) : SameText s (if p then s₁ else s₂) := by
  split
  · exact h₁
  · exact h₂

theorem HandleTextLocation_same (x : Option Int) (s : GUIInput) :
    SameText s (HandleTextLocation c x s) := by
  refine .ite ⟨rfl, rfl, rfl⟩ ?_
  cases x with
  | none => exact ⟨rfl, rfl, rfl⟩
  | some x => exact .ite ⟨rfl, rfl, rfl⟩ (.ite ⟨rfl, rfl, rfl⟩ ⟨rfl, rfl, rfl⟩)

theorem HandleCursorByText_same (s : GUIInput) : SameText s (HandleCursorByText c s) :=
  .ite (.ite ⟨rfl, rfl, rfl⟩ (.ite ⟨rfl, rfl, rfl⟩ ⟨rfl, rfl, rfl⟩)) ⟨rfl, rfl, rfl⟩

/-! ## Touches -/

theorem touchLoop_spec (x : Int) (more index : Nat) (prevX : Int) {s : GUIInput}
    (h : index + more ≤ s.displayValue.length + 1) :
    (touchLoop c x more index prevX s).mValue = s.mValue ∧
      (touchLoop c x more index prevX s).displayValue = s.displayValue ∧
      ((touchLoop c x more index prevX s).mCursorLocation = -1 ∨
        0 ≤ (touchLoop c x more index prevX s).mCursorLocation ∧
          (touchLoop c x more index prevX s).mCursorLocation ≤ s.displayValue.length) := by
  induction more generalizing index prevX s with
  | zero => exact ⟨rfl, rfl, .inl rfl⟩
  | succ more ih =>
    have hplace : (index : Int) - 1 = -1 ∨
        0 ≤ (index : Int) - 1 ∧ (index : Int) - 1 ≤ s.displayValue.length := by lia
    have hnext : index + 1 + more ≤ s.displayValue.length + 1 := by lia
    rw [touchLoop]
    split
    · split
      · exact ⟨rfl, rfl, hplace⟩
      · split
        · exact ⟨rfl, rfl, hplace⟩
        · split
          · exact ⟨rfl, rfl, .inr ⟨Int.natCast_nonneg index, Int.ofNat_le.2 (by lia)⟩⟩
          · exact ih (index + 1) _ hnext
    · exact ih (index + 1) _ hnext

/-- The cursor is at the end, where it was, or somewhere in the displayed text. -/
theorem HandleCursorByTouch_spec (x : Int) (s : GUIInput) :
    (HandleCursorByTouch c x s).mValue = s.mValue ∧
      (HandleCursorByTouch c x s).displayValue = s.displayValue ∧
      ((HandleCursorByTouch c x s).mCursorLocation = -1 ∨
        0 ≤ (HandleCursorByTouch c x s).mCursorLocation ∧
          (HandleCursorByTouch c x s).mCursorLocation ≤ s.displayValue.length ∨
        (HandleCursorByTouch c x s).mCursorLocation = s.mCursorLocation) := by
  unfold HandleCursorByTouch
  split
  · exact ⟨rfl, rfl, .inl rfl⟩
  · split
    · have hloop := touchLoop_spec c x (s.displayValue.length + 1) 0 (c.mRenderX + s.scrollingX)
        (Nat.le_of_eq (Nat.zero_add _))
      exact ⟨hloop.1, hloop.2.1, or_assoc.1 (.inl hloop.2.2)⟩
    · exact ⟨rfl, rfl, .inr (.inr rfl)⟩

/-! ## The invariant -/

/-- What is displayed of a text. -/
def visible (value : Text) : Text := if c.mFont then displayed c value else []

/-- The cursor is at the end, or somewhere in this text. -/
def Ranged (location : Int) (value : Text) : Prop :=
  location = -1 ∨ c.mFont = true ∧ 0 ≤ location ∧ location ≤ value.length

structure Inv (s : GUIInput) : Prop where
  display : s.displayValue = visible c s.mValue
  range : Ranged c s.mCursorLocation s.mValue

variable {c}

theorem displayed_length (hmask : c.mMask.length ≤ 1) (value : Text) :
    (displayed c value).length = value.length := by
  rw [displayed]
  split
  · rename_i hne
    have hone : c.mMask.length = 1 := by
      have hpos := List.length_pos_iff.2 hne
      lia
    rw [List.length_flatten, List.map_replicate, List.sum_replicate_nat, hone, Nat.mul_one]
  · rfl

theorem visible_length (hmask : c.mMask.length ≤ 1) (hfont : c.mFont = true) (value : Text) :
    (visible c value).length = value.length := by
  rw [visible, if_pos hfont, displayed_length hmask]

theorem Inv.same {s s' : GUIInput} (h : Inv c s) (hs : SameText s s') : Inv c s' := by
  constructor
  · rw [hs.display, hs.value]
    exact h.display
  · rw [hs.cursor, hs.value]
    exact h.range

theorem Inv.inRange {s : GUIInput} (hmask : c.mMask.length ≤ 1) (h : Inv c s) : InRange s := by
  rcases h.range with hend | ⟨hfont, hnonneg, hle⟩
  · exact .inl hend
  · refine .inr ⟨hnonneg, hle, ?_⟩
    rw [h.display, visible_length hmask hfont]
    exact hle

/-- Only with a font there is something to point at. -/
theorem Inv.font {s : GUIInput} (h : Inv c s) (hne : s.displayValue.length ≠ 0) :
    c.mFont = true := by
  by_contra hfont
  rw [h.display, visible, if_neg hfont] at hne
  exact hne rfl

/-- A cursor that is in the displayed text. -/
theorem Inv.move {s : GUIInput} (hmask : c.mMask.length ≤ 1) (h : Inv c s) {location : Int}
    (hne : s.displayValue.length ≠ 0) (hnonneg : 0 ≤ location)
    (hle : location ≤ s.displayValue.length) : Ranged c location s.mValue := by
  have hfont := h.font hne
  refine .inr ⟨hfont, hnonneg, ?_⟩
  rwa [h.display, visible_length hmask hfont] at hle

/-! ## The variable -/

variable (c)

theorem UpdateDisplayText_cursor (d : δ) (s : GUIInput) :
    (UpdateDisplayText c v d s).mCursorLocation = s.mCursorLocation := by
  unfold UpdateDisplayText
  split <;> rfl

theorem UpdateDisplayText_value (d : δ) (s : GUIInput) :
    (UpdateDisplayText c v d s).mValue =
      if c.mFont then (v.getValue d).getD s.mValue else s.mValue := by
  unfold UpdateDisplayText
  split <;> rfl

theorem UpdateDisplayText_display (d : δ) (s : GUIInput) :
    (UpdateDisplayText c v d s).displayValue =
      if c.mFont then displayed c (UpdateDisplayText c v d s).mValue else s.displayValue := by
  unfold UpdateDisplayText
  split <;> rfl

variable {c}

/-- A text that is read, if the cursor fits in it. -/
theorem UpdateDisplayText_inv {d : δ} {s : GUIInput}
    (hdisplay : c.mFont = false → s.displayValue = [])
    (hrange : Ranged c s.mCursorLocation (UpdateDisplayText c v d s).mValue) :
    Inv c (UpdateDisplayText c v d s) := by
  constructor
  · rw [UpdateDisplayText_display, visible]
    split
    · rfl
    · rename_i hfont
      exact hdisplay (Bool.eq_false_iff.2 hfont)
  · rw [UpdateDisplayText_cursor]
    exact hrange

theorem SetValue_same (value : Text) {s : GUIInput} (d : δ) (h : s.isLocalChange = true) :
    SameText s (SetValue c v value s d).1 := by
  refine .ite ?_ ⟨rfl, rfl, rfl⟩
  rw [NotifyVarChange, if_pos rfl, if_pos h]
  exact ⟨rfl, rfl, rfl⟩

theorem Inv.noFont {s : GUIInput} (h : Inv c s) (hfont : c.mFont = false) : s.displayValue = [] := by
  rw [h.display, visible, hfont]
  rfl

/-- An edit is kept, and displayed. -/
theorem setText_spec {s : GUIInput} {d : δ} (h : Inv c s) (hkeeps : v.Keeps d) {value : Text}
    {location : Int} (hrange : Ranged c location value) :
    ∃ s' d', (setText c v { s with mValue := value, mCursorLocation := location } d).2 = (s', d') ∧
      Inv c s' ∧ s'.mValue = value ∧ s'.mCursorLocation = location := by
  obtain ⟨s₁, hs₁⟩ : ∃ s₁ : GUIInput, s₁ =
    { s with mValue := value, mCursorLocation := location, isLocalChange := true } := ⟨_, rfl⟩
  have hset := SetValue_same (c := c) v value d (s := s₁) (by rw [hs₁])
  obtain ⟨s₂, hs₂⟩ : ∃ s₂, (SetValue c v value s₁ d).1 = s₂ := ⟨_, rfl⟩
  rw [hs₂] at hset
  have hvalue : (UpdateDisplayText c v (v.setValue value d).1 s₂).mValue = value := by
    have hold : s₂.mValue = value := by rw [hset.value, hs₁]
    rw [UpdateDisplayText_value, hold, hkeeps]
    exact ite_id _
  have hcursor : s₂.mCursorLocation = location := by rw [hset.cursor, hs₁]
  have hinv : Inv c (UpdateDisplayText c v (v.setValue value d).1 s₂) := by
    apply UpdateDisplayText_inv
    · rw [hset.display, hs₁]
      exact h.noFont
    · rw [hvalue, hcursor]
      exact hrange
  have hsame : SameText (UpdateDisplayText c v (v.setValue value d).1 s₂)
      (setText c v { s with mValue := value, mCursorLocation := location } d).2.1 := by
    rw [← hs₂, hs₁]
    exact (HandleTextLocation_same c none _).trans (HandleCursorByText_same c _)
  refine ⟨_, _, rfl, hinv.same hsame, hsame.value.trans hvalue, hsame.cursor.trans ?_⟩
  rw [UpdateDisplayText_cursor]
  exact hcursor

/-! ## Keys and touches -/

theorem Inv.place {s : GUIInput} (h : Inv c s) {location : Int}
    (hrange : Ranged c location s.mValue) : Inv c { s with mCursorLocation := location } :=
  ⟨h.display, hrange⟩

theorem NotifyKey_inv (hmask : c.mMask.length ≤ 1) {s : GUIInput} (h : Inv c s) (key : Int)
    (down : Bool) : Inv c (NotifyKey c key down s).2 := by
  have hmoved : ∀ location, Ranged c location s.mValue →
      Inv c (HandleCursorByText c { s with mCursorLocation := location }) := by
    intro location hrange
    exact (h.place hrange).same (HandleCursorByText_same c _)
  unfold NotifyKey
  split
  · exact h
  · split
    · split
      · exact h
      · rename_i hstart
        split
        · split
          · exact h.same ⟨rfl, rfl, rfl⟩
          · rename_i hne
            exact hmoved _ (h.move hmask hne (by lia) (by lia))
        · rename_i hend
          rcases h.range with hend' | ⟨hfont, hnonneg, hle⟩
          · exact absurd hend' hend
          · exact hmoved _ (.inr ⟨hfont, by lia, by lia⟩)
    · split
      · split
        · exact h
        · rename_i hend
          dsimp only
          split
          · exact hmoved _ (.inl rfl)
          · rename_i hlt
            rcases h.range with hend' | ⟨hfont, hnonneg, hle⟩
            · exact absurd hend' hend
            · exact hmoved _ (h.move hmask (by lia) (by lia) (by lia))
      · split
        · split
          · exact h
          · rename_i hne
            have hplace := h.place (h.move hmask hne (Int.le_refl 0) (Int.natCast_nonneg _))
            exact hplace.same ⟨rfl, rfl, rfl⟩
        · split
          · exact hmoved _ (.inl rfl)
          · exact h

theorem HandleCursorByTouch_inv (hmask : c.mMask.length ≤ 1) {s : GUIInput} (h : Inv c s)
    (x : Int) : Inv c (HandleCursorByTouch c x s) := by
  obtain ⟨hvalue, hdisplay, hcursor⟩ := HandleCursorByTouch_spec c x s
  constructor
  · rw [hdisplay, hvalue]
    exact h.display
  · rw [hvalue]
    rcases hcursor with hend | ⟨hnonneg, hle⟩ | hcursor
    · exact .inl hend
    · by_cases hne : s.displayValue.length = 0
      · left
        rw [HandleCursorByTouch, if_pos hne]
      · exact h.move hmask hne hnonneg hle
    · rw [hcursor]
      exact h.range

theorem NotifyTouch_inv (hmask : c.mMask.length ≤ 1) {s : GUIInput} (h : Inv c s) (shown : Bool)
    (state : TouchState) (x y : Int) : Inv c (NotifyTouch c shown state x y s).2 := by
  unfold NotifyTouch
  split
  · exact h
  · split
    · split
      · exact h
      · split
        · exact h.same ⟨rfl, rfl, rfl⟩
        · exact h
    · cases state with
      | start => exact h.same ⟨rfl, rfl, rfl⟩
      | drag =>
        dsimp only
        split
        · exact h.same ⟨rfl, rfl, rfl⟩
        · split
          · exact h.same ⟨rfl, rfl, rfl⟩
          · split
            · have hdragged : Inv c { s with DrawCursor := false, startSelection := -1 } :=
                h.same ⟨rfl, rfl, rfl⟩
              exact hdragged.same (HandleTextLocation_same c (some x) _)
            · exact h.same ⟨rfl, rfl, rfl⟩
      | release =>
        have hdrawn : Inv c { s with DrawCursor := true } := h.same ⟨rfl, rfl, rfl⟩
        exact HandleCursorByTouch_inv hmask hdrawn x
      | _ => exact h

/-! ## Characters -/

theorem Inv.cursor_end {s : GUIInput} (hmask : c.mMask.length ≤ 1) (h : Inv c s)
    (hfont : c.mFont = true) (hend : s.mCursorLocation = -1) :
    s.displayedCursor = s.mValue.length := by
  rw [displayedCursor, if_pos hend, h.display, visible_length hmask hfont]

theorem cursor_inside {s : GUIInput} (hnonneg : 0 ≤ s.mCursorLocation) :
    s.displayedCursor = s.mCursorLocation.toNat := by
  rw [displayedCursor, if_neg (by omega)]

/-- A key that is inserted. -/
theorem insert_spec (hmask : c.mMask.length ≤ 1) {s : GUIInput} {d : δ} (h : Inv c s)
    (hkeeps : v.Keeps d) {key : Int} (hfocus : s.HasInputFocus = true) (hkey : 32 ≤ key)
    (hallowed : allowed c key s = true) :
    ∃ s' d', step c v s d (.char key) = some (s', d') ∧ Inv c s' ∧
      (c.mFont = true → s'.mValue = s.mValue.insertIdx s.displayedCursor (char key) ∧
        s'.displayedCursor = s.displayedCursor + 1) := by
  have hback : key ≠ KEYBOARD_BACKSPACE := by
    rw [KEYBOARD_BACKSPACE]
    lia
  have hswipe : key ≠ KEYBOARD_SWIPE_LEFT := by
    rw [KEYBOARD_SWIPE_LEFT]
    lia
  rw [step, NotifyCharInput, if_pos hfocus, if_neg hback, if_neg hswipe, if_pos hkey,
    if_neg (by rw [hallowed]; nofun)]
  rcases h.range with hend | ⟨hfont, hnonneg, hle⟩
  · rw [if_pos hend]
    have hrange : Ranged c s.mCursorLocation (s.mValue ++ [char key]) := .inl hend
    obtain ⟨s', d', hset, hinv, hvalue, hcursor⟩ := setText_spec v h hkeeps hrange
    refine ⟨s', d', congrArg some hset, hinv, fun hfont => ?_⟩
    rw [hinv.cursor_end hmask hfont (hcursor.trans hend), hvalue, h.cursor_end hmask hfont hend]
    exact ⟨(List.insertIdx_length_self ..).symm, List.length_append⟩
  · have hcond : 0 ≤ s.mCursorLocation ∧ s.mCursorLocation ≤ s.mValue.length := ⟨hnonneg, hle⟩
    rw [if_neg (by lia), insert?, if_pos hcond]
    have hrange : Ranged c (s.mCursorLocation + 1)
        (s.mValue.insertIdx s.mCursorLocation.toNat (char key)) := by
      refine .inr ⟨hfont, by lia, ?_⟩
      rw [List.length_insertIdx_of_le_length (by lia)]
      lia
    obtain ⟨s', d', hset, hinv, hvalue, hcursor⟩ := setText_spec v h hkeeps hrange
    refine ⟨s', d', congrArg some hset, hinv, fun _ => ⟨?_, ?_⟩⟩
    · rw [cursor_inside hnonneg]
      exact hvalue
    · rw [cursor_inside hnonneg, cursor_inside (by lia), hcursor]
      lia

/-- A byte that is erased. -/
theorem backspace_spec (hmask : c.mMask.length ≤ 1) {s : GUIInput} {d : δ} (h : Inv c s)
    (hkeeps : v.Keeps d) (hfocus : s.HasInputFocus = true) :
    ∃ s' d', step c v s d (.char KEYBOARD_BACKSPACE) = some (s', d') ∧ Inv c s' ∧
      (c.mFont = true → s'.displayedCursor = s.displayedCursor - 1 ∧
        s'.mValue = if s.displayedCursor = 0 then s.mValue
          else s.mValue.eraseIdx (s.displayedCursor - 1)) := by
  rw [step, NotifyCharInput, if_pos hfocus, if_pos rfl]
  by_cases herase : 0 < s.mValue.length ∧ s.mCursorLocation ≠ 0
  · rw [if_pos herase]
    rcases h.range with hend | ⟨hfont, hnonneg, hle⟩
    · rw [if_pos hend]
      have hrange : Ranged c s.mCursorLocation s.mValue.dropLast := .inl hend
      obtain ⟨s', d', hset, hinv, hvalue, hcursor⟩ := setText_spec v h hkeeps hrange
      refine ⟨s', d', congrArg some hset, hinv, fun hfont => ?_⟩
      rw [hinv.cursor_end hmask hfont (hcursor.trans hend), hvalue, h.cursor_end hmask hfont hend,
        if_neg (by lia), List.eraseIdx_length_sub_one]
      exact ⟨List.length_dropLast, rfl⟩
    · have hcond : 0 ≤ s.mCursorLocation - 1 ∧ s.mCursorLocation - 1 ≤ s.mValue.length := by lia
      rw [if_neg (by lia), erase?, if_pos hcond]
      have hrange : Ranged c (s.mCursorLocation - 1)
          (s.mValue.eraseIdx (s.mCursorLocation - 1).toNat) := by
        refine .inr ⟨hfont, by lia, ?_⟩
        rw [List.length_eraseIdx_of_lt (by lia)]
        lia
      obtain ⟨s', d', hset, hinv, hvalue, hcursor⟩ := setText_spec v h hkeeps hrange
      refine ⟨s', d', congrArg some hset, hinv, fun _ => ⟨?_, ?_⟩⟩
      · rw [cursor_inside hnonneg, cursor_inside (by lia), hcursor]
        lia
      · rw [cursor_inside hnonneg, if_neg (by lia), hvalue]
        congr 1
        lia
  · rw [if_neg herase]
    refine ⟨s, d, rfl, h, fun hfont => ?_⟩
    have hstart : s.displayedCursor = 0 := by
      rcases h.range with hend | ⟨-, hnonneg, hle⟩
      · rw [h.cursor_end hmask hfont hend]
        lia
      · rw [cursor_inside hnonneg]
        lia
    rw [hstart]
    exact ⟨rfl, rfl⟩

/-- All bytes before the cursor, or all bytes. -/
theorem deleteAll_inv {s : GUIInput} (h : Inv c s) (d : δ) : Inv c (deleteAll c v s d).2.1 := by
  have hread : ∀ {s' : GUIInput} (d' : δ), s'.displayValue = s.displayValue →
      (s'.mCursorLocation = -1 ∨ c.mFont = true ∧ s'.mCursorLocation = 0) →
      Inv c { UpdateDisplayText c v d' s' with cursorX := c.mRenderX, scrollingX := 0 } := by
    intro s' d' hdisplay hcursor
    refine Inv.same (UpdateDisplayText_inv v (d := d') (s := s') ?_ ?_) ⟨rfl, rfl, rfl⟩
    · rw [hdisplay]
      exact h.noFont
    · refine hcursor.imp_right fun ⟨hfont, hstart⟩ => ⟨hfont, ?_, ?_⟩
      · exact Int.le_of_eq hstart.symm
      · rw [hstart]
        exact Int.natCast_nonneg _
  rw [deleteAll]
  dsimp only
  by_cases hend : s.mCursorLocation = -1
  · rw [if_pos hend]
    have hset := SetValue_same (c := c) v [] (s := { s with isLocalChange := true }) d rfl
    exact hread _ hset.display (.inl rfl)
  · rw [if_neg hend]
    rcases h.range with hend' | ⟨hfont, -, -⟩
    · exact absurd hend' hend
    · have hset := SetValue_same (c := c) v (s.mValue.drop s.mCursorLocation.toNat)
        (s := { s with
          isLocalChange := true
          mValue := s.mValue.drop s.mCursorLocation.toNat }) d rfl
      exact hread _ hset.display (.inr ⟨hfont, rfl⟩)

variable (c) in
/-- A character that is inserted, or erases one. -/
def Edits (key : Int) (s : GUIInput) : Prop :=
  s.HasInputFocus = true ∧ (key = KEYBOARD_BACKSPACE ∨ 32 ≤ key ∧ allowed c key s = true)

/-- Other characters are ignored, or start the action. -/
theorem NotifyCharInput_inv (hmask : c.mMask.length ≤ 1) {s : GUIInput} {d : δ} (h : Inv c s)
    {key : Int} (hkeeps : Edits c key s → v.Keeps d) :
    ∃ s' d', step c v s d (.char key) = some (s', d') ∧ Inv c s' := by
  by_cases hfocus : s.HasInputFocus = true
  · by_cases hback : key = KEYBOARD_BACKSPACE
    · have hkeeps' := hkeeps ⟨hfocus, .inl hback⟩
      obtain ⟨s', d', hstep, hinv, -⟩ := backspace_spec v hmask h hkeeps' hfocus
      exact ⟨s', d', by rw [hback, hstep], hinv⟩
    · by_cases hinsert : 32 ≤ key ∧ allowed c key s = true
      · have hkeeps' := hkeeps ⟨hfocus, .inr hinsert⟩
        obtain ⟨s', d', hstep, hinv, -⟩ :=
          insert_spec v hmask h hkeeps' hfocus hinsert.1 hinsert.2
        exact ⟨s', d', hstep, hinv⟩
      · rw [step, NotifyCharInput, if_pos hfocus, if_neg hback]
        split
        · exact ⟨_, _, rfl, deleteAll_inv v h d⟩
        · split
          · rename_i hkey
            have hrefused : (!allowed c key s) = true := by
              simpa using fun hallowed => hinsert ⟨hkey, hallowed⟩
            rw [if_pos hrefused]
            exact ⟨s, d, rfl, h⟩
          · split
            · cases c.mAction with
              | none => exact ⟨s, d, rfl, h⟩
              | some ret =>
                dsimp only
                split
                · exact ⟨s, d, rfl, h⟩
                · split <;> exact ⟨s, d, rfl, h⟩
            · exact ⟨s, d, rfl, h⟩
  · rw [step, NotifyCharInput, if_neg hfocus]
    exact ⟨s, d, rfl, h⟩

/-! ## Runs -/

variable (c) in
/-- A notification that has the text read. -/
def Reads (varName : String) (s : GUIInput) : Prop :=
  c.mFont = true ∧ if varName = c.mVariable then s.isLocalChange = false else varName = ""

variable (c) in
/-- Texts that are read are long enough for the cursor, and the variable keeps what is set. -/
def Kept (s : GUIInput) (d : δ) : BoxEvent δ → Prop
  | .varChange varName =>
    Reads c varName s → ∀ value, v.getValue d = some value → s.mCursorLocation ≤ value.length
  | .char key => Edits c key s → v.Keeps d
  | _ => True

variable (c) in
/-- Along a run. -/
def AllKept : GUIInput → δ → List (BoxEvent δ) → Prop
  | _, _, [] => True
  | s, d, e :: events =>
    Kept c v s d e ∧ ∀ s' d', step c v s d e = some (s', d') → AllKept s' d' events

theorem read_inv {s : GUIInput} {d : δ} (h : Inv c s)
    (hlong : c.mFont = true → ∀ value, v.getValue d = some value →
      s.mCursorLocation ≤ value.length) : Inv c (UpdateDisplayText c v d s) := by
  refine UpdateDisplayText_inv v h.noFont ?_
  refine h.range.imp_right fun ⟨hfont, hnonneg, hle⟩ => ⟨hfont, hnonneg, ?_⟩
  rw [UpdateDisplayText_value, if_pos hfont]
  cases hget : v.getValue d with
  | none => exact hle
  | some value => exact hlong hfont value hget

theorem NotifyVarChange_inv {s : GUIInput} {d : δ} (h : Inv c s) {varName : String}
    (hkept : Kept c v s d (.varChange varName)) : Inv c (NotifyVarChange c v varName d s) := by
  rw [Kept, Reads] at hkept
  rw [NotifyVarChange]
  by_cases hname : varName = c.mVariable
  · rw [if_pos hname] at hkept ⊢
    split
    · exact h.same ⟨rfl, rfl, rfl⟩
    · rename_i hother
      have hread := read_inv v h (d := d) fun hfont => hkept ⟨hfont, Bool.eq_false_iff.2 hother⟩
      exact hread.same (HandleTextLocation_same c none _)
  · rw [if_neg hname] at hkept ⊢
    split
    · rename_i hempty
      have hread := read_inv v h (d := d) fun hfont => hkept ⟨hfont, hempty⟩
      exact (hread.same (HandleTextLocation_same c none _)).same (HandleCursorByText_same c _)
    · exact h

theorem step_inv (hmask : c.mMask.length ≤ 1) {s : GUIInput} {d : δ} (h : Inv c s)
    {e : BoxEvent δ} (hkept : Kept c v s d e) :
    ∃ s' d', step c v s d e = some (s', d') ∧ Inv c s' := by
  cases e with
  | varChange varName => exact ⟨_, _, rfl, NotifyVarChange_inv v h hkept⟩
  | touch shown state x y => exact ⟨_, _, rfl, NotifyTouch_inv hmask h shown state x y⟩
  | key key down => exact ⟨_, _, rfl, NotifyKey_inv hmask h key down⟩
  | char key => exact NotifyCharInput_inv v hmask h hkept
  | other d focus startSelection => exact ⟨_, _, rfl, h.same ⟨rfl, rfl, rfl⟩⟩

theorem run_inv (hmask : c.mMask.length ≤ 1) {s : GUIInput} {d : δ} (h : Inv c s)
    {events : List (BoxEvent δ)} (hkept : AllKept c v s d events) :
    ∃ s' d', run c v s d events = some (s', d') ∧ Inv c s' := by
  induction events generalizing s d with
  | nil => exact ⟨s, d, rfl, h⟩
  | cons e events ih =>
    obtain ⟨s', d', hstep, hinv⟩ := step_inv v hmask h hkept.1
    obtain ⟨s'', d'', hrun, hinv'⟩ := ih hinv (hkept.2 s' d' hstep)
    refine ⟨s'', d'', ?_, hinv'⟩
    rw [run, hstep]
    exact hrun

theorem new_inv (focus : Bool) (startSelection : Int) : Inv c (new focus startSelection) := by
  refine ⟨?_, .inl rfl⟩
  rw [visible, displayed]
  split
  · split <;> rfl
  · rfl

variable (c) in
/-- A key is inserted where the cursor is displayed, and the byte before it is erased. -/
def EditsAtCursor (s : GUIInput) (d : δ) : Prop :=
  (∀ key, 32 ≤ key → allowed c key s = true →
    ∃ s' d', step c v s d (.char key) = some (s', d') ∧
      s'.mValue = s.mValue.insertIdx s.displayedCursor (char key) ∧
      s'.displayedCursor = s.displayedCursor + 1) ∧
  ∃ s' d', step c v s d (.char KEYBOARD_BACKSPACE) = some (s', d') ∧
    s'.displayedCursor = s.displayedCursor - 1 ∧
    s'.mValue = if s.displayedCursor = 0 then s.mValue else s.mValue.eraseIdx (s.displayedCursor - 1)

theorem Inv.edits (hmask : c.mMask.length ≤ 1) {s : GUIInput} {d : δ} (h : Inv c s)
    (hfont : c.mFont = true) (hfocus : s.HasInputFocus = true) (hkeeps : v.Keeps d) :
    EditsAtCursor c v s d := by
  constructor
  · intro key hkey hallowed
    obtain ⟨s', d', hstep, -, hedit⟩ := insert_spec v hmask h hkeeps hfocus hkey hallowed
    exact ⟨s', d', hstep, hedit hfont⟩
  · obtain ⟨s', d', hstep, -, hedit⟩ := backspace_spec v hmask h hkeeps hfocus
    exact ⟨s', d', hstep, hedit hfont⟩

/-- **The cursor is in the text, in each run with a mask of one byte at most whose steps are
kept.** -/
theorem input_cursor (hmask : c.mMask.length ≤ 1) (focus : Bool) (startSelection : Int) (d : δ)
    {events : List (BoxEvent δ)} (hkept : AllKept c v (new focus startSelection) d events) :
    ∃ s d', run c v (new focus startSelection) d events = some (s, d') ∧ InRange s ∧
      (c.mFont = true → s.displayValue = displayed c s.mValue ∧
        (s.HasInputFocus = true → v.Keeps d' → EditsAtCursor c v s d')) := by
  obtain ⟨s, d', hrun, hinv⟩ := run_inv v hmask (new_inv focus startSelection) hkept
  refine ⟨s, d', hrun, hinv.inRange hmask, fun hfont => ⟨?_, hinv.edits v hmask hfont⟩⟩
  rw [hinv.display, visible, if_pos hfont]

def plainBox (mMask : Text) : InputBox where
  mVariable := "tw_backup_name"
  mMask
  mFont := true
  measure := fun text => 10 * text.length
  AllowedList := []
  DisabledList := []
  MinLen := 0
  MaxLen := 0
  mRenderX := 0
  mRenderY := 0
  mRenderW := 400
  mRenderH := 50
  CursorWidth := 3
  mAction := none

def plainVariable : BoxVariable Text where
  getValue := some
  setValue := fun value _ => (value, true)

/-- A key is typed, and the cursor moved behind the first one. -/
theorem input_cursor_plain :
    ∃ s d', run (plainBox []) plainVariable (new true (-1)) [97]
        [.varChange "", .char 98, .key KEY_LEFT true] = some (s, d') ∧ InRange s ∧
      ((plainBox []).mFont = true → s.displayValue = displayed (plainBox []) s.mValue ∧
        (s.HasInputFocus = true → plainVariable.Keeps d' →
          EditsAtCursor (plainBox []) plainVariable s d')) := by
  refine input_cursor (c := plainBox []) plainVariable (Nat.zero_le 1) true (-1) [97] ⟨?_, ?_⟩
  · intro _ value hvalue
    cases hvalue
    decide
  · intro s d h
    cases h
    refine ⟨fun _ value => rfl, ?_⟩
    intro s d h
    cases h
    exact ⟨trivial, fun _ _ _ => trivial⟩

/-- **Other code clears the text under the cursor; a mask has more bytes than the text.**  The next
key is inserted behind the end: `std::out_of_range`. -/
theorem changed_under_cursor :
    (∃ s d, run (plainBox []) plainVariable (new true (-1)) [97, 98]
        [.varChange "", .char 99, .key KEY_LEFT true, .other [] true (-1),
          .varChange "tw_backup_name"] = some (s, d) ∧
      ¬ InRange s ∧ step (plainBox []) plainVariable s d (.char 100) = none) ∧
    ∃ s d, run (plainBox [42, 42]) plainVariable (new true (-1)) [97, 98]
        [.varChange "", .key KEY_LEFT true] = some (s, d) ∧
      ¬ InRange s ∧ step (plainBox [42, 42]) plainVariable s d (.char 100) = none :=
  ⟨⟨_, _, rfl, by decide, by decide⟩, _, _, rfl, by decide, by decide⟩

end GUIInput

end Recovery.Gui
