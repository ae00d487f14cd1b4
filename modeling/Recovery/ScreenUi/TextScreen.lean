import Recovery.Lib.CString
import Recovery.Lib.Layout
import Recovery.Lib.Text

/-!
# The text screen (`screen_ui.cpp`)

* `Text` — a buffer of `Alloc2d`; `Screen` — the buffer that is written to, and the cursor.
* `put` — an access to the buffer: nothing comes of one outside of it.
* `PrintV`, `PutChar`, `ClearText` — as in the source.
* `Valid`, `PrintV_valid` — prints stay in the buffer, keep the cursor in it, and leave a zero at
  the end of every row.
* `PutChar_eq` — what `PutChar` does: its cursor is that of `Layout.advance`.
* `PrintV_fits` — a text that fits in its row leaves the other rows as they are.

The rows have one cell more than the screen has columns, for the zero; `PrintV` formats nothing
here, its argument is the text that `vsnprintf` has made.
-/

set_option autoImplicit false

namespace Recovery.ScreenUi

open Recovery.Lib

variable {text_rows_ text_cols_ : Nat}

/-- `Alloc2d(text_rows_, text_cols_ + 1)`. -/
abbrev Text (text_rows_ text_cols_ : Nat) := Fin text_rows_ → Fin (text_cols_ + 1) → UInt8

structure Screen (text_rows_ text_cols_ : Nat) where
  text_ : Text text_rows_ text_cols_
  text_col_ : Nat
  text_row_ : Nat

/-! ## The source -/

def Text.write (t : Text text_rows_ text_cols_) (row col : Nat) (ch : UInt8) :
    Text text_rows_ text_cols_ :=
  fun i j => if i.1 = row ∧ j.1 = col then ch else t i j

/-- Every row is a C string: it ends in the buffer. -/
def Text.Terminated (t : Text text_rows_ text_cols_) : Prop := ∀ i, t i (Fin.last text_cols_) = 0

theorem Text.Terminated.write {t : Text text_rows_ text_cols_} (h : t.Terminated) {row col : Nat}
    {ch : UInt8} (hch : ch = 0 ∨ col ≠ text_cols_) : (t.write row col ch).Terminated := by
  intro i
  by_cases hij : i.1 = row ∧ text_cols_ = col
  · exact (if_pos hij).trans (hch.resolve_right fun hne => hne hij.2.symm)
  · exact (if_neg hij).trans (h i)

namespace Screen

variable (s : Screen text_rows_ text_cols_)

/-- `text_[text_row_][text_col_] = ch`. -/
def put (ch : UInt8) : Option (Screen text_rows_ text_cols_) :=
  if s.text_row_ < text_rows_ ∧ s.text_col_ < text_cols_ + 1 then
    some { s with text_ := s.text_.write s.text_row_ s.text_col_ ch }
  else none

/-- The body of the loop in `PrintV`. -/
def printChar (ch : UInt8) : Option (Screen text_rows_ text_cols_) := do
  let s ←
    if ch = newline ∨ text_cols_ ≤ s.text_col_ then do
      let s ← s.put 0
      pure { s with text_col_ := 0, text_row_ := (s.text_row_ + 1) % text_rows_ }
    else pure s
  if ch ≠ newline then do
    let s ← s.put ch
    pure { s with text_col_ := s.text_col_ + 1 }
  else pure s

/-- Of the text that is formatted. -/
def PrintV (str : List UInt8) : Option (Screen text_rows_ text_cols_) :=
  if 0 < text_rows_ ∧ 0 < text_cols_ then do
    let s ← (cStr str).foldlM printChar s
    s.put 0
  else some s

def PutChar (ch : UInt8) : Option (Screen text_rows_ text_cols_) := do
  let s ←
    if ch ≠ newline then do
      let s ← s.put ch
      pure { s with text_col_ := s.text_col_ + 1 }
    else pure s
  if ch = newline ∨ text_cols_ ≤ s.text_col_ then
    pure { s with text_col_ := 0, text_row_ := s.text_row_ + 1 }
  else pure s

def ClearText (_s : Screen text_rows_ text_cols_) : Screen text_rows_ text_cols_ :=
  ⟨fun _ _ => 0, 0, 0⟩

/-! ## Accesses stay in the buffer -/

/-- The cursor is in the buffer. -/
structure Valid : Prop where
  row : s.text_row_ < text_rows_
  col : s.text_col_ ≤ text_cols_

variable {s} {ch : UInt8}

theorem Valid.put (h : s.Valid) (ch : UInt8) :
    s.put ch = some { s with text_ := s.text_.write s.text_row_ s.text_col_ ch } :=
  if_pos ⟨h.row, Nat.lt_succ_of_le h.col⟩

/-- A character that needs no new row. -/
theorem printChar_fits (hrow : s.text_row_ < text_rows_) (hcol : s.text_col_ < text_cols_)
    (hch : ch ≠ newline) : s.printChar ch =
      some ⟨s.text_.write s.text_row_ s.text_col_ ch, s.text_col_ + 1, s.text_row_⟩ := by
  have hput := Valid.put ⟨hrow, Nat.le_of_lt hcol⟩ ch
  simp [printChar, hch, Nat.not_le.2 hcol, hput]

theorem printChar_newline (h : s.Valid) : s.printChar newline = some
    ⟨s.text_.write s.text_row_ s.text_col_ 0, 0, (s.text_row_ + 1) % text_rows_⟩ := by
  simp [printChar, h.put]

/-- A character behind a full row. -/
theorem printChar_wraps (h : s.Valid) (hcol : text_cols_ ≤ s.text_col_) (hch : ch ≠ newline) :
    s.printChar ch = some ⟨(s.text_.write s.text_row_ s.text_col_ 0).write
      ((s.text_row_ + 1) % text_rows_) 0 ch, 1, (s.text_row_ + 1) % text_rows_⟩ := by
  have hrow := Nat.mod_lt (s.text_row_ + 1) (Nat.zero_lt_of_lt h.row)
  have hput := Valid.put (s := ⟨s.text_.write s.text_row_ s.text_col_ 0, 0,
    (s.text_row_ + 1) % text_rows_⟩) ⟨hrow, Nat.zero_le _⟩ ch
  simp [printChar, hch, hcol, h.put, hput]

theorem printChar_valid (hcols : 0 < text_cols_) (h : s.Valid) (ch : UInt8) :
    ∃ s', s.printChar ch = some s' ∧ s'.Valid ∧ (s.text_.Terminated → s'.text_.Terminated) := by
  have hrow := Nat.mod_lt (s.text_row_ + 1) (Nat.zero_lt_of_lt h.row)
  by_cases hch : ch = newline
  · rw [hch, printChar_newline h]
    exact ⟨_, rfl, ⟨hrow, Nat.zero_le _⟩, fun ht => ht.write (.inl rfl)⟩
  · by_cases hcol : text_cols_ ≤ s.text_col_
    · rw [printChar_wraps h hcol hch]
      exact ⟨_, rfl, ⟨hrow, hcols⟩,
        fun ht => (ht.write (.inl rfl)).write (.inr (Nat.ne_of_lt hcols))⟩
    · rw [printChar_fits h.row (Nat.not_le.1 hcol) hch]
      exact ⟨_, rfl, ⟨h.row, Nat.not_le.1 hcol⟩,
        fun ht => ht.write (.inr (Nat.ne_of_lt (Nat.not_le.1 hcol)))⟩

theorem foldlM_printChar_valid (hcols : 0 < text_cols_) (h : s.Valid) (str : List UInt8) :
    ∃ s', str.foldlM printChar s = some s' ∧ s'.Valid ∧
      (s.text_.Terminated → s'.text_.Terminated) := by
  induction str generalizing s with
  | nil => exact ⟨s, rfl, h, id⟩
  | cons ch str ih =>
    obtain ⟨s', hs', hvalid, hterm⟩ := printChar_valid hcols h ch
    obtain ⟨s'', hs'', hvalid', hterm'⟩ := ih hvalid
    refine ⟨s'', ?_, hvalid', fun ht => hterm' (hterm ht)⟩
    rw [List.foldlM_cons, hs']
    exact hs''

theorem PrintV_eq (hdim : 0 < text_rows_ ∧ 0 < text_cols_) {str : List UInt8}
    {s' : Screen text_rows_ text_cols_} (hs' : (cStr str).foldlM printChar s = some s')
    (h : s'.Valid) : s.PrintV str =
      some ⟨s'.text_.write s'.text_row_ s'.text_col_ 0, s'.text_col_, s'.text_row_⟩ := by
  simp [PrintV, hdim, hs', h.put]

theorem PrintV_valid (h : s.Valid) (str : List UInt8) : ∃ s', s.PrintV str = some s' ∧ s'.Valid ∧
    (s.text_.Terminated → s'.text_.Terminated) := by
  by_cases hdim : 0 < text_rows_ ∧ 0 < text_cols_
  · obtain ⟨s', hs', hvalid, hterm⟩ := foldlM_printChar_valid hdim.2 h (cStr str)
    exact ⟨_, PrintV_eq hdim hs' hvalid, ⟨hvalid.row, hvalid.col⟩,
      fun ht => (hterm ht).write (.inl rfl)⟩
  · exact ⟨s, if_neg hdim, h, id⟩

/-! ## What is written -/

theorem PutChar_eq (h : s.Valid) (ch : UInt8) : s.PutChar ch = some
    ⟨if ch = newline then s.text_ else s.text_.write s.text_row_ s.text_col_ ch,
      (Layout.advance newline text_cols_ (s.text_row_, s.text_col_) ch).2,
      (Layout.advance newline text_cols_ (s.text_row_, s.text_col_) ch).1⟩ := by
  by_cases hch : ch = newline
  · simp [PutChar, hch, Layout.advance]
  · by_cases hcol : text_cols_ ≤ s.text_col_ + 1
    · simp [PutChar, hch, hcol, h.put, Layout.advance]
    · simp [PutChar, hch, hcol, h.put, Layout.advance]

theorem foldlM_printChar_fits {str : List UInt8} (hnewline : newline ∉ str)
    (hrow : s.text_row_ < text_rows_) (hlen : s.text_col_ + str.length ≤ text_cols_) :
    ∃ t, str.foldlM printChar s = some ⟨t, s.text_col_ + str.length, s.text_row_⟩ ∧
      ∀ i j, i.1 ≠ s.text_row_ → t i j = s.text_ i j := by
  induction str generalizing s with
  | nil => exact ⟨s.text_, rfl, fun _ _ _ => rfl⟩
  | cons ch str ih =>
    rw [List.mem_cons, not_or] at hnewline
    rw [List.length_cons] at hlen
    have hchar := printChar_fits hrow (by lia : s.text_col_ < text_cols_) (Ne.symm hnewline.1)
    obtain ⟨t, ht, hsame⟩ :=
      @ih ⟨s.text_.write s.text_row_ s.text_col_ ch, s.text_col_ + 1, s.text_row_⟩ hnewline.2 hrow
        (by dsimp only; lia)
    refine ⟨t, ?_, fun i j hi => ?_⟩
    · rw [List.foldlM_cons, hchar, List.length_cons, Nat.add_comm str.length, ← Nat.add_assoc]
      exact ht
    · rw [hsame i j hi]
      exact if_neg fun hij => hi hij.1

/-- A text without newlines that fits in its row leaves the other rows alone. -/
theorem PrintV_fits {str : List UInt8} (hnewline : newline ∉ str)
    (hrow : s.text_row_ < text_rows_) (hlen : s.text_col_ + str.length ≤ text_cols_) :
    ∃ s', s.PrintV str = some s' ∧ ∀ i j, i.1 ≠ s.text_row_ → s'.text_ i j = s.text_ i j := by
  by_cases hdim : 0 < text_rows_ ∧ 0 < text_cols_
  · have hsub : (cStr str).Sublist str := List.takeWhile_sublist _
    have hlen' : s.text_col_ + (cStr str).length ≤ text_cols_ := by
      have := hsub.length_le
      lia
    obtain ⟨t, ht, hsame⟩ := foldlM_printChar_fits (fun h => hnewline (hsub.subset h)) hrow hlen'
    refine ⟨_, PrintV_eq hdim ht ⟨hrow, hlen'⟩, fun i j hi => ?_⟩
    rw [← hsame i j hi]
    exact if_neg fun hij => hi hij.1
  · exact ⟨s, if_neg hdim, fun _ _ _ => rfl⟩

end Screen

end Recovery.ScreenUi
