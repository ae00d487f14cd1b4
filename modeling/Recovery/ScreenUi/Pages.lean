import Recovery.ScreenUi.FilePager

/-!
# What a page of the file pager shows

* `pageOf` — the bytes of a page, from an offset of a file on; `cells` — where they are put.
* `PageText` — a buffer with these bytes in their cells and nothing else.
* `readPage_spec` — the loop around `getc` makes this buffer, and the cursor is at the start of the
  last row.
* `showPage_spec` — a page and its prompt; `newline_notMem_prompt` — the prompt has no newline.

`Painted.unique` — a buffer is determined by its cells, so what the loop leaves does not depend on
what the buffer held before.
-/

set_option autoImplicit false

namespace Recovery.ScreenUi

open Recovery.Lib
open Recovery.Lib.Layout (AtEnd Inside Full Before)

variable {text_rows_ text_cols_ : Nat}

/-! ## Buffers with bytes in cells -/

/-- The buffer has these bytes in these cells, and is otherwise as before. -/
structure Painted (t t' : Text text_rows_ text_cols_) (ps : List ((Nat × Nat) × UInt8)) : Prop where
  cell : ∀ p ∈ ps, ∀ i j, p.1 = (i.1, j.1) → t' i j = p.2
  other : ∀ i j, (∀ p ∈ ps, p.1 ≠ (i.1, j.1)) → t' i j = t i j

variable {t t' t'' : Text text_rows_ text_cols_} {ps : List ((Nat × Nat) × UInt8)}

theorem Painted.nil : Painted t t [] := ⟨nofun, fun _ _ _ => rfl⟩

theorem Painted.cons {cur : Nat × Nat} {ch : UInt8}
    (h : Painted (t.write cur.1 cur.2 ch) t' ps) (hnew : ∀ p ∈ ps, p.1 ≠ cur) :
    Painted t t' ((cur, ch) :: ps) where
  cell p hp i j hij := by
    rcases List.mem_cons.1 hp with rfl | hp
    · have hcur : cur = (i.1, j.1) := hij
      rw [h.other i j (by rwa [← hcur])]
      exact if_pos (by rw [hcur]; exact ⟨rfl, rfl⟩)
    · exact h.cell p hp i j hij
  other i j hno := by
    obtain ⟨hcur, hps⟩ := List.forall_mem_cons.1 hno
    rw [h.other i j hps]
    exact if_neg fun hij => hcur (Prod.ext hij.1.symm hij.2.symm)

theorem Painted.unique (h : Painted t t' ps) (h' : Painted t t'' ps) : t' = t'' := by
  funext i j
  by_cases hex : ∃ p ∈ ps, p.1 = (i.1, j.1)
  · obtain ⟨p, hp, hij⟩ := hex
    rw [h.cell p hp i j hij, h'.cell p hp i j hij]
  · have hno : ∀ p ∈ ps, p.1 ≠ (i.1, j.1) := fun p hp hij => hex ⟨p, hp, hij⟩
    rw [h.other i j hno, h'.other i j hno]

/-! ## Reading a page -/

/-- The padding at the end of the file. -/
theorem pad_spec {s : Screen text_rows_ text_cols_} {rounds : Nat}
    (hrow : s.text_row_ < text_rows_ - 1) (hcol : s.text_col_ ≤ text_cols_)
    (hrounds : text_rows_ - 1 ≤ s.text_row_ + rounds) :
    s.pad rounds = some ⟨s.text_, 0, text_rows_ - 1⟩ := by
  induction rounds generalizing s with
  | zero => lia
  | succ rounds ih =>
    have hput := Screen.PutChar_eq ⟨(by lia : s.text_row_ < text_rows_), hcol⟩ newline
    rw [Screen.pad, if_pos hrow, hput]
    by_cases hlast : s.text_row_ + 1 < text_rows_ - 1
    · have := @ih ⟨s.text_, 0, s.text_row_ + 1⟩ hlast (Nat.zero_le _) (by dsimp only; lia)
      simpa [Layout.advance] using this
    · have heq : s.text_row_ + 1 = text_rows_ - 1 := by lia
      cases rounds <;> simp [Screen.pad, Layout.advance, heq]

/-- A character, and then what is behind it. -/
theorem painted_place {cur : Nat × Nat} {ch : UInt8} {rest : List UInt8}
    (h : Painted (if ch = newline then t else t.write cur.1 cur.2 ch) t'
      (Layout.place newline text_cols_ (Layout.advance newline text_cols_ cur ch) rest)) :
    Painted t t' (Layout.place newline text_cols_ cur (ch :: rest)) := by
  rw [Layout.place]
  by_cases hch : ch = newline
  · rw [if_pos hch] at h ⊢
    exact h
  · rw [if_neg hch] at h ⊢
    refine h.cons fun p hp heq => ?_
    have hbefore := Layout.before_of_mem_place hp
    rw [heq] at hbefore
    unfold Layout.Before at hbefore
    lia

theorem readPage_spec {bs : List UInt8} {fp : FILE} {s : Screen text_rows_ text_cols_}
    (h : Inside text_cols_ (text_rows_ - 1) (s.text_row_, s.text_col_)) : ∃ fp' t,
    readPage bs fp s = some (fp', ⟨t, 0, text_rows_ - 1⟩) ∧ fp'.content = fp.content ∧
    fp'.offset = fp.offset +
      Layout.pageLen newline text_cols_ (text_rows_ - 1) (s.text_row_, s.text_col_) bs ∧
    (fp'.eof = true ↔ fp.eof = true ∨
      ¬ Full newline text_cols_ (text_rows_ - 1) (s.text_row_, s.text_col_) bs) ∧
    Painted s.text_ t (Layout.place newline text_cols_ (s.text_row_, s.text_col_) (bs.take
      (Layout.pageLen newline text_cols_ (text_rows_ - 1) (s.text_row_, s.text_col_) bs))) := by
  have hrow : s.text_row_ < text_rows_ - 1 := h.1
  have hcol : s.text_col_ < text_cols_ := h.2
  induction bs generalizing fp s with
  | nil =>
    have hpad : s.pad text_rows_ = some ⟨s.text_, 0, text_rows_ - 1⟩ :=
      pad_spec hrow (Nat.le_of_lt hcol) (by omega)
    refine ⟨{ fp with eof := true }, s.text_, ?_, rfl, rfl, by simp [Layout.Full], .nil⟩
    simp [readPage, hpad]
  | cons ch rest ih =>
    have hput := Screen.PutChar_eq ⟨(by omega : s.text_row_ < text_rows_), Nat.le_of_lt hcol⟩ ch
    have hplace := fun t' rest' => @painted_place text_rows_ text_cols_ s.text_ t'
      (s.text_row_, s.text_col_) ch rest'
    have hinside := @Layout.advance_inside _ _ newline text_cols_ _ ch _ h
    have hatEnd := @Layout.advance_atEnd _ _ newline text_cols_ _ ch _ h
    rw [Layout.pageLen, Layout.Full, readPage, hput]
    generalize Layout.advance newline text_cols_ (s.text_row_, s.text_col_) ch = cur at *
    obtain ⟨row, col⟩ := cur
    by_cases hend : AtEnd (text_rows_ - 1) (row, col)
    · obtain ⟨rfl, rfl⟩ := Prod.mk.inj (hatEnd hend)
      rw [if_pos hend]
      exact ⟨{ fp with offset := fp.offset + 1 }, _, if_pos hend, rfl, rfl, by simp [hend],
        hplace _ [] .nil⟩
    · have hnext := hinside hend
      rw [if_neg hend]
      obtain ⟨fp', t, hread, hcontent, hoffset, heof, hpaint⟩ :=
        @ih { fp with offset := fp.offset + 1 } ⟨_, col, row⟩ hnext hnext.1 hnext.2
      refine ⟨fp', t, (if_neg hend).trans hread, hcontent, ?_, ?_, hplace _ _ hpaint⟩
      · rw [hoffset]
        dsimp only
        omega
      · rw [heof]
        simp [hend]

/-! ## Pages of a file -/

/-- The bytes on the page from an offset on. -/
def pageOf (text_rows_ text_cols_ : Nat) (content : List UInt8) (o : Nat) : List UInt8 :=
  Layout.page newline text_cols_ (text_rows_ - 1) content o

/-- Where they are put. -/
def cells (text_rows_ text_cols_ : Nat) (content : List UInt8) (o : Nat) :
    List ((Nat × Nat) × UInt8) :=
  Layout.place newline text_cols_ (0, 0) (pageOf text_rows_ text_cols_ content o)

/-- The file goes on behind the page, or ends with the last character of it. -/
def FullPage (text_rows_ text_cols_ : Nat) (content : List UInt8) (o : Nat) : Prop :=
  Full newline text_cols_ (text_rows_ - 1) (0, 0) (content.drop o)

/-- Where the pages start when one pages down. -/
def offsetOf (text_rows_ text_cols_ : Nat) (content : List UInt8) (k : Nat) : Nat :=
  Layout.pageStart newline text_cols_ (text_rows_ - 1) content k

/-- The bytes of the page are in their cells, and nothing else is there. -/
def PageText (content : List UInt8) (o : Nat) (t : Text text_rows_ text_cols_) : Prop :=
  Painted (fun _ _ => 0) t (cells text_rows_ text_cols_ content o)

theorem length_pageOf (content : List UInt8) (o : Nat) :
    (pageOf text_rows_ text_cols_ content o).length =
      Layout.pageLen newline text_cols_ (text_rows_ - 1) (0, 0) (content.drop o) :=
  List.length_take_of_le (Layout.pageLen_le _ _ _)

theorem offsetOf_succ (content : List UInt8) (k : Nat) :
    offsetOf text_rows_ text_cols_ content (k + 1) = offsetOf text_rows_ text_cols_ content k +
      (pageOf text_rows_ text_cols_ content (offsetOf text_rows_ text_cols_ content k)).length := by
  rw [length_pageOf]
  rfl

/-- Every byte of a page but the newlines has one cell, row by row, and not in the last row. -/
theorem cells_spec (hrows : 2 ≤ text_rows_) (hcols : 1 ≤ text_cols_) (content : List UInt8)
    (o : Nat) :
    (cells text_rows_ text_cols_ content o).map (·.2) =
      (pageOf text_rows_ text_cols_ content o).filter (· ≠ newline) ∧
    ((cells text_rows_ text_cols_ content o).Pairwise fun p q => Before p.1 q.1) ∧
    ∀ p ∈ cells text_rows_ text_cols_ content o, p.1.1 < text_rows_ - 1 ∧ p.1.2 < text_cols_ :=
  ⟨Layout.map_snd_place _ _, Layout.pairwise_place _ _,
    fun _ hp => Layout.mem_place_page ⟨by omega, hcols⟩ hp⟩

theorem PageText.terminated (hrows : 2 ≤ text_rows_) (hcols : 1 ≤ text_cols_)
    {content : List UInt8} {o : Nat} (h : PageText content o t) : t.Terminated := by
  intro i
  refine h.other i _ fun p hp heq => ?_
  have hcol := ((cells_spec hrows hcols content o).2.2 p hp).2
  rw [heq] at hcol
  exact Nat.lt_irrefl _ hcol

theorem showPage_spec (hrows : 2 ≤ text_rows_) (hcols : 1 ≤ text_cols_)
    (percent : Nat → Nat → Int) (fp : FILE) (s : Screen text_rows_ text_cols_) : ∃ fp' t s',
    showPage percent fp s = some (fp', s') ∧ fp'.content = fp.content ∧
    fp'.offset = fp.offset + (pageOf text_rows_ text_cols_ fp.content fp.offset).length ∧
    (fp'.eof = true ↔ fp.eof = true ∨ ¬ FullPage text_rows_ text_cols_ fp.content fp.offset) ∧
    PageText fp.content fp.offset t ∧
    (⟨t, 0, text_rows_ - 1⟩ : Screen text_rows_ text_cols_).PrintV (prompt percent fp') =
      some s' ∧ s'.Valid ∧ s'.text_.Terminated := by
  have hinside : Inside text_cols_ (text_rows_ - 1)
      (s.ClearText.text_row_, s.ClearText.text_col_) :=
    ⟨by rw [Screen.ClearText]; dsimp only; omega, hcols⟩
  obtain ⟨fp', t, hread, hcontent, hoffset, heof, hpaint⟩ := readPage_spec hinside
  have hvalid : (⟨t, 0, text_rows_ - 1⟩ : Screen text_rows_ text_cols_).Valid :=
    ⟨by dsimp only; omega, Nat.zero_le _⟩
  obtain ⟨s', hs', hvalid', hterm⟩ := Screen.PrintV_valid hvalid (prompt percent fp')
  refine ⟨fp', t, s', ?_, hcontent, ?_, heof, hpaint, hs', hvalid',
    hterm (PageText.terminated hrows hcols hpaint)⟩
  · simp only [showPage, hread, Option.bind_eq_bind, Option.bind_some, hs']
    rfl
  · rw [hoffset, length_pageOf]
    rfl

/-! ## The prompt -/

theorem newline_notMem_toString (n : Nat) : newline ∉ ascii (toString n) := by
  intro h
  obtain ⟨c, hc, heq⟩ := List.mem_map.1 h
  rw [Nat.toString_eq_repr, Nat.toList_repr] at hc
  have hdigit := Nat.isDigit_of_mem_toDigits (by decide) (by decide) hc
  simp only [Char.isDigit, Bool.and_eq_true, decide_eq_true_eq, ge_iff_le,
    UInt32.le_iff_toNat_le] at hdigit
  have hnat : c.val.toUInt8.toNat = 10 := by
    rw [show c.val.toUInt8 = newline from heq]
    rfl
  rw [UInt32.toNat_toUInt8] at hnat
  have h0 : '0'.val.toNat = 48 := rfl
  have h9 : '9'.val.toNat = 57 := rfl
  lia

theorem newline_notMem_decimal (n : Int) : newline ∉ decimal n := by
  cases n with
  | ofNat n => exact newline_notMem_toString n
  | negSucc n =>
    rw [decimal, List.mem_append, not_or]
    exact ⟨by decide, newline_notMem_toString _⟩

theorem newline_notMem_prompt (percent : Nat → Nat → Int) (fp : FILE) :
    newline ∉ prompt percent fp := by
  simp only [prompt, List.mem_append, not_or]
  exact ⟨⟨⟨⟨by decide, newline_notMem_decimal _⟩, by decide⟩, newline_notMem_decimal _⟩, by decide⟩

end Recovery.ScreenUi
