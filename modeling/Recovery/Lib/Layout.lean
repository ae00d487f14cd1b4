import Mathlib.Data.Nat.Find
import Mathlib.Data.List.Basic
import Mathlib.Tactic.Push

/-!
# Text on pages

A text is written on pages of rows of equal width, newlines and full rows end a row.

* `advance` — where the cursor is behind one more character; `place` — the cells of the characters.
* `pageLen` — how much of a text the page takes until its last row, which stays empty; `Full` — the
  text comes so far.
* `map_snd_place`, `pairwise_place`, `mem_place_page` — every character but the newlines has one
  cell, in the order of the text, on the page.
* `pageStart`, `page` — pages one after the other; `flatMap_page` — they are the text.
* `exists_last` — the last one.

What a device does at the right edge is in `advance` alone.
-/

set_option autoImplicit false

namespace Recovery.Lib.Layout

variable {α : Type} [DecidableEq α] (newline : α) (cols : Nat)

/-- Row and column behind a character. -/
def advance (cur : Nat × Nat) (ch : α) : Nat × Nat :=
  if ch = newline ∨ cols ≤ cur.2 + 1 then (cur.1 + 1, 0) else (cur.1, cur.2 + 1)

def place : Nat × Nat → List α → List ((Nat × Nat) × α)
  | _, [] => []
  | cur, ch :: rest =>
    if ch = newline then place (advance newline cols cur ch) rest
    else (cur, ch) :: place (advance newline cols cur ch) rest

/-- The cursor is at the start of the last row. -/
def AtEnd (last : Nat) (cur : Nat × Nat) : Prop := cur.2 = 0 ∧ last ≤ cur.1

instance (last : Nat) (cur : Nat × Nat) : Decidable (AtEnd last cur) :=
  inferInstanceAs (Decidable (_ ∧ _))

def pageLen (last : Nat) : Nat × Nat → List α → Nat
  | _, [] => 0
  | cur, ch :: rest =>
    if AtEnd last (advance newline cols cur ch) then 1
    else pageLen last (advance newline cols cur ch) rest + 1

def Full (last : Nat) : Nat × Nat → List α → Prop
  | _, [] => False
  | cur, ch :: rest =>
    AtEnd last (advance newline cols cur ch) ∨ Full last (advance newline cols cur ch) rest

/-- In the order of reading. -/
def Before (p q : Nat × Nat) : Prop := p.1 < q.1 ∨ p.1 = q.1 ∧ p.2 < q.2

variable {newline cols} {cur : Nat × Nat} {ch : α} {bs : List α} {last : Nat}

theorem Before.trans {p q r : Nat × Nat} (h : Before p q) (h' : Before q r) : Before p r := by
  unfold Before at *
  lia

theorem before_advance (cur : Nat × Nat) (ch : α) : Before cur (advance newline cols cur ch) := by
  unfold advance Before
  split
  · exact .inl (Nat.lt_succ_self _)
  · exact .inr ⟨rfl, Nat.lt_succ_self _⟩

/-! ## Cells -/

theorem map_snd_place (cur : Nat × Nat) (bs : List α) :
    (place newline cols cur bs).map (·.2) = bs.filter (· ≠ newline) := by
  induction bs generalizing cur with
  | nil => rfl
  | cons ch rest ih =>
    rw [place]
    by_cases h : ch = newline
    · simp [h, ih]
    · simp [h, ih]

theorem before_of_mem_place {p : (Nat × Nat) × α}
    (h : p ∈ place newline cols (advance newline cols cur ch) bs) : Before cur p.1 := by
  have hstep : Before cur (advance newline cols cur ch) := before_advance cur ch
  induction bs generalizing cur ch with
  | nil => cases h
  | cons d rest ih =>
    rw [place] at h
    split at h
    · exact hstep.trans (ih h (before_advance _ d))
    · rcases List.mem_cons.1 h with rfl | h
      · exact hstep
      · exact hstep.trans (ih h (before_advance _ d))

/-- One cell for each character, in the order of the text. -/
theorem pairwise_place (cur : Nat × Nat) (bs : List α) :
    (place newline cols cur bs).Pairwise fun p q => Before p.1 q.1 := by
  induction bs generalizing cur with
  | nil => exact .nil
  | cons ch rest ih =>
    rw [place]
    split
    · exact ih _
    · exact .cons (fun q hq => before_of_mem_place hq) (ih _)

/-! ## Pages -/

/-- Above the last row, with room for a character. -/
def Inside (cols last : Nat) (cur : Nat × Nat) : Prop := cur.1 < last ∧ cur.2 < cols

theorem advance_inside (h : Inside cols last cur)
    (hend : ¬ AtEnd last (advance newline cols cur ch)) :
    Inside cols last (advance newline cols cur ch) := by
  unfold Inside AtEnd advance at *
  split at hend
  · rename_i hrow
    rw [if_pos hrow]
    simp only [true_and, Nat.not_le] at hend
    exact ⟨hend, by lia⟩
  · rename_i hrow
    rw [if_neg hrow]
    rw [not_or, Nat.not_le] at hrow
    exact ⟨h.1, hrow.2⟩

theorem advance_atEnd (h : Inside cols last cur)
    (hend : AtEnd last (advance newline cols cur ch)) :
    advance newline cols cur ch = (last, 0) := by
  unfold Inside AtEnd advance at *
  split at hend
  · rename_i hrow
    rw [if_pos hrow]
    simp only [true_and] at hend
    rw [show cur.1 + 1 = last by lia]
  · cases hend.1

/-- What is placed on a page is above its last row. -/
theorem mem_place_page (h : Inside cols last cur) {p : (Nat × Nat) × α}
    (hp : p ∈ place newline cols cur (bs.take (pageLen newline cols last cur bs))) :
    Inside cols last p.1 := by
  induction bs generalizing cur with
  | nil => cases hp
  | cons ch rest ih =>
    have hrest (hp : p ∈ place newline cols (advance newline cols cur ch)
          (rest.take (pageLen newline cols last (advance newline cols cur ch) rest)))
        (hend : ¬ AtEnd last (advance newline cols cur ch)) : Inside cols last p.1 :=
      ih (advance_inside h hend) hp
    rw [pageLen] at hp
    by_cases hend : AtEnd last (advance newline cols cur ch)
    · rw [if_pos hend, List.take_succ_cons, List.take_zero, place] at hp
      split at hp
      · cases hp
      · rw [List.mem_singleton.1 hp]
        exact h
    · rw [if_neg hend, List.take_succ_cons, place] at hp
      split at hp
      · exact hrest hp hend
      · rcases List.mem_cons.1 hp with rfl | hp
        · exact h
        · exact hrest hp hend

theorem pageLen_le (last : Nat) (cur : Nat × Nat) (bs : List α) :
    pageLen newline cols last cur bs ≤ bs.length := by
  induction bs generalizing cur with
  | nil => exact Nat.le_refl _
  | cons ch rest ih =>
    rw [pageLen, List.length_cons]
    split
    · lia
    · exact Nat.succ_le_succ (ih _)

theorem pageLen_pos (last : Nat) (cur : Nat × Nat) (hbs : bs ≠ []) :
    0 < pageLen newline cols last cur bs := by
  obtain ⟨ch, rest, rfl⟩ := List.exists_cons_of_ne_nil hbs
  rw [pageLen]
  split <;> lia

/-- A page that does not come to its last row has all of the text. -/
theorem pageLen_eq_length (h : ¬ Full newline cols last cur bs) :
    pageLen newline cols last cur bs = bs.length := by
  induction bs generalizing cur with
  | nil => rfl
  | cons ch rest ih =>
    rw [Full, not_or] at h
    rw [pageLen, if_neg h.1, ih h.2, List.length_cons]

theorem Full.ne_nil (h : Full newline cols last cur bs) : bs ≠ [] := by
  rintro rfl
  exact h

variable (newline cols last)

/-- Where the pages of a text start. -/
def pageStart (bs : List α) : Nat → Nat
  | 0 => 0
  | k + 1 => pageStart bs k + pageLen newline cols last (0, 0) (bs.drop (pageStart bs k))

/-- The text of a page from an offset on. -/
def page (bs : List α) (o : Nat) : List α :=
  (bs.drop o).take (pageLen newline cols last (0, 0) (bs.drop o))

variable {newline cols last}

theorem pageStart_le (bs : List α) (k : Nat) : pageStart newline cols last bs k ≤ bs.length := by
  induction k with
  | zero => exact Nat.zero_le _
  | succ k ih =>
    have hlen : pageLen newline cols last (0, 0) (bs.drop (pageStart newline cols last bs k)) ≤
        (bs.drop (pageStart newline cols last bs k)).length := pageLen_le _ _ _
    rw [List.length_drop] at hlen
    rw [pageStart]
    lia

/-- **Pages one after the other are the text.** -/
theorem flatMap_page (bs : List α) (k : Nat) :
    (List.range k).flatMap (fun i => page newline cols last bs (pageStart newline cols last bs i)) =
      bs.take (pageStart newline cols last bs k) := by
  induction k with
  | zero => rfl
  | succ k ih =>
    rw [List.range_succ, List.flatMap_append, ih, List.flatMap_singleton, page, pageStart,
      List.take_add]

/-- The text has a last page, and the pages before it are full. -/
theorem exists_last (bs : List α) : ∃ n,
    (∀ k < n, Full newline cols last (0, 0) (bs.drop (pageStart newline cols last bs k))) ∧
    ¬ Full newline cols last (0, 0) (bs.drop (pageStart newline cols last bs n)) := by
  classical
  have hex : ∃ n, ¬ Full newline cols last (0, 0)
      (bs.drop (pageStart newline cols last bs n)) := by
    by_contra hall
    push Not at hall
    have hgrow : ∀ k, k ≤ pageStart newline cols last bs k := by
      intro k
      induction k with
      | zero => exact Nat.zero_le _
      | succ k ih =>
        have hpos : 0 < pageLen newline cols last (0, 0)
            (bs.drop (pageStart newline cols last bs k)) := pageLen_pos _ _ (hall k).ne_nil
        rw [pageStart]
        lia
    have h1 := hgrow (bs.length + 1)
    have h2 : pageStart newline cols last bs (bs.length + 1) ≤ bs.length := pageStart_le bs _
    lia
  refine ⟨Nat.find hex, fun k hk => ?_, Nat.find_spec hex⟩
  exact not_not.1 (Nat.find_min hex hk)

end Recovery.Lib.Layout
