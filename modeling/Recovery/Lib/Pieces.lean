import Mathlib.Data.List.Basic

/-!
# Pieces between separators

* `pieces` — the pieces of a list between separators; empty ones do not count.
* `pieces_append_cons` — of two lists with a separator between them.
* `pieces_dropWhile` — separators in front do not matter.
* `joined` — pieces with a separator before each; `pieces_joined`, `pieces_append_joined`.
* `isPiece_of_mem` — a piece is not empty, and no separator is in it.

This is how `strtok` cuts a text, and `IsPiece` is what a token looks like.  Lists are arbitrary,
and a separator is a decidable property of an element.
-/

set_option autoImplicit false

namespace Recovery.Lib

variable {α : Type}

def joined (sep : α) (ws : List (List α)) : List α := ws.flatMap (sep :: ·)

/-- What can be a piece. -/
def IsPiece (sep : α) (w : List α) : Prop := w ≠ [] ∧ sep ∉ w

variable {sep : α} {w : List α} {ws : List (List α)}

theorem joined_cons : joined sep (w :: ws) = sep :: (w ++ joined sep ws) := rfl

theorem joined_append (vs ws : List (List α)) :
    joined sep (vs ++ ws) = joined sep vs ++ joined sep ws := List.flatMap_append

variable [DecidableEq α]

def pieces (sep : α) (s : List α) : List (List α) := (s.splitOn sep).filter (· ≠ [])

theorem pieces_nil : pieces sep [] = [] := by
  rw [pieces, List.splitOn_nil]
  rfl

theorem pieces_append_cons (xs ys : List α) :
    pieces sep (xs ++ sep :: ys) = pieces sep xs ++ pieces sep ys := by
  rw [pieces, List.splitOn_append_cons_self, List.filter_append]
  rfl

theorem pieces_cons (ys : List α) : pieces sep (sep :: ys) = pieces sep ys := by
  have h : pieces sep ([] ++ sep :: ys) = _ := pieces_append_cons [] ys
  rwa [pieces_nil, List.nil_append, List.nil_append] at h

theorem IsPiece.pieces_eq (h : IsPiece sep w) : pieces sep w = [w] := by
  rw [pieces, List.splitOn_eq_singleton h.2, List.filter_cons_of_pos (by simpa using h.1)]
  rfl

theorem pieces_dropWhile (s : List α) :
    pieces sep (s.dropWhile (· = sep)) = pieces sep s := by
  induction s with
  | nil => rfl
  | cons a s ih =>
    by_cases h : a = sep
    · rw [List.dropWhile_cons_of_pos (by simpa using h), ih, h, pieces_cons]
    · rw [List.dropWhile_cons_of_neg (by simpa using h)]

theorem takeWhile_append_cons (hw : sep ∉ w) (rest : List α) :
    (w ++ sep :: rest).takeWhile (· ≠ sep) = w := by
  rw [List.takeWhile_append_of_pos, List.takeWhile_cons_of_neg (by simp), List.append_nil]
  intro a ha
  exact decide_eq_true fun h => hw (h ▸ ha)

theorem dropWhile_append_cons (hw : sep ∉ w) (rest : List α) :
    (w ++ sep :: rest).dropWhile (· ≠ sep) = sep :: rest := by
  rw [List.dropWhile_append_of_pos, List.dropWhile_cons_of_neg (by simp)]
  intro a ha
  exact decide_eq_true fun h => hw (h ▸ ha)

/-- `joined` starts with a separator. -/
theorem pieces_append_joined (h : ∀ v ∈ ws, IsPiece sep v) (xs : List α) :
    pieces sep (xs ++ joined sep ws) = pieces sep xs ++ ws := by
  induction ws generalizing xs with
  | nil => rw [joined, List.flatMap_nil, List.append_nil, List.append_nil]
  | cons w ws ih =>
    have hw := h w List.mem_cons_self
    have hws := fun v hv => h v (List.mem_cons_of_mem _ hv)
    rw [joined_cons, pieces_append_cons, ih hws w, hw.pieces_eq]
    rfl

theorem pieces_joined (h : ∀ v ∈ ws, IsPiece sep v) : pieces sep (joined sep ws) = ws := by
  have := pieces_append_joined h []
  rwa [pieces_nil, List.nil_append, List.nil_append] at this

theorem not_mem_of_mem_splitOn {s v : List α} (h : v ∈ s.splitOn sep) : sep ∉ v := by
  induction s generalizing v with
  | nil =>
    rw [List.splitOn_nil] at h
    rw [List.mem_singleton.1 h]
    exact List.not_mem_nil
  | cons a s ih =>
    rw [List.splitOn_cons_eq_if_modifyHead] at h
    split at h
    · rcases List.mem_cons.1 h with rfl | h
      · exact List.not_mem_nil
      · exact ih h
    · rename_i ha
      -- the first piece goes on
      cases hs : s.splitOn sep with
      | nil =>
        rw [hs] at h
        exact absurd h List.not_mem_nil
      | cons w ws =>
        rw [hs, List.modifyHead_cons] at h
        rw [hs] at ih
        rcases List.mem_cons.1 h with rfl | h
        · intro hmem
          rcases List.mem_cons.1 hmem with rfl | hmem
          · exact ha (beq_self_eq_true _)
          · exact ih List.mem_cons_self hmem
        · exact ih (List.mem_cons_of_mem _ h)

theorem isPiece_of_mem {s v : List α} (h : v ∈ pieces sep s) : IsPiece sep v := by
  obtain ⟨h1, h2⟩ := List.mem_filter.1 h
  exact ⟨by simpa using h2, not_mem_of_mem_splitOn h1⟩

end Recovery.Lib
