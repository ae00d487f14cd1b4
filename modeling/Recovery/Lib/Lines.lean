import Mathlib.Data.List.Basic

/-!
# Lines of a text

* `unlines sep ls` — every line with the separator behind it.
* `tokens sep xs` — the pieces between separators that are not empty.
* `tokens_take_unlines` — lines are found again in a text that was cut, unless something other than
  the last separator is missing.

A writer that stores lines in a field of fixed size cuts the text there, perhaps within the last
line; the last lemma says for which cuts the reader still sees every line.
-/

set_option autoImplicit false

namespace Recovery.Lib

variable {α : Type}

def unlines (sep : α) (ls : List (List α)) : List α := ls.flatMap (· ++ [sep])

theorem unlines_cons (sep : α) (l : List α) (ls : List (List α)) :
    unlines sep (l :: ls) = l ++ sep :: unlines sep ls := by
  simp [unlines]

variable [DecidableEq α]

def tokens (sep : α) (xs : List α) : List (List α) := (xs.splitOn sep).filter (· ≠ [])

/-- A text without separator is one piece. -/
theorem tokens_of_notMem {sep : α} {xs : List α} (h : sep ∉ xs) :
    tokens sep xs = if xs = [] then [] else [xs] := by
  unfold tokens
  rw [List.splitOn_eq_singleton h]
  split
  · rename_i hnil
    simp [hnil]
  · rename_i hne
    simp [hne]

theorem tokens_line {sep : α} {l : List α} (hl : l ≠ []) (h : sep ∉ l) (rest : List α) :
    tokens sep (l ++ sep :: rest) = l :: tokens sep rest := by
  unfold tokens
  rw [List.splitOn_append_cons_self_of_not_mem h, List.filter_cons_of_pos (by simpa using hl)]

/-- The pieces have no separator, and nothing that the text has not. -/
theorem mem_splitOn {sep : α} {xs l : List α} (h : l ∈ xs.splitOn sep) :
    sep ∉ l ∧ ∀ a ∈ l, a ∈ xs := by
  induction xs generalizing l with
  | nil =>
    rw [List.splitOn_nil, List.mem_singleton] at h
    rw [h]
    exact ⟨nofun, nofun⟩
  | cons x xs ih =>
    rw [List.splitOn_cons_eq_if_modifyHead] at h
    split at h
    · rcases List.mem_cons.1 h with rfl | h
      · exact ⟨nofun, nofun⟩
      · exact ⟨(ih h).1, fun a ha => List.mem_cons_of_mem _ ((ih h).2 a ha)⟩
    · rename_i hx
      rw [beq_iff_eq] at hx
      cases hs : xs.splitOn sep with
      | nil => exact absurd hs (List.splitOn_ne_nil _ _)
      | cons first pieces =>
        rw [hs, List.modifyHead_cons] at h
        rcases List.mem_cons.1 h with rfl | h
        · have hfirst : first ∈ xs.splitOn sep := by
            rw [hs]
            exact List.mem_cons_self
          refine ⟨?_, ?_⟩
          · intro hmem
            rcases List.mem_cons.1 hmem with rfl | hmem
            · exact hx rfl
            · exact (ih hfirst).1 hmem
          · intro a ha
            rcases List.mem_cons.1 ha with rfl | ha
            · exact List.mem_cons_self
            · exact List.mem_cons_of_mem _ ((ih hfirst).2 a ha)
        · have hl : l ∈ xs.splitOn sep := by
            rw [hs]
            exact List.mem_cons_of_mem _ h
          exact ⟨(ih hl).1, fun a ha => List.mem_cons_of_mem _ ((ih hl).2 a ha)⟩

theorem mem_tokens {sep : α} {xs l : List α} (h : l ∈ tokens sep xs) :
    l ≠ [] ∧ sep ∉ l ∧ ∀ a ∈ l, a ∈ xs := by
  unfold tokens at h
  rw [List.mem_filter, decide_eq_true_eq] at h
  exact ⟨h.2, mem_splitOn h.1⟩

/-- A text that starts with something other than the separator has a piece. -/
theorem tokens_cons_ne_nil {sep a : α} (h : a ≠ sep) (xs : List α) : tokens sep (a :: xs) ≠ [] := by
  unfold tokens
  rw [List.splitOn_cons_eq_if_modifyHead, if_neg (by simpa using h)]
  cases hs : xs.splitOn sep with
  | nil => exact absurd hs (List.splitOn_ne_nil _ _)
  | cons first pieces =>
    rw [List.modifyHead_cons, List.filter_cons_of_pos (by simp)]
    exact List.cons_ne_nil _ _

/-- **Lines in a text that is cut** are found again when at most the last separator is missing. -/
theorem tokens_take_unlines {sep : α} {ls : List (List α)} (h : ∀ l ∈ ls, l ≠ [] ∧ sep ∉ l)
    (n : Nat) : tokens sep ((unlines sep ls).take n) = ls ↔ (unlines sep ls).length ≤ n + 1 := by
  induction ls generalizing n with
  | nil => simp [unlines, tokens]
  | cons l ls ih =>
    obtain ⟨hl, hsep⟩ := h l List.mem_cons_self
    have hpos := List.length_pos_of_ne_nil hl
    rw [unlines_cons]
    by_cases hn : n ≤ l.length
    · -- the cut is in the first line, or right behind it
      have hnot : sep ∉ l.take n := fun hmem => hsep (List.mem_of_mem_take hmem)
      rw [List.take_append_of_le_length hn, tokens_of_notMem hnot]
      simp only [List.length_append, List.length_cons]
      constructor
      · intro heq
        split at heq
        · cases heq
        · obtain ⟨hfirst, hrest⟩ := List.cons.inj heq
          have hlen := congrArg List.length hfirst
          rw [List.length_take] at hlen
          rw [← hrest]
          simp only [unlines, List.flatMap_nil, List.length_nil]
          lia
      · intro hle
        have hrest : ls = [] := by
          cases ls with
          | nil => rfl
          | cons l' ls =>
            rw [unlines_cons] at hle
            simp only [List.length_append, List.length_cons] at hle
            lia
        have htake : l.take n = l := List.take_of_length_le (by lia)
        rw [hrest, htake, if_neg hl]
    · obtain ⟨m, rfl⟩ : ∃ m, n = l.length + (m + 1) := ⟨n - l.length - 1, by lia⟩
      rw [List.take_append, List.take_of_length_le (by lia), Nat.add_sub_cancel_left,
        List.take_succ_cons, tokens_line hl hsep, List.cons_eq_cons]
      have hih := ih (fun l' hl' => h l' (List.mem_cons_of_mem _ hl')) m
      simp only [true_and, List.length_append, List.length_cons]
      rw [hih]
      lia

end Recovery.Lib
