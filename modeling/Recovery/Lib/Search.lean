import Mathlib.Data.List.Basic
import Recovery.Lib.Splice

/-!
# Searching for bytes, and writing into files

* `Occurs needle hay i` — the needle is in the haystack at `i`; `occurs_iff` — byte for byte.
* `memmem` — its first place from some place on; `memmem_eq_some`, `memmem_of_occurs`.
* `fwriteAt` — a write at any offset of a file: a gap before it holds zeros; `getElem?_fwriteAt`.

The lemmas on `memmem` come in two directions: the place that it returns holds the needle and is
the first to do so, and a place that holds it is not passed over.
-/

set_option autoImplicit false

namespace Recovery.Lib

variable {α : Type}

/-! ## Searching -/

def Occurs (needle hay : List α) (i : Nat) : Prop := needle <+: hay.drop i

instance [DecidableEq α] (needle hay : List α) (i : Nat) : Decidable (Occurs needle hay i) :=
  inferInstanceAs (Decidable (needle <+: hay.drop i))

/-- The first place of the needle from `start` on. -/
def memmem [DecidableEq α] (hay needle : List α) (start : Nat) : Option Nat :=
  (List.range hay.length).find? fun i => start ≤ i ∧ Occurs needle hay i

variable {needle hay hay' : List α} {i start : Nat}

theorem occurs_iff : Occurs needle hay i ↔ ∀ k b, needle[k]? = some b → hay[i + k]? = some b := by
  rw [Occurs, List.prefix_iff_getElem?]
  simp only [List.getElem?_drop]
  constructor
  · intro h k b hk
    obtain ⟨hlt, rfl⟩ := List.getElem?_eq_some_iff.1 hk
    exact h k hlt
  · intro h k hlt
    exact h k _ (List.getElem?_eq_getElem hlt)

theorem Occurs.lt (h : Occurs needle hay i) (hn : needle ≠ []) : i < hay.length := by
  have := h.length_le
  have := List.length_pos_of_ne_nil hn
  rw [List.length_drop] at *
  omega

/-- Only the bytes under the needle count. -/
theorem Occurs.congr (h : Occurs needle hay i)
    (heq : ∀ k, k < needle.length → hay'[i + k]? = hay[i + k]?) : Occurs needle hay' i := by
  rw [occurs_iff] at h ⊢
  intro k b hk
  obtain ⟨hlt, -⟩ := List.getElem?_eq_some_iff.1 hk
  rw [heq k hlt]
  exact h k b hk

theorem memmem_eq_some [DecidableEq α] (hn : needle ≠ []) : memmem hay needle start = some i ↔
    start ≤ i ∧ Occurs needle hay i ∧ ∀ j, start ≤ j → j < i → ¬ Occurs needle hay j := by
  rw [memmem, List.find?_range_eq_some]
  simp only [decide_eq_true_eq, Bool.not_eq_eq_eq_not, Bool.not_true, decide_eq_false_iff_not,
    not_and, List.mem_range]
  constructor
  · rintro ⟨⟨hs, ho⟩, -, h⟩
    exact ⟨hs, ho, fun j hj hlt => h j hlt hj⟩
  · rintro ⟨hs, ho, h⟩
    exact ⟨⟨hs, ho⟩, ho.lt hn, fun j hlt hj => h j hj hlt⟩

/-- It stays the first place where nothing new comes before it. -/
theorem memmem_of_occurs [DecidableEq α] (hn : needle ≠ []) (h : memmem hay needle start = some i)
    (ho : Occurs needle hay' i) (hold : ∀ j, j < i → Occurs needle hay' j → Occurs needle hay j) :
    memmem hay' needle start = some i := by
  obtain ⟨hs, -, hfirst⟩ := (memmem_eq_some hn).1 h
  exact (memmem_eq_some hn).2 ⟨hs, ho, fun j hj hlt hocc => hfirst j hj hlt (hold j hlt hocc)⟩

/-! ## Writing -/

/-- Nothing happens when nothing is written. -/
def fwriteAt (file : List UInt8) (off : Nat) (data : List UInt8) : List UInt8 :=
  if data = [] then file
  else splice (file ++ List.replicate (off - file.length) 0) off data

theorem length_fwriteAt {file data : List UInt8} {off : Nat} (hd : data ≠ []) :
    (fwriteAt file off data).length = max file.length (off + data.length) := by
  rw [fwriteAt, if_neg hd, splice]
  simp only [List.length_append, List.length_take, List.length_drop, List.length_replicate]
  lia

theorem getElem?_fwriteAt {file data : List UInt8} {off i : Nat} (hd : data ≠ []) :
    (fwriteAt file off data)[i]? =
      if i < off then if i < file.length then file[i]? else some 0
      else if i < off + data.length then data[i - off]? else file[i]? := by
  rw [fwriteAt, if_neg hd, splice]
  have hl : ((file ++ List.replicate (off - file.length) 0).take off).length = off := by
    rw [List.length_take, List.length_append, List.length_replicate]
    lia
  by_cases h1 : i < off
  · rw [if_pos h1, List.append_assoc, List.getElem?_append_left (by lia), List.getElem?_take,
      if_pos h1, List.getElem?_append]
    split
    · rfl
    · rw [List.getElem?_replicate, if_pos (by lia)]
  · rw [if_neg h1]
    by_cases h2 : i < off + data.length
    · rw [if_pos h2, List.append_assoc, List.getElem?_append_right (by lia), hl,
        List.getElem?_append_left (by lia)]
    · rw [if_neg h2, List.getElem?_append_right (by rw [List.length_append, hl]; lia),
        List.length_append, hl, List.getElem?_drop, Nat.add_sub_cancel' (by lia),
        List.getElem?_append]
      split
      · rfl
      · rename_i h3
        rw [List.getElem?_eq_none (by rw [List.length_replicate]; lia),
          List.getElem?_eq_none (by lia)]

end Recovery.Lib
