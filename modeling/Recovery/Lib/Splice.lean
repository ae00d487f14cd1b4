import Mathlib.Data.List.Basic

/-!
# Reads and writes at an offset

* `slice d off n` — the `n` cells from offset `off` on.
* `splice d off data` — `d` with `data` stored at offset `off`.
* `slice_splice_self`, `slice_splice_inside`, `slice_splice_of_disjoint` — what a read sees of a
  write.
* `splice_splice`, `splice_slice` — the later of two writes to one place, and a write of what is
  there.

Offsets and lengths are numbers of cells, and a read past the end is short.  The update writes
blocks in any order, so most uses are `slice_splice_of_disjoint`: what is not in the range of a
write is as it was.
-/

set_option autoImplicit false

namespace Recovery.Lib

variable {α : Type}

def slice (d : List α) (off n : Nat) : List α := (d.drop off).take n

def splice (d : List α) (off : Nat) (data : List α) : List α :=
  d.take off ++ data ++ d.drop (off + data.length)

variable {d data : List α} {off : Nat}

theorem length_splice (h : off + data.length ≤ d.length) :
    (splice d off data).length = d.length := by
  simp [splice]
  lia

theorem length_slice {n : Nat} (h : off + n ≤ d.length) : (slice d off n).length = n := by
  simp [slice]
  lia

/-- Two reads in a row. -/
theorem slice_append (m n : Nat) : slice d off m ++ slice d (off + m) n = slice d off (m + n) := by
  unfold slice
  rw [List.take_add, List.drop_drop]

theorem slice_middle (before mid after : List α) :
    slice (before ++ (mid ++ after)) before.length mid.length = mid := by
  unfold slice
  rw [List.drop_left, List.take_left]

theorem slice_splice_self (h : off + data.length ≤ d.length) :
    slice (splice d off data) off data.length = data := by
  have hl : (d.take off).length = off := by
    rw [List.length_take]
    lia
  unfold slice splice
  rw [List.append_assoc, List.drop_append_of_le_length (by lia), List.drop_of_length_le (by lia),
    List.nil_append, List.take_left]

theorem slice_splice_of_disjoint {pos n : Nat} (h : off + data.length ≤ d.length)
    (hd : pos + n ≤ off ∨ off + data.length ≤ pos) :
    slice (splice d off data) pos n = slice d pos n := by
  have hl : (d.take off).length = off := by
    rw [List.length_take]
    lia
  apply List.ext_getElem?
  intro i
  unfold slice splice
  rw [List.getElem?_take, List.getElem?_take, List.getElem?_drop, List.getElem?_drop]
  split
  · rcases hd with hd | hd
    · rw [List.append_assoc, List.getElem?_append_left (by lia), List.getElem?_take,
        if_pos (by lia)]
    · rw [List.getElem?_append_right (by rw [List.length_append]; lia), List.getElem?_drop,
        List.length_append]
      congr 1
      lia
  · rfl

/-- A read inside a read. -/
theorem slice_slice {p m n : Nat} (h : p + n ≤ m) :
    slice (slice d off m) p n = slice d (off + p) n := by
  unfold slice
  rw [List.drop_take, List.take_take, Nat.min_eq_left (by lia), List.drop_drop]

/-- A read of a part of what was written. -/
theorem slice_splice_inside {p n : Nat} (h : off + data.length ≤ d.length)
    (hle : p + n ≤ data.length) : slice (splice d off data) (off + p) n = slice data p n := by
  rw [← slice_slice (m := data.length) hle, slice_splice_self h]

theorem slice_map_range' {β : Type} (f : Nat → β) {a p m n : Nat} (h : p + n ≤ m) :
    slice ((List.range' a m).map f) p n = (List.range' (a + p) n).map f := by
  apply List.ext_getElem?
  intro i
  simp only [slice, List.getElem?_take, List.getElem?_drop, List.getElem?_map]
  split
  · rw [List.getElem?_range' (by omega), List.getElem?_range' (by omega)]
    simp [Nat.add_assoc]
  · rw [List.getElem?_eq_none (by rw [List.length_range']; omega)]
    rfl

theorem splice_splice {data' : List α} (h : off + data.length ≤ d.length)
    (hlen : data'.length = data.length) :
    splice (splice d off data) off data' = splice d off data' := by
  have hl : (d.take off).length = off := by
    rw [List.length_take]
    lia
  unfold splice
  rw [List.append_assoc (d.take off), List.take_append_of_le_length (by lia),
    List.take_of_length_le (by lia), ← List.append_assoc (d.take off), hlen,
    List.drop_append_of_le_length (by rw [List.length_append]; lia),
    List.drop_of_length_le (by rw [List.length_append]; lia), List.nil_append]

/-- One splice right behind another. -/
theorem splice_append (h : off ≤ d.length) (more : List α) :
    splice (splice d off data) (off + data.length) more = splice d off (data ++ more) := by
  have hl : (d.take off ++ data).length = off + data.length := by
    rw [List.length_append, List.length_take, Nat.min_eq_left h]
  unfold splice
  rw [List.take_left' hl, ← List.drop_drop, List.drop_left' hl, List.drop_drop,
    List.length_append, List.append_assoc (d.take off), Nat.add_assoc]

theorem splice_slice {n : Nat} (h : off + n ≤ d.length) : splice d off (slice d off n) = d := by
  unfold splice
  rw [length_slice h, slice, List.append_assoc, ← List.drop_drop, List.take_append_drop,
    List.take_append_drop]

end Recovery.Lib
