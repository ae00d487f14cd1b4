import Mathlib.Data.List.Nodup
import Mathlib.Logic.Function.Basic

/-!
# Stores written through lists of addresses

A store is a function from addresses to cells.  A scattered read is `as.map d`; the scattered
write `fill d as bs` stores `bs` at the addresses `as`, one cell after the other, and stops at
the end of the shorter list.

* `fill_append_right`, `fill_append_left` — splitting the data or the addresses of a write.
* `fill_of_notMem` — cells at other addresses are unchanged.
* `fill_congr_of_mem` — at the addresses that are written, what was there before does not matter.
-/

set_option autoImplicit false

namespace Recovery.Lib

variable {κ α : Type} [DecidableEq κ]

/-- Store `bs` at the addresses `as`, in order. -/
def fill (d : κ → α) : List κ → List α → κ → α
  | a :: as, b :: bs => fill (Function.update d a b) as bs
  | _, _ => d

@[simp] theorem fill_nil_left (d : κ → α) (bs : List α) : fill d [] bs = d := by
  cases bs <;> rfl

@[simp] theorem fill_nil_right (d : κ → α) (as : List κ) : fill d as [] = d := by
  cases as <;> rfl

@[simp] theorem fill_cons (d : κ → α) (a : κ) (as : List κ) (b : α) (bs : List α) :
    fill d (a :: as) (b :: bs) = fill (Function.update d a b) as bs := rfl

/-- Writing more data goes on at the remaining addresses. -/
theorem fill_append_right : ∀ (d : κ → α) (as : List κ) (bs bs' : List α),
    fill d as (bs ++ bs') = fill (fill d as bs) (as.drop bs.length) bs'
  | d, as, [], bs' => by simp
  | d, [], b :: bs, bs' => by simp
  | d, a :: as, b :: bs, bs' => by
    simp only [List.cons_append, fill_cons, List.length_cons, List.drop_succ_cons]
    exact fill_append_right _ as bs bs'

/-- Further addresses take the remaining data. -/
theorem fill_append_left : ∀ (d : κ → α) (as as' : List κ) (bs : List α),
    fill d (as ++ as') bs = fill (fill d as bs) as' (bs.drop as.length)
  | d, [], as', bs => by simp
  | d, a :: as, as', [] => by simp
  | d, a :: as, as', b :: bs => by
    simp only [List.cons_append, fill_cons, List.length_cons, List.drop_succ_cons]
    exact fill_append_left _ as as' bs

/-- Only as many addresses as there is data matter. -/
theorem fill_take_left : ∀ (d : κ → α) (as : List κ) (bs : List α),
    fill d (as.take bs.length) bs = fill d as bs
  | d, [], bs => by simp
  | d, a :: as, [] => by simp
  | d, a :: as, b :: bs => by
    simp only [List.length_cons, List.take_succ_cons, fill_cons]
    exact fill_take_left _ as bs

/-- Only as much data as there are addresses matters. -/
theorem fill_take_right : ∀ (d : κ → α) (as : List κ) (bs : List α),
    fill d as (bs.take as.length) = fill d as bs
  | d, [], bs => by simp
  | d, a :: as, [] => by simp
  | d, a :: as, b :: bs => by
    simp only [List.length_cons, List.take_succ_cons, fill_cons]
    exact fill_take_right _ as bs

/-- **Frame**: a write leaves the cells at other addresses alone. -/
theorem fill_of_notMem : ∀ {d : κ → α} {as : List κ} {bs : List α} {i : κ},
    i ∉ as → fill d as bs i = d i
  | d, [], bs, i, _ => by simp
  | d, a :: as, [], i, _ => by simp
  | d, a :: as, b :: bs, i, h => by
    rw [List.mem_cons, not_or] at h
    rw [fill_cons, fill_of_notMem h.2, Function.update_of_ne h.1]

/-- Two writes to the same addresses agree there, whatever the store was before, when there is
data for every address. -/
theorem fill_congr_of_mem : ∀ {d d' : κ → α} {as : List κ} {bs : List α} {i : κ},
    i ∈ as → as.length ≤ bs.length → fill d as bs i = fill d' as bs i
  | d, d', [], bs, i, h, _ => by cases h
  | d, d', a :: as, [], i, _, hl => by simp at hl
  | d, d', a :: as, b :: bs, i, h, hl => by
    rw [fill_cons, fill_cons]
    by_cases hi : i ∈ as
    · exact fill_congr_of_mem hi (by simpa using hl)
    · rcases List.mem_cons.1 h with rfl | h
      · rw [fill_of_notMem hi, fill_of_notMem hi, Function.update_self, Function.update_self]
      · exact absurd h hi

end Recovery.Lib
