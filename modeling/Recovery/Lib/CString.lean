import Mathlib.Data.List.TakeWhile
import Recovery.Lib.Splice

/-!
# C strings in fixed arrays

* `ascii` — a text of the source; `cStr` — a text up to its first NUL.
* `Chars n` — `char array[n]`.
* `strlcpy`, `strlcat` — as in `string.h`: the result is terminated, what does not fit is cut.
* `Holds a t` — the array holds the text `t`, cut, and zeros behind it; `holds_strlcpy`,
  `holds_strlcat` — copying and appending texts to an array of zeros.

The arrays have a fixed length in their type, so a store outside of one cannot be written down; a
source buffer without a terminator is read to its end.
-/

set_option autoImplicit false

namespace Recovery.Lib

/-- A text of the source. -/
def ascii (s : String) : List UInt8 := s.toList.map Char.toUInt8

/-- The characters before the first NUL. -/
def cStr (s : List UInt8) : List UInt8 := s.takeWhile (· ≠ 0)

theorem zero_notMem_cStr (s : List UInt8) : 0 ∉ cStr s := by
  intro h
  simpa using List.mem_takeWhile_imp h

theorem cStr_eq {s : List UInt8} (h : 0 ∉ s) : cStr s = s := by
  unfold cStr
  rw [List.takeWhile_eq_self_iff]
  intro b hb
  simp only [ne_eq, decide_eq_true_eq]
  rintro rfl
  exact h hb

theorem cStr_append {s : List UInt8} (h : 0 ∉ s) (t : List UInt8) : cStr (s ++ t) = s ++ cStr t := by
  unfold cStr
  rw [List.takeWhile_append_of_pos]
  intro b hb
  simp only [ne_eq, decide_eq_true_eq]
  rintro rfl
  exact h hb

theorem cStr_append_cut {s : List UInt8} (h : 0 ∈ s) (t : List UInt8) : cStr (s ++ t) = cStr s := by
  have hcut : (cStr s).length ≠ s.length := by
    intro hlen
    have hsame : cStr s = s := (List.takeWhile_prefix _).eq_of_length hlen
    exact zero_notMem_cStr s (by rw [hsame]; exact h)
  unfold cStr at hcut ⊢
  rw [List.takeWhile_append, if_neg hcut]

theorem cStr_append_zero {s : List UInt8} (h : 0 ∉ s) (rest : List UInt8) :
    cStr (s ++ 0 :: rest) = s := by
  have hall : ∀ b ∈ s, decide (b ≠ 0) = true := by
    intro b hb
    simp only [ne_eq, decide_eq_true_eq]
    rintro rfl
    exact h hb
  unfold cStr
  rw [List.takeWhile_append_of_pos hall]
  simp

/-- `char array[n]`. -/
abbrev Chars (n : Nat) := { bs : List UInt8 // bs.length = n }

namespace Chars

variable {n : Nat}

/-- `memset(array, 0, n)`. -/
def zeros (n : Nat) : Chars n := ⟨List.replicate n 0, List.length_replicate⟩

/-- `array[i] = c`. -/
def set (a : Chars n) (i : Nat) (c : UInt8) : Chars n := ⟨a.1.set i c, by rw [List.length_set, a.2]⟩

/-- Overwrite the array from `p` on; nothing is written past its end. -/
def put (a : Chars n) (p : Nat) (data : List UInt8) : Chars n :=
  if h : p + data.length ≤ n then
    ⟨splice a.1 p data, by rw [length_splice (by rw [a.2]; exact h), a.2]⟩
  else a

def strlcpy (a : Chars n) (src : List UInt8) : Chars n := a.put 0 ((cStr src).take (n - 1) ++ [0])

/-- Without a NUL in the array nothing is appended. -/
def strlcat (a : Chars n) (src : List UInt8) : Chars n :=
  let len := (cStr a.1).length
  a.put len ((cStr src).take (n - 1 - len) ++ [0])

/-- The array holds `t` as far as it fits, and zeros. -/
def Holds (a : Chars n) (t : List UInt8) : Prop :=
  0 ∉ t ∧ a.1 = t.take (n - 1) ++ List.replicate (n - (t.take (n - 1)).length) 0

theorem holds_zeros (n : Nat) : Holds (zeros n) [] := by
  refine ⟨nofun, ?_⟩
  simp [zeros]

/-- Writing behind a text that zeros follow. -/
theorem put_behind {a : Chars n} {t q : List UInt8}
    (ha : a.1 = t ++ List.replicate (n - t.length) 0) (hroom : t.length + (q.length + 1) ≤ n) :
    (a.put t.length (q ++ [0])).1 = t ++ q ++ List.replicate (n - (t ++ q).length) 0 := by
  unfold put
  rw [dif_pos (by simpa using hroom)]
  simp only [splice, ha, List.take_left, List.length_append, List.length_singleton]
  have hdrop : (t ++ List.replicate (n - t.length) (0 : UInt8)).drop (t.length + (q.length + 1)) =
      List.replicate (n - t.length - (q.length + 1)) 0 := by
    rw [← List.drop_drop, List.drop_left, List.drop_replicate]
  rw [hdrop, List.append_assoc, List.append_assoc, List.append_assoc, List.singleton_append,
    ← List.replicate_succ]
  congr 3
  lia

theorem Holds.cStr {a : Chars n} {t : List UInt8} (h : a.Holds t) (hn : 0 < n) :
    cStr a.1 = t.take (n - 1) := by
  have hlen : (t.take (n - 1)).length < n := by
    rw [List.length_take]
    omega
  obtain ⟨m, hm⟩ : ∃ m, n - (t.take (n - 1)).length = m + 1 := ⟨_, (Nat.succ_pred (by omega)).symm⟩
  rw [h.2, hm, List.replicate_succ]
  exact cStr_append_zero (fun hmem => h.1 (List.mem_of_mem_take hmem)) _

/-- The last character is a NUL already. -/
theorem Holds.set_last {a : Chars n} {t : List UInt8} (h : a.Holds t) (hn : 0 < n) :
    a.set (n - 1) 0 = a := by
  have hlen : (t.take (n - 1)).length ≤ n - 1 := by
    rw [List.length_take]
    exact Nat.min_le_left _ _
  have hlast : a.1[n - 1]? = some 0 := by
    rw [h.2, List.getElem?_append_right hlen, List.getElem?_replicate, if_pos (by omega)]
  apply Subtype.ext
  apply List.ext_getElem?
  intro i
  simp only [set, List.getElem?_set]
  split
  · rename_i hi
    rw [← hi, hlast, if_pos (by rw [a.2]; omega)]
  · rfl

/-- **Appending** to an array that holds a text. -/
theorem holds_strlcat {a : Chars n} {t : List UInt8} (h : a.Holds t) (hn : 0 < n)
    (src : List UInt8) : (a.strlcat src).Holds (t ++ Lib.cStr src) := by
  refine ⟨?_, ?_⟩
  · rw [List.mem_append, not_or]
    exact ⟨h.1, zero_notMem_cStr src⟩
  have hk : (t.take (n - 1)).length = min (n - 1) t.length := List.length_take
  have hq : ((Lib.cStr src).take (n - 1 - (t.take (n - 1)).length)).length ≤
      n - 1 - (t.take (n - 1)).length := by
    rw [List.length_take]
    exact Nat.min_le_left _ _
  have hjoin : (t ++ Lib.cStr src).take (n - 1) =
      t.take (n - 1) ++ (Lib.cStr src).take (n - 1 - (t.take (n - 1)).length) := by
    rw [List.take_append, hk]
    rcases Nat.le_total t.length (n - 1) with hle | hle
    · rw [Nat.min_eq_right hle]
    · rw [Nat.min_eq_left hle, Nat.sub_self, Nat.sub_eq_zero_of_le hle]
  unfold strlcat
  rw [h.cStr hn]
  dsimp only
  rw [put_behind h.2 (by lia), hjoin]

theorem holds_strlcpy (hn : 0 < n) (src : List UInt8) :
    ((zeros n).strlcpy src).Holds (Lib.cStr src) := by
  have hcat := holds_strlcat (holds_zeros n) hn src
  have hempty : Lib.cStr (zeros n).1 = [] := by
    rw [(holds_zeros n).cStr hn, List.take_nil]
  unfold strlcat at hcat
  rw [hempty] at hcat
  exact hcat

end Chars

end Recovery.Lib
