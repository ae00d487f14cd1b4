import Mathlib.Algebra.Order.Ring.Int
import Mathlib.Data.List.Basic

/-!
# `printf` and `sscanf` of decimal integers

* `printNat`, `printInt` — `%zu` and `%d`.
* `scanZu`, `scanTwo` — `%zu` and `%zu %zu`.
* `scanZu_printNat`, `scanTwo_printNat` — a number is read back as it was printed.

Only the conversions that the models need: decimal digits, white space skipped in front of a
number, and a failure when there is no digit.  Numbers are unbounded here; a model that stores one
in a machine word does so itself.
-/

set_option autoImplicit false

namespace Recovery.Lib

/-- `isspace` in the C locale. -/
def isspace (c : Char) : Bool := c = ' ' || ('\t' ≤ c && c ≤ '\r')

def printNat (n : Nat) : List Char := Nat.toDigits 10 n

def printInt (i : Int) : List Char :=
  if i < 0 then '-' :: printNat i.natAbs else printNat i.natAbs

/-- `%zu` of `sscanf`: the number and the rest of the text. -/
def scanZu (s : List Char) : Option (Nat × List Char) :=
  let s := s.dropWhile isspace
  let negative := s.head? = some '-'
  let s := if s.head? = some '-' ∨ s.head? = some '+' then s.tail else s
  let digits := s.takeWhile Char.isDigit
  if digits = [] then none
  else
    let value := min (Nat.ofDigitChars 10 digits 0) (2 ^ 64 - 1)
    some (if negative then (2 ^ 64 - value) % 2 ^ 64 else value, s.dropWhile Char.isDigit)

/-- `%zu %zu` of `sscanf`. -/
def scanTwo (s : List Char) : Option (Nat × Nat) := do
  let (a, s) ← scanZu s
  let (b, _) ← scanZu s
  return (a, b)

/-! ## Numerals -/

theorem printNat_isDigit {n : Nat} {c : Char} (h : c ∈ printNat n) : c.isDigit = true :=
  Nat.isDigit_of_mem_toDigits (by decide) (by decide) h

theorem printNat_ne_nil (n : Nat) : printNat n ≠ [] := Nat.toDigits_ne_nil

theorem printInt_natCast (n : Nat) : printInt n = printNat n := by
  rw [printInt, if_neg (by lia), Int.natAbs_natCast]

theorem isspace_of_isDigit {c : Char} (h : c.isDigit = true) : isspace c = false := by
  have h0 : c ≠ ' ' := fun he => by
    rw [he] at h
    cases h
  have h1 : ¬ c ≤ '\r' := fun hle => by
    rw [Char.isDigit, Bool.and_eq_true, decide_eq_true_eq, decide_eq_true_eq] at h
    exact absurd (UInt32.le_trans h.1 hle) (by decide)
  simp [isspace, h0, h1]

/-- A text that starts with a digit starts with no space and no sign. -/
theorem printNat_head {n : Nat} : ∃ c cs, printNat n = c :: cs ∧ c.isDigit = true := by
  cases h : printNat n with
  | nil => exact absurd h (printNat_ne_nil n)
  | cons c cs =>
    refine ⟨c, cs, rfl, printNat_isDigit (n := n) ?_⟩
    rw [h]
    exact List.mem_cons_self

theorem scanZu_printNat {n : Nat} (hn : n < 2 ^ 64) {rest : List Char}
    (hrest : rest.head?.all fun c => !c.isDigit) :
    scanZu (printNat n ++ rest) = some (n, rest) := by
  obtain ⟨c, cs, hc, hd⟩ := printNat_head (n := n)
  have hstart : (printNat n ++ rest).dropWhile isspace = printNat n ++ rest := by
    rw [hc, List.cons_append, List.dropWhile_cons_of_neg]
    rw [isspace_of_isDigit hd]
    decide
  have hsign : ∀ x, x.isDigit = false → (printNat n ++ rest).head? ≠ some x := by
    intro x hx he
    rw [hc, List.cons_append, List.head?_cons] at he
    rw [Option.some.inj he, hx] at hd
    cases hd
  have hdigits : (printNat n ++ rest).takeWhile Char.isDigit = printNat n ∧
      (printNat n ++ rest).dropWhile Char.isDigit = rest := by
    rw [List.takeWhile_append_of_pos fun _ => printNat_isDigit,
      List.dropWhile_append_of_pos fun _ => printNat_isDigit]
    cases rest with
    | nil => simp
    | cons r rs =>
      have hr : r.isDigit = false := by simpa using hrest
      simp [hr]
  have hvalue : Nat.ofDigitChars 10 (printNat n) 0 = n := Nat.ofDigitChars_ten_toDigits
  unfold scanZu
  simp only [hstart, hsign '-' rfl, hsign '+' rfl, hdigits.1, hdigits.2, hvalue, printNat_ne_nil,
    if_false, or_self]
  rw [Nat.min_eq_left (by lia)]

theorem scanTwo_printNat {a b : Nat} (ha : a < 2 ^ 64) (hb : b < 2 ^ 64) :
    scanTwo (printNat a ++ ' ' :: printNat b) = some (a, b) := by
  have hspace : scanZu (' ' :: printNat b) = scanZu (printNat b ++ []) := by
    rw [scanZu, scanZu, List.append_nil, List.dropWhile_cons_of_pos (by decide)]
  unfold scanTwo
  rw [scanZu_printNat ha (by simp)]
  dsimp only [Option.bind_eq_bind, Option.bind_some]
  rw [hspace, scanZu_printNat hb (by simp)]
  rfl

end Recovery.Lib
