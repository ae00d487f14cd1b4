import Mathlib.Algebra.Order.Ring.Int
import Mathlib.Data.List.Basic

/-!
# The text helpers of `libbase`

`android::base` is not part of the repository.  The models take its text helpers as one
parameter, `AndroidBase`; what a result needs to know about them is stated with the result.
`AndroidBase.decimal` is an instance for examples: what the helpers do on texts whose numbers are
plain decimal numerals.

`ParseUint`, `ParseInt` and `Split` are such helpers.  A result that holds for every parser of
numbers takes no hypothesis on them; one about texts that a person wrote takes the decimal one.
-/

set_option autoImplicit false

namespace Recovery.OtaUtil

/-- `std::numeric_limits<size_t>::max()`. -/
def SIZE_MAX : Nat := 2 ^ 64 - 1

/-- `std::numeric_limits<int>::max()`. -/
def INT_MAX : Nat := 2 ^ 31 - 1

/-- The helpers of `android-base/strings.h` and `android-base/parseint.h` the models call. -/
structure AndroidBase where
  /-- `Split(s, delimiters)`. -/
  split : String → String → List String
  /-- `Trim(s)`. -/
  trim : String → String
  /-- `ParseUint(s, &out, max)`. -/
  parseUint : String → Nat → Option Nat
  /-- Values beyond `max` are rejected. -/
  parseUint_le : ∀ s max n, parseUint s max = some n → n ≤ max
  /-- `ParseInt(s, &out, min, max)`. -/
  parseInt : String → Int → Int → Option Int

/-- The value of a decimal numeral. -/
def parseDecimal (s : List Char) : Option Nat :=
  if s ≠ [] ∧ s.all Char.isDigit then
    some (s.foldl (fun n c => 10 * n + (c.toNat - '0'.toNat)) 0)
  else none

def AndroidBase.decimal : AndroidBase where
  split s delimiters :=
    (s.toList.splitOnP fun c => delimiters.toList.contains c).map String.ofList
  trim s :=
    String.ofList ((s.toList.dropWhile Char.isWhitespace).reverse.dropWhile
      Char.isWhitespace).reverse
  parseUint s max := (parseDecimal s.toList).filter (· ≤ max)
  parseUint_le s max n h := by
    obtain ⟨-, hle⟩ := Option.filter_eq_some_iff.1 h
    simpa using hle
  parseInt s min max :=
    match s.toList with
    | '-' :: digits =>
      ((parseDecimal digits).map fun n => -(n : Int)).filter fun i => min ≤ i ∧ i ≤ max
    | digits =>
      ((parseDecimal digits).map fun n => (n : Int)).filter fun i => min ≤ i ∧ i ≤ max

end Recovery.OtaUtil
