import Mathlib.Algebra.Order.Ring.Int

/-!
# `int`

* `toInt` — the `int` that a 32-bit machine word holds when arithmetic wraps around.

Counters that the source keeps in an `int` and that can pass its range go through `toInt`: from
`2 ^ 31` on they are negative, as on the device.  `toInt_eq` — below that bound nothing changes.
-/

set_option autoImplicit false

namespace Recovery.Lib

def toInt (z : Int) : Int := z.bmod (2 ^ 32)

theorem toInt_eq {z : Int} (h : -2 ^ 31 ≤ z) (h' : z < 2 ^ 31) : toInt z = z := by
  unfold toInt
  rw [Int.bmod_def]
  lia

end Recovery.Lib
