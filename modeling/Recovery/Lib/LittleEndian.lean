import Mathlib.Data.List.Basic
import Mathlib.Algebra.Order.Ring.Nat

/-!
# Little-endian numbers

* `toLE w n` — the `w` low bytes of `n`, least significant first.
* `ofLE bs` — the number a byte list stands for.
* `ofLE_toLE`, `toLE_ofLE` — the two are inverse on numbers that fit and on lists of that width.

Fields of file formats and of control structures are read and written through these two; the
width is a parameter, since the formats have fields of two, four and eight bytes.
-/

set_option autoImplicit false

namespace Recovery.Lib

def toLE : Nat → Nat → List UInt8
  | 0, _ => []
  | w + 1, n => UInt8.ofNat n :: toLE w (n / 256)

def ofLE : List UInt8 → Nat
  | [] => 0
  | b :: bs => b.toNat + 256 * ofLE bs

@[simp] theorem length_toLE : ∀ w n : Nat, (toLE w n).length = w
  | 0, _ => rfl
  | w + 1, n => by rw [toLE, List.length_cons, length_toLE]

theorem ofLE_lt : ∀ bs : List UInt8, ofLE bs < 256 ^ bs.length
  | [] => by simp [ofLE]
  | b :: bs => by
    have hb := b.toNat_lt
    have ih := ofLE_lt bs
    rw [ofLE, List.length_cons, pow_succ]
    lia

/-- Encoding keeps the number modulo its width. -/
theorem ofLE_toLE_mod : ∀ w n : Nat, ofLE (toLE w n) = n % 256 ^ w
  | 0, n => by rw [toLE, ofLE, pow_zero, Nat.mod_one]
  | w + 1, n => by
    rw [toLE, ofLE, ofLE_toLE_mod, pow_succ', Nat.mod_mul]
    congr 1

theorem ofLE_toLE {w n : Nat} (h : n < 256 ^ w) : ofLE (toLE w n) = n := by
  rw [ofLE_toLE_mod, Nat.mod_eq_of_lt h]

theorem toLE_ofLE : ∀ bs : List UInt8, toLE bs.length (ofLE bs) = bs
  | [] => rfl
  | b :: bs => by
    have hb := b.toNat_lt
    have hlow : UInt8.ofNat (b.toNat + 256 * ofLE bs) = b := by
      apply UInt8.toNat_inj.1
      rw [UInt8.toNat_ofNat']
      lia
    have hhigh : (b.toNat + 256 * ofLE bs) / 256 = ofLE bs := by lia
    rw [ofLE, List.length_cons, toLE, hlow, hhigh, toLE_ofLE bs]

end Recovery.Lib
