import Mathlib.Data.Int.ModEq
import Mathlib.Data.Nat.Digits.Lemmas
import Mathlib.Tactic.Ring

/-!
# Montgomery multiplication

* `reduce_lt` — one step keeps a number below `R + n`.
* `Represents R n x y` — `y` stands for `x` in Montgomery form; with the rules for entering the form
  (`represents_of_square`), for multiplication (`Represents.mul`, `Represents.square`) and for
  leaving it (`Represents.leave`).
* `value` — what a list of words, least significant first, stands for.

`R` is any number that is coprime to the modulus `n`.  The library says nothing of words and
carries; the arithmetic of `rsa.c` is shown to compute one step of it for each word.
-/

set_option autoImplicit false

namespace Recovery.Lib.Montgomery

/-! ## One step -/

/-- Adding a product of a digit and a multiple of the modulus, and dropping a digit. -/
theorem reduce_lt {W R n a b c d t : Nat} (ha : a < W) (hd : d < W) (hb : b < R) (hc : c < R)
    (h : W * t = c + a * b + d * n) : t < R + n := by
  have hab : a * b ≤ (W - 1) * (R - 1) := Nat.mul_le_mul (by omega) (by omega)
  have hdn : d * n ≤ (W - 1) * n := Nat.mul_le_mul_right n (by omega)
  have hlt : W * t < W * (R + n) := by
    obtain ⟨W, rfl⟩ : ∃ V, W = V + 1 := ⟨W - 1, by omega⟩
    obtain ⟨R, rfl⟩ : ∃ S, R = S + 1 := ⟨R - 1, by omega⟩
    rw [Nat.add_sub_cancel] at hab hdn
    rw [Nat.add_sub_cancel] at hab
    have hexpand : (W + 1) * (R + 1 + n) = W * R + W + R + 1 + W * n + n := by ring
    omega
  exact Nat.lt_of_mul_lt_mul_left hlt

/-! ## Montgomery form -/

/-- `y` stands for `x`. -/
def Represents (R n x y : Nat) : Prop := y ≡ x * R [MOD n]

variable {R n x y x' y' z : Nat}

/-- The factor can be dropped. -/
theorem cancel (hR : Nat.Coprime n R) (h : R * z ≡ R * y [MOD n]) : z ≡ y [MOD n] :=
  h.cancel_left_of_coprime hR

theorem represents_of_square (hR : Nat.Coprime n R) (hy : y ≡ R * R [MOD n])
    (hz : R * z ≡ x * y [MOD n]) : Represents R n x z := by
  refine cancel hR (hz.trans ?_)
  calc x * y ≡ x * (R * R) [MOD n] := hy.mul_left x
    _ = R * (x * R) := by ring

theorem Represents.mul (hR : Nat.Coprime n R) (hx : Represents R n x x') (hy : Represents R n y y')
    (hz : R * z ≡ x' * y' [MOD n]) : Represents R n (x * y) z := by
  refine cancel hR (hz.trans ?_)
  calc x' * y' ≡ x * R * (y * R) [MOD n] := Nat.ModEq.mul hx hy
    _ = R * (x * y * R) := by ring

theorem Represents.square (hR : Nat.Coprime n R) (hx : Represents R n x x')
    (hz : R * z ≡ x' * x' [MOD n]) : Represents R n (x ^ 2) z := by
  rw [pow_two]
  exact hx.mul hR hx hz

theorem Represents.leave (hR : Nat.Coprime n R) (hx : Represents R n x x')
    (hz : R * z ≡ x' * y [MOD n]) : z ≡ x * y [MOD n] := by
  refine cancel hR (hz.trans ?_)
  calc x' * y ≡ x * R * y [MOD n] := Nat.ModEq.mul_right y hx
    _ = R * (x * y) := by ring

/-! ## Words -/

/-- The number that 32-bit words stand for, least significant word first. -/
def value (ws : List UInt32) : Nat := Nat.ofDigits (2 ^ 32) (ws.map UInt32.toNat)

@[simp] theorem value_nil : value [] = 0 := rfl

@[simp] theorem value_cons (w : UInt32) (ws : List UInt32) :
    value (w :: ws) = w.toNat + 2 ^ 32 * value ws := Nat.ofDigits_cons

theorem value_append (ws vs : List UInt32) :
    value (ws ++ vs) = value ws + (2 ^ 32) ^ ws.length * value vs := by
  rw [value, List.map_append, Nat.ofDigits_append, List.length_map]
  rfl

theorem value_lt (ws : List UInt32) : value ws < (2 ^ 32) ^ ws.length := by
  have h := Nat.ofDigits_lt_base_pow_length (b := 2 ^ 32) (l := ws.map UInt32.toNat) (by decide)
    (by simpa using fun w _ => w.toNat_lt)
  rwa [List.length_map] at h

/-- The first of two words decides. -/
theorem value_lt_of_lt {w v : UInt32} (ws vs : List UInt32) (hlen : ws.length = vs.length)
    (h : w < v) : value (ws ++ [w]) < value (vs ++ [v]) := by
  have hws := value_lt ws
  have hle : w.toNat + 1 ≤ v.toNat := UInt32.lt_iff_toNat_lt.1 h
  have hmul := Nat.mul_le_mul_left ((2 ^ 32) ^ ws.length) hle
  rw [value_append, value_append, value_cons, value_cons, value_nil, ← hlen]
  rw [Nat.mul_add, Nat.mul_one] at hmul
  simp only [Nat.mul_zero, Nat.add_zero]
  omega

end Recovery.Lib.Montgomery
