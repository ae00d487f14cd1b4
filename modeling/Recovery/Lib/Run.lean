import Mathlib.Order.Basic

/-!
# Runs with spurious steps

A system whose steps either do work or are spurious (a wakeup nobody asked for).

* `Run step spurious n m a b` — a run from `a` to `b` with `n` working and `m` spurious steps.
* `Run.invariant` — what every step preserves holds at the end of every run.
* `Run.bound` — when working steps use up a measure and a spurious step adds at most `k` to it,
  the working steps of a run are bounded by its start and its spurious steps.

A condition variable may wake a thread for no reason.  No bound on a run can hold without counting
these wakeups, and with them the bound is linear.
-/

set_option autoImplicit false

namespace Recovery.Lib

variable {σ : Type} {step spurious : σ → σ → Prop}

inductive Run (step spurious : σ → σ → Prop) : Nat → Nat → σ → σ → Prop where
  | refl (a : σ) : Run step spurious 0 0 a a
  | step {n m : Nat} {a b c : σ} : Run step spurious n m a b → step b c →
      Run step spurious (n + 1) m a c
  | spurious {n m : Nat} {a b c : σ} : Run step spurious n m a b → spurious b c →
      Run step spurious n (m + 1) a c

theorem Run.invariant {I : σ → Prop} (hstep : ∀ b c, I b → step b c → I c)
    (hspurious : ∀ b c, I b → spurious b c → I c) {n m : Nat} {a b : σ} (ha : I a)
    (hr : Run step spurious n m a b) : I b := by
  induction hr with
  | refl => exact ha
  | step _ h ih => exact hstep _ _ (ih ha) h
  | spurious _ h ih => exact hspurious _ _ (ih ha) h

theorem Run.bound {I : σ → Prop} {f : σ → Nat} {k : Nat}
    (hstep : ∀ b c, I b → step b c → I c)
    (hspurious : ∀ b c, I b → spurious b c → I c)
    (hdown : ∀ b c, I b → step b c → f c < f b)
    (hup : ∀ b c, I b → spurious b c → f c ≤ f b + k) {n m : Nat} {a b : σ} (ha : I a)
    (hr : Run step spurious n m a b) : f b + n ≤ f a + k * m := by
  induction hr with
  | refl => lia
  | step hr h ih =>
    have := hdown _ _ (hr.invariant hstep hspurious ha) h
    have := ih ha
    lia
  | spurious hr h ih =>
    have h1 := hup _ _ (hr.invariant hstep hspurious ha) h
    have h2 := ih ha
    rw [Nat.mul_add, Nat.mul_one]
    lia

end Recovery.Lib
