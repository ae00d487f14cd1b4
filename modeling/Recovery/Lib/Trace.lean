import Mathlib.Data.List.Induction

/-!
# Runs of a labelled transition system

A machine takes actions in any order; each action it can take yields the next state and the events
it emits.

* `runs step s as` — the state after the actions `as` and the events they emitted, in order.
* `runs_invariant` — what relates the past actions, the past events and the state, holds at the
  start and is kept by every step, holds after every run.
* `last_unique` — the last element of a kind splits a history in one way.

The invariant speaks of the whole history, so that "was pressed before" needs no ghost state in
the machine.
-/

set_option autoImplicit false

namespace Recovery.Lib

variable {σ α ε : Type}

def runs (step : σ → α → Option (σ × List ε)) : σ → List α → Option (σ × List ε)
  | s, [] => some (s, [])
  | s, a :: as =>
    match step s a with
    | none => none
    | some (s', es) =>
      match runs step s' as with
      | none => none
      | some (s'', es') => some (s'', es ++ es')

variable {step : σ → α → Option (σ × List ε)}

theorem runs_cons {s s'' : σ} {a : α} {as : List α} {es'' : List ε} :
    runs step s (a :: as) = some (s'', es'') ↔ ∃ s' es es', step s a = some (s', es) ∧
      runs step s' as = some (s'', es') ∧ es'' = es ++ es' := by
  simp only [runs]
  split
  · rename_i h
    simp [h]
  · rename_i s' es h
    split
    · rename_i h'
      simp [h, h']
    · rename_i h'
      simp [h, h', and_comm, eq_comm]

theorem runs_append {s s'' : σ} {as bs : List α} {es'' : List ε} :
    runs step s (as ++ bs) = some (s'', es'') ↔ ∃ s' es es', runs step s as = some (s', es) ∧
      runs step s' bs = some (s'', es') ∧ es'' = es ++ es' := by
  induction as generalizing s es'' with
  | nil => simp [runs]
  | cons a as ih =>
    simp only [List.cons_append, runs_cons, ih]
    constructor
    · rintro ⟨s₁, e₁, _, h₁, ⟨s₂, e₂, e₃, h₂, h₃, rfl⟩, rfl⟩
      exact ⟨s₂, e₁ ++ e₂, e₃, ⟨s₁, e₁, e₂, h₁, h₂, rfl⟩, h₃, by simp⟩
    · rintro ⟨s₂, _, e₃, ⟨s₁, e₁, e₂, h₁, h₂, rfl⟩, h₃, rfl⟩
      exact ⟨s₁, e₁, e₂ ++ e₃, h₁, ⟨s₂, e₂, e₃, h₂, h₃, rfl⟩, by simp⟩

/-- **The invariant rule**, over the history of a run. -/
theorem runs_invariant {I : List α → List ε → σ → Prop} {s₀ : σ} (h₀ : I [] [] s₀)
    (hstep : ∀ as es s a s' es', I as es s → step s a = some (s', es') →
      I (as ++ [a]) (es ++ es') s')
    {as : List α} {es : List ε} {s : σ} (h : runs step s₀ as = some (s, es)) : I as es s := by
  induction as using List.reverseRecOn generalizing es s with
  | nil =>
    cases h
    exact h₀
  | append_singleton as a ih =>
    obtain ⟨s', es', es'', h₁, h₂, rfl⟩ := runs_append.mp h
    obtain ⟨s₂, e₂, e₃, h₃, h₄, rfl⟩ := runs_cons.mp h₂
    cases h₄
    rw [List.append_nil]
    exact hstep _ _ _ _ _ _ (ih h₁) h₃

theorem last_unique {p : α → Prop} {b b' m m' : List α} {x x' : α} (hx : p x) (hx' : p x')
    (hm : ∀ y ∈ m, ¬ p y) (hm' : ∀ y ∈ m', ¬ p y) (h : b ++ x :: m = b' ++ x' :: m') :
    b = b' ∧ x = x' ∧ m = m' := by
  rcases List.append_eq_append_iff.mp h with ⟨c, rfl, hc⟩ | ⟨c, rfl, hc⟩
  · cases c with
    | nil =>
      obtain ⟨rfl, rfl⟩ := List.cons.inj hc
      simp
    | cons y c =>
      obtain ⟨-, rfl⟩ := List.cons.inj hc
      exact absurd hx' (hm x' (by simp))
  · cases c with
    | nil =>
      obtain ⟨rfl, rfl⟩ := List.cons.inj hc
      simp
    | cons y c =>
      obtain ⟨-, rfl⟩ := List.cons.inj hc
      exact absurd hx (hm' x (by simp))

end Recovery.Lib
