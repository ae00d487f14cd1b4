import Mathlib.Data.List.Basic
import Mathlib.Order.Defs.Unbundled

/-!
# Programs that can be stopped between two operations

* `Fate` — what happens to one I/O operation: it succeeds, it fails after doing part of its work,
  or the power goes off after part of its work.
* `Stop` — why a program stopped without returning: power loss, a failed assertion, an access
  outside a buffer.
* `Outcome x s Q C` — run from `s`, program `x` returns `a` in a state in `Q a`, or stops for
  reason `e` in a state in `C e`; with the rules for composition and weakening.
* `Keeps f x` — a returning run of `x` leaves the part `f` of the state alone.
* `Stops C x` — what can stop a run of `x`.
* `Reaches R x s Q`, `Within R x` — a run of `x`, also one that is stopped, ends in a state that the
  preorder `R` relates to its start.
* `bind_ok`, `bind_error`, `of_bind_ok` — a composition, step by step.

A program is a function of `EStateM`, so that the state at the moment of a stop is available.
-/

set_option autoImplicit false

namespace Recovery.Lib

inductive Fate where
  | ok
  /-- The operation reports an error after `n` units of its work. -/
  | fail (n : Nat)
  /-- Power is lost after `n` units of the operation's work. -/
  | crash (n : Nat)
  deriving DecidableEq, Repr

inductive Stop where
  | crash
  /-- A failed `CHECK`. -/
  | check
  /-- An access outside a buffer. -/
  | overrun
  deriving DecidableEq, Repr

variable {σ ε α β γ : Type}

/-! ## Running a program -/

theorem pure_run (a : α) (s : σ) : (pure a : EStateM ε σ α) s = .ok a s := rfl

theorem bind_ok {x : EStateM ε σ α} {f : α → EStateM ε σ β} {s s' : σ} {a : α}
    (h : x s = .ok a s') : (x >>= f) s = f a s' := by
  simp only [bind, EStateM.bind, h]

theorem bind_error {x : EStateM ε σ α} {f : α → EStateM ε σ β} {s s' : σ} {e : ε}
    (h : x s = .error e s') : (x >>= f) s = .error e s' := by
  simp only [bind, EStateM.bind, h]

theorem get_bind (f : σ → EStateM ε σ β) (s : σ) : (MonadState.get >>= f) s = f s s := rfl

theorem modify_bind (g : σ → σ) (f : PUnit → EStateM ε σ β) (s : σ) :
    (modify g >>= f) s = f ⟨⟩ (g s) := rfl

/-- A composition that returns has run its parts. -/
theorem of_bind_ok {x : EStateM ε σ α} {f : α → EStateM ε σ β} {s s' : σ} {b : β}
    (h : (x >>= f) s = .ok b s') : ∃ a s₁, x s = .ok a s₁ ∧ f a s₁ = .ok b s' := by
  cases hx : x s with
  | ok a s₁ => exact ⟨a, s₁, rfl, (bind_ok hx).symm.trans h⟩
  | error e s₁ =>
    rw [bind_error hx] at h
    cases h

/-- The state in which a run was stopped, tested by `f`. -/
def stoppedWith [DecidableEq ε] (r : EStateM.Result ε σ α) (e : ε) (f : σ → Bool) : Bool :=
  match r with
  | .ok _ _ => false
  | .error e' s => decide (e' = e) && f s

theorem of_stoppedWith [DecidableEq ε] {r : EStateM.Result ε σ α} {e : ε} {f : σ → Bool}
    (h : stoppedWith r e f = true) : ∃ s, r = .error e s ∧ f s = true := by
  cases r with
  | ok a s => cases h
  | error e' s =>
    rw [stoppedWith, Bool.and_eq_true, decide_eq_true_eq] at h
    exact ⟨s, by rw [h.1], h.2⟩

/-- The value and the state with which a run returned, tested by `f`. -/
def returnedWith (r : EStateM.Result ε σ α) (f : α → σ → Bool) : Bool :=
  match r with
  | .ok a s => f a s
  | .error _ _ => false

theorem of_returnedWith {r : EStateM.Result ε σ α} {f : α → σ → Bool}
    (h : returnedWith r f = true) : ∃ a s, r = .ok a s ∧ f a s = true := by
  cases r with
  | ok a s => exact ⟨a, s, rfl, h⟩
  | error e s => cases h

/-- The state in which a run has ended. -/
def endState : EStateM.Result ε σ α → σ
  | .ok _ s => s
  | .error _ s => s

/-! ## Outcomes -/

/-- Crash Hoare logic, from one state. -/
def Outcome (x : EStateM ε σ α) (s : σ) (Q : α → σ → Prop) (C : ε → σ → Prop) : Prop :=
  match x s with
  | .ok a s' => Q a s'
  | .error e s' => C e s'

namespace Outcome

variable {x : EStateM ε σ α} {s : σ} {Q Q' : α → σ → Prop} {C C' : ε → σ → Prop}

theorem bind {f : α → EStateM ε σ β} {R : β → σ → Prop} (hx : Outcome x s Q C)
    (hf : ∀ a s', Q a s' → Outcome (f a) s' R C) : Outcome (x >>= f) s R C := by
  unfold Outcome at hx
  cases hr : x s with
  | ok a s' =>
    rw [hr] at hx
    rw [Outcome, bind_ok hr]
    exact hf a s' hx
  | error e s' =>
    rw [hr] at hx
    rw [Outcome, bind_error hr]
    exact hx

theorem bind_run {f : α → EStateM ε σ β} {R : β → σ → Prop} {a : α} {s' : σ}
    (hx : x s = .ok a s') (hf : Outcome (f a) s' R C) : Outcome (x >>= f) s R C := by
  rw [Outcome, bind_ok hx]
  exact hf

theorem bind_get {f : σ → EStateM ε σ β} {R : β → σ → Prop} (hf : Outcome (f s) s R C) :
    Outcome (MonadState.get >>= f) s R C := bind_run rfl hf

theorem bind_modify {g : σ → σ} {f : PUnit → EStateM ε σ β} {R : β → σ → Prop}
    (hf : Outcome (f ⟨⟩) (g s) R C) : Outcome (modify g >>= f) s R C := bind_run rfl hf

theorem weaken (hx : Outcome x s Q C) (hQ : ∀ a s', Q a s' → Q' a s')
    (hC : ∀ e s', C e s' → C' e s') : Outcome x s Q' C' := by
  unfold Outcome at hx ⊢
  cases hr : x s with
  | ok a s' => rw [hr] at hx; exact hQ a s' hx
  | error e s' => rw [hr] at hx; exact hC e s' hx

theorem pure {a : α} (h : Q a s) : Outcome (Pure.pure a) s Q C := h

theorem throw {e : ε} (h : C e s) : Outcome (MonadExcept.throw e : EStateM ε σ α) s Q C := h

theorem modifyState {f : σ → σ} {Q : PUnit → σ → Prop} (h : Q ⟨⟩ (f s)) :
    Outcome (modify f : EStateM ε σ PUnit) s Q C := h

theorem of_ok (h : Outcome x s Q C) {a : α} {s' : σ} (hx : x s = .ok a s') : Q a s' := by
  rw [Outcome, hx] at h
  exact h

theorem of_error (h : Outcome x s Q C) {e : ε} {s' : σ} (hx : x s = .error e s') : C e s' := by
  rw [Outcome, hx] at h
  exact h

end Outcome

/-! ## Frames -/

/-- A run of `x` that returns leaves `f` alone. -/
def Keeps (f : σ → γ) (x : EStateM ε σ α) : Prop := ∀ s a s', x s = .ok a s' → f s' = f s

theorem Keeps.bind {f : σ → γ} {x : EStateM ε σ α} {g : α → EStateM ε σ β} (hx : Keeps f x)
    (hg : ∀ a, Keeps f (g a)) : Keeps f (x >>= g) := by
  intro s b s' h
  obtain ⟨a, s₁, h1, h2⟩ := of_bind_ok h
  rw [hg a s₁ b s' h2, hx s a s₁ h1]

theorem Keeps.get_bind {f : σ → γ} {g : σ → EStateM ε σ β} (hg : ∀ s, Keeps f (g s)) :
    Keeps f (MonadState.get >>= g) := fun s b s' h => hg s s b s' h

theorem Keeps.modify {f : σ → γ} {g : σ → σ} (hg : ∀ s, f (g s) = f s) :
    Keeps f (modify g : EStateM ε σ PUnit) := by
  intro s b s' h
  cases h
  exact hg s

theorem Keeps.ite {f : σ → γ} {c : Prop} [Decidable c] {x y : EStateM ε σ α} (hx : Keeps f x)
    (hy : Keeps f y) : Keeps f (if c then x else y) := by
  split
  · exact hx
  · exact hy

theorem Keeps.pure {f : σ → γ} (a : α) : Keeps f (Pure.pure a : EStateM ε σ α) := by
  intro s b s' h
  cases h
  rfl

theorem Keeps.throw {f : σ → γ} (e : ε) :
    Keeps f (MonadExcept.throw e : EStateM ε σ α) := by
  intro s b s' h
  cases h

/-! ## Why a run can stop -/

/-- A run of `x` is stopped, if at all, for a reason in `C`. -/
def Stops (C : ε → Prop) (x : EStateM ε σ α) : Prop :=
  ∀ s, Outcome x s (fun _ _ => True) fun e _ => C e

section Stops

variable {C C' : ε → Prop} {x y : EStateM ε σ α}

theorem Stops.mono (h : Stops C x) (hC : ∀ e, C e → C' e) : Stops C' x :=
  fun s => (h s).weaken (fun _ _ => id) fun e _ => hC e

theorem Stops.ne {e e' : ε} (h : Stops (· = e) x) (hne : e ≠ e') : Stops (· ≠ e') x :=
  h.mono fun _ he => by rw [he]; exact hne

theorem Stops.pure (a : α) : Stops C (Pure.pure a : EStateM ε σ α) := fun _ => trivial

theorem Stops.throw {e : ε} (h : C e) : Stops C (MonadExcept.throw e : EStateM ε σ α) := fun _ => h

theorem Stops.bind {f : α → EStateM ε σ β} (hx : Stops C x) (hf : ∀ a, Stops C (f a)) :
    Stops C (x >>= f) := fun s => (hx s).bind fun a s' _ => hf a s'

theorem Stops.get_bind {f : σ → EStateM ε σ β} (hf : ∀ s, Stops C (f s)) :
    Stops C (MonadState.get >>= f) := fun s => Outcome.bind_get (hf s s)

theorem Stops.modify (g : σ → σ) : Stops C (modify g : EStateM ε σ PUnit) :=
  fun _ => Outcome.modifyState trivial

theorem Stops.ite {c : Prop} [Decidable c] (hx : c → Stops C x) (hy : ¬ c → Stops C y) :
    Stops C (if c then x else y) := by
  split
  · exact hx ‹_›
  · exact hy ‹_›

end Stops

/-! ## Where a run can end -/

/-- Run from `s`, program `x` ends in a state that `R` relates to `s`, and if it returns, `Q` holds
of the value and that state. -/
def Reaches (R : σ → σ → Prop) (x : EStateM ε σ α) (s : σ) (Q : α → σ → Prop) : Prop :=
  Outcome x s (fun a s' => R s s' ∧ Q a s') (fun _ s' => R s s')

/-- Every run of `x` ends in a state that `R` relates to its start. -/
def Within (R : σ → σ → Prop) (x : EStateM ε σ α) : Prop := ∀ s, Reaches R x s fun _ _ => True

section Ends

variable {R R' : σ → σ → Prop} {x y : EStateM ε σ α} {s : σ} {Q Q' : α → σ → Prop}

theorem Reaches.imp (h : Reaches R x s Q) (hR : ∀ s', R s s' → R' s s')
    (hQ : ∀ a s', R s s' → Q a s' → Q' a s') : Reaches R' x s Q' :=
  Outcome.weaken h (fun a s' hq => ⟨hR s' hq.1, hQ a s' hq.1 hq.2⟩) fun _ s' => hR s'

theorem Reaches.within (h : Reaches R x s Q) : Reaches R x s fun _ _ => True :=
  h.imp (fun _ => id) fun _ _ _ _ => trivial

theorem Within.endState (h : Within R x) (s : σ) : R s (endState (x s)) := by
  have hs := h s
  unfold Reaches Outcome at hs
  cases hr : x s with
  | ok a s' => rw [hr] at hs; exact hs.1
  | error e s' => rw [hr] at hs; exact hs

theorem Within.mono (h : Within R x) (hR : ∀ s s', R s s' → R' s s') : Within R' x :=
  fun s => (h s).imp (hR s) fun _ _ _ => id

theorem Within.ite {c : Prop} [Decidable c] (hx : c → Within R x) (hy : ¬ c → Within R y) :
    Within R (if c then x else y) := by
  split
  · exact hx ‹_›
  · exact hy ‹_›

theorem Within.modify {g : σ → σ} (h : ∀ s, R s (g s)) :
    Within R (modify g : EStateM ε σ PUnit) := fun s => Outcome.modifyState ⟨h s, trivial⟩

theorem Reaches.bind_get {f : σ → EStateM ε σ β} {P : β → σ → Prop} (hf : Reaches R (f s) s P) :
    Reaches R (MonadState.get >>= f) s P := Outcome.bind_get hf

theorem Within.get_bind {f : σ → EStateM ε σ β} (hf : ∀ s, Within R (f s)) :
    Within R (MonadState.get >>= f) := fun s => .bind_get (hf s s)

variable [IsPreorder σ R]

theorem Reaches.pure {a : α} (h : Q a s) :
    Reaches R (Pure.pure a : EStateM ε σ α) s Q := Outcome.pure ⟨refl s, h⟩

theorem Reaches.throw {e : ε} : Reaches R (MonadExcept.throw e : EStateM ε σ α) s Q :=
  Outcome.throw (refl s)

theorem Reaches.trans {s₁ : σ} (hs : R s s₁) (h : Reaches R x s₁ Q) :
    Outcome x s₁ (fun a s' => R s s' ∧ Q a s') (fun _ s' => R s s') :=
  Outcome.weaken h (fun _ _ h' => ⟨IsTrans.trans s s₁ _ hs h'.1, h'.2⟩) fun _ _ h' => IsTrans.trans s s₁ _ hs h'

theorem Reaches.bind {f : α → EStateM ε σ β} {P : β → σ → Prop} (hx : Reaches R x s Q)
    (hf : ∀ a s', R s s' → Q a s' → Reaches R (f a) s' P) : Reaches R (x >>= f) s P :=
  Outcome.bind hx fun a s' h => (hf a s' h.1 h.2).trans h.1

theorem Reaches.bind_modify {g : σ → σ} {f : PUnit → EStateM ε σ β} {P : β → σ → Prop}
    (hg : R s (g s)) (hf : Reaches R (f ⟨⟩) (g s) P) : Reaches R (modify g >>= f) s P :=
  Outcome.bind_modify (hf.trans hg)

theorem Within.pure (a : α) : Within R (Pure.pure a : EStateM ε σ α) := fun _ => .pure trivial

theorem Within.throw (e : ε) : Within R (MonadExcept.throw e : EStateM ε σ α) := fun _ => .throw

theorem Within.bind {f : α → EStateM ε σ β} (hx : Within R x) (hf : ∀ a, Within R (f a)) :
    Within R (x >>= f) := fun s => (hx s).bind fun a s' _ _ => hf a s'

end Ends

end Recovery.Lib
