import Recovery.Lib.Crash

/-!
# Runs over every list of fates

A program whose operations take their outcomes, one by one, from a list that is part of the state.

* `Oracle σ φ` — where the list is.
* `Local O x` — a run of `x` uses up some entries and does not depend on what comes after them.
* `May O x s a s'` — with some list, `x` run from `s` returns `a` in the state `s'`.
* `Avoids O e x s` — with no list does `x`, run from `s`, stop for the reason `e`.
* `may_bind`, `avoids_bind` — what a composition may do is what its parts may do, one after the
  other.

`Local` is what makes lists of fates composable: the rules for a composition put the list for its
second part behind that for the first.
-/

set_option autoImplicit false

namespace Recovery.Lib

variable {σ φ ε α β : Type}

/-- A list in a state; `put` replaces it. -/
structure Oracle (σ φ : Type) where
  put : σ → List φ → σ
  put_put : ∀ s fs gs, put (put s fs) gs = put s gs
  exists_put : ∀ s, ∃ fs, put s fs = s

/-- The same result in another state. -/
def mapState (f : σ → σ) : EStateM.Result ε σ α → EStateM.Result ε σ α
  | .ok a s => .ok a (f s)
  | .error e s => .error e (f s)

variable (O : Oracle σ φ)

def Local (x : EStateM ε σ α) : Prop :=
  ∀ s, ∃ us, ∀ gs, x (O.put s (us ++ gs)) = mapState (O.put · gs) (x s)

def May (x : EStateM ε σ α) (s : σ) (a : α) (s' : σ) : Prop :=
  ∃ fs gs, x (O.put s fs) = .ok a (O.put s' gs)

def Avoids (e : ε) (x : EStateM ε σ α) (s : σ) : Prop :=
  ∀ fs, Outcome x (O.put s fs) (fun _ _ => True) fun e' _ => e' ≠ e

variable {O}

/-! ## Locality -/

namespace Local

theorem pure (a : α) : Local O (Pure.pure a : EStateM ε σ α) := fun _ => ⟨[], fun _ => rfl⟩

theorem throw (e : ε) : Local O (MonadExcept.throw e : EStateM ε σ α) :=
  fun _ => ⟨[], fun _ => rfl⟩

theorem bind {x : EStateM ε σ α} {f : α → EStateM ε σ β} (hx : Local O x)
    (hf : ∀ a, Local O (f a)) : Local O (x >>= f) := by
  intro s
  obtain ⟨us, hus⟩ := hx s
  cases hr : x s with
  | error e s₁ =>
    refine ⟨us, fun gs => ?_⟩
    have hrun := hus gs
    rw [hr] at hrun
    rw [bind_error hr, bind_error hrun]
    rfl
  | ok a s₁ =>
    obtain ⟨vs, hvs⟩ := hf a s₁
    refine ⟨us ++ vs, fun gs => ?_⟩
    have hrun := hus (vs ++ gs)
    rw [hr] at hrun
    rw [List.append_assoc, bind_ok hr, bind_ok hrun]
    exact hvs gs

/-- Reading the state, for a purpose that is none of the list's. -/
theorem get_bind {f : σ → EStateM ε σ β} (hput : ∀ s gs, f (O.put s gs) = f s)
    (hf : ∀ s, Local O (f s)) : Local O (MonadState.get >>= f) := by
  intro s
  obtain ⟨us, hus⟩ := hf s s
  refine ⟨us, fun gs => ?_⟩
  rw [Lib.get_bind, Lib.get_bind, hput]
  exact hus gs

theorem modify {g : σ → σ} (hg : ∀ s gs, g (O.put s gs) = O.put (g s) gs) :
    Local O (modify g : EStateM ε σ PUnit) := by
  intro s
  refine ⟨[], fun gs => ?_⟩
  rw [List.nil_append]
  exact congrArg (EStateM.Result.ok PUnit.unit) (hg s gs)

theorem ite {c : Prop} [Decidable c] {x y : EStateM ε σ α} (hx : Local O x) (hy : Local O y) :
    Local O (if c then x else y) := by
  split
  · exact hx
  · exact hy

/-- A result does not commit the run to a list for what follows. -/
theorem extend {x : EStateM ε σ α} (hx : Local O x) {s s' : σ} {a : α} (h : May O x s a s')
    (gs : List φ) : ∃ fs, x (O.put s fs) = .ok a (O.put s' gs) := by
  obtain ⟨fs, hs, hrun⟩ := h
  obtain ⟨us, hus⟩ := hx (O.put s fs)
  refine ⟨us ++ gs, ?_⟩
  have hput := hus gs
  rw [hrun, O.put_put] at hput
  rw [hput]
  exact congrArg (EStateM.Result.ok a) (O.put_put s' hs gs)

end Local

/-! ## What may happen -/

theorem May.of_run {x : EStateM ε σ α} {s s' : σ} {a : α} (h : x s = .ok a s') :
    May O x s a s' := by
  obtain ⟨fs, hfs⟩ := O.exists_put s
  obtain ⟨gs, hgs⟩ := O.exists_put s'
  exact ⟨fs, gs, by rw [hfs, hgs, h]⟩

theorem May.of_put {x : EStateM ε σ α} {s s' : σ} {a : α} {fs : List φ}
    (h : x (O.put s fs) = .ok a s') : May O x s a s' := by
  obtain ⟨gs, hgs⟩ := O.exists_put s'
  exact ⟨fs, gs, by rw [hgs, h]⟩

theorem may_bind {x : EStateM ε σ α} {f : α → EStateM ε σ β} {s s'' : σ} {b : β}
    (hx : Local O x) :
    May O (x >>= f) s b s'' ↔ ∃ a s', May O x s a s' ∧ May O (f a) s' b s'' := by
  constructor
  · rintro ⟨fs, gs, hrun⟩
    obtain ⟨a, s', hx', hf'⟩ := of_bind_ok hrun
    obtain ⟨hs, hhs⟩ := O.exists_put s'
    exact ⟨a, s', .of_put hx', hs, gs, by rw [hhs, hf']⟩
  · rintro ⟨a, s', hmay, hs, gs, hf⟩
    obtain ⟨fs, hrun⟩ := hx.extend hmay hs
    exact ⟨fs, gs, (bind_ok hrun).trans hf⟩

theorem May.pure (a : α) (s : σ) : May O (Pure.pure a : EStateM ε σ α) s a s := .of_run rfl

theorem may_get_bind {f : σ → EStateM ε σ β} {s s' : σ} {b : β}
    (hput : ∀ s gs, f (O.put s gs) = f s) :
    May O (MonadState.get >>= f) s b s' ↔ May O (f s) s b s' := by
  have hrun (fs : List φ) : (MonadState.get >>= f) (O.put s fs) = f s (O.put s fs) := by
    rw [get_bind, hput]
  simp only [May, hrun]

/-- A step with one result. -/
theorem may_bind_run {x : EStateM ε σ α} {f : α → EStateM ε σ β} {a : α} {b : β} {s s' s'' : σ}
    (hx : ∀ fs, x (O.put s fs) = .ok a (O.put s' fs)) :
    May O (x >>= f) s b s'' ↔ May O (f a) s' b s'' := by
  have hrun (fs : List φ) : (x >>= f) (O.put s fs) = f a (O.put s' fs) := bind_ok (hx fs)
  simp only [May, hrun]

/-! ## What cannot happen -/

section Avoids

variable {e : ε} {s : σ}

theorem Stops.avoids {C : ε → Prop} {x : EStateM ε σ α} (hx : Stops C x) (he : ¬ C e) :
    Avoids O e x s := fun fs =>
  (hx (O.put s fs)).weaken (fun _ _ => id) fun _ _ h heq => he (heq ▸ h)

/-- One run that is stopped. -/
theorem not_avoids_of_stopped [DecidableEq ε] {x : EStateM ε σ α} {f : σ → Bool}
    (h : stoppedWith (x s) e f = true) : ¬ Avoids O e x s := by
  intro havoids
  obtain ⟨s', hrun, -⟩ := of_stoppedWith h
  obtain ⟨fs, hfs⟩ := O.exists_put s
  exact (hfs ▸ havoids fs).of_error hrun rfl

theorem avoids_pure (a : α) : Avoids O e (Pure.pure a : EStateM ε σ α) s := fun _ => trivial

/-- A composition avoids a stop when each part does, from every state it may be reached in. -/
theorem avoids_bind {x : EStateM ε σ α} {f : α → EStateM ε σ β} (hx : Local O x) :
    Avoids O e (x >>= f) s ↔
      Avoids O e x s ∧ ∀ a s', May O x s a s' → Avoids O e (f a) s' := by
  constructor
  · intro h
    constructor
    · intro fs
      cases hr : x (O.put s fs) with
      | ok a s₁ => rw [Outcome, hr]; trivial
      | error e' s₁ =>
        rw [Outcome, hr]
        exact (h fs).of_error (bind_error hr)
    · intro a s' hmay gs
      obtain ⟨fs, hrun⟩ := hx.extend hmay gs
      have hf := h fs
      rw [Outcome, bind_ok hrun] at hf
      exact hf
  · rintro ⟨h, hf⟩ fs
    cases hr : x (O.put s fs) with
    | ok a s₁ =>
      obtain ⟨gs, hgs⟩ := O.exists_put s₁
      rw [Outcome, bind_ok hr, ← hgs]
      exact hf a s₁ (.of_put hr) gs
    | error e' s₁ =>
      rw [Outcome, bind_error hr]
      exact (h fs).of_error hr

/-- What follows does not matter when it cannot stop so. -/
theorem avoids_bind_stops {C : ε → Prop} {x : EStateM ε σ α} {f : α → EStateM ε σ β}
    (hx : Local O x) (hf : ∀ a, Stops C (f a)) (he : ¬ C e) :
    Avoids O e (x >>= f) s ↔ Avoids O e x s := by
  rw [avoids_bind hx]
  exact and_iff_left fun a _ _ => (hf a).avoids he

theorem avoids_discard {x : EStateM ε σ α} (b : β) :
    Avoids O e (x >>= fun _ => Pure.pure b) s ↔ Avoids O e x s := by
  refine forall_congr' fun fs => ?_
  unfold Outcome
  cases hr : x (O.put s fs) with
  | ok a s' => rw [bind_ok hr]; exact Iff.rfl
  | error e' s' => rw [bind_error hr]

theorem avoids_get_bind {f : σ → EStateM ε σ β} (hput : ∀ s gs, f (O.put s gs) = f s) :
    Avoids O e (MonadState.get >>= f) s ↔ Avoids O e (f s) s := by
  have hrun (fs : List φ) : (MonadState.get >>= f) (O.put s fs) = f s (O.put s fs) := by
    rw [get_bind, hput]
  simp only [Avoids, Outcome, hrun]

theorem avoids_modify_bind {g : σ → σ} {f : PUnit → EStateM ε σ β}
    (hg : ∀ s gs, g (O.put s gs) = O.put (g s) gs) :
    Avoids O e (modify g >>= f) s ↔ Avoids O e (f ⟨⟩) (g s) := by
  have hrun (fs : List φ) : (modify g >>= f) (O.put s fs) = f ⟨⟩ (O.put (g s) fs) := by
    rw [modify_bind, hg]
  simp only [Avoids, Outcome, hrun]

/-- A step with one result. -/
theorem avoids_bind_run {x : EStateM ε σ α} {f : α → EStateM ε σ β} {a : α} {s' : σ}
    (hx : ∀ fs, x (O.put s fs) = .ok a (O.put s' fs)) :
    Avoids O e (x >>= f) s ↔ Avoids O e (f a) s' := by
  have hrun (fs : List φ) : (x >>= f) (O.put s fs) = f a (O.put s' fs) := bind_ok (hx fs)
  simp only [Avoids, Outcome, hrun]

end Avoids

end Recovery.Lib
