import Mathlib.Data.List.Basic

/-!
# Computations that may not return

* `Comp α` — what is returned within a number of steps; more steps change nothing.
* `Comp.Returns` — some number of steps is enough.
* `Comp.loop` — a loop around a body that may not return either.
* `Traced ε α` — a computation that returns, and what happens on the way.
* `Comp.Meets` — `c` returns if and only if all that happens in `t` is allowed, and then the same.
* `Meets.pure`, `Meets.bind`, `Meets.loop`, `Meets.stuck` — one rule for each construct.

The trace of a loop that never ends is not built: what is traced is the loop that passes over the
rounds which hang, and `Meets` relates the two.
-/

set_option autoImplicit false

namespace Recovery.Lib

variable {α β σ ε : Type}

structure Comp (α : Type) where
  run : Nat → Option α
  mono : ∀ {n m a}, run n = some a → n ≤ m → run m = some a

namespace Comp

def Returns (c : Comp α) (a : α) : Prop := ∃ n, c.run n = some a

theorem Returns.unique {c : Comp α} {a b : α} (ha : c.Returns a) (hb : c.Returns b) : a = b := by
  obtain ⟨n, hn⟩ := ha
  obtain ⟨m, hm⟩ := hb
  exact Option.some.inj ((c.mono hn (Nat.le_max_left n m)).symm.trans
    (c.mono hm (Nat.le_max_right n m)))

instance : Monad Comp where
  pure a := ⟨fun _ => some a, fun h _ => h⟩
  bind c f := {
    run := fun n => (c.run n).bind fun a => (f a).run n
    mono := by
      intro n m b h hle
      obtain ⟨a, ha, hb⟩ := Option.bind_eq_some_iff.1 h
      rw [c.mono ha hle, Option.bind_some]
      exact (f a).mono hb hle }

theorem ext_run {c d : Comp α} (h : ∀ n, c.run n = d.run n) : c = d := by
  obtain ⟨run, _⟩ := c
  obtain ⟨run', _⟩ := d
  obtain rfl : run = run' := funext h
  rfl

theorem bind_assoc {γ : Type} (c : Comp α) (f : α → Comp β) (g : β → Comp γ) :
    (c >>= f >>= g) = (c >>= fun a => f a >>= g) :=
  ext_run fun _ => Option.bind_assoc _ _ _

/-- What does not return. -/
def never : Comp α := ⟨fun _ => none, nofun⟩

theorem not_returns_never (a : α) : ¬ (never : Comp α).Returns a := by
  rintro ⟨n, h⟩
  cases h

theorem returns_pure {a b : α} : (pure a : Comp α).Returns b ↔ a = b :=
  ⟨fun ⟨_, h⟩ => Option.some.inj h, fun h => ⟨0, congrArg some h⟩⟩

theorem returns_bind {c : Comp α} {f : α → Comp β} {b : β} :
    (c >>= f).Returns b ↔ ∃ a, c.Returns a ∧ (f a).Returns b := by
  constructor
  · rintro ⟨n, h⟩
    obtain ⟨a, ha, hb⟩ := Option.bind_eq_some_iff.1 h
    exact ⟨a, ⟨n, ha⟩, n, hb⟩
  · rintro ⟨a, ⟨n, ha⟩, m, hb⟩
    refine ⟨max n m, Option.bind_eq_some_iff.2 ⟨a, ?_, ?_⟩⟩
    · exact c.mono ha (Nat.le_max_left n m)
    · exact (f a).mono hb (Nat.le_max_right n m)

/-! ## Loops -/

/-- At most `n` rounds, of `n` steps at most. -/
def rounds (body : σ → Comp (σ ⊕ α)) : Nat → σ → Option α
  | 0, _ => none
  | n + 1, s =>
    match (body s).run n with
    | some (.inl s') => rounds body n s'
    | some (.inr a) => some a
    | none => none

theorem rounds_mono {body : σ → Comp (σ ⊕ α)} {n m : Nat} {s : σ} {a : α}
    (h : rounds body n s = some a) (hle : n ≤ m) : rounds body m s = some a := by
  induction n generalizing m s with
  | zero => cases h
  | succ n ih =>
    obtain ⟨m, rfl⟩ := Nat.exists_eq_add_one_of_ne_zero (show m ≠ 0 by lia)
    rw [rounds] at h ⊢
    cases hbody : (body s).run n with
    | none =>
      rw [hbody] at h
      cases h
    | some r =>
      rw [hbody] at h
      rw [(body s).mono hbody (Nat.le_of_succ_le_succ hle)]
      cases r with
      | inl s' => exact ih h (Nat.le_of_succ_le_succ hle)
      | inr b => exact h

/-- A loop: a round goes on in a state, or is the last one. -/
def loop (body : σ → Comp (σ ⊕ α)) (s : σ) : Comp α :=
  ⟨fun n => rounds body n s, rounds_mono⟩

/-- A round, and then the other ones. -/
theorem returns_loop {body : σ → Comp (σ ⊕ α)} {s : σ} {a : α} :
    (loop body s).Returns a ↔ (body s >>= Sum.elim (loop body) pure).Returns a := by
  rw [returns_bind]
  constructor
  · rintro ⟨n, h⟩
    cases n with
    | zero => cases h
    | succ n =>
      have hround : rounds body (n + 1) s = some a := h
      rw [rounds] at hround
      cases hbody : (body s).run n with
      | none =>
        rw [hbody] at hround
        cases hround
      | some r =>
        rw [hbody] at hround
        refine ⟨r, ⟨n, hbody⟩, ?_⟩
        cases r with
        | inl s' => exact ⟨n, hround⟩
        | inr b => exact returns_pure.2 (Option.some.inj hround)
  · rintro ⟨r, ⟨n, hbody⟩, m, hr⟩
    have hround : rounds body (max n m + 1) s = some a := by
      rw [rounds, (body s).mono hbody (Nat.le_max_left n m)]
      cases r with
      | inl s' => exact rounds_mono hr (Nat.le_max_right n m)
      | inr b => exact hr
    exact ⟨max n m + 1, hround⟩

/-- A body that returns where another one does. -/
theorem Returns.loop {body body' : σ → Comp (σ ⊕ α)}
    (hbody : ∀ s r, (body s).Returns r → (body' s).Returns r) {s : σ} {a : α}
    (h : (loop body s).Returns a) : (loop body' s).Returns a := by
  obtain ⟨n, h⟩ := h
  have hrounds : ∀ n s, rounds body n s = some a → (Comp.loop body' s).Returns a := by
    intro n
    induction n with
    | zero => nofun
    | succ n ih =>
      intro s hround
      rw [rounds] at hround
      cases hr : (body s).run n with
      | none =>
        rw [hr] at hround
        cases hround
      | some r =>
        rw [hr] at hround
        refine returns_loop.2 (returns_bind.2 ⟨r, hbody s r ⟨n, hr⟩, ?_⟩)
        cases r with
        | inl s' => exact ih s' hround
        | inr b => exact returns_pure.2 (Option.some.inj hround)
  exact hrounds n s h

/-- A round that changes nothing. -/
theorem not_returns_stuck {body : σ → Comp (σ ⊕ α)} {s : σ} (h : (body s).Returns (.inl s))
    (a : α) : ¬ (loop body s).Returns a := by
  rintro ⟨n, hn⟩
  have hrounds : ∀ n, rounds body n s ≠ some a := by
    intro n
    induction n with
    | zero => nofun
    | succ n ih =>
      intro hround
      rw [rounds] at hround
      cases hbody : (body s).run n with
      | none =>
        rw [hbody] at hround
        cases hround
      | some r =>
        obtain rfl := Returns.unique ⟨n, hbody⟩ h
        rw [hbody] at hround
        exact ih hround
  exact hrounds n hn

end Comp

/-! ## Traces -/

structure Traced (ε α : Type) where
  events : List ε
  value : α

instance : Monad (Traced ε) where
  pure a := ⟨[], a⟩
  bind t f := ⟨t.events ++ (f t.value).events, (f t.value).value⟩

def Traced.event (e : ε) : Traced ε Unit := ⟨[e], ()⟩

@[simp] theorem Traced.value_pure (a : α) : (pure a : Traced ε α).value = a := rfl

@[simp] theorem Traced.events_pure (a : α) : (pure a : Traced ε α).events = [] := rfl

@[simp] theorem Traced.value_bind (t : Traced ε α) (f : α → Traced ε β) :
    (t >>= f).value = (f t.value).value := rfl

@[simp] theorem Traced.events_bind (t : Traced ε α) (f : α → Traced ε β) :
    (t >>= f).events = t.events ++ (f t.value).events := rfl

theorem Traced.bind_congr {t : Traced ε α} {f g : α → Traced ε β} (h : f t.value = g t.value) :
    (t >>= f) = (t >>= g) := by
  change Traced.mk (t.events ++ _) _ = Traced.mk (t.events ++ _) _
  rw [h]

namespace Comp

variable {allowed : ε → Prop}

/-- `c` returns if and only if all that happens in `t` is allowed. -/
def Meets (allowed : ε → Prop) (c : Comp α) (t : Traced ε α) : Prop :=
  ∀ a, c.Returns a ↔ (∀ e ∈ t.events, allowed e) ∧ t.value = a

theorem Meets.returns_iff {c : Comp α} {t : Traced ε α} (h : c.Meets allowed t) :
    (∃ a, c.Returns a) ↔ ∀ e ∈ t.events, allowed e := by
  constructor
  · rintro ⟨a, ha⟩
    exact ((h a).1 ha).1
  · exact fun hall => ⟨t.value, (h _).2 ⟨hall, rfl⟩⟩

theorem Meets.pure (a : α) : (pure a : Comp α).Meets allowed (pure a) := by
  intro b
  simp [returns_pure]

/-- What happens first, and then. -/
theorem Meets.bind {c : Comp α} {t : Traced ε α} {f : α → Comp β} {g : α → Traced ε β}
    (h : c.Meets allowed t) (hf : (f t.value).Meets allowed (g t.value)) :
    (c >>= f).Meets allowed (t >>= g) := by
  intro b
  rw [returns_bind, Traced.events_bind, Traced.value_bind, List.forall_mem_append]
  constructor
  · rintro ⟨a, ha, hb⟩
    obtain ⟨hevents, rfl⟩ := (h a).1 ha
    obtain ⟨hmore, hvalue⟩ := (hf b).1 hb
    exact ⟨⟨hevents, hmore⟩, hvalue⟩
  · rintro ⟨⟨hevents, hmore⟩, hvalue⟩
    exact ⟨t.value, (h _).2 ⟨hevents, rfl⟩, (hf b).2 ⟨hmore, hvalue⟩⟩

/-- Something that is allowed happens without a step. -/
theorem Meets.event {c : Comp α} {t : Traced ε α} (h : c.Meets allowed t) {e : ε}
    (he : allowed e) : c.Meets allowed (do Traced.event e; t) := by
  intro a
  rw [h a, Traced.events_bind, Traced.value_bind]
  simp [Traced.event, he]

/-- Something that is not allowed, and nothing is returned. -/
theorem Meets.of_not_returns {c : Comp α} (h : ∀ a, ¬ c.Returns a) {e : ε} (he : ¬ allowed e)
    (t : Traced ε α) : c.Meets allowed (do Traced.event e; t) := by
  intro a
  refine iff_of_false (h a) (fun hall => he (hall.1 e ?_))
  simp [Traced.event]

/-- A loop is a round, and then the other ones. -/
theorem Meets.loop {body : σ → Comp (σ ⊕ α)} {s : σ} {t : Traced ε α}
    (h : (body s >>= Sum.elim (Comp.loop body) Pure.pure).Meets allowed t) :
    (Comp.loop body s).Meets allowed t :=
  fun a => returns_loop.trans (h a)

/-- A loop that is stuck. -/
theorem Meets.stuck {body : σ → Comp (σ ⊕ α)} {s : σ} (h : body s = Pure.pure (.inl s)) {e : ε}
    (he : ¬ allowed e) (t : Traced ε α) :
    (Comp.loop body s).Meets allowed (do Traced.event e; t) :=
  .of_not_returns (not_returns_stuck (by rw [h]; exact returns_pure.2 rfl)) he t

end Comp

end Recovery.Lib
