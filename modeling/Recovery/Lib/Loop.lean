import Mathlib.Order.Basic

/-!
# Loops that may not end

A loop given by its round: a round either ends the loop with a result or comes back to its head in
a new state.

* `loop round fuel s` — at most `fuel` rounds from `s`; `loop_le` — more change nothing.
* `Ends round s` — some number of rounds ends the loop.
* `Rounds round s s'` — the loop comes back to its head in `s'`.
* `ends_iff` — when a stuck state comes back stuck and every other round uses up a measure, the
  loop ends exactly when it never comes to a stuck state.
* `loop_bounded` — total correctness: an invariant that uses up a measure, and its bound.
* `loop_eq_some` — a loop ends with the result of the last round it comes to.
-/

set_option autoImplicit false

namespace Recovery.Lib

variable {σ ρ : Type} (round : σ → σ ⊕ ρ)

def loop : Nat → σ → Option ρ
  | 0, _ => none
  | fuel + 1, s =>
    match round s with
    | .inl s' => loop fuel s'
    | .inr r => some r

/-- More rounds than are needed change nothing. -/
theorem loop_le {round : σ → σ ⊕ ρ} {fuel fuel' : Nat} {s : σ} {r : ρ}
    (h : loop round fuel s = some r) (hle : fuel ≤ fuel') : loop round fuel' s = some r := by
  induction fuel generalizing fuel' s with
  | zero => cases h
  | succ fuel ih =>
    obtain ⟨fuel', rfl⟩ := Nat.exists_eq_succ_of_ne_zero (show fuel' ≠ 0 by lia)
    rw [loop] at h ⊢
    cases hr : round s with
    | inl s' =>
      rw [hr] at h
      exact ih h (Nat.le_of_succ_le_succ hle)
    | inr r' =>
      rw [hr] at h
      exact h

/-- The loop ends when started in `s`. -/
def Ends (s : σ) : Prop := ∃ fuel r, loop round fuel s = some r

inductive Rounds : σ → σ → Prop where
  | refl (s : σ) : Rounds s s
  | next {s s' s'' : σ} : round s = .inl s' → Rounds s' s'' → Rounds s s''

variable {round}

theorem Ends.of_result {s : σ} {r : ρ} (h : round s = .inr r) : Ends round s :=
  ⟨1, r, by simp [loop, h]⟩

theorem ends_next {s s' : σ} (h : round s = .inl s') : Ends round s ↔ Ends round s' := by
  constructor
  · rintro ⟨fuel, r, hr⟩
    cases fuel with
    | zero => cases hr
    | succ fuel => exact ⟨fuel, r, by simpa [loop, h] using hr⟩
  · rintro ⟨fuel, r, hr⟩
    exact ⟨fuel + 1, r, by simpa [loop, h] using hr⟩

/-- A loop that ends ends from every state it comes to. -/
theorem Ends.rounds {s s' : σ} (he : Ends round s) (hr : Rounds round s s') : Ends round s' := by
  induction hr with
  | refl => exact he
  | next h _ ih => exact ih ((ends_next h).1 he)

/-- A state that comes back to its own kind is never left. -/
theorem not_ends_of_stuck {stuck : σ → Prop}
    (hstuck : ∀ s, stuck s → ∃ s', round s = .inl s' ∧ stuck s') {s : σ} (hs : stuck s) :
    ¬ Ends round s := by
  rintro ⟨fuel, r, hr⟩
  induction fuel generalizing s with
  | zero => cases hr
  | succ fuel ih =>
    obtain ⟨s', h, hs'⟩ := hstuck s hs
    rw [loop, h] at hr
    exact ih hs' hr

/-- The same for one result. -/
theorem returns_next {s s' : σ} (h : round s = .inl s') (r : ρ) :
    (∃ fuel, loop round fuel s = some r) ↔ ∃ fuel, loop round fuel s' = some r := by
  constructor
  · rintro ⟨fuel, hr⟩
    cases fuel with
    | zero => cases hr
    | succ fuel => exact ⟨fuel, by simpa [loop, h] using hr⟩
  · rintro ⟨fuel, hr⟩
    exact ⟨fuel + 1, by simpa [loop, h] using hr⟩

theorem returns_result {s : σ} {r' : ρ} (h : round s = .inr r') (r : ρ) :
    (∃ fuel, loop round fuel s = some r) ↔ r' = r := by
  constructor
  · rintro ⟨fuel, hr⟩
    cases fuel with
    | zero => cases hr
    | succ fuel => simpa [loop, h] using hr
  · rintro rfl
    exact ⟨1, by simp [loop, h]⟩

theorem ends_of_measure {stuck : σ → Prop} {measure : σ → Nat}
    (hdown : ∀ s s', ¬ stuck s → round s = .inl s' → measure s' < measure s) {s : σ}
    (hs : ∀ s', Rounds round s s' → ¬ stuck s') : Ends round s := by
  induction hm : measure s using Nat.strongRecOn generalizing s with
  | ind m ih =>
    cases hr : round s with
    | inr r => exact .of_result hr
    | inl s' =>
      have hlt := hdown s s' (hs s (.refl s)) hr
      have hrest : ∀ s'', Rounds round s' s'' → ¬ stuck s'' := by
        intro s'' h
        exact hs s'' (.next hr h)
      exact (ends_next hr).2 (ih (measure s') (by lia) hrest rfl)

/-- **The loop ends exactly when it never gets stuck.** -/
theorem ends_iff {stuck : σ → Prop} {measure : σ → Nat}
    (hstuck : ∀ s, stuck s → ∃ s', round s = .inl s' ∧ stuck s')
    (hdown : ∀ s s', ¬ stuck s → round s = .inl s' → measure s' < measure s) (s : σ) :
    Ends round s ↔ ∀ s', Rounds round s s' → ¬ stuck s' := by
  constructor
  · intro he s' hr hs'
    exact not_ends_of_stuck hstuck hs' (he.rounds hr)
  · exact ends_of_measure hdown

/-- An invariant with a measure that every round lowers, and what it says of the results. -/
theorem loop_bounded {I : Nat → σ → Prop} {P : ρ → Prop}
    (hnext : ∀ m s s', I m s → round s = .inl s' → ∃ m' < m, I m' s')
    (hend : ∀ m s r, I m s → round s = .inr r → P r) {m fuel : Nat} {s : σ} (hs : I m s)
    (hfuel : m < fuel) : ∃ r, loop round fuel s = some r ∧ P r := by
  induction fuel generalizing m s with
  | zero => lia
  | succ fuel ih =>
    cases hr : round s with
    | inr r => exact ⟨r, by simp [loop, hr], hend m s r hs hr⟩
    | inl s' =>
      obtain ⟨m', hlt, hs'⟩ := hnext m s s' hs hr
      obtain ⟨r, h, hP⟩ := ih hs' (by lia)
      exact ⟨r, by simpa [loop, hr] using h, hP⟩

theorem Rounds.trans {s s' s'' : σ} (h : Rounds round s s') (h' : Rounds round s' s'') :
    Rounds round s s'' := by
  induction h with
  | refl => exact h'
  | next hr _ ih => exact .next hr (ih h')

/-- What every round preserves holds wherever the loop comes to. -/
theorem Rounds.invariant {I : σ → Prop} (hnext : ∀ s s', I s → round s = .inl s' → I s')
    {s s' : σ} (h : Rounds round s s') (hs : I s) : I s' := by
  induction h with
  | refl => exact hs
  | next hr _ ih => exact ih (hnext _ _ hs hr)

theorem loop_eq_some {fuel : Nat} {s : σ} {r : ρ} (h : loop round fuel s = some r) :
    ∃ s', Rounds round s s' ∧ round s' = .inr r := by
  induction fuel generalizing s with
  | zero => cases h
  | succ fuel ih =>
    cases hr : round s with
    | inr r' =>
      rw [loop, hr] at h
      cases h
      exact ⟨s, .refl s, hr⟩
    | inl s' =>
      rw [loop, hr] at h
      obtain ⟨s'', hs'', hr'⟩ := ih h
      exact ⟨s'', .next hr hs'', hr'⟩

/-- The rounds of a loop are one sequence: a state it comes to is before its end. -/
theorem Rounds.before {s s' t : σ} {r : ρ} (h : Rounds round s s') (ht : Rounds round s t)
    (hr : round t = .inr r) : Rounds round s' t := by
  induction h with
  | refl => exact ht
  | next hs _ ih =>
    cases ht with
    | refl =>
      rw [hs] at hr
      cases hr
    | next hs' ht =>
      rw [hs] at hs'
      cases hs'
      exact ih ht

end Recovery.Lib
