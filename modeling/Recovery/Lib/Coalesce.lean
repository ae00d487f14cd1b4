import Mathlib.Algebra.Order.Ring.Int
import Mathlib.Data.List.Basic

/-!
# Coalescing numbers into ranges

`f 0, …, f (n - 1)` as a list of half-open ranges: a number that follows the end of the last range
extends it, any other starts a new one.

* `Coalesced f n ps` — `ps` is that list.
* `Coalesced.flatMap_range'` — the ranges cover the numbers, in order.
* `StartsOk`, `Coalesced.startsOk_iff` — what holds of every range's position and start, in terms of
  the numbers that start a range.

The order of the numbers is kept and nothing is sorted: a number that was covered before starts a
new range when it comes again.
-/

set_option autoImplicit false

namespace Recovery.Lib

inductive Coalesced (f : Nat → Nat) : Nat → List (Nat × Nat) → Prop where
  | nil : Coalesced f 0 []
  | extend {n : Nat} {ps : List (Nat × Nat)} {a : Nat} (h : Coalesced f n (ps ++ [(a, f n)])) :
      Coalesced f (n + 1) (ps ++ [(a, f n + 1)])
  | fresh {n : Nat} {ps : List (Nat × Nat)} (h : Coalesced f n ps)
      (hne : ∀ p, ps.getLast? = some p → p.2 ≠ f n) :
      Coalesced f (n + 1) (ps ++ [(f n, f n + 1)])

variable {f : Nat → Nat} {n : Nat} {ps : List (Nat × Nat)}

/-- The last range ends after the last number. -/
theorem Coalesced.getLast? (h : Coalesced f n ps) {p : Nat × Nat} (hp : ps.getLast? = some p) :
    0 < n ∧ p.2 = f (n - 1) + 1 := by
  cases h with
  | nil => cases hp
  | extend h =>
    rw [List.getLast?_concat] at hp
    obtain rfl := Option.some.inj hp
    exact ⟨Nat.succ_pos _, rfl⟩
  | fresh h =>
    rw [List.getLast?_concat] at hp
    obtain rfl := Option.some.inj hp
    exact ⟨Nat.succ_pos _, rfl⟩

theorem Coalesced.eq_nil_iff (h : Coalesced f n ps) : ps = [] ↔ n = 0 := by
  cases h with
  | nil => simp
  | extend h => simp
  | fresh h => simp

/-- Both ends of a range come from the numbers. -/
theorem Coalesced.bounds (h : Coalesced f n ps) :
    ∀ p ∈ ps, p.1 < p.2 ∧ (∃ k, k < n ∧ p.1 = f k) ∧ ∃ k, k < n ∧ p.2 = f k + 1 := by
  induction h with
  | nil => simp
  | @extend n ps a h ih =>
    intro p hp
    rw [List.mem_append, List.mem_singleton] at hp
    rcases hp with hp | rfl
    · obtain ⟨hlt, ⟨j, hj, hj'⟩, k, hk, hk'⟩ := ih p (List.mem_append_left _ hp)
      exact ⟨hlt, ⟨j, by lia, hj'⟩, k, by lia, hk'⟩
    · obtain ⟨hlt, ⟨j, hj, hj'⟩, -⟩ := ih (a, f n) (List.mem_append_right _ List.mem_cons_self)
      exact ⟨Nat.lt_succ_of_lt hlt, ⟨j, by lia, hj'⟩, n, Nat.lt_succ_self n, rfl⟩
  | @fresh n ps h hne ih =>
    intro p hp
    rw [List.mem_append, List.mem_singleton] at hp
    rcases hp with hp | rfl
    · obtain ⟨hlt, ⟨j, hj, hj'⟩, k, hk, hk'⟩ := ih p hp
      exact ⟨hlt, ⟨j, by lia, hj'⟩, k, by lia, hk'⟩
    · exact ⟨Nat.lt_succ_self _, ⟨n, Nat.lt_succ_self n, rfl⟩, n, Nat.lt_succ_self n, rfl⟩

/-- **The ranges cover the numbers, in order.** -/
theorem Coalesced.flatMap_range' (h : Coalesced f n ps) :
    ps.flatMap (fun p => List.range' p.1 (p.2 - p.1)) = (List.range n).map f := by
  induction h with
  | nil => rfl
  | @extend n ps a h ih =>
    have hlt : a < f n := (h.bounds (a, f n) (by simp)).1
    rw [List.range_succ, List.map_append, ← ih, List.flatMap_append, List.flatMap_append,
      List.append_assoc]
    congr 1
    show List.range' a (f n + 1 - a) ++ [] = (List.range' a (f n - a) ++ []) ++ [f n]
    rw [List.append_nil, List.append_nil, show f n + 1 - a = (f n - a) + 1 by lia,
      List.range'_concat, show a + 1 * (f n - a) = f n by lia]
  | @fresh n ps h hne ih =>
    rw [List.range_succ, List.map_append, ← ih, List.flatMap_append]
    congr 1
    show List.range' (f n) (f n + 1 - f n) ++ [] = [f n]
    rw [List.append_nil, Nat.add_sub_cancel_left]
    rfl

def covered (ps : List (Nat × Nat)) : Nat := (ps.map fun p => p.2 - p.1).sum

@[simp] theorem covered_nil : covered [] = 0 := rfl

@[simp] theorem covered_cons (p : Nat × Nat) (ps : List (Nat × Nat)) :
    covered (p :: ps) = (p.2 - p.1) + covered ps := rfl

theorem length_le_covered {ps : List (Nat × Nat)} (h : ∀ p ∈ ps, p.1 < p.2) :
    ps.length ≤ covered ps := by
  induction ps with
  | nil => exact Nat.le_refl 0
  | cons p ps ih =>
    have hp := h p List.mem_cons_self
    have hps := ih fun q hq => h q (List.mem_cons_of_mem _ hq)
    rw [List.length_cons, covered_cons]
    lia

theorem Coalesced.covered_eq (h : Coalesced f n ps) : covered ps = n := by
  have hlen := congrArg List.length h.flatMap_range'
  rw [List.length_flatMap, List.length_map, List.length_range] at hlen
  simpa [covered] using hlen

/-! ## Where ranges start -/

/-- `Q` holds of the position and the start of every range, the first being at position `i`. -/
def StartsOk (Q : Nat → Nat → Prop) : Nat → List (Nat × Nat) → Prop
  | _, [] => True
  | i, p :: ps => Q i p.1 ∧ StartsOk Q (i + (p.2 - p.1)) ps

theorem startsOk_concat (Q : Nat → Nat → Prop) (i : Nat) (ps : List (Nat × Nat)) (p : Nat × Nat) :
    StartsOk Q i (ps ++ [p]) ↔ StartsOk Q i ps ∧ Q (i + covered ps) p.1 := by
  induction ps generalizing i with
  | nil => simp [StartsOk]
  | cons q ps ih =>
    rw [List.cons_append, StartsOk, StartsOk, ih, covered_cons, and_assoc, Nat.add_assoc]

/-- **A range starts at each number that does not follow the one before.** -/
theorem Coalesced.startsOk_iff (Q : Nat → Nat → Prop) (h : Coalesced f n ps) :
    StartsOk Q 0 ps ↔ ∀ k < n, (k = 0 ∨ f k ≠ f (k - 1) + 1) → Q k (f k) := by
  induction h with
  | nil => simp [StartsOk]
  | @extend n ps a h ih =>
    obtain ⟨hpos, hlast⟩ := h.getLast? List.getLast?_concat
    rw [startsOk_concat] at ih ⊢
    rw [ih]
    constructor
    · intro hq k hk hstart
      by_cases hkn : k = n
      · rw [hkn] at hstart
        exact absurd hlast (by
          rcases hstart with h0 | h1
          · lia
          · exact h1)
      · exact hq k (by lia) hstart
    · intro hq k hk
      exact hq k (by lia)
  | @fresh n ps h hne ih =>
    rw [startsOk_concat, ih, h.covered_eq, Nat.zero_add]
    constructor
    · rintro ⟨hq, hn⟩ k hk hstart
      by_cases hkn : k = n
      · rw [hkn]
        exact hn
      · exact hq k (by lia) hstart
    · intro hq
      refine ⟨fun k hk => hq k (by lia), hq n (by lia) ?_⟩
      by_cases h0 : n = 0
      · exact .inl h0
      · obtain ⟨p, hp⟩ : ∃ p, ps.getLast? = some p := by
          cases hg : ps.getLast? with
          | none => exact absurd (h.eq_nil_iff.1 (List.getLast?_eq_none_iff.1 hg)) h0
          | some p => exact ⟨p, rfl⟩
        have hpn := (h.getLast? hp).2
        exact .inr fun he => hne p hp (by lia)

end Recovery.Lib
