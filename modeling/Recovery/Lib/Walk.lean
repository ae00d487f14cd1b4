import Mathlib.Data.List.Basic

/-!
# Walks that skip

A walk over `b, b + 1, …, n - 1` that uses the indices `keep` accepts, in order.  It may end early:
in front of the first index that `stop` accepts, which it neither uses nor skips.

## Definitions

* `keptFrom keep n b` — the indices that the walk uses when nothing stops it.
* `keptBefore stop keep n b` — those that it uses in front of the first stop.
* `AgreeFor stop keep keep' n b k` — the walk that may stop decides like the other one at every index
  that fewer than `k` used ones precede.

## Results

* `keptFrom_cons`, `keptBefore_cons` — the walk goes on behind the index that it has used.
* `take_keptBefore_eq_iff` — two walks use the same first `k` indices exactly when they agree for
  these.  The condition is about single indices, so that a user can read it off the two tests.
-/

set_option autoImplicit false

namespace Recovery.Lib

variable {stop keep keep' : Nat → Bool} {n b : Nat}

def keptFrom (keep : Nat → Bool) (n b : Nat) : List Nat := (List.range' b (n - b)).filter keep

def keptBefore (stop keep : Nat → Bool) (n b : Nat) : List Nat :=
  ((List.range' b (n - b)).takeWhile fun i => !stop i).filter keep

/-! ## One index -/

theorem range'_of_lt (h : b < n) : List.range' b (n - b) = b :: List.range' (b + 1) (n - (b + 1)) := by
  rw [show n - b = n - (b + 1) + 1 by lia, List.range'_succ]

theorem keptFrom_of_le (h : n ≤ b) : keptFrom keep n b = [] := by
  rw [keptFrom, Nat.sub_eq_zero_of_le h]
  rfl

theorem keptFrom_of_keep (h : b < n) (hk : keep b = true) :
    keptFrom keep n b = b :: keptFrom keep n (b + 1) := by
  rw [keptFrom, keptFrom, range'_of_lt h, List.filter_cons_of_pos hk]

theorem keptFrom_of_skip (h : b < n) (hk : keep b = false) :
    keptFrom keep n b = keptFrom keep n (b + 1) := by
  rw [keptFrom, keptFrom, range'_of_lt h, List.filter_cons_of_neg (by simp [hk])]

theorem keptBefore_of_le (h : n ≤ b) : keptBefore stop keep n b = [] := by
  rw [keptBefore, Nat.sub_eq_zero_of_le h]
  rfl

theorem keptBefore_of_stop (h : stop b = true) : keptBefore stop keep n b = [] := by
  by_cases hb : b < n
  · rw [keptBefore, range'_of_lt hb, List.takeWhile_cons_of_neg (by simp [h])]
    rfl
  · exact keptBefore_of_le (Nat.le_of_not_lt hb)

theorem keptBefore_of_keep (h : b < n) (hs : stop b = false) (hk : keep b = true) :
    keptBefore stop keep n b = b :: keptBefore stop keep n (b + 1) := by
  rw [keptBefore, keptBefore, range'_of_lt h, List.takeWhile_cons_of_pos (by simp [hs]),
    List.filter_cons_of_pos hk]

theorem keptBefore_of_skip (h : b < n) (hs : stop b = false) (hk : keep b = false) :
    keptBefore stop keep n b = keptBefore stop keep n (b + 1) := by
  rw [keptBefore, keptBefore, range'_of_lt h, List.takeWhile_cons_of_pos (by simp [hs]),
    List.filter_cons_of_neg (by simp [hk])]

/-! ## The next index that is used -/

theorem mem_keptFrom {c : Nat} : c ∈ keptFrom keep n b ↔ b ≤ c ∧ c < n ∧ keep c = true := by
  rw [keptFrom, List.mem_filter, List.mem_range'_1]
  constructor
  · rintro ⟨⟨h1, h2⟩, h3⟩
    exact ⟨h1, by omega, h3⟩
  · rintro ⟨h1, h2, h3⟩
    exact ⟨⟨h1, by omega⟩, h3⟩

theorem keptBefore_subset : keptBefore stop keep n b ⊆ keptFrom keep n b :=
  ((List.takeWhile_sublist _).filter keep).subset

/-- The walk goes on after the index it has used. -/
theorem keptFrom_cons {c : Nat} {cs : List Nat} (h : keptFrom keep n b = c :: cs) :
    b ≤ c ∧ c < n ∧ keep c = true ∧ cs = keptFrom keep n (c + 1) := by
  obtain ⟨d, hd⟩ : ∃ d, d = n - b := ⟨_, rfl⟩
  induction d generalizing b with
  | zero =>
    rw [keptFrom_of_le (by lia)] at h
    cases h
  | succ d ih =>
    have hb : b < n := by lia
    cases hk : keep b with
    | true =>
      rw [keptFrom_of_keep hb hk] at h
      cases h
      exact ⟨Nat.le_refl _, hb, hk, rfl⟩
    | false =>
      rw [keptFrom_of_skip hb hk] at h
      obtain ⟨h1, h2⟩ := ih h (by lia)
      exact ⟨by lia, h2⟩

theorem keptBefore_cons {c : Nat} {cs : List Nat} (h : keptBefore stop keep n b = c :: cs) :
    keep c = true ∧ cs = keptBefore stop keep n (c + 1) := by
  obtain ⟨d, hd⟩ : ∃ d, d = n - b := ⟨_, rfl⟩
  induction d generalizing b with
  | zero =>
    rw [keptBefore_of_le (by lia)] at h
    cases h
  | succ d ih =>
    have hb : b < n := by lia
    cases hs : stop b with
    | true =>
      rw [keptBefore_of_stop hs] at h
      cases h
    | false =>
      cases hk : keep b with
      | true =>
        rw [keptBefore_of_keep hb hs hk] at h
        cases h
        exact ⟨hk, rfl⟩
      | false =>
        rw [keptBefore_of_skip hb hs hk] at h
        exact ih h (by lia)

theorem not_mem_keptBefore_succ : b ∉ keptBefore stop keep n (b + 1) := fun h => by
  have := (mem_keptFrom.1 (keptBefore_subset h)).1
  lia

/-! ## Two walks -/

/-- The walk by `keep'` that may stop decides like the one by `keep` at every index that fewer than
`k` used ones precede. -/
def AgreeFor (stop keep keep' : Nat → Bool) (n b k : Nat) : Prop :=
  ∀ i, b ≤ i → i < n → (keptFrom keep i b).length < k → stop i = false ∧ keep' i = keep i

/-- The first decision. -/
theorem AgreeFor.head {k : Nat} (h : AgreeFor stop keep keep' n b (k + 1)) (hb : b < n) :
    stop b = false ∧ keep' b = keep b :=
  h b (Nat.le_refl _) hb (by rw [keptFrom_of_le (Nat.le_refl _)]; exact Nat.succ_pos k)

theorem agreeFor_keep {k : Nat} (hb : b < n) (hk : keep b = true) :
    AgreeFor stop keep keep' n b (k + 1) ↔
      (stop b = false ∧ keep' b = true) ∧ AgreeFor stop keep keep' n (b + 1) k := by
  constructor
  · intro h
    refine ⟨hk ▸ h.head hb, fun i h1 h2 h3 => h i (by lia) h2 ?_⟩
    rw [keptFrom_of_keep (by lia) hk, List.length_cons]
    lia
  · rintro ⟨hfirst, h⟩ i h1 h2 h3
    by_cases hi : i = b
    · rw [hi, hk]
      exact hfirst
    · rw [keptFrom_of_keep (by lia) hk, List.length_cons] at h3
      exact h i (by lia) h2 (by lia)

theorem agreeFor_skip {k : Nat} (hb : b < n) (hk : keep b = false) :
    AgreeFor stop keep keep' n b (k + 1) ↔
      (stop b = false ∧ keep' b = false) ∧ AgreeFor stop keep keep' n (b + 1) (k + 1) := by
  constructor
  · intro h
    refine ⟨hk ▸ h.head hb, fun i h1 h2 h3 => h i (by lia) h2 ?_⟩
    rwa [keptFrom_of_skip (by lia) hk]
  · rintro ⟨hfirst, h⟩ i h1 h2 h3
    by_cases hi : i = b
    · rw [hi, hk]
      exact hfirst
    · rw [keptFrom_of_skip (by lia) hk] at h3
      exact h i (by lia) h2 h3

/-- **Two walks use the same first indices** exactly when they agree for these. -/
theorem take_keptBefore_eq_iff {k : Nat} (hlen : k ≤ (keptFrom keep n b).length) :
    (keptBefore stop keep' n b).take k = (keptFrom keep n b).take k ↔
      AgreeFor stop keep keep' n b k := by
  obtain ⟨d, hd⟩ : ∃ d, d = n - b := ⟨_, rfl⟩
  induction d generalizing b k with
  | zero =>
    rw [keptBefore_of_le (by lia), keptFrom_of_le (by lia)]
    exact ⟨fun _ i h1 h2 => by lia, fun _ => rfl⟩
  | succ d ih =>
    have hb : b < n := by lia
    cases k with
    | zero => exact ⟨fun _ i _ _ h => absurd h (Nat.not_lt_zero _), fun _ => rfl⟩
    | succ k =>
      cases hk : keep b with
      | true =>
        rw [agreeFor_keep hb hk]
        rw [keptFrom_of_keep hb hk] at hlen ⊢
        rw [List.length_cons] at hlen
        cases hs : stop b with
        | true =>
          rw [keptBefore_of_stop hs, List.take_nil, List.take_succ_cons]
          exact ⟨nofun, fun h => nomatch h.1.1⟩
        | false =>
          cases hk' : keep' b with
          | true =>
            rw [keptBefore_of_keep hb hs hk', List.take_succ_cons, List.take_succ_cons,
              List.cons.injEq, ih (by lia) (by lia)]
            exact ⟨fun h => ⟨⟨rfl, rfl⟩, h.2⟩, fun h => ⟨rfl, h.2⟩⟩
          | false =>
            -- the first walk uses `b`, the second is past it
            rw [keptBefore_of_skip hb hs hk', List.take_succ_cons]
            refine ⟨fun h => ?_, fun h => nomatch h.1.2⟩
            have hmem : b ∈ (keptBefore stop keep' n (b + 1)).take (k + 1) :=
              h ▸ List.mem_cons_self
            exact absurd (List.mem_of_mem_take hmem) not_mem_keptBefore_succ
      | false =>
        rw [agreeFor_skip hb hk]
        rw [keptFrom_of_skip hb hk] at hlen ⊢
        cases hs : stop b with
        | true =>
          rw [keptBefore_of_stop hs, List.take_nil]
          refine ⟨fun h => ?_, fun h => nomatch h.1.1⟩
          have hzero := congrArg List.length h.symm
          rw [List.length_take, List.length_nil] at hzero
          lia
        | false =>
          cases hk' : keep' b with
          | true =>
            rw [keptBefore_of_keep hb hs hk', List.take_succ_cons]
            refine ⟨fun h => ?_, fun h => nomatch h.1.2⟩
            have hmem : b ∈ (keptFrom keep n (b + 1)).take (k + 1) := h ▸ List.mem_cons_self
            have := (mem_keptFrom.1 (List.mem_of_mem_take hmem)).1
            lia
          | false =>
            rw [keptBefore_of_skip hb hs hk', ih hlen (by lia)]
            exact ⟨fun h => ⟨⟨rfl, rfl⟩, h⟩, fun h => h.2⟩

end Recovery.Lib
