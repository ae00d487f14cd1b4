import Mathlib.Algebra.Order.Ring.Int
import Mathlib.Tactic.Ring

/-!
# Straight lines on a grid

* `Aligned` — two points in one row, one column or one diagonal.
* `Between` — a point of the segment between two others.
* `towards p q k` — the point `k` moves away from `p`, in the direction of `q`.
* `inside p q` — the points that are passed on the way from `p` to `q`, in this order.
* `mem_inside` — these are all points of the segment; `inside_sorted` — their order.
* `Aligned.last_iff` — how a walk along both coordinates sees that the next point is `q`.

The directions are the eight that a king can go.  `GridLine` says nothing of two points that are not
aligned.
-/

set_option autoImplicit false

namespace Recovery.Lib

abbrev Point := Int × Int

namespace Point

def Aligned (p q : Point) : Prop :=
  p.1 = q.1 ∨ p.2 = q.2 ∨ (q.1 - p.1).natAbs = (q.2 - p.2).natAbs

instance (p q : Point) : Decidable (Aligned p q) :=
  inferInstanceAs (Decidable (_ ∨ _ ∨ _))

/-- `r` is on the segment from `p` to `q`, and not at its ends. -/
structure Between (p q r : Point) : Prop where
  ne_left : r ≠ p
  ne_right : r ≠ q
  column : min p.1 q.1 ≤ r.1 ∧ r.1 ≤ max p.1 q.1
  row : min p.2 q.2 ≤ r.2 ∧ r.2 ≤ max p.2 q.2
  line : (r.1 - p.1) * (q.2 - p.2) = (r.2 - p.2) * (q.1 - p.1)

/-- The direction from `a` to `b`. -/
def direction (a b : Int) : Int := if a < b then 1 else if b < a then -1 else 0

/-- How many moves a king needs. -/
def dist (p q : Point) : Nat := max (q.1 - p.1).natAbs (q.2 - p.2).natAbs

def towards (p q : Point) (k : Nat) : Point :=
  (p.1 + k * direction p.1 q.1, p.2 + k * direction p.2 q.2)

def inside (p q : Point) : List Point := (List.range' 1 (dist p q - 1)).map (towards p q)

theorem mem_inside_iff {p q r : Point} :
    r ∈ inside p q ↔ ∃ k, 0 < k ∧ k < dist p q ∧ towards p q k = r := by
  simp only [inside, List.mem_map, List.mem_range'_1]
  constructor
  · rintro ⟨k, ⟨hpos, hlt⟩, h⟩
    exact ⟨k, hpos, by omega, h⟩
  · rintro ⟨k, hpos, hlt, h⟩
    exact ⟨k, ⟨hpos, by omega⟩, h⟩

theorem direction_cases (a b : Int) :
    direction a b = 1 ∨ direction a b = -1 ∨ (direction a b = 0 ∧ a = b) := by
  unfold direction
  split
  · exact .inl rfl
  · split
    · exact .inr (.inl rfl)
    · exact .inr (.inr ⟨rfl, by lia⟩)

theorem direction_of_eq {a b : Int} (h : a = b) : direction a b = 0 := by
  rw [h]
  simp [direction]

theorem direction_of_ne {a b : Int} (h : a ≠ b) : direction a b = if a < b then 1 else -1 := by
  unfold direction
  by_cases hlt : a < b
  · rw [if_pos hlt, if_pos hlt]
  · rw [if_neg hlt, if_neg hlt, if_pos (by lia)]

theorem direction_mul (a b : Int) : (b - a).natAbs * direction a b = b - a := by
  unfold direction
  split
  · lia
  · split
    · lia
    · lia

/-- Along one coordinate, the moves stay on the way. -/
theorem direction_between {a b : Int} {d k : Nat} (hd : b - a = d * direction a b) (h : k ≤ d) :
    min a b ≤ a + k * direction a b ∧ a + k * direction a b ≤ max a b := by
  unfold direction at hd ⊢
  split at hd
  · rename_i hlt
    rw [if_pos hlt]
    lia
  · rename_i hge
    rw [if_neg hge]
    split
    · rename_i hgt
      rw [if_pos hgt] at hd
      lia
    · lia

/-- Along one coordinate, what is on the way is as many moves away as it is far. -/
theorem direction_reaches {a b c : Int} (h : min a b ≤ c ∧ c ≤ max a b) :
    a + (c - a).natAbs * direction a b = c := by
  unfold direction
  split
  · lia
  · split <;> lia

theorem natAbs_le_of_between {a b c : Int} (h : min a b ≤ c ∧ c ≤ max a b) :
    (c - a).natAbs ≤ (b - a).natAbs := by
  omega

/-- Both coordinates change by the distance, or one of them does not change. -/
theorem Aligned.eq_mul {p q : Point} (h : Aligned p q) :
    q.1 - p.1 = dist p q * direction p.1 q.1 ∧ q.2 - p.2 = dist p q * direction p.2 q.2 := by
  unfold Aligned at h
  have h₁ := direction_mul p.1 q.1
  have h₂ := direction_mul p.2 q.2
  have hcolumn : (q.1 - p.1).natAbs = dist p q ∨ direction p.1 q.1 = 0 := by
    unfold direction dist
    split
    · lia
    · split <;> lia
  have hrow : (q.2 - p.2).natAbs = dist p q ∨ direction p.2 q.2 = 0 := by
    unfold direction dist
    split
    · lia
    · split <;> lia
  constructor
  · rcases hcolumn with hd | hzero
    · rw [← hd, h₁]
    · rw [hzero, Int.mul_zero] at h₁ ⊢
      exact h₁.symm
  · rcases hrow with hd | hzero
    · rw [← hd, h₂]
    · rw [hzero, Int.mul_zero] at h₂ ⊢
      exact h₂.symm

theorem towards_zero (p q : Point) : towards p q 0 = p := by
  simp [towards]

theorem Aligned.towards_dist {p q : Point} (h : Aligned p q) : towards p q (dist p q) = q := by
  obtain ⟨h₁, h₂⟩ := h.eq_mul
  rw [towards, ← h₁, ← h₂]
  simp

/-- Each move leads one further away. -/
theorem dist_towards {p q : Point} (h : p ≠ q) (k : Nat) : dist p (towards p q k) = k := by
  have hne : ¬ (p.1 = q.1 ∧ p.2 = q.2) := fun hpq => h (Prod.ext hpq.1 hpq.2)
  unfold dist towards direction
  dsimp only
  split
  · split
    · lia
    · split <;> lia
  · split
    · split
      · lia
      · split <;> lia
    · split
      · lia
      · split <;> lia

theorem towards_inj {p q : Point} (h : p ≠ q) {k l : Nat} (heq : towards p q k = towards p q l) :
    k = l := by
  rw [← dist_towards h k, heq, dist_towards h l]

/-- The last point before `q` is a move away from it, in each coordinate that changes. -/
theorem Aligned.last_iff {p q : Point} (h : Aligned p q) {k : Nat} (hk : k < dist p q) :
    ((direction p.2 q.2 = 0 ∨ (towards p q k).2 ≠ q.2 - direction p.2 q.2) ∧
      (direction p.1 q.1 = 0 ∨ (towards p q k).1 ≠ q.1 - direction p.1 q.1)) ↔
        k + 1 < dist p q := by
  obtain ⟨h₁, h₂⟩ := h.eq_mul
  have hne : ¬ (p.1 = q.1 ∧ p.2 = q.2) := by
    rintro ⟨heq₁, heq₂⟩
    simp [dist, heq₁, heq₂] at hk
  unfold towards
  dsimp only
  -- each coordinate goes up, goes down or stays
  rcases direction_cases p.1 q.1 with hx | hx | ⟨hx, hx'⟩ <;>
    rcases direction_cases p.2 q.2 with hy | hy | ⟨hy, hy'⟩ <;>
    rw [hx] at h₁ ⊢ <;> rw [hy] at h₂ ⊢ <;> lia

theorem Aligned.between {p q r : Point} (h : Aligned p q) (hr : r ∈ inside p q) :
    Between p q r := by
  obtain ⟨k, hpos, hlt, rfl⟩ := mem_inside_iff.1 hr
  have hne : p ≠ q := by
    rintro rfl
    simp [dist] at hlt
  obtain ⟨h₁, h₂⟩ := h.eq_mul
  refine ⟨fun heq => ?_, fun heq => ?_, ?_, ?_, ?_⟩
  · have hstart : towards p q k = towards p q 0 := heq.trans (towards_zero p q).symm
    exact absurd (towards_inj hne hstart) (by lia)
  · have hend : towards p q k = towards p q (dist p q) := heq.trans h.towards_dist.symm
    exact absurd (towards_inj hne hend) (by lia)
  · exact direction_between h₁ hlt.le
  · exact direction_between h₂ hlt.le
  · rw [h₁, h₂]
    simp only [towards]
    ring

theorem Aligned.inside {p q r : Point} (h : Aligned p q) (hr : Between p q r) :
    r ∈ inside p q := by
  obtain ⟨hleft, hright, hcolumn, hrow, hline⟩ := hr
  -- on a diagonal, both coordinates change alike
  have hdiagonal : p.1 = q.1 ∨ p.2 = q.2 ∨ (r.1 - p.1).natAbs = (r.2 - p.2).natAbs := by
    by_cases hsame : q.1 - p.1 = 0
    · exact .inl (by lia)
    · rcases h with h | h | h
      · exact .inl h
      · exact .inr (.inl h)
      · rcases Int.natAbs_eq_natAbs_iff.1 h with hd | hd
        · rw [← hd] at hline
          exact .inr (.inr (by rw [mul_right_cancel₀ hsame hline]))
        · have hd' : q.2 - p.2 = -(q.1 - p.1) := by lia
          rw [hd', Int.mul_neg, ← Int.neg_mul] at hline
          exact .inr (.inr (by rw [← mul_right_cancel₀ hsame hline, Int.natAbs_neg]))
  have hx : (r.1 - p.1).natAbs = dist p r ∨ p.1 = q.1 := by
    rcases hdiagonal with hd | hd | hd
    · exact .inr hd
    · have hstay : r.2 - p.2 = 0 := by lia
      exact .inl (by simp [dist, hstay])
    · exact .inl (by simp [dist, hd])
  have hy : (r.2 - p.2).natAbs = dist p r ∨ p.2 = q.2 := by
    rcases hdiagonal with hd | hd | hd
    · have hstay : r.1 - p.1 = 0 := by lia
      exact .inl (by simp [dist, hstay])
    · exact .inr hd
    · exact .inl (by simp [dist, hd])
  have hmoves : towards p q (dist p r) = r := by
    refine Prod.ext ?_ ?_
    · rcases hx with hx | hx
      · rw [towards, ← hx]
        exact direction_reaches hcolumn
      · rw [towards, direction_of_eq hx, Int.mul_zero]
        lia
    · rcases hy with hy | hy
      · rw [towards, ← hy]
        exact direction_reaches hrow
      · rw [towards, direction_of_eq hy, Int.mul_zero]
        lia
  have hle : dist p r ≤ dist p q := max_le_max (natAbs_le_of_between hcolumn)
    (natAbs_le_of_between hrow)
  refine mem_inside_iff.2 ⟨dist p r, Nat.pos_of_ne_zero fun hzero => hleft ?_,
    lt_of_le_of_ne hle fun heq => hright ?_, hmoves⟩
  · rw [← hmoves, hzero, towards_zero]
  · rw [← hmoves, heq, h.towards_dist]

theorem mem_inside {p q r : Point} (h : Aligned p q) : r ∈ inside p q ↔ Between p q r :=
  ⟨h.between, h.inside⟩

/-- The points come in the order of their distance from the first one. -/
theorem inside_sorted {p q : Point} :
    (inside p q).Pairwise fun r s => dist p r < dist p s := by
  by_cases hne : p = q
  · subst hne
    simp [inside, dist]
  · unfold inside
    rw [List.pairwise_map]
    refine List.Pairwise.imp (fun {k l} hkl => ?_) List.pairwise_lt_range'
    rw [dist_towards hne, dist_towards hne]
    exact hkl

theorem inside_nodup {p q : Point} : (inside p q).Nodup :=
  inside_sorted.imp fun {r s} h heq => by
    rw [heq] at h
    exact lt_irrefl _ h

end Point

end Recovery.Lib
