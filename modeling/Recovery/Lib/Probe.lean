import Mathlib.Algebra.Order.Ring.Nat
import Mathlib.Data.List.Basic

/-!
# Probing

A search that goes round `m` places, from a start on.

* `ahead` — how many places are passed on the way from one to another.
* `probe` — the search for a place to stop at; `probe_spec`, `exists_probe`.
* `Occupied` — all places on the way are taken; such a place is not missed (`Occupied.probe`), and
  the first free place is one (`occupied_of_probe`).

Nothing is moved when an entry is removed, so a place that was given up must not stop a search;
what an entry is, and which places count as free, is up to the caller.
-/

set_option autoImplicit false

namespace Recovery.Lib

/-- The place after `i`. -/
def around (m i : Nat) : Nat := if i + 1 = m then 0 else i + 1

/-- The number of steps from `i` to `j`. -/
def ahead (m i j : Nat) : Nat := if i ≤ j then j - i else j + m - i

variable {m i j k home : Nat}

theorem around_lt (hi : i < m) : around m i < m := by
  unfold around
  split <;> lia

theorem ahead_self : ahead m i i = 0 := by simp [ahead]

theorem ahead_lt (hi : i < m) (hj : j < m) : ahead m i j < m := by
  unfold ahead
  split <;> lia

/-- Every other place is one step nearer to the next one. -/
theorem ahead_around (hi : i < m) (hj : j < m) (hne : j ≠ i) :
    ahead m i j = ahead m (around m i) j + 1 := by
  unfold ahead around
  by_cases hm : i + 1 = m
  · rw [if_pos hm, if_pos (Nat.zero_le j), if_neg (by lia)]
    lia
  · rw [if_neg hm]
    by_cases hij : i + 1 ≤ j
    · rw [if_pos (Nat.le_of_succ_le hij), if_pos hij]
      lia
    · rw [if_neg (by lia), if_neg hij]
      lia

theorem ahead_inj (hi : i < m) (hj : j < m) (hk : k < m) (h : ahead m i j = ahead m i k) :
    j = k := by
  unfold ahead at h
  split at h <;> split at h <;> lia

/-- The first place to stop at, from `i` on; `none` when there is none in `fuel` steps. -/
def probe (stop : Nat → Bool) (m : Nat) : Nat → Nat → Option Nat
  | 0, _ => none
  | fuel + 1, i => if stop i then some i else probe stop m fuel (around m i)

variable {stop : Nat → Bool}

/-- **The search stops at the first place** that it may stop at. -/
theorem probe_spec : ∀ {fuel i : Nat}, i < m → probe stop m fuel i = some j →
    j < m ∧ stop j = true ∧ ∀ k < m, ahead m i k < ahead m i j → stop k = false
  | 0, _, _, h => by cases h
  | fuel + 1, i, hi, h => by
    rw [probe] at h
    split at h
    · rename_i hstop
      cases h
      exact ⟨hi, hstop, fun k _ hk => by simp [ahead_self] at hk⟩
    · rename_i hgo
      obtain ⟨hj, hstop, hbefore⟩ := probe_spec (around_lt hi) h
      refine ⟨hj, hstop, fun k hk hlt => ?_⟩
      by_cases hki : k = i
      · rw [hki]
        simpa using hgo
      · have hji : j ≠ i := fun he => by simp [he, ahead_self] at hlt
        rw [ahead_around hi hk hki, ahead_around hi hj hji] at hlt
        exact hbefore k hk (Nat.lt_of_succ_lt_succ hlt)

/-- The search ends when there is a place to stop at. -/
theorem exists_probe : ∀ {fuel i : Nat}, i < m → j < m → stop j = true → ahead m i j < fuel →
    ∃ j', probe stop m fuel i = some j'
  | fuel + 1, i, hi, hj, hstop, hfuel => by
    rw [probe]
    split
    · exact ⟨i, rfl⟩
    · rename_i hgo
      have hji : j ≠ i := fun he => hgo (he ▸ hstop)
      rw [ahead_around hi hj hji] at hfuel
      exact exists_probe (around_lt hi) hj hstop (Nat.lt_of_succ_lt_succ hfuel)

/-- Every place on the way from `home` to `i` is taken. -/
def Occupied (taken : Nat → Prop) (m home i : Nat) : Prop :=
  ∀ k < m, ahead m home k < ahead m home i → taken k

variable {taken : Nat → Prop}

theorem Occupied.mono {taken' : Nat → Prop} (h : Occupied taken m home i)
    (hmono : ∀ k < m, taken k → taken' k) : Occupied taken' m home i :=
  fun k hk hlt => hmono k hk (h k hk hlt)

/-- **A taken place that can be reached is not missed**: a search that stops there, and at free
places, stops at a taken one. -/
theorem Occupied.probe {fuel : Nat} (h : Occupied taken m home i) (hhome : home < m) (hi : i < m)
    (htaken : taken i) (hstop : stop i = true) (hj : probe stop m fuel home = some j) :
    taken j := by
  obtain ⟨hjm, -, hbefore⟩ := probe_spec hhome hj
  by_cases hlt : ahead m home j < ahead m home i
  · exact h j hjm hlt
  · by_cases hgt : ahead m home i < ahead m home j
    · rw [hbefore i hi hgt] at hstop
      cases hstop
    · have heq : ahead m home j = ahead m home i := by lia
      exact ahead_inj hhome hjm hi heq ▸ htaken

/-- **The place where a search stops can be reached**, when it does not pass free places. -/
theorem occupied_of_probe {fuel : Nat} (hhome : home < m)
    (hpass : ∀ k < m, stop k = false → taken k) (hj : probe stop m fuel home = some j) :
    Occupied taken m home j := by
  obtain ⟨-, -, hbefore⟩ := probe_spec hhome hj
  exact fun k hk hlt => hpass k hk (hbefore k hk hlt)

end Recovery.Lib
