import Mathlib.Data.List.Basic

/-!
# Hashing block by block

* `blocks B k xs` — the first `k` blocks of `B` elements.
* `absorb` — a compression function over all complete blocks; `leftover` — what is not in one.
* `absorb_snoc`, `absorb_snoc_full` — one more element.

The hashes of `libmincrypt` take the bytes of a message one at a time, into a buffer of one block.
The two lemmas on one more element are what a streaming update needs: the buffer grows, or it is
full and the compression function runs.
-/

set_option autoImplicit false

namespace Recovery.Lib.MerkleDamgard

variable {σ β : Type} (compress : σ → List β → σ) (B : Nat)

def blocks : Nat → List β → List (List β)
  | 0, _ => []
  | k + 1, xs => xs.take B :: blocks k (xs.drop B)

/-- The state after the complete blocks. -/
def absorb (s : σ) (xs : List β) : σ := (blocks B (xs.length / B) xs).foldl compress s

def leftover (xs : List β) : List β := xs.drop (xs.length / B * B)

theorem blocks_append : ∀ (k : Nat) (xs ys : List β), k * B ≤ xs.length →
    blocks B k (xs ++ ys) = blocks B k xs
  | 0, _, _, _ => rfl
  | k + 1, xs, ys, h => by
    rw [Nat.succ_mul] at h
    rw [blocks, blocks, List.take_append_of_le_length (by omega),
      List.drop_append_of_le_length (by omega),
      blocks_append k _ _ (by rw [List.length_drop]; omega)]

/-- The last block. -/
theorem blocks_succ : ∀ (k : Nat) (xs : List β),
    blocks B (k + 1) xs = blocks B k xs ++ [(xs.drop (k * B)).take B]
  | 0, xs => by simp [blocks]
  | k + 1, xs => by
    rw [blocks, blocks_succ k, blocks, List.drop_drop, List.cons_append, Nat.succ_mul,
      Nat.add_comm B]

/-- An element that does not complete a block. -/
theorem absorb_snoc (xs : List β) (x : β) (h : (xs.length + 1) % B ≠ 0) (s : σ) :
    absorb compress B s (xs ++ [x]) = absorb compress B s xs ∧
      leftover B (xs ++ [x]) = leftover B xs ++ [x] := by
  have hdiv : (xs ++ [x]).length / B = xs.length / B := by
    rw [List.length_append, List.length_singleton, Nat.succ_div_of_mod_ne_zero h]
  have hle := Nat.div_mul_le_self xs.length B
  rw [absorb, absorb, leftover, leftover, hdiv, blocks_append B _ _ _ hle,
    List.drop_append_of_le_length hle]
  exact ⟨rfl, rfl⟩

/-- An element that completes a block. -/
theorem absorb_snoc_full (xs : List β) (x : β) (h : (xs.length + 1) % B = 0) (s : σ) :
    absorb compress B s (xs ++ [x]) = compress (absorb compress B s xs) (leftover B xs ++ [x]) ∧
      leftover B (xs ++ [x]) = [] := by
  have hlen : (xs ++ [x]).length = xs.length + 1 := by simp
  have hdiv : (xs ++ [x]).length / B = xs.length / B + 1 := by
    rw [hlen, Nat.succ_div_of_mod_eq_zero h]
  have hle := Nat.div_mul_le_self xs.length B
  have hfull := Nat.div_add_mod' (xs.length + 1) B
  rw [h, Nat.succ_div_of_mod_eq_zero h, Nat.add_zero, Nat.succ_mul] at hfull
  have hlast : ((xs ++ [x]).drop (xs.length / B * B)).take B = leftover B xs ++ [x] := by
    rw [List.drop_append_of_le_length hle, List.take_of_length_le, leftover]
    rw [List.length_append, List.length_drop, List.length_singleton]
    omega
  constructor
  · rw [absorb, hdiv, blocks_succ, List.foldl_append, blocks_append B _ _ _ hle, hlast]
    rfl
  · rw [leftover, hdiv, Nat.succ_mul, hfull, ← hlen, List.drop_length]

end Recovery.Lib.MerkleDamgard
