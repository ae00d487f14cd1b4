import Mathlib.Tactic.FinCases
import Recovery.OtaUtil.SortedRangeSet

/-!
# What a sequence of insertions leaves (`SortedRangeSet` of `otautil/rangeset.cpp`)

* `Insertion` — one call of an `Insert`; `Insertion.Covers` — the blocks that it is about.
* `Insertion.Exact` — the calls that insert just those: not an empty piece of a file, but at the
  start of a block after the first, not one past the end of the address space, and not the range
  that `PushBack` takes for an overflow.
* `insertions_spec` — the sequences of some calls leave sets in order of the blocks that they are
  about exactly when each call is such.

The blocks of a set say nothing about how its ranges are cut, and `Insert` merges them; so the
statement is about membership, order and disjointness.
-/

set_option autoImplicit false

namespace Recovery.OtaUtil

open SortedRangeSet

/-- A call of `Insert`. -/
inductive Insertion where
  | range (toInsert : Range)
  | set (rs : RangeSet)
  | bytes (start len : Nat)

namespace Insertion

def apply (s : SortedRangeSet) : Insertion → SortedRangeSet
  | range toInsert => s.insert toInsert
  | set rs => s.insertSet rs
  | bytes start len => s.insertBytes start len

/-- The numbers of the call are of type `size_t`. -/
def InSizeT : Insertion → Prop
  | range toInsert => toInsert.1 ≤ SIZE_MAX ∧ toInsert.2 ≤ SIZE_MAX
  | set rs => ∀ r ∈ rs.ranges, r.2 ≤ SIZE_MAX
  | bytes start len => start ≤ SIZE_MAX ∧ len ≤ SIZE_MAX

/-- The blocks of a range or of a set, or those that some byte of a piece of a file is in. -/
def Covers (n : Nat) : Insertion → Prop
  | range toInsert => toInsert.1 ≤ n ∧ n < toInsert.2
  | set rs => n ∈ rs.blockList
  | bytes start len => ∃ byte, start ≤ byte ∧ byte < start + len ∧ n = byte / kBlockSize

/-- The call inserts the blocks that it covers. -/
def Exact : Insertion → Prop
  | range toInsert => Range.blocks toInsert ≠ SIZE_MAX
  | set _ => True
  | bytes start len => start + len ≤ 2 ^ 64 ∧ (len = 0 → start ≠ 0 ∧ start % kBlockSize = 0)

end Insertion

/-! ## One insertion -/

/-- The blocks touched by a piece of a file that is not empty. -/
theorem touched_iff {start len n : Nat} (h : 0 < len) :
    (∃ byte, start ≤ byte ∧ byte < start + len ∧ n = byte / kBlockSize) ↔
      start / kBlockSize ≤ n ∧ n ≤ (start + len - 1) / kBlockSize := by
  have hblock : 0 < kBlockSize := by decide
  constructor
  · rintro ⟨byte, hstart, hend, rfl⟩
    exact ⟨Nat.div_le_div_right hstart, Nat.div_le_div_right (by lia)⟩
  · rintro ⟨hfirst, hlast⟩
    refine ⟨max start (n * kBlockSize), Nat.le_max_left _ _, ?_, ?_⟩
    · have hn := (Nat.le_div_iff_mul_le hblock).1 hlast
      lia
    · rcases Nat.lt_or_ge start (n * kBlockSize) with hlt | hge
      · rw [Nat.max_eq_right (Nat.le_of_lt hlt), Nat.mul_div_cancel _ hblock]
      · rw [Nat.max_eq_left hge]
        exact Nat.le_antisymm ((Nat.le_div_iff_mul_le hblock).2 hge) hfirst

theorem blockRange_blocks (start len : Nat) : Range.blocks (blockRange start len) < SIZE_MAX := by
  have hmod : (start + len + 2 ^ 64 - 1) % 2 ^ 64 < 2 ^ 64 := Nat.mod_lt _ (by decide)
  have hdiv : (start + len + 2 ^ 64 - 1) % 2 ^ 64 / kBlockSize < 2 ^ 52 := by
    refine Nat.div_lt_of_lt_mul ?_
    exact hmod
  have hmax : 2 ^ 52 < SIZE_MAX := by decide
  exact Nat.lt_of_le_of_lt (Nat.sub_le _ _) (Nat.lt_of_le_of_lt hdiv hmax)

theorem mem_insertBytes {s : SortedRangeSet} {start len n : Nat} :
    n ∈ (s.insertBytes start len).blockList ↔ n ∈ s.blockList ∨
      (start / kBlockSize ≤ n ∧ n ≤ (start + len + 2 ^ 64 - 1) % 2 ^ 64 / kBlockSize) := by
  rw [insertBytes, mem_insert]
  have hblocks := blockRange_blocks start len
  simp only [hblocks, and_true]
  simp only [blockRange, Nat.lt_succ_iff]

/-- The last byte, where nothing wraps. -/
theorem lastByte_eq {start len : Nat} (h : 0 < start + len) (hend : start + len ≤ 2 ^ 64) :
    (start + len + 2 ^ 64 - 1) % 2 ^ 64 = start + len - 1 := by
  rw [show start + len + 2 ^ 64 - 1 = start + len - 1 + 2 ^ 64 by lia, Nat.add_mod_right,
    Nat.mod_eq_of_lt (by lia)]

theorem bytes_exact {s : SortedRangeSet} {start len n : Nat} (hexact : (Insertion.bytes start len).Exact) :
    n ∈ (s.insertBytes start len).blockList ↔
      n ∈ s.blockList ∨ (Insertion.bytes start len).Covers n := by
  obtain ⟨hend, hempty⟩ := hexact
  rw [mem_insertBytes]
  refine or_congr Iff.rfl ?_
  rw [Insertion.Covers]
  rcases Nat.eq_zero_or_pos len with rfl | hlen
  · -- The start of a block, and the end of the one before it.
    obtain ⟨hstart, hmod⟩ := hempty rfl
    rw [lastByte_eq (by lia) hend]
    have hdiv := Nat.div_add_mod start kBlockSize
    rw [hmod] at hdiv
    have hlast : (start + 0 - 1) / kBlockSize < start / kBlockSize := by
      refine (Nat.div_lt_iff_lt_mul (by decide)).2 ?_
      rw [Nat.mul_comm]
      lia
    constructor
    · lia
    · rintro ⟨byte, h1, h2, -⟩
      lia
  · rw [lastByte_eq (by lia) hend, touched_iff hlen]

theorem mem_apply {s : SortedRangeSet} {op : Insertion} (hsize : op.InSizeT) (hexact : op.Exact)
    {n : Nat} : n ∈ (op.apply s).blockList ↔ n ∈ s.blockList ∨ op.Covers n := by
  cases op with
  | range toInsert =>
    have hblocks : Range.blocks toInsert < SIZE_MAX := by
      have : Range.blocks toInsert ≤ toInsert.2 := Nat.sub_le _ _
      have := hsize.2
      unfold Insertion.Exact at hexact
      lia
    rw [Insertion.apply, mem_insert, Insertion.Covers]
    simp only [hblocks, and_true]
  | set rs => exact mem_insertSet
  | bytes start len => exact bytes_exact hexact

/-- A call that is not exact covers blocks that it does not insert, or the other way round. -/
theorem exact_of_covers {op : Insertion} (hsize : op.InSizeT)
    (h : ∀ n, n ∈ (op.apply empty).blockList ↔ op.Covers n) : op.Exact := by
  cases op with
  | range toInsert =>
    intro hblocks
    have hpos : toInsert.1 < toInsert.2 := by
      have hmax : 0 < SIZE_MAX := by decide
      unfold Range.blocks at hblocks
      lia
    have hin := (h toInsert.1).2 ⟨Nat.le_refl _, hpos⟩
    rw [Insertion.apply, mem_insert, hblocks] at hin
    rcases hin with hin | ⟨-, -, hin⟩
    · exact notMem_empty _ hin
    · exact absurd hin (Nat.lt_irrefl _)
  | set rs => trivial
  | bytes start len =>
    have hin (n : Nat) : (start / kBlockSize ≤ n ∧
        n ≤ (start + len + 2 ^ 64 - 1) % 2 ^ 64 / kBlockSize) ↔ (Insertion.bytes start len).Covers n := by
      rw [← h n, Insertion.apply, mem_insertBytes]
      exact (or_iff_right (notMem_empty n)).symm
    constructor
    · by_contra hend
      -- The first block past the end of the address space is touched.
      have hmax : start ≤ 2 ^ 64 - 1 := hsize.1
      have hpast := (hin (2 ^ 52)).2 ⟨2 ^ 64, by lia, by lia, by decide⟩
      have hmod : (start + len + 2 ^ 64 - 1) % 2 ^ 64 < 2 ^ 64 := Nat.mod_lt _ (by decide)
      have hdiv : (start + len + 2 ^ 64 - 1) % 2 ^ 64 / kBlockSize < 2 ^ 52 :=
        Nat.div_lt_of_lt_mul hmod
      lia
    · rintro rfl
      have hnone : ¬ (start / kBlockSize ≤ start / kBlockSize ∧
          start / kBlockSize ≤ (start + 0 + 2 ^ 64 - 1) % 2 ^ 64 / kBlockSize) := by
        rw [hin]
        rintro ⟨byte, h1, h2, -⟩
        lia
      rw [not_and] at hnone
      have hlast := hnone (Nat.le_refl _)
      constructor
      · intro hzero
        apply hlast
        rw [hzero, Nat.zero_div]
        exact Nat.zero_le _
      · by_contra hmod
        have hstart : start ≠ 0 := by
          rintro rfl
          exact hmod rfl
        have hmax : start ≤ 2 ^ 64 - 1 := hsize.1
        have hbyte : (start + 0 + 2 ^ 64 - 1) % 2 ^ 64 = start + 0 - 1 :=
          @lastByte_eq start 0 (by lia) (by lia)
        rw [hbyte] at hlast
        apply hlast
        refine (Nat.le_div_iff_mul_le (by decide)).2 ?_
        have hdiv := Nat.div_add_mod' start kBlockSize
        lia

/-! ## A sequence of insertions -/

def applyAll (ops : List Insertion) : SortedRangeSet := ops.foldl Insertion.apply empty

/-- What every insertion should leave: ranges in order that do not touch, their number of blocks, which
does not wrap, and the blocks of the calls. -/
structure Represents (s : SortedRangeSet) (ops : List Insertion) : Prop where
  sorted : s.ranges.Pairwise fun a b => a.2 < b.1
  blocks : s.blocks = s.blockList.toFinset.card
  inSizeT : s.blocks ≤ SIZE_MAX
  covers : ∀ n, n ∈ s.blockList ↔ ∃ op ∈ ops, op.Covers n

theorem mem_foldl_apply {ops : List Insertion} {s : SortedRangeSet} (hsize : ∀ op ∈ ops, op.InSizeT)
    (hexact : ∀ op ∈ ops, op.Exact) {n : Nat} :
    n ∈ (ops.foldl Insertion.apply s).blockList ↔ n ∈ s.blockList ∨ ∃ op ∈ ops, op.Covers n := by
  induction ops generalizing s with
  | nil => simp
  | cons op ops ih =>
    rw [List.foldl_cons, ih (fun o ho => hsize o (List.mem_cons_of_mem op ho))
      fun o ho => hexact o (List.mem_cons_of_mem op ho),
      mem_apply (hsize op List.mem_cons_self) (hexact op List.mem_cons_self), List.exists_mem_cons_iff,
      or_assoc]

theorem Insertion.Covers.lt {op : Insertion} {n : Nat} (h : op.Covers n) (hsize : op.InSizeT)
    (hexact : op.Exact) : n < SIZE_MAX := by
  cases op with
  | range toInsert => exact Nat.lt_of_lt_of_le h.2 hsize.2
  | set rs =>
    obtain ⟨r, hr, -, hlt⟩ := RangeSet.mem_blockList.1 h
    exact Nat.lt_of_lt_of_le hlt (hsize r hr)
  | bytes start len =>
    obtain ⟨byte, -, hlt, rfl⟩ := h
    have hend : start + len ≤ 2 ^ 64 := hexact.1
    have hblock : byte / kBlockSize < 2 ^ 52 := Nat.div_lt_of_lt_mul (Nat.lt_of_lt_of_le hlt hend)
    exact Nat.lt_trans hblock (by decide)

/-- **A sequence of exact insertions leaves what it covers.** -/
theorem applyAll_exact {ops : List Insertion} (hsize : ∀ op ∈ ops, op.InSizeT)
    (hexact : ∀ op ∈ ops, op.Exact) : Represents (applyAll ops) ops := by
  have hcovers (n : Nat) : n ∈ (applyAll ops).blockList ↔ ∃ op ∈ ops, op.Covers n := by
    rw [applyAll, mem_foldl_apply hsize hexact]
    exact or_iff_right (notMem_empty n)
  have hcard := (applyAll ops).blocks_eq_card
  have hlt : (applyAll ops).blockList.toFinset ⊆ Finset.range SIZE_MAX := by
    intro n hn
    obtain ⟨op, hop, hcover⟩ := (hcovers n).1 (List.mem_toFinset.1 hn)
    exact Finset.mem_range.2 (hcover.lt (hsize op hop) (hexact op hop))
  have hle := Finset.card_le_card hlt
  rw [← hcard, Finset.card_range] at hle
  exact ⟨(applyAll ops).sorted, hcard, hle, hcovers⟩

/-- A call that is not exact does not, even alone. -/
theorem exact_of_represents {op : Insertion} (hsize : op.InSizeT)
    (h : Represents (applyAll [op]) [op]) : op.Exact := by
  apply exact_of_covers hsize
  intro n
  have hcovers := h.covers n
  simp only [List.mem_singleton, exists_eq_left] at hcovers
  exact hcovers

/-- **Insertions**: every sequence of some calls leaves what it covers, if and only if each of the
calls is exact. -/
theorem insertions_spec (calls : List Insertion) (hsize : ∀ op ∈ calls, op.InSizeT) :
    (∀ ops, ops ⊆ calls → Represents (applyAll ops) ops) ↔ ∀ op ∈ calls, op.Exact := by
  constructor
  · intro h op hop
    apply exact_of_represents (hsize op hop)
    apply h
    exact List.cons_subset.2 ⟨hop, List.nil_subset calls⟩
  · intro hexact ops hops
    exact applyAll_exact (fun op hop => hsize op (hops hop)) fun op hop => hexact op (hops hop)

/-- A block's bytes, and then nothing at the start of the next block. -/
theorem insertions_spec_bytes :
    Represents (applyAll [.bytes 4096 4096, .bytes 8192 0]) [.bytes 4096 4096, .bytes 8192 0] := by
  refine (insertions_spec [.bytes 4096 4096, .bytes 8192 0] ?_).2 ?_ _ (List.Subset.refl _)
  · intro op hop
    fin_cases hop <;> exact ⟨by decide, by decide⟩
  · intro op hop
    fin_cases hop
    · exact ⟨by decide, fun h => absurd h (by decide)⟩
    · exact ⟨by decide, fun _ => ⟨by decide, by decide⟩⟩

/-- An empty piece of the first block covers no block, and every block of a file is inserted. -/
theorem insert_nothing : ¬ ∀ ops : List Insertion, (∀ op ∈ ops, op.InSizeT) →
    Represents (applyAll ops) ops := by
  intro h
  have hrep := h [.bytes 0 0] fun op hop => by
    rw [List.mem_singleton.1 hop]
    exact ⟨Nat.zero_le _, Nat.zero_le _⟩
  have hin : 0 ∈ (applyAll [.bytes 0 0]).blockList := by
    have hblocks : 0 ∈ (empty.insertBytes 0 0).blockList :=
      mem_insertBytes.2 (.inr ⟨Nat.le_of_eq (Nat.zero_div _), Nat.zero_le _⟩)
    exact hblocks
  obtain ⟨op, hop, hcover⟩ := (hrep.covers 0).1 hin
  rw [List.mem_singleton.1 hop] at hcover
  obtain ⟨byte, h1, h2, -⟩ := hcover
  omega

end Recovery.OtaUtil
