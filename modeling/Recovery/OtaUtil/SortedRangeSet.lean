import Mathlib.Data.Finset.Card
import Mathlib.Data.List.Sort
import Mathlib.Order.Basic
import Recovery.OtaUtil.RangeSet

/-!
# Sorted block ranges (`SortedRangeSet` of `otautil/rangeset.cpp`)

The structure carries what `Insert` establishes: the ranges are in order and do not touch.  The
constructor from pairs only sorts them: the comment above it asks that they are mutually exclusive, but
it takes (and the tests build) sets whose ranges overlap.  Such a set is a `RangeSet` with its ranges in
the order of their starts, and comes in as that.

* `mem_insertSet`, `mem_insert` — insertion is union; `blocks_eq_card` — the block count is the number
  of covered blocks.
* `ofPairs_sorted` — the constructor leaves a set in the order of the starts, as every insertion does.
* `getOffsetInRangeSet_spec` — a byte of a block of the set is found at the position of the block in
  the set.  The position is a `size_t`, so the blocks of a set with overlaps must fit in `2 ^ 64` bytes:
  `getOffsetInRangeSet_wraps`.
-/

set_option autoImplicit false

namespace Recovery.OtaUtil

/-- `SortedRangeSet::kBlockSize`. -/
def kBlockSize : Nat := 4096

structure SortedRangeSet extends RangeSet where
  sorted : ranges.Pairwise fun a b => a.2 < b.1

namespace SortedRangeSet

def empty : SortedRangeSet := ⟨RangeSet.empty, List.Pairwise.nil⟩

/-- The order of `std::pair`. -/
def rangeLe (a b : Range) : Prop := a.1 < b.1 ∨ (a.1 = b.1 ∧ a.2 ≤ b.2)

instance : DecidableRel rangeLe := fun a b => by unfold rangeLe; infer_instance

instance : Std.Total rangeLe := ⟨fun a b => by unfold rangeLe; omega⟩

instance : IsTrans Range rangeLe := ⟨fun a b c => by unfold rangeLe; omega⟩

/-- The loop of `Insert` with `toInsert` at hand. -/
def mergeRanges : Range → List Range → List Range
  | toInsert, [] => [toInsert]
  | toInsert, r :: ranges =>
    if r.1 ≤ toInsert.2 then mergeRanges (toInsert.1, max toInsert.2 r.2) ranges
    else toInsert :: mergeRanges r ranges

theorem mergeRanges_pos : ∀ {cur : Range} {ranges : List Range}, cur.1 < cur.2 →
    (∀ r ∈ ranges, r.1 < r.2) → ∀ r ∈ mergeRanges cur ranges, r.1 < r.2
  | cur, [], h, _, r, hr => by
    rw [mergeRanges, List.mem_singleton] at hr
    rw [hr]
    exact h
  | cur, x :: ranges, h, hpos, r, hr => by
    have hx := hpos x List.mem_cons_self
    have hrest := fun r hr => hpos r (List.mem_cons_of_mem x hr)
    rw [mergeRanges] at hr
    split at hr
    · exact mergeRanges_pos (by simp; omega) hrest r hr
    · rcases List.mem_cons.1 hr with rfl | hr
      · exact h
      · exact mergeRanges_pos hx hrest r hr

theorem mergeRanges_first_le : ∀ {cur : Range} {ranges : List Range},
    (cur :: ranges).Pairwise (fun a b => a.1 ≤ b.1) → ∀ r ∈ mergeRanges cur ranges, cur.1 ≤ r.1
  | cur, [], _, r, hr => by
    rw [mergeRanges, List.mem_singleton] at hr
    rw [hr]
  | cur, x :: ranges, h, r, hr => by
    rw [List.pairwise_cons, List.pairwise_cons] at h
    obtain ⟨hcur, hx, hrest⟩ := h
    rw [mergeRanges] at hr
    split at hr
    · have h' : ((cur.1, max cur.2 x.2) :: ranges).Pairwise (fun a b => a.1 ≤ b.1) :=
        List.pairwise_cons.2 ⟨fun y hy => hcur y (List.mem_cons_of_mem x hy), hrest⟩
      exact mergeRanges_first_le h' r hr
    · rcases List.mem_cons.1 hr with rfl | hr
      · exact le_rfl
      · exact (hcur x List.mem_cons_self).trans
          (mergeRanges_first_le (List.pairwise_cons.2 ⟨hx, hrest⟩) r hr)

theorem mergeRanges_sorted : ∀ {cur : Range} {ranges : List Range},
    (cur :: ranges).Pairwise (fun a b => a.1 ≤ b.1) →
      (mergeRanges cur ranges).Pairwise fun a b => a.2 < b.1
  | cur, [], _ => List.pairwise_singleton _ _
  | cur, x :: ranges, h => by
    rw [List.pairwise_cons, List.pairwise_cons] at h
    obtain ⟨hcur, hx, hrest⟩ := h
    rw [mergeRanges]
    split
    · exact mergeRanges_sorted
        (List.pairwise_cons.2 ⟨fun y hy => hcur y (List.mem_cons_of_mem x hy), hrest⟩)
    · rename_i hlt
      have h' : (x :: ranges).Pairwise (fun a b => a.1 ≤ b.1) := List.pairwise_cons.2 ⟨hx, hrest⟩
      refine List.pairwise_cons.2 ⟨fun r hr => ?_, mergeRanges_sorted h'⟩
      have := mergeRanges_first_le h' r hr
      lia

/-- The blocks of a list of ranges. -/
def Covers (ranges : List Range) (n : Nat) : Prop := ∃ r ∈ ranges, r.1 ≤ n ∧ n < r.2

theorem covers_cons {r : Range} {ranges : List Range} {n : Nat} :
    Covers (r :: ranges) n ↔ (r.1 ≤ n ∧ n < r.2) ∨ Covers ranges n := by
  simp [Covers]

/-- Merging ranges that touch leaves the blocks alone. -/
theorem mergeRanges_covers : ∀ {cur : Range} {ranges : List Range} {n : Nat},
    (∀ r ∈ cur :: ranges, r.1 < r.2) → (cur :: ranges).Pairwise (fun a b => a.1 ≤ b.1) →
      (Covers (mergeRanges cur ranges) n ↔ Covers (cur :: ranges) n)
  | cur, [], n, _, _ => Iff.rfl
  | cur, x :: ranges, n, hpos, h => by
    rw [List.pairwise_cons, List.pairwise_cons] at h
    obtain ⟨hcur, hx, hrest⟩ := h
    have hle := hcur x List.mem_cons_self
    have hcurpos := hpos cur List.mem_cons_self
    have hpos' := fun r hr => hpos r (List.mem_cons_of_mem cur hr)
    rw [mergeRanges]
    split
    · rename_i htouch
      have h' : ((cur.1, max cur.2 x.2) :: ranges).Pairwise (fun a b => a.1 ≤ b.1) :=
        List.pairwise_cons.2 ⟨fun y hy => hcur y (List.mem_cons_of_mem x hy), hrest⟩
      have hpos'' : ∀ r ∈ (cur.1, max cur.2 x.2) :: ranges, r.1 < r.2 := by
        intro r hr
        rcases List.mem_cons.1 hr with rfl | hr
        · simp only
          omega
        · exact hpos' r (List.mem_cons_of_mem x hr)
      rw [mergeRanges_covers hpos'' h', covers_cons, covers_cons, covers_cons, ← or_assoc]
      refine or_congr ?_ Iff.rfl
      simp only
      omega
    · rw [covers_cons, covers_cons, mergeRanges_covers hpos' (List.pairwise_cons.2 ⟨hx, hrest⟩)]

/-- The ranges of `Insert` put together again. -/
def ofSorted (ranges : List Range) (hpos : ∀ r ∈ ranges, r.1 < r.2)
    (h : ranges.Pairwise fun a b => a.1 ≤ b.1) : SortedRangeSet :=
  match ranges, hpos, h with
  | [], _, _ => empty
  | r :: ranges, hpos, h =>
    { ranges := mergeRanges r ranges
      blocks := ((mergeRanges r ranges).map Range.blocks).sum
      pos := mergeRanges_pos (hpos r List.mem_cons_self)
        fun x hx => hpos x (List.mem_cons_of_mem r hx)
      blocks_eq := rfl
      sorted := mergeRanges_sorted h }

theorem rangeLe_sorted (ranges : List Range) :
    (ranges.insertionSort rangeLe).Pairwise fun a b => a.1 ≤ b.1 :=
  (List.pairwise_insertionSort rangeLe ranges).imp fun h => by
    unfold rangeLe at h
    lia

/-- `Insert(const SortedRangeSet&)`. -/
def insertSet (s : SortedRangeSet) (rs : RangeSet) : SortedRangeSet :=
  if rs.ranges = [] then s
  else
    ofSorted ((s.ranges ++ rs.ranges).insertionSort rangeLe)
      (by
        intro r hr
        rw [List.mem_insertionSort, List.mem_append] at hr
        exact hr.elim (s.pos r) (rs.pos r))
      (rangeLe_sorted _)

/-- `Insert(const Range&)`. -/
def insert (s : SortedRangeSet) (toInsert : Range) : SortedRangeSet :=
  s.insertSet (RangeSet.ofPairs [toInsert])

/-- The blocks that `len` bytes from `start` on occupy, with the wrap of `size_t`. -/
def blockRange (start len : Nat) : Range :=
  (start / kBlockSize, (start + len + 2 ^ 64 - 1) % 2 ^ 64 / kBlockSize + 1)

/-- `Insert(size_t start, size_t len)`. -/
def insertBytes (s : SortedRangeSet) (start len : Nat) : SortedRangeSet :=
  s.insert (blockRange start len)

/-- `Overlaps(size_t start, size_t len)`. -/
def overlapsBytes (s : SortedRangeSet) (start len : Nat) : Bool :=
  s.overlaps (RangeSet.ofPairs [blockRange start len])

/-- `SortedRangeSet(std::vector<Range>&&)`. -/
def ofPairs (pairs : List Range) : RangeSet :=
  let rs := RangeSet.ofPairs pairs
  { ranges := rs.ranges.insertionSort rangeLe
    blocks := rs.blocks
    pos := fun r hr => rs.pos r ((List.mem_insertionSort rangeLe).1 hr)
    blocks_eq := by
      rw [rs.blocks_eq]
      exact (((List.perm_insertionSort rangeLe rs.ranges).map _).sum_nat).symm }

/-- The loop of `GetOffsetInRangeSet`, with `newBlockStart` blocks passed; `none` is a failed
`CHECK`.  The wrap of `size_t` is taken once, at the end. -/
def findOffset (oldOffset : Nat) : List Range → Nat → Option Nat
  | [], _ => none
  | range :: ranges, newBlockStart =>
    let oldBlockStart := oldOffset / kBlockSize
    if oldBlockStart ≥ range.2 then findOffset oldOffset ranges (newBlockStart + Range.blocks range)
    else if oldBlockStart ≥ range.1 then
      some (((newBlockStart + (oldBlockStart - range.1)) * kBlockSize + oldOffset % kBlockSize) %
        2 ^ 64)
    else none

/-- `GetOffsetInRangeSet`. -/
def getOffsetInRangeSet (rs : RangeSet) (oldOffset : Nat) : Option Nat :=
  findOffset oldOffset rs.ranges 0

/-! ## The blocks of a set -/

theorem covers_iff {rs : RangeSet} {n : Nat} : Covers rs.ranges n ↔ n ∈ rs.blockList :=
  RangeSet.mem_blockList.symm

@[simp] theorem notMem_empty (n : Nat) : n ∉ empty.blockList := by
  simp [empty, RangeSet.empty, RangeSet.blockList]

theorem covers_ofSorted {ranges : List Range} (hpos : ∀ r ∈ ranges, r.1 < r.2)
    (h : ranges.Pairwise fun a b => a.1 ≤ b.1) {n : Nat} :
    Covers (ofSorted ranges hpos h).ranges n ↔ Covers ranges n := by
  cases ranges with
  | nil => exact Iff.rfl
  | cons r ranges => exact mergeRanges_covers hpos h

/-- **`Insert` is union.** -/
theorem mem_insertSet {s : SortedRangeSet} {rs : RangeSet} {n : Nat} :
    n ∈ (s.insertSet rs).blockList ↔ n ∈ s.blockList ∨ n ∈ rs.blockList := by
  unfold insertSet
  split
  · rename_i h
    simp [← @covers_iff rs, Covers, h]
  · rw [← covers_iff, covers_ofSorted, ← covers_iff, ← covers_iff]
    simp only [Covers, List.mem_insertionSort, List.mem_append, or_and_right, exists_or]

/-- A set of one range is empty where the range is, and where it has `SIZE_MAX` blocks. -/
theorem mem_ofPairs_singleton {r : Range} {n : Nat} :
    n ∈ (RangeSet.ofPairs [r]).blockList ↔ r.1 ≤ n ∧ n < r.2 ∧ Range.blocks r < SIZE_MAX := by
  by_cases h : r.1 < r.2 ∧ Range.blocks r < SIZE_MAX
  · have hranges : (RangeSet.ofPairs [r]).ranges = [r] := by
      unfold RangeSet.ofPairs RangeSet.pushAll RangeSet.pushBack
      rw [dif_neg (by omega), if_neg (by simp only [RangeSet.empty]; omega)]
      rfl
    rw [RangeSet.mem_blockList, hranges]
    simp only [List.mem_singleton, exists_eq_left]
    omega
  · have hranges : (RangeSet.ofPairs [r]).ranges = [] := by
      unfold RangeSet.ofPairs RangeSet.pushAll RangeSet.pushBack
      by_cases hpos : r.1 ≥ r.2
      · rw [dif_pos hpos]
        rfl
      · rw [dif_neg hpos, if_pos (by simp only [RangeSet.empty]; omega)]
        rfl
    rw [RangeSet.mem_blockList, hranges]
    simp only [List.not_mem_nil, false_and, exists_false, false_iff]
    omega

theorem mem_insert {s : SortedRangeSet} {r : Range} {n : Nat} :
    n ∈ (s.insert r).blockList ↔
      n ∈ s.blockList ∨ (r.1 ≤ n ∧ n < r.2 ∧ Range.blocks r < SIZE_MAX) := by
  rw [insert, mem_insertSet, mem_ofPairs_singleton]

/-- A block belongs to one range only. -/
theorem blockList_sorted {rs : RangeSet} (h : rs.ranges.Pairwise fun a b => a.2 ≤ b.1) :
    rs.blockList.Pairwise (· < ·) := by
  rw [RangeSet.blockList, List.pairwise_flatMap]
  refine ⟨fun r _ => List.pairwise_lt_range' .., h.imp_of_mem ?_⟩
  intro a b ha hb hle x hx y hy
  have hx' := (Range.mem_blockList (rs.pos a ha)).1 hx
  have hy' := (Range.mem_blockList (rs.pos b hb)).1 hy
  lia

/-- **The block count is the number of covered blocks.** -/
theorem blocks_eq_card (s : SortedRangeSet) : s.blocks = s.blockList.toFinset.card := by
  have hsorted := @blockList_sorted s.toRangeSet (s.sorted.imp Nat.le_of_lt)
  rw [List.toFinset_card_of_nodup (hsorted.imp Nat.ne_of_lt), RangeSet.blockList_length]

/-! ## Offsets -/

theorem ofPairs_sorted (pairs : List Range) :
    (ofPairs pairs).ranges.Pairwise fun a b => a.1 ≤ b.1 := rangeLe_sorted _

/-- The search for the block alone. -/
def findIndex (block : Nat) : List Range → Nat → Option Nat
  | [], _ => none
  | range :: ranges, passed =>
    if block ≥ range.2 then findIndex block ranges (passed + Range.blocks range)
    else if block ≥ range.1 then some (passed + (block - range.1))
    else none

theorem findOffset_eq (off : Nat) (ranges : List Range) (passed : Nat) :
    findOffset off ranges passed = (findIndex (off / kBlockSize) ranges passed).map fun idx =>
      (idx * kBlockSize + off % kBlockSize) % 2 ^ 64 := by
  induction ranges generalizing passed with
  | nil => rfl
  | cons range ranges ih =>
    rw [findOffset, findIndex]
    split
    · exact ih _
    · split <;> rfl

/-- The first range that ends behind a covered block has the block: it starts no later than any other
range behind it does, and one of them has the block. -/
theorem findIndex_spec {block : Nat} {ranges : List Range} {passed : Nat}
    (hpos : ∀ r ∈ ranges, r.1 < r.2) (h : ranges.Pairwise fun a b => a.1 ≤ b.1)
    (hblock : block ∈ ranges.flatMap Range.blockList) :
    ∃ idx, (ranges.flatMap Range.blockList)[idx]? = some block ∧
      findIndex block ranges passed = some (passed + idx) := by
  induction ranges generalizing passed with
  | nil => exact absurd hblock List.not_mem_nil
  | cons range ranges ih =>
    rw [List.pairwise_cons] at h
    obtain ⟨hrange, hranges⟩ := h
    have hrangepos := hpos range List.mem_cons_self
    have hlen : (Range.blockList range).length = Range.blocks range := List.length_range'
    have hrest : ∀ r ∈ ranges, r.1 < r.2 := fun r hr => hpos r (List.mem_cons_of_mem range hr)
    rw [List.flatMap_cons, List.mem_append] at hblock
    by_cases hbeyond : block ≥ range.2
    · have hlater : block ∈ ranges.flatMap Range.blockList := by
        refine hblock.resolve_left fun hin => ?_
        have := (Range.mem_blockList hrangepos).1 hin
        lia
      obtain ⟨idx, hidx, hfind⟩ := @ih (passed + Range.blocks range) hrest hranges hlater
      refine ⟨Range.blocks range + idx, ?_, ?_⟩
      · rw [List.flatMap_cons, List.getElem?_append_right (by lia), hlen,
          Nat.add_sub_cancel_left, hidx]
      · rw [findIndex, if_pos hbeyond, hfind, Nat.add_assoc]
    · have hin : range.1 ≤ block := by
        rcases hblock with hin | hlater
        · exact ((Range.mem_blockList hrangepos).1 hin).1
        · obtain ⟨r, hr, hmem⟩ := List.mem_flatMap.1 hlater
          exact (hrange r hr).trans ((Range.mem_blockList (hrest r hr)).1 hmem).1
      refine ⟨block - range.1, ?_, ?_⟩
      · rw [List.flatMap_cons, List.getElem?_append_left (by rw [hlen, Range.blocks]; lia),
          Range.blockList, List.getElem?_range' (by rw [Range.blocks]; lia)]
        congr 1
        lia
      · rw [findIndex, if_neg hbeyond, if_pos hin]

theorem findIndex_ge {block : Nat} {ranges : List Range} {passed idx : Nat}
    (h : findIndex block ranges passed = some idx) : passed ≤ idx := by
  induction ranges generalizing passed with
  | nil => cases h
  | cons range ranges ih =>
    rw [findIndex] at h
    split_ifs at h
    · exact (Nat.le_add_right _ _).trans (ih h)
    · cases h
      exact Nat.le_add_right _ _

/-- A later block is found later, also where ranges overlap. -/
theorem findIndex_lt {block block' : Nat} {ranges : List Range} {passed idx idx' : Nat}
    (hlt : block < block') (h : findIndex block ranges passed = some idx)
    (h' : findIndex block' ranges passed = some idx') : idx < idx' := by
  induction ranges generalizing passed with
  | nil => cases h
  | cons range ranges ih =>
    rw [findIndex] at h h'
    by_cases hbeyond : block ≥ range.2
    · rw [if_pos hbeyond] at h
      rw [if_pos (by lia)] at h'
      exact ih h h'
    · rw [if_neg hbeyond] at h
      split_ifs at h with hin
      cases h
      split_ifs at h' with hbeyond' hin'
      · have := findIndex_ge h'
        unfold Range.blocks at this
        lia
      · cases h'
        lia

/-- Without overlaps the position is not past the block. -/
theorem findIndex_le {block : Nat} {ranges : List Range} {passed idx : Nat}
    (h : ranges.Pairwise fun a b => a.2 ≤ b.1) (hpassed : ∀ r ∈ ranges, passed ≤ r.1)
    (hpos : ∀ r ∈ ranges, r.1 < r.2) (hfind : findIndex block ranges passed = some idx) :
    idx ≤ block := by
  induction ranges generalizing passed with
  | nil => cases hfind
  | cons range ranges ih =>
    rw [List.pairwise_cons] at h
    have hrangepos := hpos range List.mem_cons_self
    have hstart := hpassed range List.mem_cons_self
    rw [findIndex] at hfind
    split_ifs at hfind
    · refine ih h.2 (fun r hr => ?_) (fun r hr => hpos r (List.mem_cons_of_mem range hr)) hfind
      have := h.1 r hr
      unfold Range.blocks
      lia
    · cases hfind
      lia

/-- A block's position, and the place of a byte at it, fit in a `size_t`. -/
theorem findIndex_fits {rs : RangeSet} {off idx : Nat}
    (hfit : rs.blocks * kBlockSize ≤ 2 ^ 64 ∨ rs.ranges.Pairwise fun a b => a.2 ≤ b.1)
    (hlt : off < 2 ^ 64) (hidx : rs.blockList[idx]? = some (off / kBlockSize))
    (hfind : findIndex (off / kBlockSize) rs.ranges 0 = some idx) :
    idx * kBlockSize + off % kBlockSize < 2 ^ 64 := by
  have hmod : off % kBlockSize < kBlockSize := Nat.mod_lt off (by decide)
  rcases hfit with hfit | hapart
  · obtain ⟨hin, -⟩ := List.getElem?_eq_some_iff.1 hidx
    rw [RangeSet.blockList_length] at hin
    calc idx * kBlockSize + off % kBlockSize
        < (idx + 1) * kBlockSize := by rw [Nat.succ_mul]; exact Nat.add_lt_add_left hmod _
      _ ≤ rs.blocks * kBlockSize := Nat.mul_le_mul_right _ hin
      _ ≤ 2 ^ 64 := hfit
  · have hle := findIndex_le hapart (fun _ _ => Nat.zero_le _) rs.pos hfind
    calc idx * kBlockSize + off % kBlockSize
        ≤ off / kBlockSize * kBlockSize + off % kBlockSize :=
          Nat.add_le_add_right (Nat.mul_le_mul_right _ hle) _
      _ = off := Nat.div_add_mod' off kBlockSize
      _ < 2 ^ 64 := hlt

/-- **A byte of a covered block is found where the block stands in the set**, at the same place in it;
and a later byte is found later.  The ranges are in the order of their starts and may overlap; then the
positions of all blocks have to fit in a `size_t`. -/
theorem getOffsetInRangeSet_spec {rs : RangeSet} (h : rs.ranges.Pairwise fun a b => a.1 ≤ b.1)
    (hfit : rs.blocks * kBlockSize ≤ 2 ^ 64 ∨ rs.ranges.Pairwise fun a b => a.2 ≤ b.1)
    {off : Nat} (hlt : off < 2 ^ 64) (hoff : off / kBlockSize ∈ rs.blockList) :
    ∃ new, getOffsetInRangeSet rs off = some new ∧
      rs.getBlockNumber (new / kBlockSize) = some (off / kBlockSize) ∧
      new % kBlockSize = off % kBlockSize ∧
      ∀ off' new', off < off' → off' < 2 ^ 64 → off' / kBlockSize ∈ rs.blockList →
        getOffsetInRangeSet rs off' = some new' → new < new' := by
  have hplace : ∀ {o : Nat}, o < 2 ^ 64 → o / kBlockSize ∈ rs.blockList →
      ∃ idx, rs.blockList[idx]? = some (o / kBlockSize) ∧
        findIndex (o / kBlockSize) rs.ranges 0 = some idx ∧
        getOffsetInRangeSet rs o = some (idx * kBlockSize + o % kBlockSize) := by
    intro o ho hmem
    obtain ⟨idx, hidx, hfind⟩ := @findIndex_spec _ _ 0 rs.pos h hmem
    rw [Nat.zero_add] at hfind
    refine ⟨idx, hidx, hfind, ?_⟩
    rw [getOffsetInRangeSet, findOffset_eq, hfind, Option.map_some,
      Nat.mod_eq_of_lt (findIndex_fits hfit ho hidx hfind)]
  have hblock : 0 < kBlockSize := by decide
  have hmod := Nat.mod_lt off hblock
  obtain ⟨idx, hidx, hfind, hnew⟩ := hplace hlt hoff
  refine ⟨_, hnew, ?_, ?_, ?_⟩
  · rw [Nat.mul_comm, Nat.mul_add_div hblock, Nat.div_eq_of_lt hmod, Nat.add_zero,
      RangeSet.getBlockNumber_eq]
    exact hidx
  · rw [Nat.mul_add_mod_self_right, Nat.mod_mod]
  · intro off' new' hlater hlt' hoff' hnew'
    obtain ⟨idx', -, hfind', hplace'⟩ := hplace hlt' hoff'
    rw [hplace'] at hnew'
    cases hnew'
    rcases Nat.lt_or_eq_of_le (Nat.div_le_div_right (c := kBlockSize) (Nat.le_of_lt hlater))
      with hdiv | hdiv
    · have hidxlt := findIndex_lt hdiv hfind hfind'
      calc idx * kBlockSize + off % kBlockSize
          < (idx + 1) * kBlockSize := by rw [Nat.succ_mul]; exact Nat.add_lt_add_left hmod _
        _ ≤ idx' * kBlockSize := Nat.mul_le_mul_right _ hidxlt
        _ ≤ idx' * kBlockSize + off' % kBlockSize := Nat.le_add_right _ _
    · rw [← hdiv, hfind] at hfind'
      cases hfind'
      have hoffs := Nat.div_add_mod' off kBlockSize
      have hoffs' := Nat.div_add_mod' off' kBlockSize
      rw [← hdiv] at hoffs'
      lia

/-- The set with overlaps that the test of `Insert` builds, and a byte of the block that is in two of
its ranges. -/
theorem getOffsetInRangeSet_spec_overlap :
    let rs := ofPairs [(2, 7), (15, 21), (20, 25)]
    ∃ new, getOffsetInRangeSet rs 81923 = some new ∧
      rs.getBlockNumber (new / kBlockSize) = some (81923 / kBlockSize) ∧
      new % kBlockSize = 81923 % kBlockSize ∧
      ∀ off' new', 81923 < off' → off' < 2 ^ 64 → off' / kBlockSize ∈ rs.blockList →
        getOffsetInRangeSet rs off' = some new' → new < new' :=
  getOffsetInRangeSet_spec (ofPairs_sorted _) (.inl (by decide)) (by decide) (by decide)

/-- The last block of the second range is found behind `2 ^ 52` blocks, where the offset wraps. -/
theorem getOffsetInRangeSet_wraps :
    ¬ ∀ (pairs : List Range) (off : Nat), off < 2 ^ 64 →
      off / kBlockSize ∈ (ofPairs pairs).blockList → ∃ new,
        getOffsetInRangeSet (ofPairs pairs) off = some new ∧
          (ofPairs pairs).getBlockNumber (new / kBlockSize) = some (off / kBlockSize) := by
  intro h
  have hmem : (2 ^ 52 - 1) * kBlockSize / kBlockSize ∈
      (ofPairs [(0, 2 ^ 51), (0, 2 ^ 52)]).blockList :=
    RangeSet.mem_blockList.2 ⟨(0, 2 ^ 52), by decide, by decide, by decide⟩
  obtain ⟨new, hnew, hnumber⟩ := h _ _ (by decide) hmem
  have hwrap : getOffsetInRangeSet (ofPairs [(0, 2 ^ 51), (0, 2 ^ 52)]) ((2 ^ 52 - 1) * kBlockSize) =
      some ((2 ^ 51 - 1) * kBlockSize) := by decide
  rw [hwrap] at hnew
  cases hnew
  exact absurd hnumber (by decide)

end SortedRangeSet

end Recovery.OtaUtil
