import Mathlib.Algebra.BigOperators.Group.List.Basic
import Mathlib.Tactic.Ring
import Recovery.OtaUtil.RangeSet

/-!
# `RangeSet::Split` (`otautil/rangeset.cpp`)

* `RangeSet.fillGroup` — the loop that fills one group, cutting the range at hand where it has more
  blocks than are needed; `fillGroup_spec` — it takes the next blocks, in their order.
* `RangeSet.split` — `none` where the loop would run past the last range.
* `split_spec` — the blocks of the set, in order, in as many groups as asked for, of sizes that
  differ by at most one.

The remainder of the division goes to the first groups, one block each.  Cutting a range leaves the
blocks of the set and their order alone, which is why only the lengths need a count.
-/

set_option autoImplicit false

namespace Recovery.OtaUtil

namespace RangeSet

/-! ## The loops -/

/-- `PushBack` with its result ignored. -/
def push (rs : RangeSet) (range : Range) : RangeSet := (rs.pushBack range).getD rs

/-- The inner loop: the group, and the ranges from the one at hand on. -/
def fillGroup : List Range → Nat → RangeSet → Option (RangeSet × List Range)
  | [], needed, buffer => if needed = 0 then some (buffer, []) else none
  | range :: ranges, needed, buffer =>
    if needed = 0 then some (buffer, range :: ranges)
    else
      let rangeBlocks := Range.blocks range
      if rangeBlocks > needed then
        some (buffer.push (range.1, range.1 + needed), (range.1 + needed, range.2) :: ranges)
      else fillGroup ranges (needed - rangeBlocks) (buffer.push range)

def fillGroups : List Nat → List Range → Option (List RangeSet)
  | [], _ => some []
  | blocks :: blocksPerGroup, ranges => do
    let (buffer, ranges) ← fillGroup ranges blocks empty
    let result ← fillGroups blocksPerGroup ranges
    return buffer :: result

/-- The first few groups have one block more. -/
def blocksPerGroup (blocks groups : Nat) : List Nat :=
  let mean := blocks / groups
  List.replicate (blocks % groups) (mean + 1) ++ List.replicate (groups - blocks % groups) mean

def split (rs : RangeSet) (groups : Nat) : Option (List RangeSet) :=
  if rs.ranges = [] ∨ groups = 0 then some []
  else
    let groups := if rs.blocks < groups then rs.blocks else groups
    fillGroups (blocksPerGroup rs.blocks groups) rs.ranges

/-! ## Pushing -/

theorem pushBack_lt {rs rs' : RangeSet} {range : Range} (h : rs.pushBack range = some rs') :
    rs'.blocks < SIZE_MAX := by
  unfold pushBack at h
  split at h
  · cases h
  · dsimp only at h
    split at h
    · cases h
    · rename_i hlt
      cases h
      simp only
      omega

theorem pushAll_lt : ∀ {pairs : List Range} {rs : RangeSet}, rs.blocks < SIZE_MAX →
    (pushAll rs pairs).blocks < SIZE_MAX
  | [], _, h => h
  | r :: pairs, rs, h => by
    rw [pushAll]
    split
    · rename_i rs' hpush
      exact pushAll_lt (pushBack_lt hpush)
    · exact Nat.zero_lt_of_lt h

/-- What the class builds has fewer than `SIZE_MAX` blocks. -/
theorem ofPairs_lt (pairs : List Range) : (ofPairs pairs).blocks < SIZE_MAX :=
  pushAll_lt (by decide)

theorem blockList_push {rs : RangeSet} {range : Range} (hpos : range.1 < range.2)
    (hroom : rs.blocks + Range.blocks range < SIZE_MAX) :
    (rs.push range).blockList = rs.blockList ++ Range.blockList range := by
  have hsome : rs.pushBack range = some
      { ranges := rs.ranges ++ [range]
        blocks := rs.blocks + Range.blocks range
        pos := by
          intro r hr
          rcases List.mem_append.1 hr with hr | hr
          · exact rs.pos r hr
          · rw [List.mem_singleton.1 hr]
            exact hpos
        blocks_eq := by simp [rs.blocks_eq] } := by
    unfold pushBack
    rw [dif_neg (by lia), if_neg (by lia)]
  rw [push, hsome, Option.getD_some, blockList, List.flatMap_append]
  simp [blockList]

theorem blocks_push {rs : RangeSet} {range : Range} (hpos : range.1 < range.2)
    (hroom : rs.blocks + Range.blocks range < SIZE_MAX) :
    (rs.push range).blocks = rs.blocks + Range.blocks range := by
  rw [← blockList_length, blockList_push hpos hroom, List.length_append, blockList_length,
    Range.blockList, List.length_range']

/-! ## One group -/

theorem blockList_cut {range : Range} {needed : Nat} (h : needed ≤ Range.blocks range) :
    Range.blockList range =
      Range.blockList (range.1, range.1 + needed) ++ Range.blockList (range.1 + needed, range.2) := by
  unfold Range.blocks at h
  simp only [Range.blockList, Range.blocks, Nat.add_sub_cancel_left]
  rw [List.range'_append_1]
  congr 1
  omega

/-- **A group takes the next blocks**, and what it leaves is the rest of them. -/
theorem fillGroup_spec {ranges : List Range} {needed : Nat} {buffer : RangeSet}
    (hpos : ∀ r ∈ ranges, r.1 < r.2) (hneeded : needed ≤ (ranges.flatMap Range.blockList).length)
    (hroom : buffer.blocks + needed < SIZE_MAX) :
    ∃ group rest, fillGroup ranges needed buffer = some (group, rest) ∧
      group.blockList = buffer.blockList ++ (ranges.flatMap Range.blockList).take needed ∧
      rest.flatMap Range.blockList = (ranges.flatMap Range.blockList).drop needed ∧
      ∀ r ∈ rest, r.1 < r.2 := by
  induction ranges generalizing needed buffer with
  | nil =>
    obtain rfl : needed = 0 := by simpa using hneeded
    exact ⟨buffer, [], rfl, by simp, by simp, hpos⟩
  | cons range ranges ih =>
    have hlen : (Range.blockList range).length = Range.blocks range := List.length_range'
    have hrange := hpos range List.mem_cons_self
    have hrest : ∀ r ∈ ranges, r.1 < r.2 := fun r hr => hpos r (List.mem_cons_of_mem range hr)
    by_cases hzero : needed = 0
    · subst hzero
      refine ⟨buffer, range :: ranges, ?_, by simp, by simp, hpos⟩
      rw [fillGroup, if_pos rfl]
    by_cases hmore : Range.blocks range > needed
    · -- The range is cut, and the second part stays at hand.
      refine ⟨buffer.push (range.1, range.1 + needed), (range.1 + needed, range.2) :: ranges, ?_, ?_,
        ?_, ?_⟩
      · simp only [fillGroup, if_neg hzero, if_pos hmore]
      · have hcut : (Range.blockList (range.1, range.1 + needed)).length = needed := by
          rw [Range.blockList, List.length_range', Range.blocks, Nat.add_sub_cancel_left]
        rw [blockList_push (by simp only; lia) (by rw [Range.blocks, Nat.add_sub_cancel_left]; exact hroom),
          List.flatMap_cons, blockList_cut (Nat.le_of_lt hmore), List.append_assoc]
        congr 1
        exact (List.take_left' hcut).symm
      · have hcut : (Range.blockList (range.1, range.1 + needed)).length = needed := by
          rw [Range.blockList, List.length_range', Range.blocks, Nat.add_sub_cancel_left]
        rw [List.flatMap_cons, List.flatMap_cons, blockList_cut (Nat.le_of_lt hmore),
          List.append_assoc, List.drop_left' hcut]
      · intro r hr
        rcases List.mem_cons.1 hr with rfl | hr
        · unfold Range.blocks at hmore
          simp only
          lia
        · exact hrest r hr
    · have hroom' : buffer.blocks + Range.blocks range < SIZE_MAX := by lia
      rw [List.flatMap_cons, List.length_append, hlen] at hneeded
      have hroomPushed : (buffer.push range).blocks + (needed - Range.blocks range) < SIZE_MAX := by
        rw [blocks_push hrange hroom']
        lia
      obtain ⟨group, rest, hrun, hgroup, hleft, hrestpos⟩ := ih hrest (by lia) hroomPushed
      refine ⟨group, rest, ?_, ?_, ?_, hrestpos⟩
      · simp only [fillGroup, if_neg hzero, if_neg hmore]
        exact hrun
      · have htake : (Range.blockList range).take needed = Range.blockList range :=
          List.take_of_length_le (by lia)
        rw [hgroup, blockList_push hrange hroom', List.flatMap_cons, List.append_assoc,
          List.take_append, htake, hlen]
      · have hdrop : (Range.blockList range).drop needed = [] := List.drop_of_length_le (by lia)
        rw [hleft, List.flatMap_cons, List.drop_append, hdrop, hlen, List.nil_append]

/-- The groups take the blocks one after the other. -/
theorem fillGroups_spec {counts : List Nat} {ranges : List Range}
    (hpos : ∀ r ∈ ranges, r.1 < r.2) (hsum : counts.sum = (ranges.flatMap Range.blockList).length)
    (hroom : counts.sum < SIZE_MAX) :
    ∃ sets, fillGroups counts ranges = some sets ∧
      sets.flatMap blockList = ranges.flatMap Range.blockList ∧ sets.map blocks = counts := by
  induction counts generalizing ranges with
  | nil =>
    rw [List.sum_nil] at hsum
    exact ⟨[], rfl, (List.eq_nil_of_length_eq_zero hsum.symm).symm, rfl⟩
  | cons count counts ih =>
    rw [List.sum_cons] at hsum hroom
    have hroomEmpty : empty.blocks + count < SIZE_MAX := by
      rw [empty, Nat.zero_add]
      lia
    obtain ⟨group, rest, hrun, hgroup, hleft, hrest⟩ := fillGroup_spec hpos (by lia) hroomEmpty
    have hgroup' : group.blockList = (ranges.flatMap Range.blockList).take count := hgroup
    have hsumRest : counts.sum = (rest.flatMap Range.blockList).length := by
      rw [hleft, List.length_drop]
      lia
    obtain ⟨sets, hruns, hflat, hcounts⟩ := ih hrest hsumRest (by lia)
    refine ⟨group :: sets, ?_, ?_, ?_⟩
    · rw [fillGroups, hrun]
      simp only [Option.bind_eq_bind, Option.bind_some, hruns]
      rfl
    · rw [List.flatMap_cons, hflat, hgroup', hleft, List.take_append_drop]
    · rw [List.map_cons, hcounts, ← blockList_length, hgroup', List.length_take]
      congr 1
      lia

/-! ## The sizes of the groups -/

theorem blocksPerGroup_length {blocks groups : Nat} (h : 0 < groups) :
    (blocksPerGroup blocks groups).length = groups := by
  have := Nat.mod_lt blocks h
  simp only [blocksPerGroup, List.length_append, List.length_replicate]
  lia

theorem blocksPerGroup_sum {blocks groups : Nat} (h : 0 < groups) :
    (blocksPerGroup blocks groups).sum = blocks := by
  have hmod := Nat.mod_lt blocks h
  have hdiv := Nat.div_add_mod blocks groups
  simp only [blocksPerGroup, List.sum_append, List.sum_replicate, nsmul_eq_mul, Nat.cast_id]
  calc blocks % groups * (blocks / groups + 1) + (groups - blocks % groups) * (blocks / groups)
      = (blocks % groups + (groups - blocks % groups)) * (blocks / groups) + blocks % groups := by ring
    _ = groups * (blocks / groups) + blocks % groups := by rw [Nat.add_sub_cancel' (Nat.le_of_lt hmod)]
    _ = blocks := hdiv

theorem mem_blocksPerGroup {blocks groups n : Nat} (h : n ∈ blocksPerGroup blocks groups) :
    n = blocks / groups ∨ n = blocks / groups + 1 := by
  rw [blocksPerGroup, List.mem_append, List.mem_replicate, List.mem_replicate] at h
  rcases h with ⟨-, rfl⟩ | ⟨-, rfl⟩
  · exact .inr rfl
  · exact .inl rfl

/-! ## `Split` -/

/-- **`Split` loses no block**: the groups are nonempty, their blocks one after the other are those
of the set, and their sizes differ by at most one. -/
theorem split_spec (rs : RangeSet) (h : rs.blocks < SIZE_MAX) {groups : Nat} (hgroups : 0 < groups) :
    ∃ sets, rs.split groups = some sets ∧ sets.length = min groups rs.blocks ∧
      (∀ set ∈ sets, set.isValid = true) ∧ sets.flatMap blockList = rs.blockList ∧
      ∀ a ∈ sets, ∀ b ∈ sets, a.blocks ≤ b.blocks + 1 := by
  unfold split
  by_cases hempty : rs.ranges = []
  · have hblocks : rs.blocks = 0 := by rw [rs.blocks_eq, hempty]; rfl
    refine ⟨[], if_pos (.inl hempty), ?_, nofun, ?_, nofun⟩
    · rw [hblocks, Nat.min_zero]
      rfl
    · rw [blockList, hempty]
      rfl
  · have hpos := blocks_pos hempty
    obtain ⟨k, hk⟩ : ∃ k, k = if rs.blocks < groups then rs.blocks else groups := ⟨_, rfl⟩
    have hmin : k = min groups rs.blocks := by
      rw [hk]
      split <;> omega
    have hkpos : 0 < k := by omega
    have hlen : (rs.ranges.flatMap Range.blockList).length = rs.blocks := rs.blockList_length
    have hsum := @blocksPerGroup_sum rs.blocks k hkpos
    obtain ⟨sets, hrun, hflat, hcounts⟩ := fillGroups_spec rs.pos (hsum.trans hlen.symm)
      (Nat.lt_of_le_of_lt (Nat.le_of_eq hsum) h)
    have hsize : ∀ set ∈ sets, set.blocks = rs.blocks / k ∨ set.blocks = rs.blocks / k + 1 := by
      intro set hset
      apply mem_blocksPerGroup
      rw [← hcounts]
      exact List.mem_map_of_mem hset
    refine ⟨sets, ?_, ?_, ?_, hflat, ?_⟩
    · rw [if_neg (by rw [not_or]; exact ⟨hempty, by omega⟩), ← hk]
      exact hrun
    · rw [← List.length_map (f := blocks), hcounts, blocksPerGroup_length hkpos, hmin]
    · intro set hset
      have hmean : 0 < rs.blocks / k := Nat.div_pos (by omega) hkpos
      rw [isValid_iff]
      intro hnil
      have hzero : set.blocks = 0 := by rw [set.blocks_eq, hnil]; rfl
      rcases hsize set hset with hset | hset <;> omega
    · intro a ha b hb
      rcases hsize a ha with ha | ha <;> rcases hsize b hb with hb | hb <;> omega

theorem split_spec_four : 0 < 4 ∧ ∃ sets, (ofPairs [(0, 1), (5, 10)]).split 4 = some sets ∧
    sets.length = min 4 (ofPairs [(0, 1), (5, 10)]).blocks ∧ (∀ set ∈ sets, set.isValid = true) ∧
    sets.flatMap blockList = (ofPairs [(0, 1), (5, 10)]).blockList ∧
    ∀ a ∈ sets, ∀ b ∈ sets, a.blocks ≤ b.blocks + 1 :=
  ⟨by decide, split_spec (ofPairs [(0, 1), (5, 10)]) (ofPairs_lt _) (by decide)⟩

end RangeSet

end Recovery.OtaUtil
