import Recovery.OtaUtil.AndroidBase

/-!
# Block ranges (`otautil/rangeset.cpp`)

`RangeSet` is the source's list of half-open block ranges with its block count; the structure
carries what `PushBack` establishes, so that every value is a sequence of nonempty ranges and the
stored count is the sum of their sizes.

* `RangeSet.blockList` — the blocks in order, which is what the set is for.
* `getBlockNumber_eq` — `GetBlockNumber(i)` is the `i`-th of them.
* `overlaps_iff` — `Overlaps` is having a block in common.

Sizes are `size_t`s: `pushBack` refuses a range whose blocks would make the count overflow.  No
order is asked of the ranges, and two of them may overlap; `OtaUtil.SortedRangeSet` has an order.
-/

set_option autoImplicit false

namespace Recovery.OtaUtil

/-- `[first, second)`. -/
abbrev Range := Nat × Nat

namespace Range

/-- `range.second - range.first`. -/
def blocks (r : Range) : Nat := r.2 - r.1

/-- The blocks of a range. -/
def blockList (r : Range) : List Nat := List.range' r.1 (blocks r)

theorem mem_blockList {r : Range} {n : Nat} (h : r.1 < r.2) :
    n ∈ blockList r ↔ r.1 ≤ n ∧ n < r.2 := by
  rw [blockList, List.mem_range'_1, blocks]
  omega

end Range

structure RangeSet where
  ranges : List Range
  blocks : Nat
  pos : ∀ r ∈ ranges, r.1 < r.2
  blocks_eq : blocks = (ranges.map Range.blocks).sum
  deriving DecidableEq

namespace RangeSet

theorem ext_ranges {a b : RangeSet} (h : a.ranges = b.ranges) : a = b := by
  obtain ⟨ra, ba, _, ha⟩ := a
  obtain ⟨rb, bb, _, hb⟩ := b
  simp only at h
  subst h
  rw [← hb] at ha
  subst ha
  rfl

/-- `RangeSet()`. -/
def empty : RangeSet := ⟨[], 0, by simp, rfl⟩

/-- `explicit operator bool`. -/
def isValid (rs : RangeSet) : Bool := !rs.ranges.isEmpty

def size (rs : RangeSet) : Nat := rs.ranges.length

/-- `PushBack`; `none` is a return value of `false`, which leaves the set alone. -/
def pushBack (rs : RangeSet) (range : Range) : Option RangeSet :=
  if h : range.1 ≥ range.2 then none
  else
    let sz := Range.blocks range
    if rs.blocks ≥ SIZE_MAX - sz then none
    else some
      { ranges := rs.ranges ++ [range]
        blocks := rs.blocks + sz
        pos := by
          intro r hr
          rcases List.mem_append.1 hr with hr | hr
          · exact rs.pos r hr
          · rw [List.mem_singleton.1 hr]; omega
        blocks_eq := by simp [rs.blocks_eq, sz] }

/-- The loop of the constructor from pairs. -/
def pushAll : RangeSet → List Range → RangeSet
  | rs, [] => rs
  | rs, r :: pairs =>
    match rs.pushBack r with
    | some rs' => pushAll rs' pairs
    | none => empty

/-- `RangeSet(std::vector<Range>&&)`. -/
def ofPairs (pairs : List Range) : RangeSet := pushAll empty pairs

/-- The `(first, second)` loop of `Parse` over the pieces after the first one. -/
def parsePairs (B : AndroidBase) : List String → Option (List Range)
  | first :: second :: pieces =>
    match B.parseUint first INT_MAX, B.parseUint second INT_MAX with
    | some first, some second => (parsePairs B pieces).map ((first, second) :: ·)
    | _, _ => none
  | _ => some []

def parse (B : AndroidBase) (rangeText : String) : RangeSet :=
  let pieces := B.split rangeText ","
  if pieces.length < 3 then empty else
  match B.parseUint (pieces.headD "") INT_MAX with
  | none => empty
  | some num =>
    if num = 0 then empty else
    if num % 2 ≠ 0 then empty else
    if num ≠ pieces.length - 1 then empty else
    match parsePairs B pieces.tail with
    | none => empty
    | some pairs => ofPairs pairs

theorem parsePairs_le {B : AndroidBase} {pieces : List String} {pairs : List Range}
    (h : parsePairs B pieces = some pairs) : ∀ r ∈ pairs, r.2 ≤ INT_MAX := by
  fun_induction parsePairs B pieces generalizing pairs with
  | case1 first second pieces a b ha hb ih =>
    obtain ⟨rest, hrest, rfl⟩ := Option.map_eq_some_iff.1 h
    intro r hr
    rcases List.mem_cons.1 hr with rfl | hr
    · exact B.parseUint_le _ _ _ ha
    · exact ih hrest r hr
  | case2 => cases h
  | case3 =>
    cases h
    exact nofun

theorem mem_pushAll {rs : RangeSet} {pairs : List Range} {r : Range}
    (h : r ∈ (pushAll rs pairs).ranges) : r ∈ rs.ranges ∨ r ∈ pairs := by
  fun_induction pushAll rs pairs with
  | case1 rs => exact .inl h
  | case2 rs q pairs rs' hpush ih =>
    rcases ih h with h | h
    · unfold pushBack at hpush
      split at hpush
      · cases hpush
      · dsimp only at hpush
        split at hpush
        · cases hpush
        · cases hpush
          rcases List.mem_append.1 h with h | h
          · exact .inl h
          · exact .inr (by simp [List.mem_singleton.1 h])
    · exact .inr (List.mem_cons_of_mem _ h)
  | case3 => simp [empty] at h

/-- `Parse` accepts no number above `INT_MAX`. -/
theorem parse_le (B : AndroidBase) (rangeText : String) :
    ∀ r ∈ (parse B rangeText).ranges, r.2 ≤ INT_MAX := by
  intro r hr
  unfold parse at hr
  dsimp only at hr
  repeat' split at hr
  all_goals first
    | exact absurd hr (by simp [empty])
    | skip
  rename_i hpairs
  rcases mem_pushAll hr with hr | hr
  · exact absurd hr (by simp [empty])
  · exact parsePairs_le hpairs r hr

/-- The search of `GetBlockNumber`; `none` is its failed `CHECK`. -/
def findBlock : List Range → Nat → Option Nat
  | [], _ => none
  | range :: ranges, idx =>
    if idx < Range.blocks range then some (range.1 + idx)
    else findBlock ranges (idx - Range.blocks range)

/-- `GetBlockNumber`; `none` is a failed `CHECK`. -/
def getBlockNumber (rs : RangeSet) (idx : Nat) : Option Nat :=
  if idx < rs.blocks then findBlock rs.ranges idx else none

def overlaps (rs other : RangeSet) : Bool :=
  rs.ranges.any fun range => other.ranges.any fun otherRange =>
    !(decide (otherRange.1 ≥ range.2) || decide (range.1 ≥ otherRange.2))

/-! ## The blocks of a set -/

/-- All blocks, range by range. -/
def blockList (rs : RangeSet) : List Nat := rs.ranges.flatMap Range.blockList

theorem blockList_length (rs : RangeSet) : rs.blockList.length = rs.blocks := by
  rw [blockList, List.length_flatMap, rs.blocks_eq]
  congr 1
  exact List.map_congr_left fun r _ => by rw [Range.blockList, List.length_range']

theorem blocks_pos {rs : RangeSet} (h : rs.ranges ≠ []) : 0 < rs.blocks := by
  obtain ⟨ranges, blocks, hpos, heq⟩ := rs
  cases ranges with
  | nil => exact absurd rfl h
  | cons r ranges =>
    have := hpos r List.mem_cons_self
    simp only [heq, List.map_cons, List.sum_cons, Range.blocks]
    omega

theorem isValid_iff {rs : RangeSet} : rs.isValid = true ↔ rs.ranges ≠ [] := by
  rw [isValid]
  cases rs.ranges <;> simp

theorem findBlock_eq : ∀ (ranges : List Range) (idx : Nat),
    findBlock ranges idx = (ranges.flatMap Range.blockList)[idx]?
  | [], idx => by simp [findBlock]
  | r :: ranges, idx => by
    have hl : (Range.blockList r).length = Range.blocks r := List.length_range'
    rw [findBlock, List.flatMap_cons]
    split
    · rename_i h
      rw [List.getElem?_append_left (by lia), Range.blockList, List.getElem?_range' h]
      simp
    · rename_i h
      rw [List.getElem?_append_right (by lia), hl]
      exact findBlock_eq ranges _

/-- **`GetBlockNumber(i)` is the `i`-th block of the set.** -/
theorem getBlockNumber_eq (rs : RangeSet) (idx : Nat) :
    rs.getBlockNumber idx = rs.blockList[idx]? := by
  unfold getBlockNumber
  split
  · exact findBlock_eq _ _
  · rename_i h
    rw [List.getElem?_eq_none (by rw [blockList_length]; lia)]

theorem mem_blockList {rs : RangeSet} {n : Nat} :
    n ∈ rs.blockList ↔ ∃ r ∈ rs.ranges, r.1 ≤ n ∧ n < r.2 := by
  rw [blockList, List.mem_flatMap]
  constructor
  · rintro ⟨r, hr, hn⟩
    exact ⟨r, hr, (Range.mem_blockList (rs.pos r hr)).1 hn⟩
  · rintro ⟨r, hr, hn⟩
    exact ⟨r, hr, (Range.mem_blockList (rs.pos r hr)).2 hn⟩

/-- **`Overlaps` is having a block in common.** -/
theorem overlaps_iff {a b : RangeSet} :
    a.overlaps b = true ↔ ∃ n, n ∈ a.blockList ∧ n ∈ b.blockList := by
  simp only [overlaps, List.any_eq_true, Bool.not_eq_true', Bool.or_eq_false_iff,
    decide_eq_false_iff_not, mem_blockList]
  constructor
  · rintro ⟨r, hr, o, ho, h1, h2⟩
    have hr' := a.pos r hr
    have ho' := b.pos o ho
    exact ⟨max r.1 o.1, ⟨r, hr, by lia, by lia⟩, o, ho, by lia, by lia⟩
  · rintro ⟨n, ⟨r, hr, h1, h2⟩, o, ho, h3, h4⟩
    exact ⟨r, hr, o, ho, by lia, by lia⟩

end RangeSet

end Recovery.OtaUtil
