import Mathlib.Algebra.Order.BigOperators.Group.List
import Recovery.Lib.Lines
import Recovery.OtaUtil.RangeSplit

/-!
# The text of a range set (`otautil/rangeset.cpp`)

* `RangeSyntax` — what the texts rest on in `libbase`: `Split` cuts at every comma, and `ParseUint`
  reads what `std::to_string` writes.
* `Describes` — the texts of a list of ranges: their count of numbers, and the numbers.
* `parse_spec` — `Parse` gives the ranges that the text describes, and nothing for other texts; and
  it reads back what `ToString` writes.

A text is refused when its count is odd, is zero or is not that of its numbers, when a range is
empty or runs backwards, and when the blocks of all ranges together overflow.
-/

set_option autoImplicit false

namespace Recovery.OtaUtil

structure RangeSyntax (B : AndroidBase) : Prop where
  split : ∀ s, (B.split s ",").map String.toList = s.toList.splitOn ','
  parseUint_toString : ∀ n max, n ≤ max → B.parseUint (toString n) max = some n

namespace RangeSet

/-- The loop of `ToString`. -/
def rangesText : List Range → String
  | [] => ""
  | r :: ranges => "," ++ toString r.1 ++ "," ++ toString r.2 ++ rangesText ranges

/-- `ToString`. -/
def toText (rs : RangeSet) : String :=
  if rs.ranges = [] then "" else toString (rs.ranges.length * 2) ++ rangesText rs.ranges

/-- The numbers of a list of ranges, one after the other. -/
def numbers (pairs : List Range) : List Nat := pairs.flatMap fun r => [r.1, r.2]

/-- A text of `pairs`, none of them empty: twice their number, and then their bounds, each of them
as a number that fits; the total of their blocks does not overflow. -/
structure Describes (B : AndroidBase) (text : String) (pairs : List Range) : Prop where
  words : ∃ count bounds, text = ",".intercalate (count :: bounds) ∧
    (∀ word ∈ count :: bounds, ',' ∉ word.toList) ∧
    B.parseUint count INT_MAX = some (2 * pairs.length) ∧
    bounds.map (B.parseUint · INT_MAX) = (numbers pairs).map some
  nonempty : pairs ≠ []
  pos : ∀ r ∈ pairs, r.1 < r.2
  total : (pairs.map Range.blocks).sum ≤ SIZE_MAX

/-! ## Words -/

variable {B : AndroidBase}

theorem split_eq_iff (hB : RangeSyntax B) {text : String} {words : List String} :
    B.split text "," = words ↔
      words ≠ [] ∧ (∀ word ∈ words, ',' ∉ word.toList) ∧ text = ",".intercalate words := by
  have hinj {a b : List String} (h : a.map String.toList = b.map String.toList) : a = b :=
    List.map_injective_iff.2 (fun _ _ => String.toList_inj.1) h
  constructor
  · rintro rfl
    have hwords := hB.split text
    refine ⟨?_, ?_, ?_⟩
    · intro hnil
      rw [hnil] at hwords
      exact List.splitOn_ne_nil ',' text.toList hwords.symm
    · intro word hword
      have hmem : word.toList ∈ text.toList.splitOn ',' := by
        rw [← hwords]
        exact List.mem_map_of_mem hword
      exact (Lib.mem_splitOn hmem).1
    · rw [← String.toList_inj, String.toList_intercalate, hwords]
      exact (List.intercalate_splitOn ',').symm
  · rintro ⟨hne, hcomma, rfl⟩
    apply hinj
    rw [hB.split, String.toList_intercalate]
    refine List.splitOn_intercalate ',' ?_ (by simpa using hne)
    intro l hl
    obtain ⟨word, hword, rfl⟩ := List.mem_map.1 hl
    exact hcomma word hword

/-! ## Pairs -/

theorem numbers_length (pairs : List Range) : (numbers pairs).length = 2 * pairs.length := by
  induction pairs with
  | nil => rfl
  | cons r pairs ih =>
    rw [numbers, List.flatMap_cons, List.length_append, ← numbers, ih, List.length_cons]
    simp
    lia

theorem numbers_cons (r : Range) (pairs : List Range) :
    numbers (r :: pairs) = r.1 :: r.2 :: numbers pairs := rfl

/-- The loop over the pairs reads numbers that all fit. -/
theorem parsePairs_iff : ∀ {words : List String} {pairs : List Range}, words.length % 2 = 0 →
    (parsePairs B words = some pairs ↔
      words.map (B.parseUint · INT_MAX) = (numbers pairs).map some)
  | [], [], _ => iff_of_true rfl rfl
  | [], _ :: _, _ => iff_of_false nofun nofun
  | [_], _, hlen => absurd hlen Nat.one_ne_zero
  | first :: second :: words, [], _ => by
    refine iff_of_false ?_ nofun
    rw [parsePairs]
    cases B.parseUint first INT_MAX with
    | none => exact nofun
    | some a =>
      cases B.parseUint second INT_MAX with
      | none => exact nofun
      | some b =>
        dsimp only
        rw [Option.map_eq_some_iff]
        rintro ⟨_, -, hcons⟩
        cases hcons
  | first :: second :: words, r :: pairs, hlen => by
    have hrest : words.length % 2 = 0 := by
      simp only [List.length_cons] at hlen
      lia
    have ih : parsePairs B words = some pairs ↔
        words.map (B.parseUint · INT_MAX) = (numbers pairs).map some := parsePairs_iff hrest
    rw [parsePairs, numbers_cons, List.map_cons, List.map_cons, List.map_cons, List.map_cons,
      List.cons.injEq, List.cons.injEq, ← ih]
    cases B.parseUint first INT_MAX with
    | none => exact iff_of_false nofun fun h => nomatch h.1
    | some a =>
      cases B.parseUint second INT_MAX with
      | none => exact iff_of_false nofun fun h => nomatch h.2.1
      | some b =>
        simp only [Option.map_eq_some_iff, List.cons.injEq, Option.some.injEq]
        constructor
        · rintro ⟨rest, hparse, rfl, rfl⟩
          exact ⟨rfl, rfl, hparse⟩
        · rintro ⟨rfl, rfl, hparse⟩
          exact ⟨pairs, hparse, rfl, rfl⟩

/-! ## The constructor from pairs -/

theorem pushAll_ranges : ∀ {pairs : List Range} {rs : RangeSet}, (∀ r ∈ pairs, r.1 < r.2) →
    rs.blocks + (pairs.map Range.blocks).sum < SIZE_MAX →
      (pushAll rs pairs).ranges = rs.ranges ++ pairs
  | [], rs, _, _ => (List.append_nil _).symm
  | r :: pairs, rs, hpos, htotal => by
    have hr := hpos r List.mem_cons_self
    rw [List.map_cons, List.sum_cons] at htotal
    have hpush : rs.pushBack r = some
        { ranges := rs.ranges ++ [r]
          blocks := rs.blocks + Range.blocks r
          pos := by
            intro q hq
            rcases List.mem_append.1 hq with hq | hq
            · exact rs.pos q hq
            · rw [List.mem_singleton.1 hq]
              exact hr
          blocks_eq := by simp [rs.blocks_eq] } := by
      unfold pushBack
      rw [dif_neg (by omega), if_neg (by omega)]
    rw [pushAll, hpush]
    dsimp only
    rw [pushAll_ranges (fun q hq => hpos q (List.mem_cons_of_mem r hq)) (by dsimp only; omega),
      List.append_assoc]
    rfl

/-- One pair that is refused empties the set. -/
theorem pushAll_valid : ∀ {pairs : List Range} {rs : RangeSet}, (pushAll rs pairs).ranges ≠ [] →
    ∀ r ∈ pairs, r.1 < r.2
  | [], _, _, _, hr => absurd hr List.not_mem_nil
  | r :: pairs, rs, h, q, hq => by
    rw [pushAll] at h
    split at h
    · rename_i rs' hpush
      rcases List.mem_cons.1 hq with rfl | hq
      · unfold pushBack at hpush
        split at hpush
        · cases hpush
        · omega
      · exact pushAll_valid h q hq
    · exact absurd rfl h

/-- What `Parse` reads cannot overflow. -/
theorem total_lt {pairs : List Range} {count : Nat} (hcount : 2 * pairs.length = count)
    (hmax : count ≤ INT_MAX) (hbounds : ∀ n ∈ numbers pairs, n ≤ INT_MAX) :
    (pairs.map Range.blocks).sum < SIZE_MAX := by
  have hle : ∀ n ∈ pairs.map Range.blocks, n ≤ INT_MAX := by
    intro n hn
    obtain ⟨r, hr, rfl⟩ := List.mem_map.1 hn
    have hsecond : r.2 ≤ INT_MAX :=
      hbounds r.2 (List.mem_flatMap.2 ⟨r, hr, List.mem_cons_of_mem _ List.mem_cons_self⟩)
    exact Nat.le_trans (Nat.sub_le _ _) hsecond
  have hsum := List.sum_le_card_nsmul (pairs.map Range.blocks) INT_MAX hle
  rw [List.length_map, nsmul_eq_mul, Nat.cast_id] at hsum
  calc (pairs.map Range.blocks).sum ≤ pairs.length * INT_MAX := hsum
    _ ≤ INT_MAX * INT_MAX := Nat.mul_le_mul_right _ (by lia)
    _ < SIZE_MAX := by decide

/-! ## `Parse` -/

/-- `Parse` of a text whose numbers it can read. -/
theorem parse_of_words {text count : String} {bounds : List String} {pairs : List Range}
    (hwords : B.split text "," = count :: bounds)
    (hcount : B.parseUint count INT_MAX = some (2 * pairs.length))
    (hbounds : bounds.map (B.parseUint · INT_MAX) = (numbers pairs).map some) (hne : pairs ≠ []) :
    parse B text = ofPairs pairs := by
  have hlen : bounds.length = 2 * pairs.length := by
    rw [← numbers_length, ← List.length_map (f := (some : Nat → Option Nat)), ← hbounds, List.length_map]
  have hpos : 0 < pairs.length := List.length_pos_of_ne_nil hne
  have hparse : parsePairs B bounds = some pairs := (parsePairs_iff (by lia)).2 hbounds
  unfold parse
  rw [hwords]
  simp only [List.length_cons, List.headD_cons, List.tail_cons, hcount, hparse]
  rw [if_neg (by lia), if_neg (by lia), if_neg (by lia), if_neg (by lia)]

/-- A text whose set is not empty has gone through every check. -/
theorem parse_valid {text : String} (h : (parse B text).ranges ≠ []) :
    ∃ count bounds pairs, B.split text "," = count :: bounds ∧
      B.parseUint count INT_MAX = some (2 * pairs.length) ∧
      bounds.map (B.parseUint · INT_MAX) = (numbers pairs).map some ∧ pairs ≠ [] := by
  unfold parse at h
  cases hwords : B.split text "," with
  | nil =>
    rw [hwords] at h
    exact absurd rfl h
  | cons count bounds =>
    rw [hwords] at h
    simp only [List.length_cons, List.headD_cons, List.tail_cons] at h
    split at h
    · exact absurd rfl h
    split at h
    · exact absurd rfl h
    rename_i num hnum
    split at h
    · exact absurd rfl h
    split at h
    · exact absurd rfl h
    split at h
    · exact absurd rfl h
    rename_i hzero heven hsize
    rw [not_not] at heven hsize
    split at h
    · exact absurd rfl h
    rename_i pairs hpairs
    have hbounds := (parsePairs_iff (by lia)).1 hpairs
    have hlen : bounds.length = 2 * pairs.length := by
      rw [← numbers_length, ← List.length_map (f := (some : Nat → Option Nat)), ← hbounds, List.length_map]
    refine ⟨count, bounds, pairs, rfl, ?_, hbounds, ?_⟩
    · rw [hnum, hsize, Nat.add_sub_cancel, hlen]
    · rintro rfl
      rw [List.length_nil, Nat.mul_zero] at hlen
      rw [hlen] at hsize
      exact hzero hsize

theorem bounds_le {bounds : List String} {pairs : List Range}
    (hbounds : bounds.map (B.parseUint · INT_MAX) = (numbers pairs).map some) :
    ∀ n ∈ numbers pairs, n ≤ INT_MAX := by
  intro n hn
  have hmem : some n ∈ bounds.map (B.parseUint · INT_MAX) := by
    rw [hbounds]
    exact List.mem_map_of_mem hn
  obtain ⟨word, -, hword⟩ := List.mem_map.1 hmem
  exact B.parseUint_le word INT_MAX n hword

/-- `Parse` gives the ranges that the text describes, and the empty set for every other text. -/
theorem describes_iff (hB : RangeSyntax B) (text : String) (pairs : List Range) :
    Describes B text pairs ↔ (parse B text).isValid = true ∧ (parse B text).ranges = pairs := by
  rw [isValid_iff]
  constructor
  · rintro ⟨⟨count, bounds, htext, hcomma, hcount, hbounds⟩, hne, hpos, -⟩
    have hwords := (split_eq_iff hB).2 ⟨List.cons_ne_nil _ _, hcomma, htext⟩
    have hmax := bounds_le hbounds
    have hranges : (parse B text).ranges = pairs := by
      rw [parse_of_words hwords hcount hbounds hne]
      refine pushAll_ranges hpos ?_
      rw [empty, Nat.zero_add]
      exact total_lt rfl (B.parseUint_le _ _ _ hcount) hmax
    exact ⟨by rw [hranges]; exact hne, hranges⟩
  · rintro ⟨hvalid, rfl⟩
    obtain ⟨count, bounds, pairs, hwords, hcount, hbounds, hne⟩ := parse_valid hvalid
    have hparse := parse_of_words hwords hcount hbounds hne
    obtain ⟨-, hcomma, htext⟩ := (split_eq_iff hB).1 hwords
    rw [hparse] at hvalid ⊢
    have hpos : ∀ r ∈ pairs, r.1 < r.2 := pushAll_valid hvalid
    have hmax := bounds_le hbounds
    have htotal := total_lt rfl (B.parseUint_le _ _ _ hcount) hmax
    have hranges : (ofPairs pairs).ranges = pairs :=
      pushAll_ranges hpos (by rw [empty, Nat.zero_add]; exact htotal)
    rw [hranges]
    exact ⟨⟨count, bounds, htext, hcomma, hcount, hbounds⟩, hne, hpos, Nat.le_of_lt htotal⟩

/-! ## `ToString` -/

theorem comma_notMem_toString (n : Nat) : ',' ∉ (toString n).toList := by
  rw [Nat.toString_eq_repr, Nat.toList_repr]
  intro h
  exact absurd (Nat.isDigit_of_mem_toDigits (by decide) (by decide) h) (by decide)

theorem intercalate_rangesText : ∀ (word : String) (ranges : List Range),
    ",".intercalate (word :: (numbers ranges).map toString) = word ++ rangesText ranges
  | word, [] => by
    rw [rangesText, String.append_empty]
    exact String.intercalate_singleton
  | word, r :: ranges => by
    rw [numbers_cons, List.map_cons, List.map_cons, String.intercalate_cons_cons,
      String.intercalate_cons_cons, intercalate_rangesText _ ranges, rangesText]
    simp only [String.append_assoc]

/-- The text that `ToString` writes. -/
theorem toText_describes (hB : RangeSyntax B) {rs : RangeSet} (hne : rs.ranges ≠ [])
    (hcount : 2 * rs.ranges.length ≤ INT_MAX) (hmax : ∀ n ∈ numbers rs.ranges, n ≤ INT_MAX)
    (htotal : rs.blocks ≤ SIZE_MAX) : Describes B rs.toText rs.ranges where
  words := by
    refine ⟨toString (rs.ranges.length * 2), (numbers rs.ranges).map toString, ?_, ?_, ?_, ?_⟩
    · rw [toText, if_neg hne, intercalate_rangesText]
    · intro word hword
      rcases List.mem_cons.1 hword with rfl | hword
      · exact comma_notMem_toString _
      · obtain ⟨n, -, rfl⟩ := List.mem_map.1 hword
        exact comma_notMem_toString n
    · rw [Nat.mul_comm]
      exact hB.parseUint_toString _ _ hcount
    · rw [List.map_map]
      exact List.map_congr_left fun n hn => hB.parseUint_toString n INT_MAX (hmax n hn)
  nonempty := hne
  pos := rs.pos
  total := rs.blocks_eq ▸ htotal

/-- What is written is read back, for every set that `Parse` gives. -/
theorem parse_toText (hB : RangeSyntax B) {text : String} (h : (parse B text).isValid = true) :
    parse B (parse B text).toText = parse B text := by
  have hdesc := (describes_iff hB text (parse B text).ranges).2 ⟨h, rfl⟩
  obtain ⟨count, bounds, -, -, hcount, hbounds⟩ := hdesc.words
  have htotal : (parse B text).blocks ≤ SIZE_MAX := (parse B text).blocks_eq ▸ hdesc.total
  have hwritten := toText_describes hB hdesc.nonempty (B.parseUint_le _ _ _ hcount)
    (bounds_le hbounds) htotal
  exact ext_ranges ((describes_iff hB _ _).1 hwritten).2

/-- **The text format**: `Parse` accepts the texts that describe a list of ranges, with that list,
and reads back what `ToString` writes of it. -/
theorem parse_spec (hB : RangeSyntax B) (text : String) :
    ((parse B text).isValid = true ↔ ∃ pairs, Describes B text pairs) ∧
    (∀ pairs, Describes B text pairs → (parse B text).ranges = pairs) ∧
    ((parse B text).isValid = true → parse B (parse B text).toText = parse B text) := by
  refine ⟨⟨?_, ?_⟩, ?_, parse_toText hB⟩
  · intro hvalid
    exact ⟨_, (describes_iff hB text _).2 ⟨hvalid, rfl⟩⟩
  · rintro ⟨pairs, hdesc⟩
    exact ((describes_iff hB text pairs).1 hdesc).1
  · intro pairs hdesc
    exact ((describes_iff hB text pairs).1 hdesc).2

/-! ## Decimal numbers -/

theorem parseDecimal_toDigits (n : Nat) : parseDecimal (Nat.toDigits 10 n) = some n := by
  have hdigits : (Nat.toDigits 10 n).all Char.isDigit = true := by
    rw [List.all_eq_true]
    intro c hc
    exact Nat.isDigit_of_mem_toDigits (by decide) (by decide) hc
  rw [parseDecimal, if_pos ⟨Nat.toDigits_ne_nil, hdigits⟩]
  exact congrArg some (Nat.ofDigitChars_toDigits (by decide) (by decide))

theorem decimal_rangeSyntax : RangeSyntax AndroidBase.decimal where
  split s := by
    have hp : (fun c => ",".toList.contains c) = (· == ',') := by
      funext c
      simp [Bool.beq_eq_decide_eq]
    show ((s.toList.splitOnP fun c => ",".toList.contains c).map String.ofList).map
      String.toList = _
    rw [hp, List.splitOn_eq_splitOnP, List.map_map]
    simp
  parseUint_toString n max h := by
    show (parseDecimal (toString n).toList).filter (· ≤ max) = some n
    rw [Nat.toString_eq_repr, Nat.toList_repr, parseDecimal_toDigits]
    simpa using h

/-- Three ranges out of order, the second one twice as long as the first. -/
theorem parse_spec_three :
    (parse .decimal "6,8,10,2,6,12,13").isValid = true ∧
    parse .decimal (parse .decimal "6,8,10,2,6,12,13").toText =
      parse .decimal "6,8,10,2,6,12,13" := by
  obtain ⟨hvalid, -, hback⟩ := parse_spec decimal_rangeSyntax "6,8,10,2,6,12,13"
  have h : (parse .decimal "6,8,10,2,6,12,13").isValid = true := by decide
  exact ⟨h, hback h⟩

end RangeSet

end Recovery.OtaUtil
