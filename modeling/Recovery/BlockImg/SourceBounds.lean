import Recovery.BlockImg.DiffCoverage
import Recovery.BlockImg.Locality
import Recovery.BlockImg.Stops

/-!
# Does the source path stay inside its buffers?

* `readable`, `avoids_readBlocks` — reading ranges into a buffer stays inside it exactly when the
  device has no more bytes for them than the buffer.
* `Fits`, `moveRange_fits`, `moveRange_overruns` — the same for `MoveRange`.

An access outside the buffer ends a run of the model.  The results are equivalences: what does not
fit is written out of bounds by some run (`may_readBlocks`).
-/

set_option autoImplicit false

namespace Recovery.BlockImg

open Recovery.Lib Recovery.OtaUtil

variable (E : Env)

/-! ## `ReadBlocks` -/

/-- The bytes that reading the ranges in order gets, up to the first that goes beyond the end of
the device. -/
def readable : List Range → Nat
  | [] => 0
  | r :: ranges =>
    let size := Range.blocks r * BLOCKSIZE
    let room := E.devSize - r.1 * BLOCKSIZE
    if size ≤ room then size + readable ranges else room

theorem readable_le : ∀ ranges : List Range,
    readable E ranges ≤ (ranges.map Range.blocks).sum * BLOCKSIZE
  | [] => Nat.zero_le _
  | r :: ranges => by
    have hrest := readable_le ranges
    rw [readable, List.map_cons, List.sum_cons, Nat.add_mul]
    split
    · lia
    · lia

theorem readable_of_onDevice : ∀ {ranges : List Range}, OnDevice E ranges →
    readable E ranges = (ranges.map Range.blocks).sum * BLOCKSIZE
  | [], _ => (Nat.zero_mul _).symm
  | r :: ranges, h => by
    obtain ⟨hle, hend⟩ := h r List.mem_cons_self
    have hrest := readable_of_onDevice fun q hq => h q (List.mem_cons_of_mem _ hq)
    have hsize : r.1 * BLOCKSIZE + Range.blocks r * BLOCKSIZE = r.2 * BLOCKSIZE := by
      rw [← Nat.add_mul, Range.blocks, Nat.add_sub_cancel' hle]
    rw [readable, List.map_cons, List.sum_cons, Nat.add_mul]
    rw [if_pos (by omega), hrest]

variable {E} {s : St}

/-- A write into a buffer, and what follows it. -/
theorem avoids_overwrite_bind {α : Type} {buffer data : List UInt8} {p : Nat}
    {f : List UInt8 → M α} :
    Avoids fateOracle .overrun (overwrite buffer p data >>= f) s ↔
      p + data.length ≤ buffer.length ∧
        Avoids fateOracle .overrun (f (splice buffer p data)) s := by
  by_cases hroom : p + data.length ≤ buffer.length
  · rw [avoids_bind_run fun fs => overwrite_run hroom _]
    exact (and_iff_right hroom).symm
  · refine iff_of_false (fun h => ?_) fun h => hroom h.1
    have hstop : overwrite buffer p data s = .error .overrun s := by
      unfold overwrite
      rw [if_neg hroom]
      rfl
    exact (h s.fates).of_error (bind_error hstop) rfl

theorem may_readAll {size : Nat} :
    May fateOracle (readAll E size) s (decide (size ≤ E.devSize - s.pos),
      (List.range' s.pos (min size (E.devSize - s.pos))).map s.disk.dev)
      { s with
        pos := s.pos + min size (E.devSize - s.pos)
        devError := s.devError || decide (E.devSize - s.pos < size) } := by
  refine ⟨[.ok], [], ?_⟩
  have hfate : nextFate (fateOracle.put s [.ok]) = .ok .ok (fateOracle.put s []) := rfl
  unfold readAll
  rw [get_bind, bind_ok hfate]
  dsimp only
  rw [modify_bind, List.length_map, List.length_range']
  by_cases hroom : size ≤ E.devSize - s.pos
  · rw [decide_eq_true hroom, decide_eq_false (Nat.not_lt.2 hroom), Bool.or_false]
    exact congrFun (if_pos hroom) _
  · rw [decide_eq_false hroom, decide_eq_true (Nat.lt_of_not_le hroom), Bool.or_true]
    exact congrFun (if_neg hroom) _

/-- What every run keeps and returns, for a run that may happen. -/
theorem may_reaches {α : Type} {x : M α} {s' : St} {a : α} {Q : α → St → Prop}
    (h : May fateOracle x s a s') (hx : ∀ fs, Reaches SameData x (fateOracle.put s fs) Q) :
    SameData s s' ∧ ∃ gs, Q a (fateOracle.put s' gs) := by
  obtain ⟨fs, gs, hrun⟩ := h
  obtain ⟨hsame, hq⟩ := (hx fs).of_ok hrun
  exact ⟨⟨hsame.disk, hsame.stashMap, hsame.params⟩, gs, hq⟩

theorem avoids_readBlocksLoop {ranges : List Range} {p : Nat} {buffer : List UInt8}
    (hp : p ≤ buffer.length) :
    Avoids fateOracle .overrun (readBlocksLoop E ranges p buffer) s ↔
      p + readable E ranges ≤ buffer.length := by
  induction ranges generalizing p buffer s with
  | nil => exact iff_of_true (avoids_pure _) hp
  | cons r ranges ih =>
    unfold readBlocksLoop readable
    rw [avoids_bind (checkLseek_local _)]
    constructor
    · rintro ⟨-, h⟩
      have hread := h true { s with pos := r.1 * BLOCKSIZE } ⟨[.ok], [], rfl⟩
      simp only [if_true] at hread
      rw [avoids_bind (readAll_local E _)] at hread
      have hwrite := hread.2 _ _ may_readAll
      rw [avoids_overwrite_bind, List.length_map, List.length_range'] at hwrite
      obtain ⟨hroom, hrest⟩ := hwrite
      dsimp only at hroom hrest ⊢
      split
      · rename_i hsize
        rw [Nat.min_eq_left hsize] at hroom hrest
        simp only [hsize, decide_true, if_true] at hrest
        have hlen : (splice buffer p ((List.range' (r.1 * BLOCKSIZE)
            (Range.blocks r * BLOCKSIZE)).map s.disk.dev)).length = buffer.length :=
          length_splice (by rwa [List.length_map, List.length_range'])
        rw [ih (by rw [hlen]; exact hroom), hlen] at hrest
        lia
      · rw [Nat.min_eq_right (by lia)] at hroom
        exact hroom
    · intro h
      dsimp only at h
      refine ⟨(checkLseek_stops _).avoids (by decide), fun ok s1 hmay => ?_⟩
      cases ok with
      | false => exact avoids_pure _
      | true =>
        obtain ⟨-, _, hpos⟩ := may_reaches hmay fun fs => checkLseek_seeks _ _
        have hpos1 : s1.pos = r.1 * BLOCKSIZE := hpos rfl
        simp only [if_true]
        rw [avoids_bind (readAll_local E _)]
        refine ⟨(readAll_stops _).avoids (by decide), ?_⟩
        rintro ⟨ok, data⟩ s2 hmay2
        obtain ⟨-, -, hle, hdata⟩ := may_reaches (Q := fun r' _ =>
          r'.2.length ≤ min (Range.blocks r * BLOCKSIZE) (E.devSize - s1.pos) ∧
            (r'.1 = true → Range.blocks r * BLOCKSIZE ≤ E.devSize - s1.pos ∧
              r'.2 = (List.range' s1.pos (Range.blocks r * BLOCKSIZE)).map s1.disk.dev))
          hmay2 fun fs => readAll_reads _ _
        rw [hpos1] at hle hdata
        dsimp only at hle hdata ⊢
        rw [avoids_overwrite_bind]
        have hroom : p + data.length ≤ buffer.length := by
          split at h <;> lia
        refine ⟨hroom, ?_⟩
        cases ok with
        | false => exact avoids_pure _
        | true =>
          obtain ⟨hsize, hdata⟩ := hdata rfl
          have hlen : data.length = Range.blocks r * BLOCKSIZE := by
            rw [hdata, List.length_map, List.length_range']
          simp only [if_true]
          rw [if_pos hsize] at h
          rw [ih (by rw [length_splice hroom]; lia), length_splice hroom]
          lia

theorem avoids_readBlocks {src : RangeSet} {buffer : List UInt8} :
    Avoids fateOracle .overrun (readBlocks E src buffer) s ↔
      readable E src.ranges ≤ buffer.length := by
  rw [readBlocks, avoids_readBlocksLoop (Nat.zero_le _), Nat.zero_add]

/-- What `ReadBlocks` may return. -/
theorem may_readBlocks {src : RangeSet} {buffer buffer' : List UInt8} {ok : Bool} {s' : St}
    (h : May fateOracle (readBlocks E src buffer) s (ok, buffer') s') :
    SameData s s' ∧ buffer'.length = buffer.length ∧
      (ok = true → buffer' = splice buffer 0 (targetBytes s.disk.dev src) ∧
        src.blocks * BLOCKSIZE ≤ buffer.length ∧ OnDevice E src.ranges) := by
  obtain ⟨hsame, _, hq⟩ := may_reaches (Q := fun r _ => r.2.length = buffer.length ∧
    (r.1 = true → r.2 = splice buffer 0 (targetBytes s.disk.dev src) ∧
      src.blocks * BLOCKSIZE ≤ buffer.length ∧ OnDevice E src.ranges))
    h fun fs => readBlocks_reads src buffer _
  exact ⟨hsame, hq⟩

/-- It may succeed when the blocks are on the device and fit. -/
theorem may_readBlocks_ok {src : RangeSet} (buffer : List UInt8) (hdev : OnDevice E src.ranges)
    (hroom : src.blocks * BLOCKSIZE ≤ buffer.length) :
    ∃ s', May fateOracle (readBlocks E src buffer) s
      (true, splice buffer 0 (targetBytes s.disk.dev src)) s' := by
  have hno : NoFaults (fateOracle.put s []) := nofun
  obtain ⟨buffer', s', hrun, -⟩ := readBlocksLoop_run hdev 0 buffer hno
    (by rw [length_blocksOf, ← src.blocks_eq, Nat.zero_add]; exact hroom)
  rw [Nat.zero_mul] at hrun
  have hmay : May fateOracle (readBlocks E src buffer) s (true, buffer') s' := .of_put hrun
  obtain ⟨-, -, hread⟩ := may_readBlocks hmay
  rw [← (hread rfl).1]
  exact ⟨s', hmay⟩

/-- It may fail at the first range. -/
theorem may_readBlocks_fail {src : RangeSet} (buffer : List UInt8) (h : src.isValid = true) :
    ∃ s', May fateOracle (readBlocks E src buffer) s (false, buffer) s' := by
  unfold readBlocks
  cases hr : src.ranges with
  | nil => exact absurd hr (RangeSet.isValid_iff.1 h)
  | cons r ranges => exact ⟨{ s with devError := true }, [.fail 0], [], rfl⟩

/-! ## `MoveRange` -/

/-- Blocks packed in `held` bytes can be moved to `locs` in a buffer of `size` bytes. -/
def Fits (locs : RangeSet) (held size : Nat) : Prop :=
  locs.blocks * BLOCKSIZE ≤ held ∧ ∀ r ∈ locs.ranges, r.2 * BLOCKSIZE ≤ size

/-- A round of the loop that stays inside both buffers. -/
theorem moveRangeLoop_cons {source : Option (List UInt8)} {r : Range} (ranges : List Range)
    (start : Nat) {dest : List UInt8} (hr : r.1 < r.2)
    (hheld : (start - Range.blocks r + Range.blocks r) * BLOCKSIZE ≤ (source.getD dest).length)
    (hend : r.2 * BLOCKSIZE ≤ dest.length) :
    ∃ dest', dest'.length = dest.length ∧ ∀ s : St,
      moveRangeLoop source (r :: ranges) start dest s =
        moveRangeLoop source ranges (start - Range.blocks r) dest' s := by
  obtain ⟨data, hdata⟩ : ∃ data, data = ((source.getD dest).drop
    ((start - Range.blocks r) * BLOCKSIZE)).take (Range.blocks r * BLOCKSIZE) := ⟨_, rfl⟩
  have hlen : data.length = Range.blocks r * BLOCKSIZE := by
    rw [Nat.add_mul] at hheld
    rw [hdata, List.length_take, List.length_drop]
    lia
  have hroom : r.1 * BLOCKSIZE + data.length ≤ dest.length := by
    rw [hlen, ← Nat.add_mul, Range.blocks, Nat.add_sub_cancel' (Nat.le_of_lt hr)]
    exact hend
  refine ⟨splice dest (r.1 * BLOCKSIZE) data, length_splice hroom, fun s => ?_⟩
  conv_lhs => unfold moveRangeLoop
  dsimp only
  rw [← hdata, if_pos hlen, bind_ok (overwrite_run hroom s)]

/-- A round that leaves one of them. -/
theorem moveRangeLoop_cons_overruns {source : Option (List UInt8)} {r : Range}
    {ranges : List Range} {start : Nat} {dest : List UInt8} (hr : r.1 < r.2)
    (h : ¬ ((start - Range.blocks r + Range.blocks r) * BLOCKSIZE ≤ (source.getD dest).length ∧
      r.2 * BLOCKSIZE ≤ dest.length)) (s : St) :
    moveRangeLoop source (r :: ranges) start dest s = .error .overrun s := by
  have hpos := range_bytes_pos hr
  unfold moveRangeLoop
  dsimp only
  split
  · rename_i hlen
    rw [List.length_take, List.length_drop] at hlen
    have hend : ¬ r.1 * BLOCKSIZE + Range.blocks r * BLOCKSIZE ≤ dest.length := by
      rw [← Nat.add_mul r.1, Range.blocks, Nat.add_sub_cancel' (Nat.le_of_lt hr)]
      refine fun hend => h ⟨?_, hend⟩
      rw [Nat.add_mul]
      omega
    refine bind_error ?_
    unfold overwrite
    rw [List.length_take, List.length_drop, hlen, if_neg hend]
    rfl
  · rfl

theorem moveRangeLoop_fits {source : Option (List UInt8)} {ranges : List Range} {dest : List UInt8}
    (hpos : ∀ r ∈ ranges, r.1 < r.2)
    (hheld : (ranges.map Range.blocks).sum * BLOCKSIZE ≤ (source.getD dest).length)
    (hend : ∀ r ∈ ranges, r.2 * BLOCKSIZE ≤ dest.length) :
    ∃ dest', dest'.length = dest.length ∧ ∀ s : St,
      moveRangeLoop source ranges (ranges.map Range.blocks).sum dest s = .ok dest' s := by
  induction ranges generalizing dest with
  | nil => exact ⟨dest, rfl, fun _ => rfl⟩
  | cons r ranges ih =>
    rw [List.map_cons, List.sum_cons] at hheld ⊢
    obtain ⟨dest1, hlen1, hrun1⟩ := moveRangeLoop_cons ranges
      (Range.blocks r + (ranges.map Range.blocks).sum)
      (hpos r List.mem_cons_self) (by rwa [Nat.sub_add_cancel (Nat.le_add_right _ _)])
      (hend r List.mem_cons_self)
    have hheld1 : (ranges.map Range.blocks).sum * BLOCKSIZE ≤ (source.getD dest1).length := by
      rw [Nat.add_mul] at hheld
      cases source with
      | none => rw [Option.getD_none] at hheld ⊢; lia
      | some stash => rw [Option.getD_some] at hheld ⊢; lia
    obtain ⟨dest2, hlen2, hrun2⟩ := ih (fun q hq => hpos q (List.mem_cons_of_mem _ hq)) hheld1
      fun q hq => hlen1 ▸ hend q (List.mem_cons_of_mem _ hq)
    refine ⟨dest2, hlen2.trans hlen1, fun s => ?_⟩
    rw [hrun1, Nat.add_sub_cancel_left, hrun2]

theorem moveRangeLoop_overruns {source : Option (List UInt8)} {ranges : List Range}
    {dest : List UInt8} (hpos : ∀ r ∈ ranges, r.1 < r.2)
    (h : ¬ ((ranges.map Range.blocks).sum * BLOCKSIZE ≤ (source.getD dest).length ∧
      ∀ r ∈ ranges, r.2 * BLOCKSIZE ≤ dest.length)) (s : St) :
    moveRangeLoop source ranges (ranges.map Range.blocks).sum dest s = .error .overrun s := by
  induction ranges generalizing dest with
  | nil => exact absurd ⟨by simp, nofun⟩ h
  | cons r ranges ih =>
    rw [List.map_cons, List.sum_cons] at h ⊢
    have hr := hpos r List.mem_cons_self
    by_cases hhead : (Range.blocks r + (ranges.map Range.blocks).sum) * BLOCKSIZE ≤
        (source.getD dest).length ∧ r.2 * BLOCKSIZE ≤ dest.length
    · obtain ⟨dest1, hlen1, hrun1⟩ := moveRangeLoop_cons ranges
        (Range.blocks r + (ranges.map Range.blocks).sum) hr
        (by rw [Nat.sub_add_cancel (Nat.le_add_right _ _)]; exact hhead.1) hhead.2
      rw [hrun1, Nat.add_sub_cancel_left]
      refine ih (fun q hq => hpos q (List.mem_cons_of_mem _ hq)) ?_
      rintro ⟨-, hrest⟩
      refine h ⟨hhead.1, fun q hq => ?_⟩
      cases hq with
      | head => exact hhead.2
      | tail _ hq => exact hlen1 ▸ hrest q hq
    · refine moveRangeLoop_cons_overruns hr ?_ s
      rwa [Nat.sub_add_cancel (Nat.le_add_right _ _)]

theorem sum_blocks_reverse (locs : RangeSet) :
    (locs.ranges.reverse.map Range.blocks).sum = locs.blocks := by
  rw [List.map_reverse, List.sum_reverse, locs.blocks_eq]

theorem moveRange_fits {source : Option (List UInt8)} {dest : List UInt8} {locs : RangeSet}
    (h : Fits locs (source.getD dest).length dest.length) :
    ∃ dest', dest'.length = dest.length ∧ ∀ s : St, moveRange dest locs source s = .ok dest' s := by
  unfold moveRange
  rw [← sum_blocks_reverse locs]
  refine moveRangeLoop_fits (fun r hr => locs.pos r (List.mem_reverse.1 hr)) ?_
    fun r hr => h.2 r (List.mem_reverse.1 hr)
  rw [sum_blocks_reverse]
  exact h.1

theorem moveRange_overruns {source : Option (List UInt8)} {dest : List UInt8} {locs : RangeSet}
    (h : ¬ Fits locs (source.getD dest).length dest.length) (s : St) :
    moveRange dest locs source s = .error .overrun s := by
  unfold moveRange
  rw [← sum_blocks_reverse locs]
  refine moveRangeLoop_overruns (fun r hr => locs.pos r (List.mem_reverse.1 hr)) ?_ s
  rw [sum_blocks_reverse]
  exact fun h' => h ⟨h'.1, fun r hr => h'.2 r (List.mem_reverse.2 hr)⟩

end Recovery.BlockImg
