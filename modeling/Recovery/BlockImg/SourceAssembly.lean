import Recovery.BlockImg.Steps
import Recovery.Lib.Splice

/-!
# What `LoadSourceBlocks` puts into the buffer

`LoadSourceBlocks` sizes the buffer by `<src_block_count>`, reads the blocks of `<src_range>` to its
start, spreads them to `<src_loc>`, and copies each stash to its own range.

* `block buffer b` — block `b` of a buffer.
* `readBlocksLoop_run` — `ReadBlocks` packs the blocks of a range set, when the buffer has room for them.
* `moveRange_run`, `moveRange_enough` — `MoveRange` spreads packed blocks, also inside one buffer: the
  blocks still to be moved lie below the range being written.  A stash is read as far as its range says.
* `Place`, `Holds` — a location of the buffer with the blocks that belong there.
* `loadSourceBlocks_places_iff` — for a command whose locations partition the source, every block ends
  up in its place exactly when the blocks of `<src_range>` fit in the buffer and each stash is as large
  as its range.
-/

set_option autoImplicit false

namespace Recovery.BlockImg

open Recovery.Lib Recovery.OtaUtil

def block (buffer : List UInt8) (b : Nat) : List UInt8 := slice buffer (b * BLOCKSIZE) BLOCKSIZE

/-- Block `b` of the device. -/
def devBlock (dev : Nat → UInt8) (b : Nat) : List UInt8 :=
  (List.range' (b * BLOCKSIZE) BLOCKSIZE).map dev

/-! ## Runs without faults -/

def NoFaults (s : St) : Prop := ∀ f ∈ s.fates, f = Fate.ok

/-- Only the descriptor's offset may differ. -/
def Idle (s s' : St) : Prop := ∃ pos fates, s' = { s with pos := pos, fates := fates } ∧ NoFaults s'

theorem Idle.refl {s : St} (h : NoFaults s) : Idle s s := ⟨s.pos, s.fates, rfl, h⟩

theorem Idle.trans {a b c : St} (h : Idle a b) (h' : Idle b c) : Idle a c := by
  obtain ⟨_, _, rfl, _⟩ := h
  obtain ⟨pos, fates, rfl, hno⟩ := h'
  exact ⟨pos, fates, rfl, hno⟩

theorem nextFate_run {s : St} (h : NoFaults s) : ∃ fs, nextFate s = .ok .ok { s with fates := fs } ∧
    NoFaults { s with fates := fs } := by
  unfold nextFate
  cases hf : s.fates with
  | nil =>
    refine ⟨[], ?_, nofun⟩
    cases s
    simp_all
  | cons f fs =>
    have hok : f = .ok := h f (by simp [hf])
    subst hok
    exact ⟨fs, rfl, fun g hg => h g (by simp [hf, hg])⟩

theorem checkLseek_run {s : St} (h : NoFaults s) (offset : Nat) :
    ∃ s', checkLseek offset s = .ok true s' ∧ s'.pos = offset ∧ Idle s s' := by
  obtain ⟨fs, hn, hno⟩ := nextFate_run h
  refine ⟨{ s with pos := offset, fates := fs }, ?_, rfl, offset, fs, rfl, hno⟩
  rw [checkLseek, ioOk, bind_assoc, bind_ok hn]
  rfl

variable (E : Env)

theorem readAll_run {s : St} (h : NoFaults s) (size : Nat) (hle : s.pos + size ≤ E.devSize) :
    ∃ s', readAll E size s = .ok (true, (List.range' s.pos size).map s.disk.dev) s' ∧ Idle s s' := by
  obtain ⟨fs, hn, hno⟩ := nextFate_run h
  have hmin : min size (E.devSize - s.pos) = size := by lia
  refine ⟨{ s with pos := s.pos + size, fates := fs }, ?_, _, fs, rfl, hno⟩
  unfold readAll
  rw [get_bind, bind_ok hn]
  simp only [hmin]
  rw [modify_bind, if_pos (by lia)]
  simp only [List.length_map, List.length_range']
  rfl

theorem overwrite_run {buffer data : List UInt8} {p : Nat} (h : p + data.length ≤ buffer.length)
    (s : St) : overwrite buffer p data s = .ok (splice buffer p data) s := by
  unfold overwrite
  rw [if_pos h]
  rfl

/-! ## Blocks -/

/-- The blocks of a list of ranges. -/
def blocksOf (ranges : List Range) : List Nat := ranges.flatMap Range.blockList

theorem blocksOf_append (before after : List Range) :
    blocksOf (before ++ after) = blocksOf before ++ blocksOf after := by
  simp [blocksOf]

theorem blocksOf_cons (r : Range) (ranges : List Range) :
    blocksOf (r :: ranges) = Range.blockList r ++ blocksOf ranges := rfl

theorem length_blockList (r : Range) : (Range.blockList r).length = Range.blocks r :=
  List.length_range'

theorem length_blocksOf (ranges : List Range) :
    (blocksOf ranges).length = (ranges.map Range.blocks).sum := by
  induction ranges with
  | nil => rfl
  | cons r ranges ih =>
    rw [blocksOf_cons, List.length_append, ih, length_blockList, List.map_cons, List.sum_cons]

theorem getElem?_blockList {r : Range} {k b : Nat} (h : (Range.blockList r)[k]? = some b) :
    k < Range.blocks r ∧ b = r.1 + k := by
  rw [Range.blockList, List.getElem?_eq_some_iff] at h
  obtain ⟨hk, rfl⟩ := h
  rw [List.length_range'] at hk
  simp [hk]

/-- Writing a whole range into a buffer: its blocks, and the others. -/
theorem block_splice {buffer data : List UInt8} {first n : Nat} (hlen : data.length = n * BLOCKSIZE)
    (hle : (first + n) * BLOCKSIZE ≤ buffer.length) :
    (∀ i < n, block (splice buffer (first * BLOCKSIZE) data) (first + i) = block data i) ∧
      ∀ b, b < first ∨ first + n ≤ b →
        block (splice buffer (first * BLOCKSIZE) data) b = block buffer b := by
  rw [Nat.add_mul] at hle
  constructor
  · intro i hi
    have hmul := Nat.mul_le_mul_right BLOCKSIZE (Nat.succ_le_of_lt hi)
    rw [Nat.succ_mul] at hmul
    unfold block
    rw [Nat.add_mul, slice_splice_inside (by lia) (by lia)]
  · intro b hb
    unfold block
    apply slice_splice_of_disjoint (by lia)
    rcases hb with hb | hb
    · have hmul := Nat.mul_le_mul_right BLOCKSIZE (Nat.succ_le_of_lt hb)
      rw [Nat.succ_mul] at hmul
      lia
    · have hmul := Nat.mul_le_mul_right BLOCKSIZE hb
      rw [Nat.add_mul] at hmul
      lia

/-! ## `ReadBlocks` -/

/-- The ranges lie on the device. -/
def OnDevice (ranges : List Range) : Prop := ∀ r ∈ ranges, r.1 ≤ r.2 ∧ r.2 * BLOCKSIZE ≤ E.devSize

variable {E}

theorem readBlocksLoop_run {ranges : List Range} (hdev : OnDevice E ranges) (p : Nat)
    (buffer : List UInt8) {s : St} (h : NoFaults s)
    (hle : (p + (blocksOf ranges).length) * BLOCKSIZE ≤ buffer.length) :
    ∃ buffer' s', readBlocksLoop E ranges (p * BLOCKSIZE) buffer s = .ok (true, buffer') s' ∧
      Idle s s' ∧ buffer'.length = buffer.length ∧
      (∀ k c, (blocksOf ranges)[k]? = some c → block buffer' (p + k) = devBlock s.disk.dev c) ∧
      ∀ b < p, block buffer' b = block buffer b := by
  induction ranges generalizing p buffer s with
  | nil => exact ⟨buffer, s, rfl, .refl h, rfl, nofun, fun _ _ => rfl⟩
  | cons r ranges ih =>
    obtain ⟨hr, hend⟩ := hdev r List.mem_cons_self
    rw [blocksOf_cons, List.length_append, length_blockList] at hle
    obtain ⟨s1, hseek, hpos1, hidle1⟩ := checkLseek_run h (r.1 * BLOCKSIZE)
    have hno1 : NoFaults s1 := hidle1.choose_spec.choose_spec.2
    have hdisk1 : s1.disk = s.disk := by
      obtain ⟨_, _, rfl, _⟩ := hidle1
      rfl
    have hsize : r.1 * BLOCKSIZE + Range.blocks r * BLOCKSIZE = r.2 * BLOCKSIZE := by
      rw [← Nat.add_mul, Range.blocks, Nat.add_sub_cancel' hr]
    obtain ⟨s2, hread, hidle2⟩ := readAll_run E hno1 (Range.blocks r * BLOCKSIZE)
      (by rw [hpos1, hsize]; exact hend)
    have hno2 : NoFaults s2 := hidle2.choose_spec.choose_spec.2
    have hdisk2 : s2.disk = s1.disk := by
      obtain ⟨_, _, rfl, _⟩ := hidle2
      rfl
    rw [hpos1, hdisk1] at hread
    obtain ⟨data, hdata⟩ : ∃ data, data =
        (List.range' (r.1 * BLOCKSIZE) (Range.blocks r * BLOCKSIZE)).map s.disk.dev := ⟨_, rfl⟩
    rw [← hdata] at hread
    have hlen : data.length = Range.blocks r * BLOCKSIZE := by
      rw [hdata, List.length_map, List.length_range']
    have hroom : (p + Range.blocks r) * BLOCKSIZE ≤ buffer.length := by
      rw [← Nat.add_assoc, Nat.add_mul] at hle
      lia
    have hroom' := hroom
    rw [Nat.add_mul] at hroom'
    have hsplice : (splice buffer (p * BLOCKSIZE) data).length = buffer.length :=
      length_splice (by lia)
    obtain ⟨hin, hout⟩ := block_splice hlen hroom
    obtain ⟨buffer', s3, hrest, hidle3, hlen3, hblocks3, hbelow3⟩ :=
      ih (fun q hq => hdev q (List.mem_cons_of_mem _ hq)) (p + Range.blocks r)
        (splice buffer (p * BLOCKSIZE) data) hno2
        (by rw [hsplice, Nat.add_assoc]; exact hle)
    refine ⟨buffer', s3, ?_, (hidle1.trans hidle2).trans hidle3, hlen3.trans hsplice, ?_, ?_⟩
    · unfold readBlocksLoop
      rw [bind_ok hseek]
      simp only [if_true]
      rw [bind_ok hread]
      simp only
      rw [bind_ok (overwrite_run (by lia) s2)]
      simp only [if_true]
      rw [← Nat.add_mul]
      exact hrest
    · intro k c hk
      rw [blocksOf_cons] at hk
      by_cases hlt : k < Range.blocks r
      · rw [List.getElem?_append_left (by rwa [length_blockList])] at hk
        obtain ⟨-, rfl⟩ := getElem?_blockList hk
        have hmul := Nat.mul_le_mul_right BLOCKSIZE (Nat.succ_le_of_lt hlt)
        rw [Nat.succ_mul] at hmul
        rw [hbelow3 _ (by lia), hin k hlt, hdata, block, slice_map_range' _ (by lia),
          ← Nat.add_mul]
        rfl
      · rw [List.getElem?_append_right (by rw [length_blockList]; lia), length_blockList] at hk
        have hblock := hblocks3 _ _ hk
        rw [hdisk2, hdisk1] at hblock
        rwa [Nat.add_assoc, Nat.add_sub_cancel' (by lia)] at hblock
    · intro b hb
      rw [hbelow3 b (by lia), hout b (.inl hb)]

/-! ## `MoveRange` -/

/-- Ranges in ascending order, without common blocks. -/
def Ascending (ranges : List Range) : Prop := ranges.Pairwise fun r q => r.2 ≤ q.1

/-- Ascending ranges below `c` have at most `c` blocks. -/
theorem sum_blocks_le {ranges : List Range} (hasc : Ascending ranges) (hpos : ∀ r ∈ ranges, r.1 < r.2)
    {c : Nat} (hle : ∀ r ∈ ranges, r.2 ≤ c) : (ranges.map Range.blocks).sum ≤ c := by
  induction ranges using List.reverseRecOn generalizing c with
  | nil => exact Nat.zero_le c
  | append_singleton ranges r ih =>
    obtain ⟨hasc', -, hlast⟩ := List.pairwise_append.1 hasc
    have hr := hpos r (by simp)
    have hrc := hle r (by simp)
    have hsum := ih hasc' (fun q hq => hpos q (by simp [hq])) (c := r.1)
      fun q hq => hlast q hq r (by simp)
    simp only [List.map_append, List.map_cons, List.map_nil, List.sum_append, List.sum_cons,
      List.sum_nil, Range.blocks]
    lia

/-- **The packed blocks that are still to be moved** lie below the range being written. -/
theorem packed_below {before after : List Range} {r : Range}
    (hasc : Ascending (before ++ r :: after)) (hpos : ∀ q ∈ before ++ r :: after, q.1 < q.2) :
    (before.map Range.blocks).sum ≤ r.1 := by
  obtain ⟨hasc', -, hlast⟩ := List.pairwise_append.1 hasc
  exact sum_blocks_le hasc' (fun q hq => hpos q (by simp [hq])) fun q hq => hlast q hq r (by simp)

/-- Moving the blocks of `ranges`, packed in `source` or in the buffer itself, backwards. -/
theorem moveRangeLoop_run (source : Option (List UInt8)) {ranges : List Range}
    (hasc : Ascending ranges) (hpos : ∀ r ∈ ranges, r.1 < r.2) (dest : List UInt8)
    (hdest : ∀ r ∈ ranges, r.2 * BLOCKSIZE ≤ dest.length)
    (hsource : (blocksOf ranges).length * BLOCKSIZE ≤ (source.getD dest).length) (s : St) :
    ∃ dest', moveRangeLoop source ranges.reverse (blocksOf ranges).length dest s = .ok dest' s ∧
      dest'.length = dest.length ∧
      (∀ k b, (blocksOf ranges)[k]? = some b → block dest' b = block (source.getD dest) k) ∧
      ∀ b, b ∉ blocksOf ranges → block dest' b = block dest b := by
  induction ranges using List.reverseRecOn generalizing dest with
  | nil => exact ⟨dest, rfl, rfl, nofun, fun _ _ => rfl⟩
  | append_singleton ranges r ih =>
    obtain ⟨hasc', -, hlast⟩ := List.pairwise_append.1 hasc
    have hr := hpos r (by simp)
    have hrd := hdest r (by simp)
    have hpos' : ∀ q ∈ ranges, q.1 < q.2 := fun q hq => hpos q (by simp [hq])
    have hbelow : (blocksOf ranges).length ≤ r.1 := by
      rw [length_blocksOf]
      exact packed_below hasc hpos
    have htotal : (blocksOf (ranges ++ [r])).length =
        (blocksOf ranges).length + Range.blocks r := by
      rw [blocksOf_append, List.length_append, blocksOf_cons, List.length_append, length_blockList]
      rfl
    rw [htotal] at hsource ⊢
    rw [Nat.add_mul] at hsource
    obtain ⟨start, hstart⟩ : ∃ start, start = (blocksOf ranges).length := ⟨_, rfl⟩
    rw [← hstart] at hbelow hsource ⊢
    obtain ⟨data, hdata⟩ : ∃ data, data =
        slice (source.getD dest) (start * BLOCKSIZE) (Range.blocks r * BLOCKSIZE) := ⟨_, rfl⟩
    have hlen : data.length = Range.blocks r * BLOCKSIZE := by
      rw [hdata]
      exact length_slice hsource
    have hend : r.1 + Range.blocks r = r.2 := by
      rw [Range.blocks]
      lia
    have hroom : (r.1 + Range.blocks r) * BLOCKSIZE ≤ dest.length := by
      rw [hend]
      exact hrd
    obtain ⟨hin, hout⟩ := block_splice hlen hroom
    have hsplice : (splice dest (r.1 * BLOCKSIZE) data).length = dest.length := by
      rw [Nat.add_mul] at hroom
      exact length_splice (by lia)
    -- what is left to be moved is as before
    have hleft : ∀ k < start, block (source.getD (splice dest (r.1 * BLOCKSIZE) data)) k =
        block (source.getD dest) k := by
      intro k hk
      cases source with
      | none => exact hout k (.inl (by lia))
      | some _ => rfl
    have hsource' : (blocksOf ranges).length * BLOCKSIZE ≤
        (source.getD (splice dest (r.1 * BLOCKSIZE) data)).length := by
      rw [← hstart]
      cases source with
      | none =>
        rw [Option.getD_none] at hsource ⊢
        lia
      | some _ => exact Nat.le_trans (Nat.le_add_right _ _) hsource
    obtain ⟨dest', hrun, hlen', hmoved, hrest⟩ := ih hasc' hpos'
      (splice dest (r.1 * BLOCKSIZE) data)
      (fun q hq => by rw [hsplice]; exact hdest q (by simp [hq])) hsource'
    have hnot {b : Nat} (hb : r.1 ≤ b) : b ∉ blocksOf ranges := by
      intro hmem
      obtain ⟨q, hq, hbq⟩ := List.mem_flatMap.1 hmem
      rw [Range.mem_blockList (hpos' q hq)] at hbq
      have := hlast q hq r (by simp)
      lia
    refine ⟨dest', ?_, hlen'.trans hsplice, ?_, ?_⟩
    · rw [List.reverse_append, List.reverse_singleton, List.singleton_append]
      unfold moveRangeLoop
      simp only [Nat.add_sub_cancel]
      rw [show ((source.getD dest).drop (start * BLOCKSIZE)).take (Range.blocks r * BLOCKSIZE) =
        data from hdata.symm, if_pos hlen]
      rw [Nat.add_mul] at hroom
      rw [bind_ok (overwrite_run (by lia) s), hstart]
      exact hrun
    · intro k b hk
      rw [blocksOf_append] at hk
      by_cases hlt : k < start
      · rw [List.getElem?_append_left (by rwa [← hstart])] at hk
        rw [hmoved k b hk, hleft k hlt]
      · rw [List.getElem?_append_right (by lia), blocksOf_cons, ← hstart,
          List.getElem?_append_left (by
            by_contra hge
            rw [List.getElem?_append_right (by lia)] at hk
            cases hk)] at hk
        obtain ⟨hi, rfl⟩ := getElem?_blockList hk
        have hmul := Nat.mul_le_mul_right BLOCKSIZE (Nat.succ_le_of_lt hi)
        rw [Nat.succ_mul] at hmul
        rw [hrest _ (hnot (Nat.le_add_right _ _)), hin _ hi, hdata, block, slice_slice hmul,
          ← Nat.add_mul, Nat.add_sub_cancel' (by lia)]
        rfl
    · intro b hb
      rw [blocksOf_append, List.mem_append, not_or, blocksOf_cons, List.mem_append, not_or,
        Range.mem_blockList hr] at hb
      rw [hrest b hb.1]
      apply hout
      lia

theorem moveRange_run (source : Option (List UInt8)) (locs : RangeSet)
    (hasc : Ascending locs.ranges) (dest : List UInt8)
    (hdest : ∀ r ∈ locs.ranges, r.2 * BLOCKSIZE ≤ dest.length)
    (hsource : locs.blocks * BLOCKSIZE ≤ (source.getD dest).length) (s : St) :
    ∃ dest', moveRange dest locs source s = .ok dest' s ∧ dest'.length = dest.length ∧
      (∀ k b, locs.getBlockNumber k = some b → block dest' b = block (source.getD dest) k) ∧
      ∀ b, b ∉ locs.blockList → block dest' b = block dest b := by
  have hblocks : (blocksOf locs.ranges).length = locs.blocks := locs.blockList_length
  rw [← hblocks] at hsource
  obtain ⟨dest', hrun, hlen, hmoved, hrest⟩ :=
    moveRangeLoop_run source hasc locs.pos dest hdest hsource s
  rw [hblocks] at hrun
  refine ⟨dest', hrun, hlen, ?_, hrest⟩
  intro k b hk
  rw [RangeSet.getBlockNumber_eq] at hk
  exact hmoved k b hk

/-- **`MoveRange` returns only when the source is as large as the locations**: the last range is read
first. -/
theorem moveRange_enough {source dest dest' : List UInt8} {locs : RangeSet} {s s' : St}
    (hvalid : locs.isValid = true) (h : moveRange dest locs (some source) s = .ok dest' s') :
    locs.blocks * BLOCKSIZE ≤ source.length := by
  obtain ⟨ranges, r, hranges⟩ := List.eq_nil_or_concat' locs.ranges |>.resolve_left
    (RangeSet.isValid_iff.1 hvalid)
  have hr : r.1 < r.2 := locs.pos r (by simp [hranges])
  have hblocks : Range.blocks r ≤ locs.blocks := by
    rw [locs.blocks_eq, hranges, List.map_append, List.sum_append]
    simp
  have hpos := range_bytes_pos hr
  rw [moveRange, hranges, List.reverse_append, List.reverse_singleton, List.singleton_append] at h
  unfold moveRangeLoop at h
  simp only [Option.getD_some] at h
  by_cases hlen : ((source.drop ((locs.blocks - Range.blocks r) * BLOCKSIZE)).take
      (Range.blocks r * BLOCKSIZE)).length = Range.blocks r * BLOCKSIZE
  · rw [List.length_take, List.length_drop] at hlen
    have hsplit : (locs.blocks - Range.blocks r) * BLOCKSIZE + Range.blocks r * BLOCKSIZE =
        locs.blocks * BLOCKSIZE := by
      rw [← Nat.add_mul, Nat.sub_add_cancel hblocks]
    lia
  · rw [if_neg hlen] at h
    cases h

/-! ## Locations -/

/-- A location of the buffer: where it is, and what its blocks are to be. -/
structure Place where
  locs : RangeSet
  content : Nat → Option (List UInt8)

/-- Every block of the location is as it is to be. -/
def Place.Holds (p : Place) (buffer : List UInt8) : Prop :=
  ∀ k b data, p.locs.getBlockNumber k = some b → p.content k = some data → block buffer b = data

/-- The blocks of `<src_range>`, at `<src_loc>`. -/
def srcPlace (dev : Nat → UInt8) (src locs : RangeSet) : Place where
  locs := locs
  content k := (src.getBlockNumber k).map (devBlock dev)

/-- The blocks of a stash, at its range. -/
def stashPlace (stash : RangeSet × List UInt8) : Place where
  locs := stash.1
  content k := if (k + 1) * BLOCKSIZE ≤ stash.2.length then some (block stash.2 k) else none

/-- The locations are ascending and disjoint, and cover the first `n` blocks. -/
structure Partitions (places : List Place) (n : Nat) : Prop where
  ascending : ∀ p ∈ places, Ascending p.locs.ranges
  disjoint : places.Pairwise fun p q => ∀ b ∈ p.locs.blockList, b ∉ q.locs.blockList
  cover : ∀ b, b < n ↔ ∃ p ∈ places, b ∈ p.locs.blockList

theorem Partitions.range_le {places : List Place} {n : Nat} (h : Partitions places n) {p : Place}
    (hp : p ∈ places) {r : Range} (hr : r ∈ p.locs.ranges) : r.2 ≤ n := by
  have hpos := p.locs.pos r hr
  have hlast : r.2 - 1 < n := (h.cover _).2 ⟨p, hp, RangeSet.mem_blockList.2 ⟨r, hr, by omega⟩⟩
  omega

theorem Partitions.blocks_le {places : List Place} {n : Nat} (h : Partitions places n) {p : Place}
    (hp : p ∈ places) : p.locs.blocks ≤ n := by
  rw [p.locs.blocks_eq]
  exact sum_blocks_le (h.ascending p hp) p.locs.pos fun r hr => h.range_le hp hr

/-- A location that was filled holds what it is to hold. -/
theorem Place.holds_of_moved {p : Place} {buffer packed : List UInt8}
    (hmoved : ∀ k b, p.locs.getBlockNumber k = some b → block buffer b = block packed k)
    (hpacked : ∀ k data, p.content k = some data → block packed k = data) : p.Holds buffer := by
  intro k b data hb hdata
  rw [hmoved k b hb]
  exact hpacked k data hdata

/-- Filling one location leaves the others alone. -/
theorem Place.Holds.frame {p : Place} {buffer buffer' : List UInt8} (h : p.Holds buffer)
    (hsame : ∀ b ∈ p.locs.blockList, block buffer' b = block buffer b) : p.Holds buffer' := by
  intro k b data hb hdata
  rw [hsame b, h k b data hb hdata]
  rw [RangeSet.getBlockNumber_eq] at hb
  exact List.mem_of_getElem? hb

/-! ## The words of a command -/

/-- `LoadStash` succeeds and gives `stash`. -/
def Loadable (E : Env) (s : St) (id : String) (stash : List UInt8) : Prop :=
  ∀ s₁ : St, s₁.disk = s.disk → s₁.stashMap = s.stashMap → NoFaults s₁ →
    ∃ s₂, loadStash E id false [] true s₁ = .ok (true, stash) s₂ ∧ Idle s₁ s₂

/-- A stash that is to come from its file is loaded when the file holds whole blocks. -/
theorem loadStash_file {s : St} (hno : NoFaults s) {id : String} {data : List UInt8}
    (hmap : (if E.canwrite then none else s.stashMap.lookup id) = none)
    (hfile : s.disk.stash.lookup (E.stashFile id) = some data) (hsize : data.length % BLOCKSIZE = 0) :
    ∃ s', loadStash E id false [] true s = .ok (true, data) s' ∧ Idle s s' := by
  obtain ⟨fs1, hn1, hno1⟩ := nextFate_run hno
  obtain ⟨fs2, hn2, hno2⟩ := nextFate_run hno1
  obtain ⟨fs3, hn3, hno3⟩ := nextFate_run hno2
  refine ⟨{ s with fates := fs3 }, ?_, s.pos, fs3, rfl, hno3⟩
  have hio1 : ioOk s = .ok true { s with fates := fs1 } := by
    rw [ioOk, bind_ok hn1]
    rfl
  have hio2 : ioOk { s with fates := fs1 } = .ok true { s with fates := fs2 } := by
    rw [ioOk, bind_ok hn2]
    rfl
  have hread : readStashFile data (allocate data.length []) { s with fates := fs2 } =
      .ok (true, data) { s with fates := fs3 } := by
    rw [readStashFile, bind_ok hn3]
    have hdrop : (allocate data.length []).drop data.length = [] := by
      apply List.drop_of_length_le
      unfold allocate
      split
      · exact Nat.zero_le _
      · simp
    simp only [hdrop, List.append_nil]
    rfl
  unfold loadStash
  rw [get_bind, hmap]
  dsimp only
  rw [bind_ok hio1]
  simp only [hfile, not_true_eq_false, if_false, hsize, ne_eq]
  rw [bind_ok hio2]
  simp only [if_true]
  rw [bind_ok hread]
  rfl

/-- In an update a stash is loadable when its file holds whole blocks. -/
theorem loadable_file {s : St} (hwrite : E.canwrite = true) {id : String} {data : List UInt8}
    (hfile : s.disk.stash.lookup (E.stashFile id) = some data) (hsize : data.length % BLOCKSIZE = 0) :
    Loadable E s id data := by
  intro s1 hdisk _ hno
  exact loadStash_file hno (by rw [hwrite, if_pos rfl]) (by rw [hdisk]; exact hfile) hsize

/-- A word `<stash_id>:<stash_range>`. -/
structure StashWord (E : Env) (s : St) (word : String) (stash : RangeSet × List UInt8) : Prop where
  parts : ∃ id text, E.base.split word ":" = [id, text] ∧ RangeSet.parse E.base text = stash.1 ∧
    Loadable E s id stash.2
  valid : stash.1.isValid = true

/-- What the words of a command name: `<src_range>` with `<src_loc>`, and the stashes with their
ranges. -/
structure Sources where
  range : Option (RangeSet × RangeSet)
  stashes : List (RangeSet × List UInt8)

def Sources.places (dev : Nat → UInt8) (src : Sources) : List Place :=
  (src.range.map fun r => srcPlace dev r.1 r.2).toList ++ src.stashes.map stashPlace

/-- The blocks of `<src_range>` fit in a buffer of this size, and each stash has as many blocks as its
range. -/
structure Sources.Fit (src : Sources) (size : Nat) : Prop where
  range : ∀ r ∈ src.range, r.1.blocks * BLOCKSIZE ≤ size
  stashes : ∀ t ∈ src.stashes, t.1.blocks * BLOCKSIZE ≤ t.2.length

/-- The words of a command from `<src_block_count>` on, with what they name. -/
inductive SourceWords (E : Env) (s : St) (n : Nat) : List String → Sources → Prop
  | stashes {count : String} {words : List String} {stashes : List (RangeSet × List UInt8)}
      (hcount : E.base.parseUint count SIZE_MAX = some n)
      (hstashes : List.Forall₂ (StashWord E s) words stashes) :
      SourceWords E s n (count :: "-" :: words) ⟨none, stashes⟩
  | ranges {count src loc : String} {words : List String} {stashes : List (RangeSet × List UInt8)}
      (hcount : E.base.parseUint count SIZE_MAX = some n) (hsrc : src ≠ "-")
      (hvalid : (RangeSet.parse E.base src).isValid = true)
      (hdev : OnDevice E (RangeSet.parse E.base src).ranges)
      (hloc : (RangeSet.parse E.base loc).isValid = true)
      (hstashes : List.Forall₂ (StashWord E s) words stashes) :
      SourceWords E s n (count :: src :: loc :: words)
        ⟨some (RangeSet.parse E.base src, RangeSet.parse E.base loc), stashes⟩

theorem SourceWords.parsed {s : St} {n : Nat} {words : List String} {src : Sources}
    (h : SourceWords E s n words src) {dev : Nat → UInt8} {p : Place} (hp : p ∈ src.places dev) :
    ∃ text, RangeSet.parse E.base text = p.locs := by
  have hstash {words : List String} {stashes : List (RangeSet × List UInt8)}
      (hall : List.Forall₂ (StashWord E s) words stashes) (hp : p ∈ stashes.map stashPlace) :
      ∃ text, RangeSet.parse E.base text = p.locs := by
    induction hall with
    | nil => cases hp
    | cons hword _ ih =>
      rcases List.mem_cons.1 hp with rfl | hp
      · obtain ⟨id, text, -, hparse, -⟩ := hword.parts
        exact ⟨text, hparse⟩
      · exact ih hp
  cases h with
  | stashes hcount hstashes => exact hstash hstashes hp
  | @ranges count src loc words stashes hcount hsrc hvalid hdev hloc hstashes =>
    rcases List.mem_cons.1 hp with rfl | hp
    · exact ⟨loc, rfl⟩
    · exact hstash hstashes hp

theorem Partitions.le_INT_MAX {s : St} {n : Nat} {words : List String} {src : Sources}
    {dev : Nat → UInt8} (h : Partitions (src.places dev) n)
    (hwords : SourceWords E s n words src) : n ≤ INT_MAX := by
  by_contra hn
  obtain ⟨p, hp, hb⟩ := (h.cover (n - 1)).1 (by omega)
  obtain ⟨r, hr, -, hlt⟩ := RangeSet.mem_blockList.1 hb
  obtain ⟨text, hparse⟩ := hwords.parsed hp
  rw [← hparse] at hr
  have := RangeSet.parse_le E.base text r hr
  omega

/-- Only the offset, the buffer and the position among the words may differ. -/
structure Loading (s s' : St) : Prop where
  disk : s'.disk = s.disk
  stashMap : s'.stashMap = s.stashMap
  tokens : s'.params.tokens = s.params.tokens
  noFaults : NoFaults s'

theorem nextToken_run {s : St} {word : String} {words : List String}
    (h : s.params.tokens.drop s.params.cpos = word :: words) :
    nextToken s = .ok word { s with params.cpos := s.params.cpos + 1 } ∧
      s.params.tokens.drop (s.params.cpos + 1) = words := by
  have hget : s.params.tokens[s.params.cpos]? = some word := by
    rw [← List.head?_drop, h]
    rfl
  constructor
  · unfold nextToken
    rw [get_bind]
    simp only [hget]
    rfl
  · rw [← List.drop_drop, h]
    rfl

theorem setBuffer_bind {α : Type} (buffer : List UInt8) (f : Unit → M α) (s : St) :
    (setBuffer buffer >>= f) s = f () { s with params.buffer := buffer } := rfl

theorem parseChecked_bind {α : Type} {text : String} (h : (RangeSet.parse E.base text).isValid = true)
    (f : RangeSet → M α) (s : St) :
    (parseChecked E text >>= f) s = f (RangeSet.parse E.base text) s := by
  unfold parseChecked
  simp only [h, if_true, pure_bind]

/-- The first stash is loaded, and moved to its range when it is large enough. -/
theorem loadStashes_cons {s₀ : St} {word : String} {words : List String}
    {t : RangeSet × List UInt8} (hword : StashWord E s₀ word t) {s : St} (hload : Loading s₀ s)
    (htokens : s.params.tokens.drop s.params.cpos = word :: words) :
    ∃ s1, Loading s₀ s1 ∧ s1.params.tokens.drop s1.params.cpos = words ∧
      s1.params.buffer = s.params.buffer ∧
      loadStashes E (word :: words) s = (moveRange s.params.buffer t.1 (some t.2) >>= fun buffer =>
        setBuffer buffer >>= fun _ => loadStashes E words) s1 := by
  obtain ⟨⟨id, text, hsplit, hparse, hloadable⟩, hvalid⟩ := hword
  obtain ⟨hnext, hdrop⟩ := nextToken_run htokens
  obtain ⟨s2, hrun, pos, fates, rfl, hno⟩ :=
    hloadable { s with params.cpos := s.params.cpos + 1 } hload.disk hload.stashMap hload.noFaults
  refine ⟨{ s with params.cpos := s.params.cpos + 1, pos := pos, fates := fates },
    ⟨hload.disk, hload.stashMap, hload.tokens, hno⟩, hdrop, rfl, ?_⟩
  conv_lhs => unfold loadStashes
  rw [bind_ok hnext]
  simp only [hsplit]
  rw [bind_ok hrun]
  simp only [if_true]
  rw [parseChecked_bind (by rwa [hparse]), get_bind, hparse]

/-- Loading the stashes fills their locations, and no other block. -/
theorem loadStashes_run {s₀ : St} {words : List String} {stashes : List (RangeSet × List UInt8)}
    (hwords : List.Forall₂ (StashWord E s₀) words stashes)
    (henough : ∀ t ∈ stashes, t.1.blocks * BLOCKSIZE ≤ t.2.length)
    (hasc : ∀ t ∈ stashes, Ascending t.1.ranges)
    (hdis : stashes.Pairwise fun t u => ∀ b ∈ t.1.blockList, b ∉ u.1.blockList) {s : St}
    (hload : Loading s₀ s) (htokens : s.params.tokens.drop s.params.cpos = words)
    (hroom : ∀ t ∈ stashes, ∀ r ∈ t.1.ranges, r.2 * BLOCKSIZE ≤ s.params.buffer.length) :
    ∃ s', loadStashes E words s = .ok true s' ∧
      (∀ t ∈ stashes, (stashPlace t).Holds s'.params.buffer) ∧
      ∀ b, (∀ t ∈ stashes, b ∉ t.1.blockList) → block s'.params.buffer b = block s.params.buffer b := by
  induction hwords generalizing s with
  | nil => exact ⟨s, rfl, nofun, fun _ _ => rfl⟩
  | @cons word t words stashes hword hwords ih =>
    obtain ⟨s1, hload1, hdrop, -, hcons⟩ := loadStashes_cons hword hload htokens
    obtain ⟨hdis1, hdis2⟩ := List.pairwise_cons.1 hdis
    obtain ⟨buffer, hmove, hlen, hmoved, hrest⟩ := moveRange_run (some t.2) t.1
      (hasc t List.mem_cons_self) s.params.buffer (hroom t List.mem_cons_self)
      (henough t List.mem_cons_self) s1
    obtain ⟨s', hrun', hholds', hrest'⟩ := ih (fun u hu => henough u (List.mem_cons_of_mem _ hu))
      (fun u hu => hasc u (List.mem_cons_of_mem _ hu)) hdis2
      (s := { s1 with params.buffer := buffer })
      ⟨hload1.disk, hload1.stashMap, hload1.tokens, hload1.noFaults⟩ hdrop
      (fun u hu r hr => by
        simp only [hlen]
        exact hroom u (List.mem_cons_of_mem _ hu) r hr)
    refine ⟨s', ?_, ?_, ?_⟩
    · rw [hcons, bind_ok hmove]
      exact hrun'
    · intro u hu
      rcases List.mem_cons.1 hu with rfl | hu
      · have hfilled : (stashPlace u).Holds buffer := by
          apply Place.holds_of_moved hmoved
          intro k data hdata
          simp only [stashPlace] at hdata
          split at hdata
          · exact Option.some.inj hdata
          · cases hdata
        apply hfilled.frame
        intro b hb
        exact hrest' b fun v hv => hdis1 v hv b hb
      · exact hholds' u hu
    · intro b hb
      rw [hrest' b fun v hv => hb v (List.mem_cons_of_mem _ hv)]
      exact hrest b (hb t List.mem_cons_self)

/-- The loop returns only when every stash is as large as its range. -/
theorem loadStashes_enough {s₀ : St} {words : List String} {stashes : List (RangeSet × List UInt8)}
    (hwords : List.Forall₂ (StashWord E s₀) words stashes)
    (hasc : ∀ t ∈ stashes, Ascending t.1.ranges) {s s' : St} {ok : Bool} (hload : Loading s₀ s)
    (htokens : s.params.tokens.drop s.params.cpos = words)
    (hroom : ∀ t ∈ stashes, ∀ r ∈ t.1.ranges, r.2 * BLOCKSIZE ≤ s.params.buffer.length)
    (hrun : loadStashes E words s = .ok ok s') :
    ∀ t ∈ stashes, t.1.blocks * BLOCKSIZE ≤ t.2.length := by
  induction hwords generalizing s with
  | nil => exact nofun
  | @cons word t words stashes hword hwords ih =>
    obtain ⟨s1, hload1, hdrop, -, hcons⟩ := loadStashes_cons hword hload htokens
    rw [hcons] at hrun
    obtain ⟨buffer, s2, hmove, hrest⟩ := of_bind_ok hrun
    have henough := moveRange_enough hword.valid hmove
    obtain ⟨buffer', hmove', hlen, -⟩ := moveRange_run (some t.2) t.1
      (hasc t List.mem_cons_self) s.params.buffer (hroom t List.mem_cons_self) henough s1
    rw [hmove] at hmove'
    cases hmove'
    refine List.forall_mem_cons.2 ⟨henough, ih (fun u hu => hasc u (List.mem_cons_of_mem _ hu))
      (s := { s1 with params.buffer := buffer })
      ⟨hload1.disk, hload1.stashMap, hload1.tokens, hload1.noFaults⟩ hdrop ?_ hrest⟩
    intro u hu r hr
    simp only [hlen]
    exact hroom u (List.mem_cons_of_mem _ hu) r hr

/-- The end of `LoadSourceBlocks`. -/
def loadRest (E : Env) (n : Nat) (overlap : Bool) (words : List String) :
    M (Option (Nat × Bool)) := do
  if ← loadStashes E words then return some (n, overlap) else return none

theorem allocate_length (size : Nat) (buffer : List UInt8) :
    (allocate size buffer).length = max buffer.length size := by
  unfold allocate
  split
  · lia
  · rw [List.length_append, List.length_replicate]
    lia

/-- `LoadSourceBlocks` from a source range on. -/
def loadRange (E : Env) (tgt : RangeSet) (n : Nat) (token : String) : M (Option (Nat × Bool)) := do
  let src ← parseChecked E token
  let (ok, buffer) ← readBlocks E src (← get).params.buffer
  setBuffer buffer
  if ¬ ok then return none
  else
    let params := (← get).params
    if params.cpos ≥ params.tokens.length then return some (n, src.overlaps tgt)
    else
      let locs ← parseChecked E (← nextToken)
      setBuffer (← moveRange (← get).params.buffer locs none)
      let params := (← get).params
      loadRest E n (src.overlaps tgt) (params.tokens.drop params.cpos)

/-- The first two words: the count, for which the buffer is made, and a source range or `-`. -/
theorem loadSourceBlocks_words (tgt : RangeSet) {s : St} {n : Nat} {count token : String}
    {words : List String} (hbytes : blockBytes n = n * BLOCKSIZE)
    (htokens : s.params.tokens.drop s.params.cpos = count :: token :: words)
    (hcount : E.base.parseUint count SIZE_MAX = some n) :
    s.params.tokens.drop (s.params.cpos + 1 + 1) = words ∧
      loadSourceBlocks E tgt s =
        (if token = "-" then loadRest E n false words else loadRange E tgt n token)
          { s with
            params.cpos := s.params.cpos + 1 + 1
            params.buffer := allocate (n * BLOCKSIZE) s.params.buffer } := by
  obtain ⟨hnext, hdrop⟩ := nextToken_run htokens
  obtain ⟨hnext', hdrop'⟩ := nextToken_run (s := { s with
    params.cpos := s.params.cpos + 1
    params.buffer := allocate (n * BLOCKSIZE) s.params.buffer }) hdrop
  refine ⟨hdrop', ?_⟩
  unfold loadSourceBlocks
  rw [bind_ok hnext]
  simp only [hcount]
  rw [get_bind, hbytes, setBuffer_bind, bind_ok hnext']
  split
  · rw [get_bind]
    simp only [hdrop']
    rfl
  · rfl

/-- The source range is loaded when its blocks fit, and the stashes are what is left. -/
theorem loadSourceBlocks_range (tgt : RangeSet) {s : St} {n : Nat} {src : Sources}
    (hbytes : blockBytes n = n * BLOCKSIZE) (hno : NoFaults s)
    (hwords : SourceWords E s n (s.params.tokens.drop s.params.cpos) src)
    (hparts : Partitions (src.places s.disk.dev) n)
    (hfit : ∀ r ∈ src.range, r.1.blocks * BLOCKSIZE ≤ max s.params.buffer.length (n * BLOCKSIZE)) :
    ∃ overlap words s1, loadSourceBlocks E tgt s = loadRest E n overlap words s1 ∧
      List.Forall₂ (StashWord E s) words src.stashes ∧ Loading s s1 ∧
      s1.params.tokens.drop s1.params.cpos = words ∧ n * BLOCKSIZE ≤ s1.params.buffer.length ∧
      ∀ r ∈ src.range, (srcPlace s.disk.dev r.1 r.2).Holds s1.params.buffer := by
  obtain ⟨buffer, hbuffer⟩ :
      ∃ buffer, buffer = allocate (n * BLOCKSIZE) s.params.buffer := ⟨_, rfl⟩
  have hlength := allocate_length (n * BLOCKSIZE) s.params.buffer
  rw [← hbuffer] at hlength
  have hlen : n * BLOCKSIZE ≤ buffer.length := hlength ▸ Nat.le_max_right _ _
  rw [← hlength] at hfit
  obtain ⟨words, htokens⟩ : ∃ words, s.params.tokens.drop s.params.cpos = words := ⟨_, rfl⟩
  rw [htokens] at hwords
  cases hwords with
  | @stashes count words stashes hcount hstashes =>
    obtain ⟨hdrop, hload⟩ := loadSourceBlocks_words tgt hbytes htokens hcount
    rw [if_pos rfl, ← hbuffer] at hload
    exact ⟨false, words, _, hload, hstashes, ⟨rfl, rfl, rfl, hno⟩, hdrop, hlen, nofun⟩
  | @ranges count src loc words stashes hcount hsrc hvalid hdev hloc hstashes =>
    obtain ⟨hdrop', hload⟩ := loadSourceBlocks_words tgt hbytes htokens hcount
    rw [if_neg hsrc, ← hbuffer] at hload
    -- the blocks of the source, packed at the start of the buffer
    have hblocks : (blocksOf (RangeSet.parse E.base src).ranges).length =
        (RangeSet.parse E.base src).blocks := RangeSet.blockList_length _
    obtain ⟨packed, s1, hread, ⟨pos, fates, rfl, hno1⟩, hlen1, hpacked, -⟩ :=
      readBlocksLoop_run hdev 0 buffer
        (s := { s with params.cpos := s.params.cpos + 1 + 1, params.buffer := buffer }) hno
        (by
          rw [Nat.zero_add, hblocks]
          exact hfit (RangeSet.parse E.base src, RangeSet.parse E.base loc) rfl)
    rw [Nat.zero_mul] at hread
    obtain ⟨hnext3, hdrop3⟩ := nextToken_run (s := { s with
      params.cpos := s.params.cpos + 1 + 1, params.buffer := packed, pos := pos, fates := fates })
      hdrop'
    -- spread to the location of the source
    have hsrc' : srcPlace s.disk.dev (RangeSet.parse E.base src) (RangeSet.parse E.base loc) ∈
        Sources.places s.disk.dev ⟨some (RangeSet.parse E.base src, RangeSet.parse E.base loc),
          stashes⟩ := List.mem_cons_self
    obtain ⟨moved, hmove, hlen2, hmoved, -⟩ := moveRange_run none
      (RangeSet.parse E.base loc) (hparts.ascending _ hsrc') packed
      (fun r hr => by
        rw [hlen1]
        exact Nat.le_trans (Nat.mul_le_mul_right _ (hparts.range_le hsrc' hr)) hlen)
      (by
        rw [Option.getD_none, hlen1]
        exact Nat.le_trans (Nat.mul_le_mul_right _ (hparts.blocks_le hsrc')) hlen)
      { s with
        params.cpos := s.params.cpos + 1 + 1 + 1, params.buffer := packed, pos := pos,
        fates := fates }
    refine ⟨(RangeSet.parse E.base src).overlaps tgt, words,
      { s with
        params.cpos := s.params.cpos + 1 + 1 + 1, params.buffer := moved, pos := pos,
        fates := fates },
      ?_, hstashes, ⟨rfl, rfl, rfl, hno1⟩, hdrop3, by simp only [hlen2, hlen1]; exact hlen, ?_⟩
    · have hcpos : s.params.cpos + 1 + 1 < s.params.tokens.length := by
        by_contra hge
        rw [List.drop_of_length_le (by omega)] at hdrop'
        cases hdrop'
      rw [hload]
      unfold loadRange
      rw [parseChecked_bind hvalid, get_bind, readBlocks, bind_ok hread]
      simp only [not_true_eq_false, if_false]
      rw [setBuffer_bind, get_bind, if_neg (by simp only; omega), bind_ok hnext3,
        parseChecked_bind hloc, get_bind, bind_ok hmove, setBuffer_bind, get_bind]
      simp only [hdrop3]
    · intro r hr
      cases hr
      apply Place.holds_of_moved hmoved
      intro k data hdata
      obtain ⟨c, hc, rfl⟩ := Option.map_eq_some_iff.1 hdata
      rw [RangeSet.getBlockNumber_eq] at hc
      have hblock := hpacked k c hc
      rwa [Nat.zero_add] at hblock

/-- `LoadSourceBlocks` succeeds only when the blocks of the source range fit. -/
theorem loadSourceBlocks_room {tgt : RangeSet} {s s' : St} {n : Nat} {src : Sources}
    {res : Nat × Bool} (hbytes : blockBytes n = n * BLOCKSIZE)
    (hwords : SourceWords E s n (s.params.tokens.drop s.params.cpos) src)
    (hrun : loadSourceBlocks E tgt s = .ok (some res) s') :
    ∀ r ∈ src.range, r.1.blocks * BLOCKSIZE ≤ max s.params.buffer.length (n * BLOCKSIZE) := by
  obtain ⟨words, htokens⟩ : ∃ words, s.params.tokens.drop s.params.cpos = words := ⟨_, rfl⟩
  rw [htokens] at hwords
  cases hwords with
  | stashes => exact nofun
  | @ranges count src loc words stashes hcount hsrc hvalid hdev hloc hstashes =>
    intro r hr
    cases hr
    obtain ⟨-, hload⟩ := loadSourceBlocks_words tgt hbytes htokens hcount
    rw [hload, if_neg hsrc, loadRange, parseChecked_bind hvalid, get_bind] at hrun
    obtain ⟨⟨ok, buffer⟩, s1, hread, hrest⟩ := of_bind_ok hrun
    have hok : ok = true := by
      cases ok with
      | true => rfl
      | false => cases hrest
    rw [← allocate_length]
    exact ((readBlocks_room _ _ _).of_ok hread).2 hok |>.2

/-- **When `LoadSourceBlocks` assembles the source.**  For a command whose locations are ascending,
disjoint and cover the source, without I/O errors and with loadable stashes: every block of the source
range and of every stash stands in the buffer where its location says, exactly when the blocks of the
source range fit in the buffer and every stash is as large as its range; else bytes outside of them are
touched.  In each location the packed blocks below a range have no block in it or above. -/
theorem loadSourceBlocks_places_iff (E : Env) (tgt : RangeSet) {s : St} {n : Nat} {src : Sources}
    (hno : NoFaults s)
    (hwords : SourceWords E s n (s.params.tokens.drop s.params.cpos) src)
    (hparts : Partitions (src.places s.disk.dev) n) :
    ((∃ overlap s', loadSourceBlocks E tgt s = .ok (some (n, overlap)) s' ∧
        ∀ p ∈ src.places s.disk.dev, p.Holds s'.params.buffer) ↔
      src.Fit (max s.params.buffer.length (n * BLOCKSIZE))) ∧
    ∀ p ∈ src.places s.disk.dev, ∀ before r after, p.locs.ranges = before ++ r :: after →
      (before.map Range.blocks).sum ≤ r.1 := by
  have hbytes : blockBytes n = n * BLOCKSIZE := by
    have hn := hparts.le_INT_MAX hwords
    unfold blockBytes BLOCKSIZE
    unfold INT_MAX at hn
    omega
  have hmem {t : RangeSet × List UInt8} (ht : t ∈ src.stashes) :
      stashPlace t ∈ src.places s.disk.dev := List.mem_append_right _ (List.mem_map_of_mem ht)
  have hasc : ∀ t ∈ src.stashes, Ascending t.1.ranges := fun t ht => hparts.ascending _ (hmem ht)
  have hroom {size : Nat} (hlen : n * BLOCKSIZE ≤ size) :
      ∀ t ∈ src.stashes, ∀ r ∈ t.1.ranges, r.2 * BLOCKSIZE ≤ size := fun t ht r hr =>
    Nat.le_trans (Nat.mul_le_mul_right _ (hparts.range_le (hmem ht) hr)) hlen
  refine ⟨⟨?_, ?_⟩, ?_⟩
  · rintro ⟨overlap, s', hrun, -⟩
    have hrange := loadSourceBlocks_room hbytes hwords hrun
    obtain ⟨overlap', words, s1, heq, hstashes, hload, hdrop, hlen, -⟩ :=
      loadSourceBlocks_range tgt hbytes hno hwords hparts hrange
    rw [heq, loadRest] at hrun
    obtain ⟨ok, s2, hrest, -⟩ := of_bind_ok hrun
    exact ⟨hrange, loadStashes_enough hstashes hasc hload hdrop (hroom hlen) hrest⟩
  · rintro ⟨hrange, henough⟩
    obtain ⟨overlap, words, s1, heq, hstashes, hload, hdrop, hlen, hsrc⟩ :=
      loadSourceBlocks_range tgt hbytes hno hwords hparts hrange
    obtain ⟨-, hdis, hapart⟩ := List.pairwise_append.1 hparts.disjoint
    obtain ⟨s', hrun, hholds, hframe⟩ := loadStashes_run hstashes henough hasc
      (List.pairwise_map.1 hdis) hload hdrop (hroom hlen)
    refine ⟨overlap, s', ?_, ?_⟩
    · rw [heq, loadRest, bind_ok hrun]
      rfl
    · intro p hp
      rcases List.mem_append.1 hp with hp | hp
      · obtain ⟨r, hr, rfl⟩ := Option.map_eq_some_iff.1 (Option.mem_toList.1 hp)
        refine (hsrc r hr).frame fun b hb => hframe b fun t ht => ?_
        exact hapart _ hp _ (List.mem_map_of_mem ht) b hb
      · obtain ⟨t, ht, rfl⟩ := List.mem_map.1 hp
        exact hholds t ht
  · intro p hp before r after hranges
    have hascending := hparts.ascending p hp
    have hpos := p.locs.pos
    rw [hranges] at hascending hpos
    exact packed_below hascending hpos

/-- Block 0 of the device goes to block 1 of the buffer, a stash to block 0. -/
def twoPlaces : St :=
  { St.zeros none [] with
    disk.stash := (∅ : AList fun _ : String => List UInt8).insert "aa" (List.replicate BLOCKSIZE 7)
    params.tokens := ["2", "2,0,1", "2,1,2", "aa:2,0,1"] }

theorem loadSourceBlocks_places_two :
    ∃ overlap s', loadSourceBlocks Env.small (RangeSet.ofPairs [(2, 3)]) twoPlaces =
        .ok (some (2, overlap)) s' ∧
      block s'.params.buffer 1 = devBlock (fun _ => 0) 0 ∧
      block s'.params.buffer 0 = List.replicate BLOCKSIZE 7 := by
  have hfirst : RangeSet.parse Env.small.base "2,0,1" = RangeSet.ofPairs [(0, 1)] := rfl
  have hword : StashWord Env.small twoPlaces "aa:2,0,1"
      (RangeSet.ofPairs [(0, 1)], List.replicate BLOCKSIZE 7) := {
    parts := ⟨"aa", "2,0,1", rfl, hfirst, loadable_file rfl rfl (by simp)⟩
    valid := rfl }
  have hwords : SourceWords Env.small twoPlaces 2 ["2", "2,0,1", "2,1,2", "aa:2,0,1"]
      ⟨some (RangeSet.ofPairs [(0, 1)], RangeSet.ofPairs [(1, 2)]),
        [(RangeSet.ofPairs [(0, 1)], List.replicate BLOCKSIZE 7)]⟩ := by
    refine .ranges (by decide) (by decide) rfl ?_ rfl (.cons hword .nil)
    intro r hr
    rw [hfirst] at hr
    obtain rfl := List.mem_singleton.1 (show r ∈ [(0, 1)] from hr)
    decide
  have hparts : Partitions [srcPlace (fun _ => 0) (RangeSet.ofPairs [(0, 1)])
      (RangeSet.ofPairs [(1, 2)]),
      stashPlace (RangeSet.ofPairs [(0, 1)], List.replicate BLOCKSIZE 7)] 2 := {
    ascending := by
      intro p hp
      rcases List.mem_cons.1 hp with rfl | hp
      · exact List.pairwise_singleton _ _
      · obtain rfl := List.mem_singleton.1 hp
        exact List.pairwise_singleton _ _
    disjoint := by
      refine List.pairwise_pair.2 ?_
      intro b hb hb'
      have h1 : b ∈ [1] := hb
      have h0 : b ∈ [0] := hb'
      simp only [List.mem_singleton] at h1 h0
      omega
    cover := by
      intro b
      simp only [List.mem_cons, List.not_mem_nil, or_false, exists_eq_or_imp, exists_eq_left]
      change b < 2 ↔ b ∈ [1] ∨ b ∈ [0]
      simp only [List.mem_singleton]
      omega }
  obtain ⟨hiff, -⟩ := loadSourceBlocks_places_iff Env.small (RangeSet.ofPairs [(2, 3)])
    (s := twoPlaces) (fun _ h => absurd h List.not_mem_nil) hwords hparts
  obtain ⟨overlap, s', hrun, hholds⟩ := hiff.2 ⟨by
    intro r hr
    cases hr
    exact Nat.le_trans (by decide) (Nat.le_max_right _ _), by
    intro t ht
    rw [List.mem_singleton.1 ht, List.length_replicate]
    exact Nat.le_of_eq (Nat.one_mul _)⟩
  refine ⟨overlap, s', hrun, ?_, ?_⟩
  · exact hholds _ List.mem_cons_self 0 1 _ rfl rfl
  · have hstash := hholds _ (List.mem_cons_of_mem _ List.mem_cons_self) 0 0
      (block (List.replicate BLOCKSIZE 7) 0) rfl (by
        simp only [stashPlace, List.length_replicate, Nat.zero_add, Nat.one_mul, Nat.le_refl,
          if_true])
    rw [hstash]
    simp [block, slice]

/-- A source range of two blocks, for a source of one. -/
def twoForOne : St := { St.zeros none [] with params.tokens := ["1", "2,0,2", "2,0,1"] }

/-- Its location covers the source, and its second block is read behind the buffer. -/
theorem source_overrun :
    ¬ ∀ (s : St) (n : Nat) (src : Sources), NoFaults s →
      SourceWords Env.small s n (s.params.tokens.drop s.params.cpos) src →
      Partitions (src.places s.disk.dev) n →
      ∃ overlap s', loadSourceBlocks Env.small (RangeSet.ofPairs [(2, 3)]) s =
          .ok (some (n, overlap)) s' ∧ ∀ p ∈ src.places s.disk.dev, p.Holds s'.params.buffer := by
  intro h
  have hparse : RangeSet.parse Env.small.base "2,0,2" = RangeSet.ofPairs [(0, 2)] := rfl
  have hwords : SourceWords Env.small twoForOne 1 ["1", "2,0,2", "2,0,1"]
      ⟨some (RangeSet.ofPairs [(0, 2)], RangeSet.ofPairs [(0, 1)]), []⟩ := by
    refine .ranges (by decide) (by decide) rfl ?_ rfl .nil
    intro r hr
    rw [hparse] at hr
    obtain rfl := List.mem_singleton.1 (show r ∈ [(0, 2)] from hr)
    decide
  have hparts : Partitions [srcPlace (fun _ => 0) (RangeSet.ofPairs [(0, 2)])
      (RangeSet.ofPairs [(0, 1)])] 1 := {
    ascending := by
      intro p hp
      rw [List.mem_singleton.1 hp]
      exact List.pairwise_singleton _ _
    disjoint := List.pairwise_singleton _ _
    cover := by
      intro b
      simp only [List.mem_singleton, exists_eq_left]
      change b < 1 ↔ b ∈ [0]
      simp only [List.mem_singleton]
      omega }
  have hno : NoFaults twoForOne := fun _ h => absurd h List.not_mem_nil
  obtain ⟨overlap, s', hrun, -⟩ := h twoForOne 1 _ hno hwords hparts
  have hroom := loadSourceBlocks_room (by decide) hwords hrun _ rfl
  exact absurd hroom (by decide)

end Recovery.BlockImg
