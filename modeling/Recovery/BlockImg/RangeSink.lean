import Recovery.BlockImg.Device

/-!
# `RangeSinkWriter`

The writer hands consecutive pieces of a byte stream to the blocks of a range set.

## Sizes

The numbers of a parsed set are at most `INT_MAX` (`RangeSet.parse_le`), so the offset and the bytes
of one range do not wrap; the bytes of a whole set may.

* `Small tgt` — the bytes of every single range are a `size_t`.
* `availableSpace` — the code's value, with the wrap; `remainder` — how many bytes are missing.
* `availableSpace_eq` — they are the same for a set of fewer than `2 ^ 64` bytes.

## Positions

* `byteAddrs` — the byte addresses of a list of ranges, in order.
* `At w s` — the writer's cursor invariant: the addresses still to be written are what is left of
  the current range from the descriptor's offset on, followed by the ranges not yet started.
* `Agree R d d'` — stores that agree outside the addresses `R`.

## What an operation does

* `Acted`, `Died` — an operation within some addresses has returned, or was cut by a power loss.
* `Bad` — why it may fail.
* `write_spec` — a `Write` of at most the missing bytes either takes all its data, which then stands
  at the next addresses of the set, or it is short and a device operation has failed.
-/

set_option autoImplicit false

namespace Recovery.BlockImg

open Recovery.Lib Recovery.OtaUtil

structure RangeSinkWriter where
  tgt : RangeSet
  nextRange : Nat
  currentRangeLeft : Nat
  bytesWritten : Nat

namespace RangeSinkWriter

/-- `RangeSinkWriter(fd, tgt)`. -/
def new (tgt : RangeSet) : RangeSinkWriter := ⟨tgt, 0, 0, 0⟩

def finished (w : RangeSinkWriter) : Bool :=
  w.nextRange == w.tgt.size && w.currentRangeLeft == 0

/-- A `size_t`, like the product.  Nothing else looks at `bytesWritten`, so the count itself need not
be reduced. -/
def availableSpace (w : RangeSinkWriter) : Nat :=
  (blockBytes w.tgt.blocks + (2 ^ 64 - w.bytesWritten % 2 ^ 64)) % 2 ^ 64

variable (E : Env)

def seekToOutputRange (w : RangeSinkWriter) : M (Bool × RangeSinkWriter) := do
  if w.currentRangeLeft ≠ 0 then return (true, w)
  else match w.tgt.ranges[w.nextRange]? with
    | none => return (false, w)
    | some range =>
      let offset := range.1 * BLOCKSIZE
      let w := { w with
        currentRangeLeft := blockBytes (Range.blocks range), nextRange := w.nextRange + 1 }
      if ← discardBlocks E offset w.currentRangeLeft then
        if ← checkLseek offset then return (true, w)
        else return (false, w)
      else return (false, w)

/-- The loop of `Write`; every round writes at least one byte, or moves on to the next range. -/
def writeLoop : Nat → List UInt8 → Nat → RangeSinkWriter → M (Nat × RangeSinkWriter)
  | 0, _, written, w => return (written, w)
  | fuel + 1, data, written, w => do
    if data = [] then return (written, w)
    else
      match ← w.seekToOutputRange E with
      | (false, w) => return (written, w)
      | (true, w) =>
        let writeNow := min data.length w.currentRangeLeft
        if ← writeAll E (data.take writeNow) then
          writeLoop fuel (data.drop writeNow) (written + writeNow)
            { w with currentRangeLeft := w.currentRangeLeft - writeNow }
        else return (written, w)

/-- `Write`: the number of bytes taken. -/
def write (w : RangeSinkWriter) (data : List UInt8) : M (Nat × RangeSinkWriter) := do
  if w.finished then return (0, w)
  else
    let (written, w') ← writeLoop E (data.length + w.tgt.size) data 0 w
    return (written, { w' with bytesWritten := w'.bytesWritten + written })

end RangeSinkWriter

/-! ## Operations on the device -/

/-- Some operation may fail. -/
def Faulty (s : St) : Prop := ∃ n, Fate.fail n ∈ s.fates

/-- A power loss may lie ahead. -/
def Doomed (s : St) : Prop := ∃ n, Fate.crash n ∈ s.fates

/-- Only the device and the descriptor may differ, and some fates may be used up. -/
def DeviceOnly (s s' : St) : Prop :=
  ∃ dev pos fates err, fates <:+ s.fates ∧
    s' = { s with disk.dev := dev, pos := pos, fates := fates, devError := err }

theorem DeviceOnly.refl (s : St) : DeviceOnly s s := ⟨_, _, _, _, List.suffix_rfl, rfl⟩

theorem DeviceOnly.trans {a b c : St} (h : DeviceOnly a b) (h' : DeviceOnly b c) :
    DeviceOnly a c := by
  obtain ⟨_, _, _, _, hf, rfl⟩ := h
  obtain ⟨dev, pos, fates, err, hf', rfl⟩ := h'
  exact ⟨dev, pos, fates, err, hf'.trans hf, rfl⟩

theorem DeviceOnly.suffix {s s' : St} (h : DeviceOnly s s') : s'.fates <:+ s.fates := by
  obtain ⟨_, _, _, _, hf, rfl⟩ := h
  exact hf

theorem Faulty.of_suffix {s s' : St} (hs : s'.fates <:+ s.fates) (h : Faulty s') : Faulty s :=
  h.imp fun _ hn => hs.subset hn

theorem Doomed.of_suffix {s s' : St} (hs : s'.fates <:+ s.fates) (h : Doomed s') : Doomed s :=
  h.imp fun _ hn => hs.subset hn

/-- Stores that agree outside `R`. -/
def Agree {α : Type} (R : List Nat) (d d' : Nat → α) : Prop := ∀ i, i ∉ R → d' i = d i

theorem Agree.refl {α : Type} (R : List Nat) (d : Nat → α) : Agree R d d := fun _ _ => rfl

theorem Agree.trans {α : Type} {R : List Nat} {a b c : Nat → α} (h : Agree R a b)
    (h' : Agree R b c) : Agree R a c := fun i hi => (h' i hi).trans (h i hi)

theorem Agree.mono {α : Type} {R R' : List Nat} {a b : Nat → α} (h : Agree R a b)
    (hs : ∀ i ∈ R, i ∈ R') : Agree R' a b := fun i hi => h i fun hr => hi (hs i hr)

/-- A write leaves the cells at other addresses alone. -/
theorem agree_fill {α : Type} (d : Nat → α) (as : List Nat) (bs : List α) :
    Agree as d (fill d as bs) := fun _ hi => fill_of_notMem hi

/-- A write to the first addresses of a region shrinks the region of doubt. -/
theorem Agree.fill {α : Type} {as R : List Nat} {d d' : Nat → α} (h : Agree (as ++ R) d d')
    {bs : List α} (hl : as.length ≤ bs.length) :
    Agree R (Lib.fill d as bs) (Lib.fill d' as bs) := by
  intro i hi
  by_cases ha : i ∈ as
  · exact fill_congr_of_mem ha hl
  · rw [fill_of_notMem ha, fill_of_notMem ha]
    exact h i (by rw [List.mem_append, not_or]; exact ⟨ha, hi⟩)

/-- The same write at the start of a region. -/
theorem Agree.fill_start {α : Type} {R : List Nat} {d d' : Nat → α} (h : Agree R d d')
    (bs : List α) : Agree (R.drop bs.length) (Lib.fill d R bs) (Lib.fill d' R bs) := by
  rw [← fill_take_left d, ← fill_take_left d']
  refine Agree.fill ?_ (by rw [List.length_take]; lia)
  rwa [List.take_append_drop]

/-- Why an operation within `R` may fail: a fault, a discard on something that is no block device,
or an address beyond the device. -/
def Bad (E : Env) (R : List Nat) (s : St) : Prop :=
  Faulty s ∨ (E.isRetry = true ∧ E.isBlk = false) ∨ ∃ a ∈ R, E.devSize ≤ a

/-- An operation within `R` was cut by a power loss. -/
structure Died (R : List Nat) (s : St) (e : Stop) (s' : St) : Prop where
  stop : e = .crash
  doomed : Doomed s
  only : DeviceOnly s s'
  frame : Agree R s.disk.dev s'.disk.dev

/-- An operation within `R` returned `b`; a failure is on record. -/
structure Acted (E : Env) (R : List Nat) (s : St) (b : Bool) (s' : St) : Prop where
  only : DeviceOnly s s'
  frame : Agree R s.disk.dev s'.disk.dev
  ok : b = true → s'.devError = s.devError
  failed : b = false → s'.devError = true ∧ Bad E R s

theorem Acted.mono {E : Env} {R R' : List Nat} {s s' : St} {b : Bool} (h : Acted E R s b s')
    (hs : ∀ i ∈ R, i ∈ R') : Acted E R' s b s' :=
  ⟨h.only, h.frame.mono hs, h.ok, fun hb => ⟨(h.failed hb).1, (h.failed hb).2.imp_right
    (Or.imp_right fun ⟨a, ha, hd⟩ => ⟨a, hs a ha, hd⟩)⟩⟩

theorem Died.mono {R R' : List Nat} {s s' : St} {e : Stop} (h : Died R s e s')
    (hs : ∀ i ∈ R, i ∈ R') : Died R' s e s' :=
  ⟨h.stop, h.doomed, h.only, h.frame.mono hs⟩

theorem Acted.refl (E : Env) (R : List Nat) (s : St) : Acted E R s true s :=
  ⟨.refl s, .refl _ _, fun _ => rfl, nofun⟩

/-- One operation after another. -/
theorem Acted.trans {E : Env} {R : List Nat} {s s₁ s' : St} {b : Bool} (h : Acted E R s true s₁)
    (h' : Acted E R s₁ b s') : Acted E R s b s' :=
  ⟨h.only.trans h'.only, h.frame.trans h'.frame, fun hb => (h'.ok hb).trans (h.ok rfl),
    fun hb => ⟨(h'.failed hb).1, (h'.failed hb).2.imp_left (Faulty.of_suffix h.only.suffix)⟩⟩

theorem Died.after {E : Env} {R : List Nat} {s s₁ s' : St} {e : Stop} (h' : Died R s₁ e s')
    (h : Acted E R s true s₁) : Died R s e s' :=
  ⟨h'.stop, h'.doomed.of_suffix h.only.suffix, h.only.trans h'.only, h.frame.trans h'.frame⟩

theorem nextFate_spec (s : St) : ∃ f fs, nextFate s = .ok f { s with fates := fs } ∧
    fs <:+ s.fates ∧ (f = .ok ∨ (∃ n, f = .fail n ∧ Faulty s) ∨ ∃ n, f = .crash n ∧ Doomed s) := by
  unfold nextFate
  cases hf : s.fates with
  | nil =>
    have hs : s = { s with fates := [] } := by
      cases s
      simp_all
    exact ⟨.ok, [], by rw [← hs], List.suffix_rfl, Or.inl rfl⟩
  | cons f fs =>
    refine ⟨f, fs, rfl, List.suffix_cons f fs, ?_⟩
    cases f with
    | ok => exact Or.inl rfl
    | fail n => exact Or.inr (Or.inl ⟨n, rfl, n, by rw [hf]; exact List.mem_cons_self⟩)
    | crash n => exact Or.inr (Or.inr ⟨n, rfl, n, by rw [hf]; exact List.mem_cons_self⟩)

theorem checkLseek_spec (E : Env) (s : St) (offset : Nat) :
    Outcome (checkLseek offset) s
      (fun b s' => Acted E [] s b s' ∧ s'.disk.dev = s.disk.dev ∧ (b = true → s'.pos = offset))
      (Died [] s) := by
  obtain ⟨f, fs, hn, hs, hf⟩ := nextFate_spec s
  rw [Outcome, checkLseek, ioOk, bind_assoc, bind_ok hn]
  rcases hf with rfl | ⟨n, rfl, hfault⟩ | ⟨n, rfl, hdoom⟩
  · exact ⟨⟨⟨_, _, _, _, hs, rfl⟩, .refl _ _, fun _ => rfl, (absurd ·.symm Bool.false_ne_true)⟩, rfl,
      fun _ => rfl⟩
  · exact ⟨⟨⟨_, _, _, _, hs, rfl⟩, .refl _ _, (absurd · Bool.false_ne_true),
      fun _ => ⟨rfl, Or.inl hfault⟩⟩, rfl, (absurd · Bool.false_ne_true)⟩
  · exact ⟨rfl, hdoom, ⟨_, _, _, _, hs, rfl⟩, .refl _ _⟩

theorem discardBlocks_spec (E : Env) (s : St) (offset size : Nat) :
    Outcome (discardBlocks E offset size) s (Acted E (List.range' offset size) s)
      (Died (List.range' offset size) s) := by
  unfold discardBlocks
  split
  · exact Acted.refl E _ s
  rename_i hretry
  have hpart : ∀ k, k ≤ size → Agree (List.range' offset size) s.disk.dev
      (fill s.disk.dev (List.range' offset k) ((List.range' offset k).map E.discarded)) := by
    intro k hk
    refine (agree_fill _ _ _).mono fun i hi => ?_
    rw [List.mem_range'_1] at hi ⊢
    lia
  have hmin : ∀ n, (if E.isBlk then min n size else 0) ≤ size := fun n => by split <;> lia
  obtain ⟨f, fs, hn, hs, hf⟩ := nextFate_spec s
  rw [Outcome, blkDiscard, bind_ok hn]
  rcases hf with rfl | ⟨n, rfl, hfault⟩ | ⟨n, rfl, hdoom⟩
  · cases hb : E.isBlk
    · exact ⟨⟨_, _, _, _, hs, rfl⟩, .refl _ _, (absurd · Bool.false_ne_true),
        fun _ => ⟨rfl, Or.inr (Or.inl ⟨not_not.1 hretry, hb⟩)⟩⟩
    · exact ⟨⟨_, _, _, _, hs, rfl⟩, hpart size (Nat.le_refl _), fun _ => rfl,
        (absurd ·.symm Bool.false_ne_true)⟩
  · exact ⟨⟨_, _, _, _, hs, rfl⟩, hpart _ (hmin n), (absurd · Bool.false_ne_true),
      fun _ => ⟨rfl, Or.inl hfault⟩⟩
  · exact ⟨rfl, hdoom, ⟨_, _, _, _, hs, rfl⟩, hpart _ (hmin n)⟩

theorem writeAll_spec (E : Env) (s : St) (data : List UInt8) :
    Outcome (writeAll E data) s
      (fun b s' => Acted E (List.range' s.pos data.length) s b s' ∧
        (b = true → s'.pos = s.pos + data.length ∧
          s'.disk.dev = fill s.disk.dev (List.range' s.pos data.length) data))
      (Died (List.range' s.pos data.length) s) := by
  have hpart : ∀ k, Agree (List.range' s.pos data.length) s.disk.dev
      (fill s.disk.dev (List.range' s.pos (data.take k).length) (data.take k)) := by
    intro k
    refine (agree_fill _ _ _).mono fun i hi => ?_
    rw [List.mem_range'_1] at hi ⊢
    rw [List.length_take] at hi
    omega
  obtain ⟨f, fs, hn, hs, hf⟩ := nextFate_spec s
  unfold writeAll
  refine Outcome.bind_get (Outcome.bind_run hn ?_)
  rcases hf with rfl | ⟨n, rfl, hfault⟩ | ⟨n, rfl, hdoom⟩
  · refine Outcome.bind_modify ?_
    by_cases hroom : data.length ≤ E.devSize - s.pos
    · rw [if_pos hroom, List.take_of_length_le hroom]
      exact ⟨⟨⟨_, _, _, _, hs, rfl⟩, agree_fill _ _ _, fun _ => rfl, nofun⟩,
        fun _ => ⟨rfl, rfl⟩⟩
    · rw [if_neg hroom]
      have hbad : Bad E (List.range' s.pos data.length) s :=
        Or.inr (Or.inr ⟨s.pos + data.length - 1, by rw [List.mem_range'_1]; omega, by omega⟩)
      exact ⟨⟨⟨_, _, _, _, hs, rfl⟩, hpart _, nofun, fun _ => ⟨rfl, hbad⟩⟩, nofun⟩
  · exact ⟨⟨⟨_, _, _, _, hs, rfl⟩, hpart _, nofun, fun _ => ⟨rfl, Or.inl hfault⟩⟩, nofun⟩
  · exact ⟨rfl, hdoom, ⟨_, _, _, _, hs, rfl⟩, hpart _⟩

/-! ## The cursor of a writer -/

/-- The bytes of every single range are a `size_t`. -/
def Small (tgt : RangeSet) : Prop := ∀ r ∈ tgt.ranges, Range.blocks r * BLOCKSIZE < 2 ^ 64

theorem small_of_le {tgt : RangeSet} (h : ∀ r ∈ tgt.ranges, r.2 ≤ INT_MAX) : Small tgt := by
  intro r hr
  have hle := h r hr
  unfold INT_MAX at hle
  unfold Range.blocks BLOCKSIZE
  omega

theorem small_parse (B : AndroidBase) (rangeText : String) : Small (RangeSet.parse B rangeText) :=
  small_of_le (RangeSet.parse_le B rangeText)

theorem Small.bytes {tgt : RangeSet} (h : Small tgt) {r : Range} (hr : r ∈ tgt.ranges) :
    blockBytes (Range.blocks r) = Range.blocks r * BLOCKSIZE := Nat.mod_eq_of_lt (h r hr)

/-- A range of a set holds at least one byte. -/
theorem range_bytes_pos {r : Range} (h : r.1 < r.2) : 0 < Range.blocks r * BLOCKSIZE :=
  Nat.mul_pos (Nat.sub_pos_of_lt h) (by decide)

/-- The byte addresses of a list of ranges, in order. -/
def byteAddrs (ranges : List Range) : List Nat :=
  ranges.flatMap fun r => List.range' (r.1 * BLOCKSIZE) (Range.blocks r * BLOCKSIZE)

theorem byteAddrs_length (ranges : List Range) :
    (byteAddrs ranges).length = (ranges.map Range.blocks).sum * BLOCKSIZE := by
  induction ranges with
  | nil => simp [byteAddrs]
  | cons r ranges ih =>
    rw [byteAddrs, List.flatMap_cons, List.length_append, ← byteAddrs, ih, List.length_range',
      List.map_cons, List.sum_cons, Nat.add_mul]

theorem byteAddrs_drop_cons {ranges : List Range} {k : Nat} {r : Range}
    (h : ranges[k]? = some r) :
    byteAddrs (ranges.drop k) =
      List.range' (r.1 * BLOCKSIZE) (Range.blocks r * BLOCKSIZE) ++
        byteAddrs (ranges.drop (k + 1)) := by
  obtain ⟨hk, rfl⟩ := List.getElem?_eq_some_iff.1 h
  rw [List.drop_eq_getElem_cons hk, byteAddrs, List.flatMap_cons, ← byteAddrs]

namespace RangeSinkWriter

/-- Addresses the writer has still to write. -/
def rest (w : RangeSinkWriter) : List Nat := (byteAddrs w.tgt.ranges).drop w.bytesWritten

/-- How many bytes are missing. -/
def remainder (w : RangeSinkWriter) : Nat := w.tgt.blocks * BLOCKSIZE - w.bytesWritten

theorem availableSpace_eq {w : RangeSinkWriter} (hfit : w.tgt.blocks * BLOCKSIZE < 2 ^ 64)
    (hle : w.bytesWritten ≤ w.tgt.blocks * BLOCKSIZE) : w.availableSpace = w.remainder := by
  rw [availableSpace, remainder, blockBytes]
  omega

/-- Cursor of a writer that has taken `n` bytes beyond those it has accounted for. -/
structure AtBytes (w : RangeSinkWriter) (n : Nat) (s : St) : Prop where
  small : Small w.tgt
  le : n ≤ w.remainder
  next_le : w.nextRange ≤ w.tgt.ranges.length
  eq : w.rest.drop n =
    List.range' s.pos w.currentRangeLeft ++ byteAddrs (w.tgt.ranges.drop w.nextRange)

/-- Cursor invariant between two calls of `Write`. -/
def At (w : RangeSinkWriter) (s : St) : Prop := AtBytes w 0 s

/-- The first addresses of a stretch. -/
theorem range'_split {p k n : Nat} (h : k ≤ n) :
    List.range' p n = List.range' p k ++ List.range' (p + k) (n - k) := by
  rw [List.range'_append_1, Nat.add_sub_cancel' h]

theorem new_at {tgt : RangeSet} (hsmall : Small tgt) (s : St) : (new tgt).At s :=
  ⟨hsmall, Nat.zero_le _, Nat.zero_le _, by simp [new, rest]⟩

theorem rest_length (w : RangeSinkWriter) : w.rest.length = w.remainder := by
  rw [rest, List.length_drop, byteAddrs_length, ← w.tgt.blocks_eq, remainder]

theorem AtBytes.length {w : RangeSinkWriter} {n : Nat} {s : St} (h : w.AtBytes n s) :
    w.remainder - n =
      w.currentRangeLeft + (byteAddrs (w.tgt.ranges.drop w.nextRange)).length := by
  rw [← w.rest_length, ← List.length_drop, h.eq, List.length_append, List.length_range']

theorem rest_congr {w w' : RangeSinkWriter} (ht : w'.tgt = w.tgt)
    (hb : w'.bytesWritten = w.bytesWritten) : w'.rest = w.rest := by
  rw [rest, rest, ht, hb]

theorem remainder_congr {w w' : RangeSinkWriter} (ht : w'.tgt = w.tgt)
    (hb : w'.bytesWritten = w.bytesWritten) : w'.remainder = w.remainder := by
  rw [remainder, remainder, ht, hb]

/-- Looking for the next byte: the writer stands at one, or the set is used up, or a device
operation has failed. -/
theorem seekToOutputRange_spec (E : Env) {w : RangeSinkWriter} {n : Nat} {s : St}
    (hat : w.AtBytes n s) :
    Outcome (w.seekToOutputRange E) s
      (fun r s' => r.2.tgt = w.tgt ∧ r.2.bytesWritten = w.bytesWritten ∧
        (r.1 = true → Acted E (w.rest.drop n) s true s' ∧ r.2.AtBytes n s' ∧
          0 < r.2.currentRangeLeft) ∧
        (r.1 = false → n < w.remainder → Acted E (w.rest.drop n) s false s'))
      (Died (w.rest.drop n) s) := by
  unfold seekToOutputRange
  by_cases hcur : w.currentRangeLeft = 0
  · rw [if_neg (not_not.2 hcur)]
    cases hr : w.tgt.ranges[w.nextRange]? with
    | none =>
      refine Outcome.pure ⟨rfl, rfl, nofun, fun _ hlt => ?_⟩
      have hl := hat.length
      have hlen : w.tgt.ranges.length ≤ w.nextRange := List.getElem?_eq_none_iff.1 hr
      rw [hcur, List.drop_of_length_le hlen] at hl
      simp only [byteAddrs, List.flatMap_nil, List.length_nil] at hl
      omega
    | some r =>
      have hrest : w.rest.drop n = List.range' (r.1 * BLOCKSIZE) (Range.blocks r * BLOCKSIZE) ++
          byteAddrs (w.tgt.ranges.drop (w.nextRange + 1)) := by
        rw [hat.eq, hcur, byteAddrs_drop_cons hr]; simp
      have hpos := range_bytes_pos (w.tgt.pos r (List.mem_of_getElem? hr))
      have hmem : ∀ i ∈ List.range' (r.1 * BLOCKSIZE) (Range.blocks r * BLOCKSIZE),
          i ∈ w.rest.drop n := fun i hi => by rw [hrest]; exact List.mem_append_left _ hi
      have hbytes := hat.small.bytes (List.mem_of_getElem? hr)
      obtain ⟨w', hw'⟩ : ∃ w' : RangeSinkWriter, w' = { w with
          currentRangeLeft := blockBytes (Range.blocks r), nextRange := w.nextRange + 1 } :=
        ⟨_, rfl⟩
      have ht : w'.tgt = w.tgt := by rw [hw']
      have hb : w'.bytesWritten = w.bytesWritten := by rw [hw']
      dsimp only
      rw [← hw', hbytes]
      refine Outcome.bind ((discardBlocks_spec E s (r.1 * BLOCKSIZE) _).weaken
        (fun _ _ => id) fun _ _ hd => ?_) ?_
      · exact hd.mono hmem
      intro b s1 h1
      have h1 := h1.mono hmem
      cases b with
      | false => exact Outcome.pure ⟨ht, hb, nofun, fun _ _ => h1⟩
      | true =>
        refine Outcome.bind ((checkLseek_spec E s1 (r.1 * BLOCKSIZE)).weaken
          (fun _ _ => id) fun _ _ hd => (hd.mono nofun).after h1) ?_
        rintro b s2 ⟨h2, hd2, hp2⟩
        have h2 : Acted E (w.rest.drop n) s b s2 := h1.trans (h2.mono nofun)
        cases b with
        | false => exact Outcome.pure ⟨ht, hb, nofun, fun _ _ => h2⟩
        | true =>
          refine Outcome.pure ⟨ht, hb, fun _ => ⟨h2, ⟨ht ▸ hat.small, ?_, ?_, ?_⟩, ?_⟩, nofun⟩
          · rw [remainder_congr ht hb]
            exact hat.le
          · rw [hw']
            exact (List.getElem?_eq_some_iff.1 hr).1
          · rw [rest_congr ht hb, hp2 rfl, hw', hrest, hbytes]
          · rw [hw', hbytes]
            exact hpos
  · rw [if_pos hcur]
    exact Outcome.pure ⟨rfl, rfl, fun _ => ⟨.refl E _ s, hat, Nat.pos_of_ne_zero hcur⟩, nofun⟩

/-- The addresses of the next bytes of the current range. -/
theorem AtBytes.next {w : RangeSinkWriter} {m k : Nat} {s : St} (h : w.AtBytes m s)
    (hk : k ≤ w.currentRangeLeft) :
    w.rest.drop m = List.range' s.pos k ++ w.rest.drop (m + k) ∧
      w.rest.drop (m + k) = List.range' (s.pos + k) (w.currentRangeLeft - k) ++
        byteAddrs (w.tgt.ranges.drop w.nextRange) := by
  have hrest := h.eq
  rw [range'_split hk, List.append_assoc] at hrest
  have hdrop := congrArg (List.drop k) hrest
  rw [List.drop_left' List.length_range', List.drop_drop] at hdrop
  exact ⟨hdrop ▸ hrest, hdrop⟩

/-- The cursor moves on within the current range. -/
theorem AtBytes.advance {w : RangeSinkWriter} {m k : Nat} {s s' : St} (h : w.AtBytes m s)
    (hk : k ≤ w.currentRangeLeft) (hpos : s'.pos = s.pos + k) :
    AtBytes { w with currentRangeLeft := w.currentRangeLeft - k } (m + k) s' := by
  have hlength := h.length
  refine ⟨h.small, ?_, h.next_le, ?_⟩
  · have hle := h.le
    change m + k ≤ w.remainder
    lia
  · dsimp only
    rw [hpos]
    exact (h.next hk).2

/-- What a call of `Write` establishes, for `n` bytes taken when it began with `m`. -/
structure Wrote (E : Env) (w w' : RangeSinkWriter) (s s' : St) (m n : Nat) (data : List UInt8) :
    Prop where
  tgt : w'.tgt = w.tgt
  bytes : w'.bytesWritten = w.bytesWritten
  outcome : (n = m + data.length ∧ Acted E w.rest s true s' ∧ w'.AtBytes n s' ∧
      Agree (w.rest.drop n) (fill s.disk.dev (w.rest.drop m) data) s'.disk.dev) ∨
    (n < m + data.length ∧ Acted E w.rest s false s')

theorem Wrote.nil (E : Env) {w : RangeSinkWriter} {m : Nat} {s : St} (h : w.AtBytes m s) :
    Wrote E w w s s m m [] :=
  ⟨rfl, rfl, .inl ⟨rfl, .refl E _ s, h, by rw [fill_nil_right]; exact .refl _ _⟩⟩

theorem writeLoop_spec (E : Env) : ∀ (fuel : Nat) (data : List UInt8) (m : Nat)
    (w : RangeSinkWriter) (s : St), data.length ≤ fuel → w.AtBytes m s →
    m + data.length ≤ w.remainder →
    Outcome (writeLoop E fuel data m w) s (fun r s' => Wrote E w r.2 s s' m r.1 data)
      (Died w.rest s) := by
  intro fuel
  induction fuel with
  | zero =>
    intro data m w s hf hat hle
    have hd : data = [] := List.eq_nil_of_length_eq_zero (by lia)
    subst hd
    exact Outcome.pure (.nil E hat)
  | succ fuel ih =>
    intro data m w s hf hat hle
    rw [writeLoop]
    by_cases hd : data = []
    · subst hd
      rw [if_pos rfl]
      exact Outcome.pure (.nil E hat)
    rw [if_neg hd]
    have hdpos : 0 < data.length := List.length_pos_of_ne_nil hd
    have hmem : ∀ i ∈ w.rest.drop m, i ∈ w.rest := fun i hi => List.mem_of_mem_drop hi
    refine Outcome.bind ((seekToOutputRange_spec E hat).weaken (fun _ _ => id)
      fun _ _ hdie => hdie.mono hmem) ?_
    rintro ⟨b, w1⟩ s1 ⟨ht1, hb1, htrue, hfalse⟩
    have hrest1 : w1.rest = w.rest := rest_congr ht1 hb1
    cases b with
    | false =>
      exact Outcome.pure ⟨ht1, hb1, Or.inr ⟨by lia, (hfalse rfl (by lia)).mono hmem⟩⟩
    | true =>
      obtain ⟨h1, hat1, hcur⟩ := htrue rfl
      dsimp only at ht1 hb1 hat1 hcur
      obtain ⟨k, hk⟩ : ∃ k, k = min data.length w1.currentRangeLeft := ⟨_, rfl⟩
      dsimp only
      rw [← hk]
      have hkpos : 0 < k := by lia
      have hlen : (data.take k).length = k := by rw [List.length_take]; lia
      have hleft : k ≤ w1.currentRangeLeft := by lia
      -- the bytes written are the next ones of the cursor
      have hsplit : w.rest.drop m = List.range' s1.pos k ++ w.rest.drop (m + k) :=
        hrest1 ▸ (hat1.next hleft).1
      have hmem2 : ∀ i ∈ List.range' s1.pos (data.take k).length, i ∈ w.rest := fun i hi =>
        hmem i (by rw [hsplit]; exact List.mem_append_left _ (by rwa [hlen] at hi))
      refine Outcome.bind ((writeAll_spec E s1 (data.take k)).weaken (fun _ _ => id)
        fun _ _ hdie => (hdie.mono hmem2).after (h1.mono hmem)) ?_
      rintro b s2 ⟨h2, hw2⟩
      have h12 := (h1.mono hmem).trans (h2.mono hmem2)
      cases b with
      | false => exact Outcome.pure ⟨ht1, hb1, Or.inr ⟨by lia, h12⟩⟩
      | true =>
        obtain ⟨hpos2, hdev2⟩ := hw2 rfl
        rw [hlen] at hpos2 hdev2
        obtain ⟨w2, hw2def⟩ : ∃ w2 : RangeSinkWriter,
            w2 = { w1 with currentRangeLeft := w1.currentRangeLeft - k } := ⟨_, rfl⟩
        have ht2 : w2.tgt = w.tgt := by rw [hw2def]; exact ht1
        have hb2 : w2.bytesWritten = w.bytesWritten := by rw [hw2def]; exact hb1
        have hrest2 : w2.rest = w.rest := rest_congr ht2 hb2
        have hav2 : w2.remainder = w.remainder := remainder_congr ht2 hb2
        have hat2 : w2.AtBytes (m + k) s2 := hw2def ▸ hat1.advance hleft hpos2
        have hddrop : (data.drop k).length = data.length - k := List.length_drop
        rw [if_pos rfl, ← hw2def]
        refine (ih (data.drop k) (m + k) w2 s2 (by lia) hat2 (by lia)).weaken ?_
          fun _ _ hdie => (hrest2 ▸ hdie).after h12
        rintro ⟨n, w3⟩ s3 hr
        refine ⟨hr.tgt.trans ht2, hr.bytes.trans hb2, ?_⟩
        have hout := hr.outcome
        rw [hrest2] at hout
        rcases hout with ⟨hn, h3, hat3, hag3⟩ | ⟨hn, h3⟩
        swap
        · exact Or.inr ⟨by lia, h12.trans h3⟩
        dsimp only at hn hag3
        refine Or.inl ⟨by lia, h12.trans h3, hat3, ?_⟩
        -- the two writes are one write of all the data
        have hjoin : fill s1.disk.dev (w.rest.drop m) data =
            fill s2.disk.dev (w.rest.drop (m + k)) (data.drop k) := by
          rw [hsplit, fill_append_left, hdev2,
            ← fill_take_right s1.disk.dev (List.range' s1.pos k) data, List.length_range']
        have hstart : Agree (w.rest.drop n) (fill s.disk.dev (w.rest.drop m) data)
            (fill s1.disk.dev (w.rest.drop m) data) := by
          rw [show n = m + data.length by lia, ← List.drop_drop]
          exact h1.frame.fill_start data
        rw [← hjoin] at hag3
        exact hstart.trans hag3

/-- The writer that has accounted for the bytes of the call. -/
theorem at_of_atBytes {w : RangeSinkWriter} {n : Nat} {s : St} (h : w.AtBytes n s) :
    ({ w with bytesWritten := w.bytesWritten + n } : RangeSinkWriter).At s := by
  refine ⟨h.small, Nat.zero_le _, h.next_le, ?_⟩
  rw [List.drop_zero, ← h.eq, rest, rest, List.drop_drop]

theorem finished_iff {w : RangeSinkWriter} {s : St} (hat : w.At s) :
    w.finished = true ↔ w.remainder = 0 := by
  have hl := hat.length
  rw [Nat.sub_zero] at hl
  rw [finished, Bool.and_eq_true, beq_iff_eq, beq_iff_eq, RangeSet.size, hl]
  constructor
  · rintro ⟨h1, h2⟩
    rw [h1, h2, List.drop_length]
    rfl
  · intro h
    refine ⟨?_, by lia⟩
    rcases Nat.lt_or_eq_of_le hat.next_le with hlt | heq
    · have hg := List.getElem?_eq_getElem hlt
      have hp := range_bytes_pos (w.tgt.pos _ (List.mem_of_getElem? hg))
      rw [byteAddrs_drop_cons hg, List.length_append, List.length_range'] at h
      lia
    · exact heq

/-- **`Write`** of at most the missing bytes: all the data stands at the next addresses of the
set, or the write is short and a device operation has failed. -/
theorem write_spec (E : Env) {w : RangeSinkWriter} {s : St} (data : List UInt8) (hat : w.At s)
    (hpos : 0 < w.remainder) (hle : data.length ≤ w.remainder) :
    Outcome (w.write E data) s
      (fun r s' => r.2.tgt = w.tgt ∧
        ((r.1 = data.length ∧ Acted E w.rest s true s' ∧
            r.2.bytesWritten = w.bytesWritten + data.length ∧ r.2.At s' ∧
            Agree (w.rest.drop data.length) (fill s.disk.dev w.rest data) s'.disk.dev) ∨
          (r.1 < data.length ∧ Acted E w.rest s false s')))
      (Died w.rest s) := by
  have hfin : w.finished ≠ true := by
    rw [Ne, finished_iff hat]
    lia
  unfold write
  rw [if_neg hfin]
  refine Outcome.bind (writeLoop_spec E _ data 0 w s (Nat.le_add_right _ _) hat (by lia)) ?_
  rintro ⟨n, w1⟩ s1 hr
  refine Outcome.pure ⟨hr.tgt, ?_⟩
  rcases hr.outcome with ⟨hn, h1, hat1, hag⟩ | ⟨hn, h1⟩
  · dsimp only at hn hag ⊢
    rw [Nat.zero_add] at hn
    refine Or.inl ⟨hn, h1, by rw [hr.bytes, hn], at_of_atBytes hat1, ?_⟩
    rwa [hn, List.drop_zero] at hag
  · dsimp only at hn
    exact Or.inr ⟨by lia, h1⟩

/-- Writing nothing. -/
theorem write_nil (E : Env) (w : RangeSinkWriter) (s : St) : w.write E [] s = .ok (0, w) s := by
  have hloop : ∀ fuel, writeLoop E fuel [] 0 w = pure (0, w) := by
    intro fuel
    cases fuel with
    | zero => rfl
    | succ fuel => rw [writeLoop, if_pos rfl]
  unfold write
  split
  · rfl
  · rw [hloop]
    rfl

/-- A set that `Parse` accepts can have `2 ^ 52` blocks. -/
theorem exists_wide : ∃ tgt : RangeSet, (∀ r ∈ tgt.ranges, r.2 ≤ INT_MAX) ∧ tgt.blocks = 2 ^ 52 := by
  have hn : ∃ n, n = 2 ^ 21 := ⟨_, rfl⟩
  obtain ⟨n, hn⟩ := hn
  have hmem : ∀ r ∈ (0, n) :: List.replicate n (0, INT_MAX), r.1 < r.2 ∧ r.2 ≤ INT_MAX := by
    refine List.forall_mem_cons.2 ⟨by rw [hn]; decide, fun r hr => ?_⟩
    rw [List.eq_of_mem_replicate hr]
    decide
  refine ⟨⟨_, 2 ^ 52, fun r hr => (hmem r hr).1, ?_⟩, fun r hr => (hmem r hr).2, rfl⟩
  rw [List.map_cons, List.sum_cons, List.map_replicate, List.sum_replicate_nat, hn]
  decide

end RangeSinkWriter

end Recovery.BlockImg
