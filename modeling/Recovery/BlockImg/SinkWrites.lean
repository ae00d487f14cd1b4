import Recovery.BlockImg.RangeSink

/-!
# The sink writes what `WriteBlocks` writes

`RangeSinkWriter` takes the bytes for a set in pieces; `WriteBlocks` has them in one buffer.  Both
are compared with a third, plain description.

## Plain writes

* `plainWrite` — a byte sequence written to ranges in order, range by range; on a retry each range
  is discarded before its first byte.
* `agree_plainWrite` — it touches nothing outside the ranges.
* `writeBlocksLoop_does` — `WriteBlocks` is `plainWrite` of the whole buffer.

## The writer

* `Cursor` — where the cursor stands: between two ranges, or inside one.
* `write_does` — a `Write` appends its piece to what has been written plainly, or an operation has
  failed, or the piece does not fit.
* `OnlyCrashes` — also after an error, only a power loss stops the calls.

## Results

* `writes_plain` — for every splitting into calls of `Write`, the device is that of `plainWrite` of
  the concatenation, and `Finished` and `AvailableSpace` count its bytes; or an operation may fail.
* `wide_unavailable` — for a set of `2 ^ 52` blocks `AvailableSpace` is 0 from the start.
-/

set_option autoImplicit false

namespace Recovery.BlockImg

open Recovery.Lib Recovery.OtaUtil

/-! ## Plain writes -/

def rangeAddrs (r : Range) : List Nat := List.range' (r.1 * BLOCKSIZE) (Range.blocks r * BLOCKSIZE)

theorem rangeAddrs_length (r : Range) : (rangeAddrs r).length = Range.blocks r * BLOCKSIZE :=
  List.length_range'

theorem byteAddrs_cons (r : Range) (ranges : List Range) :
    byteAddrs (r :: ranges) = rangeAddrs r ++ byteAddrs ranges := rfl

theorem byteAddrs_append (before after : List Range) :
    byteAddrs (before ++ after) = byteAddrs before ++ byteAddrs after := by
  simp [byteAddrs]

/-- The device after `discard_blocks` of a range. -/
def discardRange (E : Env) (d : Nat → UInt8) (r : Range) : Nat → UInt8 :=
  if E.isRetry then fill d (rangeAddrs r) ((rangeAddrs r).map E.discarded) else d

/-- Write `data` to the ranges in order; a range without data is left alone. -/
def plainWrite (E : Env) : List Range → List UInt8 → (Nat → UInt8) → Nat → UInt8
  | [], _, d => d
  | r :: ranges, data, d =>
    if data = [] then d
    else plainWrite E ranges (data.drop (Range.blocks r * BLOCKSIZE))
      (fill (discardRange E d r) (rangeAddrs r) data)

variable {E : Env}

@[simp] theorem plainWrite_nil (ranges : List Range) (d : Nat → UInt8) :
    plainWrite E ranges [] d = d := by
  cases ranges <;> simp [plainWrite]

/-- A full range, and the ranges after it. -/
theorem plainWrite_append {before : List Range} (hpos : ∀ r ∈ before, r.1 < r.2)
    (after : List Range) {D : List UInt8} (D' : List UInt8)
    (hlen : D.length = (byteAddrs before).length) (d : Nat → UInt8) :
    plainWrite E (before ++ after) (D ++ D') d = plainWrite E after D' (plainWrite E before D d) := by
  induction before generalizing D d with
  | nil =>
    have hnil : D = [] := List.eq_nil_of_length_eq_zero hlen
    simp [hnil]
  | cons r before ih =>
    have hr := hpos r List.mem_cons_self
    rw [byteAddrs_cons, List.length_append, rangeAddrs_length] at hlen
    have hsize := range_bytes_pos hr
    have hne : D ≠ [] := by
      rintro rfl
      rw [List.length_nil] at hlen
      omega
    have hfill : fill (discardRange E d r) (rangeAddrs r) (D ++ D') =
        fill (discardRange E d r) (rangeAddrs r) D := by
      rw [fill_append_right, List.drop_of_length_le (by rw [rangeAddrs_length]; omega),
        fill_nil_left]
    rw [List.cons_append, plainWrite, plainWrite, if_neg (by simp [hne]), if_neg hne, hfill,
      List.drop_append_of_le_length (by omega)]
    apply ih
    · intro r' hr'
      exact hpos r' (List.mem_cons_of_mem _ hr')
    · rw [List.length_drop]
      omega

/-- Data that ends in the first range. -/
theorem plainWrite_cons {r : Range} (after : List Range) {data : List UInt8} (hne : data ≠ [])
    (hle : data.length ≤ Range.blocks r * BLOCKSIZE) (d : Nat → UInt8) :
    plainWrite E (r :: after) data d = fill (discardRange E d r) (rangeAddrs r) data := by
  rw [plainWrite, if_neg hne, List.drop_of_length_le hle, plainWrite_nil]

theorem agree_discardRange (E : Env) (d : Nat → UInt8) (r : Range) :
    Agree (rangeAddrs r) d (discardRange E d r) := by
  unfold discardRange
  split
  · exact agree_fill _ _ _
  · exact .refl _ _

/-- Nothing outside the ranges is touched. -/
theorem agree_plainWrite (ranges : List Range) (data : List UInt8) (d : Nat → UInt8) :
    Agree (byteAddrs ranges) d (plainWrite E ranges data d) := by
  induction ranges generalizing data d with
  | nil => exact .refl _ _
  | cons r ranges ih =>
    rw [plainWrite]
    split
    · exact .refl _ _
    · have hr : ∀ i ∈ rangeAddrs r, i ∈ byteAddrs (r :: ranges) := by
        intro i hi
        exact List.mem_append_left _ hi
      have hrest : ∀ i ∈ byteAddrs ranges, i ∈ byteAddrs (r :: ranges) := by
        intro i hi
        exact List.mem_append_right _ hi
      exact (((agree_discardRange E d r).mono hr).trans ((agree_fill _ _ _).mono hr)).trans
        ((ih _ _).mono hrest)

theorem mem_byteAddrs {rs : RangeSet} {a : Nat} :
    a ∈ byteAddrs rs.ranges ↔ a / BLOCKSIZE ∈ rs.blockList := by
  rw [RangeSet.mem_blockList, byteAddrs, List.mem_flatMap]
  have hsplit := Nat.div_add_mod a BLOCKSIZE
  have hlt : a % BLOCKSIZE < BLOCKSIZE := Nat.mod_lt _ (by decide)
  constructor
  · rintro ⟨r, hr, ha⟩
    rw [List.mem_range'_1, ← Nat.add_mul, Range.blocks] at ha
    have hpos := rs.pos r hr
    refine ⟨r, hr, (Nat.le_div_iff_mul_le (by decide)).2 ha.1,
      (Nat.div_lt_iff_lt_mul (by decide)).2 ?_⟩
    rw [Nat.add_sub_cancel' (Nat.le_of_lt hpos)] at ha
    exact ha.2
  · rintro ⟨r, hr, h1, h2⟩
    refine ⟨r, hr, ?_⟩
    rw [List.mem_range'_1, ← Nat.add_mul, Range.blocks, Nat.add_sub_cancel' (by lia)]
    exact ⟨(Nat.le_div_iff_mul_le (by decide)).1 h1, (Nat.div_lt_iff_lt_mul (by decide)).1 h2⟩

/-! ## One operation -/

/-- An operation within `R` has done what `P` says, or has failed. -/
def Does (E : Env) (R : List Nat) (x : M Bool) (s : St) (P : St → Prop) : Prop :=
  Outcome x s (fun b s' => (b = true ∧ Acted E R s true s' ∧ P s') ∨
    (b = false ∧ Acted E R s false s')) (Died R s)

/-- After operations that have not failed. -/
theorem Does.bind {α : Type} {R : List Nat} {x : M Bool} {f : Bool → M α} {s₀ s : St}
    {P : St → Prop} {Q : α → St → Prop} (h : Does E R x s P) (h₀ : Acted E R s₀ true s)
    (hfail : ∀ s', Acted E R s₀ false s' → Outcome (f false) s' Q (Died R s₀))
    (hok : ∀ s', Acted E R s₀ true s' → P s' → Outcome (f true) s' Q (Died R s₀)) :
    Outcome (x >>= f) s Q (Died R s₀) := by
  refine Outcome.bind (h.weaken (fun _ _ => id) fun _ _ hd => hd.after h₀) ?_
  rintro b s' (⟨rfl, hacted, hP⟩ | ⟨rfl, hacted⟩)
  · exact hok s' (h₀.trans hacted) hP
  · exact hfail s' (h₀.trans hacted)

theorem discardBlocks_does {R : List Nat} (s : St) {r : Range} (hR : ∀ a ∈ rangeAddrs r, a ∈ R) :
    Does E R (discardBlocks E (r.1 * BLOCKSIZE) (Range.blocks r * BLOCKSIZE)) s fun s' =>
      s'.disk.dev = discardRange E s.disk.dev r := by
  have hspec := discardBlocks_spec E s (r.1 * BLOCKSIZE) (Range.blocks r * BLOCKSIZE)
  unfold Does
  unfold Outcome at hspec ⊢
  cases hrun : discardBlocks E (r.1 * BLOCKSIZE) (Range.blocks r * BLOCKSIZE) s with
  | error e s' =>
    rw [hrun] at hspec
    exact hspec.mono hR
  | ok b s' =>
    rw [hrun] at hspec
    cases b with
    | false => exact .inr ⟨rfl, hspec.mono hR⟩
    | true =>
      refine .inl ⟨rfl, hspec.mono hR, ?_⟩
      unfold discardBlocks at hrun
      unfold discardRange
      by_cases hretry : E.isRetry = true
      · rw [if_neg (not_not.2 hretry)] at hrun
        obtain ⟨f, fs, hn, -, -⟩ := nextFate_spec s
        rw [blkDiscard, bind_ok hn] at hrun
        rw [if_pos hretry]
        cases f with
        | ok =>
          cases hblk : E.isBlk with
          | false =>
            simp only [hblk] at hrun
            cases hrun
          | true =>
            simp only [hblk] at hrun
            cases hrun
            rfl
        | fail n => cases hrun
        | crash n => cases hrun
      · rw [if_pos hretry] at hrun
        cases hrun
        rw [if_neg hretry]

theorem checkLseek_does (R : List Nat) (s : St) (offset : Nat) :
    Does E R (checkLseek offset) s fun s' => s'.disk.dev = s.disk.dev ∧ s'.pos = offset := by
  refine (checkLseek_spec E s offset).weaken ?_ fun _ _ hd => hd.mono nofun
  rintro b s' ⟨hacted, hdev, hpos⟩
  cases b with
  | false => exact .inr ⟨rfl, hacted.mono nofun⟩
  | true => exact .inl ⟨rfl, hacted.mono nofun, hdev, hpos rfl⟩

theorem writeAll_does {R : List Nat} (s : St) (data : List UInt8)
    (hR : ∀ a ∈ List.range' s.pos data.length, a ∈ R) :
    Does E R (writeAll E data) s fun s' => s'.pos = s.pos + data.length ∧
      s'.disk.dev = fill s.disk.dev (List.range' s.pos data.length) data := by
  refine (writeAll_spec E s data).weaken ?_ fun _ _ hd => hd.mono hR
  rintro b s' ⟨hacted, hw⟩
  cases b with
  | false => exact .inr ⟨rfl, hacted.mono hR⟩
  | true => exact .inl ⟨rfl, hacted.mono hR, hw rfl⟩

/-- **`WriteBlocks`** is a plain write of the buffer. -/
theorem writeBlocksLoop_does (buffer : List UInt8) {R : List Nat} {ranges : List Range}
    (hpos : ∀ r ∈ ranges, r.1 < r.2) (hR : ∀ a ∈ byteAddrs ranges, a ∈ R) (written : Nat) (s : St)
    (hle : written + (byteAddrs ranges).length ≤ buffer.length) :
    Does E R (writeBlocksLoop E buffer ranges written) s fun s' => s'.disk.dev =
      plainWrite E ranges ((buffer.drop written).take (byteAddrs ranges).length) s.disk.dev := by
  induction ranges generalizing written s with
  | nil => exact Outcome.pure (.inl ⟨rfl, .refl E R s, rfl⟩)
  | cons r ranges ih =>
    have hr := hpos r List.mem_cons_self
    have hsize := range_bytes_pos hr
    have hfirst : ∀ a ∈ rangeAddrs r, a ∈ R := fun a ha => hR a (List.mem_append_left _ ha)
    rw [byteAddrs_cons, List.length_append, rangeAddrs_length] at hle ⊢
    unfold writeBlocksLoop
    refine (discardBlocks_does s hfirst).bind (.refl E R s)
      (fun s1 h1 => Outcome.pure (.inr ⟨rfl, h1⟩)) fun s1 h1 hdev1 => ?_
    refine (checkLseek_does R s1 _).bind h1
      (fun s2 h2 => Outcome.pure (.inr ⟨rfl, h2⟩)) fun s2 h2 hseek => ?_
    obtain ⟨hdev2, hpos2⟩ := hseek
    simp only [if_true]
    rw [if_pos (by lia)]
    have hlen : ((buffer.drop written).take (Range.blocks r * BLOCKSIZE)).length =
        Range.blocks r * BLOCKSIZE := by
      rw [List.length_take, List.length_drop]
      lia
    refine (writeAll_does s2 _ (by rw [hlen, hpos2]; exact hfirst)).bind h2
      (fun s3 h3 => Outcome.pure (.inr ⟨rfl, h3⟩)) fun s3 h3 hwritten => ?_
    obtain ⟨-, hdev3⟩ := hwritten
    refine (ih (fun r' hr' => hpos r' (List.mem_cons_of_mem _ hr'))
      (fun a ha => hR a (List.mem_append_right _ ha)) _ s3 (by lia)).weaken ?_
      fun _ _ hd => hd.after h3
    rintro b s4 (⟨rfl, h4, hdev4⟩ | ⟨rfl, h4⟩)
    swap
    · exact .inr ⟨rfl, h3.trans h4⟩
    refine .inl ⟨rfl, h3.trans h4, ?_⟩
    -- the data of the first range, and the rest
    have hne : (buffer.drop written).take
        (Range.blocks r * BLOCKSIZE + (byteAddrs ranges).length) ≠ [] := by
      apply List.ne_nil_of_length_pos
      rw [List.length_take, List.length_drop]
      lia
    have hfirst : s3.disk.dev = fill (discardRange E s.disk.dev r) (rangeAddrs r)
        ((buffer.drop written).take (Range.blocks r * BLOCKSIZE + (byteAddrs ranges).length)) := by
      rw [hdev3, hpos2, hlen, hdev2, hdev1, ← fill_take_right _ (rangeAddrs r), rangeAddrs_length,
        List.take_take, Nat.min_eq_left (Nat.le_add_right _ _)]
      rfl
    rw [plainWrite, if_neg hne, hdev4, hfirst, List.drop_take, Nat.add_sub_cancel_left,
      List.drop_drop]

/-! ## The cursor -/

namespace RangeSinkWriter

/-- The writer stands in the range `r`, of which it has written `D'`. -/
structure Inside (E : Env) (d : Nat → UInt8) (before : List Range) (D : List UInt8) (r : Range)
    (D' : List UInt8) (after : List Range) (w : RangeSinkWriter) (s : St) : Prop where
  small : Small w.tgt
  ranges : w.tgt.ranges = before ++ r :: after
  next : w.nextRange = before.length + 1
  left : w.currentRangeLeft = Range.blocks r * BLOCKSIZE - D'.length
  short : D'.length < Range.blocks r * BLOCKSIZE
  full : D.length = (byteAddrs before).length
  pos : s.pos = r.1 * BLOCKSIZE + D'.length
  dev : s.disk.dev = fill (discardRange E (plainWrite E before D d) r) (rangeAddrs r) D'

/-- The writer has written `D`. -/
inductive Cursor (E : Env) (d : Nat → UInt8) : List UInt8 → RangeSinkWriter → St → Prop
  | between {before after : List Range} {D : List UInt8} {w : RangeSinkWriter} {s : St}
      (small : Small w.tgt) (ranges : w.tgt.ranges = before ++ after) (next : w.nextRange = before.length)
      (left : w.currentRangeLeft = 0) (full : D.length = (byteAddrs before).length)
      (dev : s.disk.dev = plainWrite E before D d) : Cursor E d D w s
  | inside {before after : List Range} {D D' : List UInt8} {r : Range} {w : RangeSinkWriter}
      {s : St} (h : Inside E d before D r D' after w s) (hne : D' ≠ []) : Cursor E d (D ++ D') w s

variable {d : Nat → UInt8}

theorem new_cursor (E : Env) {tgt : RangeSet} (hsmall : Small tgt) (s : St) :
    Cursor E s.disk.dev [] (new tgt) s :=
  .between hsmall (List.nil_append _).symm rfl rfl rfl rfl

/-- The device is that of a plain write. -/
theorem Cursor.plain {D : List UInt8} {w : RangeSinkWriter} {s : St} (h : Cursor E d D w s) :
    s.disk.dev = plainWrite E w.tgt.ranges D d := by
  have hpos := w.tgt.pos
  cases h with
  | between small ranges next left full dev =>
    rename_i before after
    rw [ranges] at hpos ⊢
    have happ := plainWrite_append (E := E)
      (fun r hr => hpos r (List.mem_append_left _ hr)) after [] full d
    rw [List.append_nil, plainWrite_nil] at happ
    rw [dev, happ]
  | inside h hne =>
    rename_i before after D D' r
    rw [h.ranges] at hpos ⊢
    rw [h.dev, plainWrite_append (fun r hr => hpos r (List.mem_append_left _ hr)) _ _ h.full,
      plainWrite_cons after hne (Nat.le_of_lt h.short)]

theorem Cursor.finished_iff {D : List UInt8} {w : RangeSinkWriter} {s : St}
    (h : Cursor E d D w s) :
    w.finished = true ↔ D.length = (byteAddrs w.tgt.ranges).length := by
  have hpos := w.tgt.pos
  rw [finished, Bool.and_eq_true, beq_iff_eq, beq_iff_eq, RangeSet.size]
  cases h with
  | between small ranges next left full dev =>
    rename_i before after
    rw [ranges] at hpos ⊢
    rw [next, left, full, byteAddrs_append, List.length_append, List.length_append]
    cases after with
    | nil => simp [byteAddrs]
    | cons r after =>
      have hr := hpos r (by simp)
      have hsize := range_bytes_pos hr
      rw [byteAddrs_cons, List.length_append, rangeAddrs_length, List.length_cons]
      lia
  | inside h hne =>
    rename_i before after D D' r
    have hshort := h.short
    rw [h.left, h.ranges, h.next, byteAddrs_append, byteAddrs_cons]
    simp only [List.length_append, rangeAddrs_length, h.full, List.length_cons]
    lia

/-- The cursor does not look at the byte count. -/
theorem Cursor.count {D : List UInt8} {w : RangeSinkWriter} {s : St} (h : Cursor E d D w s)
    (n : Nat) : Cursor E d D { w with bytesWritten := n } s := by
  cases h with
  | between small ranges next left full dev => exact .between small ranges next left full dev
  | inside h hne => exact .inside ⟨h.small, h.ranges, h.next, h.left, h.short, h.full, h.pos, h.dev⟩ hne

/-- The next byte to be written is in the range the writer stands in, or that cannot be entered, or
the set is full. -/
theorem seekToOutputRange_does {D : List UInt8} {w : RangeSinkWriter} {s : St}
    (hcur : Cursor E d D w s) :
    Outcome (w.seekToOutputRange E) s
      (fun p s' => (p.1 = true ∧ Acted E (byteAddrs w.tgt.ranges) s true s' ∧ p.2.tgt = w.tgt ∧
          p.2.bytesWritten = w.bytesWritten ∧ ∃ before D1 r D2 after,
            D = D1 ++ D2 ∧ Inside E d before D1 r D2 after p.2 s') ∨
        (p.1 = false ∧ (Acted E (byteAddrs w.tgt.ranges) s false s' ∨
          (byteAddrs w.tgt.ranges).length ≤ D.length)))
      (Died (byteAddrs w.tgt.ranges) s) := by
  unfold seekToOutputRange
  cases hcur with
  | between small ranges next left full dev =>
    rename_i before after
    rw [if_neg (not_not.2 left)]
    cases after with
    | nil =>
      rw [List.append_nil] at ranges
      have hnone : w.tgt.ranges[w.nextRange]? = none := by
        rw [ranges, next]
        exact List.getElem?_eq_none (Nat.le_refl _)
      simp only [hnone]
      exact Outcome.pure (.inr ⟨rfl, .inr (by rw [ranges, full])⟩)
    | cons r after =>
      have hmem : r ∈ w.tgt.ranges := by rw [ranges]; simp
      have hr := w.tgt.pos r hmem
      have hget : w.tgt.ranges[w.nextRange]? = some r := by
        rw [ranges, next, List.getElem?_append_right (Nat.le_refl _)]
        simp
      have hR : ∀ a ∈ rangeAddrs r, a ∈ byteAddrs w.tgt.ranges := fun a ha =>
        List.mem_flatMap.2 ⟨r, hmem, ha⟩
      simp only [hget, small.bytes hmem]
      refine (discardBlocks_does s hR).bind (.refl E _ s)
        (fun s1 h1 => Outcome.pure (.inr ⟨rfl, .inl h1⟩)) fun s1 h1 hdev1 => ?_
      refine (checkLseek_does _ s1 _).bind h1
        (fun s2 h2 => Outcome.pure (.inr ⟨rfl, .inl h2⟩)) fun s2 h2 hseek => ?_
      obtain ⟨hdev2, hpos2⟩ := hseek
      refine Outcome.pure (.inl ⟨rfl, h2, rfl, rfl, before, D, r, [], after,
        (List.append_nil D).symm, ?_⟩)
      exact {
        small := small
        ranges := ranges
        next := by rw [← next]
        left := by simp
        short := range_bytes_pos hr
        full := full
        pos := by rw [hpos2, List.length_nil, Nat.add_zero]
        dev := by rw [hdev2, hdev1, dev, fill_nil_right] }
  | inside h hne =>
    rename_i before after D D' r
    have hshort := h.short
    rw [if_pos (by rw [h.left]; omega)]
    exact Outcome.pure (.inl ⟨rfl, .refl E _ s, rfl, rfl, before, D, r, D', after, rfl, h⟩)

/-- Bytes written inside a range. -/
theorem Inside.write {before after : List Range} {D D' c : List UInt8} {r : Range}
    {w : RangeSinkWriter} {s s' : St} (h : Inside E d before D r D' after w s) (hne : c ≠ [])
    (hle : c.length ≤ w.currentRangeLeft) (hpos : s'.pos = s.pos + c.length)
    (hdev : s'.disk.dev = fill s.disk.dev (List.range' s.pos c.length) c) :
    Cursor E d (D ++ (D' ++ c)) { w with currentRangeLeft := w.currentRangeLeft - c.length } s' := by
  have hshort := h.short
  have hleft := h.left
  have hclen := List.length_pos_of_ne_nil hne
  have haddrs : (rangeAddrs r).drop D'.length =
      List.range' s.pos (Range.blocks r * BLOCKSIZE - D'.length) := by
    rw [rangeAddrs, List.drop_range', h.pos]
    simp
  have hdev' : s'.disk.dev =
      fill (discardRange E (plainWrite E before D d) r) (rangeAddrs r) (D' ++ c) := by
    have hsplit := range'_split (p := s.pos) (n := Range.blocks r * BLOCKSIZE - D'.length)
      (k := c.length) (by lia)
    rw [hdev, fill_append_right, ← h.dev, haddrs, hsplit, fill_append_left, List.length_range',
      List.drop_length, fill_nil_right]
  rcases Nat.lt_or_eq_of_le hle with hlt | heq
  · refine @Cursor.inside E d before after D (D' ++ c) r _ _ ?_ (by simp [hne])
    exact {
      small := h.small
      ranges := h.ranges
      next := h.next
      left := by simp only [List.length_append]; lia
      short := by rw [List.length_append]; lia
      full := h.full
      pos := by rw [hpos, h.pos, List.length_append]; lia
      dev := hdev' }
  · have hfull : (D' ++ c).length = Range.blocks r * BLOCKSIZE := by
      rw [List.length_append]
      lia
    have hranges : w.tgt.ranges = (before ++ [r]) ++ after := by
      rw [List.append_assoc, List.singleton_append]
      exact h.ranges
    refine .between h.small hranges ?_ ?_ ?_ ?_
    · rw [List.length_append]
      exact h.next
    · rw [heq]
      exact Nat.sub_self _
    · rw [byteAddrs_append, List.length_append, hfull, h.full, List.length_append, byteAddrs_cons,
        List.length_append, rangeAddrs_length]
      simp [byteAddrs]
    · have hposr := w.tgt.pos
      rw [h.ranges] at hposr
      rw [hdev', plainWrite_append (fun r hr => hposr r (List.mem_append_left _ hr)) _ _ h.full,
        plainWrite_cons [] (by simp [hne]) (Nat.le_of_eq hfull)]

/-- The next bytes of a range are addresses of the set. -/
theorem Inside.addrs {before after : List Range} {D D' : List UInt8} {r : Range}
    {w : RangeSinkWriter} {s : St} (h : Inside E d before D r D' after w s) {n : Nat}
    (hn : n ≤ w.currentRangeLeft) :
    ∀ a ∈ List.range' s.pos n, a ∈ byteAddrs w.tgt.ranges := by
  intro a ha
  have hleft := h.left
  refine List.mem_flatMap.2 ⟨r, by rw [h.ranges]; simp, ?_⟩
  rw [List.mem_range'_1, h.pos] at ha
  rw [List.mem_range'_1]
  omega

/-- The bytes that follow `D` fit into the set of the writer. -/
def Fits (w : RangeSinkWriter) (D data : List UInt8) : Prop :=
  D.length + data.length ≤ (byteAddrs w.tgt.ranges).length

theorem Cursor.length_le {D : List UInt8} {w : RangeSinkWriter} {s : St} (h : Cursor E d D w s) :
    D.length ≤ (byteAddrs w.tgt.ranges).length := by
  cases h with
  | between small ranges next left full dev =>
    rw [ranges, byteAddrs_append, List.length_append, full]
    exact Nat.le_add_right _ _
  | inside h hne =>
    have hshort := h.short
    rw [h.ranges, byteAddrs_append, byteAddrs_cons]
    simp only [List.length_append, rangeAddrs_length, h.full]
    lia

theorem writeLoop_does {fuel : Nat} {data D : List UInt8} (m : Nat) {w : RangeSinkWriter} {s : St}
    (hfuel : data.length ≤ fuel) (hcur : Cursor E d D w s) :
    Outcome (writeLoop E fuel data m w) s
      (fun p s' => (p.1 = m + data.length ∧ Acted E (byteAddrs w.tgt.ranges) s true s' ∧
        p.2.tgt = w.tgt ∧ p.2.bytesWritten = w.bytesWritten ∧ Cursor E d (D ++ data) p.2 s') ∨
        (p.1 < m + data.length ∧
          (Acted E (byteAddrs w.tgt.ranges) s false s' ∨ ¬ Fits w D data)))
      (Died (byteAddrs w.tgt.ranges) s) := by
  induction fuel generalizing data D m w s with
  | zero =>
    have hnil : data = [] := List.eq_nil_of_length_eq_zero (by lia)
    subst hnil
    exact Outcome.pure (.inl ⟨rfl, .refl E _ s, rfl, rfl, by rwa [List.append_nil]⟩)
  | succ fuel ih =>
    rw [writeLoop]
    by_cases hne : data = []
    · subst hne
      rw [if_pos rfl]
      exact Outcome.pure (.inl ⟨rfl, .refl E _ s, rfl, rfl, by rwa [List.append_nil]⟩)
    rw [if_neg hne]
    have hlen := List.length_pos_of_ne_nil hne
    refine Outcome.bind (seekToOutputRange_does hcur) ?_
    rintro ⟨b, w1⟩ s1 (⟨hb, h1, htgt1, hbytes1, before, D1, r, D2, after, rfl, hin⟩ | ⟨hb, h1⟩)
    swap
    · dsimp only at hb
      subst hb
      refine Outcome.pure (.inr ⟨by dsimp only; lia, h1.imp_right ?_⟩)
      intro hfull hfits
      unfold Fits at hfits
      lia
    dsimp only at hb htgt1 hbytes1 hin ⊢
    subst hb
    obtain ⟨k, hk⟩ : ∃ k, k = min data.length w1.currentRangeLeft := ⟨_, rfl⟩
    simp only [← hk]
    have hleft := hin.left
    have hshort := hin.short
    have hc : (data.take k).length = k := by
      rw [List.length_take]
      lia
    have hR := hin.addrs (n := (data.take k).length) (by rw [hc]; lia)
    rw [htgt1] at hR
    refine (writeAll_does s1 _ hR).bind h1
      (fun s2 h2 => Outcome.pure (.inr ⟨by dsimp only; lia, .inl h2⟩)) fun s2 h2 hwritten => ?_
    obtain ⟨hpos2, hdev2⟩ := hwritten
    have hcur2 := hin.write (List.ne_nil_of_length_pos (by lia)) (by lia) hpos2 hdev2
    rw [hc] at hcur2
    have hsplit : data.take k ++ data.drop k = data := List.take_append_drop k data
    have hlen2 : (data.drop k).length = data.length - k := List.length_drop
    have hrest := ih (m + k) (by lia : (data.drop k).length ≤ fuel) hcur2
    have haddrs : byteAddrs w1.tgt.ranges = byteAddrs w.tgt.ranges := by rw [htgt1]
    dsimp only at hrest
    rw [haddrs] at hrest
    refine hrest.weaken ?_ fun _ _ hd => hd.after h2
    rintro ⟨n, w3⟩ s3 (⟨hn, h3, htgt3, hbytes3, hcur3⟩ | ⟨hn, h3⟩)
    · dsimp only at hn htgt3 hbytes3 hcur3 ⊢
      rw [List.append_assoc, List.append_assoc, hsplit, ← List.append_assoc] at hcur3
      exact .inl ⟨by lia, h2.trans h3, htgt3.trans htgt1, hbytes3.trans hbytes1, hcur3⟩
    · refine .inr ⟨by dsimp only at hn ⊢; lia, h3.imp h2.trans ?_⟩
      intro hnot hfits
      apply hnot
      unfold Fits at hfits ⊢
      simp only [htgt1, List.length_append, hc, hlen2] at hfits ⊢
      lia

/-- **A `Write`** appends its data to what has been written; or it is short, and a device operation
has failed or the data does not fit. -/
theorem write_does {data D : List UInt8} {w : RangeSinkWriter} {s : St}
    (hcur : Cursor E d D w s) :
    Outcome (w.write E data) s
      (fun p s' => (p.1 = data.length ∧ Acted E (byteAddrs w.tgt.ranges) s true s' ∧
        p.2.tgt = w.tgt ∧ p.2.bytesWritten = w.bytesWritten + data.length ∧
        Cursor E d (D ++ data) p.2 s') ∨
        (p.1 < data.length ∧ (Acted E (byteAddrs w.tgt.ranges) s false s' ∨ ¬ Fits w D data)))
      (Died (byteAddrs w.tgt.ranges) s) := by
  unfold RangeSinkWriter.write
  split
  · rename_i hfin
    rw [hcur.finished_iff] at hfin
    rcases Nat.eq_zero_or_pos data.length with hzero | hpos
    · obtain rfl := List.eq_nil_of_length_eq_zero hzero
      exact Outcome.pure (.inl ⟨rfl, .refl E _ s, rfl, rfl, by rwa [List.append_nil]⟩)
    · refine Outcome.pure (.inr ⟨hpos, .inr ?_⟩)
      intro hfits
      unfold Fits at hfits
      lia
  · refine Outcome.bind (writeLoop_does 0 (Nat.le_add_right _ _) hcur) ?_
    rintro ⟨n, w1⟩ s1 (⟨hn, h1, htgt, hbytes, hcur1⟩ | ⟨hn, h1⟩)
    swap
    · exact Outcome.pure (.inr ⟨by dsimp only at hn ⊢; lia, h1⟩)
    dsimp only at hn htgt hbytes hcur1 ⊢
    rw [Nat.zero_add] at hn
    exact Outcome.pure (.inl ⟨hn, h1, htgt, by rw [hbytes, hn], hcur1.count _⟩)

/-! ## Any number of calls -/

/-- Successive calls of `Write`, with their return values. -/
def writes (E : Env) : List (List UInt8) → RangeSinkWriter → M (List Nat × RangeSinkWriter)
  | [], w => return ([], w)
  | piece :: pieces, w => do
    let (n, w) ← w.write E piece
    let (ns, w) ← writes E pieces w
    return (n :: ns, w)

/-- Only a power loss that was ahead stops the program. -/
def OnlyCrashes {α : Type} (x : M α) : Prop :=
  ∀ s, Outcome x s (fun _ s' => s'.fates <:+ s.fates) fun e _ => e = .crash ∧ Doomed s

theorem OnlyCrashes.pure {α : Type} (a : α) : OnlyCrashes (Pure.pure a : M α) :=
  fun _ => Outcome.pure List.suffix_rfl

theorem OnlyCrashes.bind {α β : Type} {x : M α} {f : α → M β} (hx : OnlyCrashes x)
    (hf : ∀ a, OnlyCrashes (f a)) : OnlyCrashes (x >>= f) := by
  intro s
  refine Outcome.bind (hx s) ?_
  intro a s1 h1
  refine (hf a s1).weaken (fun _ _ h2 => h2.trans h1) ?_
  rintro e _ ⟨he, hdoom⟩
  exact ⟨he, hdoom.of_suffix h1⟩

theorem OnlyCrashes.ite {α : Type} {c : Prop} [Decidable c] {x y : M α} (hx : OnlyCrashes x)
    (hy : OnlyCrashes y) : OnlyCrashes (if c then x else y) := by
  intro s
  split
  · exact hx s
  · exact hy s

theorem discardBlocks_onlyCrashes (offset size : Nat) : OnlyCrashes (discardBlocks E offset size) :=
  fun s => (discardBlocks_spec E s offset size).weaken (fun _ _ h => h.only.suffix)
    fun _ _ hd => ⟨hd.stop, hd.doomed⟩

theorem checkLseek_onlyCrashes (offset : Nat) : OnlyCrashes (checkLseek offset) :=
  fun s => (checkLseek_spec .small s offset).weaken (fun _ _ h => h.1.only.suffix)
    fun _ _ hd => ⟨hd.stop, hd.doomed⟩

theorem writeAll_onlyCrashes (data : List UInt8) : OnlyCrashes (writeAll E data) :=
  fun s => (writeAll_spec E s data).weaken (fun _ _ h => h.1.only.suffix)
    fun _ _ hd => ⟨hd.stop, hd.doomed⟩

theorem seekToOutputRange_onlyCrashes (w : RangeSinkWriter) :
    OnlyCrashes (w.seekToOutputRange E) := by
  unfold seekToOutputRange
  refine .ite (.pure _) ?_
  split
  · exact .pure _
  · refine (discardBlocks_onlyCrashes _ _).bind fun b => .ite ?_ (.pure _)
    exact (checkLseek_onlyCrashes _).bind fun b => .ite (.pure _) (.pure _)

theorem writeLoop_onlyCrashes (fuel : Nat) (data : List UInt8) (m : Nat) (w : RangeSinkWriter) :
    OnlyCrashes (writeLoop E fuel data m w) := by
  induction fuel generalizing data m w with
  | zero => exact .pure _
  | succ fuel ih =>
    rw [writeLoop]
    refine .ite (.pure _) ((seekToOutputRange_onlyCrashes w).bind ?_)
    rintro ⟨b, w1⟩
    cases b with
    | false => exact .pure _
    | true =>
      refine (writeAll_onlyCrashes _).bind fun b => .ite ?_ (.pure _)
      intro s
      exact ih _ _ _ s

theorem writes_onlyCrashes (pieces : List (List UInt8)) (w : RangeSinkWriter) :
    OnlyCrashes (writes E pieces w) := by
  induction pieces generalizing w with
  | nil => exact .pure _
  | cons piece pieces ih =>
    have hwrite : OnlyCrashes (w.write E piece) :=
      .ite (.pure _) (OnlyCrashes.bind (writeLoop_onlyCrashes _ _ _ _) fun _ => .pure _)
    exact hwrite.bind fun p => (ih p.2).bind fun _ => .pure _

theorem writes_does {pieces : List (List UInt8)} {D : List UInt8} {w : RangeSinkWriter} {s : St}
    (hcur : Cursor E d D w s)
    (hle : D.length + pieces.flatten.length ≤ (byteAddrs w.tgt.ranges).length) :
    Outcome (writes E pieces w) s
      (fun p s' => (p.1 = pieces.map List.length ∧ p.2.tgt = w.tgt ∧
        p.2.bytesWritten = w.bytesWritten + pieces.flatten.length ∧
        Cursor E d (D ++ pieces.flatten) p.2 s') ∨ Bad E (byteAddrs w.tgt.ranges) s)
      (fun e _ => e = .crash ∧ Doomed s) := by
  induction pieces generalizing D w s with
  | nil => exact Outcome.pure (.inl ⟨rfl, rfl, rfl, by simpa using hcur⟩)
  | cons piece pieces ih =>
    rw [List.flatten_cons, List.length_append] at hle
    unfold writes
    refine Outcome.bind ((write_does hcur).weaken (fun _ _ => id)
      fun _ _ hd => ⟨hd.stop, hd.doomed⟩) ?_
    rintro ⟨n, w1⟩ s1 (⟨hn, h1, htgt1, hbytes1, hcur1⟩ | ⟨-, h1⟩)
    swap
    · -- after an error the calls go on
      have h1 := h1.resolve_right (not_not.2 (by unfold Fits; lia))
      refine Outcome.bind ((writes_onlyCrashes pieces w1 s1).weaken (fun _ _ => id) ?_) ?_
      · exact fun _ _ hd => ⟨hd.1, hd.2.of_suffix h1.only.suffix⟩
      · exact fun p s2 _ => Outcome.pure (.inr (h1.failed rfl).2)
    dsimp only at hn htgt1 hbytes1 hcur1 ⊢
    refine Outcome.bind ((ih hcur1 ?_).weaken (fun _ _ => id) ?_) ?_
    · rw [htgt1, List.length_append]
      lia
    · exact fun _ _ hd => ⟨hd.1, hd.2.of_suffix h1.only.suffix⟩
    rintro ⟨ns, w2⟩ s2 (⟨hns, htgt2, hbytes2, hcur2⟩ | hbad)
    swap
    · rw [htgt1] at hbad
      exact Outcome.pure (.inr (hbad.imp_left (Faulty.of_suffix h1.only.suffix)))
    dsimp only at hns htgt2 hbytes2 hcur2 ⊢
    rw [List.append_assoc, ← List.flatten_cons] at hcur2
    refine Outcome.pure (.inl ⟨?_, htgt2.trans htgt1, ?_, hcur2⟩)
    · rw [hn, hns, List.map_cons]
    · rw [hbytes2, hbytes1, List.flatten_cons, List.length_append, Nat.add_assoc]

/-- What `Write` calls with `data` in all have done to a set, starting from `s`. -/
structure Written (E : Env) (tgt : RangeSet) (data : List UInt8) (s : St) (w : RangeSinkWriter)
    (s' : St) : Prop where
  /-- The device is that of the plain write. -/
  plain : s'.disk.dev = plainWrite E tgt.ranges data s.disk.dev
  /-- Once the set is full, `WriteBlocks` of the data would have left that device. -/
  writeBlocks : data.length = tgt.blocks * BLOCKSIZE → ∀ s₁ s₂ : St, s₁.disk.dev = s.disk.dev →
    writeBlocks E tgt data s₁ = .ok true s₂ → s₂.disk.dev = s'.disk.dev
  /-- Blocks outside the set are as before. -/
  frame : ∀ a, a / BLOCKSIZE ∉ tgt.blockList → s'.disk.dev a = s.disk.dev a
  finished : w.finished = true ↔ data.length = tgt.blocks * BLOCKSIZE
  available : w.availableSpace = tgt.blocks * BLOCKSIZE - data.length
  /-- A finished writer takes nothing and writes nothing. -/
  overrun : w.finished = true → ∀ (more : List UInt8) (s₁ : St),
    w.write E more s₁ = .ok (0, w) s₁

/-- **The sink agrees with `WriteBlocks`.**  However the data is split into calls of `Write`, they
return, unless the power goes off; and without an I/O error every call takes all its bytes, and the
device is that of the plain write of the data. -/
theorem writes_plain (E : Env) (tgt : RangeSet) (hnumbers : ∀ r ∈ tgt.ranges, r.2 ≤ INT_MAX)
    (hfit : tgt.blocks * BLOCKSIZE < 2 ^ 64) (pieces : List (List UInt8)) (s : St)
    (hle : pieces.flatten.length ≤ tgt.blocks * BLOCKSIZE) :
    Outcome (writes E pieces (new tgt)) s
      (fun p s' => (p.1 = pieces.map List.length ∧ Written E tgt pieces.flatten s p.2 s') ∨
        Bad E (byteAddrs tgt.ranges) s)
      (fun e _ => e = .crash ∧ Doomed s) := by
  have htotal : (byteAddrs tgt.ranges).length = tgt.blocks * BLOCKSIZE := by
    rw [byteAddrs_length, ← tgt.blocks_eq]
  refine (writes_does (new_cursor E (small_of_le hnumbers) s) ?_).weaken ?_ fun _ _ => id
  · rw [List.length_nil, Nat.zero_add]
    exact Nat.le_trans hle (Nat.le_of_eq htotal.symm)
  rintro ⟨ns, w⟩ s' (⟨hns, htgt, hbytes, hcur⟩ | hbad)
  swap
  · exact .inr hbad
  dsimp only [new] at hns htgt hbytes hcur ⊢
  rw [List.nil_append] at hcur
  rw [Nat.zero_add] at hbytes
  have hplain := hcur.plain
  rw [htgt] at hplain
  have hfin := hcur.finished_iff
  rw [htgt, htotal] at hfin
  refine .inl ⟨hns, hplain, ?_, ?_, hfin, ?_, ?_⟩
  · intro hfull s1 s2 hdev hrun
    have hdoes := (writeBlocksLoop_does (E := E) pieces.flatten tgt.pos (fun _ => id) 0 s1
      (by omega)).of_ok hrun
    rcases hdoes with ⟨-, -, h⟩ | ⟨h, -⟩
    · rw [h, hplain, hdev, List.drop_zero, List.take_of_length_le (by omega)]
    · cases h
  · intro a ha
    rw [hplain]
    exact agree_plainWrite _ _ _ a fun hmem => ha (mem_byteAddrs.1 hmem)
  · rw [availableSpace_eq (by rw [htgt]; exact hfit) (by rw [htgt, hbytes]; exact hle), remainder,
      htgt, hbytes]
  · intro hfinished more s1
    unfold RangeSinkWriter.write
    rw [if_pos hfinished]
    rfl

/-- Three bytes in two calls, to the second block of the device and then the first. -/
theorem writes_plain_two :
    let tgt := RangeSet.ofPairs [(1, 2), (0, 1)]
    (∀ r ∈ tgt.ranges, r.2 ≤ INT_MAX) ∧ tgt.blocks * BLOCKSIZE < 2 ^ 64 ∧
      Outcome (writes .small [[1], [2, 3]] (new tgt)) (St.zeros none [])
        (fun p s' => (p.1 = [[1], [2, 3]].map List.length ∧
          Written .small tgt [1, 2, 3] (St.zeros none []) p.2 s') ∨
          Bad .small (byteAddrs tgt.ranges) (St.zeros none []))
        (fun e _ => e = .crash ∧ Doomed (St.zeros none [])) :=
  ⟨by decide, by decide, writes_plain .small (RangeSet.ofPairs [(1, 2), (0, 1)]) (by decide)
    (by decide) [[1], [2, 3]] (St.zeros none []) (by decide)⟩

/-- A writer for such a set says that there is no space before it has written anything. -/
theorem wide_unavailable : ¬ ∀ (E : Env) (tgt : RangeSet) (pieces : List (List UInt8)) (s : St),
    pieces.flatten.length ≤ tgt.blocks * BLOCKSIZE →
      Outcome (writes E pieces (new tgt)) s
        (fun p s' => (p.1 = pieces.map List.length ∧ Written E tgt pieces.flatten s p.2 s') ∨
          Bad E (byteAddrs tgt.ranges) s)
        (fun e _ => e = .crash ∧ Doomed s) := by
  intro h
  obtain ⟨tgt, hnumbers, hblocks⟩ := exists_wide
  have hbytes : tgt.blocks * BLOCKSIZE = 2 ^ 64 := by rw [hblocks]; rfl
  rcases h { Env.small with devSize := 2 ^ 43 } tgt [] (St.zeros none []) (Nat.zero_le _) with ⟨-, hwritten⟩ | hbad
  · have havailable := hwritten.available
    rw [hbytes, availableSpace, new, blockBytes, hbytes] at havailable
    simp at havailable
  · rcases hbad with ⟨n, hn⟩ | ⟨hretry, -⟩ | ⟨a, ha, hsize⟩
    · cases hn
    · cases hretry
    · obtain ⟨r, hr, -, hlt⟩ := RangeSet.mem_blockList.1 (mem_byteAddrs.1 ha)
      have hle := hnumbers r hr
      have hsize : 2 ^ 43 ≤ a := hsize
      unfold INT_MAX at hle
      unfold BLOCKSIZE at hlt
      omega

end RangeSinkWriter

end Recovery.BlockImg
