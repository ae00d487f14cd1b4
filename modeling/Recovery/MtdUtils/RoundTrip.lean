import Recovery.Lib.Walk
import Recovery.MtdUtils.Reader

/-!
# Writing and reading back (`mtdutils/mtdutils.c`)

Writer and reader each walk over the blocks of a partition by a test of their own.  Data reads back
when the two tests agree.

## The tests

* `Driver.keeps` — the writer does not skip a block.
* `Driver.reads` — the reader does not skip it.  It compares the count of ECC failures with that at
  its last successful `ECCGETSTATS`, so that failed reads in front of a block can have it skip the
  block (`Driver.raised`).
* `Driver.stops` — `ECCGETSTATS` fails at a block, and the reader with it.

## The state between calls

* `Placed`, `Stored` — what successive writes come to: the data so far is the blocks written, in the
  order of the walk, and the buffer.
* `Searches` — the reader is about to search for a block.

## Results

* `writeBlock_spec`, `Searches.readBlock` — writer and reader are walks by these tests.
* `mtdWrite_spec` — what a successful write leaves.
* `round_trip_iff` — data reads back from the blocks it was written to exactly when the reader, up to
  the last of these blocks, reads what the writer keeps and is not stopped.
* `unsupported_unread` — without `MEMGETBADBLOCK` the writer takes every block and the reader none.
-/

set_option autoImplicit false

namespace Recovery.MtdUtils

open Recovery.Lib

variable {driver : Driver} {partition : MtdPartition}

/-! ## Blocks -/

/-- The number of whole blocks below the size, as both loops see it. -/
def MtdPartition.blocks (partition : MtdPartition) : Nat :=
  (asInt partition.size).toNat / partition.eraseSize

theorem fits_iff {b : Nat} :
    ((b * partition.eraseSize + partition.eraseSize : Nat) : Int) ≤ asInt partition.size ↔
      b < partition.blocks := by
  have hpos : 0 < partition.eraseSize := partition.eraseSize_pos
  rw [MtdPartition.blocks, ← Nat.succ_le_iff, Nat.le_div_iff_mul_le hpos, Nat.succ_mul]
  omega

theorem asInt_le (n : Nat) : (asInt n).toNat ≤ n := by
  unfold asInt
  rw [Int.bmod_def]
  omega

theorem blocks_le (partition : MtdPartition) : partition.blocks ≤ partition.size :=
  Nat.le_trans (Nat.div_le_self _ _) (asInt_le _)

def Attempt.ok (a : Attempt) : Bool := a.eraseOk && a.rereadOk && a.written.isGiven

theorem writes_eq (a : Attempt) (data : List UInt8) : a.writes data = a.ok := by
  unfold Attempt.writes Attempt.ok
  cases a.written with
  | asGiven => simp [Written.contents, Written.isGiven]
  | spoilt f h => simp [Written.contents, Written.isGiven, h data]

/-- The writer does not skip block `b`. -/
def Driver.keeps (driver : Driver) (partition : MtdPartition) (b : Nat) : Bool :=
  let pos := b * partition.eraseSize
  driver.memGetBadBlock pos ≠ .bad && ((driver.attempt pos 0).ok || (driver.attempt pos 1).ok)

/-- Failed reads directly in front of block `b` have raised the count of ECC failures. -/
def Driver.raised (driver : Driver) (partition : MtdPartition) : Nat → Bool
  | 0 => false
  | b + 1 =>
    let pos := b * partition.eraseSize
    !driver.readOk pos && (driver.raised partition b || driver.eccFailed pos != 0)

/-- The reader does not skip block `b`. -/
def Driver.reads (driver : Driver) (partition : MtdPartition) (b : Nat) : Bool :=
  let pos := b * partition.eraseSize
  driver.readOk pos && driver.eccFailed pos == 0 && !driver.raised partition b &&
    driver.memGetBadBlock pos == .good

/-- A search for a block begins at block `b`. -/
def Driver.begins (driver : Driver) (partition : MtdPartition) : Nat → Bool
  | 0 => true
  | b + 1 => driver.reads partition b

/-- `ECCGETSTATS` fails at block `b`. -/
def Driver.stops (driver : Driver) (partition : MtdPartition) (b : Nat) : Bool :=
  let pos := b * partition.eraseSize
  driver.begins partition b && !driver.statsBefore pos || driver.readOk pos && !driver.statsAfter pos

/-! ## The writer -/

/-- `ctx'` is `ctx` with the data in the next block that the writer keeps; what is in front of the
descriptor stays as it is. -/
structure Wrote (partition : MtdPartition) (data : List UInt8) (ctx ctx' : MtdWriteContext)
    (c : Nat) : Prop where
  buffer : ctx'.buffer = ctx.buffer
  pos : ctx'.pos = (c + 1) * partition.eraseSize
  data : ctx'.flash (c * partition.eraseSize) = data
  before : ∀ x < ctx.pos, ctx'.flash x = ctx.flash x

variable (driver) in
theorem writeBlockLoop_spec (data : List UInt8) (ctx : MtdWriteContext) (fuel b : Nat)
    (flash : Nat → List UInt8) (h : partition.blocks < b + fuel) (hb : ctx.pos ≤ b * partition.eraseSize)
    (hflash : ∀ x < ctx.pos, flash x = ctx.flash x) :
    match keptFrom (driver.keeps partition) partition.blocks b with
    | [] => writeBlockLoop driver partition data ctx fuel (b * partition.eraseSize) flash = none
    | c :: _ => ∃ ctx',
        writeBlockLoop driver partition data ctx fuel (b * partition.eraseSize) flash = some ctx' ∧
        Wrote partition data ctx ctx' c := by
  obtain ⟨n, hn⟩ : ∃ n, n = partition.blocks := ⟨_, rfl⟩
  have hfits : ∀ b, ((b * partition.eraseSize + partition.eraseSize : Nat) : Int) ≤
      asInt partition.size ↔ b < n := fun b => hn ▸ fits_iff
  rw [← hn] at h ⊢
  clear hn
  induction fuel generalizing b flash with
  | zero =>
    rw [keptFrom_of_le (by lia)]
    rfl
  | succ fuel ih =>
    by_cases hbn : b < n
    · have hnext : b * partition.eraseSize + partition.eraseSize = (b + 1) * partition.eraseSize :=
        (Nat.succ_mul _ _).symm
      rw [writeBlockLoop, if_pos ((hfits b).2 hbn), hnext]
      cases hk : driver.keeps partition b with
      | true =>
        rw [keptFrom_of_keep hbn hk]
        rw [Driver.keeps, Bool.and_eq_true, decide_eq_true_eq] at hk
        have hw : driver.writes (b * partition.eraseSize) data = true := by
          rw [Driver.writes, writes_eq, writes_eq]
          exact hk.2
        rw [if_neg hk.1, if_pos hw]
        refine ⟨_, rfl, rfl, rfl, if_pos rfl, fun x hx => ?_⟩
        exact (if_neg (Nat.ne_of_lt (Nat.lt_of_lt_of_le hx hb))).trans (hflash x hx)
      | false =>
        rw [keptFrom_of_skip hbn hk]
        have hle : ctx.pos ≤ (b + 1) * partition.eraseSize := by lia
        by_cases hbad : driver.memGetBadBlock (b * partition.eraseSize) = .bad
        · rw [if_pos hbad]
          exact ih (b + 1) flash hle hflash (by lia)
        · have hw : driver.writes (b * partition.eraseSize) data = false := by
            rw [Driver.writes, writes_eq, writes_eq]
            simpa [Driver.keeps, hbad] using hk
          rw [if_neg hbad, if_neg (by rw [hw]; decide)]
          refine ih (b + 1) _ hle (fun x hx => ?_) (by lia)
          exact (if_neg (Nat.ne_of_lt (Nat.lt_of_lt_of_le hx hb))).trans (hflash x hx)
    · rw [keptFrom_of_le (by lia)]
      exact if_neg (mt (hfits b).1 hbn)

/-- A block written from block `b` on. -/
theorem writeBlock_spec {data : List UInt8} {ctx ctx' : MtdWriteContext} {b : Nat}
    (hb : ctx.pos = b * partition.eraseSize)
    (h : writeBlock driver partition data ctx = some ctx') :
    ∃ c cs, keptFrom (driver.keeps partition) partition.blocks b = c :: cs ∧
      Wrote partition data ctx ctx' c := by
  have hfuel : partition.blocks < b + (partition.size + 1) := by
    have := blocks_le partition
    lia
  have hspec := writeBlockLoop_spec driver data ctx _ b ctx.flash hfuel (Nat.le_of_eq hb)
    fun _ _ => rfl
  rw [writeBlock, hb] at h
  rw [h] at hspec
  split at hspec
  · cases hspec
  · rename_i c cs hk
    obtain ⟨ctx₁, h1, h2⟩ := hspec
    cases h1
    exact ⟨c, cs, hk, h2⟩

/-- The bytes of the blocks `ws`. -/
def held (partition : MtdPartition) (flash : Nat → List UInt8) (ws : List Nat) : List UInt8 :=
  ws.flatMap fun w => flash (w * partition.eraseSize)

/-- The blocks in front of the descriptor that the writer keeps hold `done`. -/
structure Placed (driver : Driver) (partition : MtdPartition) (done : List UInt8)
    (ctx : MtdWriteContext) (ws : List Nat) (b : Nat) : Prop where
  pos : ctx.pos = b * partition.eraseSize
  walk : keptFrom (driver.keeps partition) partition.blocks 0 =
    ws ++ keptFrom (driver.keeps partition) partition.blocks b
  below : ∀ w ∈ ws, w < b
  done : held partition ctx.flash ws = done
  whole : ∀ w ∈ ws, (ctx.flash (w * partition.eraseSize)).length = partition.eraseSize

/-- All of `data` is in blocks, but for less than a block in the buffer. -/
def Stored (driver : Driver) (partition : MtdPartition) (data : List UInt8)
    (ctx : MtdWriteContext) : Prop :=
  ∃ done ws b, Placed driver partition done ctx ws b ∧ data = done ++ ctx.buffer ∧
    ctx.buffer.length < partition.eraseSize

theorem Placed.write {done block : List UInt8} {ctx ctx' : MtdWriteContext} {ws : List Nat}
    {b : Nat} (hp : Placed driver partition done ctx ws b)
    (hblock : block.length = partition.eraseSize)
    (h : writeBlock driver partition block ctx = some ctx') :
    ∃ c, Placed driver partition (done ++ block) ctx' (ws ++ [c]) (c + 1) ∧
      ctx'.buffer = ctx.buffer := by
  obtain ⟨c, cs, hk, hw⟩ := writeBlock_spec hp.pos h
  obtain ⟨hbc, _, _, hcs⟩ := keptFrom_cons hk
  have hsame : ∀ w ∈ ws, ctx'.flash (w * partition.eraseSize) = ctx.flash (w * partition.eraseSize) := by
    intro w hmem
    apply hw.before
    rw [hp.pos]
    exact Nat.mul_lt_mul_of_pos_right (hp.below w hmem) partition.eraseSize_pos
  refine ⟨c, ⟨hw.pos, ?_, ?_, ?_, ?_⟩, hw.buffer⟩
  · rw [hp.walk, hk, hcs, List.append_assoc]
    rfl
  · intro w hmem
    rcases List.mem_append.1 hmem with hmem | hmem
    · have := hp.below w hmem
      lia
    · rw [List.mem_singleton] at hmem
      lia
  · rw [held, List.flatMap_append, List.flatMap_singleton, hw.data,
      List.flatMap_congr hsame]
    exact congrArg (· ++ block) hp.done
  · intro w hmem
    rcases List.mem_append.1 hmem with hmem | hmem
    · rw [hsame w hmem]
      exact hp.whole w hmem
    · rw [List.mem_singleton.1 hmem, hw.data, hblock]

/-- The buffer is not on the device. -/
theorem Placed.setBuffer {done : List UInt8} {ctx : MtdWriteContext} {ws : List Nat} {b : Nat}
    (hp : Placed driver partition done ctx ws b) (buffer : List UInt8) :
    Placed driver partition done { ctx with buffer := buffer } ws b :=
  ⟨hp.pos, hp.walk, hp.below, hp.done, hp.whole⟩

theorem writeDirect_spec (fuel : Nat) {rest rest' done : List UInt8} {ctx ctx' : MtdWriteContext}
    {ws : List Nat} {b : Nat} (hp : Placed driver partition done ctx ws b)
    (h : writeDirect driver partition fuel rest ctx = some (rest', ctx')) :
    ∃ taken ws' b', rest = taken ++ rest' ∧ ctx'.buffer = ctx.buffer ∧
      (ctx.buffer ≠ [] → taken = []) ∧ Placed driver partition (done ++ taken) ctx' ws' b' := by
  induction fuel generalizing rest done ctx ws b with
  | zero =>
    cases h
    exact ⟨[], ws, b, rfl, rfl, fun _ => rfl, by rwa [List.append_nil]⟩
  | succ fuel ih =>
    rw [writeDirect] at h
    split at h
    · rename_i hc
      obtain ⟨ctx₁, h1, h2⟩ := Option.bind_eq_some_iff.1 h
      obtain ⟨c, hp₁, hbuf⟩ := hp.write (List.length_take_of_le hc.2) h1
      obtain ⟨taken, ws', b', hrest, hbuf', _, hp'⟩ := ih hp₁ h2
      refine ⟨rest.take partition.eraseSize ++ taken, ws', b', ?_, hbuf'.trans hbuf,
        fun hne => absurd hc.1 hne, ?_⟩
      · rw [List.append_assoc, ← hrest, List.take_append_drop]
      · rwa [← List.append_assoc]
    · cases h
      exact ⟨[], ws, b, rfl, rfl, fun _ => rfl, by rwa [List.append_nil]⟩

/-- The inner loop takes a block if it can. -/
theorem writeDirect_progress {fuel : Nat} {rest rest' done : List UInt8} {ctx ctx' : MtdWriteContext}
    {ws : List Nat} {b : Nat} (hp : Placed driver partition done ctx ws b) (hbuf : ctx.buffer = [])
    (hlen : partition.eraseSize ≤ rest.length)
    (h : writeDirect driver partition (fuel + 1) rest ctx = some (rest', ctx')) :
    rest'.length < rest.length := by
  rw [writeDirect, if_pos ⟨hbuf, hlen⟩] at h
  obtain ⟨ctx₁, h1, h2⟩ := Option.bind_eq_some_iff.1 h
  obtain ⟨c, hp₁, _⟩ := hp.write (List.length_take_of_le hlen) h1
  obtain ⟨taken, _, _, hrest, _⟩ := writeDirect_spec fuel hp₁ h2
  have hdrop := congrArg List.length hrest
  rw [List.length_drop, List.length_append] at hdrop
  have := partition.eraseSize_pos
  omega

theorem writeAccumulated_spec {done buffer : List UInt8} {ctx ctx' : MtdWriteContext} {ws : List Nat}
    {b : Nat} (hp : Placed driver partition done ctx ws b)
    (hlen : buffer.length ≤ partition.eraseSize)
    (h : writeAccumulated driver partition buffer ctx = some ctx') :
    ∃ done' ws' b', Placed driver partition done' ctx' ws' b' ∧
      done ++ buffer = done' ++ ctx'.buffer ∧ ctx'.buffer.length < partition.eraseSize ∧
      (buffer = [] → ctx'.buffer = []) := by
  unfold writeAccumulated at h
  split at h
  · rename_i hfull
    obtain ⟨ctx₁, h1, rfl⟩ := Option.map_eq_some_iff.1 h
    obtain ⟨c, hp₁, _⟩ := hp.write hfull h1
    exact ⟨_, _, _, hp₁.setBuffer [], (List.append_nil _).symm, partition.eraseSize_pos,
      fun _ => rfl⟩
  · cases h
    exact ⟨_, _, _, hp.setBuffer buffer, rfl, by dsimp only; lia, id⟩

theorem mtdWriteLoop_spec (fuel : Nat) {rest data : List UInt8} {ctx ctx' : MtdWriteContext}
    (hs : Stored driver partition data ctx) (hfuel : rest.length ≤ fuel)
    (h : mtdWriteLoop driver partition fuel rest ctx = some ctx') :
    Stored driver partition (data ++ rest) ctx' := by
  induction fuel generalizing rest data ctx with
  | zero =>
    cases h
    rwa [List.eq_nil_of_length_eq_zero (Nat.le_zero.1 hfuel), List.append_nil]
  | succ fuel ih =>
    rw [mtdWriteLoop] at h
    split at h
    · rename_i hnil
      cases h
      rwa [hnil, List.append_nil]
    · rename_i hne
      obtain ⟨done, ws, b, hp, hdata, hlen⟩ := hs
      have hpos : 0 < rest.length := List.length_pos_of_ne_nil hne
      obtain ⟨copy, hcopy⟩ : ∃ copy, copy =
          if ctx.buffer ≠ [] ∨ rest.length < partition.eraseSize then
            min rest.length (partition.eraseSize - ctx.buffer.length)
          else 0 := ⟨_, rfl⟩
      dsimp only at h
      rw [← hcopy] at h
      obtain ⟨ctx₁, h1, h⟩ := Option.bind_eq_some_iff.1 h
      obtain ⟨⟨rest', ctx₂⟩, h2, h3⟩ := Option.bind_eq_some_iff.1 h
      have hfit : (ctx.buffer ++ rest.take copy).length ≤ partition.eraseSize := by
        rw [List.length_append, List.length_take, hcopy]
        split <;> lia
      obtain ⟨done₁, ws₁, b₁, hp₁, hdone₁, hlen₁, hnil₁⟩ := writeAccumulated_spec hp hfit h1
      obtain ⟨taken, ws₂, b₂, hrest, hbuf₂, hnone, hp₂⟩ := writeDirect_spec _ hp₁ h2
      -- a round takes at least one byte
      have hless : rest'.length < rest.length := by
        have hsplit := congrArg List.length hrest
        rw [List.length_drop, List.length_append] at hsplit
        split at hcopy
        · lia
        · rename_i hdirect
          rw [not_or, not_not, not_lt] at hdirect
          rw [hcopy, List.take_zero, List.append_nil] at hnil₁
          rw [hcopy, List.drop_zero] at h2
          obtain ⟨m, hm⟩ : ∃ m, rest.length = m + 1 := ⟨rest.length - 1, by lia⟩
          rw [hm] at h2
          exact writeDirect_progress hp₁ (hnil₁ hdirect.1) hdirect.2 h2
      have hstored : Stored driver partition (data ++ rest.take copy ++ taken) ctx₂ := by
        refine ⟨_, ws₂, b₂, hp₂, ?_, hbuf₂ ▸ hlen₁⟩
        rw [hdata, List.append_assoc done, hdone₁, hbuf₂]
        by_cases hb : ctx₁.buffer = []
        · rw [hb, List.append_nil, List.append_nil]
        · rw [hnone hb, List.append_nil, List.append_nil]
      have hall := ih hstored (Nat.le_of_lt_succ (Nat.lt_of_lt_of_le hless hfuel)) h3
      rwa [List.append_assoc, List.append_assoc, ← hrest, List.take_append_drop] at hall

theorem chunks_stored (chunks : List (List UInt8)) {data : List UInt8} {ctx ctx' : MtdWriteContext}
    (hs : Stored driver partition data ctx)
    (h : chunks.foldlM (fun ctx data => mtdWriteData driver partition data ctx) ctx = some ctx') :
    Stored driver partition (data ++ chunks.flatten) ctx' := by
  induction chunks generalizing data ctx with
  | nil =>
    cases h
    rwa [List.flatten_nil, List.append_nil]
  | cons chunk chunks ih =>
    rw [List.foldlM_cons] at h
    obtain ⟨ctx₁, h1, h2⟩ := Option.bind_eq_some_iff.1 h
    rw [List.flatten_cons, ← List.append_assoc]
    exact ih (mtdWriteLoop_spec _ hs (Nat.le_refl _) h1) h2

/-- The data, zero-padded to a block. -/
def padded (partition : MtdPartition) (data : List UInt8) : List UInt8 :=
  data ++ List.replicate ((partition.eraseSize - data.length % partition.eraseSize) %
    partition.eraseSize) 0

theorem Placed.length {done : List UInt8} {ctx : MtdWriteContext} {ws : List Nat} {b : Nat}
    (hp : Placed driver partition done ctx ws b) :
    done.length = ws.length * partition.eraseSize := by
  rw [← hp.done, held, List.length_flatMap, List.map_congr_left hp.whole, List.map_const',
    List.sum_replicate_nat]

/-- **What a successful write leaves**: the padded data, in the first blocks the writer keeps. -/
theorem mtdWrite_spec {chunks : List (List UInt8)} {flash flash' : Nat → List UInt8}
    (h : mtdWrite driver partition chunks flash = some flash') :
    ∃ ws b, keptFrom (driver.keeps partition) partition.blocks 0 =
        ws ++ keptFrom (driver.keeps partition) partition.blocks b ∧
      held partition flash' ws = padded partition chunks.flatten ∧
      ∀ w ∈ ws, (flash' (w * partition.eraseSize)).length = partition.eraseSize := by
  obtain ⟨ctx, h1, h⟩ := Option.bind_eq_some_iff.1 h
  obtain ⟨ctx₁, h2, h3⟩ := Option.bind_eq_some_iff.1 h
  have hinit : Stored driver partition [] (mtdWritePartition flash) := by
    refine ⟨[], [], 0, ⟨(Nat.zero_mul _).symm, (List.nil_append _).symm, ?_, rfl, ?_⟩, rfl,
      partition.eraseSize_pos⟩
    · exact fun _ hw => absurd hw List.not_mem_nil
    · exact fun _ hw => absurd hw List.not_mem_nil
  obtain ⟨done, ws, b, hp, hdata, hlen⟩ := chunks_stored chunks hinit h1
  rw [List.nil_append] at hdata
  have hflash : ctx₁.flash = flash' := by
    split at h3
    · exact Option.some.inj h3
    · cases h3
  have hmod : chunks.flatten.length % partition.eraseSize = ctx.buffer.length := by
    rw [hdata, List.length_append, hp.length, Nat.mul_add_mod', Nat.mod_eq_of_lt hlen]
  unfold mtdEraseNoBlocks at h2
  rw [padded, hmod, hdata, ← hflash]
  split at h2
  · rename_i hne
    obtain ⟨ctx₂, h4, rfl⟩ := Option.map_eq_some_iff.1 h2
    have hpos : 0 < ctx.buffer.length := List.length_pos_of_ne_nil hne
    obtain ⟨c, hp₂, _⟩ := hp.write (by rw [List.length_append, List.length_replicate]; lia) h4
    refine ⟨_, _, hp₂.walk, ?_, hp₂.whole⟩
    rw [Nat.mod_eq_of_lt (by lia), List.append_assoc]
    exact hp₂.done
  · rename_i hnil
    cases h2
    rw [not_not] at hnil
    refine ⟨_, _, hp.walk, ?_, hp.whole⟩
    rw [hnil, List.length_nil, Nat.sub_zero, Nat.mod_self, List.append_nil, List.replicate_zero,
      List.append_nil]
    exact hp.done

/-! ## The reader -/

variable {flash : Nat → List UInt8}

theorem mgbb_eq_zero_iff {pos : Nat} :
    (driver.eraseBlock flash pos).mgbb = 0 ↔ driver.memGetBadBlock pos = .good := by
  cases h : driver.memGetBadBlock pos <;> simp [EraseBlock.mgbb, Driver.eraseBlock, h]

theorem drop_blocks {b : Nat} (h : b < partition.blocks) :
    (driver.blocks partition flash).drop b =
      driver.eraseBlock flash (b * partition.eraseSize) ::
        (driver.blocks partition flash).drop (b + 1) := by
  have hle : partition.blocks ≤ partition.size / partition.eraseSize :=
    Nat.div_le_div_right (asInt_le _)
  have hlt : b < (driver.blocks partition flash).length := by
    rw [Driver.blocks, List.length_map, List.length_range]
    lia
  rw [List.drop_eq_getElem_cons hlt]
  simp [Driver.blocks]

/-- One round of the search, at block `b`. -/
theorem readBlockLoop_step {b : Nat} (h : b < partition.blocks) (failed before : Nat) :
    readBlockLoop partition ((driver.blocks partition flash).drop b) (b * partition.eraseSize) failed
        before =
      let pos := b * partition.eraseSize
      let next := readBlockLoop partition ((driver.blocks partition flash).drop (b + 1))
        ((b + 1) * partition.eraseSize)
      let after := failed + driver.eccFailed pos
      if ¬ driver.readOk pos then next after before
      else if ¬ driver.statsAfter pos then none
      else if after ≠ before then next after after
      else if driver.memGetBadBlock pos ≠ .good then next after before
      else some (flash pos, ⟨(b + 1) * partition.eraseSize,
        (driver.blocks partition flash).drop (b + 1), after⟩) := by
  rw [drop_blocks h, readBlockLoop, if_pos (fits_iff.2 h), ← Nat.succ_mul]
  simp only [ne_eq, mgbb_eq_zero_iff]
  rfl

/-- The count of the device, as far as the reader sees it, when it comes to block `b`. -/
structure Counts (driver : Driver) (partition : MtdPartition) (b failed before : Nat) : Prop where
  le : before ≤ failed
  raised : (failed != before) = driver.raised partition b

/-- A read of block `b` that fails. -/
theorem Counts.failed {b failed before : Nat} (h : Counts driver partition b failed before)
    (hok : driver.readOk (b * partition.eraseSize) = false) :
    Counts driver partition (b + 1) (failed + driver.eccFailed (b * partition.eraseSize)) before := by
  have hle := h.le
  refine ⟨by lia, ?_⟩
  rw [Driver.raised, hok, ← h.raised, Bool.eq_iff_iff]
  simp
  lia

/-- A read of it that succeeds. -/
theorem Counts.read {b failed : Nat} (hok : driver.readOk (b * partition.eraseSize) = true) :
    Counts driver partition (b + 1) failed failed :=
  ⟨Nat.le_refl _, by rw [Driver.raised, hok, bne_self_eq_false]; rfl⟩

/-- The count is not the one to compare with. -/
theorem Counts.ne_iff {b failed before : Nat} (h : Counts driver partition b failed before) :
    failed + driver.eccFailed (b * partition.eraseSize) ≠ before ↔
      (driver.eccFailed (b * partition.eraseSize) == 0 && !driver.raised partition b) = false := by
  have hle := h.le
  rw [← h.raised, ← Bool.not_eq_true]
  simp
  lia

/-- What `read_block` returns on its walk: the contents of the first block that it uses. -/
def Finds (driver : Driver) (partition : MtdPartition) (flash : Nat → List UInt8) :
    List Nat → Option (List UInt8 × Descriptor) → Prop
  | [], r => r = none
  | c :: _, r => ∃ failed, r = some (flash (c * partition.eraseSize),
      ⟨(c + 1) * partition.eraseSize, (driver.blocks partition flash).drop (c + 1), failed⟩)

variable (driver flash) in
theorem readBlockLoop_spec {b failed before : Nat}
    (hcounts : Counts driver partition b failed before)
    (hbegins : driver.begins partition b = true →
      driver.statsBefore (b * partition.eraseSize) = true) :
    Finds driver partition flash
      (keptBefore (driver.stops partition) (driver.reads partition) partition.blocks b)
      (readBlockLoop partition ((driver.blocks partition flash).drop b) (b * partition.eraseSize)
        failed before) := by
  obtain ⟨d, hd⟩ : ∃ d, d = partition.blocks - b := ⟨_, rfl⟩
  induction d generalizing b failed before with
  | zero =>
    rw [keptBefore_of_le (by omega)]
    cases (driver.blocks partition flash).drop b with
    | nil => rfl
    | cons c cs => exact if_neg (mt fits_iff.1 (by omega))
  | succ d ih =>
    have hb : b < partition.blocks := by omega
    have hstats : (driver.begins partition b && !driver.statsBefore (b * partition.eraseSize)) =
        false := by
      cases h : driver.begins partition b with
      | false => rfl
      | true => rw [hbegins h]; rfl
    have hnot : driver.reads partition b = false → driver.begins partition (b + 1) = true →
        driver.statsBefore ((b + 1) * partition.eraseSize) = true := by
      intro hreads hbegin
      rw [Driver.begins, hreads] at hbegin
      cases hbegin
    rw [readBlockLoop_step hb]
    dsimp only
    by_cases hok : driver.readOk (b * partition.eraseSize) = true
    · rw [if_neg (not_not.2 hok)]
      by_cases hafter : driver.statsAfter (b * partition.eraseSize) = true
      · have hstop : driver.stops partition b = false := by
          rw [Driver.stops, hstats, hafter, Bool.not_true, Bool.and_false]
          rfl
        rw [if_neg (not_not.2 hafter)]
        by_cases hcount :
            (driver.eccFailed (b * partition.eraseSize) == 0 && !driver.raised partition b) = true
        · have heq := not_not.1 (mt hcounts.ne_iff.1 (Bool.not_eq_false _ ▸ hcount))
          rw [if_neg (not_not.2 heq)]
          by_cases hgood : driver.memGetBadBlock (b * partition.eraseSize) = .good
          · have hreads : driver.reads partition b = true := by
              rw [Driver.reads, hok, Bool.true_and, hcount, hgood]
              rfl
            rw [if_neg (not_not.2 hgood), keptBefore_of_keep hb hstop hreads]
            exact ⟨_, rfl⟩
          · have hreads : driver.reads partition b = false := by
              rw [Driver.reads, beq_eq_false_iff_ne.2 hgood, Bool.and_false]
            rw [if_pos hgood, keptBefore_of_skip hb hstop hreads, heq]
            exact ih (.read hok) (hnot hreads) (by omega)
        · have hreads : driver.reads partition b = false := by
            rw [Driver.reads, hok, Bool.true_and, Bool.eq_false_iff.2 hcount, Bool.false_and]
          rw [if_pos (hcounts.ne_iff.2 (Bool.eq_false_iff.2 hcount)),
            keptBefore_of_skip hb hstop hreads]
          exact ih (.read hok) (hnot hreads) (by omega)
      · have hstop : driver.stops partition b = true := by
          rw [Driver.stops, hok, Bool.eq_false_iff.2 hafter, Bool.not_false, Bool.and_true,
            Bool.or_true]
        rw [if_pos hafter, keptBefore_of_stop hstop]
        rfl
    · have hstop : driver.stops partition b = false := by
        rw [Driver.stops, hstats, Bool.eq_false_iff.2 hok]
        rfl
      have hreads : driver.reads partition b = false := by
        rw [Driver.reads, Bool.eq_false_iff.2 hok]
        rfl
      rw [if_pos hok, keptBefore_of_skip hb hstop hreads]
      exact ih (hcounts.failed (Bool.eq_false_iff.2 hok)) (hnot hreads) (by omega)

/-- The reader is about to search for a block from block `b` on. -/
structure Searches (driver : Driver) (partition : MtdPartition) (flash : Nat → List UInt8)
    (b : Nat) (fd : Descriptor) : Prop where
  pos : fd.pos = b * partition.eraseSize
  ahead : fd.ahead = (driver.blocks partition flash).drop b
  raised : driver.raised partition b = false
  begins : driver.begins partition b = true

theorem searches_start : Searches driver partition flash 0
    (mtdReadPartition (driver.blocks partition flash)).fd :=
  ⟨(Nat.zero_mul _).symm, rfl, rfl, rfl⟩

theorem Searches.finds {b : Nat} {fd : Descriptor} (h : Searches driver partition flash b fd) :
    Finds driver partition flash
      (keptBefore (driver.stops partition) (driver.reads partition) partition.blocks b)
      (readBlock partition fd) := by
  rw [readBlock, h.ahead, h.pos]
  by_cases hb : b < partition.blocks
  · by_cases hstats : driver.statsBefore (b * partition.eraseSize) = true
    · have hloop := @readBlockLoop_spec driver partition flash b fd.failed fd.failed
        ⟨Nat.le_refl _, by rw [bne_self_eq_false, h.raised]⟩ fun _ => hstats
      rw [drop_blocks hb] at hloop ⊢
      show Finds _ _ _ _ (if driver.statsBefore (b * partition.eraseSize) then _ else none)
      rwa [if_pos hstats]
    · have hstop : driver.stops partition b = true := by
        rw [Driver.stops, h.begins, Bool.eq_false_iff.2 hstats]
        rfl
      rw [keptBefore_of_stop hstop, drop_blocks hb]
      exact if_neg hstats
  · rw [keptBefore_of_le (Nat.le_of_not_lt hb)]
    cases (driver.blocks partition flash).drop b with
    | nil => rfl
    | cons c cs =>
      have hnone : readBlockLoop partition (c :: cs) (b * partition.eraseSize) fd.failed fd.failed =
          none := if_neg (mt fits_iff.1 hb)
      show (if c.statsBefore then _ else none) = none
      rw [hnone, ite_self]

/-- The search after a block has been found. -/
theorem Searches.next {b c failed : Nat} {cs : List Nat}
    (hwalk : keptBefore (driver.stops partition) (driver.reads partition) partition.blocks b =
      c :: cs) :
    Searches driver partition flash (c + 1)
      ⟨(c + 1) * partition.eraseSize, (driver.blocks partition flash).drop (c + 1), failed⟩ := by
  have hreads := (keptBefore_cons hwalk).1
  refine ⟨rfl, rfl, ?_, hreads⟩
  have hok : driver.readOk (c * partition.eraseSize) = true := by
    rw [Driver.reads] at hreads
    simp only [Bool.and_eq_true] at hreads
    exact hreads.1.1.1
  rw [Driver.raised, hok]
  rfl

/-- The first blocks of the walk are what the reader returns first. -/
theorem Searches.delivers {b : Nat} {fd : Descriptor} (h : Searches driver partition flash b fd)
    {us : List Nat} (hus : us <+: keptBefore (driver.stops partition) (driver.reads partition)
      partition.blocks b) :
    Delivers partition False fd
      (us.map fun u => driver.eraseBlock flash (u * partition.eraseSize)) := by
  induction us generalizing b fd with
  | nil => exact .done nofun
  | cons u us ih =>
    obtain ⟨tail, htail⟩ := hus
    have hfinds := h.finds
    rw [← htail] at hfinds
    obtain ⟨failed, hread⟩ := hfinds
    have hnext := (keptBefore_cons htail.symm).2
    exact .next hread (ih (.next htail.symm) ⟨tail, hnext⟩)

theorem contents_map (ws : List Nat) :
    contents (ws.map fun w => driver.eraseBlock flash (w * partition.eraseSize)) =
      held partition flash ws := by
  rw [contents, held, List.map_map, List.flatMap]
  rfl

/-- What is to come from a fresh context, when the reader reads the blocks `ws` first. -/
theorem holds_start {ws : List Nat}
    (hws : ws <+: keptBefore (driver.stops partition) (driver.reads partition) partition.blocks 0)
    (hwhole : ∀ w ∈ ws, (flash (w * partition.eraseSize)).length = partition.eraseSize) :
    Holds partition False (mtdReadPartition (driver.blocks partition flash))
      (held partition flash ws) := by
  refine ⟨_, searches_start.delivers hws, fun b hb => ?_, (contents_map ws).symm⟩
  obtain ⟨w, hw, rfl⟩ := List.mem_map.1 hb
  exact hwhole w hw

/-! ## The round trip -/

/-- The offsets after each of a number of `write_block`s. -/
def writeOffsets (driver : Driver) (partition : MtdPartition) :
    List (List UInt8) → MtdWriteContext → Option (List Nat)
  | [], _ => some []
  | block :: blocks, ctx => do
    let ctx ← writeBlock driver partition block ctx
    let offsets ← writeOffsets driver partition blocks ctx
    return ctx.pos :: offsets

/-- The offsets after each of a number of `read_block`s. -/
def readOffsets (partition : MtdPartition) : Nat → Descriptor → Option (List Nat)
  | 0, _ => some []
  | n + 1, fd => do
    let (_, fd) ← readBlock partition fd
    let offsets ← readOffsets partition n fd
    return fd.pos :: offsets

variable (driver) in
theorem writeOffsets_eq (blocks : List (List UInt8)) {ctx : MtdWriteContext} {b : Nat}
    (hb : ctx.pos = b * partition.eraseSize)
    (hlen : blocks.length ≤ (keptFrom (driver.keeps partition) partition.blocks b).length) :
    writeOffsets driver partition blocks ctx =
      some (((keptFrom (driver.keeps partition) partition.blocks b).take blocks.length).map
        fun c => (c + 1) * partition.eraseSize) := by
  induction blocks generalizing ctx b with
  | nil => rfl
  | cons block blocks ih =>
    have hfuel : partition.blocks < b + (partition.size + 1) := by
      have := blocks_le partition
      lia
    have hspec := writeBlockLoop_spec driver block ctx _ b ctx.flash hfuel
      (Nat.le_of_eq hb) fun _ _ => rfl
    split at hspec
    · rename_i hnil
      rw [hnil] at hlen
      exact absurd hlen (Nat.not_succ_le_zero _)
    · rename_i c cs hk
      obtain ⟨ctx', h1, h2⟩ := hspec
      obtain ⟨_, _, _, hcs⟩ := keptFrom_cons hk
      rw [hk, List.length_cons, List.length_cons, hcs] at hlen
      rw [writeOffsets, writeBlock, hb, h1, hk, hcs]
      show (writeOffsets driver partition blocks ctx' >>= fun offsets => some (ctx'.pos :: offsets)) = _
      rw [ih h2.pos (by omega), h2.pos]
      rfl

theorem Searches.readOffsets_eq (n : Nat) {b : Nat} {fd : Descriptor}
    (h : Searches driver partition flash b fd) :
    readOffsets partition n fd =
      if n ≤ (keptBefore (driver.stops partition) (driver.reads partition) partition.blocks b).length
      then
        some (((keptBefore (driver.stops partition) (driver.reads partition) partition.blocks b).take
          n).map fun c => (c + 1) * partition.eraseSize)
      else none := by
  induction n generalizing b fd with
  | zero => exact (if_pos (Nat.zero_le _)).symm
  | succ n ih =>
    have hfinds := h.finds
    rw [readOffsets]
    cases hwalk : keptBefore (driver.stops partition) (driver.reads partition) partition.blocks b with
    | nil =>
      rw [hwalk] at hfinds
      rw [show readBlock partition fd = none from hfinds]
      exact (if_neg (Nat.not_succ_le_zero n)).symm
    | cons c cs =>
      rw [hwalk] at hfinds
      obtain ⟨failed, hread⟩ := hfinds
      rw [hread, (keptBefore_cons hwalk).2, List.length_cons]
      show (readOffsets partition n _ >>= fun offsets =>
        some ((c + 1) * partition.eraseSize :: offsets)) = _
      rw [ih (.next hwalk)]
      by_cases hn : n ≤
          (keptBefore (driver.stops partition) (driver.reads partition) partition.blocks
            (c + 1)).length
      · rw [if_pos hn, if_pos (Nat.succ_le_succ hn)]
        rfl
      · rw [if_neg hn, if_neg (mt Nat.le_of_succ_le_succ hn)]
        rfl

/-- `data` in whole blocks. -/
def blocksOf (partition : MtdPartition) (data : List UInt8) : List (List UInt8) :=
  (List.range (data.length / partition.eraseSize)).map fun i =>
    (data.drop (i * partition.eraseSize)).take partition.eraseSize

/-- What a partition written with `data` promises to its readers. -/
structure RoundTrip (driver : Driver) (partition : MtdPartition) (data : List UInt8)
    (flash flash' : Nat → List UInt8) : Prop where
  /-- Every way to read the padded data returns it. -/
  reads : ∀ lens : List Nat, lens.sum ≤ (padded partition data).length →
    mtdRead partition lens (mtdReadPartition (driver.blocks partition flash')) =
      some ((padded partition data).take lens.sum)
  /-- Writer and reader are at the same offset after each block. -/
  offsets : readOffsets partition (blocksOf partition (padded partition data)).length
      (mtdReadPartition (driver.blocks partition flash')).fd =
    writeOffsets driver partition (blocksOf partition (padded partition data))
      (mtdWritePartition flash)

/-- Up to the block that takes the end of `data`, the reader is not stopped, and skips what the
writer skips. -/
def SkipsAlike (driver : Driver) (partition : MtdPartition) (data : List UInt8) : Prop :=
  AgreeFor (driver.stops partition) (driver.keeps partition) (driver.reads partition)
    partition.blocks 0 ((padded partition data).length / partition.eraseSize)

theorem blocks_mul_lt (partition : MtdPartition) :
    partition.blocks * partition.eraseSize < 2 ^ 31 := by
  have hle : partition.blocks * partition.eraseSize ≤ (asInt partition.size).toNat :=
    Nat.div_mul_le_self _ _
  have hlt : asInt partition.size < 2 ^ 31 := by
    unfold asInt
    rw [Int.bmod_def]
    omega
  omega

theorem keptFrom_length_le (keep : Nat → Bool) (n : Nat) : (keptFrom keep n 0).length ≤ n := by
  rw [keptFrom]
  exact Nat.le_trans (List.length_filter_le _ _) (Nat.le_of_eq List.length_range')

/-- **Written data reads back exactly when the reader skips what the writer skips** and is not
stopped, among the blocks up to the one that takes the end of the data. -/
theorem round_trip_iff (driver : Driver) (partition : MtdPartition) (chunks : List (List UInt8))
    (flash flash' : Nat → List UInt8) (h : mtdWrite driver partition chunks flash = some flash') :
    RoundTrip driver partition chunks.flatten flash flash' ↔
      SkipsAlike driver partition chunks.flatten := by
  obtain ⟨ws, b, hwalk, hcontents, hwhole⟩ := mtdWrite_spec h
  have hlen : (padded partition chunks.flatten).length = ws.length * partition.eraseSize := by
    rw [← hcontents, held, List.length_flatMap, List.map_congr_left hwhole, List.map_const',
      List.sum_replicate_nat]
  have hn : (padded partition chunks.flatten).length / partition.eraseSize = ws.length := by
    rw [hlen, Nat.mul_div_cancel _ partition.eraseSize_pos]
  have hws : (keptFrom (driver.keeps partition) partition.blocks 0).take ws.length = ws := by
    rw [hwalk, List.take_left]
  have hle : ws.length ≤ (keptFrom (driver.keeps partition) partition.blocks 0).length := by
    rw [hwalk, List.length_append]
    exact Nat.le_add_right _ _
  have hblocks : (blocksOf partition (padded partition chunks.flatten)).length = ws.length := by
    rw [blocksOf, List.length_map, List.length_range, hn]
  have hstart : (mtdWritePartition flash).pos = 0 * partition.eraseSize := (Nat.zero_mul _).symm
  have hwrite := writeOffsets_eq driver (blocksOf partition (padded partition chunks.flatten))
    hstart (hblocks ▸ hle)
  have hread := (@searches_start driver partition flash').readOffsets_eq ws.length
  rw [hblocks, hws] at hwrite
  rw [SkipsAlike, hn, ← take_keptBefore_eq_iff hle, hws]
  constructor
  · intro hrt
    have hoffsets := hrt.offsets
    rw [hblocks, hwrite, hread] at hoffsets
    split at hoffsets
    · refine List.map_injective_iff.2 (fun c c' hc => ?_) (Option.some.inj hoffsets)
      have := Nat.eq_of_mul_eq_mul_right partition.eraseSize_pos hc
      omega
    · cases hoffsets
  · intro hsame
    refine ⟨fun lens hsum => ?_, ?_⟩
    · have hprefix : ws <+: keptBefore (driver.stops partition) (driver.reads partition)
          partition.blocks 0 := hsame ▸ List.take_prefix _ _
      refine mtdRead_spec lens (hcontents ▸ holds_start hprefix hwhole) hsum ?_
      have hcount : ws.length ≤ partition.blocks := Nat.le_trans hle (keptFrom_length_le _ _)
      rw [hlen]
      exact Nat.lt_of_le_of_lt (Nat.mul_le_mul_right _ hcount) (blocks_mul_lt partition)
    · have hmany : ws.length ≤ (keptBefore (driver.stops partition) (driver.reads partition)
          partition.blocks 0).length := by
        have := congrArg List.length hsame
        rw [List.length_take] at this
        omega
      rw [hblocks, hwrite, hread, if_pos hmany, hsame]

/-- A driver for which nothing fails, and its answer to `MEMGETBADBLOCK`. -/
def Driver.sound (answer : BadBlock) : Driver where
  memGetBadBlock _ := answer
  attempt _ _ := ⟨true, .asGiven, true⟩
  abandoned _ := []
  closeOk := true
  readOk _ := true
  eccFailed _ := 0
  statsBefore _ := true
  statsAfter _ := true

/-- Nothing fails but the second block of two bytes, which is bad and raises the count. -/
def Driver.worn : Driver :=
  { Driver.sound .good with
    memGetBadBlock := fun pos => if pos = 2 then .bad else .good
    eccFailed := fun pos => if pos = 2 then 1 else 0 }

/-- Three blocks of two bytes. -/
def MtdPartition.small : MtdPartition := ⟨6, 2, by decide, by decide, by decide⟩

theorem round_trip_worn : ∃ flash',
    mtdWrite .worn .small [[1], [2, 3]] (fun _ => []) = some flash' ∧
      RoundTrip .worn .small [1, 2, 3] (fun _ => []) flash' := by
  have hskips : ∀ i < 3, Driver.worn.stops .small i = false ∧
      Driver.worn.reads .small i = Driver.worn.keeps .small i := by decide
  exact ⟨_, rfl, (round_trip_iff .worn .small [[1], [2, 3]] (fun _ => []) _ rfl).2
    fun i _ hi _ => hskips i hi⟩

/-- A driver without `MEMGETBADBLOCK`: the writer takes every block for good, the reader none. -/
theorem unsupported_unread : ¬ ∀ (driver : Driver) (partition : MtdPartition)
    (chunks : List (List UInt8)) (flash flash' : Nat → List UInt8),
    mtdWrite driver partition chunks flash = some flash' →
      RoundTrip driver partition chunks.flatten flash flash' := by
  intro h
  have hread := (h (.sound .notSupported) .small [[1, 2]] (fun _ => []) _ rfl).reads [1] (by decide)
  cases hread

end Recovery.MtdUtils
