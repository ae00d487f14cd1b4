import Recovery.MtdUtils.Reader

/-!
# Backups of raw partitions (`mtdutils/mtdutils.c`)

`cmd_mtd_backup_raw_partition` reads a partition in pieces of 2048 bytes and writes them to a file.

## The command

* `Device` — a partition with its blocks, as the reader of `MtdUtils.lean` meets them.
* `backupLoop`, `cmdMtdBackupRawPartition` — the command.  The loop ends at the first negative value
  of `mtd_read_data`, whatever it stands for, and the command then returns 0.
* `Host` — the calls that may fail, apart from those of the reader.

## What a backup is to be

* `Complete` — a backup that is reported good holds all good blocks, and none is so reported when a
  good block cannot be read.
* `ReadThrough` — the reader comes to all good blocks: each can be read, and no answer of the device
  is in the way up to the last one.

## Results

* `readThrough_iff` — `ReadThrough`, block by block (`ReadsFrom`).
* `readBlockLoop_spec`, `exists_delivers` — one block, and all that the reader returns.
* `backupLoop_spec`, `Device.file_iff` — the file.
* `backup_complete_iff` — exactly when no backup that is reported good lacks a good block.
* `lost_block` — a block that cannot be read is left out, and the backup is reported good.
-/

set_option autoImplicit false

namespace Recovery.MtdUtils.Backup

structure Device extends MtdPartition where
  blocks : List EraseBlock
  blocks_length : blocks.length = size / eraseSize
  data_length : ∀ b ∈ blocks, b.data.length = eraseSize

section

variable (partition : MtdPartition)

def MTD_BLOCK_SIZE : Nat := 2048

/-- The loop of `cmd_mtd_backup_raw_partition`: what is in the file at its end, and `none` when a
write fails, the `k`-th one say. Every round takes a piece of the partition, so its size is enough
fuel. -/
def backupLoop (write : Nat → Bool) :
    Nat → Nat → List UInt8 → MtdReadContext → Option (List UInt8)
  | 0, _, out, _ => some out
  | fuel + 1, k, out, ctx =>
    match mtdReadData partition MTD_BLOCK_SIZE ctx with
    | none => some out
    | some (buf, ctx) =>
      if buf.length = 0 then some out
      else if write k then backupLoop write fuel (k + 1) (out ++ buf) ctx
      else none

end

/-- The calls that may fail, apart from those of the reader. -/
structure Host where
  scans : Bool
  /-- `mtd_partition_info`. -/
  info : Bool
  opens : Bool
  /-- `mtd_read_partition`. -/
  opensPartition : Bool
  write : Nat → Bool
  closes : Bool

/-- `cmd_mtd_backup_raw_partition` for what `mtd_find_partition_by_name` finds: the return value and
the file that it leaves. -/
def cmdMtdBackupRawPartition (host : Host) (partition : Option Device) :
    Int × Option (List UInt8) :=
  if ¬ host.scans then (-1, none)
  else
    match partition with
    | none => (-1, none)
    | some device =>
      if ¬ host.info then (-1, none)
      else if ¬ host.opens then (-1, none)
      else if ¬ host.opensPartition then (-1, none)
      else
        let ctx := mtdReadPartition device.blocks
        match backupLoop device.toMtdPartition host.write (device.size + 1) 0 [] ctx with
        | none => (-1, none)
        | some out => if host.closes then (0, some out) else (-1, none)

/-! ## What a backup is to be -/

def goodBlocks (blocks : List EraseBlock) : List EraseBlock :=
  blocks.filter fun b => !b.isBad

/-- A backup reported good is complete, and none is when a good block cannot be read. -/
structure Complete (device : Device) (r : Int × Option (List UInt8)) : Prop where
  file : r.1 = 0 → r.2 = some (contents (goodBlocks device.blocks))
  unreadable : (∃ b ∈ goodBlocks device.blocks, ¬ b.Readable) → r.1 ≠ 0

/-- All good blocks can be read, and up to the last one no answer of the device is in the way. -/
structure ReadThrough (blocks : List EraseBlock) : Prop where
  good : ∀ b ∈ goodBlocks blocks, b.Readable ∧ b.answers
  /-- `ECCGETSTATS` succeeds for the first block and behind every good block. -/
  statsBefore : ∀ pre b post, blocks = pre ++ b :: post → goodBlocks (b :: post) ≠ [] →
    (∀ c ∈ pre.getLast?, c.isBad = false) → b.statsBefore
  /-- It succeeds for every block that has been read. -/
  statsAfter : ∀ pre b post, blocks = pre ++ b :: post → goodBlocks (b :: post) ≠ [] →
    b.readOk → b.statsAfter
  /-- No failed reads directly before a good block raise the count. -/
  count : ∀ pre c run b post, blocks = pre ++ c :: (run ++ b :: post) → b.isBad = false →
    (∀ d ∈ c :: run, d.readOk = false) → c.eccFailed = 0

/-! ## The blocks one by one -/

/-- The reader comes to all good blocks of a list. A search may begin with it (`fresh`), and failed
reads before it may have raised the count (`pending`). -/
def ReadsFrom : Bool → Bool → List EraseBlock → Prop
  | _, _, [] => True
  | fresh, pending, b :: rest => goodBlocks (b :: rest) ≠ [] →
    (fresh → b.statsBefore) ∧ (b.readOk → b.statsAfter) ∧
      (b.isBad = false → b.Readable ∧ b.answers ∧ pending = false) ∧
      ReadsFrom (!b.isBad) (!b.readOk && (pending || b.eccFailed != 0)) rest

/-- `ReadThrough` for the part of a partition that `ReadsFrom` is about. -/
structure ThroughFrom (fresh pending : Bool) (blocks : List EraseBlock) : Prop where
  good : ∀ b ∈ goodBlocks blocks, b.Readable ∧ b.answers
  statsBefore : ∀ pre b post, blocks = pre ++ b :: post → goodBlocks (b :: post) ≠ [] →
    (pre = [] → fresh) → (∀ c ∈ pre.getLast?, c.isBad = false) → b.statsBefore
  statsAfter : ∀ pre b post, blocks = pre ++ b :: post → goodBlocks (b :: post) ≠ [] →
    b.readOk → b.statsAfter
  count : ∀ pre c run b post, blocks = pre ++ c :: (run ++ b :: post) → b.isBad = false →
    (∀ d ∈ c :: run, d.readOk = false) → c.eccFailed = 0
  pending : pending → ∀ run b post, blocks = run ++ b :: post → b.isBad = false →
    ¬ ∀ d ∈ run, d.readOk = false

theorem mem_goodBlocks {b : EraseBlock} {blocks : List EraseBlock} :
    b ∈ goodBlocks blocks ↔ b ∈ blocks ∧ b.isBad = false := by
  simp [goodBlocks]

theorem goodBlocks_cons_good {b : EraseBlock} (h : b.isBad = false) (rest : List EraseBlock) :
    goodBlocks (b :: rest) = b :: goodBlocks rest := by
  simp [goodBlocks, h]

theorem goodBlocks_cons_bad {b : EraseBlock} (h : b.isBad = true) (rest : List EraseBlock) :
    goodBlocks (b :: rest) = goodBlocks rest := by
  simp [goodBlocks, h]

theorem goodBlocks_append (blocks blocks' : List EraseBlock) :
    goodBlocks (blocks ++ blocks') = goodBlocks blocks ++ goodBlocks blocks' :=
  List.filter_append ..

theorem throughFrom_nil {fresh pending : Bool} {blocks : List EraseBlock}
    (h : goodBlocks blocks = []) : ThroughFrom fresh pending blocks := by
  have hnone : ∀ pre post, blocks = pre ++ post → goodBlocks post = [] := by
    intro pre post heq
    rw [heq, goodBlocks_append, List.append_eq_nil_iff] at h
    exact h.2
  have hbad : ∀ pre b post, blocks = pre ++ b :: post → b.isBad ≠ false := by
    intro pre b post heq hgood
    have hnil := hnone pre (b :: post) heq
    rw [goodBlocks_cons_good hgood] at hnil
    cases hnil
  refine ⟨?_, ?_, ?_, ?_, ?_⟩
  · intro b hb
    rw [h] at hb
    cases hb
  · exact fun pre b post heq hne => absurd (hnone pre _ heq) hne
  · exact fun pre b post heq hne => absurd (hnone pre _ heq) hne
  · intro pre c run b post heq hgood
    exact absurd hgood (hbad (pre ++ c :: run) b post (by rw [heq]; simp))
  · exact fun _ run b post heq hgood => absurd hgood (hbad run b post heq)

theorem throughFrom_cons {fresh pending : Bool} {b : EraseBlock} {rest : List EraseBlock}
    (hne : goodBlocks (b :: rest) ≠ []) :
    ThroughFrom fresh pending (b :: rest) ↔
      (fresh → b.statsBefore) ∧ (b.readOk → b.statsAfter) ∧
        (b.isBad = false → b.Readable ∧ b.answers ∧ pending = false) ∧
        ThroughFrom (!b.isBad) (!b.readOk && (pending || b.eccFailed != 0)) rest := by
  constructor
  · intro h
    refine ⟨fun hfresh => h.statsBefore [] b rest rfl hne (fun _ => hfresh) nofun,
      h.statsAfter [] b rest rfl hne, fun hgood => ?_, ?_, ?_, ?_, ?_, ?_⟩
    · obtain ⟨hread, hanswers⟩ := h.good b (mem_goodBlocks.2 ⟨List.mem_cons_self, hgood⟩)
      refine ⟨hread, hanswers, Bool.eq_false_iff.2 fun hpending => ?_⟩
      exact h.pending hpending [] b rest rfl hgood nofun
    · intro c hc
      obtain ⟨hmem, hgood⟩ := mem_goodBlocks.1 hc
      exact h.good c (mem_goodBlocks.2 ⟨List.mem_cons_of_mem _ hmem, hgood⟩)
    · intro pre c post heq hpost hfresh hlast
      refine h.statsBefore (b :: pre) c post (by rw [heq]; rfl) hpost nofun ?_
      cases pre with
      | nil =>
        intro d hd
        cases hd
        simpa using hfresh rfl
      | cons a pre =>
        rw [List.getLast?_cons_cons]
        exact hlast
    · exact fun pre c post heq => h.statsAfter (b :: pre) c post (by rw [heq]; rfl)
    · exact fun pre c run d post heq => h.count (b :: pre) c run d post (by rw [heq]; rfl)
    · intro hpending run c post heq hgood hrun
      obtain ⟨hread, hraised⟩ := Bool.and_eq_true_iff.1 hpending
      have hall : ∀ d ∈ b :: run, d.readOk = false :=
        List.forall_mem_cons.2 ⟨by simpa using hread, hrun⟩
      obtain hbefore | hraised := Bool.or_eq_true_iff.1 hraised
      · exact h.pending hbefore (b :: run) c post (by rw [heq]; rfl) hgood hall
      · have hzero := h.count [] b run c post (by rw [heq]; rfl) hgood hall
        simp [hzero] at hraised
  · rintro ⟨hbefore, hafter, hgood, h⟩
    refine ⟨?_, ?_, ?_, ?_, ?_⟩
    · intro c hc
      obtain ⟨hmem, hcgood⟩ := mem_goodBlocks.1 hc
      obtain rfl | hmem := List.mem_cons.1 hmem
      · exact ⟨(hgood hcgood).1, (hgood hcgood).2.1⟩
      · exact h.good c (mem_goodBlocks.2 ⟨hmem, hcgood⟩)
    · intro pre c post heq hpost hfresh hlast
      cases pre with
      | nil =>
        cases heq
        exact hbefore (hfresh rfl)
      | cons a pre =>
        cases heq
        refine h.statsBefore pre c post rfl hpost ?_ ?_
        · rintro rfl
          simpa using hlast _ rfl
        · cases pre with
          | nil => nofun
          | cons a' pre =>
            rw [List.getLast?_cons_cons] at hlast
            exact hlast
    · intro pre c post heq
      cases pre with
      | nil =>
        cases heq
        exact fun _ => hafter
      | cons a pre =>
        cases heq
        exact h.statsAfter pre c post rfl
    · intro pre c run d post heq hd hrun
      cases pre with
      | nil =>
        cases heq
        obtain ⟨hread, hrun⟩ := List.forall_mem_cons.1 hrun
        by_contra hraised
        refine h.pending ?_ run d post rfl hd hrun
        simp [hread, hraised]
      | cons a pre =>
        cases heq
        exact h.count pre c run d post rfl hd hrun
    · intro hpending run c post heq hc hrun
      cases run with
      | nil =>
        cases heq
        rw [(hgood hc).2.2] at hpending
        cases hpending
      | cons a run =>
        cases heq
        obtain ⟨hread, hrun⟩ := List.forall_mem_cons.1 hrun
        exact h.pending (by simp [hread, hpending]) run c post rfl hc hrun

theorem readsFrom_nil {fresh pending : Bool} {blocks : List EraseBlock}
    (h : goodBlocks blocks = []) : ReadsFrom fresh pending blocks := by
  cases blocks with
  | nil => trivial
  | cons b rest => exact fun hne => absurd h hne

theorem readsFrom_iff {fresh pending : Bool} {blocks : List EraseBlock} :
    ReadsFrom fresh pending blocks ↔ ThroughFrom fresh pending blocks := by
  induction blocks generalizing fresh pending with
  | nil => exact ⟨fun _ => throughFrom_nil rfl, fun _ => trivial⟩
  | cons b rest ih =>
    by_cases hne : goodBlocks (b :: rest) = []
    · exact ⟨fun _ => throughFrom_nil hne, fun _ => readsFrom_nil hne⟩
    · rw [throughFrom_cons hne, ReadsFrom, ih]
      exact ⟨fun h => h hne, fun h _ => h⟩

theorem readThrough_iff {blocks : List EraseBlock} :
    ReadThrough blocks ↔ ReadsFrom true false blocks := by
  rw [readsFrom_iff]
  constructor
  · intro h
    exact ⟨h.good, fun pre b post heq hne _ => h.statsBefore pre b post heq hne, h.statsAfter,
      h.count, nofun⟩
  · intro h
    exact ⟨h.good, fun pre b post heq hne => h.statsBefore pre b post heq hne fun _ => rfl,
      h.statsAfter, h.count⟩

/-! ## One block -/

section

variable {partition : MtdPartition}

/-- `read_block` has returned a good block of a list, and has skipped what stands before it. -/
structure Found (partition : MtdPartition) (fresh pending : Bool) (ahead : List EraseBlock)
    (data : List UInt8) (fd : Descriptor) (skipped : List EraseBlock) (b : EraseBlock) :
    Prop where
  data_eq : data = b.data
  isGood : b.isBad = false
  ahead_eq : ahead = skipped ++ b :: fd.ahead
  fits : fd.Fits partition
  reads : ReadsFrom fresh pending ahead ↔ goodBlocks skipped = [] ∧ ReadsFrom true false fd.ahead

/-- What `read_block` does with a list: without an answer it does not come to all good blocks. -/
def Outcome (partition : MtdPartition) (fresh pending : Bool) (ahead : List EraseBlock) :
    Option (List UInt8 × Descriptor) → Prop
  | none => goodBlocks ahead ≠ [] → ¬ ReadsFrom fresh pending ahead
  | some (data, fd) => ∃ skipped b, Found partition fresh pending ahead data fd skipped b

theorem goodBlocks_skip_ne {skipped rest : List EraseBlock} {b : EraseBlock}
    (h : b.isBad = false) : goodBlocks (skipped ++ b :: rest) ≠ [] := by
  rw [goodBlocks_append, goodBlocks_cons_good h]
  simp

/-- A block that is skipped must be bad. -/
theorem readsFrom_skip {pending : Bool} {b : EraseBlock} {rest : List EraseBlock}
    (hne : goodBlocks (b :: rest) ≠ []) (hafter : b.readOk → b.statsAfter)
    (hgood : b.isBad = false → ¬ (b.Readable ∧ b.answers ∧ pending = false)) :
    ReadsFrom false pending (b :: rest) ↔
      b.isBad = true ∧ ReadsFrom false (!b.readOk && (pending || b.eccFailed != 0)) rest := by
  rw [ReadsFrom]
  cases hbad : b.isBad with
  | false =>
    constructor
    · intro h
      exact absurd ((h hne).2.2.1 rfl) (hgood hbad)
    · rintro ⟨hfalse, -⟩
      cases hfalse
  | true =>
    constructor
    · exact fun h => ⟨rfl, (h hne).2.2.2⟩
    · exact fun h _ => ⟨nofun, hafter, nofun, h.2⟩

theorem Outcome.skip {pending pending' : Bool} {b : EraseBlock} {rest : List EraseBlock}
    {r : Option (List UInt8 × Descriptor)} (h : Outcome partition false pending' rest r)
    (hpending : pending' = (!b.readOk && (pending || b.eccFailed != 0)))
    (hafter : b.readOk → b.statsAfter)
    (hgood : b.isBad = false → ¬ (b.Readable ∧ b.answers ∧ pending = false)) :
    Outcome partition false pending (b :: rest) r := by
  subst hpending
  cases r with
  | none =>
    intro hne hreads
    obtain ⟨hbad, hreads⟩ := (readsFrom_skip hne hafter hgood).1 hreads
    rw [goodBlocks_cons_bad hbad] at hne
    exact h hne hreads
  | some r =>
    obtain ⟨skipped, c, hdata, hc, hahead, hfits, hreads⟩ := h
    refine ⟨b :: skipped, c, hdata, hc, by rw [hahead]; rfl, hfits, ?_⟩
    have hne : goodBlocks (b :: rest) ≠ [] := by
      rw [hahead]
      exact @goodBlocks_skip_ne (b :: skipped) r.2.ahead c hc
    rw [readsFrom_skip hne hafter hgood, hreads, ← and_assoc]
    refine and_congr_left fun _ => ?_
    cases hbad : b.isBad with
    | false => simp [goodBlocks_cons_good hbad]
    | true => simp [goodBlocks_cons_bad hbad]

theorem readBlockLoop_spec {ahead : List EraseBlock} {pos failed before : Nat}
    (hle : before ≤ failed) (hfits : Descriptor.Fits partition ⟨pos, ahead, failed⟩) :
    Outcome partition false (failed != before) ahead
      (readBlockLoop partition ahead pos failed before) := by
  induction ahead generalizing pos failed before with
  | nil => exact fun hne => absurd rfl hne
  | cons b ahead ih =>
    have hsum : pos + (ahead.length + 1) * partition.eraseSize =
        pos + partition.eraseSize + ahead.length * partition.eraseSize := by
      rw [Nat.add_mul, Nat.one_mul]
      lia
    have hnext : ∀ failed, Descriptor.Fits partition ⟨pos + partition.eraseSize, ahead, failed⟩ := by
      intro failed
      unfold Descriptor.Fits at hfits ⊢
      rw [List.length_cons, hsum] at hfits
      exact hfits
    have hpos : ((pos + partition.eraseSize : Nat) : Int) ≤ asInt partition.size := by
      have hall : ((pos + partition.eraseSize + ahead.length * partition.eraseSize : Nat) : Int) ≤
          asInt partition.size := hnext failed
      exact Int.le_trans (Int.ofNat_le.2 (Nat.le_add_right _ _)) hall
    rw [readBlockLoop, if_pos hpos]
    by_cases hread : b.readOk
    · rw [if_neg (not_not.2 hread)]
      by_cases hafter : b.statsAfter
      · rw [if_neg (not_not.2 hafter)]
        by_cases hcount : failed + b.eccFailed = before
        · rw [if_neg (not_not.2 hcount)]
          have hpending : (failed != before) = false := by simp; lia
          by_cases hmgbb : b.mgbb = 0
          · rw [if_neg (not_not.2 hmgbb)]
            obtain ⟨hanswers, hgood⟩ : b.answers ∧ b.isBad = false := by
              unfold EraseBlock.mgbb at hmgbb
              split at hmgbb
              · split at hmgbb <;> simp_all
              · cases hmgbb
            refine ⟨[], b, rfl, hgood, rfl, hnext _, ?_⟩
            have hreadable : b.Readable := ⟨hread, by lia⟩
            rw [ReadsFrom, hpending, hread, hgood]
            constructor
            · exact fun h => ⟨rfl, (h (by simp [goodBlocks_cons_good hgood])).2.2.2⟩
            · exact fun h _ => ⟨nofun, fun _ => hafter, fun _ => ⟨hreadable, hanswers, rfl⟩, h.2⟩
          · rw [if_pos hmgbb]
            refine (ih (by lia) (hnext _)).skip ?_ (fun _ => hafter) ?_
            · simp [hread, hcount]
            · rintro hgood ⟨-, hanswers, -⟩
              exact hmgbb (by simp [EraseBlock.mgbb, hanswers, hgood])
        · rw [if_pos hcount]
          refine (ih (Nat.le_refl _) (hnext _)).skip ?_ (fun _ => hafter) ?_
          · simp [hread]
          · rintro - ⟨⟨-, hzero⟩, -, hpending⟩
            rw [hzero] at hcount
            simp at hpending
            exact hcount hpending
      · rw [if_pos hafter]
        intro hne h
        rw [ReadsFrom] at h
        exact hafter ((h hne).2.1 hread)
    · rw [if_pos hread]
      refine (ih (by lia) (hnext _)).skip ?_ (fun hr => absurd hr hread) ?_
      · rw [Bool.eq_iff_iff]
        simp [hread]
        lia
      · rintro - ⟨⟨hr, -⟩, -⟩
        exact hread hr

theorem readBlock_spec {fd : Descriptor} (hfits : fd.Fits partition) :
    Outcome partition true false fd.ahead (readBlock partition fd) := by
  rw [readBlock]
  cases hahead : fd.ahead with
  | nil => exact fun hne => absurd rfl hne
  | cons b rest =>
    have hloop := @readBlockLoop_spec partition fd.ahead fd.pos fd.failed fd.failed
      (Nat.le_refl _) hfits
    rw [hahead, bne_self_eq_false] at hloop
    by_cases hstats : b.statsBefore
    · have hiff : ReadsFrom true false (b :: rest) ↔ ReadsFrom false false (b :: rest) := by
        rw [ReadsFrom, ReadsFrom]
        simp [hstats]
      simp only [hstats, if_true]
      cases hr : readBlockLoop partition (b :: rest) fd.pos fd.failed fd.failed with
      | none =>
        rw [hr] at hloop
        exact fun hne h => hloop hne (hiff.1 h)
      | some r =>
        rw [hr] at hloop
        obtain ⟨skipped, c, hdata, hc, hsplit, hfd, hreads⟩ := hloop
        exact ⟨skipped, c, hdata, hc, hsplit, hfd, hiff.trans hreads⟩
    · simp only [hstats]
      intro hne h
      rw [ReadsFrom] at h
      exact hstats ((h hne).1 rfl)

/-! ## All blocks -/

/-- **The reader returns good blocks in their order**, and all of them exactly when it comes to
them. -/
theorem exists_delivers {fd : Descriptor} (hfits : fd.Fits partition) :
    ∃ bs, Delivers partition True fd bs ∧ bs.Sublist (goodBlocks fd.ahead) ∧
      (bs = goodBlocks fd.ahead ↔ ReadsFrom true false fd.ahead) := by
  induction hn : fd.ahead.length using Nat.strong_induction_on generalizing fd with
  | _ n ih =>
    subst hn
    have hspec := readBlock_spec hfits
    cases hr : readBlock partition fd with
    | none =>
      rw [hr] at hspec
      refine ⟨[], .done fun _ => hr, List.nil_sublist _, fun h => readsFrom_nil h.symm, fun h => ?_⟩
      by_contra hne
      exact hspec (Ne.symm hne) h
    | some r =>
      rw [hr] at hspec
      obtain ⟨skipped, b, hdata, hgood, hahead, hfits', hreads⟩ := hspec
      have hlt : r.2.ahead.length < fd.ahead.length := by
        rw [hahead, List.length_append, List.length_cons]
        lia
      obtain ⟨bs, hbs, hsub, hiff⟩ := ih _ hlt hfits' rfl
      have hsplit : goodBlocks fd.ahead = goodBlocks skipped ++ b :: goodBlocks r.2.ahead := by
        rw [hahead, goodBlocks_append, goodBlocks_cons_good hgood]
      refine ⟨b :: bs, .next (by rw [hr, ← hdata]) hbs, ?_, ?_⟩
      · rw [hsplit]
        exact (hsub.cons_cons b).trans (List.sublist_append_right _ _)
      · rw [hreads, ← hiff, hsplit]
        constructor
        · intro heq
          have hlen := congrArg List.length heq
          have hle := hsub.length_le
          rw [List.length_cons, List.length_append, List.length_cons] at hlen
          have hnil : goodBlocks skipped = [] := List.length_eq_zero_iff.1 (by lia)
          rw [hnil] at heq
          exact ⟨hnil, (List.cons.inj heq).2⟩
        · rintro ⟨hnil, heq⟩
          rw [hnil, heq]
          rfl

/-- **The file holds whole pieces** of what the reader returns: what is left over is dropped. -/
theorem backupLoop_spec {write : Nat → Bool} {fuel k : Nat} {out rest : List UInt8}
    {ctx : MtdReadContext} (h : Holds partition True ctx rest)
    (hfuel : rest.length < MTD_BLOCK_SIZE * fuel)
    {file : List UInt8} (hfile : backupLoop partition write fuel k out ctx = some file) :
    file = out ++ rest.take (MTD_BLOCK_SIZE * (rest.length / MTD_BLOCK_SIZE)) := by
  have hpos : 0 < MTD_BLOCK_SIZE := by decide
  induction fuel generalizing k out rest ctx with
  | zero => simp at hfuel
  | succ fuel ih =>
    rw [backupLoop] at hfile
    have hdata := @mtdReadData_spec partition True MTD_BLOCK_SIZE (by decide) rest ctx h
    cases hr : mtdReadData partition MTD_BLOCK_SIZE ctx with
    | none =>
      rw [hr] at hdata hfile
      cases hdata with
      | short hshort =>
        rw [List.length_nil, Nat.zero_add] at hshort
        cases hfile
        rw [Nat.div_eq_of_lt hshort]
        simp
    | some r =>
      rw [hr] at hdata hfile
      cases hdata with
      | short _ hnone => cases hnone trivial
      | @moved buf ctx' n hmoved hfull =>
        have hn := hmoved.length
        have hle := hmoved.le
        have hholds := hmoved.holds
        have hbuf := hmoved.out_eq
        rw [hfull, List.length_nil, Nat.zero_add] at hn
        rw [← hn] at hle hholds hbuf
        simp only [hfull, if_neg (Nat.ne_of_gt hpos)] at hfile
        split at hfile
        · have hshorter : (rest.drop MTD_BLOCK_SIZE).length < MTD_BLOCK_SIZE * fuel := by
            rw [List.length_drop]
            rw [Nat.mul_succ] at hfuel
            omega
          have hdiv : rest.length / MTD_BLOCK_SIZE =
              1 + (rest.length - MTD_BLOCK_SIZE) / MTD_BLOCK_SIZE := by
            rw [Nat.div_eq_sub_div hpos hle, Nat.add_comm]
          rw [ih hholds hshorter hfile, hbuf, List.length_drop, hdiv, Nat.mul_add, Nat.mul_one,
            List.take_add, List.nil_append, List.append_assoc]
        · cases hfile

/-- Where no write fails, the loop ends well. -/
theorem backupLoop_ok {write : Nat → Bool} (hwrite : ∀ k, write k) (fuel k : Nat)
    (out : List UInt8) (ctx : MtdReadContext) :
    ∃ file, backupLoop partition write fuel k out ctx = some file := by
  induction fuel generalizing k out ctx with
  | zero => exact ⟨out, rfl⟩
  | succ fuel ih =>
    rw [backupLoop]
    split
    · exact ⟨out, rfl⟩
    · rw [hwrite]
      split
      · exact ⟨out, rfl⟩
      · exact ih ..

end

/-! ## The command -/

/-- The size is negative as an `int`: no block is within it. -/
theorem readBlock_negative {partition : MtdPartition} (h : asInt partition.size < 0)
    (fd : Descriptor) : readBlock partition fd = none := by
  rw [readBlock]
  cases fd.ahead with
  | nil => rfl
  | cons b rest =>
    have hpos : ¬ ((fd.pos + partition.eraseSize : Nat) : Int) ≤ asInt partition.size := by lia
    simp only [readBlockLoop, if_neg hpos, ite_self]

namespace Device

variable (device : Device)

/-- The device when it has been opened. -/
def start : MtdReadContext := mtdReadPartition device.blocks

theorem blocks_le : device.blocks.length * device.eraseSize ≤ device.size := by
  rw [device.blocks_length]
  exact Nat.div_mul_le_self ..

theorem good_length {b : EraseBlock} (h : b ∈ goodBlocks device.blocks) :
    b.data.length = device.eraseSize :=
  device.data_length b (mem_goodBlocks.1 h).1

/-- The good blocks that the reader returns. -/
theorem exists_read : ∃ bs, Delivers device.toMtdPartition True device.start.fd bs ∧
    bs.Sublist (goodBlocks device.blocks) ∧
    (bs = goodBlocks device.blocks ↔
      (goodBlocks device.blocks ≠ [] → device.size < 2 ^ 31 ∧ ReadThrough device.blocks)) := by
  by_cases hsize : device.size < 2 ^ 31
  · have hint : asInt device.size = device.size := by
      unfold asInt
      rw [Int.bmod_def]
      lia
    have hfits : device.start.fd.Fits device.toMtdPartition := by
      unfold Descriptor.Fits
      rw [asInt_eq hsize]
      have hle := device.blocks_le
      change ((0 + device.blocks.length * device.eraseSize : Nat) : Int) ≤ device.size
      lia
    obtain ⟨bs, hbs, hsub, hiff⟩ := exists_delivers hfits
    refine ⟨bs, hbs, hsub, hiff.trans ?_⟩
    change ReadsFrom true false device.blocks ↔ _
    rw [readThrough_iff]
    constructor
    · exact fun h _ => ⟨hsize, h⟩
    · intro h
      by_cases hne : goodBlocks device.blocks = []
      · exact readsFrom_nil hne
      · exact (h hne).2
  · have hneg : asInt device.size < 0 := by
      have hlt := device.size_lt
      unfold asInt
      rw [Int.bmod_def]
      lia
    refine ⟨[], .done fun _ => readBlock_negative hneg _, List.nil_sublist _, ?_⟩
    constructor
    · exact fun h hne => absurd h.symm hne
    · intro h
      by_contra hne
      exact hsize (h (Ne.symm hne)).1

/-- The file is complete when the good blocks are read, and are whole pieces. -/
theorem file_iff {write : Nat → Bool} {file : List UInt8}
    (hfile : backupLoop device.toMtdPartition write (device.size + 1) 0 [] device.start =
      some file) :
    file = contents (goodBlocks device.blocks) ↔
      (goodBlocks device.blocks ≠ [] → device.size < 2 ^ 31 ∧ ReadThrough device.blocks ∧
        MTD_BLOCK_SIZE ∣ (goodBlocks device.blocks).length * device.eraseSize) := by
  obtain ⟨bs, hbs, hsub, hiff⟩ := device.exists_read
  have hlen : ∀ b ∈ bs, b.data.length = device.eraseSize := fun b hb =>
    device.good_length (hsub.subset hb)
  have hgood := contents_length fun b => @device.good_length b
  have hread := contents_length hlen
  have hcount : bs.length * device.eraseSize ≤
      (goodBlocks device.blocks).length * device.eraseSize :=
    Nat.mul_le_mul_right _ hsub.length_le
  have hfuel : (contents bs).length < MTD_BLOCK_SIZE * (device.size + 1) := by
    have hle := device.blocks_le
    have hfilter : (goodBlocks device.blocks).length * device.eraseSize ≤
        device.blocks.length * device.eraseSize :=
      Nat.mul_le_mul_right _ (List.length_filter_le ..)
    rw [hread, MTD_BLOCK_SIZE]
    lia
  have hholds : Holds device.toMtdPartition True device.start (contents bs) := ⟨bs, hbs, hlen, rfl⟩
  have hspec := backupLoop_spec hholds hfuel hfile
  rw [List.nil_append] at hspec
  have hpieces := Nat.mul_div_le (contents bs).length MTD_BLOCK_SIZE
  constructor
  · intro heq hne
    have htake := congrArg List.length (hspec.symm.trans heq)
    rw [List.length_take, hgood] at htake
    have hsame : bs.length * device.eraseSize =
        (goodBlocks device.blocks).length * device.eraseSize := by lia
    have hall := hsub.eq_of_length (Nat.eq_of_mul_eq_mul_right device.eraseSize_pos hsame)
    obtain ⟨hsize, hthrough⟩ := hiff.1 hall hne
    refine ⟨hsize, hthrough, (contents bs).length / MTD_BLOCK_SIZE, ?_⟩
    lia
  · intro h
    have hall := hiff.2 fun hne => ⟨(h hne).1, (h hne).2.1⟩
    rw [hspec, hall, List.take_of_length_le]
    rw [hgood]
    by_cases hne : goodBlocks device.blocks = []
    · simp [hne]
    · exact Nat.le_of_eq (Nat.mul_div_cancel' (h hne).2.2).symm

end Device

theorem Complete.failed (device : Device) (file : Option (List UInt8)) :
    Complete device (-1, file) := ⟨nofun, fun _ => nofun⟩

/-- Nothing fails apart from the reader. -/
def Host.sound : Host := ⟨true, true, true, true, fun _ => true, true⟩

/-- **When backups are complete**: exactly when all good blocks can be read, no answer of the device
is in the way up to the last one, they are whole pieces of 2048 bytes, and the size of the partition
is not negative as an `int`. -/
theorem backup_complete_iff (device : Device) :
    (∀ host, Complete device (cmdMtdBackupRawPartition host (some device))) ↔
      (goodBlocks device.blocks ≠ [] → device.size < 2 ^ 31 ∧ ReadThrough device.blocks ∧
        MTD_BLOCK_SIZE ∣ (goodBlocks device.blocks).length * device.eraseSize) := by
  constructor
  · intro h
    obtain ⟨file, hfile⟩ := @backupLoop_ok device.toMtdPartition Host.sound.write (fun _ => rfl)
      (device.size + 1) 0 [] device.start
    have hcmd : cmdMtdBackupRawPartition Host.sound (some device) = (0, some file) := by
      unfold Device.start at hfile
      simp only [cmdMtdBackupRawPartition, Host.sound, not_true, if_false, if_true]
      rw [show (fun _ => true) = Host.sound.write from rfl, hfile]
    have hcomplete := h Host.sound
    rw [hcmd] at hcomplete
    exact (device.file_iff hfile).1 (Option.some.inj (hcomplete.file rfl))
  · intro h host
    rw [cmdMtdBackupRawPartition]
    split
    · exact .failed device none
    simp only
    split
    · exact .failed device none
    split
    · exact .failed device none
    split
    · exact .failed device none
    cases hfile : backupLoop device.toMtdPartition host.write (device.size + 1) 0 []
        (mtdReadPartition device.blocks) with
    | none => exact .failed device none
    | some file =>
      simp only
      split
      · refine ⟨fun _ => congrArg some ((device.file_iff hfile).2 h), ?_⟩
        rintro ⟨b, hb, hunreadable⟩
        have hne : goodBlocks device.blocks ≠ [] := List.ne_nil_of_mem hb
        exact absurd ((h hne).2.1.good b hb).1 hunreadable
      · exact .failed device none

/-- Two good blocks of 2048 bytes. The first cannot be read. -/
def lostDevice : Device where
  size := 4096
  eraseSize := 2048
  size_lt := by decide
  eraseSize_lt := by decide
  eraseSize_pos := by decide
  blocks := [⟨List.replicate 2048 1, false, true, false, 0, true, true⟩,
    ⟨List.replicate 2048 2, false, true, true, 0, true, true⟩]
  blocks_length := by decide
  data_length := by
    intro b hb
    obtain rfl | hb := List.mem_cons.1 hb
    · exact List.length_replicate
    · rw [List.mem_singleton.1 hb]
      exact List.length_replicate

/-- The first block is left out, and the return value is 0. -/
theorem lost_block :
    ¬ Complete lostDevice (cmdMtdBackupRawPartition Host.sound (some lostDevice)) := by
  intro h
  refine h.unreadable ?_ (by decide +kernel)
  refine ⟨_, List.mem_cons_self, ?_⟩
  rintro ⟨hread, -⟩
  cases hread

end Recovery.MtdUtils.Backup
