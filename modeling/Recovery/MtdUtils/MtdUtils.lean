import Mathlib.Algebra.Order.Ring.Int

/-!
# `mtdutils/mtdutils.c`

Raw access to a flash partition in whole erase blocks.

## The device

* `Driver` — how the device and its driver treat each block, by offset: the answer to
  `MEMGETBADBLOCK`, the two attempts to write it, and what happens when it is read later.
* `EraseBlock` — a block as a reader meets it, with what it holds.
* `Descriptor` — an open device: the offset, the blocks from there on, and its count of failures.

Every access is to one whole erase block, so the flash is a map from offsets to the contents of
blocks.  Reading may raise `ecc_stats.failed`, and the ioctl `ECCGETSTATS` may fail, before a search
for a block as well as after a read.  All seeks succeed.

## The operations

* `writeBlock`, `mtdWriteData`, `mtdEraseNoBlocks`, `mtdWriteClose` — the writer.
* `readBlock`, `mtdReadData` — the reader.  `cmd_mtd_backup_raw_partition` (`Backup.lean`) reads
  through it, and so does whoever wants back what the writer has written (`RoundTrip.lean`).
* `mtdWrite`, `mtdRead` — any number of calls of `mtd_write_data` with the `mtd_write_close` behind
  them, and any number of calls of `mtd_read_data`.

`none` is the return value `-1`.
-/

set_option autoImplicit false

namespace Recovery.MtdUtils

/-- A 32-bit value seen as an `int`. -/
def asInt (n : Nat) : Int := (n : Int).bmod (2 ^ 32)

theorem asInt_eq {n : Nat} (h : n < 2 ^ 31) : asInt n = n := by
  unfold asInt
  rw [Int.bmod_def]
  lia

structure MtdPartition where
  /-- An `unsigned int`, like the next. -/
  size : Nat
  eraseSize : Nat
  size_lt : size < 2 ^ 32
  eraseSize_lt : eraseSize < 2 ^ 32
  eraseSize_pos : 0 < eraseSize

/-- The answer to `MEMGETBADBLOCK`. -/
inductive BadBlock where
  | good
  /-- A positive answer, or `-1` with another error than `EOPNOTSUPP`. -/
  | bad
  | notSupported
  deriving DecidableEq

/-- What a write leaves in a block. -/
inductive Written where
  | asGiven
  | spoilt (f : List UInt8 → List UInt8) (h : ∀ data, f data ≠ data)

def Written.contents : Written → List UInt8 → List UInt8
  | .asGiven, data => data
  | .spoilt f _, data => f data

def Written.isGiven : Written → Bool
  | .asGiven => true
  | .spoilt _ _ => false

/-- An attempt to erase, write and verify a block. -/
structure Attempt where
  eraseOk : Bool
  written : Written
  rereadOk : Bool

structure Driver where
  memGetBadBlock : Nat → BadBlock
  /-- The attempts to write the block at an offset, by `retry`. -/
  attempt : Nat → Nat → Attempt
  /-- The contents of a block that the writer has given up and tried to erase. -/
  abandoned : Nat → List UInt8
  closeOk : Bool
  readOk : Nat → Bool
  /-- How far reading the block raises `ecc_stats.failed`, whether or not the read succeeds. -/
  eccFailed : Nat → Nat
  /-- Whether `ECCGETSTATS` succeeds before a search for a block that begins at the offset. -/
  statsBefore : Nat → Bool
  /-- Whether it succeeds when the block has been read. -/
  statsAfter : Nat → Bool

variable (driver : Driver) (partition : MtdPartition)

/-! ## The writer -/

structure MtdWriteContext where
  /-- The bytes stored in the buffer. -/
  buffer : List UInt8
  /-- The offset of the descriptor. -/
  pos : Nat
  /-- What the blocks of the device hold. -/
  flash : Nat → List UInt8

def mtdWritePartition (flash : Nat → List UInt8) : MtdWriteContext := ⟨[], 0, flash⟩

/-- One round of the retry loop. -/
def Attempt.writes (a : Attempt) (data : List UInt8) : Bool :=
  a.eraseOk && a.rereadOk && a.written.contents data == data

def Driver.writes (pos : Nat) (data : List UInt8) : Bool :=
  (driver.attempt pos 0).writes data || (driver.attempt pos 1).writes data

def setBlock (flash : Nat → List UInt8) (pos : Nat) (data : List UInt8) : Nat → List UInt8 :=
  fun x => if x = pos then data else flash x

/-- The loop of `write_block` from offset `pos` on.  It moves on by at least one byte a round, so
the size of the partition is enough fuel. -/
def writeBlockLoop (data : List UInt8) (ctx : MtdWriteContext) :
    Nat → Nat → (Nat → List UInt8) → Option MtdWriteContext
  | 0, _, _ => none
  | fuel + 1, pos, flash =>
    if ((pos + partition.eraseSize : Nat) : Int) ≤ asInt partition.size then
      if driver.memGetBadBlock pos = .bad then
        writeBlockLoop data ctx fuel (pos + partition.eraseSize) flash
      else if driver.writes pos data then
        some { ctx with
          pos := pos + partition.eraseSize
          flash := setBlock flash pos data }
      else
        writeBlockLoop data ctx fuel (pos + partition.eraseSize)
          (setBlock flash pos (driver.abandoned pos))
    else none

/-- `write_block`. -/
def writeBlock (data : List UInt8) (ctx : MtdWriteContext) : Option MtdWriteContext :=
  writeBlockLoop driver partition data ctx (partition.size + 1) ctx.pos ctx.flash

/-- If a complete block was accumulated, write it. -/
def writeAccumulated (buffer : List UInt8) (ctx : MtdWriteContext) : Option MtdWriteContext :=
  if buffer.length = partition.eraseSize then
    (writeBlock driver partition buffer ctx).map fun ctx => { ctx with buffer := [] }
  else some { ctx with buffer := buffer }

/-- The inner loop of `mtd_write_data`: complete blocks go directly from the user's buffer. -/
def writeDirect : Nat → List UInt8 → MtdWriteContext → Option (List UInt8 × MtdWriteContext)
  | 0, rest, ctx => some (rest, ctx)
  | fuel + 1, rest, ctx =>
    if ctx.buffer = [] ∧ partition.eraseSize ≤ rest.length then do
      let ctx ← writeBlock driver partition (rest.take partition.eraseSize) ctx
      writeDirect fuel (rest.drop partition.eraseSize) ctx
    else some (rest, ctx)

/-- The loop of `mtd_write_data` over the data not yet taken.  Every round takes at least one byte,
so the size of the data is enough fuel. -/
def mtdWriteLoop : Nat → List UInt8 → MtdWriteContext → Option MtdWriteContext
  | 0, _, ctx => some ctx
  | fuel + 1, rest, ctx =>
    if rest = [] then some ctx
    else do
      let copy :=
        if ctx.buffer ≠ [] ∨ rest.length < partition.eraseSize then
          min rest.length (partition.eraseSize - ctx.buffer.length)
        else 0
      let ctx ← writeAccumulated driver partition (ctx.buffer ++ rest.take copy) ctx
      let (rest, ctx) ← writeDirect driver partition (rest.drop copy).length (rest.drop copy) ctx
      mtdWriteLoop fuel rest ctx

/-- `mtd_write_data`. -/
def mtdWriteData (data : List UInt8) (ctx : MtdWriteContext) : Option MtdWriteContext :=
  mtdWriteLoop driver partition data.length data ctx

/-- `mtd_erase_blocks(ctx, 0)`: pending data is padded and written. -/
def mtdEraseNoBlocks (ctx : MtdWriteContext) : Option MtdWriteContext :=
  if ctx.buffer ≠ [] then
    let padding := partition.eraseSize - ctx.buffer.length
    (writeBlock driver partition (ctx.buffer ++ List.replicate padding 0) ctx).map fun ctx =>
      { ctx with buffer := [] }
  else some ctx

/-- `mtd_write_close`; the value is what the flash holds. -/
def mtdWriteClose (ctx : MtdWriteContext) : Option (Nat → List UInt8) := do
  let ctx ← mtdEraseNoBlocks driver partition ctx
  if driver.closeOk then some ctx.flash else none

/-! ## The reader -/

/-- An erase block of the device, as a reader meets it. -/
structure EraseBlock where
  data : List UInt8
  isBad : Bool
  /-- Whether `MEMGETBADBLOCK` succeeds. -/
  answers : Bool
  readOk : Bool
  /-- How far reading the block raises `ecc_stats.failed`, whether or not the read succeeds. -/
  eccFailed : Nat
  /-- Whether `ECCGETSTATS` succeeds before a search for a block that begins here. -/
  statsBefore : Bool
  /-- Whether it succeeds when the block has been read. -/
  statsAfter : Bool

/-- The value of the ioctl `MEMGETBADBLOCK`. -/
def EraseBlock.mgbb (b : EraseBlock) : Int :=
  if b.answers then (if b.isBad then 1 else 0) else -1

/-- An open device. -/
structure Descriptor where
  /-- The offset. -/
  pos : Nat
  /-- The blocks from the offset on. -/
  ahead : List EraseBlock
  /-- `ecc_stats.failed` of the device. -/
  failed : Nat

structure MtdReadContext where
  /-- The bytes of the buffer that have not been consumed. -/
  unread : List UInt8
  fd : Descriptor

def mtdReadPartition (blocks : List EraseBlock) : MtdReadContext := ⟨[], 0, blocks, 0⟩

/-- The loop of `read_block`, with the count of the device and the one to compare it with.  A read
that fails may raise the first; only one that succeeds has the second follow it. -/
def readBlockLoop :
    List EraseBlock → Nat → Nat → Nat → Option (List UInt8 × Descriptor)
  | [], _, _, _ => none
  | b :: ahead, pos, failed, before =>
    if ((pos + partition.eraseSize : Nat) : Int) ≤ asInt partition.size then
      let after := failed + b.eccFailed
      if ¬ b.readOk then readBlockLoop ahead (pos + partition.eraseSize) after before
      else if ¬ b.statsAfter then none
      else if after ≠ before then readBlockLoop ahead (pos + partition.eraseSize) after after
      else if b.mgbb ≠ 0 then readBlockLoop ahead (pos + partition.eraseSize) after before
      else some (b.data, ⟨pos + partition.eraseSize, ahead, after⟩)
    else none

/-- `read_block`. -/
def readBlock (fd : Descriptor) : Option (List UInt8 × Descriptor) :=
  match fd.ahead with
  | [] => none
  | b :: _ =>
    if b.statsBefore then readBlockLoop partition fd.ahead fd.pos fd.failed fd.failed else none

/-- The inner loop of `mtd_read_data`: complete blocks go directly into the user's buffer. -/
def readDirect (len : Nat) :
    Nat → List UInt8 → MtdReadContext → Option (List UInt8 × MtdReadContext)
  | 0, out, ctx => some (out, ctx)
  | fuel + 1, out, ctx =>
    if ctx.unread = [] ∧ partition.eraseSize ≤ len - out.length then do
      let (block, fd) ← readBlock partition ctx.fd
      readDirect len fuel (out ++ block) { ctx with fd }
    else some (out, ctx)

/-- The loop of `mtd_read_data`, with what has been read.  Every round but one that fills the buffer
reads at least one byte. -/
def mtdReadLoop (len : Nat) :
    Nat → List UInt8 → MtdReadContext → Option (List UInt8 × MtdReadContext)
  | 0, out, ctx => some (out, ctx)
  | fuel + 1, out, ctx =>
    if (out.length : Int) < asInt len then do
      let copy := min (len - out.length) ctx.unread.length
      let (out, ctx) ← readDirect partition len (len - out.length)
        (out ++ ctx.unread.take copy) { ctx with unread := ctx.unread.drop copy }
      if asInt len ≤ out.length then some (out, ctx)
      else if ctx.unread = [] then
        let (block, fd) ← readBlock partition ctx.fd
        mtdReadLoop len fuel out ⟨block, fd⟩
      else mtdReadLoop len fuel out ctx
    else some (out, ctx)

/-- `mtd_read_data`; `none` is the return value `-1`. -/
def mtdReadData (len : Nat) (ctx : MtdReadContext) : Option (List UInt8 × MtdReadContext) :=
  mtdReadLoop partition len (len + 1) [] ctx

/-! ## Whole uses -/

/-- A partition written through any number of `mtd_write_data` calls, and closed. -/
def mtdWrite (chunks : List (List UInt8)) (flash : Nat → List UInt8) :
    Option (Nat → List UInt8) := do
  let ctx ← chunks.foldlM (fun ctx data => mtdWriteData driver partition data ctx)
    (mtdWritePartition flash)
  mtdWriteClose driver partition ctx

/-- The block at an offset. -/
def Driver.eraseBlock (flash : Nat → List UInt8) (pos : Nat) : EraseBlock where
  data := flash pos
  isBad := driver.memGetBadBlock pos = .bad
  answers := driver.memGetBadBlock pos ≠ .notSupported
  readOk := driver.readOk pos
  eccFailed := driver.eccFailed pos
  statsBefore := driver.statsBefore pos
  statsAfter := driver.statsAfter pos

/-- The blocks of the partition. -/
def Driver.blocks (flash : Nat → List UInt8) : List EraseBlock :=
  (List.range (partition.size / partition.eraseSize)).map fun b =>
    driver.eraseBlock flash (b * partition.eraseSize)

/-- Successive `mtd_read_data` calls: all that they return. -/
def mtdRead : List Nat → MtdReadContext → Option (List UInt8)
  | [], _ => some []
  | len :: lens, ctx => do
    let (out, ctx) ← mtdReadData partition len ctx
    let rest ← mtdRead lens ctx
    return out ++ rest

end Recovery.MtdUtils
