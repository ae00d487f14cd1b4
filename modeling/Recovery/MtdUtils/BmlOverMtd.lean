import Recovery.Lib.CInt
import Recovery.MtdUtils.MtdUtils

/-!
# `mtdutils/bml_over_mtd.c`

A partition in which bad blocks are replaced by blocks of a reservoir partition.

* `Partition` — whole erase blocks, by offset. Every access is to one of them.
* `createBlockMapping` — the table of the reservoir, which is read from its last block on, and the
  check of the mapping.
* `flashBmlPartition`, `dumpBmlPartition` — a file is written, and the partition is read.

`none` is a null mapping, or the return value `-1`. The devices support `MEMGETBADBLOCK`; for an
offset that is not in the partition it fails. The two partitions do not overlap.

Entries are pairs of unsigned shorts with a mark in front; the table is the last of the good blocks
of the reservoir that has it.
-/

set_option autoImplicit false

namespace Recovery.MtdUtils.Bml

structure Partition where
  numBlocks : Nat
  eraseSize : Nat
  writeSize : Nat
  eraseSize_pos : 0 < eraseSize
  /-- The size is an `unsigned int`. -/
  size_lt : numBlocks * eraseSize < 2 ^ 32
  bad : Nat → Bool
  flash : Nat → List UInt8

namespace Partition

def size (p : Partition) : Nat := p.numBlocks * p.eraseSize

/-- `MEMGETBADBLOCK` returns 0. -/
def isGood (p : Partition) (pos : Nat) : Bool := decide (pos < p.size) && !p.bad pos

end Partition

/-- What the program is called for. -/
structure Setup where
  /-- The width of `size_t`. -/
  sizeBits : Nat
  le_sizeBits : 32 ≤ sizeBits
  src : Partition
  srcPartStartBlock : Int
  reservoir : Partition
  reservoirPartStartBlock : Int

/-- The calls of `CreateBlockMapping` that may fail, by offset and by block. -/
structure Host where
  srcInfo : Bool
  alloc : Bool
  reservoirInfo : Bool
  openReservoir : Bool
  read : Nat → Bool
  openSource : Bool
  reopenReservoir : Nat → Bool

/-! ## The table -/

def unsignedShort (z : Int) : Nat := (z % 2 ^ 16).toNat

/-- Two bytes of a buffer as an `unsigned short`. -/
def shortAt (buf : List UInt8) (i : Nat) : Nat :=
  (buf.getD i 0).toNat + 256 * (buf.getD (i + 1) 0).toNat

/-- The mark `UPCH` and the dummy entry. -/
def isTable (buf : List UInt8) : Bool :=
  buf.take 4 == [85, 80, 67, 72] && shortAt buf 0x1000 == 0 && shortAt buf 0x1002 == 0xffff

structure Entry where
  rawSrcBlk : Nat
  rawDstBlk : Nat
  deriving DecidableEq

/-- The entries that the loop over the table comes to. -/
def tableEntries (buf : List UInt8) : List Entry :=
  ((List.range 49).map fun i =>
    (⟨shortAt buf (0x1000 + 4 * (i + 1)), shortAt buf (0x1000 + 4 * (i + 1) + 2)⟩ : Entry)).takeWhile
    fun entry => entry.rawSrcBlk ≠ 0xffff

namespace Setup

variable (setup : Setup)

/-- "Mapped block not within reasonable reservoir area." -/
def outside (currOffset : Nat) (entry : Entry) : Prop :=
  let resAbsoluteStartAddress := setup.reservoirPartStartBlock * setup.reservoir.eraseSize
  (entry.rawDstBlk : Int) < setup.reservoirPartStartBlock ∨
    (resAbsoluteStartAddress + currOffset) % 2 ^ 32 ≤
      ((entry.rawDstBlk * setup.reservoir.eraseSize % 2 ^ setup.sizeBits : Nat) : Int)

instance (currOffset : Nat) (entry : Entry) : Decidable (setup.outside currOffset entry) := by
  unfold outside
  infer_instance

def inSource (entry : Entry) : Prop :=
  let srcLastBlock := Lib.toInt (setup.srcPartStartBlock + setup.src.numBlocks - 1)
  setup.srcPartStartBlock ≤ entry.rawSrcBlk ∧ (entry.rawSrcBlk : Int) ≤ srcLastBlock

instance (entry : Entry) : Decidable (setup.inSource entry) := by
  unfold inSource
  infer_instance

def relSrcBlk (entry : Entry) : Nat :=
  unsignedShort (entry.rawSrcBlk - setup.srcPartStartBlock)

def relDstBlk (entry : Entry) : Nat :=
  unsignedShort (entry.rawDstBlk - setup.reservoirPartStartBlock)

/-- The loop over the entries. Later entries replace former ones. -/
def mapEntries (currOffset : Nat) : List Entry → List Nat → Option (List Nat)
  | [], pMapping => some pMapping
  | entry :: rest, pMapping =>
    if setup.outside currOffset entry then none
    else if setup.inSource entry then
      mapEntries currOffset rest (pMapping.set (setup.relSrcBlk entry) (setup.relDstBlk entry))
    else mapEntries currOffset rest pMapping

/-- The loop over the blocks of the reservoir, from its last one down: the block of the table. -/
def findTable (host : Host) : Nat → Option Nat
  | 0 => none
  | block + 1 =>
    let currOffset := block * setup.reservoir.eraseSize
    if ¬ setup.reservoir.isGood currOffset then findTable host block
    else if ¬ host.read currOffset then none
    else if 0x2000 ≤ setup.reservoir.eraseSize ∧ isTable (setup.reservoir.flash currOffset) then
      some block
    else findTable host block

/-- The consistency and validity check, of one block. -/
def checkBlock (host : Host) (pMapping : List Nat) (currBlock : Nat) : Bool :=
  let mapped := pMapping.getD currBlock 0xffff
  if setup.src.isGood (currBlock * setup.src.eraseSize) then mapped == 0xffff
  else if mapped = 0xffff then false
  else host.reopenReservoir currBlock &&
    setup.reservoir.isGood (mapped * setup.reservoir.eraseSize % 2 ^ setup.sizeBits)

end Setup

open Setup in
/-- `CreateBlockMapping`. -/
def createBlockMapping (host : Host) (setup : Setup) : Option (List Nat) :=
  if ¬ host.srcInfo then none
  else if ¬ host.alloc then none
  else if ¬ host.reservoirInfo then none
  else if setup.reservoir.eraseSize ≠ setup.src.eraseSize ∨
      setup.reservoir.writeSize ≠ setup.src.writeSize then none
  else if ¬ host.openReservoir then none
  else if setup.reservoir.size < setup.reservoir.eraseSize ∨ 2 ^ 31 ≤ setup.reservoir.size then none
  else do
    let block ← setup.findTable host setup.reservoir.numBlocks
    let currOffset := block * setup.reservoir.eraseSize
    let pMapping ← setup.mapEntries currOffset (tableEntries (setup.reservoir.flash currOffset))
      (List.replicate setup.src.numBlocks 0xffff)
    if ¬ host.openSource then none
    else if (List.range setup.src.numBlocks).all (setup.checkBlock host pMapping) then some pMapping
    else none

/-! ## Flashing and dumping -/

/-- What the source partition (`false`) and the reservoir (`true`) hold, by offset. -/
abbrev Contents := Bool × Nat → List UInt8

/-- The calls that may fail, by block. -/
structure Io where
  opens : Bool
  read : Nat → Bool
  /-- The attempts to write a block. -/
  attempt : Nat → Nat → Attempt
  write : Nat → Bool
  closes : Bool

section

variable (setup : Setup) (pMapping : List Nat)

def contents : Contents := fun t => if t.1 then setup.reservoir.flash t.2 else setup.src.flash t.2

/-- Where a block is. -/
def target (currblock : Nat) : Bool × Nat :=
  let mapped := pMapping.getD currblock 0xffff
  if mapped = 0xffff then (false, currblock * setup.src.eraseSize)
  else (true, mapped * setup.src.eraseSize % 2 ^ 32)

def isGood (t : Bool × Nat) : Bool :=
  if t.1 then setup.reservoir.isGood t.2 else setup.src.isGood t.2

/-- `bml_over_mtd_write_block`. -/
def writeBlock (attempt : Nat → Attempt) (t : Bool × Nat) (data : List UInt8) : Bool :=
  isGood setup t && ((attempt 0).writes data || (attempt 1).writes data)

def setBlock (c : Contents) (t : Bool × Nat) (data : List UInt8) : Contents :=
  fun t' => if t' = t then data else c t'

/-- The next block of a file, filled up with `0xFF`. -/
def nextBlock (eraseSize : Nat) (file : List UInt8) : List UInt8 :=
  file.take eraseSize ++ List.replicate (eraseSize - file.length) 0xFF

/-- The loop of `flash_bml_partition` over the rest of the file. -/
def flashLoop (io : Io) : Nat → Nat → List UInt8 → Contents → Option Contents
  | 0, _, _, c => some c
  | n + 1, currblock, file, c =>
    if ¬ io.read currblock then none
    else
      let data := nextBlock setup.src.eraseSize file
      let t := target setup pMapping currblock
      if writeBlock setup (io.attempt currblock) t data then
        flashLoop io n (currblock + 1) (file.drop setup.src.eraseSize) (setBlock c t data)
      else none

/-- `flash_bml_partition`, and what the partitions hold then. -/
def flashBmlPartition (io : Io) (file : List UInt8) : Option Contents :=
  if ¬ io.opens then none
  else if setup.src.size < file.length then none
  else do
    let numBlocks := (file.length + setup.src.eraseSize - 1) / setup.src.eraseSize
    let c ← flashLoop setup pMapping io numBlocks 0 file (contents setup)
    if io.closes then some c else none

/-- The loop of `dump_bml_partition`: what is appended to the file. -/
def dumpLoop (io : Io) (c : Contents) : Nat → Nat → Option (List UInt8)
  | 0, _ => some []
  | n + 1, currblock =>
    if io.read currblock ∧ io.write currblock then do
      let rest ← dumpLoop io c n (currblock + 1)
      return c (target setup pMapping currblock) ++ rest
    else none

/-- `dump_bml_partition`, and the file that it writes. -/
def dumpBmlPartition (io : Io) (c : Contents) : Option (List UInt8) :=
  if ¬ io.opens then none
  else do
    let file ← dumpLoop setup pMapping io c setup.src.numBlocks 0
    if io.closes then some file else none

end

end Recovery.MtdUtils.Bml
