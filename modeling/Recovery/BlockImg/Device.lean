import Mathlib.Data.List.AList
import Recovery.Lib.Crash
import Recovery.Lib.Fill
import Recovery.OtaUtil.RangeSet

/-!
# State and device I/O of `updater/blockimg.cpp`

* `Disk` — what survives a power loss: the target device, the stash directory and the last
  command file.  `St` adds the volatile part: the descriptor's offset, the process-wide
  `stash_map` and the `CommandParameters`.
* `Env` — what does not change during a run, with SHA-1 and the patch functions.
* Every I/O operation consumes one `Fate` of `St.fates`; an exhausted list means that everything
  else succeeds.  A write or discard that fails or is cut by a power loss may have done part of
  its work.

The target has a fixed size: a write past the end fails, as on a block device.
-/

set_option autoImplicit false

namespace Recovery.BlockImg

open Recovery.Lib Recovery.OtaUtil

def BLOCKSIZE : Nat := 4096

/-- The bytes of `n` blocks, as a `size_t`. -/
def blockBytes (n : Nat) : Nat := n * BLOCKSIZE % 2 ^ 64

structure Disk where
  dev : Nat → UInt8
  /-- The stash directory of this device exists. -/
  stashDir : Bool
  /-- The files in it. -/
  stash : AList (fun _ : String => List UInt8)
  /-- `last_command_file`. -/
  lastCommand : Option String

/-- The parts of `CommandParameters` that commands read and write. -/
structure CommandParameters where
  tokens : List String
  cpos : Nat
  cmdindex : Int
  cmdname : String
  cmdline : String
  freestash : String
  createdstash : Int
  foundwrites : Bool
  isunresumable : Bool
  version : Int
  written : Nat
  stashed : Nat
  buffer : List UInt8
  patchStart : Nat
  targetVerified : Bool

/-- `CommandParameters params = {}`. -/
def initParams (version : Int) (patchStart : Nat) : CommandParameters where
  tokens := []
  cpos := 0
  cmdindex := 0
  cmdname := ""
  cmdline := ""
  freestash := ""
  createdstash := 0
  foundwrites := false
  isunresumable := false
  version := version
  written := 0
  stashed := 0
  buffer := []
  patchStart := patchStart
  targetVerified := false

structure Env where
  base : AndroidBase
  /-- `params.canwrite`: an update, not a verification. -/
  canwrite : Bool
  sha1 : List UInt8 → List UInt8
  blockdevFilename : String
  /-- The file of the stash directory that a stash id leads to as a path in it. -/
  stashFile : String → String
  /-- Size of the target device in bytes. -/
  devSize : Nat
  /-- The target is a block device. -/
  isBlk : Bool
  isRetry : Bool
  /-- Built with `SUPPRESS_EMMC_WIPE`. -/
  suppressEmmcWipe : Bool
  /-- What a discarded byte reads as. -/
  discarded : Nat → UInt8
  /-- The mapped package. -/
  package : List UInt8
  /-- The pieces `ApplyImagePatch` hands to its sink for a source and a patch, and whether it
  succeeds once the sink has taken them all. -/
  applyImagePatch : List UInt8 → List UInt8 → List (List UInt8) × Bool
  /-- The same for `ApplyBSDiffPatch`. -/
  applyBSDiffPatch : List UInt8 → List UInt8 → List (List UInt8) × Bool

structure St where
  disk : Disk
  pos : Nat
  fates : List Fate
  /-- Some operation on the target device has failed. -/
  devError : Bool
  stashMap : AList (fun _ : String => RangeSet)
  params : CommandParameters

abbrev M := EStateM Stop St

variable (E : Env)

/-! ## Operations on the target -/

/-- The fate of the next I/O operation. -/
def nextFate : M Fate := fun s =>
  match s.fates with
  | [] => .ok .ok s
  | f :: fs => .ok f { s with fates := fs }

/-- An operation that succeeds, fails without effect, or never takes place. -/
def ioOk : M Bool := do
  match ← nextFate with
  | .ok => return true
  | .fail _ => return false
  | .crash _ => throw .crash

/-- Store `bs` at the descriptor's offset and move it. -/
def putBytes (bs : List UInt8) : M Unit :=
  modify fun s => { s with
    disk.dev := fill s.disk.dev (List.range' s.pos bs.length) bs
    pos := s.pos + bs.length }

def setDevError : M Unit := modify fun s => { s with devError := true }

def checkLseek (offset : Nat) : M Bool := do
  if ← ioOk then
    modify fun s => { s with pos := offset }
    return true
  else
    setDevError
    return false

/-- `read_all`: whether it succeeds, and what it has read. -/
def readAll (size : Nat) : M (Bool × List UInt8) := do
  let s ← get
  let room := E.devSize - s.pos
  match ← nextFate with
  | .ok =>
    let data := (List.range' s.pos (min size room)).map s.disk.dev
    modify fun s => { s with pos := s.pos + data.length }
    if size ≤ room then return (true, data)
    else
      setDevError
      return (false, data)
  | .fail n =>
    let data := (List.range' s.pos (min (min n size) room)).map s.disk.dev
    modify fun s => { s with pos := s.pos + data.length }
    setDevError
    return (false, data)
  | .crash _ => throw .crash

/-- `write_all`; `false` is `-1`. -/
def writeAll (data : List UInt8) : M Bool := do
  let s ← get
  let room := E.devSize - s.pos
  match ← nextFate with
  | .ok =>
    putBytes (data.take room)
    if data.length ≤ room then return true
    else
      setDevError
      return false
  | .fail n =>
    putBytes (data.take (min n room))
    setDevError
    return false
  | .crash n =>
    putBytes (data.take (min n room))
    throw .crash

/-- Discard up to `n` bytes from `offset` on. -/
def dropBytes (offset n : Nat) : M Unit :=
  modify fun s => { s with
    disk.dev := fill s.disk.dev (List.range' offset n) ((List.range' offset n).map E.discarded) }

/-- The `BLKDISCARD` ioctl. -/
def blkDiscard (offset size : Nat) : M Bool := do
  match ← nextFate with
  | .ok =>
    if E.isBlk then
      dropBytes E offset size
      return true
    else
      setDevError
      return false
  | .fail n =>
    dropBytes E offset (if E.isBlk then min n size else 0)
    setDevError
    return false
  | .crash n =>
    dropBytes E offset (if E.isBlk then min n size else 0)
    throw .crash

def discardBlocks (offset size : Nat) : M Bool :=
  if ¬ E.isRetry then return true else blkDiscard E offset size

/-- `allocate`. -/
def allocate (size : Nat) (buffer : List UInt8) : List UInt8 :=
  if size ≤ buffer.length then buffer
  else buffer ++ List.replicate (size - buffer.length) 0

/-- Copy `data` over `buffer` from `p` on; writing past the end is an overrun. -/
def overwrite (buffer : List UInt8) (p : Nat) (data : List UInt8) : M (List UInt8) :=
  if p + data.length ≤ buffer.length then
    return buffer.take p ++ data ++ buffer.drop (p + data.length)
  else throw .overrun

/-- The loop of `ReadBlocks`, with `p` bytes already read. -/
def readBlocksLoop : List Range → Nat → List UInt8 → M (Bool × List UInt8)
  | [], _, buffer => return (true, buffer)
  | range :: ranges, p, buffer => do
    if ← checkLseek (range.1 * BLOCKSIZE) then
      let size := Range.blocks range * BLOCKSIZE
      let (ok, data) ← readAll E size
      let buffer ← overwrite buffer p data
      if ok then readBlocksLoop ranges (p + size) buffer
      else return (false, buffer)
    else return (false, buffer)

/-- `ReadBlocks`: whether it succeeds, and the buffer afterwards. -/
def readBlocks (src : RangeSet) (buffer : List UInt8) : M (Bool × List UInt8) :=
  readBlocksLoop E src.ranges 0 buffer

/-- The loop of `WriteBlocks`, with `written` bytes already written. -/
def writeBlocksLoop (buffer : List UInt8) : List Range → Nat → M Bool
  | [], _ => return true
  | range :: ranges, written => do
    let offset := range.1 * BLOCKSIZE
    let size := Range.blocks range * BLOCKSIZE
    if ← discardBlocks E offset size then
      if ← checkLseek offset then
        if written + size ≤ buffer.length then
          if ← writeAll E ((buffer.drop written).take size) then
            writeBlocksLoop buffer ranges (written + size)
          else return false
        else throw .overrun
      else return false
    else return false

/-- `WriteBlocks`. -/
def writeBlocks (tgt : RangeSet) (buffer : List UInt8) : M Bool :=
  writeBlocksLoop E buffer tgt.ranges 0

/-! ## A small device for examples -/

/-- Three blocks; a block's hash is its first byte.  A path may start with `./`. -/
def Env.small : Env where
  base := .decimal
  canwrite := true
  sha1 data := data.take 1
  blockdevFilename := "system"
  stashFile id :=
    match id.toList with
    | '.' :: '/' :: name => String.ofList name
    | _ => id
  devSize := 3 * BLOCKSIZE
  isBlk := true
  isRetry := false
  suppressEmmcWipe := false
  discarded _ := 0
  package := []
  applyImagePatch _ _ := ([], false)
  applyBSDiffPatch _ _ := ([], false)

/-- Zeros on the device, and an empty stash directory. -/
def St.zeros (lastCommand : Option String) (fates : List Fate) : St where
  disk := { dev := fun _ => 0, stashDir := true, stash := ∅, lastCommand := lastCommand }
  pos := 0
  fates := fates
  devError := false
  stashMap := ∅
  params := initParams 0 0

end Recovery.BlockImg
