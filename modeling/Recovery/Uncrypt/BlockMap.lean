import Recovery.Lib.CInt
import Recovery.Lib.Scanf
import Recovery.Lib.Splice

/-!
# The writer of a block map (`uncrypt/uncrypt.cpp`)

* `Package` — the arguments of `produce_block_map`; the file is read through the mounted, decrypted
  file system.
* `Os` — the results of the system calls by number: `FIBMAP` answers with a block of the device, any
  other call only succeeds or fails.
* `UncryptState` — the locals of `produce_block_map`, the block device and the writes made to it.
* `produceBlockMap` — the function, with the contents of the map file that it leaves.

An error ends the function before it renames the temporary map, or after that, when only the
directory is left to be synced.  The progress reports are left out.
-/

set_option autoImplicit false

namespace Recovery.Uncrypt

open Recovery.Lib

inductive ErrorCode where
  | kUncryptFileRemoveError
  | kUncryptFileOpenError
  | kUncryptSocketWriteError
  | kUncryptFileStatError
  | kUncryptBlockOpenError
  | kUncryptIoctlError
  | kUncryptReadError
  | kUncryptWriteError
  | kUncryptFileSyncError
  | kUncryptFileCloseError
  | kUncryptFileRenameError
  deriving DecidableEq, Repr

def WINDOW_SIZE : Nat := 5

def FIBMAP_RETRY_LIMIT : Nat := 3

structure Package where
  /-- The contents of the file at `path`, of `sb.st_size` bytes. -/
  data : List UInt8
  /-- `sb.st_blksize`. -/
  blksize : Nat
  blkDev : List Char
  encrypted : Bool
  f2fsFs : Bool

structure Os where
  /-- The system call of this number succeeds. -/
  succeeds : Nat → Bool
  /-- What the `FIBMAP` of this number stores for a block of the file; `none` is a failure. -/
  fibmap : Nat → Int → Option Int

structure UncryptState where
  calls : Nat
  pos : Nat
  headBlock : Int
  head : Nat
  tail : Nat
  buffers : List (List UInt8)
  ranges : List Int
  device : List UInt8
  /-- Where each write to the device went, and its data. -/
  writes : List (Int × List UInt8)

abbrev Result := Except ErrorCode UncryptState

variable (O : Os) (P : Package)

/-! ## System calls -/

/-- A call whose failure ends the function with `code`. -/
def sys (code : ErrorCode) (s : UncryptState) : Result :=
  if O.succeeds s.calls then .ok { s with calls := s.calls + 1 } else .error code

/-- A call that is only made under a condition. -/
def sysIf (b : Bool) (code : ErrorCode) (s : UncryptState) : Result :=
  if b then sys O code s else .ok s

/-- `ioctl(fd, FIBMAP, &block)`. -/
def ioctlFibmap (block : Int) (s : UncryptState) : Except ErrorCode (Int × UncryptState) :=
  match O.fibmap s.calls block with
  | some b => .ok (b, { s with calls := s.calls + 1 })
  | none => .error .kUncryptIoctlError

/-- `write_at_offset` on the block device. -/
def writeAtOffset (buffer : List UInt8) (offset : Int) (s : UncryptState) : Result :=
  if 0 ≤ offset ∧ offset + buffer.length ≤ s.device.length then
    sys O .kUncryptWriteError { s with
      device := splice s.device offset.toNat buffer
      writes := s.writes ++ [(offset, buffer)] }
  else .error .kUncryptWriteError

/-! ## Ranges -/

/-- `add_block_to_ranges`. -/
def addBlockToRanges (ranges : List Int) (newBlock : Int) : List Int :=
  if ranges.getLast? = some newBlock then ranges.dropLast ++ [toInt (newBlock + 1)]
  else ranges ++ [newBlock, toInt (newBlock + 1)]

/-- The loop of `retry_fibmap`: it asks again with the answer of the call before. -/
def retryFibmap : Nat → Int → UncryptState → Except ErrorCode (Int × UncryptState)
  | 0, _, _ => .error .kUncryptIoctlError
  | n + 1, block, s => do
    let s ← sys O .kUncryptFileSyncError s
    let (block, s) ← ioctlFibmap O block s
    if block ≠ 0 then return (block, s) else retryFibmap n block s

/-! ## The window of buffers -/

/-- "write out head buffer". -/
def writeHead (s : UncryptState) : Result := do
  let (block, s) ← ioctlFibmap O s.headBlock s
  let (block, s) ← if block = 0 then retryFibmap O FIBMAP_RETRY_LIMIT block s else pure (block, s)
  let s := { s with ranges := addBlockToRanges s.ranges block }
  let s ← if P.encrypted then writeAtOffset O (s.buffers.getD s.head []) (P.blksize * block) s
    else pure s
  return { s with
    head := (s.head + 1) % WINDOW_SIZE
    headBlock := toInt (s.headBlock + 1) }

/-- "read next block to tail".  A short last block leaves the end of the buffer as it was. -/
def readTail (s : UncryptState) : Result := do
  let s ←
    if P.encrypted then do
      let toRead := min P.blksize (P.data.length - s.pos)
      let s ← sys O .kUncryptReadError s
      pure { s with
        buffers := s.buffers.set s.tail
          (slice P.data s.pos toRead ++ (s.buffers.getD s.tail []).drop toRead)
        pos := s.pos + toRead }
    else pure { s with pos := s.pos + P.blksize }
  return { s with tail := (s.tail + 1) % WINDOW_SIZE }

/-- The loop over the file; each round reads a block. -/
def readLoop : Nat → UncryptState → Result
  | 0, s => .ok s
  | fuel + 1, s =>
    if s.pos < P.data.length then do
      let s ← if (s.tail + 1) % WINDOW_SIZE = s.head then writeHead O P s else pure s
      readLoop fuel (← readTail O P s)
    else .ok s

/-- The loop over the buffers that are left. -/
def drainLoop : Nat → UncryptState → Result
  | 0, s => .ok s
  | fuel + 1, s =>
    if s.head ≠ s.tail then do drainLoop fuel (← writeHead O P s) else .ok s

/-! ## The map -/

def rangeLines : List Int → List Char
  | a :: b :: ranges => printInt a ++ ' ' :: printInt b ++ '\n' :: rangeLines ranges
  | _ => []

def mapText (ranges : List Int) : List Char :=
  P.blkDev ++ '\n' ::
    (printNat P.data.length ++ ' ' :: printNat P.blksize ++ '\n' ::
      (printNat (ranges.length / 2) ++ '\n' :: rangeLines ranges))

/-- What `write`s from the start of a file leave in it: it is not truncated when it is opened. -/
def writtenOver (old text : List Char) : List Char := text ++ old.drop text.length

def initState (device : List UInt8) : UncryptState where
  calls := 0
  pos := 0
  headBlock := 0
  head := 0
  tail := 0
  buffers := if P.encrypted then List.replicate WINDOW_SIZE (List.replicate P.blksize 0) else []
  ranges := []
  device := device
  writes := []

/-- `produce_block_map`, when `oldTmp` is in the temporary map file: the contents of the map file
and the state. -/
def produceBlockMap (oldTmp : List Char) (device : List UInt8) :
    Except ErrorCode (List Char × UncryptState) := do
  let s := initState P device
  let s ← sys O .kUncryptFileRemoveError s
  let s ← sys O .kUncryptFileOpenError s
  let s ← sys O .kUncryptSocketWriteError s
  let s ← sys O .kUncryptFileStatError s
  let s ← sys O .kUncryptWriteError s
  let s ← sys O .kUncryptFileOpenError s
  let s ← sysIf O P.encrypted .kUncryptBlockOpenError s
  let s ← sysIf O P.f2fsFs .kUncryptIoctlError s
  let s ← readLoop O P P.data.length s
  let s ← drainLoop O P WINDOW_SIZE s
  -- the count, then one line for each range
  let s ← sys O .kUncryptWriteError s
  let s ← (List.range (s.ranges.length / 2)).foldlM (fun s _ => sys O .kUncryptWriteError s) s
  let s ← sys O .kUncryptFileSyncError s
  let s ← sys O .kUncryptFileCloseError s
  let s ← sysIf O P.encrypted .kUncryptFileSyncError s
  let s ← sysIf O P.encrypted .kUncryptFileCloseError s
  let s ← sys O .kUncryptFileRenameError s
  let s ← sys O .kUncryptFileOpenError s
  let s ← sys O .kUncryptFileSyncError s
  let s ← sys O .kUncryptFileCloseError s
  return (writtenOver oldTmp (mapText P s.ranges), s)

end Recovery.Uncrypt
