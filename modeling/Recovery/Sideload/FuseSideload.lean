import Mathlib.Algebra.Order.Ring.Int
import Mathlib.Logic.Function.Basic

/-!
# The sideload file system (`fuse_sideload.cpp`)

* `Config` — sizes fixed by `run_fuse_sideload`.
* `FuseData` — the cached block and the table of hashes.
* `fetchBlock`, `handleRead` — one block from the host, one read of the kernel.
* `run` — a sequence of reads.

The host is every possible answer to each request: a result and what its callback stored in the
buffer before it returned.  The hash is a parameter; `hashed` records what it was applied to.
The other FUSE operations neither read nor change the state and are left out.

Numbers of blocks and the product with their size have 32 bits where the source has them so.
-/

set_option autoImplicit false

namespace Recovery.Sideload

abbrev Bytes := List UInt8

def EIO : Int := 5

/-- `curr_block = -1` in a `uint32_t`. -/
def NO_BLOCK : Nat := 2 ^ 32 - 1

def SHA256_DIGEST_LENGTH : Nat := 32

/-- The stored hash of a block that was not read yet. -/
def zeroHash : Bytes := List.replicate SHA256_DIGEST_LENGTH 0

structure Config where
  fileSize : Nat
  blockSize : Nat

/-- `fd.file_blocks`, a `uint32_t`. -/
def Config.fileBlocks (c : Config) : Nat :=
  if c.fileSize = 0 then 0 else ((c.fileSize - 1) / c.blockSize + 1) % 2 ^ 32

/-- The checks of `run_fuse_sideload`. -/
structure Config.Accepted (c : Config) : Prop where
  notSmall : 4096 ≤ c.blockSize
  notLarge : c.blockSize ≤ 2 ^ 22
  blocks : c.fileBlocks ≤ 2 ^ 18

structure FuseData where
  currBlock : Nat
  blockData : Bytes
  /-- One entry for each block of the file. -/
  hashes : Nat → Bytes
  /-- The blocks whose hash was computed so far. -/
  hashed : List Bytes

/-- An answer of the host: the result of `read_block` and the bytes it stored, from the start of
the buffer on. -/
structure Answer where
  result : Int
  filled : Bytes

/-- A read of the package, with the host's answers to the fetches it may need. -/
structure Read where
  offset : Nat
  size : Nat
  first : Answer
  second : Answer

section

variable (sha256 : Bytes → Bytes) (c : Config)

/-- `block * fd->block_size` in 32 bits. -/
def blockStart (block : Nat) : Nat := block * c.blockSize % 2 ^ 32

/-- What the host is asked for. -/
def fetchSize (block : Nat) : Nat :=
  if c.fileSize < blockStart c block + c.blockSize then c.fileSize - blockStart c block
  else c.blockSize

/-- The buffer after the padding of a partial block and the callback. -/
def fillBlock (block : Nat) (a : Answer) (blockData : Bytes) : Bytes :=
  let size := fetchSize c block
  let filled := a.filled.take size
  let padded := blockData.take size ++ List.replicate (c.blockSize - size) 0
  filled ++ padded.drop filled.length

def fetchBlock (block : Nat) (a : Answer) (s : FuseData) : Int × FuseData :=
  if block = s.currBlock then (0, s)
  else if c.fileBlocks ≤ block then
    (0, { s with blockData := List.replicate c.blockSize 0, currBlock := block })
  else
    let blockData := fillBlock c block a s.blockData
    if a.result < 0 then (a.result, { s with blockData := blockData })
    else
      let hash := sha256 blockData
      let s := { s with
        blockData := blockData, currBlock := block, hashed := s.hashed ++ [blockData] }
      if hash = s.hashes block then (0, s)
      else if s.hashes block ≠ zeroHash then (- EIO, { s with currBlock := NO_BLOCK })
      else (0, { s with hashes := Function.update s.hashes block hash })

/-- The block a read starts in, a `uint32_t`. -/
def firstBlock (r : Read) : Nat := r.offset / c.blockSize % 2 ^ 32

def blockOffset (r : Read) : Nat := (r.offset - blockStart c (firstBlock c r)) % 2 ^ 32

/-- The read goes over into the next block. -/
def spills (r : Read) : Bool := c.blockSize < r.size + blockOffset c r

/-- `handle_read`: the bytes of the reply, if there is one. -/
def handleRead (r : Read) (s : FuseData) : Option Bytes × FuseData :=
  let (result, s) := fetchBlock sha256 c (firstBlock c r) r.first s
  if result ≠ 0 then (none, s)
  else if spills c r then
    let extraBlock := (s.blockData.drop (blockOffset c r)).take (c.blockSize - blockOffset c r)
    let (result, s) := fetchBlock sha256 c ((firstBlock c r + 1) % 2 ^ 32) r.second s
    if result ≠ 0 then (none, s)
    else (some (extraBlock ++ s.blockData.take (r.size - extraBlock.length)), s)
  else (some ((s.blockData.drop (blockOffset c r)).take r.size), s)

def run : List Read → FuseData → List (Read × Option Bytes) × FuseData
  | [], s => ([], s)
  | r :: reads, s =>
    let (reply, s) := handleRead sha256 c r s
    let (replies, s) := run reads s
    ((r, reply) :: replies, s)

end

/-- The state `run_fuse_sideload` sets up; `malloc` leaves the buffer as it was. -/
def initial (buffer : Bytes) : FuseData := ⟨NO_BLOCK, buffer, fun _ => zeroHash, []⟩

end Recovery.Sideload
