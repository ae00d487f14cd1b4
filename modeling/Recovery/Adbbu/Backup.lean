import Recovery.Adbbu.Stream

/-!
# Writing an adb stream (`twrpback::backup`)

* `Backup` — the variables of the function, what it has written to adb, and at which `read` it is.
* `onControl`, `flushRead`, `dataRead`, `extraRead` — what the function does with the result of a
  `read`, up to the next one.
* `Twrp` — what TWRP sends for a list of partitions: a header, the data and `TWEOF` for each.
* `Session` — TWRP, the two fifos and the function; `Session.step` is a step of either side.

`fwrite` to adb succeeds.  A read from an empty fifo fails while some process has it open for
writing, and is at the end of the file otherwise; from another one it gets some of the bytes.
-/

set_option autoImplicit false

namespace Recovery.Adbbu

open Recovery.Lib

/-- The result of a `read` from the data fifo. -/
inductive ReadResult where
  | bytes (bs : List UInt8)
  | eof
  /-- `-1`, with `EAGAIN`. -/
  | again
  deriving DecidableEq

inductive BackupPc where
  /-- The control fifo, at the head of the loop. -/
  | control
  /-- The loop after `TWEOF`. -/
  | flush
  /-- The loop over the data. -/
  | data
  /-- The loop that fills up a chunk. -/
  | extra (bytesLeft : Nat)
  | returned (result : Bool)
  deriving DecidableEq

structure Backup where
  pc : BackupPc
  dataChunkBytes : Nat
  fileBytes : Nat
  md5fnsize : Nat
  writedata : Bool
  compressed : Bool
  firstDataPacket : Bool
  digest : List UInt8
  /-- What was written to `adbd_fp`. -/
  written : List UInt8
  deriving DecidableEq

def backupInit : Backup where
  pc := .control
  dataChunkBytes := 0
  fileBytes := 0
  md5fnsize := 0
  writedata := true
  compressed := false
  firstDataPacket := true
  digest := []
  written := []

section

variable (cs : Checksums)

/-! ## The trailer -/

/-- The trailer before its two checksums are filled in. -/
def bareTrailer (digest : List UInt8) : Block :=
  (Block.typed MD5TRAILER).put 32 (Block.strncpy (cs.md5 digest) 40)

def crcTrailer (digest : List UInt8) : Block :=
  (bareTrailer cs digest).put 24 (toLE 4 (cs.crc32 (bareTrailer cs digest).bytes).toNat)

def md5Trailer (digest : List UInt8) (md5fnsize : Nat) : Block :=
  (crcTrailer cs digest).put 28
    (toLE 4 (cs.crc32 ((crcTrailer cs digest).bytes ++ toLE 8 md5fnsize)).toNat)

/-! ## One read -/

/-- `if (writedata || compressed)`. -/
def enterData (s : Backup) : Backup :=
  { s with pc := if s.writedata || s.compressed then .data else .control }

/-- The end of the branch for a command. -/
def afterCommand (s : Backup) : Backup := enterData { s with dataChunkBytes := 0 }

/-- A command from the control fifo. -/
def onCommand (cmd : Block) (s : Backup) : Backup :=
  if cmd.getType = TWERROR then { s with writedata := false, pc := .returned false }
  else if cmd.getType = TWENDADB then
    { s with writedata := false, written := s.written ++ cmd.bytes, pc := .returned true }
  else if cmd.getType = TWSTREAMHDR then
    afterCommand { s with writedata := false, written := s.written ++ cmd.bytes }
  else if cmd.getType = TWIMG then
    afterCommand { s with
      digest := [], md5fnsize := cmd.fileSize, compressed := false
      written := s.written ++ cmd.bytes, writedata := true }
  else if cmd.getType = TWFN then
    afterCommand { s with
      digest := [], md5fnsize := cmd.fileSize, compressed := cmd.compressed == 1
      written := s.written ++ cmd.bytes, writedata := true }
  else if cmd.getType = TWEOF then { s with pc := .flush }
  else afterCommand s

def onControl (cmd : Option Block) (s : Backup) : Backup :=
  match cmd with
  | some cmd => onCommand cmd s
  | none => enterData s

/-- The padding of a file: up to a multiple of the chunk size. -/
def paddingBytes (fileBytes : Nat) : Nat :=
  if fileBytes % DATA_MAX_CHUNK_SIZE ≠ 0 then
    (fileBytes / DATA_MAX_CHUNK_SIZE + 1) * DATA_MAX_CHUNK_SIZE - fileBytes
  else 0

/-- The end of a file: padding and trailer. -/
def finishFile (s : Backup) : Backup :=
  let padding := List.replicate (paddingBytes s.fileBytes) 0
  let digest := s.digest ++ padding
  afterCommand { s with
    digest := digest
    written := s.written ++ padding ++ (md5Trailer cs digest s.md5fnsize).bytes
    writedata := false, firstDataPacket := true, fileBytes := 0 }

/-- One round of the loop after `TWEOF`: whatever was read, `bytes` is 1. -/
def flushByte (b : UInt8) (s : Backup) : Backup :=
  { s with
    fileBytes := s.fileBytes + 1
    dataChunkBytes := s.dataChunkBytes + 1
    digest := s.digest ++ [b]
    written := s.written ++ [b] }

/-- `while ((bytes = read(..) != 0))`; a read that fails leaves the zeroed buffer. -/
def flushRead (r : ReadResult) (s : Backup) : Backup :=
  match r with
  | .eof => finishFile cs s
  | .bytes bs => flushByte (bs.headD 0) s
  | .again => flushByte 0 s

/-- The header in front of the first data of a chunk. -/
def chunkHeader (s : Backup) : Backup :=
  if s.firstDataPacket then
    { s with
      written := s.written ++ (controlBlock cs TWDATA).bytes
      fileBytes := s.fileBytes + MAX_ADB_READ
      dataChunkBytes := s.dataChunkBytes + MAX_ADB_READ
      firstDataPacket := false }
  else s

/-- Data is hashed, counted and written. -/
def takeData (bs : List UInt8) (s : Backup) : Backup :=
  { s with
    digest := s.digest ++ bs
    fileBytes := s.fileBytes + bs.length
    dataChunkBytes := s.dataChunkBytes + bs.length
    written := s.written ++ bs }

def nextChunk (s : Backup) : Backup := { s with dataChunkBytes := 0, firstDataPacket := true }

def dataRead (r : ReadResult) (s : Backup) : Backup :=
  match r with
  | .bytes bs =>
    let s := takeData bs (chunkHeader cs s)
    if s.dataChunkBytes = DATA_MAX_CHUNK_SIZE then nextChunk s
    else if s.dataChunkBytes > DATA_MAX_CHUNK_SIZE - MAX_ADB_READ then
      { s with pc := .extra (DATA_MAX_CHUNK_SIZE - s.dataChunkBytes) }
    else s
  | .eof | .again => { s with pc := .control }

def extraRead (bytesLeft : Nat) (r : ReadResult) (s : Backup) : Backup :=
  match r with
  | .bytes bs =>
    if bytesLeft - bs.length = 0 then { nextChunk (takeData bs s) with pc := .data }
    else { takeData bs s with pc := .extra (bytesLeft - bs.length) }
  | .eof => { nextChunk s with pc := .data }
  | .again => s

end

/-! ## TWRP -/

structure Partition where
  /-- Its `twfilehdr`. -/
  header : Block
  data : List UInt8

/-- What TWRP is going to send. -/
inductive Twrp where
  | start (ps : List Partition)
  | next (ps : List Partition)
  /-- The header was sent; the data fifo is to be opened. -/
  | opening (p : Partition) (ps : List Partition)
  | writing (p : Partition) (left : List UInt8) (ps : List Partition)
  /-- The data was written.  A tar sends `TWEOF` before it closes the fifo, an image after. -/
  | ending (p : Partition) (closed sent : Bool) (ps : List Partition)
  | ended

/-- Some process has the data fifo open for writing. -/
def Twrp.writer : Twrp → Bool
  | .writing _ _ _ => true
  | .ending _ closed _ _ => !closed
  | _ => false

/-- The control structures at the start and the end of the stream. -/
structure Ends where
  streamHdr : Block
  endadb : Block

structure Session where
  twrp : Twrp
  control : List Block
  /-- The bytes in the data fifo, each with the number of partitions after its own. -/
  fifo : List (Nat × UInt8)
  backup : Backup
  /-- How many headers of partitions are still to be received. -/
  left : Nat

def tagged (tag : Nat) (bs : List UInt8) : List (Nat × UInt8) := bs.map fun b => (tag, b)

/-- A step of TWRP; `k` is how much it writes, `b` whether `TWEOF` is next. -/
def Session.twrpStep (cs : Checksums) (e : Ends) (k : Nat) (b : Bool) (s : Session) : Session :=
  match s.twrp with
  | .start ps => { s with twrp := .next ps, control := s.control ++ [e.streamHdr] }
  | .next [] => { s with twrp := .ended, control := s.control ++ [e.endadb] }
  | .next (p :: ps) => { s with twrp := .opening p ps, control := s.control ++ [p.header] }
  | .opening p ps => { s with twrp := .writing p p.data ps }
  | .writing p [] ps => { s with twrp := .ending p false false ps }
  | .writing p left ps =>
    { s with
      twrp := .writing p (left.drop k) ps
      fifo := s.fifo ++ tagged ps.length (left.take k) }
  | .ending p closed sent ps =>
    if closed && sent then { s with twrp := .next ps }
    else if (b || closed) && !sent then
      { s with twrp := .ending p closed true ps, control := s.control ++ [controlBlock cs TWEOF] }
    else { s with twrp := .ending p true sent ps }
  | .ended => s

/-- How many bytes a read of at most `n` gets from the fifo. -/
def Session.readCount (s : Session) (k n : Nat) : Nat := min (max k 1) (min n s.fifo.length)

/-- A `read` of at most `n` bytes from the data fifo: its result and the rest. -/
def Session.readFifo (s : Session) (k n : Nat) : ReadResult × Session :=
  if s.fifo = [] then (if s.twrp.writer then .again else .eof, s)
  else
    (.bytes ((s.fifo.take (s.readCount k n)).map Prod.snd),
      { s with fifo := s.fifo.drop (s.readCount k n) })

def isFileHeader (b : Block) : Bool := b.getType = TWIMG || b.getType = TWFN

/-- A read of the backup function, and what it does with the result. -/
def Session.backupStep (cs : Checksums) (k : Nat) (s : Session) : Session :=
  match s.backup.pc with
  | .control =>
    match s.control with
    | [] => { s with backup := onControl none s.backup }
    | cmd :: control =>
      { s with
        control := control
        backup := onControl (some cmd) s.backup
        left := if isFileHeader cmd then s.left - 1 else s.left }
  | .flush =>
    let (r, s) := s.readFifo k MAX_ADB_READ
    { s with backup := flushRead cs r s.backup }
  | .data =>
    let (r, s) := s.readFifo k MAX_ADB_READ
    { s with backup := dataRead cs r s.backup }
  | .extra bytesLeft =>
    let (r, s) := s.readFifo k bytesLeft
    { s with backup := extraRead bytesLeft r s.backup }
  | .returned _ => s

/-- Who goes on, and how far. -/
inductive Choice where
  | twrp (k : Nat) (b : Bool)
  | backup (k : Nat)

def Session.step (cs : Checksums) (e : Ends) (c : Choice) (s : Session) : Session :=
  match c with
  | .twrp k b => s.twrpStep cs e k b
  | .backup k => s.backupStep cs k

def sessionInit (parts : List Partition) : Session where
  twrp := .start parts
  control := []
  fifo := []
  backup := backupInit
  left := parts.length

end Recovery.Adbbu
