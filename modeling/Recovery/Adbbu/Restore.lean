import Recovery.Adbbu.Stream

/-!
# Restoring from an adb stream (`twrpback::restore`)

* `Restore` — the variables of the function, the blocks `fread` will deliver and what was sent.
* `readCommand` — the head of the loop: a control structure from TWRP.
* `restoreBody` — `if (read_from_adb)`: one block of the stream and, after a data header, the
  data loop.
* `restoreStep`, `restoreRun` — one round of the loop, and the loop for given commands.

`fread` delivers whole blocks or, at the end of the stream, fewer bytes, which the code takes as
nothing.  What TWRP's end of the two fifos does is the parameter `Peer`; log lines and the debug
copies are left out.
-/

set_option autoImplicit false

namespace Recovery.Adbbu

open Recovery.Lib

/-- What goes to TWRP, in order. -/
inductive Sent where
  /-- A structure written to `adb_control_twrp_fd`. -/
  | control (b : Block)
  /-- `open(TW_ADB_RESTORE, O_WRONLY)`. -/
  | openData
  /-- A block written to `adb_write_fd`. -/
  | data (b : Block)
  /-- `close(adb_write_fd)`. -/
  | closeData
  deriving DecidableEq

/-- Which calls succeed, as a function of what was sent before. -/
structure Peer where
  controlWrite : List Sent → Bool
  dataOpen : List Sent → Bool
  dataWrite : List Sent → Bool

structure Restore where
  stream : List Block
  readFromAdb : Bool
  tweofrcvd : Bool
  md5sumdata : Bool
  totalbytes : Nat
  dataChunkBytes : Nat
  md5fnsize : Nat
  fileBytes : Nat
  digest : List UInt8
  /-- `adb_write_fd` is an open descriptor. -/
  writeFd : Bool
  sent : List Sent
  deriving DecidableEq

/-- Where one round of a loop ends. -/
inductive Outcome where
  /-- The outer loop goes on. -/
  | again (s : Restore)
  /-- The function returns. -/
  | done (result : Bool) (s : Restore)
  /-- `close_restore_fds()` was called and the code goes on to use what it closed. -/
  | closed (s : Restore)
  deriving DecidableEq

def Outcome.state : Outcome → Restore
  | again s => s
  | done _ s => s
  | closed s => s

section

variable (cs : Checksums) (peer : Peer)

/-- `write(adb_control_twrp_fd, ..)`. -/
def writeControl (b : Block) (s : Restore) : Bool × Restore :=
  if peer.controlWrite s.sent then (true, { s with sent := s.sent ++ [.control b] })
  else (false, s)

/-- `close(adb_write_fd)`; a second close of the descriptor does nothing. -/
def closeData (s : Restore) : Restore :=
  if s.writeFd then { s with writeFd := false, sent := s.sent ++ [.closeData] } else s

/-- `adb_write_fd = open(TW_ADB_RESTORE, O_WRONLY)`. -/
def openData (s : Restore) : Restore :=
  if peer.dataOpen s.sent then { s with writeFd := true, sent := s.sent ++ [.openData] }
  else { s with writeFd := false }

/-- `write(adb_write_fd, ..)`. -/
def writeData (b : Block) (s : Restore) : Bool × Restore :=
  if s.writeFd && peer.dataWrite s.sent then (true, { s with sent := s.sent ++ [.data b] })
  else (false, s)

/-- The structure that tells TWRP the digest of what was restored. -/
def md5Verify (digest : List UInt8) : Block :=
  (Block.typed TWMD5).put 32 (Block.strncpy (cs.md5 digest) 40)

/-- `ident` of a trailer: over the structure with a zero `ident`, then the size of the file. -/
def identMatches (b : Block) (md5fnsize : Nat) : Bool :=
  (cs.crc32 ((b.clear32 28).bytes ++ toLE 8 md5fnsize)).toNat == b.ident

/-- `checkMD5Trailer`.  Each of its failures but the first calls `close_restore_fds()`, and so
does its caller after every failure. -/
def checkMD5Trailer (b : Block) (s : Restore) : Bool × Restore :=
  if identMatches cs b s.md5fnsize then
    if crcMatches cs (b.clear32 28) 24 then
      match writeControl peer ((b.clear32 28).clear32 24) s with
      | (false, s) => (false, s)
      | (true, s) => writeControl peer (md5Verify cs s.digest) s
    else (false, s)
  else (false, s)

/-- What both places that take a trailer do before they check it: close the data fifo when the
whole file was written, and wait for TWEOF unless it came already. -/
def trailerSeen (s : Restore) : Restore :=
  let s := if s.md5fnsize ≤ s.fileBytes then closeData s else s
  if s.tweofrcvd then { s with readFromAdb := true, tweofrcvd := false }
  else { s with readFromAdb := false }

/-- A trailer met by the data loop. -/
def dataTrailer (b : Block) (s : Restore) : Outcome :=
  match checkMD5Trailer cs peer b (trailerSeen s) with
  | (true, s) => .again s
  -- the inner loop is left, the outer one goes on
  | (false, s) => .closed s

/-- The inner loop after a data header, on the blocks of the stream. -/
def dataLoop : List Block → Restore → Outcome
  | [], s => .done false { s with stream := [] }
  | b :: stream, s =>
    let s := { s with
      dataChunkBytes := s.dataChunkBytes + MAX_ADB_READ
      totalbytes := s.totalbytes + MAX_ADB_READ
      fileBytes := s.fileBytes + MAX_ADB_READ
      stream := stream }
    if b.getType = MD5TRAILER then dataTrailer cs peer b s
    else
      let s := { s with digest := s.digest ++ b.bytes, readFromAdb := true }
      match writeData peer b s with
      | (false, s) => .again { s with md5sumdata := true }
      | (true, s) =>
        if s.dataChunkBytes = DATA_MAX_CHUNK_SIZE then
          .again { s with dataChunkBytes := 0, md5sumdata := false }
        else dataLoop stream s

/-- The header of a file or an image: its structure goes to TWRP and the data fifo is opened. -/
def fileHeader (b : Block) (s : Restore) : Outcome :=
  let s := { s with
    fileBytes := 0, md5sumdata := false, readFromAdb := true, dataChunkBytes := 0
    digest := [], md5fnsize := b.fileSize }
  if crcMatches cs b 40 then
    match writeControl peer b s with
    | (false, s) => .done false s
    | (true, s) => .again (openData peer s)
  else .done false s

/-- The body of `if (read_from_adb)`. -/
def restoreBody (s : Restore) : Outcome :=
  match s.stream with
  | [] => .again s
  | b :: stream =>
    let s := { s with stream := stream }
    if b.getType = TWENDADB then
      let s := { s with md5sumdata := false }
      if crcMatches cs b 24 then
        match writeControl peer (b.clear32 24) s with
        | (false, s) => .done false s
        | (true, s) => .again { s with readFromAdb := false }
      else .done false s
    else if b.getType = TWSTREAMHDR then
      let s := { s with md5sumdata := false }
      if crcMatches cs b 40 then
        match writeControl peer b s with
        | (false, s) => .done false s
        | (true, s) => .again s
      else .done false s
    else if b.getType = TWIMG then fileHeader cs peer b s
    else if b.getType = TWFN then fileHeader cs peer b s
    else if b.getType = MD5TRAILER then
      match checkMD5Trailer cs peer b { trailerSeen s with md5sumdata := false } with
      | (true, s) => .again s
      | (false, s) => .closed s
    else if b.getType = TWDATA then
      dataLoop cs peer stream { s with dataChunkBytes := s.dataChunkBytes + MAX_ADB_READ }
    else if s.md5sumdata then .again { s with digest := s.digest ++ b.bytes }
    else .again s

/-- A control structure read from TWRP at the head of a round. -/
def readCommand (cmd : Block) (s : Restore) : Outcome :=
  if cmd.getType = TWEOF then
    .again (closeData { s with readFromAdb := true, tweofrcvd := true })
  else if cmd.getType = TWENDADB then .done true s
  else if cmd.getType = TWERROR then .done false s
  else .again s

/-- One round of the outer loop; `cmd` is what the control fifo has. -/
def restoreStep (cmd : Option Block) (s : Restore) : Outcome :=
  match cmd with
  | none => if s.readFromAdb then restoreBody cs peer s else .again s
  | some cmd =>
    match readCommand cmd s with
    | .again s => if s.readFromAdb then restoreBody cs peer s else .again s
    | other => other

/-- The loop, as long as the list of commands goes. -/
def restoreRun : List (Option Block) → Restore → Outcome
  | [], s => .again s
  | cmd :: cmds, s =>
    match restoreStep cs peer cmd s with
    | .again s => restoreRun cmds s
    | other => other

end

/-- `tweofrcvd` and `md5sumdata` are not initialised: `junk` is what they hold. -/
def restoreInit (stream : List Block) (junk : Bool × Bool) : Restore where
  stream := stream
  readFromAdb := true
  tweofrcvd := junk.1
  md5sumdata := junk.2
  totalbytes := 0
  dataChunkBytes := 0
  md5fnsize := 0
  fileBytes := 0
  digest := []
  writeFd := false
  sent := []

end Recovery.Adbbu
