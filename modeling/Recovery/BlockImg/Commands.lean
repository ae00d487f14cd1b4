import Recovery.BlockImg.RangeSink
import Recovery.BlockImg.Stash

/-!
# The transfer list commands (`updater/blockimg.cpp`)

`LoadSourceBlocks`, `LoadSrcTgtVersion3` and the `PerformCommand` functions.  A command returns
`0` or `-1`; a failed `CHECK` and an access outside a buffer stop the program.

The stream of new data is handed along beside the state: `performCommandNew` returns what is left
of it.  That is what the two threads of `NewData` come to (`NewData.new_protocol`).

Each command follows its function statement by statement: first the words are read, then the
source is loaded and verified, then the target is written, and the order matters where a power
loss comes between.
-/

set_option autoImplicit false

namespace Recovery.BlockImg

open Recovery.Lib Recovery.OtaUtil

variable (E : Env)

def modifyParams (f : CommandParameters → CommandParameters) : M Unit :=
  modify fun s => { s with params := f s.params }

def setBuffer (buffer : List UInt8) : M Unit := modifyParams fun p => { p with buffer := buffer }

/-- `params.tokens[params.cpos++]`. -/
def nextToken : M String := do
  let params := (← get).params
  match params.tokens[params.cpos]? with
  | none => throw .overrun
  | some token =>
    modifyParams fun p => { p with cpos := p.cpos + 1 }
    return token

/-- `RangeSet::Parse` with the `CHECK` that follows it. -/
def parseChecked (rangeText : String) : M RangeSet := do
  let rs := RangeSet.parse E.base rangeText
  if rs.isValid then return rs else throw .check

/-- The loop of `MoveRange`, from the last range of `locs` to the first; `source` is `none` when
source and destination are the same buffer.  A `start` whose bytes do not fit in a `size_t` is past
the end here; in the source it wraps, and it is a later round that reads past the end. -/
def moveRangeLoop (source : Option (List UInt8)) :
    List Range → Nat → List UInt8 → M (List UInt8)
  | [], _, dest => return dest
  | range :: ranges, start, dest => do
    let blocks := Range.blocks range
    let start := start - blocks
    let data := (((source.getD dest).drop (start * BLOCKSIZE)).take (blocks * BLOCKSIZE))
    if data.length = blocks * BLOCKSIZE then
      let dest ← overwrite dest (range.1 * BLOCKSIZE) data
      moveRangeLoop source ranges start dest
    else throw .overrun

/-- `MoveRange`. -/
def moveRange (dest : List UInt8) (locs : RangeSet) (source : Option (List UInt8)) :
    M (List UInt8) :=
  moveRangeLoop source locs.ranges.reverse locs.blocks dest

/-- The loop of `LoadSourceBlocks` over the stashes, one token each. -/
def loadStashes : List String → M Bool
  | [] => return true
  | _ :: rest => do
    match E.base.split (← nextToken) ":" with
    | [id, locs] =>
      let (ok, stash) ← loadStash E id false [] true
      if ok then
        let locs ← parseChecked E locs
        setBuffer (← moveRange (← get).params.buffer locs (some stash))
      loadStashes rest
    | _ => return false

/-- `LoadSourceBlocks`: the number of source blocks and whether they overlap the target; `none`
for `-1`. -/
def loadSourceBlocks (tgt : RangeSet) : M (Option (Nat × Bool)) := do
  let token ← nextToken
  match E.base.parseUint token SIZE_MAX with
  | none => return none
  | some srcBlocks =>
    setBuffer (allocate (blockBytes srcBlocks) (← get).params.buffer)
    let token ← nextToken
    if token = "-" then
      let params := (← get).params
      if ← loadStashes E (params.tokens.drop params.cpos) then return some (srcBlocks, false)
      else return none
    else
      let src ← parseChecked E token
      let overlap := src.overlaps tgt
      let (ok, buffer) ← readBlocks E src (← get).params.buffer
      setBuffer buffer
      if ¬ ok then return none
      else
        let params := (← get).params
        if params.cpos ≥ params.tokens.length then return some (srcBlocks, overlap)
        else
          let locs ← parseChecked E (← nextToken)
          setBuffer (← moveRange (← get).params.buffer locs none)
          let params := (← get).params
          if ← loadStashes E (params.tokens.drop params.cpos) then return some (srcBlocks, overlap)
          else return none

/-- What `LoadSrcTgtVersion3` returns in its output parameters when it does not fail. -/
structure Loaded where
  /-- The target blocks have the expected contents already: status `1`, else `0`. -/
  complete : Bool
  tgt : RangeSet
  srcBlocks : Nat

/-- Stash the source blocks of an overlapping command. -/
def stashOverlap (srchash : String) (srcBlocks : Nat) : M Bool := do
  let params := (← get).params
  let (ok, stashExists) ← writeStash srchash srcBlocks params.buffer true true
  if ¬ ok then return false
  else
    let _ ← updateLastCommandIndex params.cmdindex params.cmdline
    modifyParams fun p => { p with
      stashed := p.stashed + srcBlocks
      freestash := if stashExists then p.freestash else srchash }
    return true

/-- The hashes in front of a command's ranges; `none` when one is missing. -/
def loadHashes (onehash : Bool) : M (Option (String × String)) := do
  let params := (← get).params
  if params.cpos ≥ params.tokens.length then return none
  else
    let srchash ← nextToken
    if onehash then return some (srchash, srchash)
    else
      let params := (← get).params
      if params.cpos ≥ params.tokens.length then return none
      else return some (srchash, ← nextToken)

/-- `LoadSrcTgtVersion3`; `none` for `-1`. -/
def loadSrcTgtVersion3 (onehash : Bool) : M (Option Loaded) := do
  match ← loadHashes onehash with
  | none => return none
  | some (srchash, tgthash) =>
    let params := (← get).params
    if params.cpos + 2 ≥ params.tokens.length then return none
    else
      let tgt ← parseChecked E (← nextToken)
      let tgtBytes := blockBytes tgt.blocks
      let (ok, tgtbuffer) ← readBlocks E tgt (List.replicate tgtBytes 0)
      if ¬ ok then return none
      else if verifyBlocks E tgthash tgtbuffer tgtBytes then return some ⟨true, tgt, 0⟩
      else
        match ← loadSourceBlocks E tgt with
        | none => return none
        | some (srcBlocks, overlap) =>
          let params := (← get).params
          if verifyBlocks E srchash params.buffer (blockBytes srcBlocks) then
            if overlap ∧ E.canwrite then
              if ← stashOverlap srchash srcBlocks then return some ⟨false, tgt, srcBlocks⟩
              else return none
            else return some ⟨false, tgt, srcBlocks⟩
          else
            let recovered ← if overlap then
                let (ok, buffer) ← loadStash E srchash true params.buffer true
                setBuffer buffer
                pure ok
              else pure false
            if recovered then return some ⟨false, tgt, srcBlocks⟩
            else
              printHashForCorruptedSourceBlocks E
              modifyParams fun p => { p with isunresumable := true }
              return none

/-- What `move` and the diff commands note about the status of the load. -/
def noteStatus (complete : Bool) : M Unit :=
  modifyParams fun p =>
    if complete then { p with targetVerified := true } else { p with foundwrites := true }

/-- Free the stash of an overlapping command, and count its target blocks. -/
def finishCommand (tgt : RangeSet) : M Unit := do
  let params := (← get).params
  if params.freestash ≠ "" then
    let _ ← freeStash E params.freestash
    modifyParams fun p => { p with freestash := "" }
  modifyParams fun p => { p with written := p.written + tgt.blocks }

def performCommandMove : M Int := do
  match ← loadSrcTgtVersion3 E true with
  | none => return -1
  | some load =>
    noteStatus load.complete
    let params := (← get).params
    if E.canwrite ∧ ¬ load.complete then
      if ← writeBlocks E load.tgt params.buffer then
        finishCommand E load.tgt
        return 0
      else return -1
    else
      finishCommand E load.tgt
      return 0

def performCommandStash : M Int := do
  let params := (← get).params
  if params.cpos + 1 ≥ params.tokens.length then return -1
  else
    let id ← nextToken
    let (ok, buffer) ← loadStash E id true params.buffer false
    setBuffer buffer
    if ok then return 0
    else
      let src ← parseChecked E (← nextToken)
      let bytes := blockBytes src.blocks
      let (ok, buffer) ← readBlocks E src (allocate bytes (← get).params.buffer)
      setBuffer buffer
      if ¬ ok then return -1
      else
        modify fun s => { s with stashMap := s.stashMap.insert id src }
        if ¬ verifyBlocks E id buffer bytes then return 0
        else if ¬ E.canwrite then return 0
        else
          let (ok, _) ← writeStash id src.blocks buffer false false
          if ok then
            let _ ← updateLastCommandIndex params.cmdindex params.cmdline
            modifyParams fun p => { p with stashed := p.stashed + src.blocks }
            return 0
          else return -1

def performCommandFree : M Int := do
  let params := (← get).params
  if params.cpos ≥ params.tokens.length then return -1
  else
    let id ← nextToken
    modify fun s => { s with stashMap := s.stashMap.erase id }
    if params.createdstash ≠ 0 ∨ E.canwrite then freeStash E id
    else return 0

/-- The inner loop of `PerformCommandZero`: `n` blocks of zeros. -/
def writeZeros : Nat → M Bool
  | 0 => return true
  | n + 1 => do
    if ← writeAll E ((← get).params.buffer.take BLOCKSIZE) then writeZeros n else return false

def zeroRanges : List Range → M Bool
  | [] => return true
  | range :: ranges => do
    let offset := range.1 * BLOCKSIZE
    if ← discardBlocks E offset (Range.blocks range * BLOCKSIZE) then
      if ← checkLseek offset then
        if ← writeZeros E (Range.blocks range) then zeroRanges ranges
        else return false
      else return false
    else return false

def performCommandZero : M Int := do
  let params := (← get).params
  if params.cpos ≥ params.tokens.length then return -1
  else
    let tgt ← parseChecked E (← nextToken)
    let buffer := allocate BLOCKSIZE params.buffer
    setBuffer (List.replicate BLOCKSIZE 0 ++ buffer.drop BLOCKSIZE)
    let ok ← if E.canwrite then zeroRanges E tgt.ranges else pure true
    if ok then
      if params.cmdname.toList.head? = some 'z' then
        modifyParams fun p => { p with written := p.written + tgt.blocks }
      return 0
    else return -1

/-- `PerformCommandNew`, with the stream of new data from the receiver's position on. -/
def performCommandNew (stream : List UInt8) : M (Int × List UInt8) := do
  let params := (← get).params
  if params.cpos ≥ params.tokens.length then return (-1, stream)
  else
    let tgt ← parseChecked E (← nextToken)
    let ok ← if E.canwrite then
        let data := stream.take (tgt.blocks * BLOCKSIZE)
        let (written, _) ← (RangeSinkWriter.new tgt).write E data
        pure (written == tgt.blocks * BLOCKSIZE)
      else pure true
    if ok then
      modifyParams fun p => { p with written := p.written + tgt.blocks }
      return (0, if E.canwrite then stream.drop (tgt.blocks * BLOCKSIZE) else stream)
    else return (-1, [])

/-- The patch functions handing their output to the writer piece by piece. -/
def sinkPieces : List (List UInt8) → RangeSinkWriter → M Bool
  | [], _ => return true
  | piece :: pieces, w => do
    let (written, w) ← w.write E piece
    if written = piece.length then sinkPieces pieces w else return false

/-- The patch of a diff command applied to the source in the buffer. -/
def patchBlocks (offset len : Nat) (load : Loaded) : M Bool := do
  let params := (← get).params
  if params.patchStart + offset + len ≤ E.package.length then
    let patch := (E.package.drop (params.patchStart + offset)).take len
    let source := params.buffer.take (blockBytes load.srcBlocks)
    let (pieces, ok) :=
      if params.cmdname.toList.head? = some 'i' then E.applyImagePatch source patch
      else E.applyBSDiffPatch source patch
    if ← sinkPieces E pieces (RangeSinkWriter.new load.tgt) then return ok
    else return false
  else throw .overrun

def performCommandDiff : M Int := do
  let params := (← get).params
  if params.cpos + 1 ≥ params.tokens.length then return -1
  else
    match E.base.parseUint (← nextToken) SIZE_MAX with
    | none => return -1
    | some offset =>
      match E.base.parseUint (← nextToken) SIZE_MAX with
      | none => return -1
      | some len =>
        match ← loadSrcTgtVersion3 E false with
        | none => return -1
        | some load =>
          noteStatus load.complete
          if E.canwrite ∧ ¬ load.complete then
            if ← patchBlocks E offset len load then
              finishCommand E load.tgt
              return 0
            else return -1
          else
            finishCommand E load.tgt
            return 0

def eraseRanges : List Range → M Bool
  | [] => return true
  | range :: ranges => do
    let ok ← if E.suppressEmmcWipe then pure true
      else blkDiscard E (range.1 * BLOCKSIZE) (Range.blocks range * BLOCKSIZE)
    if ok then eraseRanges ranges else return false

/-- `PerformCommandErase`, built without `DEBUG_ERASE`. -/
def performCommandErase : M Int := do
  if ¬ (← ioOk) then return -1
  else if ¬ E.isBlk then return -1
  else
    let params := (← get).params
    if params.cpos ≥ params.tokens.length then return -1
    else
      let tgt ← parseChecked E (← nextToken)
      let ok ← if E.canwrite then eraseRanges E tgt.ranges else pure true
      if ok then return 0 else return -1

end Recovery.BlockImg
