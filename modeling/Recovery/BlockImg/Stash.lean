import Mathlib.Data.List.Infix
import Recovery.BlockImg.Device

/-!
# Stash files and the last command file (`updater/blockimg.cpp`)

The functions that read and write `/cache`: `ParseLastCommandFile`, `UpdateLastCommandIndex`,
`LoadStash`, `WriteStash`, `CreateStash`, `FreeStash`, `DeleteStash`, with the `PrintHash`
functions, of which only the assertions matter.

A rename, an unlink or a `mkdir` takes effect as a whole; what a power loss can interrupt is the
writing of a `.partial` file.

`Disk` is what survives a power loss: the target, the stash directory and the last command file.
The set of stashed ranges belongs to the process and is lost.
-/

set_option autoImplicit false

namespace Recovery.BlockImg

open Recovery.Lib Recovery.OtaUtil

variable (E : Env)

/-- `print_sha1`. -/
def printSha1 (sha1 : List UInt8) : String :=
  String.ofList (sha1.flatMap fun b =>
    [Nat.digitChar (b.toNat / 16), Nat.digitChar (b.toNat % 16)])

/-- The hexadecimal hash that `VerifyBlocks` compares. -/
def Env.hash (E : Env) (data : List UInt8) : String := printSha1 (E.sha1 data)

/-- `VerifyBlocks`, of the first `size` bytes of the buffer.  Its callers have made the buffer that
large: by `allocate` (`allocate_length`), or in the load of source blocks
(`loadSourceBlocks_fills`). -/
def verifyBlocks (expected : String) (buffer : List UInt8) (size : Nat) : Bool :=
  E.hash (buffer.take size) == expected

/-! ## Operations on `/cache` -/

def modifyDisk (f : Disk → Disk) : M Unit := modify fun s => { s with disk := f s.disk }

/-- An operation that takes effect as a whole.  It may fail after it has taken effect, as when the
directory cannot be synced. -/
def effect (f : Disk → Disk) : M Bool := do
  match ← nextFate with
  | .ok =>
    modifyDisk f
    return true
  | .fail n =>
    if n ≠ 0 then modifyDisk f
    return false
  | .crash n =>
    if n ≠ 0 then modifyDisk f
    throw .crash

def deleteLastCommandFile : M Unit := do
  let _ ← effect fun d => { d with lastCommand := none }

/-- The index in the text of a last command file. -/
def parseLastCommand (content : String) : Option Int :=
  match E.base.split (E.base.trim content) "\n" with
  | [index, _] => E.base.parseInt index (-INT_MAX - 1) INT_MAX
  | _ => none

def parseLastCommandFile : M (Option Int) := do
  if ← ioOk then
    match (← get).disk.lastCommand with
    | none => return none
    | some content => return parseLastCommand E content
  else return none

def lastCommandText (commandIndex : Int) (commandString : String) : String :=
  toString commandIndex ++ "\n" ++ commandString

def updateLastCommandIndex (commandIndex : Int) (commandString : String) : M Bool :=
  effect fun d => { d with lastCommand := some (lastCommandText commandIndex commandString) }

/-- `DeleteFile` of the stash file `name`. -/
def deleteFile (name : String) : M Unit := do
  let _ ← effect fun d => { d with stash := d.stash.erase name }

/-! ## Reports about corrupted blocks -/

/-- The loop of the `PrintHash` functions: block `i` of `src` is block `locs[i]` of the buffer. -/
def printHashes (src locs : RangeSet) (size : Nat) : List Nat → M Unit
  | [] => return ()
  | i :: is =>
    match src.getBlockNumber i, locs.getBlockNumber i with
    | some _, some bufferIndex =>
      if (bufferIndex + 1) * BLOCKSIZE ≤ size then printHashes src locs size is
      else throw .check
    | _, _ => throw .check

def printHashForCorruptedSourceBlocks : M Unit := do
  let params := (← get).params
  let tokens := params.tokens
  let pos := if tokens[0]? = some "move" then 4 else 7
  match tokens[pos]? with
  | none => return ()
  | some token =>
    if token = "-" then return ()
    else
      let src := RangeSet.parse E.base token
      if ¬ src.isValid then return ()
      else if pos + 1 = tokens.length then
        printHashes src (RangeSet.ofPairs [(0, src.blocks)]) params.buffer.length
          (List.range src.blocks)
      else
        let locs := RangeSet.parse E.base (tokens.getD (pos + 1) "")
        if src.blocks = locs.blocks then
          printHashes src locs params.buffer.length (List.range src.blocks)
        else throw .check

def printHashForCorruptedStashedBlocks (buffer : List UInt8) (src : RangeSet) : M Unit := do
  if blockBytes src.blocks = buffer.length then return ()
  else throw .check

def printHashForMissingStashedBlocks (id : String) : M Unit := do
  match (← get).stashMap.lookup id with
  | none => return ()
  | some src =>
    let (ok, buffer) ← readBlocks E src (List.replicate (blockBytes src.blocks) 0)
    if ok then printHashForCorruptedStashedBlocks buffer src

/-! ## Stashes -/

/-- Reading the `size` bytes of a stash file, over the front of `buffer`. -/
def readStashFile (data buffer : List UInt8) : M (Bool × List UInt8) := do
  match ← nextFate with
  | .ok => return (true, data ++ buffer.drop data.length)
  | .fail n =>
    let got := data.take n
    return (false, got ++ buffer.drop got.length)
  | .crash _ => throw .crash

/-- `LoadStash`: whether it succeeds, and the buffer afterwards. -/
def loadStash (id : String) (verify : Bool) (buffer : List UInt8) (printnoent : Bool) :
    M (Bool × List UInt8) := do
  let s ← get
  match (if E.canwrite then none else s.stashMap.lookup id) with
  | some src =>
    let (ok, buffer) ← readBlocks E src (allocate (blockBytes src.blocks) buffer)
    if ¬ ok then return (false, buffer)
    else if verifyBlocks E id buffer (blockBytes src.blocks) then return (true, buffer)
    else
      printHashForCorruptedStashedBlocks buffer src
      return (false, buffer)
  | none =>
    let statOk ← ioOk
    match s.disk.stash.lookup (E.stashFile id) with
    | none =>
      if ¬ statOk ∨ printnoent then printHashForMissingStashedBlocks E id
      return (false, buffer)
    | some data =>
      if ¬ statOk then
        printHashForMissingStashedBlocks E id
        return (false, buffer)
      else if data.length % BLOCKSIZE ≠ 0 then return (false, buffer)
      else if ← ioOk then
        let (ok, buffer) ← readStashFile data (allocate data.length buffer)
        if ¬ ok then return (false, buffer)
        else if verify ∧ ¬ verifyBlocks E id buffer data.length then
          match s.stashMap.lookup id with
          | none => pure ()
          | some src => printHashForCorruptedStashedBlocks buffer src
          deleteFile (E.stashFile id)
          return (false, buffer)
        else return (true, buffer)
      else return (false, buffer)

def partialName (id : String) : String := id ++ ".partial"

/-- The data of a `.partial` file reaching the disk. -/
def writePartial (id : String) (data : List UInt8) : M Bool := do
  match ← nextFate with
  | .ok =>
    modifyDisk fun d => { d with stash := d.stash.insert (partialName id) data }
    return true
  | .fail n =>
    modifyDisk fun d => { d with stash := d.stash.insert (partialName id) (data.take n) }
    return false
  | .crash n =>
    modifyDisk fun d => { d with stash := d.stash.insert (partialName id) (data.take n) }
    throw .crash

/-- The rename of `id.partial` to `id`. -/
def renamePartial (id : String) (d : Disk) : Disk :=
  match d.stash.lookup (partialName id) with
  | none => d
  | some data => { d with stash := (d.stash.erase (partialName id)).insert id data }

/-- `WriteStash` of the first `blocks` blocks of `buffer`: whether it succeeds, and whether the
file existed already, which matters to the caller that checks for it.  Its callers have verified the
blocks, so `id` is a hash and names a file of the directory; and the blocks fit in an `int`. -/
def writeStash (id : String) (blocks : Nat) (buffer : List UInt8) (checkspace checkExists : Bool) :
    M (Bool × Bool) := do
  if checkspace ∧ ¬ (← ioOk) then return (false, false)
  else
    let statOk ← if checkExists then ioOk else pure false
    let d := (← get).disk
    if statOk ∧ (d.stash.lookup id).isSome then return (true, true)
    else if ¬ d.stashDir then return (false, false)
    else if blockBytes blocks ≤ buffer.length then
      if ← writePartial id (buffer.take (blockBytes blocks)) then
        let ok ← effect (renamePartial id)
        return (ok, false)
      else return (false, false)
    else throw .overrun

def isPartial (name : String) : Bool := ".partial".toList.isSuffixOf name.toList

def deleteFiles : List String → M Unit
  | [] => return ()
  | name :: names => do
    deleteFile name
    deleteFiles names

/-- The sum of the sizes of the stash files. -/
def Disk.existing (d : Disk) : Nat := (d.stash.entries.map fun f => f.2.length).sum

/-- `CreateStash`: `1` when it has created the directory, `0` when it was there, `-1` on
failure. -/
def createStash (maxblocks : Nat) : M Int := do
  if E.blockdevFilename = "" then return -1
  else if ¬ (← ioOk) then return -1
  else
    let maxStashSize := maxblocks * BLOCKSIZE % 2 ^ 64
    if ¬ (← get).disk.stashDir then
      if ← effect fun d => { d with stashDir := true, stash := ∅ } then
        if ← ioOk then
          if ← ioOk then return 1
          else return -1
        else return -1
      else return -1
    else
      deleteFiles (((← get).disk.stash.keys).filter isPartial)
      if (← get).disk.existing < maxStashSize then
        if ← ioOk then return 0
        else return -1
      else return 0

/-- `FreeStash`. -/
def freeStash (id : String) : M Int := do
  if id = "" then return -1
  else
    deleteFile (E.stashFile id)
    return 0

def deleteStash : M Unit := do
  deleteFiles (← get).disk.stash.keys
  let _ ← effect fun d => if d.stash.keys = [] then { d with stashDir := false } else d

/-! ## What leaves the last command file alone -/

theorem keeps_nextFate {γ : Type} {f : St → γ} (hf : ∀ s fs, f { s with fates := fs } = f s) :
    Keeps f nextFate := by
  intro s a s' h
  unfold nextFate at h
  split at h
  · cases h
    rfl
  · cases h
    exact hf s _

theorem keeps_ioOk {γ : Type} {f : St → γ} (hf : ∀ s fs, f { s with fates := fs } = f s) :
    Keeps f ioOk := by
  refine (keeps_nextFate hf).bind fun a => ?_
  cases a with
  | ok => exact .pure _
  | fail n => exact .pure _
  | crash n => exact .throw _

theorem keeps_effect {γ : Type} {f : St → γ} {g : Disk → Disk}
    (hf : ∀ s fs, f { s with fates := fs } = f s)
    (hg : ∀ s, f { s with disk := g s.disk } = f s) : Keeps f (effect g) := by
  refine (keeps_nextFate hf).bind fun a => ?_
  have hm : Keeps f (modifyDisk g) := Keeps.modify hg
  cases a with
  | ok => exact hm.bind fun _ => .pure _
  | fail n =>
    dsimp only
    split
    · exact hm.bind fun _ => .pure _
    · exact .pure _
  | crash n =>
    dsimp only
    split
    · exact hm.bind fun _ => .throw _
    · exact .throw _

theorem keeps_deleteFiles {γ : Type} {f : St → γ} (hf : ∀ s fs, f { s with fates := fs } = f s)
    (hg : ∀ s stash, f { s with disk.stash := stash } = f s) :
    ∀ names : List String, Keeps f (deleteFiles names)
  | [] => .pure _
  | _ :: names =>
    ((keeps_effect hf fun s => hg s _).bind fun _ => .pure _).bind fun _ =>
      keeps_deleteFiles hf hg names

theorem createStash_lastCommand (maxblocks : Nat) :
    Keeps (fun s => s.disk.lastCommand) (createStash E maxblocks) := by
  have hio : Keeps (fun s : St => s.disk.lastCommand) ioOk := keeps_ioOk fun _ _ => rfl
  refine .ite (.pure _) (hio.bind fun _ => .ite (.pure _) (.get_bind fun s => .ite ?_ ?_))
  · refine (keeps_effect (fun _ _ => rfl) fun _ => rfl).bind fun _ => .ite ?_ (.pure _)
    exact hio.bind fun _ => .ite (hio.bind fun _ => .ite (.pure _) (.pure _)) (.pure _)
  · refine .get_bind fun s => (keeps_deleteFiles (fun _ _ => rfl) (fun _ _ => rfl) _).bind fun _ =>
      .get_bind fun s => .ite (hio.bind fun _ => .ite (.pure _) (.pure _)) (.pure _)

end Recovery.BlockImg
