import Mathlib.Data.List.Sort
import Recovery.Lib.Crash
import Recovery.OtaUtil.AndroidBase

/-!
# `applypatch/applypatch.cpp`

* `loadPartitionContents`, `loadFileContents` — read a file or the prefix of a partition whose
  hash the file name lists.
* `saveFileContents` — rewrite the copy of the source in `/cache`.
* `writeToPartition` — write a partition, read it back, try once more.
* `applypatch`, `generateTarget` — choose the source, save it, patch it, write the target.

A file system is a map from paths to contents; a partition is a path whose content has a fixed
size.  `Phase` splits the I/O operations of a run into those that look for the source, those that
save it and those that write the target; each operation consumes one `Fate` of its phase.
A loop of writes that goes on after a short count is one write.  Only EMMC targets are modelled:
`applypatch` refuses the others.
-/

set_option autoImplicit false

namespace Recovery.ApplyPatch

open Recovery.Lib Recovery.OtaUtil

abbrev Bytes := List UInt8

inductive Phase where
  | load
  | save
  | write
  deriving DecidableEq, Repr

structure St where
  files : String → Option Bytes
  fates : Phase → List Fate

abbrev M := EStateM Stop St

/-- `Value`: a string or a blob. -/
structure Value where
  isBlob : Bool
  data : Bytes

structure FileContents where
  sha1 : Bytes
  data : Bytes

structure Env where
  base : AndroidBase
  sha1 : Bytes → Bytes
  /-- `CacheLocation::location().cache_temp_source()`. -/
  cacheTempSource : String
  /-- For a source and a patch: whether `ApplyBSDiffPatch` succeeds, and what its sink gets. -/
  applyBSDiffPatch : Bytes → Bytes → Bool × Bytes
  /-- The same for `ApplyImagePatch`, which also takes the bonus data. -/
  applyImagePatch : Bytes → Bytes → Option Value → Bool × Bytes

/-- The arguments of `applypatch`. -/
structure Args where
  sourceFilename : String
  targetFilename : String
  targetSha1Str : String
  patchSha1Str : List String
  patchData : List Value
  bonusData : Option Value

variable (E : Env)

/-! ## I/O operations -/

def nextFate (p : Phase) : M Fate := fun s =>
  match s.fates p with
  | [] => .ok .ok s
  | f :: fs => .ok f { s with fates := Function.update s.fates p fs }

/-- An operation that succeeds, fails without effect, or never takes place. -/
def ioOk (p : Phase) : M Bool := do
  match ← nextFate p with
  | .ok => return true
  | .fail _ => return false
  | .crash _ => throw .crash

def setFile (path : String) (content : Option Bytes) : M Unit :=
  modify fun s => { s with files := Function.update s.files path content }

/-- `ota_open` or `ota_fopen` of an existing file: its content. -/
def openFile (p : Phase) (path : String) : M (Option Bytes) := do
  if ← ioOk p then return (← get).files path
  else return none

/-- `ota_open` with `O_CREAT | O_TRUNC`. -/
def openTruncated (p : Phase) (path : String) : M Bool := do
  match ← nextFate p with
  | .ok =>
    setFile path (some [])
    return true
  | .fail _ => return false
  | .crash n =>
    if 0 < n then setFile path (some [])
    throw .crash

/-- Writes that append `data` to a file. -/
def appendBytes (p : Phase) (path : String) (data : Bytes) : M Bool := do
  let old := ((← get).files path).getD []
  match ← nextFate p with
  | .ok =>
    setFile path (some (old ++ data))
    return true
  | .fail n =>
    setFile path (some (old ++ data.take n))
    return false
  | .crash n =>
    setFile path (some (old ++ data.take n))
    throw .crash

/-- The content of a device after a write of `data` at `offset`, which stops at its end. -/
def pwrite (dev : Bytes) (offset : Nat) (data : Bytes) : Bytes :=
  dev.take offset ++ data.take (dev.length - offset) ++ dev.drop (offset + data.length)

/-- Writes of `data` to a partition from `offset` on. -/
def writeBytes (p : Phase) (path : String) (offset : Nat) (data : Bytes) : M Bool := do
  let dev := ((← get).files path).getD []
  match ← nextFate p with
  | .ok =>
    setFile path (some (pwrite dev offset data))
    return offset + data.length ≤ dev.length
  | .fail n =>
    setFile path (some (pwrite dev offset (data.take n)))
    return false
  | .crash n =>
    setFile path (some (pwrite dev offset (data.take n)))
    throw .crash

def unlink (p : Phase) (path : String) : M Unit := do
  match ← nextFate p with
  | .ok => setFile path none
  | .fail _ => return
  | .crash n =>
    if 0 < n then setFile path none
    throw .crash

/-! ## Hashes in hexadecimal -/

def hexDigit (c : Char) : Option Nat :=
  if '0' ≤ c ∧ c ≤ '9' then some (c.toNat - '0'.toNat)
  else if 'a' ≤ c ∧ c ≤ 'f' then some (c.toNat - 'a'.toNat + 10)
  else if 'A' ≤ c ∧ c ≤ 'F' then some (c.toNat - 'A'.toNat + 10)
  else none

/-- The loop of `ParseSha1`, with `n` bytes to go. -/
def parseHex : Nat → List Char → Option Bytes
  | 0, [] => some []
  -- a C string ends at its first NUL
  | 0, c :: _ => if c = '\x00' then some [] else none
  | n + 1, c :: c' :: cs => do
    let hi ← hexDigit c
    let lo ← hexDigit c'
    return UInt8.ofNat (16 * hi + lo) :: (← parseHex n cs)
  | _ + 1, _ => none

/-- `SHA_DIGEST_LENGTH`. -/
def SHA_DIGEST_LENGTH : Nat := 20

def parseSha1 (str : String) : Option Bytes := parseHex SHA_DIGEST_LENGTH str.toList

def findMatchingPatch (sha1 : Bytes) (patchSha1Str : List String) : Option Nat :=
  patchSha1Str.findIdx? fun str => parseSha1 str == some sha1

/-! ## Reading -/

/-- The size and hash pairs of a partition's file name, before they are sorted. -/
def parsePairs : List String → Option (List (Nat × String))
  | size :: sha :: rest => do
    let size ← E.base.parseUint size SIZE_MAX
    if size = 0 then none
    else return (size, sha) :: (← parsePairs rest)
  | _ => some []

/-- Pairs in order of increasing size. -/
def sortPairs (pairs : List (Nat × String)) : List (Nat × String) :=
  pairs.insertionSort fun a b => a.1 < b.1 ∨ (a.1 = b.1 ∧ a.2 ≤ b.2)

/-- What `LoadPartitionContents` reads in a file name: the device and the sorted pairs. -/
def partitionName (filename : String) : Option (String × List (Nat × String)) :=
  match E.base.split filename ":" with
  | type :: dev :: rest =>
    if rest.length < 2 ∨ rest.length % 2 ≠ 0 then none
    else if type ≠ "MTD" ∧ type ≠ "EMMC" ∧ type ≠ "BML" then none
    else (parsePairs E rest).map fun pairs => (dev, sortPairs pairs)
  | _ => none

/-- Read the `next` bytes up to the size of a pair, if there are any. -/
def readNext (next : Nat) : M Bool := if next > 0 then ioOk .load else return true

/-- The loop of `LoadPartitionContents` over the pairs, with `bufferSize` bytes of `dev` read. -/
def matchPairs (dev : Bytes) : List (Nat × String) → Nat → M (Option FileContents)
  | [], _ => return none
  | (currentSize, currentSha1) :: pairs, bufferSize => do
    let ok ← readNext (currentSize - bufferSize)
    if ok = false ∨ dev.length < currentSize then return none
    else
      let data := dev.take currentSize
      match parseSha1 currentSha1 with
      | none => return none
      | some parsedSha =>
        if E.sha1 data = parsedSha then return some { sha1 := E.sha1 data, data := data }
        else matchPairs dev pairs currentSize

def loadPartitionContents (filename : String) : M (Option FileContents) := do
  match partitionName E filename with
  | none => return none
  | some (dev, pairs) =>
    match ← openFile .load dev with
    | none => return none
    | some content => matchPairs E content pairs 0

/-- `strncmp(filename, type, strlen(type)) == 0`. -/
def hasType (filename type : String) : Bool := type.toList.isPrefixOf filename.toList

/-- The file name is that of a partition. -/
def isPartitionName (filename : String) : Bool :=
  hasType filename "MTD:" || hasType filename "EMMC:" || hasType filename "BML:"

/-- `LoadFileContents`; `none` is `-1`. -/
def loadFileContents (filename : String) : M (Option FileContents) := do
  if isPartitionName filename then
    loadPartitionContents E filename
  else
    match ← openFile .load filename with
    | none => return none
    | some content =>
      if ← ioOk .load then return some { sha1 := E.sha1 content, data := content }
      else return none

/-! ## Writing -/

/-- `SaveFileContents`; `true` is `0`. -/
def saveFileContents (filename : String) (file : FileContents) : M Bool := do
  if ← openTruncated .save filename then
    if ← appendBytes .save filename file.data then
      if ← ioOk .save then ioOk .save
      else return false
    else return false
  else return false

/-- A `unique_fd` that holds a descriptor, or one that has been released. -/
inductive UniqueFd where
  | held
  | released
  deriving DecidableEq, Repr

/-- A system call on a descriptor: `-1` is never a valid one. -/
def onFd (fd : UniqueFd) : M Bool :=
  match fd with
  | .held => ioOk .write
  | .released => return false

/-- The verification loop of `WriteToPartition`, with `n` buffers to go from `p` on: the position
of the first buffer that differs, or the length; `none` for a read error. -/
def verifyLoop (partition : String) (data : Bytes) : Nat → Nat → M (Option Nat)
  | 0, _ => return some data.length
  | n + 1, p => do
    let dev := ((← get).files partition).getD []
    if ← ioOk .write then
      if (dev.drop p).take (min (data.length - p) 4096) ≠ (data.drop p).take 4096 then
        return some p
      else verifyLoop partition data n (p + 4096)
    else return none

/-- The rest of an attempt once everything is written: reopen, drop caches and compare. -/
def verifyPartition (partition : String) (data : Bytes) : M (Option Nat) := do
  match ← openFile .write partition with
  | none => return none
  | some _ =>
    if ← ioOk .write then
      verifyLoop partition data ((data.length + 4095) / 4096) 0
    else return none

/-- The loop over the attempts, with `n` to go. -/
def attempts (partition : String) (data : Bytes) : Nat → UniqueFd → Nat → M Bool
  | 0, _, _ => return false
  | n + 1, fd, start => do
    if ← onFd fd then
      if ← writeBytes .write partition start (data.drop start) then
        if ← onFd fd then
          if ← onFd fd then
            -- `ota_close` has released `fd`; the descriptor of the verification is a variable of
            -- its own, which hides `fd` until the end of the attempt
            match ← verifyPartition partition data with
            | none => return false
            | some start' =>
              if start' = data.length then onFd .released
              else attempts partition data n .released start'
          else return false
        else return false
      else return false
    else return false

/-- `WriteToPartition` for an EMMC target; `true` is `0`. -/
def writeToPartition (data : Bytes) (target : String) : M Bool := do
  match E.base.split target ":" with
  | type :: partition :: _ =>
    if type ≠ "EMMC" then return false
    else
      match ← openFile .write partition with
      | none => return false
      | some _ => attempts partition data 2 .held 0
  | _ => return false

/-! ## `applypatch` -/

def ascii (s : String) : Bytes := s.toList.map fun c => UInt8.ofNat c.toNat

/-- The patch function for a patch's header. -/
def patchFunction (patch : Bytes) (bonusData : Option Value) : Option (Bytes → Bool × Bytes) :=
  if patch.take 8 = ascii "BSDIFF40" then
    some fun source => E.applyBSDiffPatch source patch
  else if patch.take 8 = ascii "IMGDIFF2" then
    some fun source => E.applyImagePatch source patch bonusData
  else none

/-- `GenerateTarget`: the exit status. -/
def generateTarget (sourceFile : FileContents) (patch : Value) (targetFilename : String)
    (targetSha1 : Bytes) (bonusData : Option Value) : M Nat := do
  if patch.isBlob = false then return 1
  match patchFunction E patch.data bonusData with
  | none => return 1
  | some apply =>
    if hasType targetFilename "EMMC:" then
      -- `MakeFreeSpaceOnCache`, which spares `cache_temp_source`
      if ← ioOk .save then
        if ← saveFileContents E.cacheTempSource sourceFile then
          let (ok, output) := apply sourceFile.data
          if ok = false then return 1
          if E.sha1 output ≠ targetSha1 then return 1
          if ← writeToPartition E output targetFilename then
            unlink .write E.cacheTempSource
            return 0
          else return 1
        else return 1
      else return 1
    else throw .check

/-- Patch with the entry of `patch_data` at `toUse`. -/
def useEntry (args : Args) (targetFilename : String) (targetSha1 : Bytes) (file : FileContents)
    (toUse : Nat) : M Nat :=
  match args.patchData[toUse]? with
  | none => throw .overrun
  | some patch => generateTarget E file patch targetFilename targetSha1 args.bonusData

/-- The part of `applypatch` that falls back on the copy. -/
def tryCopy (args : Args) (targetFilename : String) (targetSha1 : Bytes) : M Nat := do
  match ← loadFileContents E E.cacheTempSource with
  | none => return 1
  | some copyFile =>
    match findMatchingPatch copyFile.sha1 args.patchSha1Str with
    | none => return 1
    | some toUse => useEntry E args targetFilename targetSha1 copyFile toUse

/-- The part of `applypatch` that has `source_file`, or has failed to load it. -/
def trySource (args : Args) (targetFilename : String) (targetSha1 : Bytes)
    (sourceFile : Option FileContents) : M Nat :=
  match sourceFile with
  | none => tryCopy E args targetFilename targetSha1
  | some file =>
    if file.data = [] then tryCopy E args targetFilename targetSha1
    else
      match findMatchingPatch file.sha1 args.patchSha1Str with
      | none => tryCopy E args targetFilename targetSha1
      | some toUse => useEntry E args targetFilename targetSha1 file toUse

/-- The target's file name, `"-"` being the source's. -/
def Args.target (args : Args) : String :=
  if args.targetFilename = "-" then args.sourceFilename else args.targetFilename

/-- `applypatch`: the exit status. -/
def applypatch (args : Args) : M Nat := do
  if hasType args.target "EMMC:" then
    match parseSha1 args.targetSha1Str with
    | none => return 1
    | some targetSha1 =>
      let sourceFile ← loadFileContents E args.target
      if (sourceFile.map FileContents.sha1) = some targetSha1 then return 0
      else if (sourceFile.all fun file => file.data.isEmpty) ∨ args.target ≠ args.sourceFilename then
        let sourceFile ← loadFileContents E args.sourceFilename
        trySource E args args.target targetSha1 sourceFile
      else trySource E args args.target targetSha1 sourceFile
  else return 1

end Recovery.ApplyPatch
