import Recovery.Edify.Expr

/-!
# The functions of the updater (`updater/install.cpp`)

The functions that `RegisterInstallFunctions` registers, over the arguments that they evaluate.

* `SysCall`, `Updater` — what they call and is not in the script: the system, `libbase`, the package.
* `overrun` — an element of a list of evaluated arguments that is not there; it is undefined, as
  an argument that is not there is.
* `withArgs` — the shape that most of them have: the number of arguments is checked, all of them are
  evaluated, and then they are used.
* `mountFn` to `tune2FsFn` — the functions; `installFunctions` — their table.

`Build` says how the file is compiled.  What is written to the log is left out.
-/

set_option autoImplicit false

namespace Recovery.Edify

open Recovery.Lib

structure Build where
  /-- `BUILD_SAFESTRAP`. -/
  safestrap : Bool
  /-- `HAVE_LIBTUNE2FS`. -/
  libtune2fs : Bool

/-- `perm_parsed_args`: the numbers as they are scanned. -/
structure PermParsedArgs where
  uid : Option Int := none
  gid : Option Int := none
  mode : Option Int := none
  dmode : Option Int := none
  fmode : Option Int := none
  capabilities : Option Int := none
  selabel : Option Str := none

inductive SysCall where
  | uiPrint (buffer : Str)
  /-- `fprintf(ui->cmd_pipe, …)`. -/
  | cmdPipe (text : Str)
  | applypatch (source target targetSha1 : Str) (targetSize : Nat) (patches : List (Str × Value))
  | applypatchCheck (filename : Str) (sha1s : List Str)
  /-- `mkdir` of a mount point, with its context. -/
  | makeMountPoint (mountPoint : Str)
  | mount (location mountPoint fsType options : Str)
  /-- `scan_mounted_volumes`, and 0 where the volume is not found. -/
  | findMountedVolume (mountPoint : Str)
  | unmountMountedVolume (mountPoint : Str)
  | execCmd (argv : List Str)
  /-- 0 where it is not a directory. -/
  | isDir (path : Str)
  | mkdir (path : Str)
  | access (path : Str)
  | rename (src dst : Str)
  | unlink (path : Str)
  | dirUnlinkHierarchy (path : Str)
  | symlink (target src : Str)
  /-- 0 where it fails. -/
  | extractPackageRecursive (zipPath destPath : Str)
  | findEntry (zipPath : Str)
  | otaOpen (path : Str)
  | extractEntryToFile (zipPath : Str)
  | otaFsync
  | otaClose
  | lstat (path : Str)
  /-- `ApplyParsedPerms` of a file, or of all below it with `nftw`. -/
  | applyParsedPerms (recursive : Bool) (filename : Str) (parsed : PermParsedArgs)
  /-- The size, or `-1`. -/
  | stat (path : Str)
  | cacheSizeCheck (bytes : Nat)
  /-- `fork`, `execv` and `waitpid`: the status. -/
  | runProgram (args : List Str)
  | writeStringToFile (value filename : Str)
  /-- 0 where it fails. -/
  | writeBootloaderMessage (boot filename : Str)
  | setRebootProperty (property : Str)
  | wipeBlockDevice (filename : Str) (len : Nat)
  | tune2fsMain (args : List Str)

/-- Calls that give some bytes, or fail. -/
inductive DataCall where
  | extractToMemory (zipPath : Str)
  | getProperty (key : Str)
  | fopen (filename : Str)
  | fread (filename : Str) (size : Nat)
  | loadFileContents (filename : Str)
  | readBootloaderMessage (filename : Str)

structure Updater (ω : Type) extends Host ω where
  /-- `ParseUint(s, &out)` to a `size_t`. -/
  parseUint : Str → Option Nat
  /-- `ParseDouble(s, &out)`, and the text that `%f` prints of it. -/
  parseDouble : Str → Option Str
  /-- `sscanf` with `%SCNd64`, `%SCNi32` and `%SCNi64`. -/
  scanD64 : Str → Option Int
  scanI32 : Str → Option Int
  scanI64 : Str → Option Int
  sha1 : Str → Str
  parseSha1 : Str → Option Str
  printSha1 : Str → Str
  sys : SysCall → ω → Int × ω
  data : DataCall → ω → Option Str × ω
  errno : ω → Int
  strerror : Int → Str
  /-- `state->is_retry`. -/
  isRetry : ω → Bool
  /-- `ErrorCodeString` of what failed last, and the bytes of the entry that `FindEntry` has found. -/
  errorCodeString : ω → Str
  uncompressedLength : ω → Nat
  /-- `GetBoolProperty("ro.boot.quiescent", false)`. -/
  quiescent : ω → Bool

variable {ω α : Type} (up : Updater ω)

/-! ## Effects and errors -/

def sys (call : SysCall) : Code ω Int := fun s =>
  .done (up.sys call s.world).1 { s with world := (up.sys call s.world).2 }

def data (call : DataCall) : Code ω (Option Str) := fun s =>
  .done (up.data call s.world).1 { s with world := (up.data call s.world).2 }

/-- `return ErrorAbort(state, cause, …)`. -/
def abort (cause : CauseCode) (msg : Str) : Code ω (Option α) := do
  Body.modify (errorAbort up.toHost cause msg)
  return none

/-- The same where the text ends with `strerror(errno)`. -/
def abortErrno (cause : CauseCode) (msg : Str) : Code ω (Option α) := do
  Body.modify fun s => errorAbort up.toHost cause (msg ++ up.strerror (up.errno s.world)) s
  return none

def uiPrintf (msg : Str) : Code ω Unit := do
  let _ ← sys up (.uiPrint msg)
  return ()

/-- The same where the text ends with `strerror(errno)`. -/
def uiPrintfErrno (msg : Str) : Code ω Unit := do
  let s ← Body.get
  uiPrintf up (msg ++ up.strerror (up.errno s.world))

/-- `args[i]` of evaluated arguments that are too few. -/
def overrun (argv : List Span) : Code ω (Option α) := do
  let _ ← Body.ask argv.length
  return none

/-- `"%s() <expects>, got %zu"`. -/
def countMessage (name : Str) (expects : String) (argv : List Span) : Str :=
  name ++ ascii ("() " ++ expects ++ ", got " ++ toString argv.length)

/-- The number of arguments is checked, and then all of them are evaluated. -/
def withArgs (counts : Nat → Bool) (message : Str → List Span → Str) (failed : String)
    (use : Str → List Span → List Str → Code ω (Option Value)) : Function ω := fun name argv => do
  if counts argv.length = false then abort up .argsParsingFailure (message name argv)
  else
    match ← readArgs up.toHost argv 0 argv.length with
    | none => abort up .argsParsingFailure (name ++ ascii failed)
    | some args => use name argv args

/-- `withArgs` for a fixed number of arguments. -/
def withCount (n : Nat) (expects : String)
    (use : Str → List Span → List Str → Code ω (Option Value)) : Function ω :=
  withArgs up (· = n) (countMessage · expects) "() Failed to parse the argument(s)" use

/-- `"<what> argument to %s() can't be empty"` for the first argument that is. -/
def checkEmpty (name : Str) : List (String × Str) → Code ω (Option Unit)
  | [] => return some ()
  | (what, arg) :: args =>
    if arg = [] then
      abort up .argsParsingFailure
        (ascii (what ++ " argument to ") ++ name ++ ascii "() can't be empty")
    else checkEmpty name args

def boolValue (b : Bool) : Option Value := truth b

/-- `std::to_string`. -/
def toStr (i : Int) : Str := ascii (toString i)

/-! ## Patches and hashes -/

/-- The loops over the pairs of `apply_patch`, with `n` pairs to go. -/
def checkPatches (name : Str) (argv : List Span) (argValues : List Value) :
    Nat → Nat → Code ω (Option (List (Str × Value)))
  | 0, _ => return some []
  | n + 1, i =>
    match argValues[i * 2]?, argValues[i * 2 + 1]? with
    | some sha, some patch =>
      if sha.type ≠ .string then
        abort up .argsParsingFailure (name ++ ascii s!"(): sha-1 #{i * 2} is not string")
      else if patch.type ≠ .blob then
        abort up .argsParsingFailure (name ++ ascii s!"(): patch #{i * 2 + 1} is not blob")
      else do
        match ← checkPatches name argv argValues n (i + 1) with
        | none => return none
        | some patches => return some ((sha.data, patch) :: patches)
    | _, _ => overrun argv

def applyPatchFn : Function ω := fun name argv => do
  if argv.length < 6 ∨ argv.length % 2 = 1 then
    abort up .argsParsingFailure (name ++
      ascii s!"(): expected at least 6 args and an even number, got {argv.length}")
  else
    match ← readArgs up.toHost argv 0 4 with
    | none => abort up .argsParsingFailure (name ++ ascii "() Failed to parse the argument(s)")
    | some (source :: target :: targetSha1 :: targetSizeStr :: _) =>
      match up.parseUint (cStr targetSizeStr) with
      | none => abort up .argsParsingFailure (name ++ ascii "(): can't parse \"" ++ targetSizeStr ++
          ascii "\" as byte count")
      | some targetSize =>
        match ← readValueArgs argv 4 (argv.length - 4) with
        | none => return none
        | some argValues =>
          match ← checkPatches up name argv argValues ((argv.length - 4) / 2) 0 with
          | none => return none
          | some patches => do
            let result ← sys up
              (.applypatch (cStr source) (cStr target) (cStr targetSha1) targetSize patches)
            return boolValue (result = 0)
    | some _ => overrun argv

def applyPatchCheckFn : Function ω := fun name argv => do
  if argv.length < 1 then
    abort up .argsParsingFailure (name ++ ascii s!"(): expected at least 1 arg, got {argv.length}")
  else
    match ← readArgs up.toHost argv 0 1 with
    | none => abort up .argsParsingFailure (name ++ ascii "() Failed to parse the argument(s)")
    | some (filename :: _) => do
      let sha1s ←
        if argv.length > 1 then readArgs up.toHost argv 1 (argv.length - 1)
        else pure (some [])
      match sha1s with
      | none => abort up .argsParsingFailure (name ++ ascii "() Failed to parse the argument(s)")
      | some sha1s => do
        let result ← sys up (.applypatchCheck (cStr filename) sha1s)
        return boolValue (result = 0)
    | some [] => overrun argv

/-- The loop of `sha1_check`, with `n` values to go. -/
def findSha1 (digest : Str) (argv : List Span) (args : List Value) :
    Nat → Nat → Code ω (Option Value)
  | 0, _ => return stringValue []
  | n + 1, i =>
    match args[i]? with
    | none => overrun argv
    | some arg =>
      if arg.type = .string ∧ up.parseSha1 (cStr arg.data) = some digest then return some arg
      else findSha1 digest argv args n (i + 1)

def sha1CheckFn : Function ω := fun name argv => do
  if argv.length < 1 then
    abort up .argsParsingFailure (name ++ ascii "() expects at least 1 arg")
  else
    match ← readValueArgs argv 0 argv.length with
    | none => return none
    | some [] => overrun argv
    | some (first :: rest) =>
      if first.type = .invalid then return stringValue []
      else
        let digest := up.sha1 first.data
        if argv.length = 1 then return stringValue (up.printSha1 digest)
        else findSha1 up digest argv (first :: rest) (argv.length - 1) 1

/-! ## Mounting and formatting -/

def mountFn : Function ω :=
  withArgs up (fun n => n = 4 ∨ n = 5) (countMessage · "expects 4-5 args")
      "() Failed to parse the argument(s)" fun name argv args =>
    match args with
    | fsType :: partitionType :: location :: mountPoint :: options => do
      let mountOptions ← match argv.length, options with
        | 5, [] => overrun argv
        | 5, options :: _ => pure (some options)
        | _, _ => pure (some [])
      match mountOptions with
      | none => return none
      | some mountOptions =>
        match ← checkEmpty up name [("fs_type", fsType), ("partition_type", partitionType),
          ("location", location), ("mount_point", mountPoint)] with
        | none => return none
        | some _ => do
          let _ ← sys up (.makeMountPoint (cStr mountPoint))
          let ret ← sys up
            (.mount (cStr location) (cStr mountPoint) (cStr fsType) (cStr mountOptions))
          if ret < 0 then do
            uiPrintfErrno up (name ++ ascii ": Failed to mount " ++ cStr location ++
              ascii " at " ++ cStr mountPoint ++ ascii ": ")
            return stringValue []
          else return stringValue mountPoint
    | _ => overrun argv

/-- `is_mounted` and `unmount` up to the volume: whether it is found. -/
def findVolume (mountPoint : Str) : Code ω (Option Bool) := do
  if mountPoint = [] then
    abort up .argsParsingFailure (ascii "mount_point argument to unmount() can't be empty")
  else do
    let vol ← sys up (.findMountedVolume (cStr mountPoint))
    return some (vol ≠ 0)

def isMountedFn : Function ω := withCount up 1 "expects 1 arg" fun _ argv args =>
  match args with
  | mountPoint :: _ => do
    match ← findVolume up mountPoint with
    | none => return none
    | some vol => return stringValue (if vol then mountPoint else [])
  | _ => overrun argv

def unmountFn : Function ω := withCount up 1 "expects 1 arg" fun _ argv args =>
  match args with
  | mountPoint :: _ => do
    match ← findVolume up mountPoint with
    | none => return none
    | some false => do
      uiPrintf up (ascii "Failed to unmount " ++ cStr mountPoint ++ ascii ": No such volume")
      return none
    | some true => do
      let ret ← sys up (.unmountMountedVolume (cStr mountPoint))
      if ret ≠ 0 then
        uiPrintfErrno up (ascii "Failed to unmount " ++ cStr mountPoint ++ ascii ": ")
      return stringValue mountPoint
  | _ => overrun argv

/-- The programs that make the file system, one after the other. -/
def execAll (location : Str) : List (List Str) → Code ω (Option Value)
  | [] => return stringValue location
  | program :: programs => do
    let status ← sys up (.execCmd program)
    if status ≠ 0 then return stringValue [] else execAll location programs

/-- The message of `format` for a wrong number of arguments. -/
def formatCount (build : Build) (name : Str) (argv : List Span) : Code ω (Option Value) :=
  if build.safestrap then do
    appendErrmsg (countMessage name "expects 4 or 5 args" argv)
    return none
  else abort up .argsParsingFailure (countMessage name "expects 5 args" argv)

def formatFn (build : Build) : Function ω := fun name argv => do
  if (build.safestrap = true ∧ (argv.length < 4 ∨ argv.length > 5)) ∨
      (build.safestrap = false ∧ argv.length ≠ 5) then
    formatCount up build name argv
  else
    match ← readArgs up.toHost argv 0 argv.length with
    | none => abort up .argsParsingFailure (name ++ ascii "() Failed to parse the argument(s)")
    | some (fsType :: partitionType :: location :: fsSize :: mountPoint :: _) =>
      match ← checkEmpty up name [("fs_type", fsType), ("partition_type", partitionType),
        ("location", location), ("mount_point", mountPoint)] with
      | none => return none
      | some _ =>
        match up.parseInt fsSize (-2 ^ 63) (2 ^ 63 - 1) with
        | none => abort up .argsParsingFailure (name ++ ascii ": failed to parse int in " ++
            cStr fsSize)
        | some size =>
          if fsType = ascii "ext4" then
            execAll up location
              [[ascii "/sbin/mke2fs_static", ascii "-t", ascii "ext4", ascii "-b", ascii "4096",
                  cStr location] ++ (if size ≠ 0 then [toStr (size.tdiv 4096)] else []),
                [ascii "/sbin/e2fsdroid_static", ascii "-e", ascii "-a", cStr mountPoint,
                  cStr location]]
          else if fsType = ascii "f2fs" then
            if size < 0 then return stringValue []
            else
              execAll up location
                [[ascii "mkfs.f2fs", ascii "-d1", ascii "-f", ascii "-O", ascii "encrypt",
                    ascii "-O", ascii "quota", ascii "-O", ascii "verity", ascii "-w", ascii "512",
                    cStr location] ++ (if size < 512 then [] else [toStr (size / 512)]),
                  [ascii "/sbin/sload.f2fs", ascii "-t", cStr mountPoint, cStr location]]
          else return none
    -- `args[4]` of four arguments
    | some _ => overrun argv

/-! ## Files -/

/-- The directories of `make_parents`: the text before each `/` but one at its start. -/
def parentsOf (name : Str) : List Str :=
  ((List.range name.length).filter fun i => 0 < i ∧ name[i]? = some 47).map name.take

/-- The loop of `make_parents`. -/
def makeDirs : List Str → Code ω Bool
  | [] => return true
  | dirPath :: dirs => do
    let isDir ← sys up (.isDir (cStr dirPath))
    if isDir ≠ 0 then makeDirs dirs
    else do
      let result ← sys up (.mkdir (cStr dirPath))
      if result ≠ 0 then return false else makeDirs dirs

def makeParents (name : Str) : Code ω Bool := makeDirs up (parentsOf name)

def renameFn : Function ω := withCount up 2 "expects 2 args" fun name argv args =>
  match args with
  | srcName :: dstName :: _ => do
    match ← checkEmpty up name [("src_name", srcName), ("dst_name", dstName)] with
    | none => return none
    | some _ => do
      if (← makeParents up dstName) = false then
        abortErrno up .fileRenameFailure (ascii "Creating parent of " ++ cStr dstName ++
          ascii " failed, error ")
      else do
        let dst ← sys up (.access (cStr dstName))
        let src ← if dst = 0 then sys up (.access (cStr srcName)) else pure 0
        -- the file was already moved
        if dst = 0 ∧ src ≠ 0 then return stringValue dstName
        else do
          let ret ← sys up (.rename (cStr srcName) (cStr dstName))
          if ret ≠ 0 then
            abortErrno up .fileRenameFailure (ascii "Rename of " ++ cStr srcName ++ ascii " to " ++
              cStr dstName ++ ascii " failed, error ")
          else return stringValue dstName
  | _ => overrun argv

/-- The loop of `delete`: the number of successes. -/
def deletePaths (recursive : Bool) : List Str → Nat → Code ω Nat
  | [], success => return success
  | path :: paths, success => do
    let ret ← sys up (if recursive then .dirUnlinkHierarchy (cStr path) else .unlink (cStr path))
    deletePaths recursive paths (if ret = 0 then success + 1 else success)

def deleteFn : Function ω := fun name argv => do
  match ← readArgs up.toHost argv 0 argv.length with
  | none => return none
  | some paths => do
    let success ← deletePaths up (name = ascii "delete_recursive") paths 0
    return stringValue (toStr success)

/-- The loop of `symlink`: the number of failures. -/
def makeSymlinks (target : Str) : List Str → Nat → Code ω Nat
  | [], bad => return bad
  | src :: srcs, bad => do
    let removed ← sys up (.unlink (cStr src))
    let s ← Body.get
    -- `ENOENT`
    if removed = -1 ∧ up.errno s.world ≠ 2 then makeSymlinks target srcs (bad + 1)
    else if (← makeParents up src) = false then makeSymlinks target srcs (bad + 1)
    else do
      let linked ← sys up (.symlink (cStr target) (cStr src))
      makeSymlinks target srcs (if linked = -1 then bad + 1 else bad)

def symlinkFn : Function ω := fun name argv => do
  if argv.length = 0 then
    abort up .argsParsingFailure (countMessage name "expects 1+ args" argv)
  else
    match ← evaluate up.toHost 0 with
    | none => return none
    | some target =>
      -- as many arguments as there are, from the second one on
      match ← readArgs up.toHost argv 1 argv.length with
      | none => abort up .argsParsingFailure (name ++ ascii "(): Failed to parse the argument(s)")
      | some srcs => do
        let bad ← makeSymlinks up target srcs 0
        if bad ≠ 0 then
          abort up .symlinkFailure (name ++ ascii s!": Failed to create {bad} symlink(s)")
        else return stringValue (ascii "t")

def packageExtractDirFn : Function ω := withCount up 2 "expects 2 args" fun _ argv args =>
  match args with
  | zipPath :: destPath :: _ => do
    let success ← sys up (.extractPackageRecursive zipPath destPath)
    return boolValue (success ≠ 0)
  | _ => overrun argv

/-- `package_extract_file` to a file. -/
def extractToFile (zipPath destPath : Str) : Code ω (Option Value) := do
  if (← sys up (.findEntry (cStr zipPath))) ≠ 0 then return stringValue []
  else if (← sys up (.otaOpen (cStr destPath))) = -1 then return stringValue []
  else do
    let extracted ← sys up (.extractEntryToFile (cStr zipPath))
    let synced ← sys up .otaFsync
    let closed ← sys up .otaClose
    return boolValue (extracted = 0 ∧ synced ≠ -1 ∧ closed ≠ -1)

/-- `package_extract_file` to a blob. -/
def extractToBlob (name zipPath : Str) : Code ω (Option Value) := do
  if (← sys up (.findEntry (cStr zipPath))) ≠ 0 then
    abort up .packageExtractFileFailure (name ++ ascii "(): no " ++ cStr zipPath ++
      ascii " in package")
  else
    match ← data up (.extractToMemory (cStr zipPath)) with
    | some buffer => return some ⟨.blob, buffer⟩
    | none => do
      Body.modify fun s => errorAbort up.toHost .packageExtractFileFailure
        (name ++ ascii ": Failed to extract entry \"" ++ cStr zipPath ++
          ascii s!"\" ({up.uncompressedLength s.world} bytes) to memory: " ++
            up.errorCodeString s.world) s
      return none

def packageExtractFileFn : Function ω := fun name argv => do
  if argv.length < 1 ∨ argv.length > 2 then
    abort up .argsParsingFailure (countMessage name "expects 1 or 2 args" argv)
  else
    match ← readArgs up.toHost argv 0 argv.length with
    | none =>
      abort up .argsParsingFailure (name ++ ascii s!"() Failed to parse {argv.length} args")
    | some args =>
      if argv.length = 2 then
        match args with
        | zipPath :: destPath :: _ => extractToFile up zipPath destPath
        | _ => overrun argv
      else
        match args with
        | zipPath :: _ => extractToBlob up name zipPath
        | _ => overrun argv

/-! ## Metadata and properties -/

/-- One key of `ParsePermArgs` with its value: the field that it sets, or none. -/
def setPerm (key value : Str) (parsed : PermParsedArgs) : Option PermParsedArgs :=
  if key = ascii "uid" then (up.scanD64 (cStr value)).map fun i => { parsed with uid := some i }
  else if key = ascii "gid" then
    (up.scanD64 (cStr value)).map fun i => { parsed with gid := some i }
  else if key = ascii "mode" then
    (up.scanI32 (cStr value)).map fun i => { parsed with mode := some i }
  else if key = ascii "dmode" then
    (up.scanI32 (cStr value)).map fun i => { parsed with dmode := some i }
  else if key = ascii "fmode" then
    (up.scanI32 (cStr value)).map fun i => { parsed with fmode := some i }
  else if key = ascii "capabilities" then
    (up.scanI64 (cStr value)).map fun i => { parsed with capabilities := some i }
  else if value ≠ [] then some { parsed with selabel := some (cStr value) } else none

/-- The keys of `ParsePermArgs`, and how its messages call them. -/
def permKeys : List (String × String) :=
  [("uid", "UID"), ("gid", "GID"), ("mode", "mode"), ("dmode", "dmode"), ("fmode", "fmode"),
    ("capabilities", "capabilities"), ("selabel", "selabel")]

/-- The loop of `ParsePermArgs`; the value of an unknown key is not looked at. -/
def parsePermArgs (argv : List Span) : List Str → PermParsedArgs → Code ω (Option PermParsedArgs)
  | [], parsed => return some parsed
  | [key], parsed =>
    if permKeys.any fun p => key = ascii p.1 then overrun argv else return some parsed
  | key :: value :: args, parsed =>
    match permKeys.find? fun p => key = ascii p.1 with
    | none => parsePermArgs argv args parsed
    | some (_, called) =>
      match setPerm up key value parsed with
      | some parsed => parsePermArgs argv args parsed
      | none => do
        uiPrintf up (ascii ("ParsePermArgs: invalid " ++ called ++ " \"") ++ cStr value ++
          ascii "\"\n")
        parsePermArgs argv args parsed

def setMetadataFn : Function ω :=
  withArgs up (fun n => n % 2 = 1) (countMessage · "expects an odd number of arguments")
      "() Failed to parse the argument(s)" fun name argv args =>
    match args with
    | filename :: keys => do
      if (← sys up (.lstat (cStr filename))) = -1 then
        abortErrno up .setMetadataFailure (name ++ ascii ": Error on lstat of \"" ++ cStr filename ++
          ascii "\": ")
      else
        match ← parsePermArgs up argv keys {} with
        | none => return none
        | some parsed => do
          let bad ← sys up (.applyParsedPerms (name = ascii "set_metadata_recursive")
            (cStr filename) parsed)
          if bad > 0 then abort up .setMetadataFailure (name ++ ascii ": some changes failed")
          else return stringValue []
    | [] => overrun argv

def getPropFn : Function ω := fun name argv => do
  if argv.length ≠ 1 then
    abort up .argsParsingFailure (countMessage name "expects 1 arg" argv)
  else
    match ← evaluate up.toHost 0 with
    | none => return none
    | some key => do
      let value ← data up (.getProperty key)
      return stringValue (value.getD [])

/-- The value of the key in the lines of a file, as `file_getprop` finds it. -/
def findProp (key : Str) : List Str → Str
  | [] => []
  | line :: lines =>
    let line := up.trim line
    -- a comment or a blank line, or one without `=`
    if line = [] ∨ line.head? = some 35 ∨ 61 ∉ line then findProp key lines
    else if key ≠ up.trim (line.takeWhile (· ≠ 61)) then findProp key lines
    else up.trim (line.dropWhile (· ≠ 61)).tail

def MAX_FILE_GETPROP_SIZE : Int := 65536

def fileGetPropFn : Function ω := withCount up 2 "expects 2 args" fun name argv args =>
  match args with
  | filename :: key :: _ => do
    let size ← sys up (.stat (cStr filename))
    if size < 0 then
      abortErrno up .fileGetPropFailure (name ++ ascii ": failed to stat \"" ++ cStr filename ++
        ascii "\": ")
    else if size > MAX_FILE_GETPROP_SIZE then
      abort up .fileGetPropFailure (cStr filename ++ ascii " too large for " ++ name ++
        ascii s!" (max {MAX_FILE_GETPROP_SIZE})")
    else
      match ← data up (.fopen (cStr filename)) with
      | none => abortErrno up .fileOpenFailure (name ++ ascii ": failed to open " ++ cStr filename ++
          ascii ": ")
      | some _ =>
        match ← data up (.fread (cStr filename) size.toNat) with
        | none => abort up .freadFailure (name ++
            ascii s!": failed to read {size.toNat} bytes from " ++ cStr filename)
        | some buffer => return stringValue (findProp up key (buffer.splitOn 10))
  | _ => overrun argv

/-! ## The rest -/

def showProgressFn : Function ω := withCount up 2 "expects 2 args" fun name argv args =>
  match args with
  | fracStr :: secStr :: _ =>
    match up.parseDouble (cStr fracStr) with
    | none => abort up .argsParsingFailure (name ++ ascii ": failed to parse double in " ++
        cStr fracStr)
    | some frac =>
      match up.parseInt (cStr secStr) (-2 ^ 31) (2 ^ 31 - 1) with
      | none => abort up .argsParsingFailure (name ++ ascii ": failed to parse int in " ++
          cStr secStr)
      | some sec => do
        let _ ← sys up (.cmdPipe (ascii "progress " ++ frac ++ ascii s!" {sec}\n"))
        return stringValue fracStr
  | _ => overrun argv

def setProgressFn : Function ω := withCount up 1 "expects 1 arg" fun name argv args =>
  match args with
  | fracStr :: _ =>
    match up.parseDouble (cStr fracStr) with
    | none => abort up .argsParsingFailure (name ++ ascii ": failed to parse double in " ++
        cStr fracStr)
    | some frac => do
      let _ ← sys up (.cmdPipe (ascii "set_progress " ++ frac ++ ascii "\n"))
      return stringValue fracStr
  | _ => overrun argv

def uiPrintFn : Function ω := fun name argv => do
  match ← readArgs up.toHost argv 0 argv.length with
  | none => abort up .argsParsingFailure (name ++ ascii "(): Failed to parse the argument(s)")
  | some args => do
    let _ ← sys up (.uiPrint args.flatten)
    return stringValue args.flatten

def applyPatchSpaceFn : Function ω := withCount up 1 "expects 1 args" fun name argv args =>
  match args with
  | bytesStr :: _ =>
    match up.parseUint (cStr bytesStr) with
    | none => abort up .argsParsingFailure (name ++ ascii "(): can't parse \"" ++ cStr bytesStr ++
        ascii "\" as byte count")
    | some bytes => do
      let s ← Body.get
      if up.isRetry s.world then return boolValue true
      else do
        let ret ← sys up (.cacheSizeCheck bytes)
        return boolValue (ret = 0)
  | _ => overrun argv

/-- `wipe_cache` and `enable_reboot`: a command without arguments. -/
def commandFn (command : String) : Function ω := fun name argv => do
  if argv ≠ [] then abort up .argsParsingFailure (countMessage name "expects no args" argv)
  else do
    let _ ← sys up (.cmdPipe (ascii (command ++ "\n")))
    return boolValue true

def wipeCacheFn : Function ω := commandFn up "wipe_cache"

def enableRebootFn : Function ω := commandFn up "enable_reboot"

def runProgramFn : Function ω :=
  withArgs up (fun n => ¬ n < 1) (fun name _ => name ++ ascii "() expects at least 1 arg")
      "() Failed to parse the argument(s)" fun _ argv args => do
    -- `args[i]` for every argument
    if args.length < argv.length then overrun argv
    else do
      let status ← sys up (.runProgram (args.map cStr))
      return stringValue (toStr status)

def readFileFn : Function ω := withCount up 1 "expects 1 arg" fun _ argv args =>
  match args with
  | filename :: _ => do
    match ← data up (.loadFileContents (cStr filename)) with
    | some content => return some ⟨.blob, content⟩
    | none => return some ⟨.invalid, []⟩
  | _ => overrun argv

def writeValueFn : Function ω :=
  withArgs up (· = 2) (countMessage · "expects 2 args") "(): Failed to parse the argument(s)"
      fun name argv args =>
    match args with
    | value :: filename :: _ =>
      if filename = [] then
        abort up .argsParsingFailure (name ++ ascii "(): Filename cannot be empty")
      else do
        let ret ← sys up (.writeStringToFile value filename)
        return boolValue (ret ≠ 0)
    | _ => overrun argv

/-- Read the message, change it and write it back: whether that worked. -/
def updateBootloaderMessage (filename : Str) (change : Str → Str) : Code ω Bool := do
  match ← data up (.readBootloaderMessage filename) with
  | none => return false
  | some boot => do
    let ret ← sys up (.writeBootloaderMessage (change boot) filename)
    return ret ≠ 0

def rebootNowFn : Function ω :=
  withArgs up (· = 2) (countMessage · "expects 2 args") "(): Failed to parse the argument(s)"
      fun name argv args =>
    match args with
    | filename :: property :: _ => do
      if (← updateBootloaderMessage up filename (splice · 0 (List.replicate 32 0))) = false then
        return stringValue []
      else do
        let s ← Body.get
        let _ ← sys up (.setRebootProperty (ascii "reboot," ++ property ++
          if up.quiescent s.world then ascii ",quiescent" else []))
        Body.modify fun s => { s with world := up.sleep 5 s.world }
        abort up .rebootFailure (name ++ ascii "() failed to reboot")
    | _ => overrun argv

/-- `boot.stage`, which follows on `command`, `status` and `recovery`. -/
def stageOffset : Nat := 32 + 32 + 768

def setStageFn : Function ω := withCount up 2 "expects 2 args" fun _ argv args =>
  match args with
  | filename :: stagestr :: _ => do
    -- `strlcpy`
    let stage := (cStr stagestr).take 31 ++ [0]
    if (← updateBootloaderMessage up filename (splice · stageOffset stage)) = false then
      return stringValue []
    else return stringValue filename
  | _ => overrun argv

def getStageFn : Function ω := withCount up 1 "expects 1 arg" fun _ argv args =>
  match args with
  | filename :: _ => do
    match ← data up (.readBootloaderMessage filename) with
    | none => return stringValue []
    | some boot => return stringValue (boot.drop stageOffset)
  | _ => overrun argv

def wipeBlockDeviceFn : Function ω := withCount up 2 "expects 2 args" fun _ argv args =>
  match args with
  | filename :: lenStr :: _ =>
    match up.parseUint (cStr lenStr) with
    | none => return none
    | some len => do
      let status ← sys up (.wipeBlockDevice (cStr filename) len)
      return boolValue (status = 0)
  | _ => overrun argv

def tune2FsFn (build : Build) : Function ω := fun name argv => do
  if build.libtune2fs = false then
    abort up .tune2FsFailure (name ++ ascii "() support not present, no libtune2fs")
  else if argv = [] then
    abort up .argsParsingFailure (countMessage name "expects args" argv)
  else
    match ← readArgs up.toHost argv 0 argv.length with
    | none => abort up .argsParsingFailure (name ++ ascii "() could not read args")
    | some args => do
      if args.length < argv.length then overrun argv
      else do
        let result ← sys up (.tune2fsMain (name :: args.map cStr))
        if result ≠ 0 then
          abort up .tune2FsFailure (name ++ ascii s!"() returned error code {result}")
        else return boolValue true

/-- The functions that `RegisterInstallFunctions` registers. -/
def installFunctions (build : Build) : List (Str × Function ω) :=
  [(ascii "mount", mountFn up), (ascii "is_mounted", isMountedFn up),
    (ascii "unmount", unmountFn up), (ascii "format", formatFn up build),
    (ascii "show_progress", showProgressFn up), (ascii "set_progress", setProgressFn up),
    (ascii "delete", deleteFn up), (ascii "delete_recursive", deleteFn up),
    (ascii "package_extract_dir", packageExtractDirFn up),
    (ascii "package_extract_file", packageExtractFileFn up), (ascii "symlink", symlinkFn up),
    (ascii "set_metadata", setMetadataFn up), (ascii "set_metadata_recursive", setMetadataFn up),
    (ascii "getprop", getPropFn up), (ascii "file_getprop", fileGetPropFn up),
    (ascii "apply_patch", applyPatchFn up), (ascii "apply_patch_check", applyPatchCheckFn up),
    (ascii "apply_patch_space", applyPatchSpaceFn up),
    (ascii "wipe_block_device", wipeBlockDeviceFn up), (ascii "read_file", readFileFn up),
    (ascii "sha1_check", sha1CheckFn up), (ascii "rename", renameFn up),
    (ascii "write_value", writeValueFn up), (ascii "wipe_cache", wipeCacheFn up),
    (ascii "ui_print", uiPrintFn up), (ascii "run_program", runProgramFn up),
    (ascii "reboot_now", rebootNowFn up), (ascii "get_stage", getStageFn up),
    (ascii "set_stage", setStageFn up), (ascii "enable_reboot", enableRebootFn up),
    (ascii "tune2fs", tune2FsFn up build)]

/-- What a script can call: `RegisterBuiltins` and `RegisterInstallFunctions`. -/
def functionTable (build : Build) : List (Str × Function ω) :=
  builtins up.toHost ++ installFunctions up build

end Recovery.Edify
