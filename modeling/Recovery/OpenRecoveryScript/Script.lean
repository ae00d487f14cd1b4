import Recovery.Lib.Text

/-!
# OpenRecoveryScript (`openrecoveryscript.cpp`)

`run_script_file` reads a script with `fgets`, splits each line at its first blank, and executes it.

* `strcpy`, `strcat`, `strncpy`, `sprintf` — copies into the buffers of fixed size.  `Fault` is a copy
  from a null token, one that does not fit, or the first element of a vector that has none.
* `parseLine` — a line as it is split.
* `Device`, `exec` — the commands: those that use buffers in full, the others by what they return.
* `runLines`, `runScriptFile` — the commands that are executed, and how the run ends.

A buffer is the string in it, without the NUL.
-/

set_option autoImplicit false

namespace Recovery.OpenRecoveryScript

open Recovery.Lib

def SCRIPT_COMMAND_SIZE : Nat := 512

/-- The buffers of `run_script_file`; `options` is the `value1` of `Backup_Command`. -/
inductive Buffer where
  | command
  | value
  | mount
  | value1
  | value2
  | empt
  | folder_path
  | partitions
  | backup_folder
  | options
  deriving DecidableEq

def Buffer.size : Buffer → Nat
  | .empt => 50
  | _ => SCRIPT_COMMAND_SIZE

inductive Fault where
  | nullToken
  | overflow (b : Buffer)
  /-- `args[0]` of a vector without elements. -/
  | emptyVector
  deriving DecidableEq

def text (s : String) : List UInt8 := s.toList.map fun c => c.toNat.toUInt8

/-! ## Buffers -/

def strcpy (b : Buffer) : Option (List UInt8) → Except Fault (List UInt8)
  | none => .error .nullToken
  | some s => if s.length < b.size then .ok s else .error (.overflow b)

def strcat (b : Buffer) (s t : List UInt8) : Except Fault (List UInt8) :=
  if (s ++ t).length < b.size then .ok (s ++ t) else .error (.overflow b)

def sprintf (b : Buffer) (s : List UInt8) : Except Fault (List UInt8) := strcpy b (some s)

/-- `n` bytes are written. A negative number is a large `size_t`. -/
def strncpy (b : Buffer) (s : List UInt8) (n : Int) : Except Fault (List UInt8) :=
  if n < 0 ∨ (b.size : Int) < n then .error (.overflow b) else .ok (s.take n.toNat)

/-! ## Lines -/

/-- A command that is to be executed. -/
structure Command where
  command : List UInt8
  value : List UInt8
  /-- `cindex != 0`. -/
  given : Bool
  deriving DecidableEq

def skip (c : UInt8) : List UInt8 → List UInt8
  | [] => []
  | b :: s => if b = c then s else b :: s

/-- What is read up to a NUL. -/
def cString (chunk : List UInt8) : List UInt8 := chunk.takeWhile (· ≠ 0)

def parseLine (script_line : List UInt8) : Except Fault (Option Command) :=
  let line_len : Int := script_line.length
  if line_len < 2 then .ok none
  else
    let cindex := (script_line.findIdx? (· = 32)).getD 0
    let remove_nl : Int := if script_line.getLast? = some newline then 2 else 1
    if cindex ≠ 0 then do
      let command ← strncpy .command script_line cindex
      -- 51 is the code of '3', '=' is 61
      let val_start := skip 32 (skip 51 (skip 32 (script_line.drop (cindex + 1))))
      let value ← strncpy .value val_start (line_len - cindex - remove_nl)
      return some ⟨command, value, true⟩
    else do
      let command ← strncpy .command script_line (line_len - remove_nl + 1)
      return some ⟨command, [], false⟩

/-! ## Commands -/

structure Storage where
  mounted : Bool
  /-- `TW_BACKUPS_FOLDER_VAR` when the storage is the current one. -/
  folder_var : List UInt8

/-- What the commands act on. -/
structure Device (σ : Type) where
  storages : σ → List Storage
  pathExists : σ → List UInt8 → Bool
  /-- `Get_Android_Root_Path`, on a device with `ro.twrp.sar` and on others. -/
  sar : Bool
  /-- `Check_Backup_Name` returns 0. -/
  checkBackupName : σ → List UInt8 → Bool
  /-- The return code of a command, and what it does. -/
  call : Command → σ → Int × σ

section

variable {σ : Type} (device : Device σ)

def strtokBlank : List UInt8 → Option (List UInt8 × List UInt8) := strtok (· = 32)

/-- `strncpy(value2, tok, line_len - remove_nl)`. -/
def copyName (tok : List UInt8) : Except Fault (List UInt8) := do
  let value2 ← strcpy .value2 (some tok)
  let remove_nl : Int :=
    if tok.getLast? = some 10 ∨ tok.getLast? = some 13 then 2 else 0
  let _ ← strncpy .value2 tok (tok.length - remove_nl)
  return value2

/-- `Backup_Command`. -/
def backupCommand (c : Command) (value1 : List UInt8) (s : σ) : Except Fault (Int × σ) := do
  let _ ← strcpy .options (some value1)
  return device.call c s

def backup (c : Command) (s : σ) : Except Fault (Int × σ) := do
  let tok := strtokBlank c.value
  let value1 ← strcpy .value1 (tok.map Prod.fst)
  match tok.bind fun t => strtokBlank t.2 with
  | some (name, _) => do
    let value2 ← copyName name
    if device.checkBackupName s value2 then backupCommand device c value1 s else .ok (1, s)
  | none => do
    let _ ← strcpy .empt (some (text "(Current Date)"))
    backupCommand device c value1 s

/-- The folder and the partitions of `restore`, which the last blank separates. -/
def splitRestore (value : List UInt8) : List UInt8 × List UInt8 :=
  if 32 ∈ value then
    ((value.rdropWhile (· ≠ 32)).dropLast, value.rtakeWhile (· ≠ 32))
  else (value, [])

/-- The loop over the storages. -/
def findBackup (s : σ) (folder_path : List UInt8) : List Storage → Except Fault (List UInt8)
  | [] => .ok folder_path
  | storage :: rest =>
    if storage.mounted then do
      let backup_folder ← sprintf .backup_folder (storage.folder_var ++ 47 :: folder_path)
      if device.pathExists s backup_folder then strcpy .folder_path (some backup_folder)
      else findBackup s folder_path rest
    else findBackup s folder_path rest

/-- The path of the backup, from the name of its folder. -/
def restorePath (s : σ) (folder_path : List UInt8) : Except Fault (List UInt8) :=
  if folder_path.head? ≠ some 47 then findBackup device s folder_path (device.storages s)
  else if folder_path.getLast? = some 47 then strcat .folder_path folder_path [46]
  else strcat .folder_path folder_path [47, 46]

def restoreFrom (c : Command) (s : σ) (folder_path partitions : List UInt8) :
    Except Fault (Int × σ) :=
  if ¬ device.pathExists s folder_path then .ok (1, s)
  else do
    let _ ← strcpy .value2 (some partitions)
    return device.call c s

def restore (c : Command) (s : σ) : Except Fault (Int × σ) := do
  let partitions ← strcpy .partitions (some (splitRestore c.value).2)
  let folder_path ← strcpy .folder_path (some (splitRestore c.value).1)
  let folder_path ← restorePath device s folder_path
  restoreFrom device c s folder_path partitions

def mountArgument (value : List UInt8) : Except Fault (List UInt8) :=
  if value.head? ≠ some 47 then do
    let mount ← strcpy .mount (some [47])
    strcat .mount mount value
  else strcpy .mount (some value)

def androidRoot (mount : List UInt8) : Except Fault (List UInt8) :=
  if mount = text "/system" then
    strcpy .mount (some (if device.sar then text "/system_root" else text "/system"))
  else .ok mount

/-- `mount` and `unmount`. -/
def mountPath (c : Command) (s : σ) : Except Fault (Int × σ) := do
  let mount ← mountArgument c.value
  let _ ← androidRoot device mount
  return (0, (device.call c s).2)

def set (c : Command) (s : σ) : Except Fault (Int × σ) := do
  let _ ← strcpy .value1 ((strtokBlank c.value).map Prod.fst)
  return (0, (device.call c s).2)

/-- `Split_String(tmp, " ")`: pieces without characters are left out. -/
def splitString (str : List UInt8) : List (List UInt8) := words (· = 32) str

def decrypt (c : Command) (s : σ) : Except Fault (Int × σ) :=
  if c.value = [] then .ok (1, s)
  else
    match splitString c.value with
    | [] => .error .emptyVector
    | _ :: _ => .ok (device.call c s)

def wipeValues : List (List UInt8) :=
  ["cache", "/cache", "system", "/system", "dalvik", "dalvick", "dalvikcache", "dalvickcache",
    "data", "/data", "factory", "factoryreset"].map text

/-- The commands without buffers whose return code decides, and those that go on in any case. -/
def returning : List (List UInt8) :=
  ["install", "remountrw", "mkdir", "sideload", "fixperms", "fixpermissions", "fixcontexts"].map text

def others : List (List UInt8) := ["reboot", "cmd", "print"].map text

def exec (c : Command) (s : σ) : Except Fault (Int × σ) :=
  if c.command = text "backup" then backup device c s
  else if c.command = text "restore" then restore device c s
  else if c.command ∈ ["mount", "unmount", "umount"].map text then mountPath device c s
  else if c.command = text "set" then set device c s
  else if c.command = text "wipe" then
    if c.value ∈ wipeValues ∨ c.value = text "/system_root" ∧ device.sar then
      .ok (0, (device.call c s).2)
    else .ok (1, s)
  else if c.command = text "decrypt" then decrypt device c s
  else if c.command ∈ returning then .ok (device.call c s)
  else if c.command ∈ others then .ok (0, (device.call c s).2)
  else .ok (1, s)

end

/-! ## Scripts -/

section

variable {σ : Type} (exec : Command → σ → Except Fault (Int × σ))

/-- The loop over what `fgets` reads, up to the first command that fails. -/
def runLines : List (List UInt8) → σ → List Command × Except Fault (Int × σ)
  | [], s => ([], .ok (0, s))
  | chunk :: rest, s =>
    match parseLine (cString chunk) with
    | .error f => ([], .error f)
    | .ok none => runLines rest s
    | .ok (some c) =>
      match exec c s with
      | .error f => ([c], .error f)
      | .ok (ret_val, s) =>
        if ret_val = 0 then
          let (cs, r) := runLines rest s
          (c :: cs, r)
        else ([c], .ok (ret_val, s))

/-- `run_script_file`: the commands that it executes, and its end. -/
def runScriptFile (file : List UInt8) (s : σ) : List Command × Except Fault (Int × σ) :=
  runLines exec (chunks (SCRIPT_COMMAND_SIZE - 1) file) s

end

/-- `Insert_ORS_Command`. -/
def insertORSCommand (file command : List UInt8) : List UInt8 := file ++ command ++ [newline]

end Recovery.OpenRecoveryScript
