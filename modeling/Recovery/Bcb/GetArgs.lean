import Recovery.Lib.CString
import Recovery.Lib.Lines

/-!
# The bootloader message

`bootloader_message.cpp`, `get_args` of `recovery.cpp`, and the updater functions that write to the
same block, `set_stage` and `reboot_now`.

* `BootloaderMessage` — the BCB, with its fixed arrays.
* `updateBootloaderMessageInStruct` — the options as lines of the `recovery` field.
* `getArgs` — the arguments of a boot, and the BCB it leaves behind; `none` where the behaviour of
  the program is undefined.
* `Call` — the calls of an update script.

The fields of a `BootloaderMessage` keep their length by type.  A write may fail in the middle of
the block, which then is partly new (`WriteResult`).
-/

set_option autoImplicit false

namespace Recovery.Bcb

open Recovery.Lib

/-- A `std::string`: any bytes, NUL included. -/
abbrev Str := List UInt8

def newline : UInt8 := 10

/-- `"recovery"`. -/
def recoveryWord : Str := [114, 101, 99, 111, 118, 101, 114, 121]

/-- `"boot-recovery"`. -/
def bootRecoveryWord : Str := [98, 111, 111, 116, 45] ++ recoveryWord

/-- `bootloader_message`, built without `USE_OLD_BOOTLOADER_MESSAGE`. -/
structure BootloaderMessage where
  command : Chars 32
  status : Chars 32
  recovery : Chars 768
  stage : Chars 32
  reserved : Chars 1184

/-- `bootloader_message boot = {}`. -/
def BootloaderMessage.zeroed : BootloaderMessage :=
  ⟨.zeros 32, .zeros 32, .zeros 768, .zeros 32, .zeros 1184⟩

/-! ## Writing -/

/-- How a write of the message ends: completely, or after `n` bytes. -/
inductive WriteResult
  | ok
  | failed (n : Nat)

/-- The first `k` characters of `new`, the others of `old`. -/
def mixed {n : Nat} (k : Nat) (new old : Chars n) : Chars n :=
  ⟨new.1.take k ++ old.1.drop k, by
    rw [List.length_append, List.length_take, List.length_drop, new.2, old.2]
    omega⟩

theorem mixed_self {n : Nat} (k : Nat) (a : Chars n) : mixed k a a = a :=
  Subtype.ext (List.take_append_drop k a.1)

/-- The block after a write of `new` over `old`. -/
def WriteResult.block (w : WriteResult) (new old : BootloaderMessage) : BootloaderMessage :=
  match w with
  | .ok => new
  | .failed n =>
    { command := mixed n new.command old.command
      status := mixed (n - 32) new.status old.status
      recovery := mixed (n - 64) new.recovery old.recovery
      stage := mixed (n - 832) new.stage old.stage
      reserved := mixed (n - 864) new.reserved old.reserved }

/-- The loop over the options; `back()` of an empty option is undefined. -/
def appendOptions : List Str → Chars 768 → Option (Chars 768)
  | [], recovery => some recovery
  | s :: options, recovery =>
    let recovery := recovery.strlcat s
    match s.getLast? with
    | none => none
    | some c =>
      appendOptions options (if c ≠ newline then recovery.strlcat [newline] else recovery)

def updateBootloaderMessageInStruct (boot : BootloaderMessage) (options : List Str) :
    Option BootloaderMessage :=
  (appendOptions options ((Chars.zeros 768).strlcpy (recoveryWord ++ [newline]))).map fun recovery =>
    { boot with
      command := (Chars.zeros 32).strlcpy bootRecoveryWord
      recovery := recovery }

/-! ## `get_args` -/

/-- What the system answers during one boot. -/
structure BootIo where
  /-- `read_bootloader_message` of `get_args`, and of `update_bootloader_message`. -/
  firstRead : Bool
  secondRead : Bool
  write : WriteResult
  hasCache : Bool
  /-- The command file, when it can be read. -/
  commandFile : Option Str

/-- `android::base::Split`, at newlines. -/
abbrev Splitter := Str → List Str

/-- Neither empty nor filled with NULs. -/
def usable : Str → Bool
  | [] => false
  | c :: _ => c ≠ 0

variable (split : Splitter)

/-- The options in the `recovery` field. -/
def bootOptions (boot : BootloaderMessage) : List Str :=
  let bootRecovery := cStr (boot.recovery.set 767 0).1
  match split bootRecovery with
  | [] => []
  | first :: rest => if first = recoveryWord then rest.filter usable else []

def fileOptions (io : BootIo) : List Str :=
  if io.hasCache then
    match io.commandFile with
    | none => []
    | some content => (split content).filter usable
  else []

/-- The string that starts a region; without a NUL it is left. -/
def stringIn (region : List UInt8) : Option Str :=
  if 0 ∈ region then some (cStr region) else none

/-- `update_bootloader_message`: whether it succeeds, and the block afterwards. -/
def updateBootloaderMessage (io : BootIo) (bcb : BootloaderMessage) (options : List Str) :
    Option (Bool × BootloaderMessage) :=
  if io.secondRead then
    (updateBootloaderMessageInStruct bcb options).map fun boot =>
      (match io.write with
        | .ok => true
        | .failed _ => false, io.write.block boot bcb)
  else some (false, bcb)

/-- What a boot has read and left behind. -/
structure Boot where
  args : List Str
  stage : Str
  /-- The BCB write has succeeded. -/
  wrote : Bool
  bcb : BootloaderMessage

/-- The arguments without the program name. -/
def Boot.options (b : Boot) : List Str := b.args.tail

/-- `get_args`. -/
def getArgs (argv : List Str) (io : BootIo) (bcb : BootloaderMessage) : Option Boot :=
  -- `CHECK_GT(argc, 0)`
  if argv = [] then none
  else
    let boot := if io.firstRead then bcb else .zeroed
    match stringIn (boot.stage.1 ++ boot.reserved.1) with
    | none => none
    | some stage =>
      let args := if argv.length = 1 then argv ++ bootOptions split boot else argv
      let args := if args.length = 1 then args ++ fileOptions split io else args
      match updateBootloaderMessage io bcb args.tail with
      | none => none
      | some (wrote, bcb) => some ⟨args, stage, wrote, bcb⟩

/-! ## Calls of an update script -/

/-- A call that writes to the misc partition: whether it can read the message, and its write. -/
inductive Call
  | setStage (stagestr : Str) (reads : Bool) (write : WriteResult)
  | rebootNow (reads : Bool) (write : WriteResult)

def Call.run (c : Call) (bcb : BootloaderMessage) : BootloaderMessage :=
  match c with
  | .setStage stagestr reads write =>
    if reads then write.block { bcb with stage := bcb.stage.strlcpy stagestr } bcb else bcb
  | .rebootNow reads write =>
    if reads then write.block { bcb with command := .zeros 32 } bcb else bcb

def runCalls (calls : List Call) (bcb : BootloaderMessage) : BootloaderMessage :=
  calls.foldl (fun b c => c.run b) bcb

end Recovery.Bcb
