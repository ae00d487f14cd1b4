import Recovery.Lib.CString
import Recovery.Lib.Lines
import Recovery.Lib.Text

/-!
# The status pipe

The pipe from the updater to recovery, and both programs that read it.

* `Line`, `Message` — what the updater prints into the pipe: `uiPrint` of `updater/install.cpp`, and
  the `fprintf` calls.
* `tryUpdateBinary` — the loop of `install.cpp`.
* `runUpdateBinary` — the loop of `Run_Update_Binary` of `twinstall.cpp`; `none` where it uses an
  argument that is missing.

Numbers are texts here: `printf` and the number parsers are not modelled, and neither is what the
user interface does with a fraction, or with a text that is longer than the 511 bytes which
`gui_print` shows.
-/

set_option autoImplicit false

namespace Recovery.StatusPipe

open Recovery.Lib

abbrev Str := List UInt8

/-- What a reader does for a command. -/
inductive Executed where
  | progress (fraction seconds : Str)
  | setProgress (fraction : Str)
  | uiPrint (text : Str)
  | wipeCache
  | clearDisplay
  | enableReboot
  | retryUpdate
  | log (text : Str)
deriving DecidableEq

/-- The helpers of `libbase`. -/
structure Libbase where
  trim : Str → Str
  /-- `Split`, at one character. -/
  split : UInt8 → Str → List Str
  /-- `ParseDouble` and `ParseInt` succeed. -/
  isDouble : Str → Bool
  isInt : Str → Bool

/-! ## The updater -/

/-- What `%f`, `%.4f` or `%d` prints, and the parser for such numbers reads. -/
structure Numeral (parses : Str → Bool) where
  text : Str
  ne_nil : text ≠ []
  length_le : text.length ≤ 400
  clean : ∀ c ∈ text, isBlank c = false ∧ c ≠ 0
  parses_text : parses text = true

/-- A C string. -/
abbrev Text := { s : Str // 0 ∉ s }

/-- A text that starts with a word, as those after `log` do. -/
abbrev LogText := { s : Str // 0 ∉ s ∧ ∃ c rest, s = c :: rest ∧ isBlank c = false }

/-- One `fprintf` into the pipe. -/
inductive Line (lib : Libbase) where
  | uiPrint (text : Text)
  | progress (fraction : Numeral lib.isDouble) (seconds : Numeral lib.isInt)
  | setProgress (fraction : Numeral lib.isDouble)
  | wipeCache
  | enableReboot
  | retryUpdate
  | log (text : LogText)

variable {lib : Libbase}

/-- Without the newline at the end. -/
def Line.bytes : Line lib → Str
  | uiPrint text => ascii "ui_print " ++ text.1
  | progress fraction seconds => ascii "progress " ++ (fraction.text ++ ascii " " ++ seconds.text)
  | setProgress fraction => ascii "set_progress " ++ fraction.text
  | wipeCache => ascii "wipe_cache"
  | enableReboot => ascii "enable_reboot"
  | retryUpdate => ascii "retry_update"
  | log text => ascii "log " ++ text.1

/-- What the updater sends: the text of a `ui_print` call of the script, or a line. -/
inductive Message (lib : Libbase) where
  | uiPrint (text : Text)
  | line (l : Line lib)

/-- `uiPrint` splits the text, and skips empty strings. -/
def Message.lines : Message lib → List (Line lib)
  | .uiPrint text => ((lib.split newline text.1).filter (· ≠ [])).map fun line =>
      .uiPrint ⟨cStr line, zero_notMem_cStr line⟩
  | .line l => [l]

def written (messages : List (Message lib)) : Str :=
  unlines newline ((messages.flatMap Message.lines).map Line.bytes)

/-! ## Recovery -/

/-- The delimiters `" \n"`. -/
def isDelim (c : UInt8) : Bool := c == 32 || c == newline

/-- The characters that `fgets` puts into `buffer[1024]`. -/
def bufferRoom : Nat := 1023

def tryUpdateBinaryCommand (lib : Libbase) (command args : Str) : Option Executed :=
  if command = ascii "progress" then
    match lib.split 32 args with
    | [fraction, seconds] =>
      if lib.isDouble fraction && lib.isInt seconds then some (.progress fraction seconds) else none
    | _ => none
  else if command = ascii "set_progress" then
    match lib.split 32 args with
    | [fraction] => if lib.isDouble fraction then some (.setProgress fraction) else none
    | _ => none
  else if command = ascii "ui_print" then some (.uiPrint args)
  else if command = ascii "wipe_cache" then some .wipeCache
  else if command = ascii "clear_display" then some .clearDisplay
  else if command = ascii "enable_reboot" then some .enableReboot
  else if command = ascii "retry_update" then some .retryUpdate
  else if command = ascii "log" then if args ≠ [] then some (.log args) else none
  else none

/-- One turn of the loop. -/
def tryUpdateBinaryLine (lib : Libbase) (buffer : Str) : Option Executed :=
  let line := cStr buffer
  let command := line.takeWhile (!isDelim ·)
  if command = [] then none
  else
    -- `space == npos` when the command is the whole line
    let args :=
      if command.length = line.length then [] else lib.trim (line.drop command.length)
    tryUpdateBinaryCommand lib command args

def tryUpdateBinary (lib : Libbase) (pipe : Str) : List Executed :=
  (chunks bufferRoom pipe).filterMap (tryUpdateBinaryLine lib)

/-! ## TWRP -/

/-- A command, with what `strtok` goes on with. -/
def runUpdateBinaryCommand (command rest : Str) : Option (Option Executed) :=
  if command = ascii "progress" then
    match strtok isDelim rest with
    -- `strtof(NULL)`
    | none => none
    | some (fraction, rest) =>
      match strtok isDelim rest with
      | none => none
      | some (seconds, _) => some (some (.progress fraction seconds))
  else if command = ascii "set_progress" then
    match strtok isDelim rest with
    | none => none
    | some (fraction, _) => some (some (.setProgress fraction))
  else if command = ascii "ui_print" then
    match strtok (· == newline) rest with
    | none => some (some (.uiPrint []))
    | some (text, _) => some (some (.uiPrint text))
  else if command = ascii "wipe_cache" then some (some .wipeCache)
  else if command = ascii "clear_display" then some none
  else if command = ascii "log" then
    match strtok (· == newline) rest with
    -- `printf("%s\n", NULL)`
    | none => none
    | some (text, _) => some (some (.log text))
  else some none

/-- One turn of the loop. -/
def runUpdateBinaryLine (buffer : Str) : Option (Option Executed) :=
  match strtok isDelim (cStr buffer) with
  | none => some none
  | some (command, rest) => runUpdateBinaryCommand command rest

def runUpdateBinaryLines : List Str → Option (List Executed)
  | [] => some []
  | buffer :: buffers =>
    (runUpdateBinaryLine buffer).bind fun x =>
      (runUpdateBinaryLines buffers).map fun xs => x.toList ++ xs

def runUpdateBinary (pipe : Str) : Option (List Executed) :=
  runUpdateBinaryLines (chunks bufferRoom pipe)

end Recovery.StatusPipe
