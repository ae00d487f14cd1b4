import Recovery.BlockImg.Commands

/-!
# `PerformBlockImageUpdate` (`updater/blockimg.cpp`)

* `performBlockImageUpdate` — one run of `block_image_verify` or `block_image_update`.
* `commandsLoop` — its loop over the lines of the transfer list.  It returns its variables, so
  that its run over the first `k` lines says in which state line `k` is reached
  (`commandsLoop_append`).
* `reboot` — what a power loss leaves.

A verification and an update run the same loop over the same lines; they differ in what `perform`
does for each name and in `canwrite`.  `finishUpdate` is what is cleaned up after either.
-/

set_option autoImplicit false

namespace Recovery.BlockImg

open Recovery.Lib Recovery.OtaUtil

variable (E : Env)

/-- The names in the command tables. -/
inductive CommandName where
  | bsdiff
  | erase
  | free
  | imgdiff
  | move
  | new
  | stash
  | zero
  deriving DecidableEq, Repr

/-- `cmd_map.find`. -/
def findCommand (name : String) : Option CommandName :=
  if name = "bsdiff" then some .bsdiff
  else if name = "erase" then some .erase
  else if name = "free" then some .free
  else if name = "imgdiff" then some .imgdiff
  else if name = "move" then some .move
  else if name = "new" then some .new
  else if name = "stash" then some .stash
  else if name = "zero" then some .zero
  else none

/-- The functions that are null in the table of `block_image_verify`. -/
def CommandName.writesOnly : CommandName → Bool
  | .erase | .new | .zero => true
  | _ => false

/-- The commands whose target is checked. -/
def CommandName.checksTarget : CommandName → Bool
  | .bsdiff | .imgdiff | .move => true
  | _ => false

/-- `cmd->f(params)`, with the stream of new data. -/
def CommandName.perform (stream : List UInt8) : CommandName → M (Int × List UInt8)
  | .new => performCommandNew E stream
  | .bsdiff | .imgdiff => do return (← performCommandDiff E, stream)
  | .erase => do return (← performCommandErase E, stream)
  | .free => do return (← performCommandFree E, stream)
  | .move => do return (← performCommandMove E, stream)
  | .stash => do return (← performCommandStash E, stream)
  | .zero => do return (← performCommandZero E, stream)

/-- The variables of the loop. -/
structure LoopVars where
  savedLastCommandIndex : Int
  stream : List UInt8

/-- `i - start` as an `int`; `-1` when it does not fit. -/
def cmdIndex (i : Nat) : Int := if i > INT_MAX then -1 else i

/-- The parameters at the start of command `i`. -/
def setCommand (line : String) (i : Nat) : M Unit :=
  let tokens := E.base.split line " "
  modifyParams fun p => { p with
    tokens := tokens
    cpos := 1
    cmdindex := cmdIndex i
    cmdname := tokens.headD ""
    cmdline := line
    targetVerified := false }

/-- The command at index `i` is before the saved one. -/
def beforeSaved (v : LoopVars) (i : Nat) : Bool :=
  decide (cmdIndex i ≠ -1) && decide (cmdIndex i ≤ v.savedLastCommandIndex)

/-- In verify mode: a command before the saved one whose target is not as expected ends the
validity of the last command file. -/
def checkSaved (cmd : CommandName) (i : Nat) (v : LoopVars) : M LoopVars := do
  let params := (← get).params
  if ¬ E.canwrite ∧ v.savedLastCommandIndex ≠ -1 ∧ beforeSaved v i ∧ cmd.checksTarget ∧
      ¬ params.targetVerified then
    deleteLastCommandFile
    return { v with savedLastCommandIndex := -1 }
  else return v

/-- One round of the loop; `none` is the jump to `pbiudone` with `rc == -1`. -/
def command (line : String) (i : Nat) (v : LoopVars) : M (Option LoopVars) := do
  if line = "" then return some v
  else
    setCommand E line i
    let params := (← get).params
    match findCommand params.cmdname with
    | none => return none
    | some cmd =>
      if ¬ E.canwrite ∧ cmd.writesOnly then return some v
      else if E.canwrite ∧ beforeSaved v i then return some v
      else
        let (rc, stream) ← cmd.perform E v.stream
        if rc = -1 then return none
        else
          let v ← checkSaved E cmd i { v with stream := stream }
          if E.canwrite then
            if ← ioOk then return some v else return none
          else return some v

def commandsLoop : List String → Nat → LoopVars → M (Option LoopVars)
  | [], _, v => return some v
  | line :: lines, i, v => do
    match ← command E line i v with
    | none => return none
    | some v => commandsLoop lines (i + 1) v

/-- From `pbiudone` on; the value is whether the script gets `"t"`. -/
def finishUpdate (rc : Bool) : M Bool := do
  let params := (← get).params
  if E.canwrite ∧ rc then
    deleteStash
    deleteLastCommandFile
  let _ ← ioOk
  if params.isunresumable then deleteLastCommandFile
  if params.isunresumable ∨ (¬ E.canwrite ∧ params.createdstash ≠ 0) then deleteStash
  return rc

/-- What the header of a transfer list says. -/
inductive Header where
  /-- Something in it cannot be parsed. -/
  | bad
  /-- The block count is zero. -/
  | nothing
  | commands (version : Int) (stashMaxBlocks : Nat) (lines : List String)

def parseHeader (transferList : String) : Header :=
  match E.base.split transferList "\n" with
  | versionLine :: totalLine :: rest =>
    match E.base.parseInt versionLine 3 4 with
    | none => .bad
    | some version =>
      match E.base.parseUint totalLine SIZE_MAX with
      | none => .bad
      | some 0 => .nothing
      | some _ =>
        match rest with
        | _ :: stashLine :: lines =>
          match E.base.parseUint stashLine SIZE_MAX with
          | none => .bad
          | some stashMaxBlocks => .commands version stashMaxBlocks lines
        | _ => .bad
  | _ => .bad

/-- From the creation of the stash directory to the saved index; `none` is an early return. -/
def prepare (stashMaxBlocks : Nat) : M (Option Int) := do
  let res ← createStash E stashMaxBlocks
  if res = -1 then return none
  else
    modifyParams fun p => { p with createdstash := res }
    match ← parseLastCommandFile E with
    | some index => return some index
    | none =>
      deleteLastCommandFile
      return some (-1)

/-- `PerformBlockImageUpdate`, a verification or an update by `E.canwrite`, with the transfer list,
the stream of new data and the offset of the patch data in the package. -/
def performBlockImageUpdate (transferList : String) (newData : List UInt8) (patchStart : Nat) :
    M Bool := do
  match parseHeader E transferList with
  | .bad => return false
  | .nothing => return true
  | .commands version stashMaxBlocks lines =>
    modify fun s => { s with params := initParams version patchStart }
    match ← prepare E stashMaxBlocks with
    | none => return false
    | some saved =>
      let v ← commandsLoop E lines 0 ⟨saved, newData⟩
      finishUpdate E v.isSome

def Env.verify (E : Env) : Env := { E with canwrite := false }

def Env.update (E : Env) : Env := { E with canwrite := true }

def blockImageVerify (transferList : String) (patchStart : Nat) : M Bool :=
  performBlockImageUpdate E.verify transferList [] patchStart

def blockImageUpdate (transferList : String) (newData : List UInt8) (patchStart : Nat) : M Bool :=
  performBlockImageUpdate E.update transferList newData patchStart

/-- The run up to line `i`: the loop variables with which it gets there, if it does. -/
def runTo (transferList : String) (newData : List UInt8) (patchStart i : Nat) :
    M (Option LoopVars) := do
  match parseHeader E transferList with
  | .commands version stashMaxBlocks lines =>
    modify fun s => { s with params := initParams version patchStart }
    match ← prepare E stashMaxBlocks with
    | none => return none
    | some saved => commandsLoop E (lines.take i) 0 ⟨saved, newData⟩
  | _ => return none

/-- What is left after a power loss, with the fates of the next run. -/
def reboot (s : St) (fates : List Fate) : St :=
  { s with
    pos := 0
    fates := fates
    devError := false
    stashMap := ∅
    params := initParams 0 0 }

/-! ## The loop on a prefix of the list -/

theorem commandsLoop_append : ∀ (lines rest : List String) (i : Nat) (v : LoopVars),
    commandsLoop E (lines ++ rest) i v = do
      match ← commandsLoop E lines i v with
      | none => return none
      | some v => commandsLoop E rest (i + lines.length) v
  | [], rest, i, v => rfl
  | line :: lines, rest, i, v => by
    funext s
    rw [List.cons_append, commandsLoop, commandsLoop, bind_assoc]
    cases hc : command E line i v s with
    | error e s' => rw [bind_error hc, bind_error hc]
    | ok o s' =>
      rw [bind_ok hc, bind_ok hc]
      cases o with
      | none => rfl
      | some v =>
        dsimp only
        rw [commandsLoop_append, List.length_cons,
          show i + 1 + lines.length = i + (lines.length + 1) by lia]

/-- The lines of commands of a transfer list. -/
def Header.lines : Header → List String
  | .commands _ _ lines => lines
  | _ => []

end Recovery.BlockImg
