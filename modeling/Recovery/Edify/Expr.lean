import Mathlib.Algebra.Order.Ring.Int
import Mathlib.Data.List.Infix
import Recovery.Lib.CString
import Recovery.Lib.Plan

/-!
# Edify expressions

`edify/expr.cpp`: values, the evaluation of an expression, the operators and the registered
functions.

* `Function` — the body of a function, over the arguments it may evaluate.
* `Expr`, `evaluateValue` — an expression, and its evaluation with a log of the calls.
* `evaluate`, `readArgs`, `readValueArgs` — how bodies read their arguments.
* the evaluators, from `concatFn` to `greaterThanIntFn`; `builtins` — the function table.

What is not in the repository, or has an effect outside of the script's state, is in a `Host`.

`none` stands for undefined behaviour, and a null result for an abort: both end an evaluation, but
only the second is a way for a script to fail.
-/

set_option autoImplicit false

namespace Recovery.Edify

open Recovery.Lib

/-- A `std::string`: any bytes, NUL included. -/
abbrev Str := List UInt8

inductive ValueType where
  | invalid
  | string
  | blob
deriving DecidableEq

def ValueType.code : ValueType → Int
  | invalid => -1
  | string => 1
  | blob => 2

structure Value where
  type : ValueType
  data : Str
deriving DecidableEq

/-- `CauseCode` of `error_code.h`. -/
inductive CauseCode where
  | noCause
  | argsParsingFailure
  | stashCreationFailure
  | fileOpenFailure
  | lseekFailure
  | freadFailure
  | fwriteFailure
  | fsyncFailure
  | libfecFailure
  | fileGetPropFailure
  | fileRenameFailure
  | symlinkFailure
  | setMetadataFailure
  | tune2FsFailure
  | rebootFailure
  | packageExtractFileFailure
  | patchApplicationFailure
  | vendorFailure
deriving DecidableEq

/-- `State`, with what functions can reach through its cookie and outside of the program. -/
structure State (ω : Type) where
  script : Str
  errmsg : Str
  causeCode : CauseCode
  world : ω

/-- The helpers of `libbase`, and the effects of `sleep` and `stdout`. -/
structure Host (ω : Type) where
  /-- `ParseInt(s, &out, min, max)`. -/
  parseInt : Str → Int → Int → Option Int
  /-- `Trim(s)`. -/
  trim : Str → Str
  sleep : Int → ω → ω
  puts : Str → ω → ω

/-- Where an expression stands in the script. -/
structure Span where
  start : Nat
  stop : Nat
deriving DecidableEq, Inhabited

variable {ω : Type}

/-- A part of a function's body. -/
abbrev Code (ω α : Type) := Body (State ω) Value α

/-- A function: its name, the arguments as far as it can see them, and its body. -/
abbrev Function (ω : Type) := Str → List Span → Code ω (Option Value)

inductive Expr (ω : Type) where
  | mk (fn : Function ω) (name : Str) (argv : List (Expr ω)) (span : Span)

def Expr.span : Expr ω → Span
  | mk _ _ _ span => span

def Expr.setSpan : Expr ω → Span → Expr ω
  | mk fn name argv _, span => mk fn name argv span

mutual

def evaluateValue : Expr ω → Evaluator (State ω) Value
  | .mk fn name argv _ => node (fn name (argv.map Expr.span)) (evaluateValues argv)

/-- The evaluators of a list of expressions. -/
def evaluateValues : List (Expr ω) → List (Evaluator (State ω) Value)
  | [] => []
  | e :: argv => evaluateValue e :: evaluateValues argv

end

/-! ## Values -/

def booleanString (s : Str) : Bool := s ≠ []

/-- `StringValue` copies up to the first NUL. -/
def stringValue (str : Str) : Option Value := some ⟨.string, cStr str⟩

/-- The strings of `"t"` and `""`. -/
def truth (b : Bool) : Option Value := stringValue (if b then ascii "t" else [])

/-! ## Reading arguments -/

variable (host : Host ω)

def setErrmsg (msg : Str) : Code ω Unit := Body.modify fun s => { s with errmsg := msg }

def appendErrmsg (msg : Str) : Code ω Unit :=
  Body.modify fun s => { s with errmsg := s.errmsg ++ msg }

/-- `ErrorAbort` with a cause code: exactly one line break ends the message. -/
def errorAbort (cause : CauseCode) (msg : Str) (s : State ω) : State ω :=
  { s with errmsg := host.trim msg ++ ascii "\n", causeCode := cause }

/-- `"expecting string, got value type %d"`. -/
def typeMessage (type : ValueType) : Str :=
  ascii ("expecting string, got value type " ++ toString type.code)

/-- `Evaluate` on an argument: its string, or null. -/
def evaluate (i : Nat) : Code ω (Option Str) := do
  match ← Body.ask i with
  | none => return none
  | some v =>
    if v.type = .string then return some v.data
    else do
      Body.modify (errorAbort host .argsParsingFailure (typeMessage v.type))
      return none

/-- `for (i = from; i < from + n; ++i)` over arguments, until a step fails. -/
def forArgs {α : Type} (step : Nat → α → Code ω (Option α)) : Nat → Nat → α → Code ω (Option α)
  | 0, _, acc => return some acc
  | n + 1, i, acc => do
    match ← step i acc with
    | none => return none
    | some acc => forArgs step n (i + 1) acc

/-- `ReadArgs(state, argv, args, start, len)`. -/
def readArgs (argv : List Span) (start len : Nat) : Code ω (Option (List Str)) :=
  if start + len > argv.length then return none
  else
    forArgs (fun i args => do
      match ← evaluate host i with
      | none => return none
      | some var => return some (args ++ [var])) len start []

/-- `ReadValueArgs(state, argv, args, start, len)`. -/
def readValueArgs (argv : List Span) (start len : Nat) : Code ω (Option (List Value)) :=
  if len = 0 ∨ start + len > argv.length then return none
  else
    forArgs (fun i args => do
      match ← Body.ask i with
      | none => return none
      | some v => return some (args ++ [v])) len start []

/-! ## The evaluators -/

def concatFn : Function ω := fun _ argv => do
  if argv = [] then return stringValue []
  else
    match ← forArgs (fun i result => do
      match ← evaluate host i with
      | none => return none
      | some str => return some (result ++ str)) argv.length 0 [] with
    | none => return none
    | some result => return stringValue result

def ifElseFn : Function ω := fun _ argv => do
  if argv.length ≠ 2 ∧ argv.length ≠ 3 then do
    setErrmsg (ascii "ifelse expects 2 or 3 arguments")
    return none
  else
    match ← evaluate host 0 with
    | none => return none
    | some cond =>
      if cond ≠ [] then Body.ask 1
      else if argv.length = 3 then Body.ask 2
      else return stringValue []

def abortFn : Function ω := fun _ argv => do
  if argv ≠ [] then
    match ← evaluate host 0 with
    | some msg => do
      appendErrmsg msg
      return none
    | none => do
      appendErrmsg (ascii "called abort()")
      return none
  else do
    appendErrmsg (ascii "called abort()")
    return none

/-- `substr`; an expression starts within its script. -/
def substr (s : Str) (start len : Nat) : Str := (s.drop start).take len

def assertFailed (span : Span) (s : State ω) : State ω :=
  { s with errmsg :=
      ascii "assert failed: " ++ substr s.script span.start (span.stop - span.start) }

def assertFn : Function ω := fun _ argv => do
  match ← forArgs (fun i (_ : Unit) => do
    match ← evaluate host i with
    | none => return none
    | some result =>
      if result = [] then do
        Body.modify (assertFailed (argv.getD i default))
        return none
      else return some ()) argv.length 0 () with
  | none => return none
  | some _ => return stringValue []

/-- The number of arguments is not checked. -/
def sleepFn : Function ω := fun _ _ => do
  match ← evaluate host 0 with
  | none => return none
  | some val =>
    match host.parseInt (cStr val) 0 (2 ^ 31 - 1) with
    | none => return none
    | some v => do
      Body.modify fun s => { s with world := host.sleep v s.world }
      return stringValue val

def stdoutFn : Function ω := fun _ argv => do
  match ← forArgs (fun i (_ : Unit) => do
    match ← evaluate host i with
    | none => return none
    | some v => do
      Body.modify fun s => { s with world := host.puts (cStr v) s.world }
      return some ()) argv.length 0 () with
  | none => return none
  | some _ => return stringValue []

def logicalAndFn : Function ω := fun _ _ => do
  match ← evaluate host 0 with
  | none => return none
  | some left => if booleanString left then Body.ask 1 else return stringValue []

def logicalOrFn : Function ω := fun _ _ => do
  match ← evaluate host 0 with
  | none => return none
  | some left => if !booleanString left then Body.ask 1 else return stringValue left

def logicalNotFn : Function ω := fun _ _ => do
  match ← evaluate host 0 with
  | none => return none
  | some val => return truth (!booleanString val)

/-- Two strings, and a test on them: `SubstringFn`, `EqualityFn` and `InequalityFn`. -/
def testFn (test : Str → Str → Bool) : Function ω := fun _ _ => do
  match ← evaluate host 0 with
  | none => return none
  | some left =>
    match ← evaluate host 1 with
    | none => return none
    | some right => return truth (test left right)

/-- `haystack.find(needle) != npos`; the number of arguments is not checked. -/
def substringFn : Function ω := testFn host fun needle haystack => decide (needle <:+: haystack)

def equalityFn : Function ω := testFn host fun left right => left = right

def inequalityFn : Function ω := testFn host fun left right => left ≠ right

def sequenceFn : Function ω := fun _ _ => do
  match ← Body.ask 0 with
  | none => return none
  | some _ => Body.ask 1

/-- `LessThanIntFn` and `GreaterThanIntFn`: 64-bit numbers. -/
def compareIntFn (word : String) (test : Int → Int → Bool) : Function ω := fun _ argv => do
  if argv.length ≠ 2 then do
    setErrmsg (ascii (word ++ " expects 2 arguments"))
    return none
  else
    match ← readArgs host argv 0 argv.length with
    | some [left, right] =>
      match host.parseInt (cStr left) (-2 ^ 63) (2 ^ 63 - 1) with
      | none => do
        setErrmsg (ascii "failed to parse int in " ++ left)
        return none
      | some l =>
        match host.parseInt (cStr right) (-2 ^ 63) (2 ^ 63 - 1) with
        | none => do
          setErrmsg (ascii "failed to parse int in " ++ right)
          return none
        | some r => return truth (test l r)
    | _ => return none

def lessThanIntFn : Function ω := compareIntFn host "less_than_int" fun l r => l < r

def greaterThanIntFn : Function ω := compareIntFn host "greater_than_int" fun l r => l > r

def literal : Function ω := fun name _ => return stringValue name

/-- The functions that `RegisterBuiltins` registers. -/
def builtins : List (Str × Function ω) :=
  [(ascii "ifelse", ifElseFn host), (ascii "abort", abortFn host),
    (ascii "assert", assertFn host), (ascii "concat", concatFn host),
    (ascii "is_substring", substringFn host), (ascii "stdout", stdoutFn host),
    (ascii "sleep", sleepFn host), (ascii "less_than_int", lessThanIntFn host),
    (ascii "greater_than_int", greaterThanIntFn host)]

/-- `FindFunction`, in a table of registered functions. -/
def findFunction (table : List (Str × Function ω)) (name : Str) : Option (Function ω) :=
  table.lookup name

end Recovery.Edify
