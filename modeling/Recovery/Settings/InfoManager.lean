import Std.Data.ExtTreeMap
import Recovery.Lib.LittleEndian

/-!
# The settings store (`infomanager.cpp`)

* `InfoManager` — the variables of one settings file; `setValue` is the only way to add one.
* `saveValues` — a version header when the version is nonzero, then for each variable in key
  order its name and its value, each a 16-bit length that counts the terminating NUL and that
  many bytes of the C string.
* `loadValues` — reads records until the first one it cannot take, through a buffer of 513 bytes
  that it does not initialise.

`Mount_By_Path` and `tw_set_default_metadata` do not touch the contents and are left out.

A file that cannot be opened leaves the map as it was; `reload` is what a fresh manager reads from
the file that another one has saved.
-/

set_option autoImplicit false

namespace Recovery.Settings

open Recovery.Lib

/-- A `std::string`: any bytes, NUL included. -/
abbrev Str := List UInt8

/-- `std::map<string, string>`; its iteration order is that of `compare`. -/
abbrev ValueMap := Std.ExtTreeMap Str Str

/-- The files, and the paths `fopen(.., "wb")` can open. -/
structure Disk where
  files : Str → Option (List UInt8)
  writable : Str → Bool

structure InfoManager where
  file : Str
  mValues : ValueMap
  fileVersion : Int32
  isConst : Bool

namespace InfoManager

/-- `InfoManager()`. -/
def new : InfoManager := ⟨[], ∅, 0, false⟩

def setFile (m : InfoManager) (filename : Str) : InfoManager := { m with file := filename }

def setFileVersion (m : InfoManager) (version : Int32) : InfoManager :=
  { m with fileVersion := version }

def setConst (m : InfoManager) : InfoManager := { m with isConst := true }

def clear (m : InfoManager) : InfoManager := { m with mValues := ∅ }

def getValue (m : InfoManager) (varName : Str) : Int × Option Str :=
  match m.mValues[varName]? with
  | none => (-1, none)
  | some value => (0, some value)

/-- Empty names and names that start with a digit are refused. -/
def startsBadly : Str → Bool
  | [] => true
  | c :: _ => '0'.toNat ≤ c.toNat && c.toNat ≤ '9'.toNat

def setValue (m : InfoManager) (varName value : Str) : Int × InfoManager :=
  if startsBadly varName then (-1, m)
  else
    match m.mValues[varName]? with
    | none => (0, { m with mValues := m.mValues.insert varName value })
    | some _ =>
      if m.isConst then (0, m)
      else (0, { m with mValues := m.mValues.insert varName value })

end InfoManager

/-! ## Writing -/

/-- `(unsigned short) str.length() + 1`, stored in an `unsigned short`. -/
def lengthField (str : Str) : Nat := (str.length % 2 ^ 16 + 1) % 2 ^ 16

/-- The two `fwrite`s of one string; `c_str()` has a NUL after the last byte. -/
def savedString (str : Str) : List UInt8 :=
  toLE 2 (lengthField str) ++ (str ++ [0]).take (lengthField str)

def savedRecord (entry : Str × Str) : List UInt8 :=
  savedString entry.1 ++ savedString entry.2

/-- The version header: `fwrite(&file_version, 1, sizeof(int), out)`. -/
def savedVersion (version : Int32) : List UInt8 :=
  if version = 0 then [] else toLE 4 version.toBitVec.toNat

def savedBytes (m : InfoManager) : List UInt8 :=
  savedVersion m.fileVersion ++ m.mValues.toList.flatMap savedRecord

def saveValues (m : InfoManager) (d : Disk) : Int × Disk :=
  if m.file = [] then (-1, d)
  else if !d.writable m.file then (-1, d)
  else (0, { d with files := fun p => if p = m.file then some (savedBytes m) else d.files p })

/-! ## Reading -/

/-- A stream opened for reading: the bytes not yet read and the end-of-file indicator. -/
structure FILE where
  rest : List UInt8
  eof : Bool

/-- `fread(.., 1, n, in)`: the indicator is set when fewer than `n` bytes were left. -/
def fread (n : Nat) (f : FILE) : List UInt8 × FILE :=
  (f.rest.take n, ⟨f.rest.drop n, f.eof || f.rest.length < n⟩)

/-- `char array[513]`. -/
structure CharArray where
  bytes : List UInt8
  size : bytes.length = 513

/-- The array after `data` was read into its front. -/
def CharArray.store (a : CharArray) (data : List UInt8) : CharArray :=
  ⟨(data ++ a.bytes.drop data.length).take 513, by
    rw [List.length_take, List.length_append, List.length_drop, a.size]; omega⟩

/-- `array[i] = '\0'`. -/
def CharArray.terminate (a : CharArray) (i : Nat) : CharArray :=
  ⟨a.bytes.set i 0, by rw [List.length_set, a.size]⟩

/-- The string assigned from `array`: the bytes before the first NUL. -/
def CharArray.cString (a : CharArray) : Str := a.bytes.takeWhile (· ≠ 0)

/-- One length and one string.  The terminator goes to `length + 1`, one further than the end. -/
def readString (a : CharArray) (f : FILE) : Option (CharArray × FILE) :=
  let (field, f) := fread 2 f
  if field.length ≠ 2 then none
  else if 512 ≤ ofLE field then none
  else
    let (data, f) := fread (ofLE field) f
    if data.length ≠ ofLE field then none
    else some ((a.store data).terminate (ofLE field + 1), f)

/-- The body of the loop, without the assignment to the map; `none` is `goto error`. -/
def readRecord (a : CharArray) (f : FILE) : Option ((Str × Str) × FILE) := do
  let (name, f) ← readString a f
  let (value, f) ← readString name f
  return ((name.cString, value.cString), f)

/-- The loop.  `junk i` is what the array holds at the start of round `i`; `fuel` bounds the
rounds (`loadLoop_fuel`: the length of the file is enough). -/
def loadLoop (junk : Nat → CharArray) : Nat → Nat → FILE → ValueMap → ValueMap
  | 0, _, _, values => values
  | fuel + 1, i, f, values =>
    if f.eof then values
    else
      match readRecord (junk i) f with
      | none => values
      | some ((name, value), f) => loadLoop junk fuel (i + 1) f (values.insert name value)

/-- The version test in front of the loop; `none` is `goto error`. -/
def readVersion (version : Int32) (f : FILE) : Option FILE :=
  if version = 0 then some f
  else
    let (field, f) := fread 4 f
    if field.length ≠ 4 then none
    else if Int32.ofBitVec (BitVec.ofNat 32 (ofLE field)) ≠ version then none
    else some f

def loadValues (junk : Nat → CharArray) (m : InfoManager) (d : Disk) : Int × InfoManager :=
  match d.files m.file with
  | none => (-1, m)
  | some bytes =>
    match readVersion m.fileVersion ⟨bytes, false⟩ with
    | none => (0, m)
    | some f => (0, { m with mValues := loadLoop junk (f.rest.length + 1) 0 f m.mValues })

/-- What a fresh manager reads from the file of `m`. -/
def reload (junk : Nat → CharArray) (m : InfoManager) (d : Disk) : InfoManager :=
  (loadValues junk ((InfoManager.new.setFile m.file).setFileVersion m.fileVersion) d).2

end Recovery.Settings
