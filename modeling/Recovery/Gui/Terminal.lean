import Recovery.Lib.CInt

/-!
# The terminal back end (`gui/terminal.cpp`)

`TerminalEngine` and what `output` does to it, byte by byte: control characters, UTF-8 decoding,
escape sequences and control sequences.

* A function that indexes a line or a cell, or erases a range of them, returns `none` where the
  index or the range is out of bounds.
* `char` is unsigned, and `int` arithmetic wraps around.
* The vibration of the bell and the answer to a position report do not touch the engine, and
  `height` and `updateCounter` are not read here.
-/

set_option autoImplicit false

namespace Recovery.Gui

open Recovery.Lib

/-! ## UTF-8 -/

def UTF8_ACCEPT : Nat := 0

def UTF8_REJECT : Nat := 1

def utf8d : List Nat := [
  0, 0, 0, 0, 0, 0, 0, 0, 0, 0, 0, 0, 0, 0, 0, 0, 0, 0, 0, 0, 0, 0, 0, 0, 0, 0, 0, 0, 0, 0, 0, 0,
  0, 0, 0, 0, 0, 0, 0, 0, 0, 0, 0, 0, 0, 0, 0, 0, 0, 0, 0, 0, 0, 0, 0, 0, 0, 0, 0, 0, 0, 0, 0, 0,
  0, 0, 0, 0, 0, 0, 0, 0, 0, 0, 0, 0, 0, 0, 0, 0, 0, 0, 0, 0, 0, 0, 0, 0, 0, 0, 0, 0, 0, 0, 0, 0,
  0, 0, 0, 0, 0, 0, 0, 0, 0, 0, 0, 0, 0, 0, 0, 0, 0, 0, 0, 0, 0, 0, 0, 0, 0, 0, 0, 0, 0, 0, 0, 0,
  1, 1, 1, 1, 1, 1, 1, 1, 1, 1, 1, 1, 1, 1, 1, 1, 9, 9, 9, 9, 9, 9, 9, 9, 9, 9, 9, 9, 9, 9, 9, 9,
  7, 7, 7, 7, 7, 7, 7, 7, 7, 7, 7, 7, 7, 7, 7, 7, 7, 7, 7, 7, 7, 7, 7, 7, 7, 7, 7, 7, 7, 7, 7, 7,
  8, 8, 2, 2, 2, 2, 2, 2, 2, 2, 2, 2, 2, 2, 2, 2, 2, 2, 2, 2, 2, 2, 2, 2, 2, 2, 2, 2, 2, 2, 2, 2,
  10, 3, 3, 3, 3, 3, 3, 3, 3, 3, 3, 3, 3, 4, 3, 3,
  11, 6, 6, 6, 5, 8, 8, 8, 8, 8, 8, 8, 8, 8, 8, 8,
  0, 1, 2, 3, 5, 8, 7, 1, 1, 1, 4, 6, 1, 1, 1, 1,
  1, 1, 1, 1, 1, 1, 1, 1, 1, 1, 1, 1, 1, 1, 1, 1, 1, 0, 1, 1, 1, 1, 1, 0, 1, 0, 1, 1, 1, 1, 1, 1,
  1, 2, 1, 1, 1, 1, 1, 2, 1, 2, 1, 1, 1, 1, 1, 1, 1, 1, 1, 1, 1, 1, 1, 2, 1, 1, 1, 1, 1, 1, 1, 1,
  1, 2, 1, 1, 1, 1, 1, 1, 1, 2, 1, 1, 1, 1, 1, 1, 1, 1, 1, 1, 1, 1, 1, 3, 1, 3, 1, 1, 1, 1, 1, 1,
  1, 3, 1, 1, 1, 1, 1, 3, 1, 3, 1, 1, 1, 1, 1, 1, 1, 3, 1, 1, 1, 1, 1, 1, 1, 1, 1, 1, 1, 1, 1, 1]

/-- `utf8decode`: the next state and the code point so far. -/
def utf8decode (state : Nat) (codep : UInt32) (byte : UInt8) : Nat × UInt32 :=
  let type := utf8d.getD byte.toNat 0
  let codep :=
    if state ≠ UTF8_ACCEPT then (byte.toUInt32 &&& (0x3f : UInt32)) ||| (codep <<< (6 : UInt32))
    else UInt32.ofNat (0xff >>> type) &&& byte.toUInt32
  (utf8d.getD (256 + state * 16 + type) 0, codep)

/-- The first byte of an encoding: a mark, and the code point from bit `shift` on. -/
def leadByte (mark cp shift : UInt32) : UInt8 := (mark ||| (cp >>> shift)).toUInt8

def contByte (cp shift : UInt32) : UInt8 := ((0x80 : UInt32) ||| ((cp >>> shift) &&& 0x3f)).toUInt8

/-- `utf8add`: the bytes that it appends. -/
def utf8add (cp : UInt32) : List UInt8 :=
  if cp < 0x7f then [cp.toUInt8]
  else if cp < 0x7ff then [leadByte 0xc0 cp 6, contByte cp 0]
  else if cp < 0xffff then [leadByte 0xe0 cp 12, contByte cp 6, contByte cp 0]
  else if cp < 0x1fffff then
    [leadByte 0xf0 cp 18, contByte cp 12, contByte cp 6, contByte cp 0]
  else []

/-! ## The engine -/

inductive ParserState where
  | ground
  | esc
  | csi
  deriving DecidableEq, Repr

structure TerminalEngine where
  cursorX : Int
  cursorY : Int
  linewrap : Bool
  width : Int
  /-- The `text` of each line. -/
  lines : List (List UInt8)
  /-- The code points of `unpackedLine.cells`. -/
  cells : List UInt32
  unpackedY : Nat
  state : ParserState
  utf8state : Nat
  utf8codepoint : UInt32
  ctlseq : List Char
  deriving DecidableEq

namespace TerminalEngine

def setX (t : TerminalEngine) (x : Int) : TerminalEngine :=
  { t with cursorX := min t.width (max x 0), linewrap := false }

def setY (t : TerminalEngine) (y : Int) : TerminalEngine :=
  let y := max y 0
  { t with
    cursorY := y
    linewrap := false
    lines := t.lines ++ List.replicate (y.toNat + 1 - t.lines.length) [] }

def up (t : TerminalEngine) (n : Int) : TerminalEngine := t.setY (toInt (t.cursorY - n))

def down (t : TerminalEngine) (n : Int) : TerminalEngine := t.setY (toInt (t.cursorY + n))

def left (t : TerminalEngine) (n : Int) : TerminalEngine := t.setX (toInt (t.cursorX - n))

def right (t : TerminalEngine) (n : Int) : TerminalEngine := t.setX (toInt (t.cursorX + n))

/-- `packLine`. -/
def packLine (t : TerminalEngine) : Option TerminalEngine :=
  if t.unpackedY < t.lines.length then
    some { t with lines := t.lines.set t.unpackedY (t.cells.flatMap utf8add) }
  else none

/-- The loop of `unpackLine` over the bytes of a line. -/
def decodeCells : List UInt8 → Nat → UInt32 → List UInt32
  | [], _, _ => []
  | byte :: bytes, u8state, u8cp =>
    let (rc, cp) := utf8decode u8state u8cp byte
    if rc = UTF8_ACCEPT then cp :: decodeCells bytes rc cp else decodeCells bytes rc cp

/-- `cells.resize(n)` to a larger size; a new cell holds a space. -/
def growCells (cells : List UInt32) (n : Nat) : List UInt32 :=
  cells ++ List.replicate (n - cells.length) 0x20

/-- `unpackLine`. -/
def unpackLine (t : TerminalEngine) (y : Nat) : Option TerminalEngine :=
  t.lines[y]?.map fun s =>
    { t with cells := growCells (decodeCells s 0 0) t.width.toNat, unpackedY := y }

/-- `ensureUnpacked`. -/
def ensureUnpacked (t : TerminalEngine) (y : Int) : Option TerminalEngine :=
  if (t.unpackedY : Int) ≠ y then do
    let t ← t.packLine
    t.unpackLine y.toNat
  else some t

/-- `UnpackedLine::eraseFrom`. -/
def eraseFrom (t : TerminalEngine) (x : Nat) : TerminalEngine := { t with cells := t.cells.take x }

/-- `UnpackedLine::eraseTo`. -/
def eraseTo (t : TerminalEngine) (x : Nat) : Option TerminalEngine :=
  if x ≤ t.cells.length then some { t with cells := t.cells.drop x } else none

def clear (t : TerminalEngine) : Option TerminalEngine := do
  let t := { t with cursorX := 0, cursorY := 0, lines := [] }
  let t ← (t.setY 0).unpackLine 0
  return { t with linewrap := false }

/-- The loop of a tab.  A multiple of 8 or the right margin is reached in fewer than 8 rounds. -/
def tabLoop : Nat → TerminalEngine → TerminalEngine
  | 0, t => t
  | fuel + 1, t =>
    if t.cursorX % 8 ≠ 0 ∧ t.cursorX < t.width then tabLoop fuel (t.right 1) else t

def processC0 (t : TerminalEngine) (ch : UInt8) : TerminalEngine :=
  match ch.toNat with
  | 8 => t.left 1
  | 9 => tabLoop 8 (t.right 1)
  | 10 | 11 | 12 => t.down 1
  | 13 => t.setX 0
  | 24 | 26 => { t with state := .ground, ctlseq := [] }
  | 27 => { t with state := .esc, ctlseq := [] }
  | _ => t

def processChar (t : TerminalEngine) (cp : UInt32) : Option TerminalEngine := do
  let t := if t.linewrap then (t.down 1).setX 0 else t
  let t ← t.ensureUnpacked t.cursorY
  let cells := growCells t.cells (t.cursorX.toNat + 1)
  if t.cursorX.toNat < cells.length then
    let t := { t with cells := cells.set t.cursorX.toNat cp }
    let t := t.right 1
    return if t.cursorX ≥ t.width then { t with linewrap := true } else t
  else none

def processEsc (t : TerminalEngine) (cp : UInt32) : TerminalEngine :=
  match Char.ofNat cp.toNat with
  | 'c' => t
  | 'D' => t.down 1
  | 'E' => (t.setX 0).down 1
  | '[' => { t with state := .csi, ctlseq := [] }
  | _ => { t with state := .ground }

/-- `atoi` of the digits in front. -/
def atoi (s : List Char) : Int :=
  let digits := s.takeWhile Char.isDigit
  let value := digits.foldl (fun n c => 10 * n + (c.toNat - '0'.toNat)) 0
  toInt (min value (2 ^ 63 - 1) : Nat)

/-- `parseArg`: the argument and the rest of the text. -/
def parseArg (s : List Char) (defaultvalue : Int) : Int × List Char :=
  match s with
  | [] => (defaultvalue, s)
  | c :: _ =>
    if c.isDigit then (atoi s, (s.dropWhile (· ≠ ';')).drop 1) else (defaultvalue, s)

/-- `ED`, erase in page. -/
def eraseInPage (t : TerminalEngine) (param : Int) : Option TerminalEngine := do
  let t ← t.ensureUnpacked t.cursorY
  if param = 1 then
    let t ← t.eraseTo t.cursorX.toNat
    if t.cursorY > 0 then
      if (t.cursorY - 1).toNat ≤ t.lines.length then
        return { t with lines := t.lines.drop (t.cursorY - 1).toNat, cursorY := 0 }
      else none
    else return t
  else if param = 2 ∨ param = 3 then t.clear
  else
    let t := t.eraseFrom t.cursorX.toNat
    return { t with lines := t.lines.take (t.cursorY.toNat + 1) }

/-- `EL`, erase in line. -/
def eraseInLine (t : TerminalEngine) (param : Int) : Option TerminalEngine := do
  let t ← t.ensureUnpacked t.cursorY
  if param = 1 then t.eraseTo t.cursorX.toNat
  else if param = 2 then return { t with cells := [] }
  else return t.eraseFrom t.cursorX.toNat

def execControlSequence (t : TerminalEngine) (ctlseq : List Char) : Option TerminalEngine :=
  if ctlseq = ['6', 'n'] then some t
  else
    match ctlseq.getLast? with
    | some 'A' => some (t.up (parseArg ctlseq 1).1)
    | some 'B' | some 'e' => some (t.down (parseArg ctlseq 1).1)
    | some 'C' | some 'a' => some (t.right (parseArg ctlseq 1).1)
    | some 'D' => some (t.left (parseArg ctlseq 1).1)
    | some 'E' => some ((t.down (parseArg ctlseq 1).1).setX 0)
    | some 'F' => some ((t.up (parseArg ctlseq 1).1).setX 0)
    | some 'G' => some (t.setX (toInt ((parseArg ctlseq 1).1 - 1)))
    | some 'H' =>
      let (row, rest) := parseArg ctlseq 1
      some ((t.setY (toInt (row - 1))).setX (toInt ((parseArg rest 1).1 - 1)))
    | some 'J' => t.eraseInPage (parseArg ctlseq 0).1
    | some 'K' => t.eraseInLine (parseArg ctlseq 0).1
    | _ => some t

/-- The code points that end a control sequence. -/
def isFinal (cp : UInt32) : Bool := 0x40 ≤ cp && cp ≤ 0x7e

def processControlSequence (t : TerminalEngine) (cp : UInt32) : Option TerminalEngine :=
  let c := Char.ofNat cp.toNat
  if isFinal cp then do
    let t ← t.execControlSequence (t.ctlseq ++ [c])
    return { t with ctlseq := [], state := .ground }
  else if c.isDigit ∨ c = ';' then some { t with ctlseq := t.ctlseq ++ [c] }
  else some t

def processCodePoint (t : TerminalEngine) (cp : UInt32) : Option TerminalEngine :=
  if cp = 0x9b then some { t with state := .csi, ctlseq := [] }
  else
    match t.state with
    | .ground => t.processChar cp
    | .esc => some (t.processEsc cp)
    | .csi => t.processControlSequence cp

/-- `output` of one byte. -/
def output (t : TerminalEngine) (ch : UInt8) : Option TerminalEngine :=
  if ch < 32 then some { t.processC0 ch with utf8state := UTF8_ACCEPT }
  else
    let (rc, cp) := utf8decode t.utf8state t.utf8codepoint ch
    let t := { t with utf8state := rc, utf8codepoint := cp }
    if rc = UTF8_ACCEPT then t.processCodePoint cp
    else if rc = UTF8_REJECT then some { t with utf8state := UTF8_ACCEPT }
    else some t

/-- The engine as constructed, once the window has set its width. -/
def start (width : Nat) : TerminalEngine where
  cursorX := 0
  cursorY := 0
  linewrap := false
  width := width
  lines := [[]]
  cells := List.replicate 40 0x20
  unpackedY := 0
  state := .ground
  utf8state := 0
  utf8codepoint := 0
  ctlseq := []

/-- `output` of the bytes of a buffer. -/
def run (t : TerminalEngine) (bytes : List UInt8) : Option TerminalEngine := bytes.foldlM output t

end TerminalEngine

end Recovery.Gui
