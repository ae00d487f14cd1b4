import Recovery.Lib.CInt
import Recovery.ScreenUi.TextScreen

/-!
# The file pager (`screen_ui.cpp`)

* `FILE`, `readPage`, `showPage` — a file that is read until the page is full or the file is at its
  end, and then the prompt.
* `ScreenRecoveryUI`, `Pager`, `State` — the two buffers and the cursor, and a pager that waits for
  a key.
* `step` — what a print, the call of `ShowFile` or a key does.

A page holds as many characters as the screen has cells.  The file offsets of the pages that were
shown are kept on a stack, so that the key for one page back can seek to them.  The keys are those
of the device's volume and power buttons; `ScreenUi.PagerRun` runs them.
-/

set_option autoImplicit false

namespace Recovery.ScreenUi

open Recovery.Lib

variable {text_rows_ text_cols_ : Nat}

def KEY_ENTER : Int := 28
def KEY_UP : Int := 103
def KEY_VOLUMEUP : Int := 115
def KEY_POWER : Int := 116

/-! ## A page -/

structure FILE where
  content : List UInt8
  offset : Nat
  eof : Bool

def FILE.fseek (fp : FILE) (offset : Nat) : FILE := { fp with offset, eof := false }

/-- `%d`. -/
def decimal : Int → List UInt8
  | .ofNat n => ascii (toString n)
  | .negSucc n => ascii "-" ++ ascii (toString (n + 1))

/-- The percentage is `static_cast<int>(100 * (double(offset) / double(size)))`. -/
def prompt (percent : Nat → Nat → Int) (fp : FILE) : List UInt8 :=
  ascii "--(" ++ decimal (percent fp.offset fp.content.length) ++ ascii "% of " ++
    decimal (toInt fp.content.length) ++ ascii " bytes)--"

namespace Screen

/-- `while (text_row_ < text_rows_ - 1) PutChar('\n')`, with a bound on the rounds. -/
def pad : Nat → Screen text_rows_ text_cols_ → Option (Screen text_rows_ text_cols_)
  | 0, s => some s
  | rounds + 1, s =>
    if s.text_row_ < text_rows_ - 1 then do
      let s ← s.PutChar newline
      pad rounds s
    else some s

end Screen

/-- The loop around `getc`, with what is left of the file. -/
def readPage : List UInt8 → FILE → Screen text_rows_ text_cols_ →
    Option (FILE × Screen text_rows_ text_cols_)
  | [], fp, s => do
    let s ← s.pad text_rows_
    pure ({ fp with eof := true }, s)
  | ch :: rest, fp, s => do
    let fp := { fp with offset := fp.offset + 1 }
    let s ← s.PutChar ch
    if s.text_col_ = 0 ∧ text_rows_ - 1 ≤ s.text_row_ then pure (fp, s) else readPage rest fp s

/-- From `ClearText` until a key is waited for. -/
def showPage (percent : Nat → Nat → Int) (fp : FILE) (s : Screen text_rows_ text_cols_) :
    Option (FILE × Screen text_rows_ text_cols_) := do
  let (fp, s) ← readPage (fp.content.drop fp.offset) fp s.ClearText
  let s ← s.PrintV (prompt percent fp)
  pure (fp, s)

/-! ## The user interface -/

inductive Buffer where
  | text
  | file_viewer
  deriving DecidableEq

structure ScreenRecoveryUI (text_rows_ text_cols_ : Nat) where
  buffers : Buffer → Text text_rows_ text_cols_
  /-- What `text_` points to. -/
  text_ : Buffer
  text_col_ : Nat
  text_row_ : Nat

def ScreenRecoveryUI.screen (ui : ScreenRecoveryUI text_rows_ text_cols_) :
    Screen text_rows_ text_cols_ :=
  ⟨ui.buffers ui.text_, ui.text_col_, ui.text_row_⟩

def ScreenRecoveryUI.withScreen (ui : ScreenRecoveryUI text_rows_ text_cols_)
    (s : Screen text_rows_ text_cols_) : ScreenRecoveryUI text_rows_ text_cols_ where
  buffers b := if b = ui.text_ then s.text_ else ui.buffers b
  text_ := ui.text_
  text_col_ := s.text_col_
  text_row_ := s.text_row_

/-- A call of `ShowFile` that waits for a key. -/
structure Pager where
  fp : FILE
  /-- The last one is the first. -/
  offsets : List Nat
  old_text : Buffer
  old_text_col : Nat
  old_text_row : Nat

structure State (text_rows_ text_cols_ : Nat) where
  ui : ScreenRecoveryUI text_rows_ text_cols_
  pager : Option Pager

inductive Event where
  | print (str : List UInt8)
  /-- `ShowFile`, and the content of the file, or why it cannot be opened. -/
  | showFile (filename : List UInt8) (file : List UInt8 ⊕ List UInt8)
  /-- What `WaitKey` returns. -/
  | key (key : Int)

namespace State

variable (percent : Nat → Nat → Int) (st : State text_rows_ text_cols_)

def print (str : List UInt8) : Option (State text_rows_ text_cols_) := do
  let s ← st.ui.screen.PrintV str
  pure { st with ui := st.ui.withScreen s }

/-- The page from the offset of the file on. -/
def draw (p : Pager) : Option (State text_rows_ text_cols_) := do
  let (fp, s) ← showPage percent p.fp st.ui.screen
  pure ⟨st.ui.withScreen s, some { p with fp }⟩

/-- The end of `ShowFile`. -/
def close (p : Pager) : State text_rows_ text_cols_ :=
  ⟨{ st.ui with text_ := p.old_text, text_col_ := p.old_text_col, text_row_ := p.old_text_row },
    none⟩

def showFile (filename : List UInt8) :
    List UInt8 ⊕ List UInt8 → Option (State text_rows_ text_cols_)
  | .inl strerror =>
    st.print (ascii "  Unable to open " ++ filename ++ ascii ": " ++ strerror ++ [newline])
  | .inr content =>
    let ui := { st.ui with text_ := .file_viewer }
    let ui := ui.withScreen ui.screen.ClearText
    let p := ⟨⟨content, 0, false⟩, [0], st.ui.text_, st.ui.text_col_, st.ui.text_row_⟩
    draw percent ⟨ui, none⟩ p

def pressKey (p : Pager) (key : Int) : Option (State text_rows_ text_cols_) :=
  if key = KEY_POWER ∨ key = KEY_ENTER then some (st.close p)
  else if key = KEY_UP ∨ key = KEY_VOLUMEUP then
    match p.offsets with
    | _ :: back :: offsets =>
      st.draw percent { p with fp := p.fp.fseek back, offsets := back :: offsets }
    | _ => some st
  else if p.fp.eof then some (st.close p)
  else st.draw percent { p with offsets := p.fp.offset :: p.offsets }

/-- Files are opened while no pager waits; keys are for the pager. -/
def step : Event → Option (State text_rows_ text_cols_)
  | .print str => st.print str
  | .showFile filename file =>
    match st.pager with
    | none => st.showFile percent filename file
    | some _ => some st
  | .key key =>
    match st.pager with
    | none => some st
    | some p => st.pressKey percent p key

def run (events : List Event) : Option (State text_rows_ text_cols_) :=
  events.foldlM (step percent) st

/-- `Init`. -/
def init : State text_rows_ text_cols_ := ⟨⟨fun _ _ _ => 0, .text, 0, 0⟩, none⟩

end State

end Recovery.ScreenUi
