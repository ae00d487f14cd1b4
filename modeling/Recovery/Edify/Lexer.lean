import Recovery.Edify.Script

/-!
# String literals

The scanner of `edify/lexer.ll`, and the grammar over its tokens.

* `scanString` — the rules of the start condition `STR`; `lex` — all the rules, each at its longest
  match.
* `Parses` — the productions of `edify/parser.yy`.
* `Spelled` — the ways to write a byte string in double quotes.
* `literal_spec` — what a literal evaluates to is what it was written for, up to the first NUL.

## Coverage

All rules of the scanner are embedded, with the positions they record.  Errors of the parser are
not: `Parses` says which token lists are expressions, and nothing of other ones.
-/

set_option autoImplicit false

namespace Recovery.Edify

open Recovery.Lib

/-- The tokens; `bad` is accepted nowhere. -/
inductive Tok where
  | string (text : Token)
  | if
  | then
  | else
  | endif
  | and
  | or
  | eq
  | ne
  /-- A character that stands for itself. -/
  | char (c : Char)
  | bad
deriving DecidableEq

/-- `gLine`, `gColumn`, `gPos` and `yylloc`. -/
structure Lexer where
  line : Nat
  column : Nat
  pos : Nat
  loc : Span

namespace Lexer

def start : Lexer := ⟨1, 1, 0, ⟨0, 0⟩⟩

/-- `gColumn += n; gPos += n`. -/
def skip (l : Lexer) (n : Nat) : Lexer := { l with column := l.column + n, pos := l.pos + n }

/-- A match of `n` characters that ends a line. -/
def newline (l : Lexer) (n : Nat) : Lexer :=
  { l with line := l.line + 1, column := 1, pos := l.pos + n }

/-- `ADVANCE`. -/
def advance (l : Lexer) (n : Nat) : Lexer := { l.skip n with loc := ⟨l.pos, l.pos + n⟩ }

/-- The quote before a string, and the one after it. -/
def openQuote (l : Lexer) : Lexer := { l.skip 1 with loc := ⟨l.pos, l.loc.stop⟩ }

def closeQuote (l : Lexer) : Lexer := { l.skip 1 with loc := ⟨l.loc.start, l.pos + 1⟩ }

end Lexer

/-- `strdup(s.c_str())`. -/
def strdup (s : Str) : Token := ⟨cStr s, zero_notMem_cStr s⟩

def byte (c : Char) : UInt8 := c.toUInt8

/-- `[0-9a-fA-F]`, as `%x` reads it. -/
def hexValue (c : UInt8) : Option UInt8 :=
  if byte '0' ≤ c ∧ c ≤ byte '9' then some (c - byte '0')
  else if byte 'a' ≤ c ∧ c ≤ byte 'f' then some (c - byte 'a' + 10)
  else if byte 'A' ≤ c ∧ c ≤ byte 'F' then some (c - byte 'A' + 10)
  else none

/-- The escapes, after their backslash: the character, and how long the escape is. -/
def escape : Str → Option (UInt8 × Nat)
  | [] => none
  | c :: rest =>
    if c = byte 'n' then some (byte '\n', 1)
    else if c = byte 't' then some (byte '\t', 1)
    else if c = byte '"' then some (byte '"', 1)
    else if c = byte '\\' then some (byte '\\', 1)
    else if c = byte 'x' then
      match rest with
      | high :: low :: _ => do return (16 * (← hexValue high) + (← hexValue low), 3)
      | _ => none
    else none

/-- The character that `string_buffer` gets for a match that starts with `c`, and the length of the
rest of the match. -/
def matchChar (c : UInt8) (rest : Str) : UInt8 × Nat :=
  if c = byte '\\' then (escape rest).getD (c, 0) else (c, 0)

/-- The start condition `STR`, after `skip` more characters of a match; none where the input ends. -/
def scanString : Nat → Str → Lexer → Str → Option (Str × Lexer × Str)
  | _, _, _, [] => none
  | skip + 1, buffer, l, _ :: rest => scanString skip buffer l rest
  | 0, buffer, l, c :: rest =>
    if c = byte '"' then some (buffer, l.closeQuote, rest)
    else
      let (pushed, more) := matchChar c rest
      scanString more (buffer ++ [pushed])
        (if c = byte '\n' then l.newline 1 else l.skip (more + 1)) rest

/-- `[a-zA-Z0-9_:/.]`. -/
def isWordChar (c : UInt8) : Bool :=
  (byte 'a' ≤ c && c ≤ byte 'z') || (byte 'A' ≤ c && c ≤ byte 'Z') ||
    (byte '0' ≤ c && c ≤ byte '9') || c ∈ ascii "_:/."

/-- A word: the reserved ones come first among the rules. -/
def wordToken (text : Str) : Tok :=
  if text = ascii "if" then .if
  else if text = ascii "then" then .then
  else if text = ascii "else" then .else
  else if text = ascii "endif" then .endif
  else .string (strdup text)

/-- The operators of two characters. -/
def operatorToken (c d : UInt8) : Option Tok :=
  if c = byte '&' ∧ d = byte '&' then some .and
  else if c = byte '|' ∧ d = byte '|' then some .or
  else if c = byte '=' ∧ d = byte '=' then some .eq
  else if c = byte '!' ∧ d = byte '=' then some .ne
  else none

/-- `[+(),!;]`. -/
def charToken (c : UInt8) : Option Tok :=
  (['+', '(', ')', ',', '!', ';'].find? fun d => c = byte d).map .char

/-- A match of the rules outside of strings: the token that it returns, if any.  None where a string
does not end. -/
def yyRule (l : Lexer) (c : UInt8) (rest : Str) : Option (Option Tok × Lexer × Str) :=
  if c = byte '"' then do
    let (text, l, rest) ← scanString 0 [] l.openQuote rest
    return (some (.string (strdup text)), l, rest)
  else if isWordChar c then
    let word := c :: rest.takeWhile isWordChar
    some (some (wordToken word), l.advance word.length, rest.dropWhile isWordChar)
  else if c = byte ' ' ∨ c = byte '\t' then
    let blank := fun d => decide (d = byte ' ' ∨ d = byte '\t')
    some (none, l.advance (1 + (rest.takeWhile blank).length), rest.dropWhile blank)
  else if c = byte '\n' then some (none, l.newline 1, rest)
  else if c = byte '#' ∧ byte '\n' ∈ rest then
    let comment := rest.takeWhile (· ≠ byte '\n')
    some (none, l.newline (comment.length + 2), rest.drop (comment.length + 1))
  else
    match rest.head?.bind (operatorToken c) with
    | some t => some (some t, l.advance 2, rest.tail)
    | none =>
      match charToken c with
      | some t => some (some t, l.advance 1, rest)
      | none => some (some .bad, l, rest)

/-- The tokens of the input; every match has a character. -/
def lexFrom : Nat → Lexer → Str → List (Tok × Span)
  | _, _, [] => []
  | 0, _, _ => []
  | fuel + 1, l, c :: rest =>
    match yyRule l c rest with
    | none => []
    | some (none, l, rest) => lexFrom fuel l rest
    | some (some t, l, rest) => (t, l.loc) :: lexFrom fuel l rest

/-- `yy_scan_string`: the script is a C string. -/
def lex (script : Str) : List (Tok × Span) :=
  lexFrom (cStr script).length .start (cStr script)

/-! ## The grammar -/

def BinaryOp.tok : BinaryOp → Tok
  | seq => .char ';'
  | plus => .char '+'
  | eq => .eq
  | ne => .ne
  | and => .and
  | or => .or

mutual

/-- The derivations of an `expr`, with its location; the precedences choose one of them. -/
inductive Parses : List (Tok × Span) → Syntax → Prop where
  | string (text : Token) (loc : Span) : Parses [(.string text, loc)] (.string text loc)
  | paren {toks : List (Tok × Span)} {e : Syntax} (l r : Span) (he : Parses toks e) :
      Parses ((.char '(', l) :: (toks ++ [(.char ')', r)])) (.paren e ⟨l.start, r.stop⟩)
  | trailing {toks : List (Tok × Span)} {e : Syntax} (r : Span) (he : Parses toks e) :
      Parses (toks ++ [(.char ';', r)]) (.trailing e ⟨e.loc.start, r.stop⟩)
  | binary {toks₁ toks₂ : List (Tok × Span)} {e₁ e₂ : Syntax} (op : BinaryOp) (loc : Span)
      (h₁ : Parses toks₁ e₁) (h₂ : Parses toks₂ e₂) :
      Parses (toks₁ ++ (op.tok, loc) :: toks₂) (.binary op e₁ e₂ ⟨e₁.loc.start, e₂.loc.stop⟩)
  | not {toks : List (Tok × Span)} {e : Syntax} (l : Span) (he : Parses toks e) :
      Parses ((.char '!', l) :: toks) (.not e ⟨l.start, e.loc.stop⟩)
  | ifThen {toks₁ toks₂ : List (Tok × Span)} {cond yes : Syntax} (l m r : Span)
      (hcond : Parses toks₁ cond) (hyes : Parses toks₂ yes) :
      Parses ((.if, l) :: (toks₁ ++ (.then, m) :: (toks₂ ++ [(.endif, r)])))
        (.ifThen cond yes ⟨l.start, r.stop⟩)
  | ifThenElse {toks₁ toks₂ toks₃ : List (Tok × Span)} {cond yes no : Syntax} (l m n r : Span)
      (hcond : Parses toks₁ cond) (hyes : Parses toks₂ yes) (hno : Parses toks₃ no) :
      Parses ((.if, l) :: (toks₁ ++ (.then, m) :: (toks₂ ++ (.else, n) :: (toks₃ ++ [(.endif, r)]))))
        (.ifThenElse cond yes no ⟨l.start, r.stop⟩)
  | call {toks : List (Tok × Span)} {args : List Syntax} (name : Token) (l m r : Span)
      (hargs : ParsesArgs toks args) :
      Parses ((.string name, l) :: (.char '(', m) :: (toks ++ [(.char ')', r)]))
        (.call name args ⟨l.start, r.stop⟩)

/-- The derivations of an `arglist`. -/
inductive ParsesArgs : List (Tok × Span) → List Syntax → Prop where
  | nil : ParsesArgs [] []
  | one {toks : List (Tok × Span)} {e : Syntax} (he : Parses toks e) : ParsesArgs toks [e]
  | more {toks₁ toks₂ : List (Tok × Span)} {args : List Syntax} {e : Syntax} (m : Span)
      (hargs : ParsesArgs toks₁ args) (he : Parses toks₂ e) :
      ParsesArgs (toks₁ ++ (.char ',', m) :: toks₂) (args ++ [e])

end

/-- A string token is an expression in one way. -/
theorem parses_string {text : Token} {loc : Span} {e : Syntax}
    (h : Parses [(.string text, loc)] e) : e = .string text loc := by
  generalize htoks : [(Tok.string text, loc)] = toks at h
  cases h with
  | string =>
    cases htoks
    rfl
  | paren l r _ => cases htoks
  | @trailing toks _ r _ =>
    cases toks with
    | nil => cases htoks
    | cons _ toks => simp at htoks
  | @binary toks₁ _ _ _ op _ _ _ =>
    cases toks₁ with
    | nil => cases op <;> cases htoks
    | cons _ toks => simp at htoks
  | not l _ => cases htoks
  | ifThen l m r _ _ => cases htoks
  | ifThenElse l m n r _ _ _ => cases htoks
  | call name l m r _ => simp at htoks

/-! ## Writing a string -/

/-- The ways to write a byte within quotes; a script has no NUL. -/
inductive SpelledByte : UInt8 → Str → Prop where
  | raw {b : UInt8} (hquote : b ≠ byte '"') (hslash : b ≠ byte '\\') (hzero : b ≠ 0) :
      SpelledByte b [b]
  | newline : SpelledByte (byte '\n') [byte '\\', byte 'n']
  | tab : SpelledByte (byte '\t') [byte '\\', byte 't']
  | quote : SpelledByte (byte '"') [byte '\\', byte '"']
  | backslash : SpelledByte (byte '\\') [byte '\\', byte '\\']
  | hex {high low h l : UInt8} (hhigh : hexValue high = some h) (hlow : hexValue low = some l) :
      SpelledByte (16 * h + l) [byte '\\', byte 'x', high, low]

/-- The ways to write a byte string. -/
inductive Spelled : Str → Str → Prop where
  | nil : Spelled [] []
  | cons {b : UInt8} {value text rest : Str} (hb : SpelledByte b text) (hrest : Spelled value rest) :
      Spelled (b :: value) (text ++ rest)

/-- A literal. -/
def quoted (text : Str) : Str := byte '"' :: (text ++ [byte '"'])

/-- Every byte can be written in hexadecimal. -/
theorem exists_hex (b : UInt8) :
    ∃ high low h l, hexValue high = some h ∧ hexValue low = some l ∧ b = 16 * h + l := by
  have hdigit : ∀ n : Fin 16,
      hexValue ((ascii "0123456789abcdef").getD n 0) = some (UInt8.ofNat n) := by decide
  have hb := UInt8.toNat_lt b
  refine ⟨_, _, _, _, hdigit ⟨b.toNat / 16, by lia⟩, hdigit ⟨b.toNat % 16, by lia⟩, ?_⟩
  apply UInt8.toNat_inj.1
  have hsixteen : UInt8.toNat 16 = 16 := rfl
  simp only [UInt8.toNat_add, UInt8.toNat_mul, UInt8.toNat_ofNat', hsixteen]
  lia

theorem exists_spelled (value : Str) : ∃ text, Spelled value text := by
  induction value with
  | nil => exact ⟨[], .nil⟩
  | cons b value ih =>
    obtain ⟨text, htext⟩ := ih
    obtain ⟨high, low, h, l, hhigh, hlow, rfl⟩ := exists_hex b
    exact ⟨_, .cons (.hex hhigh hlow) htext⟩

theorem SpelledByte.zero_notMem {b : UInt8} {text : Str} (h : SpelledByte b text) : 0 ∉ text := by
  cases h with
  | raw _ _ hzero => simpa using hzero.symm
  | newline => decide
  | tab => decide
  | quote => decide
  | backslash => decide
  | @hex high low h l hhigh hlow =>
    have hhigh0 : high ≠ 0 := by
      rintro rfl
      cases hhigh
    have hlow0 : low ≠ 0 := by
      rintro rfl
      cases hlow
    simp only [List.mem_cons, List.not_mem_nil, or_false, not_or]
    exact ⟨by decide, by decide, hhigh0.symm, hlow0.symm⟩

theorem Spelled.zero_notMem {value text : Str} (h : Spelled value text) : 0 ∉ text := by
  induction h with
  | nil => exact List.not_mem_nil
  | cons hb _ ih =>
    rw [List.mem_append, not_or]
    exact ⟨hb.zero_notMem, ih⟩

/-- One byte: the match is all of its text, whatever follows. -/
theorem SpelledByte.match {b : UInt8} {text : Str} (h : SpelledByte b text) (rest : Str) :
    ∃ c tail, text = c :: tail ∧ c ≠ byte '"' ∧ matchChar c (tail ++ rest) = (b, tail.length) := by
  cases h with
  | raw hquote hslash _ =>
    refine ⟨b, [], rfl, hquote, ?_⟩
    unfold matchChar
    rw [if_neg hslash]
    rfl
  | newline => exact ⟨_, _, rfl, by decide, rfl⟩
  | tab => exact ⟨_, _, rfl, by decide, rfl⟩
  | quote => exact ⟨_, _, rfl, by decide, rfl⟩
  | backslash => exact ⟨_, _, rfl, by decide, rfl⟩
  | @hex high low h l hhigh hlow =>
    refine ⟨_, _, rfl, by decide, ?_⟩
    have hescape : escape ([byte 'x', high, low] ++ rest) = some (16 * h + l, 3) := by
      show (do return (16 * (← hexValue high) + (← hexValue low), 3) : Option (UInt8 × Nat)) = _
      rw [hhigh, hlow]
      rfl
    unfold matchChar
    rw [if_pos rfl, hescape]
    rfl

theorem scanString_skip (buffer : Str) (l : Lexer) (tail rest : Str) :
    scanString tail.length buffer l (tail ++ rest) = scanString 0 buffer l rest := by
  induction tail with
  | nil => rfl
  | cons c tail ih => exact ih

/-- The whole text: the buffer gets the string. -/
theorem scanString_spelled {value text : Str} (h : Spelled value text) (buffer : Str) (l : Lexer)
    (rest : Str) :
    ∃ l', scanString 0 buffer l (text ++ byte '"' :: rest) = some (buffer ++ value, l', rest) ∧
      l'.loc = ⟨l.loc.start, l.pos + text.length + 1⟩ := by
  induction h generalizing buffer l with
  | nil =>
    refine ⟨l.closeQuote, ?_, rfl⟩
    rw [List.append_nil]
    rfl
  | @cons b value text more hb _ ih =>
    obtain ⟨c, tail, rfl, hquote, hmatch⟩ := hb.match (more ++ byte '"' :: rest)
    let l₁ := if c = byte '\n' then l.newline 1 else l.skip (tail.length + 1)
    obtain ⟨l', hscan, hloc⟩ := ih (buffer ++ [b]) l₁
    have hone : c = byte '\n' → tail.length = 0 := by
      rintro rfl
      exact (congrArg Prod.snd hmatch).symm
    refine ⟨l', ?_, ?_⟩
    · rw [List.append_assoc, List.cons_append, scanString, if_neg hquote, hmatch]
      dsimp only
      rw [scanString_skip, hscan, List.append_assoc]
      rfl
    · have hpos : l₁.pos = l.pos + (tail.length + 1) ∧ l₁.loc = l.loc := by
        unfold l₁
        split
        · rename_i hc
          rw [hone hc]
          exact ⟨rfl, rfl⟩
        · exact ⟨rfl, rfl⟩
      rw [hloc, hpos.1, hpos.2, List.length_append, List.length_cons]
      congr 1
      lia

/-- The tokens of a literal. -/
theorem lex_quoted {value text : Str} (h : Spelled value text) :
    lex (quoted text) = [(.string (strdup value), ⟨0, text.length + 2⟩)] := by
  have hclean : cStr (quoted text) = quoted text := by
    apply cStr_eq
    intro hzero
    simp only [quoted, List.mem_cons, List.mem_append, List.not_mem_nil, or_false] at hzero
    rcases hzero with hzero | hzero | hzero
    · exact absurd hzero (by decide)
    · exact h.zero_notMem hzero
    · exact absurd hzero (by decide)
  obtain ⟨l, hscan, hloc⟩ := scanString_spelled h [] Lexer.start.openQuote []
  have hrule : yyRule .start (byte '"') (text ++ [byte '"']) =
      some (some (.string (strdup value)), l, []) := by
    unfold yyRule
    rw [if_pos rfl, hscan]
    rfl
  unfold lex
  rw [hclean]
  show lexFrom (_ + 1) _ (_ :: _) = _
  rw [lexFrom, hrule]
  dsimp only
  rw [hloc, lexFrom]
  congr 3
  show 0 + 1 + text.length + 1 = _
  lia

/-! ## Reading it back -/

/-- The script is an expression, and evaluates to `v`. -/
structure Evaluates {ω : Type} (host : Host ω) (find : Str → Option (Function ω)) (script : Str)
    (s : State ω) (v : Option Value) : Prop where
  parses : ∃ e, Parses (lex script) e
  value : ∀ e, Parses (lex script) e →
    ∃ expr, e.build host find = some expr ∧ ∃ o, evaluateValue expr s = some o ∧ o.value = v

theorem evaluates_quoted {ω : Type} (host : Host ω) (find : Str → Option (Function ω))
    {value text : Str} (h : Spelled value text) (s : State ω) (v : Option Value) :
    Evaluates host find (quoted text) s v ↔ stringValue (cStr value) = v := by
  constructor
  · intro heval
    obtain ⟨e, he⟩ := heval.parses
    obtain ⟨expr, hbuild, o, ho, hv⟩ := heval.value e he
    rw [lex_quoted h] at he
    cases parses_string he
    cases hbuild
    cases ho
    exact hv
  · intro hv
    refine ⟨⟨.string (strdup value) ⟨0, text.length + 2⟩, ?_⟩, ?_⟩
    · rw [lex_quoted h]
      exact .string _ _
    · intro e he
      rw [lex_quoted h] at he
      cases parses_string he
      exact ⟨_, rfl, _, rfl, hv⟩

/-- **Literals**: every byte string can be written as one, and however that is done, the literal is
the byte string if and only if it has no NUL. -/
theorem literal_spec {ω : Type} (host : Host ω) (find : Str → Option (Function ω)) (value : Str)
    (s : State ω) :
    (∃ text, Spelled value text) ∧
      ∀ text, Spelled value text →
        (Evaluates host find (quoted text) s (some ⟨.string, value⟩) ↔ 0 ∉ value) := by
  refine ⟨exists_spelled value, ?_⟩
  intro text htext
  rw [evaluates_quoted host find htext, stringValue_eq (zero_notMem_cStr value)]
  constructor
  · intro heq
    have hvalue : cStr value = value := congrArg Value.data (Option.some.inj heq)
    rw [← hvalue]
    exact zero_notMem_cStr value
  · intro hzero
    rw [cStr_eq hzero]

/-- `"a\x00b"` is `a`. -/
theorem literal_truncated :
    Spelled [97, 0, 98] (ascii "a\\x00b") ∧
      ¬ Evaluates quietHost (fun _ => none) (quoted (ascii "a\\x00b")) ⟨[], [], .noCause, ()⟩
        (some ⟨.string, [97, 0, 98]⟩) := by
  have hspelled : Spelled [97, 0, 98] (ascii "a\\x00b") :=
    .cons (.raw (by decide) (by decide) (by decide))
      (.cons (.hex (h := 0) (l := 0) rfl rfl)
        (.cons (.raw (by decide) (by decide) (by decide)) .nil))
  refine ⟨hspelled, ?_⟩
  rw [evaluates_quoted quietHost _ hspelled]
  intro heq
  cases heq

end Recovery.Edify
