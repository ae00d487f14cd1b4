import Mathlib.Data.Nat.Digits.Defs
import Recovery.Lib.Access
import Recovery.Lib.Fscanf
import Recovery.Verifier.VerifyFile

/-!
# The key file (`load_keys` of `verifier.cpp`)

* `parseRsaKey`, `parseEcKey`, `loadKeys` — the source functions, over the characters of the file
  and with the writes to their arrays checked.
* `Dialect`, `KeyList` — key files up to what a dialect allows: how a key starts, which integers
  stand for a word count, a word or a byte, and what a closing brace may be.
* `documented` — the dialect of the comment above `load_keys`.

White space may stand before every token, and an integer is what `fscanf` reads as one.  Failing
allocations are left out; that a point lies on the curve is a parameter.
-/

set_option autoImplicit false

namespace Recovery.Verifier

open Recovery.Lib Recovery.Memory

structure RSA where
  n : Nat
  e : Nat
  deriving DecidableEq, Repr

/-- The affine coordinates. -/
structure EC_KEY where
  x : Nat
  y : Nat
  deriving DecidableEq, Repr

/-- A `Certificate` with its two pointers. -/
abbrev KeyCertificate : Type := Certificate (Option RSA) (Option EC_KEY)

/-- `BN_bin2bn`. -/
def bnBin2bn (bytes : List Nat) : Nat := bytes.foldl (fun n b => n * 256 + b) 0

/-- The bytes of a `uint32_t` in memory. -/
def wordBytes (w : Nat) : List Nat := [w % 256, w / 2 ^ 8 % 256, w / 2 ^ 16 % 256, w / 2 ^ 24 % 256]

/-! ## Formats -/

/-- `" %i , 0x%x"`. -/
def lenFormat : List Directive :=
  [.space, .int 0, .space, .lit ',', .space, .lit '0', .lit 'x', .int 16]

/-- `" , { %u"`. -/
def firstFormat : List Directive := [.space, .lit ',', .space, .lit '\x7b', .space, .int 10]

/-- `" , %u"`. -/
def nextFormat : List Directive := [.space, .lit ',', .space, .int 10]

/-- `" }"`. -/
def braceFormat : List Directive := [.space, .lit '\x7d']

/-! ## Parsers -/

/-- The loop `fscanf(file, " , %u", ...)` from `i` on, for `k` numbers; a number is stored at
`index i`. -/
def readMore (index : Nat → Nat) (store : Int → Nat) :
    Nat → Nat → List Nat → List Char → Attempt (List Nat × List Char)
  | 0, _, arr, s => return (arr, s)
  | k + 1, i, arr, s => do
    let (vs, s) ← attempt (expect nextFormat s)
    let arr ← writeAt arr (index i) (store (vs.headD 0))
    readMore index store k (i + 1) arr s

/-- `k` numbers into an array, the first with the format `" , { %u"`. -/
def readNumbers (index : Nat → Nat) (store : Int → Nat) (k : Nat) (arr : List Nat)
    (s : List Char) : Attempt (List Nat × List Char) := do
  let (vs, s) ← attempt (expect firstFormat s)
  let arr ← writeAt arr (index 0) (store (vs.headD 0))
  readMore index store (k - 1) 1 arr s

/-- The loop with all numbers read into one variable. -/
def skipMore : Nat → List Char → Option (List Char)
  | 0, s => some s
  | k + 1, s => (expect nextFormat s).bind fun r => skipMore k r.2

/-- `if (fscanf(...) != 0) return nullptr`. -/
def expectNone (ds : List Directive) (s : List Char) : Option (List Char) :=
  if (fscanf ds s).ret ≠ 0 then none else some (fscanf ds s).rest

def parseRsaKey (exponent : Nat) (s : List Char) : Attempt (RSA × List Char) := do
  let (vs, s) ← attempt (expect lenFormat s)
  let keyLenWords := storeI32 (vs.headD 0)
  if keyLenWords > 8192 / 32 then failure
  else do
    let (modulus, s) ←
      readNumbers id storeU32 keyLenWords (List.replicate keyLenWords 0) s
    -- std::reverse over the bytes of the array
    let bytes := (modulus.flatMap wordBytes).reverse
    let (_, s) ← attempt (expect (braceFormat ++ firstFormat) s)
    let s ← attempt (skipMore (keyLenWords - 1) s)
    -- " } } "
    let s ← attempt (expectNone (braceFormat ++ braceFormat ++ [.space]) s)
    return (⟨bnBin2bn bytes, exponent⟩, s)

/-- Bytes of the order of P-256. -/
def P256_BYTES : Nat := 32

/-- One round of the loop over the coordinates. -/
def parseCoordinate (keyLenBytes : Nat) (bytes : List Nat) (s : List Char) :
    Attempt (List Nat × List Char) := do
  let (bytes, s) ← readNumbers (fun i => keyLenBytes - i - 1) (fun v => storeU32 v % 256)
    keyLenBytes bytes s
  let s ← attempt (expectNone braceFormat s)
  return (bytes, s)

variable (onCurve : Nat → Nat → Bool)

def parseEcKey (s : List Char) : Attempt (EC_KEY × List Char) := do
  let (vs, s) ← attempt (expect [.space, .int 0] s)
  let keyLenBytes := storeI32 (vs.headD 0)
  if keyLenBytes ≠ P256_BYTES then failure
  else do
    let (bytes, s) ← parseCoordinate keyLenBytes (List.replicate keyLenBytes 0) s
    let x := bnBin2bn bytes
    let (bytes, s) ← parseCoordinate keyLenBytes bytes s
    let y := bnBin2bn bytes
    -- " } "
    let s ← attempt (expectNone (braceFormat ++ [.space]) s)
    if onCurve x y then return (⟨x, y⟩, s) else failure

/-- The switch over the version: type, exponent and hash length. -/
def versionKind (version : Nat) : Option (KeyType × Nat × Nat) :=
  if version = 2 then some (.KEY_TYPE_RSA, 65537, SHA_DIGEST_LENGTH)
  else if version = 3 then some (.KEY_TYPE_RSA, 3, SHA256_DIGEST_LENGTH)
  else if version = 4 then some (.KEY_TYPE_RSA, 65537, SHA256_DIGEST_LENGTH)
  else if version = 5 then some (.KEY_TYPE_EC, 0, SHA256_DIGEST_LENGTH)
  else none

/-- The start of a key: what it sets up, and where the key goes on. -/
def readStart (s : List Char) : Option ((KeyType × Nat × Nat) × List Char) :=
  (expect [.space, .char] s).bind fun (vs, s) =>
    if vs.headD 0 = ('\x7b'.toNat : Int) then some ((.KEY_TYPE_RSA, 3, SHA_DIGEST_LENGTH), s)
    else if vs.headD 0 = ('v'.toNat : Int) then
      -- "%d {"
      let r := fscanf [.int 10, .space, .lit '\x7b'] s
      if r.ret ≠ 1 then none
      else (versionKind (storeI32 (r.values.headD 0))).map fun kind => (kind, r.rest)
    else some ((.KEY_TYPE_RSA, 0, 0), s)

/-- One key of `load_keys`. -/
def loadKey (s : List Char) : Attempt (KeyCertificate × List Char) := do
  let ((keyType, exponent, hashLen), s) ← attempt (readStart s)
  match keyType with
  | .KEY_TYPE_RSA => do
    let (rsa, s) ← parseRsaKey exponent s
    return (⟨hashLen, keyType, some rsa, none⟩, s)
  | .KEY_TYPE_EC => do
    let (ec, s) ← parseEcKey onCurve s
    return (⟨hashLen, keyType, none, some ec⟩, s)

/-- The loop of `load_keys`. -/
def loadKeysLoop : Nat → List Char → List KeyCertificate → Attempt (List KeyCertificate)
  | 0, _, _ => OptionT.mk (.error .stuck)
  | fuel + 1, s, certs => do
    let (cert, s) ← loadKey onCurve s
    match s with
    | [] => return certs ++ [cert]
    | ch :: s => if ch = ',' then loadKeysLoop fuel s (certs ++ [cert]) else failure

/-- `load_keys`; `none` is a file that cannot be opened.  Every key takes a character. -/
def loadKeys (file : Option (List Char)) : Attempt (List KeyCertificate) :=
  match file with
  | none => failure
  | some s => loadKeysLoop onCurve (s.length + 1) s []

/-! ## Key files -/

/-- `k` more numbers, each after a comma. -/
inductive MoreNumbers : Nat → List Char → List Int → List Char → Prop where
  | done (s : List Char) : MoreNumbers 0 s [] s
  | next {k : Nat} {s s' rest : List Char} {v : Int} {vs : List Int} :
      matchAll nextFormat s = some ([v], s') → MoreNumbers k s' vs rest →
      MoreNumbers (k + 1) s (v :: vs) rest

/-- A comma, an opening brace and `k` numbers. -/
def Numbers (k : Nat) (s : List Char) (vs : List Int) (rest : List Char) : Prop :=
  ∃ v s' more, matchAll firstFormat s = some ([v], s') ∧ MoreNumbers (k - 1) s' more rest ∧
    vs = v :: more

structure Dialect where
  /-- How a key starts. -/
  start : List Char → KeyType × Nat × Nat → List Char → Prop
  /-- An integer that stands for a number of words or bytes. -/
  count : Int → Nat → Prop
  word : Int → Prop
  byte : Int → Prop
  closing : List Char → List Char → Prop

namespace Dialect

variable (D : Dialect)

/-- Word count and `n0inv`, modulus and `R^2`, up to the two closing braces. -/
def RsaBody (s : List Char) (n : Nat) (rest : List Char) : Prop :=
  ∃ len n0inv k s₁ modulus s₂ s₃ rr s₄ s₅,
    matchAll lenFormat s = some ([len, n0inv], s₁) ∧ D.count len k ∧ 1 ≤ k ∧ k ≤ 8192 / 32 ∧
    Numbers k s₁ modulus s₂ ∧ matchAll braceFormat s₂ = some ([], s₃) ∧
    Numbers k s₃ rr s₄ ∧ D.closing s₄ s₅ ∧ D.closing s₅ rest ∧
    (∀ v ∈ modulus ++ rr, D.word v) ∧ n = Nat.ofDigits (2 ^ 32) (modulus.map storeU32)

/-- Byte count and the two coordinates, up to the last closing brace. -/
def EcBody (s : List Char) (x y : Nat) (rest : List Char) : Prop :=
  ∃ len s₁ xs s₂ s₃ ys s₄ s₅,
    matchAll [.space, .int 0] s = some ([len], s₁) ∧ D.count len P256_BYTES ∧
    Numbers P256_BYTES s₁ xs s₂ ∧ D.closing s₂ s₃ ∧
    Numbers P256_BYTES s₃ ys s₄ ∧ D.closing s₄ s₅ ∧ D.closing s₅ rest ∧
    (∀ v ∈ xs ++ ys, D.byte v) ∧ x = Nat.ofDigits 256 (xs.map fun v => storeU32 v % 256) ∧
    y = Nat.ofDigits 256 (ys.map fun v => storeU32 v % 256) ∧ onCurve x y = true

inductive Key : List Char → KeyCertificate → List Char → Prop where
  | rsa {s s' rest : List Char} {exponent hashLen n : Nat} :
      D.start s (.KEY_TYPE_RSA, exponent, hashLen) s' → D.RsaBody s' n rest →
      Key s ⟨hashLen, .KEY_TYPE_RSA, some ⟨n, exponent⟩, none⟩ rest
  | ec {s s' rest : List Char} {exponent hashLen x y : Nat} :
      D.start s (.KEY_TYPE_EC, exponent, hashLen) s' → D.EcBody onCurve s' x y rest →
      Key s ⟨hashLen, .KEY_TYPE_EC, none, some ⟨x, y⟩⟩ rest

/-- Keys separated by commas, and nothing behind the last. -/
inductive KeyList : List Char → List KeyCertificate → Prop where
  | last {s rest : List Char} {cert : KeyCertificate} :
      Key onCurve D s cert rest → rest.dropWhile isspace = [] → KeyList s [cert]
  | more {s rest s' : List Char} {cert : KeyCertificate} {certs : List KeyCertificate} :
      Key onCurve D s cert rest → matchAll [.space, .lit ','] rest = some ([], s') →
      KeyList s' certs → KeyList s (cert :: certs)

end Dialect

/-- The versions listed above `load_keys`. -/
def certificateKind : Nat → Option (KeyType × Nat × Nat)
  | 1 => some (.KEY_TYPE_RSA, 3, SHA_DIGEST_LENGTH)
  | 2 => some (.KEY_TYPE_RSA, 65537, SHA_DIGEST_LENGTH)
  | 3 => some (.KEY_TYPE_RSA, 3, SHA256_DIGEST_LENGTH)
  | 4 => some (.KEY_TYPE_RSA, 65537, SHA256_DIGEST_LENGTH)
  | 5 => some (.KEY_TYPE_EC, 0, SHA256_DIGEST_LENGTH)
  | _ => none

/-- `"{"` for version 1, and a version identifier before it for the newer ones. -/
inductive DocumentedStart : List Char → KeyType × Nat × Nat → List Char → Prop where
  | first {s rest : List Char} {kind : KeyType × Nat × Nat} :
      matchAll [.space, .lit '\x7b'] s = some ([], rest) → certificateKind 1 = some kind →
      DocumentedStart s kind rest
  | newer {s rest : List Char} {version : Int} {kind : KeyType × Nat × Nat} :
      matchAll [.space, .lit 'v', .int 10, .space, .lit '\x7b'] s = some ([version], rest) →
      2 ≤ version → certificateKind version.toNat = some kind → DocumentedStart s kind rest

/-- **The documented form**: every brace is there, and every number fits. -/
def documented : Dialect where
  start := DocumentedStart
  count v k := v = k
  word v := -2 ^ 31 ≤ v ∧ v < 2 ^ 32
  byte v := 0 ≤ v ∧ v < 256
  closing s rest := matchAll braceFormat s = some ([], rest)

end Recovery.Verifier
