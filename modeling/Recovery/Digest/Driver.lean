import Mathlib.Data.List.Infix
import Recovery.Lib.CString
import Recovery.Lib.Text

/-!
# Digests of backup archives

`twrpDigestDriver.cpp`, with the functions of `twrp-functions.cpp` and `twrpDigest.cpp` it calls,
and the archives that `twrpTar.cpp` writes and reads under a base name.

* `Storage`, `Hashes` — the files, and MD5 and SHA-256 as parameters.
* `makeDigest`, `checkDigest` — which number the archives with one index.
* `extractTarFork` — the archives that a restore reads, by thread and then by number.
* `Backup` — the archives that a backup writes.

`none` stands for undefined behaviour: a name that does not fit its buffer, and a read error, which
`stream_file_to_digest` hands on as a length.
-/

set_option autoImplicit false

namespace Recovery.Digest

open Recovery.Lib

abbrev Str := List UInt8

structure File where
  data : Str
  /-- `open` succeeds. -/
  opens : Bool
  /-- No `read` fails. -/
  reads : Bool

/-- The files, by their full names. -/
abbrev Storage := Str → Option File

def pathExists (fs : Storage) (name : Str) : Bool := (fs name).isSome

def Storage.write (fs : Storage) (name data : Str) : Storage := fun other =>
  if other = name then some ⟨data, true, true⟩ else fs other

structure Hashes where
  md5 : Str → Str
  sha256 : Str → Str
  md5_length : ∀ data, (md5 data).length = 16
  sha256_length : ∀ data, (sha256 data).length = 32

inductive Kind where
  | md5
  | sha256
deriving DecidableEq

def hexDigit (n : UInt8) : UInt8 := if n < 10 then 48 + n else 87 + n

/-- `"%02x"` of every byte. -/
def hexify (hash : Str) : Str := hash.flatMap fun b => [hexDigit (b / 16), hexDigit (b % 16)]

def Hashes.returnDigestString (h : Hashes) (kind : Kind) (data : Str) : Str :=
  match kind with
  | .md5 => hexify (h.md5 data)
  | .sha256 => hexify (h.sha256 data)

/-- `stream_file_to_digest`: what is hashed, or nothing when the file does not open. -/
def streamFileToDigest (fs : Storage) (name : Str) : Option (Option Str) :=
  match fs name with
  | none => some none
  | some f => if !f.opens then some none else if !f.reads then none else some (some f.data)

/-- `read_file`: the first word; nothing is read when a read fails. -/
def File.word (f : File) : Str :=
  if f.reads then (f.data.dropWhile isBlank).takeWhile (!isBlank ·) else []

/-! ## Checking -/

/-- The digest file of an archive, in a build with SHA-2. -/
def findDigest (fs : Storage) (name : Str) : Option (Kind × Str) :=
  if pathExists fs (name ++ ascii ".sha2") then some (.sha256, name ++ ascii ".sha2")
  else if pathExists fs (name ++ ascii ".sha256") then some (.sha256, name ++ ascii ".sha256")
  else if pathExists fs (name ++ ascii ".md5") then some (.md5, name ++ ascii ".md5")
  else if pathExists fs (name ++ ascii ".md5sum") then some (.md5, name ++ ascii ".md5sum")
  else none

/-- A name for which a missing digest file is accepted. -/
def isExempt (name : Str) : Bool :=
  decide (ascii ".zip" <:+: name) || decide (ascii ".map" <:+: name)

variable (h : Hashes)

/-- `Check_File_Digest`. -/
def checkFileDigest (fs : Storage) (name : Str) : Option Bool :=
  match findDigest fs name with
  | none => some (isExempt name)
  | some (kind, digestfile) =>
    match fs digestfile with
    | none => some false
    | some f =>
      if !f.opens then some false
      else (streamFileToDigest fs name).map fun
        | none => false
        | some data => h.returnDigestString kind data = f.word

/-- `"%03i"`, for less than 1000. -/
def indexSuffix (i : Nat) : Str :=
  [48 + UInt8.ofNat (i / 100), 48 + UInt8.ofNat (i / 10 % 10), 48 + UInt8.ofNat (i % 10)]

/-- The names of split archives, with one index. -/
def splitNames (base : Str) : List Str := (List.range 1000).map fun i => base ++ indexSuffix i

def checkLoop (fs : Storage) : List Str → Option Bool
  | [] => some true
  | name :: names =>
    if pathExists fs name then
      (checkFileDigest h fs name).bind fun
        | true => checkLoop fs names
        | false => some false
    else some true

/-- `Check_Digest`, with `char split_filename[512]`. -/
def checkDigest (fs : Storage) (base : Str) : Option Bool :=
  if pathExists fs base then checkFileDigest h fs base
  else if 512 ≤ base.length + 3 then none
  else checkLoop h fs (splitNames base)

/-! ## Making -/

/-- What is behind the last slash. -/
def getFilename (path : Str) : Str := (path.reverse.takeWhile (· ≠ 47)).reverse

/-- The kind that the setting `tw_use_sha2` selects, and its extension. -/
def digestKind (useSha2 : Bool) : Kind := if useSha2 then .sha256 else .md5

def digestExtension (useSha2 : Bool) : Str := ascii (if useSha2 then ".sha2" else ".md5")

variable (useSha2 : Bool) (canWrite : Str → Bool)

/-- `Write_Digest`. -/
def writeDigest (fs : Storage) (name : Str) : Option (Bool × Storage) :=
  (streamFileToDigest fs name).map fun
    | none => (false, fs)
    | some data =>
      let digest := h.returnDigestString (digestKind useSha2) data
      let digestfile := name ++ digestExtension useSha2
      if digest = [] then (false, fs)
      else if canWrite digestfile then
        (true, fs.write digestfile (digest ++ ascii "  " ++ getFilename name ++ ascii "\n"))
      else (false, fs)

/-- Whether it succeeds, and the names whose digests have been written. -/
def makeLoop : List Str → Storage → Option (Bool × List Str × Storage)
  | [], fs => some (true, [], fs)
  | name :: names, fs =>
    if pathExists fs name then
      (writeDigest h useSha2 canWrite fs name).bind fun (ok, fs) =>
        if ok then
          (makeLoop names fs).map fun (ok, written, fs) => (ok, name :: written, fs)
        else some (false, [], fs)
    else some (true, [], fs)

/-- `Make_Digest`, with `char filename[512]`. -/
def makeDigest (fs : Storage) (base : Str) : Option (Bool × List Str × Storage) :=
  if pathExists fs base then
    (writeDigest h useSha2 canWrite fs base).map fun (ok, fs) =>
      (ok, if ok then [base] else [], fs)
  else if 512 ≤ base.length + 3 then none
  else
    (makeLoop h useSha2 canWrite (splitNames base) fs).map fun (ok, written, fs) =>
      -- `index == 0`
      (ok && written ≠ [], written, fs)

/-! ## Restoring -/

/-- `"%i%02i"`, for a thread less than 10 and a number less than 100. -/
def threadSuffix (thread number : Nat) : Str :=
  [48 + UInt8.ofNat thread, 48 + UInt8.ofNat (number / 10), 48 + UInt8.ofNat (number % 10)]

/-- The archives that `extractMulti` extracts, when all extractions succeed. -/
def extractMulti (fs : Storage) (base : Str) (thread : Nat) : List Str :=
  ((List.range 100).map fun n => base ++ threadSuffix thread n).takeWhile (pathExists fs ·)

/-- The loop over the threads, from the threads that are left. -/
def extractThreads (fs : Storage) (base : Str) : List Nat → List Str
  | [] => []
  | i :: threads =>
    if pathExists fs (base ++ threadSuffix i 0) then
      extractMulti fs base i ++ extractThreads fs base threads
    else []

/-- `Get_File_Type` says `ENCRYPTED`. -/
def isEncrypted (f : File) : Bool :=
  f.opens && f.reads && f.data.take 2 = [0x4f, 0x41]

/-- `extractTarFork`: the archives it reads, with `char actual_filename[255]`.  The base name is the
format of the `sprintf` that fills it; here it holds no `%`. -/
def extractTarFork (fs : Storage) (base : Str) : Option (List Str) :=
  if pathExists fs base then some [base]
  else
    match fs (base ++ ascii "000") with
    | none => some []
    | some first =>
      if 255 ≤ base.length + 3 then none
      else if isEncrypted first then some (extractThreads fs base (List.range' 0 9))
      else some (extractMulti fs base 0 ++ extractThreads fs base (List.range' 1 8))

/-! ## Backups -/

/-- A finished backup: one archive, or the archives of up to nine threads, each with up to a hundred
of them. -/
inductive Backup where
  | single (data : Str)
  | split (threads : List (List Str)) (ne_nil : threads ≠ []) (length_le : threads.length ≤ 9)
      (counts : ∀ archives ∈ threads, 1 ≤ archives.length ∧ archives.length ≤ 100)

/-- The number in a suffix of three digits. -/
def parseIndex : Str → Option Nat
  | [a, b, c] =>
    let i := 100 * (a.toNat - 48) + 10 * (b.toNat - 48) + (c.toNat - 48)
    if [a, b, c] = indexSuffix i ∧ i < 1000 then some i else none
  | _ => none

/-- The archive behind the base name with a suffix. -/
def Backup.archive : Backup → Str → Option Str
  | single data, suffix => if suffix = [] then some data else none
  | split threads _ _ _, suffix =>
    (parseIndex suffix).bind fun i => threads[i / 100]?.bind fun archives => archives[i % 100]?

/-- The files whose names start with the base name are those of the backup. -/
def Backup.StoredAt (b : Backup) (base : Str) (fs : Storage) : Prop :=
  ∀ suffix, fs (base ++ suffix) = (b.archive suffix).map fun data => ⟨data, true, true⟩

end Recovery.Digest
