import Mathlib.Algebra.Order.Ring.Int

/-!
# The file lists of a backup (`twrpTar.cpp`, `exclude.cpp`)

`createTarFork` measures the files of a directory, computes the size that each thread is to have,
and `Generate_TarList` lists the files with the thread that writes them.

## What a directory is

* A path is the list of its names, and a directory is what `readdir` gives of it, without `.` and
  `..`, which every `TWExclude` excludes.
* An entry has the type that `lstat` gives, and `readdir` either reports that type in `d_type` or
  leaves it at `DT_UNKNOWN`, as file systems may.  `Get_Folder_Size` goes by `lstat`; the lists go by
  `d_type`, and pass over an entry whose type is not reported as they do over an excluded one.
* Devices, pipes and sockets have no size.

## What is computed

* Sizes are `unsigned long long` and thread ids are `unsigned`: both wrap around.
* `Generate_TarList` returns the number of regular files, an `int`, and a negative number is its error.
  The number is left out: the error is the one of a directory that cannot be opened, and the `int`
  does not overflow (there are fewer than 2^31 files).
-/

set_option autoImplicit false

namespace Recovery.TwrpTar

abbrev Name := List Char

abbrev Path := List Name

/-- `DT_REG` and `DT_LNK`. -/
inductive FileType where
  | reg
  | lnk
  deriving DecidableEq

/-- The entries of a directory; `known` says that `d_type` is not `DT_UNKNOWN`. -/
inductive Dir where
  | nil
  | file (known : Bool) (type : FileType) (name : Name) (st_size : Nat) (rest : Dir)
  | dir (known : Bool) (name : Name) (entries : Dir) (rest : Dir)
  /-- A directory that cannot be opened. -/
  | closed (known : Bool) (name : Name) (rest : Dir)
  /-- A device, a pipe or a socket: no matter what `d_type` is. -/
  | special (name : Name) (rest : Dir)

/-- The names of the entries. -/
def Dir.names : Dir → List Name
  | .nil => []
  | .file _ _ name _ rest => name :: rest.names
  | .dir _ name _ rest => name :: rest.names
  | .closed _ name rest => name :: rest.names
  | .special name rest => name :: rest.names

/-- No directory has two entries of one name. -/
def Dir.Distinct : Dir → Prop
  | .nil => True
  | .file _ _ name _ rest => name ∉ rest.names ∧ rest.Distinct
  | .dir _ name entries rest => name ∉ rest.names ∧ entries.Distinct ∧ rest.Distinct
  | .closed _ name rest => name ∉ rest.names ∧ rest.Distinct
  | .special name rest => name ∉ rest.names ∧ rest.Distinct

/-- Every `d_type` is reported. -/
def Dir.Known : Dir → Prop
  | .nil => True
  | .file known _ _ _ rest => known = true ∧ rest.Known
  | .dir known _ entries rest => known = true ∧ entries.Known ∧ rest.Known
  | .closed known _ rest => known = true ∧ rest.Known
  | .special _ rest => rest.Known

structure TWExclude where
  relativedir : List Name
  absolutedir : List Path

namespace TWExclude

def check_relative_skip_dirs (ex : TWExclude) (dir : Name) : Bool := ex.relativedir.contains dir

def check_absolute_skip_dirs (ex : TWExclude) (path : Path) : Bool := ex.absolutedir.contains path

def check_skip_dirs (ex : TWExclude) (path : Path) : Bool :=
  path.getLast?.any ex.check_relative_skip_dirs || ex.check_absolute_skip_dirs path

/-- `Get_Folder_Size`: excluded files count, excluded directories do not. -/
def Get_Folder_Size (ex : TWExclude) (path : Path) : Dir → Nat
  | .nil => 0
  | .file _ _ _ st_size rest => (st_size + ex.Get_Folder_Size path rest) % 2 ^ 64
  | .dir _ name entries rest =>
    if ex.check_skip_dirs (path ++ [name]) then ex.Get_Folder_Size path rest
    else (ex.Get_Folder_Size (path ++ [name]) entries + ex.Get_Folder_Size path rest) % 2 ^ 64
  | .closed _ _ rest => ex.Get_Folder_Size path rest
  | .special _ rest => ex.Get_Folder_Size path rest

end TWExclude

structure TarListStruct where
  fn : Path
  thread_id : Nat
  deriving DecidableEq

/-- A list in the making, with the thread that takes the next file and the bytes that it has. -/
structure Listing where
  TarList : List TarListStruct
  thread_id : Nat
  Archive_Current_Size : Nat

namespace Listing

def push (s : Listing) (fn : Path) : Listing :=
  { s with TarList := s.TarList ++ [⟨fn, s.thread_id⟩] }

def count (s : Listing) (type : FileType) (st_size : Nat) : Listing :=
  match type with
  | .reg => { s with Archive_Current_Size := (s.Archive_Current_Size + st_size) % 2 ^ 64 }
  | .lnk => s

/-- The next thread, when this one has more than the target size. -/
def advance (s : Listing) (Target_Size : Nat) : Listing :=
  if s.Archive_Current_Size ≠ 0 ∧ Target_Size ≠ 0 ∧ Target_Size < s.Archive_Current_Size then
    { s with thread_id := (s.thread_id + 1) % 2 ^ 32, Archive_Current_Size := 0 }
  else s

end Listing

/-- `Generate_TarList`; `none` is the error of a directory that cannot be opened.  An entry that is
`DT_UNKNOWN` is in neither branch of the source. -/
def Generate_TarList (ex : TWExclude) (Target_Size : Nat) :
    Path → Dir → Listing → Option Listing
  | _, .nil, s => some s
  | path, .file known type name st_size rest, s =>
    if ex.check_skip_dirs (path ++ [name]) || !known then Generate_TarList ex Target_Size path rest s
    else
      let s := ((s.push (path ++ [name])).count type st_size).advance Target_Size
      Generate_TarList ex Target_Size path rest s
  | path, .dir known name entries rest, s =>
    if ex.check_skip_dirs (path ++ [name]) || !known then Generate_TarList ex Target_Size path rest s
    else do
      let s ← Generate_TarList ex Target_Size (path ++ [name]) entries (s.push (path ++ [name]))
      Generate_TarList ex Target_Size path rest s
  | path, .closed known name rest, s =>
    if ex.check_skip_dirs (path ++ [name]) || !known then Generate_TarList ex Target_Size path rest s
    else none
  | path, .special _ rest, s => Generate_TarList ex Target_Size path rest s

/-! ## `createTarFork` -/

/-- What `createTarFork` reads: the settings, the excluded paths and the directory. -/
structure TarFork where
  use_encryption : Bool
  userdata_encryption : Bool
  backup_exclusions : TWExclude
  tardir : Path
  root : Dir
  distinct : root.Distinct

/-- What `sysconf(_SC_NPROCESSORS_CONF)` returns: there is a processor, or it is not known. -/
structure Processors where
  count : Int
  known : count = -1 ∨ (1 ≤ count ∧ count < 2 ^ 31)

namespace TarFork

variable (f : TarFork)

/-- The directories of user data that are not encrypted. -/
def isRegular (name : Name) : Bool :=
  f.userdata_encryption && ("app".toList.isPrefixOf name || "dalvik".toList.isPrefixOf name)

/-- The first pass over the directory: the list that is not encrypted and `encrypt_size`. -/
def measure : Dir → Listing → Nat → Option (Listing × Nat)
  | .nil, reg, encrypt_size => some (reg, encrypt_size)
  | .file known type name st_size rest, reg, encrypt_size =>
    if f.backup_exclusions.check_skip_dirs (f.tardir ++ [name]) || !known then
      measure rest reg encrypt_size
    else
      match type with
      | .reg => measure rest reg ((encrypt_size + st_size) % 2 ^ 64)
      | .lnk => measure rest reg encrypt_size
  | .dir known name entries rest, reg, encrypt_size =>
    let path := f.tardir ++ [name]
    if f.backup_exclusions.check_skip_dirs path || !known then measure rest reg encrypt_size
    else if f.isRegular name then do
      let reg ← Generate_TarList f.backup_exclusions 0 path entries reg
      measure rest reg encrypt_size
    else
      measure rest reg
        ((encrypt_size + f.backup_exclusions.Get_Folder_Size path entries) % 2 ^ 64)
  | .closed known name rest, reg, encrypt_size =>
    if f.backup_exclusions.check_skip_dirs (f.tardir ++ [name]) || !known then
      measure rest reg encrypt_size
    else if f.isRegular name then none
    else measure rest reg encrypt_size
  | .special _ rest, reg, encrypt_size => measure rest reg encrypt_size

/-- The second pass: the list that is encrypted. -/
def divide (target_size : Nat) : Dir → Listing → Option Listing
  | .nil, s => some s
  | .file known type name st_size rest, s =>
    if f.backup_exclusions.check_skip_dirs (f.tardir ++ [name]) || !known then
      divide target_size rest s
    else divide target_size rest ((s.count type st_size).push (f.tardir ++ [name]))
  | .dir known name entries rest, s =>
    let path := f.tardir ++ [name]
    if f.backup_exclusions.check_skip_dirs path || !known then divide target_size rest s
    else if f.isRegular name then divide target_size rest s
    else do
      let s ← Generate_TarList f.backup_exclusions target_size path entries s
      divide target_size rest s
  | .closed known name rest, s =>
    if f.backup_exclusions.check_skip_dirs (f.tardir ++ [name]) || !known then
      divide target_size rest s
    else if f.isRegular name then divide target_size rest s
    else none
  | .special _ rest, s => divide target_size rest s

/-- The lists, and the threads that are started on the second one. -/
structure Lists where
  RegularList : List TarListStruct
  EncryptList : List TarListStruct
  enc_thread_id : Nat
  start_thread_id : Nat
  core_count : Nat

/-- The number of processors as an `unsigned`, at most 8. -/
def coreCount (processors : Processors) : Nat := min (processors.count % 2 ^ 32).toNat 8

/-- The lists that `createTarFork` makes. Without encryption there is one list, for thread 0. -/
def lists (processors : Processors) : Option Lists :=
  if f.use_encryption || f.userdata_encryption then do
    let cores := coreCount processors
    let (reg, encrypt_size) ← f.measure f.root ⟨[], 0, 0⟩ 0
    let target_size := (encrypt_size / cores + 1) % 2 ^ 64
    let start := if f.userdata_encryption then 1 else 0
    let enc ← f.divide target_size f.root ⟨[], start, 0⟩
    return {
      RegularList := reg.TarList
      EncryptList := enc.TarList
      enc_thread_id := enc.thread_id
      start_thread_id := start
      core_count := if f.userdata_encryption then cores else cores - 1 }
  else do
    let s ← Generate_TarList f.backup_exclusions 0 f.tardir f.root ⟨[], 0, 0⟩
    return {
      RegularList := s.TarList
      EncryptList := []
      enc_thread_id := 0
      start_thread_id := 0
      core_count := 0 }

end TarFork

end Recovery.TwrpTar
