import Mathlib.Data.List.Basic

/-!
# A backup of partitions (`partitionmanager.cpp`)

* `TWPartition`, `findPartitionByPath` — the partition table, and the search in it.
* `backupPaths` — the paths of a backup list.
* `calculate` — the first traversal of the list, which counts.
* `backupPartition`, `backupLoop` — the second one, which makes backups.
* `runBackup` — `Run_Backup`, up to the end of the loop.

`Details.counted` and `Run.backedUp` are not in the source: they name what was counted, and what
`TWPartition::Backup` was called for.

Sizes are 64-bit numbers that wrap, and so is the free space of which the reserve is taken off.
What makes a backup of a partition is a parameter that succeeds or fails.
-/

set_option autoImplicit false

namespace Recovery.Partitions

abbrev Str := List UInt8

inductive BackupMethod where
  | none
  | files
  | dd
  | flashUtils
deriving DecidableEq

structure TWPartition where
  mountPoint : Str
  symlinkMountPoint : Str
  backupMethod : BackupMethod
  backupSize : UInt64
  free : UInt64
  canBeBackedUp : Bool
  isPresent : Bool
  hasSubPartition : Bool
  isSubPartition : Bool
  subPartitionOf : Str
deriving DecidableEq

/-! ## Paths -/

def slash : UInt8 := 47
def semicolon : UInt8 := 59

/-- `TWFunc::Get_Root_Path`. -/
def getRootPath (path : Str) : Str :=
  let path := if path.take 1 = [slash] then path else slash :: path
  path.take 2 ++ (path.drop 2).takeWhile (· ≠ slash)

/-- `"/system"`. -/
def system : Str := [47, 115, 121, 115, 116, 101, 109]

/-- What `Run_Backup` finds: the table, the mount point of the root of Android, and settings. -/
structure Settings where
  partitions : List TWPartition
  /-- `Get_Android_Root_Path()`. -/
  androidRootPath : Str
  /-- `tw_backup_list`. -/
  backupList : Str
  /-- `DataManager::GetCurrentStoragePath()`. -/
  currentStoragePath : Str
  adbbackup : Bool
  skipDigest : Int
  disableFreeSpace : Int
  isEncrypted : Int
  isDecrypted : Int

def findPartitionByPath (o : Settings) (path : Str) : Option TWPartition :=
  let path := getRootPath path
  let path := if path = system then o.androidRootPath else path
  o.partitions.find? fun part =>
    part.mountPoint = path ∨ (part.symlinkMountPoint ≠ [] ∧ part.symlinkMountPoint = path)

/-- The parts of the list that end at a semicolon. -/
def pathsFrom (path : Str) : Str → List Str
  | [] => []
  | c :: list => if c = semicolon then path :: pathsFrom [] list else pathsFrom (path ++ [c]) list

def backupPaths (o : Settings) : List Str := pathsFrom [] o.backupList

/-! ## The first traversal -/

structure Details where
  partitionCount : Nat
  fileBytes : UInt64
  imgBytes : UInt64
  counted : List TWPartition

def Details.count (s : Details) (part : TWPartition) : Details where
  partitionCount := s.partitionCount + 1
  fileBytes := if part.backupMethod = .files then s.fileBytes + part.backupSize else s.fileBytes
  imgBytes := if part.backupMethod = .files then s.imgBytes else s.imgBytes + part.backupSize
  counted := s.counted ++ [part]

def countPath (o : Settings) (s : Details) (path : Str) : Details :=
  match findPartitionByPath o path with
  | some part =>
    let s := s.count part
    if part.hasSubPartition then
      o.partitions.foldl (fun s sub =>
        if sub.canBeBackedUp ∧ sub.isPresent ∧ sub.isSubPartition ∧
            sub.subPartitionOf = part.mountPoint then s.count sub
        else s) s
    else s
  | none => s

def calculate (o : Settings) : Details :=
  (backupPaths o).foldl (countPath o) ⟨0, 0, 0, []⟩

def Details.totalBytes (s : Details) : UInt64 := s.fileBytes + s.imgBytes

/-! ## The second traversal -/

/-- What backups do, in a world `ω`. -/
structure Device (ω : Type) where
  /-- `twadbbu::Write_ADB_Stream_Header`. -/
  writeHeader : Nat → ω → Bool × ω
  recursiveMkdir : ω → Bool × ω
  /-- `stop_backup.get_value()`. -/
  stopBackup : ω → Bool × ω
  /-- `TWPartition::Backup`. -/
  backup : TWPartition → ω → Bool × ω
  makeDigest : TWPartition → ω → Bool × ω

structure Run (ω : Type) where
  world : ω
  backedUp : List TWPartition

variable {ω : Type} (d : Device ω) (o : Settings)

/-- A partition, and its digest. -/
def backupOne (part : TWPartition) (s : Run ω) : Bool × Run ω :=
  let (ok, world) := d.backup part s.world
  let s : Run ω := ⟨world, s.backedUp ++ [part]⟩
  if ok then
    if !o.adbbackup && o.skipDigest == 0 then
      let (ok, world) := d.makeDigest part s.world
      (ok, { s with world })
    else (true, s)
  else (false, s)

def backupSubs (parent : TWPartition) : List TWPartition → Run ω → Bool × Run ω
  | [], s => (true, s)
  | sub :: subs, s =>
    if sub.canBeBackedUp ∧ sub.isSubPartition ∧ sub.subPartitionOf = parent.mountPoint then
      let (ok, s) := backupOne d o sub s
      if ok then backupSubs parent subs s else (false, s)
    else backupSubs parent subs s

/-- `Backup_Partition`. -/
def backupPartition (part : TWPartition) (s : Run ω) : Bool × Run ω :=
  let (ok, s) := backupOne d o part s
  if ok then if part.hasSubPartition then backupSubs d o part o.partitions s else (true, s)
  else (false, s)

/-- The result says whether all of the list was done. -/
def backupLoop : List Str → Run ω → Bool × Run ω
  | [], s => (true, s)
  | path :: paths, s =>
    let (stop, world) := d.stopBackup s.world
    let s := { s with world }
    if stop then (false, s)
    else
      match findPartitionByPath o path with
      | some part =>
        let (ok, s) := backupPartition d o part s
        if ok then backupLoop paths s else (false, s)
      | none => backupLoop paths s

/-! ## `Run_Backup` -/

/-- What there is at the end of `Run_Backup`. -/
structure Report where
  details : Details
  /-- What the header of the ADB stream announces. -/
  header : Option Nat
  /-- The backups that were made once the loop had started, and whether it was done. -/
  loop : Option (Bool × List TWPartition)

/-- 32 MB. -/
def reserve : UInt64 := 32 * 1024 * 1024

/-- The space check. -/
def enoughSpace (total free : UInt64) : Bool :=
  (o.adbbackup || o.disableFreeSpace != 0) || !(free - reserve < total)

def runBackup (world : ω) : Report :=
  let details := calculate o
  if details.partitionCount = 0 then ⟨details, none, none⟩
  else
    let (ok, world) :=
      if o.adbbackup then d.writeHeader details.partitionCount world else (true, world)
    if !ok then ⟨details, none, none⟩
    else
      let header := if o.adbbackup then some details.partitionCount else none
      match findPartitionByPath o o.currentStoragePath with
      | none => ⟨details, header, none⟩
      | some storage =>
        if !enoughSpace o details.totalBytes storage.free then ⟨details, header, none⟩
        else
          let (ok, world) :=
            if !o.adbbackup || (o.isEncrypted == 0 || (o.isEncrypted != 0 && o.isDecrypted != 0)) then
              d.recursiveMkdir world
            else (true, world)
          if !ok then ⟨details, header, none⟩
          else
            let (finished, s) := backupLoop d o (backupPaths o) ⟨world, []⟩
            ⟨details, header, some (finished, s.backedUp)⟩

end Recovery.Partitions
