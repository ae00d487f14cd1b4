import Recovery.Lib.Text
import Recovery.Lib.CInt

/-!
# Options of an fstab line (`partition.cpp`)

* `mountFlags`, `ignoredMountItems`, `twFlags` — the tables.
* `processFSFlags` — `Process_FS_Flags`, for mount options.
* `applyTWFlag`, `matchFlag`, `processTWFlags` — `Process_TW_Flags`, for the flags of TWRP.

The tokens of `strtok_r` are `Lib.words`.  `BUILD_SAFESTRAP` is defined.

A flag sets a property of the partition, and an unknown one is skipped.  A separator between quotes
does not end a flag: the other ones become newlines before the line is split, by `maskSeparators`.
`Fstab.FlagText` says which lines are read as they were meant.
-/

set_option autoImplicit false

namespace Recovery.Fstab

open Recovery.Lib

abbrev Str := List UInt8

def text (s : String) : Str := s.toList.map fun c => c.toNat.toUInt8

def equals : UInt8 := 61
def comma : UInt8 := 44
def colon : UInt8 := 58
def semicolon : UInt8 := 59
def quote : UInt8 := 34

/-- `strncmp(s, t, n) == 0`. -/
def strncmp (s t : Str) (n : Nat) : Bool := s.take n == t.take n

/-- `atol`, where a `long` has 64 bits. -/
def atol (s : Str) : Int :=
  let s := s.dropWhile isBlank
  let negative := s.head? = some 45
  let digits := (if s.head? = some 43 ∨ negative then s.drop 1 else s).takeWhile
    fun c => 48 ≤ c && c ≤ 57
  let value := digits.foldl (fun n c => 10 * n + (c.toNat - 48)) 0
  if negative then -(min value (2 ^ 63) : Nat) else (min value (2 ^ 63 - 1) : Nat)

def atoi (s : Str) : Int := toInt (atol s)

/-- What the flags of a line set. -/
structure TWPartition where
  hasAndroidSecure : Bool
  canBeBackedUp : Bool
  backupDisplayName : Str
  formatBlockSize : Nat
  canBeWiped : Bool
  canEncryptBackup : Bool
  displayName : Str
  cryptoKeyLocation : Str
  canFlashImg : Bool
  hidden : Bool
  ignoreBlkid : Bool
  length : Int
  mountToDecrypt : Bool
  removable : Bool
  retainLayoutVersion : Bool
  isSettingsStorage : Bool
  isStorage : Bool
  storageName : Str
  isSubPartition : Bool
  subPartitionOf : Str
  symlinkPath : Str
  useUserdataEncryption : Bool
  useRmRf : Bool
  wipeDuringFactoryReset : Bool
  wipeAvailableInGUI : Bool
  slotSelect : Bool
  alternateBlockDevice : Str
  keyDirectory : Str
  mountFlags : Nat
  mountReadOnly : Bool
  mountOptions : Str
  /-- The calls of `property_set`. -/
  properties : List (Str × Str)
deriving DecidableEq

/-- A new one. -/
def TWPartition.new : TWPartition where
  hasAndroidSecure := false
  canBeBackedUp := false
  backupDisplayName := []
  formatBlockSize := 0
  canBeWiped := false
  canEncryptBackup := false
  displayName := []
  cryptoKeyLocation := []
  canFlashImg := false
  hidden := false
  ignoreBlkid := false
  length := 0
  mountToDecrypt := false
  removable := false
  retainLayoutVersion := false
  isSettingsStorage := false
  isStorage := false
  storageName := []
  isSubPartition := false
  subPartitionOf := []
  symlinkPath := []
  useUserdataEncryption := false
  useRmRf := false
  wipeDuringFactoryReset := false
  wipeAvailableInGUI := false
  slotSelect := false
  alternateBlockDevice := []
  keyDirectory := []
  mountFlags := 0
  mountReadOnly := false
  mountOptions := []
  properties := []

/-! ## Mount options -/

def MS_RDONLY : Nat := 1

def mountFlags : List (Str × Nat) :=
  [(text "noatime", 1024), (text "noexec", 8), (text "nosuid", 2), (text "nodev", 4),
    (text "nodiratime", 2048), (text "ro", MS_RDONLY), (text "rw", 0), (text "remount", 32),
    (text "bind", 4096), (text "rec", 16384), (text "unbindable", 2 ^ 17),
    (text "private", 2 ^ 18), (text "slave", 2 ^ 19), (text "shared", 2 ^ 20), (text "sync", 16)]

def ignoredMountItems : List Str :=
  [text "defaults=", text "errors=", text "latemount", text "sysfs_path="]

/-- The characters before the first `=`. -/
def itemName (item : Str) : Str := item.takeWhile (· ≠ equals)

def mountItems (options : Str) : List Str := words (· = comma) options

def addMountOption (p : TWPartition) (item : Str) : TWPartition :=
  { p with
    mountOptions := (if p.mountOptions ≠ [] then p.mountOptions ++ [comma] else p.mountOptions) ++ item }

def processMountItem (p : TWPartition) (item : Str) : TWPartition :=
  if ignoredMountItems.any fun ignored => strncmp item ignored (itemName item).length then p
  else
    match if equals ∉ item then mountFlags.find? (·.1 = item) else none with
    | some (_, flag) =>
      if flag = MS_RDONLY then { p with mountReadOnly := true }
      else { p with mountFlags := p.mountFlags ||| flag }
    | none => addMountOption p item

def processFSFlags (p : TWPartition) (options : Str) : TWPartition :=
  (mountItems options).foldl processMountItem { p with mountOptions := [] }

/-! ## Flags of TWRP -/

/-- `TW_FSTAB_FLAGS`. -/
inductive TWFlag where
  | defaults
  | andsec
  | backup
  | backupname
  | blocksize
  | canbewiped
  | canencryptbackup
  | display
  | encryptable
  | fileencryption
  | flashimg
  | forceencrypt
  | fsflags
  | hidden
  | ignoreblkid
  | length
  | mounttodecrypt
  | removable
  | retainlayoutversion
  | settingsstorage
  | storage
  | storagename
  | subpartitionof
  | symlink
  | userdataencryptbackup
  | usermrf
  | wipeduringfactoryreset
  | wipeingui
  | slotselect
  | wait
  | verify
  | check
  | altdevice
  | notrim
  | voldmanaged
  | formattable
  | resize
  | keydirectory
  | wrappedkey
deriving DecidableEq

def twFlags : List (Str × TWFlag) :=
  [(text "andsec", .andsec), (text "backup", .backup), (text "backupname=", .backupname),
    (text "blocksize=", .blocksize), (text "canbewiped", .canbewiped),
    (text "canencryptbackup", .canencryptbackup), (text "defaults", .defaults),
    (text "display=", .display), (text "encryptable=", .encryptable),
    (text "fileencryption=", .fileencryption), (text "flashimg", .flashimg),
    (text "forceencrypt=", .forceencrypt), (text "fsflags=", .fsflags), (text "hidden", .hidden),
    (text "ignoreblkid", .ignoreblkid), (text "length=", .length),
    (text "mounttodecrypt", .mounttodecrypt), (text "removable", .removable),
    (text "retainlayoutversion", .retainlayoutversion),
    (text "settingsstorage", .settingsstorage), (text "storage", .storage),
    (text "storagename=", .storagename), (text "subpartitionof=", .subpartitionof),
    (text "symlink=", .symlink), (text "userdataencryptbackup", .userdataencryptbackup),
    (text "usermrf", .usermrf), (text "wipeduringfactoryreset", .wipeduringfactoryreset),
    (text "wipeingui", .wipeingui), (text "slotselect", .slotselect), (text "wait", .wait),
    (text "verify", .verify), (text "check", .check), (text "altdevice", .altdevice),
    (text "notrim", .notrim), (text "voldmanaged=", .voldmanaged),
    (text "formattable", .formattable), (text "resize", .resize),
    (text "keydirectory=", .keydirectory), (text "wrappedkey", .wrappedkey)]

def setProperty (p : TWPartition) (key value : Str) : TWPartition :=
  { p with properties := p.properties ++ [(key, value)] }

/-- `Apply_TW_Flag`. -/
def applyTWFlag (p : TWPartition) (flag : TWFlag) (str : Str) (val : Bool) : TWPartition :=
  match flag with
  | .andsec => { p with hasAndroidSecure := val }
  | .backup => { p with canBeBackedUp := val }
  | .backupname => { p with backupDisplayName := str }
  | .blocksize => { p with formatBlockSize := (atol str % 2 ^ 64).toNat }
  | .canbewiped => { p with canBeWiped := val }
  | .canencryptbackup => { p with canEncryptBackup := val }
  | .defaults | .wait | .verify | .check | .notrim | .voldmanaged | .resize => p
  | .display => { p with displayName := str }
  | .encryptable | .forceencrypt => { p with cryptoKeyLocation := str }
  | .fileencryption =>
    if colon ∈ str then
      setProperty (setProperty p (text "fbe.contents") (str.takeWhile (· ≠ colon)))
        (text "fbe.filenames") ((str.dropWhile (· ≠ colon)).drop 1)
    else setProperty (setProperty p (text "fbe.contents") str) (text "fbe.filenames") []
  | .wrappedkey => setProperty p (text "fbe.data.wrappedkey") (text "true")
  | .flashimg => { p with canFlashImg := val }
  | .fsflags => processFSFlags p str
  | .hidden => { p with hidden := val }
  | .ignoreblkid => { p with ignoreBlkid := val }
  | .length => { p with length := atoi str }
  | .mounttodecrypt => { p with mountToDecrypt := val }
  | .removable => { p with removable := val }
  | .retainlayoutversion => { p with retainLayoutVersion := val }
  | .settingsstorage =>
    { p with isSettingsStorage := val, isStorage := if val then true else p.isStorage }
  | .storage => { p with isStorage := val }
  | .storagename => { p with storageName := str }
  | .subpartitionof => { p with isSubPartition := true, subPartitionOf := str }
  | .symlink => { p with symlinkPath := str }
  | .userdataencryptbackup =>
    { p with
      useUserdataEncryption := val
      canEncryptBackup := if val then true else p.canEncryptBackup }
  | .usermrf => { p with useRmRf := val }
  | .wipeduringfactoryreset =>
    { p with
      wipeDuringFactoryReset := val
      canBeWiped := if val then true else p.canBeWiped
      wipeAvailableInGUI := if val then true else p.wipeAvailableInGUI }
  | .wipeingui | .formattable =>
    { p with wipeAvailableInGUI := val, canBeWiped := if val then true else p.canBeWiped }
  | .slotselect => { p with slotSelect := true }
  | .altdevice => { p with alternateBlockDevice := str }
  | .keydirectory => { p with keyDirectory := str }

/-- `Strip_Quotes`. -/
def stripQuotes (str : Str) : Str :=
  let str := if str.head? = some quote then str.drop 1 else str
  if str.getLast? = some quote then str.dropLast else str

/-- `strchr("yY1", c) != NULL`. -/
def isYes (str : Str) : Bool := str.head?.any (· ∈ text "yY1")

/-- What is done for an item. -/
inductive Handled where
  | applied (flag : TWFlag) (str : Str) (val : Bool)
  /-- The flag is known, but its argument is missing. -/
  | skipped
  | unhandled

/-- The table is searched. -/
def matchFlag (ptr : Str) : List (Str × TWFlag) → Handled
  | [] => .unhandled
  | (name, flag) :: table =>
    if strncmp ptr name name.length then
      if ptr.length > name.length ∧ name.getLast? ≠ some equals ∧
          ptr[name.length]? ≠ some equals then
        -- another flag starts with the name of this one
        matchFlag ptr table
      else if ptr.length > name.length ∧ ptr[name.length]? = some equals then
        let ptr := stripQuotes (ptr.drop (name.length + 1))
        if ptr = [] then .skipped else .applied flag ptr (isYes ptr)
      else if ptr.length = name.length ∧ name.getLast? = some equals then .skipped
      else if ptr.length > name.length ∧ name.getLast? = some equals then
        let ptr := stripQuotes (ptr.drop name.length)
        if ptr = [] then .skipped else .applied flag ptr false
      else if ptr.length = name.length then .applied flag ptr true
      else .skipped
    else matchFlag ptr table

def processItem (p : TWPartition) (item : Str) : TWPartition :=
  match matchFlag item twFlags with
  | .applied flag str val => applyTWFlag p flag str val
  | .skipped | .unhandled => p

/-- The separators outside quotes become newlines. -/
def maskSeparators (separator : UInt8) : Bool → Str → Str
  | _, [] => []
  | skip, c :: flags =>
    let skip := if c = quote then !skip else skip
    (if !skip && c == separator then newline else c) :: maskSeparators separator skip flags

def sourceSeparator (fstabVer : Int) : UInt8 := if fstabVer = 2 then comma else semicolon

def processTWFlags (p : TWPartition) (flags : Str) (fstabVer : Int) : TWPartition :=
  (words (· = newline) (maskSeparators (sourceSeparator fstabVer) false flags)).foldl processItem p

end Recovery.Fstab
