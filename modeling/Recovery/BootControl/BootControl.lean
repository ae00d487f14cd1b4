import Recovery.BootControl.BootloaderControl

/-!
# `boot_control.cpp`

The reference boot control module.  What the system answers during one operation is its `Io`.

* `St` — the module's variables and the contents of misc.
* `lazyInitialization`, `markBootSuccessful`, `setActiveBootSlot`, `setSlotAsUnbootable` and the
  queries; `none` when `slot_info` is indexed out of its entries.
* `step` — one operation of a caller.

## The system

An `Io` says which device holds misc, whether the block can be read, what storing it comes to and
which slots have a boot partition.  The module's variables live as long as the process, so `step`
runs in the state that the operations before it have left.
-/

set_option autoImplicit false

namespace Recovery.BootControl

open Recovery.Lib

/-- `offsetof(bootloader_message_ab, slot_suffix)`. -/
def kBootloaderControlOffset : Nat := 2048

def kDefaultBootAttempts : Fin 8 := 7

def kSlotSuffixes : List String := ["_a", "_b", "_c", "_d"]

/-- What `stat` says about a partition. -/
inductive StatResult
  | found
  | missing
  | error
deriving DecidableEq

/-- How the write of the control block ends. -/
inductive SaveResult
  | ok
  /-- Before a byte is written. -/
  | failed
  /-- After `n` bytes. -/
  | torn (n : Nat)
deriving DecidableEq

structure Io where
  /-- `get_bootloader_message_blk_device`; empty when it fails. -/
  device : String
  /-- The control block can be read. -/
  loads : Bool
  save : SaveResult
  stat : String → StatResult

structure St where
  initialized : Bool
  miscDevice : Option String
  numSlots : Nat
  currentSlot : Nat
  misc : List UInt8

/-- `HAL_MODULE_INFO_SYM`. -/
def St.start (misc : List UInt8) : St := ⟨false, none, 0, 0, misc⟩

/-! ## The control block on misc -/

def storedBlock (misc : List UInt8) : Option BootloaderControl :=
  if h : kBootloaderControlOffset + 32 ≤ misc.length then
    some ⟨slice misc kBootloaderControlOffset 32, length_slice h⟩
  else none

/-- `LoadBootloaderControl`. -/
def loadBootloaderControl (miscDevice : Option String) (io : Io) (misc : List UInt8) :
    Option BootloaderControl :=
  if miscDevice.isSome ∧ io.loads then storedBlock misc else none

/-- `UpdateAndSaveBootloaderControl`: whether it succeeds, and misc afterwards. -/
def updateAndSaveBootloaderControl (io : Io) (c : BootloaderControl) (misc : List UInt8) :
    Bool × List UInt8 :=
  match io.save with
  | .ok => (true, splice misc kBootloaderControlOffset c.withCrc.bytes)
  | .failed => (false, misc)
  | .torn n => (false, splice misc kBootloaderControlOffset (c.withCrc.bytes.take n))

/-- The loop over the `boot` partitions: `last_existing_slot` and `first_missing_slot`. -/
def findPartitions (stat : String → StatResult) (basePath : String) : Nat → Int × Int
  | 0 => (-1, -1)
  | slot + 1 =>
    let (last, first) := findPartitions stat basePath slot
    match stat (basePath ++ kSlotSuffixes.getD slot "") with
    | .found => (slot, first)
    | .missing => (last, if first = -1 then slot else first)
    | .error => (last, first)

/-- The path up to the last `/`; `none` without one. -/
def directory (path : String) : Option String :=
  if path.toList.contains '/' then
    some (String.ofList (path.toList.reverse.dropWhile (· ≠ '/')).reverse)
  else none

/-- The `nb_slot` of a default control block. -/
def defaultSlots (io : Io) (miscDevice : String) : Nat :=
  match directory miscDevice with
  | none => kMaxNumSlots
  | some dir =>
    let (last, first) := findPartitions io.stat (dir ++ "boot") kMaxNumSlots
    if (last ≠ -1 ∧ last + 1 = first) ∨ (first = -1 ∧ last + 1 = kMaxNumSlots) then (last + 1).toNat
    else kMaxNumSlots

def defaultEntry (nbSlot currentSlot slot : Nat) : SlotMetadata :=
  { SlotMetadata.zero with
    priority := if slot < nbSlot then 7 else 0
    triesRemaining := if slot < nbSlot then kDefaultBootAttempts else 0
    successfulBoot := decide (currentSlot = slot) }

/-- The text at the start of `size` zeros. -/
def strlcpy (text : String) (size : Nat) : List UInt8 :=
  let bytes := text.toList.map fun c => UInt8.ofNat c.toNat
  (bytes.take (size - 1) ++ List.replicate size 0).take size

/-- `InitDefaultBootloaderControl`. -/
def initDefaultBootloaderControl (io : Io) (miscDevice : String) (currentSlot : Nat) :
    BootloaderControl :=
  let nbSlot := defaultSlots io miscDevice
  let suffix := if currentSlot < kMaxNumSlots then kSlotSuffixes.getD currentSlot "" else ""
  -- suffix, magic, version, slot count, reserved
  let head := strlcpy suffix 4 ++ toLE 4 0x42414342 ++ [1, UInt8.ofNat nbSlot, 0, 0]
  let entries := (List.range kMaxNumSlots).flatMap fun slot =>
    (defaultEntry nbSlot currentSlot slot).bytes
  BootloaderControl.withCrc
    ⟨head ++ entries ++ List.replicate 12 0, by
      simp [head, entries, strlcpy, kMaxNumSlots, List.range, List.range.loop]⟩

def slotSuffixToIndex (suffix : String) : Int :=
  match kSlotSuffixes.findIdx? (· = suffix) with
  | some slot => slot
  | none => -1

/-! ## Operations -/

/-- `BootControl_lazyInitialization`; `prop` is `ro.boot.slot_suffix`. -/
def lazyInitialization (prop : String) (io : Io) (s : St) : Bool × St :=
  if s.initialized then (true, s)
  else
    let s := { s with currentSlot := (slotSuffixToIndex prop % 2 ^ 32).toNat }
    if io.device = "" then (false, s)
    else
      match loadBootloaderControl (some io.device) io s.misc with
      | none => (false, s)
      | some c =>
        let s := { s with miscDevice := some io.device, initialized := true }
        if c.CrcMatches then (true, { s with numSlots := c.nbSlot })
        else
          let c := initDefaultBootloaderControl io io.device s.currentSlot
          -- the result of the save is ignored
          let (_, misc) := updateAndSaveBootloaderControl io c s.misc
          (true, { s with numSlots := c.nbSlot, misc := misc })

/-- What the operations on a slot have in common: load the block, change it, save it. -/
def changeBootloaderControl (change : BootloaderControl → Option BootloaderControl) (io : Io)
    (s : St) : Option (Int × St) :=
  match loadBootloaderControl s.miscDevice io s.misc with
  | none => some (-1, s)
  | some c =>
    match change c with
    | none => none
    | some c =>
      let (ok, misc) := updateAndSaveBootloaderControl io c s.misc
      some (if ok then 0 else -1, { s with misc := misc })

def markBootSuccessful (io : Io) (s : St) : Option (Int × St) :=
  changeBootloaderControl (fun c => c.modifySlotInfo s.currentSlot fun e =>
    { e with successfulBoot := true, triesRemaining := 1 }) io s

def kActivePriority : Fin 16 := 15

def kActiveTries : Fin 8 := 6

/-- A lower priority than the active slot's. -/
def lowerPriority (e : SlotMetadata) : SlotMetadata :=
  if e.priority ≥ kActivePriority then { e with priority := kActivePriority - 1 } else e

/-- The loop of `setActiveBootSlot` over the first `n` slots. -/
def lowerOthers (slot : Nat) : Nat → BootloaderControl → Option BootloaderControl
  | 0, c => some c
  | i + 1, c =>
    match lowerOthers slot i c with
    | none => none
    | some c => if i ≠ slot then c.modifySlotInfo i lowerPriority else some c

/-- The new entry of the active slot. -/
def activate (current : Bool) (e : SlotMetadata) : SlotMetadata :=
  { e with
    priority := kActivePriority
    triesRemaining := kActiveTries
    verityCorrupted := if current then e.verityCorrupted else false }

def setActiveBootSlot (slot : Nat) (io : Io) (s : St) : Option (Int × St) :=
  if slot ≥ kMaxNumSlots ∨ slot ≥ s.numSlots then some (-1, s)
  else
    changeBootloaderControl (fun c =>
      match lowerOthers slot s.numSlots c with
      | none => none
      | some c => c.modifySlotInfo slot (activate (decide (slot = s.currentSlot)))) io s

def setSlotAsUnbootable (slot : Nat) (io : Io) (s : St) : Option (Int × St) :=
  if slot ≥ kMaxNumSlots ∨ slot ≥ s.numSlots then some (-1, s)
  else
    changeBootloaderControl (fun c => c.modifySlotInfo slot fun e =>
      { e with successfulBoot := false, triesRemaining := 0 }) io s

/-- What the queries about a slot have in common. -/
def querySlot (answer : SlotMetadata → Int) (slot : Nat) (io : Io) (s : St) : Option Int :=
  if slot ≥ kMaxNumSlots ∨ slot ≥ s.numSlots then some (-1)
  else
    match loadBootloaderControl s.miscDevice io s.misc with
    | none => some (-1)
    | some c => (c.slotInfo slot).map answer

def isSlotBootable (slot : Nat) (io : Io) (s : St) : Option Int :=
  querySlot (fun e => e.triesRemaining) slot io s

def isSlotMarkedSuccessful (slot : Nat) (io : Io) (s : St) : Option Int :=
  querySlot (fun e => if e.successfulBoot ∧ e.triesRemaining ≠ 0 then 1 else 0) slot io s

def getSuffix (slot : Nat) (s : St) : Option String :=
  if slot ≥ kMaxNumSlots ∨ slot ≥ s.numSlots then none else kSlotSuffixes[slot]?

/-! ## Steps -/

inductive Op
  | lazyInitialization
  | getNumberSlots
  | getCurrentSlot
  | markBootSuccessful
  | setActiveBootSlot (slot : Nat)
  | setSlotAsUnbootable (slot : Nat)
  | isSlotBootable (slot : Nat)
  | isSlotMarkedSuccessful (slot : Nat)
  | getSuffix (slot : Nat)
deriving DecidableEq

/-- What an operation returns. -/
inductive Reply
  | bool (b : Bool)
  | int (r : Int)
  | suffix (text : Option String)
deriving DecidableEq

def step (prop : String) (op : Op) (io : Io) (s : St) : Option (Reply × St) :=
  match op with
  | .lazyInitialization => some ((lazyInitialization prop io s).map .bool id)
  | .getNumberSlots => some (.int s.numSlots, s)
  | .getCurrentSlot => some (.int s.currentSlot, s)
  | .markBootSuccessful => (markBootSuccessful io s).map (Prod.map .int id)
  | .setActiveBootSlot slot => (setActiveBootSlot slot io s).map (Prod.map .int id)
  | .setSlotAsUnbootable slot => (setSlotAsUnbootable slot io s).map (Prod.map .int id)
  | .isSlotBootable slot => (isSlotBootable slot io s).map fun r => (.int r, s)
  | .isSlotMarkedSuccessful slot => (isSlotMarkedSuccessful slot io s).map fun r => (.int r, s)
  | .getSuffix slot => some (.suffix (getSuffix slot s), s)

end Recovery.BootControl
