import Recovery.Lib.Scanf
import Recovery.Lib.Splice
import Recovery.OtaUtil.AndroidBase

/-!
# The reader of a block map (`otautil/SysUtil.cpp`)

* `Vm` — what the reader gets from the system: the size of a page, the block devices by name and
  whether address space can be reserved.
* `MemMapping.mapBlockFile` — `MapBlockFile`, from the text of the map to the memory that it maps.

A fixed mapping fails where its address or its offset is not a multiple of the page size.  The
reservation starts on a page.  `size_t` and `off_t` have 64 bits.

The lines of the map are read in the order of the source, each check with the failure it leads to;
ownership of what was mapped is the subject of `OtaUtil.MapOwnership`.
-/

set_option autoImplicit false

namespace Recovery.OtaUtil

open Recovery.Lib

structure Vm where
  pageSize : Nat
  openDevice : String → Option (List UInt8)
  /-- `mmap` reserves this many bytes. -/
  reserves : Nat → Bool

structure MemMapping where
  /-- The bytes from `addr` on. -/
  mem : List UInt8
  length : Nat
  /-- `ranges_`: where in the reservation each range is mapped, and its length. -/
  ranges : List (Nat × Nat)

namespace MemMapping

variable (B : AndroidBase) (V : Vm)

/-- `mmap` of `len` bytes of the device from `offset` on, at `next` bytes into the reservation. -/
def mmapFixed (device : List UInt8) (next len offset : Nat) : Option (List UInt8) :=
  if V.pageSize ∣ next ∧ V.pageSize ∣ offset then some (slice device offset len) else none

/-- The loop over the ranges, `next` bytes into the reservation and with `remaining` to map. -/
def mapRanges (device : List UInt8) (blksize : Nat) :
    List String → Nat → Nat → Option (List UInt8 × List (Nat × Nat))
  | [], _, remaining => if remaining ≠ 0 then none else some ([], [])
  | line :: lines, next, remaining => do
    let (start, stop) ← scanTwo line.toList
    let rangeSize := (stop - start) * blksize
    if stop ≤ start ∨ stop - start > SIZE_MAX / blksize ∨ rangeSize > remaining then none
    else
      let bytes ← mmapFixed V device next rangeSize (start * blksize % 2 ^ 64)
      let (mem, ranges) ← mapRanges device blksize lines (next + rangeSize) (remaining - rangeSize)
      return (bytes ++ mem, (next, rangeSize) :: ranges)

/-- `MapBlockFile` of a file with this content. -/
def mapBlockFile (content : String) : Option MemMapping :=
  match B.split (B.trim content) "\n" with
  | blockDev :: sizes :: count :: lines => do
    if lines = [] then none
    else
      let (size, blksize) ← scanTwo sizes.toList
      let (rangeCount, _) ← scanZu count.toList
      let blocks := (size - 1) / blksize + 1
      if size = 0 ∨ blksize = 0 ∨ blocks > SIZE_MAX / blksize ∨ rangeCount = 0 ∨
          lines.length ≠ rangeCount then none
      else if V.reserves (blocks * blksize) then do
        let device ← V.openDevice blockDev
        let (mem, ranges) ← mapRanges V device blksize lines 0 (blocks * blksize)
        return { mem := mem, length := size, ranges := ranges }
      else none
  | _ => none

end MemMapping

end Recovery.OtaUtil
