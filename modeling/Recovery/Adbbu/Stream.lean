import Recovery.Lib.LittleEndian
import Recovery.Lib.Splice

/-!
# The units of an adb backup stream (`twadbstream.h`)

* `Block` — 512 bytes, the size of every structure of the stream and of every read from it.
* `Block.getType` and the field accessors — the structures as the code overlays them on a block.
* `Block.put` — a block with some of its bytes overwritten.

The `crc32` of zlib and MD5 are parameters (`Checksums`); a running `crc32` over several pieces
is that of their concatenation.  `crc32` is an instance for examples.

The fields overlap, since three structures share the first bytes; the lemmas on `put` say which
field survives a store to another one.
-/

set_option autoImplicit false

namespace Recovery.Adbbu

open Recovery.Lib

/-- Bytes to read from the adb stream at a time. -/
def MAX_ADB_READ : Nat := 512

/-- Size of a data chunk with its header. -/
def DATA_MAX_CHUNK_SIZE : Nat := 1048576

def ascii (s : String) : List UInt8 := s.toList.map fun c => UInt8.ofNat c.toNat

/-! ## Control types -/

def TWRP : List UInt8 := ascii "TWRP"
def TWSTREAMHDR : List UInt8 := ascii "twstreamheader"
def TWFN : List UInt8 := ascii "twfilename"
def TWIMG : List UInt8 := ascii "twimage"
def TWEOF : List UInt8 := ascii "tweof"
def MD5TRAILER : List UInt8 := ascii "md5trailer"
def TWDATA : List UInt8 := ascii "twdatablock"
def TWMD5 : List UInt8 := ascii "twverifymd5"
def TWENDADB : List UInt8 := ascii "twendadb"
def TWERROR : List UInt8 := ascii "twerror"

structure Checksums where
  /-- `crc32(crc32(0L, Z_NULL, 0), ..)`. -/
  crc32 : List UInt8 → UInt32
  /-- `return_digest_string()` of a digest fed with these bytes since `init()`. -/
  md5 : List UInt8 → List UInt8

/-- One bit of the CRC-32 of zlib. -/
def crcBit (c : Nat) : Nat := if c % 2 = 1 then c / 2 ^^^ 0xEDB88320 else c / 2

def crcByte (c : Nat) (b : UInt8) : Nat := Nat.repeat crcBit 8 (c ^^^ b.toNat)

/-- The register after some bytes; the match makes the kernel evaluate it byte by byte. -/
def crcBytes : Nat → List UInt8 → Nat
  | c, [] => c
  | 0, b :: bytes => crcBytes (crcByte 0 b) bytes
  | c + 1, b :: bytes => crcBytes (crcByte (c + 1) b) bytes

/-- `crc32` bit by bit, for examples. -/
def crc32 (bytes : List UInt8) : UInt32 :=
  UInt32.ofNat (crcBytes 0xFFFFFFFF bytes ^^^ 0xFFFFFFFF)

example : crc32 (ascii "123456789") = 0xCBF43926 := by decide +kernel

/-! ## Blocks -/

structure Block where
  bytes : List UInt8
  size : bytes.length = MAX_ADB_READ
  deriving DecidableEq

namespace Block

/-- `memset(.., 0, sizeof(..))`. -/
def zero : Block := ⟨List.replicate MAX_ADB_READ 0, List.length_replicate⟩

def field (b : Block) (off len : Nat) : List UInt8 := (b.bytes.drop off).take len

/-- The block with `data` at `off`; what would stand behind the end is cut off. -/
def put (b : Block) (off : Nat) (data : List UInt8) : Block :=
  ⟨(b.bytes.take off ++ data ++ b.bytes.drop (off + data.length)).take MAX_ADB_READ, by
    have := b.size
    simp only [List.length_take, List.length_append, List.length_drop]
    omega⟩

/-- `strncpy(dst, src, n)`. -/
def strncpy (src : List UInt8) (n : Nat) : List UInt8 := (src ++ List.replicate n 0).take n

/-- `get_type()`: at most 15 of the 16 bytes of `type`, up to the first NUL. -/
def getType (b : Block) : List UInt8 := (b.field 8 15).takeWhile (· ≠ 0)

/-- `ident` of `AdbBackupFileTrailer`. -/
def ident (b : Block) : Nat := ofLE (b.field 28 4)

/-- `size` of `twfilehdr`. -/
def fileSize (b : Block) : Nat := ofLE (b.field 24 8)

/-- `compressed` of `twfilehdr`. -/
def compressed (b : Block) : Nat := ofLE (b.field 32 8)

/-- `memset` of a 32-bit field. -/
def clear32 (b : Block) (off : Nat) : Block := b.put off (List.replicate 4 0)

/-! ### Fields of a block that was overwritten -/

variable {b : Block} {off : Nat} {data : List UInt8}

theorem put_bytes (h : off + data.length ≤ MAX_ADB_READ) :
    (b.put off data).bytes = splice b.bytes off data := by
  have hsize := b.size
  have hlen : (splice b.bytes off data).length = MAX_ADB_READ :=
    (length_splice (hsize ▸ h)).trans hsize
  exact List.take_of_length_le (Nat.le_of_eq hlen)

theorem field_put (h : off + data.length ≤ MAX_ADB_READ) :
    (b.put off data).field off data.length = data := by
  show slice (b.put off data).bytes off data.length = data
  rw [put_bytes h, slice_splice_self (b.size ▸ h)]

theorem field_put_of_disjoint {off' len : Nat} (h : off + data.length ≤ MAX_ADB_READ)
    (hd : off' + len ≤ off ∨ off + data.length ≤ off') :
    (b.put off data).field off' len = b.field off' len := by
  show slice (b.put off data).bytes off' len = slice b.bytes off' len
  rw [put_bytes h, slice_splice_of_disjoint (b.size ▸ h) hd]

theorem put_put {data' : List UInt8} (h : off + data.length ≤ MAX_ADB_READ)
    (hlen : data'.length = data.length) : (b.put off data).put off data' = b.put off data' := by
  have hbytes : ((b.put off data).put off data').bytes = (b.put off data').bytes := by
    rw [put_bytes (hlen ▸ h), put_bytes h, put_bytes (hlen ▸ h), splice_splice (b.size ▸ h) hlen]
  exact Block.mk.injEq .. ▸ hbytes

theorem put_field {len : Nat} (h : off + len ≤ MAX_ADB_READ) : b.put off (b.field off len) = b := by
  have hlen : (b.field off len).length = len := length_slice (b.size ▸ h)
  have hbytes : (b.put off (b.field off len)).bytes = b.bytes := by
    rw [put_bytes (hlen.symm ▸ h)]
    exact splice_slice (b.size ▸ h)
  exact Block.mk.injEq .. ▸ hbytes

/-- The type stands before the checksums. -/
theorem getType_put (h : off + data.length ≤ MAX_ADB_READ) (hoff : 23 ≤ off) :
    (b.put off data).getType = b.getType := by
  rw [getType, field_put_of_disjoint h (.inl hoff), getType]

/-- A structure with the magic value and a type, the rest zero. -/
def typed (type : List UInt8) : Block := (zero.put 0 (strncpy TWRP 8)).put 8 (strncpy type 16)

end Block

/-- A control structure as `libtwadbbu.cpp` writes it: the crc is that of the structure with a
zero `crc` field. -/
def controlBlock (cs : Checksums) (type : List UInt8) : Block :=
  (Block.typed type).put 24 (toLE 4 (cs.crc32 (Block.typed type).bytes).toNat)

theorem getType_controlBlock (cs : Checksums) (type : List UInt8) :
    (controlBlock cs type).getType = (Block.typed type).getType := by
  unfold controlBlock
  apply Block.getType_put
  · rw [length_toLE]
    decide
  · decide

theorem getType_twdata (cs : Checksums) : (controlBlock cs TWDATA).getType = TWDATA := by
  rw [getType_controlBlock]
  decide +kernel

theorem getType_tweof (cs : Checksums) : (controlBlock cs TWEOF).getType = TWEOF := by
  rw [getType_controlBlock]
  decide +kernel

/-- The reader's test of a control structure's crc. -/
def crcMatches (cs : Checksums) (b : Block) (off : Nat) : Bool :=
  (cs.crc32 (b.clear32 off).bytes).toNat == ofLE (b.field off 4)

/-- The bytes of a list of blocks. -/
def bytesOf (blocks : List Block) : List UInt8 := blocks.flatMap Block.bytes

theorem length_bytesOf (blocks : List Block) :
    (bytesOf blocks).length = MAX_ADB_READ * blocks.length := by
  induction blocks with
  | nil => rfl
  | cons b blocks ih =>
    rw [bytesOf, List.flatMap_cons, List.length_append, b.size, List.length_cons, Nat.mul_succ]
    rw [bytesOf] at ih
    lia

@[simp] theorem bytesOf_append (blocks blocks' : List Block) :
    bytesOf (blocks ++ blocks') = bytesOf blocks ++ bytesOf blocks' := List.flatMap_append

end Recovery.Adbbu
