import Recovery.Lib.LittleEndian
import Recovery.Lib.Splice

/-!
# The A/B control block

`bootloader_control` of `bootloader_message.h`, as the 32 bytes it has in memory and on misc.

* `SlotMetadata` — an entry, with its bit fields; `ofBytes_bytes` — its two bytes.
* `BootloaderControl.slotInfo`, `modifySlotInfo` — reading and changing an entry; `none` when
  `slot_info` is indexed out of its four entries.
* `OnlySlots` — two blocks that differ in some entries only.
* `crc32`, `withCrc` — the checksum over the first 28 bytes.

Reserved fields are kept as they are on misc, so a block that is read and stored again is the
same, up to its checksum.
-/

set_option autoImplicit false

namespace Recovery.BootControl

open Recovery.Lib

def kMaxNumSlots : Nat := 4

/-! ## `CRC32` -/

/-- One of the eight rounds for an entry of `crc_table`. -/
def crcRound (crc : UInt32) : UInt32 :=
  let mask := 0 - (crc &&& 1)
  (crc >>> 1) ^^^ (0xEDB88320 &&& mask)

/-- `crc_table[i]`. -/
def crcTable (i : UInt32) : UInt32 := crcRound^[8] i

def crc32 (buf : List UInt8) : UInt32 :=
  ~~~ buf.foldl (fun ret b => (ret >>> 8) ^^^ crcTable ((ret ^^^ b.toUInt32) &&& 0xFF)) 0xFFFFFFFF

/-! ## Entries -/

/-- The bit fields are not empty. -/
scoped instance neZeroTries : NeZero 8 := ⟨by decide⟩

scoped instance neZeroPriority : NeZero 16 := ⟨by decide⟩

scoped instance neZeroReserved : NeZero 128 := ⟨by decide⟩

structure SlotMetadata where
  priority : Fin 16
  triesRemaining : Fin 8
  successfulBoot : Bool
  verityCorrupted : Bool
  reserved : Fin 128
deriving DecidableEq

namespace SlotMetadata

def zero : SlotMetadata := ⟨0, 0, false, false, 0⟩

/-- The bit fields from the least significant bit on. -/
def bytes (e : SlotMetadata) : List UInt8 :=
  [UInt8.ofNat (e.priority + 16 * e.triesRemaining + 128 * e.successfulBoot.toNat),
    UInt8.ofNat (e.verityCorrupted.toNat + 2 * e.reserved)]

def ofBytes (bs : List UInt8) : SlotMetadata :=
  let first := (bs.getD 0 0).toNat
  let second := (bs.getD 1 0).toNat
  { priority := Fin.ofNat 16 first
    triesRemaining := Fin.ofNat 8 (first / 16)
    successfulBoot := decide (first / 128 = 1)
    verityCorrupted := decide (second % 2 = 1)
    reserved := Fin.ofNat 128 (second / 2) }

@[simp] theorem length_bytes (e : SlotMetadata) : e.bytes.length = 2 := rfl

@[simp] theorem ofBytes_bytes (e : SlotMetadata) : ofBytes e.bytes = e := by
  obtain ⟨p, t, s, v, r⟩ := e
  have hp := p.isLt
  have ht := t.isLt
  have hr := r.isLt
  have hs : s.toNat ≤ 1 := Bool.toNat_le s
  have hv : v.toNat ≤ 1 := Bool.toNat_le v
  simp only [ofBytes, bytes, List.getD_cons_zero, List.getD_cons_succ, UInt8.toNat_ofNat',
    SlotMetadata.mk.injEq]
  refine ⟨?_, ?_, ?_, ?_, ?_⟩
  · apply Fin.ext
    simp only [Fin.ofNat]
    omega
  · apply Fin.ext
    simp only [Fin.ofNat]
    omega
  · cases s with
    | false => simp only [Bool.toNat_false, decide_eq_false_iff_not]; omega
    | true => simp only [Bool.toNat_true, decide_eq_true_eq]; omega
  · cases v with
    | false => simp only [Bool.toNat_false, decide_eq_false_iff_not]; omega
    | true => simp only [Bool.toNat_true, decide_eq_true_eq]; omega
  · apply Fin.ext
    simp only [Fin.ofNat]
    omega

end SlotMetadata

/-! ## The block -/

structure BootloaderControl where
  bytes : List UInt8
  length_eq : bytes.length = 32

/-- Offset of `slot_info[i]`. -/
def slotOffset (i : Nat) : Nat := 12 + 2 * i

/-- Offset of `crc32_le`. -/
def crcOffset : Nat := 28

namespace BootloaderControl

/-- The bit field `nb_slot`. -/
def nbSlot (c : BootloaderControl) : Nat := (c.bytes.getD 9 0).toNat % 8

/-- `slot_info[i]`, for an index in range. -/
def entry (c : BootloaderControl) (i : Nat) : SlotMetadata :=
  .ofBytes (slice c.bytes (slotOffset i) 2)

def slotInfo (c : BootloaderControl) (i : Nat) : Option SlotMetadata :=
  if i < kMaxNumSlots then some (c.entry i) else none

def modifySlotInfo (c : BootloaderControl) (i : Nat) (f : SlotMetadata → SlotMetadata) :
    Option BootloaderControl :=
  if h : i < kMaxNumSlots then
    some ⟨splice c.bytes (slotOffset i) (f (c.entry i)).bytes, by
      rw [length_splice, c.length_eq]
      rw [c.length_eq, SlotMetadata.length_bytes, slotOffset]
      unfold kMaxNumSlots at h
      omega⟩
  else none

/-- `BootloaderControlLECRC`. -/
def leCrc (c : BootloaderControl) : List UInt8 := toLE 4 (crc32 (c.bytes.take crcOffset)).toNat

/-- `buffer->crc32_le = BootloaderControlLECRC(buffer)`. -/
def withCrc (c : BootloaderControl) : BootloaderControl :=
  ⟨splice c.bytes crcOffset c.leCrc, by
    have hlen : c.leCrc.length = 4 := length_toLE _ _
    have h32 := c.length_eq
    rw [length_splice]
    · exact h32
    · rw [hlen, h32]
      decide⟩

/-- The stored CRC is that of the block. -/
def CrcMatches (c : BootloaderControl) : Prop := slice c.bytes crcOffset 4 = c.leCrc

instance (c : BootloaderControl) : Decidable c.CrcMatches := by
  unfold CrcMatches
  infer_instance

theorem crcMatches_withCrc (c : BootloaderControl) : c.withCrc.CrcMatches := by
  have hlen : c.leCrc.length = 4 := length_toLE _ _
  have h32 := c.length_eq
  have htake : c.withCrc.bytes.take crcOffset = c.bytes.take crcOffset := by
    have hbytes : c.withCrc.bytes = splice c.bytes crcOffset c.leCrc := rfl
    rw [hbytes, splice, List.append_assoc, List.take_append_of_le_length]
    · rw [List.take_take, Nat.min_self]
    · rw [List.length_take, h32]
      decide
  unfold CrcMatches
  rw [leCrc, htake, ← leCrc]
  have hroom : crcOffset + c.leCrc.length ≤ c.bytes.length := by
    rw [hlen, h32]
    decide
  have hself := slice_splice_self hroom
  rwa [hlen] at hself

/-! ## What changes -/

/-- The blocks differ in the entries `slots` and in the CRC only. -/
def OnlySlots (slots : List Nat) (c c' : BootloaderControl) : Prop :=
  ∀ p n, (∀ i ∈ slots, p + n ≤ slotOffset i ∨ slotOffset i + 2 ≤ p) →
    (p + n ≤ crcOffset ∨ crcOffset + 4 ≤ p) → slice c'.bytes p n = slice c.bytes p n

theorem OnlySlots.refl (slots : List Nat) (c : BootloaderControl) : OnlySlots slots c c :=
  fun _ _ _ _ => rfl

theorem OnlySlots.trans {slots : List Nat} {a b c : BootloaderControl} (h : OnlySlots slots a b)
    (h' : OnlySlots slots b c) : OnlySlots slots a c := by
  intro p n hslots hcrc
  rw [h' p n hslots hcrc, h p n hslots hcrc]

theorem OnlySlots.mono {slots slots' : List Nat} {c c' : BootloaderControl}
    (h : OnlySlots slots c c') (hsub : ∀ i ∈ slots, i ∈ slots') : OnlySlots slots' c c' := by
  intro p n hslots hcrc
  apply h p n _ hcrc
  intro i hi
  exact hslots i (hsub i hi)

/-- An entry that is not among the changed ones. -/
theorem OnlySlots.entry {slots : List Nat} {c c' : BootloaderControl} (h : OnlySlots slots c c')
    {i : Nat} (hi : i < kMaxNumSlots) (hnot : i ∉ slots) : c'.entry i = c.entry i := by
  unfold BootloaderControl.entry
  rw [h]
  · intro j hj
    have hne : i ≠ j := fun heq => hnot (heq ▸ hj)
    unfold slotOffset
    lia
  · unfold slotOffset crcOffset
    unfold kMaxNumSlots at hi
    lia

/-- **Changing an entry** changes that entry and no other byte. -/
theorem modifySlotInfo_spec (c : BootloaderControl) {i : Nat} (hi : i < kMaxNumSlots)
    (f : SlotMetadata → SlotMetadata) : ∃ c', c.modifySlotInfo i f = some c' ∧
      c'.entry i = f (c.entry i) ∧ OnlySlots [i] c c' := by
  have hroom : slotOffset i + (f (c.entry i)).bytes.length ≤ c.bytes.length := by
    rw [c.length_eq, SlotMetadata.length_bytes, slotOffset]
    unfold kMaxNumSlots at hi
    omega
  unfold modifySlotInfo
  rw [dif_pos hi]
  refine ⟨_, rfl, ?_, ?_⟩
  · have hself := slice_splice_self hroom
    rw [SlotMetadata.length_bytes] at hself
    unfold entry at hself ⊢
    rw [hself, SlotMetadata.ofBytes_bytes]
  · intro p n hslots hcrc
    apply slice_splice_of_disjoint hroom
    rw [SlotMetadata.length_bytes]
    exact hslots i (List.mem_singleton_self i)

theorem onlySlots_withCrc (c : BootloaderControl) : OnlySlots [] c c.withCrc := by
  intro p n _ hcrc
  have hlen : c.leCrc.length = 4 := length_toLE _ _
  apply slice_splice_of_disjoint
  · rw [hlen, c.length_eq]
    decide
  · rw [hlen]
    exact hcrc

end BootloaderControl

end Recovery.BootControl
