import Recovery.Lib.Access
import Recovery.Lib.Search

/-!
# `injecttwrp/injecttwrp.c`

* `scan_file_for_data`, `find_gzip_recovery_ramdisk`, `write_new_ramdisk`,
  `backup_recovery_ramdisk` — as in the source, with the contents of files for their names. A
  `Fault` is an access outside a buffer, and nothing comes of it when the program gives up.
* `BootImage`, `Ramdisk` — a Samsung boot image, and what is put into it.
* `Injected` — what an image with a new ramdisk is to be.
* `getElem?_inject` — the written image, byte for byte.
* `atoi_lenChars_small`, `atoi_lenChars_large` — which lengths are read back.
* `injected_iff` — when injection works; `larger_faults` — a ramdisk with which it does not.
-/

set_option autoImplicit false

namespace Recovery.InjectTwrp

open Recovery.Memory (Access readAt readSlice ok_bind)
open Recovery.Lib

/-! ### The program -/

/-- `recovery_len=`. -/
def needle : List UInt8 := [114, 101, 99, 111, 118, 101, 114, 121, 95, 108, 101, 110, 61]

def gzip_ramdisk : List UInt8 := [0, 0, 0, 0, 0x1f, 0x8b]

/-- The place behind the data. -/
def scan_file_for_data (file data : List UInt8) (start_location : Nat) : Access (Option Nat) :=
  if file.length < start_location then .error .outOfBounds
  else .ok ((memmem file data start_location).map (· + data.length))

def find_gzip_recovery_ramdisk (boot_image : List UInt8) : Access (Option Nat) := do
  let some address1 ← scan_file_for_data boot_image gzip_ramdisk 0 | return none
  let some address2 ← scan_file_for_data boot_image gzip_ramdisk (address1 - 2 + 50) | return none
  return some (address2 - 2)

def digits (n : Nat) : List UInt8 := (Nat.toDigits 10 n).map fun c => UInt8.ofNat c.toNat

/-- `%lu;\n\n`. -/
def lenText (n : Nat) : List UInt8 := digits n ++ [59, 10, 10]

/-- In units of 512 bytes. -/
def ramdisk_len (rlSize : Nat) : Nat :=
  if rlSize % 512 ≠ 0 then rlSize / 512 + 1 else rlSize / 512

/-- The image as it is written: what is before the ramdisk except for one byte, the ramdisk, and
the length. -/
def outImage (bbuffer rbuffer : List UInt8) (start_location offset_table : Nat) : List UInt8 :=
  fwriteAt (fwriteAt (bbuffer.take (start_location - 1)) start_location rbuffer) offset_table
    (lenText (ramdisk_len rbuffer.length))

/-- The buffer for the ramdisk is of the size of the image, and there are 20 bytes for the
length. -/
def write_new_ramdisk (bootimage newramdisk : List UInt8) (start_location : Nat) :
    Access (Option (List UInt8)) := do
  let some offset_table ← scan_file_for_data bootimage needle 0 | return none
  if bootimage.length < newramdisk.length then
    throw .outOfBounds
  else if start_location = 0 ∨ bootimage.length < start_location - 1 then
    throw .outOfBounds
  else if 20 ≤ (lenText (ramdisk_len newramdisk.length)).length then
    throw .outOfBounds
  else
    return some (outImage bootimage newramdisk start_location offset_table)

def isspace (b : UInt8) : Bool := b = 32 || (9 ≤ b && b ≤ 13)

/-- A number ends where something else is; the end of the array is no end. -/
def atoiDigits : Nat → List UInt8 → Access Nat
  | _, [] => .error .outOfBounds
  | n, b :: s => if 48 ≤ b ∧ b ≤ 57 then atoiDigits (n * 10 + (b.toNat - 48)) s else .ok n

def atoi (s : List UInt8) : Access Int :=
  match s.dropWhile isspace with
  | [] => .error .outOfBounds
  | b :: s =>
    if b = 45 then do return - ((← atoiDigits 0 s : Nat) : Int)
    else if b = 43 then do return (← atoiDigits 0 s : Nat)
    else do return (← atoiDigits 0 (b :: s) : Nat)

/-- A `;` becomes the end of the string. -/
def lenChar (b : UInt8) : UInt8 := if b = 59 then 0 else b

def backup_recovery_ramdisk (bootimage : List UInt8) (start_location : Nat) :
    Access (Option (List UInt8)) := do
  let some offset_table ← scan_file_for_data bootimage needle 0 | return none
  let b0 ← readAt bootimage offset_table
  let b1 ← readAt bootimage (offset_table + 1)
  let b2 ← readAt bootimage (offset_table + 2)
  let b3 ← readAt bootimage (offset_table + 3)
  let len ← atoi [lenChar b0, lenChar b1, lenChar b2, lenChar b3]
  let ramdisk ← readSlice bootimage start_location (len * 512 % 2 ^ 64).toNat
  return some ramdisk

/-! ### Images -/

/-- A boot image with a length field before two ramdisks. -/
structure BootImage where
  bytes : List UInt8
  /-- Where `recovery_len=` is. -/
  table : Nat
  number : List UInt8
  /-- How many newlines belong to the length field. -/
  newlines : Nat
  /-- Where the ramdisks are, with the four zeros before them. -/
  first : Nat
  second : Nat
  number_digits : ∀ b ∈ number, 48 ≤ b ∧ b ≤ 57
  table_eq : memmem bytes needle 0 = some table
  field_occurs : Occurs (number ++ 59 :: List.replicate newlines 10) bytes (table + 13)
  field_le : table + 13 + (number.length + 1 + newlines) ≤ first
  first_eq : memmem bytes gzip_ramdisk 0 = some first
  second_eq : memmem bytes gzip_ramdisk (first + 54) = some second

namespace BootImage

variable (image : BootImage)

/-- Behind `recovery_len=`. -/
def offset : Nat := image.table + 13

/-- The bytes of the length field. -/
def width : Nat := image.number.length + 1 + image.newlines

/-- Of the second ramdisk. -/
def start : Nat := image.second + 4

end BootImage

structure Ramdisk where
  bytes : List UInt8
  gzip : [0x1f, 0x8b] <+: bytes

/-- With zeros up to a multiple of 512 bytes. -/
def padded (ramdisk : List UInt8) : List UInt8 :=
  ramdisk ++ List.replicate (ramdisk_len ramdisk.length * 512 - ramdisk.length) 0

/-- What is before the second ramdisk is kept except for the length field, the new one is in its
place and is found there, and it is what the backup is. -/
structure Injected (image : BootImage) (ramdisk : Ramdisk) (out : List UInt8) : Prop where
  kept : ∀ i, i < image.start → ¬ (image.offset ≤ i ∧ i < image.offset + image.width) →
    out[i]? = image.bytes[i]?
  placed : Occurs ramdisk.bytes out image.start
  found : find_gzip_recovery_ramdisk out = .ok (some image.start)
  backup : backup_recovery_ramdisk out image.start = .ok (some (padded ramdisk.bytes))

/-- What is written behind the length field is there already. -/
def Fits (image : BootImage) (n : Nat) : Prop :=
  ∀ k b, image.width ≤ k → (lenText n)[k]? = some b → image.bytes[image.offset + k]? = some b

/-! ### Searching the image -/

theorem scan_eq {file data : List UInt8} {start address : Nat} (hs : start ≤ file.length)
    (h : memmem file data start = some address) :
    scan_file_for_data file data start = .ok (some (address + data.length)) := by
  rw [scan_file_for_data, if_neg (by lia), h]
  rfl

theorem find_eq {file : List UInt8} {first second : Nat}
    (h1 : memmem file gzip_ramdisk 0 = some first)
    (h2 : memmem file gzip_ramdisk (first + 54) = some second) :
    find_gzip_recovery_ramdisk file = .ok (some (second + 4)) := by
  obtain ⟨hle, hocc, -⟩ := (memmem_eq_some (by decide)).1 h2
  have hlt := hocc.lt (by decide)
  rw [find_gzip_recovery_ramdisk, scan_eq (by lia) h1, ok_bind]
  change (scan_file_for_data file gzip_ramdisk (first + 6 - 2 + 50) >>= _) = _
  rw [show first + 6 - 2 + 50 = first + 54 by lia, scan_eq (by lia) h2]
  rfl

namespace BootImage

variable (image : BootImage)

theorem find_start : find_gzip_recovery_ramdisk image.bytes = .ok (some image.start) :=
  find_eq image.first_eq image.second_eq

theorem scan_needle : scan_file_for_data image.bytes needle 0 = .ok (some image.offset) :=
  scan_eq (Nat.zero_le _) image.table_eq

theorem needle_occurs : Occurs needle image.bytes image.table :=
  ((memmem_eq_some (by decide)).1 image.table_eq).2.1

theorem first_occurs : Occurs gzip_ramdisk image.bytes image.first :=
  ((memmem_eq_some (by decide)).1 image.first_eq).2.1

theorem second_occurs : Occurs gzip_ramdisk image.bytes image.second :=
  ((memmem_eq_some (by decide)).1 image.second_eq).2.1

theorem first_le : image.first + 54 ≤ image.second :=
  ((memmem_eq_some (by decide)).1 image.second_eq).1

theorem offset_le : image.offset + image.width ≤ image.first := image.field_le

theorem start_le : image.start + 2 ≤ image.bytes.length := by
  have h := image.second_occurs.length_le
  have hl := image.second_occurs.lt (by decide)
  rw [List.length_drop] at h
  change 6 ≤ _ at h
  unfold start
  lia

end BootImage

theorem Ramdisk.ne_nil (ramdisk : Ramdisk) : ramdisk.bytes ≠ [] := by
  intro h
  have := ramdisk.gzip
  rw [h] at this
  exact absurd (List.prefix_nil.1 this) (by decide)

/-! ### The written length -/

theorem isDigit_of_mem_digits {n : Nat} {b : UInt8} (h : b ∈ digits n) : 48 ≤ b ∧ b ≤ 57 := by
  obtain ⟨c, hc, rfl⟩ := List.mem_map.1 h
  have hd := Nat.isDigit_of_mem_toDigits (by decide) (by decide) hc
  simp only [Char.isDigit, Bool.and_eq_true, decide_eq_true_eq] at hd
  have h1 : 48 ≤ c.toNat := UInt32.le_iff_toNat_le.1 hd.1
  have h2 : c.toNat ≤ 57 := UInt32.le_iff_toNat_le.1 hd.2
  rw [UInt8.le_iff_toNat_le, UInt8.le_iff_toNat_le, UInt8.toNat_ofNat_of_lt' (by
    have : UInt8.size = 256 := rfl
    lia)]
  exact ⟨h1, h2⟩

theorem length_digits_le {n k : Nat} (hk : 0 < k) : (digits n).length ≤ k ↔ n < 10 ^ k := by
  rw [digits, List.length_map]
  exact Nat.length_toDigits_le_iff (by decide) hk

theorem digits_ne_nil (n : Nat) : digits n ≠ [] := by
  rw [digits, Ne, List.map_eq_nil_iff]
  exact Nat.toDigits_ne_nil

theorem length_lenText (n : Nat) : (lenText n).length = (digits n).length + 3 := by
  rw [lenText, List.length_append]
  rfl

theorem lenText_ne_nil (n : Nat) : lenText n ≠ [] := by
  have := length_lenText n
  intro h
  rw [h] at this
  exact absurd this (by simp)

/-- The text looks like no part of what is searched. -/
theorem not_mem_gzip {n : Nat} {b : UInt8} (h : b ∈ lenText n) : b ∉ gzip_ramdisk := by
  have hb : 48 ≤ b ∧ b ≤ 57 ∨ b = 59 ∨ b = 10 := by
    rcases List.mem_append.1 h with h | h
    · exact .inl (isDigit_of_mem_digits h)
    · simp only [List.mem_cons, List.not_mem_nil, or_false] at h
      rcases h with rfl | rfl | rfl <;> decide
  intro hg
  simp only [gzip_ramdisk, List.mem_cons, List.not_mem_nil, or_false] at hg
  rcases hg with rfl | rfl | rfl | rfl | rfl | rfl <;> exact absurd hb (by decide)

/-! ### The written image -/

section

variable {image : BootImage} {ramdisk : Ramdisk} {i : Nat}

/-- What is written for the length. -/
def newLen (ramdisk : Ramdisk) : List UInt8 := lenText (ramdisk_len ramdisk.bytes.length)

/-- What `write_new_ramdisk` makes of an image. -/
def inject (image : BootImage) (ramdisk : Ramdisk) : List UInt8 :=
  outImage image.bytes ramdisk.bytes image.start image.offset

theorem offset_add_lt (ht : (newLen ramdisk).length < 20) :
    image.offset + (newLen ramdisk).length < image.first + 20 := by
  have := image.offset_le
  lia

theorem getElem?_inject (ht : (newLen ramdisk).length < 20) : (inject image ramdisk)[i]? =
    if image.offset ≤ i ∧ i < image.offset + (newLen ramdisk).length then
      (newLen ramdisk)[i - image.offset]?
    else if i < image.start - 1 then image.bytes[i]?
    else if i < image.start then some 0
    else ramdisk.bytes[i - image.start]? := by
  have h1 := image.start_le
  have h2 : image.start = image.second + 4 := rfl
  have h3 := image.first_le
  have h4 : image.offset + (newLen ramdisk).length < image.first + 20 := offset_add_lt ht
  have hlen : (image.bytes.take (image.start - 1)).length = image.start - 1 := by
    rw [List.length_take]
    lia
  have hlen' : (fwriteAt (image.bytes.take (image.start - 1)) image.start ramdisk.bytes).length =
      max (image.start - 1) (image.start + ramdisk.bytes.length) := by
    rw [length_fwriteAt ramdisk.ne_nil, hlen]
  rw [inject, outImage, getElem?_fwriteAt (lenText_ne_nil _)]
  change (if i < image.offset then _ else if i < image.offset + (newLen ramdisk).length then
    (newLen ramdisk)[i - image.offset]? else _) = _
  by_cases htext : image.offset ≤ i ∧ i < image.offset + (newLen ramdisk).length
  · rw [if_neg (by lia), if_pos htext.2, if_pos htext]
  · rw [if_neg htext]
    have hold : (fwriteAt (image.bytes.take (image.start - 1)) image.start ramdisk.bytes)[i]? =
        if i < image.start - 1 then image.bytes[i]? else if i < image.start then some 0
        else ramdisk.bytes[i - image.start]? := by
      rw [getElem?_fwriteAt ramdisk.ne_nil, hlen, List.getElem?_take]
      by_cases ha : i < image.start - 1
      · rw [if_pos (by lia), if_pos ha, if_pos ha, if_pos ha]
      · rw [if_neg ha, if_neg ha, if_neg ha]
        by_cases hb : i < image.start
        · rw [if_pos hb, if_pos hb]
        · rw [if_neg hb, if_neg hb]
          by_cases hc : i < image.start + ramdisk.bytes.length
          · rw [if_pos hc]
          · rw [if_neg hc]
            exact (List.getElem?_eq_none (by lia)).symm
    rw [← hold]
    by_cases hb : i < image.offset
    · rw [if_pos hb, if_pos (by lia)]
    · rw [if_neg hb, if_neg (by lia)]

theorem getElem?_text (ht : (newLen ramdisk).length < 20) (hi : i < (newLen ramdisk).length) :
    (inject image ramdisk)[image.offset + i]? = (newLen ramdisk)[i]? := by
  rw [getElem?_inject ht, if_pos (by lia), Nat.add_sub_cancel_left]

theorem getElem?_start (ht : (newLen ramdisk).length < 20) :
    (inject image ramdisk)[image.start + i]? = ramdisk.bytes[i]? := by
  have h2 : image.start = image.second + 4 := rfl
  have h3 := image.first_le
  have h4 : image.offset + (newLen ramdisk).length < image.first + 20 := offset_add_lt ht
  rw [getElem?_inject ht, if_neg (by lia), if_neg (by lia), if_neg (by lia),
    Nat.add_sub_cancel_left]

/-- The byte that is not written is a zero before and after. -/
theorem getElem?_kept (ht : (newLen ramdisk).length < 20) (hi : i < image.start)
    (htext : ¬ (image.offset ≤ i ∧ i < image.offset + (newLen ramdisk).length)) :
    (inject image ramdisk)[i]? = image.bytes[i]? := by
  have h2 : image.start = image.second + 4 := rfl
  rw [getElem?_inject ht, if_neg htext]
  split
  · rfl
  · rw [show i = image.second + 3 by lia]
    exact (occurs_iff.1 image.second_occurs 3 0 rfl).symm

theorem length_inject (ht : (newLen ramdisk).length < 20) :
    (inject image ramdisk).length = image.start + ramdisk.bytes.length := by
  have h1 := image.start_le
  have h2 : image.start = image.second + 4 := rfl
  have h3 := image.first_le
  have h4 : image.offset + (newLen ramdisk).length < image.first + 20 := offset_add_lt ht
  rw [inject, outImage, length_fwriteAt (lenText_ne_nil _), length_fwriteAt ramdisk.ne_nil,
    List.length_take]
  change max _ (image.offset + (newLen ramdisk).length) = _
  lia

/-! ### What is found in it -/

theorem placed_inject (ht : (newLen ramdisk).length < 20) :
    Occurs ramdisk.bytes (inject image ramdisk) image.start :=
  occurs_iff.2 fun k b hk => by rw [getElem?_start ht, hk]

theorem scan_inject (ht : (newLen ramdisk).length < 20) :
    scan_file_for_data (inject image ramdisk) needle 0 = .ok (some image.offset) := by
  have h0 : image.offset = image.table + 13 := rfl
  have h1 := image.offset_le
  have h2 : image.start = image.second + 4 := rfl
  have h3 := image.first_le
  have hsame : ∀ j, j ≤ image.table → ∀ k, k < needle.length →
      (inject image ramdisk)[j + k]? = image.bytes[j + k]? := by
    intro j hj k hk
    change k < 13 at hk
    exact getElem?_kept ht (by lia) (by lia)
  refine scan_eq (Nat.zero_le _) (memmem_of_occurs (by decide) image.table_eq ?_ ?_)
  · exact image.needle_occurs.congr (hsame _ (Nat.le_refl _))
  · intro j hj hocc
    exact hocc.congr fun k hk => (hsame j (by lia) k hk).symm

/-- What is found is not in the text. -/
theorem occurs_of_inject {j : Nat} (ht : (newLen ramdisk).length < 20) (hj : j + 5 < image.start)
    (h : Occurs gzip_ramdisk (inject image ramdisk) j) : Occurs gzip_ramdisk image.bytes j := by
  refine h.congr fun k hk => (getElem?_kept ht ?_ ?_).symm
  · change k < 6 at hk
    lia
  · rintro ⟨h1, h2⟩
    have hb := occurs_iff.1 h k gzip_ramdisk[k] (List.getElem?_eq_getElem hk)
    rw [show j + k = image.offset + (j + k - image.offset) by lia,
      getElem?_text ht (by lia)] at hb
    exact not_mem_gzip (List.mem_of_getElem? hb) (List.getElem_mem hk)

theorem first_inject (ht : (newLen ramdisk).length < 20)
    (hf : Fits image (ramdisk_len ramdisk.bytes.length)) :
    memmem (inject image ramdisk) gzip_ramdisk 0 = some image.first := by
  have h1 := image.offset_le
  have h2 : image.start = image.second + 4 := rfl
  have h3 := image.first_le
  refine memmem_of_occurs (by decide) image.first_eq ?_ ?_
  · refine image.first_occurs.congr fun k hk => getElem?_kept ht ?_ ?_
    · change k < 6 at hk
      omega
    · rintro ⟨h4, h5⟩
      obtain ⟨b, hb⟩ : ∃ b, (newLen ramdisk)[image.first + k - image.offset]? = some b :=
        ⟨_, List.getElem?_eq_getElem (by omega)⟩
      have hold := hf _ b (by omega) hb
      rw [show image.offset + (image.first + k - image.offset) = image.first + k by omega,
        occurs_iff.1 image.first_occurs k _ (List.getElem?_eq_getElem hk)] at hold
      injection hold with hold
      exact not_mem_gzip (List.mem_of_getElem? hb) (hold ▸ List.getElem_mem hk)
  · intro j hj
    exact occurs_of_inject ht (by omega)

theorem second_inject (ht : (newLen ramdisk).length < 20) :
    memmem (inject image ramdisk) gzip_ramdisk (image.first + 54) = some image.second := by
  have h1 := image.offset_le
  have h2 : image.start = image.second + 4 := rfl
  have h3 := image.first_le
  have hgz : ∀ k b, ([0x1f, 0x8b] : List UInt8)[k]? = some b →
      (inject image ramdisk)[image.start + k]? = some b := by
    intro k b hk
    obtain ⟨rest, hr⟩ := ramdisk.gzip
    rw [getElem?_start ht, ← hr, List.getElem?_append_left (List.getElem?_eq_some_iff.1 hk).1, hk]
  have h4 : image.offset + (newLen ramdisk).length < image.first + 20 := offset_add_lt ht
  refine memmem_of_occurs (by decide) image.second_eq ?_ ?_
  · refine occurs_iff.2 fun k b hk => ?_
    have hold := occurs_iff.1 image.second_occurs k b hk
    by_cases hlt : k < 4
    · rw [getElem?_kept ht (by lia) (by lia), hold]
    · rw [show image.second + k = image.start + (k - 4) by lia]
      have hdrop : ([0x1f, 0x8b] : List UInt8) = gzip_ramdisk.drop 4 := rfl
      refine hgz _ _ ?_
      rw [hdrop, List.getElem?_drop, Nat.add_sub_cancel' (by lia), hk]
  · intro j hj hocc
    by_cases hlast : j + 5 < image.start
    · exact occurs_of_inject ht hlast hocc
    · -- the pattern would end on the first byte of the ramdisk
      have hb := occurs_iff.1 hocc 5 0x8b rfl
      rw [show j + 5 = image.start + 0 by lia, hgz 0 0x1f rfl] at hb
      exact absurd hb (by decide)

theorem found_inject (ht : (newLen ramdisk).length < 20)
    (hf : Fits image (ramdisk_len ramdisk.bytes.length)) :
    find_gzip_recovery_ramdisk (inject image ramdisk) = .ok (some image.start) :=
  find_eq (first_inject ht hf) (second_inject ht)

end

/-! ### Reading the length back -/

/-- What is read of the length. -/
def lenChars (n : Nat) : List UInt8 := ((lenText n).take 4).map lenChar

theorem atoiDigits_fault {s : List UInt8} (h : ∀ b ∈ s, 48 ≤ b ∧ b ≤ 57) (n : Nat) :
    atoiDigits n s = .error .outOfBounds := by
  induction s generalizing n with
  | nil => rfl
  | cons b s ih =>
    rw [atoiDigits, if_pos (h b List.mem_cons_self)]
    exact ih (fun b hb => h b (List.mem_cons_of_mem _ hb)) _

/-- Where all of the array is digits, more is read than there is. -/
theorem atoi_fault {s : List UInt8} (h : ∀ b ∈ s, 48 ≤ b ∧ b ≤ 57) :
    atoi s = .error .outOfBounds := by
  cases s with
  | nil => rfl
  | cons b s =>
    have hb := h b List.mem_cons_self
    have hne : b ≠ 32 ∧ b ≠ 45 ∧ b ≠ 43 := by
      refine ⟨?_, ?_, ?_⟩ <;> rintro rfl <;> exact absurd hb (by decide)
    have hbig : ¬ b ≤ 13 := fun hle => absurd (UInt8.le_trans hb.1 hle) (by decide)
    have hspace : isspace b = false := by simp [isspace, hne.1, hbig]
    rw [atoi, List.dropWhile_cons, hspace]
    change (if b = 45 then _ else if b = 43 then _ else _) = _
    rw [if_neg hne.2.1, if_neg hne.2.2, atoiDigits_fault h]
    rfl

theorem atoi_lenChars_large {n : Nat} (hn : 999 < n) :
    atoi (lenChars n) = .error .outOfBounds := by
  have hlen : 3 < (digits n).length := by
    by_contra hle
    have := (length_digits_le (n := n) (k := 3) (by decide)).1 (by lia)
    lia
  refine atoi_fault fun b hb => ?_
  rw [lenChars, lenText, List.take_append_of_le_length (by lia)] at hb
  obtain ⟨c, hc, rfl⟩ := List.mem_map.1 hb
  have hd := isDigit_of_mem_digits (List.mem_of_mem_take hc)
  have hne : c ≠ 59 := by
    rintro rfl
    exact absurd hd (by decide)
  rw [lenChar, if_neg hne]
  exact hd

theorem atoi_lenChars_small {n : Nat} (hn : n ≤ 999) : atoi (lenChars n) = .ok (n : Int) := by
  have h : ∀ n : Fin 1000, atoi (lenChars n) = .ok (n.val : Int) := by decide +kernel
  exact h ⟨n, by omega⟩

section

variable {image : BootImage} {ramdisk : Ramdisk}

theorem readAt_inject {i : Nat} {b : UInt8} (ht : (newLen ramdisk).length < 20)
    (h : (newLen ramdisk)[i]? = some b) :
    readAt (inject image ramdisk) (image.offset + i) = .ok b := by
  rw [readAt, getElem?_text ht (List.getElem?_eq_some_iff.1 h).1, h]

theorem backup_inject (ht : (newLen ramdisk).length < 20) :
    backup_recovery_ramdisk (inject image ramdisk) image.start = do
      let len ← atoi (lenChars (ramdisk_len ramdisk.bytes.length))
      let r ← readSlice (inject image ramdisk) image.start (len * 512 % 2 ^ 64).toNat
      return some r := by
  have hlen : 4 ≤ (newLen ramdisk).length := by
    have := length_lenText (ramdisk_len ramdisk.bytes.length)
    have := List.length_pos_of_ne_nil (digits_ne_nil (ramdisk_len ramdisk.bytes.length))
    rw [newLen]
    lia
  obtain ⟨b0, b1, b2, b3, rest, h⟩ : ∃ b0 b1 b2 b3 rest,
      newLen ramdisk = b0 :: b1 :: b2 :: b3 :: rest := by
    match newLen ramdisk, hlen with
    | b0 :: b1 :: b2 :: b3 :: rest, _ => exact ⟨b0, b1, b2, b3, rest, rfl⟩
  have hchars : lenChars (ramdisk_len ramdisk.bytes.length) =
      [lenChar b0, lenChar b1, lenChar b2, lenChar b3] := by
    rw [lenChars, ← newLen, h]
    rfl
  have h0 : readAt (inject image ramdisk) image.offset = .ok b0 :=
    readAt_inject (i := 0) ht (by rw [h]; rfl)
  have h1 : readAt (inject image ramdisk) (image.offset + 1) = .ok b1 :=
    readAt_inject ht (by rw [h]; rfl)
  have h2 : readAt (inject image ramdisk) (image.offset + 2) = .ok b2 :=
    readAt_inject ht (by rw [h]; rfl)
  have h3 : readAt (inject image ramdisk) (image.offset + 3) = .ok b3 :=
    readAt_inject ht (by rw [h]; rfl)
  rw [backup_recovery_ramdisk, scan_inject ht, ok_bind]
  dsimp only
  rw [h0, ok_bind, h1, ok_bind, h2, ok_bind, h3, ok_bind, hchars]

theorem readSlice_inject {n : Nat} (ht : (newLen ramdisk).length < 20) (hn : 0 < n) :
    readSlice (inject image ramdisk) image.start n =
      if n ≤ ramdisk.bytes.length then .ok (ramdisk.bytes.take n) else .error .outOfBounds := by
  have hdrop : (inject image ramdisk).drop image.start = ramdisk.bytes := by
    apply List.ext_getElem?
    intro i
    rw [List.getElem?_drop, getElem?_start ht]
  rw [readSlice, length_inject ht, hdrop]
  by_cases hle : n ≤ ramdisk.bytes.length
  · rw [if_pos hle, if_pos (by lia)]
  · rw [if_neg hle, if_neg (by lia)]

theorem backup_iff (ht : (newLen ramdisk).length < 20) :
    backup_recovery_ramdisk (inject image ramdisk) image.start = .ok (some (padded ramdisk.bytes)) ↔
      ramdisk.bytes.length % 512 = 0 ∧ ramdisk.bytes.length / 512 ≤ 999 := by
  have hpos := List.length_pos_of_ne_nil ramdisk.ne_nil
  have hunits : 0 < ramdisk_len ramdisk.bytes.length := by
    rw [ramdisk_len]
    split <;> lia
  rw [backup_inject ht]
  by_cases hbig : ramdisk_len ramdisk.bytes.length ≤ 999
  · have hsize : ((ramdisk_len ramdisk.bytes.length : Int) * 512 % 2 ^ 64).toNat =
        ramdisk_len ramdisk.bytes.length * 512 := by lia
    rw [atoi_lenChars_small hbig, ok_bind, hsize, readSlice_inject ht (by lia)]
    by_cases hmod : ramdisk.bytes.length % 512 = 0
    · have hexact : ramdisk_len ramdisk.bytes.length * 512 = ramdisk.bytes.length := by
        rw [ramdisk_len, if_neg (not_not.2 hmod)]
        lia
      rw [if_pos (Nat.le_of_eq hexact), padded, hexact, List.take_length, Nat.sub_self]
      refine iff_of_true ?_ ⟨hmod, by lia⟩
      rw [List.replicate_zero, List.append_nil]
      rfl
    · have hmore : ramdisk.bytes.length < ramdisk_len ramdisk.bytes.length * 512 := by
        rw [ramdisk_len, if_pos hmod]
        lia
      rw [if_neg (by lia)]
      exact iff_of_false (fun h => nomatch h) fun h => hmod h.1
  · rw [atoi_lenChars_large (by lia)]
    refine iff_of_false (fun h => nomatch h) fun h => hbig ?_
    rw [ramdisk_len, if_neg (not_not.2 h.1)]
    exact h.2

theorem kept_iff (ht : (newLen ramdisk).length < 20) :
    (∀ i, i < image.start → ¬ (image.offset ≤ i ∧ i < image.offset + image.width) →
      (inject image ramdisk)[i]? = image.bytes[i]?) ↔
        Fits image (ramdisk_len ramdisk.bytes.length) := by
  have h2 : image.start = image.second + 4 := rfl
  have h3 := image.first_le
  have h4 : image.offset + (newLen ramdisk).length < image.first + 20 := offset_add_lt ht
  constructor
  · intro h k b hk hb
    have hlt : k < (newLen ramdisk).length := (List.getElem?_eq_some_iff.1 hb).1
    have hold := h (image.offset + k) (by lia) (by lia)
    rw [getElem?_text ht hlt] at hold
    exact hold ▸ hb
  · intro hf i hi hfield
    by_cases htext : image.offset ≤ i ∧ i < image.offset + (newLen ramdisk).length
    · obtain ⟨b, hb⟩ : ∃ b, (newLen ramdisk)[i - image.offset]? = some b :=
        ⟨_, List.getElem?_eq_getElem (by lia)⟩
      have hold := hf _ b (by lia) hb
      rw [Nat.add_sub_cancel' htext.1] at hold
      rw [getElem?_inject ht, if_pos htext, hb, hold]
    · exact getElem?_kept ht hi htext

/-- What is written, where the sizes allow it. -/
theorem write_eq_iff {out : List UInt8} :
    write_new_ramdisk image.bytes ramdisk.bytes image.start = .ok (some out) ↔
      ramdisk.bytes.length ≤ image.bytes.length ∧ (newLen ramdisk).length < 20 ∧
        out = inject image ramdisk := by
  have h1 := image.start_le
  have h2 : image.start = image.second + 4 := rfl
  rw [write_new_ramdisk, image.scan_needle, ok_bind]
  change (if image.bytes.length < ramdisk.bytes.length then _ else
    if image.start = 0 ∨ image.bytes.length < image.start - 1 then _ else
    if 20 ≤ (newLen ramdisk).length then _ else _) = _ ↔ _
  rw [if_neg (c := image.start = 0 ∨ _) (by lia)]
  split
  · exact iff_of_false (fun h => nomatch h) fun h => absurd h.1 (by lia)
  · split
    · exact iff_of_false (fun h => nomatch h) fun h => absurd h.2.1 (by lia)
    · constructor
      · intro h
        injection h with h
        injection h with h
        exact ⟨by lia, by lia, h.symm⟩
      · rintro ⟨-, -, rfl⟩
        rfl

end

/-- Injection works for a ramdisk no longer than the image, of whole units, of which there are at
most 999, where the text of their number fits. -/
theorem injected_iff (image : BootImage) (ramdisk : Ramdisk) :
    (find_gzip_recovery_ramdisk image.bytes = .ok (some image.start) ∧
      ∃ out, write_new_ramdisk image.bytes ramdisk.bytes image.start = .ok (some out) ∧
        Injected image ramdisk out) ↔
      ramdisk.bytes.length ≤ image.bytes.length ∧ ramdisk.bytes.length % 512 = 0 ∧
        ramdisk.bytes.length / 512 ≤ 999 ∧ Fits image (ramdisk.bytes.length / 512) := by
  constructor
  · rintro ⟨-, out, hw, hinj⟩
    obtain ⟨hle, ht, rfl⟩ := write_eq_iff.1 hw
    obtain ⟨hmod, hsmall⟩ := (backup_iff ht).1 hinj.backup
    have hfits := (kept_iff ht).1 hinj.kept
    rw [ramdisk_len, if_neg (not_not.2 hmod)] at hfits
    exact ⟨hle, hmod, hsmall, hfits⟩
  · rintro ⟨hle, hmod, hsmall, hfits⟩
    have hlen : ramdisk_len ramdisk.bytes.length = ramdisk.bytes.length / 512 :=
      if_neg (not_not.2 hmod)
    have ht : (newLen ramdisk).length < 20 := by
      have h3 := (length_digits_le (n := ramdisk.bytes.length / 512) (k := 3) (by decide)).2
        (by omega)
      rw [newLen, hlen, length_lenText]
      omega
    rw [← hlen] at hfits
    exact ⟨image.find_start, _, write_eq_iff.2 ⟨hle, ht, rfl⟩, (kept_iff ht).2 hfits,
      placed_inject ht, found_inject ht hfits, (backup_iff ht).2 ⟨hmod, hsmall⟩⟩

/-! ### A ramdisk that is too large -/

def smallImage : BootImage where
  bytes := needle ++ [49, 59, 10, 10] ++ gzip_ramdisk ++ List.replicate 60 1 ++ gzip_ramdisk ++ [8]
  table := 0
  number := [49]
  newlines := 2
  first := 17
  second := 83
  number_digits := by
    intro b hb
    rw [List.mem_singleton.1 hb]
    decide
  table_eq := by decide +kernel
  field_occurs := by decide +kernel
  field_le := by decide
  first_eq := by decide +kernel
  second_eq := by decide +kernel

def largeRamdisk : Ramdisk where
  bytes := 0x1f :: 0x8b :: List.replicate 126 8
  gzip := by decide

/-- The image has 90 bytes, and so has the buffer, into which 128 are read. -/
theorem larger_faults :
    write_new_ramdisk smallImage.bytes largeRamdisk.bytes smallImage.start = .error .outOfBounds ∧
      ¬ (find_gzip_recovery_ramdisk smallImage.bytes = .ok (some smallImage.start) ∧
        ∃ out, write_new_ramdisk smallImage.bytes largeRamdisk.bytes smallImage.start =
          .ok (some out) ∧ Injected smallImage largeRamdisk out) := by
  have hw : write_new_ramdisk smallImage.bytes largeRamdisk.bytes smallImage.start =
      .error .outOfBounds := by decide +kernel
  refine ⟨hw, ?_⟩
  rintro ⟨-, out, h, -⟩
  rw [hw] at h
  exact nomatch h

end Recovery.InjectTwrp
