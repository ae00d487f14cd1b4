import Mathlib.Data.List.TakeWhile
import Recovery.Gui.TerminalBounds

/-!
# Packing and unpacking a line of the terminal

* `decode_lead`, `decode_cont` — the decoder on one byte of an encoding.
* `decodeCells_lost` — after a byte that is not accepted, nothing is decoded any more.
* `decodeCells_utf8add`, `decodeCells_overlong` — an encoding is decoded, unless it has a byte too
  many for its code point.
* `unpack_pack_iff` — the lines that come back.

A line that the cursor leaves is packed to UTF-8, and unpacked when the cursor comes back.  The
encoder compares with `<` where `<=` is meant, so the largest code point of each length gets a form
that the decoder refuses (`del_lost`).
-/

set_option autoImplicit false

namespace Recovery.Gui

open Recovery.Lib

/-! ## Bytes of an encoding -/

/-- The bytes of an encoding behind the first, by their six bits. -/
def cont (k : Nat) : UInt8 := UInt8.ofNat (0x80 + k)

def leadMark (mark a : Nat) : UInt8 := UInt8.ofNat (mark + a)

theorem contByte_eq (cp shift : UInt32) :
    contByte cp shift = cont (cp.toNat / 2 ^ (shift.toNat % 32) % 64) := by
  have hor : ∀ k < 64, 128 ||| k = 128 + k := by decide
  have hlt : cp.toNat / 2 ^ (shift.toNat % 32) % 64 < 64 := Nat.mod_lt _ (by decide)
  have hand (n : Nat) : n &&& 63 = n % 64 := Nat.and_two_pow_sub_one_eq_mod n 6
  apply UInt8.toNat_inj.1
  rw [contByte, cont, UInt32.toNat_toUInt8, UInt32.toNat_or, UInt32.toNat_and,
    UInt32.toNat_shiftRight, Nat.shiftRight_eq_div_pow]
  show (128 ||| (_ &&& 63)) % 2 ^ 8 = _
  rw [hand, hor _ hlt, UInt8.toNat_ofNat']

theorem leadByte_eq {mark cp shift : UInt32} {a : Nat} (ha : cp.toNat / 2 ^ (shift.toNat % 32) = a)
    (hor : mark.toNat ||| a = mark.toNat + a) : leadByte mark cp shift = leadMark mark.toNat a := by
  apply UInt8.toNat_inj.1
  rw [leadByte, leadMark, UInt32.toNat_toUInt8, UInt32.toNat_or, UInt32.toNat_shiftRight,
    Nat.shiftRight_eq_div_pow, ha, hor, UInt8.toNat_ofNat']

/-- The state after a byte. -/
def nextState (state : Nat) (byte : UInt8) : Nat :=
  utf8d.getD (256 + state * 16 + utf8d.getD byte.toNat 0) 0

theorem decode_cont {state : Nat} {cp : UInt32} {k : Nat} (hstate : state ≠ UTF8_ACCEPT)
    (hk : k < 64) (hcp : cp.toNat < 2 ^ 26) :
    utf8decode state cp (cont k) = (nextState state (cont k), UInt32.ofNat (cp.toNat * 64 + k)) := by
  have hbits : ∀ k < 64, (cont k).toUInt32 &&& 0x3f = UInt32.ofNat k := by decide
  have hor : UInt32.ofNat k ||| cp <<< (6 : UInt32) = UInt32.ofNat (cp.toNat * 64 + k) := by
    have hshift : cp.toNat <<< 6 = cp.toNat * 64 := Nat.shiftLeft_eq _ 6
    apply UInt32.toNat_inj.1
    rw [UInt32.toNat_or, UInt32.toNat_shiftLeft, UInt32.toNat_ofNat', UInt32.toNat_ofNat']
    show k % 2 ^ 32 ||| cp.toNat <<< 6 % 2 ^ 32 = _
    rw [Nat.mod_eq_of_lt (a := k) (by omega), Nat.mod_eq_of_lt (a := cp.toNat <<< 6) (by omega),
      Nat.mod_eq_of_lt (by omega), Nat.or_comm, ← Nat.shiftLeft_add_eq_or_of_lt (by omega), hshift]
  unfold utf8decode nextState
  dsimp only
  rw [if_pos hstate, hbits k hk, hor]

/-- The state after the first byte of three. -/
def threeState (a : Nat) : Nat := if a = 0 then 4 else if a = 13 then 5 else 3

/-- The state after the first byte of four. -/
def fourState (a : Nat) : Nat := if a = 0 then 6 else if a = 4 then 8 else 7

theorem decode_lead (cp : UInt32) :
    (∀ a < 128, utf8decode UTF8_ACCEPT cp (leadMark 0 a) = (UTF8_ACCEPT, UInt32.ofNat a)) ∧
      (∀ a < 32, 2 ≤ a → utf8decode UTF8_ACCEPT cp (leadMark 0xc0 a) = (2, UInt32.ofNat a)) ∧
      (∀ a < 16, utf8decode UTF8_ACCEPT cp (leadMark 0xe0 a) = (threeState a, UInt32.ofNat a)) ∧
      ∀ a < 5, utf8decode UTF8_ACCEPT cp (leadMark 0xf0 a) = (fourState a, UInt32.ofNat a) := by
  have hany (byte : UInt8) : utf8decode UTF8_ACCEPT cp byte = utf8decode UTF8_ACCEPT 0 byte := rfl
  simp only [hany]
  decide +kernel

/-- The states behind the first byte. -/
theorem nextState_cont :
    (∀ k < 64, nextState 2 (cont k) = UTF8_ACCEPT) ∧ (∀ k < 64, nextState 3 (cont k) = 2) ∧
      (∀ k < 64, 32 ≤ k → nextState 4 (cont k) = 2) ∧ (∀ k < 32, nextState 5 (cont k) = 2) ∧
      (∀ k < 64, 16 ≤ k → nextState 6 (cont k) = 3) ∧ (∀ k < 64, nextState 7 (cont k) = 3) ∧
      ∀ k < 16, nextState 8 (cont k) = 3 := by
  decide +kernel

/-! ## The loop -/

open TerminalEngine

variable {state : Nat} {cp : UInt32} {byte : UInt8} {bytes : List UInt8}

theorem decodeCells_accept {c : UInt32} (h : utf8decode state cp byte = (UTF8_ACCEPT, c)) :
    decodeCells (byte :: bytes) state cp = c :: decodeCells bytes UTF8_ACCEPT c := by
  rw [decodeCells, h]
  exact if_pos rfl

theorem decodeCells_more {state' : Nat} {c : UInt32} (h : utf8decode state cp byte = (state', c))
    (hne : state' ≠ UTF8_ACCEPT) :
    decodeCells (byte :: bytes) state cp = decodeCells bytes state' c := by
  rw [decodeCells, h]
  exact if_neg hne

/-- **The rest of the line is lost** after a byte that is not accepted. -/
theorem decodeCells_lost (bytes : List UInt8) (cp : UInt32) :
    decodeCells bytes UTF8_REJECT cp = [] := by
  induction bytes generalizing cp with
  | nil => rfl
  | cons byte bytes ih =>
    have hsticky : ∀ k < 256, utf8d.getD (256 + UTF8_REJECT * 16 + utf8d.getD k 0) 0 = UTF8_REJECT := by
      decide +kernel
    obtain ⟨c, hc⟩ : ∃ c, utf8decode UTF8_REJECT cp byte = (UTF8_REJECT, c) := by
      unfold utf8decode
      dsimp only
      rw [hsticky byte.toNat byte.toNat_lt]
      exact ⟨_, rfl⟩
    rw [decodeCells_more hc (by decide)]
    exact ih c

/-- A continuation byte in the middle, and the last one. -/
theorem toNat_word {n : Nat} (hn : n < 2 ^ 26) : (UInt32.ofNat n).toNat = n :=
  UInt32.toNat_ofNat_of_lt' (by
    show n < 2 ^ 32
    lia)

theorem decodeCells_cont {state' k n : Nat} (hstate : state ≠ UTF8_ACCEPT) (hk : k < 64)
    (hn : n < 2 ^ 26) (hnext : nextState state (cont k) = state') (hne : state' ≠ UTF8_ACCEPT) :
    decodeCells (cont k :: bytes) state (UInt32.ofNat n) =
      decodeCells bytes state' (UInt32.ofNat (n * 64 + k)) := by
  have hdec := @decode_cont _ (UInt32.ofNat n) _ hstate hk (by rw [toNat_word hn]; exact hn)
  rw [hnext, toNat_word hn] at hdec
  exact decodeCells_more hdec hne

theorem decodeCells_last {k n : Nat} (hk : k < 64) (hn : n < 2 ^ 26) :
    decodeCells (cont k :: bytes) 2 (UInt32.ofNat n) =
      UInt32.ofNat (n * 64 + k) :: decodeCells bytes UTF8_ACCEPT (UInt32.ofNat (n * 64 + k)) := by
  have hdec := @decode_cont 2 (UInt32.ofNat n) _ (by decide) hk (by rw [toNat_word hn]; exact hn)
  rw [nextState_cont.1 k hk, toNat_word hn] at hdec
  exact decodeCells_accept hdec

/-! ## A line -/

/-- A Unicode scalar value. -/
def Scalar (cp : UInt32) : Prop :=
  cp.toNat < 0xd800 ∨ 0xe000 ≤ cp.toNat ∧ cp.toNat < 0x110000

/-- The largest code points of one, two and three bytes, which `utf8add` gives a byte too many. -/
def overlong (cp : UInt32) : Bool := cp = 0x7f || cp = 0x7ff || cp = 0xffff

theorem utf8add_eq (cp : UInt32) :
    utf8add cp =
      if cp.toNat < 0x7f then [leadMark 0 cp.toNat]
      else if cp.toNat < 0x7ff then
        [leadByte 0xc0 cp 6, cont (cp.toNat % 64)]
      else if cp.toNat < 0xffff then
        [leadByte 0xe0 cp 12, cont (cp.toNat / 64 % 64), cont (cp.toNat % 64)]
      else if cp.toNat < 0x1fffff then
        [leadByte 0xf0 cp 18, cont (cp.toNat / 4096 % 64), cont (cp.toNat / 64 % 64),
          cont (cp.toNat % 64)]
      else [] := by
  have h0 : contByte cp 0 = cont (cp.toNat % 64) := by
    rw [contByte_eq]
    show cont (cp.toNat / 1 % 64) = _
    rw [Nat.div_one]
  have h1 : cp.toUInt8 = leadMark 0 cp.toNat := by
    apply UInt8.toNat_inj.1
    rw [leadMark, UInt32.toNat_toUInt8, Nat.zero_add, UInt8.toNat_ofNat']
  unfold utf8add
  rw [h0, h1, contByte_eq, contByte_eq]
  rfl

theorem decodeCells_utf8add {c : UInt32} (hs : Scalar c) (ho : overlong c = false)
    (bytes : List UInt8) (cp : UInt32) :
    decodeCells (utf8add c ++ bytes) UTF8_ACCEPT cp = c :: decodeCells bytes UTF8_ACCEPT c := by
  obtain ⟨hlead1, hlead2, hlead3, hlead4⟩ := decode_lead cp
  obtain ⟨-, hcont3, hcont4, hcont5, hcont6, hcont7, hcont8⟩ := nextState_cont
  have hc : UInt32.ofNat c.toNat = c := UInt32.ofNat_toNat
  obtain ⟨n, hn⟩ : ∃ n, n = c.toNat := ⟨_, rfl⟩
  have hbad : n ≠ 0x7f ∧ n ≠ 0x7ff ∧ n ≠ 0xffff := by
    refine ⟨?_, ?_, ?_⟩ <;>
    · intro h
      rw [← hc, ← hn, h] at ho
      exact absurd ho (by decide)
  unfold Scalar at hs
  rw [utf8add_eq]
  rw [← hn] at hs hc ⊢
  have hmod := Nat.mod_lt n (show 0 < 64 by decide)
  have hmod' := Nat.mod_lt (n / 64) (show 0 < 64 by decide)
  have hmod'' := Nat.mod_lt (n / 4096) (show 0 < 64 by decide)
  split
  · have hdec := @decodeCells_accept _ _ _ bytes _ (hlead1 n (by lia))
    rw [hc] at hdec
    exact hdec
  · split
    · -- two bytes
      have ha : n / 64 < 32 := by lia
      have hor : ∀ a < 32, 0xc0 ||| a = 0xc0 + a := by decide
      have hbyte : leadByte 0xc0 c 6 = leadMark 0xc0 (n / 64) :=
        leadByte_eq (hn ▸ rfl) (hor _ ha)
      rw [hbyte, List.cons_append, decodeCells_more (hlead2 _ ha (by lia)) (by decide),
        List.cons_append, decodeCells_last hmod (by lia), show n / 64 * 64 + n % 64 = n by lia,
        hc, List.nil_append]
    · split
      · -- three bytes
        have ha : n / 4096 < 16 := by lia
        have hor : ∀ a < 16, 0xe0 ||| a = 0xe0 + a := by decide
        have hbyte : leadByte 0xe0 c 12 = leadMark 0xe0 (n / 4096) :=
          leadByte_eq (hn ▸ rfl) (hor _ ha)
        have hstate : threeState (n / 4096) ≠ UTF8_ACCEPT := by
          unfold threeState
          split
          · decide
          · split <;> decide
        have hnext : nextState (threeState (n / 4096)) (cont (n / 64 % 64)) = 2 := by
          unfold threeState
          split
          · exact hcont4 _ hmod' (by lia)
          · split
            · exact hcont5 _ (by lia)
            · exact hcont3 _ hmod'
        rw [hbyte, List.cons_append, decodeCells_more (hlead3 _ ha) hstate, List.cons_append,
          decodeCells_cont hstate hmod' (by lia) hnext (by decide), List.cons_append,
          decodeCells_last hmod (by lia),
          show (n / 4096 * 64 + n / 64 % 64) * 64 + n % 64 = n by lia, hc, List.nil_append]
      · -- four bytes
        have ha : n / 262144 < 5 := by lia
        have hor : ∀ a < 5, 0xf0 ||| a = 0xf0 + a := by decide
        have hbyte : leadByte 0xf0 c 18 = leadMark 0xf0 (n / 262144) :=
          leadByte_eq (hn ▸ rfl) (hor _ ha)
        have hstate : fourState (n / 262144) ≠ UTF8_ACCEPT := by
          unfold fourState
          split
          · decide
          · split <;> decide
        have hnext : nextState (fourState (n / 262144)) (cont (n / 4096 % 64)) = 3 := by
          unfold fourState
          split
          · exact hcont6 _ hmod'' (by lia)
          · split
            · exact hcont8 _ (by lia)
            · exact hcont7 _ hmod''
        rw [if_pos (by lia), hbyte, List.cons_append, decodeCells_more (hlead4 _ ha) hstate,
          List.cons_append, decodeCells_cont hstate hmod'' (by lia) hnext (by decide),
          List.cons_append, decodeCells_cont (by decide) hmod' (by lia) (hcont3 _ hmod') (by decide),
          List.cons_append, decodeCells_last hmod (by lia),
          show ((n / 262144 * 64 + n / 4096 % 64) * 64 + n / 64 % 64) * 64 + n % 64 = n by lia, hc,
          List.nil_append]

/-- **An overlong encoding ends the line.** -/
theorem decodeCells_overlong {c : UInt32} (ho : overlong c = true) (bytes : List UInt8)
    (cp : UInt32) : decodeCells (utf8add c ++ bytes) UTF8_ACCEPT cp = [] := by
  have hcases : c = 0x7f ∨ c = 0x7ff ∨ c = 0xffff := by
    simpa [overlong, or_assoc] using ho
  have hany (byte : UInt8) : utf8decode UTF8_ACCEPT cp byte = utf8decode UTF8_ACCEPT 0 byte := rfl
  rcases hcases with rfl | rfl | rfl
  · have hlead : utf8decode UTF8_ACCEPT cp 0xc1 = (UTF8_REJECT, 0) := by
      rw [hany]
      decide
    exact (decodeCells_more hlead (by decide)).trans (decodeCells_lost _ _)
  · have hlead : utf8decode UTF8_ACCEPT cp 0xe0 = (4, 0) := by
      rw [hany]
      decide
    have hcont : utf8decode 4 0 0x9f = (UTF8_REJECT, 31) := by decide
    exact (decodeCells_more hlead (by decide)).trans
      ((decodeCells_more hcont (by decide)).trans (decodeCells_lost _ _))
  · have hlead : utf8decode UTF8_ACCEPT cp 0xf0 = (6, 0) := by
      rw [hany]
      decide
    have hcont : utf8decode 6 0 0x8f = (UTF8_REJECT, 15) := by decide
    exact (decodeCells_more hlead (by decide)).trans
      ((decodeCells_more hcont (by decide)).trans (decodeCells_lost _ _))

/-- What is unpacked: the cells in front of the first that is overlong. -/
theorem decodeCells_pack {cells : List UInt32} (hs : ∀ c ∈ cells, Scalar c) (cp : UInt32) :
    decodeCells (cells.flatMap utf8add) UTF8_ACCEPT cp = cells.takeWhile (!overlong ·) := by
  induction cells generalizing cp with
  | nil => rfl
  | cons c cells ih =>
    rw [List.flatMap_cons, List.takeWhile_cons]
    cases ho : overlong c with
    | true => exact decodeCells_overlong ho _ _
    | false =>
      rw [decodeCells_utf8add (hs c List.mem_cons_self) ho,
        ih fun c hc => hs c (List.mem_cons_of_mem _ hc)]
      rfl

theorem growCells_takeWhile_iff {cells : List UInt32} {n : Nat} :
    growCells (cells.takeWhile (!overlong ·)) n = growCells cells n ↔
      ∀ c ∈ cells, overlong c = false := by
  constructor
  · intro h
    by_contra hbad
    have hne : cells.dropWhile (!overlong ·) ≠ [] := by
      intro hnil
      rw [List.dropWhile_eq_nil_iff] at hnil
      exact hbad fun c hc => by simpa using hnil c hc
    obtain ⟨c, rest, hrest⟩ := List.exists_cons_of_ne_nil hne
    have hover : overlong c = true := by
      have hhead := List.head_dropWhile_not (!overlong ·) hne
      simpa [hrest] using hhead
    have hsplit := List.takeWhile_append_dropWhile (p := (!overlong ·)) (l := cells)
    rw [hrest] at hsplit
    rw [← hsplit] at h
    have hmem : c ∈ List.replicate (n - (cells.takeWhile (!overlong ·)).length) (0x20 : UInt32) := by
      rw [hsplit, growCells, growCells] at h
      rw [← hsplit, List.append_assoc, hsplit, List.append_right_inj] at h
      rw [h]
      exact List.mem_append_left _ List.mem_cons_self
    rw [List.eq_of_mem_replicate hmem] at hover
    exact absurd hover (by decide)
  · intro h
    rw [List.takeWhile_eq_self_iff.2 fun c hc => by rw [h c hc]; rfl]

/-- **Packing and unpacking** gives a line back, padded to the width, exactly when no code point of
it is the largest of one, two or three bytes. -/
theorem unpack_pack_iff {t : TerminalEngine} (hy : t.unpackedY < t.lines.length)
    (hs : ∀ c ∈ t.cells, Scalar c) :
    ((t.packLine.bind fun t' => t'.unpackLine t.unpackedY).map TerminalEngine.cells =
      some (growCells t.cells t.width.toNat)) ↔ ∀ c ∈ t.cells, overlong c = false := by
  rw [packLine, if_pos hy, Option.bind_some, unpackLine, List.getElem?_set_self hy, Option.map_some,
    Option.map_some, Option.some_inj]
  dsimp only
  rw [show decodeCells (t.cells.flatMap utf8add) 0 0 = _ from decodeCells_pack hs 0]
  exact growCells_takeWhile_iff

/-- `DEL` in front of an `A`: both are lost. -/
theorem del_lost :
    (({ start 4 with cells := [0x7f, 0x41] }.packLine.bind fun t => t.unpackLine 0).map
      TerminalEngine.cells) = some [0x20, 0x20, 0x20, 0x20] ∧
        growCells [0x7f, 0x41] 4 ≠ [0x20, 0x20, 0x20, 0x20] := by
  decide +kernel

/-- A line with a character of each length. -/
theorem unpack_pack_lengths :
    (({ start 4 with cells := [0x41, 0xe9, 0x20ac, 0x1f600] }.packLine.bind fun t =>
      t.unpackLine 0).map TerminalEngine.cells) =
        some (growCells [0x41, 0xe9, 0x20ac, 0x1f600] 4) := by
  have hs : ∀ c ∈ [(0x41 : UInt32), 0xe9, 0x20ac, 0x1f600], Scalar c := by
    simp only [List.mem_cons, List.not_mem_nil, or_false, Scalar]
    rintro c (rfl | rfl | rfl | rfl) <;> decide
  have hshort : ∀ c ∈ [(0x41 : UInt32), 0xe9, 0x20ac, 0x1f600], overlong c = false := by
    simp only [List.mem_cons, List.not_mem_nil, or_false]
    rintro c (rfl | rfl | rfl | rfl) <;> decide
  exact (unpack_pack_iff (t := { start 4 with cells := [0x41, 0xe9, 0x20ac, 0x1f600] })
    (by decide) hs).2 hshort

end Recovery.Gui
