import Mathlib.Algebra.Order.Ring.Int
import Mathlib.Data.List.TakeWhile
import Recovery.Lib.CString
import Recovery.Lib.Loop

/-!
# `ozip_decrypt/ozip_decrypt.cpp`

* `Cipher` — AES-128 under a key, on blocks of 16 bytes; `Stack` — what variables without a value
  hold.
* `hexToASCII`, `testkey`, `main` — as in the source; `round` is a round of the loop.
* `encryptGroups`, `ozip` — the file that is made of a payload.
* `magic_update`, `testkey_iff` — when a key is accepted: a string ends at its first zero.
* `round_block`, `round_rest`, `copy_spec` — what the loop makes of a payload.
* `Recoverable`, `ShortSafe` — conditions on a payload, and on a file that ends in its header.
* `ozip_decrypt` — when decryption inverts encryption; `short_group` — a payload that is lost.
-/

set_option autoImplicit false

namespace Recovery.OzipDecrypt

open Recovery.Lib

/-- AES-128: for every key a permutation of the blocks of 16 bytes. -/
structure Cipher where
  encrypt : List UInt8 → List UInt8 → List UInt8
  decrypt : List UInt8 → List UInt8 → List UInt8
  length_encrypt : ∀ key b, b.length = 16 → (encrypt key b).length = 16
  length_decrypt : ∀ key b, b.length = 16 → (decrypt key b).length = 16
  decrypt_encrypt : ∀ key b, b.length = 16 → decrypt key (encrypt key b) = b
  encrypt_decrypt : ∀ key b, b.length = 16 → encrypt key (decrypt key b) = b

/-- What is in the memory of variables that have no value yet. -/
structure Stack where
  /-- Of `magic`. -/
  magic : List UInt8
  /-- Behind the bytes of a string that holds a key. -/
  key : Chars 16
  /-- `int data[17]`. -/
  block : Chars 68
  /-- A string that starts in `data` ends in it. -/
  block_ends : 0 ∈ block.1.drop 16
  /-- `data` and `bdata` in a round of the loop. -/
  data : Nat → Chars 17
  bdata : Nat → Chars 65536

/-! ### The key -/

def isspace (b : UInt8) : Bool := b = 32 || (9 ≤ b && b ≤ 13)

def hexDigit (b : UInt8) : Option Nat :=
  if 48 ≤ b ∧ b ≤ 57 then some (b.toNat - 48)
  else if 65 ≤ b ∧ b ≤ 70 then some (b.toNat - 55)
  else if 97 ≤ b ∧ b ≤ 102 then some (b.toNat - 87)
  else none

/-- The digits in front. -/
def hexDigits : Nat → List UInt8 → Nat
  | n, [] => n
  | n, b :: s =>
    match hexDigit b with
    | some d => hexDigits (n * 16 + d) s
    | none => n

/-- `strtol(s, nullptr, 16)`, of at most two characters: there is no room for a prefix and a digit. -/
def strtol (s : List UInt8) : Int :=
  match s.dropWhile isspace with
  | [] => 0
  | b :: s =>
    if b = 45 then - (hexDigits 0 s : Nat)
    else if b = 43 then (hexDigits 0 s : Nat)
    else (hexDigits 0 (b :: s) : Nat)

/-- `(char)(int)`. -/
def toChar (v : Int) : UInt8 := UInt8.ofNat (v % 256).toNat

def hexToASCII : List UInt8 → List UInt8
  | [] => []
  | [a] => [toChar (strtol [a])]
  | a :: b :: hex => toChar (strtol [a, b]) :: hexToASCII hex

/-- The key that the cipher is given: the bytes of a string, its end, and what is behind. -/
def cKey (junk bytes : List UInt8) : List UInt8 :=
  (bytes ++ 0 :: junk.drop (bytes.length + 1)).take 16

/-! ### The cipher -/

def decryptBlocks (c : Cipher) (key : List UInt8) : Nat → List UInt8 → List UInt8
  | 0, _ => []
  | n + 1, s => c.decrypt key (s.take 16) ++ decryptBlocks c key n (s.drop 16)

/-- Whole blocks; with padding, the last one is kept back when nothing is left over. What is left
over is an error of `EVP_DecryptFinal_ex`, which then gives nothing. -/
def EVP_DecryptUpdate (c : Cipher) (padding : Bool) (key input : List UInt8) : List UInt8 :=
  let n := input.length / 16
  decryptBlocks c key (if padding ∧ input.length % 16 = 0 then n - 1 else n) input

/-- Of a zip, and of an Android backup. -/
def isMagic (s : List UInt8) : Prop := s.take 4 = [0x50, 0x4B, 3, 4] ∨ s.take 4 = [0x41, 0x4E, 0x44, 0x52]

instance (s : List UInt8) : Decidable (isMagic s) := inferInstanceAs (Decidable (_ ∨ _))

def testkey (c : Cipher) (stack : Stack) (keyf file : List UInt8) : Bool :=
  let key := cKey stack.key.1 (cStr (hexToASCII keyf))
  let got := (file.drop 4176).take 16
  let udata := cStr (got ++ stack.block.1.drop got.length)
  isMagic (EVP_DecryptUpdate c false key udata)

/-! ### The program -/

def OPPOENCRYPT : List UInt8 := [79, 80, 80, 79, 69, 78, 67, 82, 89, 80, 84, 33]

/-- `fgets(magic, 13, fp)`, of a file that is not empty. -/
def fgets (file : List UInt8) : List UInt8 :=
  let s := file.take 12
  s.takeWhile (· ≠ 10) ++ if 10 ∈ s then [10] else []

def magicOf (stack : Stack) (file : List UInt8) : List UInt8 :=
  if file = [] then cStr stack.magic else cStr (fgets file)

/-- A difference of two `unsigned long`. -/
def usub (a b : Nat) : Nat := if b ≤ a then a - b else 2 ^ 64 - (b - a)

/-- Where the file is read, and what has been written. -/
structure Copy where
  pos : Nat
  i : Nat
  out : List UInt8

def round (c : Cipher) (stack : Stack) (key file : List UInt8) (s : Copy) : Copy ⊕ List UInt8 :=
  let got := (file.drop s.pos).take 16
  let data := got ++ (stack.data s.i).1.drop got.length
  let plain := EVP_DecryptUpdate c true (cKey stack.key.1 (hexToASCII key)) data
  let out := s.out ++ (plain ++ data.drop plain.length).take 16
  let sizeseek := s.pos + got.length
  let rest := usub file.length sizeseek
  let chunk (n : Nat) : List UInt8 :=
    let got := (file.drop sizeseek).take n
    (got ++ (stack.bdata s.i).1.drop got.length).take n
  if rest ≤ 16384 then .inr (out ++ chunk rest)
  else .inl ⟨sizeseek + ((file.drop sizeseek).take 16384).length, s.i + 1, out ++ chunk 16384⟩

inductive Outcome where
  | renamed
  | keyNotGood
  | decrypted (out : List UInt8)
deriving DecidableEq

def main (c : Cipher) (stack : Stack) (key file : List UInt8) (fuel : Nat) : Option Outcome :=
  if magicOf stack file ≠ OPPOENCRYPT then some .renamed
  else if testkey c stack key file = false then some .keyNotGood
  else (loop (round c stack key file) fuel ⟨4176, 0, []⟩).map .decrypted

/-! ### Files -/

/-- The first block of every group is encrypted; an incomplete block is not. -/
def encryptGroups (c : Cipher) (key : List UInt8) (p : List UInt8) : List UInt8 :=
  if p.length < 16 then p
  else c.encrypt key (p.take 16) ++ ((p.drop 16).take 16384 ++ encryptGroups c key (p.drop 16400))
termination_by p.length
decreasing_by
  rw [List.length_drop]
  omega

/-- What makes the header up to 4176 bytes is not looked at. -/
def ozip (c : Cipher) (key pad p : List UInt8) : List UInt8 := OPPOENCRYPT ++ (pad ++ encryptGroups c key p)

/-! ### Accepting a key -/

variable {c : Cipher} {key b r p : List UInt8}

/-- Nothing is decrypted behind a zero in the first block. -/
theorem magic_update (hb : b.length = 16) :
    isMagic (EVP_DecryptUpdate c false key (cStr (b ++ r))) ↔
      0 ∉ b ∧ isMagic (c.decrypt key b) := by
  by_cases h0 : 0 ∈ b
  · have hlt : (cStr b).length < 16 := by
      rw [← hb]
      refine Nat.lt_of_le_of_ne (List.takeWhile_prefix _).length_le fun hlen => ?_
      have hsame : cStr b = b := (List.takeWhile_prefix _).eq_of_length hlen
      exact zero_notMem_cStr b (by rwa [hsame])
    have hz : (cStr b).length / 16 = 0 := Nat.div_eq_of_lt hlt
    rw [cStr_append_cut h0, EVP_DecryptUpdate]
    rw [if_neg (by simp), hz, decryptBlocks]
    simp [h0, isMagic]
  · obtain ⟨n, hn⟩ : ∃ n, (b ++ cStr r).length / 16 = n + 1 := by
      refine Nat.exists_eq_add_one.2 (Nat.div_pos ?_ (by decide))
      rw [List.length_append]
      lia
    have htake : (b ++ cStr r).take 16 = b := by rw [← hb, List.take_left]
    have hlen := c.length_decrypt key b hb
    rw [cStr_append h0, EVP_DecryptUpdate]
    rw [if_neg (by simp), hn, decryptBlocks, htake, isMagic, isMagic,
      List.take_append_of_le_length (by lia)]
    simp [h0]

/-- A file with a block behind its header. -/
theorem testkey_iff {stack : Stack} {keyf file : List UInt8}
    (h : (file.drop 4176).take 16 = b) (hb : b.length = 16) :
    testkey c stack keyf file = true ↔
      0 ∉ b ∧ isMagic (c.decrypt (cKey stack.key.1 (cStr (hexToASCII keyf))) b) := by
  rw [testkey, h, decide_eq_true_eq, magic_update hb]

/-- A file that ends before. -/
theorem testkey_short {stack : Stack} {keyf file : List UInt8} (h : file.length ≤ 4176) :
    testkey c stack keyf file = true ↔ 0 ∉ stack.block.1.take 16 ∧
      isMagic (c.decrypt (cKey stack.key.1 (cStr (hexToASCII keyf))) (stack.block.1.take 16)) := by
  have hlen : (stack.block.1.take 16).length = 16 := by
    rw [List.length_take, stack.block.2]
    rfl
  rw [← magic_update (r := stack.block.1.drop 16) hlen, List.take_append_drop, testkey,
    decide_eq_true_eq, List.drop_eq_nil_of_le h]
  rfl

/-! ### The loop -/

theorem length_encryptGroups (c : Cipher) (key p : List UInt8) :
    (encryptGroups c key p).length = p.length := by
  induction hn : p.length using Nat.strongRecOn generalizing p with
  | ind n ih =>
    rw [encryptGroups]
    split
    · exact hn
    · rename_i h
      have hb := c.length_encrypt key (p.take 16) (by rw [List.length_take]; lia)
      rw [List.length_append, List.length_append, hb, List.length_take, List.length_drop,
        ih (p.drop 16400).length (by rw [List.length_drop]; lia) _ rfl, List.length_drop]
      lia

/-- Seventeen bytes are one block, and one byte that is left over. -/
theorem update_seventeen {data : List UInt8} (h : data.length = 17) :
    EVP_DecryptUpdate c true key data = c.decrypt key (data.take 16) := by
  rw [EVP_DecryptUpdate, h]
  simp [decryptBlocks]

theorem cKey_of_length {junk : List UInt8} (h : key.length = 16) : cKey junk key = key := by
  rw [cKey, ← h, List.take_left]

theorem usub_add (a b : Nat) : usub (a + b) a = b := by
  rw [usub, if_pos (Nat.le_add_right a b), Nat.add_sub_cancel_left]

variable {stack : Stack} {keyf file : List UInt8} {s : Copy}

/-- What is behind a position in the middle of a list. -/
theorem drop_of_drop {pos : Nat} {x y : List UInt8} (h : file.drop pos = x ++ y) :
    file.drop (pos + x.length) = y := by
  rw [← List.drop_drop, h, List.drop_left]

/-- A round that starts with a whole block. -/
theorem round_block (c : Cipher) (stack : Stack) (hkey : (hexToASCII keyf).length = 16) {x y : List UInt8}
    (hfile : file.drop s.pos = c.encrypt (hexToASCII keyf) x ++ y) (hx : x.length = 16)
    (hlen : file.length = s.pos + 16 + y.length) :
    round c stack keyf file s =
      if y.length ≤ 16384 then .inr (s.out ++ x ++ y)
      else .inl ⟨s.pos + 16400, s.i + 1, s.out ++ x ++ y.take 16384⟩ := by
  have hb := c.length_encrypt (hexToASCII keyf) x hx
  have htake : (file.drop s.pos).take 16 = c.encrypt (hexToASCII keyf) x := by
    rw [hfile, ← hb, List.take_left]
  have hdrop : file.drop (s.pos + 16) = y := by
    have := drop_of_drop hfile
    rwa [hb] at this
  have hplain : EVP_DecryptUpdate c true (cKey stack.key.1 (hexToASCII keyf))
      (c.encrypt (hexToASCII keyf) x ++ (stack.data s.i).1.drop 16) = x := by
    rw [cKey_of_length hkey, update_seventeen, ← hb, List.take_left, c.decrypt_encrypt _ _ hx]
    rw [List.length_append, hb, List.length_drop, (stack.data s.i).2]
  have hrest : usub file.length (s.pos + 16) = y.length := by
    rw [hlen, usub_add]
  have htake16 : ∀ l : List UInt8, (x ++ l).take 16 = x := fun l => by rw [← hx, List.take_left]
  simp only [round, htake, hb, hplain, hx, hdrop, hrest, htake16]
  by_cases hle : y.length ≤ 16384
  · rw [if_pos hle, if_pos hle, List.take_length, List.take_left]
  · have hlen : (y.take 16384).length = 16384 := by
      rw [List.length_take]
      lia
    have hfull : ∀ l : List UInt8, (y.take 16384 ++ l).take 16384 = y.take 16384 := fun l => by
      rw [List.take_append_of_le_length (by lia), List.take_take, Nat.min_self]
    have hpos : s.pos + 16 + 16384 = s.pos + 16400 := by omega
    simp only [if_neg hle, hlen, hfull, hpos]

/-- A round that starts with less than a block: sixteen bytes are written. -/
theorem round_rest (c : Cipher) (stack : Stack) (s : Copy) (hkey : (hexToASCII keyf).length = 16)
    (hlen : file.length = s.pos + (file.drop s.pos).length)
    (hrest : (file.drop s.pos).length < 16) :
    ∃ tail, tail.length = 16 ∧ round c stack keyf file s = .inr (s.out ++ tail) := by
  have htake : (file.drop s.pos).take 16 = file.drop s.pos := List.take_of_length_le (by lia)
  have hall : ∀ l : List UInt8, l.length < 16 →
      (l ++ (stack.data s.i).1.drop l.length).length = 17 := by
    intro l hl
    rw [List.length_append, List.length_drop, (stack.data s.i).2]
    lia
  have hseventeen := hall _ hrest
  have hzero : usub file.length (s.pos + (file.drop s.pos).length) = 0 := by
    rw [← hlen, usub, if_pos (Nat.le_refl _), Nat.sub_self]
  have hplain := c.length_decrypt (hexToASCII keyf)
    ((file.drop s.pos ++ (stack.data s.i).1.drop (file.drop s.pos).length).take 16)
    (by rw [List.length_take, hseventeen]; rfl)
  refine ⟨c.decrypt (hexToASCII keyf)
    ((file.drop s.pos ++ (stack.data s.i).1.drop (file.drop s.pos).length).take 16), hplain, ?_⟩
  simp only [round, htake, hzero, update_seventeen hseventeen, cKey_of_length hkey]
  rw [if_pos (Nat.zero_le _), List.take_zero, List.append_nil,
    List.take_append_of_le_length (by lia), List.take_of_length_le (by lia)]

/-- What the loop makes of a payload, or of the rest of one. -/
theorem copy_spec (hkey : (hexToASCII keyf).length = 16) (p : List UInt8) (hp : p ≠ [])
    (s : Copy) (hfile : file.drop s.pos = encryptGroups c (hexToASCII keyf) p)
    (hlen : file.length = s.pos + p.length) :
    ∃ fuel tail, loop (round c stack keyf file) fuel s = some (s.out ++ tail) ∧
      (tail = p ↔ p.length % 16400 = 0 ∨ 16 ≤ p.length % 16400) := by
  induction hn : p.length using Nat.strongRecOn generalizing p s with
  | ind n ih =>
    have hpos : 0 < p.length := List.length_pos_of_ne_nil hp
    by_cases hshort : p.length < 16
    · -- the last group has no whole block
      rw [encryptGroups, if_pos hshort] at hfile
      obtain ⟨tail, htail, hround⟩ := round_rest c stack s hkey
        (by rw [hfile, hlen]) (by rw [hfile]; exact hshort)
      refine ⟨1, tail, by rw [loop, hround], ?_⟩
      constructor
      · rintro rfl
        lia
      · lia
    rw [encryptGroups, if_neg hshort] at hfile
    have hx : (p.take 16).length = 16 := by
      rw [List.length_take]
      lia
    have hy : ((p.drop 16).take 16384 ++ encryptGroups c (hexToASCII keyf) (p.drop 16400)).length =
        p.length - 16 := by
      rw [List.length_append, List.length_take, List.length_drop, length_encryptGroups,
        List.length_drop]
      lia
    have hround := round_block c stack hkey hfile hx (by rw [hy, hlen]; lia)
    by_cases hlast : p.length - 16 ≤ 16384
    · -- the last group
      rw [hy, if_pos hlast] at hround
      have hrest : (p.drop 16).take 16384 ++ encryptGroups c (hexToASCII keyf) (p.drop 16400) =
          p.drop 16 := by
        rw [List.drop_eq_nil_of_le (show p.length ≤ 16400 by lia), encryptGroups,
          if_pos (by decide), List.append_nil, List.take_of_length_le]
        rw [List.length_drop]
        lia
      rw [hrest, List.append_assoc, List.take_append_drop] at hround
      refine ⟨1, p, by rw [loop, hround], iff_of_true rfl ?_⟩
      lia
    · have hmiddle : ((p.drop 16).take 16384).length = 16384 := by
        rw [List.length_take, List.length_drop]
        lia
      have htake : p.take 16 ++ (p.drop 16).take 16384 = p.take 16400 := by
        rw [← List.take_add]
      have hdrop : file.drop (s.pos + 16400) =
          encryptGroups c (hexToASCII keyf) (p.drop 16400) := by
        have h1 := drop_of_drop hfile
        rw [c.length_encrypt _ _ hx] at h1
        have h2 := drop_of_drop h1
        rwa [hmiddle, Nat.add_assoc] at h2
      rw [hy, if_neg hlast, List.take_append_of_le_length (by lia), List.take_take, Nat.min_self,
        List.append_assoc, htake] at hround
      obtain ⟨fuel, tail, hloop, htail⟩ := ih (p.drop 16400).length
        (by rw [List.length_drop]; lia) (p.drop 16400)
        (List.ne_nil_of_length_pos (by rw [List.length_drop]; lia))
        ⟨s.pos + 16400, s.i + 1, s.out ++ p.take 16400⟩ hdrop
        (by rw [List.length_drop]; dsimp only; lia) rfl
      have hmod : (p.drop 16400).length % 16400 = p.length % 16400 := by
        rw [List.length_drop]
        lia
      refine ⟨fuel + 1, p.take 16400 ++ tail, ?_, ?_⟩
      · rw [loop, hround, ← List.append_assoc]
        exact hloop
      · rw [hmod] at htail
        rw [← hn, ← htail]
        constructor
        · intro h
          exact List.append_cancel_left (h.trans (List.take_append_drop 16400 p).symm)
        · rintro rfl
          exact List.take_append_drop 16400 p

/-! ### The program -/

/-- The right key is accepted, the program ends, and it has written the payload. -/
def Inverts (c : Cipher) (keyf pad p : List UInt8) : Prop :=
  ∀ stack, testkey c stack keyf (ozip c (hexToASCII keyf) pad p) = true ∧
    ∃ fuel, main c stack keyf (ozip c (hexToASCII keyf) pad p) fuel = some (.decrypted p)

/-- When a payload can be recovered. -/
structure Recoverable (c : Cipher) (key p : List UInt8) : Prop where
  /-- The first block is a string of sixteen characters when it is encrypted. -/
  block : 0 ∉ c.encrypt key (p.take 16)
  /-- So is the key up to its last byte, or it does not matter what comes behind its first zero. -/
  key : ∀ junk : Chars 16,
    isMagic (c.decrypt (cKey junk.1 (cStr key)) (c.encrypt key (p.take 16)))
  /-- The last group has a whole block. -/
  groups : p.length % 16400 = 0 ∨ 16 ≤ p.length % 16400

/-- The program ends without accepting a key. -/
def Rejects (c : Cipher) (keyf file : List UInt8) : Prop :=
  ∀ stack, ∃ fuel, main c stack keyf file fuel = some .renamed ∨
    main c stack keyf file fuel = some .keyNotGood

/-- A file has no header, or nothing that may be in memory in place of its first block passes for
one. -/
def ShortSafe (c : Cipher) (keyf file : List UInt8) : Prop :=
  (file = [] ∨ OPPOENCRYPT <+: file) → ∀ (junk : Chars 16) (b : List UInt8), b.length = 16 →
    0 ∉ b → ¬ isMagic (c.decrypt (cKey junk.1 (cStr (hexToASCII keyf))) b)

theorem fgets_header {rest : List UInt8} : cStr (fgets (OPPOENCRYPT ++ rest)) = OPPOENCRYPT := by
  have h : (OPPOENCRYPT ++ rest).take 12 = OPPOENCRYPT := List.take_left' rfl
  rw [fgets, h]
  decide

theorem header_of_fgets {file : List UInt8} (h : cStr (fgets file) = OPPOENCRYPT) :
    OPPOENCRYPT <+: file := by
  have hline : fgets file <+: file.take 12 := by
    rw [fgets]
    split
    · rename_i hm
      obtain ⟨l₁, l₂, hl, hn⟩ := List.eq_append_cons_of_mem hm
      have ht : (file.take 12).takeWhile (· ≠ 10) = l₁ := by
        rw [hl, List.takeWhile_append_of_pos]
        · simp
        · intro b hb
          simp only [ne_eq, decide_eq_true_eq]
          rintro rfl
          exact hn hb
      rw [ht, hl]
      exact ⟨l₂, by rw [List.append_assoc, List.singleton_append]⟩
    · rw [List.append_nil]
      exact List.takeWhile_prefix _
  rw [← h]
  exact (List.takeWhile_prefix _).trans (hline.trans (List.take_prefix 12 file))

theorem main_iff {fuel : Nat} (hm : magicOf stack file = OPPOENCRYPT)
    (ht : testkey c stack keyf file = true) :
    main c stack keyf file fuel =
      (loop (round c stack keyf file) fuel ⟨4176, 0, []⟩).map .decrypted := by
  rw [main, if_neg (not_not_intro hm), if_neg (by rw [ht]; decide)]

theorem drop_ozip (c : Cipher) (key p : List UInt8) {pad : List UInt8} (hpad : pad.length = 4164) :
    (ozip c key pad p).drop 4176 = encryptGroups c key p := by
  have h : 4176 = (OPPOENCRYPT ++ pad).length := by
    rw [List.length_append, hpad]
    rfl
  rw [ozip, ← List.append_assoc, h, List.drop_left]

theorem length_ozip (c : Cipher) (key p : List UInt8) {pad : List UInt8}
    (hpad : pad.length = 4164) : (ozip c key pad p).length = 4176 + p.length := by
  have h : OPPOENCRYPT.length = 12 := rfl
  rw [ozip, List.length_append, List.length_append, hpad, length_encryptGroups, h]
  lia

/-- Memory with a key, a block and a header in it, and zeros. -/
def Stack.holding (magic : List UInt8) (junk : Chars 16) (b : List UInt8) (hb : b.length = 16) :
    Stack where
  magic := magic
  key := junk
  block := ⟨b ++ List.replicate 52 0, by rw [List.length_append, hb]; rfl⟩
  block_ends := by
    have h : (b ++ List.replicate 52 (0 : UInt8)).drop 16 = List.replicate 52 0 := by
      rw [← hb, List.drop_left]
    rw [h]
    decide
  data _ := .zeros 17
  bdata _ := .zeros 65536

theorem inverts_iff {pad : List UInt8} (hkey : (hexToASCII keyf).length = 16)
    (hpad : pad.length = 4164) (hp : 16 ≤ p.length) :
    Inverts c keyf pad p ↔ Recoverable c (hexToASCII keyf) p := by
  have hx : (p.take 16).length = 16 := by
    rw [List.length_take]
    lia
  have hb := c.length_encrypt (hexToASCII keyf) (p.take 16) hx
  have hblock : ((ozip c (hexToASCII keyf) pad p).drop 4176).take 16 =
      c.encrypt (hexToASCII keyf) (p.take 16) := by
    rw [drop_ozip c _ p hpad, encryptGroups, if_neg (by lia)]
    exact List.take_left' hb
  have htest : ∀ stack, testkey c stack keyf (ozip c (hexToASCII keyf) pad p) = true ↔
      0 ∉ c.encrypt (hexToASCII keyf) (p.take 16) ∧
        isMagic (c.decrypt (cKey stack.key.1 (cStr (hexToASCII keyf)))
          (c.encrypt (hexToASCII keyf) (p.take 16))) := fun _ => testkey_iff hblock hb
  have hmagic : ∀ stack, magicOf stack (ozip c (hexToASCII keyf) pad p) = OPPOENCRYPT := by
    intro stack
    rw [magicOf, if_neg (by simp [ozip, OPPOENCRYPT]), ozip, fgets_header]
  have hcopy : ∀ stack, ∃ fuel tail,
      loop (round c stack keyf (ozip c (hexToASCII keyf) pad p)) fuel ⟨4176, 0, []⟩ = some tail ∧
      (tail = p ↔ p.length % 16400 = 0 ∨ 16 ≤ p.length % 16400) := fun stack =>
    copy_spec hkey p (List.ne_nil_of_length_pos (by lia)) ⟨4176, 0, []⟩ (drop_ozip c _ p hpad)
      (length_ozip c _ p hpad)
  constructor
  · intro h
    have hs : ∀ junk : Chars 16, 0 ∉ c.encrypt (hexToASCII keyf) (p.take 16) ∧
        isMagic (c.decrypt (cKey junk.1 (cStr (hexToASCII keyf)))
          (c.encrypt (hexToASCII keyf) (p.take 16))) := fun junk =>
      (htest (.holding [] junk (p.take 16) hx)).1 (h (.holding [] junk (p.take 16) hx)).1
    refine ⟨(hs (.zeros 16)).1, fun junk => (hs junk).2, ?_⟩
    obtain ⟨hkeyok, fuel, hmain⟩ := h (.holding [] (.zeros 16) (p.take 16) hx)
    rw [main_iff (hmagic _) hkeyok] at hmain
    obtain ⟨out, hout, hp⟩ := Option.map_eq_some_iff.1 hmain
    obtain rfl := Outcome.decrypted.inj hp
    obtain ⟨fuel', tail, hloop, htail⟩ := hcopy (.holding [] (.zeros 16) (out.take 16) hx)
    have h1 := loop_le hout (Nat.le_max_left fuel fuel')
    have h2 := loop_le hloop (Nat.le_max_right fuel fuel')
    exact htail.1 (Option.some.inj (h2.symm.trans h1))
  · intro h stack
    have hkeyok := (htest stack).2 ⟨h.block, h.key stack.key⟩
    obtain ⟨fuel, tail, hloop, htail⟩ := hcopy stack
    refine ⟨hkeyok, fuel, ?_⟩
    rw [main_iff (hmagic _) hkeyok, hloop, htail.2 h.groups]
    rfl

theorem magicOf_iff {stack : Stack} (hne : file ≠ []) :
    magicOf stack file = OPPOENCRYPT ↔ OPPOENCRYPT <+: file := by
  rw [magicOf, if_neg hne]
  constructor
  · exact header_of_fgets
  · rintro ⟨rest, rfl⟩
    exact fgets_header

theorem rejects_iff (hfile : file.length ≤ 4176) :
    Rejects c keyf file ↔ ShortSafe c keyf file := by
  constructor
  · intro h hheader junk b hb h0 hmagic
    obtain ⟨fuel, hout⟩ := h (.holding (OPPOENCRYPT ++ [0]) junk b hb)
    have htake : (Stack.holding (OPPOENCRYPT ++ [0]) junk b hb).block.1.take 16 = b := by
      rw [← hb]
      exact List.take_left
    have ht : testkey c (.holding (OPPOENCRYPT ++ [0]) junk b hb) keyf file = true := by
      rw [testkey_short hfile, htake]
      exact ⟨h0, hmagic⟩
    have hm : magicOf (.holding (OPPOENCRYPT ++ [0]) junk b hb) file = OPPOENCRYPT := by
      by_cases hne : file = []
      · rw [magicOf, if_pos hne]
        exact cStr_append_zero (by decide) []
      · exact (magicOf_iff hne).2 (hheader.resolve_left hne)
    rw [main_iff hm ht] at hout
    obtain hout | hout := hout
    · obtain ⟨_, -, hout⟩ := Option.map_eq_some_iff.1 hout
      cases hout
    · obtain ⟨_, -, hout⟩ := Option.map_eq_some_iff.1 hout
      cases hout
  · intro h stack
    refine ⟨0, ?_⟩
    by_cases hm : magicOf stack file = OPPOENCRYPT
    · right
      have hheader : file = [] ∨ OPPOENCRYPT <+: file := by
        by_cases hne : file = []
        · exact .inl hne
        · exact .inr ((magicOf_iff hne).1 hm)
      have ht : testkey c stack keyf file = false := by
        rw [← Bool.not_eq_true, testkey_short hfile]
        rintro ⟨h0, hmagic⟩
        refine h hheader stack.key _ ?_ h0 hmagic
        rw [List.length_take, stack.block.2]
        rfl
      rw [main, if_neg (not_not_intro hm), if_pos ht]
    · left
      rw [main, if_pos hm]

/-- **Decryption** inverts encryption exactly for the payloads that are recoverable, and short files
are rejected exactly when no junk is taken for their first block. -/
theorem ozip_decrypt (c : Cipher) (keyf : List UInt8) :
    (∀ pad p : List UInt8, (hexToASCII keyf).length = 16 → pad.length = 4164 → 16 ≤ p.length →
      p.take 4 = [0x50, 0x4B, 3, 4] →
        (Inverts c keyf pad p ↔ Recoverable c (hexToASCII keyf) p)) ∧
    ∀ file : List UInt8, file.length < 4176 → (Rejects c keyf file ↔ ShortSafe c keyf file) :=
  ⟨fun _ _ hkey hpad hp _ => inverts_iff hkey hpad hp, fun _ hfile => rejects_iff hfile.le⟩

/-- The first byte of the key is added to every byte. -/
def Cipher.masking : Cipher where
  encrypt key b := b.map (· ^^^ key.headD 0)
  decrypt key b := b.map (· ^^^ key.headD 0)
  length_encrypt _ _ h := List.length_map _ |>.trans h
  length_decrypt _ _ h := List.length_map _ |>.trans h
  decrypt_encrypt _ _ _ := by simp [Function.comp_def, UInt8.xor_assoc]
  encrypt_decrypt _ _ _ := by simp [Function.comp_def, UInt8.xor_assoc]

def swapZero (a x : UInt8) : UInt8 := if x = a then 0 else if x = 0 then a else x

/-- Every block that starts like a magic becomes one with a zero. -/
def Cipher.hiding : Cipher :=
  let swap (_ b : List UInt8) : List UInt8 := match b with
    | x :: y :: b => swapZero 0x50 x :: swapZero 0x4E y :: b
    | b => b
  have hlen : ∀ key b, b.length = 16 → (swap key b).length = 16 := by
    intro key b h
    match b, h with
    | x :: y :: b, h => exact h
  have hswap : ∀ key b, b.length = 16 → swap key (swap key b) = b := by
    have hinv : ∀ a x, a ≠ 0 → swapZero a (swapZero a x) = x := by
      intro a x ha
      unfold swapZero
      split_ifs <;> simp_all
    intro key b h
    match b, h with
    | x :: y :: b, h => simp [swap, hinv]
  ⟨swap, swap, hlen, hlen, hswap, hswap⟩

/-- A payload of a group and a block, and a file that ends in its header. -/
theorem ozip_decrypt_masked :
    Inverts .masking (List.replicate 32 49) (List.replicate 4164 0)
      ([0x50, 0x4B, 3, 4] ++ List.replicate 16412 1) ∧
    Rejects .hiding (List.replicate 32 49) (OPPOENCRYPT ++ [1]) := by
  constructor
  · have hlen : ([0x50, 0x4B, 3, 4] ++ List.replicate 16412 (1 : UInt8)).length = 16416 := by
      rw [List.length_append, List.length_replicate]
      rfl
    have h := (ozip_decrypt .masking (List.replicate 32 49)).1 (List.replicate 4164 0)
      ([0x50, 0x4B, 3, 4] ++ List.replicate 16412 1) (by decide) List.length_replicate
      (by rw [hlen]; decide) (by decide)
    refine h.2 ⟨by decide, ?_, .inr (by rw [hlen])⟩
    have hkey : hexToASCII (List.replicate 32 49) = List.replicate 16 17 := by decide
    have hstr : Lib.cStr (List.replicate 16 17) = List.replicate 16 17 := by decide
    intro junk
    have hjunk : Cipher.masking.decrypt (cKey junk.1 (List.replicate 16 17)) =
        Cipher.masking.decrypt (List.replicate 16 17) := rfl
    rw [hkey, hstr, hjunk]
    decide
  · refine ((ozip_decrypt .hiding (List.replicate 32 49)).2 (OPPOENCRYPT ++ [1]) (by decide)).2 ?_
    intro _ junk b hb hzero
    match b, hb with
    | x :: y :: b, _ =>
      simp only [List.mem_cons, not_or] at hzero
      rintro (hmagic | hmagic)
      · have hx : swapZero 0x50 x = 0x50 := (List.cons.inj hmagic).1
        unfold swapZero at hx
        split_ifs at hx with h1 h2
        · cases hx
        · exact hzero.1 h2.symm
        · exact h1 hx
      · have hy : swapZero 0x4E y = 0x4E := (List.cons.inj (List.cons.inj hmagic).2).1
        unfold swapZero at hy
        split_ifs at hy with h1 h2
        · cases hy
        · exact hzero.2.1 h2.symm
        · exact h1 hy

/-- A payload of a group and one byte more is never recovered, whatever the cipher. -/
theorem short_group : ¬ ∃ c : Cipher, Inverts c (List.replicate 32 49) (List.replicate 4164 0)
    ([0x50, 0x4B, 3, 4] ++ List.replicate 16397 1) := by
  rintro ⟨c, h⟩
  have hlen : ([0x50, 0x4B, 3, 4] ++ List.replicate 16397 (1 : UInt8)).length = 16401 := by
    rw [List.length_append, List.length_replicate]
    rfl
  have hgroups := ((inverts_iff (by decide) List.length_replicate (by rw [hlen]; decide)).1 h).groups
  rw [hlen] at hgroups
  exact absurd hgroups (by decide)

end Recovery.OzipDecrypt
