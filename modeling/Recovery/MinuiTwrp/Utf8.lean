import Mathlib.Algebra.Ring.Nat
import Mathlib.Data.List.Induction
import Recovery.Lib.Access

/-!
# Characters of a text (`minuitwrp/truetype.cpp`)

* `Text` — a C string; its bytes have a zero behind them.
* `utf8_to_unicode` — the length of a character is taken from its first byte.
* `scan` — the characters that a loop over a text comes to; `Complete` — none is cut off.
* `scan_iff` — the scan stays inside the text exactly when all of its characters are complete.
* `scan_encode` — valid UTF-8 is complete and gives its code points.

No byte behind the first is checked, so what follows a cut character may be the terminator or
whatever lies behind it; such a read is a fault of the model.
-/

set_option autoImplicit false

namespace Recovery.MinuiTwrp

open Recovery.Memory

structure Text where
  bytes : List UInt8
  zero_notMem : 0 ∉ bytes
deriving DecidableEq

/-- With the zero that ends it. -/
def Text.mem (text : Text) : List UInt8 := text.bytes ++ [0]

/-- The `while` loop; `left` is `6 - utf_bytes`. -/
def utf8_more (mem : List UInt8)
    (left pIn tmp high_bit_mask high_bit_shift total_bits unicode : Nat) : Access (Nat × Nat) :=
  if tmp &&& 0xC0 = 0xC0 then
    match left with
    | 0 => .ok (1, tmp)
    | left + 1 => do
      let b ← readAt mem pIn
      utf8_more mem left (pIn + 1) (0xFF &&& (tmp <<< 1)) (high_bit_mask >>> 1)
        (high_bit_shift + 1) (total_bits + 6) (unicode <<< 6 ||| (b.toNat &&& 0x3F))
  else .ok (6 - left, unicode ||| ((tmp >>> high_bit_shift) &&& high_bit_mask) <<< total_bits)

/-- The bytes that were taken, and the code point. -/
def utf8_to_unicode (mem : List UInt8) (pIn : Nat) : Access (Nat × Nat) := do
  let tmp ← readAt mem pIn
  if tmp.toNat < 0x80 then .ok (1, tmp.toNat)
  else utf8_more mem 5 (pIn + 1) tmp.toNat 0x3F 0 0 0

/-- What a loop over a text comes to. -/
def scan (mem : List UInt8) : Nat → Nat → Access (List (Nat × Nat))
  | 0, _ => .error .stuck
  | fuel + 1, pos => do
    let b ← readAt mem pos
    if b = 0 then .ok []
    else
      let (utf_bytes, unicode) ← utf8_to_unicode mem pos
      let rest ← scan mem fuel (pos + utf_bytes)
      .ok ((utf_bytes, unicode) :: rest)

/-! ### The first byte -/

/-- The bytes behind a first byte that belong to the character. -/
def follow (b : UInt8) : Nat :=
  if b < 0xC0 then 0
  else if b < 0xE0 then 1
  else if b < 0xF0 then 2
  else if b < 0xF8 then 3
  else if b < 0xFC then 4
  else if b < 0xFE then 5
  else 0

/-- The bytes behind it that are read: with eight or seven ones in front, the character is given up
after five more. -/
def reads (b : UInt8) : Nat := if b < 0xFE then follow b else 5

/-- The last byte read is not behind the end of the text, and the character is not longer. -/
def Complete : List UInt8 → Prop
  | [] => True
  | b :: rest =>
    follow b ≤ rest.length ∧ reads b ≤ rest.length + 1 ∧ Complete (rest.drop (follow b))
termination_by l => l.length

/-- The rounds of the `while` loop. -/
def rounds : Nat → Nat → Nat
  | 0, _ => 0
  | left + 1, tmp => if tmp &&& 0xC0 = 0xC0 then 1 + rounds left (0xFF &&& (tmp <<< 1)) else 0

/-- What it makes of a first byte. -/
def taken : Nat → Nat → Nat
  | 0, tmp => if tmp &&& 0xC0 = 0xC0 then 1 else 6
  | left + 1, tmp =>
    if tmp &&& 0xC0 = 0xC0 then taken left (0xFF &&& (tmp <<< 1)) else 6 - (left + 1)

theorem rounds_reads (b : UInt8) (hb : ¬ b.toNat < 0x80) :
    rounds 5 b.toNat = reads b ∧ taken 5 b.toNat = 1 + follow b := by
  have h : ∀ n : Fin 256, ¬ n.val < 0x80 →
      rounds 5 n.val = reads (UInt8.ofNat n.val) ∧
        taken 5 n.val = 1 + follow (UInt8.ofNat n.val) := by
    decide +kernel
  simpa using h ⟨b.toNat, b.toNat_lt⟩ hb

variable {mem : List UInt8}

theorem utf8_more_ok {left pIn tmp mask shift total unicode : Nat}
    (h : pIn + rounds left tmp ≤ mem.length) :
    ∃ u, utf8_more mem left pIn tmp mask shift total unicode = .ok (taken left tmp, u) := by
  induction left generalizing pIn tmp mask shift total unicode with
  | zero =>
    rw [utf8_more]
    split
    · exact ⟨tmp, by simp [taken, *]⟩
    · exact ⟨_, by simp [taken, *]; rfl⟩
  | succ left ih =>
    rw [utf8_more, taken]
    rw [rounds] at h
    split
    · rename_i hc
      rw [if_pos hc] at h
      rw [readAt_eq (by lia), ok_bind]
      exact ih (by lia)
    · exact ⟨_, rfl⟩

theorem utf8_more_error {left pIn tmp mask shift total unicode : Nat} (hp : pIn ≤ mem.length)
    (h : mem.length < pIn + rounds left tmp) :
    utf8_more mem left pIn tmp mask shift total unicode = .error .outOfBounds := by
  induction left generalizing pIn tmp mask shift total unicode with
  | zero =>
    rw [rounds] at h
    omega
  | succ left ih =>
    rw [utf8_more]
    rw [rounds] at h
    split at h
    · rename_i hc
      rw [if_pos hc]
      by_cases hr : pIn < mem.length
      · rw [readAt_eq hr, ok_bind]
        exact ih hr (by omega)
      · simp [readAt, List.getElem?_eq_none (show mem.length ≤ pIn by omega), bind, Except.bind]
    · omega

theorem readAt_error {i : Nat} (h : mem.length ≤ i) : readAt mem i = .error .outOfBounds := by
  rw [readAt, List.getElem?_eq_none h]

@[simp] theorem error_bind {α β : Type} (e : Fault) (f : α → Access β) :
    (Except.error e : Access α) >>= f = .error e := rfl

/-! ### The characters of a text -/

section

variable {bytes rest : List UInt8} {pos : Nat} {b : UInt8}

theorem length_of_drop (h : bytes.drop pos = b :: rest) :
    bytes.length = pos + 1 + rest.length := by
  have := congrArg List.length h
  simp only [List.length_drop, List.length_cons] at this
  lia

theorem readAt_of_drop (h : bytes.drop pos = b :: rest) : readAt (bytes ++ [0]) pos = .ok b := by
  have hl := length_of_drop h
  have hb : bytes[pos]? = some b := by
    rw [← List.head?_drop, h]
    rfl
  rw [readAt, List.getElem?_append_left (by lia), hb]

theorem drop_follow (h : bytes.drop pos = b :: rest) :
    bytes.drop (pos + (1 + follow b)) = rest.drop (follow b) := by
  rw [← List.drop_drop, h, Nat.add_comm, List.drop_succ_cons]

theorem utf8_to_unicode_ok (h : bytes.drop pos = b :: rest) (hr : reads b ≤ rest.length + 1) :
    ∃ u, utf8_to_unicode (bytes ++ [0]) pos = .ok (1 + follow b, u) := by
  have hl := length_of_drop h
  rw [utf8_to_unicode, readAt_of_drop h, ok_bind]
  by_cases hb : b.toNat < 0x80
  · have hf : follow b = 0 := by
      rw [follow, if_pos]
      exact UInt8.lt_iff_toNat_lt.2 (Nat.lt_trans hb (by decide))
    rw [if_pos hb, hf]
    exact ⟨_, rfl⟩
  · obtain ⟨h1, h2⟩ := rounds_reads b hb
    rw [if_neg hb, ← h2]
    apply utf8_more_ok
    rw [h1, List.length_append, List.length_singleton]
    lia

theorem utf8_to_unicode_error (h : bytes.drop pos = b :: rest) (hr : rest.length + 1 < reads b) :
    utf8_to_unicode (bytes ++ [0]) pos = .error .outOfBounds := by
  have hl := length_of_drop h
  have hb : ¬ b.toNat < 0x80 := by
    intro hb
    have h1 : b < 0xFE := UInt8.lt_iff_toNat_lt.2 (Nat.lt_trans hb (by decide))
    have h2 : b < 0xC0 := UInt8.lt_iff_toNat_lt.2 (Nat.lt_trans hb (by decide))
    rw [reads, if_pos h1, follow, if_pos h2] at hr
    lia
  rw [utf8_to_unicode, readAt_of_drop h, ok_bind, if_neg hb]
  apply utf8_more_error
  · rw [List.length_append, List.length_singleton]
    lia
  · rw [(rounds_reads b hb).1, List.length_append, List.length_singleton]
    lia

theorem scan_zero {fuel : Nat} (h : pos = bytes.length) :
    scan (bytes ++ [0]) (fuel + 1) pos = .ok [] := by
  have hz : readAt (bytes ++ [0]) pos = .ok 0 := by
    simp [readAt, h]
  rw [scan, hz, ok_bind, if_pos rfl]

theorem scan_cons {fuel : Nat} (h : bytes.drop pos = b :: rest) (hb : b ≠ 0) :
    scan (bytes ++ [0]) (fuel + 1) pos = (do
      let (utf_bytes, unicode) ← utf8_to_unicode (bytes ++ [0]) pos
      let rest ← scan (bytes ++ [0]) fuel (pos + utf_bytes)
      .ok ((utf_bytes, unicode) :: rest)) := by
  rw [scan, readAt_of_drop h, ok_bind, if_neg hb]

/-- A scan that returns: the end of the text, or a character and the scan behind it. -/
theorem scan_cases {fuel : Nat} {cs : List (Nat × Nat)}
    (h : scan mem (fuel + 1) pos = .ok cs) : ∃ b, readAt mem pos = .ok b ∧
      ((b = 0 ∧ cs = []) ∨ (b ≠ 0 ∧ ∃ c cs', utf8_to_unicode mem pos = .ok c ∧
        scan mem fuel (pos + c.1) = .ok cs' ∧ cs = c :: cs')) := by
  rw [scan] at h
  cases hb : readAt mem pos with
  | error e =>
    rw [hb] at h
    cases h
  | ok b =>
    rw [hb, ok_bind] at h
    refine ⟨b, rfl, ?_⟩
    by_cases h0 : b = 0
    · rw [if_pos h0] at h
      cases h
      exact .inl ⟨h0, rfl⟩
    rw [if_neg h0] at h
    cases hu : utf8_to_unicode mem pos with
    | error e =>
      rw [hu] at h
      cases h
    | ok c =>
      rw [hu, ok_bind] at h
      dsimp only at h
      cases hs : scan mem fuel (pos + c.1) with
      | error e =>
        rw [hs] at h
        cases h
      | ok cs' =>
        rw [hs, ok_bind] at h
        cases h
        exact .inr ⟨h0, c, cs', rfl, hs, rfl⟩

/-- The scan stays inside the text exactly when the characters are complete. -/
theorem scan_iff (h0 : 0 ∉ bytes) {fuel : Nat} (hp : pos ≤ bytes.length)
    (hf : bytes.length < pos + fuel) :
    (∃ cs, scan (bytes ++ [0]) fuel pos = .ok cs) ↔ Complete (bytes.drop pos) := by
  induction fuel generalizing pos with
  | zero => lia
  | succ fuel ih =>
    cases hd : bytes.drop pos with
    | nil =>
      have hl : pos = bytes.length := by
        have := List.drop_eq_nil_iff.1 hd
        lia
      rw [scan_zero hl, Complete]
      simp
    | cons b rest =>
      have hl := length_of_drop hd
      have hb : b ≠ 0 := by
        rintro rfl
        exact h0 (List.mem_of_mem_drop (hd ▸ List.mem_cons_self))
      rw [scan_cons hd hb, Complete]
      by_cases hr : reads b ≤ rest.length + 1
      · obtain ⟨u, hu⟩ := utf8_to_unicode_ok hd hr
        rw [hu, ok_bind]
        by_cases hc : follow b ≤ rest.length
        · have ih := @ih (pos + (1 + follow b)) (by lia) (by lia)
          rw [drop_follow hd] at ih
          rw [← ih]
          constructor
          · rintro ⟨cs, hcs⟩
            cases hs : scan (bytes ++ [0]) fuel (pos + (1 + follow b)) with
            | error e => simp [hs] at hcs
            | ok cs' => exact ⟨hc, hr, cs', rfl⟩
          · rintro ⟨-, -, cs, hcs⟩
            exact ⟨(1 + follow b, u) :: cs, by simp [hcs]⟩
        · -- the next read is behind the zero
          obtain ⟨fuel, rfl⟩ := Nat.exists_eq_succ_of_ne_zero (show fuel ≠ 0 by lia)
          dsimp only
          rw [scan, readAt_error (by simp; lia)]
          simp [hc]
      · rw [utf8_to_unicode_error hd (by lia)]
        simp [hr]

/-- At most one character for each byte. -/
theorem scan_length (h0 : 0 ∉ bytes) {fuel : Nat} {cs : List (Nat × Nat)}
    (h : scan (bytes ++ [0]) fuel pos = .ok cs) : pos + cs.length ≤ bytes.length := by
  induction fuel generalizing pos cs with
  | zero => cases h
  | succ fuel ih =>
    cases hd : bytes.drop pos with
    | nil =>
      have hl : bytes.length ≤ pos := List.drop_eq_nil_iff.1 hd
      by_cases he : pos = bytes.length
      · rw [scan_zero he] at h
        cases h
        rw [he]
        exact Nat.le_refl _
      · rw [scan, readAt_error (by simp; lia)] at h
        cases h
    | cons b rest =>
      have hb : b ≠ 0 := by
        rintro rfl
        exact h0 (List.mem_of_mem_drop (hd ▸ List.mem_cons_self))
      rw [scan_cons hd hb] at h
      by_cases hr : reads b ≤ rest.length + 1
      · obtain ⟨u, hu⟩ := utf8_to_unicode_ok hd hr
        rw [hu, ok_bind] at h
        cases hs : scan (bytes ++ [0]) fuel (pos + (1 + follow b)) with
        | error e => simp [hs] at h
        | ok cs' =>
          have := ih hs
          simp only [hs, ok_bind] at h
          cases h
          rw [List.length_cons]
          lia
      · rw [utf8_to_unicode_error hd (by lia)] at h
        cases h

/-! ### Valid texts -/

theorem or_shift {y x k : Nat} (h : y < 2 ^ k) : y ||| x <<< k = x * 2 ^ k + y := by
  rw [Nat.or_comm, ← Nat.shiftLeft_add_eq_or_of_lt h, Nat.shiftLeft_eq]

theorem shift_or (u v : Nat) : u <<< 6 ||| v % 64 = u * 64 + v % 64 := by
  have hv : v % 64 < 2 ^ 6 := Nat.mod_lt v (by decide)
  have h64 : 2 ^ 6 = 64 := rfl
  rw [Nat.or_comm, or_shift hv, h64]

theorem drop_next (h : bytes.drop pos = b :: rest) : bytes.drop (pos + 1) = rest := by
  rw [← List.drop_drop, h, List.drop_succ_cons, List.drop_zero]

theorem utf8_more_next {left tmp mask shift total unicode : Nat} (hc : tmp &&& 0xC0 = 0xC0)
    (h : bytes.drop pos = b :: rest) :
    utf8_more (bytes ++ [0]) (left + 1) pos tmp mask shift total unicode =
      utf8_more (bytes ++ [0]) left (pos + 1) (0xFF &&& (tmp <<< 1)) (mask >>> 1) (shift + 1)
        (total + 6) (unicode <<< 6 ||| (b.toNat &&& 0x3F)) := by
  rw [utf8_more, if_pos hc, readAt_of_drop h, ok_bind]

/-- What follows the first byte. -/
theorem continuation (v : Nat) : (UInt8.ofNat (v % 64 + 128)).toNat &&& 0x3F = v % 64 := by
  have h : ∀ n : Fin 64, (UInt8.ofNat (n.val + 128)).toNat &&& 0x3F = n.val := by decide
  exact h ⟨v % 64, Nat.mod_lt _ (by decide)⟩

theorem utf8_more_stop {left tmp mask shift total unicode : Nat} (hc : tmp &&& 0xC0 ≠ 0xC0) :
    utf8_more mem left pos tmp mask shift total unicode =
      .ok (6 - left, unicode ||| ((tmp >>> shift) &&& mask) <<< total) := by
  cases left <;> rw [utf8_more, if_neg hc]

theorem utf8_to_unicode_lead (h : bytes.drop pos = b :: rest) (hb : ¬ b.toNat < 0x80) :
    utf8_to_unicode (bytes ++ [0]) pos =
      utf8_more (bytes ++ [0]) 5 (pos + 1) b.toNat 0x3F 0 0 0 := by
  rw [utf8_to_unicode, readAt_of_drop h, ok_bind, if_neg hb]

theorem lead_two : ∀ x < 32,
    let tmp := (UInt8.ofNat (x + 0xC0)).toNat
    let tmp1 := 0xFF &&& (tmp <<< 1)
    ¬ tmp < 0x80 ∧ tmp &&& 0xC0 = 0xC0 ∧ tmp1 &&& 0xC0 ≠ 0xC0 ∧
      (tmp1 >>> 1) &&& (0x3F >>> 1) = x := by
  decide

theorem lead_three : ∀ x < 16,
    let tmp := (UInt8.ofNat (x + 0xE0)).toNat
    let tmp1 := 0xFF &&& (tmp <<< 1)
    let tmp2 := 0xFF &&& (tmp1 <<< 1)
    ¬ tmp < 0x80 ∧ tmp &&& 0xC0 = 0xC0 ∧ tmp1 &&& 0xC0 = 0xC0 ∧ tmp2 &&& 0xC0 ≠ 0xC0 ∧
      (tmp2 >>> 2) &&& (0x3F >>> 1 >>> 1) = x := by
  decide

theorem lead_four : ∀ x < 8,
    let tmp := (UInt8.ofNat (x + 0xF0)).toNat
    let tmp1 := 0xFF &&& (tmp <<< 1)
    let tmp2 := 0xFF &&& (tmp1 <<< 1)
    let tmp3 := 0xFF &&& (tmp2 <<< 1)
    ¬ tmp < 0x80 ∧ tmp &&& 0xC0 = 0xC0 ∧ tmp1 &&& 0xC0 = 0xC0 ∧ tmp2 &&& 0xC0 = 0xC0 ∧
      tmp3 &&& 0xC0 ≠ 0xC0 ∧ (tmp3 >>> 3) &&& (0x3F >>> 1 >>> 1 >>> 1) = x := by
  decide

/-- A character of a valid text is read as it was written. -/
theorem utf8_to_unicode_encode {c : Char}
    (h : bytes.drop pos = String.utf8EncodeChar c ++ rest) :
    utf8_to_unicode (bytes ++ [0]) pos = .ok ((String.utf8EncodeChar c).length, c.toNat) := by
  have hv : c.toNat < 0x110000 := by
    have := c.valid
    simp only [UInt32.isValidChar, Nat.isValidChar, Char.toNat] at this ⊢
    lia
  have hval : c.val.toNat = c.toNat := rfl
  simp only [String.utf8EncodeChar, hval] at h ⊢
  generalize c.toNat = v at h hv ⊢
  split_ifs at h ⊢ with h1 h2 h3
  · have hb : (UInt8.ofNat v).toNat = v := by simp; lia
    rw [utf8_to_unicode, readAt_of_drop h, ok_bind, hb, if_pos (by lia)]
    rfl
  · obtain ⟨l1, l2, l3, l4⟩ := lead_two (v / 64 % 32) (by lia)
    rw [utf8_to_unicode_lead h l1, utf8_more_next l2 (drop_next h), utf8_more_stop l3, l4,
      continuation, shift_or, or_shift (by lia)]
    simp only [List.length_cons, List.length_nil, Except.ok.injEq, Prod.mk.injEq, Nat.reduceAdd,
      Nat.reducePow, Nat.reduceSub, true_and]
    lia
  · obtain ⟨l1, l2, l3, l4, l5⟩ := lead_three (v / 4096 % 16) (by lia)
    have hd := drop_next h
    rw [utf8_to_unicode_lead h l1, utf8_more_next l2 hd, utf8_more_next l3 (drop_next hd),
      utf8_more_stop l4, l5, continuation, continuation, shift_or, shift_or, or_shift (by lia)]
    simp only [List.length_cons, List.length_nil, Except.ok.injEq, Prod.mk.injEq, Nat.reduceAdd,
      Nat.reducePow, Nat.reduceSub, true_and]
    lia
  · obtain ⟨l1, l2, l3, l4, l5, l6⟩ := lead_four (v / 262144 % 8) (by lia)
    have hd := drop_next h
    have hd' := drop_next hd
    rw [utf8_to_unicode_lead h l1, utf8_more_next l2 hd, utf8_more_next l3 hd',
      utf8_more_next l4 (drop_next hd'), utf8_more_stop l5, l6, continuation, continuation,
      continuation, shift_or, shift_or, shift_or, or_shift (by lia)]
    simp only [List.length_cons, List.length_nil, Except.ok.injEq, Prod.mk.injEq, Nat.reduceAdd,
      Nat.reducePow, Nat.reduceSub, true_and]
    lia

/-- The bytes of a valid text. -/
def encode (cs : List Char) : List UInt8 := cs.flatMap String.utf8EncodeChar

theorem scan_encode (h0 : 0 ∉ bytes) {cs : List Char} {fuel : Nat}
    (h : bytes.drop pos = encode cs) (hp : pos ≤ bytes.length) (hf : bytes.length < pos + fuel) :
    scan (bytes ++ [0]) fuel pos =
      .ok (cs.map fun c => ((String.utf8EncodeChar c).length, c.toNat)) := by
  induction fuel generalizing pos cs with
  | zero => lia
  | succ fuel ih =>
    cases cs with
    | nil =>
      have hl : bytes.length ≤ pos := List.drop_eq_nil_iff.1 h
      rw [scan_zero (by lia)]
      rfl
    | cons c cs =>
      have hc : encode (c :: cs) = String.utf8EncodeChar c ++ encode cs := rfl
      have hpos : 0 < (String.utf8EncodeChar c).length := by
        rw [String.length_utf8EncodeChar]
        exact c.utf8Size_pos
      rw [hc] at h
      have hlen := congrArg List.length h
      rw [List.length_drop, List.length_append] at hlen
      have hnext : bytes.drop (pos + (String.utf8EncodeChar c).length) = encode cs := by
        rw [← List.drop_drop, h, List.drop_left]
      have ih := ih hnext (by lia) (by lia)
      obtain ⟨b, rest, hd⟩ := List.exists_cons_of_ne_nil (List.ne_nil_of_length_pos hpos)
      have hd' : bytes.drop pos = b :: (rest ++ encode cs) := by rw [h, hd, List.cons_append]
      have hb : b ≠ 0 := by
        rintro rfl
        exact h0 (List.mem_of_mem_drop (hd' ▸ List.mem_cons_self))
      rw [scan_cons hd' hb, utf8_to_unicode_encode h, ok_bind]
      dsimp only
      rw [ih]
      rfl

end

end Recovery.MinuiTwrp
