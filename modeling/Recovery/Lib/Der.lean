import Mathlib.Algebra.Order.Ring.Int
import Mathlib.Data.List.Basic

/-!
# Definite-length tag-length-value records over byte lists

A record is a tag byte, a length field and as many content bytes as the length field says.

* `LengthField w len n` — `len` is a well-formed length field that denotes `n`: one byte below
  `0x80`, or `0x80 + k` followed by `k < w` big-endian octets.
* `takeLength` — the list-level reader; `takeLength_iff` proves it reads exactly one length field.
* `Enclosed p bs body` — `bs` starts with a record whose tag satisfies `p` and whose content is
  `body`; `Skips p bs rest` — `rest` is what follows such a record.
* `enter` / `skip` — the executable counterparts, with `enter_iff` and `skip_iff`.
* `SkipAll` — a maximal run of records with a given tag, and `skipAll_iff` for its reader.
* `record tag body` — the canonical record with the shortest length field; `enter_record`,
  `skip_record` and `skipAll_optRecord` are what the readers make of it.
-/

set_option autoImplicit false

namespace Recovery.Der

/-- Big-endian value of a string of octets. -/
def ofOctets (bs : List UInt8) : Nat := bs.foldl (fun n b => n * 256 + b.toNat) 0

/-! ## Length fields -/

/-- Length fields of at most `w - 1` octets after the first one. -/
inductive LengthField (w : Nat) : List UInt8 → Nat → Prop where
  | short (b : UInt8) (hb : b.toNat < 128) : LengthField w [b] b.toNat
  | long (b : UInt8) (octets : List UInt8) (hb : b.toNat = 128 + octets.length)
      (hw : octets.length < w) : LengthField w (b :: octets) (ofOctets octets)

/-- Read one length field from the front of a byte list. -/
def takeLength (w : Nat) : List UInt8 → Option (Nat × List UInt8)
  | [] => none
  | b :: bs =>
    if b.toNat < 128 then some (b.toNat, bs)
    else if b.toNat - 128 < w ∧ b.toNat - 128 ≤ bs.length then
      some (ofOctets (bs.take (b.toNat - 128)), bs.drop (b.toNat - 128))
    else none

theorem takeLength_iff {w n : Nat} {bs rest : List UInt8} :
    takeLength w bs = some (n, rest) ↔ ∃ len, LengthField w len n ∧ bs = len ++ rest := by
  constructor
  · intro h
    cases bs with
    | nil => cases h
    | cons b bs =>
      simp only [takeLength] at h
      split at h
      · rename_i hb
        cases h
        exact ⟨[b], .short b hb, rfl⟩
      · rename_i hb
        split at h
        · rename_i hk
          simp only [Option.some.injEq, Prod.mk.injEq] at h
          obtain ⟨rfl, rfl⟩ := h
          have hl : (bs.take (b.toNat - 128)).length = b.toNat - 128 := by
            rw [List.length_take]; lia
          exact ⟨b :: bs.take (b.toNat - 128), .long b _ (by lia) (by lia),
            by rw [List.cons_append, List.take_append_drop]⟩
        · cases h
  · rintro ⟨len, hlen, rfl⟩
    cases hlen with
    | short b hb => simp [takeLength, hb]
    | long b octets hb hw =>
      have h1 : ¬ b.toNat < 128 := by lia
      have h2 : b.toNat - 128 = octets.length := by lia
      simp [takeLength, h1, h2, hw]

/-! ## Records -/

/-- `bs` starts with a record whose tag satisfies `p` and whose content is `body`. -/
def Enclosed (w : Nat) (p : UInt8 → Bool) (bs body : List UInt8) : Prop :=
  ∃ tag len rest, p tag = true ∧ LengthField w len body.length ∧ bs = tag :: len ++ body ++ rest

/-- `bs` is a record whose tag satisfies `p`, followed by `rest`. -/
def Skips (w : Nat) (p : UInt8 → Bool) (bs rest : List UInt8) : Prop :=
  ∃ tag len body, p tag = true ∧ LengthField w len body.length ∧ bs = tag :: len ++ body ++ rest

/-- Content of the first record, if its tag satisfies `p`. -/
def enter (w : Nat) (p : UInt8 → Bool) : List UInt8 → Option (List UInt8)
  | [] => none
  | tag :: bs =>
    if p tag then
      match takeLength w bs with
      | some (n, rest) => if n ≤ rest.length then some (rest.take n) else none
      | none => none
    else none

/-- What follows the first record, if its tag satisfies `p`. -/
def skip (w : Nat) (p : UInt8 → Bool) : List UInt8 → Option (List UInt8)
  | [] => none
  | tag :: bs =>
    if p tag then
      match takeLength w bs with
      | some (n, rest) => if n ≤ rest.length then some (rest.drop n) else none
      | none => none
    else none

theorem enter_iff {w : Nat} {p : UInt8 → Bool} {bs body : List UInt8} :
    enter w p bs = some body ↔ Enclosed w p bs body := by
  constructor
  · intro h
    cases bs with
    | nil => cases h
    | cons tag bs =>
      simp only [enter] at h
      split at h
      · rename_i hp
        split at h
        · rename_i n rest hl
          split at h
          · rename_i hn
            cases h
            obtain ⟨len, hlen, rfl⟩ := takeLength_iff.1 hl
            refine ⟨tag, len, rest.drop n, hp, ?_, by simp [List.take_append_drop]⟩
            rwa [List.length_take, Nat.min_eq_left hn]
          · cases h
        · cases h
      · cases h
  · rintro ⟨tag, len, rest, hp, hlen, rfl⟩
    have hl : takeLength w (len ++ (body ++ rest)) = some (body.length, body ++ rest) :=
      takeLength_iff.2 ⟨len, hlen, rfl⟩
    simp [enter, hp, hl]

theorem skip_iff {w : Nat} {p : UInt8 → Bool} {bs rest : List UInt8} :
    skip w p bs = some rest ↔ Skips w p bs rest := by
  constructor
  · intro h
    cases bs with
    | nil => cases h
    | cons tag bs =>
      simp only [skip] at h
      split at h
      · rename_i hp
        split at h
        · rename_i n tail hl
          split at h
          · rename_i hn
            cases h
            obtain ⟨len, hlen, rfl⟩ := takeLength_iff.1 hl
            refine ⟨tag, len, tail.take n, hp, ?_, by simp [List.take_append_drop]⟩
            rwa [List.length_take, Nat.min_eq_left hn]
          · cases h
        · cases h
      · cases h
  · rintro ⟨tag, len, body, hp, hlen, rfl⟩
    have hl : takeLength w (len ++ (body ++ rest)) = some (body.length, body ++ rest) :=
      takeLength_iff.2 ⟨len, hlen, rfl⟩
    simp [skip, hp, hl]

theorem skip_length {w : Nat} {p : UInt8 → Bool} {bs rest : List UInt8}
    (h : skip w p bs = some rest) : rest.length < bs.length := by
  obtain ⟨tag, len, body, _, _, rfl⟩ := skip_iff.1 h
  simp; lia

/-! ## Runs of records -/

/-- The first byte of `bs` satisfies `p`. -/
def headIs (p : UInt8 → Bool) : List UInt8 → Bool
  | [] => false
  | b :: _ => p b

/-- `rest` is what follows the longest run of records with a tag in `p`; a further byte has to
follow the run. -/
inductive SkipAll (w : Nat) (p : UInt8 → Bool) : List UInt8 → List UInt8 → Prop where
  | done (bs : List UInt8) (hne : bs ≠ []) (hp : headIs p bs = false) : SkipAll w p bs bs
  | step (bs mid rest : List UInt8) (hs : Skips w p bs mid) (hr : SkipAll w p mid rest) :
      SkipAll w p bs rest

/-- Reader for `SkipAll`; the fuel bounds the number of records. -/
def skipAll (w : Nat) (p : UInt8 → Bool) : Nat → List UInt8 → Option (List UInt8)
  | 0, bs => if bs ≠ [] ∧ headIs p bs = false then some bs else none
  | fuel + 1, bs =>
    if headIs p bs then
      match skip w p bs with
      | some rest => skipAll w p fuel rest
      | none => none
    else if bs = [] then none else some bs

theorem skips_headIs {w : Nat} {p : UInt8 → Bool} {bs rest : List UInt8}
    (h : Skips w p bs rest) : headIs p bs = true := by
  obtain ⟨tag, len, body, hp, _, rfl⟩ := h
  exact hp

theorem skipAll_iff {w : Nat} {p : UInt8 → Bool} : ∀ {fuel : Nat} {bs rest : List UInt8},
    bs.length ≤ fuel → (skipAll w p fuel bs = some rest ↔ SkipAll w p bs rest)
  | 0, bs, rest, hf => by
    have hb : bs = [] := List.eq_nil_of_length_eq_zero (by lia)
    subst hb
    constructor
    · intro h
      simp [skipAll] at h
    · intro h
      cases h with
      | done _ hne _ => exact absurd rfl hne
      | step _ _ _ hs _ => cases skips_headIs hs
  | fuel + 1, bs, rest, hf => by
    simp only [skipAll]
    split
    · rename_i hh
      constructor
      · intro h
        split at h
        · rename_i mid hs
          have hlt := skip_length hs
          exact .step _ _ _ (skip_iff.1 hs) ((skipAll_iff (by lia)).1 h)
        · cases h
      · intro h
        cases h with
        | done _ _ hp => rw [hp] at hh; cases hh
        | step _ mid _ hs hr =>
          have hs' := skip_iff.2 hs
          have hlt := skip_length hs'
          rw [hs']
          exact (skipAll_iff (by lia)).2 hr
    · rename_i hh
      have hh' : headIs p bs = false := by simpa using hh
      constructor
      · intro h
        split at h
        · cases h
        · rename_i hne
          cases h
          exact .done _ hne hh'
      · intro h
        cases h with
        | done _ hne _ => rw [if_neg hne]
        | step _ _ _ hs _ => exact absurd (skips_headIs hs) hh

/-! ## Canonical records -/

/-- The shortest string of octets with value `n`, at least one of them. -/
def octets (n : Nat) : List UInt8 :=
  if n < 256 then [UInt8.ofNat n] else octets (n / 256) ++ [UInt8.ofNat (n % 256)]
termination_by n
decreasing_by omega

/-- The shortest length field for `n`. -/
def lengthField (n : Nat) : List UInt8 :=
  if n < 128 then [UInt8.ofNat n] else UInt8.ofNat (128 + (octets n).length) :: octets n

def record (tag : UInt8) (body : List UInt8) : List UInt8 :=
  tag :: lengthField body.length ++ body

/-- An optional record. -/
def optRecord (tag : UInt8) : Option (List UInt8) → List UInt8
  | none => []
  | some body => record tag body

theorem ofOctets_octets (n : Nat) : ofOctets (octets n) = n := by
  rw [octets]
  split
  · rename_i h
    simp [ofOctets, Nat.mod_eq_of_lt h]
  · have ih := ofOctets_octets (n / 256)
    simp only [ofOctets, List.foldl_append, List.foldl_cons, List.foldl_nil] at ih ⊢
    rw [ih, UInt8.toNat_ofNat', Nat.mod_eq_of_lt (by lia)]
    lia
termination_by n
decreasing_by lia

theorem octets_length_le : ∀ (k n : Nat), 0 < k → n < 256 ^ k → (octets n).length ≤ k
  | 0, _, hk, _ => by lia
  | k + 1, n, _, hn => by
    rw [octets]
    split
    · simp
    · rename_i h
      have hk : 0 < k := by
        rcases Nat.eq_zero_or_pos k with rfl | hk
        · simp at hn; lia
        · exact hk
      have ih := octets_length_le k (n / 256) hk (by
        rw [Nat.div_lt_iff_lt_mul (by lia)]
        rwa [Nat.pow_succ] at hn)
      simp only [List.length_append, List.length_cons, List.length_nil]
      lia

/-- **The shortest length field is well formed**, as long as the reader takes that many octets. -/
theorem lengthField_spec {w n : Nat} (hw : 1 < w) (hw' : w ≤ 128) (hn : n < 256 ^ (w - 1)) :
    LengthField w (lengthField n) n := by
  unfold lengthField
  split
  · rename_i h
    have hb : (UInt8.ofNat n).toNat = n := by
      rw [UInt8.toNat_ofNat', Nat.mod_eq_of_lt (by lia)]
    have := LengthField.short (w := w) (UInt8.ofNat n) (by lia)
    rwa [hb] at this
  · have hl := octets_length_le (w - 1) n (by lia) hn
    have := LengthField.long (w := w) (UInt8.ofNat (128 + (octets n).length)) (octets n)
      (by rw [UInt8.toNat_ofNat', Nat.mod_eq_of_lt (by lia)]) (by lia)
    rwa [ofOctets_octets] at this

section Reading

variable {w : Nat} {p : UInt8 → Bool} {tag : UInt8} {body rest : List UInt8}

theorem takeLength_lengthField (hw : 1 < w) (hw' : w ≤ 128) {n : Nat}
    (hn : n < 256 ^ (w - 1)) : takeLength w (lengthField n ++ rest) = some (n, rest) :=
  takeLength_iff.2 ⟨_, lengthField_spec hw hw' hn, rfl⟩

theorem enter_record (hw : 1 < w) (hw' : w ≤ 128) (hb : body.length < 256 ^ (w - 1)) :
    enter w p (record tag body ++ rest) = if p tag then some body else none := by
  have hl : takeLength w (lengthField body.length ++ (body ++ rest)) =
      some (body.length, body ++ rest) := takeLength_lengthField hw hw' hb
  simp [record, enter, hl]

theorem skip_record (hw : 1 < w) (hw' : w ≤ 128) (hb : body.length < 256 ^ (w - 1)) :
    skip w p (record tag body ++ rest) = if p tag then some rest else none := by
  have hl : takeLength w (lengthField body.length ++ (body ++ rest)) =
      some (body.length, body ++ rest) := takeLength_lengthField hw hw' hb
  simp [record, skip, hl]

theorem skipAll_optRecord {next : List UInt8} (hw : 1 < w) (hw' : w ≤ 128) (hp : p tag = true)
    {o : Option (List UInt8)} (ho : ∀ body ∈ o, body.length < 256 ^ (w - 1))
    (h : SkipAll w p rest next) : SkipAll w p (optRecord tag o ++ rest) next := by
  cases o with
  | none => exact h
  | some body =>
    apply SkipAll.step _ rest _ _ h
    apply skip_iff.1
    rw [optRecord, skip_record hw hw' (ho body rfl), if_pos hp]

/-- A run of records ends in front of one with another tag. -/
theorem skipAll_stop (hp : p tag = false) :
    SkipAll w p (record tag body ++ rest) (record tag body ++ rest) :=
  .done _ (List.cons_ne_nil _ _) hp

end Reading

end Recovery.Der
