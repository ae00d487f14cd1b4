import Recovery.Lib.Access
import Recovery.Verifier.Asn1Decoder

/-!
# `asn1_context` as a pointer and a length

`RawContext` carries no proof: `p_` is advanced by `size_t` arithmetic and dereferenced without
looking, and a failed operation leaves the context where it stopped.

* `Ran` — a run of an operation on the raw context of an `Asn1Context`: no fault, the context
  afterwards lies within the one before.
* `getByte_raw`, `decodeLength_raw`, … — one such fact for each operation, with the result of the
  bounded operation of `Asn1Decoder`.
* `walkRun_nested` — any sequence of operations on any of the contexts created so far stays inside
  the input, every context inside the one it was taken from.
-/

set_option autoImplicit false

namespace Recovery.Verifier

open Recovery.Memory

structure RawContext where
  p : Nat
  length : Nat
  appType : UInt8

namespace RawContext

variable (buffer : List UInt8)

def peekByte (c : RawContext) : Access (Option UInt8) :=
  if c.length = 0 then pure none else do
    let byte ← readAt buffer c.p
    pure (some byte)

def getByte (c : RawContext) : Access (Option UInt8 × RawContext) :=
  if c.length = 0 then pure (none, c) else do
    let byte ← readAt buffer c.p
    pure (some byte, { c with p := add64 c.p 1, length := sub64 c.length 1 })

def skipBytes (c : RawContext) (numSkip : Nat) : Bool × RawContext :=
  if c.length < numSkip then (false, c)
  else (true, { c with p := add64 c.p numSkip, length := sub64 c.length numSkip })

def lengthOctets : Nat → Nat → RawContext → Access (Option Nat × RawContext)
  | 0, length, c => pure (some length, c)
  | n + 1, length, c => do
    let (byte, c) ← c.getByte buffer
    match byte with
    | none => pure (none, c)
    | some byte => lengthOctets n (add64 (shl64 length 8) byte.toNat) c

def decodeLength (c : RawContext) : Access (Option Nat × RawContext) := do
  let (numOctets, c) ← c.getByte buffer
  match numOctets with
  | none => pure (none, c)
  | some numOctets =>
    if numOctets &&& 0x80 = 0x00 then pure (some numOctets.toNat, c)
    else
      let numOctets := (numOctets &&& kMaskTag).toNat
      if numOctets ≥ SIZEOF_SIZE_T then pure (none, c) else lengthOctets buffer numOctets 0 c

/-- `decode_length` and the check behind it; the content is not passed. -/
def enclosedLength (c : RawContext) : Access (Option Nat × RawContext) := do
  let (length, c) ← c.decodeLength buffer
  match length with
  | none => pure (none, c)
  | some length => if length > c.length then pure (none, c) else pure (some length, c)

def asn1ConstructedGet (c : RawContext) : Access (Option RawContext × RawContext) := do
  let (type, c) ← c.getByte buffer
  match type with
  | none => pure (none, c)
  | some type =>
    if type &&& kMaskConstructed ≠ kTagConstructed then pure (none, c) else do
    let (length, c) ← c.enclosedLength buffer
    pure (length.map fun length => ⟨c.p, length, type &&& kMaskAppType⟩, c)

/-- `asn1_sequence_get` and `asn1_set_get`, for the tag they expect. -/
def taggedGet (tag : UInt8) (c : RawContext) : Access (Option RawContext × RawContext) := do
  let (byte, c) ← c.getByte buffer
  match byte with
  | none => pure (none, c)
  | some byte =>
    if byte &&& kMaskTag ≠ tag then pure (none, c) else do
    let (length, c) ← c.enclosedLength buffer
    pure (length.map fun length => ⟨c.p, length, 0⟩, c)

/-- The loop of `asn1_constructed_skip_all`. -/
def constructedSkipLoop : Nat → RawContext → Access (Bool × RawContext)
  | 0, _ => throw .stuck
  | fuel + 1, c => do
    let byte ← c.peekByte buffer
    match byte with
    | none => pure (false, c)
    | some byte =>
      if byte &&& kMaskConstructed = kTagConstructed then do
        let (_, c) := c.skipBytes 1
        let (length, c) ← c.decodeLength buffer
        match length with
        | none => pure (false, c)
        | some length =>
          let (skipped, c) := c.skipBytes length
          if skipped then constructedSkipLoop fuel c else pure (false, c)
      else pure (true, c)

def asn1ConstructedSkipAll (c : RawContext) : Access (Bool × RawContext) :=
  constructedSkipLoop buffer (c.length + 1) c

def asn1SequenceGet (c : RawContext) : Access (Option RawContext × RawContext) :=
  c.taggedGet buffer kTagSequence

def asn1SetGet (c : RawContext) : Access (Option RawContext × RawContext) :=
  c.taggedGet buffer kTagSet

def asn1SequenceNext (c : RawContext) : Access (Bool × RawContext) := do
  let (byte, c) ← c.getByte buffer
  match byte with
  | none => pure (false, c)
  | some _ => do
    let (length, c) ← c.decodeLength buffer
    match length with
    | none => pure (false, c)
    | some length => pure (c.skipBytes length)

/-- `asn1_oid_get` and `asn1_octet_string_get`, for the tag they expect. -/
def stringGet (tag : UInt8) (c : RawContext) : Access (Option (Nat × Nat) × RawContext) := do
  let (byte, c) ← c.getByte buffer
  match byte with
  | none => pure (none, c)
  | some byte =>
    if byte ≠ tag then pure (none, c) else do
    let (length, c) ← c.decodeLength buffer
    match length with
    | none => pure (none, c)
    | some length =>
      if length = 0 ∨ length > c.length then pure (none, c) else pure (some (c.p, length), c)

def asn1OidGet (c : RawContext) : Access (Option (Nat × Nat) × RawContext) :=
  c.stringGet buffer kTagOid

def asn1OctetStringGet (c : RawContext) : Access (Option (Nat × Nat) × RawContext) :=
  c.stringGet buffer kTagOctetString

end RawContext

/-! ## Each operation on a context inside the buffer -/

namespace Asn1Context

variable {buffer : List UInt8}

/-- The context without its proof. -/
def raw (c : Asn1Context buffer) : RawContext := ⟨c.p, c.length, c.appType⟩

@[simp] theorem raw_p (c : Asn1Context buffer) : c.raw.p = c.p := rfl
@[simp] theorem raw_length (c : Asn1Context buffer) : c.raw.length = c.length := rfl

/-- The bytes of `c'` are among those of `c`. -/
def Within (c' c : Asn1Context buffer) : Prop := c.p ≤ c'.p ∧ c'.p + c'.length ≤ c.p + c.length

theorem Within.refl (c : Asn1Context buffer) : c.Within c := ⟨Nat.le_refl _, Nat.le_refl _⟩

theorem Within.trans {c₁ c₂ c₃ : Asn1Context buffer} (h : c₁.Within c₂) (h' : c₂.Within c₃) :
    c₁.Within c₃ :=
  ⟨Nat.le_trans h'.1 h.1, Nat.le_trans h.2 h'.2⟩

/-- `x` ran on the raw context of `c` without a fault: it returned `r` and left a context within
`c`, for which `Q` holds. -/
def Ran {α : Type} (x : Access (α × RawContext)) (c : Asn1Context buffer) (r : α)
    (Q : Asn1Context buffer → Prop) : Prop :=
  ∃ c' : Asn1Context buffer, x = .ok (r, c'.raw) ∧ c'.Within c ∧ Q c'

section Rules

variable {α β : Type} {c : Asn1Context buffer} {r : α} {Q : Asn1Context buffer → Prop}

theorem Ran.done (h : Q c) : Ran (.ok (r, c.raw)) c r Q := ⟨c, rfl, Within.refl c, h⟩

theorem Ran.mono {x : Access (α × RawContext)} {d : Asn1Context buffer} (h : Ran x d r Q)
    (hd : d.Within c) : Ran x c r Q := by
  obtain ⟨e, he, hw, hq⟩ := h
  exact ⟨e, he, hw.trans hd, hq⟩

theorem Ran.bind {x : Access (α × RawContext)} {f : α × RawContext → Access (β × RawContext)}
    {s : β} {P : Asn1Context buffer → Prop} (hx : Ran x c r Q)
    (hf : ∀ d, d.Within c → Q d → Ran (f (r, d.raw)) d s P) : Ran (x >>= f) c s P := by
  obtain ⟨d, rfl, hd, hq⟩ := hx
  obtain ⟨e, he, hw, hp⟩ := hf d hd hq
  exact ⟨e, he, hw.trans hd, hp⟩

end Rules

section Operations

variable (hfit : buffer.length < 2 ^ 64) (c : Asn1Context buffer)

theorem peekByte_raw : c.raw.peekByte buffer = .ok c.peekByte := by
  have hin := c.inside
  unfold RawContext.peekByte peekByte
  by_cases h : c.length = 0
  · rw [raw_length, if_pos h, dif_pos h]; rfl
  · rw [raw_length, raw_p, if_neg h, dif_neg h, readAt_eq (by lia)]
    rfl

include hfit

theorem getByte_raw : Ran (c.raw.getByte buffer) c c.getByte.1 (fun d => d = c.getByte.2) := by
  have hin := c.inside
  unfold RawContext.getByte getByte
  by_cases h : c.length = 0
  · rw [raw_length, if_pos h, dif_pos h]
    exact .done rfl
  · rw [raw_length, raw_p, if_neg h, dif_neg h, readAt_eq (by lia)]
    refine ⟨_, ?_, ?_, rfl⟩
    · have hp : add64 c.p 1 = c.p + 1 := add64_eq (by lia)
      have hl : sub64 c.length 1 = c.length - 1 := sub64_eq (by lia) (by lia)
      simp [hp, hl, raw]
    · exact ⟨by simp, by simp; lia⟩

theorem skipBytes_raw (n : Nat) :
    ∃ d, c.raw.skipBytes n = ((c.skipBytes n).isSome, raw d) ∧ d.Within c ∧
      ∀ e ∈ c.skipBytes n, d = e := by
  have hin := c.inside
  unfold RawContext.skipBytes skipBytes
  by_cases h : c.length < n
  · rw [raw_length, if_pos h, dif_pos h]
    exact ⟨c, rfl, Within.refl c, by simp⟩
  · rw [raw_length, raw_p, if_neg h, dif_neg h]
    refine ⟨_, ?_, ?_, fun e he => Option.some.inj he⟩
    · have hp : add64 c.p n = c.p + n := add64_eq (by lia)
      have hl : sub64 c.length n = c.length - n := sub64_eq (by lia) (by lia)
      simp [hp, hl, raw]
    · exact ⟨by simp, by simp; lia⟩

/-- The octets of a length do not wrap around: `n` more of them fit behind `acc`. -/
theorem lengthOctets_raw : ∀ (n acc : Nat) (c : Asn1Context buffer),
    (acc + 1) * 256 ^ n ≤ 2 ^ 64 →
    Ran (RawContext.lengthOctets buffer n acc c.raw) c ((lengthOctets n acc c).map Prod.fst)
      (fun d => ∀ r ∈ lengthOctets n acc c, d = r.2)
  | 0, acc, c, _ => .done fun r hr => by cases hr; rfl
  | n + 1, acc, c, hacc => by
    unfold RawContext.lengthOctets lengthOctets
    apply Ran.bind (getByte_raw hfit c)
    rintro d - rfl
    rcases hg : c.getByte with ⟨_ | byte, d⟩
    · exact .done fun r hr => by cases hr
    · have hb := byte.toNat_lt
      have hpow : 1 ≤ 256 ^ n := Nat.one_le_pow _ _ (by lia)
      have hstep : (acc * 256 + 256) * 256 ^ n ≤ 2 ^ 64 := by
        calc (acc * 256 + 256) * 256 ^ n = (acc + 1) * 256 ^ (n + 1) := by
              rw [Nat.pow_succ, Nat.mul_comm (256 ^ n), ← Nat.mul_assoc, Nat.add_mul acc, Nat.one_mul]
          _ ≤ 2 ^ 64 := hacc
      have hsmall : acc * 256 + 256 ≤ 2 ^ 64 :=
        Nat.le_trans (Nat.le_mul_of_pos_right _ hpow) hstep
      have hnext : add64 (shl64 acc 8) byte.toNat = (acc <<< 8) + byte.toNat := by
        rw [shl64_eq (by lia), add64_eq (by lia), Nat.shiftLeft_eq]
      simp only [hnext]
      apply lengthOctets_raw n _ d
      refine Nat.le_trans (Nat.mul_le_mul_right _ ?_) hstep
      rw [Nat.shiftLeft_eq]
      lia

theorem decodeLength_raw :
    Ran (c.raw.decodeLength buffer) c (c.decodeLength.map Prod.fst)
      (fun d => ∀ r ∈ c.decodeLength, d = r.2) := by
  unfold RawContext.decodeLength decodeLength
  apply Ran.bind (getByte_raw hfit c)
  rintro d - rfl
  rcases hg : c.getByte with ⟨_ | numOctets, d⟩
  · exact .done fun r hr => by cases hr
  · by_cases h : numOctets &&& 0x80 = 0x00
    · simp only [if_pos h]
      exact .done fun r hr => by cases hr; rfl
    · simp only [if_neg h]
      by_cases hn : (numOctets &&& kMaskTag).toNat ≥ SIZEOF_SIZE_T
      · simp only [if_pos hn]
        exact .done fun r hr => by cases hr
      · simp only [if_neg hn]
        apply lengthOctets_raw hfit
        have hle : (numOctets &&& kMaskTag).toNat ≤ 8 := by simp only [SIZEOF_SIZE_T] at hn; lia
        have h256 : 256 ^ 8 = 2 ^ 64 := by decide
        rw [Nat.zero_add, Nat.one_mul, ← h256]
        exact Nat.pow_le_pow_right (by lia) hle

/-- A length that passes the check behind it belongs to content inside the context. -/
theorem enclosedLength_raw :
    Ran (c.raw.enclosedLength buffer) c
      ((c.decodeLength.filter fun r => r.1 ≤ r.2.length).map Prod.fst)
      (fun d => ∀ r ∈ c.decodeLength, d = r.2) := by
  unfold RawContext.enclosedLength
  apply Ran.bind (decodeLength_raw hfit c)
  intro d _ hd
  cases hr : c.decodeLength with
  | none => exact .done fun r hr => by cases hr
  | some r =>
    obtain rfl := hd r hr
    by_cases hle : r.1 ≤ r.2.length
    · simp only [Option.map_some, Option.filter_some, decide_eq_true hle, if_true]
      rw [if_neg (by simpa using hle)]
      exact .done fun r' hr' => by cases hr'; rfl
    · simp only [Option.map_some, Option.filter_some]
      rw [if_pos (by simpa using hle), if_neg (by simpa using hle)]
      exact .done fun r' hr' => by cases hr'; rfl

/-- A context taken from another one lies behind the length field, inside the other one. -/
theorem child_raw (t : UInt8) :
    Ran (do let (length, c) ← c.raw.enclosedLength buffer
            pure (length.map fun length => ⟨c.p, length, t⟩, c)) c
      ((c.decodeLength.bind fun r => r.2.child r.1 t).map raw)
      (fun d => ∀ e ∈ c.decodeLength.bind fun r => r.2.child r.1 t, e.Within d) := by
  apply Ran.bind (enclosedLength_raw hfit c)
  intro d _ hd
  cases hr : c.decodeLength with
  | none => exact .done fun r hr => by cases hr
  | some r =>
    obtain rfl := hd r hr
    by_cases hle : r.1 ≤ r.2.length
    · simp only [Option.filter_some, decide_eq_true hle, if_true, Option.map_some,
        Option.bind_some, child, dif_neg (Nat.not_lt.2 hle)]
      exact .done fun e he => by cases he; exact ⟨Nat.le_refl _, by simpa using hle⟩
    · simp only [Option.filter_some, Option.bind_some, child, dif_pos (Nat.lt_of_not_le hle)]
      rw [if_neg (by simpa using hle)]
      exact .done fun r' hr' => by cases hr'

theorem taggedGet_raw (tag : UInt8) :
    Ran (c.raw.taggedGet buffer tag) c ((c.taggedGet tag).map raw)
      (fun d => ∀ e ∈ c.taggedGet tag, e.Within d) := by
  unfold RawContext.taggedGet taggedGet
  apply Ran.bind (getByte_raw hfit c)
  rintro d - rfl
  rcases hg : c.getByte with ⟨_ | byte, d⟩
  · exact .done fun r hr => by cases hr
  · by_cases ht : byte &&& kMaskTag ≠ tag
    · simp only [if_pos ht]
      exact .done fun r hr => by cases hr
    · simp only [if_neg ht]
      have h := child_raw hfit d 0
      cases hr : d.decodeLength <;> rw [hr] at h <;> exact h

theorem asn1ConstructedGet_raw :
    Ran (c.raw.asn1ConstructedGet buffer) c (c.asn1ConstructedGet.map raw)
      (fun d => ∀ e ∈ c.asn1ConstructedGet, e.Within d) := by
  unfold RawContext.asn1ConstructedGet asn1ConstructedGet
  apply Ran.bind (getByte_raw hfit c)
  rintro d - rfl
  rcases hg : c.getByte with ⟨_ | type, d⟩
  · exact .done fun r hr => by cases hr
  · by_cases ht : type &&& kMaskConstructed ≠ kTagConstructed
    · simp only [if_pos ht]
      exact .done fun r hr => by cases hr
    · simp only [if_neg ht]
      have h := child_raw hfit d (type &&& kMaskAppType)
      cases hr : d.decodeLength <;> rw [hr] at h <;> exact h

/-- `decode_length` and `skip_bytes`, the tail of an element. -/
theorem skipContent_raw :
    Ran (do let (length, c) ← c.raw.decodeLength buffer
            match length with
            | none => pure (false, c)
            | some length => pure (c.skipBytes length)) c
      (c.decodeLength.bind fun r => r.2.skipBytes r.1).isSome
      (fun d => ∀ e ∈ c.decodeLength.bind fun r => r.2.skipBytes r.1, d = e) := by
  apply Ran.bind (decodeLength_raw hfit c)
  intro d _ hd
  cases hr : c.decodeLength with
  | none => exact .done fun r hr => by cases hr
  | some r =>
    obtain rfl := hd r hr
    obtain ⟨e, he, hw, hq⟩ := skipBytes_raw hfit r.2 r.1
    exact ⟨e, congrArg Except.ok he, hw, hq⟩

theorem asn1SequenceNext_raw :
    Ran (c.raw.asn1SequenceNext buffer) c c.asn1SequenceNext.isSome
      (fun d => ∀ e ∈ c.asn1SequenceNext, d = e) := by
  unfold RawContext.asn1SequenceNext asn1SequenceNext
  apply Ran.bind (getByte_raw hfit c)
  rintro d - rfl
  rcases hg : c.getByte with ⟨_ | byte, d⟩
  · exact .done fun r hr => by cases hr
  · have h := skipContent_raw hfit d
    dsimp only
    cases hr : d.decodeLength <;> rw [hr] at h <;> exact h

theorem stringGet_raw (tag : UInt8) :
    Ran (c.raw.stringGet buffer tag) c (c.stringGet tag)
      (fun d => ∀ r ∈ c.stringGet tag, r.1 = d.p ∧ r.2 ≤ d.length) := by
  unfold RawContext.stringGet stringGet
  apply Ran.bind (getByte_raw hfit c)
  rintro d - rfl
  rcases hg : c.getByte with ⟨_ | byte, d⟩
  · exact .done fun r hr => by cases hr
  · by_cases ht : byte ≠ tag
    · simp only [if_pos ht]
      exact .done fun r hr => by cases hr
    · simp only [if_neg ht]
      apply Ran.bind (decodeLength_raw hfit d)
      intro e _ he
      cases hr : d.decodeLength with
      | none => exact .done fun r hr => by cases hr
      | some r =>
        obtain rfl := he r hr
        simp only [Option.map_some]
        by_cases hl : r.1 = 0 ∨ r.1 > r.2.length
        · rw [if_pos hl]
          have hl' : r.1 = 0 ∨ r.1 > r.2.raw.length := hl
          rw [if_pos hl']
          exact .done fun r hr => by cases hr
        · rw [if_neg hl]
          have hl' : ¬ (r.1 = 0 ∨ r.1 > r.2.raw.length) := hl
          rw [if_neg hl']
          exact .done fun r' hr' => by cases hr'; exact ⟨rfl, by omega⟩

/-- A round of the loop reads the tag byte, so the fuel of the bounded loop is enough here. -/
theorem constructedSkipLoop_raw : ∀ (fuel : Nat) (c : Asn1Context buffer), c.length ≤ fuel →
    Ran (c.raw.constructedSkipLoop buffer (fuel + 1)) c (constructedSkipLoop fuel c).isSome
      (fun d => ∀ e ∈ constructedSkipLoop fuel c, d = e) := by
  intro fuel
  induction fuel with
  | zero =>
    intro c hf
    unfold RawContext.constructedSkipLoop constructedSkipLoop
    rw [peekByte_raw]
    have hp : c.peekByte = none := by unfold peekByte; rw [dif_pos (by omega)]
    simp only [hp]
    exact .done fun r hr => by cases hr
  | succ fuel ih =>
    intro c hf
    unfold RawContext.constructedSkipLoop constructedSkipLoop
    rw [peekByte_raw]
    cases hp : c.peekByte with
    | none => exact .done fun r hr => by cases hr
    | some byte =>
      simp only [ok_bind]
      by_cases ht : byte &&& kMaskConstructed = kTagConstructed
      · simp only [if_pos ht]
        have hpos : ¬ c.length < 1 := by
          intro h
          unfold peekByte at hp
          rw [dif_pos (by omega)] at hp
          cases hp
        obtain ⟨c1, hs, hw1, hq1⟩ := skipBytes_raw hfit c 1
        rw [hs]
        have h1 : ∃ e, c.skipBytes 1 = some e ∧ e.length = c.length - 1 := by
          unfold skipBytes
          rw [dif_neg hpos]
          exact ⟨_, rfl, rfl⟩
        obtain ⟨e, he, hlen⟩ := h1
        obtain rfl := hq1 e he
        simp only [he]
        apply Ran.mono _ hw1
        apply Ran.bind (decodeLength_raw hfit c1)
        intro c2 hw2 hq2
        cases hr : c1.decodeLength with
        | none => exact .done fun r hr => by cases hr
        | some r =>
          obtain rfl := hq2 r hr
          obtain ⟨c3, hs3, hw3, hq3⟩ := skipBytes_raw hfit r.2 r.1
          simp only [Option.map_some, hs3]
          apply Ran.mono _ hw3
          cases hr3 : r.2.skipBytes r.1 with
          | none => exact .done fun r hr => by cases hr
          | some e =>
            obtain rfl := hq3 e hr3
            have hle : c3.length ≤ fuel := by
              have h2 := hw2.2
              have h2' := hw2.1
              have h3 := hw3.2
              have h3' := hw3.1
              omega
            exact ih c3 hle
      · simp only [if_neg ht]
        exact .done fun r hr => by cases hr; rfl

theorem asn1ConstructedSkipAll_raw :
    Ran (c.raw.asn1ConstructedSkipAll buffer) c c.asn1ConstructedSkipAll.isSome
      (fun d => ∀ e ∈ c.asn1ConstructedSkipAll, d = e) :=
  constructedSkipLoop_raw hfit c.length c (Nat.le_refl _)

end Operations

end Asn1Context

/-! ## Any sequence of operations -/

inductive Asn1Op where
  | peekByte
  | getByte
  | skipBytes (numSkip : Nat)
  | decodeLength
  | constructedGet
  | constructedSkipAll
  | sequenceGet
  | setGet
  | sequenceNext
  | oidGet
  | octetStringGet

/-- Run an operation: the context it creates, if any, and the one it leaves. -/
def Asn1Op.perform (buffer : List UInt8) (c : RawContext) :
    Asn1Op → Access (Option RawContext × RawContext)
  | .peekByte => do let _ ← c.peekByte buffer; pure (none, c)
  | .getByte => do let (_, c) ← c.getByte buffer; pure (none, c)
  | .skipBytes n => pure (none, (c.skipBytes n).2)
  | .decodeLength => do let (_, c) ← c.decodeLength buffer; pure (none, c)
  | .constructedGet => c.asn1ConstructedGet buffer
  | .constructedSkipAll => do let (_, c) ← c.asn1ConstructedSkipAll buffer; pure (none, c)
  | .sequenceGet => c.asn1SequenceGet buffer
  | .setGet => c.asn1SetGet buffer
  | .sequenceNext => do let (_, c) ← c.asn1SequenceNext buffer; pure (none, c)
  | .oidGet => do let (_, c) ← c.asn1OidGet buffer; pure (none, c)
  | .octetStringGet => do let (_, c) ← c.asn1OctetStringGet buffer; pure (none, c)

/-- A context and the one it was taken from, as that one was at the time. -/
structure Held where
  ctx : RawContext
  parent : RawContext

/-- One operation on the `i`th of the contexts created so far. -/
def walkStep (buffer : List UInt8) (held : List Held) (cmd : Nat × Asn1Op) : Access (List Held) :=
  match held[cmd.1]? with
  | none => pure held
  | some h => do
    let (child, c) ← cmd.2.perform buffer h.ctx
    pure (held.set cmd.1 ⟨c, h.parent⟩ ++ (child.map fun e => Held.mk e h.ctx).toList)

def walkRun (buffer : List UInt8) (held : List Held) (cmds : List (Nat × Asn1Op)) :
    Access (List Held) :=
  cmds.foldlM (walkStep buffer) held

def RawContext.ofBuffer (buffer : List UInt8) : RawContext := ⟨0, buffer.length, 0⟩

/-- The context lies inside the one it was taken from, and that one inside the buffer. -/
structure Held.Nested (buffer : List UInt8) (h : Held) : Prop where
  start : h.parent.p ≤ h.ctx.p
  stop : h.ctx.p + h.ctx.length ≤ h.parent.p + h.parent.length
  inside : h.parent.p + h.parent.length ≤ buffer.length

namespace Asn1Context

variable {buffer : List UInt8}

/-- An operation that creates no context. -/
theorem perform_none {α : Type} {x : Access (α × RawContext)} {c : Asn1Context buffer} {r : α}
    {Q : Asn1Context buffer → Prop} (h : Ran x c r Q) :
    Ran (do let (_, c) ← x; pure ((none : Option RawContext), c)) c none (fun _ => True) :=
  h.bind fun _ _ _ => .done trivial

/-- **One operation**: no fault, the context shrinks and a new context lies inside the old one. -/
theorem perform_raw (hfit : buffer.length < 2 ^ 64) (c : Asn1Context buffer) (op : Asn1Op) :
    ∃ child : Option (Asn1Context buffer),
      Ran (op.perform buffer c.raw) c (child.map raw) (fun d => ∀ e ∈ child, e.Within d) := by
  have none_case : ∀ {x : Access (Option RawContext × RawContext)},
      Ran x c none (fun _ => True) → ∃ child : Option (Asn1Context buffer),
        Ran x c (child.map raw) (fun d => ∀ e ∈ child, e.Within d) := by
    rintro x ⟨d, hx, hd, -⟩
    exact ⟨none, d, hx, hd, fun e he => by cases he⟩
  cases op with
  | peekByte =>
    apply none_case
    unfold Asn1Op.perform
    rw [peekByte_raw]
    exact .done trivial
  | getByte => exact none_case (perform_none (getByte_raw hfit c))
  | skipBytes n =>
    obtain ⟨d, hd, hw, -⟩ := skipBytes_raw hfit c n
    apply none_case
    exact ⟨d, by rw [Asn1Op.perform, hd]; rfl, hw, trivial⟩
  | decodeLength => exact none_case (perform_none (decodeLength_raw hfit c))
  | constructedGet => exact ⟨_, asn1ConstructedGet_raw hfit c⟩
  | constructedSkipAll => exact none_case (perform_none (asn1ConstructedSkipAll_raw hfit c))
  | sequenceGet => exact ⟨_, taggedGet_raw hfit c kTagSequence⟩
  | setGet => exact ⟨_, taggedGet_raw hfit c kTagSet⟩
  | sequenceNext => exact none_case (perform_none (asn1SequenceNext_raw hfit c))
  | oidGet => exact none_case (perform_none (stringGet_raw hfit c kTagOid))
  | octetStringGet => exact none_case (perform_none (stringGet_raw hfit c kTagOctetString))

end Asn1Context

theorem walkStep_nested {buffer : List UInt8} (hfit : buffer.length < 2 ^ 64) {held : List Held}
    (hn : ∀ h ∈ held, h.Nested buffer) (cmd : Nat × Asn1Op) :
    ∃ held', walkStep buffer held cmd = .ok held' ∧ ∀ h ∈ held', h.Nested buffer := by
  unfold walkStep
  cases hg : held[cmd.1]? with
  | none => exact ⟨held, rfl, hn⟩
  | some h =>
    have hh := hn h (List.mem_of_getElem? hg)
    have hin : h.ctx.p + h.ctx.length ≤ buffer.length := Nat.le_trans hh.stop hh.inside
    let c : Asn1Context buffer := ⟨h.ctx.p, h.ctx.length, h.ctx.appType, hin⟩
    obtain ⟨child, d, hx, hd, hchild⟩ := Asn1Context.perform_raw hfit c cmd.2
    have hx' : cmd.2.perform buffer h.ctx = .ok (child.map Asn1Context.raw, d.raw) := hx
    refine ⟨_, by simp only [hx']; rfl, ?_⟩
    intro h' hmem
    rcases List.mem_append.1 hmem with hmem | hmem
    · rcases List.mem_or_eq_of_mem_set hmem with hmem | rfl
      · exact hn h' hmem
      · exact ⟨Nat.le_trans hh.start hd.1, Nat.le_trans hd.2 hh.stop, hh.inside⟩
    · simp only [Option.map_map, Option.mem_toList, Option.map_eq_some_iff] at hmem
      obtain ⟨e, he, rfl⟩ := hmem
      have hw := (hchild e he).trans hd
      exact ⟨hw.1, hw.2, hin⟩

/-- **Any walk**: however the operations are chosen and whichever contexts they are run on, no
read leaves the input, and every context stays inside the one it was taken from. -/
theorem walkRun_nested {buffer : List UInt8} (hfit : buffer.length < 2 ^ 64) :
    ∀ (cmds : List (Nat × Asn1Op)) (held : List Held), (∀ h ∈ held, h.Nested buffer) →
      ∃ held', walkRun buffer held cmds = .ok held' ∧ ∀ h ∈ held', h.Nested buffer
  | [], held, hn => ⟨held, rfl, hn⟩
  | cmd :: cmds, held, hn => by
    obtain ⟨held₁, h₁, hn₁⟩ := walkStep_nested hfit hn cmd
    obtain ⟨held₂, h₂, hn₂⟩ := walkRun_nested hfit cmds held₁ hn₁
    refine ⟨held₂, ?_, hn₂⟩
    rw [walkRun, List.foldlM_cons, h₁]
    exact h₂

end Recovery.Verifier
