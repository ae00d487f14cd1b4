import Recovery.Lib.Der

/-!
# The hand-written DER walk of `asn1_decoder.cpp`

`asn1_context` is a pointer and a length into a buffer it does not own.  `Asn1Context buffer`
carries the proof that the pointed-to bytes lie inside `buffer`, so that every dereference of
`p_` below is in bounds by construction, and so is every nested context.

Each operation is related to the list-level reader of `Recovery.Lib.Der` on the bytes the
context still has to read (`Asn1Context.bytes`): `decodeLength_bytes`, `asn1SequenceNext_bytes`,
`asn1SequenceGet_bytes`, `asn1SetGet_bytes`, `asn1ConstructedGet_bytes`,
`asn1ConstructedSkipAll_bytes`, `asn1OctetStringGet_eq`.

A failed operation returns `none`: no caller uses the context after a failure.
-/

set_option autoImplicit false

namespace Recovery.Verifier

open Recovery.Der

/-- `sizeof(size_t)`. -/
def SIZEOF_SIZE_T : Nat := 8

def kMaskConstructed : UInt8 := 0xE0
def kMaskTag : UInt8 := 0x7F
def kMaskAppType : UInt8 := 0x1F

def kTagOctetString : UInt8 := 0x04
def kTagOid : UInt8 := 0x06
def kTagSequence : UInt8 := 0x30
def kTagSet : UInt8 := 0x31
def kTagConstructed : UInt8 := 0xA0

structure Asn1Context (buffer : List UInt8) where
  p : Nat
  length : Nat
  appType : UInt8
  inside : p + length ≤ buffer.length

namespace Asn1Context

variable {buffer : List UInt8}

/-- `asn1_context(buffer, length)` over a whole buffer. -/
def ofBuffer (buffer : List UInt8) : Asn1Context buffer := ⟨0, buffer.length, 0, by omega⟩

/-- The bytes the context has still to read. -/
def bytes (c : Asn1Context buffer) : List UInt8 := (buffer.drop c.p).take c.length

/-- `peek_byte`; `none` is the source's `-1`. -/
def peekByte (c : Asn1Context buffer) : Option UInt8 :=
  if h : c.length = 0 then none
  else some (buffer.get ⟨c.p, by have := c.inside; omega⟩)

/-- `get_byte`; `none` is the source's `-1`. -/
def getByte (c : Asn1Context buffer) : Option UInt8 × Asn1Context buffer :=
  if h : c.length = 0 then (none, c)
  else (some (buffer.get ⟨c.p, by have := c.inside; omega⟩),
    { c with p := c.p + 1, length := c.length - 1, inside := by have := c.inside; omega })

def skipBytes (c : Asn1Context buffer) (numSkip : Nat) : Option (Asn1Context buffer) :=
  if h : c.length < numSkip then none
  else some { c with
    p := c.p + numSkip, length := c.length - numSkip, inside := by have := c.inside; omega }

/-- The octet loop of `decode_length`. -/
def lengthOctets : Nat → Nat → Asn1Context buffer → Option (Nat × Asn1Context buffer)
  | 0, length, c => some (length, c)
  | n + 1, length, c =>
    match c.getByte with
    | (none, _) => none
    | (some byte, c') => lengthOctets n ((length <<< 8) + byte.toNat) c'

def decodeLength (c : Asn1Context buffer) : Option (Nat × Asn1Context buffer) :=
  match c.getByte with
  | (none, _) => none
  | (some numOctets, c') =>
    if numOctets &&& 0x80 = 0x00 then some (numOctets.toNat, c')
    else
      let numOctets := (numOctets &&& kMaskTag).toNat
      if numOctets ≥ SIZEOF_SIZE_T then none else lengthOctets numOctets 0 c'

/-- `new asn1_context(p_, length)`, guarded by `length > length_`. -/
def child (c : Asn1Context buffer) (length : Nat) (appType : UInt8) :
    Option (Asn1Context buffer) :=
  if h : length > c.length then none
  else some ⟨c.p, length, appType, by have := c.inside; omega⟩

def asn1ConstructedGet (c : Asn1Context buffer) : Option (Asn1Context buffer) :=
  match c.getByte with
  | (none, _) => none
  | (some type, c') =>
    if type &&& kMaskConstructed ≠ kTagConstructed then none
    else match c'.decodeLength with
      | none => none
      | some (length, c'') => c''.child length (type &&& kMaskAppType)

/-- The loop of `asn1_constructed_skip_all`; each round reads at least one byte, so the number of
bytes left is enough fuel. -/
def constructedSkipLoop : Nat → Asn1Context buffer → Option (Asn1Context buffer)
  | fuel, c =>
    match c.peekByte with
    | none => none
    | some byte =>
      if byte &&& kMaskConstructed = kTagConstructed then
        match fuel with
        | 0 => none
        | fuel + 1 =>
          match c.skipBytes 1 with
          | none => none
          | some c1 =>
            match c1.decodeLength with
            | none => none
            | some (length, c2) =>
              match c2.skipBytes length with
              | none => none
              | some c3 => constructedSkipLoop fuel c3
      else some c

def asn1ConstructedSkipAll (c : Asn1Context buffer) : Option (Asn1Context buffer) :=
  constructedSkipLoop c.length c

def asn1ConstructedType (c : Asn1Context buffer) : UInt8 := c.appType

/-- `asn1_sequence_get` and `asn1_set_get`, for the tag they expect. -/
def taggedGet (tag : UInt8) (c : Asn1Context buffer) : Option (Asn1Context buffer) :=
  match c.getByte with
  | (none, _) => none
  | (some byte, c') =>
    if byte &&& kMaskTag ≠ tag then none
    else match c'.decodeLength with
      | none => none
      | some (length, c'') => c''.child length 0

def asn1SequenceGet (c : Asn1Context buffer) : Option (Asn1Context buffer) :=
  c.taggedGet kTagSequence

def asn1SetGet (c : Asn1Context buffer) : Option (Asn1Context buffer) := c.taggedGet kTagSet

def asn1SequenceNext (c : Asn1Context buffer) : Option (Asn1Context buffer) :=
  match c.getByte with
  | (none, _) => none
  | (some _, c') =>
    match c'.decodeLength with
    | none => none
    | some (length, c'') => c''.skipBytes length

/-- `asn1_oid_get` and `asn1_octet_string_get`, for the tag they expect: the string's offset in
the buffer and its length. -/
def stringGet (tag : UInt8) (c : Asn1Context buffer) : Option (Nat × Nat) :=
  match c.getByte with
  | (none, _) => none
  | (some byte, c') =>
    if byte ≠ tag then none
    else match c'.decodeLength with
      | none => none
      | some (length, c'') =>
        if length = 0 ∨ length > c''.length then none else some (c''.p, length)

def asn1OidGet (c : Asn1Context buffer) : Option (Nat × Nat) := c.stringGet kTagOid

def asn1OctetStringGet (c : Asn1Context buffer) : Option (Nat × Nat) :=
  c.stringGet kTagOctetString

/-! ## The operations on the remaining bytes -/

@[simp] theorem ofBuffer_bytes : (ofBuffer buffer).bytes = buffer := by
  simp [ofBuffer, bytes]

theorem bytes_length (c : Asn1Context buffer) : c.bytes.length = c.length := by
  have := c.inside
  rw [bytes, List.length_take, List.length_drop]
  lia

theorem bytes_eq_nil {c : Asn1Context buffer} (h : c.length = 0) : c.bytes = [] :=
  List.eq_nil_of_length_eq_zero (by rw [bytes_length, h])

theorem bytes_cons {c : Asn1Context buffer} (h : c.length ≠ 0) :
    ∃ hp : c.p < buffer.length,
      c.bytes = buffer.get ⟨c.p, hp⟩ :: (buffer.drop (c.p + 1)).take (c.length - 1) := by
  have hin := c.inside
  refine ⟨by lia, ?_⟩
  obtain ⟨n, hn⟩ : ∃ n, c.length = n + 1 := ⟨c.length - 1, by lia⟩
  rw [bytes, List.drop_eq_getElem_cons (by lia : c.p < buffer.length), hn, List.take_succ_cons]
  rfl

theorem peekByte_eq (c : Asn1Context buffer) : c.peekByte = c.bytes.head? := by
  unfold peekByte
  split
  · rename_i h
    rw [bytes_eq_nil h]; rfl
  · rename_i h
    obtain ⟨hp, hb⟩ := bytes_cons h
    rw [hb]; rfl

theorem getByte_nil {c : Asn1Context buffer} (h : c.bytes = []) : c.getByte = (none, c) := by
  have hl : c.length = 0 := by rw [← bytes_length, h]; rfl
  unfold getByte
  rw [dif_pos hl]

theorem getByte_cons {c : Asn1Context buffer} {b : UInt8} {bs : List UInt8}
    (h : c.bytes = b :: bs) : ∃ c', c.getByte = (some b, c') ∧ c'.bytes = bs := by
  have hl : c.length ≠ 0 := by rw [← bytes_length, h]; simp
  obtain ⟨hp, hb⟩ := bytes_cons hl
  rw [hb] at h
  simp only [List.cons.injEq] at h
  unfold getByte
  rw [dif_neg hl]
  exact ⟨_, Prod.ext (congrArg some h.1) rfl, h.2⟩

theorem skipBytes_bytes (c : Asn1Context buffer) (n : Nat) :
    (c.skipBytes n).map bytes = if n ≤ c.bytes.length then some (c.bytes.drop n) else none := by
  unfold skipBytes
  rw [bytes_length]
  split
  · rename_i h
    rw [if_neg (by lia)]; rfl
  · rename_i h
    rw [if_pos (by lia)]
    simp only [Option.map_some, bytes, List.drop_take, List.drop_drop]

theorem lengthOctets_bytes : ∀ (n acc : Nat) (c : Asn1Context buffer),
    (lengthOctets n acc c).map (fun r => (r.1, r.2.bytes)) =
      if n ≤ c.bytes.length then
        some ((c.bytes.take n).foldl (fun k b => k * 256 + b.toNat) acc, c.bytes.drop n)
      else none
  | 0, acc, c => by simp [lengthOctets]
  | n + 1, acc, c => by
    unfold lengthOctets
    cases hb : c.bytes with
    | nil => rw [getByte_nil hb]; rfl
    | cons b bs =>
      obtain ⟨c', hg, hc'⟩ := getByte_cons hb
      rw [hg]
      simp only [lengthOctets_bytes n _ c', hc', Nat.shiftLeft_eq, List.length_cons,
        Nat.add_le_add_iff_right, List.take_succ_cons, List.foldl_cons, List.drop_succ_cons]

theorem and_0x80_eq_zero (b : UInt8) : b &&& 0x80 = 0x00 ↔ b.toNat < 128 := by
  have key : ∀ n < 256, (n &&& 128 = 0 ↔ n < 128) := by decide +kernel
  rw [← UInt8.toNat_inj, UInt8.toNat_and]
  exact key b.toNat b.toNat_lt

theorem and_kMaskTag {b : UInt8} (h : ¬ b.toNat < 128) :
    (b &&& kMaskTag).toNat = b.toNat - 128 := by
  have key : ∀ n < 256, ¬ n < 128 → n &&& 127 = n - 128 := by decide +kernel
  rw [UInt8.toNat_and]
  exact key b.toNat b.toNat_lt h

/-- **`decode_length` reads exactly one length field.** -/
theorem decodeLength_bytes (c : Asn1Context buffer) :
    c.decodeLength.map (fun r => (r.1, r.2.bytes)) = takeLength SIZEOF_SIZE_T c.bytes := by
  unfold decodeLength
  cases hb : c.bytes with
  | nil => rw [getByte_nil hb]; rfl
  | cons b bs =>
    obtain ⟨c', hg, hc'⟩ := getByte_cons hb
    rw [hg]
    simp only [takeLength]
    by_cases h128 : b.toNat < 128
    · rw [if_pos ((and_0x80_eq_zero b).2 h128), if_pos h128, Option.map_some, hc']
    · rw [if_neg (fun h => h128 ((and_0x80_eq_zero b).1 h)), if_neg h128, and_kMaskTag h128]
      by_cases hw : b.toNat - 128 ≥ SIZEOF_SIZE_T
      · rw [if_pos hw, if_neg (by lia)]; rfl
      · rw [if_neg hw, lengthOctets_bytes, hc']
        by_cases hk : b.toNat - 128 ≤ bs.length
        · rw [if_pos hk, if_pos ⟨by lia, hk⟩]; rfl
        · rw [if_neg hk, if_neg (fun h => hk h.2)]

/-- A failed length field of the context is a failed length field of its bytes. -/
theorem decodeLength_none {c : Asn1Context buffer} (h : c.decodeLength = none) :
    takeLength SIZEOF_SIZE_T c.bytes = none := by
  rw [← decodeLength_bytes, h]; rfl

theorem decodeLength_some {c c' : Asn1Context buffer} {n : Nat}
    (h : c.decodeLength = some (n, c')) :
    takeLength SIZEOF_SIZE_T c.bytes = some (n, c'.bytes) := by
  rw [← decodeLength_bytes, h]; rfl

theorem child_bytes (c : Asn1Context buffer) (n : Nat) (t : UInt8) :
    (c.child n t).map bytes = if n ≤ c.bytes.length then some (c.bytes.take n) else none := by
  unfold child
  rw [bytes_length]
  split
  · rename_i h
    rw [if_neg (by lia)]; rfl
  · rename_i h
    rw [if_pos (by lia)]
    simp only [Option.map_some, bytes, List.take_take]
    rw [Nat.min_eq_left (by lia)]

theorem taggedGet_bytes (tag : UInt8) (c : Asn1Context buffer) :
    (c.taggedGet tag).map bytes =
      enter SIZEOF_SIZE_T (fun b => b &&& kMaskTag == tag) c.bytes := by
  unfold taggedGet
  cases hb : c.bytes with
  | nil => rw [getByte_nil hb]; rfl
  | cons b bs =>
    obtain ⟨c', hg, rfl⟩ := getByte_cons hb
    rw [hg]
    simp only [enter, beq_iff_eq]
    by_cases ht : b &&& kMaskTag = tag
    · rw [if_neg (not_not.2 ht), if_pos ht]
      cases hd : c'.decodeLength with
      | none => rw [decodeLength_none hd]; rfl
      | some r => rw [decodeLength_some hd]; exact child_bytes _ _ _
    · rw [if_pos ht, if_neg ht]; rfl

theorem asn1SequenceGet_bytes (c : Asn1Context buffer) :
    c.asn1SequenceGet.map bytes =
      enter SIZEOF_SIZE_T (fun b => b &&& kMaskTag == kTagSequence) c.bytes :=
  taggedGet_bytes kTagSequence c

theorem asn1SetGet_bytes (c : Asn1Context buffer) :
    c.asn1SetGet.map bytes = enter SIZEOF_SIZE_T (fun b => b &&& kMaskTag == kTagSet) c.bytes :=
  taggedGet_bytes kTagSet c

theorem asn1ConstructedGet_bytes (c : Asn1Context buffer) :
    c.asn1ConstructedGet.map bytes =
      enter SIZEOF_SIZE_T (fun b => b &&& kMaskConstructed == kTagConstructed) c.bytes := by
  unfold asn1ConstructedGet
  cases hb : c.bytes with
  | nil => rw [getByte_nil hb]; rfl
  | cons b bs =>
    obtain ⟨c', hg, rfl⟩ := getByte_cons hb
    rw [hg]
    simp only [enter, beq_iff_eq]
    by_cases ht : b &&& kMaskConstructed = kTagConstructed
    · rw [if_neg (not_not.2 ht), if_pos ht]
      cases hd : c'.decodeLength with
      | none => rw [decodeLength_none hd]; rfl
      | some r => rw [decodeLength_some hd]; exact child_bytes _ _ _
    · rw [if_pos ht, if_neg ht]; rfl

theorem asn1SequenceNext_bytes (c : Asn1Context buffer) :
    c.asn1SequenceNext.map bytes = skip SIZEOF_SIZE_T (fun _ => true) c.bytes := by
  unfold asn1SequenceNext
  cases hb : c.bytes with
  | nil => rw [getByte_nil hb]; rfl
  | cons b bs =>
    obtain ⟨c', hg, rfl⟩ := getByte_cons hb
    rw [hg]
    simp only [skip, if_true]
    cases hd : c'.decodeLength with
    | none => rw [decodeLength_none hd]; rfl
    | some r => rw [decodeLength_some hd]; exact skipBytes_bytes _ _

theorem constructedSkipLoop_bytes : ∀ (fuel : Nat) (c : Asn1Context buffer),
    (constructedSkipLoop fuel c).map bytes =
      skipAll SIZEOF_SIZE_T (fun b => b &&& kMaskConstructed == kTagConstructed) fuel c.bytes := by
  intro fuel
  induction fuel with
  | zero =>
    intro c
    unfold constructedSkipLoop
    rw [peekByte_eq]
    cases hb : c.bytes with
    | nil => rfl
    | cons b bs =>
      simp only [List.head?_cons, skipAll, headIs, ne_eq, reduceCtorEq, not_false_eq_true, true_and]
      by_cases ht : b &&& kMaskConstructed = kTagConstructed
      · rw [if_pos ht, if_neg (by simp [ht])]; rfl
      · rw [if_neg ht, if_pos (by simp [ht]), Option.map_some, hb]
  | succ fuel ih =>
    intro c
    unfold constructedSkipLoop
    rw [peekByte_eq]
    cases hb : c.bytes with
    | nil => rfl
    | cons b bs =>
      simp only [List.head?_cons, skipAll, headIs, beq_iff_eq]
      by_cases ht : b &&& kMaskConstructed = kTagConstructed
      · rw [if_pos ht, if_pos ht]
        have h1 := skipBytes_bytes c 1
        rw [if_pos (by rw [hb]; simp), hb] at h1
        cases hs : c.skipBytes 1 with
        | none => rw [hs] at h1; cases h1
        | some c1 =>
          rw [hs] at h1
          simp only [Option.map_some, List.drop_succ_cons, List.drop_zero, Option.some.injEq] at h1
          simp only [skip, beq_iff_eq, if_pos ht, ← h1]
          cases hd : c1.decodeLength with
          | none => rw [decodeLength_none hd]; rfl
          | some r =>
            rw [decodeLength_some hd]
            have h3 := skipBytes_bytes r.2 r.1
            simp only
            split at h3
            · rename_i hn
              rw [if_pos hn]
              cases hs3 : r.2.skipBytes r.1 with
              | none => rw [hs3] at h3; cases h3
              | some c3 =>
                rw [hs3] at h3
                simp only [Option.map_some, Option.some.injEq] at h3
                simp only [ih c3, h3]
            · rename_i hn
              rw [if_neg hn]
              cases hs3 : r.2.skipBytes r.1 with
              | none => rfl
              | some c3 => rw [hs3] at h3; cases h3
      · rw [if_neg ht, if_neg ht, if_neg (List.cons_ne_nil _ _), Option.map_some, hb]

theorem asn1ConstructedSkipAll_bytes (c : Asn1Context buffer) :
    c.asn1ConstructedSkipAll.map bytes =
      skipAll SIZEOF_SIZE_T (fun b => b &&& kMaskConstructed == kTagConstructed)
        c.bytes.length c.bytes := by
  rw [bytes_length]
  exact constructedSkipLoop_bytes c.length c

/-- The octet string a context starts with, as bytes of the buffer. -/
theorem asn1OctetStringGet_eq (c : Asn1Context buffer) :
    c.asn1OctetStringGet.map (fun r => (buffer.drop r.1).take r.2) =
      (enter SIZEOF_SIZE_T (fun b => b == kTagOctetString) c.bytes).filter (fun s => s ≠ []) := by
  unfold asn1OctetStringGet stringGet
  cases hb : c.bytes with
  | nil => rw [getByte_nil hb]; rfl
  | cons b bs =>
    obtain ⟨c', hg, rfl⟩ := getByte_cons hb
    rw [hg]
    simp only [enter, beq_iff_eq, ne_eq, ite_not]
    by_cases ht : b = kTagOctetString
    · rw [if_pos ht, if_pos ht]
      cases hd : c'.decodeLength with
      | none => rw [decodeLength_none hd]; rfl
      | some r =>
        rw [decodeLength_some hd]
        simp only [bytes_length]
        by_cases hz : r.1 = 0
        · rw [if_pos (Or.inl hz), if_pos (by lia), hz]
          simp [Option.filter]
        · by_cases hl : r.1 ≤ r.2.length
          · have hne : r.2.bytes.take r.1 ≠ [] := by
              rw [ne_eq, List.take_eq_nil_iff]
              rintro (h | h)
              · exact hz h
              · have := bytes_length r.2
                rw [h] at this
                simp at this
                lia
            rw [if_neg (by lia), if_pos hl]
            simp only [Option.map_some, Option.filter_some, hne, not_false_eq_true, decide_true,
              if_true]
            rw [bytes, List.take_take, Nat.min_eq_left hl]
          · rw [if_pos (by lia), if_neg hl]; rfl
    · rw [if_neg ht, if_neg ht]; rfl

end Asn1Context

end Recovery.Verifier
