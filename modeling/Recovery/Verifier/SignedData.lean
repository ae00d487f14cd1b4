import Recovery.Verifier.VerifyFile

/-!
# `read_pkcs7` against the DER encoder

* `SignedData`, `SignerInfo` — the values the structure above `read_pkcs7` describes, with the
  optional certificates, revocation lists and attributes; the contents of the elements the reader
  skips are arbitrary octets.
* `SignedData.encode` — their DER encoding, every length in its shortest definite form.
* `readPkcs7_encode` — the reader returns the encrypted digest of every encoding without
  authenticated attributes and with a non-empty digest, and rejects every other one.

Which lengths fit in their octets is a condition on the value, by the number of octets of its
contents; long forms up to `maxContent` are covered.
-/

set_option autoImplicit false

namespace Recovery.Verifier

open Recovery.Der

def kTagInteger : UInt8 := 0x02
def kTagContext0 : UInt8 := 0x80
def kTagContext1 : UInt8 := 0xA1

/-- `SignerIdentifier`: a SEQUENCE, or the `[0]` key identifier. -/
inductive SignerIdentifier where
  | issuerAndSerialNumber (body : List UInt8)
  | subjectKeyIdentifier (body : List UInt8)

structure SignerInfo where
  version : List UInt8
  sid : SignerIdentifier
  digestAlgorithm : List UInt8
  authenticatedAttributes : Option (List UInt8)
  digestEncryptionAlgorithm : List UInt8
  encryptedDigest : List UInt8
  unauthenticatedAttributes : Option (List UInt8)

structure SignedData where
  contentType : List UInt8
  version : List UInt8
  digestAlgorithms : List UInt8
  encapContentInfo : List UInt8
  certificates : Option (List UInt8)
  crls : Option (List UInt8)
  signerInfo : SignerInfo

/-! ## The encoder -/

def SignerIdentifier.encode : SignerIdentifier → List UInt8
  | .issuerAndSerialNumber body => record kTagSequence body
  | .subjectKeyIdentifier body => record kTagContext0 body

/-- What follows the digest algorithm. -/
def SignerInfo.signature (s : SignerInfo) : List UInt8 :=
  record kTagSequence s.digestEncryptionAlgorithm ++
    (record kTagOctetString s.encryptedDigest ++
      optRecord kTagContext1 s.unauthenticatedAttributes)

def SignerInfo.content (s : SignerInfo) : List UInt8 :=
  record kTagInteger s.version ++ (s.sid.encode ++ (record kTagSequence s.digestAlgorithm ++
    (optRecord kTagConstructed s.authenticatedAttributes ++ s.signature)))

/-- The SET of the one `SignerInfo`. -/
def SignedData.signerInfos (v : SignedData) : List UInt8 :=
  record kTagSet (record kTagSequence v.signerInfo.content)

def SignedData.content (v : SignedData) : List UInt8 :=
  record kTagInteger v.version ++ (record kTagSet v.digestAlgorithms ++
    (record kTagSequence v.encapContentInfo ++ (optRecord kTagConstructed v.certificates ++
      (optRecord kTagContext1 v.crls ++ v.signerInfos))))

def SignedData.contentInfo (v : SignedData) : List UInt8 :=
  record kTagOid v.contentType ++ record kTagConstructed (record kTagSequence v.content)

def SignedData.encode (v : SignedData) : List UInt8 := record kTagSequence v.contentInfo

/-- Contents below this length have a length field that `decode_length` takes; it leaves room for
more than the form with four octets. -/
def maxContent : Nat := 256 ^ (SIZEOF_SIZE_T - 1)

/-! ## Reading it back -/

section Reading

variable {p : UInt8 → Bool} {tag : UInt8} {body rest : List UInt8}

theorem enter_encoded (hb : body.length < maxContent) :
    enter SIZEOF_SIZE_T p (record tag body ++ rest) = if p tag then some body else none :=
  enter_record (by decide) (by decide) hb

theorem enter_last (hp : p tag = true) (hb : body.length < maxContent) :
    enter SIZEOF_SIZE_T p (record tag body) = some body := by
  have h : enter SIZEOF_SIZE_T p (record tag body ++ []) = if p tag then some body else none :=
    enter_encoded hb
  rwa [List.append_nil, if_pos hp] at h

/-- `asn1_sequence_next` passes every encoded element. -/
theorem next_encoded (hb : body.length < maxContent) :
    skip SIZEOF_SIZE_T isAny (record tag body ++ rest) = some rest :=
  skip_record (by decide) (by decide) hb

end Reading

theorem length_record (tag : UInt8) (body : List UInt8) :
    (record tag body).length = 1 + (lengthField body.length).length + body.length := by
  simp [record]
  lia

theorem length_lt_optRecord (tag : UInt8) {o : Option (List UInt8)} :
    ∀ body ∈ o, body.length < (optRecord tag o).length := by
  intro body hb
  cases hb
  rw [optRecord, length_record]
  lia

theorem next_sid (sid : SignerIdentifier) {rest : List UInt8}
    (hb : sid.encode.length < maxContent) :
    skip SIZEOF_SIZE_T isAny (sid.encode ++ rest) = some rest := by
  cases sid with
  | issuerAndSerialNumber body =>
    rw [SignerIdentifier.encode, length_record] at hb
    exact next_encoded (by lia)
  | subjectKeyIdentifier body =>
    rw [SignerIdentifier.encode, length_record] at hb
    exact next_encoded (by lia)

/-- The part of `pkcs7Walk` inside the `SignerInfo`. -/
def signerWalk (b : List UInt8) : Option (List UInt8) :=
  (skip SIZEOF_SIZE_T isAny b).bind fun b =>
  (skip SIZEOF_SIZE_T isAny b).bind fun b =>
  (skip SIZEOF_SIZE_T isAny b).bind fun b =>
  (skip SIZEOF_SIZE_T isAny b).bind fun b =>
  (enter SIZEOF_SIZE_T isOctetString b).filter (fun s => s ≠ [])

/-- What the reader makes of a `SignerInfo`: the element after the digest algorithm is passed
unseen, whatever it is, and the one behind it has to be the digest. -/
theorem signerWalk_content (s : SignerInfo) (h : s.content.length < maxContent) :
    signerWalk s.content =
      if s.authenticatedAttributes = none ∧ s.encryptedDigest ≠ [] then some s.encryptedDigest
      else none := by
  have hlen := h
  simp only [SignerInfo.content, SignerInfo.signature, List.length_append, length_record] at hlen
  unfold signerWalk SignerInfo.content
  rw [next_encoded (by lia), Option.bind_some, next_sid s.sid (by lia), Option.bind_some,
    next_encoded (by lia), Option.bind_some]
  cases ha : s.authenticatedAttributes with
  | none =>
    rw [optRecord, List.nil_append, SignerInfo.signature, next_encoded (by lia),
      Option.bind_some, enter_encoded (by lia)]
    by_cases hd : s.encryptedDigest = []
    · simp [hd, isOctetString, Option.filter]
    · simp [hd, isOctetString, Option.filter]
  | some attributes =>
    have hl : attributes.length < maxContent := by
      have := length_lt_optRecord kTagConstructed attributes ha
      lia
    rw [optRecord, next_encoded hl, Option.bind_some, SignerInfo.signature,
      enter_encoded (by lia)]
    simp [isOctetString, kTagOctetString, kTagSequence]

/-- The optional certificates and revocation lists are passed, the SET behind them is not. -/
theorem skipAll_signerInfos (v : SignedData) (hc : ∀ b ∈ v.certificates, b.length < maxContent)
    (hr : ∀ b ∈ v.crls, b.length < maxContent) :
    SkipAll SIZEOF_SIZE_T isConstructed (optRecord kTagConstructed v.certificates ++
      (optRecord kTagContext1 v.crls ++ v.signerInfos)) v.signerInfos := by
  have hstop : SkipAll SIZEOF_SIZE_T isConstructed (v.signerInfos ++ []) (v.signerInfos ++ []) :=
    skipAll_stop rfl
  rw [List.append_nil] at hstop
  apply skipAll_optRecord (by decide) (by decide) rfl hc
  apply skipAll_optRecord (by decide) (by decide) rfl hr
  exact hstop

/-- **`read_pkcs7` of an encoding**: exactly the octets of the signer's encrypted digest, when the
signer has no authenticated attributes and the digest is not empty; every other encoding is
rejected. -/
theorem readPkcs7_encode (v : SignedData) (h : v.contentInfo.length < maxContent) :
    readPkcs7 v.encode =
      if v.signerInfo.authenticatedAttributes = none ∧ v.signerInfo.encryptedDigest ≠ [] then
        some v.signerInfo.encryptedDigest
      else none := by
  have hlen := h
  simp only [SignedData.contentInfo, SignedData.content, SignedData.signerInfos,
    List.length_append, length_record] at hlen
  have hskip := (skipAll_iff (Nat.le_refl _)).2 (skipAll_signerInfos v
    (fun b hb => by have := length_lt_optRecord kTagConstructed b hb; omega)
    (fun b hb => by have := length_lt_optRecord kTagContext1 b hb; omega))
  have hinner : (record kTagSequence v.content).length < maxContent := by
    have h := h
    simp only [SignedData.contentInfo, List.length_append, length_record] at h ⊢
    omega
  rw [readPkcs7_eq_walk, ← signerWalk_content v.signerInfo (by omega)]
  unfold pkcs7Walk SignedData.encode
  rw [enter_last rfl h, Option.bind_some, SignedData.contentInfo,
    next_encoded (by omega), Option.bind_some,
    enter_last rfl hinner, Option.bind_some,
    enter_last rfl (by rw [length_record] at hinner; omega), Option.bind_some, SignedData.content,
    next_encoded (by omega), Option.bind_some, next_encoded (by omega), Option.bind_some,
    next_encoded (by omega), Option.bind_some, hskip, Option.bind_some, SignedData.signerInfos,
    enter_last rfl (by rw [length_record]; omega), Option.bind_some,
    enter_last rfl (by omega), Option.bind_some]
  rfl

/-- A small value with certificates and revocation lists. -/
def smallSigned (attributes : Option (List UInt8)) (digest : List UInt8) : SignedData where
  contentType := [0x2a]
  version := [1]
  digestAlgorithms := [0x30, 0x00]
  encapContentInfo := [0x06, 0x01, 0x2a]
  certificates := some [0x30, 0x01, 0xff]
  crls := some []
  signerInfo :=
    { version := [1]
      sid := .issuerAndSerialNumber [0x30, 0x00, 0x02, 0x01, 0x05]
      digestAlgorithm := [0x06, 0x01, 0x2b]
      authenticatedAttributes := attributes
      digestEncryptionAlgorithm := [0x06, 0x01, 0x2c]
      encryptedDigest := digest
      unauthenticatedAttributes := some [0x04] }

theorem readPkcs7_encode_small :
    (smallSigned none [7, 8, 9]).contentInfo.length < maxContent ∧
      readPkcs7 (smallSigned none [7, 8, 9]).encode = some [7, 8, 9] := by
  have hlen : (smallSigned none [7, 8, 9]).contentInfo.length < maxContent := by decide +kernel
  exact ⟨hlen, (readPkcs7_encode _ hlen).trans rfl⟩

/-- Authenticated attributes stand where the reader expects the signature algorithm, and an empty
digest is refused. -/
theorem readPkcs7_rejects_encodings :
    (smallSigned (some [0x30, 0x00]) [7, 8, 9]).contentInfo.length < 2 ^ 32 ∧
      readPkcs7 (smallSigned (some [0x30, 0x00]) [7, 8, 9]).encode ≠ some [7, 8, 9] ∧
      (smallSigned none []).contentInfo.length < 2 ^ 32 ∧
      readPkcs7 (smallSigned none []).encode ≠ some [] := by
  decide +kernel

end Recovery.Verifier
