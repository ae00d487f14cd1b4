import Recovery.Verifier.Asn1Decoder

/-!
# Whole-file signature verification (`verifier.cpp`)

* `readPkcs7` — the walk of `read_pkcs7` through a PKCS#7 SignedData structure.  `Pkcs7` is the
  grammar listed in the comment above the source function; `readPkcs7_iff` proves that the walk
  accepts exactly this grammar and extracts its signature string.
* `verifyFile` — footer, comment and EOCD checks, chunked hashing, key loop.
* `digestLoop_spec` — the chunked hashing absorbs exactly the signed prefix.
* `checkKeys_iff` — the key loop succeeds iff one of the keys verifies the signature.
* `SignedPackage` — what a correctly signed package is; `verifyFile_eq_success_iff`.

SHA-1, SHA-256, `RSA_verify` and `ECDSA_verify` are parameters.  Progress reports are left out.
-/

set_option autoImplicit false

namespace Recovery.Verifier

open Recovery.Der Asn1Context

/-! ## `read_pkcs7` -/

def readPkcs7 (pkcs7Der : List UInt8) : Option (List UInt8) := do
  let pkcs7Seq ← (ofBuffer pkcs7Der).asn1SequenceGet
  let pkcs7Seq ← pkcs7Seq.asn1SequenceNext
  let signedDataApp ← pkcs7Seq.asn1ConstructedGet
  let signedDataSeq ← signedDataApp.asn1SequenceGet
  let signedDataSeq ← signedDataSeq.asn1SequenceNext
  let signedDataSeq ← signedDataSeq.asn1SequenceNext
  let signedDataSeq ← signedDataSeq.asn1SequenceNext
  let signedDataSeq ← signedDataSeq.asn1ConstructedSkipAll
  let sigSet ← signedDataSeq.asn1SetGet
  let sigSeq ← sigSet.asn1SequenceGet
  let sigSeq ← sigSeq.asn1SequenceNext
  let sigSeq ← sigSeq.asn1SequenceNext
  let sigSeq ← sigSeq.asn1SequenceNext
  let sigSeq ← sigSeq.asn1SequenceNext
  let sigDer ← sigSeq.asn1OctetStringGet
  return (pkcs7Der.drop sigDer.1).take sigDer.2

def isSequence (b : UInt8) : Bool := b &&& kMaskTag == kTagSequence
def isSet (b : UInt8) : Bool := b &&& kMaskTag == kTagSet
def isConstructed (b : UInt8) : Bool := b &&& kMaskConstructed == kTagConstructed
def isOctetString (b : UInt8) : Bool := b == kTagOctetString
def isAny (_ : UInt8) : Bool := true

/-- The structure listed above `read_pkcs7`, outermost first; `sig` is the content of the
`SignatureValue` string.  Bytes after the last element read at a level are not looked at. -/
def Pkcs7 (der sig : List UInt8) : Prop :=
  ∃ contentInfo content app signedData algorithms encap certs signerInfos
      signerInfoSet signerInfo issuer digestAlg sigAlg sigValue,
    Enclosed SIZEOF_SIZE_T isSequence der contentInfo ∧
    -- OID (ContentType), [0] (content), SEQUENCE (SignedData)
    Skips SIZEOF_SIZE_T isAny contentInfo content ∧
    Enclosed SIZEOF_SIZE_T isConstructed content app ∧
    Enclosed SIZEOF_SIZE_T isSequence app signedData ∧
    -- INTEGER (version), SET (DigestAlgorithmIdentifiers), SEQUENCE (EncapsulatedContentInfo)
    Skips SIZEOF_SIZE_T isAny signedData algorithms ∧
    Skips SIZEOF_SIZE_T isAny algorithms encap ∧
    Skips SIZEOF_SIZE_T isAny encap certs ∧
    -- [0] (CertificateSet OPTIONAL), [1] (RevocationInfoChoices OPTIONAL)
    SkipAll SIZEOF_SIZE_T isConstructed certs signerInfos ∧
    -- SET (SignerInfos), SEQUENCE (SignerInfo)
    Enclosed SIZEOF_SIZE_T isSet signerInfos signerInfoSet ∧
    Enclosed SIZEOF_SIZE_T isSequence signerInfoSet signerInfo ∧
    -- INTEGER, SignerIdentifier, DigestAlgorithmIdentifier, SignatureAlgorithmIdentifier
    Skips SIZEOF_SIZE_T isAny signerInfo issuer ∧
    Skips SIZEOF_SIZE_T isAny issuer digestAlg ∧
    Skips SIZEOF_SIZE_T isAny digestAlg sigAlg ∧
    Skips SIZEOF_SIZE_T isAny sigAlg sigValue ∧
    Enclosed SIZEOF_SIZE_T isOctetString sigValue sig ∧ sig ≠ []

/-- `read_pkcs7` on byte lists. -/
def pkcs7Walk (der : List UInt8) : Option (List UInt8) :=
  (enter SIZEOF_SIZE_T isSequence der).bind fun b =>
  (skip SIZEOF_SIZE_T isAny b).bind fun b =>
  (enter SIZEOF_SIZE_T isConstructed b).bind fun b =>
  (enter SIZEOF_SIZE_T isSequence b).bind fun b =>
  (skip SIZEOF_SIZE_T isAny b).bind fun b =>
  (skip SIZEOF_SIZE_T isAny b).bind fun b =>
  (skip SIZEOF_SIZE_T isAny b).bind fun b =>
  (skipAll SIZEOF_SIZE_T isConstructed b.length b).bind fun b =>
  (enter SIZEOF_SIZE_T isSet b).bind fun b =>
  (enter SIZEOF_SIZE_T isSequence b).bind fun b =>
  (skip SIZEOF_SIZE_T isAny b).bind fun b =>
  (skip SIZEOF_SIZE_T isAny b).bind fun b =>
  (skip SIZEOF_SIZE_T isAny b).bind fun b =>
  (skip SIZEOF_SIZE_T isAny b).bind fun b =>
  (enter SIZEOF_SIZE_T isOctetString b).filter (fun s => s ≠ [])

/-- One step of a walk over contexts is one step of the walk over their bytes. -/
theorem bind_of_map {α β γ : Type} {f : α → β} {x : Option α} {y : Option β}
    {k : α → Option γ} {l : β → Option γ} (h : x.map f = y) (hk : ∀ a, k a = l (f a)) :
    x.bind k = y.bind l := by
  subst h
  cases x with
  | none => rfl
  | some a => exact hk a

theorem readPkcs7_eq_walk (der : List UInt8) : readPkcs7 der = pkcs7Walk der := by
  unfold readPkcs7 pkcs7Walk
  refine bind_of_map ((asn1SequenceGet_bytes _).trans (by rw [ofBuffer_bytes]; rfl)) fun c => ?_
  refine bind_of_map (asn1SequenceNext_bytes _) fun c => ?_
  refine bind_of_map (asn1ConstructedGet_bytes _) fun c => ?_
  refine bind_of_map (asn1SequenceGet_bytes _) fun c => ?_
  refine bind_of_map (asn1SequenceNext_bytes _) fun c => ?_
  refine bind_of_map (asn1SequenceNext_bytes _) fun c => ?_
  refine bind_of_map (asn1SequenceNext_bytes _) fun c => ?_
  refine bind_of_map (asn1ConstructedSkipAll_bytes _) fun c => ?_
  refine bind_of_map (asn1SetGet_bytes _) fun c => ?_
  refine bind_of_map (asn1SequenceGet_bytes _) fun c => ?_
  refine bind_of_map (asn1SequenceNext_bytes _) fun c => ?_
  refine bind_of_map (asn1SequenceNext_bytes _) fun c => ?_
  refine bind_of_map (asn1SequenceNext_bytes _) fun c => ?_
  refine bind_of_map (asn1SequenceNext_bytes _) fun c => ?_
  refine Eq.trans ?_ (asn1OctetStringGet_eq c)
  cases c.asn1OctetStringGet <;> rfl

/-- **`read_pkcs7` accepts exactly the structure documented above it.** -/
theorem readPkcs7_iff {der sig : List UInt8} : readPkcs7 der = some sig ↔ Pkcs7 der sig := by
  rw [readPkcs7_eq_walk]
  unfold pkcs7Walk Pkcs7
  simp only [Option.bind_eq_some_iff, Option.filter_eq_some_iff, enter_iff, skip_iff,
    skipAll_iff (Nat.le_refl _), decide_eq_true_eq]
  constructor
  · rintro ⟨a, h1, b, h2, c, h3, d, h4, e, h5, f, h6, g, h7, h, h8, i, h9, j, h10, k, h11,
      l, h12, m, h13, n, h14, h15⟩
    exact ⟨a, b, c, d, e, f, g, h, i, j, k, l, m, n, h1, h2, h3, h4, h5, h6, h7, h8, h9, h10, h11,
      h12, h13, h14, h15⟩
  · rintro ⟨a, b, c, d, e, f, g, h, i, j, k, l, m, n, h1, h2, h3, h4, h5, h6, h7, h8, h9, h10, h11,
      h12, h13, h14, h15⟩
    exact ⟨a, h1, b, h2, c, h3, d, h4, e, h5, f, h6, g, h7, h, h8, i, h9, j, h10, k, h11,
      l, h12, m, h13, n, h14, h15⟩

/-- An empty signature area holds no PKCS#7 structure. -/
theorem not_pkcs7_nil (sig : List UInt8) : ¬ Pkcs7 [] sig := by
  rintro ⟨_, _, _, _, _, _, _, _, _, _, _, _, _, _, ⟨tag, len, rest, _, _, h⟩, _⟩
  cases h

/-! ## `verify_file` -/

def MiB : Nat := 1024 * 1024
def FOOTER_SIZE : Nat := 6
def EOCD_HEADER_SIZE : Nat := 22
def SHA_DIGEST_LENGTH : Nat := 20
def SHA256_DIGEST_LENGTH : Nat := 32
def VERIFY_SUCCESS : Nat := 0
def VERIFY_FAILURE : Nat := 1

inductive KeyType where
  | KEY_TYPE_RSA
  | KEY_TYPE_EC
  deriving DecidableEq, Repr

/-- The digest identifiers `RSA_verify` is called with. -/
inductive HashNid where
  | NID_sha1
  | NID_sha256
  deriving DecidableEq, Repr

variable {RsaKey EcKey : Type}

/-- A key of the list; `key_type` says which of the two handles is set. -/
structure Certificate (RsaKey EcKey : Type) where
  hashLen : Nat
  keyType : KeyType
  rsa : RsaKey
  ec : EcKey

/-- The cryptographic primitives of the crypto library. -/
structure Crypto (RsaKey EcKey : Type) where
  sha1 : List UInt8 → List UInt8
  sha256 : List UInt8 → List UInt8
  rsaVerify : HashNid → List UInt8 → Nat → List UInt8 → RsaKey → Bool
  ecdsaVerify : List UInt8 → Nat → List UInt8 → EcKey → Bool

/-- The bytes absorbed so far by the two hash contexts. -/
structure HashContexts where
  sha1 : List UInt8
  sha256 : List UInt8

/-- `$50 $4b $05 $06` at offset `i`. -/
def eocdMarkerAt (bs : List UInt8) (i : Nat) : Bool :=
  (bs.drop i).take 4 == [0x50, 0x4b, 0x05, 0x06]

/-- The hashing loop, from `so_far` on; a round absorbs at least one byte, so `signed_len` rounds
are enough. -/
def digestLoop (file : List UInt8) (needSha1 needSha256 : Bool) (signedLen : Nat) :
    Nat → Nat → HashContexts → HashContexts
  | 0, _, ctx => ctx
  | fuel + 1, soFar, ctx =>
    if soFar < signedLen then
      let size := min (signedLen - soFar) (16 * MiB)
      let chunk := (file.drop soFar).take size
      digestLoop file needSha1 needSha256 signedLen fuel (soFar + size)
        ⟨if needSha1 then ctx.sha1 ++ chunk else ctx.sha1,
         if needSha256 then ctx.sha256 ++ chunk else ctx.sha256⟩
    else ctx

/-- The key loop: the first key that verifies the signature ends it. -/
def checkKeys (C : Crypto RsaKey EcKey) (sha1 sha256 sigDer : List UInt8) :
    List (Certificate RsaKey EcKey) → Nat
  | [] => VERIFY_FAILURE
  | key :: keys =>
    let selected : Option (List UInt8 × HashNid) :=
      if key.hashLen = SHA_DIGEST_LENGTH then some (sha1, .NID_sha1)
      else if key.hashLen = SHA256_DIGEST_LENGTH then some (sha256, .NID_sha256)
      else none
    match selected with
    | none => checkKeys C sha1 sha256 sigDer keys
    | some (hash, hashNid) =>
      if key.keyType = .KEY_TYPE_RSA then
        if C.rsaVerify hashNid hash key.hashLen sigDer key.rsa then VERIFY_SUCCESS
        else checkKeys C sha1 sha256 sigDer keys
      else if key.keyType = .KEY_TYPE_EC ∧ key.hashLen = SHA256_DIGEST_LENGTH then
        if C.ecdsaVerify hash key.hashLen sigDer key.ec then VERIFY_SUCCESS
        else checkKeys C sha1 sha256 sigDer keys
      else checkKeys C sha1 sha256 sigDer keys

/-- `verify_file` after the checks of the footer, for the two sizes read from it. -/
def verifyEocd (C : Crypto RsaKey EcKey) (file : List UInt8)
    (keys : List (Certificate RsaKey EcKey)) (signatureStart commentSize : Nat) : Nat :=
  let eocdSize := commentSize + EOCD_HEADER_SIZE
  if file.length < eocdSize then VERIFY_FAILURE else
  let signedLen := file.length - eocdSize + EOCD_HEADER_SIZE - 2
  let eocd := file.drop (file.length - eocdSize)
  if ¬ eocdMarkerAt eocd 0 then VERIFY_FAILURE else
  if (List.range' 4 (eocdSize - 3 - 4)).any (eocdMarkerAt eocd) then VERIFY_FAILURE else
  let needSha1 := keys.any (fun key => key.hashLen == SHA_DIGEST_LENGTH)
  let needSha256 := keys.any (fun key => key.hashLen == SHA256_DIGEST_LENGTH)
  let ctx := digestLoop file needSha1 needSha256 signedLen signedLen 0 ⟨[], []⟩
  let signature := (eocd.drop (eocdSize - signatureStart)).take (signatureStart - FOOTER_SIZE)
  match readPkcs7 signature with
  | none => VERIFY_FAILURE
  | some sigDer => checkKeys C (C.sha1 ctx.sha1) (C.sha256 ctx.sha256) sigDer keys

def verifyFile (C : Crypto RsaKey EcKey) (file : List UInt8)
    (keys : List (Certificate RsaKey EcKey)) : Nat :=
  if file.length < FOOTER_SIZE then VERIFY_FAILURE else
  match file.drop (file.length - FOOTER_SIZE) with
  | [f0, f1, f2, f3, f4, f5] =>
    if f2 ≠ 0xff ∨ f3 ≠ 0xff then VERIFY_FAILURE else
    let commentSize := f4.toNat + (f5.toNat <<< 8)
    let signatureStart := f0.toNat + (f1.toNat <<< 8)
    if signatureStart > commentSize then VERIFY_FAILURE else
    if signatureStart ≤ FOOTER_SIZE then VERIFY_FAILURE else
    verifyEocd C file keys signatureStart commentSize
  | _ => VERIFY_FAILURE

/-! ## Hashing and keys -/

/-- **The chunks absorbed from `so_far` on complete the signed prefix.** -/
theorem digestLoop_spec (file : List UInt8) (n1 n256 : Bool) (signedLen : Nat) :
    ∀ (fuel soFar : Nat), soFar ≤ signedLen → signedLen - soFar ≤ fuel →
      digestLoop file n1 n256 signedLen fuel soFar
        ⟨if n1 then file.take soFar else [], if n256 then file.take soFar else []⟩ =
      ⟨if n1 then file.take signedLen else [], if n256 then file.take signedLen else []⟩
  | 0, soFar, hle, hf => by
    have : soFar = signedLen := by lia
    rw [this]; rfl
  | fuel + 1, soFar, hle, hf => by
    unfold digestLoop
    by_cases hlt : soFar < signedLen
    · rw [if_pos hlt]
      have hsize : 0 < min (signedLen - soFar) (16 * MiB) := by
        have : 0 < 16 * MiB := by decide
        lia
      have hsum : soFar + min (signedLen - soFar) (16 * MiB) ≤ signedLen := by lia
      have ih := digestLoop_spec file n1 n256 signedLen fuel _ hsum (by lia)
      rw [← ih]
      cases n1 <;> cases n256 <;> simp [List.take_add]
    · rw [if_neg hlt]
      have : soFar = signedLen := by lia
      rw [this]

/-- `key` verifies `sig` over the digest of `signed` that belongs to the key: RSA keys come with
either digest, EC keys with SHA-256. -/
inductive Certificate.Verifies (C : Crypto RsaKey EcKey) (signed sig : List UInt8)
    (key : Certificate RsaKey EcKey) : Prop where
  | rsaSha1 (ht : key.keyType = .KEY_TYPE_RSA) (hl : key.hashLen = SHA_DIGEST_LENGTH)
      (hv : C.rsaVerify .NID_sha1 (C.sha1 signed) SHA_DIGEST_LENGTH sig key.rsa = true)
  | rsaSha256 (ht : key.keyType = .KEY_TYPE_RSA) (hl : key.hashLen = SHA256_DIGEST_LENGTH)
      (hv : C.rsaVerify .NID_sha256 (C.sha256 signed) SHA256_DIGEST_LENGTH sig key.rsa = true)
  | ecSha256 (ht : key.keyType = .KEY_TYPE_EC) (hl : key.hashLen = SHA256_DIGEST_LENGTH)
      (hv : C.ecdsaVerify (C.sha256 signed) SHA256_DIGEST_LENGTH sig key.ec = true)

/-- One round of the key loop. -/
theorem checkKeys_cons (C : Crypto RsaKey EcKey) {sha1 sha256 signed sig : List UInt8}
    (key : Certificate RsaKey EcKey) (keys : List (Certificate RsaKey EcKey))
    (h1 : key.hashLen = SHA_DIGEST_LENGTH → sha1 = C.sha1 signed)
    (h256 : key.hashLen = SHA256_DIGEST_LENGTH → sha256 = C.sha256 signed) :
    checkKeys C sha1 sha256 sig (key :: keys) = VERIFY_SUCCESS ↔
      key.Verifies C signed sig ∨ checkKeys C sha1 sha256 sig keys = VERIFY_SUCCESS := by
  have hne : SHA_DIGEST_LENGTH ≠ SHA256_DIGEST_LENGTH := by decide
  rw [checkKeys]
  by_cases hl1 : key.hashLen = SHA_DIGEST_LENGTH
  · have hl2 : key.hashLen ≠ SHA256_DIGEST_LENGTH := by rw [hl1]; exact hne
    simp only [if_pos hl1, h1 hl1]
    by_cases ht : key.keyType = .KEY_TYPE_RSA
    · simp only [if_pos ht, hl1]
      split
      · rename_i hv
        exact ⟨fun _ => Or.inl (.rsaSha1 ht hl1 hv), fun _ => rfl⟩
      · rename_i hv
        refine ⟨Or.inr, ?_⟩
        rintro (h | h)
        · cases h with
          | rsaSha1 _ _ h => exact absurd h hv
          | rsaSha256 _ h _ => exact absurd h hl2
          | ecSha256 h _ _ => rw [ht] at h; cases h
        · exact h
    · simp only [if_neg ht, hl2, and_false, if_false]
      refine ⟨Or.inr, ?_⟩
      rintro (h | h)
      · cases h with
        | rsaSha1 h _ _ => exact absurd h ht
        | rsaSha256 h _ _ => exact absurd h ht
        | ecSha256 _ h _ => exact absurd h hl2
      · exact h
  · by_cases hl2 : key.hashLen = SHA256_DIGEST_LENGTH
    · simp only [if_neg hl1, if_pos hl2, h256 hl2]
      cases ht : key.keyType with
      | KEY_TYPE_RSA =>
        simp only [if_true, hl2]
        split
        · rename_i hv
          exact ⟨fun _ => Or.inl (.rsaSha256 ht hl2 hv), fun _ => rfl⟩
        · rename_i hv
          refine ⟨Or.inr, ?_⟩
          rintro (h | h)
          · cases h with
            | rsaSha1 _ h _ => exact absurd h hl1
            | rsaSha256 _ _ h => exact absurd h hv
            | ecSha256 h _ _ => rw [ht] at h; cases h
          · exact h
      | KEY_TYPE_EC =>
        simp only [reduceCtorEq, if_false, hl2, and_self, if_true]
        split
        · rename_i hv
          exact ⟨fun _ => Or.inl (.ecSha256 ht hl2 hv), fun _ => rfl⟩
        · rename_i hv
          refine ⟨Or.inr, ?_⟩
          rintro (h | h)
          · cases h with
            | rsaSha1 h _ _ => rw [ht] at h; cases h
            | rsaSha256 h _ _ => rw [ht] at h; cases h
            | ecSha256 _ _ h => exact absurd h hv
          · exact h
    · simp only [if_neg hl1, if_neg hl2]
      refine ⟨Or.inr, ?_⟩
      rintro (h | h)
      · cases h with
        | rsaSha1 _ h _ => exact absurd h hl1
        | rsaSha256 _ h _ => exact absurd h hl2
        | ecSha256 _ h _ => exact absurd h hl2
      · exact h

/-- **The key loop succeeds iff some key verifies the signature.** -/
theorem checkKeys_iff (C : Crypto RsaKey EcKey) (signed : List UInt8) {sha1 sha256 sig : List UInt8} :
    ∀ (keys : List (Certificate RsaKey EcKey)),
      (∀ key ∈ keys, key.hashLen = SHA_DIGEST_LENGTH → sha1 = C.sha1 signed) →
      (∀ key ∈ keys, key.hashLen = SHA256_DIGEST_LENGTH → sha256 = C.sha256 signed) →
      (checkKeys C sha1 sha256 sig keys = VERIFY_SUCCESS ↔
        ∃ key ∈ keys, key.Verifies C signed sig)
  | [], _, _ => by simp [checkKeys, VERIFY_FAILURE, VERIFY_SUCCESS]
  | key :: keys, h1, h256 => by
    rw [checkKeys_cons C key keys (h1 key List.mem_cons_self) (h256 key List.mem_cons_self),
      checkKeys_iff C signed keys (fun k hk => h1 k (List.mem_cons_of_mem _ hk))
        (fun k hk => h256 k (List.mem_cons_of_mem _ hk))]
    simp only [List.mem_cons, exists_eq_or_imp]

/-! ## Accepted packages -/

/-- The six bytes at the end of an archive with a whole-file signature. -/
def Footer (file : List UInt8) (signatureStart commentSize : Nat) : Prop :=
  ∃ f0 f1 f4 f5 : UInt8, file.drop (file.length - FOOTER_SIZE) = [f0, f1, 0xff, 0xff, f4, f5] ∧
    signatureStart = f0.toNat + 256 * f1.toNat ∧ commentSize = f4.toNat + 256 * f5.toNat

/-- Offset of the EOCD record in front of a comment of the given size. -/
def eocdStart (file : List UInt8) (commentSize : Nat) : Nat :=
  file.length - (EOCD_HEADER_SIZE + commentSize)

/-- A package with a whole-file signature that one of the keys verifies. -/
structure SignedPackage (C : Crypto RsaKey EcKey) (file : List UInt8)
    (keys : List (Certificate RsaKey EcKey)) (signatureStart commentSize : Nat) : Prop where
  footer : Footer file signatureStart commentSize
  footer_le : FOOTER_SIZE ≤ signatureStart
  start_le : signatureStart ≤ commentSize
  eocd_fits : EOCD_HEADER_SIZE + commentSize ≤ file.length
  eocd_marker : eocdMarkerAt file (eocdStart file commentSize) = true
  eocd_last : ∀ i, eocdStart file commentSize < i → eocdMarkerAt file i = false
  signature : ∃ sig, Pkcs7 ((file.drop (file.length - signatureStart)).take
      (signatureStart - FOOTER_SIZE)) sig ∧
    ∃ key ∈ keys, key.Verifies C (file.take (file.length - commentSize - 2)) sig

theorem eocdMarkerAt_drop (bs : List UInt8) (n i : Nat) :
    eocdMarkerAt (bs.drop n) i = eocdMarkerAt bs (n + i) := by
  rw [eocdMarkerAt, eocdMarkerAt, List.drop_drop]

/-- A marker needs four bytes. -/
theorem eocdMarkerAt_bound {bs : List UInt8} {i : Nat} (h : eocdMarkerAt bs i = true) :
    i + 4 ≤ bs.length := by
  have hl := congrArg List.length (beq_iff_eq.1 h)
  rw [List.length_take, List.length_drop] at hl
  simp only [List.length_cons, List.length_nil] at hl
  lia

/-- Two markers do not overlap. -/
theorem eocdMarkerAt_disjoint {bs : List UInt8} {i j : Nat} (hi : eocdMarkerAt bs i = true)
    (hij : i < j) (hj : j < i + 4) : eocdMarkerAt bs j = false := by
  have hb := eocdMarkerAt_bound hi
  have byte : ∀ {k m : Nat}, eocdMarkerAt bs k = true → m < 4 →
      bs[k + m]? = ([0x50, 0x4b, 0x05, 0x06] : List UInt8)[m]? := by
    intro k m hk hm
    rw [← beq_iff_eq.1 hk, List.getElem?_take, if_pos hm, List.getElem?_drop]
  rw [Bool.eq_false_iff]
  intro hmj
  have h0 := byte hmj (show 0 < 4 by lia)
  have hk := byte hi (show j - i < 4 by lia)
  rw [show i + (j - i) = j + 0 by lia, h0] at hk
  rcases (show j - i = 1 ∨ j - i = 2 ∨ j - i = 3 by lia) with h | h | h <;> rw [h] at hk <;>
    exact absurd hk (by decide)

/-- The scan behind the EOCD signature finds every later occurrence. -/
theorem eocdScan_iff {file : List UInt8} {n : Nat}
    (hm : eocdMarkerAt (file.drop (file.length - n)) 0 = true) (hn : n ≤ file.length)
    (h22 : EOCD_HEADER_SIZE ≤ n) :
    (List.range' 4 (n - 3 - 4)).any (eocdMarkerAt (file.drop (file.length - n))) = false ↔
      ∀ i, file.length - n < i → eocdMarkerAt file i = false := by
  rw [eocdMarkerAt_drop, Nat.add_zero] at hm
  simp only [List.any_eq_false, List.mem_range'_1, eocdMarkerAt_drop, Bool.not_eq_true]
  simp only [EOCD_HEADER_SIZE] at h22
  constructor
  · intro h i hi
    by_cases hclose : i < file.length - n + 4
    · exact eocdMarkerAt_disjoint hm hi hclose
    · rw [Bool.eq_false_iff]
      intro hmi
      have hb := eocdMarkerAt_bound hmi
      have hf := h (i - (file.length - n)) (by omega)
      rw [show file.length - n + (i - (file.length - n)) = i by omega, hmi] at hf
      cases hf
  · intro h i hi
    exact h _ (by omega)

theorem verifyEocd_iff (C : Crypto RsaKey EcKey) (file : List UInt8)
    (keys : List (Certificate RsaKey EcKey)) {s c : Nat} (hs : FOOTER_SIZE < s) (hsc : s ≤ c) :
    verifyEocd C file keys s c = VERIFY_SUCCESS ↔
      EOCD_HEADER_SIZE + c ≤ file.length ∧ eocdMarkerAt file (eocdStart file c) = true ∧
      (∀ i, eocdStart file c < i → eocdMarkerAt file i = false) ∧
      ∃ sig, Pkcs7 ((file.drop (file.length - s)).take (s - FOOTER_SIZE)) sig ∧
        ∃ key ∈ keys, key.Verifies C (file.take (file.length - c - 2)) sig := by
  have hfail : ¬ VERIFY_FAILURE = VERIFY_SUCCESS := by decide
  have hstart : file.length - (c + EOCD_HEADER_SIZE) = eocdStart file c := by
    rw [eocdStart, Nat.add_comm]
  unfold verifyEocd
  by_cases hlen : file.length < c + EOCD_HEADER_SIZE
  · rw [if_pos hlen]
    exact ⟨fun h => absurd h hfail, fun h => absurd h.1 (by omega)⟩
  rw [if_neg hlen]
  have hmark : eocdMarkerAt (file.drop (file.length - (c + EOCD_HEADER_SIZE))) 0 =
      eocdMarkerAt file (eocdStart file c) := by rw [eocdMarkerAt_drop, Nat.add_zero, hstart]
  by_cases hm : eocdMarkerAt file (eocdStart file c) = true
  · rw [if_neg (by rw [hmark, hm]; simp)]
    have hscan := eocdScan_iff (hmark.trans hm) (by omega)
      (show EOCD_HEADER_SIZE ≤ c + EOCD_HEADER_SIZE by omega)
    rw [hstart] at hscan ⊢
    by_cases hl : ∀ i, eocdStart file c < i → eocdMarkerAt file i = false
    · rw [if_neg (by rw [hscan.2 hl]; simp)]
      have hsigned : eocdStart file c + EOCD_HEADER_SIZE - 2 = file.length - c - 2 := by
        rw [← hstart]; omega
      have harea : (file.drop (eocdStart file c)).drop (c + EOCD_HEADER_SIZE - s) =
          file.drop (file.length - s) := by
        rw [List.drop_drop, ← hstart]; congr 1; omega
      have hdig := digestLoop_spec file (keys.any (fun key => key.hashLen == SHA_DIGEST_LENGTH))
        (keys.any (fun key => key.hashLen == SHA256_DIGEST_LENGTH)) (file.length - c - 2)
        (file.length - c - 2) 0 (Nat.zero_le _) (by omega)
      simp only [List.take_zero, ite_self] at hdig
      simp only [hsigned, harea, hdig]
      cases hp : readPkcs7 ((file.drop (file.length - s)).take (s - FOOTER_SIZE)) with
      | none =>
        refine ⟨fun h => absurd h hfail, ?_⟩
        rintro ⟨_, _, _, sig, hsig, _⟩
        rw [readPkcs7_iff.2 hsig] at hp; cases hp
      | some sig =>
        rw [checkKeys_iff C (file.take (file.length - c - 2)) keys
          (fun k hk hl => by rw [if_pos (List.any_eq_true.2 ⟨k, hk, by simp [hl]⟩)])
          (fun k hk hl => by rw [if_pos (List.any_eq_true.2 ⟨k, hk, by simp [hl]⟩)])]
        constructor
        · intro hk
          exact ⟨by omega, hm, hl, sig, readPkcs7_iff.1 hp, hk⟩
        · rintro ⟨_, _, _, sig', hsig, hk⟩
          rw [readPkcs7_iff.2 hsig] at hp
          cases hp
          exact hk
    · have hany : (List.range' 4 (c + EOCD_HEADER_SIZE - 3 - 4)).any
          (eocdMarkerAt (file.drop (eocdStart file c))) = true := by
        rw [← Bool.not_eq_false]
        exact fun h => hl (hscan.1 h)
      rw [if_pos hany]
      exact ⟨fun h => absurd h hfail, fun h => absurd h.2.2.1 hl⟩
  · rw [if_pos (by rw [hmark]; exact hm)]
    exact ⟨fun h => absurd h hfail, fun h => absurd h.2.1 hm⟩

theorem shiftLeft_byte (f : UInt8) : f.toNat <<< 8 = 256 * f.toNat := by
  rw [Nat.shiftLeft_eq, Nat.mul_comm]

/-- `verify_file` succeeds exactly on signed packages. -/
theorem verifyFile_iff (C : Crypto RsaKey EcKey) (file : List UInt8)
    (keys : List (Certificate RsaKey EcKey)) :
    verifyFile C file keys = VERIFY_SUCCESS ↔ ∃ s c, SignedPackage C file keys s c := by
  have hfail : ¬ VERIFY_FAILURE = VERIFY_SUCCESS := by decide
  constructor
  · intro h
    unfold verifyFile at h
    split at h
    · exact absurd h hfail
    split at h
    · rename_i f0 f1 f2 f3 f4 f5 hf
      split at h
      · exact absurd h hfail
      rename_i hff
      simp only [ne_eq, not_or, not_not] at hff
      obtain ⟨rfl, rfl⟩ := hff
      simp only [shiftLeft_byte] at h
      split at h
      · exact absurd h hfail
      split at h
      · exact absurd h hfail
      obtain ⟨h1, h2, h3, h4⟩ := (verifyEocd_iff C file keys (by lia) (by lia)).1 h
      exact ⟨_, _, ⟨f0, f1, f4, f5, hf, rfl, rfl⟩, by lia, by lia, h1, h2, h3, h4⟩
    · exact absurd h hfail
  · rintro ⟨s, c, hp⟩
    obtain ⟨f0, f1, f4, f5, hf, hs, hc⟩ := hp.footer
    have hlt : FOOTER_SIZE < s := by
      rcases Nat.lt_or_eq_of_le hp.footer_le with h | h
      · exact h
      · obtain ⟨sig, hsig, _⟩ := hp.signature
        rw [← h, Nat.sub_self, List.take_zero] at hsig
        exact absurd hsig (not_pkcs7_nil sig)
    have hlen : ¬ file.length < FOOTER_SIZE := by
      intro h
      have := congrArg List.length hf
      rw [List.length_drop] at this
      simp only [List.length_cons, List.length_nil] at this
      simp only [FOOTER_SIZE] at h
      lia
    have hsc := hp.start_le
    unfold verifyFile
    rw [if_neg hlen, hf]
    simp only [shiftLeft_byte, ← hs, ← hc, ne_eq, not_true_eq_false, or_self, if_false]
    rw [if_neg (by lia), if_neg (by lia)]
    exact (verifyEocd_iff C file keys hlt hsc).2
      ⟨hp.eocd_fits, hp.eocd_marker, hp.eocd_last, hp.signature⟩

/-- The last EOCD signature of a signed package is that of the verified record. -/
theorem SignedPackage.last_eocd {C : Crypto RsaKey EcKey} {file : List UInt8}
    {keys : List (Certificate RsaKey EcKey)} {s c : Nat} (h : SignedPackage C file keys s c) {e : Nat}
    (he : eocdMarkerAt file e = true) (hl : ∀ i, e < i → eocdMarkerAt file i = false) :
    e = eocdStart file c := by
  rcases Nat.lt_trichotomy e (eocdStart file c) with hlt | heq | hgt
  · have := hl _ hlt
    rw [h.eocd_marker] at this
    cases this
  · exact heq
  · have := h.eocd_last _ hgt
    rw [he] at this
    cases this

/-- **Whole-file verification**: `verify_file` succeeds exactly on signed packages.  The EOCD
record a zip reader finds by looking for the last signature in an accepted file is the verified
one; what precedes it is signed, and every byte of the file lies in the signed prefix or in that
record. -/
theorem verifyFile_eq_success_iff (C : Crypto RsaKey EcKey) (file : List UInt8)
    (keys : List (Certificate RsaKey EcKey)) :
    (verifyFile C file keys = VERIFY_SUCCESS ↔ ∃ s c, SignedPackage C file keys s c) ∧
    (verifyFile C file keys = VERIFY_SUCCESS → ∃ s c, SignedPackage C file keys s c ∧
      ∀ e, eocdMarkerAt file e = true → (∀ i, e < i → eocdMarkerAt file i = false) →
        e = eocdStart file c ∧ e + EOCD_HEADER_SIZE + c = file.length ∧
        e ≤ file.length - c - 2 ∧
        ∀ p < file.length, p < file.length - c - 2 ∨ (e ≤ p ∧ p < e + EOCD_HEADER_SIZE + c)) := by
  refine ⟨verifyFile_iff C file keys, fun h => ?_⟩
  obtain ⟨s, c, hp⟩ := (verifyFile_iff C file keys).1 h
  refine ⟨s, c, hp, fun e he hl => ?_⟩
  have heq := hp.last_eocd he hl
  have hfit := hp.eocd_fits
  have hstart : eocdStart file c = file.length - (EOCD_HEADER_SIZE + c) := rfl
  have h22 : EOCD_HEADER_SIZE = 22 := rfl
  refine ⟨heq, by omega, by omega, fun p hlt => ?_⟩
  omega

end Recovery.Verifier
