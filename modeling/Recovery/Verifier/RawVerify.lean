import Recovery.Verifier.RawDecoder
import Recovery.Verifier.VerifyFile

/-!
# `read_pkcs7` and `verify_file` over raw memory

The two functions with every dereference written out: indices are results of `size_t` arithmetic,
and a read outside the buffer is a fault.

* `rawReadPkcs7_eq` — the raw walk never faults and is `readPkcs7`; `readPkcs7_slice` — a string
  it returns is a slice of the input.
* `rawVerifyFile_eq` — `verify_file` never faults either, and is `verifyFile`.
* `verifyFile_inBounds` — these together, with `walkRun_nested`.

The pure functions of `Verifier.VerifyFile` come first and say what is accepted; the raw ones are
closer to the source, and equal to them on every input.
-/

set_option autoImplicit false

namespace Recovery.Verifier

open Recovery.Memory

/-! ## `read_pkcs7` -/

/-- `x == nullptr` fails the caller. -/
def taken {α β : Type} (x : Access (Option α × RawContext)) (k : α → Access (Option β)) :
    Access (Option β) := do
  let (r, _) ← x
  match r with
  | none => pure none
  | some a => k a

/-- `!x` fails the caller. -/
def passed {β : Type} (x : Access (Bool × RawContext)) (k : RawContext → Access (Option β)) :
    Access (Option β) := do
  let (ok, c) ← x
  if ok then k c else pure none

def rawReadPkcs7 (der : List UInt8) : Access (Option (List UInt8)) :=
  taken ((RawContext.ofBuffer der).asn1SequenceGet der) fun pkcs7Seq =>
  passed (pkcs7Seq.asn1SequenceNext der) fun pkcs7Seq =>
  taken (pkcs7Seq.asn1ConstructedGet der) fun signedDataApp =>
  taken (signedDataApp.asn1SequenceGet der) fun signedDataSeq =>
  passed (signedDataSeq.asn1SequenceNext der) fun signedDataSeq =>
  passed (signedDataSeq.asn1SequenceNext der) fun signedDataSeq =>
  passed (signedDataSeq.asn1SequenceNext der) fun signedDataSeq =>
  passed (signedDataSeq.asn1ConstructedSkipAll der) fun signedDataSeq =>
  taken (signedDataSeq.asn1SetGet der) fun sigSet =>
  taken (sigSet.asn1SequenceGet der) fun sigSeq =>
  passed (sigSeq.asn1SequenceNext der) fun sigSeq =>
  passed (sigSeq.asn1SequenceNext der) fun sigSeq =>
  passed (sigSeq.asn1SequenceNext der) fun sigSeq =>
  passed (sigSeq.asn1SequenceNext der) fun sigSeq =>
  taken (sigSeq.asn1OctetStringGet der) fun sigDer => do
    let bytes ← readSlice der sigDer.1 sigDer.2
    pure (some bytes)

section Steps

variable {buffer : List UInt8} {β : Type} {c : Asn1Context buffer}
  {Q : Asn1Context buffer → Prop} {l : Asn1Context buffer → Option β}

theorem taken_raw {x : Access (Option RawContext × RawContext)} {m : Option (Asn1Context buffer)}
    {k : RawContext → Access (Option β)} (hx : Asn1Context.Ran x c (m.map Asn1Context.raw) Q)
    (hk : ∀ d, k d.raw = .ok (l d)) : taken x k = .ok (m.bind l) := by
  obtain ⟨d, rfl, -, -⟩ := hx
  cases m with
  | none => rfl
  | some e => exact hk e

theorem passed_raw {x : Access (Bool × RawContext)} {m : Option (Asn1Context buffer)}
    {k : RawContext → Access (Option β)}
    (hx : Asn1Context.Ran x c m.isSome (fun d => ∀ e ∈ m, d = e))
    (hk : ∀ d, k d.raw = .ok (l d)) : passed x k = .ok (m.bind l) := by
  obtain ⟨d, rfl, -, hd⟩ := hx
  cases m with
  | none => rfl
  | some e =>
    obtain rfl := hd e rfl
    exact hk d

end Steps

/-- The string `asn1_octet_string_get` finds lies inside the buffer. -/
theorem octetString_raw {buffer : List UInt8} (hfit : buffer.length < 2 ^ 64)
    (c : Asn1Context buffer) :
    taken (c.raw.asn1OctetStringGet buffer)
        (fun sigDer => do let bytes ← readSlice buffer sigDer.1 sigDer.2; pure (some bytes)) =
      .ok (c.asn1OctetStringGet.bind fun sigDer => some ((buffer.drop sigDer.1).take sigDer.2)) := by
  obtain ⟨d, hx, -, hd⟩ := Asn1Context.stringGet_raw hfit c kTagOctetString
  unfold taken RawContext.asn1OctetStringGet Asn1Context.asn1OctetStringGet
  rw [hx]
  cases hs : c.stringGet kTagOctetString with
  | none => rfl
  | some s =>
    obtain ⟨hp, hl⟩ := hd s hs
    have hin := d.inside
    simp only [ok_bind, Option.bind_some]
    rw [readSlice_eq (by lia)]
    rfl

/-- **`read_pkcs7` reads inside its input**, and is the bounded walk. -/
theorem rawReadPkcs7_eq {der : List UInt8} (hfit : der.length < 2 ^ 64) :
    rawReadPkcs7 der = .ok (readPkcs7 der) := by
  unfold rawReadPkcs7 readPkcs7
  refine taken_raw (Asn1Context.taggedGet_raw hfit (.ofBuffer der) kTagSequence) fun c => ?_
  refine passed_raw (Asn1Context.asn1SequenceNext_raw hfit c) fun c => ?_
  refine taken_raw (Asn1Context.asn1ConstructedGet_raw hfit c) fun c => ?_
  refine taken_raw (Asn1Context.taggedGet_raw hfit c kTagSequence) fun c => ?_
  refine passed_raw (Asn1Context.asn1SequenceNext_raw hfit c) fun c => ?_
  refine passed_raw (Asn1Context.asn1SequenceNext_raw hfit c) fun c => ?_
  refine passed_raw (Asn1Context.asn1SequenceNext_raw hfit c) fun c => ?_
  refine passed_raw (Asn1Context.asn1ConstructedSkipAll_raw hfit c) fun c => ?_
  refine taken_raw (Asn1Context.taggedGet_raw hfit c kTagSet) fun c => ?_
  refine taken_raw (Asn1Context.taggedGet_raw hfit c kTagSequence) fun c => ?_
  refine passed_raw (Asn1Context.asn1SequenceNext_raw hfit c) fun c => ?_
  refine passed_raw (Asn1Context.asn1SequenceNext_raw hfit c) fun c => ?_
  refine passed_raw (Asn1Context.asn1SequenceNext_raw hfit c) fun c => ?_
  refine passed_raw (Asn1Context.asn1SequenceNext_raw hfit c) fun c => ?_
  exact octetString_raw hfit c

/-! ### Slices -/

theorem enclosed_slice {w : Nat} {p : UInt8 → Bool} {bs body : List UInt8}
    (h : Der.Enclosed w p bs body) : body <:+: bs := by
  obtain ⟨tag, len, rest, _, _, rfl⟩ := h
  exact ⟨tag :: len, rest, rfl⟩

theorem skips_slice {w : Nat} {p : UInt8 → Bool} {bs rest : List UInt8}
    (h : Der.Skips w p bs rest) : rest <:+: bs := by
  obtain ⟨tag, len, body, _, _, rfl⟩ := h
  exact (List.suffix_append (tag :: len ++ body) rest).isInfix

theorem skipAll_slice {w : Nat} {p : UInt8 → Bool} {bs rest : List UInt8}
    (h : Der.SkipAll w p bs rest) : rest <:+: bs := by
  induction h with
  | done bs _ _ => exact List.infix_rfl
  | step bs mid rest hs _ ih => exact ih.trans (skips_slice hs)

/-- A string `read_pkcs7` returns is a slice of its input. -/
theorem readPkcs7_slice {der sig : List UInt8} (h : readPkcs7 der = some sig) : sig <:+: der := by
  obtain ⟨a, b, c, d, e, f, g, i, j, k, l, m, n, o, h1, h2, h3, h4, h5, h6, h7, h8, h9, h10, h11,
    h12, h13, h14, h15, -⟩ := readPkcs7_iff.1 h
  have houter : d <:+: der := (enclosed_slice h4).trans ((enclosed_slice h3).trans
    ((skips_slice h2).trans (enclosed_slice h1)))
  have hset : j <:+: d := (enclosed_slice h9).trans ((skipAll_slice h8).trans
    ((skips_slice h7).trans ((skips_slice h6).trans (skips_slice h5))))
  have hsig : sig <:+: k := (enclosed_slice h15).trans ((skips_slice h14).trans
    ((skips_slice h13).trans ((skips_slice h12).trans (skips_slice h11))))
  exact hsig.trans ((enclosed_slice h10).trans (hset.trans houter))

/-! ## `verify_file` -/

/-- `p[0] == 0x50 && p[1] == 0x4b && p[2] == 0x05 && p[3] == 0x06`. -/
def rawMarkerAt (mem : List UInt8) (p : Nat) : Access Bool := do
  let b0 ← readAt mem p
  if b0 ≠ 0x50 then pure false else do
  let b1 ← readAt mem (add64 p 1)
  if b1 ≠ 0x4b then pure false else do
  let b2 ← readAt mem (add64 p 2)
  if b2 ≠ 0x05 then pure false else do
  let b3 ← readAt mem (add64 p 3)
  pure (b3 == 0x06)

/-- The loop over the record: is there another marker from `i` on? -/
def rawScan (mem : List UInt8) (eocd eocdSize : Nat) : Nat → Nat → Access Bool
  | 0, _ => throw .stuck
  | fuel + 1, i =>
    if i < sub64 eocdSize 3 then do
      let found ← rawMarkerAt mem (add64 eocd i)
      if found then pure true else rawScan mem eocd eocdSize fuel (add64 i 1)
    else pure false

/-- `if (need) SHA1_Update(..)`, and the same for SHA-256. -/
def rawUpdate (mem : List UInt8) (need : Bool) (soFar size : Nat) (absorbed : List UInt8) :
    Access (List UInt8) :=
  if need then do
    let chunk ← readSlice mem soFar size
    pure (absorbed ++ chunk)
  else pure absorbed

def rawDigestLoop (mem : List UInt8) (needSha1 needSha256 : Bool) (signedLen : Nat) :
    Nat → Nat → HashContexts → Access HashContexts
  | 0, _, _ => throw .stuck
  | fuel + 1, soFar, ctx =>
    if soFar < signedLen then do
      let size := min (sub64 signedLen soFar) (16 * MiB)
      let sha1 ← rawUpdate mem needSha1 soFar size ctx.sha1
      let sha256 ← rawUpdate mem needSha256 soFar size ctx.sha256
      rawDigestLoop mem needSha1 needSha256 signedLen fuel (add64 soFar size) ⟨sha1, sha256⟩
    else pure ctx

variable {RsaKey EcKey : Type}

/-- `verify_file` after the checks of the footer. -/
def rawVerifyEocd (C : Crypto RsaKey EcKey) (mem : List UInt8)
    (keys : List (Certificate RsaKey EcKey)) (signatureStart commentSize : Nat) : Access Nat := do
  let length := mem.length
  let eocdSize := add64 commentSize EOCD_HEADER_SIZE
  if length < eocdSize then pure VERIFY_FAILURE else do
  let signedLen := sub64 (add64 (sub64 length eocdSize) EOCD_HEADER_SIZE) 2
  let eocd := sub64 length eocdSize
  let marked ← rawMarkerAt mem eocd
  if ¬ marked then pure VERIFY_FAILURE else do
  let again ← rawScan mem eocd eocdSize (length + 1) 4
  if again then pure VERIFY_FAILURE else do
  let needSha1 := keys.any (fun key => key.hashLen == SHA_DIGEST_LENGTH)
  let needSha256 := keys.any (fun key => key.hashLen == SHA256_DIGEST_LENGTH)
  let ctx ← rawDigestLoop mem needSha1 needSha256 signedLen (signedLen + 1) 0 ⟨[], []⟩
  -- the log line prints the whole signature
  let signature ← readSlice mem (sub64 (add64 eocd eocdSize) signatureStart)
    (sub64 signatureStart FOOTER_SIZE)
  let sigDer ← rawReadPkcs7 signature
  match sigDer with
  | none => pure VERIFY_FAILURE
  | some sigDer => pure (checkKeys C (C.sha1 ctx.sha1) (C.sha256 ctx.sha256) sigDer keys)

def rawVerifyFile (C : Crypto RsaKey EcKey) (mem : List UInt8)
    (keys : List (Certificate RsaKey EcKey)) : Access Nat := do
  let length := mem.length
  if length < FOOTER_SIZE then pure VERIFY_FAILURE else do
  let footer := sub64 length FOOTER_SIZE
  let f2 ← readAt mem (add64 footer 2)
  if f2 ≠ 0xff then pure VERIFY_FAILURE else do
  let f3 ← readAt mem (add64 footer 3)
  if f3 ≠ 0xff then pure VERIFY_FAILURE else do
  let f4 ← readAt mem (add64 footer 4)
  let f5 ← readAt mem (add64 footer 5)
  let f0 ← readAt mem footer
  let f1 ← readAt mem (add64 footer 1)
  let commentSize := f4.toNat + (f5.toNat <<< 8)
  let signatureStart := f0.toNat + (f1.toNat <<< 8)
  if signatureStart > commentSize then pure VERIFY_FAILURE else
  if signatureStart ≤ FOOTER_SIZE then pure VERIFY_FAILURE else
  rawVerifyEocd C mem keys signatureStart commentSize

theorem rawMarkerAt_eq {mem : List UInt8} (hfit : mem.length < 2 ^ 64) {p : Nat}
    (h : p + 4 ≤ mem.length) : rawMarkerAt mem p = .ok (eocdMarkerAt mem p) := by
  have hd : mem.drop p = mem[p] :: mem[p + 1] :: mem[p + 2] :: mem[p + 3] :: mem.drop (p + 4) := by
    rw [List.drop_eq_getElem_cons (by omega), List.drop_eq_getElem_cons (by omega),
      List.drop_eq_getElem_cons (by omega), List.drop_eq_getElem_cons (by omega)]
  unfold rawMarkerAt eocdMarkerAt
  rw [hd, add64_eq (by omega), add64_eq (by omega), add64_eq (by omega), readAt_eq (by omega),
    readAt_eq (by omega), readAt_eq (by omega), readAt_eq (by omega)]
  simp only [ok_bind, pure_eq_ok, List.take_succ_cons, List.take_zero]
  split
  · rename_i h0
    simp [h0]
  split
  · rename_i h1
    simp [h1]
  split
  · rename_i h2
    simp [h2]
  · rename_i h0 h1 h2
    simp_all

/-- The scan reads no further than the record. -/
theorem rawScan_eq {mem : List UInt8} (hfit : mem.length < 2 ^ 64) {eocd n : Nat}
    (hn : eocd + n ≤ mem.length) (h3 : 3 ≤ n) : ∀ (fuel i : Nat), n - 3 - i < fuel →
      rawScan mem eocd n fuel i =
        .ok ((List.range' i (n - 3 - i)).any (eocdMarkerAt (mem.drop eocd)))
  | 0, i, h => by lia
  | fuel + 1, i, h => by
    unfold rawScan
    rw [sub64_eq h3 (by lia)]
    split
    · rename_i hi
      rw [add64_eq (by lia), add64_eq (by lia), rawMarkerAt_eq hfit (by lia),
        rawScan_eq hfit hn h3 fuel (i + 1) (by lia),
        show n - 3 - i = n - 3 - (i + 1) + 1 by lia, List.range'_succ, List.any_cons,
        eocdMarkerAt_drop]
      cases eocdMarkerAt mem (eocd + i) <;> rfl
    · rename_i hi
      rw [show n - 3 - i = 0 by lia]
      rfl

theorem rawUpdate_eq {mem : List UInt8} {soFar size : Nat} (h : soFar + size ≤ mem.length)
    (need : Bool) (absorbed : List UInt8) : rawUpdate mem need soFar size absorbed =
      .ok (if need then absorbed ++ (mem.drop soFar).take size else absorbed) := by
  unfold rawUpdate
  cases need with
  | false => rfl
  | true => rw [readSlice_eq h]; rfl

theorem rawDigestLoop_eq {mem : List UInt8} (hfit : mem.length < 2 ^ 64) (n1 n256 : Bool)
    {signedLen : Nat} (hs : signedLen ≤ mem.length) : ∀ (fuel soFar : Nat) (ctx : HashContexts),
      signedLen - soFar ≤ fuel →
      rawDigestLoop mem n1 n256 signedLen (fuel + 1) soFar ctx =
        .ok (digestLoop mem n1 n256 signedLen fuel soFar ctx)
  | fuel, soFar, ctx, h => by
    unfold rawDigestLoop
    by_cases hlt : soFar < signedLen
    · obtain ⟨fuel, rfl⟩ : ∃ k, fuel = k + 1 := ⟨fuel - 1, by lia⟩
      have hsize : 0 < min (signedLen - soFar) (16 * MiB) := by
        have : 0 < 16 * MiB := by decide
        lia
      rw [if_pos hlt, sub64_eq (by lia) (by lia)]
      simp only
      rw [rawUpdate_eq (by lia), rawUpdate_eq (by lia), add64_eq (by lia), ok_bind, ok_bind,
        digestLoop, if_pos hlt]
      exact rawDigestLoop_eq hfit n1 n256 hs fuel _ _ (by lia)
    · rw [if_neg hlt]
      cases fuel with
      | zero => rfl
      | succ fuel => rw [digestLoop, if_neg hlt]; rfl

section Whole

variable (C : Crypto RsaKey EcKey) {mem : List UInt8} (keys : List (Certificate RsaKey EcKey))

theorem rawVerifyEocd_eq (hfit : mem.length < 2 ^ 64) {s c : Nat} (hs : FOOTER_SIZE < s)
    (hsc : s ≤ c) (hc : c < 2 ^ 16) :
    rawVerifyEocd C mem keys s c = .ok (verifyEocd C mem keys s c) := by
  have h22 : EOCD_HEADER_SIZE = 22 := rfl
  have h6 : FOOTER_SIZE = 6 := rfl
  unfold rawVerifyEocd verifyEocd
  rw [add64_eq (by lia)]
  simp only
  by_cases hlen : mem.length < c + EOCD_HEADER_SIZE
  · rw [if_pos hlen, if_pos hlen]; rfl
  have hmark : eocdMarkerAt (mem.drop (mem.length - (c + EOCD_HEADER_SIZE))) 0 =
      eocdMarkerAt mem (mem.length - (c + EOCD_HEADER_SIZE)) := eocdMarkerAt_drop _ _ _
  rw [if_neg hlen, if_neg hlen, sub64_eq (by lia) hfit, add64_eq (by lia),
    sub64_eq (by lia) (by lia), rawMarkerAt_eq hfit (by lia), ok_bind, hmark]
  by_cases hm : eocdMarkerAt mem (mem.length - (c + EOCD_HEADER_SIZE)) = true
  · rw [if_neg (by simp [hm]), if_neg (by simp [hm]), rawScan_eq hfit (by lia) (by lia) _ _
      (by lia), ok_bind]
    split
    · rfl
    rw [rawDigestLoop_eq hfit _ _ (by lia) _ _ _ (by lia), ok_bind, add64_eq (by lia),
      sub64_eq (by lia) (by lia), sub64_eq (by lia) (by lia), readSlice_eq (by lia),
      ok_bind]
    have harea : (mem.drop (mem.length - (c + EOCD_HEADER_SIZE))).drop (c + EOCD_HEADER_SIZE - s) =
        mem.drop (mem.length - (c + EOCD_HEADER_SIZE) + (c + EOCD_HEADER_SIZE) - s) := by
      rw [List.drop_drop]; congr 1; lia
    rw [harea, rawReadPkcs7_eq (by simp only [List.length_take, List.length_drop]; lia), ok_bind]
    cases readPkcs7 _ <;> rfl
  · rw [if_pos hm, if_pos hm]; rfl

/-- **`verify_file` reads inside the package**, and is the bounded function. -/
theorem rawVerifyFile_eq (hfit : mem.length < 2 ^ 64) :
    rawVerifyFile C mem keys = .ok (verifyFile C mem keys) := by
  have h6 : FOOTER_SIZE = 6 := rfl
  unfold rawVerifyFile verifyFile
  simp only
  by_cases hlen : mem.length < FOOTER_SIZE
  · rw [if_pos hlen, if_pos hlen]; rfl
  rw [if_neg hlen, if_neg hlen, sub64_eq (by omega) hfit]
  obtain ⟨n, hn⟩ : ∃ n, mem.length - FOOTER_SIZE = n := ⟨_, rfl⟩
  have hd : mem.drop n = [mem[n], mem[n + 1], mem[n + 2], mem[n + 3], mem[n + 4], mem[n + 5]] := by
    rw [List.drop_eq_getElem_cons (by omega), List.drop_eq_getElem_cons (by omega),
      List.drop_eq_getElem_cons (by omega), List.drop_eq_getElem_cons (by omega),
      List.drop_eq_getElem_cons (by omega), List.drop_eq_getElem_cons (by omega),
      List.drop_eq_nil_of_le (by omega)]
  rw [hn, hd, add64_eq (by omega), add64_eq (by omega), add64_eq (by omega), add64_eq (by omega),
    add64_eq (by omega), readAt_eq (by omega), readAt_eq (by omega), readAt_eq (by omega),
    readAt_eq (by omega), readAt_eq (by omega), readAt_eq (by omega)]
  simp only [ok_bind]
  by_cases h2 : mem[n + 2] ≠ 0xff
  · rw [if_pos h2, if_pos (Or.inl h2)]; rfl
  by_cases h3 : mem[n + 3] ≠ 0xff
  · rw [if_neg h2, if_pos h3, if_pos (Or.inr h3)]; rfl
  rw [if_neg h2, if_neg h3, if_neg (not_or.2 ⟨h2, h3⟩)]
  have hc : mem[n + 4].toNat + (mem[n + 5].toNat <<< 8) < 2 ^ 16 := by
    have := mem[n + 4].toNat_lt
    have := mem[n + 5].toNat_lt
    rw [Nat.shiftLeft_eq]
    omega
  split
  · rfl
  split
  · rfl
  · exact rawVerifyEocd_eq C keys hfit (by omega) (by omega) hc

end Whole

/-- **No read leaves the package.**  Any walk of `asn1_context` operations over any input stays
inside it, with every context inside the one it was taken from; `read_pkcs7` never faults and
fails or returns a slice of its input; `verify_file` never faults, whatever the keys. -/
theorem verifyFile_inBounds (C : Crypto RsaKey EcKey) (keys : List (Certificate RsaKey EcKey))
    (package : List UInt8) (hfit : package.length < 2 ^ 64) :
    (∀ cmds : List (Nat × Asn1Op), ∃ held,
      walkRun package [⟨.ofBuffer package, .ofBuffer package⟩] cmds = .ok held ∧
        ∀ h ∈ held, h.Nested package) ∧
    (∃ r, rawReadPkcs7 package = .ok r ∧ ∀ sig ∈ r, sig <:+: package) ∧
    rawVerifyFile C package keys = .ok (verifyFile C package keys) := by
  refine ⟨fun cmds => ?_, ⟨_, rawReadPkcs7_eq hfit, fun sig h => readPkcs7_slice h⟩,
    rawVerifyFile_eq C keys hfit⟩
  apply walkRun_nested hfit
  intro h hmem
  rw [List.mem_singleton] at hmem
  subst hmem
  exact ⟨Nat.le_refl _, Nat.le_refl _, by simp [RawContext.ofBuffer]⟩

/-- A sequence that claims four gigabytes. -/
theorem verifyFile_inBounds_claimed :
    ([0x30, 0x84, 0xff, 0xff, 0xff, 0xff, 0x05] : List UInt8).length < 2 ^ 64 ∧
    ∃ r, rawReadPkcs7 [0x30, 0x84, 0xff, 0xff, 0xff, 0xff, 0x05] = .ok r ∧
      ∀ sig ∈ r, sig <:+: [0x30, 0x84, 0xff, 0xff, 0xff, 0xff, 0x05] :=
  ⟨by decide, (verifyFile_inBounds
    (⟨fun _ => [], fun _ => [], fun _ _ _ _ _ => false, fun _ _ _ _ => false⟩ : Crypto Unit Unit) []
    [0x30, 0x84, 0xff, 0xff, 0xff, 0xff, 0x05] (by decide)).2.1⟩

end Recovery.Verifier
