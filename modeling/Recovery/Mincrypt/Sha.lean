import Recovery.Lib.MerkleDamgard

/-!
# SHA-1 and SHA-256 (`libmincrypt/sha.c`, `libmincrypt/sha256.c`)

* `HASH_CTX`, `HASH_VTAB` — a context, and what the two hashes differ in.
* `SHA1_Transform`, `SHA256_Transform` — the compression functions.
* `SHA_update`, `SHA_final`, `SHA_hash` and their SHA-256 siblings.
* `Absorbed` — what a context says of the bytes that it has been given.
* `sha_stream` — whatever pieces a message comes in, the digest is that of the padded message.

The count is modulo `2 ^ 64`, as in the context, and the digest depends on it through the length
that the padding ends with.  The examples at the end are the answers of the standard for `abc`.
-/

set_option autoImplicit false

namespace Recovery.Mincrypt

open Recovery.Lib.MerkleDamgard

def SHA_DIGEST_SIZE : Nat := 20
def SHA256_DIGEST_SIZE : Nat := 32

structure HASH_CTX where
  count : UInt64
  buf : List UInt8
  state : List UInt32

/-- What the two hashes differ in: the values of `init`, the transformation, and the size of a
digest in words. -/
structure HASH_VTAB where
  state : List UInt32
  transform : List UInt32 → List UInt8 → List UInt32
  words : Nat

/-! ## Words -/

/-- The words of big-endian bytes. -/
def toWords : List UInt8 → List UInt32
  | b0 :: b1 :: b2 :: b3 :: bytes =>
    (b0.toUInt32 <<< 24 ||| b1.toUInt32 <<< 16 ||| b2.toUInt32 <<< 8 ||| b3.toUInt32) ::
      toWords bytes
  | _ => []

def ofWords (ws : List UInt32) : List UInt8 :=
  ws.flatMap fun tmp : UInt32 =>
    [(tmp >>> 24).toUInt8, (tmp >>> 16).toUInt8, (tmp >>> 8).toUInt8, tmp.toUInt8]

theorem length_ofWords (ws : List UInt32) : (ofWords ws).length = 4 * ws.length := by
  induction ws with
  | nil => rfl
  | cons w ws ih =>
    rw [ofWords, List.flatMap_cons, List.length_append, ← ofWords, ih, Nat.add_comm]
    rfl

/-- `n` more words, each from those before it. -/
def expand (next : List UInt32 → UInt32) : Nat → List UInt32 → List UInt32
  | 0, W => W
  | n + 1, W => expand next n (W ++ [next W])

/-- `W[t - k]`. -/
def back (W : List UInt32) (k : Nat) : UInt32 := W.getD (W.length - k) 0

/-! ## SHA-1 -/

def rol (bits value : UInt32) : UInt32 := (value <<< bits) ||| (value >>> (32 - bits))

def SHA1_Transform (state : List UInt32) (buf : List UInt8) : List UInt32 :=
  let W := expand (fun W => rol 1 (back W 3 ^^^ back W 8 ^^^ back W 14 ^^^ back W 16)) 64
    (toWords buf)
  match state with
  | [A, B, C, D, E] =>
    let round := fun (s : UInt32 × UInt32 × UInt32 × UInt32 × UInt32) (w : UInt32 × Nat) =>
      let (A, B, C, D, E) := s
      let (Wt, t) := w
      let tmp := rol 5 A + E + Wt
      let tmp :=
        if t < 20 then tmp + ((D ^^^ (B &&& (C ^^^ D))) + 0x5A827999)
        else if t < 40 then tmp + ((B ^^^ C ^^^ D) + 0x6ED9EBA1)
        else if t < 60 then tmp + (((B &&& C) ||| (D &&& (B ||| C))) + 0x8F1BBCDC)
        else tmp + ((B ^^^ C ^^^ D) + 0xCA62C1D6)
      (tmp, A, rol 30 B, C, D)
    let (A', B', C', D', E') := W.zipIdx.foldl round (A, B, C, D, E)
    [A + A', B + B', C + C', D + D', E + E']
  | _ => state

def SHA_VTAB : HASH_VTAB where
  state := [0x67452301, 0xEFCDAB89, 0x98BADCFE, 0x10325476, 0xC3D2E1F0]
  transform := SHA1_Transform
  words := SHA_DIGEST_SIZE / 4

/-! ## SHA-256 -/

def ror (value bits : UInt32) : UInt32 := (value >>> bits) ||| (value <<< (32 - bits))

def K : List UInt32 := [
  0x428a2f98, 0x71374491, 0xb5c0fbcf, 0xe9b5dba5, 0x3956c25b, 0x59f111f1, 0x923f82a4, 0xab1c5ed5,
  0xd807aa98, 0x12835b01, 0x243185be, 0x550c7dc3, 0x72be5d74, 0x80deb1fe, 0x9bdc06a7, 0xc19bf174,
  0xe49b69c1, 0xefbe4786, 0x0fc19dc6, 0x240ca1cc, 0x2de92c6f, 0x4a7484aa, 0x5cb0a9dc, 0x76f988da,
  0x983e5152, 0xa831c66d, 0xb00327c8, 0xbf597fc7, 0xc6e00bf3, 0xd5a79147, 0x06ca6351, 0x14292967,
  0x27b70a85, 0x2e1b2138, 0x4d2c6dfc, 0x53380d13, 0x650a7354, 0x766a0abb, 0x81c2c92e, 0x92722c85,
  0xa2bfe8a1, 0xa81a664b, 0xc24b8b70, 0xc76c51a3, 0xd192e819, 0xd6990624, 0xf40e3585, 0x106aa070,
  0x19a4c116, 0x1e376c08, 0x2748774c, 0x34b0bcb5, 0x391c0cb3, 0x4ed8aa4a, 0x5b9cca4f, 0x682e6ff3,
  0x748f82ee, 0x78a5636f, 0x84c87814, 0x8cc70208, 0x90befffa, 0xa4506ceb, 0xbef9a3f7, 0xc67178f2]

def SHA256_Transform (state : List UInt32) (buf : List UInt8) : List UInt32 :=
  let W := expand (fun W =>
      let s0 := ror (back W 15) 7 ^^^ ror (back W 15) 18 ^^^ (back W 15 >>> 3)
      let s1 := ror (back W 2) 17 ^^^ ror (back W 2) 19 ^^^ (back W 2 >>> 10)
      back W 16 + s0 + back W 7 + s1) 48 (toWords buf)
  match state with
  | [A, B, C, D, E, F, G, H] =>
    let round := fun (s : UInt32 × UInt32 × UInt32 × UInt32 × UInt32 × UInt32 × UInt32 × UInt32)
        (w : UInt32 × UInt32) =>
      let (A, B, C, D, E, F, G, H) := s
      let (Kt, Wt) := w
      let s0 := ror A 2 ^^^ ror A 13 ^^^ ror A 22
      let maj := (A &&& B) ^^^ (A &&& C) ^^^ (B &&& C)
      let t2 := s0 + maj
      let s1 := ror E 6 ^^^ ror E 11 ^^^ ror E 25
      let ch := (E &&& F) ^^^ ((~~~ E) &&& G)
      let t1 := H + s1 + ch + Kt + Wt
      (t1 + t2, A, B, C, D + t1, E, F, G)
    let (A', B', C', D', E', F', G', H') := (K.zip W).foldl round (A, B, C, D, E, F, G, H)
    [A + A', B + B', C + C', D + D', E + E', F + F', G + G', H + H']
  | _ => state

def SHA256_VTAB : HASH_VTAB where
  state := [0x6a09e667, 0xbb67ae85, 0x3c6ef372, 0xa54ff53a, 0x510e527f, 0x9b05688c, 0x1f83d9ab,
    0x5be0cd19]
  transform := SHA256_Transform
  words := SHA256_DIGEST_SIZE / 4

/-! ## The functions of a hash -/

namespace HASH_VTAB

variable (f : HASH_VTAB)

def init (ctx : HASH_CTX) : HASH_CTX := { ctx with state := f.state, count := 0 }

/-- The loop of `update`. -/
def updateLoop : List UInt8 → Nat → HASH_CTX → HASH_CTX
  | [], _, ctx => ctx
  | p :: data, i, ctx =>
    let ctx := { ctx with buf := ctx.buf.set i p }
    if i + 1 = 64 then updateLoop data 0 { ctx with state := f.transform ctx.state ctx.buf }
    else updateLoop data (i + 1) ctx

def update (ctx : HASH_CTX) (data : List UInt8) : HASH_CTX :=
  f.updateLoop data (ctx.count &&& 63).toNat { ctx with count := ctx.count + .ofNat data.length }

/-- The loop that pads; `none` when it has not ended. -/
def padLoop : Nat → HASH_CTX → Option HASH_CTX
  | 0, _ => none
  | fuel + 1, ctx => if ctx.count &&& 63 ≠ 56 then padLoop fuel (f.update ctx [0]) else some ctx

/-- `count * 8`, most significant byte first. -/
def lengthBytes (cnt : UInt64) : List UInt8 :=
  (List.range 8).map fun i => (cnt >>> .ofNat ((7 - i) * 8)).toUInt8

/-- The buffer, with the digest in front. -/
def final (ctx : HASH_CTX) : Option (List UInt8) := do
  let cnt := ctx.count * 8
  let ctx ← f.padLoop 64 (f.update ctx [0x80])
  let ctx := (lengthBytes cnt).foldl (fun ctx tmp => f.update ctx [tmp]) ctx
  let digest := ofWords (ctx.state.take f.words)
  some (digest ++ ctx.buf.drop digest.length)

/-- The digest of `data`, with what is in the context before. -/
def hash (ctx : HASH_CTX) (data : List UInt8) : Option (List UInt8) :=
  (f.final (f.update (f.init ctx) data)).map fun buf => buf.take (4 * f.words)

end HASH_VTAB

def SHA_init : HASH_CTX → HASH_CTX := SHA_VTAB.init
def SHA_update : HASH_CTX → List UInt8 → HASH_CTX := SHA_VTAB.update
def SHA_final : HASH_CTX → Option (List UInt8) := SHA_VTAB.final
def SHA_hash : HASH_CTX → List UInt8 → Option (List UInt8) := SHA_VTAB.hash

def SHA256_init : HASH_CTX → HASH_CTX := SHA256_VTAB.init
def SHA256_update : HASH_CTX → List UInt8 → HASH_CTX := SHA256_VTAB.update
def SHA256_final : HASH_CTX → Option (List UInt8) := SHA256_VTAB.final
def SHA256_hash : HASH_CTX → List UInt8 → Option (List UInt8) := SHA256_VTAB.hash

/-! ## What a context holds -/

/-- The context has been given `m`. -/
structure Absorbed (f : HASH_VTAB) (ctx : HASH_CTX) (m : List UInt8) : Prop where
  buf : ctx.buf.length = 64
  kept : ctx.buf.take (m.length % 64) = leftover 64 m
  state : ctx.state = absorb f.transform 64 f.state m

variable {f : HASH_VTAB} {ctx : HASH_CTX} {m : List UInt8}

theorem Absorbed.byte (h : Absorbed f ctx m) (p : UInt8) (hne : m.length % 64 + 1 ≠ 64) :
    Absorbed f { ctx with buf := ctx.buf.set (m.length % 64) p } (m ++ [p]) := by
  have hmod : (m.length + 1) % 64 = m.length % 64 + 1 := by omega
  obtain ⟨habsorb, hleft⟩ := absorb_snoc f.transform 64 m p (by omega) f.state
  have hlt : m.length % 64 < ctx.buf.length := by rw [h.buf]; omega
  refine ⟨by rw [List.length_set, h.buf], ?_, by rw [habsorb, ← h.state]⟩
  rw [hleft, List.length_append, List.length_singleton, hmod, ← h.kept,
    List.take_succ_eq_append_getElem (by rwa [List.length_set]), List.getElem_set_self,
    List.take_set_of_le (Nat.le_refl _)]

/-- A byte that completes a block. -/
theorem Absorbed.block (h : Absorbed f ctx m) (p : UInt8) (heq : m.length % 64 + 1 = 64) :
    Absorbed f { ctx with
      buf := ctx.buf.set (m.length % 64) p
      state := f.transform ctx.state (ctx.buf.set (m.length % 64) p) } (m ++ [p]) := by
  obtain ⟨habsorb, hleft⟩ := absorb_snoc_full f.transform 64 m p (by omega) f.state
  have hlt : m.length % 64 < ctx.buf.length := by rw [h.buf]; omega
  have hbuf : ctx.buf.set (m.length % 64) p = leftover 64 m ++ [p] := by
    rw [← h.kept, List.set_eq_take_append_cons_drop, if_pos hlt, heq, ← h.buf, List.drop_length]
  refine ⟨by rw [List.length_set, h.buf], ?_, by rw [habsorb, ← h.state, hbuf]⟩
  rw [hleft, List.length_append, List.length_singleton, show (m.length + 1) % 64 = 0 by omega,
    List.take_zero]

theorem updateLoop_spec : ∀ (data : List UInt8) (ctx : HASH_CTX) (m : List UInt8),
    Absorbed f ctx m → Absorbed f (f.updateLoop data (m.length % 64) ctx) (m ++ data) ∧
      (f.updateLoop data (m.length % 64) ctx).count = ctx.count
  | [], ctx, m, h => ⟨by rwa [List.append_nil], rfl⟩
  | p :: data, ctx, m, h => by
    have hlen : (m ++ [p]).length = m.length + 1 := by simp
    rw [HASH_VTAB.updateLoop, show m ++ p :: data = m ++ [p] ++ data by simp]
    split
    · rename_i heq
      have hrest := updateLoop_spec data _ _ (h.block p heq)
      rwa [hlen, show (m.length + 1) % 64 = 0 by omega] at hrest
    · rename_i hne
      have hrest := updateLoop_spec data _ _ (h.byte p hne)
      rwa [hlen, show (m.length + 1) % 64 = m.length % 64 + 1 by omega] at hrest

/-- The count says how full the buffer is. -/
theorem and_63 (n : Nat) : (UInt64.ofNat n &&& 63).toNat = n % 64 := by
  rw [UInt64.toNat_and, UInt64.toNat_ofNat']
  show n % 2 ^ 64 &&& 2 ^ 6 - 1 = n % 64
  rw [Nat.and_two_pow_sub_one_eq_mod]
  omega

/-- The context has been given `m`, and counts it. -/
def Counted (f : HASH_VTAB) (ctx : HASH_CTX) (m : List UInt8) : Prop :=
  Absorbed f ctx m ∧ ctx.count = .ofNat m.length

theorem update_spec (h : Counted f ctx m) (data : List UInt8) :
    Counted f (f.update ctx data) (m ++ data) := by
  obtain ⟨habs, hcount⟩ := h
  have hpos : (ctx.count &&& 63).toNat = m.length % 64 := by rw [hcount, and_63]
  obtain ⟨habs', hcount'⟩ := updateLoop_spec data
    { ctx with count := ctx.count + .ofNat data.length } m ⟨habs.buf, habs.kept, habs.state⟩
  rw [HASH_VTAB.update, hpos]
  refine ⟨habs', hcount'.trans ?_⟩
  rw [hcount, List.length_append, UInt64.ofNat_add]

theorem updates_spec (pieces : List (List UInt8)) (h : Counted f ctx m) :
    Counted f (pieces.foldl f.update ctx) (m ++ pieces.flatten) := by
  induction pieces generalizing ctx m with
  | nil => rwa [List.flatten_nil, List.append_nil]
  | cons piece pieces ih =>
    rw [List.foldl_cons, List.flatten_cons, ← List.append_assoc]
    exact ih (update_spec h piece)

theorem init_spec (f : HASH_VTAB) (h : ctx.buf.length = 64) : Counted f (f.init ctx) [] :=
  ⟨⟨h, rfl, rfl⟩, rfl⟩

/-! ## Padding -/

/-- The number of zeros after a message of `n` bytes and the byte `0x80`. -/
def zeros (n : Nat) : Nat := (120 - (n + 1) % 64) % 64

/-- A message with its padding. -/
def pad (m : List UInt8) : List UInt8 :=
  m ++ [0x80] ++ List.replicate (zeros m.length) 0 ++ HASH_VTAB.lengthBytes (.ofNat m.length * 8)

/-- The loop ends. -/
theorem padLoop_spec : ∀ (fuel : Nat) {ctx : HASH_CTX} {m : List UInt8}, Counted f ctx m →
    (120 - m.length % 64) % 64 < fuel →
    ∃ ctx', f.padLoop fuel ctx = some ctx' ∧
      Counted f ctx' (m ++ List.replicate ((120 - m.length % 64) % 64) 0)
  | fuel + 1, ctx, m, h, hfuel => by
    have hcount : ctx.count &&& 63 = 56 ↔ m.length % 64 = 56 := by
      rw [h.2, ← UInt64.toNat_inj, and_63]
      rfl
    rw [HASH_VTAB.padLoop]
    split
    · rename_i hne
      have hne' : m.length % 64 ≠ 56 := fun he => hne (hcount.2 he)
      have hlen : (m ++ [0]).length = m.length + 1 := by simp
      have hless : (120 - m.length % 64) % 64 = (120 - (m.length + 1) % 64) % 64 + 1 := by omega
      have hrest := padLoop_spec fuel (update_spec h [0]) (by rw [hlen]; omega)
      rwa [hlen, List.append_assoc, List.singleton_append, ← List.replicate_succ, ← hless] at hrest
    · rename_i he
      have he' : m.length % 64 = 56 := hcount.1 (not_not.1 he)
      rw [he']
      exact ⟨ctx, rfl, by simpa using h⟩

/-- A state has as many words as a digest. -/
structure Shaped (f : HASH_VTAB) : Prop where
  state : f.state.length = f.words
  transform : ∀ state buf, state.length = f.words → (f.transform state buf).length = f.words

theorem shaped_SHA : Shaped SHA_VTAB := by
  refine ⟨rfl, fun state buf h => ?_⟩
  rw [← h]
  show (SHA1_Transform state buf).length = state.length
  unfold SHA1_Transform
  dsimp only
  split
  · simp only [List.length_cons, List.length_nil]
  · rfl

theorem shaped_SHA256 : Shaped SHA256_VTAB := by
  refine ⟨rfl, fun state buf h => ?_⟩
  rw [← h]
  show (SHA256_Transform state buf).length = state.length
  unfold SHA256_Transform
  dsimp only
  split
  · simp only [List.length_cons, List.length_nil]
  · rfl

theorem Shaped.absorb (hf : Shaped f) (m : List UInt8) :
    (absorb f.transform 64 f.state m).length = f.words := by
  have hfold : ∀ (bs : List (List UInt8)) (state : List UInt32), state.length = f.words →
      (bs.foldl f.transform state).length = f.words := by
    intro bs
    induction bs with
    | nil => exact fun _ h => h
    | cons b bs ih => exact fun state h => ih _ (hf.transform state b h)
  exact hfold _ _ hf.state

/-- The digest of a message: the transformations of the padded message, block by block. -/
def digest (f : HASH_VTAB) (m : List UInt8) : List UInt8 :=
  ofWords (absorb f.transform 64 f.state (pad m))

/-- **The digest** is in front of the buffer. -/
theorem final_spec (hf : Shaped f) (h : Counted f ctx m) :
    (f.final ctx).map (fun buf => buf.take (4 * f.words)) = some (digest f m) := by
  have hlen : (m ++ [0x80]).length = m.length + 1 := by simp
  obtain ⟨ctx₁, hpad, h₁⟩ := padLoop_spec 64 (update_spec h [0x80]) (Nat.mod_lt _ (by decide))
  have hbytes : ∀ (bytes : List UInt8) {ctx : HASH_CTX} {m : List UInt8}, Counted f ctx m →
      Counted f (bytes.foldl (fun ctx tmp => f.update ctx [tmp]) ctx) (m ++ bytes) := by
    intro bytes ctx m h
    have hall := updates_spec (bytes.map ([·])) h
    rwa [List.foldl_map, ← List.flatMap_def, List.flatMap_singleton'] at hall
  have h₂ := hbytes (HASH_VTAB.lengthBytes (ctx.count * 8)) h₁
  rw [hlen, h.2] at h₂
  have hstate : (absorb f.transform 64 f.state (pad m)).take f.words =
      absorb f.transform 64 f.state (pad m) := List.take_of_length_le (Nat.le_of_eq (hf.absorb _))
  have hdigest : (digest f m).length = 4 * f.words := by rw [digest, length_ofWords, hf.absorb]
  have hfinal : f.final ctx = some (digest f m ++
      ((HASH_VTAB.lengthBytes (.ofNat m.length * 8)).foldl (fun ctx tmp => f.update ctx [tmp])
        ctx₁).buf.drop (digest f m).length) := by
    rw [HASH_VTAB.final, hpad, Option.bind_eq_bind, Option.bind_some, h.2]
    dsimp only
    rw [h₂.1.state]
    exact congrArg (fun state => some (ofWords state ++ List.drop (ofWords state).length _)) hstate
  rw [hfinal, Option.map_some, List.take_append_of_le_length (Nat.le_of_eq hdigest.symm),
    List.take_of_length_le (Nat.le_of_eq hdigest)]

theorem stream_spec (hf : Shaped f) (h : ctx.buf.length = 64) (pieces : List (List UInt8)) :
    (f.final (pieces.foldl f.update (f.init ctx))).map (fun buf => buf.take (4 * f.words)) =
      some (digest f pieces.flatten) := final_spec hf (updates_spec pieces (init_spec f h))

theorem hash_spec (hf : Shaped f) (h : ctx.buf.length = 64) (data : List UInt8) :
    f.hash ctx data = some (digest f data) := final_spec hf (update_spec (init_spec f h) data)

/-- **A message in pieces** has the digest of the message: whatever the pieces are, and whatever is
in the context before, the padding ends and the digest is that of the padded message. -/
theorem sha_stream (ctx : HASH_CTX) (h : ctx.buf.length = 64) (pieces : List (List UInt8)) :
    ((SHA_final (pieces.foldl SHA_update (SHA_init ctx))).map
        (fun buf => buf.take SHA_DIGEST_SIZE) = some (digest SHA_VTAB pieces.flatten) ∧
      SHA_hash ctx pieces.flatten = some (digest SHA_VTAB pieces.flatten)) ∧
    ((SHA256_final (pieces.foldl SHA256_update (SHA256_init ctx))).map
        (fun buf => buf.take SHA256_DIGEST_SIZE) = some (digest SHA256_VTAB pieces.flatten) ∧
      SHA256_hash ctx pieces.flatten = some (digest SHA256_VTAB pieces.flatten)) :=
  ⟨⟨stream_spec shaped_SHA h pieces, hash_spec shaped_SHA h _⟩, stream_spec shaped_SHA256 h pieces,
    hash_spec shaped_SHA256 h _⟩

theorem sha_stream_two : ((SHA_final ([[1], [2, 3]].foldl SHA_update (SHA_init
      ⟨7, List.replicate 64 9, []⟩))).map (fun buf => buf.take SHA_DIGEST_SIZE) =
    some (digest SHA_VTAB [1, 2, 3])) :=
  (sha_stream ⟨7, List.replicate 64 9, []⟩ List.length_replicate [[1], [2, 3]]).1.1

example : SHA_hash ⟨0, List.replicate 64 0, []⟩ [0x61, 0x62, 0x63] = some [0xa9, 0x99, 0x3e, 0x36,
    0x47, 0x06, 0x81, 0x6a, 0xba, 0x3e, 0x25, 0x71, 0x78, 0x50, 0xc2, 0x6c, 0x9c, 0xd0, 0xd8,
    0x9d] := by decide +kernel

example : SHA256_hash ⟨0, List.replicate 64 0, []⟩ [0x61, 0x62, 0x63] = some [0xba, 0x78, 0x16,
    0xbf, 0x8f, 0x01, 0xcf, 0xea, 0x41, 0x41, 0x40, 0xde, 0x5d, 0xae, 0x22, 0x23, 0xb0, 0x03, 0x61,
    0xa3, 0x96, 0x17, 0x7a, 0x9c, 0xb4, 0x10, 0xff, 0x61, 0xf2, 0x00, 0x15,
    0xad] := by decide +kernel

end Recovery.Mincrypt
