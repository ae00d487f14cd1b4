import Recovery.ApplyPatch.ImgPatch
import Recovery.Lib.Access

/-!
# The reads of `ApplyImagePatch`

`ImgPatch` says what a patch's output is.  Here every header field, chunk and source slice is read
through unchecked indices, a failed `CHECK` or allocation ends the process, the sink may refuse a
piece, and there may be bonus data.

* `rawApplyImagePatch` — the interpreter; `some` is `0` and `none` is `-1`.
* `PatchLibs.Lawful` — `bspatch` returns, and the loop around `deflate` ends.
* `ImgPatchArgs.Fits` — what a chunk's fields have to satisfy: the sums they are checked with do
  not wrap around, the offset of a bsdiff patch is inside the blob, the expanded size can be
  allocated.
* `rawApplyChunk_iff`, `applyImagePatch_safe_iff` — a patch is handled without reading outside of its
  input and without aborting exactly when every chunk that is reached fits.
-/

set_option autoImplicit false

namespace Recovery.ApplyPatch

open Recovery.Lib Recovery.Memory

structure ImgPatchEnv where
  L : PatchLibs
  /-- Whether the sink takes the whole of a piece, after the ones it has taken. -/
  sink : List (List UInt8) → List UInt8 → Bool
  /-- The largest buffer that can be allocated. -/
  allocLimit : Nat

/-- The buffers of a call; no object has more than `PTRDIFF_MAX` bytes. -/
structure ImgPatchArgs where
  source : List UInt8
  patch : List UInt8
  bonus : Option (List UInt8)
  source_lt : source.length < 2 ^ 63
  patch_lt : patch.length < 2 ^ 63

/-! ## The interpreter -/

def rawRead4 (bs : List UInt8) (pos : Nat) : Access Int := do
  let b ← readSlice bs pos 4
  pure (toInt (ofLE b))

/-- `static_cast<size_t>(Read8(...))`. -/
def rawRead8 (bs : List UInt8) (pos : Nat) : Access Nat := do
  let b ← readSlice bs pos 8
  pure (ofLE b)

/-- The pieces the sink has taken, and whether it has taken all of them. -/
def deliver (sink : List (List UInt8) → List UInt8 → Bool) :
    List (List UInt8) → List (List UInt8) → List (List UInt8) × Bool
  | taken, [] => (taken, true)
  | taken, piece :: pieces =>
    if sink taken piece then deliver sink (taken ++ [piece]) pieces else (taken, false)

variable (env : ImgPatchEnv) (a : ImgPatchArgs)

/-- Hand the output of a patch function to the sink; the chunk fails when either does. -/
def handOut (taken : List (List UInt8)) (out : Output) : Access (Option (List (List UInt8))) :=
  match out.ending with
  | .abort => throw .aborted
  | .overrun => throw .outOfBounds
  | .endless => throw .stuck
  | .failure => pure none
  | .success =>
    match deliver env.sink taken out.pieces with
    | (taken, true) => pure (some taken)
    | (_, false) => pure none

def rawNormal (header : Nat) (taken : List (List UInt8)) :
    Access (Option (List (List UInt8))) := do
  let srcStart ← rawRead8 a.patch header
  let srcLen ← rawRead8 a.patch (add64 header 8)
  let patchOffset ← rawRead8 a.patch (add64 header 16)
  if add64 srcStart srcLen > a.source.length then pure none else do
  let part ← readSlice a.source srcStart srcLen
  handOut env taken (applyBSDiffPatch env.L part a.patch patchOffset)

def rawRaw (pos dataLen : Nat) (taken : List (List UInt8)) :
    Access (Option (List (List UInt8))) := do
  if add64 pos dataLen > a.patch.length then pure none else do
  let data ← readSlice a.patch pos dataLen
  handOut env taken ⟨[data], .success⟩

/-- The size of the bonus data of chunk `i`. -/
def ImgPatchArgs.bonusSize (i : Nat) : Nat := if i = 1 then (a.bonus.getD []).length else 0

/-- The inflated source with the bonus data behind it; zlib's counts have 32 bits. -/
def ImgPatchArgs.expand (part : List UInt8) (i expandedLen : Nat) :
    Access (Option (List UInt8)) :=
  if expandedLen = 0 then pure (some [])
  else
    let availOut := expandedLen % 2 ^ 32
    match env.L.inflate (part.take (part.length % 2 ^ 32)) availOut with
    | none => pure none
    | some out =>
      if availOut - out.length ≠ a.bonusSize i then pure none
      else if a.bonusSize i > expandedLen then throw .outOfBounds
      else
        let room := expandedLen - a.bonusSize i
        pure (some ((out ++ List.replicate expandedLen 0).take room ++
          (a.bonus.getD []).take (a.bonusSize i)))

def rawDeflate (i header : Nat) (taken : List (List UInt8)) :
    Access (Option (List (List UInt8))) := do
  let srcStart ← rawRead8 a.patch header
  let srcLen ← rawRead8 a.patch (add64 header 8)
  let patchOffset ← rawRead8 a.patch (add64 header 16)
  let expandedLen ← rawRead8 a.patch (add64 header 24)
  if add64 srcStart srcLen > a.source.length then pure none else do
  if expandedLen > env.allocLimit then throw .aborted else do
  let part ← readSlice a.source srcStart srcLen
  let expanded ← a.expand env part i expandedLen
  match expanded with
  | none => pure none
  | some expanded => do
    -- the rest of the header is read by `ApplyBSDiffPatchAndStreamOutput`
    let _ ← readSlice a.patch (add64 header 32) 28
    handOut env taken (applyBSDiffPatchAndStreamOutput env.L expanded a.patch patchOffset header)

/-- The chunk whose record starts at `pos`: where the next one starts, and what the sink has. -/
def rawApplyChunk (i pos : Nat) (taken : List (List UInt8)) :
    Access (Option (Nat × List (List UInt8))) := do
  if add64 pos 4 > a.patch.length then pure none else do
  let type ← rawRead4 a.patch pos
  let header := add64 pos 4
  if type = CHUNK_NORMAL then
    let pos := add64 header 24
    if pos > a.patch.length then pure none else do
    let taken ← rawNormal env a header taken
    pure (taken.map (pos, ·))
  else if type = CHUNK_RAW then
    let pos := add64 header 4
    if pos > a.patch.length then pure none else do
    let dataLen ← rawRead4 a.patch header
    let taken ← rawRaw env a pos (sizeOfInt dataLen) taken
    pure (taken.map (add64 pos (sizeOfInt dataLen), ·))
  else if type = CHUNK_DEFLATE then
    let pos := add64 header 60
    if pos > a.patch.length then pure none else do
    let taken ← rawDeflate env a i header taken
    pure (taken.map (pos, ·))
  else pure none

/-- The loop over the chunks, `n` of which are left, from the `i`th one on. -/
def rawChunkLoop : Nat → Nat → Nat → List (List UInt8) → Access (Option (List (List UInt8)))
  | 0, _, _, taken => pure (some taken)
  | n + 1, i, pos, taken => do
    let next ← rawApplyChunk env a i pos taken
    match next with
    | none => pure none
    | some (pos, taken) => rawChunkLoop n (i + 1) pos taken

def rawApplyImagePatch : Access (Option (List (List UInt8))) := do
  if a.patch.length < 12 then pure none else do
  let magic ← readSlice a.patch 0 8
  if magic ≠ IMGDIFF2 then pure none else do
  let numChunks ← rawRead4 a.patch 8
  rawChunkLoop env a numChunks.toNat 0 12 []

/-! ## When a chunk is handled -/

/-- The check of a source range does not wrap around when it is passed. -/
def ImgPatchArgs.RangeFits (start len : Nat) : Prop :=
  (start + len) % 2 ^ 64 ≤ a.source.length → start + len ≤ a.source.length

def ImgPatchArgs.NormalFits (header : Nat) : Prop :=
  let start := read8 a.patch header
  let len := read8 a.patch (header + 8)
  a.RangeFits start len ∧
    (start + len ≤ a.source.length → read8 a.patch (header + 16) ≤ a.patch.length)

/-- The check of a raw chunk does not wrap around when it is passed. -/
def ImgPatchArgs.RawFits (pos dataLen : Nat) : Prop :=
  (pos + dataLen) % 2 ^ 64 ≤ a.patch.length → pos + dataLen ≤ a.patch.length

/-- The source of a deflate chunk is expanded to its size, and zlib takes the parameters of the
header: the bsdiff patch is going to be applied. -/
def ImgPatchArgs.Applies (i header : Nat) : Prop :=
  (∃ expanded, a.expand env (slice a.source (read8 a.patch header) (read8 a.patch (header + 8))) i
      (read8 a.patch (header + 24)) = .ok (some expanded)) ∧
    (env.L.deflateInit2 (read4 a.patch (header + 40)) (read4 a.patch (header + 44))
      (read4 a.patch (header + 48)) (read4 a.patch (header + 52))
      (read4 a.patch (header + 56))).isSome

def ImgPatchArgs.DeflateFits (i header : Nat) : Prop :=
  let start := read8 a.patch header
  let len := read8 a.patch (header + 8)
  a.RangeFits start len ∧
    (start + len ≤ a.source.length → read8 a.patch (header + 24) ≤ env.allocLimit ∧
      (a.Applies env i header → read8 a.patch (header + 16) ≤ a.patch.length))

/-- The fields of the chunk whose record starts at `pos` are safe to use. -/
def ImgPatchArgs.Fits (i pos : Nat) : Prop :=
  pos + 4 ≤ a.patch.length →
    (read4 a.patch pos = CHUNK_NORMAL → pos + 28 ≤ a.patch.length → a.NormalFits (pos + 4)) ∧
    (read4 a.patch pos = CHUNK_RAW → pos + 8 ≤ a.patch.length →
      a.RawFits (pos + 8) (sizeOfInt (read4 a.patch (pos + 4)))) ∧
    (read4 a.patch pos = CHUNK_DEFLATE → pos + 64 ≤ a.patch.length → a.DeflateFits env i (pos + 4))

/-- The loop gets to chunk `i`, whose record starts at `pos`, with `n` chunks to go. -/
inductive ImgPatchArgs.Reached : Nat → Nat → Nat → List (List UInt8) → Prop where
  | first (hlen : 12 ≤ a.patch.length) (hmagic : a.patch.take 8 = IMGDIFF2) :
      Reached (read4 a.patch 8).toNat 0 12 []
  | next {n i pos pos' : Nat} {taken taken' : List (List UInt8)} (h : Reached (n + 1) i pos taken)
      (hchunk : rawApplyChunk env a i pos taken = .ok (some (pos', taken'))) :
      Reached n (i + 1) pos' taken'

/-- `bspatch` returns, and the loop around `deflate` ends. -/
structure PatchLibs.Lawful (L : PatchLibs) : Prop where
  bspatch_returns : ∀ source patch,
    (L.bspatch source patch).ending = .success ∨ (L.bspatch source patch).ending = .failure
  deflate_ends : ∀ finish strm input,
    (deflateLoop L finish L.rounds strm input).2.2.2 ≠ .endless

/-! ## Reads and pieces -/

section Parts

variable {env : ImgPatchEnv} {a : ImgPatchArgs}

theorem rawRead4_eq {bs : List UInt8} {pos : Nat} (h : pos + 4 ≤ bs.length) :
    rawRead4 bs pos = .ok (read4 bs pos) := by
  unfold rawRead4
  rw [readSlice_eq h]
  rfl

theorem rawRead8_eq {bs : List UInt8} {pos : Nat} (h : pos + 8 ≤ bs.length) :
    rawRead8 bs pos = .ok (read8 bs pos) := by
  unfold rawRead8
  rw [readSlice_eq h]
  rfl

theorem read8_lt (bs : List UInt8) (pos : Nat) : read8 bs pos < 2 ^ 64 := by
  have hlen : (slice bs pos 8).length ≤ 8 := List.length_take_le _ _
  calc read8 bs pos < 256 ^ (slice bs pos 8).length := ofLE_lt _
    _ ≤ 256 ^ 8 := Nat.pow_le_pow_right (by lia) hlen
    _ = 2 ^ 64 := by decide

/-- How a patch function of a library ends. -/
def Returns (out : Output) : Prop := out.ending = .success ∨ out.ending = .failure

theorem handOut_of_returns (env : ImgPatchEnv) (taken : List (List UInt8)) {out : Output} (h : Returns out) :
    ∃ r, handOut env taken out = .ok r := by
  unfold handOut
  rcases h with h | h
  · rw [h]
    dsimp only
    split
    · exact ⟨_, rfl⟩
    · exact ⟨_, rfl⟩
  · rw [h]
    exact ⟨_, rfl⟩

theorem handOut_of_abort (taken : List (List UInt8)) {out : Output} (h : out.ending = .abort) :
    handOut env taken out = .error .aborted := by
  unfold handOut
  rw [h]
  rfl

theorem applyBSDiffPatch_returns {L : PatchLibs} (hL : L.Lawful) (source : List UInt8)
    {patch : List UInt8} {offset : Nat} (h : offset ≤ patch.length) :
    Returns (applyBSDiffPatch L source patch offset) := by
  unfold applyBSDiffPatch
  rw [if_pos h]
  exact hL.bspatch_returns _ _

theorem deflateLoop_ending {L : PatchLibs} (finish : Bool) : ∀ (fuel : Nat) (strm : L.Stream)
    (input : List UInt8), (deflateLoop L finish fuel strm input).2.2.2 = .success ∨
      (deflateLoop L finish fuel strm input).2.2.2 = .failure ∨
      (deflateLoop L finish fuel strm input).2.2.2 = .endless
  | 0, _, _ => Or.inr (Or.inr rfl)
  | fuel + 1, strm, input => by
    unfold deflateLoop
    rcases L.deflate strm input bufferSize finish with ⟨strm', availIn, out, ret⟩
    cases ret with
    | error => exact Or.inr (Or.inl rfl)
    | ok =>
      dsimp only
      split
      · exact deflateLoop_ending finish fuel strm' availIn
      · exact Or.inl rfl
    | streamEnd =>
      dsimp only
      rw [if_neg (fun h => h.2 rfl)]
      exact Or.inl rfl

theorem compressPieces_ending {L : PatchLibs} (hL : L.Lawful) (expected : Nat) :
    ∀ (pieces : List (List UInt8)) (c : Compression L),
      (compressPieces L expected pieces c).2.2 = .success ∨
      (compressPieces L expected pieces c).2.2 = .failure
  | [], _ => Or.inl rfl
  | data :: pieces, c => by
    unfold compressPieces
    have hends := hL.deflate_ends (decide (expected ≤ c.actualTargetLength + data.length)) c.strm
      (data.take (data.length % 2 ^ 32))
    have hcases := deflateLoop_ending (decide (expected ≤ c.actualTargetLength + data.length))
      L.rounds c.strm (data.take (data.length % 2 ^ 32))
    dsimp only
    rcases hcases with h | h | h
    · simp only [h]
      exact compressPieces_ending hL expected pieces _
    · simp only [h]
      split
      · exact compressPieces_ending hL expected pieces _
      · exact Or.inr rfl
    · exact absurd h hends

/-- A compressed output aborts exactly when the bsdiff patch is applied at a bad offset. -/
theorem streamOutput_ending {L : PatchLibs} (hL : L.Lawful) (source patch : List UInt8)
    (offset header : Nat) :
    if (L.deflateInit2 (read4 patch (header + 40)) (read4 patch (header + 44))
        (read4 patch (header + 48)) (read4 patch (header + 52))
        (read4 patch (header + 56))).isSome ∧ patch.length < offset then
      (applyBSDiffPatchAndStreamOutput L source patch offset header).ending = .abort
    else Returns (applyBSDiffPatchAndStreamOutput L source patch offset header) := by
  unfold applyBSDiffPatchAndStreamOutput
  dsimp only
  cases hinit : L.deflateInit2 (read4 patch (header + 40)) (read4 patch (header + 44))
    (read4 patch (header + 48)) (read4 patch (header + 52)) (read4 patch (header + 56)) with
  | none =>
    rw [if_neg (by simp)]
    exact Or.inr rfl
  | some strm =>
    dsimp only
    by_cases hoffset : patch.length < offset
    · rw [if_pos ⟨rfl, hoffset⟩]
      have habort : applyBSDiffPatch L source patch offset = ⟨[], .abort⟩ := by
        unfold applyBSDiffPatch
        rw [if_neg (by lia)]
      rw [habort]
      rfl
    · rw [if_neg (fun h => hoffset h.2)]
      have hpatched := applyBSDiffPatch_returns hL source (show offset ≤ patch.length by lia)
      have hpieces := compressPieces_ending hL (read8 patch (header + 32))
        (applyBSDiffPatch L source patch offset).pieces ⟨strm, 0, .ok⟩
      rcases hpieces with h | h
      · simp only [h]
        rcases hpatched with h' | h'
        · simp only [h']
          split
          · exact Or.inl rfl
          · exact Or.inr rfl
        · simp only [h']
          exact Or.inr rfl
      · simp only [h]
        exact Or.inr rfl

end Parts

/-! ## One chunk -/

section Chunk

variable {env : ImgPatchEnv} {a : ImgPatchArgs}

/-- `x` ends without a fault. -/
def Safe {α : Type} (x : Access α) : Prop := ∃ r, x = .ok r

theorem Safe.ok {α : Type} (r : α) : Safe (.ok r : Access α) := ⟨r, rfl⟩

theorem not_safe_error {α : Type} (e : Fault) : ¬ Safe (.error e : Access α) := by
  rintro ⟨r, h⟩
  cases h

/-- A computation whose result is only wrapped up. -/
theorem safe_map {α β : Type} {x : Access α} {f : α → β} :
    Safe (do let r ← x; pure (f r)) ↔ Safe x := by
  cases x with
  | error e => exact ⟨fun h => absurd h (not_safe_error e), fun h => absurd h (not_safe_error e)⟩
  | ok r => exact ⟨fun _ => .ok r, fun _ => .ok (f r)⟩

/-- A source range that has passed its check: the slice is read if the sum has not wrapped
around. -/
theorem sourceSlice {start len : Nat} (hstart : start < 2 ^ 64)
    (hpass : ¬ add64 start len > a.source.length) :
    readSlice a.source start len =
      if start + len ≤ a.source.length then .ok (slice a.source start len)
      else .error .outOfBounds := by
  have hlt := a.source_lt
  unfold add64 at hpass
  by_cases h : start + len ≤ a.source.length
  · rw [if_pos h, readSlice_eq h]
    rfl
  · rw [if_neg h]
    unfold readSlice
    rw [if_neg]
    rintro (h0 | h')
    · subst h0
      rw [Nat.add_zero, Nat.mod_eq_of_lt hstart] at hpass
      lia
    · exact h h'

theorem range_of_rejected {start len : Nat} (hreject : add64 start len > a.source.length) :
    ¬ start + len ≤ a.source.length ∧ a.RangeFits start len := by
  have hlt := a.source_lt
  unfold add64 at hreject
  refine ⟨fun h => ?_, fun h => absurd h (by lia)⟩
  rw [Nat.mod_eq_of_lt (by lia)] at hreject
  lia

/-- **A normal chunk** is handled without a fault exactly when it fits. -/
theorem rawNormal_iff (hL : env.L.Lawful) {header : Nat} (h : header + 24 ≤ a.patch.length)
    (taken : List (List UInt8)) : Safe (rawNormal env a header taken) ↔ a.NormalFits header := by
  have hlt := a.patch_lt
  unfold rawNormal ImgPatchArgs.NormalFits
  rw [add64_eq (by lia), add64_eq (by lia), rawRead8_eq (by lia), rawRead8_eq (by lia),
    rawRead8_eq (by lia)]
  simp only [ok_bind]
  by_cases hreject : add64 (read8 a.patch header) (read8 a.patch (header + 8)) > a.source.length
  · obtain ⟨hno, hfits⟩ := range_of_rejected hreject
    rw [if_pos hreject]
    exact ⟨fun _ => ⟨hfits, fun h => absurd h hno⟩, fun _ => .ok _⟩
  rw [if_neg hreject, sourceSlice (read8_lt _ _) hreject]
  by_cases hin : read8 a.patch header + read8 a.patch (header + 8) ≤ a.source.length
  · rw [if_pos hin, ok_bind]
    by_cases hoffset : read8 a.patch (header + 16) ≤ a.patch.length
    · obtain ⟨r, hr⟩ := handOut_of_returns env taken (applyBSDiffPatch_returns hL
        (slice a.source (read8 a.patch header) (read8 a.patch (header + 8))) hoffset)
      exact ⟨fun _ => ⟨fun _ => hin, fun _ => hoffset⟩, fun _ => ⟨r, hr⟩⟩
    · rw [handOut_of_abort taken (by unfold applyBSDiffPatch; rw [if_neg hoffset])]
      exact ⟨fun h => absurd h (not_safe_error _), fun h => absurd (h.2 hin) hoffset⟩
  · rw [if_neg hin]
    refine ⟨fun h => absurd h (not_safe_error _), fun h => absurd (h.1 ?_) hin⟩
    unfold add64 at hreject
    lia

/-- **A raw chunk**. -/
theorem rawRaw_iff {pos dataLen : Nat} (hpos : pos ≤ a.patch.length)
    (taken : List (List UInt8)) : Safe (rawRaw env a pos dataLen taken) ↔ a.RawFits pos dataLen := by
  have hlt := a.patch_lt
  unfold rawRaw ImgPatchArgs.RawFits
  by_cases hreject : add64 pos dataLen > a.patch.length
  · rw [if_pos hreject]
    unfold add64 at hreject
    exact ⟨fun _ h => absurd h (by lia), fun _ => .ok _⟩
  rw [if_neg hreject]
  by_cases hin : pos + dataLen ≤ a.patch.length
  · rw [readSlice_eq hin, ok_bind]
    obtain ⟨r, hr⟩ := handOut_of_returns env taken
      (show Returns ⟨[(a.patch.drop pos).take dataLen], .success⟩ from Or.inl rfl)
    exact ⟨fun _ _ => hin, fun _ => ⟨r, hr⟩⟩
  · have hread : readSlice a.patch pos dataLen = .error .outOfBounds := by
      unfold readSlice
      rw [if_neg (by lia)]
    rw [hread]
    refine ⟨fun h => absurd h (not_safe_error _), fun h => absurd (h ?_) hin⟩
    unfold add64 at hreject
    lia

/-- Expanding the source is safe: the bonus data fits where the inflation has stopped. -/
theorem expand_safe (env : ImgPatchEnv) (a : ImgPatchArgs) (part : List UInt8) (i expandedLen : Nat) :
    Safe (a.expand env part i expandedLen) := by
  unfold ImgPatchArgs.expand
  split
  · exact .ok _
  dsimp only
  split
  · exact .ok _
  · rename_i out _
    split
    · exact .ok _
    · rename_i hbonus
      have hle := Nat.mod_le expandedLen (2 ^ 32)
      rw [if_neg (by omega)]
      exact .ok _

/-- **A deflate chunk**. -/
theorem rawDeflate_iff (hL : env.L.Lawful) {i header : Nat} (h : header + 60 ≤ a.patch.length)
    (taken : List (List UInt8)) :
    Safe (rawDeflate env a i header taken) ↔ a.DeflateFits env i header := by
  have hlt := a.patch_lt
  unfold rawDeflate ImgPatchArgs.DeflateFits
  rw [add64_eq (by lia), add64_eq (by lia), add64_eq (by lia), add64_eq (by lia),
    rawRead8_eq (by lia), rawRead8_eq (by lia), rawRead8_eq (by lia), rawRead8_eq (by lia),
    readSlice_eq (show header + 32 + 28 ≤ a.patch.length by lia)]
  simp only [ok_bind]
  by_cases hreject : add64 (read8 a.patch header) (read8 a.patch (header + 8)) > a.source.length
  · obtain ⟨hno, hfits⟩ := range_of_rejected hreject
    rw [if_pos hreject]
    exact ⟨fun _ => ⟨hfits, fun h => absurd h hno⟩, fun _ => .ok _⟩
  rw [if_neg hreject, sourceSlice (read8_lt _ _) hreject]
  have hpass : (read8 a.patch header + read8 a.patch (header + 8)) % 2 ^ 64 ≤ a.source.length := by
    unfold add64 at hreject
    lia
  by_cases halloc : read8 a.patch (header + 24) > env.allocLimit
  · rw [if_pos halloc]
    refine ⟨fun h => absurd h (not_safe_error _), fun h => ?_⟩
    exact absurd (h.2 (h.1 hpass)).1 (by lia)
  rw [if_neg halloc]
  by_cases hin : read8 a.patch header + read8 a.patch (header + 8) ≤ a.source.length
  · rw [if_pos hin, ok_bind]
    obtain ⟨expanded, hexpanded⟩ := expand_safe env a
      (slice a.source (read8 a.patch header) (read8 a.patch (header + 8))) i
      (read8 a.patch (header + 24))
    rw [hexpanded, ok_bind]
    cases expanded with
    | none =>
      refine ⟨fun _ => ⟨fun _ => hin, fun _ => ⟨by lia, fun happlies => ?_⟩⟩, fun _ => .ok _⟩
      obtain ⟨⟨e, he⟩, -⟩ := happlies
      rw [hexpanded] at he
      cases he
    | some e =>
      have hending := streamOutput_ending hL e a.patch (read8 a.patch (header + 16)) header
      dsimp only
      split at hending
      · rename_i habort
        rw [handOut_of_abort taken hending]
        refine ⟨fun h => absurd h (not_safe_error _), fun h => ?_⟩
        exact absurd ((h.2 hin).2 ⟨⟨e, hexpanded⟩, habort.1⟩) (by lia)
      · rename_i hreturns
        obtain ⟨r, hr⟩ := handOut_of_returns env taken hending
        refine ⟨fun _ => ⟨fun _ => hin, fun _ => ⟨by lia, fun happlies => ?_⟩⟩, fun _ => ⟨r, hr⟩⟩
        by_contra hoffset
        exact hreturns ⟨happlies.2, by lia⟩
  · rw [if_neg hin]
    refine ⟨fun h => absurd h (not_safe_error _), fun h => absurd (h.1 hpass) hin⟩

/-- **A chunk** is handled without a fault exactly when its fields fit. -/
theorem rawApplyChunk_iff (hL : env.L.Lawful) {i pos : Nat} (hpos : pos ≤ a.patch.length)
    (taken : List (List UInt8)) : Safe (rawApplyChunk env a i pos taken) ↔ a.Fits env i pos := by
  have hlt := a.patch_lt
  unfold rawApplyChunk ImgPatchArgs.Fits
  rw [add64_eq (by lia)]
  by_cases h4 : pos + 4 > a.patch.length
  · rw [if_pos h4]
    exact ⟨fun _ h => absurd h (by lia), fun _ => .ok _⟩
  rw [if_neg h4, rawRead4_eq (by lia), ok_bind]
  dsimp only
  by_cases hnormal : read4 a.patch pos = CHUNK_NORMAL
  · have hraw : read4 a.patch pos ≠ CHUNK_RAW := by rw [hnormal]; decide
    have hdeflate : read4 a.patch pos ≠ CHUNK_DEFLATE := by rw [hnormal]; decide
    rw [if_pos hnormal, add64_eq (by lia)]
    by_cases h28 : pos + 4 + 24 > a.patch.length
    · rw [if_pos h28]
      exact ⟨fun _ _ => ⟨fun _ h => absurd h (by lia), fun h => absurd h hraw,
        fun h => absurd h hdeflate⟩, fun _ => .ok _⟩
    · rw [if_neg h28, safe_map, rawNormal_iff hL (by lia)]
      exact ⟨fun h _ => ⟨fun _ _ => h, fun h => absurd h hraw, fun h => absurd h hdeflate⟩,
        fun h => (h (by lia)).1 hnormal (by lia)⟩
  rw [if_neg hnormal]
  by_cases hraw : read4 a.patch pos = CHUNK_RAW
  · have hdeflate : read4 a.patch pos ≠ CHUNK_DEFLATE := by rw [hraw]; decide
    rw [if_pos hraw, add64_eq (by lia)]
    by_cases h8 : pos + 4 + 4 > a.patch.length
    · rw [if_pos h8]
      exact ⟨fun _ _ => ⟨fun h => absurd h hnormal, fun _ h => absurd h (by lia),
        fun h => absurd h hdeflate⟩, fun _ => .ok _⟩
    · rw [if_neg h8, rawRead4_eq (by lia), ok_bind, safe_map, rawRaw_iff (by lia)]
      exact ⟨fun h _ => ⟨fun h => absurd h hnormal, fun _ _ => h, fun h => absurd h hdeflate⟩,
        fun h => (h (by lia)).2.1 hraw (by lia)⟩
  rw [if_neg hraw]
  by_cases hdeflate : read4 a.patch pos = CHUNK_DEFLATE
  · rw [if_pos hdeflate, add64_eq (by lia)]
    by_cases h64 : pos + 4 + 60 > a.patch.length
    · rw [if_pos h64]
      exact ⟨fun _ _ => ⟨fun h => absurd h hnormal, fun h => absurd h hraw,
        fun _ h => absurd h (by lia)⟩, fun _ => .ok _⟩
    · rw [if_neg h64, safe_map, rawDeflate_iff hL (by lia)]
      exact ⟨fun h _ => ⟨fun h => absurd h hnormal, fun h => absurd h hraw, fun _ _ => h⟩,
        fun h => (h (by lia)).2.2 hdeflate (by lia)⟩
  · rw [if_neg hdeflate]
    exact ⟨fun _ _ => ⟨fun h => absurd h hnormal, fun h => absurd h hraw,
      fun h => absurd h hdeflate⟩, fun _ => .ok _⟩

/-- The next record starts inside the blob or at its end. -/
theorem rawApplyChunk_pos {i pos pos' : Nat} {taken taken' : List (List UInt8)}
    (h : rawApplyChunk env a i pos taken = .ok (some (pos', taken'))) : pos' ≤ a.patch.length := by
  have wrapped : ∀ {p : Nat} {x : Access (Option (List (List UInt8)))},
      (do let taken ← x; pure (taken.map (p, ·))) = (.ok (some (pos', taken')) :
        Access (Option (Nat × List (List UInt8)))) → pos' = p := by
    intro p x hx
    cases x with
    | error e => cases hx
    | ok r =>
      cases r with
      | none => cases hx
      | some t => cases hx; rfl
  unfold rawApplyChunk at h
  split at h
  · cases h
  cases htype : rawRead4 a.patch pos with
  | error e => rw [htype] at h; cases h
  | ok type =>
    rw [htype, ok_bind] at h
    dsimp only at h
    split at h
    · split at h
      · cases h
      · rw [wrapped h]; omega
    split at h
    · split at h
      · cases h
      cases hlen : rawRead4 a.patch (add64 pos 4) with
      | error e => rw [hlen] at h; cases h
      | ok dataLen =>
        rw [hlen, ok_bind] at h
        rw [wrapped h]
        by_contra hover
        unfold rawRaw at h
        rw [if_pos (by omega)] at h
        cases h
    split at h
    · split at h
      · cases h
      · rw [wrapped h]; omega
    · cases h

/-! ## All chunks -/

theorem ImgPatchArgs.Reached.pos_le {n i pos : Nat} {taken : List (List UInt8)}
    (h : a.Reached env n i pos taken) : pos ≤ a.patch.length := by
  cases h with
  | first hlen _ => exact hlen
  | next _ hchunk => exact rawApplyChunk_pos hchunk

theorem rawChunkLoop_safe (hL : env.L.Lawful)
    (hfits : ∀ n i pos taken, a.Reached env (n + 1) i pos taken → a.Fits env i pos) :
    ∀ (n i pos : Nat) (taken : List (List UInt8)), a.Reached env n i pos taken →
      Safe (rawChunkLoop env a n i pos taken)
  | 0, _, _, taken, _ => .ok _
  | n + 1, i, pos, taken, hreached => by
    obtain ⟨r, hr⟩ := (rawApplyChunk_iff hL hreached.pos_le taken).2 (hfits n i pos taken hreached)
    unfold rawChunkLoop
    rw [hr, ok_bind]
    cases r with
    | none => exact .ok _
    | some next =>
      exact rawChunkLoop_safe hL hfits n (i + 1) next.1 next.2 (.next hreached hr)

/-- A loop that ends without a fault has handled its next chunk. -/
theorem safe_of_rawChunkLoop {n i pos : Nat} {taken : List (List UInt8)}
    (h : Safe (rawChunkLoop env a (n + 1) i pos taken)) :
    Safe (rawApplyChunk env a i pos taken) ∧ ∀ pos' taken',
      rawApplyChunk env a i pos taken = .ok (some (pos', taken')) →
      Safe (rawChunkLoop env a n (i + 1) pos' taken') := by
  unfold rawChunkLoop at h
  cases hr : rawApplyChunk env a i pos taken with
  | error e =>
    rw [hr] at h
    exact absurd h (not_safe_error e)
  | ok r =>
    refine ⟨.ok r, fun pos' taken' heq => ?_⟩
    cases heq
    rw [hr, ok_bind] at h
    exact h

theorem rawApplyImagePatch_start (hlen : 12 ≤ a.patch.length)
    (hmagic : a.patch.take 8 = IMGDIFF2) : rawApplyImagePatch env a =
      rawChunkLoop env a (read4 a.patch 8).toNat 0 12 [] := by
  unfold rawApplyImagePatch
  rw [if_neg (by omega), readSlice_eq (by omega), ok_bind, List.drop_zero,
    if_neg (not_not.2 hmagic), rawRead4_eq (by omega), ok_bind]

end Chunk

/-- **`ApplyImagePatch`** reads only inside the patch and the source and returns, with the result
of the patch or with `-1`, exactly when the fields of every chunk that is reached fit. -/
theorem applyImagePatch_safe_iff (env : ImgPatchEnv) (a : ImgPatchArgs) (hL : env.L.Lawful) :
    (∃ r, rawApplyImagePatch env a = .ok r) ↔
      ∀ n i pos taken, a.Reached env (n + 1) i pos taken → a.Fits env i pos := by
  constructor
  · intro h
    have hloop : ∀ n i pos taken, a.Reached env n i pos taken →
        Safe (rawChunkLoop env a n i pos taken) := by
      intro n i pos taken hreached
      induction hreached with
      | first hlen hmagic => rwa [rawApplyImagePatch_start hlen hmagic] at h
      | next _ hchunk ih => exact (safe_of_rawChunkLoop ih).2 _ _ hchunk
    intro n i pos taken hreached
    exact (rawApplyChunk_iff hL hreached.pos_le taken).1
      (safe_of_rawChunkLoop (hloop (n + 1) i pos taken hreached)).1
  · intro hfits
    by_cases hlen : 12 ≤ a.patch.length
    · by_cases hmagic : a.patch.take 8 = IMGDIFF2
      · rw [rawApplyImagePatch_start hlen hmagic]
        exact rawChunkLoop_safe hL hfits _ _ _ _ (.first hlen hmagic)
      · unfold rawApplyImagePatch
        rw [if_neg (by omega), readSlice_eq (by omega), ok_bind, List.drop_zero, if_pos hmagic]
        exact ⟨_, rfl⟩
    · unfold rawApplyImagePatch
      rw [if_pos (by omega)]
      exact ⟨_, rfl⟩

/-! ## Patches of one chunk -/

/-- A bsdiff patch that leaves two bytes as they are. -/
def keepTwo : List UInt8 := [
  66, 83, 68, 73, 70, 70, 52, 48, 41, 0, 0, 0, 0, 0, 0, 0, 37, 0, 0, 0, 0, 0, 0, 0, 2, 0, 0, 0, 0,
  0, 0, 0, 66, 90, 104, 57, 49, 65, 89, 38, 83, 89, 169, 12, 184, 161, 0, 0, 2, 96, 0, 80, 0, 8, 0,
  32, 0, 48, 204, 12, 245, 5, 206, 46, 228, 138, 112, 161, 33, 82, 25, 113, 66, 66, 90, 104, 57, 49,
  65, 89, 38, 83, 89, 255, 72, 155, 130, 0, 0, 0, 192, 0, 64, 0, 32, 0, 33, 24, 70, 194, 238, 72,
  167, 10, 18, 31, 233, 19, 112, 64, 66, 90, 104, 57, 23, 114, 69, 56, 80, 144, 0, 0, 0, 0]

/-- The libraries for that patch and for data that is stored without compression. -/
def storing : ImgPatchEnv where
  L := {
    bspatch := fun source patch =>
      if patch = keepTwo then ⟨[source.take 2], .success⟩ else ⟨[], .failure⟩
    inflate := fun stored size =>
      let data := stored.drop 5
      if stored.take 5 = 1 :: toLE 2 data.length ++ toLE 2 (65535 - data.length) ∧
        data.length ≤ size then some data else none
    Stream := Unit
    deflateInit2 := fun level _ _ _ _ => if level = 0 then some () else none
    deflate := fun _ input _ finish =>
      if finish then
        ((), [], 1 :: toLE 2 input.length ++ toLE 2 (65535 - input.length) ++ input, .streamEnd)
      else ((), [], [], .ok)
    rounds := 1 }
  sink _ _ := true
  allocLimit := 2 ^ 32

theorem storing_lawful : storing.L.Lawful where
  bspatch_returns source patch := by
    dsimp only [storing]
    split
    · exact .inl rfl
    · exact .inr rfl
  deflate_ends finish _ _ := by
    cases finish <;> simp [storing, deflateLoop, bufferSize]

/-- Two bytes that are stored, a deflate chunk for them, and the patch of the data. -/
def storedChunk : ImgPatchArgs where
  source := [1, 2, 0, 253, 255, 7, 8]
  patch := IMGDIFF2 ++ toLE 4 1 ++ toLE 4 2 ++ toLE 8 0 ++ toLE 8 7 ++ toLE 8 76 ++ toLE 8 2 ++
    toLE 8 2 ++ toLE 4 0 ++ toLE 4 8 ++ toLE 4 (2 ^ 32 - 15) ++ toLE 4 8 ++ toLE 4 0 ++ keepTwo
  bonus := none
  source_lt := by decide
  patch_lt := by decide +kernel

/-- The data is inflated, patched and deflated again. -/
theorem applyImagePatch_safe_deflate :
    storing.L.Lawful ∧
      rawApplyImagePatch storing storedChunk = .ok (some [[1, 2, 0, 253, 255, 7, 8]]) ∧
      ∀ n i pos taken, storedChunk.Reached storing (n + 1) i pos taken →
        storedChunk.Fits storing i pos := by
  have hrun : rawApplyImagePatch storing storedChunk =
      .ok (some [[1, 2, 0, 253, 255, 7, 8]]) := by decide +kernel
  exact ⟨storing_lawful, hrun,
    (applyImagePatch_safe_iff storing storedChunk storing_lawful).1 ⟨_, hrun⟩⟩

/-- Libraries that refuse everything, for patches that do not use them. -/
def refusing : ImgPatchEnv where
  L := { PatchLibs.idle with rounds := 1 }
  sink _ _ := true
  allocLimit := 2 ^ 32

def oneChunk (record : List UInt8) (h : (IMGDIFF2 ++ (toLE 4 1 ++ record)).length < 2 ^ 63) :
    ImgPatchArgs where
  source := [1, 2, 3]
  patch := IMGDIFF2 ++ (toLE 4 1 ++ record)
  bonus := none
  source_lt := by decide
  patch_lt := h

/-- The header of a normal chunk. -/
def normalRecord (srcStart srcLen patchOffset : Nat) : List UInt8 :=
  toLE 4 0 ++ (toLE 8 srcStart ++ (toLE 8 srcLen ++ toLE 8 patchOffset))

/-- A source range of two bytes from `-1` on, a bsdiff patch behind the end of the blob, and a raw
chunk of `-1` bytes. -/
theorem applyImagePatch_unsafe :
    rawApplyImagePatch refusing (oneChunk (normalRecord (2 ^ 64 - 1) 2 0) (by decide)) =
      .error .outOfBounds ∧
    rawApplyImagePatch refusing (oneChunk (normalRecord 0 3 41) (by decide)) =
      .error .aborted ∧
    rawApplyImagePatch refusing (oneChunk (toLE 4 3 ++ toLE 4 (2 ^ 32 - 1)) (by decide)) =
      .error .outOfBounds := by
  refine ⟨rfl, rfl, rfl⟩

end Recovery.ApplyPatch
