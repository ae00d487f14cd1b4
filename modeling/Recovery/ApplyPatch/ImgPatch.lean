import Recovery.Lib.CInt
import Recovery.Lib.LittleEndian
import Recovery.Lib.Splice

/-!
# `ApplyImagePatch`

The patch interpreter of `applypatch/imgpatch.cpp`.  `bspatch` and zlib are not part of the
repository; they are the parameter `PatchLibs`.

* `applyImagePatch` — what the interpreter hands to its sink for a source and a patch, as long as
  the sink takes it, and how it ends once the sink has taken everything.
* `rawPatch`, `applyImagePatch_rawPatch` — patches made of raw chunks.  Every sequence of pieces is
  the output of a patch that is accepted, the empty sequence too.

The order of the output is that of the chunks, whatever way the libraries cut it in pieces; a sink
may stop the interpreter between any two of them.
-/

set_option autoImplicit false

namespace Recovery.ApplyPatch

open Recovery.Lib

/-- How a patch function ends. -/
inductive Ending
  | success
  | failure
  /-- A `CHECK` fails. -/
  | abort
  /-- It reads outside of its input. -/
  | overrun
  /-- A loop does not end. -/
  | endless
deriving DecidableEq

structure Output where
  pieces : List (List UInt8)
  ending : Ending

/-- What `deflate` returns. -/
inductive ZResult
  | ok
  | streamEnd
  | error
deriving DecidableEq

structure PatchLibs where
  /-- `bsdiff::bspatch`, for a source and a patch. -/
  bspatch : List UInt8 → List UInt8 → Output
  /-- One `inflate` into a buffer of the given size: the output, if the stream has ended. -/
  inflate : List UInt8 → Nat → Option (List UInt8)
  Stream : Type
  /-- `deflateInit2`, with level, method, window bits, memory level and strategy. -/
  deflateInit2 : Int → Int → Int → Int → Int → Option Stream
  /-- One `deflate` of the input into a buffer of the given size, with `Z_FINISH` or not: the input
  left, the output and the result. -/
  deflate : Stream → List UInt8 → Nat → Bool → Stream × List UInt8 × List UInt8 × ZResult
  /-- Rounds after which the loop around `deflate` does not end. -/
  rounds : Nat

/-- Libraries that refuse everything. -/
def PatchLibs.idle : PatchLibs where
  bspatch _ _ := ⟨[], .failure⟩
  inflate _ _ := none
  Stream := Unit
  deflateInit2 _ _ _ _ _ := none
  deflate _ _ _ _ := ((), [], [], .error)
  rounds := 0

/-! ## Header fields -/

def read4 (bs : List UInt8) (pos : Nat) : Int := toInt (ofLE (slice bs pos 4))

/-- `static_cast<size_t>` of an `int32_t`. -/
def sizeOfInt (z : Int) : Nat := (z % 2 ^ 64).toNat

/-- `static_cast<size_t>(Read8(...))`. -/
def read8 (bs : List UInt8) (pos : Nat) : Nat := ofLE (slice bs pos 8)

def IMGDIFF2 : List UInt8 := [0x49, 0x4d, 0x47, 0x44, 0x49, 0x46, 0x46, 0x32]

def CHUNK_NORMAL : Int := 0
def CHUNK_DEFLATE : Int := 2
def CHUNK_RAW : Int := 3

variable (L : PatchLibs)

/-- `ApplyBSDiffPatch`. -/
def applyBSDiffPatch (source patch : List UInt8) (patchOffset : Nat) : Output :=
  if patchOffset ≤ patch.length then L.bspatch source (patch.drop patchOffset) else ⟨[], .abort⟩

/-! ## Deflating the output -/

/-- The variables that `compression_sink` captures. -/
structure Compression where
  strm : L.Stream
  actualTargetLength : Nat
  ret : ZResult

def bufferSize : Nat := 32768

/-- The loop of `compression_sink`; `failure` when `deflate` fails. -/
def deflateLoop (finish : Bool) : Nat → L.Stream → List UInt8 →
    List (List UInt8) × L.Stream × ZResult × Ending
  | 0, strm, _ => ([], strm, .ok, .endless)
  | fuel + 1, strm, input =>
    let (strm, availIn, out, ret) := L.deflate strm input bufferSize finish
    match ret with
    | .error => ([], strm, ret, .failure)
    | _ =>
      if (availIn ≠ [] ∨ out.length = bufferSize) ∧ ret ≠ .streamEnd then
        let (pieces, rest) := deflateLoop finish fuel strm availIn
        (out :: pieces, rest)
      else ([out], strm, ret, .success)

/-- `compression_sink` on all pieces of a patch output; an empty piece is taken in any case. -/
def compressPieces (expected : Nat) : List (List UInt8) → Compression L →
    List (List UInt8) × Compression L × Ending
  | [], c => ([], c, .success)
  | data :: pieces, c =>
    let finish := decide (expected ≤ c.actualTargetLength + data.length)
    -- `avail_in` has 32 bits
    let (out, strm, ret, ending) :=
      deflateLoop L finish L.rounds c.strm (data.take (data.length % 2 ^ 32))
    let c := { c with strm := strm, ret := ret }
    match ending with
    | .success =>
      let (rest, c, ending) := compressPieces expected pieces
        { c with actualTargetLength := c.actualTargetLength + data.length }
      (out ++ rest, c, ending)
    | .failure =>
      if data = [] then
        let (rest, c, ending) := compressPieces expected pieces c
        (out ++ rest, c, ending)
      else (out, c, .failure)
    | ending => (out, c, ending)

/-- `ApplyBSDiffPatchAndStreamOutput`, with the deflate header at `header` in the patch. -/
def applyBSDiffPatchAndStreamOutput (source patch : List UInt8) (patchOffset header : Nat) :
    Output :=
  let expected := read8 patch (header + 32)
  match L.deflateInit2 (read4 patch (header + 40)) (read4 patch (header + 44))
    (read4 patch (header + 48)) (read4 patch (header + 52)) (read4 patch (header + 56)) with
  | none => ⟨[], .failure⟩
  | some strm =>
    let patched := applyBSDiffPatch L source patch patchOffset
    let (out, c, ending) := compressPieces L expected patched.pieces ⟨strm, 0, .ok⟩
    match ending, patched.ending with
    | .success, .success =>
      if c.ret = .streamEnd ∧ expected = c.actualTargetLength then ⟨out, .success⟩
      else ⟨out, .failure⟩
    | .success, ending => ⟨out, ending⟩
    | ending, _ => ⟨out, ending⟩

/-! ## Chunks -/

/-- A part of the source; the bound is checked with the sum as a `size_t`. -/
def sourceRange (source : List UInt8) (srcStart srcLen : Nat) : Except Ending (List UInt8) :=
  if (srcStart + srcLen) % 2 ^ 64 > source.length then .error .failure
  else if srcStart + srcLen > source.length then .error .overrun
  else .ok (slice source srcStart srcLen)

/-- The source of a deflate chunk, inflated into `expanded_len` bytes; zlib's counts have 32
bits. -/
def expandSource (source : List UInt8) (expandedLen : Nat) : Option (List UInt8) :=
  if expandedLen = 0 then some []
  else
    let availOut := expandedLen % 2 ^ 32
    match L.inflate (source.take (source.length % 2 ^ 32)) availOut with
    | none => none
    | some out =>
      if out.length = availOut then some (out ++ List.replicate (expandedLen - availOut) 0)
      else none

/-- The output of the chunk whose record starts at `pos`, and where the next one starts. -/
def applyChunk (source patch : List UInt8) (pos : Nat) : Output × Nat :=
  if pos + 4 > patch.length then (⟨[], .failure⟩, pos)
  else
    let type := read4 patch pos
    let header := pos + 4
    if type = CHUNK_NORMAL then
      let pos := header + 24
      if pos > patch.length then (⟨[], .failure⟩, pos)
      else match sourceRange source (read8 patch header) (read8 patch (header + 8)) with
        | .error ending => (⟨[], ending⟩, pos)
        | .ok part => (applyBSDiffPatch L part patch (read8 patch (header + 16)), pos)
    else if type = CHUNK_RAW then
      let pos := header + 4
      if pos > patch.length then (⟨[], .failure⟩, pos)
      else
        let dataLen := sizeOfInt (read4 patch header)
        if (pos + dataLen) % 2 ^ 64 > patch.length then (⟨[], .failure⟩, pos)
        else if pos + dataLen > patch.length then (⟨[], .overrun⟩, pos)
        else (⟨[slice patch pos dataLen], .success⟩, pos + dataLen)
    else if type = CHUNK_DEFLATE then
      let pos := header + 60
      if pos > patch.length then (⟨[], .failure⟩, pos)
      else match sourceRange source (read8 patch header) (read8 patch (header + 8)) with
        | .error ending => (⟨[], ending⟩, pos)
        | .ok part => match expandSource L part (read8 patch (header + 24)) with
          | none => (⟨[], .failure⟩, pos)
          | some expanded => (applyBSDiffPatchAndStreamOutput L expanded patch
              (read8 patch (header + 16)) header, pos)
    else (⟨[], .failure⟩, pos)

/-- The loop over the chunks, `n` of which are left. -/
def chunkLoop (source patch : List UInt8) : Nat → Nat → Output
  | 0, _ => ⟨[], .success⟩
  | n + 1, pos =>
    match applyChunk L source patch pos with
    | (⟨pieces, .success⟩, next) =>
      let rest := chunkLoop source patch n next
      ⟨pieces ++ rest.pieces, rest.ending⟩
    | (output, _) => output

/-- `ApplyImagePatch`, without bonus data. -/
def applyImagePatch (source patch : List UInt8) : Output :=
  if patch.length < 12 then ⟨[], .failure⟩
  else if patch.take 8 ≠ IMGDIFF2 then ⟨[], .failure⟩
  else chunkLoop L source patch (read4 patch 8).toNat 12

/-! ## Raw chunks -/

def rawChunk (data : List UInt8) : List UInt8 := toLE 4 3 ++ (toLE 4 data.length ++ data)

/-- A patch that consists of raw chunks. -/
def rawPatch (pieces : List (List UInt8)) : List UInt8 :=
  IMGDIFF2 ++ (toLE 4 pieces.length ++ pieces.flatMap rawChunk)

theorem read4_toLE {n : Nat} (hn : n < 2 ^ 31) (before after : List UInt8) :
    read4 (before ++ (toLE 4 n ++ after)) before.length = n := by
  have hslice := slice_middle before (toLE 4 n) after
  rw [length_toLE] at hslice
  unfold read4
  rw [hslice, ofLE_toLE (by lia), toInt_eq (by lia) (by lia)]

theorem sizeOfInt_natCast {n : Nat} (hn : n < 2 ^ 31) : sizeOfInt n = n := by
  unfold sizeOfInt
  lia

/-- A raw chunk gives its data. -/
theorem applyChunk_raw (source before after : List UInt8) {data : List UInt8}
    (hdata : data.length < 2 ^ 31) :
    applyChunk L source (before ++ (rawChunk data ++ after)) before.length =
      (⟨[data], .success⟩, before.length + (rawChunk data).length) := by
  have htype : read4 (before ++ (rawChunk data ++ after)) before.length = CHUNK_RAW := by
    unfold rawChunk
    rw [List.append_assoc]
    exact read4_toLE (by decide) _ _
  have hlen : read4 (before ++ (rawChunk data ++ after)) (before.length + 4) = data.length := by
    have hread := read4_toLE hdata (before ++ toLE 4 3) (data ++ after)
    rw [List.length_append, length_toLE] at hread
    simpa only [rawChunk, List.append_assoc] using hread
  have hslice : slice (before ++ (rawChunk data ++ after)) (before.length + 4 + 4) data.length =
      data := by
    have hmiddle := slice_middle (before ++ (toLE 4 3 ++ toLE 4 data.length)) data after
    simp only [List.length_append, length_toLE] at hmiddle
    simpa only [rawChunk, List.append_assoc, Nat.add_assoc] using hmiddle
  have hsize : (rawChunk data).length = 4 + 4 + data.length := by
    simp only [rawChunk, List.length_append, length_toLE]
    lia
  unfold applyChunk
  simp only [htype, hlen, sizeOfInt_natCast hdata, hslice, List.length_append, hsize]
  rw [if_neg (by lia), if_neg (by decide), if_pos trivial, if_neg (by lia), if_neg (by lia),
    if_neg (by lia)]
  simp only [Prod.mk.injEq, true_and]
  lia

theorem chunkLoop_raw (source before : List UInt8) {pieces : List (List UInt8)}
    (hpieces : ∀ data ∈ pieces, data.length < 2 ^ 31) :
    chunkLoop L source (before ++ pieces.flatMap rawChunk) pieces.length before.length =
      ⟨pieces, .success⟩ := by
  induction pieces generalizing before with
  | nil => rfl
  | cons data pieces ih =>
    have hfirst := applyChunk_raw L source before (pieces.flatMap rawChunk)
      (hpieces data List.mem_cons_self)
    have hrest := ih (before ++ rawChunk data) (fun d hd => hpieces d (List.mem_cons_of_mem _ hd))
    rw [List.append_assoc, List.length_append] at hrest
    rw [List.flatMap_cons, List.length_cons]
    unfold chunkLoop
    simp only [hfirst, hrest, List.singleton_append]

/-- **Every sequence of pieces is the output of an accepted patch.** -/
theorem applyImagePatch_rawPatch (source : List UInt8) (pieces : List (List UInt8))
    (hcount : pieces.length < 2 ^ 31) (hpieces : ∀ data ∈ pieces, data.length < 2 ^ 31) :
    applyImagePatch L source (rawPatch pieces) = ⟨pieces, .success⟩ := by
  have hcountField : read4 (rawPatch pieces) 8 = pieces.length :=
    read4_toLE hcount IMGDIFF2 (pieces.flatMap rawChunk)
  have hloop := chunkLoop_raw L source (IMGDIFF2 ++ toLE 4 pieces.length) hpieces
  rw [List.append_assoc, List.length_append, length_toLE] at hloop
  unfold applyImagePatch
  rw [hcountField, if_neg, if_neg]
  · exact hloop
  · rw [rawPatch, List.take_append_of_le_length (by decide)]
    exact not_not.2 rfl
  · simp only [rawPatch, List.length_append, length_toLE, IMGDIFF2, List.length_cons,
      List.length_nil]
    lia

end Recovery.ApplyPatch
