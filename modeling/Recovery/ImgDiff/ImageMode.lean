import Recovery.ImgDiff.Inflate

/-!
# `ImageModeImage::Initialize`

The image is cut into chunks: the deflate streams behind gzip headers, the headers and footers
around them, and the rest.

* `imageModeInitialize` — the source function on the content of the file, with every read of it checked.
* `Chunks` — well-formed chunk lists: contiguous, nonempty, and every deflate chunk between a gzip
  header and its footer, with its content.
* `FooterInPlace`, `ErrorTold` — what has to hold at a gzip header that the scan comes to: its stream does
  not end in the last three bytes of the file, and if `inflate` fails it leaves a message for the
  warning, which prints `strm.msg` also when that is null.
* `imageModeInitialize_iff` — the function ends, reads inside the file and leaves a well-formed list
  exactly when both hold at every header it comes to.
-/

set_option autoImplicit false

namespace Recovery.ImgDiff

open Recovery.Lib Recovery.Memory

inductive ChunkType where
  | CHUNK_NORMAL
  | CHUNK_DEFLATE
  deriving DecidableEq, Repr

structure ImageChunk where
  type : ChunkType
  start : Nat
  rawDataLen : Nat
  uncompressedData : List UInt8
  deriving DecidableEq, Repr

def normal (start rawDataLen : Nat) : ImageChunk := ⟨.CHUNK_NORMAL, start, rawDataLen, []⟩

def GZIP_HEADER_LEN : Nat := 10
def GZIP_FOOTER_LEN : Nat := 8

/-- No header flags, deflate compression, and the gzip magic number. -/
def GZIP_MAGIC : Nat := 0x00088b1f

/-- A file that has been read into a vector. -/
structure FileContent where
  bytes : List UInt8
  length_lt : bytes.length < 2 ^ 63

variable {σ : Type} (Z : Zlib σ) (file : FileContent)

/-- `get_unaligned<uint32_t>`. -/
def getUnaligned (i : Nat) : Access Nat := do
  let bs ← readSlice file.bytes i 4
  return ofLE bs

/-- The condition of the `if`. -/
def startsGzip (pos : Nat) : Access Bool :=
  if file.bytes.length - pos ≥ 4 then do
    let word ← getUnaligned file pos
    return word == GZIP_MAGIC
  else return false

/-- `data_len` of the scan to the next gzip header, with `n` bytes left. -/
def scanForward (pos : Nat) : Nat → Nat → Access Nat
  | 0, dataLen => return dataLen
  | n + 1, dataLen =>
    if dataLen + pos + 4 ≤ file.bytes.length then do
      let word ← getUnaligned file (pos + dataLen)
      if word = GZIP_MAGIC then return dataLen else scanForward pos n (dataLen + 1)
    else scanForward pos n (dataLen + 1)

/-- The variables of the loop. -/
structure ScanState where
  pos : Nat
  chunks : List ImageChunk

/-- The body behind a gzip header, which is in the list already. -/
def gzipBody (pos : Nat) (chunks : List ImageChunk) :
    Access (ScanState ⊕ Option (List ImageChunk)) :=
  let sz := file.bytes.length
  match Z.inflateInit2 with
  | none => return .inr none
  | some strm =>
    match inflateAll Z strm ((file.bytes.drop pos).take ((sz - pos) % 2 ^ 32)) with
    | none => throw .stuck
    | some r =>
      let rawDataLen := sz - r.input.length - pos
      if r.ret < 0 then
        -- `LOG(WARNING) << "Inflate failed [" << strm.msg`: a null pointer is read through
        if r.msg then return .inl ⟨pos, chunks⟩ else throw .outOfBounds
      else
        let footerIndex := pos + rawDataLen + GZIP_FOOTER_LEN - 4
        if sub64 sz footerIndex < 4 then return .inl ⟨pos, chunks⟩
        else do
          let footerSize ← getUnaligned file footerIndex
          if footerSize ≠ r.data.length then return .inl ⟨pos, chunks⟩
          else return .inl ⟨pos + rawDataLen + GZIP_FOOTER_LEN,
            chunks ++ [⟨.CHUNK_DEFLATE, pos, rawDataLen, r.data⟩,
              normal (pos + rawDataLen) GZIP_FOOTER_LEN]⟩

/-- One round of the loop: it goes on, or the function returns; `none` is `false`. -/
def scanRound (st : ScanState) : Access (ScanState ⊕ Option (List ImageChunk)) := do
  let sz := file.bytes.length
  if st.pos < sz then
    if ← startsGzip file st.pos then
      if sz - st.pos < GZIP_HEADER_LEN + GZIP_FOOTER_LEN then
        return .inr (some (st.chunks ++ [normal st.pos (sz - st.pos)]))
      else
        gzipBody Z file (st.pos + GZIP_HEADER_LEN) (st.chunks ++ [normal st.pos GZIP_HEADER_LEN])
    else do
      let dataLen ← scanForward file st.pos (sz - st.pos) 0
      return .inl ⟨st.pos + dataLen, st.chunks ++ [normal st.pos dataLen]⟩
  else return .inr (some st.chunks)

/-- A fault ends the loop. -/
def round (st : ScanState) : ScanState ⊕ Access (Option (List ImageChunk)) :=
  match scanRound Z file st with
  | .error e => .inr (.error e)
  | .ok (.inl st) => .inl st
  | .ok (.inr r) => .inr (.ok r)

/-- `ImageModeImage::Initialize`, once the file has been read.  Every round takes a byte. -/
def imageModeInitialize : Option (Access (Option (List ImageChunk))) :=
  loop (round Z file) (file.bytes.length + 1) ⟨0, []⟩

/-! ## Well-formed lists -/

/-- The file has the first bytes of a gzip header. -/
def HasMagic (i : Nat) : Prop := slice file.bytes i 4 = [0x1f, 0x8b, 0x08, 0x00]

/-- The chunks from one offset to another: each starts where the one before it ends and is not
empty; a deflate chunk stands between a gzip header and a footer with the size of its content, and
holds the inflation of its bytes. -/
inductive Chunks (inflation : List UInt8 → Option (List UInt8)) :
    Nat → List ImageChunk → Nat → Prop where
  | nil (pos : Nat) : Chunks inflation pos [] pos
  | normal {pos len stop : Nat} {cs : List ImageChunk} : 0 < len →
      Chunks inflation (pos + len) cs stop →
      Chunks inflation pos (normal pos len :: cs) stop
  | gzip {pos len stop : Nat} {data : List UInt8} {cs : List ImageChunk} : HasMagic file pos →
      0 < len → inflation (slice file.bytes (pos + GZIP_HEADER_LEN) len) = some data →
      ofLE (slice file.bytes (pos + GZIP_HEADER_LEN + len + 4) 4) = data.length →
      Chunks inflation (pos + GZIP_HEADER_LEN + len + GZIP_FOOTER_LEN) cs stop →
      Chunks inflation pos
        (ImgDiff.normal pos GZIP_HEADER_LEN ::
          ⟨.CHUNK_DEFLATE, pos + GZIP_HEADER_LEN, len, data⟩ ::
          ImgDiff.normal (pos + GZIP_HEADER_LEN + len) GZIP_FOOTER_LEN :: cs) stop

variable {file} {inflation : List UInt8 → Option (List UInt8)}

theorem Chunks.append {a b c : Nat} {cs ds : List ImageChunk} (h : Chunks file inflation a cs b)
    (h' : Chunks file inflation b ds c) : Chunks file inflation a (cs ++ ds) c := by
  induction h with
  | nil => exact h'
  | normal hlen _ ih => exact .normal hlen (ih h')
  | gzip hmagic hlen hdata hsize _ ih => exact .gzip hmagic hlen hdata hsize (ih h')

/-- One more chunk that is no deflate chunk. -/
theorem Chunks.concat {a b len : Nat} {cs : List ImageChunk} (h : Chunks file inflation a cs b)
    (hlen : 0 < len) : Chunks file inflation a (cs ++ [ImgDiff.normal b len]) (b + len) :=
  h.append (.normal hlen (.nil _))

/-- The deflate chunks hold the inflation of their bytes. -/
theorem Chunks.inflated {a b : Nat} {cs : List ImageChunk} (h : Chunks file inflation a cs b)
    {c : ImageChunk} (hc : c ∈ cs) (htype : c.type = .CHUNK_DEFLATE) :
    inflation (slice file.bytes c.start c.rawDataLen) = some c.uncompressedData := by
  induction h with
  | nil => cases hc
  | normal _ _ ih =>
    rcases List.mem_cons.1 hc with rfl | hc
    · cases htype
    · exact ih hc
  | gzip _ _ hdata _ _ ih =>
    rcases List.mem_cons.1 hc with rfl | hc
    · cases htype
    · rcases List.mem_cons.1 hc with rfl | hc
      · exact hdata
      · rcases List.mem_cons.1 hc with rfl | hc
        · cases htype
        · exact ih hc

/-! ## Reads -/

theorem getUnaligned_eq {i : Nat} (h : i + 4 ≤ file.bytes.length) :
    getUnaligned file i = .ok (ofLE (slice file.bytes i 4)) := by
  unfold getUnaligned
  rw [readSlice_eq h]
  rfl

theorem getUnaligned_fault {i : Nat} (h : file.bytes.length < i + 4) :
    getUnaligned file i = .error .outOfBounds := by
  unfold getUnaligned readSlice
  rw [if_neg (by lia)]
  rfl

theorem ofLE_eq_magic {i : Nat} (h : i + 4 ≤ file.bytes.length) :
    ofLE (slice file.bytes i 4) = GZIP_MAGIC ↔ HasMagic file i := by
  have hlen := length_slice h
  unfold HasMagic
  constructor
  · intro he
    rw [← toLE_ofLE (slice file.bytes i 4), hlen, he]
    rfl
  · intro he
    rw [he]
    rfl

theorem startsGzip_eq (pos : Nat) (file : FileContent) :
    ∃ b, startsGzip file pos = .ok b ∧
      (b = true ↔ pos + 4 ≤ file.bytes.length ∧ HasMagic file pos) := by
  unfold startsGzip
  split
  · rename_i h
    rw [getUnaligned_eq (by omega)]
    refine ⟨_, rfl, ?_⟩
    rw [beq_iff_eq, ofLE_eq_magic (by omega)]
    constructor
    · intro hm
      exact ⟨by omega, hm⟩
    · exact And.right
  · refine ⟨false, rfl, ?_⟩
    constructor
    · intro h
      cases h
    · rintro ⟨h, -⟩
      omega

/-- The scan finds an offset behind its start, which is no header. -/
theorem scanForward_eq {pos : Nat} (n : Nat) {dataLen : Nat} (h : dataLen + n + pos = file.bytes.length) :
    ∃ d, scanForward file pos n dataLen = .ok d ∧ dataLen ≤ d ∧ d + pos ≤ file.bytes.length ∧
      (0 < n → ¬(pos + dataLen + 4 ≤ file.bytes.length ∧ HasMagic file (pos + dataLen)) →
        dataLen < d) := by
  induction n generalizing dataLen with
  | zero => exact ⟨dataLen, rfl, le_rfl, by lia, fun h => absurd h (Nat.lt_irrefl 0)⟩
  | succ n ih =>
    obtain ⟨d, hd, hle, hend, -⟩ := ih (show dataLen + 1 + n + pos = file.bytes.length by lia)
    unfold scanForward
    split
    · rename_i hfit
      rw [getUnaligned_eq (by lia), ok_bind]
      split
      · rename_i hmagic
        refine ⟨dataLen, rfl, le_rfl, by lia, ?_⟩
        intro _ hno
        exact absurd ⟨by lia, (ofLE_eq_magic (by lia)).1 hmagic⟩ hno
      · exact ⟨d, hd, by lia, hend, fun _ _ => by lia⟩
    · exact ⟨d, hd, by lia, hend, fun _ _ => by lia⟩

/-! ## Rounds -/

/-- What `inflate` is given behind a gzip header. -/
def behindHeader (file : FileContent) (pos : Nat) : List UInt8 :=
  (file.bytes.drop (pos + GZIP_HEADER_LEN)).take
    ((file.bytes.length - (pos + GZIP_HEADER_LEN)) % 2 ^ 32)

/-- At a gzip header the stream, when it is one, ends four bytes before the end of the file at
least; and where 4 GiB are left behind the header, no footer matches. -/
def FooterInPlace (Z : Zlib σ) (file : FileContent) (st : ScanState) : Prop :=
  ∀ strm r, st.pos + GZIP_HEADER_LEN + GZIP_FOOTER_LEN ≤ file.bytes.length →
    HasMagic file st.pos → Z.inflateInit2 = some strm →
    inflateAll Z strm (behindHeader file st.pos) = some r → 0 ≤ r.ret →
    4 ≤ r.input.length ∧
      (8 ≤ r.input.length →
        ofLE (slice file.bytes (file.bytes.length - r.input.length + 4) 4) = r.data.length →
        file.bytes.length - (st.pos + GZIP_HEADER_LEN) < 2 ^ 32)

/-- At a gzip header `inflate` leaves a message when it fails. -/
def ErrorTold (Z : Zlib σ) (file : FileContent) (st : ScanState) : Prop :=
  ∀ strm r, st.pos + GZIP_HEADER_LEN + GZIP_FOOTER_LEN ≤ file.bytes.length →
    HasMagic file st.pos → Z.inflateInit2 = some strm →
    inflateAll Z strm (behindHeader file st.pos) = some r → r.ret < 0 → r.msg = true

/-- A list up to the position, inside the file. -/
structure ScanInv (file : FileContent) (inflation : List UInt8 → Option (List UInt8))
    (st : ScanState) : Prop where
  le : st.pos ≤ file.bytes.length
  chunks : Chunks file inflation 0 st.chunks st.pos

theorem behindHeader_suffix {pos : Nat} {past rest : List UInt8}
    (h : behindHeader file pos = past ++ rest) (hpos : pos + GZIP_HEADER_LEN ≤ file.bytes.length) :
    pos + GZIP_HEADER_LEN + rest.length ≤ file.bytes.length := by
  have hlen := congrArg List.length h
  unfold behindHeader at hlen
  rw [List.length_take, List.length_drop, List.length_append] at hlen
  lia

/-- The body behind a stream that has ended: what is left of the input tells where the footer is. -/
theorem gzipBody_of_stream {Z : Zlib σ} {pos : Nat} {chunks : List ImageChunk} {strm : σ}
    {r : Inflated} (hinit : Z.inflateInit2 = some strm)
    (hr : inflateAll Z strm (behindHeader file pos) = some r) (hret : 0 ≤ r.ret)
    (hleft : pos + GZIP_HEADER_LEN + r.input.length ≤ file.bytes.length) :
    gzipBody Z file (pos + GZIP_HEADER_LEN) chunks =
      if sub64 file.bytes.length (file.bytes.length - r.input.length + 4) < 4 then
        .ok (.inl ⟨pos + GZIP_HEADER_LEN, chunks⟩)
      else do
        let footerSize ← getUnaligned file (file.bytes.length - r.input.length + 4)
        if footerSize ≠ r.data.length then return .inl ⟨pos + GZIP_HEADER_LEN, chunks⟩
        else return .inl ⟨file.bytes.length - r.input.length + GZIP_FOOTER_LEN,
          chunks ++ [⟨.CHUNK_DEFLATE, pos + GZIP_HEADER_LEN,
            file.bytes.length - r.input.length - (pos + GZIP_HEADER_LEN), r.data⟩,
            normal (file.bytes.length - r.input.length) GZIP_FOOTER_LEN]⟩ := by
  have hF : GZIP_FOOTER_LEN = 8 := rfl
  have hend : pos + GZIP_HEADER_LEN +
      (file.bytes.length - r.input.length - (pos + GZIP_HEADER_LEN)) =
      file.bytes.length - r.input.length := by
    lia
  have hindex : file.bytes.length - r.input.length + GZIP_FOOTER_LEN - 4 =
      file.bytes.length - r.input.length + 4 := by
    lia
  unfold behindHeader at hr
  unfold gzipBody
  rw [hinit]
  dsimp only
  rw [hr]
  dsimp only
  rw [if_neg (Int.not_lt.2 hret), hend, hindex]
  rfl

/-- Header, stream and footer, when the footer has the size of the content. -/
theorem Chunks.member {Z : Zlib σ} (hZ : Z.Lawful inflation) {pos : Nat} {past : List UInt8}
    {r : Inflated} (hmagic : HasMagic file pos) (hpast : behindHeader file pos = past ++ r.input)
    (hstream : r.data.length < 2 ^ 32 → inflation past = some r.data)
    (hleft : pos + GZIP_HEADER_LEN + r.input.length ≤ file.bytes.length)
    (hroom : GZIP_FOOTER_LEN ≤ r.input.length)
    (hsmall : file.bytes.length - (pos + GZIP_HEADER_LEN) < 2 ^ 32)
    (hsize : ofLE (slice file.bytes (file.bytes.length - r.input.length + 4) 4) =
      r.data.length) :
    Chunks file inflation pos
      [ImgDiff.normal pos GZIP_HEADER_LEN, ⟨.CHUNK_DEFLATE, pos + GZIP_HEADER_LEN,
        file.bytes.length - r.input.length - (pos + GZIP_HEADER_LEN), r.data⟩,
        ImgDiff.normal (file.bytes.length - r.input.length) GZIP_FOOTER_LEN]
      (file.bytes.length - r.input.length + GZIP_FOOTER_LEN) := by
  have hF : GZIP_FOOTER_LEN = 8 := rfl
  -- fewer than 4 GiB: the stream is what is between header and footer
  have hall : behindHeader file pos = file.bytes.drop (pos + GZIP_HEADER_LEN) := by
    unfold behindHeader
    rw [Nat.mod_eq_of_lt hsmall, ← List.length_drop, List.take_length]
  have hpastlen : past.length =
      file.bytes.length - r.input.length - (pos + GZIP_HEADER_LEN) := by
    have hlen := congrArg List.length hpast
    rw [hall, List.length_drop, List.length_append] at hlen
    lia
  have hslice : slice file.bytes (pos + GZIP_HEADER_LEN)
      (file.bytes.length - r.input.length - (pos + GZIP_HEADER_LEN)) = past := by
    unfold slice
    rw [← hall, hpast, ← hpastlen, List.take_left]
  have hdata : r.data.length < 2 ^ 32 := by
    have hlt := ofLE_lt (slice file.bytes (file.bytes.length - r.input.length + 4) 4)
    rw [length_slice (by lia), hsize] at hlt
    exact hlt
  have hinflation := hstream hdata
  have hpos : 0 < past.length := by
    rw [List.length_pos_iff]
    rintro rfl
    rw [hZ.nonempty] at hinflation
    cases hinflation
  rw [← hslice] at hinflation
  have hend : file.bytes.length - r.input.length = pos + GZIP_HEADER_LEN +
      (file.bytes.length - r.input.length - (pos + GZIP_HEADER_LEN)) := by
    lia
  rw [hend] at hsize
  have hchunk := Chunks.gzip hmagic (by lia) hinflation hsize (.nil _)
  rw [← hend] at hchunk
  exact hchunk

/-- The body goes on behind the header or behind a footer, when the footer is in place. -/
theorem gzipBody_inv {Z : Zlib σ} (hZ : Z.Lawful inflation) {st : ScanState}
    (hst : ScanInv file inflation st) (hfooter : FooterInPlace Z file st)
    (htold : ErrorTold Z file st)
    (hfit : st.pos + GZIP_HEADER_LEN + GZIP_FOOTER_LEN ≤ file.bytes.length)
    (hmagic : HasMagic file st.pos) :
    gzipBody Z file (st.pos + GZIP_HEADER_LEN)
        (st.chunks ++ [normal st.pos GZIP_HEADER_LEN]) = .ok (.inr none) ∨
      ∃ st', gzipBody Z file (st.pos + GZIP_HEADER_LEN)
          (st.chunks ++ [normal st.pos GZIP_HEADER_LEN]) = .ok (.inl st') ∧
        st.pos < st'.pos ∧ ScanInv file inflation st' := by
  have hH : GZIP_HEADER_LEN = 10 := rfl
  have hF : GZIP_FOOTER_LEN = 8 := rfl
  have hsz := file.length_lt
  have hheader : ScanInv file inflation
      ⟨st.pos + GZIP_HEADER_LEN, st.chunks ++ [normal st.pos GZIP_HEADER_LEN]⟩ :=
    ⟨by dsimp only; lia, hst.chunks.concat (by lia)⟩
  cases hinit : Z.inflateInit2 with
  | none =>
    left
    unfold gzipBody
    rw [hinit]
    rfl
  | some strm =>
    obtain ⟨r, hr, past, hpast, hstream⟩ := inflateAll_spec hZ hinit (behindHeader file st.pos)
    have hleft := behindHeader_suffix hpast (by lia)
    right
    by_cases hret : r.ret < 0
    · refine ⟨_, ?_, ?_, hheader⟩
      · unfold gzipBody
        rw [hinit]
        dsimp only
        have hmsg := htold strm r hfit hmagic hinit hr hret
        unfold behindHeader at hr
        rw [hr]
        dsimp only
        rw [if_pos hret, if_pos hmsg]
        rfl
      · dsimp only
        lia
    · have hret := Int.not_lt.1 hret
      obtain ⟨hfour, hlarge⟩ := hfooter strm r hfit hmagic hinit hr hret
      rw [gzipBody_of_stream hinit hr hret hleft, sub64_eq (by lia) (by lia)]
      by_cases hshort : file.bytes.length - (file.bytes.length - r.input.length + 4) < 4
      · rw [if_pos hshort]
        exact ⟨_, rfl, by dsimp only; lia, hheader⟩
      · rw [if_neg hshort, getUnaligned_eq (by lia), ok_bind]
        by_cases hsize : ofLE (slice file.bytes (file.bytes.length - r.input.length + 4) 4) =
            r.data.length
        · rw [if_neg (not_not_intro hsize)]
          refine ⟨_, rfl, by dsimp only; lia, ⟨by dsimp only; lia, ?_⟩⟩
          rw [List.append_assoc]
          exact hst.chunks.append
            (.member hZ hmagic hpast (hstream hret) hleft (by lia) (hlarge (by lia) hsize) hsize)
        · rw [if_pos hsize]
          exact ⟨_, rfl, by dsimp only; lia, hheader⟩

/-- A round from a list up to its position leaves such a list, or the whole of one. -/
theorem scanRound_inv {Z : Zlib σ} (hZ : Z.Lawful inflation) {st : ScanState}
    (hst : ScanInv file inflation st) (hfooter : FooterInPlace Z file st)
    (htold : ErrorTold Z file st) :
    (∃ st', scanRound Z file st = .ok (.inl st') ∧ st.pos < st'.pos ∧
        st.pos < file.bytes.length ∧ ScanInv file inflation st') ∨
      scanRound Z file st = .ok (.inr none) ∨
      ∃ cs, scanRound Z file st = .ok (.inr (some cs)) ∧
        Chunks file inflation 0 cs file.bytes.length := by
  have hle := hst.le
  unfold scanRound
  dsimp only
  by_cases hpos : st.pos < file.bytes.length
  · rw [if_pos hpos]
    obtain ⟨b, hb, hmagic⟩ := startsGzip_eq st.pos file
    rw [hb, ok_bind]
    cases b with
    | true =>
      obtain ⟨-, hmagic⟩ := hmagic.1 rfl
      rw [if_pos rfl]
      by_cases hshort : file.bytes.length - st.pos < GZIP_HEADER_LEN + GZIP_FOOTER_LEN
      · rw [if_pos hshort]
        refine Or.inr (Or.inr ⟨_, rfl, ?_⟩)
        have h := hst.chunks.concat (show 0 < file.bytes.length - st.pos by lia)
        rwa [Nat.add_sub_cancel' hle] at h
      · rw [if_neg hshort]
        rcases gzipBody_inv hZ hst hfooter htold (by lia) hmagic with h | ⟨st', h, hlt, hst'⟩
        · exact Or.inr (Or.inl h)
        · exact Or.inl ⟨st', h, hlt, hpos, hst'⟩
    | false =>
      obtain ⟨d, hd, -, hend, hstep⟩ :=
        scanForward_eq (file.bytes.length - st.pos)
          (show 0 + (file.bytes.length - st.pos) + st.pos = file.bytes.length by lia)
      have hd0 : 0 < d := by
        apply hstep (by lia)
        intro h
        exact absurd (hmagic.2 h) (by decide)
      rw [if_neg (by decide), hd, ok_bind]
      exact Or.inl ⟨_, rfl, by dsimp only; lia, hpos, ⟨by dsimp only; lia,
        hst.chunks.concat hd0⟩⟩
  · rw [if_neg hpos]
    refine Or.inr (Or.inr ⟨_, rfl, ?_⟩)
    rw [show file.bytes.length = st.pos by lia]
    exact hst.chunks

/-- A state of the scan, with `m` bytes to go. -/
structure ScanRun (Z : Zlib σ) (file : FileContent) (inflation : List UInt8 → Option (List UInt8))
    (m : Nat) (st : ScanState) : Prop where
  reached : Rounds (round Z file) ⟨0, []⟩ st
  inv : ScanInv file inflation st
  measure : m + st.pos = file.bytes.length

/-- What the end of the scan says. -/
def ScanEnd (file : FileContent) (inflation : List UInt8 → Option (List UInt8))
    (r : Access (Option (List ImageChunk))) : Prop :=
  ∃ r', r = .ok r' ∧ ∀ cs, r' = some cs → Chunks file inflation 0 cs file.bytes.length

variable {Z : Zlib σ}

theorem scanRun_next (hZ : Z.Lawful inflation)
    (hok : ∀ st, Rounds (round Z file) ⟨0, []⟩ st → FooterInPlace Z file st ∧ ErrorTold Z file st) (m : Nat)
    (st st' : ScanState) (h : ScanRun Z file inflation m st) (hr : round Z file st = .inl st') :
    ∃ m' < m, ScanRun Z file inflation m' st' := by
  have hm := h.measure
  have hround := hr
  unfold round at hr
  rcases scanRound_inv hZ h.inv (hok st h.reached).1 (hok st h.reached).2 with
    ⟨st₁, h₁, hlt, hpos, hst₁⟩ | h₁ | ⟨cs, h₁, -⟩
  · rw [h₁] at hr
    cases hr
    have hle := hst₁.le
    exact ⟨file.bytes.length - st'.pos, by omega,
      ⟨h.reached.trans (.next hround (.refl _)), hst₁, by omega⟩⟩
  · rw [h₁] at hr
    cases hr
  · rw [h₁] at hr
    cases hr

theorem scanRun_end (hZ : Z.Lawful inflation)
    (hok : ∀ st, Rounds (round Z file) ⟨0, []⟩ st → FooterInPlace Z file st ∧ ErrorTold Z file st) (m : Nat)
    (st : ScanState) (r : Access (Option (List ImageChunk))) (h : ScanRun Z file inflation m st)
    (hr : round Z file st = .inr r) : ScanEnd file inflation r := by
  unfold round at hr
  rcases scanRound_inv hZ h.inv (hok st h.reached).1 (hok st h.reached).2 with ⟨st₁, h₁, -⟩ | h₁ | ⟨cs, h₁, hcs⟩
  · rw [h₁] at hr
    cases hr
  · rw [h₁] at hr
    cases hr
    exact ⟨none, rfl, fun cs hcs => by cases hcs⟩
  · rw [h₁] at hr
    cases hr
    refine ⟨some cs, rfl, ?_⟩
    rintro cs' ⟨⟩
    exact hcs

/-- The whole scan, when both hold wherever it comes to. -/
theorem scan_of_headers (hZ : Z.Lawful inflation)
    (hok : ∀ st, Rounds (round Z file) ⟨0, []⟩ st → FooterInPlace Z file st ∧ ErrorTold Z file st) :
    ∃ r, imageModeInitialize Z file = some r ∧ ScanEnd file inflation r :=
  loop_bounded (I := ScanRun Z file inflation) (scanRun_next hZ hok) (scanRun_end hZ hok)
    ⟨.refl _, ⟨Nat.zero_le _, .nil 0⟩, rfl⟩ (Nat.lt_succ_self _)

/-! ## A footer out of place -/

/-- How a round can end without a fault: the function returns `false` only when `inflateInit2`
fails, and the list only grows. -/
inductive RoundEnd (Z : Zlib σ) (chunks : List ImageChunk) :
    ScanState ⊕ Option (List ImageChunk) → Prop where
  | failed : Z.inflateInit2 = none → RoundEnd Z chunks (.inr none)
  | returned {cs : List ImageChunk} : chunks <+: cs → RoundEnd Z chunks (.inr (some cs))
  | goesOn {st : ScanState} : chunks <+: st.chunks → RoundEnd Z chunks (.inl st)

theorem gzipBody_end {pos : Nat} {chunks : List ImageChunk}
    {x : ScanState ⊕ Option (List ImageChunk)} (h : gzipBody Z file pos chunks = .ok x) :
    RoundEnd Z chunks x := by
  unfold gzipBody at h
  split at h
  · rename_i hinit
    cases h
    exact .failed hinit
  · dsimp only at h
    split at h
    · cases h
    · split at h
      · split at h
        · cases h
          exact .goesOn List.prefix_rfl
        · cases h
      · split at h
        · cases h
          exact .goesOn List.prefix_rfl
        · generalize getUnaligned file _ = footerSize at h
          cases footerSize with
          | error e => cases h
          | ok footerSize =>
            rw [ok_bind] at h
            split at h
            · cases h
              exact .goesOn List.prefix_rfl
            · cases h
              exact .goesOn (List.prefix_append _ _)

theorem scanRound_end {st : ScanState} {x : ScanState ⊕ Option (List ImageChunk)}
    (h : scanRound Z file st = .ok x) : RoundEnd Z st.chunks x := by
  unfold scanRound at h
  dsimp only at h
  split at h
  · obtain ⟨b, hb, -⟩ := startsGzip_eq st.pos file
    rw [hb, ok_bind] at h
    split at h
    · split at h
      · cases h
        exact .returned (List.prefix_append _ _)
      · cases gzipBody_end h with
        | failed hinit => exact .failed hinit
        | returned hcs => exact .returned ((List.prefix_append _ _).trans hcs)
        | goesOn hcs => exact .goesOn ((List.prefix_append _ _).trans hcs)
    · cases hd : scanForward file st.pos (file.bytes.length - st.pos) 0 with
      | error e =>
        rw [hd] at h
        cases h
      | ok d =>
        rw [hd, ok_bind] at h
        cases h
        exact .goesOn (List.prefix_append _ _)
  · cases h
    exact .returned List.prefix_rfl

/-- The list when the loop ends is an extension of every list before. -/
theorem rounds_prefix {st st' : ScanState} (h : Rounds (round Z file) st st') :
    st.chunks <+: st'.chunks := by
  refine h.invariant (I := fun s => st.chunks <+: s.chunks) ?_ List.prefix_rfl
  intro s s' hs hround
  unfold round at hround
  split at hround
  · cases hround
  · rename_i hr
    cases hround
    cases scanRound_end hr with
    | goesOn hcs => exact hs.trans hcs
  · cases hround

/-- At a gzip header with room behind it the round is that of the body. -/
theorem scanRound_header {st : ScanState}
    (hfit : st.pos + GZIP_HEADER_LEN + GZIP_FOOTER_LEN ≤ file.bytes.length)
    (hmagic : HasMagic file st.pos) :
    scanRound Z file st = gzipBody Z file (st.pos + GZIP_HEADER_LEN)
      (st.chunks ++ [normal st.pos GZIP_HEADER_LEN]) := by
  have hH : GZIP_HEADER_LEN = 10 := rfl
  obtain ⟨b, hb, hiff⟩ := startsGzip_eq st.pos file
  have hb' := hiff.2 ⟨by lia, hmagic⟩
  subst hb'
  unfold scanRound
  dsimp only
  rw [if_pos (by lia), hb, ok_bind, if_pos rfl, if_neg (by lia)]

/-- A footer that reaches over the end of the file is read all the same. -/
theorem round_overrun (hZ : Z.Lawful inflation) {st : ScanState} {strm : σ} {r : Inflated}
    (hfit : st.pos + GZIP_HEADER_LEN + GZIP_FOOTER_LEN ≤ file.bytes.length)
    (hmagic : HasMagic file st.pos) (hinit : Z.inflateInit2 = some strm)
    (hr : inflateAll Z strm (behindHeader file st.pos) = some r) (hret : 0 ≤ r.ret)
    (hshort : r.input.length < 4) : round Z file st = .inr (.error .outOfBounds) := by
  have hsz := file.length_lt
  obtain ⟨r', hr', past, hpast, -⟩ := inflateAll_spec hZ hinit (behindHeader file st.pos)
  rw [hr] at hr'
  cases hr'
  have hleft := behindHeader_suffix hpast (by lia)
  have hwrap : ¬sub64 file.bytes.length (file.bytes.length - r.input.length + 4) < 4 := by
    unfold sub64
    lia
  unfold round
  rw [scanRound_header hfit hmagic, gzipBody_of_stream hinit hr hret hleft, if_neg hwrap,
    getUnaligned_fault (by lia)]
  rfl

/-- A stream that is cut off has no message. -/
theorem round_untold {st : ScanState} {strm : σ} {r : Inflated}
    (hfit : st.pos + GZIP_HEADER_LEN + GZIP_FOOTER_LEN ≤ file.bytes.length)
    (hmagic : HasMagic file st.pos) (hinit : Z.inflateInit2 = some strm)
    (hr : inflateAll Z strm (behindHeader file st.pos) = some r) (hret : r.ret < 0)
    (hmsg : ¬ r.msg = true) : round Z file st = .inr (.error .outOfBounds) := by
  unfold round
  rw [scanRound_header hfit hmagic]
  unfold gzipBody
  rw [hinit]
  dsimp only
  unfold behindHeader at hr
  rw [hr]
  dsimp only
  rw [if_pos hret, if_neg hmsg]
  rfl

/-- Where 4 GiB or more are left, a footer that matches is that of no chunk. -/
theorem round_large (hZ : Z.Lawful inflation) {st : ScanState} {strm : σ} {r : Inflated}
    (hfit : st.pos + GZIP_HEADER_LEN + GZIP_FOOTER_LEN ≤ file.bytes.length)
    (hmagic : HasMagic file st.pos) (hinit : Z.inflateInit2 = some strm)
    (hr : inflateAll Z strm (behindHeader file st.pos) = some r) (hret : 0 ≤ r.ret)
    (hroom : 8 ≤ r.input.length)
    (hsize : ofLE (slice file.bytes (file.bytes.length - r.input.length + 4) 4) = r.data.length)
    (hlarge : 2 ^ 32 ≤ file.bytes.length - (st.pos + GZIP_HEADER_LEN)) :
    ∃ st', round Z file st = .inl st' ∧
      ∀ cs stop, st'.chunks <+: cs → ¬Chunks file inflation 0 cs stop := by
  have hsz := file.length_lt
  obtain ⟨r', hr', past, hpast, hstream⟩ := inflateAll_spec hZ hinit (behindHeader file st.pos)
  rw [hr] at hr'
  cases hr'
  have hleft := behindHeader_suffix hpast (by omega)
  have hround : scanRound Z file st = .ok (.inl
      ⟨file.bytes.length - r.input.length + GZIP_FOOTER_LEN,
        st.chunks ++ [normal st.pos GZIP_HEADER_LEN] ++
          [⟨.CHUNK_DEFLATE, st.pos + GZIP_HEADER_LEN,
            file.bytes.length - r.input.length - (st.pos + GZIP_HEADER_LEN), r.data⟩,
            normal (file.bytes.length - r.input.length) GZIP_FOOTER_LEN]⟩) := by
    rw [scanRound_header hfit hmagic, gzipBody_of_stream hinit hr hret hleft,
      sub64_eq (by omega) (by omega), if_neg (by omega), getUnaligned_eq (by omega), ok_bind,
      if_neg (not_not_intro hsize)]
    rfl
  refine ⟨_, by unfold round; rw [hround], ?_⟩
  rintro cs stop ⟨after, rfl⟩ hchunks
  have hbad := hchunks.inflated (c := ⟨.CHUNK_DEFLATE, st.pos + GZIP_HEADER_LEN,
    file.bytes.length - r.input.length - (st.pos + GZIP_HEADER_LEN), r.data⟩) (by simp) rfl
  dsimp only at hbad
  -- the bytes of the chunk are the stream and what `avail_in` has been cut by
  have hcut := congrArg List.length hpast
  unfold behindHeader at hcut
  rw [List.length_take, List.length_drop, List.length_append] at hcut
  have hmod := Nat.mod_lt (file.bytes.length - (st.pos + GZIP_HEADER_LEN)) (show 0 < 2 ^ 32 by decide)
  have hpastle : past.length <
      file.bytes.length - r.input.length - (st.pos + GZIP_HEADER_LEN) := by
    omega
  have hstart : slice file.bytes (st.pos + GZIP_HEADER_LEN) past.length = past := by
    have htake := congrArg (List.take past.length) hpast
    unfold behindHeader at htake
    rw [List.take_take, List.take_left, Nat.min_eq_left (by omega)] at htake
    exact htake
  have hsplit : slice file.bytes (st.pos + GZIP_HEADER_LEN) past.length ++
      slice file.bytes (st.pos + GZIP_HEADER_LEN + past.length)
        (file.bytes.length - r.input.length - (st.pos + GZIP_HEADER_LEN) - past.length) =
      slice file.bytes (st.pos + GZIP_HEADER_LEN) (past.length +
        (file.bytes.length - r.input.length - (st.pos + GZIP_HEADER_LEN) - past.length)) :=
    slice_append _ _
  rw [hstart, Nat.add_sub_cancel' (Nat.le_of_lt hpastle)] at hsplit
  rw [← hsplit] at hbad
  have hdata : r.data.length < 2 ^ 32 := by
    have hlt := ofLE_lt (slice file.bytes (file.bytes.length - r.input.length + 4) 4)
    rw [length_slice (by omega), hsize] at hlt
    exact hlt
  have hmore := congrArg List.length (hZ.prefixFree _ _ _ _ (hstream hret hdata) hbad)
  rw [length_slice (by omega), List.length_nil] at hmore
  omega

/-- No round before the end of a run that returns is a fault. -/
theorem round_ne_fault {r : Option (List ImageChunk)} {st : ScanState}
    (hrun : imageModeInitialize Z file = some (.ok r)) (hreach : Rounds (round Z file) ⟨0, []⟩ st) :
    round Z file st ≠ .inr (.error .outOfBounds) := by
  intro hfault
  obtain ⟨last, hlast, hend⟩ := loop_eq_some hrun
  cases hreach.before hlast hend with
  | refl =>
    rw [hfault] at hend
    cases hend
  | next hnext _ =>
    rw [hfault] at hnext
    cases hnext

/-- **`ImageModeImage::Initialize`** ends without a read outside of the file, and with a well-formed
list when it succeeds, exactly when at every gzip header it comes to the footer is in place, and
`inflate` leaves a message if it fails. -/
theorem imageModeInitialize_iff (hZ : Z.Lawful inflation) :
    (∃ r, imageModeInitialize Z file = some (.ok r) ∧
        ∀ cs, r = some cs → Chunks file inflation 0 cs file.bytes.length) ↔
      ∀ st, Rounds (round Z file) ⟨0, []⟩ st → FooterInPlace Z file st ∧ ErrorTold Z file st := by
  constructor
  · rintro ⟨r', hrun, hcs⟩ st hreach
    refine ⟨fun strm r hfit hmagic hinit hr hret => ⟨?_, fun hroom hsize => ?_⟩,
      fun strm r hfit hmagic hinit hr hret => ?_⟩
    · by_contra hshort
      exact round_ne_fault hrun hreach
        (round_overrun hZ hfit hmagic hinit hr hret (Nat.lt_of_not_le hshort))
    · by_contra hlarge
      obtain ⟨st', hround, hbad⟩ :=
        round_large hZ hfit hmagic hinit hr hret hroom hsize (Nat.le_of_not_lt hlarge)
      obtain ⟨last, hlast, hend⟩ := loop_eq_some hrun
      cases hreach.before hlast hend with
      | refl =>
        rw [hround] at hend
        cases hend
      | next hnext hrest =>
        rw [hround] at hnext
        cases hnext
        have hextends := rounds_prefix hrest
        unfold round at hend
        split at hend
        · cases hend
        · cases hend
        · rename_i hlastround
          cases hend
          cases scanRound_end hlastround with
          | failed hnone =>
            rw [hinit] at hnone
            cases hnone
          | returned hcs' => exact hbad _ _ (hextends.trans hcs') (hcs _ rfl)
    · by_contra hmsg
      exact round_ne_fault hrun hreach (round_untold hfit hmagic hinit hr hret hmsg)
  · intro hok
    obtain ⟨r, hrun, r', rfl, hcs⟩ := scan_of_headers hZ hok
    exact ⟨r', hrun, hcs⟩

/-! ## A stored block -/

/-- A gzip header and a stored block of three bytes, and what follows. -/
def storedImage (rest : List UInt8) (h : rest.length < 2 ^ 62) : FileContent where
  bytes := [0x1f, 0x8b, 0x08, 0x00, 0, 0, 0, 0, 0, 3, 1, 3, 0, 252, 255, 7, 8, 9] ++ rest
  length_lt := by
    rw [List.length_append]
    simp only [List.length_cons, List.length_nil]
    omega

/-- With its footer. -/
theorem imageModeInitialize_stored :
    imageModeInitialize storedZlib (storedImage [0, 0, 0, 0, 3, 0, 0, 0] (by decide)) =
        some (.ok (some [normal 0 10, ⟨.CHUNK_DEFLATE, 10, 8, [7, 8, 9]⟩, normal 18 8])) ∧
      ∀ st, Rounds (round storedZlib (storedImage [0, 0, 0, 0, 3, 0, 0, 0] (by decide))) ⟨0, []⟩ st →
        FooterInPlace storedZlib (storedImage [0, 0, 0, 0, 3, 0, 0, 0] (by decide)) st ∧
          ErrorTold storedZlib (storedImage [0, 0, 0, 0, 3, 0, 0, 0] (by decide)) st := by
  refine ⟨rfl, (imageModeInitialize_iff storedZlib_lawful).1 ⟨_, rfl, ?_⟩⟩
  rintro cs ⟨⟩
  exact .gzip (by unfold HasMagic; rfl) (by decide) rfl rfl (.nil _)

/-- A gzip header and the first eight bytes of a stored block of four. -/
def cutImage : FileContent where
  bytes := [0x1f, 0x8b, 0x08, 0x00, 0, 0, 0, 0, 0, 3, 1, 4, 0, 251, 255, 7, 8, 9]
  length_lt := by decide

/-- Without a footer what is behind the end of the file is read; and where the file ends within the
stream, a message is printed that is not there. -/
theorem imageModeInitialize_overruns :
    storedZlib.Lawful storedInflation ∧
      imageModeInitialize storedZlib (storedImage [] (by decide)) = some (.error .outOfBounds) ∧
      imageModeInitialize storedZlib cutImage = some (.error .outOfBounds) :=
  ⟨storedZlib_lawful, rfl, rfl⟩

end Recovery.ImgDiff
