import Recovery.Adbbu.Framing
import Recovery.Adbbu.Transparency

/-!
# One block of a backup's stream, restored

* `md5Trailer_checks` — the trailer that `backup` writes passes the checks of `restore`.
* `zeros_after_data` — the blocks behind the data are zeros, and in the chunk that the data ends in.
* `dataLoop_chunk` — a chunk is passed on, as far as TWRP takes it.
* `restoreBody_header`, `restoreBody_trailer`, .. — one round on each kind of block.

The rounds are stated for any state of the restore, so that a run over a whole stream chains them
in the order of its blocks.
-/

set_option autoImplicit false

namespace Recovery.Adbbu

open Recovery.Lib

variable {cs : Checksums} {peer : Peer}

/-! ## The trailer -/

theorem field_typed_trailer :
    (Block.typed MD5TRAILER).field 24 4 = List.replicate 4 0 ∧
      (Block.typed MD5TRAILER).field 28 4 = List.replicate 4 0 := by
  decide +kernel

theorem length_strncpy (src : List UInt8) (n : Nat) : (Block.strncpy src n).length = n := by
  simp [Block.strncpy]

variable (cs) in
theorem field_bareTrailer (digest : List UInt8) :
    (bareTrailer cs digest).field 24 4 = List.replicate 4 0 ∧
      (bareTrailer cs digest).field 28 4 = List.replicate 4 0 := by
  have hfit : 32 + (Block.strncpy (cs.md5 digest) 40).length ≤ MAX_ADB_READ := by
    rw [length_strncpy]
    decide
  unfold bareTrailer
  rw [Block.field_put_of_disjoint hfit (.inl (by decide)),
    Block.field_put_of_disjoint hfit (.inl (by decide))]
  exact field_typed_trailer

theorem crcTrailer_clear (digest : List UInt8) :
    (crcTrailer cs digest).clear32 24 = bareTrailer cs digest := by
  have hzero := (field_bareTrailer cs digest).1
  unfold crcTrailer Block.clear32
  rw [Block.put_put (by rw [length_toLE]; decide) (by rw [length_toLE]; rfl), ← hzero,
    Block.put_field (by decide)]

theorem md5Trailer_clear (digest : List UInt8) (md5fnsize : Nat) :
    (md5Trailer cs digest md5fnsize).clear32 28 = crcTrailer cs digest := by
  have hzero : (crcTrailer cs digest).field 28 4 = List.replicate 4 0 := by
    unfold crcTrailer
    rw [Block.field_put_of_disjoint (by rw [length_toLE]; decide)
      (.inr (by rw [length_toLE]))]
    exact (field_bareTrailer cs digest).2
  unfold md5Trailer Block.clear32
  rw [Block.put_put (by rw [length_toLE]; decide) (by rw [length_toLE]; rfl), ← hzero,
    Block.put_field (by decide)]

theorem getType_md5Trailer (digest : List UInt8) (md5fnsize : Nat) :
    (md5Trailer cs digest md5fnsize).getType = MD5TRAILER := by
  unfold md5Trailer crcTrailer bareTrailer
  rw [Block.getType_put (by rw [length_toLE]; decide) (by decide),
    Block.getType_put (by rw [length_toLE]; decide) (by decide),
    Block.getType_put (by rw [length_strncpy]; decide) (by decide)]
  decide +kernel

theorem field_put_crc32 (b : Block) {off : Nat} (bytes : List UInt8) (h : off + 4 ≤ MAX_ADB_READ) :
    ofLE ((b.put off (toLE 4 (cs.crc32 bytes).toNat)).field off 4) = (cs.crc32 bytes).toNat := by
  have hlen := length_toLE 4 (cs.crc32 bytes).toNat
  have hfield : (b.put off (toLE 4 (cs.crc32 bytes).toNat)).field off
      (toLE 4 (cs.crc32 bytes).toNat).length = toLE 4 (cs.crc32 bytes).toNat := by
    apply Block.field_put
    rw [hlen]
    exact h
  rw [hlen] at hfield
  rw [hfield, ofLE_toLE (cs.crc32 bytes).toNat_lt]

variable (cs) in
/-- The trailer that `backup` writes passes both tests of `restore`. -/
theorem md5Trailer_matches (digest : List UInt8) (md5fnsize : Nat) :
    identMatches cs (md5Trailer cs digest md5fnsize) md5fnsize = true ∧
      crcMatches cs (crcTrailer cs digest) 24 = true := by
  constructor
  · unfold identMatches
    rw [md5Trailer_clear, beq_iff_eq, Block.ident, md5Trailer, field_put_crc32 _ _ (by decide)]
  · unfold crcMatches
    rw [crcTrailer_clear, beq_iff_eq, crcTrailer, field_put_crc32 _ _ (by decide)]

/-- **The trailer of a file is found to match**: it goes to TWRP, and the digest after it. -/
theorem md5Trailer_checks {s : Restore} {digest : List UInt8} {md5fnsize : Nat}
    (hpeer : ∀ sent, peer.controlWrite sent = true) (hsize : s.md5fnsize = md5fnsize) :
    checkMD5Trailer cs peer (md5Trailer cs digest md5fnsize) s =
      (true, { s with sent := s.sent ++ [.control (bareTrailer cs digest),
        .control (md5Verify cs s.digest)] }) := by
  subst hsize
  obtain ⟨hident, hcrc⟩ := md5Trailer_matches cs digest s.md5fnsize
  unfold checkMD5Trailer
  rw [if_pos hident, md5Trailer_clear, if_pos hcrc, crcTrailer_clear]
  simp only [writeControl, hpeer, if_true, List.append_assoc, List.singleton_append]

/-- The trailer and the structure that follows it have the digest in the same place. -/
theorem md5Verify_digest (digest : List UInt8) :
    (md5Verify cs digest).field 32 40 = (bareTrailer cs digest).field 32 40 := by
  have hfit : 32 + (Block.strncpy (cs.md5 digest) 40).length ≤ MAX_ADB_READ := by
    rw [length_strncpy]
    decide
  have h1 := Block.field_put (b := Block.typed TWMD5) hfit
  have h2 := Block.field_put (b := Block.typed MD5TRAILER) hfit
  rw [length_strncpy] at h1 h2
  unfold md5Verify bareTrailer
  rw [h1, h2]

/-! ## The padding -/

theorem eq_zero_of_bytesOf {blocks : List Block} (h : ∀ x ∈ bytesOf blocks, x = 0) :
    ∀ b ∈ blocks, b = Block.zero := by
  intro b hb
  have hbytes : b.bytes = Block.zero.bytes := by
    show b.bytes = List.replicate MAX_ADB_READ 0
    rw [List.eq_replicate_iff]
    refine ⟨b.size, ?_⟩
    intro x hx
    apply h
    rw [bytesOf, List.mem_flatMap]
    exact ⟨b, hb, hx⟩
  cases b
  cases hbytes
  rfl

/-- What stands before and after a place behind the data. -/
theorem payload_split {data : List UInt8} {before after : List Block}
    (h : payloadBlocks data = before ++ after)
    (hn : data.length ≤ MAX_ADB_READ * before.length) :
    ∃ k, bytesOf before = data ++ List.replicate k 0 ∧
      dataPadding data.length = k + (bytesOf after).length ∧ ∀ x ∈ bytesOf after, x = 0 := by
  have hbytes : bytesOf before ++ bytesOf after =
      data ++ List.replicate (dataPadding data.length) 0 := by
    rw [← bytesOf_append, ← h]
    exact (length_payloadBlocks data).2
  obtain ⟨zeros, hbefore⟩ : ∃ zeros, bytesOf before = data ++ zeros := by
    rw [← length_bytesOf] at hn
    exact (List.prefix_of_prefix_length_le (hbytes ▸ List.prefix_append data _)
      (List.prefix_append _ _) hn).imp fun _ h => h.symm
  rw [hbefore, List.append_assoc] at hbytes
  have hrest : List.replicate (dataPadding data.length) 0 = zeros ++ bytesOf after :=
    (List.append_cancel_left hbytes).symm
  obtain ⟨hlen, hz, ha⟩ := List.replicate_eq_append_iff.1 hrest
  refine ⟨zeros.length, ?_, hlen.symm, ?_⟩
  · rw [hbefore, hz, List.length_replicate]
  · rw [ha]
    intro x hx
    exact List.eq_of_mem_replicate hx

theorem dataPadding_lt (n : Nat) : dataPadding n < CHUNK_DATA := by
  unfold dataPadding CHUNK_DATA DATA_MAX_CHUNK_SIZE MAX_ADB_READ
  split <;> omega

/-- **The blocks behind the data** are zeros, and fewer than a chunk has. -/
theorem zeros_after_data {data : List UInt8} {before after : List Block}
    (h : payloadBlocks data = before ++ after)
    (hn : data.length ≤ MAX_ADB_READ * before.length) :
    (∀ b ∈ after, b = Block.zero) ∧ after.length < CHUNK_BLOCKS := by
  obtain ⟨k, -, hpad, hzero⟩ := payload_split h hn
  refine ⟨eq_zero_of_bytesOf hzero, ?_⟩
  have hlt := dataPadding_lt data.length
  rw [length_bytesOf] at hpad
  unfold CHUNK_DATA DATA_MAX_CHUNK_SIZE MAX_ADB_READ at *
  unfold CHUNK_BLOCKS
  lia

/-! ## A chunk -/

/-- A block that is not the trailer's, with the data fifo open. -/
theorem dataLoop_written {b : Block} {stream : List Block} {s : Restore}
    (hb : b.getType ≠ MD5TRAILER) (hfd : s.writeFd = true) (hw : peer.dataWrite s.sent = true) :
    dataLoop cs peer (b :: stream) s = afterChunk cs peer stream (passOn [b] stream s) := by
  rcases dataLoop_cons cs peer b stream s with ⟨ht, -⟩ | ⟨-, hfail, -⟩ | ⟨-, heq⟩
  · exact absurd ht hb
  · simp [writeData, hfd, hw] at hfail
  · exact heq

variable (cs) in
theorem dataLoop_refused {b : Block} (stream : List Block) {s : Restore}
    (hb : b.getType ≠ MD5TRAILER) (hw : peer.dataWrite s.sent = false) :
    ∃ s', dataLoop cs peer (b :: stream) s = .again s' ∧ s'.stream = stream ∧ s'.sent = s.sent ∧
      s'.digest = s.digest ++ b.bytes ∧ s'.md5sumdata = true ∧ s'.md5fnsize = s.md5fnsize ∧
      s'.readFromAdb = true := by
  rw [dataLoop]
  dsimp only
  rw [if_neg hb]
  simp only [writeData, hw, Bool.and_false, Bool.false_eq_true, if_false]
  exact ⟨_, rfl, rfl, rfl, rfl, rfl, rfl, rfl⟩

variable (cs peer) in
/-- **A whole chunk** is passed on, or the data fifo does not take one of its blocks; the round
ends there, and the digest has that block too. -/
theorem dataLoop_chunk {blocks : List Block} (rest : List Block) {s : Restore} (hfd : s.writeFd = true)
    (hne : blocks ≠ []) (htype : ∀ b ∈ blocks, b.getType ≠ MD5TRAILER)
    (hfull : s.dataChunkBytes + MAX_ADB_READ * blocks.length = DATA_MAX_CHUNK_SIZE) :
    ∃ s', dataLoop cs peer (blocks ++ rest) s = .again s' ∧ s'.md5fnsize = s.md5fnsize ∧
      s'.readFromAdb = true ∧
      ((s'.stream = rest ∧ s'.sent = s.sent ++ blocks.map .data ∧
          s'.digest = s.digest ++ bytesOf blocks ∧ s'.dataChunkBytes = 0 ∧ s'.writeFd = true) ∨
        ∃ before b after, blocks = before ++ b :: after ∧
          peer.dataWrite (s.sent ++ before.map .data) = false ∧ s'.stream = after ++ rest ∧
          s'.sent = s.sent ++ before.map .data ∧
          s'.digest = s.digest ++ bytesOf (before ++ [b]) ∧ s'.md5sumdata = true) := by
  induction blocks generalizing s with
  | nil => exact absurd rfl hne
  | cons b blocks ih =>
    have hb := htype b List.mem_cons_self
    cases hw : peer.dataWrite s.sent with
    | false =>
      obtain ⟨s', heq, hstream, hsent, hdigest, hmd5, hsize, hread⟩ :=
        dataLoop_refused cs (blocks ++ rest) hb hw
      refine ⟨s', heq, hsize, hread, .inr ⟨[], b, blocks, rfl, ?_, hstream, ?_, ?_, hmd5⟩⟩
      · simpa using hw
      · simpa using hsent
      · simpa [bytesOf] using hdigest
    | true =>
      rw [List.cons_append, dataLoop_written hb hfd hw]
      unfold afterChunk
      rw [List.length_cons, Nat.mul_succ] at hfull
      have hdcb : (passOn [b] (blocks ++ rest) s).dataChunkBytes =
          s.dataChunkBytes + MAX_ADB_READ := rfl
      cases hblocks : blocks with
      | nil =>
        rw [hblocks] at hfull hdcb
        rw [if_pos (by rw [hdcb]; exact hfull)]
        exact ⟨_, rfl, rfl, Bool.or_true _, .inl ⟨rfl, rfl, rfl, rfl, hfd⟩⟩
      | cons b' blocks' =>
        have hpos : 0 < MAX_ADB_READ * blocks.length := by
          rw [hblocks]
          exact Nat.mul_pos (by decide) (Nat.succ_pos _)
        rw [← hblocks, if_neg (by lia)]
        obtain ⟨s', heq, hsize, hread, hcase⟩ := ih (s := passOn [b] (blocks ++ rest) s) hfd
          (by simp [hblocks]) (fun c hc => htype c (List.mem_cons_of_mem _ hc))
          (by rw [hdcb]; lia)
        have hsent (bs : List Block) :
            (passOn [b] (blocks ++ rest) s).sent ++ bs.map .data =
              s.sent ++ (b :: bs).map .data := by
          simp [passOn]
        have hdigest (bs : List Block) :
            (passOn [b] (blocks ++ rest) s).digest ++ bytesOf bs =
              s.digest ++ bytesOf (b :: bs) := by
          simp [passOn, bytesOf]
        refine ⟨s', heq, hsize, hread, ?_⟩
        rcases hcase with ⟨h1, h2, h3, h4⟩ | ⟨before, c, after, h1, h2, h3, h4, h5, h6⟩
        · left
          rw [hsent] at h2
          rw [hdigest] at h3
          exact ⟨h1, h2, h3, h4⟩
        · right
          rw [hsent] at h2 h4
          rw [hdigest] at h5
          refine ⟨b :: before, c, after, ?_, h2, h3, h4, h5, h6⟩
          rw [h1, List.cons_append]

/-! ## One round -/

/-- Closing the data fifo tells TWRP nothing new. -/
theorem closeData_eq (s : Restore) :
    ∃ more fd, (more = [] ∨ more = [.closeData]) ∧
      closeData s = { s with writeFd := fd, sent := s.sent ++ more } := by
  unfold closeData
  split
  · exact ⟨[.closeData], false, .inr rfl, rfl⟩
  · exact ⟨[], s.writeFd, .inl rfl, by rw [List.append_nil]⟩

theorem trailerSeen_eq (s : Restore) :
    ∃ more fd tweofrcvd readFromAdb, (more = [] ∨ more = [.closeData]) ∧
      trailerSeen s = { s with
        writeFd := fd, tweofrcvd := tweofrcvd, readFromAdb := readFromAdb
        sent := s.sent ++ more } := by
  obtain ⟨more, fd, hmore, hclose⟩ := closeData_eq s
  unfold trailerSeen
  rw [hclose]
  dsimp only
  split
  · split
    · exact ⟨more, fd, false, true, hmore, rfl⟩
    · exact ⟨more, fd, s.tweofrcvd, false, hmore, rfl⟩
  · split
    · exact ⟨[], s.writeFd, false, true, .inl rfl, by rw [List.append_nil]⟩
    · exact ⟨[], s.writeFd, s.tweofrcvd, false, .inl rfl, by rw [List.append_nil]⟩

section

variable {b : Block} {rest : List Block} {s : Restore}

theorem restoreBody_streamHdr (hs : s.stream = b :: rest) (ht : b.getType = TWSTREAMHDR)
    (hcrc : crcMatches cs b 40 = true) (hpeer : ∀ sent, peer.controlWrite sent = true) :
    restoreBody cs peer s = .again { s with
      stream := rest, md5sumdata := false, sent := s.sent ++ [.control b] } := by
  unfold restoreBody
  simp only [hs]
  rw [ht, if_neg (by decide +kernel), if_pos rfl, if_pos hcrc]
  simp only [writeControl, hpeer, if_true]

theorem restoreBody_endadb (hs : s.stream = b :: rest) (ht : b.getType = TWENDADB)
    (hcrc : crcMatches cs b 24 = true) (hpeer : ∀ sent, peer.controlWrite sent = true) :
    restoreBody cs peer s = .again { s with
      stream := rest, md5sumdata := false, readFromAdb := false
      sent := s.sent ++ [.control (b.clear32 24)] } := by
  unfold restoreBody
  simp only [hs]
  rw [ht, if_pos rfl, if_pos hcrc]
  simp only [writeControl, hpeer, if_true]

theorem restoreBody_header (hs : s.stream = b :: rest)
    (ht : b.getType = TWIMG ∨ b.getType = TWFN) (hcrc : crcMatches cs b 40 = true)
    (hpeer : ∀ sent, peer.controlWrite sent = true) (hopen : ∀ sent, peer.dataOpen sent = true) :
    restoreBody cs peer s = .again { s with
      stream := rest, fileBytes := 0, md5sumdata := false, readFromAdb := true
      dataChunkBytes := 0, digest := [], md5fnsize := b.fileSize, writeFd := true
      sent := s.sent ++ [.control b, .openData] } := by
  have hheader : restoreBody cs peer s = fileHeader cs peer b { s with stream := rest } := by
    unfold restoreBody
    simp only [hs]
    rcases ht with ht | ht
    · rw [ht, if_neg (by decide +kernel), if_neg (by decide +kernel), if_pos rfl]
    · rw [ht, if_neg (by decide +kernel), if_neg (by decide +kernel), if_neg (by decide +kernel),
        if_pos rfl]
  rw [hheader, fileHeader, if_pos hcrc]
  simp only [writeControl, openData, hpeer, hopen, if_true, List.append_assoc,
    List.singleton_append]

theorem restoreBody_trailer {digest : List UInt8}
    (hs : s.stream = md5Trailer cs digest s.md5fnsize :: rest)
    (hpeer : ∀ sent, peer.controlWrite sent = true) :
    restoreBody cs peer s = .again { trailerSeen { s with stream := rest } with
      md5sumdata := false
      sent := (trailerSeen { s with stream := rest }).sent ++
        [.control (bareTrailer cs digest), .control (md5Verify cs s.digest)] } := by
  obtain ⟨more, fd, tweofrcvd, readFromAdb, -, hseen⟩ := trailerSeen_eq { s with stream := rest }
  have hsize : (trailerSeen { s with stream := rest }).md5fnsize = s.md5fnsize := by
    rw [hseen]
  have hdigest : (trailerSeen { s with stream := rest }).digest = s.digest := by
    rw [hseen]
  unfold restoreBody
  simp only [hs]
  rw [getType_md5Trailer, if_neg (by decide +kernel), if_neg (by decide +kernel),
    if_neg (by decide +kernel), if_neg (by decide +kernel), if_pos rfl,
    md5Trailer_checks hpeer (by exact hsize)]
  simp only [hdigest]

theorem restoreBody_data (hs : s.stream = b :: rest) (ht : b.getType = TWDATA) :
    restoreBody cs peer s =
      dataLoop cs peer rest { s with
        stream := rest, dataChunkBytes := s.dataChunkBytes + MAX_ADB_READ } := by
  unfold restoreBody
  simp only [hs]
  rw [ht, if_neg (by decide +kernel), if_neg (by decide +kernel), if_neg (by decide +kernel),
    if_neg (by decide +kernel), if_neg (by decide +kernel), if_pos rfl]

/-- The rest of a chunk whose data TWRP did not take is only hashed. -/
theorem restoreBody_zero (hs : s.stream = Block.zero :: rest) (hmd5 : s.md5sumdata = true) :
    restoreBody cs peer s =
      .again { s with stream := rest, digest := s.digest ++ Block.zero.bytes } := by
  have ht : Block.zero.getType = [] := by decide +kernel
  unfold restoreBody
  simp only [hs]
  rw [ht, if_neg (by decide +kernel), if_neg (by decide +kernel), if_neg (by decide +kernel),
    if_neg (by decide +kernel), if_neg (by decide +kernel), if_neg (by decide +kernel), if_pos hmd5]

end

end Recovery.Adbbu
