import Recovery.Adbbu.Listing
import Recovery.Adbbu.RestoreRun
import Mathlib.Data.List.Forall2

/-!
# The round trip of a backup

* `Session.Reached.command`, `Session.Reached.drain`, `Session.Reached.partition` — a run in which
  TWRP closes the data fifo and `backup` empties it before `TWEOF` is sent.
* `exists_returned` — so every backup can be finished.
* `Framed`, `Encodes` — a stream that has the data of each partition in chunks.
* `encodes_streamBlocks` — the stream of a backup is such.
* `roundTrip_spec` — what `backup` writes, and what `restore` delivers of it.

`Reached` and `Restores` are inductive descriptions of interleavings, so no schedule is assumed:
what is asked for is a condition on the steps that are taken.  `late_byte_lost` is a run of a
backup that does not meet it.
-/

set_option autoImplicit false

namespace Recovery.Adbbu

open Recovery.Lib

variable {cs : Checksums} {e : Ends} {parts : List Partition}

/-! ## Every backup can be finished -/

section

variable {t : Twrp} {c : List Block} {f : List (Nat × UInt8)} {b : Backup} {n : Nat}

theorem Session.Reached.twrp {s : Session} (h : Session.Reached cs e parts s) (k : Nat) (sent : Bool) :
    Session.Reached cs e parts (s.twrpStep cs e k sent) := h.step (.twrp k sent) trivial

theorem Session.Reached.command {cmd : Block}
    (h : Session.Reached cs e parts ⟨t, cmd :: c, f, b, n⟩) (hpc : b.pc = .control) :
    Session.Reached cs e parts ⟨t, c, f, onCommand cmd b, if isFileHeader cmd then n - 1 else n⟩ := by
  have hok : Session.StepOk (.backup 1) ⟨t, cmd :: c, f, b, n⟩ := by
    unfold Session.StepOk
    dsimp only
    rw [hpc]
    trivial
  have hstep := h.step (.backup 1) hok
  unfold Session.step Session.backupStep at hstep
  dsimp only at hstep
  rw [hpc] at hstep
  exact hstep

/-- The next partition's header is not there yet, or there is none. -/
theorem Session.Reached.toControl (h : Session.Reached cs e parts ⟨t, c, [], b, n⟩)
    (hpc : b.pc = .control ∨ b.pc = .data) (hw : t.writer = false) :
    ∃ b' : Backup, b'.pc = .control ∧ Session.Reached cs e parts ⟨t, c, [], b', n⟩ := by
  rcases hpc with hpc | hpc
  · exact ⟨b, hpc, h⟩
  · have hok : Session.StepOk (.backup 1) ⟨t, c, [], b, n⟩ := by
      unfold Session.StepOk
      dsimp only
      rw [hpc]
      intro x hx
      cases hx
    have hstep := h.step (.backup 1) hok
    unfold Session.step Session.backupStep Session.readFifo at hstep
    dsimp only at hstep
    rw [hpc, if_pos rfl, hw] at hstep
    exact ⟨_, rfl, hstep⟩

/-- The loop that fills up a chunk is only entered when something is missing. -/
theorem Inv.bytesLeft_pos {s : Session} (h : Inv cs e parts s) {m : Nat}
    (hpc : s.backup.pc = .extra m) : 0 < m := by
  have hmain (hb : s.backup.pc = .control ∨ s.backup.pc = .data) : False := by
    rw [hpc] at hb
    rcases hb with h | h <;> cases h
  cases h with
  | fresh hb ha => exact (hmain hb.pc).elim
  | between hparts hb ha => exact (hmain hb.pc).elim
  | @inFile ps qs p d r hparts hdata hb hs ha =>
    rcases hs with hs | ⟨-, hs⟩
    · rcases hs.room with ⟨hs, -⟩ | ⟨hextra, -⟩
      · exact (hmain hs).elim
      · rw [hpc] at hextra
        cases hextra
        have hlt : d.length % CHUNK_DATA < CHUNK_DATA := Nat.mod_lt _ (by decide)
        exact Nat.sub_pos_of_lt hlt
    · exact (hmain hs).elim
  | atEnd hparts hdata hb hflush ha =>
    rw [hpc] at hflush
    cases hflush
  | finished hret hw =>
    rw [hpc] at hret
    cases hret

/-- Where a read of data leads to. -/
def Backup.Reading (b : Backup) : Prop := b.pc = .data ∨ ∃ m, b.pc = .extra m

theorem reading_dataRead {bs : List UInt8} (hpc : b.pc = .data) :
    (dataRead cs (.bytes bs) b).Reading := by
  have hu : (takeData bs (chunkHeader cs b)).pc = .data := by
    unfold takeData chunkHeader
    split <;> exact hpc
  unfold dataRead
  dsimp only
  split
  · exact .inl hu
  · split
    · exact .inr ⟨_, rfl⟩
    · exact .inl hu

theorem reading_extraRead (m : Nat) (bs : List UInt8) :
    (extraRead m (.bytes bs) b).Reading := by
  unfold extraRead
  dsimp only
  split
  · exact .inl rfl
  · exact .inr ⟨_, rfl⟩

/-- All the fifo has is data of the partition whose header was received last. -/
theorem stepOk_reading (hread : b.Reading) (htag : ∀ x ∈ f, x.1 = n) (k : Nat) :
    Session.StepOk (.backup k) ⟨t, c, f, b, n⟩ := by
  unfold Session.StepOk
  dsimp only
  rcases hread with hpc | ⟨m, hpc⟩
  · rw [hpc]
    exact fun x hx => htag x (List.mem_of_mem_take hx)
  · rw [hpc]
    exact fun x hx => htag x (List.mem_of_mem_take hx)

/-- A read of data from a fifo that is not empty. -/
theorem Session.Reached.read (hv : Valid cs e parts)
    (h : Session.Reached cs e parts ⟨t, c, f, b, n⟩) (hread : b.Reading) (hne : f ≠ [])
    (htag : ∀ x ∈ f, x.1 = n) :
    ∃ (b' : Backup) (k : Nat), 0 < k ∧ b'.Reading ∧
      Session.Reached cs e parts ⟨t, c, f.drop k, b', n⟩ := by
  have hcount {m : Nat} (hm : 0 < m) := (readCount_bounds (s := ⟨t, c, f, b, n⟩) (k := 1) hm hne).1
  have hstep := h.step (.backup 1) (stepOk_reading hread htag 1)
  unfold Session.step Session.backupStep Session.readFifo at hstep
  dsimp only at hstep
  rcases hread with hpc | ⟨m, hpc⟩
  · rw [hpc] at hstep
    dsimp only at hstep
    rw [if_neg hne] at hstep
    exact ⟨_, _, hcount (by decide), reading_dataRead hpc, hstep⟩
  · have hpos := (h.inv hv).1.bytesLeft_pos hpc
    rw [hpc] at hstep
    dsimp only at hstep
    rw [if_neg hne] at hstep
    exact ⟨_, _, hcount hpos, reading_extraRead m _, hstep⟩

/-- **The fifo is emptied** once TWRP has closed it. -/
theorem Session.Reached.drain (hv : Valid cs e parts) (hw : t.writer = false)
    (h : Session.Reached cs e parts ⟨t, c, f, b, n⟩) (hread : b.Reading)
    (htag : ∀ x ∈ f, x.1 = n) :
    ∃ b' : Backup, b'.pc = .control ∧ Session.Reached cs e parts ⟨t, c, [], b', n⟩ := by
  obtain ⟨len, hlen⟩ : ∃ len, len = f.length := ⟨_, rfl⟩
  induction len using Nat.strongRecOn generalizing f b with
  | ind len ih =>
    by_cases hne : f = []
    · subst hne
      rcases hread with hpc | ⟨m, hpc⟩
      · exact h.toControl (.inr hpc) hw
      · -- the end of the file ends the loop that fills up the chunk
        have hstep := h.step (.backup 1) (stepOk_reading (.inr ⟨m, hpc⟩) htag 1)
        unfold Session.step Session.backupStep Session.readFifo at hstep
        dsimp only at hstep
        rw [hpc] at hstep
        dsimp only at hstep
        rw [if_pos rfl, hw] at hstep
        exact hstep.toControl (.inr rfl) hw
    · obtain ⟨b', k, hk, hread', h'⟩ := h.read hv hread hne htag
      have hpos := List.length_pos_of_ne_nil hne
      refine ih _ ?_ h' hread' (fun x hx => htag x (List.mem_of_mem_drop hx)) rfl
      rw [hlen, List.length_drop]
      omega

/-- TWRP writes all data at once and closes the fifo. -/
theorem Session.Reached.write {p : Partition} {ps : List Partition}
    (h : Session.Reached cs e parts ⟨.writing p p.data ps, c, [], b, n⟩) :
    Session.Reached cs e parts ⟨.ending p true false ps, c, tagged ps.length p.data, b, n⟩ := by
  have hall : Session.Reached cs e parts ⟨.writing p [] ps, c, tagged ps.length p.data, b, n⟩ := by
    cases hdata : p.data with
    | nil =>
      rw [hdata] at h
      exact h
    | cons x xs =>
      have hwrite := h.twrp (x :: xs).length false
      rw [hdata] at hwrite
      unfold Session.twrpStep at hwrite
      dsimp only at hwrite
      rw [List.drop_length, List.take_length, List.nil_append] at hwrite
      exact hwrite
  exact (hall.twrp 0 false).twrp 0 false

/-- **A partition**, from the header to its trailer. -/
theorem Session.Reached.partition (hv : Valid cs e parts) {p : Partition} {ps : List Partition}
    (hp : p ∈ parts) (h : Session.Reached cs e parts ⟨.next (p :: ps), [], [], b, ps.length + 1⟩)
    (hpc : b.pc = .control ∨ b.pc = .data) :
    ∃ b' : Backup, (b'.pc = .control ∨ b'.pc = .data) ∧
      Session.Reached cs e parts ⟨.next ps, [], [], b', ps.length⟩ := by
  obtain ⟨b1, hpc1, h1⟩ := h.toControl hpc rfl
  have hheader := (h1.twrp 0 false).command hpc1
  obtain ⟨compressed, hon⟩ := onCommand_header (b := b1) (hv.header_type p hp)
  rw [isFileHeader_header (hv.header_type p hp), if_pos rfl, Nat.add_sub_cancel, hon] at hheader
  have hwritten := (hheader.twrp 0 false).write
  have htag : ∀ x ∈ tagged ps.length p.data, x.1 = ps.length := by
    intro x hx
    obtain ⟨y, -, rfl⟩ := List.mem_map.1 hx
    rfl
  obtain ⟨b2, hpc2, h2⟩ := hwritten.drain hv rfl (.inl rfl) htag
  have htweof := (h2.twrp 0 false).command hpc2
  rw [isFileHeader_tweof (getType_tweof cs), if_neg Bool.false_ne_true,
    onCommand_tweof (getType_tweof cs)] at htweof
  have hok : Session.StepOk (.backup 1)
      ⟨.ending p true true ps, [], [], { b2 with pc := .flush }, ps.length⟩ := ⟨rfl, rfl⟩
  exact ⟨_, afterCommand_pc _, (htweof.step (.backup 1) hok).twrp 0 false⟩

end

/-- **Every backup can be finished.** -/
theorem exists_returned (hv : Valid cs e parts) :
    ∃ s, Session.Reached cs e parts s ∧ s.backup.pc = .returned true := by
  have hinit : Session.Reached cs e parts ⟨.start parts, [], [], backupInit, parts.length⟩ := .init
  have hstart := (hinit.twrp 0 false).command rfl
  rw [isFileHeader_streamHdr hv.streamHdr_type, if_neg Bool.false_ne_true,
    onCommand_streamHdr hv.streamHdr_type] at hstart
  have hparts : ∀ ps, (∀ p ∈ ps, p ∈ parts) → ∀ b : Backup, (b.pc = .control ∨ b.pc = .data) →
      Session.Reached cs e parts ⟨.next ps, [], [], b, ps.length⟩ →
      ∃ b' : Backup, (b'.pc = .control ∨ b'.pc = .data) ∧
        Session.Reached cs e parts ⟨.next [], [], [], b', 0⟩ := by
    intro ps hps b hpc h
    induction ps generalizing b with
    | nil => exact ⟨b, hpc, h⟩
    | cons p ps ih =>
      obtain ⟨b', hpc', h'⟩ := h.partition hv (hps p List.mem_cons_self) hpc
      exact ih (fun q hq => hps q (List.mem_cons_of_mem _ hq)) b' hpc' h'
  obtain ⟨b1, hpc1, h1⟩ := hparts parts (fun p hp => hp) _ (afterCommand_pc _) hstart
  obtain ⟨b2, hpc2, h2⟩ := h1.toControl hpc1 rfl
  have hend := (h2.twrp 0 false).command hpc2
  refine ⟨_, hend, ?_⟩
  rw [onCommand_endadb hv.endadb_type]

/-! ## The stream -/

/-- The stream of a partition: its header, its data and zeros in chunks of one size, each with a data
header in front, and the trailer. -/
inductive Framed (cs : Checksums) (p : Partition) : List Block → Prop
  | mk {chunks : List (List Block)} {padding : Nat}
      (hsize : ∀ chunk ∈ chunks, MAX_ADB_READ * (chunk.length + 1) = DATA_MAX_CHUNK_SIZE)
      (hdata : bytesOf chunks.flatten = p.data ++ List.replicate padding 0)
      (hpadding : padding < DATA_MAX_CHUNK_SIZE) :
      Framed cs p (p.header :: chunks.flatMap (controlBlock cs TWDATA :: ·) ++
        [md5Trailer cs (bytesOf chunks.flatten) p.header.fileSize])

/-- The stream of some partitions. -/
inductive Encodes (cs : Checksums) (e : Ends) (parts : List Partition) : List Block → Prop
  | mk {pieces : List (List Block)} (h : List.Forall₂ (Framed cs) parts pieces) :
      Encodes cs e parts (e.streamHdr :: pieces.flatten ++ [e.endadb])

theorem exists_chunks (cs : Checksums) {blocks : List Block} (h : blocks.length % CHUNK_BLOCKS = 0) :
    ∃ chunks : List (List Block), chunks.flatten = blocks ∧
      inChunks cs blocks = chunks.flatMap (controlBlock cs TWDATA :: ·) ∧
        ∀ chunk ∈ chunks, chunk.length = CHUNK_BLOCKS := by
  obtain ⟨n, hn⟩ : ∃ n, n = blocks.length := ⟨_, rfl⟩
  induction n using Nat.strongRecOn generalizing blocks with
  | ind n ih =>
    by_cases hne : blocks = []
    · refine ⟨[], hne.symm, ?_, fun chunk hchunk => absurd hchunk List.not_mem_nil⟩
      rw [hne, inChunks]
      rfl
    · have hpos := List.length_pos_of_ne_nil hne
      have hdrop : (blocks.drop CHUNK_BLOCKS).length = blocks.length - CHUNK_BLOCKS :=
        List.length_drop
      have htake : (blocks.take CHUNK_BLOCKS).length = CHUNK_BLOCKS := by
        rw [List.length_take]
        unfold CHUNK_BLOCKS at h ⊢
        lia
      obtain ⟨chunks, hflat, hchunks, hlen⟩ : ∃ chunks : List (List Block),
          chunks.flatten = blocks.drop CHUNK_BLOCKS ∧
            inChunks cs (blocks.drop CHUNK_BLOCKS) =
              chunks.flatMap (controlBlock cs TWDATA :: ·) ∧
            ∀ chunk ∈ chunks, chunk.length = CHUNK_BLOCKS := by
        unfold CHUNK_BLOCKS at h hdrop
        refine ih _ ?_ ?_ rfl
        · unfold CHUNK_BLOCKS
          lia
        · unfold CHUNK_BLOCKS
          lia
      refine ⟨blocks.take CHUNK_BLOCKS :: chunks, ?_, ?_, ?_⟩
      · rw [List.flatten_cons, hflat, List.take_append_drop]
      · rw [inChunks_cons hne, hchunks, List.flatMap_cons, List.cons_append]
      · intro chunk hchunk
        rcases List.mem_cons.1 hchunk with rfl | hchunk
        · exact htake
        · exact hlen chunk hchunk

theorem framed_partBlocks (p : Partition) : Framed cs p (partBlocks cs p) := by
  obtain ⟨hmod, hbytes⟩ := length_payloadBlocks p.data
  obtain ⟨chunks, hflat, hchunks, hlen⟩ := exists_chunks cs hmod
  rw [← hflat] at hbytes
  rw [partBlocks, hchunks, ← hbytes]
  refine .mk ?_ hbytes ?_
  · intro chunk hchunk
    rw [hlen chunk hchunk]
    rfl
  · exact Nat.lt_trans (dataPadding_lt _) (by decide)

/-- **The stream of a backup** has the data of each partition in chunks. -/
theorem encodes_streamBlocks (parts : List Partition) :
    Encodes cs e parts (streamBlocks cs e parts) := by
  rw [streamBlocks, List.flatMap_def]
  refine .mk ?_
  rw [List.forall₂_map_right_iff, List.forall₂_same]
  exact fun p hp => framed_partBlocks p

/-! ## There and back -/

/-- What TWRP has got is right so far, and complete when the function returns. -/
inductive Restoring (e : Ends) (parts : List Partition) : Outcome → Prop
  | again {s : Restore} {full : List Sent} (hfull : Restored e parts full)
      (hsent : delivered s.sent <+: full) : Restoring e parts (.again s)
  | done {s : Restore} (hfull : Restored e parts (delivered s.sent)) :
      Restoring e parts (.done true s)

theorem Restores.restoring {peer : Peer} (hv : Valid cs e parts) (hpeer : Takes peer parts)
    (hm : NoTrailer parts) {o : Outcome} (h : Restores cs peer (streamBlocks cs e parts) o) :
    Restoring e parts o := by
  rcases h.inv hv hpeer hm with ⟨s, rfl, hinv⟩ | ⟨s, rfl, hinv, hstream⟩
  · obtain ⟨full, hfull, hsent, -⟩ := hinv.delivered
    exact .again hfull hsent
  · obtain ⟨full, hfull, -, hall⟩ := hinv.delivered
    rw [← hall hstream] at hfull
    exact .done hfull

/-- **The round trip**: in runs whose steps are as they should be, `backup` writes the data of every
partition in chunks, and `restore` delivers it when no block of data is taken for a trailer. -/
theorem roundTrip_spec (hv : Valid cs e parts) :
    (∃ stream, Encodes cs e parts stream ∧ ∀ s, Session.Reached cs e parts s →
      s.backup.written <+: bytesOf stream ∧
        ∀ result, s.backup.pc = .returned result →
          result = true ∧ s.backup.written = bytesOf stream) ∧
    (∃ s, Session.Reached cs e parts s ∧ s.backup.pc = .returned true) ∧
    ∀ s result, Session.Reached cs e parts s → s.backup.pc = .returned result →
      NoTrailer parts → ∀ peer, Takes peer parts →
        (∀ o, Restores cs peer (blocksOf s.backup.written) o → Restoring e parts o) ∧
          ∃ s', Restores cs peer (blocksOf s.backup.written) (.done true s') := by
  refine ⟨⟨_, encodes_streamBlocks parts, ?_⟩, exists_returned hv, ?_⟩
  · intro s hs
    have hinv := (hs.inv hv).1
    exact ⟨ Inv.written_prefix hinv, fun result hpc => hinv.written_all hpc⟩
  · intro s result hs hpc hm peer hpeer
    rw [((hs.inv hv).1.written_all hpc).2, blocksOf_bytesOf]
    refine ⟨fun o ho => ho.restoring hv hpeer hm, ?_⟩
    have hfresh : RInv cs e parts (restoreInit (streamBlocks cs e parts) (false, false)) :=
      .fresh rfl ⟨rfl, rfl, rfl⟩
    exact hfresh.exists_done hv hpeer hm (.init (false, false))

/-! ## An image of the boot partition -/

/-- `Write_TWIMG`. -/
def imageHeader (cs : Checksums) (name : List UInt8) (fileSize : Nat) : Block :=
  let hdr := ((Block.typed TWIMG).put 24 (toLE 8 fileSize)).put 44 (Block.strncpy name 468)
  hdr.put 40 (toLE 4 (cs.crc32 hdr.bytes).toNat)

def bootEnds : Ends := ⟨streamHeader zlib 1, controlBlock zlib TWENDADB⟩

def bootImage (data : List UInt8) : Partition :=
  ⟨imageHeader zlib (ascii "boot.emmc.win") data.length, data⟩

theorem bootImage_valid : Valid zlib bootEnds [bootImage [1, 2]] := by
  refine ⟨by decide +kernel, by decide +kernel, by decide +kernel, by decide +kernel, ?_, ?_⟩
  · intro p hp
    rw [List.mem_singleton.1 hp]
    exact .inl (by decide +kernel)
  · intro p hp
    rw [List.mem_singleton.1 hp]
    decide +kernel

/-- No letter is among the data or the zeros behind it, so no block of them has a type. -/
theorem bootImage_getType {b : Block} (hb : b ∈ payloadBlocks [1, 2]) {type : List UInt8}
    (htype : ∃ x ∈ type, 2 < x) : b.getType ≠ type := by
  rintro rfl
  obtain ⟨x, hx, hlt⟩ := htype
  have hbytes : x ∈ b.bytes :=
    List.mem_of_mem_drop (List.mem_of_mem_take ((List.takeWhile_subset _) hx))
  have hpayload : x ∈ payload [1, 2] := by
    rw [← (length_payloadBlocks [1, 2]).2]
    exact List.mem_flatMap.2 ⟨b, hb, hbytes⟩
  rcases List.mem_append.1 hpayload with hdata | hzero
  · rcases List.mem_pair.1 hdata with rfl | rfl <;> exact absurd hlt (by decide)
  · rw [List.eq_of_mem_replicate hzero] at hlt
    exact absurd hlt (by decide)

/-- An image of two bytes goes there and back, in a chunk with its zeros. -/
theorem bootImage_roundTrip :
    ∃ s, Session.Reached zlib bootEnds [bootImage [1, 2]] s ∧ s.backup.pc = .returned true ∧
      ∃ s', Restores zlib willing (blocksOf s.backup.written) (.done true s') := by
  have hm : NoTrailer [bootImage [1, 2]] := by
    intro p hp b hb
    rw [List.mem_singleton.1 hp] at hb
    exact bootImage_getType hb (by decide +kernel)
  have hpeer : Takes willing [bootImage [1, 2]] := ⟨fun _ => rfl, fun _ => rfl, fun _ _ => rfl⟩
  obtain ⟨-, ⟨s, hs, hpc⟩, hback⟩ := roundTrip_spec bootImage_valid
  exact ⟨s, hs, hpc, (hback s true hs hpc hm willing hpeer).2⟩

/-- Two bytes and `TWEOF` are sent after `backup` has found the data fifo empty. -/
def lateRun : List Choice :=
  [.twrp 0 false, .backup 1, .twrp 0 false, .backup 1, .backup 1, .twrp 0 false, .twrp 2 false,
    .twrp 0 false, .twrp 0 true, .backup 1, .backup 2]

/-- The loop after `TWEOF` reads both bytes and writes one of them, without a data header. -/
theorem late_byte_lost :
    ¬ ∃ stream, Encodes zlib bootEnds [bootImage [1, 2]] stream ∧
      (lateRun.foldl (fun s c => s.step zlib bootEnds c)
        (sessionInit [bootImage [1, 2]])).backup.written <+: bytesOf stream := by
  have hwritten : (lateRun.foldl (fun s c => s.step zlib bootEnds c)
      (sessionInit [bootImage [1, 2]])).backup.written =
        bootEnds.streamHdr.bytes ++ ((bootImage [1, 2]).header.bytes ++ [1]) := by
    decide +kernel
  rw [hwritten]
  rintro ⟨_, ⟨hpieces⟩, hbegins⟩
  cases hpieces with
  | cons hpiece hnil =>
    cases hnil
    obtain @⟨chunks, padding, hsize, hdata, hpadding⟩ := hpiece
    cases chunks with
    | nil =>
      have hlen := congrArg List.length hdata
      rw [List.length_append] at hlen
      exact absurd hlen.symm (by simp [bytesOf, bootImage])
    | cons chunk chunks =>
      have hfirst : (controlBlock zlib TWDATA).bytes.head? = some 84 := by decide +kernel
      change _ <+: bootEnds.streamHdr.bytes ++ ((bootImage [1, 2]).header.bytes ++
        ((controlBlock zlib TWDATA).bytes ++ _)) at hbegins
      rw [List.prefix_append_right_inj, List.prefix_append_right_inj] at hbegins
      obtain ⟨rest, heq⟩ := hbegins
      have hhead := congrArg List.head? heq
      rw [List.head?_append, List.head?_append, hfirst] at hhead
      cases hhead

end Recovery.Adbbu
