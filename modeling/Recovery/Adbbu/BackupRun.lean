import Recovery.Adbbu.BackupStream

/-!
# What a backup writes

* `Inv` — before the stream header, between two partitions, in one, at its `TWEOF`, and at the end.
* `Inv.control`, `Inv.flush`, `Inv.data`, `Inv.extra` — one read of `backup` keeps it.
* `Session.Reached.inv` — so does every run whose steps are as they should be.
* `Inv.written_prefix`, `Inv.written_all` — what has been written is a prefix of the stream, and all
  of it at the end.

The steps of TWRP and of `backup` interleave in any order; `Ahead` is what is in the two fifos and
still to be sent, and the invariant ties it to the bytes written so far.
-/

set_option autoImplicit false

namespace Recovery.Adbbu

open Recovery.Lib

variable {cs : Checksums} {e : Ends}

/-! ## The invariant -/

def writtenAfter (cs : Checksums) (e : Ends) (ps : List Partition) : List UInt8 :=
  e.streamHdr.bytes ++ bytesOf (ps.flatMap (partBlocks cs))

/-- What TWRP has sent and is going to send. -/
structure Ahead (cs : Checksums) (e : Ends) (control : List Block) (data : List (Nat × UInt8))
    (left : Nat) (s : Session) : Prop where
  control : s.control ++ s.twrp.pendingControl cs e = control
  data : s.fifo ++ s.twrp.pendingData = data
  left : s.left = left

inductive Inv (cs : Checksums) (e : Ends) (parts : List Partition) (s : Session) : Prop where
  | fresh (hb : Between [] s.backup)
      (ha : Ahead cs e (e.streamHdr :: controlOf cs e parts) (dataOf parts) parts.length s)
  | between {ps qs : List Partition} (hparts : parts = ps ++ qs)
      (hb : Between (writtenAfter cs e ps) s.backup)
      (ha : Ahead cs e (controlOf cs e qs) (dataOf qs) qs.length s)
  | inFile {ps qs : List Partition} {p : Partition} {d r : List UInt8}
      (hparts : parts = ps ++ p :: qs) (hdata : p.data = d ++ r)
      (hb : Writing cs (writtenAfter cs e ps) p d s.backup)
      (hs : Synced d s.backup ∨ r = [] ∧ (s.backup.pc = .control ∨ s.backup.pc = .data))
      (ha : Ahead cs e (controlBlock cs TWEOF :: controlOf cs e qs)
        (tagged qs.length r ++ dataOf qs) qs.length s)
  | atEnd {ps qs : List Partition} {p : Partition} {d r : List UInt8}
      (hparts : parts = ps ++ p :: qs) (hdata : p.data = d ++ r)
      (hb : Writing cs (writtenAfter cs e ps) p d s.backup) (hpc : s.backup.pc = .flush)
      (ha : Ahead cs e (controlOf cs e qs) (tagged qs.length r ++ dataOf qs) qs.length s)
  | finished (hpc : s.backup.pc = .returned true)
      (hw : s.backup.written = bytesOf (streamBlocks cs e parts))

theorem Ahead.sends {control : List Block} {data : List (Nat × UInt8)} {left : Nat}
    {s s' : Session} (ha : Ahead cs e control data left s) (hs : Sends cs e s s') :
    Ahead cs e control data left s' :=
  ⟨hs.control.trans ha.control, hs.data.trans ha.data, hs.left.trans ha.left⟩

/-- A step of TWRP. -/
theorem Inv.sends {parts : List Partition} {s s' : Session} (h : Inv cs e parts s)
    (hs : Sends cs e s s') : Inv cs e parts s' := by
  have hb := hs.backup
  cases h with
  | fresh h1 ha => exact .fresh (hb ▸ h1) (ha.sends hs)
  | between hparts h1 ha => exact .between hparts (hb ▸ h1) (ha.sends hs)
  | inFile hparts hdata h1 h2 ha => exact .inFile hparts hdata (hb ▸ h1) (hb ▸ h2) (ha.sends hs)
  | atEnd hparts hdata h1 h2 ha => exact .atEnd hparts hdata (hb ▸ h1) (hb ▸ h2) (ha.sends hs)
  | finished h1 h2 => exact .finished (hb ▸ h1) (hb ▸ h2)

/-! ### Commands -/

theorem afterCommand_pc (b : Backup) :
    (afterCommand b).pc = .control ∨ (afterCommand b).pc = .data := enterData_pc _

theorem onCommand_streamHdr {cmd : Block} {b : Backup} (h : cmd.getType = TWSTREAMHDR) :
    onCommand cmd b =
      afterCommand { b with writedata := false, written := b.written ++ cmd.bytes } := by
  unfold onCommand
  rw [h, if_neg (by decide +kernel), if_neg (by decide +kernel), if_pos rfl]

theorem onCommand_endadb {cmd : Block} {b : Backup} (h : cmd.getType = TWENDADB) :
    onCommand cmd b =
      { b with writedata := false, written := b.written ++ cmd.bytes, pc := .returned true } := by
  unfold onCommand
  rw [h, if_neg (by decide +kernel), if_pos rfl]

theorem onCommand_tweof {cmd : Block} {b : Backup} (h : cmd.getType = TWEOF) :
    onCommand cmd b = { b with pc := .flush } := by
  unfold onCommand
  rw [h, if_neg (by decide +kernel), if_neg (by decide +kernel), if_neg (by decide +kernel),
    if_neg (by decide +kernel), if_neg (by decide +kernel), if_pos rfl]

/-- An image and a tar differ only in whether the data counts as compressed. -/
theorem onCommand_header {cmd : Block} {b : Backup} (h : cmd.getType = TWIMG ∨ cmd.getType = TWFN) :
    ∃ compressed, onCommand cmd b = afterCommand { b with
      digest := [], md5fnsize := cmd.fileSize, compressed := compressed
      written := b.written ++ cmd.bytes, writedata := true } := by
  unfold onCommand
  rcases h with h | h
  · rw [h, if_neg (by decide +kernel), if_neg (by decide +kernel), if_neg (by decide +kernel),
      if_pos rfl]
    exact ⟨false, rfl⟩
  · rw [h, if_neg (by decide +kernel), if_neg (by decide +kernel), if_neg (by decide +kernel),
      if_neg (by decide +kernel), if_pos rfl]
    exact ⟨cmd.compressed == 1, rfl⟩

theorem isFileHeader_header {b : Block} (h : b.getType = TWIMG ∨ b.getType = TWFN) :
    isFileHeader b = true := by
  simp [isFileHeader, h]

theorem isFileHeader_streamHdr {b : Block} (h : b.getType = TWSTREAMHDR) :
    isFileHeader b = false := by
  unfold isFileHeader
  rw [h]
  decide +kernel

theorem isFileHeader_tweof {b : Block} (h : b.getType = TWEOF) : isFileHeader b = false := by
  unfold isFileHeader
  rw [h]
  decide +kernel

/-! ### One read -/

theorem writtenAfter_append (ps : List Partition) (p : Partition) :
    writtenAfter cs e (ps ++ [p]) = writtenAfter cs e ps ++ bytesOf (partBlocks cs p) := by
  unfold writtenAfter
  rw [List.flatMap_append, bytesOf_append, List.append_assoc, List.flatMap_singleton]

theorem Between.goOn {w : List UInt8} {b : Backup} (hb : Between w b) {pc : BackupPc}
    (hpc : pc = .control ∨ pc = .data) : Between w { b with pc := pc } :=
  ⟨hb.written, hpc, hb.dataChunkBytes, hb.fileBytes, hb.firstDataPacket⟩

theorem Synced.goOn {d : List UInt8} {b : Backup} (hs : Synced d b)
    (hb : b.pc = .control ∨ b.pc = .data) {pc : BackupPc} (hpc : pc = .control ∨ pc = .data) :
    Synced d { b with pc := pc } := by
  refine ⟨hs.dataChunkBytes, hs.firstDataPacket, .inl ⟨hpc, ?_⟩⟩
  rcases hs.room with ⟨-, hroom⟩ | ⟨hextra, -⟩
  · exact hroom
  · rw [hextra] at hb
    rcases hb with h | h <;> cases h

/-- The function goes from one of its two main reads to another. -/
theorem Inv.goOn {parts : List Partition} {s : Session} (h : Inv cs e parts s)
    (hb : s.backup.pc = .control ∨ s.backup.pc = .data) {pc : BackupPc}
    (hpc : pc = .control ∨ pc = .data) :
    Inv cs e parts { s with backup := { s.backup with pc := pc } } := by
  cases h with
  | fresh h1 ha => exact .fresh (h1.goOn hpc) { ha with }
  | between hparts h1 ha => exact .between hparts (h1.goOn hpc) { ha with }
  | inFile hparts hdata h1 hs ha =>
    refine .inFile hparts hdata { h1 with } ?_ { ha with }
    rcases hs with hs | ⟨hr, -⟩
    · exact .inl (hs.goOn hb hpc)
    · exact .inr ⟨hr, hpc⟩
  | atEnd hparts hdata h1 h2 ha =>
    rw [h2] at hb
    rcases hb with h | h <;> cases h
  | finished h1 h2 =>
    rw [h1] at hb
    rcases hb with h | h <;> cases h

/-- A structure from the control fifo. -/
theorem Inv.control {parts : List Partition} {s : Session} (hv : Valid cs e parts)
    (h : Inv cs e parts s) (hpc : s.backup.pc = .control) (k : Nat) :
    Inv cs e parts (s.backupStep cs k) := by
  unfold Session.backupStep
  rw [hpc]
  dsimp only
  split
  · exact h.goOn (.inl hpc) (enterData_pc s.backup)
  · rename_i cmd control hc
    -- the structure is the next one that was to come
    have hnext {head : Block} {tail : List Block}
        (ha : s.control ++ s.twrp.pendingControl cs e = head :: tail) :
        cmd = head ∧ control ++ s.twrp.pendingControl cs e = tail := by
      rw [hc, List.cons_append] at ha
      exact List.cons.inj ha
    cases h with
    | fresh hb ha =>
      obtain ⟨rfl, htail⟩ := hnext ha.control
      rw [onControl, onCommand_streamHdr hv.streamHdr_type,
        isFileHeader_streamHdr hv.streamHdr_type]
      refine .between (List.nil_append _).symm ?_ ⟨htail, ha.data, ha.left⟩
      refine ⟨?_, afterCommand_pc _, rfl, hb.fileBytes, hb.firstDataPacket⟩
      show s.backup.written ++ e.streamHdr.bytes = _
      rw [hb.written]
      exact (List.append_nil _).symm
    | @between ps qs hparts hb ha =>
      cases qs with
      | nil =>
        obtain ⟨rfl, htail⟩ := hnext ha.control
        rw [onControl, onCommand_endadb hv.endadb_type]
        refine .finished rfl ?_
        show s.backup.written ++ e.endadb.bytes = _
        rw [hb.written, hparts, List.append_nil, writtenAfter, streamBlocks, List.cons_append]
        show _ = e.streamHdr.bytes ++ bytesOf (_ ++ [e.endadb])
        rw [bytesOf_append, List.append_assoc]
        simp [bytesOf]
      | cons p qs =>
        obtain ⟨rfl, htail⟩ := hnext ha.control
        have hmem : p ∈ parts := by
          rw [hparts]
          exact List.mem_append_right _ List.mem_cons_self
        obtain ⟨compressed, hcmd⟩ := onCommand_header (b := s.backup) (hv.header_type p hmem)
        rw [onControl, hcmd, isFileHeader_header (hv.header_type p hmem)]
        refine .inFile (d := []) (r := p.data) hparts rfl ?_ (.inl ?_) ⟨htail, ha.data, ?_⟩
        · refine ⟨?_, rfl, hb.fileBytes, rfl⟩
          show s.backup.written ++ p.header.bytes = _
          rw [hb.written]
          exact (List.append_nil _).symm
        · refine ⟨rfl, hb.firstDataPacket, .inl ⟨afterCommand_pc _, ?_⟩⟩
          decide
        · show s.left - 1 = _
          rw [ha.left, List.length_cons, Nat.add_sub_cancel]
    | inFile hparts hdata hb hs ha =>
      obtain ⟨rfl, htail⟩ := hnext ha.control
      rw [onControl, onCommand_tweof (getType_tweof cs), isFileHeader_tweof (getType_tweof cs)]
      exact .atEnd hparts hdata { hb with } rfl ⟨htail, ha.data, ha.left⟩
    | atEnd hparts hdata hb h2 ha =>
      rw [hpc] at h2
      cases h2
    | finished h1 h2 =>
      rw [hpc] at h1
      cases h1

/-- The end of a partition: its padding and its trailer. -/
theorem Inv.flush {parts : List Partition} {s : Session} (h : Inv cs e parts s)
    (hpc : s.backup.pc = .flush) (hfifo : s.fifo = []) (hw : s.twrp.writer = false) (k : Nat) :
    Inv cs e parts (s.backupStep cs k) := by
  unfold Session.backupStep
  rw [hpc]
  dsimp only
  unfold Session.readFifo
  rw [if_pos hfifo, hw]
  dsimp only
  have hdrop {pc : BackupPc} (hb : pc = .control ∨ pc = .data) : pc ≠ .flush := by
    rintro rfl
    rcases hb with h | h <;> cases h
  cases h with
  | fresh hb ha => exact absurd hpc (hdrop hb.pc)
  | between hparts hb ha => exact absurd hpc (hdrop hb.pc)
  | inFile hparts hdata hb hs ha =>
    rcases hs with hs | ⟨-, hs⟩
    · rcases hs.room with ⟨hs, -⟩ | ⟨hextra, -⟩
      · exact absurd hpc (hdrop hs)
      · rw [hpc] at hextra
        cases hextra
    · exact absurd hpc (hdrop hs)
  | @atEnd ps qs p d r hparts hdata hb h2 ha =>
    have hdata' := ha.data
    rw [hfifo, List.nil_append] at hdata'
    obtain rfl := nil_of_flush ha.control hdata'
    rw [List.append_nil] at hdata
    have hparts' : parts = ps ++ [p] ++ qs := by
      rw [hparts, List.append_assoc, List.singleton_append]
    refine .between hparts' ?_ ⟨ha.control, ha.data, ha.left⟩
    refine ⟨?_, afterCommand_pc _, rfl, rfl, rfl⟩
    rw [writtenAfter_append, bytesOf_partBlocks]
    show s.backup.written ++ List.replicate (paddingBytes s.backup.fileBytes) 0 ++
      (md5Trailer cs (s.backup.digest ++ _) s.backup.md5fnsize).bytes = _
    rw [hb.written, hb.fileBytes, hb.digest, hb.md5fnsize, ← hdata, paddingBytes_framed, payload]
    simp only [List.append_assoc]
  | finished h1 h2 =>
    rw [hpc] at h1
    cases h1

/-- Between two partitions the fifo has no data with the tag of the last one. -/
theorem no_data_between {fifo rest : List (Nat × UInt8)} {ps : List Partition} {c : Nat}
    (hd : fifo ++ rest = dataOf ps) (hne : fifo ≠ []) (hc : 0 < c)
    (htag : ∀ x ∈ fifo.take c, x.1 = ps.length) : False := by
  cases fifo with
  | nil => exact hne rfl
  | cons x fifo =>
    have hmem : x ∈ (x :: fifo).take c := by
      obtain ⟨c, rfl⟩ := Nat.exists_eq_succ_of_ne_zero (Nat.ne_of_gt hc)
      rw [List.take_succ_cons]
      exact List.mem_cons_self
    have hlt : x.1 < ps.length := by
      apply tag_lt_of_mem_dataOf
      rw [← hd]
      exact List.mem_append_left _ List.mem_cons_self
    rw [htag x hmem] at hlt
    exact Nat.lt_irrefl _ hlt

/-- A read of the data loop. -/
theorem Inv.data {parts : List Partition} {s : Session} (h : Inv cs e parts s)
    (hpc : s.backup.pc = .data) {k : Nat}
    (htag : ∀ x ∈ s.fifo.take (s.readCount k MAX_ADB_READ), x.1 = s.left) :
    Inv cs e parts (s.backupStep cs k) := by
  unfold Session.backupStep
  rw [hpc]
  dsimp only
  unfold Session.readFifo
  by_cases hfifo : s.fifo = []
  · rw [if_pos hfifo]
    cases s.twrp.writer
    · exact h.goOn (.inr hpc) (.inl rfl)
    · exact h.goOn (.inr hpc) (.inl rfl)
  · rw [if_neg hfifo]
    dsimp only
    obtain ⟨hpos, hle, hlen⟩ := readCount_bounds (k := k) (n := MAX_ADB_READ) (by decide) hfifo
    obtain ⟨c, hc⟩ : ∃ c, c = s.readCount k MAX_ADB_READ := ⟨_, rfl⟩
    rw [← hc] at htag hpos hle hlen ⊢
    have hbs : ((s.fifo.take c).map Prod.snd).length = c := by
      rw [List.length_map, List.length_take, Nat.min_eq_left hlen]
    cases h with
    | fresh hb ha => exact (no_data_between ha.data hfifo hpos (ha.left ▸ htag)).elim
    | between hparts hb ha => exact (no_data_between ha.data hfifo hpos (ha.left ▸ htag)).elim
    | @inFile ps qs p d r hparts hdata hb hs ha =>
      obtain ⟨r', hr, hdrop⟩ := take_tagged ha.data (fun x hx => tag_lt_of_mem_dataOf hx) hlen
        (ha.left ▸ htag)
      have hne : (s.fifo.take c).map Prod.snd ≠ [] := by
        apply List.ne_nil_of_length_pos
        rw [hbs]
        exact hpos
      rcases hs with hs | ⟨hnil, -⟩
      · obtain ⟨hw, hsync⟩ := dataRead_bytes hb hs hpc hne (by rw [hbs]; exact hle)
        refine .inFile hparts ?_ hw (.inl hsync) ⟨ha.control, hdrop, ha.left⟩
        rw [hdata, hr, List.append_assoc]
      · rw [hnil] at hr
        exact absurd (List.append_eq_nil_iff.1 hr.symm).1 hne
    | atEnd hparts hdata hb h2 ha =>
      rw [hpc] at h2
      cases h2
    | finished h1 h2 =>
      rw [hpc] at h1
      cases h1

/-- A read of the loop that fills up a chunk. -/
theorem Inv.extra {parts : List Partition} {s : Session} (h : Inv cs e parts s)
    (ht : s.twrp.parts <:+ parts) {bytesLeft : Nat} (hpc : s.backup.pc = .extra bytesLeft) {k : Nat}
    (htag : ∀ x ∈ s.fifo.take (s.readCount k bytesLeft), x.1 = s.left) :
    Inv cs e parts (s.backupStep cs k) := by
  have hmain {pc : BackupPc} (hb : pc = .control ∨ pc = .data) : pc ≠ .extra bytesLeft := by
    rintro rfl
    rcases hb with h | h <;> cases h
  have hold := h
  cases h with
  | fresh hb ha => exact absurd hpc (hmain hb.pc)
  | between hparts hb ha => exact absurd hpc (hmain hb.pc)
  | @inFile ps qs p d r hparts hdata hb hs ha =>
    rcases hs with hs | ⟨-, hs⟩
    · obtain ⟨hleft, h0⟩ : bytesLeft = CHUNK_DATA - d.length % CHUNK_DATA ∧
          d.length % CHUNK_DATA ≠ 0 := by
        rcases hs.room with ⟨hs, -⟩ | ⟨hextra, h0⟩
        · exact absurd hpc (hmain hs)
        · rw [hpc] at hextra
          exact ⟨BackupPc.extra.inj hextra, h0⟩
      unfold Session.backupStep
      rw [hpc]
      dsimp only
      unfold Session.readFifo
      by_cases hfifo : s.fifo = []
      · rw [if_pos hfifo]
        cases hw : s.twrp.writer with
        | true => exact hold
        | false =>
          -- the chunk stays short, so it has to be the last one
          have hne : d ≠ [] := by
            rintro rfl
            exact h0 rfl
          have hd := ha.data
          rw [hfifo, List.nil_append] at hd
          obtain rfl := nil_of_closed hw ha.control hd ht ⟨ps, hparts.symm⟩ hdata hne
          exact .inFile hparts hdata { hb with } (.inr ⟨rfl, .inr rfl⟩) { ha with }
      · rw [if_neg hfifo]
        dsimp only
        have hmod : d.length % CHUNK_DATA < CHUNK_DATA := Nat.mod_lt _ (by decide)
        obtain ⟨hpos, hle, hlen⟩ := readCount_bounds (k := k) (n := bytesLeft) (by lia) hfifo
        obtain ⟨c, hc⟩ : ∃ c, c = s.readCount k bytesLeft := ⟨_, rfl⟩
        rw [← hc] at htag hpos hle hlen ⊢
        obtain ⟨r', hr, hdrop⟩ := take_tagged ha.data (fun x hx => tag_lt_of_mem_dataOf hx) hlen
          (ha.left ▸ htag)
        have hbs : ((s.fifo.take c).map Prod.snd).length ≤ bytesLeft := by
          rw [List.length_map, List.length_take, Nat.min_eq_left hlen]
          exact hle
        obtain ⟨hw, hsync⟩ := extraRead_bytes hb hs hpc hbs
        refine .inFile hparts ?_ hw (.inl hsync) ⟨ha.control, hdrop, ha.left⟩
        rw [hdata, hr, List.append_assoc]
    · exact absurd hpc (hmain hs)
  | atEnd hparts hdata hb h2 ha =>
    rw [hpc] at h2
    cases h2
  | finished h1 h2 =>
    rw [hpc] at h1
    cases h1

/-! ## Runs -/

theorem backupStep_twrp (k : Nat) (s : Session) : (s.backupStep cs k).twrp = s.twrp := by
  unfold Session.backupStep Session.readFifo
  split
  · split <;> rfl
  · by_cases hfifo : s.fifo = [] <;> simp [hfifo]
  · by_cases hfifo : s.fifo = [] <;> simp [hfifo]
  · by_cases hfifo : s.fifo = [] <;> simp [hfifo]
  · rfl

theorem Inv.step {parts : List Partition} {s : Session} (hv : Valid cs e parts)
    (h : Inv cs e parts s) (ht : s.twrp.parts <:+ parts) {c : Choice} (hok : s.StepOk c) :
    Inv cs e parts (s.step cs e c) ∧ (s.step cs e c).twrp.parts <:+ parts := by
  cases c with
  | twrp k b =>
    have hsends := twrpStep_sends cs e k b s
    exact ⟨h.sends hsends, hsends.parts.trans ht⟩
  | backup k =>
    refine ⟨?_, ?_⟩
    · unfold Session.StepOk at hok
      show Inv cs e parts (s.backupStep cs k)
      cases hpc : s.backup.pc with
      | control => exact h.control hv hpc k
      | flush =>
        rw [hpc] at hok
        exact h.flush hpc hok.1 hok.2 k
      | data =>
        rw [hpc] at hok
        exact h.data hpc hok
      | extra bytesLeft =>
        rw [hpc] at hok
        exact h.extra ht hpc hok
      | returned result =>
        unfold Session.backupStep
        rw [hpc]
        exact h
    · show (s.backupStep cs k).twrp.parts <:+ parts
      rw [backupStep_twrp]
      exact ht

/-- **Every state of a run whose steps are as they should be keeps the invariant.** -/
theorem Session.Reached.inv {parts : List Partition} {s : Session} (hv : Valid cs e parts)
    (h : Session.Reached cs e parts s) : Inv cs e parts s ∧ s.twrp.parts <:+ parts := by
  induction h with
  | init =>
    refine ⟨.fresh ⟨rfl, .inl rfl, rfl, rfl, rfl⟩ ⟨rfl, rfl, rfl⟩, List.suffix_rfl⟩
  | step _ c hok ih => exact ih.1.step hv ih.2 hok

/-! ## What was written -/

theorem bytesOf_streamBlocks (ps qs : List Partition) :
    bytesOf (streamBlocks cs e (ps ++ qs)) =
      writtenAfter cs e ps ++ (bytesOf (qs.flatMap (partBlocks cs)) ++ e.endadb.bytes) := by
  unfold streamBlocks writtenAfter
  rw [List.flatMap_append, List.cons_append]
  show e.streamHdr.bytes ++ bytesOf (_ ++ [e.endadb]) = _
  rw [bytesOf_append, bytesOf_append]
  simp [bytesOf]

/-- The data so far, with its headers, is a prefix of the partition. -/
theorem prefix_framed {p : Partition} {d r : List UInt8} (hdata : p.data = d ++ r) :
    p.header.bytes ++ framedFrom cs 0 d <+: bytesOf (partBlocks cs p) := by
  rw [bytesOf_partBlocks, hdata, framedFrom_append]
  simp only [List.append_assoc]
  rw [List.prefix_append_right_inj]
  exact List.prefix_append _ _

theorem writtenAfter_prefix {parts ps qs : List Partition} {p : Partition} {d r : List UInt8}
    (hparts : parts = ps ++ p :: qs) (hdata : p.data = d ++ r) :
    writtenAfter cs e ps ++ p.header.bytes ++ framedFrom cs 0 d <+:
      bytesOf (streamBlocks cs e parts) := by
  rw [hparts, bytesOf_streamBlocks, List.append_assoc, List.prefix_append_right_inj,
    List.flatMap_cons, bytesOf_append, List.append_assoc]
  exact (prefix_framed hdata).trans (List.prefix_append _ _)

theorem Inv.written_prefix {parts : List Partition} {s : Session} (h : Inv cs e parts s) :
    s.backup.written <+: bytesOf (streamBlocks cs e parts) := by
  cases h with
  | fresh hb ha =>
    rw [hb.written]
    exact List.nil_prefix
  | between hparts hb ha =>
    rw [hb.written, hparts, bytesOf_streamBlocks]
    exact List.prefix_append _ _
  | inFile hparts hdata hb hs ha =>
    rw [hb.written]
    exact writtenAfter_prefix hparts hdata
  | atEnd hparts hdata hb h2 ha =>
    rw [hb.written]
    exact writtenAfter_prefix hparts hdata
  | finished h1 h2 =>
    exact ⟨[], by rw [List.append_nil, h2]⟩

theorem Inv.written_all {parts : List Partition} {s : Session} (h : Inv cs e parts s)
    {result : Bool} (hpc : s.backup.pc = .returned result) :
    result = true ∧ s.backup.written = bytesOf (streamBlocks cs e parts) := by
  have hmain (hb : s.backup.pc = .control ∨ s.backup.pc = .data) : False := by
    rw [hpc] at hb
    rcases hb with h | h <;> cases h
  cases h with
  | fresh hb ha => exact (hmain hb.pc).elim
  | between hparts hb ha => exact (hmain hb.pc).elim
  | inFile hparts hdata hb hs ha =>
    rcases hs with hs | ⟨-, hs⟩
    · rcases hs.room with ⟨hs, -⟩ | ⟨hextra, -⟩
      · exact (hmain hs).elim
      · rw [hpc] at hextra
        cases hextra
    · exact (hmain hs).elim
  | atEnd hparts hdata hb h2 ha =>
    rw [hpc] at h2
    cases h2
  | finished h1 h2 =>
    rw [hpc] at h1
    exact ⟨BackupPc.returned.inj h1, h2⟩

end Recovery.Adbbu
