import Recovery.Adbbu.BackupStream
import Recovery.Adbbu.Delivery

/-!
# What a restore delivers

* `Received`, `Delivers`, `Restored` — what TWRP is to get for a partition, for some of them, and
  for a whole stream.
* `Takes` — TWRP takes the structures, and of each partition at least the data.
* `CmdOk`, `Restores` — the rounds of `restore`, with commands that come when they should.
* `RInv` — at the stream header, between two partitions, in one, at its end, and after the last.
* `RInv.body`, `RInv.command` — a round keeps it.
* `Restores.delivered` — what was delivered is a prefix of what TWRP is to get, and all of it when
  the function returns.

The commands of TWRP and the blocks of the stream come in any order that the two sides allow;
`Restores` is such an order, round by round.
-/

set_option autoImplicit false

namespace Recovery.Adbbu

open Recovery.Lib

variable {cs : Checksums} {e : Ends} {peer : Peer}

/-! ## What TWRP gets -/

/-- A partition: its header, its data followed by zeros, and two structures with one digest, that
of the stream and that of what was restored. -/
inductive Received (p : Partition) : List Sent → Prop
  | mk {blocks : List Block} {padding : Nat} {trailer verify : Block}
      (hdata : bytesOf blocks = p.data ++ List.replicate padding 0)
      (htrailer : trailer.getType = MD5TRAILER) (hverify : verify.getType = TWMD5)
      (hmatch : verify.field 32 40 = trailer.field 32 40) :
      Received p (.control p.header :: .openData :: blocks.map .data ++
        [.control trailer, .control verify])

inductive Delivers : List Partition → List Sent → Prop
  | nil : Delivers [] []
  | snoc {ps : List Partition} {p : Partition} {l l' : List Sent} (h : Delivers ps l)
      (hp : Received p l') : Delivers (ps ++ [p]) (l ++ l')

/-- Everything that is to be sent for a stream. -/
def Restored (e : Ends) (parts : List Partition) (sent : List Sent) : Prop :=
  ∃ l, Delivers parts l ∧
    sent = .control e.streamHdr :: l ++ [.control (e.endadb.clear32 24)]

/-- What was sent, without the places where the data fifo is closed. -/
def delivered (sent : List Sent) : List Sent := sent.filter (· ≠ .closeData)

/-- The data that was sent since the data fifo was opened last. -/
def lastData (sent : List Sent) : List Block :=
  sent.foldl (fun blocks x => match x with
    | .openData => []
    | .data b => blocks ++ [b]
    | .control _ | .closeData => blocks) []

/-- TWRP has not got all the data of the partition yet. -/
def Wants (parts : List Partition) (sent : List Sent) : Prop :=
  ∃ p, parts[sent.count .openData - 1]? = some p ∧
    MAX_ADB_READ * (lastData sent).length < p.data.length

/-- TWRP takes what it needs; it may stop reading a partition in the padding. -/
structure Takes (peer : Peer) (parts : List Partition) : Prop where
  controlWrite : ∀ sent, peer.controlWrite sent = true
  dataOpen : ∀ sent, peer.dataOpen sent = true
  dataWrite : ∀ sent, Wants parts sent → peer.dataWrite sent = true

/-! ## Runs -/

/-- A command that comes when it should: `TWEOF` not in front of a chunk of data, `TWENDADB` after
the end of the stream. -/
def CmdOk (cmd : Option Block) (s : Restore) : Prop :=
  ∀ c, cmd = some c →
    c.getType ≠ TWERROR ∧ (c.getType = TWENDADB → s.stream = []) ∧
      (c.getType = TWEOF → ∀ b rest, s.stream = b :: rest → b.getType ≠ TWDATA)

/-- The outcomes of the rounds of `restore` on a stream. -/
inductive Restores (cs : Checksums) (peer : Peer) (stream : List Block) : Outcome → Prop
  | init (junk : Bool × Bool) : Restores cs peer stream (.again (restoreInit stream junk))
  | step {s : Restore} (h : Restores cs peer stream (.again s)) (cmd : Option Block)
      (hok : CmdOk cmd s) : Restores cs peer stream (restoreStep cs peer cmd s)

/-- No block of the data has the trailer's type. -/
def NoTrailer (parts : List Partition) : Prop :=
  ∀ p ∈ parts, ∀ b ∈ payloadBlocks p.data, b.getType ≠ MD5TRAILER

/-! ## What was sent so far -/

/-- `n` times the data fifo was opened, `blocks` were written since. -/
structure Told (n : Nat) (blocks : List Block) (l sent : List Sent) : Prop where
  all : delivered sent = l
  opened : sent.count .openData = n
  last : lastData sent = blocks

section

variable {n : Nat} {blocks : List Block} {l sent : List Sent}

theorem Told.control (h : Told n blocks l sent) (b : Block) :
    Told n blocks (l ++ [.control b]) (sent ++ [.control b]) := by
  refine ⟨?_, ?_, ?_⟩
  · rw [delivered, List.filter_append, ← h.all]
    rfl
  · rw [List.count_append, h.opened]
    rfl
  · rw [lastData, List.foldl_append, ← h.last]
    rfl

theorem Told.open (h : Told n blocks l sent) :
    Told (n + 1) [] (l ++ [.openData]) (sent ++ [.openData]) := by
  refine ⟨?_, ?_, ?_⟩
  · rw [delivered, List.filter_append, ← h.all]
    rfl
  · rw [List.count_append, h.opened]
    rfl
  · rw [lastData, List.foldl_append]
    rfl

theorem Told.close (h : Told n blocks l sent) {more : List Sent}
    (hmore : more = [] ∨ more = [.closeData]) : Told n blocks l (sent ++ more) := by
  rcases hmore with rfl | rfl
  · rw [List.append_nil]
    exact h
  · refine ⟨?_, ?_, ?_⟩
    · rw [delivered, List.filter_append, ← h.all]
      exact List.append_nil _
    · rw [List.count_append, h.opened]
      rfl
    · rw [lastData, List.foldl_append, ← h.last]
      rfl

theorem Told.datum (h : Told n blocks l sent) (b : Block) :
    Told n (blocks ++ [b]) (l ++ [.data b]) (sent ++ [.data b]) := by
  refine ⟨?_, ?_, ?_⟩
  · rw [delivered, List.filter_append, ← h.all]
    rfl
  · rw [List.count_append, h.opened]
    rfl
  · rw [lastData, List.foldl_append, ← h.last]
    rfl

theorem Told.data (h : Told n blocks l sent) (more : List Block) :
    Told n (blocks ++ more) (l ++ more.map .data) (sent ++ more.map .data) := by
  induction more generalizing blocks l sent with
  | nil => simpa using h
  | cons b more ih => simpa using ih (h.datum b)

end

/-! ## The invariant -/

/-- The stream from a partition on. -/
def streamFrom (cs : Checksums) (e : Ends) (qs : List Partition) : List Block :=
  qs.flatMap (partBlocks cs) ++ [e.endadb]

/-- What was sent for the stream header, some partitions, and the one that is open. -/
def sentFor (e : Ends) (l : List Sent) (p : Partition) (blocks : List Block) : List Sent :=
  .control e.streamHdr :: l ++ .control p.header :: .openData :: blocks.map .data

inductive RInv (cs : Checksums) (e : Ends) (parts : List Partition) (s : Restore) : Prop where
  | fresh (hstream : s.stream = streamBlocks cs e parts) (ht : Told 0 [] [] s.sent)
  | head {ps qs : List Partition} {l : List Sent} {blocks : List Block}
      (hparts : parts = ps ++ qs) (hstream : s.stream = streamFrom cs e qs)
      (hl : Delivers ps l) (ht : Told ps.length blocks (.control e.streamHdr :: l) s.sent)
  | inFile {ps qs : List Partition} {p : Partition} {l : List Sent} {blocks todo : List Block}
      (hparts : parts = ps ++ p :: qs) (hblocks : payloadBlocks p.data = blocks ++ todo)
      (htodo : todo ≠ []) (hmod : todo.length % CHUNK_BLOCKS = 0)
      (hstream : s.stream = inChunks cs todo ++
        md5Trailer cs (payload p.data) p.header.fileSize :: streamFrom cs e qs)
      (hl : Delivers ps l) (ht : Told (ps.length + 1) blocks (sentFor e l p blocks) s.sent)
      (hread : s.readFromAdb = true) (hfd : s.writeFd = true) (hchunk : s.dataChunkBytes = 0)
      (hdigest : s.digest = bytesOf blocks) (hsize : s.md5fnsize = p.header.fileSize)
  | atTrailer {ps qs : List Partition} {p : Partition} {l : List Sent} {blocks : List Block}
      {padding n : Nat} (hparts : parts = ps ++ p :: qs)
      (hblocks : bytesOf blocks = p.data ++ List.replicate padding 0)
      (hstream : s.stream = List.replicate n Block.zero ++
        md5Trailer cs (payload p.data) p.header.fileSize :: streamFrom cs e qs)
      (hl : Delivers ps l) (ht : Told (ps.length + 1) blocks (sentFor e l p blocks) s.sent)
      (hread : s.readFromAdb = true) (hmd5 : n = 0 ∨ s.md5sumdata = true)
      (hdigest : s.digest ++ bytesOf (List.replicate n Block.zero) = payload p.data)
      (hsize : s.md5fnsize = p.header.fileSize)
  | finished {l : List Sent} {blocks : List Block} (hstream : s.stream = [])
      (hl : Delivers parts l)
      (ht : Told parts.length blocks
        (.control e.streamHdr :: l ++ [.control (e.endadb.clear32 24)]) s.sent)

/-- The chunks of a partition start with a data header. -/
theorem inChunks_cons {todo : List Block} (h : todo ≠ []) :
    inChunks cs todo = controlBlock cs TWDATA :: (todo.take CHUNK_BLOCKS ++
      inChunks cs (todo.drop CHUNK_BLOCKS)) := by
  cases todo with
  | nil => exact absurd rfl h
  | cons b todo =>
    rw [inChunks]
    rfl

/-- `TWEOF` and the flags have no part in the invariant, but for the open data fifo. -/
theorem RInv.close {parts : List Partition} {s : Restore} (h : RInv cs e parts s)
    (hnext : ∀ b rest, s.stream = b :: rest → b.getType ≠ TWDATA) {more : List Sent}
    (hmore : more = [] ∨ more = [.closeData]) (fd tweofrcvd : Bool) :
    RInv cs e parts { s with
      writeFd := fd, readFromAdb := true, tweofrcvd := tweofrcvd
      sent := s.sent ++ more } := by
  cases h with
  | fresh hstream ht => exact .fresh hstream (ht.close hmore)
  | head hparts hstream hl ht => exact .head hparts hstream hl (ht.close hmore)
  | inFile hparts hblocks htodo hmod hstream hl ht hread hfd hchunk hdigest hsize =>
    rw [inChunks_cons htodo] at hstream
    exact absurd (getType_twdata cs) (hnext _ _ hstream)
  | atTrailer hparts hblocks hstream hl ht hread hmd5 hdigest hsize =>
    exact .atTrailer hparts hblocks hstream hl (ht.close hmore) rfl hmd5 hdigest hsize
  | finished hstream hl ht => exact .finished hstream hl (ht.close hmore)

/-- A command. -/
theorem RInv.command {parts : List Partition} {s : Restore} (h : RInv cs e parts s) {cmd : Block}
    (hok : CmdOk (some cmd) s) :
    (∃ s', readCommand cmd s = .again s' ∧ RInv cs e parts s') ∨
      readCommand cmd s = .done true s ∧ s.stream = [] := by
  obtain ⟨herror, hend, heof⟩ := hok cmd rfl
  unfold readCommand
  split
  · rename_i ht
    left
    obtain ⟨more, fd, hmore, hclose⟩ :=
      closeData_eq { s with readFromAdb := true, tweofrcvd := true }
    refine ⟨_, rfl, ?_⟩
    rw [hclose]
    exact h.close (heof ht) hmore fd true
  · split
    · rename_i ht
      exact .inr ⟨rfl, hend ht⟩
    · exact .inl ⟨s, rfl, h⟩

/-! ### One round -/

theorem getType_bareTrailer (digest : List UInt8) :
    (bareTrailer cs digest).getType = MD5TRAILER := by
  unfold bareTrailer
  rw [Block.getType_put (by rw [length_strncpy]; decide) (by decide)]
  decide +kernel

theorem getType_md5Verify (digest : List UInt8) : (md5Verify cs digest).getType = TWMD5 := by
  unfold md5Verify
  rw [Block.getType_put (by rw [length_strncpy]; decide) (by decide)]
  decide +kernel

/-- The stream of a partition. -/
theorem streamFrom_cons (p : Partition) (qs : List Partition) :
    streamFrom cs e (p :: qs) = p.header :: (inChunks cs (payloadBlocks p.data) ++
      md5Trailer cs (payload p.data) p.header.fileSize :: streamFrom cs e qs) := by
  simp [streamFrom, partBlocks]

/-- The header of a partition was sent and the data fifo opened. -/
theorem Told.header {n : Nat} {blocks : List Block} {l sent : List Sent} {p : Partition}
    (ht : Told n blocks (.control e.streamHdr :: l) sent) :
    Told (n + 1) [] (sentFor e l p []) (sent ++ [.control p.header, .openData]) := by
  have hopen := (ht.control p.header).open
  rw [List.append_assoc, List.append_assoc] at hopen
  exact hopen

theorem Told.passed {n : Nat} {blocks : List Block} {l sent : List Sent} {p : Partition}
    (ht : Told n blocks (sentFor e l p blocks) sent) (more : List Block) :
    Told n (blocks ++ more) (sentFor e l p (blocks ++ more)) (sent ++ more.map .data) := by
  have hdata := ht.data more
  have hsent : sentFor e l p (blocks ++ more) = sentFor e l p blocks ++ more.map .data := by
    simp [sentFor]
  rw [hsent]
  exact hdata

variable (cs e peer) in
/-- A round on the stream does not fail, keeps the invariant and reads something. -/
def GoesOn (parts : List Partition) (s : Restore) : Prop :=
  ∃ s', restoreBody cs peer s = .again s' ∧ RInv cs e parts s' ∧
    (s.stream ≠ [] → s'.stream.length < s.stream.length)

/-- The header of a partition. -/
theorem RInv.header {parts ps qs : List Partition} {p : Partition} {s : Restore} {l : List Sent}
    {blocks : List Block} (hv : Valid cs e parts) (hpeer : Takes peer parts)
    (hparts : parts = ps ++ p :: qs) (hstream : s.stream = streamFrom cs e (p :: qs))
    (hl : Delivers ps l) (ht : Told ps.length blocks (.control e.streamHdr :: l) s.sent) :
    GoesOn cs e peer parts s := by
  have hmem : p ∈ parts := by
    rw [hparts]
    exact List.mem_append_right _ List.mem_cons_self
  rw [streamFrom_cons] at hstream
  refine ⟨_, restoreBody_header hstream (hv.header_type p hmem) (hv.header_crc p hmem)
    hpeer.controlWrite hpeer.dataOpen, ?_, fun _ => by simp [hstream]⟩
  obtain ⟨hmod, hbytes⟩ := length_payloadBlocks p.data
  by_cases hnil : payloadBlocks p.data = []
  · -- no data at all
    rw [hnil] at hbytes hstream
    have hdata : p.data = [] := (List.append_eq_nil_iff.1 hbytes.symm).1
    have hblocks : bytesOf [] = p.data ++ List.replicate 0 0 := by
      rw [hdata]
      rfl
    refine .atTrailer (n := 0) hparts hblocks ?_ hl ht.header rfl (.inl rfl) ?_ rfl
    · rw [hnil, inChunks]
      rfl
    · exact hbytes
  · exact .inFile hparts (List.nil_append _).symm hnil hmod rfl hl ht.header rfl rfl rfl rfl rfl

/-- A chunk of data. -/
theorem RInv.chunk {parts ps qs : List Partition} {p : Partition} {s : Restore} {l : List Sent}
    {blocks todo : List Block} (hpeer : Takes peer parts) (hm : NoTrailer parts)
    (hparts : parts = ps ++ p :: qs) (hblocks : payloadBlocks p.data = blocks ++ todo)
    (htodo : todo ≠ []) (hmod : todo.length % CHUNK_BLOCKS = 0)
    (hstream : s.stream = inChunks cs todo ++
      md5Trailer cs (payload p.data) p.header.fileSize :: streamFrom cs e qs)
    (hl : Delivers ps l) (ht : Told (ps.length + 1) blocks (sentFor e l p blocks) s.sent)
    (hfd : s.writeFd = true) (hchunk : s.dataChunkBytes = 0)
    (hdigest : s.digest = bytesOf blocks) (hsize : s.md5fnsize = p.header.fileSize) :
    GoesOn cs e peer parts s := by
  have hmem : p ∈ parts := by
    rw [hparts]
    exact List.mem_append_right _ List.mem_cons_self
  have hpos := List.length_pos_of_ne_nil htodo
  have hlen : (todo.take CHUNK_BLOCKS).length = CHUNK_BLOCKS := by
    rw [List.length_take]
    unfold CHUNK_BLOCKS at hmod ⊢
    lia
  have hdrop : (todo.drop CHUNK_BLOCKS).length = todo.length - CHUNK_BLOCKS := List.length_drop
  have hsplit : todo.take CHUNK_BLOCKS ++ todo.drop CHUNK_BLOCKS = todo := List.take_append_drop ..
  obtain ⟨now, hnow⟩ : ∃ now, now = todo.take CHUNK_BLOCKS := ⟨_, rfl⟩
  obtain ⟨later, hlater⟩ : ∃ later, later = todo.drop CHUNK_BLOCKS := ⟨_, rfl⟩
  rw [inChunks_cons htodo, List.cons_append, List.append_assoc] at hstream
  rw [← hnow] at hlen hsplit hstream
  rw [← hlater] at hdrop hsplit hstream
  have hbytes := (length_payloadBlocks p.data).2
  have hne : now ≠ [] := by
    rintro rfl
    exact absurd hlen (by decide)
  have htype (b : Block) (hb : b ∈ now) : b.getType ≠ MD5TRAILER := by
    apply hm p hmem
    rw [hblocks, ← hsplit]
    exact List.mem_append_right _ (List.mem_append_left _ hb)
  obtain ⟨tail, htail⟩ : ∃ tail, tail = inChunks cs later ++
      md5Trailer cs (payload p.data) p.header.fileSize :: streamFrom cs e qs := ⟨_, rfl⟩
  rw [← htail] at hstream
  obtain ⟨u, hu⟩ : ∃ u, u = { s with
      stream := now ++ tail, dataChunkBytes := s.dataChunkBytes + MAX_ADB_READ } := ⟨_, rfl⟩
  have hbody : restoreBody cs peer s = dataLoop cs peer (now ++ tail) u := by
    rw [restoreBody_data hstream (getType_twdata cs), hu]
  have hfull : u.dataChunkBytes + MAX_ADB_READ * now.length = DATA_MAX_CHUNK_SIZE := by
    rw [hu]
    dsimp only
    rw [hchunk, hlen]
    rfl
  have hufd : u.writeFd = true := by
    rw [hu]
    exact hfd
  obtain ⟨s', heq, hsize', hread, hcase⟩ := dataLoop_chunk cs peer tail hufd hne htype hfull
  rw [hu] at hsize' hcase
  dsimp only at hsize' hcase
  unfold GoesOn
  rw [hbody]
  refine ⟨s', heq, ?_, ?_⟩
  rotate_left
  · intro _
    rw [hstream]
    rcases hcase with ⟨h1, -⟩ | ⟨before, b, after, h1, -, h3, -⟩
    · rw [h1, List.length_cons, List.length_append]
      lia
    · rw [h3, h1]
      simp only [List.length_cons, List.length_append]
      lia
  rcases hcase with ⟨h1, h2, h3, h4, h5⟩ | ⟨before, b, after, h1, h2, h3, h4, h5, h6⟩
  · have hblocks' : payloadBlocks p.data = (blocks ++ now) ++ later := by
      rw [hblocks, ← hsplit, List.append_assoc]
    have hdigest' : s'.digest = bytesOf (blocks ++ now) := by
      rw [h3, bytesOf_append, hdigest]
    have ht' := ht.passed now
    rw [← h2] at ht'
    by_cases hnil : later = []
    · -- the last chunk
      rw [hnil, List.append_nil] at hblocks'
      rw [← hblocks', hbytes] at hdigest'
      have hpad : bytesOf (blocks ++ now) =
          p.data ++ List.replicate (dataPadding p.data.length) 0 := by
        rw [← hblocks', hbytes]
        rfl
      refine .atTrailer (n := 0) hparts hpad ?_ hl ht' hread (.inl rfl) ?_ (hsize'.trans hsize)
      · rw [h1, htail, hnil, inChunks]
        rfl
      · rw [hdigest']
        exact List.append_nil _
    · exact .inFile hparts hblocks' hnil (by unfold CHUNK_BLOCKS at *; lia) (h1.trans htail) hl
        ht' hread h5 h4 hdigest' (hsize'.trans hsize)
  · -- TWRP has got all the data, so the rest is padding
    have ht' := ht.passed before
    rw [← h4] at ht'
    have hall : p.data.length ≤ MAX_ADB_READ * (blocks ++ before).length := by
      by_contra hlt
      have hwants : Wants parts s'.sent := by
        refine ⟨p, ?_, ?_⟩
        · rw [ht'.opened, hparts]
          simp
        · rw [ht'.last]
          lia
      rw [h4] at hwants
      rw [hpeer.dataWrite _ hwants] at h2
      cases h2
    have hblocks' : payloadBlocks p.data = (blocks ++ before) ++ (b :: after ++ later) := by
      rw [hblocks, ← hsplit, h1]
      simp only [List.append_assoc, List.cons_append]
    obtain ⟨hzero, hshort⟩ := zeros_after_data hblocks' hall
    obtain ⟨padding, hpad, -⟩ := payload_split hblocks' hall
    have hnil : later = [] := by
      rw [List.length_append] at hshort
      apply List.eq_nil_of_length_eq_zero
      unfold CHUNK_BLOCKS at *
      lia
    have hafter : after = List.replicate after.length Block.zero := by
      rw [List.eq_replicate_iff]
      refine ⟨rfl, ?_⟩
      intro c hc
      exact hzero c (List.mem_append_left _ (List.mem_cons_of_mem _ hc))
    refine .atTrailer (n := after.length) hparts hpad ?_ hl ht' hread (.inr h6) ?_
      (hsize'.trans hsize)
    · rw [h3, htail, hnil, inChunks, ← hafter]
      rfl
    · rw [h5, hdigest, ← hafter, ← bytesOf_append, ← bytesOf_append, ← hbytes, hblocks', hnil]
      simp only [List.append_assoc, List.append_nil, List.cons_append, List.nil_append]

variable (cs) in
/-- What was sent for a partition, once its trailer was found to match. -/
theorem received {p : Partition} {blocks : List Block} {padding : Nat}
    (hblocks : bytesOf blocks = p.data ++ List.replicate padding 0) :
    Received p (.control p.header :: .openData :: blocks.map .data ++
      [.control (bareTrailer cs (payload p.data)), .control (md5Verify cs (payload p.data))]) :=
  .mk hblocks (getType_bareTrailer _) (getType_md5Verify _) (md5Verify_digest _)

/-- The trailer. -/
theorem RInv.trailer {parts ps qs : List Partition} {p : Partition} {s : Restore} {l : List Sent}
    {blocks : List Block} {padding : Nat} (hpeer : Takes peer parts)
    (hparts : parts = ps ++ p :: qs)
    (hblocks : bytesOf blocks = p.data ++ List.replicate padding 0)
    (hstream : s.stream = md5Trailer cs (payload p.data) p.header.fileSize :: streamFrom cs e qs)
    (hl : Delivers ps l) (ht : Told (ps.length + 1) blocks (sentFor e l p blocks) s.sent)
    (hdigest : s.digest = payload p.data) (hsize : s.md5fnsize = p.header.fileSize) :
    GoesOn cs e peer parts s := by
  rw [← hsize] at hstream
  unfold GoesOn
  rw [restoreBody_trailer hstream hpeer.controlWrite]
  obtain ⟨more, fd, tweofrcvd, readFromAdb, hmore, hseen⟩ :=
    trailerSeen_eq { s with stream := streamFrom cs e qs }
  rw [hseen, hdigest]
  refine ⟨_, rfl, ?_, fun _ => by simp [hstream]⟩
  have ht' := ((ht.close hmore).control (bareTrailer cs (payload p.data))).control
    (md5Verify cs (payload p.data))
  have hsent : sentFor e l p blocks ++ [.control (bareTrailer cs (payload p.data))] ++
      [.control (md5Verify cs (payload p.data))] = .control e.streamHdr :: (l ++
        (.control p.header :: .openData :: blocks.map .data ++
          [.control (bareTrailer cs (payload p.data)), .control (md5Verify cs (payload p.data))])) := by
    simp [sentFor]
  have hlen : (ps ++ [p]).length = ps.length + 1 := by
    rw [List.length_append, List.length_singleton]
  rw [hsent, ← hlen, List.append_assoc _ [_] [_]] at ht'
  have hparts' : parts = ps ++ [p] ++ qs := by
    rw [hparts, List.append_assoc, List.singleton_append]
  exact .head hparts' rfl (hl.snoc (received cs hblocks)) ht'

/-- **A round on the stream of a backup.** -/
theorem RInv.body {parts : List Partition} {s : Restore} (hv : Valid cs e parts)
    (hpeer : Takes peer parts) (hm : NoTrailer parts) (h : RInv cs e parts s) :
    GoesOn cs e peer parts s := by
  have hinv := h
  cases h with
  | fresh hstream ht =>
    refine ⟨_, restoreBody_streamHdr hstream hv.streamHdr_type hv.streamHdr_crc
      hpeer.controlWrite, ?_, fun _ => by simp [hstream, streamBlocks]⟩
    exact .head (List.nil_append parts).symm rfl .nil (ht.control e.streamHdr)
  | @head ps qs l blocks hparts hstream hl ht =>
    cases qs with
    | nil =>
      refine ⟨_, restoreBody_endadb hstream hv.endadb_type hv.endadb_crc hpeer.controlWrite, ?_,
        fun _ => by simp [hstream, streamFrom]⟩
      rw [List.append_nil] at hparts
      subst hparts
      exact .finished rfl hl (ht.control _)
    | cons p qs => exact RInv.header hv hpeer hparts hstream hl ht
  | inFile hparts hblocks htodo hmod hstream hl ht hread hfd hchunk hdigest hsize =>
    exact RInv.chunk hpeer hm hparts hblocks htodo hmod hstream hl ht hfd hchunk hdigest hsize
  | @atTrailer ps qs p l blocks padding n hparts hblocks hstream hl ht hread hmd5 hdigest hsize =>
    cases n with
    | zero =>
      rw [List.replicate_zero] at hstream hdigest
      exact RInv.trailer hpeer hparts hblocks hstream hl ht ((List.append_nil _).symm.trans hdigest)
        hsize
    | succ n =>
      rw [List.replicate_succ, List.cons_append] at hstream
      have hsum : s.md5sumdata = true := hmd5.resolve_left (Nat.succ_ne_zero n)
      refine ⟨_, restoreBody_zero hstream hsum, ?_, fun _ => by simp [hstream]⟩
      refine .atTrailer hparts hblocks rfl hl ht hread (.inr hsum) ?_ hsize
      rw [List.append_assoc]
      exact hdigest
  | finished hstream hl ht =>
    refine ⟨s, ?_, hinv, fun hne => absurd hstream hne⟩
    unfold restoreBody
    simp only [hstream]

/-! ## Runs -/

/-- **Every outcome of a run** keeps the invariant; the function returns only at the end of the
stream, and without an error. -/
theorem Restores.inv {parts : List Partition} {o : Outcome} (hv : Valid cs e parts)
    (hpeer : Takes peer parts) (hm : NoTrailer parts)
    (h : Restores cs peer (streamBlocks cs e parts) o) :
    (∃ s, o = .again s ∧ RInv cs e parts s) ∨
      ∃ s, o = .done true s ∧ RInv cs e parts s ∧ s.stream = [] := by
  induction h with
  | init junk => exact .inl ⟨_, rfl, .fresh rfl ⟨rfl, rfl, rfl⟩⟩
  | @step s hrun cmd hok ih =>
    have hinv : RInv cs e parts s := by
      rcases ih with ⟨s', heq, hinv⟩ | ⟨s', heq, -⟩
      · cases heq
        exact hinv
      · cases heq
    have hbody {s : Restore} (hinv : RInv cs e parts s) :
        ∃ s', (if s.readFromAdb then restoreBody cs peer s else .again s) = .again s' ∧
          RInv cs e parts s' := by
      split
      · obtain ⟨s', heq, hinv', -⟩ := hinv.body hv hpeer hm
        exact ⟨s', heq, hinv'⟩
      · exact ⟨s, rfl, hinv⟩
    unfold restoreStep
    cases cmd with
    | none => exact .inl (hbody hinv)
    | some cmd =>
      dsimp only
      rcases hinv.command hok with ⟨s', heq, hinv'⟩ | ⟨heq, hstream⟩
      · rw [heq]
        exact .inl (hbody hinv')
      · rw [heq]
        exact .inr ⟨s, rfl, hinv, hstream⟩

/-- While the function waits for `TWEOF`, no data is next. -/
theorem RInv.waiting {parts : List Partition} {s : Restore} (hv : Valid cs e parts)
    (h : RInv cs e parts s) (hread : s.readFromAdb = false) {b : Block} {rest : List Block}
    (hs : s.stream = b :: rest) : b.getType ≠ TWDATA := by
  have hheader {t : List UInt8} (ht : b.getType = t) (hne : t ≠ TWDATA) : b.getType ≠ TWDATA := by
    rw [ht]
    exact hne
  cases h with
  | fresh hstream ht =>
    rw [hstream] at hs
    cases hs
    exact hheader hv.streamHdr_type (by decide +kernel)
  | @head ps qs l blocks hparts hstream hl ht =>
    rw [hstream] at hs
    cases qs with
    | nil =>
      cases hs
      exact hheader hv.endadb_type (by decide +kernel)
    | cons p qs =>
      cases hs
      have hmem : p ∈ parts := by
        rw [hparts]
        exact List.mem_append_right _ List.mem_cons_self
      rcases hv.header_type p hmem with ht | ht
      · exact hheader ht (by decide +kernel)
      · exact hheader ht (by decide +kernel)
  | inFile hparts hblocks htodo hmod hstream hl ht hreads =>
    rw [hread] at hreads
    cases hreads
  | atTrailer hparts hblocks hstream hl ht hreads =>
    rw [hread] at hreads
    cases hreads
  | finished hstream hl ht =>
    rw [hstream] at hs
    cases hs

section

variable (cs peer) {c : Block} {s : Restore}

theorem restoreStep_none (hread : s.readFromAdb = true) :
    restoreStep cs peer none s = restoreBody cs peer s := by
  unfold restoreStep
  exact if_pos hread

variable (s) in
theorem restoreStep_endadb (ht : c.getType = TWENDADB) :
    restoreStep cs peer (some c) s = .done true s := by
  unfold restoreStep readCommand
  dsimp only
  rw [ht, if_neg (by decide +kernel), if_pos rfl]

variable (s) in
theorem restoreStep_tweof (ht : c.getType = TWEOF) :
    restoreStep cs peer (some c) s =
      restoreBody cs peer (closeData { s with readFromAdb := true, tweofrcvd := true }) := by
  obtain ⟨more, fd, -, hclose⟩ := closeData_eq { s with readFromAdb := true, tweofrcvd := true }
  unfold restoreStep readCommand
  dsimp only
  rw [if_pos ht, hclose]
  rfl

end

/-- **Every run can be finished**: TWRP sends `TWEOF` when it is waited for, and `TWENDADB` at the
end. -/
theorem RInv.exists_done {parts : List Partition} {stream : List Block} {s : Restore}
    (hv : Valid cs e parts) (hpeer : Takes peer parts) (hm : NoTrailer parts)
    (h : RInv cs e parts s) (hrun : Restores cs peer stream (.again s)) :
    ∃ s', Restores cs peer stream (.done true s') := by
  obtain ⟨n, hn⟩ : ∃ n, n = s.stream.length := ⟨_, rfl⟩
  induction n using Nat.strongRecOn generalizing s with
  | ind n ih =>
    by_cases hnil : s.stream = []
    · -- the end
      refine ⟨s, ?_⟩
      have hok : CmdOk (some e.endadb) s := by
        rintro c ⟨⟩
        rw [hv.endadb_type]
        exact ⟨by decide +kernel, fun _ => hnil, fun h => absurd h (by decide +kernel)⟩
      rw [← restoreStep_endadb cs peer s hv.endadb_type]
      exact hrun.step _ hok
    · cases hread : s.readFromAdb with
      | true =>
        obtain ⟨s', heq, hinv, hless⟩ := h.body hv hpeer hm
        have hstep := (restoreStep_none cs peer hread).trans heq
        have hok : CmdOk none s := by
          intro c hc
          cases hc
        refine ih _ ?_ hinv (hstep ▸ hrun.step none hok) rfl
        rw [hn]
        exact hless hnil
      | false =>
        have hok : CmdOk (some (controlBlock cs TWEOF)) s := by
          rintro c ⟨⟩
          rw [getType_tweof]
          exact ⟨by decide +kernel, fun h => absurd h (by decide +kernel),
            fun _ b rest hs => h.waiting hv hread hs⟩
        obtain ⟨more, fd, hmore, hclose⟩ :=
          closeData_eq { s with readFromAdb := true, tweofrcvd := true }
        have hclosed : RInv cs e parts (closeData { s with readFromAdb := true, tweofrcvd := true }) := by
          rw [hclose]
          exact h.close (fun b rest hs => h.waiting hv hread hs) hmore fd true
        obtain ⟨s', heq, hinv, hless⟩ := hclosed.body hv hpeer hm
        have hstep := (restoreStep_tweof cs peer s (getType_tweof cs)).trans heq
        refine ih _ ?_ hinv (hstep ▸ hrun.step _ hok) rfl
        rw [hclose] at hless
        rw [hn]
        exact hless hnil

/-! ## What was delivered -/

/-- The rest of a partition can be received, whatever the checksums are. -/
theorem exists_received (p : Partition) (blocks todo : List Block)
    (h : payloadBlocks p.data = blocks ++ todo) :
    ∃ l, Received p (.control p.header :: .openData :: blocks.map .data ++ l) := by
  have hbytes := (length_payloadBlocks p.data).2
  rw [h] at hbytes
  have hp : Received p _ := received ⟨fun _ => 0, fun _ => []⟩ hbytes
  rw [List.map_append, ← List.cons_append, ← List.cons_append, List.append_assoc] at hp
  exact ⟨_, hp⟩

theorem Delivers.extend {ps : List Partition} {l : List Sent} (h : Delivers ps l)
    (qs : List Partition) : ∃ l', Delivers (ps ++ qs) (l ++ l') := by
  induction qs generalizing ps l with
  | nil =>
    refine ⟨[], ?_⟩
    rw [List.append_nil, List.append_nil]
    exact h
  | cons q qs ih =>
    obtain ⟨l1, hq⟩ := exists_received q [] _ (List.nil_append _).symm
    obtain ⟨l2, h2⟩ := ih (h.snoc hq)
    rw [List.append_assoc, List.singleton_append, List.append_assoc l] at h2
    exact ⟨_, h2⟩

/-- An open partition can be finished. -/
theorem Delivers.goOn {ps : List Partition} {l l1 l2 : List Sent} {p : Partition}
    (h : Delivers ps l) (hp : Received p (l1 ++ l2)) (qs : List Partition) :
    ∃ full, Restored e (ps ++ p :: qs) full ∧ .control e.streamHdr :: l ++ l1 <+: full := by
  obtain ⟨l3, h3⟩ := (h.snoc hp).extend qs
  rw [List.append_assoc, List.singleton_append] at h3
  refine ⟨_, ⟨_, h3, rfl⟩, ?_⟩
  rw [List.append_assoc, List.append_assoc, ← List.cons_append, List.append_assoc,
    List.prefix_append_right_inj, List.append_assoc]
  exact List.prefix_append _ _

/-- **What was delivered** is a prefix of what is to be delivered, and at the end of the stream all
of it. -/
theorem RInv.delivered {parts : List Partition} {s : Restore} (h : RInv cs e parts s) :
    ∃ full, Restored e parts full ∧ delivered s.sent <+: full ∧
      (s.stream = [] → delivered s.sent = full) := by
  cases h with
  | fresh hstream ht =>
    obtain ⟨l, hl⟩ := Delivers.nil.extend parts
    refine ⟨_, ⟨_, hl, rfl⟩, ?_, ?_⟩
    · rw [ht.all]
      exact List.nil_prefix
    · rw [hstream]
      intro hnil
      cases hnil
  | @head ps qs l blocks hparts hstream hl ht =>
    obtain ⟨l', hl'⟩ := hl.extend qs
    rw [← hparts] at hl'
    refine ⟨_, ⟨_, hl', rfl⟩, ?_, ?_⟩
    · rw [ht.all, ← List.cons_append, List.append_assoc]
      exact List.prefix_append _ _
    · rw [hstream, streamFrom]
      intro hnil
      exact absurd (List.append_eq_nil_iff.1 hnil).2 (List.cons_ne_nil _ _)
  | @inFile ps qs p l blocks todo hparts hblocks htodo hmod hstream hl ht hread hfd hchunk hdigest
      hsize =>
    obtain ⟨l', hp⟩ := exists_received p blocks todo hblocks
    obtain ⟨full, hfull, hprefix⟩ := hl.goOn (e := e) hp qs
    refine ⟨full, hparts ▸ hfull, ?_, ?_⟩
    · rw [ht.all]
      exact hprefix
    · rw [hstream]
      intro hnil
      exact absurd (List.append_eq_nil_iff.1 hnil).2 (List.cons_ne_nil _ _)
  | @atTrailer ps qs p l blocks padding n hparts hblocks hstream hl ht hread hmd5 hdigest hsize =>
    obtain ⟨full, hfull, hprefix⟩ := hl.goOn (e := e) (received cs hblocks) qs
    refine ⟨full, hparts ▸ hfull, ?_, ?_⟩
    · rw [ht.all]
      exact hprefix
    · rw [hstream]
      intro hnil
      exact absurd (List.append_eq_nil_iff.1 hnil).2 (List.cons_ne_nil _ _)
  | finished hstream hl ht =>
    refine ⟨_, ⟨_, hl, rfl⟩, ?_, fun _ => ht.all⟩
    exact ⟨[], by rw [List.append_nil, ht.all]⟩

end Recovery.Adbbu
