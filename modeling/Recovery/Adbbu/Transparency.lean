import Recovery.Adbbu.Restore

/-!
# What the data loop does with the contents of a chunk

* `passOn` — the state after some blocks were hashed and written to the data fifo.
* `dataLoop_passOn` — blocks without the trailer's type are passed on, one after the other.
* `dataLoop_trailer` — a block with that type is not: the loop ends there.
* `restoreBody_data_iff` — a chunk is taken as data exactly when none of its blocks has the
  trailer's type; magic value, crc and ident of the block play no part.

The zeros of the last chunk are part of what is written: the reader of the image has to ignore
them (`zeros_passed_on`).
-/

set_option autoImplicit false

namespace Recovery.Adbbu

variable {cs : Checksums} {peer : Peer}

/-- `blocks` taken as data; `stream` is what follows them. -/
def passOn (blocks stream : List Block) (s : Restore) : Restore :=
  { s with
    stream := stream
    readFromAdb := s.readFromAdb || !blocks.isEmpty
    dataChunkBytes := s.dataChunkBytes + MAX_ADB_READ * blocks.length
    totalbytes := s.totalbytes + MAX_ADB_READ * blocks.length
    fileBytes := s.fileBytes + MAX_ADB_READ * blocks.length
    digest := s.digest ++ bytesOf blocks
    sent := s.sent ++ blocks.map Sent.data }

theorem passOn_cons (b : Block) (blocks stream rest : List Block) (s : Restore) :
    passOn blocks rest (passOn [b] stream s) = passOn (b :: blocks) rest s := by
  simp only [passOn, List.length_cons, List.length_nil, List.map_cons, List.map_nil,
    List.append_assoc, List.singleton_append, List.isEmpty_cons, Bool.not_false, Bool.or_true,
    Bool.true_or, bytesOf, List.flatMap_cons, List.flatMap_nil, List.append_nil,
    Restore.mk.injEq, true_and, and_true, Nat.mul_succ]
  refine ⟨?_, ?_, ?_⟩ <;> lia

/-- The end of a chunk: a full one ends the loop, after a shorter one the loop goes on. -/
def afterChunk (cs : Checksums) (peer : Peer) (stream : List Block) (s : Restore) : Outcome :=
  if s.dataChunkBytes = DATA_MAX_CHUNK_SIZE then
    .again { s with dataChunkBytes := 0, md5sumdata := false }
  else dataLoop cs peer stream s

/-- The data fifo takes every block. -/
structure Accepts (peer : Peer) (s : Restore) : Prop where
  opened : s.writeFd = true
  writes : ∀ sent, peer.dataWrite sent = true

theorem Accepts.passOn {s : Restore} (h : Accepts peer s) (blocks stream : List Block) :
    Accepts peer (passOn blocks stream s) := ⟨h.opened, h.writes⟩

/-! ## One block -/

variable (cs peer) in
/-- What one round of the loop does. -/
theorem dataLoop_cons (b : Block) (stream : List Block) (s : Restore) :
    (b.getType = MD5TRAILER ∧ ∃ s', s'.sent = s.sent ∧
      dataLoop cs peer (b :: stream) s = dataTrailer cs peer b s') ∨
    (b.getType ≠ MD5TRAILER ∧ (writeData peer b s).1 = false ∧ ∃ s', s'.sent = s.sent ∧
      dataLoop cs peer (b :: stream) s = .again s') ∨
    (b.getType ≠ MD5TRAILER ∧
      dataLoop cs peer (b :: stream) s = afterChunk cs peer stream (passOn [b] stream s)) := by
  rw [dataLoop]
  dsimp only
  by_cases hb : b.getType = MD5TRAILER
  · rw [if_pos hb]
    refine Or.inl ⟨hb, _, ?_, rfl⟩
    rfl
  · rw [if_neg hb]
    right
    by_cases hw : (s.writeFd && peer.dataWrite s.sent) = true
    · simp only [writeData, if_pos hw]
      right
      refine ⟨hb, ?_⟩
      unfold afterChunk passOn
      simp only [bytesOf, List.length_cons, List.length_nil, Nat.mul_one, Nat.zero_add,
        List.flatMap_cons, List.flatMap_nil, List.append_nil, List.map_cons, List.map_nil,
        List.isEmpty_cons, Bool.not_false, Bool.or_true]
    · left
      have hwrite : (writeData peer b s).1 = false := by
        rw [writeData, if_neg hw]
      refine ⟨hb, hwrite, ?_⟩
      simp only [writeData, if_neg hw]
      refine ⟨_, ?_, rfl⟩
      rfl

theorem dataLoop_data {b : Block} {stream : List Block} {s : Restore} (hs : Accepts peer s)
    (hb : b.getType ≠ MD5TRAILER) :
    dataLoop cs peer (b :: stream) s = afterChunk cs peer stream (passOn [b] stream s) := by
  rcases dataLoop_cons cs peer b stream s with
    ⟨ht, -⟩ | ⟨-, hw, -⟩ | ⟨-, heq⟩
  · exact absurd ht hb
  · simp [writeData, hs.opened, hs.writes] at hw
  · exact heq

variable (peer) in
/-- What was sent is never taken back. -/
theorem writeControl_sent (b : Block) (s : Restore) :
    ∃ more : List Block, (writeControl peer b s).2.sent = s.sent ++ more.map Sent.control := by
  unfold writeControl
  split
  · exact ⟨[b], rfl⟩
  · exact ⟨[], (List.append_nil _).symm⟩

variable (cs peer) in
theorem checkMD5Trailer_sent (b : Block) (s : Restore) :
    ∃ more : List Block, (checkMD5Trailer cs peer b s).2.sent = s.sent ++ more.map Sent.control := by
  unfold checkMD5Trailer
  split
  · split
    · obtain ⟨first, hfirst⟩ := writeControl_sent peer ((b.clear32 28).clear32 24) s
      split
      · rename_i s' hw
        rw [hw] at hfirst
        exact ⟨first, hfirst⟩
      · rename_i s' hw
        rw [hw] at hfirst
        obtain ⟨second, hsecond⟩ := writeControl_sent peer (md5Verify cs s'.digest) s'
        refine ⟨first ++ second, ?_⟩
        rw [hsecond, hfirst, List.map_append, List.append_assoc]
    · exact ⟨[], (List.append_nil _).symm⟩
  · exact ⟨[], (List.append_nil _).symm⟩

theorem trailerSeen_sent (s : Restore) :
    (trailerSeen s).sent = s.sent ∨ (trailerSeen s).sent = s.sent ++ [.closeData] := by
  have hclose : (closeData s).sent = s.sent ∨ (closeData s).sent = s.sent ++ [.closeData] := by
    unfold closeData
    split
    · exact Or.inr rfl
    · exact Or.inl rfl
  unfold trailerSeen
  dsimp only
  split <;> split
  · exact hclose
  · exact hclose
  · exact Or.inl rfl
  · exact Or.inl rfl

/-- The data blocks among what was sent. -/
def dataSent (sent : List Sent) : List Block :=
  sent.filterMap fun e => match e with
    | .data b => some b
    | _ => none

@[simp] theorem dataSent_append (sent sent' : List Sent) :
    dataSent (sent ++ sent') = dataSent sent ++ dataSent sent' := List.filterMap_append

@[simp] theorem dataSent_data (blocks : List Block) : dataSent (blocks.map .data) = blocks := by
  induction blocks with
  | nil => rfl
  | cons b blocks ih => exact congrArg (b :: ·) ih

@[simp] theorem dataSent_control (blocks : List Block) : dataSent (blocks.map .control) = [] := by
  induction blocks with
  | nil => rfl
  | cons b blocks ih => exact ih

theorem dataSent_trailerSeen (s : Restore) :
    dataSent (trailerSeen s).sent = dataSent s.sent := by
  rcases trailerSeen_sent s with h | h
  · rw [h]
  · rw [h, dataSent_append]
    exact List.append_nil _

theorem dataSent_dataTrailer (b : Block) (s : Restore) :
    dataSent (dataTrailer cs peer b s).state.sent = dataSent s.sent := by
  obtain ⟨more, hmore⟩ := checkMD5Trailer_sent cs peer b (trailerSeen s)
  have hdata : dataSent (checkMD5Trailer cs peer b (trailerSeen s)).2.sent = dataSent s.sent := by
    rw [hmore, dataSent_append, dataSent_control, List.append_nil, dataSent_trailerSeen]
  unfold dataTrailer
  split
  · rename_i hc
    rw [hc] at hdata
    exact hdata
  · rename_i hc
    rw [hc] at hdata
    exact hdata

/-! ## A chunk -/

/-- **Blocks without the trailer's type are passed on**, up to the end of the chunk. -/
theorem dataLoop_passOn : ∀ {blocks rest : List Block} {s : Restore}, Accepts peer s →
    blocks ≠ [] → s.dataChunkBytes + MAX_ADB_READ * blocks.length ≤ DATA_MAX_CHUNK_SIZE →
    (∀ b ∈ blocks, b.getType ≠ MD5TRAILER) →
    dataLoop cs peer (blocks ++ rest) s = afterChunk cs peer rest (passOn blocks rest s)
  | [], _, _, _, hne, _, _ => absurd rfl hne
  | [b], rest, s, hs, _, _, hb => dataLoop_data hs (hb b List.mem_cons_self)
  | b :: b' :: blocks, rest, s, hs, _, hfit, hb => by
    rw [List.cons_append, dataLoop_data hs (hb b List.mem_cons_self)]
    -- the chunk is not full yet
    have hlen : (passOn [b] (b' :: blocks ++ rest) s).dataChunkBytes =
        s.dataChunkBytes + MAX_ADB_READ := rfl
    have hread : MAX_ADB_READ = 512 := rfl
    rw [List.length_cons, Nat.mul_succ] at hfit
    have hmore : MAX_ADB_READ * (b' :: blocks).length = MAX_ADB_READ * blocks.length + 512 := rfl
    unfold afterChunk
    rw [if_neg (by omega), dataLoop_passOn (hs.passOn _ _) (List.cons_ne_nil _ _)
      (by omega) (fun c hc => hb c (List.mem_cons_of_mem _ hc)), passOn_cons]
    rfl

variable (cs peer) in
/-- The loop only adds to what was sent. -/
theorem dataSent_dataLoop : ∀ (blocks : List Block) (s : Restore),
    ∃ more, dataSent (dataLoop cs peer blocks s).state.sent = dataSent s.sent ++ more
  | [], s => ⟨[], (List.append_nil _).symm⟩
  | b :: blocks, s => by
    rcases dataLoop_cons cs peer b blocks s with
      ⟨-, s', hs', heq⟩ | ⟨-, -, s', hs', heq⟩ | ⟨-, heq⟩
    · refine ⟨[], ?_⟩
      rw [heq, dataSent_dataTrailer, hs', List.append_nil]
    · refine ⟨[], ?_⟩
      rw [heq, Outcome.state, hs', List.append_nil]
    · rw [heq, afterChunk]
      split
      · exact ⟨[b], dataSent_append _ _⟩
      · obtain ⟨more, hmore⟩ := dataSent_dataLoop blocks (passOn [b] blocks s)
        refine ⟨b :: more, ?_⟩
        rw [hmore, passOn, dataSent_append, dataSent_data, List.append_assoc,
          List.singleton_append]

/-- **A block with the trailer's type ends the chunk**: neither it nor what follows it in the
chunk is sent as data by this loop. -/
theorem dataLoop_trailer {before after : List Block} {t : Block} {s : Restore}
    (hs : Accepts peer s)
    (hfit : s.dataChunkBytes + MAX_ADB_READ * (before.length + 1) ≤ DATA_MAX_CHUNK_SIZE)
    (hb : ∀ b ∈ before, b.getType ≠ MD5TRAILER) (ht : t.getType = MD5TRAILER) :
    dataSent (dataLoop cs peer (before ++ t :: after) s).state.sent = dataSent s.sent ++ before := by
  induction before generalizing s with
  | nil =>
    rcases dataLoop_cons cs peer t after s with
      ⟨-, s', hs', heq⟩ | ⟨hne, -⟩ | ⟨hne, -⟩
    · rw [List.nil_append, heq, dataSent_dataTrailer, hs', List.append_nil]
    · exact absurd ht hne
    · exact absurd ht hne
  | cons b before ih =>
    have hread : MAX_ADB_READ = 512 := rfl
    rw [List.length_cons, Nat.mul_succ] at hfit
    rw [List.cons_append, dataLoop_data hs (hb b List.mem_cons_self)]
    have hlen : (passOn [b] (before ++ t :: after) s).dataChunkBytes =
        s.dataChunkBytes + MAX_ADB_READ := rfl
    -- the chunk still has room for the block with the trailer's type
    have hroom : 512 ≤ MAX_ADB_READ * (before.length + 1) := by
      rw [hread]
      lia
    unfold afterChunk
    rw [if_neg (by rw [hlen]; lia), ih (hs.passOn _ _) (by rw [hlen]; lia)
      (fun c hc => hb c (List.mem_cons_of_mem _ hc))]
    rw [passOn, dataSent_append, dataSent_data, List.append_assoc, List.singleton_append]

/-- The state in which the data loop starts after a data header. -/
def afterHeader (s : Restore) : Restore :=
  { s with dataChunkBytes := s.dataChunkBytes + MAX_ADB_READ }

theorem exists_first_trailer : ∀ {blocks : List Block},
    ¬ (∀ b ∈ blocks, b.getType ≠ MD5TRAILER) →
    ∃ before t after, blocks = before ++ t :: after ∧
      (∀ b ∈ before, b.getType ≠ MD5TRAILER) ∧ t.getType = MD5TRAILER
  | [], h => by simp at h
  | b :: blocks, h => by
    by_cases hb : b.getType = MD5TRAILER
    · exact ⟨[], b, blocks, rfl, by simp, hb⟩
    · have hrest : ¬ ∀ c ∈ blocks, c.getType ≠ MD5TRAILER := by
        intro hall
        apply h
        intro c hc
        rcases List.mem_cons.1 hc with rfl | hc
        · exact hb
        · exact hall c hc
      obtain ⟨before, t, after, rfl, hbefore, ht⟩ := exists_first_trailer hrest
      refine ⟨b :: before, t, after, rfl, ?_, ht⟩
      intro c hc
      rcases List.mem_cons.1 hc with rfl | hc
      · exact hb
      · exact hbefore c hc

/-- **A chunk of data.**  In every state in which the data fifo takes what is written to it, and
whatever follows the chunk, its blocks are all hashed and written, in order, and nothing else
happens, exactly when none of them has `md5trailer` in the place of a structure's type. -/
theorem restoreBody_data_iff {header : Block} {blocks rest : List Block} {s : Restore}
    (hs : Accepts peer s) (hstream : s.stream = header :: (blocks ++ rest))
    (hheader : header.getType = TWDATA) (hne : blocks ≠ [])
    (hfit : s.dataChunkBytes + MAX_ADB_READ * (blocks.length + 1) ≤ DATA_MAX_CHUNK_SIZE) :
    restoreBody cs peer s = afterChunk cs peer rest (passOn blocks rest (afterHeader s)) ↔
      ∀ b ∈ blocks, b.getType ≠ MD5TRAILER := by
  obtain ⟨s0, hs0⟩ : ∃ s0, s0 = afterHeader { s with stream := blocks ++ rest } := ⟨_, rfl⟩
  have hbody : restoreBody cs peer s = dataLoop cs peer (blocks ++ rest) s0 := by
    unfold restoreBody
    rw [hstream, hs0]
    simp only [hheader]
    rfl
  have hpass : passOn blocks rest (afterHeader s) = passOn blocks rest s0 := by rw [hs0]; rfl
  have hread : MAX_ADB_READ = 512 := rfl
  have haccepts : Accepts peer s0 := hs0 ▸ ⟨hs.opened, hs.writes⟩
  have hroom : s0.dataChunkBytes + MAX_ADB_READ * blocks.length ≤ DATA_MAX_CHUNK_SIZE := by
    rw [Nat.mul_succ] at hfit
    simp only [hs0, afterHeader]
    omega
  rw [hbody, hpass]
  constructor
  · intro heq
    by_contra hall
    obtain ⟨before, t, after, hsplit, hbefore, ht⟩ := exists_first_trailer hall
    -- the loop stops before `t`, so `t` is missing in what it sent
    have hleft : dataSent (dataLoop cs peer (blocks ++ rest) s0).state.sent =
        dataSent s0.sent ++ before := by
      rw [hsplit, List.append_assoc, List.cons_append]
      refine dataLoop_trailer haccepts ?_ hbefore ht
      refine le_trans (Nat.add_le_add_left (Nat.mul_le_mul_left _ ?_) _) hroom
      rw [hsplit, List.length_append, List.length_cons]
      omega
    obtain ⟨more, hmore⟩ : ∃ more,
        dataSent (afterChunk cs peer rest (passOn blocks rest s0)).state.sent =
          dataSent s0.sent ++ blocks ++ more := by
      obtain ⟨more, hmore⟩ := dataSent_dataLoop cs peer rest
        (passOn blocks rest s0)
      have hsent : dataSent (passOn blocks rest s0).sent = dataSent s0.sent ++ blocks := by
        rw [passOn, dataSent_append, dataSent_data]
      unfold afterChunk
      split
      · exact ⟨[], hsent.trans (List.append_nil _).symm⟩
      · exact ⟨more, hsent ▸ hmore⟩
    rw [← heq, hleft, hsplit] at hmore
    have hlen := congrArg List.length hmore
    simp only [List.length_append, List.length_cons] at hlen
    omega
  · intro hall
    exact dataLoop_passOn haccepts hne hroom hall

/-! ## Two chunks of an image -/

def zlib : Checksums := ⟨crc32, fun _ => []⟩

/-- TWRP takes everything. -/
def willing : Peer := ⟨fun _ => true, fun _ => true, fun _ => true⟩

/-- An image of 1536 bytes is being restored; `stream` follows its header. -/
def restoringImage (stream : List Block) : Restore :=
  { restoreInit stream (false, false) with md5fnsize := 1536, writeFd := true, sent := [.openData] }

/-- A chunk of three blocks of zeros. -/
def zeroChunk : Restore :=
  restoringImage [controlBlock zlib TWDATA, Block.zero, Block.zero, Block.zero]

theorem zeros_passed_on :
    restoreBody zlib willing zeroChunk =
      afterChunk zlib willing [] (passOn (List.replicate 3 .zero) [] (afterHeader zeroChunk)) := by
  have haccepts : Accepts willing zeroChunk := ⟨rfl, fun _ => rfl⟩
  have hheader : (controlBlock zlib TWDATA).getType = TWDATA := by decide +kernel
  have hzero : Block.zero.getType ≠ MD5TRAILER := by decide +kernel
  have hfit : zeroChunk.dataChunkBytes +
      MAX_ADB_READ * ((List.replicate 3 Block.zero).length + 1) ≤ DATA_MAX_CHUNK_SIZE := by
    rw [List.length_replicate]
    decide
  apply (restoreBody_data_iff haccepts rfl hheader (by simp) hfit).2
  intro b hb
  rw [List.eq_of_mem_replicate hb]
  exact hzero

/-- Zeros, but for the type: neither the magic value nor a crc. -/
def fakeTrailer : Block := Block.zero.put 8 (Block.strncpy MD5TRAILER 16)

/-- The same chunk with the type in its second block: one block of data gets through. -/
theorem fake_trailer_dropped :
    crcMatches zlib (fakeTrailer.clear32 28) 24 = false ∧
    dataSent (restoreBody zlib willing (restoringImage
      [controlBlock zlib TWDATA, .zero, fakeTrailer, .zero])).state.sent = [.zero] := by
  decide +kernel

end Recovery.Adbbu
