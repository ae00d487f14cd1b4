import Recovery.Adbbu.Backup

/-!
# The data of a partition in chunks

* `payload`, `payloadBlocks` — the data with its padding, and its blocks.
* `inChunks` — a data header in front of every chunk of blocks.
* `framedFrom` — the same byte by byte: what `backup` has written after some bytes of data.
* `framed_payload` — the two agree on padded data.
* `partBlocks`, `streamBlocks` — the stream of a partition, and of a backup.

A chunk is full except for the last of a partition, whose data is padded with zeros to whole
blocks.  The byte-wise description is what the counters of `backup` follow, and the one in chunks
is what `restore` reads.
-/

set_option autoImplicit false

namespace Recovery.Adbbu

open Recovery.Lib

/-- The data in a chunk. -/
def CHUNK_DATA : Nat := DATA_MAX_CHUNK_SIZE - MAX_ADB_READ

/-- Its blocks. -/
def CHUNK_BLOCKS : Nat := 2047

theorem chunkData_eq : CHUNK_DATA = MAX_ADB_READ * CHUNK_BLOCKS := rfl

/-! ## Blocks of bytes -/

/-- The whole blocks at the front of a list of bytes. -/
def blocksOf (bytes : List UInt8) : List Block :=
  if h : MAX_ADB_READ ≤ bytes.length then
    ⟨bytes.take MAX_ADB_READ, by rw [List.length_take, Nat.min_eq_left h]⟩ ::
      blocksOf (bytes.drop MAX_ADB_READ)
  else []
termination_by bytes.length
decreasing_by
  unfold MAX_ADB_READ at h ⊢
  rw [List.length_drop]
  omega

theorem blocksOf_append (b : Block) (bytes : List UInt8) :
    blocksOf (b.bytes ++ bytes) = b :: blocksOf bytes := by
  have hsize := b.size
  have hle : MAX_ADB_READ ≤ (b.bytes ++ bytes).length := by
    rw [List.length_append]
    lia
  have htake : (b.bytes ++ bytes).take MAX_ADB_READ = b.bytes := by
    rw [← hsize, List.take_left]
  have hdrop : (b.bytes ++ bytes).drop MAX_ADB_READ = bytes := by
    rw [← hsize, List.drop_left]
  rw [blocksOf, dif_pos hle, hdrop]
  congr 1
  cases b
  congr 1

theorem blocksOf_bytesOf (blocks : List Block) : blocksOf (bytesOf blocks) = blocks := by
  induction blocks with
  | nil =>
    rw [blocksOf, dif_neg]
    simp [bytesOf, MAX_ADB_READ]
  | cons b blocks ih =>
    show blocksOf (b.bytes ++ bytesOf blocks) = _
    rw [blocksOf_append, ih]

theorem bytesOf_blocksOf {bytes : List UInt8} (n : Nat) (h : bytes.length = MAX_ADB_READ * n) :
    bytesOf (blocksOf bytes) = bytes ∧ (blocksOf bytes).length = n := by
  induction n generalizing bytes with
  | zero =>
    obtain rfl := List.eq_nil_of_length_eq_zero h
    rw [blocksOf, dif_neg (by simp [MAX_ADB_READ])]
    exact ⟨rfl, rfl⟩
  | succ n ih =>
    have hle : MAX_ADB_READ ≤ bytes.length := by
      rw [h, Nat.mul_succ]
      lia
    have hrest : (bytes.drop MAX_ADB_READ).length = MAX_ADB_READ * n := by
      rw [List.length_drop, h, Nat.mul_succ]
      lia
    obtain ⟨h1, h2⟩ := ih hrest
    rw [blocksOf, dif_pos hle]
    refine ⟨?_, by rw [List.length_cons, h2]⟩
    show bytes.take MAX_ADB_READ ++ bytesOf _ = bytes
    rw [h1, List.take_append_drop]

/-! ## Chunks -/

/-- The padding after `n` bytes of data. -/
def dataPadding (n : Nat) : Nat :=
  if n % CHUNK_DATA = 0 then 0 else CHUNK_DATA - n % CHUNK_DATA

/-- The data of a partition, followed by zeros up to the end of a chunk. -/
def payload (data : List UInt8) : List UInt8 :=
  data ++ List.replicate (dataPadding data.length) 0

def payloadBlocks (data : List UInt8) : List Block := blocksOf (payload data)

/-- The blocks in chunks, each with a data header in front. -/
def inChunks (cs : Checksums) : List Block → List Block
  | [] => []
  | b :: blocks =>
    controlBlock cs TWDATA :: (b :: blocks).take CHUNK_BLOCKS ++
      inChunks cs ((b :: blocks).drop CHUNK_BLOCKS)
termination_by blocks => blocks.length
decreasing_by
  rw [List.length_drop, CHUNK_BLOCKS, List.length_cons]
  omega

/-- The data from its byte number `i` on, with the data headers in between. -/
def framedFrom (cs : Checksums) : Nat → List UInt8 → List UInt8
  | _, [] => []
  | i, b :: bytes =>
    (if i % CHUNK_DATA = 0 then (controlBlock cs TWDATA).bytes else []) ++
      b :: framedFrom cs (i + 1) bytes

variable {cs : Checksums}

theorem framedFrom_append (i : Nat) (bytes bytes' : List UInt8) :
    framedFrom cs i (bytes ++ bytes') =
      framedFrom cs i bytes ++ framedFrom cs (i + bytes.length) bytes' := by
  induction bytes generalizing i with
  | nil => rfl
  | cons b bytes ih =>
    rw [List.cons_append, framedFrom, framedFrom, ih, List.length_cons, List.append_assoc,
      List.cons_append]
    congr 3
    congr 1
    lia

/-- Inside a chunk the data has no header in it. -/
theorem framedFrom_inside {i : Nat} {bytes : List UInt8} (h0 : i % CHUNK_DATA ≠ 0)
    (h : i % CHUNK_DATA + bytes.length ≤ CHUNK_DATA) : framedFrom cs i bytes = bytes := by
  induction bytes generalizing i with
  | nil => rfl
  | cons b bytes ih =>
    rw [List.length_cons] at h
    rw [framedFrom, if_neg h0, List.nil_append]
    congr 1
    cases bytes with
    | nil => rfl
    | cons b' bytes =>
      rw [List.length_cons] at h
      have hnext : (i + 1) % CHUNK_DATA = i % CHUNK_DATA + 1 := by
        unfold CHUNK_DATA DATA_MAX_CHUNK_SIZE MAX_ADB_READ at h ⊢
        lia
      refine ih ?_ ?_
      · lia
      · rw [hnext, List.length_cons]
        lia

/-- At the start of a chunk it has one in front. -/
theorem framedFrom_start {i : Nat} {bytes : List UInt8} (h0 : i % CHUNK_DATA = 0)
    (hne : bytes ≠ []) (h : bytes.length ≤ CHUNK_DATA) :
    framedFrom cs i bytes = (controlBlock cs TWDATA).bytes ++ bytes := by
  cases bytes with
  | nil => exact absurd rfl hne
  | cons b bytes =>
    rw [framedFrom, if_pos h0]
    congr 2
    rw [List.length_cons] at h
    have hnext : (i + 1) % CHUNK_DATA = 1 := by
      unfold CHUNK_DATA DATA_MAX_CHUNK_SIZE MAX_ADB_READ at h0 ⊢
      lia
    apply framedFrom_inside
    · lia
    · lia

/-- The bytes written for `n` bytes of data. -/
theorem length_framedFrom (i : Nat) (bytes : List UInt8) (h0 : i % CHUNK_DATA = 0) :
    (framedFrom cs i bytes).length =
      bytes.length + MAX_ADB_READ * ((bytes.length + CHUNK_DATA - 1) / CHUNK_DATA) := by
  obtain ⟨n, hn⟩ : ∃ n, n = bytes.length := ⟨_, rfl⟩
  induction n using Nat.strongRecOn generalizing i bytes with
  | ind n ih =>
    by_cases hle : bytes.length ≤ CHUNK_DATA
    · cases hb : bytes with
      | nil => simp [framedFrom, CHUNK_DATA, DATA_MAX_CHUNK_SIZE, MAX_ADB_READ]
      | cons b bs =>
        rw [← hb, framedFrom_start h0 (by simp [hb]) hle, List.length_append,
          (controlBlock cs TWDATA).size]
        have hpos : 0 < bytes.length := by simp [hb]
        have hone : (bytes.length + CHUNK_DATA - 1) / CHUNK_DATA = 1 := by
          unfold CHUNK_DATA DATA_MAX_CHUNK_SIZE MAX_ADB_READ at hle ⊢
          lia
        rw [hone]
        lia
    · have hlen : (bytes.take CHUNK_DATA).length = CHUNK_DATA := by
        rw [List.length_take]
        lia
      have hne : bytes.take CHUNK_DATA ≠ [] := by
        intro h
        rw [h] at hlen
        cases hlen
      have hrest : (bytes.drop CHUNK_DATA).length < n := by
        rw [List.length_drop, hn]
        unfold CHUNK_DATA DATA_MAX_CHUNK_SIZE MAX_ADB_READ at hle ⊢
        lia
      have hi : (i + CHUNK_DATA) % CHUNK_DATA = 0 := by
        rw [Nat.add_mod_right, h0]
      have hsplit : framedFrom cs i (bytes.take CHUNK_DATA ++ bytes.drop CHUNK_DATA) = _ :=
        framedFrom_append i _ _
      rw [List.take_append_drop, hlen, framedFrom_start h0 hne (by lia)] at hsplit
      rw [hsplit, List.length_append, List.length_append, hlen, (controlBlock cs TWDATA).size,
        ih _ hrest _ _ hi rfl, List.length_drop]
      unfold CHUNK_DATA DATA_MAX_CHUNK_SIZE MAX_ADB_READ at hle ⊢
      lia

theorem length_payload (data : List UInt8) : (payload data).length % CHUNK_DATA = 0 := by
  rw [payload, List.length_append, List.length_replicate, dataPadding]
  unfold CHUNK_DATA DATA_MAX_CHUNK_SIZE MAX_ADB_READ
  split <;> lia

/-- The padding that `backup` computes from the bytes written. -/
theorem paddingBytes_framed (data : List UInt8) :
    paddingBytes (framedFrom cs 0 data).length = dataPadding data.length := by
  rw [length_framedFrom 0 data rfl, paddingBytes, dataPadding]
  unfold CHUNK_DATA DATA_MAX_CHUNK_SIZE MAX_ADB_READ
  split <;> split <;> omega

/-- The padding goes on with the chunk that the data ends in. -/
theorem framed_padding (data : List UInt8) :
    framedFrom cs 0 (payload data) =
      framedFrom cs 0 data ++ List.replicate (dataPadding data.length) 0 := by
  rw [payload, framedFrom_append, Nat.zero_add]
  congr 1
  rw [dataPadding]
  split
  · rfl
  · rename_i h
    have hlt : data.length % CHUNK_DATA < CHUNK_DATA := Nat.mod_lt _ (by decide)
    apply framedFrom_inside h
    rw [List.length_replicate]
    omega

theorem framedFrom_bytesOf {blocks : List Block} {i : Nat} (hi : i % CHUNK_DATA = 0)
    (h : blocks.length % CHUNK_BLOCKS = 0) :
    framedFrom cs i (bytesOf blocks) = bytesOf (inChunks cs blocks) := by
  obtain ⟨n, hn⟩ : ∃ n, n = blocks.length := ⟨_, rfl⟩
  induction n using Nat.strongRecOn generalizing i blocks with
  | ind n ih =>
    cases hb : blocks with
    | nil =>
      rw [inChunks]
      rfl
    | cons b bs =>
      have hpos : 0 < blocks.length := by simp [hb]
      have htake : (blocks.take CHUNK_BLOCKS).length = CHUNK_BLOCKS := by
        rw [List.length_take]
        unfold CHUNK_BLOCKS at h ⊢
        lia
      have hchunk : (bytesOf (blocks.take CHUNK_BLOCKS)).length = CHUNK_DATA := by
        rw [length_bytesOf, htake, chunkData_eq]
      have hne : bytesOf (blocks.take CHUNK_BLOCKS) ≠ [] := by
        intro he
        rw [he] at hchunk
        cases hchunk
      have hsplit : bytesOf blocks =
          bytesOf (blocks.take CHUNK_BLOCKS) ++ bytesOf (blocks.drop CHUNK_BLOCKS) := by
        rw [← bytesOf_append, List.take_append_drop]
      have hdrop : (blocks.drop CHUNK_BLOCKS).length = blocks.length - CHUNK_BLOCKS :=
        List.length_drop
      have hrest : framedFrom cs (i + CHUNK_DATA) (bytesOf (blocks.drop CHUNK_BLOCKS)) =
          bytesOf (inChunks cs (blocks.drop CHUNK_BLOCKS)) := by
        refine ih (blocks.drop CHUNK_BLOCKS).length ?_ ?_ ?_ rfl
        · unfold CHUNK_BLOCKS at hdrop h ⊢
          lia
        · rw [Nat.add_mod_right, hi]
        · unfold CHUNK_BLOCKS at hdrop h ⊢
          lia
      have hcons : inChunks cs blocks = controlBlock cs TWDATA :: (blocks.take CHUNK_BLOCKS ++
          inChunks cs (blocks.drop CHUNK_BLOCKS)) := by
        rw [hb, inChunks]
        rfl
      rw [← hb, hsplit, framedFrom_append, framedFrom_start hi hne (by lia), hchunk, hrest, hcons,
        List.append_assoc]
      show _ = (controlBlock cs TWDATA).bytes ++ bytesOf _
      rw [bytesOf_append]

theorem length_payloadBlocks (data : List UInt8) :
    (payloadBlocks data).length % CHUNK_BLOCKS = 0 ∧
      bytesOf (payloadBlocks data) = payload data := by
  obtain ⟨m, hm⟩ : ∃ m, (payload data).length = MAX_ADB_READ * (CHUNK_BLOCKS * m) := by
    refine ⟨(payload data).length / CHUNK_DATA, ?_⟩
    have hmod := length_payload data
    rw [← Nat.mul_assoc, ← chunkData_eq, Nat.mul_comm]
    exact (Nat.div_mul_cancel (Nat.dvd_of_mod_eq_zero hmod)).symm
  obtain ⟨h1, h2⟩ := bytesOf_blocksOf (CHUNK_BLOCKS * m) hm
  exact ⟨by rw [payloadBlocks, h2, Nat.mul_mod_right], h1⟩

/-- **The padded data is written in chunks, each with a data header in front.** -/
theorem framed_payload (data : List UInt8) :
    framedFrom cs 0 (payload data) = bytesOf (inChunks cs (payloadBlocks data)) := by
  obtain ⟨hlen, hbytes⟩ := length_payloadBlocks data
  rw [← framedFrom_bytesOf (Nat.zero_mod _) hlen, hbytes]

/-! ## The stream -/

/-- The stream of a partition: its header, its data in chunks, and its trailer. -/
def partBlocks (cs : Checksums) (p : Partition) : List Block :=
  p.header :: inChunks cs (payloadBlocks p.data) ++
    [md5Trailer cs (payload p.data) p.header.fileSize]

/-- The stream of a backup. -/
def streamBlocks (cs : Checksums) (e : Ends) (parts : List Partition) : List Block :=
  e.streamHdr :: parts.flatMap (partBlocks cs) ++ [e.endadb]

theorem bytesOf_partBlocks (p : Partition) :
    bytesOf (partBlocks cs p) =
      p.header.bytes ++ framedFrom cs 0 p.data ++
        List.replicate (dataPadding p.data.length) 0 ++
        (md5Trailer cs (payload p.data) p.header.fileSize).bytes := by
  rw [partBlocks, List.cons_append]
  show p.header.bytes ++ bytesOf (inChunks cs (payloadBlocks p.data) ++ [_]) = _
  rw [bytesOf_append, ← framed_payload, framed_padding]
  simp [bytesOf]

end Recovery.Adbbu
