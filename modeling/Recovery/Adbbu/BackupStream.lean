import Recovery.Adbbu.Framing

/-!
# The two sides of a backup

* `Session.StepOk` — a read from the data fifo gets data of the partition whose header was received
  last, and `TWEOF` finds the fifo empty and closed.
* `Session.Reached` — the states of all runs whose steps are such.
* `Twrp.pendingControl`, `Twrp.pendingData`, `Sends` — what TWRP is still going to send.
* `Synced`, `Writing`, `Between` — the counters of `backup` and what it has written.
* `dataRead_bytes`, `extraRead_bytes`, `take_tagged` — a read of data.

A byte in the data fifo is tagged with the partition it belongs to.  The tag is not in the source:
it says which data a read got, and nothing that the code does depends on it.
-/

set_option autoImplicit false

namespace Recovery.Adbbu

open Recovery.Lib

variable {cs : Checksums} {e : Ends}

/-- What a step of `backup` needs. -/
def Session.StepOk (c : Choice) (s : Session) : Prop :=
  match c with
  | .twrp _ _ => True
  | .backup k =>
    match s.backup.pc with
    | .flush => s.fifo = [] ∧ s.twrp.writer = false
    | .data => ∀ x ∈ s.fifo.take (s.readCount k MAX_ADB_READ), x.1 = s.left
    | .extra bytesLeft => ∀ x ∈ s.fifo.take (s.readCount k bytesLeft), x.1 = s.left
    | _ => True

/-- The states of the runs that start with nothing sent and whose steps are all such. -/
inductive Session.Reached (cs : Checksums) (e : Ends) (parts : List Partition) : Session → Prop
  | init : Reached cs e parts (sessionInit parts)
  | step {s : Session} (h : Reached cs e parts s) (c : Choice) (hok : s.StepOk c) :
    Reached cs e parts (s.step cs e c)

/-- TWRP's structures are of their types and have their checksums. -/
structure Valid (cs : Checksums) (e : Ends) (parts : List Partition) : Prop where
  streamHdr_type : e.streamHdr.getType = TWSTREAMHDR
  streamHdr_crc : crcMatches cs e.streamHdr 40 = true
  endadb_type : e.endadb.getType = TWENDADB
  endadb_crc : crcMatches cs e.endadb 24 = true
  header_type : ∀ p ∈ parts, p.header.getType = TWIMG ∨ p.header.getType = TWFN
  header_crc : ∀ p ∈ parts, crcMatches cs p.header 40 = true

/-! ## What is still to come -/

/-- The structures for some partitions and the end of the stream. -/
def controlOf (cs : Checksums) (e : Ends) : List Partition → List Block
  | [] => [e.endadb]
  | p :: ps => p.header :: controlBlock cs TWEOF :: controlOf cs e ps

def dataOf : List Partition → List (Nat × UInt8)
  | [] => []
  | p :: ps => tagged ps.length p.data ++ dataOf ps

def Twrp.pendingControl (cs : Checksums) (e : Ends) : Twrp → List Block
  | .start ps => e.streamHdr :: controlOf cs e ps
  | .next ps => controlOf cs e ps
  | .opening _ ps => controlBlock cs TWEOF :: controlOf cs e ps
  | .writing _ _ ps => controlBlock cs TWEOF :: controlOf cs e ps
  | .ending _ _ false ps => controlBlock cs TWEOF :: controlOf cs e ps
  | .ending _ _ true ps => controlOf cs e ps
  | .ended => []

def Twrp.pendingData : Twrp → List (Nat × UInt8)
  | .start ps => dataOf ps
  | .next ps => dataOf ps
  | .opening p ps => tagged ps.length p.data ++ dataOf ps
  | .writing _ left ps => tagged ps.length left ++ dataOf ps
  | .ending _ _ _ ps => dataOf ps
  | .ended => []

/-- The partitions that are not finished. -/
def Twrp.parts : Twrp → List Partition
  | .start ps => ps
  | .next ps => ps
  | .opening p ps => p :: ps
  | .writing p _ ps => p :: ps
  | .ending p _ _ ps => p :: ps
  | .ended => []

theorem tagged_append (tag : Nat) (bs bs' : List UInt8) :
    tagged tag (bs ++ bs') = tagged tag bs ++ tagged tag bs' := List.map_append

/-- What is sent is what was pending. -/
structure Sends (cs : Checksums) (e : Ends) (s s' : Session) : Prop where
  control : s'.control ++ s'.twrp.pendingControl cs e = s.control ++ s.twrp.pendingControl cs e
  data : s'.fifo ++ s'.twrp.pendingData = s.fifo ++ s.twrp.pendingData
  parts : s'.twrp.parts <:+ s.twrp.parts
  backup : s'.backup = s.backup
  left : s'.left = s.left

theorem twrpStep_sends (cs : Checksums) (e : Ends) (k : Nat) (b : Bool) (s : Session) :
    Sends cs e s (s.twrpStep cs e k b) := by
  obtain ⟨twrp, control, fifo, backup, left⟩ := s
  cases twrp with
  | start ps => exact ⟨by simp [Session.twrpStep, Twrp.pendingControl], rfl, List.suffix_rfl, rfl, rfl⟩
  | next ps =>
    cases ps with
    | nil => exact ⟨by simp [Session.twrpStep, Twrp.pendingControl, controlOf], rfl,
        List.suffix_rfl, rfl, rfl⟩
    | cons p ps => exact ⟨by simp [Session.twrpStep, Twrp.pendingControl, controlOf], rfl,
        List.suffix_rfl, rfl, rfl⟩
  | opening p ps => exact ⟨rfl, rfl, List.suffix_rfl, rfl, rfl⟩
  | writing p rest ps =>
    cases rest with
    | nil => exact ⟨rfl, rfl, List.suffix_rfl, rfl, rfl⟩
    | cons x xs =>
      refine ⟨rfl, ?_, List.suffix_rfl, rfl, rfl⟩
      show (fifo ++ tagged ps.length ((x :: xs).take k)) ++
        (tagged ps.length ((x :: xs).drop k) ++ dataOf ps) = fifo ++ (tagged ps.length (x :: xs) ++ _)
      rw [List.append_assoc, ← List.append_assoc (tagged _ _), ← tagged_append,
        List.take_append_drop]
  | ending p closed sent ps =>
    cases closed <;> cases sent <;> cases b <;>
      refine ⟨?_, rfl, ?_, rfl, rfl⟩ <;>
      simp [Session.twrpStep, Twrp.pendingControl, Twrp.parts]
  | ended => exact ⟨rfl, rfl, List.suffix_rfl, rfl, rfl⟩

/-! ### Tags -/

theorem length_controlOf (ps : List Partition) :
    (controlOf cs e ps).length = 2 * ps.length + 1 := by
  induction ps with
  | nil => rfl
  | cons p ps ih =>
    show (controlOf cs e ps).length + 2 = 2 * (ps.length + 1) + 1
    lia

theorem tag_lt_of_mem_dataOf {ps : List Partition} {x : Nat × UInt8} (h : x ∈ dataOf ps) :
    x.1 < ps.length := by
  induction ps with
  | nil => cases h
  | cons p ps ih =>
    rw [dataOf, List.mem_append, tagged, List.mem_map] at h
    rw [List.length_cons]
    rcases h with ⟨b, -, rfl⟩ | h
    · exact Nat.lt_succ_self _
    · exact Nat.lt_succ_of_lt (ih h)

variable (cs e) in
/-- The `TWEOF` of a partition comes after its data. -/
theorem pendingControl_of_mem_pendingData {t : Twrp} {x : Nat × UInt8} (h : x ∈ t.pendingData) :
    2 * x.1 + 2 ≤ (t.pendingControl cs e).length := by
  have htagged {ps : List Partition} {bs : List UInt8} (h : x ∈ tagged ps.length bs ++ dataOf ps) :
      2 * x.1 + 2 ≤ (controlOf cs e ps).length + 1 := by
    rw [length_controlOf]
    rw [List.mem_append, tagged, List.mem_map] at h
    rcases h with ⟨b, -, rfl⟩ | h
    · exact Nat.le_refl _
    · have := tag_lt_of_mem_dataOf h
      lia
  have hdata {ps : List Partition} (h : x ∈ dataOf ps) :
      2 * x.1 + 2 ≤ (controlOf cs e ps).length := by
    have := tag_lt_of_mem_dataOf h
    rw [length_controlOf]
    lia
  cases t with
  | start ps => exact Nat.le_succ_of_le (hdata h)
  | next ps => exact hdata h
  | opening p ps => exact htagged h
  | writing p left ps => exact htagged h
  | ending p closed sent ps =>
    cases sent with
    | false => exact Nat.le_succ_of_le (hdata h)
    | true => exact hdata h
  | ended => cases h

/-- At the `TWEOF` of a partition all of its data is in the fifo or was read. -/
theorem nil_of_flush {t : Twrp} {control : List Block} {qs : List Partition} {r : List UInt8}
    (hc : control ++ t.pendingControl cs e = controlOf cs e qs)
    (hd : t.pendingData = tagged qs.length r ++ dataOf qs) : r = [] := by
  cases r with
  | nil => rfl
  | cons b r =>
    have hmem : (qs.length, b) ∈ t.pendingData := by
      rw [hd]
      exact List.mem_cons_self
    have hle := pendingControl_of_mem_pendingData cs e hmem
    have hlen := congrArg List.length hc
    rw [List.length_append, length_controlOf] at hlen
    dsimp only at hle
    lia

/-- When the data fifo is empty and closed after some data of a partition, that was all of it. -/
theorem nil_of_closed {t : Twrp} {control : List Block} {parts qs : List Partition} {p : Partition}
    {d r : List UInt8} (hw : t.writer = false)
    (hc : control ++ t.pendingControl cs e = controlBlock cs TWEOF :: controlOf cs e qs)
    (hd : t.pendingData = tagged qs.length r ++ dataOf qs) (ht : t.parts <:+ parts)
    (hp : p :: qs <:+ parts) (hdata : p.data = d ++ r) (hne : d ≠ []) : r = [] := by
  cases hr : r with
  | nil => rfl
  | cons b r' =>
    have hmem : (qs.length, b) ∈ t.pendingData := by
      rw [hd, hr]
      exact List.mem_cons_self
    have hle := pendingControl_of_mem_pendingData cs e hmem
    have hlen := congrArg List.length hc
    rw [List.length_append, List.length_cons, length_controlOf] at hlen
    dsimp only at hle
    -- only before the fifo is opened can data be missing
    cases t with
    | start ps =>
      have hlt := tag_lt_of_mem_dataOf hmem
      rw [Twrp.pendingControl, List.length_cons, length_controlOf] at hlen
      dsimp only at hlt
      lia
    | next ps =>
      have hlt := tag_lt_of_mem_dataOf hmem
      rw [Twrp.pendingControl, length_controlOf] at hlen
      dsimp only at hlt
      lia
    | opening p' ps =>
      rw [Twrp.pendingControl, List.length_cons, length_controlOf] at hlen hle
      have heq : p' :: ps = p :: qs := by
        refine (List.suffix_of_suffix_length_le ht hp ?_).eq_of_length ?_
        · show ps.length + 1 ≤ qs.length + 1
          lia
        · show ps.length + 1 = qs.length + 1
          lia
      obtain ⟨rfl, rfl⟩ := List.cons.inj heq
      have hsame : tagged ps.length p'.data = tagged ps.length r := List.append_cancel_right hd
      have hlens := congrArg List.length hsame
      rw [tagged, tagged, List.length_map, List.length_map, hdata, List.length_append] at hlens
      exact absurd (List.eq_nil_of_length_eq_zero (by lia)) hne
    | writing p' left ps => cases hw
    | ending p' closed sent ps =>
      have hlt := tag_lt_of_mem_dataOf hmem
      dsimp only at hlt
      cases sent with
      | false =>
        rw [Twrp.pendingControl, List.length_cons, length_controlOf] at hlen
        lia
      | true =>
        rw [Twrp.pendingControl, length_controlOf] at hlen
        lia
    | ended => cases hmem

/-! ## The function between its reads -/

/-- How much of the current chunk is filled, with its header, after `n` bytes of data. -/
def chunkFill (n : Nat) : Nat := if n % CHUNK_DATA = 0 then 0 else MAX_ADB_READ + n % CHUNK_DATA

/-- The counters agree with the data written so far. -/
structure Synced (d : List UInt8) (b : Backup) : Prop where
  dataChunkBytes : b.dataChunkBytes = chunkFill d.length
  firstDataPacket : b.firstDataPacket = decide (d.length % CHUNK_DATA = 0)
  /-- The chunk takes another whole read, or just what the filling loop is to get. -/
  room : ((b.pc = .control ∨ b.pc = .data) ∧
      d.length % CHUNK_DATA + MAX_ADB_READ ≤ CHUNK_DATA) ∨
    (b.pc = .extra (CHUNK_DATA - d.length % CHUNK_DATA) ∧ d.length % CHUNK_DATA ≠ 0)

/-- The header of `p` was received after `w` was written, and data `d` of it. -/
structure Writing (cs : Checksums) (w : List UInt8) (p : Partition) (d : List UInt8)
    (b : Backup) : Prop where
  written : b.written = w ++ p.header.bytes ++ framedFrom cs 0 d
  digest : b.digest = d
  fileBytes : b.fileBytes = (framedFrom cs 0 d).length
  md5fnsize : b.md5fnsize = p.header.fileSize

/-- No partition is open. -/
structure Between (w : List UInt8) (b : Backup) : Prop where
  written : b.written = w
  pc : b.pc = .control ∨ b.pc = .data
  dataChunkBytes : b.dataChunkBytes = 0
  fileBytes : b.fileBytes = 0
  firstDataPacket : b.firstDataPacket = true

theorem enterData_pc (b : Backup) : (enterData b).pc = .control ∨ (enterData b).pc = .data := by
  unfold enterData
  dsimp only
  split
  · exact .inr rfl
  · exact .inl rfl

theorem mod_add_lt {n m : Nat} (h : n % CHUNK_DATA + m < CHUNK_DATA) :
    (n + m) % CHUNK_DATA = n % CHUNK_DATA + m := by
  unfold CHUNK_DATA DATA_MAX_CHUNK_SIZE MAX_ADB_READ at h ⊢
  lia

theorem mod_add_eq {n m : Nat} (h : n % CHUNK_DATA + m = CHUNK_DATA) :
    (n + m) % CHUNK_DATA = 0 := by
  unfold CHUNK_DATA DATA_MAX_CHUNK_SIZE MAX_ADB_READ at h ⊢
  lia

/-- Data that is taken without a header in front. -/
theorem Writing.take {w : List UInt8} {p : Partition} {d bs : List UInt8} {b : Backup}
    (hb : Writing cs w p d b) (h0 : d.length % CHUNK_DATA ≠ 0)
    (h : d.length % CHUNK_DATA + bs.length ≤ CHUNK_DATA) :
    Writing cs w p (d ++ bs) (takeData bs b) := by
  have hframe : framedFrom cs 0 (d ++ bs) = framedFrom cs 0 d ++ bs := by
    rw [framedFrom_append, Nat.zero_add, framedFrom_inside h0 h]
  refine { hb with written := ?_, digest := ?_, fileBytes := ?_ }
  · show b.written ++ bs = _
    rw [hb.written, hframe, List.append_assoc]
  · show b.digest ++ bs = _
    rw [hb.digest]
  · show b.fileBytes + bs.length = _
    rw [hb.fileBytes, hframe, List.length_append]

/-- Data at the start of a chunk, with its header. -/
theorem Writing.start {w : List UInt8} {p : Partition} {d bs : List UInt8} {b : Backup}
    (hb : Writing cs w p d b) (h0 : d.length % CHUNK_DATA = 0) (hf : b.firstDataPacket = true)
    (hne : bs ≠ []) (h : bs.length ≤ CHUNK_DATA) :
    Writing cs w p (d ++ bs) (takeData bs (chunkHeader cs b)) := by
  have hframe : framedFrom cs 0 (d ++ bs) =
      framedFrom cs 0 d ++ ((controlBlock cs TWDATA).bytes ++ bs) := by
    rw [framedFrom_append, Nat.zero_add, framedFrom_start h0 hne h]
  unfold chunkHeader
  rw [if_pos hf]
  refine { hb with written := ?_, digest := ?_, fileBytes := ?_ }
  · show b.written ++ (controlBlock cs TWDATA).bytes ++ bs = _
    rw [hb.written, hframe]
    simp only [List.append_assoc]
  · show b.digest ++ bs = _
    rw [hb.digest]
  · show b.fileBytes + MAX_ADB_READ + bs.length = _
    rw [hb.fileBytes, hframe, List.length_append, List.length_append, (controlBlock cs TWDATA).size,
      Nat.add_assoc]

/-- A read of the data loop. -/
theorem dataRead_bytes {w : List UInt8} {p : Partition} {d bs : List UInt8} {b : Backup}
    (hb : Writing cs w p d b) (hs : Synced d b) (hpc : b.pc = .data) (hne : bs ≠ [])
    (hlen : bs.length ≤ MAX_ADB_READ) :
    Writing cs w p (d ++ bs) (dataRead cs (.bytes bs) b) ∧
      Synced (d ++ bs) (dataRead cs (.bytes bs) b) := by
  have hpos := List.length_pos_of_ne_nil hne
  have hsize : CHUNK_DATA + MAX_ADB_READ = DATA_MAX_CHUNK_SIZE := rfl
  have hroom : d.length % CHUNK_DATA + MAX_ADB_READ ≤ CHUNK_DATA := by
    rcases hs.room with ⟨-, hroom⟩ | ⟨hextra, -⟩
    · exact hroom
    · rw [hpc] at hextra
      cases hextra
  obtain ⟨u, hu⟩ : ∃ u, u = takeData bs (chunkHeader cs b) := ⟨_, rfl⟩
  obtain ⟨hw, hfill, hfirst, hupc⟩ : Writing cs w p (d ++ bs) u ∧
      u.dataChunkBytes = MAX_ADB_READ + (d.length % CHUNK_DATA + bs.length) ∧
      u.firstDataPacket = false ∧ u.pc = .data := by
    have hdcb := hs.dataChunkBytes
    have hfp := hs.firstDataPacket
    rw [chunkFill] at hdcb
    by_cases h0 : d.length % CHUNK_DATA = 0
    · rw [if_pos h0] at hdcb
      rw [decide_eq_true h0] at hfp
      refine ⟨hu ▸ hb.start h0 hfp hne (by lia), ?_, ?_, ?_⟩
      · rw [hu, takeData, chunkHeader, if_pos hfp]
        dsimp only
        lia
      · rw [hu, takeData, chunkHeader, if_pos hfp]
      · rw [hu, takeData, chunkHeader, if_pos hfp]
        exact hpc
    · rw [if_neg h0] at hdcb
      rw [decide_eq_false h0] at hfp
      have hheader : chunkHeader cs b = b := by
        rw [chunkHeader, if_neg (by rw [hfp]; decide)]
      rw [hheader] at hu
      refine ⟨hu ▸ hb.take h0 (by lia), ?_, hu ▸ hfp, hu ▸ hpc⟩
      rw [hu, takeData]
      dsimp only
      lia
  unfold dataRead
  dsimp only
  rw [← hu]
  split
  · -- the chunk is full
    rename_i hfull
    have hmod : (d.length + bs.length) % CHUNK_DATA = 0 := mod_add_eq (by lia)
    refine ⟨{ hw with }, ?_, ?_, .inl ⟨.inr hupc, ?_⟩⟩
    · rw [List.length_append, chunkFill, if_pos hmod]
      rfl
    · rw [List.length_append, decide_eq_true hmod]
      rfl
    · rw [List.length_append, hmod]
      decide
  · rename_i hfull
    have hlt : d.length % CHUNK_DATA + bs.length < CHUNK_DATA := by lia
    have hmod := mod_add_lt hlt
    have hne0 : ¬ (d.length + bs.length) % CHUNK_DATA = 0 := by lia
    have hchunk : chunkFill (d.length + bs.length) =
        MAX_ADB_READ + (d.length % CHUNK_DATA + bs.length) := by
      rw [chunkFill, if_neg hne0, hmod]
    split
    · rename_i hextra
      refine ⟨{ hw with }, ?_, ?_, .inr ⟨?_, ?_⟩⟩
      · rw [List.length_append, hchunk]
        exact hfill
      · rw [List.length_append, decide_eq_false hne0]
        exact hfirst
      · rw [List.length_append, hmod]
        dsimp only
        congr 1
        lia
      · rwa [List.length_append]
    · rename_i hextra
      refine ⟨hw, ?_, ?_, .inl ⟨.inr hupc, ?_⟩⟩
      · rw [List.length_append, hchunk]
        exact hfill
      · rw [List.length_append, decide_eq_false hne0]
        exact hfirst
      · rw [List.length_append, hmod]
        lia

/-- A read of the loop that fills up the chunk. -/
theorem extraRead_bytes {w : List UInt8} {p : Partition} {d bs : List UInt8} {b : Backup}
    {bytesLeft : Nat} (hb : Writing cs w p d b) (hs : Synced d b) (hpc : b.pc = .extra bytesLeft)
    (hlen : bs.length ≤ bytesLeft) :
    Writing cs w p (d ++ bs) (extraRead bytesLeft (.bytes bs) b) ∧
      Synced (d ++ bs) (extraRead bytesLeft (.bytes bs) b) := by
  obtain ⟨hleft, h0⟩ : bytesLeft = CHUNK_DATA - d.length % CHUNK_DATA ∧
      d.length % CHUNK_DATA ≠ 0 := by
    rcases hs.room with ⟨hpc', -⟩ | ⟨hextra, h0⟩
    · rw [hpc] at hpc'
      rcases hpc' with h | h <;> cases h
    · rw [hpc] at hextra
      exact ⟨BackupPc.extra.inj hextra, h0⟩
  have hmodlt : d.length % CHUNK_DATA < CHUNK_DATA := Nat.mod_lt _ (by decide)
  have hw : Writing cs w p (d ++ bs) (takeData bs b) := hb.take h0 (by lia)
  have hdcb : (takeData bs b).dataChunkBytes =
      MAX_ADB_READ + (d.length % CHUNK_DATA + bs.length) := by
    show b.dataChunkBytes + bs.length = _
    rw [hs.dataChunkBytes, chunkFill, if_neg h0, Nat.add_assoc]
  have hfp : (takeData bs b).firstDataPacket = false := by
    show b.firstDataPacket = false
    rw [hs.firstDataPacket, decide_eq_false h0]
  unfold extraRead
  dsimp only
  split
  · rename_i hfull
    have hmod : (d.length + bs.length) % CHUNK_DATA = 0 := mod_add_eq (by lia)
    refine ⟨{ hw with }, ?_, ?_, .inl ⟨.inr rfl, ?_⟩⟩
    · rw [List.length_append, chunkFill, if_pos hmod]
      rfl
    · rw [List.length_append, decide_eq_true hmod]
      rfl
    · rw [List.length_append, hmod]
      decide
  · rename_i hfull
    have hmod : (d.length + bs.length) % CHUNK_DATA = d.length % CHUNK_DATA + bs.length :=
      mod_add_lt (by lia)
    have hne0 : ¬ (d.length + bs.length) % CHUNK_DATA = 0 := by lia
    refine ⟨{ hw with }, ?_, ?_, .inr ⟨?_, ?_⟩⟩
    · rw [List.length_append, chunkFill, if_neg hne0, hmod]
      exact hdcb
    · rw [List.length_append, decide_eq_false hne0]
      exact hfp
    · rw [List.length_append, hmod, hleft, Nat.sub_sub]
    · rwa [List.length_append]

/-! ## The data fifo -/

theorem readCount_bounds {s : Session} {k n : Nat} (hn : 0 < n) (hne : s.fifo ≠ []) :
    0 < s.readCount k n ∧ s.readCount k n ≤ n ∧ s.readCount k n ≤ s.fifo.length := by
  have hpos := List.length_pos_of_ne_nil hne
  unfold Session.readCount
  lia

/-- A read that gets bytes of one partition only gets the next bytes of that partition. -/
theorem take_tagged {fifo rest D : List (Nat × UInt8)} {tag c : Nat} {r : List UInt8}
    (hd : fifo ++ rest = tagged tag r ++ D) (hD : ∀ x ∈ D, x.1 < tag) (hc : c ≤ fifo.length)
    (htag : ∀ x ∈ fifo.take c, x.1 = tag) :
    ∃ r', r = (fifo.take c).map Prod.snd ++ r' ∧ fifo.drop c ++ rest = tagged tag r' ++ D := by
  have hlen : (tagged tag r).length = r.length := List.length_map _
  have hle : c ≤ r.length := by
    apply Nat.le_of_not_lt
    intro hlt
    cases D with
    | nil =>
      have := congrArg List.length hd
      rw [List.length_append, List.append_nil, hlen] at this
      lia
    | cons x D =>
      have hmem : x ∈ fifo.take c := by
        have htake : fifo.take c = (tagged tag r ++ x :: D).take c := by
          rw [← hd, List.take_append_of_le_length hc]
        rw [htake, List.take_append, List.take_of_length_le (by lia), hlen]
        apply List.mem_append_right
        rw [show c - r.length = (c - r.length - 1) + 1 by lia, List.take_succ_cons]
        exact List.mem_cons_self
      have hlt := hD x List.mem_cons_self
      rw [htag x hmem] at hlt
      exact Nat.lt_irrefl _ hlt
  refine ⟨r.drop c, ?_, ?_⟩
  · have htake : fifo.take c = tagged tag (r.take c) := by
      have hfifo : (fifo ++ rest).take c = fifo.take c := List.take_append_of_le_length hc
      rw [← hfifo, hd,
        List.take_append_of_le_length (by lia), tagged, tagged, List.map_take]
    rw [htake, tagged, List.map_map]
    simp
  · rw [← List.drop_append_of_le_length hc, hd, List.drop_append_of_le_length (by lia), tagged,
      tagged, List.map_drop]

end Recovery.Adbbu
