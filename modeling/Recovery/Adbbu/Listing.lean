import Recovery.Adbbu.BackupRun
import Recovery.Adbbu.Delivery
import Recovery.Lib.CString
import Recovery.Lib.Loop

/-!
# Listing a backup file (`libtwadbbu.cpp`)

* `checkADBBackupFile`, `getADBBackupFiles` — the two functions that read a backup file; asserts are
  compiled out.
* `reads` — what the buffer holds after each read that gets something.
* `scan` — the loop over these blocks, with the blocks that the names are taken from.
* `returns_iff` — the files on which the listing comes to an end.
* `lists_iff` — the streams of which it lists the headers and nothing else.
* `listing_spec` — both, for every file and for every run of a backup.

The listing does not follow the structure of the stream: it inspects every block, data too, and
keeps the buffer of a read that failed.
-/

set_option autoImplicit false

namespace Recovery.Adbbu

open Recovery.Lib

variable (cs : Checksums)

/-- `name` of `twfilehdr`, without its directory. -/
def fileName (b : Block) : List UInt8 :=
  ((cStr (b.field 44 468)).reverse.takeWhile (· ≠ 47)).reverse

/-- A name that fills its field would be read on behind the structure. -/
def terminated (b : Block) : Bool := 0 ∈ b.field 44 468

/-- What the loop does with a block. -/
inductive Verdict where
  | skip
  | take
  /-- An end header. -/
  | finish
  /-- The checksum of a header does not match. -/
  | reject
  | overread
deriving DecidableEq

def inspect (b : Block) : Verdict :=
  if b.getType = TWENDADB then
    if crcMatches cs b 24 then .finish else .reject
  else if isFileHeader b then
    if crcMatches cs b 40 then if terminated b then .take else .overread
    else .reject
  else .skip

structure Listing where
  buf : Block
  /-- What is still to be read. -/
  rest : List UInt8
  adbPartitions : List (List UInt8)

/-- `read(fd, &buf, sizeof(buf))` of something: a short read leaves the end of the buffer. -/
def readInto (buf : Block) (rest : List UInt8) : Block := buf.put 0 (rest.take MAX_ADB_READ)

/-- One round of the loop; without a result, a name is read on behind its structure. -/
def listRound (s : Listing) : Listing ⊕ Option (List (List UInt8)) :=
  if s.rest = [] then .inl s
  else
    let b := readInto s.buf s.rest
    let s' : Listing := ⟨b, s.rest.drop MAX_ADB_READ, s.adbPartitions⟩
    match inspect cs b with
    | .skip => .inl s'
    | .take => .inl { s' with adbPartitions := s.adbPartitions ++ [fileName b] }
    | .finish => .inr (some s.adbPartitions)
    | .reject => .inr (some [])
    | .overread => .inr none

/-- `Get_ADB_Backup_Files` with at most `fuel` rounds; `buf` is uninitialized, and a file that cannot
be opened is none. -/
def getADBBackupFiles (buf : Block) (file : Option (List UInt8)) (fuel : Nat) :
    Option (Option (List (List UInt8))) :=
  match file with
  | none => some (some [])
  | some content => loop (listRound cs) fuel ⟨buf, content, []⟩

/-- `Check_ADB_Backup_File`. -/
def checkADBBackupFile (buf : Block) (file : Option (List UInt8)) : Bool :=
  match file with
  | none => false
  | some content => crcMatches cs (readInto buf content) 40

/-! ## The blocks that are read -/

def reads (buf : Block) (rest : List UInt8) : List Block :=
  if rest = [] then []
  else readInto buf rest :: reads (readInto buf rest) (rest.drop MAX_ADB_READ)
termination_by rest.length
decreasing_by
  rename_i hne
  have hpos := List.length_pos_of_ne_nil hne
  rw [List.length_drop, MAX_ADB_READ]
  omega

theorem readInto_bytes (buf b : Block) (rest : List UInt8) : readInto buf (b.bytes ++ rest) = b := by
  have hbytes : (readInto buf (b.bytes ++ rest)).bytes = b.bytes := by
    unfold readInto
    rw [← b.size, List.take_left, Block.put_bytes (by rw [b.size, Nat.zero_add])]
    unfold splice
    rw [List.take_zero, List.nil_append, List.drop_eq_nil_of_le, List.append_nil]
    rw [buf.size, b.size, Nat.zero_add]
  exact Block.mk.injEq .. ▸ hbytes

/-- A file of whole blocks. -/
theorem reads_bytesOf (buf : Block) (blocks : List Block) : reads buf (bytesOf blocks) = blocks := by
  induction blocks generalizing buf with
  | nil =>
    rw [reads]
    exact if_pos rfl
  | cons b blocks ih =>
    have hcons : bytesOf (b :: blocks) = b.bytes ++ bytesOf blocks := rfl
    have hne : b.bytes ++ bytesOf blocks ≠ [] := by
      intro hnil
      have hlen := congrArg List.length hnil
      rw [List.length_append, b.size, MAX_ADB_READ, List.length_nil] at hlen
      lia
    rw [hcons, reads, if_neg hne, readInto_bytes, ← b.size, List.drop_left, ih]

variable {β : Type} (f : β → Block)

/-- The loop over some blocks: where it ends, and the blocks that it takes the names from. -/
def scan : List β → List β → Option (Option (List β))
  | [], _ => none
  | x :: xs, taken =>
    match inspect cs (f x) with
    | .skip => scan xs taken
    | .take => scan xs (taken ++ [x])
    | .finish => some (some taken)
    | .reject => some (some [])
    | .overread => some none

/-- The names that were taken from some blocks. -/
def namesOf (xs : List β) : List (List UInt8) := xs.map fun x => fileName (f x)

variable {cs f}

/-- **The loop is the scan of the blocks that are read**; at the end of the file it goes on. -/
theorem loop_scan {buf : Block} {rest : List UInt8} {xs taken : List β}
    (h : xs.map f = reads buf rest) (r : Option (List (List UInt8))) :
    (∃ fuel, loop (listRound cs) fuel ⟨buf, rest, namesOf f taken⟩ = some r) ↔
      (scan cs f xs taken).map (Option.map (namesOf f)) = some r := by
  induction xs generalizing buf rest taken with
  | nil =>
    have hrest : rest = [] := by
      by_contra hne
      rw [reads, if_neg hne] at h
      cases h
    subst hrest
    constructor
    · rintro ⟨fuel, hr⟩
      have hstuck : ∀ s : Listing, s.rest = [] → ∃ s', listRound cs s = .inl s' ∧ s'.rest = [] :=
        fun s hs => ⟨s, if_pos hs, hs⟩
      exact (not_ends_of_stuck hstuck rfl ⟨fuel, r, hr⟩).elim
    · exact nofun
  | cons x xs ih =>
    have hne : rest ≠ [] := by
      rintro rfl
      rw [reads, if_pos rfl] at h
      cases h
    rw [reads, if_neg hne, List.map_cons] at h
    obtain ⟨hx, hxs⟩ := List.cons.inj h
    have hround : ∀ taken, listRound cs ⟨buf, rest, namesOf f taken⟩ =
        match inspect cs (f x) with
        | .skip => .inl ⟨f x, rest.drop MAX_ADB_READ, namesOf f taken⟩
        | .take => .inl ⟨f x, rest.drop MAX_ADB_READ, namesOf f (taken ++ [x])⟩
        | .finish => .inr (some (namesOf f taken))
        | .reject => .inr (some [])
        | .overread => .inr none := by
      intro taken
      unfold listRound namesOf
      rw [if_neg hne, ← hx, List.map_append]
      rfl
    rw [← hx] at hxs
    specialize hround taken
    unfold scan
    cases hv : inspect cs (f x) with
    | skip =>
      rw [hv] at hround
      rw [returns_next hround]
      exact ih hxs
    | take =>
      rw [hv] at hround
      rw [returns_next hround]
      exact ih hxs
    | finish =>
      rw [hv] at hround
      rw [returns_result hround]
      simp
    | reject =>
      rw [hv] at hround
      rw [returns_result hround]
      simp [namesOf]
    | overread =>
      rw [hv] at hround
      rw [returns_result hround]
      simp

theorem getADBBackupFiles_scan (cs : Checksums) {buf : Block} {content : List UInt8} {xs : List β}
    (h : xs.map f = reads buf content) (r : Option (List (List UInt8))) :
    (∃ fuel, getADBBackupFiles cs buf (some content) fuel = some r) ↔
      (scan cs f xs []).map (Option.map (namesOf f)) = some r :=
  @loop_scan cs β f buf content xs [] h r

/-! ## Where the listing ends -/

/-- Blocks with an end header or a header of a wrong checksum, and no name in front of it that is not
terminated. -/
def Bounded (cs : Checksums) (blocks : List Block) : Prop :=
  ∃ before b after, blocks = before ++ b :: after ∧
    (b.getType = TWENDADB ∨ (isFileHeader b = true ∧ crcMatches cs b 40 = false)) ∧
    ∀ x ∈ before, isFileHeader x = true → terminated x = true

theorem inspect_finish {b : Block} (h : b.getType = TWENDADB) :
    inspect cs b = if crcMatches cs b 24 then .finish else .reject := by
  unfold inspect
  rw [if_pos h]

theorem isFileHeader_endadb {b : Block} (h : b.getType = TWENDADB) : isFileHeader b = false := by
  unfold isFileHeader
  rw [h]
  decide +kernel

theorem inspect_header {b : Block} (h : isFileHeader b = true) :
    inspect cs b = if crcMatches cs b 40 then if terminated b then .take else .overread
      else .reject := by
  have htype : b.getType ≠ TWENDADB := by
    intro htype
    rw [isFileHeader_endadb htype] at h
    cases h
  unfold inspect
  rw [if_neg htype, if_pos h]

/-- Neither a header nor the end. -/
def quiet (b : Block) : Bool := b.getType ≠ TWENDADB && !isFileHeader b

theorem inspect_quiet {b : Block} (h : quiet b = true) : inspect cs b = .skip := by
  simp only [quiet, ne_eq, decide_not, Bool.and_eq_true, Bool.not_eq_eq_eq_not, Bool.not_true,
    decide_eq_false_iff_not] at h
  unfold inspect
  rw [if_neg h.1, h.2]
  rfl

/-- A block that is not quiet. -/
theorem not_quiet {b : Block} (h : quiet b = false) :
    b.getType = TWENDADB ∨ isFileHeader b = true := by
  simpa [quiet, or_iff_not_imp_left] using h

/-- One block in front: it stops the scan, or the rest of the scan does. -/
theorem bounded_cons {b : Block} {blocks : List Block} :
    Bounded cs (b :: blocks) ↔
      (b.getType = TWENDADB ∨ (isFileHeader b = true ∧ crcMatches cs b 40 = false)) ∨
        ((isFileHeader b = true → terminated b = true) ∧ Bounded cs blocks) := by
  constructor
  · rintro ⟨before, b', after, heq, hstop, hbefore⟩
    cases before with
    | nil =>
      cases heq
      exact .inl hstop
    | cons x before =>
      cases heq
      refine .inr ⟨hbefore b List.mem_cons_self, before, b', after, rfl, hstop, ?_⟩
      intro x hx
      exact hbefore x (List.mem_cons_of_mem _ hx)
  · rintro (hstop | ⟨hb, before, b', after, rfl, hstop, hbefore⟩)
    · exact ⟨[], b, blocks, rfl, hstop, nofun⟩
    · refine ⟨b :: before, b', after, rfl, hstop, ?_⟩
      intro x hx
      rcases List.mem_cons.1 hx with rfl | hx
      · exact hb
      · exact hbefore x hx

theorem scan_returns (blocks taken : List Block) :
    (∃ names, scan cs id blocks taken = some (some names)) ↔ Bounded cs blocks := by
  induction blocks generalizing taken with
  | nil =>
    constructor
    · rintro ⟨names, h⟩
      cases h
    · rintro ⟨before, b, after, h, -⟩
      cases before <;> cases h
  | cons b blocks ih =>
    rw [bounded_cons, scan, id]
    cases hq : quiet b with
    | true =>
      rw [inspect_quiet hq]
      simp only [quiet, ne_eq, decide_not, Bool.and_eq_true, Bool.not_eq_eq_eq_not, Bool.not_true,
        decide_eq_false_iff_not] at hq
      simp [ih, hq.1, hq.2]
    | false =>
      rcases not_quiet hq with hend | hheader
      · rw [inspect_finish hend]
        cases crcMatches cs b 24 <;> simp [hend]
      · have htype : b.getType ≠ TWENDADB := by
          intro htype
          rw [isFileHeader_endadb htype] at hheader
          cases hheader
        rw [inspect_header hheader]
        cases hcrc : crcMatches cs b 40 with
        | false => simp [hheader]
        | true =>
          cases hterm : terminated b with
          | false => simp [htype, hheader]
          | true => simp [ih, htype, hheader]

/-- **The end**: a file that can be opened is listed if and only if the blocks that are read are
bounded. -/
theorem returns_iff (buf : Block) (file : Option (List UInt8)) :
    (∃ fuel names, getADBBackupFiles cs buf file fuel = some (some names)) ↔
      ∀ content ∈ file, Bounded cs (reads buf content) := by
  cases file with
  | none =>
    refine ⟨fun _ => nofun, fun _ => ⟨0, [], rfl⟩⟩
  | some content =>
    have hscan := getADBBackupFiles_scan cs (f := id) (List.map_id (reads buf content))
    constructor
    · rintro ⟨fuel, names, h⟩ _ ⟨⟩
      have hresult := (hscan (some names)).1 ⟨fuel, h⟩
      obtain ⟨r, hr, hnames⟩ := Option.map_eq_some_iff.1 hresult
      obtain ⟨taken, rfl, -⟩ := Option.map_eq_some_iff.1 hnames
      exact (scan_returns _ _).1 ⟨taken, hr⟩
    · intro h
      obtain ⟨taken, htaken⟩ := (scan_returns _ []).2 (h content rfl)
      obtain ⟨fuel, hfuel⟩ := (hscan (some (namesOf id taken))).2 (by rw [htaken]; rfl)
      exact ⟨fuel, _, hfuel⟩

/-! ## The stream of a backup -/

/-- The blocks of a partition, and whether they are outside of the data chunks. -/
def partMarks (cs : Checksums) (p : Partition) : List (Block × Bool) :=
  (p.header, true) :: ((inChunks cs (payloadBlocks p.data)).map (·, false) ++
    [(md5Trailer cs (payload p.data) p.header.fileSize, true)])

def streamMarks (cs : Checksums) (e : Ends) (parts : List Partition) : List (Block × Bool) :=
  (e.streamHdr, true) :: (parts.flatMap (partMarks cs) ++ [(e.endadb, true)])

theorem partMarks_blocks (p : Partition) : (partMarks cs p).map Prod.fst = partBlocks cs p := by
  simp [partMarks, partBlocks, Function.comp_def]

theorem streamMarks_blocks (e : Ends) (parts : List Partition) :
    (streamMarks cs e parts).map Prod.fst = streamBlocks cs e parts := by
  simp [streamMarks, streamBlocks, List.map_flatMap, partMarks_blocks]

/-- The headers outside of the data chunks. -/
def headersOf (parts : List Partition) : List (Block × Bool) := parts.map fun p => (p.header, true)

/-- The names that are returned are taken from these headers, in order, and from nothing else. -/
def ListsExactly (cs : Checksums) (e : Ends) (parts : List Partition) : Prop :=
  scan cs Prod.fst (streamMarks cs e parts) [] = some (some (headersOf parts))

/-- A partition whose name is terminated and whose data has no block that looks like a header or like
an end.  In the last partition a block may look like an end, with its checksum: the listing ends
there, and all headers were before. -/
def ClearPart (cs : Checksums) (p : Partition) (last : Bool) : Prop :=
  terminated p.header = true ∧
    ∀ b ∈ (payloadBlocks p.data).find? (!quiet ·),
      last = true ∧ b.getType = TWENDADB ∧ crcMatches cs b 24 = true

def Clear (cs : Checksums) : List Partition → Prop
  | [] => True
  | p :: ps => ClearPart cs p ps.isEmpty ∧ Clear cs ps

theorem quiet_of_type {b : Block} {type : List UInt8} (h : b.getType = type)
    (hend : type ≠ TWENDADB) (himg : type ≠ TWIMG) (hfn : type ≠ TWFN) : quiet b = true := by
  simp [quiet, isFileHeader, h, hend, himg, hfn]

/-- The data headers are quiet. -/
theorem find_inChunks (cs : Checksums) (blocks : List Block) :
    (inChunks cs blocks).find? (!quiet ·) = blocks.find? (!quiet ·) := by
  have hdata : quiet (controlBlock cs TWDATA) = true :=
    quiet_of_type (getType_twdata cs) (by decide +kernel) (by decide +kernel) (by decide +kernel)
  induction blocks using inChunks.induct with
  | case1 =>
    rw [inChunks]
  | case2 b blocks ih =>
    rw [inChunks, List.cons_append, List.find?_cons_of_neg (by simp [hdata]), List.find?_append, ih,
      ← List.find?_append, List.take_append_drop]

theorem scan_quiet {xs ys taken : List β} (h : ∀ x ∈ xs, quiet (f x) = true) :
    scan cs f (xs ++ ys) taken = scan cs f ys taken := by
  induction xs with
  | nil => rfl
  | cons x xs ih =>
    rw [List.cons_append, scan, inspect_quiet (h x List.mem_cons_self)]
    exact ih fun x hx => h x (List.mem_cons_of_mem _ hx)

/-- What was taken is returned, or nothing. -/
theorem scan_extends {xs taken names : List β} (h : scan cs f xs taken = some (some names)) :
    names = [] ∨ taken <+: names := by
  induction xs generalizing taken with
  | nil => cases h
  | cons x xs ih =>
    unfold scan at h
    split at h
    · exact ih h
    · rcases ih h with hnil | hkept
      · exact .inl hnil
      · exact .inr ((List.prefix_append taken [x]).trans hkept)
    · cases h
      exact .inr List.prefix_rfl
    · cases h
      exact .inl rfl
    · cases h

/-- The data chunks up to the first block that is not quiet. -/
theorem scan_chunks (cs : Checksums) {blocks : List Block} {b : Block} (h : blocks.find? (!quiet ·) = some b)
    (rest taken : List (Block × Bool)) :
    quiet b = false ∧ ∃ after,
      scan cs Prod.fst ((inChunks cs blocks).map (·, false) ++ rest) taken =
        scan cs Prod.fst ((b, false) :: after) taken := by
  rw [← find_inChunks cs] at h
  obtain ⟨hb, before, after, hsplit, hbefore⟩ := List.find?_eq_some_iff_append.1 h
  refine ⟨by simpa using hb, after.map (·, false) ++ rest, ?_⟩
  rw [hsplit, List.map_append, List.append_assoc]
  apply scan_quiet
  intro x hx
  obtain ⟨c, hc, rfl⟩ := List.mem_map.1 hx
  simpa using hbefore c hc

/-- A block of data that is not quiet: the rest is right only if it ends the listing in time. -/
theorem scan_not_quiet {b : Block} (hb : quiet b = false) {after taken hs : List (Block × Bool)}
    {x : Block × Bool} (hs_true : ∀ y ∈ hs, y.2 = true) :
    scan cs Prod.fst ((b, false) :: after) (taken ++ [x]) = some (some (taken ++ x :: hs)) ↔
      hs = [] ∧ b.getType = TWENDADB ∧ crcMatches cs b 24 = true := by
  have hsplit : taken ++ x :: hs = (taken ++ [x]) ++ hs := by rw [List.append_assoc]; rfl
  unfold scan
  rcases not_quiet hb with hend | hheader
  · rw [inspect_finish hend, hsplit]
    cases crcMatches cs b 24 with
    | false => simp
    | true => simp [hend]
  · have htype : b.getType ≠ TWENDADB := by
      intro htype
      rw [isFileHeader_endadb htype] at hheader
      cases hheader
    have hfalse : ¬ (hs = [] ∧ b.getType = TWENDADB ∧ crcMatches cs b 24 = true) :=
      fun h => htype h.2.1
    rw [iff_false_right hfalse, inspect_header hheader]
    cases crcMatches cs b 40 with
    | false => simp
    | true =>
      cases terminated b with
      | false => simp
      | true =>
        -- its name is taken, and stays
        intro h
        rcases scan_extends h with hnil | hkept
        · simp at hnil
        · rw [hsplit, List.prefix_append_right_inj] at hkept
          exact absurd (hs_true _ (hkept.subset List.mem_cons_self)) Bool.false_ne_true

/-- The partitions and the end, after what was taken before. -/
theorem scan_parts {e : Ends} {parts : List Partition} (hv : Valid cs e parts)
    (taken : List (Block × Bool)) :
    scan cs Prod.fst (parts.flatMap (partMarks cs) ++ [(e.endadb, true)]) taken =
      some (some (taken ++ headersOf parts)) ↔ Clear cs parts := by
  induction parts generalizing taken with
  | nil =>
    have hend : inspect cs e.endadb = .finish := by
      rw [inspect_finish hv.endadb_type, hv.endadb_crc]
      rfl
    simp [scan, hend, headersOf, Clear]
  | cons p ps ih =>
    have hps : Valid cs e ps :=
      { hv with
        header_type := fun q hq => hv.header_type q (List.mem_cons_of_mem _ hq)
        header_crc := fun q hq => hv.header_crc q (List.mem_cons_of_mem _ hq) }
    have hheader : inspect cs p.header = if terminated p.header then .take else .overread := by
      rw [inspect_header (isFileHeader_header (hv.header_type p List.mem_cons_self)),
        hv.header_crc p List.mem_cons_self, if_pos rfl]
    let rest := ps.flatMap (partMarks cs) ++ [(e.endadb, true)]
    let trailer := (md5Trailer cs (payload p.data) p.header.fileSize, true)
    have hlist : (p :: ps).flatMap (partMarks cs) ++ [(e.endadb, true)] = (p.header, true) ::
        ((inChunks cs (payloadBlocks p.data)).map (·, false) ++ ([trailer] ++ rest)) := by
      simp [partMarks, rest, trailer]
    have hheaders : headersOf (p :: ps) = (p.header, true) :: headersOf ps := rfl
    rw [hlist, hheaders, Clear, ClearPart, scan, hheader]
    cases terminated p.header with
    | false => simp
    | true =>
      simp only [if_true, true_and]
      cases hfind : (payloadBlocks p.data).find? (!quiet ·) with
      | none =>
        have htrailer : quiet trailer.1 = true :=
          quiet_of_type (getType_md5Trailer _ _) (by decide +kernel) (by decide +kernel)
            (by decide +kernel)
        have hchunks : ∀ x ∈ (inChunks cs (payloadBlocks p.data)).map (·, false),
            quiet x.1 = true := by
          intro x hx
          obtain ⟨b, hb, rfl⟩ := List.mem_map.1 hx
          rw [← find_inChunks cs] at hfind
          simpa using List.find?_eq_none.1 hfind b hb
        have hrest := ih hps (taken ++ [(p.header, true)])
        rw [List.append_assoc] at hrest
        rw [scan_quiet hchunks, scan_quiet (by simpa using htrailer)]
        simpa using hrest
      | some b =>
        obtain ⟨hb, after, hscan⟩ := scan_chunks cs hfind ([trailer] ++ rest)
          (taken ++ [(p.header, true)])
        have hs_true : ∀ y ∈ headersOf ps, y.2 = true := by
          intro y hy
          obtain ⟨q, -, rfl⟩ := List.mem_map.1 hy
          rfl
        rw [hscan]
        refine (scan_not_quiet hb hs_true).trans ?_
        cases ps with
        | nil => simp [headersOf, Clear]
        | cons q ps => simp [headersOf]

/-- **The names**: the listing takes them from the headers outside of the data chunks, from all of
them and from nothing else, if and only if the partitions are clear. -/
theorem lists_iff {e : Ends} {parts : List Partition} (hv : Valid cs e parts) :
    ListsExactly cs e parts ↔ Clear cs parts := by
  have hstart : quiet e.streamHdr = true :=
    quiet_of_type hv.streamHdr_type (by decide +kernel) (by decide +kernel) (by decide +kernel)
  unfold ListsExactly streamMarks
  rw [scan, inspect_quiet hstart]
  exact scan_parts hv []

/-- `Write_ADB_Stream_Header`. -/
def streamHeader (cs : Checksums) (partitionCount : Nat) : Block :=
  let hdr := ((Block.typed TWSTREAMHDR).put 24 (toLE 8 partitionCount)).put 32 (toLE 8 3)
  hdr.put 40 (toLE 4 (cs.crc32 hdr.bytes).toNat)

end Recovery.Adbbu
