import Recovery.MtdUtils.BmlOverMtd

/-!
# The block mapping (`mtdutils/bml_over_mtd.c`)

What a mapping that `CreateBlockMapping` returns is worth.

* `IsTable` — the block of the mapping table: the last one that looks like it.
* `MappingRight` — a mapping is defined on the bad blocks, its values are good blocks in front of
  the table, different for different blocks, and a file that is flashed is in front of the dump.
* `mapEntries_spec`, `created` — which entries are in the mapping, and what has been checked.
* `flashLoop_spec`, `dumpLoop_spec`, `padded_eq` — what is written, what is read, and the file.
* `mapping_right_iff` — exactly when a returned mapping is right: the entries for different bad
  blocks name different blocks of the reservoir, in front of the table.
* `before_table` — with 64 bits and a start block that is not negative, they are in front of it.
* `shared_block` — two bad blocks with the same block of the reservoir.
-/

set_option autoImplicit false

namespace Recovery.MtdUtils.Bml

/-! ## What a mapping is to be -/

/-- The last of the first `n` blocks of the reservoir that looks like a table. -/
structure TableBelow (setup : Setup) (n k : Nat) : Prop where
  lt : k < n
  good : setup.reservoir.isGood (k * setup.reservoir.eraseSize)
  table : isTable (setup.reservoir.flash (k * setup.reservoir.eraseSize))
  last : ∀ j, k < j → j < n → setup.reservoir.isGood (j * setup.reservoir.eraseSize) →
    ¬ isTable (setup.reservoir.flash (j * setup.reservoir.eraseSize))

/-- The block of the mapping table. -/
def IsTable (setup : Setup) (k : Nat) : Prop := TableBelow setup setup.reservoir.numBlocks k

/-- A bad block of the source partition. -/
def Setup.isBad (setup : Setup) (b : Nat) : Prop :=
  b < setup.src.numBlocks ∧ setup.src.isGood (b * setup.src.eraseSize) = false

def mapped (pMapping : List Nat) (b : Nat) : Nat := pMapping.getD b 0xffff

/-- No call fails. -/
structure Io.Sound (io : Io) : Prop where
  opens : io.opens
  read : ∀ i, io.read i
  attempt : ∀ i data, (io.attempt i 0).writes data
  write : ∀ i, io.write i
  closes : io.closes

/-- The blocks that a file takes. -/
def fileBlocks (setup : Setup) (file : List UInt8) : Nat :=
  (file.length + setup.src.eraseSize - 1) / setup.src.eraseSize

/-- A file whose last block is filled up with `0xFF`. -/
def padded (setup : Setup) (file : List UInt8) : List UInt8 :=
  file ++ List.replicate (fileBlocks setup file * setup.src.eraseSize - file.length) 0xFF

structure MappingRight (setup : Setup) (pMapping : List Nat) : Prop where
  /-- It is defined on the bad blocks. -/
  defined : ∀ b < setup.src.numBlocks, mapped pMapping b ≠ 0xffff ↔ setup.isBad b
  /-- Its values are good blocks in front of the table. -/
  good : ∃ k, IsTable setup k ∧ ∀ b, setup.isBad b →
    mapped pMapping b < k ∧
      setup.reservoir.isGood (mapped pMapping b * setup.reservoir.eraseSize)
  injective : ∀ b b', setup.isBad b → setup.isBad b' →
    mapped pMapping b = mapped pMapping b' → b = b'
  /-- What has been flashed is at the front of the dump. -/
  front : ∀ io io' file c out, flashBmlPartition setup pMapping io file = some c →
    dumpBmlPartition setup pMapping io' c = some out →
    out.take (fileBlocks setup file * setup.src.eraseSize) = padded setup file
  /-- Every file that fits can be flashed and dumped, when no call fails. -/
  succeeds : ∀ io io' file, io.Sound → io'.Sound → file.length ≤ setup.src.size →
    ∃ c out, flashBmlPartition setup pMapping io file = some c ∧
      dumpBmlPartition setup pMapping io' c = some out

/-- The last entry of a table for a block of the source partition. -/
def LastFor (setup : Setup) (table : List Entry) (b : Nat) (entry : Entry) : Prop :=
  ∃ pre post, table = pre ++ entry :: post ∧ setup.inSource entry ∧ setup.relSrcBlk entry = b ∧
    ∀ entry' ∈ post, setup.inSource entry' → setup.relSrcBlk entry' ≠ b

/-- For different bad blocks the table names different blocks, in front of it. -/
structure Separate (setup : Setup) : Prop where
  before : ∀ k b entry, IsTable setup k → setup.isBad b →
    LastFor setup (tableEntries (setup.reservoir.flash (k * setup.reservoir.eraseSize))) b entry →
    setup.relDstBlk entry < k
  differ : ∀ k b b' entry entry', IsTable setup k → setup.isBad b → setup.isBad b' →
    LastFor setup (tableEntries (setup.reservoir.flash (k * setup.reservoir.eraseSize))) b entry →
    LastFor setup (tableEntries (setup.reservoir.flash (k * setup.reservoir.eraseSize))) b' entry' →
    setup.relDstBlk entry = setup.relDstBlk entry' → b = b'

/-! ## The table -/

section

variable {setup : Setup} {host : Host}

theorem IsTable.unique {k k' : Nat} (h : IsTable setup k) (h' : IsTable setup k') : k = k' := by
  obtain hlt | heq | hgt := Nat.lt_trichotomy k k'
  · exact absurd h'.table (h.last k' hlt h'.lt h'.good)
  · exact heq
  · exact absurd h.table (h'.last k hgt h.lt h.good)

theorem TableBelow.succ {n k : Nat} (h : TableBelow setup n k)
    (hn : setup.reservoir.isGood (n * setup.reservoir.eraseSize) →
      ¬ isTable (setup.reservoir.flash (n * setup.reservoir.eraseSize))) :
    TableBelow setup (n + 1) k := by
  refine ⟨Nat.lt_succ_of_lt h.lt, h.good, h.table, fun j hk hj => ?_⟩
  obtain hlt | heq := Nat.lt_succ_iff_lt_or_eq.1 hj
  · exact h.last j hk hlt
  · rw [heq]
    exact hn

theorem le_eraseSize {n k : Nat} (h : setup.findTable host n = some k) :
    0x2000 ≤ setup.reservoir.eraseSize := by
  induction n with
  | zero => cases h
  | succ n ih =>
    rw [Setup.findTable] at h
    split at h
    · exact ih h
    · split at h
      · cases h
      · split at h
        · rename_i htable
          exact htable.1
        · exact ih h

/-- The search comes to the last table that can be read. -/
theorem findTable_spec {n k : Nat} (h : setup.findTable host n = some k) :
    TableBelow setup n k := by
  have hsize := le_eraseSize h
  induction n with
  | zero => cases h
  | succ n ih =>
    rw [Setup.findTable] at h
    split at h
    · rename_i hbad
      exact (ih h).succ fun hgood => absurd hgood hbad
    · rename_i hgood
      split at h
      · cases h
      · split at h
        · rename_i htable
          cases h
          exact ⟨Nat.lt_succ_self _, not_not.1 hgood, htable.2, fun j hk hj => by lia⟩
        · rename_i hnot
          exact (ih h).succ fun _ htable => hnot ⟨hsize, htable⟩

theorem LastFor.cons {table : List Entry} {b : Nat} {entry : Entry} (first : Entry)
    (h : LastFor setup table b entry) : LastFor setup (first :: table) b entry := by
  obtain ⟨pre, post, heq, hrest⟩ := h
  exact ⟨first :: pre, post, by rw [heq]; rfl, hrest⟩

/-- **The mapping holds the last entries of the table.** -/
theorem mapEntries_spec {currOffset : Nat} {table : List Entry} {m m' : List Nat}
    (h : setup.mapEntries currOffset table m = some m') :
    m'.length = m.length ∧ ∀ b < m.length,
      (∃ entry, LastFor setup table b entry ∧ mapped m' b = setup.relDstBlk entry) ∨
        ((∀ entry ∈ table, setup.inSource entry → setup.relSrcBlk entry ≠ b) ∧
          mapped m' b = mapped m b) := by
  induction table generalizing m with
  | nil =>
    cases h
    exact ⟨rfl, fun b _ => .inr ⟨nofun, rfl⟩⟩
  | cons entry table ih =>
    rw [Setup.mapEntries] at h
    split at h
    · cases h
    · split at h
      · rename_i hsource
        obtain ⟨hlen, hrest⟩ := ih h
        rw [List.length_set] at hlen hrest
        refine ⟨hlen, fun b hb => ?_⟩
        obtain ⟨entry', hlast, hval⟩ | ⟨hnone, hval⟩ := hrest b hb
        · exact .inl ⟨entry', hlast.cons entry, hval⟩
        · by_cases hthis : setup.relSrcBlk entry = b
          · refine .inl ⟨entry, ⟨[], table, rfl, hsource, hthis, hnone⟩, ?_⟩
            rw [hval, mapped, List.getD_eq_getElem?_getD, hthis, List.getElem?_set_self hb]
            rfl
          · refine .inr ⟨List.forall_mem_cons.2 ⟨fun _ => hthis, hnone⟩, ?_⟩
            rw [hval, mapped, mapped, List.getD_eq_getElem?_getD, List.getElem?_set_ne hthis,
              ← List.getD_eq_getElem?_getD]
      · rename_i hsource
        obtain ⟨hlen, hrest⟩ := ih h
        refine ⟨hlen, fun b hb => ?_⟩
        obtain ⟨entry', hlast, hval⟩ | ⟨hnone, hval⟩ := hrest b hb
        · exact .inl ⟨entry', hlast.cons entry, hval⟩
        · exact .inr ⟨List.forall_mem_cons.2 ⟨fun h => absurd h hsource, hnone⟩, hval⟩

/-- An entry is the last for a block only once. -/
theorem LastFor.unique {table : List Entry} {b : Nat} {entry entry' : Entry}
    (h : LastFor setup table b entry) (h' : LastFor setup table b entry') : entry = entry' := by
  induction table with
  | nil =>
    obtain ⟨pre, post, heq, -⟩ := h
    exact absurd heq.symm (List.append_ne_nil_of_right_ne_nil _ (List.cons_ne_nil _ _))
  | cons first table ih =>
    obtain ⟨pre, post, heq, hsource, hb, hpost⟩ := h
    obtain ⟨pre', post', heq', hsource', hb', hpost'⟩ := h'
    cases pre with
    | nil =>
      obtain ⟨rfl, rfl⟩ := List.cons.inj heq
      cases pre' with
      | nil => exact (List.cons.inj heq').1
      | cons first' pre' =>
        have htail : table = pre' ++ entry' :: post' := (List.cons.inj heq').2
        exact absurd hb' (hpost entry' (by rw [htail]; simp) hsource')
    | cons first' pre =>
      have htail : table = pre ++ entry :: post := (List.cons.inj heq).2
      cases pre' with
      | nil =>
        obtain ⟨rfl, rfl⟩ := List.cons.inj heq'
        exact absurd hb (hpost' entry (by rw [htail]; simp) hsource)
      | cons first'' pre' =>
        have htail' : table = pre' ++ entry' :: post' := (List.cons.inj heq').2
        exact ih ⟨pre, post, htail, hsource, hb, hpost⟩ ⟨pre', post', htail', hsource', hb', hpost'⟩

/-- What `CreateBlockMapping` has established when it returns a mapping. -/
structure Created (host : Host) (setup : Setup) (pMapping : List Nat) (k : Nat) : Prop where
  eraseSize : setup.reservoir.eraseSize = setup.src.eraseSize
  size_lt : setup.reservoir.size < 2 ^ 31
  table : IsTable setup k
  entries : setup.mapEntries (k * setup.reservoir.eraseSize)
    (tableEntries (setup.reservoir.flash (k * setup.reservoir.eraseSize)))
    (List.replicate setup.src.numBlocks 0xffff) = some pMapping
  checked : ∀ b < setup.src.numBlocks, setup.checkBlock host pMapping b

theorem created {pMapping : List Nat} (h : createBlockMapping host setup = some pMapping) :
    ∃ k, Created host setup pMapping k := by
  rw [createBlockMapping] at h
  split at h
  · cases h
  split at h
  · cases h
  split at h
  · cases h
  split at h
  · cases h
  rename_i herase
  split at h
  · cases h
  split at h
  · cases h
  rename_i hsize
  obtain ⟨k, hk, h⟩ := Option.bind_eq_some_iff.1 h
  obtain ⟨m, hm, h⟩ := Option.bind_eq_some_iff.1 h
  split at h
  · cases h
  split at h
  · rename_i hall
    cases h
    refine ⟨k, ?_, by omega, findTable_spec hk, hm, fun b hb => ?_⟩
    · exact not_not.1 fun hne => herase (.inl hne)
    · exact List.all_eq_true.1 hall b (List.mem_range.2 hb)
  · cases h

namespace Created

variable {pMapping : List Nat} {k : Nat}

theorem defined (h : Created host setup pMapping k) {b : Nat} (hb : b < setup.src.numBlocks) :
    mapped pMapping b ≠ 0xffff ↔ setup.isBad b := by
  have hcheck := h.checked b hb
  rw [Setup.checkBlock] at hcheck
  split at hcheck
  · rename_i hgood
    constructor
    · intro hne
      exact absurd (beq_iff_eq.1 hcheck) hne
    · rintro ⟨-, hbad⟩
      rw [hgood] at hbad
      cases hbad
  · rename_i hbad
    split at hcheck
    · cases hcheck
    · rename_i hne
      exact ⟨fun _ => ⟨hb, by simpa using hbad⟩, fun _ => hne⟩

/-- The value for a bad block is that of the last entry for it. -/
theorem entry (h : Created host setup pMapping k) {b : Nat} (hb : setup.isBad b) :
    ∃ entry, LastFor setup
        (tableEntries (setup.reservoir.flash (k * setup.reservoir.eraseSize))) b entry ∧
      mapped pMapping b = setup.relDstBlk entry := by
  obtain ⟨-, hspec⟩ := mapEntries_spec h.entries
  rw [List.length_replicate] at hspec
  obtain hentry | ⟨-, hempty⟩ := hspec b hb.1
  · exact hentry
  · refine absurd ?_ ((h.defined hb.1).2 hb)
    rw [hempty, mapped, List.getD_eq_getElem?_getD, List.getElem?_replicate_of_lt hb.1]
    rfl

theorem mul_lt (h : Created host setup pMapping k) {d : Nat} (hd : d < k) :
    d * setup.reservoir.eraseSize < 2 ^ 31 := by
  have hle : d * setup.reservoir.eraseSize ≤
      setup.reservoir.numBlocks * setup.reservoir.eraseSize :=
    Nat.mul_le_mul_right _ (Nat.le_of_lt (Nat.lt_trans hd h.table.lt))
  exact Nat.lt_of_le_of_lt hle h.size_lt

theorem good (h : Created host setup pMapping k) {b : Nat} (hb : setup.isBad b)
    (hlt : mapped pMapping b < k) :
    setup.reservoir.isGood (mapped pMapping b * setup.reservoir.eraseSize) := by
  have hcheck := h.checked b hb.1
  have hmul := h.mul_lt hlt
  have hbits : 2 ^ 32 ≤ 2 ^ setup.sizeBits := Nat.pow_le_pow_right (by decide) setup.le_sizeBits
  rw [Setup.checkBlock, hb.2] at hcheck
  simp only [Bool.false_eq_true, if_false] at hcheck
  split at hcheck
  · cases hcheck
  · have hres := (Bool.and_eq_true_iff.1 hcheck).2
    rw [← mapped, Nat.mod_eq_of_lt (by omega)] at hres
    exact hres

end Created

/-! ## Flashing and dumping -/

variable {pMapping : List Nat}

theorem target_eq (b : Nat) : target setup pMapping b =
    if mapped pMapping b = 0xffff then (false, b * setup.src.eraseSize)
    else (true, mapped pMapping b * setup.src.eraseSize % 2 ^ 32) := rfl

/-- The blocks of a file from the rest that has not been written. -/
def blocksOf (eraseSize : Nat) : Nat → List UInt8 → List (List UInt8)
  | 0, _ => []
  | n + 1, file => nextBlock eraseSize file :: blocksOf eraseSize n (file.drop eraseSize)

theorem nextBlock_length (eraseSize : Nat) (file : List UInt8) :
    (nextBlock eraseSize file).length = eraseSize := by
  rw [nextBlock, List.length_append, List.length_take, List.length_replicate]
  lia

/-- **Writing**: a block that is written at a place of its own stays there. -/
theorem flashLoop_spec {io : Io} {n i : Nat} {file : List UInt8} {c c' : Contents}
    (h : flashLoop setup pMapping io n i file c = some c')
    (hinj : ∀ a b, a < i + n → b < i + n → target setup pMapping a = target setup pMapping b →
      a = b) :
    (List.range' i n).map (fun j => c' (target setup pMapping j)) =
        blocksOf setup.src.eraseSize n file ∧
      ∀ t, (∀ j, i ≤ j → j < i + n → t ≠ target setup pMapping j) → c' t = c t := by
  induction n generalizing i file c with
  | zero =>
    cases h
    exact ⟨rfl, fun _ _ => rfl⟩
  | succ n ih =>
    rw [flashLoop] at h
    split at h
    · cases h
    simp only at h
    split at h
    · obtain ⟨hblocks, hframe⟩ := ih h fun a b ha hb => hinj a b (by lia) (by lia)
      refine ⟨?_, fun t ht => ?_⟩
      · rw [List.range'_succ, List.map_cons, hblocks, blocksOf]
        have hkept : c' (target setup pMapping i) = nextBlock setup.src.eraseSize file := by
          rw [hframe, setBlock, if_pos rfl]
          intro j hj hlt heq
          have hsame := hinj i j (by lia) (by lia) heq
          lia
        rw [hkept]
      · rw [hframe t fun j hj hlt => ht j (by lia) (by lia), setBlock,
          if_neg (ht i (Nat.le_refl i) (by lia))]
    · cases h

theorem flashLoop_ok {io : Io} (hio : io.Sound) {n i : Nat} (file : List UInt8) (c : Contents)
    (hgood : ∀ j, i ≤ j → j < i + n → isGood setup (target setup pMapping j)) :
    ∃ c', flashLoop setup pMapping io n i file c = some c' := by
  induction n generalizing i file c with
  | zero => exact ⟨c, rfl⟩
  | succ n ih =>
    have hwrite : ∀ data, writeBlock setup (io.attempt i) (target setup pMapping i) data := by
      intro data
      rw [writeBlock, hgood i (Nat.le_refl i) (by lia), hio.attempt]
      rfl
    rw [flashLoop, hio.read]
    simp only [not_true, if_false, hwrite, if_true]
    exact ih _ _ fun j hj hlt => hgood j (by lia) (by lia)

/-- **Reading** goes through the same places. -/
theorem dumpLoop_spec {io : Io} {c : Contents} {n i : Nat} {out : List UInt8}
    (h : dumpLoop setup pMapping io c n i = some out) :
    out = ((List.range' i n).map fun j => c (target setup pMapping j)).flatten := by
  induction n generalizing i out with
  | zero =>
    cases h
    rfl
  | succ n ih =>
    rw [dumpLoop] at h
    split at h
    · obtain ⟨rest, hrest, h⟩ := Option.bind_eq_some_iff.1 h
      cases h
      rw [ih hrest, List.range'_succ, List.map_cons, List.flatten_cons]
    · cases h

theorem dumpLoop_ok {io : Io} (hio : io.Sound) (c : Contents) (n i : Nat) :
    ∃ out, dumpLoop setup pMapping io c n i = some out := by
  induction n generalizing i with
  | zero => exact ⟨[], rfl⟩
  | succ n ih =>
    obtain ⟨rest, hrest⟩ := ih (i + 1)
    refine ⟨c (target setup pMapping i) ++ rest, ?_⟩
    rw [dumpLoop, if_pos ⟨hio.read i, hio.write i⟩, hrest]
    rfl

/-- The blocks of a file are the file and what it is filled up with. -/
theorem blocksOf_flatten {eraseSize n : Nat} {file : List UInt8} (hle : file.length ≤ n * eraseSize)
    (hlt : n * eraseSize < file.length + eraseSize) :
    (blocksOf eraseSize n file).flatten =
      file ++ List.replicate (n * eraseSize - file.length) 0xFF := by
  induction n generalizing file with
  | zero =>
    have hnil : file = [] := List.length_eq_zero_iff.1 (by lia)
    rw [hnil]
    simp [blocksOf]
  | succ n ih =>
    rw [Nat.succ_mul] at hle hlt ⊢
    have hrest := @ih (file.drop eraseSize) (by rw [List.length_drop]; lia)
      (by rw [List.length_drop]; lia)
    rw [blocksOf, List.flatten_cons, hrest, nextBlock, List.length_drop]
    by_cases hlast : file.length ≤ eraseSize
    · have hzero : n * eraseSize = 0 := by
        cases n with
        | zero => exact Nat.zero_mul _
        | succ n =>
          rw [Nat.succ_mul] at hlt
          lia
      rw [List.drop_of_length_le hlast, List.take_of_length_le hlast, hzero]
      simp
    · have hfull : eraseSize - file.length = 0 := by lia
      have hpad : n * eraseSize + eraseSize - file.length =
          n * eraseSize - (file.length - eraseSize) := by lia
      rw [hfull, hpad, List.replicate_zero, List.append_nil, ← List.append_assoc,
        List.take_append_drop]

theorem fileBlocks_bounds (file : List UInt8) :
    file.length ≤ fileBlocks setup file * setup.src.eraseSize ∧
      fileBlocks setup file * setup.src.eraseSize < file.length + setup.src.eraseSize := by
  have hpos := setup.src.eraseSize_pos
  have hdiv := Nat.div_add_mod (file.length + setup.src.eraseSize - 1) setup.src.eraseSize
  have hmod := Nat.mod_lt (file.length + setup.src.eraseSize - 1) hpos
  rw [Nat.mul_comm] at hdiv
  unfold fileBlocks
  omega

theorem padded_eq (file : List UInt8) :
    (blocksOf setup.src.eraseSize (fileBlocks setup file) file).flatten = padded setup file := by
  obtain ⟨hle, hlt⟩ := @fileBlocks_bounds setup file
  exact blocksOf_flatten hle hlt

theorem blocksOf_flatten_length (eraseSize n : Nat) (file : List UInt8) :
    (blocksOf eraseSize n file).flatten.length = n * eraseSize := by
  induction n generalizing file with
  | zero => simp [blocksOf]
  | succ n ih =>
    rw [blocksOf, List.flatten_cons, List.length_append, ih, nextBlock_length, Nat.succ_mul,
      Nat.add_comm]

theorem fileBlocks_le {file : List UInt8} (h : file.length ≤ setup.src.size) :
    fileBlocks setup file ≤ setup.src.numBlocks := by
  obtain ⟨-, hlt⟩ := @fileBlocks_bounds setup file
  have hmul : fileBlocks setup file * setup.src.eraseSize <
      (setup.src.numBlocks + 1) * setup.src.eraseSize := by
    unfold Partition.size at h
    rw [Nat.succ_mul]
    omega
  exact Nat.lt_succ_iff.1 (Nat.lt_of_mul_lt_mul_right hmul)

/-- **A file that is flashed is at the front of the dump**, where no two blocks share a place. -/
theorem front_of_injective (hinj : ∀ a b, a < setup.src.numBlocks → b < setup.src.numBlocks →
      target setup pMapping a = target setup pMapping b → a = b)
    {io io' : Io} {file out : List UInt8} {c : Contents}
    (hflash : flashBmlPartition setup pMapping io file = some c)
    (hdump : dumpBmlPartition setup pMapping io' c = some out) :
    out.take (fileBlocks setup file * setup.src.eraseSize) = padded setup file := by
  rw [flashBmlPartition] at hflash
  split at hflash
  · cases hflash
  split at hflash
  · cases hflash
  rename_i hfits
  have hblocks := fileBlocks_le (not_lt.1 hfits)
  obtain ⟨c', hloop, hflash⟩ := Option.bind_eq_some_iff.1 hflash
  split at hflash
  · cases hflash
    rw [dumpBmlPartition] at hdump
    split at hdump
    · cases hdump
    obtain ⟨out', hout, hdump⟩ := Option.bind_eq_some_iff.1 hdump
    split at hdump
    · cases hdump
      rw [← fileBlocks] at hloop
      obtain ⟨hwritten, -⟩ := flashLoop_spec hloop fun a b ha hb => hinj a b (by lia) (by lia)
      have hsplit : List.range' 0 setup.src.numBlocks =
          List.range' 0 (fileBlocks setup file) ++ List.range' (fileBlocks setup file)
            (setup.src.numBlocks - fileBlocks setup file) := by
        have happend := @List.range'_append_1 0 (fileBlocks setup file)
          (setup.src.numBlocks - fileBlocks setup file)
        rw [Nat.zero_add, Nat.add_sub_cancel' hblocks] at happend
        exact happend.symm
      rw [dumpLoop_spec hout, hsplit, List.map_append, List.flatten_append, hwritten,
        List.take_left' (blocksOf_flatten_length _ _ _), padded_eq]
    · cases hdump
  · cases hflash

theorem flash_dump_ok {io io' : Io} (hio : io.Sound) (hio' : io'.Sound) {file : List UInt8}
    (hfits : file.length ≤ setup.src.size)
    (hgood : ∀ b < setup.src.numBlocks, isGood setup (target setup pMapping b)) :
    ∃ c out, flashBmlPartition setup pMapping io file = some c ∧
      dumpBmlPartition setup pMapping io' c = some out := by
  have hblocks := fileBlocks_le hfits
  obtain ⟨c, hc⟩ := @flashLoop_ok setup pMapping io hio (fileBlocks setup file) 0 file
    (contents setup) fun j _ hlt => hgood j (by lia)
  obtain ⟨out, hout⟩ := @dumpLoop_ok setup pMapping io' hio' c setup.src.numBlocks 0
  refine ⟨c, out, ?_, ?_⟩
  · rw [flashBmlPartition, if_neg (not_not.2 hio.opens), if_neg (not_lt.2 hfits)]
    unfold fileBlocks at hc
    simp only [hc, hio.closes]
    rfl
  · rw [dumpBmlPartition, if_neg (not_not.2 hio'.opens), hout, hio'.closes]
    rfl

/-! ## The mapping is right -/

namespace Created

variable {k : Nat}

theorem before (h : Created host setup pMapping k) (hsep : Separate setup) {b : Nat}
    (hb : setup.isBad b) : mapped pMapping b < k := by
  obtain ⟨entry, hentry, hval⟩ := h.entry hb
  rw [hval]
  exact hsep.before k b entry h.table hb hentry

theorem injective (h : Created host setup pMapping k) (hsep : Separate setup) {b b' : Nat}
    (hb : setup.isBad b) (hb' : setup.isBad b') (heq : mapped pMapping b = mapped pMapping b') :
    b = b' := by
  obtain ⟨entry, hentry, hval⟩ := h.entry hb
  obtain ⟨entry', hentry', hval'⟩ := h.entry hb'
  exact hsep.differ k b b' entry entry' h.table hb hb' hentry hentry'
    (hval.symm.trans (heq.trans hval'))

theorem target_bad (h : Created host setup pMapping k) (hsep : Separate setup) {b : Nat}
    (hb : setup.isBad b) :
    target setup pMapping b = (true, mapped pMapping b * setup.reservoir.eraseSize) := by
  have hlt := h.mul_lt (h.before hsep hb)
  have hne := (h.defined hb.1).2 hb
  rw [target_eq, if_neg hne, ← h.eraseSize, Nat.mod_eq_of_lt (by omega)]

theorem target_good (h : Created host setup pMapping k) {b : Nat} (hb : b < setup.src.numBlocks)
    (hgood : ¬ setup.isBad b) : target setup pMapping b = (false, b * setup.src.eraseSize) := by
  have heq : mapped pMapping b = 0xffff := not_not.1 fun hne => hgood ((h.defined hb).1 hne)
  rw [target_eq, if_pos heq]

theorem target_injective (h : Created host setup pMapping k) (hsep : Separate setup) (a b : Nat)
    (ha : a < setup.src.numBlocks) (hb : b < setup.src.numBlocks)
    (heq : target setup pMapping a = target setup pMapping b) : a = b := by
  by_cases hbad : setup.isBad a
  · by_cases hbad' : setup.isBad b
    · rw [h.target_bad hsep hbad, h.target_bad hsep hbad'] at heq
      exact h.injective hsep hbad hbad'
        (Nat.eq_of_mul_eq_mul_right setup.reservoir.eraseSize_pos (Prod.mk.inj heq).2)
    · rw [h.target_bad hsep hbad, h.target_good hb hbad'] at heq
      cases heq
  · by_cases hbad' : setup.isBad b
    · rw [h.target_good ha hbad, h.target_bad hsep hbad'] at heq
      cases heq
    · rw [h.target_good ha hbad, h.target_good hb hbad'] at heq
      exact Nat.eq_of_mul_eq_mul_right setup.src.eraseSize_pos (Prod.mk.inj heq).2

theorem isGood_target (h : Created host setup pMapping k) (hsep : Separate setup) {b : Nat}
    (hb : b < setup.src.numBlocks) : isGood setup (target setup pMapping b) := by
  by_cases hbad : setup.isBad b
  · rw [h.target_bad hsep hbad]
    exact h.good hbad (h.before hsep hbad)
  · rw [h.target_good hb hbad]
    by_contra hnot
    exact hbad ⟨hb, by simpa [isGood] using hnot⟩

end Created

end

/-- **When a mapping is right**: a mapping that `CreateBlockMapping` returns is, exactly when the
entries of the table for different bad blocks name different blocks in front of it. -/
theorem mapping_right_iff (host : Host) (setup : Setup) (pMapping : List Nat)
    (h : createBlockMapping host setup = some pMapping) :
    MappingRight setup pMapping ↔ Separate setup := by
  obtain ⟨k, hk⟩ := created h
  constructor
  · intro hright
    obtain ⟨k', hk', hgood⟩ := hright.good
    have hval : ∀ k₁ b entry, IsTable setup k₁ → setup.isBad b → LastFor setup
        (tableEntries (setup.reservoir.flash (k₁ * setup.reservoir.eraseSize))) b entry →
        mapped pMapping b = setup.relDstBlk entry := by
      intro k₁ b entry hk₁ hb hlast
      obtain ⟨entry', hlast', hval⟩ := hk.entry hb
      rw [hk₁.unique hk.table] at hlast
      rw [hval, hlast.unique hlast']
    refine ⟨fun k₁ b entry hk₁ hb hlast => ?_, ?_⟩
    · rw [← hval k₁ b entry hk₁ hb hlast, hk₁.unique hk']
      exact (hgood b hb).1
    · intro k₁ b b' entry entry' hk₁ hb hb' hlast hlast' heq
      rw [← hval k₁ b entry hk₁ hb hlast, ← hval k₁ b' entry' hk₁ hb' hlast'] at heq
      exact hright.injective b b' hb hb' heq
  · intro hsep
    refine ⟨fun b hb => hk.defined hb, ⟨k, hk.table, fun b hb => ?_⟩, ?_, ?_, ?_⟩
    · exact ⟨hk.before hsep hb, hk.good hb (hk.before hsep hb)⟩
    · exact fun b b' hb hb' heq => hk.injective hsep hb hb' heq
    · exact fun io io' file c out hflash hdump =>
        front_of_injective (hk.target_injective hsep) hflash hdump
    · exact fun io io' file hio hio' hfits =>
        flash_dump_ok hio hio' hfits fun b hb => hk.isGood_target hsep hb

/-- A block with the table 10 → `d`, 11 → `d'`. -/
def tableBlock (d d' : UInt8) : List UInt8 :=
  [85, 80, 67, 72] ++ List.replicate 4092 255 ++ [0, 0, 255, 255, 10, 0, d, 0, 11, 0, d', 0] ++
    List.replicate 4084 255

/-- Blocks 10 and 11 are bad. The reservoir begins with block 20, its table is in block 22. -/
def twoBad (d d' : UInt8) : Setup where
  sizeBits := 32
  le_sizeBits := Nat.le_refl 32
  src := ⟨2, 0x2000, 512, by decide, by decide, fun _ => true, fun _ => []⟩
  srcPartStartBlock := 10
  reservoir := ⟨3, 0x2000, 512, by decide, by decide, fun _ => false,
    fun pos => if pos = 2 * 0x2000 then tableBlock d d' else []⟩
  reservoirPartStartBlock := 20

def Host.sound : Host := ⟨true, true, true, true, fun _ => true, true, fun _ => true⟩

theorem mapping_right_example : createBlockMapping Host.sound (twoBad 20 21) = some [0, 1] ∧
    (MappingRight (twoBad 20 21) [0, 1] ↔ Separate (twoBad 20 21)) :=
  ⟨by decide +kernel, mapping_right_iff Host.sound (twoBad 20 21) [0, 1] (by decide +kernel)⟩

/-- Both bad blocks are mapped to block 20, and the mapping is returned. -/
theorem shared_block : ¬ ∀ host setup pMapping,
    createBlockMapping host setup = some pMapping → MappingRight setup pMapping := by
  intro h
  have hright := h Host.sound (twoBad 20 20) [0, 0] (by decide +kernel)
  have hsame := hright.injective 0 1 ⟨by decide, by decide⟩ ⟨by decide, by decide⟩ rfl
  cases hsame

theorem shortAt_lt (buf : List UInt8) (i : Nat) : shortAt buf i < 2 ^ 16 := by
  have hlow := (buf.getD i 0).toNat_lt
  have hhigh := (buf.getD (i + 1) 0).toNat_lt
  unfold shortAt
  lia

theorem rawDstBlk_lt {buf : List UInt8} {entry : Entry} (h : entry ∈ tableEntries buf) :
    entry.rawDstBlk < 2 ^ 16 := by
  obtain ⟨i, -, rfl⟩ := List.mem_map.1 ((List.takeWhile_prefix _).subset h)
  exact shortAt_lt ..

/-- With a 64-bit `size_t`, and a start block that is not negative, the blocks that are named are in
front of the table. -/
theorem before_table {setup : Setup} (hbits : setup.sizeBits = 64)
    (hstart : 0 ≤ setup.reservoirPartStartBlock) {k : Nat} {buf : List UInt8} {entry : Entry}
    (hentry : entry ∈ tableEntries buf) (herase : setup.reservoir.eraseSize < 2 ^ 32)
    (h : ¬ setup.outside (k * setup.reservoir.eraseSize) entry) :
    setup.relDstBlk entry < k := by
  have hdst := rawDstBlk_lt hentry
  obtain ⟨start, hs⟩ := Int.eq_ofNat_of_zero_le hstart
  unfold Setup.outside at h
  rw [hbits, hs] at h
  obtain ⟨hge, hlt⟩ := not_or.1 h
  have hprod : entry.rawDstBlk * setup.reservoir.eraseSize < 2 ^ 64 := by
    have hmul := Nat.mul_le_mul (Nat.le_of_lt hdst) (Nat.le_of_lt herase)
    exact Nat.lt_of_le_of_lt hmul (by decide)
  rw [Nat.mod_eq_of_lt hprod] at hlt
  have hnat : (start * setup.reservoir.eraseSize + k * setup.reservoir.eraseSize) % 2 ^ 32 ≤
      start * setup.reservoir.eraseSize + k * setup.reservoir.eraseSize := Nat.mod_le ..
  have hbefore : entry.rawDstBlk * setup.reservoir.eraseSize <
      (start + k) * setup.reservoir.eraseSize := by
    rw [Nat.add_mul]
    push_cast at hlt
    lia
  have hlt' := Nat.lt_of_mul_lt_mul_right hbefore
  unfold Setup.relDstBlk unsignedShort
  rw [hs]
  lia

end Recovery.MtdUtils.Bml
