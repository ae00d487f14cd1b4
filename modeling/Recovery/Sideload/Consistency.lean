import Recovery.Sideload.FuseSideload

/-!
# Two reads of the sideloaded package

* `FetchClean`, `ReadsClean` — a fetch that fails leaves a cached block of the file as it was.
* `fetchBlock_spec` — then the cached block stays one whose hash is the stored one, and stored
  hashes stay.
* `handleRead_spec`, `run_spec` — every reply is made of blocks with the stored hashes.
* `reads_agree` — two replies agree where they overlap, unless the hash has a collision among the
  blocks the host sent.
* `stale_cache` — a run with a fetch that fails after it wrote to the buffer.

The host may answer every request differently, and a kernel read may ask for any range; only what
the callback leaves behind in a failed fetch is restricted.
-/

set_option autoImplicit false

namespace Recovery.Sideload

variable {sha256 : Bytes → Bytes} {c : Config}

/-! ## The condition -/

/-- If the host fails to deliver `block`, the buffer is unchanged or holds no block of the file. -/
def FetchClean (c : Config) (block : Nat) (a : Answer) (s : FuseData) : Prop :=
  block ≠ s.currBlock → block < c.fileBlocks → a.result < 0 →
    fillBlock c block a s.blockData = s.blockData ∨ c.fileBlocks ≤ s.currBlock

/-- The fetches a read may need are clean. -/
def ReadClean (sha256 : Bytes → Bytes) (c : Config) (r : Read) (s : FuseData) : Prop :=
  FetchClean c (firstBlock c r) r.first s ∧
    FetchClean c ((firstBlock c r + 1) % 2 ^ 32) r.second
      (fetchBlock sha256 c (firstBlock c r) r.first s).2

def ReadsClean (sha256 : Bytes → Bytes) (c : Config) : List Read → FuseData → Prop
  | [], _ => True
  | r :: reads, s =>
    ReadClean sha256 c r s ∧ ReadsClean sha256 c reads (handleRead sha256 c r s).2

/-- The hash tells apart the blocks it was applied to, and none of them hashes to zeros. -/
structure NoCollision (sha256 : Bytes → Bytes) (blocks : List Bytes) : Prop where
  injective : ∀ b ∈ blocks, ∀ b' ∈ blocks, sha256 b = sha256 b' → b = b'
  nonzero : ∀ b ∈ blocks, sha256 b ≠ zeroHash

/-! ## One fetch -/

/-- What holds between two reads. -/
structure Inv (sha256 : Bytes → Bytes) (c : Config) (s : FuseData) : Prop where
  len : s.blockData.length = c.blockSize
  hash : s.currBlock < c.fileBlocks → sha256 s.blockData = s.hashes s.currBlock
  seen : s.currBlock < c.fileBlocks → s.blockData ∈ s.hashed

/-- Later states know more blocks and keep the hashes of those that were read. -/
structure Extends (s s' : FuseData) : Prop where
  hashed : s.hashed ⊆ s'.hashed
  hashes : ∀ b, s.hashes b ≠ zeroHash → s'.hashes b = s.hashes b

theorem Extends.refl (s : FuseData) : Extends s s := ⟨List.Subset.refl _, fun _ _ => rfl⟩

theorem Extends.trans {s s' s'' : FuseData} (h : Extends s s') (h' : Extends s' s'') :
    Extends s s'' where
  hashed := List.Subset.trans h.hashed h'.hashed
  hashes b hb := by
    have heq := h.hashes b hb
    rw [h'.hashes b (by rw [heq]; exact hb), heq]

theorem fetchSize_le (c : Config) (block : Nat) : fetchSize c block ≤ c.blockSize := by
  unfold fetchSize
  split <;> lia

theorem length_fillBlock {block : Nat} {a : Answer} {data : Bytes}
    (h : data.length = c.blockSize) : (fillBlock c block a data).length = c.blockSize := by
  have hsize := fetchSize_le c block
  unfold fillBlock
  simp only [List.length_append, List.length_drop, List.length_take, List.length_replicate]
  lia

/-- **What one fetch keeps.** -/
theorem fetchBlock_spec (hc : c.Accepted) {block : Nat} {a : Answer} {s : FuseData}
    (hi : Inv sha256 c s) (hclean : FetchClean c block a s) :
    Inv sha256 c (fetchBlock sha256 c block a s).2 ∧
      Extends s (fetchBlock sha256 c block a s).2 ∧
      ((fetchBlock sha256 c block a s).1 = 0 →
        (fetchBlock sha256 c block a s).2.currBlock = block) := by
  have hno : ¬ NO_BLOCK < c.fileBlocks := by
    have := hc.blocks
    unfold NO_BLOCK
    lia
  unfold fetchBlock
  by_cases hcur : block = s.currBlock
  · rw [if_pos hcur]
    exact ⟨hi, Extends.refl s, fun _ => hcur.symm⟩
  rw [if_neg hcur]
  by_cases hpast : c.fileBlocks ≤ block
  · rw [if_pos hpast]
    refine ⟨⟨List.length_replicate, ?_, ?_⟩, ⟨List.Subset.refl _, fun _ _ => rfl⟩, fun _ => rfl⟩
    · exact fun h => absurd h (Nat.not_lt.2 hpast)
    · exact fun h => absurd h (Nat.not_lt.2 hpast)
  rw [if_neg hpast]
  dsimp only
  have hlen : (fillBlock c block a s.blockData).length = c.blockSize := length_fillBlock hi.len
  by_cases hfail : a.result < 0
  · rw [if_pos hfail]
    refine ⟨?_, ⟨List.Subset.refl _, fun _ _ => rfl⟩, fun h => by simp only at h; lia⟩
    rcases hclean hcur (Nat.lt_of_not_le hpast) hfail with hsame | hnone
    · simp only [hsame]
      exact hi
    · exact ⟨hlen, fun h => absurd h (Nat.not_lt.2 hnone), fun h => absurd h (Nat.not_lt.2 hnone)⟩
  rw [if_neg hfail]
  have hmem : fillBlock c block a s.blockData ∈ s.hashed ++ [fillBlock c block a s.blockData] :=
    List.mem_append_right _ (List.mem_singleton_self _)
  by_cases hsame : sha256 (fillBlock c block a s.blockData) = s.hashes block
  · rw [if_pos hsame]
    exact ⟨⟨hlen, fun _ => hsame, fun _ => hmem⟩,
      ⟨List.subset_append_left _ _, fun _ _ => rfl⟩, fun _ => rfl⟩
  rw [if_neg hsame]
  by_cases hother : s.hashes block ≠ zeroHash
  · -- a block that changed is refused, and nothing is cached
    rw [if_pos hother]
    exact ⟨⟨hlen, fun h => absurd h hno, fun h => absurd h hno⟩,
      ⟨List.subset_append_left _ _, fun _ _ => rfl⟩, fun h => by simp [ EIO] at h⟩
  · rw [if_neg hother]
    refine ⟨⟨hlen, fun _ => ?_, fun _ => hmem⟩, ⟨List.subset_append_left _ _, ?_⟩, fun _ => rfl⟩
    · exact (Function.update_self block _ s.hashes).symm
    · intro b hb
      have hne : b ≠ block := fun h => hother (h ▸ hb)
      exact Function.update_of_ne hne _ _

/-! ## One read -/

/-- The content of a block of the file as the reader sees it. -/
structure Served (sha256 : Bytes → Bytes) (c : Config) (s : FuseData) (block : Nat)
    (content : Bytes) : Prop where
  len : content.length = c.blockSize
  hash : sha256 content = s.hashes block
  seen : content ∈ s.hashed

theorem Inv.served {s : FuseData} (h : Inv sha256 c s) (hblock : s.currBlock < c.fileBlocks) :
    Served sha256 c s s.currBlock s.blockData := ⟨h.len, h.hash hblock, h.seen hblock⟩

theorem Served.mono {s s' : FuseData} {block : Nat} {content : Bytes}
    (h : Served sha256 c s block content) (hext : Extends s s')
    (hnonzero : ∀ b ∈ s'.hashed, sha256 b ≠ zeroHash) : Served sha256 c s' block content where
  len := h.len
  hash := by
    have hne : s.hashes block ≠ zeroHash := by
      rw [← h.hash]
      exact hnonzero _ (hext.hashed h.seen)
    rw [h.hash, hext.hashes block hne]
  seen := hext.hashed h.seen

/-- The reply `d` to `r` holds, at each position of the file, a byte of a served block. -/
def Right (sha256 : Bytes → Bytes) (c : Config) (r : Read) (d : Bytes) (s : FuseData) : Prop :=
  ∀ p, r.offset ≤ p → p < r.offset + r.size → p < c.fileSize →
    ∃ content, Served sha256 c s (p / c.blockSize) content ∧
      d[p - r.offset]? = content[p % c.blockSize]?

theorem Right.mono {r : Read} {d : Bytes} {s s' : FuseData} (h : Right sha256 c r d s)
    (hext : Extends s s') (hnonzero : ∀ b ∈ s'.hashed, sha256 b ≠ zeroHash) :
    Right sha256 c r d s' := by
  intro p h1 h2 h3
  obtain ⟨content, hserved, hbyte⟩ := h p h1 h2 h3
  exact ⟨content, hserved.mono hext hnonzero, hbyte⟩

/-- The offset inside the first block is exact whatever the product of 32 bits is. -/
theorem blockOffset_eq (hc : c.Accepted) {r : Read} (h : r.offset / c.blockSize < 2 ^ 32) :
    firstBlock c r = r.offset / c.blockSize ∧ blockOffset c r = r.offset % c.blockSize := by
  have hsmall := hc.notSmall
  have hlarge := hc.notLarge
  have hfirst : firstBlock c r = r.offset / c.blockSize := Nat.mod_eq_of_lt h
  refine ⟨hfirst, ?_⟩
  have hsplit := Nat.div_add_mod r.offset c.blockSize
  have hmod := Nat.mod_lt r.offset (show 0 < c.blockSize by lia)
  unfold blockOffset blockStart
  rw [hfirst, Nat.mul_comm (r.offset / c.blockSize)]
  generalize c.blockSize * (r.offset / c.blockSize) = start at hsplit
  lia

/-- The 32-bit arithmetic of a read that starts in the file is exact. -/
theorem read_arith (hc : c.Accepted) (hwrap : c.fileSize ≤ (2 ^ 32 - 1) * c.blockSize) {r : Read}
    (h : r.offset < c.fileSize) :
    firstBlock c r = r.offset / c.blockSize ∧ blockOffset c r = r.offset % c.blockSize := by
  have hsmall := hc.notSmall
  apply blockOffset_eq hc
  rw [Nat.div_lt_iff_lt_mul (by lia)]
  lia

/-- Positions of a read lie in its first block or in the next one. -/
theorem position_arith {bs offset p : Nat} (hbs : 0 < bs) (hle : offset ≤ p)
    (hlt : p < offset + bs) :
    (p - offset + offset % bs < bs ∧ p / bs = offset / bs ∧
        p % bs = p - offset + offset % bs) ∨
      (bs ≤ p - offset + offset % bs ∧ p / bs = offset / bs + 1 ∧
        p % bs = p - offset + offset % bs - bs) := by
  have hsplit := Nat.div_add_mod offset bs
  have hmod := Nat.mod_lt offset hbs
  rcases Nat.lt_or_ge (p - offset + offset % bs) bs with hin | hover
  · left
    refine ⟨hin, (Nat.div_mod_unique hbs).2 ⟨?_, hin⟩⟩
    omega
  · right
    refine ⟨hover, (Nat.div_mod_unique hbs).2 ⟨?_, ?_⟩⟩
    · rw [Nat.mul_succ]
      omega
    · omega

theorem block_lt (hwrap : c.fileSize ≤ (2 ^ 32 - 1) * c.blockSize) (hbs : 0 < c.blockSize) {p : Nat}
    (h : p < c.fileSize) : p / c.blockSize < c.fileBlocks := by
  have hle : p / c.blockSize ≤ (c.fileSize - 1) / c.blockSize := Nat.div_le_div_right (by lia)
  have hlt : (c.fileSize - 1) / c.blockSize < 2 ^ 32 - 1 := by
    rw [Nat.div_lt_iff_lt_mul hbs]
    lia
  unfold Config.fileBlocks
  rw [if_neg (by lia), Nat.mod_eq_of_lt (by lia)]
  lia

/-- **What one read keeps, and what its reply is made of.** -/
theorem handleRead_spec (hc : c.Accepted) (hwrap : c.fileSize ≤ (2 ^ 32 - 1) * c.blockSize)
    {r : Read} {s : FuseData} (hsize : r.size ≤ c.blockSize) (hi : Inv sha256 c s)
    (hclean : ReadClean sha256 c r s) :
    Inv sha256 c (handleRead sha256 c r s).2 ∧ Extends s (handleRead sha256 c r s).2 ∧
      ∀ d, (handleRead sha256 c r s).1 = some d →
        (∀ b ∈ (handleRead sha256 c r s).2.hashed, sha256 b ≠ zeroHash) →
        Right sha256 c r d (handleRead sha256 c r s).2 := by
  have hbs : 0 < c.blockSize := by
    have := hc.notSmall
    lia
  obtain ⟨hclean₁, hclean₂⟩ := hclean
  obtain ⟨hi₁, hext₁, hcur₁⟩ := fetchBlock_spec hc hi hclean₁
  obtain ⟨⟨res₁, s₁⟩, hf₁⟩ : ∃ x, x = fetchBlock sha256 c (firstBlock c r) r.first s := ⟨_, rfl⟩
  rw [← hf₁] at hi₁ hext₁ hcur₁ hclean₂
  obtain ⟨hi₂, hext₂, hcur₂⟩ := fetchBlock_spec hc hi₁ hclean₂
  unfold handleRead
  simp only [← hf₁]
  by_cases hres₁ : res₁ ≠ 0
  · rw [if_pos hres₁]
    exact ⟨hi₁, hext₁, fun d h => by cases h⟩
  rw [if_neg hres₁]
  have hfirst : s₁.currBlock = firstBlock c r := hcur₁ (not_not.1 hres₁)
  by_cases hspill : spills c r = true
  · rw [if_pos hspill]
    obtain ⟨⟨res₂, s₂⟩, hf₂⟩ : ∃ x, x = fetchBlock sha256 c ((firstBlock c r + 1) % 2 ^ 32)
      r.second s₁ := ⟨_, rfl⟩
    rw [← hf₂] at hi₂ hext₂ hcur₂
    simp only [← hf₂]
    by_cases hres₂ : res₂ ≠ 0
    · rw [if_pos hres₂]
      exact ⟨hi₂, hext₁.trans hext₂, fun d h => by cases h⟩
    rw [if_neg hres₂]
    refine ⟨hi₂, hext₁.trans hext₂, ?_⟩
    intro d hd hnonzero p hle hlt hfile
    simp only [Option.some.injEq] at hd
    obtain ⟨hblock, hoffset⟩ := read_arith hc hwrap (show r.offset < c.fileSize by lia)
    have hplt := block_lt hwrap hbs hfile
    have hblocks := hc.blocks
    have hextra : ((s₁.blockData.drop (blockOffset c r)).take
        (c.blockSize - blockOffset c r)).length = c.blockSize - blockOffset c r := by
      rw [List.length_take, List.length_drop, hi₁.len, Nat.min_self]
    rw [hoffset] at hd hextra
    rw [hextra] at hd
    rcases position_arith hbs hle (show p < r.offset + c.blockSize by lia) with
      ⟨hin, hdiv, hmod⟩ | ⟨hover, hdiv, hmod⟩
    · -- the part copied to the extra block
      refine ⟨s₁.blockData, ?_, ?_⟩
      · have hserved := hi₁.served (by rw [hfirst, hblock, ← hdiv]; exact hplt)
        rw [hfirst, hblock, ← hdiv] at hserved
        exact hserved.mono hext₂ hnonzero
      · rw [← hd, List.getElem?_append_left (by rw [hextra]; lia),
          List.getElem?_take_of_lt (by lia), List.getElem?_drop, hmod, Nat.add_comm]
    · -- the part in the next block
      have hnext : (firstBlock c r + 1) % 2 ^ 32 = p / c.blockSize := by
        rw [hblock, hdiv, Nat.mod_eq_of_lt (by lia)]
      have hcur : s₂.currBlock = p / c.blockSize := (hcur₂ (not_not.1 hres₂)).trans hnext
      refine ⟨s₂.blockData, ?_, ?_⟩
      · have hserved := hi₂.served (by rw [hcur]; exact hplt)
        rwa [hcur] at hserved
      · have hmodlt := Nat.mod_lt r.offset hbs
        rw [← hd, List.getElem?_append_right (by rw [hextra]; lia), hextra,
          List.getElem?_take_of_lt (by lia), hmod]
        congr 1
        lia
  · rw [if_neg hspill]
    refine ⟨hi₁, hext₁, ?_⟩
    intro d hd hnonzero p hle hlt hfile
    simp only [Option.some.injEq] at hd
    obtain ⟨hblock, hoffset⟩ := read_arith hc hwrap (show r.offset < c.fileSize by lia)
    have hfits : r.size + r.offset % c.blockSize ≤ c.blockSize := by
      unfold spills at hspill
      rw [hoffset, decide_eq_true_eq] at hspill
      lia
    have hplt := block_lt hwrap hbs hfile
    rcases position_arith hbs hle (show p < r.offset + c.blockSize by lia) with
      ⟨hin, hdiv, hmod⟩ | ⟨hover, -, -⟩
    · refine ⟨s₁.blockData, ?_, ?_⟩
      · have hserved := hi₁.served (by rw [hfirst, hblock, ← hdiv]; exact hplt)
        rwa [hfirst, hblock, ← hdiv] at hserved
      · rw [← hd, hoffset, List.getElem?_take_of_lt (by lia), List.getElem?_drop, hmod,
          Nat.add_comm]
    · lia

/-! ## Runs -/

/-- Every reply of the run is made of blocks with the stored hashes. -/
theorem run_spec (hc : c.Accepted) (hwrap : c.fileSize ≤ (2 ^ 32 - 1) * c.blockSize) :
    ∀ {reads : List Read} {s : FuseData}, (∀ r ∈ reads, r.size ≤ c.blockSize) → Inv sha256 c s →
    ReadsClean sha256 c reads s →
    (∀ b ∈ (run sha256 c reads s).2.hashed, sha256 b ≠ zeroHash) →
    Extends s (run sha256 c reads s).2 ∧
      ∀ r d, (r, some d) ∈ (run sha256 c reads s).1 → Right sha256 c r d (run sha256 c reads s).2
  | [], s, _, _, _, _ => ⟨Extends.refl s, fun r d h => by cases h⟩
  | r :: reads, s, hsize, hi, ⟨hclean, hrest⟩, hnonzero => by
    obtain ⟨⟨reply, s₁⟩, hr⟩ : ∃ x, x = handleRead sha256 c r s := ⟨_, rfl⟩
    rw [← hr] at hrest
    unfold run at hnonzero ⊢
    rw [← hr] at hnonzero ⊢
    dsimp only at hnonzero hrest ⊢
    have hsize' : ∀ r ∈ reads, r.size ≤ c.blockSize := fun r h => hsize r (List.mem_cons_of_mem _ h)
    obtain ⟨hi₁, hext₁, hright⟩ := handleRead_spec hc hwrap (hsize r List.mem_cons_self) hi hclean
    rw [← hr] at hi₁ hext₁ hright
    obtain ⟨hext₂, hrights⟩ := run_spec hc hwrap hsize' hi₁ hrest hnonzero
    refine ⟨hext₁.trans hext₂, ?_⟩
    intro q d hq
    rcases List.mem_cons.1 hq with heq | hq
    · obtain ⟨rfl, rfl⟩ : q = r ∧ some d = reply := by simpa using heq
      have hnonzero₁ : ∀ b ∈ s₁.hashed, sha256 b ≠ zeroHash :=
        fun b hb => hnonzero b (hext₂.hashed hb)
      exact (hright d rfl hnonzero₁).mono hext₂ hnonzero
    · exact hrights q d hq

theorem initial_inv (hc : c.Accepted) {buffer : Bytes} (h : buffer.length = c.blockSize) :
    Inv sha256 c (initial buffer) := by
  have hno : ¬ (initial buffer).currBlock < c.fileBlocks := by
    have := hc.blocks
    show ¬ 2 ^ 32 - 1 < c.fileBlocks
    lia
  exact ⟨h, fun h => absurd h hno, fun h => absurd h hno⟩

/-- **Read consistency.**  In every run of reads of at most a block, whatever the host answers, as
long as no failing fetch leaves something else in a buffer that caches a block: two replies that
cover the same position of the file have the same byte there. -/
theorem reads_agree (hc : c.Accepted) (hwrap : c.fileSize ≤ (2 ^ 32 - 1) * c.blockSize)
    {reads : List Read} {buffer : Bytes} (hbuffer : buffer.length = c.blockSize)
    (hsize : ∀ r ∈ reads, r.size ≤ c.blockSize)
    (hclean : ReadsClean sha256 c reads (initial buffer))
    (hsha : NoCollision sha256 (run sha256 c reads (initial buffer)).2.hashed)
    {r r' : Read} {d d' : Bytes} (h : (r, some d) ∈ (run sha256 c reads (initial buffer)).1)
    (h' : (r', some d') ∈ (run sha256 c reads (initial buffer)).1) {p : Nat}
    (hp : p < c.fileSize) (hr : r.offset ≤ p ∧ p < r.offset + r.size)
    (hr' : r'.offset ≤ p ∧ p < r'.offset + r'.size) :
    ∃ b, d[p - r.offset]? = some b ∧ d'[p - r'.offset]? = some b := by
  have hbs : 0 < c.blockSize := by
    have := hc.notSmall
    omega
  obtain ⟨-, hrights⟩ := run_spec hc hwrap hsize (initial_inv hc hbuffer) hclean hsha.nonzero
  obtain ⟨content, hserved, hbyte⟩ := hrights r d h p hr.1 hr.2 hp
  obtain ⟨content', hserved', hbyte'⟩ := hrights r' d' h' p hr'.1 hr'.2 hp
  have hsame : content = content' := by
    apply hsha.injective _ hserved.seen _ hserved'.seen
    rw [hserved.hash, hserved'.hash]
  have hlt : p % c.blockSize < content.length := by
    rw [hserved.len]
    exact Nat.mod_lt p hbs
  rw [← hsame] at hbyte'
  refine ⟨content[p % c.blockSize], ?_, ?_⟩
  · rw [hbyte, List.getElem?_eq_getElem hlt]
  · rw [hbyte', List.getElem?_eq_getElem hlt]

/-! ## A package of two blocks -/

/-- Two blocks of 4096 bytes. -/
def twoBlocks : Config := ⟨8192, 4096⟩

/-- The SHA-256 of 4096 zeros. -/
def zerosHash : Bytes :=
  [0xad, 0x7f, 0xac, 0xb2, 0x58, 0x6f, 0xc6, 0xe9, 0x66, 0xc0, 0x04, 0xd7, 0xd1, 0xd1, 0x6b, 0x02,
   0x4f, 0x58, 0x05, 0xff, 0x7c, 0xb4, 0x7c, 0x7a, 0x85, 0xda, 0xbd, 0x8b, 0x48, 0x89, 0x2c, 0xa7]

/-- The SHA-256 of 4096 ones. -/
def onesHash : Bytes :=
  [0x34, 0x31, 0x38, 0x37, 0x21, 0x51, 0x0c, 0xf1, 0xc2, 0x11, 0xde, 0x02, 0x7c, 0xf9, 0x58, 0xc1,
   0x83, 0xe1, 0x6d, 0xb5, 0xfa, 0xbb, 0x6b, 0x23, 0x0e, 0xb2, 0x84, 0xc8, 0x5e, 0x19, 0x6a, 0xa9]

/-- SHA-256 on these two blocks. -/
def twoHashes (b : Bytes) : Bytes := if b.head? = some 0 then zerosHash else onesHash

def zeros : Answer := ⟨0, List.replicate 4096 0⟩

def ones : Answer := ⟨0, List.replicate 4096 1⟩

/-- The connection breaks after one byte. -/
def broken : Answer := ⟨- EIO, [1]⟩

/-- The first byte of the first block, a byte of the second, the first byte again. -/
def threeReads (second : Answer) : List Read :=
  [⟨0, 1, zeros, zeros⟩, ⟨4096, 1, second, zeros⟩, ⟨0, 1, zeros, zeros⟩]

/-- The last of them is of two bytes. -/
def longerReads : List Read :=
  [⟨0, 1, zeros, zeros⟩, ⟨4096, 1, ones, zeros⟩, ⟨0, 2, zeros, zeros⟩]

/-- The run of these reads, on a buffer of zeros. -/
def longerRun : List (Read × Option Bytes) × FuseData :=
  run twoHashes twoBlocks longerReads (initial (List.replicate 4096 0))

theorem run_reads (sha256 : Bytes → Bytes) (c : Config) : ∀ (reads : List Read) (s : FuseData),
    (run sha256 c reads s).1.map Prod.fst = reads
  | [], _ => rfl
  | r :: reads, _ => congrArg (r :: ·) (run_reads sha256 c reads _)

/-- The first block is fetched twice. -/
theorem longerReads_agree : longerRun.2.hashed.length = 3 ∧
    ∃ b, ([0] : Bytes)[0 - 0]? = some b ∧ ([0, 0] : Bytes)[0 - 0]? = some b := by
  have hc : twoBlocks.Accepted := ⟨by decide, by decide, by decide⟩
  have hblocks : ∀ b ∈ longerRun.2.hashed, b = zeros.filled ∨ b = ones.filled := by
    have hcheck : longerRun.2.hashed.all (fun b =>
        b.length == 4096 && (b.all (· == 0) || b.all (· == 1))) = true := by
      decide +kernel
    intro b hb
    have h := List.all_eq_true.1 hcheck b hb
    simp only [Bool.and_eq_true, Bool.or_eq_true, beq_iff_eq, List.all_eq_true] at h
    exact h.2.imp (fun hb => List.eq_replicate_iff.2 ⟨h.1, hb⟩)
      fun hb => List.eq_replicate_iff.2 ⟨h.1, hb⟩
  have hsha : NoCollision twoHashes longerRun.2.hashed := by
    have hzeros : twoHashes zeros.filled = zerosHash := rfl
    have hones : twoHashes ones.filled = onesHash := rfl
    constructor
    · intro b hb b' hb' heq
      rcases hblocks b hb with rfl | rfl <;> rcases hblocks b' hb' with rfl | rfl
      · rfl
      · exact absurd heq (by rw [hzeros, hones]; decide)
      · exact absurd heq (by rw [hzeros, hones]; decide)
      · rfl
    · intro b hb
      rcases hblocks b hb with rfl | rfl
      · exact hzeros ▸ by decide
      · exact hones ▸ by decide
  have hclean : ReadsClean twoHashes twoBlocks longerReads
      (initial (List.replicate 4096 0)) := by
    have hok : ∀ (block : Nat) (a : Answer) (s : FuseData), a.result = 0 →
        FetchClean twoBlocks block a s := by
      intro block a s ha _ _ hneg
      rw [ha] at hneg
      exact absurd hneg (by decide)
    exact ⟨⟨hok _ _ _ rfl, hok _ _ _ rfl⟩, ⟨hok _ _ _ rfl, hok _ _ _ rfl⟩,
      ⟨hok _ _ _ rfl, hok _ _ _ rfl⟩, trivial⟩
  have hreplies : longerRun.1 = longerReads.zip [some [0], some [1], some [0, 0]] := by
    apply List.zip_of_prod (run_reads _ _ _ _)
    show longerRun.1.map Prod.snd = _
    decide +kernel
  have h₁ : ((⟨0, 1, zeros, zeros⟩ : Read), some [0]) ∈ longerRun.1 := by
    rw [hreplies]
    exact List.mem_cons_self
  have h₂ : ((⟨0, 2, zeros, zeros⟩ : Read), some [0, 0]) ∈ longerRun.1 := by
    rw [hreplies]
    exact List.mem_cons_of_mem _ (List.mem_cons_of_mem _ List.mem_cons_self)
  have hbuffer : (List.replicate 4096 (0 : UInt8)).length = twoBlocks.blockSize :=
    List.length_replicate
  exact ⟨by decide +kernel, reads_agree hc (by decide) hbuffer (by decide) hclean hsha h₁ h₂ (p := 0)
    (by decide) (by decide) (by decide)⟩

/-- The second read fails with one byte in the buffer; the third returns it. -/
theorem stale_cache :
    ((run (fun _ => zerosHash) twoBlocks (threeReads broken)
      (initial (List.replicate 4096 0))).1.map Prod.snd) = [some [0], none, some [1]] := by
  decide +kernel

end Recovery.Sideload
