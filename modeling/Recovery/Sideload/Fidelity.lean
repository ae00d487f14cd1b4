import Recovery.Sideload.Consistency

/-!
# Replies from an honest host

* `window` — the bytes of the file in a range, with zeros behind its end.
* `honestRead` — a read whose fetches are answered with the file's bytes; `readRequests`, what
  `fetch_block` asks the host for meanwhile.
* `LastBlockFits` — the number of blocks is not truncated, and no short block starts behind the
  first 4 GiB, where the 32-bit product of block number and block size wraps around.
* `HonestInv`, `handleRead_window`, `honestRun_faithful` — one read, and any sequence of reads.
* `sideload_iff` — every run of reads is answered faithfully exactly when `LastBlockFits`.
-/

set_option autoImplicit false

namespace Recovery.Sideload

/-! ## The file as the kernel is to see it -/

/-- Bytes `[offset, offset + size)` of the file, zeros behind its end. -/
def window (file : Bytes) (offset size : Nat) : Bytes :=
  (List.range' offset size).map fun i => file.getD i 0

@[simp] theorem length_window (file : Bytes) (offset size : Nat) :
    (window file offset size).length = size := by
  simp [window]

theorem window_append (file : Bytes) (offset m n : Nat) :
    window file offset m ++ window file (offset + m) n = window file offset (m + n) := by
  simp [window, ← List.map_append]

theorem drop_window (file : Bytes) (offset size n : Nat) :
    (window file offset size).drop n = window file (offset + n) (size - n) := by
  simp [window, ← List.map_drop, List.drop_range']

theorem take_window (file : Bytes) (offset : Nat) {size n : Nat} (h : n ≤ size) :
    (window file offset size).take n = window file offset n := by
  simp [window, ← List.map_take, List.take_range'_of_length_ge h]

/-- Inside the file a window is a slice. -/
theorem window_of_le {file : Bytes} {offset size : Nat} (h : offset + size ≤ file.length) :
    window file offset size = (file.drop offset).take size := by
  apply List.ext_getElem (by simp; lia)
  intro i h1 h2
  rw [length_window] at h1
  simp [window, List.getElem?_eq_getElem (show offset + i < file.length by lia)]

/-- Behind the file there are zeros. -/
theorem window_of_ge {file : Bytes} {offset : Nat} (size : Nat) (h : file.length ≤ offset) :
    window file offset size = List.replicate size 0 := by
  apply List.ext_getElem (by simp)
  intro i h1 h2
  simp [window, List.getElem?_eq_none (show file.length ≤ offset + i by lia)]

/-! ## An honest host -/

section

variable (sha256 : Bytes → Bytes) (c : Config) (file : Bytes)

/-- The host's answer to a request: the bytes of the file, as many as are asked for or are there. -/
def honest (block : Nat) : Answer :=
  ⟨0, (file.drop (block * c.blockSize)).take (fetchSize c block)⟩

def honestRead (offset size : Nat) : Read :=
  let block := offset / c.blockSize % 2 ^ 32
  ⟨offset, size, honest c file block, honest c file ((block + 1) % 2 ^ 32)⟩

/-- The request `fetch_block` makes: block and number of bytes. -/
def fetchRequest (block : Nat) (s : FuseData) : Option (Nat × Nat) :=
  if block = s.currBlock ∨ c.fileBlocks ≤ block then none else some (block, fetchSize c block)

/-- The requests of one read. -/
def readRequests (r : Read) (s : FuseData) : List (Nat × Nat) :=
  let first := (fetchRequest c (firstBlock c r) s).toList
  let (result, s) := fetchBlock sha256 c (firstBlock c r) r.first s
  if result = 0 ∧ spills c r then
    first ++ (fetchRequest c ((firstBlock c r + 1) % 2 ^ 32) s).toList
  else first

/-- A read with its reply and its requests. -/
structure Handled where
  offset : Nat
  size : Nat
  reply : Option Bytes
  requests : List (Nat × Nat)

def honestRun : List (Nat × Nat) → FuseData → List Handled × FuseData
  | [], s => ([], s)
  | (offset, size) :: reads, s =>
    let r := honestRead c file offset size
    let (reply, s') := handleRead sha256 c r s
    let (rest, s'') := honestRun reads s'
    (⟨offset, size, reply, readRequests sha256 c r s⟩ :: rest, s'')

/-- The request is for an existing block and for all that is there of it. -/
def ProperRequest (q : Nat × Nat) : Prop :=
  q.1 * c.blockSize < c.fileSize ∧ q.2 = min c.blockSize (c.fileSize - q.1 * c.blockSize)

structure Handled.Faithful (h : Handled) : Prop where
  reply : h.reply = some (window file h.offset h.size)
  requests : ∀ q ∈ h.requests, ProperRequest c q

/-- A read of the kernel: at most `max_read` bytes, from a block whose number is not `-1` in 32
bits. -/
def Admissible (r : Nat × Nat) : Prop := r.2 ≤ c.blockSize ∧ r.1 / c.blockSize < 2 ^ 32 - 1

/-- The number of blocks is not truncated, and a short last block starts below 4 GiB. -/
def Config.LastBlockFits : Prop :=
  c.fileSize ≤ 2 ^ 18 * c.blockSize ∧
    (c.blockSize ∣ c.fileSize ∨ c.fileSize / c.blockSize * c.blockSize < 2 ^ 32)

end

/-! ## Block arithmetic -/

section Arithmetic

variable {c : Config}

theorem lt_fileBlocks_iff (hbs : 0 < c.blockSize) (hsize : c.fileSize ≤ 2 ^ 18 * c.blockSize)
    (block : Nat) : block < c.fileBlocks ↔ block * c.blockSize < c.fileSize := by
  unfold Config.fileBlocks
  by_cases h0 : c.fileSize = 0
  · rw [if_pos h0, h0]
    simp
  rw [if_neg h0]
  have hlast : (c.fileSize - 1) / c.blockSize < 2 ^ 18 := by
    rw [Nat.div_lt_iff_lt_mul hbs]
    omega
  rw [Nat.mod_eq_of_lt (by omega), Nat.lt_succ_iff, Nat.le_div_iff_mul_le hbs]
  omega

/-- The size of a request, when the last block fits. -/
theorem fetchSize_eq (hbs : 0 < c.blockSize) (hfits : c.LastBlockFits) {block : Nat}
    (hblock : block * c.blockSize < c.fileSize) :
    fetchSize c block = min c.blockSize (c.fileSize - block * c.blockSize) := by
  unfold fetchSize blockStart
  by_cases hlow : block * c.blockSize < 2 ^ 32
  · rw [Nat.mod_eq_of_lt hlow]
    split <;> lia
  · -- behind 4 GiB every block is whole
    have hwhole : block * c.blockSize + c.blockSize ≤ c.fileSize := by
      by_contra hshort
      have hdiv : c.fileSize / c.blockSize = block := by
        rw [Nat.div_eq_iff hbs]
        lia
      rcases hfits.2 with hdvd | hlow'
      · obtain ⟨k, hk⟩ := hdvd
        rw [hk, Nat.mul_div_cancel_left _ hbs] at hdiv
        rw [hk, hdiv, Nat.mul_comm] at hblock
        exact Nat.lt_irrefl _ hblock
      · rw [hdiv] at hlow'
        exact hlow hlow'
    have hmod := Nat.mod_le (block * c.blockSize) (2 ^ 32)
    rw [if_neg (by lia)]
    lia

end Arithmetic

/-! ## One read -/

section Reads

variable {sha256 : Bytes → Bytes} {c : Config} {file : Bytes}

/-- The content of a block, as it is kept in the buffer. -/
def blockContent (c : Config) (file : Bytes) (block : Nat) : Bytes :=
  window file (block * c.blockSize) c.blockSize

/-- The buffer holds the current block, and the hashes are those of the file's blocks. -/
structure HonestInv (sha256 : Bytes → Bytes) (c : Config) (file : Bytes) (s : FuseData) : Prop where
  length : s.blockData.length = c.blockSize
  cached : s.currBlock ≠ NO_BLOCK → s.blockData = blockContent c file s.currBlock
  hashes : ∀ block, s.hashes block = zeroHash ∨ s.hashes block = sha256 (blockContent c file block)

theorem honest_initial {buffer : Bytes} (h : buffer.length = c.blockSize) :
    HonestInv sha256 c file (initial buffer) where
  length := h
  cached h := absurd rfl h
  hashes _ := Or.inl rfl

/-- An honest answer fills the buffer with the block. -/
theorem fillBlock_honest (hbs : 0 < c.blockSize) (hfits : c.LastBlockFits)
    (hfile : file.length = c.fileSize) {block : Nat} (hblock : block * c.blockSize < c.fileSize)
    {data : Bytes} (hdata : data.length = c.blockSize) :
    fillBlock c block (honest c file block) data = blockContent c file block := by
  have hfetch := fetchSize_eq hbs hfits hblock
  have hle : fetchSize c block ≤ c.blockSize := by lia
  have hin : block * c.blockSize + fetchSize c block ≤ file.length := by lia
  have hlen : ((file.drop (block * c.blockSize)).take (fetchSize c block)).length =
      fetchSize c block := by
    rw [List.length_take, List.length_drop]
    lia
  have hpad : List.replicate (c.blockSize - fetchSize c block) 0 =
      window file (block * c.blockSize + fetchSize c block) (c.blockSize - fetchSize c block) := by
    by_cases hfull : fetchSize c block = c.blockSize
    · simp [hfull, window]
    · rw [window_of_ge _ (by lia)]
  unfold fillBlock honest
  simp only [List.take_take, Nat.min_self, hlen]
  rw [List.drop_left' (by rw [List.length_take]; lia), hpad, ← window_of_le hin, window_append]
  unfold blockContent
  congr 1
  lia

/-- **One fetch**: no error, and the buffer holds the block. -/
theorem fetchBlock_honest (hc : c.Accepted) (hfits : c.LastBlockFits)
    (hfile : file.length = c.fileSize) {s : FuseData} (hi : HonestInv sha256 c file s) {block : Nat}
    (hblock : block ≠ NO_BLOCK ∨ s.currBlock ≠ NO_BLOCK) :
    (fetchBlock sha256 c block (honest c file block) s).1 = 0 ∧
      HonestInv sha256 c file (fetchBlock sha256 c block (honest c file block) s).2 ∧
      (fetchBlock sha256 c block (honest c file block) s).2.currBlock = block ∧
      (fetchBlock sha256 c block (honest c file block) s).2.blockData = blockContent c file block := by
  have hbs : 0 < c.blockSize := by
    have := hc.notSmall
    lia
  unfold fetchBlock
  by_cases hcur : block = s.currBlock
  · rw [if_pos hcur]
    exact ⟨rfl, hi, hcur.symm, hcur ▸ hi.cached (by rcases hblock with h | h <;> grind)⟩
  rw [if_neg hcur]
  by_cases hblocks : c.fileBlocks ≤ block
  · rw [if_pos hblocks]
    have hge : file.length ≤ block * c.blockSize := by
      rw [hfile, ← Nat.not_lt, ← lt_fileBlocks_iff hbs hfits.1]
      lia
    have hzero : List.replicate c.blockSize 0 = blockContent c file block :=
      (window_of_ge c.blockSize hge).symm
    exact ⟨rfl, ⟨by simp, fun _ => hzero, hi.hashes⟩, rfl, hzero⟩
  rw [if_neg hblocks]
  have hfill := fillBlock_honest hbs hfits hfile
    ((lt_fileBlocks_iff hbs hfits.1 block).1 (by lia)) hi.length
  have hlen : (blockContent c file block).length = c.blockSize := length_window _ _ _
  simp only [hfill]
  rw [if_neg (show ¬ (honest c file block).result < 0 by simp [honest])]
  rcases hi.hashes block with hzero | hsame
  · split
    · exact ⟨rfl, ⟨hlen, fun _ => rfl, hi.hashes⟩, rfl, rfl⟩
    · rw [if_neg (not_not.2 hzero)]
      refine ⟨rfl, ⟨hlen, fun _ => rfl, ?_⟩, rfl, rfl⟩
      intro b
      by_cases hb : b = block
      · subst hb
        exact Or.inr (Function.update_self _ _ _)
      · have hother : Function.update s.hashes block (sha256 (blockContent c file block)) b =
            s.hashes b := Function.update_of_ne hb _ _
        simp only [hother]
        exact hi.hashes b
  · rw [if_pos hsame.symm]
    exact ⟨rfl, ⟨hlen, fun _ => rfl, hi.hashes⟩, rfl, rfl⟩

/-- The fetch of the next block, which may be the one with number `-1`. -/
theorem fetchBlock_spill (hc : c.Accepted) (hfits : c.LastBlockFits)
    (hfile : file.length = c.fileSize) {s : FuseData} (hi : HonestInv sha256 c file s) {block : Nat}
    (hcur : s.currBlock = block) (hblock : block ≠ NO_BLOCK) :
    (fetchBlock sha256 c (block + 1) (honest c file (block + 1)) s).1 = 0 ∧
      HonestInv sha256 c file (fetchBlock sha256 c (block + 1) (honest c file (block + 1)) s).2 ∧
      (fetchBlock sha256 c (block + 1) (honest c file (block + 1)) s).2.currBlock = block + 1 ∧
      (fetchBlock sha256 c (block + 1) (honest c file (block + 1)) s).2.blockData =
        blockContent c file (block + 1) :=
  fetchBlock_honest hc hfits hfile hi (Or.inr (by rw [hcur]; exact hblock))

theorem fetchRequest_proper (hc : c.Accepted) (hfits : c.LastBlockFits) {block : Nat}
    {s : FuseData} : ∀ q ∈ (fetchRequest c block s).toList, ProperRequest c q := by
  have hbs : 0 < c.blockSize := by
    have := hc.notSmall
    lia
  intro q hq
  unfold fetchRequest at hq
  split at hq
  · cases hq
  · rename_i hno
    rw [Option.toList_some, List.mem_singleton] at hq
    subst hq
    have hblock := (lt_fileBlocks_iff hbs hfits.1 block).1 (by lia)
    exact ⟨hblock, fetchSize_eq hbs hfits hblock⟩

/-- **One read**: the reply is the window of the file, and the requests are proper. -/
theorem handleRead_window (hc : c.Accepted) (hfits : c.LastBlockFits)
    (hfile : file.length = c.fileSize) {s : FuseData} (hi : HonestInv sha256 c file s)
    {offset size : Nat} (hadm : Admissible c (offset, size)) :
    (handleRead sha256 c (honestRead c file offset size) s).1 = some (window file offset size) ∧
      HonestInv sha256 c file (handleRead sha256 c (honestRead c file offset size) s).2 ∧
      ∀ q ∈ readRequests sha256 c (honestRead c file offset size) s, ProperRequest c q := by
  obtain ⟨hsize, hblock⟩ := hadm
  simp only at hsize hblock
  obtain ⟨r, hr⟩ : ∃ r, r = honestRead c file offset size := ⟨_, rfl⟩
  have hoffset : r.offset = offset := by rw [hr]; rfl
  have hrsize : r.size = size := by rw [hr]; rfl
  obtain ⟨hfirst, hin⟩ := blockOffset_eq hc (show r.offset / c.blockSize < 2 ^ 32 by rw [hoffset]; lia)
  rw [hoffset] at hfirst hin
  have hmod : (firstBlock c r + 1) % 2 ^ 32 = firstBlock c r + 1 := by
    rw [hfirst, Nat.mod_eq_of_lt (by lia)]
  have hanswer : r.first = honest c file (firstBlock c r) := by rw [hr]; rfl
  have hanswer₂ : r.second = honest c file (firstBlock c r + 1) := by
    rw [← hmod, hr]; rfl
  have hbs := hc.notSmall
  have hsplit := Nat.div_add_mod offset c.blockSize
  rw [Nat.mul_comm] at hsplit
  have hlt := Nat.mod_lt offset (show 0 < c.blockSize by lia)
  obtain ⟨hres, hi₁, hcur, hdata⟩ := fetchBlock_honest hc hfits hfile hi
    (Or.inl (show firstBlock c r ≠ NO_BLOCK by rw [hfirst]; simp only [NO_BLOCK]; lia))
  rw [← hr]
  unfold handleRead readRequests
  rw [hanswer, hanswer₂, hmod]
  obtain ⟨⟨res, s₁⟩, hf⟩ : ∃ x, x = fetchBlock sha256 c (firstBlock c r)
    (honest c file (firstBlock c r)) s := ⟨_, rfl⟩
  rw [← hf] at hres hi₁ hcur hdata
  simp only at hres hi₁ hcur hdata
  subst hres
  simp only [← hf]
  -- the start of the block in the file, and what is behind the read's offset
  have hstart : firstBlock c r * c.blockSize + blockOffset c r = offset := by
    rw [hfirst, hin]; exact hsplit
  have hblockOffset : blockOffset c r < c.blockSize := by rw [hin]; exact hlt
  have hrest : s₁.blockData.drop (blockOffset c r) =
      window file offset (c.blockSize - blockOffset c r) := by
    rw [hdata, blockContent, drop_window, hstart]
  rw [if_neg (not_not.2 rfl)]
  by_cases hspill : spills c r = true
  · rw [if_pos hspill]
    obtain ⟨hres₂, hi₂, hcur₂, hdata₂⟩ := fetchBlock_spill hc hfits hfile hi₁ hcur
      (by rw [hfirst]; simp only [NO_BLOCK]; lia)
    obtain ⟨⟨res₂, s₂⟩, hf₂⟩ : ∃ x, x = fetchBlock sha256 c (firstBlock c r + 1)
      (honest c file (firstBlock c r + 1)) s₁ := ⟨_, rfl⟩
    rw [← hf₂] at hres₂ hi₂ hdata₂
    simp only at hres₂ hi₂ hdata₂
    subst hres₂
    simp only [← hf₂]
    rw [if_neg (not_not.2 rfl)]
    have hover : c.blockSize < r.size + blockOffset c r := by simpa [spills] using hspill
    rw [hrsize] at hover
    refine ⟨?_, hi₂, ?_⟩
    · have hnext : (firstBlock c r + 1) * c.blockSize =
          offset + (c.blockSize - blockOffset c r) := by
        rw [Nat.add_mul, Nat.one_mul]
        lia
      rw [hrest, take_window file offset (Nat.le_refl _), length_window, hdata₂, blockContent,
        take_window file _ (by lia), hnext, window_append, hrsize, show c.blockSize -
          blockOffset c r + (size - (c.blockSize - blockOffset c r)) = size by lia]
    · rw [if_pos ⟨trivial, hspill⟩]
      intro q hq
      rcases List.mem_append.1 hq with hq | hq
      · exact fetchRequest_proper hc hfits q hq
      · exact fetchRequest_proper hc hfits q hq
  · rw [if_neg hspill]
    have hwithin : ¬ c.blockSize < r.size + blockOffset c r := by simpa [spills] using hspill
    rw [hrsize] at hwithin
    refine ⟨?_, hi₁, ?_⟩
    · rw [hrest, hrsize, take_window file offset (by lia)]
    · rw [if_neg (fun h => hspill h.2)]
      exact fetchRequest_proper hc hfits

/-- **Any sequence of reads** is answered faithfully. -/
theorem honestRun_faithful (hc : c.Accepted) (hfits : c.LastBlockFits)
    (hfile : file.length = c.fileSize) : ∀ (reads : List (Nat × Nat)) (s : FuseData),
      HonestInv sha256 c file s → (∀ r ∈ reads, Admissible c r) →
      ∀ h ∈ (honestRun sha256 c file reads s).1, h.Faithful c file
  | [], s, _, _, h, hmem => by cases hmem
  | (offset, size) :: reads, s, hi, hadm, h, hmem => by
    obtain ⟨hreply, hi', hreq⟩ :=
      handleRead_window hc hfits hfile hi (hadm (offset, size) List.mem_cons_self)
    rcases List.mem_cons.1 hmem with rfl | hmem
    · exact ⟨hreply, hreq⟩
    · exact honestRun_faithful hc hfits hfile reads _ hi'
        (fun r hr => hadm r (List.mem_cons_of_mem _ hr)) h hmem

/-! ## When the last block does not fit -/

/-- Behind the truncated number of blocks every reply is zero. -/
theorem truncated_reply (hc : c.Accepted) (file buffer : Bytes) :
    (handleRead sha256 c (honestRead c file (c.fileBlocks * c.blockSize) 1) (initial buffer)).1 =
      some [0] := by
  have hbs := hc.notSmall
  have hblocks := hc.blocks
  have hdiv : c.fileBlocks * c.blockSize / c.blockSize = c.fileBlocks :=
    Nat.mul_div_cancel _ (by lia)
  obtain ⟨hfirst, hin⟩ := blockOffset_eq hc
    (show (honestRead c file (c.fileBlocks * c.blockSize) 1).offset / c.blockSize < 2 ^ 32 by
      rw [show (honestRead c file (c.fileBlocks * c.blockSize) 1).offset =
        c.fileBlocks * c.blockSize from rfl, hdiv]; lia)
  have hfirst' : firstBlock c (honestRead c file (c.fileBlocks * c.blockSize) 1) = c.fileBlocks :=
    hfirst.trans hdiv
  have hin' : blockOffset c (honestRead c file (c.fileBlocks * c.blockSize) 1) = 0 :=
    hin.trans (Nat.mul_mod_left _ _)
  have hspill : spills c (honestRead c file (c.fileBlocks * c.blockSize) 1) = false := by
    unfold spills
    rw [hin']
    exact decide_eq_false (show ¬ c.blockSize < 1 + 0 by lia)
  unfold handleRead
  rw [hfirst', hin', hspill]
  unfold fetchBlock
  rw [if_neg (show ¬ c.fileBlocks = (initial buffer).currBlock from
    fun h => by simp only [initial, NO_BLOCK] at h; lia), if_pos (Nat.le_refl _)]
  simp only [ne_eq, not_true_eq_false, if_false, Bool.false_eq_true, List.drop_zero,
    List.take_replicate]
  rw [show min (honestRead c file (c.fileBlocks * c.blockSize) 1).size c.blockSize = 1 from
    Nat.min_eq_left (show 1 ≤ c.blockSize by lia)]
  rfl

/-- A short block behind 4 GiB is asked for as a whole. -/
theorem short_request (hc : c.Accepted) (hsize : c.fileSize ≤ 2 ^ 18 * c.blockSize)
    (hdvd : ¬ c.blockSize ∣ c.fileSize)
    (hlow : 2 ^ 32 ≤ c.fileSize / c.blockSize * c.blockSize) (file buffer : Bytes) :
    (c.fileSize / c.blockSize, c.blockSize) ∈ readRequests sha256 c
      (honestRead c file (c.fileSize / c.blockSize * c.blockSize) 1) (initial buffer) := by
  have hbs := hc.notSmall
  have hlarge := hc.notLarge
  obtain ⟨last, hlast⟩ : ∃ k, k = c.fileSize / c.blockSize := ⟨_, rfl⟩
  have hle : last ≤ 2 ^ 18 := by
    rw [hlast]
    exact Nat.div_le_of_le_mul (by rw [Nat.mul_comm]; exact hsize)
  rw [← hlast] at hlow ⊢
  have hdiv : last * c.blockSize / c.blockSize = last := Nat.mul_div_cancel _ (by lia)
  have hfirst : firstBlock c (honestRead c file (last * c.blockSize) 1) = last := by
    unfold firstBlock honestRead
    rw [hdiv, Nat.mod_eq_of_lt (by lia)]
  have hstart : last * c.blockSize < c.fileSize := by
    rcases Nat.lt_or_eq_of_le (hlast ▸ Nat.div_mul_le_self c.fileSize c.blockSize :
      last * c.blockSize ≤ c.fileSize) with h | h
    · exact h
    · exact absurd ⟨last, by rw [Nat.mul_comm, h]⟩ hdvd
  have hfetch : fetchSize c last = c.blockSize := by
    unfold fetchSize blockStart
    rw [if_neg (by lia)]
  have hrequest : fetchRequest c last (initial buffer) = some (last, c.blockSize) := by
    have hblock := (lt_fileBlocks_iff (by lia) hsize last).2 hstart
    unfold fetchRequest
    rw [if_neg, hfetch]
    rintro (h | h)
    · simp only [initial, NO_BLOCK] at h; lia
    · lia
  unfold readRequests
  simp only [hfirst, hrequest, Option.toList_some]
  split
  · exact List.mem_append_left _ List.mem_cons_self
  · exact List.mem_cons_self

end Reads

/-- **Sideload fidelity**: for an honest host, every read of every run is answered with the bytes
of the file, zeros behind its end, and every request is for what there is of an existing block,
exactly when the number of blocks is not truncated and no short block starts behind 4 GiB. -/
theorem sideload_iff (sha256 : Bytes → Bytes) (c : Config) (hc : c.Accepted) :
    (∀ (file buffer : Bytes) (reads : List (Nat × Nat)), file.length = c.fileSize →
      buffer.length = c.blockSize → (∀ r ∈ reads, Admissible c r) →
      ∀ h ∈ (honestRun sha256 c file reads (initial buffer)).1, h.Faithful c file) ↔
    c.LastBlockFits := by
  have hbs := hc.notSmall
  have hblocks := hc.blocks
  constructor
  · intro h
    have one : ∀ (file buffer : Bytes) (block : Nat), file.length = c.fileSize →
        buffer.length = c.blockSize → block < 2 ^ 32 - 1 →
        Handled.Faithful c file ⟨block * c.blockSize, 1,
          (handleRead sha256 c (honestRead c file (block * c.blockSize) 1) (initial buffer)).1,
          readRequests sha256 c (honestRead c file (block * c.blockSize) 1) (initial buffer)⟩ := by
      intro file buffer block hfile hbuffer hblock
      refine h file buffer [(block * c.blockSize, 1)] hfile hbuffer ?_ _ List.mem_cons_self
      intro r hr
      rw [List.mem_singleton] at hr
      subst hr
      exact ⟨show 1 ≤ c.blockSize by omega, by
        rw [show (block * c.blockSize, 1).1 / c.blockSize = block from
          Nat.mul_div_cancel _ (by omega)]; exact hblock⟩
    have hsize : c.fileSize ≤ 2 ^ 18 * c.blockSize := by
      by_contra hbig
      have hlt : c.fileBlocks * c.blockSize < c.fileSize :=
        Nat.lt_of_le_of_lt (Nat.mul_le_mul_right _ hblocks) (by omega)
      have hreply := (one (List.replicate c.fileSize 1) (List.replicate c.blockSize 0) c.fileBlocks
        (by simp) (by simp) (by omega)).reply
      simp only [truncated_reply hc] at hreply
      rw [window_of_le (by simp; omega)] at hreply
      simp [List.take_replicate, show min 1 (c.fileSize - c.fileBlocks * c.blockSize) = 1 by omega]
        at hreply
    refine ⟨hsize, ?_⟩
    by_contra hno
    rw [not_or, Nat.not_lt] at hno
    have hle : c.fileSize / c.blockSize ≤ 2 ^ 18 :=
      Nat.div_le_of_le_mul (by rw [Nat.mul_comm]; exact hsize)
    have hproper := (one (List.replicate c.fileSize 0) (List.replicate c.blockSize 0)
      (c.fileSize / c.blockSize) (by simp) (by simp) (by omega)).requests _
      (short_request hc hsize hno.1 hno.2 _ _)
    have hmin : c.blockSize = min c.blockSize (c.fileSize - c.fileSize / c.blockSize * c.blockSize) :=
      hproper.2
    have hmod := Nat.mod_lt c.fileSize (show 0 < c.blockSize by omega)
    have hsplit := Nat.div_add_mod c.fileSize c.blockSize
    rw [Nat.mul_comm] at hsplit
    omega
  · intro hfits file buffer reads hfile hbuffer hadm
    exact honestRun_faithful hc hfits hfile reads _ (honest_initial hbuffer) hadm

/-- Two blocks of 64 KiB, the second one short: a read of all of it, and one across the end. -/
theorem sideload_two_blocks :
    Config.Accepted ⟨70000, 65536⟩ ∧
    ∀ h ∈ (honestRun id ⟨70000, 65536⟩ (List.replicate 70000 1) [(65536, 4464), (69999, 65536)]
        (initial (List.replicate 65536 0))).1,
      h.Faithful ⟨70000, 65536⟩ (List.replicate 70000 1) := by
  have hc : Config.Accepted ⟨70000, 65536⟩ := ⟨by decide, by decide, by decide⟩
  have hreads : ∀ r ∈ [(65536, 4464), (69999, 65536)], Admissible ⟨70000, 65536⟩ r := by
    intro r hr
    simp only [List.mem_cons, List.not_mem_nil, or_false] at hr
    rcases hr with rfl | rfl
    · exact ⟨by decide, by decide⟩
    · exact ⟨by decide, by decide⟩
  refine ⟨hc, ?_⟩
  generalize hfile : List.replicate 70000 (1 : UInt8) = file
  generalize hbuffer : List.replicate 65536 (0 : UInt8) = buffer
  apply (sideload_iff id ⟨70000, 65536⟩ hc).2 ⟨by decide, Or.inr (by decide)⟩ file buffer _ ?_ ?_
    hreads
  · rw [← hfile, List.length_replicate]
  · rw [← hbuffer, List.length_replicate]

/-- One byte more than 4 GiB: the last block has one byte, and the host is asked for 64 KiB. -/
theorem sideload_short_request :
    Config.Accepted ⟨2 ^ 32 + 1, 65536⟩ ∧
    (∀ sha256 file buffer, (65536, 65536) ∈ readRequests sha256 ⟨2 ^ 32 + 1, 65536⟩
      (honestRead ⟨2 ^ 32 + 1, 65536⟩ file (2 ^ 32) 1) (initial buffer)) ∧
    ¬ ProperRequest ⟨2 ^ 32 + 1, 65536⟩ (65536, 65536) := by
  have hc : Config.Accepted ⟨2 ^ 32 + 1, 65536⟩ := ⟨by decide, by decide, by decide⟩
  refine ⟨hc, fun sha256 file buffer => ?_, fun h => absurd h.2 (by decide)⟩
  exact short_request hc (by decide) (by decide) (by decide) file buffer

end Recovery.Sideload
