import Recovery.BlockImg.RunSteps

/-!
# What an update leaves alone

* `targets` — the blocks in the targets of the commands of a list.
* `Frame B s s'` — the device has changed in the blocks `B` only.
* `Aimed` — where a writer stands; `write_frame` — a writer stays inside its range set, also with
  more data than fit.
* `loadSrcTgtVersion3_target` — the token that the target of a load comes from.
* `performBlockImageUpdate_frame`, `reruns_frame` — no run changes another block, however it
  ends, and no sequence of runs does.

The words of a command are looked at without running anything, so the set of blocks is a function
of the text; whether a target can be loaded at all does not matter for the statement.
-/

set_option autoImplicit false

namespace Recovery.BlockImg

open Recovery.Lib Recovery.OtaUtil

/-! ## Targets -/

/-- The place of the target among the tokens of a command. -/
def CommandName.targetToken : CommandName → Option Nat
  | .bsdiff | .imgdiff => some 5
  | .move => some 2
  | .erase | .new | .zero => some 1
  | .free | .stash => none

/-- The blocks in the target of the command that the tokens make. -/
def targetOf (base : AndroidBase) (tokens : List String) : List Nat :=
  match (findCommand (tokens.headD "")).bind CommandName.targetToken with
  | none => []
  | some k => (RangeSet.parse base (tokens.getD k "")).blockList

/-- The blocks in the targets of the commands of a list. -/
def targets (base : AndroidBase) (lines : List String) : List Nat :=
  lines.flatMap fun line => targetOf base (base.split line " ")

/-- The device has changed in the blocks `B` only. -/
def Frame (B : Nat → Prop) (s s' : St) : Prop :=
  ∀ p, ¬ B (p / BLOCKSIZE) → s'.disk.dev p = s.disk.dev p

variable {B : Nat → Prop} {E : Env}

instance : IsPreorder St (Frame B) where
  refl _ _ _ := rfl
  trans _ _ _ h h' p hp := (h' p hp).trans (h p hp)

theorem Frame.of_dev {s s' : St} (h : s'.disk.dev = s.disk.dev) : Frame B s s' :=
  fun p _ => by rw [h]

theorem frame_of_quiet {α : Type} {x : M α} (h : Within Quiet x) : Within (Frame B) x :=
  h.mono fun _ _ hq => .of_dev hq.dev

/-! ## Operations that do not write to the device -/

theorem effect_frame {f : Disk → Disk} (hf : ∀ d, (f d).dev = d.dev) :
    Within (Frame B) (effect f) := by
  have hm : Within (Frame B) (modifyDisk f) := .modify fun s => .of_dev (hf s.disk)
  refine (frame_of_quiet quiet_nextFate).bind fun a => ?_
  cases a with
  | ok => exact hm.bind fun _ => .pure _
  | fail n =>
    dsimp only
    split
    · exact hm.bind fun _ => .pure _
    · exact .pure _
  | crash n =>
    dsimp only
    split
    · exact hm.bind fun _ => .throw _
    · exact .throw _

theorem deleteFile_frame (name : String) : Within (Frame B) (deleteFile name) := by
  refine Within.bind (effect_frame fun d => ?_) fun _ => .pure _
  rfl

theorem deleteFiles_frame : ∀ names : List String, Within (Frame B) (deleteFiles names)
  | [] => .pure _
  | name :: names => (deleteFile_frame name).bind fun _ => deleteFiles_frame names

theorem deleteStash_frame : Within (Frame B) deleteStash := by
  refine .get_bind fun s => (deleteFiles_frame _).bind fun _ => ?_
  refine Within.bind (effect_frame fun d => ?_) fun _ => .pure _
  split <;> rfl

theorem freeStash_frame (id : String) : Within (Frame B) (freeStash E id) :=
  .ite (fun _ => .pure _) fun _ => (deleteFile_frame _).bind fun _ => .pure _

theorem loadStash_frame (id : String) (verify : Bool) (buffer : List UInt8) (printnoent : Bool) :
    Within (Frame B) (loadStash E id verify buffer printnoent) := by
  refine .get_bind fun s => ?_
  have hcorrupted (buffer : List UInt8) (src : RangeSet) :
      Within (Frame B) (printHashForCorruptedStashedBlocks buffer src) :=
    frame_of_quiet (quiet_printHashForCorruptedStashedBlocks _ _)
  have hmissing : Within (Frame B) (printHashForMissingStashedBlocks E id) :=
    frame_of_quiet (quiet_printHashForMissingStashedBlocks _)
  have hio : Within (Frame B) ioOk := frame_of_quiet quiet_ioOk
  split
  · refine (frame_of_quiet (quiet_readBlocks _ _)).bind fun r => ?_
    refine .ite (fun _ => .pure _) fun _ => .ite (fun _ => .pure _) fun _ => ?_
    exact (hcorrupted _ _).bind fun _ => .pure _
  · refine hio.bind fun statOk => ?_
    split
    · dsimp only
      split
      · exact hmissing.bind fun _ => .pure _
      · exact .pure _
    · refine .ite (fun _ => hmissing.bind fun _ => .pure _) fun _ => ?_
      refine .ite (fun _ => .pure _) fun _ => hio.bind fun _ => .ite (fun _ => ?_) fun _ => .pure _
      refine (frame_of_quiet fun s => (readStashFile_reaches _ _ s).within).bind fun r => ?_
      refine .ite (fun _ => .pure _) fun _ => .ite (fun _ => ?_) fun _ => .pure _
      have hdelete : Within (Frame B)
          (deleteFile (E.stashFile id) >>= fun _ => pure (false, r.2)) :=
        (deleteFile_frame _).bind fun _ => .pure _
      dsimp only
      split
      · exact hdelete
      · exact (hcorrupted _ _).bind fun _ => hdelete

theorem writeStash_frame (id : String) (blocks : Nat) (buffer : List UInt8)
    (checkspace checkExists : Bool) :
    Within (Frame B) (writeStash id blocks buffer checkspace checkExists) := by
  have hio : Within (Frame B) ioOk := frame_of_quiet quiet_ioOk
  have hpart (data : List UInt8) : Within (Frame B) (writePartial id data) := by
    have hm (data : List UInt8) : Within (Frame B) (modifyDisk fun d =>
        { d with stash := d.stash.insert (partialName id) data }) := .modify fun _ => .of_dev rfl
    refine (frame_of_quiet quiet_nextFate).bind fun f => ?_
    cases f with
    | ok => exact (hm _).bind fun _ => .pure _
    | fail n => exact (hm _).bind fun _ => .pure _
    | crash n => exact (hm _).bind fun _ => .throw _
  have hrest (statOk : Bool) : Within (Frame B) (do
      let d := (← get).disk
      if statOk ∧ (d.stash.lookup id).isSome then return (true, true)
      else if ¬ d.stashDir then return (false, false)
      else if blockBytes blocks ≤ buffer.length then
        if ← writePartial id (buffer.take (blockBytes blocks)) then
          let ok ← effect (renamePartial id)
          return (ok, false)
        else return (false, false)
      else throw .overrun : M (Bool × Bool)) := by
    refine .get_bind fun s => .ite (fun _ => .pure _) fun _ => .ite (fun _ => .pure _) fun _ => ?_
    refine .ite (fun _ => ?_) fun _ => .throw _
    refine (hpart _).bind fun _ => .ite (fun _ => ?_) fun _ => .pure _
    refine Within.bind (effect_frame fun d => ?_) fun _ => .pure _
    unfold renamePartial
    split <;> rfl
  refine hio.bind fun _ => .ite (fun _ => .pure _) fun _ => ?_
  dsimp only
  split
  · exact hio.bind hrest
  · exact (Within.pure _).bind hrest

theorem modifyParams_frame (f : CommandParameters → CommandParameters) :
    Within (Frame B) (modifyParams f) := .modify fun _ => .of_dev rfl

theorem stashOverlap_frame (srchash : String) (srcBlocks : Nat) :
    Within (Frame B) (stashOverlap srchash srcBlocks) := by
  refine .get_bind fun s => (writeStash_frame _ _ _ _ _).bind fun r => ?_
  refine .ite (fun _ => .pure _) fun _ => ?_
  refine (frame_of_quiet (quiet_updateLastCommandIndex _ _)).bind fun _ => ?_
  exact (modifyParams_frame _).bind fun _ => .pure _

theorem loadStashes_frame : ∀ stashes : List String, Within (Frame B) (loadStashes E stashes)
  | [] => .pure _
  | _ :: rest => by
    refine (frame_of_quiet quiet_nextToken).bind fun token => ?_
    dsimp only
    split
    · refine (loadStash_frame _ _ _ _).bind fun r => ?_
      refine .ite (fun _ => ?_) fun _ => loadStashes_frame rest
      refine (frame_of_quiet (quiet_parseChecked _)).bind fun locs => .get_bind fun s => ?_
      refine (frame_of_quiet (quiet_moveRange _ _ _)).bind fun buffer => ?_
      exact (modifyParams_frame _).bind fun _ => loadStashes_frame rest
    · exact .pure _

theorem loadSourceBlocks_frame (tgt : RangeSet) : Within (Frame B) (loadSourceBlocks E tgt) := by
  have hbuffer (buffer : List UInt8) : Within (Frame B) (setBuffer buffer) := modifyParams_frame _
  refine (frame_of_quiet quiet_nextToken).bind fun token => ?_
  split
  · exact .pure _
  · refine .get_bind fun s => (hbuffer _).bind fun _ => ?_
    refine (frame_of_quiet quiet_nextToken).bind fun token => .ite (fun _ => ?_) fun _ => ?_
    · refine .get_bind fun s => (loadStashes_frame _).bind fun ok => ?_
      exact .ite (fun _ => .pure _) fun _ => .pure _
    · refine (frame_of_quiet (quiet_parseChecked _)).bind fun src => .get_bind fun s => ?_
      refine (frame_of_quiet (quiet_readBlocks _ _)).bind fun r => ?_
      refine (hbuffer _).bind fun _ => .ite (fun _ => .pure _) fun _ => ?_
      refine .get_bind fun s => .ite (fun _ => .pure _) fun _ => ?_
      refine (frame_of_quiet quiet_nextToken).bind fun token => ?_
      refine (frame_of_quiet (quiet_parseChecked _)).bind fun locs => .get_bind fun s => ?_
      refine (frame_of_quiet (quiet_moveRange _ _ _)).bind fun buffer => ?_
      refine (hbuffer _).bind fun _ => .get_bind fun s => ?_
      exact (loadStashes_frame _).bind fun ok => .ite (fun _ => .pure _) fun _ => .pure _

/-! ## The target of a load -/

/-- The tokens are the same, `n` of them have been taken. -/
def Took (n : Nat) (s s' : St) : Prop :=
  s'.params.tokens = s.params.tokens ∧ s'.params.cpos = s.params.cpos + n

theorem nextToken_frame (s : St) : Reaches (Frame B) nextToken s fun token s' =>
    s.params.tokens[s.params.cpos]? = some token ∧ Took 1 s s' := by
  refine .bind_get ?_
  dsimp only
  cases ht : s.params.tokens[s.params.cpos]? with
  | none => exact .throw
  | some token => exact .bind_modify (.of_dev rfl) (.pure ⟨rfl, rfl, rfl⟩)

theorem nextFate_frame (s : St) :
    Reaches (Frame B) nextFate s fun _ s' => s'.pos = s.pos ∧ s'.params = s.params := by
  obtain ⟨f, fs, hn, -, -⟩ := nextFate_spec s
  rw [Reaches, Outcome, hn]
  exact ⟨.of_dev rfl, rfl, rfl⟩

theorem loadHashes_frame (onehash : Bool) (s : St) :
    Reaches (Frame B) (loadHashes onehash) s fun hashes s' =>
      hashes.isSome → Took (if onehash then 1 else 2) s s' := by
  refine .bind_get ?_
  dsimp only
  split
  · exact .pure nofun
  · refine (nextToken_frame s).bind fun srchash s₁ _ h₁ => ?_
    cases onehash with
    | true => exact .pure fun _ => h₁.2
    | false =>
      refine .bind_get ?_
      split
      · exact .pure nofun
      · refine (nextToken_frame s₁).bind fun tgthash s₂ _ h₂ => ?_
        exact .pure fun _ => ⟨h₂.2.1.trans h₁.2.1, by rw [h₂.2.2, h₁.2.2]; rfl⟩

theorem parseChecked_frame (text : String) (s : St) :
    Reaches (Frame B) (parseChecked E text) s fun rs _ => rs = RangeSet.parse E.base text := by
  unfold parseChecked
  dsimp only
  split
  · exact .pure rfl
  · exact .throw

/-- The target is what the token after the hashes says. -/
theorem loadSrcTgtVersion3_target (onehash : Bool) (s : St) :
    Reaches (Frame B) (loadSrcTgtVersion3 E onehash) s fun load _ => ∀ l, load = some l →
      ∃ token, s.params.tokens[s.params.cpos + if onehash then 1 else 2]? = some token ∧
        l.tgt = RangeSet.parse E.base token := by
  refine (loadHashes_frame onehash s).bind fun hashes s₁ _ h₁ => ?_
  split
  · exact .pure nofun
  obtain ⟨htokens, hcpos⟩ := h₁ rfl
  refine .bind_get ?_
  dsimp only
  split
  · exact .pure nofun
  refine (nextToken_frame s₁).bind fun token s₂ _ h₂ => ?_
  refine (parseChecked_frame token s₂).bind fun tgt s₃ _ htgt => ?_
  refine Reaches.imp (R := Frame B) (Q := fun load _ => ∀ l, load = some l → l.tgt = tgt) ?_
    (fun _ => id) fun load _ _ h l hl =>
      ⟨token, by rw [← htokens, ← hcpos]; exact h₂.1, (h l hl).trans htgt⟩
  refine (frame_of_quiet (quiet_readBlocks _ _) s₃).bind fun r s₄ _ _ => ?_
  split
  · exact .pure nofun
  split
  · exact .pure fun l hl => by cases hl; rfl
  refine (loadSourceBlocks_frame tgt s₄).bind fun source s₅ _ _ => ?_
  split
  · exact .pure nofun
  rename_i srcBlocks overlap
  have hloaded (s : St) : Reaches (Frame B)
      (pure (some ⟨false, tgt, srcBlocks⟩) : M (Option Loaded)) s
      fun load _ => ∀ l, load = some l → l.tgt = tgt := .pure fun l hl => by cases hl; rfl
  refine .bind_get ?_
  split
  · split
    · refine (stashOverlap_frame _ _ s₅).bind fun ok s₆ _ _ => ?_
      split
      · exact hloaded s₆
      · exact .pure nofun
    · exact hloaded s₅
  · have hrest (recovered : Bool) (s : St) : Reaches (Frame B) (if recovered = true then
          pure (some ⟨false, tgt, srcBlocks⟩)
        else do
          printHashForCorruptedSourceBlocks E
          modifyParams fun p => { p with isunresumable := true }
          return none : M (Option Loaded)) s fun load _ => ∀ l, load = some l → l.tgt = tgt := by
      split
      · exact hloaded s
      · refine (frame_of_quiet quiet_printHashForCorruptedSourceBlocks s).bind fun _ s₆ _ _ => ?_
        exact (modifyParams_frame _ s₆).bind fun _ s₇ _ _ => .pure nofun
    split
    · refine (loadStash_frame _ _ _ _ s₅).bind fun r s₆ _ _ => ?_
      refine (modifyParams_frame _ s₆).bind fun _ s₇ _ _ => ?_
      exact hrest r.1 s₇
    · exact hrest false s₅

theorem finishCommand_frame (tgt : RangeSet) : Within (Frame B) (finishCommand E tgt) := by
  refine .get_bind fun s => ?_
  dsimp only
  split
  · refine (freeStash_frame _).bind fun _ => ?_
    exact (modifyParams_frame _).bind fun _ => modifyParams_frame _
  · exact modifyParams_frame _

/-! ## Writes -/

/-- The bytes that a write of `n` bytes would change are in the blocks `B`. -/
def Clear (B : Nat → Prop) (offset n : Nat) : Prop := ∀ k < n, B ((offset + k) / BLOCKSIZE)

theorem Clear.mono {offset n m : Nat} (h : Clear B offset n) (hle : m ≤ n) : Clear B offset m :=
  fun k hk => h k (Nat.lt_of_lt_of_le hk hle)

theorem Clear.drop {offset n : Nat} (h : Clear B offset n) (m : Nat) :
    Clear B (offset + m) (n - m) := by
  intro k hk
  rw [Nat.add_assoc]
  exact h (m + k) (by lia)

/-- The bytes of a range. -/
theorem clear_range {r : Range} (hB : ∀ n, r.1 ≤ n → n < r.2 → B n) :
    Clear B (r.1 * BLOCKSIZE) (Range.blocks r * BLOCKSIZE) := by
  intro k hk
  have hdiv : k / BLOCKSIZE < Range.blocks r := (Nat.div_lt_iff_lt_mul (by decide)).2 hk
  rw [Nat.mul_comm, Nat.mul_add_div (by decide)]
  unfold Range.blocks at hdiv
  exact hB _ (by lia) (by lia)

theorem frame_fill {s : St} {pos offset n : Nat} {bs : List UInt8} (h : Clear B offset n) :
    Frame B s { s with disk.dev := fill s.disk.dev (List.range' offset n) bs, pos := pos } := by
  intro p hp
  refine fill_of_notMem fun hmem => hp ?_
  rw [List.mem_range'_1] at hmem
  have hk := h (p - offset) (by lia)
  rwa [Nat.add_sub_cancel' hmem.1] at hk

theorem putBytes_frame {s : St} {bs : List UInt8} (h : Clear B s.pos bs.length) :
    Reaches (Frame B) (putBytes bs) s fun _ s' => s'.pos = s.pos + bs.length :=
  Outcome.modifyState ⟨frame_fill h, rfl⟩

theorem writeAll_frame {s : St} {data : List UInt8} (h : Clear B s.pos data.length) :
    Reaches (Frame B) (writeAll E data) s fun ok s' =>
      ok = true → s'.pos = s.pos + data.length := by
  have hput (k : Nat) (s₁ : St) (hs : s₁.pos = s.pos) :
      Reaches (Frame B) (putBytes (data.take k)) s₁ fun _ s' =>
        s'.pos = s.pos + (data.take k).length := by
    rw [← hs] at h ⊢
    exact putBytes_frame (h.mono (List.length_take_le' _ _))
  have herr (s₁ : St) : Reaches (Frame B) (setDevError >>= fun _ => pure false : M Bool) s₁
      fun ok s' => ok = true → s'.pos = s.pos + data.length :=
    .bind_modify (.of_dev rfl) (.pure nofun)
  refine .bind_get ((nextFate_frame s).bind fun f s₁ _ h₁ => ?_)
  cases f with
  | ok =>
    refine (hput _ s₁ h₁.1).bind fun _ s₂ _ h₂ => ?_
    split
    · rename_i hroom
      rw [List.take_of_length_le hroom] at h₂
      exact .pure fun _ => h₂
    · exact herr s₂
  | fail n => exact (hput _ s₁ h₁.1).bind fun _ s₂ _ _ => herr s₂
  | crash n => exact (hput _ s₁ h₁.1).bind fun _ s₂ _ _ => .throw

theorem blkDiscard_frame {offset size : Nat} (h : Clear B offset size) :
    Within (Frame B) (blkDiscard E offset size) := by
  have hdrop (n : Nat) (hn : n ≤ size) : Within (Frame B) (dropBytes E offset n) :=
    .modify fun s => frame_fill (h.mono hn)
  have hmin (n : Nat) : (if E.isBlk then min n size else 0) ≤ size := by
    split
    · exact Nat.min_le_right _ _
    · exact Nat.zero_le _
  have herr : Within (Frame B) (setDevError >>= fun _ => pure false : M Bool) :=
    (frame_of_quiet quiet_setDevError).bind fun _ => .pure _
  refine (frame_of_quiet quiet_nextFate).bind fun f => ?_
  cases f with
  | ok => exact .ite (fun _ => (hdrop _ (Nat.le_refl _)).bind fun _ => .pure _) fun _ => herr
  | fail n => exact (hdrop _ (hmin n)).bind fun _ => herr
  | crash n => exact (hdrop _ (hmin n)).bind fun _ => .throw _

theorem discardBlocks_frame {offset size : Nat} (h : Clear B offset size) :
    Within (Frame B) (discardBlocks E offset size) :=
  .ite (fun _ => .pure _) fun _ => blkDiscard_frame h

theorem checkLseek_frame (offset : Nat) (s : St) :
    Reaches (Frame B) (checkLseek offset) s fun ok s' => ok = true → s'.pos = offset := by
  refine (frame_of_quiet quiet_ioOk s).bind fun ok s₁ _ _ => ?_
  split
  · exact .bind_modify (.of_dev rfl) (.pure fun _ => rfl)
  · exact .bind_modify (.of_dev rfl) (.pure nofun)

/-- The blocks of the ranges. -/
def Covers (B : Nat → Prop) (ranges : List Range) : Prop :=
  ∀ r ∈ ranges, ∀ n, r.1 ≤ n → n < r.2 → B n

theorem writeBlocksLoop_frame (buffer : List UInt8) :
    ∀ (ranges : List Range) (written : Nat), Covers B ranges →
      Within (Frame B) (writeBlocksLoop E buffer ranges written)
  | [], _, _ => .pure _
  | range :: ranges, written, hB => by
    have hclear := clear_range (hB range List.mem_cons_self)
    intro s
    refine (discardBlocks_frame hclear s).bind fun _ s₁ _ _ => ?_
    split
    · refine (checkLseek_frame _ s₁).bind fun ok s₂ _ h₂ => ?_
      split
      · rename_i hok
        split
        · rw [← h₂ hok] at hclear
          refine (writeAll_frame (hclear.mono (List.length_take_le _ _))).bind fun _ s₃ _ _ => ?_
          have hrest := writeBlocksLoop_frame buffer ranges
            (written + Range.blocks range * BLOCKSIZE) fun r hr => hB r (List.mem_cons_of_mem _ hr)
          exact Within.ite (fun _ => hrest) (fun _ => .pure _) s₃
        · exact .throw
      · exact .pure trivial
    · exact .pure trivial

namespace RangeSinkWriter

/-- What is left of the current range is in the blocks `B`. -/
def Aimed (B : Nat → Prop) (w : RangeSinkWriter) (s : St) : Prop := Clear B s.pos w.currentRangeLeft

theorem seekToOutputRange_frame {w : RangeSinkWriter} {s : St} (hB : Covers B w.tgt.ranges)
    (hw : w.Aimed B s) : Reaches (Frame B) (w.seekToOutputRange E) s fun r s' =>
      r.2.tgt = w.tgt ∧ (r.1 = true → r.2.Aimed B s') := by
  unfold seekToOutputRange
  split
  · exact .pure ⟨rfl, fun _ => hw⟩
  cases hr : w.tgt.ranges[w.nextRange]? with
  | none => exact .pure ⟨rfl, nofun⟩
  | some range =>
    have hclear : Clear B (range.1 * BLOCKSIZE) (blockBytes (Range.blocks range)) :=
      (clear_range (hB range (List.mem_of_getElem? hr))).mono (Nat.mod_le _ _)
    refine (discardBlocks_frame hclear s).bind fun _ s₁ _ _ => ?_
    split
    · refine (checkLseek_frame _ s₁).bind fun ok s₂ _ h₂ => ?_
      split
      · rename_i hok
        rw [← h₂ hok] at hclear
        exact .pure ⟨rfl, fun _ => hclear⟩
      · exact .pure ⟨rfl, nofun⟩
    · exact .pure ⟨rfl, nofun⟩

theorem writeLoop_frame : ∀ (fuel : Nat) (data : List UInt8) (written : Nat) (w : RangeSinkWriter)
    (s : St), Covers B w.tgt.ranges → w.Aimed B s →
    Reaches (Frame B) (writeLoop E fuel data written w) s fun r s' =>
      r.2.tgt = w.tgt ∧ r.1 ≤ written + data.length ∧
        (r.1 = written + data.length → r.2.Aimed B s')
  | 0, data, written, w, s, _, hw => .pure ⟨rfl, Nat.le_add_right _ _, fun _ => hw⟩
  | fuel + 1, data, written, w, s, hB, hw => by
    rw [writeLoop]
    split
    · exact .pure ⟨rfl, Nat.le_add_right _ _, fun _ => hw⟩
    rename_i hne
    have hlen := List.length_pos_of_ne_nil hne
    refine (seekToOutputRange_frame hB hw).bind fun r s₁ _ h₁ => ?_
    obtain ⟨ok, w₁⟩ := r
    obtain ⟨htgt, haimed⟩ := h₁
    cases ok with
    | false => exact .pure ⟨htgt, Nat.le_add_right _ _, fun h => by dsimp only at h; lia⟩
    | true =>
      have hclear : Clear B s₁.pos w₁.currentRangeLeft := haimed rfl
      dsimp only
      have htake : (data.take (min data.length w₁.currentRangeLeft)).length =
          min data.length w₁.currentRangeLeft := by rw [List.length_take]; lia
      refine (writeAll_frame (hclear.mono (by rw [htake]; lia))).bind fun ok s₂ _ h₂ => ?_
      split
      · rename_i hok
        rw [htake] at h₂
        have haim : Clear B s₂.pos (w₁.currentRangeLeft - min data.length w₁.currentRangeLeft) := by
          rw [h₂ hok]
          exact hclear.drop _
        refine (writeLoop_frame fuel (data.drop (min data.length w₁.currentRangeLeft)) _
          { w₁ with
            currentRangeLeft := w₁.currentRangeLeft - min data.length w₁.currentRangeLeft } s₂
            (htgt ▸ hB) haim).imp (fun _ => id) fun r s₃ _ h₃ => ⟨h₃.1.trans htgt, ?_⟩
        have hrest := h₃.2
        rw [List.length_drop] at hrest
        exact ⟨by lia, fun h => hrest.2 (by lia)⟩
      · exact .pure ⟨htgt, Nat.le_add_right _ _, fun h => by dsimp only at h; lia⟩

/-- **A writer never leaves its set**, whatever it is given. -/
theorem write_frame {w : RangeSinkWriter} {s : St} (data : List UInt8) (hB : Covers B w.tgt.ranges)
    (hw : w.Aimed B s) : Reaches (Frame B) (w.write E data) s fun r s' =>
      r.2.tgt = w.tgt ∧ (r.1 = data.length → r.2.Aimed B s') := by
  unfold write
  split
  · exact .pure ⟨rfl, fun _ => hw⟩
  · refine (writeLoop_frame _ _ _ _ _ hB hw).bind fun r s₁ _ h₁ => .pure ⟨h₁.1, fun h => ?_⟩
    exact h₁.2.2 (by rw [Nat.zero_add]; exact h)

end RangeSinkWriter

theorem sinkPieces_frame : ∀ (pieces : List (List UInt8)) (w : RangeSinkWriter) (s : St),
    Covers B w.tgt.ranges → w.Aimed B s →
      Reaches (Frame B) (sinkPieces E pieces w) s fun _ _ => True
  | [], _, _, _, _ => .pure trivial
  | piece :: pieces, w, s, hB, hw => by
    refine (RangeSinkWriter.write_frame piece hB hw).bind fun r s₁ _ h₁ => ?_
    dsimp only
    split
    · exact sinkPieces_frame pieces _ s₁ (h₁.1 ▸ hB) (h₁.2 ‹_›)
    · exact .pure trivial

theorem writeZeros_frame (n : Nat) (s : St) (hB : Clear B s.pos (n * BLOCKSIZE)) :
    Reaches (Frame B) (writeZeros E n) s fun _ _ => True := by
  induction n generalizing s with
  | zero => exact .pure trivial
  | succ n ih =>
    have hlen : (s.params.buffer.take BLOCKSIZE).length ≤ BLOCKSIZE := List.length_take_le _ _
    have hmul : (n + 1) * BLOCKSIZE = n * BLOCKSIZE + BLOCKSIZE := Nat.succ_mul n BLOCKSIZE
    have hfits : (s.params.buffer.take BLOCKSIZE).length ≤ (n + 1) * BLOCKSIZE := by lia
    refine .bind_get ((writeAll_frame (hB.mono hfits)).bind fun ok s₁ _ h₁ => ?_)
    split
    · refine ih s₁ ?_
      rw [h₁ ‹_›]
      exact (hB.drop (s.params.buffer.take BLOCKSIZE).length).mono (by lia)
    · exact .pure trivial

theorem zeroRanges_frame : ∀ ranges : List Range, Covers B ranges →
    Within (Frame B) (zeroRanges E ranges)
  | [], _ => .pure _
  | range :: ranges, hB => by
    have hclear := clear_range (hB range List.mem_cons_self)
    intro s
    refine (discardBlocks_frame hclear s).bind fun _ s₁ _ _ => ?_
    split
    · refine (checkLseek_frame _ s₁).bind fun ok s₂ _ h₂ => ?_
      split
      · rename_i hok
        rw [← h₂ hok] at hclear
        refine (writeZeros_frame _ s₂ hclear).bind fun _ s₃ _ _ => ?_
        have hrest := zeroRanges_frame ranges fun r hr => hB r (List.mem_cons_of_mem _ hr)
        exact Within.ite (fun _ => hrest) (fun _ => .pure _) s₃
      · exact .pure trivial
    · exact .pure trivial

theorem eraseRanges_frame : ∀ ranges : List Range, Covers B ranges →
    Within (Frame B) (eraseRanges E ranges)
  | [], _ => .pure _
  | range :: ranges, hB => by
    have hrest : ∀ ok : Bool, Within (Frame B) (if ok then eraseRanges E ranges else pure false) :=
      fun _ => .ite (fun _ => eraseRanges_frame ranges fun r hr => hB r (List.mem_cons_of_mem _ hr))
        fun _ => .pure _
    unfold eraseRanges
    dsimp only
    split
    · exact (Within.pure _).bind hrest
    · exact (blkDiscard_frame (clear_range (hB range List.mem_cons_self))).bind hrest

/-! ## Commands -/

theorem finishCommand_return_frame (tgt : RangeSet) (rc : Int) :
    Within (Frame B) (finishCommand E tgt >>= fun _ => pure rc) :=
  (finishCommand_frame tgt).bind fun _ => .pure _

theorem noteStatus_frame (complete : Bool) : Within (Frame B) (noteStatus complete) :=
  modifyParams_frame _

/-- The command that is about to run writes to `B` only, if its target is the token at `k`. -/
def Allowed (B : Nat → Prop) (base : AndroidBase) (s : St) (k : Nat) : Prop :=
  ∀ token, s.params.tokens[s.params.cpos + k]? = some token →
    Covers B (RangeSet.parse base token).ranges

theorem performCommandMove_frame {s : St} (h : Allowed B E.base s 1) :
    Reaches (Frame B) (performCommandMove E) s fun _ _ => True := by
  refine (loadSrcTgtVersion3_target true s).bind fun load s₁ _ h₁ => ?_
  split
  · exact .pure trivial
  · rename_i load
    obtain ⟨token, htoken, htgt⟩ := h₁ load rfl
    refine Within.bind (noteStatus_frame _) (fun _ => .get_bind fun s => .ite (fun _ => ?_)
      fun _ => finishCommand_return_frame _ _) s₁
    refine (writeBlocksLoop_frame _ _ _ (htgt ▸ h token htoken)).bind fun _ => ?_
    exact .ite (fun _ => finishCommand_return_frame _ _) fun _ => .pure _

theorem patchBlocks_frame (offset len : Nat) {load : Loaded} (hB : Covers B load.tgt.ranges) :
    Within (Frame B) (patchBlocks E offset len load) := by
  refine .get_bind fun s => .ite (fun _ => ?_) fun _ => .throw _
  refine Within.bind (fun s => sinkPieces_frame _ _ s hB fun k hk => nomatch hk) fun _ => ?_
  exact .ite (fun _ => .pure _) fun _ => .pure _

theorem performCommandDiff_frame {s : St} (h : Allowed B E.base s 4) :
    Reaches (Frame B) (performCommandDiff E) s fun _ _ => True := by
  refine .bind_get ?_
  dsimp only
  split
  · exact .pure trivial
  refine (nextToken_frame s).bind fun _ s₁ _ h₁ => ?_
  split
  · exact .pure trivial
  refine (nextToken_frame s₁).bind fun _ s₂ _ h₂ => ?_
  split
  · exact .pure trivial
  refine (loadSrcTgtVersion3_target false s₂).bind fun load s₃ _ h₃ => ?_
  split
  · exact .pure trivial
  · rename_i load
    obtain ⟨token, htoken, htgt⟩ := h₃ load rfl
    rw [h₂.2.1, h₁.2.1, h₂.2.2, h₁.2.2] at htoken
    refine Within.bind (noteStatus_frame _) (fun _ => .ite (fun _ => ?_)
      fun _ => finishCommand_return_frame _ _) s₃
    refine (patchBlocks_frame _ _ (htgt ▸ h token htoken)).bind fun _ => ?_
    exact .ite (fun _ => finishCommand_return_frame _ _) fun _ => .pure _

theorem performCommandStash_frame : Within (Frame B) (performCommandStash E) := by
  refine .get_bind fun s => .ite (fun _ => .pure _) fun _ => ?_
  refine (frame_of_quiet quiet_nextToken).bind fun id => (loadStash_frame _ _ _ _).bind fun r => ?_
  refine (modifyParams_frame _).bind fun _ => .ite (fun _ => .pure _) fun _ => ?_
  refine (frame_of_quiet quiet_nextToken).bind fun token => ?_
  refine (frame_of_quiet (quiet_parseChecked _)).bind fun src => .get_bind fun s => ?_
  refine (frame_of_quiet (quiet_readBlocks _ _)).bind fun r => ?_
  refine (modifyParams_frame _).bind fun _ => ?_
  refine .ite (fun _ => .pure _) fun _ => Within.bind (.modify fun _ => .of_dev rfl) fun _ => ?_
  refine .ite (fun _ => .pure _) fun _ => .ite (fun _ => .pure _) fun _ => ?_
  refine (writeStash_frame _ _ _ _ _).bind fun r => .ite (fun _ => ?_) fun _ => .pure _
  refine (frame_of_quiet (quiet_updateLastCommandIndex _ _)).bind fun _ => ?_
  exact (modifyParams_frame _).bind fun _ => .pure _

theorem performCommandFree_frame : Within (Frame B) (performCommandFree E) := by
  refine .get_bind fun s => .ite (fun _ => .pure _) fun _ => ?_
  refine (frame_of_quiet quiet_nextToken).bind fun id => ?_
  refine Within.bind (.modify fun _ => .of_dev rfl) fun _ => ?_
  exact .ite (fun _ => freeStash_frame _) fun _ => .pure _

theorem performCommandZero_frame {s : St} (h : Allowed B E.base s 0) :
    Reaches (Frame B) (performCommandZero E) s fun _ _ => True := by
  refine .bind_get ?_
  dsimp only
  split
  · exact .pure trivial
  refine (nextToken_frame s).bind fun token s₁ _ h₁ => ?_
  refine (parseChecked_frame token s₁).bind fun tgt s₂ _ htgt => ?_
  have hB : Covers B tgt.ranges := htgt ▸ h token h₁.1
  have hrest (ok : Bool) : Within (Frame B) (do
      if ok then
        if s.params.cmdname.toList.head? = some 'z' then
          modifyParams fun p => { p with written := p.written + tgt.blocks }
        return 0
      else return -1 : M Int) := by
    refine .ite (fun _ => ?_) fun _ => .pure _
    dsimp only
    split
    · exact (modifyParams_frame _).bind fun _ => .pure _
    · exact .pure _
  refine (modifyParams_frame _ s₂).bind fun _ s₃ _ _ => ?_
  split
  · exact (zeroRanges_frame _ hB).bind hrest s₃
  · exact hrest true s₃

theorem performCommandNew_frame (stream : List UInt8) {s : St} (h : Allowed B E.base s 0) :
    Reaches (Frame B) (performCommandNew E stream) s fun _ _ => True := by
  refine .bind_get ?_
  dsimp only
  split
  · exact .pure trivial
  refine (nextToken_frame s).bind fun token s₁ _ h₁ => ?_
  refine (parseChecked_frame token s₁).bind fun tgt s₂ _ htgt => ?_
  have hB : Covers B tgt.ranges := htgt ▸ h token h₁.1
  have hrest (stream : List UInt8) (ok : Bool) : Within (Frame B) (do
      if ok then
        modifyParams fun p => { p with written := p.written + tgt.blocks }
        return (0, stream)
      else return (-1, []) : M (Int × List UInt8)) :=
    .ite (fun _ => (modifyParams_frame _).bind fun _ => .pure _) fun _ => .pure _
  split
  · refine (RangeSinkWriter.write_frame _ hB fun k hk => nomatch hk).bind fun r s₃ _ _ => ?_
    exact hrest _ _ s₃
  · exact hrest _ true s₂

theorem performCommandErase_frame {s : St} (h : Allowed B E.base s 0) :
    Reaches (Frame B) (performCommandErase E) s fun _ _ => True := by
  have hio : Reaches (Frame B) ioOk s fun _ s' => s'.params = s.params := by
    refine (nextFate_frame s).bind fun f s₁ _ h₁ => ?_
    cases f with
    | ok => exact .pure h₁.2
    | fail n => exact .pure h₁.2
    | crash n => exact .throw
  refine hio.bind fun _ s₁ _ h₁ => ?_
  split
  · exact .pure trivial
  split
  · exact .pure trivial
  refine .bind_get ?_
  dsimp only
  split
  · exact .pure trivial
  refine (nextToken_frame s₁).bind fun token s₂ _ h₂ => ?_
  rw [h₁] at h₂
  refine (parseChecked_frame token s₂).bind fun tgt s₃ _ htgt => ?_
  have hrest (ok : Bool) : Within (Frame B) (if ok then pure 0 else pure (-1) : M Int) :=
    .ite (fun _ => .pure _) fun _ => .pure _
  split
  · exact (eraseRanges_frame _ (htgt ▸ h token h₂.1)).bind hrest s₃
  · exact hrest true s₃

theorem perform_frame (stream : List UInt8) {cmd : CommandName} {s : St} (hcpos : s.params.cpos = 1)
    (h : ∀ k token, cmd.targetToken = some k → s.params.tokens[k]? = some token →
      Covers B (RangeSet.parse E.base token).ranges) :
    Reaches (Frame B) (cmd.perform E stream) s fun _ _ => True := by
  have hallowed (k : Nat) (hk : cmd.targetToken = some (1 + k)) : Allowed B E.base s k :=
    fun token htoken => h _ token hk (hcpos ▸ htoken)
  have hpair {x : M Int} (hx : Reaches (Frame B) x s fun _ _ => True) :
      Reaches (Frame B) (x >>= fun rc => pure (rc, stream)) s fun _ _ => True :=
    hx.bind fun _ _ _ _ => .pure trivial
  cases cmd with
  | new => exact performCommandNew_frame stream (hallowed 0 rfl)
  | bsdiff | imgdiff => exact hpair (performCommandDiff_frame (hallowed 4 rfl))
  | erase => exact hpair (performCommandErase_frame (hallowed 0 rfl))
  | free => exact hpair (performCommandFree_frame s)
  | move => exact hpair (performCommandMove_frame (hallowed 1 rfl))
  | stash => exact hpair (performCommandStash_frame s)
  | zero => exact hpair (performCommandZero_frame (hallowed 0 rfl))

/-! ## The run -/

theorem command_frame {line : String} (hB : ∀ n ∈ targetOf E.base (E.base.split line " "), B n)
    (i : Nat) (v : LoopVars) : Within (Frame B) (command E line i v) := by
  refine .ite (fun _ => .pure _) fun _ => ?_
  intro s
  refine .bind_modify (.of_dev rfl) (.bind_get ?_)
  dsimp only
  split
  · exact .pure trivial
  rename_i cmd hcmd
  split
  · exact .pure trivial
  split
  · exact .pure trivial
  refine (perform_frame _ rfl fun k token hk htoken r hr n hle hlt => hB n ?_).bind
    fun r s₁ _ _ => ?_
  · rw [targetOf, hcmd, Option.bind_some, hk]
    dsimp only
    rw [List.getD_eq_getElem?_getD, htoken]
    exact RangeSet.mem_blockList.2 ⟨r, hr, hle, hlt⟩
  refine Within.ite (fun _ => .pure _) (fun _ => ?_) s₁
  have hcheck (v : LoopVars) : Within (Frame B) (checkSaved E cmd i v) := by
    refine .get_bind fun s => .ite (fun _ => ?_) fun _ => .pure _
    exact (frame_of_quiet quiet_deleteLastCommandFile).bind fun _ => .pure _
  refine (hcheck _).bind fun v => .ite (fun _ => ?_) fun _ => .pure _
  exact (frame_of_quiet quiet_ioOk).bind fun _ => .ite (fun _ => .pure _) fun _ => .pure _

theorem commandsLoop_frame : ∀ (lines : List String) (i : Nat) (v : LoopVars),
    (∀ n ∈ targets E.base lines, B n) → Within (Frame B) (commandsLoop E lines i v)
  | [], _, _, _ => .pure _
  | line :: lines, i, v, hB => by
    refine (command_frame (fun n hn => hB n (List.mem_append_left _ hn)) i v).bind fun v => ?_
    split
    · exact .pure _
    · exact commandsLoop_frame lines (i + 1) _ fun n hn => hB n (List.mem_append_right _ hn)

theorem createStash_frame (maxblocks : Nat) : Within (Frame B) (createStash E maxblocks) := by
  have hio : Within (Frame B) ioOk := frame_of_quiet quiet_ioOk
  have hcheck (ok fail : Int) :
      Within (Frame B) (ioOk >>= fun b => if b then pure ok else pure fail) :=
    hio.bind fun _ => .ite (fun _ => .pure _) fun _ => .pure _
  refine .ite (fun _ => .pure _) fun _ => hio.bind fun _ => .ite (fun _ => .pure _) fun _ => ?_
  refine .get_bind fun s => .ite (fun _ => ?_) fun _ => ?_
  · refine Within.bind (effect_frame fun d => ?_) fun _ => .ite (fun _ => ?_) fun _ => .pure _
    · rfl
    · exact hio.bind fun _ => .ite (fun _ => hcheck _ _) fun _ => .pure _
  · refine .get_bind fun s => (deleteFiles_frame _).bind fun _ => .get_bind fun s => ?_
    exact .ite (fun _ => hcheck _ _) fun _ => .pure _

theorem finishUpdate_frame (rc : Bool) : Within (Frame B) (finishUpdate E rc) := by
  have hlast : Within (Frame B) deleteLastCommandFile := frame_of_quiet quiet_deleteLastCommandFile
  refine .get_bind fun s => ?_
  have hcleanup : Within (Frame B) (do
      if s.params.isunresumable ∨ (¬ E.canwrite ∧ s.params.createdstash ≠ 0) then deleteStash
      return rc : M Bool) := by
    dsimp only
    split
    · exact deleteStash_frame.bind fun _ => .pure _
    · exact .pure _
  have hrest : Within (Frame B) (do
      let _ ← ioOk
      if s.params.isunresumable then deleteLastCommandFile
      if s.params.isunresumable ∨ (¬ E.canwrite ∧ s.params.createdstash ≠ 0) then deleteStash
      return rc : M Bool) := by
    refine (frame_of_quiet quiet_ioOk).bind fun _ => ?_
    dsimp only
    split
    · exact hlast.bind fun _ => hcleanup
    · exact hcleanup
  dsimp only
  split
  · exact deleteStash_frame.bind fun _ => hlast.bind fun _ => hrest
  · exact hrest

/-- **A run changes the blocks of its targets only**, wherever it fails or is cut short. -/
theorem performBlockImageUpdate_frame (E : Env) (transferList : String) (newData : List UInt8)
    (patchStart : Nat) :
    Within (Frame fun n => n ∈ targets E.base (parseHeader E transferList).lines)
      (performBlockImageUpdate E transferList newData patchStart) := by
  intro s
  unfold performBlockImageUpdate
  cases parseHeader E transferList with
  | bad => exact .pure trivial
  | nothing => exact .pure trivial
  | commands version stashMaxBlocks lines =>
    refine .bind_modify (.of_dev rfl) ?_
    have hprepare :
        Within (Frame fun n => n ∈ targets E.base lines) (prepare E stashMaxBlocks) := by
      refine (createStash_frame _).bind fun res => .ite (fun _ => .pure _) fun _ => ?_
      refine (modifyParams_frame _).bind fun _ => ?_
      refine (frame_of_quiet quiet_parseLastCommandFile).bind fun saved => ?_
      split
      · exact .pure _
      · exact (frame_of_quiet quiet_deleteLastCommandFile).bind fun _ => .pure _
    refine (hprepare _).bind fun saved s₁ _ _ => ?_
    split
    · exact .pure trivial
    · refine (commandsLoop_frame lines 0 _ (fun _ => id) s₁).bind fun v s₂ _ _ => ?_
      exact finishUpdate_frame _ s₂

theorem parseHeader_congr {E E' : Env} (h : E'.base = E.base) (transferList : String) :
    parseHeader E' transferList = parseHeader E transferList := by
  unfold parseHeader
  rw [h]

/-- Runs one after another, each with its own environment and faults, and a reboot before each. -/
def reruns (transferList : String) (newData : List UInt8) (patchStart : Nat) :
    List (Env × List Fate) → St → St
  | [], s => s
  | (E, fates) :: rest, s => reruns transferList newData patchStart rest
      (endState (performBlockImageUpdate E transferList newData patchStart (reboot s fates)))

/-- **No sequence of verifications and updates**, cut short anywhere, changes a block that is not in
the target of a command. -/
theorem reruns_frame (E : Env) (transferList : String) (newData : List UInt8) (patchStart : Nat)
    (runs : List (Env × List Fate)) (hruns : ∀ r ∈ runs, r.1.base = E.base) (s : St) (p : Nat)
    (hp : p / BLOCKSIZE ∉ targets E.base (parseHeader E transferList).lines) :
    (reruns transferList newData patchStart runs s).disk.dev p = s.disk.dev p := by
  induction runs generalizing s with
  | nil => rfl
  | cons r runs ih =>
    have hbase : r.1.base = E.base := hruns r List.mem_cons_self
    rw [reruns, ih fun r hr => hruns r (List.mem_cons_of_mem _ hr)]
    refine (performBlockImageUpdate_frame r.1 transferList newData patchStart).endState
      (reboot s r.2) p ?_
    rwa [hbase, parseHeader_congr hbase]

theorem reruns_frame_zero : (reruns "4\n1\n0\n0\nzero 2,0,1" [] 0
      [(.small, [.ok, .ok, .ok, .crash 7]), (.small, [])] (.zeros none [])).disk.dev BLOCKSIZE =
    (St.zeros none []).disk.dev BLOCKSIZE :=
  reruns_frame .small "4\n1\n0\n0\nzero 2,0,1" [] 0 _ (by simp) _ _ (by decide +kernel)

end Recovery.BlockImg
