import Recovery.BlockImg.PathBounds

/-!
# Commands that stay inside their buffers

* `LoadFits`, `avoids_loadTarget` — `LoadSrcTgtVersion3`, from the target range on.
* `PathCommand` — the load of `move`, a diff command, and `stash`.
* `avoids_performCommandDiff`, `avoids_performCommandStash` — a command touches nothing outside its
  buffers, its words and its patch exactly when what its words say fits.

The three commands share a load, and differ in what they do with the bytes: a move writes them, a
diff command reads its patch as well, and `stash` saves them.
-/

set_option autoImplicit false

namespace Recovery.BlockImg

open Recovery.Lib Recovery.OtaUtil

variable (E : Env)

/-! ## `LoadSrcTgtVersion3` -/

/-- From the check of the loaded source blocks on. -/
def judgeSource (srchash : String) (tgt : RangeSet) (srcBlocks : Nat) (overlap : Bool) :
    M (Option Loaded) := do
  let params := (← get).params
  if verifyBlocks E srchash params.buffer (blockBytes srcBlocks) then
    if overlap ∧ E.canwrite then
      if ← stashOverlap srchash srcBlocks then return some ⟨false, tgt, srcBlocks⟩
      else return none
    else return some ⟨false, tgt, srcBlocks⟩
  else
    let recovered ← if overlap then
        let (ok, buffer) ← loadStash E srchash true params.buffer true
        setBuffer buffer
        pure ok
      else pure false
    if recovered then return some ⟨false, tgt, srcBlocks⟩
    else
      printHashForCorruptedSourceBlocks E
      modifyParams fun p => { p with isunresumable := true }
      return none

/-- From the target range on. -/
def loadTarget (srchash tgthash : String) : M (Option Loaded) := do
  let params := (← get).params
  if params.cpos + 2 ≥ params.tokens.length then return none
  else
    let tgt ← parseChecked E (← nextToken)
    let tgtBytes := blockBytes tgt.blocks
    let (ok, tgtbuffer) ← readBlocks E tgt (List.replicate tgtBytes 0)
    if ¬ ok then return none
    else if verifyBlocks E tgthash tgtbuffer tgtBytes then return some ⟨true, tgt, 0⟩
    else
      match ← loadSourceBlocks E tgt with
      | none => return none
      | some (srcBlocks, overlap) => judgeSource E srchash tgt srcBlocks overlap

theorem loadSrcTgtVersion3_eq (onehash : Bool) : loadSrcTgtVersion3 E onehash = (do
    match ← loadHashes onehash with
    | none => return none
    | some (srchash, tgthash) => loadTarget E srchash tgthash) := rfl

variable {E} {s : St}

theorem avoids_stashOverlap {srcBlocks : Nat} (h : blockBytes srcBlocks ≤ s.params.buffer.length)
    (srchash : String) : Avoids fateOracle .overrun (stashOverlap srchash srcBlocks) s := by
  unfold stashOverlap
  rw [avoids_get_bind fun _ _ => rfl]
  refine Stops.avoids (C := (· = Stop.crash)) ?_ nofun
  refine (writeStash_stops true true h).bind fun r => .ite (fun _ => .pure _) fun _ => ?_
  exact (updateLastCommandIndex_stops _ _).bind fun _ => (Stops.modify _).bind fun _ => .pure _

/-- Once as many blocks as asked for are loaded, their check stays inside the buffer. -/
theorem avoids_judgeSource (hm : Sized s.stashMap) {srcBlocks : Nat}
    (h : blockBytes srcBlocks ≤ s.params.buffer.length) (srchash : String) (tgt : RangeSet)
    (overlap : Bool) :
    Avoids fateOracle .overrun (judgeSource E srchash tgt srcBlocks overlap) s := by
  unfold judgeSource
  rw [avoids_get_bind fun _ _ => rfl]
  have hrest (recovered : Bool) : Stops (· = Stop.check) (do
      if recovered then return some ⟨false, tgt, srcBlocks⟩
      else
        printHashForCorruptedSourceBlocks E
        modifyParams fun p => { p with isunresumable := true }
        return none : M (Option Loaded)) :=
    .ite (fun _ => .pure _) fun _ =>
      printHashForCorruptedSourceBlocks_stops.bind fun _ => (Stops.modify _).bind fun _ => .pure _
  dsimp only
  split
  · split
    · rw [avoids_bind (stashOverlap_local _ _)]
      refine ⟨avoids_stashOverlap h srchash, fun ok s1 _ => ?_⟩
      cases ok with
      | true => exact avoids_pure _
      | false => exact avoids_pure _
    · exact avoids_pure _
  · cases overlap with
    | true =>
      simp only [if_true]
      rw [avoids_bind (loadStash_local E _ _ _ _)]
      refine ⟨avoids_loadStash hm srchash true _ true, fun r s1 _ => ?_⟩
      have hend : Stops (· = Stop.check) (setBuffer r.2 >>= fun _ => pure r.1 >>= fun recovered => do
          if recovered then return some ⟨false, tgt, srcBlocks⟩
          else
            printHashForCorruptedSourceBlocks E
            modifyParams fun p => { p with isunresumable := true }
            return none : M (Option Loaded)) :=
        (Stops.modify _).bind fun _ => (Stops.pure r.1).bind hrest
      exact hend.avoids nofun
    | false => exact ((Stops.pure false).bind hrest).avoids nofun

/-- What the source blocks may be loaded into. -/
theorem may_loadSourceBlocks {tgt : RangeSet} {r : Option (Nat × Bool)} {s' : St}
    (h : May fateOracle (loadSourceBlocks E tgt) s r s') : SameStore s s' ∧
      ∀ source, r = some source →
        s'.params.buffer.length = max s.params.buffer.length (blockBytes source.1) := by
  obtain ⟨fs, gs, hrun⟩ := h
  obtain ⟨hsame, hbytes⟩ :=
    (loadSourceBlocks_fills (E := E) tgt (fateOracle.put s fs)).of_ok hrun
  exact ⟨⟨hsame.disk, hsame.stashMap, hsame.tokens⟩, hbytes⟩

/-- The words from the target range on. -/
def LoadFits (E : Env) (s : St) (tgthash : String) : List String → Prop
  | text :: count :: source =>
    source ≠ [] → (RangeSet.parse E.base text).isValid = true →
      readable E (RangeSet.parse E.base text).ranges ≤
          blockBytes (RangeSet.parse E.base text).blocks ∧
        (OnDevice E (RangeSet.parse E.base text).ranges →
          E.hash (targetBytes s.disk.dev (RangeSet.parse E.base text)) ≠ tgthash →
          ∀ n, E.base.parseUint count SIZE_MAX = some n →
            SourceFits E s.disk s.stashMap (max s.params.buffer.length (blockBytes n)) source)
  | _ => True

theorem avoids_loadTarget (srchash tgthash : String) (hm : Sized s.stashMap) :
    Avoids fateOracle .overrun (loadTarget E srchash tgthash) s ↔
      LoadFits E s tgthash s.words := by
  unfold loadTarget
  rw [avoids_get_bind fun _ _ => rfl]
  have hend := s.length_le_iff 2
  have hshort (h : s.words.length ≤ 2) (hfits : LoadFits E s tgthash s.words) :
      Avoids fateOracle .overrun (do
        if s.params.cpos + 2 ≥ s.params.tokens.length then return none
        else
          let tgt ← parseChecked E (← nextToken)
          let tgtBytes := blockBytes tgt.blocks
          let (ok, tgtbuffer) ← readBlocks E tgt (List.replicate tgtBytes 0)
          if ¬ ok then return none
          else if verifyBlocks E tgthash tgtbuffer tgtBytes then return some ⟨true, tgt, 0⟩
          else
            match ← loadSourceBlocks E tgt with
            | none => return none
            | some (srcBlocks, overlap) => judgeSource E srchash tgt srcBlocks overlap) s ↔
        LoadFits E s tgthash s.words := by
    rw [if_pos (hend.2 h)]
    exact iff_of_true (avoids_pure _) hfits
  match hw : s.words with
  | [] => exact hw ▸ hshort (by rw [hw]; exact Nat.le_of_ble_eq_true rfl) (by rw [hw]; trivial)
  | [text] => exact hw ▸ hshort (by rw [hw]; exact Nat.le_of_ble_eq_true rfl) (by rw [hw]; trivial)
  | [text, count] =>
    exact hw ▸ hshort (by rw [hw]; exact Nat.le_of_ble_eq_true rfl) (by rw [hw]; exact fun h => absurd rfl h)
  | text :: count :: first :: rest =>
    have hlong : ¬ s.params.cpos + 2 ≥ s.params.tokens.length := by
      rw [hend, hw]
      simp
    rw [if_neg hlong, avoids_nextToken_bind hw, avoids_parseChecked_bind, LoadFits]
    have hw1 : s.skip.words = count :: first :: rest := St.words_skip hw
    have hne : first :: rest ≠ [] := List.cons_ne_nil _ _
    rw [forall_prop_of_true hne]
    refine forall_congr' fun hvalid => ?_
    obtain ⟨tgt, htgt⟩ : ∃ tgt, tgt = RangeSet.parse E.base text := ⟨_, rfl⟩
    rw [← htgt, avoids_bind (readBlocks_local E _ _), avoids_readBlocks, List.length_replicate]
    refine and_congr_right fun hread => ?_
    have hsource (s2 : St) (hsame : SameData s.skip s2) :
        Avoids fateOracle .overrun (loadSourceBlocks E tgt) s2 ↔
          ∀ n, E.base.parseUint count SIZE_MAX = some n → SourceFits E s.disk s.stashMap
            (max s.params.buffer.length (blockBytes n)) (first :: rest) := by
      rw [avoids_loadSourceBlocks tgt (hsame.words.trans hw1) hne (hsame.stashMap ▸ hm),
        hsame.disk, hsame.stashMap, hsame.params]
      rfl
    have hverify (hsize : blockBytes tgt.blocks = tgt.blocks * BLOCKSIZE) :
        verifyBlocks E tgthash (targetBytes s.disk.dev tgt) (blockBytes tgt.blocks) = true ↔
          E.hash (targetBytes s.disk.dev tgt) = tgthash := by
      rw [verifyBlocks, List.take_of_length_le (by rw [targetBytes_length, hsize]), beq_iff_eq]
    constructor
    · intro h hdev hhash
      have hsize : blockBytes tgt.blocks = tgt.blocks * BLOCKSIZE := by
        refine Nat.le_antisymm (Nat.mod_le _ _) ?_
        rwa [readable_of_onDevice E hdev, ← tgt.blocks_eq] at hread
      obtain ⟨s2, hmay⟩ := may_readBlocks_ok (s := s.skip)
        (List.replicate (blockBytes tgt.blocks) 0) hdev
        (by rw [List.length_replicate, hsize])
      rw [splice_all (by rw [targetBytes_length, List.length_replicate, hsize])] at hmay
      obtain ⟨hsame, -⟩ := may_readBlocks hmay
      have hload := h (true, targetBytes s.disk.dev tgt) s2 hmay
      have hno : ¬ verifyBlocks E tgthash (targetBytes s.disk.dev tgt) (blockBytes tgt.blocks) = true :=
        (hverify hsize).not.2 hhash
      simp only [not_true_eq_false, if_false] at hload
      rw [if_neg hno, avoids_bind (loadSourceBlocks_local E tgt)] at hload
      exact (hsource s2 hsame).1 hload.1
    · rintro h ⟨ok, buffer⟩ s2 hmay
      obtain ⟨hsame, -, hok⟩ := may_readBlocks hmay
      cases ok with
      | false => exact avoids_pure _
      | true =>
        obtain ⟨hbuffer, hroom, hdev⟩ := hok rfl
        rw [List.length_replicate] at hroom
        have hsize : blockBytes tgt.blocks = tgt.blocks * BLOCKSIZE :=
          Nat.le_antisymm (Nat.mod_le _ _) hroom
        rw [splice_all (by rw [targetBytes_length, List.length_replicate, hsize])] at hbuffer
        simp only [not_true_eq_false, if_false]
        split
        · exact avoids_pure _
        · rename_i hno
          have hhash : E.hash (targetBytes s.disk.dev tgt) ≠ tgthash := by
            rw [hbuffer] at hno
            exact (hverify hsize).not.1 hno
          have hm2 : Sized s2.stashMap := by rw [hsame.stashMap]; exact hm
          rw [avoids_bind (loadSourceBlocks_local E tgt)]
          refine ⟨(hsource s2 hsame).2 (h hdev hhash), fun source s3 hmay3 => ?_⟩
          obtain ⟨hstore, hbytes⟩ := may_loadSourceBlocks hmay3
          cases source with
          | none => exact avoids_pure _
          | some source =>
            have hm3 : Sized s3.stashMap := by rw [hstore.stashMap]; exact hm2
            refine avoids_judgeSource hm3 ?_ srchash tgt source.2
            rw [hbytes source rfl]
            exact Nat.le_max_right _ _

/-- The words of `LoadSrcTgtVersion3`, with one hash or with two. -/
def SrcTgtFits (E : Env) (s : St) : Bool → List String → Prop
  | true, hash :: words => LoadFits E s hash words
  | false, _ :: tgthash :: words => LoadFits E s tgthash words
  | _, _ => True

theorem loadHashes_nil (onehash : Bool) (h : s.words = []) : loadHashes onehash s = .ok none s := by
  unfold loadHashes
  rw [get_bind]
  simp only
  rw [if_pos (s.words_eq_nil.2 h)]
  rfl

theorem loadHashes_one {hash : String} {words : List String} (h : s.words = hash :: words) :
    loadHashes true s = .ok (some (hash, hash)) s.skip := by
  have hend := s.words_eq_nil.not.2 (by rw [h]; exact List.cons_ne_nil _ _)
  unfold loadHashes
  rw [get_bind]
  simp only
  rw [if_neg hend, bind_ok (nextToken_run h).1]
  rfl

theorem loadHashes_short {hash : String} (h : s.words = [hash]) :
    loadHashes false s = .ok none s.skip := by
  have hend := s.words_eq_nil.not.2 (by rw [h]; exact List.cons_ne_nil _ _)
  have hend' := s.skip.words_eq_nil.2 (St.words_skip h)
  unfold loadHashes
  rw [get_bind]
  simp only
  rw [if_neg hend, bind_ok (nextToken_run h).1]
  simp only [Bool.false_eq_true, if_false]
  rw [get_bind]
  exact congrFun (if_pos hend') _

theorem loadHashes_two {srchash tgthash : String} {words : List String}
    (h : s.words = srchash :: tgthash :: words) :
    loadHashes false s = .ok (some (srchash, tgthash)) s.skip.skip := by
  have hend := s.words_eq_nil.not.2 (by rw [h]; exact List.cons_ne_nil _ _)
  have hw : s.skip.words = tgthash :: words := St.words_skip h
  have hend' := s.skip.words_eq_nil.not.2 (by rw [hw]; exact List.cons_ne_nil _ _)
  unfold loadHashes
  rw [get_bind]
  simp only
  rw [if_neg hend, bind_ok (nextToken_run h).1]
  simp only [Bool.false_eq_true, if_false]
  rw [get_bind]
  exact (congrFun (if_neg hend') _).trans (bind_ok (nextToken_run hw).1)

theorem avoids_loadSrcTgtVersion3 (onehash : Bool) (hm : Sized s.stashMap) :
    Avoids fateOracle .overrun (loadSrcTgtVersion3 E onehash) s ↔ SrcTgtFits E s onehash s.words := by
  rw [loadSrcTgtVersion3_eq]
  match onehash, hw : s.words with
  | onehash, [] =>
    have hrun (fs : List Fate) : loadHashes onehash (fateOracle.put s fs) =
      .ok none (fateOracle.put s fs) := loadHashes_nil onehash hw
    rw [avoids_bind_run hrun]
    refine iff_of_true (avoids_pure _) ?_
    cases onehash <;> trivial
  | true, hash :: words =>
    have hrun (fs : List Fate) : loadHashes true (fateOracle.put s fs) =
      .ok (some (hash, hash)) (fateOracle.put s.skip fs) := loadHashes_one hw
    rw [avoids_bind_run hrun]
    have hw' : s.skip.words = words := St.words_skip hw
    exact (avoids_loadTarget (s := s.skip) hash hash hm).trans (by rw [hw']; rfl)
  | false, [hash] =>
    have hrun (fs : List Fate) : loadHashes false (fateOracle.put s fs) =
      .ok none (fateOracle.put s.skip fs) := loadHashes_short hw
    rw [avoids_bind_run hrun]
    exact iff_of_true (avoids_pure _) trivial
  | false, srchash :: tgthash :: words =>
    have hrun (fs : List Fate) : loadHashes false (fateOracle.put s fs) =
      .ok (some (srchash, tgthash)) (fateOracle.put s.skip.skip fs) := loadHashes_two hw
    rw [avoids_bind_run hrun]
    have hw' : s.skip.skip.words = words := St.words_skip (St.words_skip hw)
    exact (avoids_loadTarget (s := s.skip.skip) srchash tgthash hm).trans (by rw [hw']; rfl)

/-! ## The commands -/

theorem diffLoad_local : Local fateOracle (diffLoad E) := by
  refine .get_bind (fun _ _ => rfl) fun s => .ite (.pure _) (nextToken_local.bind fun offset => ?_)
  split
  · exact .pure _
  refine nextToken_local.bind fun len => ?_
  split
  · exact .pure _
  refine (loadSrcTgtVersion3_local E false).bind fun load => ?_
  split
  · exact .pure _
  · exact .pure _

theorem diffLoad_steps : Within (Steps E) (diffLoad E) := by
  refine .get_bind fun s => .ite (fun _ => .pure _) fun _ => ?_
  refine (within_of_quiet quiet_nextToken).bind fun offset => ?_
  split
  · exact .pure _
  refine (within_of_quiet quiet_nextToken).bind fun len => ?_
  split
  · exact .pure _
  refine (loadSrcTgtVersion3_steps false).bind fun load => ?_
  split
  · exact .pure _
  · exact .pure _

/-- The load of a diff command may come to patching the slice of `len` bytes from `offset` on. -/
def MayPatch (E : Env) (s : St) (offset len : Nat) : Prop :=
  ∃ load s', May fateOracle (diffLoad E) s (some (offset, len, load)) s' ∧ load.complete = false

/-- The words of a diff command. -/
def DiffFits (E : Env) (s : St) (words : List String) : Prop :=
  (∀ first second rest offset len, words = first :: second :: rest →
      E.base.parseUint first SIZE_MAX = some offset →
      E.base.parseUint second SIZE_MAX = some len → SrcTgtFits E s false rest) ∧
    ∀ offset len, E.canwrite = true → MayPatch E s offset len →
      s.params.patchStart + offset + len ≤ E.package.length

theorem avoids_diffLoad (hm : Sized s.stashMap) :
    Avoids fateOracle .overrun (diffLoad E) s ↔ ∀ first second rest offset len,
      s.words = first :: second :: rest → E.base.parseUint first SIZE_MAX = some offset →
      E.base.parseUint second SIZE_MAX = some len → SrcTgtFits E s false rest := by
  unfold diffLoad
  rw [avoids_get_bind fun _ _ => rfl]
  dsimp only
  by_cases hend : s.params.cpos + 1 ≥ s.params.tokens.length
  · rw [if_pos hend]
    refine iff_of_true (avoids_pure _) fun first second rest _ _ hw => ?_
    have hlen := (s.length_le_iff 1).1 hend
    rw [hw] at hlen
    simp at hlen
  · rw [if_neg hend]
    obtain ⟨first, second, rest, hw⟩ : ∃ first second rest, s.words = first :: second :: rest := by
      have hlen := (s.length_le_iff 1).not.1 hend
      match hw : s.words with
      | [] => rw [hw] at hlen; exact absurd (Nat.zero_le 1) hlen
      | [word] => rw [hw] at hlen; exact absurd (Nat.le_refl 1) hlen
      | first :: second :: rest => exact ⟨first, second, rest, rfl⟩
    have hw1 : s.skip.words = second :: rest := St.words_skip hw
    have hw2 : s.skip.skip.words = rest := St.words_skip hw1
    have hwords (P : String → String → List String → Prop) :
        (∀ a b c, s.words = a :: b :: c → P a b c) ↔ P first second rest := by
      rw [hw]
      constructor
      · exact fun h => h first second rest rfl
      · rintro h a b c ⟨rfl, rfl, rfl⟩
        exact h
    have hfits : (∀ first second rest offset len, s.words = first :: second :: rest →
        E.base.parseUint first SIZE_MAX = some offset →
        E.base.parseUint second SIZE_MAX = some len → SrcTgtFits E s false rest) ↔
        ∀ offset len, E.base.parseUint first SIZE_MAX = some offset →
          E.base.parseUint second SIZE_MAX = some len → SrcTgtFits E s false rest := by
      rw [← hwords fun first second rest => ∀ offset len,
        E.base.parseUint first SIZE_MAX = some offset →
          E.base.parseUint second SIZE_MAX = some len → SrcTgtFits E s false rest]
      exact ⟨fun h a b c hw o l => h a b c o l hw, fun h a b c o l hw => h a b c hw o l⟩
    rw [hfits, avoids_nextToken_bind hw]
    cases hfirst : E.base.parseUint first SIZE_MAX with
    | none => exact iff_of_true (avoids_pure _) nofun
    | some offset =>
      dsimp only
      rw [avoids_nextToken_bind hw1]
      cases hsecond : E.base.parseUint second SIZE_MAX with
      | none => exact iff_of_true (avoids_pure _) nofun
      | some len =>
        dsimp only
        rw [avoids_bind_stops (C := fun e => e = Stop.crash) (e := Stop.overrun)
          (loadSrcTgtVersion3_local E false) (fun load => ?_) nofun]
        · rw [avoids_loadSrcTgtVersion3 (s := s.skip.skip) false hm, hw2]
          constructor
          · exact fun h _ _ _ _ => h
          · exact fun h => h offset len rfl rfl
        · cases load with
          | none => exact .pure _
          | some load => exact .pure _

/-- The rest of a diff command reads the patch and writes to the target. -/
theorem avoids_diffPatch (offset len : Nat) (load : Loaded) :
    Avoids fateOracle .overrun (diffPatch E offset len load) s ↔
      (E.canwrite = true → load.complete = false →
        s.params.patchStart + offset + len ≤ E.package.length) := by
  have hfinish : Stops (· = Stop.crash) (finishCommand E load.tgt >>= fun _ => pure 0 : M Int) :=
    (finishCommand_stops _).bind fun _ => .pure _
  unfold diffPatch noteStatus modifyParams
  rw [avoids_modify_bind fun _ _ => rfl]
  split
  · rename_i hpatch
    obtain ⟨hwrite, hnot⟩ := hpatch
    rw [Bool.not_eq_true] at hnot
    unfold patchBlocks
    rw [bind_assoc, avoids_get_bind fun _ _ => rfl]
    dsimp only
    have hstart : (if load.complete = true then { s.params with targetVerified := true }
        else { s.params with foundwrites := true }).patchStart = s.params.patchStart := by
      split <;> rfl
    rw [hstart]
    by_cases hle : s.params.patchStart + offset + len ≤ E.package.length
    · rw [if_pos hle]
      refine iff_of_true (Stops.avoids (C := (· = Stop.crash)) ?_ nofun) fun _ _ => hle
      refine Stops.bind ?_ fun ok => .ite (fun _ => hfinish) fun _ => .pure _
      exact (sinkPieces_stops _ _).bind fun _ => .ite (fun _ => .pure _) fun _ => .pure _
    · rw [if_neg hle]
      exact iff_of_false (fun h => h [] rfl) fun h => hle (h hwrite hnot)
  · rename_i hno
    refine iff_of_true (hfinish.avoids nofun) fun hwrite hload => absurd ⟨hwrite, ?_⟩ hno
    rw [hload]
    decide

theorem may_diffLoad_patchStart {r : Option (Nat × Nat × Loaded)} {s' : St}
    (h : May fateOracle (diffLoad E) s r s') : s'.params.patchStart = s.params.patchStart := by
  obtain ⟨fs, gs, hrun⟩ := h
  have hstart := steps_patchStart ((diffLoad_steps (E := E) (fateOracle.put s fs)).of_ok hrun).1
  exact hstart

theorem avoids_performCommandDiff (hm : Sized s.stashMap) :
    Avoids fateOracle .overrun (performCommandDiff E) s ↔ DiffFits E s s.words := by
  rw [performCommandDiff_eq, avoids_bind diffLoad_local, avoids_diffLoad hm]
  refine and_congr_right fun _ => ?_
  constructor
  · rintro h offset len hwrite ⟨load, s', hmay, hload⟩
    rw [← may_diffLoad_patchStart hmay]
    exact (avoids_diffPatch offset len load).1 (h _ s' hmay) hwrite hload
  · rintro h (_ | ⟨offset, len, load⟩) s' hmay
    · exact avoids_pure _
    · refine (avoids_diffPatch offset len load).2 fun hwrite hload => ?_
      rw [may_diffLoad_patchStart hmay]
      exact h offset len hwrite ⟨load, s', hmay, hload⟩

/-- The words of `stash`: the source range may be read into a buffer that has room for the stash of
the same id as well. -/
def StashFits (E : Env) (s : St) : List String → Prop
  | id :: text :: _ => (RangeSet.parse E.base text).isValid = true →
    readable E (RangeSet.parse E.base text).ranges ≤
      max (max s.params.buffer.length (savedBytes E s id))
        (blockBytes (RangeSet.parse E.base text).blocks)
  | _ => True

/-- `stash` once the source blocks have been read, or not. -/
theorem finishStash_stops {id : String} {src : RangeSet} {buffer : List UInt8} (ok : Bool)
    (h : blockBytes src.blocks ≤ buffer.length) (p : CommandParameters) : Stops (· = Stop.crash) (do
      setBuffer buffer
      if ¬ ok then return -1
      else
        modify fun s => { s with stashMap := s.stashMap.insert id src }
        if ¬ verifyBlocks E id buffer (blockBytes src.blocks) then return 0
        else if ¬ E.canwrite then return 0
        else
          let (ok, _) ← writeStash id src.blocks buffer false false
          if ok then
            let _ ← updateLastCommandIndex p.cmdindex p.cmdline
            modifyParams fun p => { p with stashed := p.stashed + src.blocks }
            return 0
          else return -1 : M Int) := by
  refine (Stops.modify _).bind fun _ => .ite (fun _ => .pure _) fun _ => (Stops.modify _).bind fun _ => ?_
  refine .ite (fun _ => .pure _) fun _ => .ite (fun _ => .pure _) fun _ => ?_
  refine (writeStash_stops false false h).bind fun r => .ite (fun _ => ?_) fun _ => .pure _
  exact (updateLastCommandIndex_stops _ _).bind fun _ => (Stops.modify _).bind fun _ => .pure _

theorem may_loadStash_grows {id : String} {verify : Bool} {buffer : List UInt8} {printnoent : Bool}
    {r : Bool × List UInt8} {s' : St}
    (h : May fateOracle (loadStash E id verify buffer printnoent) s r s') :
    SameMemory s s' ∧ max buffer.length (savedBytes E s id) ≤ r.2.length := by
  obtain ⟨fs, gs, hrun⟩ := h
  obtain ⟨hsame, hlen⟩ :=
    (loadStash_grows (E := E) id verify buffer printnoent (fateOracle.put s fs)).of_ok hrun
  exact ⟨⟨hsame.stashMap, hsame.params⟩, hlen⟩

theorem avoids_performCommandStash (hm : Sized s.stashMap) :
    Avoids fateOracle .overrun (performCommandStash E) s ↔ StashFits E s s.words := by
  unfold performCommandStash
  rw [avoids_get_bind fun _ _ => rfl]
  dsimp only
  by_cases hend : s.params.cpos + 1 ≥ s.params.tokens.length
  · rw [if_pos hend]
    refine iff_of_true (avoids_pure _) ?_
    have hlen := (s.length_le_iff 1).1 hend
    match hw : s.words with
    | [] => trivial
    | [id] => trivial
    | id :: text :: rest =>
      rw [hw] at hlen
      simp at hlen
  rw [if_neg hend]
  obtain ⟨id, text, rest, hw⟩ : ∃ id text rest, s.words = id :: text :: rest := by
    have hlen := (s.length_le_iff 1).not.1 hend
    match hw : s.words with
    | [] => rw [hw] at hlen; exact absurd (Nat.zero_le 1) hlen
    | [id] => rw [hw] at hlen; exact absurd (Nat.le_refl 1) hlen
    | id :: text :: rest => exact ⟨id, text, rest, rfl⟩
  have hw1 : s.skip.words = text :: rest := St.words_skip hw
  have hm1 : Sized s.skip.stashMap := hm
  rw [avoids_nextToken_bind hw, hw, StashFits, avoids_bind (loadStash_local E id true _ false)]
  -- The command once the stash could not be loaded and `buffer` is in place.
  have hsource (buffer : List UInt8) (s2 : St) (hsame : SameMemory s.skip s2) :
      Avoids fateOracle .overrun (do
        let src ← parseChecked E (← nextToken)
        let (ok, buffer) ← readBlocks E src (allocate (blockBytes src.blocks) (← get).params.buffer)
        setBuffer buffer
        if ¬ ok then return -1
        else
          modify fun s => { s with stashMap := s.stashMap.insert id src }
          if ¬ verifyBlocks E id buffer (blockBytes src.blocks) then return 0
          else if ¬ E.canwrite then return 0
          else
            let (ok, _) ← writeStash id src.blocks buffer false false
            if ok then
              let _ ← updateLastCommandIndex s.params.cmdindex s.params.cmdline
              modifyParams fun p => { p with stashed := p.stashed + src.blocks }
              return 0
            else return -1 : M Int) { s2 with params.buffer := buffer } ↔
      ((RangeSet.parse E.base text).isValid = true → readable E (RangeSet.parse E.base text).ranges ≤
        max buffer.length (blockBytes (RangeSet.parse E.base text).blocks)) := by
    have hw2 : St.words { s2 with params.buffer := buffer } = text :: rest := by
      rw [← hw1]
      unfold St.words
      dsimp only
      rw [hsame.params]
    rw [avoids_nextToken_bind hw2, avoids_parseChecked_bind]
    refine forall_congr' fun hvalid => ?_
    rw [avoids_get_bind fun _ _ => rfl, avoids_bind (readBlocks_local E _ _), avoids_readBlocks,
      allocate_length]
    refine and_iff_left fun r s3 hmay => ?_
    obtain ⟨-, hlen, -⟩ := may_readBlocks hmay
    rw [allocate_length] at hlen
    exact (finishStash_stops r.1 (by rw [hlen]; exact Nat.le_max_right _ _) s.params).avoids nofun
  constructor
  · rintro ⟨-, h⟩
    obtain ⟨buffer, s2, hlen, hmay⟩ :=
      may_loadStash_fail (E := E) hm1 id true s.skip.params.buffer false
    have hlen' : buffer.length = max s.params.buffer.length (savedBytes E s id) := hlen
    have hrest := h _ _ hmay
    dsimp only at hrest
    rw [avoids_setBuffer_bind] at hrest
    rw [← hlen']
    exact (hsource buffer s2 (may_loadStash_grows hmay).1).1 hrest
  · intro h
    refine ⟨avoids_loadStash hm1 id true _ false, ?_⟩
    rintro ⟨ok, buffer⟩ s2 hmay
    obtain ⟨hsame, hlen⟩ := may_loadStash_grows hmay
    dsimp only at hlen ⊢
    rw [avoids_setBuffer_bind]
    cases ok with
    | true => exact avoids_pure _
    | false =>
      refine (hsource buffer s2 hsame).2 fun hvalid => Nat.le_trans (h hvalid) ?_
      exact Nat.max_le.2 ⟨Nat.le_trans hlen (Nat.le_max_left _ _), Nat.le_max_right _ _⟩

end Recovery.BlockImg
