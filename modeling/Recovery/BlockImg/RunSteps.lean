import Recovery.BlockImg.Steps

/-!
# What a whole run does, operation by operation

* `RunStep` — one operation of a run: a step of a command, the next command, or the note of what
  `CreateStash` has found.
* `performBlockImageUpdate_steps` — every run of `PerformBlockImageUpdate`, stopped or not, is a
  sequence of such operations.
* `runSteps_sized` — the sets in `stash_map` have sizes that fit in a `size_t`.

An invariant of runs is proved from the list of operations, one case an operation.
-/

set_option autoImplicit false

namespace Recovery.BlockImg

open Recovery.Lib Recovery.OtaUtil Relation

variable {E : Env}

/-! ## The commands -/

theorem finishCommand_return_steps (tgt : RangeSet) (rc : Int) :
    Within (Steps E) (finishCommand E tgt >>= fun _ => pure rc) :=
  (finishCommand_steps tgt).bind fun _ => .pure _

theorem performCommandMove_steps : Within (Steps E) (performCommandMove E) := by
  refine (loadSrcTgtVersion3_steps true).bind fun load => ?_
  split
  · exact .pure _
  · refine (within_of_quiet (quiet_noteStatus _)).bind fun _ => .get_bind fun s => ?_
    refine .ite (fun hw => ?_) fun _ => finishCommand_return_steps _ _
    refine (writeBlocksLoop_steps hw.1 _ _ _).bind fun _ => ?_
    exact .ite (fun _ => finishCommand_return_steps _ _) fun _ => .pure _

theorem patchBlocks_steps (hw : E.canwrite = true) (offset len : Nat) (load : Loaded) :
    Within (Steps E) (patchBlocks E offset len load) := by
  refine .get_bind fun s => .ite (fun _ => ?_) fun _ => .throw _
  exact (sinkPieces_steps hw _ _).bind fun _ => .ite (fun _ => .pure _) fun _ => .pure _

theorem performCommandDiff_steps : Within (Steps E) (performCommandDiff E) := by
  refine .get_bind fun s => .ite (fun _ => .pure _) fun _ => ?_
  refine (within_of_quiet quiet_nextToken).bind fun offset => ?_
  split
  · exact .pure _
  refine (within_of_quiet quiet_nextToken).bind fun len => ?_
  split
  · exact .pure _
  refine (loadSrcTgtVersion3_steps false).bind fun load => ?_
  split
  · exact .pure _
  refine (within_of_quiet (quiet_noteStatus _)).bind fun _ => .ite (fun hw => ?_) fun _ => ?_
  · refine (patchBlocks_steps hw.1 _ _ _).bind fun _ => ?_
    exact .ite (fun _ => finishCommand_return_steps _ _) fun _ => .pure _
  · exact finishCommand_return_steps _ _

theorem performCommandStash_steps : Within (Steps E) (performCommandStash E) := by
  intro s
  refine .bind_get ?_
  dsimp only
  split
  · exact .pure trivial
  refine (reaches_of_quiet (nextToken_reaches s)).bind fun id s₁ _ h₁ => ?_
  have hid : id ∈ s₁.params.tokens := h₁.1.tokens ▸ h₁.2
  refine (loadStash_steps (fun _ => hid) _ _).bind fun r s₂ _ _ => ?_
  refine (within_of_quiet (quiet_setBuffer _) s₂).bind fun _ s₃ _ _ => ?_
  refine Within.ite (fun _ => .pure _) (fun _ => ?_) s₃
  -- From here on nothing depends on what has been loaded.
  refine (within_of_quiet quiet_nextToken).bind fun token s₄ => ?_
  refine (reaches_of_quiet (parseChecked_reaches token s₄)).bind fun src s₅ _ h₅ => .bind_get ?_
  refine (reaches_of_quiet (readBlocks_room src _ s₅)).bind fun r s₆ _ h₆ => ?_
  have hbuffer : Quiet s₆ { s₆ with params.buffer := r.2 } :=
    ⟨rfl, rfl, rfl, rfl, rfl, rfl, rfl, rfl, rfl⟩
  refine .bind_modify hbuffer.steps ?_
  split
  · exact .pure trivial
  rename_i hok
  obtain ⟨hlen, hroom⟩ := h₆.2 (not_not.1 hok)
  refine .bind_modify (.single (.remember id src h₅.2 (hlen ▸ hroom))) ?_
  refine Within.ite (fun _ => .pure _) (fun hv => ?_) _
  refine .ite (fun _ => .pure _) fun hw => ?_
  rw [not_not] at hv hw
  refine (writeStash_steps hw hv false false).bind fun r => .ite (fun _ => ?_) fun _ => .pure _
  refine (within_of_quiet (quiet_updateLastCommandIndex _ _)).bind fun _ => ?_
  refine Within.bind (within_of_quiet ?_) fun _ => .pure _
  exact quiet_modifyParams (fun _ => rfl) (fun _ => rfl) (fun _ => rfl) (fun _ => rfl) fun _ => rfl

theorem performCommandFree_steps : Within (Steps E) (performCommandFree E) := by
  intro s
  refine .bind_get ?_
  dsimp only
  split
  · exact .pure trivial
  refine (reaches_of_quiet (nextToken_reaches s)).bind fun id s₁ hs₁ _ => ?_
  have hmap : Steps E s₁ { s₁ with stashMap := s₁.stashMap.erase id } := .single (.forget id)
  refine .bind_modify hmap ?_
  split
  · rename_i hguard
    have hd : Deletes E s := hguard.elim (fun h => .inr (.inr h)) .inl
    exact freeStash_steps fun s₂ hs₂ =>
      .delete _ (steps_deletes ((hs₁.trans hmap).trans hs₂.steps) hd)
  · exact .pure trivial

theorem performCommandZero_steps : Within (Steps E) (performCommandZero E) := by
  refine .get_bind fun s => .ite (fun _ => .pure _) fun _ => ?_
  refine (within_of_quiet quiet_nextToken).bind fun token => ?_
  refine (within_of_quiet (quiet_parseChecked _)).bind fun tgt => ?_
  refine (within_of_quiet (quiet_setBuffer _)).bind fun _ => ?_
  have hrest : ∀ ok : Bool, Within (Steps E) (do
      if ok then
        if s.params.cmdname.toList.head? = some 'z' then
          modifyParams fun p => { p with written := p.written + tgt.blocks }
        return 0
      else return -1 : M Int) := by
    intro ok
    refine .ite (fun _ => ?_) fun _ => .pure _
    dsimp only
    split
    · exact (countWritten_steps _).bind fun _ => .pure _
    · exact .pure _
  dsimp only
  split
  · exact (zeroRanges_steps ‹_› _).bind hrest
  · exact (Within.pure _).bind hrest

theorem performCommandNew_steps (stream : List UInt8) :
    Within (Steps E) (performCommandNew E stream) := by
  refine .get_bind fun s => .ite (fun _ => .pure _) fun _ => ?_
  refine (within_of_quiet quiet_nextToken).bind fun token => ?_
  refine (within_of_quiet (quiet_parseChecked _)).bind fun tgt => ?_
  have hrest : ∀ (stream : List UInt8) (ok : Bool), Within (Steps E) (do
      if ok then
        modifyParams fun p => { p with written := p.written + tgt.blocks }
        return (0, stream)
      else return (-1, []) : M (Int × List UInt8)) := fun _ _ =>
    .ite (fun _ => (countWritten_steps _).bind fun _ => .pure _) fun _ => .pure _
  dsimp only
  split
  · exact (write_steps ‹_› _ _).bind fun _ => (Within.pure _).bind (hrest _)
  · exact (Within.pure _).bind (hrest _)

theorem performCommandErase_steps : Within (Steps E) (performCommandErase E) := by
  refine (within_of_quiet quiet_ioOk).bind fun _ => .ite (fun _ => .pure _) fun _ => ?_
  refine .ite (fun _ => .pure _) fun _ => .get_bind fun s => .ite (fun _ => .pure _) fun _ => ?_
  refine (within_of_quiet quiet_nextToken).bind fun token => ?_
  refine (within_of_quiet (quiet_parseChecked _)).bind fun tgt => ?_
  have hrest : ∀ ok : Bool, Within (Steps E) (if ok then pure 0 else pure (-1) : M Int) :=
    fun _ => .ite (fun _ => .pure _) fun _ => .pure _
  dsimp only
  split
  · exact (eraseRanges_steps ‹_› _).bind hrest
  · exact (Within.pure _).bind hrest

theorem perform_steps (stream : List UInt8) (cmd : CommandName) :
    Within (Steps E) (cmd.perform E stream) := by
  cases cmd with
  | new => exact performCommandNew_steps stream
  | bsdiff | imgdiff => exact performCommandDiff_steps.bind fun _ => .pure _
  | erase => exact performCommandErase_steps.bind fun _ => .pure _
  | free => exact performCommandFree_steps.bind fun _ => .pure _
  | move => exact performCommandMove_steps.bind fun _ => .pure _
  | stash => exact performCommandStash_steps.bind fun _ => .pure _
  | zero => exact performCommandZero_steps.bind fun _ => .pure _

/-! ## The run -/

/-- An operation of a run over `lines` that began with or without a stash directory. -/
inductive RunStep (E : Env) (lines : List String) (stashDir : Bool) : St → St → Prop where
  | command {s s' : St} (h : Step E s s') : RunStep E lines stashDir s s'
  /-- The next command. -/
  | setCommand {s : St} {line : String} (h : line ∈ lines) :
      RunStep E lines stashDir s { s with params.tokens := E.base.split line " " }
  /-- `CreateStash` has created the directory or found it. -/
  | created {s : St} (res : Int) (h : res ≠ 0 → stashDir = false) :
      RunStep E lines stashDir s { s with params.createdstash := res }

abbrev RunSteps (E : Env) (lines : List String) (stashDir : Bool) : St → St → Prop :=
  ReflTransGen (RunStep E lines stashDir)

section

variable {lines : List String} {stashDir : Bool}

theorem steps_run {s s' : St} (h : Steps E s s') : RunSteps E lines stashDir s s' :=
  h.lift id fun _ _ => .command

theorem within_of_steps {α : Type} {x : M α} (h : Within (Steps E) x) :
    Within (RunSteps E lines stashDir) x := h.mono fun _ _ => steps_run

theorem run_of_quiet {α : Type} {x : M α} (h : Within Quiet x) :
    Within (RunSteps E lines stashDir) x := within_of_steps (within_of_quiet h)

theorem setCommand_steps {line : String} (hl : line ∈ lines) (i : Nat) :
    Within (RunSteps E lines stashDir) (setCommand E line i) := by
  refine .modify fun s => ?_
  have hset : RunStep E lines stashDir s _ := .setCommand hl
  exact .tail (.single hset) (.command (.quiet ⟨rfl, rfl, rfl, rfl, rfl, rfl, rfl, rfl, rfl⟩))

theorem command_steps {line : String} (hl : line ∈ lines) (i : Nat) (v : LoopVars) :
    Within (RunSteps E lines stashDir) (command E line i v) := by
  refine .ite (fun _ => .pure _) fun _ => (setCommand_steps hl i).bind fun _ => ?_
  refine .get_bind fun s => ?_
  dsimp only
  split
  · exact .pure _
  · refine .ite (fun _ => .pure _) fun _ => .ite (fun _ => .pure _) fun _ => ?_
    refine (within_of_steps (perform_steps _ _)).bind fun r => .ite (fun _ => .pure _) fun _ => ?_
    have hcheck (cmd : CommandName) (v : LoopVars) :
        Within (RunSteps E lines stashDir) (checkSaved E cmd i v) := by
      refine .get_bind fun s => .ite (fun _ => ?_) fun _ => .pure _
      exact (run_of_quiet quiet_deleteLastCommandFile).bind fun _ => .pure _
    refine (hcheck _ _).bind fun v => .ite (fun _ => ?_) fun _ => .pure _
    exact (run_of_quiet quiet_ioOk).bind fun _ => .ite (fun _ => .pure _) fun _ => .pure _

theorem commandsLoop_steps : ∀ (rest : List String) (i : Nat) (v : LoopVars),
    (∀ line ∈ rest, line ∈ lines) → Within (RunSteps E lines stashDir) (commandsLoop E rest i v)
  | [], _, _, _ => .pure _
  | line :: rest, i, v, h => by
    refine (command_steps (h line List.mem_cons_self) i v).bind fun v => ?_
    split
    · exact .pure _
    · exact commandsLoop_steps rest (i + 1) _ fun l hl => h l (List.mem_cons_of_mem _ hl)

/-- The value `1` says that there was no stash directory. -/
theorem createStash_steps (maxblocks : Nat) (s : St) :
    Reaches (Steps E) (createStash E maxblocks) s fun res _ =>
      res ≠ -1 → res ≠ 0 → s.disk.stashDir = false := by
  unfold createStash
  split
  · exact .pure fun h => absurd rfl h
  refine (reaches_of_quiet (quiet_ioOk s)).bind fun _ s₁ _ h₁ => ?_
  split
  · exact .pure fun h => absurd rfl h
  refine .bind_get ?_
  have hcheck (ok fail : Int) : Within (Steps E) (ioOk >>= fun b => if b then pure ok else pure fail) :=
    (within_of_quiet quiet_ioOk).bind fun _ => .ite (fun _ => .pure _) fun _ => .pure _
  split
  · rename_i hdir
    rw [Bool.not_eq_true] at hdir
    have hs : s.disk.stashDir = false := h₁.1.stashDir ▸ hdir
    refine Reaches.bind (effect_steps fun s₂ h₂ => .mkdir (h₂.stashDir.trans hdir)) ?_
    intro ok s₂ _ _
    have hrest : Within (Steps E) (if ok = true then do
        if ← ioOk then
          if ← ioOk then return 1
          else return -1
        else return -1
      else return -1 : M Int) :=
      .ite (fun _ => (within_of_quiet quiet_ioOk).bind fun _ =>
        .ite (fun _ => hcheck _ _) fun _ => .pure _) fun _ => .pure _
    exact (hrest s₂).imp (fun _ => id) fun _ _ _ _ _ _ => hs
  · refine .bind_get ?_
    refine Reaches.bind (deleteFiles_steps _ s₁ fun name hn s₂ _ => ?_) fun _ s₂ _ _ => ?_
    · exact .removePartial (List.of_mem_filter hn)
    · refine .bind_get ?_
      split
      · refine (within_of_quiet quiet_ioOk s₂).bind fun _ s₃ _ _ => ?_
        split
        · exact .pure fun _ h => absurd rfl h
        · exact .pure fun h => absurd rfl h
      · exact .pure fun _ h => absurd rfl h

theorem prepare_steps (stashMaxBlocks : Nat) (s : St) :
    Reaches (RunSteps E lines s.disk.stashDir) (prepare E stashMaxBlocks) s fun _ _ => True := by
  have hcreate : Reaches (RunSteps E lines s.disk.stashDir) (createStash E stashMaxBlocks) s
      fun res _ => res ≠ -1 → res ≠ 0 → s.disk.stashDir = false :=
    (createStash_steps stashMaxBlocks s).imp (fun _ => steps_run) fun _ _ _ => id
  refine hcreate.bind fun res s₁ _ hres => ?_
  split
  · exact .pure trivial
  · rename_i hne
    have hset : RunStep E lines s.disk.stashDir s₁ _ := .created res (hres hne)
    refine .bind_modify (.single hset) ?_
    refine (run_of_quiet (quiet_parseLastCommandFile) _).bind fun saved s₂ _ _ => ?_
    split
    · exact .pure trivial
    · exact ((run_of_quiet quiet_deleteLastCommandFile).bind fun _ => .pure _) s₂

/-- The end of `finishUpdate`, with the parameters of an earlier state. -/
theorem cleanup_steps (rc : Bool) {s s₁ : St} (hs : Steps E s s₁) : Reaches (Steps E) (do
    if s.params.isunresumable ∨ (¬ E.canwrite ∧ s.params.createdstash ≠ 0) then deleteStash
    return rc) s₁ fun _ _ => True := by
  dsimp only
  split
  · rename_i hguard
    have hd : Deletes E s := hguard.elim (fun h => .inr (.inl h)) fun h => .inr (.inr h.2)
    exact (deleteStash_steps (steps_deletes hs hd)).bind fun _ _ _ _ => .pure trivial
  · exact .pure trivial

theorem finishUpdate_steps (rc : Bool) : Within (Steps E) (finishUpdate E rc) := by
  intro s
  have hrest : ∀ s₁, Steps E s s₁ → Reaches (Steps E) (do
      let _ ← ioOk
      if s.params.isunresumable then deleteLastCommandFile
      if s.params.isunresumable ∨ (¬ E.canwrite ∧ s.params.createdstash ≠ 0) then deleteStash
      return rc) s₁ fun _ _ => True := by
    intro s₁ hs₁
    refine (within_of_quiet quiet_ioOk s₁).bind fun _ s₂ hs₂ _ => ?_
    have hs : Steps E s s₂ := hs₁.trans hs₂
    dsimp only
    split
    · exact (within_of_quiet quiet_deleteLastCommandFile s₂).bind fun _ s₃ hs₃ _ =>
        cleanup_steps rc (hs.trans hs₃)
    · exact cleanup_steps rc hs
  refine .bind_get ?_
  dsimp only
  split
  · rename_i hw
    refine (deleteStash_steps (.inl hw.1)).bind fun _ s₁ hs₁ _ => ?_
    exact (within_of_quiet quiet_deleteLastCommandFile s₁).bind fun _ s₂ hs₂ _ =>
      hrest s₂ (hs₁.trans hs₂)
  · exact hrest s .refl

end

/-! ## What the run remembers -/

/-- Every set in a stash map is a parsed one, and its size in bytes fits in a `size_t`. -/
def Sized (stashMap : AList fun _ : String => RangeSet) : Prop :=
  ∀ id src, stashMap.lookup id = some src → src.isValid = true ∧ src.blocks * BLOCKSIZE < 2 ^ 64

theorem step_sized {s s' : St} (h : Step E s s') (hbuffer : s.params.buffer.length < 2 ^ 64)
    (hs : Sized s.stashMap) : Sized s'.stashMap := by
  cases h with
  | quiet h => rwa [h.stashMap]
  | remember id src hvalid hread =>
    intro id' src' hl
    by_cases hid : id' = id
    · subst hid
      rw [AList.lookup_insert] at hl
      cases hl
      exact ⟨hvalid, Nat.lt_of_le_of_lt hread hbuffer⟩
    · rw [AList.lookup_insert_ne hid] at hl
      exact hs id' src' hl
  | forget id =>
    intro id' src' hl
    by_cases hid : id' = id
    · subst hid
      rw [AList.lookup_erase] at hl
      cases hl
    · rw [AList.lookup_erase_ne hid] at hl
      exact hs id' src' hl
  | _ => exact hs

/-- **A run keeps only sets that its buffer has held**, so that their sizes do not wrap. -/
theorem runSteps_sized {lines : List String} {stashDir : Bool} {s s' : St}
    (h : RunSteps E lines stashDir s s')
    (hbuffer : ∀ s₁, RunSteps E lines stashDir s s₁ → s₁.params.buffer.length < 2 ^ 64)
    (hs : Sized s.stashMap) : Sized s'.stashMap := by
  induction h with
  | refl => exact hs
  | tail hsteps hstep ih =>
    cases hstep with
    | command hstep => exact step_sized hstep (hbuffer _ hsteps) ih
    | setCommand _ => exact ih
    | created _ _ => exact ih

/-- The states that a run of `PerformBlockImageUpdate` can end in. -/
def RunEnds (E : Env) (transferList : String) (patchStart : Nat) (s s' : St) : Prop :=
  s' = s ∨ ∃ version, RunSteps E (parseHeader E transferList).lines s.disk.stashDir
    { s with params := initParams version patchStart } s'

/-- **Every run is a sequence of the operations of `RunStep`**, whether it returns, fails or is cut
short. -/
theorem performBlockImageUpdate_steps (transferList : String) (newData : List UInt8)
    (patchStart : Nat) :
    Within (RunEnds E transferList patchStart)
      (performBlockImageUpdate E transferList newData patchStart) := by
  intro s
  unfold performBlockImageUpdate RunEnds
  cases parseHeader E transferList with
  | bad => exact Outcome.pure ⟨.inl rfl, trivial⟩
  | nothing => exact Outcome.pure ⟨.inl rfl, trivial⟩
  | commands version stashMaxBlocks lines =>
    refine Outcome.bind_modify (Outcome.weaken (?_ : Reaches (RunSteps E lines s.disk.stashDir) _
      { s with params := initParams version patchStart } fun _ _ => True)
      (fun _ s' h => ?_) fun _ s' h => ?_)
    · refine (prepare_steps stashMaxBlocks _).bind fun saved s₁ _ _ => ?_
      split
      · exact .pure trivial
      · refine (commandsLoop_steps lines 0 _ (fun _ => id) s₁).bind fun v s₂ _ _ => ?_
        exact within_of_steps (finishUpdate_steps _) s₂
    · exact ⟨.inr ⟨version, h.1⟩, trivial⟩
    · exact .inr ⟨version, h⟩

end Recovery.BlockImg
