import Recovery.BlockImg.Commands

/-!
# What can stop an operation

Each operation with the reasons, other than returning, for which it can end: those on the device
and on `/cache` a power loss alone, the reports a failed assertion.

## Use

`Stops` is the second half of an `Outcome`.  A run that ends in anything else than a value is
traced to the statement that ended it, and the result about the whole update names the device
fault that was responsible.
-/

set_option autoImplicit false

namespace Recovery.BlockImg

open Recovery.Lib Recovery.OtaUtil

variable {E : Env}

/-! ## Operations -/

theorem nextFate_stops : Stops (· = Stop.crash) nextFate := by
  intro s
  obtain ⟨f, fs, hn, -, -⟩ := nextFate_spec s
  rw [Outcome, hn]
  trivial

theorem ioOk_stops : Stops (· = Stop.crash) ioOk := by
  refine nextFate_stops.bind fun f => ?_
  cases f with
  | ok => exact .pure _
  | fail n => exact .pure _
  | crash n => exact .throw rfl

theorem setDevError_stops : Stops (· = Stop.crash) setDevError := .modify _

theorem checkLseek_stops (offset : Nat) : Stops (· = Stop.crash) (checkLseek offset) := by
  refine ioOk_stops.bind fun ok => .ite (fun _ => ?_) fun _ => ?_
  · exact (Stops.modify _).bind fun _ => .pure _
  · exact setDevError_stops.bind fun _ => .pure _

theorem readAll_stops (size : Nat) : Stops (· = Stop.crash) (readAll E size) := by
  refine .get_bind fun s => nextFate_stops.bind fun f => ?_
  have herr (data : List UInt8) :
      Stops (· = Stop.crash) (setDevError >>= fun _ => pure (false, data) : M _) :=
    setDevError_stops.bind fun _ => .pure _
  cases f with
  | ok => exact (Stops.modify _).bind fun _ => .ite (fun _ => .pure _) fun _ => herr _
  | fail n => exact (Stops.modify _).bind fun _ => herr _
  | crash n => exact .throw rfl

theorem effect_stops (f : Disk → Disk) : Stops (· = Stop.crash) (effect f) := by
  have hf : Stops (· = Stop.crash) (modifyDisk f) := .modify _
  refine nextFate_stops.bind fun fate => ?_
  cases fate with
  | ok => exact hf.bind fun _ => .pure _
  | fail n =>
    dsimp only
    split
    · exact hf.bind fun _ => .pure _
    · exact .pure _
  | crash n =>
    dsimp only
    split
    · exact hf.bind fun _ => .throw rfl
    · exact .throw rfl

theorem deleteFile_stops (name : String) : Stops (· = Stop.crash) (deleteFile name) :=
  (effect_stops _).bind fun _ => .pure _

theorem readStashFile_stops (data buffer : List UInt8) :
    Stops (· = Stop.crash) (readStashFile data buffer) := by
  refine nextFate_stops.bind fun f => ?_
  cases f with
  | ok => exact .pure _
  | fail n => exact .pure _
  | crash n => exact .throw rfl

theorem writePartial_stops (id : String) (data : List UInt8) :
    Stops (· = Stop.crash) (writePartial id data) := by
  have hf (f : Disk → Disk) : Stops (· = Stop.crash) (modifyDisk f) := .modify _
  refine nextFate_stops.bind fun f => ?_
  cases f with
  | ok => exact (hf _).bind fun _ => .pure _
  | fail n => exact (hf _).bind fun _ => .pure _
  | crash n => exact (hf _).bind fun _ => .throw rfl

/-! ## Reports -/

theorem printHashes_stops (src locs : RangeSet) (size : Nat) :
    ∀ is : List Nat, Stops (· = Stop.check) (printHashes src locs size is)
  | [] => .pure _
  | i :: is => by
    unfold printHashes
    split
    · exact .ite (fun _ => printHashes_stops src locs size is) fun _ => .throw rfl
    · exact .throw rfl

theorem printHashForCorruptedStashedBlocks_stops (buffer : List UInt8) (src : RangeSet) :
    Stops (· = Stop.check) (printHashForCorruptedStashedBlocks buffer src) :=
  .ite (fun _ => .pure _) fun _ => .throw rfl

theorem printHashForCorruptedSourceBlocks_stops :
    Stops (· = Stop.check) (printHashForCorruptedSourceBlocks E) := by
  refine .get_bind fun s => ?_
  dsimp only
  cases s.params.tokens[if s.params.tokens[0]? = some "move" then 4 else 7]? with
  | none => exact .pure _
  | some token =>
    refine .ite (fun _ => .pure _) fun _ => .ite (fun _ => .pure _) fun _ =>
      .ite (fun _ => printHashes_stops _ _ _ _) fun _ => ?_
    exact .ite (fun _ => printHashes_stops _ _ _ _) fun _ => .throw rfl

/-! ## Stash files -/

theorem writeStash_stops {id : String} {blocks : Nat} {buffer : List UInt8}
    (checkspace checkExists : Bool) (h : blockBytes blocks ≤ buffer.length) :
    Stops (· = Stop.crash) (writeStash id blocks buffer checkspace checkExists) := by
  have hrest (statOk : Bool) : Stops (· = Stop.crash) (do
      let d := (← get).disk
      if statOk ∧ (d.stash.lookup id).isSome then return (true, true)
      else if ¬ d.stashDir then return (false, false)
      else if blockBytes blocks ≤ buffer.length then
        if ← writePartial id (buffer.take (blockBytes blocks)) then
          let ok ← effect (renamePartial id)
          return (ok, false)
        else return (false, false)
      else throw .overrun : M (Bool × Bool)) := by
    refine .get_bind fun s => .ite (fun _ => .pure _) fun _ => .ite (fun _ => .pure _) fun _ => ?_
    refine .ite (fun _ => ?_) fun hlt => absurd h hlt
    refine (writePartial_stops _ _).bind fun _ => .ite (fun _ => ?_) fun _ => .pure _
    exact (effect_stops _).bind fun _ => .pure _
  refine ioOk_stops.bind fun spaceOk => .ite (fun _ => .pure _) fun _ => ?_
  cases checkExists with
  | true => exact ioOk_stops.bind hrest
  | false => exact (Stops.pure false).bind hrest

theorem updateLastCommandIndex_stops (commandIndex : Int) (commandString : String) :
    Stops (· = Stop.crash) (updateLastCommandIndex commandIndex commandString) := effect_stops _

theorem freeStash_stops (id : String) : Stops (· = Stop.crash) (freeStash E id) :=
  .ite (fun _ => .pure _) fun _ => (deleteFile_stops _).bind fun _ => .pure _

/-! ## Writes to the target -/

theorem writeAll_stops (data : List UInt8) : Stops (· = Stop.crash) (writeAll E data) := by
  refine .get_bind fun s => nextFate_stops.bind fun f => ?_
  have herr : Stops (· = Stop.crash) (setDevError >>= fun _ => pure false : M _) :=
    setDevError_stops.bind fun _ => .pure _
  cases f with
  | ok => exact (Stops.modify _).bind fun _ => .ite (fun _ => .pure _) fun _ => herr
  | fail n => exact (Stops.modify _).bind fun _ => herr
  | crash n => exact (Stops.modify _).bind fun _ => .throw rfl

theorem blkDiscard_stops (offset size : Nat) : Stops (· = Stop.crash) (blkDiscard E offset size) := by
  refine nextFate_stops.bind fun f => ?_
  have herr : Stops (· = Stop.crash) (setDevError >>= fun _ => pure false : M _) :=
    setDevError_stops.bind fun _ => .pure _
  cases f with
  | ok => exact .ite (fun _ => (Stops.modify _).bind fun _ => .pure _) fun _ => herr
  | fail n => exact (Stops.modify _).bind fun _ => herr
  | crash n => exact (Stops.modify _).bind fun _ => .throw rfl

theorem discardBlocks_stops (offset size : Nat) :
    Stops (· = Stop.crash) (discardBlocks E offset size) :=
  .ite (fun _ => .pure _) fun _ => blkDiscard_stops _ _

theorem seekToOutputRange_stops (w : RangeSinkWriter) :
    Stops (· = Stop.crash) (w.seekToOutputRange E) := by
  unfold RangeSinkWriter.seekToOutputRange
  split
  · exact .pure _
  split
  · exact .pure _
  refine (discardBlocks_stops _ _).bind fun _ => .ite (fun _ => ?_) fun _ => .pure _
  exact (checkLseek_stops _).bind fun _ => .ite (fun _ => .pure _) fun _ => .pure _

theorem writeLoop_stops : ∀ (fuel : Nat) (data : List UInt8) (written : Nat) (w : RangeSinkWriter),
    Stops (· = Stop.crash) (RangeSinkWriter.writeLoop E fuel data written w)
  | 0, _, _, _ => .pure _
  | fuel + 1, data, written, w => by
    refine .ite (fun _ => .pure _) fun _ => (seekToOutputRange_stops w).bind fun r => ?_
    split
    · exact .pure _
    · refine (writeAll_stops _).bind fun _ => .ite (fun _ => ?_) fun _ => .pure _
      exact writeLoop_stops fuel _ _ _

theorem write_stops (w : RangeSinkWriter) (data : List UInt8) :
    Stops (· = Stop.crash) (w.write E data) :=
  .ite (fun _ => .pure _) fun _ => (writeLoop_stops _ _ _ _).bind fun _ => .pure _

theorem sinkPieces_stops : ∀ (pieces : List (List UInt8)) (w : RangeSinkWriter),
    Stops (· = Stop.crash) (sinkPieces E pieces w)
  | [], _ => .pure _
  | _ :: pieces, w => (write_stops w _).bind fun _ =>
      .ite (fun _ => sinkPieces_stops pieces _) fun _ => .pure _

theorem finishCommand_stops (tgt : RangeSet) : Stops (· = Stop.crash) (finishCommand E tgt) := by
  refine .get_bind fun s => ?_
  dsimp only
  split
  · exact (freeStash_stops _).bind fun _ => (Stops.modify _).bind fun _ => .modify _
  · exact .modify _

end Recovery.BlockImg
