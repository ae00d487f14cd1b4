import Recovery.BlockImg.Commands
import Recovery.Lib.Oracle

/-!
# The commands take their fates one by one

* `fateOracle` — the fates of a state.
* `loadStash_local`, `loadSourceBlocks_local`, `loadSrcTgtVersion3_local` — the source path of the
  commands uses up a part of the list and depends on nothing after it.

## Why

A statement about a command quantifies over the faults that hit it.  To build a list of fates with
a given behaviour, the list for one operation is put in front of that for the next, which is sound
because no operation looks at fates that it does not use up.
-/

set_option autoImplicit false

namespace Recovery.BlockImg

open Recovery.Lib Recovery.OtaUtil

def fateOracle : Oracle St Fate where
  put s fs := { s with fates := fs }
  put_put _ _ _ := rfl
  exists_put s := ⟨s.fates, rfl⟩

variable (E : Env)

/-! ## Operations -/

theorem nextFate_local : Local fateOracle nextFate := by
  intro s
  cases hf : s.fates with
  | nil =>
    refine ⟨[.ok], fun gs => ?_⟩
    rw [nextFate, nextFate, hf]
    rfl
  | cons f fs =>
    refine ⟨[f], fun gs => ?_⟩
    rw [nextFate, nextFate, hf]
    rfl

theorem ioOk_local : Local fateOracle ioOk := by
  refine nextFate_local.bind fun f => ?_
  cases f with
  | ok => exact .pure _
  | fail n => exact .pure _
  | crash n => exact .throw _

theorem setDevError_local : Local fateOracle setDevError := .modify fun _ _ => rfl

theorem modifyParams_local (f : CommandParameters → CommandParameters) :
    Local fateOracle (modifyParams f) := .modify fun _ _ => rfl

theorem setBuffer_local (buffer : List UInt8) : Local fateOracle (setBuffer buffer) :=
  modifyParams_local _

theorem checkLseek_local (offset : Nat) : Local fateOracle (checkLseek offset) := by
  refine ioOk_local.bind fun ok => .ite ?_ ?_
  · exact (Local.modify fun _ _ => rfl).bind fun _ => .pure _
  · exact setDevError_local.bind fun _ => .pure _

theorem readAll_local (size : Nat) : Local fateOracle (readAll E size) := by
  refine .get_bind (fun _ _ => rfl) fun s => nextFate_local.bind fun f => ?_
  have herr (data : List UInt8) :
      Local fateOracle (setDevError >>= fun _ => pure (false, data)) :=
    setDevError_local.bind fun _ => .pure _
  cases f with
  | ok => exact (Local.modify fun _ _ => rfl).bind fun _ => .ite (.pure _) (herr _)
  | fail n => exact (Local.modify fun _ _ => rfl).bind fun _ => herr _
  | crash n => exact .throw _

theorem overwrite_local (buffer : List UInt8) (p : Nat) (data : List UInt8) :
    Local fateOracle (overwrite buffer p data) := .ite (.pure _) (.throw _)

theorem readBlocksLoop_local : ∀ (ranges : List Range) (p : Nat) (buffer : List UInt8),
    Local fateOracle (readBlocksLoop E ranges p buffer)
  | [], _, _ => .pure _
  | range :: ranges, p, buffer => by
    refine (checkLseek_local _).bind fun ok => .ite ?_ (.pure _)
    refine (readAll_local E _).bind fun r => (overwrite_local _ _ _).bind fun buffer => ?_
    exact .ite (readBlocksLoop_local ranges _ _) (.pure _)

theorem readBlocks_local (src : RangeSet) (buffer : List UInt8) :
    Local fateOracle (readBlocks E src buffer) := readBlocksLoop_local E _ _ _

theorem effect_local (f : Disk → Disk) : Local fateOracle (effect f) := by
  have hf : Local fateOracle (modifyDisk f) := .modify fun _ _ => rfl
  refine nextFate_local.bind fun fate => ?_
  cases fate with
  | ok => exact hf.bind fun _ => .pure _
  | fail n =>
    dsimp only
    split
    · exact hf.bind fun _ => .pure _
    · exact .pure _
  | crash n =>
    dsimp only
    split
    · exact hf.bind fun _ => .throw _
    · exact .throw _

theorem deleteFile_local (name : String) : Local fateOracle (deleteFile name) :=
  (effect_local _).bind fun _ => .pure _

/-! ## Reports -/

theorem printHashes_local (src locs : RangeSet) (size : Nat) :
    ∀ is : List Nat, Local fateOracle (printHashes src locs size is)
  | [] => .pure _
  | i :: is => by
    unfold printHashes
    split
    · exact .ite (printHashes_local src locs size is) (.throw _)
    · exact .throw _

theorem printHashForCorruptedSourceBlocks_local :
    Local fateOracle (printHashForCorruptedSourceBlocks E) := by
  refine .get_bind (fun _ _ => rfl) fun s => ?_
  dsimp only
  cases s.params.tokens[if s.params.tokens[0]? = some "move" then 4 else 7]? with
  | none => exact .pure _
  | some token =>
    refine .ite (.pure _) (.ite (.pure _) (.ite (printHashes_local _ _ _ _) ?_))
    exact .ite (printHashes_local _ _ _ _) (.throw _)

theorem printHashForCorruptedStashedBlocks_local (buffer : List UInt8) (src : RangeSet) :
    Local fateOracle (printHashForCorruptedStashedBlocks buffer src) := .ite (.pure _) (.throw _)

theorem printHashForMissingStashedBlocks_local (id : String) :
    Local fateOracle (printHashForMissingStashedBlocks E id) := by
  refine .get_bind (fun _ _ => rfl) fun s => ?_
  split
  · exact .pure _
  · refine (readBlocks_local E _ _).bind fun r => ?_
    split
    exact .ite (printHashForCorruptedStashedBlocks_local _ _) (.pure _)

/-! ## Stashes -/

theorem readStashFile_local (data buffer : List UInt8) :
    Local fateOracle (readStashFile data buffer) := by
  refine nextFate_local.bind fun f => ?_
  cases f with
  | ok => exact .pure _
  | fail n => exact .pure _
  | crash n => exact .throw _

theorem loadStash_local (id : String) (verify : Bool) (buffer : List UInt8) (printnoent : Bool) :
    Local fateOracle (loadStash E id verify buffer printnoent) := by
  refine .get_bind (fun _ _ => rfl) fun s => ?_
  split
  · rename_i src _
    refine (readBlocks_local E _ _).bind fun r => .ite (.pure _) (.ite (.pure _) ?_)
    exact (printHashForCorruptedStashedBlocks_local _ _).bind fun _ => .pure _
  refine ioOk_local.bind fun statOk => ?_
  have hmissing : Local fateOracle
      (printHashForMissingStashedBlocks E id >>= fun _ => pure (false, buffer)) :=
    (printHashForMissingStashedBlocks_local E id).bind fun _ => .pure _
  split
  · dsimp only
    split
    · exact hmissing
    · exact .pure _
  · rename_i data _
    dsimp only
    refine .ite hmissing (.ite (.pure _) (ioOk_local.bind fun openOk => .ite ?_ (.pure _)))
    refine (readStashFile_local _ _).bind fun r => .ite (.pure _) (.ite ?_ (.pure _))
    split
    · exact (Local.pure _).bind fun _ => (deleteFile_local _).bind fun _ => .pure _
    · exact (printHashForCorruptedStashedBlocks_local _ _).bind fun _ =>
        (deleteFile_local _).bind fun _ => .pure _

theorem writePartial_local (id : String) (data : List UInt8) :
    Local fateOracle (writePartial id data) := by
  refine nextFate_local.bind fun f => ?_
  cases f with
  | ok => exact (Local.modify fun _ _ => rfl).bind fun _ => .pure _
  | fail n => exact (Local.modify fun _ _ => rfl).bind fun _ => .pure _
  | crash n => exact (Local.modify fun _ _ => rfl).bind fun _ => .throw _

theorem writeStash_local (id : String) (blocks : Nat) (buffer : List UInt8)
    (checkspace checkExists : Bool) :
    Local fateOracle (writeStash id blocks buffer checkspace checkExists) := by
  have hwrite (d : Disk) : Local fateOracle
      (if blockBytes blocks ≤ buffer.length then do
        if ← writePartial id (buffer.take (blockBytes blocks)) then
          let ok ← effect (renamePartial id)
          return (ok, false)
        else return (false, false)
      else throw .overrun : M (Bool × Bool)) := by
    refine .ite ((writePartial_local _ _).bind fun _ => .ite ?_ (.pure _)) (.throw _)
    exact (effect_local _).bind fun _ => .pure _
  have hrest (statOk : Bool) : Local fateOracle (do
      let d := (← get).disk
      if statOk ∧ (d.stash.lookup id).isSome then return (true, true)
      else if ¬ d.stashDir then return (false, false)
      else if blockBytes blocks ≤ buffer.length then
        if ← writePartial id (buffer.take (blockBytes blocks)) then
          let ok ← effect (renamePartial id)
          return (ok, false)
        else return (false, false)
      else throw .overrun : M (Bool × Bool)) :=
    .get_bind (fun _ _ => rfl) fun s => .ite (.pure _) (.ite (.pure _) (hwrite s.disk))
  refine ioOk_local.bind fun spaceOk => .ite (.pure _) ?_
  dsimp only
  split
  · exact ioOk_local.bind hrest
  · exact (Local.pure _).bind hrest

/-! ## The source path -/

theorem nextToken_local : Local fateOracle nextToken := by
  refine .get_bind (fun _ _ => rfl) fun s => ?_
  dsimp only
  split
  · exact .throw _
  · exact (modifyParams_local _).bind fun _ => .pure _

theorem parseChecked_local (rangeText : String) : Local fateOracle (parseChecked E rangeText) :=
  .ite (.pure _) (.throw _)

theorem moveRangeLoop_local (source : Option (List UInt8)) :
    ∀ (ranges : List Range) (start : Nat) (dest : List UInt8),
      Local fateOracle (moveRangeLoop source ranges start dest)
  | [], _, _ => .pure _
  | _ :: ranges, _, _ =>
    .ite ((overwrite_local _ _ _).bind fun dest => moveRangeLoop_local source ranges _ dest)
      (.throw _)

theorem moveRange_local (dest : List UInt8) (locs : RangeSet) (source : Option (List UInt8)) :
    Local fateOracle (moveRange dest locs source) := moveRangeLoop_local source _ _ _

theorem loadStashes_local : ∀ words : List String, Local fateOracle (loadStashes E words)
  | [] => .pure _
  | _ :: words => by
    refine nextToken_local.bind fun word => ?_
    split
    · rename_i id locs _
      refine (loadStash_local E id false [] true).bind fun r => ?_
      dsimp only
      split
      · refine (parseChecked_local E locs).bind fun rs => .get_bind (fun _ _ => rfl) fun s => ?_
        exact (moveRange_local _ _ _).bind fun buffer => (setBuffer_local buffer).bind fun _ =>
          loadStashes_local words
      · exact loadStashes_local words
    · exact .pure _

theorem loadSourceBlocks_local (tgt : RangeSet) : Local fateOracle (loadSourceBlocks E tgt) := by
  have hstashes (n : Nat) (overlap : Bool) (words : List String) : Local fateOracle (do
      if ← loadStashes E words then return some (n, overlap) else return none) :=
    (loadStashes_local E words).bind fun _ => .ite (.pure _) (.pure _)
  refine nextToken_local.bind fun token => ?_
  split
  · exact .pure _
  · refine .get_bind (fun _ _ => rfl) fun s => (setBuffer_local _).bind fun _ => ?_
    refine nextToken_local.bind fun token => .ite ?_ ?_
    · exact .get_bind (fun _ _ => rfl) fun s => hstashes _ _ _
    refine (parseChecked_local E token).bind fun src => .get_bind (fun _ _ => rfl) fun s => ?_
    refine (readBlocks_local E _ _).bind fun r => (setBuffer_local _).bind fun _ => ?_
    refine .ite (.pure _) (.get_bind (fun _ _ => rfl) fun s => .ite (.pure _) ?_)
    refine nextToken_local.bind fun locs => (parseChecked_local E locs).bind fun locs => ?_
    refine .get_bind (fun _ _ => rfl) fun s => (moveRange_local _ _ _).bind fun buffer => ?_
    exact (setBuffer_local buffer).bind fun _ => .get_bind (fun _ _ => rfl) fun s => hstashes _ _ _

theorem stashOverlap_local (srchash : String) (srcBlocks : Nat) :
    Local fateOracle (stashOverlap srchash srcBlocks) := by
  refine .get_bind (fun _ _ => rfl) fun s => (writeStash_local _ _ _ _ _).bind fun r => ?_
  refine .ite (.pure _) ((effect_local _).bind fun _ => ?_)
  exact (modifyParams_local _).bind fun _ => .pure _

theorem loadHashes_local (onehash : Bool) : Local fateOracle (loadHashes onehash) := by
  refine .get_bind (fun _ _ => rfl) fun s => .ite (.pure _) (nextToken_local.bind fun srchash => ?_)
  refine .ite (.pure _) (.get_bind (fun _ _ => rfl) fun s => .ite (.pure _) ?_)
  exact nextToken_local.bind fun tgthash => .pure _

theorem loadSrcTgtVersion3_local (onehash : Bool) :
    Local fateOracle (loadSrcTgtVersion3 E onehash) := by
  refine (loadHashes_local onehash).bind fun hashes => ?_
  split
  · exact .pure _
  rename_i srchash tgthash
  refine .get_bind (fun _ _ => rfl) fun s => .ite (.pure _) (nextToken_local.bind fun text => ?_)
  refine (parseChecked_local E text).bind fun tgt => (readBlocks_local E _ _).bind fun r => ?_
  refine .ite (.pure _) (.ite (.pure _) ((loadSourceBlocks_local E tgt).bind fun source => ?_))
  split
  · exact .pure _
  rename_i srcBlocks overlap
  refine .get_bind (fun _ _ => rfl) fun s => .ite ?_ ?_
  · refine .ite ((stashOverlap_local _ _).bind fun _ => .ite (.pure _) (.pure _)) (.pure _)
  have hrest (recovered : Bool) : Local fateOracle (do
      if recovered then return some ⟨false, tgt, srcBlocks⟩
      else
        printHashForCorruptedSourceBlocks E
        modifyParams fun p => { p with isunresumable := true }
        return none : M (Option Loaded)) := by
    refine .ite (.pure _) ((printHashForCorruptedSourceBlocks_local E).bind fun _ => ?_)
    exact (modifyParams_local _).bind fun _ => .pure _
  dsimp only
  split
  · refine (loadStash_local E _ _ _ _).bind fun r => (setBuffer_local _).bind fun _ => ?_
    exact (Local.pure _).bind hrest
  · exact (Local.pure _).bind hrest

end Recovery.BlockImg
