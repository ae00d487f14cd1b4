import Recovery.BlockImg.RunSteps
import Recovery.BlockImg.SourceBounds

/-!
# The path of the source blocks, command by command

* `avoids_loadStash`, `stashBytes` — a stash is loaded inside its own buffer, and how large it is.
* `StashesFit`, `SourceFits`, `LoadFits` — what the words of a command must say for its blocks to
  stay inside the buffer; `avoids_loadStashes`, `avoids_loadSourceBlocks`,
  `avoids_loadSrcTgtVersion3` — and nothing else matters.
* `loadStash_reads`, `loadStash_grows` — what is in the buffer of a stash that was loaded.

`may_loadStash` is the other half: whatever bytes of the right size a stash file has, some run
loads them.
-/

set_option autoImplicit false

namespace Recovery.BlockImg

open Recovery.Lib Recovery.OtaUtil

variable {E : Env} {s : St}

/-! ## Reports -/

theorem Sized.bytes {m : AList fun _ : String => RangeSet} (hm : Sized m) {id : String}
    {src : RangeSet} (h : m.lookup id = some src) :
    blockBytes src.blocks = src.blocks * BLOCKSIZE := Nat.mod_eq_of_lt (hm id src h).2

theorem Sized.readable {m : AList fun _ : String => RangeSet} (hm : Sized m) {id : String}
    {src : RangeSet} (h : m.lookup id = some src) :
    readable E src.ranges ≤ blockBytes src.blocks := by
  rw [hm.bytes h, src.blocks_eq]
  exact readable_le E src.ranges

theorem avoids_printHashForMissingStashedBlocks (hm : Sized s.stashMap) (id : String) :
    Avoids fateOracle .overrun (printHashForMissingStashedBlocks E id) s := by
  unfold printHashForMissingStashedBlocks
  rw [avoids_get_bind fun _ _ => rfl]
  split
  · exact avoids_pure _
  · rename_i src hl
    rw [avoids_bind (readBlocks_local E _ _)]
    refine ⟨avoids_readBlocks.2 ?_, fun r s1 _ => ?_⟩
    · rw [List.length_replicate]
      exact hm.readable hl
    · dsimp only
      split
      · exact (printHashForCorruptedStashedBlocks_stops _ _).avoids nofun
      · exact avoids_pure _

/-- A report may end at the first operation. -/
theorem may_printHashForMissingStashedBlocks (hm : Sized s.stashMap) (id : String) :
    ∃ s', May fateOracle (printHashForMissingStashedBlocks E id) s () s' := by
  unfold printHashForMissingStashedBlocks
  cases hl : s.stashMap.lookup id with
  | none =>
    refine ⟨s, .of_run ?_⟩
    rw [get_bind, hl]
    rfl
  | some src =>
    obtain ⟨s1, fs, gs, hrun⟩ := may_readBlocks_fail (E := E) (s := s)
      (List.replicate (blockBytes src.blocks) 0) (hm id src hl).1
    refine ⟨s1, fs, gs, ?_⟩
    rw [get_bind]
    have hl' : (fateOracle.put s fs).stashMap.lookup id = some src := hl
    simp only [hl']
    rw [bind_ok hrun]
    rfl

/-! ## `LoadStash` -/

/-- The stash goes into a buffer that has been made large enough for it. -/
theorem avoids_loadStash (hm : Sized s.stashMap) (id : String) (verify : Bool)
    (buffer : List UInt8) (printnoent : Bool) :
    Avoids fateOracle .overrun (loadStash E id verify buffer printnoent) s := by
  unfold loadStash
  rw [avoids_get_bind fun _ _ => rfl]
  split
  · rename_i src hl
    have hlookup : s.stashMap.lookup id = some src := by
      split at hl
      · cases hl
      · exact hl
    rw [avoids_bind (readBlocks_local E _ _)]
    refine ⟨avoids_readBlocks.2 ?_, fun r s1 _ => ?_⟩
    · rw [allocate_length]
      exact Nat.le_trans (hm.readable hlookup) (Nat.le_max_right _ _)
    · refine Stops.avoids (C := (· = Stop.check)) ?_ (by decide)
      exact .ite (fun _ => .pure _) fun _ => .ite (fun _ => .pure _) fun _ =>
        (printHashForCorruptedStashedBlocks_stops _ _).bind fun _ => .pure _
  rw [avoids_bind ioOk_local]
  refine ⟨ioOk_stops.avoids (by decide), fun statOk s1 hmay => ?_⟩
  obtain ⟨hsame, -⟩ := may_reaches (Q := fun _ _ => True) hmay fun fs => ioOk_same _
  have hm1 : Sized s1.stashMap := by rwa [hsame.stashMap]
  have hmissing : Avoids fateOracle .overrun
      (printHashForMissingStashedBlocks E id >>= fun _ => pure (false, buffer)) s1 := by
    rw [avoids_bind (printHashForMissingStashedBlocks_local E id)]
    exact ⟨avoids_printHashForMissingStashedBlocks hm1 id, fun _ _ _ => avoids_pure _⟩
  split
  · dsimp only
    split
    · exact hmissing
    · exact avoids_pure _
  · rename_i data _
    dsimp only
    split
    · exact hmissing
    · refine Stops.avoids (C := (· ≠ Stop.overrun)) ?_ fun h => h rfl
      refine .ite (fun _ => .pure _) fun _ => (ioOk_stops.ne (by decide)).bind
        fun _ => .ite (fun _ => ?_) fun _ => .pure _
      refine ((readStashFile_stops _ _).ne (by decide)).bind fun r =>
        .ite (fun _ => .pure _) fun _ => .ite (fun _ => ?_) fun _ => .pure _
      have hdelete : Stops (· ≠ Stop.overrun)
          (deleteFile (E.stashFile id) >>= fun _ => pure (false, r.2) : M _) :=
        ((deleteFile_stops _).ne (by decide)).bind fun _ => .pure _
      split
      · exact (Stops.pure ()).bind fun _ => hdelete
      · exact ((printHashForCorruptedStashedBlocks_stops _ _).ne (by decide)).bind fun _ => hdelete

theorem printHashForCorruptedStashedBlocks_same (buffer : List UInt8) (src : RangeSet) :
    Within SameData (printHashForCorruptedStashedBlocks buffer src) :=
  .ite (fun _ => .pure _) fun _ => .throw _

theorem printHashForMissingStashedBlocks_same (id : String) :
    Within SameData (printHashForMissingStashedBlocks E id) := by
  refine .get_bind fun s => ?_
  split
  · exact .pure _
  · refine Within.bind (fun s => (readBlocks_reads _ _ s).within) fun r => ?_
    exact .ite (fun _ => printHashForCorruptedStashedBlocks_same _ _) fun _ => .pure _

/-- A complete read leaves the file in front of the buffer. -/
theorem readStashFile_reads (data buffer : List UInt8) (s : St) :
    Reaches SameData (readStashFile data buffer) s fun r _ =>
      r.1 = true → r.2 = data ++ buffer.drop data.length := by
  obtain ⟨f, fs, hn, -, -⟩ := nextFate_spec s
  rw [Reaches, Outcome, readStashFile, bind_ok hn]
  cases f with
  | ok => exact ⟨⟨rfl, rfl, rfl⟩, fun _ => rfl⟩
  | fail n => exact ⟨⟨rfl, rfl, rfl⟩, (absurd · Bool.false_ne_true)⟩
  | crash n => exact ⟨rfl, rfl, rfl⟩

/-- Without verification no file is deleted. -/
theorem loadStash_same (id : String) (buffer : List UInt8) (printnoent : Bool) :
    Within SameData (loadStash E id false buffer printnoent) := by
  refine .get_bind fun s => ?_
  split
  · refine Within.bind (fun s => (readBlocks_reads _ _ s).within) fun r => ?_
    refine .ite (fun _ => .pure _) fun _ => .ite (fun _ => .pure _) fun _ => ?_
    exact (printHashForCorruptedStashedBlocks_same _ _).bind fun _ => .pure _
  · refine Within.bind ioOk_same fun statOk => ?_
    have hmissing : Within SameData
        (printHashForMissingStashedBlocks E id >>= fun _ => pure (false, buffer)) :=
      (printHashForMissingStashedBlocks_same id).bind fun _ => .pure _
    split
    · exact .ite (fun _ => hmissing) fun _ => .pure _
    · refine .ite (fun _ => hmissing) fun _ => .ite (fun _ => .pure _) fun _ => ?_
      refine Within.bind ioOk_same fun openOk => .ite (fun _ => ?_) fun _ => .pure _
      refine Within.bind (fun s => (readStashFile_reads _ _ s).within) fun r => ?_
      simp only [Bool.false_eq_true, false_and, if_false]
      exact .ite (fun _ => .pure _) fun _ => .pure _

instance (E : Env) (ranges : List Range) : Decidable (OnDevice E ranges) :=
  inferInstanceAs (Decidable (∀ r ∈ ranges, r.1 ≤ r.2 ∧ r.2 * BLOCKSIZE ≤ E.devSize))

/-- The size of the stash that `LoadStash` finds under an id: in verify mode the blocks of a saved
set, if they have the hash, or else the whole blocks of a file. -/
def stashBytes (E : Env) (d : Disk) (m : AList fun _ : String => RangeSet) (id : String) :
    Option Nat :=
  match (if E.canwrite then none else m.lookup id) with
  | some src =>
    if OnDevice E src.ranges ∧ E.hash (targetBytes d.dev src) = id then
      some (src.blocks * BLOCKSIZE)
    else none
  | none =>
    match d.stash.lookup (E.stashFile id) with
    | some data => if data.length % BLOCKSIZE = 0 then some data.length else none
    | none => none

theorem splice_all {buffer data : List UInt8} (h : data.length = buffer.length) :
    splice buffer 0 data = data := by
  unfold splice
  rw [List.take_zero, List.nil_append, List.drop_of_length_le (by lia), List.append_nil]

/-- The blocks of a saved set in a buffer of their size. -/
theorem splice_saved (hm : Sized s.stashMap) {id : String} {src : RangeSet}
    (h : s.stashMap.lookup id = some src) (dev : Nat → UInt8) :
    splice (allocate (blockBytes src.blocks) []) 0 (targetBytes dev src) = targetBytes dev src := by
  refine splice_all ?_
  rw [targetBytes_length, allocate_length, hm.bytes h]
  exact (Nat.max_eq_right (Nat.zero_le _)).symm

theorem stashBytes_saved {d : Disk} {m : AList fun _ : String => RangeSet} {id : String}
    {src : RangeSet} (hl : (if E.canwrite then none else m.lookup id) = some src)
    (hdev : OnDevice E src.ranges) (hhash : E.hash (targetBytes d.dev src) = id) :
    stashBytes E d m id = some (src.blocks * BLOCKSIZE) := by
  unfold stashBytes
  rw [hl]
  exact if_pos ⟨hdev, hhash⟩

theorem stashBytes_file {d : Disk} {m : AList fun _ : String => RangeSet} {id : String}
    {data : List UInt8} (hl : (if E.canwrite then none else m.lookup id) = none)
    (hfile : d.stash.lookup (E.stashFile id) = some data) (hsize : data.length % BLOCKSIZE = 0) :
    stashBytes E d m id = some data.length := by
  unfold stashBytes
  rw [hl, hfile]
  exact if_pos hsize

/-- What a stash is loaded with. -/
theorem loadStash_reads (hm : Sized s.stashMap) (id : String) (printnoent : Bool) :
    Reaches SameData (loadStash E id false [] printnoent) s fun r _ =>
      r.1 = true → stashBytes E s.disk s.stashMap id = some r.2.length := by
  refine .bind_get ?_
  split
  · rename_i src hl
    have hlookup : s.stashMap.lookup id = some src := by
      split at hl
      · cases hl
      · exact hl
    refine (readBlocks_reads src _ s).bind ?_
    rintro ⟨ok, buffer⟩ s1 - ⟨-, hread⟩
    dsimp only at hread ⊢
    cases ok with
    | false => exact .pure (absurd · Bool.false_ne_true)
    | true =>
      obtain ⟨hbuffer, -, hdev⟩ := hread rfl
      rw [splice_saved hm hlookup] at hbuffer
      simp only [not_true_eq_false, if_false]
      split
      · rename_i hverify
        refine .pure fun _ => ?_
        rw [verifyBlocks, hbuffer, List.take_of_length_le (by rw [targetBytes_length, hm.bytes hlookup]),
          beq_iff_eq] at hverify
        rw [stashBytes_saved hl hdev hverify, hbuffer, targetBytes_length]
      · exact (printHashForCorruptedStashedBlocks_same _ _ s1).bind fun _ _ _ _ =>
          .pure (absurd · Bool.false_ne_true)
  rename_i hl
  refine (ioOk_same s).bind fun statOk s1 _ _ => ?_
  have hmissing : Reaches SameData
      (printHashForMissingStashedBlocks E id >>= fun _ => pure (false, [])) s1
      fun (r : Bool × List UInt8) _ =>
        r.1 = true → stashBytes E s.disk s.stashMap id = some r.2.length :=
    (printHashForMissingStashedBlocks_same id s1).bind fun _ _ _ _ =>
      .pure (absurd · Bool.false_ne_true)
  split
  · dsimp only
    split
    · exact hmissing
    · exact .pure (absurd · Bool.false_ne_true)
  · rename_i data hfile
    dsimp only
    split
    · exact hmissing
    split
    · exact .pure (absurd · Bool.false_ne_true)
    rename_i hsize
    rw [not_not] at hsize
    refine (ioOk_same s1).bind fun openOk s2 _ _ => ?_
    split
    swap
    · exact .pure (absurd · Bool.false_ne_true)
    refine (readStashFile_reads data _ s2).bind ?_
    rintro ⟨ok, buffer⟩ s3 - hread
    dsimp only at hread ⊢
    cases ok with
    | false => exact .pure (absurd · Bool.false_ne_true)
    | true =>
      have hbuffer : buffer.length = data.length := by
        rw [hread rfl, List.length_append, List.length_drop, allocate_length]
        simp
      simp only [not_true_eq_false, if_false, Bool.false_eq_true, false_and]
      refine .pure fun _ => ?_
      rw [stashBytes_file hl hfile hsize, hbuffer]

theorem may_loadStash (hm : Sized s.stashMap) {id : String} {ok : Bool} {stash : List UInt8} {s' : St}
    (h : May fateOracle (loadStash E id false [] true) s (ok, stash) s') :
    SameData s s' ∧ (ok = true → stashBytes E s.disk s.stashMap id = some stash.length) := by
  obtain ⟨hsame, _, hq⟩ := may_reaches (Q := fun r _ => r.1 = true →
    stashBytes E s.disk s.stashMap id = some r.2.length)
    h fun fs => loadStash_reads (s := fateOracle.put s fs) hm id true
  exact ⟨hsame, hq⟩

/-- A stash that is there may be loaded. -/
theorem may_loadStash_ok (hm : Sized s.stashMap) {id : String} {held : Nat}
    (h : stashBytes E s.disk s.stashMap id = some held) :
    ∃ stash s', May fateOracle (loadStash E id false [] true) s (true, stash) s' ∧
      stash.length = held := by
  unfold stashBytes at h
  split at h
  · rename_i src hl
    have hlookup : s.stashMap.lookup id = some src := by
      split at hl
      · cases hl
      · exact hl
    split at h
    swap
    · cases h
    rename_i hok
    cases h
    obtain ⟨s1, hread⟩ := may_readBlocks_ok (s := s) (allocate (blockBytes src.blocks) [])
      hok.1 (by rw [allocate_length, hm.bytes hlookup]; exact Nat.le_max_right _ _)
    rw [splice_saved hm hlookup] at hread
    obtain ⟨fs, gs, hrun⟩ := hread
    refine ⟨_, s1, ⟨fs, gs, ?_⟩, targetBytes_length s.disk.dev src⟩
    have hl' : (if E.canwrite = true then none else (fateOracle.put s fs).stashMap.lookup id) =
      some src := hl
    have hverify : verifyBlocks E id (targetBytes s.disk.dev src) (blockBytes src.blocks) = true := by
      rw [verifyBlocks, List.take_of_length_le (by rw [targetBytes_length, hm.bytes hlookup]),
        beq_iff_eq]
      exact hok.2
    unfold loadStash
    rw [get_bind, hl']
    dsimp only
    rw [bind_ok hrun]
    simp only [not_true_eq_false, if_false, hverify, if_true]
    rfl
  · rename_i hl
    split at h
    · rename_i data hfile
      split at h
      swap
      · cases h
      rename_i hsize
      cases h
      have hno : NoFaults (fateOracle.put s []) := fun _ h => absurd h List.not_mem_nil
      obtain ⟨s1, hrun, -⟩ := loadStash_file (E := E) hno hl hfile hsize
      exact ⟨data, s1, .of_put hrun, rfl⟩
    · cases h

/-- The size of the saved set that verify mode reads for an id. -/
def savedBytes (E : Env) (s : St) (id : String) : Nat :=
  match (if E.canwrite then none else s.stashMap.lookup id) with
  | some src => blockBytes src.blocks
  | none => 0

/-- Loading a stash may always fail, and then at the first operation. -/
theorem may_loadStash_fail (hm : Sized s.stashMap) (id : String) (verify : Bool)
    (buffer : List UInt8) (printnoent : Bool) :
    ∃ buffer' s', buffer'.length = max buffer.length (savedBytes E s id) ∧
      May fateOracle (loadStash E id verify buffer printnoent) s (false, buffer') s' := by
  cases hl : (if E.canwrite then none else s.stashMap.lookup id) with
  | some src =>
    have hlookup : s.stashMap.lookup id = some src := by
      split at hl
      · cases hl
      · exact hl
    obtain ⟨s1, fs, gs, hrun⟩ := may_readBlocks_fail (E := E) (s := s)
      (allocate (blockBytes src.blocks) buffer) (hm id src hlookup).1
    refine ⟨allocate (blockBytes src.blocks) buffer, s1, ?_, fs, gs, ?_⟩
    · rw [allocate_length, savedBytes, hl]
    have hl' : (if E.canwrite = true then none else (fateOracle.put s fs).stashMap.lookup id) =
      some src := hl
    unfold loadStash
    rw [get_bind, hl']
    dsimp only
    rw [bind_ok hrun]
    rfl
  | none =>
    obtain ⟨s1, hprint⟩ := may_printHashForMissingStashedBlocks (E := E) hm id
    obtain ⟨fs, gs, hrun⟩ := hprint
    refine ⟨buffer, s1, ?_, .fail 0 :: fs, gs, ?_⟩
    · rw [savedBytes, hl, Nat.max_zero]
    have hio : ioOk (fateOracle.put s (.fail 0 :: fs)) = .ok false (fateOracle.put s fs) := rfl
    have hl' : (if E.canwrite = true then none
      else (fateOracle.put s (.fail 0 :: fs)).stashMap.lookup id) = none := hl
    unfold loadStash
    rw [get_bind, hl']
    dsimp only
    rw [bind_ok hio]
    have hrest : (printHashForMissingStashedBlocks E id >>= fun _ => pure (false, buffer))
      (fateOracle.put s fs) = .ok (false, buffer) (fateOracle.put s1 gs) := bind_ok hrun
    simp only [Bool.false_eq_true, not_false_eq_true, true_or, if_true]
    cases (fateOracle.put s (.fail 0 :: fs)).disk.stash.lookup (E.stashFile id) with
    | none => exact hrest
    | some data => exact hrest

/-! ## What a load leaves in memory -/

/-- The parameters and the saved sets are as before. -/
structure SameMemory (s s' : St) : Prop where
  stashMap : s'.stashMap = s.stashMap
  params : s'.params = s.params

instance : IsPreorder St SameMemory where
  refl _ := ⟨rfl, rfl⟩
  trans _ _ _ h h' := ⟨h'.stashMap.trans h.stashMap, h'.params.trans h.params⟩

theorem Within.memory {α : Type} {x : M α} (h : Within SameData x) : Within SameMemory x :=
  h.mono fun _ _ h => ⟨h.stashMap, h.params⟩

theorem nextFate_memory : Within SameMemory nextFate := by
  intro s
  obtain ⟨f, fs, hn, -, -⟩ := nextFate_spec s
  rw [Reaches, Outcome, hn]
  exact ⟨⟨rfl, rfl⟩, trivial⟩

theorem effect_memory (f : Disk → Disk) : Within SameMemory (effect f) := by
  have hf : Within SameMemory (modifyDisk f) := .modify fun _ => ⟨rfl, rfl⟩
  refine nextFate_memory.bind fun fate => ?_
  cases fate with
  | ok => exact hf.bind fun _ => .pure _
  | fail n =>
    dsimp only
    split
    · exact hf.bind fun _ => .pure _
    · exact .pure _
  | crash n =>
    dsimp only
    split
    · exact hf.bind fun _ => .throw _
    · exact .throw _

theorem readStashFile_length (data buffer : List UInt8) (s : St) :
    Reaches SameMemory (readStashFile data buffer) s fun r _ => buffer.length ≤ r.2.length := by
  obtain ⟨f, fs, hn, -, -⟩ := nextFate_spec s
  have hfront (got : List UInt8) : buffer.length ≤ (got ++ buffer.drop got.length).length := by
    rw [List.length_append, List.length_drop]
    omega
  rw [Reaches, Outcome, readStashFile, bind_ok hn]
  cases f with
  | ok => exact ⟨⟨rfl, rfl⟩, hfront data⟩
  | fail n => exact ⟨⟨rfl, rfl⟩, hfront _⟩
  | crash n => exact ⟨rfl, rfl⟩

/-- The buffer never shrinks, and what verify mode reads has room in it. -/
theorem loadStash_grows (id : String) (verify : Bool) (buffer : List UInt8) (printnoent : Bool)
    (s : St) : Reaches SameMemory (loadStash E id verify buffer printnoent) s fun r _ =>
      max buffer.length (savedBytes E s id) ≤ r.2.length := by
  refine .bind_get ?_
  split
  · rename_i src hl
    have hsaved : savedBytes E s id = blockBytes src.blocks := by rw [savedBytes, hl]
    have hread : Reaches SameMemory
        (readBlocks E src (allocate (blockBytes src.blocks) buffer)) s fun r _ =>
          max buffer.length (savedBytes E s id) ≤ r.2.length := by
      refine (readBlocks_reads src _ s).imp (fun _ h => ⟨h.stashMap, h.params⟩) fun r _ _ h => ?_
      rw [h.1, allocate_length, hsaved]
    refine hread.bind fun r s1 _ hlen => ?_
    dsimp only
    split
    · exact .pure hlen
    split
    · exact .pure hlen
    · exact (Within.memory (printHashForCorruptedStashedBlocks_same _ _) s1).bind
        fun _ _ _ _ => .pure hlen
  rename_i hl
  have hsaved : savedBytes E s id = 0 := by rw [savedBytes, hl]
  rw [hsaved, Nat.max_zero]
  refine (Within.memory ioOk_same s).bind fun statOk s1 _ _ => ?_
  have hmissing : Reaches SameMemory
      (printHashForMissingStashedBlocks E id >>= fun _ => pure (false, buffer)) s1
      fun (r : Bool × List UInt8) _ => buffer.length ≤ r.2.length :=
    (Within.memory (printHashForMissingStashedBlocks_same id) s1).bind
      fun _ _ _ _ => .pure (Nat.le_refl _)
  split
  · dsimp only
    split
    · exact hmissing
    · exact .pure (Nat.le_refl _)
  · rename_i data _
    dsimp only
    split
    · exact hmissing
    split
    · exact .pure (Nat.le_refl _)
    refine (Within.memory ioOk_same s1).bind fun openOk s2 _ _ => ?_
    split
    swap
    · exact .pure (Nat.le_refl _)
    refine (readStashFile_length data _ s2).bind fun r s3 _ hlen => ?_
    have hlen' : buffer.length ≤ r.2.length := by
      rw [allocate_length] at hlen
      omega
    have hdelete : Within SameMemory (deleteFile (E.stashFile id)) :=
      (effect_memory _).bind fun _ => .pure _
    split
    · exact .pure hlen'
    split
    · split
      · exact (hdelete s3).bind fun _ _ _ _ => .pure hlen'
      · refine (Within.memory (printHashForCorruptedStashedBlocks_same _ _) s3).bind
          fun _ s4 _ _ => ?_
        exact (hdelete s4).bind fun _ _ _ _ => .pure hlen'
    · exact .pure hlen'

end Recovery.BlockImg
