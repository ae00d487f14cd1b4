import Recovery.ApplyPatch.ImgPatch
import Recovery.BlockImg.SavedIndex
import Recovery.BlockImg.SinkWrites
import Recovery.BlockImg.SourceAssembly

/-!
# Does a diff command fill its target?

* `diffLoad` — `PerformCommandDiff` up to the load; `performCommandDiff_eq` — and the rest.
* `AlreadyPatched`, `diffLoad_loads` — the load says that the target is complete exactly when it has
  the expected hash.
* `sinkPieces_does`, `sinkPieces_short` — the sink takes pieces that fit, and no others.
* `performCommandDiff_complete` — success means a filled target exactly when the patch does not fall
  short of it: an underrun is only logged.

A patch that ends early is logged and the command succeeds, so the other direction, from success to
a filled target, needs the condition; that it also suffices holds of every run.
-/

set_option autoImplicit false

namespace Recovery.BlockImg

open Recovery.Lib Recovery.OtaUtil Recovery.ApplyPatch

variable (E : Env)

/-! ## The parts of the command -/

def diffLoad : M (Option (Nat × Nat × Loaded)) := do
  let params := (← get).params
  if params.cpos + 1 ≥ params.tokens.length then return none
  else
    match E.base.parseUint (← nextToken) SIZE_MAX with
    | none => return none
    | some offset =>
      match E.base.parseUint (← nextToken) SIZE_MAX with
      | none => return none
      | some len =>
        match ← loadSrcTgtVersion3 E false with
        | none => return none
        | some load => return some (offset, len, load)

/-- After the load: patch the target unless it is complete. -/
def diffPatch (offset len : Nat) (load : Loaded) : M Int := do
  noteStatus load.complete
  if E.canwrite ∧ ¬ load.complete then
    if ← patchBlocks E offset len load then
      finishCommand E load.tgt
      return 0
    else return -1
  else
    finishCommand E load.tgt
    return 0

theorem performCommandDiff_eq : performCommandDiff E =
    (diffLoad E >>= fun r => match r with
      | none => pure (-1)
      | some (offset, len, load) => diffPatch E offset len load) := by
  unfold performCommandDiff diffLoad
  simp only [bind_assoc]
  congr 1
  funext s
  split
  · rfl
  simp only [bind_assoc]
  congr 1
  funext first
  cases E.base.parseUint first SIZE_MAX with
  | none => rfl
  | some offset =>
    simp only [bind_assoc]
    congr 1
    funext second
    cases E.base.parseUint second SIZE_MAX with
    | none => rfl
    | some len =>
      simp only [bind_assoc]
      congr 1
      funext load
      cases load with
      | none => rfl
      | some load => rfl

variable {E}

/-! ## The load -/

/-- The bytes of the target ranges. -/
def targetBytes (dev : Nat → UInt8) (tgt : RangeSet) : List UInt8 := (byteAddrs tgt.ranges).map dev

/-- The descriptor's offset aside, and what is to happen to later operations, nothing changes. -/
structure SameData (s s' : St) : Prop where
  disk : s'.disk = s.disk
  stashMap : s'.stashMap = s.stashMap
  params : s'.params = s.params

theorem SameData.refl (s : St) : SameData s s := ⟨rfl, rfl, rfl⟩

theorem SameData.trans {a b c : St} (h : SameData a b) (h' : SameData b c) : SameData a c :=
  ⟨h'.disk.trans h.disk, h'.stashMap.trans h.stashMap, h'.params.trans h.params⟩

instance : IsPreorder St SameData where
  refl := SameData.refl
  trans _ _ _ := SameData.trans

/-- A read that succeeds gives the bytes from the offset on, and any other a part of them. -/
theorem readAll_reads (size : Nat) (s : St) :
    Reaches SameData (readAll E size) s fun r _ => r.2.length ≤ min size (E.devSize - s.pos) ∧
      (r.1 = true → size ≤ E.devSize - s.pos ∧ r.2 = (List.range' s.pos size).map s.disk.dev) := by
  obtain ⟨f, fs, hn, -, -⟩ := nextFate_spec s
  unfold readAll
  refine Outcome.bind_get (Outcome.bind_run hn ?_)
  cases f with
  | ok =>
    refine Outcome.bind_modify ?_
    split
    · rename_i hroom
      refine Outcome.pure ⟨⟨rfl, rfl, rfl⟩, by simp, fun _ => ⟨hroom, ?_⟩⟩
      rw [Nat.min_eq_left hroom]
    · exact Outcome.bind_modify (Outcome.pure ⟨⟨rfl, rfl, rfl⟩, by simp, nofun⟩)
  | fail n =>
    refine Outcome.bind_modify (Outcome.bind_modify (Outcome.pure ⟨⟨rfl, rfl, rfl⟩, ?_, nofun⟩))
    simp only [List.length_map, List.length_range']
    lia
  | crash n => exact Outcome.throw ⟨rfl, rfl, rfl⟩

theorem ioOk_same : Within SameData ioOk := by
  intro s
  obtain ⟨f, fs, hn, -, -⟩ := nextFate_spec s
  rw [Reaches, Outcome, ioOk, bind_ok hn]
  cases f with
  | ok => exact ⟨⟨rfl, rfl, rfl⟩, trivial⟩
  | fail n => exact ⟨⟨rfl, rfl, rfl⟩, trivial⟩
  | crash n => exact ⟨rfl, rfl, rfl⟩

theorem checkLseek_seeks (offset : Nat) (s : St) :
    Reaches SameData (checkLseek offset) s fun b s' => b = true → s'.pos = offset := by
  obtain ⟨f, fs, hn, -, -⟩ := nextFate_spec s
  rw [Reaches, Outcome, checkLseek, ioOk, bind_assoc, bind_ok hn]
  cases f with
  | ok => exact ⟨⟨rfl, rfl, rfl⟩, fun _ => rfl⟩
  | fail n => exact ⟨⟨rfl, rfl, rfl⟩, (absurd · Bool.false_ne_true)⟩
  | crash n => exact ⟨rfl, rfl, rfl⟩

theorem overwrite_splices (buffer data : List UInt8) (p : Nat) (s : St) :
    Reaches SameData (overwrite buffer p data) s
      fun b _ => b = splice buffer p data ∧ p + data.length ≤ buffer.length := by
  unfold overwrite
  split
  · exact .pure ⟨rfl, ‹_›⟩
  · exact .throw

/-- `ReadBlocks` that succeeds has put the bytes of the ranges into the buffer, where there was room
for them. -/
theorem readBlocksLoop_reads {ranges : List Range} {p : Nat} {buffer : List UInt8} {s : St}
    (hp : p ≤ buffer.length) (hpos : ∀ r ∈ ranges, r.1 < r.2) :
    Reaches SameData (readBlocksLoop E ranges p buffer) s fun r _ =>
      r.2.length = buffer.length ∧
      (r.1 = true → r.2 = splice buffer p ((byteAddrs ranges).map s.disk.dev) ∧
        p + (byteAddrs ranges).length ≤ buffer.length ∧ OnDevice E ranges) := by
  induction ranges generalizing p buffer s with
  | nil =>
    refine .pure ⟨rfl, fun _ => ⟨?_, ?_, fun _ h => absurd h List.not_mem_nil⟩⟩
    · simp [splice, byteAddrs]
    · simp [byteAddrs, hp]
  | cons r ranges ih =>
    have hr : r.1 < r.2 := hpos r List.mem_cons_self
    unfold readBlocksLoop
    refine (checkLseek_seeks _ s).bind ?_
    rintro b s1 hsame1 hpos1
    cases b with
    | false => exact .pure ⟨rfl, (absurd · Bool.false_ne_true)⟩
    | true =>
      simp only [if_true]
      refine (readAll_reads _ s1).bind ?_
      rintro ⟨ok, data⟩ s2 hsame2 ⟨-, hdata⟩
      dsimp only at hdata ⊢
      refine (overwrite_splices buffer data p s2).bind ?_
      rintro buffer' s3 hsame3 ⟨rfl, hroom⟩
      have hsplice : (splice buffer p data).length = buffer.length := length_splice hroom
      cases ok with
      | false => exact .pure ⟨hsplice, (absurd · Bool.false_ne_true)⟩
      | true =>
        obtain ⟨hsize, hdata⟩ := hdata rfl
        rw [hpos1 rfl] at hsize hdata
        rw [hsame1.disk] at hdata
        have hlen : data.length = Range.blocks r * BLOCKSIZE := by
          rw [hdata, List.length_map, List.length_range']
        refine (ih (by rw [hsplice]; omega) fun q hq => hpos q (List.mem_cons_of_mem _ hq)).imp
          (fun _ => id) ?_
        rintro ⟨ok, buffer'⟩ s4 - ⟨hlen4, hbuffer4⟩
        refine ⟨hlen4.trans hsplice, fun hok => ?_⟩
        obtain ⟨hbytes, hfit, hdev⟩ := hbuffer4 hok
        have hrange : (rangeAddrs r).length = data.length := by rw [hlen, rangeAddrs_length]
        refine ⟨?_, ?_, ?_⟩
        · rw [hbytes, ((hsame1.trans hsame2).trans hsame3).disk, ← hlen, splice_append (by omega),
            byteAddrs_cons, List.map_append, hdata]
          rfl
        · rw [byteAddrs_cons, List.length_append]
          rw [hsplice] at hfit
          omega
        · intro q hq
          cases hq with
          | head =>
            refine ⟨Nat.le_of_lt hr, ?_⟩
            have hmul : Range.blocks r * BLOCKSIZE + r.1 * BLOCKSIZE = r.2 * BLOCKSIZE := by
              rw [← Nat.add_mul, Range.blocks, Nat.sub_add_cancel (Nat.le_of_lt hr)]
            have hblock := range_bytes_pos hr
            omega
          | tail _ hq => exact hdev q hq

theorem any_outcome {α : Type} (x : M α) (s : St) :
    Outcome x s (fun _ _ => True) fun _ _ => True := by
  unfold Outcome
  cases x s with
  | ok a s' => trivial
  | error e s' => trivial

theorem nextToken_takes (s : St) :
    Outcome nextToken s (fun token s' => s.params.tokens[s.params.cpos]? = some token ∧
      s' = { s with params.cpos := s.params.cpos + 1 }) fun _ _ => True := by
  unfold Outcome
  cases h : nextToken s with
  | ok token s' => exact nextToken_ok h
  | error e s' => trivial

theorem parseChecked_parses (text : String) (s : St) :
    Outcome (parseChecked E text) s
      (fun rs s' => rs = RangeSet.parse E.base text ∧ rs.isValid = true ∧ s' = s) fun _ _ => True := by
  unfold Outcome
  cases h : parseChecked E text s with
  | ok rs s' => exact parseChecked_ok h
  | error e s' => trivial

/-- The target range of the command, and its hash. -/
def diffTarget (E : Env) (p : CommandParameters) : RangeSet :=
  RangeSet.parse E.base (p.tokens.getD (p.cpos + 4) "")

def diffTargetHash (p : CommandParameters) : String := p.tokens.getD (p.cpos + 3) ""

/-- The target has the expected hash. -/
def AlreadyPatched (E : Env) (s : St) : Prop :=
  E.hash (targetBytes s.disk.dev (diffTarget E s.params)) = diffTargetHash s.params

theorem loadHashes_takes (s : St) :
    Outcome (loadHashes false) s (fun r s' => ∀ srchash tgthash, r = some (srchash, tgthash) →
      tgthash = s.params.tokens.getD (s.params.cpos + 1) "" ∧
      s' = { s with params.cpos := s.params.cpos + 1 + 1 }) fun _ _ => True := by
  unfold loadHashes
  refine Outcome.bind_get ?_
  dsimp only
  split
  · exact Outcome.pure fun _ _ h => nomatch h
  refine Outcome.bind (nextToken_takes s) ?_
  rintro srchash _ ⟨-, rfl⟩
  refine Outcome.bind_get ?_
  dsimp only
  split
  · exact Outcome.pure fun _ _ h => nomatch h
  refine Outcome.bind (nextToken_takes _) ?_
  rintro tgthash _ ⟨hget, rfl⟩
  refine Outcome.pure ?_
  rintro src tgt h
  cases h
  exact ⟨by rw [List.getD_eq_getElem?_getD, hget]; rfl, rfl⟩

theorem targetBytes_length (dev : Nat → UInt8) (tgt : RangeSet) :
    (targetBytes dev tgt).length = tgt.blocks * BLOCKSIZE := by
  rw [targetBytes, List.length_map, byteAddrs_length, ← tgt.blocks_eq]

/-- `ReadBlocks`, into a buffer of any size. -/
theorem readBlocks_reads (src : RangeSet) (buffer : List UInt8) (s : St) :
    Reaches SameData (readBlocks E src buffer) s fun r _ => r.2.length = buffer.length ∧
      (r.1 = true → r.2 = splice buffer 0 (targetBytes s.disk.dev src) ∧
        src.blocks * BLOCKSIZE ≤ buffer.length ∧ OnDevice E src.ranges) := by
  refine (readBlocksLoop_reads (Nat.zero_le _) src.pos).imp (fun _ => id) ?_
  rintro ⟨ok, buffer'⟩ s' - ⟨hlen, hread⟩
  refine ⟨hlen, fun hok => ?_⟩
  obtain ⟨hbytes, hfit, hdev⟩ := hread hok
  rw [byteAddrs_length, ← src.blocks_eq, Nat.zero_add] at hfit
  exact ⟨hbytes, hfit, hdev⟩

/-- The blocks of `tgt` read into a buffer of their size, which then fits in a `size_t`. -/
theorem readBlocks_target (tgt : RangeSet) (s : St) :
    Reaches SameData (readBlocks E tgt (List.replicate (blockBytes tgt.blocks) 0)) s
      fun r _ => r.1 = true → r.2 = targetBytes s.disk.dev tgt ∧
        blockBytes tgt.blocks = tgt.blocks * BLOCKSIZE ∧ OnDevice E tgt.ranges := by
  refine (readBlocks_reads tgt _ s).imp (fun _ => id) ?_
  rintro ⟨ok, buffer⟩ s' - ⟨-, hread⟩ hok
  obtain ⟨hbytes, hfit, hdev⟩ := hread hok
  rw [List.length_replicate] at hfit
  have hsize : blockBytes tgt.blocks = tgt.blocks * BLOCKSIZE :=
    Nat.le_antisymm (Nat.mod_le _ _) hfit
  refine ⟨?_, hsize, hdev⟩
  rw [hbytes]
  unfold splice
  rw [targetBytes_length, List.take_zero, List.nil_append, Nat.zero_add,
    List.drop_of_length_le (by rw [List.length_replicate, hsize]), List.append_nil]

/-- What follows when the target is not complete. -/
def Incomplete (tgt : RangeSet) (r : Option Loaded) (_ : St) : Prop :=
  ∀ load, r = some load → load.tgt = tgt ∧ load.complete = false

/-- `LoadSrcTgtVersion3`, from the source hash on. -/
theorem loadSrcTgtVersion3_loads (s : St) :
    Outcome (loadSrcTgtVersion3 E false) s (fun r _ => ∀ load, r = some load →
      load.tgt = RangeSet.parse E.base (s.params.tokens.getD (s.params.cpos + 2) "") ∧
      (load.complete = true ↔
        E.hash (targetBytes s.disk.dev load.tgt) = s.params.tokens.getD (s.params.cpos + 1) ""))
      fun _ _ => True := by
  unfold loadSrcTgtVersion3
  refine Outcome.bind (loadHashes_takes s) ?_
  rintro (_ | ⟨srchash, tgthash⟩) s1 hhashes
  · exact Outcome.pure fun _ h => nomatch h
  obtain ⟨rfl, rfl⟩ := hhashes _ _ rfl
  refine Outcome.bind_get ?_
  dsimp only
  split
  · exact Outcome.pure fun _ h => nomatch h
  refine Outcome.bind (nextToken_takes _) ?_
  rintro text _ ⟨hget, rfl⟩
  dsimp only at hget
  have htext : s.params.tokens.getD (s.params.cpos + 2) "" = text := by
    rw [List.getD_eq_getElem?_getD, hget]
    rfl
  rw [htext]
  refine Outcome.bind (parseChecked_parses text _) ?_
  rintro tgt _ ⟨rfl, -, rfl⟩
  obtain ⟨tgt, htgt⟩ : ∃ tgt, tgt = RangeSet.parse E.base text := ⟨_, rfl⟩
  rw [← htgt]
  refine Outcome.bind (Outcome.weaken (readBlocks_target tgt _) (fun _ _ => id) fun _ _ _ => trivial) ?_
  rintro ⟨ok, buffer⟩ s4 ⟨-, hread⟩
  dsimp only at hread ⊢
  cases ok with
  | false => exact Outcome.pure fun _ h => nomatch h
  | true =>
    obtain ⟨rfl, hsize, -⟩ := hread rfl
    have hverify : verifyBlocks E (s.params.tokens.getD (s.params.cpos + 1) "")
        (targetBytes s.disk.dev tgt) (blockBytes tgt.blocks) = true ↔
        E.hash (targetBytes s.disk.dev tgt) = s.params.tokens.getD (s.params.cpos + 1) "" := by
      rw [verifyBlocks, List.take_of_length_le, beq_iff_eq]
      rw [hsize, targetBytes_length]
    simp only [not_true_eq_false, if_false]
    split
    · rename_i hok
      refine Outcome.pure ?_
      rintro load h
      cases h
      exact ⟨rfl, iff_of_true rfl (hverify.1 hok)⟩
    · rename_i hno
      have hweaken : ∀ r s', Incomplete tgt r s' → ∀ load, r = some load → load.tgt = tgt ∧
          (load.complete = true ↔ E.hash (targetBytes s.disk.dev load.tgt) =
            s.params.tokens.getD (s.params.cpos + 1) "") := by
        intro r s' h load hload
        obtain ⟨h1, h2⟩ := h load hload
        refine ⟨h1, iff_of_false (by rw [h2]; exact Bool.false_ne_true) ?_⟩
        rw [h1]
        exact fun hhash => hno (hverify.2 hhash)
      refine Outcome.weaken ?_ hweaken fun _ _ => id
      have hsome (n : Nat) (s' : St) : Incomplete tgt (some ⟨false, tgt, n⟩) s' := by
        rintro load h
        cases h
        exact ⟨rfl, rfl⟩
      have hnone (s' : St) : Incomplete tgt none s' := fun _ h => nomatch h
      refine Outcome.bind (any_outcome _ _) ?_
      rintro (_ | ⟨n, overlap⟩) s5 -
      · exact Outcome.pure (hnone _)
      refine Outcome.bind_get ?_
      split
      · split
        · refine Outcome.bind (any_outcome _ _) ?_
          intro ok s6 _
          split
          · exact Outcome.pure (hsome n _)
          · exact Outcome.pure (hnone _)
        · exact Outcome.pure (hsome n _)
      · have hrecovered (recovered : Bool) (s' : St) : Outcome (do
            if recovered then return some ⟨false, tgt, n⟩
            else
              printHashForCorruptedSourceBlocks E
              modifyParams fun p => { p with isunresumable := true }
              return none) s' (Incomplete tgt) fun _ _ => True := by
          split
          · exact Outcome.pure (hsome n _)
          · refine Outcome.bind (any_outcome _ _) ?_
            intro _ s7 _
            refine Outcome.bind (any_outcome _ _) ?_
            intro _ s8 _
            exact Outcome.pure (hnone _)
        split
        · refine Outcome.bind (any_outcome _ _) ?_
          intro r s6 _
          refine Outcome.bind (any_outcome _ _) ?_
          intro _ s7 _
          exact hrecovered _ _
        · exact Outcome.bind_run rfl (hrecovered false s5)

/-- The load says that the target is complete exactly when it has its hash. -/
theorem diffLoad_loads (s : St) :
    Outcome (diffLoad E) s (fun r _ => ∀ offset len load, r = some (offset, len, load) →
      load.tgt = diffTarget E s.params ∧ (load.complete = true ↔ AlreadyPatched E s))
      fun _ _ => True := by
  unfold diffLoad
  refine Outcome.bind_get ?_
  dsimp only
  split
  · exact Outcome.pure fun _ _ _ h => nomatch h
  refine Outcome.bind (nextToken_takes s) ?_
  rintro first _ ⟨-, rfl⟩
  split
  · exact Outcome.pure fun _ _ _ h => nomatch h
  refine Outcome.bind (nextToken_takes _) ?_
  rintro second _ ⟨-, rfl⟩
  split
  · exact Outcome.pure fun _ _ _ h => nomatch h
  refine Outcome.bind (loadSrcTgtVersion3_loads _) ?_
  rintro (_ | load) s' hload
  · exact Outcome.pure fun _ _ _ h => nomatch h
  refine Outcome.pure ?_
  rintro offset len _ h
  cases h
  obtain ⟨htgt, hcomplete⟩ := hload load rfl
  have htgt' : load.tgt = diffTarget E s.params := htgt
  refine ⟨htgt', hcomplete.trans ?_⟩
  rw [htgt']
  rfl

/-! ## The patch -/

/-- The pieces that the patch makes of the source in the buffer, and whether it is accepted. -/
def patchOutput (E : Env) (p : CommandParameters) (offset len srcBlocks : Nat) :
    Option (List (List UInt8) × Bool) :=
  if p.patchStart + offset + len ≤ E.package.length then
    let patch := (E.package.drop (p.patchStart + offset)).take len
    let source := p.buffer.take (blockBytes srcBlocks)
    some (if p.cmdname.toList.head? = some 'i' then E.applyImagePatch source patch
      else E.applyBSDiffPatch source patch)
  else none

theorem patchBlocks_eq (offset len : Nat) (load : Loaded) (s : St) :
    patchBlocks E offset len load s =
      match patchOutput E s.params offset len load.srcBlocks with
      | none => .error .overrun s
      | some (pieces, ok) => (sinkPieces E pieces (RangeSinkWriter.new load.tgt) >>= fun b =>
          if b then pure ok else pure false) s := by
  unfold patchBlocks patchOutput
  rw [get_bind]
  dsimp only
  split
  · rfl
  · rfl

namespace RangeSinkWriter

/-- **The sink** has taken all pieces only if they fit, and then they stand in the set. -/
theorem sinkPieces_does {d : Nat → UInt8} (pieces : List (List UInt8)) {D : List UInt8}
    {w : RangeSinkWriter} {s : St} (hcur : Cursor E d D w s) :
    Outcome (sinkPieces E pieces w) s (fun b s' => b = true →
      Fits w D pieces.flatten ∧
        s'.disk.dev = plainWrite E w.tgt.ranges (D ++ pieces.flatten) d) fun _ _ => True := by
  induction pieces generalizing D w s with
  | nil =>
    refine Outcome.pure fun _ => ⟨?_, ?_⟩
    · exact hcur.length_le
    · rw [List.flatten_nil, List.append_nil]
      exact hcur.plain
  | cons piece pieces ih =>
    unfold sinkPieces
    refine Outcome.bind ((write_does hcur).weaken (fun _ _ => id) fun _ _ _ => trivial) ?_
    rintro ⟨n, w1⟩ s1 hwrite
    dsimp only at hwrite ⊢
    split
    · rename_i hn
      rcases hwrite with ⟨-, -, htgt, -, hcur1⟩ | ⟨hlt, -⟩
      swap
      · lia
      refine (ih hcur1).weaken ?_ fun _ _ => id
      intro b s2 h hb
      obtain ⟨hfits, hdev⟩ := h hb
      unfold Fits at hfits ⊢
      rw [htgt, List.length_append] at hfits
      rw [htgt, List.append_assoc] at hdev
      rw [List.flatten_cons, List.length_append]
      exact ⟨by lia, hdev⟩
    · exact Outcome.pure nofun

/-- Without faults the sink takes pieces that do not fill the set. -/
theorem sinkPieces_short (pieces : List (List UInt8)) {w : RangeSinkWriter} {s : St}
    (hat : w.At s) (hlt : pieces.flatten.length < w.remainder)
    (hbad : ¬ Bad E w.rest s) (hdoom : ¬ Doomed s) :
    ∃ s', sinkPieces E pieces w s = .ok true s' ∧ DeviceOnly s s' := by
  induction pieces generalizing w s with
  | nil => exact ⟨s, rfl, .refl s⟩
  | cons piece pieces ih =>
    rw [List.flatten_cons, List.length_append] at hlt
    have hspec := write_spec E piece hat (by lia) (by lia)
    unfold Outcome at hspec
    cases hw : w.write E piece s with
    | error e s1 =>
      rw [hw] at hspec
      exact absurd hspec.doomed hdoom
    | ok r s1 =>
      rw [hw] at hspec
      obtain ⟨n, w1⟩ := r
      obtain ⟨htgt, ⟨hn, hacted, hbytes, hat1, -⟩ | ⟨-, hacted⟩⟩ := hspec
      swap
      · exact absurd (hacted.failed rfl).2 hbad
      dsimp only at htgt hn hbytes hat1
      have havail : w1.remainder = w.remainder - piece.length := by
        unfold remainder
        rw [htgt, hbytes, Nat.sub_add_eq]
      have hrest : w1.rest = w.rest.drop piece.length := by
        unfold rest
        rw [htgt, hbytes, List.drop_drop]
      have hbad1 : ¬ Bad E w1.rest s1 := by
        rintro (hf | hr | ⟨a, ha, hsize⟩)
        · exact hbad (.inl (hf.of_suffix hacted.only.suffix))
        · exact hbad (.inr (.inl hr))
        · rw [hrest] at ha
          exact hbad (.inr (.inr ⟨a, List.mem_of_mem_drop ha, hsize⟩))
      have hdoom1 : ¬ Doomed s1 := fun h => hdoom (h.of_suffix hacted.only.suffix)
      obtain ⟨s2, hrun, honly⟩ := ih hat1 (by lia) hbad1 hdoom1
      refine ⟨s2, ?_, hacted.only.trans honly⟩
      unfold sinkPieces
      rw [bind_ok hw]
      dsimp only
      rw [if_pos hn]
      exact hrun

end RangeSinkWriter

/-! ## After the patch -/

theorem freeStash_dev (id : String) : Keeps (fun s : St => s.disk.dev) (freeStash E id) := by
  refine .ite (.pure _) ?_
  exact ((keeps_effect (fun _ _ => rfl) fun _ => rfl).bind fun _ => .pure _).bind fun _ => .pure _

theorem finishCommand_dev (tgt : RangeSet) :
    Keeps (fun s : St => s.disk.dev) (finishCommand E tgt) := by
  have hparams (g : CommandParameters → CommandParameters) :
      Keeps (fun s : St => s.disk.dev) (modifyParams g) := Keeps.modify fun _ => rfl
  refine .get_bind fun s => ?_
  dsimp only
  split
  · exact (freeStash_dev _).bind fun _ => (hparams _).bind fun _ => hparams _
  · exact hparams _

theorem effect_returns (g : Disk → Disk) {s : St} (hdoom : ¬ Doomed s) :
    ∃ b s', effect g s = .ok b s' := by
  obtain ⟨f, fs, hn, -, hf⟩ := nextFate_spec s
  unfold effect
  rw [bind_ok hn]
  rcases hf with rfl | ⟨n, rfl, -⟩ | ⟨n, rfl, hd⟩
  · exact ⟨true, _, rfl⟩
  · dsimp only
    split
    · exact ⟨false, _, rfl⟩
    · exact ⟨false, _, rfl⟩
  · exact absurd hd hdoom

/-- Without a power loss the end of the command returns. -/
theorem finishCommand_returns (tgt : RangeSet) {s : St} (hdoom : ¬ Doomed s) :
    ∃ s', finishCommand E tgt s = .ok () s' := by
  unfold finishCommand
  rw [get_bind]
  dsimp only
  split
  swap
  · exact ⟨_, rfl⟩
  rename_i hid
  obtain ⟨b, s1, heffect⟩ := effect_returns
    (fun d => { d with stash := d.stash.erase (E.stashFile s.params.freestash) }) hdoom
  have hfree : freeStash E s.params.freestash s = .ok 0 s1 := by
    unfold freeStash deleteFile
    rw [if_neg hid, bind_assoc, bind_ok heffect]
    rfl
  rw [bind_ok hfree]
  exact ⟨_, rfl⟩

/-! ## Coverage -/

/-- The load of the command succeeds. -/
def Loads (E : Env) (s : St) (offset len : Nat) (load : Loaded) (s₁ : St) : Prop :=
  diffLoad E s = .ok (some (offset, len, load)) s₁

/-- The target is filled, exactly, with the output of the patch. -/
def FilledByPatch (E : Env) (s s' : St) : Prop :=
  ∃ offset len load s₁ pieces, Loads E s offset len load s₁ ∧
    patchOutput E s₁.params offset len load.srcBlocks = some (pieces, true) ∧
    load.tgt = diffTarget E s.params ∧ pieces.flatten.length = load.tgt.blocks * BLOCKSIZE ∧
    s'.disk.dev = plainWrite E load.tgt.ranges pieces.flatten s₁.disk.dev

/-- Success means that the target had its hash or is filled. -/
def DiffComplete (E : Env) (s : St) : Prop :=
  ∀ s', performCommandDiff E s = .ok 0 s' → AlreadyPatched E s ∨ FilledByPatch E s s'

/-- An accepted patch of an incomplete target does not fall short of it. -/
def NoUnderrun (E : Env) (s : St) : Prop :=
  ∀ offset len load s₁ pieces, Loads E s offset len load s₁ → load.complete = false →
    patchOutput E s₁.params offset len load.srcBlocks = some (pieces, true) →
    load.tgt.blocks * BLOCKSIZE ≤ pieces.flatten.length

/-- Nothing hinders the writes to the target. -/
def Unhindered (E : Env) (s : St) : Prop :=
  ∀ offset len load s₁, Loads E s offset len load s₁ →
    ¬ Bad E (byteAddrs load.tgt.ranges) s₁ ∧ ¬ Doomed s₁

/-- In an update an incomplete target is patched. -/
theorem diffPatch_incomplete (hwrite : E.canwrite = true) (offset len : Nat) {load : Loaded}
    (hincomplete : load.complete = false) (s : St) : diffPatch E offset len load s =
      (patchBlocks E offset len load >>= fun b =>
        if b then do
          finishCommand E load.tgt
          return 0
        else return -1) { s with params.foundwrites := true } := by
  unfold diffPatch
  rw [hincomplete, hwrite, if_pos ⟨rfl, Bool.false_ne_true⟩]
  rfl

theorem diffPatch_ok (hwrite : E.canwrite = true) {offset len : Nat} {load : Loaded} {s s' : St}
    (hsmall : Small load.tgt) (hincomplete : load.complete = false) (h : diffPatch E offset len load s = .ok 0 s') :
    ∃ pieces, patchOutput E s.params offset len load.srcBlocks = some (pieces, true) ∧
      pieces.flatten.length ≤ load.tgt.blocks * BLOCKSIZE ∧
      s'.disk.dev = plainWrite E load.tgt.ranges pieces.flatten s.disk.dev := by
  rw [diffPatch_incomplete hwrite offset len hincomplete] at h
  obtain ⟨b, s1, hpatch, hfinish⟩ := of_bind_ok h
  cases b with
  | false => cases hfinish
  | true =>
    obtain ⟨_, s2, hfinish, hreturn⟩ := of_bind_ok hfinish
    cases hreturn
    have hdev := finishCommand_dev load.tgt _ _ _ hfinish
    rw [patchBlocks_eq] at hpatch
    split at hpatch
    · cases hpatch
    · rename_i pieces ok hout
      obtain ⟨b, s3, hsink, hok⟩ := of_bind_ok hpatch
      cases b with
      | false => cases hok
      | true =>
        cases hok
        have hdoes := (RangeSinkWriter.sinkPieces_does pieces
          (RangeSinkWriter.new_cursor E hsmall { s with params.foundwrites := true })).of_ok hsink
        obtain ⟨hfits, hplain⟩ := hdoes rfl
        unfold RangeSinkWriter.Fits at hfits
        rw [List.length_nil, Nat.zero_add, byteAddrs_length, RangeSinkWriter.new,
          ← load.tgt.blocks_eq] at hfits
        exact ⟨pieces, hout, hfits, hdev.trans hplain⟩

theorem diffPatch_short (hwrite : E.canwrite = true) {offset len : Nat} {load : Loaded} {s : St}
    (hsmall : Small load.tgt) (hincomplete : load.complete = false)
    (hbad : ¬ Bad E (byteAddrs load.tgt.ranges) s) (hdoom : ¬ Doomed s) {pieces : List (List UInt8)}
    (hout : patchOutput E s.params offset len load.srcBlocks = some (pieces, true))
    (hlt : pieces.flatten.length < load.tgt.blocks * BLOCKSIZE) :
    ∃ s', diffPatch E offset len load s = .ok 0 s' := by
  obtain ⟨s1, hsink, honly⟩ := RangeSinkWriter.sinkPieces_short pieces
    (RangeSinkWriter.new_at hsmall { s with params.foundwrites := true })
    (by simpa [RangeSinkWriter.remainder, RangeSinkWriter.new] using hlt)
    hbad hdoom
  have hpatch : patchBlocks E offset len load { s with params.foundwrites := true } =
      .ok true s1 := by
    have hout' : patchOutput E { s.params with foundwrites := true } offset len load.srcBlocks =
        some (pieces, true) := hout
    rw [patchBlocks_eq]
    simp only [hout']
    rw [bind_ok hsink]
    rfl
  have hdoom1 : ¬ Doomed s1 := fun h => hdoom (h.of_suffix honly.suffix)
  obtain ⟨s2, hfinish⟩ := finishCommand_returns (E := E) load.tgt hdoom1
  refine ⟨s2, ?_⟩
  rw [diffPatch_incomplete hwrite offset len hincomplete, bind_ok hpatch, if_pos rfl,
    bind_ok hfinish]
  rfl

/-- **Diff completeness.**  Unless an accepted patch falls short of its target, success means that
the target had its hash or is filled with the output of the patch; and when nothing hinders the
writes, it means that only then. -/
theorem performCommandDiff_complete (E : Env) (hwrite : E.canwrite = true) (s : St) :
    (NoUnderrun E s → DiffComplete E s) ∧
      (Unhindered E s → DiffComplete E s → NoUnderrun E s) := by
  constructor
  · intro hno s' hrun
    rw [performCommandDiff_eq] at hrun
    obtain ⟨r, s1, hload, hpatch⟩ := of_bind_ok hrun
    cases r with
    | none => cases hpatch
    | some r =>
      obtain ⟨offset, len, load⟩ := r
      obtain ⟨htgt, hcomplete⟩ := (diffLoad_loads s).of_ok hload offset len load rfl
      cases hc : load.complete with
      | true => exact .inl (hcomplete.1 hc)
      | false =>
        obtain ⟨pieces, hout, hle, hdev⟩ := diffPatch_ok hwrite (htgt ▸ small_parse _ _) hc hpatch
        have hge := hno offset len load s1 pieces hload hc hout
        exact .inr ⟨offset, len, load, s1, pieces, hload, hout, htgt, Nat.le_antisymm hle hge,
          hdev⟩
  · intro hfree hcomplete offset len load s1 pieces hload hc hout
    by_contra hlt
    obtain ⟨hbad, hdoom⟩ := hfree offset len load s1 hload
    have hsmall : Small load.tgt :=
      ((diffLoad_loads s).of_ok hload offset len load rfl).1 ▸ small_parse _ _
    obtain ⟨s', hpatch⟩ := diffPatch_short hwrite hsmall hc hbad hdoom hout (Nat.lt_of_not_le hlt)
    have hrun : performCommandDiff E s = .ok 0 s' := by
      rw [performCommandDiff_eq, bind_ok hload]
      exact hpatch
    rcases hcomplete s' hrun with hpatched | ⟨offset', len', load', s1', pieces', hload', hout', -,
      hlen, -⟩
    · have hiff := ((diffLoad_loads s).of_ok hload offset len load rfl).2
      rw [hiff.2 hpatched] at hc
      cases hc
    · unfold Loads at hload hload'
      rw [hload] at hload'
      cases hload'
      rw [hout] at hout'
      cases hout'
      omega

/-! ## An underrun -/

/-- The device of `Env.small`, with the interpreter and a package that is a patch of `pieces`. -/
def Env.patching (L : PatchLibs) (pieces : List (List UInt8)) : Env :=
  { Env.small with
    package := rawPatch pieces
    applyImagePatch := fun source patch =>
      ((ApplyPatch.applyImagePatch L source patch).pieces,
        decide ((ApplyPatch.applyImagePatch L source patch).ending = .success))
    applyBSDiffPatch := fun source patch =>
      ((ApplyPatch.applyBSDiffPatch L source patch 0).pieces,
        decide ((ApplyPatch.applyBSDiffPatch L source patch 0).ending = .success)) }

/-- Patch block 1 from block 0; the hash of the target is to be `01`. -/
def imgdiffCommand : St :=
  { St.zeros none [] with
    params.cmdname := "imgdiff"
    params.tokens := ["0", "12", "00", "01", "2,1,2", "1", "2,0,1"] }

theorem performCommandDiff_complete_imgdiff :
    (NoUnderrun (.patching .idle []) imgdiffCommand → DiffComplete (.patching .idle []) imgdiffCommand) ∧
      (Unhindered (.patching .idle []) imgdiffCommand → DiffComplete (.patching .idle []) imgdiffCommand →
        NoUnderrun (.patching .idle []) imgdiffCommand) :=
  performCommandDiff_complete (.patching .idle []) rfl imgdiffCommand

/-- A patch without chunks is accepted, and nothing is written. -/
theorem underrun : ¬ ∀ (E : Env) (s : St), E.canwrite = true → DiffComplete E s := by
  intro h
  have hcomplete := h (.patching .idle []) imgdiffCommand rfl
  have hreturns : returnedWith (performCommandDiff (.patching .idle []) imgdiffCommand)
      (fun rc _ => rc == 0) = true := by decide +kernel
  obtain ⟨rc, s', hrun, hrc⟩ := of_returnedWith hreturns
  obtain rfl := eq_of_beq hrc
  have hhash : ¬ AlreadyPatched (.patching .idle []) imgdiffCommand := by
    unfold AlreadyPatched
    decide +kernel
  have hoffset : returnedWith (diffLoad (.patching .idle []) imgdiffCommand)
      (fun r s => r.any (fun p => p.1 == 0 && p.2.1 == 12) && s.params.patchStart == 0 &&
        s.params.cmdname == "imgdiff") = true := by decide +kernel
  rcases hcomplete s' hrun with hpatched | ⟨offset, len, load, s1, pieces, hload, hout, htgt, hlen, -⟩
  · exact hhash hpatched
  · unfold Loads at hload
    rw [hload] at hoffset
    simp only [returnedWith, Option.any_some, Bool.and_eq_true, beq_iff_eq] at hoffset
    obtain ⟨⟨⟨rfl, rfl⟩, hstart⟩, hname⟩ := hoffset
    have hraw := applyImagePatch_rawPatch .idle (s1.params.buffer.take (blockBytes load.srcBlocks))
      [] (by decide) nofun
    have hempty : patchOutput (.patching .idle []) s1.params 0 12 load.srcBlocks =
        some ([], true) := by
      unfold patchOutput
      rw [hstart, hname, if_pos (by decide)]
      change some ((ApplyPatch.applyImagePatch .idle
        (s1.params.buffer.take (blockBytes load.srcBlocks)) (rawPatch [])).pieces,
        decide ((ApplyPatch.applyImagePatch .idle
          (s1.params.buffer.take (blockBytes load.srcBlocks)) (rawPatch [])).ending = .success)) = _
      rw [hraw]
      rfl
    rw [hempty] at hout
    cases hout
    rw [htgt] at hlen
    exact absurd hlen (by decide)

end Recovery.BlockImg
