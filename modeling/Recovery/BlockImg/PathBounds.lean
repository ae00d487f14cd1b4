import Recovery.BlockImg.SourcePath

/-!
# What the words of a command must say

* `StashesFit`, `SourceFits`, `LoadFits` — the blocks that the words name fit in the buffer that
  their block count asks for.
* `avoids_loadStashes`, `avoids_loadSourceBlocks`, `avoids_loadSrcTgtVersion3` — the load stays
  inside its buffers, whatever fails on the way, exactly when they do.

## Reading the words

The words are those that are left of the command line.  A load parses each of them and stops at
the first that is malformed, so the conditions follow the order in which the words come: a word
behind a malformed one does not matter.
-/

set_option autoImplicit false

namespace Recovery.BlockImg

open Recovery.Lib Recovery.OtaUtil

/-! ## Words -/

/-- The words of the command that have not been read yet. -/
def St.words (s : St) : List String := s.params.tokens.drop s.params.cpos

def St.skip (s : St) : St := { s with params.cpos := s.params.cpos + 1 }

variable {E : Env} {s : St} {α : Type}

theorem St.words_skip {word : String} {words : List String} (h : s.words = word :: words) :
    s.skip.words = words := (nextToken_run h).2

theorem SameData.words {s' : St} (h : SameData s s') : s'.words = s.words := by
  rw [St.words, h.params, St.words]

theorem St.length_le_iff (s : St) (n : Nat) :
    s.params.cpos + n ≥ s.params.tokens.length ↔ s.words.length ≤ n := by
  rw [St.words, List.length_drop]
  omega

theorem St.words_eq_nil (s : St) : s.params.cpos ≥ s.params.tokens.length ↔ s.words = [] := by
  rw [St.words, List.drop_eq_nil_iff]

theorem avoids_nextToken_bind {f : String → M α} {word : String} {words : List String}
    (h : s.words = word :: words) :
    Avoids fateOracle .overrun (nextToken >>= f) s ↔ Avoids fateOracle .overrun (f word) s.skip :=
  avoids_bind_run fun fs => (nextToken_run (s := fateOracle.put s fs) h).1

theorem avoids_parseChecked_bind {f : RangeSet → M α} {text : String} :
    Avoids fateOracle .overrun (parseChecked E text >>= f) s ↔
      ((RangeSet.parse E.base text).isValid = true →
        Avoids fateOracle .overrun (f (RangeSet.parse E.base text)) s) := by
  by_cases hvalid : (RangeSet.parse E.base text).isValid = true
  · have hrun (fs : List Fate) : parseChecked E text (fateOracle.put s fs) =
        .ok (RangeSet.parse E.base text) (fateOracle.put s fs) := by
      unfold parseChecked
      rw [if_pos hvalid]
      rfl
    rw [avoids_bind_run hrun]
    exact ⟨fun h _ => h, fun h => h hvalid⟩
  · refine iff_of_true (fun fs => ?_) fun h => absurd h hvalid
    have hstop : parseChecked E text (fateOracle.put s fs) = .error .check (fateOracle.put s fs) := by
      unfold parseChecked
      rw [if_neg hvalid]
      rfl
    rw [Outcome, bind_error hstop]
    show Stop.check ≠ Stop.overrun
    decide

theorem avoids_setBuffer_bind {f : Unit → M α} {buffer : List UInt8} :
    Avoids fateOracle .overrun (setBuffer buffer >>= f) s ↔
      Avoids fateOracle .overrun (f ()) { s with params.buffer := buffer } :=
  avoids_modify_bind fun _ _ => rfl

theorem avoids_moveRange_bind {f : List UInt8 → M α} {dest : List UInt8} {locs : RangeSet}
    {source : Option (List UInt8)} :
    Avoids fateOracle .overrun (moveRange dest locs source >>= f) s ↔
      Fits locs (source.getD dest).length dest.length ∧
        ∀ dest', dest'.length = dest.length → (∀ s, moveRange dest locs source s = .ok dest' s) →
          Avoids fateOracle .overrun (f dest') s := by
  by_cases hfit : Fits locs (source.getD dest).length dest.length
  · obtain ⟨dest', hlen, hrun⟩ := moveRange_fits hfit
    have hkeep (fs : List Fate) : moveRange dest locs source (fateOracle.put s fs) =
      .ok dest' (fateOracle.put s fs) := hrun _
    rw [avoids_bind_run hkeep]
    refine ⟨fun h => ⟨hfit, fun dest'' _ hrun' => ?_⟩, fun h => h.2 dest' hlen hrun⟩
    have heq := (hrun s).symm.trans (hrun' s)
    cases heq
    exact h
  · refine iff_of_false (fun h => ?_) fun h => hfit h.1
    have hstop := moveRange_overruns hfit s
    exact (h s.fates).of_error (bind_error hstop) rfl

/-! ## Stashes -/

/-- Every stash that may be loaded is as large as its place says, and its place is in a buffer of
`size` bytes.  The first word that is no `id:range` ends the command. -/
def StashesFit (E : Env) (d : Disk) (m : AList fun _ : String => RangeSet) (size : Nat) :
    List String → Prop
  | [] => True
  | word :: words =>
    match E.base.split word ":" with
    | [id, locs] =>
      (∀ held, stashBytes E d m id = some held → (RangeSet.parse E.base locs).isValid = true →
        Fits (RangeSet.parse E.base locs) held size) ∧ StashesFit E d m size words
    | _ => True

theorem stashesFit_pair {d : Disk} {m : AList fun _ : String => RangeSet} {size : Nat}
    {word id locs : String} {words : List String} (h : E.base.split word ":" = [id, locs]) :
    StashesFit E d m size (word :: words) ↔
      (∀ held, stashBytes E d m id = some held → (RangeSet.parse E.base locs).isValid = true →
        Fits (RangeSet.parse E.base locs) held size) ∧ StashesFit E d m size words := by
  rw [StashesFit, h]

theorem stashesFit_other {d : Disk} {m : AList fun _ : String => RangeSet} {size : Nat}
    {word : String} {words : List String} (h : ∀ id locs, E.base.split word ":" ≠ [id, locs]) :
    StashesFit E d m size (word :: words) := by
  unfold StashesFit
  split
  · exact absurd ‹_› (h _ _)
  · trivial

theorem avoids_loadStashes {words : List String} (hw : s.words = words) (hm : Sized s.stashMap) :
    Avoids fateOracle .overrun (loadStashes E words) s ↔
      StashesFit E s.disk s.stashMap s.params.buffer.length words := by
  induction words generalizing s with
  | nil => exact iff_of_true (avoids_pure _) trivial
  | cons word words ih =>
    unfold loadStashes
    rw [avoids_nextToken_bind hw]
    have hw1 : s.skip.words = words := St.words_skip hw
    split
    · rename_i id locs hsplit
      rw [stashesFit_pair hsplit, avoids_bind (loadStash_local E id false [] true)]
      have hm1 : Sized s.skip.stashMap := hm
      constructor
      · rintro ⟨-, h⟩
        constructor
        · intro held hheld hvalid
          obtain ⟨stash, s2, hmay, rfl⟩ := may_loadStash_ok hm1 hheld
          obtain ⟨hsame, -⟩ := may_loadStash hm1 hmay
          have hload := h _ _ hmay
          simp only [if_true] at hload
          rw [avoids_parseChecked_bind] at hload
          have hmove := hload hvalid
          rw [avoids_get_bind fun _ _ => rfl, avoids_moveRange_bind, hsame.params] at hmove
          exact hmove.1
        · obtain ⟨_, s2, -, hmay⟩ := may_loadStash_fail (E := E) hm1 id false [] true
          obtain ⟨hsame, -⟩ := may_loadStash hm1 hmay
          have hrest := h _ _ hmay
          simp only [Bool.false_eq_true, if_false] at hrest
          rw [ih (hsame.words.trans hw1) (hsame.stashMap ▸ hm1), hsame.disk, hsame.stashMap,
            hsame.params] at hrest
          exact hrest
      · rintro ⟨hfit, hrest⟩
        refine ⟨avoids_loadStash hm1 id false [] true, ?_⟩
        rintro ⟨ok, stash⟩ s2 hmay
        obtain ⟨hsame, hheld⟩ := may_loadStash hm1 hmay
        have hnext (buffer : List UInt8) (hlen : buffer.length = s.params.buffer.length) :
            Avoids fateOracle .overrun (loadStashes E words) { s2 with params.buffer := buffer } := by
          have hw2 : St.words { s2 with params.buffer := buffer } = words :=
            hsame.words.trans hw1
          have hm2 : Sized s2.stashMap := by rw [hsame.stashMap]; exact hm1
          rw [ih hw2 hm2]
          dsimp only
          rw [hsame.disk, hsame.stashMap, hlen]
          exact hrest
        cases ok with
        | false =>
          simp only [Bool.false_eq_true, if_false]
          exact hnext s2.params.buffer (by rw [hsame.params]; rfl)
        | true =>
          simp only [if_true]
          rw [avoids_parseChecked_bind]
          intro hvalid
          rw [avoids_get_bind fun _ _ => rfl, avoids_moveRange_bind, hsame.params]
          refine ⟨hfit _ (hheld rfl) hvalid, fun buffer hlen _ => ?_⟩
          rw [avoids_setBuffer_bind]
          exact hnext buffer hlen
    · rename_i hsplit
      exact iff_of_true (avoids_pure _) (stashesFit_other hsplit)

/-! ## `LoadSourceBlocks` -/

/-- The locations of the source blocks, packed in a buffer of `size` bytes, and the stashes. -/
def PlacesFit (E : Env) (d : Disk) (m : AList fun _ : String => RangeSet) (size : Nat)
    (words : List String) : Prop :=
  ∀ locs rest, words = locs :: rest → (RangeSet.parse E.base locs).isValid = true →
    Fits (RangeSet.parse E.base locs) size size ∧ StashesFit E d m size rest

/-- The words after the block count, for a buffer of `size` bytes. -/
def SourceFits (E : Env) (d : Disk) (m : AList fun _ : String => RangeSet) (size : Nat) :
    List String → Prop
  | [] => True
  | text :: words =>
    if text = "-" then StashesFit E d m size words
    else (RangeSet.parse E.base text).isValid = true →
      readable E (RangeSet.parse E.base text).ranges ≤ size ∧
        (OnDevice E (RangeSet.parse E.base text).ranges → PlacesFit E d m size words)

theorem avoids_finishStashes (source : Nat × Bool) (hm : Sized s.stashMap) :
    Avoids fateOracle .overrun (do
      let params := (← get).params
      if ← loadStashes E (params.tokens.drop params.cpos) then return some source
      else return none : M (Option (Nat × Bool))) s ↔
      StashesFit E s.disk s.stashMap s.params.buffer.length s.words := by
  rw [avoids_get_bind fun _ _ => rfl]
  dsimp only
  rw [avoids_bind_stops (C := fun e => e = Stop.crash) (e := Stop.overrun) (loadStashes_local E _)
    (fun ok => ?_) nofun]
  · exact avoids_loadStashes rfl hm
  · exact .ite (fun _ => .pure _) fun _ => .pure _

theorem avoids_placeSource (source : Nat × Bool) (hm : Sized s.stashMap) :
    Avoids fateOracle .overrun (do
      let params := (← get).params
      if params.cpos ≥ params.tokens.length then return some source
      else
        let locs ← parseChecked E (← nextToken)
        setBuffer (← moveRange (← get).params.buffer locs none)
        let params := (← get).params
        if ← loadStashes E (params.tokens.drop params.cpos) then return some source
        else return none : M (Option (Nat × Bool))) s ↔
      PlacesFit E s.disk s.stashMap s.params.buffer.length s.words := by
  rw [avoids_get_bind fun _ _ => rfl]
  cases hw : s.words with
  | nil =>
    rw [if_pos (s.words_eq_nil.2 hw)]
    exact iff_of_true (avoids_pure _) nofun
  | cons text words =>
    rw [if_neg (s.words_eq_nil.not.2 (by rw [hw]; exact List.cons_ne_nil _ _)), avoids_nextToken_bind hw,
      avoids_parseChecked_bind]
    have hplaces : PlacesFit E s.disk s.stashMap s.params.buffer.length (text :: words) ↔
        ((RangeSet.parse E.base text).isValid = true →
          Fits (RangeSet.parse E.base text) s.params.buffer.length s.params.buffer.length ∧
            StashesFit E s.disk s.stashMap s.params.buffer.length words) := by
      constructor
      · exact fun h => h text words rfl
      · rintro h _ _ ⟨rfl, rfl⟩
        exact h
    rw [hplaces]
    refine forall_congr' fun hvalid => ?_
    rw [avoids_get_bind fun _ _ => rfl, avoids_moveRange_bind]
    refine and_congr_right fun hfit => ?_
    have hrest (buffer : List UInt8) (hlen : buffer.length = s.params.buffer.length) :
        Avoids fateOracle .overrun (do
          let params := (← get).params
          if ← loadStashes E (params.tokens.drop params.cpos) then return some source
          else return none : M (Option (Nat × Bool))) { s.skip with params.buffer := buffer } ↔
        StashesFit E s.disk s.stashMap s.params.buffer.length words := by
      have hm' : Sized (St.stashMap { s.skip with params.buffer := buffer }) := hm
      have hw' : St.words { s.skip with params.buffer := buffer } = words := St.words_skip hw
      rw [avoids_finishStashes source hm', hw', ← hlen]
      rfl
    constructor
    · intro h
      obtain ⟨buffer, hlen, hrun⟩ : ∃ buffer, buffer.length = s.params.buffer.length ∧ ∀ s' : St,
          moveRange s.params.buffer (RangeSet.parse E.base text) none s' = .ok buffer s' :=
        moveRange_fits hfit
      have hplaced := h buffer hlen hrun
      rw [avoids_setBuffer_bind] at hplaced
      exact (hrest buffer hlen).1 hplaced
    · intro h buffer hlen _
      rw [avoids_setBuffer_bind]
      exact (hrest buffer hlen).2 h

theorem avoids_loadSourceBlocks (tgt : RangeSet) {count : String} {source : List String}
    (hw : s.words = count :: source) (hne : source ≠ []) (hm : Sized s.stashMap) :
    Avoids fateOracle .overrun (loadSourceBlocks E tgt) s ↔
      ∀ n, E.base.parseUint count SIZE_MAX = some n →
        SourceFits E s.disk s.stashMap (max s.params.buffer.length (blockBytes n)) source := by
  unfold loadSourceBlocks
  rw [avoids_nextToken_bind hw]
  cases hn : E.base.parseUint count SIZE_MAX with
  | none => exact iff_of_true (avoids_pure _) nofun
  | some n =>
    obtain ⟨text, words, rfl⟩ := List.exists_cons_of_ne_nil hne
    dsimp only
    rw [avoids_get_bind fun _ _ => rfl, avoids_setBuffer_bind]
    obtain ⟨buffer, hbuffer⟩ : ∃ b, b = allocate (blockBytes n) s.skip.params.buffer := ⟨_, rfl⟩
    have hsize : buffer.length = max s.params.buffer.length (blockBytes n) := by
      rw [hbuffer, allocate_length]
      rfl
    rw [← hbuffer]
    have hw1 : St.words { s.skip with params.buffer := buffer } = text :: words :=
      St.words_skip hw
    rw [avoids_nextToken_bind hw1]
    have hw2 := St.words_skip hw1
    have hsome (P : Nat → Prop) : (∀ n', some n = some n' → P n') ↔ P n :=
      ⟨fun h => h n rfl, fun h n' hn' => by cases hn'; exact h⟩
    rw [hsome, SourceFits, ← hsize]
    split
    · rw [avoids_finishStashes (s := St.skip { s.skip with params.buffer := buffer }) (n, false) hm,
        hw2]
      rfl
    · rw [avoids_parseChecked_bind]
      refine forall_congr' fun hvalid => ?_
      obtain ⟨src, hsrc⟩ : ∃ src, src = RangeSet.parse E.base text := ⟨_, rfl⟩
      rw [← hsrc, avoids_get_bind fun _ _ => rfl, avoids_bind (readBlocks_local E _ _),
        avoids_readBlocks]
      refine and_congr_right fun hread => ?_
      have hplace (ok : Bool) (buffer' : List UInt8) (s2 : St)
          (hmay : May fateOracle (readBlocks E src buffer)
            (St.skip { s.skip with params.buffer := buffer }) (ok, buffer') s2) (hok : ok = true) :
          PlacesFit E s2.disk s2.stashMap buffer'.length s2.words ↔
            PlacesFit E s.disk s.stashMap buffer.length words := by
        obtain ⟨hsame, hlen, -⟩ := may_readBlocks hmay
        rw [hsame.disk, hsame.stashMap, hsame.words, hlen, hw2]
        rfl
      constructor
      · intro h hdev
        have hroom : src.blocks * BLOCKSIZE ≤ buffer.length := by
          rw [src.blocks_eq, ← readable_of_onDevice E hdev]
          exact hread
        obtain ⟨buffer', s2, hmay⟩ : ∃ buffer' s2, May fateOracle (readBlocks E src buffer)
            (St.skip { s.skip with params.buffer := buffer }) (true, buffer') s2 :=
          ⟨_, may_readBlocks_ok buffer hdev hroom⟩
        have hrest := h _ _ hmay
        rw [avoids_setBuffer_bind] at hrest
        simp only [not_true_eq_false, if_false] at hrest
        obtain ⟨hsame, -⟩ := may_readBlocks hmay
        have hm2 : Sized s2.stashMap := by rw [hsame.stashMap]; exact hm
        exact (hplace _ _ _ hmay rfl).1
          ((avoids_placeSource (s := { s2 with params.buffer := buffer' })
            (n, src.overlaps tgt) hm2).1 hrest)
      · rintro h ⟨ok, buffer'⟩ s2 hmay
        obtain ⟨hsame, -, hread⟩ := may_readBlocks hmay
        dsimp only
        rw [avoids_setBuffer_bind]
        cases ok with
        | false => exact avoids_pure _
        | true =>
          have hm2 : Sized s2.stashMap := by rw [hsame.stashMap]; exact hm
          simp only [not_true_eq_false, if_false]
          exact (avoids_placeSource (s := { s2 with params.buffer := buffer' })
            (n, src.overlaps tgt) hm2).2 ((hplace _ _ _ hmay rfl).2 (h (hread rfl).2.2))

/-! ## What the source is loaded into -/

/-- Only the buffer and the place in the words may differ. -/
structure SameStore (s s' : St) : Prop where
  disk : s'.disk = s.disk
  stashMap : s'.stashMap = s.stashMap
  tokens : s'.params.tokens = s.params.tokens

instance : IsPreorder St SameStore where
  refl _ := ⟨rfl, rfl, rfl⟩
  trans _ _ _ h h' :=
    ⟨h'.disk.trans h.disk, h'.stashMap.trans h.stashMap, h'.tokens.trans h.tokens⟩

/-- Blocks have been read into the buffer or moved about in it. -/
structure Fills (s s' : St) : Prop extends SameStore s s' where
  size : s'.params.buffer.length = s.params.buffer.length

instance : IsPreorder St Fills where
  refl s := ⟨refl s, rfl⟩
  trans _ _ _ h h' := ⟨IsTrans.trans (r := SameStore) _ _ _ h.toSameStore h'.toSameStore, h'.size.trans h.size⟩

theorem SameData.fills {s s' : St} (h : SameData s s') : Fills s s' :=
  ⟨⟨h.disk, h.stashMap, by rw [h.params]⟩, by rw [h.params]⟩

theorem Within.fills {α : Type} {x : M α} (h : Within SameData x) : Within Fills x :=
  h.mono fun _ _ => SameData.fills

theorem nextToken_fills : Within Fills nextToken := by
  refine .get_bind fun s => ?_
  dsimp only
  split
  · exact .throw _
  · exact (Within.modify fun _ => ⟨⟨rfl, rfl, rfl⟩, rfl⟩).bind fun _ => .pure _

theorem parseChecked_same (text : String) : Within SameData (parseChecked E text) :=
  .ite (fun _ => .pure _) fun _ => .throw _

theorem moveRange_length (dest : List UInt8) (locs : RangeSet) (source : Option (List UInt8))
    (s : St) : Reaches SameData (moveRange dest locs source) s fun dest' _ =>
      dest'.length = dest.length := by
  rw [Reaches, Outcome]
  by_cases hfit : Fits locs (source.getD dest).length dest.length
  · obtain ⟨dest', hlen, hrun⟩ := moveRange_fits hfit
    rw [hrun]
    exact ⟨.refl s, hlen⟩
  · rw [moveRange_overruns hfit]
    exact .refl s

theorem setBuffer_fills {buffer : List UInt8} {s : St}
    (h : buffer.length = s.params.buffer.length) :
    Reaches Fills (setBuffer buffer) s fun _ _ => True :=
  Outcome.modifyState ⟨⟨⟨rfl, rfl, rfl⟩, h⟩, trivial⟩

/-- Blocks moved about in the buffer. -/
theorem moveBuffer_fills {f : Unit → M α} {Q : α → St → Prop} (locs : RangeSet)
    (source : Option (List UInt8)) (hf : ∀ s', Fills s s' → Reaches Fills (f ()) s' Q) :
    Reaches Fills (moveRange s.params.buffer locs source >>= fun buffer => setBuffer buffer >>= f)
      s Q := by
  have hmove : Reaches Fills (moveRange s.params.buffer locs source) s fun buffer s' =>
      buffer.length = s'.params.buffer.length :=
    (moveRange_length _ locs source s).imp (fun _ => SameData.fills) fun buffer s' h hlen => by
      rw [hlen, h.params]
  refine hmove.bind fun buffer s1 h1 hlen => (setBuffer_fills hlen).bind fun _ s2 h2 _ => hf s2 ?_
  exact IsTrans.trans (r := Fills) _ _ _ h1 h2

theorem loadStashes_fills : ∀ words : List String, Within Fills (loadStashes E words)
  | [] => .pure _
  | _ :: words => by
    unfold loadStashes
    refine nextToken_fills.bind fun text => ?_
    split
    · rename_i id locs _
      refine (Within.fills (loadStash_same id [] true)).bind fun r => ?_
      dsimp only
      split
      · refine (Within.fills (parseChecked_same locs)).bind fun rs s => .bind_get ?_
        exact moveBuffer_fills rs _ fun s' _ => loadStashes_fills words s'
      · exact loadStashes_fills words
    · exact .pure _

theorem finishStashes_fills (source : Nat × Bool) (s : St) : Reaches Fills (do
    let params := (← get).params
    if ← loadStashes E (params.tokens.drop params.cpos) then return some source
    else return none : M (Option (Nat × Bool))) s fun r _ => ∀ source', r = some source' →
      source' = source := by
  refine .bind_get ((loadStashes_fills _ s).bind fun ok s1 _ _ => ?_)
  split
  · refine .pure fun source' hr => ?_
    cases hr
    rfl
  · exact .pure nofun

/-- From the source range on, with `n` the block count. -/
theorem fillSource_fills (tgt : RangeSet) (n : Nat) (s : St) : Reaches Fills (do
    let token ← nextToken
    if token = "-" then
      let params := (← get).params
      if ← loadStashes E (params.tokens.drop params.cpos) then return some (n, false)
      else return none
    else
      let src ← parseChecked E token
      let overlap := src.overlaps tgt
      let (ok, buffer) ← readBlocks E src (← get).params.buffer
      setBuffer buffer
      if ¬ ok then return none
      else
        let params := (← get).params
        if params.cpos ≥ params.tokens.length then return some (n, overlap)
        else
          let locs ← parseChecked E (← nextToken)
          setBuffer (← moveRange (← get).params.buffer locs none)
          let params := (← get).params
          if ← loadStashes E (params.tokens.drop params.cpos) then return some (n, overlap)
          else return none : M (Option (Nat × Bool))) s fun r _ =>
      ∀ source, r = some source → source.1 = n := by
  have hstashes (overlap : Bool) (s : St) : Reaches Fills (do
      let params := (← get).params
      if ← loadStashes E (params.tokens.drop params.cpos) then return some (n, overlap)
      else return none : M (Option (Nat × Bool))) s fun r _ => ∀ source, r = some source →
        source.1 = n :=
    (finishStashes_fills (n, overlap) s).imp (fun _ => id) fun r s' _ h source hr => by
      rw [h source hr]
  refine (nextToken_fills s).bind fun text s1 _ _ => ?_
  split
  · exact hstashes false s1
  refine ((Within.fills (parseChecked_same text)) s1).bind fun src s2 _ _ => .bind_get ?_
  have hread : Reaches Fills (readBlocks E src s2.params.buffer) s2 fun r s' =>
      r.2.length = s'.params.buffer.length :=
    (readBlocks_reads src _ s2).imp (fun _ => SameData.fills) fun r s' h hr => by
      rw [hr.1, h.params]
  refine hread.bind fun r s3 _ hlen => (setBuffer_fills hlen).bind fun _ s4 _ _ => ?_
  split
  · exact .pure nofun
  refine .bind_get ?_
  dsimp only
  split
  · refine .pure fun source hr => ?_
    cases hr
    rfl
  refine (nextToken_fills s4).bind fun locs s5 _ _ => ?_
  refine ((Within.fills (parseChecked_same locs)) s5).bind fun rs s6 _ _ => .bind_get ?_
  exact moveBuffer_fills rs none fun s7 _ => hstashes _ s7

/-- The buffer is as large as the block count asks for, if it was not larger before. -/
theorem loadSourceBlocks_fills (tgt : RangeSet) (s : St) :
    Reaches SameStore (loadSourceBlocks E tgt) s fun r s' => ∀ source, r = some source →
      s'.params.buffer.length = max s.params.buffer.length (blockBytes source.1) := by
  have hstore {β : Type} {x : M β} {s : St} {Q : β → St → Prop} (h : Reaches Fills x s Q) :
      Reaches SameStore x s fun a s' => s'.params.buffer.length = s.params.buffer.length ∧ Q a s' :=
    h.imp (fun _ h => h.toSameStore) fun a s' h hq => ⟨h.size, hq⟩
  refine (hstore (nextToken_fills s)).bind fun count s1 _ hsize1 => ?_
  split
  · exact .pure nofun
  rename_i n _
  refine .bind_get (.bind_modify ⟨rfl, rfl, rfl⟩ ?_)
  refine (hstore (fillSource_fills tgt n _)).imp (fun _ => id) fun r s' _ h source hr => ?_
  rw [h.2 source hr, h.1]
  dsimp only
  rw [allocate_length, hsize1.1]

end Recovery.BlockImg
