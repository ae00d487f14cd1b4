import Recovery.BlockImg.CommandBounds

/-!
# Commands that cannot be parsed

* `Pairs`, `ParsedSource`, `ParsedLoad` — the words of a command, as the comments of
  `LoadSourceBlocks` and `LoadSrcTgtVersion3` describe them; a range that `Parse` refuses is a
  failed `CHECK` and no part of this.
* `PathCommand.Parsed`, `PathCommand.InPlace` — the words of `move`, a diff command and `stash`, and
  a target that has its hash already, so that the words about its source are not read.
* `unparsed_rejected`, `inPlace_accepted` — other words give `-1`, unless the target is in place.

The comments list the forms that a source can have.  Here they are one definition with its cases,
and the stashes are pairs of a name and a range.
-/

set_option autoImplicit false

namespace Recovery.BlockImg

open Recovery.Lib Recovery.OtaUtil

variable {E : Env} {s : St} {α β : Type}

/-! ## What a run gives -/

/-- A run from `s` that returns gives `b`. -/
def Gives (x : M β) (s : St) (b : β) : Prop := Outcome x s (fun a _ => a = b) fun _ _ => True

theorem Gives.bind {R : St → St → Prop} {Q : α → St → Prop} {x : M α} {f : α → M β} {b : β}
    (hx : Reaches R x s Q) (hf : ∀ a s', R s s' → Q a s' → Gives (f a) s' b) :
    Gives (x >>= f) s b :=
  Outcome.bind (Outcome.weaken hx (fun _ _ => id) fun _ _ _ => trivial) fun a s' h => hf a s' h.1 h.2

/-- One result leads to another. -/
theorem Gives.seq {x : M α} {f : α → M β} {a : α} {b : β} (hx : Gives x s a)
    (hf : ∀ s', Gives (f a) s' b) : Gives (x >>= f) s b :=
  Outcome.bind hx fun _ s' h => h ▸ hf s'

theorem nextToken_skip {word : String} {words : List String} (h : s.words = word :: words) :
    nextToken s = .ok word s.skip := (nextToken_run h).1

theorem SameMemory.words {s' : St} (h : SameMemory s s') : s'.words = s.words := by
  rw [St.words, h.params, St.words]

/-! ## Source blocks -/

/-- Stashes, each with its place. -/
def Pairs (base : AndroidBase) (words : List String) : Prop :=
  ∀ word ∈ words, ∃ id locs, base.split word ":" = [id, locs]

theorem loadStashes_unpaired {words : List String} (hw : s.words = words)
    (h : ¬ Pairs E.base words) : Gives (loadStashes E words) s false := by
  induction words generalizing s with
  | nil => exact absurd (fun _ hmem => absurd hmem List.not_mem_nil) h
  | cons word words ih =>
    unfold loadStashes
    refine Outcome.bind_run (nextToken_skip hw) ?_
    have hw1 : s.skip.words = words := St.words_skip hw
    split
    · rename_i id locs hsplit
      have hrest : ¬ Pairs E.base words := by
        intro hp
        apply h
        intro word' hmem
        rcases List.mem_cons.1 hmem with rfl | hmem
        · exact ⟨id, locs, hsplit⟩
        · exact hp word' hmem
      refine Gives.bind (loadStash_grows id false [] true s.skip) fun r s2 hsame2 _ => ?_
      have hw2 : s2.words = words := hsame2.words.trans hw1
      dsimp only
      split
      · refine Gives.bind (parseChecked_same locs s2) fun rs s3 hsame3 _ => ?_
        refine Outcome.bind_get (Gives.bind (moveRange_length _ rs _ s3) fun buffer s4 hsame4 _ => ?_)
        refine Outcome.bind_modify (ih ?_ hrest)
        exact hsame4.words.trans (hsame3.words.trans hw2)
      · exact ih hw2 hrest
    · exact .pure rfl

/-- From the block count on. -/
def ParsedSource (base : AndroidBase) : List String → Prop
  | count :: text :: words =>
    (∃ n, base.parseUint count SIZE_MAX = some n) ∧
      Pairs base (if text = "-" then words else words.tail)
  | _ => False

theorem loadSourceBlocks_unparsed (tgt : RangeSet) {count text : String} {words : List String}
    (hw : s.words = count :: text :: words) (h : ¬ ParsedSource E.base (count :: text :: words)) :
    Gives (loadSourceBlocks E tgt) s none := by
  unfold loadSourceBlocks
  refine Outcome.bind_run (nextToken_skip hw) ?_
  have hw1 : s.skip.words = text :: words := St.words_skip hw
  cases hn : E.base.parseUint count SIZE_MAX with
  | none => exact .pure rfl
  | some n =>
    have hpairs : ¬ Pairs E.base (if text = "-" then words else words.tail) :=
      fun hp => h ⟨⟨n, hn⟩, hp⟩
    dsimp only
    refine Outcome.bind_get (Outcome.bind_modify (Outcome.bind_run (nextToken_skip hw1) ?_))
    have hw2 : s.skip.skip.words = words := St.words_skip hw1
    -- The stashes, wherever the buffer stands.
    have hstashes (source : Nat × Bool) {rest : List String} {s' : St} (hw' : s'.words = rest)
        (hrest : ¬ Pairs E.base rest) : Gives (do
          let params := (← get).params
          if ← loadStashes E (params.tokens.drop params.cpos) then return some source
          else return none : M (Option (Nat × Bool))) s' none := by
      subst hw'
      exact Outcome.bind_get (Gives.seq (loadStashes_unpaired rfl hrest) fun _ => .pure rfl)
    split
    · rename_i hdash
      rw [if_pos hdash] at hpairs
      exact hstashes _ hw2 hpairs
    · rename_i hdash
      rw [if_neg hdash] at hpairs
      refine Gives.bind (parseChecked_same text _) fun src s3 hsame3 _ => Outcome.bind_get ?_
      refine Gives.bind (readBlocks_reads src _ s3) fun r s4 hsame4 _ => Outcome.bind_modify ?_
      have hw4 : s4.words = words := hsame4.words.trans (hsame3.words.trans hw2)
      split
      · exact .pure rfl
      refine Outcome.bind_get ?_
      cases hws : words with
      | nil =>
        rw [hws] at hpairs
        exact absurd (fun _ hmem => absurd hmem List.not_mem_nil) hpairs
      | cons locs rest =>
        rw [hws] at hpairs hw4
        have hmore := s4.words_eq_nil.not.2 (by rw [hw4]; exact List.cons_ne_nil _ _)
        dsimp only
        rw [if_neg hmore]
        refine Outcome.bind_run (nextToken_skip hw4) ?_
        refine Gives.bind (parseChecked_same locs _) fun rs s5 hsame5 _ => Outcome.bind_get ?_
        refine Gives.bind (moveRange_length _ rs none s5) fun buffer s6 hsame6 _ =>
          Outcome.bind_modify ?_
        refine hstashes _ ?_ hpairs
        exact hsame6.words.trans (hsame5.words.trans (St.words_skip hw4))

/-! ## The load -/

/-- From the target range on. -/
def ParsedTarget (base : AndroidBase) : List String → Prop
  | _ :: source => ParsedSource base source
  | [] => False

/-- The range `text` of the target can be read, and has the contents that `hash` asks for. -/
structure TargetHas (E : Env) (dev : Nat → UInt8) (hash text : String) : Prop where
  valid : (RangeSet.parse E.base text).isValid = true
  onDevice : OnDevice E (RangeSet.parse E.base text).ranges
  bytes : blockBytes (RangeSet.parse E.base text).blocks =
    (RangeSet.parse E.base text).blocks * BLOCKSIZE
  hash_eq : E.hash (targetBytes dev (RangeSet.parse E.base text)) = hash

/-- From the target range on: the range, a block count and a source are there, and the target is in
place. -/
def TargetInPlace (E : Env) (s : St) (hash : String) : List String → Prop
  | text :: _ :: _ :: _ => TargetHas E s.disk.dev hash text
  | _ => False

theorem verifyBlocks_target {hash text : String} (dev : Nat → UInt8)
    (hsize : blockBytes (RangeSet.parse E.base text).blocks =
      (RangeSet.parse E.base text).blocks * BLOCKSIZE) :
    verifyBlocks E hash (targetBytes dev (RangeSet.parse E.base text))
      (blockBytes (RangeSet.parse E.base text).blocks) = true ↔
        E.hash (targetBytes dev (RangeSet.parse E.base text)) = hash := by
  rw [verifyBlocks, List.take_of_length_le (by rw [targetBytes_length, hsize]), beq_iff_eq]

theorem loadTarget_unparsed (srchash tgthash : String) {words : List String} (hw : s.words = words)
    (h : ¬ ParsedTarget E.base words) (hplace : ¬ TargetInPlace E s tgthash words) :
    Gives (loadTarget E srchash tgthash) s none := by
  unfold loadTarget
  refine Outcome.bind_get ?_
  dsimp only
  split
  · exact .pure rfl
  rename_i hmore
  rw [s.length_le_iff 2, hw] at hmore
  match words with
  | [] => exact absurd (Nat.zero_le 2) hmore
  | [text] => exact absurd (Nat.le_succ 1) hmore
  | [text, count] => exact absurd (Nat.le_refl 2) hmore
  | text :: count :: first :: rest =>
    refine Outcome.bind_run (nextToken_skip hw) ?_
    have hw1 : s.skip.words = count :: first :: rest := St.words_skip hw
    refine Outcome.bind (parseChecked_parses text s.skip) ?_
    rintro tgt s2 ⟨rfl, hvalid, rfl⟩
    refine Gives.bind (readBlocks_target _ s.skip) ?_
    rintro ⟨ok, buffer⟩ s3 hsame3 hread
    cases ok with
    | false => exact .pure rfl
    | true =>
      obtain ⟨rfl, hsize, hdev⟩ := hread rfl
      dsimp only
      have hno : ¬ verifyBlocks E tgthash (targetBytes s.skip.disk.dev (RangeSet.parse E.base text))
          (blockBytes (RangeSet.parse E.base text).blocks) = true := by
        rw [verifyBlocks_target s.skip.disk.dev hsize]
        exact fun hhash => hplace ⟨hvalid, hdev, hsize, hhash⟩
      simp only [not_true_eq_false, if_false]
      rw [if_neg hno]
      exact Gives.seq (loadSourceBlocks_unparsed _ (hsame3.words.trans hw1) h) fun _ => .pure rfl

/-- A target in place ends the load. -/
theorem loadTarget_inPlace (srchash tgthash : String) {text count first : String}
    {rest : List String} (hw : s.words = text :: count :: first :: rest)
    (hplace : TargetHas E s.disk.dev tgthash text) :
    ∃ load s', May fateOracle (loadTarget E srchash tgthash) s (some load) s' ∧
      load.complete = true := by
  obtain ⟨hvalid, hdev, hsize, hhash⟩ := hplace
  obtain ⟨s2, hread⟩ := may_readBlocks_ok (s := s.skip)
    (List.replicate (blockBytes (RangeSet.parse E.base text).blocks) 0) hdev
    (by rw [List.length_replicate, hsize])
  rw [splice_all (by rw [targetBytes_length, List.length_replicate, hsize])] at hread
  refine ⟨⟨true, RangeSet.parse E.base text, 0⟩, s2, ?_, rfl⟩
  have hmore : ¬ s.params.cpos + 2 ≥ s.params.tokens.length := by
    rw [s.length_le_iff 2, hw]
    simp
  have hparse (fs : List Fate) : parseChecked E text (fateOracle.put s.skip fs) =
      .ok (RangeSet.parse E.base text) (fateOracle.put s.skip fs) := by
    unfold parseChecked
    rw [if_pos hvalid]
    rfl
  have htoken (fs : List Fate) : nextToken (fateOracle.put s fs) =
      .ok text (fateOracle.put s.skip fs) := nextToken_skip hw
  unfold loadTarget
  rw [may_get_bind fun _ _ => rfl]
  dsimp only
  rw [if_neg hmore, may_bind_run htoken]
  refine (may_bind_run hparse).2 ((may_bind (readBlocks_local E _ _)).2 ⟨_, s2, hread, ?_⟩)
  simp only [not_true_eq_false, if_false]
  rw [if_pos ((verifyBlocks_target s.skip.disk.dev hsize).2 hhash)]
  exact .pure _ s2

/-! ## `LoadSrcTgtVersion3` -/

def ParsedLoad (base : AndroidBase) : Bool → List String → Prop
  | true, _ :: words => ParsedTarget base words
  | false, _ :: _ :: words => ParsedTarget base words
  | _, _ => False

def LoadInPlace (E : Env) (s : St) : Bool → List String → Prop
  | true, hash :: words => TargetInPlace E s hash words
  | false, _ :: hash :: words => TargetInPlace E s hash words
  | _, _ => False

theorem loadSrcTgtVersion3_unparsed {onehash : Bool} {words : List String} (hw : s.words = words)
    (h : ¬ ParsedLoad E.base onehash words) (hplace : ¬ LoadInPlace E s onehash words) :
    Gives (loadSrcTgtVersion3 E onehash) s none := by
  rw [loadSrcTgtVersion3_eq]
  match onehash, words with
  | onehash, [] => exact Outcome.bind_run (loadHashes_nil onehash hw) (.pure rfl)
  | true, hash :: words =>
    refine Outcome.bind_run (loadHashes_one hw) ?_
    exact loadTarget_unparsed hash hash (St.words_skip hw) h hplace
  | false, [hash] => exact Outcome.bind_run (loadHashes_short hw) (.pure rfl)
  | false, srchash :: tgthash :: words =>
    refine Outcome.bind_run (loadHashes_two hw) ?_
    exact loadTarget_unparsed srchash tgthash (St.words_skip (St.words_skip hw)) h hplace

theorem loadSrcTgtVersion3_inPlace {onehash : Bool} {words : List String} (hw : s.words = words)
    (hplace : LoadInPlace E s onehash words) :
    ∃ load s', May fateOracle (loadSrcTgtVersion3 E onehash) s (some load) s' ∧
      load.complete = true := by
  rw [loadSrcTgtVersion3_eq]
  match onehash, words with
  | true, hash :: text :: count :: first :: rest =>
    obtain ⟨load, s', hmay, hload⟩ :=
      loadTarget_inPlace hash hash (St.words_skip hw) hplace
    have hrun (fs : List Fate) : loadHashes true (fateOracle.put s fs) =
      .ok (some (hash, hash)) (fateOracle.put s.skip fs) := loadHashes_one hw
    exact ⟨load, s', (may_bind_run hrun).2 hmay, hload⟩
  | false, srchash :: tgthash :: text :: count :: first :: rest =>
    obtain ⟨load, s', hmay, hload⟩ :=
      loadTarget_inPlace srchash tgthash (St.words_skip (St.words_skip hw)) hplace
    have hrun (fs : List Fate) : loadHashes false (fateOracle.put s fs) =
      .ok (some (srchash, tgthash)) (fateOracle.put s.skip.skip fs) := loadHashes_two hw
    exact ⟨load, s', (may_bind_run hrun).2 hmay, hload⟩

/-! ## Commands -/

/-- The commands with source blocks; `bsdiff` and `imgdiff` differ only in their patches. -/
inductive PathCommand where
  | move
  | diff
  | stash
  deriving DecidableEq, Repr

namespace PathCommand

def perform (E : Env) : PathCommand → M Int
  | move => performCommandMove E
  | diff => performCommandDiff E
  | stash => performCommandStash E

/-- The words after the name of the command, as far as the command reads them. -/
def Parsed (base : AndroidBase) : PathCommand → List String → Prop
  | move, words => ParsedLoad base true words
  | diff, offset :: len :: words => (∃ n, base.parseUint offset SIZE_MAX = some n) ∧
      (∃ n, base.parseUint len SIZE_MAX = some n) ∧ ParsedLoad base false words
  | stash, _ :: _ :: _ => True
  | _, _ => False

/-- The words up to the target are there, and the target has its hash. -/
def InPlace (E : Env) (s : St) : PathCommand → List String → Prop
  | move, words => LoadInPlace E s true words
  | diff, offset :: len :: words => (∃ n, E.base.parseUint offset SIZE_MAX = some n) ∧
      (∃ n, E.base.parseUint len SIZE_MAX = some n) ∧ LoadInPlace E s false words
  | _, _ => False

end PathCommand

theorem performCommandMove_unparsed {words : List String} (hw : s.words = words)
    (h : ¬ ParsedLoad E.base true words) (hplace : ¬ LoadInPlace E s true words) :
    Gives (performCommandMove E) s (-1) :=
  Gives.seq (loadSrcTgtVersion3_unparsed hw h hplace) fun _ => .pure rfl

theorem performCommandDiff_unparsed {words : List String} (hw : s.words = words)
    (h : ¬ PathCommand.diff.Parsed E.base words) (hplace : ¬ PathCommand.diff.InPlace E s words) :
    Gives (performCommandDiff E) s (-1) := by
  unfold performCommandDiff
  refine Outcome.bind_get ?_
  dsimp only
  split
  · exact .pure rfl
  rename_i hmore
  rw [s.length_le_iff 1, hw] at hmore
  match words with
  | [] => exact absurd (Nat.zero_le 1) hmore
  | [offset] => exact absurd (Nat.le_refl 1) hmore
  | offset :: len :: rest =>
    refine Outcome.bind_run (nextToken_skip hw) ?_
    have hw1 : s.skip.words = len :: rest := St.words_skip hw
    cases hoffset : E.base.parseUint offset SIZE_MAX with
    | none => exact .pure rfl
    | some n =>
      refine Outcome.bind_run (nextToken_skip hw1) ?_
      have hw2 : s.skip.skip.words = rest := St.words_skip hw1
      cases hlen : E.base.parseUint len SIZE_MAX with
      | none => exact .pure rfl
      | some m =>
        refine Gives.seq (loadSrcTgtVersion3_unparsed hw2 ?_ ?_) fun _ => .pure rfl
        · exact fun hparsed => h ⟨⟨n, hoffset⟩, ⟨m, hlen⟩, hparsed⟩
        · exact fun hload => hplace ⟨⟨n, hoffset⟩, ⟨m, hlen⟩, hload⟩

theorem performCommandStash_unparsed {words : List String} (hw : s.words = words)
    (h : ¬ PathCommand.stash.Parsed E.base words) : Gives (performCommandStash E) s (-1) := by
  unfold performCommandStash
  refine Outcome.bind_get ?_
  have hend : s.params.cpos + 1 ≥ s.params.tokens.length := by
    rw [s.length_le_iff 1, hw]
    match words with
    | [] => exact Nat.zero_le 1
    | [id] => exact Nat.le_refl 1
    | id :: text :: rest => exact absurd trivial h
  dsimp only
  rw [if_pos hend]
  exact .pure rfl

/-- **A command that cannot be parsed is rejected**, unless its target is in place. -/
theorem unparsed_rejected (k : PathCommand) {words : List String} (hw : s.words = words)
    (h : ¬ k.Parsed E.base words) (hplace : ¬ k.InPlace E s words) : Gives (k.perform E) s (-1) := by
  cases k with
  | move => exact performCommandMove_unparsed hw h hplace
  | diff => exact performCommandDiff_unparsed hw h hplace
  | stash => exact performCommandStash_unparsed hw h

/-! ## Targets in place -/

theorem may_finishCommand (tgt : RangeSet) : ∃ s', May fateOracle (finishCommand E tgt) s () s' := by
  have hrun : ∃ s', finishCommand E tgt (fateOracle.put s []) = .ok () s' := by
    unfold finishCommand
    rw [get_bind]
    by_cases hfree : (fateOracle.put s []).params.freestash = ""
    · simp only [hfree, ne_eq, not_true_eq_false, if_false]
      exact ⟨_, rfl⟩
    · simp only [hfree, freeStash, if_false, ne_eq, not_false_eq_true, if_true]
      exact ⟨_, rfl⟩
  obtain ⟨s', hrun⟩ := hrun
  exact ⟨s', .of_put hrun⟩

/-- The end of a command. -/
theorem may_finish (tgt : RangeSet) (s : St) :
    ∃ s', May fateOracle (finishCommand E tgt >>= fun _ => pure 0 : M Int) s 0 s' := by
  obtain ⟨s', fs, gs, hrun⟩ := may_finishCommand (E := E) (s := s) tgt
  exact ⟨s', fs, gs, (bind_ok hrun).trans rfl⟩

theorem noteStatus_complete (s : St) (fs : List Fate) : noteStatus true (fateOracle.put s fs) =
    .ok () (fateOracle.put { s with params.targetVerified := true } fs) := rfl

theorem performCommandMove_inPlace {words : List String} (hw : s.words = words)
    (hplace : LoadInPlace E s true words) : ∃ s', May fateOracle (performCommandMove E) s 0 s' := by
  obtain ⟨⟨complete, tgt, blocks⟩, s1, hmay, rfl⟩ := loadSrcTgtVersion3_inPlace hw hplace
  obtain ⟨s2, hend⟩ := may_finish (E := E) tgt { s1 with params.targetVerified := true }
  refine ⟨s2, (may_bind (loadSrcTgtVersion3_local E true)).2 ⟨_, s1, hmay, ?_⟩⟩
  refine (may_bind_run (noteStatus_complete s1)).2 ((may_get_bind fun _ _ => rfl).2 ?_)
  simp only [not_true_eq_false, and_false, if_false]
  exact hend

theorem performCommandDiff_inPlace {first second : String} {rest : List String} {offset len : Nat}
    (hw : s.words = first :: second :: rest) (hfirst : E.base.parseUint first SIZE_MAX = some offset)
    (hsecond : E.base.parseUint second SIZE_MAX = some len) (hplace : LoadInPlace E s false rest) :
    ∃ s', May fateOracle (performCommandDiff E) s 0 s' := by
  have hw1 : s.skip.words = second :: rest := St.words_skip hw
  have hw2 : s.skip.skip.words = rest := St.words_skip hw1
  obtain ⟨⟨complete, tgt, blocks⟩, s1, hmay, rfl⟩ :=
    loadSrcTgtVersion3_inPlace (s := s.skip.skip) hw2 hplace
  obtain ⟨s2, hend⟩ := may_finish (E := E) tgt { s1 with params.targetVerified := true }
  have hmore : ¬ s.params.cpos + 1 ≥ s.params.tokens.length := by
    rw [s.length_le_iff 1, hw]
    simp
  have hrun1 (fs : List Fate) : nextToken (fateOracle.put s fs) =
      .ok first (fateOracle.put s.skip fs) := nextToken_skip hw
  have hrun2 (fs : List Fate) : nextToken (fateOracle.put s.skip fs) =
      .ok second (fateOracle.put s.skip.skip fs) := nextToken_skip hw1
  refine ⟨s2, ?_⟩
  unfold performCommandDiff
  rw [may_get_bind fun _ _ => rfl]
  dsimp only
  rw [if_neg hmore, may_bind_run hrun1, hfirst]
  dsimp only
  rw [may_bind_run hrun2, hsecond]
  refine (may_bind (loadSrcTgtVersion3_local E false)).2 ⟨_, s1, hmay, ?_⟩
  refine (may_bind_run (noteStatus_complete s1)).2 ?_
  simp only [not_true_eq_false, and_false, if_false]
  exact hend

/-- A target in place lets its command succeed, whatever the words after it are. -/
theorem inPlace_accepted (k : PathCommand) {words : List String} (hw : s.words = words)
    (hplace : k.InPlace E s words) : ∃ s', May fateOracle (k.perform E) s 0 s' := by
  match k, words with
  | .move, words => exact performCommandMove_inPlace hw hplace
  | .diff, _ :: _ :: _ =>
    obtain ⟨⟨offset, hoffset⟩, ⟨len, hlen⟩, hload⟩ := hplace
    exact performCommandDiff_inPlace hw hoffset hlen hload

end Recovery.BlockImg
