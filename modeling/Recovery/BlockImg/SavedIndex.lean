import Recovery.BlockImg.Update

/-!
# What an update makes of the saved index

* `command_skip`, `command_execute` — the two ways of a line with a known command.
* `commandsLoop_vars` — the saved index stays, and the stream moves by the `new` commands executed.
* `skips_iff` — some command is skipped iff the first one is.
* `skip_sound_iff` — when every skip is backed by a record of this list.
* `new_aligned_iff` — when an executed `new` gets its own slice of the stream.

`new_aligned_resumed` is a run that is taken up after the first of two `new` commands: the second
gets its own slice because both have the same data.  In `new_misaligned` they differ, and it gets
that of the first.
-/

set_option autoImplicit false

namespace Recovery.BlockImg

open Recovery.Lib Recovery.OtaUtil

variable (E : Env)

/-! ## One line -/

/-- The command of a line. -/
def lineCommand (line : String) : Option CommandName :=
  if line = "" then none else findCommand ((E.base.split line " ").headD "")

/-- The state at the start of the command of a line. -/
def atCommand (line : String) (i : Nat) (s : St) : St :=
  { s with params := { s.params with
    tokens := E.base.split line " "
    cpos := 1
    cmdindex := cmdIndex i
    cmdname := (E.base.split line " ").headD ""
    cmdline := line
    targetVerified := false } }

variable {E}

theorem command_empty (i : Nat) (v : LoopVars) (s : St) :
    command E "" i v s = .ok (some v) s := by
  unfold command
  rw [if_pos rfl]
  rfl

theorem command_unknown {line : String} (i : Nat) (v : LoopVars) (s : St) (hne : line ≠ "")
    (hcmd : lineCommand E line = none) :
    command E line i v s = .ok none (atCommand E line i s) := by
  rw [lineCommand, if_neg hne] at hcmd
  unfold command
  rw [if_neg hne, bind_ok (show setCommand E line i s = .ok ⟨⟩ (atCommand E line i s) from rfl),
    get_bind]
  simp only [atCommand, hcmd]
  rfl

theorem command_skip {line : String} {cmd : CommandName} {i : Nat} {v : LoopVars} (s : St)
    (hw : E.canwrite = true) (hcmd : lineCommand E line = some cmd)
    (hi : beforeSaved v i = true) :
    command E line i v s = .ok (some v) (atCommand E line i s) := by
  obtain ⟨hne, hcmd⟩ : line ≠ "" ∧ findCommand ((E.base.split line " ").headD "") = some cmd := by
    unfold lineCommand at hcmd
    split at hcmd
    · cases hcmd
    · exact ⟨‹_›, hcmd⟩
  unfold command
  rw [if_neg hne, bind_ok (show setCommand E line i s = .ok ⟨⟩ (atCommand E line i s) from rfl),
    get_bind]
  simp only [atCommand, hcmd, hw, hi]
  rfl

theorem command_execute {line : String} {cmd : CommandName} {i : Nat} {v : LoopVars} (s : St)
    (hw : E.canwrite = true) (hcmd : lineCommand E line = some cmd)
    (hi : beforeSaved v i = false) :
    command E line i v s = (do
      let (rc, stream) ← cmd.perform E v.stream
      if rc = -1 then return none
      else if ← ioOk then return some { v with stream := stream } else return none)
        (atCommand E line i s) := by
  obtain ⟨hne, hcmd⟩ : line ≠ "" ∧ findCommand ((E.base.split line " ").headD "") = some cmd := by
    unfold lineCommand at hcmd
    split at hcmd
    · cases hcmd
    · exact ⟨‹_›, hcmd⟩
  unfold command
  rw [if_neg hne, bind_ok (show setCommand E line i s = .ok ⟨⟩ (atCommand E line i s) from rfl),
    get_bind]
  have hcheck : ∀ v, checkSaved E cmd i v = pure v := by
    intro v
    funext s
    simp [checkSaved, hw]
  simp only [show (atCommand E line i s).params.cmdname = (E.base.split line " ").headD "" from rfl,
    hcmd, hw, hi, hcheck, pure_bind]
  simp

variable (E) in
/-- The bytes of the stream a command with these tokens is meant to take. -/
def CommandName.takes : CommandName → List String → Nat
  | .new, _ :: tgt :: _ => (RangeSet.parse E.base tgt).blocks * BLOCKSIZE
  | _, _ => 0

variable (E) in
/-- The bytes of the stream a line is meant to take. -/
def newBytes (line : String) : Nat :=
  match lineCommand E line with
  | some cmd => cmd.takes E (E.base.split line " ")
  | none => 0

theorem nextToken_ok {s s' : St} {token : String} (h : nextToken s = .ok token s') :
    s.params.tokens[s.params.cpos]? = some token ∧
      s' = { s with params := { s.params with cpos := s.params.cpos + 1 } } := by
  unfold nextToken at h
  rw [get_bind] at h
  cases htok : s.params.tokens[s.params.cpos]? with
  | none =>
    simp only [htok] at h
    cases h
  | some t =>
    simp only [htok] at h
    cases h
    exact ⟨rfl, rfl⟩

theorem parseChecked_ok {s s' : St} {text : String} {rs : RangeSet}
    (h : parseChecked E text s = .ok rs s') :
    rs = RangeSet.parse E.base text ∧ rs.isValid = true ∧ s' = s := by
  unfold parseChecked at h
  split at h
  · cases h
    exact ⟨rfl, ‹_›, rfl⟩
  · cases h

/-- A `new` that succeeds has written its bytes of the stream to its target. -/
theorem performCommandNew_ok (hw : E.canwrite = true) {stream stream' : List UInt8} {rc : Int}
    {s s' : St} (hcpos : s.params.cpos = 1)
    (h : performCommandNew E stream s = .ok (rc, stream') s') (hrc : rc ≠ -1) :
    ∃ name token rest, s.params.tokens = name :: token :: rest ∧
      stream' = stream.drop ((RangeSet.parse E.base token).blocks * BLOCKSIZE) ∧
      s'.disk.dev = fill s.disk.dev (byteAddrs (RangeSet.parse E.base token).ranges)
        (stream.take ((RangeSet.parse E.base token).blocks * BLOCKSIZE)) := by
  unfold performCommandNew at h
  rw [get_bind] at h
  dsimp only at h
  split at h
  · cases h
    exact absurd rfl hrc
  obtain ⟨token, s1, h1, h'⟩ := of_bind_ok h
  obtain ⟨tgt, s2, h2, h''⟩ := of_bind_ok h'
  obtain ⟨⟨written, w⟩, s3, hwrite, hret⟩ := of_bind_ok h''
  obtain ⟨htok, rfl⟩ := nextToken_ok h1
  obtain ⟨htgt, hvalid, rfl⟩ := parseChecked_ok h2
  rw [bind_ok (pure_run _ _)] at hret
  cases hb : written == tgt.blocks * BLOCKSIZE with
  | false =>
    simp only [hb] at hret
    cases hret
    exact absurd rfl hrc
  | true =>
    simp only [hb] at hret
    cases hret
    rw [beq_iff_eq] at hb
    obtain ⟨name, rest, htokens⟩ : ∃ name rest, s.params.tokens = name :: token :: rest := by
      rw [hcpos] at htok
      match htokens : s.params.tokens, htok with
      | name :: _ :: rest, htok =>
        cases htok
        exact ⟨name, rest, rfl⟩
    refine ⟨name, token, rest, htokens, by rw [htgt], ?_⟩
    have hsmall : Small tgt := htgt ▸ small_parse E.base token
    have hpos : 0 < (RangeSinkWriter.new tgt).remainder :=
      Nat.mul_pos (RangeSet.blocks_pos (RangeSet.isValid_iff.1 hvalid)) (by decide)
    have hlen : (stream.take (tgt.blocks * BLOCKSIZE)).length ≤
        (RangeSinkWriter.new tgt).remainder := by
      rw [List.length_take]
      exact Nat.min_le_left _ _
    obtain ⟨-, hout⟩ := (RangeSinkWriter.write_spec E _ (RangeSinkWriter.new_at hsmall _) hpos
      hlen).of_ok hwrite
    dsimp only at hout
    have hrest : (RangeSinkWriter.new tgt).rest = byteAddrs tgt.ranges := rfl
    rcases hout with ⟨hn, -, -, -, hag⟩ | ⟨hn, -⟩
    · rw [hrest, ← hn, hb, List.drop_of_length_le (by
        rw [byteAddrs_length, tgt.blocks_eq])] at hag
      rw [← htgt]
      exact funext fun i => hag i List.not_mem_nil
    · rw [hb, List.length_take] at hn
      omega

theorem perform_stream (hw : E.canwrite = true) {cmd : CommandName} {stream stream' : List UInt8}
    {rc : Int} {s s' : St} (hcpos : s.params.cpos = 1)
    (h : cmd.perform E stream s = .ok (rc, stream') s') (hrc : rc ≠ -1) :
    stream' = stream.drop (cmd.takes E s.params.tokens) := by
  cases cmd with
  | new =>
    obtain ⟨name, token, rest, htokens, hs, -⟩ := performCommandNew_ok hw hcpos h hrc
    rw [htokens]
    exact hs
  | bsdiff | erase | free | imgdiff | move | stash | zero =>
    obtain ⟨rc', s1, -, h⟩ := of_bind_ok h
    cases h
    rfl

/-- What a round of the loop does to its variables. -/
theorem command_vars (hw : E.canwrite = true) {line : String} {i : Nat} {v v' : LoopVars}
    {s s' : St} (h : command E line i v s = .ok (some v') s') :
    v' = { v with
      stream := v.stream.drop (if beforeSaved v i = true then 0 else newBytes E line) } := by
  by_cases hne : line = ""
  · subst hne
    rw [command_empty] at h
    cases h
    simp [newBytes, lineCommand]
  cases hcmd : lineCommand E line with
  | none =>
    rw [command_unknown i v s hne hcmd] at h
    cases h
  | some cmd =>
    cases hi : beforeSaved v i with
    | true =>
      rw [command_skip s hw hcmd hi] at h
      cases h
      simp
    | false =>
      rw [command_execute s hw hcmd hi] at h
      obtain ⟨⟨rc, stream⟩, s1, h1, h⟩ := of_bind_ok h
      dsimp only at h
      split at h
      · cases h
      · obtain ⟨b, s2, -, h⟩ := of_bind_ok h
        split at h
        · cases h
          rw [perform_stream hw rfl h1 ‹_›, newBytes, hcmd]
          simp [atCommand]
        · cases h

variable (E) in
/-- The bytes taken by the commands of `lines`, the first at index `i`, that are not before the
saved one. -/
def executedBytes (v : LoopVars) : List String → Nat → Nat
  | [], _ => 0
  | line :: lines, i =>
    (if beforeSaved v i = true then 0 else newBytes E line) + executedBytes v lines (i + 1)

variable (E) in
/-- The bytes of all `new` commands of `lines`. -/
def listBytes (lines : List String) : Nat := (lines.map (newBytes E)).sum

theorem executedBytes_congr {v v' : LoopVars}
    (h : v'.savedLastCommandIndex = v.savedLastCommandIndex) :
    ∀ (lines : List String) (i : Nat), executedBytes E v' lines i = executedBytes E v lines i
  | [], _ => rfl
  | line :: lines, i => by
    rw [executedBytes, executedBytes, executedBytes_congr h lines, beforeSaved, beforeSaved, h]

/-- **The loop** keeps the saved index and moves the stream by what it has executed. -/
theorem commandsLoop_vars (hw : E.canwrite = true) : ∀ (lines : List String) (i : Nat)
    (v v' : LoopVars) (s s' : St), commandsLoop E lines i v s = .ok (some v') s' →
    v' = { v with stream := v.stream.drop (executedBytes E v lines i) }
  | [], i, v, v', s, s', h => by
    cases h
    simp [executedBytes]
  | line :: lines, i, v, v', s, s', h => by
    obtain ⟨o, s1, h1, h⟩ := of_bind_ok h
    cases o with
    | none => cases h
    | some v1 =>
      have hv1 := command_vars hw h1
      have hv' := commandsLoop_vars hw lines (i + 1) v1 v' s1 s' h
      have hsaved : v1.savedLastCommandIndex = v.savedLastCommandIndex := by rw [hv1]
      rw [hv', executedBytes_congr hsaved, hv1, executedBytes, List.drop_drop]

/-! ## Skipping -/

variable (E) in
/-- The run skips line `i`: it gets there, the line holds a command, and the index is not beyond
the saved one. -/
def Skips (transferList : String) (newData : List UInt8) (patchStart : Nat) (s : St) (i : Nat) :
    Prop :=
  ∃ v s' line, runTo E transferList newData patchStart i s = .ok (some v) s' ∧
    (parseHeader E transferList).lines[i]? = some line ∧ (lineCommand E line).isSome = true ∧
    beforeSaved v i = true

variable (E) in
/-- The record belongs to this list: the command line in it is the line at its index. -/
def Belongs (transferList : String) (record : Option String) : Prop :=
  ∃ content index cmdline k, record = some content ∧
    E.base.split (E.base.trim content) "\n" = [index, cmdline] ∧
    E.base.parseInt index (-INT_MAX - 1) INT_MAX = some (Int.ofNat k) ∧
    (parseHeader E transferList).lines[k]? = some cmdline

theorem runTo_eq (L : String) (D : List UInt8) (p i : Nat) :
    runTo E L D p i = (do
      match ← runTo E L D p 0 with
      | none => return none
      | some v => commandsLoop E ((parseHeader E L).lines.take i) 0 v) := by
  unfold runTo
  cases parseHeader E L with
  | bad => rfl
  | nothing => rfl
  | commands version stashMaxBlocks lines =>
    dsimp only [Header.lines]
    rw [bind_assoc]
    congr 1
    funext _
    rw [bind_assoc]
    congr 1
    funext o
    cases o <;> rfl

theorem commandsLoop_blank (v : LoopVars) (s : St) : ∀ (n i : Nat),
    commandsLoop E (List.replicate n "") i v s = .ok (some v) s
  | 0, _ => rfl
  | n + 1, i => by
    rw [List.replicate_succ, commandsLoop, bind_ok (command_empty i v s)]
    exact commandsLoop_blank v s n (i + 1)

theorem beforeSaved_of_le {v : LoopVars} {n i : Nat} (hn : n ≤ i) (h : beforeSaved v i = true) :
    beforeSaved v n = true := by
  rw [beforeSaved, Bool.and_eq_true, decide_eq_true_eq, decide_eq_true_eq] at h ⊢
  unfold cmdIndex at h ⊢
  split at h
  · exact absurd rfl h.1
  · rw [if_neg (by lia)]
    lia

/-- A list up to a line with a command: blank lines, then a first command. -/
theorem first_line {lines : List String} {i : Nat} {line : String} (h : lines[i]? = some line)
    (hne : line ≠ "") : ∃ n first rest, n ≤ i ∧ lines = List.replicate n "" ++ first :: rest ∧
      first ≠ "" := by
  induction lines generalizing i with
  | nil => cases h
  | cons l lines ih =>
    by_cases hl : l = ""
    · cases i with
      | zero =>
        cases h
        exact absurd hl hne
      | succ i =>
        obtain ⟨n, first, rest, hn, hlines, hfirst⟩ := ih h
        exact ⟨n + 1, first, rest, by lia, by rw [hl, hlines]; rfl, hfirst⟩
    · exact ⟨0, l, lines, Nat.zero_le _, rfl, hl⟩

/-- The saved index of a run is that of the record, or `-1`. -/
theorem runTo_zero_saved {L : String} {D : List UInt8} {p : Nat} {v : LoopVars} {s s' : St}
    (h : runTo E L D p 0 s = .ok (some v) s') : v.savedLastCommandIndex = -1 ∨
      s.disk.lastCommand.bind (parseLastCommand E) = some v.savedLastCommandIndex := by
  unfold runTo at h
  cases hh : parseHeader E L with
  | bad => rw [hh] at h; cases h
  | nothing => rw [hh] at h; cases h
  | commands version stashMaxBlocks lines =>
    rw [hh] at h
    obtain ⟨_, s1, hm, h⟩ := of_bind_ok h
    cases hm
    obtain ⟨o, s2, hp, h⟩ := of_bind_ok h
    unfold prepare at hp
    obtain ⟨res, s3, hcreate, hp⟩ := of_bind_ok hp
    have hlast := createStash_lastCommand E stashMaxBlocks _ _ _ hcreate
    dsimp only at hlast hp
    split at hp
    · cases hp
      cases h
    · rw [modifyParams, modify_bind] at hp
      obtain ⟨o', s4, hparse, hp⟩ := of_bind_ok hp
      unfold parseLastCommandFile at hparse
      obtain ⟨b, s5, hio, hparse⟩ := of_bind_ok hparse
      have hdisk : s5.disk.lastCommand = s.disk.lastCommand :=
        (keeps_ioOk (f := fun s => s.disk.lastCommand) (fun _ _ => rfl) _ _ _ hio).trans hlast
      cases o' with
      | none =>
        obtain ⟨_, s6, -, hp⟩ := of_bind_ok hp
        cases hp
        cases h
        exact Or.inl rfl
      | some k =>
        cases hp
        cases h
        refine Or.inr ?_
        cases b with
        | false => cases hparse
        | true =>
          simp only [if_true] at hparse
          rw [get_bind, hdisk] at hparse
          cases hcontent : s.disk.lastCommand with
          | none =>
            simp only [hcontent] at hparse
            cases hparse
          | some content =>
            simp only [hcontent] at hparse
            exact (EStateM.Result.ok.inj hparse).1

variable (E) in
/-- The run gets to its loop with the saved index of the record, the first line that is not blank
holds a command, and its index is not beyond the saved one. -/
def SkipsFirst (L : String) (D : List UInt8) (p : Nat) (s : St) : Prop :=
  ∃ v s' n line rest, runTo E L D p 0 s = .ok (some v) s' ∧
    s.disk.lastCommand.bind (parseLastCommand E) = some v.savedLastCommandIndex ∧
    (parseHeader E L).lines = List.replicate n "" ++ line :: rest ∧
    (lineCommand E line).isSome = true ∧ beforeSaved v n = true

theorem beforeSaved_ne {v : LoopVars} {i : Nat} (h : beforeSaved v i = true) :
    v.savedLastCommandIndex ≠ -1 := by
  rw [beforeSaved, Bool.and_eq_true, decide_eq_true_eq, decide_eq_true_eq] at h
  unfold cmdIndex at h
  split at h
  · exact absurd rfl h.1
  · lia

theorem lineCommand_ne {line : String} (h : (lineCommand E line).isSome = true) : line ≠ "" := by
  rintro rfl
  simp [lineCommand] at h

/-- **Some command is skipped iff the first one is.** -/
theorem skips_iff (hw : E.canwrite = true) (L : String) (D : List UInt8) (p : Nat) (s : St) :
    (∃ i, Skips E L D p s i) ↔ SkipsFirst E L D p s := by
  constructor
  · rintro ⟨i, v, s', line, hrun, hline, hcmd, hi⟩
    rw [runTo_eq] at hrun
    obtain ⟨o, s0, h0, hrun⟩ := of_bind_ok hrun
    cases o with
    | none => cases hrun
    | some v0 =>
      dsimp only at hrun
      have hsaved : v.savedLastCommandIndex = v0.savedLastCommandIndex := by
        rw [commandsLoop_vars hw _ _ _ _ _ _ hrun]
      obtain ⟨n, first, rest, hn, hlines, hfirst⟩ := first_line hline (lineCommand_ne hcmd)
      have hv0 : beforeSaved v0 n = true := by
        rw [beforeSaved, ← hsaved]
        exact beforeSaved_of_le hn hi
      refine ⟨v0, s0, n, first, rest, h0, (runTo_zero_saved h0).resolve_left (beforeSaved_ne hv0),
        hlines, ?_, hv0⟩
      · rcases Nat.lt_or_eq_of_le hn with hlt | rfl
        · -- the loop has gone past the first command
          have htake : (parseHeader E L).lines.take i =
              List.replicate n "" ++ first :: rest.take (i - n - 1) := by
            obtain ⟨k, rfl⟩ : ∃ k, i = n + (k + 1) := ⟨i - n - 1, by omega⟩
            rw [hlines, List.take_append, List.length_replicate,
              List.take_of_length_le (by rw [List.length_replicate]; omega),
              show n + (k + 1) - n = k + 1 by omega, List.take_succ_cons]
            rfl
          rw [htake, commandsLoop_append, bind_ok (commandsLoop_blank v0 s0 n 0)] at hrun
          obtain ⟨o, s1, h1, h2⟩ := of_bind_ok hrun
          by_contra hnone
          rw [command_unknown _ _ _ hfirst (Option.not_isSome_iff_eq_none.1 hnone)] at h1
          cases h1
          cases h2
        · rw [hlines, List.getElem?_append_right (by simp), List.length_replicate,
            Nat.sub_self] at hline
          cases hline
          exact hcmd
  · rintro ⟨v, s', n, line, rest, h0, -, hlines, hcmd, hi⟩
    refine ⟨n, v, s', line, ?_, ?_, hcmd, hi⟩
    · rw [runTo_eq, bind_ok h0, hlines, List.take_left' List.length_replicate]
      exact commandsLoop_blank v s' n 0
    · rw [hlines, List.getElem?_append_right (by simp), List.length_replicate, Nat.sub_self]
      rfl

variable (E) in
/-- The claim of the record is checked by every skip. -/
def SkipSound (L : String) (D : List UInt8) (p : Nat) (s : St) : Prop :=
  ∀ i, Skips E.update L D p s i → Belongs E.update L s.disk.lastCommand

/-- **Skip soundness** holds exactly when the run skips nothing, because it does not get to its
loop or its first command is beyond the saved index, or when the record belongs to the list. -/
theorem skip_sound_iff (E : Env) (L : String) (D : List UInt8) (p : Nat) (s : St) :
    SkipSound E L D p s ↔
      ¬ SkipsFirst E.update L D p s ∨ Belongs E.update L s.disk.lastCommand := by
  rw [← skips_iff (E := E.update) rfl]
  constructor
  · intro h
    by_cases hs : ∃ i, Skips E.update L D p s i
    · exact Or.inr (h hs.choose hs.choose_spec)
    · exact Or.inl hs
  · rintro (h | h) i hi
    · exact absurd ⟨i, hi⟩ h
    · exact h

/-- A record of another list: the first command is skipped, though the list's line at index `5`
is not the one of the record. -/
theorem skip_unsound : ¬ ∀ (E : Env) (L : String) (D : List UInt8) (p : Nat) (s : St),
    SkipSound E L D p s := by
  intro h
  obtain ⟨_, index, cmdline, k, hc, hsplit, hk, hline⟩ := h .small "4\n1\n0\n0\nzero 2,0,1" [] 0
    (.zeros (some "5\nstash 00 2,2,3") []) 0
    ⟨⟨5, []⟩, _, "zero 2,0,1", rfl, by decide, by decide, by decide⟩
  cases hc
  have hrecord : Env.small.base.split (Env.small.base.trim "5\nstash 00 2,2,3") "\n" =
      ["5", "stash 00 2,2,3"] := by decide
  cases hsplit.symm.trans hrecord
  have hindex : Env.small.base.parseInt "5" (-INT_MAX - 1) INT_MAX = some 5 := by decide
  cases Int.ofNat.inj (Option.some.inj (hk.symm.trans hindex))
  revert hline
  decide

/-! ## The stream of new data -/

variable (E) in
/-- The bytes meant for the `new` commands of `lines` that are before the saved one. -/
def skippedBytes (v : LoopVars) : List String → Nat → Nat
  | [], _ => 0
  | line :: lines, i =>
    (if beforeSaved v i = true then newBytes E line else 0) + skippedBytes v lines (i + 1)

theorem executedBytes_add_skippedBytes (v : LoopVars) : ∀ (lines : List String) (i : Nat),
    executedBytes E v lines i + skippedBytes E v lines i = listBytes E lines
  | [], _ => rfl
  | line :: lines, i => by
    have ih := executedBytes_add_skippedBytes v lines (i + 1)
    rw [executedBytes, skippedBytes]
    simp only [listBytes, List.map_cons, List.sum_cons] at ih ⊢
    split <;> lia

variable (E) in
/-- The run executes the `new` command of line `i`, from state `s'`. -/
structure ExecutesNew (L : String) (D : List UInt8) (p : Nat) (s : St) (i : Nat) (line : String)
    (v : LoopVars) (s' : St) : Prop where
  reached : runTo E L D p i s = .ok (some v) s'
  line_eq : (parseHeader E L).lines[i]? = some line
  isNew : lineCommand E line = some .new
  notBefore : beforeSaved v i = false

theorem runTo_stream (hw : E.canwrite = true) {L : String} {D : List UInt8} {p i : Nat}
    {v : LoopVars} {s s' : St} (h : runTo E L D p i s = .ok (some v) s') :
    v.stream = D.drop (executedBytes E v ((parseHeader E L).lines.take i) 0) := by
  unfold runTo at h
  cases hh : parseHeader E L with
  | bad => rw [hh] at h; cases h
  | nothing => rw [hh] at h; cases h
  | commands version stashMaxBlocks lines =>
    rw [hh] at h
    obtain ⟨_, s1, -, h⟩ := of_bind_ok h
    obtain ⟨o, s2, -, h⟩ := of_bind_ok h
    cases o with
    | none => cases h
    | some saved =>
      have hv := commandsLoop_vars hw _ _ _ _ _ _ h
      rw [executedBytes_congr (v := ⟨saved, D⟩) (by rw [hv]), hv]
      rfl

/-- **New data under resume.**  An executed `new` that completes fills its target with the bytes
`v.stream.take n` of the stream; they are its own slice, the one after the bytes of all earlier
`new` commands, exactly when the stream has the same `n` bytes after those of the executed ones
alone. -/
theorem new_aligned_iff (E : Env) (L : String) (D : List UInt8) (p : Nat) (s : St) (i : Nat)
    (line : String) (v : LoopVars) (s' : St) (h : ExecutesNew E.update L D p s i line v s') :
    (∀ v' s'', command E.update line i v s' = .ok (some v') s'' →
      s''.disk.dev = fill s'.disk.dev
        (byteAddrs (RangeSet.parse E.base ((E.base.split line " ").getD 1 "")).ranges)
        (v.stream.take (newBytes E.update line))) ∧
    (v.stream.take (newBytes E.update line) =
        (D.drop (listBytes E.update ((parseHeader E.update L).lines.take i))).take
          (newBytes E.update line) ↔
      (D.drop (executedBytes E.update v ((parseHeader E.update L).lines.take i) 0)).take
          (newBytes E.update line) =
        (D.drop (executedBytes E.update v ((parseHeader E.update L).lines.take i) 0 +
          skippedBytes E.update v ((parseHeader E.update L).lines.take i) 0)).take
          (newBytes E.update line)) := by
  refine ⟨fun v' s'' hc => ?_, ?_⟩
  · rw [command_execute s' rfl h.isNew h.notBefore] at hc
    obtain ⟨⟨rc, stream⟩, s1, h1, hc⟩ := of_bind_ok hc
    dsimp only at hc
    split at hc
    · cases hc
    · obtain ⟨name, token, rest, htokens, -, hdev⟩ := performCommandNew_ok rfl rfl h1 ‹_›
      obtain ⟨b, s2, hio, hc⟩ := of_bind_ok hc
      have hkeep : s2.disk.dev = s1.disk.dev :=
        keeps_ioOk (f := fun s => s.disk.dev) (fun _ _ => rfl) _ _ _ hio
      have htokens : E.base.split line " " = name :: token :: rest := htokens
      have hn : newBytes E.update line = (RangeSet.parse E.base token).blocks * BLOCKSIZE := by
        rw [newBytes, h.isNew]
        show CommandName.takes _ _ (E.base.split line " ") = _
        rw [htokens]
        rfl
      cases b with
      | false => cases hc
      | true =>
        cases hc
        rw [hkeep, hdev, hn, htokens]
        rfl
  · rw [executedBytes_add_skippedBytes, runTo_stream rfl h.reached]

/-- A list is taken up after its first `new`, and both have the same data: the second gets its own
slice, although the stream starts again with that of the first. -/
theorem new_aligned_resumed : ∃ D v s', D = List.replicate (BLOCKSIZE + BLOCKSIZE) 1 ∧
    ExecutesNew Env.small.update "4\n2\n0\n0\nnew 2,0,1\nnew 2,1,2" D 0
      (.zeros (some "0\nnew 2,0,1") []) 1 "new 2,1,2" v s' ∧
    v.savedLastCommandIndex = 0 ∧
    v.stream.take (newBytes Env.small.update "new 2,1,2") = (D.drop BLOCKSIZE).take BLOCKSIZE := by
  obtain ⟨D, hD⟩ : ∃ D : List UInt8, D = List.replicate (BLOCKSIZE + BLOCKSIZE) 1 := ⟨_, rfl⟩
  obtain ⟨L, hL⟩ : ∃ L, L = "4\n2\n0\n0\nnew 2,0,1\nnew 2,1,2" := ⟨_, rfl⟩
  rw [← hL]
  have hcheck : returnedWith (runTo Env.small.update L D 0 1 (.zeros (some "0\nnew 2,0,1") []))
      (fun o _ => match o with
        | some v => v.savedLastCommandIndex == 0
        | none => false) = true := by
    subst hL hD
    decide +kernel
  obtain ⟨o, s', hreach, hv⟩ := of_returnedWith hcheck
  cases o with
  | none => cases hv
  | some v =>
    have hsaved : v.savedLastCommandIndex = 0 := eq_of_beq hv
    have hexec : ExecutesNew Env.small.update L D 0 _ 1 "new 2,1,2" v s' :=
      ⟨hreach, by subst hL; decide, by decide, by rw [beforeSaved, hsaved]; decide⟩
    have hbytes : newBytes Env.small.update "new 2,1,2" = BLOCKSIZE ∧
        listBytes Env.small.update ((parseHeader Env.small.update L).lines.take 1) = BLOCKSIZE := by
      subst hL
      decide +kernel
    have hsum := executedBytes_add_skippedBytes (E := Env.small.update) v
      ((parseHeader Env.small.update L).lines.take 1) 0
    have hslice := (new_aligned_iff _ _ _ _ _ _ _ _ _ hexec).2
    rw [hbytes.1, hbytes.2] at hslice
    refine ⟨D, v, s', hD, hexec, hsaved, ?_⟩
    rw [hbytes.1]
    refine hslice.2 ?_
    rw [hbytes.2] at hsum
    rw [hsum, hD, List.drop_replicate, List.drop_replicate, List.take_replicate,
      List.take_replicate]
    congr 1
    omega

/-- An update of a list with two `new` commands is interrupted after the `stash` between them; the
one after it then gets the slice of the first. -/
theorem new_misaligned : ¬ ∀ (E : Env) (L : String) (D : List UInt8) (p : Nat) (s crashed : St)
    (fates : List Fate) (i : Nat) (line : String) (v : LoopVars) (s' : St),
    blockImageUpdate E L D p s = .error .crash crashed →
    D.length = listBytes E.update (parseHeader E.update L).lines →
    ExecutesNew E.update L D p (reboot crashed fates) i line v s' →
    v.stream.take (newBytes E.update line) =
      (D.drop (listBytes E.update ((parseHeader E.update L).lines.take i))).take
        (newBytes E.update line) := by
  intro h
  obtain ⟨L, hL⟩ : ∃ L, L = "4\n2\n0\n1\nnew 2,0,1\nstash 00 2,2,3\nnew 2,1,2" := ⟨_, rfl⟩
  obtain ⟨D, hD⟩ : ∃ D : List UInt8, D = List.replicate BLOCKSIZE 1 ++ List.replicate BLOCKSIZE 2 :=
    ⟨_, rfl⟩
  have hcheck : stoppedWith (blockImageUpdate .small L D 0
      (.zeros none (List.replicate 15 .ok ++ [.crash 0]))) .crash (fun crashed =>
    returnedWith (runTo Env.small.update L D 0 2 (reboot crashed [])) fun o _ =>
      match o with
      | some v => !beforeSaved v 2 && v.stream.head? == some 1
      | none => false) = true := by
    subst hL hD
    decide +kernel
  obtain ⟨crashed, hrun, hreturned⟩ := of_stoppedWith hcheck
  obtain ⟨o, s', hreach, hv⟩ := of_returnedWith hreturned
  cases o with
  | none => cases hv
  | some v =>
    simp only [Bool.and_eq_true, Bool.not_eq_true', beq_iff_eq] at hv
    have hbytes : newBytes Env.small.update "new 2,1,2" = BLOCKSIZE ∧
        listBytes Env.small.update ((parseHeader Env.small.update L).lines.take 2) = BLOCKSIZE ∧
        listBytes Env.small.update (parseHeader Env.small.update L).lines =
          BLOCKSIZE + BLOCKSIZE := by
      subst hL
      decide +kernel
    have hslice := h .small L D 0 _ crashed [] 2 "new 2,1,2" v s' hrun
      (by rw [hbytes.2.2, hD, List.length_append, List.length_replicate, List.length_replicate])
      ⟨hreach, by subst hL; decide, by decide, hv.1⟩
    rw [hbytes.1, hbytes.2.1, hD, List.drop_left' List.length_replicate] at hslice
    -- the stream in hand starts with a `1`, the slice of the command with a `2`
    have hhead := congrArg List.head? hslice
    rw [List.head?_take, List.head?_take, hv.2] at hhead
    simp [BLOCKSIZE] at hhead

end Recovery.BlockImg
