import Recovery.OpenRecoveryScript.Script

/-!
# The lines of a script (`openrecoveryscript.cpp`)

* `split` — a line that `fgets` has read, as the command and the value that it is split into.
  `parseLine_eq`: no buffer is too small for them.
* `runScriptFile_eq` — a run executes the commands of the script up to the first that fails.
* `Line`, `script` — the lines that a script is to consist of.
* `commands_line` — a line that fits is one command.
* `one_command_per_line_iff` — exactly when a run executes the lines: they fit, and no value begins
  with `3`.
* `lost_digit` — the value `3.zip` is executed without its first character.
-/

set_option autoImplicit false

namespace Recovery.OpenRecoveryScript

open Recovery.Lib

/-! ## Splitting -/

def removeNl (s : List UInt8) : Nat := if s.getLast? = some newline then 2 else 1

def blankIndex (s : List UInt8) : Nat := (s.findIdx? (· = 32)).getD 0

def valStart (s : List UInt8) : List UInt8 := skip 32 (skip 51 (skip 32 s))

def split (s : List UInt8) : Command :=
  if blankIndex s ≠ 0 then
    ⟨s.take (blankIndex s),
      (valStart (s.drop (blankIndex s + 1))).take (s.length - blankIndex s - removeNl s), true⟩
  else ⟨s.take (s.length - removeNl s + 1), [], false⟩

/-- The bytes of a line that a command takes. -/
def Command.size (c : Command) : Nat :=
  c.command.length + if c.given then c.value.length + 1 else 0

theorem removeNl_le (s : List UInt8) : removeNl s ≤ 2 := by
  unfold removeNl
  split <;> lia

theorem one_le_removeNl (s : List UInt8) : 1 ≤ removeNl s := by
  unfold removeNl
  split <;> lia

/-- The blank stands in front of the newline. -/
theorem blankIndex_add_le {s : List UInt8} (h : blankIndex s ≠ 0) :
    blankIndex s + removeNl s ≤ s.length := by
  unfold blankIndex at h ⊢
  cases hi : s.findIdx? (· = 32) with
  | none =>
    rw [hi] at h
    exact absurd rfl h
  | some i =>
    obtain ⟨hlt, hblank, -⟩ := List.findIdx?_eq_some_iff_getElem.1 hi
    have hget : s[i] = 32 := by simpa using hblank
    rw [Option.getD_some]
    unfold removeNl
    split
    · rename_i hlast
      have hne : i ≠ s.length - 1 := by
        rintro rfl
        rw [List.getLast?_eq_getElem?, List.getElem?_eq_getElem hlt, hget] at hlast
        cases hlast
      lia
    · lia

theorem strncpy_ok {b : Buffer} {s : List UInt8} {n : Nat} (h : n ≤ b.size) :
    strncpy b s n = .ok (s.take n) := by
  rw [strncpy, if_neg (by lia)]
  rfl

/-- **A line is split without a fault.** -/
theorem parseLine_eq {s : List UInt8} (hlong : 2 ≤ s.length) (hfit : s.length < SCRIPT_COMMAND_SIZE) :
    parseLine s = .ok (some (split s)) := by
  have hnl := removeNl_le s
  have hnl' := one_le_removeNl s
  have hremove : (if s.getLast? = some newline then (2 : Int) else 1) = (removeNl s : Nat) := by
    unfold removeNl
    split <;> rfl
  have hcommand : Buffer.command.size = SCRIPT_COMMAND_SIZE := rfl
  have hvalue : Buffer.value.size = SCRIPT_COMMAND_SIZE := rfl
  have hblank : (s.findIdx? (· = 32)).getD 0 = blankIndex s := rfl
  have hstart : ∀ t, skip 32 (skip 51 (skip 32 t)) = valStart t := fun _ => rfl
  unfold parseLine split
  simp only [hremove, hblank, hstart]
  rw [if_neg (by lia)]
  by_cases hindex : blankIndex s ≠ 0
  · have hle := blankIndex_add_le hindex
    have hsub : (s.length : Int) - blankIndex s - (removeNl s : Nat) =
        ((s.length - blankIndex s - removeNl s : Nat) : Int) := by lia
    rw [if_pos hindex, if_pos hindex, hsub, strncpy_ok (by lia), strncpy_ok (by lia)]
    rfl
  · have hsub : (s.length : Int) - (removeNl s : Nat) + 1 =
        ((s.length - removeNl s + 1 : Nat) : Int) := by lia
    rw [if_neg hindex, if_neg hindex, hsub, strncpy_ok (by lia)]
    rfl

theorem skip_length_le (c : UInt8) (s : List UInt8) : (skip c s).length ≤ s.length := by
  cases s with
  | nil => exact Nat.le_refl 0
  | cons b s =>
    rw [skip]
    split
    · exact Nat.le_succ _
    · exact Nat.le_refl _

/-- A command takes no more than its line. -/
theorem size_split_le (s : List UInt8) : (split s).size ≤ s.length := by
  have hnl := one_le_removeNl s
  have hnl' := removeNl_le s
  unfold split
  split
  · rename_i hindex
    have hle := blankIndex_add_le hindex
    simp only [Command.size, if_true, List.length_take]
    omega
  · simp only [Command.size, Bool.false_eq_true, if_false, List.length_take]
    omega

/-! ## Runs -/

section

variable {σ : Type} (exec : Command → σ → Except Fault (Int × σ))

/-- Commands are executed up to the first that fails. -/
def runCommands : List Command → σ → List Command × Except Fault (Int × σ)
  | [], s => ([], .ok (0, s))
  | c :: rest, s =>
    match exec c s with
    | .error f => ([c], .error f)
    | .ok (ret_val, s) =>
      if ret_val = 0 then
        let (cs, r) := runCommands rest s
        (c :: cs, r)
      else ([c], .ok (ret_val, s))

def commandsOf (chunks : List (List UInt8)) : List Command :=
  (chunks.filter fun chunk => 2 ≤ (cString chunk).length).map fun chunk => split (cString chunk)

/-- The commands that a script is split into. -/
def commands (file : List UInt8) : List Command :=
  commandsOf (chunks (SCRIPT_COMMAND_SIZE - 1) file)

theorem cString_length_le (chunk : List UInt8) : (cString chunk).length ≤ chunk.length :=
  (List.takeWhile_prefix _).length_le

theorem runLines_eq {lines : List (List UInt8)}
    (hfit : ∀ chunk ∈ lines, chunk.length < SCRIPT_COMMAND_SIZE) (s : σ) :
    runLines exec lines s = runCommands exec (commandsOf lines) s := by
  induction lines generalizing s with
  | nil => rfl
  | cons chunk rest ih =>
    obtain ⟨hchunk, hrest⟩ := List.forall_mem_cons.1 hfit
    have hle := cString_length_le chunk
    rw [runLines, commandsOf]
    by_cases hlong : 2 ≤ (cString chunk).length
    · rw [parseLine_eq hlong (by lia), List.filter_cons_of_pos (by simpa using hlong),
        List.map_cons, runCommands, ← commandsOf]
      dsimp only
      cases exec (split (cString chunk)) s with
      | error f => rfl
      | ok r =>
        obtain ⟨ret_val, s'⟩ := r
        by_cases hzero : ret_val = 0
        · simp only [if_pos hzero, ih hrest]
        · simp only [if_neg hzero]
    · have hshort : parseLine (cString chunk) = .ok none := by
        unfold parseLine
        rw [if_pos (by lia)]
      rw [hshort, List.filter_cons_of_neg (by simpa using hlong), ← commandsOf]
      exact ih hrest s

/-- **A run executes the commands of the script**, up to the first that fails. -/
theorem runScriptFile_eq (file : List UInt8) (s : σ) :
    runScriptFile exec file s = runCommands exec (commands file) s := by
  refine runLines_eq exec (fun chunk hchunk => ?_) s
  have hle := length_le_of_mem_chunks (by decide) hchunk
  unfold SCRIPT_COMMAND_SIZE at hle ⊢
  omega

end

/-! ## Scripts of lines -/

/-- A line: a command, and a value behind a blank. -/
structure Line where
  command : List UInt8
  value : Option (List UInt8)
  command_ne : command ≠ []
  command_clean : ∀ c ∈ command, c ≠ 32 ∧ c ≠ newline ∧ c ≠ 0
  value_clean : ∀ v ∈ value, ∀ c ∈ v, c ≠ newline ∧ c ≠ 0
  /-- The value does not begin with a blank or `=`. -/
  value_start : ∀ v ∈ value, v.head? ≠ some 32 ∧ v.head? ≠ some 61

namespace Line

variable (line : Line)

def text : List UInt8 := line.command ++ line.value.elim [] (32 :: ·)

/-- What is to be executed. -/
def intended : Command := ⟨line.command, line.value.getD [], line.value.isSome⟩

/-- The value begins with `3`. -/
def beginsWith3 : Bool := (line.value.bind List.head?) = some 51

theorem clean {c : UInt8} (h : c ∈ line.text) : c ≠ newline ∧ c ≠ 0 := by
  obtain h | h := List.mem_append.1 h
  · exact (line.command_clean c h).2
  · cases hv : line.value with
    | none =>
      rw [hv] at h
      cases h
    | some v =>
      rw [hv] at h
      obtain rfl | h := List.mem_cons.1 h
      · decide
      · exact line.value_clean v hv c h

theorem newline_notMem : newline ∉ line.text := fun h => (line.clean h).1 rfl

theorem text_ne : line.text ≠ [] := List.append_ne_nil_of_left_ne_nil line.command_ne _

theorem size_intended : line.intended.size = line.text.length := by
  unfold intended text Command.size
  cases line.value with
  | none => simp
  | some v => simp

end Line

/-- Lines that are terminated, and perhaps a last one that is not. -/
def script (lines : List Line) (last : Option Line) : List UInt8 :=
  (lines.map fun line => line.text ++ [newline]).flatten ++ last.elim [] Line.text

/-- Lines are appended by `Insert_ORS_Command`. -/
theorem script_concat (lines : List Line) (line : Line) :
    script (lines ++ [line]) none = insertORSCommand (script lines none) line.text := by
  simp [script, insertORSCommand]

namespace Line

variable (line : Line) {e : List UInt8}

theorem removeNl_text (he : e = [] ∨ e = [newline]) : removeNl (line.text ++ e) = e.length + 1 := by
  unfold removeNl
  obtain rfl | rfl := he
  · rw [List.append_nil, if_neg fun h => line.newline_notMem (List.mem_of_getLast? h)]
    rfl
  · rw [List.getLast?_concat, if_pos rfl]
    rfl

theorem findIdx?_command : line.command.findIdx? (· = 32) = none :=
  List.findIdx?_eq_none_iff.2 fun c hc => by simpa using (line.command_clean c hc).1

theorem blankIndex_some {v : List UInt8} (hv : line.value = some v) :
    blankIndex (line.text ++ e) = line.command.length := by
  unfold blankIndex text
  rw [hv, List.append_assoc, List.findIdx?_append, findIdx?_command]
  simp [List.findIdx?_cons]

theorem blankIndex_none (hv : line.value = none) (he : e = [] ∨ e = [newline]) :
    blankIndex (line.text ++ e) = 0 := by
  unfold blankIndex text
  rw [hv]
  obtain rfl | rfl := he
  · simp [findIdx?_command]
  · rw [Option.elim_none, List.append_nil, List.findIdx?_append, findIdx?_command]
    rfl

theorem command_pos : line.command.length ≠ 0 := fun h =>
  line.command_ne (List.length_eq_zero_iff.1 h)

/-- A value is taken from behind the blank. -/
theorem split_some {v : List UInt8} (hv : line.value = some v) (he : e = [] ∨ e = [newline]) :
    split (line.text ++ e) = ⟨line.command, (valStart (v ++ e)).take v.length, true⟩ := by
  have hlen : (line.text ++ e).length = line.command.length + (v.length + 1) + e.length := by
    simp [text, hv]
    lia
  have hdrop : (line.text ++ e).drop (line.command.length + 1) = v ++ e := by
    rw [text, hv, Option.elim_some, List.append_assoc, List.drop_append]
    simp
  have htake : (line.text ++ e).take line.command.length = line.command := by
    rw [text, List.append_assoc, List.take_left]
  unfold split
  rw [line.blankIndex_some hv, if_pos line.command_pos, htake, hdrop, line.removeNl_text he, hlen]
  congr 2
  lia

theorem skip_of_head? {c : UInt8} {s : List UInt8} (h : s.head? ≠ some c) : skip c s = s := by
  cases s with
  | nil => rfl
  | cons b s => exact if_neg fun hb => h (by rw [hb]; rfl)

theorem head?_append_ne {c : UInt8} {v : List UInt8} (hv : v.head? ≠ some c)
    (he : e = [] ∨ e = [newline]) (hc : c ≠ newline) : (v ++ e).head? ≠ some c := by
  cases v with
  | nil =>
    obtain rfl | rfl := he
    · exact hv
    · exact fun h => hc (Option.some.inj h).symm
  | cons b v => exact hv

/-- **A line is split into its command and its value.** -/
theorem split_text (h3 : line.beginsWith3 = false) (he : e = [] ∨ e = [newline]) :
    split (line.text ++ e) = line.intended := by
  cases hv : line.value with
  | none =>
    have htext : line.text = line.command := by simp [text, hv]
    unfold split
    rw [line.blankIndex_none hv he, if_neg (not_not.2 rfl), line.removeNl_text he, htext, intended, hv,
      List.length_append]
    have htake : line.command.length + e.length - (e.length + 1) + 1 = line.command.length := by
      have hpos := line.command_pos
      lia
    rw [htake, List.take_left]
    rfl
  | some v =>
    have hhead : v.head? ≠ some 51 := by simpa [beginsWith3, hv] using h3
    have hblank := (line.value_start v hv).1
    have hskip := skip_of_head? (head?_append_ne hblank he (by decide))
    have hskip3 := skip_of_head? (head?_append_ne hhead he (by decide))
    rw [line.split_some hv he, valStart, hskip, hskip3, hskip, List.take_left, intended, hv]
    rfl

/-- A value that begins with `3` is not what is executed. -/
theorem split_text_ne (h3 : line.beginsWith3 = true) (he : e = [] ∨ e = [newline]) :
    split (line.text ++ e) ≠ line.intended := by
  obtain ⟨v, hv, hhead⟩ : ∃ v, line.value = some v ∧ v.head? = some 51 := by
    simpa [beginsWith3, Option.bind_eq_some_iff] using h3
  obtain ⟨t, rfl⟩ := List.head?_eq_some_iff.1 hhead
  intro heq
  rw [line.split_some hv he, intended, hv] at heq
  have hval : (valStart (51 :: t ++ e)).take (t.length + 1) = 51 :: t :=
    congrArg Command.value heq
  have hstart : valStart (51 :: t ++ e) = skip 32 (t ++ e) := by simp [valStart, skip]
  have hle := skip_length_le 32 (t ++ e)
  rw [hstart] at hval
  have hlen := congrArg List.length hval
  rw [List.length_take, List.length_cons] at hlen
  rw [List.length_append] at hle
  -- the newline has been taken with the rest of the value
  have hmem : newline ∈ (51 : UInt8) :: t := by
    obtain rfl | rfl := he
    · rw [List.length_nil] at hle
      lia
    · have hall : (skip 32 (t ++ [newline])).length = t.length + 1 := by
        rw [List.length_singleton] at hle
        lia
      rw [← hval, List.take_of_length_le (by lia)]
      have hlast : newline ∈ t ++ [newline] := by simp
      cases hs : t ++ [newline] with
      | nil => simp at hs
      | cons b s =>
        rw [hs, skip] at hall
        split at hall
        · have htail := congrArg List.length hs
          rw [List.length_append, List.length_singleton, List.length_cons] at htail
          lia
        · rename_i hb
          rw [skip, if_neg hb, ← hs]
          exact hlast
  exact (line.value_clean _ hv newline hmem).1 rfl

theorem cString_eq {s : List UInt8} (h : ∀ c ∈ s, c ≠ 0) : cString s = s :=
  List.takeWhile_eq_self_iff.2 fun c hc => by simpa using h c hc

/-- A line in the buffer is what `fgets` has read. -/
theorem cString_text (he : e = [] ∨ e = [newline]) : cString (line.text ++ e) = line.text ++ e := by
  refine cString_eq fun c hc => ?_
  obtain hc | hc := List.mem_append.1 hc
  · exact (line.clean hc).2
  · obtain rfl | rfl := he
    · cases hc
    · rw [List.mem_singleton.1 hc]
      decide

end Line

/-! ## Whole scripts -/

theorem commandsOf_cons {chunk : List UInt8} (h : 2 ≤ (cString chunk).length)
    (rest : List (List UInt8)) :
    commandsOf (chunk :: rest) = split (cString chunk) :: commandsOf rest := by
  rw [commandsOf, List.filter_cons_of_pos (by simpa using h)]
  rfl

theorem commandsOf_short {chunk : List UInt8} (h : chunk.length < 2) (rest : List (List UInt8)) :
    commandsOf (chunk :: rest) = commandsOf rest := by
  have hle := cString_length_le chunk
  rw [commandsOf, List.filter_cons_of_neg (by simp; lia)]
  rfl

/-- What `fgets` leaves of a newline that the buffer has no room for is skipped. -/
theorem commands_newline (rest : List UInt8) : commands (newline :: rest) = commands rest := by
  have hchunk := @chunksFrom_line (SCRIPT_COMMAND_SIZE - 1) (SCRIPT_COMMAND_SIZE - 1) [] nofun
    (by decide) [] rest
  unfold commands chunks
  rw [List.nil_append] at hchunk
  rw [hchunk]
  exact commandsOf_short (by decide) _

/-- **A line that fits is one command**, with its newline or without. -/
theorem commands_line (line : Line) (hfit : line.text.length < SCRIPT_COMMAND_SIZE)
    (rest : List UInt8) :
    ∃ e, (e = [] ∨ e = [newline]) ∧
      commands (line.text ++ newline :: rest) = split (line.text ++ e) :: commands rest := by
  have hpos := List.length_pos_iff.2 line.text_ne
  by_cases hroom : line.text.length < SCRIPT_COMMAND_SIZE - 1
  · refine ⟨[newline], .inr rfl, ?_⟩
    have hchunk := chunksFrom_line (n := SCRIPT_COMMAND_SIZE - 1) line.newline_notMem hroom [] rest
    unfold commands
    rw [chunks, hchunk, List.nil_append, commandsOf_cons, line.cString_text (.inr rfl)]
    rw [line.cString_text (.inr rfl), List.length_append, List.length_singleton]
    lia
  · refine ⟨[], .inl rfl, ?_⟩
    have hfull : line.text.length = SCRIPT_COMMAND_SIZE - 1 := by lia
    have hchunk := chunksFrom_cut (n := SCRIPT_COMMAND_SIZE - 1) line.newline_notMem line.text_ne
      hfull [] (newline :: rest)
    have hcstring := line.cString_text (.inl rfl)
    rw [List.append_nil] at hcstring
    have hrest := commands_newline rest
    unfold commands at hrest ⊢
    rw [chunks, hchunk, List.nil_append, commandsOf_cons, hcstring, hrest, List.append_nil]
    rw [hcstring, hfull]
    decide

/-- The last line is read to the end of the file. -/
theorem commands_last (line : Line) (hfit : line.text.length < SCRIPT_COMMAND_SIZE) :
    commands line.text = if line.text.length = 1 then [] else [split line.text] := by
  have hpos := List.length_pos_iff.2 line.text_ne
  have hchunk := @chunksFrom_last (SCRIPT_COMMAND_SIZE - 1) (SCRIPT_COMMAND_SIZE - 1) line.text
    line.newline_notMem line.text_ne (by lia) []
  have hcstring := line.cString_text (.inl rfl)
  rw [List.append_nil] at hcstring
  unfold commands
  rw [chunks, hchunk, List.nil_append]
  split
  · rw [commandsOf_short (by lia)]
    rfl
  · rw [commandsOf_cons (by rw [hcstring]; lia), hcstring]
    rfl

/-- No command takes more than the buffer. -/
theorem size_lt_of_mem_commands {file : List UInt8} {c : Command} (h : c ∈ commands file) :
    c.size < SCRIPT_COMMAND_SIZE := by
  obtain ⟨chunk, hchunk, rfl⟩ := List.mem_map.1 h
  have hfit := length_le_of_mem_chunks (by decide) (List.mem_of_mem_filter hchunk)
  have hle := cString_length_le chunk
  have hsize := size_split_le (cString chunk)
  unfold SCRIPT_COMMAND_SIZE at hfit ⊢
  lia

/-- A line fits into the buffer, and the first character of its value is not `3`. -/
def Line.Plain (line : Line) : Prop :=
  line.text.length < SCRIPT_COMMAND_SIZE ∧ line.beginsWith3 = false

theorem script_cons (line : Line) (lines : List Line) (last : Option Line) :
    script (line :: lines) last = line.text ++ newline :: script lines last := by
  simp [script]

/-- The commands of a script are its lines, exactly when all lines are plain. -/
theorem commands_script_iff (lines : List Line) (last : Option Line) :
    commands (script lines last) = (lines ++ last.toList).map Line.intended ↔
      (∀ line ∈ lines ++ last.toList, line.Plain) ∧ ∀ line ∈ last, line.text.length ≠ 1 := by
  by_cases hfits : ∀ line ∈ lines ++ last.toList, line.text.length < SCRIPT_COMMAND_SIZE
  · induction lines with
    | nil =>
      cases last with
      | none => exact ⟨fun _ => ⟨nofun, nofun⟩, fun _ => rfl⟩
      | some line =>
        have hfit := hfits line (by simp)
        have hscript : script [] (some line) = line.text := rfl
        rw [hscript, commands_last line hfit]
        by_cases hone : line.text.length = 1
        · rw [if_pos hone]
          exact ⟨nofun, fun h => absurd hone (h.2 line rfl)⟩
        · rw [if_neg hone]
          have hnil : line.text = line.text ++ [] := (List.append_nil _).symm
          constructor
          · intro heq
            have hsplit : split line.text = line.intended := (List.cons.inj heq).1
            refine ⟨?_, ?_⟩
            · intro line' hmem
              rw [List.nil_append, Option.toList_some, List.mem_singleton] at hmem
              subst hmem
              refine ⟨hfit, Bool.eq_false_iff.2 fun h3 => ?_⟩
              rw [hnil] at hsplit
              exact line'.split_text_ne h3 (.inl rfl) hsplit
            · intro line' hline'
              cases hline'
              exact hone
          · rintro ⟨hplain, -⟩
            have h3 := (hplain line (by simp)).2
            rw [hnil, line.split_text h3 (.inl rfl)]
            rfl
    | cons line lines ih =>
      obtain ⟨hfit, hrest⟩ := List.forall_mem_cons.1 hfits
      obtain ⟨e, he, hcommands⟩ := commands_line line hfit (script lines last)
      have hthis : split (line.text ++ e) = line.intended ↔ line.Plain := by
        constructor
        · intro heq
          exact ⟨hfit, Bool.eq_false_iff.2 fun h3 => line.split_text_ne h3 he heq⟩
        · exact fun h => line.split_text h.2 he
      rw [script_cons, hcommands, List.cons_append, List.map_cons, List.cons.injEq, ih hrest, hthis,
        List.forall_mem_cons, and_assoc]
  · obtain ⟨line, hmem, hlong⟩ : ∃ line ∈ lines ++ last.toList,
        ¬ line.text.length < SCRIPT_COMMAND_SIZE := by
      simpa only [not_forall, exists_prop] using hfits
    constructor
    · intro heq
      have hin : line.intended ∈ commands (script lines last) := by
        rw [heq]
        exact List.mem_map_of_mem hmem
      have hsize := size_lt_of_mem_commands hin
      rw [line.size_intended] at hsize
      exact absurd hsize hlong
    · exact fun h => absurd (h.1 line hmem).1 hlong

/-- Without a failure all commands are executed. -/
theorem runCommands_all (cs : List Command) :
    (runCommands (fun _ (u : Unit) => .ok (0, u)) cs ()).1 = cs := by
  induction cs with
  | nil => rfl
  | cons c cs ih =>
    rw [runCommands]
    simp only [if_true, ih]

/-- **When a run executes its lines**: it executes one command for each line, with its command and
its value, up to the first that fails, exactly when all lines fit into the buffer, no value begins
with `3`, and a last line without a newline has not just one character. -/
theorem one_command_per_line_iff (lines : List Line) (last : Option Line) :
    (∀ (σ : Type) (exec : Command → σ → Except Fault (Int × σ)) (s : σ),
      runScriptFile exec (script lines last) s =
        runCommands exec ((lines ++ last.toList).map Line.intended) s) ↔
      (∀ line ∈ lines ++ last.toList, line.Plain) ∧ ∀ line ∈ last, line.text.length ≠ 1 := by
  rw [← commands_script_iff]
  constructor
  · intro h
    have hall := congrArg Prod.fst (h Unit (fun _ u => .ok (0, u)) ())
    rw [runScriptFile_eq, runCommands_all, runCommands_all] at hall
    exact hall
  · intro heq σ exec s
    rw [runScriptFile_eq, heq]

/-- `install 3.zip`. -/
def installLine : Line where
  command := text "install"
  value := some (text "3.zip")
  command_ne := by decide
  command_clean := by decide +kernel
  value_clean := by decide +kernel
  value_start := by decide +kernel

/-- What is installed is the file `.zip`, with the newline at the end of its name. -/
theorem lost_digit : ¬ ∀ (σ : Type) (exec : Command → σ → Except Fault (Int × σ)) (s : σ),
    runScriptFile exec (script [installLine] none) s =
      runCommands exec [installLine.intended] s := by
  intro h
  have hall := congrArg Prod.fst (h Unit (fun _ u => .ok (0, u)) ())
  exact absurd hall (by decide)

end Recovery.OpenRecoveryScript
