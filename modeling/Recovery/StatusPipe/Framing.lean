import Recovery.StatusPipe.Pipe

/-!
# Framing on the status pipe

* `Line.command`, `Message.commands` — what the updater asks for.
* `Line.Fits` — nothing but blanks is behind what the buffer of a reader shows of a text.
* `tryUpdateBinary_lines`, `runUpdateBinary_lines` — both readers, on lines.
* `Complete` — a buffer whose command has its arguments.
* `framing_iff` — the readers execute what was asked for exactly if all texts fit, and TWRP's reader
  has all arguments exactly if all buffers are complete.

Both readers use `fgets` with a buffer of 1024 bytes, of which a command takes the first few; a
longer text goes on as a line of its own and may be a command (`longText_wipes`).
-/

set_option autoImplicit false

namespace Recovery.StatusPipe

open Recovery.Lib

variable {lib : Libbase}

/-! ## What is asked for -/

/-- A text counts up to the blanks around it. -/
def Line.command : Line lib → Executed
  | uiPrint text => .uiPrint (strip text.1)
  | progress fraction seconds => .progress fraction.text seconds.text
  | setProgress fraction => .setProgress fraction.text
  | wipeCache => .wipeCache
  | enableReboot => .enableReboot
  | retryUpdate => .retryUpdate
  | log text => .log (strip text.1)

/-- Every nonempty line of a text is displayed. -/
def Message.commands : Message lib → List Executed
  | .uiPrint text => ((text.1.splitOn newline).filter (· ≠ [])).map fun line =>
      .uiPrint (strip line)
  | .line l => [l.command]

/-- The commands that TWRP has. -/
def Executed.inTwrp : Executed → Bool
  | clearDisplay | enableReboot | retryUpdate => false
  | _ => true

/-- Without the blanks around a text. -/
def Executed.stripped : Executed → Executed
  | uiPrint text => .uiPrint (strip text)
  | log text => .log (strip text)
  | e => e

/-- Both readers execute the commands they support, in order. -/
def Faithful (messages : List (Message lib)) : Prop :=
  tryUpdateBinary lib (written messages) = messages.flatMap Message.commands ∧
  (runUpdateBinary (written messages)).map (·.map Executed.stripped) =
    some ((messages.flatMap Message.commands).filter Executed.inTwrp)

/-- Behind what `room` characters show of a text there are blanks only. -/
def FitsIn (room : Nat) (text : Str) : Prop :=
  ∀ c ∈ text.drop (shown room text).length, isBlank c = true

def Line.Fits : Line lib → Prop
  | uiPrint text => FitsIn 1014 text.1
  | log text => FitsIn 1019 text.1
  | _ => True

/-- Only blanks are behind the first 1014 bytes of a line. -/
def Message.Fits : Message lib → Prop
  | .uiPrint text => ∀ line ∈ text.1.splitOn newline, ∀ c ∈ line.drop 1014, isBlank c = true
  | .line l => l.Fits

/-- What `libbase` documents. -/
structure Libbase.Documented (lib : Libbase) : Prop where
  trim : ∀ s, lib.trim s = strip s
  split : ∀ c s, lib.split c s = s.splitOn c

/-! ## One buffer -/

theorem isBlank_of_isDelim {c : UInt8} (h : isDelim c = true) : isBlank c = true := by
  unfold isDelim newline at h
  simp only [Bool.or_eq_true, beq_iff_eq] at h
  rcases h with rfl | rfl
  · decide
  · decide

/-- A word that `strtok` can find. -/
structure IsWord (word : Str) : Prop where
  ne_nil : word ≠ []
  clean : ∀ c ∈ word, isDelim c = false ∧ c ≠ 0

theorem tryUpdateBinaryLine_eq (hlib : lib.Documented) {command args : Str} {d : UInt8}
    (hcommand : IsWord command) (hd : isDelim d = true) (hargs : 0 ∉ args) :
    tryUpdateBinaryLine lib (command ++ d :: args) =
      tryUpdateBinaryCommand lib command (strip args) := by
  have hzero : 0 ∉ command ++ d :: args := by
    intro h
    rcases List.mem_append.1 h with h | h
    · exact (hcommand.clean 0 h).2 rfl
    · rcases List.mem_cons.1 h with rfl | h
      · cases hd
      · exact hargs h
  have htake : (command ++ d :: args).takeWhile (!isDelim ·) = command := by
    rw [List.takeWhile_append_of_pos fun c hc => by simp [(hcommand.clean c hc).1],
      List.takeWhile_cons_of_neg (by simp [hd]), List.append_nil]
  unfold tryUpdateBinaryLine
  rw [cStr_eq hzero]
  dsimp only
  rw [htake, if_neg hcommand.ne_nil, if_neg (by simp), List.drop_left, hlib.trim,
    strip_cons_blank (isBlank_of_isDelim hd)]

theorem runUpdateBinaryLine_eq {command args : Str} {d : UInt8} (hcommand : IsWord command)
    (hd : isDelim d = true) (hargs : 0 ∉ args) :
    runUpdateBinaryLine (command ++ d :: args) = runUpdateBinaryCommand command args := by
  have hzero : 0 ∉ command ++ d :: args := by
    intro h
    rcases List.mem_append.1 h with h | h
    · exact (hcommand.clean 0 h).2 rfl
    · rcases List.mem_cons.1 h with rfl | h
      · cases hd
      · exact hargs h
  unfold runUpdateBinaryLine
  rw [cStr_eq hzero, strtok_word hcommand.ne_nil (fun c hc => (hcommand.clean c hc).1) hd]

/-- No command is a text of blanks. -/
theorem blank_ne_command (lib : Libbase) {command : Str}
    (hblank : ∀ c ∈ command, isBlank c = true) :
    tryUpdateBinaryCommand lib command = (fun _ => none) ∧
      runUpdateBinaryCommand command = fun _ => some none := by
  have hnot (word : Str) (hword : ∃ c ∈ word, isBlank c = false) : command ≠ word := by
    rintro rfl
    obtain ⟨c, hc, hspace⟩ := hword
    rw [hblank c hc] at hspace
    cases hspace
  have hprogress := hnot (ascii "progress") (by decide)
  have hsetProgress := hnot (ascii "set_progress") (by decide)
  have huiPrint := hnot (ascii "ui_print") (by decide)
  have hwipeCache := hnot (ascii "wipe_cache") (by decide)
  have hclearDisplay := hnot (ascii "clear_display") (by decide)
  have henableReboot := hnot (ascii "enable_reboot") (by decide)
  have hretryUpdate := hnot (ascii "retry_update") (by decide)
  have hlog := hnot (ascii "log") (by decide)
  refine ⟨?_, ?_⟩
  · funext args
    simp [tryUpdateBinaryCommand, *]
  · funext rest
    simp [runUpdateBinaryCommand, *]

theorem mem_cStr {s : Str} {c : UInt8} (h : c ∈ cStr s) : c ∈ s :=
  (List.takeWhile_prefix _).subset h

theorem blank_buffer (lib : Libbase) {buffer : Str} (h : ∀ c ∈ buffer, isBlank c = true) :
    tryUpdateBinaryLine lib buffer = none ∧ runUpdateBinaryLine buffer = some none := by
  refine ⟨?_, ?_⟩
  · unfold tryUpdateBinaryLine
    dsimp only
    split
    · rfl
    · rw [(blank_ne_command lib fun c hc =>
        h c (mem_cStr ((List.takeWhile_prefix _).subset hc))).1]
  · unfold runUpdateBinaryLine
    split
    · rfl
    · rename_i command rest hstrtok
      obtain ⟨-, -, hmem, -⟩ := strtok_some_word hstrtok
      rw [(blank_ne_command lib fun c hc => h c (mem_cStr (hmem c hc))).2]

/-! ## Lines -/

theorem tryUpdateBinary_append (bs rest : Str) :
    tryUpdateBinary lib (bs ++ newline :: rest) =
      tryUpdateBinary lib (bs ++ [newline]) ++ tryUpdateBinary lib rest := by
  unfold tryUpdateBinary
  rw [chunks_append, List.filterMap_append]

theorem runUpdateBinaryLines_append (b₁ b₂ : List Str) :
    runUpdateBinaryLines (b₁ ++ b₂) = (runUpdateBinaryLines b₁).bind fun xs =>
      (runUpdateBinaryLines b₂).map (xs ++ ·) := by
  induction b₁ with
  | nil => simp [runUpdateBinaryLines]
  | cons b b₁ ih =>
    simp only [List.cons_append, runUpdateBinaryLines, ih]
    cases runUpdateBinaryLine b with
    | none => rfl
    | some x =>
      cases runUpdateBinaryLines b₁ with
      | none => rfl
      | some xs =>
        cases runUpdateBinaryLines b₂ with
        | none => rfl
        | some ys => simp

theorem runUpdateBinary_append (bs rest : Str) :
    runUpdateBinary (bs ++ newline :: rest) =
      (runUpdateBinary (bs ++ [newline])).bind fun xs => (runUpdateBinary rest).map (xs ++ ·) := by
  unfold runUpdateBinary
  rw [chunks_append, runUpdateBinaryLines_append]

/-- Nothing is executed for blanks. -/
theorem blank_pipe (lib : Libbase) {bs : Str} (h : ∀ c ∈ bs, isBlank c = true) :
    tryUpdateBinary lib bs = [] ∧ runUpdateBinary bs = some [] := by
  have hbuffers : ∀ b ∈ chunks bufferRoom bs, tryUpdateBinaryLine lib b = none ∧
      runUpdateBinaryLine b = some none := fun b hb =>
    blank_buffer lib fun c hc => h c (mem_chunks hb c hc)
  refine ⟨?_, ?_⟩
  · unfold tryUpdateBinary
    rw [List.filterMap_eq_nil_iff]
    exact fun b hb => (hbuffers b hb).1
  · unfold runUpdateBinary
    generalize chunks bufferRoom bs = buffers at hbuffers
    induction buffers with
    | nil => rfl
    | cons b buffers ih =>
      unfold runUpdateBinaryLines
      rw [(hbuffers b List.mem_cons_self).2,
        ih fun b' hb' => hbuffers b' (List.mem_cons_of_mem _ hb')]
      rfl

/-- A line with a command word and a text: the readers execute the command with what their buffer
shows of the text, and then what is in the rest. -/
theorem text_line (hlib : lib.Documented) {command text : Str} (hcommand : IsWord command)
    (hlen : command.length < 100) (htext : 0 ∉ text) :
    ∃ tail rest, (tail = [] ∨ tail = [newline]) ∧
      tryUpdateBinary lib (command ++ ascii " " ++ text ++ [newline]) =
        (tryUpdateBinaryCommand lib command
          (strip (shown (1022 - command.length) text))).toList ++ tryUpdateBinary lib rest ∧
      runUpdateBinary (command ++ ascii " " ++ text ++ [newline]) =
        ((runUpdateBinaryCommand command (shown (1022 - command.length) text ++ tail)).bind
          fun x => (runUpdateBinary rest).map fun xs => x.toList ++ xs) ∧
      (FitsIn (1022 - command.length) text → ∀ c ∈ rest, isBlank c = true) := by
  have hspace : ascii " " = [32] := by decide
  have hpre : newline ∉ command ++ ascii " " := by
    rw [hspace]
    intro h
    rcases List.mem_append.1 h with h | h
    · exact absurd (hcommand.clean _ h).1 (by decide)
    · exact absurd (List.mem_singleton.1 h) (by decide)
  obtain ⟨tail, rest, hchunks, htail, hrest⟩ :=
    chunks_line hpre (show (command ++ ascii " ").length < bufferRoom by
      rw [hspace, List.length_append, List.length_singleton]
      unfold bufferRoom
      lia) text
  have hroom : bufferRoom - (command ++ ascii " ").length = 1022 - command.length := by
    rw [hspace, List.length_append, List.length_singleton]
    unfold bufferRoom
    lia
  rw [hroom] at hchunks hrest
  have hargs : 0 ∉ shown (1022 - command.length) text ++ tail := by
    intro h
    have hmem : 0 ∈ text ++ [newline] := by
      rw [← hrest]
      exact List.mem_append_left _ h
    rcases List.mem_append.1 hmem with h | h
    · exact htext h
    · exact absurd (List.mem_singleton.1 h) (by decide)
  have hbuffer : command ++ ascii " " ++ shown (1022 - command.length) text ++ tail =
      command ++ 32 :: (shown (1022 - command.length) text ++ tail) := by
    rw [hspace]
    simp
  rw [hbuffer] at hchunks
  have hblank : ∀ c ∈ tail, isBlank c = true := by
    rcases htail with rfl | rfl
    · exact nofun
    · simp [newline, isBlank]
  refine ⟨tail, rest, htail, ?_, ?_, ?_⟩
  · unfold tryUpdateBinary
    rw [hchunks, List.filterMap_cons, tryUpdateBinaryLine_eq hlib hcommand (by decide) hargs,
      strip_append_blank hblank]
    cases tryUpdateBinaryCommand lib command (strip (shown (1022 - command.length) text)) with
    | none => rfl
    | some x => rfl
  · unfold runUpdateBinary
    rw [hchunks, runUpdateBinaryLines, runUpdateBinaryLine_eq hcommand (by decide) hargs]
  · intro hfits c hc
    have hsplit : tail ++ rest =
        text.drop (shown (1022 - command.length) text).length ++ [newline] := by
      have hboth : shown (1022 - command.length) text ++ (tail ++ rest) =
          shown (1022 - command.length) text ++
            (text.drop (shown (1022 - command.length) text).length ++ [newline]) := by
        rw [← List.append_assoc, hrest, ← List.append_assoc, shown_prefix]
      exact List.append_cancel_left hboth
    have hmem : c ∈ text.drop (shown (1022 - command.length) text).length ++ [newline] := by
      rw [← hsplit]
      exact List.mem_append_right _ hc
    rcases List.mem_append.1 hmem with hmem | hmem
    · exact hfits c hmem
    · rw [List.mem_singleton.1 hmem]
      decide

/-- Both readers, on a line whose text fits. -/
theorem text_line_fits (hlib : lib.Documented) {command text : Str} (hcommand : IsWord command)
    (hlen : command.length < 100) (htext : 0 ∉ text) (hfits : FitsIn (1022 - command.length) text) :
    tryUpdateBinary lib (command ++ ascii " " ++ text ++ [newline]) =
        (tryUpdateBinaryCommand lib command (strip text)).toList ∧
      ∃ tail, (tail = [] ∨ tail = [newline]) ∧
        runUpdateBinary (command ++ ascii " " ++ text ++ [newline]) =
          (runUpdateBinaryCommand command (shown (1022 - command.length) text ++ tail)).map
            Option.toList := by
  obtain ⟨tail, rest, htail, hfirst, hsecond, hrest⟩ := text_line hlib hcommand hlen htext
  obtain ⟨hnone, hnothing⟩ := blank_pipe lib (hrest hfits)
  refine ⟨?_, tail, htail, ?_⟩
  · rw [hfirst, hnone, List.append_nil]
    conv_rhs => rw [← shown_prefix (1022 - command.length) text, strip_append_blank hfits]
  · rw [hsecond, hnothing]
    cases runUpdateBinaryCommand command (shown (1022 - command.length) text ++ tail) with
    | none => rfl
    | some x => simp

theorem ascii_words : IsWord (ascii "ui_print") ∧ IsWord (ascii "log") ∧ IsWord (ascii "progress") ∧
    IsWord (ascii "set_progress") := by
  refine ⟨⟨by decide, by decide +kernel⟩, ⟨by decide, by decide +kernel⟩,
    ⟨by decide, by decide +kernel⟩, ⟨by decide, by decide +kernel⟩⟩

/-- The first character that TWRP's `strtok(NULL, "\n")` finds ends a shown text. -/
theorem strtok_shown {room : Nat} {text tail : Str} (htail : tail = [] ∨ tail = [newline]) :
    strtok (· == newline) (shown room text ++ tail) =
      if shown room text = [] then none else some (shown room text, []) := by
  have hclean : ∀ c ∈ shown room text, (c == newline) = false := by
    intro c hc
    rw [beq_eq_false_iff_ne]
    rintro rfl
    exact newline_notMem_shown room text hc
  split
  · rename_i hnil
    rw [hnil, List.nil_append, strtok_eq_none]
    rcases htail with rfl | rfl
    · exact nofun
    · simp
  · rename_i hne
    rcases htail with rfl | rfl
    · rw [List.append_nil]
      exact strtok_last hne hclean
    · exact strtok_word hne hclean (beq_self_eq_true _)

theorem command_uiPrint (lib : Libbase) (args rest : Str) :
    tryUpdateBinaryCommand lib (ascii "ui_print") args = some (.uiPrint args) ∧
      runUpdateBinaryCommand (ascii "ui_print") rest =
        match strtok (· == newline) rest with
        | none => some (some (.uiPrint []))
        | some (text, _) => some (some (.uiPrint text)) :=
  ⟨rfl, rfl⟩

theorem command_log (lib : Libbase) (args rest : Str) :
    tryUpdateBinaryCommand lib (ascii "log") args =
        (if args ≠ [] then some (.log args) else none) ∧
      runUpdateBinaryCommand (ascii "log") rest =
        match strtok (· == newline) rest with
        | none => none
        | some (text, _) => some (some (.log text)) :=
  ⟨rfl, rfl⟩

theorem command_progress (lib : Libbase) (args rest : Str) :
    tryUpdateBinaryCommand lib (ascii "progress") args =
        (match lib.split 32 args with
        | [fraction, seconds] =>
          if lib.isDouble fraction && lib.isInt seconds then some (.progress fraction seconds)
          else none
        | _ => none) ∧
      runUpdateBinaryCommand (ascii "progress") rest =
        match strtok isDelim rest with
        | none => none
        | some (fraction, rest) =>
          match strtok isDelim rest with
          | none => none
          | some (seconds, _) => some (some (.progress fraction seconds)) :=
  ⟨rfl, rfl⟩

theorem command_setProgress (lib : Libbase) (args rest : Str) :
    tryUpdateBinaryCommand lib (ascii "set_progress") args =
        (match lib.split 32 args with
        | [fraction] => if lib.isDouble fraction then some (.setProgress fraction) else none
        | _ => none) ∧
      runUpdateBinaryCommand (ascii "set_progress") rest =
        match strtok isDelim rest with
        | none => none
        | some (fraction, _) => some (some (.setProgress fraction)) :=
  ⟨rfl, rfl⟩

/-- What is shown of a text that fits is the text, up to blanks. -/
theorem strip_shown {room : Nat} {text : Str} (h : FitsIn room text) :
    strip (shown room text) = strip text := by
  conv_rhs => rw [← shown_prefix room text, strip_append_blank h]

theorem uiPrint_line (hlib : lib.Documented) (text : Text) (h : FitsIn 1014 text.1) :
    tryUpdateBinary lib ((Line.uiPrint text : Line lib).bytes ++ [newline]) = [.uiPrint (strip text.1)] ∧
    ∃ xs, runUpdateBinary ((Line.uiPrint text : Line lib).bytes ++ [newline]) = some xs ∧
      xs.map Executed.stripped = [.uiPrint (strip text.1)] := by
  obtain ⟨hfirst, tail, htail, hsecond⟩ :=
    text_line_fits hlib ascii_words.1 (by decide) text.2 h
  have hbytes : (Line.uiPrint text : Line lib).bytes = ascii "ui_print" ++ ascii " " ++ text.1 := rfl
  have hroom : 1022 - (ascii "ui_print").length = 1014 := by decide
  have hstrip := strip_shown h
  rw [(command_uiPrint lib (strip text.1) []).1] at hfirst
  rw [(command_uiPrint lib [] _).2, hroom, strtok_shown htail] at hsecond
  rw [hbytes]
  refine ⟨hfirst, ?_⟩
  by_cases hnil : shown 1014 text.1 = []
  · rw [if_pos hnil] at hsecond
    refine ⟨_, hsecond, ?_⟩
    rw [← hstrip, hnil]
    rfl
  · rw [if_neg hnil] at hsecond
    refine ⟨_, hsecond, ?_⟩
    rw [← hstrip]
    rfl

theorem log_line (hlib : lib.Documented) (text : LogText) (h : FitsIn 1019 text.1) :
    tryUpdateBinary lib ((Line.log text : Line lib).bytes ++ [newline]) = [.log (strip text.1)] ∧
    ∃ xs, runUpdateBinary ((Line.log text : Line lib).bytes ++ [newline]) = some xs ∧
      xs.map Executed.stripped = [.log (strip text.1)] := by
  obtain ⟨hfirst, tail, htail, hsecond⟩ :=
    text_line_fits hlib ascii_words.2.1 (by decide) text.2.1 h
  obtain ⟨c, rest, hcons, hc⟩ := text.2.2
  have hbytes : (Line.log text : Line lib).bytes = ascii "log" ++ ascii " " ++ text.1 := rfl
  have hroom : 1022 - (ascii "log").length = 1019 := by decide
  have hne : strip text.1 ≠ [] := by
    rw [hcons]
    exact strip_ne_nil hc
  have hshown : shown 1019 text.1 ≠ [] := by
    intro hnil
    rw [← strip_shown h, hnil] at hne
    exact hne rfl
  rw [(command_log lib (strip text.1) []).1, if_pos hne] at hfirst
  rw [(command_log lib [] _).2, hroom, strtok_shown htail, if_neg hshown] at hsecond
  rw [hbytes]
  refine ⟨hfirst, _, hsecond, ?_⟩
  rw [← strip_shown h]
  rfl

/-- A text without newline that is short enough is shown whole. -/
theorem shown_eq {room : Nat} {text : Str} (hline : newline ∉ text) (hlen : text.length ≤ room) :
    shown room text = text := by
  unfold shown
  rw [List.takeWhile_eq_self_iff.2, List.take_of_length_le hlen]
  intro c hc
  simp only [ne_eq, decide_eq_true_eq]
  rintro rfl
  exact hline hc

theorem fitsIn_of_length {room : Nat} {text : Str} (hline : newline ∉ text)
    (hlen : text.length ≤ room) : FitsIn room text := by
  unfold FitsIn
  rw [shown_eq hline hlen, List.drop_length]
  exact nofun

namespace Numeral

variable {parses : Str → Bool} (n : Numeral parses)

theorem not_delim : ∀ c ∈ n.text, isDelim c = false := by
  intro c hc
  rw [Bool.eq_false_iff]
  intro hdelim
  have hblank := (n.clean c hc).1
  rw [isBlank_of_isDelim hdelim] at hblank
  cases hblank

theorem zero_notMem : 0 ∉ n.text := fun h => (n.clean 0 h).2 rfl

theorem newline_notMem : newline ∉ n.text := fun h => absurd (n.clean newline h).1 (by decide)

theorem space_notMem : 32 ∉ n.text := fun h => absurd (n.clean 32 h).1 (by decide)

end Numeral

theorem setProgress_line (hlib : lib.Documented) (fraction : Numeral lib.isDouble) :
    tryUpdateBinary lib ((Line.setProgress fraction).bytes ++ [newline]) =
      [.setProgress fraction.text] ∧
    runUpdateBinary ((Line.setProgress fraction).bytes ++ [newline]) =
      some [.setProgress fraction.text] := by
  have hroom : 1022 - (ascii "set_progress").length = 1010 := by decide
  have hlen : fraction.text.length ≤ 1010 := fraction.length_le.trans (by decide)
  obtain ⟨hfirst, tail, htail, hsecond⟩ :=
    text_line_fits hlib ascii_words.2.2.2 (by decide) fraction.zero_notMem
      (fitsIn_of_length fraction.newline_notMem (by rw [hroom]; exact hlen))
  have hbytes : (Line.setProgress fraction).bytes =
      ascii "set_progress" ++ ascii " " ++ fraction.text := rfl
  have hstrip : strip fraction.text = fraction.text :=
    strip_word fun c hc => (fraction.clean c hc).1
  have htoken : strtok isDelim (fraction.text ++ tail) = some (fraction.text, []) := by
    rcases htail with rfl | rfl
    · rw [List.append_nil]
      exact strtok_last fraction.ne_nil fraction.not_delim
    · exact strtok_word fraction.ne_nil fraction.not_delim (by decide)
  rw [hbytes]
  refine ⟨?_, ?_⟩
  · rw [hfirst, hstrip, (command_setProgress lib fraction.text []).1, hlib.split,
      List.splitOn_eq_singleton fraction.space_notMem]
    dsimp only
    rw [fraction.parses_text, if_pos rfl]
    rfl
  · rw [hsecond, hroom, shown_eq fraction.newline_notMem hlen, (command_setProgress lib [] _).2,
      htoken]
    rfl

theorem progress_line (hlib : lib.Documented) (fraction : Numeral lib.isDouble)
    (seconds : Numeral lib.isInt) :
    tryUpdateBinary lib ((Line.progress fraction seconds).bytes ++ [newline]) =
      [.progress fraction.text seconds.text] ∧
    runUpdateBinary ((Line.progress fraction seconds).bytes ++ [newline]) =
      some [.progress fraction.text seconds.text] := by
  have hroom : 1022 - (ascii "progress").length = 1014 := by decide
  have hspace : ascii " " = [32] := by decide
  have hline : newline ∉ fraction.text ++ ascii " " ++ seconds.text := by
    rw [hspace]
    simp only [List.mem_append, List.mem_singleton, not_or]
    exact ⟨⟨fraction.newline_notMem, by decide⟩, seconds.newline_notMem⟩
  have hzero : 0 ∉ fraction.text ++ ascii " " ++ seconds.text := by
    rw [hspace]
    simp [fraction.zero_notMem, seconds.zero_notMem]
  have hlen : (fraction.text ++ ascii " " ++ seconds.text).length ≤ 1014 := by
    rw [hspace]
    simp only [List.length_append, List.length_singleton]
    have := fraction.length_le
    have := seconds.length_le
    lia
  obtain ⟨hfirst, tail, htail, hsecond⟩ :=
    text_line_fits hlib ascii_words.2.2.1 (by decide) hzero
      (fitsIn_of_length hline (by rw [hroom]; exact hlen))
  have hbytes : (Line.progress fraction seconds).bytes =
      ascii "progress" ++ ascii " " ++ (fraction.text ++ ascii " " ++ seconds.text) := rfl
  have hstrip : strip (fraction.text ++ ascii " " ++ seconds.text) =
      fraction.text ++ ascii " " ++ seconds.text :=
    strip_words fraction.ne_nil seconds.ne_nil (fun c hc => (fraction.clean c hc).1)
      (fun c hc => (seconds.clean c hc).1) (ascii " ")
  have hsplit : (fraction.text ++ ascii " " ++ seconds.text).splitOn 32 =
      [fraction.text, seconds.text] := by
    rw [hspace, List.append_assoc, List.singleton_append,
      List.splitOn_append_cons_self_of_not_mem fraction.space_notMem,
      List.splitOn_eq_singleton seconds.space_notMem]
  have hfraction : strtok isDelim (fraction.text ++ ascii " " ++ seconds.text ++ tail) =
      some (fraction.text, seconds.text ++ tail) := by
    rw [hspace, List.append_assoc, List.append_assoc, List.singleton_append]
    exact strtok_word fraction.ne_nil fraction.not_delim (by decide)
  have hseconds : strtok isDelim (seconds.text ++ tail) = some (seconds.text, []) := by
    rcases htail with rfl | rfl
    · rw [List.append_nil]
      exact strtok_last seconds.ne_nil seconds.not_delim
    · exact strtok_word seconds.ne_nil seconds.not_delim (by decide)
  rw [hbytes]
  refine ⟨?_, ?_⟩
  · rw [hfirst, hstrip, (command_progress lib _ []).1, hlib.split, hsplit]
    dsimp only
    rw [fraction.parses_text, seconds.parses_text]
    rfl
  · rw [hsecond, hroom, shown_eq hline hlen, (command_progress lib [] _).2, hfraction]
    dsimp only
    rw [hseconds]
    rfl

/-- A line without arguments. -/
theorem word_line (hlib : lib.Documented) {word : Str} (hword : IsWord word)
    (hlen : word.length < 100) :
    tryUpdateBinary lib (word ++ [newline]) = (tryUpdateBinaryCommand lib word []).toList ∧
    runUpdateBinary (word ++ [newline]) = (runUpdateBinaryCommand word []).map Option.toList := by
  have hline : newline ∉ word := fun h => absurd (hword.clean _ h).1 (by decide)
  have hchunks : chunks bufferRoom (word ++ [newline]) = [word ++ [newline]] :=
    chunksFrom_line hline (by unfold bufferRoom; lia) [] []
  refine ⟨?_, ?_⟩
  · unfold tryUpdateBinary
    rw [hchunks, List.filterMap_cons,
      tryUpdateBinaryLine_eq hlib hword (by decide) List.not_mem_nil, show strip [] = [] from rfl]
    cases tryUpdateBinaryCommand lib word [] with
    | none => rfl
    | some x => rfl
  · unfold runUpdateBinary runUpdateBinaryLines
    rw [hchunks]
    dsimp only
    rw [runUpdateBinaryLine_eq hword (by decide) List.not_mem_nil]
    cases runUpdateBinaryCommand word [] with
    | none => rfl
    | some x => simp [runUpdateBinaryLines]

/-- **A line that fits** is executed as what it asks for, by both readers. -/
theorem line_fits (hlib : lib.Documented) (l : Line lib) (h : l.Fits) :
    tryUpdateBinary lib (l.bytes ++ [newline]) = [l.command] ∧
    ∃ xs, runUpdateBinary (l.bytes ++ [newline]) = some xs ∧
      xs.map Executed.stripped = [l.command].filter Executed.inTwrp := by
  cases l with
  | uiPrint text => exact uiPrint_line hlib text h
  | log text => exact log_line hlib text h
  | progress fraction seconds =>
    obtain ⟨hfirst, hsecond⟩ := progress_line hlib fraction seconds
    exact ⟨hfirst, _, hsecond, rfl⟩
  | setProgress fraction =>
    obtain ⟨hfirst, hsecond⟩ := setProgress_line hlib fraction
    exact ⟨hfirst, _, hsecond, rfl⟩
  | wipeCache =>
    obtain ⟨hfirst, hsecond⟩ :=
      word_line hlib (show IsWord (ascii "wipe_cache") from ⟨by decide, by decide +kernel⟩)
        (by decide)
    exact ⟨hfirst, _, hsecond, rfl⟩
  | enableReboot =>
    obtain ⟨hfirst, hsecond⟩ :=
      word_line hlib (show IsWord (ascii "enable_reboot") from ⟨by decide, by decide +kernel⟩)
        (by decide)
    exact ⟨hfirst, _, hsecond, rfl⟩
  | retryUpdate =>
    obtain ⟨hfirst, hsecond⟩ :=
      word_line hlib (show IsWord (ascii "retry_update") from ⟨by decide, by decide +kernel⟩)
        (by decide)
    exact ⟨hfirst, _, hsecond, rfl⟩

/-- A text that does not fit differs from what is shown of it. -/
theorem strip_shown_ne {room : Nat} {text : Str} (h : ¬ FitsIn room text) :
    strip (shown room text) ≠ strip text := by
  unfold FitsIn at h
  simp only [not_forall] at h
  obtain ⟨c, hc, hspace⟩ := h
  conv_rhs => rw [← shown_prefix room text]
  exact strip_ne_strip_append ⟨c, hc, by simpa using hspace⟩

/-- **A line that does not fit** is executed as something else. -/
theorem line_not_fits (hlib : lib.Documented) (l : Line lib) (h : ¬ l.Fits) :
    ∃ x xs, tryUpdateBinary lib (l.bytes ++ [newline]) = x :: xs ∧ x ≠ l.command := by
  cases l with
  | uiPrint text =>
    obtain ⟨tail, rest, -, hfirst, -, -⟩ := text_line hlib ascii_words.1 (by decide) text.2
    have hroom : 1022 - (ascii "ui_print").length = 1014 := by decide
    rw [hroom, (command_uiPrint lib _ []).1] at hfirst
    refine ⟨_, _, hfirst, ?_⟩
    intro heq
    exact strip_shown_ne h (Executed.uiPrint.inj heq)
  | log text =>
    obtain ⟨tail, rest, -, hfirst, -, -⟩ := text_line hlib ascii_words.2.1 (by decide) text.2.1
    have hroom : 1022 - (ascii "log").length = 1019 := by decide
    have hshown : strip (shown 1019 text.1) ≠ [] := by
      obtain ⟨c, s, hcons, hc⟩ := text.2.2
      have hc' : c ≠ newline := by
        rintro rfl
        cases hc
      rw [hcons]
      unfold shown
      rw [List.takeWhile_cons_of_pos (by simpa using hc'), List.take_succ_cons]
      exact strip_ne_nil hc
    rw [hroom, (command_log lib _ []).1, if_pos hshown] at hfirst
    refine ⟨_, _, hfirst, ?_⟩
    intro heq
    exact strip_shown_ne h (Executed.log.inj heq)
  | progress fraction seconds => exact absurd trivial h
  | setProgress fraction => exact absurd trivial h
  | wipeCache => exact absurd trivial h
  | enableReboot => exact absurd trivial h
  | retryUpdate => exact absurd trivial h

/-! ## All lines -/

theorem tryUpdateBinary_lines (hlib : lib.Documented) (ls : List (Line lib)) :
    tryUpdateBinary lib (unlines newline (ls.map Line.bytes)) = ls.map Line.command ↔
      ∀ l ∈ ls, l.Fits := by
  induction ls with
  | nil => simp [unlines, tryUpdateBinary, chunks_nil]
  | cons l ls ih =>
    rw [List.map_cons, unlines_cons, tryUpdateBinary_append, List.map_cons, List.forall_mem_cons,
      ← ih]
    by_cases h : l.Fits
    · rw [(line_fits hlib l h).1, List.singleton_append, List.cons.injEq]
      simp [h]
    · obtain ⟨x, xs, hrun, hne⟩ := line_not_fits hlib l h
      rw [hrun, List.cons_append, List.cons.injEq]
      simp [h, hne]

theorem runUpdateBinary_lines (hlib : lib.Documented) {ls : List (Line lib)} (h : ∀ l ∈ ls, l.Fits) :
    (runUpdateBinary (unlines newline (ls.map Line.bytes))).map (·.map Executed.stripped) =
      some ((ls.map Line.command).filter Executed.inTwrp) := by
  induction ls with
  | nil => rfl
  | cons l ls ih =>
    obtain ⟨-, xs, hrun, hxs⟩ := line_fits hlib l (h l List.mem_cons_self)
    have hrest := ih fun l' hl' => h l' (List.mem_cons_of_mem _ hl')
    obtain ⟨ys, hys, hstripped⟩ := Option.map_eq_some_iff.1 hrest
    rw [List.map_cons, unlines_cons, runUpdateBinary_append, hrun, hys, List.map_cons,
      ← List.singleton_append, List.filter_append, ← hxs, ← hstripped]
    simp

/-! ## Messages -/

theorem fitsIn_line {room : Nat} {line : Str} (h : newline ∉ line) :
    FitsIn room line ↔ ∀ c ∈ line.drop room, isBlank c = true := by
  have hshown : shown room line = line.take room := by
    unfold shown
    rw [List.takeWhile_eq_self_iff.2]
    intro c hc
    simp only [ne_eq, decide_eq_true_eq]
    rintro rfl
    exact h hc
  have hdrop : line.drop (line.take room).length = line.drop room := by
    rw [List.length_take]
    rcases Nat.le_total room line.length with hle | hle
    · rw [Nat.min_eq_left hle]
    · rw [Nat.min_eq_right hle, List.drop_length, List.drop_of_length_le hle]
  unfold FitsIn
  rw [hshown, hdrop]

/-- A piece of a C string is one, and has no newline. -/
theorem piece_clean {text : Text} {line : Str} (h : line ∈ text.1.splitOn newline) :
    newline ∉ line ∧ cStr line = line :=
  ⟨(mem_splitOn h).1, cStr_eq fun hzero => text.2 ((mem_splitOn h).2 0 hzero)⟩

theorem message_commands (hlib : lib.Documented) (m : Message lib) :
    m.lines.map Line.command = m.commands := by
  cases m with
  | line l => rfl
  | uiPrint text =>
    unfold Message.lines Message.commands
    dsimp only
    rw [hlib.split, List.map_map]
    apply List.map_congr_left
    intro line hline
    exact congrArg (fun s => Executed.uiPrint (strip s)) (piece_clean (List.mem_filter.1 hline).1).2

theorem message_fits (hlib : lib.Documented) (m : Message lib) :
    (∀ l ∈ m.lines, l.Fits) ↔ m.Fits := by
  cases m with
  | line l => simp [Message.lines, Message.Fits]
  | uiPrint text =>
    unfold Message.lines Message.Fits
    dsimp only
    rw [hlib.split, List.forall_mem_map]
    constructor
    · intro h line hline c hc
      obtain ⟨hnewline, hclean⟩ := piece_clean hline
      have hne : line ≠ [] := by
        rintro rfl
        simp at hc
      have hfits := h line (List.mem_filter.2 ⟨hline, by simpa using hne⟩)
      unfold Line.Fits at hfits
      dsimp only at hfits
      rw [hclean] at hfits
      exact (fitsIn_line hnewline).1 hfits c hc
    · intro h line hline
      obtain ⟨hnewline, hclean⟩ := piece_clean (List.mem_filter.1 hline).1
      unfold Line.Fits
      dsimp only
      rw [hclean]
      exact (fitsIn_line hnewline).2 (h line (List.mem_filter.1 hline).1)

/-! ## Arguments -/

/-- The command in the buffer has the arguments that TWRP's reader uses. -/
structure Complete (buffer : Str) : Prop where
  progress : (words isDelim (cStr buffer)).head? = some (ascii "progress") →
    3 ≤ (words isDelim (cStr buffer)).length
  setProgress : (words isDelim (cStr buffer)).head? = some (ascii "set_progress") →
    2 ≤ (words isDelim (cStr buffer)).length
  log : (words isDelim (cStr buffer)).head? = some (ascii "log") →
    ∃ c ∈ afterWord isDelim (cStr buffer), c ≠ newline

theorem runUpdateBinaryCommand_isSome (command rest : Str) :
    (runUpdateBinaryCommand command rest).isSome ↔
      (command = ascii "progress" → 2 ≤ (words isDelim rest).length) ∧
      (command = ascii "set_progress" → 1 ≤ (words isDelim rest).length) ∧
      (command = ascii "log" → ∃ c ∈ rest, c ≠ newline) := by
  have hwords := words_eq isDelim rest
  unfold runUpdateBinaryCommand
  by_cases hprogress : command = ascii "progress"
  · subst hprogress
    rw [if_pos rfl]
    have hnot : ascii "progress" ≠ ascii "set_progress" ∧ ascii "progress" ≠ ascii "log" := by decide
    simp only [true_imp_iff, hnot.1, hnot.2, false_imp_iff, and_true]
    cases hstrtok : strtok isDelim rest with
    | none =>
      rw [hstrtok] at hwords
      simp [hwords]
    | some p =>
      rw [hstrtok] at hwords
      dsimp only at hwords ⊢
      rw [hwords, words_eq isDelim p.2]
      cases strtok isDelim p.2 with
      | none => simp
      | some q => simp
  rw [if_neg hprogress]
  by_cases hsetProgress : command = ascii "set_progress"
  · subst hsetProgress
    rw [if_pos rfl]
    have hnot : ascii "set_progress" ≠ ascii "log" := by decide
    simp only [true_imp_iff, hprogress, hnot, false_imp_iff, and_true, true_and]
    cases hstrtok : strtok isDelim rest with
    | none =>
      rw [hstrtok] at hwords
      simp [hwords]
    | some p =>
      rw [hstrtok] at hwords
      simp [hwords]
  rw [if_neg hsetProgress]
  by_cases hlog : command = ascii "log"
  · subst hlog
    have hnot : ascii "log" ≠ ascii "ui_print" ∧ ascii "log" ≠ ascii "wipe_cache" ∧
        ascii "log" ≠ ascii "clear_display" := by decide
    rw [if_neg hnot.1, if_neg hnot.2.1, if_neg hnot.2.2, if_pos rfl]
    simp only [true_imp_iff, hprogress, hsetProgress, false_imp_iff, true_and]
    cases hstrtok : strtok (· == newline) rest with
    | none =>
      have hall := strtok_eq_none.1 hstrtok
      simp only [Option.isSome_none, Bool.false_eq_true, false_iff, not_exists, not_and, not_not]
      intro c hc
      simpa using hall c hc
    | some p =>
      have hnone : strtok (· == newline) rest ≠ none := by simp [hstrtok]
      rw [ne_eq, strtok_eq_none] at hnone
      simpa using hnone
  · refine iff_of_true ?_ ⟨fun h => absurd h hprogress, fun h => absurd h hsetProgress,
      fun h => absurd h hlog⟩
    rw [if_neg hlog]
    split
    · split
      · rfl
      · rfl
    · split
      · rfl
      · split
        · rfl
        · rfl

theorem runUpdateBinaryLine_isSome {buffer : Str} :
    (runUpdateBinaryLine buffer).isSome ↔ Complete buffer := by
  have hwords := words_eq isDelim (cStr buffer)
  unfold runUpdateBinaryLine
  cases hstrtok : strtok isDelim (cStr buffer) with
  | none =>
    rw [hstrtok] at hwords
    refine iff_of_true rfl ⟨?_, ?_, ?_⟩ <;> simp [hwords]
  | some p =>
    obtain ⟨command, rest⟩ := p
    rw [hstrtok] at hwords
    obtain ⟨-, -, -, hafter⟩ := strtok_some_word hstrtok
    dsimp only at hwords ⊢
    rw [runUpdateBinaryCommand_isSome]
    constructor
    · rintro ⟨h1, h2, h3⟩
      refine ⟨?_, ?_, ?_⟩
      · rw [hwords, List.head?_cons, Option.some.injEq, List.length_cons]
        exact fun h => Nat.succ_le_succ (h1 h)
      · rw [hwords, List.head?_cons, Option.some.injEq, List.length_cons]
        exact fun h => Nat.succ_le_succ (h2 h)
      · rw [hwords, List.head?_cons, Option.some.injEq, ← hafter]
        exact h3
    · rintro ⟨h1, h2, h3⟩
      rw [hwords, List.head?_cons, Option.some.injEq] at h1 h2 h3
      rw [← hafter] at h3
      exact ⟨fun h => Nat.le_of_succ_le_succ (h1 h), fun h => Nat.le_of_succ_le_succ (h2 h), h3⟩

theorem runUpdateBinary_isSome (pipe : Str) :
    (runUpdateBinary pipe).isSome ↔ ∀ buffer ∈ chunks bufferRoom pipe, Complete buffer := by
  unfold runUpdateBinary
  induction chunks bufferRoom pipe with
  | nil => simp [runUpdateBinaryLines]
  | cons buffer buffers ih =>
    rw [List.forall_mem_cons, ← ih, ← runUpdateBinaryLine_isSome, runUpdateBinaryLines]
    cases runUpdateBinaryLine buffer with
    | none => simp
    | some x => simp

/-! ## Both parts -/

/-- **The readers execute what the updater asks for** exactly when its texts fit; and TWRP's reader
has every argument it uses, for whatever is written, exactly when every buffer is complete. -/
theorem framing_iff (hlib : lib.Documented) :
    (∀ messages : List (Message lib), Faithful messages ↔ ∀ m ∈ messages, m.Fits) ∧
    ∀ pipe, (runUpdateBinary pipe).isSome ↔ ∀ buffer ∈ chunks bufferRoom pipe, Complete buffer := by
  refine ⟨?_, runUpdateBinary_isSome⟩
  intro messages
  have hcommands : (messages.flatMap Message.lines).map Line.command =
      messages.flatMap Message.commands := by
    rw [List.map_flatMap]
    exact List.flatMap_congr fun m _ => message_commands hlib m
  have hfits : (∀ l ∈ messages.flatMap Message.lines, l.Fits) ↔ ∀ m ∈ messages, m.Fits := by
    simp only [List.mem_flatMap, forall_exists_index, and_imp, ← message_fits hlib]
    constructor
    · exact fun h m hm l hl => h l m hm hl
    · exact fun h l m hm hl => h m hm l hl
  unfold Faithful written
  rw [← hcommands, ← hfits]
  constructor
  · intro h
    exact (tryUpdateBinary_lines hlib _).1 h.1
  · intro h
    exact ⟨(tryUpdateBinary_lines hlib _).2 h, runUpdateBinary_lines hlib h⟩

/-- Numbers are decimal numerals. -/
def plainLibbase : Libbase where
  trim := strip
  split c s := s.splitOn c
  isDouble s := s ≠ [] ∧ s.all fun c => (48 ≤ c ∧ c ≤ 57) ∨ c = 46
  isInt s := s ≠ [] ∧ s.all fun c => 48 ≤ c ∧ c ≤ 57

theorem plainLibbase_documented : plainLibbase.Documented := ⟨fun _ => rfl, fun _ _ => rfl⟩

theorem clean_of_all {text : Str} (h : (text.all fun c => !isBlank c && c != 0) = true) :
    ∀ c ∈ text, isBlank c = false ∧ c ≠ 0 := by
  intro c hc
  simpa using List.all_eq_true.1 h c hc

/-- `ui_print("Hello\nworld\n")`, then the progress of a segment. -/
def helloMessages : List (Message plainLibbase) :=
  [.uiPrint ⟨ascii "Hello\nworld\n", by decide⟩,
    .line (.progress ⟨ascii "0.500000", by decide, by decide, clean_of_all (by decide), by decide⟩
      ⟨ascii "10", by decide, by decide, clean_of_all (by decide), by decide⟩)]

theorem faithful_hello : Faithful helloMessages ∧
    helloMessages.flatMap Message.commands =
      [.uiPrint (ascii "Hello"), .uiPrint (ascii "world"),
        .progress (ascii "0.500000") (ascii "10")] := by
  refine ⟨((framing_iff plainLibbase_documented).1 helloMessages).2 ?_, by decide⟩
  intro m hm
  simp only [helloMessages, List.mem_cons, List.not_mem_nil, or_false] at hm
  rcases hm with rfl | rfl
  · show ∀ line ∈ (ascii "Hello\nworld\n").splitOn newline, ∀ c ∈ line.drop 1014, isBlank c = true
    decide +kernel
  · trivial

/-- A text whose tail is behind the first 1023 bytes of its line. -/
def longText : Text := ⟨List.replicate 1014 97 ++ ascii "wipe_cache", by decide +kernel⟩

/-- The tail of the text wipes the cache, and a command without arguments stops TWRP's reader. -/
theorem longText_wipes :
    (tryUpdateBinary plainLibbase (written [(.uiPrint longText : Message plainLibbase)]) =
      [.uiPrint (List.replicate 1014 97), .wipeCache] ∧
    runUpdateBinary (written [(.uiPrint longText : Message plainLibbase)]) =
      some [.uiPrint (List.replicate 1014 97), .wipeCache]) ∧
    (¬ ∀ messages : List (Message plainLibbase), Faithful messages) ∧
    ¬ ∀ pipe, (runUpdateBinary pipe).isSome := by
  have hruns : tryUpdateBinary plainLibbase
      (written [(.uiPrint longText : Message plainLibbase)]) =
        [.uiPrint (List.replicate 1014 97), .wipeCache] ∧
      runUpdateBinary (written [(.uiPrint longText : Message plainLibbase)]) =
        some [.uiPrint (List.replicate 1014 97), .wipeCache] := by
    decide +kernel
  refine ⟨hruns, ?_, ?_⟩
  · intro h
    have hfaithful := (h [.uiPrint longText]).1
    rw [hruns.1] at hfaithful
    revert hfaithful
    decide +kernel
  · intro h
    have hprogress := h (ascii "progress\n")
    revert hprogress
    decide

end Recovery.StatusPipe
