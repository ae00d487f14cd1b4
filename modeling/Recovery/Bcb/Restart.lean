import Recovery.Bcb.GetArgs

/-!
# Restarting from the bootloader message

* `storedText` — the text that the options leave in the `recovery` field.
* `bootOptions_stored` — what the next boot finds there.
* `Storable` — options that survive: whole lines without NUL that fit.
* `restart_iff` — the next boot returns the options exactly when they are storable, and not none
  while the command file has some.

The boot that is interrupted has stored its options in the block; the next one reads them there,
unless the command file, which it reads when the block holds none, says something else.  An option
that is cut by the end of the field comes back shorter (`long_option_cut`).
-/

set_option autoImplicit false

namespace Recovery.Bcb

open Recovery.Lib

/-! ## The text in the field -/

/-- What the loop appends for an option. -/
def storedLine (s : Str) : Str := cStr s ++ if s.getLast? = some newline then [] else [newline]

def storedText (options : List Str) : Str := recoveryWord ++ newline :: options.flatMap storedLine

theorem appendOptions_holds {options : List Str} {recovery recovery' : Chars 768} {text : Str}
    (h : recovery.Holds text) (hrun : appendOptions options recovery = some recovery') :
    recovery'.Holds (text ++ options.flatMap storedLine) := by
  induction options generalizing recovery text with
  | nil =>
    cases hrun
    simpa using h
  | cons s options ih =>
    unfold appendOptions at hrun
    have hcat := Chars.holds_strlcat h (by decide) s
    cases hlast : s.getLast? with
    | none =>
      simp only [hlast] at hrun
      cases hrun
    | some c =>
      simp only [hlast] at hrun
      rw [List.flatMap_cons, ← List.append_assoc]
      apply ih _ hrun
      unfold storedLine
      rw [hlast]
      by_cases hc : c = newline
      · rw [if_neg (not_not.2 hc), hc, if_pos rfl, List.append_nil]
        exact hcat
      · rw [if_pos hc, if_neg (by simpa using hc), ← List.append_assoc]
        exact Chars.holds_strlcat hcat (by decide) [newline]

theorem appendOptions_some {options : List Str} (h : ∀ s ∈ options, s ≠ []) (recovery : Chars 768) :
    ∃ recovery', appendOptions options recovery = some recovery' := by
  induction options generalizing recovery with
  | nil => exact ⟨recovery, rfl⟩
  | cons s options ih =>
    obtain ⟨c, hc⟩ := Option.isSome_iff_exists.1 (List.getLast?_isSome.2 (h s List.mem_cons_self))
    unfold appendOptions
    simp only [hc]
    exact ih (fun t ht => h t (List.mem_cons_of_mem _ ht)) _

/-- The block after an update: the options in its `recovery` field, other fields as before. -/
theorem update_stored {boot boot' : BootloaderMessage} {options : List Str}
    (h : updateBootloaderMessageInStruct boot options = some boot') :
    boot'.recovery.Holds (storedText options) ∧ boot'.status = boot.status ∧
      boot'.stage = boot.stage ∧ boot'.reserved = boot.reserved := by
  unfold updateBootloaderMessageInStruct at h
  obtain ⟨recovery, hrun, rfl⟩ := Option.map_eq_some_iff.1 h
  refine ⟨?_, rfl, rfl, rfl⟩
  have hholds := appendOptions_holds
    (Chars.holds_strlcpy (by decide) (recoveryWord ++ [newline])) hrun
  rw [show cStr (recoveryWord ++ [newline]) = recoveryWord ++ [newline] by decide,
    List.append_assoc] at hholds
  exact hholds

/-! ## The options in the field -/

/-- What the next boot finds in the field. -/
def restored (options : List Str) : List Str :=
  tokens newline ((options.flatMap storedLine).take 758)

variable {split : Splitter}

theorem filter_usable {ls : List Str} (h : ∀ l ∈ ls, 0 ∉ l) :
    ls.filter usable = ls.filter (· ≠ []) := by
  apply List.filter_congr
  intro l hl
  cases l with
  | nil => rfl
  | cons c l =>
    have hc : c ≠ 0 := fun heq => h _ hl (by rw [heq]; exact List.mem_cons_self)
    simp [usable, hc]

theorem bootOptions_stored (hsplit : ∀ s, split s = s.splitOn newline) {boot : BootloaderMessage}
    {options : List Str} (h : boot.recovery.Holds (storedText options)) :
    bootOptions split boot = restored options := by
  have hset : (boot.recovery.set 767 0).1 = boot.recovery.1 :=
    congrArg Subtype.val (h.set_last (by decide))
  have htext : cStr boot.recovery.1 =
      recoveryWord ++ newline :: (options.flatMap storedLine).take 758 := by
    rw [h.cStr (by decide)]
    unfold storedText
    rw [List.take_append]
    rfl
  unfold bootOptions
  rw [hset, htext]
  dsimp only
  rw [hsplit, List.splitOn_append_cons_self_of_not_mem (by decide)]
  dsimp only
  rw [if_pos rfl]
  apply filter_usable
  intro l hl hzero
  have hmem := (mem_splitOn hl).2 0 hzero
  apply h.1
  unfold storedText
  exact List.mem_append_right _ (List.mem_cons_of_mem _ (List.mem_of_mem_take hmem))

/-! ## Which options survive -/

/-- The options are whole lines without NUL, and the field can lack their last newline only. -/
structure Storable (options : List Str) : Prop where
  clean : ∀ s ∈ options, s ≠ [] ∧ newline ∉ s ∧ 0 ∉ s
  fits : (unlines newline options).length ≤ 759

theorem storedLine_clean {s : Str} (h : newline ∉ s ∧ 0 ∉ s) : storedLine s = s ++ [newline] := by
  have hlast : s.getLast? ≠ some newline := by
    intro hlast
    exact h.1 (List.mem_of_getLast? hlast)
  unfold storedLine
  rw [cStr_eq h.2, if_neg hlast]

theorem flatMap_storedLine {options : List Str} (h : ∀ s ∈ options, newline ∉ s ∧ 0 ∉ s) :
    options.flatMap storedLine = unlines newline options := by
  unfold unlines
  rw [List.flatMap_def, List.flatMap_def, List.map_congr_left fun s hs => storedLine_clean (h s hs)]

theorem zero_notMem_restored {options : List Str} {l : Str} (h : l ∈ restored options) : 0 ∉ l := by
  intro hzero
  have hmem := List.mem_of_mem_take ((mem_tokens h).2.2 0 hzero)
  obtain ⟨s, -, hs⟩ := List.mem_flatMap.1 hmem
  unfold storedLine at hs
  rcases List.mem_append.1 hs with hs | hs
  · exact zero_notMem_cStr s hs
  · split at hs
    · cases hs
    · exact absurd (List.mem_singleton.1 hs) (by decide)

/-- **The field gives the options back** exactly when they are storable. -/
theorem restored_eq_iff {options : List Str} : restored options = options ↔ Storable options := by
  have hiff (hclean : ∀ s ∈ options, s ≠ [] ∧ newline ∉ s ∧ 0 ∉ s) :
      restored options = options ↔ (unlines newline options).length ≤ 759 := by
    unfold restored
    rw [flatMap_storedLine fun s hs => (hclean s hs).2]
    exact tokens_take_unlines (fun s hs => ⟨(hclean s hs).1, (hclean s hs).2.1⟩) 758
  constructor
  · intro heq
    have hclean : ∀ s ∈ options, s ≠ [] ∧ newline ∉ s ∧ 0 ∉ s := by
      intro s hs
      rw [← heq] at hs
      exact ⟨(mem_tokens hs).1, (mem_tokens hs).2.1, zero_notMem_restored hs⟩
    exact ⟨hclean, (hiff hclean).1 heq⟩
  · intro h
    exact (hiff h.clean).2 h.fits

/-- An option that does not start with a newline or a NUL leaves something in the field. -/
theorem restored_ne_nil {c : UInt8} {s : Str} {options : List Str} (hc : c ≠ newline ∧ c ≠ 0) :
    restored ((c :: s) :: options) ≠ [] := by
  unfold restored
  have hline : ∃ rest, storedLine (c :: s) = c :: rest := by
    unfold storedLine cStr
    rw [List.takeWhile_cons_of_pos (by simpa using hc.2)]
    exact ⟨_, rfl⟩
  obtain ⟨rest, hrest⟩ := hline
  rw [List.flatMap_cons, hrest, List.cons_append, List.take_succ_cons]
  exact tokens_cons_ne_nil hc.1 _

/-! ## Calls and boots -/

/-- The parts of the message that the next boot depends on, and those that nobody may touch. -/
structure Kept (bcb bcb' : BootloaderMessage) : Prop where
  status : bcb'.status = bcb.status
  recovery : bcb'.recovery = bcb.recovery
  reserved : bcb'.reserved = bcb.reserved

theorem Call.run_kept (c : Call) (bcb : BootloaderMessage) : Kept bcb (c.run bcb) := by
  have hwrite (write : WriteResult) {new : BootloaderMessage} (h : Kept bcb new) :
      Kept bcb (write.block new bcb) := by
    cases write with
    | ok => exact h
    | failed n =>
      refine ⟨?_, ?_, ?_⟩
      · simp only [WriteResult.block, h.status, mixed_self]
      · simp only [WriteResult.block, h.recovery, mixed_self]
      · simp only [WriteResult.block, h.reserved, mixed_self]
  cases c with
  | setStage stagestr reads write =>
    unfold Call.run
    dsimp only
    split
    · exact hwrite write ⟨rfl, rfl, rfl⟩
    · exact ⟨rfl, rfl, rfl⟩
  | rebootNow reads write =>
    unfold Call.run
    dsimp only
    split
    · exact hwrite write ⟨rfl, rfl, rfl⟩
    · exact ⟨rfl, rfl, rfl⟩

theorem runCalls_kept (calls : List Call) (bcb : BootloaderMessage) :
    Kept bcb (runCalls calls bcb) := by
  induction calls generalizing bcb with
  | nil => exact ⟨rfl, rfl, rfl⟩
  | cons c calls ih =>
    have hfirst := c.run_kept bcb
    have hrest := ih (c.run bcb)
    exact ⟨hrest.status.trans hfirst.status, hrest.recovery.trans hfirst.recovery,
      hrest.reserved.trans hfirst.reserved⟩

/-- A boot that has written the BCB leaves its options there. -/
theorem getArgs_stored {argv : List Str} {io : BootIo} {bcb : BootloaderMessage} {b : Boot}
    (h : getArgs split argv io bcb = some b) (hwrote : b.wrote = true) :
    b.bcb.recovery.Holds (storedText b.options) ∧ b.bcb.status = bcb.status ∧
      b.bcb.reserved = bcb.reserved := by
  unfold getArgs at h
  split at h
  · cases h
  dsimp only at h
  split at h
  · cases h
  split at h
  · cases h
  · rename_i wrote bcb' hupdate
    simp only [Option.some.injEq] at h
    subst h
    unfold updateBootloaderMessage at hupdate
    split at hupdate
    · obtain ⟨boot, hboot, hpair⟩ := Option.map_eq_some_iff.1 hupdate
      obtain ⟨hholds, hstatus, -, hreserved⟩ := update_stored hboot
      obtain ⟨hok, rfl⟩ := Prod.mk.inj hpair
      cases hw : io.write with
      | ok => exact ⟨hholds, hstatus, hreserved⟩
      | failed n =>
        rw [hw] at hok
        rw [← hok] at hwrote
        cases hwrote
    · simp only [Option.some.injEq, Prod.mk.injEq] at hupdate
      rw [← hupdate.1] at hwrote
      cases hwrote

theorem fileOptions_usable {io : BootIo} {s : Str} (h : s ∈ fileOptions split io) :
    usable s = true := by
  unfold fileOptions at h
  split at h
  · split at h
    · cases h
    · exact (List.mem_filter.1 h).2
  · cases h

theorem usable_ne_nil {s : Str} (h : usable s = true) : s ≠ [] := by
  rintro rfl
  cases h

theorem bootOptions_usable {boot : BootloaderMessage} {s : Str} (h : s ∈ bootOptions split boot) :
    usable s = true := by
  unfold bootOptions at h
  dsimp only at h
  split at h
  · cases h
  · split at h
    · exact (List.mem_filter.1 h).2
    · cases h

/-- A boot without arguments reads the BCB, then the command file. -/
theorem getArgs_alone (split : Splitter) {io : BootIo} {bcb : BootloaderMessage} (argv0 : Str)
    (hread : io.firstRead = true) (hstage : 0 ∈ bcb.stage.1 ++ bcb.reserved.1) :
    ∃ b, getArgs split [argv0] io bcb = some b ∧
      b.options = if bootOptions split bcb = [] then fileOptions split io
        else bootOptions split bcb := by
  have hstring : stringIn (bcb.stage.1 ++ bcb.reserved.1) =
      some (cStr (bcb.stage.1 ++ bcb.reserved.1)) := by
    unfold stringIn
    rw [if_pos hstage]
  have hupdate {options : List Str} (h : ∀ s ∈ options, usable s = true) :
      ∃ wrote bcb', updateBootloaderMessage io bcb options = some (wrote, bcb') := by
    obtain ⟨recovery, hrecovery⟩ := appendOptions_some (fun s hs => usable_ne_nil (h s hs))
      ((Chars.zeros 768).strlcpy (recoveryWord ++ [newline]))
    unfold updateBootloaderMessage
    split
    · unfold updateBootloaderMessageInStruct
      rw [hrecovery]
      exact ⟨_, _, rfl⟩
    · exact ⟨_, _, rfl⟩
  unfold getArgs
  rw [if_neg (List.cons_ne_nil _ _), hread, if_pos rfl]
  dsimp only
  rw [hstring]
  dsimp only
  rw [if_pos (show [argv0].length = 1 from rfl), List.singleton_append]
  by_cases hnil : bootOptions split bcb = []
  · obtain ⟨wrote, bcb', hrun⟩ := hupdate fun s hs => fileOptions_usable hs
    rw [hnil, if_pos (show [argv0].length = 1 from rfl), List.singleton_append, List.tail_cons,
      hrun]
    exact ⟨_, rfl, by rw [if_pos rfl]; rfl⟩
  · obtain ⟨wrote, bcb', hrun⟩ := hupdate fun s hs => bootOptions_usable hs
    have hlen : (argv0 :: bootOptions split bcb).length ≠ 1 := by
      simpa using hnil
    rw [if_neg hlen, List.tail_cons, hrun]
    exact ⟨_, rfl, by rw [if_neg hnil]; rfl⟩

/-- What the command file gives is not lost in the field. -/
theorem restored_fileOptions_ne_nil (hsplit : ∀ s, split s = s.splitOn newline) {io : BootIo}
    (h : fileOptions split io ≠ []) : restored (fileOptions split io) ≠ [] := by
  obtain ⟨s, options, hcons⟩ := List.exists_cons_of_ne_nil h
  have hmem : s ∈ fileOptions split io := by
    rw [hcons]
    exact List.mem_cons_self
  have husable := fileOptions_usable hmem
  have hline : newline ∉ s := by
    unfold fileOptions at hmem
    split at hmem
    · split at hmem
      · cases hmem
      · rw [hsplit] at hmem
        exact (mem_splitOn (List.mem_filter.1 hmem).1).1
    · cases hmem
  rw [hcons]
  cases s with
  | nil => cases husable
  | cons c s =>
    apply restored_ne_nil
    refine ⟨?_, ?_⟩
    · rintro rfl
      exact hline List.mem_cons_self
    · simpa [usable] using husable

/-! ## Restarting -/

/-- **A restarted boot** returns the options of the boot that wrote the BCB exactly when they are
storable, and not none while the command file has some; `status` and `reserved` are kept.  The next
boot's own write keeps them too: that is `getArgs_stored` for it. -/
theorem restart_iff (hsplit : ∀ s, split s = s.splitOn newline) {argv : List Str} {io : BootIo}
    {bcb : BootloaderMessage} {b : Boot} (hboot : getArgs split argv io bcb = some b)
    (hwrote : b.wrote = true) (calls : List Call)
    (hstage : 0 ∈ (runCalls calls b.bcb).stage.1 ++ (runCalls calls b.bcb).reserved.1)
    (argv0 : Str) {io' : BootIo} (hread : io'.firstRead = true) :
    (∃ b', getArgs split [argv0] io' (runCalls calls b.bcb) = some b' ∧
      (b'.options = b.options ↔
        Storable b.options ∧ (b.options ≠ [] ∨ fileOptions split io' = []))) ∧
    (runCalls calls b.bcb).status = bcb.status ∧
    (runCalls calls b.bcb).reserved = bcb.reserved := by
  obtain ⟨hholds, hstatus, hreserved⟩ := getArgs_stored hboot hwrote
  have hkept := runCalls_kept calls b.bcb
  refine ⟨?_, hkept.status.trans hstatus, hkept.reserved.trans hreserved⟩
  have hfield : bootOptions split (runCalls calls b.bcb) = restored b.options := by
    apply bootOptions_stored hsplit
    rw [hkept.recovery]
    exact hholds
  obtain ⟨b', hrun, hoptions⟩ := getArgs_alone split argv0 hread hstage
  refine ⟨b', hrun, ?_⟩
  rw [hoptions, hfield, ← restored_eq_iff]
  by_cases hnil : restored b.options = []
  · rw [if_pos hnil, hnil]
    constructor
    · intro hfile
      by_cases hempty : b.options = []
      · rw [hempty] at hfile
        exact ⟨hempty.symm, Or.inr hfile⟩
      · rw [← hfile] at hempty hnil
        exact absurd hnil (restored_fileOptions_ne_nil hsplit hempty)
    · rintro ⟨hempty, hne | hfile⟩
      · exact absurd hempty.symm hne
      · rw [hfile, hempty]
  · rw [if_neg hnil]
    constructor
    · intro heq
      refine ⟨heq, Or.inl ?_⟩
      rw [← heq]
      exact hnil
    · exact And.left

/-- A boot where every access succeeds, without a cache partition. -/
def quietIo : BootIo := ⟨true, true, .ok, false, none⟩

/-- `"--wipe_data"`. -/
def wipeData : Str := [45, 45, 119, 105, 112, 101, 95, 100, 97, 116, 97]

theorem storable_wipeData : Storable [wipeData] := by
  refine ⟨?_, by decide⟩
  intro s hs
  rw [List.mem_singleton.1 hs]
  decide

/-- A factory reset is restarted after a `set_stage`. -/
theorem restart_wipeData : ∃ b b', getArgs (List.splitOn newline) [[114], wipeData] quietIo .zeroed =
    some b ∧ b.options = [wipeData] ∧
    getArgs (List.splitOn newline) [[114]] quietIo (runCalls [.setStage [50] true .ok] b.bcb) =
      some b' ∧ b'.options = b.options := by
  have hfirst : ∀ b ∈ getArgs (List.splitOn newline) [[114], wipeData] quietIo .zeroed,
      b.wrote = true ∧ b.options = [wipeData] ∧
        0 ∈ (runCalls [.setStage [50] true .ok] b.bcb).stage.1 ++
          (runCalls [.setStage [50] true .ok] b.bcb).reserved.1 := by
    decide +kernel
  obtain ⟨b, hb⟩ : ∃ b, getArgs (List.splitOn newline) [[114], wipeData] quietIo .zeroed = some b :=
    Option.isSome_iff_exists.1 (by decide +kernel)
  obtain ⟨hwrote, hoptions, hstage⟩ := hfirst b hb
  obtain ⟨⟨b', hb', hiff⟩, -⟩ := restart_iff (fun _ => rfl) hb hwrote _ hstage [114]
    (show quietIo.firstRead = true from rfl)
  refine ⟨b, b', hb, hoptions, hb', hiff.2 ?_⟩
  rw [hoptions]
  exact ⟨storable_wipeData, Or.inl (List.cons_ne_nil _ _)⟩

/-- An option of 800 characters comes back shorter. -/
theorem long_option_cut : ¬ ∀ (argv : List Str) (io : BootIo) (bcb : BootloaderMessage) (b : Boot),
    getArgs (List.splitOn newline) argv io bcb = some b → b.wrote = true →
    ∀ (calls : List Call) (argv0 : Str) (io' : BootIo), io'.firstRead = true →
    ∀ b', getArgs (List.splitOn newline) [argv0] io' (runCalls calls b.bcb) = some b' →
      b'.options = b.options := by
  intro h
  obtain ⟨b, hb⟩ : ∃ b, getArgs (List.splitOn newline) [[114], List.replicate 800 97] quietIo
      .zeroed = some b :=
    Option.isSome_iff_exists.1 (by decide +kernel)
  have hcut : ∀ b ∈ getArgs (List.splitOn newline) [[114], List.replicate 800 97] quietIo .zeroed,
      b.wrote = true ∧ ∃ b' ∈ getArgs (List.splitOn newline) [[114]] quietIo b.bcb,
        b'.options ≠ b.options := by
    decide +kernel
  obtain ⟨hwrote, b', hb', hne⟩ := hcut b hb
  exact hne (h _ _ _ b hb hwrote [] [114] quietIo rfl b' hb')

end Recovery.Bcb
