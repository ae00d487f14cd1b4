import Recovery.OpenRecoveryScript.Lines

/-!
# The buffers of a script (`openrecoveryscript.cpp`)

* `Safe` — a command without a fault.
* `Fits` — what the line of a command leaves for its value.
* `Harmless` — the commands whose arguments are there and fit.
* `backup_safe_iff`, `restore_safe_iff`, `set_safe_iff`, `decrypt_safe_iff`, `mountPath_safe`,
  `exec_safe_iff` — the commands without a fault are the harmless ones.
* `Reaches` — the commands that a run comes to.
* `never_faults_iff` — a run is without a fault exactly when all these are harmless.
* `missing_argument` — `backup` without a value is copied from a null token.

What a command does behind its copies is up to `Device`, and may change the state that the next
command runs in; so harmless is a condition on a command in a state.
-/

set_option autoImplicit false

namespace Recovery.OpenRecoveryScript

open Recovery.Lib

def Safe {α : Type} (x : Except Fault α) : Prop := ∃ a, x = .ok a

theorem safe_ok {α : Type} (a : α) : Safe (.ok a) := ⟨a, rfl⟩

theorem not_safe {α : Type} (f : Fault) : ¬ Safe (.error f : Except Fault α) := nofun

theorem safe_iff {α : Type} {x : Except Fault α} : Safe x ↔ ∀ f, x ≠ .error f := by
  cases x with
  | error f => exact iff_of_false (not_safe f) fun h => h f rfl
  | ok a => exact iff_of_true (safe_ok a) nofun

theorem safe_bind {α β : Type} {x : Except Fault α} {a : α} (h : x = .ok a)
    (f : α → Except Fault β) : Safe (x >>= f) ↔ Safe (f a) := by
  rw [h]
  rfl

theorem strcpy_ok {b : Buffer} {s : List UInt8} (h : s.length < b.size) :
    strcpy b (some s) = .ok s := if_pos h

theorem strcat_ok {b : Buffer} {s t : List UInt8} (h : (s ++ t).length < b.size) :
    strcat b s t = .ok (s ++ t) := if_pos h

/-! ## Harmless commands -/

/-- A command as it is split from a line that `fgets` has read. -/
structure Command.Fits (c : Command) : Prop where
  size_lt : c.size < SCRIPT_COMMAND_SIZE
  value_nil : c.given = false → c.value = []

theorem Command.Fits.length_lt {c : Command} (h : c.Fits) :
    c.command.length + c.value.length < SCRIPT_COMMAND_SIZE := by
  have hsize := h.size_lt
  unfold Command.size at hsize
  cases hgiven : c.given with
  | false =>
    rw [hgiven] at hsize
    rw [h.value_nil hgiven]
    simpa using hsize
  | true =>
    rw [hgiven, if_pos rfl] at hsize
    lia

/-- The tokens of a value. -/
def tokens (value : List UInt8) : List (List UInt8) := words (· = 32) value

section

variable {σ : Type} (device : Device σ)

/-- The name of a backup fits behind the folder of each storage that is tried. -/
def FoldersFit (s : σ) (folder : List UInt8) (storages : List Storage) : Prop :=
  ∀ pre storage post, storages = pre ++ storage :: post → storage.mounted →
    (∀ storage' ∈ pre, storage'.mounted → ¬ device.pathExists s (storage'.folder_var ++ 47 :: folder)) →
    storage.folder_var.length + 1 + folder.length < SCRIPT_COMMAND_SIZE

/-- The arguments of a command are there, and fit. -/
structure Harmless (c : Command) (s : σ) : Prop where
  /-- `backup` has an argument, and a name that is not just a line break. -/
  backup : c.command = text "backup" → tokens c.value ≠ [] ∧
    ∀ name, (tokens c.value)[1]? = some name → name ≠ [10] ∧ name ≠ [13]
  /-- `restore` of a folder without a path. -/
  restore : c.command = text "restore" → (splitRestore c.value).1.head? ≠ some 47 →
    FoldersFit device s (splitRestore c.value).1 (device.storages s)
  set : c.command = text "set" → tokens c.value ≠ []
  /-- A password, unless there is no value at all, which is refused. -/
  decrypt : c.command = text "decrypt" → c.value ≠ [] → tokens c.value ≠ []

/-! ## The commands -/

theorem tokens_none {value : List UInt8} (h : strtokBlank value = none) : tokens value = [] := by
  unfold strtokBlank at h
  rw [tokens, words_eq, h]

theorem tokens_some {value word rest : List UInt8} (h : strtokBlank value = some (word, rest)) :
    tokens value = word :: tokens rest := by
  unfold strtokBlank at h
  rw [tokens, words_eq, h]
  rfl

/-- The name is copied without its line break: a name that is nothing else has no length then. -/
theorem copyName_safe_iff {name : List UInt8} (hne : name ≠ [])
    (hfit : name.length < SCRIPT_COMMAND_SIZE) :
    Safe (copyName name) ↔ name ≠ [10] ∧ name ≠ [13] := by
  have hpos := List.length_pos_iff.2 hne
  have hsize : Buffer.value2.size = SCRIPT_COMMAND_SIZE := rfl
  unfold copyName
  rw [strcpy_ok (by rw [hsize]; exact hfit)]
  by_cases hlast : name.getLast? = some 10 ∨ name.getLast? = some 13
  · by_cases hone : name.length = 1
    · obtain ⟨c, rfl⟩ := List.length_eq_one_iff.1 hone
      have hbreak : c = 10 ∨ c = 13 := by simpa using hlast
      have hfault : strncpy .value2 [c] (([c].length : Nat) - 2) = .error (.overflow .value2) :=
        if_pos (.inl (by rw [List.length_singleton]; decide))
      simp only [if_pos hlast, hfault]
      refine iff_of_false (not_safe _) fun h => ?_
      obtain rfl | rfl := hbreak
      · exact h.1 rfl
      · exact h.2 rfl
    · have hsub : (name.length : Int) - 2 = ((name.length - 2 : Nat) : Int) := by lia
      simp only [if_pos hlast, hsub]
      rw [strncpy_ok (by rw [hsize]; lia)]
      refine iff_of_true (safe_ok name) ⟨?_, ?_⟩ <;>
      · rintro rfl
        exact hone rfl
  · have hsub : (name.length : Int) - 0 = (name.length : Int) := by lia
    simp only [if_neg hlast, hsub]
    rw [strncpy_ok (by rw [hsize]; lia)]
    refine iff_of_true (safe_ok name) ⟨?_, ?_⟩
    · rintro rfl
      exact hlast (.inl rfl)
    · rintro rfl
      exact hlast (.inr rfl)

theorem backupCommand_safe {value1 : List UInt8} (hfit : value1.length < SCRIPT_COMMAND_SIZE)
    (c : Command) (s : σ) : Safe (backupCommand device c value1 s) := by
  have hcopy : strcpy .options (some value1) = .ok value1 := strcpy_ok hfit
  unfold backupCommand
  rw [hcopy]
  exact safe_ok _

theorem backup_safe_iff {c : Command} (hfit : c.value.length < SCRIPT_COMMAND_SIZE) (s : σ) :
    Safe (backup device c s) ↔ tokens c.value ≠ [] ∧
      ∀ name, (tokens c.value)[1]? = some name → name ≠ [10] ∧ name ≠ [13] := by
  unfold backup
  cases htok : strtokBlank c.value with
  | none =>
    refine iff_of_false (not_safe .nullToken) fun h => ?_
    exact h.1 (tokens_none htok)
  | some t =>
    obtain ⟨value1, rest⟩ := t
    obtain ⟨-, hword, hrest⟩ := strtok_some _ htok
    have hcopy : strcpy .value1 (some value1) = .ok value1 :=
      strcpy_ok (by unfold Buffer.size; exact Nat.lt_of_le_of_lt hword hfit)
    have hsafe := @backupCommand_safe σ device value1 (by lia) c s
    rw [tokens_some htok]
    simp only [Option.map_some, hcopy, Option.bind_some]
    cases hname : strtokBlank rest with
    | none =>
      rw [tokens_none hname]
      refine iff_of_true ?_ ⟨List.cons_ne_nil _ _, nofun⟩
      have hempt : strcpy .empt (some (text "(Current Date)")) = .ok (text "(Current Date)") :=
        strcpy_ok (by decide)
      simp only [hempt]
      exact hsafe
    | some t' =>
      obtain ⟨name, rest'⟩ := t'
      obtain ⟨hne, hlen, -⟩ := strtok_some _ hname
      have hiff := copyName_safe_iff hne (by lia)
      rw [tokens_some hname]
      have hsecond : (∀ name', (value1 :: name :: tokens rest')[1]? = some name' →
          name' ≠ [10] ∧ name' ≠ [13]) ↔ name ≠ [10] ∧ name ≠ [13] :=
        ⟨fun h => h name rfl, fun h name' heq => by cases heq; exact h⟩
      rw [hsecond, ← hiff]
      simp only [ne_eq, reduceCtorEq, not_false_eq_true, true_and]
      cases hcopyName : copyName name with
      | error f => exact iff_of_false (not_safe f) (not_safe f)
      | ok value2 =>
        refine iff_of_true ?_ (safe_ok value2)
        change Safe (if device.checkBackupName s value2 then backupCommand device c value1 s
          else .ok (1, s))
        split
        · exact hsafe
        · exact safe_ok _

theorem set_safe_iff {c : Command} (hfit : c.value.length < SCRIPT_COMMAND_SIZE) (s : σ) :
    Safe (set device c s) ↔ tokens c.value ≠ [] := by
  unfold set
  cases htok : strtokBlank c.value with
  | none => exact iff_of_false (not_safe .nullToken) fun h => h (tokens_none htok)
  | some t =>
    obtain ⟨value1, rest⟩ := t
    obtain ⟨-, hword, -⟩ := strtok_some _ htok
    have hcopy : strcpy .value1 (some value1) = .ok value1 :=
      strcpy_ok (by unfold Buffer.size; exact Nat.lt_of_le_of_lt hword hfit)
    rw [tokens_some htok]
    simp only [Option.map_some, hcopy]
    exact iff_of_true (safe_ok _) (List.cons_ne_nil _ _)

theorem decrypt_safe_iff (c : Command) (s : σ) :
    Safe (decrypt device c s) ↔ (c.value ≠ [] → tokens c.value ≠ []) := by
  unfold decrypt
  by_cases hvalue : c.value = []
  · rw [if_pos hvalue]
    exact iff_of_true (safe_ok _) fun hne => absurd hvalue hne
  · rw [if_neg hvalue]
    have htokens : splitString c.value = tokens c.value := rfl
    rw [htokens]
    cases tokens c.value with
    | nil => exact iff_of_false (not_safe .emptyVector) fun h => h hvalue rfl
    | cons pass args => exact iff_of_true (safe_ok _) fun _ => List.cons_ne_nil pass args

theorem mountPath_safe {c : Command} (hfit : c.value.length + 1 < SCRIPT_COMMAND_SIZE) (s : σ) :
    Safe (mountPath device c s) := by
  have hmount : Buffer.mount.size = SCRIPT_COMMAND_SIZE := rfl
  have hargument : ∃ mount, mountArgument c.value = .ok mount := by
    unfold mountArgument
    split
    · have hslash : strcpy .mount (some [47]) = .ok [47] := rfl
      rw [hslash]
      refine ⟨[47] ++ c.value, strcat_ok ?_⟩
      rw [hmount, List.length_append, List.length_singleton]
      lia
    · exact ⟨c.value, strcpy_ok (by rw [hmount]; lia)⟩
  obtain ⟨mount, hargument⟩ := hargument
  have hroot : ∃ path, androidRoot device mount = .ok path := by
    unfold androidRoot
    split
    · cases device.sar with
      | true => exact ⟨_, strcpy_ok (by decide)⟩
      | false => exact ⟨_, strcpy_ok (by decide)⟩
    · exact ⟨mount, rfl⟩
  obtain ⟨path, hroot⟩ := hroot
  rw [mountPath, safe_bind hargument, safe_bind hroot]
  exact safe_ok _

theorem splitRestore_length_le (value : List UInt8) :
    (splitRestore value).1.length ≤ value.length ∧ (splitRestore value).2.length ≤ value.length := by
  unfold splitRestore
  split
  · have hdrop := (List.rdropWhile_prefix (fun b : UInt8 => decide (b ≠ 32)) value).length_le
    have htake := (List.rtakeWhile_suffix (fun b : UInt8 => decide (b ≠ 32)) value).length_le
    exact ⟨by rw [List.length_dropLast]; omega, htake⟩
  · exact ⟨Nat.le_refl _, Nat.zero_le _⟩

theorem foldersFit_nil (s : σ) (folder : List UInt8) : FoldersFit device s folder [] := by
  intro pre storage post heq
  cases pre <;> cases heq

/-- The folders behind a storage are tried when the backup is not in its own. -/
theorem foldersFit_cons (s : σ) (folder : List UInt8) (storage : Storage) (rest : List Storage) :
    FoldersFit device s folder (storage :: rest) ↔
      (storage.mounted → storage.folder_var.length + 1 + folder.length < SCRIPT_COMMAND_SIZE) ∧
        (¬ (storage.mounted ∧ device.pathExists s (storage.folder_var ++ 47 :: folder)) →
          FoldersFit device s folder rest) := by
  constructor
  · intro h
    refine ⟨fun hmounted => h [] storage rest rfl hmounted nofun, fun hnot => ?_⟩
    intro pre storage' post heq hmounted' hnone
    refine h (storage :: pre) storage' post (by rw [heq]; rfl) hmounted' ?_
    exact List.forall_mem_cons.2 ⟨fun hmounted hexists => hnot ⟨hmounted, hexists⟩, hnone⟩
  · rintro ⟨hfit, hrest⟩ pre storage' post heq hmounted' hnone
    cases pre with
    | nil =>
      cases heq
      exact hfit hmounted'
    | cons first pre =>
      cases heq
      obtain ⟨hfirst, hnone⟩ := List.forall_mem_cons.1 hnone
      exact hrest (fun h => hfirst h.1 h.2) pre storage' post rfl hmounted' hnone

/-- The folders of the storages are tried up to the first in which the backup is. -/
theorem findBackup_safe_iff (s : σ) (folder : List UInt8) (storages : List Storage) :
    Safe (findBackup device s folder storages) ↔ FoldersFit device s folder storages := by
  induction storages with
  | nil => exact iff_of_true (safe_ok _) (foldersFit_nil device s folder)
  | cons storage rest ih =>
    rw [findBackup, foldersFit_cons, ← ih]
    by_cases hmounted : storage.mounted
    · have hlength : (storage.folder_var ++ 47 :: folder).length =
          storage.folder_var.length + 1 + folder.length := by
        rw [List.length_append, List.length_cons]
        lia
      rw [if_pos hmounted]
      by_cases hfit : storage.folder_var.length + 1 + folder.length < SCRIPT_COMMAND_SIZE
      · rw [← hlength] at hfit
        have hprint : sprintf .backup_folder (storage.folder_var ++ 47 :: folder) =
            .ok (storage.folder_var ++ 47 :: folder) := strcpy_ok hfit
        rw [safe_bind hprint]
        split
        · rename_i hexists
          refine iff_of_true ⟨_, strcpy_ok hfit⟩ ⟨fun _ => hlength ▸ hfit, fun hnot => ?_⟩
          exact absurd ⟨hmounted, hexists⟩ hnot
        · rename_i hexists
          exact ⟨fun h => ⟨fun _ => hlength ▸ hfit, fun _ => h⟩,
            fun h => h.2 fun hfound => hexists hfound.2⟩
      · have hprint : sprintf .backup_folder (storage.folder_var ++ 47 :: folder) =
            .error (.overflow .backup_folder) := if_neg (by rw [hlength]; exact hfit)
        rw [hprint]
        exact iff_of_false (not_safe _) fun h => hfit (h.1 hmounted)
    · rw [if_neg hmounted]
      exact ⟨fun h => ⟨fun hm => absurd hm hmounted, fun _ => h⟩,
        fun h => h.2 fun hfound => hmounted hfound.1⟩

theorem restorePath_safe_iff (s : σ) {folder : List UInt8}
    (hfolder : folder.length + 2 < SCRIPT_COMMAND_SIZE) :
    Safe (restorePath device s folder) ↔
      (folder.head? ≠ some 47 → FoldersFit device s folder (device.storages s)) := by
  have hsize : Buffer.folder_path.size = SCRIPT_COMMAND_SIZE := rfl
  unfold restorePath
  split
  · rename_i hhead
    rw [findBackup_safe_iff]
    exact ⟨fun h _ => h, fun h => h hhead⟩
  · rename_i hhead
    refine iff_of_true ?_ fun h => absurd h hhead
    split
    · exact ⟨_, strcat_ok (by rw [hsize, List.length_append, List.length_singleton]; lia)⟩
    · refine ⟨_, strcat_ok ?_⟩
      rw [hsize, List.length_append]
      exact hfolder

theorem restore_safe_iff {c : Command} (hfit : c.value.length + 2 < SCRIPT_COMMAND_SIZE) (s : σ) :
    Safe (restore device c s) ↔ ((splitRestore c.value).1.head? ≠ some 47 →
      FoldersFit device s (splitRestore c.value).1 (device.storages s)) := by
  obtain ⟨hfolder, hpartitions⟩ := splitRestore_length_le c.value
  have hcopy : strcpy .partitions (some (splitRestore c.value).2) =
      .ok (splitRestore c.value).2 := strcpy_ok (by change _ < SCRIPT_COMMAND_SIZE; lia)
  have hcopy' : strcpy .folder_path (some (splitRestore c.value).1) =
      .ok (splitRestore c.value).1 := strcpy_ok (by change _ < SCRIPT_COMMAND_SIZE; lia)
  have hvalue2 : strcpy .value2 (some (splitRestore c.value).2) =
      .ok (splitRestore c.value).2 := strcpy_ok (by change _ < SCRIPT_COMMAND_SIZE; lia)
  have hfrom : ∀ path, Safe (restoreFrom device c s path (splitRestore c.value).2) := by
    intro path
    unfold restoreFrom
    split
    · exact safe_ok _
    · rw [safe_bind hvalue2]
      exact safe_ok _
  rw [restore, safe_bind hcopy, safe_bind hcopy', ← restorePath_safe_iff device s (by lia)]
  cases hpath : restorePath device s (splitRestore c.value).1 with
  | error f => exact iff_of_false (not_safe f) (not_safe f)
  | ok path => exact iff_of_true (hfrom path) (safe_ok path)

/-- **The commands without a fault are the harmless ones.** -/
theorem exec_safe_iff {c : Command} (h : c.Fits) (s : σ) :
    Safe (exec device c s) ↔ Harmless device c s := by
  have hlen := h.length_lt
  have hcommands : ∀ t, c.command = text t → c.command.length = t.length := by
    intro t ht
    rw [ht, text, List.length_map]
    rfl
  unfold exec
  by_cases hbackup : c.command = text "backup"
  · rw [if_pos hbackup, backup_safe_iff device (by lia) s]
    refine ⟨fun hsafe => ⟨fun _ => hsafe, ?_, ?_, ?_⟩, fun hharmless => hharmless.backup hbackup⟩ <;>
    · exact fun hcommand => absurd (hbackup.symm.trans hcommand) (by decide)
  rw [if_neg hbackup]
  by_cases hrestore : c.command = text "restore"
  · have hname : c.command.length = 7 := hcommands "restore" hrestore
    rw [if_pos hrestore, restore_safe_iff device (by lia) s]
    refine ⟨fun hsafe => ⟨?_, fun _ => hsafe, ?_, ?_⟩, fun hharmless => hharmless.restore hrestore⟩ <;>
    · exact fun hcommand => absurd (hrestore.symm.trans hcommand) (by decide)
  rw [if_neg hrestore]
  by_cases hmount : c.command ∈ ["mount", "unmount", "umount"].map text
  · have hother : ∀ t ∈ ["backup", "restore", "set", "decrypt"], c.command ≠ text t := by
      have hmounts : ∀ m ∈ ["mount", "unmount", "umount"].map text,
          ∀ t ∈ ["backup", "restore", "set", "decrypt"], m ≠ text t := by decide
      exact hmounts _ hmount
    have hname : 1 ≤ c.command.length := by
      obtain ⟨t, ht, heq⟩ := List.mem_map.1 hmount
      have hpos : ∀ t ∈ ["mount", "unmount", "umount"], 1 ≤ (text t).length := by decide
      rw [← heq]
      exact hpos t ht
    rw [if_pos hmount]
    refine iff_of_true (mountPath_safe device (by lia) s) ⟨?_, ?_, ?_, ?_⟩ <;>
    · exact fun hcommand => absurd hcommand (hother _ (by decide))
  rw [if_neg hmount]
  by_cases hset : c.command = text "set"
  · rw [if_pos hset, set_safe_iff device (by lia) s]
    refine ⟨fun hsafe => ⟨?_, ?_, fun _ => hsafe, ?_⟩, fun hharmless => hharmless.set hset⟩ <;>
    · exact fun hcommand => absurd (hset.symm.trans hcommand) (by decide)
  rw [if_neg hset]
  by_cases hdecrypt : c.command = text "decrypt"
  · have hwipe : c.command ≠ text "wipe" := by
      rw [hdecrypt]
      decide
    rw [if_neg hwipe, if_pos hdecrypt, decrypt_safe_iff]
    refine ⟨fun hsafe => ⟨?_, ?_, ?_, fun _ => hsafe⟩, fun hharmless => hharmless.decrypt hdecrypt⟩ <;>
    · exact fun hcommand => absurd (hdecrypt.symm.trans hcommand) (by decide)
  rw [if_neg hdecrypt]
  refine iff_of_true ?_ ⟨fun hcommand => absurd hcommand hbackup,
    fun hcommand => absurd hcommand hrestore, fun hcommand => absurd hcommand hset,
    fun hcommand => absurd hcommand hdecrypt⟩
  -- the other commands use no buffer
  split
  · split <;> exact safe_ok _
  split
  · exact safe_ok _
  split <;> exact safe_ok _

end

/-! ## Runs -/

section

variable {σ : Type}

/-- The run comes to a command, in a state. -/
inductive Reaches (exec : Command → σ → Except Fault (Int × σ)) :
    List Command → σ → Command → σ → Prop where
  | here (c : Command) (rest : List Command) (s : σ) : Reaches exec (c :: rest) s c s
  | later {c c' : Command} {rest : List Command} {s s' s'' : σ} :
    exec c s = .ok (0, s') → Reaches exec rest s' c' s'' → Reaches exec (c :: rest) s c' s''

/-- **A run ends without a fault** when none of the commands it comes to has one. -/
theorem runCommands_safe_iff (exec : Command → σ → Except Fault (Int × σ)) (cs : List Command)
    (s : σ) : Safe (runCommands exec cs s).2 ↔ ∀ c s', Reaches exec cs s c s' → Safe (exec c s') := by
  induction cs generalizing s with
  | nil => exact iff_of_true (safe_ok _) nofun
  | cons c rest ih =>
    rw [runCommands]
    cases hexec : exec c s with
    | error f =>
      refine iff_of_false (not_safe f) fun h => ?_
      have hsafe := h c s (.here c rest s)
      rw [hexec] at hsafe
      exact not_safe f hsafe
    | ok r =>
      obtain ⟨ret_val, s'⟩ := r
      by_cases hzero : ret_val = 0
      · subst hzero
        simp only [if_true]
        rw [ih s']
        constructor
        · rintro h c' s'' (_ | ⟨hstep, hrest⟩)
          · rw [hexec]
            exact safe_ok _
          · rw [hexec] at hstep
            cases hstep
            exact h c' s'' hrest
        · exact fun h c' s'' hrest => h c' s'' (.later hexec hrest)
      · simp only [if_neg hzero]
        refine iff_of_true (safe_ok _) ?_
        rintro c' s'' (_ | ⟨hstep, -⟩)
        · rw [hexec]
          exact safe_ok _
        · rw [hexec] at hstep
          cases hstep
          exact absurd rfl hzero

theorem Reaches.mem {exec : Command → σ → Except Fault (Int × σ)} {cs : List Command} {s s' : σ}
    {c : Command} (h : Reaches exec cs s c s') : c ∈ cs := by
  induction h with
  | here => exact List.mem_cons_self
  | later _ _ ih => exact List.mem_cons_of_mem _ ih

theorem split_value_nil (s : List UInt8) (h : (split s).given = false) : (split s).value = [] := by
  unfold split at h ⊢
  split
  · rename_i hindex
    rw [if_pos hindex] at h
    cases h
  · rfl

theorem fits_of_mem_commands {file : List UInt8} {c : Command} (h : c ∈ commands file) : c.Fits := by
  refine ⟨size_lt_of_mem_commands h, ?_⟩
  obtain ⟨chunk, -, rfl⟩ := List.mem_map.1 h
  exact split_value_nil _

/-- **When a run has no fault**: it copies from no null token, writes past no buffer and takes no
argument from an empty vector exactly when every command that it comes to is harmless: `backup` and
`set` have an argument, a value of `decrypt` is not just blanks, the name of a backup is not just a
line break, and the folder that `restore` looks for fits behind those of the storages. -/
theorem never_faults_iff (device : Device σ) (file : List UInt8) (s : σ) :
    (∀ f, (runScriptFile (exec device) file s).2 ≠ .error f) ↔
      ∀ c s', Reaches (exec device) (commands file) s c s' → Harmless device c s' := by
  rw [← safe_iff, runScriptFile_eq, runCommands_safe_iff]
  constructor
  · exact fun h c s' hreach =>
      (exec_safe_iff device (fits_of_mem_commands hreach.mem) s').1 (h c s' hreach)
  · exact fun h c s' hreach =>
      (exec_safe_iff device (fits_of_mem_commands hreach.mem) s').2 (h c s' hreach)

/-- A device on which everything succeeds. -/
def quietDevice : Device Unit := ⟨fun _ => [], fun _ _ => true, false, fun _ _ => true, fun _ u => (0, u)⟩

/-- `backup` without a value: `strtok` returns null, and `strcpy` copies from it. -/
theorem missing_argument : ¬ ∀ (device : Device Unit) (file : List UInt8) (f : Fault),
    (runScriptFile (exec device) file ()).2 ≠ .error f := by
  intro h
  refine h quietDevice (text "backup" ++ [newline]) .nullToken ?_
  rw [runScriptFile_eq]
  rfl

end

end Recovery.OpenRecoveryScript
