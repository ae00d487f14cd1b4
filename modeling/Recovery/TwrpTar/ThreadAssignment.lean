import Recovery.TwrpTar.TarList
import Mathlib.Data.List.Nodup
import Mathlib.Data.List.Perm.Basic
import Mathlib.Tactic.Linarith

/-!
# Threads of a backup (`twrpTar.cpp`)

* `IsFile` — the regular files of a directory that are not excluded; `listed` — everything that
  is put on a list, in order.
* `folderBytes`, `encryptBytes` — the sizes that are added up, without the wraparound.
* `Extends` — a list grows at its end, and its thread ids do not go down.
* `Paced` — every thread that was left has more than the target size.
* `generate_spec` — what `Generate_TarList` does to a list that keeps the pace.
* `threads_spec` — every regular file is on one list once, for a thread that is started, when the
  sizes add up to less than 2^64 bytes.
* `wrapped_total` — three files of almost 2^64 bytes together, and a thread that is not started.
-/

set_option autoImplicit false

namespace Recovery.TwrpTar

/-! ## Files and names -/

/-- A regular file below a path, neither excluded itself nor in an excluded directory. -/
inductive IsFile (ex : TWExclude) : Path → Dir → Path → Prop where
  | here {path : Path} {known : Bool} {name : Name} {st_size : Nat} {rest : Dir} :
    ex.check_skip_dirs (path ++ [name]) = false →
    IsFile ex path (.file known .reg name st_size rest) (path ++ [name])
  | inside {path fn : Path} {known : Bool} {name : Name} {entries rest : Dir} :
    ex.check_skip_dirs (path ++ [name]) = false → IsFile ex (path ++ [name]) entries fn →
    IsFile ex path (.dir known name entries rest) fn
  | afterFile {path fn : Path} {known : Bool} {type : FileType} {name : Name} {st_size : Nat}
    {rest : Dir} :
    IsFile ex path rest fn → IsFile ex path (.file known type name st_size rest) fn
  | afterDir {path fn : Path} {known : Bool} {name : Name} {entries rest : Dir} :
    IsFile ex path rest fn → IsFile ex path (.dir known name entries rest) fn
  | afterClosed {path fn : Path} {known : Bool} {name : Name} {rest : Dir} :
    IsFile ex path rest fn → IsFile ex path (.closed known name rest) fn
  | afterSpecial {path fn : Path} {name : Name} {rest : Dir} :
    IsFile ex path rest fn → IsFile ex path (.special name rest) fn

/-- What `Generate_TarList` puts on a list. -/
def listed (ex : TWExclude) : Path → Dir → List Path
  | _, .nil => []
  | path, .file known _ name _ rest =>
    if ex.check_skip_dirs (path ++ [name]) || !known then listed ex path rest
    else (path ++ [name]) :: listed ex path rest
  | path, .dir known name entries rest =>
    if ex.check_skip_dirs (path ++ [name]) || !known then listed ex path rest
    else (path ++ [name]) :: (listed ex (path ++ [name]) entries ++ listed ex path rest)
  | path, .closed _ _ rest => listed ex path rest
  | path, .special _ rest => listed ex path rest

variable {ex : TWExclude}

theorem isFile_listed {path fn : Path} {d : Dir} (h : IsFile ex path d fn) (hknown : d.Known) :
    fn ∈ listed ex path d := by
  induction h with
  | here hskip => simp [listed, hskip, hknown.1]
  | inside hskip _ ih => simp [listed, hskip, hknown.1, ih hknown.2.1]
  | afterFile _ ih =>
    rw [listed]
    split
    · exact ih hknown.2
    · exact List.mem_cons_of_mem _ (ih hknown.2)
  | afterDir _ ih =>
    rw [listed]
    split
    · exact ih hknown.2.2
    · exact List.mem_cons_of_mem _ (List.mem_append_right _ (ih hknown.2.2))
  | afterClosed _ ih => exact ih hknown.2
  | afterSpecial _ ih => exact ih hknown

/-- What is listed is below one of the entries. -/
theorem listed_below {d : Dir} {path fn : Path} (h : fn ∈ listed ex path d) :
    ∃ name ∈ d.names, ∃ tail, fn = path ++ name :: tail := by
  induction d generalizing path with
  | nil => cases h
  | file known type name st_size rest ih =>
    rw [listed] at h
    split at h
    · obtain ⟨name', hmem, tail, rfl⟩ := ih h
      exact ⟨name', List.mem_cons_of_mem _ hmem, tail, rfl⟩
    · obtain rfl | h := List.mem_cons.1 h
      · exact ⟨name, List.mem_cons_self, [], rfl⟩
      · obtain ⟨name', hmem, tail, rfl⟩ := ih h
        exact ⟨name', List.mem_cons_of_mem _ hmem, tail, rfl⟩
  | dir known name entries rest ihe ih =>
    rw [listed] at h
    split at h
    · obtain ⟨name', hmem, tail, rfl⟩ := ih h
      exact ⟨name', List.mem_cons_of_mem _ hmem, tail, rfl⟩
    · obtain rfl | h := List.mem_cons.1 h
      · exact ⟨name, List.mem_cons_self, [], rfl⟩
      obtain h | h := List.mem_append.1 h
      · obtain ⟨name', -, tail, rfl⟩ := ihe h
        exact ⟨name, List.mem_cons_self, name' :: tail, by simp⟩
      · obtain ⟨name', hmem, tail, rfl⟩ := ih h
        exact ⟨name', List.mem_cons_of_mem _ hmem, tail, rfl⟩
  | closed known name rest ih =>
    obtain ⟨name', hmem, tail, rfl⟩ := ih h
    exact ⟨name', List.mem_cons_of_mem _ hmem, tail, rfl⟩
  | special name rest ih =>
    obtain ⟨name', hmem, tail, rfl⟩ := ih h
    exact ⟨name', List.mem_cons_of_mem _ hmem, tail, rfl⟩

/-- Nothing below an entry is listed again with the entries after it. -/
theorem listed_fresh {d : Dir} {path : Path} {name : Name} (h : name ∉ d.names) (tail : Path) :
    path ++ name :: tail ∉ listed ex path d := by
  intro hmem
  obtain ⟨name', hname, tail', heq⟩ := listed_below hmem
  obtain ⟨rfl, -⟩ := List.cons.inj (List.append_cancel_left heq)
  exact h hname

theorem listed_nodup {d : Dir} (h : d.Distinct) (path : Path) : (listed ex path d).Nodup := by
  induction d generalizing path with
  | nil => exact List.nodup_nil
  | file known type name st_size rest ih =>
    rw [listed]
    split
    · exact ih h.2 path
    · exact List.nodup_cons.2 ⟨listed_fresh h.1 [], ih h.2 path⟩
  | dir known name entries rest ihe ih =>
    obtain ⟨hname, hentries, hrest⟩ := h
    rw [listed]
    split
    · exact ih hrest path
    · refine List.nodup_cons.2 ⟨?_, List.nodup_append'.2 ⟨ihe hentries _, ih hrest path, ?_⟩⟩
      · rw [List.mem_append, not_or]
        refine ⟨fun hmem => ?_, listed_fresh hname []⟩
        obtain ⟨name', -, tail, heq⟩ := listed_below hmem
        simp at heq
      · intro fn hmem hmem'
        obtain ⟨name', -, tail, rfl⟩ := listed_below hmem
        rw [List.append_assoc, List.singleton_append] at hmem'
        exact listed_fresh hname (name' :: tail) hmem'
  | closed known name rest ih => exact ih h.2 path
  | special name rest ih => exact ih h.2 path

/-! ## Sizes -/

/-- `Get_Folder_Size` without the wraparound. -/
def folderBytes (ex : TWExclude) : Path → Dir → Nat
  | _, .nil => 0
  | path, .file _ _ _ st_size rest => st_size + folderBytes ex path rest
  | path, .dir _ name entries rest =>
    if ex.check_skip_dirs (path ++ [name]) then folderBytes ex path rest
    else folderBytes ex (path ++ [name]) entries + folderBytes ex path rest
  | path, .closed _ _ rest => folderBytes ex path rest
  | path, .special _ rest => folderBytes ex path rest

theorem getFolderSize_eq (d : Dir) (path : Path) :
    ex.Get_Folder_Size path d = folderBytes ex path d % 2 ^ 64 := by
  induction d generalizing path with
  | nil => rfl
  | file known type name st_size rest ih =>
    rw [TWExclude.Get_Folder_Size, folderBytes, ih, Nat.add_mod_mod]
  | dir known name entries rest ihe ih =>
    rw [TWExclude.Get_Folder_Size, folderBytes]
    split
    · exact ih path
    · rw [ihe, ih, ← Nat.add_mod]
  | closed known name rest ih => exact ih path
  | special name rest ih => exact ih path

/-! ## Lists in the making -/

/-- `s'` has these files more than `s`, for threads from the one of `s` on. -/
structure Extends (s s' : Listing) (fns : List Path) : Prop where
  forward : s.thread_id ≤ s'.thread_id
  appended : ∃ items, s'.TarList = s.TarList ++ items ∧ items.map TarListStruct.fn = fns ∧
    ∀ item ∈ items, s.thread_id ≤ item.thread_id ∧ item.thread_id ≤ s'.thread_id

theorem Extends.refl (s : Listing) : Extends s s [] :=
  ⟨le_refl _, [], (List.append_nil _).symm, rfl, nofun⟩

theorem Extends.trans {s s' s'' : Listing} {fns fns' : List Path} (h : Extends s s' fns)
    (h' : Extends s' s'' fns') : Extends s s'' (fns ++ fns') := by
  obtain ⟨hle, items, hlist, hfns, hids⟩ := h
  obtain ⟨hle', items', hlist', hfns', hids'⟩ := h'
  refine ⟨hle.trans hle', items ++ items', ?_, ?_, ?_⟩
  · rw [hlist', hlist, List.append_assoc]
  · rw [List.map_append, hfns, hfns']
  · intro item hitem
    obtain hitem | hitem := List.mem_append.1 hitem
    · obtain ⟨h, h'⟩ := hids item hitem
      exact ⟨h, h'.trans hle'⟩
    · obtain ⟨h, h'⟩ := hids' item hitem
      exact ⟨hle.trans h, h'⟩

theorem Extends.push (s : Listing) (fn : Path) : Extends s (s.push fn) [fn] := by
  refine ⟨le_refl _, [⟨fn, s.thread_id⟩], rfl, rfl, ?_⟩
  intro item hitem
  rw [List.mem_singleton.1 hitem]
  exact ⟨le_refl _, le_refl _⟩

theorem Extends.count {s s' : Listing} {fns : List Path} (h : Extends s s' fns) (type : FileType)
    (st_size : Nat) : Extends s (s'.count type st_size) fns := by
  cases type with
  | reg => exact ⟨h.forward, h.appended⟩
  | lnk => exact h

/-- The threads from `start` on have had `total` bytes, each thread that was left more than the
target size; without a target size no thread is left. -/
structure Paced (Target_Size start total : Nat) (s : Listing) : Prop where
  single : Target_Size = 0 → s.thread_id = start
  pace : Target_Size ≠ 0 → ∃ left, s.thread_id = start + left ∧
    left * (Target_Size + 1) + s.Archive_Current_Size ≤ total

theorem Paced.mono {Target_Size start total total' : Nat} {s : Listing}
    (h : Paced Target_Size start total s) (hle : total ≤ total') :
    Paced Target_Size start total' s := by
  refine ⟨h.single, fun h0 => ?_⟩
  obtain ⟨left, hid, hpace⟩ := h.pace h0
  exact ⟨left, hid, hpace.trans hle⟩

/-- A target size for `threads` threads, and what is to be divided among them. -/
structure Budget (Target_Size start threads bytes : Nat) : Prop where
  start_le : start ≤ 1
  threads_le : threads ≤ 8
  target : Target_Size = 0 ∨ bytes < threads * (Target_Size + 1)

/-- Within the budget there are never more threads than there are to be. -/
theorem Budget.left_lt {Target_Size start threads bytes left : Nat}
    (hb : Budget Target_Size start threads bytes) (h0 : Target_Size ≠ 0)
    (h : left * (Target_Size + 1) ≤ bytes) : left < threads := by
  have hlt := hb.target.resolve_left h0
  exact Nat.lt_of_mul_lt_mul_right (lt_of_le_of_lt h hlt)

variable {Target_Size start threads bytes : Nat}

theorem Paced.push {total : Nat} {s : Listing} (h : Paced Target_Size start total s) (fn : Path) :
    Paced Target_Size start total (s.push fn) := ⟨h.single, h.pace⟩

theorem Paced.count {total : Nat} {s : Listing} (h : Paced Target_Size start total s)
    (type : FileType) (st_size : Nat) :
    Paced Target_Size start (total + st_size) (s.count type st_size) := by
  cases type with
  | reg =>
    refine ⟨h.single, fun h0 => ?_⟩
    obtain ⟨left, hid, hpace⟩ := h.pace h0
    have hmod := Nat.mod_le (s.Archive_Current_Size + st_size) (2 ^ 64)
    refine ⟨left, hid, ?_⟩
    simp only [Listing.count]
    omega
  | lnk => exact h.mono (Nat.le_add_right _ _)

/-- A list within the budget comes to none but the threads there are to be. -/
theorem Paced.last (hb : Budget Target_Size start threads bytes) {total : Nat} {s : Listing}
    (h : Paced Target_Size start total s) (hle : total ≤ bytes) (hpos : 0 < threads) :
    s.thread_id < start + threads := by
  by_cases h0 : Target_Size = 0
  · rw [h.single h0]
    lia
  · obtain ⟨left, hid, hpace⟩ := h.pace h0
    have hlt := hb.left_lt h0 ((Nat.le_of_add_right_le hpace).trans hle)
    lia

/-- The step from one thread to the next. -/
theorem advance_spec (hb : Budget Target_Size start threads bytes) {total : Nat} {s s' : Listing}
    {fns : List Path} (he : Extends s s' fns) (h : Paced Target_Size start total s')
    (hle : total ≤ bytes) :
    Extends s (s'.advance Target_Size) fns ∧
      Paced Target_Size start total (s'.advance Target_Size) := by
  rw [Listing.advance]
  split
  · rename_i hmore
    obtain ⟨left, hid, hpace⟩ := h.pace hmore.2.1
    have hpace' : (left + 1) * (Target_Size + 1) ≤ total := by
      rw [Nat.add_mul]
      lia
    have hlt := hb.left_lt hmore.2.1 (hpace'.trans hle)
    have hstart := hb.start_le
    have hthreads := hb.threads_le
    have hnext : (s'.thread_id + 1) % 2 ^ 32 = s'.thread_id + 1 := Nat.mod_eq_of_lt (by lia)
    rw [hnext]
    refine ⟨⟨?_, ?_⟩, fun h0 => (hmore.2.1 h0).elim, fun _ => ⟨left + 1, ?_, ?_⟩⟩
    · exact he.forward.trans (Nat.le_succ _)
    · obtain ⟨items, hlist, hfns, hids⟩ := he.appended
      refine ⟨items, hlist, hfns, fun item hitem => ?_⟩
      obtain ⟨h, h'⟩ := hids item hitem
      exact ⟨h, h'.trans (Nat.le_succ _)⟩
    · dsimp only
      lia
    · exact hpace'
  · exact ⟨he, h⟩

/-- **`Generate_TarList` lists what is not excluded, in order, and keeps the pace.** -/
theorem generate_spec (hb : Budget Target_Size start threads bytes) {d : Dir} {path : Path}
    {s s' : Listing} {total : Nat} (h : Paced Target_Size start total s)
    (hle : total + folderBytes ex path d ≤ bytes)
    (hs : Generate_TarList ex Target_Size path d s = some s') :
    Extends s s' (listed ex path d) ∧
      Paced Target_Size start (total + folderBytes ex path d) s' := by
  induction d generalizing path s s' total with
  | nil =>
    cases hs
    exact ⟨.refl _, h⟩
  | file known type name st_size rest ih =>
    rw [folderBytes] at hle
    rw [folderBytes, listed, ← Nat.add_assoc]
    rw [Generate_TarList] at hs
    split at hs
    · rename_i hskip
      rw [if_pos hskip]
      exact ih (h.mono (Nat.le_add_right total st_size)) (by lia) hs
    · rename_i hskip
      rw [if_neg hskip]
      have hpush := h.push (path ++ [name])
      obtain ⟨he, hp⟩ := advance_spec hb ((Extends.push s (path ++ [name])).count type st_size)
        (hpush.count type st_size) (by lia)
      obtain ⟨he', hp'⟩ := ih hp (by lia) hs
      exact ⟨he.trans he', hp'⟩
  | dir known name entries rest ihe ih =>
    rw [folderBytes] at hle
    rw [folderBytes, listed]
    rw [Generate_TarList] at hs
    split at hs
    · rename_i hskip
      rw [if_pos hskip]
      -- of a directory that is passed over at most the size counts
      have hrest : folderBytes ex path rest ≤
          if ex.check_skip_dirs (path ++ [name]) then folderBytes ex path rest
          else folderBytes ex (path ++ [name]) entries + folderBytes ex path rest := by
        split <;> lia
      obtain ⟨he, hp⟩ := ih h (by lia) hs
      exact ⟨he, hp.mono (by lia)⟩
    · rename_i hskip
      have hpass : ¬ ex.check_skip_dirs (path ++ [name]) = true := fun h => hskip (by simp [h])
      rw [if_neg hpass] at hle ⊢
      rw [if_neg hskip, ← Nat.add_assoc]
      obtain ⟨t, ht, hs⟩ := Option.bind_eq_some_iff.1 hs
      have hpush := h.push (path ++ [name])
      have hinside : total + folderBytes ex (path ++ [name]) entries ≤ bytes := by lia
      obtain ⟨he, hp⟩ := ihe hpush hinside ht
      obtain ⟨he', hp'⟩ := ih hp (by lia) hs
      exact ⟨((Extends.push s (path ++ [name])).trans he).trans he', hp'⟩
  | closed known name rest ih =>
    rw [Generate_TarList] at hs
    split at hs
    · exact ih h hle hs
    · cases hs
  | special name rest ih => exact ih h hle hs

/-- An element of a list of distinct files is there once. -/
theorem filter_fn {l : List TarListStruct} (h : (l.map TarListStruct.fn).Nodup) {fn : Path}
    (hmem : fn ∈ l.map TarListStruct.fn) : ∃ id, l.filter (fun i => i.fn = fn) = [⟨fn, id⟩] := by
  induction l with
  | nil => cases hmem
  | cons item l ih =>
    obtain ⟨hnew, hrest⟩ := List.nodup_cons.1 h
    by_cases heq : item.fn = fn
    · have hnone : l.filter (fun i => i.fn = fn) = [] := by
        rw [List.filter_eq_nil_iff]
        intro i hi hfn
        have hsame : i.fn = item.fn := (of_decide_eq_true hfn).trans heq.symm
        exact hnew (hsame ▸ List.mem_map_of_mem hi)
      subst heq
      exact ⟨item.thread_id, by rw [List.filter_cons_of_pos (by simp), hnone]⟩
    · have hmem : fn ∈ l.map TarListStruct.fn :=
        (List.mem_cons.1 hmem).resolve_left (Ne.symm heq)
      obtain ⟨id, hid⟩ := ih hrest hmem
      exact ⟨id, by rw [List.filter_cons_of_neg (by simp [heq]), hid]⟩

/-- A list that started empty. -/
theorem Extends.items {s s' : Listing} {fns : List Path} (h : Extends s s' fns)
    (hempty : s.TarList = []) : s'.TarList.map TarListStruct.fn = fns ∧
      ∀ item ∈ s'.TarList, s.thread_id ≤ item.thread_id ∧ item.thread_id ≤ s'.thread_id := by
  obtain ⟨items, hlist, hfns, hids⟩ := h.appended
  rw [hempty, List.nil_append] at hlist
  subst hlist
  exact ⟨hfns, hids⟩

/-! ## The two passes -/

namespace TarFork

variable (f : TarFork)

/-- What the first pass puts on the list that is not encrypted. -/
def listedRegular : Dir → List Path
  | .nil => []
  | .dir known name entries rest =>
    let path := f.tardir ++ [name]
    if !(f.backup_exclusions.check_skip_dirs path || !known) && f.isRegular name then
      listed f.backup_exclusions path entries ++ listedRegular rest
    else listedRegular rest
  | .file _ _ _ _ rest => listedRegular rest
  | .closed _ _ rest => listedRegular rest
  | .special _ rest => listedRegular rest

/-- What the second pass puts on the list that is encrypted. -/
def listedEncrypted : Dir → List Path
  | .nil => []
  | .file known _ name _ rest =>
    if f.backup_exclusions.check_skip_dirs (f.tardir ++ [name]) || !known then listedEncrypted rest
    else (f.tardir ++ [name]) :: listedEncrypted rest
  | .dir known name entries rest =>
    let path := f.tardir ++ [name]
    if !(f.backup_exclusions.check_skip_dirs path || !known) && !f.isRegular name then
      listed f.backup_exclusions path entries ++ listedEncrypted rest
    else listedEncrypted rest
  | .closed _ _ rest => listedEncrypted rest
  | .special _ rest => listedEncrypted rest

/-- `encrypt_size` without the wraparound. -/
def encryptBytes : Dir → Nat
  | .nil => 0
  | .file known type name st_size rest =>
    if !(f.backup_exclusions.check_skip_dirs (f.tardir ++ [name]) || !known) && type = .reg then
      st_size + encryptBytes rest
    else encryptBytes rest
  | .dir known name entries rest =>
    let path := f.tardir ++ [name]
    if !(f.backup_exclusions.check_skip_dirs path || !known) && !f.isRegular name then
      folderBytes f.backup_exclusions path entries + encryptBytes rest
    else encryptBytes rest
  | .closed _ _ rest => encryptBytes rest
  | .special _ rest => encryptBytes rest

variable {f}

theorem isFile_mem {d : Dir} {fn : Path} (h : IsFile f.backup_exclusions f.tardir d fn)
    (hknown : d.Known) : fn ∈ f.listedRegular d ++ f.listedEncrypted d := by
  rw [List.mem_append]
  induction d with
  | nil => cases h
  | file known type name st_size rest ih =>
    obtain ⟨rfl, hknown⟩ := hknown
    rw [listedRegular, listedEncrypted]
    cases h with
    | here hskip =>
      rw [hskip]
      exact .inr List.mem_cons_self
    | afterFile h =>
      split
      · exact ih h hknown
      · exact (ih h hknown).imp_right (List.mem_cons_of_mem _)
  | dir known name entries rest ihe ih =>
    obtain ⟨rfl, hentries, hknown⟩ := hknown
    rw [listedRegular, listedEncrypted]
    cases h with
    | inside hskip h =>
      have hmem := isFile_listed h hentries
      cases hreg : f.isRegular name with
      | true => exact .inl (by simp [hskip, hmem])
      | false => exact .inr (by simp [hskip, hmem])
    | afterDir h =>
      refine (ih h hknown).imp (fun hmem => ?_) (fun hmem => ?_)
      · split
        · exact List.mem_append_right _ hmem
        · exact hmem
      · split
        · exact List.mem_append_right _ hmem
        · exact hmem
  | closed known name rest ih =>
    cases h with
    | afterClosed h => exact ih h hknown.2
  | special name rest ih =>
    cases h with
    | afterSpecial h => exact ih h hknown

/-- The two lists have nothing that one list would not have. -/
theorem count_le (d : Dir) (fn : Path) :
    (f.listedRegular d).count fn + (f.listedEncrypted d).count fn ≤
      (listed f.backup_exclusions f.tardir d).count fn := by
  induction d with
  | nil => exact le_refl _
  | file known type name st_size rest ih =>
    rw [listedRegular, listedEncrypted, listed]
    split
    · exact ih
    · simp only [List.count_cons]
      lia
  | dir known name entries rest ihe ih =>
    rw [listedRegular, listedEncrypted, listed]
    cases (f.backup_exclusions.check_skip_dirs (f.tardir ++ [name]) || !known) with
    | true => simpa using ih
    | false =>
      cases f.isRegular name with
      | true =>
        simp [List.count_cons, List.count_append]
        lia
      | false =>
        simp [List.count_cons, List.count_append]
        lia
  | closed known name rest ih => exact ih
  | special name rest ih => exact ih

theorem lists_nodup {d : Dir} (h : d.Distinct) :
    (f.listedRegular d ++ f.listedEncrypted d).Nodup := by
  rw [List.nodup_iff_count_le_one]
  intro fn
  have hone := List.nodup_iff_count_le_one.1 (@listed_nodup f.backup_exclusions d h f.tardir) fn
  have hle := @count_le f d fn
  rw [List.count_append]
  lia

/-- **The first pass** lists for one thread, and measures up to the wraparound. -/
theorem measure_spec {d : Dir} {reg reg' : Listing} {encrypt_size encrypt_size' : Nat}
    (hid : reg.thread_id = 0) (hlt : encrypt_size < 2 ^ 64)
    (h : f.measure d reg encrypt_size = some (reg', encrypt_size')) :
    Extends reg reg' (f.listedRegular d) ∧ reg'.thread_id = 0 ∧
      encrypt_size' = (encrypt_size + f.encryptBytes d) % 2 ^ 64 := by
  induction d generalizing reg encrypt_size with
  | nil =>
    cases h
    exact ⟨.refl _, hid, (Nat.mod_eq_of_lt hlt).symm⟩
  | file known type name st_size rest ih =>
    rw [listedRegular, encryptBytes]
    cases hskip : (f.backup_exclusions.check_skip_dirs (f.tardir ++ [name]) || !known) with
    | true =>
      have h : f.measure rest reg encrypt_size = some (reg', encrypt_size') := by
        cases type <;> simpa [measure, hskip] using h
      exact ih hid hlt h
    | false =>
      cases type with
      | reg =>
        simp only [measure, hskip, Bool.false_eq_true, if_false] at h
        obtain ⟨he, hid', hsize⟩ := ih hid (Nat.mod_lt _ (by decide)) h
        refine ⟨he, hid', hsize.trans ?_⟩
        simp [Nat.add_assoc]
      | lnk =>
        simp only [measure, hskip, Bool.false_eq_true, if_false] at h
        exact ih hid hlt h
  | dir known name entries rest ihe ih =>
    rw [measure] at h
    rw [listedRegular, encryptBytes]
    cases hskip : (f.backup_exclusions.check_skip_dirs (f.tardir ++ [name]) || !known) with
    | true =>
      rw [hskip] at h
      exact ih hid hlt h
    | false =>
      rw [hskip] at h
      cases hreg : f.isRegular name with
      | true =>
        rw [hreg] at h
        obtain ⟨t, ht, h⟩ := Option.bind_eq_some_iff.1 h
        have hb : Budget 0 0 0 (0 + folderBytes f.backup_exclusions (f.tardir ++ [name]) entries) :=
          ⟨by decide, by decide, .inl rfl⟩
        have hp : Paced 0 0 0 reg := ⟨fun _ => hid, fun h0 => (h0 rfl).elim⟩
        obtain ⟨he, hp'⟩ := generate_spec hb hp (le_refl _) ht
        obtain ⟨he', hid', hsize⟩ := ih (hp'.single rfl) hlt h
        exact ⟨he.trans he', hid', hsize⟩
      | false =>
        rw [hreg] at h
        obtain ⟨he, hid', hsize⟩ := ih hid (Nat.mod_lt _ (by decide)) h
        refine ⟨he, hid', hsize.trans ?_⟩
        simp [Nat.add_assoc, getFolderSize_eq]
  | closed known name rest ih =>
    rw [measure] at h
    split at h
    · exact ih hid hlt h
    · split at h
      · cases h
      · exact ih hid hlt h
  | special name rest ih => exact ih hid hlt h

/-- **The second pass** keeps the pace. -/
theorem divide_spec {Target_Size start threads bytes total : Nat}
    (hb : Budget Target_Size start threads bytes) {d : Dir} {s s' : Listing}
    (h : Paced Target_Size start total s) (hle : total + f.encryptBytes d ≤ bytes)
    (hs : f.divide Target_Size d s = some s') :
    Extends s s' (f.listedEncrypted d) ∧
      Paced Target_Size start (total + f.encryptBytes d) s' := by
  induction d generalizing s total with
  | nil =>
    cases hs
    exact ⟨.refl _, h⟩
  | file known type name st_size rest ih =>
    rw [divide] at hs
    rw [encryptBytes] at hle
    rw [listedEncrypted, encryptBytes]
    cases hskip : (f.backup_exclusions.check_skip_dirs (f.tardir ++ [name]) || !known) with
    | true =>
      rw [hskip] at hs hle
      exact ih h hle hs
    | false =>
      rw [hskip] at hs hle
      have hpush := (Extends.refl s).count type st_size |>.trans (.push _ (f.tardir ++ [name]))
      cases type with
      | reg =>
        have hcount := (h.count .reg st_size).push (f.tardir ++ [name])
        have hle : total + st_size + f.encryptBytes rest ≤ bytes := by
          rw [Nat.add_assoc]
          exact hle
        obtain ⟨he, hp⟩ := ih hcount hle hs
        refine ⟨hpush.trans he, ?_⟩
        rw [Nat.add_assoc] at hp
        exact hp
      | lnk =>
        obtain ⟨he, hp⟩ := ih (h.push (f.tardir ++ [name])) hle hs
        exact ⟨hpush.trans he, hp⟩
  | dir known name entries rest ihe ih =>
    rw [divide] at hs
    rw [encryptBytes] at hle
    rw [listedEncrypted, encryptBytes]
    cases hskip : (f.backup_exclusions.check_skip_dirs (f.tardir ++ [name]) || !known) with
    | true =>
      rw [hskip] at hs hle
      exact ih h hle hs
    | false =>
      cases hreg : f.isRegular name with
      | true =>
        rw [hskip, hreg] at hs hle
        exact ih h hle hs
      | false =>
        rw [hskip, hreg] at hs hle
        obtain ⟨t, ht, hs⟩ := Option.bind_eq_some_iff.1 hs
        have hle : total + (folderBytes f.backup_exclusions (f.tardir ++ [name]) entries +
            f.encryptBytes rest) ≤ bytes := hle
        obtain ⟨he, hp⟩ := generate_spec hb h (by omega) ht
        obtain ⟨he', hp'⟩ := ih hp (by omega) hs
        rw [Nat.add_assoc] at hp'
        exact ⟨he.trans he', hp'⟩
  | closed known name rest ih =>
    rw [divide] at hs
    split at hs
    · exact ih h hle hs
    · split at hs
      · exact ih h hle hs
      · cases hs
  | special name rest ih => exact ih h hle hs

/-! ## Threads -/

theorem coreCount_bounds (processors : Processors) :
    0 < coreCount processors ∧ coreCount processors ≤ 8 := by
  obtain ⟨n, hn⟩ := processors
  simp only [coreCount]
  omega

/-- A target size that is the quotient and one more leaves no byte for another thread. -/
theorem budget_of_target {bytes cores : Nat} (hbytes : bytes < 2 ^ 64) (hcores : 0 < cores)
    (hle : cores ≤ 8) {start : Nat} (hstart : start ≤ 1) :
    Budget ((bytes / cores + 1) % 2 ^ 64) start cores bytes := by
  refine ⟨hstart, hle, ?_⟩
  have hquot : bytes / cores ≤ bytes := Nat.div_le_self bytes cores
  by_cases hwrap : bytes / cores + 1 < 2 ^ 64
  · right
    rw [Nat.mod_eq_of_lt hwrap]
    have hlt := Nat.lt_mul_div_succ bytes hcores
    calc bytes < cores * (bytes / cores + 1) := hlt
      _ ≤ cores * (bytes / cores + 1 + 1) := Nat.mul_le_mul_left _ (Nat.le_succ _)
  · left
    have hmax : bytes / cores + 1 = 2 ^ 64 := by lia
    rw [hmax, Nat.mod_self]

/-- **Every regular file is on one list once, for a thread that is started.** -/
theorem threads_spec (f : TarFork) (processors : Processors)
    (hbytes : f.use_encryption || f.userdata_encryption → f.encryptBytes f.root < 2 ^ 64)
    {L : Lists} (h : f.lists processors = some L) :
    (f.root.Known → ∀ fn, IsFile f.backup_exclusions f.tardir f.root fn →
      ∃ id, (L.RegularList ++ L.EncryptList).filter (fun i => i.fn = fn) = [⟨fn, id⟩]) ∧
    (∀ item ∈ L.RegularList, item.thread_id = 0) ∧
    (∀ item ∈ L.EncryptList, L.start_thread_id ≤ item.thread_id ∧ item.thread_id ≤ L.core_count) ∧
    L.enc_thread_id ≤ L.core_count := by
  rw [lists] at h
  split at h
  · rename_i henc
    obtain ⟨⟨reg, encrypt_size⟩, hm, h⟩ := Option.bind_eq_some_iff.1 h
    obtain ⟨enc, hd, h⟩ := Option.bind_eq_some_iff.1 h
    cases h
    dsimp only at hd ⊢
    obtain ⟨hcores, hcores8⟩ := coreCount_bounds processors
    obtain ⟨hreg, hid, hsize⟩ := measure_spec rfl (by decide) hm
    rw [Nat.zero_add, Nat.mod_eq_of_lt (hbytes henc)] at hsize
    subst hsize
    have hstart : (if f.userdata_encryption then 1 else 0) ≤ 1 := by split <;> decide
    have hb := budget_of_target (hbytes henc) hcores hcores8 hstart
    have hp : Paced ((f.encryptBytes f.root / coreCount processors + 1) % 2 ^ 64)
        (if f.userdata_encryption then 1 else 0) 0
        ⟨[], if f.userdata_encryption then 1 else 0, 0⟩ :=
      ⟨fun _ => rfl, fun _ => ⟨0, rfl, by simp⟩⟩
    obtain ⟨he, hp'⟩ := divide_spec hb hp (by omega) hd
    obtain ⟨hregFns, hregIds⟩ := hreg.items rfl
    obtain ⟨hencFns, hencIds⟩ := he.items rfl
    have hlast : enc.thread_id ≤ if f.userdata_encryption then coreCount processors
        else coreCount processors - 1 := by
      have hlt := hp'.last hb (by omega) hcores
      split
      · rename_i huser
        rw [if_pos huser] at hlt
        omega
      · rename_i huser
        rw [if_neg huser] at hlt
        omega
    refine ⟨fun hknown fn hfn => ?_, fun item hitem => ?_, fun item hitem => ?_, hlast⟩
    · apply filter_fn
      · rw [List.map_append, hregFns, hencFns]
        exact lists_nodup f.distinct
      · rw [List.map_append, hregFns, hencFns]
        exact isFile_mem hfn hknown
    · have hle := (hregIds item hitem).2
      rw [hid] at hle
      exact Nat.le_zero.1 hle
    · obtain ⟨hfrom, hto⟩ := hencIds item hitem
      exact ⟨hfrom, hto.trans hlast⟩
  · obtain ⟨t, ht, h⟩ := Option.bind_eq_some_iff.1 h
    cases h
    have hb : Budget 0 0 0 (0 + folderBytes f.backup_exclusions f.tardir f.root) :=
      ⟨by decide, by decide, .inl rfl⟩
    have hp : Paced 0 0 0 ⟨[], 0, 0⟩ := ⟨fun _ => rfl, fun h0 => (h0 rfl).elim⟩
    obtain ⟨he, hp'⟩ := generate_spec hb hp (le_refl _) ht
    obtain ⟨hfns, hids⟩ := he.items rfl
    refine ⟨fun hknown fn hfn => ?_, fun item hitem => ?_, nofun, le_refl 0⟩
    · rw [List.append_nil]
      apply filter_fn
      · rw [hfns]
        exact listed_nodup f.distinct f.tardir
      · rw [hfns]
        exact isFile_listed hfn hknown
    · have hlast := (hids item hitem).2
      rw [hp'.single rfl] at hlast
      exact Nat.le_zero.1 hlast

/-- User data with one directory of 10 and 20 bytes, encrypted on four processors. -/
def smallFork : TarFork where
  use_encryption := true
  userdata_encryption := true
  backup_exclusions := ⟨[".".toList, "..".toList], []⟩
  tardir := ["data".toList]
  root := .dir true "app".toList (.file true .reg "base".toList 5 .nil)
    (.dir true "media".toList
      (.file true .reg "a".toList 10 (.file true .reg "b".toList 20 .nil)) .nil)
  distinct := by simp [Dir.Distinct, Dir.names]

theorem threads_small :
    ∃ L, smallFork.lists ⟨4, by decide⟩ = some L ∧
      (∀ fn, IsFile smallFork.backup_exclusions smallFork.tardir smallFork.root fn →
        ∃ id, (L.RegularList ++ L.EncryptList).filter (fun i => i.fn = fn) = [⟨fn, id⟩]) ∧
      (∀ item ∈ L.RegularList, item.thread_id = 0) ∧
      (∀ item ∈ L.EncryptList,
        L.start_thread_id ≤ item.thread_id ∧ item.thread_id ≤ L.core_count) ∧
      L.enc_thread_id ≤ L.core_count := by
  refine ⟨_, rfl, ?_⟩
  have h := threads_spec smallFork ⟨4, by decide⟩ (fun _ => by decide) rfl
  exact ⟨h.1 (by simp [smallFork, Dir.Known]), h.2⟩

/-- Three files in one directory that have 2^64 + 1 bytes together. -/
def hugeFork : TarFork where
  use_encryption := true
  userdata_encryption := false
  backup_exclusions := ⟨[".".toList, "..".toList], []⟩
  tardir := ["data".toList]
  root := .dir true "media".toList
    (.file true .reg "a".toList (2 ^ 63 - 1)
      (.file true .reg "b".toList (2 ^ 63 - 1) (.file true .reg "c".toList 3 .nil))) .nil
  distinct := by simp [Dir.Distinct, Dir.names]

/-- A file on a file system that leaves `d_type` at `DT_UNKNOWN`. -/
def unknownFork : TarFork where
  use_encryption := true
  userdata_encryption := false
  backup_exclusions := ⟨[".".toList, "..".toList], []⟩
  tardir := ["data".toList]
  root := .file false .reg "a".toList 10 .nil
  distinct := by simp [Dir.Distinct, Dir.names]

/-- The total wraps around to one byte, and every file is given to another thread; a file of a type
that is not reported is on no list. -/
theorem wrapped_total :
    let fn := ["data".toList, "media".toList, "b".toList]
    let unknown := ["data".toList, "a".toList]
    (IsFile hugeFork.backup_exclusions hugeFork.tardir hugeFork.root fn ∧
      ∃ L, hugeFork.lists ⟨1, by decide⟩ = some L ∧ L.core_count = 0 ∧ ⟨fn, 1⟩ ∈ L.EncryptList) ∧
    IsFile unknownFork.backup_exclusions unknownFork.tardir unknownFork.root unknown ∧
      ∃ L, unknownFork.lists ⟨1, by decide⟩ = some L ∧ L.RegularList ++ L.EncryptList = [] :=
  ⟨⟨.inside (by decide) (.afterFile (.here (by decide))), _, rfl, by decide, by decide⟩,
    .here (by decide), _, rfl, rfl⟩

end TarFork

end Recovery.TwrpTar
