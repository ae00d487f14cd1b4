import Mathlib.Algebra.Order.BigOperators.Group.Finset
import Mathlib.Algebra.Order.BigOperators.Group.List
import Mathlib.Algebra.Order.Ring.Int
import Mathlib.Data.List.Sort
import Mathlib.Data.String.Basic
import Recovery.OtaUtil.AndroidBase

/-!
# Making room in `/cache` (`applypatch/freecache.cpp`)

* `System.findExpendableFiles`, `System.makeFreeSpaceOnCache` — the code, on what the calls to the
  operating system answer.
* `System.Deletable` — the files that may go: regular files of the two directories, but the saved
  source, that no process has open.
* `findExpendableFiles_spec` — the set of files that the loop goes through is the set of those.
* `MakesRoom` — what a call is for.
* `makesRoom_iff` — when it does that.  The test after a deletion is the wrong way round, and
  the value of a failed query is taken for a free space.
-/

set_option autoImplicit false

namespace Recovery.ApplyPatch

open Recovery.OtaUtil

/-- `std::numeric_limits<unsigned int>::max()`. -/
def UINT_MAX : Nat := 2 ^ 32 - 1

/-- What the operating system answers. -/
structure System where
  base : AndroidBase
  /-- `CacheLocation::location().cache_temp_source()`. -/
  cacheTempSource : String
  /-- The names that `readdir` gives; `none` is a failed `opendir`. -/
  opendir : String → Option (List String)
  /-- `stat(path) == 0 && S_ISREG(st.st_mode)`. -/
  isRegular : String → Bool
  /-- The text that `readlink` leaves; `none` is a failed call. -/
  readlink : String → Option String
  /-- What `f_bsize * f_bavail` of `/cache` is before the call. -/
  free : Nat
  /-- What it grows by when the file is unlinked: its size, or nothing where `unlink` fails. -/
  freed : String → Nat
  /-- Whether the `n`-th `statfs` of the call succeeds. -/
  statfs : Nat → Bool

/-- What a call of `MakeFreeSpaceOnCache` returns, the files it unlinks and its number of queries. -/
structure Freed where
  status : Int
  deleted : List String
  queries : Nat
  deriving DecidableEq

/-! ## Sets of paths -/

/-- `insert` of a `std::set`, which is kept in order. -/
def insertFile (path : String) (files : List String) : List String :=
  if path ∈ files then files else files.orderedInsert (· ≤ ·) path

theorem mem_insertFile {path file : String} {files : List String} :
    file ∈ insertFile path files ↔ file = path ∨ file ∈ files := by
  unfold insertFile
  split
  · rename_i h
    constructor
    · exact .inr
    · rintro (rfl | hfile)
      · exact h
      · exact hfile
  · exact List.mem_orderedInsert _

/-- The order of a set. -/
def InOrder (files : List String) : Prop := files.Pairwise (· < ·)

theorem InOrder.insertFile {files : List String} (h : InOrder files) (path : String) :
    InOrder (insertFile path files) := by
  unfold ApplyPatch.insertFile
  split
  · exact h
  · rename_i hnew
    have hsorted : (files.orderedInsert (· ≤ ·) path).Pairwise (· ≤ ·) :=
      (h.imp fun hlt => Std.le_of_lt hlt).orderedInsert path files
    have hnodup : (files.orderedInsert (· ≤ ·) path).Nodup := by
      rw [(List.perm_orderedInsert (· ≤ ·) path files).nodup_iff, List.nodup_cons]
      exact ⟨hnew, h.imp fun hlt => ne_of_lt hlt⟩
    exact (hsorted.and hnodup).imp fun hab => lt_of_le_of_ne hab.1 hab.2

theorem InOrder.nodup {files : List String} (h : InOrder files) : files.Nodup :=
  h.imp fun hlt => ne_of_lt hlt

namespace System

variable (S : System)

/-! ## The code -/

/-- One entry of a directory of `FindExpendableFiles`. -/
def addEntry (dir : String) (files : List String) (name : String) : List String :=
  let path := dir ++ "/" ++ name
  if path = S.cacheTempSource then files
  else if S.isRegular path then insertFile path files else files

def expendableIn (files : List String) (dir : String) : List String :=
  match S.opendir dir with
  | none => files
  | some names => names.foldl (S.addEntry dir) files

/-- One descriptor of a process of `EliminateOpenFiles`. -/
def closeFd (path : String) (files : List String) (fd : String) : List String :=
  match S.readlink (path ++ fd) with
  | none => files
  | some link => if "/cache/".toList.isPrefixOf link.toList then files.erase link else files

def closeProcess (files : List String) (process : String) : List String :=
  if S.base.parseUint process UINT_MAX = none then files else
  let path := "/proc/" ++ process ++ "/fd/"
  match S.opendir path with
  | none => files
  | some fds => fds.foldl (S.closeFd path) files

/-- `EliminateOpenFiles`; `none` is `-1`. -/
def eliminateOpenFiles (files : List String) : Option (List String) :=
  (S.opendir "/proc").map fun processes => processes.foldl S.closeProcess files

def findExpendableFiles : List String :=
  let files := ["/cache", "/cache/recovery/otatest"].foldl S.expendableIn []
  (S.eliminateOpenFiles files).getD []

/-- The free space after some deletions. -/
def space (deleted : List String) : Nat := S.free + (deleted.map S.freed).sum

/-- `FreeSpaceForFile("/cache")`, for the `n`-th time; `-1` is the largest `size_t`. -/
def freeSpaceForFile (n : Nat) (deleted : List String) : Nat :=
  if S.statfs n then S.space deleted % 2 ^ 64 else SIZE_MAX

/-- The loop of `MakeFreeSpaceOnCache` and the return after it. -/
def deleteFiles (bytesNeeded : Nat) : List String → List String → Nat → Nat → Freed
  | [], deleted, queries, freeNow => ⟨if freeNow ≥ bytesNeeded then 0 else -1, deleted, queries⟩
  | file :: files, deleted, queries, _ =>
    let freeNow := S.freeSpaceForFile queries (deleted ++ [file])
    if freeNow < bytesNeeded then
      ⟨if freeNow ≥ bytesNeeded then 0 else -1, deleted ++ [file], queries + 1⟩
    else deleteFiles bytesNeeded files (deleted ++ [file]) (queries + 1) freeNow

def makeFreeSpaceOnCache (bytesNeeded : Nat) : Freed :=
  let freeNow := S.freeSpaceForFile 0 []
  if freeNow ≥ bytesNeeded then ⟨0, [], 1⟩ else
  let files := S.findExpendableFiles
  if files = [] then ⟨-1, [], 1⟩ else
  S.deleteFiles bytesNeeded files [] 1 freeNow

/-! ## What it is for -/

/-- The file is a regular one in one of the two directories, and is not the saved source. -/
def Expendable (path : String) : Prop :=
  ∃ dir ∈ ["/cache", "/cache/recovery/otatest"], ∃ names, S.opendir dir = some names ∧
    ∃ name ∈ names, path = dir ++ "/" ++ name ∧ path ≠ S.cacheTempSource ∧ S.isRegular path = true

/-- `/proc` shows that a process has the file open. -/
def InUse (path : String) : Prop :=
  ∃ processes, S.opendir "/proc" = some processes ∧ ∃ process ∈ processes,
    S.base.parseUint process UINT_MAX ≠ none ∧ ∃ fds,
      S.opendir ("/proc/" ++ process ++ "/fd/") = some fds ∧
        ∃ fd ∈ fds, S.readlink ("/proc/" ++ process ++ "/fd/" ++ fd) = some path

/-- The file may be deleted; nothing is known of it where `/proc` cannot be read. -/
def Deletable (path : String) : Prop :=
  S.Expendable path ∧ S.opendir "/proc" ≠ none ∧ ¬ S.InUse path

/-- What a call should do: it deletes files that may be deleted, each of them while there is too little
room; it fails at a query that does; and otherwise it succeeds where some files can make the room. -/
structure MakesRoom (bytesNeeded : Nat) (out : Freed) : Prop where
  deletable : ∀ file ∈ out.deleted, S.Deletable file
  needed : ∀ k < out.deleted.length, S.space (out.deleted.take k) < bytesNeeded
  failed : (∃ n < out.queries, S.statfs n = false) → out.status ≠ 0
  status : (∀ n < out.queries, S.statfs n = true) → (out.status = 0 ↔
    ∃ files : Finset String, (∀ file ∈ files, S.Deletable file) ∧
      bytesNeeded ≤ S.free + ∑ file ∈ files, S.freed file)

variable {S}

/-! ## The files that the loop goes through -/

/-- A loop that adds to a set. -/
theorem foldl_adds {α : Type} {f : List String → α → List String} {P : α → String → Prop}
    (hf : ∀ files a, InOrder files →
      InOrder (f files a) ∧ ∀ file, file ∈ f files a ↔ file ∈ files ∨ P a file) :
    ∀ (l : List α) {files : List String}, InOrder files →
      InOrder (l.foldl f files) ∧
        ∀ file, file ∈ l.foldl f files ↔ file ∈ files ∨ ∃ a ∈ l, P a file
  | [], files, h => by simpa using h
  | a :: l, files, h => by
    obtain ⟨hone, hmem⟩ := hf files a h
    obtain ⟨hall, hrest⟩ := foldl_adds hf l hone
    refine ⟨hall, fun file => ?_⟩
    rw [List.foldl_cons, hrest, hmem, List.exists_mem_cons_iff, or_assoc]

/-- A loop that takes from a set. -/
theorem foldl_removes {α : Type} {f : List String → α → List String} {P : α → String → Prop}
    (hf : ∀ files a, InOrder files →
      InOrder (f files a) ∧ ∀ file, file ∈ f files a ↔ file ∈ files ∧ ¬ P a file) :
    ∀ (l : List α) {files : List String}, InOrder files →
      InOrder (l.foldl f files) ∧
        ∀ file, file ∈ l.foldl f files ↔ file ∈ files ∧ ¬ ∃ a ∈ l, P a file
  | [], files, h => by simpa using h
  | a :: l, files, h => by
    obtain ⟨hone, hmem⟩ := hf files a h
    obtain ⟨hall, hrest⟩ := foldl_removes hf l hone
    refine ⟨hall, fun file => ?_⟩
    rw [List.foldl_cons, hrest, hmem, List.exists_mem_cons_iff, not_or, and_assoc]

theorem addEntry_spec (dir : String) (files : List String) (name : String) (h : InOrder files) :
    InOrder (S.addEntry dir files name) ∧ ∀ file, file ∈ S.addEntry dir files name ↔
      file ∈ files ∨ (file = dir ++ "/" ++ name ∧ file ≠ S.cacheTempSource ∧
        S.isRegular file = true) := by
  unfold addEntry
  dsimp only
  split
  · rename_i htemp
    refine ⟨h, fun file => (or_iff_left ?_).symm⟩
    rintro ⟨rfl, hne, -⟩
    exact hne htemp
  · rename_i htemp
    split
    · rename_i hreg
      refine ⟨h.insertFile _, fun file => ?_⟩
      rw [mem_insertFile, or_comm]
      refine or_congr Iff.rfl ⟨?_, fun hfile => hfile.1⟩
      rintro rfl
      exact ⟨rfl, htemp, hreg⟩
    · rename_i hreg
      refine ⟨h, fun file => (or_iff_left ?_).symm⟩
      rintro ⟨rfl, -, hfile⟩
      exact hreg hfile

theorem expendableIn_spec (files : List String) (dir : String) (h : InOrder files) :
    InOrder (S.expendableIn files dir) ∧ ∀ file, file ∈ S.expendableIn files dir ↔
      file ∈ files ∨ ∃ names, S.opendir dir = some names ∧ ∃ name ∈ names,
        file = dir ++ "/" ++ name ∧ file ≠ S.cacheTempSource ∧ S.isRegular file = true := by
  unfold expendableIn
  cases hdir : S.opendir dir with
  | none => exact ⟨h, fun file => by simp⟩
  | some names =>
    obtain ⟨horder, hmem⟩ := foldl_adds (addEntry_spec (S := S) dir) names h
    exact ⟨horder, fun file => by rw [hmem]; simp⟩

theorem closeFd_spec (path : String) (files : List String) (fd : String) (h : InOrder files) :
    InOrder (S.closeFd path files fd) ∧ ∀ file, file ∈ S.closeFd path files fd ↔
      file ∈ files ∧ ¬ (S.readlink (path ++ fd) = some file ∧ "/cache/".toList <+: file.toList) := by
  unfold closeFd
  cases hlink : S.readlink (path ++ fd) with
  | none => exact ⟨h, fun file => by simp⟩
  | some link =>
    dsimp only
    split
    · rename_i hcache
      refine ⟨h.sublist List.erase_sublist, fun file => ?_⟩
      rw [h.nodup.mem_erase_iff, and_comm]
      refine and_congr Iff.rfl (not_congr ⟨?_, ?_⟩)
      · rintro rfl
        exact ⟨rfl, List.isPrefixOf_iff_prefix.1 hcache⟩
      · rintro ⟨heq, -⟩
        exact (Option.some.inj heq).symm
    · rename_i hcache
      refine ⟨h, fun file => (and_iff_left ?_).symm⟩
      rintro ⟨heq, hprefix⟩
      rw [← Option.some.inj heq] at hprefix
      exact hcache (List.isPrefixOf_iff_prefix.2 hprefix)

theorem closeProcess_spec (files : List String) (process : String) (h : InOrder files) :
    InOrder (S.closeProcess files process) ∧ ∀ file, file ∈ S.closeProcess files process ↔
      file ∈ files ∧ ¬ (S.base.parseUint process UINT_MAX ≠ none ∧ ∃ fds,
        S.opendir ("/proc/" ++ process ++ "/fd/") = some fds ∧ ∃ fd ∈ fds,
          S.readlink ("/proc/" ++ process ++ "/fd/" ++ fd) = some file ∧
            "/cache/".toList <+: file.toList) := by
  unfold closeProcess
  split
  · rename_i hpid
    exact ⟨h, fun file => (and_iff_left fun hopen => hopen.1 hpid).symm⟩
  · rename_i hpid
    dsimp only
    cases hfds : S.opendir ("/proc/" ++ process ++ "/fd/") with
    | none => exact ⟨h, fun file => by simp⟩
    | some fds =>
      obtain ⟨horder, hmem⟩ := foldl_removes
        (closeFd_spec (S := S) ("/proc/" ++ process ++ "/fd/")) fds h
      exact ⟨horder, fun file => by rw [hmem]; simp [hpid]⟩

/-- Every file of the two directories is below `/cache/`. -/
theorem Expendable.cache {path : String} (h : S.Expendable path) :
    "/cache/".toList <+: path.toList := by
  obtain ⟨dir, hdir, -, -, name, -, rfl, -⟩ := h
  rw [String.toList_append, String.toList_append]
  rcases List.mem_pair.1 hdir with rfl | rfl
  · exact ⟨name.toList, rfl⟩
  · exact ⟨"recovery/otatest/".toList ++ name.toList, rfl⟩

/-- **The files that the loop goes through** are those that may be deleted, in order. -/
theorem findExpendableFiles_spec :
    InOrder S.findExpendableFiles ∧ ∀ file, file ∈ S.findExpendableFiles ↔ S.Deletable file := by
  have hempty : InOrder [] := List.Pairwise.nil
  obtain ⟨horder, hmem⟩ := foldl_adds (expendableIn_spec (S := S))
    ["/cache", "/cache/recovery/otatest"] hempty
  have hexp (file : String) : file ∈ ["/cache", "/cache/recovery/otatest"].foldl S.expendableIn [] ↔
      S.Expendable file := by
    rw [hmem]
    exact or_iff_right List.not_mem_nil
  unfold findExpendableFiles eliminateOpenFiles
  cases hproc : S.opendir "/proc" with
  | none =>
    refine ⟨hempty, fun file => iff_of_false List.not_mem_nil ?_⟩
    rintro ⟨-, hne, -⟩
    exact hne hproc
  | some processes =>
    obtain ⟨hrest, hopen⟩ := foldl_removes closeProcess_spec processes horder
    refine ⟨hrest, fun file => ?_⟩
    show file ∈ processes.foldl S.closeProcess
      (["/cache", "/cache/recovery/otatest"].foldl S.expendableIn []) ↔ S.Deletable file
    rw [hopen, hexp, Deletable]
    refine and_congr_right fun hfile => ?_
    rw [hproc]
    refine ⟨fun hclosed => ⟨nofun, ?_⟩, ?_⟩
    · rintro ⟨processes', hsome, process, hprocess, hpid, fds, hfds, fd, hfd, hlink⟩
      rw [hproc] at hsome
      cases hsome
      exact hclosed ⟨process, hprocess, hpid, fds, hfds, fd, hfd, hlink, hfile.cache⟩
    · rintro ⟨-, hclosed⟩ ⟨process, hprocess, hpid, fds, hfds, fd, hfd, hlink, -⟩
      exact hclosed ⟨processes, hproc, process, hprocess, hpid, fds, hfds, fd, hfd, hlink⟩

/-! ## The loop -/

/-- The loop stops at the first query that shows too little, and otherwise deletes everything. -/
theorem deleteFiles_spec {bytesNeeded : Nat} : ∀ (files deleted : List String) (queries freeNow : Nat),
    bytesNeeded ≤ freeNow →
    let shown k := S.freeSpaceForFile (queries + k) (deleted ++ files.take (k + 1))
    (∃ k < files.length, (∀ j < k, bytesNeeded ≤ shown j) ∧ shown k < bytesNeeded ∧
      S.deleteFiles bytesNeeded files deleted queries freeNow =
        ⟨-1, deleted ++ files.take (k + 1), queries + k + 1⟩) ∨
    ((∀ j < files.length, bytesNeeded ≤ shown j) ∧
      S.deleteFiles bytesNeeded files deleted queries freeNow =
        ⟨0, deleted ++ files, queries + files.length⟩)
  | [], deleted, queries, freeNow, h => by
    refine .inr ⟨nofun, ?_⟩
    rw [deleteFiles, if_pos h, List.append_nil, List.length_nil, Nat.add_zero]
  | file :: files, deleted, queries, freeNow, h => by
    dsimp only
    rw [deleteFiles]
    split
    · rename_i hlt
      refine .inl ⟨0, Nat.succ_pos _, nofun, hlt, ?_⟩
      rw [if_neg (by lia)]
      rfl
    · rename_i hge
      rw [Nat.not_lt] at hge
      have hcons (k : Nat) : deleted ++ (file :: files).take (k + 1 + 1) =
          deleted ++ [file] ++ files.take (k + 1) := by
        rw [List.take_succ_cons, List.append_assoc, List.singleton_append]
      have hadd (k : Nat) : queries + (k + 1) = queries + 1 + k := by lia
      rcases deleteFiles_spec files (deleted ++ [file]) (queries + 1) _ hge with
        ⟨k, hk, hbefore, hshown, heq⟩ | ⟨hall, heq⟩
      · refine .inl ⟨k + 1, Nat.succ_lt_succ hk, ?_, ?_, ?_⟩
        · intro j hj
          cases j with
          | zero => exact hge
          | succ j =>
            rw [hcons, hadd]
            exact hbefore j (by lia)
        · rw [hcons, hadd]
          exact hshown
        · rw [heq, hcons, Nat.add_assoc queries 1 k, Nat.add_comm 1 k]
      · refine .inr ⟨?_, ?_⟩
        · intro j hj
          cases j with
          | zero => exact hge
          | succ j =>
            rw [hcons, hadd]
            exact hall j (Nat.lt_of_succ_lt_succ hj)
        · rw [heq, List.append_assoc, List.singleton_append, List.length_cons]
          congr 1
          lia

/-! ## When a call does what it is for -/

theorem findExpendableFiles_eq {files : List String} (horder : InOrder files)
    (hmem : ∀ file, file ∈ files ↔ S.Deletable file) : S.findExpendableFiles = files := by
  obtain ⟨horder', hmem'⟩ := findExpendableFiles_spec (S := S)
  have hperm : S.findExpendableFiles.Perm files := by
    rw [List.perm_ext_iff_of_nodup horder'.nodup horder.nodup]
    intro file
    rw [hmem', hmem]
  exact hperm.eq_of_pairwise (fun a b _ _ hab hba => absurd hba (not_lt_of_gt hab)) horder' horder

/-- No set of files makes more room than all of them. -/
theorem exists_room_iff {files : List String} (horder : InOrder files)
    (hmem : ∀ file, file ∈ files ↔ S.Deletable file) {bytesNeeded : Nat} :
    (∃ some : Finset String, (∀ file ∈ some, S.Deletable file) ∧
      bytesNeeded ≤ S.free + ∑ file ∈ some, S.freed file) ↔ bytesNeeded ≤ S.space files := by
  have hsum : ∑ file ∈ files.toFinset, S.freed file = (files.map S.freed).sum :=
    List.sum_toFinset S.freed horder.nodup
  constructor
  · rintro ⟨some, hsome, hroom⟩
    have hsub : some ⊆ files.toFinset := by
      intro file hfile
      exact List.mem_toFinset.2 ((hmem file).2 (hsome file hfile))
    have hle := Finset.sum_le_sum_of_subset (f := S.freed) hsub
    rw [hsum] at hle
    exact Nat.le_trans hroom (Nat.add_le_add_left hle _)
  · intro hroom
    refine ⟨files.toFinset, fun file hfile => (hmem file).1 (List.mem_toFinset.1 hfile), ?_⟩
    rw [hsum]
    exact hroom

theorem space_take_le (files : List String) {j k : Nat} (h : j ≤ k) :
    S.space (files.take j) ≤ S.space (files.take k) := by
  refine Nat.add_le_add_left (List.Sublist.sum_le_sum ?_ fun _ _ => Nat.zero_le _) _
  exact ((List.take_prefix_take_left h).sublist).map S.freed

theorem space_take_le_space (files : List String) (k : Nat) :
    S.space (files.take k) ≤ S.space files := by
  have h := space_take_le (S := S) files (Nat.le_max_left k files.length)
  rwa [List.take_of_length_le (Nat.le_max_right k files.length)] at h

/-- A query shows too little where it works and there is too little. -/
theorem freeSpaceForFile_lt_iff {files : List String} (hsize : S.space files ≤ SIZE_MAX)
    {bytesNeeded : Nat} (hneeded : bytesNeeded ≤ SIZE_MAX) (n k : Nat) :
    S.freeSpaceForFile n (files.take k) < bytesNeeded ↔
      S.statfs n = true ∧ S.space (files.take k) < bytesNeeded := by
  have hle := space_take_le_space (S := S) files k
  have hmax : SIZE_MAX < 2 ^ 64 := by decide
  unfold freeSpaceForFile
  split
  · rename_i hworks
    rw [Nat.mod_eq_of_lt (by lia)]
    exact (and_iff_right hworks).symm
  · rename_i hworks
    exact iff_of_false (Nat.not_lt.2 hneeded) fun h => hworks h.1

/-- Where a call does what it is for, of the files that may be deleted, in order.  The first query works;
then there is enough room, or nothing to delete, or one file after which the query works, or the
first query after a deletion that works shows too little.  If that is the very first one, there is
too little without all the files. -/
def FindsRoom (S : System) (bytesNeeded : Nat) (files : List String) : Prop :=
  S.statfs 0 = true ∧ (bytesNeeded ≤ S.free ∨ files = [] ∨
    (files.length = 1 ∧ S.statfs 1 = true) ∨
    ∃ k < files.length, (∀ j < k, S.statfs (1 + j) = false) ∧ S.statfs (1 + k) = true ∧
      S.space (files.take (k + 1)) < bytesNeeded ∧ (k = 0 → S.space files < bytesNeeded))

theorem minusOne_ne : (-1 : Int) ≠ 0 := by decide

section Loop

variable {files : List String} {bytesNeeded : Nat}

/-- The loop has stopped after some file. -/
theorem makesRoom_stopped (horder : InOrder files) (hmem : ∀ file, file ∈ files ↔ S.Deletable file)
    (hfirst : S.statfs 0 = true) {k : Nat} (hk : k < files.length)
    (hfailed : ∀ j < k, S.statfs (1 + j) = false) (hworks : S.statfs (1 + k) = true)
    (hspace : S.space (files.take (k + 1)) < bytesNeeded) :
    S.MakesRoom bytesNeeded ⟨-1, files.take (k + 1), 1 + k + 1⟩ ↔
      (k = 0 → S.space files < bytesNeeded) := by
  constructor
  · rintro h rfl
    have hall : ∀ n < 2, S.statfs n = true := by
      intro n hn
      rcases Nat.le_one_iff_eq_zero_or_eq_one.1 (Nat.le_of_lt_succ hn) with rfl | rfl
      · exact hfirst
      · exact hworks
    have hstatus := h.status hall
    rw [exists_room_iff horder hmem] at hstatus
    exact Nat.not_le.1 fun hroom => absurd (hstatus.2 hroom) minusOne_ne
  · intro h
    refine ⟨?_, ?_, fun _ => minusOne_ne, ?_⟩
    · intro file hfile
      exact (hmem file).1 (List.mem_of_mem_take hfile)
    · intro i hi
      rw [List.length_take] at hi
      rw [List.take_take, Nat.min_eq_left (by lia)]
      exact Nat.lt_of_le_of_lt (space_take_le files (by lia)) hspace
    · intro hall
      have hzero : k = 0 := by
        by_contra hne
        have hfail := hfailed 0 (Nat.pos_of_ne_zero hne)
        rw [hall (1 + 0) (by dsimp only; lia)] at hfail
        cases hfail
      rw [exists_room_iff horder hmem]
      exact iff_of_false minusOne_ne (Nat.not_le.2 (h hzero))

/-- The loop has deleted every file. -/
theorem makesRoom_all (horder : InOrder files) (hmem : ∀ file, file ∈ files ↔ S.Deletable file)
    (hne : files ≠ []) (hfirst : S.statfs 0 = true) (hlt : S.free < bytesNeeded)
    (hshown : S.statfs 1 = true → bytesNeeded ≤ S.space (files.take 1)) :
    S.MakesRoom bytesNeeded ⟨0, files, 1 + files.length⟩ ↔
      files.length = 1 ∧ S.statfs 1 = true := by
  have hpos : 0 < files.length := List.length_pos_of_ne_nil hne
  constructor
  · intro h
    have hworks : S.statfs 1 = true := by
      by_contra hno
      exact h.failed ⟨1, by dsimp only; lia, Bool.eq_false_of_not_eq_true hno⟩ rfl
    refine ⟨?_, hworks⟩
    by_contra hone
    have hneeded := h.needed 1 (by dsimp only; lia)
    exact absurd (hshown hworks) (Nat.not_le.2 hneeded)
  · rintro ⟨hone, hworks⟩
    have hroom := hshown hworks
    rw [List.take_of_length_le (Nat.le_of_eq hone)] at hroom
    have hall : ∀ n < 1 + files.length, S.statfs n = true := by
      intro n hn
      rcases Nat.le_one_iff_eq_zero_or_eq_one.1 (show n ≤ 1 by lia) with rfl | rfl
      · exact hfirst
      · exact hworks
    refine ⟨fun file hfile => (hmem file).1 hfile, ?_, ?_, ?_⟩
    · intro k hk
      rw [show k = 0 by dsimp only at hk; lia]
      exact hlt
    · rintro ⟨n, hn, hfail⟩
      rw [hall n hn] at hfail
      cases hfail
    · intro _
      rw [exists_room_iff horder hmem]
      exact iff_of_true rfl hroom

end Loop

/-- **When a call does what it is for.**  `files` are the files that may be deleted, in order. -/
theorem makesRoom_iff {files : List String} (horder : InOrder files)
    (hmem : ∀ file, file ∈ files ↔ S.Deletable file) (hsize : S.space files ≤ SIZE_MAX)
    {bytesNeeded : Nat} (hneeded : bytesNeeded ≤ SIZE_MAX) :
    S.MakesRoom bytesNeeded (S.makeFreeSpaceOnCache bytesNeeded) ↔
      FindsRoom S bytesNeeded files := by
  have hlt := freeSpaceForFile_lt_iff hsize hneeded
  have hfree : S.freeSpaceForFile 0 [] < bytesNeeded ↔ S.statfs 0 = true ∧ S.free < bytesNeeded := hlt 0 0
  unfold makeFreeSpaceOnCache
  rw [findExpendableFiles_eq horder hmem]
  dsimp only
  split
  · -- The call returns at once.
    rename_i hge
    rw [ge_iff_le, ← Nat.not_lt, hfree] at hge
    constructor
    · intro h
      have hfirst : S.statfs 0 = true := by
        by_contra hno
        exact h.failed ⟨0, Nat.one_pos, Bool.eq_false_of_not_eq_true hno⟩ rfl
      exact ⟨hfirst, .inl (Nat.not_lt.1 fun hless => hge ⟨hfirst, hless⟩)⟩
    · rintro ⟨hfirst, -⟩
      refine ⟨nofun, nofun, ?_, fun _ => iff_of_true rfl ⟨∅, nofun, ?_⟩⟩
      · rintro ⟨n, hn, hfail⟩
        rw [Nat.lt_one_iff.1 hn, hfirst] at hfail
        cases hfail
      · exact Nat.not_lt.1 fun hless => hge ⟨hfirst, by simpa using hless⟩
  · rename_i hless
    rw [ge_iff_le, Nat.not_le, hfree] at hless
    obtain ⟨hfirst, hless⟩ := hless
    split
    · -- There is nothing to delete.
      rename_i hnil
      refine iff_of_true ⟨nofun, nofun, fun _ => minusOne_ne, fun _ => ?_⟩ ⟨hfirst, .inr (.inl hnil)⟩
      rw [exists_room_iff horder hmem, hnil]
      exact iff_of_false minusOne_ne (Nat.not_le.2 hless)
    · rename_i hne
      have heq : S.deleteFiles bytesNeeded files [] 1 (S.freeSpaceForFile 0 []) =
          S.deleteFiles bytesNeeded files [] 1 bytesNeeded := by
        obtain ⟨file, rest, rfl⟩ := List.exists_cons_of_ne_nil hne
        rfl
      have hcond : FindsRoom S bytesNeeded files ↔ (files.length = 1 ∧ S.statfs 1 = true) ∨
          ∃ k < files.length, (∀ j < k, S.statfs (1 + j) = false) ∧ S.statfs (1 + k) = true ∧
            S.space (files.take (k + 1)) < bytesNeeded ∧ (k = 0 → S.space files < bytesNeeded) := by
        rw [FindsRoom, and_iff_right hfirst, or_iff_right (Nat.not_le.2 hless), or_iff_right hne]
      rw [heq, hcond]
      rcases deleteFiles_spec (S := S) files [] 1 bytesNeeded (Nat.le_refl _) with
        ⟨k, hk, hbefore, hshown, hrun⟩ | ⟨hall, hrun⟩
      · -- The loop stops, at a query that works; the ones before it did not.
        obtain ⟨hworks, hspace⟩ := (hlt (1 + k) (k + 1)).1 hshown
        have hfailed : ∀ j < k, S.statfs (1 + j) = false := by
          intro j hj
          by_contra hworks'
          have hle := space_take_le (S := S) files (show j + 1 ≤ k + 1 by omega)
          exact Nat.not_lt.2 (hbefore j hj) ((hlt (1 + j) (j + 1)).2
            ⟨Bool.eq_true_of_not_eq_false hworks', Nat.lt_of_le_of_lt hle hspace⟩)
        rw [hrun]
        refine (makesRoom_stopped horder hmem hfirst hk hfailed hworks hspace).trans ⟨?_, ?_⟩
        · intro h
          exact .inr ⟨k, hk, hfailed, hworks, hspace, h⟩
        · rintro (⟨hone, -⟩ | ⟨k', -, hfailed', -, -, hspace'⟩) hzero
          · rw [hzero, List.take_of_length_le (Nat.le_of_eq hone)] at hspace
            exact hspace
          · apply hspace'
            by_contra hpos
            have hfail := hfailed' 0 (Nat.pos_of_ne_zero hpos)
            rw [hzero] at hworks
            rw [hworks] at hfail
            cases hfail
      · have hshown : S.statfs 1 = true → bytesNeeded ≤ S.space (files.take 1) := by
          intro hworks
          have h := Nat.not_lt.2 (hall 0 (List.length_pos_of_ne_nil hne))
          exact Nat.not_lt.1 fun hspace => h ((hlt 1 1).2 ⟨hworks, hspace⟩)
        rw [hrun]
        refine (makesRoom_all horder hmem hne hfirst hless hshown).trans (or_iff_left ?_).symm
        -- No query shows too little.
        rintro ⟨k, hk, -, hworks, hspace, -⟩
        exact Nat.not_lt.2 (hall k hk) ((hlt (1 + k) (k + 1)).2 ⟨hworks, hspace⟩)

/-! ## Examples -/

/-- A `/cache` of some files of these sizes, one of them open, and this much room. -/
def cacheOf (sizes : List (String × Nat)) (opened : String) (free : Nat) : System where
  base := .decimal
  cacheTempSource := "/cache/saved.file"
  opendir path :=
    if path = "/cache" then some ("." :: ".." :: sizes.map Prod.fst)
    else if path = "/proc" then some ["1", "self"]
    else if path = "/proc/1/fd/" then some ["0"]
    else none
  isRegular path := sizes.any fun file => path = "/cache/" ++ file.1
  readlink _ := some opened
  free := free
  freed path := ((sizes.find? fun file => path = "/cache/" ++ file.1).map Prod.snd).getD 0
  statfs _ := true

def twoClosedFiles : System := cacheOf [("a", 8), ("b", 8), ("c", 8)] "/cache/c" 2

theorem twoClosedFiles_files : InOrder ["/cache/a", "/cache/b"] ∧
    ∀ file, file ∈ ["/cache/a", "/cache/b"] ↔ twoClosedFiles.Deletable file := by
  have hfiles : twoClosedFiles.findExpendableFiles = ["/cache/a", "/cache/b"] := by decide +kernel
  rw [← hfiles]
  exact findExpendableFiles_spec

theorem makesRoom_iff_closed : twoClosedFiles.MakesRoom 20 (twoClosedFiles.makeFreeSpaceOnCache 20) ↔
    FindsRoom twoClosedFiles 20 ["/cache/a", "/cache/b"] :=
  makesRoom_iff twoClosedFiles_files.1 twoClosedFiles_files.2 (by decide +kernel) (by decide)

/-- The two files would make the room; the call stops after the first of them and fails. -/
theorem not_makesRoom_closed : twoClosedFiles.space ["/cache/a", "/cache/b"] ≤ SIZE_MAX ∧
    ¬ twoClosedFiles.MakesRoom 12 (twoClosedFiles.makeFreeSpaceOnCache 12) := by
  refine ⟨by decide +kernel, fun h => ?_⟩
  have hrun : twoClosedFiles.makeFreeSpaceOnCache 12 = ⟨-1, ["/cache/a"], 2⟩ := by decide +kernel
  rw [hrun] at h
  have hstatus := h.status fun _ _ => rfl
  rw [exists_room_iff twoClosedFiles_files.1 twoClosedFiles_files.2] at hstatus
  exact absurd (hstatus.2 (by decide +kernel)) minusOne_ne

end System

end Recovery.ApplyPatch
