import Recovery.TwrpTar.Exclude
import Recovery.TwrpTar.TarList

/-!
# What a backup measures and what it lists (`exclude.cpp`, `twrpTar.cpp`)

`Get_Folder_Size` goes by what `lstat` says of an entry, `Generate_TarList` by the `d_type` that
`readdir` reports, which a file system may leave at `DT_UNKNOWN`.

* `Kind`, `Dirent`, `Tree` — a directory as `readdir`, `lstat` and `opendir` show it, without `.`
  and `..`, which are skipped everywhere (`check_skip_dirs_dots`).
* `Get_Folder_Size`, `Generate_TarList` — as in the source.
* `Tree.entries` — all entries below a path; `content` — those that no exclusion is on the way of.
* `kept`, `listed`, `missed`, `skipped` — what passes the tests of the source; what of it is listed,
  because all types on the way are reported; the rest of it; and the excluded files, which are
  measured, too.
* `Generate_TarList_eq`, `Get_Folder_Size_eq` — what is listed, and what is measured.
* `Exact` — the list is the content, and the size is its size.
* `exact_iff` — when it is; `excluded_link_counts` — a size that is not.
* `Get_Folder_Size_names`, `Generate_TarList_names` — below an absolute path the spelling of slashes
  does not matter: the model with lists of names (`TarList`) does the same.
-/

set_option autoImplicit false

namespace Recovery.TwrpTar.Exclude

open Recovery.Lib

/-! ### Directories -/

/-- Of a `d_type`, and of the file type in `st_mode`. -/
inductive Kind where
  | dir
  | reg
  | lnk
  | blk
  | chr
  | fifo
  | sock
  deriving DecidableEq

def S_IFDIR : Nat := 0o040000
def S_IFREG : Nat := 0o100000
def S_IFLNK : Nat := 0o120000

def Kind.st_mode : Kind → Nat
  | .dir => S_IFDIR
  | .reg => S_IFREG
  | .lnk => S_IFLNK
  | .blk => 0o060000
  | .chr => 0o020000
  | .fifo => 0o010000
  | .sock => 0o140000

/-- What a backup stores. -/
def Kind.Stored (k : Kind) : Prop := k = .dir ∨ k = .reg ∨ k = .lnk

instance (k : Kind) : Decidable k.Stored := inferInstanceAs (Decidable (_ ∨ _))

structure Dirent where
  d_name : Str
  /-- What `lstat` says. -/
  kind : Kind
  /-- What `readdir` says: the same, or `DT_UNKNOWN`. -/
  d_type : Option Kind
  d_type_eq : ∀ k ∈ d_type, k = kind
  st_size : Nat
  /-- A directory that cannot be opened. -/
  closed : Bool
  isPiece : IsPiece '/' d_name
  /-- Devices, pipes and sockets have no size. -/
  size_eq : kind = .blk ∨ kind = .chr ∨ kind = .fifo ∨ kind = .sock → st_size = 0

/-- `opendir` succeeds. -/
def Dirent.Opens (de : Dirent) : Prop := de.kind = .dir ∧ de.closed = false

instance (de : Dirent) : Decidable de.Opens := inferInstanceAs (Decidable (_ ∧ _))

def Dirent.known (de : Dirent) : Bool := de.d_type.isSome

theorem Dirent.d_type_of_known {de : Dirent} (h : de.known = true) : de.d_type = some de.kind := by
  obtain ⟨k, hk⟩ := Option.isSome_iff_exists.1 h
  rw [hk, de.d_type_eq k hk]

theorem Dirent.d_type_of_unknown {de : Dirent} (h : de.known = false) : de.d_type = none :=
  Option.isNone_iff_eq_none.1 (by rw [← Option.not_isSome, ← Dirent.known, h]; rfl)

inductive Tree where
  | nil
  /-- An entry, what is below it, and the other entries. -/
  | entry (de : Dirent) (below rest : Tree)

/-! ### The source -/

def TWExclude.Get_Folder_Size (ex : TWExclude) (Path : Str) : Tree → Nat
  | .nil => 0
  | .entry de below rest =>
    let FullPath := Path ++ '/' :: de.d_name
    let size :=
      if de.kind.st_mode &&& S_IFDIR ≠ 0 ∧ ex.check_skip_dirs FullPath = false ∧
          de.d_type ≠ some .sock then
        if de.Opens then ex.Get_Folder_Size FullPath below else 0
      else if de.kind.st_mode &&& S_IFREG ≠ 0 ∨ de.kind.st_mode &&& S_IFLNK ≠ 0 then de.st_size
      else 0
    (size + ex.Get_Folder_Size Path rest) % 2 ^ 64

structure TarListStruct where
  fn : Str
  thread_id : Nat
  deriving DecidableEq

/-- The list, the thread that takes the next file, and the bytes that it has. -/
structure Listing where
  TarList : List TarListStruct
  thread_id : Nat
  Archive_Current_Size : Nat
  deriving DecidableEq

namespace Listing

def push (s : Listing) (fn : Str) : Listing :=
  { s with TarList := s.TarList ++ [⟨fn, s.thread_id⟩] }

/-- A file is put down to the thread, and the next one takes over when this one has enough. -/
def count (s : Listing) (de : Dirent) (Target_Size : Nat) : Listing :=
  let s :=
    if de.d_type = some .reg then
      { s with Archive_Current_Size := (s.Archive_Current_Size + de.st_size) % 2 ^ 64 }
    else s
  if s.Archive_Current_Size ≠ 0 ∧ Target_Size ≠ 0 ∧ Target_Size < s.Archive_Current_Size then
    { s with thread_id := (s.thread_id + 1) % 2 ^ 32, Archive_Current_Size := 0 }
  else s

def files (s : Listing) : List Str := s.TarList.map (·.fn)

@[simp] theorem files_push (s : Listing) (fn : Str) : (s.push fn).files = s.files ++ [fn] := by
  simp [files, push]

@[simp] theorem files_count (s : Listing) (de : Dirent) (Target_Size : Nat) :
    (s.count de Target_Size).files = s.files := by
  unfold count files
  dsimp only
  split <;> split <;> rfl

end Listing

/-- Nothing comes of it when a directory cannot be opened. -/
def Generate_TarList (backup_exclusions : TWExclude) (Target_Size : Nat) :
    Str → Tree → Listing → Option Listing
  | _, .nil, s => some s
  | Path, .entry de below rest, s =>
    let FileName := Path ++ '/' :: de.d_name
    if de.d_type = some .blk ∨ de.d_type = some .chr ∨
        backup_exclusions.check_skip_dirs FileName = true then
      Generate_TarList backup_exclusions Target_Size Path rest s
    else if de.d_type = some .dir then
      if de.Opens then do
        let s ← Generate_TarList backup_exclusions Target_Size FileName below (s.push FileName)
        Generate_TarList backup_exclusions Target_Size Path rest s
      else none
    else if de.d_type = some .reg ∨ de.d_type = some .lnk then
      Generate_TarList backup_exclusions Target_Size Path rest
        ((s.push FileName).count de Target_Size)
    else Generate_TarList backup_exclusions Target_Size Path rest s

/-! ### What is below a path -/

/-- An entry with its names from the path on. -/
structure Entry where
  names : List Str
  /-- Its type and those of the directories on the way are reported. -/
  known : Bool
  de : Dirent

def Entry.under (de : Dirent) (e : Entry) : Entry :=
  { e with names := de.d_name :: e.names, known := de.known && e.known }

/-- Its whole path. -/
def Entry.fn (path : Str) (e : Entry) : Str := path ++ joined '/' e.names

def Entry.size (e : Entry) : Nat := if e.de.kind = .reg ∨ e.de.kind = .lnk then e.de.st_size else 0

def Tree.entries : Tree → List Entry
  | .nil => []
  | .entry de below rest =>
    ⟨[de.d_name], de.known, de⟩ :: ((if de.Opens then below.entries else []).map (.under de) ++
      rest.entries)

/-- The path is not excluded, and nothing below it on the way. -/
def Clear (x : Exclusions) (path : Str) (names : List Str) : Prop :=
  ∀ k, k ≤ names.length → ¬ x.Excluded (path ++ joined '/' (names.take k))

open scoped Classical in
/-- What a backup of the path has to hold. -/
noncomputable def content (x : Exclusions) (path : Str) (tree : Tree) : List Entry :=
  tree.entries.filter fun e => e.de.kind.Stored ∧ Clear x path e.names

/-- The list is the content, and the size is the size of what is in it. -/
structure Exact (x : Exclusions) (path : Str) (tree : Tree) : Prop where
  listed : ∀ Target_Size s, ∃ s', Generate_TarList x.build Target_Size path tree s = some s' ∧
    s'.files = s.files ++ (content x path tree).map (Entry.fn path)
  measured : x.build.Get_Folder_Size path tree = ((content x path tree).map (·.size)).sum

/-! ### What the two recursions do -/

variable (ex : TWExclude)

/-- Nothing on the way is skipped. -/
def keeps : Str → List Str → Bool
  | _, [] => true
  | path, n :: names => !ex.check_skip_dirs (path ++ '/' :: n) && keeps (path ++ '/' :: n) names

/-- The last name is skipped, and nothing before it. -/
def skips : Str → List Str → Bool
  | _, [] => false
  | path, [n] => ex.check_skip_dirs (path ++ '/' :: n)
  | path, n :: m :: names =>
    !ex.check_skip_dirs (path ++ '/' :: n) && skips (path ++ '/' :: n) (m :: names)

/-- What is stored of the entries whose names pass a test. -/
def selected (test : List Str → Bool) (tree : Tree) : List Entry :=
  tree.entries.filter fun e => e.de.kind.Stored ∧ test e.names = true

def kept (path : Str) (tree : Tree) : List Entry := selected (keeps ex path) tree

/-- Excluded files and links, in directories that are not. -/
def skipped (path : Str) (tree : Tree) : List Entry := selected (skips ex path) tree

theorem names_ne_nil {tree : Tree} {e : Entry} (h : e ∈ tree.entries) : e.names ≠ [] := by
  induction tree with
  | nil => exact absurd h List.not_mem_nil
  | entry de below rest _ ihr =>
    rw [Tree.entries, List.mem_cons, List.mem_append, List.mem_map] at h
    rcases h with rfl | ⟨e', -, rfl⟩ | h
    · exact List.cons_ne_nil _ _
    · exact List.cons_ne_nil _ _
    · exact ihr h

theorem isPiece_of_mem_entries {tree : Tree} {e : Entry} (h : e ∈ tree.entries) :
    ∀ n ∈ e.names, IsPiece '/' n := by
  induction tree generalizing e with
  | nil => exact absurd h List.not_mem_nil
  | entry de below rest ihb ihr =>
    rw [Tree.entries, List.mem_cons, List.mem_append, List.mem_map] at h
    rcases h with rfl | ⟨e', he', rfl⟩ | h
    · intro n hn
      rw [List.mem_singleton.1 hn]
      exact de.isPiece
    · intro n hn
      rcases List.mem_cons.1 hn with rfl | hn
      · exact de.isPiece
      · split at he'
        · exact ihb he' n hn
        · exact absurd he' List.not_mem_nil
    · exact ihr h

/-- A test that goes on below a name where this is not skipped. -/
theorem selected_entry {test test' : List Str → Bool} {skip : Bool} {de : Dirent}
    (below rest : Tree) (h : ∀ names, names ≠ [] →
      test (de.d_name :: names) = (!skip && test' names)) :
    selected test (.entry de below rest) =
      (if de.kind.Stored ∧ test [de.d_name] = true then [⟨[de.d_name], de.known, de⟩] else []) ++
        ((if de.Opens ∧ skip = false then selected test' below else []).map (.under de) ++
          selected test rest) := by
  have hbelow : ((if de.Opens then below.entries else []).map (Entry.under de)).filter
      (fun e => decide (e.de.kind.Stored ∧ test e.names = true)) =
        (if de.Opens ∧ skip = false then selected test' below else []).map (.under de) := by
    rw [List.filter_map]
    congr 1
    by_cases hopen : de.Opens
    · rw [if_pos hopen]
      cases skip with
      | false =>
        rw [if_pos ⟨hopen, rfl⟩, selected]
        refine List.filter_congr fun e he => ?_
        have := h e.names (names_ne_nil he)
        rw [Bool.not_false, Bool.true_and] at this
        rw [Function.comp_apply, Entry.under, this]
      | true =>
        rw [if_neg (by simp)]
        refine List.filter_eq_nil_iff.2 fun e he => ?_
        have := h e.names (names_ne_nil he)
        rw [Bool.not_true, Bool.false_and] at this
        simp [Entry.under, this]
    · rw [if_neg hopen, if_neg (fun hc => hopen hc.1)]
      rfl
  rw [selected, Tree.entries, List.filter_cons, List.filter_append, hbelow]
  simp only [decide_eq_true_eq]
  by_cases hd : de.kind.Stored ∧ test [de.d_name] = true
  · rw [if_pos hd, if_pos hd]
    rfl
  · rw [if_neg hd, if_neg hd]
    rfl

theorem kept_entry (path : Str) (de : Dirent) (below rest : Tree) :
    kept ex path (.entry de below rest) =
      (if de.kind.Stored ∧ ex.check_skip_dirs (path ++ '/' :: de.d_name) = false then
        [⟨[de.d_name], de.known, de⟩] else []) ++
      ((if de.Opens ∧ ex.check_skip_dirs (path ++ '/' :: de.d_name) = false then
        kept ex (path ++ '/' :: de.d_name) below else []).map (.under de) ++
          kept ex path rest) := by
  rw [kept, selected_entry below rest fun names _ => rfl]
  simp [keeps, kept]

theorem skipped_entry (path : Str) (de : Dirent) (below rest : Tree) :
    skipped ex path (.entry de below rest) =
      (if de.kind.Stored ∧ ex.check_skip_dirs (path ++ '/' :: de.d_name) = true then
        [⟨[de.d_name], de.known, de⟩] else []) ++
      ((if de.Opens ∧ ex.check_skip_dirs (path ++ '/' :: de.d_name) = false then
        skipped ex (path ++ '/' :: de.d_name) below else []).map (.under de) ++
          skipped ex path rest) := by
  refine selected_entry below rest fun names hne => ?_
  cases names with
  | nil => exact absurd rfl hne
  | cons m names => rfl

/-! ### The list -/

theorem fn_under (path : Str) (de : Dirent) (e : Entry) :
    (e.under de).fn path = e.fn (path ++ '/' :: de.d_name) := by
  rw [Entry.fn, Entry.under, joined_cons, Entry.fn, List.append_assoc]
  rfl

theorem map_fn_under (path : Str) (de : Dirent) (es : List Entry) :
    (es.map (Entry.under de)).map (Entry.fn path) =
      es.map (Entry.fn (path ++ '/' :: de.d_name)) := by
  rw [List.map_map]
  exact List.map_congr_left fun e _ => fn_under path de e

/-- What is listed of what is kept. -/
def listed (path : Str) (tree : Tree) : List Entry := (kept ex path tree).filter (·.known)

/-- What is not, because a type on the way is not reported. -/
def missed (path : Str) (tree : Tree) : List Entry := (kept ex path tree).filter (!·.known)

theorem filter_known_under (de : Dirent) (es : List Entry) :
    (es.map (Entry.under de)).filter (·.known) =
      (if de.known = true then es.filter (·.known) else []).map (.under de) := by
  rw [List.filter_map]
  cases h : de.known with
  | true => simp [Function.comp_def, Entry.under, h]
  | false => simp [Function.comp_def, Entry.under, h]

theorem listed_entry (path : Str) (de : Dirent) (below rest : Tree) :
    listed ex path (.entry de below rest) =
      (if de.known = true ∧ de.kind.Stored ∧
          ex.check_skip_dirs (path ++ '/' :: de.d_name) = false then
        [⟨[de.d_name], de.known, de⟩] else []) ++
      ((if de.known = true ∧ de.Opens ∧ ex.check_skip_dirs (path ++ '/' :: de.d_name) = false then
        listed ex (path ++ '/' :: de.d_name) below else []).map (.under de) ++
          listed ex path rest) := by
  rw [listed, kept_entry, List.filter_append, List.filter_append, filter_known_under]
  cases hknown : de.known with
  | true =>
    congr 1
    · split <;> simp_all
    · congr 2
      simp only [if_true, true_and]
      split
      · rfl
      · rfl
  | false =>
    congr 1
    split <;> simp_all

/-- Every directory in which the recursion goes on can be opened. -/
def Opened (path : Str) (tree : Tree) : Prop :=
  ∀ e ∈ listed ex path tree, e.de.kind = .dir → e.de.closed = false

theorem Generate_TarList_eq (Target_Size : Nat) (path : Str) (tree : Tree) (s : Listing)
    (h : Opened ex path tree) : ∃ s', Generate_TarList ex Target_Size path tree s = some s' ∧
      s'.files = s.files ++ (listed ex path tree).map (Entry.fn path) := by
  induction tree generalizing path s with
  | nil => exact ⟨s, rfl, (List.append_nil _).symm⟩
  | entry de below rest ihb ihr =>
    have hk := listed_entry ex path de below rest
    rw [Opened, hk] at h
    have hrest : Opened ex path rest := fun e he =>
      h e (List.mem_append_right _ (List.mem_append_right _ he))
    have hfn : Entry.fn path ⟨[de.d_name], de.known, de⟩ = path ++ '/' :: de.d_name := by
      simp [Entry.fn, joined]
    rw [Generate_TarList, hk]
    cases hskip : ex.check_skip_dirs (path ++ '/' :: de.d_name) with
    | true =>
      obtain ⟨s', hs', hf⟩ := ihr path s hrest
      exact ⟨s', by simpa using hs', by simpa using hf⟩
    | false =>
      rw [hskip] at h
      cases hknown : de.known with
      | false =>
        -- in neither branch
        obtain ⟨s', hs', hf⟩ := ihr path s hrest
        rw [de.d_type_of_unknown hknown]
        exact ⟨s', by simpa using hs', by simpa using hf⟩
      | true =>
        rw [hknown] at h hfn
        rw [de.d_type_of_known hknown]
        simp only [Option.some.injEq]
        by_cases hdir : de.kind = .dir
        · have hopen : de.Opens :=
            ⟨hdir, h ⟨[de.d_name], true, de⟩ (by simp [Kind.Stored, hdir]) hdir⟩
          have hbelow : Opened ex (path ++ '/' :: de.d_name) below := by
            intro e he
            refine h (e.under de) ?_
            simp only [hopen, and_self, if_true, List.mem_append]
            exact .inr (.inl (List.mem_map_of_mem he))
          obtain ⟨s1, hs1, hf1⟩ := ihb _ (s.push (path ++ '/' :: de.d_name)) hbelow
          obtain ⟨s2, hs2, hf2⟩ := ihr path s1 hrest
          refine ⟨s2, by simp [hdir, hopen, hs1, hs2], ?_⟩
          rw [hf2, hf1]
          simp [Kind.Stored, hdir, hopen, hfn, ← map_fn_under]
        · have hopen : ¬ de.Opens := fun ho => hdir ho.1
          by_cases hfile : de.kind = .reg ∨ de.kind = .lnk
          · obtain ⟨s', hs', hf⟩ :=
              ihr path ((s.push (path ++ '/' :: de.d_name)).count de Target_Size) hrest
            have hdev : ¬ (de.kind = .blk ∨ de.kind = .chr) := by
              rcases hfile with hfile | hfile <;> simp [hfile]
            refine ⟨s', by simpa [hdev, hdir, hfile] using hs', ?_⟩
            rw [hf]
            simp [Kind.Stored, hfile, hopen, hfn]
          · obtain ⟨s', hs', hf⟩ := ihr path s hrest
            refine ⟨s', ?_, ?_⟩
            · simp only [hdir, hfile, if_false, ite_self]
              exact hs'
            · rw [hf]
              simp [Kind.Stored, hdir, hfile, hopen]

theorem opened_of_Generate_TarList (Target_Size : Nat) (path : Str) (tree : Tree)
    (s s' : Listing) (h : Generate_TarList ex Target_Size path tree s = some s') :
    Opened ex path tree := by
  induction tree generalizing path s s' with
  | nil => exact fun e he => absurd he List.not_mem_nil
  | entry de below rest ihb ihr =>
    intro e he
    rw [listed_entry] at he
    rw [Generate_TarList] at h
    cases hskip : ex.check_skip_dirs (path ++ '/' :: de.d_name) with
    | true =>
      have hrest := ihr path s s' (by simpa [hskip] using h)
      rw [hskip] at he
      exact hrest e (by simpa using he)
    | false =>
      rw [hskip] at he
      cases hknown : de.known with
      | false =>
        rw [hknown] at he
        rw [de.d_type_of_unknown hknown] at h
        exact ihr path s s' (by simpa [hskip] using h) e (by simpa using he)
      | true =>
        rw [hknown] at he
        rw [de.d_type_of_known hknown] at h
        simp only [Option.some.injEq] at h
        by_cases hdir : de.kind = .dir
        · by_cases hopen : de.Opens
          · simp only [hdir, hskip, hopen, reduceCtorEq, Bool.false_eq_true, or_self, if_true,
              if_false, Option.bind_eq_bind, Option.bind_eq_some_iff] at h
            obtain ⟨s1, hs1, hs2⟩ := h
            simp only [hopen, and_self, true_and, if_true, List.mem_append, List.mem_map] at he
            rcases he with he | ⟨e', he', rfl⟩ | he
            · split at he
              · rw [List.mem_singleton.1 he]
                exact fun _ => hopen.2
              · exact absurd he List.not_mem_nil
            · exact ihb _ _ _ hs1 e' he'
            · exact ihr _ _ _ hs2 e he
          · simp [hdir, hskip, hopen] at h
        · have hopen : ¬ de.Opens := fun ho => hdir ho.1
          have hrest : Opened ex path rest := by
            simp only [hdir, if_false] at h
            split at h
            · exact ihr _ _ _ h
            · split at h
              · exact ihr _ _ _ h
              · exact ihr _ _ _ h
          simp only [hopen, false_and, and_false, if_false, List.map_nil, List.nil_append,
            List.mem_append] at he
          rcases he with he | he
          · split at he
            · rw [List.mem_singleton.1 he]
              exact fun hd => absurd hd hdir
            · exact absurd he List.not_mem_nil
          · exact hrest e he

/-! ### The size -/

def total (es : List Entry) : Nat := (es.map (·.size)).sum

theorem total_nil : total [] = 0 := rfl

theorem total_append (es es' : List Entry) : total (es ++ es') = total es + total es' := by
  rw [total, List.map_append, List.sum_append]
  rfl

theorem total_under (de : Dirent) (es : List Entry) :
    total (es.map (Entry.under de)) = total es := by
  rw [total, List.map_map]
  rfl

/-- Of an entry that is not a directory to go into; the bit of directories is in the mode of
devices and sockets, too. -/
theorem size_eq (de : Dirent) (skip : Bool) (sub : Nat) :
    (if de.kind.st_mode &&& S_IFDIR ≠ 0 ∧ skip = false ∧ de.d_type ≠ some .sock then
        if de.Opens then sub else 0
      else if de.kind.st_mode &&& S_IFREG ≠ 0 ∨ de.kind.st_mode &&& S_IFLNK ≠ 0 then de.st_size
      else 0) =
      (if de.kind = .reg ∨ de.kind = .lnk then de.st_size else 0) +
        if de.Opens ∧ skip = false then sub else 0 := by
  have hsize := de.size_eq
  have hsock : de.d_type = some .sock → Kind.sock = de.kind := fun h => de.d_type_eq _ h
  cases hkind : de.kind <;> cases skip <;>
    simp_all [Kind.st_mode, S_IFDIR, S_IFREG, S_IFLNK, Dirent.Opens]

/-- Excluded files count, excluded directories do not. -/
theorem Get_Folder_Size_eq (path : Str) (tree : Tree) : ex.Get_Folder_Size path tree =
    (total (kept ex path tree) + total (skipped ex path tree)) % 2 ^ 64 := by
  induction tree generalizing path with
  | nil => rfl
  | entry de below rest ihb ihr =>
    have hone : total [⟨[de.d_name], de.known, de⟩] =
        if de.kind = .reg ∨ de.kind = .lnk then de.st_size else 0 := rfl
    have hnone : ¬ de.kind.Stored →
        (if de.kind = .reg ∨ de.kind = .lnk then de.st_size else 0) = 0 :=
      fun h => if_neg fun hf => h (.inr hf)
    rw [TWExclude.Get_Folder_Size, kept_entry, skipped_entry, size_eq, ihb, ihr]
    simp only [total_append, total_under, apply_ite total, hone, total_nil]
    generalize (if de.kind = .reg ∨ de.kind = .lnk then de.st_size else 0) = size at hnone ⊢
    cases ex.check_skip_dirs (path ++ '/' :: de.d_name) <;> by_cases hs : de.kind.Stored <;>
      by_cases ho : de.Opens <;>
      simp only [hs, ho, true_and, false_and, if_true, if_false, Bool.true_eq_false,
        Bool.false_eq_true, not_true_eq_false, not_false_eq_true, forall_const] at hnone ⊢ <;>
      lia

/-- What is kept is listed, or missed. -/
theorem total_kept (path : Str) (tree : Tree) :
    total (kept ex path tree) = total (listed ex path tree) + total (missed ex path tree) := by
  unfold listed missed
  generalize kept ex path tree = es
  induction es with
  | nil => rfl
  | cons e es ih =>
    have hcons : ∀ l : List Entry, total (e :: l) = e.size + total l := fun _ => List.sum_cons
    cases hknown : e.known with
    | true => simp [hknown, hcons, ih, Nat.add_assoc]
    | false => simp [hknown, hcons, ih, Nat.add_left_comm]

/-! ### The content -/

section

variable (x : Exclusions)

theorem clear_nil (path : Str) : Clear x path [] ↔ ¬ x.Excluded path := by
  constructor
  · intro h
    have := h 0 (Nat.le_refl _)
    rwa [List.take_nil, joined, List.flatMap_nil, List.append_nil] at this
  · intro h k _
    rwa [List.take_nil, joined, List.flatMap_nil, List.append_nil]

theorem clear_cons (path n : Str) (names : List Str) :
    Clear x path (n :: names) ↔ ¬ x.Excluded path ∧ Clear x (path ++ '/' :: n) names := by
  have hpath : ∀ k, path ++ joined '/' ((n :: names).take (k + 1)) =
      path ++ '/' :: n ++ joined '/' (names.take k) := by
    intro k
    rw [List.take_succ_cons, joined_cons, List.append_assoc]
    rfl
  constructor
  · intro h
    refine ⟨?_, fun k hk => ?_⟩
    · have := h 0 (Nat.zero_le _)
      rwa [List.take_zero, joined, List.flatMap_nil, List.append_nil] at this
    · rw [← hpath k]
      exact h (k + 1) (Nat.succ_le_succ hk)
  · rintro ⟨h0, h⟩ k hk
    cases k with
    | zero => rwa [List.take_zero, joined, List.flatMap_nil, List.append_nil]
    | succ k =>
      rw [hpath k]
      exact h k (Nat.le_of_succ_le_succ hk)

/-- What is not skipped is clear, up to the path itself and to relative exclusions with slashes. -/
theorem clear_iff_of_names {names : List Str} (hn : ∀ n ∈ names, IsPiece '/' n) (path : Str) :
    Clear x path names ↔
      keeps x.build path names = true ∧ ¬ x.Excluded path ∧ ∀ n ∈ names, ¬ x.Respelled n := by
  induction names generalizing path with
  | nil =>
    rw [clear_nil]
    simp [keeps]
  | cons n names ih =>
    have hpiece := hn n List.mem_cons_self
    rw [clear_cons, ih fun m hm => hn m (List.mem_cons_of_mem _ hm), x.excluded_iff hpiece, keeps,
      Bool.and_eq_true, Bool.not_eq_true', not_or, Bool.not_eq_true, List.forall_mem_cons]
    tauto

/-- What is kept is listed just where nothing on the way to it is excluded by what the source does
not look at: the path itself, and relative exclusions with slashes behind. -/
def Seen (path : Str) (tree : Tree) : Prop :=
  ∀ e ∈ kept x.build path tree,
    e.known = true ↔ ¬ x.Excluded path ∧ ∀ n ∈ e.names, ¬ x.Respelled n

theorem clear_iff_of_mem_kept {path : Str} {tree : Tree} {e : Entry}
    (he : e ∈ kept x.build path tree) :
    Clear x path e.names ↔ ¬ x.Excluded path ∧ ∀ n ∈ e.names, ¬ x.Respelled n := by
  obtain ⟨hmem, hk⟩ := List.mem_filter.1 he
  have hkeeps := (of_decide_eq_true hk).2
  rw [clear_iff_of_names x (isPiece_of_mem_entries hmem), hkeeps]
  exact ⟨fun h => h.2, fun h => ⟨rfl, h⟩⟩

open scoped Classical in
/-- The content is kept. -/
theorem content_eq (path : Str) (tree : Tree) :
    content x path tree = (kept x.build path tree).filter fun e => Clear x path e.names := by
  rw [content, kept, selected, List.filter_filter]
  refine List.filter_congr fun e he => ?_
  rw [← Bool.decide_and, decide_eq_decide]
  constructor
  · rintro ⟨hs, hc⟩
    exact ⟨hc, hs, ((clear_iff_of_names x (isPiece_of_mem_entries he) path).1 hc).1⟩
  · rintro ⟨hc, hs, -⟩
    exact ⟨hs, hc⟩

theorem content_eq_listed {path : Str} {tree : Tree} (h : Seen x path tree) :
    content x path tree = listed x.build path tree := by
  classical
  rw [content_eq, listed]
  refine List.filter_congr fun e he => ?_
  rw [Bool.eq_iff_iff, decide_eq_true_iff, clear_iff_of_mem_kept x he]
  exact (h e he).symm

/-- The whole path tells the names. -/
theorem names_of_fn {path : Str} {e e' : Entry} (he : ∀ n ∈ e.names, IsPiece '/' n)
    (he' : ∀ n ∈ e'.names, IsPiece '/' n) (h : e.fn path = e'.fn path) : e.names = e'.names := by
  have hjoined := List.append_cancel_left h
  rw [← pieces_joined he, hjoined, pieces_joined he']

theorem seen_of_fn_eq {path : Str} {tree : Tree} (h : (content x path tree).map (Entry.fn path) =
    (listed x.build path tree).map (Entry.fn path)) : Seen x path tree := by
  classical
  have hpiece : ∀ e ∈ kept x.build path tree, ∀ n ∈ e.names, IsPiece '/' n :=
    fun e he => isPiece_of_mem_entries (List.mem_filter.1 he).1
  have hclear : ∀ e ∈ kept x.build path tree, e.known = true → Clear x path e.names := by
    intro e he hknown
    have hmem : e.fn path ∈ (content x path tree).map (Entry.fn path) := by
      rw [h]
      exact List.mem_map_of_mem (List.mem_filter.2 ⟨he, hknown⟩)
    obtain ⟨e', he', hfn⟩ := List.mem_map.1 hmem
    rw [content_eq] at he'
    obtain ⟨hkept, hclear⟩ := List.mem_filter.1 he'
    rw [← names_of_fn (hpiece e' hkept) (hpiece e he) hfn]
    exact of_decide_eq_true hclear
  -- both lists are as long, so one does not have more than the other
  have hlisted : listed x.build path tree = (content x path tree).filter (·.known) := by
    rw [listed, content_eq, List.filter_filter]
    refine List.filter_congr fun e he => ?_
    cases hknown : e.known with
    | true => simp [hclear e he hknown]
    | false => rfl
  have hlength := congrArg List.length h
  rw [List.length_map, List.length_map, hlisted, eq_comm, List.length_filter_eq_length_iff] at hlength
  intro e he
  rw [← clear_iff_of_mem_kept x he]
  refine ⟨hclear e he, fun hc => hlength e ?_⟩
  rw [content_eq]
  exact List.mem_filter.2 ⟨he, decide_eq_true hc⟩

end

/-- The list is the content and the size is its size just when directories can be opened, the types
are reported and the source looks at every exclusion on the way, and the files that are skipped have
no size. -/
theorem exact_iff (x : Exclusions) (path : Str) (tree : Tree) : Exact x path tree ↔
    Opened x.build path tree ∧ Seen x path tree ∧ total (listed x.build path tree) < 2 ^ 64 ∧
      (total (missed x.build path tree) + total (skipped x.build path tree)) % 2 ^ 64 = 0 := by
  have hsize := Get_Folder_Size_eq x.build path tree
  have hkept := total_kept x.build path tree
  constructor
  · rintro ⟨hlist, hmeasure⟩
    obtain ⟨s', hs', hf⟩ := hlist 0 ⟨[], 0, 0⟩
    have hopen := opened_of_Generate_TarList _ _ _ _ _ _ hs'
    obtain ⟨s1, hs1, hf1⟩ := Generate_TarList_eq x.build 0 path tree ⟨[], 0, 0⟩ hopen
    obtain rfl : s' = s1 := Option.some.inj (hs'.symm.trans hs1)
    have hseen := seen_of_fn_eq x (List.append_cancel_left (hf.symm.trans hf1))
    change _ = total (content x path tree) at hmeasure
    rw [hsize, content_eq_listed x hseen] at hmeasure
    exact ⟨hopen, hseen, by omega, by omega⟩
  · rintro ⟨hopen, hseen, hk, hs⟩
    have hc := content_eq_listed x hseen
    refine ⟨fun Target_Size s => ?_, ?_⟩
    · rw [hc]
      exact Generate_TarList_eq x.build Target_Size path tree s hopen
    · change _ = total (content x path tree)
      rw [hsize, hc]
      omega

/-! ### A link that is excluded -/

/-- `/data/cache` is excluded. -/
def cacheExcluded : Exclusions where
  relative := []
  absolute := [['/', 'd', 'a', 't', 'a', '/', 'c', 'a', 'c', 'h', 'e', '/']]

/-- `/data` has a link `cache` to `/cache`. -/
def cacheLink : Tree :=
  .entry
    { d_name := ['c', 'a', 'c', 'h', 'e'], kind := .lnk, d_type := some .lnk, d_type_eq := by simp,
      st_size := 6, closed := false, isPiece := ⟨by decide, by decide⟩, size_eq := by decide }
    .nil .nil

/-- It is not listed, and its size counts. -/
theorem excluded_link_counts :
    Generate_TarList cacheExcluded.build 0 ['/', 'd', 'a', 't', 'a'] cacheLink ⟨[], 0, 0⟩ =
      some ⟨[], 0, 0⟩ ∧
    cacheExcluded.build.Get_Folder_Size ['/', 'd', 'a', 't', 'a'] cacheLink = 6 ∧
    ¬ Exact cacheExcluded ['/', 'd', 'a', 't', 'a'] cacheLink := by
  have hlist : Generate_TarList cacheExcluded.build 0 ['/', 'd', 'a', 't', 'a'] cacheLink
      ⟨[], 0, 0⟩ = some ⟨[], 0, 0⟩ := by decide +kernel
  have hsize : cacheExcluded.build.Get_Folder_Size ['/', 'd', 'a', 't', 'a'] cacheLink = 6 := by
    decide +kernel
  refine ⟨hlist, hsize, ?_⟩
  rintro ⟨h1, h2⟩
  obtain ⟨s', hs', hf⟩ := h1 0 ⟨[], 0, 0⟩
  obtain rfl : s' = _ := Option.some.inj (hs'.symm.trans hlist)
  have hnil : content cacheExcluded ['/', 'd', 'a', 't', 'a'] cacheLink = [] :=
    List.map_eq_nil_iff.1 (List.append_cancel_left (hf.symm.trans (List.append_nil _).symm))
  rw [hsize, hnil] at h2
  exact absurd h2 (by decide)

/-! ### Paths as lists of names -/

/-- The exclusions without their spelling. -/
def Exclusions.byName (x : Exclusions) : TwrpTar.TWExclude where
  relativedir := x.allRelative
  absolutedir := ((x.absolute.map parts).filter (·.absolute)).map (·.names)

def Tree.dir : Tree → TwrpTar.Dir
  | .nil => .nil
  | .entry de below rest =>
    match de.kind with
    | .dir =>
      if de.closed then .closed de.known de.d_name rest.dir
      else .dir de.known de.d_name below.dir rest.dir
    | .reg => .file de.known .reg de.d_name de.st_size rest.dir
    | .lnk => .file de.known .lnk de.d_name de.st_size rest.dir
    | .blk | .chr | .fifo | .sock => .special de.d_name rest.dir

def Listing.byName (s : Listing) : TwrpTar.Listing where
  TarList := s.TarList.map fun item => ⟨(parts item.fn).names, item.thread_id⟩
  thread_id := s.thread_id
  Archive_Current_Size := s.Archive_Current_Size

section

variable (x : Exclusions) {path n : Str}

theorem absolute_append (hp : (parts path).absolute = true) (hn : IsPiece '/' n) :
    parts (path ++ '/' :: n) = ⟨true, (parts path).names ++ [n]⟩ := by
  have habs : (parts (path ++ '/' :: n)).absolute = true := by
    cases path with
    | nil => rfl
    | cons c path => exact hp
  rw [← names_append hn, ← habs]

theorem check_skip_dirs_names (hp : (parts path).absolute = true) (hn : IsPiece '/' n) :
    x.byName.check_skip_dirs ((parts path).names ++ [n]) =
      x.build.check_skip_dirs (path ++ '/' :: n) := by
  rw [Bool.eq_iff_iff, x.check_skip_dirs_iff hn, absolute_append hp hn,
    TwrpTar.TWExclude.check_skip_dirs, List.getLast?_concat, Option.any_some, Bool.or_eq_true,
    TwrpTar.TWExclude.check_relative_skip_dirs, TwrpTar.TWExclude.check_absolute_skip_dirs,
    List.contains_iff_mem, List.contains_iff_mem]
  refine or_congr Iff.rfl ?_
  simp only [Exclusions.byName, List.mem_map, List.mem_filter]
  constructor
  · rintro ⟨p, ⟨⟨d, hd, rfl⟩, habs⟩, hnames⟩
    refine ⟨d, hd, ?_⟩
    rw [← hnames, ← habs]
  · rintro ⟨d, hd, hpd⟩
    exact ⟨parts d, ⟨⟨d, hd, rfl⟩, by rw [hpd]⟩, by rw [hpd]⟩

theorem Get_Folder_Size_lt (path : Str) (tree : Tree) :
    x.build.Get_Folder_Size path tree < 2 ^ 64 := by
  rw [Get_Folder_Size_eq]
  exact Nat.mod_lt _ (by decide)

theorem Get_Folder_Size_names (hp : (parts path).absolute = true) (tree : Tree) :
    x.build.Get_Folder_Size path tree =
      x.byName.Get_Folder_Size (parts path).names tree.dir := by
  induction tree generalizing path with
  | nil => rfl
  | entry de below rest ihb ihr =>
    have hskip := check_skip_dirs_names x hp de.isPiece
    have habs : (parts (path ++ '/' :: de.d_name)).absolute = true := by
      rw [absolute_append hp de.isPiece]
    have hbelow := ihb habs
    have hlt := Get_Folder_Size_lt x path rest
    have hmod : x.byName.Get_Folder_Size (parts path).names rest.dir % 2 ^ 64 =
        x.byName.Get_Folder_Size (parts path).names rest.dir := by
      rw [← ihr hp]
      exact Nat.mod_eq_of_lt hlt
    rw [names_append de.isPiece] at hbelow
    rw [TWExclude.Get_Folder_Size, size_eq, ihr hp, hbelow, ← hskip, Tree.dir]
    cases hkind : de.kind with
    | dir =>
      cases hclosed : de.closed with
      | true => simpa [Dirent.Opens, hkind, hclosed, TwrpTar.TWExclude.Get_Folder_Size] using hmod
      | false =>
        simp only [Dirent.Opens, hkind, hclosed, true_and, reduceCtorEq, or_self, if_false,
          Nat.zero_add, Bool.false_eq_true, TwrpTar.TWExclude.Get_Folder_Size]
        cases x.byName.check_skip_dirs ((parts path).names ++ [de.d_name]) with
        | true => simpa using hmod
        | false => simp
    | reg => simp [Dirent.Opens, hkind, TwrpTar.TWExclude.Get_Folder_Size]
    | lnk => simp [Dirent.Opens, hkind, TwrpTar.TWExclude.Get_Folder_Size]
    | blk | chr | fifo | sock =>
      simpa [Dirent.Opens, hkind, TwrpTar.TWExclude.Get_Folder_Size] using hmod

theorem byName_push (s : Listing) : (s.push path).byName = s.byName.push (parts path).names := by
  simp [Listing.byName, Listing.push, TwrpTar.Listing.push]

/-- The type of what is counted. -/
theorem byName_count (s : Listing) (de : Dirent) (type : TwrpTar.FileType) (Target_Size : Nat)
    (h : type = if de.d_type = some .reg then .reg else .lnk) :
    (s.count de Target_Size).byName =
      (s.byName.count type de.st_size).advance Target_Size := by
  subst h
  unfold Listing.count TwrpTar.Listing.advance
  by_cases hreg : de.d_type = some .reg
  · simp only [hreg, if_true, TwrpTar.Listing.count]
    split <;> rename_i hc
    · exact (if_pos hc).symm
    · exact (if_neg hc).symm
  · simp only [hreg, if_false, TwrpTar.Listing.count]
    split <;> rename_i hc
    · exact (if_pos hc).symm
    · exact (if_neg hc).symm

theorem Generate_TarList_names (hp : (parts path).absolute = true) (Target_Size : Nat)
    (tree : Tree) (s : Listing) :
    (Generate_TarList x.build Target_Size path tree s).map Listing.byName =
      TwrpTar.Generate_TarList x.byName Target_Size (parts path).names tree.dir s.byName := by
  induction tree generalizing path s with
  | nil => rfl
  | entry de below rest ihb ihr =>
    have hskip := check_skip_dirs_names x hp de.isPiece
    have habs : (parts (path ++ '/' :: de.d_name)).absolute = true := by
      rw [absolute_append hp de.isPiece]
    have hbelow := fun s => ihb habs s
    have hnames := names_append de.isPiece path
    rw [hnames] at hbelow
    rw [Generate_TarList, ← hskip, Tree.dir]
    cases hknown : de.known with
    | false =>
      -- both pass over it
      rw [de.d_type_of_unknown hknown]
      cases hkind : de.kind with
      | dir => cases de.closed <;> simpa [TwrpTar.Generate_TarList] using ihr hp s
      | reg | lnk | blk | chr | fifo | sock => simpa [TwrpTar.Generate_TarList] using ihr hp s
    | true =>
      have htype := de.d_type_of_known hknown
      cases hkind : de.kind with
      | dir =>
        rw [htype, hkind]
        cases hclosed : de.closed with
        | true =>
          simp only [Dirent.Opens, hkind, hclosed, Option.some.injEq, reduceCtorEq, false_or,
            and_false, if_true, if_false, Bool.true_eq_false, Bool.not_true, Bool.or_false,
            TwrpTar.Generate_TarList]
          split
          · exact ihr hp s
          · rfl
        | false =>
          simp only [Dirent.Opens, hkind, hclosed, Option.some.injEq, reduceCtorEq, false_or,
            and_self, if_true, if_false, Bool.false_eq_true, Bool.not_true, Bool.or_false,
            TwrpTar.Generate_TarList]
          split
          · exact ihr hp s
          · have h1 := hbelow (s.push (path ++ '/' :: de.d_name))
            rw [byName_push, hnames] at h1
            rw [← h1]
            cases Generate_TarList x.build Target_Size (path ++ '/' :: de.d_name) below
              (s.push (path ++ '/' :: de.d_name)) with
            | none => rfl
            | some s1 => exact ihr hp s1
      | reg =>
        rw [hkind] at htype
        simp only [htype, Option.some.injEq, reduceCtorEq, false_or, or_false, if_true, if_false,
          Bool.not_true, Bool.or_false, TwrpTar.Generate_TarList]
        split
        · exact ihr hp s
        · rw [ihr hp, byName_count _ _ .reg _ (by rw [htype]; rfl), byName_push, hnames]
      | lnk =>
        rw [hkind] at htype
        simp only [htype, Option.some.injEq, reduceCtorEq, false_or, or_true, if_true, if_false,
          Bool.not_true, Bool.or_false, TwrpTar.Generate_TarList]
        split
        · exact ihr hp s
        · rw [ihr hp, byName_count _ _ .lnk _ (by rw [htype]; rfl), byName_push, hnames]
      | blk | chr | fifo | sock =>
        rw [hkind] at htype
        simpa [htype, TwrpTar.Generate_TarList] using ihr hp s

end

end Recovery.TwrpTar.Exclude
