import Mathlib.Data.Finite.Prod
import Recovery.FindFile.Paths
import Recovery.Lib.Dfs

/-!
# `find_file.cpp`

* `Find_File`, `Find_Internal`, `Find` — as in the source.
* `look` — what a search does with one path; `Find_Internal_eq` — the rest is `dfs`.
* `Reach` — the directories that subdirectories and links lead to from a path.
* `Accepts` — those of them whose paths the system takes, with these paths.
* `Fits` — it takes all of them.
* `look_eq_inl`, `next_iff` — what a search does in terms of directories.
* `accepts_of_reaches`, `reaches_of_accepts` — the paths that a search comes to are these.
* `finite_paths` — there are finitely many of them.
* `find_spec` — a search ends, and what it finds; `too_long` — a file that it does not find.
-/

set_option autoImplicit false

namespace Recovery.FindFile

open Recovery.Lib

/-! ## The source -/

structure Find_File where
  searched_dirs : List Str
  /-- The calls of `opendir`, in their order. -/
  opened : List Str

/-- The loop around `readdir`: a match, or the directories and the links. -/
def readLoop (filename starting_path : Str) :
    List Dirent → List Str → List Str → Str ⊕ (List Str × List Str)
  | [], dirs, symlinks => .inr (dirs, symlinks)
  | p :: ps, dirs, symlinks =>
    if p.d_name = [dot] ∨ p.d_name = [dot, dot] then
      readLoop filename starting_path ps dirs symlinks
    else
      let new_path := starting_path ++ [slash] ++ p.d_name
      if p.d_type = .DT_DIR then
        readLoop filename starting_path ps (dirs ++ [new_path]) symlinks
      else if p.d_type = .DT_LNK then
        readLoop filename starting_path ps dirs (symlinks ++ [new_path])
      else if p.d_type = .DT_REG ∧ filename = p.d_name then .inl new_path
      else readLoop filename starting_path ps dirs symlinks

/-- A loop that ends with the first path that is not empty. -/
def firstPath (search : Str → Find_File → Option (Str × Find_File)) :
    List Str → Find_File → Option (Str × Find_File)
  | [], s => some ([], s)
  | path :: paths, s => do
    let (return_path, s) ← search path s
    if return_path ≠ [] then some (return_path, s) else firstPath search paths s

namespace System

variable (sys : System)

/-- The first argument bounds the depth of the recursion. -/
def Find_Internal (filename : Str) : Nat → Str → Find_File → Option (Str × Find_File)
  | 0, _, _ => none
  | depth + 1, starting_path, s =>
    if starting_path ∈ s.searched_dirs then some ([], s)
    else
      let s : Find_File := ⟨s.searched_dirs ++ [starting_path], s.opened ++ [starting_path]⟩
      match sys.opendir starting_path with
      | none => some ([], s)
      | some d =>
        match readLoop filename starting_path d [] [] with
        | .inl new_path => some (new_path, s)
        | .inr (dirs, symlinks) => do
          let (return_path, s) ← firstPath (Find_Internal filename depth) dirs s
          if return_path ≠ [] then some (return_path, s)
          else
            firstPath (fun link s =>
              match sys.realpath link with
              | some buf => Find_Internal filename depth buf s
              | none => some ([], s)) symlinks s

def Find (depth : Nat) (file_name start_path : Str) : Option (Str × Find_File) :=
  sys.Find_Internal file_name depth start_path ⟨[], []⟩

/-! ## A search of paths -/

/-- What a search does with one path. -/
def look (filename path : Str) : Str ⊕ List Str :=
  match sys.opendir path with
  | none => .inr []
  | some d =>
    match readLoop filename path d [] [] with
    | .inl new_path => .inl new_path
    | .inr (dirs, symlinks) => .inr (dirs ++ symlinks.filterMap sys.realpath)

end System

/-- What was seen, as the source keeps it. -/
def fileOf (o : Option Str × List Str) : Str × Find_File := (o.1.getD [], ⟨o.2, o.2⟩)

/-- The entries of one type, as the loop puts them down. -/
def children (path : Str) (t : DType) (ps : List Dirent) : List Str :=
  (ps.filter fun p => ¬ (p.d_name = [dot] ∨ p.d_name = [dot, dot]) ∧ p.d_type = t).map
    (path ++ slash :: ·.d_name)

theorem children_cons (path : Str) (t : DType) (p : Dirent) (ps : List Dirent) :
    children path t (p :: ps) =
      if (p.d_name = [dot] ∨ p.d_name = [dot, dot]) ∨ p.d_type ≠ t then children path t ps
      else (path ++ slash :: p.d_name) :: children path t ps := by
  rw [children, List.filter_cons]
  by_cases hdots : p.d_name = [dot] ∨ p.d_name = [dot, dot]
  · rw [if_neg (by simp [hdots]), if_pos (.inl hdots)]
    rfl
  · by_cases ht : p.d_type = t
    · rw [if_pos (by simpa [ht] using hdots), if_neg (by simp [hdots, ht])]
      rfl
    · rw [if_neg (by simp [ht]), if_pos (.inr ht)]
      rfl

theorem readLoop_eq (filename path : Str) (ps : List Dirent) (dirs symlinks : List Str) :
    readLoop filename path ps dirs symlinks =
      if path ++ slash :: filename ∈ children path .DT_REG ps then .inl (path ++ slash :: filename)
      else .inr (dirs ++ children path .DT_DIR ps, symlinks ++ children path .DT_LNK ps) := by
  induction ps generalizing dirs symlinks with
  | nil => simp [readLoop, children]
  | cons p ps ih =>
    rw [readLoop]
    simp only [children_cons]
    by_cases hdots : p.d_name = [dot] ∨ p.d_name = [dot, dot]
    · simp [hdots, ih]
    · cases ht : p.d_type with
      | DT_REG =>
        by_cases hname : filename = p.d_name
        · simp [hdots, hname]
        · simp [hdots, hname, ih]
      | _ => simp [hdots, ih]

theorem mem_children_readdir {es : Entries} (hd : es.Distinct) {path q : Str} {t : DType} :
    q ∈ children path t es.readdir ↔
      ∃ c item, es.lookup c = some item ∧ item.d_type = t ∧ q = path ++ slash :: c := by
  simp only [children, List.mem_map, List.mem_filter, decide_eq_true_eq]
  constructor
  · rintro ⟨de, ⟨hmem, hdots, rfl⟩, rfl⟩
    rw [not_or] at hdots
    have hmem : de ∈ es.dirents := by
      rcases List.mem_cons.1 hmem with rfl | hmem
      · exact absurd rfl hdots.1
      · rcases List.mem_cons.1 hmem with rfl | hmem
        · exact absurd rfl hdots.2
        · exact hmem
    obtain ⟨item, hitem, ht⟩ := (Entries.mem_dirents hd).1 hmem
    exact ⟨de.d_name, item, hitem, ht, rfl⟩
  · rintro ⟨c, item, hitem, rfl, rfl⟩
    obtain ⟨-, hdot, hdots⟩ := Entries.proper_of_mem_names (Entries.mem_names_of_lookup hitem)
    have hmem : ⟨c, item.d_type⟩ ∈ es.dirents := (Entries.mem_dirents hd).2 ⟨item, hitem, rfl⟩
    refine ⟨⟨c, item.d_type⟩, ⟨?_, by simp [hdot, hdots], rfl⟩, rfl⟩
    exact List.mem_cons_of_mem _ (List.mem_cons_of_mem _ hmem)

namespace System

variable {sys : System} {filename start path q : Str} {loc loc' : Loc} {c : Str}

/-- A regular file of this name is in the directory. -/
def HasFile (sys : System) (loc : Loc) (filename : Str) : Prop :=
  sys.itemAt loc filename = some (.leaf .reg)

theorem opendir_eq_some {d : List Dirent} : sys.opendir path = some d ↔
    ∃ loc es, sys.Opens path loc ∧ sys.root.dirAt loc = some es ∧ d = es.readdir := by
  rw [opendir]
  constructor
  · intro h
    obtain ⟨loc, hres, h⟩ := Option.bind_eq_some_iff.1 h
    obtain ⟨es, hes, h⟩ := Option.bind_eq_some_iff.1 h
    refine ⟨loc, es, ⟨hres, ?_⟩, hes, (Option.some.inj h).symm⟩
    rw [IsDir, hes]
    rfl
  · rintro ⟨loc, es, ⟨hres, -⟩, hes, rfl⟩
    simp [hres, hes]

theorem mem_children {es : Entries} (hes : sys.root.dirAt loc = some es) {t : DType} :
    q ∈ children path t es.readdir ↔
      ∃ c item, sys.itemAt loc c = some item ∧ item.d_type = t ∧ q = path ++ slash :: c := by
  rw [mem_children_readdir (sys.distinct.dirAt hes)]
  simp only [itemAt, hes, Option.bind_some]

theorem slash_inj {c c' : Str} : path ++ slash :: c = path ++ slash :: c' ↔ c = c' := by
  simp

theorem d_type_eq_reg {item : Item} : item.d_type = .DT_REG ↔ item = .leaf .reg := by
  rcases item with _ | (_ | _) <;> simp [Item.d_type, Leaf.d_type]

theorem d_type_eq_dir {item : Item} : item.d_type = .DT_DIR ↔ ∃ below, item = .dir below := by
  rcases item with _ | (_ | _) <;> simp [Item.d_type, Leaf.d_type]

theorem d_type_eq_lnk {item : Item} :
    item.d_type = .DT_LNK ↔ ∃ target, item = .leaf (.lnk target) := by
  rcases item with _ | (_ | _) <;> simp [Item.d_type, Leaf.d_type]

/-- A directory that can be opened: a match, or the directories and the links in it. -/
theorem look_of_opens (hopens : sys.Opens path loc) : ∃ dirs symlinks : List Str,
    (∀ q, q ∈ dirs ↔ ∃ c below, sys.itemAt loc c = some (.dir below) ∧ q = path ++ slash :: c) ∧
    (∀ q, q ∈ symlinks ↔
      ∃ c target, sys.itemAt loc c = some (.leaf (.lnk target)) ∧ q = path ++ slash :: c) ∧
    ((sys.HasFile loc filename ∧ sys.look filename path = .inl (path ++ slash :: filename)) ∨
      (¬ sys.HasFile loc filename ∧
        sys.look filename path = .inr (dirs ++ symlinks.filterMap sys.realpath))) := by
  obtain ⟨es, hes⟩ := Option.isSome_iff_exists.1 hopens.2
  have hd := opendir_eq_some.2 ⟨loc, es, hopens, hes, rfl⟩
  have hreg : path ++ slash :: filename ∈ children path .DT_REG es.readdir ↔
      sys.HasFile loc filename := by
    rw [mem_children hes]
    constructor
    · rintro ⟨c, item, hc, ht, heq⟩
      rw [d_type_eq_reg.1 ht, ← slash_inj.1 heq] at hc
      exact hc
    · exact fun h => ⟨filename, _, h, rfl, rfl⟩
  refine ⟨children path .DT_DIR es.readdir, children path .DT_LNK es.readdir, ?_, ?_, ?_⟩
  · intro q
    rw [mem_children hes]
    constructor
    · rintro ⟨c, item, hc, ht, rfl⟩
      obtain ⟨below, rfl⟩ := d_type_eq_dir.1 ht
      exact ⟨c, below, hc, rfl⟩
    · rintro ⟨c, below, hc, rfl⟩
      exact ⟨c, _, hc, rfl, rfl⟩
  · intro q
    rw [mem_children hes]
    constructor
    · rintro ⟨c, item, hc, ht, rfl⟩
      obtain ⟨target, rfl⟩ := d_type_eq_lnk.1 ht
      exact ⟨c, target, hc, rfl⟩
    · rintro ⟨c, target, hc, rfl⟩
      exact ⟨c, _, hc, rfl, rfl⟩
  · by_cases hfile : sys.HasFile loc filename
    · exact .inl ⟨hfile, by simp [look, hd, readLoop_eq, hreg.2 hfile]⟩
    · have hnone := mt hreg.1 hfile
      exact .inr ⟨hfile, by simp [look, hd, readLoop_eq, hnone]⟩

theorem look_of_not_opens (h : ∀ loc, ¬ sys.Opens path loc) : sys.look filename path = .inr [] := by
  rw [look]
  cases hd : sys.opendir path with
  | none => rfl
  | some d =>
    obtain ⟨loc, es, hopens, -⟩ := opendir_eq_some.1 hd
    exact absurd hopens (h loc)

theorem look_eq_inl {x : Str} : sys.look filename path = .inl x ↔
    ∃ loc, sys.Opens path loc ∧ sys.HasFile loc filename ∧ x = path ++ slash :: filename := by
  constructor
  · intro h
    by_cases hopens : ∃ loc, sys.Opens path loc
    · obtain ⟨loc, hopens⟩ := hopens
      obtain ⟨dirs, symlinks, -, -, ⟨hfile, hlook⟩ | ⟨-, hlook⟩⟩ := look_of_opens hopens
      · rw [hlook] at h
        exact ⟨loc, hopens, hfile, (Sum.inl.inj h).symm⟩
      · rw [hlook] at h
        cases h
    · rw [look_of_not_opens (not_exists.1 hopens)] at h
      cases h
  · rintro ⟨loc, hopens, hfile, rfl⟩
    obtain ⟨dirs, symlinks, -, -, ⟨-, hlook⟩ | ⟨hnone, -⟩⟩ := look_of_opens hopens
    · exact hlook
    · exact absurd hfile hnone

/-- From a path to those that a search goes on with. -/
theorem next_iff : Next (sys.look filename) path q ↔
    ∃ loc, sys.Opens path loc ∧ ¬ sys.HasFile loc filename ∧
      ((∃ c below, sys.itemAt loc c = some (.dir below) ∧ q = path ++ slash :: c) ∨
        ∃ c target, sys.itemAt loc c = some (.leaf (.lnk target)) ∧
          sys.realpath (path ++ slash :: c) = some q) := by
  constructor
  · rintro ⟨qs, h, hq⟩
    by_cases hopens : ∃ loc, sys.Opens path loc
    · obtain ⟨loc, hopens⟩ := hopens
      obtain ⟨dirs, symlinks, hdirs, hlinks, ⟨-, hlook⟩ | ⟨hnone, hlook⟩⟩ := look_of_opens hopens
      · rw [hlook] at h
        cases h
      · rw [hlook] at h
        cases h
        refine ⟨loc, hopens, hnone, ?_⟩
        rcases List.mem_append.1 hq with hq | hq
        · exact .inl ((hdirs q).1 hq)
        · obtain ⟨link, hlink, hreal⟩ := List.mem_filterMap.1 hq
          obtain ⟨c, target, hc, rfl⟩ := (hlinks link).1 hlink
          exact .inr ⟨c, target, hc, hreal⟩
    · rw [look_of_not_opens (not_exists.1 hopens)] at h
      cases h
      cases hq
  · rintro ⟨loc, hopens, hnone, hq⟩
    obtain ⟨dirs, symlinks, hdirs, hlinks, ⟨hfile, -⟩ | ⟨-, hlook⟩⟩ := look_of_opens hopens
    · exact absurd hfile hnone
    · refine ⟨_, hlook, List.mem_append.2 ?_⟩
      rcases hq with hq | ⟨c, target, hc, hreal⟩
      · exact .inl ((hdirs q).2 hq)
      · exact .inr (List.mem_filterMap.2 ⟨_, (hlinks _).2 ⟨c, target, hc, rfl⟩, hreal⟩)

/-! ## The source is a depth-first search -/

theorem look_ne_nil {x : Str} (h : sys.look filename path = .inl x) : x ≠ [] := by
  obtain ⟨loc, -, -, rfl⟩ := look_eq_inl.1 h
  simp

theorem dfs_ne_nil {depth : Nat} {seen seen' : List Str} {x : Str}
    (h : dfs (sys.look filename) depth path seen = some (some x, seen')) : x ≠ [] := by
  obtain ⟨-, -, b, -, hb⟩ := (dfs_searched h).found x rfl
  exact look_ne_nil hb

theorem firstPath_eq {search : Str → Find_File → Option (Str × Find_File)}
    {search' : Str → List Str → Option (Option Str × List Str)}
    (h : ∀ path seen, search path ⟨seen, seen⟩ = (search' path seen).map fileOf)
    (hne : ∀ path seen x seen', search' path seen = some (some x, seen') → x ≠ [])
    (paths seen : List Str) :
    firstPath search paths ⟨seen, seen⟩ = (firstOf search' paths seen).map fileOf := by
  induction paths generalizing seen with
  | nil => rfl
  | cons path paths ih =>
    rw [firstPath, firstOf, h]
    cases hp : search' path seen with
    | none => rfl
    | some o =>
      obtain ⟨_ | x, seen'⟩ := o
      · simp [fileOf, ih]
      · simp [fileOf, hne path seen x seen' hp]

/-- A loop over links is one over the paths that they are resolved to. -/
theorem firstPath_realpath (search : Str → Find_File → Option (Str × Find_File))
    (links : List Str) (s : Find_File) :
    firstPath (fun link s =>
      match sys.realpath link with
      | some buf => search buf s
      | none => some ([], s)) links s = firstPath search (links.filterMap sys.realpath) s := by
  induction links generalizing s with
  | nil => rfl
  | cons link links ih =>
    rw [firstPath, List.filterMap_cons]
    cases sys.realpath link with
    | none => simp [ih]
    | some buf => simp [firstPath, ih]

theorem Find_Internal_eq (depth : Nat) (path : Str) (seen : List Str) :
    sys.Find_Internal filename depth path ⟨seen, seen⟩ =
      (dfs (sys.look filename) depth path seen).map fileOf := by
  induction depth generalizing path seen with
  | zero => rfl
  | succ depth ih =>
    rw [Find_Internal, dfs]
    by_cases hseen : path ∈ seen
    · simp [hseen, fileOf]
    · rw [if_neg hseen, if_neg hseen, look]
      cases hd : sys.opendir path with
      | none => simp [firstOf, fileOf]
      | some d =>
        cases hread : readLoop filename path d [] [] with
        | inl new_path => simp [hread, fileOf]
        | inr found =>
          obtain ⟨dirs, symlinks⟩ := found
          have hfirst := firstPath_eq (ih · ·) fun _ _ _ _ => dfs_ne_nil
          simp only [hread, firstPath_realpath, hfirst, firstOf_append]
          cases hdirs : firstOf (dfs (sys.look filename) depth) dirs (seen ++ [path]) with
          | none => rfl
          | some o =>
            obtain ⟨_ | x, seen'⟩ := o
            · simp [fileOf, hfirst]
            · have hsearched := firstOf_searched (fun _ _ _ _ => dfs_searched) hdirs
              obtain ⟨-, -, b, -, hb⟩ := hsearched.found x rfl
              simp [fileOf, look_ne_nil hb]

/-! ## Directories that can be reached -/

/-- The directories that a path leads to, by subdirectories and links. -/
inductive Reach (sys : System) (start : Str) : Loc → Prop where
  | start {loc : Loc} (h : sys.Names start loc) (hdir : sys.IsDir loc) : Reach sys start loc
  | sub {loc : Loc} {c : Str} {below : Entries} (h : Reach sys start loc)
      (hc : sys.itemAt loc c = some (.dir below)) : Reach sys start (loc ++ [c])
  | link {loc loc' : Loc} {c target : Str} (h : Reach sys start loc)
      (hc : sys.itemAt loc c = some (.leaf (.lnk target))) (hl : sys.Leads loc [c] loc')
      (hdir : sys.IsDir loc') : Reach sys start loc'

/-- The same with the paths that a search uses, as far as the system takes them. -/
inductive Accepts (sys : System) (start : Str) : Str → Loc → Prop where
  | start {loc : Loc} (h : sys.Opens start loc) : Accepts sys start start loc
  | sub {path : Str} {loc : Loc} {c : Str} {below : Entries} (h : Accepts sys start path loc)
      (hc : sys.itemAt loc c = some (.dir below))
      (hlen : (path ++ slash :: c).length < PATH_MAX) :
      Accepts sys start (path ++ slash :: c) (loc ++ [c])
  | link {path : Str} {loc loc' : Loc} {c target : Str} (h : Accepts sys start path loc)
      (hc : sys.itemAt loc c = some (.leaf (.lnk target)))
      (hl : sys.resolve sys.realLinks (path ++ slash :: c) = some loc') (hdir : sys.IsDir loc')
      (hlen : (spell loc').length < PATH_MAX) : Accepts sys start (spell loc') loc'

/-- The system takes every path that a search comes to. -/
structure Fits (sys : System) (start : Str) : Prop where
  opens : ∀ loc, sys.Names start loc → sys.IsDir loc → sys.Opens start loc
  sub : ∀ path loc c below, sys.Accepts start path loc →
    sys.itemAt loc c = some (.dir below) → (path ++ slash :: c).length < PATH_MAX
  link : ∀ path loc c target loc', sys.Accepts start path loc →
    sys.itemAt loc c = some (.leaf (.lnk target)) → sys.Leads loc [c] loc' → sys.IsDir loc' →
    sys.resolve sys.realLinks (path ++ slash :: c) = some loc' ∧ (spell loc').length < PATH_MAX

theorem Accepts.opens (h : sys.Accepts start path loc) : sys.Opens path loc := by
  induction h with
  | start h => exact h
  | sub _ hc hlen ih => exact ih.slash hc hlen
  | link _ _ hl hdir hlen _ => exact (opens_spell (settled_of_resolve hl) hlen).2 ⟨rfl, hdir⟩

theorem Accepts.reach (h : sys.Accepts start path loc) : sys.Reach start loc := by
  induction h with
  | start h => exact .start (names_of_resolve h.1) h.2
  | sub _ hc _ ih => exact .sub ih hc
  | link h hc hl hdir _ ih =>
    exact .link ih hc (leads_of_resolve_slash (names_of_resolve h.opens.1) (proper_of_itemAt hc) hl)
      hdir

theorem Fits.accepts (hfits : sys.Fits start) (h : sys.Reach start loc) :
    ∃ path, sys.Accepts start path loc := by
  induction h with
  | start h hdir => exact ⟨start, .start (hfits.opens _ h hdir)⟩
  | sub _ hc ih =>
    obtain ⟨path, hacc⟩ := ih
    exact ⟨_, .sub hacc hc (hfits.sub _ _ _ _ hacc hc)⟩
  | link _ hc hl hdir ih =>
    obtain ⟨path, hacc⟩ := ih
    obtain ⟨hres, hlen⟩ := hfits.link _ _ _ _ _ hacc hc hl hdir
    exact ⟨_, .link hacc hc hres hdir hlen⟩

/-- What a search comes to and can open is one of these paths. -/
theorem accepts_of_reaches
    (h : Relation.ReflTransGen (Next (sys.look filename)) start path)
    (hopens : sys.Opens path loc) : sys.Accepts start path loc := by
  induction h generalizing loc with
  | refl => exact .start hopens
  | tail _ hnext ih =>
    obtain ⟨loc', hopens', -, ⟨c, below, hc, rfl⟩ | ⟨c, target, hc, hreal⟩⟩ := next_iff.1 hnext
    · have hname := (names_of_resolve hopens'.1).slash hopens'.2 (proper_of_itemAt hc)
        fun _ => follows_dir hc
      rw [Names.unique (names_of_resolve hopens.1) hname]
      exact .sub (ih hopens') hc (resolve_eq_some.1 hopens.1).2.1
    · obtain ⟨loc'', hres, rfl, hlen⟩ := realpath_eq_some.1 hreal
      obtain ⟨rfl, hdir⟩ := (opens_spell (settled_of_resolve hres) hlen).1 hopens
      exact .link (ih hopens') hc hres hdir hlen

/-- A search comes to a path, or it has found something before. -/
def ReachesOrFinds (sys : System) (filename start path : Str) : Prop :=
  Relation.ReflTransGen (Next (sys.look filename)) start path ∨
    ∃ b x, Relation.ReflTransGen (Next (sys.look filename)) start b ∧ sys.look filename b = .inl x

/-- It goes on from a directory that it opens and in which the file is not. -/
theorem ReachesOrFinds.next (h : sys.ReachesOrFinds filename start path)
    (hopens : sys.Opens path loc)
    (hnext : ¬ sys.HasFile loc filename → Next (sys.look filename) path q) :
    sys.ReachesOrFinds filename start q := by
  rcases h with h | h
  · by_cases hfile : sys.HasFile loc filename
    · exact .inr ⟨path, _, h, look_eq_inl.2 ⟨loc, hopens, hfile, rfl⟩⟩
    · exact .inl (h.tail (hnext hfile))
  · exact .inr h

theorem reaches_of_accepts (h : sys.Accepts start path loc) :
    sys.ReachesOrFinds filename start path := by
  induction h with
  | start => exact .inl .refl
  | @sub path loc c below h hc hlen ih =>
    exact ih.next h.opens fun hno => next_iff.2 ⟨loc, h.opens, hno, .inl ⟨c, below, hc, rfl⟩⟩
  | @link path loc loc' c target h hc hl hdir hlen ih =>
    have hreal := realpath_eq_some.2 ⟨loc', hl, rfl, hlen⟩
    exact ih.next h.opens fun hno => next_iff.2 ⟨loc, h.opens, hno, .inr ⟨c, target, hc, hreal⟩⟩

/-! ## A search ends -/

theorem IsDir.mem_locs (h : sys.IsDir loc) : loc ∈ sys.root.locs := by
  obtain ⟨es, hes⟩ := Option.isSome_iff_exists.1 h
  have := Entries.mem_locs hes es.nil_mem_locs
  rwa [List.append_nil] at this

theorem Settled.mem_locs (h : sys.Settled loc) : loc ∈ sys.root.locs := by
  rcases h with h | ⟨dir, c, kind, rfl, hc, -⟩
  · exact h.mem_locs
  · obtain ⟨es, hes, hc⟩ := itemAt_eq_some.1 hc
    exact Entries.mem_locs hes (Entries.mem_locs_leaf hc)

/-- What a search comes to: the path that it starts with, canonical paths, and directories below
these. -/
theorem spelled_of_reaches (h : Relation.ReflTransGen (Next (sys.look filename)) start path) :
    ∃ p w, (p = start ∨ ∃ l ∈ sys.root.locs, p = spell l) ∧ path = p ++ joined slash w ∧
      (w = [] ∨ ∃ l, sys.IsDir (l ++ w) ∧ sys.Names path (l ++ w)) := by
  induction h with
  | refl => exact ⟨start, [], .inl rfl, (List.append_nil _).symm, .inl rfl⟩
  | @tail path q _ hnext ih =>
    obtain ⟨loc, hopens, -, ⟨c, below, hc, rfl⟩ | ⟨c, target, hc, hreal⟩⟩ := next_iff.1 hnext
    · have hpath := names_of_resolve hopens.1
      have hname := hpath.slash hopens.2 (proper_of_itemAt hc) fun _ => follows_dir hc
      have hdir := isDir_of_itemAt hc
      obtain ⟨p, w, hp, rfl, rfl | ⟨l, -, hl⟩⟩ := ih
      · refine ⟨p, [c], hp, by simp [joined], .inr ⟨loc, hdir, hname⟩⟩
      · refine ⟨p, w ++ [c], hp, by simp [joined], .inr ⟨l, ?_⟩⟩
        rw [Names.unique hpath hl, List.append_assoc l w [c]] at hdir hname
        exact ⟨hdir, hname⟩
    · obtain ⟨loc', hres, rfl, -⟩ := realpath_eq_some.1 hreal
      exact ⟨spell loc', [], .inr ⟨loc', (settled_of_resolve hres).mem_locs, rfl⟩,
        (List.append_nil _).symm, .inl rfl⟩

theorem finite_paths (sys : System) (filename start : Str) :
    {path | Relation.ReflTransGen (Next (sys.look filename)) start path}.Finite := by
  have hbases : (insert start (spell '' {l | l ∈ sys.root.locs})).Finite :=
    ((List.finite_toSet _).image _).insert _
  have hbelow : {w : Loc | w ∈ sys.root.locs.flatMap List.tails}.Finite := List.finite_toSet _
  refine (hbases.image2 (fun p w => p ++ joined slash w) hbelow).subset ?_
  intro path h
  obtain ⟨p, w, hp, rfl, hw⟩ := spelled_of_reaches h
  refine ⟨p, ?_, w, ?_, rfl⟩
  · rcases hp with rfl | ⟨l, hl, rfl⟩
    · exact Set.mem_insert _ _
    · exact Set.mem_insert_of_mem _ ⟨l, hl, rfl⟩
  · refine List.mem_flatMap.2 ?_
    rcases hw with rfl | ⟨l, hdir, -⟩
    · exact ⟨[], Entries.nil_mem_locs _, (List.mem_tails _ _).2 (List.suffix_refl _)⟩
    · exact ⟨l ++ w, hdir.mem_locs, (List.mem_tails _ _).2 (List.suffix_append l w)⟩

theorem dfs_ends (sys : System) (filename start : Str) :
    ∃ depth o, dfs (sys.look filename) depth start [] = some o := by
  have hfin := finite_paths sys filename start
  have hclosed : ClosedUnder (sys.look filename) hfin.toFinset := by
    intro a ha b hab
    rw [Set.Finite.mem_toFinset] at ha ⊢
    exact Relation.ReflTransGen.tail ha hab
  have hstart : start ∈ hfin.toFinset := by
    rw [Set.Finite.mem_toFinset]
    exact Relation.ReflTransGen.refl
  exact ⟨_, dfs_returns hclosed hstart (Nat.lt_succ_self _)⟩

/-! ## What is found -/

/-- What a search returns is empty, or a file in a directory whose path it came to. -/
theorem found_iff {depth : Nat} {r : Option Str} {seen : List Str}
    (h : dfs (sys.look filename) depth start [] = some (r, seen)) :
    r.getD [] ≠ [] ↔ ∃ path loc, sys.Accepts start path loc ∧ sys.HasFile loc filename := by
  have hnone := dfs_none_iff h
  constructor
  · intro hne
    have hr : r ≠ none := by
      rintro rfl
      exact hne rfl
    rw [ne_eq, hnone] at hr
    push Not at hr
    obtain ⟨b, hb, x, hx⟩ := hr
    obtain ⟨loc, hopens, hfile, -⟩ := look_eq_inl.1 hx
    exact ⟨b, loc, accepts_of_reaches hb hopens, hfile⟩
  · rintro ⟨path, loc, hacc, hfile⟩
    cases hr : r with
    | none =>
      have hno := hnone.1 hr
      rcases reaches_of_accepts hacc with hreach | ⟨b, x, hreach, hx⟩
      · exact absurd (look_eq_inl.2 ⟨loc, hacc.opens, hfile, rfl⟩) (hno path hreach _)
      · exact absurd hx (hno b hreach x)
    | some x =>
      rw [hr] at h
      exact dfs_ne_nil h

theorem names_of_found {depth : Nat} {x : Str} {seen : List Str}
    (h : dfs (sys.look filename) depth start [] = some (some x, seen)) :
    ∃ loc, sys.Reach start loc ∧ sys.HasFile loc filename ∧ sys.Names x (loc ++ [filename]) := by
  obtain ⟨a, ha, b, hab, hb⟩ := (dfs_searched h).found x rfl
  rw [List.mem_singleton.1 ha] at hab
  obtain ⟨loc, hopens, hfile, rfl⟩ := look_eq_inl.1 hb
  refine ⟨loc, (accepts_of_reaches hab hopens).reach, hfile, ?_⟩
  exact (names_of_resolve hopens.1).slash hopens.2 (proper_of_itemAt hfile)
    fun _ => .leaf hfile (by simp)

/-- **A search ends without opening a path twice, and finds a file if and only if one is in a
directory that subdirectories and links lead to by paths that the system takes.** -/
theorem find_spec (sys : System) (file_name start_path : Str) : ∃ depth return_path s,
    (∀ depth' ≥ depth, sys.Find depth' file_name start_path = some (return_path, s)) ∧
    s.opened.Nodup ∧
    (return_path ≠ [] ↔
      ∃ path loc, sys.Accepts start_path path loc ∧ sys.HasFile loc file_name) ∧
    (return_path ≠ [] → ∃ loc, sys.Reach start_path loc ∧ sys.HasFile loc file_name ∧
      sys.Names return_path (loc ++ [file_name])) ∧
    (sys.Fits start_path →
      (return_path ≠ [] ↔ ∃ loc, sys.Reach start_path loc ∧ sys.HasFile loc file_name)) := by
  obtain ⟨depth, ⟨r, seen⟩, h⟩ := dfs_ends sys file_name start_path
  have hfound := found_iff h
  refine ⟨depth, r.getD [], ⟨seen, seen⟩, ?_, ?_, hfound, ?_, ?_⟩
  · intro depth' hle
    rw [Find, Find_Internal_eq, dfs_mono hle h]
    rfl
  · exact (dfs_searched h).nodup List.nodup_nil
  · intro hne
    cases r with
    | none => exact absurd rfl hne
    | some x => exact names_of_found h
  · intro hfits
    rw [hfound]
    constructor
    · rintro ⟨path, loc, hacc, hfile⟩
      exact ⟨loc, hacc.reach, hfile⟩
    · rintro ⟨loc, hreach, hfile⟩
      obtain ⟨path, hacc⟩ := hfits.accepts hreach
      exact ⟨path, loc, hacc, hfile⟩

/-! ## Searches -/

/-- The name that is searched. -/
def f : Str := [⟨102, by decide⟩]

/-- A directory `d` with a file `f` and what else is in it. -/
def withFile (rest : Entries) : Entries :=
  .dir ⟨[⟨100, by decide⟩], by unfold Proper IsPiece; decide⟩
    (.leaf ⟨f, by unfold Proper IsPiece; decide⟩ .reg rest) .nil

/-- Beside the file is a link to the root. -/
def systemLoop : System where
  root := withFile
    (.leaf ⟨[⟨108, by decide⟩], by unfold Proper IsPiece; decide⟩ (.lnk [slash]) .nil)
  distinct := by simp [withFile, Entries.Distinct, Entries.names, f]
  cwd := []
  cwd_dir := rfl
  openLinks := 40
  realLinks := 40

example : (systemLoop.Find 3 f [slash]).map (·.1) =
    some [slash, slash, ⟨100, by decide⟩, slash, ⟨102, by decide⟩] := by decide

/-- The loop is not followed twice. -/
example : (systemLoop.Find 3 [⟨103, by decide⟩] [slash]).map (·.2.opened) =
    some [[slash], [slash, slash, ⟨100, by decide⟩]] := by decide

def systemBelow : System where
  root := withFile .nil
  distinct := by simp [withFile, Entries.Distinct, Entries.names]
  cwd := []
  cwd_dir := rfl
  openLinks := 40
  realLinks := 40

/-- The root, spelled as long as a path can be. -/
def slashes : Str := List.replicate 4095 slash

theorem follows_slashes (n : Nat) :
    Follows systemBelow 40 [] ((List.replicate n slash).splitOn slash) [] := by
  induction n with
  | zero => exact .skip (.inl rfl) .nil
  | succ n ih =>
    rw [List.replicate_succ, ← List.nil_append (slash :: _), List.splitOn_append_cons_self]
    exact .skip (.inl rfl) ih

/-- The file is not found: the path of its directory is too long. -/
theorem too_long :
    systemBelow.Find 2 f slashes =
      some ([], ⟨[slashes, slashes ++ [slash, ⟨100, by decide⟩]],
        [slashes, slashes ++ [slash, ⟨100, by decide⟩]]⟩) ∧
    ∃ loc, systemBelow.Reach slashes loc ∧ systemBelow.HasFile loc f := by
  have hlen : slashes.length = 4095 := List.length_replicate
  have hne : slashes ≠ [] := List.ne_nil_of_length_eq_add_one hlen
  have hopens : systemBelow.Opens slashes [] := by
    refine ⟨resolve_eq_some.2 ⟨hne, by rw [hlen]; decide, ?_⟩, rfl⟩
    rw [show base systemBelow.cwd slashes = [] from rfl]
    exact follows_slashes 4095
  have hnone : systemBelow.opendir (slashes ++ [slash, ⟨100, by decide⟩]) = none := by
    rw [opendir, resolve, if_pos (.inr (by rw [List.length_append, hlen]; decide))]
    rfl
  have hroot := opendir_eq_some.2 ⟨[], withFile .nil, hopens, rfl, rfl⟩
  have hread : readLoop f slashes (withFile .nil).readdir [] [] =
      .inr ([slashes ++ [slash, ⟨100, by decide⟩]], []) := by
    simp [readLoop, withFile, f, Entries.readdir, Entries.dirents, dot]
  constructor
  · simp [Find, Find_Internal, hroot, hread, hnone, firstPath]
  · have hc : systemBelow.itemAt [] [⟨100, by decide⟩] = some (.dir _) := rfl
    exact ⟨_, .sub (.start (names_of_resolve hopens.1) hopens.2) hc, rfl⟩

end System

end Recovery.FindFile
