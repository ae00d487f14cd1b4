import Recovery.Lib.CString
import Recovery.Lib.Files
import Mathlib.Data.List.DropRight

/-!
# Extracting a part of a package (`otautil/ZipUtil.cpp`, `otautil/DirUtil.cpp`)

* `Effect`, `FileSystem`, `Machine` — what is done to files, the calls for it, and a log of them.
* `dirCreateHierarchy` — the directories of a path, from the root on.
* `ExtractPackageRecursive` — all entries of a package below a path, into a directory.
* `Confined` — an effect below the directory, or on the way to it.
* `levels_append`, `dirCreateHierarchy_effects` — which directories are made.
* `extract_spec` — if no name leads out of the directory, nothing else is touched, and after a
  success every file has been written.
* `dotdot_escapes` — a name that does.

The library of the package gives the entries whose name starts with the prefix. SELinux contexts
are left out.
-/

set_option autoImplicit false

namespace Recovery.OtaUtil

open Recovery.Lib

inductive DirStatus where
  | missing
  | dir
  | illegal
deriving DecidableEq

/-- A call that creates or changes something, with the path that is passed. -/
inductive Effect where
  | mkdir (path : List UInt8)
  | utime (path : List UInt8)
  /-- `open` with `O_CREAT` and `O_TRUNC`. -/
  | create (path : List UInt8)
  /-- `ExtractEntryToFile` to the file that was opened. -/
  | write (path content : List UInt8)
deriving DecidableEq

def Effect.path : Effect → List UInt8
  | mkdir path | utime path | create path | write path _ => path

/-- Whether a call succeeds, and what is there afterwards. -/
structure FileSystem (ω : Type) where
  stat : List UInt8 → ω → DirStatus
  call : Effect → ω → Bool × ω
  fsync : ω → Bool

structure Machine (ω : Type) where
  world : ω
  effects : List Effect

variable {ω : Type} (sys : FileSystem ω)

/-- Something that succeeds or fails. -/
abbrev Action (ω : Type) := Machine ω → Bool × Machine ω

/-- `if (!first) return false;`, then the rest. -/
def andThen (first rest : Action ω) : Action ω := fun m =>
  match first m with
  | (false, m) => (false, m)
  | (true, m) => rest m

def succeed : Action ω := fun m => (true, m)

def call (e : Effect) : Action ω := fun m =>
  ((sys.call e m.world).1, ⟨(sys.call e m.world).2, m.effects ++ [e]⟩)

/-- `timestamp == NULL`, or `utime`. -/
def touch (timestamp : Bool) (path : List UInt8) : Action ω :=
  if timestamp then call sys (.utime path) else succeed

/-! ## `dirCreateHierarchy` -/

/-- The parts of a path up to each of its slashes that ends a name. -/
def levelsFrom (before : List UInt8) (inName : Bool) : List UInt8 → List (List UInt8)
  | [] => []
  | c :: rest =>
    if c = 47 then
      if inName then before :: levelsFrom (before ++ [c]) false rest
      else levelsFrom (before ++ [c]) false rest
    else levelsFrom (before ++ [c]) true rest

def levels (cpath : List UInt8) : List (List UInt8) := levelsFrom [] false cpath

def makeLevels (timestamp : Bool) : List (List UInt8) → Action ω
  | [] => succeed
  | level :: rest => fun m =>
    match sys.stat level m.world with
    | .illegal => (false, m)
    | .dir => makeLevels timestamp rest m
    | .missing =>
      andThen (call sys (.mkdir level))
        (andThen (touch sys timestamp level) (makeLevels timestamp rest)) m

/-- With or without its last name, a path that ends in a slash. -/
def dirPath (path : List UInt8) (stripFileName : Bool) : Option (List UInt8) :=
  if stripFileName then if 47 ∈ path then some (path.rdropWhile (· ≠ 47)) else none
  else some (path ++ [47])

/-- Whether it succeeds. -/
def dirCreateHierarchy (path : List UInt8) (timestamp stripFileName : Bool) : Action ω := fun m =>
  if path = [] then (false, m)
  else
    match dirPath path stripFileName with
    | none => (false, m)
    | some cpath =>
      match sys.stat cpath m.world with
      | .dir => (true, m)
      | .illegal => (false, m)
      | .missing => makeLevels sys timestamp (levels cpath) m

/-! ## `ExtractPackageRecursive` -/

structure ZipEntry where
  name : List UInt8
  content : List UInt8

structure ZipArchive where
  /-- `StartIteration` succeeds. -/
  starts : Bool
  entries : List ZipEntry

/-- The entries between `StartIteration` and the end. -/
def ZipArchive.iterate (zip : ZipArchive) (start : List UInt8) : List ZipEntry :=
  zip.entries.filter fun entry => start.isPrefixOf entry.name

/-- `std::string` with a slash at its end. -/
def withSlash (path : List UInt8) : List UInt8 :=
  if path.getLast? = some 47 then path else path ++ [47]

def prefixPath (zip_path : List UInt8) : List UInt8 :=
  if zip_path = [] then [] else withSlash zip_path

/-- The path of an entry, before it is passed as a C string. -/
def entryPath (zip_path dest_path : List UInt8) (entry : ZipEntry) : List UInt8 :=
  withSlash dest_path ++ entry.name.drop (prefixPath zip_path).length

/-- An entry that is a file. -/
def extractFile (path content : List UInt8) (timestamp : Bool) : Action ω :=
  andThen (dirCreateHierarchy sys path timestamp true) <|
    andThen (call sys (.create path)) <|
      andThen (call sys (.write path content)) <|
        andThen (fun m => (sys.fsync m.world, m)) (touch sys timestamp path)

/-- The loop over the entries; `none` where a `CHECK` fails. -/
def extractEntries (zip_path dest_path : List UInt8) (timestamp : Bool) :
    List ZipEntry → Machine ω → Option Bool × Machine ω
  | [], m => (some true, m)
  | entry :: entries, m =>
    if entry.name.length < (prefixPath zip_path).length then (none, m)
    else if (entryPath zip_path dest_path entry).getLast? = some 47 then
      extractEntries zip_path dest_path timestamp entries m
    else
      match extractFile sys (cStr (entryPath zip_path dest_path entry)) entry.content timestamp m with
      | (false, m) => (some false, m)
      | (true, m) => extractEntries zip_path dest_path timestamp entries m

def ExtractPackageRecursive (zip : ZipArchive) (zip_path dest_path : List UInt8) (timestamp : Bool)
    (m : Machine ω) : Option Bool × Machine ω :=
  if zip_path.head? = some 47 then (some false, m)
  else if dest_path.head? ≠ some 47 then (some false, m)
  else if zip.starts = false then (some false, m)
  else extractEntries sys zip_path dest_path timestamp (zip.iterate (cStr (prefixPath zip_path))) m

/-! ## What it may touch -/

/-- Below the directory; or a directory on the way to it, which was missing. -/
def Confined (dest_path : List UInt8) (e : Effect) : Prop :=
  resolve dest_path <+: resolve e.path ∨
    ((e = .mkdir e.path ∨ e = .utime e.path) ∧ e.path <+: dest_path)

/-- The name of an entry, relative to the prefix, does not lead out of where it starts. -/
def StaysBelow (zip_path : List UInt8) (entry : ZipEntry) : Prop :=
  Stays 0 ((cStr (entry.name.drop (prefixPath zip_path).length)).splitOn 47)

/-- The effects of a part of a run, each with a property. -/
def Adds (P : Effect → Prop) (m m' : Machine ω) : Prop :=
  ∃ new, m'.effects = m.effects ++ new ∧ ∀ e ∈ new, P e

variable {P : Effect → Prop}

theorem Adds.refl (m : Machine ω) : Adds P m m := ⟨[], (List.append_nil _).symm, nofun⟩

theorem Adds.trans {m m' m'' : Machine ω} (h : Adds P m m') (h' : Adds P m' m'') :
    Adds P m m'' := by
  obtain ⟨new, heq, hall⟩ := h
  obtain ⟨new', heq', hall'⟩ := h'
  refine ⟨new ++ new', by rw [heq', heq, List.append_assoc], ?_⟩
  intro e he
  rcases List.mem_append.1 he with he | he
  · exact hall e he
  · exact hall' e he

theorem adds_succeed (m : Machine ω) : Adds P m (succeed m).2 := .refl m

theorem adds_call {e : Effect} (he : P e) (m : Machine ω) : Adds P m (call sys e m).2 :=
  ⟨[e], rfl, by simpa using he⟩

theorem adds_touch {timestamp : Bool} {path : List UInt8} (h : P (.utime path)) (m : Machine ω) :
    Adds P m (touch sys timestamp path m).2 := by
  unfold touch
  split
  · exact adds_call sys h m
  · exact adds_succeed m

theorem adds_andThen {first rest : Action ω} (hfirst : ∀ m, Adds P m (first m).2)
    (hrest : ∀ m, Adds P m (rest m).2) (m : Machine ω) : Adds P m (andThen first rest m).2 := by
  have hdone := hfirst m
  unfold andThen
  split
  · rename_i m' heq
    rw [heq] at hdone
    exact hdone
  · rename_i m' heq
    rw [heq] at hdone
    exact hdone.trans (hrest m')

/-! ## Directories -/

/-- Behind each level there is a slash. -/
theorem levelsFrom_append {before s : List UInt8} {inName : Bool} {level : List UInt8}
    (h : level ∈ levelsFrom before inName s) : ∃ t, before ++ s = level ++ 47 :: t := by
  induction s generalizing before inName with
  | nil => cases h
  | cons c s ih =>
    rw [levelsFrom] at h
    have hskip {b : Bool} (h : level ∈ levelsFrom (before ++ [c]) b s) :
        ∃ t, before ++ c :: s = level ++ 47 :: t := by
      obtain ⟨t, ht⟩ := ih h
      exact ⟨t, by rw [← ht, List.append_assoc]; rfl⟩
    split at h
    · rename_i hslash
      split at h
      · rcases List.mem_cons.1 h with rfl | h
        · exact ⟨s, by rw [hslash]⟩
        · exact hskip h
      · exact hskip h
    · exact hskip h

theorem levels_append {path level : List UInt8} (h : level ∈ levels (path.rdropWhile (· ≠ 47))) :
    ∃ t, path = level ++ 47 :: t := by
  obtain ⟨t, ht⟩ := levelsFrom_append h
  obtain ⟨name, hname⟩ := List.rdropWhile_prefix (· ≠ 47) path
  rw [List.nil_append] at ht
  refine ⟨t ++ name, ?_⟩
  rw [← hname, ht, List.append_assoc]
  rfl

theorem makeLevels_effects {timestamp : Bool} {dirs : List (List UInt8)}
    (h : ∀ level ∈ dirs, P (.mkdir level) ∧ P (.utime level)) (m : Machine ω) :
    Adds P m (makeLevels sys timestamp dirs m).2 := by
  induction dirs generalizing m with
  | nil => exact .refl m
  | cons level dirs ih =>
    obtain ⟨⟨hmkdir, hutime⟩, hdirs⟩ := List.forall_mem_cons.1 h
    rw [makeLevels]
    dsimp only
    split
    · exact .refl m
    · exact ih hdirs m
    · exact adds_andThen (adds_call sys hmkdir) (adds_andThen (adds_touch sys hutime) (ih hdirs)) m

/-- The directories that a file gets are leading parts of its path. -/
theorem dirCreateHierarchy_effects {path : List UInt8} {timestamp : Bool}
    (h : ∀ level t, path = level ++ 47 :: t → P (.mkdir level) ∧ P (.utime level))
    (m : Machine ω) : Adds P m (dirCreateHierarchy sys path timestamp true m).2 := by
  unfold dirCreateHierarchy dirPath
  rw [if_pos rfl]
  split
  · exact .refl m
  · split
    · exact .refl m
    · rename_i cpath hcpath
      split at hcpath
      · cases hcpath
        split
        · exact .refl m
        · exact .refl m
        · apply makeLevels_effects sys
          intro level hlevel
          obtain ⟨t, ht⟩ := levels_append hlevel
          exact h level t ht
      · cases hcpath

/-- Nothing but the path of a file and leading parts of it is touched. -/
theorem extractFile_effects {path content : List UInt8} {timestamp : Bool}
    (h : ∀ level t, path = level ++ 47 :: t → P (.mkdir level) ∧ P (.utime level))
    (hcreate : P (.create path)) (hwrite : P (.write path content)) (hutime : P (.utime path))
    (m : Machine ω) : Adds P m (extractFile sys path content timestamp m).2 :=
  adds_andThen (dirCreateHierarchy_effects sys h) (adds_andThen (adds_call sys hcreate)
    (adds_andThen (adds_call sys hwrite) (adds_andThen .refl (adds_touch sys hutime)))) m

/-! ## Entries -/

variable {zip_path dest_path : List UInt8}

/-- The C string of an entry's path, in a directory whose path has no NUL. -/
theorem cStr_entryPath (h : 0 ∉ dest_path) (entry : ZipEntry) :
    ∃ dir, (dest_path = dir ∨ dest_path = dir ++ [47]) ∧
      cStr (entryPath zip_path dest_path entry) =
        dir ++ 47 :: cStr (entry.name.drop (prefixPath zip_path).length) := by
  unfold entryPath withSlash
  split
  · rename_i hlast
    obtain ⟨dir, hdir⟩ := List.getLast?_eq_some_iff.1 hlast
    refine ⟨dir, .inr hdir, ?_⟩
    rw [cStr_append h]
    nth_rewrite 1 [hdir]
    simp
  · refine ⟨dest_path, .inl rfl, ?_⟩
    rw [cStr_append (by simpa using h)]
    simp

theorem cStr_entryPath_cut (h : 0 ∈ dest_path) (entry : ZipEntry) :
    cStr (entryPath zip_path dest_path entry) = cStr dest_path := by
  unfold entryPath withSlash
  split
  · exact cStr_append_cut h _
  · rw [cStr_append_cut (List.mem_append_left _ h), cStr_append_cut h]

theorem resolve_slash (p : List UInt8) : resolve (p ++ [47]) = resolve p := by
  rw [resolve_append]
  rfl

/-- What is done for an entry whose name stays below. -/
theorem entry_confined {entry : ZipEntry} (h : StaysBelow zip_path entry) {e : Effect}
    (he : e.path = cStr (entryPath zip_path dest_path entry) ∨
      (e = .mkdir e.path ∨ e = .utime e.path) ∧
        ∃ t, cStr (entryPath zip_path dest_path entry) = e.path ++ 47 :: t) :
    Confined (cStr dest_path) e := by
  by_cases hnul : 0 ∈ dest_path
  · rw [cStr_entryPath_cut hnul] at he
    obtain hfile | ⟨hdir, t, ht⟩ := he
    · exact .inl (by simp only [hfile, List.prefix_rfl])
    · exact .inr ⟨hdir, 47 :: t, ht.symm⟩
  · obtain ⟨dir, hdest, hpath⟩ := @cStr_entryPath zip_path _ hnul entry
    have hresolve : resolve dest_path = resolve dir := by
      obtain rfl | rfl := hdest
      · rfl
      · exact resolve_slash dir
    have hdir : dir <+: dest_path := by
      obtain rfl | rfl := hdest
      · exact List.prefix_rfl
      · exact List.prefix_append _ _
    rw [cStr_eq hnul]
    rw [hpath] at he
    obtain hfile | ⟨hmade, t, ht⟩ := he
    · left
      rw [hfile, hresolve]
      exact prefix_resolve h
    · -- a leading part of the directory, or a directory below it
      rcases List.append_eq_append_iff.1 ht with ⟨r, hr, hrest⟩ | ⟨r, hr, hrest⟩
      · cases r with
        | nil =>
          rw [List.append_nil] at hr
          exact .inr ⟨hmade, hr ▸ hdir⟩
        | cons c r =>
          left
          rw [List.cons_append, List.cons.injEq] at hrest
          obtain ⟨rfl, hrest⟩ := hrest
          rw [hr, hresolve]
          apply prefix_resolve
          have hsplit : Stays 0 (r.splitOn 47 ++ t.splitOn 47) := by
            rw [← List.splitOn_append_cons_self, ← hrest]
            exact h
          exact hsplit.left
      · right
        refine ⟨hmade, List.IsPrefix.trans ⟨r, hr.symm⟩ hdir⟩

/-- The files among the entries. -/
def IsFile (zip_path dest_path : List UInt8) (entry : ZipEntry) : Prop :=
  (entryPath zip_path dest_path entry).getLast? ≠ some 47

/-- The file of an entry was created, and then its content was written. -/
def Written (zip_path dest_path : List UInt8) (entry : ZipEntry) (effects : List Effect) : Prop :=
  [.create (cStr (entryPath zip_path dest_path entry)),
    .write (cStr (entryPath zip_path dest_path entry)) entry.content] <:+: effects

theorem andThen_true {first rest : Action ω} {m m' : Machine ω}
    (h : andThen first rest m = (true, m')) : ∃ m₁, first m = (true, m₁) ∧ rest m₁ = (true, m') := by
  unfold andThen at h
  split at h
  · cases h
  · rename_i m₁ heq
    exact ⟨m₁, heq, h⟩

theorem call_effects {e : Effect} {ok : Bool} {m m' : Machine ω} (h : call sys e m = (ok, m')) :
    m'.effects = m.effects ++ [e] :=
  (congrArg (fun r => r.2.effects) h).symm

theorem extractFile_written {path content : List UInt8} {timestamp : Bool} {m m' : Machine ω}
    (h : extractFile sys path content timestamp m = (true, m')) :
    [.create path, .write path content] <:+: m'.effects := by
  obtain ⟨m₁, -, h⟩ := andThen_true h
  obtain ⟨m₂, h₂, h⟩ := andThen_true h
  obtain ⟨m₃, h₃, h⟩ := andThen_true h
  obtain ⟨m₄, h₄, h⟩ := andThen_true h
  have hlast : Adds (fun _ => True) m₄ (touch sys timestamp path m₄).2 := adds_touch sys trivial m₄
  rw [h] at hlast
  obtain ⟨new, hnew, -⟩ := hlast
  have hsame : m₃ = m₄ := congrArg Prod.snd h₄
  refine ⟨m₁.effects, new, ?_⟩
  rw [hnew, ← hsame, call_effects sys h₃, call_effects sys h₂]
  simp

/-- The loop over the entries. -/
theorem extractEntries_spec (timestamp : Bool) {entries : List ZipEntry}
    (h : ∀ entry ∈ entries, ∀ e : Effect, (e.path = cStr (entryPath zip_path dest_path entry) ∨
      (e = .mkdir e.path ∨ e = .utime e.path) ∧
        ∃ t, cStr (entryPath zip_path dest_path entry) = e.path ++ 47 :: t) → P e)
    (m : Machine ω) :
    Adds P m (extractEntries sys zip_path dest_path timestamp entries m).2 ∧
      ((extractEntries sys zip_path dest_path timestamp entries m).1 = some true →
        ∀ entry ∈ entries, IsFile zip_path dest_path entry → Written zip_path dest_path entry
          (extractEntries sys zip_path dest_path timestamp entries m).2.effects) := by
  induction entries generalizing m with
  | nil => exact ⟨.refl m, nofun⟩
  | cons entry entries ih =>
    obtain ⟨hentry, hentries⟩ := List.forall_mem_cons.1 h
    rw [extractEntries]
    split
    · exact ⟨.refl m, nofun⟩
    · split
      · rename_i hdir
        obtain ⟨hadds, hwritten⟩ := ih hentries m
        refine ⟨hadds, fun hok entry' hmem hfile => ?_⟩
        rcases List.mem_cons.1 hmem with rfl | hmem
        · exact absurd hdir hfile
        · exact hwritten hok entry' hmem hfile
      · have hfile : Adds P m (extractFile sys (cStr (entryPath zip_path dest_path entry))
            entry.content timestamp m).2 := by
          apply extractFile_effects
          · intro level t ht
            exact ⟨hentry _ (.inr ⟨.inl rfl, t, ht⟩), hentry _ (.inr ⟨.inr rfl, t, ht⟩)⟩
          · exact hentry _ (.inl rfl)
          · exact hentry _ (.inl rfl)
          · exact hentry _ (.inl rfl)
        split
        · rename_i m' heq
          rw [heq] at hfile
          exact ⟨hfile, nofun⟩
        · rename_i m' heq
          rw [heq] at hfile
          obtain ⟨hadds, hwritten⟩ := ih hentries m'
          refine ⟨hfile.trans hadds, fun hok entry' hmem hfile' => ?_⟩
          rcases List.mem_cons.1 hmem with rfl | hmem
          · obtain ⟨new, hnew, -⟩ := hadds
            unfold Written
            rw [hnew]
            exact (extractFile_written sys heq).trans (List.prefix_append _ _).isInfix
          · exact hwritten hok entry' hmem hfile'

/-- **Extraction**: if the name of no entry leads out of the directory, only what is below it is
touched, and missing directories on the way to it; after a success every file has been written. -/
theorem extract_spec (zip : ZipArchive) (zip_path dest_path : List UInt8) (timestamp : Bool)
    (world : ω) :
    let r := ExtractPackageRecursive sys zip zip_path dest_path timestamp ⟨world, []⟩
    let entries := zip.iterate (cStr (prefixPath zip_path))
    ((∀ entry ∈ entries, StaysBelow zip_path entry) →
        ∀ e ∈ r.2.effects, Confined (cStr dest_path) e) ∧
      (r.1 = some true → ∀ entry ∈ entries, IsFile zip_path dest_path entry →
        Written zip_path dest_path entry r.2.effects) := by
  intro r entries
  have hloop : r = (some false, ⟨world, []⟩) ∨
      r = extractEntries sys zip_path dest_path timestamp entries ⟨world, []⟩ := by
    unfold r ExtractPackageRecursive
    split
    · exact .inl rfl
    · split
      · exact .inl rfl
      · split
        · exact .inl rfl
        · exact .inr rfl
  obtain hr | hr := hloop
  · rw [hr]
    exact ⟨fun _ => nofun, nofun⟩
  · rw [hr]
    constructor
    · intro hstays
      obtain ⟨⟨new, hnew, hall⟩, -⟩ := extractEntries_spec sys timestamp
        (fun entry hentry e he => entry_confined (hstays entry hentry) he) ⟨world, []⟩
      rw [hnew]
      exact hall
    · exact (extractEntries_spec sys (P := fun _ => True) timestamp (fun _ _ _ _ => trivial)
        ⟨world, []⟩).2

/-- A file system where everything succeeds and only the root is there. -/
def bareSystem : FileSystem Unit where
  stat := fun path _ => if path = [47] then .dir else .missing
  call := fun _ _ => (true, ())
  fsync := fun _ => true

/-- `package_extract_dir("a", "/d")` of a package with the entries `x` and `a/b/../c`. -/
theorem extract_spec_example :
    let r := ExtractPackageRecursive bareSystem
      ⟨true, [⟨ascii "x", ascii "0"⟩, ⟨ascii "a/b/../c", ascii "1"⟩]⟩ (ascii "a") (ascii "/d") false
      ⟨(), []⟩
    (∀ e ∈ r.2.effects, Confined (ascii "/d") e) ∧
      Written (ascii "a") (ascii "/d") ⟨ascii "a/b/../c", ascii "1"⟩ r.2.effects := by
  have hspec := extract_spec bareSystem
    ⟨true, [⟨ascii "x", ascii "0"⟩, ⟨ascii "a/b/../c", ascii "1"⟩]⟩ (ascii "a") (ascii "/d") false ()
  refine ⟨hspec.1 ?_, hspec.2 (by decide) _ ?_ ?_⟩
  · intro entry hentry
    cases List.mem_singleton.1 hentry
    unfold StaysBelow
    decide
  · exact List.mem_singleton.2 rfl
  · unfold IsFile
    decide

/-- `package_extract_dir("a", "/p/d")` of a package with the entry `a/../x`. -/
theorem dotdot_escapes :
    let r := ExtractPackageRecursive bareSystem ⟨true, [⟨ascii "a/../x", ascii "1"⟩]⟩ (ascii "a")
      (ascii "/p/d") false ⟨(), []⟩
    r.1 = some true ∧ Effect.create (ascii "/p/d/../x") ∈ r.2.effects ∧
      ¬ resolve (ascii "/p/d") <+: resolve (ascii "/p/d/../x") ∧
      Effect.mkdir (ascii "/p") ∈ r.2.effects ∧ ¬ resolve (ascii "/p/d") <+: resolve (ascii "/p") ∧
      ¬ ∀ e ∈ r.2.effects, resolve (ascii "/p/d") <+: resolve e.path := by
  refine ⟨by decide, by decide, by decide, by decide, by decide, fun h => ?_⟩
  have hcreate := h (.create (ascii "/p/d/../x")) (by decide)
  revert hcreate
  decide

end Recovery.OtaUtil
