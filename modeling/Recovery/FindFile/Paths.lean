import Recovery.Lib.Pieces

/-!
# Directories, links and what paths name

* `Entries` — a directory as a tree; what is in it can be a link to anything, or to nothing.
* `System` — such a tree, with the working directory and the limits on links in a path.
* `namei` — where names lead to, with links; `resolve` — the same of a path, as a system call.
* `Entries.readdir`, `opendir`, `realpath` — as in the C library.
* `Follows.append`, `Follows.of_append` — a path is followed name by name.
* `Follows.mono`, `Leads.unique` — a greater limit on links changes nothing.
* `Settled.resolve_spell` — a canonical path leads to what it is the path of.
* `mem_locs` — there are finitely many places.
-/

set_option autoImplicit false

namespace Recovery.FindFile

open Recovery.Lib

/-- A byte of a C string. -/
abbrev CChar := {b : UInt8 // b ≠ 0}

abbrev Str := List CChar

def slash : CChar := ⟨47, by decide⟩

def dot : CChar := ⟨46, by decide⟩

/-- With the zero at the end of a path. -/
def PATH_MAX : Nat := 4096

/-! ## Directories -/

/-- What an entry can be called. -/
def Proper (c : Str) : Prop := IsPiece slash c ∧ c ≠ [dot] ∧ c ≠ [dot, dot]

structure Name where
  d_name : Str
  proper : Proper d_name

/-- An entry that is no directory. -/
inductive Leaf where
  | lnk (target : Str)
  | reg
  | fifo
  | sock
  | chr
  | blk
  deriving DecidableEq

inductive Entries where
  | nil
  /-- A directory, what is in it, and the other entries. -/
  | dir (name : Name) (below rest : Entries)
  | leaf (name : Name) (kind : Leaf) (rest : Entries)

inductive Item where
  | dir (below : Entries)
  | leaf (kind : Leaf)

/-- The names on the way from the root. -/
abbrev Loc := List Str

namespace Entries

def names : Entries → List Str
  | .nil => []
  | .dir name _ rest => name.d_name :: rest.names
  | .leaf name _ rest => name.d_name :: rest.names

def Distinct : Entries → Prop
  | .nil => True
  | .dir name below rest => name.d_name ∉ rest.names ∧ below.Distinct ∧ rest.Distinct
  | .leaf name _ rest => name.d_name ∉ rest.names ∧ rest.Distinct

def lookup (c : Str) : Entries → Option Item
  | .nil => none
  | .dir name below rest => if name.d_name = c then some (.dir below) else rest.lookup c
  | .leaf name kind rest => if name.d_name = c then some (.leaf kind) else rest.lookup c

/-- What is in a directory further down. -/
def dirAt : Entries → Loc → Option Entries
  | es, [] => some es
  | es, c :: loc =>
    match es.lookup c with
    | some (.dir below) => below.dirAt loc
    | _ => none

end Entries

/-! ## `readdir` -/

/-- Of a `d_type`. -/
inductive DType where
  | DT_DIR
  | DT_LNK
  | DT_REG
  | DT_FIFO
  | DT_SOCK
  | DT_CHR
  | DT_BLK
  deriving DecidableEq

@[ext]
structure Dirent where
  d_name : Str
  d_type : DType
  deriving DecidableEq

def Leaf.d_type : Leaf → DType
  | .lnk _ => .DT_LNK
  | .reg => .DT_REG
  | .fifo => .DT_FIFO
  | .sock => .DT_SOCK
  | .chr => .DT_CHR
  | .blk => .DT_BLK

def Item.d_type : Item → DType
  | .dir _ => .DT_DIR
  | .leaf kind => kind.d_type

namespace Entries

def dirents : Entries → List Dirent
  | .nil => []
  | .dir name _ rest => ⟨name.d_name, .DT_DIR⟩ :: rest.dirents
  | .leaf name kind rest => ⟨name.d_name, kind.d_type⟩ :: rest.dirents

def readdir (es : Entries) : List Dirent :=
  ⟨[dot], .DT_DIR⟩ :: ⟨[dot, dot], .DT_DIR⟩ :: es.dirents

end Entries

/-! ## Paths -/

structure System where
  root : Entries
  distinct : root.Distinct
  cwd : Loc
  cwd_dir : (root.dirAt cwd).isSome
  /-- How many links `opendir` follows in one path. -/
  openLinks : Nat
  /-- How many links `realpath` follows. -/
  realLinks : Nat

/-- The path of a place, without links and dots in it. -/
def spell : Loc → Str
  | [] => [slash]
  | c :: loc => joined slash (c :: loc)

/-- Where a path starts that is used in a directory. -/
def base (loc : Loc) (path : Str) : Loc := if path.head? = some slash then [] else loc

namespace System

variable (sys : System)

def IsDir (loc : Loc) : Prop := (sys.root.dirAt loc).isSome

def itemAt (loc : Loc) (c : Str) : Option Item := (sys.root.dirAt loc).bind (·.lookup c)

/-- Names are followed from a directory; `enter` goes on behind a link. -/
def follow (enter : Loc → List Str → Option Loc) : Loc → List Str → Option Loc
  | loc, [] => some loc
  | loc, c :: cs =>
    if c = [] ∨ c = [dot] then follow enter loc cs
    else if c = [dot, dot] then follow enter loc.dropLast cs
    else
      match sys.itemAt loc c with
      | none => none
      | some (.dir _) => follow enter (loc ++ [c]) cs
      | some (.leaf (.lnk target)) =>
        if target = [] then none else enter (base loc target) (target.splitOn slash ++ cs)
      | some (.leaf _) => if cs = [] then some (loc ++ [c]) else none

/-- The names that a directory leads to, with so many links at most. -/
def namei : Nat → Loc → List Str → Option Loc
  | 0 => sys.follow fun _ _ => none
  | links + 1 => sys.follow (namei links)

def resolve (links : Nat) (path : Str) : Option Loc :=
  if path = [] ∨ PATH_MAX ≤ path.length then none
  else sys.namei links (base sys.cwd path) (path.splitOn slash)

def opendir (path : Str) : Option (List Dirent) := do
  let loc ← sys.resolve sys.openLinks path
  let es ← sys.root.dirAt loc
  pure es.readdir

def realpath (path : Str) : Option Str := do
  let loc ← sys.resolve sys.realLinks path
  if (spell loc).length < PATH_MAX then some (spell loc) else none

end System

/-! ## What is in a directory -/

namespace Entries

variable {es es' : Entries} {c : Str} {loc loc' : Loc}

theorem mem_names_of_lookup {item : Item} (h : es.lookup c = some item) : c ∈ es.names := by
  induction es with
  | nil => cases h
  | dir name below rest _ ih =>
    rw [lookup] at h
    split at h
    · rename_i hname
      simp [names, hname]
    · exact List.mem_cons_of_mem _ (ih h)
  | leaf name kind rest ih =>
    rw [lookup] at h
    split at h
    · rename_i hname
      simp [names, hname]
    · exact List.mem_cons_of_mem _ (ih h)

theorem proper_of_mem_names (h : c ∈ es.names) : Proper c := by
  induction es with
  | nil => cases h
  | dir name below rest _ ih =>
    rcases List.mem_cons.1 h with rfl | h
    · exact name.proper
    · exact ih h
  | leaf name kind rest ih =>
    rcases List.mem_cons.1 h with rfl | h
    · exact name.proper
    · exact ih h

/-- The first entry, or another one: no two have the same name. -/
theorem first_or_lookup {name : Str} {rest : Entries} (hnew : name ∉ rest.names) (first : Item)
    {de : Dirent} :
    (de = ⟨name, first.d_type⟩ ∨
        ∃ item, rest.lookup de.d_name = some item ∧ item.d_type = de.d_type) ↔
      ∃ item, (if name = de.d_name then some first else rest.lookup de.d_name) = some item ∧
        item.d_type = de.d_type := by
  by_cases hname : name = de.d_name
  · rw [hname] at hnew
    have hnone : ∀ item, rest.lookup de.d_name ≠ some item :=
      fun item h => hnew (mem_names_of_lookup h)
    simp [hname, hnone, Dirent.ext_iff, eq_comm]
  · have hname' : de.d_name ≠ name := fun h => hname h.symm
    simp [hname, hname', Dirent.ext_iff]

/-- `readdir` shows what a path finds, with its type. -/
theorem mem_dirents (hd : es.Distinct) {de : Dirent} :
    de ∈ es.dirents ↔ ∃ item, es.lookup de.d_name = some item ∧ item.d_type = de.d_type := by
  induction es with
  | nil => simp [dirents, lookup]
  | dir name below rest _ ih =>
    obtain ⟨hnew, -, hd⟩ := hd
    rw [dirents, lookup, List.mem_cons, ih hd]
    exact first_or_lookup hnew (.dir below)
  | leaf name kind rest ih =>
    obtain ⟨hnew, hd⟩ := hd
    rw [dirents, lookup, List.mem_cons, ih hd]
    exact first_or_lookup hnew (.leaf kind)

theorem Distinct.below {below : Entries} (hd : es.Distinct) (h : es.lookup c = some (.dir below)) :
    below.Distinct := by
  induction es with
  | nil => cases h
  | dir name below' rest _ ih =>
    obtain ⟨-, hbelow, hrest⟩ := hd
    rw [lookup] at h
    split at h
    · cases h
      exact hbelow
    · exact ih hrest h
  | leaf name kind rest ih =>
    rw [lookup] at h
    split at h
    · cases h
    · exact ih hd.2 h

theorem dirAt_cons : es.dirAt (c :: loc) = some es' ↔
    ∃ below, es.lookup c = some (.dir below) ∧ below.dirAt loc = some es' := by
  rw [dirAt]
  split
  · rename_i below hc
    simp [hc]
  · rename_i hc
    simpa using fun below h _ => hc below h

theorem dirAt_append :
    es.dirAt (loc ++ loc') = (es.dirAt loc).bind (·.dirAt loc') := by
  induction loc generalizing es with
  | nil => rfl
  | cons c loc ih =>
    rw [List.cons_append, dirAt, dirAt]
    split
    · exact ih
    · rfl

theorem Distinct.dirAt (hd : es.Distinct) (h : es.dirAt loc = some es') : es'.Distinct := by
  induction loc generalizing es with
  | nil =>
    cases h
    exact hd
  | cons c loc ih =>
    obtain ⟨below, hc, h⟩ := dirAt_cons.1 h
    exact ih (hd.below hc) h

/-! ### There are finitely many places -/

/-- The places in a directory, and the directory. -/
def locs : Entries → List Loc
  | .nil => [[]]
  | .dir name below rest => below.locs.map (name.d_name :: ·) ++ rest.locs
  | .leaf name _ rest => [name.d_name] :: rest.locs

theorem nil_mem_locs (es : Entries) : [] ∈ es.locs := by
  induction es with
  | nil => exact List.mem_cons_self
  | dir name below rest _ ih => exact List.mem_append_right _ ih
  | leaf name kind rest ih => exact List.mem_cons_of_mem _ ih

theorem mem_locs_below {below : Entries} (h : es.lookup c = some (.dir below))
    (hloc : loc ∈ below.locs) : c :: loc ∈ es.locs := by
  induction es with
  | nil => cases h
  | dir name below' rest _ ih =>
    rw [lookup] at h
    split at h
    · rename_i hname
      cases h
      exact List.mem_append_left _ (List.mem_map.2 ⟨loc, hloc, by rw [hname]⟩)
    · exact List.mem_append_right _ (ih h)
  | leaf name kind rest ih =>
    rw [lookup] at h
    split at h
    · cases h
    · exact List.mem_cons_of_mem _ (ih h)

theorem mem_locs_leaf {kind : Leaf} (h : es.lookup c = some (.leaf kind)) : [c] ∈ es.locs := by
  induction es with
  | nil => cases h
  | dir name below rest _ ih =>
    rw [lookup] at h
    split at h
    · cases h
    · exact List.mem_append_right _ (ih h)
  | leaf name kind' rest ih =>
    rw [lookup] at h
    split at h
    · rename_i hname
      exact List.mem_cons.2 (.inl (by rw [hname]))
    · exact List.mem_cons_of_mem _ (ih h)

theorem mem_locs (h : es.dirAt loc = some es') (hloc : loc' ∈ es'.locs) :
    loc ++ loc' ∈ es.locs := by
  induction loc generalizing es with
  | nil =>
    cases h
    exact hloc
  | cons c loc ih =>
    obtain ⟨below, hc, h⟩ := dirAt_cons.1 h
    exact mem_locs_below hc (ih h)

end Entries

/-! ## Names are followed one by one -/

namespace System

variable {sys : System} {loc loc' mid : Loc} {c : Str} {a b : List Str} {links links' : Nat}

theorem itemAt_eq_some {item : Item} :
    sys.itemAt loc c = some item ↔ ∃ es, sys.root.dirAt loc = some es ∧ es.lookup c = some item :=
  Option.bind_eq_some_iff

theorem itemAt_of_isDir {below : Entries} :
    sys.itemAt loc c = some (.dir below) ↔ sys.root.dirAt (loc ++ [c]) = some below := by
  rw [Entries.dirAt_append, itemAt]
  cases sys.root.dirAt loc with
  | none => simp
  | some es =>
    rw [Option.bind_some, Option.bind_some, Entries.dirAt_cons]
    simp [Entries.dirAt]

theorem isDir_nil : sys.IsDir [] := rfl

theorem IsDir.of_append (h : sys.IsDir (loc ++ loc')) : sys.IsDir loc := by
  unfold IsDir at h ⊢
  rw [Entries.dirAt_append] at h
  cases hloc : sys.root.dirAt loc with
  | none => simp [hloc] at h
  | some es => rfl

theorem IsDir.dropLast (h : sys.IsDir loc) : sys.IsDir loc.dropLast := by
  rcases List.eq_nil_or_concat loc with rfl | ⟨loc, c, rfl⟩
  · exact h
  · rw [List.concat_eq_append] at h ⊢
    rw [List.dropLast_concat]
    exact h.of_append

theorem IsDir.base (h : sys.IsDir loc) (path : Str) : sys.IsDir (FindFile.base loc path) := by
  unfold FindFile.base
  split
  · exact isDir_nil
  · exact h

theorem isDir_of_itemAt_eq {item : Item} (h : sys.itemAt loc c = some item) : sys.IsDir loc := by
  obtain ⟨es, hes, -⟩ := itemAt_eq_some.1 h
  rw [IsDir, hes]
  rfl

theorem isDir_of_itemAt {below : Entries} (h : sys.itemAt loc c = some (.dir below)) :
    sys.IsDir (loc ++ [c]) := by
  rw [IsDir, itemAt_of_isDir.1 h]
  rfl

theorem proper_of_itemAt {item : Item} (h : sys.itemAt loc c = some item) : Proper c := by
  obtain ⟨es, -, hc⟩ := itemAt_eq_some.1 h
  exact Entries.proper_of_mem_names (Entries.mem_names_of_lookup hc)

/-- What is where a file is. -/
theorem not_isDir_of_leaf {kind : Leaf} (h : sys.itemAt loc c = some (.leaf kind)) :
    ¬ sys.IsDir (loc ++ [c]) := by
  intro hdir
  obtain ⟨below, hbelow⟩ := Option.isSome_iff_exists.1 hdir
  rw [← itemAt_of_isDir, h] at hbelow
  cases hbelow

/-- `namei` as rules. -/
inductive Follows (sys : System) : Nat → Loc → List Str → Loc → Prop where
  | nil {links : Nat} {loc : Loc} : Follows sys links loc [] loc
  | skip {links : Nat} {loc loc' : Loc} {c : Str} {cs : List Str} (hc : c = [] ∨ c = [dot])
      (h : Follows sys links loc cs loc') : Follows sys links loc (c :: cs) loc'
  | up {links : Nat} {loc loc' : Loc} {cs : List Str}
      (h : Follows sys links loc.dropLast cs loc') :
      Follows sys links loc ([dot, dot] :: cs) loc'
  | down {links : Nat} {loc loc' : Loc} {c : Str} {cs : List Str} {below : Entries}
      (hc : sys.itemAt loc c = some (.dir below)) (h : Follows sys links (loc ++ [c]) cs loc') :
      Follows sys links loc (c :: cs) loc'
  | link {links : Nat} {loc loc' : Loc} {c target : Str} {cs : List Str}
      (hc : sys.itemAt loc c = some (.leaf (.lnk target))) (ht : target ≠ [])
      (h : Follows sys links (base loc target) (target.splitOn slash ++ cs) loc') :
      Follows sys (links + 1) loc (c :: cs) loc'
  | leaf {links : Nat} {loc : Loc} {c : Str} {kind : Leaf}
      (hc : sys.itemAt loc c = some (.leaf kind)) (hk : ∀ target, kind ≠ .lnk target) :
      Follows sys links loc [c] (loc ++ [c])

theorem follow_proper {enter : Loc → List Str → Option Loc} (hc : Proper c) :
    sys.follow enter loc (c :: a) =
      match sys.itemAt loc c with
      | none => none
      | some (.dir _) => sys.follow enter (loc ++ [c]) a
      | some (.leaf (.lnk target)) =>
        if target = [] then none else enter (base loc target) (target.splitOn slash ++ a)
      | some (.leaf _) => if a = [] then some (loc ++ [c]) else none := by
  obtain ⟨⟨hne, -⟩, hdot, hdots⟩ := hc
  rw [follow, if_neg (by simp [hne, hdot]), if_neg hdots]

/-- One limit on links: what comes before the next link, and what `enter` does behind it. -/
theorem follow_follows {enter : Loc → List Str → Option Loc}
    (henter : ∀ {loc b loc'}, enter loc b = some loc' →
      ∃ links', links = links' + 1 ∧ Follows sys links' loc b loc')
    (h : sys.follow enter loc a = some loc') : Follows sys links loc a loc' := by
  induction a generalizing loc with
  | nil =>
    cases h
    exact .nil
  | cons c a ih =>
    by_cases hskip : c = [] ∨ c = [dot]
    · rw [follow, if_pos hskip] at h
      exact .skip hskip (ih h)
    · by_cases hup : c = [dot, dot]
      · rw [follow, if_neg hskip, if_pos hup] at h
        rw [hup]
        exact .up (ih h)
      · rw [follow, if_neg hskip, if_neg hup] at h
        cases hitem : sys.itemAt loc c with
        | none => simp [hitem] at h
        | some item =>
          cases item with
          | dir below =>
            simp only [hitem] at h
            exact .down hitem (ih h)
          | leaf kind =>
            by_cases hk : ∃ target, kind = .lnk target
            · obtain ⟨target, rfl⟩ := hk
              simp only [hitem] at h
              split at h
              · cases h
              · rename_i ht
                obtain ⟨links', rfl, hbehind⟩ := henter h
                exact .link hitem ht hbehind
            · have hleaf : ∀ target, kind ≠ .lnk target := fun target ht => hk ⟨target, ht⟩
              have h' : (if a = [] then some (loc ++ [c]) else none) = some loc' := by
                cases kind with
                | lnk target => exact absurd rfl (hleaf target)
                | _ => simpa only [hitem] using h
              split at h'
              · rename_i ha
                cases h'
                rw [ha]
                exact .leaf hitem hleaf
              · cases h'

theorem follows_of_namei (h : sys.namei links loc a = some loc') :
    Follows sys links loc a loc' := by
  induction links generalizing loc a loc' with
  | zero => exact follow_follows (by simp) h
  | succ links ih => exact follow_follows (fun hbehind => ⟨links, rfl, ih hbehind⟩) h

/-- What goes on behind a link. -/
def behind (sys : System) : Nat → Loc → List Str → Option Loc
  | 0 => fun _ _ => none
  | links + 1 => sys.namei links

theorem namei_eq : sys.namei links = sys.follow (sys.behind links) := by
  cases links <;> rfl

theorem namei_of_follows (h : Follows sys links loc a loc') :
    sys.namei links loc a = some loc' := by
  induction h with
  | nil => rw [namei_eq, follow]
  | skip hc _ ih =>
    rw [namei_eq] at ih ⊢
    rw [follow, if_pos hc, ih]
  | up _ ih =>
    rw [namei_eq] at ih ⊢
    rw [follow, if_neg (by decide), if_pos rfl, ih]
  | down hc _ ih =>
    rw [namei_eq] at ih ⊢
    simp only [follow_proper (proper_of_itemAt hc), hc, ih]
  | link hc ht _ ih =>
    simpa only [namei, follow_proper (proper_of_itemAt hc), hc, if_neg ht] using ih
  | @leaf _ _ _ kind hc hk =>
    rw [namei_eq, follow_proper (proper_of_itemAt hc), hc]
    cases kind with
    | lnk target => exact absurd rfl (hk target)
    | _ => rfl

theorem namei_eq_some : sys.namei links loc a = some loc' ↔ Follows sys links loc a loc' :=
  ⟨follows_of_namei, namei_of_follows⟩

theorem Follows.mono (h : Follows sys links loc a loc') (hle : links ≤ links') :
    Follows sys links' loc a loc' := by
  induction h generalizing links' with
  | nil => exact .nil
  | skip hc _ ih => exact .skip hc (ih hle)
  | up _ ih => exact .up (ih hle)
  | down hc _ ih => exact .down hc (ih hle)
  | link hc ht _ ih =>
    obtain ⟨links', rfl⟩ := Nat.exists_eq_add_one_of_ne_zero (show links' ≠ 0 by lia)
    exact .link hc ht (ih (by lia))
  | leaf hc hk => exact .leaf hc hk

/-- More names behind those that lead to a directory. -/
theorem Follows.append (h : Follows sys links loc a mid) (hm : sys.IsDir mid) :
    ∃ k ≤ links, ∀ {b loc'}, Follows sys k mid b loc' → Follows sys links loc (a ++ b) loc' := by
  induction h with
  | nil => exact ⟨_, Nat.le_refl _, id⟩
  | skip hc _ ih =>
    obtain ⟨k, hk, hrest⟩ := ih hm
    exact ⟨k, hk, fun hb => .skip hc (hrest hb)⟩
  | up _ ih =>
    obtain ⟨k, hk, hrest⟩ := ih hm
    exact ⟨k, hk, fun hb => .up (hrest hb)⟩
  | down hc _ ih =>
    obtain ⟨k, hk, hrest⟩ := ih hm
    exact ⟨k, hk, fun hb => .down hc (hrest hb)⟩
  | link hc ht _ ih =>
    obtain ⟨k, hk, hrest⟩ := ih hm
    refine ⟨k, by lia, fun {b _} hb => .link hc ht ?_⟩
    have h := hrest hb
    rwa [List.append_assoc] at h
  | leaf hc _ => exact absurd hm (not_isDir_of_leaf hc)

theorem Follows.of_append (h : Follows sys links loc (a ++ b) loc') (hb : b ≠ [])
    (hl : sys.IsDir loc) : ∃ mid k, sys.IsDir mid ∧ Follows sys links loc a mid ∧ k ≤ links ∧
      Follows sys k mid b loc' := by
  have here : ∀ {n l r x}, [] ++ b = x → sys.IsDir l → Follows sys n l x r →
      ∃ mid k, sys.IsDir mid ∧ Follows sys n l [] mid ∧ k ≤ n ∧ Follows sys k mid b r := by
    rintro n l r x rfl hdir hb
    exact ⟨l, n, hdir, .nil, Nat.le_refl _, hb⟩
  generalize hx : a ++ b = x at h
  induction h generalizing a with
  | nil => exact absurd (List.append_eq_nil_iff.1 hx).2 hb
  | @skip n l r c cs hc h ih =>
    cases a with
    | nil => exact here hx hl (.skip hc h)
    | cons d a =>
      obtain ⟨rfl, hcs⟩ := List.cons.inj hx
      obtain ⟨mid, k, hmid, ha, hk, hrest⟩ := ih hl hcs
      exact ⟨mid, k, hmid, .skip hc ha, hk, hrest⟩
  | @up n l r cs h ih =>
    cases a with
    | nil => exact here hx hl (.up h)
    | cons d a =>
      obtain ⟨rfl, hcs⟩ := List.cons.inj hx
      obtain ⟨mid, k, hmid, ha, hk, hrest⟩ := ih hl.dropLast hcs
      exact ⟨mid, k, hmid, .up ha, hk, hrest⟩
  | @down n l r c cs below hc h ih =>
    cases a with
    | nil => exact here hx hl (.down hc h)
    | cons d a =>
      obtain ⟨rfl, hcs⟩ := List.cons.inj hx
      obtain ⟨mid, k, hmid, ha, hk, hrest⟩ := ih (isDir_of_itemAt hc) hcs
      exact ⟨mid, k, hmid, .down hc ha, hk, hrest⟩
  | @link n l r c target cs hc ht h ih =>
    cases a with
    | nil => exact here hx hl (.link hc ht h)
    | cons d a =>
      obtain ⟨rfl, hcs⟩ := List.cons.inj hx
      obtain ⟨mid, k, hmid, ha, hk, hrest⟩ :=
        @ih (target.splitOn slash ++ a) (hl.base target) (by rw [List.append_assoc, ← hcs]; rfl)
      exact ⟨mid, k, hmid, .link hc ht ha, by omega, hrest⟩
  | @leaf n l c kind hc hk =>
    cases a with
    | nil => exact here hx hl (.leaf hc hk)
    | cons d a =>
      have hnil := (List.cons.inj hx).2
      exact absurd (List.append_eq_nil_iff.1 hnil).2 hb

/-- Where names lead to, with any number of links. -/
def Leads (sys : System) (loc : Loc) (a : List Str) (loc' : Loc) : Prop :=
  ∃ links, Follows sys links loc a loc'

theorem Leads.unique (h : sys.Leads loc a loc') (h' : sys.Leads loc a mid) : loc' = mid := by
  obtain ⟨n, h⟩ := h
  obtain ⟨m, h'⟩ := h'
  have h1 := namei_eq_some.2 (h.mono (Nat.le_max_left n m))
  have h2 := namei_eq_some.2 (h'.mono (Nat.le_max_right n m))
  rw [h1] at h2
  exact Option.some.inj h2

/-! ### Canonical paths -/

/-- A directory, or something that is neither a directory nor a link. -/
def Settled (sys : System) (loc : Loc) : Prop :=
  sys.IsDir loc ∨ ∃ dir c kind, loc = dir ++ [c] ∧ sys.itemAt dir c = some (.leaf kind) ∧
    ∀ target, kind ≠ .lnk target

theorem Follows.settled (h : Follows sys links loc a loc') (hl : sys.IsDir loc) :
    sys.Settled loc' := by
  induction h with
  | nil => exact .inl hl
  | skip _ _ ih => exact ih hl
  | up _ ih => exact ih hl.dropLast
  | down hc _ ih => exact ih (isDir_of_itemAt hc)
  | link _ _ _ ih => exact ih (hl.base _)
  | leaf hc hk => exact .inr ⟨_, _, _, rfl, hc, hk⟩

theorem itemAt_of_append (h : sys.IsDir (loc ++ c :: a)) :
    ∃ below, sys.itemAt loc c = some (.dir below) := by
  have hdir : sys.IsDir (loc ++ [c] ++ a) := by rwa [List.append_assoc]
  have hdir : sys.IsDir (loc ++ [c]) := hdir.of_append
  obtain ⟨below, hbelow⟩ := Option.isSome_iff_exists.1 hdir
  exact ⟨below, itemAt_of_isDir.2 hbelow⟩

/-- Directories below each other. -/
theorem follows_dirs (h : sys.IsDir (loc ++ a)) : Follows sys links loc a (loc ++ a) := by
  induction a generalizing loc with
  | nil =>
    rw [List.append_nil]
    exact .nil
  | cons c a ih =>
    obtain ⟨below, hc⟩ := itemAt_of_append h
    have hrest : sys.IsDir (loc ++ [c] ++ a) := by rwa [List.append_assoc]
    have := ih hrest
    rw [List.append_assoc] at this
    exact .down hc this

theorem Settled.follows (h : sys.Settled loc) : Follows sys links [] loc loc := by
  rcases h with h | ⟨dir, c, kind, rfl, hc, hk⟩
  · exact follows_dirs h
  · have hdir : sys.IsDir dir := isDir_of_itemAt_eq hc
    have hdirs : Follows sys links [] dir dir := follows_dirs hdir
    obtain ⟨k, -, hrest⟩ := hdirs.append hdir
    exact hrest (.leaf hc hk)

theorem IsDir.proper (h : sys.IsDir loc) (hc : c ∈ loc) : Proper c := by
  obtain ⟨l, r, rfl⟩ := List.append_of_mem hc
  obtain ⟨below, hitem⟩ := itemAt_of_append h
  exact proper_of_itemAt hitem

theorem Settled.proper (h : sys.Settled loc) (hc : c ∈ loc) : Proper c := by
  rcases h with h | ⟨dir, d, kind, rfl, hd, -⟩
  · exact h.proper hc
  · rcases List.mem_append.1 hc with hc | hc
    · exact (isDir_of_itemAt_eq hd).proper hc
    · rw [List.mem_singleton.1 hc]
      exact proper_of_itemAt hd

/-! ### System calls -/

variable {path : Str}

/-- What a path names, with any number of links and of any length. -/
def Names (sys : System) (path : Str) (loc : Loc) : Prop :=
  path ≠ [] ∧ sys.Leads (base sys.cwd path) (path.splitOn slash) loc

/-- `opendir` opens this directory. -/
def Opens (sys : System) (path : Str) (loc : Loc) : Prop :=
  sys.resolve sys.openLinks path = some loc ∧ sys.IsDir loc

theorem resolve_eq_some : sys.resolve links path = some loc ↔ path ≠ [] ∧ path.length < PATH_MAX ∧
    Follows sys links (base sys.cwd path) (path.splitOn slash) loc := by
  rw [resolve, ← namei_eq_some]
  split
  · rename_i h
    refine iff_of_false (by simp) ?_
    rintro ⟨hne, hlen, -⟩
    rcases h with h | h
    · exact hne h
    · lia
  · rename_i h
    rw [not_or, Nat.not_le] at h
    simp [h]

theorem names_of_resolve (h : sys.resolve links path = some loc) : sys.Names path loc := by
  obtain ⟨hne, -, hf⟩ := resolve_eq_some.1 h
  exact ⟨hne, _, hf⟩

theorem Names.unique (h : sys.Names path loc) (h' : sys.Names path loc') : loc = loc' :=
  h.2.unique h'.2

theorem isDir_base (path : Str) : sys.IsDir (base sys.cwd path) := IsDir.base sys.cwd_dir path

theorem splitOn_slash {c : Str} (hc : Proper c) :
    (path ++ slash :: c).splitOn slash = path.splitOn slash ++ [c] := by
  rw [List.splitOn_append_cons_self, List.splitOn_eq_singleton hc.1.2]

theorem base_slash (hne : path ≠ []) (c : Str) : base loc (path ++ slash :: c) = base loc path := by
  rw [base, base, List.head?_append_of_ne_nil _ hne]

/-- An entry of a directory that a path leads to: the path of the entry leads to it, or to where
it is a link to. -/
theorem follows_slash (hne : path ≠ []) (hc : Proper c) (hdir : sys.IsDir loc)
    (h : Follows sys links (base sys.cwd path) (path.splitOn slash) loc) :
    ∃ k ≤ links, ∀ {loc'}, Follows sys k loc [c] loc' →
      Follows sys links (base sys.cwd (path ++ slash :: c)) ((path ++ slash :: c).splitOn slash)
        loc' := by
  obtain ⟨k, hk, hrest⟩ := h.append hdir
  rw [base_slash hne, splitOn_slash hc]
  exact ⟨k, hk, fun hlast => hrest hlast⟩

theorem Names.slash (h : sys.Names path loc) (hdir : sys.IsDir loc) (hc : Proper c)
    (hlast : ∀ k, Follows sys k loc [c] loc') : sys.Names (path ++ FindFile.slash :: c) loc' := by
  obtain ⟨hne, links, hf⟩ := h
  obtain ⟨k, -, hrest⟩ := follows_slash hne hc hdir hf
  exact ⟨by simp, links, hrest (hlast k)⟩

theorem follows_dir {below : Entries} (hc : sys.itemAt loc c = some (.dir below)) :
    Follows sys links loc [c] (loc ++ [c]) := .down hc .nil

theorem Opens.slash {below : Entries} (h : sys.Opens path loc)
    (hc : sys.itemAt loc c = some (.dir below))
    (hlen : (path ++ FindFile.slash :: c).length < PATH_MAX) :
    sys.Opens (path ++ FindFile.slash :: c) (loc ++ [c]) := by
  obtain ⟨hres, hdir⟩ := h
  obtain ⟨hne, -, hf⟩ := resolve_eq_some.1 hres
  obtain ⟨k, -, hrest⟩ := follows_slash hne (proper_of_itemAt hc) hdir hf
  exact ⟨resolve_eq_some.2 ⟨by simp, hlen, hrest (follows_dir hc)⟩, isDir_of_itemAt hc⟩

/-- A path behind a directory: its last name is followed from there. -/
theorem leads_of_resolve_slash (h : sys.Names path loc) (hc : Proper c)
    (hres : sys.resolve links (path ++ slash :: c) = some loc') : sys.Leads loc [c] loc' := by
  obtain ⟨-, -, hf⟩ := resolve_eq_some.1 hres
  rw [base_slash h.1, splitOn_slash hc] at hf
  obtain ⟨mid, k, -, ha, -, hlast⟩ := hf.of_append (List.cons_ne_nil _ _) (isDir_base path)
  have hmid : mid = loc := Leads.unique ⟨links, ha⟩ h.2
  rw [hmid] at hlast
  exact ⟨k, hlast⟩

/-! ### `realpath` -/

theorem splitOn_joined {w : Str} {ws : List Str} (hw : slash ∉ w) (hws : ∀ v ∈ ws, slash ∉ v) :
    (w ++ joined slash ws).splitOn slash = w :: ws := by
  induction ws generalizing w with
  | nil => rw [joined, List.flatMap_nil, List.append_nil, List.splitOn_eq_singleton hw]
  | cons v ws ih =>
    rw [joined_cons, List.splitOn_append_cons_self, List.splitOn_eq_singleton hw,
      ih (hws v List.mem_cons_self) fun u hu => hws u (List.mem_cons_of_mem v hu)]
    rfl

theorem splitOn_spell {loc : Loc} (h : ∀ c ∈ loc, slash ∉ c) :
    (spell loc).splitOn slash = [] :: loc ∨ loc = [] ∧ (spell loc).splitOn slash = [[], []] := by
  cases loc with
  | nil => exact .inr ⟨rfl, by decide⟩
  | cons c loc => exact .inl (splitOn_joined (w := []) List.not_mem_nil h)

theorem base_spell (loc loc' : Loc) : base loc' (spell loc) = [] := by
  cases loc <;> rfl

/-- A canonical path names what it is the path of, with no links. -/
theorem Settled.resolve_spell (h : sys.Settled loc) (hlen : (spell loc).length < PATH_MAX) :
    sys.resolve links (spell loc) = some loc := by
  refine resolve_eq_some.2 ⟨?_, hlen, ?_⟩
  · cases loc <;> simp [spell, joined]
  · rw [base_spell]
    rcases splitOn_spell fun c hc => (h.proper hc).1.2 with hs | ⟨rfl, hs⟩
    · rw [hs]
      exact .skip (.inl rfl) h.follows
    · rw [hs]
      exact .skip (.inl rfl) (.skip (.inl rfl) .nil)

theorem realpath_eq_some {q : Str} : sys.realpath path = some q ↔
    ∃ loc, sys.resolve sys.realLinks path = some loc ∧ q = spell loc ∧
      (spell loc).length < PATH_MAX := by
  rw [realpath]
  cases sys.resolve sys.realLinks path with
  | none => simp
  | some loc =>
    simp only [Option.bind_eq_bind, Option.bind_some, Option.ite_none_right_eq_some,
      Option.some.injEq, exists_eq_left']
    tauto

theorem settled_of_resolve (h : sys.resolve links path = some loc) : sys.Settled loc :=
  (resolve_eq_some.1 h).2.2.settled (isDir_base path)

/-- Behind `realpath`, the directory that is opened is the one that the link leads to. -/
theorem opens_spell (h : sys.Settled loc) (hlen : (spell loc).length < PATH_MAX) :
    sys.Opens (spell loc) loc' ↔ loc' = loc ∧ sys.IsDir loc := by
  rw [Opens, h.resolve_spell hlen]
  constructor
  · rintro ⟨heq, hdir⟩
    cases heq
    exact ⟨rfl, hdir⟩
  · rintro ⟨rfl, hdir⟩
    exact ⟨rfl, hdir⟩

end System

end Recovery.FindFile
