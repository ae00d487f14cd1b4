import Mathlib.Data.List.Basic

/-!
# A tree of files

* `Path`, `resolve` — where a path leads to, without symbolic links.
* `Stays`, `prefix_resolve` — names that do not lead out of the directory they start in.
* `Files` — what is where; `unlink`, `store`, `mkdir`, `removeTree` change it.
* `unlink_ne`, `store_ne`, `mkdir_ne`, `removeTree_ne` — each leaves the rest as it is.

The tree has no owners, no permissions and no times.  A name that is `..` leads to the parent of the
directory it stands in, which is why a path that is joined to a directory can leave it, and `Stays`
is the condition under which it does not.
-/

set_option autoImplicit false

namespace Recovery.Lib

/-- The names of the directories on the way, and of the entry itself. -/
abbrev Path := List (List UInt8)

def resolve (path : List UInt8) : Path :=
  (path.splitOn 47).foldl (fun q name =>
    if name = [] ∨ name = [46] then q else if name = [46, 46] then q.dropLast else q ++ [name]) []

/-- The step of `resolve`. -/
def enter (q : Path) (name : List UInt8) : Path :=
  if name = [] ∨ name = [46] then q else if name = [46, 46] then q.dropLast else q ++ [name]

theorem resolve_append (p t : List UInt8) :
    resolve (p ++ 47 :: t) = (t.splitOn 47).foldl enter (resolve p) := by
  unfold resolve
  rw [List.splitOn_append_cons_self, List.foldl_append]
  rfl

/-- From a directory so far below another one, these names do not lead out of that one. -/
def Stays : Nat → List (List UInt8) → Prop
  | _, [] => True
  | depth, name :: names =>
    if name = [] ∨ name = [46] then Stays depth names
    else if name = [46, 46] then 0 < depth ∧ Stays (depth - 1) names
    else Stays (depth + 1) names

instance decidableStays : ∀ (depth : Nat) (names : List (List UInt8)), Decidable (Stays depth names)
  | _, [] => .isTrue trivial
  | depth, name :: names =>
    have := decidableStays depth names
    have := decidableStays (depth - 1) names
    have := decidableStays (depth + 1) names
    inferInstanceAs (Decidable (if name = [] ∨ name = [46] then Stays depth names
      else if name = [46, 46] then 0 < depth ∧ Stays (depth - 1) names
      else Stays (depth + 1) names))

theorem Stays.left {depth : Nat} {names names' : List (List UInt8)}
    (h : Stays depth (names ++ names')) : Stays depth names := by
  induction names generalizing depth with
  | nil => trivial
  | cons name names ih =>
    rw [List.cons_append, Stays] at h
    rw [Stays]
    split at h
    · rename_i hsame
      rw [if_pos hsame]
      exact ih h
    · rename_i hmove
      rw [if_neg hmove]
      split at h
      · rename_i hup
        rw [if_pos hup]
        exact ⟨h.1, ih h.2⟩
      · rename_i hdown
        rw [if_neg hdown]
        exact ih h

theorem Stays.below {names : List (List UInt8)} {base down : Path} (h : Stays down.length names) :
    base <+: names.foldl enter (base ++ down) := by
  induction names generalizing down with
  | nil => exact List.prefix_append base down
  | cons name names ih =>
    rw [Stays] at h
    rw [List.foldl_cons, enter]
    split at h
    · rename_i hsame
      rw [if_pos hsame]
      exact ih h
    · rename_i hmove
      rw [if_neg hmove]
      split at h
      · rename_i hup
        rw [if_pos hup]
        rw [List.dropLast_append_of_ne_nil (List.length_pos_iff.1 h.1)]
        apply ih
        simpa using h.2
      · rename_i hdown
        rw [if_neg hdown, List.append_assoc]
        apply ih
        simpa using h

/-- A name below a directory. -/
theorem prefix_resolve {p t : List UInt8} (h : Stays 0 (t.splitOn 47)) :
    resolve p <+: resolve (p ++ 47 :: t) := by
  rw [resolve_append]
  simpa using @Stays.below _ (resolve p) [] h

inductive Entry where
  | dir
  | file (content : List UInt8)
deriving DecidableEq

structure Files where
  entries : Path → Option Entry

namespace Files

variable (fs : Files)

def isFile (q : Path) : Bool :=
  match fs.entries q with
  | some (.file _) => true
  | _ => false

def set (q : Path) (entry : Option Entry) : Files :=
  ⟨fun r => if r = q then entry else fs.entries r⟩

/-- Directories are left alone. -/
def unlink (q : Path) : Files := if fs.isFile q then fs.set q none else fs

def store (q : Path) (content : List UInt8) : Files := fs.set q (some (.file content))

/-- Whether it succeeds; `allowed` is what else it depends on. -/
def mkdir (q : Path) (allowed : Bool) : Bool × Files :=
  if allowed && (fs.entries q).isNone then (true, fs.set q (some .dir)) else (false, fs)

/-- An entry with all that is below it. -/
def removeTree (q : Path) : Files := ⟨fun r => if q <+: r then none else fs.entries r⟩

variable {fs} {q r : Path}

theorem set_ne {entry : Option Entry} (h : r ≠ q) : (fs.set q entry).entries r = fs.entries r :=
  if_neg h

theorem unlink_ne (h : r ≠ q) : (fs.unlink q).entries r = fs.entries r := by
  unfold unlink
  split
  · exact set_ne h
  · rfl

theorem store_ne {content : List UInt8} (h : r ≠ q) :
    (fs.store q content).entries r = fs.entries r := set_ne h

theorem mkdir_ne {allowed : Bool} (h : r ≠ q) : (fs.mkdir q allowed).2.entries r = fs.entries r := by
  unfold mkdir
  split
  · exact set_ne h
  · rfl

/-- A new directory takes no file's place. -/
theorem mkdir_file {allowed : Bool} (h : fs.isFile r = true) :
    (fs.mkdir q allowed).2.entries r = fs.entries r := by
  by_cases hr : r = q
  · unfold mkdir
    rw [if_neg]
    rw [hr, isFile] at h
    cases hentry : fs.entries q with
    | none =>
      rw [hentry] at h
      cases h
    | some entry => simp
  · exact mkdir_ne hr

theorem removeTree_ne (h : ¬q <+: r) : (fs.removeTree q).entries r = fs.entries r := if_neg h

end Files

end Recovery.Lib
