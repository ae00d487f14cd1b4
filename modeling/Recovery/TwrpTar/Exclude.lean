import Mathlib.Data.List.TakeWhile
import Recovery.Lib.Pieces

/-!
# Exclusions as they are spelled (`exclude.cpp`, `twrp-functions.cpp`)

* `Remove_Trailing_Slashes`, `TWExclude` — as in the source; a path is the string that it is.
* `Parts` — what a path is up to the spelling of slashes: whether one is in front, and the names.
* `Remove_Trailing_Slashes_eq` — the normal form is a spelling of the parts.
* `Exclusions` — the exclusions that a `TWExclude` is given; `Excluded` — what they mean.
* `check_skip_dirs_iff` — what is skipped below a path.

For the code a path with a doubled or a trailing slash is another string; its `Parts` are what two
spellings of a path have in common.
-/

set_option autoImplicit false

namespace Recovery.TwrpTar.Exclude

open Recovery.Lib

abbrev Str := List Char

/-! ### Slashes -/

/-- The loop, at what is behind `last_idx`. -/
def removeLoop : Nat → Bool → Str → Str
  | 0, _, _ => []
  | fuel + 1, first, path =>
    let res := if first then [] else ['/']
    let behind := path.dropWhile (· ≠ '/')
    if behind = [] then res ++ path
    else
      let next := behind.dropWhile (· = '/')
      res ++ path.takeWhile (· ≠ '/') ++ if next = [] then [] else removeLoop fuel false next

def Remove_Trailing_Slashes (path : Str) (leaveLast : Bool) : Str :=
  removeLoop (path.length + 1) true path ++ if leaveLast then ['/'] else []

structure Parts where
  absolute : Bool
  names : List Str
  deriving DecidableEq

def parts (path : Str) : Parts := ⟨path.head? = some '/', pieces '/' path⟩

/-- Their shortest spelling, of the root the empty one. -/
def Parts.text : Parts → Str
  | ⟨true, names⟩ => joined '/' names
  | ⟨false, []⟩ => []
  | ⟨false, name :: names⟩ => name ++ joined '/' names

theorem removeLoop_no_slash {path : Str} (h : '/' ∉ path) (fuel : Nat) (first : Bool) :
    removeLoop (fuel + 1) first path = (if first then [] else ['/']) ++ path := by
  rw [removeLoop]
  refine if_pos (List.dropWhile_eq_nil_iff.2 fun c hc => decide_eq_true ?_)
  rintro rfl
  exact h hc

theorem removeLoop_slash {word : Str} (h : '/' ∉ word) (fuel : Nat) (first : Bool) (rest : Str) :
    removeLoop (fuel + 1) first (word ++ '/' :: rest) = (if first then [] else ['/']) ++ word ++
      if rest.dropWhile (· = '/') = [] then []
      else removeLoop fuel false (rest.dropWhile (· = '/')) := by
  rw [removeLoop, dropWhile_append_cons h, takeWhile_append_cons h,
    List.dropWhile_cons_of_pos (by simp)]
  exact if_neg (List.cons_ne_nil _ _)

theorem head?_next {path : Str} : (path.dropWhile (· = '/')).head? ≠ some '/' := by
  have h := List.head?_dropWhile_not (fun c => decide (c = '/')) path
  intro hs
  rw [hs] at h
  exact absurd h (by decide)

/-- A round of the loop: a word, and what is behind its slashes. -/
theorem removeLoop_eq {fuel : Nat} {path : Str} (hf : path.length < fuel) (hne : path ≠ [])
    (hh : path.head? ≠ some '/') : removeLoop fuel false path = joined '/' (pieces '/' path) := by
  induction fuel generalizing path with
  | zero => exact absurd hf (by lia)
  | succ fuel ih =>
    by_cases hs : '/' ∈ path
    · obtain ⟨word, rest, rfl, hw⟩ := List.eq_append_cons_of_mem hs
      have hword : IsPiece '/' word := by
        refine ⟨?_, hw⟩
        rintro rfl
        exact hh rfl
      have hnext : pieces '/' (rest.dropWhile (· = '/')) = _ := pieces_dropWhile rest
      rw [removeLoop_slash hw, pieces_append_cons, hword.pieces_eq, ← hnext]
      by_cases hnil : rest.dropWhile (· = '/') = []
      · rw [if_pos hnil, hnil, pieces_nil]
        simp [joined]
      · have hlen := (List.dropWhile_suffix (l := rest) fun c => decide (c = '/')).length_le
        rw [List.length_append, List.length_cons] at hf
        rw [if_neg hnil, ih (by lia) hnil head?_next]
        rfl
    · rw [removeLoop_no_slash hs, IsPiece.pieces_eq ⟨hne, hs⟩, joined_cons]
      simp [joined]

/-- The normal form is a spelling of the parts. -/
theorem Remove_Trailing_Slashes_eq (path : Str) :
    Remove_Trailing_Slashes path false = (parts path).text := by
  rw [Remove_Trailing_Slashes, if_neg (by decide), List.append_nil]
  by_cases hs : '/' ∈ path
  · obtain ⟨word, rest, rfl, hw⟩ := List.eq_append_cons_of_mem hs
    have hnext : pieces '/' (rest.dropWhile (· = '/')) = _ := pieces_dropWhile rest
    have htail : (if rest.dropWhile (· = '/') = [] then []
        else removeLoop (word ++ '/' :: rest).length false (rest.dropWhile (· = '/'))) =
          joined '/' (pieces '/' rest) := by
      rw [← hnext]
      split
      · rename_i hnil
        rw [hnil, pieces_nil]
        rfl
      · rename_i hnil
        have hlen := (List.dropWhile_suffix (l := rest) fun c => decide (c = '/')).length_le
        refine removeLoop_eq ?_ hnil head?_next
        rw [List.length_append, List.length_cons]
        lia
    rw [removeLoop_slash hw, htail, parts, pieces_append_cons]
    cases word with
    | nil =>
      rw [pieces_nil]
      rfl
    | cons c word =>
      have hc : c ≠ '/' := fun h => hw (h ▸ List.mem_cons_self)
      rw [IsPiece.pieces_eq ⟨List.cons_ne_nil _ _, hw⟩]
      simp [Parts.text, hc]
  · rw [removeLoop_no_slash hs, parts]
    cases path with
    | nil => rfl
    | cons c path =>
      have hc : c ≠ '/' := fun h => hs (h ▸ List.mem_cons_self)
      rw [IsPiece.pieces_eq ⟨List.cons_ne_nil _ _, hs⟩]
      simp [Parts.text, hc, joined]

/-- What has a name is spelled in one way. -/
theorem parts_text {p : Parts} (hnames : ∀ n ∈ p.names, IsPiece '/' n) (hne : p.names ≠ []) :
    parts p.text = p := by
  obtain ⟨absolute, names⟩ := p
  cases names with
  | nil => exact absurd rfl hne
  | cons n names =>
    have hn := hnames n List.mem_cons_self
    have hns := fun v hv => hnames v (List.mem_cons_of_mem _ hv)
    cases absolute with
    | true =>
      rw [parts, Parts.text, pieces_joined hnames]
      rfl
    | false =>
      rw [parts, Parts.text, pieces_append_joined hns, hn.pieces_eq]
      cases n with
      | nil => exact absurd rfl hn.1
      | cons c n =>
        have hc : c ≠ '/' := fun h => hn.2 (h ▸ List.mem_cons_self)
        simp [hc]

theorem parts_names (path : Str) : ∀ n ∈ (parts path).names, IsPiece '/' n :=
  fun _ hn => isPiece_of_mem hn

/-- Two paths have one normal form just when they differ in the spelling of slashes only. -/
theorem Remove_Trailing_Slashes_inj {a b : Str} (hb : (parts b).names ≠ []) :
    Remove_Trailing_Slashes a false = Remove_Trailing_Slashes b false ↔ parts a = parts b := by
  rw [Remove_Trailing_Slashes_eq, Remove_Trailing_Slashes_eq]
  constructor
  · intro h
    have hpb := parts_text (parts_names b) hb
    by_cases ha : (parts a).names = []
    · have hempty : (parts a).text = [] := by
        cases hp : parts a with
        | mk absolute names =>
          rw [hp] at ha
          subst ha
          cases absolute <;> rfl
      rw [← h, hempty] at hpb
      rw [← hpb] at hb
      exact absurd rfl hb
    · rw [← parts_text (parts_names a) ha, h, hpb]
  · intro h
    rw [h]

theorem names_append {n : Str} (hn : IsPiece '/' n) (path : Str) :
    (parts (path ++ '/' :: n)).names = (parts path).names ++ [n] := by
  rw [parts, pieces_append_cons, hn.pieces_eq]
  rfl

theorem parts_name {n : Str} (hn : IsPiece '/' n) : parts n = ⟨false, [n]⟩ :=
  parts_text (p := ⟨false, [n]⟩) (fun v hv => by rwa [List.mem_singleton.1 hv]) (by simp) ▸ by
    simp [Parts.text, joined]

/-- The name stays behind the last slash. -/
theorem Remove_Trailing_Slashes_append {n : Str} (hn : IsPiece '/' n) (path : Str) :
    ∃ q, Remove_Trailing_Slashes (path ++ '/' :: n) false = q ++ '/' :: n := by
  have hlast : joined '/' [n] = '/' :: n := by simp [joined]
  rw [Remove_Trailing_Slashes_eq, parts, pieces_append_cons, hn.pieces_eq]
  by_cases habs : (path ++ '/' :: n).head? = some '/'
  · rw [decide_eq_true habs]
    exact ⟨joined '/' (pieces '/' path), by rw [Parts.text, joined_append, hlast]⟩
  · rw [decide_eq_false habs]
    cases hp : pieces '/' path with
    | nil =>
      exfalso
      by_cases hs : '/' ∈ path
      · obtain ⟨word, rest, rfl, hw⟩ := List.eq_append_cons_of_mem hs
        cases word with
        | nil => exact habs rfl
        | cons c word =>
          rw [pieces_append_cons, IsPiece.pieces_eq ⟨List.cons_ne_nil _ _, hw⟩] at hp
          exact absurd hp (List.cons_ne_nil _ _)
      · cases path with
        | nil => exact habs rfl
        | cons c path =>
          rw [IsPiece.pieces_eq ⟨List.cons_ne_nil _ _, hs⟩] at hp
          exact absurd hp (List.cons_ne_nil _ _)
    | cons w ws =>
      refine ⟨w ++ joined '/' ws, ?_⟩
      rw [List.cons_append, Parts.text, joined_append, hlast, List.append_assoc]

/-! ### `exclude.cpp` -/

/-- The place of the last one. -/
def find_last_of (c : Char) : Str → Option Nat
  | [] => none
  | a :: s =>
    match find_last_of c s with
    | some i => some (i + 1)
    | none => if a = c then some 0 else none

theorem find_last_of_none {c : Char} {s : Str} (h : c ∉ s) : find_last_of c s = none := by
  induction s with
  | nil => rfl
  | cons a s ih =>
    rw [find_last_of, ih fun hs => h (List.mem_cons_of_mem _ hs)]
    refine if_neg ?_
    rintro rfl
    exact h List.mem_cons_self

theorem find_last_of_append {c : Char} {n : Str} (h : c ∉ n) (q : Str) :
    find_last_of c (q ++ c :: n) = some q.length := by
  induction q with
  | nil =>
    rw [List.nil_append, find_last_of, find_last_of_none h]
    exact if_pos rfl
  | cons a q ih =>
    rw [List.cons_append, find_last_of, ih]
    rfl

structure TWExclude where
  relativedir : List Str
  absolutedir : List Str

namespace TWExclude

def add_relative_dir (ex : TWExclude) (dir : Str) : TWExclude :=
  { ex with relativedir := ex.relativedir ++ [dir] }

def add_absolute_dir (ex : TWExclude) (dir : Str) : TWExclude :=
  { ex with absolutedir := ex.absolutedir ++ [Remove_Trailing_Slashes dir false] }

/-- `.`, `..` and `lost+found`. -/
def defaults : List Str := [['.'], ['.', '.'], ['l', 'o', 's', 't', '+', 'f', 'o', 'u', 'n', 'd']]

/-- The constructor. -/
def init : TWExclude := defaults.foldl add_relative_dir ⟨[], []⟩

variable (ex : TWExclude)

def check_relative_skip_dirs (dir : Str) : Bool := ex.relativedir.contains dir

def check_absolute_skip_dirs (path : Str) : Bool := ex.absolutedir.contains path

def check_skip_dirs (path : Str) : Bool :=
  let normalized := Remove_Trailing_Slashes path false
  let relative :=
    match find_last_of '/' normalized with
    | none => false
    | some slashIdx => slashIdx + 1 < normalized.length &&
        ex.check_relative_skip_dirs (normalized.drop (slashIdx + 1))
  relative || ex.check_absolute_skip_dirs normalized

end TWExclude

/-- What is excluded besides the defaults, as it is spelled. -/
structure Exclusions where
  relative : List Str
  absolute : List Str

namespace Exclusions

variable (x : Exclusions)

def build : TWExclude :=
  x.absolute.foldl TWExclude.add_absolute_dir
    (x.relative.foldl TWExclude.add_relative_dir TWExclude.init)

def allRelative : List Str := TWExclude.defaults ++ x.relative

/-- A path is excluded when a relative exclusion is its last name, or an absolute one is it, up to
the spelling of slashes. -/
def Excluded (path : Str) : Prop :=
  (∃ r ∈ x.allRelative, ∃ n, (parts path).names.getLast? = some n ∧ parts r = ⟨false, [n]⟩) ∨
    ∃ d ∈ x.absolute, parts d = parts path

/-- A relative exclusion is the name, but with slashes behind. -/
def Respelled (n : Str) : Prop := ∃ r ∈ x.allRelative, r ≠ n ∧ parts r = ⟨false, [n]⟩

theorem foldl_add_relative (dirs : List Str) (ex : TWExclude) :
    dirs.foldl TWExclude.add_relative_dir ex =
      { ex with relativedir := ex.relativedir ++ dirs } := by
  induction dirs generalizing ex with
  | nil => rw [List.foldl_nil, List.append_nil]
  | cons d dirs ih =>
    rw [List.foldl_cons, ih, TWExclude.add_relative_dir]
    dsimp only
    rw [List.append_assoc]
    rfl

theorem foldl_add_absolute (dirs : List Str) (ex : TWExclude) :
    dirs.foldl TWExclude.add_absolute_dir ex =
      { ex with absolutedir := ex.absolutedir ++ dirs.map (Remove_Trailing_Slashes · false) } := by
  induction dirs generalizing ex with
  | nil => rw [List.foldl_nil, List.map_nil, List.append_nil]
  | cons d dirs ih =>
    rw [List.foldl_cons, ih, TWExclude.add_absolute_dir]
    dsimp only
    rw [List.append_assoc]
    rfl

theorem build_eq : x.build =
    ⟨x.allRelative, x.absolute.map (Remove_Trailing_Slashes · false)⟩ := by
  rw [build, foldl_add_absolute, foldl_add_relative, TWExclude.init, foldl_add_relative]
  rfl

/-- What is skipped: what has the very name of a relative exclusion, or an excluded path in any
spelling. -/
theorem check_skip_dirs_iff {n : Str} (hn : IsPiece '/' n) (path : Str) :
    x.build.check_skip_dirs (path ++ '/' :: n) = true ↔
      n ∈ x.allRelative ∨ ∃ d ∈ x.absolute, parts d = parts (path ++ '/' :: n) := by
  obtain ⟨q, hq⟩ := Remove_Trailing_Slashes_append hn path
  have hnames : (parts (path ++ '/' :: n)).names ≠ [] := by
    rw [names_append hn]
    simp
  have hlen : q.length + 1 < (q ++ '/' :: n).length := by
    have := List.length_pos_of_ne_nil hn.1
    rw [List.length_append, List.length_cons]
    lia
  have hdrop : (q ++ '/' :: n).drop (q.length + 1) = n := by simp
  have habsolute : x.build.check_absolute_skip_dirs (q ++ '/' :: n) = true ↔
      ∃ d ∈ x.absolute, parts d = parts (path ++ '/' :: n) := by
    rw [TWExclude.check_absolute_skip_dirs, build_eq, List.contains_iff_mem, List.mem_map, ← hq]
    simp only [Remove_Trailing_Slashes_inj hnames]
  have hrelative : x.build.check_relative_skip_dirs n = true ↔ n ∈ x.allRelative := by
    rw [TWExclude.check_relative_skip_dirs, build_eq, List.contains_iff_mem]
  rw [TWExclude.check_skip_dirs, hq, find_last_of_append hn.2]
  dsimp only
  rw [Bool.or_eq_true, decide_eq_true hlen, Bool.true_and, hdrop, hrelative, habsolute]

/-- `readdir` gives `.` and `..`, too. -/
theorem check_skip_dirs_dots (path : Str) : x.build.check_skip_dirs (path ++ ['/', '.']) = true ∧
    x.build.check_skip_dirs (path ++ ['/', '.', '.']) = true :=
  ⟨(x.check_skip_dirs_iff ⟨by decide, by decide⟩ path).2
      (.inl (List.mem_append_left _ (by decide))),
    (x.check_skip_dirs_iff ⟨by decide, by decide⟩ path).2
      (.inl (List.mem_append_left _ (by decide)))⟩

theorem excluded_iff {n : Str} (hn : IsPiece '/' n) (path : Str) :
    x.Excluded (path ++ '/' :: n) ↔
      x.build.check_skip_dirs (path ++ '/' :: n) = true ∨ x.Respelled n := by
  have hlast : (parts (path ++ '/' :: n)).names.getLast? = some n := by
    rw [names_append hn, List.getLast?_append]
    rfl
  rw [check_skip_dirs_iff x hn, Excluded, Respelled, hlast]
  constructor
  · rintro (⟨r, hr, m, hm, hp⟩ | h)
    · obtain rfl : n = m := Option.some.inj hm
      by_cases hrn : r = n
      · exact .inl (.inl (hrn ▸ hr))
      · exact .inr ⟨r, hr, hrn, hp⟩
    · exact .inl (.inr h)
  · rintro ((h | h) | ⟨r, hr, -, hp⟩)
    · exact .inl ⟨n, h, n, rfl, parts_name hn⟩
    · exact .inr h
    · exact .inl ⟨r, hr, n, rfl, hp⟩

end Exclusions

end Recovery.TwrpTar.Exclude
