import Mathlib.Data.List.Nodup
import Mathlib.Data.List.Perm.Subperm
import Recovery.Gui.InputHandler
import Recovery.Lib.GridLine

/-!
# The pattern of a password (`gui/patternpassword.cpp`)

* `InDot`, `DotUsed`, `ConnectDot`, `ConnectIntermediateDots` — how dots are connected.
* `NotifyTouch`, `Resize`, `SetRenderPos` — events; `run` is a sequence of them.
* `crossed`, `connect`, `pattern` — the pattern of dots that are touched one after the other.
* `connectIntermediateDots_eq` — the walk between two dots ends, and visits what is crossed.
* `Inv`, `step_inv`, `run_inv` — the invariant, over runs.
* `Crosses` — two dots that are touched one after the other; `run_pattern` — over runs.
* `used_dot_skipped` — a touch of a dot that is used.

`none` is an access outside of the arrays, or a walk that does not end.
-/

set_option autoImplicit false

namespace Recovery.Gui

open Recovery.Lib

structure Dot where
  x : Int
  y : Int
  active : Bool

structure GUIPatternPassword where
  mGridSize : Nat
  mDots : List Dot
  /-- The first `mConnectedDotsLen` of them. -/
  mConnectedDots : List Int
  mTrackingTouch : Bool
  mCurLineX : Int
  mCurLineY : Int
  mDotRadius : Int
  mRenderX : Int
  mRenderY : Int
  mRenderW : Int
  mRenderH : Int

namespace GUIPatternPassword

variable (s : GUIPatternPassword)

def ResetActiveDots : GUIPatternPassword :=
  { s with
    mConnectedDots := []
    mCurLineX := -1
    mCurLineY := -1
    mDots := s.mDots.map fun dot => { dot with active := false } }

def CalculateDotPositions : GUIPatternPassword :=
  let num_gaps : Int := s.mGridSize - 1
  let step_x := (s.mRenderW - s.mDotRadius * 2).tdiv num_gaps
  let step_y := (s.mRenderH - s.mDotRadius * 2).tdiv num_gaps
  { s with
    mDots := s.mDots.mapIdx fun i dot =>
      { dot with
        x := s.mRenderX + (i % s.mGridSize : Nat) * step_x
        y := s.mRenderY + (i / s.mGridSize : Nat) * step_y } }

def SetRenderPos (x y w h : Int) : GUIPatternPassword :=
  let s := { s with mRenderX := x, mRenderY := y }
  if w ≠ 0 ∨ h ≠ 0 then { s with mRenderW := w, mRenderH := h }.CalculateDotPositions
  else s.CalculateDotPositions

def Resize (n : Nat) : GUIPatternPassword :=
  if s.mGridSize = n then s
  else
    let s := { s with mGridSize := n, mDots := List.replicate (n * n) ⟨0, 0, false⟩ }
    { s.ResetActiveDots.CalculateDotPositions with mTrackingTouch := false }

def IsInCircle (x y ox oy r : Int) : Bool := (x - ox) ^ 2 + (y - oy) ^ 2 ≤ r ^ 2

/-- -1 if there is none. -/
def InDot (x y : Int) : Int :=
  match s.mDots.findIdx? fun dot =>
      IsInCircle x y (dot.x + s.mDotRadius) (dot.y + s.mDotRadius) (s.mDotRadius * 3) with
  | some i => i
  | none => -1

def DotUsed (dot_idx : Int) : Bool := s.mConnectedDots.contains dot_idx

def ConnectDot (dot_idx : Int) : Option GUIPatternPassword :=
  -- "mConnectedDots in GUIPatternPassword has overflown!"
  if s.mGridSize * s.mGridSize ≤ s.mConnectedDots.length then some s
  else if 0 ≤ dot_idx ∧ dot_idx < s.mDots.length then
    some { s with
      mConnectedDots := s.mConnectedDots ++ [dot_idx]
      mDots := s.mDots.modify dot_idx.toNat fun dot => { dot with active := true } }
  else none

/-- The loop of `ConnectIntermediateDots`. -/
def connectLoop (nx ny Dx Dy : Int) : Nat → Int → Int → GUIPatternPassword →
    Option GUIPatternPassword
  | 0, _, _, _ => none
  | fuel + 1, x, y, s =>
    if (Dy = 0 ∨ y ≠ ny - Dy) ∧ (Dx = 0 ∨ x ≠ nx - Dx) then
      let x := x + Dx
      let y := y + Dy
      let idx := s.mGridSize * y + x
      (if s.DotUsed idx then some s else s.ConnectDot idx).bind (connectLoop nx ny Dx Dy fuel x y)
    else some s

def ConnectIntermediateDots (next_dot_idx : Int) : Option GUIPatternPassword :=
  match s.mConnectedDots.getLast? with
  | none => some s
  | some prev_dot_idx =>
    let px := prev_dot_idx % s.mGridSize
    let py := prev_dot_idx / s.mGridSize
    let nx := next_dot_idx % s.mGridSize
    let ny := next_dot_idx / s.mGridSize
    let Dx := if nx > px then 1 else -1
    let Dy := if ny > py then 1 else -1
    if px = nx then connectLoop nx ny 0 Dy s.mGridSize px py s
    else if py = ny then connectLoop nx ny Dx 0 s.mGridSize px py s
    else if (px - nx).natAbs = (py - ny).natAbs then connectLoop nx ny Dx Dy s.mGridSize px py s
    else some s

def NotifyTouch (state : TouchState) (x y : Int) : Option GUIPatternPassword :=
  match state with
  | .start =>
    let dot_idx := s.InDot x y
    if dot_idx = -1 then some s
    else
      let s := { s with mTrackingTouch := true }
      (s.ResetActiveDots.ConnectDot dot_idx).map fun s =>
        { s with mCurLineX := x, mCurLineY := y }
  | .drag =>
    if !s.mTrackingTouch then some s
    else
      let dot_idx := s.InDot x y
      (if dot_idx ≠ -1 ∧ !s.DotUsed dot_idx then
        (s.ConnectIntermediateDots dot_idx).bind fun s => s.ConnectDot dot_idx
      else some s).map fun s => { s with mCurLineX := x, mCurLineY := y }
  | .release =>
    if !s.mTrackingTouch then some s
    else
      let s := { s with mTrackingTouch := false }
      some s.ResetActiveDots
  | .hold | .repeat => some s

end GUIPatternPassword

/-- What can happen to the pattern; sizes are not smaller than 2. -/
inductive PatternEvent where
  /-- With whether `isConditionTrue`. -/
  | touch (visible : Bool) (state : TouchState) (x y : Int)
  | resize (n : Nat) (h : 2 ≤ n)
  | setRenderPos (x y w h : Int)

namespace GUIPatternPassword

def step (s : GUIPatternPassword) : PatternEvent → Option GUIPatternPassword
  | .touch visible state x y => if visible then s.NotifyTouch state x y else some s
  | .resize n _ => some (s.Resize n)
  | .setRenderPos x y w h => some (s.SetRenderPos x y w h)

/-- The constructor, with dots at any places. -/
def new (n : Nat) (place : Nat → Int × Int) (mDotRadius : Int) : GUIPatternPassword where
  mGridSize := n
  mDots := (List.range (n * n)).map fun i => ⟨(place i).1, (place i).2, false⟩
  mConnectedDots := []
  mTrackingTouch := false
  mCurLineX := -1
  mCurLineY := -1
  mDotRadius := mDotRadius
  mRenderX := 0
  mRenderY := 0
  mRenderW := 0
  mRenderH := 0

end GUIPatternPassword

/-! ## Patterns -/

def cell (n : Nat) (d : Int) : Point := (d % n, d / n)

def dotIndex (n : Nat) (p : Point) : Int := n * p.2 + p.1

/-- The dots on the way between two dots that lie in one row, column or diagonal. -/
def crossed (n : Nat) (p q : Int) : List Int :=
  if Point.Aligned (cell n p) (cell n q) then (Point.inside (cell n p) (cell n q)).map (dotIndex n)
  else []

/-- Another dot is touched. -/
def connect (n : Nat) (dots : List Int) (q : Int) : List Int :=
  match dots.getLast? with
  | none => [q]
  | some p => dots ++ (crossed n p q).filter (· ∉ dots) ++ [q]

/-- These dots are touched, one after the other. -/
def pattern (n : Nat) (touched : List Int) : List Int := touched.foldl (connect n) []

/-- A dot of the grid. -/
def OnGrid (n : Nat) (d : Int) : Prop := 0 ≤ d ∧ d < n * n

section

variable {n : Nat} {d p q : Int}

theorem OnGrid.cell (h : OnGrid n d) :
    0 ≤ (cell n d).1 ∧ (cell n d).1 < n ∧ 0 ≤ (cell n d).2 ∧ (cell n d).2 < n := by
  obtain ⟨hpos, hlt⟩ := h
  have hn : (0 : Int) < n := by
    rcases Nat.eq_zero_or_pos n with rfl | hn
    · simp at hlt
      omega
    · exact_mod_cast hn
  exact ⟨Int.emod_nonneg d hn.ne', Int.emod_lt_of_pos d hn, Int.ediv_nonneg hpos hn.le,
    Int.ediv_lt_of_lt_mul hn hlt⟩

theorem dotIndex_cell : dotIndex n (cell n d) = d := Int.mul_ediv_add_emod d n

theorem cell_dotIndex {r : Point} (h : 0 ≤ r.1) (h' : r.1 < n) : cell n (dotIndex n r) = r := by
  have hn : (n : Int) ≠ 0 := by lia
  unfold cell dotIndex
  ext
  · rw [Int.mul_add_emod_self_left, Int.emod_eq_of_lt h h']
  · rw [Int.mul_add_ediv_left _ _ hn, Int.ediv_eq_zero_of_lt h h', Int.add_zero]

theorem onGrid_dotIndex {r : Point} (h₁ : 0 ≤ r.1) (h₁' : r.1 < n) (h₂ : 0 ≤ r.2) (h₂' : r.2 < n) :
    OnGrid n (dotIndex n r) := by
  have hn : (0 : Int) ≤ n := by lia
  have hrow := Int.mul_nonneg hn h₂
  have hnext := Int.mul_le_mul_of_nonneg_left (show r.2 + 1 ≤ n by lia) hn
  rw [Int.mul_add, Int.mul_one] at hnext
  unfold OnGrid dotIndex
  lia

/-- The cells between two cells of the grid. -/
theorem cell_of_between {r : Point} (hp : OnGrid n p) (hq : OnGrid n q)
    (h : Point.Between (cell n p) (cell n q) r) :
    0 ≤ r.1 ∧ r.1 < n ∧ 0 ≤ r.2 ∧ r.2 < n := by
  have := hp.cell
  have := hq.cell
  have := h.column
  have := h.row
  lia

/-- What is crossed is on the grid, and it is all that is between both dots. -/
theorem mem_crossed (hp : OnGrid n p) (hq : OnGrid n q) :
    d ∈ crossed n p q ↔ Point.Aligned (cell n p) (cell n q) ∧ OnGrid n d ∧
      Point.Between (cell n p) (cell n q) (cell n d) := by
  unfold crossed
  by_cases h : Point.Aligned (cell n p) (cell n q)
  · rw [if_pos h, List.mem_map]
    constructor
    · rintro ⟨r, hr, rfl⟩
      have hbetween := (Point.mem_inside h).1 hr
      obtain ⟨h₁, h₁', h₂, h₂'⟩ := cell_of_between hp hq hbetween
      rw [cell_dotIndex h₁ h₁']
      exact ⟨h, onGrid_dotIndex h₁ h₁' h₂ h₂', hbetween⟩
    · rintro ⟨-, -, hbetween⟩
      exact ⟨cell n d, (Point.mem_inside h).2 hbetween, dotIndex_cell⟩
  · rw [if_neg h]
    exact ⟨nofun, fun hd => absurd hd.1 h⟩

theorem nodup_crossed (hp : OnGrid n p) (hq : OnGrid n q) : (crossed n p q).Nodup := by
  unfold crossed
  split
  · rename_i h
    refine List.Nodup.map_on (fun r hr r' hr' heq => ?_) Point.inside_nodup
    obtain ⟨h₁, h₁', -, -⟩ := cell_of_between hp hq (h.between hr)
    obtain ⟨h₂, h₂', -, -⟩ := cell_of_between hp hq (h.between hr')
    rw [← cell_dotIndex h₁ h₁', heq, cell_dotIndex h₂ h₂']
  · exact List.nodup_nil

/-- Dots without a repetition are not more than there are on the grid. -/
theorem length_le_of_nodup {dots : List Int} (h : dots.Nodup) (hgrid : ∀ d ∈ dots, OnGrid n d) :
    dots.length ≤ n * n := by
  have hsub : dots ⊆ (List.range (n * n)).map Nat.cast := by
    intro d hd
    obtain ⟨hpos, hlt⟩ := hgrid d hd
    refine List.mem_map.2 ⟨d.toNat, List.mem_range.2 ?_, Int.toNat_of_nonneg hpos⟩
    have hcast : ((n * n : Nat) : Int) = n * n := Nat.cast_mul n n
    omega
  simpa using (List.subperm_of_subset h hsub).length_le

end

/-! ## The invariant -/

namespace GUIPatternPassword

variable {s s' : GUIPatternPassword}

structure Inv (s : GUIPatternPassword) : Prop where
  two : 2 ≤ s.mGridSize
  dots : s.mDots.length = s.mGridSize * s.mGridSize
  nodup : s.mConnectedDots.Nodup
  grid : ∀ d ∈ s.mConnectedDots, OnGrid s.mGridSize d
  tracking : s.mTrackingTouch = true → s.mConnectedDots ≠ []

/-- Nothing but the connected dots changes. -/
structure Connects (s : GUIPatternPassword) (dots : List Int) (s' : GUIPatternPassword) : Prop where
  dots : s'.mConnectedDots = dots
  size : s'.mGridSize = s.mGridSize
  tracking : s'.mTrackingTouch = s.mTrackingTouch
  inv : Inv s'

theorem connectDot_spec (hs : Inv s) {d : Int} (hd : OnGrid s.mGridSize d)
    (hunused : d ∉ s.mConnectedDots) :
    ∃ s', s.ConnectDot d = some s' ∧ s.Connects (s.mConnectedDots ++ [d]) s' := by
  have hnodup : (s.mConnectedDots ++ [d]).Nodup := by
    rw [← List.concat_eq_append]
    exact List.Nodup.concat hunused hs.nodup
  have hgrid : ∀ e ∈ s.mConnectedDots ++ [d], OnGrid s.mGridSize e := by
    intro e he
    rcases List.mem_append.1 he with he | he
    · exact hs.grid e he
    · rwa [List.mem_singleton.1 he]
  have hlen := length_le_of_nodup hnodup hgrid
  rw [List.length_append, List.length_singleton] at hlen
  have hcell : 0 ≤ d ∧ d < s.mDots.length := by
    rw [hs.dots, Nat.cast_mul]
    exact hd
  unfold ConnectDot
  rw [if_neg (by omega), if_pos hcell]
  refine ⟨_, rfl, rfl, rfl, rfl, hs.two, ?_, hnodup, hgrid, fun _ => by simp⟩
  rw [List.length_modify]
  exact hs.dots

/-- The loop of `ConnectIntermediateDots`, over the dots that it visits. -/
def connectUnused (s : GUIPatternPassword) : List Int → Option GUIPatternPassword
  | [] => some s
  | d :: ds => (if s.DotUsed d then some s else s.ConnectDot d).bind (connectUnused · ds)

theorem connectUnused_spec (hs : Inv s) {ds : List Int} (hds : ds.Nodup)
    (hgrid : ∀ d ∈ ds, OnGrid s.mGridSize d) :
    ∃ s', s.connectUnused ds = some s' ∧
      s.Connects (s.mConnectedDots ++ ds.filter (· ∉ s.mConnectedDots)) s' := by
  induction ds generalizing s with
  | nil => exact ⟨s, rfl, (List.append_nil _).symm, rfl, rfl, hs⟩
  | cons d ds ih =>
    obtain ⟨hnew, hds⟩ := List.nodup_cons.1 hds
    rw [connectUnused]
    by_cases hused : d ∈ s.mConnectedDots
    · have htest : s.DotUsed d = true := List.contains_iff_mem.2 hused
      rw [if_pos htest, Option.bind_some, List.filter_cons_of_neg (by simpa using hused)]
      exact ih hs hds fun e he => hgrid e (List.mem_cons_of_mem _ he)
    · have htest : ¬ s.DotUsed d = true := fun h => hused (List.contains_iff_mem.1 h)
      obtain ⟨s₁, hconnect, h₁⟩ := connectDot_spec hs (hgrid d List.mem_cons_self) hused
      have hgrid₁ : ∀ e ∈ ds, OnGrid s₁.mGridSize e := by
        rw [h₁.size]
        exact fun e he => hgrid e (List.mem_cons_of_mem _ he)
      obtain ⟨s', hrest, h'⟩ := ih h₁.inv hds hgrid₁
      have hfilter : ds.filter (· ∉ s₁.mConnectedDots) = ds.filter (· ∉ s.mConnectedDots) := by
        refine List.filter_congr fun e he => ?_
        have hne : e ≠ d := fun heq => hnew (heq ▸ he)
        simp [h₁.dots, hne]
      rw [if_neg htest, hconnect, Option.bind_some, List.filter_cons_of_pos (by simpa using hused)]
      refine ⟨s', hrest, ?_, h'.size.trans h₁.size, h'.tracking.trans h₁.tracking, h'.inv⟩
      rw [h'.dots, hfilter, h₁.dots, List.append_assoc, List.singleton_append]

theorem size_of_visit {d : Int}
    (h : (if s.DotUsed d then some s else s.ConnectDot d) = some s') :
    s'.mGridSize = s.mGridSize := by
  unfold ConnectDot at h
  split at h
  · cases h
    rfl
  · split at h
    · cases h
      rfl
    · split at h
      · cases h
        rfl
      · cases h

/-- The loop, `k` moves away from the first dot. -/
theorem connectLoop_eq {p q : Point} (h : Point.Aligned p q) {m k fuel : Nat}
    (hm : k + 1 + m = Point.dist p q) (hfuel : m < fuel) (s : GUIPatternPassword) :
    connectLoop q.1 q.2 (Point.direction p.1 q.1) (Point.direction p.2 q.2) fuel
        (Point.towards p q k).1 (Point.towards p q k).2 s =
      s.connectUnused ((List.range' (k + 1) m).map
        fun i => dotIndex s.mGridSize (Point.towards p q i)) := by
  induction m generalizing k fuel s with
  | zero =>
    obtain ⟨fuel, rfl⟩ := Nat.exists_eq_add_of_lt hfuel
    have hlast : ¬ k + 1 < Point.dist p q := by lia
    rw [Nat.zero_add, connectLoop, if_neg]
    · rfl
    · rwa [h.last_iff (by lia)]
  | succ m ih =>
    obtain ⟨fuel, rfl⟩ := Nat.exists_eq_add_of_lt (Nat.zero_lt_of_lt hfuel)
    have hnext : k + 1 < Point.dist p q := by lia
    have hx : (Point.towards p q k).1 + Point.direction p.1 q.1 = (Point.towards p q (k + 1)).1 := by
      simp only [Point.towards, Nat.cast_add, Nat.cast_one, Int.add_mul, Int.one_mul, Int.add_assoc]
    have hy : (Point.towards p q k).2 + Point.direction p.2 q.2 = (Point.towards p q (k + 1)).2 := by
      simp only [Point.towards, Nat.cast_add, Nat.cast_one, Int.add_mul, Int.one_mul, Int.add_assoc]
    rw [Nat.zero_add, connectLoop, if_pos ((h.last_iff (by lia)).2 hnext)]
    simp only [hx, hy]
    rw [List.range'_succ, List.map_cons, connectUnused]
    refine Option.bind_congr fun s₁ hs₁ => ?_
    rw [ih (by lia) (by lia) s₁, size_of_visit hs₁]

variable {p q : Int}

/-- The walk ends, and it visits what is crossed and nothing else. -/
theorem connectIntermediateDots_eq (hlast : s.mConnectedDots.getLast? = some p)
    (hp : OnGrid s.mGridSize p) (hq : OnGrid s.mGridSize q) (hne : p ≠ q) :
    s.ConnectIntermediateDots q = s.connectUnused (crossed s.mGridSize p q) := by
  have hcells : cell s.mGridSize p ≠ cell s.mGridSize q := fun heq =>
    hne (by rw [← dotIndex_cell (n := s.mGridSize) (d := p), heq, dotIndex_cell])
  have hdiff : ¬ ((cell s.mGridSize p).1 = (cell s.mGridSize q).1 ∧
      (cell s.mGridSize p).2 = (cell s.mGridSize q).2) := fun h => hcells (Prod.ext h.1 h.2)
  have hfuel : Point.dist (cell s.mGridSize p) (cell s.mGridSize q) - 1 < s.mGridSize := by
    have := hp.cell
    have := hq.cell
    unfold Point.dist
    lia
  have hloop (h : Point.Aligned (cell s.mGridSize p) (cell s.mGridSize q)) :
      connectLoop (cell s.mGridSize q).1 (cell s.mGridSize q).2
        (Point.direction (cell s.mGridSize p).1 (cell s.mGridSize q).1)
        (Point.direction (cell s.mGridSize p).2 (cell s.mGridSize q).2) s.mGridSize
        (cell s.mGridSize p).1 (cell s.mGridSize p).2 s =
      s.connectUnused (crossed s.mGridSize p q) := by
    have hdist : 0 + 1 + (Point.dist (cell s.mGridSize p) (cell s.mGridSize q) - 1) =
        Point.dist (cell s.mGridSize p) (cell s.mGridSize q) := by
      unfold Point.dist
      lia
    have heq := connectLoop_eq h hdist hfuel s
    rw [Point.towards_zero] at heq
    rw [heq, crossed, if_pos h, Point.inside, List.map_map]
    rfl
  unfold ConnectIntermediateDots
  rw [hlast]
  change (if (cell s.mGridSize p).1 = (cell s.mGridSize q).1 then _
    else if (cell s.mGridSize p).2 = (cell s.mGridSize q).2 then _
    else if ((cell s.mGridSize p).1 - (cell s.mGridSize q).1).natAbs =
      ((cell s.mGridSize p).2 - (cell s.mGridSize q).2).natAbs then _ else _) = _
  by_cases hx : (cell s.mGridSize p).1 = (cell s.mGridSize q).1
  · have hy := fun heq => hdiff ⟨hx, heq⟩
    rw [if_pos hx, ← hloop (.inl hx), Point.direction_of_eq hx, Point.direction_of_ne hy]
    rfl
  · rw [if_neg hx]
    by_cases hy : (cell s.mGridSize p).2 = (cell s.mGridSize q).2
    · rw [if_pos hy, ← hloop (.inr (.inl hy)), Point.direction_of_eq hy,
        Point.direction_of_ne hx]
      rfl
    · rw [if_neg hy]
      by_cases hd : ((cell s.mGridSize p).1 - (cell s.mGridSize q).1).natAbs =
          ((cell s.mGridSize p).2 - (cell s.mGridSize q).2).natAbs
      · rw [if_pos hd, ← hloop (.inr (.inr (by lia))), Point.direction_of_ne hx,
          Point.direction_of_ne hy]
        rfl
      · rw [if_neg hd, crossed, if_neg]
        · rfl
        · unfold Point.Aligned
          lia

theorem not_mem_crossed (hp : OnGrid s.mGridSize p) (hq : OnGrid s.mGridSize q) :
    q ∉ crossed s.mGridSize p q := fun h => ((mem_crossed hp hq).1 h).2.2.ne_right rfl

/-- A dot is touched that is not used. -/
theorem touch_spec (hs : Inv s) {q : Int} (hq : OnGrid s.mGridSize q)
    (hne : s.mConnectedDots ≠ []) (hunused : q ∉ s.mConnectedDots) :
    ∃ s', (s.ConnectIntermediateDots q).bind (fun s => s.ConnectDot q) = some s' ∧
      s.Connects (connect s.mGridSize s.mConnectedDots q) s' := by
  have hlast := List.getLast?_eq_some_getLast hne
  have hmem := List.getLast_mem hne
  generalize s.mConnectedDots.getLast hne = p at hlast hmem
  have hp := hs.grid p hmem
  have hpq : p ≠ q := fun heq => hunused (heq ▸ hmem)
  obtain ⟨s₁, hwalk, h₁⟩ := connectUnused_spec hs (nodup_crossed hp hq)
    fun d hd => ((mem_crossed hp hq).1 hd).2.1
  have hq₁ : q ∉ s₁.mConnectedDots := by
    rw [h₁.dots, List.mem_append, not_or]
    exact ⟨hunused, fun h => not_mem_crossed hp hq (List.mem_of_mem_filter h)⟩
  obtain ⟨s', hconnect, h'⟩ := connectDot_spec h₁.inv (h₁.size.symm ▸ hq) hq₁
  refine ⟨s', ?_, ?_, h'.size.trans h₁.size, h'.tracking.trans h₁.tracking, h'.inv⟩
  · rw [connectIntermediateDots_eq hlast hp hq hpq, hwalk, Option.bind_some, hconnect]
  · rw [h'.dots, h₁.dots, connect, hlast]

/-! ## Events -/

theorem inv_resetActiveDots (hs : Inv s) (h : s.mTrackingTouch = false) : Inv s.ResetActiveDots :=
  ⟨hs.two, by rw [ResetActiveDots, List.length_map]; exact hs.dots, List.nodup_nil, nofun,
    fun ht => absurd (h.symm.trans ht) Bool.false_ne_true⟩

theorem inDot_spec (hs : Inv s) (x y : Int) : s.InDot x y = -1 ∨ OnGrid s.mGridSize (s.InDot x y) := by
  unfold InDot
  split
  · rename_i i hfind
    have hlt : i < s.mDots.length := (List.findIdx?_eq_some_iff_getElem.1 hfind).1
    rw [hs.dots] at hlt
    have hcast : ((s.mGridSize * s.mGridSize : Nat) : Int) = s.mGridSize * s.mGridSize :=
      Nat.cast_mul _ _
    exact .inr ⟨Int.natCast_nonneg i, by omega⟩
  · exact .inl rfl

/-- The first dot of a gesture. -/
theorem start_spec (hs : Inv s) {x y : Int} (h : s.InDot x y ≠ -1) :
    ∃ s', s.NotifyTouch .start x y = some s' ∧ Inv s' ∧ s'.mGridSize = s.mGridSize ∧
      s'.mConnectedDots = [s.InDot x y] := by
  have hgrid := (inDot_spec hs x y).resolve_left h
  have hroom : ¬ s.mGridSize * s.mGridSize ≤ 0 :=
    Nat.not_le.2 (Nat.mul_pos (Nat.zero_lt_of_lt hs.two) (Nat.zero_lt_of_lt hs.two))
  have hcell : 0 ≤ s.InDot x y ∧ s.InDot x y < s.mDots.length := by
    rw [hs.dots, Nat.cast_mul]
    exact hgrid
  simp only [NotifyTouch, if_neg h, ResetActiveDots, ConnectDot, List.length_nil, if_neg hroom,
    List.length_map, if_pos hcell, List.nil_append, Option.map_some]
  refine ⟨_, rfl, ⟨hs.two, ?_, List.nodup_singleton _, ?_, fun _ => List.cons_ne_nil _ _⟩, rfl, rfl⟩
  · rw [List.length_modify, List.length_map]
    exact hs.dots
  · intro d hd
    rw [List.mem_singleton.1 hd]
    exact hgrid

theorem drag_spec (hs : Inv s) {x y : Int} (ht : s.mTrackingTouch = true) (h : s.InDot x y ≠ -1)
    (hunused : s.InDot x y ∉ s.mConnectedDots) :
    ∃ s', s.NotifyTouch .drag x y = some s' ∧ Inv s' ∧ s'.mGridSize = s.mGridSize ∧
      s'.mConnectedDots = connect s.mGridSize s.mConnectedDots (s.InDot x y) := by
  have hgrid := (inDot_spec hs x y).resolve_left h
  obtain ⟨s₁, htouch, h₁⟩ := touch_spec hs hgrid (hs.tracking ht) hunused
  have hfree : s.InDot x y ≠ -1 ∧ (!s.DotUsed (s.InDot x y)) = true := by
    refine ⟨h, ?_⟩
    rw [Bool.not_eq_true', DotUsed]
    simpa using hunused
  refine ⟨{ s₁ with mCurLineX := x, mCurLineY := y }, ?_, ?_, h₁.size, h₁.dots⟩
  · simp only [NotifyTouch, ht, Bool.not_true, Bool.false_eq_true, if_false, if_pos hfree, htouch,
      Option.map_some]
  · exact ⟨h₁.inv.two, h₁.inv.dots, h₁.inv.nodup, h₁.inv.grid, h₁.inv.tracking⟩

/-- The dots that were touched when they were not used, since the gesture has begun. -/
def touchedAfter (s : GUIPatternPassword) (touched : List Int) : PatternEvent → List Int
  | .touch visible state x y =>
    if !visible then touched
    else
      match state with
      | .start => if s.InDot x y = -1 then touched else [s.InDot x y]
      | .drag =>
        if s.mTrackingTouch ∧ s.InDot x y ≠ -1 ∧ !s.DotUsed (s.InDot x y) then
          touched ++ [s.InDot x y]
        else touched
      | .release => if s.mTrackingTouch then [] else touched
      | .hold | .repeat => touched
  | .resize n _ => if s.mGridSize = n then touched else []
  | .setRenderPos .. => touched

theorem inv_calculateDotPositions (hs : Inv s) : Inv s.CalculateDotPositions :=
  ⟨hs.two, List.length_mapIdx.trans hs.dots, hs.nodup, hs.grid, hs.tracking⟩

theorem touch_inv (hs : Inv s) {touched : List Int}
    (hpattern : s.mConnectedDots = pattern s.mGridSize touched) (state : TouchState) (x y : Int) :
    ∃ s', s.NotifyTouch state x y = some s' ∧ Inv s' ∧
      s'.mConnectedDots =
        pattern s'.mGridSize (s.touchedAfter touched (.touch true state x y)) := by
  simp only [touchedAfter, Bool.not_true, Bool.false_eq_true, if_false]
  cases state with
  | start =>
    by_cases hnone : s.InDot x y = -1
    · exact ⟨s, if_pos hnone, hs, by rw [if_pos hnone]; exact hpattern⟩
    · obtain ⟨s', hstart, hs', -, hdots⟩ := start_spec hs hnone
      exact ⟨s', hstart, hs', by rw [if_neg hnone]; exact hdots⟩
  | drag =>
    dsimp only
    by_cases hfresh : s.mTrackingTouch = true ∧ s.InDot x y ≠ -1 ∧ !s.DotUsed (s.InDot x y)
    · rw [if_pos hfresh]
      obtain ⟨ht, hsome, hunused⟩ := hfresh
      have hfree : s.InDot x y ∉ s.mConnectedDots := by
        rw [Bool.not_eq_true', DotUsed] at hunused
        simpa using hunused
      obtain ⟨s', hdrag, hs', hsize, hdots⟩ := drag_spec hs ht hsome hfree
      refine ⟨s', hdrag, hs', ?_⟩
      rw [hsize, hdots, hpattern, pattern, pattern, List.foldl_append]
      rfl
    · rw [if_neg hfresh]
      by_cases ht : s.mTrackingTouch = true
      · have hused : ¬ (s.InDot x y ≠ -1 ∧ (!s.DotUsed (s.InDot x y)) = true) :=
          fun h => hfresh ⟨ht, h⟩
        refine ⟨{ s with mCurLineX := x, mCurLineY := y }, ?_, ?_, hpattern⟩
        · simp only [NotifyTouch, ht, Bool.not_true, Bool.false_eq_true, if_false, if_neg hused,
            Option.map_some]
        · exact ⟨hs.two, hs.dots, hs.nodup, hs.grid, hs.tracking⟩
      · refine ⟨s, ?_, hs, hpattern⟩
        simp only [NotifyTouch, ht, Bool.not_false, if_true]
  | release =>
    dsimp only
    by_cases ht : s.mTrackingTouch = true
    · rw [if_pos ht]
      refine ⟨{ s with mTrackingTouch := false }.ResetActiveDots, ?_, ?_, rfl⟩
      · simp only [NotifyTouch, ht, Bool.not_true, Bool.false_eq_true, if_false]
      · have hoff : Inv { s with mTrackingTouch := false } :=
          ⟨hs.two, hs.dots, hs.nodup, hs.grid, nofun⟩
        exact inv_resetActiveDots hoff rfl
    · rw [if_neg ht]
      refine ⟨s, ?_, hs, hpattern⟩
      simp only [NotifyTouch, ht, Bool.not_false, if_true]
  | hold => exact ⟨s, rfl, hs, hpattern⟩
  | «repeat» => exact ⟨s, rfl, hs, hpattern⟩

theorem step_inv (hs : Inv s) {touched : List Int}
    (hpattern : s.mConnectedDots = pattern s.mGridSize touched) (e : PatternEvent) :
    ∃ s', s.step e = some s' ∧ Inv s' ∧
      s'.mConnectedDots = pattern s'.mGridSize (s.touchedAfter touched e) := by
  cases e with
  | touch visible state x y =>
    cases visible with
    | false => exact ⟨s, rfl, hs, hpattern⟩
    | true => exact touch_inv hs hpattern state x y
  | resize n hn =>
    refine ⟨s.Resize n, rfl, ?_⟩
    unfold Resize
    simp only [touchedAfter]
    by_cases hsame : s.mGridSize = n
    · rw [if_pos hsame, if_pos hsame]
      exact ⟨hs, hpattern⟩
    · rw [if_neg hsame, if_neg hsame]
      refine ⟨⟨hn, ?_, List.nodup_nil, nofun, nofun⟩, rfl⟩
      simp [ResetActiveDots, CalculateDotPositions]
  | setRenderPos x y w h =>
    refine ⟨s.SetRenderPos x y w h, rfl, ?_⟩
    unfold SetRenderPos
    dsimp only
    split
    · exact ⟨inv_calculateDotPositions ⟨hs.two, hs.dots, hs.nodup, hs.grid, hs.tracking⟩, hpattern⟩
    · exact ⟨inv_calculateDotPositions ⟨hs.two, hs.dots, hs.nodup, hs.grid, hs.tracking⟩, hpattern⟩

/-! ## Runs -/

/-- With the dots that were touched. -/
def run : List PatternEvent → GUIPatternPassword → List Int →
    Option (GUIPatternPassword × List Int)
  | [], s, touched => some (s, touched)
  | e :: es, s, touched => (s.step e).bind fun s' => run es s' (s.touchedAfter touched e)

theorem run_inv (es : List PatternEvent) (hs : Inv s) {touched : List Int}
    (hpattern : s.mConnectedDots = pattern s.mGridSize touched) :
    ∃ s' touched', run es s touched = some (s', touched') ∧ Inv s' ∧
      s'.mConnectedDots = pattern s'.mGridSize touched' := by
  induction es generalizing s touched with
  | nil => exact ⟨s, touched, rfl, hs, hpattern⟩
  | cons e es ih =>
    obtain ⟨s₁, hstep, hs₁, hpattern₁⟩ := step_inv hs hpattern e
    obtain ⟨s', touched', hrun, h'⟩ := ih hs₁ hpattern₁
    exact ⟨s', touched', by rw [run, hstep, Option.bind_some, hrun], h'⟩

theorem inv_new {n : Nat} (hn : 2 ≤ n) (place : Nat → Int × Int) (mDotRadius : Int) :
    Inv (new n place mDotRadius) :=
  ⟨hn, by simp [new], List.nodup_nil, nofun, nofun⟩

end GUIPatternPassword

/-- `q` was touched after `p`: `passed` are the dots that came before it then. -/
structure Crosses (n : Nat) (p q : Int) (before passed : List Int) : Prop where
  last : before.getLast? = some p
  /-- All that is between both dots has come by now. -/
  between : ∀ d, OnGrid n d → Point.Aligned (cell n p) (cell n q) →
    Point.Between (cell n p) (cell n q) (cell n d) → d ∈ before ++ passed
  /-- Nothing else came. -/
  only : ∀ d ∈ passed, Point.Aligned (cell n p) (cell n q) ∧
    Point.Between (cell n p) (cell n q) (cell n d)
  /-- It came on the way from `p` to `q`. -/
  sorted : passed.Pairwise fun d e =>
    Point.dist (cell n p) (cell n d) < Point.dist (cell n p) (cell n e)

section

variable {n : Nat} {p q : Int}

theorem passes_of_connect (hp : OnGrid n p) (hq : OnGrid n q) {before : List Int}
    (hlast : before.getLast? = some p) :
    connect n before q = before ++ (crossed n p q).filter (· ∉ before) ++ [q] ∧
      Crosses n p q before ((crossed n p q).filter (· ∉ before)) := by
  refine ⟨by rw [connect, hlast], hlast, fun d hd haligned hbetween => ?_, fun d hd => ?_, ?_⟩
  · have hmem := (mem_crossed hp hq).2 ⟨haligned, hd, hbetween⟩
    rw [List.mem_append, List.mem_filter]
    by_cases hbefore : d ∈ before
    · exact .inl hbefore
    · exact .inr ⟨hmem, by simpa using hbefore⟩
  · obtain ⟨haligned, -, hbetween⟩ := (mem_crossed hp hq).1 (List.mem_of_mem_filter hd)
    exact ⟨haligned, hbetween⟩
  · refine List.Pairwise.filter _ ?_
    unfold crossed
    split
    · rename_i haligned
      rw [List.pairwise_map]
      refine Point.inside_sorted.imp_of_mem fun {r r'} hr hr' hlt => ?_
      obtain ⟨h₁, h₁', -, -⟩ := cell_of_between hp hq (haligned.between hr)
      obtain ⟨h₂, h₂', -, -⟩ := cell_of_between hp hq (haligned.between hr')
      rwa [cell_dotIndex h₁ h₁', cell_dotIndex h₂ h₂']
    · exact List.Pairwise.nil

theorem connect_eq (before : List Int) : ∃ passed, connect n before q = before ++ passed ++ [q] := by
  unfold connect
  split
  · rename_i hnone
    exact ⟨[], by rw [List.getLast?_eq_none_iff.1 hnone]; rfl⟩
  · exact ⟨_, rfl⟩

theorem foldl_connect (ys before : List Int) :
    ∃ after, ys.foldl (connect n) before = before ++ after := by
  induction ys generalizing before with
  | nil => exact ⟨[], (List.append_nil before).symm⟩
  | cons q ys ih =>
    obtain ⟨passed, hconnect⟩ := connect_eq (n := n) (q := q) before
    obtain ⟨after, hafter⟩ := ih (connect n before q)
    refine ⟨passed ++ [q] ++ after, ?_⟩
    rw [List.foldl_cons, hafter, hconnect]
    simp only [List.append_assoc]

/-- The pattern of dots that are touched one after the other. -/
theorem pattern_split (xs ys : List Int) : ∃ before after,
    pattern n (xs ++ p :: q :: ys) = connect n before q ++ after ∧ before.getLast? = some p := by
  obtain ⟨passed, hlast⟩ := connect_eq (n := n) (q := p) (pattern n xs)
  obtain ⟨after, hafter⟩ := foldl_connect (n := n) ys (connect n (connect n (pattern n xs) p) q)
  refine ⟨connect n (pattern n xs) p, after, ?_, ?_⟩
  · rw [← hafter, pattern, List.foldl_append]
    rfl
  · rw [hlast, List.getLast?_concat]

end

namespace GUIPatternPassword

/-- **The pattern of a run**: the dots are on the grid, none is repeated, and between two dots that
are touched one after the other comes what lies between them. -/
theorem run_pattern {n : Nat} (hn : 2 ≤ n) (place : Nat → Int × Int) (mDotRadius : Int)
    (es : List PatternEvent) :
    ∃ s touched, run es (new n place mDotRadius) [] = some (s, touched) ∧
      s.mConnectedDots.Nodup ∧ (∀ d ∈ s.mConnectedDots, OnGrid s.mGridSize d) ∧
      s.mConnectedDots.length ≤ s.mGridSize * s.mGridSize ∧
      (∀ q p, OnGrid s.mGridSize q → q ∉ s.mConnectedDots → s.mConnectedDots.getLast? = some p →
        s.ConnectIntermediateDots q = s.connectUnused (crossed s.mGridSize p q) ∧
          ∀ d ∈ crossed s.mGridSize p q, OnGrid s.mGridSize d) ∧
      ∀ xs p q ys, touched = xs ++ p :: q :: ys →
        ∃ before passed after, s.mConnectedDots = before ++ passed ++ q :: after ∧
          Crosses s.mGridSize p q before passed := by
  have hnew : (new n place mDotRadius).mConnectedDots = pattern n [] := rfl
  obtain ⟨s, touched, hrun, hs, hpattern⟩ := run_inv es (inv_new hn place mDotRadius) hnew
  refine ⟨s, touched, hrun, hs.nodup, hs.grid, length_le_of_nodup hs.nodup hs.grid, ?_, ?_⟩
  · intro q p hq hunused hlast
    have hmem := List.mem_of_getLast? hlast
    have hp := hs.grid p hmem
    refine ⟨connectIntermediateDots_eq hlast hp hq ?_, fun d hd => ((mem_crossed hp hq).1 hd).2.1⟩
    rintro rfl
    exact hunused hmem
  · rintro xs p q ys rfl
    obtain ⟨before, after, hsplit, hlast⟩ := pattern_split (n := s.mGridSize) xs ys
    rw [hsplit] at hpattern
    have hp : OnGrid s.mGridSize p := by
      obtain ⟨passed, hconnect⟩ := connect_eq (n := s.mGridSize) (q := q) before
      refine hs.grid p ?_
      rw [hpattern, hconnect]
      simp [List.mem_of_getLast? hlast]
    have hq : OnGrid s.mGridSize q := by
      obtain ⟨passed, hconnect⟩ := connect_eq (n := s.mGridSize) (q := q) before
      refine hs.grid q ?_
      rw [hpattern, hconnect]
      simp
    obtain ⟨hconnect, hpasses⟩ := passes_of_connect hp hq hlast
    refine ⟨before, _, after, ?_, hpasses⟩
    rw [hpattern, hconnect, List.append_assoc]
    rfl

/-- Nine dots, and the distance of two of them is 100. -/
def nineDots : GUIPatternPassword :=
  new 3 (fun i => (100 * (i % 3 : Nat), 100 * (i / 3 : Nat))) 10

/-- The dots 0, 4, again 0, and 2 are touched. -/
def thereAndBack : List PatternEvent :=
  [.touch true .start 10 10, .touch true .drag 110 110, .touch true .drag 10 10,
    .touch true .drag 210 10]

theorem run_pattern_nineDots :
    ∃ s touched, run thereAndBack nineDots [] = some (s, touched) ∧
      s.mConnectedDots.Nodup ∧ (∀ d ∈ s.mConnectedDots, OnGrid s.mGridSize d) ∧
      s.mConnectedDots.length ≤ s.mGridSize * s.mGridSize ∧
      (∀ q p, OnGrid s.mGridSize q → q ∉ s.mConnectedDots → s.mConnectedDots.getLast? = some p →
        s.ConnectIntermediateDots q = s.connectUnused (crossed s.mGridSize p q) ∧
          ∀ d ∈ crossed s.mGridSize p q, OnGrid s.mGridSize d) ∧
      ∀ xs p q ys, touched = xs ++ p :: q :: ys →
        ∃ before passed after, s.mConnectedDots = before ++ passed ++ q :: after ∧
          Crosses s.mGridSize p q before passed :=
  run_pattern (by decide) _ 10 thereAndBack

/-- A dot that is used is not the start of a way: from 0 to 2, dot 1 does not come. -/
theorem used_dot_skipped :
    nineDots.InDot 10 10 = 0 ∧ nineDots.InDot 110 110 = 4 ∧ nineDots.InDot 210 10 = 2 ∧
      Point.Aligned (cell 3 0) (cell 3 2) ∧ Point.Between (cell 3 0) (cell 3 2) (cell 3 1) ∧
      (run thereAndBack nineDots []).map (fun r => r.1.mConnectedDots) = some [0, 4, 2] := by
  refine ⟨by decide, by decide, by decide, by decide, ?_, by decide⟩
  exact ⟨by decide, by decide, by decide, by decide, by decide⟩

end GUIPatternPassword

end Recovery.Gui
