import Recovery.OtaUtil.SysUtil

/-!
# Who owns the mappings of a block map (`MapBlockFile` of `otautil/SysUtil.cpp`)

`mapBlockFile` of `SysUtil` is about what a successful call maps; here every call of `mmap` and
`munmap` counts, and `mmap` may fail at any place.

* `isMapped` — the addresses that some calls leave mapped.
* `Released` — the destructor unmaps what is mapped, once, and then nothing is.
* `released_iff` — a failed call leaves that exactly where it has mapped no range.
* `released_of_ok` — a successful call always does.
* `mapBlockFile_isSome_iff` — where the system is that of `SysUtil`, the calls succeed together.
-/

set_option autoImplicit false

namespace Recovery.OtaUtil

open Recovery.Lib

inductive MemCall where
  | mmap (addr length : Nat)
  | munmap (addr length : Nat)
  deriving DecidableEq, Repr

/-- The address lies in the piece. -/
def InPiece (addr length x : Nat) : Prop := addr ≤ x ∧ x < addr + length

instance (addr length x : Nat) : Decidable (InPiece addr length x) :=
  inferInstanceAs (Decidable (_ ∧ _))

/-- Whether a call leaves the address mapped. -/
def MemCall.keeps (x : Nat) (mapped : Bool) : MemCall → Bool
  | mmap addr length => mapped || decide (InPiece addr length x)
  | munmap addr length => mapped && !decide (InPiece addr length x)

/-- Whether some calls leave the address mapped. -/
def isMapped (calls : List MemCall) (x : Nat) : Bool := calls.foldl (MemCall.keeps x) false

theorem isMapped_append_mmap (calls : List MemCall) (addr length x : Nat) :
    isMapped (calls ++ [.mmap addr length]) x = (isMapped calls x || decide (InPiece addr length x)) := by
  rw [isMapped, List.foldl_append]
  rfl

theorem isMapped_append_munmap (calls : List MemCall) (addr length x : Nat) :
    isMapped (calls ++ [.munmap addr length]) x =
      (isMapped calls x && !decide (InPiece addr length x)) := by
  rw [isMapped, List.foldl_append]
  rfl

/-! ## The code -/

/-- What the system answers. -/
structure MapOs where
  readFile : String → Option String
  /-- The address of `mmap(nullptr, length, …)`. -/
  reserve : Nat → Option Nat
  openDevice : String → Bool
  /-- Whether `mmap` with `MAP_FIXED` succeeds: address, length and offset. -/
  mapFixed : Nat → Nat → Nat → Bool

/-- The class `MemMapping`. -/
structure Mapping where
  addr : Nat
  length : Nat
  ranges : List (Nat × Nat)
  deriving DecidableEq

/-- `MemMapping map;`. -/
def Mapping.fresh : Mapping := ⟨0, 0, []⟩

def unmaps (ranges : List (Nat × Nat)) : List MemCall :=
  ranges.map fun range => .munmap range.1 range.2

/-- The calls of `~MemMapping`. -/
def Mapping.destructor (m : Mapping) : List MemCall := unmaps m.ranges

/-- What the first three lines of the text say, and the lines of the ranges. -/
structure BlockMapHeader where
  blockDev : String
  size : Nat
  blksize : Nat
  lines : List String

/-- `blocks * blksize`. -/
def BlockMapHeader.total (h : BlockMapHeader) : Nat := ((h.size - 1) / h.blksize + 1) * h.blksize

/-- `MapBlockFile` up to the reservation. -/
def blockMapHeader (B : AndroidBase) (content : String) : Option BlockMapHeader :=
  match B.split (B.trim content) "\n" with
  | blockDev :: sizes :: count :: lines => do
    if lines = [] then none
    else
      let (size, blksize) ← scanTwo sizes.toList
      let (rangeCount, _) ← scanZu count.toList
      let blocks := (size - 1) / blksize + 1
      if size = 0 ∨ blksize = 0 ∨ blocks > SIZE_MAX / blksize ∨ rangeCount = 0 ∨
          lines.length ≠ rangeCount then none
      else some ⟨blockDev, size, blksize, lines⟩
  | _ => none

/-- The loop over the ranges and the check after it: `success`, `ranges_` and the calls so far. -/
def mapLines (os : MapOs) (blksize : Nat) :
    List String → Nat → Nat → List (Nat × Nat) → List MemCall →
      Bool × List (Nat × Nat) × List MemCall
  | [], _, remaining, ranges, calls => (remaining = 0, ranges, calls)
  | line :: lines, next, remaining, ranges, calls =>
    match scanTwo line.toList with
    | none => (false, ranges, calls)
    | some (start, stop) =>
      let rangeSize := (stop - start) * blksize
      if stop ≤ start ∨ stop - start > SIZE_MAX / blksize ∨ rangeSize > remaining then
        (false, ranges, calls)
      else if os.mapFixed next rangeSize (start * blksize % 2 ^ 64) then
        mapLines os blksize lines (next + rangeSize) (remaining - rangeSize)
          (ranges ++ [(next, rangeSize)]) (calls ++ [.mmap next rangeSize])
      else (false, ranges, calls)

/-- `MapBlockFile`: its value, the object after it and its calls. -/
def mapBlockFile (B : AndroidBase) (os : MapOs) (filename : String) (m : Mapping) :
    Bool × Mapping × List MemCall :=
  match os.readFile filename with
  | none => (false, m, [])
  | some content =>
    match blockMapHeader B content with
    | none => (false, m, [])
    | some h =>
      match os.reserve h.total with
      | none => (false, m, [])
      | some reserve =>
        if os.openDevice h.blockDev = false then
          (false, m, [.mmap reserve h.total, .munmap reserve h.total])
        else
          let (success, ranges, calls) :=
            mapLines os h.blksize h.lines reserve h.total [] [.mmap reserve h.total]
          if success then (true, { addr := reserve, length := h.size, ranges := ranges }, calls)
          else (false, { m with ranges := ranges }, calls ++ [.munmap reserve h.total])

/-! ## What is owned -/

/-- The destructor unmaps nothing that is not mapped, and leaves nothing that is. -/
structure Released (calls : List MemCall) (m : Mapping) : Prop where
  unmapsOnce : ∀ before range after, m.ranges = before ++ range :: after →
    ∀ x, InPiece range.1 range.2 x → isMapped (calls ++ unmaps before) x = true
  noLeak : ∀ x, isMapped (calls ++ m.destructor) x = false

/-- The line is a range that fits and can be mapped: its size. -/
def RangeMaps (os : MapOs) (blksize : Nat) (line : String) (next remaining rangeSize : Nat) : Prop :=
  ∃ start stop, scanTwo line.toList = some (start, stop) ∧ start < stop ∧
    stop - start ≤ SIZE_MAX / blksize ∧ rangeSize = (stop - start) * blksize ∧ rangeSize ≤ remaining ∧
      os.mapFixed next rangeSize (start * blksize % 2 ^ 64) = true

/-- The lines are ranges that can be mapped one after the other, and fill up what remains. -/
inductive AllMap (os : MapOs) (blksize : Nat) : List String → Nat → Nat → Prop where
  | nil (next : Nat) : AllMap os blksize [] next 0
  | cons {line : String} {lines : List String} {next remaining rangeSize : Nat} :
      RangeMaps os blksize line next remaining rangeSize →
      AllMap os blksize lines (next + rangeSize) (remaining - rangeSize) →
      AllMap os blksize (line :: lines) next remaining

/-- The first of the lines is a range that can be mapped. -/
def FirstMaps (os : MapOs) (blksize : Nat) (lines : List String) (next remaining : Nat) : Prop :=
  ∃ line rest rangeSize, lines = line :: rest ∧ RangeMaps os blksize line next remaining rangeSize

/-- The call gets to its first range. -/
structure Starts (B : AndroidBase) (os : MapOs) (filename : String) (h : BlockMapHeader)
    (reserve : Nat) : Prop where
  header : ∃ content, os.readFile filename = some content ∧ blockMapHeader B content = some h
  reserve : os.reserve h.total = some reserve
  device : os.openDevice h.blockDev = true

/-- If the first range of the map can be mapped, all of them can. -/
def FirstOrAll (B : AndroidBase) (os : MapOs) (filename : String) : Prop :=
  ∀ h reserve, Starts B os filename h reserve →
    FirstMaps os h.blksize h.lines reserve h.total → AllMap os h.blksize h.lines reserve h.total

/-! ## The loop -/

/-- The ranges lie one after the other, from `next` up to `stop`. -/
inductive Tiles : Nat → List (Nat × Nat) → Nat → Prop where
  | nil (next : Nat) : Tiles next [] next
  | cons {next length stop : Nat} {ranges : List (Nat × Nat)} : 0 < length →
      Tiles (next + length) ranges stop → Tiles next ((next, length) :: ranges) stop

theorem Tiles.le {next stop : Nat} {ranges : List (Nat × Nat)} (h : Tiles next ranges stop) :
    next ≤ stop := by
  induction h with
  | nil => exact Nat.le_refl _
  | cons _ _ ih => exact Nat.le_trans (Nat.le_add_right _ _) ih

variable {B : AndroidBase} {os : MapOs} {blksize : Nat}

theorem allMap_cons_iff {line : String} {lines : List String} {next remaining : Nat} :
    AllMap os blksize (line :: lines) next remaining ↔ ∃ rangeSize,
      RangeMaps os blksize line next remaining rangeSize ∧
        AllMap os blksize lines (next + rangeSize) (remaining - rangeSize) := by
  constructor
  · rintro (_ | ⟨hrange, hall⟩)
    exact ⟨_, hrange, hall⟩
  · rintro ⟨_, hrange, hall⟩
    exact .cons hrange hall

/-- One round of the loop. -/
theorem mapLines_cons (line : String) (lines : List String) (next remaining : Nat)
    (ranges : List (Nat × Nat)) (calls : List MemCall) :
    (∃ rangeSize, RangeMaps os blksize line next remaining rangeSize ∧
      mapLines os blksize (line :: lines) next remaining ranges calls =
        mapLines os blksize lines (next + rangeSize) (remaining - rangeSize)
          (ranges ++ [(next, rangeSize)]) (calls ++ [.mmap next rangeSize])) ∨
    ((∀ rangeSize, ¬ RangeMaps os blksize line next remaining rangeSize) ∧
      mapLines os blksize (line :: lines) next remaining ranges calls = (false, ranges, calls)) := by
  rw [mapLines]
  cases hscan : scanTwo line.toList with
  | none =>
    refine .inr ⟨?_, rfl⟩
    rintro rangeSize ⟨start, stop, hsome, -⟩
    rw [hscan] at hsome
    cases hsome
  | some pair =>
    obtain ⟨start, stop⟩ := pair
    dsimp only
    split
    · rename_i hinvalid
      refine .inr ⟨?_, rfl⟩
      rintro rangeSize ⟨start', stop', hsome, hlt, hmax, rfl, hle, -⟩
      rw [hscan] at hsome
      cases hsome
      lia
    · rename_i hvalid
      rw [not_or, not_or, Nat.not_le, Nat.not_lt, Nat.not_lt] at hvalid
      obtain ⟨hlt, hmax, hle⟩ := hvalid
      split
      · rename_i hmap
        exact .inl ⟨_, ⟨start, stop, hscan, hlt, hmax, rfl, hle, hmap⟩, rfl⟩
      · rename_i hmap
        refine .inr ⟨?_, rfl⟩
        rintro rangeSize ⟨start', stop', hsome, -, -, rfl, -, hmap'⟩
        rw [hscan] at hsome
        cases hsome
        exact hmap hmap'

/-- What the loop has mapped lies in the reservation, and it succeeds where all of it can be. -/
theorem mapLines_spec (hblk : 0 < blksize) : ∀ (lines : List String) (next remaining : Nat)
    (ranges : List (Nat × Nat)) (calls : List MemCall),
    ∃ success new stop, mapLines os blksize lines next remaining ranges calls =
        (success, ranges ++ new, calls ++ new.map fun range => .mmap range.1 range.2) ∧
      Tiles next new stop ∧ stop ≤ next + remaining ∧
      (success = true ↔ AllMap os blksize lines next remaining) ∧
      (success = true → stop = next + remaining) ∧
      (new ≠ [] ↔ FirstMaps os blksize lines next remaining)
  | [], next, remaining, ranges, calls => by
    refine ⟨decide (remaining = 0), [], next, ?_, .nil next, Nat.le_add_right _ _, ?_, ?_, ?_⟩
    · rw [mapLines, List.append_nil, List.map_nil, List.append_nil]
    · rw [decide_eq_true_iff]
      constructor
      · rintro rfl
        exact .nil next
      · rintro ⟨⟩
        rfl
    · rw [decide_eq_true_iff]
      rintro rfl
      rfl
    · refine iff_of_false (fun h => h rfl) ?_
      rintro ⟨line, rest, rangeSize, hcons, -⟩
      cases hcons
  | line :: lines, next, remaining, ranges, calls => by
    rcases mapLines_cons line lines next remaining ranges calls with
      ⟨rangeSize, hrange, heq⟩ | ⟨hno, heq⟩
    · obtain ⟨success, new, stop, hrest, htiles, hstop, hall, hend, -⟩ :=
        mapLines_spec hblk lines (next + rangeSize) (remaining - rangeSize)
          (ranges ++ [(next, rangeSize)]) (calls ++ [.mmap next rangeSize])
      obtain ⟨start, stop', hscan, hlt, hmax, hsize, hle, hmap⟩ := hrange
      have hpos : 0 < rangeSize := by
        rw [hsize]
        exact Nat.mul_pos (by lia) hblk
      refine ⟨success, (next, rangeSize) :: new, stop, ?_, .cons hpos htiles, by lia, ?_, ?_, ?_⟩
      · rw [heq, hrest]
        simp
      · rw [hall, allMap_cons_iff]
        constructor
        · intro h
          exact ⟨rangeSize, ⟨start, stop', hscan, hlt, hmax, hsize, hle, hmap⟩, h⟩
        · rintro ⟨rangeSize', ⟨start'', stop'', hscan', -, -, hsize', -⟩, h⟩
          rw [hscan] at hscan'
          cases hscan'
          rw [hsize]
          rw [hsize'] at h
          exact h
      · intro h
        have := hend h
        lia
      · exact iff_of_true (List.cons_ne_nil _ _)
          ⟨line, lines, rangeSize, rfl, start, stop', hscan, hlt, hmax, hsize, hle, hmap⟩
    · refine ⟨false, [], next, ?_, .nil next, Nat.le_add_right _ _, ?_, nofun, ?_⟩
      · rw [heq, List.append_nil, List.map_nil, List.append_nil]
      · rw [allMap_cons_iff]
        refine iff_of_false nofun ?_
        rintro ⟨rangeSize, hrange, -⟩
        exact hno rangeSize hrange
      · refine iff_of_false (fun h => h rfl) ?_
        rintro ⟨line', rest, rangeSize, hcons, hrange⟩
        cases hcons
        exact hno rangeSize hrange

/-! ## The ledger -/

/-- Mapping the ranges again changes nothing in the reservation. -/
theorem isMapped_tiles {base total next stop : Nat} {new : List (Nat × Nat)}
    (h : Tiles next new stop) : base ≤ next → stop ≤ base + total → ∀ calls : List MemCall,
      (∀ x, isMapped calls x = decide (InPiece base total x)) →
      ∀ x, isMapped (calls ++ new.map fun range => .mmap range.1 range.2) x =
        decide (InPiece base total x) := by
  induction h with
  | nil =>
    intro _ _ calls hcalls x
    rw [List.map_nil, List.append_nil]
    exact hcalls x
  | @cons next length stop ranges _ htiles ih =>
    intro hbase hstop calls hcalls x
    rw [List.map_cons, ← List.singleton_append, ← List.append_assoc]
    refine ih (by lia) hstop _ (fun y => ?_) x
    have hle := htiles.le
    rw [isMapped_append_mmap, hcalls, ← Bool.decide_or]
    refine decide_eq_decide.2 (or_iff_left_of_imp ?_)
    rintro ⟨h1, h2⟩
    exact ⟨by lia, by lia⟩

theorem isMapped_reserve (reserve total x : Nat) :
    isMapped [.mmap reserve total] x = decide (InPiece reserve total x) := Bool.false_or _

/-- Nothing is left of the reservation. -/
theorem isMapped_unmapped {calls : List MemCall} {base total : Nat}
    (h : ∀ x, isMapped calls x = decide (InPiece base total x)) (x : Nat) :
    isMapped (calls ++ [.munmap base total]) x = false := by
  rw [isMapped_append_munmap, h, Bool.and_not_self]

/-- An object that owns nothing is clean where nothing is mapped. -/
theorem released_nil {calls : List MemCall} {m : Mapping} (hm : m.ranges = [])
    (h : ∀ x, isMapped calls x = false) : Released calls m where
  unmapsOnce before range after heq := by
    rw [hm] at heq
    exact absurd (congrArg List.length heq) (by simp)
  noLeak x := by
    rw [Mapping.destructor, hm, unmaps, List.map_nil, List.append_nil]
    exact h x

/-- An object that owns a range is not. -/
theorem not_released_cons {calls : List MemCall} {m : Mapping} {next stop : Nat}
    (htiles : Tiles next m.ranges stop) (hne : m.ranges ≠ []) (h : ∀ x, isMapped calls x = false) :
    ¬ Released calls m := by
  intro hreleased
  obtain ⟨addr, length, ranges⟩ := m
  cases htiles with
  | nil => exact hne rfl
  | @cons _ length _ ranges hpos _ =>
    have hmapped := hreleased.unmapsOnce [] (next, length) ranges rfl next
      ⟨Nat.le_refl _, Nat.lt_add_of_pos_right hpos⟩
    rw [unmaps, List.map_nil, List.append_nil, h] at hmapped
    cases hmapped

/-- Ranges that fill what is mapped are unmapped once each. -/
theorem released_tiles {next stop : Nat} {ranges : List (Nat × Nat)} (h : Tiles next ranges stop) :
    ∀ calls : List MemCall, (∀ x, isMapped calls x = decide (InPiece next (stop - next) x)) →
      (∀ before range after, ranges = before ++ range :: after →
        ∀ x, InPiece range.1 range.2 x → isMapped (calls ++ unmaps before) x = true) ∧
      ∀ x, isMapped (calls ++ unmaps ranges) x = false := by
  induction h with
  | nil next =>
    intro calls hcalls
    refine ⟨?_, fun x => ?_⟩
    · intro before range after heq
      exact absurd (congrArg List.length heq) (by simp)
    · rw [unmaps, List.map_nil, List.append_nil, hcalls, decide_eq_false_iff_not]
      rintro ⟨h1, h2⟩
      lia
  | @cons next length stop ranges _ htiles ih =>
    intro calls hcalls
    have hle := htiles.le
    obtain ⟨honce, hnone⟩ := ih (calls ++ [.munmap next length]) (by
      intro x
      rw [isMapped_append_munmap, hcalls, ← decide_not, ← Bool.decide_and]
      refine decide_eq_decide.2 ⟨?_, ?_⟩
      · rintro ⟨⟨h1, h2⟩, h3⟩
        rw [InPiece, not_and, Nat.not_lt] at h3
        exact ⟨h3 h1, by lia⟩
      · rintro ⟨h1, h2⟩
        exact ⟨⟨by lia, by lia⟩, fun h3 => absurd h3.2 (by lia)⟩)
    refine ⟨?_, fun x => ?_⟩
    · intro before range after heq x hx
      cases before with
      | nil =>
        obtain ⟨rfl, -⟩ := List.cons.inj heq
        rw [unmaps, List.map_nil, List.append_nil, hcalls, decide_eq_true_iff]
        obtain ⟨h1, h2⟩ := hx
        dsimp only at h1 h2
        exact ⟨h1, by lia⟩
      | cons first before =>
        obtain ⟨rfl, hrest⟩ := List.cons.inj heq
        have hmapped := honce before range after hrest x hx
        rwa [List.append_assoc, List.singleton_append] at hmapped
    · have hmapped := hnone x
      rwa [List.append_assoc, List.singleton_append] at hmapped

/-! ## The call -/

theorem blockMapHeader_blksize {content : String} {h : BlockMapHeader}
    (hheader : blockMapHeader B content = some h) : 0 < h.blksize := by
  unfold blockMapHeader at hheader
  split at hheader
  · split at hheader
    · cases hheader
    · simp only [Option.bind_eq_bind, Option.bind_eq_some_iff] at hheader
      obtain ⟨sizes, _, count, _, hvalid⟩ := hheader
      split at hvalid
      · cases hvalid
      · cases hvalid
        dsimp only
        lia
  · cases hheader

theorem Starts.unique {filename : String} {h h' : BlockMapHeader} {reserve reserve' : Nat}
    (hstarts : Starts B os filename h reserve) (hstarts' : Starts B os filename h' reserve') :
    h' = h ∧ reserve' = reserve := by
  obtain ⟨⟨content, hread, hheader⟩, hreserve, -⟩ := hstarts
  obtain ⟨⟨content', hread', hheader'⟩, hreserve', -⟩ := hstarts'
  rw [hread] at hread'
  cases hread'
  rw [hheader] at hheader'
  cases hheader'
  rw [hreserve] at hreserve'
  exact ⟨rfl, (Option.some.inj hreserve').symm⟩

/-- The call fails before the loop and leaves nothing mapped, or it is the loop. -/
theorem mapBlockFile_cases (B : AndroidBase) (os : MapOs) (filename : String) (m : Mapping) :
    (∃ calls, mapBlockFile B os filename m = (false, m, calls) ∧ (∀ x, isMapped calls x = false) ∧
      ∀ h reserve, ¬ Starts B os filename h reserve) ∨
    ∃ h reserve success new stop, Starts B os filename h reserve ∧ Tiles reserve new stop ∧
      stop ≤ reserve + h.total ∧ (success = true → stop = reserve + h.total) ∧
      (success = true ↔ AllMap os h.blksize h.lines reserve h.total) ∧
      (new ≠ [] ↔ FirstMaps os h.blksize h.lines reserve h.total) ∧
      mapBlockFile B os filename m =
        if success then (true, ⟨reserve, h.size, new⟩,
          [.mmap reserve h.total] ++ new.map fun range => .mmap range.1 range.2)
        else (false, { m with ranges := new },
          [.mmap reserve h.total] ++ (new.map fun range => .mmap range.1 range.2) ++
            [.munmap reserve h.total]) := by
  unfold mapBlockFile
  cases hread : os.readFile filename with
  | none =>
    refine .inl ⟨[], rfl, fun _ => rfl, ?_⟩
    rintro h reserve ⟨⟨content, hsome, -⟩, -, -⟩
    rw [hread] at hsome
    cases hsome
  | some content =>
    cases hheader : blockMapHeader B content with
    | none =>
      refine .inl ⟨[], by simp only [hheader], fun _ => rfl, ?_⟩
      rintro h reserve ⟨⟨content', hsome, hsome'⟩, -, -⟩
      rw [hread] at hsome
      cases hsome
      rw [hheader] at hsome'
      cases hsome'
    | some h =>
      have hunique {h' : BlockMapHeader} {reserve : Nat} (hstarts : Starts B os filename h' reserve) :
          h' = h := by
        obtain ⟨⟨content', hsome, hsome'⟩, -, -⟩ := hstarts
        rw [hread] at hsome
        cases hsome
        rw [hheader] at hsome'
        exact (Option.some.inj hsome').symm
      cases hreserve : os.reserve h.total with
      | none =>
        refine .inl ⟨[], by simp only [hheader, hreserve], fun _ => rfl, ?_⟩
        intro h' reserve hstarts
        obtain rfl := hunique hstarts
        rw [hstarts.reserve] at hreserve
        cases hreserve
      | some reserve =>
        cases hopen : os.openDevice h.blockDev with
        | false =>
          refine .inl ⟨[.mmap reserve h.total, .munmap reserve h.total],
            by simp only [hheader, hreserve, hopen, if_true], ?_, ?_⟩
          · exact isMapped_unmapped (isMapped_reserve reserve h.total)
          · intro h' reserve' hstarts
            obtain rfl := hunique hstarts
            rw [hstarts.device] at hopen
            cases hopen
        | true =>
          obtain ⟨success, new, stop, hrun, htiles, hstop, hall, hend, hfirst⟩ :=
            @mapLines_spec os h.blksize (blockMapHeader_blksize hheader) h.lines reserve h.total []
              [.mmap reserve h.total]
          refine .inr ⟨h, reserve, success, new, stop, ⟨⟨content, hread, hheader⟩, hreserve, hopen⟩,
            htiles, hstop, hend, hall, hfirst, ?_⟩
          simp only [hheader, hreserve, hopen, hrun, List.nil_append]
          rfl

/-- **A failed call leaves nothing behind exactly where it has mapped no range.** -/
theorem released_iff (B : AndroidBase) (os : MapOs) (filename : String) :
    ((mapBlockFile B os filename .fresh).1 = false →
      Released (mapBlockFile B os filename .fresh).2.2 (mapBlockFile B os filename .fresh).2.1) ↔
      FirstOrAll B os filename := by
  rcases mapBlockFile_cases B os filename .fresh with
    ⟨calls, heq, hnothing, hno⟩ | ⟨h, reserve, success, new, stop, hstarts, htiles, hstop, -, hall,
      hfirst, heq⟩
  · rw [heq]
    exact iff_of_true (fun _ => released_nil rfl hnothing) fun h reserve hstarts =>
      absurd hstarts (hno h reserve)
  · have hcond : FirstOrAll B os filename ↔ (new ≠ [] → success = true) := by
      rw [hall, hfirst]
      constructor
      · intro h'
        exact h' h reserve hstarts
      · intro h' h'' reserve' hstarts'
        obtain ⟨rfl, rfl⟩ := hstarts.unique hstarts'
        exact h'
    rw [heq, hcond]
    cases success with
    | true => exact iff_of_true nofun fun _ => rfl
    | false =>
      -- Everything has been unmapped with the reservation.
      have hnothing := isMapped_unmapped (isMapped_tiles htiles (Nat.le_refl _) hstop _
        (isMapped_reserve reserve h.total))
      by_cases hne : new = []
      · exact iff_of_true (fun _ => released_nil hne hnothing) fun h' => absurd hne h'
      · refine iff_of_false (fun h' => ?_) fun h' => Bool.noConfusion (h' hne)
        exact not_released_cons htiles hne hnothing (h' rfl)

/-- A successful call owns what is mapped. -/
theorem released_of_ok {filename : String} {m : Mapping}
    (h : (mapBlockFile B os filename m).1 = true) :
    Released (mapBlockFile B os filename m).2.2 (mapBlockFile B os filename m).2.1 := by
  rcases mapBlockFile_cases B os filename m with
    ⟨calls, heq, -⟩ | ⟨header, reserve, success, new, stop, -, htiles, hstop, hend, -, -, heq⟩
  · rw [heq] at h
    cases h
  · rw [heq] at h ⊢
    cases success with
    | false => cases h
    | true =>
      have hmapped := isMapped_tiles htiles (Nat.le_refl _) hstop _
        (isMapped_reserve reserve header.total)
      have htotal : header.total = stop - reserve := by
        have := hend rfl
        omega
      rw [htotal] at hmapped
      obtain ⟨honce, hnone⟩ := released_tiles htiles _ hmapped
      rw [← htotal] at honce hnone
      exact ⟨honce, hnone⟩

/-! ## The successful calls of `SysUtil` -/

/-- The system of `SysUtil`, where the reservation is at `base`. -/
def Vm.mapOs (V : Vm) (content : String) (base : Nat) : MapOs where
  readFile _ := some content
  reserve length := if V.reserves length then some base else none
  openDevice name := (V.openDevice name).isSome
  mapFixed addr _ offset := V.pageSize ∣ addr - base ∧ V.pageSize ∣ offset

theorem mapRanges_isSome_iff {V : Vm} {content : String} {base : Nat} (device : List UInt8) :
    ∀ (lines : List String) (next remaining : Nat),
      (MemMapping.mapRanges V device blksize lines next remaining).isSome = true ↔
        AllMap (V.mapOs content base) blksize lines (base + next) remaining
  | [], next, remaining => by
    rw [MemMapping.mapRanges]
    split
    · rename_i hne
      refine iff_of_false nofun ?_
      rintro ⟨⟩
      exact hne rfl
    · rename_i hzero
      rw [not_not] at hzero
      rw [hzero]
      exact iff_of_true rfl (.nil _)
  | line :: lines, next, remaining => by
    rw [allMap_cons_iff, MemMapping.mapRanges]
    cases hscan : scanTwo line.toList with
    | none =>
      refine iff_of_false nofun ?_
      rintro ⟨_, ⟨start, stop, hsome, -⟩, -⟩
      rw [hscan] at hsome
      cases hsome
    | some pair =>
      obtain ⟨start, stop⟩ := pair
      have ih := @mapRanges_isSome_iff V content base device lines
        (next + (stop - start) * blksize) (remaining - (stop - start) * blksize)
      have hfixed : (V.mapOs content base).mapFixed (base + next) ((stop - start) * blksize)
          (start * blksize % 2 ^ 64) = true ↔
            V.pageSize ∣ next ∧ V.pageSize ∣ start * blksize % 2 ^ 64 := by
        rw [Vm.mapOs, decide_eq_true_iff, Nat.add_sub_cancel_left]
      have hrange (rangeSize : Nat) : RangeMaps (V.mapOs content base) blksize line (base + next)
          remaining rangeSize ↔ rangeSize = (stop - start) * blksize ∧
            ¬ (stop ≤ start ∨ stop - start > SIZE_MAX / blksize ∨
              (stop - start) * blksize > remaining) ∧
            (V.pageSize ∣ next ∧ V.pageSize ∣ start * blksize % 2 ^ 64) := by
        rw [← hfixed, not_or, not_or, Nat.not_le, Nat.not_lt, Nat.not_lt]
        constructor
        · rintro ⟨start', stop', hsome, hlt, hmax, rfl, hle, hmap⟩
          rw [hscan] at hsome
          cases hsome
          exact ⟨rfl, ⟨hlt, hmax, hle⟩, hmap⟩
        · rintro ⟨rfl, ⟨hlt, hmax, hle⟩, hmap⟩
          exact ⟨start, stop, hscan, hlt, hmax, rfl, hle, hmap⟩
      simp only [hrange, Option.bind_eq_bind, Option.bind_some]
      split
      · rename_i hinvalid
        refine iff_of_false nofun ?_
        rintro ⟨_, ⟨-, hvalid, -⟩, -⟩
        exact hvalid hinvalid
      · rename_i hvalid
        unfold MemMapping.mmapFixed
        split
        · rename_i hpage
          rw [Option.bind_some]
          rw [← Nat.add_assoc] at ih
          have hall : (∃ rangeSize, (rangeSize = (stop - start) * blksize ∧
              ¬ (stop ≤ start ∨ stop - start > SIZE_MAX / blksize ∨
                (stop - start) * blksize > remaining) ∧
              (V.pageSize ∣ next ∧ V.pageSize ∣ start * blksize % 2 ^ 64)) ∧
              AllMap (V.mapOs content base) blksize lines (base + next + rangeSize)
                (remaining - rangeSize)) ↔
              AllMap (V.mapOs content base) blksize lines (base + next + (stop - start) * blksize)
                (remaining - (stop - start) * blksize) := by
            constructor
            · rintro ⟨_, ⟨rfl, -⟩, h⟩
              exact h
            · intro h
              exact ⟨_, ⟨rfl, hvalid, hpage⟩, h⟩
          rw [hall, ← ih]
          cases MemMapping.mapRanges V device blksize lines (next + (stop - start) * blksize)
            (remaining - (stop - start) * blksize) <;> rfl
        · rename_i hpage
          refine iff_of_false nofun ?_
          rintro ⟨_, ⟨-, -, hpage'⟩, -⟩
          exact hpage hpage'

theorem mapBlockFile_eq_header (V : Vm) (content : String) :
    MemMapping.mapBlockFile B V content = (blockMapHeader B content).bind fun h =>
      if V.reserves h.total then
        (V.openDevice h.blockDev).bind fun device =>
          (MemMapping.mapRanges V device h.blksize h.lines 0 h.total).bind fun result =>
            some { mem := result.1, length := h.size, ranges := result.2 }
      else none := by
  unfold MemMapping.mapBlockFile blockMapHeader
  rcases B.split (B.trim content) "\n" with _ | ⟨blockDev, _ | ⟨sizes, _ | ⟨count, lines⟩⟩⟩
  · rfl
  · rfl
  · rfl
  · dsimp only
    by_cases hlines : lines = []
    · rw [if_pos hlines, if_pos hlines]
      rfl
    · rw [if_neg hlines, if_neg hlines]
      cases scanTwo sizes.toList with
      | none => rfl
      | some pair =>
        cases scanZu count.toList with
        | none => rfl
        | some pair' =>
          simp only [Option.bind_eq_bind, Option.bind_some]
          split
          · rfl
          · rw [Option.bind_some]
            rfl

/-- On the system of `SysUtil` the call succeeds where that of `SysUtil` does. -/
theorem mapBlockFile_isSome_iff (V : Vm) (content : String) (base : Nat) (filename : String)
    (m : Mapping) : (MemMapping.mapBlockFile B V content).isSome = true ↔
      (mapBlockFile B (V.mapOs content base) filename m).1 = true := by
  rw [mapBlockFile_eq_header]
  have hiff : (mapBlockFile B (V.mapOs content base) filename m).1 = true ↔ ∃ h reserve,
      Starts B (V.mapOs content base) filename h reserve ∧
        AllMap (V.mapOs content base) h.blksize h.lines reserve h.total := by
    rcases mapBlockFile_cases B (V.mapOs content base) filename m with
      ⟨calls, heq, -, hno⟩ | ⟨h, reserve, success, new, stop, hstarts, -, -, -, hall, -, heq⟩
    · rw [heq]
      refine iff_of_false nofun ?_
      rintro ⟨h, reserve, hstarts, -⟩
      exact hno h reserve hstarts
    · have hsuccess : (mapBlockFile B (V.mapOs content base) filename m).1 = success := by
        rw [heq]
        cases success <;> rfl
      rw [hsuccess, hall]
      constructor
      · intro h'
        exact ⟨h, reserve, hstarts, h'⟩
      · rintro ⟨h', reserve', hstarts', hall'⟩
        obtain ⟨rfl, rfl⟩ := hstarts.unique hstarts'
        exact hall'
  rw [hiff]
  constructor
  · intro hsome
    obtain ⟨m', hm'⟩ := Option.isSome_iff_exists.1 hsome
    obtain ⟨h, hheader, hrest⟩ := Option.bind_eq_some_iff.1 hm'
    split at hrest
    · rename_i hreserves
      obtain ⟨device, hdevice, hmap⟩ := Option.bind_eq_some_iff.1 hrest
      obtain ⟨result, hranges, -⟩ := Option.bind_eq_some_iff.1 hmap
      refine ⟨h, base, ⟨⟨content, rfl, hheader⟩, if_pos hreserves, ?_⟩, ?_⟩
      · exact Option.isSome_iff_exists.2 ⟨device, hdevice⟩
      · refine (mapRanges_isSome_iff device h.lines 0 h.total).1 ?_
        rw [hranges]
        rfl
    · cases hrest
  · rintro ⟨h, reserve, ⟨⟨content', hread, hheader⟩, hreserve, hdevice⟩, hall⟩
    cases hread
    obtain ⟨device, hdevice⟩ := Option.isSome_iff_exists.1 hdevice
    have hreserves : V.reserves h.total = true ∧ base = reserve := by
      unfold Vm.mapOs at hreserve
      dsimp only at hreserve
      split at hreserve
      · rename_i hyes
        exact ⟨hyes, Option.some.inj hreserve⟩
      · cases hreserve
    obtain ⟨hyes, rfl⟩ := hreserves
    have hranges := (mapRanges_isSome_iff device h.lines 0 h.total).2 hall
    obtain ⟨result, hresult⟩ := Option.isSome_iff_exists.1 hranges
    rw [hheader, Option.bind_some, if_pos hyes, hdevice, Option.bind_some, hresult]
    rfl

/-! ## A map whose second range is refused -/

/-- A map of two blocks of 4096 bytes, of which the second cannot be mapped. -/
def secondFails : MapOs where
  readFile _ := some "/dev/block/userdata\n8192 4096\n2\n5 6\n9 10\n"
  reserve _ := some 65536
  openDevice _ := true
  mapFixed addr _ _ := addr = 65536

/-- The destructor unmaps the first range again, which has been unmapped with the reservation. -/
theorem not_released_second :
    (mapBlockFile .decimal secondFails "/cache/recovery/block.map" .fresh).1 = false ∧
    ¬ Released (mapBlockFile .decimal secondFails "/cache/recovery/block.map" .fresh).2.2
      (mapBlockFile .decimal secondFails "/cache/recovery/block.map" .fresh).2.1 := by
  have hrun : mapBlockFile .decimal secondFails "/cache/recovery/block.map" .fresh =
      (false, ⟨0, 0, [(65536, 4096)]⟩,
        [.mmap 65536 8192, .mmap 65536 4096, .munmap 65536 8192]) := by decide +kernel
  rw [hrun]
  refine ⟨rfl, fun h => ?_⟩
  have hmapped := h.unmapsOnce [] (65536, 4096) [] rfl 65536 (by decide)
  exact absurd hmapped (by decide)

end Recovery.OtaUtil
