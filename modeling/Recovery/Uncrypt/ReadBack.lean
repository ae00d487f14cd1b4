import Recovery.Lib.Coalesce
import Recovery.OtaUtil.SysUtil
import Recovery.Uncrypt.BlockMap

/-!
# Reading a block map back

What `MapBlockFile` makes of the text that `produce_block_map` writes.

* `flat`, `Coalesced.addBlockToRanges` — `add_block_to_ranges` coalesces the blocks into ranges.
* `SplitsLines` — what the two text helpers of `libbase` do.
* `split_mapText` — the lines of the text are found again.
* `mapRanges_eq` — the ranges are mapped when all of them lie on pages, and then show their blocks.
* `mapBlockFile_mapText` — the same for the whole text.

The text has the device, the two sizes, the number of ranges and the ranges, a line each; a field
with a newline in it would shift the lines behind it (`IsField`).
-/

set_option autoImplicit false

namespace Recovery.Uncrypt

open Recovery.Lib Recovery.OtaUtil

/-! ## Ranges -/

/-- A list of ranges as the `ranges` of `produce_block_map`. -/
def flat (ps : List (Nat × Nat)) : List Int := ps.flatMap fun p => [(p.1 : Int), (p.2 : Int)]

theorem flat_concat (ps : List (Nat × Nat)) (p : Nat × Nat) :
    flat (ps ++ [p]) = flat ps ++ [(p.1 : Int), (p.2 : Int)] := by
  simp [flat]

theorem length_flat (ps : List (Nat × Nat)) : (flat ps).length = 2 * ps.length := by
  induction ps with
  | nil => rfl
  | cons p ps ih =>
    show (flat ps).length + 2 = 2 * (ps.length + 1)
    lia

theorem getLast?_flat (ps : List (Nat × Nat)) :
    (flat ps).getLast? = ps.getLast?.map fun p => (p.2 : Int) := by
  rcases List.eq_nil_or_concat ps with rfl | ⟨qs, q, rfl⟩
  · rfl
  · rw [List.concat_eq_append, flat_concat, List.getLast?_concat]
    simp

theorem coalesced_addBlockToRanges {f : Nat → Nat} {n : Nat} {ps : List (Nat × Nat)}
    (h : Coalesced f n ps) (hlt : f n < INT_MAX) :
    ∃ ps', addBlockToRanges (flat ps) (f n) = flat ps' ∧ Coalesced f (n + 1) ps' := by
  have hint : toInt ((f n : Int) + 1) = ((f n + 1 : Nat) : Int) := by
    rw [INT_MAX] at hlt
    rw [toInt_eq (by lia) (by lia), Int.natCast_succ]
  unfold addBlockToRanges
  rw [getLast?_flat, hint]
  split
  · rename_i hl
    rcases List.eq_nil_or_concat ps with rfl | ⟨qs, ⟨a, b⟩, rfl⟩
    · cases hl
    · rw [List.concat_eq_append] at h hl ⊢
      rw [List.getLast?_concat] at hl
      obtain rfl : b = f n := Int.ofNat.inj (Option.some.inj hl)
      refine ⟨qs ++ [(a, f n + 1)], ?_, .extend h⟩
      rw [flat_concat, flat_concat,
        show flat qs ++ [(a : Int), (f n : Int)] = (flat qs ++ [(a : Int)]) ++ [(f n : Int)] by simp,
        List.dropLast_concat, List.append_assoc]
      rfl
  · rename_i hl
    refine ⟨ps ++ [(f n, f n + 1)], (flat_concat ps (f n, f n + 1)).symm, .fresh h fun p hp he => hl ?_⟩
    rw [hp, Option.map_some, he]

/-! ## Lines -/

/-- The documented behaviour of `Split` and `Trim`. -/
structure SplitsLines (B : AndroidBase) : Prop where
  split : ∀ s, (B.split s "\n").map String.toList = s.toList.splitOn '\n'
  trim : ∀ s, (B.trim s).toList =
    ((s.toList.dropWhile isspace).reverse.dropWhile isspace).reverse

def rangeLine (p : Nat × Nat) : List Char := printNat p.1 ++ ' ' :: printNat p.2

def mapLines (P : Package) (ps : List (Nat × Nat)) : List (List Char) :=
  P.blkDev :: rangeLine (P.data.length, P.blksize) :: printNat ps.length :: ps.map rangeLine

theorem rangeLines_flat (ps : List (Nat × Nat)) :
    rangeLines (flat ps) = (ps.map rangeLine).flatMap (· ++ ['\n']) := by
  induction ps with
  | nil => rfl
  | cons p ps ih =>
    show printInt p.1 ++ ' ' :: printInt p.2 ++ '\n' :: rangeLines (flat ps) = _
    rw [ih, printInt_natCast, printInt_natCast]
    simp [rangeLine]

theorem mapText_flat (P : Package) (ps : List (Nat × Nat)) :
    mapText P (flat ps) = (mapLines P ps).flatMap (· ++ ['\n']) := by
  have hcount : (flat ps).length / 2 = ps.length := by
    rw [length_flat]
    lia
  rw [mapText, hcount, rangeLines_flat]
  simp [mapLines, rangeLine]

theorem flatMap_concat_eq_intercalate {c : Char} {L : List (List Char)} (h : L ≠ []) :
    L.flatMap (· ++ [c]) = [c].intercalate L ++ [c] := by
  induction L with
  | nil => exact absurd rfl h
  | cons l L ih =>
    rw [List.flatMap_cons]
    cases L with
    | nil => simp
    | cons l' L =>
      rw [ih (List.cons_ne_nil _ _), List.intercalate_cons_cons]
      simp

theorem newline_notMem_rangeLine (p : Nat × Nat) : '\n' ∉ rangeLine p := by
  have hdigit (n : Nat) : '\n' ∉ printNat n := fun h => by
    have := printNat_isDigit h
    cases this
  intro h
  rw [rangeLine, List.mem_append, List.mem_cons] at h
  rcases h with h | h | h
  · exact hdigit _ h
  · cases h
  · exact hdigit _ h

/-- The name of a block device is one field of the fstab. -/
structure IsField (name : List Char) : Prop where
  ne_nil : name ≠ []
  no_space : ∀ c ∈ name, isspace c = false

theorem newline_notMem_mapLines {P : Package} (hname : IsField P.blkDev) (ps : List (Nat × Nat)) :
    ∀ l ∈ mapLines P ps, '\n' ∉ l := by
  intro l hl
  rw [mapLines, List.mem_cons, List.mem_cons, List.mem_cons, List.mem_map] at hl
  rcases hl with rfl | rfl | rfl | ⟨p, -, rfl⟩
  · intro h
    cases hname.no_space _ h
  · exact newline_notMem_rangeLine _
  · intro h
    cases printNat_isDigit h
  · exact newline_notMem_rangeLine p

theorem trim_concat {T : List Char} {a z : Char} (ha : T.head? = some a) (hz : T.getLast? = some z)
    (has : isspace a = false) (hzs : isspace z = false) :
    (((T ++ ['\n']).dropWhile isspace).reverse.dropWhile isspace).reverse = T := by
  have h1 : (T ++ ['\n']).dropWhile isspace = T ++ ['\n'] := by
    cases T with
    | nil => cases ha
    | cons b T =>
      obtain rfl := Option.some.inj ha
      rw [List.cons_append, List.dropWhile_cons_of_neg (by simp [has])]
  have h2 : T.reverse.dropWhile isspace = T.reverse := by
    rw [← List.head?_reverse] at hz
    cases hr : T.reverse with
    | nil => rfl
    | cons b R =>
      rw [hr] at hz
      obtain rfl := Option.some.inj hz
      rw [List.dropWhile_cons_of_neg (by simp [hzs])]
  rw [h1, List.reverse_append, List.reverse_singleton, List.singleton_append,
    List.dropWhile_cons_of_pos (by decide), h2, List.reverse_reverse]

/-- **The lines of a map are found again.** -/
theorem split_mapText {B : AndroidBase} (hB : SplitsLines B) {P : Package}
    (hname : IsField P.blkDev) {ps : List (Nat × Nat)} (hps : ps ≠ []) :
    B.split (B.trim (String.ofList (mapText P (flat ps)))) "\n" =
      (mapLines P ps).map String.ofList := by
  obtain ⟨T, hT⟩ : ∃ T, T = ['\n'].intercalate (mapLines P ps) := ⟨_, rfl⟩
  have hlines : mapLines P ps ≠ [] := List.cons_ne_nil _ _
  have htext : mapText P (flat ps) = T ++ ['\n'] := by
    rw [mapText_flat, flatMap_concat_eq_intercalate hlines, hT]
  -- the text starts with the device's name
  obtain ⟨a, ha, has⟩ : ∃ a, T.head? = some a ∧ isspace a = false := by
    cases hd : P.blkDev with
    | nil => exact absurd hd hname.ne_nil
    | cons a as =>
      refine ⟨a, ?_, hname.no_space a (by rw [hd]; exact List.mem_cons_self)⟩
      rw [hT, mapLines, List.intercalate_cons_cons, hd]
      rfl
  -- it ends with the end of the last range
  obtain ⟨z, hz, hzs⟩ : ∃ z, T.getLast? = some z ∧ isspace z = false := by
    obtain ⟨qs, q, rfl⟩ : ∃ qs q, ps = qs ++ [q] := by
      rcases List.eq_nil_or_concat ps with h | ⟨qs, q, h⟩
      · exact absurd h hps
      · exact ⟨qs, q, by rw [h, List.concat_eq_append]⟩
    obtain ⟨X, hX⟩ : ∃ X, T ++ ['\n'] = X ++ printNat q.2 ++ ['\n'] := by
      rw [← htext, mapText_flat]
      refine ⟨(mapLines P (qs ++ [q])).dropLast.flatMap (· ++ ['\n']) ++ (printNat q.1 ++ [' ']), ?_⟩
      simp [mapLines, rangeLine, List.dropLast]
    obtain ⟨z, hz⟩ := List.getLast?_isSome.2 (printNat_ne_nil q.2) |> Option.isSome_iff_exists.1
    refine ⟨z, ?_, isspace_of_isDigit (printNat_isDigit (List.mem_of_getLast? hz))⟩
    rw [List.append_cancel_right hX, List.getLast?_append, hz]
    rfl
  have hsplit := hB.split (B.trim (String.ofList (mapText P (flat ps))))
  rw [hB.trim, String.toList_ofList, htext, trim_concat ha hz has hzs, hT,
    List.splitOn_intercalate '\n' (newline_notMem_mapLines hname ps) hlines] at hsplit
  rw [← hT, ← htext] at hsplit
  rw [← hsplit, List.map_map]
  simp

/-! ## Mapping -/

/-- File block `k` starts a range at device block `a`, on pages of the reservation and the device. -/
def OnPage (V : Vm) (blksize k a : Nat) : Prop :=
  V.pageSize ∣ k * blksize ∧ V.pageSize ∣ a * blksize

theorem mmapFixed_of_onPage {V : Vm} {blksize k a : Nat} (h : OnPage V blksize k a)
    (device : List UInt8) (len : Nat) :
    MemMapping.mmapFixed V device (k * blksize) len (a * blksize) =
      some (slice device (a * blksize) len) :=
  if_pos h

theorem mmapFixed_of_not_onPage {V : Vm} {blksize k a : Nat} (h : ¬ OnPage V blksize k a)
    (device : List UInt8) (len : Nat) :
    MemMapping.mmapFixed V device (k * blksize) len (a * blksize) = none :=
  if_neg h

/-- The bytes of the ranges on the device. -/
def rangeBytes (device : List UInt8) (blksize : Nat) (ps : List (Nat × Nat)) : List UInt8 :=
  ps.flatMap fun p => slice device (p.1 * blksize) ((p.2 - p.1) * blksize)

/-- **The ranges are mapped exactly when all of them lie on pages.** -/
theorem mapRanges_eq (V : Vm) (device : List UInt8) {blksize : Nat} (hb : 0 < blksize) :
    ∀ (ps : List (Nat × Nat)) (i : Nat), (∀ p ∈ ps, p.1 < p.2 ∧ p.2 * blksize < 2 ^ 64) →
    (StartsOk (OnPage V blksize) i ps → ∃ r,
      MemMapping.mapRanges V device blksize ((ps.map rangeLine).map String.ofList) (i * blksize)
        (covered ps * blksize) = some (rangeBytes device blksize ps, r)) ∧
    (¬ StartsOk (OnPage V blksize) i ps →
      MemMapping.mapRanges V device blksize ((ps.map rangeLine).map String.ofList) (i * blksize)
        (covered ps * blksize) = none) := by
  intro ps
  induction ps with
  | nil =>
    intro i _
    refine ⟨fun _ => ⟨[], ?_⟩, fun h => absurd trivial h⟩
    simp [MemMapping.mapRanges, rangeBytes]
  | cons p ps ih =>
    intro i hps
    obtain ⟨hlt, hmax⟩ := hps p List.mem_cons_self
    obtain ⟨ihok, ihfail⟩ := ih (i + (p.2 - p.1)) fun q hq => hps q (List.mem_cons_of_mem _ hq)
    have hle : p.2 ≤ p.2 * blksize := Nat.le_mul_of_pos_right _ hb
    have hscan : scanTwo (rangeLine p) = some (p.1, p.2) :=
      scanTwo_printNat (by omega) (by omega)
    have hmul : p.1 * blksize ≤ p.2 * blksize := Nat.mul_le_mul_right _ (by omega)
    have hsize : ¬ (p.2 - p.1 > SIZE_MAX / blksize) := by
      have hd : p.2 ≤ SIZE_MAX / blksize := by
        rw [Nat.le_div_iff_mul_le hb, SIZE_MAX]
        omega
      omega
    have hcov : covered (p :: ps) * blksize = (p.2 - p.1) * blksize + covered ps * blksize := by
      rw [covered_cons, Nat.add_mul]
    have hnext : i * blksize + (p.2 - p.1) * blksize = (i + (p.2 - p.1)) * blksize :=
      (Nat.add_mul _ _ _).symm
    have hrest : covered (p :: ps) * blksize - (p.2 - p.1) * blksize = covered ps * blksize := by
      omega
    have hvalid : ¬ (p.2 ≤ p.1 ∨ p.2 - p.1 > SIZE_MAX / blksize ∨
        (p.2 - p.1) * blksize > covered (p :: ps) * blksize) := by
      omega
    have hstart : p.1 * blksize % 2 ^ 64 = p.1 * blksize := Nat.mod_eq_of_lt (by omega)
    rw [List.map_cons, List.map_cons, MemMapping.mapRanges, String.toList_ofList, hscan]
    simp only [Option.bind_eq_bind, Option.bind_some, if_neg hvalid, hstart, hnext, hrest]
    by_cases hpage : OnPage V blksize i p.1
    · rw [mmapFixed_of_onPage hpage, Option.bind_some]
      refine ⟨fun hok => ?_, fun hfail => ?_⟩
      · obtain ⟨r, hr⟩ := ihok hok.2
        rw [hr]
        exact ⟨_, rfl⟩
      · rw [ihfail fun hok => hfail ⟨hpage, hok⟩]
        rfl
    · rw [mmapFixed_of_not_onPage hpage, Option.bind_none]
      exact ⟨fun hok => absurd hok.1 hpage, fun _ => rfl⟩

/-- The bytes of the ranges are those of the blocks. -/
theorem rangeBytes_eq {f : Nat → Nat} {n : Nat} {ps : List (Nat × Nat)} (h : Coalesced f n ps)
    (device : List UInt8) (blksize : Nat) :
    rangeBytes device blksize ps =
      (List.range n).flatMap fun k => slice device (f k * blksize) blksize := by
  have hrun (a m : Nat) : slice device (a * blksize) (m * blksize) =
      (List.range' a m).flatMap fun b => slice device (b * blksize) blksize := by
    induction m generalizing a with
    | zero => simp [slice]
    | succ m ih =>
      rw [List.range'_succ, List.flatMap_cons, ← ih, show (a + 1) * blksize = a * blksize + blksize
        from Nat.succ_mul a blksize, slice_append, Nat.succ_mul, Nat.add_comm]
  calc rangeBytes device blksize ps
      = (ps.flatMap fun p => List.range' p.1 (p.2 - p.1)).flatMap
          fun b => slice device (b * blksize) blksize := by
        rw [rangeBytes, List.flatMap_assoc]
        simp only [hrun]
    _ = ((List.range n).map f).flatMap fun b => slice device (b * blksize) blksize := by
        rw [h.flatMap_range']
    _ = (List.range n).flatMap fun k => slice device (f k * blksize) blksize := by
        rw [List.flatMap_map]

/-! ## The file on the device -/

/-- The number of blocks of the file. -/
def Package.fileBlocks (P : Package) : Nat := (P.data.length - 1) / P.blksize + 1

/-- Block `k` of the file; the last one may be short. -/
def Package.fileBlock (P : Package) (k : Nat) : List UInt8 := slice P.data (k * P.blksize) P.blksize

/-- A block on the device that holds block `k` of the file. -/
def Package.Contains (P : Package) (k : Nat) (block : List UInt8) : Prop :=
  block.length = P.blksize ∧ block.take (P.fileBlock k).length = P.fileBlock k

/-- The device holds each of the first `n` blocks of the file where `f` says. -/
def Package.Holds (P : Package) (f : Nat → Nat) (n : Nat) (device : List UInt8) : Prop :=
  ∀ k < n, P.Contains k (slice device (f k * P.blksize) P.blksize)

theorem length_fileBlock (P : Package) (k : Nat) :
    (P.fileBlock k).length = min P.blksize (P.data.length - k * P.blksize) := by
  simp [Package.fileBlock, slice]

/-- The blocks of the file, one after the other, start with the file. -/
theorem take_blocks {P : Package} {g : Nat → List UInt8} :
    ∀ {n : Nat}, (∀ k < n, k * P.blksize < P.data.length) → (∀ k < n, P.Contains k (g k)) →
      ((List.range n).flatMap g).length = n * P.blksize ∧
        ((List.range n).flatMap g).take P.data.length = P.data.take (n * P.blksize)
  | 0, _, _ => by simp
  | n + 1, hlt, hg => by
    obtain ⟨hlen, htake⟩ := take_blocks (n := n) (fun k hk => hlt k (Nat.lt_succ_of_lt hk))
      fun k hk => hg k (Nat.lt_succ_of_lt hk)
    obtain ⟨hgl, hgt⟩ := hg n (Nat.lt_succ_self n)
    have hn := hlt n (Nat.lt_succ_self n)
    have hsucc : (n + 1) * P.blksize = n * P.blksize + P.blksize := Nat.succ_mul n P.blksize
    rw [List.range_succ, List.flatMap_append, List.flatMap_singleton]
    refine ⟨by rw [List.length_append, hlen, hgl, hsucc], ?_⟩
    have hlast : (g n).take (P.data.length - n * P.blksize) = P.fileBlock n := by
      rw [← hgt, length_fileBlock]
      rcases Nat.le_total P.blksize (P.data.length - n * P.blksize) with h | h
      · rw [Nat.min_eq_left h, List.take_of_length_le (by lia), List.take_of_length_le (by lia)]
      · rw [Nat.min_eq_right h]
    rw [List.take_append, htake, hlen, hlast, hsucc, List.take_add]
    rfl

theorem mul_lt_of_lt_fileBlocks {P : Package} (hb : 0 < P.blksize) (hd : P.data ≠ []) {k : Nat}
    (hk : k < P.fileBlocks) : k * P.blksize < P.data.length := by
  have hpos := List.length_pos_of_ne_nil hd
  have hle : k ≤ (P.data.length - 1) / P.blksize := Nat.le_of_lt_succ hk
  rw [Nat.le_div_iff_mul_le hb] at hle
  omega

theorem fileBlocks_pos (P : Package) : 0 < P.fileBlocks := Nat.succ_pos _

theorem length_le_fileBlocks_mul {P : Package} (hb : 0 < P.blksize) :
    P.data.length ≤ P.fileBlocks * P.blksize := by
  have hlt := Nat.lt_div_mul_add hb (a := P.data.length - 1)
  rw [Package.fileBlocks, Nat.add_mul, Nat.one_mul]
  omega

/-- **The map of a file is accepted exactly when every range of blocks starts on a page, and then
shows the file.** -/
theorem mapBlockFile_mapText {B : AndroidBase} (hB : SplitsLines B) {V : Vm} {P : Package}
    (hname : IsField P.blkDev) (hb : 0 < P.blksize) (hd : P.data ≠ [])
    (hsize : P.data.length + P.blksize < 2 ^ 64) {f : Nat → Nat} {ps : List (Nat × Nat)}
    (h : Coalesced f P.fileBlocks ps) {device : List UInt8}
    (hroom : ∀ k < P.fileBlocks, (f k + 1) * P.blksize < 2 ^ 64)
    (hopen : V.openDevice (String.ofList P.blkDev) = some device)
    (hres : V.reserves (P.fileBlocks * P.blksize) = true) (hheld : P.Holds f P.fileBlocks device) :
    ((∃ m, MemMapping.mapBlockFile B V (String.ofList (mapText P (flat ps))) = some m) ↔
      ∀ k < P.fileBlocks, (k = 0 ∨ f k ≠ f (k - 1) + 1) → OnPage V P.blksize k (f k)) ∧
    ∀ m, MemMapping.mapBlockFile B V (String.ofList (mapText P (flat ps))) = some m →
      m.length = P.data.length ∧ m.mem.take m.length = P.data := by
  obtain ⟨n, hn⟩ : ∃ n, n = P.fileBlocks := ⟨_, rfl⟩
  rw [← hn] at h hroom hres hheld ⊢
  have hpos := List.length_pos_of_ne_nil hd
  have hn0 : 0 < n := hn ▸ fileBlocks_pos P
  have hps : ps ≠ [] := by
    rw [Ne, h.eq_nil_iff]
    lia
  have hlines : (ps.map rangeLine).map String.ofList ≠ [] := by simpa using hps
  -- every number of the text fits a `size_t`
  have hnb : (n - 1) * P.blksize < P.data.length :=
    mul_lt_of_lt_fileBlocks hb hd (by lia)
  have hsucc : n = (n - 1) + 1 := by lia
  have hmul : n * P.blksize = (n - 1) * P.blksize + P.blksize := by
    conv_lhs => rw [hsucc, Nat.add_mul, Nat.one_mul]
  have hle : n ≤ n * P.blksize := Nat.le_mul_of_pos_right _ hb
  have hpslen : ps.length ≤ n := by
    rw [← h.covered_eq]
    exact length_le_covered fun p hp => (h.bounds p hp).1
  have hbounds : ∀ p ∈ ps, p.1 < p.2 ∧ p.2 * P.blksize < 2 ^ 64 := by
    intro p hp
    obtain ⟨hlt, -, k, hk, hk'⟩ := h.bounds p hp
    exact ⟨hlt, hk' ▸ hroom k hk⟩
  have hsizes : scanTwo (rangeLine (P.data.length, P.blksize)) = some (P.data.length, P.blksize) :=
    scanTwo_printNat (by lia) (by lia)
  have hcount : scanZu (printNat ps.length) = some (ps.length, []) := by
    have hnil : scanZu (printNat ps.length ++ []) = some (ps.length, []) :=
      scanZu_printNat (by lia) (by simp)
    rwa [List.append_nil] at hnil
  have hblocks : (P.data.length - 1) / P.blksize + 1 = n := hn.symm
  have hvalid : ¬ (P.data.length = 0 ∨ P.blksize = 0 ∨ n > SIZE_MAX / P.blksize ∨ ps.length = 0 ∨
      ((ps.map rangeLine).map String.ofList).length ≠ ps.length) := by
    have hmax : n ≤ SIZE_MAX / P.blksize := by
      rw [Nat.le_div_iff_mul_le hb, SIZE_MAX]
      lia
    have hpl := List.length_pos_of_ne_nil hps
    rw [List.length_map, List.length_map]
    lia
  have hmap : MemMapping.mapBlockFile B V (String.ofList (mapText P (flat ps))) =
      (MemMapping.mapRanges V device P.blksize ((ps.map rangeLine).map String.ofList)
        (0 * P.blksize) (covered ps * P.blksize)).map
        fun r => { mem := r.1, length := P.data.length, ranges := r.2 } := by
    rw [MemMapping.mapBlockFile, split_mapText hB hname hps, mapLines]
    simp only [List.map_cons, String.toList_ofList, hsizes, hcount, if_neg hlines,
      Option.bind_eq_bind, Option.bind_some, hblocks, if_neg hvalid, hres, if_true, hopen,
      h.covered_eq, Nat.zero_mul]
    cases MemMapping.mapRanges V device P.blksize ((ps.map rangeLine).map String.ofList) 0
      (n * P.blksize) <;> rfl
  obtain ⟨hok, hfail⟩ := mapRanges_eq V device hb ps 0 hbounds
  rw [hmap, ← h.startsOk_iff]
  by_cases hpage : StartsOk (OnPage V P.blksize) 0 ps
  · obtain ⟨r, hr⟩ := hok hpage
    rw [hr, Option.map_some]
    refine ⟨iff_of_true ⟨_, rfl⟩ hpage, ?_⟩
    rintro m hm
    obtain rfl := Option.some.inj hm
    refine ⟨rfl, ?_⟩
    have htake := (take_blocks (fun k hk => mul_lt_of_lt_fileBlocks hb hd (hn ▸ hk)) hheld).2
    dsimp only
    rw [rangeBytes_eq h, htake, List.take_of_length_le (hn ▸ length_le_fileBlocks_mul hb)]
  · rw [hfail hpage, Option.map_none]
    refine ⟨iff_of_false (fun ⟨m, hm⟩ => by cases hm) hpage, ?_⟩
    intro m hm
    cases hm

end Recovery.Uncrypt
