import Recovery.Uncrypt.Produce

/-!
# A block map between `uncrypt` and recovery

* `blockMap_roundTrip` — what a run of `produce_block_map` writes, when `MapBlockFile` accepts its
  map, and that the map then shows the file.
* `onPage_of_dvd` — blocks of whole pages are always accepted.
* `not_every_file_presented` — smaller blocks, or two blocks in one place, are not.

## Both programs

`uncrypt` runs in the system that is about to reboot and writes the map; recovery reads it and maps
the blocks one behind the other.  A file that is encrypted is decrypted and written back to its
blocks, which works only when no two of them are in one place (`HeldAfter`).
-/

set_option autoImplicit false

namespace Recovery.Uncrypt

open Recovery.Lib Recovery.OtaUtil

variable {O : Os} {P : Package} {f : Nat → Nat} {device : List UInt8}

/-- The device holds the file: it does so already, or the file is decrypted to distinct blocks. -/
def HeldAfter (P : Package) (f : Nat → Nat) (device : List UInt8) : Prop :=
  if P.encrypted then Apart P f else P.Holds f P.fileBlocks device

theorem Window.holds {s : UncryptState}
    (hw : Window P f device P.fileBlocks P.fileBlocks s) (hheld : HeldAfter P f device) :
    P.Holds f P.fileBlocks s.device := by
  unfold HeldAfter at hheld
  cases he : P.encrypted with
  | false =>
    rw [he, if_neg (by decide)] at hheld
    rwa [(hw.skipped he).device]
  | true =>
    rw [he, if_pos rfl] at hheld
    exact (hw.buffered he).written hheld (Nat.le_refl _)

/-- **Block-map round trip.**  With encryption every block of the file is written once, in its
place.  The map is accepted exactly when every run of consecutive blocks starts on a page of the
file and of the device, and then shows the file. -/
theorem blockMap_roundTrip {B : AndroidBase} (hB : SplitsLines B) (hO : Answers O P f device)
    (hname : IsField P.blkDev) (hb : 0 < P.blksize) (hd : P.data ≠ [])
    (hmax : P.fileBlocks ≤ INT_MAX) (hsize : P.data.length < 2 ^ 63)
    (hblksize : P.blksize < 2 ^ 63) (hdevice : device.length < 2 ^ 63) (oldTmp : List Char) :
    ∃ s, produceBlockMap O P oldTmp device = .ok (writtenOver oldTmp (mapText P s.ranges), s) ∧
      (P.encrypted = true → Logged P f P.fileBlocks s.writes) ∧
      (P.encrypted = false → s.writes = [] ∧ s.device = device) ∧
      (HeldAfter P f device → oldTmp.length ≤ (mapText P s.ranges).length →
        ∀ V : Vm, V.openDevice (String.ofList P.blkDev) = some s.device →
          V.reserves (P.fileBlocks * P.blksize) = true →
          ((∃ m, MemMapping.mapBlockFile B V
              (String.ofList (writtenOver oldTmp (mapText P s.ranges))) = some m) ↔
            ∀ k < P.fileBlocks, (k = 0 ∨ f k ≠ f (k - 1) + 1) → OnPage V P.blksize k (f k)) ∧
          ∀ m, MemMapping.mapBlockFile B V
              (String.ofList (writtenOver oldTmp (mapText P s.ranges))) = some m →
            m.length = P.data.length ∧ m.mem.take m.length = P.data) := by
  obtain ⟨ps, s, hrun, hranges, hco, hw⟩ := produceBlockMap_ok hO hb hd hmax oldTmp
  refine ⟨s, hrun, fun he => (hw.buffered he).logged,
    fun he => ⟨(hw.skipped he).writes, (hw.skipped he).device⟩, ?_⟩
  intro hheld hold V hopen hres
  rw [writtenOver, hranges, List.drop_of_length_le (hranges ▸ hold), List.append_nil]
  exact mapBlockFile_mapText hB hname hb hd (by omega) hco
    (fun k hk => by have := hO.room k hk; omega) hopen hres (hw.holds hheld)

/-- Blocks of whole pages are accepted wherever they are. -/
theorem onPage_of_dvd {V : Vm} {blksize : Nat} (h : V.pageSize ∣ blksize) (k a : Nat) :
    OnPage V blksize k a :=
  ⟨Nat.dvd_mul_left_of_dvd h k, Nat.dvd_mul_left_of_dvd h a⟩

/-! ## Inputs -/

/-- `Split` and `Trim` as documented, for examples. -/
def libbase : AndroidBase := { AndroidBase.decimal with
  split := fun s delimiters =>
    (s.toList.splitOnP fun c => delimiters.toList.contains c).map String.ofList
  trim := fun s =>
    String.ofList ((s.toList.dropWhile isspace).reverse.dropWhile isspace).reverse }

theorem libbase_splitsLines : SplitsLines libbase where
  split s := by
    have hp : (fun c => "\n".toList.contains c) = (· == '\n') := by
      funext c
      simp [Bool.beq_eq_decide_eq]
    show ((s.toList.splitOnP fun c => "\n".toList.contains c).map String.ofList).map
      String.toList = _
    rw [hp, List.splitOn_eq_splitOnP, List.map_map]
    simp
  trim s := String.toList_ofList

/-- Every call succeeds, and block `k` of the file is block `f k` of the device. -/
def answering (f : Nat → Nat) : Os := ⟨fun _ => true, fun _ k => some (f k.toNat : Int)⟩

def userdata : List Char := ['/', 'd', 'm', '-', '0']

theorem userdata_isField : IsField userdata where
  ne_nil := List.cons_ne_nil _ _
  no_space := by simp [userdata, isspace]

/-- Pages of this size, and one device. -/
def vmOf (pageSize : Nat) (device : List UInt8) : Vm :=
  ⟨pageSize, fun name => if name.toList = userdata then some device else none, fun _ => true⟩

theorem openDevice_userdata (pageSize : Nat) (device : List UInt8) :
    (vmOf pageSize device).openDevice (String.ofList userdata) = some device := by
  have hname : (String.ofList userdata).toList = userdata := String.toList_ofList
  simp [vmOf, hname]

/-- A decrypted file of two blocks and a byte, at blocks 4, 6 and 7. -/
def exampleFile : Package := ⟨[1, 2, 3, 4, 5], 2, userdata, true, false⟩

def exampleBlocks (k : Nat) : Nat := if k = 0 then 4 else 5 + k

theorem exampleFile_answers :
    Answers (answering exampleBlocks) exampleFile exampleBlocks (List.replicate 20 0) where
  succeeds _ := rfl
  fibmap _ _ _ := rfl
  nonzero := by decide
  lt_max := by decide
  room := by decide

/-- A run of `produce_block_map`, and what the memory shows that `MapBlockFile` maps then. -/
def presented (pageSize : Nat) (f : Nat → Nat) (P : Package) (device : List UInt8) :
    Option (Option (List UInt8)) :=
  (produceBlockMap (answering f) P [] device).toOption.map fun r =>
    (MemMapping.mapBlockFile libbase (vmOf pageSize r.2.device) (String.ofList r.1)).map
      fun m => m.mem.take m.length

theorem exampleFile_presented :
    presented 2 exampleBlocks exampleFile (List.replicate 20 0) = some (some [1, 2, 3, 4, 5]) := by
  have happart : HeldAfter exampleFile exampleBlocks (List.replicate 20 0) := by
    show Apart exampleFile exampleBlocks
    unfold Apart
    decide
  obtain ⟨s, hrun, -, -, hmap⟩ := blockMap_roundTrip libbase_splitsLines exampleFile_answers
    userdata_isField (by decide) (by decide) (by decide) (by decide) (by decide) (by decide) []
  obtain ⟨hiff, hshow⟩ := hmap happart (Nat.zero_le _) (vmOf 2 s.device)
    (openDevice_userdata 2 s.device) rfl
  obtain ⟨m, hm⟩ := hiff.2 fun k _ _ => onPage_of_dvd (Nat.dvd_refl 2) k _
  rw [presented, hrun]
  show some ((MemMapping.mapBlockFile libbase (vmOf 2 s.device) _).map _) = _
  rw [hm, Option.map_some, (hshow m hm).2]
  rfl

/-- A file of a quarter of a page, at a quarter of a page, is rejected; of two blocks that are
decrypted to the same place the second one is shown twice. -/
theorem not_every_file_presented :
    presented 4096 (fun _ => 5) ⟨List.replicate 1024 7, 1024, userdata, false, false⟩
      (List.replicate 6144 7) = some none ∧
    presented 1 (fun _ => 3) ⟨[1, 2], 1, userdata, true, false⟩ (List.replicate 8 0) =
      some (some [2, 2]) := by
  decide +kernel

end Recovery.Uncrypt
