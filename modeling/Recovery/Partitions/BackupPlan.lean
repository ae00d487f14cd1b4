import Mathlib.Algebra.BigOperators.Group.List.Basic
import Mathlib.Algebra.Order.Ring.Int
import Recovery.Partitions.RunBackup

/-!
# The plan of a backup and its execution (`partitionmanager.cpp`)

* `listing` — the partitions of a backup list, each with those of its sub-partitions that are kept.
* `calculate_counted` — what is counted; `Details.Tallied` — the count and the bytes of it.
* `backupLoop_spec` — what is backed up, in a run that may stop.
* `listing_eq_iff` — the two are the same if and only if no sub-partition is missing.
* `le_of_enoughSpace` — what the space check says when nothing in it wraps.
* `runBackup_iff` — both, for a whole run; `absent_subpartition` — a run where both fail.

Both traversals follow the same list, but the first counts a sub-partition without asking whether
it is present, and the second leaves it out.
-/

set_option autoImplicit false

namespace Recovery.Partitions

variable {ω : Type} (d : Device ω) (o : Settings)

/-- A sub-partition that backups of its parent include. -/
def Belongs (parent sub : TWPartition) : Prop :=
  sub.canBeBackedUp ∧ sub.isSubPartition ∧ sub.subPartitionOf = parent.mountPoint

instance (parent sub : TWPartition) : Decidable (Belongs parent sub) :=
  inferInstanceAs (Decidable (_ ∧ _ ∧ _))

/-- A partition and its sub-partitions. -/
def family (keep : TWPartition → Bool) (part : TWPartition) : List TWPartition :=
  part :: if part.hasSubPartition then
    o.partitions.filter fun sub => Belongs part sub ∧ keep sub
  else []

/-- What a path of the list is for. -/
def listed (keep : TWPartition → Bool) (path : Str) : List TWPartition :=
  match findPartitionByPath o path with
  | some part => family o keep part
  | none => []

def listing (keep : TWPartition → Bool) : List TWPartition :=
  (backupPaths o).flatMap (listed o keep)

/-! ## What is counted -/

/-- The sizes of partitions. -/
def bytes (parts : List TWPartition) : Nat := (parts.map fun part => part.backupSize.toNat).sum

theorem bytes_append (parts more : List TWPartition) :
    bytes (parts ++ more) = bytes parts + bytes more := by
  rw [bytes, List.map_append, List.sum_append]
  rfl

/-- The number and the bytes are those of the partitions that were counted. -/
structure Details.Tallied (s : Details) : Prop where
  partitionCount : s.partitionCount = s.counted.length
  totalBytes : s.totalBytes.toNat = bytes s.counted % 2 ^ 64

theorem Details.Tallied.count {s : Details} (h : s.Tallied) (part : TWPartition) :
    (s.count part).Tallied := by
  refine ⟨?_, ?_⟩
  · rw [Details.count, List.length_append, ← h.partitionCount]
    rfl
  · have hsum : (s.count part).totalBytes = s.totalBytes + part.backupSize := by
      unfold Details.totalBytes Details.count
      dsimp only
      split
      · rw [UInt64.add_assoc, UInt64.add_comm part.backupSize, UInt64.add_assoc]
      · rw [UInt64.add_assoc]
    rw [hsum, UInt64.toNat_add, h.totalBytes, Details.count, bytes_append, Nat.mod_add_mod]
    simp [bytes]

/-- One that is counted after others. -/
structure Details.Extends (s : Details) (parts : List TWPartition) (s' : Details) : Prop where
  counted : s'.counted = s.counted ++ parts
  tallied : s.Tallied → s'.Tallied

theorem Details.Extends.nil (s : Details) : s.Extends [] s := ⟨(List.append_nil _).symm, id⟩

theorem Details.Extends.trans {s s' s'' : Details} {parts more : List TWPartition}
    (h : s.Extends parts s') (h' : s'.Extends more s'') : s.Extends (parts ++ more) s'' := by
  refine ⟨?_, h'.tallied ∘ h.tallied⟩
  rw [h'.counted, h.counted, List.append_assoc]

theorem Details.count_extends (s : Details) (part : TWPartition) :
    s.Extends [part] (s.count part) :=
  ⟨rfl, fun h => h.count part⟩

theorem countSubs_extends (parent : TWPartition) (subs : List TWPartition) (s : Details) :
    s.Extends (subs.filter fun sub => Belongs parent sub ∧ sub.isPresent)
      (subs.foldl (fun s sub =>
        if sub.canBeBackedUp ∧ sub.isPresent ∧ sub.isSubPartition ∧
            sub.subPartitionOf = parent.mountPoint then s.count sub
        else s) s) := by
  induction subs generalizing s with
  | nil => exact .nil s
  | cons sub subs ih =>
    rw [List.foldl_cons]
    by_cases hsub : Belongs parent sub ∧ sub.isPresent
    · rw [List.filter_cons_of_pos (by simpa using hsub),
        if_pos ⟨hsub.1.1, hsub.2, hsub.1.2.1, hsub.1.2.2⟩]
      exact (s.count_extends sub).trans (ih _)
    · rw [List.filter_cons_of_neg (by simpa using hsub),
        if_neg (fun h => hsub ⟨⟨h.1, h.2.2.1, h.2.2.2⟩, h.2.1⟩)]
      exact ih s

theorem countPath_extends (path : Str) (s : Details) :
    s.Extends (listed o (·.isPresent) path) (countPath o s path) := by
  rw [listed, countPath]
  cases findPartitionByPath o path with
  | none => exact .nil s
  | some part =>
    dsimp only [family]
    split
    · exact (s.count_extends part).trans (countSubs_extends part o.partitions _)
    · exact s.count_extends part

/-- **What is counted**: of the sub-partitions, those that are present. -/
theorem calculate_extends :
    (⟨0, 0, 0, []⟩ : Details).Extends (listing o (·.isPresent)) (calculate o) := by
  have hpaths : ∀ (paths : List Str) (s : Details),
      s.Extends (paths.flatMap (listed o (·.isPresent))) (paths.foldl (countPath o) s) := by
    intro paths
    induction paths with
    | nil => exact .nil
    | cons path paths ih =>
      intro s
      exact (countPath_extends o path s).trans (ih _)
  exact hpaths _ _

theorem calculate_counted : (calculate o).counted = listing o (·.isPresent) :=
  (calculate_extends o).counted

theorem calculate_tallied : (calculate o).Tallied :=
  (calculate_extends o).tallied ⟨rfl, rfl⟩

/-! ## What is backed up -/

/-- A run goes on through `parts`, unless it stops before their end. -/
structure Run.Goes (s : Run ω) (parts : List TWPartition) (r : Bool × Run ω) : Prop where
  leading : ∃ begun, begun <+: parts ∧ r.2.backedUp = s.backedUp ++ begun
  finished : r.1 = true → r.2.backedUp = s.backedUp ++ parts

theorem Run.Goes.nil (s : Run ω) : s.Goes [] (true, s) :=
  ⟨⟨[], List.prefix_rfl, (List.append_nil _).symm⟩, fun _ => (List.append_nil _).symm⟩

/-- Only one that did not stop goes on. -/
theorem Run.Goes.andThen {s : Run ω} {parts more : List TWPartition} {r r' : Bool × Run ω}
    (h : s.Goes parts r) (h' : r.2.Goes more r') :
    s.Goes (parts ++ more) (if r.1 then r' else (false, r.2)) := by
  split
  · rename_i hok
    have hall := h.finished hok
    obtain ⟨begun, hbegun, hbackedUp⟩ := h'.leading
    refine ⟨⟨parts ++ begun, (List.prefix_append_right_inj parts).2 hbegun, ?_⟩, fun hok' => ?_⟩
    · rw [hbackedUp, hall, List.append_assoc]
    · rw [h'.finished hok', hall, List.append_assoc]
  · obtain ⟨begun, hbegun, hbackedUp⟩ := h.leading
    exact ⟨⟨begun, hbegun.trans (List.prefix_append parts more), hbackedUp⟩, nofun⟩

theorem backupOne_goes (part : TWPartition) (s : Run ω) :
    s.Goes [part] (backupOne d o part s) := by
  have hone {ok : Bool} {world : ω} : s.Goes [part] (ok, ⟨world, s.backedUp ++ [part]⟩) :=
    ⟨⟨[part], List.prefix_rfl, rfl⟩, fun _ => rfl⟩
  rw [backupOne]
  dsimp only
  split
  · split <;> exact hone
  · exact hone

theorem backupSubs_goes (parent : TWPartition) (subs : List TWPartition) (s : Run ω) :
    s.Goes (subs.filter fun sub => Belongs parent sub ∧ true) (backupSubs d o parent subs s) := by
  induction subs generalizing s with
  | nil => exact .nil s
  | cons sub subs ih =>
    rw [backupSubs]
    by_cases hsub : Belongs parent sub
    · rw [List.filter_cons_of_pos (by simpa using hsub), if_pos (by simpa [Belongs] using hsub)]
      exact (backupOne_goes d o sub s).andThen (ih _)
    · rw [List.filter_cons_of_neg (by simpa using hsub), if_neg (by simpa [Belongs] using hsub)]
      exact ih s

theorem backupPartition_goes (part : TWPartition) (s : Run ω) :
    s.Goes (family o (fun _ => true) part) (backupPartition d o part s) := by
  have hsubs (s : Run ω) : s.Goes
      (if part.hasSubPartition then o.partitions.filter fun sub => Belongs part sub ∧ true else [])
      (if part.hasSubPartition then backupSubs d o part o.partitions s else (true, s)) := by
    split
    · exact backupSubs_goes d o part o.partitions s
    · exact .nil s
  exact (backupOne_goes d o part s).andThen (hsubs _)

/-- **What is backed up**: the listed partitions with all of their sub-partitions. -/
theorem backupLoop_goes (paths : List Str) (s : Run ω) :
    s.Goes (paths.flatMap (listed o fun _ => true)) (backupLoop d o paths s) := by
  induction paths generalizing s with
  | nil => exact .nil s
  | cons path paths ih =>
    have hworld (world : ω) {parts : List TWPartition} {r : Bool × Run ω}
        (h : Run.Goes { s with world } parts r) : s.Goes parts r := ⟨h.leading, h.finished⟩
    rw [backupLoop, List.flatMap_cons]
    dsimp only
    split
    · exact ⟨⟨[], List.nil_prefix, (List.append_nil _).symm⟩, nofun⟩
    · rw [listed]
      cases findPartitionByPath o path with
      | none => exact hworld _ (ih _)
      | some part => exact hworld _ ((backupPartition_goes d o part _).andThen (ih _))

/-! ## When they are the same -/

/-- The sub-partitions of what is listed are present. -/
def AllPresent : Prop :=
  ∀ path ∈ backupPaths o, ∀ part, findPartitionByPath o path = some part →
    part.hasSubPartition → ∀ sub ∈ o.partitions, Belongs part sub → sub.isPresent

theorem flatMap_eq_iff {α β : Type} {f g : α → List β} (h : ∀ a, (f a).Sublist (g a))
    (l : List α) : l.flatMap f = l.flatMap g ↔ ∀ a ∈ l, f a = g a := by
  have hsublist : ∀ l : List α, (l.flatMap f).Sublist (l.flatMap g) := by
    intro l
    induction l with
    | nil => exact .slnil
    | cons a l ih => exact (h a).append ih
  induction l with
  | nil => simp
  | cons a l ih =>
    rw [List.flatMap_cons, List.flatMap_cons, List.forall_mem_cons]
    refine Iff.trans ⟨fun heq => ?_, ?_⟩ (and_congr_right fun _ => ih)
    · have hlength := congrArg List.length heq
      rw [List.length_append, List.length_append] at hlength
      have hhead := (h a).length_le
      have htail := (hsublist l).length_le
      exact List.append_inj heq (by lia)
    · rintro ⟨ha, hl⟩
      rw [ha, hl]

theorem listed_sublist (path : Str) :
    (listed o (·.isPresent) path).Sublist (listed o (fun _ => true) path) := by
  unfold listed
  cases findPartitionByPath o path with
  | none => exact .slnil
  | some part =>
    unfold family
    refine .cons_cons part ?_
    split
    · exact List.monotone_filter_right _ (by simp +contextual)
    · exact .slnil

theorem listed_eq_iff (path : Str) :
    listed o (·.isPresent) path = listed o (fun _ => true) path ↔
      ∀ part, findPartitionByPath o path = some part →
        part.hasSubPartition → ∀ sub ∈ o.partitions, Belongs part sub → sub.isPresent := by
  unfold listed
  cases findPartitionByPath o path with
  | none => simp
  | some part =>
    unfold family
    cases hsub : part.hasSubPartition with
    | false => simp [hsub]
    | true =>
      have hfilter : o.partitions.filter (fun sub => Belongs part sub ∧ sub.isPresent) =
          (o.partitions.filter fun sub => Belongs part sub ∧ true).filter (·.isPresent) := by
        rw [List.filter_filter]
        exact List.filter_congr (by simp [Bool.and_comm])
      dsimp only
      rw [hsub, if_pos rfl, if_pos rfl, hfilter, List.cons_inj_right, List.filter_eq_self]
      simp [hsub]

theorem listing_eq_iff :
    listing o (·.isPresent) = listing o (fun _ => true) ↔ AllPresent o :=
  (flatMap_eq_iff (listed_sublist o) _).trans (forall₂_congr fun path _ => listed_eq_iff o path)

/-! ## The space check -/

/-- 32 MB. -/
theorem toNat_reserve : reserve.toNat = 32 * 2 ^ 20 := rfl

/-- The check is one of natural numbers, if nothing wraps. -/
theorem le_of_enoughSpace {total free : UInt64} (hcheck : o.adbbackup = false)
    (hdisable : o.disableFreeSpace = 0) (hfree : 32 * 2 ^ 20 ≤ free.toNat)
    (h : enoughSpace o total free = true) : total.toNat + 32 * 2 ^ 20 ≤ free.toNat := by
  have hle : total.toNat ≤ (free - reserve).toNat := by
    simpa [enoughSpace, hcheck, hdisable, UInt64.lt_iff_toNat_lt] using h
  have hreserve : reserve ≤ free := UInt64.le_iff_toNat_le.2 (toNat_reserve.trans_le hfree)
  rw [UInt64.toNat_sub_of_le _ _ hreserve, toNat_reserve] at hle
  omega

/-! ## Runs -/

/-- The storage partition. -/
def storage : Option TWPartition := findPartitionByPath o o.currentStoragePath

/-- The space check is on. -/
def Checks : Prop := o.adbbackup = false ∧ o.disableFreeSpace = 0

/-- What the plan says is what is done: a run that is finished has backed up what was counted,
and one that is not, a part of it; and it was started on a partition with enough space. -/
structure Report.Faithful (r : Report) : Prop where
  begun : ∀ finished backedUp, r.loop = some (finished, backedUp) → backedUp <+: r.details.counted
  backedUp : ∀ backedUp, r.loop = some (true, backedUp) → backedUp = r.details.counted ∧
    r.details.partitionCount = backedUp.length ∧ r.details.totalBytes.toNat = bytes backedUp ∧
    ∀ n, r.header = some n → n = backedUp.length
  space : Checks o → r.loop ≠ none → ∃ part, storage o = some part ∧
    bytes r.details.counted + 32 * 2 ^ 20 ≤ part.free.toNat

/-- The backup starts, if its first steps succeed: something is listed, there is a storage
partition, and the space check, in `unsigned long long`, allows it. -/
def Starts : Prop :=
  (∃ path ∈ backupPaths o, findPartitionByPath o path ≠ none) ∧
    ∃ part, storage o = some part ∧
      enoughSpace o (UInt64.ofNat (bytes (listing o (·.isPresent)))) part.free

/-- All sub-partitions are present, the sum of the sizes does not wrap, and 32 MB are free. -/
structure Sound : Prop where
  present : AllPresent o
  bytes_lt : bytes (listing o (·.isPresent)) < 2 ^ 64
  free : Checks o → ∀ part, storage o = some part → 32 * 2 ^ 20 ≤ part.free.toNat

theorem partitionCount_eq_zero_iff :
    (calculate o).partitionCount = 0 ↔ ∀ path ∈ backupPaths o, findPartitionByPath o path = none := by
  rw [(calculate_tallied o).partitionCount, calculate_counted, List.length_eq_zero_iff, listing,
    List.flatMap_eq_nil_iff]
  refine forall₂_congr fun path _ => ?_
  rw [listed]
  cases findPartitionByPath o path <;> simp [family]

theorem totalBytes_eq :
    (calculate o).totalBytes = UInt64.ofNat (bytes (listing o (·.isPresent))) := by
  rw [← UInt64.toNat_inj, (calculate_tallied o).totalBytes, calculate_counted, UInt64.toNat_ofNat']

/-- What a run comes to. -/
inductive Ends : Report → Prop where
  | early (header : Option Nat) (hheader : ∀ n, header = some n → n = (calculate o).partitionCount) :
      Ends ⟨calculate o, header, none⟩
  | started (header : Option Nat)
      (hheader : ∀ n, header = some n → n = (calculate o).partitionCount)
      (hcount : (calculate o).partitionCount ≠ 0) (part : TWPartition)
      (hstorage : storage o = some part)
      (hspace : enoughSpace o (calculate o).totalBytes part.free = true) (world : ω) :
      Ends ⟨calculate o, header, some ((backupLoop d o (backupPaths o) ⟨world, []⟩).1,
        (backupLoop d o (backupPaths o) ⟨world, []⟩).2.backedUp)⟩

/-- **What a run does**. -/
theorem runBackup_ends (world : ω) : Ends d o (runBackup d o world) := by
  rw [runBackup]
  dsimp only
  by_cases hcount : (calculate o).partitionCount = 0
  · rw [if_pos hcount]
    exact .early none nofun
  · rw [if_neg hcount]
    generalize (if o.adbbackup = true then d.writeHeader (calculate o).partitionCount world
      else (true, world)) = first
    obtain ⟨_ | _, world⟩ := first
    · exact .early none nofun
    · have hheader : ∀ n,
          (if o.adbbackup = true then some (calculate o).partitionCount else none) = some n →
            n = (calculate o).partitionCount := by
        intro n hn
        split at hn
        · exact (Option.some.inj hn).symm
        · cases hn
      cases hstorage : findPartitionByPath o o.currentStoragePath with
      | none => exact .early _ hheader
      | some part =>
        dsimp only
        cases hspace : enoughSpace o (calculate o).totalBytes part.free with
        | false => exact .early _ hheader
        | true =>
          generalize (if (!o.adbbackup ||
            (o.isEncrypted == 0 || (o.isEncrypted != 0 && o.isDecrypted != 0))) = true then
              d.recursiveMkdir world
            else (true, world)) = second
          obtain ⟨_ | _, world⟩ := second
          · exact .early _ hheader
          · exact .started _ hheader hcount part hstorage hspace world

theorem runBackup_details (world : ω) : (runBackup d o world).details = calculate o := by
  have hends := runBackup_ends d o world
  generalize runBackup d o world = r at hends
  cases hends <;> rfl

theorem calculate_bytes (hlt : bytes (listing o (·.isPresent)) < 2 ^ 64) :
    (calculate o).totalBytes.toNat = bytes (listing o (·.isPresent)) := by
  rw [(calculate_tallied o).totalBytes, calculate_counted, Nat.mod_eq_of_lt hlt]

theorem starts_iff : Starts o ↔ (calculate o).partitionCount ≠ 0 ∧
    ∃ part, storage o = some part ∧ enoughSpace o (calculate o).totalBytes part.free := by
  rw [Starts, totalBytes_eq, Ne, partitionCount_eq_zero_iff]
  simp only [not_forall, exists_prop]

/-- A plan that is sound is carried out. -/
theorem faithful_of_sound (h : Starts o → Sound o) (world : ω) :
    (runBackup d o world).Faithful o := by
  have hends := runBackup_ends d o world
  generalize runBackup d o world = r at hends
  cases hends with
  | early header hheader => exact ⟨nofun, nofun, fun _ h => absurd rfl h⟩
  | started header hheader hcount part hstorage hspace world =>
    have hsound := h ((starts_iff o).2 ⟨hcount, part, hstorage, hspace⟩)
    have hgoes := backupLoop_goes d o (backupPaths o) ⟨world, []⟩
    have hwork : (backupPaths o).flatMap (listed o fun _ => true) = (calculate o).counted :=
      ((listing_eq_iff o).2 hsound.present).symm.trans (calculate_counted o).symm
    have htotal := calculate_bytes o hsound.bytes_lt
    rw [hwork] at hgoes
    refine ⟨fun finished backedUp hloop => ?_, fun backedUp hloop => ?_, fun hchecks _ => ?_⟩
    · cases hloop
      obtain ⟨begun, hbegun, hbackedUp⟩ := hgoes.leading
      rw [hbackedUp]
      exact hbegun
    · obtain ⟨hfinished, hbackedUp⟩ := Prod.mk.inj (Option.some.inj hloop)
      have heq : backedUp = (calculate o).counted := hbackedUp.symm.trans (hgoes.finished hfinished)
      refine ⟨heq, ?_, ?_, fun n hn => ?_⟩
      · rw [heq]
        exact (calculate_tallied o).partitionCount
      · rw [heq, calculate_counted]
        exact htotal
      · rw [hheader n hn, heq]
        exact (calculate_tallied o).partitionCount
    · refine ⟨part, hstorage, ?_⟩
      have hle := le_of_enoughSpace o hchecks.1 hchecks.2 (hsound.free hchecks part hstorage) hspace
      rw [htotal] at hle
      rw [calculate_counted]
      exact hle

/-- Everything succeeds. -/
def succeeds (ω : Type) : Device ω where
  writeHeader := fun _ world => (true, world)
  recursiveMkdir := fun world => (true, world)
  stopBackup := fun world => (false, world)
  backup := fun _ world => (true, world)
  makeDigest := fun _ world => (true, world)

theorem succeeds_one (part : TWPartition) (s : Run ω) :
    (backupOne (succeeds ω) o part s).1 = true := by
  rw [backupOne]
  dsimp only [succeeds]
  split
  · split <;> rfl
  · contradiction

theorem succeeds_subs (parent : TWPartition) (subs : List TWPartition) (s : Run ω) :
    (backupSubs (succeeds ω) o parent subs s).1 = true := by
  induction subs generalizing s with
  | nil => rfl
  | cons sub subs ih =>
    rw [backupSubs]
    split
    · dsimp only
      rw [if_pos (succeeds_one o sub s)]
      exact ih _
    · exact ih s

theorem succeeds_partition (part : TWPartition) (s : Run ω) :
    (backupPartition (succeeds ω) o part s).1 = true := by
  rw [backupPartition]
  dsimp only
  rw [if_pos (succeeds_one o part s)]
  split
  · exact succeeds_subs o part o.partitions _
  · rfl

theorem succeeds_loop (paths : List Str) (s : Run ω) :
    (backupLoop (succeeds ω) o paths s).1 = true := by
  induction paths generalizing s with
  | nil => rfl
  | cons path paths ih =>
    rw [backupLoop]
    dsimp only [succeeds]
    rw [if_neg nofun]
    cases findPartitionByPath o path with
    | none => exact ih _
    | some part =>
      dsimp only
      rw [← succeeds, if_pos (succeeds_partition o part _)]
      exact ih _

theorem succeeds_run (h : Starts o) (world : ω) :
    (runBackup (succeeds ω) o world).loop = some (true, listing o fun _ => true) := by
  obtain ⟨hcount, part, hstorage, hspace⟩ := (starts_iff o).1 h
  have hfinished := succeeds_loop o (backupPaths o) ⟨world, []⟩
  have hbackedUp := (backupLoop_goes (succeeds ω) o (backupPaths o) ⟨world, []⟩).finished hfinished
  have hfirst : (if o.adbbackup = true then
      (succeeds ω).writeHeader (calculate o).partitionCount world else (true, world)) =
        (true, world) := by
    split <;> rfl
  have hsecond : (if (!o.adbbackup ||
      (o.isEncrypted == 0 || (o.isEncrypted != 0 && o.isDecrypted != 0))) = true then
        (succeeds ω).recursiveMkdir world else (true, world)) = (true, world) := by
    split <;> rfl
  rw [storage] at hstorage
  rw [runBackup]
  dsimp only
  rw [if_neg hcount, hfirst, if_neg nofun, hstorage]
  dsimp only
  rw [hspace, if_neg nofun, hsecond, if_neg nofun]
  exact congrArg some (Prod.ext hfinished hbackedUp)

/-- **A backup is what was planned, in every run, if and only if the plan is sound or nothing
starts.** -/
theorem runBackup_iff [Inhabited ω] :
    (∀ (d : Device ω) (world : ω), (runBackup d o world).Faithful o) ↔ (Starts o → Sound o) := by
  refine ⟨fun h hstarts => ?_, fun h d world => faithful_of_sound d o h world⟩
  have hfaithful := h (succeeds ω) default
  have hloop := succeeds_run o hstarts (default : ω)
  obtain ⟨heq, -, htotal, -⟩ := hfaithful.backedUp _ hloop
  rw [runBackup_details] at heq htotal
  have hlisting : listing o (fun _ => true) = listing o (·.isPresent) :=
    heq.trans (calculate_counted o)
  refine ⟨(listing_eq_iff o).1 hlisting.symm, ?_, fun hchecks part hstorage => ?_⟩
  · rw [← hlisting, ← htotal]
    exact UInt64.toNat_lt _
  · obtain ⟨part', hstorage', hspace⟩ := hfaithful.space hchecks (by rw [hloop]; nofun)
    cases hstorage.symm.trans hstorage'
    omega

/-- `/data`, of 100 MB. -/
def data : TWPartition where
  mountPoint := [47, 100, 97, 116, 97]
  symlinkMountPoint := []
  backupMethod := .files
  backupSize := 100 * 1024 * 1024
  free := 0
  canBeBackedUp := true
  isPresent := true
  hasSubPartition := true
  isSubPartition := false
  subPartitionOf := []

/-- `/datadata`, whose block device is not there. -/
def datadata : TWPartition :=
  { data with
    mountPoint := data.mountPoint ++ [100, 97, 116, 97]
    backupSize := 0
    isPresent := false
    hasSubPartition := false
    isSubPartition := true
    subPartitionOf := data.mountPoint }

/-- `/sd`, with 1 MB free. -/
def sd : TWPartition :=
  { data with
    mountPoint := [47, 115, 100]
    free := 1024 * 1024
    hasSubPartition := false }

def twoOfOne : Settings where
  partitions := [data, datadata, sd]
  androidRootPath := system
  backupList := data.mountPoint ++ [semicolon]
  currentStoragePath := sd.mountPoint
  adbbackup := false
  skipDigest := 1
  disableFreeSpace := 0
  isEncrypted := 0
  isDecrypted := 0

/-- **One partition is counted and two are backed up**, 100 MB to where 1 MB is free. -/
theorem absent_subpartition :
    (runBackup (succeeds Unit) twoOfOne ()).details.partitionCount = 1 ∧
      (runBackup (succeeds Unit) twoOfOne ()).loop = some (true, [data, datadata]) ∧
      ¬ (runBackup (succeeds Unit) twoOfOne ()).Faithful twoOfOne ∧
      Checks twoOfOne ∧ storage twoOfOne = some sd ∧
      sd.free.toNat < (calculate twoOfOne).totalBytes.toNat := by
  have hcount : (runBackup (succeeds Unit) twoOfOne ()).details.partitionCount = 1 := by
    decide +kernel
  have hloop : (runBackup (succeeds Unit) twoOfOne ()).loop = some (true, [data, datadata]) := by
    decide +kernel
  refine ⟨hcount, hloop, fun hfaithful => ?_, ⟨rfl, rfl⟩, by decide +kernel, by decide +kernel⟩
  obtain ⟨-, hlength, -⟩ := hfaithful.backedUp _ hloop
  rw [hcount] at hlength
  cases hlength

end Recovery.Partitions
