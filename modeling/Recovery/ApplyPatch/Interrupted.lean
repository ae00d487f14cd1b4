import Recovery.ApplyPatch.Effects

/-!
# Interrupted runs of `applypatch`

* `Job` — a call that turns `source` into `target` on one partition; `Job.Inv` — what every run
  keeps.
* `generateTarget_spec`, `applypatch_spec` — one run, under any faults and without faults.
* `Job.recoverable_while_copy_kept` — histories of interrupted runs; `copy_lost` — why the copy
  has to be kept.

## Histories

A history is a list of runs, each with the faults that hit it and perhaps a loss of power between
two writes.  The invariant is that the partition holds the source, or the target, or that the copy
in the cache does; it is lost with the copy, and `copy_lost` is such a history.
-/

set_option autoImplicit false

namespace Recovery.ApplyPatch

open Recovery.Lib Recovery.OtaUtil

/-! ## Updating a partition -/

/-- A call of `applypatch` that turns `source` into `target` on the partition `part`, whose
content is `dev` before the first run.  File names, hashes and the patch are those of the two
files, and no other content that a run can meet has a listed hash. -/
structure Job (E : Env) where
  args : Args
  part : String
  dev : Bytes
  source : Bytes
  target : Bytes
  sourcePairs : List (Nat × String)
  targetPairs : List (Nat × String)
  patch : Value
  toUse : Nat
  held : dev.take source.length = source
  fits : target.length ≤ dev.length
  distinct : E.sha1 source ≠ E.sha1 target
  sourceIsPartition : isPartitionName args.sourceFilename = true
  targetIsEmmc : hasType args.target "EMMC:" = true
  targetType : (E.base.split args.target ":").head? = some "EMMC"
  sourceName : partitionName E args.sourceFilename = some (part, sourcePairs)
  targetName : partitionName E args.target = some (part, targetPairs)
  sourceWellFormed : WellFormed dev sourcePairs
  targetWellFormed : WellFormed dev targetPairs
  sourceListed : ∃ p ∈ sourcePairs, p.1 = source.length ∧ parseSha1 p.2 = some (E.sha1 source)
  targetListed : ∃ p ∈ targetPairs, p.1 = target.length ∧ parseSha1 p.2 = some (E.sha1 target)
  targetHash : parseSha1 args.targetSha1Str = some (E.sha1 target)
  sourcePatched : findMatchingPatch (E.sha1 source) args.patchSha1Str = some toUse
  targetUnpatched : findMatchingPatch (E.sha1 target) args.patchSha1Str = none
  patchListed : args.patchData[toUse]? = some patch
  patchIsBlob : patch.isBlob = true
  patched : ∃ apply, patchFunction E patch.data args.bonusData = some apply ∧
    apply source = (true, target)
  copyNotPart : E.cacheTempSource ≠ part
  copyIsFile : isPartitionName E.cacheTempSource = false
  noCollision : ∀ k ≤ target.length, ∀ p ∈ sourcePairs ++ targetPairs,
    parseSha1 p.2 = some (E.sha1 ((partly dev target k).take p.1)) →
      (partly dev target k).take p.1 = source ∨ (partly dev target k).take p.1 = target
  copyNoCollision : ∀ n ≤ source.length,
    (findMatchingPatch (E.sha1 (source.take n)) args.patchSha1Str).isSome →
      source.take n = source

namespace Job

variable {E : Env} (J : Job E)

abbrev Files := String → Option Bytes

/-- The partition holds a complete file. -/
def Holds (files : Files) (file : Bytes) : Prop :=
  ∃ dev, files J.part = some dev ∧ dev.take file.length = file

/-- `cache_temp_source` holds a complete copy of the source. -/
def Copied (files : Files) : Prop := files E.cacheTempSource = some J.source

/-- The files before the first run: a copy that is there may be used only when it is the
source's. -/
def Start (files : Files) : Prop :=
  files J.part = some J.dev ∧
    ∀ copy, files E.cacheTempSource = some copy →
      (findMatchingPatch (E.sha1 copy) J.args.patchSha1Str).isSome → copy = J.source

/-- The partition holds the source, or its copy is complete, or it holds the target. -/
def Recoverable (files : Files) : Prop :=
  J.Holds files J.source ∨ J.Copied files ∨ J.Holds files J.target

/-- What runs keep: `k` bytes of the target are written, a copy that can be used is the source's,
and the files are recoverable. -/
structure Inv (files : Files) (k : Nat) : Prop where
  part : files J.part = some (partly J.dev J.target k)
  copy : ∀ copy, files E.cacheTempSource = some copy →
    (findMatchingPatch (E.sha1 copy) J.args.patchSha1Str).isSome → copy = J.source
  recoverable : J.Recoverable files

variable {J}

theorem Start.holds {files : Files} (h : J.Start files) : J.Holds files J.source :=
  ⟨_, h.1, J.held⟩

theorem Start.inv {files : Files} (h : J.Start files) : J.Inv files 0 where
  part := by rw [partly_zero]; exact h.1
  copy := h.2
  recoverable := .inl h.holds

theorem partly_of_le {k : Nat} (h : J.target.length ≤ k) :
    partly J.dev J.target k = partly J.dev J.target J.target.length := by
  rw [partly, partly, List.take_of_length_le h, List.take_length]

theorem partly_min (k : Nat) :
    partly J.dev J.target k = partly J.dev J.target (min k J.target.length) := by
  rcases Nat.le_total k J.target.length with h | h
  · rw [Nat.min_eq_left h]
  · rw [Nat.min_eq_right h, partly_of_le h]

theorem Inv.full {files : Files} {k : Nat} (h : J.Inv files k) (hk : J.target.length ≤ k) :
    J.Holds files J.target := ⟨_, h.part, take_partly J.fits hk⟩

theorem Inv.of_files {files files' : Files} {k : Nat} (h : J.Inv files k)
    (hf : files' = files) : J.Inv files' k := hf ▸ h

/-- What `LoadFileContents` finds on the partition is the source or the target. -/
theorem firstMatch_cases {k : Nat} {pairs : List (Nat × String)} {file : FileContents}
    (hp : ∀ p ∈ pairs, p ∈ J.sourcePairs ++ J.targetPairs)
    (h : firstMatch E (partly J.dev J.target k) pairs = some file) :
    file.sha1 = E.sha1 file.data ∧ (file.data = J.source ∨ file.data = J.target) ∧
      (partly J.dev J.target k).take file.data.length = file.data := by
  obtain ⟨p, hmem, hsha, hdata, hsha1⟩ := firstMatch_some h
  rw [partly_min] at hsha hdata ⊢
  refine ⟨hsha1, ?_, by rw [hdata, List.length_take, ← List.take_take, List.take_length]⟩
  rw [hdata]
  exact J.noCollision _ (Nat.min_le_right _ _) p (hp p hmem) hsha

theorem target_split (J : Job E) :
    ∃ rest, E.base.split J.args.target ":" = "EMMC" :: J.part :: rest := by
  have hname := J.targetName
  have htype := J.targetType
  unfold partitionName at hname
  split at hname
  · rename_i type dev rest heq
    rw [heq] at htype
    obtain rfl : type = "EMMC" := by simpa using htype
    refine ⟨rest, ?_⟩
    split at hname
    · cases hname
    · split at hname
      · cases hname
      · obtain ⟨pairs, -, hp⟩ := Option.map_eq_some_iff.1 hname
        rw [heq, show dev = J.part from congrArg Prod.fst hp]
  · cases hname

theorem writeToPartition_spec {k : Nat} {s : St}
    (hs : s.files J.part = some (partly J.dev J.target k)) :
    Outcome (writeToPartition E J.target J.args.target) s
      (fun b s' => b = false ∧ SameElse J.part s s' ∧ Calm s s' ∧
        ∃ k' ≥ k, s'.files J.part = some (partly J.dev J.target k') ∧
          (Quiet s .write → J.target.length ≤ k'))
      fun _ s' => SameElse J.part s s' ∧ ¬ Quiet s .write ∧
        ∃ k' ≥ k, s'.files J.part = some (partly J.dev J.target k') := by
  obtain ⟨rest, hsplit⟩ := J.target_split
  unfold writeToPartition
  simp only [hsplit, ne_eq, not_true_eq_false, if_false]
  refine (openFile_probe .write J.part s).head ?_ ?_ ?_
  · intro s₁ hf₁ hc₁
    rw [hs]
    refine (attempts_spec 1 J.fits (by rw [hf₁, hs])).weaken ?_ ?_
    · rintro b s₂ ⟨hb, hse, hc₂, k', hk, hk', hq⟩
      exact ⟨hb, SameElse.trans (.of_files hf₁) hse, hc₁.trans hc₂, k', hk, hk',
        fun h => hq (hc₁ _ h)⟩
    · rintro e s₂ ⟨hse, hq, hk⟩
      exact ⟨SameElse.trans (.of_files hf₁) hse, fun h => hq (hc₁ _ h), hk⟩
  · exact fun s₁ hf₁ hc₁ hq => ⟨rfl, .of_files hf₁, hc₁, k, le_rfl, by rw [hf₁, hs],
      fun h => absurd h hq⟩
  · exact fun e s₁ hf₁ hq => ⟨.of_files hf₁, hq, k, le_rfl, by rw [hf₁, hs]⟩

/-- The run may overwrite the copy: the partition holds one of the files, or nothing goes wrong
while the copy is rewritten. -/
def MaySave (J : Job E) (s : St) : Prop :=
  J.Holds s.files J.source ∨ J.Holds s.files J.target ∨ Quiet s .save

theorem MaySave.step {s s' : St} (h : J.MaySave s) (hf : s'.files = s.files) (hc : Calm s s') :
    J.MaySave s' := by
  rcases h with h | h | h
  · exact .inl (hf ▸ h)
  · exact .inr (.inl (hf ▸ h))
  · exact .inr (.inr (hc _ h))

/-- While the copy is being rewritten, the partition must hold one of the files. -/
theorem Inv.saving {s s' : St} {k : Nat} (h : J.Inv s.files k) (hm : J.MaySave s)
    (hse : SameElse E.cacheTempSource s s') (hq : ¬ Quiet s .save)
    (hcopy : s'.files E.cacheTempSource = s.files E.cacheTempSource ∨
      ∃ n, s'.files E.cacheTempSource = some (J.source.take n)) : J.Inv s'.files k := by
  have hpart : s'.files J.part = s.files J.part := hse J.part J.copyNotPart.symm
  have hholds {file : Bytes} (hh : J.Holds s.files file) : J.Holds s'.files file := by
    obtain ⟨dev, hdev, ht⟩ := hh
    exact ⟨dev, hpart.trans hdev, ht⟩
  refine ⟨hpart.trans h.part, ?_, ?_⟩
  · intro copy hc hl
    rcases hcopy with hcopy | ⟨n, hcopy⟩
    · exact h.copy copy (hcopy.symm.trans hc) hl
    · obtain rfl := Option.some.inj (hcopy.symm.trans hc)
      rcases Nat.le_total n J.source.length with hn | hn
      · exact J.copyNoCollision n hn hl
      · exact List.take_of_length_le hn
  · exact hm.elim (fun hh => .inl (hholds hh)) fun hm =>
      hm.elim (fun hh => .inr (.inr (hholds hh))) fun hh => absurd hh hq

/-- **`GenerateTarget` on the source**: it never reports success, but when nothing goes wrong the
target is on the partition. -/
theorem generateTarget_spec {k : Nat} {s : St} {file : FileContents} (h : J.Inv s.files k)
    (hm : J.MaySave s) (hfile : file.data = J.source) :
    Outcome (generateTarget E file J.patch J.args.target (E.sha1 J.target) J.args.bonusData) s
      (fun r s' => r = 1 ∧ ∃ k' ≥ k, J.Inv s'.files k' ∧
        (Quiet s .save → Quiet s .write → J.target.length ≤ k'))
      fun _ s' => ¬ AllQuiet s ∧ ∃ k' ≥ k, J.Inv s'.files k' := by
  obtain ⟨apply, hpatch, happly⟩ := J.patched
  unfold generateTarget
  simp only [J.patchIsBlob, Bool.true_eq_false, if_false, hpatch, J.targetIsEmmc, if_true, hfile,
    happly, ne_eq, not_true_eq_false]
  -- `MakeFreeSpaceOnCache`
  refine (ioOk_probe .save s).head ?_ ?_ ?_
  rotate_left
  · exact fun s₁ hf₁ _ hq => ⟨rfl, k, le_rfl, h.of_files hf₁, fun hs => absurd hs hq⟩
  · exact fun e s₁ hf₁ hq => ⟨fun hall => hq (hall _), k, le_rfl, h.of_files hf₁⟩
  intro s₁ hf₁ hc₁
  have h₁ := h.of_files hf₁
  have hm₁ := hm.step hf₁ hc₁
  have hsave := saveFileContents_spec E.cacheTempSource file s₁
  simp only [hfile] at hsave
  refine (hsave.weaken (fun _ _ h => h) ?_).bind ?_
  · rintro e s₂ ⟨hse, hq, hcopy⟩
    exact ⟨fun hall => hq (hc₁ _ (hall _)), k, le_rfl, h₁.saving hm₁ hse hq hcopy⟩
  rintro b s₂ ⟨hse₂, hc₂, hq₂, hb, hcopy⟩
  cases b with
  | false =>
    have hq : ¬ Quiet s₁ .save := fun hq => (nomatch hq₂ hq)
    exact ⟨rfl, k, le_rfl, h₁.saving hm₁ hse₂ hq hcopy, fun hs => absurd (hc₁ _ hs) hq⟩
  | true =>
    -- from here on the copy is complete
    have hcopied := hb rfl
    have hp₂ : s₂.files J.part = some (partly J.dev J.target k) :=
      (hse₂ _ J.copyNotPart.symm).trans h₁.part
    have hinv {s₃ : St} {k' : Nat} (hse₃ : SameElse J.part s₂ s₃)
        (hk' : s₃.files J.part = some (partly J.dev J.target k')) : J.Inv s₃.files k' := by
      have hc₃ : s₃.files E.cacheTempSource = some J.source :=
        (hse₃ _ J.copyNotPart).trans hcopied
      exact ⟨hk', fun copy hc _ => Option.some.inj (hc.symm.trans hc₃), .inr (.inl hc₃)⟩
    refine ((writeToPartition_spec hp₂).weaken (fun _ _ h => h) ?_).bind ?_
    · rintro e s₃ ⟨hse₃, hq₃, k', hk, hk'⟩
      exact ⟨fun hall => hq₃ (hc₂ _ (hc₁ _ (hall _))), k', hk, hinv hse₃ hk'⟩
    · rintro b s₃ ⟨rfl, hse₃, hc₃, k', hk, hk', hq₃⟩
      exact ⟨rfl, k', hk, hinv hse₃ hk', fun _ hw => hq₃ (hc₂ _ (hc₁ _ hw))⟩

/-- What a run does from an invariant state with `k` bytes written: it keeps the invariant, and a
`quiet` run that starts from a `good` state puts the target on the partition. -/
def RunSpec (J : Job E) (k : Nat) (s : St) (quiet good : Prop) (x : M Nat) : Prop :=
  Outcome x s
    (fun r s' => r = 1 ∧ ∃ k' ≥ k, J.Inv s'.files k' ∧
      (quiet → good → J.Holds s'.files J.target))
    fun _ s' => ¬ quiet ∧ ∃ k' ≥ k, J.Inv s'.files k'

theorem RunSpec.mono {k : Nat} {s : St} {quiet quiet' good good' : Prop} {x : M Nat}
    (hx : J.RunSpec k s quiet good x) (hq : quiet' → quiet) (hg : quiet' → good' → good) :
    J.RunSpec k s quiet' good' x := by
  refine hx.weaken ?_ ?_
  · rintro r s' ⟨hr, k', hk, h', hend⟩
    exact ⟨hr, k', hk, h', fun h hgood => hend (hq h) (hg h hgood)⟩
  · rintro e s' ⟨hne, hk⟩
    exact ⟨fun h => hne (hq h), hk⟩

/-- A run that begins with reading a file. -/
theorem RunSpec.load {α : Type} {k : Nat} {s : St} {good : Prop} {x : M α} {f : α → M Nat}
    {v w : α} (h : J.Inv s.files k) (hm : J.MaySave s) (hx : Probe .load x s v w)
    (hv : ∀ s₁, J.Inv s₁.files k → J.MaySave s₁ → s₁.files = s.files →
      J.RunSpec k s₁ (AllQuiet s₁) good (f v))
    (hw : ∀ s₁, J.Inv s₁.files k → J.MaySave s₁ → J.RunSpec k s₁ (AllQuiet s₁) False (f w)) :
    J.RunSpec k s (AllQuiet s) good (x >>= f) := by
  refine hx.head ?_ ?_ ?_
  · intro s₁ hf₁ hc₁
    exact (hv s₁ (h.of_files hf₁) (hm.step hf₁ hc₁) hf₁).mono hc₁.all
      fun _ hg => hg
  · intro s₁ hf₁ hc₁ hq
    exact (hw s₁ (h.of_files hf₁) (hm.step hf₁ hc₁)).mono hc₁.all
      fun hall _ => hq (hall _)
  · exact fun e s₁ hf₁ hq => ⟨fun hall => hq (hall _), k, le_rfl, h.of_files hf₁⟩

theorem useEntry_source {k : Nat} {s : St} {file : FileContents} {good : Prop}
    (h : J.Inv s.files k) (hm : J.MaySave s) (hfile : file.data = J.source) :
    J.RunSpec k s (AllQuiet s) good
      (useEntry E J.args J.args.target (E.sha1 J.target) file J.toUse) := by
  unfold useEntry
  simp only [J.patchListed]
  refine (generateTarget_spec h hm hfile).weaken ?_ fun _ _ h => h
  rintro r s' ⟨hr, k', hk, h', hq⟩
  exact ⟨hr, k', hk, h', fun hall _ => h'.full (hq (hall _) (hall _))⟩

/-- A run that gives up. -/
theorem RunSpec.giveUp {k : Nat} {s : St} {quiet good : Prop} (h : J.Inv s.files k)
    (hg : good → J.Holds s.files J.target) : J.RunSpec k s quiet good (pure 1) :=
  ⟨rfl, k, le_rfl, h, fun _ => hg⟩

/-- Falling back on the copy. -/
theorem tryCopy_spec {k : Nat} {s : St} (h : J.Inv s.files k) (hm : J.MaySave s) :
    J.RunSpec k s (AllQuiet s) (J.Copied s.files ∨ J.Holds s.files J.target)
      (tryCopy E J.args J.args.target (E.sha1 J.target)) := by
  unfold tryCopy
  refine RunSpec.load h hm (loadFileContents_file s J.copyIsFile) ?_ ?_
  rotate_left
  · exact fun s₁ h₁ _ => RunSpec.giveUp h₁ False.elim
  intro s₁ h₁ hm₁ hf₁
  rw [← hf₁]
  cases hcopy : s₁.files E.cacheTempSource with
  | none =>
    refine RunSpec.giveUp h₁ ?_
    rintro (hcopied | ht)
    · cases hcopy.symm.trans hcopied
    · exact ht
  | some copy =>
    simp only [Option.map_some]
    cases hfind : findMatchingPatch (E.sha1 copy) J.args.patchSha1Str with
    | none =>
      refine RunSpec.giveUp h₁ ?_
      rintro (hcopied | ht)
      · obtain rfl := Option.some.inj (hcopy.symm.trans hcopied)
        cases hfind.symm.trans J.sourcePatched
      · exact ht
    | some toUse =>
      obtain rfl := h₁.copy copy hcopy (by rw [hfind]; rfl)
      obtain rfl := Option.some.inj (J.sourcePatched.symm.trans hfind)
      exact useEntry_source h₁ hm₁ rfl

theorem source_ne_nil (J : Job E) : J.source ≠ [] := by
  obtain ⟨p, hp, hlen, -⟩ := J.sourceListed
  intro h
  rw [h] at hlen
  exact partitionName_pos J.sourceName p hp hlen

/-- With what `LoadFileContents` has found. -/
theorem trySource_spec {k : Nat} {s : St} (h : J.Inv s.files k) (hm : J.MaySave s)
    {found : Option FileContents} (hfound : ∀ file, found = some file →
      file.sha1 = E.sha1 file.data ∧ (file.data = J.source ∨ file.data = J.target)) :
    J.RunSpec k s (AllQuiet s) ((∃ file, found = some file ∧ file.data = J.source) ∨
        J.Copied s.files ∨ J.Holds s.files J.target)
      (trySource E J.args J.args.target (E.sha1 J.target) found) := by
  have hcopy (hne : ¬ ∃ file, found = some file ∧ file.data = J.source) :
      J.RunSpec k s (AllQuiet s) ((∃ file, found = some file ∧ file.data = J.source) ∨
        J.Copied s.files ∨ J.Holds s.files J.target) (tryCopy E J.args J.args.target (E.sha1 J.target)) := by
    exact (tryCopy_spec h hm).mono id fun _ hg => hg.resolve_left hne
  unfold trySource
  cases found with
  | none => exact hcopy fun ⟨file, hf, _⟩ => (nomatch hf)
  | some file =>
    obtain ⟨hsha, hdata⟩ := hfound file rfl
    dsimp only
    split
    · rename_i hnil
      refine hcopy ?_
      rintro ⟨f, hf, hsrc⟩
      cases hf
      exact J.source_ne_nil (hsrc.symm.trans hnil)
    · rw [hsha]
      rcases hdata with hsrc | htgt
      · simp only [hsrc, J.sourcePatched]
        exact useEntry_source h hm hsrc
      · simp only [htgt, J.targetUnpatched]
        refine hcopy ?_
        rintro ⟨f, hf, hsrc⟩
        cases hf
        exact J.distinct (by rw [← hsrc, ← htgt])

/-- A partition that holds the source, and not the target, is found to. -/
theorem firstMatch_source {files : Files} {k : Nat} (h : J.Inv files k)
    (hs : J.Holds files J.source) :
    (∃ file, firstMatch E (partly J.dev J.target k) J.sourcePairs = some file ∧
      file.data = J.source) ∨ J.Holds files J.target := by
  obtain ⟨dev, hdev, htake⟩ := hs
  obtain rfl := Option.some.inj (h.part.symm.trans hdev)
  obtain ⟨p, hp, hlen, hsha⟩ := J.sourceListed
  obtain ⟨file, hfile⟩ := firstMatch_isSome hp (by rw [hsha, hlen, htake])
  obtain ⟨-, hsrc | htgt, hlen⟩ :=
    firstMatch_cases (fun p hp => List.mem_append_left _ hp) hfile
  · exact .inl ⟨file, hfile, hsrc⟩
  · rw [htgt] at hlen
    exact .inr ⟨_, h.part, hlen⟩

/-- Loading the source and patching it. -/
theorem reload_spec {k : Nat} {s : St} (h : J.Inv s.files k) (hm : J.MaySave s) :
    J.RunSpec k s (AllQuiet s) True (do
      let sourceFile ← loadFileContents E J.args.sourceFilename
      trySource E J.args J.args.target (E.sha1 J.target) sourceFile) := by
  have hwf : WellFormed (partly J.dev J.target k) J.sourcePairs := by
    intro p hp
    rw [length_partly J.fits]
    exact J.sourceWellFormed p hp
  refine RunSpec.load h hm
    (loadFileContents_partition J.sourceIsPartition J.sourceName h.part hwf) ?_ ?_
  · intro s₁ h₁ hm₁ _
    refine (trySource_spec h₁ hm₁ ?_).mono id fun _ _ => ?_
    · intro file hfile
      obtain ⟨hsha, hdata, -⟩ := firstMatch_cases (fun p hp => List.mem_append_left _ hp) hfile
      exact ⟨hsha, hdata⟩
    · rcases h₁.recoverable with hs | hcopy | ht
      · exact (firstMatch_source h₁ hs).imp_right .inr
      · exact .inr (.inl hcopy)
      · exact .inr (.inr ht)
  · intro s₁ h₁ hm₁
    exact (trySource_spec h₁ hm₁ (fun _ hf => by cases hf)).mono id fun _ => False.elim

/-- The target's file name finds the target on the partition. -/
def AlreadyPatched (J : Job E) (files : Files) : Prop :=
  ∃ dev file, files J.part = some dev ∧ firstMatch E dev J.targetPairs = some file ∧
    file.sha1 = E.sha1 J.target

/-- **One run**, with any faults. -/
theorem applypatch_spec {k : Nat} {s : St} (h : J.Inv s.files k) (hm : J.MaySave s) :
    Outcome (applypatch E J.args) s
      (fun r s' => ∃ k' ≥ k, J.Inv s'.files k' ∧
        (AllQuiet s → J.Holds s'.files J.target ∧ (r = 0 ↔ J.AlreadyPatched s.files)))
      fun _ s' => ¬ AllQuiet s ∧ ∃ k' ≥ k, J.Inv s'.files k' := by
  have hwf : WellFormed (partly J.dev J.target k) J.targetPairs := by
    intro p hp
    rw [length_partly J.fits]
    exact J.targetWellFormed p hp
  have hname : isPartitionName J.args.target = true := by
    simp [isPartitionName, J.targetIsEmmc]
  have hcases {file : FileContents}
      (hf : firstMatch E (partly J.dev J.target k) J.targetPairs = some file) :=
    firstMatch_cases (fun p hp => List.mem_append_right _ hp) hf
  have hrun {s₁ : St} {x : M Nat} (hc₁ : Calm s s₁) (hx : J.RunSpec k s₁ (AllQuiet s₁) True x)
      (hne : AllQuiet s → (firstMatch E (partly J.dev J.target k) J.targetPairs).map
        FileContents.sha1 ≠ some (E.sha1 J.target)) :
      Outcome x s₁
        (fun r s' => ∃ k' ≥ k, J.Inv s'.files k' ∧
          (AllQuiet s → J.Holds s'.files J.target ∧ (r = 0 ↔ J.AlreadyPatched s.files)))
        fun _ s' => ¬ AllQuiet s ∧ ∃ k' ≥ k, J.Inv s'.files k' := by
    refine (hx.mono hc₁.all fun _ hg => hg).weaken ?_ fun _ _ h => h
    rintro r s' ⟨rfl, k', hk, h', hq⟩
    refine ⟨k', hk, h', fun hall => ⟨hq hall trivial, by simp, ?_⟩⟩
    rintro ⟨dev, file, hdev, hfile, hsha⟩
    obtain rfl := Option.some.inj (h.part.symm.trans hdev)
    exact absurd (by rw [hfile, Option.map_some, hsha]) (hne hall)
  unfold applypatch
  simp only [J.targetIsEmmc, if_true, J.targetHash]
  refine (loadFileContents_partition hname J.targetName h.part hwf).head ?_ ?_ ?_
  · intro s₁ hf₁ hc₁
    have h₁ := h.of_files hf₁
    have hm₁ := hm.step hf₁ hc₁
    split
    · -- the target is there already
      rename_i hsha
      obtain ⟨file, hfile, hsha⟩ := Option.map_eq_some_iff.1 hsha
      obtain ⟨hsha', hdata, hlen⟩ := hcases hfile
      have htgt : file.data = J.target :=
        hdata.resolve_left fun hsrc => J.distinct (by rw [← hsrc, ← hsha', hsha])
      rw [htgt] at hlen
      exact ⟨k, le_rfl, h₁, fun _ => ⟨⟨_, h₁.part, hlen⟩,
        fun _ => ⟨_, file, h.part, hfile, hsha⟩, fun _ => rfl⟩⟩
    · rename_i hne
      split
      · exact hrun hc₁ (reload_spec h₁ hm₁) fun _ => hne
      · rename_i hsame
        rw [not_or] at hsame
        refine hrun hc₁ ?_ fun _ => hne
        refine (trySource_spec h₁ hm₁ ?_).mono id fun _ _ => .inl ?_
        · exact fun file hfile => ⟨(hcases hfile).1, (hcases hfile).2.1⟩
        · cases hfile : firstMatch E (partly J.dev J.target k) J.targetPairs with
          | none => simp [hfile] at hsame
          | some file =>
            obtain ⟨hsha', hdata, -⟩ := hcases hfile
            refine ⟨file, rfl, hdata.resolve_right fun htgt => hne ?_⟩
            rw [hfile, Option.map_some, hsha', htgt]
  · intro s₁ hf₁ hc₁ hq₁
    rw [if_neg (by simp), if_pos (by simp)]
    exact hrun hc₁ (reload_spec (h.of_files hf₁) (hm.step hf₁ hc₁))
      fun hall => absurd (hall _) hq₁
  · exact fun e s₁ hf₁ hq => ⟨fun hall => hq (hall _), k, le_rfl, h.of_files hf₁⟩

/-! ## Histories -/

end Job

/-- What a run leaves behind, whether it returns or is stopped. -/
def run (E : Env) (args : Args) (files : Job.Files) (faults : Phase → List Fate) : Job.Files :=
  match applypatch E args { files := files, fates := faults } with
  | .ok _ s => s.files
  | .error _ s => s.files

/-- One run after the other. -/
def runs (E : Env) (args : Args) (files : Job.Files) (history : List (Phase → List Fate)) :
    Job.Files := history.foldl (run E args) files

namespace Job

variable {E : Env} {J : Job E}

/-- Whenever a run finds neither file on the partition, nothing goes wrong while it rewrites the
copy. -/
def CopyKept (J : Job E) : Files → List (Phase → List Fate) → Prop
  | _, [] => True
  | files, faults :: history =>
    J.MaySave { files := files, fates := faults } ∧
      CopyKept J (run E J.args files faults) history

theorem run_inv {files : Files} {k : Nat} {faults : Phase → List Fate} (h : J.Inv files k)
    (hm : J.MaySave { files := files, fates := faults }) :
    ∃ k' ≥ k, J.Inv (run E J.args files faults) k' := by
  have hspec := applypatch_spec (s := { files := files, fates := faults }) h hm
  unfold run
  split
  · rename_i r s' heq
    obtain ⟨k', hk, h', -⟩ := hspec.of_ok heq
    exact ⟨k', hk, h'⟩
  · rename_i e s' heq
    exact (hspec.of_error heq).2

theorem runs_inv : ∀ {history : List (Phase → List Fate)} {files : Files} {k : Nat},
    J.Inv files k → J.CopyKept files history →
      ∀ n, ∃ k' ≥ k, J.Inv (runs E J.args files (history.take n)) k'
  | [], files, k, h, _, n => ⟨k, le_rfl, by rw [List.take_nil]; exact h⟩
  | faults :: history, files, k, h, _, 0 => ⟨k, le_rfl, h⟩
  | faults :: history, files, k, h, hkept, n + 1 => by
    obtain ⟨k₁, hk₁, h₁⟩ := run_inv h hkept.1
    obtain ⟨k₂, hk₂, h₂⟩ := runs_inv h₁ hkept.2 n
    exact ⟨k₂, hk₁.trans hk₂, h₂⟩

/-- **Crash safety**: as long as the copy is rewritten without a fault whenever the partition
holds neither file, every prefix of the history can be recovered from, and a run without faults
then puts the target on the partition; its exit status is `0` only when the target was there. -/
theorem recoverable_while_copy_kept (J : Job E) {files : Files} (hstart : J.Start files)
    {history : List (Phase → List Fate)} (hkept : J.CopyKept files history) (n : Nat) :
    J.Recoverable (runs E J.args files (history.take n)) ∧
      ∀ faults : Phase → List Fate, (∀ p, ∀ f ∈ faults p, f = Fate.ok) →
        ∃ r s', applypatch E J.args
            { files := runs E J.args files (history.take n), fates := faults } = .ok r s' ∧
          J.Holds s'.files J.target ∧
          (r = 0 ↔ J.AlreadyPatched (runs E J.args files (history.take n))) := by
  obtain ⟨k, -, h⟩ := runs_inv hstart.inv hkept n
  refine ⟨h.recoverable, fun faults hall => ?_⟩
  obtain ⟨s, hs⟩ : ∃ s, s = St.mk (runs E J.args files (history.take n)) faults := ⟨_, rfl⟩
  have hquiet : AllQuiet s := by rw [hs]; exact hall
  have hspec := applypatch_spec (by rw [hs]; exact h : J.Inv s.files k) (.inr (.inr (hquiet .save)))
  rw [← hs]
  cases heq : applypatch E J.args s with
  | ok r s' =>
    obtain ⟨k', -, -, hq⟩ := hspec.of_ok heq
    rw [hs] at hq
    exact ⟨r, s', rfl, hq hall⟩
  | error e s' => exact absurd hquiet (hspec.of_error heq).1

end Job

/-! ## A partition of two bytes -/

/-- A file's hash is the file, filled up with zeros. -/
def Env.small : Env where
  base := .decimal
  sha1 data := (data ++ List.replicate SHA_DIGEST_LENGTH 0).take SHA_DIGEST_LENGTH
  cacheTempSource := "saved.file"
  applyBSDiffPatch source _ := (source == [1, 1], [2, 2])
  applyImagePatch _ _ _ := (false, [])

def ones : String := "0101000000000000000000000000000000000000"

def twos : String := "0202000000000000000000000000000000000000"

/-- `apply_patch("EMMC:boot:2:<ones>:2:<twos>", "-", ...)`. -/
def bootArgs : Args where
  sourceFilename := "EMMC:boot:2:0101000000000000000000000000000000000000:2:" ++ twos
  targetFilename := "-"
  targetSha1Str := twos
  patchSha1Str := [ones]
  patchData := [{ isBlob := true, data := ascii "BSDIFF40" }]
  bonusData := none

theorem bootPairs : partitionName Env.small bootArgs.sourceFilename =
    some ("boot", [(2, ones), (2, twos)]) := by decide +kernel

/-- From `[1, 1]` to `[2, 2]`. -/
def boot : Job Env.small where
  args := bootArgs
  part := "boot"
  dev := [1, 1]
  source := [1, 1]
  target := [2, 2]
  sourcePairs := [(2, ones), (2, twos)]
  targetPairs := [(2, ones), (2, twos)]
  patch := { isBlob := true, data := ascii "BSDIFF40" }
  toUse := 0
  held := rfl
  fits := by decide
  distinct := by decide
  sourceIsPartition := by decide +kernel
  targetIsEmmc := by decide +kernel
  targetType := by decide +kernel
  sourceName := bootPairs
  targetName := bootPairs
  sourceWellFormed := by unfold WellFormed; decide +kernel
  targetWellFormed := by unfold WellFormed; decide +kernel
  sourceListed := by decide +kernel
  targetListed := by decide +kernel
  targetHash := by decide +kernel
  sourcePatched := by decide +kernel
  targetUnpatched := by decide +kernel
  patchListed := rfl
  patchIsBlob := rfl
  patched := ⟨_, if_pos (by decide +kernel), rfl⟩
  copyNotPart := by decide
  copyIsFile := by decide +kernel
  noCollision := by decide +kernel
  copyNoCollision := by decide +kernel

def bootFiles : Job.Files := fun path => if path = "boot" then some [1, 1] else none

theorem boot_start : boot.Start bootFiles := ⟨rfl, fun copy h => by cases h⟩

/-- Faults of one phase. -/
def faultsOf (p : Phase) (fates : List Fate) : Phase → List Fate :=
  Function.update (fun _ => []) p fates

/-- Power loss after one byte of the target. -/
def halfWritten : Phase → List Fate := faultsOf .write [.ok, .ok, .crash 1]

/-- Power loss after one byte of the copy. -/
def halfSaved : Phase → List Fate := faultsOf .save [.ok, .ok, .crash 1]

/-- After one crash a run without faults writes the target. -/
theorem recoverable_half_written :
    boot.Recoverable (runs Env.small boot.args bootFiles [halfWritten]) ∧
      ∃ r s', applypatch Env.small boot.args
        { files := runs Env.small boot.args bootFiles [halfWritten], fates := fun _ => [] } =
          .ok r s' ∧ boot.Holds s'.files boot.target := by
  have hkept : boot.CopyKept bootFiles [halfWritten] := ⟨.inl boot_start.holds, trivial⟩
  have h := Job.recoverable_while_copy_kept boot boot_start hkept 1
  rw [List.take_of_length_le (by simp)] at h
  obtain ⟨r, s', hr, hs', -⟩ := h.2 (fun _ => []) nofun
  exact ⟨h.1, r, s', hr, hs'⟩

/-- The files after a second crash, while the copy is rewritten from itself. -/
def lostFiles : Job.Files := runs Env.small bootArgs bootFiles [halfWritten, halfSaved]

theorem lostFiles_content :
    lostFiles "boot" = some [2, 1] ∧ lostFiles "saved.file" = some [1] := by decide +kernel

/-- A run without faults. -/
def bootRun (files : Job.Files) : EStateM.Result Stop St Nat :=
  applypatch Env.small bootArgs { files := files, fates := fun _ => [] }

theorem bootRun_eq {files : Job.Files} {dev : Bytes} (h : returnedWith (bootRun files)
      (fun r s' => r == 1 && s'.files "boot" == some dev) = true) :
    ∃ s', bootRun files = .ok 1 s' ∧ s'.files "boot" = some dev := by
  obtain ⟨r, s', hr, h⟩ := of_returnedWith h
  rw [Bool.and_eq_true, beq_iff_eq, beq_iff_eq] at h
  exact ⟨s', h.1 ▸ hr, h.2⟩

theorem boot_not_holds {files : Job.Files} {dev file : Bytes} (h : files "boot" = some dev)
    (hf : dev.take file.length ≠ file) : ¬ boot.Holds files file := by
  rintro ⟨dev', hdev, htake⟩
  obtain rfl := Option.some.inj (h.symm.trans hdev)
  exact hf htake

/-- The second crash loses both files.  Besides, a run without faults exits with `1` even though
it has written the target. -/
theorem copy_lost :
    boot.Start bootFiles ∧ ¬ boot.Recoverable lostFiles ∧
      (∃ s', bootRun lostFiles = .ok 1 s' ∧ ¬ boot.Holds s'.files boot.target) ∧
      ∃ s', bootRun bootFiles = .ok 1 s' ∧ boot.Holds s'.files boot.target := by
  obtain ⟨hpart, hcopy⟩ := lostFiles_content
  refine ⟨boot_start, ?_, ?_, ?_⟩
  · rintro (h | h | h)
    · exact boot_not_holds hpart (by decide) h
    · exact absurd (hcopy.symm.trans h) (by decide)
    · exact boot_not_holds hpart (by decide) h
  · have hlost : ∃ s', bootRun lostFiles = .ok 1 s' ∧ s'.files "boot" = some [2, 1] :=
      bootRun_eq (by decide +kernel)
    obtain ⟨s', hr, hs'⟩ := hlost
    exact ⟨s', hr, boot_not_holds hs' (by decide)⟩
  · have hwritten : ∃ s', bootRun bootFiles = .ok 1 s' ∧ s'.files "boot" = some [2, 2] :=
      bootRun_eq (by decide +kernel)
    obtain ⟨s', hr, hs'⟩ := hwritten
    exact ⟨s', hr, _, hs', rfl⟩

end Recovery.ApplyPatch
