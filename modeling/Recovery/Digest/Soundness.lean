import Recovery.Digest.Complete

/-!
# What a successful check says

* `SameNames` — storages with the same names, and any contents.
* `checkDigest_forged` — contents that pass the check and say nothing about what it leaves out.
* `sound_iff` — the names for which a check that succeeds means that a restore reads what was
  digested.
* `digest_iff` — both conditions.

## Two failures

The condition is necessary: where a name is left out by the check, `forged` builds contents that
the check accepts and that restore to something else.  The hash functions are parameters; that two
texts have different digests is never assumed.
-/

set_option autoImplicit false

namespace Recovery.Digest

open Recovery.Lib

variable {h : Hashes} {fs fs' : Storage} {base : Str}

def SameNames (fs fs' : Storage) : Prop := ∀ name, pathExists fs' name = pathExists fs name

theorem SameNames.findDigest (hsame : SameNames fs fs') (name : Str) :
    findDigest fs' name = Digest.findDigest fs name := by
  unfold Digest.findDigest
  rw [hsame, hsame, hsame, hsame]

theorem SameNames.probed (hsame : SameNames fs fs') : probed fs' base = Digest.probed fs base :=
  probed_congr (hsame base) fun _ a _ => hsame a

theorem SameNames.extractThreads (hsame : SameNames fs fs') (threads : List Nat) :
    extractThreads fs' base threads = Digest.extractThreads fs base threads := by
  induction threads with
  | nil => rfl
  | cons i threads ih =>
    have hmulti : extractMulti fs' base i = extractMulti fs base i :=
      takeWhile_congr fun a _ => hsame a
    unfold Digest.extractThreads
    rw [hsame, hmulti, ih]

theorem SameNames.extractTarFork (hsame : SameNames fs fs') :
    extractTarFork fs' base = Digest.extractTarFork fs base := by
  rw [extractTarFork_eq, extractTarFork_eq, hsame, hsame, hsame.extractThreads]

/-- There are archives for a restore, it can read them, and their digests are the stored ones. -/
def Good (h : Hashes) (fs : Storage) (base : Str) : Prop :=
  ∃ archives, extractTarFork fs base = some archives ∧ archives ≠ [] ∧
    ∀ a ∈ archives, Matches h fs a

/-- The name is too long for a check, or an archive that is checked has no digest, or a restore
reads archives that all are checked and have digests. -/
def Sound (fs : Storage) (base : Str) : Prop :=
  (pathExists fs base = false ∧ 512 ≤ base.length + 3) ∨
  (∃ a ∈ probed fs base, findDigest fs a = none ∧ isExempt a = false) ∨
  ∃ archives, extractTarFork fs base = some archives ∧ archives ≠ [] ∧
    ∀ a ∈ archives, a ∈ probed fs base ∧ findDigest fs a ≠ none

theorem good_of_check (hsound : Sound fs base) (hsame : SameNames fs fs')
    (hcheck : checkDigest h fs' base = some true) : Good h fs' base := by
  obtain ⟨hfits, hall⟩ := checkDigest_eq_true.1 hcheck
  rw [hsame.probed] at hall
  rw [hsame base] at hfits
  rcases hsound with ⟨hbase, hlong⟩ | ⟨a, ha, hnone, hexempt⟩ | ⟨archives, hextract, hne, hcovered⟩
  · rcases hfits with hexists | hfits
    · rw [hbase] at hexists
      cases hexists
    · lia
  · rcases checkFileDigest_eq_true.1 (hall a ha) with ⟨-, hyes⟩ | ⟨_, _, _, _, hfind, -⟩
    · rw [hexempt] at hyes
      cases hyes
    · rw [hsame.findDigest, hnone] at hfind
      cases hfind
  · refine ⟨archives, ?_, hne, ?_⟩
    · rw [hsame.extractTarFork, hextract]
    · intro a ha
      obtain ⟨hprobed, hdigest⟩ := hcovered a ha
      rcases checkFileDigest_eq_true.1 (hall a hprobed) with ⟨hnone, -⟩ | hmatches
      · rw [hsame.findDigest] at hnone
        exact absurd hnone hdigest
      · exact hmatches

/-! ## Contents that pass the check -/

/-- The digest of nothing, in the digest files of the archives that are checked. -/
def forgedText (h : Hashes) (fs : Storage) (base name : Str) : Str :=
  if ∃ a ∈ probed fs base, findDigest fs a = some (.sha256, name) then
    h.returnDigestString .sha256 []
  else if ∃ a ∈ probed fs base, findDigest fs a = some (.md5, name) then
    h.returnDigestString .md5 []
  else []

/-- Every other file is empty. -/
def forged (h : Hashes) (fs : Storage) (base : Str) : Storage := fun name =>
  (fs name).map fun _ => ⟨forgedText h fs base name, true, true⟩

theorem sameNames_forged : SameNames fs (forged h fs base) := by
  intro name
  unfold pathExists forged
  rw [Option.isSome_map]

theorem findDigest_name {a name : Str} {kind : Kind} (hfind : findDigest fs a = some (kind, name)) :
    pathExists fs name = true ∧ ∃ ext, ext ≠ [] ∧ name = a ++ ext := by
  unfold findDigest at hfind
  split at hfind
  · rename_i hexists
    cases hfind
    exact ⟨hexists, _, by decide, rfl⟩
  · split at hfind
    · rename_i hexists
      cases hfind
      exact ⟨hexists, _, by decide, rfl⟩
    · split at hfind
      · rename_i hexists
        cases hfind
        exact ⟨hexists, _, by decide, rfl⟩
      · split at hfind
        · rename_i hexists
          cases hfind
          exact ⟨hexists, _, by decide, rfl⟩
        · cases hfind

theorem findDigest_inj {a b name : Str} {kind kind' : Kind} (hlen : a.length = b.length)
    (ha : findDigest fs a = some (kind, name)) (hb : findDigest fs b = some (kind', name)) :
    a = b := by
  obtain ⟨-, ext, -, hname⟩ := findDigest_name ha
  obtain ⟨-, ext', -, hname'⟩ := findDigest_name hb
  rw [hname] at hname'
  exact (List.append_inj hname' hlen).1

/-- The digest file of an archive that is checked says what the check expects. -/
theorem forgedText_digest {a name : Str} {kind : Kind} (ha : a ∈ probed fs base)
    (hfind : findDigest fs a = some (kind, name)) :
    forgedText h fs base name = h.returnDigestString kind [] := by
  have ⟨n, hlen⟩ : ∃ n, ∀ b ∈ probed fs base, b.length = n := length_probed
  unfold forgedText
  cases kind with
  | sha256 => rw [if_pos ⟨a, ha, hfind⟩]
  | md5 =>
    rw [if_neg, if_pos ⟨a, ha, hfind⟩]
    rintro ⟨b, hb, hfind'⟩
    have heq := findDigest_inj (by rw [hlen a ha, hlen b hb]) hfind hfind'
    subst heq
    rw [hfind] at hfind'
    cases hfind'

theorem forgedText_other {name : Str}
    (hother : ∀ b ∈ probed fs base, ∀ kind, findDigest fs b ≠ some (kind, name)) :
    forgedText h fs base name = [] := by
  unfold forgedText
  rw [if_neg, if_neg]
  · rintro ⟨b, hb, hfind⟩
    exact hother b hb _ hfind
  · rintro ⟨b, hb, hfind⟩
    exact hother b hb _ hfind

/-- An archive is no digest file of another one. -/
theorem forgedText_archive {a : Str} (hlen : ∀ b ∈ probed fs base, b.length = a.length) :
    forgedText h fs base a = [] := by
  apply forgedText_other
  intro b hb kind hfind
  obtain ⟨-, ext, hext, hname⟩ := findDigest_name hfind
  exact ne_append (Nat.le_of_eq (hlen b hb).symm) hext hname

theorem forged_eq {name : Str} (hexists : pathExists fs name = true) :
    forged h fs base name = some ⟨forgedText h fs base name, true, true⟩ := by
  obtain ⟨f, hf⟩ := Option.isSome_iff_exists.1 hexists
  unfold forged
  rw [hf]
  rfl

theorem word_digest (kind : Kind) (data : Str) :
    (⟨h.returnDigestString kind data, true, true⟩ : File).word = h.returnDigestString kind data := by
  have hword : ∀ c ∈ h.returnDigestString kind data, (!isBlank c) = true := by
    simpa using digestString_not_blank
  unfold File.word
  rw [if_pos rfl, ← List.append_nil (h.returnDigestString kind data),
    dropWhile_word (digestString_ne_nil _ _) digestString_not_blank,
    List.takeWhile_append_of_pos hword, List.takeWhile_nil]

theorem exists_probed {a : Str} (ha : a ∈ probed fs base) : pathExists fs a = true := by
  obtain ⟨suffix, f, -, hf⟩ := Backup.probed_suffix ha
  unfold pathExists
  rw [hf]
  rfl

/-- **The forged contents pass the check.** -/
theorem checkDigest_forged (hfits : pathExists fs base = true ∨ base.length + 3 < 512)
    (hdigests : ∀ a ∈ probed fs base, findDigest fs a = none → isExempt a = true) :
    checkDigest h (forged h fs base) base = some true := by
  have hsame : SameNames fs (forged h fs base) := sameNames_forged
  have ⟨n, hlen⟩ : ∃ n, ∀ b ∈ probed fs base, b.length = n := length_probed
  rw [checkDigest_eq_true, hsame.probed, hsame base]
  refine ⟨hfits, ?_⟩
  intro a ha
  rw [checkFileDigest_eq_true]
  unfold Matches
  rw [hsame.findDigest]
  cases hfind : findDigest fs a with
  | none => exact Or.inl ⟨rfl, hdigests a ha hfind⟩
  | some p =>
    obtain ⟨kind, name⟩ := p
    refine Or.inr ⟨kind, name, _, [], rfl, forged_eq (findDigest_name hfind).1, rfl, ?_, ?_⟩
    · unfold streamFileToDigest
      rw [forged_eq (exists_probed ha),
        forgedText_archive fun b hb => by rw [hlen a ha, hlen b hb]]
      rfl
    · rw [forgedText_digest ha hfind, word_digest]

/-- **The forged contents are no evidence** for an archive that is not checked. -/
theorem not_good_forged (hunsound : ∀ archives, extractTarFork fs base = some archives →
      archives ≠ [] → ∃ a ∈ archives, a ∈ probed fs base → findDigest fs a = none) :
    ¬Good h (forged h fs base) base := by
  have hsame : SameNames fs (forged h fs base) := sameNames_forged
  rintro ⟨archives, hextract, hne, hall⟩
  rw [hsame.extractTarFork] at hextract
  obtain ⟨a, ha, hnone⟩ := hunsound archives hextract hne
  obtain ⟨kind, name, f, data, hfind, hfile, -, -, hdigest⟩ := hall a ha
  rw [hsame.findDigest] at hfind
  have hskipped : a ∉ probed fs base := by
    intro hmem
    rw [hnone hmem] at hfind
    cases hfind
  have hbase : pathExists fs base = false := by
    by_contra hbase
    unfold extractTarFork at hextract
    rw [if_pos (by simpa using hbase)] at hextract
    rw [← Option.some.inj hextract, List.mem_singleton] at ha
    apply hskipped
    unfold probed
    rw [if_pos (by simpa using hbase), ha]
    exact List.mem_cons_self
  have hlen : ∀ b ∈ probed fs base, a.length = b.length := by
    intro b hb
    obtain ⟨t, -, n, -, rfl, -⟩ := (mem_extractTarFork hbase hextract).1 ha
    obtain ⟨i, -, rfl, -⟩ := (mem_probed hbase).1 hb
    rw [List.length_append, List.length_append]
    rfl
  -- its digest file is empty
  rw [forged_eq (findDigest_name hfind).1, forgedText_other] at hfile
  · cases hfile
    exact digestString_ne_nil _ _ hdigest
  · intro b hb kind' hfind'
    exact hskipped (findDigest_inj (hlen b hb) hfind hfind' ▸ hb)

/-- **A check is sound** for all contents exactly when the names are. -/
theorem sound_iff : (∀ fs', SameNames fs fs' → checkDigest h fs' base = some true →
    Good h fs' base) ↔ Sound fs base := by
  constructor
  · intro hall
    unfold Sound
    by_contra hno
    simp only [not_or, not_and, not_exists] at hno
    obtain ⟨hlong, hdigests, hskip⟩ := hno
    apply not_good_forged _ (hall (forged h fs base) sameNames_forged (checkDigest_forged _ _))
    · intro archives hextract hne
      by_contra hcovered
      apply hskip archives hextract hne
      simpa using hcovered
    · by_cases hbase : pathExists fs base = true
      · exact Or.inl hbase
      · exact Or.inr (by have := hlong (by simpa using hbase); omega)
    · intro a ha hnone
      simpa using hdigests a ha hnone
  · exact fun hsound fs' hsame hcheck => good_of_check hsound hsame hcheck

/-- **When the digests do what they are for.** -/
theorem digest_iff (h : Hashes) :
    (∀ b base, Covered h b base ↔ b.Complete base) ∧
      ∀ fs base, (∀ fs', SameNames fs fs' → checkDigest h fs' base = some true →
        Good h fs' base) ↔ Sound fs base :=
  ⟨fun b base => covered_iff b base, fun _ _ => sound_iff⟩

/-- Two threads, each with one archive. -/
def twoThreads : Backup := .split [[[1]], [[2]]] (by decide) (by decide) (by decide)

/-- The digests do not cover the second thread, and a check of no archives succeeds. -/
theorem second_thread_uncovered :
    extractTarFork (twoThreads.storage (ascii "b")) (ascii "b") =
        some [ascii "b000", ascii "b100"] ∧
      probed (twoThreads.storage (ascii "b")) (ascii "b") = [ascii "b000"] ∧
      (¬∃ h, Covered h twoThreads (ascii "b")) ∧
      ¬∃ h, ∀ fs', SameNames (fun _ => none) fs' → checkDigest h fs' (ascii "b") = some true →
        Good h fs' (ascii "b") := by
  refine ⟨by decide +kernel, by decide +kernel, ?_, ?_⟩
  · rintro ⟨h, hcov⟩
    rw [covered_iff] at hcov
    exact absurd (hcov.2 [[1]] (by decide)) (by decide)
  · rintro ⟨h, hall⟩
    have hcheck : checkDigest h (fun _ => none) (ascii "b") = some true := by
      have hprobed : probed (fun _ => none) (ascii "b") = [] := by decide +kernel
      rw [checkDigest_eq_true, hprobed]
      exact ⟨Or.inr (by decide), nofun⟩
    obtain ⟨archives, hextract, hne, -⟩ := hall (fun _ => none) (fun _ => rfl) hcheck
    cases hextract
    exact hne rfl

end Recovery.Digest
