import Recovery.Digest.Coverage

/-!
# Changes of backup archives are detected

* `checkDigest_all` — a check that reads everything compares every digest.
* `checkDigest_changed` — after the digests have been made, a changed archive fails the check.
* `Fresh` — the archives can be read and have no digests yet.

The check is the one that TWRP runs before a restore.  Archives that were added after the digests
were made are the subject of `Digest.Soundness`.
-/

set_option autoImplicit false

namespace Recovery.Digest

open Recovery.Lib

variable {h : Hashes} {fs fs₁ : Storage} {base : Str}

theorem checkLoop_all {ok : Str → Bool} {names : List Str}
    (hok : ∀ a ∈ names.takeWhile (pathExists fs ·), checkFileDigest h fs a = some (ok a)) :
    checkLoop h fs names = some ((names.takeWhile (pathExists fs ·)).all ok) := by
  induction names with
  | nil => rfl
  | cons name names ih =>
    unfold checkLoop
    by_cases hexists : pathExists fs name = true
    · rw [List.takeWhile_cons_of_pos hexists, List.forall_mem_cons] at hok
      rw [if_pos hexists, List.takeWhile_cons_of_pos hexists, hok.1, Option.bind_some,
        List.all_cons]
      cases ok name with
      | true => rw [ih hok.2, Bool.true_and]
      | false => rfl
    · rw [if_neg hexists, List.takeWhile_cons_of_neg hexists]
      rfl

/-- **A check that reads everything** succeeds when the check of every archive does. -/
theorem checkDigest_all {ok : Str → Bool} (hfits : pathExists fs base = true ∨ base.length + 3 < 512)
    (hok : ∀ a ∈ probed fs base, checkFileDigest h fs a = some (ok a)) :
    checkDigest h fs base = some ((probed fs base).all ok) := by
  unfold checkDigest
  unfold probed at hok ⊢
  by_cases hbase : pathExists fs base = true
  · rw [if_pos hbase] at hok ⊢
    rw [if_pos hbase, hok base List.mem_cons_self]
    simp
  · rw [if_neg hbase] at hok ⊢
    rw [if_neg hbase, if_neg (by simp [hbase] at hfits; lia)]
    exact checkLoop_all hok

theorem probed_congr (hbase : pathExists fs₁ base = pathExists fs base)
    (hsplit : pathExists fs base = false →
      ∀ a ∈ splitNames base, pathExists fs₁ a = pathExists fs a) :
    probed fs₁ base = probed fs base := by
  unfold probed
  rw [hbase]
  by_cases hexists : pathExists fs base = true
  · rw [if_pos hexists, if_pos hexists]
  · rw [if_neg hexists, if_neg hexists]
    exact takeWhile_congr (hsplit (by simpa using hexists))

/-- A name is no longer one's own digest file. -/
theorem ne_append {a b ext : Str} (hlen : a.length ≤ b.length) (hext : ext ≠ []) : a ≠ b ++ ext := by
  intro heq
  have hlength := congrArg List.length heq
  rw [List.length_append] at hlength
  exact hext (List.eq_nil_of_length_eq_zero (by lia))

theorem findDigest_write {a b data : Str} (hlen : b.length = a.length) :
    findDigest (fs.write b data) a = findDigest fs a := by
  have hkeep {ext : Str} (hext : ext ≠ []) :
      pathExists (fs.write b data) (a ++ ext) = pathExists fs (a ++ ext) :=
    pathExists_congr (write_other (ne_append (Nat.le_of_eq hlen) hext).symm)
  unfold findDigest
  rw [hkeep (by decide), hkeep (by decide), hkeep (by decide), hkeep (by decide)]

/-- The archives are there, they can be read, and they have no digests. -/
structure Fresh (fs : Storage) (names : List Str) : Prop where
  plain : ∀ a ∈ names, ∃ data, fs a = some ⟨data, true, true⟩
  none_sha2 : ∀ a ∈ names, fs (a ++ ascii ".sha2") = none
  none_sha256 : ∀ a ∈ names, fs (a ++ ascii ".sha256") = none

/-- **The check of a file** whose digest has been made. -/
theorem checkFileDigest_digested {useSha2 : Bool} {names : List Str} {n : Nat}
    (hlen : ∀ a ∈ names, a.length = n) (hd : Digested h useSha2 names fs fs₁)
    (hfresh : Fresh fs names) {a data now : Str} (ha : a ∈ names)
    (hbefore : fs a = some ⟨data, true, true⟩) {fs₂ : Storage}
    (hfind : findDigest fs₂ a = findDigest fs₁ a)
    (hkeep : fs₂ (a ++ digestExtension useSha2) = fs₁ (a ++ digestExtension useSha2))
    (hnow : fs₂ a = some ⟨now, true, true⟩) :
    checkFileDigest h fs₂ a = some (decide
      (h.returnDigestString (digestKind useSha2) now =
        h.returnDigestString (digestKind useSha2) data)) := by
  obtain ⟨f, hf, htext⟩ := hd.written a ha
  rw [hbefore] at hf
  cases hf
  have hfound := findDigest_digested hlen hd
    (fun a ha => ⟨hfresh.none_sha2 a ha, hfresh.none_sha256 a ha⟩) ha
  unfold checkFileDigest streamFileToDigest
  rw [hfind, hfound]
  dsimp only
  rw [hkeep, htext, hnow]
  simp [word_digestText]

theorem length_base_le {a : Str} (ha : a ∈ probed fs base) : base.length ≤ a.length := by
  unfold probed at ha
  split at ha
  · rw [List.mem_singleton.1 ha]
  · rw [length_splitNames ((List.takeWhile_prefix _).subset ha)]
    exact Nat.le_add_right _ _

theorem length_split_eq {a b : Str} (hbase : pathExists fs base = false) (ha : a ∈ probed fs base)
    (hb : b ∈ splitNames base) : b.length = a.length := by
  unfold probed at ha
  rw [hbase, if_neg Bool.false_ne_true] at ha
  rw [length_splitNames hb, length_splitNames ((List.takeWhile_prefix _).subset ha)]

/-- **A change of an archive is detected.** -/
theorem checkDigest_changed {useSha2 : Bool} (hd : Digested h useSha2 (probed fs base) fs fs₁)
    (hfresh : Fresh fs (probed fs base)) (hfits : pathExists fs base = true ∨ base.length + 3 < 512)
    {a data now : Str} (ha : a ∈ probed fs base) (hbefore : fs a = some ⟨data, true, true⟩)
    (hne : h.returnDigestString (digestKind useSha2) now ≠
      h.returnDigestString (digestKind useSha2) data) :
    checkDigest h (fs₁.write a now) base = some false := by
  have ⟨n, hlen⟩ : ∃ n, ∀ b ∈ probed fs base, b.length = n := length_probed
  -- the archives are where they were, since the digest files have longer names
  have hmade : ∀ name : Str, name.length ≤ n → fs₁ name = fs name := by
    intro name hname
    apply hd.others
    intro b hb
    exact ne_append (by rw [hlen b hb]; exact hname) (extension_ne_nil useSha2)
  have hexists : ∀ name : Str, name.length ≤ n →
      pathExists (fs₁.write a now) name = pathExists fs name := by
    intro name hname
    by_cases heq : name = a
    · unfold pathExists
      rw [heq, write_self, hbefore]
      rfl
    · exact pathExists_congr ((write_other heq).trans (hmade name hname))
  have hbase : pathExists (fs₁.write a now) base = pathExists fs base := by
    apply hexists
    rw [← hlen a ha]
    exact length_base_le ha
  have hprobed : probed (fs₁.write a now) base = probed fs base := by
    apply probed_congr hbase
    intro hsplit b hb
    apply hexists
    rw [length_split_eq hsplit ha hb, hlen a ha]
  have hok : ∀ b ∈ probed (fs₁.write a now) base,
      checkFileDigest h (fs₁.write a now) b = some (decide (b ≠ a)) := by
    rw [hprobed]
    intro b hb
    have hsame : a.length = b.length := by rw [hlen a ha, hlen b hb]
    have hkeep : fs₁.write a now (b ++ digestExtension useSha2) = fs₁ (b ++ digestExtension useSha2) :=
      write_other (ne_append (Nat.le_of_eq hsame) (extension_ne_nil useSha2)).symm
    by_cases heq : b = a
    · subst heq
      rw [checkFileDigest_digested hlen hd hfresh ha hbefore (findDigest_write hsame) hkeep
        (write_self _ _)]
      simp [hne]
    · obtain ⟨data', hb'⟩ := hfresh.plain b hb
      have hnow : fs₁.write a now b = some ⟨data', true, true⟩ := by
        rw [write_other heq, hmade b (Nat.le_of_eq (hlen b hb)), hb']
      rw [checkFileDigest_digested hlen hd hfresh hb hb' (findDigest_write hsame) hkeep hnow]
      simp [heq]
  rw [checkDigest_all (by rw [hbase]; exact hfits) hok, hprobed]
  simp [List.all_eq_false, ha]

end Recovery.Digest
