import Recovery.Digest.Detection

/-!
# The backups whose digests cover them

* `Backup.exists_split` — the archives of a stored backup.
* `Backup.mem_restored` — a restore reads all of them.
* `covered_iff` — the digests cover a backup exactly when its archives are numbered without a gap:
  every thread but the last one has a hundred of them.

A split backup has its archives numbered by three digits, the first of which is the thread.  The
loop that makes digests counts upwards and stops at the first number that is missing, so a thread
in the middle that is not full hides those behind it.
-/

set_option autoImplicit false

namespace Recovery.Digest

open Recovery.Lib

variable {h : Hashes} {fs : Storage} {base : Str}

theorem makeDigest_readable {useSha2 : Bool} (hread : Readable fs (base :: splitNames base))
    (hne : probed fs base ≠ []) (hfits : pathExists fs base = true ∨ base.length + 3 < 512) :
    ∃ written fs₁, makeDigest h useSha2 (fun _ => true) fs base = some (true, written, fs₁) := by
  unfold makeDigest
  by_cases hbase : pathExists fs base = true
  · obtain ⟨f, hf⟩ := Option.isSome_iff_exists.1 hbase
    obtain ⟨hopens, hreads⟩ := hread base List.mem_cons_self f hf
    rw [if_pos hbase, writeDigest_readable hf hopens hreads]
    exact ⟨_, _, rfl⟩
  · have hsep : ∀ a ∈ splitNames base, ∀ b ∈ splitNames base, a ≠ b ++ digestExtension useSha2 :=
      fun a ha b hb => ne_append (by rw [length_splitNames ha, length_splitNames hb])
        (extension_ne_nil useSha2)
    obtain ⟨written, fs₁, hloop⟩ := makeLoop_readable (h := h) hsep
      fun a ha => hread a (List.mem_cons_of_mem _ ha)
    have hwritten := (makeLoop_digested hsep hloop).1
    unfold probed at hne
    rw [if_neg hbase, ← hwritten] at hne
    rw [if_neg hbase, if_neg (by simp [hbase] at hfits; lia), hloop]
    exact ⟨written, fs₁, by simp [hne]⟩

namespace Backup

/-! ## Stored backups -/

theorem parseIndex_long {suffix : Str} (hlong : 3 < suffix.length) : parseIndex suffix = none := by
  match suffix, hlong with
  | _ :: _ :: _ :: _ :: _, _ => rfl

theorem archive_long {b : Backup} {suffix : Str} (hlong : 3 < suffix.length) :
    b.archive suffix = none := by
  cases b with
  | single data =>
    have hne : suffix ≠ [] := by
      intro heq
      simp [heq] at hlong
    exact if_neg hne
  | split threads _ _ _ =>
    simp [archive, parseIndex_long hlong]

variable {b : Backup}

theorem stored_plain (hs : b.StoredAt base fs) {suffix : Str} {f : File}
    (hf : fs (base ++ suffix) = some f) : f = ⟨f.data, true, true⟩ := by
  rw [hs suffix] at hf
  obtain ⟨data, -, rfl⟩ := Option.map_eq_some_iff.1 hf
  rfl

theorem stored_long (hs : b.StoredAt base fs) {suffix ext : Str} (hext : 3 < ext.length) :
    fs (base ++ suffix ++ ext) = none := by
  rw [List.append_assoc, hs, archive_long (by rw [List.length_append]; lia)]
  rfl

theorem probed_suffix {a : Str} (ha : a ∈ probed fs base) :
    ∃ suffix f, a = base ++ suffix ∧ fs a = some f := by
  by_cases hbase : pathExists fs base = true
  · unfold probed at ha
    rw [if_pos hbase, List.mem_singleton] at ha
    obtain ⟨f, hf⟩ := Option.isSome_iff_exists.1 hbase
    exact ⟨[], f, by rw [ha, List.append_nil], by rw [ha, hf]⟩
  · obtain ⟨i, -, rfl, hall⟩ := (mem_probed (by simpa using hbase)).1 ha
    obtain ⟨f, hf⟩ := Option.isSome_iff_exists.1 (hall i (Nat.le_refl i))
    exact ⟨_, f, rfl, hf⟩

theorem stored_fresh (hs : b.StoredAt base fs) : Fresh fs (probed fs base) := by
  refine ⟨?_, ?_, ?_⟩
  · intro a ha
    obtain ⟨suffix, f, rfl, hf⟩ := probed_suffix ha
    rw [stored_plain hs hf] at hf
    exact ⟨f.data, hf⟩
  · intro a ha
    obtain ⟨suffix, -, rfl, -⟩ := probed_suffix ha
    exact stored_long hs (by decide)
  · intro a ha
    obtain ⟨suffix, -, rfl, -⟩ := probed_suffix ha
    exact stored_long hs (by decide)

theorem stored_readable (hs : b.StoredAt base fs) : Readable fs (base :: splitNames base) := by
  intro a ha f hf
  have hsuffix : ∃ suffix, a = base ++ suffix := by
    rcases List.mem_cons.1 ha with rfl | ha
    · exact ⟨[], (List.append_nil _).symm⟩
    · obtain ⟨i, -, rfl⟩ := List.mem_map.1 ha
      exact ⟨_, rfl⟩
  obtain ⟨suffix, rfl⟩ := hsuffix
  rw [stored_plain hs hf]
  exact ⟨rfl, rfl⟩

/-! ## Archives of threads -/

section Split

variable {threads : List (List Str)} {ne_nil : threads ≠ []} {length_le : threads.length ≤ 9}
  {counts : ∀ archives ∈ threads, 1 ≤ archives.length ∧ archives.length ≤ 100}

theorem not_exists_base (hs : (split threads ne_nil length_le counts).StoredAt base fs) :
    pathExists fs base = false := by
  have hempty := hs []
  rw [List.append_nil] at hempty
  unfold pathExists
  rw [hempty]
  rfl

/-- A number with three digits names the archive of a thread. -/
def Present (threads : List (List Str)) (i : Nat) : Prop :=
  ∃ archives, threads[i / 100]? = some archives ∧ i % 100 < archives.length

/-- **The archives of a stored backup.** -/
theorem exists_split (hs : (split threads ne_nil length_le counts).StoredAt base fs) {i : Nat}
    (hi : i < 1000) : pathExists fs (base ++ indexSuffix i) = true ↔ Present threads i := by
  unfold pathExists Present
  rw [hs, Option.isSome_map]
  simp only [archive, parseIndex_indexSuffix hi, Option.bind_some]
  cases threads[i / 100]? with
  | none => simp
  | some archives => simp

theorem present_iff {t n : Nat} (hn : n < 100) :
    Present threads (100 * t + n) ↔ ∃ archives, threads[t]? = some archives ∧ n < archives.length := by
  unfold Present
  rw [show (100 * t + n) / 100 = t by lia, show (100 * t + n) % 100 = n by lia]

theorem exists_thread (hs : (split threads ne_nil length_le counts).StoredAt base fs) {t n : Nat}
    (ht : t < 10) (hn : n < 100) : pathExists fs (base ++ threadSuffix t n) = true ↔
      ∃ archives, threads[t]? = some archives ∧ n < archives.length := by
  rw [threadSuffix_eq hn, exists_split hs (by lia), present_iff hn]

theorem present_first (counts : ∀ archives ∈ threads, 1 ≤ archives.length ∧ archives.length ≤ 100)
    {t : Nat} (ht : t < threads.length) : Present threads (100 * t) := by
  have hget := List.getElem?_eq_getElem ht
  exact (present_iff (n := 0) (by decide)).2
    ⟨threads[t], hget, (counts _ (List.mem_of_getElem? hget)).1⟩

theorem Present.lt_length {i : Nat} (hi : Present threads i) : i / 100 < threads.length := by
  obtain ⟨archives, hget, -⟩ := hi
  exact (List.getElem?_eq_some_iff.1 hget).1

/-- **A restore reads every archive.** -/
theorem mem_restored (hs : (split threads ne_nil length_le counts).StoredAt base fs)
    {as : List Str} (has : extractTarFork fs base = some as) {a : Str} :
    a ∈ as ↔ ∃ i < 1000, a = base ++ indexSuffix i ∧ Present threads i := by
  rw [mem_extractTarFork (not_exists_base hs) has]
  constructor
  · rintro ⟨t, ht, n, hn, rfl, -, hnumbers⟩
    refine ⟨100 * t + n, by lia, by rw [threadSuffix_eq hn], ?_⟩
    rw [present_iff hn]
    exact (exists_thread hs (by lia) hn).1 (hnumbers n (Nat.le_refl n))
  · rintro ⟨i, hi, rfl, hpresent⟩
    have hlt := hpresent.lt_length
    obtain ⟨archives, hget, hnumber⟩ := hpresent
    refine ⟨i / 100, by lia, i % 100, by lia, ?_, ?_, ?_⟩
    · rw [threadSuffix_eq (by lia), Nat.div_add_mod]
    · intro j hj
      rw [exists_thread hs (by lia) (by decide)]
      exact (present_iff (by decide)).1 (present_first counts (by lia))
    · intro m hm
      rw [exists_thread hs (by lia) (by lia)]
      exact ⟨archives, hget, by lia⟩

theorem mem_probed_split (hs : (split threads ne_nil length_le counts).StoredAt base fs) {a : Str} :
    a ∈ probed fs base ↔
      ∃ i < 1000, a = base ++ indexSuffix i ∧ ∀ j ≤ i, Present threads j := by
  rw [mem_probed (not_exists_base hs)]
  constructor
  · rintro ⟨i, hi, rfl, hall⟩
    exact ⟨i, hi, rfl, fun j hj => (exists_split hs (by lia)).1 (hall j hj)⟩
  · rintro ⟨i, hi, rfl, hall⟩
    exact ⟨i, hi, rfl, fun j hj => (exists_split hs (by lia)).2 (hall j hj)⟩

/-- **No gap in the numbers** means that all threads but the last one are full. -/
theorem no_gap_iff (counts : ∀ archives ∈ threads, 1 ≤ archives.length ∧ archives.length ≤ 100) :
    (∀ i, Present threads i → ∀ j ≤ i, Present threads j) ↔
      ∀ archives ∈ threads.dropLast, archives.length = 100 := by
  constructor
  · intro hgap archives hmem
    obtain ⟨t, hget⟩ := List.mem_iff_getElem?.1 hmem
    rw [List.getElem?_dropLast] at hget
    split at hget
    · rename_i hlast
      have hbound := (counts archives (List.mem_of_getElem? hget)).2
      by_contra hne
      -- the number behind the last archive of the thread
      have hnext : Present threads (100 * t + archives.length) :=
        hgap (100 * (t + 1)) (present_first counts (by lia)) _ (by lia)
      rw [present_iff (by lia), hget] at hnext
      obtain ⟨_, heq, hlt⟩ := hnext
      rw [Option.some.inj heq] at hlt
      exact Nat.lt_irrefl _ hlt
    · cases hget
  · intro hfull i hi j hj
    have hlt := hi.lt_length
    obtain ⟨archives, hget, hnumber⟩ := hi
    rcases Nat.eq_or_lt_of_le (Nat.div_le_div_right hj : j / 100 ≤ i / 100) with heq | hbefore
    · refine ⟨archives, ?_, by lia⟩
      rw [heq, hget]
    · have hthread := List.getElem?_eq_getElem (show j / 100 < threads.length by lia)
      refine ⟨_, hthread, ?_⟩
      rw [hfull]
      · lia
      · rw [List.mem_iff_getElem?]
        refine ⟨j / 100, ?_⟩
        rw [List.getElem?_dropLast, if_pos (by lia), hthread]

end Split

/-! ## Coverage -/

/-- A storage with the backup and nothing else. -/
def storage (b : Backup) (base : Str) : Storage := fun name =>
  if base <+: name then (b.archive (name.drop base.length)).map fun data => ⟨data, true, true⟩
  else none

theorem storedAt_storage (b : Backup) (base : Str) : b.StoredAt base (b.storage base) := by
  intro suffix
  unfold storage
  rw [if_pos (List.prefix_append _ _), List.drop_left]

/-- The names fit, and all threads but the last one have a hundred archives. -/
def Complete : Backup → Str → Prop
  | single _, _ => True
  | split threads _ _ _, base =>
    base.length + 3 < 255 ∧ ∀ archives ∈ threads.dropLast, archives.length = 100

end Backup

/-- Where the backup is stored, `Make_Digest` can succeed; when it does, it has written the digests
of exactly the archives that a restore reads, and `Check_Digest` fails as soon as one of them has
contents with another digest. -/
def Covered (h : Hashes) (b : Backup) (base : Str) : Prop :=
  ∀ useSha2 fs, b.StoredAt base fs →
    (∃ written fs₁, makeDigest h useSha2 (fun _ => true) fs base = some (true, written, fs₁)) ∧
    ∀ canWrite written fs₁, makeDigest h useSha2 canWrite fs base = some (true, written, fs₁) →
      ∃ archives, extractTarFork fs base = some archives ∧ archives ≠ [] ∧
        (∀ a, a ∈ written ↔ a ∈ archives) ∧
        ∀ a ∈ archives, ∀ data now, fs a = some ⟨data, true, true⟩ →
          h.returnDigestString (digestKind useSha2) now ≠
            h.returnDigestString (digestKind useSha2) data →
          checkDigest h (fs₁.write a now) base = some false

/-- When the digests go through what a restore reads, they cover it. -/
theorem covered_of_probed {b : Backup} (hfits : ∀ fs, b.StoredAt base fs →
      pathExists fs base = true ∨ base.length + 3 < 512)
    (hprobed : ∀ fs, b.StoredAt base fs → ∃ archives, extractTarFork fs base = some archives ∧
      archives ≠ [] ∧ ∀ a, a ∈ probed fs base ↔ a ∈ archives) : Covered h b base := by
  intro useSha2 fs hs
  obtain ⟨archives, hextract, hne, hmem⟩ := hprobed fs hs
  refine ⟨makeDigest_readable (Backup.stored_readable hs) ?_ (hfits fs hs), ?_⟩
  · intro hnil
    obtain ⟨a, ha⟩ := List.exists_mem_of_ne_nil archives hne
    rw [← hmem a, hnil] at ha
    exact List.not_mem_nil ha
  · intro canWrite written fs₁ hrun
    obtain ⟨rfl, hd⟩ := makeDigest_digested hrun
    refine ⟨archives, hextract, hne, hmem, ?_⟩
    intro a ha data now hbefore hdiff
    exact checkDigest_changed hd (Backup.stored_fresh hs) (hfits fs hs) ((hmem a).2 ha) hbefore hdiff

open Backup in
/-- **The digests cover a backup** exactly when it is complete. -/
theorem covered_iff (b : Backup) (base : Str) : Covered h b base ↔ b.Complete base := by
  cases b with
  | single data =>
    refine iff_of_true ?_ trivial
    have hbase : ∀ fs, (single data).StoredAt base fs → pathExists fs base = true := by
      intro fs hs
      have hempty := hs []
      rw [List.append_nil] at hempty
      unfold pathExists
      rw [hempty]
      rfl
    apply covered_of_probed
    · exact fun fs hs => Or.inl (hbase fs hs)
    · intro fs hs
      refine ⟨[base], ?_, List.cons_ne_nil _ _, ?_⟩
      · unfold extractTarFork
        rw [if_pos (hbase fs hs)]
      · intro a
        unfold probed
        rw [if_pos (hbase fs hs)]
  | split threads ne_nil length_le counts =>
    have hfirst : Present threads 0 := present_first counts (List.length_pos_of_ne_nil ne_nil)
    have hbound : ∀ {i}, Present threads i → i < 1000 := by
      intro i hi
      have hlt := hi.lt_length
      lia
    change _ ↔ base.length + 3 < 255 ∧ ∀ archives ∈ threads.dropLast, archives.length = 100
    rw [← no_gap_iff counts]
    constructor
    · intro hcov
      have hs := storedAt_storage (split threads ne_nil length_le counts) base
      obtain ⟨⟨written, fs₁, hrun⟩, hall⟩ := hcov false _ hs
      obtain ⟨archives, hextract, -, hmem, -⟩ := hall _ _ _ hrun
      constructor
      · rw [extractTarFork_eq, not_exists_base hs, if_neg Bool.false_ne_true,
          if_pos ((exists_thread hs (by decide) (by decide)).2
            ((present_iff (by decide)).1 hfirst))] at hextract
        split at hextract
        · cases hextract
        · lia
      · intro i hi
        have ha := (hmem _).2 ((mem_restored hs hextract).2 ⟨i, hbound hi, rfl, hi⟩)
        rw [(makeDigest_digested hrun).1] at ha
        obtain ⟨i', hi', heq, hgap⟩ := (mem_probed_split hs).1 ha
        rw [indexSuffix_inj (hbound hi) hi' (List.append_cancel_left heq)]
        exact hgap
    · rintro ⟨hlen, hgap⟩
      apply covered_of_probed
      · exact fun fs hs => Or.inr (by lia)
      · intro fs hs
        have hzero := (exists_split hs (by decide)).2 hfirst
        have ⟨archives, hextract⟩ : ∃ archives, extractTarFork fs base = some archives := by
          rw [extractTarFork_eq, if_neg (show ¬255 ≤ base.length + 3 by lia)]
          split
          · exact ⟨_, rfl⟩
          · split
            · exact ⟨_, rfl⟩
            · exact ⟨_, rfl⟩
        refine ⟨archives, hextract, ?_, ?_⟩
        · apply List.ne_nil_of_mem
          exact (mem_restored hs hextract).2 ⟨0, by decide, rfl, hfirst⟩
        · intro a
          rw [mem_probed_split hs, mem_restored hs hextract]
          constructor
          · rintro ⟨i, hi, rfl, hall⟩
            exact ⟨i, hi, rfl, hall i (Nat.le_refl i)⟩
          · rintro ⟨i, hi, rfl, hpresent⟩
            exact ⟨i, hi, rfl, hgap i hpresent⟩

end Recovery.Digest
