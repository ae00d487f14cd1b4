import Recovery.Digest.Driver

/-!
# Coverage of backup digests

* `probed` — the archives that the digest functions go through.
* `mem_extractTarFork` — the archives that a restore reads.
* `checkDigest_eq_true`, `makeLoop_digested` — what the two loops over `probed` do.
* `Digested`, `makeDigest_digested` — the storage after the digests were made.
* `Readable`, `makeLoop_readable` — archives that can be read all get one.

`Digest.Complete` says which backups are covered, and `Digest.Soundness` what a check that succeeds
means.
-/

set_option autoImplicit false

namespace Recovery.Digest

open Recovery.Lib

/-! ## Names -/

theorem parseIndex_indexSuffix {i : Nat} (hi : i < 1000) : parseIndex (indexSuffix i) = some i := by
  have hall : ∀ i : Fin 1000, parseIndex (indexSuffix i) = some i.1 := by decide +kernel
  exact hall ⟨i, hi⟩

theorem length_indexSuffix (i : Nat) : (indexSuffix i).length = 3 := rfl

theorem indexSuffix_inj {i j : Nat} (hi : i < 1000) (hj : j < 1000)
    (h : indexSuffix i = indexSuffix j) : i = j := by
  have hparse := parseIndex_indexSuffix hi
  rw [h, parseIndex_indexSuffix hj] at hparse
  exact (Option.some.inj hparse).symm

theorem threadSuffix_eq {t n : Nat} (hn : n < 100) :
    threadSuffix t n = indexSuffix (100 * t + n) := by
  have hthread : (100 * t + n) / 100 = t := by omega
  have htens : (100 * t + n) / 10 % 10 = n / 10 := by omega
  have hones : (100 * t + n) % 10 = n % 10 := by omega
  unfold threadSuffix indexSuffix
  rw [hthread, htens, hones]

/-! ## Which archives are read -/

theorem mem_takeWhile_range {α : Type} {f : Nat → α} {p : α → Bool} {k : Nat} {a : α} :
    a ∈ ((List.range k).map f).takeWhile p ↔ ∃ n < k, a = f n ∧ ∀ m ≤ n, p (f m) = true := by
  induction k generalizing f with
  | zero => simp
  | succ k ih =>
    rw [List.range_succ_eq_map, List.map_cons, List.map_map]
    by_cases hp : p (f 0) = true
    · rw [List.takeWhile_cons_of_pos hp, List.mem_cons, ih]
      constructor
      · rintro (rfl | ⟨n, hn, rfl, hall⟩)
        · refine ⟨0, by lia, rfl, ?_⟩
          intro m hm
          rw [Nat.le_zero.1 hm]
          exact hp
        · refine ⟨n + 1, by lia, rfl, ?_⟩
          intro m hm
          cases m with
          | zero => exact hp
          | succ m => exact hall m (by lia)
      · rintro ⟨n, hn, rfl, hall⟩
        cases n with
        | zero => exact Or.inl rfl
        | succ n => exact Or.inr ⟨n, by lia, rfl, fun m hm => hall (m + 1) (by lia)⟩
    · rw [List.takeWhile_cons_of_neg hp]
      constructor
      · exact nofun
      · rintro ⟨n, -, -, hall⟩
        exact absurd (hall 0 (Nat.zero_le n)) hp

variable (fs : Storage) (base : Str)

/-- The archives that the digest functions go through. -/
def probed : List Str :=
  if pathExists fs base then [base] else (splitNames base).takeWhile (pathExists fs ·)

variable {fs base}

theorem mem_probed (hbase : pathExists fs base = false) {a : Str} :
    a ∈ probed fs base ↔ ∃ i < 1000, a = base ++ indexSuffix i ∧
      ∀ j ≤ i, pathExists fs (base ++ indexSuffix j) = true := by
  unfold probed splitNames
  rw [hbase, if_neg Bool.false_ne_true]
  exact mem_takeWhile_range

theorem mem_extractMulti {t : Nat} {a : Str} :
    a ∈ extractMulti fs base t ↔ ∃ n < 100, a = base ++ threadSuffix t n ∧
      ∀ m ≤ n, pathExists fs (base ++ threadSuffix t m) = true :=
  mem_takeWhile_range

theorem mem_extractThreads {s k : Nat} {a : Str} :
    a ∈ extractThreads fs base (List.range' s k) ↔ ∃ t, s ≤ t ∧ t < s + k ∧
      (∀ j, s ≤ j → j ≤ t → pathExists fs (base ++ threadSuffix j 0) = true) ∧
      a ∈ extractMulti fs base t := by
  induction k generalizing s with
  | zero =>
    simp [extractThreads]
    intro t hs ht
    lia
  | succ k ih =>
    rw [List.range'_succ, extractThreads]
    split
    · rename_i hexists
      rw [List.mem_append, ih]
      constructor
      · rintro (h | ⟨t, hs, ht, hall, h⟩)
        · refine ⟨s, Nat.le_refl _, by lia, ?_, h⟩
          intro j hsj hjs
          rw [Nat.le_antisymm hjs hsj]
          exact hexists
        · refine ⟨t, by lia, by lia, ?_, h⟩
          intro j hsj hjt
          rcases Nat.eq_or_lt_of_le hsj with rfl | hlt
          · exact hexists
          · exact hall j hlt hjt
      · rintro ⟨t, hs, ht, hall, h⟩
        rcases Nat.eq_or_lt_of_le hs with rfl | hlt
        · exact Or.inl h
        · exact Or.inr ⟨t, hlt, by lia, fun j hsj hjt => hall j (by lia) hjt, h⟩
    · rename_i hexists
      constructor
      · exact nofun
      · rintro ⟨t, hs, ht, hall, -⟩
        exact absurd (hall s (Nat.le_refl _) hs) hexists

variable (fs base) in
/-- Only the names decide what a restore reads. -/
theorem extractTarFork_eq : extractTarFork fs base =
    if pathExists fs base then some [base]
    else if pathExists fs (base ++ threadSuffix 0 0) then
      if 255 ≤ base.length + 3 then none else some (extractThreads fs base (List.range' 0 9))
    else some [] := by
  have hfirst : ascii "000" = threadSuffix 0 0 := by decide
  unfold extractTarFork
  rw [hfirst]
  split
  · rfl
  · cases hfile : fs (base ++ threadSuffix 0 0) with
    | none => simp [pathExists, hfile]
    | some first =>
      have hexists : pathExists fs (base ++ threadSuffix 0 0) = true := by
        unfold pathExists
        rw [hfile]
        rfl
      -- all threads, or thread 0 and then the others
      have hzero : extractThreads fs base (List.range' 0 9) =
          extractMulti fs base 0 ++ extractThreads fs base (List.range' 1 8) :=
        if_pos hexists
      rw [if_pos hexists, hzero]
      simp

/-- **The archives of a restore**, by thread and number. -/
theorem mem_extractTarFork (hbase : pathExists fs base = false) {as : List Str}
    (h : extractTarFork fs base = some as) {a : Str} :
    a ∈ as ↔ ∃ t < 9, ∃ n < 100, a = base ++ threadSuffix t n ∧
      (∀ j ≤ t, pathExists fs (base ++ threadSuffix j 0) = true) ∧
      ∀ m ≤ n, pathExists fs (base ++ threadSuffix t m) = true := by
  rw [extractTarFork_eq, hbase, if_neg Bool.false_ne_true] at h
  split at h
  · split at h
    · cases h
    · rw [← Option.some.inj h, mem_extractThreads]
      constructor
      · rintro ⟨t, -, ht, hthreads, ha⟩
        obtain ⟨n, hn, rfl, hnumbers⟩ := mem_extractMulti.1 ha
        exact ⟨t, by omega, n, hn, rfl, fun j hj => hthreads j (Nat.zero_le j) hj, hnumbers⟩
      · rintro ⟨t, ht, n, hn, rfl, hthreads, hnumbers⟩
        exact ⟨t, Nat.zero_le t, by omega, fun j _ hj => hthreads j hj,
          mem_extractMulti.2 ⟨n, hn, rfl, hnumbers⟩⟩
  · rename_i hfirst
    cases h
    constructor
    · exact nofun
    · rintro ⟨t, -, n, -, -, hall, -⟩
      exact absurd (hall 0 (Nat.zero_le t)) hfirst

/-! ## Checking -/

variable {h : Hashes}

/-- The archive can be read, and its digest is the stored one. -/
def Matches (h : Hashes) (fs : Storage) (name : Str) : Prop :=
  ∃ kind digestfile f data, findDigest fs name = some (kind, digestfile) ∧
    fs digestfile = some f ∧ f.opens = true ∧ streamFileToDigest fs name = some (some data) ∧
    h.returnDigestString kind data = f.word

theorem checkFileDigest_eq_true {name : Str} :
    checkFileDigest h fs name = some true ↔
      (findDigest fs name = none ∧ isExempt name = true) ∨ Matches h fs name := by
  unfold checkFileDigest Matches
  cases hfind : findDigest fs name with
  | none => simp
  | some p =>
    obtain ⟨kind, digestfile⟩ := p
    cases hfile : fs digestfile with
    | none => simp [hfile]
    | some f =>
      cases hopens : f.opens with
      | false => simp [hfile, hopens]
      | true =>
        cases hstream : streamFileToDigest fs name with
        | none => simp [hfile, hopens]
        | some data =>
          cases data with
          | none => simp [hfile, hopens]
          | some data => simp [hfile, hopens]

theorem checkLoop_eq_true {names : List Str} :
    checkLoop h fs names = some true ↔
      ∀ a ∈ names.takeWhile (pathExists fs ·), checkFileDigest h fs a = some true := by
  induction names with
  | nil => simp [checkLoop]
  | cons name names ih =>
    unfold checkLoop
    by_cases hexists : pathExists fs name = true
    · rw [if_pos hexists, List.takeWhile_cons_of_pos hexists, List.forall_mem_cons, ← ih]
      cases checkFileDigest h fs name with
      | none => simp
      | some ok => cases ok <;> simp
    · rw [if_neg hexists, List.takeWhile_cons_of_neg hexists]
      simp

/-- **A check succeeds** when the check of every archive it goes through does. -/
theorem checkDigest_eq_true :
    checkDigest h fs base = some true ↔
      (pathExists fs base = true ∨ base.length + 3 < 512) ∧
        ∀ a ∈ probed fs base, checkFileDigest h fs a = some true := by
  unfold checkDigest probed
  by_cases hbase : pathExists fs base = true
  · rw [if_pos hbase, if_pos hbase]
    simp [hbase]
  · rw [if_neg hbase, if_neg hbase]
    split
    · rename_i hlong
      simp [hbase]
      lia
    · rename_i hfits
      rw [checkLoop_eq_true]
      simp only [hbase, Bool.false_eq_true, false_or]
      exact ⟨fun hall => ⟨by lia, hall⟩, And.right⟩

/-! ## Making -/

theorem hexDigit_not_blank (b : UInt8) :
    isBlank (hexDigit (b / 16)) = false ∧ isBlank (hexDigit (b % 16)) = false := by
  have hall : ∀ n : Fin 256, isBlank (hexDigit (UInt8.ofFin n / 16)) = false ∧
      isBlank (hexDigit (UInt8.ofFin n % 16)) = false := by
    decide +kernel
  exact hall b.toFin

theorem digestString_not_blank {kind : Kind} {data : Str} :
    ∀ c ∈ h.returnDigestString kind data, isBlank c = false := by
  have hhex (hash : Str) : ∀ c ∈ hexify hash, isBlank c = false := by
    intro c hc
    obtain ⟨b, -, hb⟩ := List.mem_flatMap.1 hc
    rcases List.mem_cons.1 hb with rfl | hb
    · exact (hexDigit_not_blank b).1
    · rw [List.mem_singleton.1 hb]
      exact (hexDigit_not_blank b).2
  cases kind with
  | md5 => exact hhex _
  | sha256 => exact hhex _

theorem digestString_ne_nil (kind : Kind) (data : Str) : h.returnDigestString kind data ≠ [] := by
  have hhex {hash : Str} (hlen : hash.length ≠ 0) : hexify hash ≠ [] := by
    cases hash with
    | nil => exact absurd rfl hlen
    | cons b hash => exact List.cons_ne_nil _ _
  cases kind with
  | md5 => exact hhex (by rw [h.md5_length]; decide)
  | sha256 => exact hhex (by rw [h.sha256_length]; decide)

/-- The contents of a digest file. -/
def digestText (h : Hashes) (useSha2 : Bool) (name data : Str) : Str :=
  h.returnDigestString (digestKind useSha2) data ++ ascii "  " ++ getFilename name ++ ascii "\n"

/-- The check reads back the digest that was written. -/
theorem word_digestText (useSha2 : Bool) (name data : Str) :
    (⟨digestText h useSha2 name data, true, true⟩ : File).word =
      h.returnDigestString (digestKind useSha2) data := by
  have hspaces : ascii "  " = [32, 32] := by decide
  unfold File.word digestText
  rw [if_pos rfl, hspaces, List.append_assoc, List.append_assoc, List.cons_append,
    dropWhile_word (digestString_ne_nil _ _) digestString_not_blank,
    List.takeWhile_append_of_pos (by simpa using digestString_not_blank),
    List.takeWhile_cons_of_neg (by decide), List.append_nil]

theorem writeDigest_true {useSha2 : Bool} {canWrite : Str → Bool} {name : Str} {fs' : Storage}
    (hrun : writeDigest h useSha2 canWrite fs name = some (true, fs')) :
    ∃ f, fs name = some f ∧
      fs' = fs.write (name ++ digestExtension useSha2) (digestText h useSha2 name f.data) := by
  unfold writeDigest at hrun
  obtain ⟨r, hr, hrun⟩ := Option.map_eq_some_iff.1 hrun
  unfold streamFileToDigest at hr
  cases hfile : fs name with
  | none =>
    rw [hfile] at hr
    cases hr
    cases hrun
  | some f =>
    rw [hfile] at hr
    dsimp only at hr
    split at hr
    · cases hr
      cases hrun
    · split at hr
      · cases hr
      · cases hr
        dsimp only at hrun
        rw [if_neg (digestString_ne_nil _ _)] at hrun
        split at hrun
        · exact ⟨f, rfl, (Prod.mk.inj hrun).2.symm⟩
        · cases hrun

theorem write_other {name other data : Str} (hne : other ≠ name) :
    fs.write name data other = fs other := if_neg hne

theorem write_self (name data : Str) : fs.write name data name = some ⟨data, true, true⟩ := if_pos rfl

theorem takeWhile_congr {α : Type} {p q : α → Bool} {l : List α} (hpq : ∀ a ∈ l, p a = q a) :
    l.takeWhile p = l.takeWhile q := by
  induction l with
  | nil => rfl
  | cons a l ih =>
    rw [List.takeWhile_cons, List.takeWhile_cons, hpq a List.mem_cons_self,
      ih fun b hb => hpq b (List.mem_cons_of_mem _ hb)]

theorem pathExists_congr {fs' : Storage} {name : Str} (heq : fs' name = fs name) :
    pathExists fs' name = pathExists fs name := by
  unfold pathExists
  rw [heq]

/-- The digests of some archives have been written, and nothing else. -/
structure Digested (h : Hashes) (useSha2 : Bool) (names : List Str) (fs fs' : Storage) : Prop where
  written : ∀ a ∈ names, ∃ f, fs a = some f ∧
    fs' (a ++ digestExtension useSha2) = some ⟨digestText h useSha2 a f.data, true, true⟩
  others : ∀ name, (∀ a ∈ names, name ≠ a ++ digestExtension useSha2) → fs' name = fs name

/-- **The loop over the archives** writes the digests of those that it goes through. -/
theorem makeLoop_digested {useSha2 : Bool} {canWrite : Str → Bool} {names written : List Str}
    {fs' : Storage} (hsep : ∀ a ∈ names, ∀ b ∈ names, a ≠ b ++ digestExtension useSha2)
    (hrun : makeLoop h useSha2 canWrite names fs = some (true, written, fs')) :
    written = names.takeWhile (pathExists fs ·) ∧ Digested h useSha2 written fs fs' := by
  induction names generalizing fs written with
  | nil =>
    cases hrun
    exact ⟨rfl, nofun, fun _ _ => rfl⟩
  | cons name names ih =>
    unfold makeLoop at hrun
    split at hrun
    · rename_i hexists
      obtain ⟨⟨ok, fs₁⟩, hwrite, hrun⟩ := Option.bind_eq_some_iff.1 hrun
      dsimp only at hrun
      split at hrun
      · rename_i hok
        rw [hok] at hwrite
        obtain ⟨f, hf, rfl⟩ := writeDigest_true hwrite
        obtain ⟨⟨ok', written', fs₂⟩, hloop, heq⟩ := Option.map_eq_some_iff.1 hrun
        simp only [Prod.mk.injEq] at heq
        obtain ⟨rfl, rfl, rfl⟩ := heq
        have hkeep : ∀ a ∈ name :: names, fs.write (name ++ digestExtension useSha2)
            (digestText h useSha2 name f.data) a = fs a :=
          fun a ha => write_other (hsep a ha name List.mem_cons_self)
        obtain ⟨hwritten, hdigested⟩ := ih
          (fun a ha b hb => hsep a (List.mem_cons_of_mem _ ha) b (List.mem_cons_of_mem _ hb)) hloop
        have htake : names.takeWhile (pathExists (fs.write (name ++ digestExtension useSha2)
            (digestText h useSha2 name f.data)) ·) = names.takeWhile (pathExists fs ·) :=
          takeWhile_congr fun a ha => pathExists_congr (hkeep a (List.mem_cons_of_mem _ ha))
        have hsub : ∀ a ∈ written', a ∈ names := by
          rw [hwritten]
          exact fun a ha => (List.takeWhile_prefix _).subset ha
        refine ⟨?_, ?_, ?_⟩
        · rw [List.takeWhile_cons_of_pos hexists, hwritten, htake]
        · have hrest : ∀ a ∈ written', ∃ g, fs a = some g ∧ fs₂ (a ++ digestExtension useSha2) =
              some ⟨digestText h useSha2 a g.data, true, true⟩ := by
            intro a ha
            obtain ⟨g, hg, htext⟩ := hdigested.written a ha
            rw [hkeep a (List.mem_cons_of_mem _ (hsub a ha))] at hg
            exact ⟨g, hg, htext⟩
          rw [List.forall_mem_cons]
          refine ⟨?_, hrest⟩
          by_cases hmem : name ∈ written'
          · exact hrest name hmem
          · refine ⟨f, hf, ?_⟩
            rw [hdigested.others, write_self]
            intro a ha heq
            exact hmem (List.append_cancel_right heq ▸ ha)
        · intro other hother
          rw [hdigested.others other fun a ha => hother a (List.mem_cons_of_mem _ ha)]
          exact write_other (hother name List.mem_cons_self)
      · cases hrun
    · rename_i hexists
      cases hrun
      rw [List.takeWhile_cons_of_neg hexists]
      exact ⟨rfl, nofun, fun _ _ => rfl⟩

theorem extension_ne_nil (useSha2 : Bool) : digestExtension useSha2 ≠ [] := by
  cases useSha2 <;> decide

theorem length_splitNames {a : Str} (ha : a ∈ splitNames base) : a.length = base.length + 3 := by
  obtain ⟨i, -, rfl⟩ := List.mem_map.1 ha
  rw [List.length_append, length_indexSuffix]

/-- The archives have names of one length. -/
theorem length_probed : ∃ n, ∀ a ∈ probed fs base, a.length = n := by
  unfold probed
  split
  · exact ⟨base.length, fun a ha => by rw [List.mem_singleton.1 ha]⟩
  · exact ⟨base.length + 3, fun a ha => length_splitNames ((List.takeWhile_prefix _).subset ha)⟩

/-- **Making digests** covers the archives that the digest functions go through. -/
theorem makeDigest_digested {useSha2 : Bool} {canWrite : Str → Bool} {written : List Str}
    {fs' : Storage} (hrun : makeDigest h useSha2 canWrite fs base = some (true, written, fs')) :
    written = probed fs base ∧ Digested h useSha2 written fs fs' := by
  unfold makeDigest at hrun
  unfold probed
  by_cases hbase : pathExists fs base = true
  · rw [if_pos hbase] at hrun ⊢
    obtain ⟨⟨ok, fs₁⟩, hwrite, heq⟩ := Option.map_eq_some_iff.1 hrun
    simp only [Prod.mk.injEq] at heq
    obtain ⟨rfl, rfl, rfl⟩ := heq
    obtain ⟨f, hf, rfl⟩ := writeDigest_true hwrite
    refine ⟨rfl, ?_, ?_⟩
    · intro a ha
      rw [if_pos rfl, List.mem_singleton] at ha
      subst ha
      exact ⟨f, hf, write_self _ _⟩
    · intro name hname
      exact write_other (hname base (by simp))
  · rw [if_neg hbase] at hrun ⊢
    split at hrun
    · cases hrun
    · obtain ⟨⟨ok, written', fs₁⟩, hloop, heq⟩ := Option.map_eq_some_iff.1 hrun
      simp only [Prod.mk.injEq, Bool.and_eq_true] at heq
      obtain ⟨⟨rfl, -⟩, rfl, rfl⟩ := heq
      apply makeLoop_digested _ hloop
      intro a ha b hb heq
      have hlen := congrArg List.length heq
      rw [List.length_append, length_splitNames ha, length_splitNames hb] at hlen
      exact extension_ne_nil useSha2 (List.eq_nil_of_length_eq_zero (by lia))

/-- All archives can be read. -/
def Readable (fs : Storage) (names : List Str) : Prop :=
  ∀ a ∈ names, ∀ f, fs a = some f → f.opens = true ∧ f.reads = true

theorem writeDigest_readable {useSha2 : Bool} {name : Str} {f : File} (hf : fs name = some f)
    (hopens : f.opens = true) (hreads : f.reads = true) :
    writeDigest h useSha2 (fun _ => true) fs name =
      some (true, fs.write (name ++ digestExtension useSha2) (digestText h useSha2 name f.data)) := by
  unfold writeDigest streamFileToDigest
  rw [hf]
  dsimp only
  rw [hopens, hreads]
  simp only [Bool.not_true, Bool.false_eq_true, if_false, if_true, Option.map_some,
    digestString_ne_nil]
  rfl

theorem makeLoop_readable {useSha2 : Bool} {names : List Str}
    (hsep : ∀ a ∈ names, ∀ b ∈ names, a ≠ b ++ digestExtension useSha2)
    (hread : Readable fs names) :
    ∃ written fs', makeLoop h useSha2 (fun _ => true) names fs = some (true, written, fs') := by
  induction names generalizing fs with
  | nil => exact ⟨[], fs, rfl⟩
  | cons name names ih =>
    unfold makeLoop
    split
    · rename_i hexists
      obtain ⟨f, hf⟩ := Option.isSome_iff_exists.1 hexists
      obtain ⟨hopens, hreads⟩ := hread name List.mem_cons_self f hf
      rw [writeDigest_readable hf hopens hreads, Option.bind_some]
      dsimp only
      rw [if_pos rfl]
      have hread' : Readable (fs.write (name ++ digestExtension useSha2)
          (digestText h useSha2 name f.data)) names := by
        intro a ha g hg
        rw [write_other (hsep a (List.mem_cons_of_mem _ ha) name List.mem_cons_self)] at hg
        exact hread a (List.mem_cons_of_mem _ ha) g hg
      obtain ⟨written, fs', hloop⟩ := ih
        (fun a ha b hb => hsep a (List.mem_cons_of_mem _ ha) b (List.mem_cons_of_mem _ hb)) hread'
      rw [hloop]
      exact ⟨_, _, rfl⟩
    · exact ⟨[], fs, rfl⟩

/-! ## Checking after making -/

/-- The digest file that the check finds is the one that was written. -/
theorem findDigest_digested {useSha2 : Bool} {names : List Str} {fs' : Storage} {n : Nat}
    (hlen : ∀ a ∈ names, a.length = n) (hd : Digested h useSha2 names fs fs')
    (hnone : ∀ a ∈ names, fs (a ++ ascii ".sha2") = none ∧ fs (a ++ ascii ".sha256") = none)
    {a : Str} (ha : a ∈ names) :
    findDigest fs' a = some (digestKind useSha2, a ++ digestExtension useSha2) := by
  obtain ⟨f, -, htext⟩ := hd.written a ha
  have hexists : pathExists fs' (a ++ digestExtension useSha2) = true := by
    unfold pathExists
    rw [htext]
    rfl
  cases useSha2 with
  | true =>
    change pathExists fs' (a ++ ascii ".sha2") = true at hexists
    unfold findDigest
    rw [if_pos hexists]
    rfl
  | false =>
    change pathExists fs' (a ++ ascii ".md5") = true at hexists
    have hother {ext : Str} (hext : ext.length ≠ (digestExtension false).length)
        (hfs : fs (a ++ ext) = none) : pathExists fs' (a ++ ext) = false := by
      unfold pathExists
      rw [hd.others, hfs]
      · rfl
      · intro b hb heq
        have hlength := congrArg List.length heq
        rw [List.length_append, List.length_append, hlen a ha, hlen b hb] at hlength
        exact hext (by lia)
    unfold findDigest
    rw [hother (by decide) (hnone a ha).1, hother (by decide) (hnone a ha).2,
      if_neg Bool.false_ne_true, if_neg Bool.false_ne_true, if_pos hexists]
    rfl

end Recovery.Digest
