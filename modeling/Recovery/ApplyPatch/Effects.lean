import Recovery.ApplyPatch.ApplyPatch

/-!
# What the operations of `applypatch` leave behind

* `Probe` — operations that leave the files alone and whose result a fault can only spoil, with
  the rules `Probe.head` and `Probe.bind`.
* `saveFileContents_spec` — the copy while and after it is written.
* `partly` — the contents of a partition while a file is written to it; `attempts_spec`.
* `firstMatch` — what `LoadPartitionContents` finds; `loadFileContents_partition`.

A fault may hit any system call.  `Quiet` is a phase that none hits any more, and the
specifications come in pairs: what holds of every run, and what a quiet one achieves.
-/

set_option autoImplicit false

namespace Recovery.ApplyPatch

open Recovery.Lib Recovery.OtaUtil

/-! ## I/O operations -/

/-- Nothing goes wrong in phase `p` from `s` on. -/
def Quiet (s : St) (p : Phase) : Prop := ∀ f ∈ s.fates p, f = Fate.ok

/-- Every phase is quiet. -/
def AllQuiet (s : St) : Prop := ∀ p, Quiet s p

/-- A step to `s'` leaves the quiet phases of `s` quiet. -/
def Calm (s s' : St) : Prop := ∀ p, Quiet s p → Quiet s' p

theorem Calm.refl (s : St) : Calm s s := fun _ h => h

theorem Calm.trans {s s' s'' : St} (h : Calm s s') (h' : Calm s' s'') : Calm s s'' :=
  fun p hp => h' p (h p hp)

theorem Calm.all {s s' : St} (h : Calm s s') (hall : AllQuiet s) : AllQuiet s' :=
  fun p => h p (hall p)

theorem Calm.of_fates {s s' : St} (h : s'.fates = s.fates) : Calm s s' := by
  intro p hp
  unfold Quiet at hp ⊢
  rw [h]
  exact hp

theorem nextFate_spec (p : Phase) (s : St) (C : Stop → St → Prop) :
    Outcome (nextFate p) s
      (fun f s' => s'.files = s.files ∧ Calm s s' ∧ (Quiet s p → f = .ok)) C := by
  unfold Outcome nextFate
  cases h : s.fates p with
  | nil => exact ⟨rfl, Calm.refl s, fun _ => rfl⟩
  | cons f fs =>
    refine ⟨rfl, ?_, fun hq => hq f (by simp [h])⟩
    intro q hq g hg
    change g ∈ Function.update s.fates p fs q at hg
    by_cases hqp : q = p
    · subst hqp
      rw [Function.update_self] at hg
      exact hq g (by simp [h, hg])
    · rw [Function.update_of_ne hqp] at hg
      exact hq g hg

/-- `x` leaves the files alone and returns `v`, or `w` when something goes wrong in phase `p`. -/
def Probe {α : Type} (p : Phase) (x : M α) (s : St) (v w : α) : Prop :=
  Outcome x s
    (fun a s' => s'.files = s.files ∧ Calm s s' ∧ (a = v ∨ a = w) ∧ (Quiet s p → a = v))
    fun _ s' => s'.files = s.files ∧ ¬ Quiet s p

namespace Probe

variable {α β : Type} {p : Phase} {x : M α} {s : St} {v w : α}

theorem pure (p : Phase) (s : St) (v w : α) : Probe p (Pure.pure v) s v w :=
  ⟨rfl, Calm.refl s, .inl rfl, fun _ => rfl⟩

/-- A probe at the head of a program. -/
theorem head {f : α → M β} {Q : β → St → Prop} {C : Stop → St → Prop} (hx : Probe p x s v w)
    (hv : ∀ s', s'.files = s.files → Calm s s' → Outcome (f v) s' Q C)
    (hw : ∀ s', s'.files = s.files → Calm s s' → ¬ Quiet s p → Outcome (f w) s' Q C)
    (hc : ∀ e s', s'.files = s.files → ¬ Quiet s p → C e s') : Outcome (x >>= f) s Q C := by
  refine (hx.weaken (fun _ _ h => h) fun e s' h => hc e s' h.1 h.2).bind ?_
  rintro a s' ⟨hf, hcalm, ha, hq⟩
  by_cases hav : a = v
  · rw [hav]
    exact hv s' hf hcalm
  · obtain rfl := ha.resolve_left hav
    exact hw s' hf hcalm fun h => hav (hq h)

theorem bind {f : α → M β} {v' w' : β} (hx : Probe p x s v w)
    (hv : ∀ s', s'.files = s.files → Probe p (f v) s' v' w')
    (hw : f w = Pure.pure w') : Probe p (x >>= f) s v' w' := by
  apply hx.head
  · intro s₁ hf₁ hc₁
    refine (hv s₁ hf₁).weaken ?_ ?_
    · rintro b s₂ ⟨hf₂, hc₂, hb, hq⟩
      exact ⟨hf₂.trans hf₁, hc₁.trans hc₂, hb, fun h => hq (hc₁ _ h)⟩
    · rintro e s₂ ⟨hf₂, hq⟩
      exact ⟨hf₂.trans hf₁, fun h => hq (hc₁ _ h)⟩
  · intro s₁ hf₁ hc₁ hq
    rw [hw]
    exact ⟨hf₁, hc₁, .inr rfl, fun h => absurd h hq⟩
  · exact fun e s₁ hf₁ hq => ⟨hf₁, hq⟩

end Probe

theorem ioOk_probe (p : Phase) (s : St) : Probe p (ioOk p) s true false := by
  unfold ioOk
  refine (nextFate_spec p s _).bind ?_
  rintro f s' ⟨hfiles, hcalm, hok⟩
  cases f with
  | ok => exact ⟨hfiles, hcalm, .inl rfl, fun _ => rfl⟩
  | fail n => exact ⟨hfiles, hcalm, .inr rfl, fun hq => (nomatch hok hq)⟩
  | crash n => exact ⟨hfiles, fun hq => (nomatch hok hq)⟩

theorem openFile_probe (p : Phase) (path : String) (s : St) :
    Probe p (openFile p path) s (s.files path) none := by
  unfold openFile
  refine (ioOk_probe p s).bind ?_ rfl
  intro s' hf
  rw [← hf]
  exact Probe.pure p s' _ _

/-- Only `path` may have changed. -/
def SameElse (path : String) (s s' : St) : Prop := ∀ q, q ≠ path → s'.files q = s.files q

theorem SameElse.of_files {path : String} {s s' : St} (h : s'.files = s.files) :
    SameElse path s s' := fun _ _ => by rw [h]

theorem SameElse.trans {path : String} {s s' s'' : St} (h : SameElse path s s')
    (h' : SameElse path s' s'') : SameElse path s s'' :=
  fun q hq => (h' q hq).trans (h q hq)

/-- The state after `setFile`. -/
def St.put (s : St) (path : String) (content : Option Bytes) : St :=
  { s with files := Function.update s.files path content }

@[simp] theorem St.put_files_self (s : St) (path : String) (content : Option Bytes) :
    (s.put path content).files path = content := by
  simp [St.put]

theorem St.put_same (s : St) (path : String) (content : Option Bytes) :
    SameElse path s (s.put path content) := by
  intro q hq
  simp [St.put, hq]

theorem St.put_calm (s : St) (path : String) (content : Option Bytes) :
    Calm s (s.put path content) := Calm.of_fates rfl

theorem setFile_run (path : String) (content : Option Bytes) (s : St) :
    setFile path content s = .ok ⟨⟩ (s.put path content) := rfl

theorem openTruncated_spec (p : Phase) (path : String) (s : St) :
    Outcome (openTruncated p path) s
      (fun b s' => SameElse path s s' ∧ Calm s s' ∧ (Quiet s p → b = true) ∧
        s'.files path = if b then some [] else s.files path)
      fun _ s' => SameElse path s s' ∧ ¬ Quiet s p ∧
        (s'.files path = s.files path ∨ s'.files path = some []) := by
  unfold openTruncated
  refine (nextFate_spec p s _).bind ?_
  rintro f s₁ ⟨hfiles, hcalm, hok⟩
  have hs₁ : SameElse path s s₁ := .of_files hfiles
  cases f with
  | ok =>
    refine Outcome.bind_run (setFile_run _ _ _) ?_
    exact ⟨hs₁.trans (s₁.put_same _ _), hcalm.trans (s₁.put_calm _ _), fun _ => rfl, by simp⟩
  | fail n => exact ⟨hs₁, hcalm, fun hq => (nomatch hok hq), by simp [hfiles]⟩
  | crash n =>
    have hq : ¬ Quiet s p := fun hq => (nomatch hok hq)
    dsimp only
    split
    · refine Outcome.bind_run (setFile_run _ _ _) ?_
      exact ⟨hs₁.trans (s₁.put_same _ _), hq, .inr (by simp)⟩
    · exact ⟨hs₁, hq, .inl (by rw [hfiles])⟩

theorem appendBytes_spec (p : Phase) (path : String) (data : Bytes) (s : St)
    (h : s.files path = some []) :
    Outcome (appendBytes p path data) s
      (fun b s' => SameElse path s s' ∧ Calm s s' ∧ (Quiet s p → b = true) ∧
        (b = true → s'.files path = some data) ∧ ∃ n, s'.files path = some (data.take n))
      fun _ s' => SameElse path s s' ∧ ¬ Quiet s p ∧ ∃ n, s'.files path = some (data.take n) := by
  unfold appendBytes
  refine Outcome.bind_get ((nextFate_spec p s _).bind ?_)
  rintro f s₁ ⟨hfiles, hcalm, hok⟩
  have hs₁ : SameElse path s s₁ := .of_files hfiles
  simp only [h, Option.getD_some, List.nil_append]
  cases f with
  | ok =>
    refine Outcome.bind_run (setFile_run _ _ _) ?_
    exact ⟨hs₁.trans (s₁.put_same _ _), hcalm.trans (s₁.put_calm _ _), fun _ => rfl,
      fun _ => by simp, data.length, by simp⟩
  | fail n =>
    refine Outcome.bind_run (setFile_run _ _ _) ?_
    exact ⟨hs₁.trans (s₁.put_same _ _), hcalm.trans (s₁.put_calm _ _),
      fun hq => (nomatch hok hq), fun hb => (nomatch hb), n, by simp⟩
  | crash n =>
    refine Outcome.bind_run (setFile_run _ _ _) ?_
    exact ⟨hs₁.trans (s₁.put_same _ _), fun hq => (nomatch hok hq), n, by simp⟩

/-- **Saving the source**: until the copy is complete it is a prefix of the source or what it was
before. -/
theorem saveFileContents_spec (path : String) (file : FileContents) (s : St) :
    Outcome (saveFileContents path file) s
      (fun b s' => SameElse path s s' ∧ Calm s s' ∧ (Quiet s .save → b = true) ∧
        (b = true → s'.files path = some file.data) ∧
        (s'.files path = s.files path ∨ ∃ n, s'.files path = some (file.data.take n)))
      fun _ s' => SameElse path s s' ∧ ¬ Quiet s .save ∧
        (s'.files path = s.files path ∨ ∃ n, s'.files path = some (file.data.take n)) := by
  unfold saveFileContents
  refine ((openTruncated_spec .save path s).weaken (fun _ _ h => h) ?_).bind ?_
  · rintro e s₁ ⟨hs₁, hq, h | h⟩
    · exact ⟨hs₁, hq, .inl h⟩
    · exact ⟨hs₁, hq, .inr ⟨0, h⟩⟩
  rintro b s₁ ⟨hs₁, hc₁, hq₁, h₁⟩
  cases b with
  | false => exact ⟨hs₁, hc₁, hq₁, fun hb => (nomatch hb), .inl (by simpa using h₁)⟩
  | true =>
    refine ((appendBytes_spec .save path file.data s₁ h₁).weaken (fun _ _ h => h) ?_).bind ?_
    · rintro e s₂ ⟨hs₂, hq₂, hn⟩
      exact ⟨hs₁.trans hs₂, fun hq => hq₂ (hc₁ _ hq), .inr hn⟩
    rintro b s₂ ⟨hs₂, hc₂, hq₂, h₂, hn⟩
    have hs := hs₁.trans hs₂
    have hc := hc₁.trans hc₂
    cases b with
    | false => exact ⟨hs, hc, fun hq => hq₂ (hc₁ _ hq), fun hb => (nomatch hb), .inr hn⟩
    | true =>
      -- `ota_fsync`, then `ota_close`
      have hend : Probe .save (do if ← ioOk .save then ioOk .save else return false) s₂ true
          false := (ioOk_probe .save s₂).bind (fun s₃ _ => ioOk_probe .save s₃) rfl
      refine hend.weaken ?_ ?_
      · rintro b s₃ ⟨hf₃, hc₃, -, hq₃⟩
        exact ⟨hs.trans (.of_files hf₃), hc.trans hc₃, fun hq => hq₃ (hc _ hq),
          fun _ => by rw [hf₃, h₂ rfl], .inr (by rw [hf₃]; exact hn)⟩
      · rintro e s₃ ⟨hf₃, hq₃⟩
        exact ⟨hs.trans (.of_files hf₃), fun hq => hq₃ (hc _ hq), .inr (by rw [hf₃]; exact hn)⟩

/-! ## Partly written partitions -/

/-- `dev` with the first `k` bytes of `target` written over its beginning. -/
def partly (dev target : Bytes) (k : Nat) : Bytes := pwrite dev 0 (target.take k)

theorem pwrite_zero_getElem? {dev data : Bytes} (h : data.length ≤ dev.length) (i : Nat) :
    (pwrite dev 0 data)[i]? = if i < data.length then data[i]? else dev[i]? := by
  rw [pwrite, List.take_zero, List.nil_append, Nat.sub_zero, Nat.zero_add,
    List.take_of_length_le h]
  split
  · rename_i hi
    rw [List.getElem?_append_left hi]
  · rename_i hi
    rw [List.getElem?_append_right (by lia), List.getElem?_drop]
    congr 1
    lia

theorem partly_getElem? {dev target : Bytes} (h : target.length ≤ dev.length) (k i : Nat) :
    (partly dev target k)[i]? = if i < k ∧ i < target.length then target[i]? else dev[i]? := by
  have hl : (target.take k).length ≤ dev.length := by rw [List.length_take]; lia
  rw [partly, pwrite_zero_getElem? hl, List.length_take, List.getElem?_take]
  by_cases hi : i < k ∧ i < target.length
  · rw [if_pos (by lia), if_pos hi.1, if_pos hi]
  · rw [if_neg (by lia), if_neg hi]

theorem length_partly {dev target : Bytes} (h : target.length ≤ dev.length) (k : Nat) :
    (partly dev target k).length = dev.length := by
  simp only [partly, pwrite, List.length_append, List.length_take, List.length_drop]
  omega

theorem partly_zero (dev target : Bytes) : partly dev target 0 = dev := by
  simp [partly, pwrite]

/-- Writing once more only moves the mark. -/
theorem pwrite_partly {dev target : Bytes} (h : target.length ≤ dev.length) (k j : Nat) :
    pwrite (partly dev target k) 0 (target.take j) = partly dev target (max k j) := by
  apply List.ext_getElem?
  intro i
  have hl : (target.take j).length ≤ (partly dev target k).length := by
    rw [length_partly h, List.length_take]
    omega
  rw [pwrite_zero_getElem? hl, partly_getElem? h, partly_getElem? h, List.length_take,
    List.getElem?_take]
  grind

theorem take_partly {dev target : Bytes} (h : target.length ≤ dev.length) {k : Nat}
    (hk : target.length ≤ k) : (partly dev target k).take target.length = target := by
  apply List.ext_getElem?
  intro i
  rw [List.getElem?_take, partly_getElem? h]
  grind

theorem writeBytes_spec {part : String} {dev target : Bytes} {k : Nat} {s : St}
    (h : target.length ≤ dev.length) (hs : s.files part = some (partly dev target k)) :
    Outcome (writeBytes .write part 0 target) s
      (fun b s' => SameElse part s s' ∧ Calm s s' ∧ (Quiet s .write → b = true) ∧
        ∃ k' ≥ k, s'.files part = some (partly dev target k') ∧ (b = true → target.length ≤ k'))
      fun _ s' => SameElse part s s' ∧ ¬ Quiet s .write ∧
        ∃ k' ≥ k, s'.files part = some (partly dev target k') := by
  unfold writeBytes
  refine Outcome.bind_get ((nextFate_spec .write s _).bind ?_)
  rintro f s₁ ⟨hfiles, hcalm, hok⟩
  have hs₁ : SameElse part s s₁ := .of_files hfiles
  have hput (n : Nat) : setFile part (some (pwrite (partly dev target k) 0 (target.take n))) s₁ =
      .ok ⟨⟩ (s₁.put part (some (partly dev target (max k n)))) := by
    rw [pwrite_partly h]
    rfl
  simp only [hs, Option.getD_some]
  cases f with
  | ok =>
    refine Outcome.bind_run (by simpa using hput target.length) ?_
    exact ⟨hs₁.trans (s₁.put_same _ _), hcalm.trans (s₁.put_calm _ _),
      fun _ => by simpa [length_partly h] using h, _, Nat.le_max_left _ _, by simp,
      fun _ => Nat.le_max_right _ _⟩
  | fail n =>
    refine Outcome.bind_run (hput n) ?_
    exact ⟨hs₁.trans (s₁.put_same _ _), hcalm.trans (s₁.put_calm _ _),
      fun hq => (nomatch hok hq), max k n, Nat.le_max_left _ _, by simp,
      fun hb => (nomatch hb)⟩
  | crash n =>
    refine Outcome.bind_run (hput n) ?_
    exact ⟨hs₁.trans (s₁.put_same _ _), fun hq => (nomatch hok hq), max k n,
      Nat.le_max_left _ _, by simp⟩

/-! ## Writing the partition -/

theorem verifyLoop_probe {part : String} {data dev : Bytes} :
    ∀ (n p : Nat) (s : St), s.files part = some dev → dev.take data.length = data →
      Probe .write (verifyLoop part data n p) s (some data.length) none
  | 0, p, s, _, _ => Probe.pure _ s _ _
  | n + 1, p, s, hs, hd => by
    have heq : (dev.drop p).take (min (data.length - p) 4096) = (data.drop p).take 4096 := by
      rw [← hd, List.drop_take, List.take_take, List.length_take, Nat.min_comm]
      congr 2
      have := congrArg List.length hd
      rw [List.length_take] at this
      lia
    unfold verifyLoop
    refine Outcome.bind_get ((ioOk_probe .write s).bind ?_ rfl)
    intro s₁ hf₁
    simp only [hs, Option.getD_some, heq, ne_eq, not_true_eq_false, if_false, if_true]
    exact verifyLoop_probe n (p + 4096) s₁ (by rw [hf₁, hs]) hd

theorem verifyPartition_probe {part : String} {data dev : Bytes} {s : St}
    (hs : s.files part = some dev) (hd : dev.take data.length = data) :
    Probe .write (verifyPartition part data) s (some data.length) none := by
  unfold verifyPartition
  refine (openFile_probe .write part s).bind ?_ rfl
  intro s₁ hf₁
  rw [hs]
  refine (ioOk_probe .write s₁).bind ?_ rfl
  intro s₂ hf₂
  exact verifyLoop_probe _ 0 s₂ (by rw [hf₂, hf₁, hs]) hd

theorem attempts_spec {part : String} {dev target : Bytes} {k : Nat} {s : St} (n : Nat)
    (h : target.length ≤ dev.length) (hs : s.files part = some (partly dev target k)) :
    Outcome (attempts part target (n + 1) .held 0) s
      (fun b s' => b = false ∧ SameElse part s s' ∧ Calm s s' ∧
        ∃ k' ≥ k, s'.files part = some (partly dev target k') ∧
          (Quiet s .write → target.length ≤ k'))
      fun _ s' => SameElse part s s' ∧ ¬ Quiet s .write ∧
        ∃ k' ≥ k, s'.files part = some (partly dev target k') := by
  unfold attempts
  rw [List.drop_zero]
  -- `lseek`
  refine (ioOk_probe .write s).head ?_ ?_ ?_
  rotate_left
  · exact fun s₁ hf₁ hc₁ hq₁ => ⟨rfl, .of_files hf₁, hc₁, k, le_rfl, by rw [hf₁, hs],
      fun hq => absurd hq hq₁⟩
  · exact fun e s₁ hf₁ hq₁ => ⟨.of_files hf₁, hq₁, k, le_rfl, by rw [hf₁, hs]⟩
  intro s₁ hf₁ hc₁
  have hw := writeBytes_spec h (hs ▸ congrFun hf₁ part : s₁.files part = _)
  refine (hw.weaken (fun _ _ h => h) ?_).bind ?_
  · rintro e s₂ ⟨hs₂, hq₂, hk⟩
    exact ⟨SameElse.trans (.of_files hf₁) hs₂, fun hq => hq₂ (hc₁ _ hq), hk⟩
  rintro b s₂ ⟨hs₂, hc₂, hq₂, k', hk, hk', hb⟩
  have hse : SameElse part s s₂ := SameElse.trans (.of_files hf₁) hs₂
  have hc := hc₁.trans hc₂
  cases b with
  | false => exact ⟨rfl, hse, hc, k', hk, hk', fun hq => (nomatch hq₂ (hc₁ _ hq))⟩
  | true =>
    have hfull : (partly dev target k').take target.length = target := take_partly h (hb rfl)
    refine Outcome.weaken (?_ : Probe .write _ s₂ false false) ?_ ?_
    · -- `ota_fsync`, `ota_close`, the verification and the last `ota_close`
      refine (ioOk_probe .write s₂).bind ?_ rfl
      intro s₃ hf₃
      refine (ioOk_probe .write s₃).bind ?_ rfl
      intro s₄ hf₄
      refine (verifyPartition_probe (by rw [hf₄, hf₃, hk']) hfull).bind ?_ rfl
      intro s₅ _
      simp only [if_true]
      exact Probe.pure _ s₅ _ _
    · rintro b s₃ ⟨hf₃, hc₃, hb', -⟩
      exact ⟨by simpa using hb', hse.trans (.of_files hf₃), hc.trans hc₃, k', hk,
        by rw [hf₃, hk'], fun _ => hb rfl⟩
    · rintro e s₃ ⟨hf₃, hq₃⟩
      exact ⟨hse.trans (.of_files hf₃), fun hq => hq₃ (hc _ hq), k', hk, by rw [hf₃, hk']⟩

/-! ## Reading a partition -/

/-- What `LoadPartitionContents` finds for these pairs, when the device is long enough. -/
def firstMatch (E : Env) (dev : Bytes) (pairs : List (Nat × String)) : Option FileContents :=
  (pairs.find? fun p => parseSha1 p.2 == some (E.sha1 (dev.take p.1))).map fun p =>
    { sha1 := E.sha1 (dev.take p.1), data := dev.take p.1 }

theorem firstMatch_some {E : Env} {dev : Bytes} {pairs : List (Nat × String)} {file : FileContents}
    (h : firstMatch E dev pairs = some file) :
    ∃ p ∈ pairs, parseSha1 p.2 = some (E.sha1 (dev.take p.1)) ∧ file.data = dev.take p.1 ∧
      file.sha1 = E.sha1 file.data := by
  obtain ⟨p, hp, rfl⟩ := Option.map_eq_some_iff.1 h
  exact ⟨p, List.mem_of_find?_eq_some hp, by simpa using List.find?_some hp, rfl, rfl⟩

theorem firstMatch_isSome {E : Env} {dev : Bytes} {pairs : List (Nat × String)}
    {p : Nat × String} (hp : p ∈ pairs) (h : parseSha1 p.2 = some (E.sha1 (dev.take p.1))) :
    ∃ file, firstMatch E dev pairs = some file := by
  obtain ⟨q, hq⟩ : ∃ q, (pairs.find? fun p =>
      parseSha1 p.2 == some (E.sha1 (dev.take p.1))) = some q := by
    rw [← Option.isSome_iff_exists, List.find?_isSome]
    exact ⟨p, hp, by simpa using h⟩
  exact ⟨_, by rw [firstMatch, hq]; rfl⟩

/-- The pairs fit the device and their hashes can be parsed. -/
def WellFormed (dev : Bytes) (pairs : List (Nat × String)) : Prop :=
  ∀ p ∈ pairs, p.1 ≤ dev.length ∧ (parseSha1 p.2).isSome

theorem matchPairs_probe (E : Env) {dev : Bytes} : ∀ {pairs : List (Nat × String)} (n : Nat)
    (s : St), WellFormed dev pairs →
      Probe .load (matchPairs E dev pairs n) s (firstMatch E dev pairs) none
  | [], n, s, _ => Probe.pure _ s _ _
  | (size, sha) :: pairs, n, s, hwf => by
    obtain ⟨hsize, hsha⟩ := hwf (size, sha) (by simp)
    obtain ⟨parsed, hparsed⟩ := Option.isSome_iff_exists.1 hsha
    have hrest := fun p hp => hwf p (List.mem_cons_of_mem _ hp)
    have hread : Probe .load (readNext (size - n)) s true false := by
      unfold readNext
      split
      · exact ioOk_probe .load s
      · exact Probe.pure _ s _ _
    unfold matchPairs
    refine hread.bind ?_ ?_
    rotate_left
    · exact if_pos (Or.inl rfl)
    intro s₁ _
    rw [if_neg (by simpa using hsize)]
    simp only [hparsed]
    split
    · rename_i heq
      have : firstMatch E dev ((size, sha) :: pairs) =
          some { sha1 := E.sha1 (dev.take size), data := dev.take size } := by
        simp [firstMatch, hparsed, heq]
      rw [this]
      exact Probe.pure _ s₁ _ _
    · rename_i hne
      have : firstMatch E dev ((size, sha) :: pairs) = firstMatch E dev pairs := by
        simp [firstMatch, hparsed, Ne.symm hne]
      rw [this]
      exact matchPairs_probe E size s₁ hrest

/-- No listed size is `0`. -/
theorem parsePairs_pos (E : Env) : ∀ {names : List String} {pairs : List (Nat × String)},
    parsePairs E names = some pairs → ∀ p ∈ pairs, p.1 ≠ 0
  | [], pairs, h, p, hp => by
    cases h
    cases hp
  | [_], pairs, h, p, hp => by
    cases h
    cases hp
  | size :: sha :: rest, pairs, h, p, hp => by
    unfold parsePairs at h
    obtain ⟨n, -, h⟩ := Option.bind_eq_some_iff.1 h
    split at h
    · cases h
    · rename_i hn
      obtain ⟨pairs', h', h⟩ := Option.bind_eq_some_iff.1 h
      cases h
      rcases List.mem_cons.1 hp with rfl | hp
      · exact hn
      · exact parsePairs_pos E h' p hp

theorem partitionName_pos {E : Env} {filename part : String} {pairs : List (Nat × String)}
    (h : partitionName E filename = some (part, pairs)) : ∀ p ∈ pairs, p.1 ≠ 0 := by
  intro p hp
  unfold partitionName at h
  split at h
  · split at h
    · cases h
    · split at h
      · cases h
      · obtain ⟨pairs', hpairs, hsort⟩ := Option.map_eq_some_iff.1 h
        obtain rfl : sortPairs pairs' = pairs := congrArg Prod.snd hsort
        exact parsePairs_pos E hpairs p ((List.perm_insertionSort _ pairs').mem_iff.1 hp)
  · cases h

theorem loadPartitionContents_probe {E : Env} {filename part : String} {dev : Bytes}
    {pairs : List (Nat × String)} {s : St} (hname : partitionName E filename = some (part, pairs))
    (hs : s.files part = some dev) (hwf : WellFormed dev pairs) :
    Probe .load (loadPartitionContents E filename) s (firstMatch E dev pairs) none := by
  unfold loadPartitionContents
  simp only [hname]
  refine (openFile_probe .load part s).bind ?_ rfl
  intro s₁ _
  rw [hs]
  exact matchPairs_probe E 0 s₁ hwf

theorem loadFileContents_partition {E : Env} {filename part : String} {dev : Bytes}
    {pairs : List (Nat × String)} {s : St} (h : isPartitionName filename = true)
    (hname : partitionName E filename = some (part, pairs))
    (hs : s.files part = some dev) (hwf : WellFormed dev pairs) :
    Probe .load (loadFileContents E filename) s (firstMatch E dev pairs) none := by
  unfold loadFileContents
  rw [if_pos h]
  exact loadPartitionContents_probe hname hs hwf

theorem loadFileContents_file {E : Env} {filename : String} (s : St)
    (h : isPartitionName filename = false) :
    Probe .load (loadFileContents E filename) s
      ((s.files filename).map fun data => { sha1 := E.sha1 data, data := data }) none := by
  unfold loadFileContents
  rw [if_neg (by simp [h])]
  refine (openFile_probe .load filename s).bind ?_ rfl
  intro s₁ _
  cases s.files filename with
  | none => exact Probe.pure _ s₁ _ _
  | some content =>
    refine (ioOk_probe .load s₁).bind ?_ rfl
    intro s₂ _
    exact Probe.pure _ s₂ _ _

end Recovery.ApplyPatch
