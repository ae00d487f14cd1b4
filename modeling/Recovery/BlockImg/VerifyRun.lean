import Recovery.BlockImg.StashStore

/-!
# What a verification leaves alone

* `Kept` — a stash directory with the files that match their names.
* `Spared` — what `block_image_verify` promises about the target and a stash directory it found.
* `VerifyInv` — the invariant of a verification, one case an operation in `step_verifyInv`.
* `verify_spares` — a verification of a list whose words are plain file names spares both.
* `alias_not_spared` — a stash id such as `./<hash>` makes it delete a matching file.

Words are file names in the stash directory, so a word with a slash names a file elsewhere; the
words of a list that the host tools make are hexadecimal digits.
-/

set_option autoImplicit false

namespace Recovery.BlockImg

open Recovery.Lib Recovery.OtaUtil Relation

variable {E : Env}

/-- The stash directory of `d` is still there, with each file that matches its name. -/
structure Kept (E : Env) (d d' : Disk) : Prop where
  stashDir : d'.stashDir = true
  files : ∀ name data, d.stash.lookup name = some data → E.hash data = name →
    d'.stash.lookup name = some data

/-- The target is as it was, and so is a stash directory, unless the update cannot be resumed. -/
structure Spared (E : Env) (s s' : St) : Prop where
  dev : s'.disk.dev = s.disk.dev
  stash : s.disk.stashDir = true → s'.params.isunresumable = true ∨ Kept E s.disk s'.disk

/-! ## The invariant -/

structure VerifyInv (E : Env) (d : Disk) (s : St) : Prop where
  dev : s.disk.dev = d.dev
  /-- Nothing is stashed. -/
  freestash : s.params.freestash = ""
  createdstash : d.stashDir = true → s.params.createdstash = 0
  kept : d.stashDir = true → s.params.isunresumable = true ∨ Kept E d s.disk
  plain : ∀ token ∈ s.params.tokens, E.stashFile token = token

theorem digitChar_ne_dot : ∀ n < 16, Nat.digitChar n ≠ '.' := by decide

/-- A hash is no name of a `.partial` file. -/
theorem isPartial_hash (E : Env) (data : List UInt8) : isPartial (E.hash data) = false := by
  rw [← Bool.not_eq_true]
  intro h
  rw [isPartial, List.isSuffixOf_iff_suffix] at h
  have hdot : '.' ∈ (E.hash data).toList := h.subset (by decide)
  rw [Env.hash, printSha1, String.toList_ofList, List.mem_flatMap] at hdot
  obtain ⟨b, _, hb⟩ := hdot
  rw [List.mem_cons, List.mem_singleton] at hb
  rcases hb with hb | hb
  · exact digitChar_ne_dot _ (by have := b.toNat_lt; lia) hb.symm
  · exact digitChar_ne_dot _ (Nat.mod_lt _ (by decide)) hb.symm

theorem Kept.erase {d d' : Disk} (h : Kept E d d') {name : String}
    (hname : ∀ data, d'.stash.lookup name = some data → E.hash data ≠ name) :
    Kept E d { d' with stash := d'.stash.erase name } where
  stashDir := h.stashDir
  files n data hn hhash := by
    have hn' : d'.stash.lookup n = some data := h.files n data hn hhash
    have hne : n ≠ name := by
      rintro rfl
      exact hname data hn' hhash
    rw [AList.lookup_erase_ne hne]
    exact hn'

section

variable {d : Disk} {s s' : St}

theorem VerifyInv.of_deletes (hi : VerifyInv E d s) (hv : E.canwrite = false) (h : Deletes E s)
    (hd : d.stashDir = true) : s.params.isunresumable = true := by
  rcases h with hw | hu | hc
  · rw [hv] at hw
    cases hw
  · exact hu
  · exact absurd (hi.createdstash hd) hc

/-- A file is deleted while it matches its name only once the update cannot be resumed. -/
theorem step_verifyInv (hv : E.canwrite = false) (h : Step E s s') (hi : VerifyInv E d s) :
    VerifyInv E d s' := by
  have hno : ¬ E.canwrite = true := by rw [hv]; decide
  cases h with
  | quiet h =>
    refine ⟨h.dev.trans hi.dev, h.freestash.trans hi.freestash,
      fun hd => h.createdstash.trans (hi.createdstash hd), fun hd => ?_, h.tokens ▸ hi.plain⟩
    refine (hi.kept hd).imp h.isunresumable.trans fun hk => ?_
    exact ⟨h.stashDir.trans hk.stashDir, h.stash ▸ hk.files⟩
  | device _ hw | noteStash _ hw | writePartial _ _ hw | store hw => exact absurd hw hno
  | unresumable => exact { hi with kept := fun _ => .inl rfl }
  | forgetStash => exact { hi with freestash := rfl }
  | mkdir h =>
    refine { hi with kept := fun hd => (hi.kept hd).imp id fun hk => ?_ }
    have := hk.stashDir
    rw [h] at this
    cases this
  | unexpected hid hfile hhash =>
    rw [hi.plain _ hid] at hfile ⊢
    refine { hi with kept := fun hd => (hi.kept hd).imp id fun hk => hk.erase fun data' hdata => ?_ }
    rw [hfile] at hdata
    cases hdata
    exact hhash
  | removePartial hp =>
    refine { hi with kept := fun hd => (hi.kept hd).imp id fun hk => hk.erase fun data _ hhash => ?_ }
    rw [← hhash, isPartial_hash] at hp
    cases hp
  | freeNoted h => exact absurd hi.freestash h
  | delete name h => exact { hi with kept := fun hd => .inl (hi.of_deletes hv h hd) }
  | rmdir h => exact { hi with kept := fun hd => .inl (hi.of_deletes hv h hd) }
  | remember | forget => exact ⟨hi.dev, hi.freestash, hi.createdstash, hi.kept, hi.plain⟩

theorem runSteps_verifyInv {lines : List String} (hv : E.canwrite = false)
    (hplain : ∀ line ∈ lines, ∀ token ∈ E.base.split line " ", E.stashFile token = token)
    (h : RunSteps E lines d.stashDir s s') (hi : VerifyInv E d s) : VerifyInv E d s' := by
  induction h with
  | refl => exact hi
  | tail _ hstep ih =>
    cases hstep with
    | command hstep => exact step_verifyInv hv hstep ih
    | setCommand hl => exact { ih with plain := hplain _ hl }
    | created res hres =>
      refine { ih with createdstash := fun hd => ?_ }
      by_contra hne
      rw [hres hne] at hd
      cases hd

end

/-! ## Runs -/

theorem Kept.refl {d : Disk} (h : d.stashDir = true) : Kept E d d := ⟨h, fun _ _ hn _ => hn⟩

theorem verifyInv_init {s : St} (version : Int) (patchStart : Nat) :
    VerifyInv E s.disk { s with params := initParams version patchStart } where
  dev := rfl
  freestash := rfl
  createdstash _ := rfl
  kept hd := .inr (.refl hd)
  plain _ h := by cases h

/-- **A verification spares the target and a stash directory that it found**, if no word of its
list is a path to a file of another name, whether it returns, fails or is cut short. -/
theorem verify_spares (E : Env) (transferList : String) (patchStart : Nat) (s : St)
    (hplain : ∀ line ∈ (parseHeader E transferList).lines, ∀ token ∈ E.base.split line " ",
      E.stashFile token = token) :
    Spared E s (endState (blockImageVerify E transferList patchStart s)) := by
  have hends := (performBlockImageUpdate_steps (E := E.verify) transferList []
    patchStart).endState s
  rcases hends with hs | ⟨version, hrun⟩
  · rw [blockImageVerify, hs]
    exact ⟨rfl, fun hd => .inr (.refl hd)⟩
  · have hi := runSteps_verifyInv (E := E.verify) rfl hplain hrun
      (verifyInv_init version patchStart)
    exact ⟨hi.dev, fun hd => (hi.kept hd).imp id fun hk => ⟨hk.stashDir, hk.files⟩⟩

/-! ## Aliases -/

/-- One stash file, `00`. -/
def St.stashed (data : List UInt8) : St :=
  { St.zeros none [] with disk.stash := (∅ : AList fun _ => List UInt8).insert "00" data }

theorem verify_spares_plain : Spared .small (.stashed [0])
    (endState (blockImageVerify .small "4\n1\n0\n0\nstash 00 2,0,1" 0 (.stashed [0]))) :=
  verify_spares .small "4\n1\n0\n0\nstash 00 2,0,1" 0 (.stashed [0]) (by decide +kernel)

/-- The id `./00` leads to the file `00`, whose hash is not `./00`. -/
theorem alias_not_spared : ¬ ∀ (E : Env) (transferList : String) (patchStart : Nat) (s : St),
    Spared E s (endState (blockImageVerify E transferList patchStart s)) := by
  intro h
  obtain ⟨data, hdata⟩ : ∃ data : List UInt8, data = List.replicate BLOCKSIZE 0 := ⟨_, rfl⟩
  have hspared := h .small "4\n1\n0\n0\nstash ./00 2,0,1" 0 (.stashed data)
  have hcheck : returnedWith
      (blockImageVerify .small "4\n1\n0\n0\nstash ./00 2,0,1" 0 (.stashed data))
      (fun _ s' => !s'.params.isunresumable && (s'.disk.stash.lookup "00").isNone) = true := by
    subst hdata
    decide +kernel
  have hhash : Env.small.hash data = "00" := by
    subst hdata
    decide +kernel
  obtain ⟨a, s', hreturn, hs'⟩ := of_returnedWith hcheck
  rw [Bool.and_eq_true, Bool.not_eq_true', Option.isNone_iff_eq_none] at hs'
  rw [hreturn] at hspared
  rcases hspared.stash rfl with hu | hk
  · rw [endState, hs'.1] at hu
    cases hu
  · have hfile := hk.files "00" data (AList.lookup_insert _) hhash
    rw [endState, hs'.2] at hfile
    cases hfile

end Recovery.BlockImg
