import Recovery.BlockImg.RunSteps

/-!
# The stash store

* `StashOk` — every complete file of the stash directory is a number of blocks whose hash is its
  name.
* `Attempt` — one run of `block_image_verify` or `block_image_update`, with all that may differ from
  the run before: list, package, target, last command file, the process and the faults it meets.
* `stash_integrity` — whatever runs have been made over a stash directory that was empty at first,
  its complete files are what their names say.

The only write that can be interrupted goes to a `.partial` name, and a rename follows the check of
the hash; the induction is over the operations of each run.
-/

set_option autoImplicit false

namespace Recovery.BlockImg

open Recovery.Lib Recovery.OtaUtil Relation

variable {E : Env}

/-! ## One operation -/

def StashOk (sha1 : List UInt8 → List UInt8) (d : Disk) : Prop :=
  ∀ name data, d.stash.lookup name = some data → isPartial name = false →
    data.length % BLOCKSIZE = 0 ∧ printSha1 (sha1 data) = name

theorem isPartial_partialName (id : String) : isPartial (partialName id) = true := by
  rw [isPartial, List.isSuffixOf_iff_suffix, partialName, String.toList_append]
  exact List.suffix_append _ _

theorem StashOk.erase {sha1 : List UInt8 → List UInt8} {d : Disk} (h : StashOk sha1 d)
    (name : String) : StashOk sha1 { d with stash := d.stash.erase name } := by
  intro n data hn hp
  have hne : n ≠ name := by
    rintro rfl
    rw [AList.lookup_erase] at hn
    cases hn
  exact h n data (by rwa [AList.lookup_erase_ne hne] at hn) hp

theorem StashOk.insert {sha1 : List UInt8 → List UInt8} {d : Disk} (h : StashOk sha1 d)
    {name : String} {data : List UInt8}
    (hnew : isPartial name = false → data.length % BLOCKSIZE = 0 ∧ printSha1 (sha1 data) = name) :
    StashOk sha1 { d with stash := d.stash.insert name data } := by
  intro n data' hn hp
  by_cases hne : n = name
  · subst hne
    rw [AList.lookup_insert] at hn
    cases hn
    exact hnew hp
  · exact h n data' (by rwa [AList.lookup_insert_ne hne] at hn) hp

/-- Only a rename adds a complete file, and what it renames has been verified. -/
theorem step_stashOk {s s' : St} (h : Step E s s') (hok : StashOk E.sha1 s.disk) :
    StashOk E.sha1 s'.disk := by
  cases h with
  | quiet h =>
    intro name data hn
    rw [h.stash] at hn
    exact hok name data hn
  | mkdir h => exact fun _ _ hn => by cases hn
  | writePartial id data hw =>
    exact hok.insert fun hp => by rw [isPartial_partialName] at hp; cases hp
  | store hw hsize hhash => exact (hok.erase _).insert fun _ => ⟨hsize, hhash⟩
  | unexpected _ _ _ => exact hok.erase _
  | removePartial _ => exact hok.erase _
  | freeNoted _ => exact hok.erase _
  | delete name _ => exact hok.erase _
  | device _ _ => exact hok
  | unresumable => exact hok
  | noteStash _ _ => exact hok
  | forgetStash => exact hok
  | rmdir _ => exact hok
  | remember _ _ _ _ => exact hok
  | forget _ => exact hok

theorem runSteps_stashOk {lines : List String} {stashDir : Bool} {s s' : St}
    (h : RunSteps E lines stashDir s s') (hok : StashOk E.sha1 s.disk) :
    StashOk E.sha1 s'.disk := by
  induction h with
  | refl => exact hok
  | tail _ hstep ih =>
    cases hstep with
    | command hstep => exact step_stashOk hstep ih
    | setCommand _ => exact ih
    | created _ _ => exact ih

/-! ## Runs over one stash directory -/

structure Attempt where
  /-- A verification or an update, by `env.canwrite`. -/
  env : Env
  transferList : String
  newData : List UInt8
  patchStart : Nat
  /-- The process before the run, the target, the last command file, and the faults to come. -/
  before : St

namespace Attempt

/-- The run finds the stash directory of `d`. -/
def start (a : Attempt) (d : Disk) : St :=
  { a.before with disk := { a.before.disk with stashDir := d.stashDir, stash := d.stash } }

/-- The disk when the run has returned or has been cut short. -/
def run (sha1 : List UInt8 → List UInt8) (d : Disk) (a : Attempt) : Disk :=
  (endState (performBlockImageUpdate { a.env with sha1 := sha1 } a.transferList a.newData
    a.patchStart (a.start d))).disk

end Attempt

theorem run_stashOk (sha1 : List UInt8 → List UInt8) {d : Disk} (a : Attempt)
    (hok : StashOk sha1 d) : StashOk sha1 (a.run sha1 d) := by
  have hends := (performBlockImageUpdate_steps (E := { a.env with sha1 := sha1 }) a.transferList
    a.newData a.patchStart).endState (a.start d)
  rcases hends with hs | ⟨version, hrun⟩
  · rw [Attempt.run, hs]
    exact hok
  · exact runSteps_stashOk hrun hok

/-- **The stash directory never holds a file that is not what its name says.** -/
theorem stash_integrity (sha1 : List UInt8 → List UInt8) (d : Disk) (attempts : List Attempt) :
    StashOk sha1 (attempts.foldl (Attempt.run sha1) { d with stash := ∅ }) := by
  obtain ⟨d₀, hd₀⟩ : ∃ d₀, d₀ = { d with stash := ∅ } := ⟨_, rfl⟩
  have hok : StashOk sha1 d₀ := by
    rw [hd₀]
    exact fun _ _ hn => by cases hn
  rw [← hd₀]
  clear hd₀
  induction attempts generalizing d₀ with
  | nil => exact hok
  | cons a attempts ih => exact ih _ (run_stashOk sha1 a hok)

end Recovery.BlockImg
