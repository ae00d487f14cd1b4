import Recovery.Edify.Install
import Recovery.Edify.Script

/-!
# Arguments that are there

Only operators have a fixed number of arguments in the grammar; every function has to look after
itself.  Most check `argv.size()` first; `sleep` and `is_substring` do not, and `format` as it is
built for Safestrap reads a fifth string where it lets four arguments pass.

* `InRange` — a part of a body that indexes the arguments, and what they evaluate to, only where they
  are; with a rule for every way to build one.
* `ArityOk` — the numbers of arguments that a function is safe with.
* `functionTable_inRange` — a function in the table, called with as many.
* `Reaches` — the calls that an evaluation comes to, and the states in which it does; what is in a
  branch that is not taken, or behind an argument that aborts, is not among them.
* `evaluateValue_eq_none_iff` — an evaluation is undefined exactly where it reaches a call that asks
  for an argument that it does not have.
* `findRegistered_overruns` — which calls of functions in the table do that: those with a number of
  arguments that the function is not safe with, where all of them are evaluated to strings.
* `arity_spec` — a script is safe in a state if and only if no such call is reached.

An index out of range is undefined in C++; here the evaluation has no result there.
-/

set_option autoImplicit false

namespace Recovery.Edify

open Recovery.Lib

variable {ω α γ : Type}

/-- Every index is one of an argument, and what comes out is in `Q`. -/
def InRange (n : Nat) (Q : α → Prop) (c : Code ω α) : Prop := ∀ s, (c s).AsksBelow n Q

/-- The same, whatever comes out. -/
abbrev Indexes (n : Nat) (c : Code ω α) : Prop := InRange n (fun _ => True) c

namespace InRange

variable {n : Nat} {Q : α → Prop} {R : γ → Prop}

theorem pure {a : α} (h : Q a) : InRange n Q (Pure.pure a : Code ω α) := fun _ => h

theorem bind {c : Code ω α} {f : α → Code ω γ} (hc : InRange n Q c)
    (hf : ∀ a, Q a → InRange n R (f a)) : InRange n R (c >>= f) :=
  fun s => (hc s).bind fun a s ha => hf a ha s

theorem mono {Q' : α → Prop} {c : Code ω α} (h : InRange n Q c) (hQ : ∀ a, Q a → Q' a) :
    InRange n Q' c := by
  intro s
  have hs := h s
  generalize c s = p at hs
  induction p with
  | done a s => exact hQ a hs
  | ask i s k ih => exact ⟨hs.1, fun b s => ih b s (hs.2 b s)⟩

theorem ask {i : Nat} (h : i < n) : Indexes n (Body.ask i : Code ω (Option Value)) :=
  fun _ => ⟨h, fun _ _ => trivial⟩

end InRange

namespace Indexes

variable {n : Nat}

theorem pure (a : α) : Indexes n (Pure.pure a : Code ω α) := fun _ => trivial

theorem bind {c : Code ω α} {f : α → Code ω γ} (hc : Indexes n c) (hf : ∀ a, Indexes n (f a)) :
    Indexes n (c >>= f) :=
  InRange.bind hc fun a _ => hf a

theorem modify (g : State ω → State ω) : Indexes n (Body.modify g : Code ω Unit) := fun _ => trivial

theorem get : Indexes n (Body.get : Code ω (State ω)) := fun _ => trivial

/-- `if (!part) return …;`, then the rest. -/
theorem option {c : Code ω (Option α)} {f : Option α → Code ω γ} (hc : Indexes n c)
    (hnone : Indexes n (f none)) (hsome : ∀ a, Indexes n (f (some a))) : Indexes n (c >>= f) := by
  apply hc.bind
  intro r
  cases r with
  | none => exact hnone
  | some a => exact hsome a

/-- The same, where something is known of the part. -/
theorem known {P : α → Prop} {c : Code ω (Option α)} {f : Option α → Code ω γ}
    (hc : InRange n (fun r => ∀ a ∈ r, P a) c) (hnone : Indexes n (f none))
    (hsome : ∀ a, P a → Indexes n (f (some a))) : Indexes n (c >>= f) := by
  apply InRange.bind hc
  intro r hr
  cases r with
  | none => exact hnone
  | some a => exact hsome a (hr a rfl)

end Indexes

/-- A loop over arguments, with an invariant. -/
theorem forArgs_inRange {n : Nat} {step : Nat → α → Code ω (Option α)} {P : Nat → α → Prop}
    (hstep : ∀ i acc, i < n → P i acc → InRange n (fun r => ∀ a ∈ r, P (i + 1) a) (step i acc))
    {len start : Nat} (hlen : start + len ≤ n) {acc : α} (hacc : P start acc) :
    InRange n (fun r => ∀ a ∈ r, P (start + len) a) (forArgs step len start acc) := by
  induction len generalizing start acc with
  | zero =>
    apply InRange.pure
    rintro a ⟨⟩
    exact hacc
  | succ len ih =>
    unfold Edify.forArgs
    apply (hstep start acc (by lia) hacc).bind
    intro r hr
    cases r with
    | none => exact InRange.pure fun _ h => absurd h (Option.not_mem_none _)
    | some acc =>
      have hrest := ih (by lia) (hr acc rfl)
      rwa [Nat.add_right_comm, Nat.add_assoc] at hrest

/-! ## Reading arguments -/

section Reading

variable (host : Host ω) {n : Nat}

theorem evaluate_inRange {i : Nat} (h : i < n) : Indexes n (evaluate host i) := by
  apply (InRange.ask h).bind
  intro v
  cases v with
  | none => exact Indexes.pure _
  | some v =>
    dsimp only
    split
    · exact Indexes.pure _
    · exact (Indexes.modify _).bind fun _ => Indexes.pure _

/-- A loop that adds to a list makes it as long as it runs. -/
theorem collect_inRange {step : Nat → List α → Code ω (Option (List α))}
    (hstep : ∀ i args, i < n →
      InRange n (fun r => ∀ args' ∈ r, args'.length = args.length + 1) (step i args))
    {start len : Nat} (hlen : start + len ≤ n) :
    InRange n (fun r => ∀ args ∈ r, args.length = len) (forArgs step len start []) := by
  refine (forArgs_inRange (P := fun i args => args.length + start = i) ?_ hlen
    (Nat.zero_add _)).mono ?_
  · intro i args hi hlength
    refine (hstep i args hi).mono fun r hr args' hargs' => ?_
    rw [hr args' hargs']
    lia
  · intro r hr args hargs
    have := hr args hargs
    lia

theorem readArgs_inRange (argv : List Span) (start len : Nat) :
    InRange argv.length (fun r => ∀ args ∈ r, args.length = len) (readArgs host argv start len) := by
  unfold readArgs
  split
  · exact InRange.pure nofun
  · refine collect_inRange ?_ (by lia)
    intro i args hi
    apply InRange.bind (evaluate_inRange host hi)
    intro r _
    cases r with
    | none => exact InRange.pure nofun
    | some var =>
      apply InRange.pure
      rintro args' ⟨⟩
      exact List.length_append

theorem readValueArgs_inRange (argv : List Span) (start len : Nat) :
    InRange argv.length (fun r => ∀ args ∈ r, args.length = len)
      (readValueArgs argv start len : Code ω (Option (List Value))) := by
  unfold readValueArgs
  split
  · exact InRange.pure nofun
  · refine collect_inRange ?_ (by lia)
    intro i args hi
    apply InRange.bind (InRange.ask hi)
    intro r _
    cases r with
    | none => exact InRange.pure nofun
    | some var =>
      apply InRange.pure
      rintro args' ⟨⟩
      exact List.length_append

/-! ## The evaluators -/

theorem loop_inRange {step : Nat → α → Code ω (Option α)} (hstep : ∀ i acc, i < n → Indexes n (step i acc))
    {acc : α} : Indexes n (forArgs step n 0 acc) := by
  refine (forArgs_inRange (P := fun _ _ => True) ?_ (by lia) trivial).mono fun _ _ => trivial
  intro i acc hi _
  exact (hstep i acc hi).mono fun _ _ _ _ => trivial

theorem concatFn_inRange (name : Str) (argv : List Span) :
    Indexes argv.length (concatFn host name argv) := by
  unfold concatFn
  split
  · exact Indexes.pure _
  · refine (loop_inRange ?_).option (Indexes.pure _) fun _ => Indexes.pure _
    intro i result hi
    exact (evaluate_inRange host hi).option (Indexes.pure _) fun _ => Indexes.pure _

theorem ifElseFn_inRange (name : Str) (argv : List Span) :
    Indexes argv.length (ifElseFn host name argv) := by
  unfold ifElseFn
  split
  · exact (Indexes.modify _).bind fun _ => Indexes.pure _
  · refine (evaluate_inRange host (by lia)).option (Indexes.pure _) ?_
    intro cond
    dsimp only
    split
    · exact InRange.ask (by lia)
    · split
      · exact InRange.ask (by lia)
      · exact Indexes.pure _

theorem abortFn_inRange (name : Str) (argv : List Span) :
    Indexes argv.length (abortFn host name argv) := by
  unfold abortFn
  split
  · rename_i hne
    refine (evaluate_inRange host (List.length_pos_of_ne_nil hne)).option ?_ fun _ => ?_
    · exact (Indexes.modify _).bind fun _ => Indexes.pure _
    · exact (Indexes.modify _).bind fun _ => Indexes.pure _
  · exact (Indexes.modify _).bind fun _ => Indexes.pure _

theorem assertFn_inRange (name : Str) (argv : List Span) :
    Indexes argv.length (assertFn host name argv) := by
  refine (loop_inRange ?_).option (Indexes.pure _) fun _ => Indexes.pure _
  intro i _ hi
  refine (evaluate_inRange host hi).option (Indexes.pure _) ?_
  intro result
  dsimp only
  split
  · exact (Indexes.modify _).bind fun _ => Indexes.pure _
  · exact Indexes.pure _

theorem stdoutFn_inRange (name : Str) (argv : List Span) :
    Indexes argv.length (stdoutFn host name argv) := by
  refine (loop_inRange ?_).option (Indexes.pure _) fun _ => Indexes.pure _
  intro i _ hi
  refine (evaluate_inRange host hi).option (Indexes.pure _) ?_
  intro v
  exact (Indexes.modify _).bind fun _ => Indexes.pure _

/-- Nothing but the script keeps `sleep` from its missing argument. -/
theorem sleepFn_inRange (name : Str) {argv : List Span} (h : 1 ≤ argv.length) :
    Indexes argv.length (sleepFn host name argv) := by
  refine (evaluate_inRange host h).option (Indexes.pure _) ?_
  intro val
  dsimp only
  split
  · exact Indexes.pure _
  · exact (Indexes.modify _).bind fun _ => Indexes.pure _

theorem testFn_inRange (test : Str → Str → Bool) (name : Str) {argv : List Span}
    (h : 2 ≤ argv.length) : Indexes argv.length (testFn host test name argv) := by
  refine (evaluate_inRange host (by lia)).option (Indexes.pure _) ?_
  intro left
  exact (evaluate_inRange host (by lia)).option (Indexes.pure _) fun _ => Indexes.pure _

theorem logicalAndFn_inRange (name : Str) {argv : List Span} (h : 2 ≤ argv.length) :
    Indexes argv.length (logicalAndFn host name argv) := by
  refine (evaluate_inRange host (by lia)).option (Indexes.pure _) ?_
  intro left
  dsimp only
  split
  · exact InRange.ask (by lia)
  · exact Indexes.pure _

theorem logicalOrFn_inRange (name : Str) {argv : List Span} (h : 2 ≤ argv.length) :
    Indexes argv.length (logicalOrFn host name argv) := by
  refine (evaluate_inRange host (by lia)).option (Indexes.pure _) ?_
  intro left
  dsimp only
  split
  · exact InRange.ask (by lia)
  · exact Indexes.pure _

theorem logicalNotFn_inRange (name : Str) {argv : List Span} (h : 1 ≤ argv.length) :
    Indexes argv.length (logicalNotFn host name argv) :=
  (evaluate_inRange host (by omega)).option (Indexes.pure _) fun _ => Indexes.pure _

theorem sequenceFn_inRange (name : Str) {argv : List Span} (h : 2 ≤ argv.length) :
    Indexes argv.length ((sequenceFn : Function ω) name argv) :=
  Indexes.option (InRange.ask (by lia)) (Indexes.pure _) fun _ => InRange.ask (by lia)

theorem compareIntFn_inRange (word : String) (test : Int → Int → Bool) (name : Str)
    (argv : List Span) : Indexes argv.length (compareIntFn host word test name argv) := by
  unfold compareIntFn
  split
  · exact (Indexes.modify _).bind fun _ => Indexes.pure _
  · refine Indexes.bind ((readArgs_inRange host argv 0 argv.length).mono fun _ _ => trivial) ?_
    intro args
    split
    · split
      · exact (Indexes.modify _).bind fun _ => Indexes.pure _
      · split
        · exact (Indexes.modify _).bind fun _ => Indexes.pure _
        · exact Indexes.pure _
    · exact Indexes.pure _

end Reading

/-! ## The functions of the updater -/

section Updater

variable (up : Updater ω) {n : Nat}

theorem sys_inRange (call : SysCall) : Indexes n (sys up call) := fun _ => trivial

theorem data_inRange (call : DataCall) : Indexes n (data up call) := fun _ => trivial

theorem abort_inRange (cause : CauseCode) (msg : Str) :
    Indexes n (abort up cause msg : Code ω (Option α)) := fun _ => trivial

theorem abortErrno_inRange (cause : CauseCode) (msg : Str) :
    Indexes n (abortErrno up cause msg : Code ω (Option α)) := fun _ => trivial

theorem uiPrintf_inRange (msg : Str) : Indexes n (uiPrintf up msg) := fun _ => trivial

theorem uiPrintfErrno_inRange (msg : Str) : Indexes n (uiPrintfErrno up msg) := fun _ => trivial

theorem withArgs_inRange {counts : Nat → Bool} {message : Str → List Span → Str} {failed : String}
    {use : Str → List Span → List Str → Code ω (Option Value)} (name : Str) (argv : List Span)
    (huse : ∀ args, counts argv.length = true → args.length = argv.length →
      Indexes argv.length (use name argv args)) :
    Indexes argv.length (withArgs up counts message failed use name argv) := by
  unfold withArgs
  split
  · exact abort_inRange up _ _
  · rename_i hcounts
    refine Indexes.known (readArgs_inRange up.toHost argv 0 argv.length) (abort_inRange up _ _) ?_
    intro args hargs
    exact huse args (by simpa using hcounts) hargs

/-- One argument. -/
theorem withCount_one {expects : String} {use : Str → List Span → List Str → Code ω (Option Value)}
    (name : Str) (argv : List Span) (huse : ∀ arg, Indexes argv.length (use name argv [arg])) :
    Indexes argv.length (withCount up 1 expects use name argv) := by
  apply withArgs_inRange
  intro args hcount hargs
  have hone : argv.length = 1 := of_decide_eq_true hcount
  obtain ⟨arg, rfl⟩ := List.length_eq_one_iff.1 (hargs.trans hone)
  exact huse arg

/-- Two arguments, whatever the messages are. -/
theorem withArgs_two {message : Str → List Span → Str} {failed : String}
    {use : Str → List Span → List Str → Code ω (Option Value)} (name : Str) (argv : List Span)
    (huse : ∀ first second, Indexes argv.length (use name argv [first, second])) :
    Indexes argv.length (withArgs up (· = 2) message failed use name argv) := by
  apply withArgs_inRange
  intro args hcount hargs
  have htwo : argv.length = 2 := of_decide_eq_true hcount
  obtain ⟨first, second, rfl⟩ := List.length_eq_two.1 (hargs.trans htwo)
  exact huse first second

theorem checkEmpty_inRange (name : Str) : ∀ args : List (String × Str),
    Indexes n (checkEmpty up name args)
  | [] => Indexes.pure _
  | (what, arg) :: args => by
    unfold checkEmpty
    split
    · exact abort_inRange up _ _
    · exact checkEmpty_inRange name args

theorem checkPatches_inRange (name : Str) (argv : List Span) (argValues : List Value) :
    ∀ m i, (i + m) * 2 ≤ argValues.length →
      Indexes n (checkPatches up name argv argValues m i)
  | 0, _, _ => Indexes.pure _
  | m + 1, i, h => by
    unfold checkPatches
    have hsha : i * 2 < argValues.length := by lia
    have hpatch : i * 2 + 1 < argValues.length := by lia
    rw [List.getElem?_eq_getElem hsha, List.getElem?_eq_getElem hpatch]
    dsimp only
    split
    · exact abort_inRange up _ _
    · split
      · exact abort_inRange up _ _
      · refine (checkPatches_inRange name argv argValues m (i + 1) (by lia)).option
          (Indexes.pure _) fun _ => Indexes.pure _

theorem applyPatchFn_inRange (name : Str) (argv : List Span) :
    Indexes argv.length (applyPatchFn up name argv) := by
  unfold applyPatchFn
  split
  · exact abort_inRange up _ _
  · rename_i hcount
    refine Indexes.known (readArgs_inRange up.toHost argv 0 4) (abort_inRange up _ _) ?_
    rintro args hargs
    match args, hargs with
    | [source, target, targetSha1, targetSizeStr], _ =>
      dsimp only
      split
      · exact abort_inRange up _ _
      · refine Indexes.known (readValueArgs_inRange argv 4 (argv.length - 4)) (Indexes.pure _) ?_
        intro argValues hvalues
        refine (checkPatches_inRange up name argv argValues _ 0 (by lia)).option (Indexes.pure _) ?_
        intro patches
        exact (sys_inRange up _).bind fun _ => Indexes.pure _

theorem applyPatchCheckFn_inRange (name : Str) (argv : List Span) :
    Indexes argv.length (applyPatchCheckFn up name argv) := by
  unfold applyPatchCheckFn
  split
  · exact abort_inRange up _ _
  · refine Indexes.known (readArgs_inRange up.toHost argv 0 1) (abort_inRange up _ _) ?_
    intro args hargs
    obtain ⟨filename, rfl⟩ := List.length_eq_one_iff.1 hargs
    dsimp only
    split
    · refine Indexes.known (readArgs_inRange up.toHost argv 1 _) (abort_inRange up _ _) ?_
      intro sha1s _
      exact (sys_inRange up _).bind fun _ => Indexes.pure _
    · apply (Indexes.pure _).option
      · exact abort_inRange up _ _
      · intro sha1s
        exact (sys_inRange up _).bind fun _ => Indexes.pure _

theorem findSha1_inRange (digest : Str) (argv : List Span) (args : List Value) :
    ∀ m i, i + m ≤ args.length → Indexes n (findSha1 up digest argv args m i)
  | 0, _, _ => Indexes.pure _
  | m + 1, i, h => by
    unfold findSha1
    have hi : i < args.length := by lia
    rw [List.getElem?_eq_getElem hi]
    dsimp only
    split
    · exact Indexes.pure _
    · exact findSha1_inRange digest argv args m (i + 1) (by lia)

theorem sha1CheckFn_inRange (name : Str) (argv : List Span) :
    Indexes argv.length (sha1CheckFn up name argv) := by
  unfold sha1CheckFn
  split
  · exact abort_inRange up _ _
  · refine Indexes.known (readValueArgs_inRange argv 0 argv.length) (Indexes.pure _) ?_
    intro args hargs
    cases args with
    | nil =>
      rw [List.length_nil] at hargs
      omega
    | cons first rest =>
      dsimp only
      split
      · exact Indexes.pure _
      · split
        · exact Indexes.pure _
        · exact findSha1_inRange up _ argv _ _ _ (by omega)

theorem execAll_inRange (location : Str) : ∀ programs : List (List Str),
    Indexes n (execAll up location programs)
  | [] => Indexes.pure _
  | program :: programs => by
    unfold execAll
    apply (sys_inRange up _).bind
    intro status
    split
    · exact Indexes.pure _
    · exact execAll_inRange location programs

/-- The end of `mount`, whatever its options are. -/
theorem mountWith_inRange (name : Str) {fsType partitionType location mountPoint : Str}
    (options : Str) :
    Indexes n (do
      match ← checkEmpty up name [("fs_type", fsType), ("partition_type", partitionType),
        ("location", location), ("mount_point", mountPoint)] with
      | none => return none
      | some _ => do
        let _ ← sys up (.makeMountPoint (cStr mountPoint))
        let ret ← sys up (.mount (cStr location) (cStr mountPoint) (cStr fsType) (cStr options))
        if ret < 0 then do
          uiPrintfErrno up (name ++ ascii ": Failed to mount " ++ cStr location ++
            ascii " at " ++ cStr mountPoint ++ ascii ": ")
          return stringValue []
        else return stringValue mountPoint) := by
  refine (checkEmpty_inRange up name _).option (Indexes.pure _) ?_
  intro _
  apply (sys_inRange up _).bind
  intro _
  apply (sys_inRange up _).bind
  intro ret
  split
  · exact (uiPrintfErrno_inRange up _).bind fun _ => Indexes.pure _
  · exact Indexes.pure _

theorem mountFn_inRange (name : Str) (argv : List Span) :
    Indexes argv.length (mountFn up name argv) := by
  apply withArgs_inRange
  intro args hcount hargs
  have hcount : argv.length = 4 ∨ argv.length = 5 := of_decide_eq_true hcount
  rcases hcount with hfour | hfive
  · match args, hargs.trans hfour with
    | [fsType, partitionType, location, mountPoint], _ =>
      simp only [hfour]
      exact mountWith_inRange up name []
  · match args, hargs.trans hfive with
    | [fsType, partitionType, location, mountPoint, options], _ =>
      simp only [hfive]
      exact mountWith_inRange up name options

theorem findVolume_inRange (mountPoint : Str) : Indexes n (findVolume up mountPoint) := by
  unfold findVolume
  split
  · exact abort_inRange up _ _
  · exact (sys_inRange up _).bind fun _ => Indexes.pure _

theorem isMountedFn_inRange (name : Str) (argv : List Span) :
    Indexes argv.length (isMountedFn up name argv) := by
  apply withCount_one
  intro mountPoint
  exact (findVolume_inRange up mountPoint).option (Indexes.pure _) fun _ => Indexes.pure _

theorem unmountFn_inRange (name : Str) (argv : List Span) :
    Indexes argv.length (unmountFn up name argv) := by
  apply withCount_one
  intro mountPoint
  refine (findVolume_inRange up mountPoint).option (Indexes.pure _) ?_
  intro vol
  cases vol with
  | false => exact (uiPrintf_inRange up _).bind fun _ => Indexes.pure _
  | true =>
    apply (sys_inRange up _).bind
    intro ret
    split
    · exact (uiPrintfErrno_inRange up _).bind fun _ => Indexes.pure _
    · exact Indexes.pure _

/-- `format` looks at its fifth argument, which one build does not ask for. -/
theorem formatFn_inRange (build : Build) (name : Str) {argv : List Span}
    (h : build.safestrap = true → argv.length ≠ 4) :
    Indexes argv.length (formatFn up build name argv) := by
  unfold formatFn
  split
  · unfold formatCount
    split
    · exact (Indexes.modify _).bind fun _ => Indexes.pure _
    · exact abort_inRange up _ _
  · rename_i hcount
    refine Indexes.known (readArgs_inRange up.toHost argv 0 argv.length) (abort_inRange up _ _) ?_
    intro args hargs
    have hfive : args.length = 5 := by
      cases hbuild : build.safestrap with
      | false =>
        simp only [hbuild, Bool.false_eq_true, false_and, true_and, false_or, not_not] at hcount
        lia
      | true =>
        have hfour := h hbuild
        simp only [hbuild, true_and, Bool.true_eq_false, false_and, or_false] at hcount
        lia
    match args, hfive with
    | [fsType, partitionType, location, fsSize, mountPoint], _ =>
      refine (checkEmpty_inRange up name _).option (Indexes.pure _) ?_
      intro _
      dsimp only
      split
      · exact abort_inRange up _ _
      · split
        · exact execAll_inRange up _ _
        · split
          · split
            · exact Indexes.pure _
            · exact execAll_inRange up _ _
          · exact Indexes.pure _

theorem makeDirs_inRange : ∀ dirs : List Str, Indexes n (makeDirs up dirs)
  | [] => Indexes.pure _
  | dirPath :: dirs => by
    unfold makeDirs
    apply (sys_inRange up _).bind
    intro isDir
    split
    · exact makeDirs_inRange dirs
    · apply (sys_inRange up _).bind
      intro result
      split
      · exact Indexes.pure _
      · exact makeDirs_inRange dirs

/-- The end of `rename`, after the files have been looked for. -/
theorem renameTo_inRange (srcName dstName : Str) (dst src : Int) :
    Indexes n (if dst = 0 ∧ src ≠ 0 then pure (stringValue dstName)
      else do
        let ret ← sys up (.rename (cStr srcName) (cStr dstName))
        if ret ≠ 0 then
          abortErrno up .fileRenameFailure (ascii "Rename of " ++ cStr srcName ++ ascii " to " ++
            cStr dstName ++ ascii " failed, error ")
        else pure (stringValue dstName)) := by
  split
  · exact Indexes.pure _
  · apply (sys_inRange up _).bind
    intro ret
    split
    · exact abortErrno_inRange up _ _
    · exact Indexes.pure _

theorem renameFn_inRange (name : Str) (argv : List Span) :
    Indexes argv.length (renameFn up name argv) := by
  apply withArgs_two
  intro srcName dstName
  refine (checkEmpty_inRange up name _).option (Indexes.pure _) ?_
  intro _
  apply (makeDirs_inRange up _).bind
  intro made
  split
  · exact abortErrno_inRange up _ _
  · apply (sys_inRange up _).bind
    intro dst
    dsimp only
    split
    · apply (sys_inRange up _).bind
      exact renameTo_inRange up _ _ _
    · apply (Indexes.pure _).bind
      exact renameTo_inRange up _ _ _

theorem deletePaths_inRange (recursive : Bool) : ∀ (paths : List Str) (success : Nat),
    Indexes n (deletePaths up recursive paths success)
  | [], _ => Indexes.pure _
  | path :: paths, success => by
    unfold deletePaths
    exact (sys_inRange up _).bind fun _ => deletePaths_inRange recursive paths _

theorem deleteFn_inRange (name : Str) (argv : List Span) :
    Indexes argv.length (deleteFn up name argv) := by
  refine Indexes.known (readArgs_inRange up.toHost argv 0 argv.length) (Indexes.pure _) ?_
  intro paths _
  exact (deletePaths_inRange up _ paths 0).bind fun _ => Indexes.pure _

theorem makeSymlinks_inRange (target : Str) : ∀ (srcs : List Str) (bad : Nat),
    Indexes n (makeSymlinks up target srcs bad)
  | [], _ => Indexes.pure _
  | src :: srcs, bad => by
    unfold makeSymlinks
    apply (sys_inRange up _).bind
    intro removed
    apply Indexes.get.bind
    intro s
    split
    · exact makeSymlinks_inRange target srcs _
    · apply (makeDirs_inRange up _).bind
      intro made
      split
      · exact makeSymlinks_inRange target srcs _
      · exact (sys_inRange up _).bind fun _ => makeSymlinks_inRange target srcs _

theorem symlinkFn_inRange (name : Str) (argv : List Span) :
    Indexes argv.length (symlinkFn up name argv) := by
  unfold symlinkFn
  split
  · exact abort_inRange up _ _
  · refine (evaluate_inRange up.toHost (by lia)).option (Indexes.pure _) ?_
    intro target
    refine Indexes.known (readArgs_inRange up.toHost argv 1 argv.length) (abort_inRange up _ _) ?_
    intro srcs _
    apply (makeSymlinks_inRange up target srcs 0).bind
    intro bad
    split
    · exact abort_inRange up _ _
    · exact Indexes.pure _

theorem extractToFile_inRange (zipPath destPath : Str) :
    Indexes n (extractToFile up zipPath destPath) := by
  apply (sys_inRange up _).bind
  intro found
  split
  · exact Indexes.pure _
  · apply (sys_inRange up _).bind
    intro fd
    split
    · exact Indexes.pure _
    · apply (sys_inRange up _).bind
      intro extracted
      apply (sys_inRange up _).bind
      intro synced
      exact (sys_inRange up _).bind fun _ => Indexes.pure _

theorem extractToBlob_inRange (name zipPath : Str) : Indexes n (extractToBlob up name zipPath) := by
  apply (sys_inRange up _).bind
  intro found
  split
  · exact abort_inRange up _ _
  · apply (data_inRange up _).bind
    intro buffer
    cases buffer with
    | some buffer => exact Indexes.pure _
    | none => exact (Indexes.modify _).bind fun _ => Indexes.pure _

theorem packageExtractFileFn_inRange (name : Str) (argv : List Span) :
    Indexes argv.length (packageExtractFileFn up name argv) := by
  unfold packageExtractFileFn
  split
  · exact abort_inRange up _ _
  · refine Indexes.known (readArgs_inRange up.toHost argv 0 argv.length) (abort_inRange up _ _) ?_
    intro args hargs
    dsimp only
    split
    · rename_i htwo
      obtain ⟨zipPath, destPath, rfl⟩ := List.length_eq_two.1 (hargs.trans htwo)
      exact extractToFile_inRange up _ _
    · have hone : args.length = 1 := by lia
      obtain ⟨zipPath, rfl⟩ := List.length_eq_one_iff.1 hone
      exact extractToBlob_inRange up _ _

theorem packageExtractDirFn_inRange (name : Str) (argv : List Span) :
    Indexes argv.length (packageExtractDirFn up name argv) := by
  apply withArgs_two
  intro zipPath destPath
  exact (sys_inRange up _).bind fun _ => Indexes.pure _

/-- A key of `set_metadata` has its value: the file comes first, and the number is odd. -/
theorem parsePermArgs_inRange (argv : List Span) : ∀ (keys : List Str) (parsed : PermParsedArgs),
    keys.length % 2 = 0 → Indexes n (parsePermArgs up argv keys parsed)
  | [], _, _ => Indexes.pure _
  | [_], _, h => by
    rw [List.length_singleton] at h
    lia
  | key :: value :: keys, parsed, h => by
    have heven : keys.length % 2 = 0 := by
      rw [List.length_cons, List.length_cons] at h
      lia
    unfold parsePermArgs
    split
    · exact parsePermArgs_inRange argv keys parsed heven
    · split
      · exact parsePermArgs_inRange argv keys _ heven
      · exact (uiPrintf_inRange up _).bind fun _ => parsePermArgs_inRange argv keys parsed heven

theorem setMetadataFn_inRange (name : Str) (argv : List Span) :
    Indexes argv.length (setMetadataFn up name argv) := by
  apply withArgs_inRange
  intro args hcount hargs
  have hodd : argv.length % 2 = 1 := of_decide_eq_true hcount
  cases args with
  | nil =>
    rw [List.length_nil] at hargs
    lia
  | cons filename keys =>
    apply (sys_inRange up _).bind
    intro found
    split
    · exact abortErrno_inRange up _ _
    · have heven : keys.length % 2 = 0 := by
        rw [List.length_cons] at hargs
        lia
      refine (parsePermArgs_inRange up argv keys {} heven).option (Indexes.pure _) ?_
      intro parsed
      apply (sys_inRange up _).bind
      intro bad
      split
      · exact abort_inRange up _ _
      · exact Indexes.pure _

theorem getPropFn_inRange (name : Str) (argv : List Span) :
    Indexes argv.length (getPropFn up name argv) := by
  unfold getPropFn
  split
  · exact abort_inRange up _ _
  · refine (evaluate_inRange up.toHost (by lia)).option (Indexes.pure _) ?_
    intro key
    exact (data_inRange up _).bind fun _ => Indexes.pure _

theorem fileGetPropFn_inRange (name : Str) (argv : List Span) :
    Indexes argv.length (fileGetPropFn up name argv) := by
  apply withArgs_two
  intro filename key
  apply (sys_inRange up _).bind
  intro size
  split
  · exact abortErrno_inRange up _ _
  · split
    · exact abort_inRange up _ _
    · refine (data_inRange up _).option (abortErrno_inRange up _ _) ?_
      intro _
      exact (data_inRange up _).option (abort_inRange up _ _) fun _ => Indexes.pure _

theorem showProgressFn_inRange (name : Str) (argv : List Span) :
    Indexes argv.length (showProgressFn up name argv) := by
  apply withArgs_two
  intro fracStr secStr
  dsimp only
  split
  · exact abort_inRange up _ _
  · split
    · exact abort_inRange up _ _
    · exact (sys_inRange up _).bind fun _ => Indexes.pure _

theorem setProgressFn_inRange (name : Str) (argv : List Span) :
    Indexes argv.length (setProgressFn up name argv) := by
  apply withCount_one
  intro fracStr
  dsimp only
  split
  · exact abort_inRange up _ _
  · exact (sys_inRange up _).bind fun _ => Indexes.pure _

theorem uiPrintFn_inRange (name : Str) (argv : List Span) :
    Indexes argv.length (uiPrintFn up name argv) := by
  refine Indexes.known (readArgs_inRange up.toHost argv 0 argv.length) (abort_inRange up _ _) ?_
  intro args _
  exact (sys_inRange up _).bind fun _ => Indexes.pure _

theorem applyPatchSpaceFn_inRange (name : Str) (argv : List Span) :
    Indexes argv.length (applyPatchSpaceFn up name argv) := by
  apply withCount_one
  intro bytesStr
  dsimp only
  split
  · exact abort_inRange up _ _
  · apply Indexes.get.bind
    intro s
    split
    · exact Indexes.pure _
    · exact (sys_inRange up _).bind fun _ => Indexes.pure _

theorem commandFn_inRange (command : String) (name : Str) (argv : List Span) :
    Indexes argv.length (commandFn up command name argv) := by
  unfold commandFn
  split
  · exact abort_inRange up _ _
  · exact (sys_inRange up _).bind fun _ => Indexes.pure _

theorem runProgramFn_inRange (name : Str) (argv : List Span) :
    Indexes argv.length (runProgramFn up name argv) := by
  apply withArgs_inRange
  intro args _ hargs
  rw [if_neg (by lia)]
  exact (sys_inRange up _).bind fun _ => Indexes.pure _

theorem readFileFn_inRange (name : Str) (argv : List Span) :
    Indexes argv.length (readFileFn up name argv) := by
  apply withCount_one
  intro filename
  exact (data_inRange up _).option (Indexes.pure _) fun _ => Indexes.pure _

theorem writeValueFn_inRange (name : Str) (argv : List Span) :
    Indexes argv.length (writeValueFn up name argv) := by
  apply withArgs_two
  intro value filename
  dsimp only
  split
  · exact abort_inRange up _ _
  · exact (sys_inRange up _).bind fun _ => Indexes.pure _

theorem updateBootloaderMessage_inRange (filename : Str) (change : Str → Str) :
    Indexes n (updateBootloaderMessage up filename change) := by
  refine (data_inRange up _).option (Indexes.pure _) ?_
  intro boot
  exact (sys_inRange up _).bind fun _ => Indexes.pure _

theorem rebootNowFn_inRange (name : Str) (argv : List Span) :
    Indexes argv.length (rebootNowFn up name argv) := by
  apply withArgs_two
  intro filename property
  apply (updateBootloaderMessage_inRange up _ _).bind
  intro updated
  split
  · exact Indexes.pure _
  · apply Indexes.get.bind
    intro s
    apply (sys_inRange up _).bind
    intro _
    exact (Indexes.modify _).bind fun _ => abort_inRange up _ _

theorem setStageFn_inRange (name : Str) (argv : List Span) :
    Indexes argv.length (setStageFn up name argv) := by
  apply withArgs_two
  intro filename stagestr
  apply (updateBootloaderMessage_inRange up _ _).bind
  intro updated
  split
  · exact Indexes.pure _
  · exact Indexes.pure _

theorem getStageFn_inRange (name : Str) (argv : List Span) :
    Indexes argv.length (getStageFn up name argv) := by
  apply withCount_one
  intro filename
  exact (data_inRange up _).option (Indexes.pure _) fun _ => Indexes.pure _

theorem wipeBlockDeviceFn_inRange (name : Str) (argv : List Span) :
    Indexes argv.length (wipeBlockDeviceFn up name argv) := by
  apply withArgs_two
  intro filename lenStr
  dsimp only
  split
  · exact Indexes.pure _
  · exact (sys_inRange up _).bind fun _ => Indexes.pure _

theorem tune2FsFn_inRange (build : Build) (name : Str) (argv : List Span) :
    Indexes argv.length (tune2FsFn up build name argv) := by
  unfold tune2FsFn
  split
  · exact abort_inRange up _ _
  · split
    · exact abort_inRange up _ _
    · refine Indexes.known (readArgs_inRange up.toHost argv 0 argv.length) (abort_inRange up _ _) ?_
      intro args hargs
      dsimp only
      rw [if_neg (by lia)]
      apply (sys_inRange up _).bind
      intro result
      split
      · exact abort_inRange up _ _
      · exact Indexes.pure _

end Updater

/-! ## Every function -/

/-- A number of arguments that the function of this name is safe with. -/
def ArityOk (build : Build) (name : Str) (n : Nat) : Prop :=
  (name = ascii "sleep" → 1 ≤ n) ∧ (name = ascii "is_substring" → 2 ≤ n) ∧
    (name = ascii "format" → build.safestrap = true → n ≠ 4)

variable (up : Updater ω) (build : Build)

/-- **The table**: a function with a number of arguments that it is safe with. -/
theorem functionTable_inRange : ∀ p ∈ functionTable up build, ∀ argv : List Span,
    ArityOk build p.1 argv.length → Indexes argv.length (p.2 p.1 argv) := by
  simp only [functionTable, builtins, installFunctions, List.cons_append, List.nil_append,
    List.forall_mem_cons]
  refine ⟨fun argv _ => ifElseFn_inRange _ _ argv, fun argv _ => abortFn_inRange _ _ argv,
    fun argv _ => assertFn_inRange _ _ argv, fun argv _ => concatFn_inRange _ _ argv,
    fun argv h => testFn_inRange _ _ _ (h.2.1 rfl), fun argv _ => stdoutFn_inRange _ _ argv,
    fun argv h => sleepFn_inRange _ _ (h.1 rfl), fun argv _ => compareIntFn_inRange _ _ _ _ argv,
    fun argv _ => compareIntFn_inRange _ _ _ _ argv, fun argv _ => mountFn_inRange up _ argv,
    fun argv _ => isMountedFn_inRange up _ argv, fun argv _ => unmountFn_inRange up _ argv,
    fun argv h => formatFn_inRange up build _ (h.2.2 rfl), ?_⟩
  refine ⟨fun argv _ => showProgressFn_inRange up _ argv,
    fun argv _ => setProgressFn_inRange up _ argv, fun argv _ => deleteFn_inRange up _ argv,
    fun argv _ => deleteFn_inRange up _ argv, fun argv _ => packageExtractDirFn_inRange up _ argv,
    fun argv _ => packageExtractFileFn_inRange up _ argv, fun argv _ => symlinkFn_inRange up _ argv,
    fun argv _ => setMetadataFn_inRange up _ argv, fun argv _ => setMetadataFn_inRange up _ argv,
    fun argv _ => getPropFn_inRange up _ argv, fun argv _ => fileGetPropFn_inRange up _ argv,
    fun argv _ => applyPatchFn_inRange up _ argv, fun argv _ => applyPatchCheckFn_inRange up _ argv,
    fun argv _ => applyPatchSpaceFn_inRange up _ argv, ?_⟩
  exact ⟨fun argv _ => wipeBlockDeviceFn_inRange up _ argv,
    fun argv _ => readFileFn_inRange up _ argv, fun argv _ => sha1CheckFn_inRange up _ argv,
    fun argv _ => renameFn_inRange up _ argv, fun argv _ => writeValueFn_inRange up _ argv,
    fun argv _ => commandFn_inRange up _ _ argv, fun argv _ => uiPrintFn_inRange up _ argv,
    fun argv _ => runProgramFn_inRange up _ argv, fun argv _ => rebootNowFn_inRange up _ argv,
    fun argv _ => getStageFn_inRange up _ argv, fun argv _ => setStageFn_inRange up _ argv,
    fun argv _ => commandFn_inRange up _ _ argv, fun argv _ => tune2FsFn_inRange up build _ argv,
    fun _ h => absurd h List.not_mem_nil⟩

/-- `FindFunction` on the table. -/
def findRegistered : Str → Option (Function ω) := findFunction (functionTable up build)

theorem findRegistered_inRange {name : Str} {fn : Function ω}
    (h : findRegistered up build name = some fn) {argv : List Span}
    (hok : ArityOk build name argv.length) : Indexes argv.length (fn name argv) := by
  unfold findRegistered findFunction at h
  obtain ⟨before, after, hsplit, -⟩ := List.lookup_eq_some_iff.1 h
  apply functionTable_inRange up build (name, fn) ?_ argv hok
  rw [hsplit]
  exact List.mem_append_right _ List.mem_cons_self

/-! ## Scripts -/

/-- Every call in the expression is one of a function in the table, or indexes only the arguments
that it has. -/
inductive Expr.Built : Expr ω → Prop where
  | mk {fn : Function ω} {name : Str} {argv : List (Expr ω)} {span : Span}
      (hfn : findRegistered up build name = some fn ∨
        Indexes (argv.map Expr.span).length (fn name (argv.map Expr.span)))
      (hargv : ∀ e ∈ argv, e.Built) : (Expr.mk fn name argv span).Built

theorem Expr.Built.setSpan {e : Expr ω} (h : e.Built up build) (span : Span) :
    (e.setSpan span).Built up build := by
  cases h with
  | mk hfn hargv => exact .mk hfn hargv

/-- An operator always has its arguments. -/
theorem BinaryOp.fn_inRange (op : BinaryOp) (host : Host ω) (name : Str) {argv : List Span}
    (h : argv.length = 2) : Indexes argv.length (op.fn host name argv) := by
  cases op with
  | seq => exact sequenceFn_inRange name h.ge
  | plus => exact concatFn_inRange host name argv
  | eq => exact testFn_inRange host _ name h.ge
  | ne => exact testFn_inRange host _ name h.ge
  | and => exact logicalAndFn_inRange host name h.ge
  | or => exact logicalOrFn_inRange host name h.ge

theorem build_built {script : Syntax} {e : Expr ω}
    (he : script.build up.toHost (findRegistered up build) = some e) : e.Built up build := by
  induction script using Syntax.induct generalizing e with
  | string text loc =>
    cases he
    exact .mk (Or.inr (Indexes.pure _)) nofun
  | paren s loc ih =>
    unfold Syntax.build at he
    obtain ⟨e', he', rfl⟩ := Option.map_eq_some_iff.1 he
    exact (ih he').setSpan _ _ _
  | trailing s loc ih =>
    unfold Syntax.build at he
    obtain ⟨e', he', rfl⟩ := Option.map_eq_some_iff.1 he
    exact (ih he').setSpan _ _ _
  | binary op left right loc ihl ihr =>
    simp only [Syntax.build, Option.pure_def, Option.bind_eq_bind, Option.bind_eq_some_iff] at he
    obtain ⟨l, hl, r, hr, heq⟩ := he
    cases heq
    exact .mk (Or.inr (op.fn_inRange _ _ rfl)) (by simp [ihl hl, ihr hr])
  | not s loc ih =>
    simp only [Syntax.build, Option.pure_def, Option.bind_eq_bind, Option.bind_eq_some_iff] at he
    obtain ⟨e', he', heq⟩ := he
    cases heq
    exact .mk (Or.inr (logicalNotFn_inRange _ _ (Nat.le_refl _))) (by simp [ih he'])
  | ifThen cond yes loc ihc ihy =>
    simp only [Syntax.build, Option.pure_def, Option.bind_eq_bind, Option.bind_eq_some_iff] at he
    obtain ⟨c, hc, y, hy, heq⟩ := he
    cases heq
    exact .mk (Or.inr (ifElseFn_inRange _ _ _)) (by simp [ihc hc, ihy hy])
  | ifThenElse cond yes no loc ihc ihy ihn =>
    simp only [Syntax.build, Option.pure_def, Option.bind_eq_bind, Option.bind_eq_some_iff] at he
    obtain ⟨c, hc, y, hy, n, hn, heq⟩ := he
    cases heq
    exact .mk (Or.inr (ifElseFn_inRange _ _ _)) (by simp [ihc hc, ihy hy, ihn hn])
  | call name args loc ih =>
    simp only [Syntax.build, Option.pure_def, Option.bind_eq_bind, Option.bind_eq_some_iff] at he
    obtain ⟨fn, hfn, argv, hargv, heq⟩ := he
    cases heq
    refine .mk (Or.inl hfn) ?_
    intro e he
    obtain ⟨s, hs, hbuild⟩ := mem_buildArgs hargv he
    exact ih s hs hbuild

/-! ## The calls that an evaluation reaches -/

/-- The evaluation of an expression in a state comes to evaluate another, in another state. -/
inductive Reaches : Expr ω → State ω → Expr ω → State ω → Prop where
  | here {e : Expr ω} {s : State ω} : Reaches e s e s
  | inside {fn : Function ω} {name : Str} {argv : List (Expr ω)} {span : Span} {s t s' : State ω}
      {i : Nat} {e e' : Expr ω}
      (hasks : (fn name (argv.map Expr.span) s).Comes (evaluateValues argv) i t)
      (he : argv[i]? = some e) (h : Reaches e t e' s') : Reaches (.mk fn name argv span) s e' s'

/-- The call asks for an argument that it does not have. -/
def Expr.Overruns : Expr ω → State ω → Prop
  | .mk fn name argv _, s => (fn name (argv.map Expr.span) s).Overruns (evaluateValues argv)

/-- **Where an evaluation is undefined**: it reaches a call that asks for an argument that it does
not have. -/
theorem evaluateValue_eq_none_iff : ∀ (e : Expr ω) (s : State ω),
    evaluateValue e s = none ↔ ∃ e' s', Reaches e s e' s' ∧ e'.Overruns s'
  | .mk fn name argv span, s => by
    have hargv : ∀ i e, argv[i]? = some e → ∀ t,
        (evaluateValue e t = none ↔ ∃ e' s', Reaches e t e' s' ∧ e'.Overruns s') :=
      fun i e hi t =>
        have := List.mem_of_getElem? hi
        evaluateValue_eq_none_iff e t
    rw [evaluateValue, node_eq_none_iff, Plan.run_eq_none_iff]
    constructor
    · rintro (hover | ⟨i, t, e, hcomes, he, hnone⟩)
      · exact ⟨_, s, .here, hover⟩
      · rw [evaluateValues_eq, List.getElem?_map] at he
        obtain ⟨e, hi, rfl⟩ := Option.map_eq_some_iff.1 he
        obtain ⟨e', s', hreach, hover⟩ := (hargv i e hi t).1 hnone
        exact ⟨e', s', .inside hcomes hi hreach, hover⟩
    · rintro ⟨e', s', hreach, hover⟩
      cases hreach with
      | here => exact Or.inl hover
      | @inside _ _ _ _ _ t _ i e _ hcomes hi hreach =>
        refine Or.inr ⟨i, t, evaluateValue e, hcomes, ?_, (hargv i e hi t).2 ⟨e', s', hreach, hover⟩⟩
        rw [evaluateValues_eq, List.getElem?_map, hi]
        rfl

theorem Reaches.built {e e' : Expr ω} {s s' : State ω} (h : Reaches e s e' s')
    (hbuilt : e.Built up build) : e'.Built up build := by
  induction h with
  | here => exact hbuilt
  | inside _ he _ ih =>
    cases hbuilt with
    | mk _ hargv => exact ih (hargv _ (List.mem_of_getElem? he))

/-- The arguments, one after the other, are evaluated to strings. -/
def GiveStrings : List (Expr ω) → State ω → Prop
  | [], _ => True
  | e :: argv, s =>
    ∃ o str, evaluateValue e s = some o ∧ o.value = some ⟨.string, str⟩ ∧ GiveStrings argv o.state

/-- `Evaluate` on an argument that is there, by a function that ends where it is no string. -/
theorem evaluate_overruns (host : Host ω) {argv : List (Evaluator (State ω) Value)} {i : Nat}
    {e : Expr ω} (he : argv[i]? = some (evaluateValue e)) {f : Option Str → Code ω α}
    (hnone : ∀ s, ¬ (f none s).Overruns argv) (s : State ω) :
    ((evaluate host i >>= f) s).Overruns argv ↔
      ∃ o str, evaluateValue e s = some o ∧ o.value = some ⟨.string, str⟩ ∧
        (f (some str) o.state).Overruns argv := by
  have hi : ¬ argv.length ≤ i := fun h => by simp [List.getElem?_eq_none_iff.2 h] at he
  refine Plan.overruns_ask.trans ?_
  rw [or_iff_right hi]
  constructor
  · rintro ⟨e', o, he', ho, hover⟩
    cases he.symm.trans he'
    match hvalue : o.value with
    | none =>
      rw [hvalue] at hover
      exact absurd hover (hnone _)
    | some ⟨.string, str⟩ =>
      rw [hvalue] at hover
      exact ⟨o, str, ho, hvalue, hover⟩
    | some ⟨.invalid, _⟩ | some ⟨.blob, _⟩ =>
      rw [hvalue] at hover
      exact absurd hover (hnone _)
  · rintro ⟨o, str, ho, hvalue, hover⟩
    refine ⟨_, o, he, ho, ?_⟩
    rw [hvalue]
    exact hover

/-- `Evaluate` on an argument that is not there. -/
theorem evaluate_overruns_missing {host : Host ω} {argv : List (Evaluator (State ω) Value)} {i : Nat}
    (hi : argv.length ≤ i) (f : Option Str → Code ω α) (s : State ω) :
    ((evaluate host i >>= f) s).Overruns argv :=
  Plan.overruns_ask.2 (Or.inl hi)

/-- The evaluation of what the parser builds indexes no argument that is not there. -/
def SafeIn (s : Syntax) (state : State ω) : Prop :=
  ∀ e, s.build up.toHost (findRegistered up build) = some e → ∃ o, evaluateValue e state = some o

/-- A step of `ReadArgs`. -/
def readArg (host : Host ω) (i : Nat) (args : List Str) : Code ω (Option (List Str)) := do
  match ← evaluate host i with
  | none => return none
  | some var => return some (args ++ [var])

theorem readArgs_all (host : Host ω) (argv : List Span) :
    readArgs host argv 0 argv.length = forArgs (readArg host) argv.length 0 [] := by
  unfold readArgs
  rw [if_neg (by lia)]
  rfl

/-- One argument, then the rest of the loop. -/
theorem forArgs_readArg (host : Host ω) (n i : Nat) (args : List Str)
    (f : Option (List Str) → Code ω α) :
    forArgs (readArg host) (n + 1) i args >>= f = evaluate host i >>= fun r =>
      match r with
      | none => f none
      | some var => forArgs (readArg host) n (i + 1) (args ++ [var]) >>= f := by
  rw [forArgs, readArg, bind_assoc, bind_assoc]
  congr 1
  funext r
  cases r with
  | none => rfl
  | some var => rfl

/-- `ReadArgs` on all arguments, by a function that ends where one is no string and goes too far
where all of them are. -/
theorem readArgs_overruns {host : Host ω} {argv : List (Expr ω)} {f : Option (List Str) → Code ω α}
    (hnone : ∀ s, ¬ (f none s).Overruns (evaluateValues argv))
    (hsome : ∀ args s, args.length = argv.length → (f (some args) s).Overruns (evaluateValues argv))
    (s : State ω) :
    ((readArgs host (argv.map Expr.span) 0 (argv.map Expr.span).length >>= f) s).Overruns
        (evaluateValues argv) ↔ GiveStrings argv s := by
  have hloop : ∀ (rest before : List (Expr ω)), before ++ rest = argv → ∀ args s,
      args.length = before.length →
        (((forArgs (readArg host) rest.length before.length args >>= f) s).Overruns
          (evaluateValues argv) ↔ GiveStrings rest s) := by
    intro rest
    induction rest with
    | nil =>
      intro before hargv args s hargs
      rw [List.append_nil] at hargv
      exact iff_of_true (hsome args s (hargs.trans (congrArg List.length hargv))) trivial
    | cons e rest ih =>
      intro before hargv args s hargs
      have he : (evaluateValues argv)[before.length]? = some (evaluateValue e) := by
        rw [evaluateValues_eq, ← hargv]
        simp
      rw [List.length_cons, forArgs_readArg, evaluate_overruns host he hnone, GiveStrings]
      refine exists_congr fun o => exists_congr fun str => and_congr_right fun _ =>
        and_congr_right fun _ => ?_
      have hrest := ih (before ++ [e]) (by simpa using hargv) (args ++ [str]) o.state
        (by simp [hargs])
      rwa [List.length_append, List.length_singleton] at hrest
  rw [readArgs_all, List.length_map]
  exact hloop argv [] rfl [] s rfl

/-! ## The calls that are not safe -/

theorem sleepFn_overruns (host : Host ω) (name : Str) (span : Span) (s : State ω) :
    (Expr.mk (sleepFn host) name [] span).Overruns s :=
  evaluate_overruns_missing (Nat.le_refl _) _ s

theorem substringFn_overruns (host : Host ω) (name : Str) {argv : List (Expr ω)}
    (h : argv.length < 2) (span : Span) (s : State ω) :
    (Expr.mk (substringFn host) name argv span).Overruns s ↔ GiveStrings argv s := by
  match argv, h with
  | [], _ => exact iff_of_true (evaluate_overruns_missing (Nat.le_refl _) _ s) trivial
  | [e], _ =>
    have he : (evaluateValues [e])[0]? = some (evaluateValue e) := rfl
    have hfirst := evaluate_overruns host he (f := fun left => do
      match left with
      | none => return none
      | some left =>
        match ← evaluate host 1 with
        | none => return none
        | some right => return truth (decide (left <:+: right)))
      (fun s => Plan.not_overruns_done) s
    refine hfirst.trans ?_
    refine exists_congr fun o => exists_congr fun str => and_congr_right fun _ =>
      and_congr_right fun _ => ?_
    exact iff_of_true (evaluate_overruns_missing (Nat.le_refl _) _ _) trivial

theorem formatFn_overruns {build : Build} (hbuild : build.safestrap = true) (name : Str)
    {argv : List (Expr ω)} (h : argv.length = 4) (span : Span) (s : State ω) :
    (Expr.mk (formatFn up build) name argv span).Overruns s ↔ GiveStrings argv s := by
  have hcount : ¬ ((build.safestrap = true ∧ ((argv.map Expr.span).length < 4 ∨
      (argv.map Expr.span).length > 5)) ∨
        (build.safestrap = false ∧ (argv.map Expr.span).length ≠ 5)) := by
    simp [hbuild, h]
  unfold Expr.Overruns formatFn
  dsimp only
  rw [if_neg hcount]
  apply readArgs_overruns
  · intro s
    exact Plan.not_overruns_done
  · intro args s hargs
    match args, hargs.trans h with
    | [_, _, _, _], _ =>
      refine Plan.overruns_ask.2 (Or.inl ?_)
      rw [evaluateValues_eq, List.length_map, List.length_map]

/-- **A call of a function in the table** goes too far where the function is not safe with that
many arguments and all of them are evaluated to strings. -/
theorem findRegistered_overruns {fn : Function ω} {name : Str}
    (hfn : findRegistered up build name = some fn) (argv : List (Expr ω)) (span : Span)
    (s : State ω) :
    (Expr.mk fn name argv span).Overruns s ↔
      ¬ ArityOk build name argv.length ∧ GiveStrings argv s := by
  by_cases hok : ArityOk build name argv.length
  · refine iff_of_false ?_ fun h => h.1 hok
    have hspans : ArityOk build name (argv.map Expr.span).length := by rwa [List.length_map]
    have hbelow := findRegistered_inRange up build hfn hspans s
    apply Plan.AsksBelow.not_overruns
    rw [evaluateValues_eq, List.length_map]
    rwa [List.length_map] at hbelow
  · refine Iff.trans ?_ (and_iff_right hok).symm
    unfold ArityOk at hok
    rw [Classical.not_and_iff_not_or_not, Classical.not_and_iff_not_or_not, Classical.not_imp,
      Classical.not_imp, Classical.not_imp, Classical.not_imp, not_not] at hok
    rcases hok with ⟨rfl, hcount⟩ | ⟨rfl, hcount⟩ | ⟨rfl, hbuild, hcount⟩
    · cases Option.some.inj (show some (sleepFn up.toHost) = some fn from hfn)
      obtain rfl := List.length_eq_zero_iff.1 (show argv.length = 0 by lia)
      exact iff_of_true (sleepFn_overruns _ _ _ _) trivial
    · cases Option.some.inj (show some (substringFn up.toHost) = some fn from hfn)
      exact substringFn_overruns _ _ (by lia) _ _
    · cases Option.some.inj (show some (formatFn up build) = some fn from hfn)
      exact formatFn_overruns up hbuild _ hcount _ _

/-- A call of a function in the table whose arguments are evaluated to strings has as many as the
function is safe with. -/
def Expr.Harmless : Expr ω → State ω → Prop
  | .mk fn name argv _, s =>
    findRegistered up build name = some fn → GiveStrings argv s → ArityOk build name argv.length

theorem Expr.Built.harmless_iff {e : Expr ω} (h : e.Built up build) (s : State ω) :
    e.Harmless up build s ↔ ¬ e.Overruns s := by
  cases h with
  | @mk fn name argv span hfn _ =>
    by_cases hregistered : findRegistered up build name = some fn
    · rw [findRegistered_overruns up build hregistered, not_and', not_not]
      exact forall_prop_of_true hregistered
    · refine iff_of_true (fun h => absurd h hregistered) ?_
      have hbelow := hfn.resolve_left hregistered s
      apply Plan.AsksBelow.not_overruns
      rw [evaluateValues_eq, List.length_map]
      rwa [List.length_map] at hbelow

/-- **Arities**: a script is safe in a state if and only if every call that its evaluation reaches
is harmless in the state in which it is reached. -/
theorem arity_spec (script : Syntax) (s : State ω) :
    SafeIn up build script s ↔
      ∀ e, script.build up.toHost (findRegistered up build) = some e →
        ∀ e' s', Reaches e s e' s' → e'.Harmless up build s' := by
  refine forall_congr' fun e => forall_congr' fun he => ?_
  rw [← Option.ne_none_iff_exists', ne_eq, evaluateValue_eq_none_iff]
  simp only [not_exists, not_and]
  refine forall_congr' fun e' => forall_congr' fun s' => forall_congr' fun hreach => ?_
  exact ((hreach.built up build (build_built up build he)).harmless_iff up build s').symm

/-- An updater without a system. -/
def idleUpdater : Updater Unit where
  toHost := quietHost
  parseUint := fun _ => none
  parseDouble := fun _ => none
  scanD64 := fun _ => none
  scanI32 := fun _ => none
  scanI64 := fun _ => none
  sha1 := id
  parseSha1 := some
  printSha1 := id
  sys := fun _ _ => (0, ())
  data := fun _ _ => (none, ())
  errno := fun _ => 0
  strerror := fun _ => []
  isRetry := fun _ => false
  errorCodeString := fun _ => []
  uncompressedLength := fun _ => 0
  quiescent := fun _ => false

/-- `if "" then sleep() else x endif`: the call is not reached. -/
example : SafeIn idleUpdater ⟨false, false⟩
    (.ifThenElse (.string ⟨[], List.not_mem_nil⟩ default)
      (.call ⟨ascii "sleep", by decide⟩ [] default) (.string ⟨ascii "x", by decide⟩ default) default)
    ⟨[], [], .noCause, ()⟩ := by
  intro e he
  cases he
  exact ⟨_, rfl⟩

/-- `sleep()`. -/
theorem sleep_unsafe :
    ¬ SafeIn idleUpdater ⟨false, false⟩ (.call ⟨ascii "sleep", by decide⟩ [] ⟨0, 7⟩)
      ⟨ascii "sleep()", [], .noCause, ()⟩ := by
  intro hsafe
  obtain ⟨o, ho⟩ := hsafe (.mk (sleepFn idleUpdater.toHost) (ascii "sleep") [] ⟨0, 7⟩) rfl
  cases ho

end Recovery.Edify
