import Recovery.Edify.Expr

/-!
# The contract of functions

`expr.cpp` asks of every function to return a C string, and to return null if the evaluation of an
argument did.

* `FollowsContract` — that, for values of any type: a string without NUL.
* `Orderly` — more than the contract asks: a null argument ends the body at once, and the arguments
  are evaluated from left to right, each at most once.
* `Neat` — both, for a part of a body, with a rule for every way to build one.
* `concatFn_neat` and so on — the evaluators; `builtins_neat` — the registered functions.

A function that is registered by a caller of the library is not covered by `builtins_neat`; for it
the contract is an assumption of whoever states a result.
-/

set_option autoImplicit false

namespace Recovery.Edify

open Recovery.Lib

variable {ω α γ : Type}

/-- A string has no NUL. -/
def Value.Clean (v : Value) : Prop := v.type = .string → 0 ∉ v.data

structure FollowsContract (fn : Function ω) : Prop where
  null : ∀ name argv s, (fn name argv s).Strict
  text : ∀ name argv s, (fn name argv s).Yields Value.Clean fun v => ∀ x ∈ v, x.Clean

structure Orderly (fn : Function ω) : Prop where
  prompt : ∀ name argv s, (fn name argv s).Prompt
  inOrder : ∀ name argv s, ∃ m, (fn name argv s).InOrder 0 m

/-- A part of a body that asks for arguments from `n` on and before `m` only. -/
structure Neat (n m : Nat) (Q : α → Prop) (c : Code ω (Option α)) : Prop where
  prompt : ∀ s, (c s).Prompt
  inOrder : ∀ s, (c s).InOrder n m
  yields : ∀ s, (c s).Yields Value.Clean fun v => ∀ x ∈ v, Q x

namespace Neat

variable {n m l : Nat} {Q : α → Prop} {R : γ → Prop}

theorem null : Neat n m Q (pure none : Code ω (Option α)) :=
  ⟨fun _ => trivial, fun _ => trivial, fun _ _ h => nomatch h⟩

theorem some {a : α} (h : Q a) : Neat n m Q (pure (some a) : Code ω (Option α)) := by
  refine ⟨fun _ => trivial, fun _ => trivial, ?_⟩
  intro _ x hx
  rw [Option.mem_some_iff] at hx
  rw [← hx]
  exact h

theorem mono {n' m' : Nat} (hn : n' ≤ n) (hm : m ≤ m') {c : Code ω (Option α)} (h : Neat n m Q c) :
    Neat n' m' Q c :=
  ⟨h.prompt, fun s => (h.inOrder s).mono hn hm, h.yields⟩

/-- `if (!part) return nullptr;`, then the rest. -/
theorem bind (hnm : n ≤ m) (hml : m ≤ l) {c : Code ω (Option α)}
    {f : Option α → Code ω (Option γ)} (hc : Neat n m Q c)
    (hnone : ∀ s, ∃ s', f none s = .done none s') (hsome : ∀ a, Neat m l R (f (.some a))) :
    Neat n l R (c >>= f) := by
  have hnull (s : State ω) : (f none s).InOrder m l ∧
      (f none s).Yields Value.Clean fun v => ∀ x ∈ v, R x := by
    obtain ⟨s', hs'⟩ := hnone s
    rw [hs']
    exact ⟨trivial, fun _ h => nomatch h⟩
  refine ⟨?_, ?_, ?_⟩
  · intro s
    exact (hc.prompt s).bind hnone fun a s => (hsome a).prompt s
  · intro s
    apply (hc.inOrder s).bind hnm hml
    intro a s
    cases a with
    | none => exact (hnull s).1
    | some a => exact (hsome a).inOrder s
  · intro s
    apply (hc.yields s).bind
    intro a s _
    cases a with
    | none => exact (hnull s).2
    | some a => exact (hsome a).yields s

theorem modify (g : State ω → State ω) {c : Code ω (Option α)} (h : Neat n m Q c) :
    Neat n m Q (Body.modify g >>= fun _ => c) :=
  ⟨fun s => h.prompt (g s), fun s => h.inOrder (g s), fun s => h.yields (g s)⟩

theorem ask (i : Nat) : Neat i (i + 1) Value.Clean (Body.ask i : Code ω (Option Value)) := by
  refine ⟨?_, ?_, ?_⟩
  · intro s
    exact ⟨fun s => ⟨s, rfl⟩, fun _ _ => trivial⟩
  · intro s
    exact ⟨Nat.le_refl _, Nat.lt_succ_self _, fun _ _ => trivial⟩
  · intro s b s' hb
    exact hb

theorem forArgs {step : Nat → α → Code ω (Option α)}
    (hstep : ∀ i acc, Neat i (i + 1) (fun _ => True) (step i acc)) (n i : Nat) (acc : α) :
    Neat i (i + n) (fun _ => True) (forArgs step n i acc) := by
  induction n generalizing i acc with
  | zero => exact some trivial
  | succ n ih =>
    unfold Edify.forArgs
    refine bind (Nat.le_succ i) (by lia) (hstep i acc) ?_ ?_
    · exact fun s => ⟨s, rfl⟩
    · intro acc
      exact (ih (i + 1) acc).mono (Nat.le_refl _) (by lia)

end Neat

/-! ## Reading arguments -/

variable (host : Host ω)

theorem evaluate_neat (i : Nat) : Neat i (i + 1) (fun _ => True) (evaluate host i) := by
  refine Neat.bind (Nat.le_succ i) (Nat.le_refl _) (Neat.ask i) ?_ ?_
  · exact fun s => ⟨s, rfl⟩
  · intro v
    dsimp only
    split
    · exact Neat.some trivial
    · exact Neat.null.modify _

/-- `if (!Evaluate(argv[i], &x)) return nullptr;`, then the rest. -/
theorem evaluate_then {n m : Nat} {Q : α → Prop} (i : Nat) (hn : n ≤ i) (hm : i + 1 ≤ m)
    {f : Option Str → Code ω (Option α)} (hnone : ∀ s, ∃ s', f none s = .done none s')
    (hsome : ∀ str, Neat (i + 1) m Q (f (some str))) : Neat n m Q (evaluate host i >>= f) :=
  ((evaluate_neat host i).bind (Nat.le_succ i) hm hnone hsome).mono hn (Nat.le_refl _)

/-- A step of a loop that evaluates its argument. -/
theorem evaluate_step {i : Nat} {f : Str → Code ω (Option α)}
    (h : ∀ str, Neat (i + 1) (i + 1) (fun _ => True) (f str)) :
    Neat i (i + 1) (fun _ => True) (evaluate host i >>= fun
      | none => pure none
      | some str => f str) := by
  refine evaluate_then host i (Nat.le_refl _) (Nat.le_refl _) ?_ h
  exact fun s => ⟨s, rfl⟩

theorem readArgs_neat (argv : List Span) (start len : Nat) :
    Neat start (start + len) (fun _ => True) (readArgs host argv start len) := by
  unfold readArgs
  split
  · exact Neat.null
  · apply Neat.forArgs
    intro i args
    apply evaluate_step
    intro var
    exact Neat.some trivial

/-! ## The evaluators -/

theorem stringValue_neat {n m : Nat} (str : Str) :
    Neat n m Value.Clean (pure (stringValue str) : Code ω (Option Value)) :=
  Neat.some fun _ => zero_notMem_cStr str

/-- A function whose bodies are neat for any number of arguments. -/
def NeatFunction (fn : Function ω) : Prop :=
  ∀ name argv, Neat 0 (argv.length + 3) Value.Clean (fn name argv)

theorem NeatFunction.contract {fn : Function ω} (h : NeatFunction fn) : FollowsContract fn :=
  ⟨fun name argv s => ((h name argv).prompt s).strict, fun name argv => (h name argv).yields⟩

theorem NeatFunction.orderly {fn : Function ω} (h : NeatFunction fn) : Orderly fn :=
  ⟨fun name argv => (h name argv).prompt, fun name argv s => ⟨_, (h name argv).inOrder s⟩⟩

/-- A loop over all arguments, then the rest. -/
theorem loop_then {argv : List Span} {step : Nat → α → Code ω (Option α)} {acc : α}
    {f : Option α → Code ω (Option Value)}
    (hstep : ∀ i acc, Neat i (i + 1) (fun _ => True) (step i acc))
    (hnone : ∀ s, ∃ s', f none s = .done none s')
    (hsome : ∀ acc, ∃ str, f (some acc) = pure (stringValue str)) :
    Neat 0 (argv.length + 3) Value.Clean (forArgs step argv.length 0 acc >>= f) := by
  refine Neat.bind (Nat.zero_le _) (by lia) (Neat.forArgs hstep argv.length 0 acc) hnone ?_
  intro acc
  obtain ⟨str, hstr⟩ := hsome acc
  rw [hstr]
  exact stringValue_neat _

theorem literal_neat : NeatFunction (literal : Function ω) :=
  fun name _ => stringValue_neat name

theorem concatFn_neat : NeatFunction (concatFn host) := by
  intro name argv
  unfold concatFn
  split
  · exact stringValue_neat _
  · refine loop_then ?_ ?_ ?_
    · intro i result
      apply evaluate_step
      intro str
      exact Neat.some trivial
    · exact fun s => ⟨s, rfl⟩
    · exact fun result => ⟨result, rfl⟩

theorem ifElseFn_neat : NeatFunction (ifElseFn host) := by
  intro name argv
  unfold ifElseFn
  split
  · exact Neat.null.modify _
  · refine evaluate_then host 0 (Nat.le_refl _) (by lia) ?_ ?_
    · exact fun s => ⟨s, rfl⟩
    · intro cond
      dsimp only
      split
      · exact (Neat.ask 1).mono (Nat.le_refl _) (by lia)
      · split
        · exact (Neat.ask 2).mono (by lia) (by lia)
        · exact stringValue_neat _

theorem abortFn_neat : NeatFunction (abortFn host) := by
  intro name argv
  unfold abortFn
  split
  · refine evaluate_then host 0 (Nat.le_refl _) (by lia) ?_ ?_
    · exact fun s => ⟨_, rfl⟩
    · intro msg
      exact Neat.null.modify _
  · exact Neat.null.modify _

theorem assertFn_neat : NeatFunction (assertFn host) := by
  intro name argv
  unfold assertFn
  refine loop_then ?_ ?_ ?_
  · intro i _
    apply evaluate_step
    intro result
    split
    · exact Neat.null.modify _
    · exact Neat.some trivial
  · exact fun s => ⟨s, rfl⟩
  · exact fun _ => ⟨[], rfl⟩

theorem sleepFn_neat : NeatFunction (sleepFn host) := by
  intro name argv
  refine evaluate_then host 0 (Nat.le_refl _) (by lia) ?_ ?_
  · exact fun s => ⟨s, rfl⟩
  · intro val
    dsimp only
    split
    · exact Neat.null
    · exact (stringValue_neat val).modify _

theorem stdoutFn_neat : NeatFunction (stdoutFn host) := by
  intro name argv
  unfold stdoutFn
  refine loop_then ?_ ?_ ?_
  · intro i _
    apply evaluate_step
    intro v
    exact (Neat.some trivial).modify _
  · exact fun s => ⟨s, rfl⟩
  · exact fun _ => ⟨[], rfl⟩

theorem logicalAndFn_neat : NeatFunction (logicalAndFn host) := by
  intro name argv
  refine evaluate_then host 0 (Nat.le_refl _) (by lia) ?_ ?_
  · exact fun s => ⟨s, rfl⟩
  · intro left
    dsimp only
    split
    · exact (Neat.ask 1).mono (Nat.le_refl _) (by lia)
    · exact stringValue_neat _

theorem logicalOrFn_neat : NeatFunction (logicalOrFn host) := by
  intro name argv
  refine evaluate_then host 0 (Nat.le_refl _) (by lia) ?_ ?_
  · exact fun s => ⟨s, rfl⟩
  · intro left
    dsimp only
    split
    · exact (Neat.ask 1).mono (Nat.le_refl _) (by lia)
    · exact stringValue_neat _

theorem logicalNotFn_neat : NeatFunction (logicalNotFn host) := by
  intro name argv
  refine evaluate_then host 0 (Nat.le_refl _) (by lia) ?_ ?_
  · exact fun s => ⟨s, rfl⟩
  · intro val
    exact stringValue_neat _

theorem testFn_neat (test : Str → Str → Bool) : NeatFunction (testFn host test) := by
  intro name argv
  refine evaluate_then host 0 (Nat.le_refl _) (by lia) ?_ ?_
  · exact fun s => ⟨s, rfl⟩
  · intro left
    refine evaluate_then host 1 (Nat.le_refl _) (by lia) ?_ ?_
    · exact fun s => ⟨s, rfl⟩
    · intro right
      exact stringValue_neat _

theorem sequenceFn_neat : NeatFunction (sequenceFn : Function ω) := by
  intro name argv
  refine Neat.bind (Nat.zero_le 1) (by lia) (Neat.ask 0) ?_ ?_
  · exact fun s => ⟨s, rfl⟩
  · intro _
    exact (Neat.ask 1).mono (Nat.le_refl _) (by lia)

theorem compareIntFn_neat (word : String) (test : Int → Int → Bool) :
    NeatFunction (compareIntFn host word test) := by
  intro name argv
  unfold compareIntFn
  split
  · exact Neat.null.modify _
  · refine Neat.bind (Nat.zero_le _) (by lia) (readArgs_neat host argv 0 argv.length) ?_ ?_
    · exact fun s => ⟨s, rfl⟩
    · intro args
      split
      · split
        · exact Neat.null.modify _
        · split
          · exact Neat.null.modify _
          · exact stringValue_neat _
      · exact Neat.null

/-- **The registered functions** keep the contract, and more. -/
theorem builtins_neat : ∀ p ∈ builtins host, NeatFunction p.2 := by
  simp only [builtins, List.forall_mem_cons]
  refine ⟨ifElseFn_neat host, abortFn_neat host, assertFn_neat host, concatFn_neat host,
    testFn_neat host _, stdoutFn_neat host, sleepFn_neat host, compareIntFn_neat host _ _,
    compareIntFn_neat host _ _, nofun⟩

theorem findFunction_neat {name : Str} {fn : Function ω}
    (h : findFunction (builtins host) name = some fn) : NeatFunction fn := by
  unfold findFunction at h
  obtain ⟨before, after, hsplit, -⟩ := List.lookup_eq_some_iff.1 h
  apply builtins_neat host (name, fn)
  rw [hsplit]
  exact List.mem_append_right _ List.mem_cons_self

end Recovery.Edify
