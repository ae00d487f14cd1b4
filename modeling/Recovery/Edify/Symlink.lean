import Recovery.Edify.Arity

/-!
# What `symlink` does with its arguments (`SymlinkFn`)

* `evaluateStrings` — the arguments one after the other, up to the first that is not a string.
* `Linked` — all sources were tried, and the result says whether all of them are links.
* `LinksSources` — a call that evaluates its arguments and links its sources.
* `readArgs_past` — a slice that ends behind the last argument is not read.
* `symlinkFn_run` — what a call does: the target is evaluated, and no source is.
* `symlink_links_iff` — a call links its sources only where there is nothing to link.

`ReadArgs` is asked for a slice whose length is that of the whole list; `symlinkFn_asks` is the
bound on what the evaluation then looks at.
-/

set_option autoImplicit false

namespace Recovery.Edify

open Recovery.Lib

variable {ω : Type}

/-- The evaluation of the arguments from number `i` on. -/
def evaluateStrings : Nat → List (Expr ω) → State ω →
    Option (Evaluated (State ω) (Option (List Str)))
  | _, [], s => some ⟨some [], s, []⟩
  | i, e :: argv, s =>
    (evaluateValue e s).bind fun o =>
      match o.value with
      | some ⟨.string, str⟩ =>
        (evaluateStrings (i + 1) argv o.state).map fun r =>
          ⟨r.value.map (str :: ·), r.state, o.log.map (Event.under i) ++ r.log⟩
      | _ => some ⟨none, o.state, o.log.map (Event.under i)⟩

variable (up : Updater ω)

/-- Each source was removed, got its parents and was linked, as far as that went; the call gives
`"t"` if nothing failed, and aborts otherwise. -/
def Linked (target : Str) (srcs : List Str) (s : State ω)
    (o : Evaluated (State ω) (Option Value)) : Prop :=
  ∃ bad s', makeSymlinks up target srcs 0 s = .done bad s' ∧ o.state.world = s'.world ∧
    o.value = if bad = 0 then some ⟨.string, ascii "t"⟩ else none

/-- Each argument is evaluated once and in order; if none aborts, the sources are linked. -/
def LinksSources (name : Str) (argv : List (Expr ω)) (span : Span) (s : State ω) : Prop :=
  ∀ o, evaluateValue (.mk (symlinkFn up) name argv span) s = some o →
    ∃ r, evaluateStrings 0 argv s = some r ∧
      o.log = .invoked [] :: (r.log ++ [.returned [] o.value.isNone]) ∧
      match r.value with
      | none => o.value = none
      | some [] => False
      | some (target :: srcs) => Linked up target srcs r.state o

/-- The evaluation of an expression gives a string. -/
def GivesString (e : Expr ω) (s : State ω) : Prop :=
  ∃ o str, evaluateValue e s = some o ∧ o.value = some ⟨.string, str⟩

theorem readArgs_past (host : Host ω) {argv : List Span} {start : Nat} (h : 0 < start) :
    readArgs host argv start argv.length = pure none := by
  unfold readArgs
  rw [if_pos]
  lia

/-- The log of an evaluation begins with the call. -/
theorem evaluateValue_log {e : Expr ω} {s : State ω} {o : Evaluated (State ω) (Option Value)}
    (h : evaluateValue e s = some o) : o.log ≠ [] := by
  obtain ⟨fn, name, argv, span⟩ := e
  rw [evaluateValue] at h
  obtain ⟨r, -, -, -, hlog⟩ := node_run h
  rw [hlog]
  exact List.cons_ne_nil _ _

theorem evaluateStrings_log {i : Nat} {e : Expr ω} {argv : List (Expr ω)} {s : State ω}
    {r : Evaluated (State ω) (Option (List Str))} (h : evaluateStrings i (e :: argv) s = some r) :
    r.log ≠ [] := by
  rw [evaluateStrings] at h
  obtain ⟨o, ho, h⟩ := Option.bind_eq_some_iff.1 h
  have hlog : o.log.map (Event.under i) ≠ [] := by
    simpa only [ne_eq, List.map_eq_nil_iff] using evaluateValue_log ho
  split at h
  · obtain ⟨r', -, rfl⟩ := Option.map_eq_some_iff.1 h
    exact List.append_ne_nil_of_left_ne_nil hlog _
  · cases h
    exact hlog

/-- The body asks for the target, and is at its end whatever the answer is. -/
theorem symlinkFn_asks (name : Str) (target : Expr ω) (srcs : List (Expr ω)) (s : State ω) :
    ∃ k, symlinkFn up name ((target :: srcs).map Expr.span) s = .ask 0 s k ∧
      ∀ b s', ∃ s'', k b s' = .done none s'' := by
  have hnever : ∀ spans : List Span, readArgs up.toHost (target.span :: spans) 1
      (target.span :: spans).length = pure none :=
    fun spans => readArgs_past up.toHost Nat.one_pos
  rw [List.map_cons, symlinkFn, if_neg (by simp)]
  refine ⟨_, rfl, ?_⟩
  rintro (_ | ⟨type, str⟩) s'
  · exact ⟨s', rfl⟩
  · cases type with
    | invalid => exact ⟨errorAbort up.toHost .argsParsingFailure (typeMessage .invalid) s', rfl⟩
    | blob => exact ⟨errorAbort up.toHost .argsParsingFailure (typeMessage .blob) s', rfl⟩
    | string =>
      refine ⟨errorAbort up.toHost .argsParsingFailure
        (name ++ ascii "(): Failed to parse the argument(s)") s', ?_⟩
      simp only [hnever]
      rfl

/-- What a call does: the target is evaluated, and no source is. -/
theorem symlinkFn_run {name : Str} {target : Expr ω} {srcs : List (Expr ω)} {span : Span}
    {s : State ω} {o : Evaluated (State ω) (Option Value)}
    (h : evaluateValue (.mk (symlinkFn up) name (target :: srcs) span) s = some o) :
    ∃ t, evaluateValue target s = some t ∧ o.value = none ∧
      o.log = .invoked [] :: (t.log.map (Event.under 0) ++ [.returned [] true]) := by
  obtain ⟨k, hk, hend⟩ := symlinkFn_asks up name target srcs s
  rw [evaluateValue] at h
  obtain ⟨r, hr, hvalue, -, hlog⟩ := node_run h
  rw [hk] at hr
  rw [Plan.run, evaluateValues, List.getElem?_cons_zero, Option.bind_some] at hr
  obtain ⟨t, ht, hr⟩ := Option.bind_eq_some_iff.1 hr
  obtain ⟨s'', hs''⟩ := hend t.value t.state
  rw [hs''] at hr
  cases hr
  refine ⟨t, ht, hvalue, ?_⟩
  rw [hlog]
  simp

theorem symlinkFn_defined (name : Str) {target : Expr ω} (srcs : List (Expr ω)) (span : Span)
    {s : State ω} {t : Evaluated (State ω) (Option Value)} (ht : evaluateValue target s = some t) :
    ∃ o, evaluateValue (.mk (symlinkFn up) name (target :: srcs) span) s = some o := by
  obtain ⟨k, hk, hend⟩ := symlinkFn_asks up name target srcs s
  obtain ⟨s'', hs''⟩ := hend t.value t.state
  rw [evaluateValue, node, hk, evaluateValues, Plan.run, List.getElem?_cons_zero, Option.bind_some,
    ht, Option.bind_some, hs'']
  exact ⟨_, rfl⟩

/-- **`symlink` links its sources** only where the target is not a string: with one that is, the
sources are never evaluated. -/
theorem symlink_links_iff (name : Str) (target src : Expr ω) (srcs : List (Expr ω)) (span : Span)
    (s : State ω) :
    LinksSources up name (target :: src :: srcs) span s ↔ ¬ GivesString target s := by
  constructor
  · rintro hlinks ⟨t, str, ht, hstr⟩
    obtain ⟨o, ho⟩ := symlinkFn_defined up name (src :: srcs) span ht
    obtain ⟨t', ht', -, hlog⟩ := symlinkFn_run up ho
    obtain ⟨r, hr, hall, -⟩ := hlinks o ho
    cases ht.symm.trans ht'
    rw [evaluateStrings, ht, Option.bind_some, hstr] at hr
    obtain ⟨r', hr', rfl⟩ := Option.map_eq_some_iff.1 hr
    have hlength : r'.log.length = 0 := by
      have hlogs := congrArg List.length (hlog.symm.trans hall)
      simp only [List.length_cons, List.length_append, List.length_nil] at hlogs
      omega
    exact evaluateStrings_log hr' (List.length_eq_zero_iff.1 hlength)
  · intro htarget o ho
    obtain ⟨t, ht, hvalue, hlog⟩ := symlinkFn_run up ho
    refine ⟨⟨none, t.state, t.log.map (Event.under 0)⟩, ?_, ?_, hvalue⟩
    · rw [evaluateStrings, ht, Option.bind_some]
      split
      · rename_i str hstr
        exact absurd ⟨t, str, ht, hstr⟩ htarget
      · rfl
    · rw [hlog, hvalue]
      rfl

/-- `symlink("b", "a")`: the source is not evaluated. -/
theorem symlink_unread :
    ¬ LinksSources idleUpdater (ascii "symlink")
      [.mk literal (ascii "b") [] ⟨8, 11⟩, .mk literal (ascii "a") [] ⟨13, 16⟩] ⟨0, 17⟩
      ⟨ascii "symlink(\"b\", \"a\")", [], .noCause, ()⟩ := by
  intro hlinks
  obtain ⟨r, hr, hlog, -⟩ := hlinks _ rfl
  cases hr
  revert hlog
  decide

end Recovery.Edify
