import Recovery.Edify.Contract

/-!
# Edify scripts

The expressions that the parser builds, and what the language description says about them.

* `Syntax`, `build` — the productions of `edify/parser.yy`, and their actions.
* `readme` — the meaning of an expression as `edify/README.md` describes it, on the syntax.
* `evaluateValue_readme` — the evaluation of what the parser builds has this meaning.
* `propagates`, `halts`, `ordered` — the log of the evaluation.
* `evaluate_script` — all of it for a script.

A registered function may be any that follows the contract of `Edify.Contract`; the meaning of the
operators and of `if` is fixed.  `contract_not_orderly` — the contract alone does not fix the order
in which a function evaluates its arguments.
-/

set_option autoImplicit false

namespace Recovery.Edify

open Recovery.Lib

/-- The text of a `STRING` token is a C string. -/
abbrev Token := { text : Str // 0 ∉ text }

inductive BinaryOp where
  | seq
  | plus
  | eq
  | ne
  | and
  | or
deriving DecidableEq

/-- An `expr` of the grammar; every node knows the location `@$`. -/
inductive Syntax where
  | string (text : Token) (loc : Span)
  | paren (e : Syntax) (loc : Span)
  /-- `expr ';'`. -/
  | trailing (e : Syntax) (loc : Span)
  | binary (op : BinaryOp) (left right : Syntax) (loc : Span)
  | not (e : Syntax) (loc : Span)
  | ifThen (cond yes : Syntax) (loc : Span)
  | ifThenElse (cond yes no : Syntax) (loc : Span)
  | call (name : Token) (args : List Syntax) (loc : Span)

def Syntax.loc : Syntax → Span
  | string _ loc | paren _ loc | trailing _ loc | binary _ _ _ loc | not _ loc | ifThen _ _ loc
  | ifThenElse _ _ _ loc | call _ _ loc => loc

variable {ω : Type} (host : Host ω)

def BinaryOp.fn : BinaryOp → Function ω
  | seq => sequenceFn
  | plus => concatFn host
  | eq => equalityFn host
  | ne => inequalityFn host
  | and => logicalAndFn host
  | or => logicalOrFn host

/-- `Build(fn, @$, count, ...)`. -/
def buildOp (fn : Function ω) (loc : Span) (argv : List (Expr ω)) : Expr ω :=
  .mk fn (ascii "(operator)") argv loc

-- `FindFunction`
variable (find : Str → Option (Function ω))

mutual

/-- The actions of the parser; a call of an unknown function is an error. -/
def Syntax.build : Syntax → Option (Expr ω)
  | .string text loc => some (.mk literal text.1 [] loc)
  | .paren e loc => e.build.map (Expr.setSpan · loc)
  | .trailing e _ => e.build.map (Expr.setSpan · e.loc)
  | .binary op left right loc => do
    return buildOp (op.fn host) loc [← left.build, ← right.build]
  | .not e loc => do return buildOp (logicalNotFn host) loc [← e.build]
  | .ifThen cond yes loc => do
    return buildOp (ifElseFn host) loc [← cond.build, ← yes.build]
  | .ifThenElse cond yes no loc => do
    return buildOp (ifElseFn host) loc [← cond.build, ← yes.build, ← no.build]
  | .call name args loc => do
    return .mk (← find name.1) name.1 (← buildArgs args) loc

def Syntax.buildArgs : List Syntax → Option (List (Expr ω))
  | [] => some []
  | e :: args => do return (← e.build) :: (← buildArgs args)

end

/-! ## The language description -/

/-- What an expression does to the state; its value is null where it aborts. -/
abbrev Meaning (ω α : Type) := StateT (State ω) Option α

/-- A string-valued expression. -/
def yields (s : Str) : Meaning ω (Option Value) := pure (some ⟨.string, s⟩)

/-- An expression in the position of a string: a value of another type aborts. -/
def asString (m : Meaning ω (Option Value)) : Meaning ω (Option Str) := do
  match ← m with
  | none => return none
  | some v =>
    if v.type = .string then return some v.data
    else do
      modify (errorAbort host .argsParsingFailure (typeMessage v.type))
      return none

/-- The description of an operator. -/
def BinaryOp.readme (left right : Meaning ω (Option Value)) : BinaryOp → Meaning ω (Option Value)
  | seq => do
    -- first the left side, then the right
    match ← left with
    | none => return none
    | some _ => right
  | plus => do
    match ← asString host left with
    | none => return none
    | some l =>
      match ← asString host right with
      | none => return none
      | some r => yields (l ++ r)
  | eq => do
    match ← asString host left with
    | none => return none
    | some l =>
      match ← asString host right with
      | none => return none
      | some r => yields (if l = r then ascii "t" else [])
  | ne => do
    match ← asString host left with
    | none => return none
    | some l =>
      match ← asString host right with
      | none => return none
      | some r => yields (if l = r then [] else ascii "t")
  | and => do
    -- the second argument only if it is needed; the value of the last evaluated one
    match ← asString host left with
    | none => return none
    | some l => if l = [] then yields l else right
  | or => do
    match ← asString host left with
    | none => return none
    | some l => if l = [] then right else yields l

/-- The branch that the condition selects. -/
def readmeIf (cond yes no : Meaning ω (Option Value)) : Meaning ω (Option Value) := do
  match ← asString host cond with
  | none => return none
  | some c => if c = [] then no else yes

/-- The location that an argument has for the function called. -/
def Syntax.span : Syntax → Span
  | trailing e _ => e.loc
  | e => e.loc

mutual

def readme : Syntax → Meaning ω (Option Value)
  | .string text _ => yields text.1
  | .paren e _ => readme e
  | .trailing e _ => readme e
  | .binary op left right _ => op.readme host (readme left) (readme right)
  | .not e _ => do
    match ← asString host (readme e) with
    | none => return none
    | some v => yields (if v = [] then ascii "t" else [])
  | .ifThen cond yes _ => readmeIf host (readme cond) (readme yes) (yields [])
  | .ifThenElse cond yes no _ => readmeIf host (readme cond) (readme yes) (readme no)
  | .call name args _ =>
    -- the body of the function controls which arguments are evaluated
    match find name.1 with
    | none => fun _ => none
    | some fn => (fn name.1 (args.map Syntax.span)).meaning (readmeArgs args)

def readmeArgs : List Syntax → List (Meaning ω (Option Value))
  | [] => []
  | e :: args => readme e :: readmeArgs args

end

/-! ## Trees -/

/-- Induction over the syntax, with the arguments of a call as a list. -/
theorem Syntax.induct {P : Syntax → Prop} (string : ∀ text loc, P (.string text loc))
    (paren : ∀ e loc, P e → P (.paren e loc)) (trailing : ∀ e loc, P e → P (.trailing e loc))
    (binary : ∀ op left right loc, P left → P right → P (.binary op left right loc))
    (not : ∀ e loc, P e → P (.not e loc))
    (ifThen : ∀ cond yes loc, P cond → P yes → P (.ifThen cond yes loc))
    (ifThenElse : ∀ cond yes no loc, P cond → P yes → P no → P (.ifThenElse cond yes no loc))
    (call : ∀ name args loc, (∀ e ∈ args, P e) → P (.call name args loc)) (s : Syntax) : P s :=
  @Syntax.rec P (fun args => ∀ e ∈ args, P e) string paren trailing binary not ifThen ifThenElse
    call nofun
    (fun _ _ he hargs e hmem => by
      rcases List.mem_cons.1 hmem with rfl | hmem
      · exact he
      · exact hargs e hmem) s

theorem evaluateValues_eq (argv : List (Expr ω)) :
    evaluateValues argv = argv.map evaluateValue := by
  induction argv with
  | nil => rfl
  | cons e argv ih =>
    unfold evaluateValues
    rw [ih, List.map_cons]

variable {host find}

theorem readmeArgs_eq (args : List Syntax) :
    readmeArgs host find args = args.map (readme host find) := by
  induction args with
  | nil => rfl
  | cons e args ih =>
    unfold readmeArgs
    rw [ih, List.map_cons]

theorem buildArgs_cons {s : Syntax} {args : List Syntax} {argv : List (Expr ω)}
    (h : Syntax.buildArgs host find (s :: args) = some argv) :
    ∃ e argv', s.build host find = some e ∧ Syntax.buildArgs host find args = some argv' ∧
      argv = e :: argv' := by
  unfold Syntax.buildArgs at h
  simp only [Option.pure_def, Option.bind_eq_bind, Option.bind_eq_some_iff] at h
  obtain ⟨e, he, argv', hargv', heq⟩ := h
  cases heq
  exact ⟨e, argv', he, hargv', rfl⟩

theorem mem_buildArgs {args : List Syntax} {argv : List (Expr ω)}
    (h : Syntax.buildArgs host find args = some argv) {e : Expr ω} (he : e ∈ argv) :
    ∃ s ∈ args, s.build host find = some e := by
  induction args generalizing argv with
  | nil =>
    cases h
    cases he
  | cons s args ih =>
    obtain ⟨e', argv', hbuild, hargv', rfl⟩ := buildArgs_cons h
    rcases List.mem_cons.1 he with rfl | he
    · exact ⟨s, List.mem_cons_self, hbuild⟩
    · obtain ⟨s', hs', hbuild'⟩ := ih hargv' he
      exact ⟨s', List.mem_cons_of_mem _ hs', hbuild'⟩

theorem build_of_mem {args : List Syntax} {argv : List (Expr ω)}
    (h : Syntax.buildArgs host find args = some argv) {s : Syntax} (hs : s ∈ args) :
    ∃ e, s.build host find = some e := by
  induction args generalizing argv with
  | nil => cases hs
  | cons s' args ih =>
    obtain ⟨e', argv', hbuild, hargv', rfl⟩ := buildArgs_cons h
    rcases List.mem_cons.1 hs with rfl | hs
    · exact ⟨e', hbuild⟩
    · exact ih hargv' hs

theorem map_buildArgs {α : Type} {f : Syntax → α} {g : Expr ω → α} {args : List Syntax}
    {argv : List (Expr ω)} (h : Syntax.buildArgs host find args = some argv)
    (heq : ∀ s ∈ args, ∀ e, s.build host find = some e → g e = f s) :
    argv.map g = args.map f := by
  induction args generalizing argv with
  | nil =>
    cases h
    rfl
  | cons s args ih =>
    obtain ⟨e, argv', hbuild, hargv', rfl⟩ := buildArgs_cons h
    rw [List.map_cons, List.map_cons, heq s List.mem_cons_self e hbuild,
      ih hargv' fun s' hs' => heq s' (List.mem_cons_of_mem _ hs')]

/-- Every function in the expression has the property. -/
inductive Expr.All (P : Function ω → Prop) : Expr ω → Prop where
  | mk {fn : Function ω} {name : Str} {argv : List (Expr ω)} {span : Span} (hfn : P fn)
      (hargv : ∀ e ∈ argv, e.All P) : (Expr.mk fn name argv span).All P

theorem Expr.All.setSpan {P : Function ω → Prop} {e : Expr ω} (h : e.All P) (span : Span) :
    (e.setSpan span).All P := by
  cases h with
  | mk hfn hargv => exact .mk hfn hargv

theorem BinaryOp.fn_neat (op : BinaryOp) : NeatFunction (op.fn host) := by
  cases op with
  | seq => exact sequenceFn_neat
  | plus => exact concatFn_neat host
  | eq => exact testFn_neat host _
  | ne => exact testFn_neat host _
  | and => exact logicalAndFn_neat host
  | or => exact logicalOrFn_neat host

theorem build_all {P : Function ω → Prop} (hneat : ∀ fn, NeatFunction fn → P fn)
    (hfind : ∀ name fn, find name = some fn → P fn) {s : Syntax} {e : Expr ω}
    (h : s.build host find = some e) : e.All P := by
  induction s using Syntax.induct generalizing e with
  | string text loc =>
    cases h
    exact .mk (hneat _ literal_neat) nofun
  | paren s loc ih =>
    unfold Syntax.build at h
    obtain ⟨e', he', rfl⟩ := Option.map_eq_some_iff.1 h
    exact (ih he').setSpan loc
  | trailing s loc ih =>
    unfold Syntax.build at h
    obtain ⟨e', he', rfl⟩ := Option.map_eq_some_iff.1 h
    exact (ih he').setSpan _
  | binary op left right loc ihl ihr =>
    simp only [Syntax.build, Option.pure_def, Option.bind_eq_bind, Option.bind_eq_some_iff] at h
    obtain ⟨l, hl, r, hr, heq⟩ := h
    cases heq
    exact .mk (hneat _ op.fn_neat) (by simp [ihl hl, ihr hr])
  | not s loc ih =>
    simp only [Syntax.build, Option.pure_def, Option.bind_eq_bind, Option.bind_eq_some_iff] at h
    obtain ⟨e', he', heq⟩ := h
    cases heq
    exact .mk (hneat _ (logicalNotFn_neat host)) (by simp [ih he'])
  | ifThen cond yes loc ihc ihy =>
    simp only [Syntax.build, Option.pure_def, Option.bind_eq_bind, Option.bind_eq_some_iff] at h
    obtain ⟨c, hc, y, hy, heq⟩ := h
    cases heq
    exact .mk (hneat _ (ifElseFn_neat host)) (by simp [ihc hc, ihy hy])
  | ifThenElse cond yes no loc ihc ihy ihn =>
    simp only [Syntax.build, Option.pure_def, Option.bind_eq_bind, Option.bind_eq_some_iff] at h
    obtain ⟨c, hc, y, hy, n, hn, heq⟩ := h
    cases heq
    exact .mk (hneat _ (ifElseFn_neat host)) (by simp [ihc hc, ihy hy, ihn hn])
  | call name args loc ih =>
    simp only [Syntax.build, Option.pure_def, Option.bind_eq_bind, Option.bind_eq_some_iff] at h
    obtain ⟨fn, hfn, argv, hargv, heq⟩ := h
    cases heq
    refine .mk (hfind _ _ hfn) ?_
    intro e he
    obtain ⟨s, hs, hbuild⟩ := mem_buildArgs hargv he
    exact ih s hs hbuild

/-! ## The log of an evaluation -/

theorem Expr.All.propagates {e : Expr ω} (h : e.All FollowsContract) :
    Propagates (evaluateValue e) := by
  induction h with
  | @mk fn name argv span hfn _ ih =>
    unfold evaluateValue
    apply node_propagates
    · rw [evaluateValues_eq]
      simpa using ih
    · exact hfn.null name _

theorem Expr.All.halts {e : Expr ω} (h : e.All Orderly) :
    Propagates (evaluateValue e) ∧ Halts (evaluateValue e) := by
  induction h with
  | @mk fn name argv span hfn _ ih =>
    have hargs : ∀ ev ∈ evaluateValues argv, Propagates ev ∧ Halts ev := by
      rw [evaluateValues_eq]
      simpa using ih
    unfold evaluateValue
    refine ⟨?_, ?_⟩
    · apply node_propagates fun ev hev => (hargs ev hev).1
      intro s
      exact (hfn.prompt name _ s).strict
    · exact node_halts hargs (hfn.prompt name _)

theorem Expr.All.ordered {e : Expr ω} (h : e.All Orderly) : Ordered (evaluateValue e) := by
  induction h with
  | @mk fn name argv span hfn _ ih =>
    unfold evaluateValue
    apply node_ordered
    · rw [evaluateValues_eq]
      simpa using ih
    · exact hfn.inOrder name _

/-! ## The meaning of an evaluation -/

/-- The values have no NUL in strings. -/
def CleanMeaning (m : Meaning ω (Option Value)) : Prop :=
  ∀ s r, m s = some r → ∀ v ∈ r.1, v.Clean

/-- What follows a string needs to agree on C strings only. -/
theorem asString_bind_congr {α : Type} {m : Meaning ω (Option Value)} (hm : CleanMeaning m)
    {f g : Option Str → Meaning ω α} (hnone : f none = g none)
    (hsome : ∀ l, 0 ∉ l → f (some l) = g (some l)) :
    (asString host m >>= f) = (asString host m >>= g) := by
  funext s
  show (asString host m s).bind _ = (asString host m s).bind _
  apply Option.bind_congr
  rintro ⟨r, s'⟩ hr
  cases r with
  | none => exact congrFun hnone s'
  | some l =>
    refine congrFun (hsome l ?_) s'
    unfold asString at hr
    obtain ⟨⟨v, s''⟩, hv, hr⟩ := Option.bind_eq_some_iff.1 hr
    cases v with
    | none => cases hr
    | some v =>
      have hclean := hm s _ hv v rfl
      dsimp only at hr
      split at hr
      · rename_i htype
        cases hr
        exact hclean htype
      · cases hr

variable {argv : List (Meaning ω (Option Value))}

theorem evaluate_meaning {i : Nat} {m : Meaning ω (Option Value)} (h : argv[i]? = some m) :
    (evaluate host i).meaning argv = asString host m := by
  unfold evaluate asString
  rw [Body.meaning_bind, Body.meaning_ask argv h]
  apply bind_congr
  intro v
  cases v with
  | none => rfl
  | some v =>
    dsimp only
    split
    · rfl
    · rfl

theorem cStr_ascii_t : cStr (ascii "t") = ascii "t" := cStr_eq (by decide)

theorem truth_eq (b : Bool) : truth b = some ⟨.string, if b then ascii "t" else []⟩ := by
  cases b with
  | false => rfl
  | true => exact congrArg (fun t => some (Value.mk .string t)) cStr_ascii_t

theorem stringValue_eq {str : Str} (h : 0 ∉ str) : stringValue str = some ⟨.string, str⟩ := by
  unfold stringValue
  rw [cStr_eq h]

variable {a b c : Meaning ω (Option Value)}

/-- Reading a string argument, then the rest of a body. -/
theorem evaluate_bind_meaning {α : Type} {i : Nat} (hi : argv[i]? = some a) (ha : CleanMeaning a)
    {f : Option Str → Code ω α} {g : Option Str → Meaning ω α}
    (hnone : (f none).meaning argv = g none)
    (hsome : ∀ l, 0 ∉ l → (f (some l)).meaning argv = g (some l)) :
    Body.meaning argv (evaluate host i >>= f) = asString host a >>= g := by
  rw [Body.meaning_bind, evaluate_meaning hi]
  exact asString_bind_congr ha hnone hsome

theorem concatFn_meaning (ha : CleanMeaning a) (hb : CleanMeaning b) (name : Str) (sa sb : Span) :
    (concatFn host name [sa, sb]).meaning [a, b] = BinaryOp.plus.readme host a b := by
  have ha0 : (evaluate host 0).meaning [a, b] = asString host a := evaluate_meaning rfl
  have hb1 : (evaluate host 1).meaning [a, b] = asString host b := evaluate_meaning rfl
  unfold concatFn BinaryOp.readme
  rw [if_neg (List.cons_ne_nil _ _)]
  simp only [forArgs, List.length_cons, List.length_nil, Body.meaning_bind, bind_assoc, ha0]
  refine asString_bind_congr ha rfl ?_
  intro l hl
  simp only [Body.meaning_bind, Body.meaning_pure, pure_bind, bind_assoc, hb1, List.nil_append]
  refine asString_bind_congr hb rfl ?_
  intro r hr
  simp only [Body.meaning_pure, pure_bind]
  rw [stringValue_eq]
  · rfl
  · simp [hl, hr]

theorem testFn_meaning (ha : CleanMeaning a) (hb : CleanMeaning b) (test : Str → Str → Bool)
    (name : Str) (argv : List Span) :
    (testFn host test name argv).meaning [a, b] = (do
      match ← asString host a with
      | none => return none
      | some l =>
        match ← asString host b with
        | none => return none
        | some r => yields (if test l r then ascii "t" else [])) := by
  unfold testFn
  refine evaluate_bind_meaning rfl ha rfl ?_
  intro l _
  refine evaluate_bind_meaning rfl hb rfl ?_
  intro r _
  dsimp only
  rw [truth_eq]
  rfl

theorem logicalNotFn_meaning (ha : CleanMeaning a) (name : Str) (argv : List Span) :
    (logicalNotFn host name argv).meaning [a] = (do
      match ← asString host a with
      | none => return none
      | some v => yields (if v = [] then ascii "t" else [])) := by
  unfold logicalNotFn
  refine evaluate_bind_meaning rfl ha rfl ?_
  intro v _
  dsimp only
  rw [truth_eq]
  cases v with
  | nil => rfl
  | cons x v => rfl

theorem ifElseFn_meaning (ha : CleanMeaning a) (name : Str) (sa sb : Span) :
    (ifElseFn host name [sa, sb]).meaning [a, b] = readmeIf host a b (yields []) := by
  unfold ifElseFn readmeIf
  rw [if_neg (by simp)]
  refine evaluate_bind_meaning rfl ha rfl ?_
  intro l _
  cases l with
  | nil => rfl
  | cons x l => exact Body.meaning_ask [a, b] rfl

theorem ifElseFn_meaning_else (ha : CleanMeaning a) (name : Str) (sa sb sc : Span) :
    (ifElseFn host name [sa, sb, sc]).meaning [a, b, c] = readmeIf host a b c := by
  unfold ifElseFn readmeIf
  rw [if_neg (by simp)]
  refine evaluate_bind_meaning rfl ha rfl ?_
  intro l _
  cases l with
  | nil => exact Body.meaning_ask [a, b, c] rfl
  | cons x l => exact Body.meaning_ask [a, b, c] rfl

/-- **An operator** means what its description says. -/
theorem BinaryOp.fn_meaning (op : BinaryOp) (ha : CleanMeaning a) (hb : CleanMeaning b)
    (name : Str) (sa sb : Span) :
    (op.fn host name [sa, sb]).meaning [a, b] = op.readme host a b := by
  cases op with
  | seq =>
    unfold fn sequenceFn readme
    rw [Body.meaning_bind, Body.meaning_ask [a, b] (e := a) rfl]
    apply bind_congr
    intro v
    cases v with
    | none => rfl
    | some v => exact Body.meaning_ask [a, b] rfl
  | plus => exact concatFn_meaning ha hb name sa sb
  | eq =>
    unfold fn equalityFn readme
    rw [testFn_meaning ha hb]
    simp only [decide_eq_true_eq]
  | ne =>
    unfold fn inequalityFn readme
    rw [testFn_meaning ha hb]
    simp only [decide_eq_true_eq, ite_not]
  | and =>
    unfold fn logicalAndFn readme
    refine evaluate_bind_meaning rfl ha rfl ?_
    intro l _
    cases l with
    | nil => rfl
    | cons x l => exact Body.meaning_ask [a, b] rfl
  | or =>
    unfold fn logicalOrFn readme
    refine evaluate_bind_meaning rfl ha rfl ?_
    intro l hl
    cases l with
    | nil => exact Body.meaning_ask [a, b] rfl
    | cons x l =>
      have hvalue : stringValue (x :: l) = some ⟨.string, x :: l⟩ := stringValue_eq hl
      dsimp only
      rw [if_neg (by simp [booleanString]), hvalue, if_neg (List.cons_ne_nil x l)]
      rfl

theorem setSpan_span (e : Expr ω) (span : Span) : (e.setSpan span).span = span := by
  cases e
  rfl

theorem evaluateValue_setSpan (e : Expr ω) (span : Span) :
    evaluateValue (e.setSpan span) = evaluateValue e := by
  cases e
  rfl

theorem build_span {s : Syntax} {e : Expr ω} (h : s.build host find = some e) : e.span = s.span := by
  cases s with
  | string text loc =>
    cases h
    rfl
  | paren s loc =>
    unfold Syntax.build at h
    obtain ⟨e', he', rfl⟩ := Option.map_eq_some_iff.1 h
    exact setSpan_span _ _
  | trailing s loc =>
    unfold Syntax.build at h
    obtain ⟨e', he', rfl⟩ := Option.map_eq_some_iff.1 h
    exact setSpan_span _ _
  | binary op left right loc =>
    simp only [Syntax.build, Option.pure_def, Option.bind_eq_bind, Option.bind_eq_some_iff] at h
    obtain ⟨l, hl, r, hr, heq⟩ := h
    cases heq
    rfl
  | not s loc =>
    simp only [Syntax.build, Option.pure_def, Option.bind_eq_bind, Option.bind_eq_some_iff] at h
    obtain ⟨e', he', heq⟩ := h
    cases heq
    rfl
  | ifThen cond yes loc =>
    simp only [Syntax.build, Option.pure_def, Option.bind_eq_bind, Option.bind_eq_some_iff] at h
    obtain ⟨c, hc, y, hy, heq⟩ := h
    cases heq
    rfl
  | ifThenElse cond yes no loc =>
    simp only [Syntax.build, Option.pure_def, Option.bind_eq_bind, Option.bind_eq_some_iff] at h
    obtain ⟨c, hc, y, hy, n, hn, heq⟩ := h
    cases heq
    rfl
  | call name args loc =>
    simp only [Syntax.build, Option.pure_def, Option.bind_eq_bind, Option.bind_eq_some_iff] at h
    obtain ⟨fn, hfn, argv, hargv, heq⟩ := h
    cases heq
    rfl

theorem body_clean {fn : Function ω} (hfn : FollowsContract fn) (name : Str) (spans : List Span)
    (hargv : ∀ m ∈ argv, CleanMeaning m) : CleanMeaning ((fn name spans).meaning argv) :=
  fun s _ hr => (hfn.text name spans s).meaning hargv hr

theorem evaluateValue_meaning (fn : Function ω) (name : Str) (args : List (Expr ω)) (span : Span) :
    (evaluateValue (.mk fn name args span)).meaning =
      (fn name (args.map Expr.span)).meaning
        (args.map fun e => (evaluateValue e).meaning) := by
  show (node (fn name (args.map Expr.span)) (evaluateValues args)).meaning = _
  rw [meaning_node, evaluateValues_eq, List.map_map]
  rfl

/-- **The evaluation of what the parser builds** means what the description says, and its strings
are C strings. -/
theorem evaluateValue_readme (hfind : ∀ name fn, find name = some fn → FollowsContract fn)
    {s : Syntax} {e : Expr ω} (h : s.build host find = some e) :
    (evaluateValue e).meaning = readme host find s ∧ CleanMeaning (readme host find s) := by
  induction s using Syntax.induct generalizing e with
  | string text loc =>
    cases h
    have hvalue : stringValue text.1 = some ⟨.string, text.1⟩ := stringValue_eq text.2
    refine ⟨?_, ?_⟩
    · rw [evaluateValue_meaning]
      unfold literal readme
      rw [hvalue]
      rfl
    · rintro s r hr v hv
      cases hr
      cases hv
      exact fun _ => text.2
  | paren s loc ih =>
    unfold Syntax.build at h
    obtain ⟨e', he', rfl⟩ := Option.map_eq_some_iff.1 h
    rw [evaluateValue_setSpan]
    unfold readme
    exact ih he'
  | trailing s loc ih =>
    unfold Syntax.build at h
    obtain ⟨e', he', rfl⟩ := Option.map_eq_some_iff.1 h
    rw [evaluateValue_setSpan]
    unfold readme
    exact ih he'
  | binary op left right loc ihl ihr =>
    simp only [Syntax.build, Option.pure_def, Option.bind_eq_bind, Option.bind_eq_some_iff] at h
    obtain ⟨l, hl, r, hr, heq⟩ := h
    cases heq
    obtain ⟨hlm, hlc⟩ := ihl hl
    obtain ⟨hrm, hrc⟩ := ihr hr
    unfold buildOp readme
    rw [evaluateValue_meaning, List.map_cons, List.map_cons, List.map_nil, hlm, hrm,
      ← op.fn_meaning hlc hrc (ascii "(operator)") l.span r.span]
    exact ⟨rfl, body_clean op.fn_neat.contract _ _ (by simp [hlc, hrc])⟩
  | not s loc ih =>
    simp only [Syntax.build, Option.pure_def, Option.bind_eq_bind, Option.bind_eq_some_iff] at h
    obtain ⟨e', he', heq⟩ := h
    cases heq
    obtain ⟨hm, hc⟩ := ih he'
    unfold buildOp readme
    rw [evaluateValue_meaning, List.map_cons, List.map_nil, hm,
      ← logicalNotFn_meaning hc (ascii "(operator)") [e'.span]]
    exact ⟨rfl, body_clean (logicalNotFn_neat host).contract _ _ (by simp [hc])⟩
  | ifThen cond yes loc ihc ihy =>
    simp only [Syntax.build, Option.pure_def, Option.bind_eq_bind, Option.bind_eq_some_iff] at h
    obtain ⟨c, hc, y, hy, heq⟩ := h
    cases heq
    obtain ⟨hcm, hcc⟩ := ihc hc
    obtain ⟨hym, hyc⟩ := ihy hy
    unfold buildOp readme
    rw [evaluateValue_meaning, List.map_cons, List.map_cons, List.map_nil, hcm, hym,
      ← ifElseFn_meaning hcc (ascii "(operator)") c.span y.span]
    exact ⟨rfl, body_clean (ifElseFn_neat host).contract _ _ (by simp [hcc, hyc])⟩
  | ifThenElse cond yes no loc ihc ihy ihn =>
    simp only [Syntax.build, Option.pure_def, Option.bind_eq_bind, Option.bind_eq_some_iff] at h
    obtain ⟨c, hc, y, hy, n, hn, heq⟩ := h
    cases heq
    obtain ⟨hcm, hcc⟩ := ihc hc
    obtain ⟨hym, hyc⟩ := ihy hy
    obtain ⟨hnm, hnc⟩ := ihn hn
    unfold buildOp readme
    rw [evaluateValue_meaning, List.map_cons, List.map_cons, List.map_cons, List.map_nil, hcm, hym,
      hnm, ← ifElseFn_meaning_else hcc (ascii "(operator)") c.span y.span n.span]
    exact ⟨rfl, body_clean (ifElseFn_neat host).contract _ _ (by simp [hcc, hyc, hnc])⟩
  | call name args loc ih =>
    simp only [Syntax.build, Option.pure_def, Option.bind_eq_bind, Option.bind_eq_some_iff] at h
    obtain ⟨fn, hfn, argv, hargv, heq⟩ := h
    cases heq
    have hspans : argv.map Expr.span = args.map Syntax.span :=
      map_buildArgs hargv fun s _ e he => build_span he
    have hmeanings : (argv.map fun e => (evaluateValue e).meaning) =
        args.map (readme host find) :=
      map_buildArgs hargv fun s hs e he => (ih s hs he).1
    unfold readme
    rw [evaluateValue_meaning, hspans, hmeanings, hfn, readmeArgs_eq]
    refine ⟨rfl, body_clean (hfind _ _ hfn) _ _ ?_⟩
    intro m hm
    obtain ⟨s, hs, rfl⟩ := List.mem_map.1 hm
    obtain ⟨e, he⟩ := build_of_mem hargv hs
    exact (ih s hs he).2

/-! ## Scripts -/

/-- **The evaluation of a script** with functions that follow the contract means what the language
description says, and returns null if an evaluation inside of it does.  With functions that are
orderly as well, such as the registered ones, nothing is invoked after that, and every argument is
evaluated at most once and in order. -/
theorem evaluate_script (hfind : ∀ name fn, find name = some fn → FollowsContract fn) {s : Syntax}
    {e : Expr ω} (h : s.build host find = some e) :
    (evaluateValue e).meaning = readme host find s ∧ Propagates (evaluateValue e) ∧
    ((∀ name fn, find name = some fn → Orderly fn) →
      Halts (evaluateValue e) ∧ Ordered (evaluateValue e)) ∧
    ∀ p ∈ builtins host, FollowsContract p.2 ∧ Orderly p.2 := by
  have hcontract : e.All FollowsContract := build_all (fun _ hfn => hfn.contract) hfind h
  refine ⟨(evaluateValue_readme hfind h).1, hcontract.propagates, ?_, ?_⟩
  · intro horderly
    have hall : e.All Orderly := build_all (fun _ hfn => hfn.orderly) horderly h
    exact ⟨hall.halts.2, hall.ordered⟩
  · intro p hp
    exact ⟨(builtins_neat host p hp).contract, (builtins_neat host p hp).orderly⟩

/-- A host where no text is a number and nothing has an effect. -/
def quietHost : Host Unit := ⟨fun _ _ _ => none, id, fun _ w => w, fun _ w => w⟩

/-- `concat(a, abort(), stdout(b))`. -/
def abortScript : Syntax :=
  .call ⟨ascii "concat", by decide⟩
    [.string ⟨ascii "a", by decide⟩ ⟨7, 8⟩, .call ⟨ascii "abort", by decide⟩ [] ⟨10, 17⟩,
      .call ⟨ascii "stdout", by decide⟩ [.string ⟨ascii "b", by decide⟩ ⟨26, 27⟩] ⟨19, 28⟩] ⟨0, 29⟩

/-- The third argument is not evaluated. -/
theorem evaluate_abortScript : ∃ e, abortScript.build quietHost (findFunction (builtins quietHost)) =
      some e ∧ (∃ o, evaluateValue e ⟨[], [], .noCause, ()⟩ = some o ∧ o.value = none ∧
        invocations o.log = [[], [0], [1]]) ∧
    (evaluateValue e).meaning =
      readme quietHost (findFunction (builtins quietHost)) abortScript ∧
    Halts (evaluateValue e) ∧ Ordered (evaluateValue e) := by
  have hneat : ∀ name fn, findFunction (builtins quietHost) name = some fn → NeatFunction fn :=
    fun _ _ hfn => findFunction_neat quietHost hfn
  have hcontract : ∀ name fn, findFunction (builtins quietHost) name = some fn →
      FollowsContract fn := fun name fn hfn => (hneat name fn hfn).contract
  refine ⟨_, rfl, ⟨_, rfl, rfl, rfl⟩, ?_⟩
  obtain ⟨hmeaning, -, horderly, -⟩ := evaluate_script hcontract
    (show abortScript.build quietHost (findFunction (builtins quietHost)) = some _ from rfl)
  exact ⟨hmeaning, horderly fun name fn hfn => (hneat name fn hfn).orderly⟩

/-- Evaluates its argument twice. -/
def twiceFn : Function Unit := fun _ _ => do
  match ← Body.ask 0 with
  | none => return none
  | some _ => Body.ask 0

/-- Evaluates both arguments before it looks at the first one. -/
def lateFn : Function Unit := fun _ _ => do
  match ← Body.ask 0 with
  | none =>
    match ← Body.ask 1 with
    | none => return none
    | some _ => return none
  | some _ => Body.ask 1

theorem twiceFn_contract : FollowsContract twiceFn := by
  refine ⟨?_, ?_⟩
  · intro name argv s
    exact ⟨fun _ => rfl, fun _ _ => ⟨fun _ => rfl, fun _ _ => trivial⟩⟩
  · intro name argv s b s' hb
    cases b with
    | none => exact nofun
    | some v => exact fun b s hb => hb

theorem lateFn_contract : FollowsContract lateFn := by
  refine ⟨?_, ?_⟩
  · intro name argv s
    refine ⟨?_, fun _ _ => ⟨fun _ => rfl, fun _ _ => trivial⟩⟩
    intro s b s'
    cases b with
    | none => rfl
    | some v => rfl
  · intro name argv s b s' hb
    cases b with
    | none =>
      intro b s hb
      cases b with
      | none => exact nofun
      | some v => exact nofun
    | some v => exact fun b s hb => hb

/-- The contract alone allows a function to evaluate an argument twice, and to go on after one that
returned null. -/
theorem contract_not_orderly :
    (¬ ∀ (find : Str → Option (Function Unit)) (s : Syntax) (e : Expr Unit),
      (∀ name fn, find name = some fn → FollowsContract fn) → s.build quietHost find = some e →
        Ordered (evaluateValue e)) ∧
    ¬ ∀ (find : Str → Option (Function Unit)) (s : Syntax) (e : Expr Unit),
      (∀ name fn, find name = some fn → FollowsContract fn) → s.build quietHost find = some e →
        Halts (evaluateValue e) := by
  refine ⟨?_, ?_⟩
  · -- `f(a)`, where `f` is `twiceFn`
    intro h
    have hordered := h (fun _ => some twiceFn)
      (.call ⟨ascii "f", by decide⟩ [.string ⟨ascii "a", by decide⟩ ⟨2, 3⟩] ⟨0, 4⟩) _
      (fun _ _ hfn => Option.some.inj hfn ▸ twiceFn_contract) rfl ⟨[], [], .noCause, ()⟩ _ rfl
    revert hordered
    decide
  · -- `f(g(), a)`, where `f` is `lateFn`, and `g` aborts
    intro h
    have hhalted := h
      (fun name => if name = ascii "f" then some lateFn else some (abortFn quietHost))
      (.call ⟨ascii "f", by decide⟩ [.call ⟨ascii "g", by decide⟩ [] ⟨2, 5⟩,
        .string ⟨ascii "a", by decide⟩ ⟨7, 8⟩] ⟨0, 9⟩) _ ?_ rfl ⟨[], [], .noCause, ()⟩ _ rfl
    · obtain ⟨path, hpath⟩ := List.pairwise_iff_getElem.1 hhalted 2 3 (by decide) (by decide)
        (by decide) ⟨[0], rfl⟩
      cases hpath
    · intro name fn hfn
      split at hfn
      · exact Option.some.inj hfn ▸ lateFn_contract
      · exact Option.some.inj hfn ▸ (abortFn_neat quietHost).contract

end Recovery.Edify
