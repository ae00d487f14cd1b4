import Mathlib.Data.List.Basic
import Mathlib.Order.Basic

/-!
# Bodies that ask for their arguments

A function whose body decides which of its arguments are evaluated, as a tree: the body is done, or
it asks for an argument and goes on with the answer.  An answer may be null.

* `Plan`, `Body` — the trees, and the state monad over them.
* `Plan.run` — a body with evaluators for its arguments, and a log of what was evaluated when;
  `node` — the evaluator of a call.
* `Strict`, `Prompt`, `InOrder` — a null answer makes the result null; nothing is asked for after
  it; the arguments are asked for from left to right, each at most once.
* `node_propagates`, `node_halts`, `node_ordered` — what these say about the log of a whole tree of
  calls: a step per call, for the induction over the tree.
* `AsksBelow` — every argument that is asked for is there, whatever the answers are.
* `Plan.Comes`, `Overruns`, `run_eq_none_iff` — the arguments that one run asks for; it is undefined
  exactly where it comes to one that is not there, or to one whose evaluation is undefined.
* `Body.meaning` — a body as a state transformer, without the log.
-/

set_option autoImplicit false

namespace Recovery.Lib

/-- A body over the states `σ`, with answers in `β`. -/
inductive Plan (σ β α : Type) where
  | done (a : α) (s : σ)
  | ask (i : Nat) (s : σ) (k : Option β → σ → Plan σ β α)

namespace Plan

variable {σ β α γ : Type}

def bind : Plan σ β α → (α → σ → Plan σ β γ) → Plan σ β γ
  | done a s, f => f a s
  | ask i s k, f => ask i s fun b s => (k b s).bind f

end Plan

def Body (σ β α : Type) : Type := σ → Plan σ β α

namespace Body

variable {σ β α γ : Type}

instance : Monad (Body σ β) where
  pure a s := .done a s
  bind m f s := (m s).bind f

/-- The answer of argument `i`. -/
def ask (i : Nat) : Body σ β (Option β) := fun s => .ask i s .done

def get : Body σ β σ := fun s => .done s s

def modify (f : σ → σ) : Body σ β Unit := fun s => .done () (f s)

end Body

theorem Plan.bind_done {σ β α : Type} (p : Plan σ β α) : p.bind .done = p := by
  induction p with
  | done a s => rfl
  | ask i s k ih =>
    unfold bind
    simp only [ih]

theorem Plan.bind_assoc {σ β α γ δ : Type} (p : Plan σ β α) (f : α → σ → Plan σ β γ)
    (g : γ → σ → Plan σ β δ) : (p.bind f).bind g = p.bind fun a s => (f a s).bind g := by
  induction p with
  | done a s => rfl
  | ask i s k ih => simp only [bind, ih]

instance {σ β : Type} : LawfulMonad (Body σ β) :=
  LawfulMonad.mk' _ (fun _ => funext fun _ => Plan.bind_done _) (fun _ _ => rfl)
    fun _ _ _ => funext fun _ => Plan.bind_assoc _ _ _

/-! ## Evaluation with a log -/

/-- A call begins or ends; a path leads to it from the root. -/
inductive Event where
  | invoked (path : List Nat)
  | returned (path : List Nat) (null : Bool)
deriving DecidableEq

namespace Event

def under (i : Nat) : Event → Event
  | invoked path => invoked (i :: path)
  | returned path null => returned (i :: path) null

/-- A call that returns null. -/
def Failed (e : Event) : Prop := ∃ path, e = returned path true

theorem failed_under {i : Nat} {e : Event} : (e.under i).Failed ↔ e.Failed := by
  cases e with
  | invoked path => simp [under, Failed]
  | returned path null => simp [under, Failed]

end Event

/-- The calls of a log, in the order in which they begin. -/
def invocations (log : List Event) : List (List Nat) :=
  log.filterMap fun
    | .invoked path => some path
    | .returned _ _ => none

theorem invocations_append (l₁ l₂ : List Event) :
    invocations (l₁ ++ l₂) = invocations l₁ ++ invocations l₂ :=
  List.filterMap_append

theorem invocations_under (i : Nat) (l : List Event) :
    invocations (l.map (Event.under i)) = (invocations l).map (i :: ·) := by
  unfold invocations
  rw [List.filterMap_map, List.map_filterMap]
  apply List.filterMap_congr
  intro e _
  cases e with
  | invoked path => rfl
  | returned path null => rfl

structure Evaluated (σ α : Type) where
  value : α
  state : σ
  log : List Event

/-- The evaluation of an argument; `none` where it is undefined. -/
abbrev Evaluator (σ β : Type) : Type := σ → Option (Evaluated σ (Option β))

section

variable {σ β α γ : Type}

/-- A body with its arguments; to ask for an argument that is not there is undefined. -/
def Plan.run (argv : List (Evaluator σ β)) : Plan σ β α → Option (Evaluated σ α)
  | done a s => some ⟨a, s, []⟩
  | ask i s k =>
    argv[i]?.bind fun e => (e s).bind fun o => ((k o.value o.state).run argv).map fun r =>
      { r with log := o.log.map (Event.under i) ++ r.log }

/-- The call of a function with this body. -/
def node (body : Body σ β (Option β)) (argv : List (Evaluator σ β)) : Evaluator σ β := fun s =>
  ((body s).run argv).map fun o =>
    { o with log := .invoked [] :: (o.log ++ [.returned [] o.value.isNone]) }

/-- One argument, then the rest of the body. -/
theorem Plan.run_ask {argv : List (Evaluator σ β)} {i : Nat} {s : σ}
    {k : Option β → σ → Plan σ β α} {r : Evaluated σ α} (h : (ask i s k).run argv = some r) :
    ∃ e ∈ argv, ∃ o, e s = some o ∧ ∃ r', (k o.value o.state).run argv = some r' ∧
      r.value = r'.value ∧ r.state = r'.state ∧ r.log = o.log.map (Event.under i) ++ r'.log := by
  unfold run at h
  obtain ⟨e, he, h⟩ := Option.bind_eq_some_iff.1 h
  obtain ⟨o, ho, h⟩ := Option.bind_eq_some_iff.1 h
  obtain ⟨r', hr', rfl⟩ := Option.map_eq_some_iff.1 h
  exact ⟨e, List.mem_of_getElem? he, o, ho, r', hr', rfl, rfl, rfl⟩

theorem node_run {body : Body σ β (Option β)} {argv : List (Evaluator σ β)} {s : σ}
    {o : Evaluated σ (Option β)} (h : node body argv s = some o) :
    ∃ r, (body s).run argv = some r ∧ o.value = r.value ∧ o.state = r.state ∧
      o.log = .invoked [] :: (r.log ++ [.returned [] r.value.isNone]) := by
  obtain ⟨r, hr, rfl⟩ := Option.map_eq_some_iff.1 h
  exact ⟨r, hr, rfl, rfl, rfl⟩

/-! ## A null answer -/

/-- Every end is null. -/
def Plan.AllNull : Plan σ β (Option α) → Prop
  | done a _ => a = none
  | ask _ _ k => ∀ b s, (k b s).AllNull

/-- After a null answer, every end is null. -/
def Plan.Strict : Plan σ β (Option α) → Prop
  | done _ _ => True
  | ask _ _ k => (∀ s, (k none s).AllNull) ∧ ∀ b s, (k (some b) s).Strict

/-- A null answer ends the body at once. -/
def Plan.Prompt : Plan σ β (Option α) → Prop
  | done _ _ => True
  | ask _ _ k => (∀ s, ∃ s', k none s = done none s') ∧ ∀ b s, (k (some b) s).Prompt

theorem Plan.Prompt.strict {p : Plan σ β (Option α)} (h : p.Prompt) : p.Strict := by
  induction p with
  | done a s => trivial
  | ask i s k ih =>
    refine ⟨?_, fun b s => ih (some b) s (h.2 b s)⟩
    intro s
    obtain ⟨s', hs'⟩ := h.1 s
    rw [hs']
    rfl

/-- A call inside that returns null makes this one return null. -/
def Propagates (e : Evaluator σ β) : Prop :=
  ∀ s o, e s = some o → (∃ ev ∈ o.log, ev.Failed) → o.value = none

theorem Plan.AllNull.run {argv : List (Evaluator σ β)} {p : Plan σ β (Option α)} (h : p.AllNull)
    {r : Evaluated σ (Option α)} (hr : p.run argv = some r) : r.value = none := by
  induction p generalizing r with
  | done a s =>
    cases hr
    exact h
  | ask i s k ih =>
    obtain ⟨e, -, o, -, r', hr', hvalue, -, -⟩ := run_ask hr
    rw [hvalue]
    exact ih _ _ (h _ _) hr'

theorem Plan.Strict.run {argv : List (Evaluator σ β)} (hargv : ∀ e ∈ argv, Propagates e)
    {p : Plan σ β (Option α)} (h : p.Strict) {r : Evaluated σ (Option α)}
    (hr : p.run argv = some r) (hfail : ∃ ev ∈ r.log, ev.Failed) : r.value = none := by
  induction p generalizing r with
  | done a s =>
    cases hr
    obtain ⟨ev, hev, -⟩ := hfail
    cases hev
  | ask i s k ih =>
    obtain ⟨e, he, o, ho, r', hr', hvalue, -, hlog⟩ := run_ask hr
    rw [hvalue]
    cases hanswer : o.value with
    | none =>
      rw [hanswer] at hr'
      exact (h.1 _).run hr'
    | some b =>
      rw [hanswer] at hr'
      apply ih (some b) o.state (h.2 b o.state) hr'
      obtain ⟨ev, hev, hfailed⟩ := hfail
      rw [hlog, List.mem_append] at hev
      rcases hev with hev | hev
      · -- the argument would be null
        obtain ⟨ev', hev', rfl⟩ := List.mem_map.1 hev
        have hnull := hargv e he s o ho ⟨ev', hev', Event.failed_under.1 hfailed⟩
        rw [hanswer] at hnull
        cases hnull
      · exact ⟨ev, hev, hfailed⟩

theorem node_propagates {body : Body σ β (Option β)} {argv : List (Evaluator σ β)}
    (hargv : ∀ e ∈ argv, Propagates e) (hbody : ∀ s, (body s).Strict) :
    Propagates (node body argv) := by
  intro s o ho hfail
  obtain ⟨r, hr, hvalue, -, hlog⟩ := node_run ho
  rw [hvalue]
  obtain ⟨ev, hev, hfailed⟩ := hfail
  simp only [hlog, List.mem_cons, List.mem_append, List.not_mem_nil, or_false] at hev
  obtain ⟨path, rfl⟩ := hfailed
  rcases hev with hev | hev | hev
  · cases hev
  · exact (hbody s).run hargv hr ⟨_, hev, path, rfl⟩
  · simp only [Event.returned.injEq] at hev
    exact Option.isNone_iff_eq_none.1 hev.2.symm

/-! ## Nothing after a null answer -/

/-- After a call that returns null, only such returns follow. -/
def Halted (log : List Event) : Prop := log.Pairwise fun e e' => e.Failed → e'.Failed

/-- Nothing is invoked after a call that returns null, and this call returns null too. -/
def Halts (e : Evaluator σ β) : Prop := ∀ s o, e s = some o → Halted o.log

theorem halted_under {i : Nat} {log : List Event} (h : Halted log) :
    Halted (log.map (Event.under i)) := by
  unfold Halted
  rw [List.pairwise_map]
  apply h.imp
  intro e e' hee' hfailed
  exact Event.failed_under.2 (hee' (Event.failed_under.1 hfailed))

theorem Plan.Prompt.run {argv : List (Evaluator σ β)}
    (hargv : ∀ e ∈ argv, Propagates e ∧ Halts e) {p : Plan σ β (Option α)} (h : p.Prompt)
    {r : Evaluated σ (Option α)} (hr : p.run argv = some r) : Halted r.log := by
  induction p generalizing r with
  | done a s =>
    cases hr
    exact List.Pairwise.nil
  | ask i s k ih =>
    obtain ⟨e, he, o, ho, r', hr', hvalue, -, hlog⟩ := run_ask hr
    have hfirst := halted_under (i := i) ((hargv e he).2 s o ho)
    rw [hlog]
    cases hanswer : o.value with
    | none =>
      obtain ⟨s', hs'⟩ := h.1 o.state
      rw [hanswer, hs'] at hr'
      cases hr'
      rw [List.append_nil]
      exact hfirst
    | some b =>
      rw [hanswer] at hr'
      apply List.pairwise_append.2
      refine ⟨hfirst, ih (some b) o.state (h.2 b o.state) hr', ?_⟩
      -- the argument is not null, so none of its calls is
      intro ev hev _ _ hfailed
      obtain ⟨ev', hev', rfl⟩ := List.mem_map.1 hev
      have hnull := (hargv e he).1 s o ho ⟨ev', hev', Event.failed_under.1 hfailed⟩
      rw [hanswer] at hnull
      cases hnull

theorem node_halts {body : Body σ β (Option β)} {argv : List (Evaluator σ β)}
    (hargv : ∀ e ∈ argv, Propagates e ∧ Halts e) (hbody : ∀ s, (body s).Prompt) :
    Halts (node body argv) := by
  intro s o ho
  obtain ⟨r, hr, hvalue, -, hlog⟩ := node_run ho
  have hstrict := (hbody s).strict.run (fun e he => (hargv e he).1) hr
  rw [hlog]
  apply List.Pairwise.cons
  · intro ev _ hfailed
    obtain ⟨path, hpath⟩ := hfailed
    cases hpath
  · apply List.pairwise_append.2
    refine ⟨(hbody s).run hargv hr, List.pairwise_singleton _ _, ?_⟩
    intro ev hev ev' hev' hfailed
    rw [List.mem_singleton.1 hev', hstrict ⟨ev, hev, hfailed⟩]
    exact ⟨[], rfl⟩

/-! ## Arguments in order -/

/-- The arguments from `n` on and before `m`, from left to right, each at most once. -/
def Plan.InOrder (n m : Nat) : Plan σ β α → Prop
  | done _ _ => True
  | ask i _ k => n ≤ i ∧ i < m ∧ ∀ b s, (k b s).InOrder (i + 1) m

/-- The calls begin in the order of their paths, without repetition. -/
def Ordered (e : Evaluator σ β) : Prop :=
  ∀ s o, e s = some o → (invocations o.log).Pairwise (· < ·)

theorem Plan.InOrder.run {argv : List (Evaluator σ β)} (hargv : ∀ e ∈ argv, Ordered e) {n m : Nat}
    {p : Plan σ β α} (h : p.InOrder n m) {r : Evaluated σ α} (hr : p.run argv = some r) :
    (invocations r.log).Pairwise (· < ·) ∧
      ∀ path ∈ invocations r.log, ∃ i rest, path = i :: rest ∧ n ≤ i := by
  induction p generalizing n r with
  | done a s =>
    cases hr
    exact ⟨List.Pairwise.nil, nofun⟩
  | ask i s k ih =>
    obtain ⟨e, he, o, ho, r', hr', -, -, hlog⟩ := run_ask hr
    obtain ⟨hn, -, hrest⟩ := h
    obtain ⟨hsorted, hpaths⟩ := ih _ _ (hrest _ _) hr'
    rw [hlog, invocations_append, invocations_under]
    refine ⟨?_, ?_⟩
    · apply List.pairwise_append.2
      refine ⟨?_, hsorted, ?_⟩
      · rw [List.pairwise_map]
        apply (hargv e he s o ho).imp
        intro path path' hlt
        exact List.cons_lt_cons_iff.2 (Or.inr ⟨rfl, hlt⟩)
      · intro path hpath path' hpath'
        obtain ⟨rest, -, rfl⟩ := List.mem_map.1 hpath
        obtain ⟨j, rest', rfl, hj⟩ := hpaths path' hpath'
        exact List.cons_lt_cons_iff.2 (Or.inl (by omega))
    · intro path hpath
      rcases List.mem_append.1 hpath with hpath | hpath
      · obtain ⟨rest, -, rfl⟩ := List.mem_map.1 hpath
        exact ⟨i, rest, rfl, hn⟩
      · obtain ⟨j, rest, rfl, hj⟩ := hpaths path hpath
        exact ⟨j, rest, rfl, by omega⟩

theorem node_ordered {body : Body σ β (Option β)} {argv : List (Evaluator σ β)}
    (hargv : ∀ e ∈ argv, Ordered e) (hbody : ∀ s, ∃ m, (body s).InOrder 0 m) :
    Ordered (node body argv) := by
  intro s o ho
  obtain ⟨r, hr, -, -, hlog⟩ := node_run ho
  obtain ⟨m, hm⟩ := hbody s
  obtain ⟨hsorted, hpaths⟩ := hm.run hargv hr
  have hcalls : invocations o.log = [] :: invocations r.log := by
    rw [hlog]
    simp [invocations]
  rw [hcalls]
  apply List.Pairwise.cons
  · intro path hpath
    obtain ⟨i, rest, rfl, -⟩ := hpaths path hpath
    exact List.nil_lt_cons i rest
  · exact hsorted

/-! ## What the answers make of the result -/

/-- With answers in `A`, every end is in `Q`. -/
def Plan.Yields (A : β → Prop) (Q : α → Prop) : Plan σ β α → Prop
  | done a _ => Q a
  | ask _ _ k => ∀ b s, (∀ x ∈ b, A x) → (k b s).Yields A Q

/-! ## Arguments that are there -/

/-- Only arguments before `n` are asked for, and every end is in `Q`. -/
def Plan.AsksBelow (n : Nat) (Q : α → Prop) : Plan σ β α → Prop
  | done a _ => Q a
  | ask i _ k => i < n ∧ ∀ b s, (k b s).AsksBelow n Q

/-- The run comes to ask for argument `i`, in state `t`. -/
inductive Plan.Comes (argv : List (Evaluator σ β)) : Plan σ β α → Nat → σ → Prop where
  | here {i : Nat} {s : σ} {k : Option β → σ → Plan σ β α} : Comes argv (ask i s k) i s
  | later {i j : Nat} {s t : σ} {k : Option β → σ → Plan σ β α} {e : Evaluator σ β}
      {o : Evaluated σ (Option β)} (he : argv[i]? = some e) (ho : e s = some o)
      (h : Comes argv (k o.value o.state) j t) : Comes argv (ask i s k) j t

/-- The run comes to ask for an argument that is not there. -/
def Plan.Overruns (argv : List (Evaluator σ β)) (p : Plan σ β α) : Prop :=
  ∃ i t, p.Comes argv i t ∧ argv.length ≤ i

theorem Plan.not_overruns_done {argv : List (Evaluator σ β)} {a : α} {s : σ} :
    ¬ (done a s).Overruns argv := by
  rintro ⟨i, t, hcomes, -⟩
  cases hcomes

theorem Plan.overruns_ask {argv : List (Evaluator σ β)} {i : Nat} {s : σ}
    {k : Option β → σ → Plan σ β α} : (ask i s k).Overruns argv ↔
      argv.length ≤ i ∨
        ∃ e o, argv[i]? = some e ∧ e s = some o ∧ (k o.value o.state).Overruns argv := by
  constructor
  · rintro ⟨j, t, hcomes, hj⟩
    cases hcomes with
    | here => exact Or.inl hj
    | later he ho h => exact Or.inr ⟨_, _, he, ho, j, t, h, hj⟩
  · rintro (hi | ⟨e, o, he, ho, j, t, h, hj⟩)
    · exact ⟨i, s, .here, hi⟩
    · exact ⟨j, t, .later he ho h, hj⟩

theorem Plan.AsksBelow.not_overruns {argv : List (Evaluator σ β)} {Q : α → Prop} {p : Plan σ β α}
    (h : p.AsksBelow argv.length Q) : ¬ p.Overruns argv := by
  induction p with
  | done a s => exact not_overruns_done
  | ask i s k ih =>
    rw [overruns_ask]
    rintro (hi | ⟨e, o, -, -, hrest⟩)
    · exact absurd h.1 (by lia)
    · exact ih _ _ (h.2 _ _) hrest

/-- **Where a run is undefined**: it comes to an argument that is not there, or to one whose
evaluation is undefined. -/
theorem Plan.run_eq_none_iff {argv : List (Evaluator σ β)} {p : Plan σ β α} :
    p.run argv = none ↔
      p.Overruns argv ∨ ∃ i t e, p.Comes argv i t ∧ argv[i]? = some e ∧ e t = none := by
  induction p with
  | done a s =>
    refine ⟨nofun, ?_⟩
    rintro (h | ⟨i, t, e, hcomes, -⟩)
    · exact absurd h not_overruns_done
    · cases hcomes
  | ask i s k ih =>
    cases he : argv[i]? with
    | none =>
      have hi : argv.length ≤ i := List.getElem?_eq_none_iff.1 he
      simp only [run, he, Option.bind_none, true_iff]
      exact Or.inl (overruns_ask.2 (Or.inl hi))
    | some e =>
      have hi : ¬ argv.length ≤ i := fun h => by simp [List.getElem?_eq_none_iff.2 h] at he
      cases ho : e s with
      | none =>
        simp only [run, he, ho, Option.bind_some, Option.bind_none, true_iff]
        exact Or.inr ⟨i, s, e, .here, he, ho⟩
      | some o =>
        -- the first argument has a value: it is up to the rest
        simp only [run, he, ho, Option.bind_some, Option.map_eq_none_iff, ih]
        rw [overruns_ask, or_iff_right hi]
        refine or_congr ?_ ?_
        · refine ⟨fun h => ⟨e, o, he, ho, h⟩, ?_⟩
          rintro ⟨e', o', he', ho', h⟩
          cases he.symm.trans he'
          cases ho.symm.trans ho'
          exact h
        · refine ⟨fun ⟨j, t, e', h, he', hnone⟩ => ⟨j, t, e', .later he ho h, he', hnone⟩, ?_⟩
          rintro ⟨j, t, e', hcomes, he', hnone⟩
          cases hcomes with
          | here =>
            cases he.symm.trans he'
            cases ho.symm.trans hnone
          | later he'' ho'' h =>
            cases he.symm.trans he''
            cases ho.symm.trans ho''
            exact ⟨j, t, e', h, he', hnone⟩

theorem node_eq_none_iff {body : Body σ β (Option β)} {argv : List (Evaluator σ β)} {s : σ} :
    node body argv s = none ↔ (body s).run argv = none :=
  Option.map_eq_none_iff

/-! ## Sequences -/

theorem Plan.AsksBelow.bind {n : Nat} {Q : α → Prop} {R : γ → Prop} {p : Plan σ β α}
    {f : α → σ → Plan σ β γ} (hp : p.AsksBelow n Q) (hf : ∀ a s, Q a → (f a s).AsksBelow n R) :
    (p.bind f).AsksBelow n R := by
  induction p with
  | done a s => exact hf a s hp
  | ask i s k ih => exact ⟨hp.1, fun b s => ih b s (hp.2 b s)⟩

theorem Plan.InOrder.mono {n n' m m' : Nat} (hn : n' ≤ n) (hm : m ≤ m') {p : Plan σ β α}
    (h : p.InOrder n m) : p.InOrder n' m' := by
  induction p generalizing n n' with
  | done a s => trivial
  | ask i s k ih =>
    obtain ⟨hi, hlt, hrest⟩ := h
    exact ⟨by lia, by lia, fun b s => ih b s (Nat.le_refl _) (hrest b s)⟩

theorem Plan.InOrder.bind {n m l : Nat} {p : Plan σ β α} {f : α → σ → Plan σ β γ} (hnm : n ≤ m)
    (hml : m ≤ l) (hp : p.InOrder n m) (hf : ∀ a s, (f a s).InOrder m l) :
    (p.bind f).InOrder n l := by
  induction p generalizing n with
  | done a s => exact (hf a s).mono hnm (Nat.le_refl _)
  | ask i s k ih =>
    obtain ⟨hi, hlt, hrest⟩ := hp
    exact ⟨hi, by omega, fun b s => ih b s hlt (hrest b s)⟩

theorem Plan.Prompt.bind {p : Plan σ β (Option α)} {f : Option α → σ → Plan σ β (Option γ)}
    (hp : p.Prompt) (hnone : ∀ s, ∃ s', f none s = done none s')
    (hsome : ∀ a s, (f (some a) s).Prompt) : (p.bind f).Prompt := by
  induction p with
  | done a s =>
    cases a with
    | none =>
      obtain ⟨s', hs'⟩ := hnone s
      show (f none s).Prompt
      rw [hs']
      trivial
    | some a => exact hsome a s
  | ask i s k ih =>
    refine ⟨?_, fun b s => ih (some b) s (hp.2 b s)⟩
    intro s
    obtain ⟨s', hs'⟩ := hp.1 s
    obtain ⟨s'', hs''⟩ := hnone s'
    refine ⟨s'', ?_⟩
    dsimp only
    rw [hs']
    exact hs''

theorem Plan.Yields.bind {A : β → Prop} {Q : α → Prop} {R : γ → Prop} {p : Plan σ β α}
    {f : α → σ → Plan σ β γ} (hp : p.Yields A Q) (hf : ∀ a s, Q a → (f a s).Yields A R) :
    (p.bind f).Yields A R := by
  induction p with
  | done a s => exact hf a s hp
  | ask i s k ih => exact fun b s hb => ih b s (hp b s hb)

/-! ## Evaluation without a log -/

def Plan.meaning (argv : List (StateT σ Option (Option β))) : Plan σ β α → Option (α × σ)
  | done a s => some (a, s)
  | ask i s k => argv[i]?.bind fun e => (e s).bind fun r => (k r.1 r.2).meaning argv

/-- A body as a state transformer. -/
def Body.meaning (argv : List (StateT σ Option (Option β))) (m : Body σ β α) :
    StateT σ Option α :=
  fun s => (m s).meaning argv

def Evaluator.meaning (e : Evaluator σ β) : StateT σ Option (Option β) :=
  fun s => (e s).map fun o => (o.value, o.state)

theorem Plan.meaning_bind (argv : List (StateT σ Option (Option β))) (p : Plan σ β α)
    (f : α → σ → Plan σ β γ) :
    (p.bind f).meaning argv = (p.meaning argv).bind fun r => (f r.1 r.2).meaning argv := by
  induction p with
  | done a s => rfl
  | ask i s k ih =>
    simp only [bind, meaning, ih, Option.bind_assoc]

theorem Plan.meaning_run (argv : List (Evaluator σ β)) (p : Plan σ β α) :
    ((p.run argv).map fun o => (o.value, o.state)) = p.meaning (argv.map Evaluator.meaning) := by
  induction p with
  | done a s => rfl
  | ask i s k ih =>
    unfold run meaning
    rw [List.getElem?_map]
    cases argv[i]? with
    | none => rfl
    | some e =>
      simp only [Option.bind_some, Option.map_some, Evaluator.meaning]
      cases e s with
      | none => rfl
      | some o =>
        simp only [Option.bind_some, Option.map_some, Option.map_map, ← ih]
        rfl

/-- **A call means what its body means**, given the meanings of its arguments. -/
theorem meaning_node (body : Body σ β (Option β)) (argv : List (Evaluator σ β)) :
    (node body argv).meaning = body.meaning (argv.map Evaluator.meaning) := by
  funext s
  unfold Body.meaning
  rw [← Plan.meaning_run]
  unfold Evaluator.meaning node
  rw [Option.map_map]
  rfl

theorem Plan.Yields.meaning {A : β → Prop} {Q : α → Prop}
    {argv : List (StateT σ Option (Option β))}
    (hargv : ∀ e ∈ argv, ∀ s r, e s = some r → ∀ x ∈ r.1, A x) {p : Plan σ β α}
    (h : p.Yields A Q) {r : α × σ} (hr : p.meaning argv = some r) : Q r.1 := by
  induction p generalizing r with
  | done a s =>
    cases hr
    exact h
  | ask i s k ih =>
    unfold Plan.meaning at hr
    obtain ⟨e, he, hr⟩ := Option.bind_eq_some_iff.1 hr
    obtain ⟨r', hr', hr⟩ := Option.bind_eq_some_iff.1 hr
    exact ih _ _ (h _ _ (hargv e (List.mem_of_getElem? he) s r' hr')) hr

namespace Body

variable (argv : List (StateT σ Option (Option β)))

@[simp] theorem meaning_pure (a : α) : meaning argv (pure a) = pure a := rfl

@[simp] theorem meaning_bind (m : Body σ β α) (f : α → Body σ β γ) :
    meaning argv (m >>= f) = meaning argv m >>= fun a => meaning argv (f a) := by
  funext s
  exact Plan.meaning_bind argv (m s) f

@[simp] theorem meaning_modify (f : σ → σ) :
    meaning argv (modify f) = MonadStateOf.modifyGet fun s => ((), f s) := rfl

@[simp] theorem meaning_get : meaning argv get = MonadStateOf.get := rfl

theorem meaning_ask {i : Nat} {e : StateT σ Option (Option β)} (h : argv[i]? = some e) :
    meaning argv (ask i) = e := by
  funext s
  have hdone : (e s).bind (fun r => some (r.1, r.2)) = e s := by
    cases e s <;> rfl
  unfold meaning ask Plan.meaning
  rw [h]
  exact hdone

end Body

end

end Recovery.Lib
