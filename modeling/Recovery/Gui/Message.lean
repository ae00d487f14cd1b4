import Recovery.Gui.Terminal
import Recovery.Lib.Loop

/-!
# Inserting variables into messages (`gui/twmsg.cpp`)

`Message::operator std::string` replaces the placeholders `{name}` of a format string, one round
of a loop for each. The search for the next brace starts in the text that was just inserted.

* `cutPlaceholder` — a string at its first placeholder; `expand` — every placeholder of a format
  replaced once, and the names in it.
* `Opens` — an inserted text has a `{` that a `}` closes, in the text or in what follows it.
* `convertRound_zipper` — a round is `cutPlaceholder` of what is not yet behind the search.
* `lag` — a conversion that is one placeholder behind the format does not catch up.
* `message_expand_iff` — the conversion ends with the expansion of the format, having looked up
  the format's names and no others, exactly when no inserted text opens a placeholder.
* `selfNaming_never_ends` — a variable that holds the placeholder of its own place.

A string is the list of its bytes, each as a character; `convertRound` also keeps the names that
it looked up.
-/

set_option autoImplicit false

namespace Recovery.Gui

open Recovery.Lib

abbrev StringLookup := List Char → List Char

structure Message where
  name : List Char
  variableList : List (List Char)
  resourceLookup : StringLookup
  varLookup : StringLookup

def Message.GetFormatString (m : Message) : List Char := m.resourceLookup m.name

/-- `LocalLookup`: the replacement variables first, then the outer lookup. -/
def LocalLookup (vars : List (List Char)) (next : StringLookup) : StringLookup := fun name =>
  match name with
  | [] => next name
  | c :: _ =>
    if c.isDigit then
      let i := TerminalEngine.atoi name
      if 0 < i ∧ i ≤ toInt vars.length then vars.getD (i - 1).toNat [] else next name
    else next name

/-! ## `std::string` -/

def find (s : List Char) (c : Char) (pos : Nat) : Option Nat :=
  ((s.drop pos).idxOf? c).map (pos + ·)

def substr (s : List Char) (pos count : Nat) : List Char := (s.drop pos).take count

def replace (s : List Char) (pos count : Nat) (text : List Char) : List Char :=
  s.take pos ++ text ++ s.drop (pos + count)

/-! ## The conversion -/

structure Conversion where
  str : List Char
  pos : Nat
  /-- The names looked up so far. -/
  varnames : List (List Char)

def convertRound (lookup : StringLookup) (s : Conversion) :
    Conversion ⊕ (List Char × List (List Char)) :=
  match find s.str '{' s.pos with
  | none => .inr (s.str, s.varnames)
  | some pos =>
    match find s.str '}' pos with
    | none => .inr (s.str, s.varnames)
    | some last =>
      let varname := substr s.str (pos + 1) (last - pos - 1)
      let vartext := lookup varname
      .inl {
        str := replace s.str pos (last - pos + 1) vartext
        pos
        varnames := s.varnames ++ [varname] }

/-- `Message::operator std::string`, and the names that it looked up. -/
def Message.toString (fuel : Nat) (m : Message) : Option (List Char × List (List Char)) :=
  loop (convertRound (LocalLookup m.variableList m.varLookup)) fuel ⟨m.GetFormatString, 0, []⟩

/-! ## Placeholders of a format -/

/-- A string at its first `c`. -/
def cutAt (c : Char) : List Char → Option (List Char × List Char)
  | [] => none
  | x :: s => if x = c then some ([], s) else (cutAt c s).map fun (a, b) => (x :: a, b)

/-- A string at its first placeholder: what is before it, its name, and what is after it. -/
def cutPlaceholder (s : List Char) : Option (List Char × List Char × List Char) := do
  let (before, s) ← cutAt '{' s
  let (name, after) ← cutAt '}' s
  return (before, name, after)

theorem cutAt_first {c : Char} {a : List Char} (ha : c ∉ a) (b : List Char) :
    cutAt c (a ++ c :: b) = some (a, b) := by
  induction a with
  | nil => simp [cutAt]
  | cons x a ih =>
    obtain ⟨hx, ha⟩ := not_or.1 (mt List.mem_cons.2 ha)
    simp [cutAt, Ne.symm hx, ih ha]

theorem cutAt_none {c : Char} {s : List Char} (h : c ∉ s) : cutAt c s = none := by
  induction s with
  | nil => rfl
  | cons x s ih =>
    obtain ⟨hx, hs⟩ := not_or.1 (mt List.mem_cons.2 h)
    simp [cutAt, Ne.symm hx, ih hs]

theorem cutPlaceholder_some {a n : List Char} (ha : '{' ∉ a) (hn : '}' ∉ n) (rest : List Char) :
    cutPlaceholder (a ++ '{' :: (n ++ '}' :: rest)) = some (a, n, rest) := by
  simp [cutPlaceholder, cutAt_first ha, cutAt_first hn]

theorem cutPlaceholder_unclosed {a s : List Char} (ha : '{' ∉ a) (hs : '}' ∉ s) :
    cutPlaceholder (a ++ '{' :: s) = none := by
  simp [cutPlaceholder, cutAt_first ha, cutAt_none hs]

theorem cutPlaceholder_unopened {s : List Char} (h : '{' ∉ s) : cutPlaceholder s = none := by
  simp [cutPlaceholder, cutAt_none h]

/-- A string without a `{`, with one that is not closed, or with a placeholder. -/
theorem cutPlaceholder_cases (s : List Char) :
    '{' ∉ s ∨ (∃ a t, s = a ++ '{' :: t ∧ '{' ∉ a ∧ '}' ∉ t) ∨
      ∃ a n rest, s = a ++ '{' :: (n ++ '}' :: rest) ∧ '{' ∉ a ∧ '}' ∉ n := by
  by_cases hopen : '{' ∈ s
  · obtain ⟨a, t, rfl, ha⟩ := List.eq_append_cons_of_mem hopen
    by_cases hclose : '}' ∈ t
    · obtain ⟨n, rest, rfl, hn⟩ := List.eq_append_cons_of_mem hclose
      exact .inr (.inr ⟨a, n, rest, rfl, ha, hn⟩)
    · exact .inr (.inl ⟨a, t, rfl, ha, hclose⟩)
  · exact .inl hopen

theorem cutPlaceholder_eq {s a n rest : List Char} (h : cutPlaceholder s = some (a, n, rest)) :
    s = a ++ '{' :: (n ++ '}' :: rest) ∧ '{' ∉ a ∧ '}' ∉ n := by
  obtain hs | ⟨a', t, rfl, ha, ht⟩ | ⟨a', n', rest', rfl, ha, hn⟩ := cutPlaceholder_cases s
  · rw [cutPlaceholder_unopened hs] at h
    cases h
  · rw [cutPlaceholder_unclosed ha ht] at h
    cases h
  · rw [cutPlaceholder_some ha hn] at h
    cases h
    exact ⟨rfl, ha, hn⟩

theorem cutPlaceholder_length {s a n rest : List Char}
    (h : cutPlaceholder s = some (a, n, rest)) : rest.length < s.length := by
  obtain ⟨rfl, -, -⟩ := cutPlaceholder_eq h
  simp
  lia

/-- Every placeholder of a format replaced once, and the names of the placeholders. -/
def expand (lookup : StringLookup) (s : List Char) : List Char × List (List Char) :=
  match _h : cutPlaceholder s with
  | none => (s, [])
  | some (before, name, rest) =>
    let (text, names) := expand lookup rest
    (before ++ lookup name ++ text, name :: names)
termination_by s.length
decreasing_by exact cutPlaceholder_length _h

/-- `text`, inserted before `rest`, has a `{` that a `}` closes. -/
def Opens (text rest : List Char) : Prop := ∃ y z, text = y ++ '{' :: z ∧ '}' ∈ z ++ rest

/-- A format has the placeholder `name`, and `after` behind it. -/
inductive Placeholder : List Char → List Char → List Char → Prop where
  | first {s before name after : List Char} :
    cutPlaceholder s = some (before, name, after) → Placeholder s name after
  | later {s before name rest name' after : List Char} :
    cutPlaceholder s = some (before, name, rest) → Placeholder rest name' after →
    Placeholder s name' after

variable {lookup : StringLookup}

theorem expand_none {s : List Char} (h : cutPlaceholder s = none) : expand lookup s = (s, []) := by
  rw [expand]
  split
  · rfl
  · rename_i heq
    rw [h] at heq
    cases heq

theorem expand_some {s before name rest : List Char}
    (h : cutPlaceholder s = some (before, name, rest)) :
    expand lookup s = (before ++ lookup name ++ (expand lookup rest).1,
      name :: (expand lookup rest).2) := by
  rw [expand]
  split
  · rename_i heq
    rw [h] at heq
    cases heq
  · rename_i heq
    rw [h] at heq
    cases heq
    rfl

/-- What is put before a string and has no `{` of its own to be closed moves the first placeholder
and changes nothing else. -/
theorem cutPlaceholder_append {v s : List Char} (h : ¬ Opens v s) :
    cutPlaceholder (v ++ s) = (cutPlaceholder s).map fun (a, n, rest) => (v ++ a, n, rest) := by
  by_cases hv : '{' ∈ v
  · obtain ⟨y, z, rfl, hy⟩ := List.eq_append_cons_of_mem hv
    have hclose : '}' ∉ z ++ s := fun hmem => h ⟨y, z, rfl, hmem⟩
    have hs : cutPlaceholder s = none := by
      cases hcut : cutPlaceholder s with
      | none => rfl
      | some cut =>
        obtain ⟨a, n, rest⟩ := cut
        obtain ⟨rfl, -, -⟩ := cutPlaceholder_eq hcut
        exact (hclose (by simp)).elim
    rw [hs, List.append_assoc, List.cons_append, cutPlaceholder_unclosed hy hclose]
    rfl
  · obtain hs | ⟨a, t, rfl, ha, ht⟩ | ⟨a, n, rest, rfl, ha, hn⟩ := cutPlaceholder_cases s
    · rw [cutPlaceholder_unopened hs, cutPlaceholder_unopened (by simp [hv, hs])]
      rfl
    · rw [cutPlaceholder_unclosed ha ht, ← List.append_assoc,
        cutPlaceholder_unclosed (by simp [hv, ha]) ht]
      rfl
    · rw [cutPlaceholder_some ha hn, ← List.append_assoc,
        cutPlaceholder_some (by simp [hv, ha]) hn]
      rfl

/-! ## The loop -/

theorem find_append (done s : List Char) (c : Char) :
    find (done ++ s) c done.length = (s.idxOf? c).map (done.length + ·) := by
  rw [find, List.drop_left]

theorem idxOf?_first {c : Char} {a : List Char} (ha : c ∉ a) (b : List Char) :
    (a ++ c :: b).idxOf? c = some a.length := by
  induction a with
  | nil => simp [List.idxOf?_cons]
  | cons x a ih =>
    obtain ⟨hx, ha⟩ := not_or.1 (mt List.mem_cons.2 ha)
    simp [List.idxOf?_cons, Ne.symm hx, ih ha]

/-- A placeholder is the text between its braces, and it is replaced with both. -/
theorem replace_placeholder (d n rest text : List Char) :
    let s := d ++ '{' :: (n ++ '}' :: rest)
    substr s (d.length + 1) n.length = n ∧
      replace s d.length (n.length + 2) text = d ++ (text ++ rest) := by
  have hopen : d ++ '{' :: (n ++ '}' :: rest) = (d ++ ['{']) ++ (n ++ '}' :: rest) := by simp
  have hclose : d ++ '{' :: (n ++ '}' :: rest) = (d ++ '{' :: (n ++ ['}'])) ++ rest := by simp
  constructor
  · rw [substr, hopen, List.drop_left' (by simp), List.take_left' rfl]
  · rw [replace, List.take_left' rfl, hclose, List.drop_left' (by simp), List.append_assoc]

/-- **A round takes the first placeholder of what the search has not passed.** -/
theorem convertRound_zipper (done s : List Char) (names : List (List Char)) :
    convertRound lookup ⟨done ++ s, done.length, names⟩ =
      match cutPlaceholder s with
      | none => .inr (done ++ s, names)
      | some (a, n, rest) =>
        .inl ⟨(done ++ a) ++ (lookup n ++ rest), (done ++ a).length, names ++ [n]⟩ := by
  obtain hs | ⟨a, t, rfl, ha, ht⟩ | ⟨a, n, rest, rfl, ha, hn⟩ := cutPlaceholder_cases s
  · rw [cutPlaceholder_unopened hs]
    simp [convertRound, find_append, List.idxOf?_eq_none_iff.2 hs]
  · have hclose : '}' ∉ '{' :: t := by simp [ht]
    have hlast : find (done ++ (a ++ '{' :: t)) '}' (done.length + a.length) = none := by
      rw [← List.append_assoc, ← List.length_append, find_append, List.idxOf?_eq_none_iff.2 hclose]
      rfl
    rw [cutPlaceholder_unclosed ha ht]
    simp [convertRound, find_append, idxOf?_first ha, hlast]
  · have hn' : '}' ∉ '{' :: n := by simp [hn]
    have hfirst : find ((done ++ a) ++ '{' :: (n ++ '}' :: rest)) '{' done.length =
        some (done ++ a).length := by
      rw [List.append_assoc, find_append, idxOf?_first ha, List.length_append]
      rfl
    have hlast : find ((done ++ a) ++ '{' :: (n ++ '}' :: rest)) '}' (done ++ a).length =
        some ((done ++ a).length + (n.length + 1)) := by
      rw [find_append, ← List.cons_append, idxOf?_first hn']
      rfl
    obtain ⟨hname, htext⟩ := replace_placeholder (done ++ a) n rest (lookup n)
    have hcount : (done ++ a).length + (n.length + 1) - (done ++ a).length - 1 = n.length := by
      lia
    have hwhole : (done ++ a).length + (n.length + 1) - (done ++ a).length + 1 = n.length + 2 := by
      lia
    rw [cutPlaceholder_some ha hn, ← List.append_assoc]
    simp only [convertRound, hfirst, hlast, hcount, hwhole, hname, htext]

theorem convertRound_some {s a n rest : List Char} (hs : cutPlaceholder s = some (a, n, rest))
    (done : List Char) (names : List (List Char)) :
    convertRound lookup ⟨done ++ s, done.length, names⟩ =
      .inl ⟨(done ++ a) ++ (lookup n ++ rest), (done ++ a).length, names ++ [n]⟩ := by
  rw [convertRound_zipper, hs]

/-! ## Names -/

/-- The conversion ends with these names, started before `s`. -/
def Looks (lookup : StringLookup) (done s : List Char) (names names' : List (List Char)) : Prop :=
  ∃ fuel r, loop (convertRound lookup) fuel ⟨done ++ s, done.length, names⟩ = some (r, names')

theorem looks_some {done s a n rest : List Char} {names names' : List (List Char)}
    (hs : cutPlaceholder s = some (a, n, rest)) (h : Looks lookup done s names names') :
    Looks lookup (done ++ a) (lookup n ++ rest) (names ++ [n]) names' := by
  obtain ⟨fuel, r, h⟩ := h
  obtain ⟨fuel', h'⟩ := (returns_next (convertRound_some hs done names) (r, names')).1 ⟨fuel, h⟩
  exact ⟨fuel', r, h'⟩

/-- Names are only added. -/
theorem Looks.names_le {done s : List Char} {names names' : List (List Char)}
    (h : Looks lookup done s names names') : names.length ≤ names'.length ∧ names <+: names' := by
  obtain ⟨fuel, r, h⟩ := h
  have hle : names <+: names' := by
    induction fuel generalizing done s names with
    | zero => cases h
    | succ fuel ih =>
      rw [loop, convertRound_zipper] at h
      cases hs : cutPlaceholder s with
      | none =>
        rw [hs] at h
        cases h
        exact List.prefix_refl _
      | some cut =>
        rw [hs] at h
        exact (List.prefix_append names [cut.2.1]).trans (ih h)
  exact ⟨hle.length_le, hle⟩

/-- A placeholder before `t` is taken before anything of `t` is. -/
theorem cutPlaceholder_before (z n t : List Char) :
    ∃ a m w, cutPlaceholder (z ++ '{' :: (n ++ '}' :: t)) = some (a, m, w ++ t) := by
  have hopen : '{' ∈ z ++ ['{'] := by simp
  obtain ⟨a, x, hx, ha⟩ := List.eq_append_cons_of_mem hopen
  have hclose : '}' ∈ x ++ n ++ ['}'] := by simp
  obtain ⟨m, w, hw, hm⟩ := List.eq_append_cons_of_mem hclose
  have hcut : z ++ '{' :: (n ++ '}' :: t) = a ++ '{' :: (m ++ '}' :: (w ++ t)) := calc
    z ++ '{' :: (n ++ '}' :: t) = (z ++ ['{']) ++ (n ++ '}' :: t) := by simp
    _ = a ++ '{' :: ((x ++ n ++ ['}']) ++ t) := by simp [hx]
    _ = a ++ '{' :: (m ++ '}' :: (w ++ t)) := by simp [hw]
  exact ⟨a, m, w, by rw [hcut, cutPlaceholder_some ha hm]⟩

/-- **A conversion that is a name behind the format does not catch up**: where the format has its
next placeholder, the conversion still has one to take, and then it is behind what follows. -/
theorem lag {w s done n : List Char} {names names' : List (List Char)}
    (h : Looks lookup done (w ++ s) (names ++ [n]) names') :
    names' ≠ names ++ (expand lookup s).2 := by
  induction hlen : s.length using Nat.strongRecOn generalizing w s done n names with
  | ind len ih =>
    intro heq
    obtain ⟨hle, hpre⟩ := h.names_le
    cases hs : cutPlaceholder s with
    | none =>
      rw [heq, expand_none hs] at hle
      simp only [List.append_nil, List.length_append, List.length_singleton] at hle
      lia
    | some cut =>
      obtain ⟨a, n', t⟩ := cut
      rw [expand_some hs] at heq
      have hn : n = n' := by
        rw [heq] at hpre
        simpa using hpre
      subst hn
      have hlt : t.length < len := hlen ▸ cutPlaceholder_length hs
      obtain ⟨rfl, -, -⟩ := cutPlaceholder_eq hs
      obtain ⟨a', m, w', hcut⟩ := cutPlaceholder_before (w ++ a) n t
      rw [List.append_assoc] at hcut
      have hnext := looks_some hcut h
      rw [← List.append_assoc] at hnext
      exact ih t.length hlt hnext rfl (by simpa using heq)

theorem Opens.first {v s : List Char} (h : Opens v s) :
    ∃ y z, v = y ++ '{' :: z ∧ '{' ∉ y ∧ '}' ∈ z ++ s := by
  obtain ⟨y, z, rfl, hclose⟩ := h
  have hopen : '{' ∈ y ++ '{' :: z := by simp
  obtain ⟨y', z', heq, hy⟩ := List.eq_append_cons_of_mem hopen
  refine ⟨y', z', heq, hy, ?_⟩
  obtain ⟨x, rfl, hx⟩ | ⟨x, rfl, hx⟩ := List.append_eq_append_iff.1 heq
  · cases x with
    | nil =>
      cases hx
      exact hclose
    | cons c x =>
      cases hx
      exact (hy (by simp)).elim
  · cases x with
    | nil =>
      cases hx
      exact hclose
    | cons c x =>
      cases hx
      simp only [List.append_eq, List.append_assoc, List.cons_append]
      exact List.mem_append_right x (List.mem_cons_of_mem _ hclose)

theorem expand_append {v s : List Char} (h : ¬ Opens v s) :
    expand lookup (v ++ s) = (v ++ (expand lookup s).1, (expand lookup s).2) := by
  have hcut := cutPlaceholder_append h
  cases hs : cutPlaceholder s with
  | none =>
    rw [hs] at hcut
    rw [expand_none hcut, expand_none hs]
  | some cut =>
    obtain ⟨before, name, rest⟩ := cut
    rw [hs] at hcut
    rw [expand_some hcut, expand_some hs]
    simp

/-- A text that opens a placeholder gives a name that the format does not have there. -/
theorem opens_names {v s done : List Char} {names names' : List (List Char)} (hv : Opens v s)
    (h : Looks lookup done (v ++ s) names names') : names' ≠ names ++ (expand lookup s).2 := by
  obtain ⟨y, z, rfl, hy, hclose⟩ := hv.first
  rw [List.append_assoc, List.cons_append] at h
  by_cases hz : '}' ∈ z
  · obtain ⟨m, x, rfl, hm⟩ := List.eq_append_cons_of_mem hz
    have hcut : cutPlaceholder (y ++ '{' :: ((m ++ '}' :: x) ++ s)) = some (y, m, x ++ s) := by
      rw [List.append_assoc, List.cons_append, cutPlaceholder_some hy hm]
    have hnext := looks_some hcut h
    rw [← List.append_assoc] at hnext
    exact lag hnext
  · -- the placeholder reaches into the format
    have hs : '}' ∈ s := (List.mem_append.1 hclose).resolve_left hz
    obtain ⟨x, t, rfl, hx⟩ := List.eq_append_cons_of_mem hs
    have hcut : cutPlaceholder (y ++ '{' :: (z ++ (x ++ '}' :: t))) = some (y, z ++ x, t) := by
      rw [← List.append_assoc z, cutPlaceholder_some hy (by simp [hz, hx])]
    have hnext := looks_some hcut h
    by_cases hopen : '{' ∈ x
    · obtain ⟨b, n, rfl, hb⟩ := List.eq_append_cons_of_mem hopen
      have hn : '}' ∉ n := fun hmem => hx (by simp [hmem])
      intro heq
      have hfmt : cutPlaceholder (b ++ '{' :: n ++ '}' :: t) = some (b, n, t) := by
        rw [List.append_assoc, List.cons_append, cutPlaceholder_some hb hn]
      rw [expand_some hfmt] at heq
      have hpre := hnext.names_le.2
      rw [heq] at hpre
      have hlen : (z ++ (b ++ '{' :: n)).length = n.length := by
        rw [show z ++ (b ++ '{' :: n) = n by simpa using hpre]
      simp only [List.length_append, List.length_cons] at hlen
      lia
    · have hno : ¬ Opens (x ++ ['}']) t := by
        rintro ⟨y', z', hv, -⟩
        have hmem : '{' ∈ x ++ ['}'] := by simp [hv]
        simp [hopen] at hmem
      have hfmt : expand lookup (x ++ '}' :: t) =
          (x ++ ['}'] ++ (expand lookup t).1, (expand lookup t).2) := by
        rw [List.append_cons, expand_append hno]
      rw [hfmt]
      exact lag hnext

/-! ## The conversion and the format -/

theorem expand_of_clean {v s : List Char}
    (hclean : ∀ n after, Placeholder s n after → ¬ Opens (lookup n) after) (hv : ¬ Opens v s)
    (done : List Char) (names : List (List Char)) :
    ∃ fuel, loop (convertRound lookup) fuel ⟨done ++ (v ++ s), done.length, names⟩ =
      some (done ++ (v ++ (expand lookup s).1), names ++ (expand lookup s).2) := by
  induction hlen : s.length using Nat.strongRecOn generalizing s v done names with
  | ind len ih =>
    have hround := @convertRound_zipper lookup done (v ++ s) names
    rw [cutPlaceholder_append hv] at hround
    cases hs : cutPlaceholder s with
    | none =>
      rw [hs] at hround
      rw [expand_none hs, returns_result hround]
      simp
    | some cut =>
      obtain ⟨a, n, rest⟩ := cut
      rw [hs] at hround
      rw [expand_some hs, returns_next hround]
      have hrest := ih rest.length (hlen ▸ cutPlaceholder_length hs)
        (fun n' after hp => hclean n' after (.later hs hp)) (hclean n rest (.first hs))
        (done ++ (v ++ a)) (names ++ [n]) rfl
      simpa using hrest

theorem names_step {v s done a n rest : List Char} {names : List (List Char)} (hv : ¬ Opens v s)
    (hs : cutPlaceholder s = some (a, n, rest))
    (h : Looks lookup done (v ++ s) names (names ++ (expand lookup s).2)) :
    ¬ Opens (lookup n) rest ∧ Looks lookup (done ++ (v ++ a)) (lookup n ++ rest) (names ++ [n])
      (names ++ [n] ++ (expand lookup rest).2) := by
  have hcut : cutPlaceholder (v ++ s) = some (v ++ a, n, rest) := by
    rw [cutPlaceholder_append hv, hs]
    rfl
  have hnext := looks_some hcut h
  rw [expand_some hs, List.append_cons names n (expand lookup rest).2] at hnext
  exact ⟨fun hopens => opens_names hopens hnext rfl, hnext⟩

/-- No inserted text opens a placeholder when the names are those of the format. -/
theorem clean_of_names {s n after : List Char} (hp : Placeholder s n after) {v done : List Char}
    {names : List (List Char)} (hv : ¬ Opens v s)
    (h : Looks lookup done (v ++ s) names (names ++ (expand lookup s).2)) :
    ¬ Opens (lookup n) after := by
  induction hp generalizing v done names with
  | first hs => exact (names_step hv hs h).1
  | later hs _ ih =>
    obtain ⟨hv', h'⟩ := names_step hv hs h
    exact ih hv' h'

/-- **The conversion is the expansion of the format exactly when no inserted text opens a
placeholder.** -/
theorem message_expand_iff (m : Message) :
    let lookup := LocalLookup m.variableList m.varLookup
    (∃ fuel, m.toString fuel = some (expand lookup m.GetFormatString)) ↔
      ∀ name after, Placeholder m.GetFormatString name after → ¬ Opens (lookup name) after := by
  intro lookup
  have hv : ¬ Opens [] m.GetFormatString := by
    rintro ⟨y, z, h, -⟩
    simp at h
  constructor
  · rintro ⟨fuel, h⟩ name after hp
    have hlooks : Looks lookup [] ([] ++ m.GetFormatString) []
        ([] ++ (expand lookup m.GetFormatString).2) :=
      ⟨fuel, (expand lookup m.GetFormatString).1, h⟩
    exact clean_of_names hp hv hlooks
  · intro hclean
    exact expand_of_clean hclean hv [] []

/-- `Installing zip file '{1}'`, of the file `/sdcard/{1}.zip`. -/
def selfNaming : Message where
  name := "installing_zip".toList
  variableList := ["/sdcard/{1}.zip".toList]
  resourceLookup := fun _ => "Installing zip file '{1}'".toList
  varLookup := fun _ => []

/-- Every round puts the same path in the place of the placeholder in it. -/
theorem selfNaming_never_ends : ¬ ∃ fuel r, selfNaming.toString fuel = some r := by
  let lookup := LocalLookup selfNaming.variableList selfNaming.varLookup
  let path := "/sdcard/{1}.zip".toList
  let again (s : Conversion) : Prop :=
    ∃ before after names, s = ⟨before ++ (path ++ after), before.length, names⟩
  have htext : lookup ['1'] = path := by decide +kernel
  have hformat : cutPlaceholder selfNaming.GetFormatString =
      some ("Installing zip file '".toList, ['1'], "'".toList) := by decide +kernel
  have hpath : ∀ after, cutPlaceholder (path ++ after) =
      some ("/sdcard/".toList, ['1'], ".zip".toList ++ after) := by
    intro after
    have hname : '{' ∉ "/sdcard/".toList ∧ '}' ∉ ['1'] := by decide +kernel
    exact cutPlaceholder_some hname.1 hname.2 (".zip".toList ++ after)
  have hfirst := @convertRound_some lookup _ _ _ _ hformat [] []
  have hstuck : ∀ s, again s → ∃ s', convertRound lookup s = .inl s' ∧ again s' := by
    rintro s ⟨before, after, names, rfl⟩
    have hround := @convertRound_some lookup _ _ _ _ (hpath after) before names
    rw [htext] at hround
    exact ⟨_, hround, _, _, _, rfl⟩
  rw [htext] at hfirst
  intro h
  exact not_ends_of_stuck hstuck ⟨_, _, _, rfl⟩ ((ends_next hfirst).1 h)

end Recovery.Gui
