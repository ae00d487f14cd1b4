import Recovery.Gui.Message

/-!
# Text with resources and variables (`gui/gui.cpp`)

* `resourceRound`, `variableRound`, `guiParseText` — the two loops of `gui_parse_text`.
* `cutResource`, `expandResources` — the placeholders `{@name}` of a text, each replaced once.
* `cutVariable`, `expandVariables` — the same for `%name%`.
* `ResourcesSettled`, `VariablesSettled` — what is inserted makes no placeholder with what is around
  it, and starts none.
* `guiParseText_expand` — the loops end with the expansions.
* `resources_are_expanded` — variables in resources; where the loops go wrong.

A string that is missing is added to the resources when it is looked up.
-/

set_option autoImplicit false

namespace Recovery.Gui

open Recovery.Lib

/-! ## Tables -/

/-- `mStrings`. -/
abbrev Resources := List (List Char × List Char)

/-- `DataManager::GetValue`, if it returns 0. -/
abbrev Variables := List Char → Option (List Char)

/-- `FindString` with a default. -/
def findStringOr (resources : Resources) (name default : List Char) : List Char × Resources :=
  match resources.lookup name with
  | some value => (value, resources)
  | none => (default, (name, default) :: resources)

def findString (resources : Resources) (name : List Char) : List Char × Resources :=
  findStringOr resources name ('[' :: name ++ [']'])

/-- The resource that a placeholder is for. -/
def resourceOf (resources : Resources) (var : List Char) : List Char × Resources :=
  match find var '=' 0 with
  | none => findString resources var
  | some default_loc =>
    findStringOr resources (substr var 0 default_loc)
      (substr var (default_loc + 1) (var.length - default_loc - 1))

/-- What is inserted for `%var%`. -/
def variableOf (vars : Variables) (resources : Resources) (var : List Char) :
    List Char × Resources :=
  if var = [] then (['%'], resources)
  else if var.head? = some '@' then findString resources (substr var 1 (var.length - 1))
  else ((vars var).getD [], resources)

/-! ## The loops -/

/-- A string at its first `{@`. -/
def cutOpen : List Char → Option (List Char × List Char)
  | '{' :: '@' :: s => some ([], s)
  | c :: s => (cutOpen s).map fun (a, b) => (c :: a, b)
  | [] => none

/-- `find("{@", 0)`. -/
def findOpen (s : List Char) : Option Nat := (cutOpen s).map (·.1.length)

structure ParseText where
  str : List Char
  resources : Resources

def resourceRound (s : ParseText) : ParseText ⊕ ParseText :=
  match findOpen s.str with
  | none => .inr s
  | some next =>
    match find s.str '}' (next + 1) with
    | none => .inr s
    | some last =>
      let var := substr s.str (next + 2) (last - next - 2)
      let (value, resources) := resourceOf s.resources var
      .inl ⟨replace s.str next (last - next + 1) value, resources⟩

/-- The second loop, with its `pos`. -/
def variableRound (vars : Variables) (s : ParseText × Nat) : (ParseText × Nat) ⊕ ParseText :=
  match find s.1.str '%' s.2 with
  | none => .inr s.1
  | some next =>
    match find s.1.str '%' (next + 1) with
    | none => .inr s.1
    | some last =>
      let var := substr s.1.str (next + 1) (last - next - 1)
      let (value, resources) := variableOf vars s.1.resources var
      .inl (⟨replace s.1.str next (last - next + 1) value, resources⟩, next + 1)

/-- `gui_parse_text`. -/
def guiParseText (fuel : Nat) (vars : Variables) (s : ParseText) : Option ParseText :=
  (loop resourceRound fuel s).bind fun s => loop (variableRound vars) fuel (s, 0)

/-! ## Placeholders -/

/-- A string at its first `{@name}`. -/
def cutResource (s : List Char) : Option (List Char × List Char × List Char) := do
  let (before, s) ← cutOpen s
  let (name, after) ← cutAt '}' s
  return (before, name, after)

/-- A string at its first `%name%`. -/
def cutVariable (s : List Char) : Option (List Char × List Char × List Char) := do
  let (before, s) ← cutAt '%' s
  let (name, after) ← cutAt '%' s
  return (before, name, after)

/-- A string has no `c`, or one at a first place. -/
theorem cutAt_cases (c : Char) (s : List Char) :
    (c ∉ s ∧ cutAt c s = none) ∨ ∃ a b, s = a ++ c :: b ∧ c ∉ a ∧ cutAt c s = some (a, b) := by
  by_cases hc : c ∈ s
  · obtain ⟨a, b, rfl, ha⟩ := List.eq_append_cons_of_mem hc
    exact .inr ⟨a, b, rfl, ha, cutAt_first ha b⟩
  · exact .inl ⟨hc, cutAt_none hc⟩

theorem cutOpen_eq {s a b : List Char} (h : cutOpen s = some (a, b)) :
    s = a ++ '{' :: '@' :: b := by
  fun_induction cutOpen s generalizing a with
  | case1 s =>
    cases h
    rfl
  | case2 c s _ ih =>
    cases hs : cutOpen s with
    | none =>
      rw [hs] at h
      cases h
    | some cut =>
      rw [hs] at h
      cases h
      rw [ih hs]
      rfl
  | case3 => cases h

theorem cutResource_eq {s before name after : List Char}
    (h : cutResource s = some (before, name, after)) :
    s = before ++ '{' :: '@' :: (name ++ '}' :: after) ∧ '}' ∉ name ∧
      cutOpen s = some (before, name ++ '}' :: after) := by
  unfold cutResource at h
  cases hopen : cutOpen s with
  | none =>
    rw [hopen] at h
    cases h
  | some cut =>
    obtain ⟨a, b⟩ := cut
    rw [hopen] at h
    rcases cutAt_cases '}' b with ⟨-, hnone⟩ | ⟨n, t, rfl, hn, hsome⟩
    · rw [Option.bind_eq_bind, Option.bind_some] at h
      dsimp only at h
      rw [hnone] at h
      cases h
    · rw [Option.bind_eq_bind, Option.bind_some] at h
      dsimp only at h
      rw [hsome] at h
      cases h
      exact ⟨cutOpen_eq hopen, hn, rfl⟩

theorem cutVariable_eq {s before name after : List Char}
    (h : cutVariable s = some (before, name, after)) :
    s = before ++ '%' :: (name ++ '%' :: after) ∧ '%' ∉ before ∧ '%' ∉ name := by
  unfold cutVariable at h
  rcases cutAt_cases '%' s with ⟨-, hnone⟩ | ⟨a, b, rfl, ha, hsome⟩
  · rw [hnone] at h
    cases h
  · rw [hsome, Option.bind_eq_bind, Option.bind_some] at h
    dsimp only at h
    rcases cutAt_cases '%' b with ⟨-, hnone⟩ | ⟨n, t, rfl, hn, hsome'⟩
    · rw [hnone] at h
      cases h
    · rw [hsome'] at h
      cases h
      exact ⟨rfl, ha, hn⟩

theorem cutVariable_some {a n : List Char} (ha : '%' ∉ a) (hn : '%' ∉ n) (rest : List Char) :
    cutVariable (a ++ '%' :: (n ++ '%' :: rest)) = some (a, n, rest) := by
  simp [cutVariable, cutAt_first ha, cutAt_first hn]

theorem cutResource_length {s before name after : List Char}
    (h : cutResource s = some (before, name, after)) : after.length < s.length := by
  obtain ⟨rfl, -, -⟩ := cutResource_eq h
  simp
  lia

theorem cutVariable_length {s before name after : List Char}
    (h : cutVariable s = some (before, name, after)) : after.length < s.length := by
  obtain ⟨rfl, -, -⟩ := cutVariable_eq h
  simp
  lia

/-- Every `{@name}` of a text, replaced once. -/
def expandResources (resources : Resources) (s : List Char) : ParseText :=
  match _h : cutResource s with
  | none => ⟨s, resources⟩
  | some (before, name, rest) =>
    let (value, resources) := resourceOf resources name
    let text := expandResources resources rest
    { text with str := before ++ value ++ text.str }
termination_by s.length
decreasing_by exact cutResource_length _h

/-- Every `%name%` of a text, replaced once. -/
def expandVariables (vars : Variables) (resources : Resources) (s : List Char) : ParseText :=
  match _h : cutVariable s with
  | none => ⟨s, resources⟩
  | some (before, name, rest) =>
    let (value, resources) := variableOf vars resources name
    let text := expandVariables vars resources rest
    { text with str := before ++ value ++ text.str }
termination_by s.length
decreasing_by exact cutVariable_length _h

/-- No `{@` that begins in `text` is closed, in it or in what follows it. -/
def Settled (text rest : List Char) : Prop :=
  ∀ before after, text ++ rest = before ++ '{' :: '@' :: after → before.length < text.length →
    '}' ∉ after

/-- The resources that are inserted into a text, behind `done`, make no placeholder with it. -/
def ResourcesSettled (resources : Resources) (done s : List Char) : Prop :=
  match _h : cutResource s with
  | none => True
  | some (before, name, rest) =>
    Settled (done ++ before ++ (resourceOf resources name).1) rest ∧
      ResourcesSettled (resourceOf resources name).2
        (done ++ before ++ (resourceOf resources name).1) rest
termination_by s.length
decreasing_by exact cutResource_length _h

/-- A value that is inserted before `rest`: if it is empty, `rest` does not begin with a `%` that
another one closes, and if it is not, it has no such `%` behind its first character. -/
def Passes : List Char → List Char → Prop
  | [], rest => ∀ t, rest = '%' :: t → '%' ∉ t
  | _ :: value, rest => ∀ y z, value = y ++ '%' :: z → '%' ∉ z ++ rest

/-- The values that are inserted into a text. -/
def VariablesSettled (vars : Variables) (resources : Resources) (s : List Char) : Prop :=
  match _h : cutVariable s with
  | none => True
  | some (_, name, rest) =>
    Passes (variableOf vars resources name).1 rest ∧
      VariablesSettled vars (variableOf vars resources name).2 rest
termination_by s.length
decreasing_by exact cutVariable_length _h

section Unfolding

variable {s before name rest : List Char} (resources : Resources) (vars : Variables)

theorem expandResources_none (h : cutResource s = none) :
    expandResources resources s = ⟨s, resources⟩ := by
  rw [expandResources]
  split
  · rfl
  · rename_i heq
    cases h.symm.trans heq

theorem expandResources_some (h : cutResource s = some (before, name, rest)) :
    expandResources resources s =
      { expandResources (resourceOf resources name).2 rest with
        str := before ++ (resourceOf resources name).1 ++
          (expandResources (resourceOf resources name).2 rest).str } := by
  rw [expandResources]
  split
  · rename_i heq
    cases h.symm.trans heq
  · rename_i heq
    cases h.symm.trans heq
    rfl

theorem expandVariables_none (h : cutVariable s = none) :
    expandVariables vars resources s = ⟨s, resources⟩ := by
  rw [expandVariables]
  split
  · rfl
  · rename_i heq
    cases h.symm.trans heq

theorem expandVariables_some (h : cutVariable s = some (before, name, rest)) :
    expandVariables vars resources s =
      { expandVariables vars (variableOf vars resources name).2 rest with
        str := before ++ (variableOf vars resources name).1 ++
          (expandVariables vars (variableOf vars resources name).2 rest).str } := by
  rw [expandVariables]
  split
  · rename_i heq
    cases h.symm.trans heq
  · rename_i heq
    cases h.symm.trans heq
    rfl

theorem resourcesSettled_none {done : List Char} (h : cutResource s = none) :
    ResourcesSettled resources done s := by
  rw [ResourcesSettled]
  split
  · trivial
  · rename_i heq
    cases h.symm.trans heq

theorem variablesSettled_none (h : cutVariable s = none) : VariablesSettled vars resources s := by
  rw [VariablesSettled]
  split
  · trivial
  · rename_i heq
    cases h.symm.trans heq

theorem resourcesSettled_some {done : List Char}
    (h : cutResource s = some (before, name, rest)) :
    ResourcesSettled resources done s ↔
      Settled (done ++ before ++ (resourceOf resources name).1) rest ∧
        ResourcesSettled (resourceOf resources name).2
          (done ++ before ++ (resourceOf resources name).1) rest := by
  rw [ResourcesSettled]
  split
  · rename_i heq
    cases h.symm.trans heq
  · rename_i heq
    cases h.symm.trans heq
    rfl

theorem variablesSettled_some (h : cutVariable s = some (before, name, rest)) :
    VariablesSettled vars resources s ↔ Passes (variableOf vars resources name).1 rest ∧
      VariablesSettled vars (variableOf vars resources name).2 rest := by
  rw [VariablesSettled]
  split
  · rename_i heq
    cases h.symm.trans heq
  · rename_i heq
    cases h.symm.trans heq
    rfl

end Unfolding

/-! ## Rounds -/

/-- A placeholder is replaced with its delimiters. -/
theorem replace_middle (d m rest text : List Char) :
    replace (d ++ (m ++ rest)) d.length m.length text = d ++ (text ++ rest) := by
  rw [replace, List.take_left' rfl, ← List.append_assoc, List.drop_left' List.length_append,
    List.append_assoc]

theorem substr_middle (d n rest : List Char) : substr (d ++ (n ++ rest)) d.length n.length = n := by
  rw [substr, List.drop_left' rfl, List.take_left' rfl]

/-- A round of the first loop takes the first placeholder. -/
theorem resourceRound_eq (s : List Char) (resources : Resources) :
    resourceRound ⟨s, resources⟩ =
      match cutResource s with
      | none => .inr ⟨s, resources⟩
      | some (before, name, rest) =>
        .inl ⟨before ++ ((resourceOf resources name).1 ++ rest),
          (resourceOf resources name).2⟩ := by
  cases hopen : cutOpen s with
  | none => simp [resourceRound, findOpen, cutResource, hopen]
  | some cut =>
    obtain ⟨a, b⟩ := cut
    obtain rfl := cutOpen_eq hopen
    have hfind : find (a ++ '{' :: '@' :: b) '}' (a.length + 1) =
        (('@' :: b).idxOf? '}').map (a.length + 1 + ·) := by
      have hfrom := find_append (a ++ ['{']) ('@' :: b) '}'
      rwa [List.append_assoc, List.length_append] at hfrom
    rcases cutAt_cases '}' b with ⟨hb, hnone⟩ | ⟨n, rest, rfl, hn, hsome⟩
    · have hunclosed : '}' ∉ '@' :: b := by simp [hb]
      rw [List.idxOf?_eq_none_iff.2 hunclosed] at hfind
      simp [resourceRound, findOpen, cutResource, hopen, hnone, hfind]
    · have hclosed : '}' ∉ '@' :: n := by simp [hn]
      have hlast : find (a ++ '{' :: '@' :: (n ++ '}' :: rest)) '}' (a.length + 1) =
          some (a.length + 1 + (n.length + 1)) := by
        rw [hfind, ← List.cons_append, idxOf?_first hclosed]
        rfl
      have hname : substr (a ++ '{' :: '@' :: (n ++ '}' :: rest)) (a.length + 2) n.length = n := by
        have hmiddle := substr_middle (a ++ ['{', '@']) n ('}' :: rest)
        rwa [List.append_assoc, List.length_append] at hmiddle
      have htext (text : List Char) : replace (a ++ '{' :: '@' :: (n ++ '}' :: rest)) a.length
          (n.length + 3) text = a ++ (text ++ rest) := by
        have hmiddle := replace_middle a ('{' :: '@' :: (n ++ ['}'])) rest text
        simpa using hmiddle
      have hcount : a.length + 1 + (n.length + 1) - a.length - 2 = n.length := by omega
      have hwhole : a.length + 1 + (n.length + 1) - a.length + 1 = n.length + 3 := by omega
      have hcut : cutResource (a ++ '{' :: '@' :: (n ++ '}' :: rest)) = some (a, n, rest) := by
        simp [cutResource, hopen, hsome]
      rw [hcut]
      simp only [resourceRound, findOpen, hopen, Option.map_some, hlast, hcount, hwhole, hname,
        htext]

/-- A round of the second loop, at `s`. -/
theorem variableRound_eq (vars : Variables) (resources : Resources) (done s : List Char) :
    variableRound vars (⟨done ++ s, resources⟩, done.length) =
      match cutVariable s with
      | none => .inr ⟨done ++ s, resources⟩
      | some (before, name, rest) =>
        .inl (⟨(done ++ before) ++ ((variableOf vars resources name).1 ++ rest),
          (variableOf vars resources name).2⟩, (done ++ before).length + 1) := by
  rcases cutAt_cases '%' s with ⟨hs, hnone⟩ | ⟨a, b, rfl, ha, hopen⟩
  · simp [variableRound, find_append, List.idxOf?_eq_none_iff.2 hs, cutVariable, hnone]
  · have hnext : find (done ++ (a ++ '%' :: b)) '%' done.length = some (done ++ a).length := by
      rw [find_append, idxOf?_first ha, List.length_append]
      rfl
    have hfind : find (done ++ (a ++ '%' :: b)) '%' ((done ++ a).length + 1) =
        (b.idxOf? '%').map ((done ++ a).length + 1 + ·) := by
      have hfrom := find_append (done ++ a ++ ['%']) b '%'
      rwa [List.length_append, List.append_assoc, List.append_assoc] at hfrom
    rcases cutAt_cases '%' b with ⟨hb, hnone⟩ | ⟨n, rest, rfl, hn, hsome⟩
    · rw [List.idxOf?_eq_none_iff.2 hb] at hfind
      simp only [variableRound, hnext, hfind]
      simp [cutVariable, hopen, hnone]
    · have hlast : find (done ++ (a ++ '%' :: (n ++ '%' :: rest))) '%' ((done ++ a).length + 1) =
          some ((done ++ a).length + 1 + n.length) := by
        rw [hfind, idxOf?_first hn]
        rfl
      have hname : substr (done ++ (a ++ '%' :: (n ++ '%' :: rest))) ((done ++ a).length + 1)
          n.length = n := by
        have hmiddle := substr_middle (done ++ a ++ ['%']) n ('%' :: rest)
        rwa [List.length_append, List.append_assoc, List.append_assoc] at hmiddle
      have htext (text : List Char) : replace (done ++ (a ++ '%' :: (n ++ '%' :: rest)))
          (done ++ a).length (n.length + 2) text = (done ++ a) ++ (text ++ rest) := by
        have hmiddle := replace_middle (done ++ a) ('%' :: (n ++ ['%'])) rest text
        simpa using hmiddle
      have hcount : (done ++ a).length + 1 + n.length - (done ++ a).length - 1 = n.length := by
        lia
      have hwhole : (done ++ a).length + 1 + n.length - (done ++ a).length + 1 = n.length + 2 := by
        lia
      rw [cutVariable_some ha hn]
      simp only [variableRound, hnext, hlast, hcount, hwhole, hname, htext]

/-! ## Resources -/

theorem cutOpen_cons {c : Char} {s : List Char} (h : ∀ t, c :: s ≠ '{' :: '@' :: t) :
    cutOpen (c :: s) = (cutOpen s).map fun (a, b) => (c :: a, b) := by
  rw [cutOpen]
  exact fun t hc hs => h t (by rw [hc, hs])

/-- What is settled does not change the first placeholder. -/
theorem cutResource_append {done s : List Char} (h : Settled done s) :
    cutResource (done ++ s) =
      (cutResource s).map fun (before, name, rest) => (done ++ before, name, rest) := by
  induction done with
  | nil => simp
  | cons c done ih =>
    have hdone : Settled done s := by
      intro before after heq hlt
      exact h (c :: before) after (by rw [List.cons_append, heq]; rfl) (by simpa using hlt)
    by_cases hopens : ∃ t, c :: (done ++ s) = '{' :: '@' :: t
    · obtain ⟨t, ht⟩ := hopens
      have hclose : '}' ∉ t := h [] t ht (by simp)
      have hwhole : cutResource (c :: (done ++ s)) = none := by
        rw [ht]
        simp [cutResource, cutOpen, cutAt_none hclose]
      have hrest : cutResource s = none := by
        cases hs : cutResource s with
        | none => rfl
        | some cut =>
          obtain ⟨before, name, rest⟩ := cut
          obtain ⟨hs, -, -⟩ := cutResource_eq hs
          have hmem : '}' ∈ done ++ s := by simp [hs]
          rw [(List.cons.inj ht).2] at hmem
          exact absurd hmem (by simp [hclose])
      rw [List.cons_append, hwhole, hrest]
      rfl
    · have hcons : cutOpen (c :: (done ++ s)) = (cutOpen (done ++ s)).map fun (a, b) => (c :: a, b) :=
        cutOpen_cons fun t ht => hopens ⟨t, ht⟩
      have hstep : cutResource (c :: (done ++ s)) =
          (cutResource (done ++ s)).map fun (before, name, rest) => (c :: before, name, rest) := by
        unfold cutResource
        rw [hcons]
        cases cutOpen (done ++ s) with
        | none => rfl
        | some cut =>
          obtain ⟨a, b⟩ := cut
          simp only [Option.map_some, Option.bind_eq_bind, Option.bind_some]
          cases cutAt '}' b <;> simp
      rw [List.cons_append, hstep, ih hdone, Option.map_map]
      rfl

/-- The first loop ends with the expansion. -/
theorem resourceLoop (resources : Resources) (done s : List Char) (hdone : Settled done s)
    (h : ResourcesSettled resources done s) :
    ∃ fuel, loop resourceRound fuel ⟨done ++ s, resources⟩ =
      some { expandResources resources s with str := done ++ (expandResources resources s).str } := by
  induction hlength : s.length using Nat.strongRecOn generalizing resources done s with
  | ind n ih =>
    have hround := resourceRound_eq (done ++ s) resources
    rw [cutResource_append hdone] at hround
    cases hs : cutResource s with
    | none =>
      rw [hs] at hround
      rw [expandResources_none resources hs]
      exact (returns_result hround _).2 rfl
    | some cut =>
      obtain ⟨before, name, rest⟩ := cut
      rw [hs] at hround
      obtain ⟨hsettled, hrest⟩ := (resourcesSettled_some resources hs).1 h
      have hlt := cutResource_length hs
      obtain ⟨fuel, hloop⟩ := ih rest.length (by lia) _ _ rest hsettled hrest rfl
      apply (returns_next hround _).2
      refine ⟨fuel, ?_⟩
      rw [expandResources_some resources hs]
      simpa only [List.append_assoc] using hloop

/-! ## Variables -/

/-- What a value that passes leaves of the search: the rest of the text, or some of it. -/
structure InStep (passed t done rest : List Char) : Prop where
  text : passed ++ t = done ++ rest
  cut : cutVariable t = none ∧ cutVariable rest = none ∨
    ∃ before' before name after, cutVariable t = some (before', name, after) ∧
      cutVariable rest = some (before, name, after) ∧ passed ++ before' = done ++ before

theorem cutVariable_none {s : List Char} (h : '%' ∉ s) : cutVariable s = none := by
  simp [cutVariable, cutAt_none h]

theorem cutVariable_last {a s : List Char} (ha : '%' ∉ a) (hs : '%' ∉ s) :
    cutVariable (a ++ '%' :: s) = none := by
  simp [cutVariable, cutAt_first ha, cutAt_none hs]

/-- Something without a `%` that is closed does not change the first placeholder. -/
theorem cutVariable_append {value rest : List Char}
    (h : ∀ y z, value = y ++ '%' :: z → '%' ∉ z ++ rest) :
    cutVariable (value ++ rest) =
      (cutVariable rest).map fun (before, name, after) => (value ++ before, name, after) := by
  by_cases hvalue : '%' ∈ value
  · obtain ⟨y, z, rfl, hy⟩ := List.eq_append_cons_of_mem hvalue
    have hlast := h y z rfl
    have hrest : '%' ∉ rest := fun hmem => hlast (List.mem_append_right _ hmem)
    rw [List.append_assoc, List.cons_append, cutVariable_last hy hlast, cutVariable_none hrest]
    rfl
  · rcases cutAt_cases '%' rest with ⟨hrest, -⟩ | ⟨a, b, rfl, ha, -⟩
    · rw [cutVariable_none (by simp [hvalue, hrest]), cutVariable_none hrest]
      rfl
    · have hfirst : '%' ∉ value ++ a := by simp [hvalue, ha]
      rw [← List.append_assoc]
      rcases cutAt_cases '%' b with ⟨hb, -⟩ | ⟨n, after, rfl, hn, -⟩
      · rw [cutVariable_last hfirst hb, cutVariable_last ha hb]
        rfl
      · rw [cutVariable_some hfirst hn, cutVariable_some ha hn]
        rfl

/-- A search behind the first character of what was inserted. -/
theorem Passes.inStep {value rest t : List Char} {c : Char} (h : Passes value rest)
    (ht : value ++ rest = c :: t) (q : List Char) :
    InStep (q ++ [c]) t (q ++ value) rest := by
  have hmap {v u : List Char} (hcut : cutVariable (v ++ u) =
      (cutVariable u).map fun (before, name, after) => (v ++ before, name, after)) :
      (cutVariable (v ++ u) = none ∧ cutVariable u = none) ∨ ∃ before name after,
        cutVariable (v ++ u) = some (v ++ before, name, after) ∧
          cutVariable u = some (before, name, after) := by
    cases hu : cutVariable u with
    | none => exact .inl ⟨by rw [hcut, hu]; rfl, rfl⟩
    | some cut => exact .inr ⟨cut.1, cut.2.1, cut.2.2, by rw [hcut, hu]; rfl, rfl⟩
  cases value with
  | nil =>
    obtain rfl : rest = c :: t := ht
    refine ⟨by simp, ?_⟩
    by_cases hc : c = '%'
    · subst hc
      have hlast := h t rfl
      exact .inl ⟨cutVariable_none hlast, @cutVariable_last [] t (by simp) hlast⟩
    · have hsingle : ∀ y z, [c] = y ++ '%' :: z → '%' ∉ z ++ t := by
        intro y z hyz
        have hmem : '%' ∈ [c] := by simp [hyz]
        exact absurd (List.mem_singleton.1 hmem).symm hc
      have hcut := cutVariable_append hsingle
      rcases hmap hcut with ⟨hnone, hnone'⟩ | ⟨before, name, after, hsome, hsome'⟩
      · exact .inl ⟨hnone', hnone⟩
      · exact .inr ⟨before, c :: before, name, after, hsome', hsome, by simp⟩
  | cons d value =>
    obtain ⟨rfl, rfl⟩ := List.cons.inj ht
    refine ⟨by simp, ?_⟩
    rcases hmap (cutVariable_append h) with ⟨hnone, hnone'⟩ | ⟨before, name, after, hsome, hsome'⟩
    · exact .inl ⟨hnone, hnone'⟩
    · exact .inr ⟨value ++ before, before, name, after, hsome, hsome', by simp⟩

/-- Behind the end of the text, nothing is found. -/
theorem variableRound_end (vars : Variables) (resources : Resources) (s : List Char) :
    variableRound vars (⟨s, resources⟩, s.length + 1) = .inr ⟨s, resources⟩ := by
  have hnone : find s '%' (s.length + 1) = none := by
    rw [find, List.drop_of_length_le (Nat.le_succ _)]
    rfl
  simp [variableRound, hnone]

/-- The second loop ends with the expansion. -/
theorem variableLoop (vars : Variables) (resources : Resources) (passed t done rest : List Char)
    (hin : InStep passed t done rest) (h : VariablesSettled vars resources rest) :
    ∃ fuel, loop (variableRound vars) fuel (⟨passed ++ t, resources⟩, passed.length) =
      some { expandVariables vars resources rest with
        str := done ++ (expandVariables vars resources rest).str } := by
  induction hlength : rest.length using Nat.strongRecOn
    generalizing resources passed t done rest with
  | ind n ih =>
    have hround := variableRound_eq vars resources passed t
    rcases hin.cut with ⟨hnone, hnone'⟩ | ⟨before', before, name, after, hsome, hsome', hbefore⟩
    · rw [hnone] at hround
      rw [expandVariables_none resources vars hnone', ← hin.text]
      exact (returns_result hround _).2 rfl
    · rw [hsome] at hround
      dsimp only at hround
      rw [hbefore] at hround
      obtain ⟨hpasses, hafter⟩ := (variablesSettled_some resources vars hsome').1 h
      have hlt := cutVariable_length hsome'
      apply (returns_next hround _).2
      rw [expandVariables_some resources vars hsome']
      generalize variableOf vars resources name = found at hpasses hafter ⊢
      cases hinserted : found.1 ++ after with
      | nil =>
        obtain ⟨hvalue, rfl⟩ := List.append_eq_nil_iff.1 hinserted
        rw [List.append_nil, hvalue, expandVariables_none _ _ (cutVariable_none (by simp))]
        refine (returns_result (variableRound_end vars found.2 (done ++ before)) _).2 ?_
        simp
      | cons c t' =>
        have hstep := hpasses.inStep hinserted (done ++ before)
        obtain ⟨fuel, hloop⟩ := ih after.length (by omega) found.2 _ _ _ after hstep hafter rfl
        refine ⟨fuel, ?_⟩
        simpa only [List.append_assoc, List.length_append, List.singleton_append,
          List.length_singleton, Nat.add_assoc] using hloop

/-- **A text that is parsed**: the resources of the text, and then the variables of what came out,
are each replaced once, and what is inserted is left as it is. -/
theorem guiParseText_expand (vars : Variables) (resources : Resources) (text : List Char)
    (hresources : ResourcesSettled resources [] text)
    (hvariables : VariablesSettled vars (expandResources resources text).resources
      (expandResources resources text).str) :
    ∃ bound, ∀ fuel, bound ≤ fuel → guiParseText fuel vars ⟨text, resources⟩ =
      some (expandVariables vars (expandResources resources text).resources
        (expandResources resources text).str) := by
  have hsettled : Settled [] text := fun _ _ _ hlt => absurd hlt (Nat.not_lt_zero _)
  have hin : InStep [] (expandResources resources text).str []
      (expandResources resources text).str := by
    refine ⟨rfl, ?_⟩
    cases hcut : cutVariable (expandResources resources text).str with
    | none => exact .inl ⟨rfl, rfl⟩
    | some cut => exact .inr ⟨cut.1, cut.1, cut.2.1, cut.2.2, rfl, rfl, rfl⟩
  obtain ⟨fuel, hfirst⟩ := resourceLoop resources [] text hsettled hresources
  obtain ⟨fuel', hsecond⟩ := variableLoop vars _ [] _ [] _ hin hvariables
  refine ⟨max fuel fuel', fun more hle => ?_⟩
  have hresult := loop_le hfirst ((Nat.le_max_left _ _).trans hle)
  rw [List.nil_append] at hresult
  rw [guiParseText, hresult]
  exact loop_le hsecond ((Nat.le_max_right _ _).trans hle)

def bob : Variables := fun name => if name = "user".toList then some "Bob".toList else none

theorem guiParseText_expand_bob :
    ∃ bound, ∀ fuel, bound ≤ fuel →
      guiParseText fuel bob ⟨"{@hello=Hi} %user%".toList, []⟩ =
        some ⟨"Hi Bob".toList, [("hello".toList, "Hi".toList)]⟩ := by
  have hopen : cutResource "{@hello=Hi} %user%".toList =
      some ([], "hello=Hi".toList, " %user%".toList) := by decide
  have hclosed : cutResource " %user%".toList = none := by decide
  have hfound : resourceOf [] "hello=Hi".toList =
      ("Hi".toList, [("hello".toList, "Hi".toList)]) := by decide
  have hexpand : expandResources [] "{@hello=Hi} %user%".toList =
      ⟨"Hi %user%".toList, [("hello".toList, "Hi".toList)]⟩ := by
    rw [expandResources_some [] hopen, hfound, expandResources_none _ hclosed]
    rfl
  have hvariable : cutVariable "Hi %user%".toList = some ("Hi ".toList, "user".toList, []) := by
    decide
  have hbob (resources : Resources) : variableOf bob resources "user".toList =
      ("Bob".toList, resources) := rfl
  have hresources : ResourcesSettled [] [] "{@hello=Hi} %user%".toList := by
    rw [resourcesSettled_some [] hopen, hfound]
    refine ⟨fun before after heq _ => ?_, resourcesSettled_none _ hclosed⟩
    have hmem : '{' ∉ "Hi %user%".toList := by decide
    have htext : "Hi %user%".toList = before ++ '{' :: '@' :: after := heq
    rw [htext] at hmem
    simp at hmem
  have hvariables : VariablesSettled bob [("hello".toList, "Hi".toList)] "Hi %user%".toList := by
    rw [variablesSettled_some _ bob hvariable, hbob]
    refine ⟨fun y z heq => ?_, variablesSettled_none _ bob rfl⟩
    have hmem : '%' ∉ "ob".toList := by decide
    have htext : "ob".toList = y ++ '%' :: z := heq
    rw [htext] at hmem
    simp at hmem
  have hresult := guiParseText_expand bob [] "{@hello=Hi} %user%".toList hresources (by
    rw [hexpand]
    exact hvariables)
  rw [hexpand, expandVariables_some _ bob hvariable, hbob,
    expandVariables_none _ bob (cutVariable_none (by simp))] at hresult
  exact hresult

/-- A resource that holds its own placeholder. -/
def endless : ParseText := ⟨"{@loop}".toList, [("loop".toList, "{@loop}".toList)]⟩

/-- **Variables in resources** are replaced too, and a missing string keeps its first default; a
resource may be replaced for ever, and an empty value hides the variable behind it. -/
theorem resources_are_expanded :
    (cutVariable "{@greeting}".toList = none ∧
      guiParseText 3 bob ⟨"{@greeting}".toList, [("greeting".toList, "Hi %user%".toList)]⟩ =
        some ⟨"Hi Bob".toList, [("greeting".toList, "Hi %user%".toList)]⟩) ∧
    (guiParseText 3 bob ⟨"{@x=a}{@x=b}".toList, []⟩).map (·.str) = some "aa".toList ∧
    (∀ fuel, guiParseText fuel bob endless = none) ∧
    (guiParseText 3 bob ⟨"%none%%user%".toList, []⟩).map (·.str) = some "%user%".toList := by
  refine ⟨⟨by decide, by rfl⟩, by decide, fun fuel => ?_, by decide⟩
  have hround : resourceRound endless = .inl endless := by rfl
  have hnot : ¬ ∃ fuel r, loop resourceRound fuel endless = some r := by
    have hstuck : ∀ s, s = endless → ∃ s', resourceRound s = .inl s' ∧ s' = endless := by
      rintro s rfl
      exact ⟨endless, hround, rfl⟩
    exact not_ends_of_stuck hstuck rfl
  have hnone : loop resourceRound fuel endless = none := by
    rw [Option.eq_none_iff_forall_ne_some]
    exact fun r hr => hnot ⟨fuel, r, hr⟩
  rw [guiParseText, hnone]
  rfl

end Recovery.Gui
