import Recovery.Lib.Scanf

/-!
# `fscanf`

A format is a list of directives; a stream is the list of the characters still to be read.

* `scanNumeral base` — the integer that `%d`, `%i`, `%u` and `%x` read, as it is written.
* `storeI32`, `storeU32` — what is left of it in an `int` or an `unsigned int`.
* `fscanf` — the directives in turn, up to the first that fails; the return value does not tell
  whether the literals behind the last conversion have matched.
* `matchAll` — all the directives match; what is left is a suffix (`matchAll_suffix`).
* `expect_eq` — for a format that ends in a conversion, the usual test of the return value is the
  test that everything has matched.
-/

set_option autoImplicit false

namespace Recovery.Lib

/-! ## Integers -/

/-- The value of a digit; other characters are no digit in any base. -/
def digitValue (c : Char) : Nat :=
  if c.isDigit then c.toNat - '0'.toNat
  else if 'a' ≤ c ∧ c ≤ 'f' then c.toNat - 'a'.toNat + 10
  else if 'A' ≤ c ∧ c ≤ 'F' then c.toNat - 'A'.toNat + 10
  else 16

/-- The optional sign. -/
def numeralSign (s : List Char) : Bool × List Char :=
  if s.head? = some '-' then (true, s.tail)
  else if s.head? = some '+' then (false, s.tail)
  else (false, s)

/-- The optional prefix `0x` of the bases 0 and 16; base 0 takes the base from the prefix. -/
def numeralBase (base : Nat) (s : List Char) : Nat × List Char :=
  if (base = 0 ∨ base = 16) ∧ (['0', 'x'].isPrefixOf s ∨ ['0', 'X'].isPrefixOf s) then
    (16, s.drop 2)
  else if base ≠ 0 then (base, s)
  else if s.head? = some '0' then (8, s)
  else (10, s)

/-- White space, sign, prefix and digits. -/
def scanNumeral (base : Nat) (s : List Char) : Option (Int × List Char) :=
  let (negative, s) := numeralSign (s.dropWhile isspace)
  let (base, s) := numeralBase base s
  let digits := s.takeWhile fun c => digitValue c < base
  if digits = [] then none
  else
    let magnitude := digits.foldl (fun n c => n * base + digitValue c) 0
    some (if negative then -magnitude else magnitude, s.drop digits.length)

/-- `strtoimax`, and the low 32 bits of it. -/
def storeI32 (v : Int) : Nat := (max (-2 ^ 63) (min v (2 ^ 63 - 1)) % 2 ^ 32).toNat

/-- `strtoumax`, and the low 32 bits of it. -/
def storeU32 (v : Int) : Nat :=
  if v.natAbs < 2 ^ 64 then (v % 2 ^ 32).toNat else 2 ^ 32 - 1

theorem storeI32_eq {v : Int} (h0 : 0 ≤ v) (h : v < 2 ^ 32) : storeI32 v = v.toNat := by
  unfold storeI32
  rw [Int.min_eq_left (by lia), Int.max_eq_right (by lia), Int.emod_eq_of_lt h0 h]

/-! ## Directives -/

inductive Directive where
  | space
  | lit (c : Char)
  /-- `%c`. -/
  | char
  /-- A conversion of integers. -/
  | int (base : Nat)
  deriving DecidableEq, Repr

def Directive.isConversion : Directive → Bool
  | .space | .lit _ => false
  | .char | .int _ => true

/-- What `fscanf` returns, what it has assigned, and what is left in the stream.  After a failed
conversion the stream is given as it was: nobody reads on there. -/
structure Scanned where
  ret : Int
  values : List Int
  rest : List Char
  deriving DecidableEq, Repr

def EOF : Int := -1

/-- A directive that matches: the value it assigns, if any, and the rest of the stream. -/
def Directive.step : Directive → List Char → Option (List Int × List Char)
  | .space, s => some ([], s.dropWhile isspace)
  | .lit _, [] => none
  | .lit c, d :: s => if d = c then some ([], s) else none
  | .char, [] => none
  | .char, d :: s => some ([(d.toNat : Int)], s)
  | .int base, s => (scanNumeral base s).map fun r => ([r.1], r.2)

/-- The stream ends where a directive looks for its first character. -/
def Directive.atEnd : Directive → List Char → Bool
  | .int _, s => (s.dropWhile isspace).isEmpty
  | _, s => s.isEmpty

/-- The end of the stream is told only before the first conversion. -/
def fscanfLoop : List Directive → List Char → List Int → Scanned
  | [], s, values => ⟨values.length, values, s⟩
  | d :: ds, s, values =>
    match d.step s with
    | some (vs, s) => fscanfLoop ds s (values ++ vs)
    | none => ⟨if values = [] ∧ d.atEnd s then EOF else values.length, values, s⟩

def fscanf (ds : List Directive) (s : List Char) : Scanned := fscanfLoop ds s []

/-- `if (fscanf(...) != n) return` where `n` is the number of conversions. -/
def expect (ds : List Directive) (s : List Char) : Option (List Int × List Char) :=
  let r := fscanf ds s
  if r.ret ≠ ds.countP Directive.isConversion then none else some (r.values, r.rest)

/-- Every directive matches. -/
def matchAll : List Directive → List Char → Option (List Int × List Char)
  | [], s => some ([], s)
  | d :: ds, s =>
    (d.step s).bind fun r => (matchAll ds r.2).map fun t => (r.1 ++ t.1, t.2)

theorem matchAll_cons {d : Directive} {ds : List Directive} {s rest : List Char} {vs : List Int} :
    matchAll (d :: ds) s = some (vs, rest) ↔ ∃ ws t us, d.step s = some (ws, t) ∧
      matchAll ds t = some (us, rest) ∧ vs = ws ++ us := by
  simp only [matchAll, Option.bind_eq_some_iff, Option.map_eq_some_iff, Prod.exists,
    Prod.mk.injEq]
  constructor
  · rintro ⟨ws, t, hstep, us, u, hm, rfl, rfl⟩
    exact ⟨ws, t, us, hstep, hm, rfl⟩
  · rintro ⟨ws, t, us, hstep, hm, rfl⟩
    exact ⟨ws, t, hstep, us, rest, hm, rfl, rfl⟩

/-- A conversion assigns one value. -/
theorem Directive.step_values {d : Directive} {s rest : List Char} {vs : List Int}
    (h : d.step s = some (vs, rest)) : vs.length = [d].countP Directive.isConversion := by
  cases d with
  | space =>
    cases h
    rfl
  | lit c =>
    cases s with
    | nil => cases h
    | cons x s =>
      simp only [Directive.step] at h
      split at h
      · cases h
        rfl
      · cases h
  | char =>
    cases s with
    | nil => cases h
    | cons x s =>
      cases h
      rfl
  | int base =>
    simp only [Directive.step, Option.map_eq_some_iff] at h
    obtain ⟨r, -, he⟩ := h
    cases he
    rfl

theorem matchAll_length {ds : List Directive} {s rest : List Char} {vs : List Int}
    (h : matchAll ds s = some (vs, rest)) : vs.length = ds.countP Directive.isConversion := by
  induction ds generalizing s vs with
  | nil =>
    cases h
    rfl
  | cons d ds ih =>
    obtain ⟨ws, t, us, hstep, hm, rfl⟩ := matchAll_cons.1 h
    rw [List.length_append, d.step_values hstep, ih hm, ← List.countP_append]
    rfl

/-- Formats that match go through `fscanf` to their end. -/
theorem fscanfLoop_of_matchAll {ds : List Directive} {s rest : List Char} {vs : List Int}
    (h : matchAll ds s = some (vs, rest)) (values : List Int) :
    fscanfLoop ds s values = ⟨(values ++ vs).length, values ++ vs, rest⟩ := by
  induction ds generalizing s vs values with
  | nil =>
    cases h
    simp [fscanfLoop]
  | cons d ds ih =>
    obtain ⟨ws, t, us, hstep, hm, rfl⟩ := matchAll_cons.1 h
    unfold fscanfLoop
    rw [hstep]
    dsimp only
    rw [ih hm, List.append_assoc]

/-- A format whose last directive is a conversion leaves something unassigned when it does not
match. -/
theorem fscanfLoop_ret_lt {ds : List Directive} {s : List Char} {c : Directive}
    (hc : c.isConversion = true) (h : matchAll (ds ++ [c]) s = none) (values : List Int) :
    (fscanfLoop (ds ++ [c]) s values).ret <
      (values.length + (ds ++ [c]).countP Directive.isConversion : Nat) := by
  have hpos : 0 < (ds ++ [c]).countP Directive.isConversion := by
    simp [List.countP_append, hc]
  -- The directive that has failed is before the last conversion or is that conversion.
  have hfailed : ∀ b : Bool, ((if values = [] ∧ b then EOF else (values.length : Int))) <
      (values.length + (ds ++ [c]).countP Directive.isConversion : Nat) := by
    intro b
    unfold EOF
    split <;> lia
  induction ds generalizing s values with
  | nil =>
    rw [List.nil_append] at h ⊢
    unfold fscanfLoop
    cases hstep : c.step s with
    | none => exact hfailed _
    | some r => simp [matchAll, hstep] at h
  | cons d ds ih =>
    rw [List.cons_append] at h ⊢
    unfold fscanfLoop
    cases hstep : d.step s with
    | none => exact hfailed _
    | some r =>
      obtain ⟨ws, t⟩ := r
      simp only [matchAll, hstep, Option.bind_some, Option.map_eq_none_iff] at h
      have hpos' : 0 < (ds ++ [c]).countP Directive.isConversion := by
        simp [List.countP_append, hc]
      have hlt := ih h (values ++ ws) hpos' (by
        intro b
        unfold EOF
        split <;> lia)
      rw [List.length_append, d.step_values hstep, Nat.add_assoc, ← List.countP_append] at hlt
      exact hlt

/-- **Where the last directive is a conversion**, the return value tells whether all of the format
has matched. -/
theorem expect_eq (ds : List Directive) {c : Directive} (hc : c.isConversion = true)
    (s : List Char) : expect (ds ++ [c]) s = matchAll (ds ++ [c]) s := by
  unfold expect fscanf
  cases h : matchAll (ds ++ [c]) s with
  | none =>
    have hlt := fscanfLoop_ret_lt hc h []
    rw [List.length_nil, Nat.zero_add] at hlt
    exact if_pos (Int.ne_of_lt hlt)
  | some r =>
    obtain ⟨vs, rest⟩ := r
    rw [fscanfLoop_of_matchAll h []]
    simp [matchAll_length h]

/-! ### Formats that match -/

/-- White space before a character that is none. -/
theorem matchAll_lit {s rest : List Char} {c : Char} :
    matchAll [.space, .lit c] s = some ([], rest) ↔ s.dropWhile isspace = c :: rest := by
  rw [matchAll_cons]
  constructor
  · rintro ⟨ws, t, us, hstep, hm, -⟩
    cases hstep
    obtain ⟨ws, u, us, hstep, hm, -⟩ := matchAll_cons.1 hm
    cases hm
    cases ht : s.dropWhile isspace with
    | nil =>
      rw [ht] at hstep
      cases hstep
    | cons d t =>
      rw [ht] at hstep
      simp only [Directive.step] at hstep
      split at hstep
      · rename_i hd
        cases hstep
        rw [hd]
      · cases hstep
  · intro h
    refine ⟨[], _, [], rfl, ?_, rfl⟩
    rw [h]
    simp [matchAll, Directive.step]

theorem matchAll_append {ds es : List Directive} {s rest : List Char} {vs : List Int} :
    matchAll (ds ++ es) s = some (vs, rest) ↔ ∃ ws t us, matchAll ds s = some (ws, t) ∧
      matchAll es t = some (us, rest) ∧ vs = ws ++ us := by
  induction ds generalizing s vs with
  | nil =>
    constructor
    · intro h
      exact ⟨[], s, vs, rfl, h, rfl⟩
    · rintro ⟨ws, t, us, h, he, rfl⟩
      cases h
      exact he
  | cons d ds ih =>
    rw [List.cons_append, matchAll_cons]
    constructor
    · rintro ⟨ws, t, us, hstep, hm, rfl⟩
      obtain ⟨xs, u, ys, hds, hes, rfl⟩ := ih.1 hm
      exact ⟨ws ++ xs, u, ys, matchAll_cons.2 ⟨ws, t, xs, hstep, hds, rfl⟩, hes,
        (List.append_assoc _ _ _).symm⟩
    · rintro ⟨ws, t, us, h, hes, rfl⟩
      obtain ⟨xs, u, ys, hstep, hds, rfl⟩ := matchAll_cons.1 h
      exact ⟨xs, u, ys ++ us, hstep, ih.2 ⟨ys, t, us, hds, hes, rfl⟩, List.append_assoc _ _ _⟩

/-! ### Progress -/

theorem numeralSign_suffix (s : List Char) : (numeralSign s).2 <:+ s := by
  unfold numeralSign
  split
  · exact List.tail_suffix s
  · split
    · exact List.tail_suffix s
    · exact List.suffix_rfl

theorem numeralBase_suffix (base : Nat) (s : List Char) : (numeralBase base s).2 <:+ s := by
  unfold numeralBase
  split
  · exact List.drop_suffix _ _
  · split
    · exact List.suffix_rfl
    · split <;> exact List.suffix_rfl

theorem scanNumeral_suffix {base : Nat} {s rest : List Char} {v : Int}
    (h : scanNumeral base s = some (v, rest)) : rest <:+ s := by
  unfold scanNumeral at h
  dsimp only at h
  split at h
  · cases h
  · simp only [Option.some.injEq, Prod.mk.injEq] at h
    obtain ⟨-, rfl⟩ := h
    exact (List.drop_suffix _ _).trans ((numeralBase_suffix _ _).trans
      ((numeralSign_suffix _).trans (List.dropWhile_suffix _)))

theorem Directive.step_suffix {d : Directive} {s rest : List Char} {vs : List Int}
    (h : d.step s = some (vs, rest)) : rest <:+ s := by
  cases d with
  | space =>
    cases h
    exact List.dropWhile_suffix _
  | lit c =>
    cases s with
    | nil => cases h
    | cons x s =>
      simp only [Directive.step] at h
      split at h
      · cases h
        exact List.suffix_cons _ _
      · cases h
  | char =>
    cases s with
    | nil => cases h
    | cons x s =>
      cases h
      exact List.suffix_cons _ _
  | int base =>
    simp only [Directive.step, Option.map_eq_some_iff] at h
    obtain ⟨r, hr, he⟩ := h
    cases he
    exact scanNumeral_suffix hr

theorem matchAll_suffix {ds : List Directive} {s rest : List Char} {vs : List Int}
    (h : matchAll ds s = some (vs, rest)) : rest <:+ s := by
  induction ds generalizing s vs with
  | nil =>
    cases h
    exact List.suffix_rfl
  | cons d ds ih =>
    obtain ⟨ws, t, us, hstep, hm, rfl⟩ := matchAll_cons.1 h
    exact (ih hm).trans (d.step_suffix hstep)

end Recovery.Lib
