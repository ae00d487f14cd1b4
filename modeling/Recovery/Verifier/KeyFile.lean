import Mathlib.Data.List.DropRight
import Recovery.Verifier.LoadKeys

/-!
# What the key parsers accept

* `accepted` — the dialect of the code: a brace may be missing where something else stands, a key
  may start with any character, and numbers are cut to what stores them.
* `readNumbers_ok`, `expectNone_closings` — lists of numbers and closing braces.
* `parseRsaKey_ok`, `parseEcKey_ok` — the two parsers accept the bodies of that dialect.
* `parseRsaKey_error` — a word count of zero (`ZeroBody`) is the only way to write outside an
  array.

The arrays of the source are fields of `RSAPublicKey` and `bn` buffers of fixed size.  Counts are
checked before the loops run, except that a word count of zero is let through.
-/

set_option autoImplicit false

namespace Recovery.Verifier

open Recovery.Lib Recovery.Memory

inductive AcceptedStart : List Char → KeyType × Nat × Nat → List Char → Prop where
  | first {s rest : List Char} : matchAll [.space, .lit '\x7b'] s = some ([], rest) →
      AcceptedStart s (.KEY_TYPE_RSA, 3, SHA_DIGEST_LENGTH) rest
  | newer {s s' rest : List Char} {version : Int} {kind : KeyType × Nat × Nat} :
      matchAll [.space, .lit 'v', .int 10] s = some ([version], s') →
      versionKind (storeI32 version) = some kind →
      matchAll [.space, .lit '\x7b'] s' = some ([], rest) ∨
        (s'.dropWhile isspace).head? ≠ some '\x7b' ∧ rest = s'.dropWhile isspace →
      AcceptedStart s kind rest
  /-- The exponent and the hash length are left at zero. -/
  | other {s rest : List Char} {c : Char} : s.dropWhile isspace = c :: rest → c ≠ '\x7b' →
      c ≠ 'v' → AcceptedStart s (.KEY_TYPE_RSA, 0, 0) rest

/-- A closing brace, or another character in its place, which is not read. -/
def AcceptedClosing (s rest : List Char) : Prop :=
  matchAll braceFormat s = some ([], rest) ∨
    ∃ c t, s.dropWhile isspace = c :: t ∧ c ≠ '\x7d' ∧ rest = c :: t

def accepted : Dialect where
  start := AcceptedStart
  count v k := storeI32 v = k
  word _ := True
  byte _ := True
  closing := AcceptedClosing

/-! ## Formats -/

theorem expect_len (s : List Char) : expect lenFormat s = matchAll lenFormat s :=
  expect_eq [.space, .int 0, .space, .lit ',', .space, .lit '0', .lit 'x'] rfl s

theorem expect_first (s : List Char) : expect firstFormat s = matchAll firstFormat s :=
  expect_eq [.space, .lit ',', .space, .lit '\x7b', .space] rfl s

theorem expect_next (s : List Char) : expect nextFormat s = matchAll nextFormat s :=
  expect_eq [.space, .lit ',', .space] rfl s

theorem expect_braceFirst (s : List Char) :
    expect (braceFormat ++ firstFormat) s = matchAll (braceFormat ++ firstFormat) s :=
  expect_eq (braceFormat ++ [.space, .lit ',', .space, .lit '\x7b', .space]) rfl s

theorem expect_char (s : List Char) :
    expect [.space, .char] s = matchAll [.space, .char] s :=
  expect_eq [.space] rfl s

theorem expect_count (s : List Char) :
    expect [.space, .int 0] s = matchAll [.space, .int 0] s :=
  expect_eq [.space] rfl s

/-- One conversion, one value. -/
theorem matchAll_one {ds : List Directive} {s rest : List Char} {vs : List Int}
    (h : matchAll ds s = some (vs, rest)) (hds : ds.countP Directive.isConversion = 1) :
    ∃ v, vs = [v] := by
  have hlen := matchAll_length h
  rw [hds] at hlen
  exact List.length_eq_one_iff.1 hlen

/-! ## Numbers -/

/-- What the loop leaves in the array. -/
def storeAll (index : Nat → Nat) (store : Int → Nat) : Nat → List Int → List Nat → List Nat
  | _, [], arr => arr
  | i, v :: vs, arr => storeAll index store (i + 1) vs (arr.set (index i) (store v))

theorem readMore_ok {index : Nat → Nat} {store : Int → Nat} {k i : Nat} {arr arr' : List Nat}
    {s rest : List Char} (hin : ∀ j, i ≤ j → j < i + k → index j < arr.length) :
    (readMore index store k i arr s).run = .ok (some (arr', rest)) ↔
      ∃ vs, MoreNumbers k s vs rest ∧ arr' = storeAll index store i vs arr := by
  induction k generalizing i arr s with
  | zero =>
    constructor
    · intro h
      cases h
      exact ⟨[], .done _, rfl⟩
    · rintro ⟨vs, h, rfl⟩
      cases h
      rfl
  | succ k ih =>
    have hi := hin i le_rfl (by lia)
    have hin' : ∀ v : Nat, ∀ j, i + 1 ≤ j → j < i + 1 + k → index j < (arr.set (index i) v).length := by
      intro v j h1 h2
      rw [List.length_set]
      exact hin j (by lia) (by lia)
    unfold readMore
    rw [bind_run_ok]
    constructor
    · rintro ⟨⟨vs, t⟩, h, hrest⟩
      rw [attempt_run, Except.ok.injEq, expect_next] at h
      obtain ⟨v, rfl⟩ := matchAll_one h rfl
      obtain ⟨arr₁, hw, hloop⟩ := bind_run_ok.1 hrest
      rw [writeAt_eq hi] at hw
      cases hw
      obtain ⟨us, hmore, rfl⟩ := (ih (hin' _)).1 hloop
      exact ⟨v :: us, .next h hmore, rfl⟩
    · rintro ⟨vs, hmore, rfl⟩
      cases hmore with
      | next h hmore =>
        rename_i t v us
        refine ⟨([v], t), by rw [attempt_run, expect_next, h],
          bind_run_ok.2 ⟨arr.set (index i) (store v), ?_, ?_⟩⟩
        · rw [List.headD_cons, writeAt_eq hi]
          rfl
        · exact (ih (hin' _)).2 ⟨us, hmore, rfl⟩

theorem readMore_ne_error {index : Nat → Nat} {store : Int → Nat} {k i : Nat} {arr : List Nat}
    {s : List Char} {e : Fault} (hin : ∀ j, i ≤ j → j < i + k → index j < arr.length) :
    (readMore index store k i arr s).run ≠ .error e := by
  induction k generalizing i arr s with
  | zero =>
    intro h
    cases h
  | succ k ih =>
    have hi := hin i le_rfl (by lia)
    unfold readMore
    intro h
    rcases bind_run_error.1 h with h | ⟨⟨vs, t⟩, -, h⟩
    · cases h
    · rcases bind_run_error.1 h with h | ⟨arr₁, hw, h⟩
      · rw [writeAt_eq hi] at h
        cases h
      · rw [writeAt_eq hi] at hw
        cases hw
        refine ih ?_ h
        intro j h1 h2
        rw [List.length_set]
        exact hin j (by lia) (by lia)

theorem readNumbers_ok {index : Nat → Nat} {store : Int → Nat} {k : Nat} {arr arr' : List Nat}
    {s rest : List Char} (hin : ∀ j, 1 ≤ j → j < k → index j < arr.length) :
    (readNumbers index store k arr s).run = .ok (some (arr', rest)) ↔
      index 0 < arr.length ∧ ∃ vs, Numbers k s vs rest ∧ arr' = storeAll index store 0 vs arr := by
  have hin' : ∀ v : Nat, ∀ j, 1 ≤ j → j < 1 + (k - 1) →
      index j < (arr.set (index 0) v).length := by
    intro v j h1 h2
    rw [List.length_set]
    exact hin j h1 (by omega)
  unfold readNumbers
  rw [bind_run_ok]
  constructor
  · rintro ⟨⟨vs, t⟩, hfirst, h⟩
    rw [attempt_run, Except.ok.injEq, expect_first] at hfirst
    obtain ⟨v, rfl⟩ := matchAll_one hfirst rfl
    obtain ⟨arr₁, hw, hmore⟩ := bind_run_ok.1 h
    rw [lift_run_ok] at hw
    unfold writeAt at hw
    split at hw
    · rename_i h0
      cases hw
      obtain ⟨more, hnumbers, rfl⟩ := (readMore_ok (hin' _)).1 hmore
      exact ⟨h0, v :: more, ⟨v, t, more, hfirst, hnumbers, rfl⟩, rfl⟩
    · cases hw
  · rintro ⟨h0, vs, ⟨v, t, more, hfirst, hnumbers, rfl⟩, rfl⟩
    refine ⟨([v], t), by rw [attempt_run, expect_first, hfirst], ?_⟩
    exact bind_run_ok.2 ⟨_, lift_run_ok.2 (writeAt_eq h0 _),
      (readMore_ok (hin' _)).2 ⟨more, hnumbers, rfl⟩⟩

/-- The only write that can fail is the first. -/
theorem readNumbers_error {index : Nat → Nat} {store : Int → Nat} {k : Nat} {arr : List Nat}
    {s : List Char} {e : Fault} (hin : ∀ j, 1 ≤ j → j < k → index j < arr.length) :
    (readNumbers index store k arr s).run = .error e ↔
      e = .outOfBounds ∧ arr.length ≤ index 0 ∧
        ∃ v t, matchAll firstFormat s = some ([v], t) := by
  unfold readNumbers
  rw [bind_run_error]
  constructor
  · rintro (h | ⟨⟨vs, t⟩, hfirst, h⟩)
    · cases h
    · rw [attempt_run, Except.ok.injEq, expect_first] at hfirst
      obtain ⟨v, rfl⟩ := matchAll_one hfirst rfl
      rcases bind_run_error.1 h with hw | ⟨arr₁, hw, hmore⟩
      · rw [lift_run_error] at hw
        unfold writeAt at hw
        split at hw
        · cases hw
        · rename_i h0
          cases hw
          exact ⟨rfl, Nat.le_of_not_lt h0, v, t, hfirst⟩
      · rw [lift_run_ok] at hw
        unfold writeAt at hw
        split at hw
        · cases hw
          refine absurd hmore (readMore_ne_error ?_)
          intro j h1 h2
          rw [List.length_set]
          exact hin j h1 (by omega)
        · cases hw
  · rintro ⟨rfl, h0, v, t, hfirst⟩
    refine Or.inr ⟨([v], t), by rw [attempt_run, expect_first, hfirst], ?_⟩
    exact bind_run_error.2 (Or.inl (lift_run_error.2 (if_neg (Nat.not_lt.2 h0))))

theorem skipMore_iff {k : Nat} {s rest : List Char} :
    skipMore k s = some rest ↔ ∃ vs, MoreNumbers k s vs rest := by
  induction k generalizing s with
  | zero =>
    constructor
    · intro h
      cases h
      exact ⟨[], .done _⟩
    · rintro ⟨vs, h⟩
      cases h
      rfl
  | succ k ih =>
    unfold skipMore
    rw [expect_next, Option.bind_eq_some_iff]
    constructor
    · rintro ⟨⟨vs, t⟩, h, hrest⟩
      obtain ⟨v, rfl⟩ := matchAll_one h rfl
      obtain ⟨us, hmore⟩ := ih.1 hrest
      exact ⟨v :: us, .next h hmore⟩
    · rintro ⟨vs, hmore⟩
      cases hmore with
      | next h hmore => exact ⟨_, h, ih.2 ⟨_, hmore⟩⟩

theorem MoreNumbers.length {k : Nat} {s rest : List Char} {vs : List Int}
    (h : MoreNumbers k s vs rest) : vs.length = k := by
  induction h with
  | done => rfl
  | next _ _ ih => rw [List.length_cons, ih]

theorem Numbers.length {k : Nat} {s rest : List Char} {vs : List Int} (h : Numbers k s vs rest)
    (hk : 1 ≤ k) : vs.length = k := by
  obtain ⟨v, s', more, -, hmore, rfl⟩ := h
  rw [List.length_cons, hmore.length]
  lia

theorem storeAll_id {store : Int → Nat} (vs : List Int) {i : Nat} {arr : List Nat}
    (h : i + vs.length = arr.length) :
    storeAll id store i vs arr = arr.take i ++ vs.map store := by
  induction vs generalizing i arr with
  | nil =>
    rw [List.length_nil, Nat.add_zero] at h
    simp [storeAll, h]
  | cons v vs ih =>
    rw [List.length_cons] at h
    unfold storeAll
    rw [ih (by rw [List.length_set]; lia), List.take_succ_eq_append_getElem (by simp; lia)]
    simp [List.take_set_of_le]

/-- Numbers stored from the end of the array on stand there in the opposite order. -/
theorem storeAll_reverse {store : Int → Nat} {n : Nat} (vs : List Int) {i : Nat} {arr : List Nat}
    (hn : arr.length = n) (h : i + vs.length = n) :
    storeAll (fun i => n - i - 1) store i vs arr =
      (vs.map store).reverse ++ arr.drop (n - i) := by
  induction vs generalizing i arr with
  | nil =>
    rw [List.length_nil, Nat.add_zero] at h
    simp [storeAll, h]
  | cons v vs ih =>
    rw [List.length_cons] at h
    unfold storeAll
    rw [ih (by rw [List.length_set, hn]) (by lia)]
    have hdrop : (arr.set (n - i - 1) (store v)).drop (n - (i + 1)) =
        store v :: arr.drop (n - i) := by
      rw [List.drop_eq_getElem_cons (by rw [List.length_set]; lia)]
      have h1 : n - (i + 1) = n - i - 1 := by lia
      have h2 : n - i - 1 + 1 = n - i := by lia
      simp [h1, h2, List.drop_set_of_lt, show n - i - 1 < n - i by lia]
    rw [hdrop]
    simp

theorem storeU32_lt (v : Int) : storeU32 v < 2 ^ 32 := by
  unfold storeU32
  split <;> lia

theorem bnBin2bn_reverse (bytes : List Nat) :
    bnBin2bn bytes.reverse = Nat.ofDigits 256 bytes := by
  rw [bnBin2bn, List.foldl_reverse]
  induction bytes with
  | nil => rfl
  | cons b bytes ih =>
    rw [List.foldr_cons, ih, Nat.ofDigits_cons]
    lia

/-- The bytes of words in memory, least significant first, are the digits of the number whose
digits are the words. -/
theorem ofDigits_wordBytes {words : List Nat} (h : ∀ w ∈ words, w < 2 ^ 32) :
    Nat.ofDigits 256 (words.flatMap wordBytes) = Nat.ofDigits (2 ^ 32) words := by
  induction words with
  | nil => rfl
  | cons w words ih =>
    obtain ⟨hw, hwords⟩ := List.forall_mem_cons.1 h
    rw [List.flatMap_cons, Nat.ofDigits_append, ih hwords, Nat.ofDigits_cons]
    simp only [wordBytes, Nat.ofDigits_cons, Nat.ofDigits_nil, List.length_cons, List.length_nil]
    omega

/-! ## Closing braces -/

theorem fscanf_brace (ds : List Directive) (s : List Char) :
    fscanf (braceFormat ++ ds) s =
      match s.dropWhile isspace with
      | [] => ⟨EOF, [], []⟩
      | c :: t => if c = '\x7d' then fscanf ds t else ⟨0, [], c :: t⟩ := by
  simp only [fscanf, braceFormat, List.cons_append, List.nil_append, fscanfLoop, Directive.step]
  cases s.dropWhile isspace with
  | nil => simp [Directive.atEnd]
  | cons c t => by_cases hc : c = '\x7d' <;> simp [Directive.atEnd, hc]

/-- The format after a closing brace is gone through only when the brace is there. -/
theorem expectNone_brace {ds : List Directive} {s rest : List Char} :
    expectNone (braceFormat ++ ds) s = some rest ↔
      (∃ t, matchAll braceFormat s = some ([], t) ∧ expectNone ds t = some rest) ∨
        ∃ c t, s.dropWhile isspace = c :: t ∧ c ≠ '\x7d' ∧ rest = c :: t := by
  unfold expectNone
  rw [fscanf_brace]
  simp only [braceFormat, matchAll_lit]
  cases s.dropWhile isspace with
  | nil => simp [EOF]
  | cons c t =>
    by_cases hc : c = '\x7d'
    · simp [hc]
    · simp [hc, eq_comm]

theorem expectNone_closing {s rest : List Char} :
    expectNone braceFormat s = some rest ↔ AcceptedClosing s rest := by
  have h := @expectNone_brace [] s rest
  rw [List.append_nil] at h
  rw [h]
  unfold AcceptedClosing
  refine or_congr ?_ Iff.rfl
  constructor
  · rintro ⟨t, ht, he⟩
    cases he
    exact ht
  · intro ht
    exact ⟨rest, ht, rfl⟩

/-- White space behind the brace goes, too. -/
theorem expectNone_closing_space {s rest : List Char} :
    expectNone (braceFormat ++ [.space]) s = some rest ↔
      ∃ t, AcceptedClosing s t ∧ rest = t.dropWhile isspace := by
  rw [expectNone_brace]
  constructor
  · rintro (⟨t, ht, he⟩ | ⟨c, t, ht, hc, rfl⟩)
    · cases he
      exact ⟨t, Or.inl ht, rfl⟩
    · exact ⟨c :: t, Or.inr ⟨c, t, ht, hc, rfl⟩, by rw [← ht, List.dropWhile_idempotent _ _]⟩
  · rintro ⟨t, ht | ⟨c, u, hu, hc, rfl⟩, rfl⟩
    · exact Or.inl ⟨t, ht, rfl⟩
    · exact Or.inr ⟨c, u, hu, hc, by rw [← hu, List.dropWhile_idempotent _ _]⟩

/-- One format for both braces stops where the first is missing, and so do two. -/
theorem expectNone_closings {s rest : List Char} :
    expectNone (braceFormat ++ braceFormat ++ [.space]) s = some rest ↔
      ∃ t u, AcceptedClosing s t ∧ AcceptedClosing t u ∧ rest = u.dropWhile isspace := by
  rw [List.append_assoc, expectNone_brace]
  constructor
  · rintro (⟨t, ht, he⟩ | ⟨c, t, ht, hc, rfl⟩)
    · obtain ⟨u, hu, rfl⟩ := expectNone_closing_space.1 he
      exact ⟨t, u, Or.inl ht, hu, rfl⟩
    · have hsame : (c :: t).dropWhile isspace = c :: t := by rw [← ht, List.dropWhile_idempotent]
      exact ⟨c :: t, c :: t, Or.inr ⟨c, t, ht, hc, rfl⟩, Or.inr ⟨c, t, hsame, hc, rfl⟩, hsame.symm⟩
  · rintro ⟨t, u, ht | ⟨c, v, hv, hc, rfl⟩, hu, rfl⟩
    · exact Or.inl ⟨t, ht, expectNone_closing_space.2 ⟨u, hu, rfl⟩⟩
    · have hsame : (c :: v).dropWhile isspace = c :: v := by rw [← hv, List.dropWhile_idempotent]
      refine Or.inr ⟨c, v, hv, hc, ?_⟩
      rcases hu with hu | ⟨d, w, hw, -, rfl⟩
      · rw [braceFormat, matchAll_lit, hsame] at hu
        cases hu
        exact absurd rfl hc
      · rw [hsame] at hw
        rw [← hw, hsame]

/-! ## Keys -/

/-- A word count of zero, and then a first word. -/
def ZeroBody (s : List Char) : Prop :=
  ∃ len n0inv s₁ v s₂, matchAll lenFormat s = some ([len, n0inv], s₁) ∧ storeI32 len = 0 ∧
    matchAll firstFormat s₁ = some ([v], s₂)

theorem matchAll_two {ds : List Directive} {s rest : List Char} {vs : List Int}
    (h : matchAll ds s = some (vs, rest)) (hds : ds.countP Directive.isConversion = 2) :
    ∃ v w, vs = [v, w] := by
  have hlen := matchAll_length h
  rw [hds] at hlen
  exact List.length_eq_two.1 hlen

/-- The modulus as `BN_bin2bn` reads it. -/
theorem modulus_value {k : Nat} {vs : List Int} (hk : vs.length = k) :
    bnBin2bn ((storeAll id storeU32 0 vs (List.replicate k 0)).flatMap wordBytes).reverse =
      Nat.ofDigits (2 ^ 32) (vs.map storeU32) := by
  rw [storeAll_id vs (by simp [hk]), List.take_zero, List.nil_append, bnBin2bn_reverse,
    ofDigits_wordBytes]
  intro w hw
  obtain ⟨v, -, rfl⟩ := List.mem_map.1 hw
  exact storeU32_lt v

theorem parseRsaKey_ok {exponent : Nat} {s rest : List Char} {rsa : RSA} :
    (parseRsaKey exponent s).run = .ok (some (rsa, rest)) ↔
      rsa.e = exponent ∧ ∃ t, accepted.RsaBody s rsa.n t ∧ rest = t.dropWhile isspace := by
  unfold parseRsaKey
  rw [bind_run_ok]
  have hin : ∀ k j : Nat, 1 ≤ j → j < k → id j < (List.replicate k 0).length := by
    intro k j h1 h2
    simpa using h2
  constructor
  · rintro ⟨⟨vs, s₁⟩, hlen, h⟩
    rw [attempt_run, Except.ok.injEq, expect_len] at hlen
    obtain ⟨len, n0inv, rfl⟩ := matchAll_two hlen rfl
    obtain ⟨hk, h⟩ := guard_run_ok.1 h
    obtain ⟨⟨modulus, s₂⟩, hmodulus, h⟩ := bind_run_ok.1 h
    obtain ⟨hpos, ms, hms, rfl⟩ := (readNumbers_ok (hin _)).1 hmodulus
    obtain ⟨⟨ws, s₃⟩, hrr, h⟩ := bind_run_ok.1 h
    rw [attempt_run, Except.ok.injEq, expect_braceFirst, matchAll_append] at hrr
    obtain ⟨xs, t, us, hbrace, hfirst, rfl⟩ := hrr
    obtain ⟨s₄, hskip, h⟩ := bind_run_ok.1 h
    rw [attempt_run, Except.ok.injEq, skipMore_iff] at hskip
    obtain ⟨rr, hmore⟩ := hskip
    obtain ⟨s₅, hclose, h⟩ := bind_run_ok.1 h
    rw [attempt_run, Except.ok.injEq, expectNone_closings] at hclose
    obtain ⟨s₆, s₇, h₆, h₇, rfl⟩ := hclose
    cases h
    obtain ⟨v, rfl⟩ := matchAll_one hfirst rfl
    obtain rfl := List.length_eq_zero_iff.1 (matchAll_length hbrace)
    have hpos' : 1 ≤ storeI32 len := by
      rw [List.length_replicate] at hpos
      exact hpos
    exact ⟨rfl, s₇, ⟨len, n0inv, storeI32 len, s₁, ms, s₂, t, v :: rr, s₄, s₆, hlen, rfl, hpos',
      Nat.le_of_not_lt hk, hms, hbrace, ⟨v, s₃, rr, hfirst, hmore, rfl⟩, h₆, h₇,
      fun _ _ => trivial, modulus_value (hms.length hpos')⟩, rfl⟩
  · obtain ⟨n, e⟩ := rsa
    rintro ⟨rfl, s₇, ⟨len, n0inv, k, s₁, ms, s₂, t, rr, s₄, s₆, hlen, rfl, hpos, hk, hms, hbrace,
      ⟨v, s₃, more, hfirst, hmore, rfl⟩, h₆, h₇, -, rfl⟩, rfl⟩
    refine ⟨([len, n0inv], s₁), by rw [attempt_run, expect_len, hlen], ?_⟩
    refine guard_run_ok.2 ⟨Nat.not_lt.2 hk, ?_⟩
    simp only [List.headD_cons]
    have hpos' : id 0 < (List.replicate (storeI32 len) 0).length := by
      rw [List.length_replicate]
      exact hpos
    refine bind_run_ok.2 ⟨_, (readNumbers_ok (hin _)).2 ⟨hpos', ms, hms, rfl⟩, ?_⟩
    refine bind_run_ok.2 ⟨([v], s₃), ?_, ?_⟩
    · rw [attempt_run, expect_braceFirst, matchAll_append.2 ⟨[], t, [v], hbrace, hfirst, rfl⟩]
      rfl
    · refine bind_run_ok.2 ⟨s₄, by rw [attempt_run, skipMore_iff.2 ⟨more, hmore⟩], ?_⟩
      refine bind_run_ok.2 ⟨_, by rw [attempt_run, expectNone_closings.2 ⟨s₆, s₇, h₆, h₇, rfl⟩], ?_⟩
      simp only [modulus_value (hms.length hpos)]
      rfl

/-- A write outside the array of the modulus. -/
theorem parseRsaKey_error {exponent : Nat} {s : List Char} {e : Fault} :
    (parseRsaKey exponent s).run = .error e ↔ e = .outOfBounds ∧ ZeroBody s := by
  have hin : ∀ k j : Nat, 1 ≤ j → j < k → id j < (List.replicate k 0).length := by
    intro k j h1 h2
    simpa using h2
  unfold parseRsaKey
  rw [bind_run_error]
  constructor
  · rintro (h | ⟨⟨vs, s₁⟩, hlen, h⟩)
    · cases h
    · rw [attempt_run, Except.ok.injEq, expect_len] at hlen
      obtain ⟨len, n0inv, rfl⟩ := matchAll_two hlen rfl
      obtain ⟨-, h⟩ := guard_run_error.1 h
      rcases bind_run_error.1 h with h | ⟨⟨modulus, s₂⟩, -, h⟩
      · obtain ⟨rfl, h0, v, t, hfirst⟩ := (readNumbers_error (hin _)).1 h
        exact ⟨rfl, len, n0inv, s₁, v, t, hlen, by simpa using h0, hfirst⟩
      · -- behind the modulus nothing is stored in an array
        rcases bind_run_error.1 h with h | ⟨_, -, h⟩
        · cases h
        · rcases bind_run_error.1 h with h | ⟨_, -, h⟩
          · cases h
          · rcases bind_run_error.1 h with h | ⟨_, -, h⟩
            · cases h
            · cases h
  · rintro ⟨rfl, len, n0inv, s₁, v, s₂, hlen, hzero, hfirst⟩
    refine Or.inr ⟨([len, n0inv], s₁), by rw [attempt_run, expect_len, hlen], ?_⟩
    refine guard_run_error.2 ⟨by simp [hzero], ?_⟩
    refine bind_run_error.2 (Or.inl ((readNumbers_error (hin _)).2 ⟨rfl, ?_, v, s₂, hfirst⟩))
    simp [hzero]

theorem ec_index (j : Nat) (bytes : List Nat) (hb : bytes.length = P256_BYTES) :
    P256_BYTES - j - 1 < bytes.length := by
  rw [hb]
  unfold P256_BYTES
  omega

/-- A coordinate, with its bytes in the array and the closing brace behind it. -/
theorem parseCoordinate_ok {bytes bytes' : List Nat} {s rest : List Char}
    (hb : bytes.length = P256_BYTES) :
    (parseCoordinate P256_BYTES bytes s).run = .ok (some (bytes', rest)) ↔
      ∃ vs t, Numbers P256_BYTES s vs t ∧ AcceptedClosing t rest ∧
        bytes' = (vs.map fun v => storeU32 v % 256).reverse := by
  have hstore : ∀ {vs : List Int} {t : List Char}, Numbers P256_BYTES s vs t →
      storeAll (fun i => P256_BYTES - i - 1) (fun v => storeU32 v % 256) 0 vs bytes =
        (vs.map fun v => storeU32 v % 256).reverse := by
    intro vs t h
    rw [storeAll_reverse vs hb (by rw [h.length (by decide), Nat.zero_add]), Nat.sub_zero, ← hb,
      List.drop_length, List.append_nil]
  unfold parseCoordinate
  rw [bind_run_ok]
  constructor
  · rintro ⟨⟨bytes₁, t⟩, h, hrest⟩
    obtain ⟨-, vs, hvs, rfl⟩ := (readNumbers_ok fun j _ _ => ec_index j bytes hb).1 h
    obtain ⟨u, hclose, hrest⟩ := bind_run_ok.1 hrest
    rw [attempt_run, Except.ok.injEq, expectNone_closing] at hclose
    cases hrest
    exact ⟨vs, t, hvs, hclose, hstore hvs⟩
  · rintro ⟨vs, t, hvs, hclose, rfl⟩
    refine ⟨(_, t), (readNumbers_ok fun j _ _ => ec_index j bytes hb).2
      ⟨ec_index 0 bytes hb, vs, hvs, rfl⟩, ?_⟩
    refine bind_run_ok.2 ⟨rest, by rw [attempt_run, expectNone_closing.2 hclose], ?_⟩
    simp only [hstore hvs]
    rfl

theorem parseCoordinate_ne_error {bytes : List Nat} {s : List Char} {e : Fault}
    (hb : bytes.length = P256_BYTES) : (parseCoordinate P256_BYTES bytes s).run ≠ .error e := by
  unfold parseCoordinate
  intro h
  rcases bind_run_error.1 h with h | ⟨_, -, h⟩
  · obtain ⟨-, h0, -⟩ := (readNumbers_error fun j _ _ => ec_index j bytes hb).1 h
    exact absurd (ec_index 0 bytes hb) (Nat.not_lt.2 h0)
  · rcases bind_run_error.1 h with h | ⟨_, -, h⟩
    · cases h
    · cases h

variable {onCurve : Nat → Nat → Bool}

theorem parseEcKey_ok {s rest : List Char} {ec : EC_KEY} :
    (parseEcKey onCurve s).run = .ok (some (ec, rest)) ↔
      ∃ t, accepted.EcBody onCurve s ec.x ec.y t ∧ rest = t.dropWhile isspace := by
  have hlen : (List.replicate P256_BYTES 0).length = P256_BYTES := List.length_replicate
  have hrev : ∀ {vs : List Int} {a b : List Char}, Numbers P256_BYTES a vs b →
      (vs.map fun v => storeU32 v % 256).reverse.length = P256_BYTES := by
    intro vs a b h
    rw [List.length_reverse, List.length_map, h.length (by decide)]
  unfold parseEcKey
  rw [bind_run_ok]
  constructor
  · rintro ⟨⟨vs, s₁⟩, hcount, h⟩
    rw [attempt_run, Except.ok.injEq, expect_count] at hcount
    obtain ⟨len, rfl⟩ := matchAll_one hcount rfl
    obtain ⟨hk, h⟩ := guard_run_ok.1 h
    have hk : storeI32 len = P256_BYTES := Decidable.of_not_not hk
    simp only [List.headD_cons, hk] at h
    obtain ⟨⟨bytes, s₃⟩, hx, h⟩ := bind_run_ok.1 h
    obtain ⟨xs, s₂, hxs, h₂, rfl⟩ := (parseCoordinate_ok hlen).1 hx
    obtain ⟨⟨bytes, s₅⟩, hy, h⟩ := bind_run_ok.1 h
    obtain ⟨ys, s₄, hys, h₄, rfl⟩ := (parseCoordinate_ok (hrev hxs)).1 hy
    obtain ⟨s₆, hclose, h⟩ := bind_run_ok.1 h
    rw [attempt_run, Except.ok.injEq, expectNone_closing_space] at hclose
    obtain ⟨t, ht, rfl⟩ := hclose
    simp only [bnBin2bn_reverse] at h
    split at h
    · rename_i hcurve
      cases h
      exact ⟨t, ⟨len, s₁, xs, s₂, s₃, ys, s₄, s₅, hcount, hk, hxs, h₂, hys, h₄, ht,
        fun _ _ => trivial, rfl, rfl, hcurve⟩, rfl⟩
    · cases h
  · obtain ⟨x, y⟩ := ec
    rintro ⟨t, ⟨len, s₁, xs, s₂, s₃, ys, s₄, s₅, hcount, hk, hxs, h₂, hys, h₄, ht, -, rfl, rfl,
      hcurve⟩, rfl⟩
    have hk : storeI32 len = P256_BYTES := hk
    refine ⟨([len], s₁), by rw [attempt_run, expect_count, hcount], ?_⟩
    refine guard_run_ok.2 ⟨not_not_intro hk, ?_⟩
    simp only [List.headD_cons, hk]
    refine bind_run_ok.2 ⟨_, (parseCoordinate_ok hlen).2 ⟨xs, s₂, hxs, h₂, rfl⟩, ?_⟩
    refine bind_run_ok.2 ⟨_, (parseCoordinate_ok (hrev hxs)).2 ⟨ys, s₄, hys, h₄, rfl⟩, ?_⟩
    refine bind_run_ok.2 ⟨_, by rw [attempt_run, expectNone_closing_space.2 ⟨t, ht, rfl⟩], ?_⟩
    simp only [bnBin2bn_reverse]
    rw [if_pos hcurve]
    rfl

theorem parseEcKey_ne_error {s : List Char} {e : Fault} :
    (parseEcKey onCurve s).run ≠ .error e := by
  unfold parseEcKey
  intro h
  rcases bind_run_error.1 h with h | ⟨⟨vs, s₁⟩, -, h⟩
  · cases h
  · obtain ⟨hk, h⟩ := guard_run_error.1 h
    have hk : storeI32 (vs.headD 0) = P256_BYTES := Decidable.of_not_not hk
    simp only [hk] at h
    have hlen : (List.replicate P256_BYTES 0).length = P256_BYTES := List.length_replicate
    rcases bind_run_error.1 h with h | ⟨⟨bytes, s₃⟩, hx, h⟩
    · exact parseCoordinate_ne_error hlen h
    · obtain ⟨xs, s₂, hxs, -, rfl⟩ := (parseCoordinate_ok hlen).1 hx
      rcases bind_run_error.1 h with h | ⟨_, -, h⟩
      · refine parseCoordinate_ne_error ?_ h
        rw [List.length_reverse, List.length_map, hxs.length (by decide)]
      · rcases bind_run_error.1 h with h | ⟨_, -, h⟩
        · cases h
        · dsimp only at h
          split at h <;> cases h

end Recovery.Verifier
