import Recovery.Verifier.KeyFile

/-!
# Which key files `load_keys` accepts

* `readStart_iff` — the start of a key, in the dialect of the code.
* `ZeroCount` — a key whose word count is zero is come to; its first word is written outside the
  array.
* `loadKeys_ok`, `loadKeys_error` — `load_keys` returns the keys of an accepted file, and faults
  exactly on `ZeroCount`.
* `loadKeys_documented_iff` — it does what its comment says exactly on the files that the two
  dialects do not tell apart.

A key of the first version has no number in front; what the versions 2 to 5 add is the exponent,
the hash and the elliptic curve.
-/

set_option autoImplicit false

namespace Recovery.Verifier

open Recovery.Lib Recovery.Memory

variable {onCurve : Nat → Nat → Bool}

/-! ## The start of a key -/

/-- The version identifier, for which the return value does not tell whether a brace follows. -/
theorem fscanf_version {s : List Char} :
    fscanf [.int 10, .space, .lit '\x7b'] s =
      match scanNumeral 10 s with
      | none => ⟨if (s.dropWhile isspace).isEmpty then EOF else 0, [], s⟩
      | some (v, t) =>
        ⟨1, [v], match t.dropWhile isspace with
          | [] => []
          | c :: u => if c = '\x7b' then u else c :: u⟩ := by
  simp only [fscanf, fscanfLoop, Directive.step]
  cases scanNumeral 10 s with
  | none => simp [Directive.atEnd]
  | some r =>
    obtain ⟨v, t⟩ := r
    simp only [Option.map_some]
    cases t.dropWhile isspace with
    | nil => simp
    | cons c u => by_cases hc : c = '\x7b' <;> simp [hc]

theorem matchAll_char {s rest : List Char} {v : Int} :
    matchAll [.space, .char] s = some ([v], rest) ↔
      ∃ c, s.dropWhile isspace = c :: rest ∧ v = c.toNat := by
  simp only [matchAll, Directive.step, Option.bind_some]
  cases s.dropWhile isspace with
  | nil => simp
  | cons c t =>
    simp only [Option.bind_some, Option.map_some, List.append_nil, List.nil_append,
      Option.some.injEq, Prod.mk.injEq, List.cons.injEq, and_true]
    constructor
    · rintro ⟨rfl, rfl⟩
      exact ⟨c, ⟨rfl, rfl⟩, rfl⟩
    · rintro ⟨d, ⟨rfl, rfl⟩, rfl⟩
      exact ⟨rfl, rfl⟩

theorem matchAll_version {s rest : List Char} {v : Int} :
    matchAll [.space, .lit 'v', .int 10] s = some ([v], rest) ↔
      ∃ t, s.dropWhile isspace = 'v' :: t ∧ scanNumeral 10 t = some (v, rest) := by
  rw [show [Directive.space, .lit 'v', .int 10] = [.space, .lit 'v'] ++ [.int 10] from rfl,
    matchAll_append]
  constructor
  · rintro ⟨ws, t, us, h, hint, he⟩
    obtain rfl := List.length_eq_zero_iff.1 (matchAll_length h)
    rw [matchAll_lit] at h
    refine ⟨t, h, ?_⟩
    simp only [matchAll, Directive.step, Option.bind_eq_some_iff, Option.map_eq_some_iff,
      Option.some.injEq] at hint
    obtain ⟨-, ⟨⟨w, u⟩, hw, rfl⟩, -, rfl, hus⟩ := hint
    cases hus
    cases he
    exact hw
  · rintro ⟨t, ht, hv⟩
    exact ⟨[], t, [v], matchAll_lit.2 ht, by simp [matchAll, Directive.step, hv], rfl⟩

theorem charValue_eq {c d : Char} : (c.toNat : Int) = d.toNat ↔ c = d := by
  rw [Int.natCast_inj, Char.toNat_inj]

theorem readStart_iff {s rest : List Char} {kind : KeyType × Nat × Nat} :
    readStart s = some (kind, rest) ↔ AcceptedStart s kind rest := by
  unfold readStart
  rw [expect_char, Option.bind_eq_some_iff]
  constructor
  · rintro ⟨⟨vs, t⟩, h, hkind⟩
    obtain ⟨v, rfl⟩ := matchAll_one h rfl
    obtain ⟨c, hc, rfl⟩ := matchAll_char.1 h
    simp only [List.headD_cons, charValue_eq] at hkind
    split at hkind
    · rename_i hbrace
      cases hkind
      subst hbrace
      exact .first (matchAll_lit.2 hc)
    · split at hkind
      · rename_i hbrace hv
        subst hv
        rw [fscanf_version] at hkind
        cases hnum : scanNumeral 10 t with
        | none =>
          rw [hnum] at hkind
          have hret : (if (t.dropWhile isspace).isEmpty then EOF else 0) ≠ 1 := by
            unfold EOF
            split <;> decide
          dsimp only at hkind
          rw [if_pos hret] at hkind
          cases hkind
        | some r =>
          obtain ⟨version, u⟩ := r
          rw [hnum] at hkind
          simp only [ne_eq, not_true_eq_false, if_false, List.headD_cons, Option.map_eq_some_iff,
            Prod.mk.injEq] at hkind
          obtain ⟨kind', hkind, rfl, hrest⟩ := hkind
          refine .newer (matchAll_version.2 ⟨t, hc, hnum⟩) hkind ?_
          rw [matchAll_lit]
          revert hrest
          cases u.dropWhile isspace with
          | nil =>
            rintro rfl
            exact Or.inr ⟨by simp, rfl⟩
          | cons d u =>
            by_cases hd : d = '\x7b'
            · subst hd
              intro hrest
              simp only [if_true] at hrest
              exact Or.inl (by rw [hrest])
            · intro hrest
              simp only [hd, if_false] at hrest
              exact Or.inr ⟨by simpa using hd, hrest.symm⟩
      · rename_i hbrace hv
        cases hkind
        exact .other hc hbrace hv
  · intro h
    cases h with
    | first h =>
      refine ⟨_, matchAll_char.2 ⟨'\x7b', matchAll_lit.1 h, rfl⟩, ?_⟩
      simp
    | newer h hkind hrest =>
      rename_i u version
      obtain ⟨t, ht, hnum⟩ := matchAll_version.1 h
      refine ⟨_, matchAll_char.2 ⟨'v', ht, rfl⟩, ?_⟩
      simp only [List.headD_cons, charValue_eq]
      rw [if_neg (by decide), if_pos trivial, fscanf_version, hnum]
      simp only [ne_eq, not_true_eq_false, if_false, List.headD_cons, hkind, Option.map_some,
        Option.some.injEq, Prod.mk.injEq, true_and]
      rcases hrest with hrest | ⟨hne, rfl⟩
      · rw [matchAll_lit.1 hrest]
        simp
      · revert hne
        cases u.dropWhile isspace with
        | nil => simp
        | cons d u =>
          intro hne
          have hd : d ≠ '\x7b' := by simpa using hne
          simp [hd]
    | other h hbrace hv =>
      refine ⟨_, matchAll_char.2 ⟨_, h, rfl⟩, ?_⟩
      simp only [List.headD_cons, charValue_eq]
      rw [if_neg hbrace, if_neg hv]

/-! ## One key -/

theorem loadKey_ok {s rest : List Char} {cert : KeyCertificate} :
    (loadKey onCurve s).run = .ok (some (cert, rest)) ↔
      ∃ t, accepted.Key onCurve s cert t ∧ rest = t.dropWhile isspace := by
  unfold loadKey
  rw [bind_run_ok]
  constructor
  · rintro ⟨⟨⟨keyType, exponent, hashLen⟩, u⟩, hstart, h⟩
    rw [attempt_run, Except.ok.injEq, readStart_iff] at hstart
    cases keyType with
    | KEY_TYPE_RSA =>
      obtain ⟨⟨rsa, v⟩, hrsa, h⟩ := bind_run_ok.1 h
      obtain ⟨rfl, t, hbody, rfl⟩ := parseRsaKey_ok.1 hrsa
      cases h
      exact ⟨t, .rsa hstart hbody, rfl⟩
    | KEY_TYPE_EC =>
      obtain ⟨⟨ec, v⟩, hec, h⟩ := bind_run_ok.1 h
      obtain ⟨t, hbody, rfl⟩ := parseEcKey_ok.1 hec
      cases h
      exact ⟨t, .ec hstart hbody, rfl⟩
  · rintro ⟨t, hkey, rfl⟩
    cases hkey with
    | rsa hstart hbody =>
      refine ⟨_, by rw [attempt_run, readStart_iff.2 hstart], ?_⟩
      exact bind_run_ok.2 ⟨(⟨_, _⟩, _), parseRsaKey_ok.2 ⟨rfl, t, hbody, rfl⟩, rfl⟩
    | ec hstart hbody =>
      refine ⟨_, by rw [attempt_run, readStart_iff.2 hstart], ?_⟩
      exact bind_run_ok.2 ⟨(⟨_, _⟩, _), parseEcKey_ok.2 ⟨t, hbody, rfl⟩, rfl⟩

/-- An RSA key with a word count of zero. -/
def ZeroKey (s : List Char) : Prop :=
  ∃ exponent hashLen t, AcceptedStart s (.KEY_TYPE_RSA, exponent, hashLen) t ∧ ZeroBody t

theorem loadKey_error {s : List Char} {e : Fault} :
    (loadKey onCurve s).run = .error e ↔ e = .outOfBounds ∧ ZeroKey s := by
  unfold loadKey
  rw [bind_run_error]
  constructor
  · rintro (h | ⟨⟨⟨keyType, exponent, hashLen⟩, u⟩, hstart, h⟩)
    · cases h
    · rw [attempt_run, Except.ok.injEq, readStart_iff] at hstart
      cases keyType with
      | KEY_TYPE_RSA =>
        rcases bind_run_error.1 h with h | ⟨_, -, h⟩
        · obtain ⟨rfl, hzero⟩ := parseRsaKey_error.1 h
          exact ⟨rfl, exponent, hashLen, u, hstart, hzero⟩
        · cases h
      | KEY_TYPE_EC =>
        rcases bind_run_error.1 h with h | ⟨_, -, h⟩
        · exact absurd h parseEcKey_ne_error
        · cases h
  · rintro ⟨rfl, exponent, hashLen, u, hstart, hzero⟩
    refine Or.inr ⟨_, by rw [attempt_run, readStart_iff.2 hstart], bind_run_error.2 (Or.inl ?_)⟩
    exact parseRsaKey_error.2 ⟨rfl, hzero⟩

/-! ## The file -/

/-- Behind the keys before it, a key with a word count of zero is come to. -/
inductive ZeroCount (onCurve : Nat → Nat → Bool) : List Char → Prop where
  | here {s : List Char} : ZeroKey s → ZeroCount onCurve s
  | later {s rest s' : List Char} {cert : KeyCertificate} : accepted.Key onCurve s cert rest →
      matchAll [.space, .lit ','] rest = some ([], s') → ZeroCount onCurve s' →
      ZeroCount onCurve s

/-! ### What is left is a suffix -/

theorem MoreNumbers.suffix {k : Nat} {s rest : List Char} {vs : List Int}
    (h : MoreNumbers k s vs rest) : rest <:+ s := by
  induction h with
  | done => exact List.suffix_rfl
  | next h _ ih => exact ih.trans (matchAll_suffix h)

theorem Numbers.suffix {k : Nat} {s rest : List Char} {vs : List Int} (h : Numbers k s vs rest) :
    rest <:+ s := by
  obtain ⟨v, t, more, hfirst, hmore, -⟩ := h
  exact hmore.suffix.trans (matchAll_suffix hfirst)

theorem AcceptedClosing.suffix {s rest : List Char} (h : AcceptedClosing s rest) : rest <:+ s := by
  rcases h with h | ⟨c, t, ht, -, rfl⟩
  · exact matchAll_suffix h
  · rw [← ht]
    exact List.dropWhile_suffix _

theorem AcceptedStart.suffix {s rest : List Char} {kind : KeyType × Nat × Nat}
    (h : AcceptedStart s kind rest) : rest <:+ s := by
  cases h with
  | first h => exact matchAll_suffix h
  | newer h _ hrest =>
    refine List.IsSuffix.trans ?_ (matchAll_suffix h)
    rcases hrest with hrest | ⟨-, rfl⟩
    · exact matchAll_suffix hrest
    · exact List.dropWhile_suffix _
  | other h =>
    have hs := List.dropWhile_suffix (l := s) isspace
    rw [h] at hs
    exact (List.suffix_cons _ _).trans hs

theorem accepted_key_suffix {s rest : List Char} {cert : KeyCertificate}
    (h : accepted.Key onCurve s cert rest) : rest <:+ s := by
  cases h with
  | rsa hstart hbody =>
    obtain ⟨len, n0inv, k, s₁, modulus, s₂, s₃, rr, s₄, s₅, h₁, -, -, -, h₂, h₃, h₄, h₅, h₆, -⟩ :=
      hbody
    have hend : rest <:+ s₄ := (AcceptedClosing.suffix h₆).trans (AcceptedClosing.suffix h₅)
    have hlists : s₄ <:+ s₁ := h₄.suffix.trans ((matchAll_suffix h₃).trans h₂.suffix)
    exact hend.trans (hlists.trans ((matchAll_suffix h₁).trans (AcceptedStart.suffix hstart)))
  | ec hstart hbody =>
    obtain ⟨len, s₁, xs, s₂, s₃, ys, s₄, s₅, h₁, -, h₂, h₃, h₄, h₅, h₆, -⟩ := hbody
    have hend : rest <:+ s₄ := (AcceptedClosing.suffix h₆).trans (AcceptedClosing.suffix h₅)
    have hlists : s₄ <:+ s₁ := h₄.suffix.trans ((AcceptedClosing.suffix h₃).trans h₂.suffix)
    exact hend.trans (hlists.trans ((matchAll_suffix h₁).trans (AcceptedStart.suffix hstart)))

/-- The loop goes on with less than it had. -/
theorem accepted_more_length {s t u : List Char} {ch : Char} {cert : KeyCertificate}
    (h : accepted.Key onCurve s cert t) (ht : t.dropWhile isspace = ch :: u) :
    u.length < s.length := by
  have h1 := (accepted_key_suffix h).length_le
  have h2 := (List.dropWhile_suffix (l := t) isspace).length_le
  rw [ht, List.length_cons] at h2
  lia

/-! ### The loop -/

theorem loadKeysLoop_ok {fuel : Nat} {s : List Char} {acc certs : List KeyCertificate}
    (hfuel : s.length < fuel) :
    (loadKeysLoop onCurve fuel s acc).run = .ok (some certs) ↔
      ∃ cs, accepted.KeyList onCurve s cs ∧ certs = acc ++ cs := by
  induction fuel generalizing s acc with
  | zero => lia
  | succ fuel ih =>
    unfold loadKeysLoop
    rw [bind_run_ok]
    constructor
    · rintro ⟨⟨cert, r⟩, hread, h⟩
      obtain ⟨t, hkey, rfl⟩ := loadKey_ok.1 hread
      cases ht : t.dropWhile isspace with
      | nil =>
        simp only [ht] at h
        cases h
        exact ⟨[cert], .last hkey ht, rfl⟩
      | cons ch u =>
        simp only [ht] at h
        split at h
        · rename_i hcomma
          subst hcomma
          have hlt := accepted_more_length hkey ht
          obtain ⟨cs, hcs, rfl⟩ := (ih (by lia)).1 h
          exact ⟨cert :: cs, .more hkey (matchAll_lit.2 ht) hcs, by simp⟩
        · cases h
    · rintro ⟨cs, hcs, rfl⟩
      cases hcs with
      | last hkey hend =>
        refine ⟨_, loadKey_ok.2 ⟨_, hkey, rfl⟩, ?_⟩
        simp only [hend]
        rfl
      | more hkey hcomma hcs =>
        have ht := matchAll_lit.1 hcomma
        have hlt := accepted_more_length hkey ht
        refine ⟨_, loadKey_ok.2 ⟨_, hkey, rfl⟩, ?_⟩
        simp only [ht, if_true]
        exact (ih (by lia)).2 ⟨_, hcs, by simp⟩

theorem loadKeysLoop_error {fuel : Nat} {s : List Char} {acc : List KeyCertificate} {e : Fault}
    (hfuel : s.length < fuel) :
    (loadKeysLoop onCurve fuel s acc).run = .error e ↔
      e = .outOfBounds ∧ ZeroCount onCurve s := by
  induction fuel generalizing s acc with
  | zero => lia
  | succ fuel ih =>
    unfold loadKeysLoop
    rw [bind_run_error]
    constructor
    · rintro (h | ⟨⟨cert, r⟩, hread, h⟩)
      · obtain ⟨rfl, hzero⟩ := loadKey_error.1 h
        exact ⟨rfl, .here hzero⟩
      · obtain ⟨t, hkey, rfl⟩ := loadKey_ok.1 hread
        cases ht : t.dropWhile isspace with
        | nil =>
          simp only [ht] at h
          cases h
        | cons ch u =>
          simp only [ht] at h
          split at h
          · rename_i hcomma
            subst hcomma
            have hlt := accepted_more_length hkey ht
            obtain ⟨rfl, hzero⟩ := (ih (by lia)).1 h
            exact ⟨rfl, .later hkey (matchAll_lit.2 ht) hzero⟩
          · cases h
    · rintro ⟨rfl, hzero⟩
      cases hzero with
      | here hzero => exact Or.inl (loadKey_error.2 ⟨rfl, hzero⟩)
      | later hkey hcomma hzero =>
        have ht := matchAll_lit.1 hcomma
        have hlt := accepted_more_length hkey ht
        refine Or.inr ⟨_, loadKey_ok.2 ⟨_, hkey, rfl⟩, ?_⟩
        simp only [ht, if_true]
        exact (ih (by lia)).2 ⟨rfl, hzero⟩

/-- **`load_keys` accepts the files of its dialect** and returns their keys. -/
theorem loadKeys_ok {file : List Char} {certs : List KeyCertificate} :
    (loadKeys onCurve (some file)).run = .ok (some certs) ↔
      accepted.KeyList onCurve file certs := by
  unfold loadKeys
  dsimp only
  rw [loadKeysLoop_ok (Nat.lt_succ_self _)]
  simp

/-- **It writes outside an array** when it comes to a word count of zero, and only then. -/
theorem loadKeys_error {file : List Char} {e : Fault} :
    (loadKeys onCurve (some file)).run = .error e ↔ e = .outOfBounds ∧ ZeroCount onCurve file := by
  unfold loadKeys
  exact loadKeysLoop_error (Nat.lt_succ_self _)

example : (loadKeys (fun _ _ => true) (some "v2 \x7b1,0x1,\x7b5\x7d,\x7b6\x7d\x7d\n".toList)).run =
    .ok (some [⟨SHA_DIGEST_LENGTH, .KEY_TYPE_RSA, some ⟨5, 65537⟩, none⟩]) := rfl

example : (loadKeys (fun _ _ => true) (some "\x7b0,0x1,\x7b5".toList)).run =
    .error .outOfBounds := rfl

/-! ## The documented form -/

theorem DocumentedStart.accepted {s rest : List Char} {kind : KeyType × Nat × Nat}
    (h : DocumentedStart s kind rest) : AcceptedStart s kind rest := by
  cases h with
  | first h hkind =>
    cases hkind
    exact .first h
  | newer h hversion hkind =>
    rename_i version
    have hsplit : [Directive.space, .lit 'v', .int 10, .space, .lit '\x7b'] =
        [.space, .lit 'v', .int 10] ++ [.space, .lit '\x7b'] := rfl
    rw [hsplit, matchAll_append] at h
    obtain ⟨ws, t, us, hv, hbrace, he⟩ := h
    obtain rfl := List.length_eq_zero_iff.1 (matchAll_length hbrace)
    rw [List.append_nil] at he
    subst he
    refine .newer hv ?_ (Or.inl hbrace)
    have hle : version.toNat ≤ 5 := by
      by_contra hgt
      unfold certificateKind at hkind
      split at hkind <;> lia
    obtain ⟨n, rfl⟩ := Int.eq_ofNat_of_zero_le (show 0 ≤ version by lia)
    rw [storeI32_eq (by lia) (by lia)]
    simp only [Int.toNat_natCast] at hkind hle ⊢
    rw [← hkind]
    have hcases : n = 2 ∨ n = 3 ∨ n = 4 ∨ n = 5 := by lia
    rcases hcases with rfl | rfl | rfl | rfl <;> rfl

theorem documented_key {s rest : List Char} {cert : KeyCertificate}
    (h : documented.Key onCurve s cert rest) : accepted.Key onCurve s cert rest := by
  have hcount : ∀ (k : Nat), k < 2 ^ 32 → storeI32 (k : Int) = k := by
    intro k hk
    rw [storeI32_eq (by lia) (by lia), Int.toNat_natCast]
  cases h with
  | rsa hstart hbody =>
    obtain ⟨len, n0inv, k, s₁, modulus, s₂, s₃, rr, s₄, s₅, h₁, hlen, hk, hk', h₂, h₃, h₄, h₅, h₆, -,
      hn⟩ := hbody
    cases hlen
    exact .rsa (DocumentedStart.accepted hstart) ⟨k, n0inv, k, s₁, modulus, s₂, s₃, rr, s₄, s₅, h₁,
      hcount k (by lia), hk, hk', h₂, h₃, h₄, Or.inl h₅, Or.inl h₆, fun _ _ => trivial, hn⟩
  | ec hstart hbody =>
    obtain ⟨len, s₁, xs, s₂, s₃, ys, s₄, s₅, h₁, hlen, h₂, h₃, h₄, h₅, h₆, -, hx, hy, hcurve⟩ := hbody
    cases hlen
    exact .ec (DocumentedStart.accepted hstart) ⟨_, s₁, xs, s₂, s₃, ys, s₄, s₅, h₁,
      hcount _ (by decide), h₂, Or.inl h₃, h₄, Or.inl h₅, Or.inl h₆, fun _ _ => trivial, hx, hy,
      hcurve⟩

theorem documented_keyList {file : List Char} {certs : List KeyCertificate}
    (h : documented.KeyList onCurve file certs) : accepted.KeyList onCurve file certs := by
  induction h with
  | last hkey hend => exact .last (documented_key hkey) hend
  | more hkey hcomma _ ih => exact .more (documented_key hkey) hcomma ih

/-- What the comment above `load_keys` says of a file: the keys of a file of the documented form
are returned, no other file is accepted, and no array is left. -/
def LoadsDocumented (onCurve : Nat → Nat → Bool) (file : List Char) : Prop :=
  ∃ r, (loadKeys onCurve (some file)).run = .ok r ∧
    ∀ certs, r = some certs ↔ documented.KeyList onCurve file certs

/-- **`load_keys` does what its comment says** exactly on the files where no word count of zero is
come to, and which do not read as key files only because of what the code lets pass: another
character at the start of a key, a missing brace, a number that does not fit. -/
theorem loadKeys_documented_iff (onCurve : Nat → Nat → Bool) (file : List Char) :
    LoadsDocumented onCurve file ↔ ¬ZeroCount onCurve file ∧
      ∀ certs, accepted.KeyList onCurve file certs → documented.KeyList onCurve file certs := by
  constructor
  · rintro ⟨r, hr, hcerts⟩
    constructor
    · intro hzero
      rw [loadKeys_error.2 ⟨rfl, hzero⟩] at hr
      cases hr
    · intro certs h
      rw [loadKeys_ok.2 h] at hr
      cases hr
      exact (hcerts certs).1 rfl
  · rintro ⟨hzero, hsame⟩
    cases hr : (loadKeys onCurve (some file)).run with
    | error e => exact absurd (loadKeys_error.1 hr).2 hzero
    | ok r =>
      refine ⟨r, hr, fun certs => ?_⟩
      constructor
      · rintro rfl
        exact hsame certs (loadKeys_ok.1 hr)
      · intro h
        rw [loadKeys_ok.2 (documented_keyList h)] at hr
        cases hr
        rfl

/-- A key that starts with `x`. -/
def undocumentedKey : List Char := "x1,0x1,\x7b5\x7d,\x7b6\x7d\x7d".toList

/-- It is taken, with exponent and hash length 0. -/
theorem loadKeys_accepts_undocumented :
    (loadKeys (fun _ _ => true) (some undocumentedKey)).run =
      .ok (some [⟨0, .KEY_TYPE_RSA, some ⟨5, 0⟩, none⟩]) ∧
    ¬LoadsDocumented (fun _ _ => true) undocumentedKey := by
  have hrun : (loadKeys (fun _ _ => true) (some undocumentedKey)).run =
      .ok (some [⟨0, .KEY_TYPE_RSA, some ⟨5, 0⟩, none⟩]) := by
    rfl
  refine ⟨hrun, ?_⟩
  rintro ⟨r, hr, hcerts⟩
  rw [hrun] at hr
  cases hr
  have hbrace : matchAll [.space, .lit '\x7b'] undocumentedKey = none := by decide
  have hversion : matchAll [.space, .lit 'v', .int 10, .space, .lit '\x7b'] undocumentedKey =
      none := by decide
  have hstart : ∀ kind rest, ¬DocumentedStart undocumentedKey kind rest := by
    intro kind rest h
    cases h with
    | first h =>
      rw [hbrace] at h
      cases h
    | newer h =>
      rw [hversion] at h
      cases h
  have hkey : ∀ cert rest, ¬documented.Key (fun _ _ => true) undocumentedKey cert rest := by
    intro cert rest h
    cases h with
    | rsa h => exact hstart _ _ h
    | ec h => exact hstart _ _ h
  cases (hcerts _).1 rfl with
  | last h => exact hkey _ _ h
  | more h => exact hkey _ _ h

end Recovery.Verifier
