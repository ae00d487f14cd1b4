import Recovery.Gui.TerminalBounds

/-!
# Escape sequences and the text behind them

* `CodePoint`, `Sequence` — what arrives: bytes that the decoder takes for a code point, and complete
  escape and control sequences with control characters in between.
* `SameParser` — what moves the cursor or erases leaves the parser alone.
* `run_codePoint`, `run_controls`, `run_sequence` — the parser after each.
* `stored_text` — in the ground state a character is stored at the cursor.
* `resync_iff` — the sequences after which the parser is always back there.

`index_swallows` — behind `ESC D` the parser stays in its state and takes the next byte of a text
for a part of the sequence.
-/

set_option autoImplicit false

namespace Recovery.Gui

open Recovery.Lib TerminalEngine

/-! ## What arrives -/

/-- The decoder takes the bytes for one code point; none of them is a control character. -/
inductive Decodes : Nat → UInt32 → List UInt8 → UInt32 → Prop
  | last {state : Nat} {cp c : UInt32} {byte : UInt8} (hbyte : ¬byte < 32)
    (h : utf8decode state cp byte = (UTF8_ACCEPT, c)) : Decodes state cp [byte] c
  | more {state state' : Nat} {cp cp' c : UInt32} {byte : UInt8} {bytes : List UInt8}
    (hbyte : ¬byte < 32) (h : utf8decode state cp byte = (state', cp'))
    (haccept : state' ≠ UTF8_ACCEPT) (hreject : state' ≠ UTF8_REJECT)
    (hrest : Decodes state' cp' bytes c) : Decodes state cp (byte :: bytes) c

structure CodePoint where
  bytes : List UInt8
  value : UInt32
  decodes : Decodes UTF8_ACCEPT 0 bytes value

/-- A control character that neither ends a sequence nor starts one. -/
structure Control where
  byte : UInt8
  embedded : byte < 32 ∧ byte ≠ 24 ∧ byte ≠ 26 ∧ byte ≠ 27

/-- What is between the start of a control sequence and its final byte. -/
inductive Param where
  | control (c : Control)
  | point (p : CodePoint) (h : isFinal p.value = false ∧ p.value ≠ 0x9b)

def Param.bytes : Param → List UInt8
  | .control c => [c.byte]
  | .point p _ => p.bytes

inductive Sequence where
  /-- `ESC x`. -/
  | escape (controls : List Control) (x : CodePoint) (h : x.value ≠ 0x5b ∧ x.value ≠ 0x9b)
  /-- `ESC [`, parameters, and a final byte. -/
  | csi (controls : List Control) (params : List Param) (last : CodePoint)
    (h : isFinal last.value = true)
  /-- The same with the single code point for `ESC [`. -/
  | csi8 (start : CodePoint) (hstart : start.value = 0x9b) (params : List Param) (last : CodePoint)
    (h : isFinal last.value = true)

def Sequence.bytes : Sequence → List UInt8
  | .escape controls x _ => 27 :: controls.map Control.byte ++ x.bytes
  | .csi controls params last _ =>
    27 :: controls.map Control.byte ++ 0x5b :: params.flatMap Param.bytes ++ last.bytes
  | .csi8 start _ params last _ => start.bytes ++ params.flatMap Param.bytes ++ last.bytes

/-- `ESC c`, `ESC D` and `ESC E` do not end in the ground state. -/
def Sequence.resets : Sequence → Bool
  | .escape _ x _ => x.value ≠ 0x63 && x.value ≠ 0x44 && x.value ≠ 0x45
  | _ => true

/-! ## What leaves the parser alone -/

structure SameParser (t t' : TerminalEngine) : Prop where
  state : t'.state = t.state
  utf8state : t'.utf8state = t.utf8state

theorem SameParser.refl (t : TerminalEngine) : SameParser t t := ⟨rfl, rfl⟩

theorem SameParser.trans {t t' t'' : TerminalEngine} (h : SameParser t t') (h' : SameParser t' t'') :
    SameParser t t'' := ⟨h'.state.trans h.state, h'.utf8state.trans h.utf8state⟩

theorem right_sameParser (t : TerminalEngine) (n : Int) : SameParser t (t.right n) := ⟨rfl, rfl⟩

theorem tabLoop_sameParser (fuel : Nat) (t : TerminalEngine) : SameParser t (tabLoop fuel t) := by
  induction fuel generalizing t with
  | zero => exact .refl t
  | succ fuel ih =>
    rw [tabLoop]
    split
    · exact (right_sameParser t 1).trans (ih (t.right 1))
    · exact .refl t

theorem processC0_sameParser (t : TerminalEngine) (c : Control) : SameParser t (t.processC0 c.byte) := by
  obtain ⟨byte, -, h24, h26, h27⟩ := c
  have hne {n : Nat} (h : byte ≠ UInt8.ofNat n) (hn : byte.toNat = n) : False :=
    h (by rw [← hn, UInt8.ofNat_toNat])
  unfold processC0
  dsimp only
  split
  · exact ⟨rfl, rfl⟩
  · exact (right_sameParser t 1).trans (tabLoop_sameParser 8 (t.right 1))
  · exact ⟨rfl, rfl⟩
  · exact ⟨rfl, rfl⟩
  · exact ⟨rfl, rfl⟩
  · exact ⟨rfl, rfl⟩
  · rename_i hn
    exact (hne h24 hn).elim
  · rename_i hn
    exact (hne h26 hn).elim
  · rename_i hn
    exact (hne h27 hn).elim
  · exact .refl t

theorem ensureUnpacked_sameParser {t t' : TerminalEngine} {y : Int}
    (h : t.ensureUnpacked y = some t') :
    SameParser t t' ∧ t'.unpackedY = y.toNat ∧ t'.cursorX = t.cursorX := by
  unfold ensureUnpacked at h
  split at h
  · unfold packLine unpackLine at h
    split at h
    · obtain ⟨line, -, rfl⟩ := Option.map_eq_some_iff.1 h
      exact ⟨⟨rfl, rfl⟩, rfl, rfl⟩
    · cases h
  · rename_i heq
    cases h
    exact ⟨.refl t, by lia, rfl⟩

theorem eraseTo_sameParser {t t' : TerminalEngine} {x : Nat} (h : t.eraseTo x = some t') :
    SameParser t t' := by
  unfold eraseTo at h
  split at h
  · cases h
    exact ⟨rfl, rfl⟩
  · cases h

theorem clear_sameParser {t t' : TerminalEngine} (h : t.clear = some t') : SameParser t t' := by
  unfold clear at h
  obtain ⟨u, hu, h⟩ := Option.bind_eq_some_iff.1 h
  cases h
  obtain ⟨line, -, rfl⟩ := Option.map_eq_some_iff.1 hu
  exact ⟨rfl, rfl⟩

theorem eraseInPage_sameParser {t t' : TerminalEngine} {param : Int}
    (h : t.eraseInPage param = some t') : SameParser t t' := by
  obtain ⟨u, hu, h⟩ := Option.bind_eq_some_iff.1 h
  refine (ensureUnpacked_sameParser hu).1.trans ?_
  split at h
  · obtain ⟨v, hv, h⟩ := Option.bind_eq_some_iff.1 h
    refine (eraseTo_sameParser hv).trans ?_
    split at h
    · split at h
      · cases h
        exact ⟨rfl, rfl⟩
      · cases h
    · cases h
      exact .refl _
  · split at h
    · exact clear_sameParser h
    · cases h
      exact ⟨rfl, rfl⟩

theorem eraseInLine_sameParser {t t' : TerminalEngine} {param : Int}
    (h : t.eraseInLine param = some t') : SameParser t t' := by
  obtain ⟨u, hu, h⟩ := Option.bind_eq_some_iff.1 h
  refine (ensureUnpacked_sameParser hu).1.trans ?_
  split at h
  · exact eraseTo_sameParser h
  · split at h
    · cases h
      exact ⟨rfl, rfl⟩
    · cases h
      exact ⟨rfl, rfl⟩

/-- **No control sequence** touches the parser by itself. -/
theorem execControlSequence_sameParser {t t' : TerminalEngine} {ctlseq : List Char}
    (h : t.execControlSequence ctlseq = some t') : SameParser t t' := by
  unfold execControlSequence at h
  split at h
  · cases h
    exact .refl t
  · split at h
    case h_11 => exact eraseInPage_sameParser h
    case h_12 => exact eraseInLine_sameParser h
    all_goals
      cases h
      exact ⟨rfl, rfl⟩

/-! ## The parser after what arrives -/

variable {t t' : TerminalEngine}

theorem run_cons_eq_some {byte : UInt8} {bytes : List UInt8} :
    t.run (byte :: bytes) = some t' ↔ ∃ u, t.output byte = some u ∧ u.run bytes = some t' := by
  unfold run
  rw [List.foldlM_cons]
  exact Option.bind_eq_some_iff

theorem run_append_eq_some {xs ys : List UInt8} :
    t.run (xs ++ ys) = some t' ↔ ∃ u, t.run xs = some u ∧ u.run ys = some t' := by
  unfold run
  rw [List.foldlM_append]
  exact Option.bind_eq_some_iff

/-- The code point is processed when its last byte has come. -/
theorem run_decodes {state : Nat} {cp c : UInt32} {bytes : List UInt8}
    (hd : Decodes state cp bytes c) (hstate : t.utf8state = state) (hcp : t.utf8codepoint = cp)
    (h : t.run bytes = some t') :
    ∃ u : TerminalEngine, u = { t with utf8state := UTF8_ACCEPT, utf8codepoint := c } ∧
      u.processCodePoint c = some t' := by
  induction hd generalizing t with
  | last hbyte hdec =>
    obtain ⟨u, hu, h⟩ := run_cons_eq_some.1 h
    unfold output at hu
    rw [if_neg hbyte, hstate, hcp, hdec] at hu
    dsimp only at hu
    rw [if_pos rfl] at hu
    cases h
    exact ⟨_, rfl, hu⟩
  | @more state state' cp cp' c byte bytes hbyte hdec haccept hreject hrest ih =>
    obtain ⟨u, hu, h⟩ := run_cons_eq_some.1 h
    unfold output at hu
    rw [if_neg hbyte, hstate, hcp, hdec] at hu
    dsimp only at hu
    rw [if_neg haccept, if_neg hreject] at hu
    cases hu
    refine ih (t := { t with utf8state := state', utf8codepoint := cp' }) ?_ ?_ h
    · rfl
    · rfl

theorem Decodes.any {state : Nat} {cp c : UInt32} {bytes : List UInt8}
    (hd : Decodes state cp bytes c) (hstate : state = UTF8_ACCEPT) (cp' : UInt32) :
    Decodes state cp' bytes c := by
  subst hstate
  cases hd with
  | last hbyte h => exact .last hbyte h
  | more hbyte h haccept hreject hrest => exact .more hbyte h haccept hreject hrest

theorem run_codePoint {p : CodePoint} (hutf8 : t.utf8state = UTF8_ACCEPT)
    (h : t.run p.bytes = some t') :
    ∃ u : TerminalEngine, u = { t with utf8state := UTF8_ACCEPT, utf8codepoint := p.value } ∧
      u.processCodePoint p.value = some t' :=
  run_decodes (p.decodes.any rfl t.utf8codepoint) hutf8 rfl h

/-- Between two characters, in a state of the parser. -/
structure At (state : ParserState) (t : TerminalEngine) : Prop where
  state : t.state = state
  utf8state : t.utf8state = UTF8_ACCEPT

variable {state : ParserState}

theorem run_controls {controls : List Control} (ht : At state t)
    (h : t.run (controls.map Control.byte) = some t') : At state t' := by
  induction controls generalizing t with
  | nil =>
    cases h
    exact ht
  | cons c controls ih =>
    obtain ⟨u, hu, h⟩ := run_cons_eq_some.1 h
    unfold output at hu
    rw [if_pos c.embedded.1] at hu
    cases hu
    refine ih ⟨?_, rfl⟩ h
    exact (processC0_sameParser t c).state.trans ht.state

theorem output_esc (t : TerminalEngine) (h : t.output 27 = some t') : At .esc t' := by
  cases h
  exact ⟨rfl, rfl⟩

theorem output_bracket (ht : At .esc t) (h : t.output 0x5b = some t') : At .csi t' := by
  have hdec : utf8decode UTF8_ACCEPT t.utf8codepoint 0x5b = (UTF8_ACCEPT, 0x5b) := by
    rw [show utf8decode UTF8_ACCEPT t.utf8codepoint 0x5b = utf8decode UTF8_ACCEPT 0 0x5b from rfl]
    decide
  unfold output at h
  rw [if_neg (by decide), ht.utf8state, hdec] at h
  dsimp only at h
  rw [if_pos rfl] at h
  unfold processCodePoint at h
  rw [if_neg (by decide)] at h
  dsimp only at h
  rw [ht.state] at h
  cases h
  exact ⟨rfl, rfl⟩

theorem run_params {params : List Param} (ht : At .csi t)
    (h : t.run (params.flatMap Param.bytes) = some t') : At .csi t' := by
  induction params generalizing t with
  | nil =>
    cases h
    exact ht
  | cons param params ih =>
    rw [List.flatMap_cons] at h
    obtain ⟨u, hu, h⟩ := run_append_eq_some.1 h
    refine ih ?_ h
    cases param with
    | control c => exact @run_controls _ _ _ [c] ht hu
    | point p hp =>
      obtain ⟨v, rfl, hv⟩ := run_codePoint ht.utf8state hu
      unfold processCodePoint at hv
      rw [if_neg hp.2] at hv
      dsimp only at hv
      rw [ht.state] at hv
      unfold processControlSequence at hv
      rw [hp.1] at hv
      dsimp only at hv
      rw [if_neg Bool.false_ne_true] at hv
      split at hv
      · cases hv
        exact ⟨rfl, rfl⟩
      · cases hv
        exact ⟨rfl, rfl⟩

/-- The final byte ends a control sequence. -/
theorem run_last {last : CodePoint} (hlast : isFinal last.value = true) (ht : At .csi t)
    (h : t.run last.bytes = some t') : At .ground t' := by
  have hne : last.value ≠ 0x9b := by
    intro heq
    rw [heq] at hlast
    exact absurd hlast (by decide)
  obtain ⟨u, rfl, hu⟩ := run_codePoint ht.utf8state h
  unfold processCodePoint at hu
  rw [if_neg hne] at hu
  dsimp only at hu
  rw [ht.state] at hu
  unfold processControlSequence at hu
  rw [hlast] at hu
  dsimp only at hu
  rw [if_pos rfl] at hu
  obtain ⟨v, hv, hu⟩ := Option.bind_eq_some_iff.1 hu
  cases hu
  exact ⟨rfl, (execControlSequence_sameParser hv).utf8state⟩

theorem run_csi {params : List Param} {last : CodePoint} (hlast : isFinal last.value = true)
    (ht : At .csi t) (h : t.run (params.flatMap Param.bytes ++ last.bytes) = some t') :
    At .ground t' := by
  obtain ⟨u, hu, h⟩ := run_append_eq_some.1 h
  exact run_last hlast (run_params ht hu) h

/-- Only its own code gives a character. -/
theorem ofNat_eq_iff {n : Nat} {c : Char} (hc : c.toNat ≠ 0) : Char.ofNat n = c ↔ n = c.toNat := by
  constructor
  · intro h
    by_cases hn : n.isValidChar
    · rw [← h, Char.ofNat, dif_pos hn]
      rfl
    · rw [Char.ofNat, dif_neg hn] at h
      rw [← h] at hc
      exact absurd rfl hc
  · rintro rfl
    exact Char.ofNat_toNat c

/-- What `ESC x` ends in. -/
theorem run_escape {x : CodePoint} (hx : x.value ≠ 0x5b ∧ x.value ≠ 0x9b) (ht : At .esc t)
    (h : t.run x.bytes = some t') :
    At (if x.value ≠ 0x63 && x.value ≠ 0x44 && x.value ≠ 0x45 then .ground else .esc) t' := by
  have hval {v : UInt32} {c : Char} (hc : c.toNat ≠ 0) (hv : v.toNat = c.toNat) :
      Char.ofNat x.value.toNat = c ↔ x.value = v := by
    rw [ofNat_eq_iff hc, ← hv, UInt32.toNat_inj]
  have hc : Char.ofNat x.value.toNat = 'c' ↔ x.value = 0x63 := hval (by decide) rfl
  have hD : Char.ofNat x.value.toNat = 'D' ↔ x.value = 0x44 := hval (by decide) rfl
  have hE : Char.ofNat x.value.toNat = 'E' ↔ x.value = 0x45 := hval (by decide) rfl
  have hbracket : Char.ofNat x.value.toNat = '[' ↔ x.value = 0x5b := hval (by decide) rfl
  obtain ⟨u, rfl, hu⟩ := run_codePoint ht.utf8state h
  unfold processCodePoint at hu
  rw [if_neg hx.2] at hu
  dsimp only at hu
  rw [ht.state] at hu
  cases hu
  by_cases hxc : x.value = 0x63
  · rw [if_neg (by simp [hxc]), processEsc, hc.2 hxc]
    exact ⟨rfl, rfl⟩
  · by_cases hxD : x.value = 0x44
    · rw [if_neg (by simp [hxD]), processEsc, hD.2 hxD]
      exact ⟨rfl, rfl⟩
    · by_cases hxE : x.value = 0x45
      · rw [if_neg (by simp [hxE]), processEsc, hE.2 hxE]
        exact ⟨rfl, rfl⟩
      · rw [if_pos (by simp [hxc, hxD, hxE]), processEsc]
        split
        · rename_i heq
          exact absurd (hc.1 heq) hxc
        · rename_i heq
          exact absurd (hD.1 heq) hxD
        · rename_i heq
          exact absurd (hE.1 heq) hxE
        · rename_i heq
          exact absurd (hbracket.1 heq) hx.1
        · exact ⟨rfl, rfl⟩

/-- **After a sequence** the parser is in its ground state, or still waits for what follows `ESC`. -/
theorem run_sequence {q : Sequence} (hutf8 : t.utf8state = UTF8_ACCEPT)
    (h : t.run q.bytes = some t') : At (if q.resets then .ground else .esc) t' := by
  cases q with
  | escape controls x hx =>
    obtain ⟨u, hu, h⟩ := run_cons_eq_some.1 h
    obtain ⟨v, hv, h⟩ := run_append_eq_some.1 h
    exact run_escape hx (run_controls (output_esc t hu) hv) h
  | csi controls params last hlast =>
    rw [Sequence.bytes, List.cons_append, List.cons_append, List.append_assoc, List.cons_append] at h
    obtain ⟨u, hu, h⟩ := run_cons_eq_some.1 h
    obtain ⟨v, hv, h⟩ := run_append_eq_some.1 h
    obtain ⟨w, hw, h⟩ := run_cons_eq_some.1 h
    exact run_csi hlast (output_bracket (run_controls (output_esc t hu) hv) hw) h
  | csi8 start hstart params last hlast =>
    rw [Sequence.bytes, List.append_assoc] at h
    obtain ⟨u, hu, h⟩ := run_append_eq_some.1 h
    obtain ⟨v, rfl, hv⟩ := run_codePoint hutf8 hu
    unfold processCodePoint at hv
    rw [if_pos hstart] at hv
    cases hv
    exact run_csi hlast ⟨rfl, rfl⟩ h

theorem run_sequences {qs : List Sequence} (ht : At .ground t) (hqs : ∀ q ∈ qs, q.resets = true)
    (h : t.run (qs.flatMap Sequence.bytes) = some t') : At .ground t' := by
  induction qs generalizing t with
  | nil =>
    cases h
    exact ht
  | cons q qs ih =>
    rw [List.flatMap_cons] at h
    obtain ⟨u, hu, h⟩ := run_append_eq_some.1 h
    have hq := run_sequence ht.utf8state hu
    rw [hqs q List.mem_cons_self] at hq
    exact ih hq (fun q hq => hqs q (List.mem_cons_of_mem _ hq)) h

/-- Sequences end between two characters. -/
theorem run_sequences_utf8 {qs : List Sequence} (ht : t.utf8state = UTF8_ACCEPT)
    (h : t.run (qs.flatMap Sequence.bytes) = some t') : t'.utf8state = UTF8_ACCEPT := by
  induction qs generalizing t with
  | nil =>
    cases h
    exact ht
  | cons q qs ih =>
    rw [List.flatMap_cons] at h
    obtain ⟨u, hu, h⟩ := run_append_eq_some.1 h
    exact ih (run_sequence ht hu).utf8state h

/-! ## Text -/

/-- Where the next character goes. -/
def wrapped (t : TerminalEngine) : TerminalEngine := if t.linewrap then (t.down 1).setX 0 else t

/-- The character is in the cell at the cursor, and its line is the unpacked one. -/
def Stored (t t' : TerminalEngine) (cp : UInt32) : Prop :=
  t'.cells[(wrapped t).cursorX.toNat]? = some cp ∧ t'.unpackedY = (wrapped t).cursorY.toNat

theorem stored_processChar {cp : UInt32} (h : t.processChar cp = some t') : Stored t t' cp := by
  unfold processChar at h
  obtain ⟨u, hu, h⟩ := Option.bind_eq_some_iff.1 h
  obtain ⟨-, hy, hx⟩ := ensureUnpacked_sameParser hu
  have hset (hlt : u.cursorX.toNat < (growCells u.cells (u.cursorX.toNat + 1)).length) :
      ((growCells u.cells (u.cursorX.toNat + 1)).set u.cursorX.toNat cp)[(wrapped t).cursorX.toNat]? =
        some cp := by
    rw [← show u.cursorX = (wrapped t).cursorX from hx, List.getElem?_set_self hlt]
  dsimp only at h
  split at h
  · rename_i hlt
    cases h
    split
    · exact ⟨hset hlt, hy⟩
    · exact ⟨hset hlt, hy⟩
  · cases h

/-- **In the ground state** a character is stored, unless it starts a control sequence. -/
theorem stored_text {p : CodePoint} (ht : At .ground t) (hp : p.value ≠ 0x9b)
    (h : t.run p.bytes = some t') : Stored t t' p.value := by
  obtain ⟨u, rfl, hu⟩ := run_codePoint ht.utf8state h
  unfold processCodePoint at hu
  rw [if_neg hp] at hu
  dsimp only at hu
  rw [ht.state] at hu
  have hstored := stored_processChar hu
  have hx : (wrapped { t with utf8state := UTF8_ACCEPT, utf8codepoint := p.value }).cursorX =
      (wrapped t).cursorX := by
    unfold wrapped
    cases t.linewrap <;> rfl
  have hy : (wrapped { t with utf8state := UTF8_ACCEPT, utf8codepoint := p.value }).cursorY =
      (wrapped t).cursorY := by
    unfold wrapped
    cases t.linewrap <;> rfl
  unfold Stored at hstored ⊢
  rw [ht.state] at hx hy
  rw [hx, hy] at hstored
  exact hstored

/-! ## Resynchronisation -/

/-- After the sequences the parser is in its ground state, and what follows is text. -/
def Resynchronised (t : TerminalEngine) : Prop :=
  t.state = .ground ∧ ∀ (p : CodePoint) (t' : TerminalEngine), p.value ≠ 0x9b →
    t.run p.bytes = some t' → Stored t t' p.value

/-- **Exactly `ESC c`, `ESC D` and `ESC E`** leave the parser out of step. -/
theorem resync_iff (ht : At .ground t) {qs : List Sequence}
    (h : t.run (qs.flatMap Sequence.bytes) = some t') :
    (∀ n ≤ qs.length, ∀ u, t.run ((qs.take n).flatMap Sequence.bytes) = some u →
      Resynchronised u) ↔ ∀ q ∈ qs, q.resets = true := by
  constructor
  · intro hall q hq
    obtain ⟨pre, post, rfl⟩ := List.append_of_mem hq
    rw [List.flatMap_append, List.flatMap_cons] at h
    obtain ⟨u, hu, h⟩ := run_append_eq_some.1 h
    obtain ⟨v, hv, -⟩ := run_append_eq_some.1 h
    have hlast : At (if q.resets then .ground else .esc) v :=
      run_sequence (run_sequences_utf8 ht.utf8state hu) hv
    have htake : (pre ++ q :: post).take (pre.length + 1) = pre ++ [q] := by
      rw [List.take_append, List.take_of_length_le (Nat.le_succ _), Nat.add_sub_cancel_left]
      rfl
    have hground := hall (pre.length + 1) (by simp) v (by
      rw [htake, List.flatMap_append, List.flatMap_singleton]
      exact run_append_eq_some.2 ⟨u, hu, hv⟩)
    cases hresets : q.resets with
    | true => rfl
    | false =>
      rw [hresets] at hlast
      have hstate := hlast.state.symm.trans hground.1
      cases hstate
  · intro hqs n _ u hu
    have hu := run_sequences ht (fun q hq => hqs q (List.mem_of_mem_take hq)) hu
    exact ⟨hu.state, fun p v hp hv => stored_text hu hp hv⟩

/-- A character of one byte. -/
def asciiPoint (byte : UInt8)
    (h : ¬byte < 32 ∧ utf8decode UTF8_ACCEPT 0 byte = (UTF8_ACCEPT, byte.toUInt32)) : CodePoint :=
  ⟨[byte], byte.toUInt32, .last h.1 h.2⟩

/-- `ESC [ 2 C`, with a carriage return in it. -/
def cursorRight : Sequence :=
  .csi [⟨13, by decide⟩] [.point (asciiPoint 0x32 (by decide)) (by decide)]
    (asciiPoint 0x43 (by decide)) (by decide)

theorem cursorRight_resync :
    ∃ u, (start 40).run ([cursorRight].flatMap Sequence.bytes) = some u ∧ Resynchronised u := by
  have hrun : ((start 40).run ([cursorRight].flatMap Sequence.bytes)).isSome = true := by
    decide +kernel
  obtain ⟨u, hu⟩ := Option.isSome_iff_exists.1 hrun
  refine ⟨u, hu, (resync_iff ⟨rfl, rfl⟩ hu).2 ?_ 1 (Nat.le_refl 1) u hu⟩
  intro q hq
  rw [List.mem_singleton.1 hq]
  rfl

/-- `ESC D`. -/
def index : Sequence := .escape [] (asciiPoint 0x44 (by decide)) (by decide)

/-- The `x` behind it is swallowed. -/
theorem index_swallows :
    ((start 40).run index.bytes).map TerminalEngine.state = some .esc ∧
      ((start 40).run (index.bytes ++ [0x78])).map (fun t => (t.state, t.cells)) =
        some (.ground, List.replicate 40 0x20) := by
  decide +kernel

end Recovery.Gui
