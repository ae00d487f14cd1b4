import Recovery.Gui.Terminal

/-!
# Bounds of the terminal's state

* `Inv` — the cursor is in the window's columns and on a line, and the unpacked line is one.
* `EraseOk`, `StepOk` — what an erase towards the start of the line or the page needs.
* `output_iff` — from a state within bounds, a byte is processed within bounds and leaves such a
  state exactly when `StepOk` holds of it.
* `run_iff` — the same at every step of every run from the start.

The terminal is fed by the program that runs in it, so every sequence of bytes is an input.  Only
the two erase commands leave the bounds, and `erased_line_overrun` is a run in which one does.
-/

set_option autoImplicit false

namespace Recovery.Gui.TerminalEngine

open Recovery.Lib

/-! ## The invariant -/

structure Inv (t : TerminalEngine) : Prop where
  width : 0 ≤ t.width
  cursorX_nonneg : 0 ≤ t.cursorX
  cursorX_le : t.cursorX ≤ t.width
  cursorY_nonneg : 0 ≤ t.cursorY
  cursorY_lt : t.cursorY < t.lines.length
  unpackedY_lt : t.unpackedY < t.lines.length

theorem start_inv (width : Nat) : Inv (start width) where
  width := Int.natCast_nonneg width
  cursorX_nonneg := Int.le_refl 0
  cursorX_le := Int.natCast_nonneg width
  cursorY_nonneg := Int.le_refl 0
  cursorY_lt := Int.zero_lt_one
  unpackedY_lt := Nat.zero_lt_one

variable {t : TerminalEngine}

theorem setX_inv (h : Inv t) (x : Int) : Inv (t.setX x) := by
  have hw := h.width
  refine { h with cursorX_nonneg := ?_, cursorX_le := ?_ }
  · show 0 ≤ min t.width (max x 0)
    omega
  · show min t.width (max x 0) ≤ t.width
    omega

theorem setY_length (y : Int) :
    (t.setY y).lines.length = max t.lines.length ((max y 0).toNat + 1) := by
  show (t.lines ++ List.replicate ((max y 0).toNat + 1 - t.lines.length) []).length = _
  rw [List.length_append, List.length_replicate]
  lia

theorem setY_inv (h : Inv t) (y : Int) : Inv (t.setY y) := by
  have hlen := setY_length (t := t) y
  have hu := h.unpackedY_lt
  refine { h with cursorY_nonneg := Int.le_max_right y 0, cursorY_lt := ?_, unpackedY_lt := ?_ }
  · show max y 0 < ((t.setY y).lines.length : Int)
    lia
  · show t.unpackedY < (t.setY y).lines.length
    lia

theorem up_inv (h : Inv t) (n : Int) : Inv (t.up n) := setY_inv h _

theorem down_inv (h : Inv t) (n : Int) : Inv (t.down n) := setY_inv h _

theorem left_inv (h : Inv t) (n : Int) : Inv (t.left n) := setX_inv h _

theorem right_inv (h : Inv t) (n : Int) : Inv (t.right n) := setX_inv h _

theorem tabLoop_inv (fuel : Nat) (h : Inv t) : Inv (tabLoop fuel t) := by
  induction fuel generalizing t with
  | zero => exact h
  | succ fuel ih =>
    rw [tabLoop]
    split
    · exact ih (right_inv h 1)
    · exact h

theorem processC0_inv (h : Inv t) (ch : UInt8) : Inv (t.processC0 ch) := by
  unfold processC0
  split
  · exact left_inv h 1
  · exact tabLoop_inv 8 (right_inv h 1)
  · exact down_inv h 1
  · exact down_inv h 1
  · exact down_inv h 1
  · exact setX_inv h 0
  · exact { h with }
  · exact { h with }
  · exact { h with }
  · exact h

/-! ## The unpacked line -/

/-- The line of the cursor becomes the unpacked one.  A line that was not unpacked is as wide as the
window afterwards. -/
structure Unpacked (t t' : TerminalEngine) : Prop where
  cursorX : t'.cursorX = t.cursorX
  cursorY : t'.cursorY = t.cursorY
  width : t'.width = t.width
  length : t'.lines.length = t.lines.length
  unpackedY : (t'.unpackedY : Int) = t.cursorY
  cells : (t.unpackedY : Int) = t.cursorY → t'.cells = t.cells
  wide : (t.unpackedY : Int) ≠ t.cursorY → t.width.toNat ≤ t'.cells.length

theorem ensureUnpacked_ok (h : Inv t) : ∃ t', t.ensureUnpacked t.cursorY = some t' ∧ Unpacked t t' := by
  unfold ensureUnpacked
  have hy := h.cursorY_nonneg
  split
  · rename_i hne
    have hlen : t.cursorY.toNat < (t.lines.set t.unpackedY (t.cells.flatMap utf8add)).length := by
      have := h.cursorY_lt
      rw [List.length_set]
      omega
    rw [packLine, if_pos h.unpackedY_lt]
    refine ⟨_, congrArg (Option.map _) (List.getElem?_eq_getElem hlen), rfl, rfl, rfl,
      List.length_set, ?_, fun he => absurd he hne, fun _ => ?_⟩
    · exact Int.toNat_of_nonneg hy
    · show t.width.toNat ≤ (growCells _ t.width.toNat).length
      rw [growCells, List.length_append, List.length_replicate]
      omega
  · rename_i heq
    rw [not_not] at heq
    exact ⟨t, rfl, rfl, rfl, rfl, rfl, heq, fun _ => rfl, fun hne => absurd heq hne⟩

theorem Unpacked.inv {t' : TerminalEngine} (hu : Unpacked t t') (h : Inv t) : Inv t' where
  width := hu.width ▸ h.width
  cursorX_nonneg := hu.cursorX ▸ h.cursorX_nonneg
  cursorX_le := by rw [hu.cursorX, hu.width]; exact h.cursorX_le
  cursorY_nonneg := hu.cursorY ▸ h.cursorY_nonneg
  cursorY_lt := by rw [hu.cursorY, hu.length]; exact h.cursorY_lt
  unpackedY_lt := by
    have := hu.unpackedY
    have := h.cursorY_lt
    rw [hu.length]
    lia

/-- A cursor inside the unpacked line needs the line to be as long. -/
theorem Unpacked.reached {t' : TerminalEngine} (hu : Unpacked t t') (h : Inv t) :
    t'.cursorX.toNat ≤ t'.cells.length ↔
      ((t.unpackedY : Int) = t.cursorY → t.cursorX ≤ t.cells.length) := by
  have hx := h.cursorX_nonneg
  rw [hu.cursorX]
  by_cases he : (t.unpackedY : Int) = t.cursorY
  · rw [hu.cells he]
    constructor
    · intro hle _
      lia
    · intro hle
      have := hle he
      lia
  · have hw := hu.wide he
    have hc := h.cursorX_le
    constructor
    · intro _ he'
      exact absurd he' he
    · intro _
      lia

theorem processChar_ok (h : Inv t) (cp : UInt32) :
    ∃ t', t.processChar cp = some t' ∧ Inv t' := by
  obtain ⟨u, hu⟩ : ∃ u, u = if t.linewrap then (t.down 1).setX 0 else t := ⟨_, rfl⟩
  have hui : Inv u := by
    rw [hu]
    split
    · exact setX_inv (down_inv h 1) 0
    · exact h
  obtain ⟨v, hv, hvu⟩ := ensureUnpacked_ok hui
  have hvi := hvu.inv hui
  have hlt : v.cursorX.toNat < (growCells v.cells (v.cursorX.toNat + 1)).length := by
    rw [growCells, List.length_append, List.length_replicate]
    omega
  unfold processChar
  rw [← hu]
  simp only [hv, Option.bind_eq_bind, Option.bind_some, if_pos hlt]
  refine ⟨_, rfl, ?_⟩
  have hw : Inv { v with
      cells := (growCells v.cells (v.cursorX.toNat + 1)).set v.cursorX.toNat cp } := { hvi with }
  have hr := right_inv hw 1
  split
  · exact { hr with }
  · exact hr

theorem processEsc_inv (h : Inv t) (cp : UInt32) : Inv (t.processEsc cp) := by
  unfold processEsc
  split
  · exact h
  · exact down_inv h 1
  · exact down_inv (setX_inv h 0) 1
  · exact { h with }
  · exact { h with }

theorem clear_ok (h : Inv t) : ∃ t', t.clear = some t' ∧ Inv t' :=
  ⟨_, rfl, {
    width := h.width
    cursorX_nonneg := Int.le_refl 0
    cursorX_le := h.width
    cursorY_nonneg := Int.le_refl 0
    cursorY_lt := Int.zero_lt_one
    unpackedY_lt := Nat.zero_lt_one }⟩

/-! ## Erasing -/

theorem eraseTo_eq_some {x : Nat} {t' : TerminalEngine} :
    t.eraseTo x = some t' ↔ x ≤ t.cells.length ∧ t' = { t with cells := t.cells.drop x } := by
  unfold eraseTo
  split <;> rename_i hx
  · simp [hx, eq_comm]
  · simp [hx]

/-- The step leaves a state within bounds. -/
def Safe (o : Option TerminalEngine) : Prop := ∃ t', o = some t' ∧ Inv t'

theorem safe_some {t' : TerminalEngine} : Safe (some t') ↔ Inv t' := by
  constructor
  · rintro ⟨u, hu, hi⟩
    obtain rfl : t' = u := Option.some.inj hu
    exact hi
  · intro hi
    exact ⟨t', rfl, hi⟩

theorem eraseInLine_iff (h : Inv t) (param : Int) :
    Safe (t.eraseInLine param) ↔
      (param = 1 → (t.unpackedY : Int) = t.cursorY → t.cursorX ≤ t.cells.length) := by
  obtain ⟨u, hu, hut⟩ := ensureUnpacked_ok h
  have hui := hut.inv h
  unfold eraseInLine
  simp only [hu, Option.bind_eq_bind, Option.bind_some]
  split
  · rename_i hp
    have hreach := hut.reached h
    constructor
    · rintro ⟨t', ht', -⟩ -
      exact hreach.1 (eraseTo_eq_some.1 ht').1
    · intro hc
      exact ⟨_, eraseTo_eq_some.2 ⟨hreach.2 (hc hp), rfl⟩, { hui with }⟩
  · rename_i hp
    refine iff_of_true ?_ fun h1 => absurd h1 hp
    split
    · exact ⟨_, rfl, { hui with }⟩
    · exact ⟨_, rfl, { hui with }⟩

theorem eraseInPage_iff (h : Inv t) (param : Int) :
    Safe (t.eraseInPage param) ↔
      (param = 1 → ((t.unpackedY : Int) = t.cursorY → t.cursorX ≤ t.cells.length) ∧
        2 * t.cursorY ≤ t.lines.length) := by
  obtain ⟨u, hu, hut⟩ := ensureUnpacked_ok h
  have hui := hut.inv h
  have hreach := hut.reached h
  have hy := hut.unpackedY
  have hylt := hui.cursorY_lt
  have hy0 := hui.cursorY_nonneg
  rw [← hut.cursorY] at hy
  unfold eraseInPage
  simp only [hu, Option.bind_eq_bind, Option.bind_some]
  split
  · rename_i hp
    rw [← hreach, ← hut.cursorY, ← hut.length]
    constructor
    · rintro ⟨t', ht', hi⟩ -
      obtain ⟨v, hv, ht'⟩ := Option.bind_eq_some_iff.1 ht'
      obtain ⟨hx, rfl⟩ := eraseTo_eq_some.1 hv
      refine ⟨hx, ?_⟩
      dsimp only at ht'
      split at ht'
      · rw [if_pos (by omega)] at ht'
        obtain rfl := Option.some.inj ht'
        have hl : u.unpackedY < (u.lines.drop (u.cursorY - 1).toNat).length := hi.unpackedY_lt
        rw [List.length_drop] at hl
        omega
      · omega
    · intro hc
      obtain ⟨hx, hl⟩ := hc hp
      rw [eraseTo_eq_some.2 ⟨hx, rfl⟩]
      dsimp only [Option.bind_some]
      split
      · rw [if_pos (by omega)]
        refine ⟨_, rfl, { hui with
          cursorY_nonneg := Int.le_refl 0, cursorY_lt := ?_, unpackedY_lt := ?_ }⟩
        · show (0 : Int) < (u.lines.drop (u.cursorY - 1).toNat).length
          rw [List.length_drop]
          omega
        · show u.unpackedY < (u.lines.drop (u.cursorY - 1).toNat).length
          rw [List.length_drop]
          omega
      · exact ⟨_, rfl, { hui with }⟩
  · rename_i hp
    refine iff_of_true ?_ fun h1 => absurd h1 hp
    split
    · exact clear_ok hui
    · refine ⟨_, rfl, { hui with cursorY_lt := ?_, unpackedY_lt := ?_ }⟩
      · show u.cursorY < (u.lines.take (u.cursorY.toNat + 1)).length
        rw [List.length_take]
        omega
      · show u.unpackedY < (u.lines.take (u.cursorY.toNat + 1)).length
        rw [List.length_take]
        omega

/-- What an erase in the line or the page needs: erasing up to the cursor needs the unpacked line to
reach the cursor, and in the page also as many lines from the cursor on as there are above it. -/
def EraseOk (t : TerminalEngine) (seq : List Char) : Prop :=
  (parseArg seq 0).1 = 1 →
    (seq.getLast? = some 'J' ∨ seq.getLast? = some 'K' →
      (t.unpackedY : Int) = t.cursorY → t.cursorX ≤ t.cells.length) ∧
    (seq.getLast? = some 'J' → 2 * t.cursorY ≤ t.lines.length)

theorem execControlSequence_iff (h : Inv t) (seq : List Char) :
    Safe (t.execControlSequence seq) ↔ EraseOk t seq := by
  -- every function but the two erases keeps the bounds
  have hmove {u : TerminalEngine} (hu : Inv u) {c : Char} (hc : seq.getLast? = some c)
      (hJ : c ≠ 'J') (hK : c ≠ 'K') : Safe (some u) ↔ EraseOk t seq := by
    refine iff_of_true (safe_some.2 hu) fun _ => ⟨?_, ?_⟩
    · rintro (hl | hl)
      · exact absurd (Option.some.inj (hc.symm.trans hl)) hJ
      · exact absurd (Option.some.inj (hc.symm.trans hl)) hK
    · intro hl
      exact absurd (Option.some.inj (hc.symm.trans hl)) hJ
  unfold execControlSequence
  split
  · rename_i hseq
    exact hmove h (c := 'n') (by rw [hseq]; rfl) (by decide) (by decide)
  · split
    · exact hmove (up_inv h _) ‹_› (by decide) (by decide)
    · exact hmove (down_inv h _) ‹_› (by decide) (by decide)
    · exact hmove (down_inv h _) ‹_› (by decide) (by decide)
    · exact hmove (right_inv h _) ‹_› (by decide) (by decide)
    · exact hmove (right_inv h _) ‹_› (by decide) (by decide)
    · exact hmove (left_inv h _) ‹_› (by decide) (by decide)
    · exact hmove (setX_inv (down_inv h _) 0) ‹_› (by decide) (by decide)
    · exact hmove (setX_inv (up_inv h _) 0) ‹_› (by decide) (by decide)
    · exact hmove (setX_inv h _) ‹_› (by decide) (by decide)
    · exact hmove (setX_inv (setY_inv h _) _) ‹_› (by decide) (by decide)
    · rename_i hl
      rw [eraseInPage_iff h]
      simp [EraseOk, hl]
    · rename_i hl
      rw [eraseInLine_iff h]
      simp [EraseOk, hl]
    · rename_i hJ hK
      refine iff_of_true (safe_some.2 h) fun _ => ⟨?_, fun hl => absurd hl hJ⟩
      rintro (hl | hl)
      · exact absurd hl hJ
      · exact absurd hl hK

/-! ## One byte -/

theorem processControlSequence_iff (h : Inv t) (cp : UInt32) :
    Safe (t.processControlSequence cp) ↔
      (isFinal cp = true → EraseOk t (t.ctlseq ++ [Char.ofNat cp.toNat])) := by
  unfold processControlSequence
  split
  · rename_i hf
    rw [← execControlSequence_iff h, forall_prop_of_true hf]
    constructor
    · rintro ⟨t', ht', hi⟩
      obtain ⟨u, hu, ht'⟩ := Option.bind_eq_some_iff.1 ht'
      obtain rfl := Option.some.inj ht'
      exact ⟨u, hu, { hi with }⟩
    · rintro ⟨u, hu, hi⟩
      dsimp only
      rw [hu]
      exact ⟨_, rfl, { hi with }⟩
  · rename_i hf
    refine iff_of_true ?_ fun hf' => absurd hf' hf
    dsimp only
    split
    · exact ⟨_, rfl, { h with }⟩
    · exact ⟨_, rfl, h⟩

/-- What a byte needs: the control sequence that it completes, if any, is no erase out of bounds. -/
def StepOk (t : TerminalEngine) (ch : UInt8) : Prop :=
  ¬ ch < 32 → (utf8decode t.utf8state t.utf8codepoint ch).1 = UTF8_ACCEPT → t.state = .csi →
    (utf8decode t.utf8state t.utf8codepoint ch).2 ≠ 0x9b →
    isFinal (utf8decode t.utf8state t.utf8codepoint ch).2 = true →
    EraseOk t (t.ctlseq ++ [Char.ofNat (utf8decode t.utf8state t.utf8codepoint ch).2.toNat])

theorem processCodePoint_iff (h : Inv t) (cp : UInt32) :
    Safe (t.processCodePoint cp) ↔
      (t.state = .csi → cp ≠ 0x9b → isFinal cp = true →
        EraseOk t (t.ctlseq ++ [Char.ofNat cp.toNat])) := by
  unfold processCodePoint
  split
  · rename_i h9b
    exact iff_of_true ⟨_, rfl, { h with }⟩ fun _ hne => absurd h9b hne
  · rename_i h9b
    cases hs : t.state with
    | ground => exact iff_of_true (processChar_ok h cp) fun hc => by cases hc
    | esc => exact iff_of_true ⟨_, rfl, processEsc_inv h cp⟩ fun hc => by cases hc
    | csi =>
      dsimp only
      rw [processControlSequence_iff h]
      simp [h9b]

/-- **A byte is processed within bounds, and leaves a state within bounds, exactly when the control
sequence that it completes is no erase out of bounds.** -/
theorem output_iff (h : Inv t) (ch : UInt8) : Safe (t.output ch) ↔ StepOk t ch := by
  unfold output StepOk
  split
  · rename_i hc
    have hi := processC0_inv h ch
    exact iff_of_true ⟨_, rfl, { hi with }⟩ fun hne => absurd hc hne
  · rename_i hc
    dsimp only
    split
    · rename_i hrc
      rw [processCodePoint_iff (t := { t with
        utf8state := (utf8decode t.utf8state t.utf8codepoint ch).1
        utf8codepoint := (utf8decode t.utf8state t.utf8codepoint ch).2 }) { h with }]
      rw [forall_prop_of_true hc, forall_prop_of_true hrc]
      rfl
    · rename_i hrc
      refine iff_of_true ?_ fun _ hrc' => absurd hrc' hrc
      split
      · exact ⟨_, rfl, { h with }⟩
      · exact ⟨_, rfl, { h with }⟩

/-! ## Runs -/

theorem run_snoc (bytes : List UInt8) (ch : UInt8) :
    t.run (bytes ++ [ch]) = (t.run bytes).bind fun u => u.output ch := by
  unfold run
  rw [List.foldlM_append]
  simp

/-- **At every step of every run the cursor, the unpacked line and the accesses are within bounds
exactly when no byte completes an erase out of bounds.** -/
theorem run_iff (width : Nat) (bytes : List UInt8) :
    (∀ n, Safe ((start width).run (bytes.take n))) ↔
      ∀ n ch u, bytes[n]? = some ch → (start width).run (bytes.take n) = some u → StepOk u ch := by
  constructor
  · intro hs n ch u hch hu
    obtain ⟨v, hv, hi⟩ := hs n
    obtain rfl : v = u := Option.some.inj (hv.symm.trans hu)
    rw [← output_iff hi]
    have hn := hs (n + 1)
    rw [List.take_add_one, hch, Option.toList_some, run_snoc, hu] at hn
    exact hn
  · intro hs n
    induction n with
    | zero => exact ⟨start width, rfl, start_inv width⟩
    | succ n ih =>
      obtain ⟨u, hu, hi⟩ := ih
      cases hch : bytes[n]? with
      | none =>
        rw [List.take_add_one, hch, Option.toList_none, List.append_nil]
        exact ⟨u, hu, hi⟩
      | some ch =>
        rw [List.take_add_one, hch, Option.toList_some, run_snoc, hu]
        exact (output_iff hi ch).2 (hs n ch u hch hu)

/-- "ESC [ K ESC [ C ESC [ 1 K": an erase to the end of the line leaves it empty, and the erase from
its start then removes a cell that the line no longer has. -/
theorem erased_line_overrun :
    ¬ ∀ (width : Nat) (bytes : List UInt8) (n : Nat),
      Safe ((start width).run (bytes.take n)) := by
  intro h
  have hnone : (start 40).run [27, 91, 75, 27, 91, 67, 27, 91, 49, 75] = none := by decide +kernel
  obtain ⟨t, ht, -⟩ := h 40 [27, 91, 75, 27, 91, 67, 27, 91, 49, 75] 10
  cases hnone.symm.trans ht

/-- Three line feeds and "ESC [ 1 J": two lines are left, and the unpacked line is number 3. -/
example : ((start 40).run [10, 10, 10, 27, 91, 49, 74]).map
    (fun t => (t.lines.length, t.unpackedY)) = some (2, 3) := by decide +kernel

end Recovery.Gui.TerminalEngine
