import Mathlib.Data.List.Forall2
import Mathlib.Data.List.TakeWhile

/-!
# Word wrap (`GUIScrollList::AddLines`)

Lines of text are broken into pieces that fit the width of a list.

* `wrapPos`, `wrapLoop` — where a line is broken, and the loop over what is left of it.
* `AddLines` — all lines that are new.
* `Fitting` — what is relied on of `gr_ttf_maxExW`.
* `PiecesOf`, `Wraps` — a line in pieces, and a call that adds the pieces of all new lines.
* `Roomy` — no separator but a blank is alone on a line.
* `wrapLoop_pieces`, `wrapLoop_stuck` — a line that is roomy is broken up, one that is not is not.
* `addLines_spec` — the same for a call.

A line that starts with a separator which does not fit together with the next byte is not broken,
and neither is what follows in it (`comma_never_wraps`).
-/

set_option autoImplicit false

namespace Recovery.Gui

/-- The bytes of a line, each as a character. -/
abbrev Line := List Char

/-! ## The code -/

/-- `" ,./:-_;"`. -/
def separators : Line := " ,./:-_;".toList

/-- `find_last_of(separators, n - 1)`. -/
def findLastOf (text : Line) : Nat → Option Nat
  | 0 => none
  | n + 1 => if text[n]?.any (· ∈ separators) then some n else findLastOf text n

/-- Where a line is broken of which `width` bytes fit. -/
def wrapPos (line : Line) (width : Nat) : Nat :=
  match findLastOf line width with
  | none => width
  | some pos => if pos + 1 < width then pos + 1 else pos

/-- What is left of a line after its first bytes, without leading blanks. -/
def continuation (line : Line) (pos : Nat) : Line := (line.drop pos).dropWhile (· = ' ')

/-- The loop over one line. -/
def wrapLoop (maxExW : Line → Nat) : Nat → Line → Option (List Line)
  | 0, _ => none
  | fuel + 1, line =>
    if maxExW line < line.length then
      (wrapLoop maxExW fuel (continuation line (wrapPos line (maxExW line)))).map
        (line.take (wrapPos line (maxExW line)) :: ·)
    else some [line]

/-- What is added to; without `origColor`, `rColor` is not used. -/
structure Rendered where
  lastCount : Nat
  rText : List Line
  rColor : List Line
deriving DecidableEq

/-- The loop over the new lines, with the color of each. -/
def addNew (maxExW : Line → Nat) (fuel : Nat) : List (Line × Option Line) → Rendered → Option Rendered
  | [], r => some r
  | (line, color) :: lines, r =>
    (wrapLoop maxExW fuel line).bind fun pieces =>
      addNew maxExW fuel lines
        { r with
          rText := r.rText ++ pieces
          rColor := r.rColor ++ (color.map (List.replicate pieces.length)).getD [] }

/-- The new lines with their colors; `none` where a line has no color in `origColor`. -/
def withColors (origText : List Line) (origColor : Option (List Line)) (prevCount : Nat) :
    Option (List (Line × Option Line)) :=
  match origColor with
  | none => some ((origText.drop prevCount).map fun line => (line, none))
  | some colors =>
    if origText.length ≤ colors.length ∨ origText.length ≤ prevCount then
      some (((origText.zip colors).drop prevCount).map fun (line, color) => (line, some color))
    else none

/-- `font` is what `gr_ttf_maxExW` says for the font and the width, if there is a font. -/
def AddLines (font : Option (Line → Nat)) (fuel : Nat) (origText : List Line)
    (origColor : Option (List Line)) (r : Rendered) : Option (Bool × Rendered) :=
  match font with
  | none => some (false, r)
  | some maxExW =>
    if r.lastCount = origText.length then some (false, r)
    else
      (withColors origText origColor r.lastCount).bind fun lines =>
        (addNew maxExW fuel lines { r with lastCount := origText.length }).map fun r => (true, r)

/-! ## What it is for -/

/-- `gr_ttf_maxExW` gives the number of leading bytes that fit the width, at least 1 if there are
any; of leading bytes that fit, all fit. -/
structure Fitting (maxExW : Line → Nat) : Prop where
  le_length : ∀ s, maxExW s ≤ s.length
  pos : ∀ s, s ≠ [] → 1 ≤ maxExW s
  take : ∀ s n, n ≤ maxExW s → maxExW (s.take n) = n

/-- What is behind the first of some leading bytes that fit, fits, too. -/
def PartsFit (maxExW : Line → Nat) : Prop :=
  ∀ s n m, m ≤ n → n ≤ maxExW s → n - m ≤ maxExW (s.drop m)

/-- The pieces of a line in order; blanks before a piece but the first may be missing. -/
inductive PiecesOf : Line → List Line → Prop
  | last (line : Line) : PiecesOf line [line]
  | cons {piece blanks rest : Line} {pieces : List Line} (hblanks : ∀ c ∈ blanks, c = ' ')
    (h : PiecesOf rest pieces) : PiecesOf (piece ++ blanks ++ rest) (piece :: pieces)

/-- Every piece fits the width. -/
def AllFit (maxExW : Line → Nat) (pieces : List Line) : Prop :=
  ∀ piece ∈ pieces, maxExW piece = piece.length

/-- The color of its line for each piece. -/
def pieceColors (origColor : Option (List Line)) (prevCount : Nat) (pieces : List (List Line)) :
    List Line :=
  match origColor with
  | none => []
  | some colors => (List.zipWith (fun ps color => List.replicate ps.length color) pieces
      (colors.drop prevCount)).flatten

/-- The call ends, and adds the pieces of all new lines, each with the color of its line. -/
def Wraps (maxExW : Line → Nat) (origText : List Line) (origColor : Option (List Line))
    (r : Rendered) : Prop :=
  ∃ fuel ret r' pieces, AddLines (some maxExW) fuel origText origColor r = some (ret, r') ∧
    r'.lastCount = origText.length ∧ List.Forall₂ PiecesOf (origText.drop r.lastCount) pieces ∧
    (∀ ps ∈ pieces, AllFit maxExW ps) ∧ r'.rText = r.rText ++ pieces.flatten ∧
    r'.rColor = r.rColor ++ pieceColors origColor r.lastCount pieces

/-- No separator but a blank is alone on a line, unless it is the last byte. -/
def Roomy (maxExW : Line → Nat) (line : Line) : Prop :=
  ∀ before c after, line = before ++ c :: after → c ∈ separators → c ≠ ' ' → after ≠ [] →
    2 ≤ maxExW (c :: after)

/-! ## Where a line is broken -/

theorem findLastOf_some {text : Line} {n pos : Nat} (h : findLastOf text n = some pos) :
    pos < n ∧ ∃ c ∈ separators, text[pos]? = some c := by
  induction n with
  | zero => cases h
  | succ n ih =>
    rw [findLastOf] at h
    split at h
    · rename_i hsep
      cases h
      obtain ⟨c, hc, hmem⟩ := (Option.any_eq_true _ _).1 hsep
      exact ⟨Nat.lt_succ_self _, c, by simpa using hmem, hc⟩
    · obtain ⟨hlt, hsep⟩ := ih h
      exact ⟨Nat.lt_succ_of_lt hlt, hsep⟩

theorem wrapPos_le (line : Line) (width : Nat) : wrapPos line width ≤ width := by
  unfold wrapPos
  split
  · exact le_refl _
  · rename_i pos hpos
    have hlt := (findLastOf_some hpos).1
    split
    · lia
    · lia

/-- Only a separator that fits alone is put off to the next line. -/
theorem wrapPos_zero {text : Line} {width : Nat} (hwidth : 1 ≤ width)
    (h : wrapPos text width = 0) : width = 1 ∧ ∃ c ∈ separators, text[0]? = some c := by
  unfold wrapPos at h
  split at h
  · lia
  · rename_i pos hpos
    obtain ⟨hlt, hsep⟩ := findLastOf_some hpos
    split at h
    · lia
    · subst h
      exact ⟨by lia, hsep⟩

/-- A separator that is the last byte to fit is the first one of the next line. -/
theorem wrapPos_separator {before after : Line} {c : Char} (hc : c ∈ separators) :
    wrapPos (before ++ c :: after) (before.length + 1) = before.length := by
  unfold wrapPos
  have hfind : findLastOf (before ++ c :: after) (before.length + 1) = some before.length := by
    rw [findLastOf, if_pos]
    simpa using hc
  rw [hfind]
  simp

theorem continuation_split (line : Line) (pos : Nat) :
    ∃ blanks, (∀ c ∈ blanks, c = ' ') ∧ line = line.take pos ++ blanks ++ continuation line pos := by
  refine ⟨(line.drop pos).takeWhile (· = ' '), ?_, ?_⟩
  · intro c hc
    simpa using List.mem_takeWhile_imp hc
  · rw [List.append_assoc, continuation, List.takeWhile_append_dropWhile, List.take_append_drop]

theorem Roomy.suffix {maxExW : Line → Nat} {line start rest : Line} (h : Roomy maxExW line)
    (hrest : line = start ++ rest) : Roomy maxExW rest := by
  intro before c after heq
  apply h (start ++ before)
  rw [hrest, heq, List.append_assoc]

/-! ## One line -/

theorem length_continuation {line : Line} {pos : Nat} (hpos : 1 ≤ pos) (hline : pos ≤ line.length) :
    (continuation line pos).length < line.length := by
  have hle := (List.dropWhile_suffix (p := (· = ' ')) (l := line.drop pos)).length_le
  rw [List.length_drop] at hle
  unfold continuation
  omega

/-- What is left of a roomy line is shorter. -/
theorem Roomy.shorter {maxExW : Line → Nat} (hfit : Fitting maxExW) {line : Line}
    (h : Roomy maxExW line) (hlong : maxExW line < line.length) :
    (continuation line (wrapPos line (maxExW line))).length < line.length := by
  have hpos : 1 ≤ maxExW line := hfit.pos line (by rintro rfl; cases hlong)
  have hle := wrapPos_le line (maxExW line)
  by_cases hzero : wrapPos line (maxExW line) = 0
  · obtain ⟨hone, c, hc, hfirst⟩ := wrapPos_zero hpos hzero
    obtain ⟨after, rfl⟩ : ∃ after, line = c :: after := by
      cases line with
      | nil => cases hfirst
      | cons a after =>
        cases hfirst
        exact ⟨after, rfl⟩
    have hblank : c = ' ' := by
      by_contra hne
      have hroom := h [] c after rfl hc hne (by rintro rfl; simp [hone] at hlong)
      lia
    rw [hzero, continuation, List.drop_zero, List.dropWhile_cons_of_pos (by simpa using hblank)]
    have hle := (List.dropWhile_suffix (p := (· = ' ')) (l := after)).length_le
    rw [List.length_cons]
    lia
  · exact length_continuation (by lia) (by lia)

/-- **A roomy line** is broken into pieces that fit. -/
theorem wrapLoop_pieces {maxExW : Line → Nat} (hfit : Fitting maxExW) {fuel : Nat} {line : Line}
    (hfuel : line.length < fuel) (h : Roomy maxExW line) :
    ∃ pieces, wrapLoop maxExW fuel line = some pieces ∧ PiecesOf line pieces ∧
      AllFit maxExW pieces := by
  induction fuel generalizing line with
  | zero => cases hfuel
  | succ fuel ih =>
    rw [wrapLoop]
    split
    · rename_i hlong
      obtain ⟨blanks, hblanks, hsplit⟩ := continuation_split line (wrapPos line (maxExW line))
      have hshorter := h.shorter hfit hlong
      obtain ⟨pieces, hloop, hpieces, hall⟩ := ih (by lia) (h.suffix hsplit)
      refine ⟨_, by rw [hloop]; rfl, ?_, ?_⟩
      · have hcons := @PiecesOf.cons (line.take (wrapPos line (maxExW line))) _ _ _ hblanks hpieces
        rwa [← hsplit] at hcons
      · intro piece hpiece
        obtain rfl | hpiece := List.mem_cons.1 hpiece
        · have hle := wrapPos_le line (maxExW line)
          rw [hfit.take line _ hle, List.length_take]
          lia
        · exact hall piece hpiece
    · rename_i hshort
      refine ⟨[line], rfl, .last line, ?_⟩
      intro piece hpiece
      rw [List.mem_singleton.1 hpiece]
      exact le_antisymm (hfit.le_length line) (not_lt.1 hshort)

theorem continuation_keeps {before : Line} {c : Char} (hne : c ≠ ' ') (after : Line) {pos : Nat}
    (hpos : pos ≤ before.length) :
    ∃ before', continuation (before ++ c :: after) pos = before' ++ c :: after := by
  refine ⟨(before.drop pos).dropWhile (· = ' '), ?_⟩
  rw [continuation, List.drop_append_of_le_length hpos, List.dropWhile_append]
  split
  · rename_i hnil
    rw [List.isEmpty_iff.1 hnil, List.dropWhile_cons_of_neg (by simpa using hne)]
    rfl
  · rfl

/-- **A separator alone on a line** is never got past. -/
theorem wrapLoop_stuck {maxExW : Line → Nat} (hparts : PartsFit maxExW)
    {before after : Line} {c : Char} (hc : c ∈ separators) (hne : c ≠ ' ') (hafter : after ≠ [])
    (hone : maxExW (c :: after) < 2) (fuel : Nat) :
    wrapLoop maxExW fuel (before ++ c :: after) = none := by
  induction fuel generalizing before with
  | zero => rfl
  | succ fuel ih =>
    have hlast : 0 < after.length := List.length_pos_iff.2 hafter
    -- the two bytes are not on one line
    have hwidth : maxExW (before ++ c :: after) ≤ before.length + 1 := by
      by_contra hmore
      have hdrop := hparts (before ++ c :: after) (before.length + 2) before.length (by lia)
        (by lia)
      rw [List.drop_left] at hdrop
      lia
    have hpos : wrapPos (before ++ c :: after) (maxExW (before ++ c :: after)) ≤ before.length := by
      by_cases hreach : maxExW (before ++ c :: after) = before.length + 1
      · rw [hreach, wrapPos_separator hc]
      · have hle := wrapPos_le (before ++ c :: after) (maxExW (before ++ c :: after))
        lia
    obtain ⟨before', hrest⟩ := continuation_keeps hne after hpos
    rw [wrapLoop, if_pos (by simp; lia), Option.map_eq_none_iff, hrest]
    exact ih

/-! ## All lines -/

/-- The colors that are added with the pieces of some lines. -/
def addedColors (pieces : List (List Line)) (colors : List (Option Line)) : List Line :=
  (List.zipWith (fun ps color => (color.map (List.replicate ps.length)).getD []) pieces
    colors).flatten

theorem addNew_pieces {maxExW : Line → Nat} {fuel : Nat} {lines : List (Line × Option Line)}
    {r r' : Rendered} (h : addNew maxExW fuel lines r = some r') :
    ∃ pieces, List.Forall₂ (fun line ps => wrapLoop maxExW fuel line = some ps)
        (lines.map Prod.fst) pieces ∧ r'.lastCount = r.lastCount ∧
      r'.rText = r.rText ++ pieces.flatten ∧
      r'.rColor = r.rColor ++ addedColors pieces (lines.map Prod.snd) := by
  induction lines generalizing r with
  | nil =>
    cases h
    exact ⟨[], .nil, rfl, by simp, by simp [addedColors]⟩
  | cons line lines ih =>
    obtain ⟨line, color⟩ := line
    obtain ⟨ps, hps, h⟩ := Option.bind_eq_some_iff.1 h
    obtain ⟨pieces, hpieces, hcount, htext, hcolor⟩ := ih h
    refine ⟨ps :: pieces, .cons hps hpieces, hcount, ?_, ?_⟩
    · rw [htext]
      simp
    · rw [hcolor]
      simp [addedColors]

theorem addNew_defined {maxExW : Line → Nat} {fuel : Nat} {lines : List (Line × Option Line)}
    (h : ∀ line ∈ lines.map Prod.fst, wrapLoop maxExW fuel line ≠ none) (r : Rendered) :
    ∃ r', addNew maxExW fuel lines r = some r' := by
  induction lines generalizing r with
  | nil => exact ⟨r, rfl⟩
  | cons line lines ih =>
    obtain ⟨line, color⟩ := line
    obtain ⟨ps, hps⟩ := Option.ne_none_iff_exists'.1 (h line List.mem_cons_self)
    obtain ⟨r', hr'⟩ := ih (fun line' h' => h line' (List.mem_cons_of_mem _ h')) _
    exact ⟨r', by rw [addNew, hps, Option.bind_some, hr']⟩

theorem withColors_eq {origText : List Line} {origColor : Option (List Line)}
    (hcolors : ∀ colors ∈ origColor, colors.length = origText.length) (prevCount : Nat) :
    ∃ lines, withColors origText origColor prevCount = some lines ∧
      lines.map Prod.fst = origText.drop prevCount ∧
      ∀ pieces, addedColors pieces (lines.map Prod.snd) = pieceColors origColor prevCount pieces := by
  cases origColor with
  | none =>
    refine ⟨_, rfl, by simp [Function.comp_def], fun pieces => ?_⟩
    rw [addedColors, pieceColors, List.flatten_eq_nil_iff, List.map_map, List.zipWith_map_right]
    intro l hl
    rw [List.mem_iff_getElem] at hl
    obtain ⟨i, hi, rfl⟩ := hl
    simp
  | some colors =>
    have hlength := hcolors colors rfl
    refine ⟨_, if_pos (.inl hlength.ge), ?_, fun pieces => ?_⟩
    · rw [List.map_map, List.map_drop]
      congr 1
      exact List.map_fst_zip hlength.ge
    · have hsnd : (((origText.zip colors).drop prevCount).map fun p => (p.1, some p.2)).map Prod.snd =
          (colors.drop prevCount).map some := by
        have hzip : ((origText.zip colors).map Prod.snd).drop prevCount = colors.drop prevCount := by
          rw [List.map_snd_zip hlength.le]
        rw [← hzip, ← List.map_drop, List.map_map, List.map_map]
        rfl
      rw [addedColors, hsnd, List.zipWith_map_right]
      rfl

theorem Fitting.pieces {maxExW : Line → Nat} (hfit : Fitting maxExW) {fuel : Nat}
    {lines : List Line} {pieces : List (List Line)}
    (h : List.Forall₂ (fun line ps => wrapLoop maxExW fuel line = some ps) lines pieces)
    (hfuel : ∀ line ∈ lines, line.length < fuel) (hroomy : ∀ line ∈ lines, Roomy maxExW line) :
    List.Forall₂ PiecesOf lines pieces ∧ ∀ ps ∈ pieces, AllFit maxExW ps := by
  induction h with
  | nil => exact ⟨.nil, nofun⟩
  | cons hps h ih =>
    rw [List.forall_mem_cons] at hfuel hroomy
    obtain ⟨ps, hloop, hpieces, hall⟩ := wrapLoop_pieces hfit hfuel.1 hroomy.1
    obtain ⟨hrest, hrest'⟩ := ih hfuel.2 hroomy.2
    cases hps.symm.trans hloop
    exact ⟨.cons hpieces hrest, List.forall_mem_cons.2 ⟨hall, hrest'⟩⟩

theorem exists_of_forall₂ {α β : Type} {R : α → β → Prop} {as : List α} {bs : List β}
    (h : List.Forall₂ R as bs) {a : α} (ha : a ∈ as) : ∃ b, R a b := by
  induction h with
  | nil => cases ha
  | cons hr h ih =>
    obtain rfl | ha := List.mem_cons.1 ha
    · exact ⟨_, hr⟩
    · exact ih ha

/-- **Word wrap**: if all new lines are roomy, the call ends and adds the pieces of all of them;
otherwise it does not. -/
theorem addLines_spec {maxExW : Line → Nat} (hfit : Fitting maxExW) {origText : List Line}
    {origColor : Option (List Line)} {r : Rendered}
    (hcolors : ∀ colors ∈ origColor, colors.length = origText.length) :
    ((∀ line ∈ origText.drop r.lastCount, Roomy maxExW line) →
        Wraps maxExW origText origColor r) ∧
      (PartsFit maxExW → Wraps maxExW origText origColor r →
        ∀ line ∈ origText.drop r.lastCount, Roomy maxExW line) := by
  obtain ⟨lines, hlines, htext, hcolor⟩ := withColors_eq hcolors r.lastCount
  constructor
  · intro hroomy
    by_cases hnew : r.lastCount = origText.length
    · refine ⟨0, false, r, [], if_pos hnew, hnew, ?_, nofun, by simp, ?_⟩
      · rw [hnew, List.drop_length]
        exact .nil
      · rw [← hcolor []]
        simp [addedColors]
    · have hfuel : ∀ line ∈ origText.drop r.lastCount,
          line.length < (origText.drop r.lastCount).flatten.length + 1 := by
        intro line hline
        exact Nat.lt_succ_of_le (List.sublist_flatten_of_mem hline).length_le
      obtain ⟨r', hr'⟩ := @addNew_defined maxExW _ lines (by
        rw [htext]
        intro line hline
        obtain ⟨ps, hps, -⟩ := wrapLoop_pieces hfit (hfuel line hline) (hroomy line hline)
        rw [hps]
        nofun) { r with lastCount := origText.length }
      obtain ⟨pieces, hpieces, hcount, htext', hcolor'⟩ := addNew_pieces hr'
      rw [htext] at hpieces
      rw [hcolor] at hcolor'
      obtain ⟨hall, hfits⟩ := hfit.pieces hpieces hfuel hroomy
      refine ⟨(origText.drop r.lastCount).flatten.length + 1, true, r', pieces, ?_, hcount, hall, hfits,
        htext', hcolor'⟩
      rw [AddLines, if_neg hnew, hlines, Option.bind_some, hr', Option.map_some]
  · intro hparts hwraps line hline before c after heq hc hne hafter
    by_contra hone
    obtain ⟨fuel, ret, r', -, hadd, -⟩ := hwraps
    have hnew : r.lastCount ≠ origText.length := by
      intro hall
      rw [hall, List.drop_length] at hline
      cases hline
    rw [AddLines, if_neg hnew, hlines, Option.bind_some] at hadd
    obtain ⟨r'', hr'', -⟩ := Option.map_eq_some_iff.1 hadd
    obtain ⟨pieces, hpieces, -⟩ := addNew_pieces hr''
    rw [htext] at hpieces
    obtain ⟨ps, hps⟩ := exists_of_forall₂ hpieces hline
    rw [heq, wrapLoop_stuck hparts hc hne hafter (by omega)] at hps
    cases hps

/-- A width of ten characters. -/
def tenWide (s : Line) : Nat := min 10 s.length

theorem addLines_spec_tenWide :
    Wraps tenWide ["Updating partition details...".toList, "done".toList]
      (some ["normal".toList, "green".toList]) ⟨0, [], []⟩ := by
  refine (addLines_spec ⟨?_, ?_, ?_⟩ ?_).1 ?_
  · exact fun s => min_le_right 10 s.length
  · intro s hs
    have hpos := List.length_pos_iff.2 hs
    unfold tenWide
    omega
  · intro s n hn
    unfold tenWide at hn ⊢
    rw [List.length_take]
    omega
  · rintro colors ⟨⟩
    rfl
  · intro line _ before c after _ _ _ hafter
    have hpos := List.length_pos_iff.2 hafter
    unfold tenWide
    rw [List.length_cons]
    omega

/-- A list as wide as one character, and a comma in a line. -/
theorem comma_never_wraps :
    ¬ Wraps (fun s => min 1 s.length) ["a,b".toList] none ⟨0, [], []⟩ := by
  rintro ⟨fuel, ret, r, pieces, hadd, -⟩
  have hstuck := @wrapLoop_stuck (fun s => min 1 s.length) (fun s n m hm hn => by
    dsimp only at hn ⊢
    rw [List.length_drop]
    omega) ['a'] ['b'] ',' (by decide) (by decide) (by decide) (by decide) fuel
  have hline : "a,b".toList = ['a'] ++ ',' :: ['b'] := rfl
  rw [AddLines, if_neg (by decide), withColors, Option.bind_some] at hadd
  rw [hline, List.drop_zero, List.map_singleton, addNew, hstuck] at hadd
  cases hadd

end Recovery.Gui
