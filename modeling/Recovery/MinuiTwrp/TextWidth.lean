import Recovery.MinuiTwrp.StringCache
import Recovery.MinuiTwrp.TrueType

/-!
# How much of a text fits (`gr_ttf_maxExW`)

* `gr_ttf_maxExW` — the bytes that were rendered, when the text has been; else its own loop.
* `textWidth` — advances and kerning, as they are rendered; `Longest` — the longest prefix that fits.
* `renderChars_prefix` — rendering stops behind the first character that is too much.
* `maxExWChars_max_bytes` — measuring counts the whole text only when nothing of it is too much.
* `Fits` — every character has a glyph, and there is room for it.
* `maxExW_agrees` — measuring, rendering and the longest prefix are the same exactly when the text
  fits; `rendered_differs` — they are not.
-/

set_option autoImplicit false

namespace Recovery.MinuiTwrp

open Recovery.Memory

/-- With the string cache as it is. -/
def gr_ttf_maxExW (f : Font) (s : StringCache) (text : Text) (max_width : Int) : Access Int :=
  match hashmapGet s.string_cache ⟨text, max_width⟩ with
  | some p =>
    match s.heap.cells p with
    | some e => .ok e.data.rendered_bytes
    | none => .error .outOfBounds
  | none => maxExWText f text max_width

/-- What renders the texts that are put into the cache; a text that makes the loop leave its buffers
may give anything. -/
structure Renderer (f : Font) where
  render : Text → Int → Int × Int
  agrees : ∀ text max_width r, gr_ttf_render_text f text max_width = .ok r →
    render text max_width = r

/-! ### The width of a text -/

namespace Font

variable (f : Font)

def index (c : Char) : Int := f.FT_Get_Char_Index c.toNat

/-- The width of a text behind a glyph; a character without glyph takes no room. -/
def widthFrom : Int → List Char → Int
  | _, [] => 0
  | prev_idx, c :: cs =>
    (match f.advance (f.index c) with
      | some adv => adv + f.kern prev_idx (f.index c)
      | none => 0) + widthFrom (f.index c) cs

/-- The last glyph. -/
def lastFrom : Int → List Char → Int
  | prev_idx, [] => prev_idx
  | _, c :: cs => lastFrom (f.index c) cs

def textWidth (cs : List Char) : Int := f.widthFrom 0 cs

/-- The bytes of the longest prefix whose width is in the limit. -/
def Longest (max_width : Int) (cs : List Char) (n : Int) : Prop :=
  ∃ pre, pre <+: cs ∧ n = (encode pre).length ∧ f.textWidth pre ≤ max_width ∧
    ∀ pre', pre' <+: cs → f.textWidth pre' ≤ max_width → pre'.length ≤ pre.length

/-- There is room for every character, behind `total_w` pixels. -/
def FitsFrom (max_width total_w prev_idx : Int) (cs : List Char) : Prop :=
  ∀ pre c post, cs = pre ++ c :: post → (f.advance (f.index c)).isSome ∧
    total_w + f.widthFrom prev_idx pre + f.kern (f.lastFrom prev_idx pre) (f.index c) ≤ max_width ∧
    total_w + f.widthFrom prev_idx (pre ++ [c]) ≤ max_width

/-- Every character has a glyph, and there is room for what comes before it with the kerning, and
for the glyph. -/
def Fits (max_width : Int) (cs : List Char) : Prop :=
  ∀ pre c post, cs = pre ++ c :: post → (f.advance (f.index c)).isSome ∧
    f.textWidth pre + f.kern (f.lastFrom 0 pre) (f.index c) ≤ max_width ∧
    f.textWidth (pre ++ [c]) ≤ max_width

variable {f} {max_width total_w prev_idx : Int} {c : Char} {cs : List Char}

theorem widthFrom_some {adv : Int} (h : f.advance (f.index c) = some adv) :
    f.widthFrom prev_idx (c :: cs) =
      adv + f.kern prev_idx (f.index c) + f.widthFrom (f.index c) cs := by
  rw [widthFrom, h]

theorem widthFrom_none (h : f.advance (f.index c) = none) :
    f.widthFrom prev_idx (c :: cs) = f.widthFrom (f.index c) cs := by
  rw [widthFrom, h, Int.zero_add]

theorem fits_iff : f.Fits max_width cs ↔ f.FitsFrom max_width 0 0 cs := by
  simp only [Fits, FitsFrom, textWidth, Int.zero_add]

theorem fitsFrom_nil : f.FitsFrom max_width total_w prev_idx [] := by
  intro pre c post h
  simp at h

theorem fitsFrom_cons : f.FitsFrom max_width total_w prev_idx (c :: cs) ↔
    ∃ adv, f.advance (f.index c) = some adv ∧
      total_w + f.kern prev_idx (f.index c) ≤ max_width ∧
      total_w + (adv + f.kern prev_idx (f.index c)) ≤ max_width ∧
      f.FitsFrom max_width (total_w + (adv + f.kern prev_idx (f.index c))) (f.index c) cs := by
  constructor
  · intro h
    obtain ⟨hglyph, hkern, hwidth⟩ := h [] c cs rfl
    obtain ⟨adv, hadv⟩ := Option.isSome_iff_exists.1 hglyph
    refine ⟨adv, hadv, ?_, ?_, ?_⟩
    · simpa [widthFrom, lastFrom] using hkern
    · simpa [widthFrom, hadv] using hwidth
    · rintro pre c' post rfl
      have := h (c :: pre) c' post rfl
      simpa only [List.cons_append, widthFrom, lastFrom, hadv, ← Int.add_assoc] using this
  · rintro ⟨adv, hadv, hkern, hwidth, hrest⟩ pre c' post h
    cases pre with
    | nil =>
      obtain ⟨rfl, rfl⟩ := List.cons.inj h
      refine ⟨by rw [hadv]; rfl, ?_, ?_⟩
      · simpa [widthFrom, lastFrom] using hkern
      · simpa [widthFrom, hadv] using hwidth
    | cons c'' pre =>
      obtain ⟨rfl, rfl⟩ := List.cons.inj h
      have := hrest pre c' post rfl
      simpa only [List.cons_append, widthFrom, lastFrom, hadv, ← Int.add_assoc] using this

/-- As `gr_ttf_maxExW` has it: nothing is asked of the width behind the last character. -/
def Measured (f : Font) (max_width : Int) : Int → Int → List Char → Prop
  | _, _, [] => True
  | total_w, prev_idx, c :: cs =>
    total_w + f.kern prev_idx (f.index c) ≤ max_width ∧
    ∃ adv, f.advance (f.index c) = some adv ∧
      f.Measured max_width (total_w + f.kern prev_idx (f.index c) + adv) (f.index c) cs

theorem prefix_cons_iff {p : List Char → Prop} (hnil : p []) :
    (∀ pre, pre <+: c :: cs → p pre) ↔ ∀ pre, pre <+: cs → p (c :: pre) := by
  constructor
  · intro h pre hpre
    exact h (c :: pre) (List.cons_prefix_cons.2 ⟨rfl, hpre⟩)
  · intro h pre hpre
    cases pre with
    | nil => exact hnil
    | cons c' pre =>
      obtain ⟨rfl, hpre'⟩ := List.cons_prefix_cons.1 hpre
      exact h pre hpre'

/-- The width is asked for in the middle and at the end. -/
theorem fitsFrom_iff_measured (ht : total_w ≤ max_width) :
    f.FitsFrom max_width total_w prev_idx cs ↔ f.Measured max_width total_w prev_idx cs ∧
      ∀ pre, pre <+: cs → total_w + f.widthFrom prev_idx pre ≤ max_width := by
  induction cs generalizing total_w prev_idx with
  | nil =>
    refine iff_of_true fitsFrom_nil ⟨trivial, fun pre hpre => ?_⟩
    rw [List.prefix_nil.1 hpre, widthFrom, Int.add_zero]
    exact ht
  | cons c cs ih =>
    have hnil : total_w + f.widthFrom prev_idx [] ≤ max_width := by
      rwa [widthFrom, Int.add_zero]
    rw [fitsFrom_cons, Measured, prefix_cons_iff (by exact hnil)]
    constructor
    · rintro ⟨adv, hadv, hkern, hwidth, hrest⟩
      obtain ⟨hmeasured, hpre⟩ := (ih hwidth).1 hrest
      refine ⟨⟨hkern, adv, hadv, ?_⟩, fun pre hp => ?_⟩
      · rwa [Int.add_assoc, Int.add_comm (f.kern _ _)]
      · have := hpre pre hp
        rw [widthFrom_some hadv]
        lia
    · rintro ⟨⟨hkern, adv, hadv, hmeasured⟩, hpre⟩
      have hwidth := hpre [] List.nil_prefix
      rw [widthFrom_some hadv, widthFrom, Int.add_zero] at hwidth
      refine ⟨adv, hadv, hkern, hwidth, (ih hwidth).2 ⟨?_, fun pre hp => ?_⟩⟩
      · rwa [Int.add_assoc, Int.add_comm (f.kern _ _)] at hmeasured
      · have := hpre pre hp
        rw [widthFrom_some hadv] at this
        lia

/-- The height is never -1. -/
theorem gr_ttf_calcMaxFontHeight_nonneg (f : Font) : 0 ≤ f.gr_ttf_calcMaxFontHeight := by
  unfold gr_ttf_calcMaxFontHeight
  have hmax : ∀ (boxes : List BBox) (m : Int), m ≤ boxes.foldl (fun m b => max m b.yMax) m := by
    intro boxes
    induction boxes with
    | nil => exact fun m => Int.le_refl m
    | cons b boxes ih => exact fun m => Int.le_trans (Int.le_max_left _ _) (ih _)
  have hmin : ∀ (boxes : List BBox) (m : Int), boxes.foldl (fun m b => min m b.yMin) m ≤ m := by
    intro boxes
    induction boxes with
    | nil => exact fun m => Int.le_refl m
    | cons b boxes ih => exact fun m => Int.le_trans (ih _) (Int.min_le_left _ _)
  split
  · lia
  · rename_i box boxes _
    have := hmax boxes box.yMax
    have := hmin boxes box.yMin
    have := box.le
    lia

end Font

/-! ### Both loops -/

/-- The characters of a valid text. -/
def charsOf (cs : List Char) : List (Nat × Nat) :=
  cs.map fun c => ((String.utf8EncodeChar c).length, c.toNat)

variable {f : Font} {max_width : Int}

theorem length_encode_cons (c : Char) (cs : List Char) :
    (encode (c :: cs)).length = (String.utf8EncodeChar c).length + (encode cs).length := by
  rw [encode, List.flatMap_cons, List.length_append]
  rfl

theorem length_encode_pos (c : Char) : 0 < (String.utf8EncodeChar c).length := by
  rw [String.length_utf8EncodeChar]
  exact c.utf8Size_pos

/-- Rendering stops behind the first character that is too much, and counts it. -/
theorem renderChars_prefix (hw : max_width ≠ -1) (cs : List Char) (s : Render)
    (hs : s.total_w ≤ max_width) :
    ∃ pre, pre <+: cs ∧ (renderChars f max_width (charsOf cs) s).bytes_rendered =
        s.bytes_rendered + (encode pre).length ∧
      (pre = cs ∧ (∀ pre', pre' <+: cs → s.total_w + f.widthFrom s.prev_idx pre' ≤ max_width) ∨
        max_width < s.total_w + f.widthFrom s.prev_idx pre) := by
  induction cs generalizing s with
  | nil =>
    refine ⟨[], List.nil_prefix, rfl, .inl ⟨rfl, fun pre' hpre => ?_⟩⟩
    rw [List.prefix_nil.1 hpre, Font.widthFrom, Int.add_zero]
    exact hs
  | cons c cs ih =>
    have hnil : s.total_w + f.widthFrom s.prev_idx [] ≤ max_width := by
      rwa [Font.widthFrom, Int.add_zero]
    rw [charsOf, List.map_cons, renderChars, ← charsOf, renderChar, ← Font.index]
    cases hadv : f.advance (f.index c) with
    | none =>
      dsimp only
      rw [if_pos rfl]
      obtain ⟨pre, hpre, hbytes, h⟩ := ih ⟨s.text_itr + (String.utf8EncodeChar c).length,
        s.bytes_rendered + (String.utf8EncodeChar c).length, s.total_w, f.index c,
        s.char_idxs ++ [f.index c]⟩ hs
      refine ⟨c :: pre, List.cons_prefix_cons.2 ⟨rfl, hpre⟩, ?_, ?_⟩
      · rw [length_encode_cons, ← Nat.add_assoc]
        exact hbytes
      · rw [Font.prefix_cons_iff (by exact hnil)]
        simpa only [Font.widthFrom_none hadv, List.cons.injEq, true_and] using h
    | some adv =>
      dsimp only
      by_cases hbreak : max_width ≠ -1 ∧
          s.total_w + (adv + f.kern s.prev_idx (f.index c)) > max_width
      · rw [if_pos hbreak]
        refine ⟨[c], List.cons_prefix_cons.2 ⟨rfl, List.nil_prefix⟩, ?_, .inr ?_⟩
        · rw [length_encode_cons]
          rfl
        · rw [Font.widthFrom_some hadv, Font.widthFrom, Int.add_zero]
          exact hbreak.2
      · rw [if_neg hbreak]
        dsimp only
        rw [if_pos rfl]
        have hle : s.total_w + (adv + f.kern s.prev_idx (f.index c)) ≤ max_width := by
          by_contra hlt
          exact hbreak ⟨hw, Int.not_le.1 hlt⟩
        obtain ⟨pre, hpre, hbytes, h⟩ := ih ⟨s.text_itr + (String.utf8EncodeChar c).length,
          s.bytes_rendered + (String.utf8EncodeChar c).length,
          s.total_w + (adv + f.kern s.prev_idx (f.index c)), f.index c,
          s.char_idxs ++ [f.index c]⟩ hle
        refine ⟨c :: pre, List.cons_prefix_cons.2 ⟨rfl, hpre⟩, ?_, ?_⟩
        · rw [length_encode_cons, ← Nat.add_assoc]
          exact hbytes
        · rw [Font.prefix_cons_iff (by exact hnil)]
          simpa only [Font.widthFrom_some hadv, ← Int.add_assoc, List.cons.injEq, true_and] using h

/-- Measuring counts the whole text only when nothing of it is too much. -/
theorem maxExWChars_max_bytes (f : Font) (max_width : Int) (cs : List Char) (m : MaxExW) :
    (maxExWChars f max_width (charsOf cs) m).max_bytes ≤ m.max_bytes + (encode cs).length ∧
    ((maxExWChars f max_width (charsOf cs) m).max_bytes = m.max_bytes + (encode cs).length ↔
      f.Measured max_width m.total_w m.prev_idx cs) := by
  induction cs generalizing m with
  | nil => simp [charsOf, maxExWChars, encode, Font.Measured]
  | cons c cs ih =>
    have hpos := length_encode_pos c
    rw [charsOf, List.map_cons, maxExWChars, ← charsOf, maxExWChar, ← Font.index,
      length_encode_cons, Font.Measured]
    dsimp only
    by_cases hbreak : m.total_w + f.kern m.prev_idx (f.index c) > max_width
    · rw [if_pos hbreak]
      dsimp only
      rw [if_neg (by decide)]
      have hno : ¬ m.total_w + f.kern m.prev_idx (f.index c) ≤ max_width := Int.not_le.2 hbreak
      simp only [hno, false_and, iff_false]
      lia
    · rw [if_neg hbreak]
      have hle := Int.not_lt.1 hbreak
      cases hadv : f.advance (f.index c) with
      | none =>
        dsimp only
        rw [if_pos rfl]
        have hih := (ih { m with
          s := m.s + (String.utf8EncodeChar c).length
          total_w := m.total_w + f.kern m.prev_idx (f.index c)
          prev_utf_bytes := (String.utf8EncodeChar c).length
          prev_idx := f.index c }).1
        dsimp only at hih
        simp only [reduceCtorEq, false_and, exists_false, and_false, iff_false]
        lia
      | some adv =>
        dsimp only
        rw [if_pos rfl]
        obtain ⟨h1, h2⟩ := ih { m with
          s := m.s + (String.utf8EncodeChar c).length
          max_bytes := m.max_bytes + (String.utf8EncodeChar c).length
          total_w := m.total_w + f.kern m.prev_idx (f.index c) + adv
          prev_utf_bytes := (String.utf8EncodeChar c).length
          prev_idx := f.index c }
        dsimp only at h1 h2
        simp only [Option.some.injEq, exists_eq_left', hle, true_and, ← h2]
        lia

/-! ### Measuring and rendering -/

theorem eq_of_encode_length {l₁ l₂ : List Char} (h : l₁ <+: l₂)
    (hlen : (encode l₁).length = (encode l₂).length) : l₁ = l₂ := by
  obtain ⟨l, rfl⟩ := h
  cases l with
  | nil => exact (List.append_nil _).symm
  | cons c l =>
    have := length_encode_pos c
    rw [encode, encode, List.flatMap_append, List.length_append] at hlen
    have := length_encode_cons c l
    rw [encode] at this
    lia

/-- Prefixes of one text with as many bytes are the same. -/
theorem eq_of_prefix {l₁ l₂ cs : List Char} (h₁ : l₁ <+: cs) (h₂ : l₂ <+: cs)
    (hlen : (encode l₁).length = (encode l₂).length) : l₁ = l₂ := by
  obtain h | h := List.prefix_or_prefix_of_prefix h₁ h₂
  · exact eq_of_encode_length h hlen
  · exact (eq_of_encode_length h hlen.symm).symm

theorem render_valid {text : Text} {cs : List Char} (h : text.bytes = encode cs) :
    gr_ttf_render_text f text max_width =
      .ok ((renderChars f max_width (charsOf cs) .start).bytes_rendered,
        (renderChars f max_width (charsOf cs) .start).total_w) := by
  have hheight := f.gr_ttf_calcMaxFontHeight_nonneg
  rw [gr_ttf_render_text, gr_ttf_render_text_scan (Text.scan_encode h), ok_bind,
    if_neg (by omega)]
  rfl

/-- What is measured is the longest prefix that fits, and is what is rendered, whatever has been
measured and drawn before. -/
def Agrees (f : Font) (R : Renderer f) (text : Text) (cs : List Char) (max_width : Int) : Prop :=
  ∀ calls p s, run R.render calls = some (p, s) → ∃ n width,
    gr_ttf_maxExW f s text max_width = .ok n ∧ f.Longest max_width cs n ∧
    gr_ttf_render_text f text max_width = .ok (n, width)

theorem fits_of_agrees {R : Renderer f} {text : Text} {cs : List Char}
    (h : text.bytes = encode cs) (hw : 0 ≤ max_width) (ha : Agrees f R text cs max_width) :
    f.Fits max_width cs := by
  obtain ⟨n, width, hmax, ⟨pre, hpre, rfl, hfits, hlongest⟩, hrender⟩ := ha [] 0 .empty rfl
  have hmeasure : gr_ttf_maxExW f .empty text max_width = maxExWText f text max_width := rfl
  rw [hmeasure, maxExWText_scan (Text.scan_encode h)] at hmax
  rw [render_valid h] at hrender
  have hn : (renderChars f max_width (charsOf cs) .start).bytes_rendered = (encode pre).length := by
    have := (Prod.mk.inj (Except.ok.inj hrender)).1
    exact_mod_cast this
  obtain ⟨pre', hpre', hbytes, hcases⟩ :=
    renderChars_prefix (f := f) (show max_width ≠ -1 by lia) cs .start hw
  obtain rfl : pre' = pre := by
    refine eq_of_prefix hpre' hpre ?_
    rw [← hn, hbytes]
    exact (Nat.zero_add _).symm
  have hstart : Render.start.total_w + f.widthFrom Render.start.prev_idx pre' =
      f.textWidth pre' := Int.zero_add _
  obtain ⟨rfl, hall⟩ | hlt := hcases
  · have hcount := (maxExWChars_max_bytes f max_width pre' .start).2
    rw [Font.fits_iff, Font.fitsFrom_iff_measured hw]
    refine ⟨hcount.1 ?_, hall⟩
    have := Except.ok.inj hmax
    rw [charsOf, this]
    exact (Int.zero_add _).symm
  · lia

theorem agrees_of_fits {R : Renderer f} {text : Text} {cs : List Char}
    (h : text.bytes = encode cs) (hw : 0 ≤ max_width) (hf : f.Fits max_width cs) :
    Agrees f R text cs max_width := by
  rw [Font.fits_iff, Font.fitsFrom_iff_measured hw] at hf
  obtain ⟨hmeasured, hpre⟩ := hf
  have hpre : ∀ pre, pre <+: cs → f.textWidth pre ≤ max_width := fun pre hp => by
    have := hpre pre hp
    rwa [Int.zero_add] at this
  have hmax : maxExWText f text max_width = .ok (encode cs).length := by
    have hcount := (maxExWChars_max_bytes f max_width cs .start).2.2
      hmeasured
    rw [maxExWText_scan (Text.scan_encode h), ← charsOf, hcount]
    congr 1
    exact Int.zero_add _
  obtain ⟨pre', hpre', hbytes, hcases⟩ :=
    renderChars_prefix (f := f) (show max_width ≠ -1 by lia) cs .start hw
  have hall : pre' = cs := by
    obtain ⟨hall, -⟩ | hlt := hcases
    · exact hall
    · have hstart : Render.start.total_w + f.widthFrom Render.start.prev_idx pre' =
        f.textWidth pre' := Int.zero_add _
      have := hpre pre' hpre'
      lia
  have hrender : gr_ttf_render_text f text max_width =
      .ok ((encode cs).length, (renderChars f max_width (charsOf cs) .start).total_w) := by
    rw [render_valid h, hbytes, hall]
    simp [Render.start]
  have hlongest : f.Longest max_width cs (encode cs).length :=
    ⟨cs, List.prefix_rfl, rfl, hpre cs List.prefix_rfl, fun pre hp _ => hp.length_le⟩
  intro calls p s hrun
  refine ⟨_, _, ?_, hlongest, hrender⟩
  rw [gr_ttf_maxExW]
  cases hget : hashmapGet s.string_cache ⟨text, max_width⟩ with
  | none => exact hmax
  | some q =>
    obtain ⟨p', s', l, hrun', hs, -⟩ := run_holds R.render calls
    cases hrun.symm.trans hrun'
    obtain ⟨d, hd, hkey⟩ := hs.get_some hget
    obtain ⟨e, he, rfl⟩ := hs.seg.live hd
    have hr := (hs.rendered _ hd).1
    dsimp only at hkey hr he ⊢
    rw [hkey, R.agrees _ _ _ hrender] at hr
    rw [he]
    exact congrArg Except.ok (Prod.mk.inj hr).1

/-- **Measuring agrees with rendering** exactly when the text fits. -/
theorem maxExW_agrees (f : Font) (R : Renderer f) (text : Text) (cs : List Char)
    (h : text.bytes = encode cs) (max_width : Int) (hw : 0 ≤ max_width) :
    Agrees f R text cs max_width ↔ f.Fits max_width cs :=
  ⟨fits_of_agrees h hw, agrees_of_fits h hw⟩

/-- Ten pixels for each character. -/
def tenPixels : Font where
  size := 12
  FT_Get_Char_Index u := u
  advance _ := some 10
  FT_HAS_KERNING := false
  FT_Get_Kerning _ _ := 0
  boxes := []

def tenPixelRenderer : Renderer tenPixels where
  render text max_width :=
    match gr_ttf_render_text tenPixels text max_width with
    | .ok r => r
    | .error _ => (-1, 0)
  agrees text max_width r h := by rw [h]

theorem maxExW_agrees_ab :
    Agrees tenPixels tenPixelRenderer ⟨[97, 98], by decide⟩ ['a', 'b'] 20 := by
  refine (maxExW_agrees tenPixels tenPixelRenderer ⟨[97, 98], by decide⟩ ['a', 'b'] (by decide) 20
    (by decide)).2 ?_
  rw [Font.fits_iff, Font.fitsFrom_cons]
  refine ⟨10, rfl, by decide, by decide, ?_⟩
  rw [Font.fitsFrom_cons]
  exact ⟨10, rfl, by decide, by decide, Font.fitsFrom_nil⟩

/-- Three characters where there is room for one: measured it is one, rendered two. -/
theorem rendered_differs :
    gr_ttf_maxExW tenPixels .empty ⟨[97, 98, 99], by decide⟩ 10 = .ok 1 ∧
    gr_ttf_render_text tenPixels ⟨[97, 98, 99], by decide⟩ 10 = .ok (2, 10) ∧
    ¬ Agrees tenPixels tenPixelRenderer ⟨[97, 98, 99], by decide⟩ ['a', 'b', 'c'] 10 := by
  refine ⟨rfl, rfl, fun h => ?_⟩
  have hfits := fits_of_agrees (by decide) (by decide) h
  exact absurd (hfits ['a'] 'b' ['c'] rfl).2.2 (by decide)

end Recovery.MinuiTwrp
