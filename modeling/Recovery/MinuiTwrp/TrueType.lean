import Recovery.MinuiTwrp.Utf8

/-!
# Rendering and measuring a text (`minuitwrp/truetype.cpp`)

Both loops take a text character by character, add up advances and kerning, and stop before the
width is passed.

## The code

* `Font` — what the functions of FreeType say about a face, and the boxes of its glyphs.  A size is
  a natural number; the cache of glyphs changes no answer.
* `gr_ttf_render_text`, `maxExWText` — the two loops over the bytes of a text.  The surface is its
  width: neither its allocation, which may fail, nor the pixels are modelled.
* `renderChars`, `maxExWChars` — the same over characters that are read already.

## Results

* `renderLoop_scan`, `maxExWLoop_scan` — the loops take the characters of a scan.
* `utf8_iteration` — when the loops stay inside every buffer; `cut_off` — when they do not.
-/

set_option autoImplicit false

namespace Recovery.MinuiTwrp

open Recovery.Memory

/-- `FT_BBox`, of a glyph. -/
structure BBox where
  yMin : Int
  yMax : Int
  le : yMin ≤ yMax

structure Font where
  size : Nat
  FT_Get_Char_Index : Nat → Int
  /-- `gr_ttf_glyph_cache_get`, and the advance of the glyph in pixels. -/
  advance : Int → Option Int
  FT_HAS_KERNING : Bool
  /-- In pixels. -/
  FT_Get_Kerning : Int → Int → Int
  /-- Of the glyphs from `!` to `~` that can be loaded. -/
  boxes : List BBox

namespace Font

variable (f : Font)

/-- What is added between two characters. -/
def kern (prev_idx char_idx : Int) : Int :=
  if f.FT_HAS_KERNING ∧ prev_idx ≠ 0 ∧ char_idx ≠ 0 then f.FT_Get_Kerning prev_idx char_idx else 0

/-- `max_height`, as `gr_ttf_calcMaxFontHeight` leaves it; without a box both ends are 0. -/
def gr_ttf_calcMaxFontHeight : Int :=
  match f.boxes with
  | [] => (f.size / 4 : Nat)
  | box :: boxes =>
    boxes.foldl (fun m b => max m b.yMax) box.yMax - boxes.foldl (fun m b => min m b.yMin) box.yMin
      + (f.size / 4 : Nat)

end Font

/-! ### Rendering -/

structure Render where
  text_itr : Nat
  bytes_rendered : Nat
  total_w : Int
  prev_idx : Int
  /-- As many as `char_idxs_len`. -/
  char_idxs : List Int

def Render.start : Render := ⟨0, 0, 0, 0, []⟩

/-- What a round does with a character: the state, and whether the loop goes on. -/
def renderChar (f : Font) (max_width : Int) (s : Render) (utf_bytes unicode : Nat) : Render × Bool :=
  let s := { s with
    text_itr := s.text_itr + utf_bytes
    bytes_rendered := s.bytes_rendered + utf_bytes }
  let char_idx := f.FT_Get_Char_Index unicode
  let next (s : Render) : Render :=
    { s with prev_idx := char_idx, char_idxs := s.char_idxs ++ [char_idx] }
  match f.advance char_idx with
  | some adv =>
    let diff := adv + f.kern s.prev_idx char_idx
    if max_width ≠ -1 ∧ s.total_w + diff > max_width then (s, false)
    else (next { s with total_w := s.total_w + diff }, true)
  | none => (next s, true)

/-- The first loop; `char_idxs` has room for `strlen(text)` indices. -/
def renderLoop (f : Font) (text : Text) (max_width : Int) : Nat → Render → Access Render
  | 0, _ => .error .stuck
  | fuel + 1, s => do
    let b ← readAt text.mem s.text_itr
    if b = 0 then .ok s
    else
      let (utf_bytes, unicode) ← utf8_to_unicode text.mem s.text_itr
      if text.bytes.length ≤ s.char_idxs.length then .error .outOfBounds
      else
        let (s, more) := renderChar f max_width s utf_bytes unicode
        if more then renderLoop f text max_width fuel s else .ok s

/-- What rendering leaves: the bytes rendered, or -1; and the width of the surface. -/
def gr_ttf_render_text (f : Font) (text : Text) (max_width : Int) : Access (Int × Int) := do
  let s ← renderLoop f text max_width (text.bytes.length + 1) .start
  if f.gr_ttf_calcMaxFontHeight = -1 then .ok (-1, 0) else .ok (s.bytes_rendered, s.total_w)

/-! ### Measuring -/

structure MaxExW where
  s : Nat
  max_bytes : Int
  total_w : Int
  prev_utf_bytes : Nat
  prev_idx : Int

def MaxExW.start : MaxExW := ⟨0, 0, 0, 0, 0⟩

def maxExWChar (f : Font) (max_width : Int) (m : MaxExW) (utf_bytes unicode : Nat) :
    MaxExW × Bool :=
  let char_idx := f.FT_Get_Char_Index unicode
  let m := { m with
    s := m.s + utf_bytes
    total_w := m.total_w + f.kern m.prev_idx char_idx
    prev_idx := char_idx }
  if m.total_w > max_width then ({ m with max_bytes := m.max_bytes - m.prev_utf_bytes }, false)
  else
    let m := { m with prev_utf_bytes := utf_bytes }
    match f.advance char_idx with
    | none => (m, true)
    | some adv =>
      ({ m with total_w := m.total_w + adv, max_bytes := m.max_bytes + utf_bytes }, true)

def maxExWLoop (f : Font) (text : Text) (max_width : Int) : Nat → MaxExW → Access MaxExW
  | 0, _ => .error .stuck
  | fuel + 1, m => do
    let b ← readAt text.mem m.s
    if b = 0 then .ok m
    else
      let (utf_bytes, unicode) ← utf8_to_unicode text.mem m.s
      let (m, more) := maxExWChar f max_width m utf_bytes unicode
      if more then maxExWLoop f text max_width fuel m else .ok m

/-- `gr_ttf_maxExW` of a text that has not been rendered. -/
def maxExWText (f : Font) (text : Text) (max_width : Int) : Access Int := do
  let m ← maxExWLoop f text max_width (text.bytes.length + 1) .start
  .ok m.max_bytes

/-! ### The characters of a scan -/

def renderChars (f : Font) (max_width : Int) : List (Nat × Nat) → Render → Render
  | [], s => s
  | (utf_bytes, unicode) :: cs, s =>
    let (s, more) := renderChar f max_width s utf_bytes unicode
    if more then renderChars f max_width cs s else s

def maxExWChars (f : Font) (max_width : Int) : List (Nat × Nat) → MaxExW → MaxExW
  | [], m => m
  | (utf_bytes, unicode) :: cs, m =>
    let (m, more) := maxExWChar f max_width m utf_bytes unicode
    if more then maxExWChars f max_width cs m else m

variable {f : Font} {text : Text} {max_width : Int}

theorem renderChar_text_itr (s : Render) (n u : Nat) :
    (renderChar f max_width s n u).1.text_itr = s.text_itr + n := by
  unfold renderChar
  dsimp only
  split
  · split <;> rfl
  · rfl

theorem renderChar_more {s : Render} {n u : Nat} (h : (renderChar f max_width s n u).2 = true) :
    (renderChar f max_width s n u).1.char_idxs = s.char_idxs ++ [f.FT_Get_Char_Index u] := by
  unfold renderChar at h ⊢
  dsimp only at h ⊢
  split
  · rename_i adv ha
    rw [ha] at h
    dsimp only at h
    split at h
    · cases h
    · rename_i hw
      rw [if_neg hw]
  · rfl

/-- Nothing ends the loop early when the width is not limited. -/
theorem renderChar_unlimited (s : Render) (n u : Nat) : (renderChar f (-1) s n u).2 = true := by
  unfold renderChar
  dsimp only
  split
  · rw [if_neg (by tauto)]
  · rfl

theorem maxExWChar_s (m : MaxExW) (n u : Nat) :
    (maxExWChar f max_width m n u).1.s = m.s + n := by
  unfold maxExWChar
  dsimp only
  split
  · rfl
  · split <;> rfl

theorem renderLoop_scan {fuel : Nat} {s : Render} {cs : List (Nat × Nat)}
    (h : scan text.mem fuel s.text_itr = .ok cs)
    (hroom : s.char_idxs.length + cs.length ≤ text.bytes.length) :
    renderLoop f text max_width fuel s = .ok (renderChars f max_width cs s) := by
  induction fuel generalizing s cs with
  | zero => cases h
  | succ fuel ih =>
    rw [renderLoop]
    obtain ⟨b, hb, ⟨h0, rfl⟩ | ⟨h0, c, cs', hu, hs, rfl⟩⟩ := scan_cases h
    · rw [hb, ok_bind, if_pos h0]
      rfl
    · rw [List.length_cons] at hroom
      rw [hb, ok_bind, if_neg h0, hu, ok_bind]
      dsimp only
      rw [if_neg (by lia), renderChars]
      dsimp only
      split
      · rename_i hmore
        apply ih
        · rw [renderChar_text_itr, hs]
        · rw [renderChar_more hmore, List.length_append, List.length_singleton]
          lia
      · rfl

theorem maxExWLoop_scan {fuel : Nat} {m : MaxExW} {cs : List (Nat × Nat)}
    (h : scan text.mem fuel m.s = .ok cs) :
    maxExWLoop f text max_width fuel m = .ok (maxExWChars f max_width cs m) := by
  induction fuel generalizing m cs with
  | zero => cases h
  | succ fuel ih =>
    rw [maxExWLoop]
    obtain ⟨b, hb, ⟨h0, rfl⟩ | ⟨h0, c, cs', hu, hs, rfl⟩⟩ := scan_cases h
    · rw [hb, ok_bind, if_pos h0]
      rfl
    · rw [hb, ok_bind, if_neg h0, hu, ok_bind, maxExWChars]
      dsimp only
      split
      · apply ih
        rw [maxExWChar_s, hs]
      · rfl

/-- When the width is not limited, the loop comes to every character. -/
theorem scan_of_renderLoop {fuel : Nat} {s s' : Render}
    (h : renderLoop f text (-1) fuel s = .ok s') :
    ∃ cs, scan text.mem fuel s.text_itr = .ok cs := by
  induction fuel generalizing s with
  | zero => cases h
  | succ fuel ih =>
    rw [renderLoop] at h
    rw [scan]
    cases hb : readAt text.mem s.text_itr with
    | error e =>
      rw [hb] at h
      cases h
    | ok b =>
      rw [hb, ok_bind] at h
      rw [ok_bind]
      by_cases h0 : b = 0
      · rw [if_pos h0]
        exact ⟨[], rfl⟩
      rw [if_neg h0] at h ⊢
      cases hu : utf8_to_unicode text.mem s.text_itr with
      | error e =>
        rw [hu] at h
        cases h
      | ok c =>
        rw [hu, ok_bind] at h
        rw [ok_bind]
        dsimp only at h ⊢
        by_cases hroom : text.bytes.length ≤ s.char_idxs.length
        · rw [if_pos hroom] at h
          cases h
        rw [if_neg hroom, if_pos (renderChar_unlimited s c.1 c.2)] at h
        obtain ⟨cs, hcs⟩ := ih h
        rw [renderChar_text_itr] at hcs
        exact ⟨c :: cs, by rw [hcs]; rfl⟩

/-! ### Every text -/

/-- What both loops come to. -/
def Text.scan (text : Text) : Access (List (Nat × Nat)) :=
  MinuiTwrp.scan text.mem (text.bytes.length + 1) 0

theorem Text.scan_iff (text : Text) : (∃ cs, text.scan = .ok cs) ↔ Complete text.bytes := by
  have := MinuiTwrp.scan_iff text.zero_notMem (Nat.zero_le _)
    (show text.bytes.length < 0 + (text.bytes.length + 1) by lia)
  rwa [List.drop_zero] at this

theorem Text.scan_length {cs : List (Nat × Nat)} (h : text.scan = .ok cs) :
    cs.length ≤ text.bytes.length := by
  have := MinuiTwrp.scan_length text.zero_notMem h
  lia

theorem Text.scan_encode {cs : List Char} (h : text.bytes = encode cs) :
    text.scan = .ok (cs.map fun c => ((String.utf8EncodeChar c).length, c.toNat)) :=
  MinuiTwrp.scan_encode text.zero_notMem (by rw [List.drop_zero, h]) (Nat.zero_le _) (by lia)

theorem gr_ttf_render_text_scan {cs : List (Nat × Nat)} (h : text.scan = .ok cs) :
    renderLoop f text max_width (text.bytes.length + 1) .start =
      .ok (renderChars f max_width cs .start) :=
  renderLoop_scan h (by simpa [Render.start] using text.scan_length h)

theorem maxExWText_scan {cs : List (Nat × Nat)} (h : text.scan = .ok cs) :
    maxExWText f text max_width = .ok (maxExWChars f max_width cs .start).max_bytes := by
  have hl : maxExWLoop f text max_width (text.bytes.length + 1) .start =
      .ok (maxExWChars f max_width cs .start) := maxExWLoop_scan h
  rw [maxExWText, hl]
  rfl

/-- Both loops stay in the text, and in the array of glyph indices. -/
def Text.Stays (text : Text) : Prop :=
  ∀ (f : Font) (max_width : Int), (∃ r, gr_ttf_render_text f text max_width = .ok r) ∧
    ∃ n, maxExWText f text max_width = .ok n

theorem Text.stays_iff (text : Text) : text.Stays ↔ Complete text.bytes := by
  rw [← text.scan_iff]
  constructor
  · intro h
    obtain ⟨⟨r, hr⟩, -⟩ := h ⟨0, fun _ => 0, fun _ => none, false, fun _ _ => 0, []⟩ (-1)
    rw [gr_ttf_render_text] at hr
    cases hs : renderLoop ⟨0, fun _ => 0, fun _ => none, false, fun _ _ => 0, []⟩ text (-1)
        (text.bytes.length + 1) .start with
    | error e =>
      rw [hs] at hr
      cases hr
    | ok s => exact scan_of_renderLoop hs
  · rintro ⟨cs, hcs⟩ f max_width
    constructor
    · rw [gr_ttf_render_text, gr_ttf_render_text_scan hcs, ok_bind]
      split
      · exact ⟨_, rfl⟩
      · exact ⟨_, rfl⟩
    · exact ⟨_, maxExWText_scan hcs⟩

theorem renderChars_unlimited (cs : List (Nat × Nat)) (s : Render) :
    (renderChars f (-1) cs s).char_idxs =
      s.char_idxs ++ cs.map fun c => f.FT_Get_Char_Index c.2 := by
  induction cs generalizing s with
  | nil => exact (List.append_nil _).symm
  | cons c cs ih =>
    have hmore := renderChar_unlimited (f := f) s c.1 c.2
    rw [renderChars]
    dsimp only
    rw [if_pos hmore, ih, renderChar_more hmore, List.append_assoc]
    rfl

/-- A valid text is decoded to its code points: these are what the loops come to, and the glyphs
that are rendered. -/
def Text.Decodes (text : Text) : Prop :=
  ∀ cs, text.bytes = encode cs →
    text.scan = .ok (cs.map fun c => ((String.utf8EncodeChar c).length, c.toNat)) ∧
    ∀ f : Font, ∃ s, renderLoop f text (-1) (text.bytes.length + 1) .start = .ok s ∧
      s.char_idxs = cs.map fun c => f.FT_Get_Char_Index c.toNat

theorem Text.decodes (text : Text) : text.Decodes := by
  intro cs h
  have hscan := Text.scan_encode h
  refine ⟨hscan, fun f => ⟨_, gr_ttf_render_text_scan hscan, ?_⟩⟩
  rw [renderChars_unlimited, List.map_map]
  rfl

/-- The loops stay inside every buffer and decode what is valid, exactly when no character of the
text is cut off. -/
theorem utf8_iteration (text : Text) : text.Stays ∧ text.Decodes ↔ Complete text.bytes :=
  ⟨fun h => text.stays_iff.1 h.1, fun h => ⟨text.stays_iff.2 h, text.decodes⟩⟩

/-- A first byte of two at the end of a text: its character takes the zero. -/
theorem cut_off : ¬ ∀ text : Text, text.Stays ∧ text.Decodes := by
  intro h
  have hc := (utf8_iteration ⟨[0xC3], by decide⟩).1 (h _)
  have hf : follow 0xC3 = 1 := by decide
  rw [Complete, hf] at hc
  exact absurd hc.1 (by decide)

end Recovery.MinuiTwrp
