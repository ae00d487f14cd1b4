import Recovery.ScreenUi.Pages

/-!
# Runs of the text screen and its file pager

* `Shows` — a pager waits, and the screen has the page of its last offset, the prompt, and what was
  printed since.
* `Idle`, `Waits` — no pager waits; one waits at the page that paging down comes to with so many
  keys.
* `draw_spec`, `Waits.up`, `Waits.down`, `Waits.ends` — what keys do to it.
* `step_inv`, `run_inv` — one of both holds in every run, and no access is outside of a buffer.
* `run_downs` — paging down from the start comes to every page.
* `PagerSpec`, `pager_spec` — what holds of every run; `first_page_up` — what does not.

Prints go on while a pager waits, since the installation runs in another thread; they overwrite the
page, and the pager draws it anew on the next key.
-/

set_option autoImplicit false

namespace Recovery.ScreenUi

open Recovery.Lib

variable {text_rows_ text_cols_ : Nat}

/-! ## Keys -/

def IsUp (key : Int) : Prop := key = KEY_UP ∨ key = KEY_VOLUMEUP

/-- Every key that neither ends the pager nor goes up. -/
def IsDown (key : Int) : Prop := ¬ (key = KEY_POWER ∨ key = KEY_ENTER) ∧ ¬ IsUp key

instance (key : Int) : Decidable (IsDown key) :=
  inferInstanceAs (Decidable (¬ (key = KEY_POWER ∨ key = KEY_ENTER) ∧
    ¬ (key = KEY_UP ∨ key = KEY_VOLUMEUP)))

theorem IsUp.not_quit {key : Int} (h : IsUp key) : ¬ (key = KEY_POWER ∨ key = KEY_ENTER) := by
  unfold IsUp KEY_UP KEY_VOLUMEUP at h
  unfold KEY_POWER KEY_ENTER
  lia

/-! ## What a state shows -/

variable (percent : Nat → Nat → Int) {st st' st₀ : State text_rows_ text_cols_} {p p' : Pager}
  {k o : Nat} {strs : List (List UInt8)}

/-- The pager waits at the page from `o` on. Its prompt, and after it `strs`, are printed from the
start of the last row on. -/
structure Shows (st : State text_rows_ text_cols_) (p : Pager) (o : Nat)
    (strs : List (List UInt8)) : Prop where
  pager : st.pager = some p
  top : p.offsets.head? = some o
  offset : p.fp.offset = o + (pageOf text_rows_ text_cols_ p.fp.content o).length
  text : ∃ t : Text text_rows_ text_cols_, PageText p.fp.content o t ∧
    (prompt percent p.fp :: strs).foldlM Screen.PrintV ⟨t, 0, text_rows_ - 1⟩ = some st.ui.screen

/-- No pager waits. -/
structure Idle (st : State text_rows_ text_cols_) : Prop where
  pager : st.pager = none
  text_ : st.ui.text_ = .text
  terminated : ∀ b, (st.ui.buffers b).Terminated
  valid : st.ui.screen.Valid

/-- The offsets of the pages until page `k`. -/
def stack (text_rows_ text_cols_ : Nat) (content : List UInt8) (k : Nat) : List Nat :=
  (List.range (k + 1)).reverse.map (offsetOf text_rows_ text_cols_ content)

theorem stack_zero (content : List UInt8) : stack text_rows_ text_cols_ content 0 = [0] := rfl

theorem stack_succ (content : List UInt8) (k : Nat) : stack text_rows_ text_cols_ content (k + 1) =
    offsetOf text_rows_ text_cols_ content (k + 1) :: stack text_rows_ text_cols_ content k := by
  rw [stack, List.range_succ, List.reverse_concat]
  rfl

theorem stack_eq_cons (content : List UInt8) (k : Nat) :
    ∃ rest, stack text_rows_ text_cols_ content k =
      offsetOf text_rows_ text_cols_ content k :: rest := by
  cases k with
  | zero => exact ⟨[], rfl⟩
  | succ k => exact ⟨_, stack_succ content k⟩

/-- What a pager that was opened in `st₀` keeps all the time. -/
structure Keeps (st₀ st : State text_rows_ text_cols_) (p : Pager) (k : Nat) : Prop where
  text_ : st.ui.text_ = .file_viewer
  terminated : ∀ b, (st.ui.buffers b).Terminated
  log : st.ui.buffers .text = st₀.ui.buffers .text
  old_text : p.old_text = .text
  old_text_col : p.old_text_col = st₀.ui.text_col_
  old_text_row : p.old_text_row = st₀.ui.text_row_
  offsets : p.offsets = stack text_rows_ text_cols_ p.fp.content k
  full : ∀ i < k, FullPage text_rows_ text_cols_ p.fp.content
    (offsetOf text_rows_ text_cols_ p.fp.content i)

/-- A pager that was opened in `st₀` waits at page `k`. -/
structure Waits (st₀ st : State text_rows_ text_cols_) (p : Pager) (k : Nat)
    (strs : List (List UInt8)) : Prop where
  keeps : Keeps st₀ st p k
  shows : Shows percent st p (offsetOf text_rows_ text_cols_ p.fp.content k) strs
  eof : p.fp.eof = true ↔ ¬ FullPage text_rows_ text_cols_ p.fp.content
    (offsetOf text_rows_ text_cols_ p.fp.content k)
  valid : st.ui.screen.Valid

/-! ## Steps -/

@[simp] theorem screen_withScreen (ui : ScreenRecoveryUI text_rows_ text_cols_)
    (s : Screen text_rows_ text_cols_) : (ui.withScreen s).screen = s := by
  simp [ScreenRecoveryUI.screen, ScreenRecoveryUI.withScreen]

@[simp] theorem text_withScreen (ui : ScreenRecoveryUI text_rows_ text_cols_)
    (s : Screen text_rows_ text_cols_) : (ui.withScreen s).text_ = ui.text_ := rfl

theorem log_withScreen {ui : ScreenRecoveryUI text_rows_ text_cols_} (h : ui.text_ = .file_viewer)
    (s : Screen text_rows_ text_cols_) : (ui.withScreen s).buffers .text = ui.buffers .text := by
  simp [ScreenRecoveryUI.withScreen, h]

theorem terminated_withScreen {ui : ScreenRecoveryUI text_rows_ text_cols_}
    {s : Screen text_rows_ text_cols_} (h : ∀ b, (ui.buffers b).Terminated)
    (hs : s.text_.Terminated) (b : Buffer) : ((ui.withScreen s).buffers b).Terminated := by
  rw [ScreenRecoveryUI.withScreen]
  dsimp only
  split
  · exact hs
  · exact h b

theorem print_eq (h : st.ui.screen.Valid) (hterm : ∀ b, (st.ui.buffers b).Terminated)
    (str : List UInt8) : ∃ s : Screen text_rows_ text_cols_,
    st.ui.screen.PrintV str = some s ∧ s.Valid ∧
      (∀ b, ((st.ui.withScreen s).buffers b).Terminated) ∧
      st.print str = some { st with ui := st.ui.withScreen s } := by
  obtain ⟨s, hs, hvalid, hkeep⟩ := Screen.PrintV_valid h str
  exact ⟨s, hs, hvalid, terminated_withScreen hterm (hkeep (hterm _)), by simp [State.print, hs]⟩

theorem Idle.print (h : Idle st) (str : List UInt8) :
    ∃ st', st.print str = some st' ∧ Idle st' := by
  obtain ⟨s, -, hvalid, hterm, hprint⟩ := print_eq h.valid h.terminated str
  exact ⟨_, hprint, h.pager, h.text_, hterm, by rwa [screen_withScreen]⟩

variable {percent}

theorem Waits.print (h : Waits percent st₀ st p k strs) (str : List UInt8) :
    ∃ st', st.print str = some st' ∧ Waits percent st₀ st' p k (strs ++ [str]) := by
  obtain ⟨s, hs, hvalid, hterm, hprint⟩ := print_eq h.valid h.keeps.terminated str
  obtain ⟨t, ht, htext⟩ := h.shows.text
  have hlog := (log_withScreen h.keeps.text_ s).trans h.keeps.log
  refine ⟨_, hprint, ⟨h.keeps.text_, hterm, hlog, h.keeps.old_text, h.keeps.old_text_col,
    h.keeps.old_text_row, h.keeps.offsets, h.keeps.full⟩,
    ⟨h.shows.pager, h.shows.top, h.shows.offset, t, ht, ?_⟩, h.eof, by rwa [screen_withScreen]⟩
  rw [← List.cons_append, List.foldlM_append, htext]
  simp [hs]

/-- A page that is drawn: what was on the screen does not matter. -/
theorem draw_spec (hrows : 2 ≤ text_rows_) (hcols : 1 ≤ text_cols_) (h : Keeps st₀ st p k)
    (hoffset : p.fp.offset = offsetOf text_rows_ text_cols_ p.fp.content k)
    (heof : p.fp.eof = false) : ∃ st' p', st.draw percent p = some st' ∧
      Waits percent st₀ st' p' k [] ∧ p'.fp.content = p.fp.content := by
  obtain ⟨fp, t, s, hshow, hcontent, hoffset', heof', ht, hs, hvalid, hterm⟩ :=
    showPage_spec hrows hcols percent p.fp st.ui.screen
  rw [heof, hoffset] at heof'
  rw [hoffset] at hoffset' ht
  rw [← hcontent] at hoffset' heof' ht
  have hkeeps : Keeps st₀ ⟨st.ui.withScreen s, some { p with fp }⟩ { p with fp } k := by
    refine ⟨h.text_, terminated_withScreen h.terminated hterm, ?_, h.old_text, h.old_text_col,
      h.old_text_row, ?_, ?_⟩
    · exact (log_withScreen h.text_ s).trans h.log
    · rw [hcontent]
      exact h.offsets
    · rw [hcontent]
      exact h.full
  have hshows : Shows percent ⟨st.ui.withScreen s, some { p with fp }⟩ { p with fp }
      (offsetOf text_rows_ text_cols_ fp.content k) [] := by
    obtain ⟨rest, hrest⟩ := @stack_eq_cons text_rows_ text_cols_ fp.content k
    refine ⟨rfl, ?_, hoffset', t, ht, by simp [hs]⟩
    rw [hkeeps.offsets, hrest, List.head?_cons]
  refine ⟨_, _, by simp [State.draw, hshow], ⟨hkeeps, hshows, ?_, ?_⟩, hcontent⟩
  · rw [heof']
    simp
  · rwa [screen_withScreen]

theorem Idle.showFile (hrows : 2 ≤ text_rows_) (hcols : 1 ≤ text_cols_) (h : Idle st)
    (filename content : List UInt8) : ∃ st' p, st.showFile percent filename (.inr content) =
      some st' ∧ Waits percent st st' p 0 [] ∧ p.fp.content = content := by
  have hkeeps : Keeps st
      ⟨({ st.ui with text_ := .file_viewer } : ScreenRecoveryUI _ _).withScreen
        ({ st.ui with text_ := .file_viewer } : ScreenRecoveryUI _ _).screen.ClearText, none⟩
      ⟨⟨content, 0, false⟩, [0], st.ui.text_, st.ui.text_col_, st.ui.text_row_⟩ 0 :=
    ⟨rfl, terminated_withScreen h.terminated fun _ => rfl, log_withScreen rfl _, h.text_, rfl, rfl,
      rfl, nofun⟩
  exact draw_spec hrows hcols hkeeps rfl rfl

/-- The log is on the screen again when the pager ends. -/
theorem Keeps.close (h : Keeps st₀ st p k) (h₀ : Idle st₀) :
    Idle (st.close p) ∧ (st.close p).ui.text_ = st₀.ui.text_ ∧
      (st.close p).ui.screen = st₀.ui.screen := by
  have hscreen : (st.close p).ui.screen = st₀.ui.screen := by
    simp [State.close, ScreenRecoveryUI.screen, h.old_text, h.old_text_col, h.old_text_row, h.log,
      h₀.text_]
  refine ⟨⟨rfl, h.old_text, h.terminated, ?_⟩, ?_, hscreen⟩
  · rw [hscreen]
    exact h₀.valid
  · rw [h₀.text_]
    exact h.old_text

theorem pressKey_up {key : Int} (hkey : IsUp key) : st.pressKey percent p key =
    match p.offsets with
    | _ :: back :: offsets =>
      st.draw percent { p with fp := p.fp.fseek back, offsets := back :: offsets }
    | _ => some st :=
  (if_neg hkey.not_quit).trans (if_pos hkey)

theorem pressKey_down {key : Int} (hkey : IsDown key) : st.pressKey percent p key =
    if p.fp.eof then some (st.close p)
    else st.draw percent { p with offsets := p.fp.offset :: p.offsets } :=
  (if_neg hkey.1).trans (if_neg hkey.2)

theorem Waits.up (hrows : 2 ≤ text_rows_) (hcols : 1 ≤ text_cols_)
    (h : Waits percent st₀ st p (k + 1) strs) {key : Int} (hkey : IsUp key) : ∃ st' p',
    st.pressKey percent p key = some st' ∧ Waits percent st₀ st' p' k [] ∧
      p'.fp.content = p.fp.content := by
  obtain ⟨rest, hrest⟩ := @stack_eq_cons text_rows_ text_cols_ p.fp.content k
  have hoffsets := h.keeps.offsets
  rw [stack_succ, hrest] at hoffsets
  have hkeeps : Keeps st₀ st
      { p with
        fp := p.fp.fseek (offsetOf text_rows_ text_cols_ p.fp.content k)
        offsets := offsetOf text_rows_ text_cols_ p.fp.content k :: rest } k :=
    ⟨h.keeps.text_, h.keeps.terminated, h.keeps.log, h.keeps.old_text, h.keeps.old_text_col,
      h.keeps.old_text_row, hrest.symm, fun i hi => h.keeps.full i (Nat.lt_succ_of_lt hi)⟩
  obtain ⟨st', p', hdraw, hwaits, hcontent⟩ := draw_spec hrows hcols hkeeps rfl rfl
  refine ⟨st', p', ?_, hwaits, hcontent⟩
  rw [pressKey_up hkey, hoffsets]
  exact hdraw

/-- On the first page there is nothing to go up to. -/
theorem Waits.up_first (h : Waits percent st₀ st p 0 strs) {key : Int} (hkey : IsUp key) :
    st.pressKey percent p key = some st := by
  rw [pressKey_up hkey, h.keeps.offsets, stack_zero]

theorem Waits.down (hrows : 2 ≤ text_rows_) (hcols : 1 ≤ text_cols_)
    (h : Waits percent st₀ st p k strs) (hfull : FullPage text_rows_ text_cols_ p.fp.content
      (offsetOf text_rows_ text_cols_ p.fp.content k)) {key : Int} (hkey : IsDown key) : ∃ st' p',
    st.pressKey percent p key = some st' ∧ Waits percent st₀ st' p' (k + 1) [] ∧
      p'.fp.content = p.fp.content := by
  have heof : p.fp.eof = false := by
    rw [← Bool.not_eq_true, h.eof, not_not]
    exact hfull
  have hoffset : p.fp.offset = offsetOf text_rows_ text_cols_ p.fp.content (k + 1) := by
    rw [h.shows.offset, offsetOf_succ]
  have hkeeps : Keeps st₀ st { p with offsets := p.fp.offset :: p.offsets } (k + 1) := by
    refine ⟨h.keeps.text_, h.keeps.terminated, h.keeps.log, h.keeps.old_text,
      h.keeps.old_text_col, h.keeps.old_text_row, ?_, fun i hi => ?_⟩
    · rw [stack_succ, ← hoffset, h.keeps.offsets]
    · rcases Nat.lt_succ_iff_lt_or_eq.1 hi with hlt | rfl
      · exact h.keeps.full i hlt
      · exact hfull
  obtain ⟨st', p', hdraw, hwaits, hcontent⟩ := draw_spec hrows hcols hkeeps hoffset heof
  refine ⟨st', p', ?_, hwaits, hcontent⟩
  rw [pressKey_down hkey, heof]
  exact hdraw

/-- Behind the end of the file there is nothing to go down to. -/
theorem Waits.ends (h : Waits percent st₀ st p k strs)
    (hend : ¬ FullPage text_rows_ text_cols_ p.fp.content
      (offsetOf text_rows_ text_cols_ p.fp.content k)) {key : Int} (hkey : IsDown key) :
    st.pressKey percent p key = some (st.close p) := by
  rw [pressKey_down hkey, h.eof.2 hend]
  rfl

/-! ## Runs -/

/-- No pager waits, or one that was opened where none did. -/
def Inv (percent : Nat → Nat → Int) (st : State text_rows_ text_cols_) : Prop :=
  Idle st ∨ ∃ st₀ p k strs, Idle st₀ ∧ Waits percent st₀ st p k strs

theorem step_idle (hrows : 2 ≤ text_rows_) (hcols : 1 ≤ text_cols_) (h : Idle st) (e : Event) :
    ∃ st', st.step percent e = some st' ∧
      (Idle st' ∨ ∃ p, Waits percent st st' p 0 []) := by
  cases e with
  | print str =>
    obtain ⟨st', hprint, hidle⟩ := h.print str
    exact ⟨st', hprint, .inl hidle⟩
  | showFile filename file =>
    cases file with
    | inl strerror =>
      obtain ⟨st', hprint, hidle⟩ := h.print
        (ascii "  Unable to open " ++ filename ++ ascii ": " ++ strerror ++ [newline])
      refine ⟨st', ?_, .inl hidle⟩
      simpa [State.step, h.pager, State.showFile] using hprint
    | inr content =>
      obtain ⟨st', p, hshow, hwaits, -⟩ := @Idle.showFile _ _ percent _ hrows hcols h filename
        content
      refine ⟨st', ?_, .inr ⟨p, hwaits⟩⟩
      simpa [State.step, h.pager] using hshow
  | key key => exact ⟨st, by simp [State.step, h.pager], .inl h⟩

theorem step_waits (hrows : 2 ≤ text_rows_) (hcols : 1 ≤ text_cols_) (h₀ : Idle st₀)
    (h : Waits percent st₀ st p k strs) (e : Event) : ∃ st', st.step percent e = some st' ∧
      ((Idle st' ∧ st'.ui.text_ = st₀.ui.text_ ∧ st'.ui.screen = st₀.ui.screen) ∨
        ∃ p' k' strs', Waits percent st₀ st' p' k' strs') := by
  have hpager := h.shows.pager
  cases e with
  | print str =>
    obtain ⟨st', hprint, hwaits⟩ := h.print str
    exact ⟨st', hprint, .inr ⟨_, _, _, hwaits⟩⟩
  | showFile filename file => exact ⟨st, by simp [State.step, hpager], .inr ⟨p, k, strs, h⟩⟩
  | key key =>
    have hstep : st.step percent (.key key) = st.pressKey percent p key := by
      simp [State.step, hpager]
    rw [hstep]
    by_cases hquit : key = KEY_POWER ∨ key = KEY_ENTER
    · exact ⟨_, if_pos hquit, .inl (h.keeps.close h₀)⟩
    · by_cases hup : IsUp key
      · cases k with
        | zero => exact ⟨st, h.up_first hup, .inr ⟨p, 0, strs, h⟩⟩
        | succ k =>
          obtain ⟨st', p', hpress, hwaits, -⟩ := h.up hrows hcols hup
          exact ⟨st', hpress, .inr ⟨p', k, [], hwaits⟩⟩
      · by_cases hfull : FullPage text_rows_ text_cols_ p.fp.content
            (offsetOf text_rows_ text_cols_ p.fp.content k)
        · obtain ⟨st', p', hpress, hwaits, -⟩ := h.down hrows hcols hfull ⟨hquit, hup⟩
          exact ⟨st', hpress, .inr ⟨p', k + 1, [], hwaits⟩⟩
        · exact ⟨_, h.ends hfull ⟨hquit, hup⟩, .inl (h.keeps.close h₀)⟩

theorem step_inv (hrows : 2 ≤ text_rows_) (hcols : 1 ≤ text_cols_) (h : Inv percent st)
    (e : Event) : ∃ st', st.step percent e = some st' ∧ Inv percent st' := by
  rcases h with h | ⟨st₀, p, k, strs, h₀, h⟩
  · obtain ⟨st', hstep, hidle | ⟨p, hwaits⟩⟩ := @step_idle _ _ percent _ hrows hcols h e
    · exact ⟨st', hstep, .inl hidle⟩
    · exact ⟨st', hstep, .inr ⟨st, p, 0, [], h, hwaits⟩⟩
  · obtain ⟨st', hstep, hidle | ⟨p', k', strs', hwaits⟩⟩ := step_waits hrows hcols h₀ h e
    · exact ⟨st', hstep, .inl hidle.1⟩
    · exact ⟨st', hstep, .inr ⟨st₀, p', k', strs', h₀, hwaits⟩⟩

theorem run_inv (hrows : 2 ≤ text_rows_) (hcols : 1 ≤ text_cols_) (h : Inv percent st)
    (events : List Event) : ∃ st', st.run percent events = some st' ∧ Inv percent st' := by
  induction events generalizing st with
  | nil => exact ⟨st, rfl, h⟩
  | cons e events ih =>
    obtain ⟨st', hstep, hinv⟩ := step_inv hrows hcols h e
    obtain ⟨st'', hrun, hinv'⟩ := ih hinv
    refine ⟨st'', ?_, hinv'⟩
    rw [State.run, List.foldlM_cons, hstep]
    exact hrun

theorem idle_init (hrows : 2 ≤ text_rows_) :
    Idle (State.init : State text_rows_ text_cols_) :=
  ⟨rfl, rfl, fun _ _ => rfl, by dsimp only [State.init, ScreenRecoveryUI.screen]; omega,
    Nat.zero_le _⟩

theorem run_append (events events' : List Event) :
    st.run percent (events ++ events') = (st.run percent events).bind (·.run percent events') :=
  List.foldlM_append

theorem run_singleton (e : Event) : st.run percent [e] = st.step percent e := by
  rw [State.run, List.foldlM_cons]
  simp

/-- Paging down from the start comes to every page. -/
theorem run_downs (hrows : 2 ≤ text_rows_) (hcols : 1 ≤ text_cols_) (h : Idle st)
    (filename content : List UInt8) {keys : List Int} (hkeys : ∀ key ∈ keys, IsDown key)
    (hfull : ∀ i < keys.length, FullPage text_rows_ text_cols_ content
      (offsetOf text_rows_ text_cols_ content i)) : ∃ st' p,
    st.run percent (.showFile filename (.inr content) :: keys.map .key) = some st' ∧
      Waits percent st st' p keys.length [] ∧ p.fp.content = content := by
  induction keys using List.reverseRecOn with
  | nil =>
    obtain ⟨st', p, hshow, hwaits, hcontent⟩ :=
      @Idle.showFile _ _ percent _ hrows hcols h filename content
    refine ⟨st', p, ?_, hwaits, hcontent⟩
    rw [List.map_nil, run_singleton]
    simpa [State.step, h.pager] using hshow
  | append_singleton keys key ih =>
    rw [List.forall_mem_append, List.forall_mem_singleton] at hkeys
    rw [List.length_append, List.length_singleton] at hfull ⊢
    obtain ⟨st', p, hrun, hwaits, hcontent⟩ :=
      ih hkeys.1 fun i hi => hfull i (Nat.lt_succ_of_lt hi)
    have hlast := hfull keys.length (Nat.lt_succ_self _)
    rw [← hcontent] at hlast
    obtain ⟨st'', p', hpress, hwaits', hcontent'⟩ := hwaits.down hrows hcols hlast hkeys.2
    refine ⟨st'', p', ?_, hwaits', hcontent'.trans hcontent⟩
    rw [List.map_append, ← List.cons_append, run_append, hrun, Option.bind_some, List.map_singleton,
      run_singleton]
    simpa [State.step, hwaits.shows.pager] using hpress

/-- The states between the call of `ShowFile` in `st₀` and its end, and at its end. -/
inductive Viewing (percent : Nat → Nat → Int) (st₀ : State text_rows_ text_cols_) :
    State text_rows_ text_cols_ → Prop where
  | opened {filename content : List UInt8} {st : State text_rows_ text_cols_}
      (h : st₀.step percent (.showFile filename (.inr content)) = some st) : Viewing percent st₀ st
  | next {st st' : State text_rows_ text_cols_} {e : Event} (h : Viewing percent st₀ st)
      (hp : st.pager ≠ none) (hs : st.step percent e = some st') : Viewing percent st₀ st'

theorem viewing_inv (hrows : 2 ≤ text_rows_) (hcols : 1 ≤ text_cols_) (h₀ : Idle st₀)
    (h : Viewing percent st₀ st) :
    (Idle st ∧ st.ui.text_ = st₀.ui.text_ ∧ st.ui.screen = st₀.ui.screen) ∨
      ∃ p k strs, Waits percent st₀ st p k strs := by
  induction h with
  | @opened filename content st h =>
    obtain ⟨st', p, hshow, hwaits, -⟩ :=
      @Idle.showFile _ _ percent _ hrows hcols h₀ filename content
    simp only [State.step, h₀.pager, hshow, Option.some.injEq] at h
    rw [← h]
    exact .inr ⟨p, 0, [], hwaits⟩
  | @next st st' e h hp hs ih =>
    rcases ih with ⟨hidle, -⟩ | ⟨p, k, strs, hwaits⟩
    · exact absurd hidle.pager hp
    · obtain ⟨st'', hstep, hinv⟩ := step_waits hrows hcols h₀ hwaits e
      rw [hs, Option.some.injEq] at hstep
      rw [hstep]
      exact hinv

/-- The same pager, wherever it was opened. -/
theorem Waits.pager_unique {strs' : List (List UInt8)} (h : Waits percent st₀ st p k strs)
    (h' : Waits percent st₀ st' p' k strs') (hcontent : p'.fp.content = p.fp.content) : p' = p := by
  obtain ⟨⟨content, offset, eof⟩, offsets, old_text, old_text_col, old_text_row⟩ := p
  obtain ⟨⟨content', offset', eof'⟩, offsets', old_text', old_text_col', old_text_row'⟩ := p'
  obtain rfl : content' = content := hcontent
  have hoffset : offset' = offset := h'.shows.offset.trans h.shows.offset.symm
  have heof : eof' = eof := Bool.eq_iff_iff.2 (h'.eof.trans h.eof.symm)
  have hoffsets : offsets' = offsets := h'.keeps.offsets.trans h.keeps.offsets.symm
  have htext : old_text' = old_text := h'.keeps.old_text.trans h.keeps.old_text.symm
  have hcol : old_text_col' = old_text_col := h'.keeps.old_text_col.trans h.keeps.old_text_col.symm
  have hrow : old_text_row' = old_text_row := h'.keeps.old_text_row.trans h.keeps.old_text_row.symm
  rw [hoffset, heof, hoffsets, htext, hcol, hrow]

/-- A page looks the same every time. -/
theorem Shows.screen_eq (h : Shows percent st p o strs) (h' : Shows percent st' p o strs) :
    st'.ui.screen = st.ui.screen := by
  obtain ⟨t, ht, htext⟩ := h.text
  obtain ⟨t', ht', htext'⟩ := h'.text
  rw [Painted.unique ht ht', htext'] at htext
  exact Option.some.inj htext

/-- A prompt that fits in its row leaves the page as it is. -/
theorem Shows.page (hrows : 1 ≤ text_rows_) (h : Shows percent st p o [])
    (hfits : (prompt percent p.fp).length ≤ text_cols_) : ∃ t : Text text_rows_ text_cols_,
    PageText p.fp.content o t ∧
      ∀ i j, i.1 ≠ text_rows_ - 1 → st.ui.screen.text_ i j = t i j := by
  obtain ⟨t, ht, htext⟩ := h.text
  obtain ⟨s, hs, hsame⟩ := @Screen.PrintV_fits text_rows_ text_cols_ ⟨t, 0, text_rows_ - 1⟩ _
    (newline_notMem_prompt percent p.fp) (by dsimp only; omega) (by simpa using hfits)
  refine ⟨t, ht, fun i j hi => ?_⟩
  have hscreen : st.ui.screen = s := by
    simpa [hs, eq_comm] using htext
  rw [hscreen]
  exact hsame i j hi

/-! ## Every run -/

/-- What holds of every run of a screen with these sizes. -/
structure PagerSpec (text_rows_ text_cols_ : Nat) (percent : Nat → Nat → Int) : Prop where
  /-- No access is outside of a buffer. -/
  in_bounds : ∀ events, ∃ st,
    (State.init : State text_rows_ text_cols_).run percent events = some st
  /-- What is drawn is in a buffer: the cursor is, and every row has a zero at its end. -/
  drawable : ∀ events (st : State text_rows_ text_cols_),
    State.init.run percent events = some st →
      st.ui.screen.Valid ∧ ∀ b, (st.ui.buffers b).Terminated
  /-- Where a pager waits, the screen has one page, the prompt, and what was printed since. -/
  one_page : ∀ events (st : State text_rows_ text_cols_) p,
    State.init.run percent events = some st → st.pager = some p →
      ∃ o strs, Shows percent st p o strs
  /-- Every byte of a page but the newlines has one cell above the last row, in order. -/
  placed : ∀ content o,
    (cells text_rows_ text_cols_ content o).map (·.2) =
      (pageOf text_rows_ text_cols_ content o).filter (· ≠ newline) ∧
    ((cells text_rows_ text_cols_ content o).Pairwise fun p q => Layout.Before p.1 q.1) ∧
    ∀ p ∈ cells text_rows_ text_cols_ content o, p.1.1 < text_rows_ - 1 ∧ p.1.2 < text_cols_
  /-- A prompt that fits in the last row leaves the page as it is. -/
  page_kept : ∀ (st : State text_rows_ text_cols_) p o, Shows percent st p o [] →
    (prompt percent p.fp).length ≤ text_cols_ → ∃ t : Text text_rows_ text_cols_,
      PageText p.fp.content o t ∧ ∀ i j, i.1 ≠ text_rows_ - 1 → st.ui.screen.text_ i j = t i j
  /-- Paging down from the start shows consecutive pages, which are the file, and then ends. -/
  paging_down : ∀ events (st : State text_rows_ text_cols_) filename content,
    State.init.run percent events = some st → st.pager = none → ∃ n,
      (∀ keys : List Int, (∀ key ∈ keys, IsDown key) → keys.length ≤ n → ∃ st' p,
        st.run percent (.showFile filename (.inr content) :: keys.map .key) = some st' ∧
        p.fp.content = content ∧
        Shows percent st' p (offsetOf text_rows_ text_cols_ content keys.length) []) ∧
      (∀ keys : List Int, (∀ key ∈ keys, IsDown key) → keys.length = n + 1 → ∃ st',
        st.run percent (.showFile filename (.inr content) :: keys.map .key) = some st' ∧
        st'.pager = none) ∧
      (List.range (n + 1)).flatMap (fun k => pageOf text_rows_ text_cols_ content
        (offsetOf text_rows_ text_cols_ content k)) = content
  /-- Up from a page that is not the first one, and down again. -/
  up_down : ∀ events (st : State text_rows_ text_cols_) p up down,
    State.init.run percent events = some st → st.pager = some p → 1 < p.offsets.length →
      IsUp up → IsDown down → ∃ o strs st₁ p₁ o₁ st₂, Shows percent st p o strs ∧
        st.run percent [.key up] = some st₁ ∧ Shows percent st₁ p₁ o₁ [] ∧
        p.offsets[1]? = some o₁ ∧ p₁.fp.content = p.fp.content ∧
        st₁.run percent [.key down] = some st₂ ∧ Shows percent st₂ p o []
  /-- Down from a page with the file not at its end, and up again. -/
  down_up : ∀ events (st : State text_rows_ text_cols_) p up down,
    State.init.run percent events = some st → st.pager = some p → p.fp.eof = false →
      IsUp up → IsDown down → ∃ o strs st₁ p₁ st₂, Shows percent st p o strs ∧
        st.run percent [.key down] = some st₁ ∧ Shows percent st₁ p₁ p.fp.offset [] ∧
        p₁.fp.content = p.fp.content ∧
        st₁.run percent [.key up] = some st₂ ∧ Shows percent st₂ p o []
  /-- A page looks the same every time. -/
  same_page : ∀ (st st' : State text_rows_ text_cols_) p o, Shows percent st p o [] →
    Shows percent st' p o [] → st'.ui.screen = st.ui.screen
  /-- After the pager the text, the column and the row are those from before. -/
  restored : ∀ events (st st' : State text_rows_ text_cols_),
    State.init.run percent events = some st → st.pager = none → Viewing percent st st' →
      st'.pager = none → st'.ui.text_ = st.ui.text_ ∧ st'.ui.screen = st.ui.screen

theorem inv_of_run (hrows : 2 ≤ text_rows_) (hcols : 1 ≤ text_cols_) {events : List Event}
    (h : State.init.run percent events = some st) : Inv percent st := by
  obtain ⟨st', hrun, hinv⟩ := @run_inv _ _ percent _ hrows hcols (.inl (idle_init hrows)) events
  rw [h, Option.some.injEq] at hrun
  rwa [hrun]

theorem idle_of_run (hrows : 2 ≤ text_rows_) (hcols : 1 ≤ text_cols_) {events : List Event}
    (h : State.init.run percent events = some st) (hp : st.pager = none) : Idle st := by
  rcases inv_of_run hrows hcols h with hidle | ⟨st₀, p, k, strs, -, hwaits⟩
  · exact hidle
  · rw [hwaits.shows.pager] at hp
    cases hp

theorem waits_of_run (hrows : 2 ≤ text_rows_) (hcols : 1 ≤ text_cols_) {events : List Event}
    (h : State.init.run percent events = some st) (hp : st.pager = some p) :
    ∃ st₀ k strs, Waits percent st₀ st p k strs := by
  rcases inv_of_run hrows hcols h with hidle | ⟨st₀, p', k, strs, -, hwaits⟩
  · rw [hidle.pager] at hp
    cases hp
  · have hpager := hwaits.shows.pager
    rw [hp, Option.some.injEq] at hpager
    rw [hpager]
    exact ⟨st₀, k, strs, hwaits⟩

theorem Waits.run_key (h : Waits percent st₀ st p k strs) (key : Int) :
    st.run percent [.key key] = st.pressKey percent p key := by
  rw [run_singleton]
  simp [State.step, h.shows.pager]

theorem paging_down (hrows : 2 ≤ text_rows_) (hcols : 1 ≤ text_cols_) (h : Idle st)
    (filename content : List UInt8) : ∃ n,
    (∀ keys : List Int, (∀ key ∈ keys, IsDown key) → keys.length ≤ n → ∃ st' p,
      st.run percent (.showFile filename (.inr content) :: keys.map .key) = some st' ∧
      p.fp.content = content ∧
      Shows percent st' p (offsetOf text_rows_ text_cols_ content keys.length) []) ∧
    (∀ keys : List Int, (∀ key ∈ keys, IsDown key) → keys.length = n + 1 → ∃ st',
      st.run percent (.showFile filename (.inr content) :: keys.map .key) = some st' ∧
      st'.pager = none) ∧
    (List.range (n + 1)).flatMap (fun k => pageOf text_rows_ text_cols_ content
      (offsetOf text_rows_ text_cols_ content k)) = content := by
  obtain ⟨n, hfull, hlast⟩ :=
    @Layout.exists_last _ _ newline text_cols_ (text_rows_ - 1) content
  refine ⟨n, fun keys hkeys hle => ?_, fun keys hkeys hlen => ?_, ?_⟩
  · obtain ⟨st', p, hrun, hwaits, hcontent⟩ := @run_downs _ _ percent _ hrows hcols h filename
      content keys hkeys fun i hi => hfull i (Nat.lt_of_lt_of_le hi hle)
    have hshows := hwaits.shows
    rw [hcontent] at hshows
    exact ⟨st', p, hrun, hcontent, hshows⟩
  · obtain ⟨keys, key, rfl⟩ := (List.eq_nil_or_concat' keys).resolve_left (by
      rintro rfl
      cases hlen)
    rw [List.length_append, List.length_singleton, Nat.add_right_cancel_iff] at hlen
    rw [List.forall_mem_append, List.forall_mem_singleton] at hkeys
    obtain ⟨st', p, hrun, hwaits, hcontent⟩ := @run_downs _ _ percent _ hrows hcols h filename
      content keys hkeys.1 fun i hi => hfull i (by omega)
    have hend : ¬ FullPage text_rows_ text_cols_ p.fp.content
        (offsetOf text_rows_ text_cols_ p.fp.content keys.length) := by
      rw [hcontent, hlen]
      exact hlast
    refine ⟨st'.close p, ?_, rfl⟩
    rw [List.map_append, ← List.cons_append, run_append, hrun, Option.bind_some, List.map_singleton,
      hwaits.run_key, hwaits.ends hend hkeys.2]
  · have hpages := @Layout.flatMap_page _ _ newline text_cols_ (text_rows_ - 1) content (n + 1)
    refine hpages.trans (List.take_of_length_le ?_)
    rw [Layout.pageStart, Layout.pageLen_eq_length hlast, List.length_drop]
    omega

/-- **Prints and the pager stay in their buffers, and the pager shows the pages of the file.** -/
theorem pager_spec (hrows : 2 ≤ text_rows_) (hcols : 1 ≤ text_cols_)
    (percent : Nat → Nat → Int) : PagerSpec text_rows_ text_cols_ percent where
  in_bounds events := by
    obtain ⟨st, hrun, -⟩ := @run_inv _ _ percent _ hrows hcols (.inl (idle_init hrows)) events
    exact ⟨st, hrun⟩
  drawable events st hrun := by
    rcases inv_of_run hrows hcols hrun with hidle | ⟨st₀, p, k, strs, -, hwaits⟩
    · exact ⟨hidle.valid, hidle.terminated⟩
    · exact ⟨hwaits.valid, hwaits.keeps.terminated⟩
  one_page events st p hrun hp := by
    obtain ⟨st₀, k, strs, hwaits⟩ := waits_of_run hrows hcols hrun hp
    exact ⟨_, strs, hwaits.shows⟩
  placed := cells_spec hrows hcols
  page_kept st p o hshows hfits := hshows.page (by omega) hfits
  paging_down events st filename content hrun hp :=
    ScreenUi.paging_down hrows hcols (idle_of_run hrows hcols hrun hp) filename content
  up_down events st p up down hrun hp hlen hup hdown := by
    obtain ⟨st₀, k, strs, hwaits⟩ := waits_of_run hrows hcols hrun hp
    cases k with
    | zero =>
      rw [hwaits.keeps.offsets, stack_zero] at hlen
      exact absurd hlen (by decide)
    | succ k =>
      obtain ⟨st₁, p₁, hpress₁, hwaits₁, hcontent₁⟩ := hwaits.up hrows hcols hup
      have hfull := hwaits.keeps.full k (Nat.lt_succ_self k)
      rw [← hcontent₁] at hfull
      obtain ⟨st₂, p₂, hpress₂, hwaits₂, hcontent₂⟩ := hwaits₁.down hrows hcols hfull hdown
      obtain rfl := hwaits.pager_unique hwaits₂ (hcontent₂.trans hcontent₁)
      obtain ⟨rest, hrest⟩ := @stack_eq_cons text_rows_ text_cols_ p₂.fp.content k
      have hback : p₂.offsets[1]? = some (offsetOf text_rows_ text_cols_ p₁.fp.content k) := by
        rw [hwaits.keeps.offsets, stack_succ, hrest, hcontent₁]
        rfl
      exact ⟨_, strs, st₁, p₁, _, st₂, hwaits.shows, (hwaits.run_key up).trans hpress₁,
        hwaits₁.shows, hback, hcontent₁, (hwaits₁.run_key down).trans hpress₂, hwaits₂.shows⟩
  down_up events st p up down hrun hp heof hup hdown := by
    obtain ⟨st₀, k, strs, hwaits⟩ := waits_of_run hrows hcols hrun hp
    have hfull : FullPage text_rows_ text_cols_ p.fp.content
        (offsetOf text_rows_ text_cols_ p.fp.content k) := by
      rw [← not_not (a := FullPage _ _ _ _), ← hwaits.eof, heof]
      exact Bool.false_ne_true
    obtain ⟨st₁, p₁, hpress₁, hwaits₁, hcontent₁⟩ := hwaits.down hrows hcols hfull hdown
    obtain ⟨st₂, p₂, hpress₂, hwaits₂, hcontent₂⟩ := hwaits₁.up hrows hcols hup
    obtain rfl := hwaits.pager_unique hwaits₂ (hcontent₂.trans hcontent₁)
    have hnext : p₂.fp.offset = offsetOf text_rows_ text_cols_ p₁.fp.content (k + 1) := by
      rw [hwaits.shows.offset, hcontent₁, offsetOf_succ]
    have hshows := hwaits₁.shows
    rw [← hnext] at hshows
    exact ⟨_, strs, st₁, p₁, st₂, hwaits.shows, (hwaits.run_key down).trans hpress₁,
      hshows, hcontent₁, (hwaits₁.run_key up).trans hpress₂, hwaits₂.shows⟩
  same_page _ _ _ _ h h' := h.screen_eq h'
  restored events st st' hrun hp hviewing hend := by
    have h₀ := idle_of_run hrows hcols hrun hp
    rcases viewing_inv hrows hcols h₀ hviewing with ⟨-, hrest⟩ | ⟨p, k, strs, hwaits⟩
    · exact hrest
    · rw [hwaits.shows.pager] at hend
      cases hend

/-- In whole numbers. -/
def percentOf (offset size : Nat) : Int := ((100 * offset / size : Nat) : Int)

theorem pager_spec_small : PagerSpec 2 1 percentOf := pager_spec (by decide) (by decide) percentOf

/-- Up on the first page and then down does not show it again, and on a narrow screen the prompt is
written over the page. -/
theorem first_page_up :
    (((State.init : State 2 40).run percentOf [.showFile [] (.inr [97, 10, 98])]).map
      fun st => st.ui.screen.text_ 0 0) = some 97 ∧
    (((State.init : State 2 40).run percentOf
      [.showFile [] (.inr [97, 10, 98]), .key KEY_UP, .key 114]).map
      fun st => st.ui.screen.text_ 0 0) = some 98 ∧
    (((State.init : State 2 1).run percentOf [.showFile [] (.inr [97])]).map
      fun st => decide (∀ i j, st.ui.screen.text_ i j ≠ 97)) = some true := by
  decide +kernel

end Recovery.ScreenUi
