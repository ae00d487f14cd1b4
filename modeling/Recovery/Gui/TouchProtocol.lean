import Recovery.Gui.InputHandler

/-!
# The protocol of a touch (`gui/gui.cpp`, `gui/pages.cpp`)

* `Pending` — an object has handled `TOUCH_START` and was not notified of a release since.
* `Protocol` — a touch starts where none is pending, and all else is for the object where one is.
* `Inv` — the pending object is `mTouchStart` of the page.
* `Same`, `step_cases` — a step notifies once at most; `startsTouch` — the place of a touch that it
  starts.
* `NotifyTouch_inv`, `notifyStart_inv` — the invariant, if no touch starts over a pending one.
* `step_breaks` — one that does.
* `touch_protocol_iff` — over runs.
* `key_restarts_touch` — a key that is pressed during a touch.
-/

set_option autoImplicit false

namespace Recovery.Gui.InputHandler

variable {ω : Type}

/-! ## The protocol -/

/-- The object has handled `TOUCH_START`, and there was no release since. -/
def Pending (object : Nat) (notices : List Notice) : Prop :=
  ∃ before ret after, notices = before ++ ⟨object, .start, ret⟩ :: after ∧ 0 ≤ ret ∧
    ∀ n ∈ after, n.object = object → n.state ≠ .release

/-- What may be the next notice: a start if nothing is pending, and else one for an object that is. -/
def Fits (before : List Notice) (n : Notice) : Prop :=
  if n.state = .start then ∀ object, ¬ Pending object before else Pending n.object before

def Protocol (notices : List Notice) : Prop :=
  ∀ before n after, notices = before ++ n :: after → Fits before n

theorem protocol_nil : Protocol [] := by
  intro before n after h
  simp at h

theorem protocol_append {notices : List Notice} {n : Notice} :
    Protocol (notices ++ [n]) ↔ Protocol notices ∧ Fits notices n := by
  constructor
  · intro h
    refine ⟨fun before m after heq => h before m (after ++ [n]) ?_, h notices n [] rfl⟩
    rw [heq, List.append_assoc]
    rfl
  · rintro ⟨h, hn⟩ before m after heq
    rcases List.eq_nil_or_concat after with rfl | ⟨after, m', rfl⟩
    · obtain ⟨rfl, rfl⟩ := List.append_inj' heq rfl |>.imp id List.singleton_inj.1
      exact hn
    · apply h before m after
      have hinit : notices ++ [n] = (before ++ m :: after) ++ [m'] := by
        rw [heq, List.append_assoc]
        simp
      exact (List.append_inj' hinit rfl).1

theorem Protocol.prefix {notices more : List Notice} (h : Protocol (notices ++ more)) :
    Protocol notices := by
  intro before n after heq
  apply h before n (after ++ more)
  rw [heq, List.append_assoc]
  rfl

theorem not_pending_nil (object : Nat) : ¬ Pending object [] := by
  rintro ⟨before, ret, after, h, -⟩
  simp at h

theorem pending_append {object : Nat} {notices : List Notice} {n : Notice} :
    Pending object (notices ++ [n]) ↔ (n.object = object ∧ n.state = .start ∧ 0 ≤ n.ret) ∨
      (Pending object notices ∧ ¬ (n.object = object ∧ n.state = .release)) := by
  constructor
  · rintro ⟨before, ret, after, heq, hret, hafter⟩
    rcases List.eq_nil_or_concat after with rfl | ⟨after, m, rfl⟩
    · obtain ⟨-, hn⟩ := List.append_inj' heq rfl
      cases List.singleton_inj.1 hn
      exact .inl ⟨rfl, rfl, hret⟩
    · right
      have hinit : notices ++ [n] = (before ++ ⟨object, .start, ret⟩ :: after) ++ [m] := by
        rw [heq, List.append_assoc]
        simp
      obtain ⟨hnotices, hn⟩ := List.append_inj' hinit rfl
      cases List.singleton_inj.1 hn
      simp only [List.concat_eq_append, List.mem_append, List.mem_singleton] at hafter
      exact ⟨⟨before, ret, after, hnotices, hret, fun m hm => hafter m (.inl hm)⟩,
        fun ⟨hobject, hrelease⟩ => hafter n (.inr rfl) hobject hrelease⟩
  · rintro (⟨rfl, hstart, hret⟩ | ⟨⟨before, ret, after, rfl, hret, hafter⟩, hn⟩)
    · refine ⟨notices, n.ret, [], ?_, hret, nofun⟩
      rw [← hstart]
    · refine ⟨before, ret, after ++ [n], by simp, hret, ?_⟩
      intro m hm hobject
      rcases List.mem_append.1 hm with hm | hm
      · exact hafter m hm hobject
      · cases List.mem_singleton.1 hm
        exact fun hrelease => hn ⟨hobject, hrelease⟩

/-! ## The page -/

/-- What the page remembers is what is pending. -/
structure Inv (s : InputHandler ω) : Prop where
  protocol : Protocol s.notices
  pending : ∀ object, Pending object s.notices ↔ s.mTouchStart = some object

/-- Nobody was notified. -/
structure Same (s s' : InputHandler ω) : Prop where
  notices : s'.notices = s.notices
  mTouchStart : s'.mTouchStart = s.mTouchStart

theorem Same.rfl {s : InputHandler ω} : Same s s := ⟨Eq.refl _, Eq.refl _⟩

theorem Inv.same {s s' : InputHandler ω} (h : Inv s) (hs : Same s s') : Inv s' := by
  refine ⟨?_, fun object => ?_⟩
  · rw [hs.notices]
    exact h.protocol
  · rw [hs.notices, hs.mTouchStart]
    exact h.pending object

theorem init_inv (world : ω) : Inv (init world) := by
  refine ⟨protocol_nil, fun object => ?_⟩
  simp [init, not_pending_nil]

variable (d : Device ω)

/-- All but a start is passed on to the object where the touch started. -/
theorem NotifyTouch_inv {state : TouchState} (hstate : state ≠ .start) {s : InputHandler ω}
    (h : Inv s) : Inv (NotifyTouch d state s).2 := by
  unfold NotifyTouch
  split
  · exact h
  · cases hstart : s.mTouchStart with
    | none =>
      cases state with
      | start => contradiction
      | drag | release | hold | «repeat» => exact h
    | some object =>
      have hpending : Pending object s.notices := (h.pending object).2 hstart
      have hfits : ∀ ret, Fits s.notices ⟨object, state, ret⟩ := by
        intro ret
        rw [Fits, if_neg hstate]
        exact hpending
      have honly : ∀ other, Pending other s.notices ↔ other = object := by
        intro other
        rw [h.pending, hstart, Option.some_inj]
        exact eq_comm
      have hkept : state ≠ .release → Inv (notify d object state s).2 := by
        intro hrelease
        refine ⟨protocol_append.2 ⟨h.protocol, hfits _⟩, fun other => ?_⟩
        rw [notify, pending_append, honly]
        dsimp only
        rw [hstart]
        simp only [hstate, hrelease]
        simp [eq_comm]
      cases state with
      | start => contradiction
      | release =>
        refine ⟨protocol_append.2 ⟨h.protocol, hfits _⟩, fun other => ?_⟩
        dsimp only
        rw [notify, pending_append, honly]
        simp [eq_comm]
      | drag | hold | «repeat» => exact hkept nofun

/-- A touch that starts while none is pending. -/
theorem notifyStart_inv (objects : List Nat) (ret : Int) {s : InputHandler ω} (h : Inv s)
    (hnone : s.mTouchStart = none) : Inv (notifyStart d objects ret s).2 := by
  induction objects generalizing ret s with
  | nil => exact h
  | cons object objects ih =>
    have hpending : ∀ other, ¬ Pending other s.notices := by
      intro other hother
      cases hnone.symm.trans ((h.pending other).1 hother)
    have hprotocol : ∀ ret, Protocol (s.notices ++ [⟨object, .start, ret⟩]) := by
      intro ret
      refine protocol_append.2 ⟨h.protocol, ?_⟩
      rw [Fits, if_pos rfl]
      exact hpending
    have hstarted : ∀ ret other,
        Pending other (s.notices ++ [⟨object, .start, ret⟩]) ↔ object = other ∧ 0 ≤ ret := by
      intro ret other
      rw [pending_append]
      simp [hpending other]
    rw [notifyStart]
    split
    · dsimp only
      split
      · rename_i hret
        refine ⟨hprotocol _, fun other => ?_⟩
        rw [notify] at hret ⊢
        refine (hstarted _ other).trans ?_
        simpa using fun _ => hret
      · rename_i hret
        apply ih
        · refine ⟨hprotocol _, fun other => ?_⟩
          rw [notify] at hret ⊢
          refine (hstarted _ other).trans ?_
          simpa using fun _ => hret
        · rfl
    · exact ih ret h hnone

/-- A touch that hits no object. -/
theorem notifyStart_outside {objects : List Nat} (ret : Int) {s : InputHandler ω}
    (h : ∀ object ∈ objects, d.isInRegion object s.x s.y s.world = false) :
    (notifyStart d objects ret s).2 = s := by
  induction objects generalizing ret with
  | nil => rfl
  | cons object objects ih =>
    obtain ⟨hobject, hobjects⟩ := List.forall_mem_cons.1 h
    rw [notifyStart, if_neg (by rw [hobject]; nofun)]
    exact ih ret hobjects

theorem notifyStart_notices (objects : List Nat) (ret : Int) (s : InputHandler ω) :
    ∃ more, (notifyStart d objects ret s).2.notices = s.notices ++ more := by
  induction objects generalizing ret s with
  | nil => exact ⟨[], (List.append_nil _).symm⟩
  | cons object objects ih =>
    rw [notifyStart]
    split
    · dsimp only
      split
      · exact ⟨_, rfl⟩
      · obtain ⟨more, hmore⟩ := ih (notify d object .start { s with mTouchStart := some object }).1
          { (notify d object .start { s with mTouchStart := some object }).2 with
            mTouchStart := none }
        exact ⟨⟨object, .start, _⟩ :: more, hmore.trans (List.append_assoc ..)⟩
    · exact ih ret s

/-- One that hits an object: the object is notified of it. -/
theorem notifyStart_hits {objects : List Nat} (ret : Int) {s : InputHandler ω} {object : Nat}
    (hmem : object ∈ objects) (h : d.isInRegion object s.x s.y s.world = true) :
    ∃ n more, n.state = .start ∧
      (notifyStart d objects ret s).2.notices = s.notices ++ [n] ++ more := by
  induction objects generalizing ret with
  | nil => cases hmem
  | cons first objects ih =>
    rw [notifyStart]
    split
    · dsimp only
      split
      · exact ⟨⟨first, .start, _⟩, [], rfl, (List.append_nil _).symm⟩
      · obtain ⟨more, hmore⟩ := notifyStart_notices d objects _ _
        exact ⟨⟨first, .start, _⟩, more, rfl, hmore⟩
    · rename_i hfirst
      rcases List.mem_cons.1 hmem with rfl | hmem
      · exact absurd h hfirst
      · exact ih ret hmem

/-! ## Steps -/

/-- Where a touch starts in a step. -/
def startsTouch (s : InputHandler ω) : InputEvent → Option (Int × Int)
  | .abs code value =>
    if code ≠ 0 ∧ s.touch_status = .none ∧ d.touchSync = none then
      some (value / 65536, value % 65536)
    else none
  | .key code value =>
    if code = BTN_LEFT then if value = 1 then some (d.cursorPos s.world) else none
    else if code ≠ BTN_SIDE ∧ value ≠ 0 ∧ d.touchSync = some code then some (s.x, s.y)
    else none
  | .rel _ _ | .timeout _ | .render => none

/-- A step that notifies objects of something else than a start, or of nothing. -/
def Passes (s s' : InputHandler ω) : Prop :=
  Same s s' ∨ ∃ state s₁, state ≠ .start ∧ Same s s₁ ∧ Same (NotifyTouch d state s₁).2 s'

theorem doTouchStart_same (s : InputHandler ω) :
    Same (NotifyTouch d .start s).2 (doTouchStart d s) :=
  ⟨rfl, rfl⟩

/-- **What a step does**. -/
theorem step_cases (s : InputHandler ω) (e : InputEvent) :
    (startsTouch d s e = none ∧ Passes d s (step d s e)) ∨
      ∃ x y, startsTouch d s e = some (x, y) ∧
        Same (NotifyTouch d .start { s with x, y }).2 (step d s e) := by
  cases e with
  | abs code value =>
    rw [startsTouch, step, process_EV_ABS]
    by_cases hcode : code = 0
    · refine .inl ⟨if_neg (fun h => h.1 hcode), ?_⟩
      rw [if_pos hcode]
      split
      · dsimp only
        split
        · exact .inr ⟨.release, { s with x := value / 65536, y := value % 65536 }, nofun, ⟨rfl, rfl⟩, rfl, rfl⟩
        · exact .inl ⟨rfl, rfl⟩
      · exact .inl ⟨rfl, rfl⟩
    · rw [if_neg hcode]
      by_cases hnone : s.touch_status = .none
      · by_cases hsync : d.touchSync = none
        · refine .inr ⟨value / 65536, value % 65536, if_pos ⟨hcode, hnone, hsync⟩, ?_⟩
          rw [if_pos hnone, if_pos hsync]
          exact doTouchStart_same d _
        · refine .inl ⟨if_neg (fun h => hsync h.2.2), ?_⟩
          rw [if_pos hnone, if_neg hsync]
          exact .inl ⟨rfl, rfl⟩
      · refine .inl ⟨if_neg (fun h => hnone h.2.1), ?_⟩
        rw [if_neg hnone]
        exact .inl ⟨rfl, rfl⟩
  | rel code value =>
    refine .inl ⟨rfl, .inl ?_⟩
    rw [step, process_EV_REL]
    dsimp only
    split <;> split <;> try split
    all_goals exact ⟨rfl, rfl⟩
  | key code value =>
    rw [startsTouch, step, process_EV_KEY]
    by_cases hleft : code = BTN_LEFT
    · rw [if_pos hleft, if_pos hleft]
      by_cases hone : value = 1
      · rw [if_pos hone, if_pos hone]
        exact .inr ⟨_, _, rfl, doTouchStart_same d _⟩
      · rw [if_neg hone, if_neg hone]
        refine .inl ⟨rfl, ?_⟩
        split
        · dsimp only
          split
          · exact .inr ⟨.release, getPos d s, nofun, ⟨rfl, rfl⟩, rfl, rfl⟩
          · exact .inl ⟨rfl, rfl⟩
        · exact .inl ⟨rfl, rfl⟩
    · rw [if_neg hleft, if_neg hleft]
      by_cases hside : code = BTN_SIDE
      · refine .inl ⟨if_neg (fun h => h.1 hside), .inl ?_⟩
        rw [if_pos hside]
        split <;> exact ⟨rfl, rfl⟩
      · rw [if_neg hside]
        by_cases hvalue : value = 0
        · refine .inl ⟨if_neg (fun h => h.2.1 hvalue), ?_⟩
          rw [if_neg (not_not.2 hvalue)]
          dsimp only
          split
          · exact .inr ⟨.release, { keyUp d code s with key_status := .none, touch_status := .none }, nofun, ⟨rfl, rfl⟩, rfl, rfl⟩
          · exact .inl ⟨rfl, rfl⟩
        · rw [if_pos hvalue]
          by_cases hsync : d.touchSync = some code
          · refine .inr ⟨s.x, s.y, if_pos ⟨hside, hvalue, hsync⟩, ?_⟩
            rw [if_pos hsync]
            exact doTouchStart_same d s
          · refine .inl ⟨if_neg (fun h => hsync h.2.2), .inl ?_⟩
            rw [if_neg hsync]
            exact ⟨rfl, rfl⟩
  | timeout mtime =>
    refine .inl ⟨rfl, ?_⟩
    rw [step]
    split
    · rw [processHoldAndRepeat]
      split
      · exact .inr ⟨.hold, { s with touch_status := .touchRepeat }, nofun, ⟨rfl, rfl⟩, rfl, rfl⟩
      · split
        · exact .inr ⟨.repeat, s, nofun, Same.rfl, Same.rfl⟩
        · split
          · exact .inl ⟨rfl, rfl⟩
          · split <;> exact .inl ⟨rfl, rfl⟩
    · exact .inl Same.rfl
  | render =>
    refine .inl ⟨rfl, ?_⟩
    rw [step, handleDrag]
    split
    · exact .inr ⟨.drag, { s with prevx := s.x, prevy := s.y }, nofun, ⟨rfl, rfl⟩, rfl, rfl⟩
    · exact .inl Same.rfl

/-! ## Runs -/

theorem NotifyTouch_notices (state : TouchState) (s : InputHandler ω) :
    ∃ more, (NotifyTouch d state s).2.notices = s.notices ++ more := by
  unfold NotifyTouch
  split
  · exact ⟨[], (List.append_nil _).symm⟩
  · split
    · exact notifyStart_notices d _ _ s
    · exact ⟨_, rfl⟩
    · exact ⟨_, rfl⟩
    · exact ⟨[], (List.append_nil _).symm⟩

theorem step_notices (s : InputHandler ω) (e : InputEvent) :
    ∃ more, (step d s e).notices = s.notices ++ more := by
  rcases step_cases d s e with ⟨-, hs | ⟨state, s₁, -, hs, hs'⟩⟩ | ⟨x, y, -, hs'⟩
  · exact ⟨[], by rw [hs.notices, List.append_nil]⟩
  · obtain ⟨more, hmore⟩ := NotifyTouch_notices d state s₁
    exact ⟨more, by rw [hs'.notices, hmore, hs.notices]⟩
  · obtain ⟨more, hmore⟩ := NotifyTouch_notices d .start { s with x, y }
    exact ⟨more, by rw [hs'.notices, hmore]⟩

theorem run_notices (s : InputHandler ω) (events : List InputEvent) :
    ∃ more, (run d s events).notices = s.notices ++ more := by
  induction events generalizing s with
  | nil => exact ⟨[], (List.append_nil _).symm⟩
  | cons e events ih =>
    obtain ⟨first, hfirst⟩ := step_notices d s e
    obtain ⟨more, hmore⟩ := ih (step d s e)
    exact ⟨first ++ more, by rw [← List.append_assoc, ← hfirst]; exact hmore⟩

/-- No touch starts over one that is pending. -/
def Allowed (s : InputHandler ω) (e : InputEvent) : Prop :=
  ∀ x y, startsTouch d s e = some (x, y) →
    s.mTouchStart = none ∨ ∀ object < d.mActions, d.isInRegion object x y s.world = false

/-- Along a run. -/
def AllAllowed : InputHandler ω → List InputEvent → Prop
  | _, [] => True
  | s, e :: events => Allowed d s e ∧ AllAllowed (step d s e) events

theorem Inv.passes {s s' : InputHandler ω} (h : Inv s) (hs : Passes d s s') : Inv s' := by
  rcases hs with hs | ⟨state, s₁, hstate, hs, hs'⟩
  · exact h.same hs
  · exact (NotifyTouch_inv d hstate (h.same hs)).same hs'

theorem step_inv {s : InputHandler ω} {e : InputEvent} (h : Inv s) (hallowed : Allowed d s e) :
    Inv (step d s e) := by
  rcases step_cases d s e with ⟨-, hs⟩ | ⟨x, y, hstarts, hs'⟩
  · exact h.passes d hs
  · refine Inv.same ?_ hs'
    have hat : Inv { s with x, y } := h.same ⟨rfl, rfl⟩
    rw [NotifyTouch]
    split
    · exact hat
    · rcases hallowed x y hstarts with hnone | houtside
      · exact notifyStart_inv d _ 1 hat hnone
      · rw [notifyStart_outside d 1 (s := { s with x, y })]
        · exact hat
        · intro object hobject
          exact houtside object (List.mem_range.1 (List.mem_reverse.1 hobject))

/-- A touch that starts over a pending one, and hits an object. -/
theorem step_breaks {s : InputHandler ω} {e : InputEvent} (h : Inv s)
    (hallowed : ¬ Allowed d s e) : ¬ Protocol (step d s e).notices := by
  simp only [Allowed, not_forall, not_or] at hallowed
  obtain ⟨x, y, hstarts, hstart, object, hlt, hregion⟩ := hallowed
  rcases step_cases d s e with ⟨hnone, -⟩ | ⟨x', y', hstarts', hs'⟩
  · cases hnone.symm.trans hstarts
  · cases hstarts.symm.trans hstarts'
    obtain ⟨pending, hpending⟩ := Option.ne_none_iff_exists'.1 hstart
    have hactions : d.mActions ≠ 0 := by omega
    have hmem : object ∈ (List.range d.mActions).reverse :=
      List.mem_reverse.2 (List.mem_range.2 hlt)
    obtain ⟨n, more, hn, hnotices⟩ := notifyStart_hits d 1 (s := { s with x, y }) hmem
      (by simpa using hregion)
    intro hprotocol
    rw [hs'.notices, NotifyTouch, if_neg hactions] at hprotocol
    dsimp only at hprotocol hnotices
    rw [hnotices] at hprotocol
    have hfits : Fits s.notices n := (protocol_append.1 hprotocol.prefix).2
    rw [Fits, if_pos hn] at hfits
    exact hfits pending ((h.pending pending).2 hpending)

theorem protocol_iff_of_inv {s : InputHandler ω} (h : Inv s) (events : List InputEvent) :
    Protocol (run d s events).notices ↔ AllAllowed d s events := by
  induction events generalizing s with
  | nil => exact iff_of_true h.protocol trivial
  | cons e events ih =>
    by_cases hallowed : Allowed d s e
    · exact (ih (step_inv d h hallowed)).trans (and_iff_right hallowed).symm
    · refine iff_of_false (fun hprotocol => ?_) (fun hall => hallowed hall.1)
      obtain ⟨more, hmore⟩ := run_notices d (step d s e) events
      apply step_breaks d h hallowed
      have hfull : Protocol ((step d s e).notices ++ more) := by
        rw [← hmore]
        exact hprotocol
      exact hfull.prefix

/-- **The protocol holds in a run if and only if no touch is started, on an object, over one that
is pending.** -/
theorem touch_protocol_iff (world : ω) (events : List InputEvent) :
    Protocol (run d (init world) events).notices ↔ AllAllowed d (init world) events :=
  protocol_iff_of_inv d (init_inv world) events

/-- One object, that handles all touches, and a keyboard that nothing is bound to. -/
def oneObject : Device Unit where
  touchSync := none
  mActions := 1
  isInRegion := fun _ _ _ _ => true
  notifyTouch := fun _ _ _ _ _ => (0, ())
  keyDown := fun _ _ => (false, ())
  keyUp := fun _ _ => ()
  keyRepeat := fun _ => ()
  cursorPos := fun _ => (0, 0)
  cursorMove := fun _ _ _ => ()

/-- **A key restarts the touch**: the finger is moved after a volume key was pressed. -/
theorem key_restarts_touch :
    (run oneObject (init ()) [.abs 1 0, .key 115 1, .abs 1 1]).notices =
        [⟨0, .start, 0⟩, ⟨0, .start, 0⟩] ∧
      ¬ Protocol (run oneObject (init ()) [.abs 1 0, .key 115 1, .abs 1 1]).notices := by
  have hnotices : (run oneObject (init ()) [.abs 1 0, .key 115 1, .abs 1 1]).notices =
      [⟨0, .start, 0⟩, ⟨0, .start, 0⟩] := by decide
  refine ⟨hnotices, fun hprotocol => ?_⟩
  rw [hnotices] at hprotocol
  have hfits : Fits [⟨0, .start, 0⟩] ⟨0, .start, 0⟩ := hprotocol _ _ [] rfl
  rw [Fits, if_pos rfl] at hfits
  exact hfits 0 ⟨[], 0, [], rfl, Int.le_refl 0, nofun⟩

end Recovery.Gui.InputHandler
