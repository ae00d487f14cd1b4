import Recovery.Ui.Keys

/-!
# From a registered key to `WaitKey` (`ui.cpp`)

* `keys_delivered` — in every run, over every interleaving: the keys that `EnqueueKey` took are
  those that `WaitKey` returned or dropped and `FlushKeys` erased, in this order, and then those in
  the queue; a key is refused only when 256 are waiting; and what `WaitKey` returns comes from the
  registered keys in their order, at most one key for each.
* `reboot_after_seven` — the device reboots only after seven power keys that were counted while
  rebooting was enabled, with no other key coming to the power test in between.  `CheckKey` returns
  before that test for the chord of POWER with VOLUMEUP or UP and, on a device with few buttons, for
  a long press (which toggles the text or becomes `KEY_ENTER`): such keys neither count nor start
  the count again, so a reboot may well have one of them among its seven power keys.
* `no_reboot_while_disabled` — after `SetEnableReboot(false)` only a power key that had already
  passed its check reboots.
-/

set_option autoImplicit false

namespace Recovery.Ui

open Recovery.Lib (runs runs_invariant)

/-! ## The ledger of the queue -/

def accepted (es : List Event) : List Key :=
  es.filterMap fun | .accepted k => some k | _ => none

/-- The keys passed to `EnqueueKey`. -/
def attempts (es : List Event) : List Key :=
  es.filterMap fun | .accepted k => some k | .rejected k => some k | _ => none

def registered (es : List Event) : List (Key × Bool) :=
  es.filterMap fun | .registered k l => some (k, l) | _ => none

def returned (es : List Event) : List Key := es.filterMap fun | .returned k => k | _ => none

/-- The keys that left the queue. -/
def removed (es : List Event) : List Key :=
  es.flatMap fun | .dropped k => [k] | .returned k => k.toList | .flushed ks => ks | _ => []

section Append

variable (es es' : List Event)

@[simp] theorem accepted_append : accepted (es ++ es') = accepted es ++ accepted es' :=
  List.filterMap_append

@[simp] theorem attempts_append : attempts (es ++ es') = attempts es ++ attempts es' :=
  List.filterMap_append

@[simp] theorem registered_append : registered (es ++ es') = registered es ++ registered es' :=
  List.filterMap_append

@[simp] theorem removed_append : removed (es ++ es') = removed es ++ removed es' :=
  List.flatMap_append

end Append

theorem accepted_sublist (es : List Event) : (accepted es).Sublist (attempts es) := by
  induction es with
  | nil => exact .slnil
  | cons e es ih =>
    cases e with
    | accepted k => exact ih.cons_cons k
    | rejected k => exact ih.cons k
    | _ => exact ih

theorem returned_sublist (es : List Event) : (returned es).Sublist (removed es) := by
  induction es with
  | nil => exact .slnil
  | cons e es ih =>
    cases e with
    | returned k =>
      cases k with
      | none => exact ih
      | some k => exact ih.cons_cons k
    | dropped k => exact ih.cons k
    | flushed ks => exact ih.trans (List.sublist_append_right ks _)
    | _ => exact ih

variable {d : Device} {ui ui' : RecoveryUI} {es : List Event}

theorem PowerStep.ledger (h : PowerStep ui ui' es) :
    attempts es = [] ∧ registered es = [] ∧ removed es = [] := by
  cases h <;> exact ⟨rfl, rfl, rfl⟩

theorem screensaver_queue (ui : RecoveryUI) (timedOut written : Bool) :
    ui.key_queue.keys = removed (screensaver ui timedOut written).2 ++
        (screensaver ui timedOut written).1.key_queue.keys ∧
      attempts (screensaver ui timedOut written).2 = [] ∧
      registered (screensaver ui timedOut written).2 = [] := by
  have hdrop : ui.key_queue.keys = removed (ui.key_queue.keys.head?.map Event.dropped).toList ++
        ui.key_queue.shift.keys ∧
      attempts (ui.key_queue.keys.head?.map Event.dropped).toList = [] ∧
      registered (ui.key_queue.keys.head?.map Event.dropped).toList = [] := by
    cases h : ui.key_queue.keys <;> simp [removed, attempts, registered, KeyQueue.shift, h]
  unfold screensaver
  split
  case h_2 => split <;> exact ⟨rfl, rfl, rfl⟩
  case h_4 =>
    split
    · exact ⟨rfl, rfl, rfl⟩
    · exact hdrop
  all_goals exact ⟨rfl, rfl, rfl⟩

theorem screensaver_silent (ui : RecoveryUI) (timedOut written : Bool) :
    .power ∉ (screensaver ui timedOut written).2 ∧ .other ∉ (screensaver ui timedOut written).2 ∧
      .reboot ∉ (screensaver ui timedOut written).2 := by
  unfold screensaver
  split
  case h_4 => split <;> simp
  all_goals simp

/-- `key` as `CheckKey` delivers it: itself, or `KEY_ENTER` for a long press. -/
def Delivers (x : Key) (r : Key × Bool) : Prop := x = r.1 ∨ r.2 = true ∧ x = KEY_ENTER

/-- What a step does for the queue: it takes keys out, or registers a key, or tries to put the
registered key in. -/
theorem step_cases {a : Action} (h : step d ui a = some (ui', es)) :
    (ui.key_queue.keys = removed es ++ ui'.key_queue.keys ∧ attempts es = [] ∧
      registered es = [] ∧ ∀ x, ui'.pc.MayEnqueue x → ui.pc.MayEnqueue x) ∨
    (∃ k l, es = [.registered k l] ∧ ui'.key_queue = ui.key_queue ∧
      ∀ x, ui'.pc.MayEnqueue x → Delivers x (k, l)) ∨
    ∃ x, ui.pc.MayEnqueue x ∧ (∀ y, ¬ ui'.pc.MayEnqueue y) ∧
      (es = [.accepted x] ∧ ui'.key_queue.keys = ui.key_queue.keys ++ [x] ∨
        es = [.rejected x] ∧ ui'.key_queue = ui.key_queue ∧
          ui.key_queue.keys.length = queue_max) := by
  cases a with
  | key k updown =>
    obtain ⟨-, pressed, ⟨-, rfl, rfl⟩ | ⟨-, -, rfl, rfl⟩ | ⟨-, -, rfl, rfl⟩⟩ :=
      ProcessKey_cases h
    · exact .inl ⟨rfl, rfl, rfl, fun _ h => h⟩
    · exact .inr (.inl ⟨k, _, rfl, rfl, fun _ h => h⟩)
    · exact .inl ⟨rfl, rfl, rfl, fun _ h => h⟩
  | input =>
    by_cases hpc : ∃ key, ui.pc = .enqueue key
    · obtain ⟨key, hpc⟩ := hpc
      refine .inr (.inr ⟨key, by rw [hpc]; rfl, ?_⟩)
      rcases EnqueueKey_cases (CheckKey_enqueue h hpc) with ⟨q, rfl, hq, rfl⟩ | ⟨rfl, hfull, rfl⟩
      · exact ⟨fun _ h => h, .inl ⟨rfl, hq⟩⟩
      · exact ⟨fun _ h => h, .inr ⟨rfl, rfl, hfull⟩⟩
    · obtain ⟨-, hq, -, -, -, hpower, hmay⟩ := CheckKey_quiet h (not_exists.mp hpc)
      obtain ⟨hatt, hreg, hrem⟩ := hpower.ledger
      exact .inl ⟨by rw [hq, hrem, List.nil_append], hatt, hreg, hmay⟩
  | timer k count =>
    obtain ⟨ts, ⟨-, -, rfl, rfl⟩ | ⟨-, rfl, rfl⟩⟩ := time_key_cases h <;>
      exact .inl ⟨rfl, rfl, rfl, fun _ h => h⟩
  | wait timedOut written usb =>
    left
    obtain ⟨q, st, hs⟩ := screensaver_frame ui timedOut written
    obtain ⟨hq, hatt, hreg⟩ := screensaver_queue ui timedOut written
    obtain ⟨r, rfl, ⟨hnil, rfl, rfl | rfl⟩ | ⟨key, rest, hcons, rfl, rfl⟩⟩ := WaitKey_cases h
    · exact ⟨hq, hatt, hreg, fun x h => by rwa [hs] at h⟩
    · refine ⟨?_, ?_, ?_, fun x h => by rwa [hs] at h⟩
      · rw [removed_append]
        exact hq.trans (by simp [removed])
      · rw [attempts_append, hatt]
        rfl
      · rw [registered_append, hreg]
        rfl
    · refine ⟨?_, ?_, ?_, fun x h => by rwa [hs] at h⟩
      · rw [removed_append, hq, hcons]
        simp [removed, KeyQueue.shift, hcons]
      · rw [attempts_append, hatt]
        rfl
      · rw [registered_append, hreg]
        rfl
  | flush =>
    cases h
    exact .inl ⟨by simp [removed, KeyQueue.empty], rfl, rfl, fun _ h => h⟩
  | setEnableReboot | showText =>
    cases h
    exact .inl ⟨rfl, rfl, rfl, fun _ h => h⟩

/-! ## Over a run -/

section SublistForall₂

variable {α β : Type} {R : α → β → Prop}

theorem sublistForall₂_append_right {l : List α} {m : List β} (h : List.SublistForall₂ R l m)
    (m' : List β) : List.SublistForall₂ R l (m ++ m') := by
  obtain ⟨n, hn, hm⟩ := List.sublistForall₂_iff.mp h
  exact List.sublistForall₂_iff.mpr ⟨n, hn, hm.trans (List.sublist_append_left m m')⟩

theorem sublistForall₂_snoc {l : List α} {m : List β} {x : α} {y : β}
    (h : List.SublistForall₂ R l m) (hxy : R x y) :
    List.SublistForall₂ R (l ++ [x]) (m ++ [y]) := by
  obtain ⟨n, hn, hm⟩ := List.sublistForall₂_iff.mp h
  exact List.sublistForall₂_iff.mpr
    ⟨n ++ [y], List.rel_append hn (.cons hxy .nil), hm.append (List.Sublist.refl _)⟩

theorem sublistForall₂_of_sublist {l l' : List α} {m : List β}
    (h : List.SublistForall₂ R l' m) (hl : l.Sublist l') : List.SublistForall₂ R l m := by
  induction h generalizing l with
  | nil =>
    rw [List.sublist_nil.mp hl]
    exact .nil
  | cons hab _ ih =>
    cases hl with
    | cons _ hl => exact .cons_right (ih hl)
    | cons_cons _ hl => exact .cons hab (ih hl)
  | cons_right _ ih => exact .cons_right (ih hl)

end SublistForall₂

structure Ledger (es : List Event) (ui : RecoveryUI) : Prop where
  queue : accepted es = removed es ++ ui.key_queue.keys
  sound : List.SublistForall₂ Delivers (attempts es) (registered es)
  /-- The key in flight is registered and has not been delivered. -/
  inFlight : ∀ x, ui.pc.MayEnqueue x →
    List.SublistForall₂ Delivers (attempts es ++ [x]) (registered es)
  refused : ∀ before k after, es = before ++ .rejected k :: after →
    (accepted before).length = (removed before).length + queue_max

theorem append_cons_of_not_mem {α : Type} {l m before after : List α} {x : α}
    (h : l ++ m = before ++ x :: after) (hx : x ∉ m) : ∃ c, l = before ++ x :: c := by
  rcases List.append_eq_append_iff.mp h with ⟨c, rfl, hc⟩ | ⟨c, hc, hc'⟩
  · exact absurd (hc ▸ List.mem_append_right c List.mem_cons_self) hx
  · cases c with
    | nil => exact absurd (by rw [← List.nil_append m, ← hc']; exact List.mem_cons_self) hx
    | cons y c =>
      obtain ⟨rfl, rfl⟩ := List.cons.inj hc'
      exact ⟨c, hc⟩

/-- Events that refuse no key change nothing about the refused ones. -/
theorem Ledger.refused_append {es' : List Event} (hi : Ledger es ui)
    (h : ∀ k, .rejected k ∉ es') : ∀ before k after, es ++ es' = before ++ .rejected k :: after →
      (accepted before).length = (removed before).length + queue_max := by
  intro before k after heq
  obtain ⟨c, hc⟩ := append_cons_of_not_mem heq (h k)
  exact hi.refused before k c hc

theorem not_rejected_of_attempts (h : attempts es = []) (k : Key) : .rejected k ∉ es := by
  intro hk
  have := List.filterMap_eq_nil_iff.mp h _ hk
  cases this

theorem accepted_of_attempts (h : attempts es = []) : accepted es = [] :=
  List.sublist_nil.mp (h ▸ accepted_sublist es)

theorem Ledger.step {a : Action} {es' : List Event} (hi : Ledger es ui)
    (h : step d ui a = some (ui', es')) : Ledger (es ++ es') ui' := by
  rcases step_cases h with ⟨hq, hatt, hreg, hmay⟩ | ⟨k, l, rfl, hq, hmay⟩ |
    ⟨x, hx, hno, ⟨rfl, hq⟩ | ⟨rfl, hq, hfull⟩⟩
  · refine ⟨?_, ?_, fun x hx => ?_, hi.refused_append (not_rejected_of_attempts hatt)⟩
    · rw [accepted_append, accepted_of_attempts hatt, removed_append, hi.queue, hq]
      simp
    · rw [attempts_append, registered_append, hatt, hreg, List.append_nil, List.append_nil]
      exact hi.sound
    · rw [attempts_append, registered_append, hatt, hreg, List.append_nil, List.append_nil]
      exact hi.inFlight x (hmay x hx)
  · have hnone : attempts [Event.registered k l] = [] := rfl
    refine ⟨?_, ?_, fun x hx => ?_, hi.refused_append (not_rejected_of_attempts hnone)⟩
    · rw [hq, removed_append, accepted_append, hi.queue]
      simp [accepted, removed]
    · rw [attempts_append, registered_append, hnone, List.append_nil]
      exact sublistForall₂_append_right hi.sound _
    · rw [attempts_append, registered_append, hnone, List.append_nil]
      exact sublistForall₂_snoc hi.sound (hmay x hx)
  · refine ⟨?_, ?_, fun y hy => absurd hy (hno y), hi.refused_append (by simp)⟩
    · rw [hq, removed_append, accepted_append, hi.queue]
      simp [accepted, removed]
    · rw [registered_append, attempts_append]
      exact sublistForall₂_append_right (hi.inFlight x hx) []
  · refine ⟨?_, ?_, fun y hy => absurd hy (hno y), ?_⟩
    · rw [hq, removed_append, accepted_append, hi.queue]
      simp [accepted, removed]
    · rw [registered_append, attempts_append]
      exact sublistForall₂_append_right (hi.inFlight x hx) []
    · intro before k after heq
      rcases List.eq_nil_or_concat after with rfl | ⟨after, e, rfl⟩
      · obtain ⟨rfl, -⟩ := List.append_inj' heq rfl
        rw [hi.queue, List.length_append, hfull]
      · rw [List.concat_eq_append, ← List.cons_append, ← List.append_assoc] at heq
        exact hi.refused before k after (List.append_inj' heq rfl).1

variable {sv : ScreensaverState} {vis : Bool} {as : List Action}

theorem runs_ledger (h : runs (step d) (.new sv vis) as = some (ui, es)) : Ledger es ui := by
  refine runs_invariant (I := fun _ es ui => Ledger es ui) ?_ (fun _ _ _ _ _ _ hi => hi.step) h
  exact ⟨rfl, .nil, fun _ h => h.elim, by simp⟩

/-- **The keys arrive in order**, none twice, and none is lost in the queue. -/
theorem keys_delivered (h : runs (step d) (.new sv vis) as = some (ui, es)) :
    accepted es = removed es ++ ui.key_queue.keys ∧
      (∀ before k after, es = before ++ .rejected k :: after →
        (accepted before).length = (removed before).length + queue_max) ∧
      List.SublistForall₂ Delivers (returned es) (registered es) := by
  have hi := runs_ledger h
  refine ⟨hi.queue, hi.refused, sublistForall₂_of_sublist hi.sound ?_⟩
  have hleft : (removed es).Sublist (accepted es) := by
    rw [hi.queue]
    exact List.sublist_append_left _ _
  exact (returned_sublist es).trans (hleft.trans (accepted_sublist es))

/-- A press and a release of `KEY_UP`, up to `EnqueueKey`. -/
def typed : List Action := [.key KEY_UP 1, .key KEY_UP 0, .input, .input, .input, .input, .input]

theorem keys_delivered_up :
    accepted [.registered KEY_UP false, .other, .accepted KEY_UP, .returned (some KEY_UP)] =
      removed [.registered KEY_UP false, .other, .accepted KEY_UP, .returned (some KEY_UP)] ++ [] :=
  have h : runs (step phone) (.new .NORMAL true) (typed ++ [.wait false true false]) =
      some (_, [.registered KEY_UP false, .other, .accepted KEY_UP, .returned (some KEY_UP)]) := rfl
  (keys_delivered h).1

/-! ## Rebooting -/

/-- The steps outside `CheckKey` leave the count alone. -/
theorem step_power {a : Action} (h : step d ui a = some (ui', es)) :
    PowerStep ui ui' es ∨ ui'.consecutive_power_keys = ui.consecutive_power_keys ∧
      (∀ r, ui'.pc = .reboot r → ui.pc = .reboot r) ∧ .power ∉ es ∧ .other ∉ es ∧ .reboot ∉ es := by
  cases a with
  | key k updown =>
    right
    obtain ⟨-, pressed, ⟨-, rfl, rfl⟩ | ⟨-, -, rfl, rfl⟩ | ⟨-, -, rfl, rfl⟩⟩ :=
      ProcessKey_cases h <;> simp
  | input =>
    by_cases hpc : ∃ key, ui.pc = .enqueue key
    · obtain ⟨key, hpc⟩ := hpc
      right
      rcases EnqueueKey_cases (CheckKey_enqueue h hpc) with ⟨q, rfl, -, rfl⟩ | ⟨rfl, -, rfl⟩ <;>
        simp
    · obtain ⟨-, -, -, -, -, hpower, -⟩ := CheckKey_quiet h (not_exists.mp hpc)
      exact .inl hpower
  | timer k count =>
    right
    obtain ⟨ts, ⟨-, -, rfl, rfl⟩ | ⟨-, rfl, rfl⟩⟩ := time_key_cases h <;> simp
  | wait timedOut written usb =>
    right
    obtain ⟨q, st, rfl⟩ := WaitKey_frame h
    refine ⟨rfl, fun _ h => h, ?_⟩
    have hs := screensaver_silent ui timedOut written
    obtain ⟨r, rfl, ⟨-, -, rfl | rfl⟩ | ⟨key, rest, -, -, rfl⟩⟩ := WaitKey_cases h <;>
      simp [hs]
  | flush | setEnableReboot | showText =>
    cases h
    simp

def Event.isPower : Event → Bool
  | .power => true
  | _ => false

/-- `n` power keys have been counted since another key last came to the power test. -/
def PowerKeys (es : List Event) (n : Nat) : Prop :=
  ∃ before since, es = before ++ since ∧ .other ∉ since ∧ since.countP Event.isPower = n

theorem PowerKeys.append {n : Nat} {es' : List Event} (h : PowerKeys es n) (ho : .other ∉ es') :
    PowerKeys (es ++ es') (n + es'.countP Event.isPower) := by
  obtain ⟨before, since, rfl, hs, rfl⟩ := h
  exact ⟨before, since ++ es', by simp, by simp [hs, ho], List.countP_append⟩

/-- The count of power keys in a run. -/
structure Counted (es : List Event) (ui : RecoveryUI) : Prop where
  count : PowerKeys es ui.consecutive_power_keys
  ready : ∀ r, ui.pc = .reboot r → 7 ≤ ui.consecutive_power_keys
  done : ∀ before after, es = before ++ .reboot :: after → ∃ n, 7 ≤ n ∧ PowerKeys before n

theorem Counted.done_append {es' : List Event} (hi : Counted es ui) (h : .reboot ∉ es') :
    ∀ before after, es ++ es' = before ++ .reboot :: after →
      ∃ n, 7 ≤ n ∧ PowerKeys before n := by
  intro before after heq
  obtain ⟨c, hc⟩ := append_cons_of_not_mem heq h
  exact hi.done before c hc

theorem Counted.step {a : Action} {es' : List Event} (hi : Counted es ui)
    (h : step d ui a = some (ui', es')) : Counted (es ++ es') ui' := by
  rcases step_power h with hp | ⟨hsame, hpc, hno, hother, hreboot⟩
  · cases hp with
    | none hsame hpc =>
      rw [List.append_nil]
      exact ⟨hsame ▸ hi.count, fun r hr => hsame ▸ hi.ready r (hpc r hr), hi.done⟩
    | other hzero hpc =>
      refine ⟨?_, fun r hr => absurd hr (hpc r), hi.done_append (by simp)⟩
      exact ⟨es ++ [.other], [], by simp, by simp, by simp [hzero]⟩
    | power _ hnext hpc =>
      refine ⟨?_, hpc, hi.done_append (by simp)⟩
      rw [hnext]
      exact hi.count.append (by simp)
    | reboot hready hsame hpc =>
      refine ⟨?_, fun r hr => absurd hr (hpc r), ?_⟩
      · rw [hsame]
        exact hi.count.append (by simp)
      · intro before after heq
        rcases List.eq_nil_or_concat after with rfl | ⟨after, e, rfl⟩
        · obtain ⟨rfl, -⟩ := List.append_inj' heq rfl
          exact ⟨_, hi.ready true hready, hi.count⟩
        · rw [List.concat_eq_append, ← List.cons_append, ← List.append_assoc] at heq
          exact hi.done before after (List.append_inj' heq rfl).1
  · have hzero : es'.countP Event.isPower = 0 := by
      refine List.countP_eq_zero.mpr fun e he hpow => ?_
      cases e
      case power => exact hno he
      all_goals cases hpow
    refine ⟨?_, fun r hr => hsame ▸ hi.ready r (hpc r hr), hi.done_append hreboot⟩
    have hcount := hi.count.append hother
    rwa [hzero, Nat.add_zero, ← hsame] at hcount

/-- **Seven power keys in a row** have been counted before the device reboots; in between no other
key came as far as the power test of `CheckKey`. -/
theorem reboot_after_seven (h : runs (step d) (.new sv vis) as = some (ui, es))
    {before after : List Event} (hr : es = before ++ .reboot :: after) :
    ∃ n, 7 ≤ n ∧ PowerKeys before n := by
  have hi : Counted es ui := by
    refine runs_invariant (I := fun _ es ui => Counted es ui) ?_ (fun _ _ _ _ _ _ hi => hi.step) h
    exact ⟨⟨[], [], rfl, by simp, rfl⟩, fun _ h => (by cases h), by simp⟩
  exact hi.done before after hr

def pressPower : List Action := [.key KEY_POWER 1, .key KEY_POWER 0, .input, .input, .input, .input]

theorem reboot_after_seven_presses :
    ∃ n, 7 ≤ n ∧ PowerKeys ((List.replicate 6
      [.registered KEY_POWER false, .power, .accepted KEY_POWER]).flatten ++
        [.registered KEY_POWER false, .power]) n :=
  have h : runs (step phone) (.new .NORMAL true)
      ((List.replicate 6 pressPower).flatten ++
        [.key KEY_POWER 1, .key KEY_POWER 0, .input, .input, .input]) =
      some (_, (List.replicate 6
        [.registered KEY_POWER false, .power, .accepted KEY_POWER]).flatten ++
        [.registered KEY_POWER false, .power, .reboot]) := rfl
  reboot_after_seven h (List.append_assoc _ [_, _] [_]).symm

theorem step_enable_reboot {a : Action} (h : step d ui a = some (ui', es))
    (ha : a ≠ .setEnableReboot true) (hd : ui.enable_reboot = false) :
    ui'.enable_reboot = false := by
  cases a with
  | key k updown =>
    obtain ⟨-, pressed, ⟨-, -, rfl⟩ | ⟨-, -, -, rfl⟩ | ⟨-, -, -, rfl⟩⟩ := ProcessKey_cases h <;>
      exact hd
  | input =>
    by_cases hpc : ∃ key, ui.pc = .enqueue key
    · obtain ⟨key, hpc⟩ := hpc
      rcases EnqueueKey_cases (CheckKey_enqueue h hpc) with ⟨q, rfl, -⟩ | ⟨rfl, -⟩ <;> exact hd
    · obtain ⟨-, -, -, -, he, -⟩ := CheckKey_quiet h (not_exists.mp hpc)
      rw [he, hd]
  | timer k count =>
    obtain ⟨ts, ⟨-, -, rfl, rfl⟩ | ⟨-, rfl, rfl⟩⟩ := time_key_cases h <;> exact hd
  | wait timedOut written usb =>
    obtain ⟨q, st, rfl⟩ := WaitKey_frame h
    exact hd
  | setEnableReboot enabled =>
    cases h
    cases enabled with
    | false => rfl
    | true => exact absurd rfl ha
  | flush | showText =>
    cases h
    exact hd

/-- What `SetEnableReboot(false)` keeps. -/
structure Disabled (ui : RecoveryUI) : Prop where
  enable_reboot : ui.enable_reboot = false
  pc : ∀ r, ui.pc ≠ .reboot r

theorem Disabled.step {a : Action} (hi : Disabled ui) (h : step d ui a = some (ui', es))
    (ha : a ≠ .setEnableReboot true) : Disabled ui' ∧ .reboot ∉ es := by
  have he := step_enable_reboot h ha hi.enable_reboot
  rcases step_power h with hp | ⟨-, hpc, -, -, hno⟩
  · cases hp with
    | none _ hpc => exact ⟨⟨he, fun r hr => hi.pc r (hpc r hr)⟩, by simp⟩
    | other _ hpc => exact ⟨⟨he, hpc⟩, by simp⟩
    | power hon => exact absurd (hon.symm.trans hi.enable_reboot) (by simp)
    | reboot hready => exact absurd hready (hi.pc true)
  · exact ⟨⟨he, fun r hr => hi.pc r (hpc r hr)⟩, hno⟩

/-- **`SetEnableReboot(false)` holds**: until it is undone, only a power key whose check was
already over can reboot. -/
theorem no_reboot_while_disabled (h : runs (step d) ui as = some (ui', es))
    (hd : ui.enable_reboot = false) (hpc : ∀ r, ui.pc ≠ .reboot r)
    (has : .setEnableReboot true ∉ as) : .reboot ∉ es := by
  have hi : .setEnableReboot true ∉ as → Disabled ui' ∧ .reboot ∉ es := by
    refine runs_invariant
      (I := fun as es ui => .setEnableReboot true ∉ as → Disabled ui ∧ .reboot ∉ es) ?_ ?_ h
    · exact fun _ => ⟨⟨hd, hpc⟩, by simp⟩
    · intro as es ui a ui' es' hi hstep has
      rw [List.mem_append, List.mem_singleton, not_or] at has
      obtain ⟨hdis, hno⟩ := hi has.1
      obtain ⟨hdis', hno'⟩ := hdis.step hstep (Ne.symm has.2)
      exact ⟨hdis', by simp [hno, hno']⟩
  exact (hi has).2

/-- Six power keys are counted while rebooting is enabled; then it is disabled. -/
def disabledLate : Option (RecoveryUI × List Event) :=
  runs (step phone) (.new .NORMAL true)
    ((List.replicate 6 pressPower).flatten ++ [.setEnableReboot false])

/-- Power is pressed twice more. -/
def pressedLate : Option (RecoveryUI × List Event) :=
  runs (step phone) (disabledLate.get rfl).1 (pressPower ++ pressPower)

theorem no_reboot_while_disabled_power : ∃ r, pressedLate = some r ∧
    accepted r.2 = [KEY_POWER, KEY_POWER] ∧ .reboot ∉ r.2 := by
  have hsome : pressedLate.isSome = true := rfl
  have haccepted : pressedLate.map (fun r => accepted r.2) = some [KEY_POWER, KEY_POWER] := rfl
  have hidle : ((disabledLate.get rfl).1.pc matches .reboot _) = false := rfl
  obtain ⟨⟨ui', es'⟩, hr⟩ := Option.isSome_iff_exists.1 hsome
  rw [hr] at haccepted
  refine ⟨_, hr, Option.some.inj haccepted, no_reboot_while_disabled hr rfl ?_ ?_⟩
  · intro r hpc
    rw [hpc] at hidle
    cases hidle
  · simp [pressPower]

end Recovery.Ui
