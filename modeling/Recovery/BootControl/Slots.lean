import Recovery.BootControl.BootControl

/-!
# What boot control keeps

* `Meets` — the condition on a step: a slot is marked only when the boot property names it, the
  slot count read from misc fits the block, and no write of the block is torn.
* `Effects` — what an operation changes.
* `Reached` — the states after runs whose steps all meet a condition.
* `boot_control_runs` — in every such run `slot_info` is indexed in range, the stored CRC matches,
  each operation changes the entries it is about, and a newly active slot comes first.

Each operation has a spec lemma that says what it writes when the block can be loaded, and what it
answers when not.  `unknown_slot_marked` is a boot property that names no slot.
-/

set_option autoImplicit false

namespace Recovery.BootControl

open Recovery.Lib

/-! ## Saving -/

theorem storedBlock_length {misc : List UInt8} {c : BootloaderControl}
    (h : storedBlock misc = some c) : kBootloaderControlOffset + 32 ≤ misc.length := by
  unfold storedBlock at h
  split at h
  · assumption
  · cases h

theorem storedBlock_splice {misc : List UInt8} (c : BootloaderControl)
    (h : kBootloaderControlOffset + 32 ≤ misc.length) :
    storedBlock (splice misc kBootloaderControlOffset c.bytes) = some c := by
  have hroom : kBootloaderControlOffset + c.bytes.length ≤ misc.length := by
    rw [c.length_eq]
    exact h
  have hself := slice_splice_self hroom
  rw [c.length_eq] at hself
  unfold storedBlock
  rw [dif_pos (by rw [length_splice hroom]; exact h)]
  obtain ⟨bytes, hlen⟩ := c
  simp only [Option.some.injEq, BootloaderControl.mk.injEq]
  exact hself

theorem load_some {miscDevice : Option String} {io : Io} {misc : List UInt8}
    {c : BootloaderControl} (h : loadBootloaderControl miscDevice io misc = some c) :
    storedBlock misc = some c := by
  unfold loadBootloaderControl at h
  split at h
  · exact h
  · cases h

/-- Nothing outside of the control block has changed. -/
def OnlyBlock (misc misc' : List UInt8) : Prop :=
  ∀ p n, p + n ≤ kBootloaderControlOffset ∨ kBootloaderControlOffset + 32 ≤ p →
    slice misc' p n = slice misc p n

theorem onlyBlock_splice {misc : List UInt8} (c : BootloaderControl)
    (h : kBootloaderControlOffset + 32 ≤ misc.length) :
    OnlyBlock misc (splice misc kBootloaderControlOffset c.bytes) := by
  intro p n hout
  apply slice_splice_of_disjoint
  · rw [c.length_eq]
    exact h
  · rw [c.length_eq]
    exact hout

/-! ## Conditions and effects -/

/-- A write of the control block succeeds, or fails before its first byte. -/
def NotTorn (io : Io) : Prop := ∀ n, io.save ≠ .torn n

/-- The condition on a step. -/
def Meets (op : Op) (io : Io) (s : St) : Prop :=
  match op with
  | .lazyInitialization => s.initialized = false → ∀ c,
      loadBootloaderControl (some io.device) io s.misc = some c → ¬ c.CrcMatches → io.save = .ok
  | .markBootSuccessful => (loadBootloaderControl s.miscDevice io s.misc).isSome →
      s.currentSlot < kMaxNumSlots ∧ NotTorn io
  | .setActiveBootSlot slot => slot < kMaxNumSlots → slot < s.numSlots →
      (loadBootloaderControl s.miscDevice io s.misc).isSome → s.numSlots ≤ kMaxNumSlots ∧ NotTorn io
  | .setSlotAsUnbootable slot => slot < kMaxNumSlots → slot < s.numSlots →
      (loadBootloaderControl s.miscDevice io s.misc).isSome → NotTorn io
  | _ => True

/-- The entries an operation is about. -/
def aboutSlots (op : Op) (s : St) : List Nat :=
  match op with
  | .markBootSuccessful => [s.currentSlot]
  | .setActiveBootSlot _ => List.range s.numSlots
  | .setSlotAsUnbootable slot => [slot]
  | _ => []

/-- The slot can be booted, and comes before every other slot. -/
def Active (slot : Nat) (s : St) : Prop :=
  ∃ c, storedBlock s.misc = some c ∧ (c.entry slot).triesRemaining ≠ 0 ∧
    ∀ i < s.numSlots, i ≠ slot → (c.entry i).priority < (c.entry slot).priority

structure Effects (op : Op) (s : St) (r : Reply) (s' : St) : Prop where
  outside : OnlyBlock s.misc s'.misc
  entries : op ≠ .lazyInitialization → ∀ c, storedBlock s.misc = some c →
    ∃ c', storedBlock s'.misc = some c' ∧ c.OnlySlots (aboutSlots op s) c'
  /-- Of the slots that are not made active only the priority is lowered. -/
  lowered : ∀ slot, op = .setActiveBootSlot slot → ∀ c c', storedBlock s.misc = some c →
    storedBlock s'.misc = some c' → ∀ i < s.numSlots, i ≠ slot →
      c'.entry i = c.entry i ∨ c'.entry i = lowerPriority (c.entry i)
  active : ∀ slot, op = .setActiveBootSlot slot → r = .int 0 → Active slot s'
  /-- A valid control block is not initialized again. -/
  kept : op = .lazyInitialization → ∀ c, storedBlock s.misc = some c → c.CrcMatches →
    s'.misc = s.misc

/-- The CRC on misc matches the control block. -/
def CrcValid (s : St) : Prop := ∃ c, storedBlock s.misc = some c ∧ c.CrcMatches

/-- States after runs from the start whose steps all meet `C`. -/
inductive Reached (C : Op → Io → St → Prop) (prop : String) (misc : List UInt8) : St → Prop
  | start : Reached C prop misc (.start misc)
  | step {s s' : St} (op : Op) (io : Io) {r : Reply} (h : Reached C prop misc s) (hmeets : C op io s)
      (hstep : step prop op io s = some (r, s')) : Reached C prop misc s'

/-! ## Changing the control block -/

/-- What a change of the control block has done, for `slots` and with `P` between the blocks. -/
structure Changed (slots : List Nat) (P : BootloaderControl → BootloaderControl → Prop) (s : St)
    (r : Int) (s' : St) : Prop where
  module : s' = { s with misc := s'.misc }
  outside : OnlyBlock s.misc s'.misc
  failed : r ≠ 0 → s' = s
  changed : r = 0 → ∃ c c', storedBlock s.misc = some c ∧ storedBlock s'.misc = some c' ∧
    c.OnlySlots slots c' ∧ c'.CrcMatches ∧ P c c'

theorem Changed.refused (slots : List Nat) (P : BootloaderControl → BootloaderControl → Prop)
    (s : St) : Changed slots P s (-1) s where
  module := rfl
  outside _ _ _ := rfl
  failed _ := rfl
  changed h := nomatch h

theorem changeBootloaderControl_spec {slots : List Nat}
    {P : BootloaderControl → BootloaderControl → Prop}
    {change : BootloaderControl → Option BootloaderControl} {io : Io} {s : St}
    (hchange : ∀ c, loadBootloaderControl s.miscDevice io s.misc = some c →
      NotTorn io ∧ ∃ c', change c = some c' ∧ c.OnlySlots slots c' ∧ P c c'.withCrc) :
    ∃ r s', changeBootloaderControl change io s = some (r, s') ∧ Changed slots P s r s' := by
  unfold changeBootloaderControl
  cases hload : loadBootloaderControl s.miscDevice io s.misc with
  | none => exact ⟨-1, s, rfl, .refused slots P s⟩
  | some c =>
    obtain ⟨hnot, c', hc', honly, hp⟩ := hchange c hload
    have hstored := load_some hload
    have hlen := storedBlock_length hstored
    simp only [hc']
    unfold updateAndSaveBootloaderControl
    cases hsave : io.save with
    | ok =>
      refine ⟨0, _, rfl, rfl, onlyBlock_splice _ hlen, fun h => absurd rfl h, fun _ => ?_⟩
      exact ⟨c, c'.withCrc, hstored, storedBlock_splice _ hlen,
        honly.trans (c'.onlySlots_withCrc.mono nofun), c'.crcMatches_withCrc, hp⟩
    | failed => exact ⟨-1, s, rfl, .refused slots P s⟩
    | torn n => exact absurd hsave (hnot n)

theorem entry_withCrc (c : BootloaderControl) {i : Nat} (hi : i < kMaxNumSlots) :
    c.withCrc.entry i = c.entry i := c.onlySlots_withCrc.entry hi nofun

theorem markBootSuccessful_spec {io : Io} {s : St} (h : Meets .markBootSuccessful io s) :
    ∃ r s', markBootSuccessful io s = some (r, s') ∧
      Changed [s.currentSlot] (fun _ _ => True) s r s' := by
  apply changeBootloaderControl_spec
  intro c hload
  obtain ⟨hslot, hnot⟩ := h (by rw [hload]; rfl)
  obtain ⟨c', hc', -, honly⟩ := c.modifySlotInfo_spec hslot fun e =>
    { e with successfulBoot := true, triesRemaining := 1 }
  exact ⟨hnot, c', hc', honly, trivial⟩

theorem setSlotAsUnbootable_spec {slot : Nat} {io : Io} {s : St}
    (h : Meets (.setSlotAsUnbootable slot) io s) :
    ∃ r s', setSlotAsUnbootable slot io s = some (r, s') ∧
      Changed [slot] (fun _ _ => True) s r s' := by
  unfold setSlotAsUnbootable
  split
  · exact ⟨-1, s, rfl, .refused _ _ s⟩
  rename_i hslot
  rw [not_or, Nat.not_le, Nat.not_le] at hslot
  apply changeBootloaderControl_spec
  intro c hload
  obtain ⟨c', hc', -, honly⟩ := c.modifySlotInfo_spec hslot.1 fun e =>
    { e with successfulBoot := false, triesRemaining := 0 }
  exact ⟨h hslot.1 hslot.2 (by rw [hload]; rfl), c', hc', honly, trivial⟩

/-- The loop over the slots lowers the priorities of the others. -/
theorem lowerOthers_spec (slot : Nat) {n : Nat} (hn : n ≤ kMaxNumSlots) (c : BootloaderControl) :
    ∃ c', lowerOthers slot n c = some c' ∧ c.OnlySlots (List.range n) c' ∧
      ∀ i < kMaxNumSlots, c'.entry i =
        if i < n ∧ i ≠ slot then lowerPriority (c.entry i) else c.entry i := by
  induction n with
  | zero => exact ⟨c, rfl, .refl _ _, fun i _ => by simp⟩
  | succ n ih =>
    obtain ⟨c1, hc1, honly1, hentry1⟩ := ih (by lia)
    have hmono : c.OnlySlots (List.range (n + 1)) c1 := by
      apply honly1.mono
      intro i hi
      rw [List.mem_range] at hi ⊢
      lia
    unfold lowerOthers
    simp only [hc1]
    by_cases hne : n = slot
    · rw [if_neg (not_not.2 hne)]
      refine ⟨c1, rfl, hmono, ?_⟩
      intro i hi
      rw [hentry1 i hi]
      refine if_congr ?_ rfl rfl
      lia
    · rw [if_pos hne]
      obtain ⟨c2, hc2, hentry2, honly2⟩ := c1.modifySlotInfo_spec hn lowerPriority
      refine ⟨c2, hc2, hmono.trans (honly2.mono ?_), ?_⟩
      · intro i hi
        rw [List.mem_singleton] at hi
        rw [List.mem_range]
        lia
      · intro i hi
        by_cases heq : i = n
        · subst heq
          rw [hentry2, hentry1 i hi, if_neg (by lia), if_pos (by lia)]
        · rw [honly2.entry hi (by simp [heq]), hentry1 i hi]
          refine if_congr ?_ rfl rfl
          lia

theorem lowerPriority_lt (e : SlotMetadata) : (lowerPriority e).priority < kActivePriority := by
  unfold lowerPriority
  split
  · exact (by decide : kActivePriority - 1 < kActivePriority)
  · rename_i h
    exact Nat.lt_of_not_le h

/-- The blocks before and after `slot` has been made active. -/
def Activated (slot numSlots : Nat) (c c' : BootloaderControl) : Prop :=
  (c'.entry slot).priority = kActivePriority ∧ (c'.entry slot).triesRemaining = kActiveTries ∧
    ∀ i < numSlots, i ≠ slot → c'.entry i = lowerPriority (c.entry i)

theorem setActiveBootSlot_spec {slot : Nat} {io : Io} {s : St}
    (h : Meets (.setActiveBootSlot slot) io s) :
    ∃ r s', setActiveBootSlot slot io s = some (r, s') ∧
      Changed (List.range s.numSlots) (Activated slot s.numSlots) s r s' := by
  unfold setActiveBootSlot
  split
  · exact ⟨-1, s, rfl, .refused _ _ s⟩
  rename_i hslot
  rw [not_or, Nat.not_le, Nat.not_le] at hslot
  apply changeBootloaderControl_spec
  intro c hload
  obtain ⟨hcount, hnot⟩ := h hslot.1 hslot.2 (by rw [hload]; rfl)
  obtain ⟨c1, hc1, honly1, hentry1⟩ := lowerOthers_spec slot hcount c
  obtain ⟨c2, hc2, hentry2, honly2⟩ :=
    c1.modifySlotInfo_spec hslot.1 (activate (decide (slot = s.currentSlot)))
  refine ⟨hnot, c2, ?_, honly1.trans (honly2.mono ?_), ?_, ?_, ?_⟩
  · simp only [hc1]
    exact hc2
  · intro i hi
    rw [List.mem_singleton] at hi
    rw [hi, List.mem_range]
    exact hslot.2
  · rw [entry_withCrc c2 hslot.1, hentry2]
    rfl
  · rw [entry_withCrc c2 hslot.1, hentry2]
    rfl
  · intro i hi hne
    have hi4 : i < kMaxNumSlots := Nat.lt_of_lt_of_le hi hcount
    rw [entry_withCrc c2 hi4, honly2.entry hi4 (by simp [hne]), hentry1 i hi4, if_pos ⟨hi, hne⟩]

/-! ## When `slot_info` is left -/

theorem modifySlotInfo_none (c : BootloaderControl) {i : Nat} (hi : ¬ i < kMaxNumSlots)
    (f : SlotMetadata → SlotMetadata) : c.modifySlotInfo i f = none := by
  unfold BootloaderControl.modifySlotInfo
  rw [dif_neg hi]

theorem changeBootloaderControl_none {change : BootloaderControl → Option BootloaderControl}
    {io : Io} {s : St} : changeBootloaderControl change io s = none ↔
      ∃ c, loadBootloaderControl s.miscDevice io s.misc = some c ∧ change c = none := by
  unfold changeBootloaderControl
  cases loadBootloaderControl s.miscDevice io s.misc with
  | none => simp
  | some c => cases hc : change c <;> simp [hc]

/-- Marking leaves the entries exactly when the current slot has none. -/
theorem markBootSuccessful_none {io : Io} {s : St} : markBootSuccessful io s = none ↔
    (loadBootloaderControl s.miscDevice io s.misc).isSome ∧ kMaxNumSlots ≤ s.currentSlot := by
  unfold markBootSuccessful
  rw [changeBootloaderControl_none, Option.isSome_iff_exists]
  constructor
  · rintro ⟨c, hload, hnone⟩
    refine ⟨⟨c, hload⟩, Nat.le_of_not_lt fun hslot => ?_⟩
    obtain ⟨c', hc', -⟩ := c.modifySlotInfo_spec hslot fun e =>
      { e with successfulBoot := true, triesRemaining := 1 }
    rw [hc'] at hnone
    cases hnone
  · rintro ⟨⟨c, hload⟩, hslot⟩
    exact ⟨c, hload, modifySlotInfo_none c (Nat.not_lt.2 hslot) _⟩

theorem lowerOthers_none {slot n : Nat} (hslot : slot < kMaxNumSlots) (hn : kMaxNumSlots < n)
    (c : BootloaderControl) : lowerOthers slot n c = none := by
  induction n with
  | zero => cases hn
  | succ n ih =>
    unfold lowerOthers
    rcases Nat.lt_or_eq_of_le (Nat.le_of_lt_succ hn) with hlt | rfl
    · rw [ih hlt]
    · obtain ⟨c', hc', -⟩ := lowerOthers_spec slot (Nat.le_refl kMaxNumSlots) c
      simp only [hc']
      rw [if_pos (Nat.ne_of_gt hslot)]
      exact modifySlotInfo_none c' (Nat.lt_irrefl _) _

/-- Setting a slot active leaves the entries exactly when misc has counted more than four slots. -/
theorem setActiveBootSlot_none {slot : Nat} {io : Io} {s : St} :
    setActiveBootSlot slot io s = none ↔ slot < kMaxNumSlots ∧
      (loadBootloaderControl s.miscDevice io s.misc).isSome ∧ kMaxNumSlots < s.numSlots := by
  unfold setActiveBootSlot
  split
  · rename_i hout
    refine iff_of_false nofun ?_
    rintro ⟨hslot, -, hcount⟩
    lia
  rename_i hin
  rw [not_or, Nat.not_le, Nat.not_le] at hin
  rw [changeBootloaderControl_none, Option.isSome_iff_exists]
  constructor
  · rintro ⟨c, hload, hnone⟩
    refine ⟨hin.1, ⟨c, hload⟩, Nat.lt_of_not_le fun hcount => ?_⟩
    obtain ⟨c1, hc1, -⟩ := lowerOthers_spec slot hcount c
    obtain ⟨c2, hc2, -⟩ :=
      c1.modifySlotInfo_spec hin.1 (activate (decide (slot = s.currentSlot)))
    simp only [hc1, hc2] at hnone
    cases hnone
  · rintro ⟨-, ⟨c, hload⟩, hcount⟩
    refine ⟨c, hload, ?_⟩
    simp only [lowerOthers_none hin.1 hcount]

/-! ## Initialization -/

theorem lazyInitialization_spec (prop : String) {io : Io} {s s' : St} {b : Bool}
    (h : Meets .lazyInitialization io s) (hinv : s.initialized = true → CrcValid s)
    (hrun : lazyInitialization prop io s = (b, s')) :
    (s'.initialized = true → CrcValid s') ∧ OnlyBlock s.misc s'.misc ∧
      ∀ c, storedBlock s.misc = some c → c.CrcMatches → s'.misc = s.misc := by
  unfold lazyInitialization at hrun
  split at hrun
  · cases hrun
    exact ⟨hinv, fun _ _ _ => rfl, fun _ _ _ => rfl⟩
  rename_i hfirst
  rw [Bool.not_eq_true] at hfirst
  dsimp only at hrun
  split at hrun
  · cases hrun
    exact ⟨fun hi => absurd (hfirst.symm.trans hi) (by decide), fun _ _ _ => rfl, fun _ _ _ => rfl⟩
  split at hrun
  · cases hrun
    exact ⟨fun hi => absurd (hfirst.symm.trans hi) (by decide), fun _ _ _ => rfl, fun _ _ _ => rfl⟩
  rename_i c hload
  have hstored := load_some hload
  have hlen := storedBlock_length hstored
  split at hrun
  · rename_i hmatches
    cases hrun
    exact ⟨fun _ => ⟨c, hstored, hmatches⟩, fun _ _ _ => rfl, fun _ _ _ => rfl⟩
  rename_i hinvalid
  have hsave := h hfirst c hload hinvalid
  simp only [updateAndSaveBootloaderControl, hsave] at hrun
  cases hrun
  refine ⟨fun _ => ⟨_, storedBlock_splice _ hlen, BootloaderControl.crcMatches_withCrc _⟩,
    onlyBlock_splice _ hlen, ?_⟩
  intro c' hc' hmatches
  rw [hstored] at hc'
  cases hc'
  exact absurd hmatches hinvalid

/-! ## Runs -/

/-- What holds of a state, and of every step from it that meets the condition. -/
def Safe (C : Op → Io → St → Prop) (prop : String) (s : St) : Prop :=
  (s.initialized = true → CrcValid s) ∧
    ∀ op io, C op io s → ∃ r s', step prop op io s = some (r, s') ∧ Effects op s r s' ∧
      (s'.initialized = true → CrcValid s')

theorem querySlot_spec (answer : SlotMetadata → Int) (slot : Nat) (io : Io) (s : St) :
    ∃ r, querySlot answer slot io s = some r := by
  unfold querySlot
  split
  · exact ⟨-1, rfl⟩
  rename_i hslot
  rw [not_or, Nat.not_le] at hslot
  split
  · exact ⟨-1, rfl⟩
  · rename_i c _
    refine ⟨answer (c.entry slot), ?_⟩
    unfold BootloaderControl.slotInfo
    rw [if_pos hslot.1]
    rfl

/-- An operation that leaves the state alone. -/
theorem Effects.query {op : Op} {s : St} {r : Reply} (h : ∀ slot, op ≠ .setActiveBootSlot slot) :
    Effects op s r s where
  outside _ _ _ := rfl
  entries _ c hc := ⟨c, hc, .refl _ c⟩
  lowered slot hop := absurd hop (h slot)
  active slot hop := absurd hop (h slot)
  kept _ _ _ _ := rfl

/-- A change of the control block keeps its CRC valid. -/
theorem Changed.crcValid {slots : List Nat} {P : BootloaderControl → BootloaderControl → Prop}
    {s s' : St} {r : Int} (h : Changed slots P s r s') (hinv : s.initialized = true → CrcValid s)
    (hi : s'.initialized = true) : CrcValid s' := by
  have hi0 : s.initialized = true := by
    rw [h.module] at hi
    exact hi
  by_cases hr : r = 0
  · obtain ⟨_, c', -, hc', -, hmatches, -⟩ := h.changed hr
    exact ⟨c', hc', hmatches⟩
  · rw [h.failed hr]
    exact hinv hi0

/-- What a change of the control block says of the operation. -/
theorem Changed.effects (op : Op) {P : BootloaderControl → BootloaderControl → Prop} {s s' : St}
    {r : Int} (h : Changed (aboutSlots op s) P s r s') (hop : op ≠ .lazyInitialization)
    (hactive : ∀ slot, op = .setActiveBootSlot slot → ∀ c c', P c c' →
      Activated slot s.numSlots c c') : Effects op s (.int r) s' where
  outside := h.outside
  entries := by
    intro _ c hc
    by_cases hr : r = 0
    · obtain ⟨c1, c', hc1, hc', honly, -⟩ := h.changed hr
      rw [hc] at hc1
      cases hc1
      exact ⟨c', hc', honly⟩
    · rw [h.failed hr]
      exact ⟨c, hc, .refl _ c⟩
  lowered := by
    intro slot hslot c c' hc hc' i hi hne
    by_cases hr : r = 0
    · obtain ⟨c1, c2, hc1, hc2, -, -, hp⟩ := h.changed hr
      rw [hc] at hc1
      rw [hc'] at hc2
      cases hc1
      cases hc2
      exact .inr ((hactive slot hslot c c' hp).2.2 i hi hne)
    · rw [h.failed hr, hc] at hc'
      cases hc'
      exact .inl rfl
  active := by
    intro slot hslot hr
    obtain ⟨c, c', -, hc', -, -, hp⟩ := h.changed (by injection hr)
    obtain ⟨hprio, htries, hothers⟩ := hactive slot hslot c c' hp
    have hcount : s'.numSlots = s.numSlots := by rw [h.module]
    refine ⟨c', hc', ?_, ?_⟩
    · rw [htries]
      decide
    · intro i hi hne
      rw [hcount] at hi
      rw [hothers i hi hne, hprio]
      exact lowerPriority_lt _
  kept hlazy := absurd hlazy hop

/-- **One step** that meets the condition. -/
theorem step_spec (prop : String) {op : Op} {io : Io} {s : St} (h : Meets op io s)
    (hinv : s.initialized = true → CrcValid s) : ∃ r s', step prop op io s = some (r, s') ∧
      Effects op s r s' ∧ (s'.initialized = true → CrcValid s') := by
  cases op with
  | lazyInitialization =>
    obtain ⟨hcrc, hout, hkept⟩ := lazyInitialization_spec prop h hinv rfl
    refine ⟨.bool (lazyInitialization prop io s).1, (lazyInitialization prop io s).2, rfl, ?_, hcrc⟩
    exact {
      outside := hout
      entries := fun hne => absurd rfl hne
      lowered := nofun
      active := nofun
      kept := fun _ => hkept }
  | markBootSuccessful =>
    obtain ⟨r, s', hrun, hchanged⟩ := markBootSuccessful_spec h
    refine ⟨.int r, s', ?_, hchanged.effects .markBootSuccessful nofun nofun,
      hchanged.crcValid hinv⟩
    simp [step, hrun]
  | setActiveBootSlot slot =>
    obtain ⟨r, s', hrun, hchanged⟩ := setActiveBootSlot_spec h
    refine ⟨.int r, s', ?_, hchanged.effects (.setActiveBootSlot slot) nofun ?_,
      hchanged.crcValid hinv⟩
    · simp [step, hrun]
    · intro slot' hslot c c' hp
      cases hslot
      exact hp
  | setSlotAsUnbootable slot =>
    obtain ⟨r, s', hrun, hchanged⟩ := setSlotAsUnbootable_spec h
    refine ⟨.int r, s', ?_, hchanged.effects (.setSlotAsUnbootable slot) nofun nofun,
      hchanged.crcValid hinv⟩
    simp [step, hrun]
  | isSlotBootable slot =>
    obtain ⟨r, hr⟩ := querySlot_spec (fun e => e.triesRemaining) slot io s
    refine ⟨.int r, s, ?_, .query nofun, hinv⟩
    simp [step, isSlotBootable, hr]
  | isSlotMarkedSuccessful slot =>
    obtain ⟨r, hr⟩ := querySlot_spec
      (fun e => if e.successfulBoot ∧ e.triesRemaining ≠ 0 then 1 else 0) slot io s
    refine ⟨.int r, s, ?_, .query nofun, hinv⟩
    simp [step, isSlotMarkedSuccessful, hr]
  | getNumberSlots => exact ⟨_, s, rfl, .query nofun, hinv⟩
  | getCurrentSlot => exact ⟨_, s, rfl, .query nofun, hinv⟩
  | getSuffix slot => exact ⟨_, s, rfl, .query nofun, hinv⟩

/-- **Boot control.**  In every state of every run whose steps meet the condition, the CRC on misc
matches the control block once the module is initialized, and a further step that meets the
condition indexes `slot_info` in range, changes only the entries it is about, and makes a slot that
it sets active bootable and the first of all slots. -/
theorem boot_control_runs {prop : String} {misc : List UInt8} {s : St}
    (h : Reached Meets prop misc s) : Safe Meets prop s := by
  have hinv : s.initialized = true → CrcValid s := by
    induction h with
    | start => exact fun hi => nomatch hi
    | step op io h hmeets hstep ih =>
      obtain ⟨r', s'', hstep', -, hcrc⟩ := step_spec prop hmeets ih
      rw [hstep] at hstep'
      cases hstep'
      exact hcrc
  exact ⟨hinv, fun op io hmeets => step_spec prop hmeets hinv⟩

/-! ## Where it goes wrong -/

def workingIo : Io where
  device := "/dev/block/misc"
  loads := true
  save := .ok
  stat _ := .missing

theorem reached_lazyInitialization {C : Op → Io → St → Prop} (prop : String) {io : Io}
    (misc : List UInt8) (h : C .lazyInitialization io (.start misc)) :
    Reached C prop misc (lazyInitialization prop io (.start misc)).2 :=
  .step .lazyInitialization io .start h rfl

/-- Slot `_a` of a misc partition full of zeros, which is initialized. -/
theorem boot_control_runs_zeros :
    Safe Meets "_a" (lazyInitialization "_a" workingIo (.start (List.replicate 4096 0))).2 :=
  boot_control_runs (reached_lazyInitialization "_a" _ fun _ _ _ _ => rfl)

/-- Without the boot property the current slot is `-1`, and marking it leaves the four entries. -/
theorem unknown_slot_marked : ¬ ∀ (prop : String) (misc : List UInt8) (s : St),
    Reached (fun _ _ _ => True) prop misc s → Safe (fun _ _ _ => True) prop s := by
  intro h
  obtain ⟨misc, hmisc⟩ : ∃ misc : List UInt8, misc = List.replicate 4096 0 := ⟨_, rfl⟩
  have hreach : Reached (fun _ _ _ => True) "" misc (lazyInitialization "" workingIo (.start misc)).2 :=
    reached_lazyInitialization "" misc trivial
  have hnone : (step "" .markBootSuccessful workingIo
      (lazyInitialization "" workingIo (.start misc)).2).isNone = true := by
    rw [hmisc]
    decide +kernel
  obtain ⟨r, s', hstep, -⟩ := (h _ _ _ hreach).2 .markBootSuccessful workingIo trivial
  rw [hstep] at hnone
  cases hnone

end Recovery.BootControl
