import Recovery.BlockImg.NewDataStream

/-!
# The final join completes

The two threads of the `new` data never stop each other for good, and every `new` is told the truth
about its bytes.

## Invariants

* `Order` — the commands are executed in order; the data of a write is not empty.
* `Inv` — control, order and data together, in every reachable state of a list of targets whose
  sizes do not wrap.
* `Blame` — a failed device operation has a cause: a fault that was ahead at the start, or a target
  that the device does not allow.

## Progress

* `progress` — while the main thread has not joined the other one, some thread can take a step.
* `measure` — it falls with every step; a wakeup without a broadcast adds at most `26`.

## Results

* `new_protocol` — the protocol of the two threads, for every interleaving.
* `wide_never_joins` — a target of `2 ^ 52` blocks, whose size in bytes is 0 in a `size_t`: the
  receiver goes round for ever, and the join is never done.
-/

set_option autoImplicit false

namespace Recovery.BlockImg.NewData

open Recovery.Lib Recovery.OtaUtil Recovery.BlockImg

variable {E : Env} {D : List UInt8} {dev : Nat → UInt8}

/-! ## The commands and their results -/

/-- The target of the `new` in progress. -/
def MainPc.current : MainPc → Option RangeSet
  | .lockNew tgt | .setWriter tgt | .test tgt | .waiting tgt | .wakeup tgt => some tgt
  | _ => none

/-- Data waiting for a writer. -/
def ProdPc.pending : ProdPc → Option (List UInt8)
  | .test d | .waiting d | .wakeup d | .unlockWait d | .write d => some d
  | _ => none

@[simp] theorem broadcast_main_current (s : State) :
    (broadcast s).main.current = s.main.current := by
  unfold broadcast
  cases s.main <;> rfl

@[simp] theorem broadcast_prod_pending (s : State) :
    (broadcast s).prod.pending = s.prod.pending := by
  unfold broadcast
  cases s.prod <;> rfl

@[simp] theorem broadcast_main_done (s : State) :
    (broadcast s).main = .done ↔ s.main = .done := by
  unfold broadcast
  cases s.main <;> simp

@[simp] theorem broadcast_prod_done (s : State) :
    (broadcast s).prod = .done ↔ s.prod = .done := by
  unfold broadcast
  cases s.prod <;> simp

/-- The commands are executed in order, and pieces of data are not empty. -/
structure Order (cmds : List RangeSet) (s : State) : Prop where
  order : s.finished ++ s.main.current.toList ++ s.remaining = cmds
  pending : ∀ d, s.prod.pending = some d → d ≠ []
  joined : s.main = .done → s.prod = .done

theorem Order.broadcast {cmds : List RangeSet} {s : State} (h : Order cmds s) :
    Order cmds (broadcast s) :=
  ⟨by simpa [State.finished] using h.order, by simpa using h.pending,
    by simpa using h.joined⟩

theorem mainMove_order {cmds : List RangeSet} {s s' : State} (h : MainMove s s')
    (ho : Order cmds s) : Order cmds s' := by
  obtain ⟨h1, h2, h3⟩ := ho
  cases h
  case setWriter | setCleanup =>
    refine Order.broadcast ⟨?_, ?_, ?_⟩ <;> simp_all [MainPc.current, State.finished]
  all_goals constructor <;> simp_all [MainPc.current, State.finished]

theorem prodMove_order {cmds : List RangeSet} {s s' : State} (h : ProdMove E s s')
    (ho : Order cmds s) : Order cmds s' := by
  obtain ⟨h1, h2, h3⟩ := ho
  cases h
  case clear | setEndWake =>
    refine Order.broadcast ⟨?_, ?_, ?_⟩ <;> simp_all [ProdPc.pending, State.finished]
  all_goals constructor <;> simp_all [ProdPc.pending, State.finished]

theorem wakeup_order {cmds : List RangeSet} {s s' : State} (h : Wakeup s s')
    (ho : Order cmds s) : Order cmds s' := by
  obtain ⟨h1, h2, h3⟩ := ho
  cases h <;> constructor <;> simp_all [MainPc.current, ProdPc.pending, State.finished]

/-! ## Every reachable state -/

/-- What holds of every reachable state. -/
structure Inv (cmds : List RangeSet) (D : List UInt8) (dev : Nat → UInt8) (s : State) : Prop where
  ctrl : Ctrl s
  order : Order cmds s
  data : Data D dev s

theorem step_inv {cmds : List RangeSet} (hsized : ∀ tgt ∈ cmds, Sized tgt) {s s' : State}
    (hi : Inv cmds D dev s) (h : Step E s s') : Inv cmds D dev s' := by
  rcases h with h | h
  · have hm := mainStep_move h
    refine ⟨mainMove_ctrl hm hi.ctrl, mainMove_order hm hi.order,
      mainMove_data hm hi.ctrl (fun tgt ht => hsized tgt ?_) hi.data⟩
    rw [← hi.order.order, ht]
    simp [MainPc.current]
  · have hp := prodStep_move E h
    exact ⟨prodMove_ctrl E hp hi.ctrl, prodMove_order hp hi.order,
      prodMove_data hp hi.ctrl hi.data⟩

theorem wakeup_inv {cmds : List RangeSet} {s s' : State} (hi : Inv cmds D dev s)
    (h : Wakeup s s') : Inv cmds D dev s' :=
  ⟨wakeup_ctrl h hi.ctrl, wakeup_order h hi.order, wakeup_data h hi.data⟩

theorem init_order (cmds : List RangeSet) (chunks : List (List UInt8)) (io : St) :
    Order cmds (init cmds chunks io) := by
  constructor <;> simp [init, MainPc.current, ProdPc.pending, State.finished]

theorem Reachable.inv {cmds : List RangeSet} (hsized : ∀ tgt ∈ cmds, Sized tgt)
    {chunks : List (List UInt8)} {io : St} (hcrash : ¬ Doomed io) (herr : io.devError = false)
    {s : State} (h : Reachable E cmds chunks io s) :
    Inv cmds chunks.flatten io.disk.dev s := by
  obtain ⟨n, m, h⟩ := h
  have h0 : Inv cmds chunks.flatten io.disk.dev (init cmds chunks io) :=
    ⟨init_ctrl cmds chunks io, init_order cmds chunks io, init_data cmds hcrash herr⟩
  exact Run.invariant (I := Inv cmds chunks.flatten io.disk.dev) (fun _ _ => step_inv hsized)
    (fun _ _ => wakeup_inv) h0 h

/-! ## Why an operation fails -/

/-- A failure on record comes from a fault that was ahead at the start, or from a target that the
device does not allow. -/
structure Blame (E : Env) (cmds : List RangeSet) (io : St) (s : State) : Prop where
  ahead : s.io.fates <:+ io.fates
  blame : s.io.devError = true → ∃ tgt ∈ cmds, Bad E (byteAddrs tgt.ranges) io

theorem Blame.congr {cmds : List RangeSet} {io : St} {s s' : State} (h : Blame E cmds io s)
    (hio : s'.io = s.io) : Blame E cmds io s' :=
  ⟨by rw [hio]; exact h.ahead, by rw [hio]; exact h.blame⟩

/-- The write of the receiver. -/
theorem Blame.write {cmds : List RangeSet} {io io' : St} {s : State} {data : List UInt8}
    {w w' : RangeSinkWriter} {n : Nat} (hb : Blame E cmds io s) (hi : Inv cmds D dev s)
    (hp : s.prod = .write data) (hw : s.writer = some w)
    (hwrite : w.write E (data.take (min data.length w.availableSpace)) s.io = .ok (n, w') io') :
    io'.fates <:+ io.fates ∧
      (io'.devError = true → ∃ tgt ∈ cmds, Bad E (byteAddrs tgt.ranges) io) := by
  obtain ⟨tgt, h, ho⟩ := hi.data.of_writer hw (by rw [hp]; rfl)
  have hmem : tgt ∈ cmds := by
    have hcur : s.main.current = some tgt := by
      have hserving := h.serving
      revert hserving
      cases s.main <;> simp [MainPc.serving, MainPc.current]
    rw [← hi.order.order, hcur]
    simp
  have hspec := (RangeSinkWriter.write_spec E _ ho.cursor (ho.room (by rw [hp]; rfl))
    (by rw [List.length_take, ho.available]; omega)).of_ok hwrite
  rcases hspec with ⟨-, ⟨-, hact, -⟩ | ⟨-, hact⟩⟩
  · exact ⟨hact.only.suffix.trans hb.ahead, fun herr => hb.blame ((hact.ok rfl).symm.trans herr)⟩
  · refine ⟨hact.only.suffix.trans hb.ahead, fun _ => ⟨tgt, hmem, ?_⟩⟩
    have hbad := (hact.mono fun a ha => List.mem_of_mem_drop ha).failed rfl
    rw [← ho.target]
    exact hbad.2.imp_left (Faulty.of_suffix hb.ahead)

theorem step_blame {cmds : List RangeSet} {io : St} {s s' : State} (hb : Blame E cmds io s)
    (hi : Inv cmds D dev s) (h : Step E s s') : Blame E cmds io s' := by
  rcases h with h | h
  · refine hb.congr ?_
    cases mainStep_move h <;> rfl
  · cases prodStep_move E h with
    | wrote hp hw hwrite =>
      obtain ⟨h1, h2⟩ := hb.write hi hp hw hwrite
      exact ⟨h1, h2⟩
    | short hp hw hwrite hn =>
      obtain ⟨h1, h2⟩ := hb.write hi hp hw hwrite
      exact ⟨h1, h2⟩
    | _ => exact hb.congr rfl

theorem Reachable.blame {cmds : List RangeSet} (hsized : ∀ tgt ∈ cmds, Sized tgt)
    {chunks : List (List UInt8)} {io : St} (hcrash : ¬ Doomed io) (herr : io.devError = false)
    {s : State} (h : Reachable E cmds chunks io s) : Blame E cmds io s := by
  obtain ⟨n, m, h⟩ := h
  have h0 : Reachable E cmds chunks io (init cmds chunks io) := ⟨0, 0, .refl _⟩
  have hstart : Blame E cmds io (init cmds chunks io) :=
    ⟨List.suffix_rfl, fun h => absurd (herr.symm.trans h) (by decide)⟩
  have hI := Run.invariant
    (I := fun s => Inv cmds chunks.flatten io.disk.dev s ∧ Blame E cmds io s)
    (fun _ _ hi hs => ⟨step_inv hsized hi.1 hs, step_blame hi.2 hi.1 hs⟩)
    (fun _ _ hi hs => ⟨wakeup_inv hi.1 hs, hi.2.congr (by cases hs <;> rfl)⟩)
    ⟨h0.inv hsized hcrash herr, hstart⟩ h
  exact hI.2

/-! ## Progress -/

/-- A thread that holds the mutex is not blocked. -/
theorem mainStep_of_holds {s : State} (h : s.main.holds = true) : ∃ s', mainStep s = some s' := by
  unfold mainStep
  cases hm : s.main <;> rw [hm] at h <;> cases h
  case test tgt =>
    cases s.writer with
    | none => exact ⟨_, rfl⟩
    | some w => cases s.receiverAvailable <;> exact ⟨_, rfl⟩
  all_goals exact ⟨_, rfl⟩

theorem prodStep_of_holds {s : State} (h : s.prod.holds = true) :
    ∃ s', prodStep E s = some s' := by
  unfold prodStep
  cases hp : s.prod <;> rw [hp] at h <;> cases h
  case test data =>
    cases s.writer with
    | none => cases s.receiverAvailable <;> exact ⟨_, rfl⟩
    | some w => exact ⟨_, rfl⟩
  case setEnd => cases s.writer <;> exact ⟨_, rfl⟩
  all_goals exact ⟨_, rfl⟩

/-- With the mutex free the main thread can go on, unless it waits for the other one. -/
theorem mainStep_of_free {s : State} (hfree : s.mutex = none)
    (hwait : ∀ tgt, s.main ≠ .waiting tgt) (hjoin : s.main ≠ .join) (hdone : s.main ≠ .done) :
    ∃ s', mainStep s = some s' := by
  unfold mainStep
  cases hm : s.main with
  | returned r =>
    dsimp only
    split
    · exact ⟨_, rfl⟩
    · cases s.remaining <;> exact ⟨_, rfl⟩
  | test tgt =>
    cases s.writer with
    | none => exact ⟨_, rfl⟩
    | some w => cases s.receiverAvailable <;> exact ⟨_, rfl⟩
  | waiting tgt => exact absurd hm (hwait tgt)
  | join => exact absurd hm hjoin
  | done => exact absurd hm hdone
  | lockNew | wakeup | lockCleanup => exact ⟨_, if_pos hfree⟩
  | setWriter | unlock | setCleanup | unlockCleanup => exact ⟨_, rfl⟩

/-- The same for the background thread; the writer it uses without the lock is there. -/
theorem prodStep_of_free {cmds : List RangeSet} {s : State} (hi : Inv cmds D dev s)
    (hfree : s.mutex = none) (hwait : ∀ d, s.prod ≠ .waiting d) (hdone : s.prod ≠ .done) :
    ∃ s', prodStep E s = some s' := by
  unfold prodStep
  cases hp : s.prod with
  | feed => cases s.chunks <;> exact ⟨_, rfl⟩
  | loop d =>
    dsimp only
    split
    · exact ⟨_, rfl⟩
    · exact ⟨_, rfl⟩
  | test d =>
    cases s.writer with
    | none => cases s.receiverAvailable <;> exact ⟨_, rfl⟩
    | some w => exact ⟨_, rfl⟩
  | waiting d => exact absurd hp (hwait d)
  | write d =>
    obtain ⟨w, hw⟩ := Option.isSome_iff_exists.1 (hi.ctrl.owns (by rw [hp]; rfl)).1
    obtain ⟨tgt, h, ho⟩ := hi.data.of_writer hw (by rw [hp]; rfl)
    have hspec := RangeSinkWriter.write_spec E (d.take (min d.length w.availableSpace))
      ho.cursor (ho.room (by rw [hp]; rfl)) (by rw [List.length_take, ho.available]; omega)
    cases he : w.write E (d.take (min d.length w.availableSpace)) s.io with
    | ok r io =>
      simp only [hw, he]
      split <;> exact ⟨_, rfl⟩
    | error e io => exact absurd (hspec.of_error he).doomed h.noCrash
  | testFinished d =>
    obtain ⟨w, hw⟩ := Option.isSome_iff_exists.1 (hi.ctrl.owns (by rw [hp]; rfl)).1
    simp only [hw]
    split <;> exact ⟨_, rfl⟩
  | setEnd => cases s.writer <;> exact ⟨_, rfl⟩
  | wakeup | lockFinish | lockEnd => exact ⟨_, if_pos hfree⟩
  | unlockWait | clear | unlockFinish | unlockFalse | unlockEnd => exact ⟨_, rfl⟩
  | done => exact absurd hp hdone

/-- **No deadlock**: some thread can take a step until the join is done. -/
theorem progress {cmds : List RangeSet} {s : State} (hi : Inv cmds D dev s)
    (hdone : s.main ≠ .done) : ∃ s', Step E s s' := by
  cases hmu : s.mutex with
  | some t =>
    cases t with
    | main =>
      obtain ⟨s', h⟩ := mainStep_of_holds (hi.ctrl.mutexMain.1 hmu)
      exact ⟨s', Or.inl h⟩
    | prod =>
      obtain ⟨s', h⟩ := prodStep_of_holds (E := E) (hi.ctrl.mutexProd.1 hmu)
      exact ⟨s', Or.inr h⟩
  | none =>
    by_cases hwait : ∃ tgt, s.main = .waiting tgt
    · -- the receiver is at work: it neither waits for a writer nor has it ended
      obtain ⟨tgt, hm⟩ := hwait
      obtain ⟨hw, ha⟩ := hi.ctrl.waitMain tgt hm
      obtain ⟨s', h⟩ := prodStep_of_free (E := E) hi hmu
        (fun d hp => by rw [(hi.ctrl.waitProd d hp).1] at hw; cases hw)
        (fun hp => by
          have := hi.ctrl.available.2 (Or.inl (by rw [hp]; rfl))
          rw [ha] at this
          cases this)
      exact ⟨s', Or.inr h⟩
    · by_cases hjoin : s.main = .join
      · -- the receiver has been told to stop
        have ha := hi.ctrl.available.2 (Or.inr (by rw [hjoin]; rfl))
        by_cases hp : s.prod = .done
        · exact ⟨{ s with main := .done }, Or.inl (by simp only [mainStep, hjoin, hp])⟩
        · obtain ⟨s', h⟩ := prodStep_of_free (E := E) hi hmu
            (fun d hd => by
              have := (hi.ctrl.waitProd d hd).2
              rw [ha] at this
              cases this) hp
          exact ⟨s', Or.inr h⟩
      · obtain ⟨s', h⟩ := mainStep_of_free hmu (fun tgt hm => hwait ⟨tgt, hm⟩) hjoin hdone
        exact ⟨s', Or.inl h⟩

/-! ## Termination -/

def MainPc.rank : MainPc → Nat
  | .lockNew _ => 150
  | .setWriter _ => 149
  | .wakeup _ => 111
  | .test _ => 110
  | .waiting _ => 106
  | .unlock _ => 105
  | .returned _ => 60
  | .lockCleanup => 50
  | .setCleanup => 49
  | .unlockCleanup => 20
  | .join => 19
  | .done => 0

/-- A byte is worth more than a round of the receiver without it. -/
def ProdPc.rank : ProdPc → Nat
  | .testFinished d => 50 + 40 * d.length
  | .lockFinish d => 49 + 40 * d.length
  | .clear d => 48 + 40 * d.length
  | .unlockFinish d => 40 + 40 * d.length
  | .loop d => 27 + 40 * d.length
  | .wakeup d => 27 + 40 * d.length
  | .test d => 26 + 40 * d.length
  | .unlockWait d => 25 + 40 * d.length
  | .write d => 24 + 40 * d.length
  | .waiting d => 1 + 40 * d.length
  | .unlockFalse => 21
  | .feed => 20
  | .lockEnd => 19
  | .setEnd => 18
  | .unlockEnd => 10
  | .done => 0

/-- The work left to the two threads. -/
def measure (s : State) : Nat :=
  s.main.rank + 100 * s.remaining.length + s.prod.rank +
    (s.chunks.map fun chunk => 20 + 40 * chunk.length).sum

theorem broadcast_main_rank (s : State) : (broadcast s).main.rank ≤ s.main.rank + 5 := by
  unfold broadcast
  cases s.main <;> simp [MainPc.rank]

theorem broadcast_prod_rank (s : State) : (broadcast s).prod.rank ≤ s.prod.rank + 26 := by
  unfold broadcast
  cases s.prod <;> simp [ProdPc.rank]
  lia

/-- Main's own broadcast does not wake it, nor the background thread's itself. -/
theorem broadcast_main_eq {s : State} (h : ∀ tgt, s.main ≠ .waiting tgt) :
    (broadcast s).main = s.main := by
  unfold broadcast
  cases hm : s.main <;> first | rfl | exact absurd hm (h _)

theorem broadcast_prod_eq {s : State} (h : ∀ d, s.prod ≠ .waiting d) :
    (broadcast s).prod = s.prod := by
  unfold broadcast
  cases hp : s.prod <;> first | rfl | exact absurd hp (h _)

theorem mainMove_measure {s s' : State} (h : MainMove s s') : measure s' < measure s := by
  cases h
  case setWriter tgt hm =>
    have hb := broadcast_prod_rank
      { s with writer := some (RangeSinkWriter.new tgt), main := .test tgt }
    rw [measure, broadcast_main_eq (by simp), measure, hm]
    simp only [MainPc.rank, broadcast_remaining, broadcast_chunks] at *
    lia
  case setCleanup hm =>
    have hb := broadcast_prod_rank { s with receiverAvailable := false, main := .unlockCleanup }
    rw [measure, broadcast_main_eq (by simp), measure, hm]
    simp only [MainPc.rank, broadcast_remaining, broadcast_chunks] at *
    lia
  all_goals
    simp_all only [measure, MainPc.rank, List.length_cons]
    lia

/-- Giving out a byte at least. -/
theorem drop_length_lt {d : List UInt8} {n : Nat} (hd : d ≠ []) (hn : 0 < n) :
    (d.drop (min d.length n)).length + 1 ≤ d.length := by
  have := List.length_pos_of_ne_nil hd
  rw [List.length_drop]
  omega

theorem prodMove_measure {cmds : List RangeSet} {s s' : State} (h : ProdMove E s s')
    (hi : Inv cmds D dev s) : measure s' < measure s := by
  cases h
  case wrote data w w' io hp hw hwrite =>
    obtain ⟨tgt, h, ho⟩ := hi.data.of_writer hw (by rw [hp]; rfl)
    have hlt := drop_length_lt (hi.order.pending data (by rw [hp]; rfl))
      (ho.room (by rw [hp]; rfl))
    simp only [measure, hp, ProdPc.rank, ho.available]
    lia
  case clear data hp =>
    have hb := broadcast_main_rank { s with writer := none, prod := .unlockFinish data }
    rw [measure, broadcast_prod_eq (by simp), measure, hp]
    simp only [ProdPc.rank, broadcast_remaining, broadcast_chunks] at *
    lia
  case setEndWake w hp hw =>
    have hb := broadcast_main_rank { s with receiverAvailable := false, prod := .unlockEnd }
    rw [measure, broadcast_prod_eq (by simp), measure, hp]
    simp only [ProdPc.rank, broadcast_remaining, broadcast_chunks] at *
    lia
  case feed chunk chunks hp hc =>
    simp only [measure, hp, hc, ProdPc.rank, List.map_cons, List.sum_cons]
    lia
  all_goals
    simp_all only [measure, ProdPc.rank, List.length_nil]
    lia

theorem step_measure {cmds : List RangeSet} {s s' : State} (hi : Inv cmds D dev s)
    (h : Step E s s') : measure s' < measure s := by
  rcases h with h | h
  · exact mainMove_measure (mainStep_move h)
  · exact prodMove_measure (prodStep_move E h) hi

theorem wakeup_measure {s s' : State} (h : Wakeup s s') : measure s' ≤ measure s + 26 := by
  cases h with
  | main hm =>
    simp only [measure, hm, MainPc.rank]
    lia
  | prod hp =>
    simp only [measure, hp, ProdPc.rank]
    lia

/-! ## The protocol -/

/-- What a `new` for `tgt` has done when it returns `r`, the earlier ones having had the targets
`earlier`. -/
structure Returned (D : List UInt8) (dev : Nat → UInt8) (earlier : List RangeSet) (tgt : RangeSet)
    (r : Int) (s : State) : Prop where
  value : r = 0 ∨ r = -1
  received : r = 0 → bytes tgt ≤ (D.drop (need earlier)).length ∧
    s.io.disk.dev = fill (deliver dev D earlier) (byteAddrs tgt.ranges)
      ((D.drop (need earlier)).take (bytes tgt))
  failed : r = -1 ↔
    (D.drop (need earlier)).length < bytes tgt ∨ s.io.devError = true

theorem Inv.returned {cmds : List RangeSet} {s : State} {r v : Int}
    {log : List (RangeSet × Int)} {tgt : RangeSet} (hsized : ∀ tgt ∈ cmds, Sized tgt)
    (hi : Inv cmds D dev s) (hm : s.main = .returned r) (hlog : s.log = log ++ [(tgt, v)]) :
    v = r ∧ (∀ e ∈ log, e.2 = 0) ∧ Returned D dev (log.map Prod.fst) tgt r s := by
  have hfin : s.finished = log.map Prod.fst ++ [tgt] := by
    rw [State.finished, hlog, List.map_append, List.map_cons, List.map_nil]
  have hpos : 0 < bytes tgt := by
    refine (hsized tgt ?_).pos
    rw [← hi.order.order, hfin]
    simp
  rcases hi.data.of_not_serving (by rw [hm]; rfl) with h | h
  · have hr : r = 0 := h.value r (by rw [hm]; rfl)
    have hv : v = 0 := h.zeros (tgt, v) (by rw [hlog]; simp)
    have henough := h.enough
    rw [hfin, need_append, need_singleton] at henough
    subst hr
    refine ⟨hv, fun e he => h.zeros e (by rw [hlog]; exact List.mem_append_left _ he),
      ⟨Or.inl rfl, fun _ => ⟨?_, ?_⟩, ⟨fun h => absurd h (by decide), ?_⟩⟩⟩
    · rw [List.length_drop]
      omega
    · rw [h.dev, hfin, deliver_concat]
    · rintro (hlt | herr)
      · rw [List.length_drop] at hlt
        omega
      · rw [h.noErr] at herr
        cases herr
  · have hr : r = -1 := h.value r (by rw [hm]; rfl)
    obtain ⟨log', tgt', hlog', hzeros⟩ := h.log
    rw [hlog] at hlog'
    obtain ⟨rfl, he⟩ := List.append_inj' hlog' rfl
    cases he
    have hcause := h.cause
    rw [hfin, need_append, need_singleton] at hcause
    subst hr
    refine ⟨rfl, hzeros, ⟨Or.inr rfl, fun h => absurd h (by decide),
      ⟨fun _ => ?_, fun _ => rfl⟩⟩⟩
    rw [List.length_drop]
    exact hcause.imp_left fun h => by omega

/-- **The two threads.**  For every sequence of `new` commands, every chunking of the stream and
every interleaving: the commands return in order; each receives the next bytes of the stream and
returns `0`, or returns `-1` exactly when too few bytes are left or a device operation has failed,
which takes a fault or a target that the device does not allow; some thread can go on until the
join is done; and the number of steps is bounded but for wakeups without a broadcast. -/
theorem new_protocol (E : Env) (cmds : List RangeSet)
    (hsized : ∀ tgt ∈ cmds, Sized tgt) (chunks : List (List UInt8)) (io : St)
    (hcrash : ¬ Doomed io) (herr : io.devError = false) :
    (∀ s, Reachable E cmds chunks io s →
      (∃ rest, s.finished ++ rest = cmds) ∧
      (∀ r v log tgt, s.main = .returned r → s.log = log ++ [(tgt, v)] →
        v = r ∧ (∀ e ∈ log, e.2 = 0) ∧
          Returned chunks.flatten io.disk.dev (log.map Prod.fst) tgt r s) ∧
      (s.io.devError = true → ∃ tgt ∈ cmds, Bad E (byteAddrs tgt.ranges) io) ∧
      (s.main ≠ .done → ∃ s', Step E s s') ∧
      (s.main = .done → s.prod = .done)) ∧
    ∃ bound, ∀ n m s, Run (Step E) Wakeup n m (init cmds chunks io) s → n ≤ bound + 26 * m := by
  refine ⟨fun s hs => ?_, measure (init cmds chunks io), fun n m s hs => ?_⟩
  · have hi := hs.inv hsized hcrash herr
    exact ⟨⟨_, (List.append_assoc _ _ _).symm.trans hi.order.order⟩,
      fun r v log tgt hm hlog => hi.returned hsized hm hlog, (hs.blame hsized hcrash herr).blame,
      progress hi, hi.order.joined⟩
  · have h0 : Reachable E cmds chunks io (init cmds chunks io) := ⟨0, 0, .refl _⟩
    have hb := Run.bound (I := Inv cmds chunks.flatten io.disk.dev) (f := measure) (k := 26)
      (fun _ _ => step_inv hsized) (fun _ _ => wakeup_inv) (fun _ _ => step_measure)
      (fun _ _ _ => wakeup_measure) (h0.inv hsized hcrash herr) hs
    omega

/-- Two blocks to the end of the device and one to its start, from a stream that is cut in the
middle of the first block and ends in the last. -/
theorem new_protocol_two :
    let cmds := [RangeSet.ofPairs [(1, 3)], RangeSet.ofPairs [(0, 1)]]
    let chunks := [List.replicate 100 1, List.replicate 9000 2]
    (∀ s, Reachable Env.small cmds chunks (St.zeros none []) s →
      (∃ rest, s.finished ++ rest = cmds) ∧
      (∀ r v log tgt, s.main = .returned r → s.log = log ++ [(tgt, v)] →
        v = r ∧ (∀ e ∈ log, e.2 = 0) ∧
          Returned chunks.flatten (St.zeros none []).disk.dev (log.map Prod.fst) tgt r s) ∧
      (s.io.devError = true →
        ∃ tgt ∈ cmds, Bad Env.small (byteAddrs tgt.ranges) (St.zeros none [])) ∧
      (s.main ≠ .done → ∃ s', Step Env.small s s') ∧
      (s.main = .done → s.prod = .done)) ∧
    ∃ bound, ∀ n m s, Run (Step Env.small) Wakeup n m (init cmds chunks (St.zeros none [])) s →
      n ≤ bound + 26 * m := by
  refine new_protocol Env.small _ ?_ _ (St.zeros none []) (by simp [Doomed, St.zeros]) rfl
  have hsized : Sized (RangeSet.ofPairs [(1, 3)]) ∧ Sized (RangeSet.ofPairs [(0, 1)]) :=
    ⟨⟨by decide, by decide, by decide⟩, ⟨by decide, by decide, by decide⟩⟩
  intro tgt htgt
  rcases List.mem_pair.1 htgt with rfl | rfl
  · exact hsized.1
  · exact hsized.2

/-! ## A writer without space -/

/-- One `new` for `tgt` and one byte for it, which the writer does not take. -/
structure Spins (tgt : RangeSet) (s : State) : Prop where
  main : s.main = .returned 0 ∧ s.remaining = [tgt] ∨ s.main.current = some tgt
  prod : s.prod = .feed ∧ s.chunks = [[1]] ∨ s.prod.data = some [1] ∧ s.prod.full = false
  writer : s.writer = none ∧ s.main.serving = none ∨ s.writer = some (RangeSinkWriter.new tgt)
  log : s.log = []

theorem Spins.broadcast {tgt : RangeSet} {s : State} (h : Spins tgt s) :
    Spins tgt (broadcast s) := by
  obtain ⟨h1, h2, h3, h4⟩ := h
  refine ⟨h1.imp (fun h => ⟨?_, h.2⟩) ?_, h2.imp (fun h => ⟨?_, h.2⟩) ?_, by simpa using h3, h4⟩
  · rw [NewData.broadcast, h.1]
  · simp
  · rw [NewData.broadcast, h.1]
  · simp

/-- Nobody has told the receiver to stop. -/
theorem Spins.fed {tgt : RangeSet} {s : State} (h : Spins tgt s) (hc : Ctrl s) :
    s.receiverAvailable ≠ false := by
  intro ha
  rcases hc.available.1 ha with he | he
  · rcases h.prod with ⟨hp, -⟩ | ⟨hp, -⟩
    · rw [hp] at he
      cases he
    · revert hp he
      cases s.prod <;> simp [ProdPc.data, ProdPc.ended]
  · rcases h.main with ⟨hm, -⟩ | hm
    · rw [hm] at he
      cases he
    · revert hm he
      cases s.main <;> simp [MainPc.current, MainPc.cleaned]

theorem mainMove_spins {tgt : RangeSet} {s s' : State} (h : MainMove s s') (hc : Ctrl s)
    (hs : Spins tgt s) : Spins tgt s' := by
  have hfed := hs.fed hc
  obtain ⟨h1, h2, h3, h4⟩ := hs
  cases h
  case setWriter =>
    refine Spins.broadcast ⟨?_, ?_, ?_, ?_⟩ <;> simp_all [MainPc.current, MainPc.serving]
  all_goals constructor <;> simp_all [MainPc.current, MainPc.serving]

theorem prodMove_spins {tgt : RangeSet} (hfull : (RangeSinkWriter.new tgt).availableSpace = 0)
    (hopen : (RangeSinkWriter.new tgt).finished = false) {s s' : State} (h : ProdMove E s s')
    (hc : Ctrl s) (hs : Spins tgt s) : Spins tgt s' := by
  have hfed := hs.fed hc
  have howns := hc.owns
  obtain ⟨h1, h2, h3, h4⟩ := hs
  cases h
  case wrote data w w' io hp hw hwrite =>
    obtain rfl : RangeSinkWriter.new tgt = w := by simp_all
    rw [hfull, Nat.min_zero, List.take_zero, RangeSinkWriter.write_nil] at hwrite
    cases hwrite
    constructor <;> simp_all [ProdPc.data, ProdPc.full]
  case short data w w' n io hp hw hwrite hn =>
    obtain rfl : RangeSinkWriter.new tgt = w := by simp_all
    rw [hfull, Nat.min_zero, List.take_zero, RangeSinkWriter.write_nil] at hwrite
    cases hwrite
    exact absurd (by rw [hfull, Nat.min_zero]) hn
  case clear | setEndWake => simp_all [ProdPc.data, ProdPc.full]
  all_goals constructor <;> simp_all [ProdPc.data, ProdPc.full]

theorem wakeup_spins {tgt : RangeSet} {s s' : State} (h : Wakeup s s') (hs : Spins tgt s) :
    Spins tgt s' := by
  obtain ⟨h1, h2, h3, h4⟩ := hs
  cases h <;> constructor <;>
    simp_all [MainPc.current, MainPc.serving, ProdPc.data, ProdPc.full]

/-- A target of `2 ^ 52` blocks: the receiver sees no space and comes round for ever, and the join
is never done, although the stream is far too short. -/
theorem wide_never_joins : ∃ tgt : RangeSet, tgt.isValid = true ∧
    (∀ r ∈ tgt.ranges, r.2 ≤ INT_MAX) ∧
    ∀ s, Reachable Env.small [tgt] [[1]] (St.zeros none []) s → s.log = [] ∧ s.main ≠ .done := by
  obtain ⟨tgt, hnumbers, hblocks⟩ := RangeSinkWriter.exists_wide
  have hvalid : tgt.ranges ≠ [] := by
    intro hnil
    rw [tgt.blocks_eq, hnil] at hblocks
    cases hblocks
  have hfull : (RangeSinkWriter.new tgt).availableSpace = 0 := by
    have hbytes : tgt.blocks * BLOCKSIZE = 2 ^ 64 := by rw [hblocks]; rfl
    simp [RangeSinkWriter.availableSpace, RangeSinkWriter.new, blockBytes, hbytes]
  have hopen : (RangeSinkWriter.new tgt).finished = false := by
    have hsize := List.length_pos_of_ne_nil hvalid
    simp only [RangeSinkWriter.finished, RangeSinkWriter.new, RangeSet.size]
    simpa using hsize.ne
  refine ⟨tgt, RangeSet.isValid_iff.2 hvalid, hnumbers, fun s hs => ?_⟩
  obtain ⟨n, m, hrun⟩ := hs
  have hI := Run.invariant (I := fun s => Ctrl s ∧ Spins tgt s) ?_ ?_ ?_ hrun
  · obtain ⟨-, hmain, -, -, hlog⟩ := hI
    refine ⟨hlog, fun hdone => ?_⟩
    rw [hdone] at hmain
    rcases hmain with ⟨hmain, -⟩ | hmain <;> cases hmain
  · rintro b c ⟨hc, hb⟩ (h | h)
    · exact ⟨mainMove_ctrl (mainStep_move h) hc, mainMove_spins (mainStep_move h) hc hb⟩
    · have hp := prodStep_move Env.small h
      exact ⟨prodMove_ctrl Env.small hp hc, prodMove_spins hfull hopen hp hc hb⟩
  · rintro b c ⟨hc, hb⟩ h
    exact ⟨wakeup_ctrl h hc, wakeup_spins h hb⟩
  · exact ⟨init_ctrl _ _ _, .inl ⟨rfl, rfl⟩, .inl ⟨rfl, rfl⟩, .inl ⟨rfl, rfl⟩, rfl⟩

end Recovery.BlockImg.NewData
