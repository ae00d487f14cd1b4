import Recovery.BlockImg.RangeSink
import Recovery.Lib.Run

/-!
# The two threads of the `new` data

The background thread runs `unzip_new_data`, which hands the chunks of the stream to
`receive_new_data`; the main thread executes `PerformCommandNew` for one target after the other
and then the cleanup of `PerformBlockImageUpdate`.

* `MainPc`, `ProdPc` — the program points of the two threads; each `pthread_*` call, and each
  access to the shared fields between two of them, is a step of its own.
* `mainStep`, `prodStep` — the next step of a thread, when it is not blocked.
* `Wakeup` — a wakeup of `pthread_cond_wait` without a broadcast.
* `Ctrl` — who holds the mutex, who owns the writer, and who may be waiting for whom.

Between `unlockWait` and `clear` the receiver uses the writer without the lock; `Ctrl.owns` says
that the main thread is then inside the loop of `PerformCommandNew`, where it only compares the
pointer with null.
-/

set_option autoImplicit false

namespace Recovery.BlockImg.NewData

open Recovery.Lib Recovery.OtaUtil Recovery.BlockImg

inductive Tid where
  | main
  | prod
  deriving DecidableEq, Repr

inductive MainPc where
  /-- Between two commands; the last one returned `r`. -/
  | returned (r : Int)
  | lockNew (tgt : RangeSet)
  | setWriter (tgt : RangeSet)
  | test (tgt : RangeSet)
  | waiting (tgt : RangeSet)
  | wakeup (tgt : RangeSet)
  | unlock (r : Int)
  | lockCleanup
  | setCleanup
  | unlockCleanup
  | join
  | done

inductive ProdPc where
  /-- In the zip library, between two calls of the receiver. -/
  | feed
  | loop (data : List UInt8)
  | test (data : List UInt8)
  | waiting (data : List UInt8)
  | wakeup (data : List UInt8)
  | unlockWait (data : List UInt8)
  | write (data : List UInt8)
  | testFinished (data : List UInt8)
  | lockFinish (data : List UInt8)
  | clear (data : List UInt8)
  | unlockFinish (data : List UInt8)
  | unlockFalse
  | lockEnd
  | setEnd
  | unlockEnd
  | done

structure State where
  main : MainPc
  prod : ProdPc
  /-- Targets of the `new` commands not yet started. -/
  remaining : List RangeSet
  /-- Targets of the finished ones with the value returned. -/
  log : List (RangeSet × Int)
  /-- Chunks not yet handed to the receiver. -/
  chunks : List (List UInt8)
  writer : Option RangeSinkWriter
  receiverAvailable : Bool
  mutex : Option Tid
  io : St

/-- `pthread_cond_broadcast`. -/
def broadcast (s : State) : State := { s with
  main := match s.main with
    | .waiting tgt => .wakeup tgt
    | pc => pc
  prod := match s.prod with
    | .waiting data => .wakeup data
    | pc => pc }

def mainStep (s : State) : Option State :=
  match s.main with
  | .returned r =>
    if r = -1 then some { s with main := .lockCleanup }
    else match s.remaining with
      | [] => some { s with main := .lockCleanup }
      | tgt :: rest => some { s with main := .lockNew tgt, remaining := rest }
  | .lockNew tgt =>
    if s.mutex = none then some { s with mutex := some .main, main := .setWriter tgt } else none
  | .setWriter tgt =>
    some (broadcast { s with writer := some (RangeSinkWriter.new tgt), main := .test tgt })
  | .test tgt =>
    match s.writer with
    | none => some { s with main := .unlock 0, log := s.log ++ [(tgt, 0)] }
    | some _ =>
      if s.receiverAvailable then some { s with main := .waiting tgt, mutex := none }
      else some { s with main := .unlock (-1), log := s.log ++ [(tgt, -1)] }
  | .waiting _ => none
  | .wakeup tgt =>
    if s.mutex = none then some { s with mutex := some .main, main := .test tgt } else none
  | .unlock r => some { s with mutex := none, main := .returned r }
  | .lockCleanup =>
    if s.mutex = none then some { s with mutex := some .main, main := .setCleanup } else none
  | .setCleanup => some (broadcast { s with receiverAvailable := false, main := .unlockCleanup })
  | .unlockCleanup => some { s with mutex := none, main := .join }
  | .join => match s.prod with
    | .done => some { s with main := .done }
    | _ => none
  | .done => none

variable (E : Env)

/-- A step at a null writer would be a fault: there is none. -/
def prodStep (s : State) : Option State :=
  match s.prod with
  | .feed =>
    match s.chunks with
    | [] => some { s with prod := .lockEnd }
    | chunk :: chunks => some { s with prod := .loop chunk, chunks := chunks }
  | .loop data =>
    if data = [] then some { s with prod := .feed }
    else if s.mutex = none then some { s with mutex := some .prod, prod := .test data }
    else none
  | .test data =>
    match s.writer with
    | some _ => some { s with prod := .unlockWait data }
    | none =>
      if s.receiverAvailable then some { s with prod := .waiting data, mutex := none }
      else some { s with prod := .unlockFalse }
  | .waiting _ => none
  | .wakeup data =>
    if s.mutex = none then some { s with mutex := some .prod, prod := .test data } else none
  | .unlockWait data => some { s with mutex := none, prod := .write data }
  | .write data =>
    match s.writer with
    | none => none
    | some w =>
      let writeNow := min data.length w.availableSpace
      match w.write E (data.take writeNow) s.io with
      | .ok (n, w) io =>
        if n = writeNow then
          some { s with writer := some w, io := io, prod := .testFinished (data.drop writeNow) }
        else some { s with writer := some w, io := io, prod := .lockEnd }
      | .error _ _ => none
  | .testFinished data =>
    match s.writer with
    | none => none
    | some w =>
      if w.finished then some { s with prod := .lockFinish data }
      else some { s with prod := .loop data }
  | .lockFinish data =>
    if s.mutex = none then some { s with mutex := some .prod, prod := .clear data } else none
  | .clear data => some (broadcast { s with writer := none, prod := .unlockFinish data })
  | .unlockFinish data => some { s with mutex := none, prod := .loop data }
  | .unlockFalse => some { s with mutex := none, prod := .lockEnd }
  | .lockEnd =>
    if s.mutex = none then some { s with mutex := some .prod, prod := .setEnd } else none
  | .setEnd =>
    if s.writer.isSome then
      some (broadcast { s with receiverAvailable := false, prod := .unlockEnd })
    else some { s with receiverAvailable := false, prod := .unlockEnd }
  | .unlockEnd => some { s with mutex := none, prod := .done }
  | .done => none

def Step (s s' : State) : Prop := mainStep s = some s' ∨ prodStep E s = some s'

inductive Wakeup : State → State → Prop where
  | main {s : State} {tgt : RangeSet} : s.main = .waiting tgt →
      Wakeup s { s with main := .wakeup tgt }
  | prod {s : State} {data : List UInt8} : s.prod = .waiting data →
      Wakeup s { s with prod := .wakeup data }

/-- Both threads at their start: targets `cmds`, and the stream cut into `chunks`. -/
def init (cmds : List RangeSet) (chunks : List (List UInt8)) (io : St) : State where
  main := .returned 0
  prod := .feed
  remaining := cmds
  log := []
  chunks := chunks
  writer := none
  receiverAvailable := true
  mutex := none
  io := io

/-- `s` is reached by some interleaving of the two threads. -/
def Reachable (cmds : List RangeSet) (chunks : List (List UInt8)) (io : St) (s : State) : Prop :=
  ∃ n m, Run (Step E) Wakeup n m (init cmds chunks io) s

/-! ## Control -/

/-- Program points at which the main thread holds the mutex. -/
def MainPc.holds : MainPc → Bool
  | .setWriter _ | .test _ | .unlock _ | .setCleanup | .unlockCleanup => true
  | _ => false

def ProdPc.holds : ProdPc → Bool
  | .test _ | .unlockWait _ | .clear _ | .unlockFinish _ | .unlockFalse | .setEnd
  | .unlockEnd => true
  | _ => false

/-- The target of the loop of `PerformCommandNew` the main thread is in. -/
def MainPc.serving : MainPc → Option RangeSet
  | .test tgt | .waiting tgt | .wakeup tgt => some tgt
  | _ => none

/-- The cleanup has told the receiver to stop. -/
def MainPc.cleaned : MainPc → Bool
  | .unlockCleanup | .join | .done => true
  | _ => false

/-- The background thread has said that it stops. -/
def ProdPc.ended : ProdPc → Bool
  | .unlockEnd | .done => true
  | _ => false

/-- The receiver owns the writer. -/
def ProdPc.owns : ProdPc → Bool
  | .unlockWait _ | .write _ | .testFinished _ | .lockFinish _ | .clear _ => true
  | _ => false

/-- Who holds what. -/
structure Held (s : State) : Prop where
  mutexMain : s.mutex = some .main ↔ s.main.holds = true
  mutexProd : s.mutex = some .prod ↔ s.prod.holds = true
  available : s.receiverAvailable = false ↔ s.prod.ended = true ∨ s.main.cleaned = true
  owns : s.prod.owns = true → s.writer.isSome = true ∧ s.main.serving.isSome = true
  writer : s.writer.isSome = true → s.main.serving.isSome = true ∨ s.prod.ended = true

/-- Who holds what, and who may be waiting for whom. -/
structure Ctrl (s : State) : Prop extends Held s where
  waitMain : ∀ tgt, s.main = .waiting tgt → s.writer.isSome = true ∧ s.receiverAvailable = true
  waitProd : ∀ data, s.prod = .waiting data → s.writer = none ∧ s.receiverAvailable = true

theorem init_ctrl (cmds : List RangeSet) (chunks : List (List UInt8)) (io : St) :
    Ctrl (init cmds chunks io) := by
  refine ⟨⟨?_, ?_, ?_, ?_, ?_⟩, ?_, ?_⟩ <;>
    simp [init, MainPc.holds, ProdPc.holds, MainPc.cleaned, ProdPc.ended, ProdPc.owns]

/-! ### Broadcasts -/

@[simp] theorem broadcast_remaining (s : State) : (broadcast s).remaining = s.remaining := rfl
@[simp] theorem broadcast_log (s : State) : (broadcast s).log = s.log := rfl
@[simp] theorem broadcast_chunks (s : State) : (broadcast s).chunks = s.chunks := rfl
@[simp] theorem broadcast_writer (s : State) : (broadcast s).writer = s.writer := rfl
@[simp] theorem broadcast_available (s : State) :
    (broadcast s).receiverAvailable = s.receiverAvailable := rfl
@[simp] theorem broadcast_mutex (s : State) : (broadcast s).mutex = s.mutex := rfl
@[simp] theorem broadcast_io (s : State) : (broadcast s).io = s.io := rfl

@[simp] theorem broadcast_main_holds (s : State) :
    (broadcast s).main.holds = s.main.holds := by
  unfold broadcast
  cases s.main <;> rfl

@[simp] theorem broadcast_main_serving (s : State) :
    (broadcast s).main.serving = s.main.serving := by
  unfold broadcast
  cases s.main <;> rfl

@[simp] theorem broadcast_main_cleaned (s : State) :
    (broadcast s).main.cleaned = s.main.cleaned := by
  unfold broadcast
  cases s.main <;> rfl

@[simp] theorem broadcast_prod_holds (s : State) :
    (broadcast s).prod.holds = s.prod.holds := by
  unfold broadcast
  cases s.prod <;> rfl

@[simp] theorem broadcast_prod_ended (s : State) :
    (broadcast s).prod.ended = s.prod.ended := by
  unfold broadcast
  cases s.prod <;> rfl

@[simp] theorem broadcast_prod_owns (s : State) :
    (broadcast s).prod.owns = s.prod.owns := by
  unfold broadcast
  cases s.prod <;> rfl

/-- Nobody waits after a broadcast. -/
@[simp] theorem broadcast_main_ne (s : State) (tgt : RangeSet) :
    (broadcast s).main ≠ .waiting tgt := by
  unfold broadcast
  cases s.main <;> simp

@[simp] theorem broadcast_prod_ne (s : State) (data : List UInt8) :
    (broadcast s).prod ≠ .waiting data := by
  unfold broadcast
  cases s.prod <;> simp

/-- A broadcast leaves everything in place, and nobody waiting. -/
theorem Held.broadcast {s : State} (h : Held s) : Ctrl (broadcast s) := by
  obtain ⟨h1, h2, h3, h4, h5⟩ := h
  exact ⟨⟨by simpa using h1, by simpa using h2, by simpa using h3, by simpa using h4,
    by simpa using h5⟩, by simp, by simp⟩

theorem ProdPc.not_owns_of_ended {pc : ProdPc} (h : pc.ended = true) : pc.owns = false := by
  cases pc <;> first | rfl | cases h

/-! ### The steps of the two threads -/

/-- The steps of the main thread, with their guards. -/
inductive MainMove : State → State → Prop where
  | failed {s : State} : s.main = .returned (-1) → MainMove s { s with main := .lockCleanup }
  | last {s : State} {r : Int} : s.main = .returned r → r ≠ -1 → s.remaining = [] →
      MainMove s { s with main := .lockCleanup }
  | next {s : State} {r : Int} {tgt : RangeSet} {rest : List RangeSet} : s.main = .returned r →
      r ≠ -1 → s.remaining = tgt :: rest →
      MainMove s { s with main := .lockNew tgt, remaining := rest }
  | lockNew {s : State} {tgt : RangeSet} : s.main = .lockNew tgt → s.mutex = none →
      MainMove s { s with mutex := some .main, main := .setWriter tgt }
  | setWriter {s : State} {tgt : RangeSet} : s.main = .setWriter tgt →
      MainMove s (broadcast { s with writer := some (RangeSinkWriter.new tgt), main := .test tgt })
  | served {s : State} {tgt : RangeSet} : s.main = .test tgt → s.writer = none →
      MainMove s { s with main := .unlock 0, log := s.log ++ [(tgt, 0)] }
  | wait {s : State} {tgt : RangeSet} {w : RangeSinkWriter} : s.main = .test tgt →
      s.writer = some w → s.receiverAvailable = true →
      MainMove s { s with main := .waiting tgt, mutex := none }
  | missing {s : State} {tgt : RangeSet} {w : RangeSinkWriter} : s.main = .test tgt →
      s.writer = some w → s.receiverAvailable = false →
      MainMove s { s with main := .unlock (-1), log := s.log ++ [(tgt, -1)] }
  | wakeup {s : State} {tgt : RangeSet} : s.main = .wakeup tgt → s.mutex = none →
      MainMove s { s with mutex := some .main, main := .test tgt }
  | unlock {s : State} {r : Int} : s.main = .unlock r →
      MainMove s { s with mutex := none, main := .returned r }
  | lockCleanup {s : State} : s.main = .lockCleanup → s.mutex = none →
      MainMove s { s with mutex := some .main, main := .setCleanup }
  | setCleanup {s : State} : s.main = .setCleanup →
      MainMove s (broadcast { s with receiverAvailable := false, main := .unlockCleanup })
  | unlockCleanup {s : State} : s.main = .unlockCleanup →
      MainMove s { s with mutex := none, main := .join }
  | join {s : State} : s.main = .join → s.prod = .done → MainMove s { s with main := .done }

theorem mainStep_move {s s' : State} (h : mainStep s = some s') : MainMove s s' := by
  unfold mainStep at h
  split at h
  case h_1 r hm =>
    split at h
    · rename_i hr
      subst hr
      cases h
      exact .failed hm
    · rename_i hr
      split at h
      · cases h
        exact .last hm hr ‹_›
      · cases h
        exact .next hm hr ‹_›
  case h_2 hm =>
    split at h
    · cases h
      exact .lockNew hm ‹_›
    · cases h
  case h_3 hm =>
    cases h
    exact .setWriter hm
  case h_4 hm =>
    split at h
    · cases h
      exact .served hm ‹_›
    · split at h
      · cases h
        exact .wait hm ‹_› ‹_›
      · cases h
        exact .missing hm ‹_› (Bool.eq_false_iff.2 ‹_›)
  case h_5 => cases h
  case h_6 hm =>
    split at h
    · cases h
      exact .wakeup hm ‹_›
    · cases h
  case h_7 hm =>
    cases h
    exact .unlock hm
  case h_8 hm =>
    split at h
    · cases h
      exact .lockCleanup hm ‹_›
    · cases h
  case h_9 hm =>
    cases h
    exact .setCleanup hm
  case h_10 hm =>
    cases h
    exact .unlockCleanup hm
  case h_11 hm =>
    split at h
    · cases h
      exact .join hm ‹_›
    · cases h
  case h_12 => cases h

/-- The steps of the background thread, with their guards. -/
inductive ProdMove (E : Env) : State → State → Prop where
  | finish {s : State} : s.prod = .feed → s.chunks = [] → ProdMove E s { s with prod := .lockEnd }
  | feed {s : State} {chunk : List UInt8} {chunks : List (List UInt8)} : s.prod = .feed →
      s.chunks = chunk :: chunks → ProdMove E s { s with prod := .loop chunk, chunks := chunks }
  | taken {s : State} : s.prod = .loop [] → ProdMove E s { s with prod := .feed }
  | lock {s : State} {data : List UInt8} : s.prod = .loop data → data ≠ [] → s.mutex = none →
      ProdMove E s { s with mutex := some .prod, prod := .test data }
  | own {s : State} {data : List UInt8} {w : RangeSinkWriter} : s.prod = .test data →
      s.writer = some w → ProdMove E s { s with prod := .unlockWait data }
  | wait {s : State} {data : List UInt8} : s.prod = .test data → s.writer = none →
      s.receiverAvailable = true → ProdMove E s { s with prod := .waiting data, mutex := none }
  | stop {s : State} {data : List UInt8} : s.prod = .test data → s.writer = none →
      s.receiverAvailable = false → ProdMove E s { s with prod := .unlockFalse }
  | wakeup {s : State} {data : List UInt8} : s.prod = .wakeup data → s.mutex = none →
      ProdMove E s { s with mutex := some .prod, prod := .test data }
  | unlockWait {s : State} {data : List UInt8} : s.prod = .unlockWait data →
      ProdMove E s { s with mutex := none, prod := .write data }
  | wrote {s : State} {data : List UInt8} {w w' : RangeSinkWriter} {io : St} :
      s.prod = .write data → s.writer = some w →
      w.write E (data.take (min data.length w.availableSpace)) s.io =
        .ok (min data.length w.availableSpace, w') io →
      ProdMove E s { s with
        writer := some w', io := io
        prod := .testFinished (data.drop (min data.length w.availableSpace)) }
  | short {s : State} {data : List UInt8} {w w' : RangeSinkWriter} {n : Nat} {io : St} :
      s.prod = .write data → s.writer = some w →
      w.write E (data.take (min data.length w.availableSpace)) s.io = .ok (n, w') io →
      n ≠ min data.length w.availableSpace →
      ProdMove E s { s with writer := some w', io := io, prod := .lockEnd }
  | more {s : State} {data : List UInt8} {w : RangeSinkWriter} : s.prod = .testFinished data →
      s.writer = some w → w.finished = false → ProdMove E s { s with prod := .loop data }
  | finished {s : State} {data : List UInt8} {w : RangeSinkWriter} :
      s.prod = .testFinished data → s.writer = some w → w.finished = true →
      ProdMove E s { s with prod := .lockFinish data }
  | lockFinish {s : State} {data : List UInt8} : s.prod = .lockFinish data → s.mutex = none →
      ProdMove E s { s with mutex := some .prod, prod := .clear data }
  | clear {s : State} {data : List UInt8} : s.prod = .clear data →
      ProdMove E s (broadcast { s with writer := none, prod := .unlockFinish data })
  | unlockFinish {s : State} {data : List UInt8} : s.prod = .unlockFinish data →
      ProdMove E s { s with mutex := none, prod := .loop data }
  | unlockFalse {s : State} : s.prod = .unlockFalse →
      ProdMove E s { s with mutex := none, prod := .lockEnd }
  | lockEnd {s : State} : s.prod = .lockEnd → s.mutex = none →
      ProdMove E s { s with mutex := some .prod, prod := .setEnd }
  | setEndWake {s : State} {w : RangeSinkWriter} : s.prod = .setEnd → s.writer = some w →
      ProdMove E s (broadcast { s with receiverAvailable := false, prod := .unlockEnd })
  | setEnd {s : State} : s.prod = .setEnd → s.writer = none →
      ProdMove E s { s with receiverAvailable := false, prod := .unlockEnd }
  | unlockEnd {s : State} : s.prod = .unlockEnd →
      ProdMove E s { s with mutex := none, prod := .done }

theorem prodStep_move {s s' : State} (h : prodStep E s = some s') : ProdMove E s s' := by
  unfold prodStep at h
  split at h
  case h_1 hp =>
    split at h
    · cases h
      exact .finish hp ‹_›
    · cases h
      exact .feed hp ‹_›
  case h_2 hp =>
    split at h
    · rename_i hd
      subst hd
      cases h
      exact .taken hp
    · split at h
      · cases h
        exact .lock hp ‹_› ‹_›
      · cases h
  case h_3 hp =>
    split at h
    · cases h
      exact .own hp ‹_›
    · split at h
      · cases h
        exact .wait hp ‹_› ‹_›
      · cases h
        exact .stop hp ‹_› (Bool.eq_false_iff.2 ‹_›)
  case h_4 => cases h
  case h_5 hp =>
    split at h
    · cases h
      exact .wakeup hp ‹_›
    · cases h
  case h_6 hp =>
    cases h
    exact .unlockWait hp
  case h_7 hp =>
    split at h
    · cases h
    · rename_i hw
      dsimp only at h
      split at h
      · rename_i hwrite
        split at h
        · rename_i hn
          subst hn
          cases h
          exact .wrote hp hw hwrite
        · cases h
          exact .short hp hw hwrite ‹_›
      · cases h
  case h_8 hp =>
    split at h
    · cases h
    · split at h
      · cases h
        exact .finished hp ‹_› ‹_›
      · cases h
        exact .more hp ‹_› (Bool.eq_false_iff.2 ‹_›)
  case h_9 hp =>
    split at h
    · cases h
      exact .lockFinish hp ‹_›
    · cases h
  case h_10 hp =>
    cases h
    exact .clear hp
  case h_11 hp =>
    cases h
    exact .unlockFinish hp
  case h_12 hp =>
    cases h
    exact .unlockFalse hp
  case h_13 hp =>
    split at h
    · cases h
      exact .lockEnd hp ‹_›
    · cases h
  case h_14 hp =>
    split at h
    · rename_i hw
      obtain ⟨w, hw⟩ := Option.isSome_iff_exists.1 hw
      cases h
      exact .setEndWake hp hw
    · rename_i hw
      cases h
      exact .setEnd hp (Option.not_isSome_iff_eq_none.1 hw)
  case h_15 hp =>
    cases h
    exact .unlockEnd hp
  case h_16 => cases h

theorem mainMove_ctrl {s s' : State} (h : MainMove s s') (hc : Ctrl s) : Ctrl s' := by
  have hended := @ProdPc.not_owns_of_ended s.prod
  obtain ⟨⟨h1, h2, h3, h4, h5⟩, h6, h7⟩ := hc
  cases h
  case setWriter | setCleanup =>
    refine Held.broadcast ⟨?_, ?_, ?_, ?_, ?_⟩ <;>
      simp_all [MainPc.holds, MainPc.serving, MainPc.cleaned]
  all_goals
    refine ⟨⟨?_, ?_, ?_, ?_, ?_⟩, ?_, ?_⟩ <;>
      simp_all [MainPc.holds, MainPc.serving, MainPc.cleaned]

theorem prodMove_ctrl {s s' : State} (h : ProdMove E s s') (hc : Ctrl s) : Ctrl s' := by
  obtain ⟨⟨h1, h2, h3, h4, h5⟩, h6, h7⟩ := hc
  cases h
  case clear | setEndWake =>
    refine Held.broadcast ⟨?_, ?_, ?_, ?_, ?_⟩ <;>
      simp_all [ProdPc.holds, ProdPc.ended, ProdPc.owns]
  all_goals
    refine ⟨⟨?_, ?_, ?_, ?_, ?_⟩, ?_, ?_⟩ <;>
      simp_all [ProdPc.holds, ProdPc.ended, ProdPc.owns]

theorem wakeup_ctrl {s s' : State} (h : Wakeup s s') (hc : Ctrl s) : Ctrl s' := by
  obtain ⟨⟨h1, h2, h3, h4, h5⟩, h6, h7⟩ := hc
  cases h <;>
    refine ⟨⟨?_, ?_, ?_, ?_, ?_⟩, ?_, ?_⟩ <;>
      simp_all [MainPc.holds, MainPc.serving, MainPc.cleaned, ProdPc.holds, ProdPc.ended,
        ProdPc.owns]

end Recovery.BlockImg.NewData
