import Recovery.BlockImg.NewData

/-!
# What the `new` commands receive

The stream is cut into chunks that know nothing of the commands.  The data invariant says, at every
program point of the two threads, how many bytes of the stream have been given out, to whom, and
where the rest is.

## The device

* `bytes`, `need` — the bytes a target takes, and those a list of targets takes.
* `deliver d D tgts` — the device after the targets have taken their bytes of `D`, in order.
* `Sized` — a target that `Parse` can return, with a size that does not wrap.

## The invariant

* `Supply D g s` — with `g` bytes given out, the rest of the stream is with the background thread.
* `Idle`, `Serving`, `Served`, `Failed` — no `new` is in progress; one is being served; one has been
  served and the main thread has not seen it yet; one has failed.
* `Open tgt w s` — while one is served, what the writer has taken stands on the device.
* `Data D dev s` — one of the four.
* `mainMove_data`, `prodMove_data`, `wakeup_data` — every step keeps it.
-/

set_option autoImplicit false

namespace Recovery.BlockImg.NewData

open Recovery.Lib Recovery.OtaUtil Recovery.BlockImg

/-- The bytes a target takes. -/
def bytes (tgt : RangeSet) : Nat := tgt.blocks * BLOCKSIZE

def need (tgts : List RangeSet) : Nat := (tgts.map bytes).sum

/-- The device after `tgts` have taken their bytes of the stream, in order. -/
def deliver (d : Nat → UInt8) : List UInt8 → List RangeSet → Nat → UInt8
  | _, [] => d
  | D, tgt :: tgts =>
    deliver (fill d (byteAddrs tgt.ranges) (D.take (bytes tgt))) (D.drop (bytes tgt)) tgts

@[simp] theorem need_append (a b : List RangeSet) : need (a ++ b) = need a + need b := by
  simp [need]

@[simp] theorem need_singleton (tgt : RangeSet) : need [tgt] = bytes tgt := by
  simp [need]

theorem deliver_concat : ∀ (d : Nat → UInt8) (D : List UInt8) (tgts : List RangeSet)
    (tgt : RangeSet), deliver d D (tgts ++ [tgt]) =
      fill (deliver d D tgts) (byteAddrs tgt.ranges) ((D.drop (need tgts)).take (bytes tgt))
  | d, D, [], tgt => by simp [deliver, need]
  | d, D, t :: tgts, tgt => by
    rw [List.cons_append, deliver, deliver, deliver_concat, List.drop_drop]
    simp [need]

/-- A target that `Parse` can return, with a size that does not wrap. -/
structure Sized (tgt : RangeSet) : Prop where
  valid : tgt.isValid = true
  numbers : ∀ r ∈ tgt.ranges, r.2 ≤ INT_MAX
  fit : bytes tgt < 2 ^ 64

theorem Sized.pos {tgt : RangeSet} (h : Sized tgt) : 0 < bytes tgt :=
  Nat.mul_pos (RangeSet.blocks_pos (RangeSet.isValid_iff.1 h.valid)) (by decide)

theorem remainder_eq (w : RangeSinkWriter) : w.remainder = bytes w.tgt - w.bytesWritten := rfl

/-! ## What the phases of the protocol look at -/

/-- The value `PerformCommandNew` is about to return, or has returned last. -/
def MainPc.value : MainPc → Option Int
  | .returned r | .unlock r => some r
  | _ => none

/-- A `new` has begun and its writer is not set yet. -/
def MainPc.starting : MainPc → Bool
  | .lockNew _ | .setWriter _ => true
  | _ => false

/-- The data the receiver holds; none once the background thread takes no more. -/
def ProdPc.data : ProdPc → Option (List UInt8)
  | .feed => some []
  | .loop d | .test d | .waiting d | .wakeup d | .unlockWait d | .write d | .testFinished d
  | .lockFinish d | .clear d | .unlockFinish d => some d
  | .unlockFalse | .lockEnd | .setEnd | .unlockEnd | .done => none

/-- A write has been done and the receiver has not looked at its outcome. -/
def ProdPc.wrote : ProdPc → Bool
  | .testFinished _ | .lockFinish _ | .clear _ => true
  | _ => false

/-- The receiver has seen that the writer is finished. -/
def ProdPc.full : ProdPc → Bool
  | .lockFinish _ | .clear _ => true
  | _ => false

@[simp] theorem broadcast_main_value (s : State) :
    (broadcast s).main.value = s.main.value := by
  unfold broadcast
  cases s.main <;> rfl

@[simp] theorem broadcast_main_starting (s : State) :
    (broadcast s).main.starting = s.main.starting := by
  unfold broadcast
  cases s.main <;> rfl

@[simp] theorem broadcast_prod_data (s : State) :
    (broadcast s).prod.data = s.prod.data := by
  unfold broadcast
  cases s.prod <;> rfl

@[simp] theorem broadcast_prod_wrote (s : State) :
    (broadcast s).prod.wrote = s.prod.wrote := by
  unfold broadcast
  cases s.prod <;> rfl

@[simp] theorem broadcast_prod_full (s : State) :
    (broadcast s).prod.full = s.prod.full := by
  unfold broadcast
  cases s.prod <;> rfl

/-! ## The data invariant -/

/-- The targets of the finished commands. -/
def State.finished (s : State) : List RangeSet := s.log.map Prod.fst

/-- With `g` bytes given out, the rest of the stream is with the background thread; when that
takes no more, the stream is used up or a device operation has failed. -/
def Supply (D : List UInt8) (g : Nat) (s : State) : Prop :=
  match s.prod.data with
  | some d => d ++ s.chunks.flatten = D.drop g
  | none => D.length ≤ g ∨ s.io.devError = true

variable (D : List UInt8) (dev : Nat → UInt8)

/-- No `new` is in progress. -/
structure Idle (s : State) : Prop where
  serving : s.main.serving = none
  value : ∀ r, s.main.value = some r → r = 0
  writer : s.writer = none
  zeros : ∀ e ∈ s.log, e.2 = 0
  noErr : s.io.devError = false
  noCrash : ¬ Doomed s.io
  enough : need s.finished ≤ D.length
  dev : s.io.disk.dev = deliver dev D s.finished
  supply : s.main.cleaned = false → Supply D (need s.finished) s

/-- The receiver writes to `tgt`, and nothing has gone wrong yet. -/
structure Open (tgt : RangeSet) (w : RangeSinkWriter) (s : State) : Prop where
  target : w.tgt = tgt
  fit : bytes tgt < 2 ^ 64
  noErr : s.io.devError = false
  cursor : w.At s.io
  within : w.bytesWritten ≤ bytes tgt
  enough : need s.finished + w.bytesWritten ≤ D.length
  agree : Agree w.rest (fill (deliver dev D s.finished) (byteAddrs tgt.ranges)
    ((D.drop (need s.finished)).take w.bytesWritten)) s.io.disk.dev
  supply : Supply D (need s.finished + w.bytesWritten) s
  room : s.prod.wrote = false → 0 < w.remainder
  full : s.prod.full = true → w.remainder = 0

/-- The main thread waits for `tgt` to be written. -/
structure Serving (tgt : RangeSet) (w : RangeSinkWriter) (s : State) : Prop where
  serving : s.main.serving = some tgt
  writer : s.writer = some w
  zeros : ∀ e ∈ s.log, e.2 = 0
  noCrash : ¬ Doomed s.io
  outcome : Open D dev tgt w s ∨ (s.prod.data = none ∧ s.io.devError = true)

/-- `tgt` has been written, and the main thread has not seen it yet. -/
structure Served (tgt : RangeSet) (s : State) : Prop where
  serving : s.main.serving = some tgt
  writer : s.writer = none
  zeros : ∀ e ∈ s.log, e.2 = 0
  noErr : s.io.devError = false
  noCrash : ¬ Doomed s.io
  enough : need (s.finished ++ [tgt]) ≤ D.length
  dev : s.io.disk.dev = deliver dev D (s.finished ++ [tgt])
  supply : Supply D (need (s.finished ++ [tgt])) s

/-- The last `new` has failed. -/
structure Failed (s : State) : Prop where
  serving : s.main.serving = none
  starting : s.main.starting = false
  value : ∀ r, s.main.value = some r → r = -1
  ended : s.prod.ended = true
  log : ∃ log tgt, s.log = log ++ [(tgt, -1)] ∧ ∀ e ∈ log, e.2 = 0
  cause : D.length < need s.finished ∨ s.io.devError = true

inductive Data (s : State) : Prop where
  | idle (h : Idle D dev s)
  | serving {tgt : RangeSet} {w : RangeSinkWriter} (h : Serving D dev tgt w s)
  | served {tgt : RangeSet} (h : Served D dev tgt s)
  | failed (h : Failed D s)

variable {D dev}

/-- While nothing has gone wrong the receiver sees how many bytes are missing. -/
theorem Open.available {tgt : RangeSet} {w : RangeSinkWriter} {s : State}
    (h : Open D dev tgt w s) : w.availableSpace = w.remainder := by
  have hfit := h.fit
  have hwithin := h.within
  rw [← h.target] at hfit hwithin
  exact RangeSinkWriter.availableSpace_eq hfit hwithin

theorem init_data (cmds : List RangeSet) {chunks : List (List UInt8)} {io : St}
    (hcrash : ¬ Doomed io) (herr : io.devError = false) :
    Data chunks.flatten io.disk.dev (init cmds chunks io) :=
  .idle {
    serving := rfl
    value := fun _ h => (Option.some.inj h).symm
    writer := rfl
    zeros := fun _ he => nomatch he
    noErr := herr
    noCrash := hcrash
    enough := Nat.zero_le _
    dev := rfl
    supply := fun _ => rfl }

/-- The invariant looks at the threads through a few questions only. -/
theorem Data.congr {s s' : State} (h : Data D dev s)
    (hserving : s'.main.serving = s.main.serving) (hvalue : s'.main.value = s.main.value)
    (hstarting : s'.main.starting = s.main.starting) (hcleaned : s'.main.cleaned = s.main.cleaned)
    (hsupply : ∀ g, Supply D g s → Supply D g s') (hdry : s.prod.data = none → s'.prod.data = none)
    (hwrote : s'.prod.wrote = s.prod.wrote)
    (hfull : s'.prod.full = s.prod.full) (hended : s.prod.ended = true → s'.prod.ended = true)
    (hlog : s'.log = s.log) (hwriter : s'.writer = s.writer) (hio : s'.io = s.io) :
    Data D dev s' := by
  have hfin : s'.finished = s.finished := by rw [State.finished, State.finished, hlog]
  cases h with
  | idle h =>
    obtain ⟨h1, h2, h3, h4, h5, h6, h7, h8, h9⟩ := h
    exact .idle ⟨by rw [hserving, h1], by rwa [hvalue], by rw [hwriter, h3], by rwa [hlog],
      by rwa [hio], by rwa [hio], by rwa [hfin], by rwa [hio, hfin],
      fun hc => by rw [hfin]; exact hsupply _ (h9 (hcleaned ▸ hc))⟩
  | serving h =>
    obtain ⟨h1, h2, h3, h4, h5⟩ := h
    refine .serving ⟨by rw [hserving, h1], by rw [hwriter, h2], by rwa [hlog], by rwa [hio], ?_⟩
    rcases h5 with ⟨k1, k0, k2, k3, k4, k5, k6, k7, k8, k9⟩ | h5
    · exact Or.inl ⟨k1, k0, by rwa [hio], by rwa [hio], k4, by rwa [hfin], by rwa [hfin, hio],
        by rw [hfin]; exact hsupply _ k7, by rwa [hwrote], by rwa [hfull]⟩
    · exact Or.inr ⟨hdry h5.1, by rw [hio]; exact h5.2⟩
  | served h =>
    obtain ⟨h1, h2, h3, h4, h5, h6, h7, h8⟩ := h
    exact .served ⟨by rw [hserving, h1], by rw [hwriter, h2], by rwa [hlog], by rwa [hio],
      by rwa [hio], by rwa [hfin], by rwa [hio, hfin], by rw [hfin]; exact hsupply _ h8⟩
  | failed h =>
    obtain ⟨h1, h2, h3, h4, h5, h6⟩ := h
    exact .failed ⟨by rw [hserving, h1], by rw [hstarting, h2], by rwa [hvalue], hended h4,
      by rwa [hlog], by rwa [hfin, hio]⟩

theorem Supply.congr {s s' : State} {g : Nat} (h : Supply D g s)
    (hdata : s'.prod.data = s.prod.data) (hchunks : s'.chunks = s.chunks) (hio : s'.io = s.io) :
    Supply D g s' := by
  rwa [Supply, hdata, hchunks, hio]

/-- A step of the main thread between program points the invariant does not tell apart. -/
theorem Data.main {s s' : State} {m : MainPc} (h : Data D dev s) (hm : s.main = m)
    (hserving : s'.main.serving = m.serving) (hvalue : s'.main.value = m.value)
    (hstarting : s'.main.starting = m.starting) (hcleaned : s'.main.cleaned = m.cleaned)
    (hprod : s'.prod = s.prod) (hlog : s'.log = s.log) (hchunks : s'.chunks = s.chunks)
    (hwriter : s'.writer = s.writer) (hio : s'.io = s.io) : Data D dev s' := by
  subst hm
  exact h.congr hserving hvalue hstarting hcleaned
    (fun _ hs => hs.congr (by rw [hprod]) hchunks hio) (by rw [hprod]; exact id) (by rw [hprod])
    (by rw [hprod]) (by rw [hprod]; exact id) hlog hwriter hio

/-- The same for the background thread. -/
theorem Data.prod {s s' : State} {p : ProdPc} (h : Data D dev s) (hp : s.prod = p)
    (hmain : s'.main = s.main) (hdata : s'.prod.data = p.data) (hwrote : s'.prod.wrote = p.wrote)
    (hfull : s'.prod.full = p.full) (hended : p.ended = true → s'.prod.ended = true)
    (hlog : s'.log = s.log) (hchunks : s'.chunks = s.chunks) (hwriter : s'.writer = s.writer)
    (hio : s'.io = s.io) : Data D dev s' := by
  subst hp
  exact h.congr (by rw [hmain]) (by rw [hmain]) (by rw [hmain]) (by rw [hmain])
    (fun _ hs => hs.congr hdata hchunks hio) (by rw [hdata]; exact id) hwrote hfull hended hlog
    hwriter hio

theorem Data.broadcast {s : State} (h : Data D dev s) : Data D dev (broadcast s) :=
  h.congr (by simp) (by simp) (by simp) (by simp) (fun _ hs => hs.congr (by simp) rfl rfl)
    (by simp) (by simp) (by simp) (by simp) rfl rfl rfl

theorem wakeup_data {s s' : State} (h : Wakeup s s') (hd : Data D dev s) : Data D dev s' := by
  cases h with
  | main hm =>
    exact hd.main hm rfl rfl rfl rfl rfl rfl rfl rfl rfl
  | prod hp =>
    exact hd.prod hp rfl rfl rfl rfl id rfl rfl rfl rfl

theorem Data.of_serving {s : State} {tgt : RangeSet} (h : Data D dev s)
    (hm : s.main.serving = some tgt) : (∃ w, Serving D dev tgt w s) ∨ Served D dev tgt s := by
  cases h with
  | idle h =>
    rw [h.serving] at hm
    cases hm
  | serving h =>
    have he := h.serving
    rw [hm] at he
    cases he
    exact Or.inl ⟨_, h⟩
  | served h =>
    have he := h.serving
    rw [hm] at he
    cases he
    exact Or.inr h
  | failed h =>
    rw [h.serving] at hm
    cases hm

theorem Data.of_not_serving {s : State} (h : Data D dev s) (hm : s.main.serving = none) :
    Idle D dev s ∨ Failed D s := by
  cases h with
  | idle h => exact Or.inl h
  | serving h =>
    rw [h.serving] at hm
    cases hm
  | served h =>
    rw [h.serving] at hm
    cases hm
  | failed h => exact Or.inr h

theorem State.finished_concat {s s' : State} {tgt : RangeSet} {r : Int}
    (h : s'.log = s.log ++ [(tgt, r)]) : s'.finished = s.finished ++ [tgt] := by
  rw [finished, finished, h, List.map_append, List.map_cons, List.map_nil]

/-- A writer for the next target. -/
theorem Data.setWriter {s : State} {tgt : RangeSet} (hd : Data D dev s) (hc : Ctrl s)
    (hm : s.main = .setWriter tgt) (hsized : Sized tgt) :
    Data D dev (BlockImg.NewData.broadcast
      { s with writer := some (RangeSinkWriter.new tgt), main := .test tgt }) := by
  rcases hd.of_not_serving (by rw [hm]; rfl) with h | h
  · have hsup := h.supply (by rw [hm]; rfl)
    have hfull : s.prod.full ≠ true := by
      intro hf
      have howns : s.prod.owns = true := by
        revert hf
        cases s.prod <;> simp [ProdPc.full, ProdPc.owns]
      have hw := (hc.owns howns).1
      rw [h.writer] at hw
      cases hw
    refine Data.broadcast (.serving ⟨rfl, rfl, h.zeros, h.noCrash, Or.inl {
      target := rfl
      fit := hsized.fit
      noErr := h.noErr
      cursor := RangeSinkWriter.new_at (small_of_le hsized.numbers) _
      within := Nat.zero_le _
      enough := h.enough
      agree := ?_
      supply := hsup
      room := fun _ => hsized.pos
      full := fun hf => absurd hf hfull }⟩)
    rw [show s.io.disk.dev = deliver dev D s.finished from h.dev]
    show Agree _ (fill (deliver dev D s.finished) _ (List.take 0 _)) _
    rw [List.take_zero, fill_nil_right]
    exact Agree.refl _ _
  · exact absurd h.starting (by rw [hm]; simp [MainPc.starting])

/-- No receiver is left that could fill the target. -/
theorem Data.missing {s : State} {tgt : RangeSet} {w : RangeSinkWriter} (hd : Data D dev s)
    (hc : Ctrl s) (hm : s.main = .test tgt) (hw : s.writer = some w)
    (ha : s.receiverAvailable = false) :
    Data D dev { s with main := .unlock (-1), log := s.log ++ [(tgt, -1)] } := by
  rcases hd.of_serving (by rw [hm]; rfl) with ⟨w, h⟩ | h
  · have hended : s.prod.ended = true := by
      rcases hc.available.1 ha with h | h
      · exact h
      · rw [hm] at h
        cases h
    refine .failed ⟨rfl, rfl, fun r hr => (Option.some.inj hr).symm, hended,
      ⟨s.log, _, rfl, h.zeros⟩, ?_⟩
    rw [State.finished_concat rfl, need_append, need_singleton]
    rcases h.outcome with ho | ho
    · have hsup := ho.supply
      have hroom := ho.room
      have hdata : s.prod.data = none ∧ s.prod.wrote = false := by
        revert hended
        cases s.prod <;> simp [ProdPc.ended, ProdPc.data, ProdPc.wrote]
      rw [remainder_eq, ho.target] at hroom
      rw [Supply, hdata.1] at hsup
      rcases hsup with hsup | hsup
      · exact Or.inl (by have := hroom hdata.2; omega)
      · exact Or.inr hsup
    · exact Or.inr ho.2
  · rw [h.writer] at hw
    cases hw

/-- A step of the main thread. -/
theorem mainMove_data {s s' : State} (h : MainMove s s') (hc : Ctrl s)
    (hsized : ∀ tgt, s.main = .setWriter tgt → Sized tgt) (hd : Data D dev s) :
    Data D dev s' := by
  cases h with
  | failed hm =>
    rcases hd.of_not_serving (by rw [hm]; rfl) with h | h
    · exact absurd (h.value (-1) (by rw [hm]; rfl)) (by decide)
    · exact .failed ⟨rfl, rfl, nofun, h.ended, h.log, h.cause⟩
  | last hm hr hrem =>
    rcases hd.of_not_serving (by rw [hm]; rfl) with h | h
    · exact .idle ⟨rfl, nofun, h.writer, h.zeros, h.noErr, h.noCrash, h.enough, h.dev,
        fun _ => h.supply (by rw [hm]; rfl)⟩
    · exact absurd (h.value _ (by rw [hm]; rfl)) hr
  | next hm hr hrem =>
    rcases hd.of_not_serving (by rw [hm]; rfl) with h | h
    · exact .idle ⟨rfl, nofun, h.writer, h.zeros, h.noErr, h.noCrash, h.enough, h.dev,
        fun _ => h.supply (by rw [hm]; rfl)⟩
    · exact absurd (h.value _ (by rw [hm]; rfl)) hr
  | lockNew hm =>
    rcases hd.of_not_serving (by rw [hm]; rfl) with h | h
    · exact .idle ⟨rfl, nofun, h.writer, h.zeros, h.noErr, h.noCrash, h.enough, h.dev,
        fun _ => h.supply (by rw [hm]; rfl)⟩
    · exact absurd h.starting (by rw [hm]; simp [MainPc.starting])
  | setWriter hm => exact hd.setWriter hc hm (hsized _ hm)
  | served hm hw =>
    rcases hd.of_serving (by rw [hm]; rfl) with ⟨w, h⟩ | h
    · rw [h.writer] at hw
      cases hw
    · refine .idle ⟨rfl, fun r hr => (Option.some.inj hr).symm, h.writer, ?_, h.noErr, h.noCrash,
        ?_, ?_, fun _ => ?_⟩
      · intro e he
        rcases List.mem_append.1 he with he | he
        · exact h.zeros e he
        · rw [List.mem_singleton.1 he]
      all_goals rw [State.finished_concat rfl]
      · exact h.enough
      · exact h.dev
      · exact h.supply
  | wait hm hw ha =>
    exact hd.main hm rfl rfl rfl rfl rfl rfl rfl rfl rfl
  | missing hm hw ha => exact hd.missing hc hm hw ha
  | wakeup hm =>
    exact hd.main hm rfl rfl rfl rfl rfl rfl rfl rfl rfl
  | unlock hm =>
    exact hd.main hm rfl rfl rfl rfl rfl rfl rfl rfl rfl
  | lockCleanup hm =>
    exact hd.main hm rfl rfl rfl rfl rfl rfl rfl rfl rfl
  | setCleanup hm =>
    rcases hd.of_not_serving (by rw [hm]; rfl) with h | h
    · exact Data.broadcast (.idle ⟨rfl, nofun, h.writer, h.zeros, h.noErr, h.noCrash, h.enough,
        h.dev, nofun⟩)
    · exact Data.broadcast (.failed ⟨rfl, rfl, nofun, h.ended, h.log, h.cause⟩)
  | unlockCleanup hm =>
    exact hd.main hm rfl rfl rfl rfl rfl rfl rfl rfl rfl
  | join hm =>
    exact hd.main hm rfl rfl rfl rfl rfl rfl rfl rfl rfl

/-- The device after a write that has gone on from `bytesWritten`. -/
theorem agree_write {d d' : Nat → UInt8} (d0 : Nat → UInt8) {w : RangeSinkWriter}
    {X : List UInt8} (data : List UInt8)
    (hag : Agree w.rest (fill d0 (byteAddrs w.tgt.ranges) (X.take w.bytesWritten)) d)
    (hX : w.bytesWritten ≤ X.length) (hdata : data = (X.drop w.bytesWritten).take data.length)
    (hw : Agree (w.rest.drop data.length) (fill d w.rest data) d') :
    Agree (w.rest.drop data.length)
      (fill d0 (byteAddrs w.tgt.ranges) (X.take (w.bytesWritten + data.length))) d' := by
  have hjoin : fill d0 (byteAddrs w.tgt.ranges) (X.take (w.bytesWritten + data.length)) =
      fill (fill d0 (byteAddrs w.tgt.ranges) (X.take w.bytesWritten)) w.rest data := by
    rw [List.take_add, ← hdata, fill_append_right, List.length_take, Nat.min_eq_left hX]
    rfl
  rw [hjoin]
  refine Agree.trans ?_ hw
  rw [← fill_take_left _ w.rest, ← fill_take_left d w.rest]
  refine Agree.fill ?_ (by rw [List.length_take]; lia)
  rwa [List.take_append_drop]

/-- While the receiver holds data, a writer that is set has done nothing wrong yet. -/
theorem Data.of_writer {s : State} {w : RangeSinkWriter} {d : List UInt8} (h : Data D dev s)
    (hw : s.writer = some w) (hd : s.prod.data = some d) :
    ∃ tgt, Serving D dev tgt w s ∧ Open D dev tgt w s := by
  cases h with
  | idle h =>
    rw [h.writer] at hw
    cases hw
  | serving h =>
    have he := h.writer
    rw [hw] at he
    cases he
    refine ⟨_, h, h.outcome.resolve_right fun ho => ?_⟩
    rw [hd] at ho
    cases ho.1
  | served h =>
    rw [h.writer] at hw
    cases hw
  | failed h =>
    have hn : s.prod.data = none := by
      have he := h.ended
      revert he
      cases s.prod <;> simp [ProdPc.ended, ProdPc.data]
    rw [hd] at hn
    cases hn

/-- A write of all that the writer takes. -/
theorem Data.wrote {E : Env} {s : State} {data : List UInt8} {w w' : RangeSinkWriter} {io : St}
    (hd : Data D dev s) (hp : s.prod = .write data) (hw : s.writer = some w)
    (hwrite : w.write E (data.take (min data.length w.availableSpace)) s.io =
      .ok (min data.length w.availableSpace, w') io) :
    Data D dev { s with
      writer := some w', io := io
      prod := .testFinished (data.drop (min data.length w.availableSpace)) } := by
  obtain ⟨tgt, h, ho⟩ := hd.of_writer hw (by rw [hp]; rfl)
  rw [ho.available] at *
  obtain ⟨k, hk⟩ : ∃ k, k = min data.length w.remainder := ⟨_, rfl⟩
  rw [← hk] at hwrite ⊢
  have hlen : (data.take k).length = k := by rw [List.length_take]; omega
  obtain ⟨htgt, hout⟩ := (RangeSinkWriter.write_spec E (data.take k) ho.cursor
    (ho.room (by rw [hp]; rfl)) (by omega)).of_ok hwrite
  rw [hlen] at hout
  rcases hout with ⟨-, hact, hbytes, hcur, hag⟩ | ⟨hn, -⟩
  swap
  · exact absurd hn (Nat.lt_irrefl k)
  dsimp only at htgt hbytes hcur hag
  have hcrash : ¬ Doomed io := fun hd => h.noCrash (hd.of_suffix hact.only.suffix)
  have hsup : data ++ s.chunks.flatten = D.drop (need s.finished + w.bytesWritten) := by
    have hs := ho.supply
    rwa [Supply, hp] at hs
  have hroom := ho.enough
  have hkD : k ≤ D.length - (need s.finished + w.bytesWritten) := by
    rw [← List.length_drop, ← hsup, List.length_append]
    omega
  refine .serving ⟨h.serving, rfl, h.zeros, hcrash, Or.inl {
    target := htgt.trans ho.target
    fit := ho.fit
    noErr := (hact.ok rfl).trans ho.noErr
    cursor := hcur
    within := ?_
    enough := ?_
    agree := ?_
    supply := ?_
    room := nofun
    full := nofun }⟩
  · have hspace := remainder_eq w
    have hwithin := ho.within
    rw [ho.target] at hspace
    omega
  · show need s.finished + w'.bytesWritten ≤ D.length
    omega
  · have hrest : w'.rest = w.rest.drop k := by
      rw [RangeSinkWriter.rest, RangeSinkWriter.rest, htgt, hbytes, List.drop_drop]
    have hX : data.take k = ((D.drop (need s.finished)).drop w.bytesWritten).take k := by
      rw [List.drop_drop, ← hsup, List.take_append_of_le_length (by omega)]
    have hag' := agree_write (deliver dev D s.finished) (X := D.drop (need s.finished))
      (data.take k) (by rw [ho.target]; exact ho.agree)
      (by rw [List.length_drop]; omega) (by rw [hlen]; exact hX) (by rw [hlen]; exact hag)
    rw [hlen, ho.target] at hag'
    rw [hrest, hbytes]
    exact hag'
  · show data.drop k ++ s.chunks.flatten = D.drop (need s.finished + w'.bytesWritten)
    rw [hbytes, ← Nat.add_assoc, ← List.drop_drop, ← hsup,
      List.drop_append_of_le_length (by omega)]

/-- A write that fails. -/
theorem Data.short {E : Env} {s : State} {data : List UInt8} {w w' : RangeSinkWriter} {n : Nat}
    {io : St} (hd : Data D dev s) (hp : s.prod = .write data) (hw : s.writer = some w)
    (hwrite : w.write E (data.take (min data.length w.availableSpace)) s.io = .ok (n, w') io)
    (hn : n ≠ min data.length w.availableSpace) :
    Data D dev { s with writer := some w', io := io, prod := .lockEnd } := by
  obtain ⟨tgt, h, ho⟩ := hd.of_writer hw (by rw [hp]; rfl)
  rw [ho.available] at *
  obtain ⟨k, hk⟩ : ∃ k, k = min data.length w.remainder := ⟨_, rfl⟩
  rw [← hk] at hwrite hn
  have hlen : (data.take k).length = k := by rw [List.length_take]; lia
  obtain ⟨-, hout⟩ := (RangeSinkWriter.write_spec E (data.take k) ho.cursor
    (ho.room (by rw [hp]; rfl)) (by lia)).of_ok hwrite
  rw [hlen] at hout
  rcases hout with ⟨hk', -⟩ | ⟨-, hact⟩
  · exact absurd hk' hn
  · exact .serving ⟨h.serving, rfl, h.zeros,
      fun hd => h.noCrash (hd.of_suffix hact.only.suffix), Or.inr ⟨rfl, (hact.failed rfl).1⟩⟩

/-- A target that is full. -/
theorem Data.clear {s : State} {data : List UInt8} (hd : Data D dev s) (hc : Ctrl s)
    (hp : s.prod = .clear data) :
    Data D dev (BlockImg.NewData.broadcast { s with writer := none, prod := .unlockFinish data }) := by
  obtain ⟨w, hw⟩ := Option.isSome_iff_exists.1 (hc.owns (by rw [hp]; rfl)).1
  obtain ⟨tgt, h, ho⟩ := hd.of_writer hw (by rw [hp]; rfl)
  have hspace := ho.full (by rw [hp]; rfl)
  have hrest : w.rest = [] :=
    List.eq_nil_of_length_eq_zero (w.rest_length.trans hspace)
  -- the writer has written as many bytes as its target takes
  have hbytes : w.bytesWritten = bytes tgt := by
    have hwithin := ho.within
    rw [remainder_eq, ho.target] at hspace
    lia
  refine Data.broadcast (.served ⟨h.serving, rfl, h.zeros, ho.noErr, h.noCrash, ?_, ?_, ?_⟩)
  · show need (s.finished ++ [tgt]) ≤ D.length
    rw [need_append, need_singleton, ← hbytes]
    exact ho.enough
  · show s.io.disk.dev = deliver dev D (s.finished ++ [tgt])
    rw [deliver_concat, ← hbytes]
    funext i
    exact ho.agree i (by rw [hrest]; nofun)
  · show Supply D (need (s.finished ++ [tgt])) _
    rw [need_append, need_singleton, ← hbytes]
    exact ho.supply.congr (by rw [hp]; rfl) rfl rfl

/-- A step of the background thread. -/
theorem prodMove_data {E : Env} {s s' : State} (h : ProdMove E s s') (hc : Ctrl s)
    (hd : Data D dev s) : Data D dev s' := by
  cases h with
  | finish hp hchunks =>
    refine hd.congr rfl rfl rfl rfl (fun g hs => ?_) (fun _ => rfl) (by rw [hp]; rfl)
      (by rw [hp]; rfl) (by simp [hp, ProdPc.ended]) rfl rfl rfl
    have hs' : D.drop g = [] := by
      rw [Supply, hp] at hs
      simpa [ProdPc.data, hchunks] using hs.symm
    exact Or.inl (List.drop_eq_nil_iff.1 hs')
  | feed hp hchunks =>
    refine hd.congr rfl rfl rfl rfl (fun g hs => ?_) (by simp [hp, ProdPc.data])
      (by rw [hp]; rfl) (by rw [hp]; rfl) (by simp [hp, ProdPc.ended]) rfl rfl rfl
    rw [Supply, hp] at hs
    simpa [Supply, ProdPc.data, hchunks] using hs
  | taken hp =>
    exact hd.prod hp rfl rfl rfl rfl id rfl rfl rfl rfl
  | lock hp =>
    exact hd.prod hp rfl rfl rfl rfl id rfl rfl rfl rfl
  | own hp =>
    exact hd.prod hp rfl rfl rfl rfl id rfl rfl rfl rfl
  | wait hp =>
    exact hd.prod hp rfl rfl rfl rfl id rfl rfl rfl rfl
  | stop hp hw ha =>
    have hclean : s.main.cleaned = true := by
      refine (hc.available.1 ha).resolve_left ?_
      rw [hp]
      simp [ProdPc.ended]
    have hserving : s.main.serving = none := by
      revert hclean
      cases s.main <;> simp [MainPc.cleaned, MainPc.serving]
    rcases hd.of_not_serving hserving with h | h
    · exact .idle ⟨h.serving, h.value, h.writer, h.zeros, h.noErr, h.noCrash, h.enough, h.dev,
        fun hn => absurd (hclean.symm.trans hn) (by decide)⟩
    · exact absurd h.ended (by rw [hp]; simp [ProdPc.ended])
  | wakeup hp =>
    exact hd.prod hp rfl rfl rfl rfl id rfl rfl rfl rfl
  | unlockWait hp =>
    exact hd.prod hp rfl rfl rfl rfl id rfl rfl rfl rfl
  | wrote hp hw hwrite => exact hd.wrote hp hw hwrite
  | short hp hw hwrite hn => exact hd.short hp hw hwrite hn
  | @more data w hp hw hfin =>
    obtain ⟨tgt, h, ho⟩ := hd.of_writer hw (by rw [hp]; rfl)
    have hspace : w.remainder ≠ 0 := fun h0 => by
      rw [(RangeSinkWriter.finished_iff ho.cursor).2 h0] at hfin
      cases hfin
    exact .serving ⟨h.serving, hw, h.zeros, h.noCrash, Or.inl ⟨ho.target, ho.fit, ho.noErr,
      ho.cursor, ho.within, ho.enough, ho.agree, ho.supply.congr (by rw [hp]; rfl) rfl rfl,
      fun _ => Nat.pos_of_ne_zero hspace, fun h => absurd h Bool.false_ne_true⟩⟩
  | @finished data w hp hw hfin =>
    obtain ⟨tgt, h, ho⟩ := hd.of_writer hw (by rw [hp]; rfl)
    exact .serving ⟨h.serving, hw, h.zeros, h.noCrash, Or.inl ⟨ho.target, ho.fit, ho.noErr,
      ho.cursor, ho.within, ho.enough, ho.agree, ho.supply.congr (by rw [hp]; rfl) rfl rfl,
      fun h => absurd h.symm Bool.false_ne_true,
      fun _ => (RangeSinkWriter.finished_iff ho.cursor).1 hfin⟩⟩
  | lockFinish hp =>
    exact hd.prod hp rfl rfl rfl rfl id rfl rfl rfl rfl
  | clear hp => exact hd.clear hc hp
  | unlockFinish hp =>
    exact hd.prod hp rfl rfl rfl rfl id rfl rfl rfl rfl
  | unlockFalse hp =>
    exact hd.prod hp rfl rfl rfl rfl (by simp [ProdPc.ended]) rfl rfl rfl rfl
  | lockEnd hp =>
    exact hd.prod hp rfl rfl rfl rfl (by simp [ProdPc.ended]) rfl rfl rfl rfl
  | setEndWake hp =>
    exact Data.broadcast (hd.prod hp rfl rfl rfl rfl (fun _ => rfl) rfl rfl rfl rfl)
  | setEnd hp =>
    exact hd.prod hp rfl rfl rfl rfl (fun _ => rfl) rfl rfl rfl rfl
  | unlockEnd hp =>
    exact hd.prod hp rfl rfl rfl rfl (fun _ => rfl) rfl rfl rfl rfl

end Recovery.BlockImg.NewData
