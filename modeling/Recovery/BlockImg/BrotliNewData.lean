import Recovery.BlockImg.RangeSink
import Recovery.Lib.Loop

/-!
# The receiver of compressed `new` data

`receive_brotli_new_data` hands one chunk of the compressed stream to the decoder and what comes
out of it to the writers that the main thread sets up one after the other.

* `BrotliDecoder` — the decoder, which is not part of this repository; `Lawful` is what its
  interface promises.
* `round` — one round of the loop, from its condition to the hand-over of a finished writer.
* `Stuck` — the decoder has reported success, input is left, and there is a writer with space.
* `receiveBrotliNewData_ends_iff` — the loop ends exactly when it never gets there: a stuck round
  takes no input, makes no output and finishes no writer.

How a wait for a writer is answered is a parameter: by the target of the next `new` command, or by
the main thread giving up.
-/

set_option autoImplicit false

namespace Recovery.BlockImg.BrotliNewData

open Recovery.Lib Recovery.OtaUtil Recovery.BlockImg

inductive BrotliDecoderResult where
  | error
  | success
  | needsMoreInput
  | needsMoreOutput
  deriving DecidableEq, Repr

/-- What a call of `BrotliDecoderDecompressStream` leaves behind. -/
structure Call (δ : Type) where
  result : BrotliDecoderResult
  state : δ
  /-- How far the input pointer has moved. -/
  consumed : Nat
  /-- The bytes stored from the output pointer on. -/
  output : List UInt8

structure BrotliDecoder (δ : Type) where
  hasMoreOutput : δ → Bool
  isFinished : δ → Bool
  /-- State, available input, and the size of the output buffer. -/
  decompressStream : δ → List UInt8 → Nat → Call δ

/-- The promises of the decoder's interface, and that a call which may go on does so. -/
structure BrotliDecoder.Lawful {δ : Type} (D : BrotliDecoder δ) : Prop where
  success : ∀ d data n, (D.decompressStream d data n).result = .success →
    D.isFinished (D.decompressStream d data n).state = true
  /-- After the end of the stream no more input is consumed and no more output is produced. -/
  finished : ∀ d data n, D.isFinished d = true →
    (D.decompressStream d data n).result = .success ∧
      (D.decompressStream d data n).consumed = 0 ∧ (D.decompressStream d data n).output = []
  noMoreOutput : ∀ d, D.isFinished d = true → D.hasMoreOutput d = false
  consumed_le : ∀ d data n, (D.decompressStream d data n).consumed ≤ data.length
  progress : ∀ d data n, 0 < n → D.isFinished d = false → data ≠ [] ∨ D.hasMoreOutput d = true →
    (D.decompressStream d data n).result ≠ .error →
    0 < (D.decompressStream d data n).consumed ∨ (D.decompressStream d data n).output ≠ []
  /-- A finite input makes a finite output. -/
  finite : ∃ pending : δ → List UInt8 → Nat, ∀ d data n,
    (D.decompressStream d data n).output.length +
      pending (D.decompressStream d data n).state
        (data.drop (D.decompressStream d data n).consumed) ≤ pending d data

/-- A target that passes the check of `PerformCommandNew`. -/
abbrev Target := { tgt : RangeSet // tgt.isValid = true }

structure State (δ : Type) where
  /-- `data` and `size`. -/
  data : List UInt8
  decoder : δ
  writer : Option RangeSinkWriter
  /-- Waits answered so far. -/
  waits : Nat
  io : St

inductive End where
  | returned (b : Bool)
  /-- The process is gone. -/
  | stopped (e : Stop)

variable {δ : Type} (E : Env) (D : BrotliDecoder δ) (wait : Nat → Option Target)

/-- The writer of the next round, with the number of waits answered by then. -/
def awaitWriter (s : State δ) : Option (RangeSinkWriter × Nat) :=
  match s.writer with
  | some w => some (w, s.waits)
  | none => (wait s.waits).map fun tgt => (RangeSinkWriter.new tgt.1, s.waits + 1)

def round (s : State δ) : State δ ⊕ End :=
  if s.data = [] ∧ D.hasMoreOutput s.decoder = false then .inr (.returned true)
  else match awaitWriter wait s with
    | none => .inr (.returned false)
    | some (w, waits) =>
      let bufferSize := min 32768 w.availableSpace
      if bufferSize = 0 then .inr (.returned false)
      else
        let call := D.decompressStream s.decoder s.data bufferSize
        if call.result = .error then .inr (.returned false)
        else match w.write E call.output s.io with
          | .error e _ => .inr (.stopped e)
          | .ok (n, w) io =>
            if n ≠ call.output.length then .inr (.returned false)
            else .inl
              { data := s.data.drop call.consumed
                decoder := call.state
                writer := if w.finished then none else some w
                waits := waits
                io := io }

/-- `receive_brotli_new_data`, for at most `fuel` rounds. -/
def receiveBrotliNewData (fuel : Nat) (s : State δ) : Option End := loop (round E D wait) fuel s

/-- Input is left after the end of the stream, and a writer waits for data. -/
def Stuck (s : State δ) : Prop :=
  s.data ≠ [] ∧ D.isFinished s.decoder = true ∧
    ∃ w waits, awaitWriter wait s = some (w, waits) ∧ w.availableSpace ≠ 0 ∧ w.finished = false

variable {E D wait}

theorem new_finished (tgt : Target) : (RangeSinkWriter.new tgt.1).finished = false := by
  obtain ⟨⟨ranges, blocks, hpos, hblocks⟩, hvalid⟩ := tgt
  cases ranges with
  | nil => cases hvalid
  | cons r ranges =>
    simp [RangeSinkWriter.new, RangeSinkWriter.finished, RangeSet.size]

/-- What a round that comes back to the head of the loop has done. -/
theorem round_next {s s' : State δ} (h : round E D wait s = .inl s') :
    ∃ w waits n w' io, (s.data ≠ [] ∨ D.hasMoreOutput s.decoder = true) ∧
      awaitWriter wait s = some (w, waits) ∧ n = min 32768 w.availableSpace ∧ 0 < n ∧
      (D.decompressStream s.decoder s.data n).result ≠ .error ∧
      w.write E (D.decompressStream s.decoder s.data n).output s.io =
        .ok ((D.decompressStream s.decoder s.data n).output.length, w') io ∧
      s' = { data := s.data.drop (D.decompressStream s.decoder s.data n).consumed
             decoder := (D.decompressStream s.decoder s.data n).state
             writer := if w'.finished then none else some w'
             waits := waits
             io := io } := by
  unfold round at h
  split at h
  · cases h
  · rename_i hcond
    split at h
    · cases h
    · rename_i w waits hw
      dsimp only at h
      split at h
      · cases h
      · rename_i hn
        split at h
        · cases h
        · rename_i hres
          split at h
          · cases h
          · rename_i n w' io hwrite
            split at h
            · cases h
            · rename_i hlen
              cases h
              refine ⟨w, waits, _, w', io, ?_, hw, rfl, Nat.pos_of_ne_zero hn, hres, ?_, rfl⟩
              · simpa [or_iff_not_imp_left] using hcond
              · rw [hwrite, Decidable.of_not_not hlen]

/-- A stuck round leaves the loop stuck: no input is taken and the writer gets nothing. -/
theorem stuck_next (hD : D.Lawful) {s : State δ} (h : Stuck D wait s) :
    ∃ s', round E D wait s = .inl s' ∧ Stuck D wait s' := by
  obtain ⟨hdata, hfin, w, waits, hw, hspace, hopen⟩ := h
  have hn : min 32768 w.availableSpace ≠ 0 := by lia
  obtain ⟨hres, hcons, hout⟩ := hD.finished s.decoder s.data (min 32768 w.availableSpace) hfin
  have hstill := hD.success _ _ _ hres
  refine ⟨⟨s.data, _, some w, waits, s.io⟩, ?_, hdata, hstill, w, waits, rfl, hspace, hopen⟩
  simp [round, hdata, hw, hn, hres, hcons, hout, RangeSinkWriter.write_nil, hopen]

/-- Two for each byte still to be read or made, and one for a writer in hand. -/
def measure (pending : δ → List UInt8 → Nat) (s : State δ) : Nat :=
  2 * (s.data.length + pending s.decoder s.data) + if s.writer.isSome then 1 else 0

theorem measure_next (hD : D.Lawful) {pending : δ → List UInt8 → Nat}
    (hpending : ∀ d data n, (D.decompressStream d data n).output.length +
      pending (D.decompressStream d data n).state
        (data.drop (D.decompressStream d data n).consumed) ≤ pending d data)
    {s s' : State δ} (hs : ¬ Stuck D wait s) (h : round E D wait s = .inl s') :
    measure pending s' < measure pending s := by
  obtain ⟨w, waits, n, w', io, hmore, hw, hn, hpos, hres, hwrite, rfl⟩ := round_next h
  have hp := hpending s.decoder s.data n
  have hc := hD.consumed_le s.decoder s.data n
  have hone : ∀ o : Option RangeSinkWriter, (if o.isSome then 1 else 0) ≤ 1 := by
    intro o
    split <;> lia
  have h1 := hone (if w'.finished then none else some w')
  simp only [measure, List.length_drop]
  cases hfin : D.isFinished s.decoder with
  | false =>
    have hprog := hD.progress s.decoder s.data n hpos hfin hmore hres
    have hout := List.length_pos_iff (l := (D.decompressStream s.decoder s.data n).output)
    rcases hprog with hprog | hprog
    · lia
    · have := hout.2 hprog
      lia
  | true =>
    -- The decoder is done, so what keeps the loop going is input behind the end of the stream.
    have hdata : s.data ≠ [] := by
      rcases hmore with h | h
      · exact h
      · rw [hD.noMoreOutput _ hfin] at h
        cases h
    have hspace : w.availableSpace ≠ 0 := by lia
    have hclosed : w.finished = true := by
      by_contra hopen
      exact hs ⟨hdata, hfin, w, waits, hw, hspace, by simpa using hopen⟩
    cases hwr : s.writer with
    | none =>
      -- A writer just set up has not finished.
      simp only [awaitWriter, hwr, Option.map_eq_some_iff] at hw
      obtain ⟨tgt, -, htgt⟩ := hw
      cases htgt
      rw [new_finished tgt] at hclosed
      cases hclosed
    | some w₀ =>
      simp only [awaitWriter, hwr, Option.some.injEq, Prod.mk.injEq] at hw
      obtain ⟨rfl, rfl⟩ := hw
      obtain ⟨-, -, hout⟩ := hD.finished s.decoder s.data n hfin
      rw [hout, RangeSinkWriter.write_nil] at hwrite
      cases hwrite
      simp only [hclosed, if_true, Option.isSome, Bool.false_eq_true, if_false]
      lia

/-- **The loop ends exactly when it never comes round with input left after the end of the stream
and a writer that wants data.** -/
theorem receiveBrotliNewData_ends_iff (hD : D.Lawful) (s : State δ) :
    (∃ fuel r, receiveBrotliNewData E D wait fuel s = some r) ↔
      ∀ s', Rounds (round E D wait) s s' → ¬ Stuck D wait s' := by
  obtain ⟨pending, hpending⟩ := hD.finite
  exact ends_iff (fun _ => stuck_next hD) (fun _ _ => measure_next hD hpending) s

/-! ## One stream -/

/-- A decoder of the stream `06`, the empty one. -/
def emptyStream : BrotliDecoder Bool where
  hasMoreOutput _ := false
  isFinished d := d
  decompressStream d data _ :=
    if d then ⟨.success, true, 0, []⟩
    else match data with
      | [] => ⟨.needsMoreInput, false, 0, []⟩
      | b :: _ => if b = 6 then ⟨.success, true, 1, []⟩ else ⟨.error, false, 0, []⟩

theorem emptyStream_lawful : emptyStream.Lawful where
  success d data n h := by
    cases d with
    | true => rfl
    | false =>
      cases data with
      | nil => cases h
      | cons b data => by_cases hb : b = 6 <;> simp [emptyStream, hb] at h ⊢
  finished d data n h := by
    cases d
    · cases h
    · simp [emptyStream]
  noMoreOutput _ _ := rfl
  consumed_le d data n := by
    cases d <;> cases data <;> simp [emptyStream]
    split <;> simp
  progress d data n _ hd hmore hres := by
    cases d
    · cases data with
      | nil => simp [emptyStream] at hmore
      | cons b data =>
        by_cases hb : b = 6
        · simp [emptyStream, hb]
        · simp [emptyStream, hb] at hres
    · cases hd
  finite := by
    refine ⟨fun _ _ => 0, fun d data n => ?_⟩
    cases d <;> cases data <;> simp [emptyStream]
    split <;> simp

/-- Every wait is answered by a target of one block. -/
def oneBlock (_ : Nat) : Option Target := some ⟨RangeSet.ofPairs [(0, 1)], by decide⟩

/-- The call for one chunk at the start of the stream. -/
def start (data : List UInt8) : State Bool := ⟨data, false, none, 0, .zeros none []⟩

/-- The empty stream alone: the loop ends. -/
theorem receiveBrotliNewData_whole :
    receiveBrotliNewData .small emptyStream oneBlock 2 (start [6]) = some (.returned true) ∧
      ∀ s', Rounds (round .small emptyStream oneBlock) (start [6]) s' →
        ¬ Stuck emptyStream oneBlock s' := by
  refine ⟨rfl, ?_⟩
  exact (receiveBrotliNewData_ends_iff emptyStream_lawful (start [6])).1 ⟨2, .returned true, rfl⟩

/-- With a byte after its end, it never does. -/
theorem receiveBrotliNewData_trailing :
    emptyStream.Lawful ∧ (∀ n, (oneBlock n).isSome = true) ∧
      ∀ fuel, receiveBrotliNewData .small emptyStream oneBlock fuel (start [6, 0]) = none := by
  refine ⟨emptyStream_lawful, fun _ => rfl, fun fuel => ?_⟩
  have hspace : (RangeSinkWriter.new (RangeSet.ofPairs [(0, 1)])).availableSpace ≠ 0 := by decide
  have hopen : (RangeSinkWriter.new (RangeSet.ofPairs [(0, 1)])).finished = false := rfl
  have hpos : min 32768 (RangeSinkWriter.new (RangeSet.ofPairs [(0, 1)])).availableSpace ≠ 0 := by
    omega
  have hround : round .small emptyStream oneBlock (start [6, 0]) = .inl ⟨[0], true,
      some (RangeSinkWriter.new (RangeSet.ofPairs [(0, 1)])), 1, .zeros none []⟩ := by
    simp [round, start, awaitWriter, oneBlock, emptyStream, RangeSinkWriter.write_nil, hpos, hopen]
  have hs' : Stuck emptyStream oneBlock ⟨[0], true,
      some (RangeSinkWriter.new (RangeSet.ofPairs [(0, 1)])), 1, .zeros none []⟩ :=
    ⟨List.cons_ne_nil _ _, rfl, _, _, rfl, hspace, hopen⟩
  have hends : ¬ Ends (round .small emptyStream oneBlock) _ :=
    not_ends_of_stuck (fun _ => stuck_next emptyStream_lawful) hs'
  rw [← ends_next hround] at hends
  cases h : receiveBrotliNewData .small emptyStream oneBlock fuel (start [6, 0]) with
  | none => rfl
  | some r => exact absurd ⟨fuel, r, h⟩ hends

end Recovery.BlockImg.BrotliNewData
