import Mathlib.Data.List.GetD
import Recovery.Uncrypt.ReadBack

/-!
# Runs of `produce_block_map`

* `Answers` — the system calls succeed, and `FIBMAP` answers with blocks of the device.
* `Window` — the invariant of both loops: which blocks have been read and which of them written out,
  and where they are meanwhile.
* `writeHead_ok`, `readTail_ok` — one step of each counter.
* `produceBlockMap_ok` — a whole run writes the map of the file and, with encryption, each of its
  blocks once.

The loops keep a window of buffers between what was read and what was written, since a block may be
written to a place that is still to be read.
-/

set_option autoImplicit false

namespace Recovery.Uncrypt

open Recovery.Lib Recovery.OtaUtil

variable {O : Os} {P : Package} {f : Nat → Nat} {device : List UInt8}

structure Answers (O : Os) (P : Package) (f : Nat → Nat) (device : List UInt8) : Prop where
  succeeds : ∀ c, O.succeeds c = true
  fibmap : ∀ c k, k < P.fileBlocks → O.fibmap c (k : Int) = some (f k : Int)
  nonzero : ∀ k < P.fileBlocks, f k ≠ 0
  lt_max : ∀ k < P.fileBlocks, f k < INT_MAX
  room : ∀ k < P.fileBlocks, (f k + 1) * P.blksize ≤ device.length

/-- No two blocks of the file are in the same place. -/
def Apart (P : Package) (f : Nat → Nat) : Prop :=
  ∀ j < P.fileBlocks, ∀ k < P.fileBlocks, f j = f k → j = k

/-- The `k`-th write to the device stores block `k` of the file in its place. -/
def Logged (P : Package) (f : Nat → Nat) (h : Nat) (writes : List (Int × List UInt8)) : Prop :=
  writes.length = h ∧
    ∀ k < h, ∃ buffer, writes[k]? = some (((f k * P.blksize : Nat) : Int), buffer) ∧ P.Contains k buffer

/-- With encryption: the buffers, and what has been written. -/
structure Buffered (P : Package) (f : Nat → Nat) (device : List UInt8) (h i : Nat)
    (s : UncryptState) : Prop where
  pos : s.pos = min (i * P.blksize) P.data.length
  buffers_length : s.buffers.length = WINDOW_SIZE
  buffer_length : ∀ b ∈ s.buffers, b.length = P.blksize
  held : ∀ j, h ≤ j → j < i → P.Contains j (s.buffers.getD (j % WINDOW_SIZE) [])
  logged : Logged P f h s.writes
  written : Apart P f → h ≤ P.fileBlocks → P.Holds f h s.device

/-- Without encryption: nothing is read or written. -/
structure Skipped (P : Package) (device : List UInt8) (i : Nat) (s : UncryptState) : Prop where
  pos : s.pos = i * P.blksize
  writes : s.writes = []
  device : s.device = device

/-- `i` blocks have been read and `h` of them written out. -/
structure Window (P : Package) (f : Nat → Nat) (device : List UInt8) (h i : Nat)
    (s : UncryptState) : Prop where
  le : h ≤ i
  lt_size : i < h + WINDOW_SIZE
  headBlock : s.headBlock = h
  head : s.head = h % WINDOW_SIZE
  tail : s.tail = i % WINDOW_SIZE
  ranges : ∃ ps, s.ranges = flat ps ∧ Coalesced f h ps
  device_length : s.device.length = device.length
  buffered : P.encrypted = true → Buffered P f device h i s
  skipped : P.encrypted = false → Skipped P device i s

/-! ## System calls -/

/-- The number of calls made is no part of the invariant. -/
theorem Window.calls {h i : Nat} {s : UncryptState} (hw : Window P f device h i s) (c : Nat) :
    Window P f device h i { s with calls := c } :=
  { hw with
    buffered := fun he => { hw.buffered he with }
    skipped := fun he => { hw.skipped he with } }

theorem sys_ok (hO : Answers O P f device) (code : ErrorCode) (s : UncryptState) :
    sys O code s = .ok { s with calls := s.calls + 1 } :=
  if_pos (hO.succeeds s.calls)

theorem ioctlFibmap_ok (hO : Answers O P f device) {h : Nat} (hh : h < P.fileBlocks)
    (s : UncryptState) :
    ioctlFibmap O h s = .ok ((f h : Int), { s with calls := s.calls + 1 }) := by
  rw [ioctlFibmap, hO.fibmap s.calls h hh]

theorem writeAtOffset_ok (hO : Answers O P f device) {buffer : List UInt8} {off : Nat}
    {s : UncryptState} (h : off + buffer.length ≤ s.device.length) :
    writeAtOffset O buffer off s = .ok { s with
      calls := s.calls + 1
      device := splice s.device off buffer
      writes := s.writes ++ [((off : Int), buffer)] } := by
  rw [writeAtOffset, if_pos (by lia), sys_ok hO]
  rfl

/-! ## Steps -/

theorem Buffered.write {h i : Nat} {s : UncryptState} (hb : Buffered P f device h i s)
    (hlen : s.device.length = device.length) (hO : Answers O P f device) (hh : h < P.fileBlocks)
    (hi : h < i) {buffer : List UInt8} (hbuf : buffer = s.buffers.getD (h % WINDOW_SIZE) []) :
    Buffered P f device (h + 1) i { s with
      device := splice s.device (f h * P.blksize) buffer
      writes := s.writes ++ [(((f h * P.blksize : Nat) : Int), buffer)] } := by
  have hc : P.Contains h buffer := hbuf ▸ hb.held h (Nat.le_refl h) hi
  have hroom : f h * P.blksize + buffer.length ≤ s.device.length := by
    have := hO.room h hh
    rw [hc.1, hlen]
    rwa [Nat.add_mul, Nat.one_mul] at this
  refine { hb with held := fun j hj => hb.held j (by lia), logged := ?_, written := ?_ }
  · refine ⟨by rw [List.length_append, hb.logged.1, List.length_singleton], fun k hk => ?_⟩
    by_cases hkh : k = h
    · refine ⟨buffer, ?_, hkh ▸ hc⟩
      rw [List.getElem?_append_right (by rw [hb.logged.1, hkh]), hb.logged.1, hkh, Nat.sub_self]
      rfl
    · obtain ⟨b, hbk, hck⟩ := hb.logged.2 k (by lia)
      refine ⟨b, ?_, hck⟩
      rw [List.getElem?_append_left (by rw [hb.logged.1]; lia), hbk]
  · intro hap hle k hk
    by_cases hkh : k = h
    · have hself := slice_splice_self hroom
      rw [hc.1] at hself
      rw [hkh]
      dsimp only
      rwa [hself]
    · -- another block of the device
      have hne : f k ≠ f h := fun he => hkh (hap k (by lia) h hh he)
      have hapart : f k * P.blksize + P.blksize ≤ f h * P.blksize ∨
          f h * P.blksize + buffer.length ≤ f k * P.blksize := by
        rw [hc.1, ← Nat.succ_mul, ← Nat.succ_mul]
        rcases Nat.lt_or_gt_of_ne hne with hlt | hlt
        · exact .inl (Nat.mul_le_mul_right _ hlt)
        · exact .inr (Nat.mul_le_mul_right _ hlt)
      dsimp only
      rw [slice_splice_of_disjoint hroom hapart]
      exact hb.written hap (by lia) k (by lia)

theorem writeHead_ok (hO : Answers O P f device) (hmax : P.fileBlocks ≤ INT_MAX) {h i : Nat}
    {s : UncryptState} (hw : Window P f device h i s) (hi : h < i) (hh : h < P.fileBlocks) :
    ∃ s', writeHead O P s = .ok s' ∧ Window P f device (h + 1) i s' := by
  obtain ⟨ps, hps, hco⟩ := hw.ranges
  obtain ⟨ps', hps', hco'⟩ := coalesced_addBlockToRanges hco (hO.lt_max h hh)
  have hne : ¬ ((f h : Int) = 0) := by
    have := hO.nonzero h hh
    lia
  have hnext : toInt ((h : Int) + 1) = ((h + 1 : Nat) : Int) := by
    rw [INT_MAX] at hmax
    rw [toInt_eq (by lia) (by lia), Int.natCast_succ]
  have hhead : (h % WINDOW_SIZE + 1) % WINDOW_SIZE = (h + 1) % WINDOW_SIZE := by
    rw [Nat.mod_add_mod]
  have hlt : i < h + 1 + WINDOW_SIZE := by
    have := hw.lt_size
    lia
  unfold writeHead
  rw [hw.headBlock, ioctlFibmap_ok hO hh]
  simp only [Except.bind, bind, pure, Except.pure, if_neg hne, hps, hps', hw.headBlock, hnext,
    hw.head, hhead]
  cases he : P.encrypted with
  | false =>
    rw [if_neg (by decide)]
    exact ⟨_, rfl, {
      le := hi
      lt_size := hlt
      headBlock := rfl
      head := rfl
      tail := hw.tail
      ranges := ⟨ps', rfl, hco'⟩
      device_length := hw.device_length
      buffered := fun ht => by rw [he] at ht; cases ht
      skipped := fun _ => { hw.skipped he with } }⟩
  | true =>
    rw [if_pos rfl]
    have hb := hw.buffered he
    obtain ⟨buffer, hbuf⟩ : ∃ b, b = s.buffers.getD (h % WINDOW_SIZE) [] := ⟨_, rfl⟩
    have hc : P.Contains h buffer := hbuf ▸ hb.held h (Nat.le_refl h) hi
    have hroom : f h * P.blksize + buffer.length ≤ s.device.length := by
      have := hO.room h hh
      rw [hc.1, hw.device_length]
      rwa [Nat.add_mul, Nat.one_mul] at this
    have hoff : (P.blksize : Int) * (f h : Int) = ((f h * P.blksize : Nat) : Int) := by
      rw [Int.natCast_mul, Int.mul_comm]
    rw [← hbuf, hoff, writeAtOffset_ok hO]
    swap
    · exact hroom
    dsimp only
    rw [hnext, hhead]
    refine ⟨_, rfl, ?_⟩
    exact {
      le := hi
      lt_size := hlt
      headBlock := rfl
      head := rfl
      tail := hw.tail
      ranges := ⟨ps', rfl, hco'⟩
      device_length := (length_splice hroom).trans hw.device_length
      buffered := fun _ => { hb.write hw.device_length hO hh hi hbuf with }
      skipped := fun ht => by rw [he] at ht; cases ht }

theorem Buffered.read {h i : Nat} {s : UncryptState} (hb : Buffered P f device h i s)
    (hi : i * P.blksize < P.data.length) (hlt : i + 1 < h + WINDOW_SIZE) {toRead : Nat}
    (hr : toRead = min P.blksize (P.data.length - s.pos)) :
    Buffered P f device h (i + 1) { s with
      buffers := s.buffers.set (i % WINDOW_SIZE)
        (slice P.data s.pos toRead ++ (s.buffers.getD (i % WINDOW_SIZE) []).drop toRead)
      pos := s.pos + toRead } := by
  have hpos : s.pos = i * P.blksize := by
    rw [hb.pos]
    lia
  have hslot : i % WINDOW_SIZE < s.buffers.length := by
    rw [hb.buffers_length]
    exact Nat.mod_lt _ (by decide)
  obtain ⟨old, hold⟩ : ∃ b, b = s.buffers.getD (i % WINDOW_SIZE) [] := ⟨_, rfl⟩
  have hlen : old.length = P.blksize := by
    rw [hold, List.getD_eq_getElem _ _ hslot]
    exact hb.buffer_length _ (List.getElem_mem hslot)
  have hread : slice P.data s.pos toRead = P.fileBlock i := by
    rw [Package.fileBlock, hpos, hr, hpos, slice, slice, List.take_eq_take_iff]
    rw [List.length_drop]
    lia
  have hrlen : (slice P.data s.pos toRead).length = toRead := by
    rw [hread, length_fileBlock, hr, hpos]
  have hnew : P.Contains i (slice P.data s.pos toRead ++ old.drop toRead) := by
    refine ⟨?_, ?_⟩
    · rw [List.length_append, hrlen, List.length_drop, hlen]
      lia
    · rw [← hread, List.take_left]
  rw [← hold]
  refine { hb with
    pos := ?_
    buffers_length := by rw [List.length_set, hb.buffers_length]
    buffer_length := fun b hmem => ?_
    held := fun j hhj hji => ?_ }
  · show s.pos + toRead = min ((i + 1) * P.blksize) P.data.length
    rw [hr, hpos, Nat.succ_mul]
    lia
  · rcases List.mem_or_eq_of_mem_set hmem with hmem | rfl
    · exact hb.buffer_length b hmem
    · exact hnew.1
  · by_cases hj : j = i
    · rw [hj, List.getD_eq_getElem _ _ (by rwa [List.length_set]), List.getElem_set_self]
      exact hnew
    · -- the slots of the window are different ones
      have hne : i % WINDOW_SIZE ≠ j % WINDOW_SIZE := by
        unfold WINDOW_SIZE at hlt ⊢
        lia
      rw [List.getD_eq_getElem?_getD, List.getElem?_set_ne hne, ← List.getD_eq_getElem?_getD]
      exact hb.held j hhj (by lia)

theorem readTail_ok (hO : Answers O P f device) {h i : Nat} {s : UncryptState}
    (hw : Window P f device h i s) (hi : i * P.blksize < P.data.length)
    (hlt : i + 1 < h + WINDOW_SIZE) :
    ∃ s', readTail O P s = .ok s' ∧ Window P f device h (i + 1) s' := by
  have htail : (i % WINDOW_SIZE + 1) % WINDOW_SIZE = (i + 1) % WINDOW_SIZE := by
    rw [Nat.mod_add_mod]
  unfold readTail
  simp only [sys_ok hO, Except.bind, bind, pure, Except.pure, hw.tail]
  cases he : P.encrypted with
  | false =>
    rw [if_neg (by decide)]
    have hs := hw.skipped he
    exact ⟨_, rfl, { hw with
      le := Nat.le_succ_of_le hw.le
      lt_size := hlt
      tail := htail
      buffered := fun ht => by rw [he] at ht; cases ht
      skipped := fun _ => { hs with pos := by dsimp only; rw [hs.pos, Nat.succ_mul] } }⟩
  | true =>
    rw [if_pos rfl]
    have hb := hw.buffered he
    exact ⟨_, rfl, { hw with
      le := Nat.le_succ_of_le hw.le
      lt_size := hlt
      tail := htail
      buffered := fun _ => { hb.read hi hlt rfl with }
      skipped := fun ht => by rw [he] at ht; cases ht }⟩

/-! ## Loops -/

theorem Window.more {h i : Nat} {s : UncryptState} (hw : Window P f device h i s)
    (hi : i * P.blksize < P.data.length) : s.pos < P.data.length := by
  cases he : P.encrypted with
  | false => rwa [(hw.skipped he).pos]
  | true =>
    rw [(hw.buffered he).pos]
    omega

theorem Window.done {h : Nat} {s : UncryptState} (hw : Window P f device h P.fileBlocks s)
    (hb : 0 < P.blksize) : ¬ s.pos < P.data.length := by
  have hle := length_le_fileBlocks_mul (P := P) hb
  cases he : P.encrypted with
  | false =>
    rw [(hw.skipped he).pos]
    lia
  | true =>
    rw [(hw.buffered he).pos]
    lia

/-- The window is full when a whole round is between the counters. -/
theorem Window.full_iff {h i : Nat} {s : UncryptState} (hw : Window P f device h i s) :
    (s.tail + 1) % WINDOW_SIZE = s.head ↔ i + 1 = h + WINDOW_SIZE := by
  have hle := hw.le
  have hlt := hw.lt_size
  rw [hw.tail, hw.head]
  unfold WINDOW_SIZE at hlt ⊢
  lia

theorem Window.empty_iff {h i : Nat} {s : UncryptState} (hw : Window P f device h i s) :
    s.head = s.tail ↔ h = i := by
  have hle := hw.le
  have hlt := hw.lt_size
  rw [hw.tail, hw.head]
  unfold WINDOW_SIZE at hlt ⊢
  lia

theorem readLoop_ok (hO : Answers O P f device) (hb : 0 < P.blksize) (hd : P.data ≠ [])
    (hmax : P.fileBlocks ≤ INT_MAX) : ∀ (fuel : Nat) {h i : Nat} {s : UncryptState},
    Window P f device h i s → i ≤ P.fileBlocks → P.fileBlocks ≤ i + fuel →
    ∃ h' s', readLoop O P fuel s = .ok s' ∧ Window P f device h' P.fileBlocks s' := by
  intro fuel
  induction fuel with
  | zero =>
    intro h i s hw hle hfuel
    obtain rfl : i = P.fileBlocks := Nat.le_antisymm hle hfuel
    exact ⟨h, s, rfl, hw⟩
  | succ fuel ih =>
    intro h i s hw hle hfuel
    rw [readLoop]
    by_cases hi : i < P.fileBlocks
    · have hmore := mul_lt_of_lt_fileBlocks hb hd hi
      rw [if_pos (hw.more hmore)]
      by_cases hfull : i + 1 = h + WINDOW_SIZE
      · -- the head is written out first
        rw [if_pos (hw.full_iff.2 hfull)]
        have hhi : h < i := by
          unfold WINDOW_SIZE at hfull
          lia
        obtain ⟨s1, hs1, hw1⟩ := writeHead_ok hO hmax hw hhi (by lia)
        obtain ⟨s2, hs2, hw2⟩ := readTail_ok hO hw1 hmore (by lia)
        obtain ⟨h', s', hs', hw'⟩ := ih hw2 (by lia) (by lia)
        refine ⟨h', s', ?_, hw'⟩
        simp only [hs1, hs2, hs', bind, Except.bind]
      · rw [if_neg fun hf => hfull (hw.full_iff.1 hf)]
        have hlt := hw.lt_size
        obtain ⟨s2, hs2, hw2⟩ := readTail_ok hO hw hmore (by lia)
        obtain ⟨h', s', hs', hw'⟩ := ih hw2 (by lia) (by lia)
        refine ⟨h', s', ?_, hw'⟩
        simp only [hs2, hs', bind, Except.bind, pure, Except.pure]
    · obtain rfl : i = P.fileBlocks := by lia
      rw [if_neg (hw.done hb)]
      exact ⟨h, s, rfl, hw⟩

theorem drainLoop_ok (hO : Answers O P f device) (hmax : P.fileBlocks ≤ INT_MAX) :
    ∀ (fuel : Nat) {h : Nat} {s : UncryptState}, Window P f device h P.fileBlocks s →
    P.fileBlocks ≤ h + fuel →
    ∃ s', drainLoop O P fuel s = .ok s' ∧ Window P f device P.fileBlocks P.fileBlocks s' := by
  intro fuel
  induction fuel with
  | zero =>
    intro h s hw hfuel
    obtain rfl : h = P.fileBlocks := Nat.le_antisymm hw.le hfuel
    exact ⟨s, rfl, hw⟩
  | succ fuel ih =>
    intro h s hw hfuel
    rw [drainLoop]
    by_cases hh : h = P.fileBlocks
    · rw [if_neg fun hne => hne (hw.empty_iff.2 hh)]
      exact ⟨s, rfl, hh ▸ hw⟩
    · rw [if_pos fun he => hh (hw.empty_iff.1 he)]
      have hlt : h < P.fileBlocks := by
        have := hw.le
        lia
      obtain ⟨s1, hs1, hw1⟩ := writeHead_ok hO hmax hw hlt hlt
      obtain ⟨s', hs', hw'⟩ := ih hw1 (by lia)
      refine ⟨s', ?_, hw'⟩
      simp only [hs1, hs', bind, Except.bind]

/-! ## A whole run -/

theorem window_init (P : Package) (f : Nat → Nat) (device : List UInt8) :
    Window P f device 0 0 (initState P device) where
  le := Nat.le_refl 0
  lt_size := by decide
  headBlock := rfl
  head := rfl
  tail := rfl
  ranges := ⟨[], rfl, .nil⟩
  device_length := rfl
  buffered he := {
    pos := by rw [Nat.zero_mul, Nat.zero_min]; rfl
    buffers_length := by simp [initState, he]
    buffer_length := fun b hmem => by
      rw [initState, if_pos he] at hmem
      rw [List.eq_of_mem_replicate hmem, List.length_replicate]
    held := fun j _ hj => absurd hj (Nat.not_lt_zero j)
    logged := ⟨rfl, fun k hk => absurd hk (Nat.not_lt_zero k)⟩
    written := fun _ _ k hk => absurd hk (Nat.not_lt_zero k) }
  skipped _ := {
    pos := (Nat.zero_mul _).symm
    writes := rfl
    device := rfl }

theorem foldlM_sys (hO : Answers O P f device) (code : ErrorCode) (l : List Nat) :
    ∀ s : UncryptState, ∃ c, l.foldlM (fun s _ => sys O code s) s = .ok { s with calls := c } := by
  induction l with
  | nil => exact fun s => ⟨s.calls, rfl⟩
  | cons _ l ih =>
    intro s
    obtain ⟨c, hc⟩ := ih { s with calls := s.calls + 1 }
    refine ⟨c, ?_⟩
    rw [List.foldlM_cons, sys_ok hO]
    exact hc

theorem sysIf_ok (hO : Answers O P f device) (b : Bool) (code : ErrorCode) (s : UncryptState) :
    ∃ c, sysIf O b code s = .ok { s with calls := c } := by
  cases b with
  | false => exact ⟨s.calls, rfl⟩
  | true => exact ⟨_, sys_ok hO code s⟩

theorem bind_ok {α β : Type} {m : Except ErrorCode α} {k : α → Except ErrorCode β} {a : α} {b : β}
    (hm : m = .ok a) (hk : k a = .ok b) : m >>= k = .ok b := by
  rw [hm]
  exact hk

/-- **A run writes the map of the file.** -/
theorem produceBlockMap_ok (hO : Answers O P f device) (hb : 0 < P.blksize) (hd : P.data ≠ [])
    (hmax : P.fileBlocks ≤ INT_MAX) (oldTmp : List Char) :
    ∃ ps s, produceBlockMap O P oldTmp device =
        .ok (writtenOver oldTmp (mapText P s.ranges), s) ∧
      s.ranges = flat ps ∧ Coalesced f P.fileBlocks ps ∧ Window P f device P.fileBlocks P.fileBlocks s := by
  have hpos := List.length_pos_of_ne_nil hd
  have hfuel : P.fileBlocks ≤ 0 + P.data.length := by
    have := Nat.div_le_self (P.data.length - 1) P.blksize
    unfold Package.fileBlocks
    lia
  obtain ⟨c1, hc1⟩ := sysIf_ok hO P.encrypted .kUncryptBlockOpenError
    { initState P device with calls := 6 }
  obtain ⟨c2, hc2⟩ := sysIf_ok hO P.f2fsFs .kUncryptIoctlError
    { initState P device with calls := c1 }
  obtain ⟨h, s1, hs1, hw1⟩ := readLoop_ok hO hb hd hmax P.data.length
    ((window_init P f device).calls c2) (Nat.zero_le _) hfuel
  have hlt1 := hw1.lt_size
  obtain ⟨s2, hs2, hw2⟩ := drainLoop_ok hO hmax WINDOW_SIZE hw1 (by lia)
  obtain ⟨ps, hps, hco⟩ := hw2.ranges
  obtain ⟨c3, hc3⟩ := foldlM_sys hO .kUncryptWriteError (List.range (s2.ranges.length / 2))
    { s2 with calls := s2.calls + 1 }
  obtain ⟨c4, hc4⟩ := sysIf_ok hO P.encrypted .kUncryptFileSyncError
    { s2 with calls := c3 + 1 + 1 }
  obtain ⟨c5, hc5⟩ := sysIf_ok hO P.encrypted .kUncryptFileCloseError { s2 with calls := c4 }
  refine ⟨ps, { s2 with calls := c5 + 1 + 1 + 1 + 1 }, ?_, hps, hco, hw2.calls _⟩
  have hsys (code : ErrorCode) (s : UncryptState) := sys_ok hO code s
  -- up to the loops
  refine bind_ok (hsys _ _) (bind_ok (hsys _ _) (bind_ok (hsys _ _) (bind_ok (hsys _ _)
    (bind_ok (hsys _ _) (bind_ok (hsys _ _) (bind_ok hc1 (bind_ok hc2 ?_)))))))
  refine bind_ok hs1 (bind_ok hs2 (bind_ok (hsys _ _) (bind_ok hc3 ?_)))
  -- the map is complete
  refine bind_ok (hsys _ _) (bind_ok (hsys _ _) (bind_ok hc4 (bind_ok hc5 ?_)))
  refine bind_ok (hsys _ _) (bind_ok (hsys _ _) (bind_ok (hsys _ _) (bind_ok (hsys _ _) ?_)))
  rfl

end Recovery.Uncrypt
