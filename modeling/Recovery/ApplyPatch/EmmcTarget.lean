import Recovery.Lib.Crash

/-!
# The EMMC branch of `WriteToPartition`, call by call

`ApplyPatch` takes the writes of an attempt as one operation on the partition.  Here every call
on a descriptor is made: writes and reads with short counts, the position of each descriptor, and
descriptors that are closed while a variable still names them.

* `Os` — the partition, the open descriptors with their positions, and the attempts made.
* `Kernel` — what the calls do: which fail, how much they transfer, what the medium stores.
* `writeToPartition` — the branch; `.error .minusOne` is `return -1`.
* `Meets` — what the branch is to do when no call on an open descriptor fails.
* `writeToPartition_fails` — it returns `-1` after one attempt, whatever the partition holds.
-/

set_option autoImplicit false

namespace Recovery.ApplyPatch.Emmc

open Recovery.Lib

abbrev Bytes := List UInt8

/-- One round of the loop over the attempts. -/
structure Attempt where
  /-- Where its writes began. -/
  start : Nat
  /-- What its verification read, up to the first page that differs. -/
  readBack : Bytes
  /-- `start` after the verification: the first page that differs, or the length. -/
  mismatch : Nat
  deriving DecidableEq

structure Os where
  content : Bytes
  /-- Descriptors of the partition and their positions. -/
  fds : Int → Option Nat
  next : Nat
  /-- Calls made so far. -/
  calls : Nat
  /-- Attempts that got to the end of their verification. -/
  attempts : List Attempt

/-- Each answer may depend on the number of the call. -/
structure Kernel where
  /-- The call fails though its descriptor is open. -/
  fails : Nat → Bool
  writeCount : Nat → Nat
  /-- What the medium stores for a byte of a write. -/
  stores : Nat → Nat → UInt8 → UInt8
  readCount : Nat → Nat

/-- How the function ends when it does not return `0`. -/
inductive Ret where
  | minusOne
  /-- A loop that makes no progress. -/
  | hang
  deriving DecidableEq

abbrev M := EStateM Ret Os

variable (k : Kernel)

def require (ok : Bool) : M Unit := if ok then return () else throw .minusOne

/-! ## Calls -/

/-- A call on `fd` that moves no data; `-1` is never open. -/
def call (fd : Int) : M Bool := fun s =>
  match s.fds fd with
  | none => .ok false s
  | some _ => .ok (!k.fails s.calls) { s with calls := s.calls + 1 }

/-- `ota_open(partition, ..)`. -/
def otaOpen : M Int := fun s =>
  if k.fails s.calls then .ok (-1) { s with calls := s.calls + 1 }
  else .ok s.next { s with
    fds := Function.update s.fds s.next (some 0), next := s.next + 1, calls := s.calls + 1 }

def lseek (fd : Int) (offset : Nat) : M Bool := do
  if ← call k fd then
    modify fun s => { s with fds := Function.update s.fds fd (some offset) }
    return true
  else return false

def otaFsync (fd : Int) : M Bool := call k fd

/-- `__ota_close(fd)`. -/
def close (fd : Int) : M Bool := do
  let ok ← call k fd
  modify fun s => { s with fds := Function.update s.fds fd none }
  return ok

/-- `ota_close(unique_fd&)`: the result, and what the variable holds afterwards. -/
def otaClose (fd : Int) : M (Bool × Int) := do
  let ok ← close k fd
  return (ok, -1)

/-- How many bytes a transfer of `n` bytes moves when `room` bytes are left. -/
def transfer (count n room : Nat) : Nat := min (max 1 count) (min n room)

/-- `ota_write`; a write at the end of the partition fails. -/
def otaWrite (fd : Int) (data : Bytes) : M (Option Nat) := fun s =>
  match s.fds fd with
  | none => .ok none s
  | some pos =>
    let n := transfer (k.writeCount s.calls) data.length (s.content.length - pos)
    if k.fails s.calls ∨ s.content.length ≤ pos then .ok none { s with calls := s.calls + 1 }
    else .ok (some n) { s with
      content := s.content.take pos ++ (data.take n).mapIdx (k.stores s.calls) ++
        s.content.drop (pos + n)
      fds := Function.update s.fds fd (some (pos + n))
      calls := s.calls + 1 }

/-- `ota_read`; nothing is read at the end of the partition. -/
def otaRead (fd : Int) (n : Nat) : M (Option Bytes) := fun s =>
  match s.fds fd with
  | none => .ok none s
  | some pos =>
    let n := transfer (k.readCount s.calls) n (s.content.length - pos)
    if k.fails s.calls then .ok none { s with calls := s.calls + 1 }
    else .ok (some ((s.content.drop pos).take n)) { s with
      fds := Function.update s.fds fd (some (pos + n)), calls := s.calls + 1 }

/-! ## The branch -/

/-- `while (start < len)`: the writes of an attempt, at most 1 MiB each.  Every write that
succeeds moves at least one byte. -/
def writeLoop (fd : Int) (data : Bytes) : Nat → Nat → M Nat
  | 0, start => if start < data.length then throw .hang else return start
  | fuel + 1, start =>
    if start < data.length then do
      match ← otaWrite k fd ((data.drop start).take (min (data.length - start) (1 <<< 20))) with
      | none => throw .minusOne
      | some written => writeLoop fd data fuel (start + written)
    else return start

/-- `while (so_far < to_read)`: one buffer of the verification.  At the end of the partition the
loop goes on for ever. -/
def readLoop (fd : Int) (toRead : Nat) : Nat → Bytes → M Bytes
  | 0, soFar => if soFar.length < toRead then throw .hang else return soFar
  | fuel + 1, soFar =>
    if soFar.length < toRead then do
      match ← otaRead k fd (toRead - soFar.length) with
      | none => throw .minusOne
      | some bytes => readLoop fd toRead fuel (soFar ++ bytes)
    else return soFar

/-- The verification, with `n` buffers to go from `p` on: the new `start` and all bytes read. -/
def verifyLoop (fd : Int) (data : Bytes) : Nat → Nat → Bytes → M (Nat × Bytes)
  | 0, _, got => return (data.length, got)
  | n + 1, p, got => do
    let toRead := min (data.length - p) 4096
    let buffer ← readLoop k fd toRead toRead []
    if buffer ≠ (data.drop p).take toRead then return (p, got ++ buffer)
    else verifyLoop fd data n (p + 4096) (got ++ buffer)

def record (a : Attempt) : M Unit := modify fun s => { s with attempts := s.attempts ++ [a] }

/-- The loop over the attempts, with `n` to go: `success`, and what `fd` holds. -/
def attemptLoop (data : Bytes) : Nat → Int → Nat → M (Bool × Int)
  | 0, fd, _ => return (false, fd)
  | n + 1, fd, start => do
    require (← lseek k fd start)
    let _ ← writeLoop k fd data data.length start
    require (← otaFsync k fd)
    let (closed, fd) ← otaClose k fd
    require closed
    -- a variable of its own, which hides the outer `fd` until the end of the round
    let verifyFd ← otaOpen k
    require (0 ≤ verifyFd)
    require (← lseek k verifyFd 0)
    let (mismatch, got) ← verifyLoop k verifyFd data ((data.length + 4095) / 4096) 0 []
    record ⟨start, got, mismatch⟩
    let _ ← close k verifyFd
    if mismatch = data.length then return (true, fd)
    else attemptLoop data n fd mismatch

def writeToPartition (data : Bytes) : M Unit := do
  let fd ← otaOpen k
  require (0 ≤ fd)
  let (success, fd) ← attemptLoop k data 2 fd 0
  require success
  let (closed, _) ← otaClose k fd
  require closed

/-- The partition before the call: no descriptor is open. -/
def onPartition (content : Bytes) : Os := ⟨content, fun _ => none, 3, 0, []⟩

/-- The state at the end, and whether the function returned `0`. -/
def outcome (data content : Bytes) : Bool × Os :=
  match writeToPartition k data (onPartition content) with
  | .ok _ s => (true, s)
  | .error _ s => (false, s)

/-- `0` is returned exactly when one of the attempts reads the data back, a second attempt is
made from the first page that differs when the first one does not, and after `0` the partition
starts with the data. -/
structure Meets (data : Bytes) (r : Bool × Os) : Prop where
  returns : r.1 = true ↔ ∃ a ∈ r.2.attempts, a.readBack = data
  retries : ∀ first, r.2.attempts.head? = some first → first.readBack ≠ data →
    ∃ second, r.2.attempts = [first, second] ∧ second.start = first.mismatch
  written : r.1 = true → r.2.content.take data.length = data

/-! ## Calls that do not fail -/

/-- No call on an open descriptor fails. -/
def Kernel.Succeeds (k : Kernel) : Prop := ∀ i, k.fails i = false

/-- The calls between two states changed neither the size of the partition nor the record, and
the descriptor `fd` is the only one they touched. -/
structure Frame (fd : Int) (s s' : Os) : Prop where
  size : s'.content.length = s.content.length
  attempts : s'.attempts = s.attempts
  next : s'.next = s.next
  fds : ∀ other, other ≠ fd → s'.fds other = s.fds other

variable {k}

theorem Frame.trans {fd : Int} {s s' s'' : Os} (h : Frame fd s s') (h' : Frame fd s' s'') :
    Frame fd s s'' where
  size := h'.size.trans h.size
  attempts := h'.attempts.trans h.attempts
  next := h'.next.trans h.next
  fds other hne := (h'.fds other hne).trans (h.fds other hne)

theorem call_closed {fd : Int} {s : Os} (h : s.fds fd = none) : call k fd s = .ok false s := by
  unfold call
  rw [h]

theorem call_open (hk : k.Succeeds) {fd : Int} {pos : Nat} {s : Os} (h : s.fds fd = some pos) :
    ∃ s', call k fd s = .ok true s' ∧ Frame fd s s' ∧ s'.fds fd = some pos ∧
      s'.content = s.content := by
  refine ⟨{ s with calls := s.calls + 1 }, ?_, ⟨rfl, rfl, rfl, fun _ _ => rfl⟩, h, rfl⟩
  unfold call
  rw [h, hk]
  rfl

theorem otaOpen_ok (hk : k.Succeeds) (s : Os) :
    ∃ s', otaOpen k s = .ok s.next s' ∧ s'.fds = Function.update s.fds s.next (some 0) ∧
      s'.next = s.next + 1 ∧ s'.content = s.content ∧ s'.attempts = s.attempts := by
  unfold otaOpen
  rw [hk, if_neg (by simp)]
  exact ⟨_, rfl, rfl, rfl, rfl, rfl⟩

theorem lseek_open (hk : k.Succeeds) {fd : Int} {pos : Nat} {s : Os} (h : s.fds fd = some pos)
    (offset : Nat) :
    ∃ s', lseek k fd offset s = .ok true s' ∧ Frame fd s s' ∧ s'.fds fd = some offset ∧
      s'.content = s.content := by
  obtain ⟨s', hrun, hframe, -, hcontent⟩ := call_open hk h
  unfold lseek
  rw [bind_ok hrun, if_pos rfl, modify_bind]
  refine ⟨_, rfl, ⟨hframe.size, hframe.attempts, hframe.next, ?_⟩, Function.update_self .., hcontent⟩
  intro other hne
  exact (Function.update_of_ne hne _ _).trans (hframe.fds other hne)

theorem lseek_closed {fd : Int} {s : Os} (h : s.fds fd = none) (offset : Nat) :
    lseek k fd offset s = .ok false s := by
  unfold lseek
  rw [bind_ok (call_closed h)]
  rfl

theorem close_open (hk : k.Succeeds) {fd : Int} {pos : Nat} {s : Os} (h : s.fds fd = some pos) :
    ∃ s', close k fd s = .ok true s' ∧ Frame fd s s' ∧ s'.fds fd = none ∧
      s'.content = s.content := by
  obtain ⟨s', hrun, hframe, -, hcontent⟩ := call_open hk h
  unfold close
  rw [bind_ok hrun, modify_bind]
  refine ⟨_, rfl, ⟨hframe.size, hframe.attempts, hframe.next, ?_⟩, Function.update_self .., hcontent⟩
  intro other hne
  exact (Function.update_of_ne hne _ _).trans (hframe.fds other hne)

theorem close_closed {fd : Int} {s : Os} (h : s.fds fd = none) : close k fd s = .ok false s := by
  have hsame : Function.update s.fds fd none = s.fds := by
    rw [← h, Function.update_eq_self]
  unfold close
  rw [bind_ok (call_closed h), modify_bind, hsame]
  rfl

/-- A second close of a variable that was released. -/
theorem otaClose_closed {fd : Int} {s : Os} (h : s.fds fd = none) :
    otaClose k fd s = .ok (false, -1) s := by
  unfold otaClose
  rw [bind_ok (close_closed h)]
  rfl

theorem transfer_bounds (count : Nat) {n room : Nat} (hn : 0 < n) (hroom : 0 < room) :
    1 ≤ transfer count n room ∧ transfer count n room ≤ n ∧ transfer count n room ≤ room := by
  unfold transfer
  lia

theorem otaWrite_ok (hk : k.Succeeds) {fd : Int} {pos : Nat} {s : Os} {data : Bytes}
    (h : s.fds fd = some pos) (hroom : pos < s.content.length) (hdata : 0 < data.length) :
    ∃ n s', otaWrite k fd data s = .ok (some n) s' ∧ 1 ≤ n ∧ n ≤ data.length ∧ Frame fd s s' ∧
      s'.fds fd = some (pos + n) := by
  obtain ⟨hone, hle, hfit⟩ := transfer_bounds (k.writeCount s.calls) hdata
    (show 0 < s.content.length - pos by lia)
  unfold otaWrite
  simp only [h, hk s.calls, Bool.false_eq_true, false_or, if_neg (Nat.not_le.2 hroom)]
  refine ⟨_, _, rfl, hone, hle, ⟨?_, rfl, rfl, ?_⟩, Function.update_self ..⟩
  · simp only [List.length_append, List.length_take, List.length_mapIdx, List.length_drop]
    lia
  · exact fun other hne => Function.update_of_ne hne _ _

/-- **The writes of an attempt end**, with everything written. -/
theorem writeLoop_ok (hk : k.Succeeds) {fd : Int} (data : Bytes) : ∀ (fuel : Nat) {start : Nat} {s : Os},
    s.fds fd = some start → data.length ≤ s.content.length → data.length ≤ fuel + start →
    ∃ s' pos, writeLoop k fd data fuel start s = .ok (max start data.length) s' ∧ Frame fd s s' ∧
      s'.fds fd = some pos
  | 0, start, s, h, _, hfuel => by
    unfold writeLoop
    rw [if_neg (by lia), Nat.max_eq_left (by lia)]
    exact ⟨s, start, rfl, ⟨rfl, rfl, rfl, fun _ _ => rfl⟩, h⟩
  | fuel + 1, start, s, h, hsize, hfuel => by
    unfold writeLoop
    by_cases hlt : start < data.length
    · rw [if_pos hlt]
      have hpiece : 0 < ((data.drop start).take (min (data.length - start) (1 <<< 20))).length := by
        rw [List.length_take, List.length_drop]
        have : 0 < 1 <<< 20 := by decide
        lia
      obtain ⟨n, s₁, hrun, hone, hle, hframe, hpos⟩ := otaWrite_ok hk h (by lia) hpiece
      rw [List.length_take, List.length_drop] at hle
      obtain ⟨s', pos, hrest, hframe', hpos'⟩ := writeLoop_ok hk data fuel hpos
        (by rw [hframe.size]; exact hsize) (by lia)
      refine ⟨s', pos, ?_, hframe.trans hframe', hpos'⟩
      rw [bind_ok hrun]
      simp only
      rw [hrest, Nat.max_eq_right (by lia), Nat.max_eq_right (by lia)]
    · rw [if_neg hlt, Nat.max_eq_left (by lia)]
      exact ⟨s, start, rfl, ⟨rfl, rfl, rfl, fun _ _ => rfl⟩, h⟩

theorem otaRead_ok (hk : k.Succeeds) {fd : Int} {pos n : Nat} {s : Os}
    (h : s.fds fd = some pos) (hn : 0 < n) (hroom : pos + n ≤ s.content.length) :
    ∃ m s', otaRead k fd n s = .ok (some ((s.content.drop pos).take m)) s' ∧ 1 ≤ m ∧ m ≤ n ∧
      Frame fd s s' ∧ s'.fds fd = some (pos + m) ∧ s'.content = s.content := by
  obtain ⟨hone, hle, hfit⟩ := transfer_bounds (k.readCount s.calls) hn
    (show 0 < s.content.length - pos by omega)
  unfold otaRead
  simp only [h, hk s.calls, Bool.false_eq_true, if_false]
  refine ⟨_, _, rfl, hone, hle, ⟨rfl, rfl, rfl, ?_⟩, Function.update_self .., rfl⟩
  exact fun other hne => Function.update_of_ne hne _ _

/-- **A buffer of the verification is filled** with what the partition holds. -/
theorem readLoop_ok (hk : k.Succeeds) {fd : Int} (base toRead : Nat) :
    ∀ (fuel m : Nat) {s : Os}, s.fds fd = some (base + m) → m ≤ toRead →
    base + toRead ≤ s.content.length → toRead ≤ fuel + m →
    ∃ s', readLoop k fd toRead fuel ((s.content.drop base).take m) s =
        .ok ((s.content.drop base).take toRead) s' ∧ Frame fd s s' ∧
      s'.fds fd = some (base + toRead) ∧ s'.content = s.content
  | 0, m, s, h, hm, hsize, hfuel => by
    have hlen : ((s.content.drop base).take m).length = m := by
      rw [List.length_take, List.length_drop]
      lia
    have heq : m = toRead := by lia
    unfold readLoop
    rw [hlen, if_neg (by lia), heq]
    exact ⟨s, rfl, ⟨rfl, rfl, rfl, fun _ _ => rfl⟩, heq ▸ h, rfl⟩
  | fuel + 1, m, s, h, hm, hsize, hfuel => by
    have hlen : ((s.content.drop base).take m).length = m := by
      rw [List.length_take, List.length_drop]
      lia
    unfold readLoop
    rw [hlen]
    by_cases hlt : m < toRead
    · rw [if_pos hlt]
      obtain ⟨n, s₁, hrun, hone, hle, hframe, hpos, hcontent⟩ :=
        otaRead_ok hk (n := toRead - m) h (by lia) (by lia)
      have happend : (s.content.drop base).take m ++ (s.content.drop (base + m)).take n =
          (s₁.content.drop base).take (m + n) := by
        rw [hcontent, List.take_add, List.drop_drop]
      obtain ⟨s', hrest, hframe', hpos', hcontent'⟩ := readLoop_ok hk base toRead fuel (m + n) (s := s₁)
        (by rw [hpos, Nat.add_assoc]) (by lia) (by rw [hframe.size]; exact hsize) (by lia)
      refine ⟨s', ?_, hframe.trans hframe', hpos', hcontent'.trans hcontent⟩
      rw [bind_ok hrun]
      simp only
      rw [happend, hrest, hcontent]
    · have heq : m = toRead := by lia
      rw [if_neg hlt, heq]
      exact ⟨s, rfl, ⟨rfl, rfl, rfl, fun _ _ => rfl⟩, heq ▸ h, rfl⟩

/-- What a verification finds: the data, or the first page that differs. -/
def Verified (data content : Bytes) (r : Nat × Bytes) : Prop :=
  (r.1 = data.length ∧ r.2 = data ∧ content.take data.length = data) ∨
  (r.1 < data.length ∧ r.1 % 4096 = 0 ∧ content.take r.1 = data.take r.1 ∧
    (content.drop r.1).take (min (data.length - r.1) 4096) ≠
      (data.drop r.1).take (min (data.length - r.1) 4096))

/-- **The verification ends**, and compares what the partition holds. -/
theorem verifyLoop_ok (hk : k.Succeeds) {fd : Int} (data : Bytes) : ∀ (n : Nat) {p : Nat}
    {s : Os}, s.fds fd = some p → p + 4096 * n < data.length + 4096 →
    data.length ≤ p + 4096 * n → data.length ≤ s.content.length → p % 4096 = 0 →
    s.content.take p = data.take p →
    ∃ r s' pos, verifyLoop k fd data n p (data.take p) s = .ok r s' ∧ Frame fd s s' ∧
      s'.fds fd = some pos ∧ s'.content = s.content ∧ Verified data s.content r
  | 0, p, s, h, _, hle, hsize, _, hsame => by
    refine ⟨_, s, p, rfl, ⟨rfl, rfl, rfl, fun _ _ => rfl⟩, h, rfl, Or.inl ⟨rfl, ?_, ?_⟩⟩
    · exact List.take_of_length_le (by lia)
    · have htake := congrArg (List.take data.length) hsame
      rw [List.take_take, List.take_take, Nat.min_eq_left (by lia),
        List.take_of_length_le (Nat.le_refl _)] at htake
      exact htake
  | n + 1, p, s, h, hlt, hle, hsize, hmod, hsame => by
    have hmin : p + min (data.length - p) 4096 ≤ s.content.length := by lia
    obtain ⟨s₁, hread, hframe, hpos, hcontent⟩ := readLoop_ok hk p (min (data.length - p) 4096)
      (min (data.length - p) 4096) 0 h (Nat.zero_le _) hmin (Nat.le_refl _)
    rw [List.take_zero] at hread
    unfold verifyLoop
    simp only
    rw [bind_ok hread]
    by_cases hpage : (s.content.drop p).take (min (data.length - p) 4096) =
        (data.drop p).take (min (data.length - p) 4096)
    · rw [if_neg (not_not_intro hpage), hpage, ← List.take_add]
      rcases Nat.lt_or_ge data.length (p + 4096) with hlast | hmore
      · -- the last buffer may be shorter than a page
        obtain rfl : n = 0 := by lia
        have hend : p + min (data.length - p) 4096 = data.length := by lia
        have hall : s.content.take data.length = data := by
          rw [← hend, List.take_add, hsame, hpage, ← List.take_add, hend, List.take_length]
        refine ⟨_, s₁, _, rfl, hframe, hpos, hcontent, Or.inl ⟨rfl, ?_, hall⟩⟩
        rw [hend, List.take_length]
      · have hfull : min (data.length - p) 4096 = 4096 := by lia
        rw [hfull] at hpage hpos ⊢
        have hnext : s₁.content.take (p + 4096) = data.take (p + 4096) := by
          rw [hcontent, List.take_add, hsame, hpage, ← List.take_add]
        obtain ⟨r, s', pos, hrest, hframe', hpos', hcontent', hr⟩ := verifyLoop_ok hk data n hpos
          (by lia) (by lia) (by rw [hframe.size]; exact hsize) (by lia) hnext
        rw [hcontent] at hcontent' hr
        exact ⟨r, s', pos, hrest, hframe.trans hframe', hpos', hcontent', hr⟩
    · rw [if_pos hpage]
      exact ⟨_, s₁, _, rfl, hframe, hpos, hcontent, Or.inr ⟨by lia, hmod, hsame, hpage⟩⟩

/-! ## The function -/

theorem require_true (s : Os) : require true s = .ok ⟨⟩ s := rfl

theorem require_false (s : Os) : require false s = .error .minusOne s := rfl

/-- **One attempt**, on an open descriptor: everything is written and the whole partition is
read back, but the descriptor is gone. -/
theorem attemptLoop_first (hk : k.Succeeds) {data : Bytes} {n : Nat} {fd : Int} {pos : Nat}
    {s : Os} (h : s.fds fd = some pos) (hclosed : s.fds (-1) = none) (hfd : fd ≠ -1)
    (hsize : data.length ≤ s.content.length) :
    ∃ r s', Verified data s'.content r ∧ s'.attempts = s.attempts ++ [⟨0, r.2, r.1⟩] ∧
      s'.fds (-1) = none ∧
      attemptLoop k data (n + 1) fd 0 s =
        (if r.1 = data.length then pure (true, -1) else attemptLoop k data n (-1) r.1 : M _) s' := by
  obtain ⟨s₁, hseek, hf₁, hp₁, -⟩ := lseek_open hk h 0
  have hsize₁ : data.length ≤ s₁.content.length := by rw [hf₁.size]; exact hsize
  obtain ⟨s₂, p₂, hwrite, hf₂, hp₂⟩ :=
    writeLoop_ok hk data data.length hp₁ hsize₁ (by lia)
  obtain ⟨s₃, hsync, hf₃, hp₃, -⟩ := call_open hk hp₂
  obtain ⟨s₄, hclose, hf₄, hp₄, -⟩ := close_open hk hp₃
  have hframe := ((hf₁.trans hf₂).trans hf₃).trans hf₄
  -- the descriptor of the verification
  obtain ⟨s₅, hopen, hfds₅, hnext₅, hc₅, ha₅⟩ := otaOpen_ok hk s₄
  have hp₅ : s₅.fds s₄.next = some 0 := by rw [hfds₅, Function.update_self]
  obtain ⟨s₆, hseek', hf₆, hp₆, hc₆⟩ := lseek_open hk hp₅ 0
  have hsize₆ : data.length ≤ s₆.content.length := by
    rw [hf₆.size, hc₅, hframe.size]
    exact hsize
  obtain ⟨r, s₇, p₇, hverify, hf₇, hp₇, hc₇, hr⟩ := verifyLoop_ok hk data
    ((data.length + 4095) / 4096) hp₆ (by lia) (by lia) hsize₆ rfl rfl
  obtain ⟨s₈, hs₈⟩ : ∃ s₈ : Os, s₈ = { s₇ with attempts := s₇.attempts ++ [⟨0, r.2, r.1⟩] } :=
    ⟨_, rfl⟩
  have hp₈ : s₈.fds s₄.next = some p₇ := by rw [hs₈]; exact hp₇
  obtain ⟨s₉, hclose', hf₉, hp₉, hc₉⟩ := close_open hk hp₈
  have hnext : (-1 : Int) ≠ s₄.next := by lia
  refine ⟨r, s₉, ?_, ?_, ?_, ?_⟩
  · rw [hc₉, hs₈, hc₇]
    exact hr
  · rw [hf₉.attempts, hs₈, hf₇.attempts, hf₆.attempts, ha₅, hframe.attempts]
  · rw [hf₉.fds _ hnext, hs₈, hf₇.fds _ hnext, hf₆.fds _ hnext, hfds₅,
      Function.update_of_ne hnext, hframe.fds _ hfd.symm, hclosed]
  · have hotaClose : otaClose k fd s₃ = .ok (true, -1) s₄ := by
      unfold otaClose
      rw [bind_ok hclose]
      rfl
    have hnonneg : decide ((0 : Int) ≤ s₄.next) = true := by
      rw [decide_eq_true_eq]
      lia
    have hrecord : record ⟨0, r.2, r.1⟩ s₇ = .ok ⟨⟩ s₈ := by rw [hs₈]; rfl
    rw [List.take_zero] at hverify
    rw [attemptLoop, bind_ok hseek, bind_ok (require_true s₁), bind_ok hwrite]
    unfold otaFsync
    rw [bind_ok hsync, bind_ok (require_true s₃), bind_ok hotaClose]
    simp only
    rw [bind_ok (require_true s₄), bind_ok hopen, hnonneg, bind_ok (require_true s₅),
      bind_ok hseek', bind_ok (require_true s₆), bind_ok hverify, bind_ok hrecord,
      bind_ok hclose']

/-- **Whatever the partition holds and the medium does, the function returns `-1`** after one
attempt: the descriptor of the first attempt is closed, and both the last `ota_close` and the
first `lseek` of a second attempt are made on `-1`. -/
theorem writeToPartition_fails (hk : k.Succeeds) {data content : Bytes}
    (hsize : data.length ≤ content.length) :
    ∃ a s', writeToPartition k data (onPartition content) = .error .minusOne s' ∧
      s'.attempts = [a] ∧ Verified data s'.content (a.mismatch, a.readBack) := by
  obtain ⟨s₁, hopen, hfds, -, hcontent, hattempts⟩ := otaOpen_ok hk (onPartition content)
  have hp : s₁.fds (onPartition content).next = some 0 := by rw [hfds, Function.update_self]
  have hne : ((onPartition content).next : Int) ≠ -1 := by lia
  have hclosed : s₁.fds (-1) = none := by
    rw [hfds, Function.update_of_ne hne.symm]
    rfl
  have hfits : data.length ≤ s₁.content.length := by
    rw [hcontent]
    exact hsize
  obtain ⟨r, s₂, hr, ha, hclosed', hloop⟩ := attemptLoop_first hk (n := 1) hp hclosed hne hfits
  have hnonneg : decide ((0 : Int) ≤ (onPartition content).next) = true := by
    rw [decide_eq_true_eq]
    lia
  refine ⟨⟨0, r.2, r.1⟩, s₂, ?_, ?_, hr⟩
  · unfold writeToPartition
    rw [bind_ok hopen, hnonneg, bind_ok (require_true s₁)]
    by_cases hmatch : r.1 = data.length
    · rw [if_pos hmatch] at hloop
      rw [bind_ok hloop]
      simp only
      rw [bind_ok (require_true s₂), bind_ok (otaClose_closed hclosed')]
      exact require_false s₂
    · -- the second attempt starts with a seek on `-1`
      have hsecond : attemptLoop k data 1 (-1) r.1 s₂ = .error .minusOne s₂ := by
        unfold attemptLoop
        rw [bind_ok (lseek_closed hclosed' _)]
        exact bind_error (require_false s₂)
      rw [if_neg hmatch, hsecond] at hloop
      exact bind_error hloop
  · rw [ha, hattempts]
    rfl

/-- **No input meets the contract.** -/
theorem never_meets (hk : k.Succeeds) {data content : Bytes}
    (hsize : data.length ≤ content.length) : ¬ Meets data (outcome k data content) := by
  obtain ⟨a, s', hrun, ha, -⟩ := writeToPartition_fails hk hsize
  have hout : outcome k data content = (false, s') := by
    unfold outcome
    rw [hrun]
  rw [hout]
  intro hmeets
  by_cases hread : a.readBack = data
  · have := hmeets.returns.2 ⟨a, by rw [ha]; exact List.mem_singleton_self a, hread⟩
    cases this
  · obtain ⟨second, htwo, -⟩ := hmeets.retries a (by rw [ha]; rfl) hread
    rw [ha] at htwo
    cases htwo

/-- A medium that stores what it is given, moving all that is asked for. -/
def faithfulKernel : Kernel := ⟨fun _ => false, fun _ => 1 <<< 20, fun _ _ b => b, fun _ => 4096⟩

theorem never_meets_one_byte : ¬ Meets [1] (outcome faithfulKernel [1] [0]) :=
  never_meets (fun _ => rfl) (by decide)

/-- One byte is written and read back, and the function returns `-1`. -/
theorem written_yet_failed :
    (outcome faithfulKernel [1] [0]).1 = false ∧
    (outcome faithfulKernel [1] [0]).2.content = [1] ∧
    (outcome faithfulKernel [1] [0]).2.attempts = [⟨0, [1], 1⟩] := by
  decide +kernel


end Recovery.ApplyPatch.Emmc
