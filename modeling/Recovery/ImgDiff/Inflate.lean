import Recovery.Lib.Access
import Recovery.Lib.LittleEndian
import Recovery.Lib.Loop
import Recovery.Lib.Splice

/-!
# The inflate loop of `imgdiff`

`ImageModeImage::Initialize` (`applypatch/imgdiff.cpp`) inflates what follows a gzip header in order
to find out where it ends.  zlib is not part of the repository.

* `Zlib` — `inflateInit2` and `inflate` on a raw stream; `Zlib.Lawful` is what its manual says of
  them, for a given meaning `inflation` of raw deflate streams.
* `inflateRound`, `inflateAll` — the loop around `inflate`, with its growing buffer.  After an error the
  caller prints `strm.msg`, so the loop also leaves behind whether that is a text: zlib sets it for data
  that is no stream (`Z_DATA_ERROR`), and it stays null when the input ends within a stream
  (`Z_BUF_ERROR`).
* `inflateAll_spec` — it ends; when it does so without an error, what it has read is a whole stream
  and the buffer holds its content, unless that content has 4 GiB or more.
* `storedZlib` — a decoder of stored blocks, which is lawful.

`avail_in` and `avail_out` have 32 bits.  Failing allocations are left out.
-/

set_option autoImplicit false

namespace Recovery.ImgDiff

open Recovery.Lib

def Z_OK : Int := 0
def Z_STREAM_END : Int := 1

/-- What a call of `inflate` leaves behind. -/
structure InflateCall (σ : Type) where
  ret : Int
  /-- `strm.msg` is not `Z_NULL`. -/
  msg : Bool
  strm : σ
  consumed : Nat
  output : List UInt8

structure Zlib (σ : Type) where
  /-- `inflateInit2(&strm, -15)`. -/
  inflateInit2 : Option σ
  /-- `inflate(&strm, Z_NO_FLUSH)` with the available input and the size of the output buffer. -/
  inflate : σ → List UInt8 → Nat → InflateCall σ

variable {σ : Type}

/-- The stream has taken `past` and made `out` of it, and there is more to come. -/
inductive Zlib.Reaches (Z : Zlib σ) : σ → List UInt8 → List UInt8 → Prop where
  | init {s : σ} : Z.inflateInit2 = some s → Reaches Z s [] []
  | call {s : σ} {past out : List UInt8} (data : List UInt8) (availOut : Nat) :
      Reaches Z s past out → (Z.inflate s data availOut).ret = Z_OK →
      Reaches Z (Z.inflate s data availOut).strm
        (past ++ data.take (Z.inflate s data availOut).consumed)
        (out ++ (Z.inflate s data availOut).output)

/-- The manual of zlib, for the content `inflation` of raw deflate streams. -/
structure Zlib.Lawful (Z : Zlib σ) (inflation : List UInt8 → Option (List UInt8)) : Prop where
  consumed_le : ∀ s data availOut, (Z.inflate s data availOut).consumed ≤ data.length
  output_le : ∀ s data availOut, (Z.inflate s data availOut).output.length ≤ availOut
  /-- Without a preset dictionary nothing else is returned. -/
  ret : ∀ s data availOut, (Z.inflate s data availOut).ret < 0 ∨
    (Z.inflate s data availOut).ret = Z_OK ∨ (Z.inflate s data availOut).ret = Z_STREAM_END
  /-- `Z_OK` is for progress, `Z_BUF_ERROR` for none. -/
  progress : ∀ s data availOut, (Z.inflate s data availOut).ret = Z_OK →
    0 < (Z.inflate s data availOut).consumed ∨ (Z.inflate s data availOut).output ≠ []
  /-- Two bits stand for 258 bytes at most. -/
  ratio : ∀ s past out, Z.Reaches s past out → out.length ≤ 1032 * past.length
  streamEnd : ∀ s past out data availOut, Z.Reaches s past out →
    (Z.inflate s data availOut).ret = Z_STREAM_END →
    inflation (past ++ data.take (Z.inflate s data availOut).consumed) =
      some (out ++ (Z.inflate s data availOut).output)
  /-- A stream tells its own end. -/
  prefixFree : ∀ bytes more content content', inflation bytes = some content →
    inflation (bytes ++ more) = some content' → more = []
  nonempty : inflation [] = none

def BUFFER_SIZE : Nat := 0x8000

/-- The variables of the loop; `data` is the buffer up to `uncompressed_len`. -/
structure InflateState (σ : Type) where
  strm : σ
  input : List UInt8
  allocated : Nat
  data : List UInt8

/-- What the loop leaves behind: the last return value, whether there is a message, the input not
taken, and the buffer. -/
structure Inflated where
  ret : Int
  msg : Bool
  input : List UInt8
  data : List UInt8

variable (Z : Zlib σ)

def inflateRound (st : InflateState σ) : InflateState σ ⊕ Inflated :=
  let availOut := (st.allocated - st.data.length) % 2 ^ 32
  let call := Z.inflate st.strm st.input availOut
  let input := st.input.drop call.consumed
  if call.ret < 0 then .inr ⟨call.ret, call.msg, input, st.data⟩
  else
    let left := availOut - call.output.length
    let uncompressedLen := st.allocated - left
    let written := st.data ++ call.output
    let data := written ++ List.replicate (uncompressedLen - written.length) 0
    if call.ret = Z_STREAM_END then .inr ⟨call.ret, call.msg, input, data⟩
    else .inl ⟨call.strm, input, if left = 0 then st.allocated * 2 else st.allocated, data⟩

/-- The loop on the whole input.  Every round but the last takes or makes a byte. -/
def inflateAll (strm : σ) (input : List UInt8) : Option Inflated :=
  loop (inflateRound Z) (1033 * input.length + 1) ⟨strm, input, BUFFER_SIZE, []⟩

variable {Z} {inflation : List UInt8 → Option (List UInt8)}

/-- The state of the loop on `input`, with `m` bytes still to be taken or made: the stream has made
`out` of what is no longer in front of it, and that is in the buffer as long as the buffer has
fewer than 4 GiB. -/
def InflateInv (Z : Zlib σ) (input : List UInt8) (m : Nat) (st : InflateState σ) : Prop :=
  ∃ past out, Z.Reaches st.strm past out ∧ input = past ++ st.input ∧
    m + past.length + out.length = 1033 * input.length ∧
    st.data.length ≤ st.allocated ∧
    st.allocated - st.data.length ≤ max st.data.length BUFFER_SIZE ∧
    (st.data.length < 2 ^ 32 → st.data = out)

/-- The buffer after a call. -/
theorem written_data {allocated : Nat} {data output : List UInt8}
    (hle : data.length ≤ allocated)
    (hout : output.length ≤ (allocated - data.length) % 2 ^ 32) :
    let len := allocated - ((allocated - data.length) % 2 ^ 32 - output.length)
    let written := data ++ output ++ List.replicate (len - (data ++ output).length) 0
    written.length = len ∧ data.length ≤ len ∧ len ≤ allocated ∧
      (allocated - data.length < 2 ^ 32 → written = data ++ output) := by
  have hmod := Nat.mod_le (allocated - data.length) (2 ^ 32)
  simp only [List.length_append, List.length_replicate]
  refine ⟨by omega, by omega, by omega, ?_⟩
  intro hlt
  rw [Nat.mod_eq_of_lt hlt] at hout ⊢
  rw [show allocated - (allocated - data.length - output.length) - (data.length + output.length) = 0
    by omega, List.replicate_zero, List.append_nil]

theorem inflateRound_inv (hZ : Z.Lawful inflation) {input : List UInt8} {m : Nat}
    {st st' : InflateState σ} (h : InflateInv Z input m st) (hr : inflateRound Z st = .inl st') :
    ∃ m' < m, InflateInv Z input m' st' := by
  obtain ⟨past, out, hreach, hinput, hm, hle, halloc, hdata⟩ := h
  unfold inflateRound at hr
  dsimp only at hr
  split at hr
  · cases hr
  · rename_i hneg
    split at hr
    · cases hr
    · rename_i hend
      cases hr
      have hret : (Z.inflate st.strm st.input
          ((st.allocated - st.data.length) % 2 ^ 32)).ret = Z_OK := by
        rcases hZ.ret st.strm st.input ((st.allocated - st.data.length) % 2 ^ 32) with h | h | h
        · exact absurd h hneg
        · exact h
        · exact absurd h hend
      have hnext := Zlib.Reaches.call st.input ((st.allocated - st.data.length) % 2 ^ 32) hreach hret
      have hratio := hZ.ratio _ _ _ hnext
      have hcons := hZ.consumed_le st.strm st.input ((st.allocated - st.data.length) % 2 ^ 32)
      have hout := hZ.output_le st.strm st.input ((st.allocated - st.data.length) % 2 ^ 32)
      have hprog := hZ.progress st.strm st.input ((st.allocated - st.data.length) % 2 ^ 32) hret
      obtain ⟨hlen, hmono, hfit, hexact⟩ := written_data hle hout
      generalize Z.inflate st.strm st.input ((st.allocated - st.data.length) % 2 ^ 32) = call at *
      generalize hL :
        st.allocated - ((st.allocated - st.data.length) % 2 ^ 32 - call.output.length) = len at *
      have hpast : (past ++ st.input.take call.consumed).length = past.length + call.consumed := by
        rw [List.length_append, List.length_take, Nat.min_eq_left hcons]
      have hsize : input.length = past.length + st.input.length := by
        rw [hinput, List.length_append]
      rw [hpast, List.length_append] at hratio
      have hstep : 0 < call.consumed + call.output.length := by
        rcases hprog with h | h
        · omega
        · have := List.length_pos_iff.2 h
          omega
      refine ⟨m - (call.consumed + call.output.length), by omega, _, _, hnext, ?_, ?_, ?_, ?_, ?_⟩
      · rw [List.append_assoc, List.take_append_drop, hinput]
      · rw [hpast, List.length_append]
        omega
      · dsimp only
        split <;> omega
      · dsimp only
        rw [hlen]
        split <;> omega
      · intro hlt
        dsimp only at hlt ⊢
        have hB : BUFFER_SIZE = 32768 := rfl
        rw [hexact (by omega), hdata (by omega)]

/-- What the end of the loop says. -/
def InflateEnd (inflation : List UInt8 → Option (List UInt8)) (input : List UInt8) (r : Inflated) :
    Prop :=
  ∃ past, input = past ++ r.input ∧
    (0 ≤ r.ret → r.data.length < 2 ^ 32 → inflation past = some r.data)

theorem inflateRound_end (hZ : Z.Lawful inflation) {input : List UInt8} {m : Nat}
    {st : InflateState σ} {r : Inflated} (h : InflateInv Z input m st)
    (hr : inflateRound Z st = .inr r) : InflateEnd inflation input r := by
  obtain ⟨past, out, hreach, hinput, hm, hle, halloc, hdata⟩ := h
  have hout := hZ.output_le st.strm st.input ((st.allocated - st.data.length) % 2 ^ 32)
  have hstream := hZ.streamEnd _ _ _ st.input ((st.allocated - st.data.length) % 2 ^ 32) hreach
  obtain ⟨hlen, hmono, hfit, hexact⟩ := written_data hle hout
  have hpast : input =
      past ++ st.input.take (Z.inflate st.strm st.input
        ((st.allocated - st.data.length) % 2 ^ 32)).consumed ++
      st.input.drop (Z.inflate st.strm st.input
        ((st.allocated - st.data.length) % 2 ^ 32)).consumed := by
    rw [List.append_assoc, List.take_append_drop, hinput]
  unfold inflateRound at hr
  dsimp only at hr
  split at hr
  · rename_i hneg
    cases hr
    refine ⟨_, hpast, ?_⟩
    intro hpos
    exact absurd hneg (Int.not_lt.2 hpos)
  · split at hr
    · rename_i hend
      cases hr
      refine ⟨_, hpast, ?_⟩
      intro _ hlt
      dsimp only at hlt ⊢
      have hB : BUFFER_SIZE = 32768 := rfl
      rw [hstream hend, hexact (by omega), hdata (by omega)]
    · cases hr

/-- **The loop ends**, with a whole stream and its content when there is no error. -/
theorem inflateAll_spec (hZ : Z.Lawful inflation) {strm : σ} (hinit : Z.inflateInit2 = some strm)
    (input : List UInt8) :
    ∃ r, inflateAll Z strm input = some r ∧ InflateEnd inflation input r := by
  have hstart : InflateInv Z input (1033 * input.length) ⟨strm, input, BUFFER_SIZE, []⟩ := by
    refine ⟨[], [], .init hinit, rfl, ?_, Nat.zero_le _, ?_, fun _ => rfl⟩
    · simp
    · exact Nat.le_max_right _ _
  exact loop_bounded (I := InflateInv Z input) (fun _ _ _ => inflateRound_inv hZ)
    (fun _ _ _ => inflateRound_end hZ) hstart (Nat.lt_succ_self _)

/-! ## Stored blocks -/

/-- The content and the size of a final stored block at the start of the input. -/
def storedBlock : List UInt8 → Option (List UInt8 × Nat)
  | 1 :: a :: b :: c :: d :: rest =>
    let len := a.toNat + 256 * b.toNat
    if c = ~~~a ∧ d = ~~~b ∧ len ≤ rest.length then some (rest.take len, 5 + len) else none
  | _ => none

/-- The input ends within a stored block. -/
def storedCut : List UInt8 → Bool
  | [] => true
  | 1 :: a :: b :: c :: d :: _ => c = ~~~a && d = ~~~b
  | 1 :: _ => true
  | _ => false

/-- `inflate` on streams that are one stored block; a block that is cut off is `Z_BUF_ERROR` without a
message, other streams are `Z_DATA_ERROR` with one. -/
def storedZlib : Zlib Unit where
  inflateInit2 := some ()
  inflate _ data availOut :=
    match storedBlock data with
    | some (content, n) =>
      if content.length ≤ availOut then ⟨Z_STREAM_END, false, (), n, content⟩
      else ⟨-5, false, (), 0, []⟩
    | none => if storedCut data then ⟨-5, false, (), 0, []⟩ else ⟨-3, true, (), 0, []⟩

def storedInflation (bytes : List UInt8) : Option (List UInt8) :=
  match storedBlock bytes with
  | some (content, n) => if n = bytes.length then some content else none
  | none => none

/-- A block does not depend on what follows it. -/
theorem storedBlock_take {data content : List UInt8} {n : Nat}
    (h : storedBlock data = some (content, n)) (more : List UInt8) :
    n ≤ data.length ∧ content.length ≤ n ∧
      storedBlock (data.take n ++ more) = some (content, n) := by
  unfold storedBlock at h
  split at h
  · rename_i a b c d rest
    dsimp only at h
    split at h
    · rename_i hc
      cases h
      obtain ⟨hc, hd, hlen⟩ := hc
      have htake : (1 :: a :: b :: c :: d :: rest).take (5 + (a.toNat + 256 * b.toNat)) =
          1 :: a :: b :: c :: d :: rest.take (a.toNat + 256 * b.toNat) := by
        rw [Nat.add_comm]
        rfl
      refine ⟨by simp only [List.length_cons]; lia, by simp only [List.length_take]; lia, ?_⟩
      rw [htake]
      simp only [List.cons_append, storedBlock]
      rw [if_pos ⟨hc, hd, by simp only [List.length_append, List.length_take]; lia⟩,
        List.take_append_of_le_length (by simp only [List.length_take]; lia), List.take_take,
        Nat.min_self]
    · cases h
  · cases h

/-- What a call returns is an error, without progress, or the end of a block. -/
theorem storedZlib_cases (s : Unit) (data : List UInt8) (availOut : Nat) :
    ((storedZlib.inflate s data availOut).ret < 0 ∧
      (storedZlib.inflate s data availOut).consumed = 0 ∧
      (storedZlib.inflate s data availOut).output = []) ∨
    ∃ content n, storedBlock data = some (content, n) ∧ content.length ≤ availOut ∧
      storedZlib.inflate s data availOut = ⟨Z_STREAM_END, false, (), n, content⟩ := by
  simp only [storedZlib]
  split
  · rename_i content n hblock
    split
    · rename_i hfit
      exact .inr ⟨content, n, hblock, hfit, rfl⟩
    · exact .inl ⟨by decide, rfl, rfl⟩
  · split
    · exact .inl ⟨by decide, rfl, rfl⟩
    · exact .inl ⟨by decide, rfl, rfl⟩

theorem storedZlib_reaches {s : Unit} {past out : List UInt8} (h : storedZlib.Reaches s past out) :
    past = [] ∧ out = [] := by
  cases h with
  | init => exact ⟨rfl, rfl⟩
  | @call s _ _ data availOut _ hret =>
    rcases storedZlib_cases s data availOut with ⟨hneg, -⟩ | ⟨_, _, -, -, hcall⟩
    · rw [hret] at hneg
      exact absurd hneg (by decide)
    · rw [hcall] at hret
      cases hret

theorem storedZlib_lawful : storedZlib.Lawful storedInflation where
  consumed_le s data availOut := by
    rcases storedZlib_cases s data availOut with ⟨-, hzero, -⟩ | ⟨_, _, hblock, -, hcall⟩
    · rw [hzero]
      exact Nat.zero_le _
    · rw [hcall]
      exact (storedBlock_take hblock []).1
  output_le s data availOut := by
    rcases storedZlib_cases s data availOut with ⟨-, -, hnil⟩ | ⟨_, _, -, hfit, hcall⟩
    · rw [hnil]
      exact Nat.zero_le _
    · rw [hcall]
      exact hfit
  ret s data availOut := by
    rcases storedZlib_cases s data availOut with ⟨hneg, -⟩ | ⟨_, _, -, -, hcall⟩
    · exact .inl hneg
    · rw [hcall]
      exact .inr (.inr rfl)
  progress s data availOut h := by
    rcases storedZlib_cases s data availOut with ⟨hneg, -⟩ | ⟨_, _, -, -, hcall⟩
    · rw [h] at hneg
      exact absurd hneg (by decide)
    · rw [hcall] at h
      cases h
  ratio s past out h := by
    obtain ⟨rfl, rfl⟩ := storedZlib_reaches h
    exact Nat.zero_le _
  streamEnd s past out data availOut h hret := by
    obtain ⟨rfl, rfl⟩ := storedZlib_reaches h
    rcases storedZlib_cases s data availOut with ⟨hneg, -⟩ | ⟨content, n, hblock, -, hcall⟩
    · rw [hret] at hneg
      exact absurd hneg (by decide)
    · obtain ⟨hn, -, htake⟩ := storedBlock_take hblock []
      rw [List.append_nil] at htake
      rw [hcall]
      simp only [List.nil_append, storedInflation, htake, List.length_take]
      rw [Nat.min_eq_left hn, if_pos rfl]
  prefixFree bytes more content content' h h' := by
    unfold storedInflation at h h'
    split at h
    · rename_i content₁ n hblock
      split at h
      · rename_i hn
        subst hn
        obtain ⟨-, -, hmore⟩ := storedBlock_take hblock more
        rw [List.take_length] at hmore
        rw [hmore] at h'
        dsimp only at h'
        split at h'
        · rename_i hlen
          rw [List.length_append] at hlen
          exact List.length_eq_zero_iff.1 (by lia)
        · cases h'
      · cases h
    · cases h
  nonempty := rfl

end Recovery.ImgDiff
