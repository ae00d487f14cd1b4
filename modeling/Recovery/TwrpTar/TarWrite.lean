import Mathlib.Algebra.Order.Ring.Int
import Mathlib.Logic.Function.Iterate
import Recovery.Lib.CString
import Recovery.Lib.Splice

/-!
# Writing archives through a buffer (`tarWrite.c`, `twrpTar.cpp`)

* `init_libtar_buffer`, `write_libtar_buffer`, `flush_libtar_buffer` — the writer with a buffer.
* `init_libtar_no_buffer`, `write_libtar_no_buffer` — the other one.
* `createTar`, `closeTar`, `writeArchives` — archives one after the other, with the same globals.
* `Filling` — what is in the buffer between two blocks; `write_filling`, `closeTar_of_eof`.
* `Faithful` — what is claimed of an archive; `archives_written` — it holds of all of them.

`none` is a write behind the end of the buffer.

libtar hands over single blocks of 512 bytes; where they go is decided by globals, which every
archive leaves to the next one.
-/

set_option autoImplicit false

namespace Recovery.TwrpTar

open Recovery.Lib

def T_BLOCKSIZE : Nat := 512

/-- `sizeof(char *)`, on the smaller machines. -/
def sizeofPointer : Nat := 4

abbrev Block := Chars T_BLOCKSIZE

/-- The globals. -/
structure TarWrite where
  flush : Bool
  eot_count : Int
  write_buffer : List UInt8
  buffer_size : Nat
  buffer_loc : Nat
  buffer_status : Nat
  prog_pipe : Int

/-- What a call does outside of the globals. -/
structure Effects where
  /-- To the file of the archive. -/
  written : List UInt8
  /-- With the pipe that a number goes to. -/
  progress : List (Int × Nat)

namespace Effects

def none : Effects := ⟨[], []⟩

def append (e e' : Effects) : Effects := ⟨e.written ++ e'.written, e.progress ++ e'.progress⟩

end Effects

namespace TarWrite

/-- When the program starts. -/
def start : TarWrite where
  flush := false
  eot_count := -1
  write_buffer := []
  buffer_size := 4096
  buffer_loc := 0
  buffer_status := 0
  prog_pipe := -1

variable (s : TarWrite)

def reinit_libtar_buffer : TarWrite :=
  { s with flush := false, eot_count := -1, buffer_loc := 0, buffer_status := 1 }

/-- `malloc n` is memory of `n` bytes, as it is found. -/
def init_libtar_buffer (malloc : (n : Nat) → Chars n) (new_buff_size : Nat) (pipe_fd : Int) :
    TarWrite :=
  let buffer_size := if new_buff_size ≠ 0 then new_buff_size else s.buffer_size
  { s.reinit_libtar_buffer with
    buffer_size := buffer_size
    write_buffer := (malloc (sizeofPointer * buffer_size)).1
    prog_pipe := pipe_fd }

def free_libtar_buffer : TarWrite := { s with buffer_status := 0, prog_pipe := -1 }

/-- The blocks of an end of archive are counted. -/
def nextEot (eot : Int) : Int := if 0 ≤ eot ∧ eot < 2 then eot + 1 else eot

/-- The first part of `write_libtar_buffer`. -/
def fill (buffer : Block) : Option TarWrite :=
  if s.buffer_loc + T_BLOCKSIZE ≤ s.write_buffer.length then
    let loc := s.buffer_loc + T_BLOCKSIZE
    let eot := nextEot s.eot_count
    some { s with
      write_buffer := splice s.write_buffer s.buffer_loc buffer.1
      buffer_loc := loc
      eot_count := eot
      flush := s.buffer_size ≤ loc ∨ 2 ≤ eot }
  else none

/-- `complete`: `write` writes everything. -/
def write_libtar_buffer (complete : Bool) (buffer : Block) : Option (Int × Effects × TarWrite) :=
  (if s.flush then some s else s.fill buffer).map fun s =>
    if s.flush then
      let s := { s with flush := false }
      if s.buffer_loc = 0 then (0, .none, s)
      else if complete then
        (T_BLOCKSIZE, ⟨s.write_buffer.take s.buffer_loc, [(s.prog_pipe, s.buffer_loc)]⟩,
          { s with buffer_loc := 0 })
      else (-1, .none, { s with buffer_loc := 0 })
    else (T_BLOCKSIZE, .none, s)

def flush_libtar_buffer : TarWrite :=
  { s with
    eot_count := 0
    buffer_status := if s.buffer_status ≠ 0 then 2 else s.buffer_status }

def init_libtar_no_buffer (pipe_fd : Int) : TarWrite :=
  { s with buffer_size := T_BLOCKSIZE, prog_pipe := pipe_fd, buffer_status := 0 }

def write_libtar_no_buffer (complete : Bool) (buffer : Block) : Option (Int × Effects × TarWrite) :=
  if complete then some (T_BLOCKSIZE, ⟨buffer.1, [(s.prog_pipe, T_BLOCKSIZE)]⟩, s)
  else some (-1, ⟨[], [(s.prog_pipe, T_BLOCKSIZE)]⟩, s)

end TarWrite

/-! ## Archives -/

/-- How `createTar` opens an archive. -/
inductive Kind where
  | uncompressed
  /-- Not compressed, to `TW_ADB_BACKUP`. -/
  | adb
  /-- Compressed or encrypted, to a pipe. -/
  | piped
deriving DecidableEq

structure Archive where
  kind : Kind
  progress_pipe_fd : Int
  blocks : List Block

/-- The blocks at its end. -/
def endOfArchive : List Block := [Chars.zeros T_BLOCKSIZE, Chars.zeros T_BLOCKSIZE]

/-- What is seen of an archive. -/
structure Output where
  effects : Effects
  /-- What the calls of `writefunc` return. -/
  returns : List Int
  /-- What `closeTar` returns. -/
  closed : Int
  /-- What is left in the buffer. -/
  buffer_loc : Nat

namespace TarWrite

variable (malloc : (n : Nat) → Chars n) (s : TarWrite)

def createTar (a : Archive) : TarWrite :=
  match a.kind with
  | .uncompressed | .adb => s.init_libtar_buffer malloc 0 a.progress_pipe_fd
  | .piped => s.init_libtar_no_buffer a.progress_pipe_fd

/-- `tar_block_write`. -/
def writefunc : Kind → TarWrite → Bool → Block → Option (Int × Effects × TarWrite)
  | .uncompressed => write_libtar_buffer
  | .adb | .piped => write_libtar_no_buffer

/-- The blocks of an archive; it ends where one is not written. -/
def writeBlocks (kind : Kind) (complete : Bool) :
    List Block → TarWrite → Option (List Int × Effects × TarWrite)
  | [], s => some ([], .none, s)
  | block :: blocks, s =>
    (writefunc kind s complete block).bind fun (r, e, s) =>
      if r ≠ T_BLOCKSIZE then some ([r], e, s)
      else (writeBlocks kind complete blocks s).map fun (rs, e', s) => (r :: rs, e.append e', s)

def tar_append_eof (kind : Kind) (complete : Bool) : Option (List Int × Effects × TarWrite) :=
  writeBlocks kind complete endOfArchive s

/-- As far as the buffer is concerned. -/
def closeTar (kind : Kind) (complete : Bool) : Option (Int × List Int × Effects × TarWrite) :=
  (tar_append_eof s.flush_libtar_buffer kind complete).map fun (rs, e, s) =>
    if ∃ r ∈ rs, r ≠ T_BLOCKSIZE then (-1, rs, e, s) else (0, rs, e, s.free_libtar_buffer)

def writeArchive (complete : Bool) (a : Archive) : Option (Output × TarWrite) :=
  (writeBlocks a.kind complete a.blocks (s.createTar malloc a)).bind fun (rs, e, s) =>
    (s.closeTar a.kind complete).map fun (closed, rs', e', s) =>
      (⟨e.append e', rs ++ rs', closed, s.buffer_loc⟩, s)

def writeArchives (complete : Bool) : List Archive → TarWrite → Option (List Output × TarWrite)
  | [], s => some ([], s)
  | a :: as, s =>
    (s.writeArchive malloc complete a).bind fun (o, s) =>
      (writeArchives complete as s).map fun (os, s) => (o :: os, s)

end TarWrite

/-! ## Effects -/

/-- The numbers that go to the pipe add up to what is written. -/
structure Effects.Reports (e : Effects) (pipe : Int) : Prop where
  sum : (e.progress.map Prod.snd).sum = e.written.length
  pipe : ∀ p ∈ e.progress, p.1 = pipe

namespace Effects

variable {pipe : Int}

theorem reports_none : Effects.none.Reports pipe := ⟨rfl, nofun⟩

theorem reports_single (data : List UInt8) : Effects.Reports ⟨data, [(pipe, data.length)]⟩ pipe :=
  ⟨by simp, by simp⟩

theorem Reports.append {e e' : Effects} (h : e.Reports pipe) (h' : e'.Reports pipe) :
    (e.append e').Reports pipe := by
  constructor
  · rw [Effects.append, List.map_append, List.sum_append, List.length_append, h.sum, h'.sum]
  · intro p hp
    exact (List.mem_append.1 hp).elim (h.pipe p) (h'.pipe p)

end Effects

/-! ## The buffer -/

/-- The buffer has `held` in it, and another block fits. -/
structure Filling (s : TarWrite) (pipe : Int) (held : List UInt8) : Prop where
  flush : s.flush = false
  pipe : s.prog_pipe = pipe
  size : T_BLOCKSIZE ≤ s.buffer_size
  length : s.write_buffer.length = sizeofPointer * s.buffer_size
  room : s.buffer_loc < s.buffer_size
  loc : s.buffer_loc = held.length
  held : s.write_buffer.take s.buffer_loc = held

namespace TarWrite

variable {s : TarWrite} {pipe : Int} {held : List UInt8}

/-- A block is held, or it is written with all that is held. -/
theorem write_filling (h : Filling s pipe held) (block : Block) :
    ∃ e s' held', s.write_libtar_buffer true block = some ((T_BLOCKSIZE : Int), e, s') ∧
      Filling s' pipe held' ∧ e.Reports pipe ∧ e.written ++ held' = held ++ block.1 ∧
      s'.eot_count = nextEot s.eot_count ∧ (2 ≤ nextEot s.eot_count → held' = []) := by
  have hfits : s.buffer_loc + T_BLOCKSIZE ≤ s.write_buffer.length := by
    have := h.length
    have := h.room
    have := h.size
    simp only [sizeofPointer] at *
    lia
  have hsplice : s.buffer_loc + block.1.length ≤ s.write_buffer.length := by rwa [block.2]
  have hlength : (splice s.write_buffer s.buffer_loc block.1).length = sizeofPointer * s.buffer_size :=
    (length_splice hsplice).trans h.length
  have htake : (splice s.write_buffer s.buffer_loc block.1).take (s.buffer_loc + T_BLOCKSIZE) =
      held ++ block.1 := by
    rw [splice, h.held, List.take_append_of_le_length, List.take_of_length_le]
    · rw [List.length_append, block.2, h.loc]
    · rw [List.length_append, block.2, h.loc]
  have hloc : s.buffer_loc + T_BLOCKSIZE = (held ++ block.1).length := by
    rw [List.length_append, block.2, h.loc]
  unfold write_libtar_buffer fill
  rw [h.flush, if_neg Bool.false_ne_true, if_pos hfits, Option.map_some]
  by_cases hflush : s.buffer_size ≤ s.buffer_loc + T_BLOCKSIZE ∨ 2 ≤ nextEot s.eot_count
  · have hpos : s.buffer_loc + T_BLOCKSIZE ≠ 0 := by simp [T_BLOCKSIZE]
    simp only [hflush, decide_true, if_true, if_neg hpos, htake, h.pipe]
    refine ⟨_, _, [], rfl, ?_, ?_, List.append_nil _, rfl, fun _ => rfl⟩
    · exact ⟨rfl, rfl, h.size, hlength, Nat.zero_lt_of_lt h.room, rfl, rfl⟩
    · rw [hloc]
      exact Effects.reports_single _
  · simp only [hflush, decide_false, if_false, Bool.false_eq_true]
    refine ⟨_, _, held ++ block.1, rfl, ?_, Effects.reports_none, rfl, rfl, fun heot => ?_⟩
    · exact ⟨rfl, h.pipe, h.size, hlength, Nat.lt_of_not_le fun hle => hflush (.inl hle), hloc, htake⟩
    · exact absurd (.inr heot) hflush

/-- The loop over the blocks of an archive. -/
theorem writeBlocks_filling (h : Filling s pipe held) (blocks : List Block) :
    ∃ e s' held', writeBlocks .uncompressed true blocks s =
        some (List.replicate blocks.length (T_BLOCKSIZE : Int), e, s') ∧
      Filling s' pipe held' ∧ e.Reports pipe ∧
      e.written ++ held' = held ++ (blocks.map Subtype.val).flatten ∧
      s'.eot_count = nextEot^[blocks.length] s.eot_count ∧
      (blocks ≠ [] → 2 ≤ s'.eot_count → held' = []) := by
  induction blocks generalizing s held with
  | nil =>
    exact ⟨_, s, held, rfl, h, Effects.reports_none, (List.append_nil held).symm, rfl,
      fun hne => absurd rfl hne⟩
  | cons block blocks ih =>
    obtain ⟨e, s₁, held₁, hwrite, hfill, hreports, hwritten, heot, hend⟩ := write_filling h block
    obtain ⟨e', s', held', hrest, hfill', hreports', hwritten', heot', hend'⟩ := ih hfill
    refine ⟨e.append e', s', held', ?_, hfill', hreports.append hreports', ?_, ?_, fun _ h2 => ?_⟩
    · rw [writeBlocks, writefunc, hwrite, Option.bind_some]
      dsimp only
      rw [if_neg (fun hne => hne rfl), hrest]
      rfl
    · rw [Effects.append, List.append_assoc, hwritten', ← List.append_assoc, hwritten]
      simp
    · rw [heot', heot]
      rfl
    · cases blocks with
      | nil =>
        cases hrest
        rw [heot] at h2
        rw [hend h2] at hwritten'
        exact (List.append_eq_nil_iff.1 hwritten').2
      | cons next blocks => exact hend' (List.cons_ne_nil _ _) h2

/-- Blocks that are not buffered. -/
theorem writeBlocks_no_buffer {kind : Kind} (hkind : kind ≠ .uncompressed) (blocks : List Block) :
    ∃ e, writeBlocks kind true blocks s =
        some (List.replicate blocks.length (T_BLOCKSIZE : Int), e, s) ∧
      e.Reports s.prog_pipe ∧ e.written = (blocks.map Subtype.val).flatten := by
  induction blocks with
  | nil => exact ⟨_, rfl, Effects.reports_none, rfl⟩
  | cons block blocks ih =>
    obtain ⟨e, hrest, hreports, hwritten⟩ := ih
    have hwrite : writefunc kind s true block =
        some ((T_BLOCKSIZE : Int), ⟨block.1, [(s.prog_pipe, block.1.length)]⟩, s) := by
      rw [block.2]
      cases kind with
      | uncompressed => exact absurd rfl hkind
      | adb => rfl
      | piped => rfl
    refine ⟨_, ?_, (Effects.reports_single block.1).append hreports, ?_⟩
    · rw [writeBlocks, hwrite, Option.bind_some]
      dsimp only
      rw [if_neg (fun hne => hne rfl), hrest]
      rfl
    · rw [Effects.append, hwritten]
      rfl

end TarWrite

/-! ## Runs -/

/-- The file of an archive: its blocks, and two blocks of zeros. -/
def Archive.content (a : Archive) : List UInt8 :=
  ((a.blocks ++ endOfArchive).map Subtype.val).flatten

/-- The archive is written as it is, and nothing is left. -/
structure Faithful (a : Archive) (o : Output) : Prop where
  content : o.effects.written = a.content
  returns : o.returns = List.replicate (a.blocks.length + 2) (T_BLOCKSIZE : Int)
  reports : o.effects.Reports a.progress_pipe_fd
  closed : o.closed = 0
  left : o.buffer_loc = 0

namespace TarWrite

variable {s : TarWrite}

/-- Between two archives. -/
structure Ready (s : TarWrite) : Prop where
  size : T_BLOCKSIZE ≤ s.buffer_size
  left : s.buffer_loc = 0

theorem ready_start : Ready start := ⟨by decide, rfl⟩

/-- The end of an archive is two blocks like others. -/
theorem closeTar_of_eof {kind : Kind} {e : Effects} {s' : TarWrite}
    (h : writeBlocks kind true endOfArchive
      s.flush_libtar_buffer = some (List.replicate 2 (T_BLOCKSIZE : Int), e, s')) :
    s.closeTar kind true =
      some (0, List.replicate 2 (T_BLOCKSIZE : Int), e, s'.free_libtar_buffer) := by
  rw [closeTar, tar_append_eof, h, Option.map_some]
  have hall : ¬ ∃ r ∈ List.replicate 2 (T_BLOCKSIZE : Int), r ≠ T_BLOCKSIZE := by decide
  simp only [if_neg hall]

theorem filling_init {malloc : (n : Nat) → Chars n} (h : s.Ready) (pipe : Int) :
    Filling (s.init_libtar_buffer malloc 0 pipe) pipe [] :=
  ⟨rfl, rfl, h.size, (malloc _).2, Nat.lt_of_lt_of_le (Nat.succ_pos 511) h.size, rfl, rfl⟩

/-- Blocks, and what is written at the end. -/
theorem written_of_blocks {malloc : (n : Nat) → Chars n} {a : Archive} (e e' : Effects)
    (s₁ s₂ : TarWrite)
    (hblocks : writeBlocks a.kind true a.blocks (s.createTar malloc a) =
      some (List.replicate a.blocks.length (T_BLOCKSIZE : Int), e, s₁))
    (heof : writeBlocks a.kind true endOfArchive
      s₁.flush_libtar_buffer = some (List.replicate 2 (T_BLOCKSIZE : Int), e', s₂))
    (hcontent : e.written ++ e'.written = a.content) (he : e.Reports a.progress_pipe_fd)
    (he' : e'.Reports a.progress_pipe_fd) (hs : s₂.Ready) :
    ∃ o s', s.writeArchive malloc true a = some (o, s') ∧ Faithful a o ∧ s'.Ready := by
  refine ⟨⟨e.append e', List.replicate (a.blocks.length + 2) (T_BLOCKSIZE : Int), 0, s₂.buffer_loc⟩,
    s₂.free_libtar_buffer, ?_, ⟨hcontent, rfl, he.append he', rfl, hs.left⟩, hs.size, hs.left⟩
  rw [writeArchive, hblocks, Option.bind_some]
  dsimp only
  rw [closeTar_of_eof heof, Option.map_some]
  simp only [List.replicate_append_replicate]
  rfl

theorem writeArchive_buffered {malloc : (n : Nat) → Chars n} (h : s.Ready) {a : Archive}
    (hkind : a.kind = .uncompressed) :
    ∃ o s', s.writeArchive malloc true a = some (o, s') ∧ Faithful a o ∧ s'.Ready := by
  have hopen : s.createTar malloc a = s.init_libtar_buffer malloc 0 a.progress_pipe_fd := by
    rw [createTar, hkind]
  obtain ⟨e, s₁, held, hblocks, hfill, hreports, hwritten, -, -⟩ :=
    writeBlocks_filling (filling_init h a.progress_pipe_fd) a.blocks
  have harmed : Filling s₁.flush_libtar_buffer a.progress_pipe_fd held :=
    ⟨hfill.flush, hfill.pipe, hfill.size, hfill.length, hfill.room, hfill.loc, hfill.held⟩
  obtain ⟨e', s₂, held', heof, hfill', hreports', hwritten', heot, hend⟩ :=
    writeBlocks_filling harmed endOfArchive
  have hnone : held' = [] := by
    apply hend (List.cons_ne_nil _ _)
    rw [heot]
    exact (by decide : (2 : Int) ≤ nextEot (nextEot 0))
  rw [hnone, List.append_nil] at hwritten'
  rw [List.nil_append] at hwritten
  refine written_of_blocks e e' s₁ s₂ ?_ ?_ ?_ hreports hreports' ?_
  · rw [hopen, hkind]
    exact hblocks
  · rw [hkind]
    exact heof
  · rw [hwritten', ← List.append_assoc, hwritten, Archive.content, List.map_append,
      List.flatten_append]
  · exact ⟨hfill'.size, by rw [hfill'.loc, hnone]; rfl⟩

theorem writeArchive_no_buffer {malloc : (n : Nat) → Chars n} (h : s.Ready) {a : Archive}
    (hkind : a.kind ≠ .uncompressed) :
    ∃ o s', s.writeArchive malloc true a = some (o, s') ∧ Faithful a o ∧ s'.Ready := by
  have hopen : (s.createTar malloc a).Ready ∧
      (s.createTar malloc a).prog_pipe = a.progress_pipe_fd := by
    unfold createTar
    split
    · exact ⟨⟨h.size, rfl⟩, rfl⟩
    · exact ⟨⟨h.size, rfl⟩, rfl⟩
    · exact ⟨⟨Nat.le_refl _, h.left⟩, rfl⟩
  obtain ⟨e, hblocks, hreports, hwritten⟩ :=
    writeBlocks_no_buffer (s := s.createTar malloc a) hkind a.blocks
  obtain ⟨e', heof, hreports', hwritten'⟩ :=
    writeBlocks_no_buffer (s := (s.createTar malloc a).flush_libtar_buffer) hkind
      endOfArchive
  rw [hopen.2] at hreports
  refine written_of_blocks _ _ _ _ hblocks heof ?_ hreports ?_ ⟨hopen.1.size, hopen.1.left⟩
  · rw [hwritten, hwritten', Archive.content, List.map_append, List.flatten_append]
  · rw [← hopen.2]
    exact hreports'

theorem writeArchive_written (malloc : (n : Nat) → Chars n) (h : s.Ready) (a : Archive) :
    ∃ o s', s.writeArchive malloc true a = some (o, s') ∧ Faithful a o ∧ s'.Ready := by
  by_cases hkind : a.kind = .uncompressed
  · exact writeArchive_buffered h hkind
  · exact writeArchive_no_buffer h hkind

/-- **Every archive** of a run is written as it is, whether the writer has a buffer or not. -/
theorem archives_written (malloc : (n : Nat) → Chars n) (archives : List Archive) :
    ∃ outputs s, writeArchives malloc true archives start = some (outputs, s) ∧
      List.Forall₂ Faithful archives outputs := by
  suffices h : ∀ s, Ready s → ∃ outputs s', writeArchives malloc true archives s =
      some (outputs, s') ∧ List.Forall₂ Faithful archives outputs from h start ready_start
  induction archives with
  | nil => exact fun s _ => ⟨[], s, rfl, .nil⟩
  | cons a archives ih =>
    intro s hs
    obtain ⟨o, s₁, hwrite, hwritten, hready⟩ := writeArchive_written malloc hs a
    obtain ⟨outputs, s', hrest, hall⟩ := ih s₁ hready
    refine ⟨o :: outputs, s', ?_, .cons hwritten hall⟩
    rw [writeArchives, hwrite, Option.bind_some]
    dsimp only
    rw [hrest]
    rfl

end TarWrite

end Recovery.TwrpTar
