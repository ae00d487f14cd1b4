import Mathlib.Data.String.Basic
import Recovery.ApplyPatch.ApplyPatch
import Recovery.Lib.Splice

/-!
# Loading the contents of a partition (`LoadPartitionContents` of `applypatch/applypatch.cpp`)

The loop of the source as it is, with one buffer, one running hash and the reads of a stream.  (The
model of `applypatch` as a whole has a `loadPartitionContents` of its own, in which a read is a fate and
the prefixes are compared without a buffer.)

* `vectorFits` — the buffer for the largest size is allocated before the first read, and the exception
  of an allocation that fails leaves the call.
* `Reading.Holds` — the invariant: the buffer and the hash are those of what has been read.
* `tryPairs_spec` — the loop stops at the smallest listed size whose prefix has its hash.
* `loadPartition_spec` — the call, for every file name that lists such pairs.
* `not_loaded` — a size of 0, and a size that no vector has, beside one that matches.
-/

set_option autoImplicit false

namespace Recovery.ApplyPatch

open Recovery.Lib Recovery.OtaUtil

/-- `SHA1_Init`, `SHA1_Update` and `SHA1_Final`. -/
structure Sha1 where
  Ctx : Type
  init : Ctx
  update : Ctx → Bytes → Ctx
  final : Ctx → Bytes

/-- The hash of some data may be computed piece by piece. -/
structure Sha1.Streams (A : Sha1) (sha1 : Bytes → Bytes) : Prop where
  update_append : ∀ c a b, A.update (A.update c a) b = A.update c (a ++ b)
  final_update : ∀ data, A.final (A.update A.init data) = sha1 data

/-- An open partition: its content, and how much `ota_fread` delivers of the `n` bytes from a
position on.  An error makes that less than there is. -/
structure Stream where
  content : Bytes
  fread : Nat → Nat → Nat
  fread_le : ∀ pos n, fread pos n ≤ n ∧ fread pos n ≤ content.length - pos

/-- Every read delivers what there is. -/
def Stream.Works (dev : Stream) : Prop :=
  ∀ pos n, n ≤ dev.content.length - pos → dev.fread pos n = n

/-- `sha_ctx`, `buffer` and `buffer_size`. -/
structure Reading (A : Sha1) where
  ctx : A.Ctx
  buffer : Bytes
  bufferSize : Nat

section Code

variable (E : Env) (A : Sha1)

/-- The read of the loop; `none` is a short one. -/
def readUpTo (dev : Stream) (currentSize : Nat) (r : Reading A) : Option (Reading A) :=
  -- of type `size_t`
  let next := if r.bufferSize ≤ currentSize then currentSize - r.bufferSize
    else currentSize + 2 ^ 64 - r.bufferSize
  if next > 0 then
    let read := dev.fread r.bufferSize next
    if next ≠ read then none
    else
      let bytes := slice dev.content r.bufferSize read
      some
        { ctx := A.update r.ctx bytes
          buffer := splice r.buffer r.bufferSize bytes
          bufferSize := r.bufferSize + read }
  else some r

/-- The loop over the sorted pairs; `none` is a return value of `-1`. -/
def tryPairs (dev : Stream) : List (Nat × String) → Reading A → Option (Reading A)
  | [], _ => none
  | (currentSize, currentSha1) :: pairs, r =>
    match readUpTo A dev currentSize r with
    | none => none
    | some r =>
      let shaSoFar := A.final r.ctx
      match parseSha1 currentSha1 with
      | none => none
      | some parsedSha => if shaSoFar = parsedSha then some r else tryPairs dev pairs r

/-- The size of the last pair. -/
def largest (pairs : List (Nat × String)) : Nat := (pairs.getLast?.map Prod.fst).getD 0

/-- `std::vector<unsigned char>(n)` does not throw: a vector has less than `2 ^ 63` bytes
(`std::length_error`), and the memory is there (`std::bad_alloc`). -/
def vectorFits (allocates : Nat → Bool) (n : Nat) : Bool := n < 2 ^ 63 && allocates n

/-- `LoadPartitionContents`: the return value, `none` where an exception leaves it, and what it leaves in
`*file`. -/
def loadPartition (fopen : String → Option Stream) (allocates : Nat → Bool) (filename : String)
    (file : FileContents) : Option Int × FileContents :=
  match partitionName E filename with
  | none => (some (-1), file)
  | some (partition, pairs) =>
    match fopen partition with
    | none => (some (-1), file)
    | some dev =>
      if ¬ vectorFits allocates (largest pairs) then (none, file)
      else
        match tryPairs A dev pairs ⟨A.init, List.replicate (largest pairs) 0, 0⟩ with
        | none => (some (-1), file)
        | some r => (some 0, { sha1 := A.final r.ctx, data := r.buffer.take r.bufferSize })

end Code

/-! ## What has been read -/

variable {E : Env} {A : Sha1} {dev : Stream}

/-- The first `bufferSize` bytes of the partition are in the buffer, and the hash is that of them. -/
structure Reading.Holds (content : Bytes) (size : Nat) (r : Reading A) : Prop where
  length : r.buffer.length = size
  le : r.bufferSize ≤ content.length
  buffer : r.buffer.take r.bufferSize = content.take r.bufferSize
  ctx : r.ctx = if r.bufferSize = 0 then A.init else A.update A.init (content.take r.bufferSize)

theorem Reading.holds_init (content : Bytes) (size : Nat) :
    Reading.Holds content size ⟨A.init, List.replicate size 0, 0⟩ where
  length := List.length_replicate
  le := Nat.zero_le _
  buffer := rfl
  ctx := rfl

/-- A read keeps the correspondence, and the buffer has room for it. -/
theorem readUpTo_holds {sha1 : Bytes → Bytes} (hA : A.Streams sha1) {size currentSize : Nat}
    {r r' : Reading A} (h : r.Holds dev.content size) (hle : r.bufferSize ≤ currentSize)
    (hsize : currentSize ≤ size)
    (hread : readUpTo A dev currentSize r = some r') :
    r'.Holds dev.content size ∧ r'.bufferSize = currentSize := by
  unfold readUpTo at hread
  rw [if_pos hle] at hread
  dsimp only at hread
  split at hread
  · split at hread
    · cases hread
    · rename_i hpos hfull
      cases hread
      rw [not_not] at hfull
      rw [← hfull]
      obtain ⟨-, hcontent⟩ := dev.fread_le r.bufferSize (currentSize - r.bufferSize)
      have hlen : (slice dev.content r.bufferSize (currentSize - r.bufferSize)).length =
          currentSize - r.bufferSize := length_slice (by lia)
      have hroom : r.bufferSize + (slice dev.content r.bufferSize
          (currentSize - r.bufferSize)).length ≤ r.buffer.length := by
        rw [hlen, h.length]
        lia
      have htake : dev.content.take r.bufferSize ++
          slice dev.content r.bufferSize (currentSize - r.bufferSize) =
            dev.content.take (r.bufferSize + (currentSize - r.bufferSize)) := List.take_add.symm
      refine ⟨⟨?_, ?_, ?_, ?_⟩, by dsimp only; lia⟩
      · rw [length_splice hroom, h.length]
      · dsimp only
        lia
      · dsimp only
        rw [splice, h.buffer, htake, List.take_append_of_le_length, List.take_take, Nat.min_self]
        rw [List.length_take]
        lia
      · dsimp only
        rw [if_neg (by lia), h.ctx, ← htake]
        split
        · rename_i hzero
          rw [hzero, List.take_zero, List.nil_append]
        · exact hA.update_append _ _ _
  · cases hread
    exact ⟨h, by lia⟩

theorem readUpTo_works (hdev : dev.Works) {currentSize : Nat} {r : Reading A}
    (hle : r.bufferSize ≤ currentSize)
    (hcontent : currentSize ≤ dev.content.length) :
    ∃ r', readUpTo A dev currentSize r = some r' := by
  unfold readUpTo
  rw [if_pos hle]
  dsimp only
  split
  · rw [hdev r.bufferSize (currentSize - r.bufferSize) (by lia), if_neg (not_not.2 rfl)]
    exact ⟨_, rfl⟩
  · exact ⟨r, rfl⟩

theorem Reading.Holds.final {sha1 : Bytes → Bytes} (hA : A.Streams sha1) {content : Bytes}
    {size : Nat} {r : Reading A} (h : r.Holds content size) (hpos : 0 < r.bufferSize) :
    A.final r.ctx = sha1 (content.take r.bufferSize) := by
  rw [h.ctx, if_neg (by lia), hA.final_update]

/-! ## The loop -/

/-- The prefix of the partition of the listed size has the listed hash. -/
def Matches (sha1 : Bytes → Bytes) (content : Bytes) (p : Nat × String) : Prop :=
  p.1 ≤ content.length ∧ parseSha1 p.2 = some (sha1 (content.take p.1))

/-- The pairs that the loop has still to try, with so much read and so large a buffer. -/
structure Ahead (bufferSize size : Nat) (pairs : List (Nat × String)) : Prop where
  sorted : pairs.Pairwise fun a b => a.1 ≤ b.1
  ahead : ∀ p ∈ pairs, bufferSize ≤ p.1
  pos : ∀ p ∈ pairs, 0 < p.1
  size : ∀ p ∈ pairs, p.1 ≤ size
  sha1 : ∀ p ∈ pairs, ∃ parsedSha, parseSha1 p.2 = some parsedSha

theorem Ahead.tail {bufferSize size : Nat} {p : Nat × String} {pairs : List (Nat × String)}
    (h : Ahead bufferSize size (p :: pairs)) : Ahead p.1 size pairs where
  sorted := h.sorted.tail
  ahead := (List.pairwise_cons.1 h.sorted).1
  pos q hq := h.pos q (List.mem_cons_of_mem p hq)
  size q hq := h.size q (List.mem_cons_of_mem p hq)
  sha1 q hq := h.sha1 q (List.mem_cons_of_mem p hq)

/-- The loop stops at the smallest size that matches, with what it has read. -/
theorem tryPairs_spec {sha1 : Bytes → Bytes} (hA : A.Streams sha1) {size : Nat} :
    ∀ {pairs : List (Nat × String)} {r r' : Reading A}, Ahead r.bufferSize size pairs →
      r.Holds dev.content size → tryPairs A dev pairs r = some r' →
      r'.Holds dev.content size ∧ ∃ p ∈ pairs, Matches sha1 dev.content p ∧ r'.bufferSize = p.1 ∧
        ∀ q ∈ pairs, Matches sha1 dev.content q → p.1 ≤ q.1
  | [], r, r', _, _, hrun => by
    rw [tryPairs] at hrun
    cases hrun
  | p :: pairs, r, r', hahead, h, hrun => by
    rw [tryPairs] at hrun
    split at hrun
    · cases hrun
    rename_i next hread
    obtain ⟨hnext, hsize⟩ := readUpTo_holds hA h (hahead.ahead p List.mem_cons_self)
      (hahead.size p List.mem_cons_self) hread
    have hfinal := hnext.final hA (by rw [hsize]; exact hahead.pos p List.mem_cons_self)
    have hle := hnext.le
    rw [hsize] at hfinal hle
    dsimp only at hrun
    split at hrun
    · cases hrun
    rename_i parsedSha hsha
    split at hrun
    · rename_i heq
      cases hrun
      refine ⟨hnext, p, List.mem_cons_self, ⟨hle, ?_⟩, hsize, ?_⟩
      · rw [hsha, ← heq, hfinal]
      · intro q hq _
        rcases List.mem_cons.1 hq with rfl | hq
        · exact Nat.le_refl _
        · exact (List.pairwise_cons.1 hahead.sorted).1 q hq
    · rename_i hne
      have htail : Ahead next.bufferSize size pairs := by
        rw [hsize]
        exact hahead.tail
      obtain ⟨hdone, q, hq, hmatch, hqsize, hleast⟩ := tryPairs_spec hA htail hnext hrun
      refine ⟨hdone, q, List.mem_cons_of_mem p hq, hmatch, hqsize, ?_⟩
      intro q' hq' hmatch'
      rcases List.mem_cons.1 hq' with rfl | hq'
      · have hparsed := hmatch'.2
        rw [hsha, Option.some.injEq, ← hfinal] at hparsed
        exact absurd hparsed.symm hne
      · exact hleast q' hq' hmatch'

/-- Where the reads work, the loop finds a size that matches. -/
theorem tryPairs_works {sha1 : Bytes → Bytes} (hA : A.Streams sha1) (hdev : dev.Works) {size : Nat} :
    ∀ {pairs : List (Nat × String)} {r : Reading A}, Ahead r.bufferSize size pairs →
      r.Holds dev.content size → (∃ p ∈ pairs, Matches sha1 dev.content p) →
      ∃ r', tryPairs A dev pairs r = some r'
  | [], r, _, _, hex => by
    obtain ⟨p, hp, -⟩ := hex
    exact absurd hp List.not_mem_nil
  | p :: pairs, r, hahead, h, hex => by
    have hp := List.mem_cons_self (a := p) (l := pairs)
    -- The sizes after this one are no smaller, so that the partition has this many bytes.
    have hcontent : p.1 ≤ dev.content.length := by
      obtain ⟨q, hq, hle, -⟩ := hex
      rcases List.mem_cons.1 hq with rfl | hq
      · exact hle
      · exact Nat.le_trans ((List.pairwise_cons.1 hahead.sorted).1 q hq) hle
    obtain ⟨next, hread⟩ := readUpTo_works hdev (hahead.ahead p hp) hcontent
      (r := r)
    obtain ⟨hnext, hsize⟩ := readUpTo_holds hA h (hahead.ahead p hp) (hahead.size p hp)
      hread
    have hfinal := hnext.final hA (by rw [hsize]; exact hahead.pos p hp)
    rw [hsize] at hfinal
    obtain ⟨parsedSha, hsha⟩ := hahead.sha1 p hp
    rw [tryPairs, hread]
    dsimp only
    rw [hsha]
    dsimp only
    split
    · exact ⟨next, rfl⟩
    · rename_i hne
      have htail : Ahead next.bufferSize size pairs := by
        rw [hsize]
        exact hahead.tail
      refine tryPairs_works hA hdev htail hnext ?_
      obtain ⟨q, hq, hmatch⟩ := hex
      rcases List.mem_cons.1 hq with rfl | hq
      · have hparsed := hmatch.2
        rw [hsha, Option.some.injEq, ← hfinal] at hparsed
        exact absurd hparsed.symm hne
      · exact ⟨q, hq, hmatch⟩

/-! ## The file name -/

/-- The file name lists these sizes and hashes for the partition, in this order. -/
structure Lists (E : Env) (filename partition : String) (pairs : List (Nat × String)) : Prop where
  words : ∃ type ∈ ["MTD", "EMMC", "BML"], ∃ texts : List (String × String),
    E.base.split filename ":" = type :: partition :: texts.flatMap (fun text => [text.1, text.2]) ∧
      texts.map (fun text => (E.base.parseUint text.1 SIZE_MAX, text.2)) =
        pairs.map fun p => (some p.1, p.2)
  nonempty : pairs ≠ []
  sha1 : ∀ p ∈ pairs, ∃ parsedSha, parseSha1 p.2 = some parsedSha

theorem parsePairs_eq : ∀ {texts : List (String × String)} {pairs : List (Nat × String)},
    texts.map (fun text => (E.base.parseUint text.1 SIZE_MAX, text.2)) =
      pairs.map (fun p => (some p.1, p.2)) →
    parsePairs E (texts.flatMap fun text => [text.1, text.2]) =
      if ∃ p ∈ pairs, p.1 = 0 then none else some pairs
  | [], [], _ => (if_neg (by simp)).symm
  | [], _ :: _, h => nomatch h
  | _ :: _, [], h => nomatch h
  | text :: texts, p :: pairs, h => by
    obtain ⟨hhead, htail⟩ := List.cons.inj h
    obtain ⟨hsize, hsha⟩ := Prod.mk.inj hhead
    have ih := parsePairs_eq htail
    rw [List.flatMap_cons, List.cons_append, List.cons_append, List.nil_append, parsePairs, ih, hsha,
      hsize]
    by_cases hzero : p.1 = 0
    · have hex : ∃ q ∈ p :: pairs, q.1 = 0 := ⟨p, List.mem_cons_self, hzero⟩
      rw [if_pos hex]
      simp [hzero]
    · by_cases hrest : ∃ p ∈ pairs, p.1 = 0
      · have hex : ∃ q ∈ p :: pairs, q.1 = 0 := List.exists_mem_cons_of_exists hrest
        rw [if_pos hex, if_pos hrest]
        simp
      · have hno : ¬ ∃ q ∈ p :: pairs, q.1 = 0 := by
          rw [List.exists_mem_cons_iff, not_or]
          exact ⟨hzero, hrest⟩
        rw [if_neg hno, if_neg hrest]
        simp [hzero]

theorem Lists.partitionName {filename partition : String} {pairs : List (Nat × String)}
    (h : Lists E filename partition pairs) : partitionName E filename =
      if ∃ p ∈ pairs, p.1 = 0 then none else some (partition, sortPairs pairs) := by
  obtain ⟨type, htype, texts, hsplit, htexts⟩ := h.words
  have hlen : texts.length = pairs.length := by
    have := congrArg List.length htexts
    rwa [List.length_map, List.length_map] at this
  have hpos : 0 < pairs.length := List.length_pos_of_ne_nil h.nonempty
  have hwords : (texts.flatMap fun text => [text.1, text.2]).length = 2 * pairs.length := by
    rw [List.length_flatMap, ← hlen]
    simp [Nat.mul_comm]
  have hkind : ¬ (type ≠ "MTD" ∧ type ≠ "EMMC" ∧ type ≠ "BML") := by
    simp at htype
    tauto
  unfold ApplyPatch.partitionName
  rw [hsplit]
  dsimp only
  rw [if_neg (by lia), if_neg hkind, parsePairs_eq htexts]
  split <;> rfl

theorem sortPairs_perm (pairs : List (Nat × String)) : (sortPairs pairs).Perm pairs :=
  List.perm_insertionSort _ pairs

theorem sortPairs_sorted (pairs : List (Nat × String)) :
    (sortPairs pairs).Pairwise fun a b => a.1 ≤ b.1 := by
  let r : Nat × String → Nat × String → Prop := fun a b => a.1 < b.1 ∨ (a.1 = b.1 ∧ a.2 ≤ b.2)
  have htotal : Std.Total r := ⟨fun a b => by
    rcases Nat.lt_trichotomy a.1 b.1 with h | h | h
    · exact .inl (.inl h)
    · exact (le_total a.2 b.2).imp (fun hle => .inr ⟨h, hle⟩) fun hle => .inr ⟨h.symm, hle⟩
    · exact .inr (.inl h)⟩
  have htrans : IsTrans (Nat × String) r := ⟨fun a b c hab hbc => by
    rcases hab with hab | ⟨hab, hab'⟩ <;> rcases hbc with hbc | ⟨hbc, hbc'⟩
    · exact .inl (Nat.lt_trans hab hbc)
    · exact .inl (hbc ▸ hab)
    · exact .inl (hab ▸ hbc)
    · exact .inr ⟨hab.trans hbc, le_trans hab' hbc'⟩⟩
  refine (List.pairwise_insertionSort r pairs).imp ?_
  rintro a b (h | ⟨h, -⟩)
  · exact Nat.le_of_lt h
  · exact Nat.le_of_eq h

theorem le_largest : ∀ {pairs : List (Nat × String)}, (pairs.Pairwise fun a b => a.1 ≤ b.1) →
    ∀ p ∈ pairs, p.1 ≤ largest pairs
  | [], _, _, hp => absurd hp List.not_mem_nil
  | [q], _, p, hp => by
    rw [List.mem_singleton.1 hp]
    exact Nat.le_refl _
  | q :: q' :: pairs, h, p, hp => by
    have hlast : largest (q :: q' :: pairs) = largest (q' :: pairs) := rfl
    rw [hlast]
    rcases List.mem_cons.1 hp with rfl | hp
    · have hle := (List.pairwise_cons.1 h).1 q' List.mem_cons_self
      exact Nat.le_trans hle (le_largest h.tail q' List.mem_cons_self)
    · exact le_largest h.tail p hp

/-! ## The call -/

theorem Lists.ahead {filename partition : String} {pairs : List (Nat × String)}
    (h : Lists E filename partition pairs) (hpos : ∀ p ∈ pairs, 0 < p.1) :
    Ahead 0 (largest (sortPairs pairs)) (sortPairs pairs) where
  sorted := sortPairs_sorted pairs
  ahead _ _ := Nat.zero_le _
  pos p hp := hpos p ((sortPairs_perm pairs).mem_iff.1 hp)
  size := le_largest (sortPairs_sorted pairs)
  sha1 p hp := h.sha1 p ((sortPairs_perm pairs).mem_iff.1 hp)

/-- **What a call loads**, for every list of sizes and hashes: none of it where a size is 0; an
exception leaves it when the largest size is more than a vector can have; and else it loads the shortest
prefix of a listed size that has a hash listed with it, which it does where there is one and the reads
work.  A call that does not return 0 leaves `*file` alone. -/
theorem loadPartition_spec {sha1 : Bytes → Bytes} (hA : A.Streams sha1)
    (fopen : String → Option Stream) (allocates : Nat → Bool) (filename : String)
    (file : FileContents) :
    ((loadPartition E A fopen allocates filename file).1 ≠ some 0 →
      (loadPartition E A fopen allocates filename file).2 = file) ∧
    ∀ partition pairs, Lists E filename partition pairs →
      ((∃ p ∈ pairs, p.1 = 0) →
        (loadPartition E A fopen allocates filename file).1 = some (-1)) ∧
      ∀ dev, fopen partition = some dev → (∀ p ∈ pairs, 0 < p.1) →
        ((loadPartition E A fopen allocates filename file).1 = none ↔
          ¬ vectorFits allocates (largest (sortPairs pairs))) ∧
        (dev.Works → vectorFits allocates (largest (sortPairs pairs)) →
          ((loadPartition E A fopen allocates filename file).1 = some 0 ↔
            ∃ p ∈ pairs, Matches sha1 dev.content p)) ∧
        ((loadPartition E A fopen allocates filename file).1 = some 0 →
          ∃ p ∈ pairs, Matches sha1 dev.content p ∧
            (∀ q ∈ pairs, Matches sha1 dev.content q → p.1 ≤ q.1) ∧
            (loadPartition E A fopen allocates filename file).2 =
              { sha1 := sha1 (dev.content.take p.1), data := dev.content.take p.1 }) := by
  have hfailed : some (-1 : Int) ≠ some 0 := by decide
  refine ⟨?_, fun partition pairs hlist => ⟨?_, fun dev hopen hpos => ?_⟩⟩
  · unfold loadPartition
    split
    · exact fun _ => rfl
    · split
      · exact fun _ => rfl
      · split
        · exact fun _ => rfl
        · split
          · exact fun _ => rfl
          · exact fun h => absurd rfl h
  · intro hzero
    unfold loadPartition
    rw [hlist.partitionName, if_pos hzero]
  · have hname : partitionName E filename = some (partition, sortPairs pairs) := by
      rw [hlist.partitionName, if_neg]
      rintro ⟨p, hp, hzero⟩
      exact absurd (hpos p hp) (by omega)
    have hmem {p : Nat × String} : p ∈ sortPairs pairs ↔ p ∈ pairs := (sortPairs_perm pairs).mem_iff
    have hahead := hlist.ahead hpos
    have hinit := Reading.holds_init (A := A) dev.content (largest (sortPairs pairs))
    unfold loadPartition
    rw [hname]
    dsimp only
    rw [hopen]
    dsimp only
    by_cases hfits : vectorFits allocates (largest (sortPairs pairs))
    · rw [if_neg (not_not.2 hfits)]
      cases hrun : tryPairs A dev (sortPairs pairs)
        ⟨A.init, List.replicate (largest (sortPairs pairs)) 0, 0⟩ with
      | none =>
        refine ⟨iff_of_false nofun (not_not.2 hfits), fun hdev _ => iff_of_false hfailed ?_,
          fun h => absurd h hfailed⟩
        rintro ⟨p, hp, hmatch⟩
        obtain ⟨r, hsome⟩ := tryPairs_works hA hdev hahead hinit ⟨p, hmem.2 hp, hmatch⟩
        rw [hrun] at hsome
        cases hsome
      | some r =>
        obtain ⟨hdone, p, hp, hmatch, hsize, hleast⟩ := tryPairs_spec hA hahead hinit hrun
        refine ⟨iff_of_false nofun (not_not.2 hfits),
          fun _ _ => iff_of_true rfl ⟨p, hmem.1 hp, hmatch⟩, fun _ => ?_⟩
        refine ⟨p, hmem.1 hp, hmatch, fun q hq => hleast q (hmem.2 hq), ?_⟩
        dsimp only
        rw [hdone.final hA (by rw [hsize]; exact hahead.pos p hp), hdone.buffer, hsize]
    · rw [if_pos hfits]
      exact ⟨iff_of_true rfl hfits, fun _ h => absurd h hfits, nofun⟩

/-! ## A partition of three bytes -/

/-- The hashes of no byte, of `a` and of `ab`. -/
def someSha1 (data : Bytes) : Bytes :=
  if data = [] then
    [218, 57, 163, 238, 94, 107, 75, 13, 50, 85, 191, 239, 149, 96, 24, 144, 175, 216, 7, 9]
  else if data = [97] then
    [134, 247, 228, 55, 250, 165, 167, 252, 225, 93, 29, 220, 185, 234, 234, 234, 55, 118, 103, 184]
  else if data = [97, 98] then
    [218, 35, 97, 78, 2, 70, 154, 13, 124, 123, 209, 189, 171, 92, 156, 71, 75, 25, 4, 220]
  else List.replicate SHA_DIGEST_LENGTH 0

/-- The context is the data so far. -/
def bufferedSha1 : Sha1 := ⟨Bytes, [], fun c data => c ++ data, someSha1⟩

theorem bufferedSha1_streams : bufferedSha1.Streams someSha1 where
  update_append c a b := List.append_assoc c a b
  final_update data := congrArg someSha1 (List.nil_append data)

def threeBytes : Stream where
  content := [97, 98, 99]
  fread pos n := min n (3 - pos)
  fread_le _ _ := ⟨Nat.min_le_left _ _, Nat.min_le_right _ _⟩

def hashEnv : Env := ⟨.decimal, someSha1, "", fun _ _ => (false, []), fun _ _ _ => (false, [])⟩

def noneSha1 : String := "da39a3ee5e6b4b0d3255bfef95601890afd80709"

def aSha1 : String := "86f7e437faa5a7fce15d1ddcb9eaeaea377667b8"

def abSha1 : String := "da23614e02469a0d7c7bd1bdab5c9c474b1904dc"

/-- Two sizes of which the second is the smaller one. -/
def twoSizes : String := "EMMC:boot:2:" ++ abSha1 ++ ":1:" ++ aSha1

theorem twoSizes_lists : Lists hashEnv twoSizes "boot" [(2, abSha1), (1, aSha1)] where
  words := by
    refine ⟨"EMMC", by decide, [("2", abSha1), ("1", aSha1)], by decide +kernel, by decide +kernel⟩
  nonempty := nofun
  sha1 := by
    intro p hp
    rcases List.mem_pair.1 hp with rfl | rfl
    · exact ⟨someSha1 [97, 98], by decide +kernel⟩
    · exact ⟨someSha1 [97], by decide +kernel⟩

/-- Both of them have their hash. -/
theorem loadPartition_spec_two :
    ∃ p ∈ [(2, abSha1), (1, aSha1)], Matches someSha1 threeBytes.content p ∧
      (∀ q ∈ [(2, abSha1), (1, aSha1)], Matches someSha1 threeBytes.content q → p.1 ≤ q.1) ∧
      (loadPartition hashEnv bufferedSha1 (fun _ => some threeBytes) (fun _ => true) twoSizes
        ⟨[], []⟩).2 =
        { sha1 := someSha1 (threeBytes.content.take p.1), data := threeBytes.content.take p.1 } := by
  obtain ⟨-, hcall⟩ := loadPartition_spec (E := hashEnv) bufferedSha1_streams
    (fun _ => some threeBytes) (fun _ => true) twoSizes ⟨[], []⟩
  obtain ⟨-, hpairs⟩ := hcall "boot" _ twoSizes_lists
  obtain ⟨-, hiff, hloads⟩ := hpairs threeBytes rfl (by decide)
  apply hloads
  rw [hiff (fun pos n hn => Nat.min_eq_left hn) (by decide +kernel)]
  exact ⟨(1, aSha1), by decide, by decide, by decide +kernel⟩

/-- The second size is more than a vector can have. -/
def hugeSize : String := "EMMC:boot:1:" ++ aSha1 ++ ":9223372036854775808:" ++ abSha1

/-- A size of 0 is refused, though no byte has the hash of no byte; and a size of `2 ^ 63` throws before
the smaller one is tried, which matches. -/
theorem not_loaded :
    (Lists hashEnv ("EMMC:boot:0:" ++ noneSha1) "boot" [(0, noneSha1)] ∧
      threeBytes.Works ∧ Matches someSha1 threeBytes.content (0, noneSha1) ∧
      (loadPartition hashEnv bufferedSha1 (fun _ => some threeBytes) (fun _ => true)
        ("EMMC:boot:0:" ++ noneSha1) ⟨[], []⟩).1 = some (-1)) ∧
    Lists hashEnv hugeSize "boot" [(1, aSha1), (2 ^ 63, abSha1)] ∧
      Matches someSha1 threeBytes.content (1, aSha1) ∧
      (loadPartition hashEnv bufferedSha1 (fun _ => some threeBytes) (fun _ => true) hugeSize
        ⟨[], []⟩).1 = none := by
  refine ⟨⟨⟨?_, nofun, ?_⟩, fun pos n hn => Nat.min_eq_left hn, ?_, by decide +kernel⟩,
    ⟨?_, nofun, ?_⟩, ?_, ?_⟩
  · exact ⟨"EMMC", by decide, [("0", noneSha1)], by decide +kernel, by decide +kernel⟩
  · intro p hp
    rw [List.mem_singleton.1 hp]
    exact ⟨someSha1 [], by decide +kernel⟩
  · exact ⟨by decide, by decide +kernel⟩
  · exact ⟨"EMMC", by decide, [("1", aSha1), ("9223372036854775808", abSha1)], by decide +kernel,
      by decide +kernel⟩
  · intro p hp
    rcases List.mem_pair.1 hp with rfl | rfl
    · exact ⟨someSha1 [97], by decide +kernel⟩
    · exact ⟨someSha1 [97, 98], by decide +kernel⟩
  · exact ⟨by decide, by decide +kernel⟩
  · decide +kernel

end Recovery.ApplyPatch
