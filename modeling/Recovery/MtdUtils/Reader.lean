import Recovery.MtdUtils.MtdUtils

/-!
# What a reader returns

`mtd_read_data` serves reads of any length from whole blocks: through its buffer, and directly into
the user's one.

## Definitions

* `Delivers` — the blocks that successive calls of `read_block` return, or the first of them.  What
  these are depends on the device; a user of the reader finds them out once.
* `Holds` — the bytes that are still to come from a read context: the rest of its buffer, and the
  contents of blocks.
* `Moved` — bytes that have gone from those to come to those that have been read.

## Results

* `readDirect_spec`, `mtdReadLoop_spec` — a loop moves bytes on, or too few are left.
* `mtdReadData_spec` — `mtd_read_data` returns the next bytes when there are enough of them.
-/

set_option autoImplicit false

namespace Recovery.MtdUtils

def contents (blocks : List EraseBlock) : List UInt8 :=
  (blocks.map EraseBlock.data).flatten

theorem contents_length {bs : List EraseBlock} {n : Nat} (h : ∀ b ∈ bs, b.data.length = n) :
    (contents bs).length = bs.length * n := by
  induction bs with
  | nil => simp [contents]
  | cons b bs ih =>
    have htail := ih fun c hc => h c (List.mem_cons_of_mem _ hc)
    have hcontents : contents (b :: bs) = b.data ++ contents bs := rfl
    rw [hcontents, List.length_append, htail, h b List.mem_cons_self, List.length_cons, Nat.succ_mul,
      Nat.add_comm]

/-- The block can be read without an error. -/
def EraseBlock.Readable (b : EraseBlock) : Prop := b.readOk ∧ b.eccFailed = 0

/-- The blocks from the offset on are within the size of the partition as an `int`. -/
def Descriptor.Fits (partition : MtdPartition) (fd : Descriptor) : Prop :=
  ((fd.pos + fd.ahead.length * partition.eraseSize : Nat) : Int) ≤ asInt partition.size

variable {partition : MtdPartition} {all : Prop}

/-- The blocks that successive calls of `read_block` return, `all` of them or the first. -/
inductive Delivers (partition : MtdPartition) (all : Prop) :
    Descriptor → List EraseBlock → Prop where
  | done {fd : Descriptor} : (all → readBlock partition fd = none) → Delivers partition all fd []
  | next {fd fd' : Descriptor} {b : EraseBlock} {bs : List EraseBlock} :
    readBlock partition fd = some (b.data, fd') → Delivers partition all fd' bs →
    Delivers partition all fd (b :: bs)

/-- `rest` is what the reader still returns. -/
def Holds (partition : MtdPartition) (all : Prop) (ctx : MtdReadContext) (rest : List UInt8) :
    Prop :=
  ∃ bs, Delivers partition all ctx.fd bs ∧ (∀ b ∈ bs, b.data.length = partition.eraseSize) ∧
    rest = ctx.unread ++ contents bs

theorem Holds.copy {ctx : MtdReadContext} {rest : List UInt8} (h : Holds partition all ctx rest)
    {n : Nat} (hn : n ≤ ctx.unread.length) :
    Holds partition all { ctx with unread := ctx.unread.drop n } (rest.drop n) ∧
      ctx.unread.take n = rest.take n := by
  obtain ⟨bs, hbs, hlen, rfl⟩ := h
  refine ⟨⟨bs, hbs, hlen, ?_⟩, ?_⟩
  · rw [List.drop_append_of_le_length hn]
  · rw [List.take_append_of_le_length hn]

/-- What `read_block` returns when `rest` is to come: the first block of it. -/
inductive NextBlock (partition : MtdPartition) (all : Prop) (rest : List UInt8) :
    Option (List UInt8 × Descriptor) → Prop where
  | ended {r : Option (List UInt8 × Descriptor)} : rest = [] → (all → r = none) →
    NextBlock partition all rest r
  | block {data : List UInt8} {fd : Descriptor} : data.length = partition.eraseSize →
    rest.take data.length = data → Holds partition all ⟨[], fd⟩ (rest.drop data.length) →
    Holds partition all ⟨data, fd⟩ rest → NextBlock partition all rest (some (data, fd))

theorem Holds.readBlock {ctx : MtdReadContext} {rest : List UInt8}
    (h : Holds partition all ctx rest) (hunread : ctx.unread = []) :
    NextBlock partition all rest (readBlock partition ctx.fd) := by
  obtain ⟨bs, hbs, hlen, rfl⟩ := h
  rw [hunread, List.nil_append]
  cases hbs with
  | done hr => exact .ended rfl hr
  | @next _ fd' b bs hr hbs =>
    rw [hr]
    have hcontents : contents (b :: bs) = b.data ++ contents bs := rfl
    have htail : ∀ c ∈ bs, c.data.length = partition.eraseSize := fun c hc =>
      hlen c (List.mem_cons_of_mem _ hc)
    refine .block (hlen b List.mem_cons_self) ?_ ⟨bs, hbs, htail, ?_⟩ ⟨bs, hbs, htail, hcontents⟩
    · rw [hcontents, List.take_left]
    · rw [hcontents, List.drop_left]
      rfl

/-- How much has been read, and what is left. -/
structure Moved (partition : MtdPartition) (all : Prop) (rest out out' : List UInt8)
    (ctx : MtdReadContext) (n : Nat) : Prop where
  out_eq : out' = out ++ rest.take n
  le : n ≤ rest.length
  holds : Holds partition all ctx (rest.drop n)

theorem Moved.refl {rest out : List UInt8} {ctx : MtdReadContext} (h : Holds partition all ctx rest) :
    Moved partition all rest out out ctx 0 := ⟨by simp, Nat.zero_le _, h⟩

theorem Moved.length {rest out out' : List UInt8} {ctx : MtdReadContext} {n : Nat}
    (h : Moved partition all rest out out' ctx n) : out'.length = out.length + n := by
  rw [h.out_eq, List.length_append, List.length_take, Nat.min_eq_left h.le]

theorem Moved.trans {rest out out' out'' : List UInt8} {ctx ctx' : MtdReadContext} {n m : Nat}
    (h : Moved partition all rest out out' ctx n)
    (h' : Moved partition all (rest.drop n) out' out'' ctx' m) :
    Moved partition all rest out out'' ctx' (n + m) := by
  have hle := h.le
  have hle' := h'.le
  rw [List.length_drop] at hle'
  refine ⟨?_, by lia, ?_⟩
  · rw [h'.out_eq, h.out_eq, List.append_assoc, List.take_add]
  · rw [← List.drop_drop]
    exact h'.holds

/-- A read fails because there is too little left, or it has moved on. -/
inductive ReadOutcome (partition : MtdPartition) (all : Prop) (rest out : List UInt8) (len : Nat)
    (P : Nat → Prop) : Option (List UInt8 × MtdReadContext) → Prop where
  | short {r : Option (List UInt8 × MtdReadContext)} : out.length + rest.length < len →
    (all → r = none) → ReadOutcome partition all rest out len P r
  | moved {out' : List UInt8} {ctx : MtdReadContext} {n : Nat} :
    Moved partition all rest out out' ctx n → P out'.length →
    ReadOutcome partition all rest out len P (some (out', ctx))

theorem ReadOutcome.after {rest out out' : List UInt8} {ctx : MtdReadContext} {n len : Nat}
    {P : Nat → Prop} {r : Option (List UInt8 × MtdReadContext)}
    (h : ReadOutcome partition all (rest.drop n) out' len P r)
    (hmoved : Moved partition all rest out out' ctx n) : ReadOutcome partition all rest out len P r := by
  cases h with
  | short hshort hnone =>
    have hle := hmoved.le
    rw [hmoved.length, List.length_drop] at hshort
    exact .short (by omega) hnone
  | moved hnext hlen => exact .moved (hmoved.trans hnext) hlen

theorem readDirect_spec {len fuel : Nat} {out rest : List UInt8} {ctx : MtdReadContext}
    (h : Holds partition all ctx rest) (hout : out.length ≤ len)
    (hfuel : len - out.length ≤ fuel) :
    ReadOutcome partition all rest out len (· ≤ len) (readDirect partition len fuel out ctx) := by
  have hpos := partition.eraseSize_pos
  induction fuel generalizing out rest ctx with
  | zero => exact .moved (.refl h) hout
  | succ fuel ih =>
    rw [readDirect]
    by_cases hdirect : ctx.unread = [] ∧ partition.eraseSize ≤ len - out.length
    · rw [if_pos hdirect]
      have hblock := h.readBlock hdirect.1
      generalize readBlock partition ctx.fd = r at hblock ⊢
      cases hblock with
      | ended hrest hnone =>
        refine .short ?_ fun hall => ?_
        · rw [hrest, List.length_nil]
          omega
        · rw [hnone hall]
          rfl
      | @block data fd hlen htake hholds _ =>
        have hle : data.length ≤ rest.length := by
          rw [← htake, List.length_take]
          omega
        have hmoved : Moved partition all rest out (out ++ data) ⟨[], fd⟩ data.length :=
          ⟨by rw [htake], hle, hholds⟩
        have hctx : ({ ctx with fd } : MtdReadContext) = ⟨[], fd⟩ := by rw [hdirect.1]
        simp only [Option.bind_eq_bind, Option.bind_some]
        rw [hctx]
        exact (ih hholds (by rw [hmoved.length]; omega) (by rw [hmoved.length]; omega)).after hmoved
    · rw [if_neg hdirect]
      exact .moved (.refl h) hout

/-- A round of `mtd_read_data` leaves less to read, apart from one that fills the buffer. -/
theorem mtdReadLoop_spec {len : Nat} (hint : asInt len = len) {fuel : Nat} {out rest : List UInt8}
    {ctx : MtdReadContext} (h : Holds partition all ctx rest) (hout : out.length ≤ len)
    (hfuel : len - out.length + (if ctx.unread = [] then 1 else 0) ≤ fuel) :
    ReadOutcome partition all rest out len (· = len) (mtdReadLoop partition len fuel out ctx) := by
  induction fuel generalizing out rest ctx with
  | zero => exact .moved (.refl h) (by lia)
  | succ fuel ih =>
    rw [mtdReadLoop, hint]
    by_cases hmore : (out.length : Int) < (len : Int)
    · rw [if_pos hmore]
      generalize hn : min (len - out.length) ctx.unread.length = n
      have hcopied : ctx.unread ≠ [] → 0 < n := by
        intro hne
        have hunread := List.length_pos_iff.2 hne
        lia
      obtain ⟨hholds, htake⟩ := h.copy (n := n) (by lia)
      have hle : n ≤ rest.length := by
        obtain ⟨bs, -, -, rfl⟩ := h
        rw [List.length_append]
        lia
      have hcopy : Moved partition all rest out (out ++ ctx.unread.take n)
          { ctx with unread := ctx.unread.drop n } n := ⟨by rw [htake], hle, hholds⟩
      refine ReadOutcome.after ?_ hcopy
      have hdirect := @readDirect_spec partition all len (len - out.length)
        (out ++ ctx.unread.take n) (rest.drop n) { ctx with unread := ctx.unread.drop n } hholds
        (by rw [hcopy.length]; lia) (by rw [hcopy.length]; lia)
      have hlen := hcopy.length
      simp only [Option.bind_eq_bind]
      generalize rest.drop n = rest at hdirect ⊢
      generalize out ++ ctx.unread.take n = out1 at hdirect hlen ⊢
      generalize readDirect partition len (len - out.length) out1
        { ctx with unread := ctx.unread.drop n } = r at hdirect ⊢
      cases hdirect with
      | short hshort hnone =>
        refine .short hshort fun hall => ?_
        rw [hnone hall]
        rfl
      | @moved out2 ctx2 m hmoved hbound =>
        simp only [Option.bind_some]
        have hlen2 := hmoved.length
        have hleft : len - out2.length ≤ fuel := by
          by_cases hnil : ctx.unread = []
          · rw [if_pos hnil] at hfuel
            lia
          · have hcount := hcopied hnil
            lia
        by_cases hdone : (len : Int) ≤ out2.length
        · rw [if_pos hdone]
          exact .moved hmoved (by lia)
        · rw [if_neg hdone]
          refine ReadOutcome.after ?_ hmoved
          have hholds2 := hmoved.holds
          generalize rest.drop m = rest at hholds2 ⊢
          by_cases hempty : ctx2.unread = []
          · rw [if_pos hempty]
            have hblock := hholds2.readBlock hempty
            generalize readBlock partition ctx2.fd = r at hblock ⊢
            cases hblock with
            | ended hrest hnone =>
              refine .short ?_ fun hall => ?_
              · rw [hrest, List.length_nil]
                lia
              · rw [hnone hall]
                rfl
            | @block data fd hsize _ _ hbuffer =>
              have hpos := partition.eraseSize_pos
              have hne : data ≠ [] := List.ne_nil_of_length_pos (by lia)
              simp only [Option.bind_some]
              exact ih hbuffer hbound (by rw [if_neg hne]; exact hleft)
          · rw [if_neg hempty]
            exact ih hholds2 hbound (by rw [if_neg hempty]; exact hleft)
    · rw [if_neg hmore]
      exact .moved (.refl h) (by lia)

/-- `mtd_read_data` returns the next `len` bytes, or fails when there are not enough. -/
theorem mtdReadData_spec {len : Nat} (hint : asInt len = len) {rest : List UInt8}
    {ctx : MtdReadContext} (h : Holds partition all ctx rest) :
    ReadOutcome partition all rest [] len (· = len) (mtdReadData partition len ctx) :=
  mtdReadLoop_spec hint h (Nat.zero_le _) (by rw [List.length_nil]; split <;> lia)

/-- Successive reads return what is to come, however they are split. -/
theorem mtdRead_spec (lens : List Nat) {rest : List UInt8} {ctx : MtdReadContext}
    (h : Holds partition all ctx rest) (hlen : lens.sum ≤ rest.length)
    (hsmall : rest.length < 2 ^ 31) :
    mtdRead partition lens ctx = some (rest.take lens.sum) := by
  induction lens generalizing rest ctx with
  | nil => rfl
  | cons len lens ih =>
    rw [List.sum_cons] at hlen ⊢
    have hdata := mtdReadData_spec (asInt_eq (by lia : len < 2 ^ 31)) h
    rw [mtdRead]
    generalize mtdReadData partition len ctx = r at hdata ⊢
    cases hdata with
    | short hshort _ =>
      rw [List.length_nil] at hshort
      lia
    | @moved out ctx' n hmoved hfull =>
      have hn : n = len := by
        have hcount := hmoved.length
        rw [List.length_nil] at hcount
        lia
      have hholds := hmoved.holds
      have hout := hmoved.out_eq
      rw [hn] at hholds hout
      rw [List.nil_append] at hout
      have hrest := ih hholds (by rw [List.length_drop]; lia) (by rw [List.length_drop]; lia)
      show (mtdRead partition lens ctx' >>= fun tail => some (out ++ tail)) = _
      rw [hrest, hout, List.take_add]
      rfl

end Recovery.MtdUtils
