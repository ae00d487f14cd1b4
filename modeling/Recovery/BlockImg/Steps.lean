import Recovery.BlockImg.Update

/-!
# What one run can do to the state

* `Quiet` — the target, the stash directory and `stash_map` are as before, with the parameters that
  guard a deletion.
* `Step` — one operation of a command on the target, the stash directory, `stash_map` or those
  parameters, with the condition under which the source performs it.
* `loadStash_steps`, `writeStash_steps`, `loadSrcTgtVersion3_steps` and their like — every run of a
  function of the updater, stopped or not, is a sequence of such operations.

The relation is what the invariants of `StashStore` and `VerifyRun` are proved from; neither of
them unfolds a function of the updater.
-/

set_option autoImplicit false

namespace Recovery.BlockImg

open Recovery.Lib Recovery.OtaUtil Relation

/-! ## Operations -/

structure Quiet (s s' : St) : Prop where
  dev : s'.disk.dev = s.disk.dev
  stashDir : s'.disk.stashDir = s.disk.stashDir
  stash : s'.disk.stash = s.disk.stash
  tokens : s'.params.tokens = s.params.tokens
  freestash : s'.params.freestash = s.params.freestash
  createdstash : s'.params.createdstash = s.params.createdstash
  isunresumable : s'.params.isunresumable = s.params.isunresumable
  stashMap : s'.stashMap = s.stashMap
  patchStart : s'.params.patchStart = s.params.patchStart

theorem Quiet.trans {a b c : St} (h : Quiet a b) (h' : Quiet b c) : Quiet a c where
  dev := h'.dev.trans h.dev
  stashDir := h'.stashDir.trans h.stashDir
  stash := h'.stash.trans h.stash
  tokens := h'.tokens.trans h.tokens
  freestash := h'.freestash.trans h.freestash
  createdstash := h'.createdstash.trans h.createdstash
  isunresumable := h'.isunresumable.trans h.isunresumable
  stashMap := h'.stashMap.trans h.stashMap
  patchStart := h'.patchStart.trans h.patchStart

instance : IsPreorder St Quiet where
  refl _ := ⟨rfl, rfl, rfl, rfl, rfl, rfl, rfl, rfl, rfl⟩
  trans _ _ _ := Quiet.trans

def St.setStash (s : St) (stash : AList fun _ : String => List UInt8) : St :=
  { s with disk.stash := stash }

def St.eraseStash (s : St) (name : String) : St := s.setStash (s.disk.stash.erase name)

/-- The guards of `PerformCommandFree` and of the deletion of the whole stash. -/
def Deletes (E : Env) (s : St) : Prop :=
  E.canwrite = true ∨ s.params.isunresumable = true ∨ s.params.createdstash ≠ 0

inductive Step (E : Env) : St → St → Prop where
  | quiet {s s' : St} (h : Quiet s s') : Step E s s'
  /-- Bytes written or discarded. -/
  | device {s : St} (dev : Nat → UInt8) (hw : E.canwrite = true) :
      Step E s { s with disk.dev := dev }
  | unresumable {s : St} : Step E s { s with params.isunresumable := true }
  /-- The stash of an overlapping command is to be freed after it. -/
  | noteStash {s : St} (id : String) (hw : E.canwrite = true) :
      Step E s { s with params.freestash := id }
  | forgetStash {s : St} : Step E s { s with params.freestash := "" }
  | mkdir {s : St} (h : s.disk.stashDir = false) :
      Step E s { s with disk.stashDir := true, disk.stash := ∅ }
  /-- Data reaching a `.partial` file. -/
  | writePartial {s : St} (id : String) (data : List UInt8) (hw : E.canwrite = true) :
      Step E s (s.setStash (s.disk.stash.insert (partialName id) data))
  /-- A `.partial` file renamed. -/
  | store {s : St} {id : String} {data : List UInt8} (hw : E.canwrite = true)
      (hsize : data.length % BLOCKSIZE = 0) (hhash : E.hash data = id) :
      Step E s (s.setStash ((s.disk.stash.erase (partialName id)).insert id data))
  /-- `LoadStash` finds unexpected contents. -/
  | unexpected {s : St} {id : String} {data : List UInt8} (hid : id ∈ s.params.tokens)
      (hfile : s.disk.stash.lookup (E.stashFile id) = some data) (hhash : E.hash data ≠ id) :
      Step E s (s.eraseStash (E.stashFile id))
  | removePartial {s : St} {name : String} (h : isPartial name = true) :
      Step E s (s.eraseStash name)
  /-- The stash of an overlapping command is freed. -/
  | freeNoted {s : St} (h : s.params.freestash ≠ "") :
      Step E s (s.eraseStash (E.stashFile s.params.freestash))
  | delete {s : St} (name : String) (h : Deletes E s) : Step E s (s.eraseStash name)
  | rmdir {s : St} (h : Deletes E s) : Step E s { s with disk.stashDir := false }
  /-- A set whose blocks have been read into the buffer. -/
  | remember {s : St} (id : String) (src : RangeSet) (hvalid : src.isValid = true)
      (hread : src.blocks * BLOCKSIZE ≤ s.params.buffer.length) :
      Step E s { s with stashMap := s.stashMap.insert id src }
  | forget {s : St} (id : String) : Step E s { s with stashMap := s.stashMap.erase id }

variable {E : Env}

theorem Step.tokens {s s' : St} (h : Step E s s') : s'.params.tokens = s.params.tokens := by
  cases h with
  | quiet h => exact h.tokens
  | _ => rfl

theorem Step.deletes {s s' : St} (h : Step E s s') (hd : Deletes E s) : Deletes E s' := by
  cases h with
  | quiet h => exact hd.imp id (.imp h.isunresumable.trans fun hc => h.createdstash ▸ hc)
  | unresumable => exact .inr (.inl rfl)
  | _ => exact hd

theorem steps_tokens {s s' : St} (h : ReflTransGen (Step E) s s') :
    s'.params.tokens = s.params.tokens := by
  induction h with
  | refl => rfl
  | tail _ h ih => rw [h.tokens, ih]

theorem Step.patchStart {s s' : St} (h : Step E s s') : s'.params.patchStart = s.params.patchStart := by
  cases h with
  | quiet h => exact h.patchStart
  | _ => rfl

theorem steps_patchStart {s s' : St} (h : ReflTransGen (Step E) s s') :
    s'.params.patchStart = s.params.patchStart := by
  induction h with
  | refl => rfl
  | tail _ h ih => rw [h.patchStart, ih]

theorem steps_deletes {s s' : St} (h : ReflTransGen (Step E) s s') (hd : Deletes E s) :
    Deletes E s' := by
  induction h with
  | refl => exact hd
  | tail _ h ih => exact h.deletes ih

/-! ## Operations that leave the target and the stash alone -/

theorem quiet_modifyParams {f : CommandParameters → CommandParameters}
    (ht : ∀ p, (f p).tokens = p.tokens) (hf : ∀ p, (f p).freestash = p.freestash)
    (hc : ∀ p, (f p).createdstash = p.createdstash)
    (hu : ∀ p, (f p).isunresumable = p.isunresumable)
    (hp : ∀ p, (f p).patchStart = p.patchStart) : Within Quiet (modifyParams f) :=
  .modify fun s =>
    ⟨rfl, rfl, rfl, ht s.params, hf s.params, hc s.params, hu s.params, rfl, hp s.params⟩

theorem quiet_setBuffer (buffer : List UInt8) : Within Quiet (setBuffer buffer) :=
  quiet_modifyParams (fun _ => rfl) (fun _ => rfl) (fun _ => rfl) (fun _ => rfl) fun _ => rfl

theorem quiet_nextFate : Within Quiet nextFate := by
  intro s
  unfold Reaches Outcome nextFate
  cases s.fates with
  | nil => exact ⟨refl s, trivial⟩
  | cons f fs => exact ⟨⟨rfl, rfl, rfl, rfl, rfl, rfl, rfl, rfl, rfl⟩, trivial⟩

theorem quiet_ioOk : Within Quiet ioOk := by
  refine quiet_nextFate.bind fun f => ?_
  cases f with
  | ok => exact .pure _
  | fail n => exact .pure _
  | crash n => exact .throw _

theorem quiet_setDevError : Within Quiet setDevError :=
  .modify fun _ => ⟨rfl, rfl, rfl, rfl, rfl, rfl, rfl, rfl, rfl⟩

theorem quiet_pos (f : St → Nat) : Within Quiet (modify fun s => { s with pos := f s } : M Unit) :=
  .modify fun _ => ⟨rfl, rfl, rfl, rfl, rfl, rfl, rfl, rfl, rfl⟩

theorem quiet_checkLseek (offset : Nat) : Within Quiet (checkLseek offset) :=
  quiet_ioOk.bind fun _ => .ite (fun _ => (quiet_pos _).bind fun _ => .pure _)
    fun _ => quiet_setDevError.bind fun _ => .pure _

theorem quiet_readAll (size : Nat) : Within Quiet (readAll E size) := by
  refine .get_bind fun s => quiet_nextFate.bind fun f => ?_
  cases f with
  | ok =>
    refine (quiet_pos _).bind fun _ => .ite (fun _ => .pure _) fun _ => ?_
    exact quiet_setDevError.bind fun _ => .pure _
  | fail n => exact (quiet_pos _).bind fun _ => quiet_setDevError.bind fun _ => .pure _
  | crash n => exact .throw _

theorem quiet_overwrite (buffer : List UInt8) (p : Nat) (data : List UInt8) :
    Within Quiet (overwrite buffer p data) := .ite (fun _ => .pure _) fun _ => .throw _

theorem readAll_length (size : Nat) (s : St) :
    Reaches Quiet (readAll E size) s fun r _ => r.1 = true → r.2.length = size := by
  refine .bind_get ((quiet_nextFate s).bind fun f s₁ _ _ => ?_)
  cases f with
  | ok =>
    refine .bind_modify ⟨rfl, rfl, rfl, rfl, rfl, rfl, rfl, rfl, rfl⟩ ?_
    split
    · refine .pure fun _ => ?_
      rw [List.length_map, List.length_range']
      lia
    · exact (quiet_setDevError _).bind fun _ _ _ _ => .pure nofun
  | fail n =>
    refine .bind_modify ⟨rfl, rfl, rfl, rfl, rfl, rfl, rfl, rfl, rfl⟩ ?_
    exact (quiet_setDevError _).bind fun _ _ _ _ => .pure nofun
  | crash n => exact .throw

theorem overwrite_length (buffer : List UInt8) (p : Nat) (data : List UInt8) (s : St) :
    Reaches Quiet (overwrite buffer p data) s fun b _ =>
      b.length = buffer.length ∧ p + data.length ≤ buffer.length := by
  unfold overwrite
  split
  · refine .pure ⟨?_, ‹_›⟩
    simp only [List.length_append, List.length_take, List.length_drop]
    lia
  · exact .throw

theorem quiet_readBlocksLoop : ∀ (ranges : List Range) (p : Nat) (buffer : List UInt8),
    Within Quiet (readBlocksLoop E ranges p buffer)
  | [], _, _ => .pure _
  | range :: ranges, p, buffer => by
    refine (quiet_checkLseek _).bind fun _ => .ite (fun _ => ?_) fun _ => .pure _
    refine (quiet_readAll _).bind fun r => (quiet_overwrite _ _ _).bind fun buffer => ?_
    exact .ite (fun _ => quiet_readBlocksLoop ranges _ buffer) fun _ => .pure _

theorem quiet_readBlocks (src : RangeSet) (buffer : List UInt8) :
    Within Quiet (readBlocks E src buffer) := quiet_readBlocksLoop _ _ _

/-- `ReadBlocks` that succeeds has found room for the ranges. -/
theorem readBlocksLoop_room : ∀ (ranges : List Range) (p : Nat) (buffer : List UInt8) (s : St),
    p ≤ buffer.length → Reaches Quiet (readBlocksLoop E ranges p buffer) s fun r _ =>
      r.1 = true → r.2.length = buffer.length ∧
        p + (ranges.map Range.blocks).sum * BLOCKSIZE ≤ buffer.length
  | [], p, buffer, s, hp => .pure fun _ => ⟨rfl, by simpa using hp⟩
  | range :: ranges, p, buffer, s, hp => by
    refine (quiet_checkLseek _ s).bind fun ok s₁ _ _ => ?_
    cases ok with
    | false => exact .pure nofun
    | true =>
      refine (readAll_length _ s₁).bind ?_
      rintro ⟨ok, data⟩ s₂ - hdata
      refine (overwrite_length buffer p data s₂).bind fun buffer' s₃ _ hlen => ?_
      cases ok with
      | false => exact .pure nofun
      | true =>
        have hsize : data.length = Range.blocks range * BLOCKSIZE := hdata rfl
        refine (readBlocksLoop_room ranges _ buffer' s₃ (by lia)).imp (fun _ => id) ?_
        intro r s₄ _ hr hok
        obtain ⟨h1, h2⟩ := hr hok
        rw [List.map_cons, List.sum_cons, Nat.add_mul]
        lia

theorem readBlocks_room (src : RangeSet) (buffer : List UInt8) (s : St) :
    Reaches Quiet (readBlocks E src buffer) s fun r _ => r.1 = true →
      r.2.length = buffer.length ∧ src.blocks * BLOCKSIZE ≤ buffer.length :=
  (readBlocksLoop_room src.ranges 0 buffer s (Nat.zero_le _)).imp (fun _ => id) fun r _ _ hr hok => by
    rw [src.blocks_eq]
    simpa using hr hok

theorem quiet_effect {f : Disk → Disk} (h : ∀ s : St, Quiet s { s with disk := f s.disk }) :
    Within Quiet (effect f) := by
  refine quiet_nextFate.bind fun a => ?_
  have hm : Within Quiet (modifyDisk f) := .modify h
  cases a with
  | ok => exact hm.bind fun _ => .pure _
  | fail n =>
    dsimp only
    split
    · exact hm.bind fun _ => .pure _
    · exact .pure _
  | crash n =>
    dsimp only
    split
    · exact hm.bind fun _ => .throw _
    · exact .throw _

theorem quiet_deleteLastCommandFile : Within Quiet deleteLastCommandFile :=
  (quiet_effect fun _ => ⟨rfl, rfl, rfl, rfl, rfl, rfl, rfl, rfl, rfl⟩).bind fun _ => .pure _

theorem quiet_updateLastCommandIndex (commandIndex : Int) (commandString : String) :
    Within Quiet (updateLastCommandIndex commandIndex commandString) :=
  quiet_effect fun _ => ⟨rfl, rfl, rfl, rfl, rfl, rfl, rfl, rfl, rfl⟩

theorem quiet_parseLastCommandFile : Within Quiet (parseLastCommandFile E) := by
  refine quiet_ioOk.bind fun _ => .ite (fun _ => .get_bind fun s => ?_) fun _ => .pure _
  cases s.disk.lastCommand with
  | none => exact .pure _
  | some content => exact .pure _

theorem quiet_printHashes (src locs : RangeSet) (size : Nat) :
    ∀ is : List Nat, Within Quiet (printHashes src locs size is)
  | [] => .pure _
  | i :: is => by
    unfold printHashes
    split
    · exact .ite (fun _ => quiet_printHashes src locs size is) fun _ => .throw _
    · exact .throw _

theorem quiet_printHashForCorruptedSourceBlocks :
    Within Quiet (printHashForCorruptedSourceBlocks E) := by
  refine .get_bind fun s => ?_
  dsimp only
  split
  · exact .pure _
  · refine .ite (fun _ => .pure _) fun _ => .ite (fun _ => .pure _) fun _ => ?_
    refine .ite (fun _ => quiet_printHashes _ _ _ _) fun _ => ?_
    exact .ite (fun _ => quiet_printHashes _ _ _ _) fun _ => .throw _

theorem quiet_printHashForCorruptedStashedBlocks (buffer : List UInt8) (src : RangeSet) :
    Within Quiet (printHashForCorruptedStashedBlocks buffer src) :=
  .ite (fun _ => .pure _) fun _ => .throw _

theorem quiet_printHashForMissingStashedBlocks (id : String) :
    Within Quiet (printHashForMissingStashedBlocks E id) := by
  refine .get_bind fun s => ?_
  split
  · exact .pure _
  · refine (quiet_readBlocks _ _).bind fun r => ?_
    exact .ite (fun _ => quiet_printHashForCorruptedStashedBlocks _ _) fun _ => .pure _

/-- A complete read leaves the file in front of the buffer. -/
theorem readStashFile_reaches (data buffer : List UInt8) (s : St) :
    Reaches Quiet (readStashFile data buffer) s fun r _ =>
      r.1 = true → r.2.take data.length = data := by
  refine (quiet_nextFate s).bind fun f s₁ _ _ => ?_
  cases f with
  | ok => exact .pure fun _ => List.take_left
  | fail n => exact .pure fun h => by cases h
  | crash n => exact .throw

theorem parseChecked_reaches (rangeText : String) (s : St) :
    Reaches Quiet (parseChecked E rangeText) s fun rs _ => rs.isValid = true := by
  unfold parseChecked
  dsimp only
  split
  · exact .pure ‹_›
  · exact .throw

theorem quiet_parseChecked (rangeText : String) : Within Quiet (parseChecked E rangeText) :=
  fun s => (parseChecked_reaches rangeText s).within

/-- The token is one of the command's. -/
theorem nextToken_reaches (s : St) :
    Reaches Quiet nextToken s fun token _ => token ∈ s.params.tokens := by
  refine .bind_get ?_
  dsimp only
  cases ht : s.params.tokens[s.params.cpos]? with
  | none => exact .throw
  | some token =>
    refine .bind_modify ⟨rfl, rfl, rfl, rfl, rfl, rfl, rfl, rfl, rfl⟩ ?_
    exact .pure (List.mem_of_getElem? ht)

theorem quiet_nextToken : Within Quiet nextToken := fun s => (nextToken_reaches s).within

theorem quiet_moveRangeLoop (source : Option (List UInt8)) :
    ∀ (ranges : List Range) (start : Nat) (dest : List UInt8),
      Within Quiet (moveRangeLoop source ranges start dest)
  | [], _, _ => .pure _
  | range :: ranges, start, dest => by
    refine .ite (fun _ => ?_) fun _ => .throw _
    exact (quiet_overwrite _ _ _).bind fun dest => quiet_moveRangeLoop source ranges _ dest

theorem quiet_moveRange (dest : List UInt8) (locs : RangeSet) (source : Option (List UInt8)) :
    Within Quiet (moveRange dest locs source) := quiet_moveRangeLoop _ _ _ _

theorem quiet_noteStatus (complete : Bool) : Within Quiet (noteStatus complete) := by
  cases complete with
  | true => exact quiet_modifyParams (fun _ => rfl) (fun _ => rfl) (fun _ => rfl) (fun _ => rfl) fun _ => rfl
  | false => exact quiet_modifyParams (fun _ => rfl) (fun _ => rfl) (fun _ => rfl) (fun _ => rfl) fun _ => rfl

/-- The source hash is one of the command's tokens. -/
theorem loadHashes_reaches (onehash : Bool) (s : St) :
    Reaches Quiet (loadHashes onehash) s fun hashes _ =>
      ∀ srchash tgthash, hashes = some (srchash, tgthash) → srchash ∈ s.params.tokens := by
  refine .bind_get ?_
  dsimp only
  split
  · exact .pure fun _ _ h => by cases h
  · refine (nextToken_reaches s).bind fun srchash s₁ _ hsrc => ?_
    cases onehash with
    | true => exact .pure fun _ _ h => by cases h; exact hsrc
    | false =>
      refine .bind_get ?_
      split
      · exact .pure fun _ _ h => by cases h
      · refine (quiet_nextToken s₁).bind fun tgthash s₂ _ _ => ?_
        exact .pure fun _ _ h => by cases h; exact hsrc

/-! ## Stashes -/

abbrev Steps (E : Env) : St → St → Prop := ReflTransGen (Step E)

theorem Quiet.steps {s s' : St} (h : Quiet s s') : Steps E s s' := .single (.quiet h)

theorem reaches_of_quiet {α : Type} {x : M α} {s : St} {Q : α → St → Prop}
    (h : Reaches Quiet x s Q) : Reaches (Steps E) x s fun a s' => Quiet s s' ∧ Q a s' :=
  h.imp (fun _ => Quiet.steps) fun _ _ hs hq => ⟨hs, hq⟩

theorem within_of_quiet {α : Type} {x : M α} (h : Within Quiet x) : Within (Steps E) x :=
  h.mono fun _ _ => Quiet.steps

/-- An operation on the disk that takes effect as a whole is a step, or nothing has happened. -/
theorem effect_steps {f : Disk → Disk} {s : St}
    (h : ∀ s₁, Quiet s s₁ → Step E s₁ { s₁ with disk := f s₁.disk }) :
    Reaches (Steps E) (effect f) s fun _ _ => True := by
  refine (reaches_of_quiet (quiet_nextFate s)).bind fun a s₁ _ hs => ?_
  have hm : Steps E s₁ { s₁ with disk := f s₁.disk } := .single (h s₁ hs.1)
  cases a with
  | ok => exact .bind_modify hm (.pure trivial)
  | fail n =>
    dsimp only
    split
    · exact .bind_modify hm (.pure trivial)
    · exact .pure trivial
  | crash n =>
    dsimp only
    split
    · exact .bind_modify hm .throw
    · exact .throw

theorem deleteFile_steps {name : String} {s : St}
    (h : ∀ s₁, Quiet s s₁ → Step E s₁ (s₁.eraseStash name)) :
    Reaches (Steps E) (deleteFile name) s fun _ _ => True :=
  (effect_steps h).bind fun _ _ _ _ => .pure trivial

theorem deleteFiles_steps : ∀ (names : List String) (s : St),
    (∀ name ∈ names, ∀ s₁, Steps E s s₁ → Step E s₁ (s₁.eraseStash name)) →
      Reaches (Steps E) (deleteFiles names) s fun _ _ => True
  | [], _, _ => .pure trivial
  | name :: names, s, h => by
    refine (deleteFile_steps fun s₁ hs => h name List.mem_cons_self s₁ hs.steps).bind ?_
    intro _ s₁ hs _
    exact deleteFiles_steps names s₁ fun n hn s₂ hs₂ =>
      h n (List.mem_cons_of_mem _ hn) s₂ (hs.trans hs₂)

theorem deleteUnexpected_steps {id : String} {data : List UInt8} {s : St}
    (hid : id ∈ s.params.tokens) (hfile : s.disk.stash.lookup (E.stashFile id) = some data)
    (hhash : E.hash data ≠ id) :
    Reaches (Steps E) (deleteFile (E.stashFile id)) s fun _ _ => True :=
  deleteFile_steps fun _ hs => .unexpected (hs.tokens ▸ hid) (hs.stash ▸ hfile) hhash

/-- `LoadStash` deletes a file only when it verifies, and only one with unexpected contents. -/
theorem loadStash_steps {id : String} {verify : Bool} {s : St}
    (hid : verify = true → id ∈ s.params.tokens) (buffer : List UInt8) (printnoent : Bool) :
    Reaches (Steps E) (loadStash E id verify buffer printnoent) s fun _ _ => True := by
  refine .bind_get ?_
  split
  · refine (within_of_quiet (quiet_readBlocks _ _) s).bind fun r s₁ _ _ => ?_
    dsimp only
    split
    · exact .pure trivial
    · split
      · exact .pure trivial
      · exact within_of_quiet ((quiet_printHashForCorruptedStashedBlocks _ _).bind
          fun _ => .pure _) s₁
  · refine (reaches_of_quiet (quiet_ioOk s)).bind fun statOk s₁ _ h₁ => ?_
    split
    · refine within_of_quiet ?_ s₁
      exact .ite (fun _ => (quiet_printHashForMissingStashedBlocks _).bind fun _ => .pure _)
        fun _ => .pure _
    · rename_i data hfile
      split
      · exact within_of_quiet ((quiet_printHashForMissingStashedBlocks _).bind fun _ => .pure _) s₁
      · split
        · exact .pure trivial
        · refine (reaches_of_quiet (quiet_ioOk s₁)).bind fun openOk s₂ _ h₂ => ?_
          split
          · refine (reaches_of_quiet (readStashFile_reaches _ _ s₂)).bind fun r s₃ _ h₃ => ?_
            dsimp only
            split
            · exact .pure trivial
            · rename_i hok
              split
              · rename_i hbad
                have hs : Quiet s s₃ := (h₁.1.trans h₂.1).trans h₃.1
                have hhash : E.hash data ≠ id := by
                  rw [← h₃.2 (by simpa using hok)]
                  simpa [verifyBlocks] using hbad.2
                have hdel : ∀ s₄, Quiet s s₄ →
                    Reaches (Steps E) (deleteFile (E.stashFile id) >>= fun _ => pure (false, r.2)) s₄
                      fun _ _ => True := fun s₄ h₄ =>
                  (deleteUnexpected_steps (h₄.tokens ▸ hid hbad.1) (h₄.stash ▸ hfile) hhash).bind
                    fun _ _ _ _ => .pure trivial
                split
                · exact hdel s₃ hs
                · refine (reaches_of_quiet
                    (quiet_printHashForCorruptedStashedBlocks _ _ s₃)).bind fun _ s₄ _ h₄ => ?_
                  exact hdel s₄ (hs.trans h₄.1)
              · exact .pure trivial
          · exact .pure trivial

theorem loadStashes_steps : ∀ stashes : List String, Within (Steps E) (loadStashes E stashes)
  | [] => .pure _
  | _ :: rest => by
    refine (within_of_quiet quiet_nextToken).bind fun token => ?_
    dsimp only
    split
    · refine Within.bind (fun s => loadStash_steps (fun h => by cases h) _ _) fun r => ?_
      refine .ite (fun _ => ?_) fun _ => loadStashes_steps rest
      refine (within_of_quiet (quiet_parseChecked _)).bind fun locs => .get_bind fun s => ?_
      refine (within_of_quiet (quiet_moveRange _ _ _)).bind fun buffer => ?_
      exact (within_of_quiet (quiet_setBuffer _)).bind fun _ => loadStashes_steps rest
    · exact .pure _

theorem loadSourceBlocks_steps (tgt : RangeSet) : Within (Steps E) (loadSourceBlocks E tgt) := by
  refine (within_of_quiet quiet_nextToken).bind fun token => ?_
  split
  · exact .pure _
  · refine .get_bind fun s => (within_of_quiet (quiet_setBuffer _)).bind fun _ => ?_
    refine (within_of_quiet quiet_nextToken).bind fun token => .ite (fun _ => ?_) fun _ => ?_
    · refine .get_bind fun s => (loadStashes_steps _).bind fun ok => ?_
      exact .ite (fun _ => .pure _) fun _ => .pure _
    · refine (within_of_quiet (quiet_parseChecked _)).bind fun src => .get_bind fun s => ?_
      refine (within_of_quiet (quiet_readBlocks _ _)).bind fun r => ?_
      refine (within_of_quiet (quiet_setBuffer _)).bind fun _ => .ite (fun _ => .pure _) fun _ => ?_
      refine .get_bind fun s => .ite (fun _ => .pure _) fun _ => ?_
      refine (within_of_quiet quiet_nextToken).bind fun token => ?_
      refine (within_of_quiet (quiet_parseChecked _)).bind fun locs => .get_bind fun s => ?_
      refine (within_of_quiet (quiet_moveRange _ _ _)).bind fun buffer => ?_
      refine (within_of_quiet (quiet_setBuffer _)).bind fun _ => .get_bind fun s => ?_
      refine (loadStashes_steps _).bind fun ok => ?_
      exact .ite (fun _ => .pure _) fun _ => .pure _

theorem writePartial_steps (hw : E.canwrite = true) (id : String) (data : List UInt8) (s : St) :
    Reaches (Steps E) (writePartial id data) s fun ok s' =>
      ok = true → s'.disk.stash.lookup (partialName id) = some data := by
  have hstep : ∀ (s₁ : St) (data : List UInt8),
      Steps E s₁ (s₁.setStash (s₁.disk.stash.insert (partialName id) data)) :=
    fun s₁ data => .single (.writePartial id data hw)
  refine (within_of_quiet quiet_nextFate s).bind fun f s₁ _ _ => ?_
  cases f with
  | ok => exact .bind_modify (hstep s₁ _) (.pure fun _ => AList.lookup_insert _)
  | fail n => exact .bind_modify (hstep s₁ _) (.pure fun h => by cases h)
  | crash n => exact .bind_modify (hstep s₁ _) .throw

theorem blockBytes_mod (n : Nat) : blockBytes n % BLOCKSIZE = 0 := by
  unfold blockBytes BLOCKSIZE
  lia

/-- A file that holds what its name says, written and renamed. -/
theorem storeFile_steps (hw : E.canwrite = true) {id : String} {data : List UInt8}
    (hsize : data.length % BLOCKSIZE = 0) (hhash : E.hash data = id) :
    Within (Steps E) (do
      if ← writePartial id data then
        let ok ← effect (renamePartial id)
        return (ok, false)
      else return (false, false) : M (Bool × Bool)) := by
  intro s
  refine (writePartial_steps hw id data s).bind fun ok s₁ _ hp => ?_
  split
  · rename_i hok
    refine Reaches.bind (effect_steps fun s₂ hs => ?_) fun _ _ _ _ => .pure trivial
    rw [renamePartial, hs.stash, hp hok]
    dsimp only
    rw [← hs.stash]
    exact .store hw hsize hhash
  · exact .pure trivial

/-- What `WriteStash` stores has been verified by its caller. -/
theorem writeStash_steps (hw : E.canwrite = true) {id : String} {blocks : Nat}
    {buffer : List UInt8} (hv : verifyBlocks E id buffer (blockBytes blocks) = true)
    (checkspace checkExists : Bool) :
    Within (Steps E) (writeStash id blocks buffer checkspace checkExists) := by
  have hwrite : ∀ statOk : Bool, Within (Steps E) (do
      let d := (← get).disk
      if statOk ∧ (d.stash.lookup id).isSome then return (true, true)
      else if ¬ d.stashDir then return (false, false)
      else if blockBytes blocks ≤ buffer.length then
        if ← writePartial id (buffer.take (blockBytes blocks)) then
          let ok ← effect (renamePartial id)
          return (ok, false)
        else return (false, false)
      else throw .overrun : M (Bool × Bool)) := by
    intro statOk
    refine .get_bind fun s => .ite (fun _ => .pure _) fun _ => .ite (fun _ => .pure _) fun _ => ?_
    refine .ite (fun hlen => storeFile_steps hw ?_ ?_) fun _ => .throw _
    · rw [List.length_take, Nat.min_eq_left hlen, blockBytes_mod]
    · exact eq_of_beq hv
  refine (within_of_quiet quiet_ioOk).bind fun _ => .ite (fun _ => .pure _) fun _ => ?_
  dsimp only
  split
  · exact (within_of_quiet quiet_ioOk).bind hwrite
  · exact (Within.pure _).bind hwrite

theorem freeStash_steps {id : String} {s : St}
    (h : ∀ s₁, Quiet s s₁ → Step E s₁ (s₁.eraseStash (E.stashFile id))) :
    Reaches (Steps E) (freeStash E id) s fun _ _ => True := by
  unfold freeStash
  split
  · exact .pure trivial
  · exact (deleteFile_steps h).bind fun _ _ _ _ => .pure trivial

theorem deleteStash_steps {s : St} (h : Deletes E s) :
    Reaches (Steps E) deleteStash s fun _ _ => True := by
  refine .bind_get ?_
  refine (deleteFiles_steps _ s fun name _ s₁ hs => .delete name (steps_deletes hs h)).bind ?_
  intro _ s₁ hs _
  refine Reaches.bind (effect_steps fun s₂ hq => ?_) fun _ _ _ _ => .pure trivial
  split
  · exact .rmdir (steps_deletes (hs.trans hq.steps) h)
  · exact .quiet (refl s₂)

/-! ## Commands -/

/-- Only verified source blocks are stashed, and only by an update. -/
theorem stashOverlap_steps (hw : E.canwrite = true) {srchash : String} {srcBlocks : Nat} {s : St}
    (hv : verifyBlocks E srchash s.params.buffer (blockBytes srcBlocks) = true) :
    Reaches (Steps E) (stashOverlap srchash srcBlocks) s fun _ _ => True := by
  refine .bind_get ((writeStash_steps hw hv true true s).bind fun r s₁ _ _ => ?_)
  dsimp only
  split
  · exact .pure trivial
  · refine (within_of_quiet (quiet_updateLastCommandIndex _ _) s₁).bind fun _ s₂ _ _ => ?_
    have hnote := Step.noteStash (E := E) (s := s₂) (if r.2 then s₂.params.freestash else srchash) hw
    refine .bind_modify (.tail (.single hnote) (.quiet ?_)) (.pure trivial)
    exact ⟨rfl, rfl, rfl, rfl, rfl, rfl, rfl, rfl, rfl⟩

theorem unresumable_steps {α : Type} (a : α) : Within (Steps E) (do
    printHashForCorruptedSourceBlocks E
    modifyParams fun p => { p with isunresumable := true }
    return a : M α) := by
  refine (within_of_quiet quiet_printHashForCorruptedSourceBlocks).bind fun _ => ?_
  exact (Within.modify fun _ => .single .unresumable).bind fun _ => .pure _

theorem loadSrcTgtVersion3_steps (onehash : Bool) :
    Within (Steps E) (loadSrcTgtVersion3 E onehash) := by
  intro s
  refine (reaches_of_quiet (loadHashes_reaches onehash s)).bind fun hashes s₁ hs₁ h₁ => ?_
  split
  · exact .pure trivial
  rename_i srchash tgthash
  have hsrc : srchash ∈ s₁.params.tokens := h₁.1.tokens ▸ h₁.2 srchash tgthash rfl
  refine .bind_get ?_
  dsimp only
  split
  · exact .pure trivial
  refine (within_of_quiet quiet_nextToken s₁).bind fun token s₂ hs₂ _ => ?_
  refine (within_of_quiet (quiet_parseChecked _) s₂).bind fun tgt s₃ hs₃ _ => ?_
  refine (within_of_quiet (quiet_readBlocks _ _) s₃).bind fun r s₄ hs₄ _ => ?_
  split
  · exact .pure trivial
  split
  · exact .pure trivial
  refine (loadSourceBlocks_steps tgt s₄).bind fun source s₅ hs₅ _ => ?_
  split
  · exact .pure trivial
  rename_i srcBlocks overlap
  refine .bind_get ?_
  split
  · rename_i hv
    split
    · rename_i hw
      refine (stashOverlap_steps hw.2 hv).bind fun ok s₆ _ _ => ?_
      exact (Within.ite (fun _ => .pure _) fun _ => .pure _) s₆
    · exact .pure trivial
  · split
    · have hs : Steps E s₁ s₅ := ((hs₂.trans hs₃).trans hs₄).trans hs₅
      have htoken : srchash ∈ s₅.params.tokens := by rw [steps_tokens hs]; exact hsrc
      refine (loadStash_steps (fun _ => htoken) _ _).bind fun r s₆ _ _ => ?_
      refine (within_of_quiet (quiet_setBuffer _) s₆).bind fun _ s₇ _ _ => ?_
      refine (Within.pure r.1 s₇).bind fun recovered s₈ _ _ => ?_
      exact (Within.ite (fun _ => .pure _) fun _ => unresumable_steps none) s₈
    · exact (Within.pure false s₅).bind fun recovered s₆ _ _ =>
        (Within.ite (fun _ => .pure _) fun _ => unresumable_steps none) s₆

theorem countWritten_steps (blocks : Nat) :
    Within (Steps E) (modifyParams fun p => { p with written := p.written + blocks }) :=
  within_of_quiet (quiet_modifyParams (fun _ => rfl) (fun _ => rfl) (fun _ => rfl) (fun _ => rfl) fun _ => rfl)

theorem finishCommand_steps (tgt : RangeSet) : Within (Steps E) (finishCommand E tgt) := by
  intro s
  refine .bind_get ?_
  dsimp only
  split
  · rename_i hne
    refine Reaches.bind (freeStash_steps fun s₁ hs => ?_) fun _ s₁ _ _ => ?_
    · rw [← hs.freestash] at hne ⊢
      exact .freeNoted hne
    · exact (Within.modify fun _ => .single .forgetStash).bind (fun _ => countWritten_steps _) s₁
  · exact countWritten_steps _ s

/-! ## Writes to the target -/

theorem putBytes_steps (hw : E.canwrite = true) (bs : List UInt8) :
    Within (Steps E) (putBytes bs) := by
  refine .modify fun s => ?_
  have hdev := Step.device (E := E) (s := s) (fill s.disk.dev (List.range' s.pos bs.length) bs) hw
  exact .tail (.single hdev) (.quiet ⟨rfl, rfl, rfl, rfl, rfl, rfl, rfl, rfl, rfl⟩)

theorem dropBytes_steps (hw : E.canwrite = true) (offset n : Nat) :
    Within (Steps E) (dropBytes E offset n) := .modify fun _ => .single (.device _ hw)

theorem writeAll_steps (hw : E.canwrite = true) (data : List UInt8) :
    Within (Steps E) (writeAll E data) := by
  refine .get_bind fun s => (within_of_quiet quiet_nextFate).bind fun f => ?_
  have herr : Within (Steps E) (setDevError >>= fun _ => pure false) :=
    (within_of_quiet quiet_setDevError).bind fun _ => .pure _
  cases f with
  | ok => exact (putBytes_steps hw _).bind fun _ => .ite (fun _ => .pure _) fun _ => herr
  | fail n => exact (putBytes_steps hw _).bind fun _ => herr
  | crash n => exact (putBytes_steps hw _).bind fun _ => .throw _

theorem blkDiscard_steps (hw : E.canwrite = true) (offset size : Nat) :
    Within (Steps E) (blkDiscard E offset size) := by
  refine (within_of_quiet quiet_nextFate).bind fun f => ?_
  have herr : Within (Steps E) (setDevError >>= fun _ => pure false) :=
    (within_of_quiet quiet_setDevError).bind fun _ => .pure _
  cases f with
  | ok => exact .ite (fun _ => (dropBytes_steps hw _ _).bind fun _ => .pure _) fun _ => herr
  | fail n => exact (dropBytes_steps hw _ _).bind fun _ => herr
  | crash n => exact (dropBytes_steps hw _ _).bind fun _ => .throw _

theorem discardBlocks_steps (hw : E.canwrite = true) (offset size : Nat) :
    Within (Steps E) (discardBlocks E offset size) :=
  .ite (fun _ => .pure _) fun _ => blkDiscard_steps hw _ _

theorem writeBlocksLoop_steps (hw : E.canwrite = true) (buffer : List UInt8) :
    ∀ (ranges : List Range) (written : Nat),
      Within (Steps E) (writeBlocksLoop E buffer ranges written)
  | [], _ => .pure _
  | range :: ranges, written => by
    refine (discardBlocks_steps hw _ _).bind fun _ => .ite (fun _ => ?_) fun _ => .pure _
    refine (within_of_quiet (quiet_checkLseek _)).bind fun _ => .ite (fun _ => ?_) fun _ => .pure _
    refine .ite (fun _ => ?_) fun _ => .throw _
    refine (writeAll_steps hw _).bind fun _ => .ite (fun _ => ?_) fun _ => .pure _
    exact writeBlocksLoop_steps hw buffer ranges _

theorem seekToOutputRange_steps (hw : E.canwrite = true) (w : RangeSinkWriter) :
    Within (Steps E) (w.seekToOutputRange E) := by
  unfold RangeSinkWriter.seekToOutputRange
  split
  · exact .pure _
  · split
    · exact .pure _
    · refine (discardBlocks_steps hw _ _).bind fun _ => .ite (fun _ => ?_) fun _ => .pure _
      refine (within_of_quiet (quiet_checkLseek _)).bind fun _ => ?_
      exact .ite (fun _ => .pure _) fun _ => .pure _

theorem writeLoop_steps (hw : E.canwrite = true) :
    ∀ (fuel : Nat) (data : List UInt8) (written : Nat) (w : RangeSinkWriter),
      Within (Steps E) (RangeSinkWriter.writeLoop E fuel data written w)
  | 0, _, _, _ => .pure _
  | fuel + 1, data, written, w => by
    refine .ite (fun _ => .pure _) fun _ => (seekToOutputRange_steps hw w).bind fun r => ?_
    split
    · exact .pure _
    · refine (writeAll_steps hw _).bind fun _ => .ite (fun _ => ?_) fun _ => .pure _
      exact writeLoop_steps hw fuel _ _ _

theorem write_steps (hw : E.canwrite = true) (w : RangeSinkWriter) (data : List UInt8) :
    Within (Steps E) (w.write E data) :=
  .ite (fun _ => .pure _) fun _ => (writeLoop_steps hw _ _ _ _).bind fun _ => .pure _

theorem sinkPieces_steps (hw : E.canwrite = true) :
    ∀ (pieces : List (List UInt8)) (w : RangeSinkWriter), Within (Steps E) (sinkPieces E pieces w)
  | [], _ => .pure _
  | piece :: pieces, w => by
    refine (write_steps hw w piece).bind fun r => ?_
    exact .ite (fun _ => sinkPieces_steps hw pieces _) fun _ => .pure _

theorem writeZeros_steps (hw : E.canwrite = true) : ∀ n : Nat, Within (Steps E) (writeZeros E n)
  | 0 => .pure _
  | n + 1 => .get_bind fun _ => (writeAll_steps hw _).bind fun _ =>
      .ite (fun _ => writeZeros_steps hw n) fun _ => .pure _

theorem zeroRanges_steps (hw : E.canwrite = true) :
    ∀ ranges : List Range, Within (Steps E) (zeroRanges E ranges)
  | [] => .pure _
  | range :: ranges => by
    refine (discardBlocks_steps hw _ _).bind fun _ => .ite (fun _ => ?_) fun _ => .pure _
    refine (within_of_quiet (quiet_checkLseek _)).bind fun _ => .ite (fun _ => ?_) fun _ => .pure _
    exact (writeZeros_steps hw _).bind fun _ =>
      .ite (fun _ => zeroRanges_steps hw ranges) fun _ => .pure _

theorem eraseRanges_steps (hw : E.canwrite = true) :
    ∀ ranges : List Range, Within (Steps E) (eraseRanges E ranges)
  | [] => .pure _
  | range :: ranges => by
    have hrest : ∀ ok : Bool, Within (Steps E) (if ok then eraseRanges E ranges else pure false) :=
      fun _ => .ite (fun _ => eraseRanges_steps hw ranges) fun _ => .pure _
    unfold eraseRanges
    dsimp only
    split
    · exact (Within.pure _).bind hrest
    · exact (blkDiscard_steps hw _ _).bind hrest

end Recovery.BlockImg
