import Recovery.ApplyPatch.Interrupted

/-!
# `applypatch_flash`

* `applypatchFlash` — look at the target, load the source, write the target.  `FlashSt` logs what
  each write of the target partition gets: bytes of the source, or bytes from behind its buffer.
* `sourceFound` — what `LoadFileContents` finds when nothing goes wrong; `loadFileContents_found`.
* `Meets` — only data of the given size and hash is written, and nothing is written when the call
  fails or the target is already there.
* `applypatchFlash_iff` — that holds of every run exactly when no source with the target's hash
  has another size.

The buffer of the source has the size of the source, and `target_size` bytes are written from it;
what lies behind it is not modelled as bytes but logged as such.
-/

set_option autoImplicit false

namespace Recovery.ApplyPatch

open Recovery.Lib Recovery.OtaUtil

/-! ## The code -/

structure FlashSt where
  st : St
  /-- What the writes of the target got; `none` stands for bytes behind the end of the buffer. -/
  handed : List (Option Bytes)

abbrev FlashM := EStateM Stop FlashSt

/-- An operation that writes nothing to the target, or whose data is in the log. -/
def unlogged {α : Type} (x : M α) : FlashM α := fun s =>
  match x s.st with
  | .ok a st => .ok a { s with st := st }
  | .error e st => .error e { s with st := st }

def logWrite (data : Option Bytes) : FlashM Unit :=
  modify fun s => { s with handed := s.handed ++ [data] }

structure FlashArgs where
  sourceFilename : String
  targetFilename : String
  targetSha1Str : String
  targetSize : Nat

/-- `Join(pieces, ':')` for the target's pieces, its size and its hash. -/
def FlashArgs.fullname (args : FlashArgs) (type dev : String) : String :=
  ":".intercalate [type, dev, toString args.targetSize, args.targetSha1Str]

variable (E : Env)

/-- `WriteToPartition(data.data(), len, target)` for an EMMC target; `true` is `0`. -/
def writeVector (data : Bytes) (len : Nat) (target : String) : FlashM Bool := do
  match E.base.split target ":" with
  | type :: partition :: _ =>
    if type ≠ "EMMC" then return false
    else
      match ← unlogged (openFile .write partition) with
      | none => return false
      | some _ =>
        if len = 0 then
          -- the loop of writes is not entered
          unlogged (attempts partition [] 2 .held 0)
        else if len ≤ data.length then
          logWrite (some (data.take len))
          unlogged (attempts partition (data.take len) 2 .held 0)
        else if data = [] then
          -- `lseek`; an empty vector has no buffer, and a write from the null pointer fails
          let _ ← unlogged (onFd .held)
          return false
        else
          logWrite none
          throw .overrun
  | _ => return false

/-- The write of `applypatch_flash`: the exit status. -/
def flashData (args : FlashArgs) (data : Bytes) : FlashM Nat := do
  if ← writeVector E data args.targetSize args.targetFilename then return 0
  else return 1

/-- `applypatch_flash` from the load of the source on, `sourceFile` being what the load of the
target has left in it. -/
def flashSource (args : FlashArgs) (targetSha1 sourceFile : Bytes) : FlashM Nat := do
  match ← unlogged (loadFileContents E args.sourceFilename) with
  | some file => if file.sha1 ≠ targetSha1 then return 1 else flashData E args file.data
  | none => flashData E args sourceFile

def applypatchFlash (args : FlashArgs) : FlashM Nat := do
  match parseSha1 args.targetSha1Str with
  | none => return 1
  | some targetSha1 =>
    match E.base.split args.targetFilename ":" with
    | [type, dev] =>
      if type ≠ "EMMC" then return 1
      else
        match ← unlogged (loadPartitionContents E (args.fullname type dev)) with
        | some file =>
          if file.sha1 = targetSha1 then return 0 else flashSource E args targetSha1 file.data
        | none => flashSource E args targetSha1 []
    | _ => return 1

/-! ## What it is for -/

abbrev Files := String → Option Bytes

/-- `data` is the image that the hash and the size describe. -/
def FlashArgs.Image (args : FlashArgs) (data : Bytes) : Prop :=
  data.length = args.targetSize ∧ parseSha1 args.targetSha1Str = some (E.sha1 data)

/-- The target partition already holds an image with the target's hash. -/
def FlashArgs.Flashed (args : FlashArgs) (files : Files) : Prop :=
  ∃ dev content, E.base.split args.targetFilename ":" = ["EMMC", dev] ∧
    files dev = some content ∧ args.Image E (content.take args.targetSize)

/-- What is written is the image, and if nothing is written the files are what they were. -/
def FlashArgs.Fair (args : FlashArgs) (files : Files) (s : FlashSt) : Prop :=
  (∀ w ∈ s.handed, ∃ data, w = some data ∧ args.Image E data) ∧
    (s.handed = [] → s.st.files = files)

/-- Besides, a call that has written nothing fails, or the target is already there. -/
def FlashArgs.Done (args : FlashArgs) (files : Files) (status : Nat) (s : FlashSt) : Prop :=
  args.Fair E files s ∧ (s.handed = [] → status ≠ 0 ∨ args.Flashed E files)

/-- A run of `applypatch_flash` does what it is for, also one that is stopped. -/
def FlashArgs.Meets (args : FlashArgs) (files : Files) (fates : Phase → List Fate) : Prop :=
  Outcome (applypatchFlash E args) { st := { files := files, fates := fates }, handed := [] }
    (args.Done E files) fun _ s' => args.Fair E files s'

/-- If the target can be written, a source with the target's hash has the target's size.  (An
empty source is never written, and a longer one might collide with its own beginning.) -/
def FlashArgs.SourceFits (args : FlashArgs) (files : Files) (source : Option FileContents) :
    Prop :=
  ∀ dev file, E.base.split args.targetFilename ":" = ["EMMC", dev] → files dev ≠ none →
    args.targetSize ≠ 0 → source = some file →
    parseSha1 args.targetSha1Str = some (E.sha1 file.data) → file.data ≠ [] →
    args.Image E (file.data.take args.targetSize)

/-! ## Loading -/

/-- What `LoadPartitionContents` finds in a device for these pairs. -/
def pairsFound (dev : Bytes) : List (Nat × String) → Option FileContents
  | [] => none
  | (size, sha) :: pairs =>
    if dev.length < size then none
    else match parseSha1 sha with
      | none => none
      | some parsed =>
        if E.sha1 (dev.take size) = parsed then
          some { sha1 := E.sha1 (dev.take size), data := dev.take size }
        else pairsFound dev pairs

def partitionFound (files : Files) (filename : String) : Option FileContents :=
  match partitionName E filename with
  | none => none
  | some (dev, pairs) => (files dev).bind fun content => pairsFound E content pairs

/-- What `LoadFileContents` finds when nothing goes wrong. -/
def sourceFound (files : Files) (filename : String) : Option FileContents :=
  if isPartitionName filename then partitionFound E files filename
  else (files filename).map fun data => { sha1 := E.sha1 data, data := data }

section Loading

variable {E}

theorem matchPairs_found {dev : Bytes} : ∀ (pairs : List (Nat × String)) (n : Nat) (s : St),
    Probe .load (matchPairs E dev pairs n) s (pairsFound E dev pairs) none
  | [], n, s => Probe.pure _ s _ _
  | (size, sha) :: pairs, n, s => by
    have hread : Probe .load (readNext (size - n)) s true false := by
      unfold readNext
      split
      · exact ioOk_probe .load s
      · exact Probe.pure _ s _ _
    unfold matchPairs pairsFound
    apply hread.bind
    · intro s₁ _
      by_cases hsize : dev.length < size
      · rw [if_pos (Or.inr hsize), if_pos hsize]
        exact Probe.pure _ s₁ _ _
      rw [if_neg (by simpa using hsize), if_neg hsize]
      cases parseSha1 sha with
      | none => exact Probe.pure _ s₁ _ _
      | some parsed =>
        simp only
        split
        · exact Probe.pure _ s₁ _ _
        · exact matchPairs_found pairs size s₁
    · exact if_pos (Or.inl rfl)

theorem loadPartitionContents_found (filename : String) (s : St) :
    Probe .load (loadPartitionContents E filename) s (partitionFound E s.files filename) none := by
  unfold loadPartitionContents partitionFound
  cases hname : partitionName E filename with
  | none => exact Probe.pure _ s _ _
  | some name =>
    obtain ⟨dev, pairs⟩ := name
    dsimp only
    apply (openFile_probe .load dev s).bind
    · intro s₁ _
      cases s.files dev with
      | none => exact Probe.pure _ s₁ _ _
      | some content => exact matchPairs_found pairs 0 s₁
    · rfl

theorem loadFileContents_found (filename : String) (s : St) :
    Probe .load (loadFileContents E filename) s (sourceFound E s.files filename) none := by
  by_cases h : isPartitionName filename = true
  · rw [loadFileContents, sourceFound, if_pos h, if_pos h]
    exact loadPartitionContents_found filename s
  · rw [sourceFound, if_neg h]
    exact loadFileContents_file s (by simpa using h)

/-- A file that is loaded comes with its hash. -/
theorem sourceFound_sha1 {files : Files} {filename : String} {file : FileContents}
    (h : sourceFound E files filename = some file) : file.sha1 = E.sha1 file.data := by
  have pairs_sha1 : ∀ {dev : Bytes} (pairs : List (Nat × String)),
      pairsFound E dev pairs = some file → file.sha1 = E.sha1 file.data := by
    intro dev pairs
    induction pairs with
    | nil => intro h; cases h
    | cons p pairs ih =>
      obtain ⟨size, sha⟩ := p
      intro h
      unfold pairsFound at h
      split at h
      · cases h
      split at h
      · cases h
      split at h
      · cases h; rfl
      · exact ih h
  unfold sourceFound at h
  split at h
  · unfold partitionFound at h
    split at h
    · cases h
    · obtain ⟨content, -, h⟩ := Option.bind_eq_some_iff.1 h
      exact pairs_sha1 _ h
  · obtain ⟨data, -, rfl⟩ := Option.map_eq_some_iff.1 h
    rfl

/-- The target's own name lists one size and one hash. -/
theorem partitionName_fullname {args : FlashArgs} {dev : String}
    (hsplit : E.base.split (args.fullname "EMMC" dev) ":" =
      ["EMMC", dev, toString args.targetSize, args.targetSha1Str])
    (hsize : E.base.parseUint (toString args.targetSize) SIZE_MAX = some args.targetSize) :
    partitionName E (args.fullname "EMMC" dev) =
      if args.targetSize = 0 then none else some (dev, [(args.targetSize, args.targetSha1Str)]) := by
  have hpairs : parsePairs E [toString args.targetSize, args.targetSha1Str] =
      if args.targetSize = 0 then none else some [(args.targetSize, args.targetSha1Str)] := by
    unfold parsePairs
    rw [hsize]
    rfl
  unfold partitionName
  rw [hsplit]
  simp only [hpairs]
  by_cases h : args.targetSize = 0
  · simp [h]
  · simp [h, sortPairs]

/-- What is found under the target's own name is the image. -/
theorem partitionFound_target {args : FlashArgs} {dev : String} {files : Files}
    {file : FileContents}
    (hsplit : E.base.split (args.fullname "EMMC" dev) ":" =
      ["EMMC", dev, toString args.targetSize, args.targetSha1Str])
    (hsize : E.base.parseUint (toString args.targetSize) SIZE_MAX = some args.targetSize)
    (h : partitionFound E files (args.fullname "EMMC" dev) = some file) :
    ∃ content, files dev = some content ∧ args.Image E (content.take args.targetSize) ∧
      parseSha1 args.targetSha1Str = some file.sha1 := by
  unfold partitionFound at h
  rw [partitionName_fullname hsplit hsize] at h
  by_cases h0 : args.targetSize = 0
  · rw [if_pos h0] at h
    cases h
  rw [if_neg h0] at h
  obtain ⟨content, hcontent, h⟩ := Option.bind_eq_some_iff.1 h
  unfold pairsFound at h
  split at h
  · cases h
  rename_i hlen
  split at h
  · cases h
  rename_i parsed hparsed
  by_cases heq : E.sha1 (content.take args.targetSize) = parsed
  · rw [if_pos heq] at h
    cases h
    refine ⟨content, hcontent, ⟨?_, ?_⟩, ?_⟩
    · rw [List.length_take]; lia
    · rw [hparsed, heq]
    · rw [hparsed, heq]
  · rw [if_neg heq] at h
    cases h

end Loading

/-! ## Runs -/

section Runs

variable {E} {α : Type} {s : FlashSt}

theorem unlogged_outcome {x : M α} {Q : α → St → Prop} {C : Stop → St → Prop}
    (h : Outcome x s.st Q C) :
    Outcome (unlogged x) s (fun a s' => Q a s'.st ∧ s'.handed = s.handed)
      (fun e s' => C e s'.st ∧ s'.handed = s.handed) := by
  unfold Outcome at h ⊢
  unfold unlogged
  cases hr : x s.st with
  | ok a st => rw [hr] at h; exact ⟨h, rfl⟩
  | error e st => rw [hr] at h; exact ⟨h, rfl⟩

/-- Whatever the operation does, the log stays. -/
theorem unlogged_handed (x : M α) (s : FlashSt) :
    Outcome (unlogged x) s (fun _ s' => s'.handed = s.handed) (fun _ s' => s'.handed = s.handed) := by
  have h : Outcome x s.st (fun _ _ => True) fun _ _ => True := by
    unfold Outcome
    split <;> trivial
  exact (unlogged_outcome h).weaken (fun _ _ h => h.2) fun _ _ h => h.2

theorem FlashArgs.Fair.of_unwritten {args : FlashArgs} {files : Files} {s : FlashSt}
    (hs : s.handed = []) (hf : s.st.files = files) : args.Fair E files s := by
  refine ⟨fun w hw => ?_, fun _ => hf⟩
  rw [hs] at hw
  cases hw

theorem FlashArgs.Done.failed {args : FlashArgs} {files : Files} {s : FlashSt} (hs : s.handed = [])
    (hf : s.st.files = files) : args.Done E files 1 s :=
  ⟨.of_unwritten hs hf, fun _ => .inl (by decide)⟩

/-- Attempts to write nothing change nothing. -/
theorem attempts_nil {part : String} {dev : Bytes} {st : St} (hs : st.files part = some dev) :
    Outcome (attempts part [] 2 .held 0) st (fun b s' => b = false ∧ s'.files = st.files)
      (fun _ s' => s'.files = st.files) := by
  have hp (k : Nat) : partly dev [] k = dev := by simp [partly, pwrite]
  have hspec := attempts_spec 1 (Nat.zero_le _)
    (show st.files part = some (partly dev [] 0) by rw [hs, hp])
  have same : ∀ s' : St, SameElse part st s' → (∃ k, s'.files part = some (partly dev [] k)) →
      s'.files = st.files := by
    rintro s' hse ⟨k, hk⟩
    funext q
    by_cases hq : q = part
    · rw [hq, hk, hp, hs]
    · exact hse q hq
  refine hspec.weaken ?_ ?_
  · rintro b s' ⟨rfl, hse, -, k, -, hk, -⟩
    exact ⟨rfl, same s' hse ⟨k, hk⟩⟩
  · rintro e s' ⟨hse, -, k, -, hk⟩
    exact same s' hse ⟨k, hk⟩

/-- An operation that has written nothing yet, at the head of the rest. -/
theorem Probe.unlogged {β : Type} {x : M α} {f : α → FlashM β} {v w : α} {p : Phase}
    {files : Files} {Q : β → FlashSt → Prop} {C : Stop → FlashSt → Prop}
    (hx : Probe p x s.st v w) (hs : s.handed = []) (hf : s.st.files = files)
    (hC : ∀ e s', s'.handed = [] → s'.st.files = files → C e s')
    (hv : ∀ s', s'.handed = [] → s'.st.files = files → Outcome (f v) s' Q C)
    (hw : ∀ s', s'.handed = [] → s'.st.files = files → Outcome (f w) s' Q C) :
    Outcome (unlogged x >>= f) s Q C := by
  refine ((unlogged_outcome hx).weaken (fun _ _ h => h) ?_).bind ?_
  · rintro e s' ⟨⟨hfiles, -⟩, hh⟩
    exact hC e s' (hh.trans hs) (hfiles.trans hf)
  · rintro a s' ⟨⟨hfiles, -, rfl | rfl, -⟩, hh⟩
    · exact hv s' (hh.trans hs) (hfiles.trans hf)
    · exact hw s' (hh.trans hs) (hfiles.trans hf)

/-- **The write**, when the buffer holds the image or nothing. -/
theorem flashData_meets {args : FlashArgs} {files : Files} {dev : String} {data : Bytes}
    (hdev : E.base.split args.targetFilename ":" = ["EMMC", dev])
    (hdata : files dev ≠ none → args.targetSize ≠ 0 → data ≠ [] →
      args.Image E (data.take args.targetSize))
    (hs : s.handed = []) (hf : s.st.files = files) :
    Outcome (flashData E args data) s (args.Done E files) fun _ s' => args.Fair E files s' := by
  have hfair : ∀ (_ : Stop) (s' : FlashSt), s'.handed = [] → s'.st.files = files →
      args.Fair E files s' := fun _ _ => .of_unwritten
  have hwrite : Outcome (writeVector E data args.targetSize args.targetFilename) s
      (fun b s' => args.Fair E files s' ∧ (s'.handed = [] → b = false))
      fun _ s' => args.Fair E files s' := by
    unfold writeVector
    rw [hdev]
    simp only [ne_eq, not_true_eq_false, if_false]
    apply Probe.unlogged (openFile_probe .write dev s.st) hs hf hfair
    · intro s₁ hs₁ hf₁
      rw [hf]
      cases hcontent : files dev with
      | none => exact ⟨.of_unwritten hs₁ hf₁, fun _ => rfl⟩
      | some content =>
        dsimp only
        by_cases h0 : args.targetSize = 0
        · rw [if_pos h0]
          have hnil := unlogged_outcome (attempts_nil (hf₁ ▸ hcontent : s₁.st.files dev = some content))
          refine hnil.weaken ?_ ?_
          · rintro b s₂ ⟨⟨hb, hf₂⟩, hh⟩
            exact ⟨.of_unwritten (hh.trans hs₁) (hf₂.trans hf₁), fun _ => hb⟩
          · rintro e s₂ ⟨hf₂, hh⟩
            exact .of_unwritten (hh.trans hs₁) (hf₂.trans hf₁)
        rw [if_neg h0]
        by_cases hlen : args.targetSize ≤ data.length
        · rw [if_pos hlen]
          have hne : data ≠ [] := by
            rintro rfl
            exact h0 (Nat.le_zero.1 hlen)
          have himage := hdata (by rw [hcontent]; simp) h0 hne
          apply Outcome.bind_modify
          have written : ∀ s' : FlashSt, s'.handed = s₁.handed ++ [some (data.take args.targetSize)] →
              args.Fair E files s' ∧ (s'.handed = [] → False) := by
            intro s' hh
            rw [hs₁] at hh
            refine ⟨⟨?_, ?_⟩, ?_⟩
            · intro w hw
              rw [hh, List.nil_append, List.mem_singleton] at hw
              exact ⟨_, hw, himage⟩
            · intro h
              rw [h] at hh
              cases hh
            · intro h
              rw [h] at hh
              cases hh
          refine (unlogged_handed _ _).weaken ?_ ?_
          · intro b s₂ hh
            exact ⟨(written s₂ hh).1, fun h => ((written s₂ hh).2 h).elim⟩
          · intro e s₂ hh
            exact (written s₂ hh).1
        · rw [if_neg hlen]
          by_cases hne : data = []
          · rw [if_pos hne]
            apply Probe.unlogged (ioOk_probe .write s₁.st) hs₁ hf₁ hfair
            · exact fun s₂ hs₂ hf₂ => ⟨.of_unwritten hs₂ hf₂, fun _ => rfl⟩
            · exact fun s₂ hs₂ hf₂ => ⟨.of_unwritten hs₂ hf₂, fun _ => rfl⟩
          · have himage := (hdata (by rw [hcontent]; simp) h0 hne).1
            rw [List.length_take] at himage
            omega
    · exact fun s₁ hs₁ hf₁ => ⟨.of_unwritten hs₁ hf₁, fun _ => rfl⟩
  unfold flashData
  refine hwrite.bind ?_
  rintro b s₁ ⟨hfair₁, hb⟩
  cases b with
  | true => exact ⟨hfair₁, fun h => absurd (hb h) (by decide)⟩
  | false => exact ⟨hfair₁, fun _ => .inl (by decide)⟩

theorem applypatchFlash_meets {args : FlashArgs} {files : Files}
    (hsplit : parseSha1 args.targetSha1Str ≠ none →
      ∀ dev, E.base.split args.targetFilename ":" = ["EMMC", dev] →
        E.base.split (args.fullname "EMMC" dev) ":" =
          ["EMMC", dev, toString args.targetSize, args.targetSha1Str])
    (hsize : E.base.parseUint (toString args.targetSize) SIZE_MAX = some args.targetSize)
    (hfits : args.SourceFits E files (sourceFound E files args.sourceFilename))
    (fates : Phase → List Fate) : args.Meets E files fates := by
  have hfair : ∀ (_ : Stop) (s' : FlashSt), s'.handed = [] → s'.st.files = files →
      args.Fair E files s' := fun _ _ => .of_unwritten
  unfold FlashArgs.Meets applypatchFlash
  cases hsha : parseSha1 args.targetSha1Str with
  | none => exact .failed rfl rfl
  | some targetSha1 =>
    dsimp only
    split
    · rename_i type dev hdev
      by_cases htype : type = "EMMC"
      · subst htype
        rw [if_neg (not_not.2 rfl)]
        have hsource : ∀ s : FlashSt, s.handed = [] → s.st.files = files →
            Outcome (flashSource E args targetSha1 []) s (args.Done E files)
              fun _ s' => args.Fair E files s' := by
          intro s hs hf
          have hempty : ∀ s' : FlashSt, s'.handed = [] → s'.st.files = files →
              Outcome (flashData E args []) s' (args.Done E files)
                fun _ s' => args.Fair E files s' := fun s' hs' hf' =>
            flashData_meets hdev (fun _ _ h => absurd rfl h) hs' hf'
          unfold flashSource
          apply Probe.unlogged (loadFileContents_found args.sourceFilename s.st) hs hf hfair
          · intro s₁ hs₁ hf₁
            rw [hf]
            cases hfound : sourceFound E files args.sourceFilename with
            | none => exact hempty s₁ hs₁ hf₁
            | some file =>
              dsimp only
              split
              · exact .failed hs₁ hf₁
              · rename_i heq
                rw [not_not, sourceFound_sha1 hfound] at heq
                apply flashData_meets hdev _ hs₁ hf₁
                exact fun hd h0 hne =>
                  hfits dev file hdev hd h0 hfound (by rw [hsha, heq]) hne
          · exact fun s₁ hs₁ hf₁ => hempty s₁ hs₁ hf₁
        apply Probe.unlogged (loadPartitionContents_found (args.fullname "EMMC" dev) _) rfl rfl hfair
        · intro s₁ hs₁ hf₁
          dsimp only
          cases hfound : partitionFound E files (args.fullname "EMMC" dev) with
          | none => exact hsource s₁ hs₁ hf₁
          | some file =>
            obtain ⟨content, hcontent, himage, hsha'⟩ :=
              partitionFound_target (hsplit (by rw [hsha]; nofun) dev hdev) hsize hfound
            have heq : file.sha1 = targetSha1 := Option.some.inj (hsha'.symm.trans hsha)
            dsimp only
            rw [if_pos heq]
            exact ⟨.of_unwritten hs₁ hf₁, fun _ => .inr ⟨dev, content, hdev, hcontent, himage⟩⟩
        · exact fun s₁ hs₁ hf₁ => hsource s₁ hs₁ hf₁
      · rw [if_pos htype]
        exact .failed rfl rfl
    · exact .failed rfl rfl

/-- The device cannot be read at first: the load of the target fails, the load of the source does
not. -/
def targetUnread : Phase → List Fate := Function.update (fun _ => []) .load [.fail 0]

/-- A probe in a quiet phase returns what it looks for. -/
theorem Probe.quiet {β : Type} {x : M α} {f : α → FlashM β} {v w : α} {p : Phase}
    {Q : β → FlashSt → Prop} {C : Stop → FlashSt → Prop} (hx : Probe p x s.st v w)
    (hq : Quiet s.st p)
    (hf : ∀ s', s'.handed = s.handed → s'.st.files = s.st.files → Calm s.st s'.st →
      Outcome (f v) s' Q C) : Outcome (ApplyPatch.unlogged x >>= f) s Q C := by
  refine ((unlogged_outcome hx).weaken (fun _ _ h => h) ?_).bind ?_
  · rintro e s' ⟨⟨-, h⟩, -⟩
    exact absurd hq h
  · rintro a s' ⟨⟨hfiles, hcalm, -, ha⟩, hh⟩
    rw [ha hq]
    exact hf s' hh hfiles hcalm

/-- What the target gets when the source has the target's hash but is neither empty nor of the
target's size. -/
def badWrite (args : FlashArgs) (data : Bytes) : Option Bytes :=
  if args.targetSize ≤ data.length then some (data.take args.targetSize) else none

theorem writeVector_handed {args : FlashArgs} {dev : String} {data : Bytes}
    (hdev : E.base.split args.targetFilename ":" = ["EMMC", dev]) (h0 : args.targetSize ≠ 0)
    (hne : data ≠ []) (hs : s.handed = []) (hpart : s.st.files dev ≠ none)
    (hq : Quiet s.st .write) :
    Outcome (writeVector E data args.targetSize args.targetFilename) s
      (fun _ s' => s'.handed = [badWrite args data]) fun _ s' => s'.handed = [badWrite args data] := by
  unfold writeVector badWrite
  rw [hdev]
  simp only [ne_eq, not_true_eq_false, if_false]
  apply (openFile_probe .write dev s.st).quiet hq
  intro s₁ hs₁ _ _
  cases hcontent : s.st.files dev with
  | none => exact absurd hcontent hpart
  | some content =>
    dsimp only
    rw [if_neg h0]
    by_cases hlen : args.targetSize ≤ data.length
    · rw [if_pos hlen, if_pos hlen]
      apply Outcome.bind_modify
      refine (unlogged_handed _ _).weaken ?_ ?_
      · exact fun _ s₂ hh => hh.trans (by rw [hs₁, hs]; rfl)
      · exact fun _ s₂ hh => hh.trans (by rw [hs₁, hs]; rfl)
    · rw [if_neg hlen, if_neg hlen, if_neg hne]
      apply Outcome.bind_modify
      exact Outcome.throw (by rw [hs₁, hs]; rfl)

theorem applypatchFlash_handed {args : FlashArgs} {files : Files} {dev : String}
    {file : FileContents}
    (hsplit : E.base.split (args.fullname "EMMC" dev) ":" =
      ["EMMC", dev, toString args.targetSize, args.targetSha1Str])
    (hsize : E.base.parseUint (toString args.targetSize) SIZE_MAX = some args.targetSize)
    (hdev : E.base.split args.targetFilename ":" = ["EMMC", dev]) (hpart : files dev ≠ none)
    (h0 : args.targetSize ≠ 0) (hfound : sourceFound E files args.sourceFilename = some file)
    (hsha : parseSha1 args.targetSha1Str = some (E.sha1 file.data)) (hne : file.data ≠ []) :
    Outcome (applypatchFlash E args) { st := { files := files, fates := targetUnread }, handed := [] }
      (fun _ s' => s'.handed = [badWrite args file.data])
      (fun _ s' => s'.handed = [badWrite args file.data]) := by
  have hload : unlogged (loadPartitionContents E (args.fullname "EMMC" dev))
      { st := { files := files, fates := targetUnread }, handed := [] } =
      .ok none { st := { files := files, fates := Function.update targetUnread .load [] },
                 handed := [] } := by
    unfold unlogged loadPartitionContents
    rw [partitionName_fullname hsplit hsize, if_neg h0]
    rfl
  unfold applypatchFlash
  rw [hsha, hdev]
  dsimp only
  rw [if_neg (not_not.2 rfl)]
  apply Outcome.bind_run hload
  dsimp only
  unfold flashSource
  apply (loadFileContents_found args.sourceFilename _).quiet
  · intro f hf
    simp [Function.update] at hf
  intro s₁ hs₁ hf₁ hc₁
  dsimp only
  rw [hfound]
  dsimp only
  rw [if_neg (not_not.2 (sourceFound_sha1 hfound))]
  unfold flashData
  have hq : Quiet s₁.st .write := by
    apply hc₁
    intro f hf
    simp [targetUnread, Function.update] at hf
  refine (writeVector_handed hdev h0 hne hs₁ (by rw [hf₁]; exact hpart) hq).bind ?_
  intro b s₂ hs₂
  cases b with
  | false => exact hs₂
  | true => exact hs₂

end Runs

theorem FlashArgs.not_meets {args : FlashArgs} {files : Files} {fates : Phase → List Fate}
    {status : Nat} {s : FlashSt} {data : Bytes}
    (hrun : applypatchFlash E args { st := { files := files, fates := fates }, handed := [] } =
      .ok status s) (hw : some data ∈ s.handed) (himage : ¬ args.Image E data) :
    ¬ args.Meets E files fates := by
  intro hmeets
  obtain ⟨data', hdata, h⟩ := (Outcome.of_ok hmeets hrun).1.1 (some data) hw
  rw [← Option.some.inj hdata] at h
  exact himage h

/-- `applypatch img EMMC:boot 0202070000.. <size>`. -/
def flashArgs (size : Nat) : FlashArgs where
  sourceFilename := "img"
  targetFilename := "EMMC:boot"
  targetSha1Str := "0202070000000000000000000000000000000000"
  targetSize := size

def flashFiles : Files := fun path =>
  if path = "boot" then some [1, 1, 1] else if path = "img" then some [2, 2, 7] else none

theorem flashArgs_split (size : Nat) (dev : String)
    (h : Env.small.base.split (flashArgs size).targetFilename ":" = ["EMMC", dev]) : dev = "boot" := by
  have hsplit : Env.small.base.split "EMMC:boot" ":" = ["EMMC", "boot"] := by decide +kernel
  rw [show (flashArgs size).targetFilename = "EMMC:boot" from rfl, hsplit] at h
  simpa using h.symm

/-- A run without faults. -/
def flashRun (size : Nat) : EStateM.Result Stop FlashSt Nat :=
  applypatchFlash Env.small (flashArgs size)
    { st := { files := flashFiles, fates := fun _ => [] }, handed := [] }

end Recovery.ApplyPatch
