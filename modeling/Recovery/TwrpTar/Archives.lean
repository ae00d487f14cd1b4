import Recovery.Lib.CInt
import Recovery.TwrpTar.TarList

/-!
# Split archives (`twrpTar.cpp`)

`tarList` writes the files of one thread into archives with consecutive numbers, and `extractMulti`
looks for them number by number.

* `sprintf` — the directives that are in the names: an archive is called by what `sprintf` makes of the
  name of the backup, with `%i%02i` behind it, as a format.  A `%` in the name is a directive, too.
* `actualFilename` — such a name in a buffer of a given size.  `tarList` has `PATH_MAX` bytes for it,
  and `extractMulti` has 255.
* `Tars` — the writer of a thread, with a folder that has no archives at first.
* `faults` says which calls fail: creating an archive, adding a file, closing an archive. A file
  that `lstat` does not find cannot be added.
* `Stop` — how a run ends badly: with an error, or with a write behind a buffer.
* `Complete` — what a run that succeeds leaves, and that one that fails has not gone past 100
  archives.
* `Counted` — the archives that are closed, and the one that is being written.
* `tarItem_spec`, `tarLoop_spec` — where one entry goes, and all of them.
* `extractMulti_spec` — consecutive numbers are found, and no others.
* `tarList_complete` — every run is complete, for lists whose length is an `int`, names without `%`
  that the smaller buffer holds, and paths that `PATH_MAX` bytes hold.
* `truncated_list` — a list of 2^31 entries is not written at all, and a name of 252 characters is
  too long for `extractMulti`.
-/

set_option autoImplicit false

namespace Recovery.TwrpTar

open Recovery.Lib

def MAX_ARCHIVE_SIZE : Nat := 1610612736

def PATH_MAX : Nat := 4096

/-! ## Names of archives -/

abbrev Text := List Char

/-- `%i` of an `int`. -/
def decimal : Int → Text
  | .ofNat n => Nat.toDigits 10 n
  | .negSucc n => '-' :: Nat.toDigits 10 (n + 1)

/-- `%02i`. -/
def decimal2 (n : Int) : Text := if (decimal n).length < 2 then '0' :: decimal n else decimal n

/-- `sprintf` with `int` arguments; a directive without an argument, or for something else, has no
result. -/
def sprintf : Text → List Int → Option Text
  | '%' :: '%' :: format, args => (sprintf format args).map ('%' :: ·)
  | '%' :: 'i' :: format, n :: args => (sprintf format args).map (decimal n ++ ·)
  | '%' :: '0' :: '2' :: 'i' :: format, n :: args => (sprintf format args).map (decimal2 n ++ ·)
  | '%' :: _, _ => none
  | c :: format, args => (sprintf format args).map (c :: ·)
  | [], _ => some []

/-- The name of an archive, in a buffer of so many bytes. -/
def actualFilename (size : Nat) (basefn : Text) (thread_id archive_count : Nat) : Option Text :=
  match sprintf (basefn ++ ['%', 'i', '%', '0', '2', 'i']) [toInt thread_id, archive_count] with
  | some text => if text.length < size then some text else none
  | none => none

/-- What is meant by it. -/
def archiveName (basefn : Text) (thread_id archive_count : Nat) : Text :=
  basefn ++ (decimal (toInt thread_id) ++ decimal2 archive_count)

theorem sprintf_plain {c : Char} (hc : c ≠ '%') (format : Text) (args : List Int) :
    sprintf (c :: format) args = (sprintf format args).map (c :: ·) := by
  rw [sprintf]
  all_goals simp [hc]

theorem sprintf_append {text : Text} (h : '%' ∉ text) (format : Text) (args : List Int) :
    sprintf (text ++ format) args = (sprintf format args).map (text ++ ·) := by
  induction text with
  | nil => simp
  | cons c text ih =>
    obtain ⟨hc, htext⟩ := not_or.1 (List.mem_cons.not.1 h)
    rw [List.cons_append, sprintf_plain (Ne.symm hc), ih htext, Option.map_map]
    rfl

theorem length_decimal2 {k : Nat} (hk : k < 100) : (decimal2 k).length = 2 := by
  have hall : ∀ k < 100, (decimal2 (Int.ofNat k)).length = 2 := by decide +kernel
  exact hall k hk

/-- The number that two digits are. -/
def fromDecimal2 : Text → Nat
  | [c, d] => 10 * (c.toNat - 48) + (d.toNat - 48)
  | _ => 0

theorem fromDecimal2_decimal2 {k : Nat} (hk : k < 100) : fromDecimal2 (decimal2 k) = k := by
  have hall : ∀ k < 100, fromDecimal2 (decimal2 (Int.ofNat k)) = k := by decide +kernel
  exact hall k hk

/-- A name without `%`, that fits. -/
theorem actualFilename_eq (size : Nat) {basefn : Text} {thread_id k : Nat} (h : '%' ∉ basefn)
    (hk : k < 100) (hsize : basefn.length + (decimal (toInt thread_id)).length + 2 < size) :
    actualFilename size basefn thread_id k = some (archiveName basefn thread_id k) := by
  have hprint : sprintf (basefn ++ ['%', 'i', '%', '0', '2', 'i']) [toInt thread_id, k] =
      some (archiveName basefn thread_id k) := by
    rw [sprintf_append h]
    simp [sprintf, archiveName]
  have hlength : (archiveName basefn thread_id k).length < size := by
    rw [archiveName, List.length_append, List.length_append, length_decimal2 hk, ← Nat.add_assoc]
    exact hsize
  rw [actualFilename, hprint]
  exact if_pos hlength

theorem archiveName_inj {basefn : Text} {thread_id j k : Nat} (hj : j < 100) (hk : k < 100)
    (h : archiveName basefn thread_id j = archiveName basefn thread_id k) : j = k := by
  have hdigits := List.append_cancel_left (List.append_cancel_left h)
  rw [← fromDecimal2_decimal2 hj, hdigits, fromDecimal2_decimal2 hk]

/-! ## The source -/

/-- What `lstat` says of a file. -/
structure Stat where
  isReg : Bool
  st_size : Nat
  /-- `off_t`. -/
  lt : st_size < 2 ^ 63

inductive Call where
  | create (archive_count : Nat)
  | add (fn : Path)
  | close (archive_count : Nat)

/-- The writer of a thread. -/
structure Tars where
  /-- The archives by name. -/
  files : Text → Option (List Path)
  tarfn : Text
  archive_count : Nat
  Archive_Current_Size : Nat
  st : Stat

namespace Tars

def createTar (s : Tars) : Tars :=
  { s with files := fun fn => if fn = s.tarfn then some [] else s.files fn }

def addFile (s : Tars) (fn : Path) : Tars :=
  { s with
    files := fun tarfn =>
      if tarfn = s.tarfn then (s.files tarfn).map (· ++ [fn]) else s.files tarfn }

end Tars

/-- How a run ends badly. -/
inductive Stop where
  | ret (code : Int) (s : Tars)
  /-- Behind a buffer, or to a name that no argument is for. -/
  | fault

/-- `strlen` of a path. -/
def pathLength (fn : Path) : Nat := (fn.map (·.length + 1)).sum

section

variable (faults : Call → Bool) (lstat : Path → Option Stat) (split_archives : Bool)
  (thread_id : Nat) (filename : Nat → Option Text)

/-- The next archive, where a file does not fit into the one that is open. -/
def splitArchive (s : Tars) (fs : Nat) : Except Stop Tars :=
  if split_archives ∧ MAX_ARCHIVE_SIZE < (s.Archive_Current_Size + fs) % 2 ^ 64 then
    if faults (.close s.archive_count) then .error (.ret (-3) s)
    else
      let s := { s with archive_count := s.archive_count + 1 }
      if s.archive_count > 99 then .error (.ret (-4) s)
      else
        match filename s.archive_count with
        | none => .error .fault
        | some tarfn =>
          let s := { s with tarfn }
          if faults (.create s.archive_count) then .error (.ret (-2) s)
          else .ok { s.createTar with Archive_Current_Size := 0 }
  else .ok s

/-- A regular file is counted, in the archive that it goes into. -/
def countFile (st : Stat) (s : Tars) : Except Stop Tars :=
  if st.isReg then do
    let s ← splitArchive faults split_archives filename s st.st_size
    return { s with Archive_Current_Size := (s.Archive_Current_Size + st.st_size) % 2 ^ 64 }
  else .ok s

/-- One entry of the thread, from the `strcpy` of its path on. -/
def tarItem (fn : Path) (s : Tars) : Except Stop Tars := do
  if PATH_MAX ≤ pathLength fn then .error .fault
  else
    let st := (lstat fn).getD s.st
    let s ← countFile faults split_archives filename st { s with st }
    if (lstat fn).isNone || faults (.add fn) then .error (.ret (-1) s) else .ok (s.addFile fn)

/-- The loop over the first `list_size` entries. -/
def tarLoop : List TarListStruct → Tars → Except Stop Tars
  | [], s => if faults (.close s.archive_count) then .error (.ret (-3) s) else .ok s
  | item :: items, s =>
    if item.thread_id = thread_id then do
      let s ← tarItem faults lstat split_archives filename item.fn s
      tarLoop items s
    else tarLoop items s

/-- `tarList`, in a folder without archives: the return code of an error, and what is written. -/
def tarList (tarfn : Text) (st : Stat) (TarList : List TarListStruct) : Except Stop Tars :=
  let list_size := toInt TarList.length
  let filename := actualFilename PATH_MAX tarfn thread_id
  match (if split_archives then filename 0 else some tarfn) with
  | none => .error .fault
  | some tarfn =>
    let s : Tars := ⟨fun _ => none, tarfn, 0, 0, st⟩
    if faults (.create 0) then .error (.ret (-2) s)
    else
      tarLoop faults lstat split_archives thread_id filename (TarList.take list_size.toNat)
        s.createTar

end

/-- The loop of `extractMulti`: the return code and the archives it came to. -/
def extractFrom (extract : List Path → Bool) (files : Text → Option (List Path))
    (filename : Nat → Option Text) : Nat → Nat → Option (Int × List Text)
  | 0, _ => some (0, [])
  | fuel + 1, archive_count => do
    let tarfn ← filename archive_count
    match files tarfn with
    | none => some (0, [])
    | some archive =>
      if extract archive then
        let (ret, archives) ← extractFrom extract files filename fuel (archive_count + 1)
        some (ret, tarfn :: archives)
      else some (-2, [tarfn])

/-- `extractMulti`; there is no number above 99. -/
def extractMulti (extract : List Path → Bool) (files : Text → Option (List Path)) (basefn : Text)
    (thread_id : Nat) : Option (Int × List Text) :=
  extractFrom extract files (actualFilename 255 basefn thread_id) 100 0

/-! ## What a backup is to be -/

/-- The entries of a thread. -/
def entriesOf (thread_id : Nat) (TarList : List TarListStruct) : List Path :=
  (TarList.filter (fun item => item.thread_id = thread_id)).map TarListStruct.fn

/-- The sizes of the regular files among some. -/
def regSizes (lstat : Path → Option Stat) (fns : List Path) : List Nat :=
  fns.filterMap fun fn => (lstat fn).bind fun st => if st.isReg then some st.st_size else none

/-- Not above the limit, or one regular file. -/
def Fits (lstat : Path → Option Stat) (archive : List Path) : Prop :=
  (regSizes lstat archive).sum ≤ MAX_ARCHIVE_SIZE ∨ (regSizes lstat archive).length = 1

/-- A folder has these archives, under consecutive numbers, and nothing else. -/
structure Holds (name : Nat → Text) (files : Text → Option (List Path))
    (archives : List (List Path)) : Prop where
  named : ∀ k < 100, files (name k) = archives[k]?
  only : ∀ fn, (files fn).isSome → ∃ k < 100, fn = name k

/-- The archives are those of the list, in order and of the right sizes, and are found again. -/
structure Written (lstat : Path → Option Stat) (basefn : Text) (thread_id : Nat) (fns : List Path)
    (s : Tars) (archives : List (List Path)) : Prop where
  holds : Holds (archiveName basefn thread_id) s.files archives
  count : archives.length ≤ 100
  entries : archives.flatten = fns
  sizes : ∀ archive ∈ archives, Fits lstat archive
  found : ∀ extract, (∀ archive ∈ archives, extract archive = true) →
    extractMulti extract s.files basefn thread_id =
      some (0, (List.range archives.length).map (archiveName basefn thread_id))

/-- Nothing is written behind a buffer, and there are no archives but the 100 that there may be. -/
def Stop.Few (name : Nat → Text) : Stop → Prop
  | .ret _ s => ∀ fn, (s.files fn).isSome → ∃ k < 100, fn = name k
  | .fault => False

/-- A run that succeeds has written the entries of its thread, and one that fails has not exceeded
100 archives. -/
def Complete (lstat : Path → Option Stat) (basefn : Text) (thread_id : Nat) (fns : List Path) :
    Except Stop Tars → Prop
  | .ok s => ∃ archives, Written lstat basefn thread_id fns s archives
  | .error e => e.Few (archiveName basefn thread_id)

/-- How many archives files of these sizes need after `current` bytes. -/
def archivesNeeded : Nat → List Nat → Nat
  | _, [] => 1
  | current, fs :: sizes =>
    if MAX_ARCHIVE_SIZE < current + fs then 1 + archivesNeeded fs sizes
    else archivesNeeded (current + fs) sizes

/-! ## One entry -/

section

variable {faults : Call → Bool} {lstat : Path → Option Stat} {thread_id : Nat} {s : Tars}
  {filename : Nat → Option Text} {name : Nat → Text}

/-- The names of the archives fit into the buffer, and are different. -/
structure Names (filename : Nat → Option Text) (name : Nat → Text) : Prop where
  print : ∀ k < 100, filename k = some (name k)
  inj : ∀ j < 100, ∀ k < 100, name j = name k → j = k

theorem Holds.push {files : Text → Option (List Path)} {archives : List (List Path)}
    (h : Holds name files archives) (hnames : Names filename name) (hlt : archives.length < 100)
    (archive : List Path) :
    Holds name (fun fn => if fn = name archives.length then some archive else files fn)
      (archives ++ [archive]) := by
  refine ⟨fun k hk => ?_, fun fn hfn => ?_⟩
  · split
    · rename_i hname
      rw [hnames.inj k hk _ hlt hname, List.getElem?_concat_length]
    · rename_i hname
      have hne : k ≠ archives.length := fun heq => hname (by rw [heq])
      rw [h.named k hk]
      by_cases hin : k < archives.length
      · rw [List.getElem?_append_left hin]
      · rw [List.getElem?_eq_none (by lia), List.getElem?_eq_none (by simp; lia)]
  · split at hfn
    · rename_i hname
      exact ⟨_, hlt, hname⟩
    · exact h.only fn hfn

theorem Holds.addLast {files : Text → Option (List Path)} {done : List (List Path)}
    {current : List Path} (h : Holds name files (done ++ [current])) (hnames : Names filename name)
    (hlt : done.length < 100) (fn : Path) :
    Holds name (fun tarfn =>
      if tarfn = name done.length then (files tarfn).map (· ++ [fn]) else files tarfn)
      (done ++ [current ++ [fn]]) := by
  refine ⟨fun k hk => ?_, fun tarfn hfn => ?_⟩
  · split
    · rename_i hname
      rw [hnames.inj k hk _ hlt hname, h.named _ hlt, List.getElem?_concat_length,
        List.getElem?_concat_length]
      rfl
    · rename_i hname
      have hne : k ≠ done.length := fun heq => hname (by rw [heq])
      rw [h.named k hk]
      by_cases hin : k < done.length
      · rw [List.getElem?_append_left hin, List.getElem?_append_left hin]
      · rw [List.getElem?_eq_none (by simp; lia), List.getElem?_eq_none (by simp; lia)]
  · split at hfn
    · rename_i hname
      exact ⟨_, hlt, hname⟩
    · exact h.only tarfn hfn

/-- A file is to go to the end of `current`, and is counted. -/
structure Counted (lstat : Path → Option Stat) (name : Nat → Text) (s : Tars)
    (done : List (List Path)) (current : List Path) (fs : Nat) : Prop where
  holds : Holds name s.files (done ++ [current])
  number : s.archive_count = done.length
  tarfn : s.tarfn = name done.length
  lt : done.length < 100
  size : s.Archive_Current_Size = (regSizes lstat current).sum + fs
  sizes : ∀ archive ∈ done ++ [current], Fits lstat archive

theorem regSizes_lt {fns : List Path} {z : Nat} (h : z ∈ regSizes lstat fns) : z < 2 ^ 63 := by
  obtain ⟨fn, -, hz⟩ := List.mem_filterMap.1 h
  obtain ⟨st, -, hz⟩ := Option.bind_eq_some_iff.1 hz
  split at hz
  · cases hz
    exact st.lt
  · cases hz

theorem Fits.sum_lt {fns : List Path} (h : Fits lstat fns) : (regSizes lstat fns).sum < 2 ^ 63 := by
  obtain hle | hone := h
  · unfold MAX_ARCHIVE_SIZE at hle
    omega
  · obtain ⟨z, hz⟩ := List.length_eq_one_iff.1 hone
    have hlt := @regSizes_lt lstat fns z (by rw [hz]; exact List.mem_singleton_self z)
    rw [hz]
    simpa using hlt

/-- The next archive is open where the file does not fit. -/
theorem splitArchive_spec (faults : Call → Bool) (hnames : Names filename name)
    {done : List (List Path)} {current : List Path} (h : Counted lstat name s done current 0)
    {fs : Nat} (hfs : fs < 2 ^ 63) :
    match splitArchive faults true filename s fs with
    | .ok s' =>
      (s' = s ∧ (regSizes lstat current).sum + fs ≤ MAX_ARCHIVE_SIZE) ∨
        (Counted lstat name s' (done ++ [current]) [] 0 ∧
          MAX_ARCHIVE_SIZE < (regSizes lstat current).sum + fs)
    | .error e => e.Few name := by
  have hsum : (regSizes lstat current).sum < 2 ^ 63 := (h.sizes current (by simp)).sum_lt
  have hmod : (s.Archive_Current_Size + fs) % 2 ^ 64 = (regSizes lstat current).sum + fs := by
    rw [h.size]
    exact Nat.mod_eq_of_lt (by lia)
  rw [splitArchive, hmod]
  by_cases hbig : MAX_ARCHIVE_SIZE < (regSizes lstat current).sum + fs
  · rw [if_pos ⟨rfl, hbig⟩]
    cases faults (.close s.archive_count) with
    | true => exact h.holds.only
    | false =>
      have hnumber := h.number
      have hlength : (done ++ [current]).length = s.archive_count + 1 := by
        rw [List.length_append, List.length_singleton, hnumber]
      by_cases hmany : s.archive_count + 1 > 99
      · simp only [Bool.false_eq_true, if_false, if_pos hmany]
        exact h.holds.only
      · have hprint := hnames.print (s.archive_count + 1) (by lia)
        cases hcreate : faults (.create (s.archive_count + 1)) with
        | true =>
          simp only [Bool.false_eq_true, if_false, if_neg hmany, hprint, hcreate, if_true]
          exact h.holds.only
        | false =>
          simp only [Bool.false_eq_true, if_false, if_neg hmany, hprint, hcreate]
          have hnext := h.holds.push hnames (by lia) []
          rw [hlength] at hnext
          refine .inr ⟨⟨hnext, hlength.symm, ?_, by lia, rfl, ?_⟩, hbig⟩
          · rw [hlength]
            rfl
          · intro archive hmem
            obtain hmem | hmem := List.mem_append.1 hmem
            · exact h.sizes archive hmem
            · rw [List.mem_singleton.1 hmem]
              exact .inl (Nat.zero_le _)
  · rw [if_neg (fun hc => hbig hc.2)]
    exact .inl ⟨rfl, not_lt.1 hbig⟩

theorem regSizes_append (fns fns' : List Path) :
    regSizes lstat (fns ++ fns') = regSizes lstat fns ++ regSizes lstat fns' :=
  List.filterMap_append

/-- What a file adds to the size of its archive. -/
def countedSize (st : Stat) : Nat := if st.isReg then st.st_size else 0

theorem regSizes_singleton {fn : Path} {st : Stat} (h : lstat fn = some st) :
    regSizes lstat [fn] = if st.isReg then [st.st_size] else [] := by
  cases hreg : st.isReg <;> simp [regSizes, h, hreg]

theorem countFile_spec (faults : Call → Bool) (hnames : Names filename name)
    {done : List (List Path)} {current : List Path} (h : Counted lstat name s done current 0)
    (st : Stat) :
    match countFile faults true filename st s with
    | .ok s' =>
      (Counted lstat name s' done current (countedSize st) ∧
          (st.isReg → (regSizes lstat current).sum + st.st_size ≤ MAX_ARCHIVE_SIZE)) ∨
        (Counted lstat name s' (done ++ [current]) [] (countedSize st) ∧ st.isReg ∧
          MAX_ARCHIVE_SIZE < (regSizes lstat current).sum + st.st_size)
    | .error e => e.Few name := by
  rw [countFile]
  cases hreg : st.isReg with
  | false =>
    have hzero : countedSize st = 0 := by simp [countedSize, hreg]
    rw [hzero]
    exact .inl ⟨h, nofun⟩
  | true =>
    have hsize : countedSize st = st.st_size := by simp [countedSize, hreg]
    have hlt := st.lt
    have hsplit := splitArchive_spec faults hnames h hlt
    cases hs : splitArchive faults true filename s st.st_size with
    | error e =>
      rw [hs] at hsplit
      exact hsplit
    | ok t =>
      rw [hs] at hsplit
      rw [hsize]
      obtain ⟨rfl, hle⟩ | ⟨hnext, hbig⟩ := hsplit
      · have hmod : (t.Archive_Current_Size + st.st_size) % 2 ^ 64 =
            (regSizes lstat current).sum + st.st_size := by
          rw [h.size]
          exact Nat.mod_eq_of_lt (by unfold MAX_ARCHIVE_SIZE at hle; lia)
        exact .inl ⟨⟨h.holds, h.number, h.tarfn, h.lt, hmod, h.sizes⟩, fun _ => hle⟩
      · have hmod : (t.Archive_Current_Size + st.st_size) % 2 ^ 64 = 0 + st.st_size := by
          rw [hnext.size]
          exact Nat.mod_eq_of_lt (by simp [regSizes]; lia)
        exact .inr ⟨⟨hnext.holds, hnext.number, hnext.tarfn, hnext.lt, hmod, hnext.sizes⟩, rfl, hbig⟩

/-- An entry goes into the archive that is open. -/
theorem addFile_counted (hnames : Names filename name) {done : List (List Path)}
    {current : List Path} {fn : Path} {fs : Nat} (h : Counted lstat name s done current fs)
    (hfs : fs = (regSizes lstat [fn]).sum) (hfits : Fits lstat (current ++ [fn])) :
    Counted lstat name (s.addFile fn) done (current ++ [fn]) 0 := by
  refine ⟨?_, h.number, h.tarfn, h.lt, ?_, ?_⟩
  · have hadd := h.holds.addLast hnames h.lt fn
    rwa [← h.tarfn] at hadd
  · rw [Nat.add_zero, regSizes_append, List.sum_append, ← hfs]
    exact h.size
  · intro archive hmem
    obtain hmem | hmem := List.mem_append.1 hmem
    · exact h.sizes archive (List.mem_append_left _ hmem)
    · rw [List.mem_singleton.1 hmem]
      exact hfits

/-- Where an entry goes: into the archive that is open, or, when it does not fit, into the next. -/
inductive Added (lstat : Path → Option Stat) (fn : Path) (st : Stat) (done : List (List Path))
    (current : List Path) : List (List Path) → List Path → Prop where
  | same : (st.isReg → (regSizes lstat current).sum + st.st_size ≤ MAX_ARCHIVE_SIZE) →
    Added lstat fn st done current done (current ++ [fn])
  | next : st.isReg → MAX_ARCHIVE_SIZE < (regSizes lstat current).sum + st.st_size →
    Added lstat fn st done current (done ++ [current]) [fn]

theorem Added.flatten {fn : Path} {st : Stat} {done done' : List (List Path)}
    {current current' : List Path} (h : Added lstat fn st done current done' current') :
    (done' ++ [current']).flatten = (done ++ [current]).flatten ++ [fn] := by
  cases h <;> simp

/-- **One entry of the thread** is added to the archive that is open, or to the next one. -/
theorem tarItem_spec (faults : Call → Bool) (hnames : Names filename name)
    {done : List (List Path)} {current : List Path} (h : Counted lstat name s done current 0)
    {fn : Path} (hfn : pathLength fn < PATH_MAX) :
    match tarItem faults lstat true filename fn s with
    | .ok s' => ∃ st done' current', lstat fn = some st ∧ Counted lstat name s' done' current' 0 ∧
        Added lstat fn st done current done' current'
    | .error e => e.Few name := by
  have hstart : ∀ st, Counted lstat name { s with st } done current 0 := fun st =>
    ⟨h.holds, h.number, h.tarfn, h.lt, h.size, h.sizes⟩
  rw [tarItem, if_neg (not_le.2 hfn)]
  dsimp only
  have hcount := countFile_spec faults hnames (hstart ((lstat fn).getD s.st))
    ((lstat fn).getD s.st)
  cases hc : countFile faults true filename ((lstat fn).getD s.st)
      { s with st := (lstat fn).getD s.st } with
  | error e =>
    rw [hc] at hcount
    exact hcount
  | ok t =>
    rw [hc] at hcount
    change match (if (lstat fn).isNone || faults (.add fn) then .error (.ret (-1) t)
      else .ok (t.addFile fn) : Except Stop Tars) with
      | .ok s' => _
      | .error e => e.Few name
    split
    · rename_i heq
      split at heq
      · cases heq
      rename_i hadd
      cases heq
      obtain ⟨st, hst⟩ : ∃ st, lstat fn = some st := by
        cases hl : lstat fn with
        | none => simp [hl] at hadd
        | some st => exact ⟨st, rfl⟩
      rw [hst, Option.getD_some] at hcount
      have hfs : countedSize st = (regSizes lstat [fn]).sum := by
        rw [regSizes_singleton hst, countedSize]
        split <;> simp
      obtain ⟨hsame, hle⟩ | ⟨hnext, hreg, hbig⟩ := hcount
      · refine ⟨st, done, current ++ [fn], hst, addFile_counted hnames hsame hfs ?_, .same hle⟩
        rw [Fits, regSizes_append, regSizes_singleton hst]
        cases hreg : st.isReg with
        | false =>
          have hfits := hsame.sizes current (by simp)
          rw [Fits] at hfits
          simpa using hfits
        | true => exact .inl (by simpa using hle hreg)
      · refine ⟨st, done ++ [current], [fn], hst, addFile_counted hnames hnext hfs ?_,
          .next hreg hbig⟩
        rw [Fits, List.nil_append, regSizes_singleton hst, if_pos hreg]
        exact .inr rfl
    · rename_i heq
      split at heq
      · cases heq
        obtain ⟨hsame, -⟩ | ⟨hnext, -⟩ := hcount
        · exact hsame.holds.only
        · exact hnext.holds.only
      · cases heq

/-! ## The whole list -/

theorem entriesOf_cons_pos {item : TarListStruct} (h : item.thread_id = thread_id)
    (items : List TarListStruct) :
    entriesOf thread_id (item :: items) = item.fn :: entriesOf thread_id items := by
  simp [entriesOf, h]

theorem entriesOf_cons_neg {item : TarListStruct} (h : item.thread_id ≠ thread_id)
    (items : List TarListStruct) :
    entriesOf thread_id (item :: items) = entriesOf thread_id items := by
  simp [entriesOf, h]

theorem archivesNeeded_pos (current : Nat) (sizes : List Nat) : 0 < archivesNeeded current sizes := by
  induction sizes generalizing current with
  | nil => exact Nat.one_pos
  | cons fs sizes ih =>
    rw [archivesNeeded]
    split
    · lia
    · exact ih (current + fs)

/-- The archives that are still needed after an entry. -/
theorem Added.needed {fn : Path} {st : Stat} (hst : lstat fn = some st)
    {done done' : List (List Path)} {current current' : List Path}
    (h : Added lstat fn st done current done' current') (fns : List Path) :
    done.length + archivesNeeded (regSizes lstat current).sum (regSizes lstat (fn :: fns)) =
      done'.length + archivesNeeded (regSizes lstat current').sum (regSizes lstat fns) := by
  have hcons : regSizes lstat (fn :: fns) = regSizes lstat [fn] ++ regSizes lstat fns :=
    regSizes_append [fn] fns
  rw [hcons, regSizes_singleton hst]
  cases h with
  | same hle =>
    rw [regSizes_append, regSizes_singleton hst, List.sum_append]
    cases hreg : st.isReg with
    | false => simp
    | true =>
      have hfits := hle hreg
      simp [archivesNeeded, if_neg (not_lt.2 hfits)]
  | next hreg hbig =>
    rw [regSizes_singleton hst, if_pos hreg]
    simp [archivesNeeded, if_pos hbig]
    lia

/-- What the loop leaves when it ends well. -/
structure Finished (lstat : Path → Option Stat) (name : Nat → Text) (s : Tars)
    (done : List (List Path)) (current : List Path) (fns : List Path)
    (archives : List (List Path)) : Prop where
  holds : Holds name s.files archives
  count : archives.length ≤ 100
  entries : archives.flatten = (done ++ [current]).flatten ++ fns
  sizes : ∀ archive ∈ archives, Fits lstat archive

/-- **The loop** writes the entries of the thread in order, or fails with no archive above 99. -/
theorem tarLoop_spec (faults : Call → Bool) (hnames : Names filename name)
    {items : List TarListStruct}
    (hpaths : ∀ fn ∈ entriesOf thread_id items, pathLength fn < PATH_MAX)
    {done : List (List Path)} {current : List Path} (h : Counted lstat name s done current 0) :
    match tarLoop faults lstat true thread_id filename items s with
    | .ok s' => ∃ archives, Finished lstat name s' done current (entriesOf thread_id items) archives
    | .error e => e.Few name := by
  induction items generalizing s done current with
  | nil =>
    rw [tarLoop]
    cases faults (.close s.archive_count) with
    | true => exact h.holds.only
    | false =>
      have hlt := h.lt
      refine ⟨done ++ [current], h.holds, ?_, ?_, h.sizes⟩
      · rw [List.length_append, List.length_singleton]
        lia
      · simp [entriesOf]
  | cons item items ih =>
    rw [tarLoop]
    by_cases hthread : item.thread_id = thread_id
    · rw [entriesOf_cons_pos hthread] at hpaths
      obtain ⟨hfn, hrest⟩ := List.forall_mem_cons.1 hpaths
      rw [if_pos hthread]
      have hitem := tarItem_spec faults hnames h hfn
      cases hs : tarItem faults lstat true filename item.fn s with
      | error e =>
        rw [hs] at hitem
        exact hitem
      | ok t =>
        rw [hs] at hitem
        obtain ⟨st, done', current', hst, hopen, hadded⟩ := hitem
        have hrest := ih hrest hopen
        change match tarLoop faults lstat true thread_id filename items t with
          | .ok s' => ∃ archives,
            Finished lstat name s' done current (entriesOf thread_id (item :: items)) archives
          | .error e => e.Few name
        cases ht : tarLoop faults lstat true thread_id filename items t with
        | error e =>
          rw [ht] at hrest
          exact hrest
        | ok t' =>
          rw [ht] at hrest
          rw [entriesOf_cons_pos hthread]
          obtain ⟨archives, hholds, hcount, hflat, hsizes⟩ := hrest
          refine ⟨archives, hholds, hcount, ?_, hsizes⟩
          rw [hflat, hadded.flatten, List.append_assoc, List.singleton_append]
    · rw [if_neg hthread, entriesOf_cons_neg hthread]
      rw [entriesOf_cons_neg hthread] at hpaths
      exact ih hpaths h

/-- Where no call fails, an entry that can be read goes into an archive that there may be. -/
theorem tarItem_ok (hnames : Names filename name) (hfaults : ∀ c, faults c = false)
    {done : List (List Path)} {current : List Path} (h : Counted lstat name s done current 0)
    {fn : Path} (hfn : pathLength fn < PATH_MAX) {st : Stat} (hst : lstat fn = some st)
    (hroom : st.isReg → MAX_ARCHIVE_SIZE < (regSizes lstat current).sum + st.st_size →
      done.length + 1 < 100) :
    ∃ s', tarItem faults lstat true filename fn s = .ok s' := by
  have hcount : ∃ t, countFile faults true filename st { s with st } = .ok t := by
    rw [countFile]
    split
    · rename_i hreg
      have hlt := st.lt
      have hsum : (regSizes lstat current).sum < 2 ^ 63 := (h.sizes current (by simp)).sum_lt
      have hmod : (s.Archive_Current_Size + st.st_size) % 2 ^ 64 =
          (regSizes lstat current).sum + st.st_size := by
        rw [h.size]
        exact Nat.mod_eq_of_lt (by lia)
      rw [splitArchive, hmod]
      by_cases hbig : MAX_ARCHIVE_SIZE < (regSizes lstat current).sum + st.st_size
      · have hnumber := h.number
        have hlast := hroom hreg hbig
        have hfew : ¬ s.archive_count + 1 > 99 := by lia
        have hprint := hnames.print (s.archive_count + 1) (by lia)
        simp only [hbig, and_self, if_true, hfaults, Bool.false_eq_true, if_false, if_neg hfew,
          hprint]
        exact ⟨_, rfl⟩
      · simp only [hbig, and_false, if_false]
        exact ⟨_, rfl⟩
    · exact ⟨_, rfl⟩
  obtain ⟨t, ht⟩ := hcount
  refine ⟨t.addFile fn, ?_⟩
  rw [tarItem, if_neg (not_le.2 hfn), hst]
  simp only [Option.getD_some, ht, Option.isNone_some, hfaults, Bool.or_self, Bool.false_eq_true,
    if_false]
  rfl

/-- Where no call fails, entries that can be read and fit into 100 archives are written. -/
theorem tarLoop_ok (hnames : Names filename name) (hfaults : ∀ c, faults c = false)
    {items : List TarListStruct}
    (hpaths : ∀ fn ∈ entriesOf thread_id items, pathLength fn < PATH_MAX)
    {done : List (List Path)} {current : List Path} (h : Counted lstat name s done current 0)
    (hreadable : ∀ fn ∈ entriesOf thread_id items, (lstat fn).isSome)
    (hneeded : done.length + archivesNeeded (regSizes lstat current).sum
      (regSizes lstat (entriesOf thread_id items)) ≤ 100) :
    ∃ s', tarLoop faults lstat true thread_id filename items s = .ok s' := by
  induction items generalizing s done current with
  | nil => exact ⟨s, by rw [tarLoop, hfaults]; rfl⟩
  | cons item items ih =>
    rw [tarLoop]
    by_cases hthread : item.thread_id = thread_id
    · rw [if_pos hthread]
      rw [entriesOf_cons_pos hthread] at hpaths hreadable hneeded
      obtain ⟨hfn, hpaths⟩ := List.forall_mem_cons.1 hpaths
      obtain ⟨hsome, hreadable⟩ := List.forall_mem_cons.1 hreadable
      obtain ⟨st, hst⟩ := Option.isSome_iff_exists.1 hsome
      have hroom : st.isReg → MAX_ARCHIVE_SIZE < (regSizes lstat current).sum + st.st_size →
          done.length + 1 < 100 := by
        intro hreg hbig
        have hadded : Added lstat item.fn st done current (done ++ [current]) [item.fn] :=
          .next hreg hbig
        rw [hadded.needed hst, List.length_append, List.length_singleton] at hneeded
        have hpos := archivesNeeded_pos (regSizes lstat [item.fn]).sum
          (regSizes lstat (entriesOf thread_id items))
        omega
      obtain ⟨t, ht⟩ := tarItem_ok hnames hfaults h hfn hst hroom
      have hitem := tarItem_spec faults hnames h hfn
      rw [ht] at hitem
      obtain ⟨st', done', current', hst', hopen, hadded⟩ := hitem
      rw [hadded.needed hst'] at hneeded
      obtain ⟨t', ht'⟩ := ih hpaths hopen hreadable hneeded
      exact ⟨t', by rw [ht]; exact ht'⟩
    · rw [if_neg hthread]
      rw [entriesOf_cons_neg hthread] at hpaths hreadable hneeded
      exact ih hpaths h hreadable hneeded

/-! ## `extractMulti` -/

theorem extractFrom_spec (hnames : Names filename name) {extract : List Path → Bool}
    {files : Text → Option (List Path)} {archives : List (List Path)}
    (hextract : ∀ archive ∈ archives, extract archive = true) (hholds : Holds name files archives)
    (fuel : Nat) {k : Nat} (hk : k ≤ archives.length) (hfuel : archives.length ≤ k + fuel)
    (hlast : k + fuel ≤ 100) :
    extractFrom extract files filename fuel k =
      some (0, (List.range' k (archives.length - k)).map name) := by
  induction fuel generalizing k with
  | zero =>
    have hnone : archives.length - k = 0 := by lia
    rw [extractFrom, hnone]
    rfl
  | succ fuel ih =>
    rw [extractFrom, hnames.print k (by lia)]
    by_cases hlt : k < archives.length
    · have hrest := ih hlt (by lia) (by lia)
      have hlen : archives.length - k = (archives.length - (k + 1)) + 1 := by lia
      simp only [Option.bind_eq_bind, Option.bind_some, hholds.named k (by lia),
        List.getElem?_eq_getElem hlt, hextract _ (List.getElem_mem hlt), if_true, hrest]
      rw [hlen, List.range'_succ, List.map_cons]
    · have hnone : archives.length - k = 0 := by lia
      simp only [Option.bind_eq_bind, Option.bind_some, hholds.named k (by lia),
        List.getElem?_eq_none (not_lt.1 hlt)]
      rw [hnone]
      rfl

end

/-- The names that are meant, where they fit into a buffer. -/
theorem archiveNames (size : Nat) {basefn : Text} {thread_id : Nat} (h : '%' ∉ basefn)
    (hsize : basefn.length + (decimal (toInt thread_id)).length + 2 < size) :
    Names (actualFilename size basefn thread_id) (archiveName basefn thread_id) :=
  ⟨fun _ hk => actualFilename_eq size h hk hsize, fun _ hj _ hk => archiveName_inj hj hk⟩

/-- **`extractMulti` visits consecutive archives**, all of them and no others. -/
theorem extractMulti_spec {basefn : Text} {thread_id : Nat} (h : '%' ∉ basefn)
    (hsize : basefn.length + (decimal (toInt thread_id)).length + 2 < 255)
    {extract : List Path → Bool} {files : Text → Option (List Path)} {archives : List (List Path)}
    (hextract : ∀ archive ∈ archives, extract archive = true)
    (hholds : Holds (archiveName basefn thread_id) files archives)
    (hcount : archives.length ≤ 100) :
    extractMulti extract files basefn thread_id =
      some (0, (List.range archives.length).map (archiveName basefn thread_id)) := by
  rw [extractMulti, extractFrom_spec (archiveNames 255 h hsize) hextract hholds 100 (Nat.zero_le _)
    (by omega) (by omega), Nat.sub_zero, List.range_eq_range']

/-! ## `tarList` -/

theorem start_counted (lstat : Path → Option Stat) {filename : Nat → Option Text}
    {name : Nat → Text} (hnames : Names filename name) (st : Stat) :
    Counted lstat name (Tars.createTar ⟨fun _ => none, name 0, 0, 0, st⟩) [] [] 0 := by
  have hempty : Holds name (fun _ => none) [] := ⟨fun _ _ => rfl, nofun⟩
  refine ⟨hempty.push hnames (by decide) [], rfl, rfl, by decide, rfl, ?_⟩
  intro archive hmem
  rw [List.nil_append, List.mem_singleton] at hmem
  rw [hmem]
  exact .inl (Nat.zero_le _)

/-- What is asked of a name and a list: the name is no format and fits into the buffer of
`extractMulti`, the length of the list is an `int`, and the paths of the thread fit into theirs. -/
structure Sound (basefn : Text) (thread_id : Nat) (TarList : List TarListStruct) : Prop where
  plain : '%' ∉ basefn
  short : basefn.length + (decimal (toInt thread_id)).length + 2 < 255
  list : TarList.length < 2 ^ 31
  paths : ∀ fn ∈ entriesOf thread_id TarList, pathLength fn < PATH_MAX

theorem Sound.tarList_eq {basefn : Text} {thread_id : Nat} {TarList : List TarListStruct}
    (h : Sound basefn thread_id TarList) {faults : Call → Bool} (lstat : Path → Option Stat)
    (st : Stat) (hcreate : faults (.create 0) = false) :
    tarList faults lstat true thread_id basefn st TarList =
      tarLoop faults lstat true thread_id (actualFilename PATH_MAX basefn thread_id) TarList
        (Tars.createTar ⟨fun _ => none, archiveName basefn thread_id 0, 0, 0, st⟩) := by
  have hlist := h.list
  have hshort := h.short
  have hlen : toInt TarList.length = TarList.length := toInt_eq (by lia) (by lia)
  have hfits : basefn.length + (decimal (toInt thread_id)).length + 2 < PATH_MAX := by
    unfold PATH_MAX
    lia
  have hfirst := actualFilename_eq PATH_MAX h.plain (by decide : 0 < 100) hfits
  simp only [tarList, if_true, hfirst, hcreate, hlen, Int.toNat_natCast, List.take_length,
    Bool.false_eq_true, if_false]

/-- **A split backup is complete**, and it succeeds where no call fails, all files can be read and
100 archives are enough. -/
theorem tarList_complete (lstat : Path → Option Stat) (basefn : Text) (thread_id : Nat) (st : Stat)
    (TarList : List TarListStruct) (h : Sound basefn thread_id TarList) :
    (∀ faults, Complete lstat basefn thread_id (entriesOf thread_id TarList)
      (tarList faults lstat true thread_id basefn st TarList)) ∧
    ((∀ fn ∈ entriesOf thread_id TarList, (lstat fn).isSome) →
      archivesNeeded 0 (regSizes lstat (entriesOf thread_id TarList)) ≤ 100 →
      ∃ s, tarList (fun _ => false) lstat true thread_id basefn st TarList = .ok s) := by
  have hshort := h.short
  have hfits : basefn.length + (decimal (toInt thread_id)).length + 2 < PATH_MAX := by
    unfold PATH_MAX
    lia
  have hnames := archiveNames PATH_MAX h.plain hfits
  have hstart := start_counted lstat hnames st
  refine ⟨fun faults => ?_, fun hreadable hneeded => ?_⟩
  · cases hcreate : faults (.create 0) with
    | true =>
      have hrun : tarList faults lstat true thread_id basefn st TarList =
          .error (.ret (-2) ⟨fun _ => none, archiveName basefn thread_id 0, 0, 0, st⟩) := by
        simp only [tarList, if_true, hnames.print 0 (by decide), hcreate]
      rw [hrun]
      exact nofun
    | false =>
      rw [h.tarList_eq lstat st hcreate]
      have hspec := tarLoop_spec faults hnames h.paths hstart
      cases hs : tarLoop faults lstat true thread_id (actualFilename PATH_MAX basefn thread_id)
          TarList (Tars.createTar ⟨fun _ => none, archiveName basefn thread_id 0, 0, 0, st⟩) with
      | error e =>
        rw [hs] at hspec
        exact hspec
      | ok s =>
        rw [hs] at hspec
        obtain ⟨archives, hholds, hcount, hflat, hsizes⟩ := hspec
        exact ⟨archives, hholds, hcount, hflat, hsizes, fun extract hextract =>
          extractMulti_spec h.plain h.short hextract hholds hcount⟩
  · rw [h.tarList_eq lstat st rfl]
    refine tarLoop_ok hnames (fun _ => rfl) h.paths hstart hreadable ?_
    rw [List.length_nil, Nat.zero_add]
    exact hneeded

/-- Two files of one byte, the second of another thread. -/
def twoFiles : List TarListStruct :=
  [⟨["data".toList, "f".toList], 1⟩, ⟨["data".toList, "g".toList], 2⟩]

def oneByte : Stat := ⟨true, 1, by decide⟩

theorem tarList_complete_two :
    ∃ s, tarList (fun _ => false) (fun _ => some oneByte) true 1 "data.win".toList oneByte twoFiles =
        .ok s ∧
      ∃ archives, Written (fun _ => some oneByte) "data.win".toList 1
        [["data".toList, "f".toList]] s archives := by
  have h := tarList_complete (fun _ => some oneByte) "data.win".toList 1 oneByte twoFiles
    ⟨by decide, by decide, by decide, by decide⟩
  obtain ⟨s, hs⟩ := h.2 (fun _ _ => rfl) (by decide)
  have hcomplete := h.1 fun _ => false
  rw [hs] at hcomplete
  exact ⟨s, hs, hcomplete⟩

/-- 2^31 entries of thread 0, for a file of one byte. -/
def longList : List TarListStruct := List.replicate (2 ^ 31) ⟨["f".toList], 0⟩

/-- A name of 252 characters, which has 255 with the numbers behind it. -/
def longName : Text := List.replicate 252 'a'

/-- A length of 2^31 is negative as an `int`: the loop ends at once, and the archive is empty. The long
name is written behind the buffer of `extractMulti`. -/
theorem truncated_list :
    ¬ Complete (fun _ => some oneByte) "data.win".toList 0 (entriesOf 0 longList)
      (tarList (fun _ => false) (fun _ => some oneByte) true 0 "data.win".toList oneByte longList) ∧
    ¬ Complete (fun _ => some oneByte) longName 0 []
      (tarList (fun _ => false) (fun _ => some oneByte) true 0 longName oneByte []) := by
  constructor
  · have hlen : (toInt longList.length).toNat = 0 := by
      rw [longList, List.length_replicate]
      decide
    have hnames : Names (actualFilename PATH_MAX "data.win".toList 0)
        (archiveName "data.win".toList 0) := archiveNames PATH_MAX (by decide) (by decide)
    have hrun : tarList (fun _ => false) (fun _ => some oneByte) true 0 "data.win".toList oneByte
        longList = .ok (Tars.createTar
          ⟨fun _ => none, archiveName "data.win".toList 0 0, 0, 0, oneByte⟩) := by
      simp only [tarList, if_true, hnames.print 0 (by decide), hlen, List.take_zero]
      rfl
    have hfull : (entriesOf 0 longList).length = 2 ^ 31 := by
      rw [entriesOf, longList, List.length_map, List.filter_replicate_of_pos (by decide),
        List.length_replicate]
    rw [hrun]
    rintro ⟨archives, hwritten⟩
    -- the first archive has nothing in it, and there is no second one
    have hnamed := hwritten.holds.named
    have hcounted := (start_counted (fun _ => none) hnames oneByte).holds.named
    have heq : archives = [[]] := by
      apply List.ext_getElem?
      intro k
      by_cases hk : k < 100
      · exact (hnamed k hk).symm.trans (hcounted k hk)
      · have hcount := hwritten.count
        rw [List.getElem?_eq_none (by lia), List.getElem?_eq_none (by simp; lia)]
    have hempty := hwritten.entries
    rw [heq] at hempty
    rw [← hempty] at hfull
    exact absurd hfull (by decide)
  · have hplain : '%' ∉ longName := fun h => absurd (List.eq_of_mem_replicate h) (by decide)
    have hlength : longName.length = 252 := List.length_replicate
    have hnames : Names (actualFilename PATH_MAX longName 0) (archiveName longName 0) :=
      archiveNames PATH_MAX hplain (by rw [hlength]; decide)
    have hrun : tarList (fun _ => false) (fun _ => some oneByte) true 0 longName oneByte [] =
        .ok (Tars.createTar ⟨fun _ => none, archiveName longName 0 0, 0, 0, oneByte⟩) := by
      simp only [tarList, if_true, hnames.print 0 (by decide)]
      rfl
    have hlong : actualFilename 255 longName 0 0 = none := by
      have hprint : sprintf (longName ++ ['%', 'i', '%', '0', '2', 'i']) [toInt (0 : Nat), (0 : Nat)] =
          some (archiveName longName 0 0) := by
        rw [sprintf_append hplain]
        rfl
      rw [actualFilename, hprint]
      refine if_neg ?_
      rw [archiveName, List.length_append, hlength]
      decide
    rw [hrun]
    rintro ⟨archives, hwritten⟩
    have hfound := hwritten.found (fun _ => true) fun _ _ => rfl
    rw [extractMulti, extractFrom, hlong] at hfound
    cases hfound

end Recovery.TwrpTar
