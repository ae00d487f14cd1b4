import Recovery.Mtp.Operations

/-!
# Runs of a storage

* `StorageOp`, `step` — requests of the host, events of the file system, and the other storages.
* `Safe` — what keeps the tree whole: new names are new, and what is deleted holds no directory.
* `step_inv`, `run_inv` — every safe run ends in a well-formed tree.
* `wellFormed_run` — what follows for lookups and for the destructor.

A run is a list of requests and events in any order.  A directory may be deleted by a request only
when nothing below it is a directory, since the code frees the nodes below one level;
`nested_delete_dangles` is a run that deletes a deeper tree and leaves handles of freed nodes.
-/

set_option autoImplicit false

namespace Recovery.Mtp

open Std Recovery.Lib

inductive StorageOp where
  | createDB (inotify : Bool) (listing : Option (List MtpStorage.Dirent)) (wd : Option Int)
  | getObjectList (parent : Handle) (listing : Option (List MtpStorage.Dirent)) (wd : Option Int)
  | beginSendObject (path : Str) (format : Nat) (parent : Handle)
  | endSendObject (handle : Handle)
  | renameObject (handle : Handle) (newName : Str) (renamed : Bool)
  | deleteFile (handle : Handle)
  | handleInotifyEvent (event : MtpStorage.InotifyEvent)
  /-- Other storages take handles from the counter. -/
  | elsewhere (count : Nat)

def MtpStorage.step (s : MtpStorage) : StorageOp → Option MtpStorage
  | .createDB inotify listing wd => s.createDB inotify listing wd
  | .getObjectList parent listing wd => (s.getObjectList parent listing wd).map Prod.snd
  | .beginSendObject path format parent => (s.beginSendObject path format parent).map Prod.snd
  | .endSendObject handle => s.endSendObject handle
  | .renameObject handle newName renamed => (s.renameObject handle newName renamed).map Prod.snd
  | .deleteFile handle => (s.deleteFile handle).map Prod.snd
  | .handleInotifyEvent event => s.handleInotifyEvent event
  | .elsewhere count => some { s with mtpid := (s.mtpid + count) % 2 ^ 32 }

def MtpStorage.run (s : MtpStorage) (ops : List StorageOp) : Option MtpStorage :=
  ops.foldlM MtpStorage.step s

/-! ## Safe operations -/

/-- The names that reading a directory adds. -/
def addedNames : List MtpStorage.Dirent → List Str
  | [] => []
  | de :: listing =>
    if de.st_mode = none then []
    else if de.name = ascii "." then addedNames listing
    else if de.name = ascii ".." then addedNames listing
    else de.name :: addedNames listing

/-- The names are new, and the counter of handles does not wrap. -/
def SafeListing (s : MtpStorage) (taken : Str → Prop) (listing : Option (List MtpStorage.Dirent)) :
    Prop :=
  ∀ l, listing = some l → (addedNames l).Nodup ∧ (∀ x ∈ addedNames l, ¬taken x) ∧
    s.mtpid + (addedNames l).length < 2 ^ 32

def Unwatched (s : MtpStorage) (p : Ptr) : Prop := ∀ wd : Int, s.inotifymap[wd]? ≠ some p

/-- At most one watch, which an event for a directory removes. -/
def OnlyWatched (s : MtpStorage) (p : Ptr) : Prop :=
  ∀ wd wd' : Int, s.inotifymap[wd]? = some p → s.inotifymap[wd']? = some p → wd = wd'

/-- **What keeps the tree whole.** -/
def Safe (s : MtpStorage) : StorageOp → Prop
  -- once
  | .createDB _ listing _ => s.mtpmap[(0 : Handle)]? = none ∧ SafeListing s (fun _ => False) listing
  -- a directory that is read has none of the names yet
  | .getObjectList parent listing _ =>
    ∀ tree m d, s.mtpmap[MtpStorage.parentKey parent]? = some tree →
      s.heap.cells tree = some m → m.dir = some d → d.alreadyRead = false →
      SafeListing s (Named s tree) listing
  -- the new object has a new name
  | .beginSendObject path _ parent =>
    ∀ tree parentdir basename, s.mtpmap[parent]? = some tree →
      MtpStorage.splitPath path = some (parentdir, basename) →
      (parent = 0 ∨ s.getNodePath tree = some parentdir) →
      ¬Named s tree basename ∧ s.mtpid + 1 < 2 ^ 32
  | .endSendObject _ => True
  -- and so has one that is renamed
  | .renameObject handle newName renamed =>
    handle ≠ MTP_PARENT_ROOT → renamed = true → ∀ p, s.findNode handle = some (some p) →
      ∀ tree q n, ChildOf Node.children s.heap.cells tree p →
        ChildOf Node.children s.heap.cells tree q → q ≠ p → s.heap.cells q = some n →
        n.name ≠ newName
  -- no directory is deleted that is watched, or that has directories
  | .deleteFile handle => ∀ p, s.findNode handle = some (some p) → Removable s p ∧ Unwatched s p
  | .handleInotifyEvent event =>
    ∀ tree, s.inotifymap[event.wd]? = some tree →
      (event.created = true → ¬Named s tree event.name → s.mtpid + 1 < 2 ^ 32) ∧
      (event.created = false → event.deleted = true → ∀ p n,
        ChildOf Node.children s.heap.cells tree p → s.heap.cells p = some n →
        n.name = event.name → n.handle ≠ s.handleCurrentlySending →
        Removable s p ∧ if event.isDir then OnlyWatched s p else Unwatched s p)
  | .elsewhere count => s.mtpid + count < 2 ^ 32

/-! ## Steps -/

theorem readEntries_inv {tree : Ptr} {listing : List MtpStorage.Dirent} {s : MtpStorage}
    (hs : Inv s) {m : Node} {d : Dir} (hm : s.heap.cells tree = some m) (hd : m.dir = some d)
    (hnodup : (addedNames listing).Nodup) (hnew : ∀ x ∈ addedNames listing, ¬Named s tree x)
    (hfits : s.mtpid + (addedNames listing).length < 2 ^ 32) :
    ∃ ok s', MtpStorage.readEntries tree listing s = some (ok, s') ∧ Inv s' ∧
      ∃ m' d', s'.heap.cells tree = some m' ∧ m'.dir = some d' ∧ m'.handle = m.handle := by
  induction listing generalizing s m d with
  | nil => exact ⟨true, s, rfl, hs, m, d, hm, hd, rfl⟩
  | cons de listing ih =>
    unfold MtpStorage.readEntries
    unfold addedNames at hnodup hnew hfits
    cases hmode : de.st_mode with
    | none => exact ⟨false, s, rfl, hs, m, d, hm, hd, rfl⟩
    | some mode =>
      rw [hmode, if_neg nofun] at hnodup hnew hfits
      dsimp only
      by_cases hdot : de.name = ascii "."
      · rw [if_pos hdot] at hnodup hnew hfits ⊢
        exact ih hs hm hd hnodup hnew hfits
      · rw [if_neg hdot] at hnodup hnew hfits ⊢
        by_cases hdots : de.name = ascii ".."
        · rw [if_pos hdots] at hnodup hnew hfits ⊢
          exact ih hs hm hd hnodup hnew hfits
        · rw [if_neg hdots] at hnodup hnew hfits ⊢
          rw [List.nodup_cons] at hnodup
          rw [List.length_cons] at hfits
          have hname : ¬Named s tree de.name := hnew _ List.mem_cons_self
          have hone : s.mtpid + 1 < 2 ^ 32 :=
            Nat.lt_of_le_of_lt (Nat.add_le_add_left (Nat.le_add_left 1 _) _) hfits
          rw [hs.addNewNode hm hd hone, Option.bind_some]
          have hadded := hs.added (mode &&& MtpStorage.S_IFDIR ≠ 0) hm hd hname
          apply ih hadded ((Inv.cells_added _ _ hm hd tree).trans (if_pos rfl)) rfl hnodup.2
          · intro x hx hnamed
            rcases hs.named_added hm hd hnamed with hnamed | rfl
            · exact hnew x (List.mem_cons_of_mem _ hx) hnamed
            · exact hnodup.1 hx
          · change s.mtpid + 1 + (addedNames listing).length < 2 ^ 32
            rw [Nat.add_assoc, Nat.add_comm 1]
            exact hfits

/-- A path is looked up, and nothing else happens. -/
theorem addInotify_inv {s : MtpStorage} (hs : Inv s) {tree : Ptr} {m : Node} {d : Dir}
    (hm : s.heap.cells tree = some m) (hd : m.dir = some d) (wd : Option Int) :
    ∃ s', s.addInotify tree wd = some s' ∧ Inv s' ∧ s'.heap = s.heap ∧ s'.mtpmap = s.mtpmap := by
  unfold MtpStorage.addInotify
  split
  · exact ⟨s, rfl, hs, rfl, rfl⟩
  · obtain ⟨path, hpath⟩ := hs.getNodePath hm
    rw [hpath, Option.map_some]
    cases wd with
    | none => exact ⟨s, rfl, hs, rfl, rfl⟩
    | some wd =>
      refine ⟨_, rfl, hs.watches ?_, rfl, rfl⟩
      intro wd' p hp
      rw [TreeMap.getElem?_insert] at hp
      split at hp
      · cases hp
        exact ⟨m, d, hm, hd⟩
      · exact hs.watch hp

theorem setAlreadyRead_inv {s : MtpStorage} (hs : Inv s) {tree : Ptr} {m : Node} {d : Dir}
    (hm : s.heap.cells tree = some m) (hd : m.dir = some d) :
    ∃ s', s.setAlreadyRead tree = some s' ∧ Inv s' ∧
      s'.heap.cells tree = some { m with dir := some { d with alreadyRead := true } } := by
  unfold MtpStorage.setAlreadyRead
  rw [tree_eq_some.2 ⟨hm, hd⟩, Option.map_some]
  refine ⟨_, rfl, hs.modify ?_ ?_, ?_⟩
  · intro n
    refine ⟨rfl, rfl, ?_⟩
    cases hdir : n.dir with
    | none => simp [Node.mapDir, hdir]
    | some d => simp [Node.mapDir, hdir]
  · -- no name changes
    intro n n' t q hn hchild hchild' hne hn' heq
    obtain ⟨l, d', hl, hd', h, hentry⟩ := childOf_iff.1 hchild
    obtain ⟨l', d'', hl', hd'', k, hentry'⟩ := childOf_iff.1 hchild'
    rw [hl] at hl'
    cases hl'
    rw [hd'] at hd''
    cases hd''
    have hkey := hs.names hl hd' hentry' hentry hn' hn heq
    rw [hkey, hentry] at hentry'
    exact hne (Option.some.inj hentry').symm
  · dsimp only
    rw [Heap.cells_modify, if_pos rfl, hm]
    simp [Node.mapDir, hd]

theorem readDir_inv {s : MtpStorage} (hs : Inv s) {tree : Ptr} {m : Node} {d : Dir}
    (hm : s.heap.cells tree = some m) (hd : m.dir = some d)
    {listing : Option (List MtpStorage.Dirent)} (hsafe : SafeListing s (Named s tree) listing)
    (wd : Option Int) :
    ∃ s', s.readDir tree listing wd = some s' ∧ Inv s' ∧
      ∃ m' d', s'.heap.cells tree = some m' ∧ m'.dir = some d' ∧ m'.handle = m.handle := by
  unfold MtpStorage.readDir
  cases listing with
  | none => exact ⟨s, rfl, hs, m, d, hm, hd, rfl⟩
  | some l =>
    obtain ⟨hnodup, hnew, hfits⟩ := hsafe l rfl
    obtain ⟨ok, s₁, hread, hs₁, m₁, d₁, hm₁, hd₁, hh₁⟩ :=
      readEntries_inv hs hm hd hnodup hnew hfits
    dsimp only
    rw [hread, Option.bind_some]
    cases ok with
    | false => exact ⟨s₁, rfl, hs₁, m₁, d₁, hm₁, hd₁, hh₁⟩
    | true =>
      obtain ⟨s₂, hset, hs₂, hm₂⟩ := setAlreadyRead_inv hs₁ hm₁ hd₁
      obtain ⟨s₃, hadd, hs₃, hheap, -⟩ := addInotify_inv hs₂ hm₂ rfl wd
      rw [← hheap] at hm₂
      exact ⟨s₃, by simp [hset, hadd], hs₃, _, _, hm₂, rfl, hh₁⟩

theorem new_inv (path : Str) (mtpid : Handle) : Inv (MtpStorage.new path mtpid) := by
  constructor
  · exact fun h => absurd h (Nat.lt_irrefl 1)
  · intro h p hp
    simp [MtpStorage.new] at hp
  all_goals exact nofun

theorem createDB_inv {s : MtpStorage} (hs : Inv s) (hfirst : s.mtpmap[(0 : Handle)]? = none)
    (inotify : Bool) {listing : Option (List MtpStorage.Dirent)}
    (hsafe : SafeListing s (fun _ => False) listing) (wd : Option Int) :
    ∃ s', s.createDB inotify listing wd = some s' ∧ Inv s' := by
  -- nothing has been allocated
  have hempty : ∀ p, s.heap.cells p = none := by
    intro p
    cases hp : s.heap.cells p with
    | none => rfl
    | some n =>
      have hnext : 1 < s.heap.next := Nat.lt_of_le_of_lt (Heap.pos hp) (Heap.lt_next hp)
      obtain ⟨r, hr⟩ := hs.root hnext
      rw [hfirst] at hr
      cases hr
  have hmap : ∀ h : Handle, s.mtpmap[h]? = none := by
    intro h
    cases hp : s.mtpmap[h]? with
    | none => rfl
    | some p =>
      obtain ⟨n, d, hn, -⟩ := hs.trees hp
      rw [hempty] at hn
      cases hn
  have hwatch : ∀ wd : Int, s.inotifymap[wd]? = none := by
    intro wd
    cases hp : s.inotifymap[wd]? with
    | none => rfl
    | some p =>
      obtain ⟨n, d, hn, -⟩ := hs.watch hp
      rw [hempty] at hn
      cases hn
  have hentries : ∀ h : Handle, (∅ : TreeMap Handle Ptr)[h]? = none := by simp
  have hcells : ∀ q, (s.heap.alloc ⟨0, 0, [], some ⟨∅, false⟩⟩).cells q =
      if q = s.heap.next then some ⟨0, 0, [], some ⟨∅, false⟩⟩ else none := by
    intro q
    rw [Heap.cells_alloc, hempty]
  have hkey : ∀ h : Handle, (s.mtpmap.insert 0 s.heap.next)[h]? =
      if 0 = h then some s.heap.next else none := by
    intro h
    simp [TreeMap.getElem?_insert, hmap]
  let s₁ : MtpStorage := { s with
    heap := s.heap.alloc ⟨0, 0, [], some ⟨∅, false⟩⟩
    mtpmap := s.mtpmap.insert 0 s.heap.next
    inotify := inotify }
  have honly : ∀ {q n}, s₁.heap.cells q = some n →
      q = s.heap.next ∧ n = ⟨0, 0, [], some ⟨∅, false⟩⟩ := by
    intro q n hq
    rw [hcells] at hq
    split at hq
    · rename_i heq
      exact ⟨heq, (Option.some.inj hq).symm⟩
    · cases hq
  have hroot : s₁.heap.cells s.heap.next = some ⟨0, 0, [], some ⟨∅, false⟩⟩ :=
    (hcells _).trans (if_pos rfl)
  have hnone : ∀ {q n d}, s₁.heap.cells q = some n → n.dir = some d →
      ∀ h : Handle, d.entries[h]? = none := by
    intro q n d hq hd
    obtain ⟨-, rfl⟩ := honly hq
    cases hd
    exact hentries
  have hs₁ : Inv s₁ := by
    constructor
    · exact fun _ => ⟨s.heap.next, (hkey 0).trans (if_pos rfl)⟩
    · intro h p hp
      rw [hkey] at hp
      split at hp
      · rename_i heq
        cases hp
        exact ⟨_, _, hroot, heq, rfl⟩
      · cases hp
    · intro p n d hp hd
      obtain ⟨rfl, rfl⟩ := honly hp
      exact (hkey 0).trans (if_pos rfl)
    · intro p n hp hne
      obtain ⟨-, rfl⟩ := honly hp
      exact absurd rfl hne
    · intro p n hp _
      obtain ⟨-, rfl⟩ := honly hp
      rfl
    · intro t p m d h ht hd hp
      rw [hnone ht hd] at hp
      cases hp
    · intro p q n m hp hq _
      rw [(honly hp).1, (honly hq).1]
    · intro wd p hp
      rw [hwatch] at hp
      cases hp
    · intro t p q m n n' d h k ht hd hp
      rw [hnone ht hd] at hp
      cases hp
    · intro p n hp
      obtain ⟨-, rfl⟩ := honly hp
      exact Nat.zero_le _
  have hsafe₁ : SafeListing s₁ (Named s₁ s.heap.next) listing := by
    intro l hl
    obtain ⟨hnodup, -, hfits⟩ := hsafe l hl
    refine ⟨hnodup, ?_, hfits⟩
    rintro x - ⟨q, n, hchild, -⟩
    obtain ⟨m, d, hm, hd, h, hentry⟩ := childOf_iff.1 hchild
    rw [hnone hm hd] at hentry
    cases hentry
  obtain ⟨s', hread, hs', -⟩ := readDir_inv hs₁ hroot rfl hsafe₁ wd
  exact ⟨s', hread, hs'⟩

theorem getmtpids_inv {s : MtpStorage} (hs : Inv s) {tree : Ptr} {m : Node} {d : Dir}
    (hm : s.heap.cells tree = some m) (hd : m.dir = some d) :
    ∃ list, Memory.getmtpids s.heap tree = some list := by
  have hloop : ∀ l : List (Handle × Ptr), (∀ e ∈ l, d.entries[e.1]? = some e.2) →
      ∃ list, (l.mapM fun e => (s.heap.cells e.2).map Node.handle) = some list := by
    intro l hl
    induction l with
    | nil => exact ⟨[], rfl⟩
    | cons e l ih =>
      obtain ⟨n, hn, -⟩ := hs.entry hm hd (hl e List.mem_cons_self)
      obtain ⟨list, hlist⟩ := ih fun e he => hl e (List.mem_cons_of_mem _ he)
      exact ⟨n.handle :: list, by rw [List.mapM_cons, hlist, hn]; rfl⟩
  unfold Memory.getmtpids
  rw [tree_eq_some.2 ⟨hm, hd⟩, Option.bind_some]
  exact hloop _ fun e he => TreeMap.mem_toList_iff_getElem?_eq_some.1 he

theorem getObjectList_inv {s : MtpStorage} (hs : Inv s) {parent : Handle}
    {listing : Option (List MtpStorage.Dirent)} {wd : Option Int}
    (hsafe : Safe s (.getObjectList parent listing wd)) :
    ∃ list s', s.getObjectList parent listing wd = some (list, s') ∧ Inv s' := by
  unfold MtpStorage.getObjectList
  cases htree : s.mtpmap[MtpStorage.parentKey parent]? with
  | none => exact ⟨[], s, rfl, hs⟩
  | some tree =>
    obtain ⟨m, d, hm, hparent, hd⟩ := hs.trees htree
    have hread : ∃ s', (if d.alreadyRead then some s
        else (s.getNodePath tree).bind fun _ => s.readDir tree listing wd) = some s' ∧ Inv s' ∧
        ∃ m' d', s'.heap.cells tree = some m' ∧ m'.dir = some d' ∧ m'.handle = m.handle := by
      cases hdone : d.alreadyRead with
      | true => exact ⟨s, rfl, hs, m, d, hm, hd, rfl⟩
      | false =>
        obtain ⟨path, hpath⟩ := hs.getNodePath hm
        rw [hpath]
        exact readDir_inv hs hm hd (hsafe tree m d htree hm hd hdone) wd
    obtain ⟨s', hrun, hs', m', d', hm', hd', hhandle⟩ := hread
    obtain ⟨list, hlist⟩ := getmtpids_inv hs' hm' hd'
    have hfound : s'.mtpmap[MtpStorage.parentKey parent]? = some tree := by
      rw [← hparent, ← hhandle]
      exact hs'.dirs hm' hd'
    refine ⟨list, s', ?_, hs'⟩
    dsimp only
    rw [tree_eq_some.2 ⟨hm, hd⟩, Option.bind_some]
    dsimp only
    rw [hrun, Option.bind_some, hfound, Option.bind_some, hlist]
    rfl

theorem beginSendObject_inv {s : MtpStorage} (hs : Inv s) {path : Str} {format : Nat}
    {parent : Handle} (hsafe : Safe s (.beginSendObject path format parent)) :
    ∃ handle s', s.beginSendObject path format parent = some (handle, s') ∧ Inv s' := by
  unfold MtpStorage.beginSendObject
  cases htree : s.mtpmap[parent]? with
  | none => exact ⟨_, s, rfl, hs⟩
  | some tree =>
    dsimp only
    cases hsplit : MtpStorage.splitPath path with
    | none => exact ⟨_, s, rfl, hs⟩
    | some parts =>
      obtain ⟨parentdir, basename⟩ := parts
      dsimp only
      obtain ⟨m, d, hm, -, hd⟩ := hs.trees htree
      have hadd (hplace : parent = 0 ∨ s.getNodePath tree = some parentdir) :
          ∃ handle s', ((s.addNewNode (format = MTP_FORMAT_ASSOCIATION) tree basename).bind
            fun r => (r.2.heap.cells r.1).map fun n =>
              (n.handle, { r.2 with handleCurrentlySending := n.handle })) = some (handle, s') ∧
            Inv s' := by
        obtain ⟨hname, hfits⟩ := hsafe tree parentdir basename htree hsplit hplace
        have hadded := hs.added (format = MTP_FORMAT_ASSOCIATION) hm hd hname
        have hcell := Inv.cells_added (format = MTP_FORMAT_ASSOCIATION) basename hm hd
          s.heap.next
        rw [if_neg (Nat.ne_of_gt (Heap.lt_next hm)), if_pos rfl] at hcell
        rw [hs.addNewNode hm hd hfits, Option.bind_some]
        dsimp only
        rw [hcell]
        exact ⟨_, _, rfl, hadded.sending _⟩
      by_cases hroot : parent = 0
      · rw [if_pos hroot]
        exact hadd (Or.inl hroot)
      · obtain ⟨treepath, hpath⟩ := hs.getNodePath hm
        rw [if_neg hroot, hpath, Option.map_some, Option.bind_some]
        by_cases heq : parentdir = treepath
        · rw [decide_eq_true heq]
          exact hadd (Or.inr (by rw [hpath, heq]))
        · rw [decide_eq_false heq]
          exact ⟨_, s, rfl, hs⟩

theorem endSendObject_inv {s : MtpStorage} (hs : Inv s) (handle : Handle) :
    ∃ s', s.endSendObject handle = some s' ∧ Inv s' := by
  unfold MtpStorage.endSendObject
  obtain ⟨r, hr, -⟩ := hs.findNode handle
  rw [hr]
  cases r with
  | none => exact ⟨s, rfl, hs⟩
  | some p => exact ⟨_, rfl, hs.sending 0⟩

theorem renameObject_inv {s : MtpStorage} (hs : Inv s) {handle : Handle} {newName : Str}
    {renamed : Bool} (hsafe : Safe s (.renameObject handle newName renamed)) :
    ∃ ok s', s.renameObject handle newName renamed = some (ok, s') ∧ Inv s' := by
  unfold MtpStorage.renameObject
  by_cases hroot : handle = MTP_PARENT_ROOT
  · rw [if_pos hroot]
    exact ⟨false, s, rfl, hs⟩
  · rw [if_neg hroot]
    obtain ⟨r, hr, hiff⟩ := hs.search handle
    rw [hr, Option.bind_some]
    cases r with
    | none => exact ⟨false, s, rfl, hs⟩
    | some p =>
      obtain ⟨n, hn, hh, hne⟩ := (hiff p).1 rfl
      obtain ⟨path, hpath⟩ := hs.getNodePath hn
      dsimp only
      rw [hpath, Option.map_some]
      cases hren : renamed with
      | false => exact ⟨false, s, rfl, hs⟩
      | true =>
        have hfind : s.findNode handle = some (some p) := by
          unfold MtpStorage.findNode
          rw [hr, Option.bind_some]
          dsimp only
          rw [hn]
          rfl
        refine ⟨true, _, rfl, hs.modify (fun _ => ⟨rfl, rfl, rfl⟩) ?_⟩
        intro n n' t q _ hchild hchild' hqp hq
        exact hsafe hroot hren p hfind t q n' hchild hchild' hqp hq

theorem deleteFile_inv {s : MtpStorage} (hs : Inv s) {handle : Handle}
    (hsafe : Safe s (.deleteFile handle)) :
    ∃ ok s', s.deleteFile handle = some (ok, s') ∧ Inv s' := by
  obtain ⟨r, hr, hiff⟩ := hs.findNode handle
  cases r with
  | none =>
    unfold MtpStorage.deleteFile
    rw [hr]
    exact ⟨false, s, rfl, hs⟩
  | some p =>
    obtain ⟨n, hn, hh, hne⟩ := (hiff p).1 rfl
    obtain ⟨hremovable, hwatch⟩ := hsafe p hr
    obtain ⟨s', hdelete, hs'⟩ := hs.deleteFile hn hh hne hremovable hwatch
    exact ⟨true, s', hdelete, hs'⟩

/-! ## Events -/

/-- **The lookup of an entry** by its name. -/
theorem findEntryByName_spec {s : MtpStorage} (hs : Inv s) {tree : Ptr} {m : Node} {d : Dir}
    (hm : s.heap.cells tree = some m) (hd : m.dir = some d) (name : Str) :
    ∃ r, Memory.findEntryByName s.heap tree name = some r ∧
      (r = none → ¬Named s tree name) ∧
      ∀ p, r = some p → ChildOf Node.children s.heap.cells tree p ∧
        ∃ n, s.heap.cells p = some n ∧ n.name = name := by
  have hloop : ∀ l : List (Handle × Ptr), (∀ e ∈ l, d.entries[e.1]? = some e.2) →
      ∃ r, Memory.findByName s.heap name l = some r ∧
        (r = none → ∀ e ∈ l, ∀ n, s.heap.cells e.2 = some n → n.name ≠ name) ∧
        ∀ p, r = some p → ChildOf Node.children s.heap.cells tree p ∧
          ∃ n, s.heap.cells p = some n ∧ n.name = name := by
    intro l hl
    induction l with
    | nil => exact ⟨none, rfl, fun _ => nofun, nofun⟩
    | cons e l ih =>
      have hentry := hl e List.mem_cons_self
      obtain ⟨n, hn, hh, -, hne, -⟩ := hs.entry hm hd hentry
      unfold Memory.findByName
      rw [hn, Option.bind_some]
      by_cases hname : n.name = name
      · rw [if_pos ⟨hname, Nat.pos_of_ne_zero (hh ▸ hne)⟩]
        refine ⟨some e.2, rfl, nofun, ?_⟩
        intro p hp
        cases hp
        exact ⟨childOf_iff.2 ⟨m, d, hm, hd, e.1, hentry⟩, n, hn, hname⟩
      · rw [if_neg fun h => hname h.1]
        obtain ⟨r, hr, hnone, hsome⟩ := ih fun e he => hl e (List.mem_cons_of_mem _ he)
        refine ⟨r, hr, ?_, hsome⟩
        intro hr e' he' n' hn'
        rcases List.mem_cons.1 he' with rfl | he'
        · rw [hn] at hn'
          cases hn'
          exact hname
        · exact hnone hr e' he' n' hn'
  obtain ⟨r, hr, hnone, hsome⟩ := hloop d.entries.toList
    fun e he => TreeMap.mem_toList_iff_getElem?_eq_some.1 he
  refine ⟨r, ?_, ?_, hsome⟩
  · unfold Memory.findEntryByName
    rw [tree_eq_some.2 ⟨hm, hd⟩]
    exact hr
  · rintro hr ⟨q, n, hchild, hn, hname⟩
    obtain ⟨m', d', hm', hd', h, hentry⟩ := childOf_iff.1 hchild
    rw [hm] at hm'
    cases hm'
    rw [hd] at hd'
    cases hd'
    exact hnone hr (h, q) (TreeMap.mem_toList_iff_getElem?_eq_some.2 hentry) n hn hname

theorem newEntryEvent_inv {s : MtpStorage} (hs : Inv s) {event : MtpStorage.InotifyEvent}
    {tree : Ptr} {m : Node} {d : Dir} (hm : s.heap.cells tree = some m) (hd : m.dir = some d)
    (hname : ¬Named s tree event.name) (hfits : event.created = true → s.mtpid + 1 < 2 ^ 32) :
    ∃ s', s.newEntryEvent event tree = some s' ∧ Inv s' := by
  unfold MtpStorage.newEntryEvent
  cases hcreated : event.created with
  | false => exact ⟨s, rfl, hs⟩
  | true =>
    have hadded := hs.added event.isDir hm hd hname
    obtain ⟨path, hpath⟩ := hadded.getNodePath
      ((Inv.cells_added event.isDir event.name hm hd tree).trans (if_pos rfl))
    rw [hs.addNewNode hm hd (hfits hcreated)]
    exact ⟨_, by simp [hpath], hadded⟩

/-- The watch that an event for a directory removes. -/
theorem removeWatch_inv {s : MtpStorage} (hs : Inv s) {p : Ptr} (honly : OnlyWatched s p) :
    ∃ s', s.removeWatch p = some s' ∧ Inv s' ∧ s'.heap = s.heap ∧ s'.mtpmap = s.mtpmap ∧
      Unwatched s' p := by
  unfold MtpStorage.removeWatch
  cases hfind : s.inotifymap.toList.find? fun watch => watch.2 = p with
  | none =>
    refine ⟨s, rfl, hs, rfl, rfl, ?_⟩
    intro wd hwd
    have hno := List.find?_eq_none.1 hfind (wd, p) (TreeMap.mem_toList_iff_getElem?_eq_some.2 hwd)
    simp at hno
  | some watch =>
    obtain ⟨wd, tree⟩ := watch
    have heq : tree = p := by simpa using List.find?_some hfind
    have hwd := TreeMap.mem_toList_iff_getElem?_eq_some.1 (List.mem_of_find?_eq_some hfind)
    subst heq
    obtain ⟨n, d, hn, hd⟩ := hs.watch hwd
    obtain ⟨path, hpath⟩ := hs.getNodePath hn
    dsimp only
    rw [hpath]
    refine ⟨_, rfl, hs.watches ?_, rfl, rfl, ?_⟩
    · intro wd' q hq
      rw [TreeMap.getElem?_erase] at hq
      split at hq
      · cases hq
      · exact hs.watch hq
    · intro wd' hq
      dsimp only at hq
      rw [TreeMap.getElem?_erase] at hq
      split at hq
      · cases hq
      · rename_i hne
        rw [honly wd wd' hwd hq] at hne
        simp at hne

theorem nodeEvent_inv {s : MtpStorage} (hs : Inv s) {event : MtpStorage.InotifyEvent} {p : Ptr}
    {n : Node} (hn : s.heap.cells p = some n) (hne : n.handle ≠ 0)
    (hdelete : event.created = false → event.deleted = true →
      Removable s p ∧ if event.isDir then OnlyWatched s p else Unwatched s p) :
    ∃ s', s.nodeEvent event p n.handle = some s' ∧ Inv s' := by
  unfold MtpStorage.nodeEvent
  split
  · exact ⟨s, rfl, hs⟩
  · rename_i hcreated
    split
    · rename_i hdeleted
      obtain ⟨hremovable, hwatch⟩ := hdelete (by simpa using hcreated) hdeleted
      have hremove : ∃ s₁, (if event.isDir then s.removeWatch p else some s) = some s₁ ∧
          Inv s₁ ∧ s₁.heap = s.heap ∧ Unwatched s₁ p := by
        split
        · rename_i hdir
          rw [if_pos hdir] at hwatch
          obtain ⟨s₁, hrun, hs₁, hheap, -, hun⟩ := removeWatch_inv hs hwatch
          exact ⟨s₁, hrun, hs₁, hheap, hun⟩
        · rename_i hdir
          rw [if_neg hdir] at hwatch
          exact ⟨s, rfl, hs, rfl, hwatch⟩
      obtain ⟨s₁, hrun, hs₁, hheap, hun⟩ := hremove
      have hremovable₁ : Removable s₁ p := by
        unfold Removable
        rw [hheap]
        exact hremovable
      obtain ⟨s', hdel, hs'⟩ := hs₁.deleteFile (by rw [hheap]; exact hn) rfl hne hremovable₁ hun
      exact ⟨s', by rw [hrun, Option.bind_some, hdel]; rfl, hs'⟩
    · split
      · obtain ⟨path, hpath⟩ := hs.getNodePath hn
        exact ⟨s, by rw [hpath]; rfl, hs⟩
      · exact ⟨s, rfl, hs⟩

theorem handleInotifyEvent_inv {s : MtpStorage} (hs : Inv s) {event : MtpStorage.InotifyEvent}
    (hsafe : Safe s (.handleInotifyEvent event)) :
    ∃ s', s.handleInotifyEvent event = some s' ∧ Inv s' := by
  unfold MtpStorage.handleInotifyEvent
  cases hwatch : s.inotifymap[event.wd]? with
  | none => exact ⟨s, rfl, hs⟩
  | some tree =>
    obtain ⟨m, d, hm, hd⟩ := hs.watch hwatch
    obtain ⟨hcreate, hdelete⟩ := hsafe tree hwatch
    obtain ⟨r, hr, hnone, hsome⟩ := findEntryByName_spec hs hm hd event.name
    dsimp only
    rw [hr, Option.bind_some]
    cases r with
    | none => exact newEntryEvent_inv hs hm hd (hnone rfl) fun h => hcreate h (hnone rfl)
    | some p =>
      obtain ⟨hchild, n, hn, hname⟩ := hsome p rfl
      obtain ⟨m', d', hm', hd', h, hentry⟩ := childOf_iff.1 hchild
      obtain ⟨n', hn', hh, -, hne, -⟩ := hs.entry hm' hd' hentry
      rw [hn] at hn'
      cases hn'
      dsimp only
      rw [hn, Option.bind_some]
      split
      · exact ⟨s, rfl, hs⟩
      · rename_i hsending
        exact nodeEvent_inv hs hn (hh ▸ hne) fun hcreated hdeleted =>
          hdelete hcreated hdeleted p n hchild hn hname hsending

/-! ## Runs -/

/-- **A safe step** keeps the tree well-formed. -/
theorem step_inv {s : MtpStorage} (hs : Inv s) {op : StorageOp} (hsafe : Safe s op) :
    ∃ s', s.step op = some s' ∧ Inv s' := by
  cases op with
  | createDB inotify listing wd => exact createDB_inv hs hsafe.1 inotify hsafe.2 wd
  | getObjectList parent listing wd =>
    obtain ⟨list, s', hrun, hs'⟩ := getObjectList_inv hs hsafe
    exact ⟨s', by rw [MtpStorage.step, hrun]; rfl, hs'⟩
  | beginSendObject path format parent =>
    obtain ⟨handle, s', hrun, hs'⟩ := beginSendObject_inv hs hsafe
    exact ⟨s', by rw [MtpStorage.step, hrun]; rfl, hs'⟩
  | endSendObject handle => exact endSendObject_inv hs handle
  | renameObject handle newName renamed =>
    obtain ⟨ok, s', hrun, hs'⟩ := renameObject_inv hs hsafe
    exact ⟨s', by rw [MtpStorage.step, hrun]; rfl, hs'⟩
  | deleteFile handle =>
    obtain ⟨ok, s', hrun, hs'⟩ := deleteFile_inv hs hsafe
    exact ⟨s', by rw [MtpStorage.step, hrun]; rfl, hs'⟩
  | handleInotifyEvent event => exact handleInotifyEvent_inv hs hsafe
  | elsewhere count =>
    refine ⟨_, rfl, hs.counted ?_⟩
    rw [Nat.mod_eq_of_lt hsafe]
    exact Nat.le_add_right _ _

/-- All steps are safe, in the states in which they are taken. -/
def SafeRun : MtpStorage → List StorageOp → Prop
  | _, [] => True
  | s, op :: ops => Safe s op ∧ ∀ s', s.step op = some s' → SafeRun s' ops

theorem run_inv {s : MtpStorage} (hs : Inv s) {ops : List StorageOp} (hsafe : SafeRun s ops) :
    ∃ s', s.run ops = some s' ∧ Inv s' := by
  induction ops generalizing s with
  | nil => exact ⟨s, rfl, hs⟩
  | cons op ops ih =>
    obtain ⟨s₁, hstep, hs₁⟩ := step_inv hs hsafe.1
    obtain ⟨s', hrun, hs'⟩ := ih hs₁ (hsafe.2 s₁ hstep)
    refine ⟨s', ?_, hs'⟩
    unfold MtpStorage.run
    rw [List.foldlM_cons, hstep]
    exact hrun

/-- **The object tree**, in its three structures. -/
structure WellFormed (s : MtpStorage) : Prop where
  /-- The handles in `mtpmap` are those of the live directories, the root with them. -/
  handles (h : Handle) : (∃ p, s.mtpmap[h]? = some p) ↔
    ∃ p n, s.heap.cells p = some n ∧ n.isDir = true ∧ n.handle = h
  /-- They map to these nodes. -/
  maps {h : Handle} {p : Ptr} : s.mtpmap[h]? = some p →
    ∃ n, s.heap.cells p = some n ∧ n.isDir = true ∧ n.handle = h
  /-- A node is in the directory that `mtpmap` has for its parent handle. -/
  parents {p : Ptr} {n : Node} : s.heap.cells p = some n → n.handle ≠ 0 →
    ∃ t, s.mtpmap[n.parent]? = some t ∧ ChildOf Node.children s.heap.cells t p
  watches {wd : Int} {p : Ptr} : s.inotifymap[wd]? = some p →
    ∃ n, s.heap.cells p = some n ∧ n.isDir = true
  unique {p q : Ptr} {n m : Node} : s.heap.cells p = some n → s.heap.cells q = some m →
    n.handle = m.handle → p = q
  names {t p q : Ptr} {n m : Node} : ChildOf Node.children s.heap.cells t p →
    ChildOf Node.children s.heap.cells t q → s.heap.cells p = some n → s.heap.cells q = some m →
    n.name = m.name → p = q

theorem Inv.wellFormed {s : MtpStorage} (hs : Inv s) : WellFormed s := by
  have hdir : ∀ {n : Node}, n.isDir = true ↔ ∃ d, n.dir = some d := by
    intro n
    exact Option.isSome_iff_exists
  constructor
  · intro h
    constructor
    · rintro ⟨p, hp⟩
      obtain ⟨n, d, hn, hh, hd⟩ := hs.trees hp
      exact ⟨p, n, hn, hdir.2 ⟨d, hd⟩, hh⟩
    · rintro ⟨p, n, hn, hd, rfl⟩
      obtain ⟨d, hd⟩ := hdir.1 hd
      exact ⟨p, hs.dirs hn hd⟩
  · intro h p hp
    obtain ⟨n, d, hn, hh, hd⟩ := hs.trees hp
    exact ⟨n, hn, hdir.2 ⟨d, hd⟩, hh⟩
  · intro p n hp hne
    obtain ⟨t, m, d, hm, hd, heq, hentry⟩ := hs.parent hp hne
    exact ⟨t, heq ▸ hs.dirs hm hd, childOf_iff.2 ⟨m, d, hm, hd, _, hentry⟩⟩
  · intro wd p hp
    obtain ⟨n, d, hn, hd⟩ := hs.watch hp
    exact ⟨n, hn, hdir.2 ⟨d, hd⟩⟩
  · exact hs.unique
  · intro t p q n m hp hq hn hm heq
    obtain ⟨l, d, hl, hd, h, hentry⟩ := childOf_iff.1 hp
    obtain ⟨l', d', hl', hd', k, hentry'⟩ := childOf_iff.1 hq
    rw [hl] at hl'
    cases hl'
    rw [hd] at hd'
    cases hd'
    have hkey := hs.names hl hd hentry hentry' hn hm heq
    rw [hkey, hentry'] at hentry
    exact (Option.some.inj hentry).symm

/-- **After a safe run** the tree is well-formed, every lookup and every path ends without a dead
pointer, and the destructor frees everything. -/
theorem wellFormed_run (path : Str) (mtpid : Handle) (ops : List StorageOp)
    (hsafe : SafeRun (MtpStorage.new path mtpid) ops) :
    ∃ s, (MtpStorage.new path mtpid).run ops = some s ∧ WellFormed s ∧
      (∀ handle, ∃ r, s.findNode handle = some r) ∧
      (∀ p n, s.heap.cells p = some n → ∃ path, s.getNodePath p = some path) ∧
      ∃ heap, s.destruct = some heap ∧ ∀ p, heap.cells p = none := by
  obtain ⟨s, hrun, hs⟩ := run_inv (new_inv path mtpid) hsafe
  refine ⟨s, hrun, hs.wellFormed, ?_, fun p n hp => hs.getNodePath hp, hs.destruct⟩
  intro handle
  obtain ⟨r, hr, -⟩ := hs.findNode handle
  exact ⟨r, hr⟩

/-- A storage with a folder `a` and a file `b` is opened. -/
def openFolder : StorageOp :=
  .createDB true (some [⟨ascii "a", some 0o040755⟩, ⟨ascii "b", some 0o100644⟩]) (some 1)

/-- A file `c` is found in the folder. -/
def readFolder : StorageOp := .getObjectList 1 (some [⟨ascii "c", some 0o100644⟩]) (some 2)

/-- The file is deleted. -/
def folderVisit : List StorageOp := [openFolder, readFolder, .deleteFile 3]

theorem not_childOf_of_children {cells : Nat → Option Node} {p : Ptr}
    (h : (cells p).map Node.children = some []) (q : Ptr) : ¬ ChildOf Node.children cells p q := by
  rintro ⟨n, hn, hq⟩
  rw [hn] at h
  rw [Option.some.inj h] at hq
  cases hq

theorem safeRun_folderVisit : SafeRun (MtpStorage.new (ascii "/s") 0) folderVisit := by
  refine ⟨⟨by simp [MtpStorage.new], fun l hl => ?_⟩, fun s₁ hs₁ =>
    ⟨fun tree m d htree _ _ _ l hl => ?_, fun s₂ hs₂ => ⟨fun p hp => ?_, fun _ _ => trivial⟩⟩⟩
  · cases hl
    exact ⟨by decide, fun _ _ => not_false, by decide⟩
  · -- the folder has not been read
    have hlook : ((MtpStorage.new (ascii "/s") 0).step openFolder).map (fun s =>
        (s.mtpmap[(1 : Handle)]?, (s.heap.cells 2).map Node.children, s.mtpid)) =
          some (some 2, some [], 2) := by
      decide +kernel
    rw [hs₁] at hlook
    simp only [Option.map_some, Option.some.injEq, Prod.mk.injEq] at hlook
    obtain ⟨hmap, hchildren, hid⟩ := hlook
    cases hl
    rw [show MtpStorage.parentKey 1 = 1 from rfl, hmap] at htree
    cases htree
    refine ⟨by decide, ?_, by rw [hid]; decide⟩
    rintro x - ⟨q, n, hq, -⟩
    exact not_childOf_of_children hchildren q hq
  · -- a file, and only the root and the folder are watched
    have hlook : (((MtpStorage.new (ascii "/s") 0).step openFolder).bind fun s =>
        s.step readFolder).map (fun s =>
          (s.findNode 3, (s.heap.cells 4).map Node.children, s.inotifymap.toList)) =
          some (some (some 4), some [], [(1, 1), (2, 2)]) := by
      decide +kernel
    rw [hs₁, Option.bind_some, hs₂] at hlook
    simp only [Option.map_some, Option.some.injEq, Prod.mk.injEq] at hlook
    obtain ⟨hfind, hchildren, hwatches⟩ := hlook
    rw [hfind] at hp
    cases hp
    refine ⟨fun q n hq => absurd hq (not_childOf_of_children hchildren q), fun wd hwd => ?_⟩
    rw [← TreeMap.mem_toList_iff_getElem?_eq_some, hwatches] at hwd
    simp at hwd

theorem wellFormed_folderVisit :
    ∃ s, (MtpStorage.new (ascii "/s") 0).run folderVisit = some s ∧ WellFormed s ∧
      (∀ handle, ∃ r, s.findNode handle = some r) ∧
      (∀ p n, s.heap.cells p = some n → ∃ path, s.getNodePath p = some path) ∧
      ∃ heap, s.destruct = some heap ∧ ∀ p, heap.cells p = none :=
  wellFormed_run (ascii "/s") 0 folderVisit safeRun_folderVisit

/-- The root has a folder `a` with a folder `b`, and `a` is deleted. -/
def nestedDelete : List StorageOp :=
  [.createDB false (some [⟨ascii "a", some 0o040755⟩]) none,
    .getObjectList 1 (some [⟨ascii "b", some 0o040755⟩]) none, .deleteFile 1]

/-- The handle of `b` is left in `mtpmap`, and the next lookup reads its memory. -/
theorem nested_delete_dangles :
    ∃ s, (MtpStorage.new (ascii "/s") 0).run nestedDelete = some s ∧ ¬WellFormed s ∧
      s.findNode 3 = none := by
  have hrun : ((MtpStorage.new (ascii "/s") 0).run nestedDelete).isSome = true := by
    decide +kernel
  obtain ⟨s, hs⟩ := Option.isSome_iff_exists.1 hrun
  have hmap : ((MtpStorage.new (ascii "/s") 0).run nestedDelete).map
      (fun s => (s.mtpmap[2]?, (s.heap.cells 3).isSome, (s.findNode 3).isSome)) =
        some (some 3, false, false) := by
    decide +kernel
  rw [hs] at hmap
  simp only [Option.map_some, Option.some.injEq, Prod.mk.injEq] at hmap
  obtain ⟨hentry, hdead, hfind⟩ := hmap
  refine ⟨s, hs, ?_, by simpa using hfind⟩
  intro hwf
  obtain ⟨n, hn, -⟩ := hwf.maps hentry
  rw [hn] at hdead
  cases hdead

end Recovery.Mtp
