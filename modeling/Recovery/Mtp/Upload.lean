import Mathlib.Data.List.Induction
import Recovery.Mtp.MtpServer

/-!
# What an upload leaves behind

* `Step`, `Runs` — the steps of a server, with its state before and after.
* `Step.Loses`, `Step.Names` — a file that a step removes or overwrites, and one that it names.
* `Step.Fails`, `Step.Clean` — an upload that fails, and what it must leave.
* `Step.Whole` — no SendObject without its SendObjectInfo, and no failure that leaves an object.
* `doSendObjectInfo_spec`, `doSendObject_cases`, `doDeleteObject_cases` — what requests can do.
* `Runs.announced`, `Runs.kept` — what comes before a SendObject, and what stays after it.
* `uploads_safe` — runs whose steps are whole; `second_sendObject_unlinks` — one that is not.
-/

set_option autoImplicit false

namespace Recovery.Mtp

open Recovery.Lib MtpServer

structure Step where
  before : MtpServer
  action : Action
  response : Option Response
  after : MtpServer

/-- The steps from one state to another. -/
inductive Runs : MtpServer → List Step → MtpServer → Prop
  | nil (s : MtpServer) : Runs s [] s
  | cons {s s' t : MtpServer} {action : Action} {response : Option Response} {steps : List Step}
    (hstep : s.step action = some (response, s')) (h : Runs s' steps t) :
    Runs s (⟨s, action, response, s'⟩ :: steps) t

theorem Runs.split {s t : MtpServer} {xs ys : List Step} (h : Runs s (xs ++ ys) t) :
    ∃ u, Runs s xs u ∧ Runs u ys t := by
  induction xs generalizing s with
  | nil => exact ⟨s, .nil s, h⟩
  | cons x xs ih =>
    cases h with
    | cons hstep h =>
      obtain ⟨u, hxs, hys⟩ := ih h
      exact ⟨u, .cons hstep hxs, hys⟩

/-! ## Requests -/

/-- An object with this handle is found. -/
def MtpServer.Finds (s : MtpServer) (handle : Handle) : Prop :=
  ∃ id storage p, (id, storage) ∈ s.storagemap ∧ storage.findNode handle = some (some p)

/-- What a SendObjectInfo is asked to store. -/
def MtpServer.Asks (s : MtpServer) (params : List Nat) (data : Except (Option Nat) Dataset)
    (storageID : Nat) (parent : Handle) (d : Dataset) (path : Str) : Prop :=
  ∃ p rest folder, params = storageID :: p :: rest ∧
    s.sendObjectParent storageID p = some (.ok (folder, parent)) ∧ data = .ok d ∧
      appendName folder d.name = some path

theorem doSendObjectInfo_cases {s s' : MtpServer} {params : List Nat}
    {data : Except (Option Nat) Dataset} {space : Space} {response : Response}
    (h : s.doSendObjectInfo params data space = some (response, s')) :
    (∃ size, s' = { s with mSendObjectFileSize := size }) ∨
      ∃ storageID parent d path, s.Asks params data storageID parent d path ∧
        MtpServer.acceptObject { s with mSendObjectFileSize := d.size } path storageID parent d
          space.mkdir = some (response, s') := by
  have hsame {r : Response} (h : some (r, s) = some (response, s')) :
      ∃ size, s' = { s with mSendObjectFileSize := size } := by
    cases h
    exact ⟨s.mSendObjectFileSize, rfl⟩
  unfold doSendObjectInfo at h
  split at h
  · rename_i storageID p rest
    obtain ⟨target, htarget, h⟩ := Option.bind_eq_some_iff.1 h
    cases target with
    | error r => exact .inl (hsame h)
    | ok target =>
      obtain ⟨folder, parent⟩ := target
      cases data with
      | error size =>
        cases size with
        | none => exact .inl (hsame h)
        | some size =>
          cases h
          exact .inl ⟨size, rfl⟩
      | ok d =>
        have hsize {r : Response}
            (h : some (r, { s with mSendObjectFileSize := d.size }) = some (response, s')) :
            ∃ size, s' = { s with mSendObjectFileSize := size } := by
          cases h
          exact ⟨d.size, rfl⟩
        dsimp only at h
        split at h
        · exact .inl (hsize h)
        · obtain ⟨path, hpath, h⟩ := Option.bind_eq_some_iff.1 h
          split at h
          · exact .inl (hsize h)
          · split at h
            · exact .inl (hsize h)
            · refine .inr ⟨storageID, parent, d, path, ?_, h⟩
              exact ⟨p, rest, folder, rfl, htarget, rfl, hpath⟩
  · exact .inl (hsame h)

/-! ## What is claimed of a step -/

/-- An object with this path is not added: it has no parent here, or it is not in its folder. -/
def MtpStorage.Refuses (s : MtpStorage) (path : Str) (parent : Handle) : Prop :=
  match s.mtpmap[parent]?, MtpStorage.splitPath path with
  | some tree, some (parentdir, _) => parent ≠ 0 ∧ s.getNodePath tree ≠ some parentdir
  | _, _ => True

namespace MtpServer

variable (s : MtpServer)

/-- A SendObjectInfo has been answered, and its SendObject is to come. -/
def Pending : Prop := s.mSendObjectHandle ≠ kInvalidObjectHandle

/-- Where the object goes, or has gone. -/
def target : Path := resolve s.mSendObjectFilePath

/-- A SendObject opens its file. -/
def Opens (transfer : Transfer) : Prop :=
  s.mStorages ≠ [] ∧ s.Pending ∧ ¬ transfer.first < MTP_CONTAINER_HEADER_SIZE ∧
    s.mSendObjectFormat ≠ MTP_FORMAT_ASSOCIATION ∧ transfer.opens ∧
    s.files.entries s.target ≠ some .dir

/-- A SendObject succeeds. -/
def Receives (transfer : Transfer) : Prop :=
  s.mStorages ≠ [] ∧ s.Pending ∧ ¬ transfer.first < MTP_CONTAINER_HEADER_SIZE ∧
    (s.mSendObjectFormat = MTP_FORMAT_ASSOCIATION ∨
      s.Opens transfer ∧ ∃ content, transfer.reception = .complete content)

/-- The upload was announced, and succeeds unless its object is gone. -/
def SendWhole (transfer : Transfer) : Prop :=
  (¬ s.Pending → s.files.isFile s.target = false) ∧
    (s.Pending → s.Receives transfer ∨ ¬ s.Finds s.mSendObjectHandle ∧
      (s.Opens transfer ∨ s.files.isFile s.target = false))

/-- The storage refuses it, or it gives it a handle, and a folder can be made.  This is asked also of
a request that is turned down before, for its empty name, its size or want of space, and that leaves
nothing behind in any case. -/
def InfoWhole (params : List Nat) (data : Except (Option Nat) Dataset) (space : Space) : Prop :=
  ∀ storageID parent d path storage, s.Asks params data storageID parent d path →
    s.storagemap.lookup storageID = some storage →
    storage.Refuses path parent ∨ (storage.mtpid + 1) % 2 ^ 32 ≠ kInvalidObjectHandle ∧
      (d.format = MTP_FORMAT_ASSOCIATION → (s.files.mkdir (resolve path) space.mkdir).1 = true)

/-- There are no files in what is deleted, not even one that no storage has an object for. -/
def DeleteWhole (params : List Nat) : Prop :=
  ∀ handle path isDir, params.head? = some handle →
    s.getObjectFilePath handle = some (some (path, isDir)) →
    ∀ q, resolve path <+: q → q ≠ resolve path → s.files.isFile q = false

end MtpServer

namespace Step

variable (x : Step)

/-- A file that is removed or overwritten. -/
def Loses (q : Path) : Prop :=
  ∃ content, x.before.files.entries q = some (.file content) ∧
    x.after.files.entries q ≠ some (.file content)

/-- By the path of the upload that it finishes, or by the handle of an object that is there. -/
def Names (q : Path) : Prop :=
  match x.action with
  | .request true (.sendObject _) => x.before.Pending ∧ x.before.target = q
  | .request true (.deleteObject params) =>
    ∃ handle path isDir, params.head? = some handle ∧
      x.before.getObjectFilePath handle = some (some (path, isDir)) ∧ resolve path = q
  | _ => False

/-- One of both requests of an upload fails. -/
def Fails : Prop :=
  (∃ response, x.response = some response ∧ response ≠ .ok) ∧
    ((∃ transfer, x.action = .request true (.sendObject transfer)) ∨
      ∃ params data space, x.action = .request true (.sendObjectInfo params data space))

/-- No file is gone but the partial one, and no object has come or stays. -/
def Clean : Prop :=
  (∀ q, x.Loses q → x.before.target = q ∧
    ∃ transfer, x.action = .request true (.sendObject transfer) ∧ x.before.Opens transfer) ∧
  (∀ handle, x.after.Finds handle → x.before.Finds handle) ∧
  ∀ transfer, x.action = .request true (.sendObject transfer) → x.before.Pending →
    ¬ x.after.Finds x.before.mSendObjectHandle

/-- The requests that are whole. -/
def Whole : Prop :=
  match x.action with
  | .request true (.sendObject transfer) => x.before.SendWhole transfer
  | .request true (.sendObjectInfo params data space) => x.before.InfoWhole params data space
  | .request true (.deleteObject params) => x.before.DeleteWhole params
  | _ => True

/-- A SendObjectInfo with this path is answered. -/
def Announces (path : Str) : Prop :=
  ∃ params data space storageID parent d,
    x.action = .request true (.sendObjectInfo params data space) ∧ x.response = some .ok ∧
      x.before.Asks params data storageID parent d path

end Step

/-! ## The storages -/

/-- What is found stays the same. -/
theorem endSendObjects_finds {handle h : Handle} {storages storages' : List (Nat × MtpStorage)}
    (hend : endSendObjects handle storages = some storages') :
    (∃ id storage p, (id, storage) ∈ storages' ∧ storage.findNode h = some (some p)) ↔
      ∃ id storage p, (id, storage) ∈ storages ∧ storage.findNode h = some (some p) := by
  induction storages generalizing storages' with
  | nil =>
    cases hend
    rfl
  | cons first storages ih =>
    obtain ⟨id, storage⟩ := first
    rw [endSendObjects] at hend
    obtain ⟨storage', hstorage, hend⟩ := Option.bind_eq_some_iff.1 hend
    obtain ⟨storages'', hrest, rfl⟩ := Option.map_eq_some_iff.1 hend
    have hsame : storage'.findNode h = storage.findNode h := by
      rw [MtpStorage.endSendObject] at hstorage
      obtain ⟨r, -, rfl⟩ := Option.map_eq_some_iff.1 hstorage
      cases r <;> rfl
    have hiff := ih hrest
    constructor
    · rintro ⟨id', found, p, hmem, hfind⟩
      rcases List.mem_cons.1 hmem with heq | hmem
      · cases heq
        exact ⟨id, storage, p, List.mem_cons_self, hsame.symm.trans hfind⟩
      · obtain ⟨id', found, p, hmem, hfind⟩ := hiff.1 ⟨id', found, p, hmem, hfind⟩
        exact ⟨id', found, p, List.mem_cons_of_mem _ hmem, hfind⟩
    · rintro ⟨id', found, p, hmem, hfind⟩
      rcases List.mem_cons.1 hmem with heq | hmem
      · cases heq
        exact ⟨id, storage', p, List.mem_cons_self, hsame.trans hfind⟩
      · obtain ⟨id', found, p, hmem, hfind⟩ := hiff.2 ⟨id', found, p, hmem, hfind⟩
        exact ⟨id', found, p, List.mem_cons_of_mem _ hmem, hfind⟩

/-! ## SendObject -/

namespace MtpServer

variable {s s' : MtpServer}

theorem not_pending_resetSend (s : MtpServer) : ¬ s.resetSend.Pending := fun h => h rfl

theorem sendDone_spec {response r : Response} (h : s.sendDone response = some (r, s')) :
    r = response ∧ s'.files = (if response = .ok then s.files else s.files.unlink s.target) ∧
      (∀ handle, s'.Finds handle ↔ s.Finds handle) ∧ ¬ s'.Pending := by
  obtain ⟨ended, hend, heq⟩ := Option.map_eq_some_iff.1 h
  obtain ⟨storagemap, hstorages, rfl⟩ := Option.map_eq_some_iff.1 hend
  cases heq
  refine ⟨rfl, ?_, fun handle => endSendObjects_finds hstorages, not_pending_resetSend _⟩
  by_cases hok : response = .ok
  · rw [if_pos hok]
    simp only [resetSend, hok, decide_true, if_true]
  · rw [if_neg hok]
    simp only [resetSend, hok, decide_false, Bool.false_eq_true, if_false]
    rfl

/-- What is stored or removed is the file of the upload. -/
theorem receiveObject_spec {reception : Reception} {r : Response}
    (h : s.receiveObject reception = some (r, s')) :
    (∀ q, q ≠ s.target → s'.files.entries q = s.files.entries q) ∧
      ((∃ content, reception = .complete content) → r = .ok) ∧
      (∀ handle, s'.Finds handle ↔ s.Finds handle) ∧ ¬ s'.Pending := by
  cases reception with
  | complete content =>
    obtain ⟨rfl, hfiles, hfinds, hpending⟩ := sendDone_spec h
    refine ⟨fun q hq => ?_, fun _ => rfl, hfinds, hpending⟩
    rw [hfiles, if_pos rfl]
    exact Files.store_ne hq
  | failed canceled =>
    obtain ⟨-, hfiles, hfinds, hpending⟩ := sendDone_spec h
    refine ⟨fun q hq => ?_, nofun, hfinds, hpending⟩
    have hnot : (if canceled then Response.transactionCancelled else .generalError) ≠ .ok := by
      split <;> nofun
    rw [hfiles, if_neg hnot]
    exact (Files.unlink_ne hq).trans ((Files.unlink_ne hq).trans (Files.store_ne hq))

/-- What a SendObject does. -/
structure Sent (s : MtpServer) (transfer : Transfer) (r : Response) (s' : MtpServer) : Prop where
  elsewhere : ∀ q, q ≠ s.target → s'.files.entries q = s.files.entries q
  finds : ∀ handle, s'.Finds handle ↔ s.Finds handle
  ok : s.Receives transfer → r = .ok
  unopened : ¬ s.Opens transfer → s'.files = s.files ∨ s'.files = s.files.unlink s.target
  ended : s.mStorages ≠ [] → ¬ s'.Pending

theorem Sent.of_sendDone {transfer : Transfer} {response r : Response}
    (hreceives : ¬ s.Receives transfer) (h : s.sendDone response = some (r, s')) :
    s.Sent transfer r s' := by
  obtain ⟨-, hfiles, hfinds, hpending⟩ := sendDone_spec h
  have hcases : s'.files = s.files ∨ s'.files = s.files.unlink s.target := by
    split at hfiles
    · exact .inl hfiles
    · exact .inr hfiles
  refine ⟨fun q hq => ?_, hfinds, fun hyes => absurd hyes hreceives, fun _ => hcases,
    fun _ => hpending⟩
  rcases hcases with hfiles | hfiles
  · rw [hfiles]
  · rw [hfiles]
    exact Files.unlink_ne hq

theorem doSendObject_cases {transfer : Transfer} {r : Response}
    (h : s.doSendObject transfer = some (r, s')) : s.Sent transfer r s' := by
  rw [doSendObject] at h
  split at h
  · rename_i hempty
    cases h
    exact ⟨fun _ _ => rfl, fun _ => Iff.rfl, fun hyes => absurd hempty hyes.1, fun _ => .inl rfl,
      fun hne => absurd hempty hne⟩
  · rename_i hstorages
    split at h
    · rename_i hnone
      exact .of_sendDone (fun hyes => hyes.2.1 hnone) h
    · rename_i hpending
      split at h
      · rename_i hshort
        exact .of_sendDone (fun hyes => hyes.2.2.1 hshort) h
      · rename_i hheader
        split at h
        · cases h
          exact ⟨fun _ _ => rfl, fun _ => Iff.rfl, fun _ => rfl, fun _ => .inl rfl,
            fun _ => not_pending_resetSend s⟩
        · rename_i hformat
          split at h
          · rename_i hopen
            have hopens : s.Opens transfer := ⟨hstorages, hpending, hheader, hformat, hopen⟩
            obtain ⟨helse, hok, hfinds, hended⟩ := receiveObject_spec h
            refine ⟨helse, hfinds, fun hyes => ?_, fun hnot => absurd hopens hnot,
              fun _ => hended⟩
            rcases hyes.2.2.2 with hassoc | ⟨-, hcomplete⟩
            · exact absurd hassoc hformat
            · exact hok hcomplete
          · rename_i hclosed
            refine .of_sendDone (fun hyes => ?_) h
            rcases hyes.2.2.2 with hassoc | ⟨hopens, -⟩
            · exact hformat hassoc
            · exact hclosed hopens.2.2.2.2

end MtpServer

/-! ## SendObjectInfo -/

theorem Memory.addEntry_handle {heap heap' : Memory} {tree node : Ptr}
    (h : heap.addEntry tree node = some heap') (q : Ptr) :
    (heap'.cells q).map Node.handle = (heap.cells q).map Node.handle := by
  unfold Memory.addEntry at h
  obtain ⟨n, -, h⟩ := Option.bind_eq_some_iff.1 h
  split at h
  · cases h
    rfl
  · split at h
    · cases h
      rfl
    · obtain ⟨-, -, rfl⟩ := Option.map_eq_some_iff.1 h
      rw [Heap.cells_modify]
      split
      · rw [Option.map_map]
        rfl
      · rfl

namespace MtpStorage

theorem addNewNode_handle {s s' : MtpStorage} {isDir : Bool} {tree p : Ptr} {name : Str}
    (h : s.addNewNode isDir tree name = some (p, s')) :
    (s'.heap.cells p).map Node.handle = some ((s.mtpid + 1) % 2 ^ 32) := by
  unfold addNewNode at h
  obtain ⟨t, -, h⟩ := Option.bind_eq_some_iff.1 h
  obtain ⟨heap, hadd, heq⟩ := Option.map_eq_some_iff.1 h
  cases heq
  rw [Memory.addEntry_handle hadd, Heap.cells_alloc, if_pos rfl]
  rfl

theorem Refuses.beginSendObject {s s' : MtpStorage} {path : Str} {format : Nat}
    {parent handle : Handle} (h : s.Refuses path parent)
    (hbegin : s.beginSendObject path format parent = some (handle, s')) :
    handle = kInvalidObjectHandle ∧ s' = s := by
  unfold MtpStorage.beginSendObject at hbegin
  split at hbegin
  · cases hbegin
    exact ⟨rfl, rfl⟩
  · rename_i tree htree
    split at hbegin
    · cases hbegin
      exact ⟨rfl, rfl⟩
    · rename_i parentdir basename hsplit
      rw [Refuses, htree, hsplit] at h
      obtain ⟨hparent, hpath⟩ := h
      rw [if_neg hparent] at hbegin
      obtain ⟨same, hsame, hbegin⟩ := Option.bind_eq_some_iff.1 hbegin
      obtain ⟨treepath, htreepath, rfl⟩ := Option.map_eq_some_iff.1 hsame
      have hne : parentdir ≠ treepath := by
        rintro rfl
        exact hpath htreepath
      simp only [hne, decide_false] at hbegin
      cases hbegin
      exact ⟨rfl, rfl⟩

/-- Without a handle, nothing was added. -/
theorem beginSendObject_invalid {s s' : MtpStorage} {path : Str} {format : Nat} {parent : Handle}
    (h : s.beginSendObject path format parent = some (kInvalidObjectHandle, s'))
    (hcounter : (s.mtpid + 1) % 2 ^ 32 ≠ kInvalidObjectHandle) : s' = s := by
  unfold beginSendObject at h
  split at h
  · cases h
    rfl
  · split at h
    · cases h
      rfl
    · obtain ⟨same, -, h⟩ := Option.bind_eq_some_iff.1 h
      cases same with
      | false =>
        cases h
        rfl
      | true =>
        obtain ⟨⟨p, s₁⟩, hadd, h⟩ := Option.bind_eq_some_iff.1 h
        obtain ⟨n, hn, heq⟩ := Option.map_eq_some_iff.1 h
        have hhandle := addNewNode_handle hadd
        rw [hn, Option.map_some, Option.some.injEq] at hhandle
        exact absurd (hhandle.symm.trans (Prod.mk.inj heq).1) hcounter

end MtpStorage

namespace MtpServer

variable {s s' : MtpServer}

/-- A storage that is put back. -/
theorem putStorage_finds {id : Nat} {storage : MtpStorage} {handle : Handle}
    (hlookup : s.storagemap.lookup id = some storage)
    (h : Finds { s with storagemap := putStorage id storage s.storagemap } handle) :
    s.Finds handle := by
  obtain ⟨i, found, p, hmem, hfind⟩ := h
  obtain ⟨⟨_, other⟩, hother, heq⟩ := List.mem_map.1 hmem
  cases heq
  split at hfind
  · obtain ⟨before, after, heq, -⟩ := List.lookup_eq_some_iff.1 hlookup
    refine ⟨id, storage, p, ?_, hfind⟩
    rw [heq]
    exact List.mem_append_right _ List.mem_cons_self
  · exact ⟨_, other, p, hother, hfind⟩

/-- What `beginSendObject` leaves of the server. -/
theorem beginSendObject_spec {path : Str} {format storageID : Nat} {parent handle : Handle}
    (h : s.beginSendObject path format parent storageID = some (handle, s')) :
    s'.files = s.files ∧ s'.mStorages = s.mStorages ∧
      s'.mSendObjectHandle = s.mSendObjectHandle ∧
      (handle = kInvalidObjectHandle → (∀ storage, s.storagemap.lookup storageID = some storage →
        storage.Refuses path parent ∨ (storage.mtpid + 1) % 2 ^ 32 ≠ kInvalidObjectHandle) →
        ∀ h, s'.Finds h → s.Finds h) ∧
      (handle ≠ kInvalidObjectHandle → ∃ storage storage',
        s.storagemap.lookup storageID = some storage ∧
          storage.beginSendObject path format parent = some (handle, storage')) := by
  unfold beginSendObject at h
  cases hlookup : s.storagemap.lookup storageID with
  | none =>
    rw [hlookup] at h
    cases h
    exact ⟨rfl, rfl, rfl, fun _ _ _ => id, fun hne => absurd rfl hne⟩
  | some storage =>
    rw [hlookup] at h
    obtain ⟨⟨given, storage'⟩, hbegin, heq⟩ := Option.map_eq_some_iff.1 h
    cases heq
    refine ⟨rfl, rfl, rfl, fun hinvalid hwhole h' hfinds => ?_, fun _ => ?_⟩
    swap
    · exact ⟨storage, storage', rfl, hbegin⟩
    have hsame : storage' = storage := by
      rcases hwhole storage rfl with hrefused | hcounter
      · exact (hrefused.beginSendObject hbegin).2
      · rw [hinvalid] at hbegin
        exact MtpStorage.beginSendObject_invalid hbegin hcounter
    rw [hsame] at hfinds
    exact putStorage_finds hlookup hfinds

/-- What a SendObjectInfo does. -/
structure Announced (s : MtpServer) (path : Str) (whole : Prop) (r : Response) (s' : MtpServer) :
    Prop where
  files : ∀ q, s.files.isFile q = true → s'.files.entries q = s.files.entries q
  storages : s'.mStorages = s.mStorages
  pending : s'.Pending → s.Pending ∨ r = .ok ∧ s'.mSendObjectFilePath = path
  finds : whole → r ≠ .ok → ∀ handle, s'.Finds handle → s.Finds handle

theorem acceptObject_spec {path : Str} {storageID : Nat} {parent : Handle} {d : Dataset}
    {mkdir : Bool} {r : Response}
    (h : s.acceptObject path storageID parent d mkdir = some (r, s')) :
    s.Announced path (∀ storage, s.storagemap.lookup storageID = some storage →
      storage.Refuses path parent ∨ (storage.mtpid + 1) % 2 ^ 32 ≠ kInvalidObjectHandle ∧
        (d.format = MTP_FORMAT_ASSOCIATION → (s.files.mkdir (resolve path) mkdir).1 = true))
      r s' := by
  unfold acceptObject at h
  obtain ⟨⟨handle, s₁⟩, hbegin, h⟩ := Option.bind_eq_some_iff.1 h
  obtain ⟨hfiles, hstorages, hhandle, hfinds, hgiven⟩ := beginSendObject_spec hbegin
  dsimp only at h
  by_cases hinvalid : handle = kInvalidObjectHandle
  · rw [if_pos hinvalid] at h
    cases h
    refine ⟨fun q _ => by rw [hfiles], hstorages, fun hp => .inl ?_, fun hwhole _ => ?_⟩
    · rwa [Pending, hhandle] at hp
    · exact hfinds hinvalid fun storage hlookup => (hwhole storage hlookup).imp_right And.left
  · rw [if_neg hinvalid] at h
    by_cases hformat : d.format = MTP_FORMAT_ASSOCIATION
    · rw [if_pos hformat, makeFolder] at h
      have hkept : ∀ q, s.files.isFile q = true →
          (s₁.files.mkdir (resolve path) mkdir).2.entries q = s.files.entries q := by
        intro q hq
        rw [hfiles]
        exact Files.mkdir_file hq
      cases hmade : (s₁.files.mkdir (resolve path) mkdir).1 with
      | false =>
        rw [hmade] at h
        cases h
        refine ⟨hkept, hstorages, fun hp => .inl ?_, fun hwhole _ => ?_⟩
        · rwa [Pending, hhandle] at hp
        · obtain ⟨storage, storage', hlookup, hadded⟩ := hgiven hinvalid
          rcases hwhole storage hlookup with hrefused | ⟨-, hmakes⟩
          · exact absurd (hrefused.beginSendObject hadded).1 hinvalid
          · rw [hfiles, hmakes hformat] at hmade
            cases hmade
      | true =>
        rw [hmade] at h
        obtain ⟨s₂, hend, heq⟩ := Option.map_eq_some_iff.1 h
        obtain ⟨storagemap, -, rfl⟩ := Option.map_eq_some_iff.1 hend
        cases heq
        exact ⟨hkept, hstorages, fun _ => .inr ⟨rfl, rfl⟩, fun _ hne => absurd rfl hne⟩
    · rw [if_neg hformat] at h
      cases h
      exact ⟨fun q _ => by rw [← hfiles], hstorages, fun _ => .inr ⟨rfl, rfl⟩,
        fun _ hne => absurd rfl hne⟩

theorem storages_of_asks {params : List Nat} {data : Except (Option Nat) Dataset}
    {storageID : Nat} {parent : Handle} {d : Dataset} {path : Str}
    (h : s.Asks params data storageID parent d path) : s.mStorages ≠ [] := by
  obtain ⟨p, rest, folder, -, hparent, -⟩ := h
  intro hempty
  rw [sendObjectParent, getStorage, hempty] at hparent
  split at hparent
  · cases hparent
  · cases hparent

theorem doSendObjectInfo_spec {params : List Nat} {data : Except (Option Nat) Dataset}
    {space : Space} {r : Response} (hidle : ¬ s.Pending)
    (h : s.doSendObjectInfo params data space = some (r, s')) :
    (∀ q, s.files.isFile q = true → s'.files.entries q = s.files.entries q) ∧
      (s'.Pending → s'.mStorages ≠ [] ∧ r = .ok ∧
        ∃ storageID parent d, s.Asks params data storageID parent d s'.mSendObjectFilePath) ∧
      (s.InfoWhole params data space → r ≠ .ok → ∀ handle, s'.Finds handle → s.Finds handle) := by
  rcases doSendObjectInfo_cases h with ⟨size, rfl⟩ | ⟨storageID, parent, d, path, hasks, haccept⟩
  · exact ⟨fun _ _ => rfl, fun hp => absurd hp hidle, fun _ _ _ => id⟩
  · have hspec := acceptObject_spec haccept
    refine ⟨hspec.files, fun hp => ?_, fun hwhole hne => ?_⟩
    · rcases hspec.pending hp with hp' | ⟨hok, hpath⟩
      · exact absurd hp' hidle
      · refine ⟨?_, hok, storageID, parent, d, by rw [hpath]; exact hasks⟩
        rw [hspec.storages]
        exact storages_of_asks hasks
    · exact hspec.finds (fun storage hlookup => hwhole _ _ _ _ _ hasks hlookup) hne

/-! ## Other requests -/

theorem doDeleteObject_cases {params : List Nat} {r : Response}
    (h : s.doDeleteObject params = some (r, s')) :
    s'.mSendObjectHandle = s.mSendObjectHandle ∧ (s'.files = s.files ∨
      ∃ handle path isDir, params.head? = some handle ∧
        s.getObjectFilePath handle = some (some (path, isDir)) ∧
          s'.files = s.files.removeTree (resolve path)) := by
  unfold doDeleteObject at h
  split at h
  · cases h
    exact ⟨rfl, .inl rfl⟩
  · cases params with
    | nil =>
      cases h
      exact ⟨rfl, .inl rfl⟩
    | cons handle rest =>
      obtain ⟨found, hfound, h⟩ := Option.bind_eq_some_iff.1 h
      cases found with
      | none =>
        cases h
        exact ⟨rfl, .inl rfl⟩
      | some found =>
        obtain ⟨path, isDir⟩ := found
        obtain ⟨⟨deleted, s₁⟩, hdelete, heq⟩ := Option.map_eq_some_iff.1 h
        obtain ⟨⟨deleted', storagemap⟩, -, heq'⟩ := Option.map_eq_some_iff.1 hdelete
        cases heq'
        cases deleted with
        | false =>
          cases heq
          exact ⟨rfl, .inl rfl⟩
        | true =>
          dsimp only at heq
          rw [deletePath] at heq
          split at heq
          · rename_i hdone
            split at hdone
            · cases hdone
            · cases hdone
              cases heq
              exact ⟨rfl, .inr ⟨handle, path, isDir, rfl, hfound, rfl⟩⟩
          · rename_i hdone
            split at hdone
            · cases hdone
              cases heq
              exact ⟨rfl, .inl rfl⟩
            · cases hdone

theorem getObjectList_spec {storageID : Nat} {parent : Handle}
    {listing : Option (List MtpStorage.Dirent)} {wd : Option Int} {r : Response}
    (h : s.getObjectList storageID parent listing wd = some (r, s')) :
    s'.files = s.files ∧ s'.mSendObjectHandle = s.mSendObjectHandle := by
  obtain ⟨storage, -, h⟩ := Option.bind_eq_some_iff.1 h
  obtain ⟨⟨handles, storage'⟩, -, heq⟩ := Option.map_eq_some_iff.1 h
  cases heq
  exact ⟨rfl, rfl⟩

theorem handleRequest_sendObject {transfer : Transfer} :
    s.handleRequest true (.sendObject transfer) =
      (s.doSendObject transfer).map fun (response, s) => (some response, s) := by
  unfold handleRequest
  have hkept : ¬ (s.mSendObjectHandle ≠ kInvalidObjectHandle ∧
      (!(Request.sendObject transfer).isSendObject) = true) := fun hreset => nomatch hreset.2
  simp only [if_neg hkept, if_true]
  rfl

/-- Requests other than SendObject give up an upload. -/
theorem handleRequest_other {request : Request} (h : request.isSendObject = false) :
    ∃ s₁, (s₁ = s ∨ s₁ = s.resetSend) ∧ ¬ s₁.Pending ∧
      s.handleRequest true request =
        (s₁.dispatch request).map fun (response, s) => (some response, s) := by
  unfold handleRequest
  by_cases hpending : s.Pending
  · refine ⟨s.resetSend, .inr rfl, not_pending_resetSend s, ?_⟩
    have hreset : s.mSendObjectHandle ≠ kInvalidObjectHandle ∧ (!request.isSendObject) = true :=
      ⟨hpending, by rw [h]; rfl⟩
    simp only [if_pos hreset, if_true]
  · refine ⟨s, .inl rfl, hpending, ?_⟩
    have hkept : ¬ (s.mSendObjectHandle ≠ kInvalidObjectHandle ∧ (!request.isSendObject) = true) :=
      fun hreset => hpending hreset.1
    simp only [if_neg hkept, if_true]

end MtpServer

/-! ## Steps -/

namespace Step

variable {x : Step} {q : Path}

/-- What happens for everything but uploads and deletions. -/
structure Quiet (x : Step) : Prop where
  files : x.after.files = x.before.files
  pending : x.after.Pending → x.response = none ∧ x.before.Pending ∧
    x.after.mSendObjectFilePath = x.before.mSendObjectFilePath ∧
      x.after.mStorages = x.before.mStorages
  sendObject : ∀ transfer, x.action ≠ .request true (.sendObject transfer)
  sendObjectInfo : ∀ params data space, x.action ≠ .request true (.sendObjectInfo params data space)

/-- What a request other than SendObject starts from. -/
def Resets (x : Step) (s : MtpServer) : Prop :=
  (s = x.before ∨ s = x.before.resetSend) ∧ ¬ s.Pending

theorem cases_of_step (h : x.before.step x.action = some (x.response, x.after)) :
    (∃ transfer r, x.action = .request true (.sendObject transfer) ∧ x.response = some r ∧
      x.before.doSendObject transfer = some (r, x.after)) ∨
    (∃ params data space r s, x.action = .request true (.sendObjectInfo params data space) ∧
      x.response = some r ∧ x.Resets s ∧
        s.doSendObjectInfo params data space = some (r, x.after)) ∨
    (∃ params r s, x.action = .request true (.deleteObject params) ∧ x.Resets s ∧
      s.doDeleteObject params = some (r, x.after)) ∨ x.Quiet := by
  obtain ⟨s, action, response, s'⟩ := x
  dsimp only at h ⊢
  cases action with
  | inotify storageID event =>
    obtain ⟨storage, -, h⟩ := Option.bind_eq_some_iff.1 h
    obtain ⟨storage', -, heq⟩ := Option.map_eq_some_iff.1 h
    cases heq
    exact .inr (.inr (.inr ⟨rfl, fun hp => ⟨rfl, hp, rfl, rfl⟩, nofun, nofun⟩))
  | request command request =>
    cases command with
    | false =>
      refine .inr (.inr (.inr ?_))
      rw [step, handleRequest] at h
      by_cases hreset : s.mSendObjectHandle ≠ kInvalidObjectHandle ∧ (!request.isSendObject) = true
      · simp only [if_pos hreset, Bool.false_eq_true, if_false] at h
        cases h
        exact ⟨rfl, fun hp => absurd hp (not_pending_resetSend s), nofun, nofun⟩
      · simp only [if_neg hreset, Bool.false_eq_true, if_false] at h
        cases h
        exact ⟨rfl, fun hp => ⟨rfl, hp, rfl, rfl⟩, nofun, nofun⟩
    | true =>
      cases hsend : request.isSendObject with
      | true =>
        cases request with
        | sendObject transfer =>
          rw [step, handleRequest_sendObject] at h
          obtain ⟨⟨r, s₁⟩, hdone, heq⟩ := Option.map_eq_some_iff.1 h
          cases heq
          exact .inl ⟨transfer, r, rfl, rfl, hdone⟩
        | sendObjectInfo => cases hsend
        | deleteObject => cases hsend
        | getObjectList => cases hsend
        | other => cases hsend
      | false =>
        obtain ⟨s₀, hs₀, hidle, heq⟩ := handleRequest_other (s := s) hsend
        rw [step, heq] at h
        obtain ⟨⟨r, s₁⟩, hdone, heq⟩ := Option.map_eq_some_iff.1 h
        cases heq
        cases request with
        | sendObject => cases hsend
        | sendObjectInfo params data space =>
          exact .inr (.inl ⟨params, data, space, r, s₀, rfl, rfl, ⟨hs₀, hidle⟩, hdone⟩)
        | deleteObject params =>
          exact .inr (.inr (.inl ⟨params, r, s₀, rfl, ⟨hs₀, hidle⟩, hdone⟩))
        | getObjectList storageID parent listing wd =>
          obtain ⟨hfiles, hhandle⟩ := getObjectList_spec hdone
          refine .inr (.inr (.inr ⟨?_, fun hp => absurd ?_ hidle, nofun, nofun⟩))
          · rcases hs₀ with rfl | rfl <;> exact hfiles
          · rwa [Pending, ← hhandle]
        | other response =>
          cases hdone
          refine .inr (.inr (.inr ⟨?_, fun hp => absurd hp hidle, nofun, nofun⟩))
          rcases hs₀ with rfl | rfl <;> rfl

theorem Loses.isFile (h : x.Loses q) : x.before.files.isFile q = true := by
  obtain ⟨content, hbefore, -⟩ := h
  rw [Files.isFile, hbefore]

theorem Loses.changed (h : x.Loses q) : x.after.files.entries q ≠ x.before.files.entries q := by
  obtain ⟨content, hbefore, hafter⟩ := h
  rwa [hbefore]

theorem Resets.files {s : MtpServer} (h : x.Resets s) : s.files = x.before.files := by
  rcases h.1 with rfl | rfl <;> rfl

theorem Resets.asks {s : MtpServer} (h : x.Resets s) {params : List Nat}
    {data : Except (Option Nat) Dataset} {storageID : Nat} {parent : Handle} {d : Dataset}
    {path : Str} : s.Asks params data storageID parent d path ↔
      x.before.Asks params data storageID parent d path := by
  rcases h.1 with rfl | rfl <;> exact Iff.rfl

theorem Resets.finds {s : MtpServer} (h : x.Resets s) {handle : Handle} :
    s.Finds handle ↔ x.before.Finds handle := by
  rcases h.1 with rfl | rfl <;> exact Iff.rfl

/-- A SendObjectInfo puts no file aside. -/
theorem not_loses_sendObjectInfo {params : List Nat} {data : Except (Option Nat) Dataset}
    {space : Space} {r : Response} {s : MtpServer} (hs : x.Resets s)
    (hdone : s.doSendObjectInfo params data space = some (r, x.after)) : ¬ x.Loses q := by
  intro hloses
  obtain ⟨hfiles, -, -⟩ := doSendObjectInfo_spec hs.2 hdone
  rw [hs.files] at hfiles
  exact hloses.changed (hfiles q hloses.isFile)

theorem names_of_loses (h : x.before.step x.action = some (x.response, x.after))
    (hwhole : x.Whole) (hloses : x.Loses q) : x.Names q := by
  rcases cases_of_step h with ⟨transfer, r, haction, -, hdone⟩ |
    ⟨params, data, space, r, s, -, -, hs, hdone⟩ | ⟨params, r, s, haction, hs, hdone⟩ | hquiet
  · rw [Whole, haction] at hwhole
    rw [Names, haction]
    have htarget : x.before.target = q := by
      by_contra hne
      exact hloses.changed ((doSendObject_cases hdone).elsewhere q (Ne.symm hne))
    refine ⟨?_, htarget⟩
    by_contra hidle
    have hnone := hwhole.1 hidle
    rw [htarget, hloses.isFile] at hnone
    cases hnone
  · exact absurd hloses (not_loses_sendObjectInfo hs hdone)
  · rw [Whole, haction] at hwhole
    rw [Names, haction]
    obtain ⟨-, hsame | ⟨handle, path, isDir, hhandle, hpath, hfiles⟩⟩ := doDeleteObject_cases hdone
    · exact absurd (by rw [hsame, hs.files]) hloses.changed
    · have hpath : x.before.getObjectFilePath handle = some (some (path, isDir)) := by
        rcases hs.1 with rfl | rfl <;> exact hpath
      refine ⟨handle, path, isDir, hhandle, hpath, ?_⟩
      by_contra hne
      by_cases hbelow : resolve path <+: q
      · have hnone := hwhole handle path isDir hhandle hpath q hbelow (Ne.symm hne)
        rw [hloses.isFile] at hnone
        cases hnone
      · refine hloses.changed ?_
        rw [hfiles, hs.files]
        exact Files.removeTree_ne hbelow
  · exact absurd (by rw [hquiet.files]) hloses.changed

theorem clean_of_fails (h : x.before.step x.action = some (x.response, x.after))
    (hwhole : x.Whole) (hfails : x.Fails) : x.Clean := by
  obtain ⟨⟨response, hresponse, hne⟩, hupload⟩ := hfails
  have hnames := fun q => names_of_loses (q := q) h hwhole
  rcases cases_of_step h with ⟨transfer, r, haction, hr, hdone⟩ |
    ⟨params, data, space, r, s, haction, hr, hs, hdone⟩ | ⟨params, r, s, haction, -, -⟩ | hquiet
  · rw [hr] at hresponse
    cases hresponse
    have hsent := doSendObject_cases hdone
    have hfailed : x.before.Pending → ¬ x.before.Finds x.before.mSendObjectHandle ∧
        (x.before.Opens transfer ∨ x.before.files.isFile x.before.target = false) := by
      intro hpending
      rw [Whole, haction] at hwhole
      rcases hwhole.2 hpending with hreceives | hgone
      · exact absurd (hsent.ok hreceives) hne
      · exact hgone
    refine ⟨fun q hloses => ?_, fun handle => (hsent.finds handle).1, fun _ _ hpending => ?_⟩
    · obtain ⟨hpending, htarget⟩ : x.before.Pending ∧ x.before.target = q := by
        have hq := hnames q hloses
        rwa [Names, haction] at hq
      refine ⟨htarget, transfer, haction, ?_⟩
      rcases (hfailed hpending).2 with hopens | hnone
      · exact hopens
      · rw [htarget, hloses.isFile] at hnone
        cases hnone
    · rw [hsent.finds]
      exact (hfailed hpending).1
  · rw [hr] at hresponse
    cases hresponse
    refine ⟨fun q hloses => absurd hloses (not_loses_sendObjectInfo hs hdone), fun handle => ?_,
      fun transfer hsend => ?_⟩
    · rw [Whole, haction] at hwhole
      rw [← hs.finds]
      refine (doSendObjectInfo_spec hs.2 hdone).2.2 ?_ hne handle
      rcases hs.1 with rfl | rfl <;> exact hwhole
    · rw [haction] at hsend
      cases hsend
  · rw [haction] at hupload
    rcases hupload with ⟨_, heq⟩ | ⟨_, _, _, heq⟩ <;> cases heq
  · rcases hupload with ⟨transfer, heq⟩ | ⟨params, data, space, heq⟩
    · exact absurd heq (hquiet.sendObject transfer)
    · exact absurd heq (hquiet.sendObjectInfo params data space)

/-- A SendObjectInfo is answered, or one is still pending without an answer in between. -/
theorem pending_after (h : x.before.step x.action = some (x.response, x.after))
    (hbefore : x.before.Pending → x.before.mStorages ≠ []) (hafter : x.after.Pending) :
    x.after.mStorages ≠ [] ∧ (x.Announces x.after.mSendObjectFilePath ∨
      x.response = none ∧ x.before.Pending ∧
        x.after.mSendObjectFilePath = x.before.mSendObjectFilePath) := by
  rcases cases_of_step h with ⟨transfer, r, -, -, hdone⟩ |
    ⟨params, data, space, r, s, haction, hr, hs, hdone⟩ | ⟨params, r, s, -, hs, hdone⟩ | hquiet
  · have hsent := doSendObject_cases hdone
    by_cases hempty : x.before.mStorages = []
    · rw [doSendObject, if_pos hempty] at hdone
      have hsame : x.before = x.after := (Prod.mk.inj (Option.some.inj hdone)).2
      rw [← hsame] at hafter
      exact absurd hempty (hbefore hafter)
    · exact absurd hafter (hsent.ended hempty)
  · obtain ⟨hstorages, rfl, storageID, parent, d, hasks⟩ :=
      (doSendObjectInfo_spec hs.2 hdone).2.1 hafter
    refine ⟨hstorages, .inl ⟨params, data, space, storageID, parent, d, haction, hr, ?_⟩⟩
    exact hs.asks.1 hasks
  · have hsame := (doDeleteObject_cases hdone).1
    rw [Pending, hsame] at hafter
    exact absurd hafter hs.2
  · obtain ⟨hnone, hpending, hpath, hstorages⟩ := hquiet.pending hafter
    exact ⟨hstorages ▸ hbefore hpending, .inr ⟨hnone, hpending, hpath⟩⟩

end Step

/-! ## Runs -/

section

variable {s t : MtpServer} {steps : List Step}

theorem Runs.taken (h : Runs s steps t) {x : Step} (hx : x ∈ steps) :
    x.before.step x.action = some (x.response, x.after) := by
  induction h with
  | nil => cases hx
  | cons hstep h ih =>
    rcases List.mem_cons.1 hx with rfl | hx
    · exact hstep
    · exact ih hx

theorem Runs.before {x : Step} (h : Runs s (x :: steps) t) : x.before = s := by
  cases h
  rfl

theorem Runs.tail {x : Step} (h : Runs s (x :: steps) t) : Runs x.after steps t := by
  cases h with
  | cons hstep h => exact h

/-- What leads to a SendObject. -/
theorem Runs.announced (h : Runs s steps t) (hidle : ¬ s.Pending) (hpending : t.Pending) :
    t.mStorages ≠ [] ∧ ∃ xs x zs, steps = xs ++ x :: zs ∧ x.Announces t.mSendObjectFilePath ∧
      ∀ z ∈ zs, z.response = none := by
  induction steps using List.reverseRecOn generalizing t with
  | nil =>
    cases h
    exact absurd hpending hidle
  | append_singleton steps x ih =>
    obtain ⟨u, hsteps, hlast⟩ := h.split
    cases hlast with
    | cons hstep hnil =>
      cases hnil
      rename_i action response
      obtain ⟨hstorages, hannounces | ⟨hnone, hbefore, hpath⟩⟩ :=
        Step.pending_after (x := ⟨u, action, response, t⟩) hstep (fun hu => (ih hsteps hu).1)
          hpending
      · exact ⟨hstorages, steps, _, [], rfl, hannounces, fun _ hz => absurd hz List.not_mem_nil⟩
      · obtain ⟨-, xs, x, zs, rfl, hannounces, hzs⟩ := ih hsteps hbefore
        dsimp only at hnone hpath
        refine ⟨hstorages, xs, x, zs ++ [⟨u, action, response, t⟩], List.append_assoc .., ?_,
          fun z hz => ?_⟩
        · rwa [hpath]
        · rcases List.mem_append.1 hz with hz | hz
          · exact hzs z hz
          · rw [List.mem_singleton.1 hz]
            exact hnone

/-- A file stays as long as it is not named. -/
theorem Runs.kept (h : Runs s steps t) (hwhole : ∀ x ∈ steps, x.Whole) {q : Path} {content : Str}
    (hnames : ∀ x ∈ steps, ¬ x.Names q) (hfile : s.files.entries q = some (.file content)) :
    t.files.entries q = some (.file content) := by
  induction h with
  | nil => exact hfile
  | cons hstep h ih =>
    refine ih (fun x hx => hwhole x (List.mem_cons_of_mem _ hx))
      (fun x hx => hnames x (List.mem_cons_of_mem _ hx)) ?_
    by_contra hlost
    exact hnames _ List.mem_cons_self
      (Step.names_of_loses hstep (hwhole _ List.mem_cons_self) ⟨content, hfile, hlost⟩)

end

/-- What an upload leaves when it succeeds. -/
theorem MtpServer.stored_of_ok {s s' : MtpServer} {transfer : Transfer} {content : Str}
    (hcomplete : transfer.reception = .complete content)
    (hformat : s.mSendObjectFormat ≠ MTP_FORMAT_ASSOCIATION)
    (h : s.doSendObject transfer = some (.ok, s')) :
    s'.files.entries s.target = some (.file content) := by
  rw [doSendObject] at h
  split at h
  · cases h
  · split at h
    · cases (sendDone_spec h).1
    · split at h
      · cases (sendDone_spec h).1
      · split at h
        · rw [hcomplete, receiveObject] at h
          obtain ⟨-, hfiles, -, -⟩ := sendDone_spec h
          rw [hfiles, if_pos rfl]
          exact if_pos rfl
        · cases (sendDone_spec h).1

/-- What is claimed of a step, with what was before it and what is after it. -/
structure SafeAt (xs : List Step) (x : Step) (zs : List Step) (t : MtpServer) : Prop where
  names : ∀ q, x.Loses q → x.Names q
  clean : x.Fails → x.Clean
  announced : x.before.Pending → ∃ ys y ws, xs = ys ++ y :: ws ∧
    y.Announces x.before.mSendObjectFilePath ∧ ∀ w ∈ ws, w.response = none
  kept : ∀ transfer content, x.action = .request true (.sendObject transfer) →
    x.response = some .ok → transfer.reception = .complete content →
    x.before.mSendObjectFormat ≠ MTP_FORMAT_ASSOCIATION →
    (∀ z ∈ zs, ¬ z.Names x.before.target) →
      t.files.entries x.before.target = some (.file content)

/-- **Uploads are safe** where every step is whole. -/
theorem uploads_safe {storagemap : List (Nat × MtpStorage)} {files : Files} {t : MtpServer}
    {xs zs : List Step} {x : Step} (h : Runs (.new storagemap files) (xs ++ x :: zs) t)
    (hwhole : ∀ y ∈ xs ++ x :: zs, y.Whole) : SafeAt xs x zs t := by
  obtain ⟨u, hxs, hzs⟩ := h.split
  have hx : x.before.step x.action = some (x.response, x.after) := hzs.taken List.mem_cons_self
  have hwholex := hwhole x (List.mem_append_right _ List.mem_cons_self)
  refine ⟨fun q => Step.names_of_loses hx hwholex, Step.clean_of_fails hx hwholex,
    fun hpending => ?_, fun transfer content haction hok hcomplete hformat hnames => ?_⟩
  · rw [hzs.before] at hpending ⊢
    exact (hxs.announced (fun hp => hp rfl) hpending).2
  · refine hzs.tail.kept (fun z hz => hwhole z ?_) hnames ?_
    · exact List.mem_append_right _ (List.mem_cons_of_mem _ hz)
    · rw [haction, hok, step, MtpServer.handleRequest_sendObject] at hx
      obtain ⟨⟨r, s'⟩, hdone, heq⟩ := Option.map_eq_some_iff.1 hx
      obtain ⟨hr, hs'⟩ := Prod.mk.inj heq
      cases hr
      rw [← hs']
      exact MtpServer.stored_of_ok hcomplete hformat hdone

/-- A storage whose directory is empty. -/
def emptyStorage : MtpStorage :=
  ((MtpStorage.new (ascii "/s") 0).createDB false (some []) none).getD
    (MtpStorage.new (ascii "/s") 0)

/-- The server of this storage, with no files. -/
def emptyServer : MtpServer := .new [(1, emptyStorage)] ⟨fun _ => none⟩

/-- `/s/a` is sent. -/
def sendInfo : Action :=
  .request true (.sendObjectInfo [1, MTP_PARENT_ROOT] (.ok ⟨0x3000, 1, ascii "a", 0⟩) ⟨1, 0, true⟩)

def sendData : Action := .request true (.sendObject ⟨12, true, .complete [7]⟩)

theorem infoWhole_emptyServer : emptyServer.InfoWhole [1, MTP_PARENT_ROOT]
    (.ok ⟨0x3000, 1, ascii "a", 0⟩) ⟨1, 0, true⟩ := by
  intro storageID parent d path storage hasks hlookup
  obtain ⟨p, rest, folder, hparams, -, hdata, -⟩ := hasks
  cases hparams
  cases hdata
  have hstorage : storage = emptyStorage := (Option.some.inj hlookup).symm
  refine .inr ⟨?_, fun hassoc => absurd hassoc (by decide)⟩
  rw [hstorage]
  decide +kernel

/-- The upload, and the same SendObject again. -/
theorem sendData_twice : ∃ s t u, emptyServer.step sendInfo = some (some .ok, s) ∧
    s.step sendData = some (some .ok, t) ∧ t.step sendData = some (some .noValidObjectInfo, u) ∧
    (s.mSendObjectHandle = 1 ∧ s.mSendObjectFormat = 0x3000 ∧ s.mStorages = [1] ∧
      s.target = [ascii "s", ascii "a"] ∧ s.files.entries [ascii "s", ascii "a"] = none) ∧
    t.mSendObjectHandle = kInvalidObjectHandle ∧
      t.files.entries [ascii "s", ascii "a"] = some (.file [7]) ∧
      u.files.entries [ascii "s", ascii "a"] = none := by
  have hrun : ((emptyServer.step sendInfo).bind fun p => (p.2.step sendData).bind fun p' =>
      (p'.2.step sendData).map fun p'' => ([p.1, p'.1, p''.1], p'.2.mSendObjectHandle,
        [p.2.files, p'.2.files, p''.2.files].map fun files =>
          files.entries [ascii "s", ascii "a"])) =
      some ([some .ok, some .ok, some .noValidObjectInfo], kInvalidObjectHandle,
        [none, some (.file [7]), none]) := by
    decide +kernel
  have hsent : (emptyServer.step sendInfo).map (fun p =>
      (p.2.mSendObjectHandle, p.2.mSendObjectFormat, p.2.mStorages)) = some (1, 0x3000, [1]) := by
    decide +kernel
  have htarget : (emptyServer.step sendInfo).map (fun p => p.2.target) =
      some [ascii "s", ascii "a"] := by
    decide +kernel
  obtain ⟨⟨r, s⟩, hs, hrun⟩ := Option.bind_eq_some_iff.1 hrun
  obtain ⟨⟨r', t⟩, ht, hrun⟩ := Option.bind_eq_some_iff.1 hrun
  obtain ⟨⟨r'', u⟩, hu, heq⟩ := Option.map_eq_some_iff.1 hrun
  rw [hs, Option.map_some, Option.some.injEq] at htarget hsent
  simp only [Prod.mk.injEq] at hsent
  obtain ⟨hhandle, hformat, hstorages⟩ := hsent
  simp only [List.map_cons, List.map_nil, Prod.mk.injEq, List.cons.injEq, and_true] at heq
  obtain ⟨⟨rfl, rfl, rfl⟩, hidle, hnone, hfile, hgone⟩ := heq
  exact ⟨s, t, u, hs, ht, hu, ⟨hhandle, hformat, hstorages, htarget, hnone⟩, hidle, hfile, hgone⟩

theorem uploads_safe_once :
    ∃ x y t, Runs emptyServer [x, y] t ∧ y.Names [ascii "s", ascii "a"] ∧ SafeAt [x] y [] t := by
  obtain ⟨s, t, u, hinfo, hdata, -, ⟨hhandle, hformat, hstorages, htarget, hnone⟩, -⟩ :=
    sendData_twice
  have hpending : s.Pending := by
    rw [Pending, hhandle]
    decide
  let x : Step := ⟨emptyServer, sendInfo, some .ok, s⟩
  let y : Step := ⟨s, sendData, some .ok, t⟩
  have hruns : Runs emptyServer [x, y] t := .cons hinfo (.cons hdata (.nil t))
  have hopens : s.Opens ⟨12, true, .complete [7]⟩ := by
    refine ⟨?_, hpending, by decide, ?_, rfl, ?_⟩
    · rw [hstorages]
      decide
    · rw [hformat]
      decide
    · rw [htarget, hnone]
      nofun
  have hreceives : s.Receives ⟨12, true, .complete [7]⟩ :=
    ⟨hopens.1, hpending, hopens.2.2.1, .inr ⟨hopens, [7], rfl⟩⟩
  have hwhole : ∀ z ∈ [x, y], z.Whole := by
    intro z hz
    rcases List.mem_cons.1 hz with rfl | hz
    · exact infoWhole_emptyServer
    · rw [List.mem_singleton.1 hz]
      exact ⟨fun hidle => absurd hpending hidle, fun _ => .inl hreceives⟩
  exact ⟨x, y, t, hruns, ⟨hpending, htarget⟩, uploads_safe hruns hwhole⟩

/-- Without its SendObjectInfo, a SendObject removes what the last one has stored. -/
theorem second_sendObject_unlinks :
    ∃ x y z t, Runs emptyServer [x, y, z] t ∧
      (∃ transfer, y.action = .request true (.sendObject transfer)) ∧ y.response = some .ok ∧
      y.before.target = [ascii "s", ascii "a"] ∧
      z.Loses [ascii "s", ascii "a"] ∧ ¬ z.Names [ascii "s", ascii "a"] := by
  obtain ⟨s, t, u, hinfo, hdata, hagain, ⟨-, -, -, htarget, -⟩, hidle, hfile, hgone⟩ :=
    sendData_twice
  refine ⟨_, _, _, u, .cons hinfo (.cons hdata (.cons hagain (.nil u))), ⟨_, rfl⟩, rfl, htarget,
    ⟨[7], hfile, ?_⟩, fun hnames => hnames.1 hidle⟩
  rw [hgone]
  nofun

end Recovery.Mtp
