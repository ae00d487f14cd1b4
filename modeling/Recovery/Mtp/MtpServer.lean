import Recovery.Mtp.MtpStorage
import Recovery.Lib.Files

/-!
# Uploads and deletions over MTP

`MtpServer.cpp`, with the parts of `mtp_MtpDatabase.cpp` and `MtpUtils.cpp` behind it.

* `getObjectFilePath`, `beginSendObject`, `endSendObject`, `beginDeleteObject` — the database, over
  all storages.
* `doSendObjectInfo`, `doSendObject`, `doDeleteObject` — the requests.
* `handleRequest` — what is done for each request.
* `step` — a request, or an event of the file system.

The contents of packets come parsed. `none` is undefined behaviour, as in the storages.

A pending upload is a few variables of the server.  They survive a failed request, and with them
the path that a later request may write to or delete.
-/

set_option autoImplicit false

namespace Recovery.Mtp

open Recovery.Lib

/-- `MtpResponseCode`. -/
inductive Response where
  | ok
  | generalError
  | invalidParameter
  | invalidStorageID
  | invalidObjectHandle
  | invalidParentObject
  | storageFull
  | objectTooLarge
  | noValidObjectInfo
  | partialDeletion
  | transactionCancelled
deriving DecidableEq

/-- The fields of an ObjectInfo dataset that are used. -/
structure Dataset where
  format : Nat
  size : Nat
  name : Str
  /-- What `parseDateTime` makes of it, or 0. -/
  modified : Nat

/-- The rest of what a SendObjectInfo depends on. -/
structure Space where
  free : Nat
  maxFileSize : Nat
  /-- `mkdir` does not fail for another reason than an existing entry. -/
  mkdir : Bool

/-- How the data of a SendObject is received, after the first packet. -/
inductive Reception where
  | complete (content : Str)
  /-- Also when the data of the first packet cannot be written. -/
  | failed (canceled : Bool)

structure Transfer where
  /-- The bytes of the first packet, or less than 0. -/
  first : Int
  /-- `open` does not fail for another reason than a directory. -/
  opens : Bool
  reception : Reception

inductive Request where
  /-- With the file's size, if a dataset that ends early has one. -/
  | sendObjectInfo (params : List Nat) (data : Except (Option Nat) Dataset) (space : Space)
  | sendObject (transfer : Transfer)
  | deleteObject (params : List Nat)
  /-- GetObjectHandles and GetNumObjects, which read directories on demand. -/
  | getObjectList (storageID : Nat) (parent : Handle) (listing : Option (List MtpStorage.Dirent))
    (wd : Option Int)
  /-- One that changes neither objects nor files. -/
  | other (response : Response)

def Request.isSendObject : Request → Bool
  | .sendObject _ => true
  | _ => false

structure MtpServer where
  mStorages : List Nat
  /-- In the order of the ids. -/
  storagemap : List (Nat × MtpStorage)
  files : Files
  mSendObjectHandle : Handle
  mSendObjectFormat : Nat
  mSendObjectFilePath : Str
  mSendObjectFileSize : Nat
  mSendObjectModifiedTime : Nat

/-- The constructor, with the storages that were added. -/
def MtpServer.new (storagemap : List (Nat × MtpStorage)) (files : Files) : MtpServer where
  mStorages := storagemap.map Prod.fst
  storagemap := storagemap
  files := files
  mSendObjectHandle := kInvalidObjectHandle
  mSendObjectFormat := 0
  mSendObjectFilePath := []
  mSendObjectFileSize := 0
  mSendObjectModifiedTime := 0

namespace MtpServer

/-! ## The database -/

/-- With whether it is a folder. -/
def searchStorages (handle : Handle) : List (Nat × MtpStorage) → Option (Option (Str × Bool))
  | [] => some none
  | (_, storage) :: storages =>
    (storage.getObjectFilePath handle).bind fun
      | some found => some (some found)
      | none => searchStorages handle storages

/-- The counter of handles is the same for all storages. -/
def putStorage (id : Nat) (storage : MtpStorage) (storages : List (Nat × MtpStorage)) :
    List (Nat × MtpStorage) :=
  storages.map fun (i, other) =>
    (i, if i = id then storage else { other with mtpid := storage.mtpid })

def deleteFiles (handle : Handle) : List (Nat × MtpStorage) →
    Option (Bool × List (Nat × MtpStorage))
  | [] => some (false, [])
  | (id, storage) :: storages =>
    (storage.deleteFile handle).bind fun (deleted, storage) =>
      if deleted then some (true, (id, storage) :: storages)
      else (deleteFiles handle storages).map fun (deleted, storages) =>
        (deleted, (id, storage) :: storages)

def endSendObjects (handle : Handle) : List (Nat × MtpStorage) → Option (List (Nat × MtpStorage))
  | [] => some []
  | (id, storage) :: storages =>
    (storage.endSendObject handle).bind fun storage =>
      (endSendObjects handle storages).map fun storages => (id, storage) :: storages

variable (s : MtpServer)

def getObjectFilePath (handle : Handle) : Option (Option (Str × Bool)) :=
  searchStorages handle s.storagemap

def beginSendObject (path : Str) (format : Nat) (parent : Handle) (storageID : Nat) :
    Option (Handle × MtpServer) :=
  match s.storagemap.lookup storageID with
  | none => some (kInvalidObjectHandle, s)
  | some storage =>
    (storage.beginSendObject path format parent).map fun (handle, storage) =>
      (handle, { s with storagemap := putStorage storageID storage s.storagemap })

def endSendObject (path : Str) (handle : Handle) (succeeded : Bool) : Option MtpServer :=
  (endSendObjects handle s.storagemap).map fun storagemap =>
    { s with
      files := if succeeded then s.files else s.files.unlink (resolve path)
      storagemap := storagemap }

def beginDeleteObject (handle : Handle) : Option (Bool × MtpServer) :=
  (deleteFiles handle s.storagemap).map fun (deleted, storagemap) =>
    (deleted, { s with storagemap := storagemap })

/-! ## Requests -/

/-- `getStorage`; without storages, there is no first one. -/
def getStorage (id : Nat) : Option (Option Nat) :=
  if id = 0 then s.mStorages.head?.map some else some (s.mStorages.find? fun i => i = id)

/-- The folder that an object is sent to. -/
def sendObjectParent (storageID : Nat) (parent : Handle) : Option (Except Response (Str × Handle)) :=
  (s.getStorage storageID).bind fun
    | none => some (.error .invalidStorageID)
    | some id =>
      if parent = MTP_PARENT_ROOT then
        (s.storagemap.lookup id).map fun storage => .ok (storage.path, 0)
      else
        (s.getObjectFilePath parent).map fun
          | none => .error .invalidObjectHandle
          | some (path, isDir) =>
            if isDir then .ok (path, parent) else .error .invalidParentObject

/-- The path of the object. -/
def appendName (path name : Str) : Option Str :=
  path.getLast?.map fun last => (if last = 47 then path else path ++ [47]) ++ name

/-- `makeFolder`. -/
def makeFolder (path : Str) (mkdir : Bool) : Bool × MtpServer :=
  ((s.files.mkdir (resolve path) mkdir).1,
    { s with files := (s.files.mkdir (resolve path) mkdir).2 })

/-- A SendObjectInfo whose object can be stored. -/
def acceptObject (path : Str) (storageID : Nat) (parent : Handle) (data : Dataset) (mkdir : Bool) :
    Option (Response × MtpServer) :=
  (s.beginSendObject path data.format parent storageID).bind fun (handle, s) =>
    if handle = kInvalidObjectHandle then some (.generalError, s)
    else
      let accepted (s : MtpServer) : Response × MtpServer :=
        (.ok, { s with
          mSendObjectFilePath := path
          mSendObjectHandle := handle
          mSendObjectFormat := data.format
          mSendObjectModifiedTime := data.modified })
      if data.format = MTP_FORMAT_ASSOCIATION then
        match s.makeFolder path mkdir with
        | (false, s) => some (.generalError, s)
        | (true, s) => (s.endSendObject path handle true).map accepted
      else some (accepted s)

def doSendObjectInfo (params : List Nat) (data : Except (Option Nat) Dataset) (space : Space) :
    Option (Response × MtpServer) :=
  match params with
  | storageID :: parent :: _ =>
    (s.sendObjectParent storageID parent).bind fun
      | .error response => some (response, s)
      | .ok (path, parent) =>
        match data with
        | .error none => some (.invalidParameter, s)
        | .error (some size) => some (.invalidParameter, { s with mSendObjectFileSize := size })
        | .ok data =>
          let s := { s with mSendObjectFileSize := data.size }
          if data.name = [] then some (.invalidParameter, s)
          else
            (appendName path data.name).bind fun path =>
              if data.size > space.free then some (.storageFull, s)
              else if space.maxFileSize ≠ 0 ∧
                  (data.size > space.maxFileSize ∨ data.size = 0xFFFFFFFF) then
                some (.objectTooLarge, s)
              else s.acceptObject path storageID parent data space.mkdir
  | _ => some (.invalidParameter, s)

/-- No object is being sent any more. -/
def resetSend : MtpServer :=
  { s with
    mSendObjectHandle := kInvalidObjectHandle
    mSendObjectFormat := 0
    mSendObjectModifiedTime := 0 }

/-- `done:` of `doSendObject`. -/
def sendDone (response : Response) : Option (Response × MtpServer) :=
  (s.endSendObject s.mSendObjectFilePath s.mSendObjectHandle (response = .ok)).map fun s =>
    (response, s.resetSend)

def MTP_CONTAINER_HEADER_SIZE : Nat := 12

/-- The file is open and empty. -/
def receiveObject (reception : Reception) : Option (Response × MtpServer) :=
  let q := resolve s.mSendObjectFilePath
  match reception with
  | .complete content => { s with files := s.files.store q content }.sendDone .ok
  | .failed canceled =>
    { s with files := (s.files.store q []).unlink q }.sendDone
      (if canceled then .transactionCancelled else .generalError)

def doSendObject (transfer : Transfer) : Option (Response × MtpServer) :=
  if s.mStorages = [] then some (.generalError, s)
  else if s.mSendObjectHandle = kInvalidObjectHandle then s.sendDone .noValidObjectInfo
  else if transfer.first < MTP_CONTAINER_HEADER_SIZE then s.sendDone .generalError
  else if s.mSendObjectFormat = MTP_FORMAT_ASSOCIATION then some (.ok, s.resetSend)
  else if transfer.opens ∧ s.files.entries (resolve s.mSendObjectFilePath) ≠ some .dir then
    s.receiveObject transfer.reception
  else s.sendDone .generalError

/-- `deletePath`; what is there can be deleted. -/
def deletePath (path : Str) : Bool × MtpServer :=
  if s.files.entries (resolve path) = none then (false, s)
  else (true, { s with files := s.files.removeTree (resolve path) })

def doDeleteObject (params : List Nat) : Option (Response × MtpServer) :=
  if s.mStorages = [] then some (.invalidObjectHandle, s)
  else
    match params with
    | [] => some (.invalidParameter, s)
    | handle :: _ =>
      (s.getObjectFilePath handle).bind fun
        | none => some (.invalidObjectHandle, s)
        | some (path, _) =>
          (s.beginDeleteObject handle).map fun
            | (false, s) => (.invalidObjectHandle, s)
            | (true, s) =>
              match s.deletePath path with
              | (true, s) => (.ok, s)
              | (false, s) => (.partialDeletion, s)

/-- A directory that is read on demand. -/
def getObjectList (storageID : Nat) (parent : Handle) (listing : Option (List MtpStorage.Dirent))
    (wd : Option Int) : Option (Response × MtpServer) :=
  (s.storagemap.lookup storageID).bind fun storage =>
    (storage.getObjectList parent listing wd).map fun (_, storage) =>
      (.ok, { s with storagemap := putStorage storageID storage s.storagemap })

def dispatch : Request → Option (Response × MtpServer)
  | .sendObjectInfo params data space => s.doSendObjectInfo params data space
  | .sendObject transfer => s.doSendObject transfer
  | .deleteObject params => s.doDeleteObject params
  | .getObjectList storageID parent listing wd => s.getObjectList storageID parent listing wd
  | .other response => some (response, s)

/-- `command`: the packet is a command. Without a result, nothing was done and nothing is answered;
a cancelled transaction is not answered either. -/
def handleRequest (command : Bool) (request : Request) : Option (Option Response × MtpServer) :=
  let s := if s.mSendObjectHandle ≠ kInvalidObjectHandle ∧ !request.isSendObject then s.resetSend
    else s
  if command then (s.dispatch request).map fun (response, s) => (some response, s)
  else some (none, s)

/-! ## Steps -/

inductive Action where
  | request (command : Bool) (request : Request)
  | inotify (storageID : Nat) (event : MtpStorage.InotifyEvent)

def step : Action → Option (Option Response × MtpServer)
  | .request command request => s.handleRequest command request
  | .inotify storageID event =>
    (s.storagemap.lookup storageID).bind fun storage =>
      (storage.handleInotifyEvent event).map fun storage =>
        (none, { s with storagemap := putStorage storageID storage s.storagemap })

end MtpServer

end Recovery.Mtp
