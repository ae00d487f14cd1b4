import Mathlib.Algebra.Order.Ring.Int
import Recovery.Mtp.Btree

/-!
# The handles of an MTP storage

`MtpStorage.cpp`: the objects of a storage, which `mtpmap` finds by handle and `inotifymap` by watch.

* `findNode`, `getNodePath` — lookups.
* `addNewNode`, `readDir`, `createDB`, `getObjectList` — how nodes come into being.
* `beginSendObject`, `endSendObject`, `renameObject`, `deleteFile` — requests.
* `handleInotifyEvent` — what the file system reports.

What the system calls return is an argument. `none` is undefined behaviour, or a loop without an end.
Both maps iterate in the order of their keys, as unsigned numbers.

A handle is the next value of a counter of 32 bits, so no two objects of a storage have the same
one until it wraps.
-/

set_option autoImplicit false

namespace Recovery.Mtp

open Std Recovery.Lib

def kInvalidObjectHandle : Handle := 0xFFFFFFFF

def MTP_PARENT_ROOT : Handle := 0xFFFFFFFF

def MTP_FORMAT_ASSOCIATION : Nat := 0x3001

structure MtpStorage where
  /-- `mFilePath`, which `mtpstorageparent` is a copy of. -/
  path : Str
  heap : Memory
  mtpmap : TreeMap Handle Ptr
  inotifymap : TreeMap Int Ptr
  /-- `inotify_fd` is valid. -/
  inotify : Bool
  handleCurrentlySending : Handle
  /-- The counter of `addNewNode`, which all storages share. -/
  mtpid : Handle

/-- The constructor. -/
def MtpStorage.new (path : Str) (mtpid : Handle) : MtpStorage where
  path := path
  heap := Heap.empty
  mtpmap := ∅
  inotifymap := ∅
  inotify := false
  handleCurrentlySending := 0
  mtpid := mtpid

namespace MtpStorage

/-- The loop over `mtpmap`. -/
def searchTrees (heap : Memory) (handle : Handle) : List (Handle × Ptr) → Option (Option Ptr)
  | [] => some none
  | (_, t) :: trees =>
    (heap.tree t).bind fun (_, d) =>
      match d.entries[handle]? with
      | some p => some (some p)
      | none => searchTrees heap handle trees

variable (s : MtpStorage)

def findNode (handle : Handle) : Option (Option Ptr) :=
  (searchTrees s.heap handle s.mtpmap.toList).bind fun
    | none => some none
    | some p => (s.heap.cells p).map fun _ => some p

def nodePathLoop : Nat → Ptr → Str → Option Str
  | 0, _, _ => none
  | fuel + 1, p, path =>
    (s.heap.cells p).bind fun n =>
      let path := ascii "/" ++ n.name ++ path
      if n.parent = 0 then some path
      else
        (s.findNode n.parent).bind fun
          | none => some path
          | some p => nodePathLoop fuel p path

/-- With as much fuel as there have been nodes. -/
def getNodePath (p : Ptr) : Option Str :=
  (s.nodePathLoop s.heap.next p []).map fun path => s.path ++ path

/-- The new node, too. -/
def addNewNode (isDir : Bool) (tree : Ptr) (name : Str) : Option (Ptr × MtpStorage) :=
  let mtpid := (s.mtpid + 1) % 2 ^ 32
  (s.heap.cells tree).bind fun t =>
    let p := s.heap.next
    let node : Node :=
      ⟨mtpid, t.handle, name, if isDir then some ⟨∅, false⟩ else none⟩
    let mtpmap := if isDir then s.mtpmap.insert mtpid p else s.mtpmap
    (Memory.addEntry (s.heap.alloc node) tree p).map fun heap =>
      (p, { s with heap := heap, mtpmap := mtpmap, mtpid := mtpid })

/-- With `wd`, what `inotify_add_watch` returns. -/
def addInotify (tree : Ptr) (wd : Option Int) : Option MtpStorage :=
  if !s.inotify then some s
  else
    (s.getNodePath tree).map fun _ =>
      match wd with
      | none => s
      | some wd => { s with inotifymap := s.inotifymap.insert wd tree }

def S_IFDIR : Nat := 0o040000

/-- What `readdir` returns, with what `lstat` says about it. -/
structure Dirent where
  name : Str
  st_mode : Option Nat

def readEntries (tree : Ptr) : List Dirent → MtpStorage → Option (Bool × MtpStorage)
  | [], s => some (true, s)
  | de :: listing, s =>
    match de.st_mode with
    | none => some (false, s)
    | some mode =>
      if de.name = ascii "." then readEntries tree listing s
      else if de.name = ascii ".." then readEntries tree listing s
      else
        -- devices and sockets have this bit, too
        (s.addNewNode (mode &&& S_IFDIR ≠ 0) tree de.name).bind fun (_, s) =>
          readEntries tree listing s

def setAlreadyRead (tree : Ptr) : Option MtpStorage :=
  (s.heap.tree tree).map fun _ =>
    { s with heap := s.heap.modify tree (Node.mapDir fun d => { d with alreadyRead := true }) }

/-- With the contents of the directory, when it opens. -/
def readDir (tree : Ptr) (listing : Option (List Dirent)) (wd : Option Int) : Option MtpStorage :=
  match listing with
  | none => some s
  | some listing =>
    (readEntries tree listing s).bind fun (ok, s) =>
      if !ok then some s else (s.setAlreadyRead tree).bind fun s => s.addInotify tree wd

def createDB (inotify : Bool) (listing : Option (List Dirent)) (wd : Option Int) :
    Option MtpStorage :=
  let root := s.heap.next
  let s := { s with
    heap := s.heap.alloc ⟨0, 0, [], some ⟨∅, false⟩⟩
    mtpmap := s.mtpmap.insert 0 root
    inotify := inotify }
  s.readDir root listing wd

/-- The root has another name in requests. -/
def parentKey (parent : Handle) : Handle := if parent = MTP_PARENT_ROOT then 0 else parent

def getObjectList (parent : Handle) (listing : Option (List Dirent)) (wd : Option Int) :
    Option (List Handle × MtpStorage) :=
  match s.mtpmap[parentKey parent]? with
  | none => some ([], s)
  | some tree =>
    (s.heap.tree tree).bind fun (_, d) =>
      (if d.alreadyRead then some s
        else (s.getNodePath tree).bind fun _ => s.readDir tree listing wd).bind fun s =>
        s.mtpmap[parentKey parent]?.bind fun tree =>
          (Memory.getmtpids s.heap tree).map fun list => (list, s)

/-- What is before the last slash, and behind it. -/
def splitPath (path : Str) : Option (Str × Str) :=
  if 47 ∈ path then
    let basename := (path.reverse.takeWhile (· ≠ 47)).reverse
    some (path.take (path.length - basename.length - 1), basename)
  else none

def beginSendObject (path : Str) (format : Nat) (parent : Handle) : Option (Handle × MtpStorage) :=
  match s.mtpmap[parent]? with
  | none => some (kInvalidObjectHandle, s)
  | some tree =>
    match splitPath path with
    | none => some (kInvalidObjectHandle, s)
    | some (parentdir, basename) =>
      (if parent = 0 then some true
        else (s.getNodePath tree).map fun treepath => parentdir = treepath).bind fun
        | false => some (kInvalidObjectHandle, s)
        | true =>
          (s.addNewNode (format = MTP_FORMAT_ASSOCIATION) tree basename).bind fun (p, s) =>
            (s.heap.cells p).map fun n => (n.handle, { s with handleCurrentlySending := n.handle })

def endSendObject (handle : Handle) : Option MtpStorage :=
  (s.findNode handle).map fun
    | none => s
    | some _ => { s with handleCurrentlySending := 0 }

/-- With what `rename` returns; whether it succeeds. -/
def renameObject (handle : Handle) (newName : Str) (renamed : Bool) : Option (Bool × MtpStorage) :=
  if handle = MTP_PARENT_ROOT then some (false, s)
  else
    (searchTrees s.heap handle s.mtpmap.toList).bind fun
      | none => some (false, s)
      | some p =>
        (s.getNodePath p).map fun _ =>
          if renamed then (true, { s with heap := s.heap.modify p fun n => { n with name := newName } })
          else (false, s)

def getObjectFilePath (handle : Handle) : Option (Option (Str × Bool)) :=
  (s.findNode handle).bind fun
    | none => some none
    | some p =>
      (s.heap.cells p).bind fun n => (s.getNodePath p).map fun path => some (path, n.isDir)

/-- Whether it succeeds. -/
def deleteFile (handle : Handle) : Option (Bool × MtpStorage) :=
  (s.findNode handle).bind fun
    | none => some (false, s)
    | some p =>
      (s.heap.cells p).bind fun n =>
        match s.mtpmap[n.parent]? with
        -- `mtpmap[parent]` makes an entry
        | none => some (false, { s with mtpmap := s.mtpmap.insert n.parent 0 })
        | some tree =>
          if tree = 0 then some (false, s)
          else
            let mtpmap := if n.isDir then s.mtpmap.erase handle else s.mtpmap
            (Memory.deleteNode s.heap tree handle).map fun heap =>
              (true, { s with heap := heap, mtpmap := mtpmap })

/-- `struct inotify_event`, with the bits of its mask that are looked at. -/
structure InotifyEvent where
  wd : Int
  name : Str
  /-- `IN_CREATE` or `IN_MOVED_TO`. -/
  created : Bool
  /-- `IN_DELETE` or `IN_MOVED_FROM`. -/
  deleted : Bool
  /-- `IN_MODIFY`. -/
  modified : Bool
  /-- `IN_ISDIR`. -/
  isDir : Bool

/-- The watch of a directory is removed. -/
def removeWatch (p : Ptr) : Option MtpStorage :=
  match s.inotifymap.toList.find? fun watch => watch.2 = p with
  | none => some s
  | some (wd, tree) =>
    (s.getNodePath tree).map fun _ => { s with inotifymap := s.inotifymap.erase wd }

/-- An event for a name that has no node. -/
def newEntryEvent (event : InotifyEvent) (tree : Ptr) : Option MtpStorage :=
  if event.created then
    (s.addNewNode event.isDir tree event.name).bind fun (_, s) => (s.getNodePath tree).map fun _ => s
  else some s

/-- An event for a node. -/
def nodeEvent (event : InotifyEvent) (p : Ptr) (handle : Handle) : Option MtpStorage :=
  if event.created then some s
  else if event.deleted then
    (if event.isDir then s.removeWatch p else some s).bind fun s =>
      (s.deleteFile handle).map Prod.snd
  else if event.modified then (s.getNodePath p).map fun _ => s
  else some s

def handleInotifyEvent (event : InotifyEvent) : Option MtpStorage :=
  match s.inotifymap[event.wd]? with
  | none => some s
  | some tree =>
    (Memory.findEntryByName s.heap tree event.name).bind fun
      | none => s.newEntryEvent event tree
      | some p =>
        (s.heap.cells p).bind fun n =>
          if n.handle = s.handleCurrentlySending then some s else s.nodeEvent event p n.handle

/-- The destructor: all watches are removed, and the root is deleted. -/
def destruct : Option Memory :=
  match s.mtpmap[0]? with
  | none => some s.heap
  | some root => Memory.delete s.heap root

end MtpStorage

end Recovery.Mtp
