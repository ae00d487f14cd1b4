import Std.Data.TreeMap.Lemmas
import Recovery.Lib.Heap
import Recovery.Lib.CString

/-!
# Directory entries

`btree.cpp` and `node.cpp`: the nodes of a storage, on a heap.

* `Node` — a directory entry, which for a directory is a `Tree`.
* `addEntry`, `findEntryByName`, `getmtpids`, `deleteNode` — the methods of `Tree`.

A pointer that points to nothing, or to no `Tree` where a method of `Tree` is called, is undefined
behaviour: `none`. The properties of nodes are left out.

The maps of the source are ordered by handle, and a loop over one meets the entries in that order.
-/

set_option autoImplicit false

namespace Recovery.Mtp

open Std Recovery.Lib

abbrev Str := List UInt8

/-- `MtpObjectHandle`, a `uint32_t`. -/
abbrev Handle := Nat

abbrev Ptr := Nat

/-- What a `Tree` has beyond a `Node`. -/
structure Dir where
  entries : TreeMap Handle Ptr
  alreadyRead : Bool

structure Node where
  handle : Handle
  parent : Handle
  name : Str
  dir : Option Dir

abbrev Memory := Heap Node

namespace Node

def isDir (n : Node) : Bool := n.dir.isSome

def mapDir (f : Dir → Dir) (n : Node) : Node := { n with dir := n.dir.map f }

/-- What the destructor of a `Tree` deletes. -/
def children (n : Node) : List Ptr :=
  match n.dir with
  | none => []
  | some d => d.entries.toList.map Prod.snd

end Node

namespace Memory

variable (heap : Memory)

/-- The `Tree` behind a pointer. -/
def tree (p : Ptr) : Option (Node × Dir) := (heap.cells p).bind fun n => n.dir.map fun d => (n, d)

/-- `Tree::addEntry`. -/
def addEntry (tree node : Ptr) : Option Memory :=
  (heap.cells node).bind fun n =>
    if n.handle = 0 then some heap
    else if n.handle = n.parent then some heap
    else (heap.tree tree).map fun _ =>
      heap.modify tree (Node.mapDir fun d => { d with entries := d.entries.insert n.handle node })

def findByName (name : Str) : List (Handle × Ptr) → Option (Option Ptr)
  | [] => some none
  | (_, p) :: entries =>
    (heap.cells p).bind fun n =>
      if n.name = name ∧ 0 < n.handle then some (some p) else findByName name entries

/-- `Tree::findEntryByName`. -/
def findEntryByName (tree : Ptr) (name : Str) : Option (Option Ptr) :=
  (heap.tree tree).bind fun (_, d) => heap.findByName name d.entries.toList

/-- `Tree::getmtpids`. -/
def getmtpids (tree : Ptr) : Option (List Handle) :=
  (heap.tree tree).bind fun (_, d) =>
    d.entries.toList.mapM fun e => (heap.cells e.2).map Node.handle

/-- `delete`, with more fuel than the objects on the heap need. -/
def delete (p : Ptr) : Option Memory := destroy Node.children heap.next heap p

/-- `Tree::deleteNode`. -/
def deleteNode (tree : Ptr) (handle : Handle) : Option Memory :=
  (heap.tree tree).bind fun (_, d) =>
    match d.entries[handle]? with
    | none => some heap
    | some p =>
      (Memory.delete heap p).bind fun heap =>
        (Memory.tree heap tree).map fun _ =>
          heap.modify tree (Node.mapDir fun d => { d with entries := d.entries.erase handle })

end Memory

end Recovery.Mtp
