import Recovery.Mtp.WellFormed

/-!
# What the operations of a storage preserve

* `Inv.added`, `Inv.deleted` — a new node, and a node that is deleted.
* `Named`, `SamePlace` — what later lookups depend on; `Inv.modify` — a change that leaves it alone.
* `Removable` — a node without directories below it; `Cut` — the tree after it is gone.

Every result about runs of a storage goes through these lemmas; none of them depends on the order
of the requests.
-/

set_option autoImplicit false

namespace Recovery.Mtp

open Std Recovery.Lib

namespace MtpStorage

variable (s : MtpStorage)

/-- The node that is added. -/
def newNode (isDir : Bool) (parent : Handle) (name : Str) : Node :=
  ⟨s.mtpid + 1, parent, name, if isDir then some ⟨∅, false⟩ else none⟩

/-- A storage with a new node in a directory. -/
def added (isDir : Bool) (tree : Ptr) (parent : Handle) (name : Str) : MtpStorage :=
  { s with
    heap := (s.heap.alloc (s.newNode isDir parent name)).modify tree (Node.mapDir fun d =>
      { d with entries := d.entries.insert (s.mtpid + 1) s.heap.next })
    mtpmap := if isDir then s.mtpmap.insert (s.mtpid + 1) s.heap.next else s.mtpmap
    mtpid := s.mtpid + 1 }

end MtpStorage

/-- The directory has an entry with this name. -/
def Named (s : MtpStorage) (tree : Ptr) (name : Str) : Prop :=
  ∃ q n, ChildOf Node.children s.heap.cells tree q ∧ s.heap.cells q = some n ∧ n.name = name

namespace Inv

variable {s : MtpStorage} (hs : Inv s)
include hs

theorem addNewNode {isDir : Bool} {tree : Ptr} {name : Str} {m : Node} {d : Dir}
    (hm : s.heap.cells tree = some m) (hd : m.dir = some d) (hfits : s.mtpid + 1 < 2 ^ 32) :
    s.addNewNode isDir tree name = some (s.heap.next, s.added isDir tree m.handle name) := by
  have hlt : tree < s.heap.next := Heap.lt_next hm
  have hcounter := hs.counter hm
  have htree : Memory.tree (s.heap.alloc (s.newNode isDir m.handle name)) tree = some (m, d) := by
    rw [tree_eq_some, Heap.cells_alloc, if_neg (Nat.ne_of_lt hlt)]
    exact ⟨hm, hd⟩
  unfold MtpStorage.addNewNode
  rw [hm, Option.bind_some, Nat.mod_eq_of_lt hfits]
  change (Memory.addEntry (s.heap.alloc (s.newNode isDir m.handle name)) tree s.heap.next).map _ = _
  unfold Memory.addEntry
  have hzero : (s.newNode isDir m.handle name).handle ≠ 0 := Nat.succ_ne_zero s.mtpid
  have hparent : (s.newNode isDir m.handle name).handle ≠ (s.newNode isDir m.handle name).parent :=
    Nat.ne_of_gt (Nat.lt_succ_of_le hcounter)
  rw [Heap.cells_alloc, if_pos rfl, Option.bind_some, if_neg hzero, if_neg hparent, htree]
  rfl

omit hs in
theorem cells_added (isDir : Bool) {tree : Ptr} (name : Str) {m : Node} {d : Dir}
    (hm : s.heap.cells tree = some m) (hd : m.dir = some d) (q : Ptr) :
    (s.added isDir tree m.handle name).heap.cells q =
      if q = tree then
        some { m with dir := some { d with entries := d.entries.insert (s.mtpid + 1) s.heap.next } }
      else if q = s.heap.next then some (s.newNode isDir m.handle name)
      else s.heap.cells q := by
  have hlt : tree < s.heap.next := Heap.lt_next hm
  unfold MtpStorage.added
  simp only [Heap.cells_modify, Heap.cells_alloc]
  split
  · rename_i heq
    subst heq
    rw [if_neg (Nat.ne_of_lt hlt), hm]
    simp [Node.mapDir, hd]
  · rfl

/-- **A new node**, with a name that its directory does not have. -/
theorem added (isDir : Bool) {tree : Ptr} {name : Str} {m : Node} {d : Dir}
    (hm : s.heap.cells tree = some m) (hd : m.dir = some d) (hname : ¬Named s tree name) :
    Inv (s.added isDir tree m.handle name) := by
  have hcells := cells_added isDir name hm hd
  have hlt : tree < s.heap.next := Heap.lt_next hm
  have hfresh : s.heap.cells s.heap.next = none := Heap.cells_next s.heap
  have hcounter : ∀ {p n}, s.heap.cells p = some n → n.handle ≤ s.mtpid := hs.counter
  have hmap : ∀ h : Handle, (s.added isDir tree m.handle name).mtpmap[h]? =
      if isDir ∧ s.mtpid + 1 = h then some s.heap.next else s.mtpmap[h]? := by
    intro h
    unfold MtpStorage.added
    cases isDir with
    | false => simp
    | true => simp [TreeMap.getElem?_insert]
  have hentries : ∀ h : Handle, (d.entries.insert (s.mtpid + 1) s.heap.next)[h]? =
      if s.mtpid + 1 = h then some s.heap.next else d.entries[h]? := by
    intro h
    simp [TreeMap.getElem?_insert]
  have hnode : (s.newNode isDir m.handle name) = ⟨s.mtpid + 1, m.handle, name, if isDir then some ⟨∅, false⟩ else none⟩ := rfl
  have hempty : ∀ h : Handle, (∅ : TreeMap Handle Ptr)[h]? = none := by simp
  have hwatch : (s.added isDir tree m.handle name).inotifymap = s.inotifymap := rfl
  have hmtpid : (s.added isDir tree m.handle name).mtpid = s.mtpid + 1 := rfl
  have hnext : (s.added isDir tree m.handle name).heap.next = s.heap.next + 1 := rfl
  rw [hnode] at hcells
  have hpos : 0 < tree := Heap.pos hm
  have hyounger : ∀ {t m d h p}, s.heap.cells t = some m → m.dir = some d →
      d.entries[(h : Handle)]? = some p → t < p := by
    intro t m d h p ht hd hp
    obtain ⟨-, -, -, -, -, hlt⟩ := hs.entry ht hd hp
    exact hlt
  constructor
  · intro _
    obtain ⟨r, hr⟩ := hs.root (Nat.lt_of_le_of_lt hpos hlt)
    exact ⟨r, by rw [hmap]; simp [hr]⟩
  · intro h p hp
    have := @hs.trees h p
    grind
  · intro p n d' hp hd'
    have := @hs.dirs p
    grind
  · intro p n hp hn
    rw [hcells] at hp
    by_cases hnew : p = s.heap.next
    · refine ⟨tree, _, _, (hcells tree).trans (if_pos rfl), rfl, ?_, ?_⟩
      · grind
      · grind
    · have hold : ∃ n', s.heap.cells p = some n' ∧ n'.handle = n.handle ∧ n'.parent = n.parent := by
        grind
      obtain ⟨n', hp', hh, hpar⟩ := hold
      obtain ⟨t, m', d', ht, hd', heq, hentry⟩ := hs.parent hp' (by grind)
      by_cases htree : t = tree
      · refine ⟨tree, _, _, (hcells tree).trans (if_pos rfl), rfl, ?_, ?_⟩
        · grind
        · grind
      · refine ⟨t, m', d', ?_, hd', ?_, ?_⟩
        · grind
        · grind
        · grind
  · have := @hs.top
    grind
  · intro t p m' d' h ht hd' hp
    have := @hs.entry t p
    grind
  · have := @hs.unique
    grind
  · have := @hs.watch
    grind
  · intro t p q m' n n' d' h k ht hd' hp hq hn hn' heq
    have hother : ∀ {h q n}, d.entries[(h : Handle)]? = some q → s.heap.cells q = some n →
        n.name ≠ name :=
      fun hq hn heq => hname ⟨_, _, childOf_iff.2 ⟨m, d, hm, hd, _, hq⟩, hn, heq⟩
    -- entries of before are not the new node, and keep their names
    have hsame : ∀ {t m₀ d₀ h p n}, s.heap.cells t = some m₀ → m₀.dir = some d₀ →
        d₀.entries[(h : Handle)]? = some p →
        (s.added isDir tree m.handle name).heap.cells p = some n →
        ∃ n₀, s.heap.cells p = some n₀ ∧ n₀.name = n.name := by
      intro t m₀ d₀ h p n ht hd hp hn
      obtain ⟨n₀, hn₀, -⟩ := hs.entry ht hd hp
      exact ⟨n₀, hn₀, by grind⟩
    have hnewname : ∀ {n}, (s.added isDir tree m.handle name).heap.cells s.heap.next = some n →
        n.name = name := by
      grind
    by_cases htree : t = tree
    · have hdir : d' = { d with entries := d.entries.insert (s.mtpid + 1) s.heap.next } := by
        grind
      subst hdir
      rw [hentries] at hp hq
      split at hp
      · rename_i hh
        split at hq
        · rename_i hk
          rw [← hh, ← hk]
        · cases hp
          obtain ⟨n₀, hn₀, hname₀⟩ := hsame hm hd hq hn'
          exact absurd (hname₀.trans (heq.symm.trans (hnewname hn))) (hother hq hn₀)
      · obtain ⟨n₀, hn₀, hname₀⟩ := hsame hm hd hp hn
        split at hq
        · cases hq
          exact absurd (hname₀.trans (heq.trans (hnewname hn'))) (hother hp hn₀)
        · obtain ⟨n₁, hn₁, hname₁⟩ := hsame hm hd hq hn'
          exact hs.names hm hd hp hq hn₀ hn₁ (by rw [hname₀, hname₁, heq])
    · rw [hcells, if_neg htree] at ht
      split at ht
      · cases ht
        cases isDir with
        | false => cases hd'
        | true =>
          cases hd'
          rw [hempty] at hp
          cases hp
      · obtain ⟨n₀, hn₀, hname₀⟩ := hsame ht hd' hp hn
        obtain ⟨n₁, hn₁, hname₁⟩ := hsame ht hd' hq hn'
        exact hs.names ht hd' hp hq hn₀ hn₁ (by rw [hname₀, hname₁, heq])
  · grind

/-! ## Changes in place -/

theorem sending (handle : Handle) : Inv { s with handleCurrentlySending := handle } :=
  ⟨hs.root, hs.trees, hs.dirs, hs.parent, hs.top, hs.entry, hs.unique, hs.watch, hs.names,
    hs.counter⟩

theorem counted {mtpid : Handle} (hle : s.mtpid ≤ mtpid) : Inv { s with mtpid := mtpid } :=
  ⟨hs.root, hs.trees, hs.dirs, hs.parent, hs.top, hs.entry, hs.unique, hs.watch, hs.names,
    fun hp => Nat.le_trans (hs.counter hp) hle⟩

theorem watches {inotifymap : TreeMap Int Ptr} (hwatch : ∀ {wd : Int} {p : Ptr},
      inotifymap[wd]? = some p → ∃ n d, s.heap.cells p = some n ∧ n.dir = some d) :
    Inv { s with inotifymap := inotifymap } :=
  ⟨hs.root, hs.trees, hs.dirs, hs.parent, hs.top, hs.entry, hs.unique, hwatch, hs.names, hs.counter⟩

end Inv

/-- Nodes with the same place in the tree. -/
def SamePlace (n n' : Node) : Prop :=
  n'.handle = n.handle ∧ n'.parent = n.parent ∧ n'.dir.map Dir.entries = n.dir.map Dir.entries

theorem SamePlace.symm {n n' : Node} (h : SamePlace n n') : SamePlace n' n :=
  ⟨h.1.symm, h.2.1.symm, h.2.2.symm⟩

theorem SamePlace.dir {n n' : Node} {d : Dir} (h : SamePlace n n') (hd : n.dir = some d) :
    ∃ d', n'.dir = some d' ∧ d'.entries = d.entries := by
  obtain ⟨-, -, heq⟩ := h
  rw [hd] at heq
  exact Option.map_eq_some_iff.1 heq

/-- **A change of a node** that keeps its place, with a name that no other entry has. -/
theorem Inv.modify {s : MtpStorage} (hs : Inv s) {p : Ptr} {f : Node → Node}
    (hf : ∀ n, SamePlace n (f n))
    (hname : ∀ {n n' : Node} {t q : Ptr}, s.heap.cells p = some n →
      ChildOf Node.children s.heap.cells t p → ChildOf Node.children s.heap.cells t q →
      q ≠ p → s.heap.cells q = some n' → n'.name ≠ (f n).name) :
    Inv { s with heap := s.heap.modify p f } := by
  have hforth : ∀ {q n}, s.heap.cells q = some n →
      ∃ n', (s.heap.modify p f).cells q = some n' ∧ SamePlace n n' := by
    intro q n hq
    rw [Heap.cells_modify, hq]
    split
    · exact ⟨f n, rfl, hf n⟩
    · exact ⟨n, rfl, rfl, rfl, rfl⟩
  have hback : ∀ {q n}, (s.heap.modify p f).cells q = some n →
      ∃ n₀, s.heap.cells q = some n₀ ∧ SamePlace n n₀ ∧ n = if q = p then f n₀ else n₀ := by
    intro q n hq
    rw [Heap.cells_modify] at hq
    split at hq
    · rename_i heq
      obtain ⟨n₀, hn₀, rfl⟩ := Option.map_eq_some_iff.1 hq
      exact ⟨n₀, hn₀, (hf n₀).symm, (if_pos heq).symm⟩
    · rename_i hne
      exact ⟨n, hq, ⟨rfl, rfl, rfl⟩, (if_neg hne).symm⟩
  constructor
  · exact hs.root
  · intro h q hq
    obtain ⟨n, d, hn, rfl, hd⟩ := hs.trees hq
    obtain ⟨n', hn', hplace⟩ := hforth hn
    obtain ⟨d', hd', -⟩ := hplace.dir hd
    exact ⟨n', d', hn', hplace.1, hd'⟩
  · intro q n d hq hd
    obtain ⟨n₀, hn₀, hplace, -⟩ := hback hq
    obtain ⟨d₀, hd₀, -⟩ := hplace.dir hd
    rw [← hplace.1]
    exact hs.dirs hn₀ hd₀
  · intro q n hq hne
    obtain ⟨n₀, hn₀, hplace, -⟩ := hback hq
    rw [← hplace.1] at hne
    obtain ⟨t, m, d, ht, hd, heq, hentry⟩ := hs.parent hn₀ hne
    obtain ⟨m', hm', htree⟩ := hforth ht
    obtain ⟨d', hd', hentries⟩ := htree.dir hd
    refine ⟨t, m', d', hm', hd', ?_, ?_⟩
    · rw [htree.1, heq, hplace.2.1]
    · rw [hentries, ← hplace.1, hentry]
  · intro q n hq hzero
    obtain ⟨n₀, hn₀, hplace, -⟩ := hback hq
    rw [← hplace.2.1]
    exact hs.top hn₀ (hplace.1.trans hzero)
  · intro t q m d h ht hd hq
    obtain ⟨m₀, hm₀, htree, -⟩ := hback ht
    obtain ⟨d₀, hd₀, hentries⟩ := htree.dir hd
    rw [← hentries] at hq
    obtain ⟨n, hn, hh, hpar, hne, hlt⟩ := hs.entry hm₀ hd₀ hq
    obtain ⟨n', hn', hplace⟩ := hforth hn
    exact ⟨n', hn', hplace.1.trans hh, hplace.2.1.trans (hpar.trans htree.1), hne, hlt⟩
  · intro q q' n n' hq hq' heq
    obtain ⟨n₀, hn₀, hplace, -⟩ := hback hq
    obtain ⟨n₁, hn₁, hplace', -⟩ := hback hq'
    exact hs.unique hn₀ hn₁ (hplace.1.trans (heq.trans hplace'.1.symm))
  · intro wd q hq
    obtain ⟨n, d, hn, hd⟩ := hs.watch hq
    obtain ⟨n', hn', hplace⟩ := hforth hn
    obtain ⟨d', hd', -⟩ := hplace.dir hd
    exact ⟨n', d', hn', hd'⟩
  · intro t q q' m n n' d h k ht hd hq hq' hn hn' heq
    obtain ⟨m₀, hm₀, htree, -⟩ := hback ht
    obtain ⟨d₀, hd₀, hentries⟩ := htree.dir hd
    rw [← hentries] at hq hq'
    obtain ⟨n₀, hn₀, hplace, hchange⟩ := hback hn
    obtain ⟨n₁, hn₁, hplace', hchange'⟩ := hback hn'
    have hchild : ChildOf Node.children s.heap.cells t q := childOf_iff.2 ⟨m₀, d₀, hm₀, hd₀, h, hq⟩
    have hchild' : ChildOf Node.children s.heap.cells t q' :=
      childOf_iff.2 ⟨m₀, d₀, hm₀, hd₀, k, hq'⟩
    -- the changed node has no namesake
    by_cases hp : q = p
    · by_cases hp' : q' = p
      · obtain ⟨l, hl, rfl, -⟩ := hs.entry hm₀ hd₀ hq
        obtain ⟨l', hl', rfl, -⟩ := hs.entry hm₀ hd₀ hq'
        rw [hp, ← hp', hl'] at hl
        rw [Option.some.inj hl]
      · rw [if_pos hp] at hchange
        rw [if_neg hp'] at hchange'
        subst hp
        exact absurd (by rw [← hchange, heq, hchange']) (hname hn₀ hchild hchild' hp' hn₁)
    · by_cases hp' : q' = p
      · rw [if_neg hp] at hchange
        rw [if_pos hp'] at hchange'
        subst hp'
        exact absurd (by rw [← hchange', ← heq, hchange]) (hname hn₁ hchild' hchild hp hn₀)
      · rw [if_neg hp] at hchange
        rw [if_neg hp'] at hchange'
        exact hs.names hm₀ hd₀ hq hq' hn₀ hn₁ (by rw [← hchange, ← hchange', heq])
  · intro q n hq
    obtain ⟨n₀, hn₀, hplace, -⟩ := hback hq
    rw [← hplace.1]
    exact hs.counter hn₀

/-! ## Deleting -/

/-- A file, or a directory without directories. -/
def Removable (s : MtpStorage) (p : Ptr) : Prop :=
  ∀ q n, ChildOf Node.children s.heap.cells p q → s.heap.cells q = some n → n.dir = none

namespace Inv

variable {s : MtpStorage} (hs : Inv s)
include hs

theorem childOf_of_parent {p q : Ptr} {n l : Node} (hp : s.heap.cells p = some n)
    (hne : n.handle ≠ 0) (hq : s.heap.cells q = some l) (heq : l.parent = n.handle) :
    ChildOf Node.children s.heap.cells p q := by
  by_cases hzero : l.handle = 0
  · rw [hs.top hq hzero] at heq
    exact absurd heq.symm hne
  · obtain ⟨t, m, d, ht, hd, hh, hentry⟩ := hs.parent hq hzero
    rw [← hs.unique ht hp (hh.trans heq)]
    exact childOf_iff.2 ⟨m, d, ht, hd, _, hentry⟩

/-- Only the node and its entries are deleted. -/
theorem below_removable {p q : Ptr} {n : Node} (hp : s.heap.cells p = some n)
    (hremovable : Removable s p) : Below Node.children s.heap.cells p q ↔
      q = p ∨ ChildOf Node.children s.heap.cells p q := by
  rw [below_iff hp]
  apply or_congr_right
  constructor
  · rintro ⟨c, hc, hbelow⟩
    obtain ⟨l, hl⟩ := hs.forest.live ⟨n, hp, hc⟩
    have hleaf := hremovable c l ⟨n, hp, hc⟩ hl
    have hnone : l.children = [] := by
      unfold Node.children
      rw [hleaf]
    rw [below_iff hl, hnone] at hbelow
    rcases hbelow with rfl | ⟨e, he, -⟩
    · exact ⟨n, hp, hc⟩
    · cases he
  · rintro ⟨n', hn', hq⟩
    rw [hp] at hn'
    cases hn'
    exact ⟨q, hq, Relation.ReflTransGen.refl⟩

end Inv

/-- The directory after its entry was erased. -/
def erased (d : Dir) (handle : Handle) : Dir := { d with entries := d.entries.erase handle }

/-- The nodes that are left when a node is deleted from a directory, and what they were. -/
structure Cut (s : MtpStorage) (p t : Ptr) (n : Node) (d : Dir) (heap : Memory) : Prop where
  back {q : Ptr} {l : Node} : heap.cells q = some l →
    ∃ l₀, s.heap.cells q = some l₀ ∧ q ≠ p ∧ l₀.parent ≠ n.handle ∧ l₀.handle = l.handle ∧
      l₀.parent = l.parent ∧ l₀.name = l.name ∧ (q ≠ t → l₀ = l) ∧
      (q = t → l.dir = some (erased d n.handle))
  forth {q : Ptr} {l₀ : Node} : s.heap.cells q = some l₀ → q ≠ p → l₀.parent ≠ n.handle →
    ∃ l, heap.cells q = some l ∧ l.handle = l₀.handle ∧ l.parent = l₀.parent ∧
      (q ≠ t → l = l₀) ∧ (q = t → l.dir = some (erased d n.handle))

theorem erased_entries (d : Dir) (handle h : Handle) :
    (erased d handle).entries[h]? = if handle = h then none else d.entries[h]? := by
  simp [erased, TreeMap.getElem?_erase]

namespace Inv

variable {s : MtpStorage} (hs : Inv s)
include hs

/-- What the deleted node does not own is kept. -/
theorem kept_iff {p q : Ptr} {n l : Node} {heap : Memory} (hp : s.heap.cells p = some n)
    (hne : n.handle ≠ 0) (hremovable : Removable s p)
    (hfreed : Freed (Below Node.children s.heap.cells p) s.heap heap) :
    heap.cells q = some l ↔ s.heap.cells q = some l ∧ q ≠ p ∧ l.parent ≠ n.handle := by
  have hbelow := hs.below_removable (q := q) hp hremovable
  constructor
  · intro hq
    by_cases hgone : Below Node.children s.heap.cells p q
    · rw [hfreed.freed q hgone] at hq
      cases hq
    · rw [hfreed.kept q hgone] at hq
      rw [hbelow, not_or] at hgone
      exact ⟨hq, hgone.1, fun heq => hgone.2 (hs.childOf_of_parent hp hne hq heq)⟩
  · rintro ⟨hq, hqp, hpar⟩
    rw [hfreed.kept, hq]
    rw [hbelow, not_or]
    refine ⟨hqp, ?_⟩
    intro hchild
    obtain ⟨n', d', hn', hd', h, hentry'⟩ := childOf_iff.1 hchild
    obtain ⟨l', hl', -, hpar', -⟩ := hs.entry hn' hd' hentry'
    rw [hp] at hn'
    cases hn'
    rw [hq] at hl'
    cases hl'
    exact hpar hpar'

/-- A directory that is left is no child of the node. -/
theorem dir_parent_ne {p q : Ptr} {n l : Node} {d : Dir} (hp : s.heap.cells p = some n)
    (hne : n.handle ≠ 0) (hremovable : Removable s p) (hq : s.heap.cells q = some l)
    (hd : l.dir = some d) : l.parent ≠ n.handle := by
  intro heq
  rw [hremovable q l (hs.childOf_of_parent hp hne hq heq) hq] at hd
  cases hd

theorem cut {p t : Ptr} {n m : Node} {d : Dir} {heap : Memory} (hp : s.heap.cells p = some n)
    (ht : s.heap.cells t = some m) (hd : m.dir = some d) (hentry : d.entries[n.handle]? = some p)
    (hremovable : Removable s p)
    (hfreed : Freed (Below Node.children s.heap.cells p) s.heap heap) :
    Cut s p t n d (heap.modify t (Node.mapDir fun d => erased d n.handle)) := by
  obtain ⟨n', hn', -, -, hne, hlt⟩ := hs.entry ht hd hentry
  rw [hp] at hn'
  cases hn'
  have hkept : ∀ {q l}, heap.cells q = some l ↔
      s.heap.cells q = some l ∧ q ≠ p ∧ l.parent ≠ n.handle :=
    hs.kept_iff hp hne hremovable hfreed
  have htree : heap.cells t = some m := by
    rw [hfreed.kept t fun h => Nat.not_le.2 hlt (Below.le hs.forest h), ht]
  have hcells : ∀ q, (heap.modify t (Node.mapDir fun d => erased d n.handle)).cells q =
      if q = t then some { m with dir := some (erased d n.handle) } else heap.cells q := by
    intro q
    rw [Heap.cells_modify]
    split
    · rename_i heq
      rw [heq, htree]
      simp [Node.mapDir, hd]
    · rfl
  constructor
  · intro q l hq
    rw [hcells] at hq
    split at hq
    · rename_i heq
      cases hq
      obtain ⟨-, htp, hpar⟩ := hkept.1 htree
      rw [heq]
      exact ⟨m, ht, htp, hpar, rfl, rfl, rfl, fun hne => absurd rfl hne, fun _ => rfl⟩
    · rename_i hqt
      obtain ⟨hq₀, hqp, hpar⟩ := hkept.1 hq
      exact ⟨l, hq₀, hqp, hpar, rfl, rfl, rfl, fun _ => rfl, fun heq => absurd heq hqt⟩
  · intro q l₀ hq hqp hpar
    rw [hcells]
    by_cases heq : q = t
    · rw [heq, ht] at hq
      cases hq
      rw [if_pos heq]
      exact ⟨_, rfl, rfl, rfl, fun hne => absurd heq hne, fun _ => rfl⟩
    · rw [if_neg heq]
      exact ⟨l₀, hkept.2 ⟨hq, hqp, hpar⟩, rfl, rfl, fun _ => rfl, fun h => absurd h heq⟩

end Inv

namespace Cut

variable {s : MtpStorage} {p t : Ptr} {n m : Node} {d : Dir} {heap : Memory}
  (hcut : Cut s p t n d heap) (ht : s.heap.cells t = some m) (hd : m.dir = some d)
include hcut ht hd

/-- A directory that is left had the entries that it has; the deleted node was none of them. -/
theorem dir_back {q : Ptr} {l : Node} {d' : Dir} (hq : heap.cells q = some l)
    (hd' : l.dir = some d') :
    ∃ l₀ d₀, s.heap.cells q = some l₀ ∧ q ≠ p ∧ l₀.handle = l.handle ∧ l₀.dir = some d₀ ∧
      ∀ {h : Handle} {r : Ptr}, d'.entries[h]? = some r →
        d₀.entries[h]? = some r ∧ (q = t → h ≠ n.handle) := by
  obtain ⟨l₀, hl₀, hqp, -, hh, -, -, hother, htop⟩ := hcut.back hq
  by_cases hqt : q = t
  · have hm : l₀ = m := Option.some.inj (by rw [← hl₀, hqt, ht])
    refine ⟨l₀, d, hl₀, hqp, hh, by rw [hm, hd], ?_⟩
    intro h r hr
    obtain rfl := Option.some.inj (hd'.symm.trans (htop hqt))
    rw [erased_entries] at hr
    split at hr
    · cases hr
    · rename_i hne
      exact ⟨hr, fun _ heq => hne heq.symm⟩
  · obtain rfl := hother hqt
    exact ⟨l₀, d', hl₀, hqp, rfl, hd', fun hr => ⟨hr, fun heq => absurd heq hqt⟩⟩

/-- A directory stays, with all other entries. -/
theorem dir_forth {q : Ptr} {l₀ : Node} {d₀ : Dir} (hq : s.heap.cells q = some l₀)
    (hd₀ : l₀.dir = some d₀) (hqp : q ≠ p) (hpar : l₀.parent ≠ n.handle) :
    ∃ l d', heap.cells q = some l ∧ l.handle = l₀.handle ∧ l.dir = some d' ∧
      ∀ {h : Handle}, h ≠ n.handle → d'.entries[h]? = d₀.entries[h]? := by
  obtain ⟨l, hl, hh, -, hother, htop⟩ := hcut.forth hq hqp hpar
  by_cases hqt : q = t
  · have hm : l₀ = m := Option.some.inj (by rw [← hq, hqt, ht])
    refine ⟨l, erased d n.handle, hl, hh, htop hqt, ?_⟩
    intro h hne
    rw [erased_entries, if_neg (Ne.symm hne)]
    rw [hm, hd] at hd₀
    cases hd₀
    rfl
  · obtain rfl := hother hqt
    exact ⟨l, d₀, hl, rfl, hd₀, fun _ => rfl⟩

end Cut

namespace Inv

variable {s : MtpStorage} (hs : Inv s)
include hs

/-- **A node that is deleted**, with the entries that it has. -/
theorem deleted {p t : Ptr} {n m : Node} {d : Dir} {heap : Memory}
    (hp : s.heap.cells p = some n) (ht : s.heap.cells t = some m) (hd : m.dir = some d)
    (hentry : d.entries[n.handle]? = some p) (hremovable : Removable s p)
    (hwatch : ∀ wd : Int, s.inotifymap[wd]? ≠ some p)
    (hfreed : Freed (Below Node.children s.heap.cells p) s.heap heap) :
    Inv { s with
      heap := heap.modify t (Node.mapDir fun d => { d with entries := d.entries.erase n.handle })
      mtpmap := if n.isDir then s.mtpmap.erase n.handle else s.mtpmap } := by
  obtain ⟨n', hn', -, hparent, hne, -⟩ := hs.entry ht hd hentry
  rw [hp] at hn'
  cases hn'
  have hcut := hs.cut hp ht hd hentry hremovable hfreed
  have hmap : ∀ h : Handle, (if n.isDir then s.mtpmap.erase n.handle else s.mtpmap)[h]? =
      if n.isDir ∧ n.handle = h then none else s.mtpmap[h]? := by
    intro h
    cases n.isDir with
    | false => simp
    | true => simp [TreeMap.getElem?_erase]
  -- no other node has the handle, or a directory for a parent that goes
  have hother : ∀ {q l}, s.heap.cells q = some l → q ≠ p → l.handle ≠ n.handle :=
    fun hq hqp heq => hqp (hs.unique hq hp heq)
  have hdir : ∀ {q l d'}, s.heap.cells q = some l → l.dir = some d' → l.parent ≠ n.handle :=
    hs.dir_parent_ne hp hne hremovable
  constructor
  · intro hnext
    obtain ⟨r, hr⟩ := hs.root (by rw [← hfreed.next]; exact hnext)
    exact ⟨r, by rw [hmap, if_neg (fun h => hne h.2), hr]⟩
  · intro h q hq
    rw [hmap] at hq
    split at hq
    · cases hq
    · rename_i hkeep
      obtain ⟨l, d', hl, rfl, hd'⟩ := hs.trees hq
      have hqp : q ≠ p := by
        rintro rfl
        rw [hp] at hl
        cases hl
        exact hkeep ⟨by simp [Node.isDir, hd'], rfl⟩
      obtain ⟨l', d'', hl', hh, hd'', -⟩ := hcut.dir_forth ht hd hl hd' hqp (hdir hl hd')
      exact ⟨l', d'', hl', hh, hd''⟩
  · intro q l d' hq hd'
    obtain ⟨l₀, d₀, hl₀, hqp, hh, hd₀, -⟩ := hcut.dir_back ht hd hq hd'
    rw [hmap, ← hh, if_neg (fun h => hother hl₀ hqp h.2.symm)]
    exact hs.dirs hl₀ hd₀
  · intro q l hq hzero
    obtain ⟨l₀, hl₀, hqp, hpar, hh, hpar', -⟩ := hcut.back hq
    obtain ⟨t', m', d', ht', hd', heq, hentry'⟩ := hs.parent hl₀ (by rw [hh]; exact hzero)
    have htp : t' ≠ p := by
      rintro rfl
      rw [hp] at ht'
      cases ht'
      exact hpar heq.symm
    obtain ⟨m'', d'', hm'', hh', hd'', hsame⟩ := hcut.dir_forth ht hd ht' hd' htp (hdir ht' hd')
    refine ⟨t', m'', d'', hm'', hd'', by rw [hh', heq, hpar'], ?_⟩
    rw [← hh, hsame (hother hl₀ hqp), hentry']
  · intro q l hq hzero
    obtain ⟨l₀, hl₀, -, -, hh, hpar', -⟩ := hcut.back hq
    rw [← hpar']
    exact hs.top hl₀ (hh.trans hzero)
  · intro t' q m' d' h ht' hd' hq
    obtain ⟨m₀, d₀, hm₀, htp, hh, hd₀, hentries⟩ := hcut.dir_back ht hd ht' hd'
    obtain ⟨hq₀, hkeep⟩ := hentries hq
    obtain ⟨l, hl, hlh, hlp, hlne, hlt'⟩ := hs.entry hm₀ hd₀ hq₀
    have hqp : q ≠ p := by
      rintro rfl
      rw [hp] at hl
      cases hl
      exact hkeep (hs.unique hm₀ ht (hlp.symm.trans hparent)) hlh.symm
    have hlpar : l.parent ≠ n.handle := by
      rw [hlp]
      exact hother hm₀ htp
    obtain ⟨l', hl', hh', hpar', -⟩ := hcut.forth hl hqp hlpar
    exact ⟨l', hl', hh'.trans hlh, hpar'.trans (hlp.trans hh), hlne, hlt'⟩
  · intro q q' l l' hq hq' heq
    obtain ⟨l₀, hl₀, -, -, hh, -⟩ := hcut.back hq
    obtain ⟨l₁, hl₁, -, -, hh', -⟩ := hcut.back hq'
    exact hs.unique hl₀ hl₁ (hh.trans (heq.trans hh'.symm))
  · intro wd q hq
    obtain ⟨l, d', hl, hd'⟩ := hs.watch hq
    have hqp : q ≠ p := by
      rintro rfl
      exact hwatch wd hq
    obtain ⟨l', d'', hl', -, hd'', -⟩ := hcut.dir_forth ht hd hl hd' hqp (hdir hl hd')
    exact ⟨l', d'', hl', hd''⟩
  · intro t' q q' m' l l' d' h k ht' hd' hq hq' hl hl' heq
    obtain ⟨m₀, d₀, hm₀, -, -, hd₀, hentries⟩ := hcut.dir_back ht hd ht' hd'
    obtain ⟨l₀, hl₀, -, -, -, -, hname, -⟩ := hcut.back hl
    obtain ⟨l₁, hl₁, -, -, -, -, hname', -⟩ := hcut.back hl'
    exact hs.names hm₀ hd₀ (hentries hq).1 (hentries hq').1 hl₀ hl₁ (by rw [hname, hname', heq])
  · intro q l hq
    obtain ⟨l₀, hl₀, -, -, hh, -⟩ := hcut.back hq
    rw [← hh]
    exact hs.counter hl₀

/-- **Deleting** a node without directories that nobody watches. -/
theorem deleteFile {handle : Handle} {p : Ptr} {n : Node} (hp : s.heap.cells p = some n)
    (hh : n.handle = handle) (hne : handle ≠ 0) (hremovable : Removable s p)
    (hwatch : ∀ wd : Int, s.inotifymap[wd]? ≠ some p) :
    ∃ s', s.deleteFile handle = some (true, s') ∧ Inv s' := by
  subst hh
  obtain ⟨r, hr, hiff⟩ := hs.findNode n.handle
  obtain ⟨t, m, d, ht, hd, heq, hentry⟩ := hs.parent hp hne
  have htree : s.mtpmap[n.parent]? = some t := heq ▸ hs.dirs ht hd
  obtain ⟨heap, hdelete, hfreed⟩ := hs.delete hp
  obtain ⟨-, -, -, -, -, hlt⟩ := hs.entry ht hd hentry
  have hkept : heap.cells t = some m := by
    rw [hfreed.kept t fun h => Nat.not_le.2 hlt (Below.le hs.forest h), ht]
  refine ⟨_, ?_, hs.deleted hp ht hd hentry hremovable hwatch hfreed⟩
  unfold MtpStorage.deleteFile Memory.deleteNode
  rw [hr, Option.bind_some, (hiff p).2 ⟨n, hp, rfl, hne⟩]
  dsimp only
  rw [hp, Option.bind_some, htree]
  dsimp only
  rw [if_neg (Nat.ne_of_gt (Heap.pos ht)), tree_eq_some.2 ⟨ht, hd⟩, Option.bind_some]
  dsimp only
  rw [hentry]
  dsimp only
  rw [hdelete, Option.bind_some, tree_eq_some.2 ⟨hkept, hd⟩]
  rfl

theorem named_added {isDir : Bool} {tree : Ptr} {name x : Str} {m : Node} {d : Dir}
    (hm : s.heap.cells tree = some m) (hd : m.dir = some d)
    (hx : Named (s.added isDir tree m.handle name) tree x) : Named s tree x ∨ x = name := by
  have hcells := cells_added isDir name hm hd
  have hlt : tree < s.heap.next := Heap.lt_next hm
  obtain ⟨q, n, hchild, hq, rfl⟩ := hx
  obtain ⟨m', d', hm', hd', h, hentry⟩ := childOf_iff.1 hchild
  rw [hcells, if_pos rfl] at hm'
  cases hm'
  cases hd'
  dsimp only at hentry
  rw [TreeMap.getElem?_insert] at hentry
  split at hentry
  · cases hentry
    rw [hcells, if_neg (Nat.ne_of_gt hlt), if_pos rfl] at hq
    cases hq
    exact Or.inr rfl
  · left
    obtain ⟨n₀, hn₀, -, -, -, hyounger⟩ := hs.entry hm hd hentry
    rw [hcells, if_neg (Nat.ne_of_gt hyounger), if_neg (Nat.ne_of_lt (Heap.lt_next hn₀))] at hq
    exact ⟨q, n, childOf_iff.2 ⟨m, d, hm, hd, h, hentry⟩, hq, rfl⟩

end Inv

end Recovery.Mtp
