import Mathlib.Data.List.Nodup
import Recovery.Mtp.MtpStorage

/-!
# The object tree of a storage

* `Inv` — the owning entries, the map of handles and the map of watches describe one tree.
* `Inv.forest`, `Inv.destruct` — the tree is a forest for destructors, and the final one frees it all.
* `Inv.findNode`, `Inv.getNodePath` — lookups touch live nodes only, and end.

## The invariant

A node is in the directory of its parent and nowhere else, its handle is its own, and `mtpmap` and
the watches lead to live directories only.  The raw pointers of the source are addresses in a heap
of cells; a lookup through a freed cell has no result, so `findNode` and `getNodePath` say that
none happens.
-/

set_option autoImplicit false

namespace Recovery.Mtp

open Std Recovery.Lib

/-- **A well-formed object tree.** -/
structure Inv (s : MtpStorage) : Prop where
  /-- There is a root as soon as there is anything. -/
  root : 1 < s.heap.next → ∃ r, s.mtpmap[0]? = some r
  /-- `mtpmap` has the handles of live directories only. -/
  trees {h : Handle} {p : Ptr} : s.mtpmap[h]? = some p →
    ∃ n d, s.heap.cells p = some n ∧ n.handle = h ∧ n.dir = some d
  /-- Every live directory is in `mtpmap`. -/
  dirs {p : Ptr} {n : Node} {d : Dir} : s.heap.cells p = some n → n.dir = some d →
    s.mtpmap[n.handle]? = some p
  /-- Every node but the root is in the directory with its parent handle. -/
  parent {p : Ptr} {n : Node} : s.heap.cells p = some n → n.handle ≠ 0 →
    ∃ t m d, s.heap.cells t = some m ∧ m.dir = some d ∧ m.handle = n.parent ∧
      d.entries[n.handle]? = some p
  top {p : Ptr} {n : Node} : s.heap.cells p = some n → n.handle = 0 → n.parent = 0
  /-- Entries are live nodes, younger than their directory. -/
  entry {t p : Ptr} {m : Node} {d : Dir} {h : Handle} : s.heap.cells t = some m →
    m.dir = some d → d.entries[h]? = some p →
    ∃ n, s.heap.cells p = some n ∧ n.handle = h ∧ n.parent = m.handle ∧ h ≠ 0 ∧ t < p
  unique {p q : Ptr} {n m : Node} : s.heap.cells p = some n → s.heap.cells q = some m →
    n.handle = m.handle → p = q
  /-- Watches are for live directories. -/
  watch {wd : Int} {p : Ptr} : s.inotifymap[wd]? = some p →
    ∃ n d, s.heap.cells p = some n ∧ n.dir = some d
  /-- No two entries of a directory have the same name. -/
  names {t p q : Ptr} {m n n' : Node} {d : Dir} {h k : Handle} : s.heap.cells t = some m →
    m.dir = some d → d.entries[h]? = some p → d.entries[k]? = some q →
    s.heap.cells p = some n → s.heap.cells q = some n' → n.name = n'.name → h = k
  counter {p : Ptr} {n : Node} : s.heap.cells p = some n → n.handle ≤ s.mtpid

theorem tree_eq_some {heap : Memory} {t : Ptr} {m : Node} {d : Dir} :
    Memory.tree heap t = some (m, d) ↔ heap.cells t = some m ∧ m.dir = some d := by
  unfold Memory.tree
  constructor
  · intro h
    obtain ⟨n, hn, h⟩ := Option.bind_eq_some_iff.1 h
    obtain ⟨d', hd, heq⟩ := Option.map_eq_some_iff.1 h
    cases heq
    exact ⟨hn, hd⟩
  · rintro ⟨hm, hd⟩
    rw [hm, Option.bind_some, hd]
    rfl

theorem childOf_iff {cells : Ptr → Option Node} {p q : Ptr} :
    ChildOf Node.children cells p q ↔
      ∃ n d, cells p = some n ∧ n.dir = some d ∧ ∃ h : Handle, d.entries[h]? = some q := by
  constructor
  · rintro ⟨n, hn, hq⟩
    unfold Node.children at hq
    split at hq
    · cases hq
    · rename_i d hd
      obtain ⟨⟨h, q'⟩, hmem, rfl⟩ := List.mem_map.1 hq
      exact ⟨n, d, hn, hd, h, TreeMap.mem_toList_iff_getElem?_eq_some.1 hmem⟩
  · rintro ⟨n, d, hn, hd, h, hq⟩
    refine ⟨n, hn, ?_⟩
    unfold Node.children
    rw [hd]
    exact List.mem_map.2 ⟨(h, q), TreeMap.mem_toList_iff_getElem?_eq_some.2 hq, rfl⟩

namespace Inv

variable {s : MtpStorage} (hs : Inv s)
include hs

theorem children_nodup {p : Ptr} {n : Node} (hp : s.heap.cells p = some n) : n.children.Nodup := by
  unfold Node.children
  split
  · exact List.nodup_nil
  · rename_i d hd
    apply List.Nodup.map_on
    · rintro ⟨h, q⟩ hmem ⟨k, q'⟩ hmem' rfl
      rw [TreeMap.mem_toList_iff_getElem?_eq_some] at hmem hmem'
      obtain ⟨m, hm, rfl, -⟩ := hs.entry hp hd hmem
      obtain ⟨m', hm', rfl, -⟩ := hs.entry hp hd hmem'
      rw [hm] at hm'
      cases hm'
      rfl
    · apply d.entries.distinct_keys_toList.imp
      rintro ⟨h, q⟩ ⟨k, q'⟩ hne heq
      cases heq
      simp at hne

/-- **The tree is a forest.** -/
theorem forest : Forest Node.children s.heap.cells where
  live := by
    intro p q hchild
    obtain ⟨n, d, hn, hd, h, hq⟩ := childOf_iff.1 hchild
    obtain ⟨m, hm, -⟩ := hs.entry hn hd hq
    exact ⟨m, hm⟩
  younger := by
    intro p q hchild
    obtain ⟨n, d, hn, hd, h, hq⟩ := childOf_iff.1 hchild
    obtain ⟨m, -, -, -, -, hlt⟩ := hs.entry hn hd hq
    exact hlt
  owner := by
    intro p q r hp hq
    obtain ⟨n, d, hn, hd, h, hr⟩ := childOf_iff.1 hp
    obtain ⟨n', d', hn', hd', h', hr'⟩ := childOf_iff.1 hq
    obtain ⟨m, hm, -, hparent, -⟩ := hs.entry hn hd hr
    obtain ⟨m', hm', -, hparent', -⟩ := hs.entry hn' hd' hr'
    rw [hm] at hm'
    cases hm'
    exact hs.unique hn hn' (hparent.symm.trans hparent')
  nodup := hs.children_nodup

theorem delete {p : Ptr} {n : Node} (hp : s.heap.cells p = some n) :
    ∃ heap', Memory.delete s.heap p = some heap' ∧
      Freed (Below Node.children s.heap.cells p) s.heap heap' :=
  destroy_spec hs.forest (fun _ _ hq => Heap.lt_next hq) (Nat.le_add_left _ _) hp fun _ _ => rfl

/-! ## Lookups -/

theorem searchTrees (handle : Handle) (trees : List (Handle × Ptr))
    (hsub : ∀ e ∈ trees, s.mtpmap[e.1]? = some e.2) :
    ∃ r, MtpStorage.searchTrees s.heap handle trees = some r ∧
      (∀ p, r = some p → ∃ n, s.heap.cells p = some n ∧ n.handle = handle ∧ handle ≠ 0) ∧
      (r = none → ∀ e ∈ trees, ∀ m d, s.heap.cells e.2 = some m → m.dir = some d →
        d.entries[handle]? = none) := by
  induction trees with
  | nil => exact ⟨none, rfl, nofun, fun _ => nofun⟩
  | cons e trees ih =>
    obtain ⟨h, t⟩ := e
    obtain ⟨m, d, hm, -, hd⟩ := hs.trees (hsub (h, t) List.mem_cons_self)
    unfold MtpStorage.searchTrees
    rw [tree_eq_some.2 ⟨hm, hd⟩, Option.bind_some]
    dsimp only
    cases hentry : d.entries[handle]? with
    | some p =>
      refine ⟨some p, rfl, ?_, nofun⟩
      intro q hq
      cases hq
      obtain ⟨n, hn, hhandle, -, hne, -⟩ := hs.entry hm hd hentry
      exact ⟨n, hn, hhandle, hne⟩
    | none =>
      obtain ⟨r, hr, hsome, hnone⟩ := ih fun e he => hsub e (List.mem_cons_of_mem _ he)
      refine ⟨r, hr, hsome, ?_⟩
      intro hr e he
      rcases List.mem_cons.1 he with rfl | he
      · intro m' d' hm' hd'
        rw [hm] at hm'
        cases hm'
        rw [hd] at hd'
        cases hd'
        exact hentry
      · exact hnone hr e he

/-- **A lookup** finds exactly the live nodes but the root. -/
theorem search (handle : Handle) :
    ∃ r, MtpStorage.searchTrees s.heap handle s.mtpmap.toList = some r ∧
      ∀ p, r = some p ↔ ∃ n, s.heap.cells p = some n ∧ n.handle = handle ∧ handle ≠ 0 := by
  obtain ⟨r, hr, hsome, hnone⟩ := hs.searchTrees handle s.mtpmap.toList
    fun e he => TreeMap.mem_toList_iff_getElem?_eq_some.1 he
  refine ⟨r, hr, fun p => ⟨hsome p, ?_⟩⟩
  rintro ⟨n, hn, rfl, hne⟩
  cases r with
  | some q =>
    obtain ⟨m, hm, heq, -⟩ := hsome q rfl
    rw [hs.unique hm hn heq]
  | none =>
    obtain ⟨t, m, d, hm, hd, -, hentry⟩ := hs.parent hn hne
    have hmem := TreeMap.mem_toList_iff_getElem?_eq_some.2 (hs.dirs hm hd)
    rw [hnone rfl _ hmem m d hm hd] at hentry
    cases hentry

theorem findNode (handle : Handle) :
    ∃ r, s.findNode handle = some r ∧
      ∀ p, r = some p ↔ ∃ n, s.heap.cells p = some n ∧ n.handle = handle ∧ handle ≠ 0 := by
  obtain ⟨r, hr, hiff⟩ := hs.search handle
  refine ⟨r, ?_, hiff⟩
  unfold MtpStorage.findNode
  rw [hr, Option.bind_some]
  cases r with
  | none => rfl
  | some p =>
    obtain ⟨n, hn, -⟩ := (hiff p).1 rfl
    simp [hn]

theorem nodePathLoop {fuel : Nat} {p : Ptr} (path : Str) {n : Node} (hp : s.heap.cells p = some n)
    (hfuel : p < fuel) : ∃ path', s.nodePathLoop fuel p path = some path' := by
  induction fuel generalizing p path n with
  | zero => exact absurd hfuel (Nat.not_lt_zero p)
  | succ fuel ih =>
    unfold MtpStorage.nodePathLoop
    rw [hp, Option.bind_some]
    dsimp only
    split
    · exact ⟨_, rfl⟩
    · rename_i hparent
      obtain ⟨r, hr, hiff⟩ := hs.findNode n.parent
      rw [hr, Option.bind_some]
      cases r with
      | none => exact ⟨_, rfl⟩
      | some q =>
        obtain ⟨m, hm, hhandle, -⟩ := (hiff q).1 rfl
        have hlt : q < p := by
          by_cases hroot : n.handle = 0
          · exact absurd (hs.top hp hroot) hparent
          · obtain ⟨t, m', d, ht, hd, heq, hentry⟩ := hs.parent hp hroot
            obtain ⟨-, -, -, -, -, hlt⟩ := hs.entry ht hd hentry
            rw [hs.unique hm ht (hhandle.trans heq.symm)]
            exact hlt
        exact ih _ hm (Nat.lt_of_lt_of_le hlt (Nat.le_of_lt_succ hfuel))

/-- **The path of a live node.** -/
theorem getNodePath {p : Ptr} {n : Node} (hp : s.heap.cells p = some n) :
    ∃ path, s.getNodePath p = some path := by
  obtain ⟨path, hpath⟩ := hs.nodePathLoop [] hp (Heap.lt_next hp)
  exact ⟨s.path ++ path, by rw [MtpStorage.getNodePath, hpath]; rfl⟩

/-! ## The end -/

/-- Everything is in the root, directly or not. -/
theorem below_root {r : Ptr} (hr : s.mtpmap[0]? = some r) {p : Ptr} {n : Node}
    (hp : s.heap.cells p = some n) : Below Node.children s.heap.cells r p := by
  induction p using Nat.strong_induction_on generalizing n with
  | _ p ih =>
    by_cases htop : n.handle = 0
    · obtain ⟨m, d, hm, hzero, -⟩ := hs.trees hr
      rw [hs.unique hp hm (htop.trans hzero.symm)]
      exact Relation.ReflTransGen.refl
    · obtain ⟨t, m, d, ht, hd, -, hentry⟩ := hs.parent hp htop
      obtain ⟨-, -, -, -, -, hlt⟩ := hs.entry ht hd hentry
      exact (ih t hlt ht).tail (childOf_iff.2 ⟨m, d, ht, hd, _, hentry⟩)

/-- **The destructor** frees every node. -/
theorem destruct : ∃ heap', s.destruct = some heap' ∧ ∀ p, heap'.cells p = none := by
  unfold MtpStorage.destruct
  cases hr : s.mtpmap[(0 : Handle)]? with
  | none =>
    refine ⟨s.heap, rfl, fun p => ?_⟩
    cases hp : s.heap.cells p with
    | none => rfl
    | some n =>
      have hpos := Heap.pos hp
      have hlt := Heap.lt_next hp
      obtain ⟨r, hroot⟩ := hs.root (by lia)
      rw [hr] at hroot
      cases hroot
  | some r =>
    obtain ⟨n, d, hn, -, -⟩ := hs.trees hr
    obtain ⟨heap', hdelete, hfreed⟩ := hs.delete hn
    refine ⟨heap', hdelete, fun p => ?_⟩
    by_cases hbelow : Below Node.children s.heap.cells r p
    · exact hfreed.freed p hbelow
    · rw [hfreed.kept p hbelow]
      cases hp : s.heap.cells p with
      | none => rfl
      | some m => exact absurd (hs.below_root hr hp) hbelow

end Inv

end Recovery.Mtp
