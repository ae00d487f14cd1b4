import Mathlib.Data.List.Dedup
import Recovery.Lib.DList
import Recovery.MinuiTwrp.Utf8

/-!
# The string cache (`minuitwrp/truetype.cpp`)

* `StringCache` — the hash map, and the list of its entries in memory.
* `gr_ttf_string_cache_get` — a hit moves an entry to the end of the list, and truncates a cache
  that is too large; a miss adds one.
* `Call`, `run` — calls on one font.
* `Holds`, `Recent` — the map and the list hold the same entries, in the order of their last use.
* `Got`, `get_got` — what a lookup can do to the entries.
* `string_cache_bounded` — over runs; `missing_grows` — a cache that is too large.

The key is the text with the width it was asked for.  A truncation happens in a hit only, which is
why misses in a row let the cache grow.
-/

set_option autoImplicit false

namespace Recovery.MinuiTwrp

open Recovery.Lib

def STRING_CACHE_MAX_ENTRIES : Nat := 400
def STRING_CACHE_TRUNCATE_ENTRIES : Nat := 150

structure StringCacheKey where
  text : Text
  max_width : Int
deriving DecidableEq

/-- An entry, without its links. -/
structure StringCacheEntry where
  rendered_bytes : Int
  /-- Of the surface. -/
  width : Int
  key : StringCacheKey

/-! ### The hash map -/

def hashmapGet (map : List (StringCacheKey × Nat)) (k : StringCacheKey) : Option Nat :=
  (map.find? fun e => e.1 = k).map Prod.snd

def hashmapPut (map : List (StringCacheKey × Nat)) (k : StringCacheKey) (p : Nat) :
    List (StringCacheKey × Nat) :=
  map.filter (fun e => e.1 ≠ k) ++ [(k, p)]

def hashmapRemove (map : List (StringCacheKey × Nat)) (k : StringCacheKey) :
    List (StringCacheKey × Nat) :=
  map.filter fun e => e.1 ≠ k

structure StringCache where
  heap : Heap (Node StringCacheEntry)
  string_cache : List (StringCacheKey × Nat)
  string_cache_head : Nat
  string_cache_tail : Nat

namespace StringCache

def empty : StringCache := ⟨.empty, [], 0, 0⟩

variable (s : StringCache)

/-- What is before an entry is linked to what is behind it. -/
def linkBefore (heap : Heap (Node StringCacheEntry)) (e : Node StringCacheEntry) :
    Option (Heap (Node StringCacheEntry)) :=
  if e.prev ≠ 0 then heap.setNext e.prev e.next else some heap

/-- The entry is moved to the tail; there is one behind it. -/
def moveToTail (res : Nat) : Option StringCache := do
  let e ← s.heap.cells res
  let heap ← linkBefore s.heap e
  let e ← heap.cells res
  let heap ← heap.setPrev e.next e.prev
  let e ← heap.cells res
  let head := if e.prev = 0 then e.next else s.string_cache_head
  let heap ← heap.setNext res 0
  let heap ← heap.setPrev res s.string_cache_tail
  let e ← heap.cells res
  let heap ← heap.setNext e.prev res
  some { s with heap, string_cache_head := head, string_cache_tail := res }

/-- The loop that frees the entries at the head. -/
def truncate : Nat → StringCache → Option StringCache
  | 0, s => some s
  | i + 1, s => do
    let ent := s.string_cache_head
    let e ← s.heap.cells ent
    let heap ← s.heap.setPrev e.next 0
    let key := e.data.key
    truncate i { s with
      heap := heap.free ent
      string_cache := hashmapRemove s.string_cache key
      string_cache_head := e.next }

/-- The new entry is linked behind the tail. -/
def insert (entry : StringCacheEntry) : Option (Nat × StringCache) := do
  let res := s.heap.next
  let heap := s.heap.alloc ⟨entry, 0, 0⟩
  let map := hashmapPut s.string_cache entry.key res
  if s.string_cache_tail ≠ 0 then
    let heap ← heap.setPrev res s.string_cache_tail
    let e ← heap.cells res
    let heap ← heap.setNext e.prev res
    some (res, ⟨heap, map, s.string_cache_head, res⟩)
  else some (res, ⟨heap, map, res, res⟩)

/-- The entry, or 0 when the text cannot be rendered; without a result, a pointer leads nowhere.
What `render` says of a text are the bytes rendered, and the width of the surface. -/
def gr_ttf_string_cache_get (render : Text → Int → Int × Int) (k : StringCacheKey) :
    Option (Nat × StringCache) :=
  match hashmapGet s.string_cache k with
  | none =>
    let (rendered_bytes, width) := render k.text k.max_width
    if rendered_bytes < 0 then some (0, s) else s.insert ⟨rendered_bytes, width, k⟩
  | some res => do
    let e ← s.heap.cells res
    if e.next = 0 then some (res, s)
    else
      let s ← s.moveToTail res
      if STRING_CACHE_MAX_ENTRIES ≤ s.string_cache.length then
        let s ← truncate STRING_CACHE_TRUNCATE_ENTRIES s
        some (res, s)
      else some (res, s)

end StringCache

/-! ### Calls -/

inductive Call where
  | measureEx (text : Text)
  | maxExW (text : Text) (max_width : Int)
  | textExWH (text : Text) (x max_width : Int)

/-- The entry that is asked for: `gr_ttf_maxExW` only looks whether there is one, and nothing is
drawn where there is no room. -/
def Call.key : Call → Option StringCacheKey
  | .measureEx text => some ⟨text, -1⟩
  | .maxExW _ _ => none
  | .textExWH text x max_width =>
    if max_width = -1 then some ⟨text, -1⟩
    else if max_width - x ≤ 0 then none
    else some ⟨text, max_width - x⟩

/-- The entry that a call gets, or 0; and the cache after it. -/
def StringCache.call (render : Text → Int → Int × Int) (s : StringCache) (c : Call) :
    Option (Nat × StringCache) :=
  match c.key with
  | none => some (0, s)
  | some k => s.gr_ttf_string_cache_get render k

/-- The result of the last of some calls, and the cache after it. -/
def run (render : Text → Int → Int × Int) (calls : List Call) : Option (Nat × StringCache) :=
  calls.foldlM (fun s c => s.2.call render c) (0, .empty)

/-- The entries that were used, the newest last. -/
def used (render : Text → Int → Int × Int) (calls : List Call) : List StringCacheKey :=
  (calls.filterMap Call.key).filter fun k => 0 ≤ (render k.text k.max_width).1

/-! ### The list and the map -/

/-- The cache holds some entries: in the list in this order, and in the map, each of them once. -/
structure Holds (render : Text → Int → Int × Int) (s : StringCache)
    (l : List (Nat × StringCacheEntry)) : Prop where
  seg : Seg s.heap 0 l 0
  head : s.string_cache_head = first 0 l
  tail : s.string_cache_tail = last 0 l
  nodup : (l.map Prod.fst).Nodup
  keys : (l.map fun e => e.2.key).Nodup
  map : s.string_cache.Perm (l.map fun e => (e.2.key, e.1))
  /-- There are no others in memory. -/
  owned : ∀ p, (s.heap.cells p).isSome → p ∈ l.map Prod.fst
  /-- They were rendered for their key. -/
  rendered : ∀ e ∈ l, (e.2.rendered_bytes, e.2.width) = render e.2.key.text e.2.key.max_width ∧
    0 ≤ e.2.rendered_bytes

variable {render : Text → Int → Int × Int} {s s' : StringCache}
  {l A B : List (Nat × StringCacheEntry)} {p : Nat} {d : StringCacheEntry} {k : StringCacheKey}

theorem holds_empty : Holds render .empty [] where
  seg := trivial
  head := rfl
  tail := rfl
  nodup := List.nodup_nil
  keys := List.nodup_nil
  map := List.Perm.nil
  owned _ h := by cases h
  rendered _ h := by cases h

theorem Holds.length (h : Holds render s l) : s.string_cache.length = l.length := by
  rw [h.map.length_eq, List.length_map]

theorem Holds.get_some (h : Holds render s l) (hk : hashmapGet s.string_cache k = some p) :
    ∃ d, (p, d) ∈ l ∧ d.key = k := by
  obtain ⟨e, he, rfl⟩ := Option.map_eq_some_iff.1 hk
  have hmem := h.map.mem_iff.1 (List.mem_of_find?_eq_some he)
  obtain ⟨e', he', rfl⟩ := List.mem_map.1 hmem
  have := List.find?_some he
  exact ⟨e'.2, he', by simpa using this⟩

theorem Holds.get_none (h : Holds render s l) (hk : hashmapGet s.string_cache k = none) :
    k ∉ l.map fun e => e.2.key := by
  intro hm
  obtain ⟨e, he, rfl⟩ := List.mem_map.1 hm
  have hmem := h.map.mem_iff.2 (List.mem_map_of_mem (f := fun e => (e.2.key, e.1)) he)
  have := List.find?_eq_none.1 (Option.map_eq_none_iff.1 hk) _ hmem
  simp at this

theorem moveToTail_holds (h : Holds render s (A ++ (p, d) :: B)) (hB : B ≠ []) :
    ∃ s', s.moveToTail p = some s' ∧ Holds render s' (A ++ B ++ [(p, d)]) := by
  obtain ⟨e, B', rfl⟩ := List.exists_cons_of_ne_nil hB
  have hperm : (A ++ e :: B' ++ [(p, d)]).Perm (A ++ (p, d) :: e :: B') := by
    rw [List.append_assoc]
    exact List.perm_append_comm.append_left A
  have hn := (hperm.map Prod.fst).nodup_iff.2 h.nodup
  obtain ⟨hnAB, -, hdisj⟩ := List.nodup_append.1 (List.map_append ▸ hn)
  have hpAB : p ∉ (A ++ e :: B').map Prod.fst := fun hm =>
    hdisj p hm p (List.mem_singleton_self _) rfl
  have hne : A ++ e :: B' ≠ [] := List.append_ne_nil_of_right_ne_nil _ hB
  have hp : s.heap.cells p = some ⟨d, last 0 A, e.1⟩ := (seg_append.1 h.seg).2.1
  obtain ⟨h₁, h₂, hh₁, hp₁, hh₂, hp₂, hseg₂, hlive₂⟩ := h.seg.unlink h.nodup
  obtain ⟨h₃, h₄, h₅, hh₃, hh₄, hp₄, hh₅, hseg₅, hlive₅⟩ := hseg₂.relink hne hnAB hpAB hp₂
  have htail : s.string_cache_tail = last 0 (A ++ e :: B') := by
    rw [h.tail, last_append, last_append]
    rfl
  refine ⟨⟨h₅, s.string_cache, if last 0 A = 0 then e.1 else s.string_cache_head, p⟩, ?_, ?_⟩
  · have hh₁' : StringCache.linkBefore s.heap ⟨d, last 0 A, e.1⟩ = some h₁ := hh₁
    simp only [StringCache.moveToTail, hp, Option.bind_eq_bind, Option.bind_some, hh₁', hp₁, hh₂,
      hp₂, hh₃, htail, hh₄, hp₄, hh₅]
  · refine ⟨hseg₅, ?_, ?_, hn, ?_, ?_, ?_, ?_⟩
    · cases A with
      | nil => rfl
      | cons x A =>
        have hx : last 0 (x :: A) ≠ 0 := by
          obtain ⟨y, hy, hlast⟩ := @last_mem _ 0 (x :: A) (List.cons_ne_nil _ _)
          rw [hlast]
          exact h.seg.pos (List.mem_append_left _ hy)
        dsimp only
        rw [if_neg hx, h.head]
        rfl
    · rw [last_append]
      rfl
    · exact (hperm.map _).nodup_iff.2 h.keys
    · exact h.map.trans (hperm.map _).symm
    · intro q hq
      rw [hlive₅, hlive₂] at hq
      exact (hperm.map _).mem_iff.2 (h.owned q hq)
    · intro x hx
      exact h.rendered x (hperm.mem_iff.1 hx)

/-- The entry at the head is freed; there is one behind it. -/
theorem truncate_holds {e : Nat × StringCacheEntry} (h : Holds render s (e :: l)) (hl : l ≠ [])
    (i : Nat) : ∃ s', Holds render s' l ∧ StringCache.truncate (i + 1) s = s'.truncate i := by
  obtain ⟨x, l', rfl⟩ := List.exists_cons_of_ne_nil hl
  have hn := h.nodup
  rw [List.map_cons, List.nodup_cons] at hn
  have hkeys := h.keys
  rw [List.map_cons, List.nodup_cons] at hkeys
  have hhead : s.string_cache_head = e.1 := h.head
  have he : s.heap.cells e.1 = some ⟨e.2, 0, x.1⟩ := h.seg.1
  have hne : e.1 ≠ x.1 := fun hq => hn.1 (hq ▸ List.mem_cons_self)
  have hset := Heap.setPrev_eq h.seg.2.1 0
  have hseg := (h.seg.2.setPrev_first hn.2 0).free hn.1
  refine ⟨⟨(s.heap.modify x.1 fun n => { n with prev := 0 }).free e.1, hashmapRemove
    s.string_cache e.2.key, x.1, s.string_cache_tail⟩,
    ⟨hseg, rfl, ?_, hn.2, hkeys.2, ?_, ?_, ?_⟩, ?_⟩
  · exact h.tail
  · have hperm := h.map.filter fun y => y.1 ≠ e.2.key
    have hself : ((x :: l').map fun e => (e.2.key, e.1)).filter (fun y => y.1 ≠ e.2.key) =
        (x :: l').map fun e => (e.2.key, e.1) := by
      rw [List.filter_eq_self]
      intro y hy
      obtain ⟨z, hz, rfl⟩ := List.mem_map.1 hy
      have : z.2.key ≠ e.2.key := fun hq => hkeys.1 (hq ▸ List.mem_map_of_mem hz)
      simpa using this
    rw [List.map_cons, List.filter_cons_of_neg (by simp), hself] at hperm
    exact hperm
  · intro q hq
    rw [Heap.cells_free] at hq
    split at hq
    · cases hq
    · rename_i hqe
      rw [Heap.isSome_modify] at hq
      exact (List.mem_cons.1 (h.owned q hq)).resolve_left hqe
  · intro y hy
    exact h.rendered y (List.mem_cons_of_mem _ hy)
  · rw [StringCache.truncate, hhead, he]
    simp only [Option.bind_eq_bind, Option.bind_some, hset]

theorem truncate_drop (h : Holds render s l) {i : Nat} (hi : i < l.length) :
    ∃ s', StringCache.truncate i s = some s' ∧ Holds render s' (l.drop i) := by
  induction i generalizing s l with
  | zero => exact ⟨s, rfl, h⟩
  | succ i ih =>
    cases l with
    | nil => cases hi
    | cons e l =>
      rw [List.length_cons] at hi
      obtain ⟨s', hs', heq⟩ := truncate_holds h (List.ne_nil_of_length_pos (by lia)) i
      rw [heq]
      exact ih hs' (by lia)

theorem insert_holds (entry : StringCacheEntry) (h : Holds render s l)
    (hk : entry.key ∉ l.map fun e => e.2.key)
    (hr : (entry.rendered_bytes, entry.width) = render entry.key.text entry.key.max_width)
    (h0 : 0 ≤ entry.rendered_bytes) :
    ∃ p s', s.insert entry = some (p, s') ∧ p ≠ 0 ∧ Holds render s' (l ++ [(p, entry)]) := by
  have hfresh : ∀ e ∈ l, e.1 ≠ s.heap.next := by
    rintro e he heq
    obtain ⟨n, hn, -⟩ := h.seg.live he
    exact absurd (heq ▸ s.heap.lt_next hn) (Nat.lt_irrefl _)
  have hpl : s.heap.next ∉ l.map Prod.fst := by
    intro hm
    obtain ⟨e, he, heq⟩ := List.mem_map.1 hm
    exact hfresh e he heq
  have hkeys : ((l ++ [(s.heap.next, entry)]).map fun e => e.2.key).Nodup := by
    rw [List.map_append, List.nodup_append]
    refine ⟨h.keys, List.nodup_singleton _, ?_⟩
    rintro a ha b hb rfl
    obtain rfl := List.mem_singleton.1 hb
    exact hk ha
  have hnodup : ((l ++ [(s.heap.next, entry)]).map Prod.fst).Nodup := by
    rw [List.map_append, List.nodup_append]
    refine ⟨h.nodup, List.nodup_singleton _, ?_⟩
    rintro a ha b hb rfl
    obtain rfl := List.mem_singleton.1 hb
    exact hpl ha
  have hmap : (hashmapPut s.string_cache entry.key s.heap.next).Perm
      ((l ++ [(s.heap.next, entry)]).map fun e => (e.2.key, e.1)) := by
    have hself : s.string_cache.filter (fun e => e.1 ≠ entry.key) = s.string_cache := by
      rw [List.filter_eq_self]
      intro y hy
      obtain ⟨z, hz, rfl⟩ := List.mem_map.1 (h.map.mem_iff.1 hy)
      have : z.2.key ≠ entry.key := fun hq => hk (hq ▸ List.mem_map_of_mem hz)
      simpa using this
    rw [hashmapPut, hself, List.map_append]
    exact h.map.append_right _
  have hrendered : ∀ e ∈ l ++ [(s.heap.next, entry)],
      (e.2.rendered_bytes, e.2.width) = render e.2.key.text e.2.key.max_width ∧
        0 ≤ e.2.rendered_bytes := by
    intro e he
    obtain he | he := List.mem_append.1 he
    · exact h.rendered e he
    · obtain rfl := List.mem_singleton.1 he
      exact ⟨hr, h0⟩
  have hp : (s.heap.alloc ⟨entry, 0, 0⟩).cells s.heap.next = some ⟨entry, 0, 0⟩ := by
    rw [Heap.cells_alloc, if_pos rfl]
  have hseg := h.seg.alloc ⟨entry, 0, 0⟩
  have howned : ∀ q, ((s.heap.alloc ⟨entry, 0, 0⟩).cells q).isSome →
      q ∈ (l ++ [(s.heap.next, entry)]).map Prod.fst := by
    intro q hq
    rw [List.map_append, List.mem_append]
    rw [Heap.cells_alloc] at hq
    split at hq
    · rename_i heq
      exact .inr (List.mem_singleton.2 heq)
    · exact .inl (h.owned q hq)
  rw [StringCache.insert]
  by_cases hl : l = []
  · subst hl
    have htail : s.string_cache_tail = 0 := h.tail
    rw [if_neg (not_not_intro htail)]
    exact ⟨_, _, rfl, Nat.ne_of_gt s.heap.next_pos, ⟨hp, trivial⟩, rfl, rfl, hnodup, hkeys, hmap,
      howned, hrendered⟩
  · obtain ⟨y, hy, hlast⟩ := @last_mem _ 0 _ hl
    have htail : s.string_cache_tail ≠ 0 := by
      rw [h.tail, hlast]
      exact h.seg.pos hy
    have hset := Heap.setPrev_eq hp s.string_cache_tail
    have hp₁ := Heap.cells_modify_self (f := fun n => { n with prev := s.string_cache_tail }) hp
    have hseg₁ := hseg.modify hpl fun n => { n with prev := s.string_cache_tail }
    obtain ⟨h₂, hh₂, hseg₂, hout, hlive⟩ := hseg₁.setNext_of_ne_nil hl h.nodup s.heap.next
    rw [← h.tail] at hh₂
    refine ⟨s.heap.next, ⟨h₂, hashmapPut s.string_cache entry.key s.heap.next,
      s.string_cache_head, s.heap.next⟩, ?_, Nat.ne_of_gt s.heap.next_pos, ?_, ?_, ?_, hnodup, hkeys,
      hmap, ?_, hrendered⟩
    · rw [if_pos htail]
      simp only [Option.bind_eq_bind, hset, Option.bind_some, hp₁, hh₂]
    · refine hseg₂.concat ((hout _ hpl).trans (hp₁.trans ?_))
      rw [h.tail]
    · rw [first_append, h.head]
      obtain ⟨x, l', rfl⟩ := List.exists_cons_of_ne_nil hl
      rfl
    · rw [last_append]
      rfl
    · intro q hq
      dsimp only at hq
      rw [hlive, Heap.isSome_modify] at hq
      exact howned q hq

/-! ### What a lookup does -/

/-- The entry that a lookup gets, and the entries after it. -/
inductive Got (render : Text → Int → Int × Int) (k : StringCacheKey)
    (l : List (Nat × StringCacheEntry)) : Nat → List (Nat × StringCacheEntry) → Prop
  | refused : k ∉ (l.map fun e => e.2.key) → (render k.text k.max_width).1 < 0 → Got render k l 0 l
  | added {p : Nat} {d : StringCacheEntry} : k ∉ (l.map fun e => e.2.key) →
      0 ≤ (render k.text k.max_width).1 → p ≠ 0 → d.key = k → Got render k l p (l ++ [(p, d)])
  | last {A : List (Nat × StringCacheEntry)} {p : Nat} {d : StringCacheEntry} : p ≠ 0 →
      d.key = k → l = A ++ [(p, d)] → Got render k l p l
  | moved {A B : List (Nat × StringCacheEntry)} {p : Nat} {d : StringCacheEntry} : p ≠ 0 →
      d.key = k → l = A ++ (p, d) :: B → B ≠ [] → l.length < STRING_CACHE_MAX_ENTRIES →
      Got render k l p (A ++ B ++ [(p, d)])
  | truncated {A B : List (Nat × StringCacheEntry)} {p : Nat} {d : StringCacheEntry} : p ≠ 0 →
      d.key = k → l = A ++ (p, d) :: B → B ≠ [] → STRING_CACHE_MAX_ENTRIES ≤ l.length →
      Got render k l p ((A ++ B).drop STRING_CACHE_TRUNCATE_ENTRIES ++ [(p, d)])

theorem get_got (h : Holds render s l) (k : StringCacheKey) :
    ∃ p s' l', s.gr_ttf_string_cache_get render k = some (p, s') ∧ Got render k l p l' ∧
      Holds render s' l' := by
  rw [StringCache.gr_ttf_string_cache_get]
  cases hget : hashmapGet s.string_cache k with
  | none =>
    have hk := h.get_none hget
    dsimp only
    by_cases hr : (render k.text k.max_width).1 < 0
    · rw [if_pos hr]
      exact ⟨0, s, l, rfl, .refused hk hr, h⟩
    · rw [if_neg hr]
      obtain ⟨p, s', hins, hp, hs'⟩ := insert_holds
        ⟨(render k.text k.max_width).1, (render k.text k.max_width).2, k⟩ h hk rfl (Int.not_lt.1 hr)
      exact ⟨p, s', _, hins, .added hk (Int.not_lt.1 hr) hp rfl, hs'⟩
  | some p =>
    obtain ⟨d, hd, hkey⟩ := h.get_some hget
    have hp0 : p ≠ 0 := h.seg.pos hd
    obtain ⟨A, B, rfl⟩ := List.append_of_mem hd
    have hcell : s.heap.cells p = some ⟨d, Lib.last 0 A, first 0 B⟩ := (seg_append.1 h.seg).2.1
    simp only [hcell, Option.bind_eq_bind, Option.bind_some]
    cases B with
    | nil => exact ⟨p, s, _, rfl, .last hp0 hkey rfl, h⟩
    | cons e B =>
      have he : first 0 (e :: B) ≠ 0 :=
        h.seg.pos (List.mem_append_right _ (List.mem_cons_of_mem _ List.mem_cons_self))
      obtain ⟨s₁, hmove, hs₁⟩ := moveToTail_holds h (List.cons_ne_nil e B)
      have hlen : s₁.string_cache.length = (A ++ (p, d) :: e :: B).length := by
        rw [hs₁.length]
        simp only [List.length_append, List.length_cons, List.length_nil]
        lia
      rw [if_neg he, hmove, Option.bind_some]
      by_cases hmax : STRING_CACHE_MAX_ENTRIES ≤ s₁.string_cache.length
      · obtain ⟨s₂, htrunc, hs₂⟩ := truncate_drop hs₁ (i := STRING_CACHE_TRUNCATE_ENTRIES) (by
          rw [← hs₁.length]
          exact Nat.lt_of_lt_of_le (by decide) hmax)
        have hle : STRING_CACHE_TRUNCATE_ENTRIES ≤ (A ++ e :: B).length := by
          rw [hlen] at hmax
          simp only [List.length_append, List.length_cons, STRING_CACHE_MAX_ENTRIES,
            STRING_CACHE_TRUNCATE_ENTRIES] at hmax ⊢
          lia
        rw [List.drop_append_of_le_length hle] at hs₂
        rw [if_pos hmax, htrunc, Option.bind_some]
        exact ⟨p, s₂, _, rfl, .truncated hp0 hkey rfl (List.cons_ne_nil e B) (hlen ▸ hmax), hs₂⟩
      · rw [if_neg hmax]
        exact ⟨p, s₁, _, rfl, .moved hp0 hkey rfl (List.cons_ne_nil e B)
          (hlen ▸ Nat.lt_of_not_le hmax), hs₁⟩

/-! ### The order of last use -/

theorem dedup_concat {κ : Type} [DecidableEq κ] (history : List κ) (k : κ) :
    (history ++ [k]).dedup = history.dedup.erase k ++ [k] := by
  induction history with
  | nil => rfl
  | cons a history ih =>
    rw [List.cons_append, List.dedup_cons, List.dedup_cons]
    by_cases ha : a ∈ history
    · rw [if_pos (List.mem_append_left _ ha), if_pos ha, ih]
    · rw [if_neg ha]
      by_cases hk : a = k
      · subst hk
        rw [if_pos (List.mem_append_right _ List.mem_cons_self), ih, List.erase_cons_head,
          List.erase_of_not_mem (mt List.mem_dedup.1 ha)]
      · have hm : a ∉ history ++ [k] := by simp [ha, hk]
        rw [if_neg hm, ih, List.erase_cons_tail (by simpa using hk), List.cons_append]

theorem erase_suffix {κ : Type} [DecidableEq κ] {l₁ l₂ : List κ} (h : l₁ <:+ l₂) (hn : l₂.Nodup)
    (k : κ) : l₁.erase k <:+ l₂.erase k := by
  obtain ⟨pre, rfl⟩ := h
  by_cases hk : k ∈ pre
  · have hk₁ : k ∉ l₁ := fun hm => (List.nodup_append.1 hn).2.2 k hk k hm rfl
    rw [List.erase_append_left _ hk, List.erase_of_not_mem hk₁]
    exact List.suffix_append _ _
  · rw [List.erase_append_right _ hk]
    exact List.suffix_append _ _

def keysOf (l : List (Nat × StringCacheEntry)) : List StringCacheKey := l.map fun e => e.2.key

/-- The cache holds what was used last, in the order of the last use: what was evicted is older than
all of it. -/
def Recent (history : List StringCacheKey) (l : List (Nat × StringCacheEntry)) : Prop :=
  keysOf l <:+ history.dedup

theorem erase_middle {κ : Type} [DecidableEq κ] (l₁ l₂ : List κ) (k : κ)
    (hn : (l₁ ++ k :: l₂).Nodup) : (l₁ ++ k :: l₂).erase k = l₁ ++ l₂ := by
  have hk : k ∉ l₁ := fun hm => (List.nodup_append.1 hn).2.2 k hm k List.mem_cons_self rfl
  rw [List.erase_append_right _ hk, List.erase_cons_head]

/-- The entry that is got is the last now, and of the others some of the oldest are gone. -/
theorem Got.keysOf_eq {l' : List (Nat × StringCacheEntry)} (h : Got render k l p l')
    (hn : (keysOf l).Nodup) (hp : p ≠ 0) :
    ∃ n, keysOf l' = ((keysOf l).erase k).drop n ++ [k] := by
  cases h with
  | refused hk hr => exact absurd rfl hp
  | added hk hr _ hkey =>
    have hk : k ∉ keysOf l := hk
    refine ⟨0, ?_⟩
    rw [List.drop_zero, List.erase_of_not_mem hk, keysOf, List.map_append, ← hkey]
    rfl
  | @last A _ d _ hkey hl =>
    refine ⟨0, ?_⟩
    subst hl hkey
    have he := erase_middle (keysOf A) [] d.key (by simpa [keysOf] using hn)
    rw [List.append_nil] at he
    simp only [keysOf, List.map_append, List.map_cons, List.map_nil] at he ⊢
    rw [he, List.drop_zero]
  | @moved A B _ d _ hkey hl =>
    refine ⟨0, ?_⟩
    subst hl hkey
    have he := erase_middle (keysOf A) (keysOf B) d.key
      (by simpa [keysOf] using hn)
    simp only [keysOf, List.map_append, List.map_cons, List.map_nil] at he ⊢
    rw [he, List.drop_zero]
  | @truncated A B _ d _ hkey hl =>
    refine ⟨STRING_CACHE_TRUNCATE_ENTRIES, ?_⟩
    subst hl hkey
    have he := erase_middle (keysOf A) (keysOf B) d.key
      (by simpa [keysOf] using hn)
    simp only [keysOf, List.map_append, List.map_cons, List.map_nil, List.map_drop] at he ⊢
    rw [he]

theorem Recent.got {history : List StringCacheKey} {l' : List (Nat × StringCacheEntry)}
    (hr : Recent history l) (hn : (keysOf l).Nodup) (h : Got render k l p l') (hp : p ≠ 0) :
    Recent (history ++ [k]) l' := by
  obtain ⟨n, hl'⟩ := h.keysOf_eq hn hp
  rw [Recent, hl', dedup_concat]
  obtain ⟨pre, hpre⟩ := (List.drop_suffix n _).trans (erase_suffix hr (List.nodup_dedup _) k)
  exact ⟨pre, by rw [← List.append_assoc, hpre]⟩

/-! ### Runs -/

/-- The entry that was got is in the cache, and is the one that was asked for. -/
def Returned (calls : List Call) (p : Nat) (l : List (Nat × StringCacheEntry)) : Prop :=
  p ≠ 0 → ∃ d, (p, d) ∈ l ∧ ∃ c, calls.getLast? = some c ∧ c.key = some d.key

theorem Got.mem {l' : List (Nat × StringCacheEntry)} (h : Got render k l p l') (hp : p ≠ 0) :
    ∃ d, (p, d) ∈ l' ∧ d.key = k := by
  cases h with
  | refused => exact absurd rfl hp
  | added _ _ _ hkey => exact ⟨_, List.mem_append_right _ List.mem_cons_self, hkey⟩
  | last _ hkey hl => exact ⟨_, hl ▸ List.mem_append_right _ List.mem_cons_self, hkey⟩
  | moved _ hkey => exact ⟨_, List.mem_append_right _ List.mem_cons_self, hkey⟩
  | truncated _ hkey => exact ⟨_, List.mem_append_right _ List.mem_cons_self, hkey⟩

/-- An entry that is got can be rendered. -/
theorem Holds.got_rendered {l' : List (Nat × StringCacheEntry)} (h : Holds render s' l')
    (hg : Got render k l p l') (hp : p ≠ 0) : 0 ≤ (render k.text k.max_width).1 := by
  obtain ⟨d, hd, rfl⟩ := hg.mem hp
  obtain ⟨hr, h0⟩ := h.rendered _ hd
  rw [← hr]
  exact h0

/-- One that is not got cannot, and nothing happens. -/
theorem Got.refused_of_zero {l' : List (Nat × StringCacheEntry)} (h : Got render k l 0 l') :
    (render k.text k.max_width).1 < 0 ∧ l' = l := by
  cases h with
  | refused _ hr => exact ⟨hr, rfl⟩
  | added _ _ hp => exact absurd rfl hp
  | last hp => exact absurd rfl hp
  | moved hp => exact absurd rfl hp
  | truncated hp => exact absurd rfl hp

theorem used_concat (calls : List Call) (c : Call) :
    used render (calls ++ [c]) = used render calls ++
      (c.key.toList.filter fun k => 0 ≤ (render k.text k.max_width).1) := by
  rw [used, List.filterMap_append, List.filter_append, used]
  cases hc : c.key <;> simp [hc]

theorem run_concat (calls : List Call) (c : Call) :
    run render (calls ++ [c]) = (run render calls).bind fun s => s.2.call render c := by
  rw [run, List.foldlM_append, run]
  cases calls.foldlM (fun s c => s.2.call render c) (0, StringCache.empty) with
  | none => rfl
  | some s => simp

/-- Every run. -/
theorem run_holds (render : Text → Int → Int × Int) (calls : List Call) :
    ∃ p s l, run render calls = some (p, s) ∧ Holds render s l ∧ Recent (used render calls) l ∧
      Returned calls p l := by
  induction calls using List.reverseRecOn with
  | nil => exact ⟨0, .empty, [], rfl, holds_empty, List.nil_suffix, fun hp => absurd rfl hp⟩
  | append_singleton calls c ih =>
    obtain ⟨p, s, l, hrun, hs, hrecent, -⟩ := ih
    rw [run_concat, hrun, Option.bind_some, used_concat, StringCache.call]
    cases hc : c.key with
    | none =>
      refine ⟨0, s, l, rfl, hs, ?_, fun hp => absurd rfl hp⟩
      rwa [Option.toList_none, List.filter_nil, List.append_nil]
    | some k =>
      obtain ⟨p', s', l', hget, hgot, hs'⟩ := get_got hs k
      refine ⟨p', s', l', hget, hs', ?_, ?_⟩
      · by_cases hp : p' = 0
        · subst hp
          obtain ⟨hr, rfl⟩ := hgot.refused_of_zero
          have hr : ¬ 0 ≤ (render k.text k.max_width).1 := Int.not_le.2 hr
          simpa [hr] using hrecent
        · have hr := hs'.got_rendered hgot hp
          simpa [hr] using hrecent.got hs.keys hgot hp
      · intro hp
        obtain ⟨d, hd, rfl⟩ := hgot.mem hp
        exact ⟨d, hd, c, List.getLast?_concat, hc⟩

/-- What the cache is meant to be after some calls. -/
def WellKept (render : Text → Int → Int × Int) (calls : List Call) : Prop :=
  ∃ p s l, run render calls = some (p, s) ∧ Holds render s l ∧ Recent (used render calls) l ∧
    Returned calls p l ∧ s.string_cache.length ≤ STRING_CACHE_MAX_ENTRIES

/-- A text that is not in the cache is rendered while the cache is full. -/
def StringCache.Overfills (render : Text → Int → Int × Int) (s : StringCache) (c : Call) : Prop :=
  ∃ k, c.key = some k ∧ hashmapGet s.string_cache k = none ∧
    0 ≤ (render k.text k.max_width).1 ∧ STRING_CACHE_MAX_ENTRIES ≤ s.string_cache.length

/-- One call: the cache grows only by an entry that it did not have. -/
theorem Got.length_le {l' : List (Nat × StringCacheEntry)} (h : Got render k l p l') :
    l'.length ≤ l.length ∨ k ∉ keysOf l ∧ 0 ≤ (render k.text k.max_width).1 ∧
      l'.length = l.length + 1 := by
  cases h with
  | refused => exact .inl (Nat.le_refl _)
  | added hk hr => exact .inr ⟨hk, hr, by simp⟩
  | last => exact .inl (Nat.le_refl _)
  | moved _ _ hl =>
    subst hl
    left
    simp only [List.length_append, List.length_cons, List.length_nil]
    lia
  | truncated _ _ hl =>
    subst hl
    left
    simp only [List.length_append, List.length_cons, List.length_nil, List.length_drop]
    lia

theorem Holds.get_eq_none (h : Holds render s l) :
    hashmapGet s.string_cache k = none ↔ k ∉ keysOf l := by
  refine ⟨h.get_none, fun hk => ?_⟩
  cases hget : hashmapGet s.string_cache k with
  | none => rfl
  | some p =>
    obtain ⟨d, hd, rfl⟩ := h.get_some hget
    exact absurd (List.mem_map_of_mem hd) hk

theorem Got.added_keys {l' : List (Nat × StringCacheEntry)} (h : Got render k l p l')
    (hk : k ∉ keysOf l) (hr : 0 ≤ (render k.text k.max_width).1) :
    keysOf l' = keysOf l ++ [k] := by
  have hmem : ∀ {A B : List (Nat × StringCacheEntry)} {p d}, d.key = k →
      l = A ++ (p, d) :: B → False := by
    rintro A B p d rfl rfl
    exact hk (List.mem_map_of_mem (List.mem_append_right _ List.mem_cons_self))
  cases h with
  | refused _ hneg => exact absurd hr (Int.not_le.2 hneg)
  | added _ _ _ hkey =>
    rw [keysOf, List.map_append, ← hkey]
    rfl
  | last _ hkey hl => exact (hmem hkey hl).elim
  | moved _ hkey hl => exact (hmem hkey hl).elim
  | truncated _ hkey hl => exact (hmem hkey hl).elim

theorem length_keysOf : (keysOf l).length = l.length := List.length_map _

/-- **The cache is well kept** after every call of a run, its bound included, exactly when no text
is added to a full cache. -/
theorem string_cache_bounded (render : Text → Int → Int × Int) (calls : List Call) :
    (∀ pre, pre <+: calls → WellKept render pre) ↔
      ∀ pre c p s, pre ++ [c] <+: calls → run render pre = some (p, s) →
        ¬ s.Overfills render c := by
  constructor
  · rintro h pre c p s hpre hrun ⟨k, hc, hget, hr, hfull⟩
    obtain ⟨p', s', l', hrun', hs', -, -, hle⟩ := h _ hpre
    obtain ⟨p₀, s₀, l, hrun₀, hs, -⟩ := run_holds render pre
    cases hrun.symm.trans hrun₀
    obtain ⟨p₁, s₁, l₁, hget₁, hgot, hs₁⟩ := get_got hs k
    rw [run_concat, hrun, Option.bind_some, StringCache.call, hc] at hrun'
    cases hget₁.symm.trans hrun'
    have hkeys := congrArg List.length (hgot.added_keys (hs.get_eq_none.1 hget) hr)
    rw [List.length_append, List.length_singleton, length_keysOf, length_keysOf] at hkeys
    rw [hs.length] at hfull
    rw [hs₁.length] at hle
    omega
  · intro h pre
    induction pre using List.reverseRecOn with
    | nil => exact fun _ => ⟨0, .empty, [], rfl, holds_empty, List.nil_suffix,
        fun hp => absurd rfl hp, Nat.zero_le _⟩
    | append_singleton pre c ih =>
      intro hpre
      obtain ⟨p, s, l, hrun, hs, -, -, hle⟩ := ih ((List.prefix_append _ _).trans hpre)
      obtain ⟨p', s', l', hrun', hs', hrecent, hret⟩ := run_holds render (pre ++ [c])
      refine ⟨p', s', l', hrun', hs', hrecent, hret, ?_⟩
      rw [run_concat, hrun, Option.bind_some, StringCache.call] at hrun'
      cases hc : c.key with
      | none =>
        rw [hc] at hrun'
        cases hrun'
        exact hle
      | some k =>
        rw [hc] at hrun'
        obtain ⟨p₁, s₁, l₁, hget₁, hgot, hs₁⟩ := get_got hs k
        cases hget₁.symm.trans hrun'
        rw [hs.length] at hle
        rw [hs₁.length]
        obtain hl | ⟨hk, hr, hl⟩ := hgot.length_le
        · omega
        · have hfull : ¬ STRING_CACHE_MAX_ENTRIES ≤ l.length := fun hfull =>
            h pre c p s hpre hrun ⟨k, hc, hs.get_eq_none.2 hk, hr, by rwa [hs.length]⟩
          omega

/-- Texts that are all different stay in the cache, however many they are. -/
theorem run_different (render : Text → Int → Int × Int) (texts : List Text) (hn : texts.Nodup)
    (hr : ∀ text ∈ texts, 0 ≤ (render text (-1)).1) :
    ∃ p s l, run render (texts.map .measureEx) = some (p, s) ∧ Holds render s l ∧
      keysOf l = texts.map fun text => ⟨text, -1⟩ := by
  induction texts using List.reverseRecOn with
  | nil => exact ⟨0, .empty, [], rfl, holds_empty, rfl⟩
  | append_singleton texts text ih =>
    obtain ⟨hn, -, hdisj⟩ := List.nodup_append.1 hn
    obtain ⟨p, s, l, hrun, hs, hkeys⟩ := ih hn fun t ht => hr t (List.mem_append_left _ ht)
    obtain ⟨p', s', l', hget, hgot, hs'⟩ := get_got hs ⟨text, -1⟩
    have hk : ⟨text, -1⟩ ∉ keysOf l := by
      rw [hkeys]
      intro hm
      obtain ⟨t, ht, heq⟩ := List.mem_map.1 hm
      obtain rfl := (StringCacheKey.mk.inj heq).1
      exact hdisj t ht t (List.mem_singleton_self _) rfl
    refine ⟨p', s', l', ?_, hs', ?_⟩
    · rw [List.map_append, List.map_singleton, run_concat, hrun, Option.bind_some]
      exact hget
    · rw [hgot.added_keys hk (hr text (List.mem_append_right _ List.mem_cons_self)), hkeys,
        List.map_append, List.map_singleton]

/-- Four hundred and one different texts are measured. -/
theorem missing_grows : ¬ ∀ render calls, WellKept render calls := by
  intro h
  have hz : ∀ n, (0 : UInt8) ∉ List.replicate n (97 : UInt8) := by
    intro n hm
    exact absurd (List.eq_of_mem_replicate hm) (by decide)
  let texts : List Text := (List.range 401).map fun n => ⟨List.replicate n 97, hz n⟩
  have hn : texts.Nodup := by
    refine List.nodup_range.map ?_
    intro n m heq
    simpa using congrArg (fun t : Text => t.bytes.length) heq
  obtain ⟨p, s, l, hrun, hs, hkeys⟩ := run_different (fun _ _ => (0, 0)) texts hn
    fun _ _ => Int.le_refl 0
  obtain ⟨p', s', l', hrun', -, -, -, hle⟩ := h (fun _ _ => (0, 0)) (texts.map .measureEx)
  cases hrun.symm.trans hrun'
  rw [hs.length, ← length_keysOf, hkeys, List.length_map, List.length_map, List.length_range] at hle
  exact absurd hle (by decide)

end Recovery.MinuiTwrp
