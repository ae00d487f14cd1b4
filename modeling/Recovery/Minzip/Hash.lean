import Mathlib.Data.List.Nodup
import Mathlib.Data.List.Perm.Basic
import Mathlib.Logic.Function.Basic
import Recovery.Lib.Probe

/-!
# The hash table (`minzip/Hash.c`)

Open addressing with linear probing: an addition that makes the table too full rebuilds it with twice
the size, which also gets rid of the tombstones.

* `HashTable` — entries that are unused, removed (a tombstone) or hold an item with its hash value.
* `mzHashTableCreate`, `mzHashTableLookup`, `mzHashTableRemove`, `mzHashForeach`, `resizeHash` — the
  functions of the source; `none` is an assertion that fails, a search that leaves the table or
  one that never ends, or an `int` that overflows.
* `Inv` — each item can be reached from its place, and at least three of eight entries are unused.
* `roundUpPower2_spec` — the next power of two.
* `add_spec`, `remove_spec`, `lookup_spec` — one call, and what it does to the map.
* `hash_table_spec` — over runs, a table is a finite map.

Sizes and counts are `int`: the load test multiplies the size by 5, which overflows from 2^29 on.
Memory for a table is taken to be there, but for the sizes that are negative as an `int`.
-/

set_option autoImplicit false

namespace Recovery.Minzip

open Recovery.Lib

def LOAD_NUMER : Nat := 5
def LOAD_DENOM : Nat := 8

inductive HashEntry (α : Type) where
  | null
  | tombstone
  | item (hashValue : Nat) (data : α)

structure HashTable (α : Type) where
  pEntries : List (HashEntry α)
  numEntries : Nat
  numDeadEntries : Nat

variable {α κ : Type}

namespace HashEntry

def isNull : HashEntry α → Bool
  | null => true
  | _ => false

def isTombstone : HashEntry α → Bool
  | tombstone => true
  | _ => false

def item? : HashEntry α → Option (Nat × α)
  | item hashValue data => some (hashValue, data)
  | _ => none

end HashEntry

def HashTable.tableSize (t : HashTable α) : Nat := t.pEntries.length

/-- The capacity for `size` elements. -/
def mzHashSize (size : Nat) : Nat := size * LOAD_DENOM % 2 ^ 64 / LOAD_NUMER + 1

def roundUpPower2 (val : UInt32) : UInt32 :=
  let val := val - 1
  let val := val ||| (val >>> 1)
  let val := val ||| (val >>> 2)
  let val := val ||| (val >>> 4)
  let val := val ||| (val >>> 8)
  let val := val ||| (val >>> 16)
  val + 1

/-- A result of `int` arithmetic that is not negative. -/
def int (n : Nat) : Option Nat := if n < 2 ^ 31 then some n else none

/-- `mzHashTableCreate`; the second `none` is `NULL`. -/
def mzHashTableCreate (α : Type) (initialSize : Nat) : Option (Option (HashTable α)) := do
  guard (initialSize > 0)
  let tableSize := (roundUpPower2 (.ofNat initialSize)).toNat
  -- a negative size is too much for `calloc`
  if tableSize < 2 ^ 31 then some (some ⟨List.replicate tableSize .null, 0, 0⟩) else some none

def countTombStones (entries : List (HashEntry α)) : Nat := entries.countP HashEntry.isTombstone

/-- The place where a search begins. -/
def home (entries : List (HashEntry α)) (itemHash : Nat) : Nat := itemHash &&& (entries.length - 1)

/-- The loop over the entries, from the place of a hash value on. -/
def search (stop : HashEntry α → Bool) (entries : List (HashEntry α)) (itemHash : Nat) :
    Option Nat :=
  probe (fun i => stop (entries.getD i .null)) entries.length entries.length (home entries itemHash)

/-- The loop of `resizeHash`. -/
def rehash : List (HashEntry α) → List (HashEntry α) → Option (List (HashEntry α))
  | [], new => some new
  | .item hashValue data :: old, new => do
    let i ← search HashEntry.isNull new hashValue
    rehash old (new.set i (.item hashValue data))
  | _ :: old, new => rehash old new

def resizeHash (t : HashTable α) (newSize : Nat) : Option (HashTable α) := do
  guard (countTombStones t.pEntries = t.numDeadEntries)
  let new ← rehash t.pEntries (List.replicate newSize .null)
  guard (countTombStones new = 0)
  some ⟨new, t.numEntries, 0⟩

/-- The entry that a lookup stops at. -/
def matching (cmpFunc : α → α → Bool) (itemHash : Nat) (x : α) : HashEntry α → Bool
  | .null => true
  | .tombstone => false
  | .item hashValue data => hashValue == itemHash && cmpFunc data x

/-- The result is the item that is found or added, if there is one. -/
def mzHashTableLookup (t : HashTable α) (itemHash : Nat) (x : α) (cmpFunc : α → α → Bool)
    (doAdd : Bool) : Option (Option α × HashTable α) := do
  let i ← search (matching cmpFunc itemHash x) t.pEntries itemHash
  match t.pEntries.getD i .null with
  | .null =>
    if doAdd then
      let t := ⟨t.pEntries.set i (.item itemHash x), t.numEntries + 1, t.numDeadEntries⟩
      let load ← int ((t.numEntries + t.numDeadEntries) * LOAD_DENOM)
      let limit ← int (t.tableSize * LOAD_NUMER)
      let t ← if load > limit then (int (t.tableSize * 2)).bind (resizeHash t) else some t
      guard (t.numEntries < t.tableSize)
      some (some x, t)
    else some (none, t)
  | .item _ data => some (some data, t)
  | .tombstone => none

/-- The entry that a removal stops at: items are compared as pointers. -/
def holding [DecidableEq α] (x : α) : HashEntry α → Bool
  | .null => true
  | .tombstone => false
  | .item _ data => data = x

def mzHashTableRemove [DecidableEq α] (t : HashTable α) (itemHash : Nat) (x : α) :
    Option (Bool × HashTable α) := do
  let i ← search (holding x) t.pEntries itemHash
  match t.pEntries.getD i .null with
  | .item _ _ =>
    some (true, ⟨t.pEntries.set i .tombstone, t.numEntries - 1, t.numDeadEntries + 1⟩)
  | _ => some (false, t)

/-- The items with their hash values, in the order of the table. -/
def items (entries : List (HashEntry α)) : List (Nat × α) := entries.filterMap HashEntry.item?

/-- The calls of `func`, up to the first that returns something else than zero. -/
def mzHashForeach (t : HashTable α) (func : α → Int) : List α × Int :=
  ((items t.pEntries).map Prod.snd).foldl
    (fun r x => if r.2 = 0 then (r.1 ++ [x], func x) else r) ([], 0)

/-! ## The size of a table -/

/-- A bit of `y` is set when one of the `n` bits of `x` from there on is. -/
def Smears (x y n : Nat) : Prop := ∀ i, y.testBit i = true ↔ ∃ d < n, x.testBit (i + d) = true

theorem Smears.refl (x : Nat) : Smears x x 1 := fun i => by simp

theorem Smears.double {x y n : Nat} (h : Smears x y n) : Smears x (y ||| y >>> n) (2 * n) := by
  intro i
  rw [Nat.testBit_or, Nat.testBit_shiftRight, Bool.or_eq_true, h, h]
  constructor
  · rintro (⟨d, hd, hx⟩ | ⟨d, hd, hx⟩)
    · exact ⟨d, by omega, hx⟩
    · exact ⟨n + d, by omega, by rwa [← Nat.add_assoc, Nat.add_comm i n]⟩
  · rintro ⟨d, hd, hx⟩
    by_cases hn : d < n
    · exact .inl ⟨d, hn, hx⟩
    · refine .inr ⟨d - n, by omega, ?_⟩
      rwa [show n + i + (d - n) = i + d by omega]

/-- All bits below the highest one are set. -/
theorem Smears.eq {x y : Nat} (hx : x < 2 ^ 32) (h : Smears x y 32) :
    ∃ k ≤ 32, y = 2 ^ k - 1 ∧ x < 2 ^ k ∧ 2 ^ k ≤ 2 * x + 1 := by
  by_cases h0 : x = 0
  · refine ⟨0, by simp, Nat.eq_of_testBit_eq fun i => ?_, by simp [h0], by simp [h0]⟩
    have hno : ¬ ∃ d < 32, x.testBit (i + d) = true := by simp [h0]
    simpa using (h i).not.2 hno
  · have hlt : x < 2 ^ (x.log2 + 1) := Nat.lt_log2_self
    have hlog : x.log2 < 32 := (Nat.log2_lt h0).2 hx
    refine ⟨x.log2 + 1, hlog, Nat.eq_of_testBit_eq fun i => ?_, hlt, ?_⟩
    · rw [Nat.testBit_two_pow_sub_one, Bool.eq_iff_iff, h, decide_eq_true_iff]
      constructor
      · rintro ⟨d, -, hd⟩
        by_contra hi
        rw [Nat.testBit_lt_two_pow (Nat.lt_of_lt_of_le hlt
          (Nat.pow_le_pow_right (by decide) (show x.log2 + 1 ≤ i + d by omega)))] at hd
        cases hd
      · intro hi
        refine ⟨x.log2 - i, by omega, ?_⟩
        rw [Nat.add_sub_cancel' (by omega)]
        exact Nat.testBit_log2 h0
    · have hle : 2 ^ x.log2 ≤ x := Nat.log2_self_le h0
      rw [Nat.pow_succ]
      omega

/-- **The least power of two** that is not below the value. -/
theorem roundUpPower2_spec (val : UInt32) (h0 : 0 < val.toNat) (hmax : val.toNat ≤ 2 ^ 31) :
    ∃ k, (roundUpPower2 val).toNat = 2 ^ k ∧ val.toNat ≤ 2 ^ k ∧ 2 ^ k < 2 * val.toNat := by
  have hsub : (val - 1).toNat = val.toNat - 1 :=
    UInt32.toNat_sub_of_le _ _ (UInt32.le_iff_toNat_le.2 h0)
  have hsmear := (Smears.refl (val - 1).toNat).double.double.double.double.double
  obtain ⟨k, hk, heq, hlt, hle⟩ := hsmear.eq (by omega)
  have hround : (roundUpPower2 val).toNat = (2 ^ k - 1 + 1) % 2 ^ 32 := by
    rw [← heq, roundUpPower2, UInt32.toNat_add]
    simp only [UInt32.toNat_or, UInt32.toNat_shiftRight]
    rfl
  have hpos : 0 < 2 ^ k := Nat.two_pow_pos k
  refine ⟨k, ?_, by omega, by omega⟩
  rw [hround, Nat.sub_add_cancel hpos, Nat.mod_eq_of_lt]
  omega

/-! ## Entries -/

theorem items_set {entries : List (HashEntry α)} {i : Nat} (hi : i < entries.length)
    (e : HashEntry α) : ∃ before after, items entries = before ++ entries[i].item?.toList ++ after ∧
      items (entries.set i e) = before ++ e.item?.toList ++ after := by
  refine ⟨items (entries.take i), items (entries.drop (i + 1)), ?_, ?_⟩
  · conv_lhs => rw [← List.take_append_drop i entries, ← List.getElem_cons_drop hi]
    rw [items, items, List.filterMap_append, List.filterMap_cons]
    cases entries[i].item? <;> simp [items]
  · rw [List.set_eq_take_append_cons_drop, if_pos hi, items, List.filterMap_append,
      List.filterMap_cons]
    cases e.item? <;> simp [items]

/-- Storing an item at an entry without one. -/
theorem items_store {entries : List (HashEntry α)} {i : Nat} (hi : i < entries.length)
    (hfree : entries[i].item? = none) (h : Nat) (x : α) :
    (items (entries.set i (.item h x))).Perm ((h, x) :: items entries) := by
  obtain ⟨before, after, hold, hnew⟩ := items_set hi (.item h x)
  rw [hnew, hold, hfree]
  simp [HashEntry.item?]

/-- Removing an item. -/
theorem items_remove {entries : List (HashEntry α)} {i h : Nat} {x : α} (hi : i < entries.length)
    (hitem : entries[i].item? = some (h, x)) :
    (items entries).Perm ((h, x) :: items (entries.set i .tombstone)) := by
  obtain ⟨before, after, hold, hnew⟩ := items_set hi .tombstone
  rw [hnew, hold, hitem]
  simp [HashEntry.item?]

theorem mem_items {entries : List (HashEntry α)} {h : Nat} {x : α} :
    (h, x) ∈ items entries ↔ ∃ i, ∃ hi : i < entries.length, entries[i].item? = some (h, x) := by
  rw [items, List.mem_filterMap]
  constructor
  · rintro ⟨e, he, hitem⟩
    obtain ⟨i, hi, rfl⟩ := List.getElem_of_mem he
    exact ⟨i, hi, hitem⟩
  · rintro ⟨i, hi, hitem⟩
    exact ⟨_, List.getElem_mem hi, hitem⟩

theorem length_items_add (entries : List (HashEntry α)) :
    (items entries).length + countTombStones entries + entries.countP HashEntry.isNull =
      entries.length := by
  induction entries with
  | nil => rfl
  | cons e entries ih =>
    unfold items countTombStones at ih ⊢
    rw [List.filterMap_cons, List.countP_cons, List.countP_cons, List.length_cons, ← ih]
    cases e <;> simp [HashEntry.item?, HashEntry.isTombstone, HashEntry.isNull] <;> omega

/-- An entry that a search does not pass without stopping. -/
def Taken (entries : List (HashEntry α)) (k : Nat) : Prop :=
  (entries.getD k .null).isNull = false

/-- Each item can be reached from the place of its hash value. -/
def Chained (entries : List (HashEntry α)) : Prop :=
  ∀ i (hi : i < entries.length) h x, entries[i].item? = some (h, x) →
    Occupied (Taken entries) entries.length (home entries h) i

theorem getD_eq {entries : List (HashEntry α)} {i : Nat} (hi : i < entries.length) :
    entries.getD i .null = entries[i] := by
  rw [List.getD_eq_getElem?_getD, List.getElem?_eq_getElem hi, Option.getD_some]

theorem taken_of_item {entries : List (HashEntry α)} {i h : Nat} {x : α} (hi : i < entries.length)
    (hitem : entries[i].item? = some (h, x)) : Taken entries i := by
  rw [Taken, getD_eq hi]
  cases he : entries[i] <;> simp_all [HashEntry.item?, HashEntry.isNull]

/-- A taken entry stays taken. -/
theorem Taken.set {entries : List (HashEntry α)} {i k : Nat} {e : HashEntry α}
    (h : Taken entries k) (hk : k < entries.length) (he : e.isNull = false) :
    Taken (entries.set i e) k := by
  have hk' : k < (entries.set i e).length := by rwa [List.length_set]
  rw [Taken, getD_eq hk', List.getElem_set]
  rw [Taken, getD_eq hk] at h
  split
  · exact he
  · exact h

/-- What is stored or removed can be reached, when the other items can. -/
theorem Chained.set {entries : List (HashEntry α)} {i : Nat} {e : HashEntry α}
    (hc : Chained entries) (he : e.isNull = false)
    (hreach : ∀ h x, e.item? = some (h, x) →
      Occupied (Taken entries) entries.length (home entries h) i) :
    Chained (entries.set i e) := by
  intro j hj h x hitem
  rw [List.length_set] at hj
  have hold : Occupied (Taken entries) entries.length (home entries h) j := by
    rw [List.getElem_set] at hitem
    split at hitem
    · rename_i hij
      exact hij ▸ hreach h x hitem
    · exact hc j hj h x hitem
  rw [home, List.length_set]
  exact hold.mono fun k hk htaken => htaken.set hk he

variable {entries : List (HashEntry α)} {stop : HashEntry α → Bool} {itemHash : Nat}

theorem home_lt {n : Nat} (hpow : entries.length = 2 ^ n) :
    home entries itemHash < entries.length := by
  rw [home, hpow, Nat.and_two_pow_sub_one_eq_mod]
  exact Nat.mod_lt _ (Nat.two_pow_pos n)

/-- **A search ends** at an entry that can be reached, and misses no item. -/
theorem search_spec (stop : HashEntry α → Bool) (itemHash : Nat) {n : Nat}
    (hpow : entries.length = 2 ^ n) (hc : Chained entries)
    (hfree : 0 < entries.countP HashEntry.isNull) (hnull : stop .null = true) :
    ∃ i, ∃ hi : i < entries.length, search stop entries itemHash = some i ∧
      stop entries[i] = true ∧ Occupied (Taken entries) entries.length (home entries itemHash) i ∧
      ∀ x, (itemHash, x) ∈ items entries → stop (.item itemHash x) = true →
        entries[i].isNull = false := by
  have hhome : home entries itemHash < entries.length := home_lt hpow
  obtain ⟨e, he, hisNull⟩ := List.countP_pos_iff.1 hfree
  obtain ⟨k, hk, rfl⟩ := List.getElem_of_mem he
  have hstopNull : ∀ e : HashEntry α, stop e = false → e.isNull = false := by
    intro e hgo
    cases e with
    | null => rw [hnull] at hgo; cases hgo
    | tombstone => rfl
    | item _ _ => rfl
  have hstop : stop (entries.getD k .null) = true := by
    rw [getD_eq hk]
    cases hs : stop entries[k] with
    | true => rfl
    | false => rw [hstopNull _ hs] at hisNull; cases hisNull
  obtain ⟨i, hprobe⟩ : ∃ i, search stop entries itemHash = some i :=
    exists_probe hhome hk hstop (ahead_lt hhome hk)
  obtain ⟨hi, hstopi, -⟩ := probe_spec hhome hprobe
  rw [getD_eq hi] at hstopi
  refine ⟨i, hi, hprobe, hstopi, occupied_of_probe hhome (fun j _ => hstopNull _) hprobe, ?_⟩
  intro x hx hstopx
  obtain ⟨j, hj, hitem⟩ := mem_items.1 hx
  have heq : entries[j] = .item itemHash x := by
    cases he : entries[j] <;> simp_all [HashEntry.item?]
  have htaken := (hc j hj _ x hitem).probe hhome hj (taken_of_item hj hitem)
    (by rw [getD_eq hj, heq]; exact hstopx) hprobe
  rwa [Taken, getD_eq hi] at htaken

/-! ## The operations -/

/-- What a table keeps: `key` tells items apart, and each has the hash value of its key. -/
structure Inv (key : α → κ) (hash : κ → Nat) (t : HashTable α) : Prop where
  pow : ∃ n, t.pEntries.length = 2 ^ n
  entries : (items t.pEntries).length = t.numEntries
  dead : countTombStones t.pEntries = t.numDeadEntries
  load : (t.numEntries + t.numDeadEntries) * LOAD_DENOM ≤ t.pEntries.length * LOAD_NUMER
  chained : Chained t.pEntries
  hashed : ∀ e ∈ items t.pEntries, e.1 = hash (key e.2)
  distinct : ((items t.pEntries).map fun e => key e.2).Nodup

/-- The finite map that a table stands for. -/
def Represents (key : α → κ) (t : HashTable α) (f : κ → Option α) : Prop :=
  ∀ k x, f k = some x ↔ key x = k ∧ x ∈ (items t.pEntries).map Prod.snd

variable {key : α → κ} {hash : κ → Nat} {t : HashTable α} {f : κ → Option α}

theorem Inv.free (hi : Inv key hash t) : 0 < t.pEntries.countP HashEntry.isNull := by
  obtain ⟨n, hn⟩ := hi.pow
  have hpos := Nat.two_pow_pos n
  have hload := hi.load
  have hcount := length_items_add t.pEntries
  rw [hi.entries, hi.dead] at hcount
  unfold LOAD_DENOM LOAD_NUMER at hload
  omega

theorem not_item {e : HashEntry α} (h : e.isNull = true) : e.item? = none := by
  cases e <;> simp_all [HashEntry.isNull, HashEntry.item?]

theorem countTombStones_store {i h : Nat} {x : α} (hi : i < entries.length)
    (hnull : entries[i].isNull = true) :
    countTombStones (entries.set i (.item h x)) = countTombStones entries := by
  unfold countTombStones
  rw [List.countP_set hi]
  cases he : entries[i] <;> simp_all [HashEntry.isNull, HashEntry.isTombstone]

/-- The loop of `resizeHash` stores every item again. -/
theorem rehash_spec {n : Nat} : ∀ (old new : List (HashEntry α)), new.length = 2 ^ n →
    Chained new → countTombStones new = 0 →
    (items new).length + (items old).length < new.length →
    ∃ new', rehash old new = some new' ∧ new'.length = 2 ^ n ∧ Chained new' ∧
      countTombStones new' = 0 ∧ (items new').Perm (items old ++ items new)
  | [], new, hpow, hc, hdead, _ => ⟨new, rfl, hpow, hc, hdead, by simp [items]⟩
  | .null :: old, new, hpow, hc, hdead, hroom => rehash_spec old new hpow hc hdead hroom
  | .tombstone :: old, new, hpow, hc, hdead, hroom => rehash_spec old new hpow hc hdead hroom
  | .item h x :: old, new, hpow, hc, hdead, hroom => by
    have hold : items (.item h x :: old) = (h, x) :: items old := rfl
    rw [hold, List.length_cons] at hroom
    have hcount := length_items_add new
    obtain ⟨i, hi, hsearch, hstop, hreach, -⟩ :=
      search_spec HashEntry.isNull h hpow hc (by omega) rfl
    have hperm := items_store hi (not_item hstop) h x
    have hdead' : countTombStones (new.set i (.item h x)) = 0 := by
      rw [countTombStones_store hi hstop, hdead]
    obtain ⟨new', hrehash, hlen, hc', hdead', hitems⟩ :=
      rehash_spec old (new.set i (.item h x)) (by rw [List.length_set, hpow])
        (hc.set rfl fun h' x' he => by cases he; exact hreach) hdead'
        (by rw [hperm.length_eq, List.length_set, List.length_cons]; omega)
    refine ⟨new', by rw [rehash, hsearch]; exact hrehash, hlen, hc', hdead', ?_⟩
    calc (items new').Perm (items old ++ items (new.set i (.item h x))) := hitems
      _ |>.Perm (items old ++ ((h, x) :: items new)) := hperm.append_left _
      _ |>.Perm ((h, x) :: (items old ++ items new)) := List.perm_middle

theorem chained_replicate (m : Nat) : Chained (List.replicate m (.null : HashEntry α)) := by
  intro i hi h x hitem
  rw [List.getElem_replicate] at hitem
  cases hitem

theorem items_replicate (m : Nat) : items (List.replicate m (.null : HashEntry α)) = [] := by
  rw [items, List.filterMap_replicate_of_none rfl]

theorem countTombStones_replicate (m : Nat) :
    countTombStones (List.replicate m (.null : HashEntry α)) = 0 := by
  rw [countTombStones, List.countP_replicate]
  rfl

/-- **A table that has become too full** is rebuilt with twice the size. -/
theorem resizeHash_spec {n : Nat} (hpow : t.pEntries.length = 2 ^ n)
    (hdead : countTombStones t.pEntries = t.numDeadEntries) :
    ∃ t', resizeHash t (t.tableSize * 2) = some t' ∧ t'.pEntries.length = 2 ^ (n + 1) ∧
      Chained t'.pEntries ∧ countTombStones t'.pEntries = t'.numDeadEntries ∧
      t'.numEntries = t.numEntries ∧ t'.numDeadEntries = 0 ∧
      (items t'.pEntries).Perm (items t.pEntries) := by
  have hcount := length_items_add t.pEntries
  have hpos := Nat.two_pow_pos n
  have hsize : t.tableSize * 2 = 2 ^ (n + 1) := by rw [HashTable.tableSize, hpow, Nat.pow_succ]
  obtain ⟨new, hrehash, hlen, hc, hnone, hperm⟩ := rehash_spec (n := n + 1) t.pEntries
    (List.replicate (t.tableSize * 2) .null) (by rw [List.length_replicate, hsize])
    (chained_replicate _) (countTombStones_replicate _)
    (by rw [items_replicate, List.length_replicate, List.length_nil, HashTable.tableSize]; omega)
  rw [items_replicate, List.append_nil] at hperm
  refine ⟨⟨new, t.numEntries, 0⟩, ?_, hlen, hc, hnone, rfl, rfl, hperm⟩
  rw [resizeHash, hrehash]
  simp [hdead, hnone, guard]

theorem mem_snd_iff (hi : Inv key hash t) {x : α} :
    x ∈ (items t.pEntries).map Prod.snd ↔ (hash (key x), x) ∈ items t.pEntries := by
  rw [List.mem_map]
  constructor
  · rintro ⟨⟨h, y⟩, hmem, rfl⟩
    have hh := hi.hashed _ hmem
    dsimp only at hh ⊢
    rwa [hh] at hmem
  · exact fun hmem => ⟨_, hmem, rfl⟩

/-- An item with a new key. -/
theorem Represents.store [DecidableEq κ] {t' : HashTable α} {h : Nat} {x : α}
    (hf : Represents key t f) (hnone : f (key x) = none)
    (hperm : (items t'.pEntries).Perm ((h, x) :: items t.pEntries)) :
    Represents key t' (Function.update f (key x) (some x)) := by
  intro k y
  rw [(hperm.map Prod.snd).mem_iff, List.map_cons, List.mem_cons, Function.update_apply]
  split
  · rename_i hk
    have hno : ¬ (key y = k ∧ y ∈ (items t.pEntries).map Prod.snd) := by
      rw [← hf, hk, hnone]
      nofun
    constructor
    · rintro ⟨⟩
      exact ⟨hk.symm, .inl rfl⟩
    · rintro ⟨hy, rfl | hmem⟩
      · rfl
      · exact absurd ⟨hy, hmem⟩ hno
  · rename_i hk
    rw [hf]
    refine and_congr_right fun hy => ⟨.inr, ?_⟩
    rintro (rfl | hmem)
    · exact absurd hy.symm hk
    · exact hmem

/-- An item without its entry. -/
theorem Represents.erase [DecidableEq κ] {t' : HashTable α} {h : Nat} {x : α}
    (hf : Represents key t f) (hdistinct : ((items t.pEntries).map fun e => key e.2).Nodup)
    (hperm : (items t.pEntries).Perm ((h, x) :: items t'.pEntries)) :
    Represents key t' (Function.update f (key x) none) := by
  rw [(hperm.map _).nodup_iff, List.map_cons, List.nodup_cons, List.mem_map] at hdistinct
  intro k y
  have hold := hf k y
  rw [(hperm.map Prod.snd).mem_iff, List.map_cons, List.mem_cons] at hold
  rw [Function.update_apply]
  split
  · rename_i hk
    refine iff_of_false nofun ?_
    rintro ⟨hy, hmem⟩
    obtain ⟨e, he, rfl⟩ := List.mem_map.1 hmem
    exact hdistinct.1 ⟨e, he, hy.trans hk⟩
  · rename_i hk
    rw [hold]
    refine and_congr_right fun hy => ⟨?_, .inr⟩
    rintro (rfl | hmem)
    · exact absurd hy.symm hk
    · exact hmem

/-- A table with one item more, of a key that had none. -/
theorem Inv.stored {x : α} (hi : Inv key hash t) (t' : HashTable α) (hf : Represents key t f)
    (hx : f (key x) = none) (hpow : ∃ n, t'.pEntries.length = 2 ^ n) (hc : Chained t'.pEntries)
    (hdead : countTombStones t'.pEntries = t'.numDeadEntries)
    (hnum : t'.numEntries = t.numEntries + 1)
    (hload : (t'.numEntries + t'.numDeadEntries) * LOAD_DENOM ≤ t'.pEntries.length * LOAD_NUMER)
    (hp : (items t'.pEntries).Perm ((hash (key x), x) :: items t.pEntries)) :
    t'.numEntries < t'.tableSize ∧ Inv key hash t' := by
  refine ⟨?_, hpow, ?_, hdead, hload, hc, ?_, ?_⟩
  · obtain ⟨n', hn'⟩ := hpow
    have hpos := Nat.two_pow_pos n'
    unfold HashTable.tableSize
    unfold LOAD_DENOM LOAD_NUMER at hload
    omega
  · rw [hp.length_eq, List.length_cons, hi.entries, hnum]
  · intro e he
    rw [hp.mem_iff, List.mem_cons] at he
    rcases he with rfl | he
    · rfl
    · exact hi.hashed e he
  · rw [(hp.map _).nodup_iff, List.map_cons, List.nodup_cons]
    refine ⟨fun hmem => ?_, hi.distinct⟩
    obtain ⟨e, he, hkey⟩ := List.mem_map.1 hmem
    rw [(hf (key x) e.2).2 ⟨hkey, List.mem_map.2 ⟨e, he, rfl⟩⟩] at hx
    cases hx

theorem pow_le_of_lt {n m : Nat} (h : 2 ^ n < 2 ^ (m + 1)) : 2 ^ n ≤ 2 ^ m :=
  Nat.pow_le_pow_right (by decide) (Nat.le_of_lt_succ ((Nat.pow_lt_pow_iff_right (by decide)).1 h))

/-- A new table is empty. -/
theorem create_spec (key : α → κ) (hash : κ → Nat) {n : Nat} (h0 : 0 < n) (hmax : n ≤ 2 ^ 28) :
    ∃ t, mzHashTableCreate α n = some (some t) ∧ Inv key hash t ∧ t.tableSize ≤ 2 ^ 28 ∧
      t.numEntries + t.numDeadEntries = 0 ∧ Represents key t fun _ => none := by
  have hn : (UInt32.ofNat n).toNat = n := by
    rw [UInt32.toNat_ofNat', Nat.mod_eq_of_lt (by omega)]
  obtain ⟨k, hk, -, hlt⟩ := roundUpPower2_spec (.ofNat n) (by omega) (by omega)
  rw [hn] at hlt
  have hpow : 2 ^ k ≤ 2 ^ 28 := by
    have hless : 2 ^ k < 2 ^ 29 := by lia
    exact pow_le_of_lt hless
  refine ⟨⟨List.replicate (roundUpPower2 (.ofNat n)).toNat .null, 0, 0⟩, ?_,
    ⟨⟨k, by rw [List.length_replicate, hk]⟩, ?_, ?_, by simp, chained_replicate _, ?_, ?_⟩, ?_, rfl,
      ?_⟩
  · have hsmall : (roundUpPower2 (.ofNat n)).toNat < 2 ^ 31 := by
      rw [hk]
      lia
    simp only [mzHashTableCreate, guard, gt_iff_lt, h0, if_true, hsmall]
    rfl
  · rw [items_replicate]
    rfl
  · exact countTombStones_replicate _
  · rw [items_replicate]
    nofun
  · rw [items_replicate]
    exact List.nodup_nil
  · rw [HashTable.tableSize, List.length_replicate, hk]
    exact hpow
  · intro k' x
    rw [items_replicate]
    exact ⟨nofun, nofun⟩

section

variable [DecidableEq κ]

/-- Items are compared by their keys. -/
def sameKey (key : α → κ) (y x : α) : Bool := decide (key y = key x)

theorem lookup_search (hi : Inv key hash t) (hf : Represents key t f) (x : α) :
    ∃ i, ∃ hlen : i < t.pEntries.length,
      search (matching (sameKey key) (hash (key x)) x) t.pEntries (hash (key x)) = some i ∧
      ((∃ h y, t.pEntries[i] = .item h y ∧ f (key x) = some y) ∨
        t.pEntries[i] = .null ∧ f (key x) = none ∧
          Occupied (Taken t.pEntries) t.pEntries.length (home t.pEntries (hash (key x))) i) := by
  obtain ⟨n, hn⟩ := hi.pow
  obtain ⟨i, hlen, hsearch, hstop, hreach, hmiss⟩ :=
    search_spec (matching (sameKey key) (hash (key x)) x) (hash (key x)) hn hi.chained hi.free rfl
  refine ⟨i, hlen, hsearch, ?_⟩
  cases he : t.pEntries[i] with
  | null =>
    refine .inr ⟨rfl, ?_, hreach⟩
    cases hx : f (key x) with
    | none => rfl
    | some y =>
      obtain ⟨hy, hmem⟩ := (hf _ _).1 hx
      have hitem := hy ▸ (mem_snd_iff hi).1 hmem
      have htaken := hmiss y hitem (by simp [matching, sameKey, hy])
      rw [he] at htaken
      cases htaken
  | tombstone =>
    rw [he] at hstop
    cases hstop
  | item h y =>
    refine .inl ⟨h, y, rfl, (hf _ _).2 ⟨?_, ?_⟩⟩
    · rw [he] at hstop
      simpa [sameKey] using (Bool.and_eq_true_iff.1 hstop).2
    · exact List.mem_map.2 ⟨(h, y), mem_items.2 ⟨i, hlen, by rw [he]; rfl⟩, rfl⟩

/-- **A lookup** finds the item with the key. -/
theorem lookup_spec (hi : Inv key hash t) (hf : Represents key t f) (x : α) :
    mzHashTableLookup t (hash (key x)) x (sameKey key) false = some (f (key x), t) := by
  obtain ⟨i, hlen, hsearch, ⟨h, y, he, hx⟩ | ⟨he, hx, -⟩⟩ := lookup_search hi hf x
  all_goals
    rw [mzHashTableLookup, hsearch, Option.bind_eq_bind, Option.bind_some, getD_eq hlen, he, hx]
  simp

/-- **An addition** finds the item with the key, or stores one. -/
theorem add_spec (hi : Inv key hash t) (hsize : t.tableSize ≤ 2 ^ 28)
    (hused : t.numEntries + t.numDeadEntries + 1 ≤ 5 * 2 ^ 25) (hf : Represents key t f) (x : α) :
    ∃ t', mzHashTableLookup t (hash (key x)) x (sameKey key) true =
        some (some ((f (key x)).getD x), t') ∧ Inv key hash t' ∧ t'.tableSize ≤ 2 ^ 28 ∧
      t'.numEntries + t'.numDeadEntries ≤ t.numEntries + t.numDeadEntries + 1 ∧
      Represents key t' (Function.update f (key x) (some ((f (key x)).getD x))) := by
  obtain ⟨i, hlen, hsearch, ⟨h, y, he, hx⟩ | ⟨he, hx, hreach⟩⟩ := lookup_search hi hf x
  · refine ⟨t, ?_, hi, hsize, Nat.le_succ _, ?_⟩
    · rw [mzHashTableLookup, hsearch, Option.bind_eq_bind, Option.bind_some, getD_eq hlen, he, hx]
      rfl
    · rw [hx, Option.getD_some, ← hx, Function.update_eq_self]
      exact hf
  · obtain ⟨n, hn⟩ := hi.pow
    have hnull : t.pEntries[i].isNull = true := by rw [he]; rfl
    have hperm := items_store hlen (not_item hnull) (hash (key x)) x
    have hc : Chained (t.pEntries.set i (.item (hash (key x)) x)) :=
      hi.chained.set rfl fun h y hy => by cases hy; exact hreach
    have hdead := (countTombStones_store (h := hash (key x)) (x := x) hlen hnull).trans hi.dead
    rw [hx, Option.getD_none, mzHashTableLookup, hsearch, Option.bind_eq_bind, Option.bind_some,
      getD_eq hlen, he]
    dsimp only
    have hload₀ : int ((t.numEntries + 1 + t.numDeadEntries) * LOAD_DENOM) =
        some ((t.numEntries + 1 + t.numDeadEntries) * LOAD_DENOM) :=
      if_pos (by unfold LOAD_DENOM; lia)
    have hlimit : int (t.tableSize * LOAD_NUMER) = some (t.tableSize * LOAD_NUMER) :=
      if_pos (by unfold LOAD_NUMER; lia)
    have hstored : HashTable.tableSize
        ⟨t.pEntries.set i (.item (hash (key x)) x), t.numEntries + 1, t.numDeadEntries⟩ =
          t.tableSize := by
      rw [HashTable.tableSize, List.length_set, HashTable.tableSize]
    rw [if_pos rfl, hstored, hload₀, Option.bind_some, hlimit, Option.bind_some]
    split
    · rename_i hfull
      have hhalf : t.tableSize ≤ 2 ^ 27 := by
        have hless : 2 ^ n < 2 ^ 28 := by
          unfold LOAD_DENOM LOAD_NUMER HashTable.tableSize at hfull
          lia
        rw [HashTable.tableSize, hn]
        exact pow_le_of_lt hless
      have hdouble : int (t.tableSize * 2) = some (t.tableSize * 2) := if_pos (by lia)
      obtain ⟨t', hresize, hn', hc', hdead', hnum, hzero, hp⟩ := resizeHash_spec (n := n)
        (t := ⟨t.pEntries.set i (.item (hash (key x)) x), t.numEntries + 1, t.numDeadEntries⟩)
        (by rw [List.length_set, hn]) hdead
      have hload' : (t'.numEntries + t'.numDeadEntries) * LOAD_DENOM ≤
          t'.pEntries.length * LOAD_NUMER := by
        have hpos := Nat.two_pow_pos n
        have hload : (t.numEntries + t.numDeadEntries) * 8 ≤ 2 ^ n * 5 := hn ▸ hi.load
        have hnum' : t'.numEntries = t.numEntries + 1 := hnum
        rw [hn', hnum', hzero, Nat.pow_succ]
        show (t.numEntries + 1 + 0) * 8 ≤ 2 ^ n * 2 * 5
        lia
      have hitems := hp.trans hperm
      obtain ⟨hroom, hinv⟩ := hi.stored t' hf hx ⟨_, hn'⟩ hc' hdead' hnum hload' hitems
      rw [hstored] at hresize
      refine ⟨t', ?_, hinv, ?_, ?_, hf.store hx hitems⟩
      · rw [hdouble, Option.bind_some, hresize]
        simp [guard, hroom]
      · rw [HashTable.tableSize, hn', Nat.pow_succ, ← hn]
        change t.tableSize * 2 ≤ 2 ^ 28
        lia
      · have hnum' : t'.numEntries = t.numEntries + 1 := hnum
        rw [hnum', hzero]
        lia
    · rename_i hload
      rw [← hstored] at hload
      obtain ⟨hroom, hinv⟩ := hi.stored
        ⟨t.pEntries.set i (.item (hash (key x)) x), t.numEntries + 1, t.numDeadEntries⟩ hf hx
        ⟨n, by rw [List.length_set, hn]⟩ hc hdead rfl (Nat.le_of_not_lt hload) hperm
      refine ⟨_, by simp [guard, hroom], hinv, hstored.trans_le hsize, ?_, hf.store hx hperm⟩
      dsimp only
      lia

/-- **A removal** takes out the item itself. -/
theorem remove_spec [DecidableEq α] (hi : Inv key hash t) (hf : Represents key t f) (x : α) :
    ∃ t', mzHashTableRemove t (hash (key x)) x = some (decide (f (key x) = some x), t') ∧
      Inv key hash t' ∧ t'.tableSize = t.tableSize ∧
      t'.numEntries + t'.numDeadEntries = t.numEntries + t.numDeadEntries ∧
      Represents key t' (if f (key x) = some x then Function.update f (key x) none else f) := by
  obtain ⟨n, hn⟩ := hi.pow
  obtain ⟨i, hlen, hsearch, hstop, -, hmiss⟩ :=
    search_spec (holding x) (hash (key x)) hn hi.chained hi.free rfl
  have hmem : f (key x) = some x ↔ (hash (key x), x) ∈ items t.pEntries := by
    rw [hf, ← mem_snd_iff hi]
    exact and_iff_right rfl
  rw [mzHashTableRemove, hsearch, Option.bind_eq_bind, Option.bind_some, getD_eq hlen]
  cases he : t.pEntries[i] with
  | null =>
    have hno : f (key x) ≠ some x := by
      intro hx
      have htaken := hmiss x (hmem.1 hx) (by simp [holding])
      rw [he] at htaken
      cases htaken
    exact ⟨t, by simp [hno], hi, rfl, rfl, by rw [if_neg hno]; exact hf⟩
  | tombstone =>
    rw [he] at hstop
    cases hstop
  | item h y =>
    rw [he] at hstop
    obtain rfl : y = x := of_decide_eq_true hstop
    have hitem : t.pEntries[i].item? = some (h, y) := by rw [he]; rfl
    have hperm := items_remove hlen hitem
    have hyes : f (key y) = some y :=
      (hf _ _).2 ⟨rfl, List.mem_map.2 ⟨_, mem_items.2 ⟨i, hlen, hitem⟩, rfl⟩⟩
    have hdead : countTombStones (t.pEntries.set i .tombstone) = t.numDeadEntries + 1 := by
      rw [← hi.dead]
      unfold countTombStones
      rw [List.countP_set hlen, he]
      simp [HashEntry.isTombstone]
    have hnum := hi.entries
    rw [hperm.length_eq, List.length_cons] at hnum
    have hsum : t.numEntries - 1 + (t.numDeadEntries + 1) = t.numEntries + t.numDeadEntries := by
      omega
    refine ⟨_, by rw [decide_eq_true hyes], ⟨⟨n, by rw [List.length_set, hn]⟩, ?_, hdead, ?_,
      ?_, ?_, ?_⟩, by simp [HashTable.tableSize], hsum, ?_⟩
    · dsimp only
      omega
    · have hload := hi.load
      rw [List.length_set]
      dsimp only
      rwa [hsum]
    · refine hi.chained.set rfl fun h x htomb => ?_
      cases htomb
    · exact fun e hmem => hi.hashed e (hperm.mem_iff.2 (List.mem_cons_of_mem _ hmem))
    · have hdistinct := hi.distinct
      rw [(hperm.map _).nodup_iff, List.map_cons, List.nodup_cons] at hdistinct
      exact hdistinct.2
    · rw [if_pos hyes]
      exact hf.erase hi.distinct hperm

end

/-! ## Runs -/

inductive HashOp (α : Type) where
  | lookup (x : α)
  | add (x : α)
  | remove (x : α)

variable [DecidableEq κ] [DecidableEq α]

/-- A call: the item of the result, and the table. -/
def HashOp.exec (key : α → κ) (hash : κ → Nat) (t : HashTable α) :
    HashOp α → Option (Option α × HashTable α)
  | lookup x => mzHashTableLookup t (hash (key x)) x (sameKey key) false
  | add x => mzHashTableLookup t (hash (key x)) x (sameKey key) true
  | remove x =>
    (mzHashTableRemove t (hash (key x)) x).map fun r => (if r.1 then some x else none, r.2)

/-- What a call does to a finite map. -/
def HashOp.meaning (key : α → κ) (f : κ → Option α) : HashOp α → Option α × (κ → Option α)
  | lookup x => (f (key x), f)
  | add x => (some ((f (key x)).getD x), Function.update f (key x) (some ((f (key x)).getD x)))
  | remove x => if f (key x) = some x then (some x, Function.update f (key x) none) else (none, f)

/-- How many items a call may add. -/
def HashOp.adds : HashOp α → Nat
  | add _ => 1
  | _ => 0

def runOps (key : α → κ) (hash : κ → Nat) :
    List (HashOp α) → HashTable α → Option (List (Option α) × HashTable α)
  | [], t => some ([], t)
  | op :: ops, t => do
    let (result, t) ← op.exec key hash t
    let (results, t) ← runOps key hash ops t
    some (result :: results, t)

def meanings (key : α → κ) : List (HashOp α) → (κ → Option α) → List (Option α) × (κ → Option α)
  | [], f => ([], f)
  | op :: ops, f =>
    let r := meanings key ops (op.meaning key f).2
    ((op.meaning key f).1 :: r.1, r.2)

theorem exec_spec (hi : Inv key hash t) (hsize : t.tableSize ≤ 2 ^ 28) (op : HashOp α)
    (hused : t.numEntries + t.numDeadEntries + op.adds ≤ 5 * 2 ^ 25) (hf : Represents key t f) :
    ∃ t', op.exec key hash t = some ((op.meaning key f).1, t') ∧ Inv key hash t' ∧
      t'.tableSize ≤ 2 ^ 28 ∧
      t'.numEntries + t'.numDeadEntries ≤ t.numEntries + t.numDeadEntries + op.adds ∧
      Represents key t' (op.meaning key f).2 := by
  cases op with
  | lookup x => exact ⟨t, lookup_spec hi hf x, hi, hsize, Nat.le_refl _, hf⟩
  | add x => exact add_spec hi hsize hused hf x
  | remove x =>
    obtain ⟨t', h, hi', hsize', hused', hf'⟩ := remove_spec hi hf x
    refine ⟨t', ?_, hi', hsize'.trans_le hsize, hused'.le, ?_⟩
    · by_cases hx : f (key x) = some x
      · rw [HashOp.exec, h]
        simp [HashOp.meaning, hx]
      · rw [HashOp.exec, h]
        simp [HashOp.meaning, hx]
    · by_cases hx : f (key x) = some x
      · rw [if_pos hx] at hf'
        simpa only [HashOp.meaning, if_pos hx] using hf'
      · rw [if_neg hx] at hf'
        simpa only [HashOp.meaning, if_neg hx] using hf'

theorem runOps_spec : ∀ (ops : List (HashOp α)) {t : HashTable α} {f : κ → Option α},
    Inv key hash t → t.tableSize ≤ 2 ^ 28 →
    t.numEntries + t.numDeadEntries + (ops.map HashOp.adds).sum ≤ 5 * 2 ^ 25 → Represents key t f →
      ∃ t', runOps key hash ops t = some ((meanings key ops f).1, t') ∧ Inv key hash t' ∧
        Represents key t' (meanings key ops f).2
  | [], t, f, hi, _, _, hf => ⟨t, rfl, hi, hf⟩
  | op :: ops, t, f, hi, hsize, hused, hf => by
    rw [List.map_cons, List.sum_cons, ← Nat.add_assoc] at hused
    obtain ⟨t₁, h₁, hi₁, hsize₁, hused₁, hf₁⟩ := exec_spec hi hsize op (by lia) hf
    obtain ⟨t₂, h₂, hi₂, hf₂⟩ := runOps_spec ops hi₁ hsize₁ (by lia) hf₁
    exact ⟨t₂, by simp [runOps, h₁, h₂, meanings], hi₂, hf₂⟩

/-- **A table is a finite map**, over every sequence of calls: each search ends inside the table,
no assertion fails, the results are those of the map, and `mzHashForeach` goes through exactly the
items of the map, once each; three of eight entries are always unused.  With a size up to 2^28 and
as many additions as such a table takes, no `int` overflows. -/
theorem hash_table_spec (key : α → κ) (hash : κ → Nat) (initialSize : Nat)
    (h0 : 0 < initialSize) (hmax : initialSize ≤ 2 ^ 28) (ops : List (HashOp α))
    (hadds : (ops.map HashOp.adds).sum ≤ 5 * 2 ^ 25) :
    ∃ t₀ t, mzHashTableCreate α initialSize = some (some t₀) ∧
      runOps key hash ops t₀ = some ((meanings key ops fun _ => none).1, t) ∧
      (mzHashForeach t fun _ => 0).1.Nodup ∧
      (∀ x, x ∈ (mzHashForeach t fun _ => 0).1 ↔
        (meanings key ops fun _ => none).2 (key x) = some x) ∧
      t.numEntries = (mzHashForeach t fun _ => 0).1.length ∧
      (t.numEntries + t.numDeadEntries) * LOAD_DENOM ≤ t.tableSize * LOAD_NUMER := by
  obtain ⟨t₀, h₀, hi₀, hsize₀, hused₀, hf₀⟩ := create_spec key hash h0 hmax
  obtain ⟨t, hrun, hi, hf⟩ := runOps_spec ops hi₀ hsize₀ (by rw [hused₀, Nat.zero_add]; exact hadds)
    hf₀
  have hall : (mzHashForeach t fun _ => 0).1 = (items t.pEntries).map Prod.snd := by
    have hfold : ∀ (xs ys : List α), (xs.foldl
        (fun r x => if r.2 = 0 then (r.1 ++ [x], (0 : Int)) else r) (ys, 0)).1 = ys ++ xs := by
      intro xs
      induction xs with
      | nil => simp
      | cons x xs ih => intro ys; rw [List.foldl_cons, if_pos rfl, ih]; simp
    exact hfold _ []
  refine ⟨t₀, t, h₀, hrun, ?_, fun x => ?_, ?_, hi.load⟩
  · have hkeys := hi.distinct
    rw [hall]
    have hmap : (items t.pEntries).map (fun e => key e.2) =
        ((items t.pEntries).map Prod.snd).map key := by
      rw [List.map_map]
      rfl
    rw [hmap] at hkeys
    exact hkeys.of_map
  · rw [hall, hf]
    exact (and_iff_right rfl).symm
  · rw [hall, List.length_map, hi.entries]

theorem hash_table_spec_one : ∃ t₀ t, mzHashTableCreate Nat 1 = some (some t₀) ∧
    runOps id id [.add 3, .add 11, .remove 3, .lookup 11, .lookup 3] t₀ =
      some ([some 3, some 11, some 3, some 11, none], t) := by
  obtain ⟨t₀, t, h₀, hrun, -⟩ := hash_table_spec (α := Nat) id id 1 (by decide) (by decide)
    [.add 3, .add 11, .remove 3, .lookup 11, .lookup 3] (by decide)
  exact ⟨t₀, t, h₀, hrun⟩

end Recovery.Minzip
