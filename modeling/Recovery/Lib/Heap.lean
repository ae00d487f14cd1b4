import Mathlib.Logic.Relation
import Mathlib.Order.Basic

/-!
# Owning pointers

Memory with cells that are given out once, and objects that own the objects behind some of their
pointers.

* `Heap` — `alloc`, `modify` and `free`; a pointer that has been freed is never given out again, so
  that a use after a free reads nothing.
* `destroy` — the destructor of an object, which deletes what it owns.
* `Forest` — every object has at most one owner, and is younger than it.
* `destroy_spec` — in a forest the destructor ends, frees no cell twice, and frees exactly what the
  object owns, directly or not.

The type of the objects and the pointers they own are parameters; a map of owned pointers is a list
of them, in the order in which a destructor goes through it.
-/

set_option autoImplicit false

namespace Recovery.Lib

variable {α : Type}

/-- Memory; 0 is the null pointer, and `next` is the next pointer to be given out. -/
structure Heap (α : Type) where
  cells : Nat → Option α
  next : Nat
  next_pos : 0 < next
  bound : ∀ p, (cells p).isSome → 0 < p ∧ p < next

namespace Heap

def empty : Heap α := ⟨fun _ => none, 1, Nat.one_pos, nofun⟩

def alloc (heap : Heap α) (a : α) : Heap α where
  cells p := if p = heap.next then some a else heap.cells p
  next := heap.next + 1
  next_pos := Nat.succ_pos _
  bound p hp := by
    split at hp
    · rename_i heq
      have hpos := heap.next_pos
      omega
    · have hbound := heap.bound p hp
      omega

def modify (heap : Heap α) (p : Nat) (f : α → α) : Heap α where
  cells q := if q = p then (heap.cells q).map f else heap.cells q
  next := heap.next
  next_pos := heap.next_pos
  bound q hq := by
    split at hq
    · exact heap.bound q (by simpa using hq)
    · exact heap.bound q hq

def free (heap : Heap α) (p : Nat) : Heap α where
  cells q := if q = p then none else heap.cells q
  next := heap.next
  next_pos := heap.next_pos
  bound q hq := by
    split at hq
    · cases hq
    · exact heap.bound q hq

variable {heap : Heap α} {p q : Nat} {a : α} {f : α → α}

@[simp] theorem cells_empty : (empty : Heap α).cells p = none := rfl

@[simp] theorem cells_alloc : (heap.alloc a).cells q = if q = heap.next then some a else heap.cells q :=
  rfl

@[simp] theorem next_alloc : (heap.alloc a).next = heap.next + 1 := rfl

@[simp] theorem cells_modify :
    (heap.modify p f).cells q = if q = p then (heap.cells q).map f else heap.cells q := rfl

@[simp] theorem next_modify : (heap.modify p f).next = heap.next := rfl

@[simp] theorem cells_free : (heap.free p).cells q = if q = p then none else heap.cells q := rfl

@[simp] theorem next_free : (heap.free p).next = heap.next := rfl

theorem lt_next (hp : heap.cells p = some a) : p < heap.next :=
  (heap.bound p (by rw [hp]; rfl)).2

theorem pos (hp : heap.cells p = some a) : 0 < p := (heap.bound p (by rw [hp]; rfl)).1

theorem cells_next (heap : Heap α) : heap.cells heap.next = none := by
  cases hcell : heap.cells heap.next with
  | none => rfl
  | some a => exact absurd (lt_next hcell) (Nat.lt_irrefl _)

end Heap

section Destroy

variable (children : α → List Nat)

/-- The destructor, which deletes what the object owns. `none` is a pointer that points to nothing,
or a recursion that is too deep for the fuel. -/
def destroy : Nat → Heap α → Nat → Option (Heap α)
  | 0, _, _ => none
  | fuel + 1, heap, p =>
    (heap.cells p).bind fun a =>
      ((children a).foldlM (destroy fuel) heap).map fun heap => heap.free p

def ChildOf (cells : Nat → Option α) (p q : Nat) : Prop := ∃ a, cells p = some a ∧ q ∈ children a

/-- The object is owned by another one, directly or not. -/
def Below (cells : Nat → Option α) : Nat → Nat → Prop := Relation.ReflTransGen (ChildOf children cells)

structure Forest (cells : Nat → Option α) : Prop where
  live : ∀ {p q}, ChildOf children cells p q → ∃ a, cells q = some a
  younger : ∀ {p q}, ChildOf children cells p q → p < q
  owner : ∀ {p q r}, ChildOf children cells p r → ChildOf children cells q r → p = q
  nodup : ∀ {p a}, cells p = some a → (children a).Nodup

variable {children} {cells : Nat → Option α}

theorem Below.le (hf : Forest children cells) {p q : Nat} (h : Below children cells p q) : p ≤ q := by
  induction h with
  | refl => exact Nat.le_refl p
  | tail _ hchild ih => exact Nat.le_of_lt (Nat.lt_of_le_of_lt ih (hf.younger hchild))

theorem below_iff {p q : Nat} {a : α} (hp : cells p = some a) :
    Below children cells p q ↔ q = p ∨ ∃ c ∈ children a, Below children cells c q := by
  constructor
  · intro h
    rcases Relation.ReflTransGen.cases_head h with rfl | ⟨c, ⟨b, hb, hc⟩, h⟩
    · exact Or.inl rfl
    · rw [hp] at hb
      cases hb
      exact Or.inr ⟨c, hc, h⟩
  · rintro (rfl | ⟨c, hc, h⟩)
    · exact Relation.ReflTransGen.refl
    · exact Relation.ReflTransGen.head ⟨a, hp, hc⟩ h

/-- Two children of one object own nothing together. -/
theorem Forest.disjoint (hf : Forest children cells) {p c d q : Nat}
    (hc : ChildOf children cells p c) (hd : ChildOf children cells p d)
    (hcq : Below children cells c q) (hdq : Below children cells d q) : c = d := by
  -- one of them would own the other one, and so its own owner
  have hno : ∀ {c d}, ChildOf children cells p c → ChildOf children cells p d →
      Below children cells c d → c = d := by
    intro c d hc hd h
    rcases Relation.ReflTransGen.cases_tail h with rfl | ⟨e, hce, hed⟩
    · rfl
    · rw [hf.owner hed hd] at hce
      exact absurd (hf.younger hc) (Nat.not_lt.2 (Below.le hf hce))
  have hunique : Relator.RightUnique (Function.swap (ChildOf children cells)) := by
    intro r p q hp hq
    exact hf.owner hp hq
  rcases Relation.ReflTransGen.total_of_right_unique hunique
    (Relation.reflTransGen_swap.2 hcq) (Relation.reflTransGen_swap.2 hdq) with h | h
  · exact (hno hd hc (Relation.reflTransGen_swap.1 h)).symm
  · exact hno hc hd (Relation.reflTransGen_swap.1 h)

/-- What a destructor leaves behind. -/
structure Freed (gone : Nat → Prop) (heap heap' : Heap α) : Prop where
  next : heap'.next = heap.next
  freed : ∀ q, gone q → heap'.cells q = none
  kept : ∀ q, ¬gone q → heap'.cells q = heap.cells q

/-- **The destructor in a forest.** -/
theorem destroy_spec (hf : Forest children cells) {bound fuel p : Nat} {heap : Heap α} {a : α}
    (hbound : ∀ q b, cells q = some b → q < bound) (hfuel : bound ≤ p + fuel)
    (hp : cells p = some a) (hsame : ∀ q, Below children cells p q → heap.cells q = cells q) :
    ∃ heap', destroy children fuel heap p = some heap' ∧
      Freed (Below children cells p) heap heap' := by
  induction fuel generalizing p a heap with
  | zero =>
    have hlt := hbound p a hp
    lia
  | succ fuel ih =>
    -- the loop over the children
    have hloop : ∀ (l : List Nat) (heap : Heap α), l.Nodup → (∀ c ∈ l, c ∈ children a) →
        (∀ c ∈ l, ∀ q, Below children cells c q → heap.cells q = cells q) →
        ∃ heap', l.foldlM (destroy children fuel) heap = some heap' ∧
          Freed (fun q => ∃ c ∈ l, Below children cells c q) heap heap' := by
      intro l
      induction l with
      | nil => exact fun heap _ _ _ => ⟨heap, rfl, rfl, by simp, by simp⟩
      | cons c l ihl =>
        intro heap hnodup hsub hkeep
        have hc : ChildOf children cells p c := ⟨a, hp, hsub c List.mem_cons_self⟩
        obtain ⟨b, hb⟩ := hf.live hc
        have hyounger := hf.younger hc
        obtain ⟨heap₁, hfirst, hfreed₁⟩ := ih (by lia) hb (hkeep c List.mem_cons_self)
        have hnot : ∀ d ∈ l, ∀ q, Below children cells d q → ¬Below children cells c q := by
          intro d hd q hdq hcq
          have heq := hf.disjoint hc ⟨a, hp, hsub d (List.mem_cons_of_mem _ hd)⟩ hcq hdq
          exact (List.nodup_cons.1 hnodup).1 (heq ▸ hd)
        obtain ⟨heap₂, hrest, hfreed₂⟩ := ihl heap₁ (List.nodup_cons.1 hnodup).2
          (fun d hd => hsub d (List.mem_cons_of_mem _ hd)) (by
            intro d hd q hdq
            rw [hfreed₁.kept q (hnot d hd q hdq), hkeep d (List.mem_cons_of_mem _ hd) q hdq])
        refine ⟨heap₂, ?_, hfreed₂.next.trans hfreed₁.next, ?_, ?_⟩
        · rw [List.foldlM_cons, hfirst]
          exact hrest
        · rintro q ⟨d, hd, hdq⟩
          by_cases hq : ∃ d ∈ l, Below children cells d q
          · exact hfreed₂.freed q hq
          · rw [hfreed₂.kept q hq]
            rcases List.mem_cons.1 hd with rfl | hd
            · exact hfreed₁.freed q hdq
            · exact absurd ⟨d, hd, hdq⟩ hq
        · intro q hq
          rw [hfreed₂.kept q fun ⟨d, hd, hdq⟩ => hq ⟨d, List.mem_cons_of_mem _ hd, hdq⟩,
            hfreed₁.kept q fun hcq => hq ⟨c, List.mem_cons_self, hcq⟩]
    obtain ⟨heap', hrun, hfreed⟩ := hloop (children a) heap (hf.nodup hp) (fun _ hc => hc)
      fun c hc q hcq => hsame q (Relation.ReflTransGen.head ⟨a, hp, hc⟩ hcq)
    refine ⟨heap'.free p, ?_, hfreed.next, ?_, ?_⟩
    · unfold destroy
      rw [hsame p Relation.ReflTransGen.refl, hp, Option.bind_some, hrun]
      rfl
    · intro q hq
      rw [Heap.cells_free]
      split
      · rfl
      · rename_i hne
        exact hfreed.freed q (((below_iff hp).1 hq).resolve_left hne)
    · intro q hq
      rw [below_iff hp, not_or] at hq
      rw [Heap.cells_free, if_neg hq.1, hfreed.kept q hq.2]

end Destroy

end Recovery.Lib
