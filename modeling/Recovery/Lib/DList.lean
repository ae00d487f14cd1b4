import Mathlib.Data.List.Nodup
import Mathlib.Data.List.Perm.Basic
import Recovery.Lib.Heap

/-!
# Doubly linked lists

Nodes in memory that are linked in both directions.

* `Node` — what is stored, and both links; 0 is the null pointer.
* `setPrev`, `setNext` — stores through a pointer; there must be a node behind it.
* `Seg` — the nodes of a list, between the nodes before and behind it.
* `Seg.setPrev_first`, `Seg.setNext_last` — how the ends of a list are linked anew.
* `Seg.frame` — what happens elsewhere does not matter.
* `Seg.unlink`, `Seg.relink` — a node is taken out, and comes back at the end.

A segment lists its nodes in order, with their pointers, so that what the code does to the links
is an operation on a list.
-/

set_option autoImplicit false

namespace Recovery.Lib

structure Node (α : Type) where
  data : α
  prev : Nat
  next : Nat

variable {α : Type}

namespace Heap

/-- `p->prev = v`. -/
def setPrev (heap : Heap (Node α)) (p v : Nat) : Option (Heap (Node α)) :=
  if (heap.cells p).isSome then some (heap.modify p fun n => { n with prev := v }) else none

/-- `p->next = v`. -/
def setNext (heap : Heap (Node α)) (p v : Nat) : Option (Heap (Node α)) :=
  if (heap.cells p).isSome then some (heap.modify p fun n => { n with next := v }) else none

variable {heap : Heap (Node α)} {p : Nat} {n : Node α}

theorem setPrev_eq (h : heap.cells p = some n) (v : Nat) :
    heap.setPrev p v = some (heap.modify p fun n => { n with prev := v }) := by
  rw [setPrev, h]
  rfl

theorem setNext_eq (h : heap.cells p = some n) (v : Nat) :
    heap.setNext p v = some (heap.modify p fun n => { n with next := v }) := by
  rw [setNext, h]
  rfl

theorem cells_modify_self {β : Type} {heap : Heap β} {p : Nat} {b : β} {f : β → β}
    (h : heap.cells p = some b) : (heap.modify p f).cells p = some (f b) := by
  rw [cells_modify, if_pos rfl, h]
  rfl

theorem cells_modify_ne {β : Type} {heap : Heap β} {p q : Nat} {f : β → β} (h : q ≠ p) :
    (heap.modify p f).cells q = heap.cells q := by
  rw [cells_modify, if_neg h]

theorem isSome_modify {β : Type} {heap : Heap β} {p q : Nat} {f : β → β} :
    ((heap.modify p f).cells q).isSome = (heap.cells q).isSome := by
  rw [cells_modify]
  split
  · exact Option.isSome_map
  · rfl

end Heap

/-- The first of some nodes, or what is behind them. -/
def first (a : Nat) : List (Nat × α) → Nat
  | [] => a
  | e :: _ => e.1

/-- The last of some nodes, or what is before them. -/
def last (b : Nat) : List (Nat × α) → Nat
  | [] => b
  | e :: l => last e.1 l

/-- A list of nodes with `b` before it and `a` behind it. -/
def Seg (heap : Heap (Node α)) : Nat → List (Nat × α) → Nat → Prop
  | _, [], _ => True
  | b, e :: l, a => heap.cells e.1 = some ⟨e.2, b, first a l⟩ ∧ Seg heap e.1 l a

variable {heap heap' : Heap (Node α)} {a a' b b' p : Nat} {d : α} {l l' : List (Nat × α)}

@[simp] theorem first_append : first a (l ++ l') = first (first a l') l := by
  cases l <;> rfl

@[simp] theorem last_append : last b (l ++ l') = last (last b l) l' := by
  induction l generalizing b with
  | nil => rfl
  | cons e l ih => exact ih

@[simp] theorem last_singleton {e : Nat × α} : last b [e] = e.1 := rfl

theorem seg_append :
    Seg heap b (l ++ l') a ↔ Seg heap b l (first a l') ∧ Seg heap (last b l) l' a := by
  induction l generalizing b with
  | nil => simp [Seg, last]
  | cons e l ih => simp only [List.cons_append, Seg, first_append, ih, last, and_assoc]

theorem Seg.live (h : Seg heap b l a) {e : Nat × α} (he : e ∈ l) :
    ∃ n, heap.cells e.1 = some n ∧ n.data = e.2 := by
  induction l generalizing b with
  | nil => cases he
  | cons e' l ih =>
    obtain rfl | he := List.mem_cons.1 he
    · exact ⟨_, h.1, rfl⟩
    · exact ih h.2 he

/-- What happens elsewhere does not matter. -/
theorem Seg.frame (h : Seg heap b l a)
    (hcells : ∀ e ∈ l, heap'.cells e.1 = heap.cells e.1) : Seg heap' b l a := by
  induction l generalizing b with
  | nil => trivial
  | cons e l ih =>
    exact ⟨(hcells e List.mem_cons_self).trans h.1,
      ih h.2 fun e' he' => hcells e' (List.mem_cons_of_mem _ he')⟩

theorem Seg.modify (h : Seg heap b l a) (hp : p ∉ l.map Prod.fst) (f : Node α → Node α) :
    Seg (heap.modify p f) b l a :=
  h.frame fun _ he => Heap.cells_modify_ne fun hq => hp (hq ▸ List.mem_map_of_mem he)

theorem Seg.free (h : Seg heap b l a) (hp : p ∉ l.map Prod.fst) : Seg (heap.free p) b l a := by
  refine h.frame fun e he => ?_
  rw [Heap.cells_free, if_neg]
  rintro rfl
  exact hp (List.mem_map_of_mem he)

theorem Seg.alloc (h : Seg heap b l a) (n : Node α) : Seg (heap.alloc n) b l a := by
  refine h.frame fun e he => ?_
  obtain ⟨m, hm, -⟩ := h.live he
  rw [Heap.cells_alloc, if_neg (Nat.ne_of_lt (heap.lt_next hm))]

/-- Another node is before the list now. -/
theorem Seg.setPrev_first {e : Nat × α} (h : Seg heap b (e :: l) a)
    (hn : ((e :: l).map Prod.fst).Nodup) (v : Nat) :
    Seg (heap.modify e.1 fun n => { n with prev := v }) v (e :: l) a := by
  rw [List.map_cons, List.nodup_cons] at hn
  exact ⟨Heap.cells_modify_self h.1, h.2.modify hn.1 _⟩

/-- Another node is behind the list now. -/
theorem Seg.setNext_last {e : Nat × α} (h : Seg heap b (l ++ [e]) a)
    (hn : ((l ++ [e]).map Prod.fst).Nodup) (v : Nat) :
    Seg (heap.modify e.1 fun n => { n with next := v }) b (l ++ [e]) v := by
  rw [seg_append] at h ⊢
  rw [List.map_append, List.nodup_append] at hn
  have he : e.1 ∉ l.map Prod.fst := fun hm =>
    hn.2.2 e.1 hm e.1 (List.mem_singleton_self _) rfl
  exact ⟨h.1.modify he _, Heap.cells_modify_self h.2.1, trivial⟩

/-- One more node at the end. -/
theorem Seg.concat (h : Seg heap b l p) (hp : heap.cells p = some ⟨d, last b l, a⟩) :
    Seg heap b (l ++ [(p, d)]) a := by
  rw [seg_append]
  exact ⟨h, hp, trivial⟩

theorem Seg.pos (h : Seg heap b l a) {e : Nat × α} (he : e ∈ l) : e.1 ≠ 0 := by
  obtain ⟨n, hn, -⟩ := h.live he
  exact Nat.ne_of_gt (heap.pos hn)

theorem last_mem (h : l ≠ []) : ∃ e ∈ l, last b l = e.1 := by
  induction l generalizing b with
  | nil => exact absurd rfl h
  | cons e l ih =>
    cases l with
    | nil => exact ⟨e, List.mem_cons_self, rfl⟩
    | cons e' l =>
      obtain ⟨x, hx, hlast⟩ := @ih e.1 (List.cons_ne_nil _ _)
      exact ⟨x, List.mem_cons_of_mem _ hx, hlast⟩

/-- The node behind the last one is stored. -/
theorem Seg.setNext_of_ne_nil (h : Seg heap b l a) (hl : l ≠ []) (hn : (l.map Prod.fst).Nodup)
    (v : Nat) : ∃ heap', heap.setNext (last b l) v = some heap' ∧ Seg heap' b l v ∧
      (∀ q, q ∉ l.map Prod.fst → heap'.cells q = heap.cells q) ∧
      ∀ q, (heap'.cells q).isSome = (heap.cells q).isSome := by
  obtain ⟨l', e, rfl⟩ : ∃ l' e, l = l' ++ [e] := by
    obtain h | ⟨l', e, h⟩ := l.eq_nil_or_concat
    · exact absurd h hl
    · exact ⟨l', e, by rw [h, List.concat_eq_append]⟩
  obtain ⟨n, hcell, -⟩ := h.live (List.mem_append_right _ List.mem_cons_self)
  refine ⟨_, ?_, h.setNext_last hn v, ?_, fun q => Heap.isSome_modify⟩
  · rw [last_append, last_singleton]
    exact Heap.setNext_eq hcell v
  · intro q hq
    refine Heap.cells_modify_ne ?_
    rintro rfl
    exact hq (List.mem_map_of_mem (List.mem_append_right _ List.mem_cons_self))

section Move

variable {A B : List (Nat × α)} {e : Nat × α} {v : Nat}

/-- The node before another one, when there is one, is linked to what comes behind it. -/
theorem Seg.setNext_before (h : Seg heap 0 A p) (hn : (A.map Prod.fst).Nodup) :
    ∃ heap', (if last 0 A ≠ 0 then heap.setNext (last 0 A) v else some heap) = some heap' ∧
      Seg heap' 0 A v ∧ (∀ q, q ∉ A.map Prod.fst → heap'.cells q = heap.cells q) ∧
      ∀ q, (heap'.cells q).isSome = (heap.cells q).isSome := by
  by_cases hnil : A = []
  · subst hnil
    exact ⟨heap, if_neg (not_not_intro rfl), trivial, fun _ _ => rfl, fun _ => rfl⟩
  · obtain ⟨x, hx, hlast⟩ := @last_mem _ 0 _ hnil
    rw [if_pos (hlast ▸ h.pos hx)]
    exact h.setNext_of_ne_nil hnil hn v

/-- The neighbours of a node are linked with each other. -/
theorem Seg.unlink (h : Seg heap 0 (A ++ (p, d) :: e :: B) 0)
    (hn : ((A ++ (p, d) :: e :: B).map Prod.fst).Nodup) :
    ∃ h₁ h₂, (if last 0 A ≠ 0 then heap.setNext (last 0 A) e.1 else some heap) = some h₁ ∧
      h₁.cells p = some ⟨d, last 0 A, e.1⟩ ∧ h₁.setPrev e.1 (last 0 A) = some h₂ ∧
      h₂.cells p = some ⟨d, last 0 A, e.1⟩ ∧ Seg h₂ 0 (A ++ e :: B) 0 ∧
      ∀ q, (h₂.cells q).isSome = (heap.cells q).isSome := by
  obtain ⟨hA, hp, hB⟩ := seg_append.1 h
  rw [List.map_append, List.map_cons] at hn
  obtain ⟨hnA, hnB, hdisj⟩ := List.nodup_append.1 hn
  obtain ⟨hpB, hnB⟩ := List.nodup_cons.1 hnB
  have hpA : p ∉ A.map Prod.fst := fun hm => hdisj p hm p List.mem_cons_self rfl
  have hAB : ∀ x ∈ e :: B, x.1 ∉ A.map Prod.fst := fun x hx hm =>
    hdisj x.1 hm x.1 (List.mem_cons_of_mem _ (List.mem_map_of_mem hx)) rfl
  have hep : p ≠ e.1 := by
    rintro rfl
    exact hpB List.mem_cons_self
  obtain ⟨h₁, hh₁, hA₁, hout, hlive⟩ := Seg.setNext_before (v := e.1) hA hnA
  have hp₁ : h₁.cells p = some ⟨d, last 0 A, e.1⟩ := (hout p hpA).trans hp
  have hB₁ : Seg h₁ p (e :: B) 0 := hB.frame fun x hx => hout _ (hAB x hx)
  refine ⟨h₁, _, hh₁, hp₁, Heap.setPrev_eq hB₁.1 _, ?_, ?_, ?_⟩
  · rw [Heap.cells_modify_ne hep, hp₁]
  · exact seg_append.2 ⟨hA₁.modify (hAB e List.mem_cons_self) _, hB₁.setPrev_first hnB _⟩
  · intro q
    rw [Heap.isSome_modify, hlive]

/-- A node that was taken out comes back at the end. -/
theorem Seg.relink {x : Node α} (h : Seg heap 0 l 0) (hl : l ≠ []) (hn : (l.map Prod.fst).Nodup)
    (hpl : p ∉ l.map Prod.fst) (hp : heap.cells p = some x) :
    ∃ h₁ h₂ h₃, heap.setNext p 0 = some h₁ ∧ h₁.setPrev p (last 0 l) = some h₂ ∧
      h₂.cells p = some ⟨x.data, last 0 l, 0⟩ ∧ h₂.setNext (last 0 l) p = some h₃ ∧
      Seg h₃ 0 (l ++ [(p, x.data)]) 0 ∧ ∀ q, (h₃.cells q).isSome = (heap.cells q).isSome := by
  have hp₁ := Heap.cells_modify_self (f := fun n => { n with next := 0 }) hp
  have hp₂ := Heap.cells_modify_self (f := fun n => { n with prev := last 0 l }) hp₁
  have hseg := (h.modify hpl fun n => { n with next := 0 }).modify hpl
    fun n => { n with prev := last 0 l }
  obtain ⟨h₃, hh₃, hseg₃, hout, hlive⟩ := hseg.setNext_of_ne_nil hl hn p
  refine ⟨_, _, h₃, Heap.setNext_eq hp 0, Heap.setPrev_eq hp₁ _, hp₂, hh₃, ?_, ?_⟩
  · exact hseg₃.concat ((hout p hpl).trans hp₂)
  · intro q
    rw [hlive, Heap.isSome_modify, Heap.isSome_modify]

end Move

end Recovery.Lib
