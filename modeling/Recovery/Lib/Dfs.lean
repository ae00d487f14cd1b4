import Mathlib.Data.Finset.Card
import Mathlib.Data.List.Nodup
import Mathlib.Logic.Relation

/-!
# Depth-first search with one list of what was seen

* `dfs look` — a search that asks `look` of every node it comes to: a result ends the search, other
  nodes are searched next, each with what all before it have seen.
* `Searched` — what a search leaves behind; `dfs_searched`, `firstOf_searched` — every search does.
* `dfs_returns` — with finitely many nodes enough fuel gives a result; `dfs_mono` — always the
  same one.
* `dfs_none_iff` — a search that has seen nothing finds nothing if and only if nothing that can be
  reached has a result: to leave out what was seen loses no way.

The graph is given by `look`; `dfs_returns` asks for a finite list of nodes that is closed under
it, and the other results for nothing.
-/

set_option autoImplicit false

namespace Recovery.Lib

variable {α ρ σ : Type}

/-- One after the other, until one has a result. -/
def firstOf (search : α → σ → Option (Option ρ × σ)) : List α → σ → Option (Option ρ × σ)
  | [], s => some (none, s)
  | a :: as, s =>
    match search a s with
    | none => none
    | some (some r, s) => some (some r, s)
    | some (none, s) => firstOf search as s

theorem firstOf_append (search : α → σ → Option (Option ρ × σ)) (as bs : List α) (s : σ) :
    firstOf search (as ++ bs) s =
      match firstOf search as s with
      | none => none
      | some (some r, s) => some (some r, s)
      | some (none, s) => firstOf search bs s := by
  induction as generalizing s with
  | nil => rfl
  | cons a as ih =>
    rw [List.cons_append, firstOf, firstOf]
    match search a s with
    | none => rfl
    | some (some r, s) => rfl
    | some (none, s) => exact ih s

theorem firstOf_mono {search search' : α → σ → Option (Option ρ × σ)}
    (h : ∀ a s o, search a s = some o → search' a s = some o) {as : List α} {s : σ}
    {o : Option ρ × σ} (ho : firstOf search as s = some o) : firstOf search' as s = some o := by
  induction as generalizing s with
  | nil => exact ho
  | cons a as ih =>
    rw [firstOf] at ho ⊢
    cases ha : search a s with
    | none => simp [ha] at ho
    | some p =>
      rw [h a s p ha]
      obtain ⟨_ | r, s'⟩ := p
      · simp only [ha] at ho
        exact ih ho
      · simpa only [ha] using ho

variable [DecidableEq α]

def dfs (look : α → ρ ⊕ List α) : Nat → α → List α → Option (Option ρ × List α)
  | 0, _, _ => none
  | fuel + 1, a, seen =>
    if a ∈ seen then some (none, seen)
    else
      match look a with
      | .inl r => some (some r, seen ++ [a])
      | .inr as => firstOf (dfs look fuel) as (seen ++ [a])

variable {look : α → ρ ⊕ List α}

omit [DecidableEq α] in
/-- From a node to one that is searched next. -/
def Next (look : α → ρ ⊕ List α) (a b : α) : Prop := ∃ bs, look a = .inr bs ∧ b ∈ bs

/-- More fuel changes nothing. -/
theorem dfs_mono {fuel fuel' : Nat} (hle : fuel ≤ fuel') {a : α} {seen : List α}
    {o : Option ρ × List α} (h : dfs look fuel a seen = some o) :
    dfs look fuel' a seen = some o := by
  induction fuel generalizing fuel' a seen o with
  | zero => cases h
  | succ fuel ih =>
    obtain ⟨fuel', rfl⟩ := Nat.exists_eq_add_one_of_ne_zero (show fuel' ≠ 0 by lia)
    rw [dfs] at h ⊢
    by_cases ha : a ∈ seen
    · rwa [if_pos ha] at h ⊢
    · rw [if_neg ha] at h ⊢
      cases hlook : look a with
      | inl r => simpa only [hlook] using h
      | inr as =>
        simp only [hlook] at h
        exact firstOf_mono (fun b s o hb => ih (by lia) hb) h

/-! ## What a search leaves behind -/

/-- A search from some nodes: what it returns, and what was seen before it and after it. -/
structure Searched (look : α → ρ ⊕ List α) (roots seen : List α) (r : Option ρ)
    (seen' : List α) : Prop where
  grows : seen ⊆ seen'
  nodup : seen.Nodup → seen'.Nodup
  /-- Without a result everything is seen, and everything that comes after something new. -/
  done : r = none → roots ⊆ seen' ∧
    ∀ b ∈ seen', b ∉ seen → ∃ bs, look b = .inr bs ∧ bs ⊆ seen'
  found : ∀ x, r = some x → ∃ a ∈ roots, ∃ b, Relation.ReflTransGen (Next look) a b ∧
    look b = .inl x

variable {roots seen seen' seen'' : List α} {r : Option ρ} {a : α}

omit [DecidableEq α] in
theorem Searched.nil : Searched look [] seen none seen where
  grows := List.Subset.refl _
  nodup := id
  done _ := ⟨List.nil_subset _, fun _ hb hnew => absurd hb hnew⟩
  found := nofun

omit [DecidableEq α] in
/-- A node that was seen is not searched again. -/
theorem Searched.of_mem (h : a ∈ seen) : Searched look [a] seen none seen where
  grows := List.Subset.refl _
  nodup := id
  done _ := ⟨List.cons_subset.2 ⟨h, List.nil_subset _⟩, fun _ hb hnew => absurd hb hnew⟩
  found := nofun

omit [DecidableEq α] in
theorem nodup_append_singleton (ha : a ∉ seen) (h : seen.Nodup) : (seen ++ [a]).Nodup := by
  rw [← List.concat_eq_append]
  exact h.concat ha

omit [DecidableEq α] in
theorem Searched.of_inl {x : ρ} (ha : a ∉ seen) (h : look a = .inl x) :
    Searched look [a] seen (some x) (seen ++ [a]) where
  grows := List.subset_append_left _ _
  nodup := nodup_append_singleton ha
  done := nofun
  found y hy := by
    cases hy
    exact ⟨a, List.mem_singleton_self a, a, .refl, h⟩

/-- A node that is new, and the search from what comes after it. -/
theorem Searched.of_inr {as : List α} (ha : a ∉ seen) (h : look a = .inr as)
    (ho : Searched look as (seen ++ [a]) r seen') : Searched look [a] seen r seen' where
  grows b hb := ho.grows (List.mem_append_left _ hb)
  nodup hseen := ho.nodup (nodup_append_singleton ha hseen)
  done hr := by
    obtain ⟨hroots, hnext⟩ := ho.done hr
    have hmem : a ∈ seen' := ho.grows (List.mem_append_right _ (List.mem_singleton_self a))
    refine ⟨List.cons_subset.2 ⟨hmem, List.nil_subset _⟩, fun b hb hnew => ?_⟩
    by_cases hba : b = a
    · rw [hba]
      exact ⟨as, h, hroots⟩
    · exact hnext b hb (by simp [hnew, hba])
  found x hx := by
    obtain ⟨c, hc, b, hcb, hb⟩ := ho.found x hx
    exact ⟨a, List.mem_singleton_self a, b, .head ⟨as, h, hc⟩ hcb, hb⟩

omit [DecidableEq α] in
theorem Searched.cons_some {x : ρ} {as : List α} (h : Searched look [a] seen (some x) seen') :
    Searched look (a :: as) seen (some x) seen' where
  grows := h.grows
  nodup := h.nodup
  done := nofun
  found y hy := by
    obtain ⟨c, hc, hb⟩ := h.found y hy
    rw [List.mem_singleton.1 hc] at hb
    exact ⟨a, List.mem_cons_self, hb⟩

/-- Something new to both searches or to the second one has all that comes after it seen. -/
theorem Searched.cons_none {as : List α} (h : Searched look [a] seen none seen')
    (has : Searched look as seen' r seen'') : Searched look (a :: as) seen r seen'' where
  grows := List.Subset.trans h.grows has.grows
  nodup hseen := has.nodup (h.nodup hseen)
  done hr := by
    obtain ⟨ha, hold⟩ := h.done rfl
    obtain ⟨hroots, hnew⟩ := has.done hr
    refine ⟨List.cons_subset.2 ⟨has.grows (ha List.mem_cons_self), hroots⟩, fun b hb hbs => ?_⟩
    by_cases hb' : b ∈ seen'
    · obtain ⟨bs, hlook, hsub⟩ := hold b hb' hbs
      exact ⟨bs, hlook, List.Subset.trans hsub has.grows⟩
    · exact hnew b hb hb'
  found x hx := by
    obtain ⟨c, hc, hb⟩ := has.found x hx
    exact ⟨c, List.mem_cons_of_mem a hc, hb⟩

theorem firstOf_searched {search : α → List α → Option (Option ρ × List α)}
    (h : ∀ a seen r seen', search a seen = some (r, seen') → Searched look [a] seen r seen')
    {as : List α} (ho : firstOf search as seen = some (r, seen')) :
    Searched look as seen r seen' := by
  induction as generalizing seen with
  | nil =>
    cases ho
    exact .nil
  | cons a as ih =>
    rw [firstOf] at ho
    cases ha : search a seen with
    | none => simp [ha] at ho
    | some p =>
      obtain ⟨_ | x, s⟩ := p
      · simp only [ha] at ho
        exact (h a seen none s ha).cons_none (ih ho)
      · simp only [ha] at ho
        cases ho
        exact (h a seen (some x) seen' ha).cons_some

theorem dfs_searched {fuel : Nat} (h : dfs look fuel a seen = some (r, seen')) :
    Searched look [a] seen r seen' := by
  induction fuel generalizing a seen r seen' with
  | zero => cases h
  | succ fuel ih =>
    rw [dfs] at h
    by_cases ha : a ∈ seen
    · rw [if_pos ha] at h
      cases h
      exact .of_mem ha
    · rw [if_neg ha] at h
      cases hlook : look a with
      | inl x =>
        simp only [hlook] at h
        cases h
        exact .of_inl ha hlook
      | inr as =>
        simp only [hlook] at h
        exact .of_inr ha hlook (firstOf_searched (fun b s r s' hb => ih hb) h)

/-! ## The search ends -/

/-- What comes after a node of the set is in it. -/
def ClosedUnder (look : α → ρ ⊕ List α) (nodes : Finset α) : Prop :=
  ∀ a ∈ nodes, ∀ b, Next look a b → b ∈ nodes

def unseen (nodes : Finset α) (seen : List α) : Nat := (nodes.filter (· ∉ seen)).card

variable {nodes : Finset α}

theorem unseen_le (h : seen ⊆ seen') : unseen nodes seen' ≤ unseen nodes seen :=
  Finset.card_le_card (Finset.monotone_filter_right nodes fun _ _ hb hs => hb (h hs))

theorem unseen_lt (ha : a ∈ nodes) (hnew : a ∉ seen) :
    unseen nodes (seen ++ [a]) < unseen nodes seen := by
  refine Finset.card_lt_card ⟨?_, fun hsub => ?_⟩
  · exact Finset.monotone_filter_right nodes fun _ _ hb hs => hb (List.mem_append_left _ hs)
  · have hmem := hsub (Finset.mem_filter.2 ⟨ha, hnew⟩)
    exact (Finset.mem_filter.1 hmem).2 (List.mem_append_right _ (List.mem_singleton_self a))

theorem dfs_returns (hclosed : ClosedUnder look nodes) {fuel : Nat} (ha : a ∈ nodes)
    (hfuel : unseen nodes seen < fuel) : ∃ o, dfs look fuel a seen = some o := by
  induction fuel generalizing a seen with
  | zero => lia
  | succ fuel ih =>
    rw [dfs]
    by_cases hseen : a ∈ seen
    · exact ⟨_, if_pos hseen⟩
    · rw [if_neg hseen]
      cases hlook : look a with
      | inl r => exact ⟨_, rfl⟩
      | inr as =>
        have hlt := unseen_lt ha hseen
        have has : ∀ b ∈ as, b ∈ nodes := fun b hb => hclosed a ha b ⟨as, hlook, hb⟩
        -- the nodes that are left have at least as much seen as the first of them
        have hall : ∀ (bs s : List α), bs ⊆ as → unseen nodes s < fuel →
            ∃ o, firstOf (dfs look fuel) bs s = some o := by
          intro bs
          induction bs with
          | nil => exact fun s _ _ => ⟨_, rfl⟩
          | cons b bs ihbs =>
            intro s hbs hs
            obtain ⟨hb, hrest⟩ := List.cons_subset.1 hbs
            obtain ⟨⟨r, s'⟩, hsearch⟩ := ih (has b hb) hs
            rw [firstOf, hsearch]
            cases r with
            | some x => exact ⟨_, rfl⟩
            | none =>
              have hle : unseen nodes s' ≤ unseen nodes s :=
                unseen_le (dfs_searched hsearch).grows
              exact ihbs s' hrest (by lia)
        exact hall as _ (List.Subset.refl _) (by lia)

/-! ## What it finds -/

/-- **To leave out what was seen loses no way to a result.** -/
theorem dfs_none_iff {fuel : Nat} (h : dfs look fuel a [] = some (r, seen')) :
    r = none ↔ ∀ b, Relation.ReflTransGen (Next look) a b → ∀ x, look b ≠ .inl x := by
  have ho := dfs_searched h
  constructor
  · intro hr b hab x hx
    obtain ⟨hroot, hnext⟩ := ho.done hr
    have hmem : b ∈ seen' := by
      clear hx
      induction hab with
      | refl => exact hroot List.mem_cons_self
      | tail _ hstep ih =>
        obtain ⟨bs, hlook, hb⟩ := hstep
        obtain ⟨cs, hlook', hsub⟩ := hnext _ ih List.not_mem_nil
        rw [hlook] at hlook'
        cases hlook'
        exact hsub hb
    obtain ⟨bs, hlook, -⟩ := hnext b hmem List.not_mem_nil
    rw [hlook] at hx
    cases hx
  · intro hnone
    cases hr : r with
    | none => rfl
    | some x =>
      obtain ⟨c, hc, b, hcb, hb⟩ := ho.found x hr
      rw [List.mem_singleton.1 hc] at hcb
      exact absurd hb (hnone b hcb x)

end Recovery.Lib
