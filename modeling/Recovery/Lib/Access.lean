import Mathlib.Algebra.Order.Ring.Int
import Mathlib.Data.List.Basic

/-!
# Code over raw memory

* `Access α` — the result of a computation that reads a buffer through unchecked indices: a value,
  or the `Fault` that ended it.
* `readAt`, `readSlice`, `writeAt` — reads and writes, which fault outside the buffer.
* `Attempt α` — such a computation that may also give up.
* `add64`, `sub64`, `shl64` — `size_t` arithmetic, modulo `2 ^ 64`; `add64_eq`, `sub64_eq` and
  `shl64_eq` are what they are when nothing wraps.

An index is a number and a buffer a list: whether the code looks behind the end is then a question
about `readAt`, and a proof that no fault occurs is a proof of memory safety.
-/

set_option autoImplicit false

namespace Recovery.Memory

inductive Fault where
  /-- A read or write outside the buffer. -/
  | outOfBounds
  /-- A failed `CHECK`. -/
  | aborted
  /-- A loop that does not end. -/
  | stuck
  deriving DecidableEq, Repr

abbrev Access (α : Type) : Type := Except Fault α

/-! ## Reads -/

def readAt (mem : List UInt8) (i : Nat) : Access UInt8 :=
  match mem[i]? with
  | some b => .ok b
  | none => .error .outOfBounds

/-- Read `n` bytes from offset `i` on; nothing is touched when `n` is zero. -/
def readSlice (mem : List UInt8) (i n : Nat) : Access (List UInt8) :=
  if n = 0 ∨ i + n ≤ mem.length then .ok ((mem.drop i).take n) else .error .outOfBounds

def writeAt {α : Type} (mem : List α) (i : Nat) (a : α) : Access (List α) :=
  if i < mem.length then .ok (mem.set i a) else .error .outOfBounds

theorem writeAt_eq {α : Type} {mem : List α} {i : Nat} (h : i < mem.length) (a : α) :
    writeAt mem i a = .ok (mem.set i a) :=
  if_pos h

theorem readAt_eq {mem : List UInt8} {i : Nat} (h : i < mem.length) :
    readAt mem i = .ok mem[i] := by
  unfold readAt
  rw [List.getElem?_eq_getElem h]

theorem readSlice_eq {mem : List UInt8} {i n : Nat} (h : i + n ≤ mem.length) :
    readSlice mem i n = .ok ((mem.drop i).take n) :=
  if_pos (Or.inr h)

@[simp] theorem ok_bind {α β : Type} (a : α) (f : α → Access β) :
    (Except.ok a : Access α) >>= f = f a := rfl

@[simp] theorem pure_eq_ok {α : Type} (a : α) : (pure a : Access α) = .ok a := rfl

/-! ## Giving up -/

abbrev Attempt (α : Type) : Type := OptionT Access α

/-- Give up on `none`. -/
def attempt {α : Type} (o : Option α) : Attempt α := OptionT.mk (.ok o)

@[simp] theorem attempt_run {α : Type} (o : Option α) : (attempt o).run = .ok o := rfl

theorem bind_run_ok {α β : Type} {x : Attempt α} {f : α → Attempt β} {b : β} :
    (x >>= f).run = .ok (some b) ↔ ∃ a, x.run = .ok (some a) ∧ (f a).run = .ok (some b) := by
  rw [OptionT.run_bind]
  cases x.run with
  | error e => simp [Option.elimM, bind, Except.bind]
  | ok o => cases o <;> simp [Option.elimM, bind, Except.bind]

theorem bind_run_error {α β : Type} {x : Attempt α} {f : α → Attempt β} {e : Fault} :
    (x >>= f).run = .error e ↔
      x.run = .error e ∨ ∃ a, x.run = .ok (some a) ∧ (f a).run = .error e := by
  rw [OptionT.run_bind]
  cases x.run with
  | error e => simp [Option.elimM, bind, Except.bind]
  | ok o => cases o <;> simp [Option.elimM, bind, Except.bind]

/-- A guard lets every result through but the one that it gives. -/
theorem guard_run {α : Type} {c : Prop} [Decidable c] {x : Attempt α} {r : Access (Option α)}
    (hr : r ≠ .ok none) : (if c then failure else x).run = r ↔ ¬c ∧ x.run = r := by
  split
  · rename_i hc
    exact iff_of_false (fun h => hr h.symm) fun h => absurd hc h.1
  · rename_i hc
    simp [hc]

theorem guard_run_ok {α : Type} {c : Prop} [Decidable c] {x : Attempt α} {a : α} :
    (if c then failure else x).run = .ok (some a) ↔ ¬c ∧ x.run = .ok (some a) :=
  guard_run (by simp)

theorem guard_run_error {α : Type} {c : Prop} [Decidable c] {x : Attempt α} {e : Fault} :
    (if c then failure else x).run = .error e ↔ ¬c ∧ x.run = .error e :=
  guard_run (by simp)

/-- A write as a step of such a computation. -/
theorem lift_run_ok {α : Type} {x : Access α} {a : α} :
    (liftM x : Attempt α).run = .ok (some a) ↔ x = .ok a := by
  cases x with
  | error e =>
    constructor
    · intro h
      cases h
    · intro h
      cases h
  | ok b =>
    constructor
    · intro h
      cases h
      rfl
    · intro h
      cases h
      rfl

theorem lift_run_error {α : Type} {x : Access α} {e : Fault} :
    (liftM x : Attempt α).run = .error e ↔ x = .error e := by
  cases x with
  | error e' =>
    constructor
    · intro h
      cases h
      rfl
    · intro h
      cases h
      rfl
  | ok b =>
    constructor
    · intro h
      cases h
    · intro h
      cases h

/-! ## `size_t` arithmetic -/

def add64 (a b : Nat) : Nat := (a + b) % 2 ^ 64
def sub64 (a b : Nat) : Nat := (a + 2 ^ 64 - b) % 2 ^ 64
def shl64 (a k : Nat) : Nat := (a <<< k) % 2 ^ 64

theorem add64_eq {a b : Nat} (h : a + b < 2 ^ 64) : add64 a b = a + b := Nat.mod_eq_of_lt h

theorem sub64_eq {a b : Nat} (h : b ≤ a) (ha : a < 2 ^ 64) : sub64 a b = a - b := by
  unfold sub64
  rw [show a + 2 ^ 64 - b = a - b + 2 ^ 64 by lia, Nat.add_mod_right,
    Nat.mod_eq_of_lt (by lia)]

theorem shl64_eq {a k : Nat} (h : a * 2 ^ k < 2 ^ 64) : shl64 a k = a * 2 ^ k := by
  unfold shl64
  rw [Nat.shiftLeft_eq, Nat.mod_eq_of_lt h]

end Recovery.Memory
