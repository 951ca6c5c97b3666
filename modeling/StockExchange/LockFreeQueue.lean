import StockExchange.Models
import StockExchange.Library.Circular
import StockExchange.Library.Transitions

/-!
# The lock-free queue

A ring of `size` cells, two indices and an atomic counter. Neither side checks whether the
ring is full. The producer stores, advances its index and counts in three steps; the
consumer finds the counter positive, reads, advances its index and counts down.
-/

namespace StockExchange

open Circular

/-- `lock_free_queue<T>`; `size` is that of `data_`. -/
structure LockFreeQueue (α : Type) where
  size : Nat
  data : Nat → α
  nextWriteIndex : Nat
  nextReadIndex : Nat
  numElements : Nat

namespace LockFreeQueue
variable {α : Type}

def create (default : α) (size : Nat) : LockFreeQueue α := ⟨size, fun _ => default, 0, 0, 0⟩

/-! The steps of the two sides, each atomic. -/

/-- Assigning through `get_next_write_element`. -/
def store (q : LockFreeQueue α) (value : α) : LockFreeQueue α :=
  { q with data := Function.update q.data q.nextWriteIndex value }

def advanceWrite (q : LockFreeQueue α) : LockFreeQueue α :=
  { q with nextWriteIndex := (q.nextWriteIndex + 1) % q.size }

def increment (q : LockFreeQueue α) : LockFreeQueue α :=
  { q with numElements := q.numElements + 1 }

/-- Reading through the pointer of `get_next_read_element`. -/
def readElement (q : LockFreeQueue α) : α := q.data q.nextReadIndex

def advanceRead (q : LockFreeQueue α) : LockFreeQueue α :=
  { q with nextReadIndex := (q.nextReadIndex + 1) % q.size }

def decrement (q : LockFreeQueue α) : LockFreeQueue α :=
  { q with numElements := q.numElements - 1 }

/-- The element is stored and `next_write_index` is called, with no step of the consumer
in between. -/
def push (q : LockFreeQueue α) (value : α) : LockFreeQueue α :=
  (q.store value).advanceWrite.increment

/-- What `get_next_read_element` points to, `none` for a null pointer. -/
def nextReadElement (q : LockFreeQueue α) : Option α :=
  if q.numElements = 0 then none else some q.readElement

def pop (q : LockFreeQueue α) : LockFreeQueue α :=
  if q.numElements = 0 then q else q.advanceRead.decrement

section Fields
variable (q : LockFreeQueue α) (value : α)

@[simp] theorem size_store : (q.store value).size = q.size := rfl
@[simp] theorem size_advanceWrite : q.advanceWrite.size = q.size := rfl
@[simp] theorem size_increment : q.increment.size = q.size := rfl
@[simp] theorem size_advanceRead : q.advanceRead.size = q.size := rfl
@[simp] theorem size_decrement : q.decrement.size = q.size := rfl
@[simp] theorem numElements_store : (q.store value).numElements = q.numElements := rfl
@[simp] theorem numElements_advanceWrite : q.advanceWrite.numElements = q.numElements := rfl
@[simp] theorem numElements_increment : q.increment.numElements = q.numElements + 1 := rfl
@[simp] theorem numElements_advanceRead : q.advanceRead.numElements = q.numElements := rfl
@[simp] theorem numElements_decrement : q.decrement.numElements = q.numElements - 1 := rfl
end Fields

/-- The producer is about to store element number `w`, the consumer to read number `r`,
and the cells from number `lo` on hold `xs`. -/
structure Holds (q : LockFreeQueue α) (w r lo : Nat) (xs : List α) : Prop where
  write : q.nextWriteIndex = w % q.size
  read : q.nextReadIndex = r % q.size
  window : Window q.size q.data lo xs

section Steps
variable {q : LockFreeQueue α} {w r lo : Nat} {x : α} {xs : List α}

theorem create_holds (default : α) (size : Nat) : (create default size).Holds 0 0 0 [] :=
  ⟨(Nat.zero_mod _).symm, (Nat.zero_mod _).symm, Window.nil⟩

theorem Holds.store (h : q.Holds w r lo xs) (hnext : w = lo + xs.length)
    (hroom : xs.length < q.size) (value : α) : (q.store value).Holds w r lo (xs ++ [value]) := by
  refine ⟨h.write, h.read, ?_⟩
  rw [LockFreeQueue.store, h.write, hnext]
  exact h.window.store hroom value

theorem Holds.advanceWrite (h : q.Holds w r lo xs) : q.advanceWrite.Holds (w + 1) r lo xs := by
  refine ⟨?_, h.read, h.window⟩
  rw [LockFreeQueue.advanceWrite, h.write]
  exact succ_mod w

theorem Holds.increment (h : q.Holds w r lo xs) : q.increment.Holds w r lo xs :=
  ⟨h.write, h.read, h.window⟩

theorem Holds.readElement (h : q.Holds w lo lo (x :: xs)) : q.readElement = x := by
  rw [LockFreeQueue.readElement, h.read]
  exact h.window.head

theorem Holds.advanceRead (h : q.Holds w r lo xs) : q.advanceRead.Holds w (r + 1) lo xs := by
  refine ⟨h.write, ?_, h.window⟩
  rw [LockFreeQueue.advanceRead, h.read]
  exact succ_mod r

theorem Holds.decrement (h : q.Holds w r lo xs) : q.decrement.Holds w r lo xs :=
  ⟨h.write, h.read, h.window⟩

/-- The first cell is given back. -/
theorem Holds.release (h : q.Holds w r lo (x :: xs)) : q.Holds w r (lo + 1) xs :=
  ⟨h.write, h.read, h.window.tail⟩

theorem Holds.nextReadElement (h : q.Holds w lo lo (x :: xs)) (hcount : q.numElements ≠ 0) :
    q.nextReadElement = some x := by
  rw [LockFreeQueue.nextReadElement, if_neg hcount, h.readElement]

theorem Holds.pop (h : q.Holds w lo lo (x :: xs)) (hcount : q.numElements ≠ 0) :
    q.pop.Holds w (lo + 1) (lo + 1) xs ∧ q.pop.numElements = q.numElements - 1 := by
  rw [LockFreeQueue.pop, if_neg hcount]
  exact ⟨h.advanceRead.decrement.release, rfl⟩

end Steps

/-- Every element that was ever pushed has `p`, whether or not the ring has overflowed. -/
def All (q : LockFreeQueue α) (p : α → Prop) : Prop :=
  ∃ w r, q.nextWriteIndex = w % q.size ∧ q.nextReadIndex = r % q.size ∧
    r + q.numElements = w ∧ ∀ i < w, p (q.data (i % q.size))

section All
variable {q : LockFreeQueue α} {p : α → Prop} {x : α}

theorem create_all (default : α) (size : Nat) (p : α → Prop) : (create default size).All p :=
  ⟨0, 0, (Nat.zero_mod _).symm, (Nat.zero_mod _).symm, rfl, nofun⟩

theorem All.mono {p' : α → Prop} (h : q.All p) (hle : ∀ x, p x → p' x) : q.All p' := by
  obtain ⟨w, r, hw, hr, hcount, hall⟩ := h
  exact ⟨w, r, hw, hr, hcount, fun i hi => hle _ (hall i hi)⟩

theorem All.push (h : q.All p) (hx : p x) : (q.push x).All p := by
  obtain ⟨w, r, hw, hr, hcount, hall⟩ := h
  refine ⟨w + 1, r, ?_, hr, ?_, fun i hi => ?_⟩
  · show (q.nextWriteIndex + 1) % q.size = _
    rw [hw]
    exact succ_mod w
  · show r + (q.numElements + 1) = w + 1
    omega
  · show p (Function.update q.data q.nextWriteIndex x (i % q.size))
    by_cases hcell : i % q.size = q.nextWriteIndex
    · rw [hcell, Function.update_self]
      exact hx
    · rw [Function.update_of_ne hcell]
      apply hall
      rcases Nat.lt_succ_iff_lt_or_eq.mp hi with hlt | rfl
      · exact hlt
      · exact absurd hw.symm hcell

theorem All.pop (h : q.All p) : q.pop.All p := by
  rw [LockFreeQueue.pop]
  split
  · exact h
  · obtain ⟨w, r, hw, hr, hcount, hall⟩ := h
    refine ⟨w, r + 1, hw, ?_, ?_, hall⟩
    · show (q.nextReadIndex + 1) % q.size = _
      rw [hr]
      exact succ_mod r
    · show r + 1 + (q.numElements - 1) = w
      omega

theorem All.next (h : q.All p) (hx : q.nextReadElement = some x) : p x := by
  obtain ⟨w, r, hw, hr, hcount, hall⟩ := h
  rw [nextReadElement] at hx
  split at hx
  · cases hx
  · rw [← Option.some.inj hx, readElement, hr]
    exact hall r (by omega)

end All

section Contents
variable {q : LockFreeQueue α} {x : α} {xs ys : List α}

/-- The elements that wait, the oldest first. -/
def contents (q : LockFreeQueue α) : List α :=
  (List.range q.numElements).map fun k => q.data ((q.nextReadIndex + k) % q.size)

/-- The elements that wait are `xs`, each still in its cell. -/
def Queues (q : LockFreeQueue α) (xs : List α) : Prop :=
  q.numElements = xs.length ∧ ∃ r, q.Holds (r + xs.length) r r xs

theorem create_queues (default : α) (size : Nat) : (create default size).Queues [] :=
  ⟨rfl, 0, create_holds default size⟩

theorem Queues.contents (h : q.Queues xs) : q.contents = xs := by
  obtain ⟨hcount, r, hholds⟩ := h
  apply List.ext_getElem
  · rw [LockFreeQueue.contents, List.length_map, List.length_range, hcount]
  · intro k hk hk'
    simp only [LockFreeQueue.contents, List.getElem_map, List.getElem_range, hholds.read,
      Nat.mod_add_mod]
    exact hholds.window k hk'

theorem Queues.push (h : q.Queues xs) (hroom : q.numElements < q.size) (x : α) :
    (q.push x).Queues (xs ++ [x]) := by
  obtain ⟨hcount, r, hholds⟩ := h
  refine ⟨?_, r, ?_⟩
  · rw [List.length_append, ← hcount]
    rfl
  · rw [List.length_append, List.length_singleton, ← Nat.add_assoc]
    exact (hholds.store rfl (hcount ▸ hroom) x).advanceWrite.increment

theorem Queues.pushAll (h : q.Queues xs) (hroom : q.numElements + ys.length ≤ q.size) :
    (ys.foldl .push q).Queues (xs ++ ys) := by
  induction ys generalizing q xs with
  | nil => rwa [List.append_nil]
  | cons y ys ih =>
    rw [List.length_cons] at hroom
    have hcount : (q.push y).numElements = q.numElements + 1 := rfl
    have hsize : (q.push y).size = q.size := rfl
    have hrest := ih (h.push (by omega) y) (by omega)
    rwa [List.append_assoc] at hrest

theorem Queues.next (h : q.Queues xs) : q.nextReadElement = xs.head? := by
  obtain ⟨hcount, r, hholds⟩ := h
  cases xs with
  | nil => exact if_pos hcount
  | cons x xs => exact hholds.nextReadElement (by rw [hcount]; exact Nat.succ_ne_zero _)

theorem Queues.pop (h : q.Queues (x :: xs)) : q.pop.Queues xs := by
  obtain ⟨hcount, r, hholds⟩ := h
  obtain ⟨hpop, hnum⟩ := hholds.pop (by rw [hcount]; exact Nat.succ_ne_zero _)
  refine ⟨by rw [hnum, hcount]; rfl, r + 1, ?_⟩
  have hwrite : r + (x :: xs).length = r + 1 + xs.length := by
    rw [List.length_cons]
    omega
  rwa [hwrite] at hpop

end Contents

end LockFreeQueue

end StockExchange
