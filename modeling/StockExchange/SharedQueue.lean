import StockExchange.LockFreeQueue

/-!
# One producer and one consumer on the queue

The steps of the two threads interleave freely. The counter lags behind both indices: an
element is published when it is counted, and its cell is given back when it is counted off.
-/

namespace StockExchange

open Transitions

/-- How far the producer is with its next element. -/
inductive Producer (α : Type) where
  | idle
  | stored (value : α)
  | advanced (value : α)

/-- How far the consumer is: it has found the counter positive, read the element, found the
counter positive again in `next_read_index`, advanced its index. -/
inductive Consumer where
  | idle
  | loaded
  | taken
  | releasing
  | advanced
deriving DecidableEq

def Producer.isIdle {α : Type} : Producer α → Bool
  | .idle => true
  | _ => false

/-- The queue, its two threads, and what they have published and read so far. -/
structure SharedQueue (α : Type) where
  queue : LockFreeQueue α
  producer : Producer α
  consumer : Consumer
  published : List α
  consumed : List α

inductive QueueStep (α : Type) where
  | produce (value : α)
  | consume

namespace SharedQueue
variable {α : Type}

def create (default : α) (size : Nat) : SharedQueue α :=
  ⟨.create default size, .idle, .idle, [], []⟩

/-- The next step of one of the threads; the value matters only when a store begins. -/
def step (s : SharedQueue α) : QueueStep α → SharedQueue α
  | .produce value =>
    match s.producer with
    | .idle => { s with queue := s.queue.store value, producer := .stored value }
    | .stored v => { s with queue := s.queue.advanceWrite, producer := .advanced v }
    | .advanced v =>
      { s with queue := s.queue.increment, producer := .idle, published := s.published ++ [v] }
  | .consume =>
    match s.consumer with
    | .idle => if s.queue.numElements = 0 then s else { s with consumer := .loaded }
    | .loaded =>
      { s with consumed := s.consumed ++ [s.queue.readElement], consumer := .taken }
    | .taken =>
      if s.queue.numElements = 0 then { s with consumer := .idle }
      else { s with consumer := .releasing }
    | .releasing => { s with queue := s.queue.advanceRead, consumer := .advanced }
    | .advanced => { s with queue := s.queue.decrement, consumer := .idle }

def next (s : SharedQueue α) (e : QueueStep α) : Except Fault (SharedQueue α) := .ok (s.step e)

/-- A store begins only when the counter is below the capacity. -/
def Admits (s : SharedQueue α) : QueueStep α → Prop
  | .produce _ => s.producer.isIdle = true → s.queue.numElements < s.queue.size
  | .consume => True

instance (s : SharedQueue α) : ∀ e, Decidable (s.Admits e)
  | .produce _ => inferInstanceAs (Decidable (_ = true → _))
  | .consume => .isTrue trivial

/-- A run of the two threads in some order. -/
abbrev Reached (default : α) (size : Nat) (es : List (QueueStep α)) (s : SharedQueue α) : Prop :=
  Transitions.Reached next Admits (create default size) es s

end SharedQueue

namespace Producer
variable {α : Type}

/-- The element that is stored but not published. -/
def pending : Producer α → List α
  | .idle => []
  | .stored v => [v]
  | .advanced v => [v]

/-- How far the index is ahead of what is published. -/
def ahead : Producer α → Nat
  | .advanced _ => 1
  | _ => 0

end Producer

namespace Consumer

/-- How many elements are read but not given back. -/
def held : Consumer → Nat
  | .idle => 0
  | .loaded => 0
  | _ => 1

def ahead : Consumer → Nat
  | .advanced => 1
  | _ => 0

end Consumer

namespace SharedQueue
variable {α : Type}

/-- What is published falls into the elements given back and those still in their cells. -/
structure Fifo (s : SharedQueue α) (returned unread : List α) : Prop where
  published : s.published = returned ++ unread
  holds : s.queue.Holds (s.published.length + s.producer.ahead)
    (returned.length + s.consumer.ahead) returned.length (unread ++ s.producer.pending)
  consumed : s.consumed = returned ++ unread.take s.consumer.held
  counted : s.queue.numElements = unread.length
  room : (unread ++ s.producer.pending).length ≤ s.queue.size
  busy : s.consumer ≠ .idle → unread ≠ []

variable {s : SharedQueue α} {returned unread : List α}

theorem create_fifo (default : α) (size : Nat) : (create default size).Fifo [] [] :=
  ⟨rfl, LockFreeQueue.create_holds default size, rfl, rfl, Nat.zero_le _, fun h => absurd rfl h⟩

theorem produce_fifo (h : s.Fifo returned unread) (value : α)
    (hstart : s.Admits (.produce value)) :
    ∃ unread', (s.step (.produce value)).Fifo returned unread' := by
  obtain ⟨q, producer, consumer, published, consumed⟩ := s
  obtain ⟨hpub, hholds, hcons, hcount, hroom, hbusy⟩ := h
  dsimp only at hpub hholds hcons hcount hroom hbusy
  cases producer with
  | idle =>
    have hfree : unread.length < q.size := hcount ▸ hstart rfl
    simp only [Producer.pending, List.append_nil] at hholds
    refine ⟨unread, hpub, ?_, hcons, hcount, ?_, hbusy⟩
    · apply hholds.store _ hfree
      simp only [hpub, List.length_append, Producer.ahead, Nat.add_zero]
    · simp only [step, Producer.pending, List.length_append, List.length_singleton,
        LockFreeQueue.size_store]
      exact hfree
  | stored v => exact ⟨unread, hpub, hholds.advanceWrite, hcons, hcount, hroom, hbusy⟩
  | advanced v =>
    refine ⟨unread ++ [v], ?_, ?_, ?_, ?_, ?_, fun _ => by simp⟩
    · simp only [step, hpub, List.append_assoc]
    · simpa only [step, List.length_append, List.length_singleton, Producer.pending,
        List.append_nil, Producer.ahead, Nat.add_zero] using hholds.increment
    · -- the element the consumer holds is not the new one
      have hheld : consumer.held ≤ unread.length := by
        cases consumer with
        | idle => exact Nat.zero_le _
        | loaded => exact Nat.zero_le _
        | _ => exact List.length_pos_of_ne_nil (hbusy nofun)
      simpa only [step, List.take_append_of_le_length hheld] using hcons
    · simp only [step, LockFreeQueue.numElements_increment, hcount, List.length_append,
        List.length_singleton]
    · simpa only [step, Producer.pending, List.append_nil, LockFreeQueue.size_increment]
        using hroom

theorem consume_fifo (h : s.Fifo returned unread) :
    ∃ returned' unread', (s.step .consume).Fifo returned' unread' := by
  obtain ⟨q, producer, consumer, published, consumed⟩ := s
  obtain ⟨hpub, hholds, hcons, hcount, hroom, hbusy⟩ := h
  dsimp only at hpub hholds hcons hcount hroom hbusy
  cases consumer with
  | idle =>
    by_cases hzero : q.numElements = 0
    · simp only [step, if_pos hzero]
      exact ⟨returned, unread, hpub, hholds, hcons, hcount, hroom, hbusy⟩
    · simp only [step, if_neg hzero]
      refine ⟨returned, unread, hpub, hholds, hcons, hcount, hroom, ?_⟩
      rintro - rfl
      exact hzero hcount
  | loaded =>
    obtain ⟨x, rest, rfl⟩ := List.exists_cons_of_ne_nil (hbusy nofun)
    refine ⟨returned, x :: rest, hpub, hholds, ?_, hcount, hroom, fun _ => nofun⟩
    have hx : q.readElement = x := hholds.readElement
    simp only [step, hx, hcons, Consumer.held, List.take_zero, List.append_nil,
      List.take_succ_cons]
  | taken =>
    have hne := hbusy nofun
    have hzero : q.numElements ≠ 0 := by
      rw [hcount]
      exact Nat.ne_of_gt (List.length_pos_of_ne_nil hne)
    simp only [step, if_neg hzero]
    exact ⟨returned, unread, hpub, hholds, hcons, hcount, hroom, fun _ => hne⟩
  | releasing =>
    exact ⟨returned, unread, hpub, hholds.advanceRead, hcons, hcount, hroom,
      fun _ => hbusy nofun⟩
  | advanced =>
    obtain ⟨x, rest, rfl⟩ := List.exists_cons_of_ne_nil (hbusy nofun)
    refine ⟨returned ++ [x], rest, ?_, ?_, ?_, ?_, ?_, fun h => absurd rfl h⟩
    · simp only [step, hpub, List.append_assoc, List.singleton_append]
    · rw [List.cons_append] at hholds
      simpa only [step, List.length_append, List.length_singleton, Consumer.ahead,
        Nat.add_zero] using hholds.decrement.release
    · simp only [step, hcons, Consumer.held, List.take_succ_cons, List.take_zero,
        List.append_nil]
    · simp only [step, LockFreeQueue.numElements_decrement, hcount, List.length_cons,
        Nat.add_sub_cancel]
    · simp only [step, List.cons_append, List.length_cons, LockFreeQueue.size_decrement]
        at hroom ⊢
      omega

theorem size_step (s : SharedQueue α) (e : QueueStep α) :
    (s.step e).queue.size = s.queue.size := by
  cases e with
  | produce value =>
    rw [step]
    cases s.producer <;> rfl
  | consume =>
    rw [step]
    cases s.consumer <;> dsimp only <;> (try split) <;> rfl

section Runs
variable {default : α} {size : Nat} {es : List (QueueStep α)}

theorem reached_fifo (h : Reached default size es s) :
    ∃ returned unread, s.Fifo returned unread := by
  refine Transitions.Reached.invariant (P := fun s => ∃ returned unread, Fifo s returned unread)
    ⟨[], [], create_fifo default size⟩ ?_ h
  rintro s e s' ⟨returned, unread, hfifo⟩ hstart hstep
  cases hstep
  cases e with
  | produce value => exact ⟨returned, produce_fifo hfifo value hstart⟩
  | consume => exact consume_fifo hfifo

theorem reached_size (h : Reached default size es s) : s.queue.size = size := by
  refine Transitions.Reached.invariant (P := fun s : SharedQueue α => s.queue.size = size)
    rfl ?_ h
  intro s e s' hsize _ hstep
  cases hstep
  rw [size_step, hsize]

/-- The consumer reads what was published, in order; nothing is overwritten before it is
read, the counter never passes the capacity, and it is zero only when all has been read. -/
theorem sharedQueue_refines_fifo (h : Reached default size es s) :
    s.consumed <+: s.published ∧
    (∀ i (hi : i < s.published.length), s.consumed.length ≤ i →
      s.queue.data (i % size) = s.published[i]) ∧
    s.queue.numElements ≤ size ∧
    (s.queue.nextReadElement = none → s.consumed = s.published) := by
  obtain ⟨returned, unread, hpub, hholds, hcons, hcount, hroom, hbusy⟩ := reached_fifo h
  have hsize := reached_size h
  refine ⟨?_, ?_, ?_, ?_⟩
  · rw [hcons, hpub, List.prefix_append_right_inj]
    exact List.take_prefix _ _
  · intro i hi hle
    have hfrom : returned.length ≤ i := by
      rw [hcons, List.length_append] at hle
      omega
    obtain ⟨k, rfl⟩ := Nat.exists_eq_add_of_le hfrom
    have hk : k < unread.length := by
      rw [hpub, List.length_append] at hi
      omega
    have hcell := hholds.window.left k hk
    simp only [hpub]
    rw [← hsize, hcell, List.getElem_append_right (by omega)]
    congr 1
    omega
  · rw [List.length_append] at hroom
    omega
  · intro hnull
    have hzero : s.queue.numElements = 0 := by
      by_contra hne
      simp [LockFreeQueue.nextReadElement, hne] at hnull
    have hnil : unread = [] := List.eq_nil_of_length_eq_zero (hcount ▸ hzero)
    rw [hcons, hpub, hnil, List.take_nil]

end Runs

/-- A ring of two cells that has wrapped, with both threads in the middle of their work. -/
theorem sharedQueue_refines_fifo_sample : ∃ s : SharedQueue Nat,
    s.published = [1, 2, 3] ∧ s.consumed = [1, 2] ∧ s.consumed <+: s.published ∧
    (∀ i (hi : i < s.published.length), s.consumed.length ≤ i →
      s.queue.data (i % 2) = s.published[i]) ∧
    s.queue.numElements ≤ 2 ∧
    (s.queue.nextReadElement = none → s.consumed = s.published) := by
  obtain ⟨s, hs, hcheck⟩ := @reached_of_any _ _ _ next Admits (create 0 2)
    [.produce 1, .produce 1, .produce 1, .consume, .produce 2, .consume, .produce 2, .consume,
      .produce 2, .consume, .consume, .produce 3, .produce 3, .consume, .consume, .produce 3,
      .consume]
    _ (fun s => s.published = [1, 2, 3] ∧ s.consumed = [1, 2]) (by decide +kernel)
  obtain ⟨hpub, hcons⟩ := of_decide_eq_true hcheck
  exact ⟨s, hpub, hcons, sharedQueue_refines_fifo hs⟩

end SharedQueue

end StockExchange
