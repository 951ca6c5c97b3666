import StockExchange.MarketDataPublisher
import StockExchange.SharedQueue

/-!
# The live feed and the snapshot stream

The engine writes updates into the queue while the publisher copies each of them twice: into
the incremental buffer, and, after the element has been handed back, into the queue of the
synthesizer.
-/

namespace StockExchange

open Transitions Circular

/-- Where the publisher is in the loop of `process_and_publish`, and the cell that
`market_update` points to. -/
inductive Publishing where
  | idle
  | taken (cell : Nat)
  | encoded (cell : Nat)
  | releasing (cell : Nat)
  | advanced (cell : Nat)
  | handedBack (cell : Nat)
deriving DecidableEq

/-- The two threads, what the engine has sent, and the records that were encoded and passed
on to the synthesizer. -/
structure LiveFeed where
  publisher : MarketDataPublisher
  engine : Producer MarketUpdate
  phase : Publishing
  sent : List MarketUpdate
  incremental : List ClientMarketUpdate
  snapshot : List ClientMarketUpdate

inductive FeedStep where
  | engine (u : MarketUpdate)
  | publisher

namespace Publishing

/-- The element that `market_update` points to. -/
def cell : Publishing → Option Nat
  | .idle => none
  | .taken cell => some cell
  | .encoded cell => some cell
  | .releasing cell => some cell
  | .advanced cell => some cell
  | .handedBack cell => some cell

/-- How many elements are encoded and not yet passed on. -/
def held : Publishing → Nat
  | .idle => 0
  | .taken _ => 0
  | _ => 1

def ahead : Publishing → Nat
  | .advanced _ => 1
  | .handedBack _ => 1
  | _ => 0

/-- How many elements are counted off and not yet passed on. -/
def released : Publishing → Nat
  | .handedBack _ => 1
  | _ => 0

end Publishing

namespace LiveFeed

def create (size : Nat) : LiveFeed :=
  ⟨.create (.create .default size), .idle, .idle, [], [], []⟩

def queue (s : LiveFeed) : LockFreeQueue MarketUpdate := s.publisher.outgoingMarketUpdateQueue

def setQueue (s : LiveFeed) (q : LockFreeQueue MarketUpdate) : LiveFeed :=
  { s with publisher := { s.publisher with outgoingMarketUpdateQueue := q } }

/-- The next step of one of the threads; the update matters only when a store begins. -/
def step (host : Bytes.ByteOrder) (s : LiveFeed) : FeedStep → Except Fault LiveFeed
  | .engine u =>
    match s.engine with
    | .idle => .ok { s.setQueue (s.queue.store u) with engine := .stored u }
    | .stored v => .ok { s.setQueue s.queue.advanceWrite with engine := .advanced v }
    | .advanced v =>
      .ok { s.setQueue s.queue.increment with engine := .idle, sent := s.sent ++ [v] }
  | .publisher =>
    match s.phase with
    | .idle =>
      -- the end of a call: what has been lined up is sent
      if s.queue.numElements = 0 then
        .ok { s with publisher := { s.publisher with sendBuffer := s.publisher.sendBuffer.reset } }
      else .ok { s with phase := .taken s.queue.nextReadIndex }
    | .taken cell => s.publisher.addToBuffer host (s.queue.data cell) >>= fun p =>
      .ok { s with
        publisher := p
        phase := .encoded cell
        incremental := s.incremental ++ [⟨s.publisher.nextIncSeqNum, s.queue.data cell⟩] }
    | .encoded cell =>
      if s.queue.numElements = 0 then .ok { s with phase := .handedBack cell }
      else .ok { s with phase := .releasing cell }
    | .releasing cell => .ok { s.setQueue s.queue.advanceRead with phase := .advanced cell }
    | .advanced cell => .ok { s.setQueue s.queue.decrement with phase := .handedBack cell }
    | .handedBack cell => .ok
      { s with
        publisher := s.publisher.passOn (s.queue.data cell)
        phase := .idle
        snapshot := s.snapshot ++ [⟨s.publisher.nextIncSeqNum, s.queue.data cell⟩] }

/-- The engine begins a store only when the queue is not full. -/
def Admits (s : LiveFeed) : FeedStep → Prop
  | .engine _ => s.engine.isIdle = true → s.queue.numElements < s.queue.size
  | .publisher => True

/-- The engine does not begin a store into the element that is handed back and not yet
passed on. -/
def Orderly (s : LiveFeed) : FeedStep → Prop
  | .engine _ => s.engine.isIdle = true → s.phase ≠ .handedBack s.queue.nextWriteIndex
  | .publisher => True

instance (s : LiveFeed) : ∀ e, Decidable (s.Admits e)
  | .engine _ => inferInstanceAs (Decidable (_ = true → _))
  | .publisher => .isTrue trivial

instance (s : LiveFeed) : ∀ e, Decidable (s.Orderly e)
  | .engine _ => inferInstanceAs (Decidable (_ = true → _))
  | .publisher => .isTrue trivial

/-- What was sent falls into the updates passed on and those still in their cells. -/
structure Sound (s : LiveFeed) (passed unread : List MarketUpdate) : Prop where
  sent : s.sent = passed ++ unread
  holds : s.queue.Holds (s.sent.length + s.engine.ahead) (passed.length + s.phase.ahead)
    passed.length (unread ++ s.engine.pending)
  counted : s.queue.numElements + s.phase.released = unread.length
  room : (unread ++ s.engine.pending).length ≤ s.queue.size
  busy : s.phase ≠ .idle → unread ≠ []
  cell : ∀ c ∈ s.phase.cell, c = passed.length % s.queue.size
  numbered : s.publisher.nextIncSeqNum = 1 + UInt64.ofNat passed.length
  incremental : s.incremental = number 1 (passed ++ unread.take s.phase.held)
  snapshot : s.snapshot = number 1 passed

section Steps
variable {host : Bytes.ByteOrder} {s s' : LiveFeed} {passed unread : List MarketUpdate}

theorem create_sound (size : Nat) : (create size).Sound [] [] :=
  ⟨rfl, LockFreeQueue.create_holds _ size, rfl, Nat.zero_le _, fun h => absurd rfl h, nofun, rfl,
    rfl, rfl⟩

/-- Under the condition there is a cell left for a store to begin. -/
theorem Sound.unread_lt (h : s.Sound passed unread) {u : MarketUpdate}
    (hidle : s.engine = .idle) (hroom : s.Admits (.engine u)) (horderly : s.Orderly (.engine u)) :
    unread.length < s.queue.size := by
  have hfree := hroom (by rw [hidle]; rfl)
  have hcell := horderly (by rw [hidle]; rfl)
  have hcounted := h.counted
  rcases hphase : s.phase with _ | c | c | c | c | c
  case handedBack =>
    rw [hphase] at hcounted hcell
    have hle : unread.length ≤ s.queue.size := (by simp : unread.length ≤ _).trans h.room
    refine Nat.lt_of_le_of_ne hle fun hfull => hcell ?_
    have hwrite := h.holds.write
    have hread := h.cell c (by rw [hphase]; rfl)
    have hahead : s.engine.ahead = 0 := by
      rw [hidle]
      rfl
    rw [hahead, Nat.add_zero, h.sent, List.length_append, hfull, Nat.add_mod_right] at hwrite
    rw [hread, hwrite]
  all_goals
    rw [hphase] at hcounted
    simp only [Publishing.released, Nat.add_zero] at hcounted
    omega

theorem engine_sound (h : s.Sound passed unread) {u : MarketUpdate}
    (hroom : s.Admits (.engine u)) (horderly : s.Orderly (.engine u))
    (hstep : s.step host (.engine u) = .ok s') :
    ∃ unread', s'.Sound passed unread' := by
  have hlt := h.unread_lt (u := u)
  obtain ⟨p, engine, phase, sent, incremental, snapshot⟩ := s
  obtain ⟨hsent, hholds, hcount, hfit, hbusy, hcell, hnum, hinc, hsnap⟩ := h
  dsimp only at hsent hholds hcount hfit hbusy hcell hnum hinc hsnap
  cases engine with
  | idle =>
    cases hstep
    have hfree := hlt rfl hroom horderly
    simp only [Producer.pending, List.append_nil] at hholds
    refine ⟨unread, hsent, ?_, hcount, ?_, hbusy, hcell, hnum, hinc, hsnap⟩
    · apply hholds.store _ hfree
      simp only [hsent, List.length_append, Producer.ahead, Nat.add_zero]
    · rw [List.length_append]
      exact hfree
  | stored v =>
    cases hstep
    exact ⟨unread, hsent, hholds.advanceWrite, hcount, hfit, hbusy, hcell, hnum, hinc, hsnap⟩
  | advanced v =>
    cases hstep
    have hheld : phase.held ≤ unread.length := by
      cases phase with
      | idle => exact Nat.zero_le _
      | taken c => exact Nat.zero_le _
      | _ => exact List.length_pos_of_ne_nil (hbusy (by simp))
    refine ⟨unread ++ [v], ?_, ?_, ?_, ?_, fun _ => by simp, hcell, hnum, ?_, hsnap⟩
    · simp only [hsent, List.append_assoc]
    · have hlen : (sent ++ [v]).length = sent.length + 1 := by
        rw [List.length_append, List.length_singleton]
      change LockFreeQueue.Holds _ ((sent ++ [v]).length + 0) (passed.length + phase.ahead) _
        (unread ++ [v] ++ [])
      rw [hlen, List.append_nil]
      exact hholds.increment
    · rw [List.length_append, List.length_singleton, ← hcount]
      exact Nat.add_right_comm ..
    · simpa only [setQueue, queue, Producer.pending, List.append_nil,
        LockFreeQueue.size_increment] using hfit
    · simpa only [setQueue, List.take_append_of_le_length hheld] using hinc

theorem publisher_sound (h : s.Sound passed unread) (hstep : s.step host .publisher = .ok s') :
    ∃ passed' unread', s'.Sound passed' unread' := by
  obtain ⟨p, engine, phase, sent, incremental, snapshot⟩ := s
  obtain ⟨hsent, hholds, hcount, hfit, hbusy, hcell, hnum, hinc, hsnap⟩ := h
  dsimp only at hsent hholds hcount hfit hbusy hcell hnum hinc hsnap
  cases phase with
  | idle =>
    rw [step] at hstep
    dsimp only at hstep
    split at hstep
    · cases hstep
      exact ⟨passed, unread, hsent, hholds, hcount, hfit, hbusy, hcell, hnum, hinc, hsnap⟩
    · rename_i hne
      cases hstep
      refine ⟨passed, unread, hsent, hholds, hcount, hfit, ?_, ?_, hnum, hinc, hsnap⟩
      · rintro - rfl
        exact hne (by simpa [Publishing.released] using hcount)
      · rintro c hc
        cases hc
        exact hholds.read
  | taken c =>
    obtain ⟨p', hp', hs'⟩ := bind_eq_ok.mp hstep
    cases hs'
    obtain ⟨b, -, hp'⟩ := bind_eq_ok.mp hp'
    cases hp'
    obtain ⟨x, rest, rfl⟩ := List.exists_cons_of_ne_nil (hbusy nofun)
    have hx : p.outgoingMarketUpdateQueue.data c = x := by
      rw [hcell c rfl]
      exact hholds.window.head
    refine ⟨passed, x :: rest, hsent, hholds, hcount, hfit, fun _ => nofun, hcell, hnum, ?_, hsnap⟩
    dsimp only [queue]
    rw [hinc, hx, hnum]
    simp only [Publishing.held, List.take_zero, List.append_nil, List.take_succ_cons,
      number_append]
    rfl
  | encoded c =>
    have hne : p.outgoingMarketUpdateQueue.numElements ≠ 0 := by
      have hpos := List.length_pos_of_ne_nil (hbusy nofun)
      simp only [Publishing.released, Nat.add_zero] at hcount
      rw [← hcount] at hpos
      exact Nat.ne_of_gt hpos
    rw [step] at hstep
    dsimp only at hstep
    split at hstep
    · rename_i hzero
      exact absurd hzero hne
    · cases hstep
      exact ⟨passed, unread, hsent, hholds, hcount, hfit, fun _ => hbusy nofun, hcell, hnum, hinc,
        hsnap⟩
  | releasing c =>
    cases hstep
    exact ⟨passed, unread, hsent, hholds.advanceRead, hcount, hfit, fun _ => hbusy nofun, hcell,
      hnum, hinc, hsnap⟩
  | advanced c =>
    cases hstep
    have hpos := List.length_pos_of_ne_nil (hbusy nofun)
    refine ⟨passed, unread, hsent, hholds.decrement, ?_, hfit, fun _ => hbusy nofun, hcell, hnum,
      hinc, hsnap⟩
    simp only [Publishing.released, Nat.add_zero] at hcount
    simp only [setQueue, queue, LockFreeQueue.numElements_decrement, Publishing.released]
    rw [← hcount] at hpos ⊢
    exact Nat.sub_add_cancel hpos
  | handedBack c =>
    cases hstep
    obtain ⟨x, rest, rfl⟩ := List.exists_cons_of_ne_nil (hbusy nofun)
    have hx : p.outgoingMarketUpdateQueue.data c = x := by
      rw [hcell c rfl]
      exact hholds.window.head
    have hlen : (passed ++ [x]).length = passed.length + 1 := by
      rw [List.length_append, List.length_singleton]
    refine ⟨passed ++ [x], rest, ?_, ?_, ?_, ?_, fun h => absurd rfl h, nofun, ?_, ?_, ?_⟩
    · rw [hsent, List.append_assoc]
      rfl
    · rw [hlen]
      exact hholds.release
    · exact Nat.succ.inj hcount
    · exact Nat.le_of_succ_le hfit
    · rw [hlen]
      change p.nextIncSeqNum + 1 = _
      rw [hnum, UInt64.ofNat_add, UInt64.add_assoc]
      rfl
    · rw [hinc]
      simp only [Publishing.held, List.take_zero, List.append_nil, List.take_succ_cons]
    · dsimp only [queue]
      rw [hsnap, hx, hnum, number_append]
      rfl

end Steps

section Runs
variable {host : Bytes.ByteOrder} {size : Nat} {es : List FeedStep} {s : LiveFeed}

theorem reached_sound (h : Reached (step host) (fun (s : LiveFeed) e => s.Admits e ∧ s.Orderly e)
    (create size) es s) : ∃ passed unread, s.Sound passed unread := by
  refine h.invariant (P := fun s => ∃ passed unread, Sound s passed unread)
    ⟨[], [], create_sound size⟩ ?_
  rintro s e s' ⟨passed, unread, hsound⟩ ⟨hroom, horderly⟩ hstep
  cases e with
  | engine u => exact ⟨passed, engine_sound hsound hroom horderly hstep⟩
  | publisher => exact publisher_sound hsound hstep

theorem number_isPrefix {us vs : List MarketUpdate} (n : UInt64) (h : us <+: vs) :
    number n us <+: number n vs := by
  obtain ⟨ws, rfl⟩ := h
  rw [number_append]
  exact List.prefix_append _ _

/-- The records that are encoded and those that are passed on are the updates the engine
sent, in order, numbered from 1. -/
theorem orderly_agree (h : Reached (step host) (fun (s : LiveFeed) e => s.Admits e ∧ s.Orderly e)
    (create size) es s) :
    s.incremental <+: number 1 s.sent ∧ s.snapshot <+: number 1 s.sent := by
  obtain ⟨passed, unread, hsound⟩ := reached_sound h
  rw [hsound.incremental, hsound.snapshot, hsound.sent]
  refine ⟨number_isPrefix 1 ?_, number_isPrefix 1 (List.prefix_append _ _)⟩
  rw [List.prefix_append_right_inj]
  exact List.take_prefix _ _

end Runs

/-- A ring of two cells that has wrapped. -/
theorem orderly_agree_sample : ∃ s : LiveFeed,
    s.sent = [⟨.add, 1, 0, .buy, 10, 5, 1⟩, ⟨.add, 2, 0, .buy, 10, 5, 2⟩,
      ⟨.cancel, 1, 0, .buy, 10, 0, 1⟩] ∧
    s.incremental = [⟨1, ⟨.add, 1, 0, .buy, 10, 5, 1⟩⟩, ⟨2, ⟨.add, 2, 0, .buy, 10, 5, 2⟩⟩] ∧
    s.incremental <+: number 1 s.sent ∧ s.snapshot <+: number 1 s.sent := by
  obtain ⟨s, hs, hcheck⟩ := @reached_of_any _ _ _ (step .little)
    (fun (s : LiveFeed) e => s.Admits e ∧ s.Orderly e) (create 2)
    [.engine ⟨.add, 1, 0, .buy, 10, 5, 1⟩, .engine .default, .engine .default, .publisher,
      .publisher, .engine ⟨.add, 2, 0, .buy, 10, 5, 2⟩, .engine .default, .engine .default,
      .publisher, .publisher, .publisher, .publisher, .engine ⟨.cancel, 1, 0, .buy, 10, 0, 1⟩,
      .engine .default, .engine .default, .publisher, .publisher] inferInstance
    (fun s => decide (s.sent = [⟨.add, 1, 0, .buy, 10, 5, 1⟩, ⟨.add, 2, 0, .buy, 10, 5, 2⟩,
        ⟨.cancel, 1, 0, .buy, 10, 0, 1⟩] ∧
      s.incremental =
        [⟨1, ⟨.add, 1, 0, .buy, 10, 5, 1⟩⟩, ⟨2, ⟨.add, 2, 0, .buy, 10, 5, 2⟩⟩]))
    (by decide +kernel)
  obtain ⟨hsent, hincremental⟩ := of_decide_eq_true hcheck
  exact ⟨s, hsent, hincremental, orderly_agree hs⟩

section Overwriting
variable {host : Bytes.ByteOrder} {size : Nat} (u v : MarketUpdate)

/-- The engine sends another update while the publisher waits. -/
theorem Sound.send {s : LiveFeed} {unread : List MarketUpdate} (h : s.Sound [] unread)
    (hengine : s.engine = .idle) (hphase : s.phase = .idle)
    (hroom : unread.length < s.queue.size) {es : List FeedStep}
    (hs : Reached (step host) Admits (create size) es s) :
    ∃ es s', Reached (step host) Admits (create size) es s' ∧ s'.Sound [] (unread ++ [u]) ∧
      s'.engine = .idle ∧ s'.phase = .idle ∧ s'.queue.size = s.queue.size ∧
      s'.publisher.sendBuffer = s.publisher.sendBuffer := by
  obtain ⟨p, engine, phase, sent, inc, snap⟩ := s
  dsimp only at hengine hphase
  subst hengine hphase
  have hfree : p.outgoingMarketUpdateQueue.numElements < p.outgoingMarketUpdateQueue.size :=
    lt_of_eq_of_lt h.counted hroom
  obtain ⟨unread₁, h₁⟩ := @engine_sound host _ _ _ _ h u (fun _ => hfree) (fun _ => nofun) rfl
  obtain ⟨unread₂, h₂⟩ := @engine_sound host _ _ _ _ h₁ u nofun (fun _ => nofun) rfl
  obtain ⟨unread₃, h₃⟩ := @engine_sound host _ _ _ _ h₂ u nofun (fun _ => nofun) rfl
  have hunread : unread₃ = unread ++ [u] := by
    have hsent := h₃.sent
    rw [List.nil_append] at hsent
    rw [← hsent]
    exact congrArg (· ++ [u]) h.sent
  have hs₁ := Reached.call (r := FeedStep.engine u) hs (fun _ => hfree) rfl
  have hs₂ := Reached.call (r := FeedStep.engine u) hs₁ nofun rfl
  have hs₃ := Reached.call (r := FeedStep.engine u) hs₂ nofun rfl
  exact ⟨_, _, hs₃, hunread ▸ h₃, rfl, rfl, rfl, rfl⟩

/-- The engine writes until the ring is full. -/
theorem filled (n : Nat) (hn : n ≤ size) :
    ∃ es s, Reached (step host) Admits (create size) es s ∧
      s.Sound [] (List.replicate n u) ∧ s.engine = .idle ∧ s.phase = .idle ∧
      s.queue.size = size ∧ s.publisher.sendBuffer = .create := by
  induction n with
  | zero => exact ⟨[], _, .start, create_sound size, rfl, rfl, rfl, rfl⟩
  | succ n ih =>
    obtain ⟨es, s, hs, hsound, hengine, hphase, hsize, hbuffer⟩ := ih (by omega)
    obtain ⟨es', s', hs', hsound', hengine', hphase', hsize', hbuffer'⟩ :=
      hsound.send u hengine hphase (by rw [List.length_replicate, hsize]; omega) hs
    rw [← List.replicate_succ'] at hsound'
    exact ⟨es', s', hs', hsound', hengine', hphase', hsize'.trans hsize, hbuffer'.trans hbuffer⟩

/-- The ring is full; the publisher encodes the first update and hands its element back, the
engine stores another update there, and the publisher passes that one on. -/
theorem overwritten (hsize : 0 < size) : ∃ es s, Reached (step host) Admits (create size) es s ∧
    s.sent = List.replicate size u ∧ s.incremental = [⟨1, u⟩] ∧ s.snapshot = [⟨1, v⟩] := by
  obtain ⟨es, ⟨p, engine, phase, sent, inc, snap⟩, hs, hsound, hengine, hphase, hring, hbuffer⟩ :=
    @filled host size u size le_rfl
  obtain ⟨hsent, hholds, hcount, -, -, -, hnum, hinc, hsnap⟩ := hsound
  dsimp only [queue] at hengine hphase hring hbuffer hsent hholds hcount hnum hinc hsnap
  subst hengine hphase
  simp only [List.length_replicate, List.nil_append, Publishing.released,
    Nat.add_zero, List.take_zero, Publishing.held] at hcount hinc hsnap hsent
  have hne : p.outgoingMarketUpdateQueue.numElements ≠ 0 := by omega
  have hread : p.outgoingMarketUpdateQueue.nextReadIndex = 0 := hholds.read.trans (Nat.zero_mod _)
  have hwrite : p.outgoingMarketUpdateQueue.nextWriteIndex = 0 := by
    rw [hholds.write, hsent, List.length_replicate, hring]
    exact Nat.mod_self size
  have hfirst : p.outgoingMarketUpdateQueue.data 0 = u := by
    have h := hholds.window.left 0 (by rwa [List.length_replicate])
    rwa [List.getElem_replicate, List.length_nil, Nat.zero_mod] at h
  have hnone : SendBuffer.create.datagram = encode host [] := rfl
  obtain ⟨b, hb, -⟩ := SendBuffer.addToBuffer_encode (u := ⟨p.nextIncSeqNum, u⟩) hnone (by decide)
  have hs₁ := Reached.call (r := FeedStep.publisher) hs trivial (if_neg hne)
  have hencode : step host ⟨p, .idle, .taken p.outgoingMarketUpdateQueue.nextReadIndex, sent, inc,
      snap⟩ .publisher = .ok ⟨{ p with sendBuffer := b }, .idle, .encoded 0, sent,
        inc ++ [⟨p.nextIncSeqNum, u⟩], snap⟩ := by
    dsimp only [step, queue]
    rw [hread, hfirst, MarketDataPublisher.addToBuffer, hbuffer, hb]
    rfl
  have hs₂ := Reached.call (r := FeedStep.publisher) hs₁ trivial hencode
  have hs₃ := Reached.call (r := FeedStep.publisher) hs₂ trivial (if_neg hne)
  have hs₄ := Reached.call (r := FeedStep.publisher) hs₃ trivial rfl
  have hs₅ := Reached.call (r := FeedStep.publisher) hs₄ trivial rfl
  have hs₆ := Reached.call (r := FeedStep.engine v) hs₅ (fun _ => by
    change p.outgoingMarketUpdateQueue.numElements - 1 < p.outgoingMarketUpdateQueue.size
    omega) rfl
  have hs₇ := Reached.call (r := FeedStep.publisher) hs₆ trivial rfl
  have hnumber : p.nextIncSeqNum = 1 := hnum
  refine ⟨_, _, hs₇, hsent, ?_, ?_⟩
  · change inc ++ [⟨p.nextIncSeqNum, u⟩] = _
    rw [hinc, hnumber]
    rfl
  · change snap ++ [⟨p.nextIncSeqNum, Function.update p.outgoingMarketUpdateQueue.data
      p.outgoingMarketUpdateQueue.nextWriteIndex v 0⟩] = _
    rw [hsnap, hnumber, hwrite, Function.update_self]
    rfl

end Overwriting

/-- With the ring of the exchange: the record numbered 1 differs in the two streams. -/
theorem full_ring_differs : ∃ es s,
    Reached (step .little) Admits (create maxMarketUpdates) es s ∧
    s.incremental = [⟨1, ⟨.add, 1, 0, .buy, 10, 5, 1⟩⟩] ∧
    s.snapshot = [⟨1, ⟨.add, 2, 0, .buy, 11, 6, 1⟩⟩] ∧ ¬ s.snapshot <+: number 1 s.sent := by
  obtain ⟨es, s, hs, hsent, hincremental, hsnapshot⟩ := @overwritten .little maxMarketUpdates
    ⟨.add, 1, 0, .buy, 10, 5, 1⟩ ⟨.add, 2, 0, .buy, 11, 6, 1⟩ (by decide)
  refine ⟨es, s, hs, hincremental, hsnapshot, fun h => ?_⟩
  rw [hsnapshot, hsent, maxMarketUpdates, List.replicate_succ, number,
    List.cons_prefix_cons] at h
  exact absurd h.1 (by decide)

end LiveFeed

end StockExchange
