import StockExchange.SnapshotSynthesizer

/-!
# The market data publisher

A call numbers everything in the queue of the engine, lines it up in the send buffer, passes
it on to the synthesizer and sends the buffer as one datagram. The element of the queue is
handed back between the two copies that are made of it.
-/

namespace StockExchange

open Bytes Transitions

structure MarketDataPublisher where
  nextIncSeqNum : UInt64
  outgoingMarketUpdateQueue : LockFreeQueue MarketUpdate
  snapshotMarketUpdateQueue : LockFreeQueue ClientMarketUpdate
  sendBuffer : SendBuffer

namespace MarketDataPublisher

/-- The publisher at its start; `updates` is the queue of the engine. -/
def create (updates : LockFreeQueue MarketUpdate) : MarketDataPublisher where
  nextIncSeqNum := 1
  outgoingMarketUpdateQueue := updates
  snapshotMarketUpdateQueue := .create ⟨0, .default⟩ maxMarketUpdates
  sendBuffer := .create

/-! The parts of `process_and_publish`. -/

/-- The update is numbered and added to the buffer. -/
def addToBuffer (host : ByteOrder) (p : MarketDataPublisher) (u : MarketUpdate) :
    Except Fault MarketDataPublisher :=
  p.sendBuffer.addToBuffer host ⟨p.nextIncSeqNum, u⟩ >>= fun b => .ok { p with sendBuffer := b }

/-- The update is passed on to the synthesizer, and the number is used up. -/
def passOn (p : MarketDataPublisher) (u : MarketUpdate) : MarketDataPublisher :=
  { p with
    snapshotMarketUpdateQueue := p.snapshotMarketUpdateQueue.push ⟨p.nextIncSeqNum, u⟩
    nextIncSeqNum := p.nextIncSeqNum + 1 }

/-- The body of the loop for the element in `cell`, while no one writes to the queue. -/
def processElement (host : ByteOrder) (p : MarketDataPublisher) (cell : Nat) :
    Except Fault MarketDataPublisher :=
  p.addToBuffer host (p.outgoingMarketUpdateQueue.data cell) >>= fun p =>
    let q := p.outgoingMarketUpdateQueue.pop
    .ok ({ p with outgoingMarketUpdateQueue := q }.passOn (q.data cell))

/-- At most `n` rounds of the loop. -/
def processLoop (host : ByteOrder) : Nat → MarketDataPublisher →
    Except Fault MarketDataPublisher
  | 0, p => .ok p
  | n + 1, p =>
    if p.outgoingMarketUpdateQueue.numElements = 0 then .ok p
    else p.processElement host p.outgoingMarketUpdateQueue.nextReadIndex >>= processLoop host n

/-- The state afterwards and the datagram, if one is sent. -/
def processAndPublish (host : ByteOrder) (p : MarketDataPublisher) :
    Except Fault (MarketDataPublisher × List (List UInt8)) :=
  if p.outgoingMarketUpdateQueue.numElements = 0 then .ok (p, [])
  else processLoop host p.outgoingMarketUpdateQueue.numElements p >>= fun p =>
    .ok ({ p with sendBuffer := p.sendBuffer.reset }, [p.sendBuffer.datagram])

/-- The largest payload of a UDP datagram over IPv4. -/
def maxDatagram : Nat := 65507

/-- A buffer that `uv_udp_send` takes. -/
structure Sendable (datagram : List UInt8) : Prop where
  nonempty : datagram ≠ []
  inBuffer : datagram.length ≤ bufferSize
  whole : sizeofClientMarketUpdate ∣ datagram.length
  fits : datagram.length ≤ maxDatagram

/-- The engine writes one update, or the publisher runs. -/
inductive Step where
  | engine (u : MarketUpdate)
  | publish

def step (host : ByteOrder) (p : MarketDataPublisher) : Step → Except Fault MarketDataPublisher
  | .engine u => .ok { p with outgoingMarketUpdateQueue := p.outgoingMarketUpdateQueue.push u }
  | .publish => p.processAndPublish host >>= fun r => .ok r.1

/-- The engine writes while the queue is not full. -/
def Admits (p : MarketDataPublisher) : Step → Prop
  | .engine _ => p.outgoingMarketUpdateQueue.numElements < maxMarketUpdates
  | .publish => True

instance (p : MarketDataPublisher) : ∀ e, Decidable (p.Admits e)
  | .engine _ => inferInstanceAs (Decidable (_ < _))
  | .publish => .isTrue trivial

section Loop
variable {host : ByteOrder} {p : MarketDataPublisher} {us : List ClientMarketUpdate} {n : Nat}

/-- The loop leaves one record for each element. -/
theorem processLoop_spec (hbuffer : p.sendBuffer.datagram = encode host us)
    (hcount : p.outgoingMarketUpdateQueue.numElements = n)
    (hroom : sizeofClientMarketUpdate * (us.length + n) ≤ bufferSize) :
    ∃ p' vs, processLoop host n p = .ok p' ∧ vs.length = n ∧
      p'.sendBuffer.datagram = encode host (us ++ vs) ∧
      p'.outgoingMarketUpdateQueue.numElements = 0 := by
  induction n generalizing p us with
  | zero => exact ⟨p, [], rfl, rfl, by rwa [List.append_nil], hcount⟩
  | succ n ih =>
    obtain ⟨b, hb, hdatagram⟩ := SendBuffer.addToBuffer_encode hbuffer
      (u := ⟨p.nextIncSeqNum, p.outgoingMarketUpdateQueue.data
        p.outgoingMarketUpdateQueue.nextReadIndex⟩)
      ((Nat.mul_le_mul_left _ (by omega)).trans hroom)
    have hpop : p.outgoingMarketUpdateQueue.pop.numElements = n := by
      rw [LockFreeQueue.pop, if_neg (by omega), LockFreeQueue.numElements_decrement,
        LockFreeQueue.numElements_advanceRead, hcount, Nat.add_sub_cancel]
    rw [processLoop, if_neg (by omega), processElement, addToBuffer, hb, ok_bind, ok_bind, ok_bind]
    obtain ⟨p', vs, hp', hlen, hbuffer', hcount'⟩ := ih
      (p := ({ p with
        sendBuffer := b
        outgoingMarketUpdateQueue := p.outgoingMarketUpdateQueue.pop } :
          MarketDataPublisher).passOn
            (p.outgoingMarketUpdateQueue.pop.data p.outgoingMarketUpdateQueue.nextReadIndex))
      hdatagram hpop (by
        rw [List.length_append, List.length_singleton]
        exact (Nat.mul_le_mul_left _ (by omega)).trans hroom)
    refine ⟨p', ⟨p.nextIncSeqNum, p.outgoingMarketUpdateQueue.data
      p.outgoingMarketUpdateQueue.nextReadIndex⟩ :: vs, hp', ?_, ?_, hcount'⟩
    · rw [List.length_cons, hlen]
    · rw [hbuffer', List.append_assoc]
      rfl

/-- The one datagram of a call has a record for each element of the queue. -/
theorem processAndPublish_spec (hempty : p.sendBuffer.nextSendValidIndex = 0)
    (hbound : p.outgoingMarketUpdateQueue.numElements ≤ maxMarketUpdates) :
    ∃ p' ds, p.processAndPublish host = .ok (p', ds) ∧
      p'.sendBuffer.nextSendValidIndex = 0 ∧ p'.outgoingMarketUpdateQueue.numElements = 0 ∧
      (p.outgoingMarketUpdateQueue.numElements = 0 ∧ ds = [] ∨
        p.outgoingMarketUpdateQueue.numElements ≠ 0 ∧ ∃ d, ds = [d] ∧ d.length =
          sizeofClientMarketUpdate * p.outgoingMarketUpdateQueue.numElements) := by
  by_cases hzero : p.outgoingMarketUpdateQueue.numElements = 0
  · exact ⟨p, [], if_pos hzero, hempty, hzero, .inl ⟨hzero, rfl⟩⟩
  · have hbuffer : p.sendBuffer.datagram = encode host [] :=
      List.eq_nil_of_length_eq_zero ((SendBuffer.length_datagram _).trans hempty)
    have hmax : sizeofClientMarketUpdate * maxMarketUpdates ≤ bufferSize := by decide
    obtain ⟨p', vs, hp', hlen, hdatagram, hcount⟩ := processLoop_spec hbuffer rfl
      ((Nat.mul_le_mul_left _ (by rw [List.length_nil, Nat.zero_add]; exact hbound)).trans hmax)
    refine ⟨{ p' with sendBuffer := p'.sendBuffer.reset }, [p'.sendBuffer.datagram], ?_, rfl,
      hcount, .inr ⟨hzero, _, rfl, ?_⟩⟩
    · rw [processAndPublish, if_neg hzero, hp', ok_bind]
    · rw [hdatagram, List.nil_append, length_encode, hlen]

theorem sendable_of_length {d : List UInt8} {k : Nat} (hpos : 0 < k)
    (hlen : d.length = sizeofClientMarketUpdate * k) : Sendable d ↔ k ≤ 1679 := by
  have hmax : maxDatagram ≤ bufferSize := by decide
  have hdatagram : maxDatagram = 65507 := rfl
  have hlen' : d.length = 39 * k := hlen
  constructor
  · intro h
    have := h.fits
    omega
  · intro hk
    refine ⟨?_, by omega, ⟨k, hlen⟩, by omega⟩
    rintro rfl
    rw [List.length_nil] at hlen'
    omega

end Loop

/-- A call returns, and all that it hands to `uv_udp_send` is taken. -/
def SendsAll {α : Type} (call : Except Fault (α × List (List UInt8))) : Prop :=
  ∃ r, call = .ok r ∧ ∀ d ∈ r.2, Sendable d

section Sendable
variable {host : ByteOrder} {p : MarketDataPublisher} {s : SnapshotSynthesizer}

theorem processAndPublish_sendsAll_iff (hempty : p.sendBuffer.nextSendValidIndex = 0)
    (hbound : p.outgoingMarketUpdateQueue.numElements ≤ maxMarketUpdates) :
    SendsAll (p.processAndPublish host) ↔ p.outgoingMarketUpdateQueue.numElements ≤ 1679 := by
  obtain ⟨p', ds, hok, -, -, hsent⟩ := @processAndPublish_spec host p hempty hbound
  rcases hsent with ⟨hzero, rfl⟩ | ⟨hne, d, rfl, hlen⟩
  · exact ⟨fun _ => by omega, fun _ => ⟨_, hok, nofun⟩⟩
  · rw [← sendable_of_length (Nat.pos_of_ne_zero hne) hlen]
    constructor
    · rintro ⟨r, hr, hall⟩
      cases hok.symm.trans hr
      exact hall d (List.mem_singleton_self d)
    · refine fun hd => ⟨_, hok, fun d' hd' => ?_⟩
      rwa [List.mem_singleton.mp hd']

theorem publishSnapshot_sendsAll_iff (hempty : s.sendBuffer.nextSendValidIndex = 0) :
    SendsAll (s.publishSnapshot host) ↔ s.liveOrders.length + 10 ≤ 1679 := by
  obtain ⟨b, parts, hok, -, hparts⟩ := @SnapshotSynthesizer.publishSnapshot_spec host s hempty
  have hlen : s.messages.length = s.liveOrders.length + 10 := s.length_messages
  have hall : ∀ us : List MarketUpdate, us ≠ [] →
      (Sendable (SnapshotSynthesizer.snapshotBytes host us) ↔ us.length ≤ 1679) := fun us hus =>
    sendable_of_length (List.length_pos_of_ne_nil hus)
      (SnapshotSynthesizer.length_snapshotBytes us)
  have hmessages : s.messages ≠ [] := List.cons_ne_nil _ _
  rw [← hlen, ← hall _ hmessages]
  constructor
  · rintro ⟨r, hr, hsend⟩
    cases hok.symm.trans hr
    exact hsend _ List.mem_concat_self
  · refine fun hwhole => ⟨_, hok, fun d hd => ?_⟩
    rcases List.mem_append.mp hd with hd | hd
    · obtain ⟨part, hpart, rfl⟩ := List.mem_map.mp hd
      obtain ⟨hne, hpre⟩ := hparts part hpart
      exact (hall part hne).mpr (hpre.length_le.trans ((hall _ hmessages).mp hwhole))
    · rwa [List.mem_singleton.mp hd]

/-- Between calls the buffer is empty, and the queue is not beyond its capacity. -/
theorem reached_idle {updates : LockFreeQueue MarketUpdate} {es : List Step}
    (hupdates : updates.numElements = 0) (h : Reached (step host) Admits (create updates) es p) :
    p.sendBuffer.nextSendValidIndex = 0 ∧
      p.outgoingMarketUpdateQueue.numElements ≤ maxMarketUpdates := by
  refine h.invariant (P := fun p => p.sendBuffer.nextSendValidIndex = 0 ∧
    p.outgoingMarketUpdateQueue.numElements ≤ maxMarketUpdates)
    ⟨rfl, by rw [create, hupdates]; exact Nat.zero_le _⟩ ?_
  rintro p e p' ⟨hempty, hbound⟩ hroom hstep
  cases e with
  | engine u =>
    cases hstep
    exact ⟨hempty, hroom⟩
  | publish =>
    obtain ⟨r, hr, hp'⟩ := bind_eq_ok.mp hstep
    obtain ⟨p₁, ds, hok, hempty', hcount, -⟩ :=
      @processAndPublish_spec host p hempty hbound
    cases hok.symm.trans hr
    cases hp'
    exact ⟨hempty', by rw [hcount]; exact Nat.zero_le _⟩

/-- What is sent is sendable exactly when no more than 1679 updates are queued, and no more
than 1669 orders are live. -/
theorem datagrams_sendable_iff {es : List Step} {es' : List SnapshotSynthesizer.SynthesizerStep}
    (hp : Reached (step host) Admits (create (.create .default maxMarketUpdates)) es p)
    (hs : Reached (SnapshotSynthesizer.step host) (fun _ _ => True) .create es' s) :
    (SendsAll (p.processAndPublish host) ↔ p.outgoingMarketUpdateQueue.numElements ≤ 1679) ∧
    (SendsAll (s.publishSnapshot host) ↔ s.liveOrders.length + 10 ≤ 1679) := by
  obtain ⟨hempty, hbound⟩ := reached_idle rfl hp
  exact ⟨processAndPublish_sendsAll_iff hempty hbound,
    publishSnapshot_sendsAll_iff (SnapshotSynthesizer.reached_empty hs)⟩

/-- One update, and a snapshot of the order it adds. -/
theorem datagrams_sendable_iff_sample : ∃ (p : MarketDataPublisher) (s : SnapshotSynthesizer),
    p.outgoingMarketUpdateQueue.numElements = 1 ∧ s.updatesByInstrument 0 1 = some 0 ∧
    SendsAll (p.processAndPublish .little) ∧ SendsAll (s.publishSnapshot .little) := by
  obtain ⟨p, hp, hcheck⟩ := @reached_of_any _ _ _ (step .little) Admits
    (create (.create .default maxMarketUpdates)) [.engine ⟨.add, 1, 0, .buy, 10, 5, 1⟩] _
    (fun p => decide (p.outgoingMarketUpdateQueue.numElements = 1)) (by decide +kernel)
  obtain ⟨s, hs, hcheck'⟩ := @reached_of_any _ _ _ (SnapshotSynthesizer.step .little)
    (fun _ _ => True) .create [.update ⟨1, ⟨.add, 1, 0, .buy, 10, 5, 1⟩⟩] _
    (fun s => decide (s.updatesByInstrument 0 1 = some 0 ∧ s.liveOrders.length + 10 ≤ 1679))
    (by decide +kernel)
  obtain ⟨htable, hlive⟩ := of_decide_eq_true hcheck'
  have hone := of_decide_eq_true hcheck
  obtain ⟨hupdates, hsnapshot⟩ := datagrams_sendable_iff hp hs
  exact ⟨p, s, hone, htable, hupdates.mpr (by omega), hsnapshot.mpr hlive⟩

/-- The engine has written 1680 updates since the last call. -/
theorem burst_unsendable : ∃ es p,
    Reached (step .little) Admits (create (.create .default maxMarketUpdates)) es p ∧
    p.outgoingMarketUpdateQueue.numElements = 1680 ∧
    ¬ SendsAll (p.processAndPublish .little) := by
  have hburst : ∀ n ≤ maxMarketUpdates, ∃ es p,
      Reached (step .little) Admits (create (.create .default maxMarketUpdates)) es p ∧
        p.outgoingMarketUpdateQueue.numElements = n := by
    intro n
    induction n with
    | zero => exact fun _ => ⟨[], _, .start, rfl⟩
    | succ n ih =>
      intro hn
      obtain ⟨es, p, hp, hcount⟩ := ih (by omega)
      refine ⟨_, _, .call hp (r := .engine .default) ?_ rfl, ?_⟩
      · change p.outgoingMarketUpdateQueue.numElements < maxMarketUpdates
        omega
      · rw [← hcount]
        rfl
  obtain ⟨es, p, hp, hcount⟩ := hburst 1680 (by decide)
  obtain ⟨hempty, hbound⟩ := reached_idle rfl hp
  refine ⟨es, p, hp, hcount, fun h => ?_⟩
  have hle := (processAndPublish_sendsAll_iff hempty hbound).mp h
  omega

end Sendable

end MarketDataPublisher

end StockExchange
