import StockExchange.MarketDataEncoder
import StockExchange.MemoryPool
import StockExchange.LockFreeQueue

/-!
# The snapshot synthesizer

For each instrument a table of the updates that are live, looked up by order id. A snapshot
is numbered from 0 and lined up in the send buffer, which is sent after every order in it
and once more at its end.
-/

namespace StockExchange

open Bytes Transitions

/-- `updates_by_instrument_` points into `market_update_pool_`. -/
structure SnapshotSynthesizer where
  sendBuffer : SendBuffer
  updatesByInstrument : Nat → Nat → Option Nat
  lastIncSeqNum : UInt64
  marketUpdatePool : MemoryPool MarketUpdate

def MarketUpdate.default : MarketUpdate :=
  ⟨.invalid, invalidOrderId, invalidInstrumentId, .invalid, invalidPrice, invalidQuantity,
    invalidPriority⟩

namespace SnapshotSynthesizer

def create : SnapshotSynthesizer where
  sendBuffer := .create
  updatesByInstrument _ _ := none
  lastIncSeqNum := 0
  marketUpdatePool := .create .default maxNumOrders

/-- `instrument_updates.at(order_id)`, of an instrument in range. -/
def updateAt (s : SnapshotSynthesizer) (u : MarketUpdate) : Except Fault (Option Nat) :=
  if u.orderId.toNat < maxNumOrders then
    .ok (s.updatesByInstrument u.instrumentId.toNat u.orderId.toNat)
  else .error .thrown

def setUpdate (s : SnapshotSynthesizer) (u : MarketUpdate) (p : Option Nat) :
    SnapshotSynthesizer :=
  { s with
    updatesByInstrument := Function.update s.updatesByInstrument u.instrumentId.toNat
      (Function.update (s.updatesByInstrument u.instrumentId.toNat) u.orderId.toNat p) }

/-! The cases of the `switch` in `add_to_snapshot`. -/

def addUpdate (s : SnapshotSynthesizer) (u : MarketUpdate) : Except Fault SnapshotSynthesizer :=
  s.updateAt u >>= fun _ =>
  s.marketUpdatePool.alloc u >>= fun r =>
  .ok ({ s with marketUpdatePool := r.1 }.setUpdate u (some r.2))

def modifyUpdate (s : SnapshotSynthesizer) (u : MarketUpdate) :
    Except Fault SnapshotSynthesizer :=
  s.updateAt u >>= fun stored =>
  deref stored >>= fun p =>
  .ok { s with
    marketUpdatePool := s.marketUpdatePool.write p
      { s.marketUpdatePool.read p with qty := u.qty, price := u.price } }

def cancelUpdate (s : SnapshotSynthesizer) (u : MarketUpdate) :
    Except Fault SnapshotSynthesizer :=
  s.updateAt u >>= fun stored =>
  deref stored >>= fun p =>
  .ok ({ s with marketUpdatePool := s.marketUpdatePool.free p }.setUpdate u none)

def addToSnapshot (s : SnapshotSynthesizer) (update : ClientMarketUpdate) :
    Except Fault SnapshotSynthesizer :=
  let u := update.update
  if u.instrumentId.toNat < maxNumInstruments then
    (if u.type = .add then s.addUpdate u
      else if u.type = .modify then s.modifyUpdate u
      else if u.type = .cancel then s.cancelUpdate u
      else .ok s) >>= fun s =>
    .ok { s with lastIncSeqNum := update.sequenceNumber }
  else .error .thrown

/-- The locals of `publish_snapshot` and what was handed to `uv_udp_send`. -/
structure Publication where
  sendBuffer : SendBuffer
  snapshotSize : UInt64
  sent : List (List UInt8)

def Publication.addToBuffer (host : ByteOrder) (p : Publication) (u : MarketUpdate) :
    Except Fault Publication :=
  p.sendBuffer.addToBuffer host ⟨p.snapshotSize, u⟩ >>= fun b =>
    .ok { p with sendBuffer := b, snapshotSize := p.snapshotSize + 1 }

def Publication.sendData (p : Publication) : Publication :=
  { p with sent := p.sent ++ [p.sendBuffer.datagram] }

def startUpdate (s : SnapshotSynthesizer) : MarketUpdate :=
  { MarketUpdate.default with type := .snapshotStart, orderId := s.lastIncSeqNum }

def clearUpdate (instrumentId : Nat) : MarketUpdate :=
  { MarketUpdate.default with type := .clear, instrumentId := UInt8.ofNat instrumentId }

def endUpdate (s : SnapshotSynthesizer) : MarketUpdate :=
  { MarketUpdate.default with type := .snapshotEnd, orderId := s.lastIncSeqNum }

/-- The body of the inner loop. -/
def publishOrder (host : ByteOrder) (s : SnapshotSynthesizer) (instrumentId : Nat)
    (p : Publication) (orderId : Nat) : Except Fault Publication :=
  match s.updatesByInstrument instrumentId orderId with
  | none => .ok p
  | some b => p.addToBuffer host (s.marketUpdatePool.read b) >>= fun p => .ok p.sendData

def publishInstrument (host : ByteOrder) (s : SnapshotSynthesizer) (p : Publication)
    (instrumentId : Nat) : Except Fault Publication :=
  p.addToBuffer host (clearUpdate instrumentId) >>= fun p =>
    (List.range maxNumOrders).foldlM (publishOrder host s instrumentId) p

/-- The state afterwards and the datagrams in the order in which they are sent. -/
def publishSnapshot (host : ByteOrder) (s : SnapshotSynthesizer) :
    Except Fault (SnapshotSynthesizer × List (List UInt8)) :=
  Publication.addToBuffer host ⟨s.sendBuffer, 0, []⟩ s.startUpdate >>= fun p =>
  (List.range maxNumInstruments).foldlM (publishInstrument host s) p >>= fun p =>
  p.addToBuffer host s.endUpdate >>= fun p =>
  .ok ({ s with sendBuffer := p.sendBuffer.reset }, p.sendData.sent)

/-- The loop of `process_client_market_update`, while no one writes to the queue. -/
def processLoop : Nat → SnapshotSynthesizer → LockFreeQueue ClientMarketUpdate →
    Except Fault (SnapshotSynthesizer × LockFreeQueue ClientMarketUpdate)
  | 0, s, q => .ok (s, q)
  | n + 1, s, q => match q.nextReadElement with
    | none => .ok (s, q)
    | some u => s.addToSnapshot u >>= fun s => processLoop n s q.pop

def processClientMarketUpdate (s : SnapshotSynthesizer) (q : LockFreeQueue ClientMarketUpdate) :
    Except Fault (SnapshotSynthesizer × LockFreeQueue ClientMarketUpdate) :=
  processLoop q.numElements s q

/-- The live orders of an instrument by increasing id. -/
def stored (s : SnapshotSynthesizer) (instrumentId : Nat) : List MarketUpdate :=
  (List.range maxNumOrders).filterMap fun k =>
    (s.updatesByInstrument instrumentId k).map s.marketUpdatePool.read

def liveOrders (s : SnapshotSynthesizer) : List MarketUpdate :=
  (List.range maxNumInstruments).flatMap s.stored

/-- What a reader of one snapshot should be sent, in order. -/
def messages (s : SnapshotSynthesizer) : List MarketUpdate :=
  s.startUpdate :: ((List.range maxNumInstruments).flatMap fun i =>
    clearUpdate i :: s.stored i) ++ [s.endUpdate]

/-- The records of a snapshot. -/
def snapshotBytes (host : ByteOrder) (us : List MarketUpdate) : List UInt8 :=
  encode host (number 0 us)

/-- `us` stand in the buffer, and so far `n` datagrams were sent, each with a part of `us`
from its beginning. -/
structure Buffered (host : ByteOrder) (us : List MarketUpdate) (n : Nat) (p : Publication) :
    Prop where
  buffer : p.sendBuffer.datagram = snapshotBytes host us
  size : p.snapshotSize = UInt64.ofNat us.length
  sent : ∃ parts : List (List MarketUpdate), p.sent = parts.map (snapshotBytes host) ∧
    parts.length = n ∧ ∀ part ∈ parts, part ≠ [] ∧ part <+: us

section Publish
variable {host : ByteOrder} {s : SnapshotSynthesizer} {p : Publication} {us : List MarketUpdate}
  {n : Nat}

theorem length_snapshotBytes (us : List MarketUpdate) :
    (snapshotBytes host us).length = sizeofClientMarketUpdate * us.length := by
  rw [snapshotBytes, length_encode, length_number]

theorem Buffered.addToBuffer (h : Buffered host us n p) (u : MarketUpdate)
    (hroom : sizeofClientMarketUpdate * (us.length + 1) ≤ bufferSize) :
    ∃ p', p.addToBuffer host u = .ok p' ∧ Buffered host (us ++ [u]) n p' := by
  have hnumber : number 0 (us ++ [u]) = number 0 us ++ [⟨p.snapshotSize, u⟩] := by
    rw [number_append, h.size, UInt64.zero_add]
    rfl
  obtain ⟨b, hb, hdatagram⟩ := SendBuffer.addToBuffer_encode h.buffer
    (u := ⟨p.snapshotSize, u⟩) (by rwa [length_number])
  refine ⟨{ p with sendBuffer := b, snapshotSize := p.snapshotSize + 1 }, ?_, ?_, ?_, ?_⟩
  · rw [Publication.addToBuffer, hb]
    rfl
  · rw [snapshotBytes, hnumber]
    exact hdatagram
  · dsimp only
    rw [h.size, List.length_append, List.length_singleton, UInt64.ofNat_add]
    rfl
  · obtain ⟨parts, hsent, hlen, hparts⟩ := h.sent
    refine ⟨parts, hsent, hlen, fun part hpart => ?_⟩
    obtain ⟨hne, hpre⟩ := hparts part hpart
    exact ⟨hne, hpre.trans (List.prefix_append _ _)⟩

theorem Buffered.sendData (h : Buffered host us n p) (hne : us ≠ []) :
    Buffered host us (n + 1) p.sendData := by
  obtain ⟨parts, hsent, hlen, hparts⟩ := h.sent
  refine ⟨h.buffer, h.size, parts ++ [us], ?_, ?_, fun part hpart => ?_⟩
  · rw [Publication.sendData, List.map_append, List.map_singleton, ← hsent, h.buffer]
  · rw [List.length_append, List.length_singleton, hlen]
  · rcases List.mem_append.mp hpart with hpart | hpart
    · exact hparts part hpart
    · rw [List.mem_singleton.mp hpart]
      exact ⟨hne, List.prefix_rfl⟩

/-- The inner loop adds the orders found under `ids` and sends after each. -/
theorem Buffered.publishOrders (i : Nat) (ids : List Nat) (h : Buffered host us n p)
    (hroom : sizeofClientMarketUpdate * (us.length + ids.length) ≤ bufferSize) :
    ∃ p' vs, ids.foldlM (publishOrder host s i) p = .ok p' ∧
      vs = ids.filterMap (fun k => (s.updatesByInstrument i k).map s.marketUpdatePool.read) ∧
      Buffered host (us ++ vs) (n + vs.length) p' := by
  induction ids generalizing us n p with
  | nil => exact ⟨p, [], rfl, rfl, by rwa [List.append_nil]⟩
  | cons k ids ih =>
    rw [List.length_cons] at hroom
    rw [List.foldlM_cons, publishOrder]
    rcases hk : s.updatesByInstrument i k with _ | b
    · obtain ⟨p', vs, hp', hvs, hbuffered⟩ :=
        ih h ((Nat.mul_le_mul_left _ (by omega)).trans hroom)
      refine ⟨p', vs, hp', ?_, hbuffered⟩
      rw [hvs, List.filterMap_cons, hk]
      rfl
    · obtain ⟨p₁, hp₁, h₁⟩ := h.addToBuffer (s.marketUpdatePool.read b)
        ((Nat.mul_le_mul_left _ (by omega)).trans hroom)
      have hne : us ++ [s.marketUpdatePool.read b] ≠ [] := List.append_ne_nil_of_right_ne_nil _
        (List.cons_ne_nil _ _)
      have hlen : (us ++ [s.marketUpdatePool.read b]).length = us.length + 1 := by
        rw [List.length_append, List.length_singleton]
      obtain ⟨p', vs, hp', hvs, hbuffered⟩ :=
        ih (h₁.sendData hne) ((Nat.mul_le_mul_left _ (by omega)).trans hroom)
      refine ⟨p', s.marketUpdatePool.read b :: vs, ?_, ?_, ?_⟩
      · dsimp only
        rw [hp₁]
        exact hp'
      · rw [List.filterMap_cons, hk, hvs]
        rfl
      · rw [List.append_assoc] at hbuffered
        rwa [List.length_cons, Nat.add_comm vs.length 1, ← Nat.add_assoc]

theorem length_stored_le (s : SnapshotSynthesizer) (i : Nat) :
    (s.stored i).length ≤ maxNumOrders :=
  (List.length_filterMap_le ..).trans List.length_range.le

/-- The outer loop over some of the instruments. -/
theorem Buffered.publishInstruments (is : List Nat) (h : Buffered host us n p)
    (hroom : sizeofClientMarketUpdate * (us.length + (maxNumOrders + 1) * is.length) ≤
      bufferSize) :
    ∃ p', is.foldlM (publishInstrument host s) p = .ok p' ∧
      Buffered host (us ++ is.flatMap fun i => clearUpdate i :: s.stored i)
        (n + (is.flatMap s.stored).length) p' := by
  induction is generalizing us n p with
  | nil => exact ⟨p, rfl, by simpa using h⟩
  | cons i is ih =>
    rw [List.length_cons, Nat.mul_succ] at hroom
    obtain ⟨p₁, hp₁, h₁⟩ := h.addToBuffer (clearUpdate i)
      ((Nat.mul_le_mul_left _ (by omega)).trans hroom)
    have hone : (us ++ [clearUpdate i]).length = us.length + 1 := by
      rw [List.length_append, List.length_singleton]
    have hrange : (List.range maxNumOrders).length = maxNumOrders := List.length_range
    obtain ⟨p₂, vs, hp₂, hvs, h₂⟩ := h₁.publishOrders (s := s) i (List.range maxNumOrders)
      ((Nat.mul_le_mul_left _ (by omega)).trans hroom)
    have hstored : vs = s.stored i := hvs
    rw [hstored] at h₂
    have hlen := length_stored_le s i
    have htwo : (us ++ [clearUpdate i] ++ s.stored i).length =
        us.length + 1 + (s.stored i).length := by
      rw [List.length_append, hone]
    obtain ⟨p', hp', h'⟩ := ih h₂ ((Nat.mul_le_mul_left _ (by omega)).trans hroom)
    refine ⟨p', ?_, ?_⟩
    · rw [List.foldlM_cons, publishInstrument, hp₁, ok_bind, hp₂, ok_bind]
      exact hp'
    · rw [List.flatMap_cons, List.flatMap_cons, List.length_append, ← Nat.add_assoc]
      simpa only [List.append_assoc, List.cons_append, List.nil_append] using h'

theorem length_messages (s : SnapshotSynthesizer) :
    s.messages.length = s.liveOrders.length + maxNumInstruments + 2 := by
  have hsum : ∀ is : List Nat, (is.flatMap fun i => clearUpdate i :: s.stored i).length =
      (is.flatMap s.stored).length + is.length := by
    intro is
    induction is with
    | nil => rfl
    | cons i is ih =>
      simp only [List.flatMap_cons, List.length_append, List.length_cons, ih]
      omega
  rw [messages, List.length_append, List.length_cons, hsum, List.length_range, liveOrders,
    List.length_singleton]

theorem length_liveOrders_le (s : SnapshotSynthesizer) :
    s.liveOrders.length ≤ maxNumOrders * maxNumInstruments := by
  have hsum : ∀ is : List Nat, (is.flatMap s.stored).length ≤ maxNumOrders * is.length := by
    intro is
    induction is with
    | nil => exact Nat.zero_le _
    | cons i is ih =>
      have hlen := length_stored_le s i
      rw [List.flatMap_cons, List.length_append, List.length_cons, Nat.mul_succ]
      omega
  have h := hsum (List.range maxNumInstruments)
  rwa [List.length_range] at h

/-- A snapshot of a synthesizer with an empty buffer: one datagram for each live order,
then the whole. -/
theorem publishSnapshot_spec (h : s.sendBuffer.nextSendValidIndex = 0) :
    ∃ (b : SendBuffer) (parts : List (List MarketUpdate)),
      publishSnapshot host s = .ok ({ s with sendBuffer := b.reset },
        parts.map (snapshotBytes host) ++ [snapshotBytes host s.messages]) ∧
      parts.length = s.liveOrders.length ∧
      ∀ part ∈ parts, part ≠ [] ∧ part <+: s.messages := by
  have hroom : sizeofClientMarketUpdate *
      ((maxNumOrders + 1) * maxNumInstruments + 2) ≤ bufferSize := by decide
  have hempty : Buffered host [] 0 ⟨s.sendBuffer, 0, []⟩ := by
    refine ⟨?_, rfl, [], rfl, rfl, nofun⟩
    exact List.eq_nil_of_length_eq_zero ((SendBuffer.length_datagram _).trans h)
  obtain ⟨p₁, hp₁, h₁⟩ := hempty.addToBuffer s.startUpdate (by decide)
  obtain ⟨p₂, hp₂, h₂⟩ := h₁.publishInstruments (s := s) (List.range maxNumInstruments) (by
    refine (Nat.mul_le_mul_left _ ?_).trans hroom
    rw [List.nil_append, List.length_singleton, List.length_range]
    omega)
  have hlen := length_messages s
  have hlive := length_liveOrders_le s
  rw [messages, List.length_append, List.length_singleton] at hlen
  obtain ⟨p₃, hp₃, h₃⟩ := h₂.addToBuffer s.endUpdate (by
    refine (Nat.mul_le_mul_left _ ?_).trans hroom
    rw [Nat.succ_mul]
    have hmul := Nat.mul_comm maxNumOrders maxNumInstruments
    simp only [List.nil_append, List.cons_append] at hlen ⊢
    omega)
  obtain ⟨parts, hsent, hcount, hparts⟩ := h₃.sent
  have hbuffer : p₃.sendBuffer.datagram = snapshotBytes host s.messages := h₃.buffer
  refine ⟨p₃.sendBuffer, parts, ?_, ?_, hparts⟩
  · rw [publishSnapshot, hp₁, ok_bind, hp₂, ok_bind, hp₃, ok_bind, Publication.sendData, hsent,
      hbuffer]
  · rw [hcount, Nat.zero_add]
    rfl

end Publish

/-- What the thread of the synthesizer does in turn. -/
inductive SynthesizerStep where
  | update (u : ClientMarketUpdate)
  | publish

def step (host : ByteOrder) (s : SnapshotSynthesizer) :
    SynthesizerStep → Except Fault SnapshotSynthesizer
  | .update u => s.addToSnapshot u
  | .publish => s.publishSnapshot host >>= fun r => .ok r.1

/-- The datagrams of one call, decoded one after the other, are one snapshot. -/
def TransmitsOnce (host : ByteOrder) (s : SnapshotSynthesizer) : Prop :=
  ∃ s' ds, s.publishSnapshot host = .ok (s', ds) ∧
    ds.flatMap (decode host) = number 0 s.messages ∧ s'.sendBuffer.nextSendValidIndex = 0

section Transmission
variable {host : ByteOrder} {s s' : SnapshotSynthesizer} {u : ClientMarketUpdate}

theorem sendBuffer_addToSnapshot (h : s.addToSnapshot u = .ok s') :
    s'.sendBuffer = s.sendBuffer := by
  rw [addToSnapshot] at h
  split at h
  · obtain ⟨t, ht, h⟩ := bind_eq_ok.mp h
    cases h
    split at ht
    · obtain ⟨_, _, ht⟩ := bind_eq_ok.mp ht
      obtain ⟨_, _, ht⟩ := bind_eq_ok.mp ht
      cases ht
      rfl
    · split at ht
      · obtain ⟨_, _, ht⟩ := bind_eq_ok.mp ht
        obtain ⟨_, _, ht⟩ := bind_eq_ok.mp ht
        cases ht
        rfl
      · split at ht
        · obtain ⟨_, _, ht⟩ := bind_eq_ok.mp ht
          obtain ⟨_, _, ht⟩ := bind_eq_ok.mp ht
          cases ht
          rfl
        · cases ht
          rfl
  · cases h

/-- Between calls the send buffer is empty. -/
theorem reached_empty {es : List SynthesizerStep}
    (h : Reached (step host) (fun _ _ => True) create es s) :
    s.sendBuffer.nextSendValidIndex = 0 := by
  refine h.invariant (P := fun s => s.sendBuffer.nextSendValidIndex = 0) rfl ?_
  intro s e s' hs _ hstep
  cases e with
  | update u => exact (congrArg _ (sendBuffer_addToSnapshot hstep)).trans hs
  | publish =>
    obtain ⟨r, hr, hs'⟩ := bind_eq_ok.mp hstep
    obtain ⟨b, parts, hok, -, -⟩ := @publishSnapshot_spec host _ hs
    cases hr.symm.trans hok
    cases hs'
    rfl

theorem mem_liveOrders {o : MarketUpdate} : o ∈ s.liveOrders ↔
    ∃ i < maxNumInstruments, ∃ k < maxNumOrders, ∃ p, s.updatesByInstrument i k = some p ∧
      s.marketUpdatePool.read p = o := by
  simp only [liveOrders, stored, List.mem_flatMap, List.mem_filterMap, List.mem_range,
    Option.map_eq_some_iff]

theorem decode_snapshotBytes (us : List MarketUpdate) :
    decode host (snapshotBytes host us) = number 0 us := decode_encode ..

/-- Only the last datagram may be sent. -/
theorem transmitsOnce_iff_none (h : s.sendBuffer.nextSendValidIndex = 0) :
    s.TransmitsOnce host ↔ s.liveOrders = [] := by
  obtain ⟨b, parts, hok, hcount, hparts⟩ := @publishSnapshot_spec host s h
  have hdecode : (parts.map (snapshotBytes host) ++ [snapshotBytes host s.messages]).flatMap
      (decode host) = parts.flatMap (number 0) ++ number 0 s.messages := by
    rw [List.flatMap_append, List.flatMap_map, List.flatMap_singleton]
    simp only [decode_snapshotBytes]
  constructor
  · rintro ⟨s', ds, hpublish, heq, -⟩
    cases hok.symm.trans hpublish
    rw [hdecode, List.append_left_eq_self] at heq
    rw [← List.length_eq_zero_iff, ← hcount, List.length_eq_zero_iff]
    by_contra hne
    obtain ⟨part, rest, rfl⟩ := List.exists_cons_of_ne_nil hne
    have hlen := congrArg List.length (List.flatMap_eq_nil_iff.mp heq part List.mem_cons_self)
    rw [length_number] at hlen
    exact (hparts part List.mem_cons_self).1 (List.eq_nil_of_length_eq_zero hlen)
  · intro hnone
    rw [hnone] at hcount
    obtain rfl := List.eq_nil_of_length_eq_zero hcount
    exact ⟨_, _, hok, hdecode, rfl⟩

/-- A snapshot is transmitted exactly once if and only if no order is live. -/
theorem snapshot_once_iff {es : List SynthesizerStep}
    (h : Reached (step host) (fun _ _ => True) create es s) :
    s.TransmitsOnce host ↔ s.liveOrders = [] :=
  transmitsOnce_iff_none (reached_empty h)

/-- An order has come and gone. -/
theorem snapshot_once_iff_sample : ∃ s, Reached (step .little) (fun _ _ => True) create
      [.update ⟨1, ⟨.add, 1, 0, .buy, 10, 5, 1⟩⟩,
        .update ⟨2, ⟨.cancel, 1, 0, .buy, 10, 0, 1⟩⟩] s ∧ s.TransmitsOnce .little := by
  obtain ⟨s, hs, hcheck⟩ := @reached_of_any _ _ _ (step .little) (fun _ _ => True) create
    [.update ⟨1, ⟨.add, 1, 0, .buy, 10, 5, 1⟩⟩, .update ⟨2, ⟨.cancel, 1, 0, .buy, 10, 0, 1⟩⟩] _
    (fun s => decide (s.liveOrders = [])) (by decide +kernel)
  exact ⟨s, hs, (snapshot_once_iff hs).mpr (of_decide_eq_true hcheck)⟩

/-- One order is live: the datagram sent after it is sent again with the rest behind it. -/
theorem snapshot_repeated : ∃ s, Reached (step .little) (fun _ _ => True) create
      [.update ⟨1, ⟨.add, 1, 0, .buy, 10, 5, 1⟩⟩] s ∧ ¬ s.TransmitsOnce .little := by
  obtain ⟨s, hs, hcheck⟩ := @reached_of_any _ _ _ (step .little) (fun _ _ => True) create
    [.update ⟨1, ⟨.add, 1, 0, .buy, 10, 5, 1⟩⟩] _
    (fun s => decide (s.updatesByInstrument 0 1 = some 0)) (by decide +kernel)
  refine ⟨s, hs, fun h => ?_⟩
  have hnone := (transmitsOnce_iff_none (reached_empty hs)).mp h
  have hmem : s.marketUpdatePool.read 0 ∈ s.liveOrders :=
    mem_liveOrders.mpr ⟨0, by decide, 1, by decide, 0, of_decide_eq_true hcheck, rfl⟩
  rw [hnone] at hmem
  cases hmem

end Transmission

end SnapshotSynthesizer

end StockExchange
