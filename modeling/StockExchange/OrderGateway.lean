import StockExchange.OrderServer

/-!
# The order gateway

The client's side of a session. The gateway learns its client id from the response numbered
1, and only then numbers the requests of the client and sends them.
-/

namespace StockExchange

structure OrderGateway where
  clientId : ClientId
  incomingResponses : LockFreeQueue ClientResponseInternal
  outgoingRequests : LockFreeQueue ClientRequestInternal
  nextOutgoingSeqNum : UInt64
  nextExpSeqNum : UInt64

namespace OrderGateway

def tcpBufferSize : Nat := 64 * 1024 * 1024

/-- The queues are those of the client's program. -/
def create (incoming : LockFreeQueue ClientResponseInternal)
    (outgoing : LockFreeQueue ClientRequestInternal) : OrderGateway :=
  ⟨invalidClientId, incoming, outgoing, 1, 1⟩

/-- What the loop of `read_data` does with a response. -/
def readResponse (g : OrderGateway) (r : ClientResponseExternal) : OrderGateway :=
  if g.clientId ≠ invalidClientId ∧ g.clientId ≠ r.response.clientId then g
  else if r.sequenceNumber ≠ g.nextExpSeqNum then g
  else if r.sequenceNumber = 1 then
    { g with
      clientId := r.response.clientId
      nextExpSeqNum := g.nextExpSeqNum + 1 }
  else
    { g with
      incomingResponses := g.incomingResponses.push r.response
      nextExpSeqNum := g.nextExpSeqNum + 1 }

/-- The record that is appended to the outbound buffer for a request. -/
def numbered (g : OrderGateway) (request : ClientRequestInternal) : ClientRequestExternal :=
  ⟨g.nextOutgoingSeqNum, { request with clientId := g.clientId }⟩

def nextRequest (g : OrderGateway) : OrderGateway :=
  { g with
    outgoingRequests := g.outgoingRequests.pop
    nextOutgoingSeqNum := g.nextOutgoingSeqNum + 1 }

/-- The loop of `send_request`; `out` are the records in the outbound buffer. It goes on
while another record fits. -/
def sendLoop : Nat → OrderGateway → List ClientRequestExternal →
    OrderGateway × List ClientRequestExternal
  | 0, g, out => (g, out)
  | n + 1, g, out =>
    match g.outgoingRequests.nextReadElement with
    | none => (g, out)
    | some request =>
      if sizeofClientRequest ≤ tcpBufferSize - sizeofClientRequest * (out.length + 1) then
        sendLoop n g.nextRequest (out ++ [g.numbered request])
      else (g.nextRequest, out ++ [g.numbered request])

/-- The gateway and the records that are written to the connection. -/
def sendRequest (g : OrderGateway) : OrderGateway × List ClientRequestExternal :=
  sendLoop g.outgoingRequests.numElements g []

def onIdle (g : OrderGateway) : OrderGateway × List ClientRequestExternal :=
  if g.clientId = invalidClientId then (g, []) else g.sendRequest

/-- A response with the expected number is accepted, unless it is for another client. -/
theorem readResponse_expected {g : OrderGateway} {r : ClientResponseExternal}
    (hclient : g.clientId = invalidClientId ∨ g.clientId = r.response.clientId)
    (hnumber : r.sequenceNumber = g.nextExpSeqNum) :
    (g.readResponse r).nextExpSeqNum = g.nextExpSeqNum + 1 ∧
    (g.readResponse r).nextOutgoingSeqNum = g.nextOutgoingSeqNum ∧
    ((g.readResponse r).clientId = g.clientId ∨
      (g.readResponse r).clientId = r.response.clientId) := by
  have hpasses : ¬ (g.clientId ≠ invalidClientId ∧ g.clientId ≠ r.response.clientId) := by
    rintro ⟨hknown, hother⟩
    rcases hclient with h | h
    · exact hknown h
    · exact hother h
  rw [readResponse, if_neg hpasses, if_neg (not_not.mpr hnumber)]
  by_cases hfirst : r.sequenceNumber = 1
  · rw [if_pos hfirst]
    exact ⟨rfl, rfl, .inr rfl⟩
  · rw [if_neg hfirst]
    exact ⟨rfl, rfl, .inl rfl⟩

/-- The records of a gateway carry its client id and the numbers that follow. -/
structure Numbers (g g' : OrderGateway) (rs : List ClientRequestExternal) : Prop where
  clientId : g'.clientId = g.clientId
  expected : g'.nextExpSeqNum = g.nextExpSeqNum
  next : g'.nextOutgoingSeqNum = g.nextOutgoingSeqNum + UInt64.ofNat rs.length
  owner : ∀ r ∈ rs, r.request.clientId = g.clientId
  numbers : rs.map (·.sequenceNumber) =
    (List.range rs.length).map fun i => g.nextOutgoingSeqNum + UInt64.ofNat i

theorem Numbers.nil (g : OrderGateway) : g.Numbers g [] :=
  ⟨rfl, rfl, (UInt64.add_zero _).symm, nofun, rfl⟩

/-- One more record goes out before the others. -/
theorem Numbers.cons {g g' : OrderGateway} {rs : List ClientRequestExternal}
    (h : g.nextRequest.Numbers g' rs) (request : ClientRequestInternal) :
    g.Numbers g' (g.numbered request :: rs) := by
  have hsucc : ∀ i, g.nextOutgoingSeqNum + 1 + UInt64.ofNat i =
      g.nextOutgoingSeqNum + UInt64.ofNat (i + 1) := by
    intro i
    rw [UInt64.ofNat_add, UInt64.add_comm (UInt64.ofNat i), UInt64.add_assoc]
    rfl
  constructor
  · exact h.clientId
  · exact h.expected
  · exact h.next.trans (hsucc rs.length)
  · intro r hr
    rcases List.mem_cons.mp hr with rfl | hr
    · rfl
    · exact h.owner r hr
  · rw [List.map_cons, h.numbers, List.length_cons, List.range_succ_eq_map, List.map_cons,
      List.map_map]
    congr 1
    · exact (UInt64.add_zero _).symm
    · apply List.map_congr_left
      intro i _
      exact hsucc i

theorem sendLoop_numbers (n : Nat) (g : OrderGateway) (out : List ClientRequestExternal) :
    ∃ rs, (sendLoop n g out).2 = out ++ rs ∧ g.Numbers (sendLoop n g out).1 rs := by
  induction n generalizing g out with
  | zero => exact ⟨[], (List.append_nil out).symm, .nil g⟩
  | succ n ih =>
    rw [sendLoop]
    cases g.outgoingRequests.nextReadElement with
    | none => exact ⟨[], (List.append_nil out).symm, .nil g⟩
    | some request =>
      dsimp only
      split
      · obtain ⟨rs, hout, hnumbers⟩ := ih g.nextRequest (out ++ [g.numbered request])
        refine ⟨g.numbered request :: rs, ?_, hnumbers.cons request⟩
        rw [hout, List.append_assoc]
        rfl
      · exact ⟨[g.numbered request], rfl, (Numbers.nil _).cons request⟩

/-- Nothing is sent before the client id is known. -/
theorem onIdle_numbers (g : OrderGateway) :
    g.Numbers g.onIdle.1 g.onIdle.2 ∧ (g.onIdle.2 ≠ [] → g.clientId ≠ invalidClientId) := by
  rw [onIdle]
  split
  · exact ⟨.nil g, fun h => absurd rfl h⟩
  · rename_i hknown
    obtain ⟨rs, hout, hnumbers⟩ := sendLoop_numbers g.outgoingRequests.numElements g []
    rw [sendRequest, hout]
    exact ⟨hnumbers, fun _ => hknown⟩

theorem onIdle_single {g : OrderGateway} {request : ClientRequestInternal}
    (hknown : g.clientId ≠ invalidClientId) (hone : g.outgoingRequests.numElements = 1)
    (hnext : g.outgoingRequests.nextReadElement = some request) :
    g.onIdle = (g.nextRequest, [g.numbered request]) := by
  rw [onIdle, if_neg hknown, sendRequest, hone, sendLoop, hnext]
  dsimp only
  rw [if_pos (by decide)]
  rfl

end OrderGateway

end StockExchange
