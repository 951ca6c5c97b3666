import StockExchange.TcpConnection

/-!
# The order server

The loop thread accepts connections and reads requests; those in turn are pending until the
sequencer publishes them. The response thread numbers the responses of the server and of
the engine and appends them to the connection of their client.
-/

namespace StockExchange

open Bytes

def maxPendingRequests : Nat := 1024

structure TimedClientRequest where
  recvTime : Int64
  request : ClientRequestInternal
deriving DecidableEq

/-- A counter of the server among the wider numbers of the records. -/
theorem toUInt64_ofNat {n : Nat} (h : n < 2 ^ 32) :
    (UInt32.ofNat n).toUInt64 = UInt64.ofNat n := by
  apply UInt64.toNat_inj.mp
  rw [UInt32.toNat_toUInt64, UInt32.toNat_ofNat_of_lt' h,
    UInt64.toNat_ofNat_of_lt' (by rw [UInt64.size]; omega)]

/-- The pending requests are the first `pending_size_` entries of the array. -/
structure FifoSequencer where
  pendingClientRequests : List TimedClientRequest
  incomingRequests : LockFreeQueue ClientRequestInternal
  pending_le : pendingClientRequests.length ≤ maxPendingRequests

namespace FifoSequencer

def create (incoming : LockFreeQueue ClientRequestInternal) : FifoSequencer :=
  ⟨[], incoming, Nat.zero_le _⟩

def addRequest (f : FifoSequencer) (rxTime : Int64) (request : ClientRequestInternal) :
    Except Fault FifoSequencer :=
  if h : maxPendingRequests ≤ f.pendingClientRequests.length then .error .fatal
  else .ok
    { f with
      pendingClientRequests := f.pendingClientRequests ++ [⟨rxTime, request⟩]
      pending_le := by
        rw [List.length_append, List.length_singleton]
        omega }

/-- The requests in the order in which they are written to the queue. -/
def publishOrder (sort : List TimedClientRequest → List TimedClientRequest) (f : FifoSequencer) :
    List ClientRequestInternal :=
  (sort f.pendingClientRequests).map (·.request)

/-- The pending requests are sorted, written to the queue one by one and forgotten. -/
def sequenceAndPublish (sort : List TimedClientRequest → List TimedClientRequest)
    (f : FifoSequencer) : FifoSequencer :=
  if f.pendingClientRequests = [] then f
  else
    { pendingClientRequests := []
      incomingRequests := (f.publishOrder sort).foldl .push f.incomingRequests
      pending_le := Nat.zero_le _ }

theorem pending_sequenceAndPublish (sort : List TimedClientRequest → List TimedClientRequest)
    (f : FifoSequencer) : (f.sequenceAndPublish sort).pendingClientRequests = [] := by
  rw [sequenceAndPublish]
  split
  · assumption
  · rfl

end FifoSequencer

/-- An array of `std::unique_ptr`: no connection has two owners, and every one that is
owned has been made. -/
structure ClientConnections where
  owner : Nat → Option Nat
  made : Nat
  owner_made : ∀ i p, owner i = some p → p < made
  owner_unique : ∀ i j p, owner i = some p → owner j = some p → i = j

namespace ClientConnections

def create : ClientConnections := ⟨fun _ => none, 0, nofun, nofun⟩

/-- A new connection is moved into an entry. -/
def adopt (t : ClientConnections) (i : Nat) : ClientConnections where
  owner := Function.update t.owner i (some t.made)
  made := t.made + 1
  owner_made j p h := by
    by_cases hj : j = i
    · subst hj
      rw [Function.update_self] at h
      cases h
      exact Nat.lt_succ_self _
    · rw [Function.update_of_ne hj] at h
      exact Nat.lt_succ_of_lt (t.owner_made j p h)
  owner_unique j k p hj hk := by
    have hfresh : ∀ m, t.owner m ≠ some t.made := fun m hm =>
      Nat.lt_irrefl _ (t.owner_made m _ hm)
    by_cases hji : j = i <;> by_cases hki : k = i
    · rw [hji, hki]
    · rw [hji, Function.update_self] at hj
      rw [Function.update_of_ne hki, ← hj] at hk
      exact absurd hk (hfresh k)
    · rw [hki, Function.update_self] at hk
      rw [Function.update_of_ne hji, ← hk] at hj
      exact absurd hj (hfresh j)
    · rw [Function.update_of_ne hji] at hj
      rw [Function.update_of_ne hki] at hk
      exact t.owner_unique j k p hj hk

theorem owner_adopt_self (t : ClientConnections) (i : Nat) :
    (t.adopt i).owner i = some t.made := Function.update_self ..

theorem owner_adopt_ne (t : ClientConnections) {i j : Nat} (hne : j ≠ i) :
    (t.adopt i).owner j = t.owner j := Function.update_of_ne hne ..

end ClientConnections

structure OrderServer where
  nextClientId : ClientId
  serverResponses : LockFreeQueue ClientResponseInternal
  clientNextOutgoingSeqNum : Nat → ClientId
  clientNextIncomingSeqNum : Nat → ClientId
  clientConnections : ClientConnections
  connection : Nat → TcpConnection
  fifoSequencer : FifoSequencer

def ClientRequestInternal.default : ClientRequestInternal :=
  ⟨.invalid, invalidClientId, invalidInstrumentId, invalidOrderId, .invalid, invalidPrice,
    invalidQuantity⟩

def ClientResponseInternal.default : ClientResponseInternal :=
  ⟨.invalid, invalidClientId, invalidInstrumentId, invalidOrderId, invalidOrderId, .invalid,
    invalidPrice, invalidQuantity, invalidQuantity⟩

/-- A response of the server itself. -/
def ClientResponseInternal.ofServer (type : ClientResponseType) (clientId : ClientId) :
    ClientResponseInternal :=
  ⟨type, clientId, invalidInstrumentId, invalidOrderId, invalidOrderId, .invalid, invalidPrice,
    invalidQuantity, invalidQuantity⟩

namespace OrderServer

/-- The server at its start; `incoming` is the queue of the engine. -/
def create (incoming : LockFreeQueue ClientRequestInternal) : OrderServer where
  nextClientId := 0
  serverResponses := .create .default maxPendingRequests
  clientNextOutgoingSeqNum _ := 1
  clientNextIncomingSeqNum _ := 1
  clientConnections := .create
  connection _ := .create
  fifoSequencer := .create incoming

def pushServerResponse (s : OrderServer) (r : ClientResponseInternal) : OrderServer :=
  { s with serverResponses := s.serverResponses.push r }

def sendInvalidResponse (s : OrderServer) (clientId : ClientId) : OrderServer :=
  s.pushServerResponse (.ofServer .invalidRequest clientId)

def sendConnectionAcceptedResponse (s : OrderServer) (clientId : ClientId) : OrderServer :=
  s.pushServerResponse (.ofServer .accepted clientId)

/-- The end of `handle_new_connection`: the connection is stored in the table. -/
def storeConnection (s : OrderServer) : Except Fault OrderServer :=
  if s.nextClientId.toNat < maxNumClients then
    .ok { s with
      connection := Function.update s.connection s.clientConnections.made .create
      clientConnections := s.clientConnections.adopt s.nextClientId.toNat
      nextClientId := s.nextClientId + 1 }
  else .error .thrown

/-- `handle_new_connection` of a connection that libuv accepts. -/
def handleNewConnection (s : OrderServer) : Except Fault OrderServer :=
  (s.sendConnectionAcceptedResponse s.nextClientId).storeConnection

/-- What the loop of `read_data` does with a request from connection `conn`. -/
def readRequest (conn : Nat) (userTime : Int64) (s : OrderServer) (r : ClientRequestExternal) :
    Except Fault OrderServer :=
  let clientId := r.request.clientId
  if clientId.toNat < maxNumClients then
    if s.clientConnections.owner clientId.toNat ≠ some conn then
      .ok (s.sendInvalidResponse clientId)
    else if r.sequenceNumber ≠ (s.clientNextIncomingSeqNum clientId.toNat).toUInt64 then
      .ok (s.sendInvalidResponse clientId)
    else
      s.fifoSequencer.addRequest userTime r.request >>= fun f =>
        .ok { s with
          clientNextIncomingSeqNum := Function.update s.clientNextIncomingSeqNum clientId.toNat
            (s.clientNextIncomingSeqNum clientId.toNat + 1)
          fifoSequencer := f }
  else .error .badAccess

def readData (host : ByteOrder) (s : OrderServer) (conn : Nat) (userTime : Int64) :
    Except Fault OrderServer :=
  (s.connection conn).readData host (readRequest conn userTime) s >>= fun r =>
    .ok { r.2 with connection := Function.update r.2.connection conn r.1 }

/-- The connection a response is appended to. -/
def responseConnection (s : OrderServer) (r : ClientResponseInternal) : Except Fault Nat :=
  if r.clientId.toNat < maxNumClients then deref (s.clientConnections.owner r.clientId.toNat)
  else .error .badAccess

/-- What the loop of `process_responses_helper` does with a response. -/
def processResponse (host : ByteOrder) (s : OrderServer) (r : ClientResponseInternal) :
    Except Fault OrderServer :=
  s.responseConnection r >>= fun conn =>
    let nextOutgoingSeqNum := s.clientNextOutgoingSeqNum r.clientId.toNat
    (s.connection conn).appendToOutboundBuffer host r nextOutgoingSeqNum.toUInt64 >>= fun c =>
      .ok { s with
        connection := Function.update s.connection conn c
        clientNextOutgoingSeqNum := Function.update s.clientNextOutgoingSeqNum
          r.clientId.toNat (nextOutgoingSeqNum + 1) }

/-- `on_check`. -/
def onCheck (sort : List TimedClientRequest → List TimedClientRequest) (s : OrderServer) :
    OrderServer :=
  { s with fifoSequencer := s.fifoSequencer.sequenceAndPublish sort }

end OrderServer

end StockExchange
