import StockExchange.OrderServer
import StockExchange.Library.Transitions

/-!
# Responses and the connections they are for

The loop thread accepts connections and reads requests, the engine answers, and the response
thread takes the responses of the server and of the engine as it finds them. A connection is
stored only after its ACCEPTED response is pushed.
-/

namespace StockExchange

open Bytes Transitions

/-- The two threads of the order server and the engine behind them. `accepting` holds between
the two halves of `handle_new_connection`; `forwarded` are the clients of the requests that
have been accepted for the engine. -/
structure Routing where
  server : OrderServer
  accepting : Bool
  engineResponses : LockFreeQueue ClientResponseInternal
  forwarded : List ClientId

inductive RoutingStep where
  | accept
  | store
  | read (conn : Nat) (userTime : Int64) (r : ClientRequestExternal)
  | publish (sort : List TimedClientRequest → List TimedClientRequest)
  | answer (r : ClientResponseInternal)
  | takeServer
  | takeEngine

namespace Routing

def create : Routing where
  server := .create (.create .default maxClientUpdates)
  accepting := false
  engineResponses := .create .default maxClientUpdates
  forwarded := []

/-- The response that a step takes from its queue. -/
def taken (s : Routing) : RoutingStep → Option ClientResponseInternal
  | .takeServer => s.server.serverResponses.nextReadElement
  | .takeEngine => s.engineResponses.nextReadElement
  | _ => none

def step (host : ByteOrder) (s : Routing) : RoutingStep → Except Fault Routing
  | .accept => .ok
    { s with
      server := s.server.sendConnectionAcceptedResponse s.server.nextClientId
      accepting := true }
  | .store => s.server.storeConnection >>= fun server =>
      .ok { s with server := server, accepting := false }
  | .read conn userTime r => s.server.readRequest conn userTime r >>= fun server =>
      .ok { s with
        server := server
        forwarded := s.forwarded ++ (server.fifoSequencer.pendingClientRequests.drop
          s.server.fifoSequencer.pendingClientRequests.length).map (·.request.clientId) }
  | .publish sort => .ok { s with server := s.server.onCheck sort }
  | .answer r => .ok { s with engineResponses := s.engineResponses.push r }
  | .takeServer =>
    match s.server.serverResponses.nextReadElement with
    | none => .ok s
    | some r => s.server.processResponse host r >>= fun server =>
        .ok { s with server := { server with serverResponses := server.serverResponses.pop } }
  | .takeEngine =>
    match s.engineResponses.nextReadElement with
    | none => .ok s
    | some r => s.server.processResponse host r >>= fun server =>
        .ok { s with server := server, engineResponses := s.engineResponses.pop }

/-- What the loop thread can do next; the engine answers clients whose requests it was
given. -/
def Feasible (s : Routing) : RoutingStep → Prop
  | .accept => s.accepting = false
  | .store => s.accepting = true
  | .read conn _ _ => s.accepting = false ∧ conn < s.server.clientConnections.made
  | .publish _ => s.accepting = false
  | .answer r => r.clientId ∈ s.forwarded
  | .takeServer => True
  | .takeEngine => True

/-- The client's connection is stored; it is the one made for this client. -/
def Registered (s : OrderServer) (clientId : ClientId) : Prop :=
  clientId.toNat < maxNumClients ∧
    s.clientConnections.owner clientId.toNat = some clientId.toNat

/-- A connection is accepted while the table has room, a record names a client whose
connection is stored, and the response thread does not take the ACCEPTED response before
the connection is stored. -/
def Orderly (s : Routing) : RoutingStep → Prop
  | .accept => s.server.nextClientId.toNat < maxNumClients
  | .read _ _ r => Registered s.server r.request.clientId
  | .takeServer => s.accepting = true →
      ∀ r ∈ s.server.serverResponses.nextReadElement, r.clientId ≠ s.server.nextClientId
  | _ => True

/-- Of every client below `nextClientId` the connection is stored, and every response in a
queue is for such a client or for the one that is being accepted. -/
structure Sound (s : Routing) : Prop where
  made : s.server.clientConnections.made = s.server.nextClientId.toNat
  bound : s.server.nextClientId.toNat ≤ maxNumClients
  stored : ∀ i < s.server.nextClientId.toNat, s.server.clientConnections.owner i = some i
  accepting : s.accepting = true → s.server.nextClientId.toNat < maxNumClients
  server : s.server.serverResponses.All fun r =>
    Registered s.server r.clientId ∨ s.accepting = true ∧ r.clientId = s.server.nextClientId
  engine : s.engineResponses.All fun r => Registered s.server r.clientId
  forwarded : ∀ c ∈ s.forwarded, Registered s.server c

section Steps
variable {host : ByteOrder} {s s' : Routing} {server server' : OrderServer}

/-- With no step of the response thread in between, the two halves are one call of
`handle_new_connection`. -/
theorem accept_store (host : ByteOrder) (s : Routing) :
    [RoutingStep.accept, .store].foldlM (step host) s =
      s.server.handleNewConnection >>= fun server =>
        .ok { s with server := server, accepting := false } := by
  rw [List.foldlM_cons, step, ok_bind, List.foldlM_cons, OrderServer.handleNewConnection]
  dsimp only [step]
  rcases (s.server.sendConnectionAcceptedResponse s.server.nextClientId).storeConnection
    with f | server
  · rfl
  · rfl

theorem create_sound : create.Sound where
  made := rfl
  bound := Nat.zero_le _
  stored := nofun
  accepting h := nomatch h
  server := LockFreeQueue.create_all ..
  engine := LockFreeQueue.create_all ..
  forwarded := nofun

/-- A response goes to the connection stored for its client and moves that client's number
on. -/
theorem processResponse_cases {r : ClientResponseInternal}
    (h : server.processResponse host r = .ok server') :
    ∃ conn c, server.clientConnections.owner r.clientId.toNat = some conn ∧
      server' = { server with
        connection := Function.update server.connection conn c
        clientNextOutgoingSeqNum := Function.update server.clientNextOutgoingSeqNum
          r.clientId.toNat (server.clientNextOutgoingSeqNum r.clientId.toNat + 1) } := by
  obtain ⟨conn, hconn, h⟩ := bind_eq_ok.mp h
  obtain ⟨c, _, h⟩ := bind_eq_ok.mp h
  rw [OrderServer.responseConnection] at hconn
  split at hconn
  · cases howner : server.clientConnections.owner r.clientId.toNat with
    | none =>
      rw [howner] at hconn
      cases hconn
    | some p =>
      rw [howner] at hconn
      cases hconn
      exact ⟨conn, c, rfl, (Except.ok.inj h).symm⟩
  · cases hconn

/-- A request is rejected to the client it names, or pending for it. -/
theorem readRequest_cases {conn : Nat} {userTime : Int64} {r : ClientRequestExternal}
    (h : server.readRequest conn userTime r = .ok server') :
    server' = server.sendInvalidResponse r.request.clientId ∧
      (server.clientConnections.owner r.request.clientId.toNat ≠ some conn ∨
        r.sequenceNumber ≠ (server.clientNextIncomingSeqNum r.request.clientId.toNat).toUInt64) ∨
    server.clientConnections.owner r.request.clientId.toNat = some conn ∧
      ∃ f : FifoSequencer, f.pendingClientRequests =
          server.fifoSequencer.pendingClientRequests ++ [⟨userTime, r.request⟩] ∧
        server' = { server with
          clientNextIncomingSeqNum := Function.update server.clientNextIncomingSeqNum
            r.request.clientId.toNat (server.clientNextIncomingSeqNum r.request.clientId.toNat + 1)
          fifoSequencer := f } := by
  rw [OrderServer.readRequest] at h
  split at h
  · split at h
    · rename_i howner
      exact .inl ⟨(Except.ok.inj h).symm, .inl howner⟩
    · rename_i howner
      split at h
      · rename_i hnumber
        exact .inl ⟨(Except.ok.inj h).symm, .inr hnumber⟩
      · rw [FifoSequencer.addRequest] at h
        split at h
        · cases h
        · cases h
          exact .inr ⟨not_not.mp howner, _, rfl, rfl⟩
  · cases h

theorem Registered.congr {c : ClientId} (h : Registered server c)
    (hsame : server'.clientConnections = server.clientConnections) : Registered server' c :=
  ⟨h.1, hsame ▸ h.2⟩

/-- Steps after which the same connections are stored. -/
theorem Sound.keep (h : s.Sound) (hconnections :
      s'.server.clientConnections = s.server.clientConnections)
    (hnext : s'.server.nextClientId = s.server.nextClientId)
    (haccepting : s'.accepting = s.accepting)
    (hserver : s'.server.serverResponses.All fun r =>
      Registered s.server r.clientId ∨ s.accepting = true ∧ r.clientId = s.server.nextClientId)
    (hengine : s'.engineResponses.All fun r => Registered s.server r.clientId)
    (hforwarded : ∀ c ∈ s'.forwarded, Registered s.server c) : s'.Sound := by
  have hregistered : ∀ {c}, Registered s.server c → Registered s'.server c :=
    fun hc => hc.congr hconnections
  refine ⟨?_, ?_, ?_, ?_, hserver.mono fun r hr => ?_, hengine.mono fun r hr => hregistered hr,
    fun c hc => hregistered (hforwarded c hc)⟩
  · rw [hconnections, hnext, h.made]
  · rw [hnext]
    exact h.bound
  · rw [hconnections, hnext]
    exact h.stored
  · rw [haccepting, hnext]
    exact h.accepting
  · rw [haccepting, hnext]
    exact hr.imp_left hregistered

/-- A new connection is stored for the client it was accepted for. -/
theorem store_sound (h : s.Sound) (haccepting : s.accepting = true)
    (hstore : s.server.storeConnection = .ok server) :
    Sound { s with server := server, accepting := false } := by
  have hlt := h.accepting haccepting
  rw [OrderServer.storeConnection, if_pos hlt] at hstore
  cases hstore
  have hmax : maxNumClients < 2 ^ 32 - 1 := by decide
  have hone : (1 : UInt32).toNat = 1 := rfl
  have hnext : (s.server.nextClientId + 1).toNat = s.server.nextClientId.toNat + 1 := by
    rw [UInt32.toNat_add]
    exact Nat.mod_eq_of_lt (by omega)
  have hself := s.server.clientConnections.owner_adopt_self s.server.nextClientId.toNat
  rw [h.made] at hself
  have hregistered : ∀ {c : ClientId}, Registered s.server c → c.toNat < maxNumClients ∧
      (s.server.clientConnections.adopt s.server.nextClientId.toNat).owner c.toNat =
        some c.toNat := by
    intro c hc
    refine ⟨hc.1, ?_⟩
    by_cases hnew : c.toNat = s.server.nextClientId.toNat
    · rw [hnew, hself]
    · rw [ClientConnections.owner_adopt_ne _ hnew, hc.2]
  refine ⟨?_, ?_, fun i hi => ?_, nofun, h.server.mono fun r hr => .inl ?_,
    h.engine.mono fun r hr => hregistered hr, fun c hc => hregistered (h.forwarded c hc)⟩
  · dsimp only
    rw [hnext, ← h.made]
    rfl
  · dsimp only
    omega
  · dsimp only at hi ⊢
    by_cases hnew : i = s.server.nextClientId.toNat
    · rw [hnew, hself]
    · rw [ClientConnections.owner_adopt_ne _ hnew]
      exact h.stored i (by omega)
  · rcases hr with hr | ⟨-, hr⟩
    · exact hregistered hr
    · rw [hr]
      exact ⟨hlt, hself⟩

/-- The response that is taken is for a client whose connection is stored. -/
theorem taken_registered (h : s.Sound) {e : RoutingStep} (horderly : s.Orderly e)
    {r : ClientResponseInternal} (htaken : s.taken e = some r) :
    Registered s.server r.clientId := by
  cases e with
  | takeServer =>
    rcases h.server.next htaken with hr | ⟨haccepting, hr⟩
    · exact hr
    · exact absurd hr (horderly haccepting r htaken)
  | takeEngine => exact h.engine.next htaken
  | _ => cases htaken

theorem step_sound (h : s.Sound) {e : RoutingStep} (hfeasible : s.Feasible e)
    (horderly : s.Orderly e) (hstep : s.step host e = .ok s') : s'.Sound := by
  cases e with
  | accept =>
    cases hstep
    refine ⟨h.made, h.bound, h.stored, fun _ => horderly, ?_, h.engine, h.forwarded⟩
    have hserver := h.server.mono fun r hr => hr.imp_right fun hr => (⟨rfl, hr.2⟩ :
      true = true ∧ r.clientId = s.server.nextClientId)
    exact hserver.push (.inr ⟨rfl, rfl⟩)
  | store =>
    obtain ⟨server, hstore, hs'⟩ := bind_eq_ok.mp hstep
    cases hs'
    exact store_sound h hfeasible hstore
  | read conn userTime r =>
    obtain ⟨server, hread, hs'⟩ := bind_eq_ok.mp hstep
    cases hs'
    rcases readRequest_cases hread with ⟨rfl, -⟩ | ⟨-, f, hpending, rfl⟩
    · refine h.keep rfl rfl rfl (h.server.push (.inl horderly)) h.engine fun c hc => ?_
      simp only [OrderServer.sendInvalidResponse, OrderServer.pushServerResponse,
        List.drop_length, List.map_nil, List.append_nil] at hc
      exact h.forwarded c hc
    · refine h.keep rfl rfl rfl h.server h.engine fun c hc => ?_
      dsimp only at hc
      rw [hpending, List.drop_left] at hc
      rcases List.mem_append.mp hc with hc | hc
      · exact h.forwarded c hc
      · rw [List.map_singleton, List.mem_singleton] at hc
        exact hc ▸ horderly
  | publish sort =>
    cases hstep
    exact h.keep rfl rfl rfl h.server h.engine h.forwarded
  | answer r =>
    cases hstep
    exact h.keep rfl rfl rfl h.server (h.engine.push (h.forwarded _ hfeasible)) h.forwarded
  | takeServer =>
    rw [step] at hstep
    split at hstep
    · cases hstep
      exact h
    · obtain ⟨server, hprocess, hs'⟩ := bind_eq_ok.mp hstep
      cases hs'
      obtain ⟨conn, c, -, rfl⟩ := processResponse_cases hprocess
      exact h.keep rfl rfl rfl h.server.pop h.engine h.forwarded
  | takeEngine =>
    rw [step] at hstep
    split at hstep
    · cases hstep
      exact h
    · obtain ⟨server, hprocess, hs'⟩ := bind_eq_ok.mp hstep
      cases hs'
      obtain ⟨conn, c, -, rfl⟩ := processResponse_cases hprocess
      exact h.keep rfl rfl rfl h.server h.engine.pop h.forwarded

end Steps

section Runs
variable {host : ByteOrder} {s : Routing} {es : List RoutingStep}

/-- In an orderly run, every response that the response thread takes next is for a client
whose connection is stored. -/
theorem orderly_registered (h : Reached (step host) (fun s e => s.Feasible e ∧ s.Orderly e)
    create es s) {e : RoutingStep} (horderly : s.Orderly e) {r : ClientResponseInternal}
    (htaken : s.taken e = some r) : r.clientId.toNat < maxNumClients ∧
      s.server.clientConnections.owner r.clientId.toNat = some r.clientId.toNat := by
  refine taken_registered (h.invariant (P := Sound) create_sound ?_) horderly htaken
  intro s e s' hsound hadmits hstep
  exact step_sound hsound hadmits.1 hadmits.2 hstep

end Runs

instance (s : OrderServer) (c : ClientId) : Decidable (Registered s c) :=
  inferInstanceAs (Decidable (_ ∧ _))

instance (s : Routing) : (e : RoutingStep) → Decidable (s.Feasible e)
  | .accept => inferInstanceAs (Decidable (_ = _))
  | .store => inferInstanceAs (Decidable (_ = _))
  | .read _ _ _ => inferInstanceAs (Decidable (_ ∧ _))
  | .publish _ => inferInstanceAs (Decidable (_ = _))
  | .answer _ => inferInstanceAs (Decidable (_ ∈ _))
  | .takeServer => .isTrue trivial
  | .takeEngine => .isTrue trivial

instance (s : Routing) : (e : RoutingStep) → Decidable (s.Orderly e)
  | .accept => inferInstanceAs (Decidable (_ < _))
  | .read _ _ r => inferInstanceAs (Decidable (Registered s.server r.request.clientId))
  | .takeServer => inferInstanceAs (Decidable (_ → ∀ r ∈ s.server.serverResponses.nextReadElement,
      r.clientId ≠ s.server.nextClientId))
  | .store => .isTrue trivial
  | .publish _ => .isTrue trivial
  | .answer _ => .isTrue trivial
  | .takeEngine => .isTrue trivial

/-- A client is connected, sends a request and gets the answer. -/
theorem orderly_registered_sample :
    ∃ (s : Routing) (r : ClientResponseInternal), s.taken .takeEngine = some r ∧
      r.clientId.toNat < maxNumClients ∧
      s.server.clientConnections.owner r.clientId.toNat = some r.clientId.toNat := by
  obtain ⟨s, hreached, hcheck⟩ := @reached_of_any _ _ _ (step .little)
    (fun s e => s.Feasible e ∧ s.Orderly e) create
    [.accept, .store, .takeServer, .read 0 7 ⟨1, ⟨.new, 0, 0, 1, .buy, 10, 5⟩⟩,
      .answer ⟨.accepted, 0, 0, 1, 1, .buy, 10, 0, 5⟩] inferInstance
    (fun s => decide (s.taken .takeEngine = some ⟨.accepted, 0, 0, 1, 1, .buy, 10, 0, 5⟩))
    (by decide +kernel)
  have htaken := of_decide_eq_true hcheck
  exact ⟨s, _, htaken, orderly_registered hreached (e := RoutingStep.takeEngine) trivial htaken⟩

/-- The response thread takes the ACCEPTED response before the connection is stored: the
entry is still null. -/
theorem early_response :
    ∃ s r, Reached (step .little) Feasible create [.accept] s ∧ s.taken .takeServer = some r ∧
      r.type = .accepted ∧ r.clientId = 0 ∧ s.server.clientConnections.owner 0 = none ∧
      s.server.processResponse .little r = .error .badAccess := by
  obtain ⟨s, hreached, hcheck⟩ := @reached_of_any _ _ _ (step .little) Feasible create
    [.accept] inferInstance
    (fun s => decide (s.taken .takeServer = some (.ofServer .accepted 0) ∧
      s.server.clientConnections.owner 0 = none ∧
      faultOf (s.server.processResponse .little (.ofServer .accepted 0)) = some .badAccess))
    (by decide +kernel)
  obtain ⟨htaken, hnone, hfault⟩ := of_decide_eq_true hcheck
  exact ⟨s, _, hreached, htaken, rfl, rfl, hnone, eq_error_of_faultOf hfault⟩

end Routing

end StockExchange
