import StockExchange.Isolation
import StockExchange.OrderGateway
import StockExchange.Routing

/-!
# Sequence numbers of a session

A gateway and the server, with whole records in flight between them in the order in which
they were numbered. Each side counts what it sends and what it takes; the server does so in
32 bits, the gateway in 64.
-/

namespace StockExchange

open Bytes Transitions

/-- The gateway on the connection `conn`; `sent` and `numbered` are the requests and the
responses that were given a number, `forwarded` and `accepted` those that the other side did
not drop. -/
structure Lockstep where
  routing : Routing
  gateway : OrderGateway
  conn : Nat
  requests : List ClientRequestExternal
  responses : List ClientResponseExternal
  sent : List ClientRequestExternal
  forwarded : List ClientRequestExternal
  numbered : List ClientResponseExternal
  accepted : List ClientResponseExternal

/-- A read of several records is several `deliver` or `receive`. -/
inductive LockstepStep where
  | submit (request : ClientRequestInternal)
  | idle
  | deliver (userTime : Int64)
  | receive
  | exchange (e : RoutingStep)

namespace Lockstep

/-- The gateway will be the client that is connected after `conn` others. -/
def create (conn : Nat) : Lockstep where
  routing := .create
  gateway := .create (.create .default maxClientUpdates) (.create .default maxClientUpdates)
  conn := conn
  requests := []
  responses := []
  sent := []
  forwarded := []
  numbered := []
  accepted := []

abbrev server (s : Lockstep) : OrderServer := s.routing.server

/-- The record that the response thread makes of a response to the gateway. -/
def toGateway (s : Lockstep) (e : RoutingStep) : List ClientResponseExternal :=
  match s.routing.taken e with
  | none => []
  | some r =>
    if s.server.clientConnections.owner r.clientId.toNat = some s.conn then
      [⟨(s.server.clientNextOutgoingSeqNum r.clientId.toNat).toUInt64, r⟩]
    else []

def step (host : ByteOrder) (s : Lockstep) : LockstepStep → Except Fault Lockstep
  | .submit request => .ok
    { s with
      gateway :=
        { s.gateway with outgoingRequests := s.gateway.outgoingRequests.push request } }
  | .idle => .ok
    { s with
      gateway := s.gateway.onIdle.1
      requests := s.requests ++ s.gateway.onIdle.2
      sent := s.sent ++ s.gateway.onIdle.2 }
  | .deliver userTime =>
    match s.requests with
    | [] => .ok s
    | r :: rest => s.routing.step host (.read s.conn userTime r) >>= fun routing => .ok
      { s with
        routing := routing
        requests := rest
        forwarded := s.forwarded ++ (routing.server.fifoSequencer.pendingClientRequests.drop
          s.server.fifoSequencer.pendingClientRequests.length).map
            fun t => ⟨r.sequenceNumber, t.request⟩ }
  | .receive =>
    match s.responses with
    | [] => .ok s
    | r :: rest => .ok
      { s with
        gateway := s.gateway.readResponse r
        responses := rest
        accepted := s.accepted ++
          if (s.gateway.readResponse r).nextExpSeqNum = s.gateway.nextExpSeqNum then [] else [r] }
  | .exchange e => s.routing.step host e >>= fun routing => .ok
    { s with
      routing := routing
      responses := s.responses ++ s.toGateway e
      numbered := s.numbered ++ s.toGateway e }

/-- The connection of the gateway is read by `deliver` alone. -/
def Foreign (conn : Nat) : RoutingStep → Prop
  | .read p _ _ => p ≠ conn
  | _ => True

def Admits (s : Lockstep) : LockstepStep → Prop
  | .deliver _ => s.routing.accepting = false
  | .exchange e => s.routing.Feasible e ∧ Foreign s.conn e
  | _ => True

/-- The counter of the server has not come round, and the sequencer has room for the
request. -/
def Orderly (s : Lockstep) : LockstepStep → Prop
  | .deliver _ => ∀ r ∈ s.requests.head?,
      s.server.clientNextIncomingSeqNum r.request.clientId.toNat ≠ 0 ∧
      s.server.fifoSequencer.pendingClientRequests.length < maxPendingRequests
  | .exchange e => ∀ r ∈ s.routing.taken e,
      s.server.clientConnections.owner r.clientId.toNat = some s.conn →
      s.server.clientNextOutgoingSeqNum r.clientId.toNat ≠ 0
  | _ => True

/-- The numbers 1, 2, ... of the first `n` records. -/
def sequence (n : Nat) : List UInt64 := (List.range n).map fun i => UInt64.ofNat (i + 1)

end Lockstep

/-- The counters of the client on `conn`, if it is connected; a client that is not connected
has not been counted. -/
structure OrderServer.Counts (s : OrderServer) (conn incoming outgoing : Nat) : Prop where
  owned : ∀ i p, s.clientConnections.owner i = some p → i < s.nextClientId.toNat
  bound : s.nextClientId.toNat ≤ maxNumClients
  fresh : ∀ i, s.clientConnections.owner i = none →
    s.clientNextIncomingSeqNum i = 1 ∧ s.clientNextOutgoingSeqNum i = 1
  counters : ∀ i, s.clientConnections.owner i = some conn →
    s.clientNextIncomingSeqNum i = UInt32.ofNat (incoming + 1) ∧
    s.clientNextOutgoingSeqNum i = UInt32.ofNat (outgoing + 1)
  absent : (∀ i, s.clientConnections.owner i ≠ some conn) → incoming = 0 ∧ outgoing = 0

namespace OrderServer
variable {host : ByteOrder} {s s' : OrderServer} {conn incoming outgoing : Nat}

theorem create_counts (q : LockFreeQueue ClientRequestInternal) (conn : Nat) :
    (create q).Counts conn 0 0 :=
  ⟨nofun, Nat.zero_le _, fun _ _ => ⟨rfl, rfl⟩, nofun, fun _ => ⟨rfl, rfl⟩⟩

theorem succ_ofNat (n : Nat) : UInt32.ofNat (n + 1) + 1 = UInt32.ofNat (n + 1 + 1) :=
  (UInt32.ofNat_add (n + 1) 1).symm

/-- A counter that is not zero has not come round with this step. -/
theorem succ_lt_of_ofNat_ne {n : Nat} (hlt : n < 2 ^ 32) (hne : UInt32.ofNat (n + 1) ≠ 0) :
    n + 1 < 2 ^ 32 := by
  by_contra hge
  apply hne
  have heq : n + 1 = 2 ^ 32 := by omega
  rw [heq]
  decide

/-- The next client is stored; its counters start. -/
theorem Counts.store (h : s.Counts conn incoming outgoing) (hstore : s.storeConnection = .ok s') :
    s'.Counts conn incoming outgoing ∧
    ∀ i p, s.clientConnections.owner i = some p → s'.clientConnections.owner i = some p := by
  rw [storeConnection] at hstore
  split at hstore
  · rename_i hlt
    cases hstore
    have hmax : maxNumClients < 2 ^ 32 - 1 := by decide
    have hnext : (s.nextClientId + 1).toNat = s.nextClientId.toNat + 1 := by
      rw [UInt32.toNat_add]
      exact Nat.mod_eq_of_lt (by change s.nextClientId.toNat + 1 < 2 ^ 32; omega)
    have hself := s.clientConnections.owner_adopt_self s.nextClientId.toNat
    have hother : ∀ i, i ≠ s.nextClientId.toNat →
        (s.clientConnections.adopt s.nextClientId.toNat).owner i = s.clientConnections.owner i :=
      fun i hi => s.clientConnections.owner_adopt_ne hi
    have hfree : s.clientConnections.owner s.nextClientId.toNat = none := by
      by_contra hsome
      obtain ⟨p, hp⟩ := Option.ne_none_iff_exists'.mp hsome
      exact Nat.lt_irrefl _ (h.owned _ _ hp)
    have hkeep : ∀ i p, s.clientConnections.owner i = some p →
        (s.clientConnections.adopt s.nextClientId.toNat).owner i = some p := by
      intro i p hp
      have hlt := h.owned i p hp
      rw [hother i (by omega), hp]
    refine ⟨⟨fun i p hp => ?_, ?_, fun i hi => ?_, fun i hi => ?_, fun hall => ?_⟩, hkeep⟩
    · dsimp only at hp ⊢
      rw [hnext]
      by_cases hi : i = s.nextClientId.toNat
      · omega
      · rw [hother i hi] at hp
        exact Nat.lt_succ_of_lt (h.owned i p hp)
    · dsimp only
      omega
    · apply h.fresh
      by_cases hnew : i = s.nextClientId.toNat
      · rw [hnew]
        exact hfree
      · exact (hother i hnew).symm.trans hi
    · dsimp only at hi ⊢
      by_cases hnew : i = s.nextClientId.toNat
      · -- the new connection is the gateway's: nobody has owned it
        subst hnew
        rw [hself] at hi
        have hmade := Option.some.inj hi
        obtain ⟨hincoming, houtgoing⟩ := h.absent fun j hj =>
          absurd (s.clientConnections.owner_made j conn hj) (by omega)
        rw [hincoming, houtgoing]
        exact h.fresh _ hfree
      · rw [hother i hnew] at hi
        exact h.counters i hi
    · exact h.absent fun i hi => hall i (hkeep i conn hi)
  · cases hstore

/-- A request from another connection. -/
theorem Counts.readForeign (h : s.Counts conn incoming outgoing) {p : Nat} {userTime : Int64}
    {r : ClientRequestExternal} (hp : p ≠ conn) (hread : s.readRequest p userTime r = .ok s') :
    s'.Counts conn incoming outgoing ∧ s'.clientConnections = s.clientConnections := by
  rcases Routing.readRequest_cases hread with ⟨rfl, -⟩ | ⟨howner, f, -, rfl⟩
  · exact ⟨⟨h.owned, h.bound, h.fresh, h.counters, h.absent⟩, rfl⟩
  · refine ⟨⟨h.owned, h.bound, fun i hi => ?_, fun i hi => ?_, h.absent⟩, rfl⟩
    · have hne : i ≠ r.request.clientId.toNat := by
        rintro rfl
        exact absurd (howner.symm.trans hi) nofun
      dsimp only
      rw [Function.update_of_ne hne]
      exact h.fresh i hi
    · have hne : i ≠ r.request.clientId.toNat := by
        rintro rfl
        exact hp (Option.some.inj (howner.symm.trans hi))
      dsimp only
      rw [Function.update_of_ne hne]
      exact h.counters i hi

/-- The next request of the gateway's own connection. -/
theorem Counts.readOwn (h : s.Counts conn incoming outgoing) (hlt : incoming < 2 ^ 32)
    {userTime : Int64} {r : ClientRequestExternal}
    (howner : s.clientConnections.owner r.request.clientId.toNat = some conn)
    (hnumber : r.sequenceNumber = UInt64.ofNat (incoming + 1))
    (hcounter : s.clientNextIncomingSeqNum r.request.clientId.toNat ≠ 0)
    (hroom : s.fifoSequencer.pendingClientRequests.length < maxPendingRequests) : ∃ s',
    s.readRequest conn userTime r = .ok s' ∧ s'.Counts conn (incoming + 1) outgoing ∧
    s'.clientConnections = s.clientConnections ∧ s'.serverResponses = s.serverResponses ∧
    s'.fifoSequencer.pendingClientRequests =
      s.fifoSequencer.pendingClientRequests ++ [⟨userTime, r.request⟩] := by
  have hcount := (h.counters _ howner).1
  have hsmall := succ_lt_of_ofNat_ne hlt (hcount ▸ hcounter)
  have hturn : r.sequenceNumber =
      (s.clientNextIncomingSeqNum r.request.clientId.toNat).toUInt64 := by
    rw [hnumber, hcount, toUInt64_ofNat hsmall]
  have hid := Nat.lt_of_lt_of_le (h.owned _ _ howner) h.bound
  obtain ⟨s', hread, -⟩ := @readRequest_turn _ conn userTime s r hid howner rfl hturn hroom
  refine ⟨s', hread, ?_⟩
  rcases Routing.readRequest_cases hread with ⟨-, hrejected | hrejected⟩ | ⟨-, f, hpending, rfl⟩
  · exact absurd howner hrejected
  · exact absurd hturn hrejected
  · refine ⟨⟨h.owned, h.bound, fun i hi => ?_, fun i hi => ?_, fun hall => ?_⟩, rfl, rfl, hpending⟩
    · have hne : i ≠ r.request.clientId.toNat := by
        rintro rfl
        exact absurd (howner.symm.trans hi) nofun
      dsimp only
      rw [Function.update_of_ne hne]
      exact h.fresh i hi
    · have heq := s.clientConnections.owner_unique _ _ _ hi howner
      subst heq
      refine ⟨?_, (h.counters _ hi).2⟩
      dsimp only
      rw [Function.update_self, hcount, succ_ofNat]
    · exact absurd howner (hall _)

/-- A response is numbered for another client, or is the next one to the gateway. -/
theorem Counts.respond (h : s.Counts conn incoming outgoing) (hlt : outgoing < 2 ^ 32)
    {r : ClientResponseInternal} (hprocess : s.processResponse host r = .ok s')
    (hcounter : s.clientConnections.owner r.clientId.toNat = some conn →
      s.clientNextOutgoingSeqNum r.clientId.toNat ≠ 0) :
    s'.clientConnections = s.clientConnections ∧
    if s.clientConnections.owner r.clientId.toNat = some conn then
      outgoing + 1 < 2 ^ 32 ∧
      (s.clientNextOutgoingSeqNum r.clientId.toNat).toUInt64 = UInt64.ofNat (outgoing + 1) ∧
      s'.Counts conn incoming (outgoing + 1)
    else s'.Counts conn incoming outgoing := by
  obtain ⟨p, c, howner, rfl⟩ := Routing.processResponse_cases hprocess
  have hfresh : ∀ i, s.clientConnections.owner i = none → i ≠ r.clientId.toNat := by
    rintro i hi rfl
    exact absurd (howner.symm.trans hi) nofun
  refine ⟨rfl, ?_⟩
  split
  · rename_i hown
    have hcount := (h.counters _ hown).2
    have hsmall := succ_lt_of_ofNat_ne hlt (hcount ▸ hcounter hown)
    refine ⟨hsmall, ?_, h.owned, h.bound, fun i hi => ?_, fun i hi => ?_, fun hall => ?_⟩
    · rw [hcount, toUInt64_ofNat hsmall]
    · dsimp only
      rw [Function.update_of_ne (hfresh i hi)]
      exact h.fresh i hi
    · have heq := s.clientConnections.owner_unique _ _ _ hi hown
      subst heq
      refine ⟨(h.counters _ hi).1, ?_⟩
      dsimp only
      rw [Function.update_self, hcount, succ_ofNat]
    · exact absurd hown (hall _)
  · rename_i hother
    refine ⟨h.owned, h.bound, fun i hi => ?_, fun i hi => ?_, h.absent⟩
    · dsimp only
      rw [Function.update_of_ne (hfresh i hi)]
      exact h.fresh i hi
    · have hne : i ≠ r.clientId.toNat := by
        rintro rfl
        exact hother hi
      dsimp only
      rw [Function.update_of_ne hne]
      exact h.counters i hi

end OrderServer

namespace Lockstep

section Sequence
variable {α : Type} {f : α → UInt64} {xs ys : List α} {x : α}

theorem length_sequence (n : Nat) : (sequence n).length = n := by
  rw [sequence, List.length_map, List.length_range]

theorem sequence_add (m n : Nat) :
    sequence (m + n) = sequence m ++ (List.range n).map fun i => UInt64.ofNat (m + i + 1) := by
  rw [sequence, List.range_add, List.map_append, List.map_map]
  rfl

/-- The numbers of the first records, and of those behind them. -/
theorem split_sequence (h : (xs ++ ys).map f = sequence (xs ++ ys).length) :
    xs.map f = sequence xs.length ∧
    ys.map f = (List.range ys.length).map fun i => UInt64.ofNat (xs.length + i + 1) := by
  rw [List.map_append, List.length_append, sequence_add] at h
  exact List.append_inj h (by rw [List.length_map, length_sequence])

theorem head_sequence (h : (xs ++ x :: ys).map f = sequence (xs ++ x :: ys).length) :
    f x = UInt64.ofNat (xs.length + 1) := by
  have htail := (split_sequence h).2
  rw [List.map_cons, List.length_cons, List.range_succ_eq_map, List.map_cons] at htail
  exact (List.cons.inj htail).1

theorem nodup_sequence {n : Nat} (h : n < 2 ^ 64) : (sequence n).Nodup := by
  rw [sequence, List.Nodup, List.pairwise_map]
  refine List.Pairwise.imp_of_mem ?_ List.nodup_range
  intro i j hi hj hne heq
  rw [List.mem_range] at hi hj
  have hnat := congrArg UInt64.toNat heq
  rw [UInt64.toNat_ofNat_of_lt' (by rw [UInt64.size]; omega),
    UInt64.toNat_ofNat_of_lt' (by rw [UInt64.size]; omega)] at hnat
  omega

end Sequence

/-- Everything that was sent is taken by the other side in the order of its number, or is
still in flight. -/
structure Sound (s : Lockstep) : Prop where
  counts : s.server.Counts s.conn s.forwarded.length s.numbered.length
  sent : s.sent = s.forwarded ++ s.requests
  numbered : s.numbered = s.accepted ++ s.responses
  requestNumbers : s.sent.map (·.sequenceNumber) = sequence s.sent.length
  responseNumbers : s.numbered.map (·.sequenceNumber) = sequence s.numbered.length
  next : s.gateway.nextOutgoingSeqNum = UInt64.ofNat (s.sent.length + 1)
  expected : s.gateway.nextExpSeqNum = UInt64.ofNat (s.accepted.length + 1)
  forwarded_lt : s.forwarded.length < 2 ^ 32
  numbered_lt : s.numbered.length < 2 ^ 32
  client : s.gateway.clientId ≠ invalidClientId →
    s.server.clientConnections.owner s.gateway.clientId.toNat = some s.conn
  requests : ∀ r ∈ s.requests,
    s.server.clientConnections.owner r.request.clientId.toNat = some s.conn
  responses : ∀ r ∈ s.responses,
    s.server.clientConnections.owner r.response.clientId.toNat = some s.conn

section Steps
variable {host : ByteOrder} {s s' : Lockstep}

theorem create_sound (conn : Nat) : (create conn).Sound where
  counts := OrderServer.create_counts _ conn
  sent := rfl
  numbered := rfl
  requestNumbers := rfl
  responseNumbers := rfl
  next := rfl
  expected := rfl
  forwarded_lt := Nat.two_pow_pos 32
  numbered_lt := Nat.two_pow_pos 32
  client h := absurd rfl h
  requests := nofun
  responses := nofun

theorem idle_sound (h : s.Sound) (hstep : s.step host .idle = .ok s') : s'.Sound := by
  obtain ⟨hnumbers, hknown⟩ := s.gateway.onIdle_numbers
  cases hstep
  have hadd : ∀ i, UInt64.ofNat (s.sent.length + 1) + UInt64.ofNat i =
      UInt64.ofNat (s.sent.length + i + 1) := by
    intro i
    rw [← UInt64.ofNat_add, Nat.add_right_comm]
  refine ⟨h.counts, ?_, h.numbered, ?_, h.responseNumbers, ?_, ?_, h.forwarded_lt, h.numbered_lt,
    ?_, fun r hr => ?_, h.responses⟩
  · dsimp only
    rw [h.sent, List.append_assoc]
  · dsimp only
    rw [List.map_append, h.requestNumbers, hnumbers.numbers, List.length_append, sequence_add,
      h.next]
    simp only [hadd]
  · dsimp only
    rw [hnumbers.next, h.next, hadd, List.length_append]
  · exact hnumbers.expected.trans h.expected
  · dsimp only
    rw [hnumbers.clientId]
    exact h.client
  · rcases List.mem_append.mp hr with hr | hr
    · exact h.requests r hr
    · have howner := h.client (hknown (List.ne_nil_of_mem hr))
      rwa [← hnumbers.owner r hr] at howner

/-- The next request is pending for the engine, and is not answered. -/
theorem deliver_sound (h : s.Sound) {r : ClientRequestExternal}
    {rest : List ClientRequestExternal} (hrequests : s.requests = r :: rest) {userTime : Int64}
    (horderly : s.Orderly (.deliver userTime)) : ∃ s',
    s.step host (.deliver userTime) = .ok s' ∧ s'.Sound ∧ s'.forwarded = s.forwarded ++ [r] ∧
    s'.server.serverResponses = s.server.serverResponses := by
  obtain ⟨hcounter, hroom⟩ := horderly r (by rw [hrequests]; rfl)
  have hnumber : r.sequenceNumber = UInt64.ofNat (s.forwarded.length + 1) := by
    have hnumbers := h.requestNumbers
    rw [h.sent, hrequests] at hnumbers
    exact head_sequence hnumbers
  have howner := h.requests r (by rw [hrequests]; exact List.mem_cons_self)
  obtain ⟨server, hread, hcounts, hsame, hserver, hpending⟩ :=
    @OrderServer.Counts.readOwn s.server s.conn _ _ h.counts h.forwarded_lt userTime r howner
      hnumber hcounter hroom
  have hsmall := OrderServer.succ_lt_of_ofNat_ne h.forwarded_lt
    ((h.counts.counters _ howner).1 ▸ hcounter)
  have hforwarded : (server.fifoSequencer.pendingClientRequests.drop
      s.server.fifoSequencer.pendingClientRequests.length).map
        (fun t => (⟨r.sequenceNumber, t.request⟩ : ClientRequestExternal)) = [r] := by
    rw [hpending, List.drop_left]
    rfl
  have hlen : (s.forwarded ++ [r]).length = s.forwarded.length + 1 := by
    rw [List.length_append, List.length_singleton]
  refine ⟨
    { s with
      routing :=
        { s.routing with
          server := server
          forwarded := s.routing.forwarded ++ (server.fifoSequencer.pendingClientRequests.drop
            s.server.fifoSequencer.pendingClientRequests.length).map (·.request.clientId) }
      requests := rest
      forwarded := s.forwarded ++ [r] }, ?_,
    ⟨?_, ?_, h.numbered, h.requestNumbers, h.responseNumbers, h.next, h.expected, ?_,
      h.numbered_lt, ?_, fun r' hr' => ?_, fun r' hr' => ?_⟩, rfl, hserver⟩
  · simp only [step, hrequests, Routing.step, hread, ok_bind, hforwarded]
  · dsimp only
    rw [hlen]
    exact hcounts
  · dsimp only
    rw [h.sent, hrequests, List.append_assoc]
    rfl
  · dsimp only
    rw [hlen]
    exact hsmall
  · intro hknown
    exact hsame ▸ h.client hknown
  · exact hsame ▸ h.requests r' (hrequests ▸ List.mem_cons_of_mem r hr')
  · exact hsame ▸ h.responses r' hr'

/-- The next response is the one the gateway expects. -/
theorem readResponse_accepts (h : s.Sound) {r : ClientResponseExternal}
    {rest : List ClientResponseExternal} (hresponses : s.responses = r :: rest) :
    (s.gateway.readResponse r).nextExpSeqNum = s.gateway.nextExpSeqNum + 1 ∧
    (s.gateway.readResponse r).nextOutgoingSeqNum = s.gateway.nextOutgoingSeqNum ∧
    ((s.gateway.readResponse r).clientId = s.gateway.clientId ∨
      (s.gateway.readResponse r).clientId = r.response.clientId) := by
  have howner := h.responses r (by rw [hresponses]; exact List.mem_cons_self)
  apply OrderGateway.readResponse_expected
  · by_cases hknown : s.gateway.clientId = invalidClientId
    · exact .inl hknown
    · apply Or.inr
      apply UInt32.toNat_inj.mp
      exact s.server.clientConnections.owner_unique _ _ _ (h.client hknown) howner
  · have hnumbers := h.responseNumbers
    rw [h.numbered, hresponses] at hnumbers
    rw [h.expected]
    exact head_sequence hnumbers

theorem receive_sound (h : s.Sound) (hstep : s.step host .receive = .ok s') : s'.Sound := by
  cases hresponses : s.responses with
  | nil =>
    simp only [step, hresponses] at hstep
    cases hstep
    exact h
  | cons r rest =>
    obtain ⟨hexpected, hnext, hclient⟩ := readResponse_accepts h hresponses
    have hmoves : s.gateway.nextExpSeqNum + 1 ≠ s.gateway.nextExpSeqNum := by
      intro heq
      have hnat := congrArg UInt64.toNat heq
      have hone : (1 : UInt64).toNat = 1 := rfl
      rw [UInt64.toNat_add, hone] at hnat
      omega
    simp only [step, hresponses, hexpected, if_neg hmoves] at hstep
    cases hstep
    have howner := h.responses r (by rw [hresponses]; exact List.mem_cons_self)
    refine ⟨h.counts, h.sent, ?_, h.requestNumbers, h.responseNumbers, hnext.trans h.next, ?_,
      h.forwarded_lt, h.numbered_lt, fun hknown => ?_, h.requests, fun r' hr' => ?_⟩
    · dsimp only
      rw [h.numbered, hresponses, List.append_assoc]
      rfl
    · dsimp only
      rw [hexpected, h.expected, List.length_append, List.length_singleton]
      exact (UInt64.ofNat_add (s.accepted.length + 1) 1).symm
    · dsimp only at hknown ⊢
      rcases hclient with hsame | hnew
      · rw [hsame] at hknown ⊢
        exact h.client hknown
      · rw [hnew]
        exact howner
    · exact h.responses r' (hresponses ▸ List.mem_cons_of_mem r hr')

/-- What a step of the server and the engine numbers for the gateway. -/
structure Exchanged (s : Lockstep) (e : RoutingStep) (server : OrderServer) : Prop where
  keeps : ∀ i p, s.server.clientConnections.owner i = some p →
    server.clientConnections.owner i = some p
  counts : server.Counts s.conn s.forwarded.length (s.numbered ++ s.toGateway e).length
  small : (s.numbered ++ s.toGateway e).length < 2 ^ 32
  numbers : (s.numbered ++ s.toGateway e).map (·.sequenceNumber) =
    sequence (s.numbered ++ s.toGateway e).length
  owner : ∀ r ∈ s.toGateway e,
    s.server.clientConnections.owner r.response.clientId.toNat = some s.conn

theorem Sound.exchangedNone (h : s.Sound) {e : RoutingStep} {server : OrderServer}
    (hnone : s.toGateway e = []) (hkeeps : ∀ i p, s.server.clientConnections.owner i = some p →
      server.clientConnections.owner i = some p)
    (hcounts : server.Counts s.conn s.forwarded.length s.numbered.length) :
    s.Exchanged e server := by
  refine ⟨hkeeps, ?_, ?_, ?_, fun r hr => ?_⟩
  · rwa [hnone, List.append_nil]
  · rw [hnone, List.append_nil]
    exact h.numbered_lt
  · rw [hnone, List.append_nil]
    exact h.responseNumbers
  · rw [hnone] at hr
    cases hr

/-- A response is taken from one of the queues. -/
theorem Sound.exchangedTaken (h : s.Sound) {e : RoutingStep} {r : ClientResponseInternal}
    (htaken : s.routing.taken e = some r) (horderly : s.Orderly (.exchange e))
    {server : OrderServer} (hprocess : s.server.processResponse host r = .ok server) :
    s.Exchanged e server := by
  obtain ⟨hsame, hcases⟩ := h.counts.respond h.numbered_lt hprocess (horderly r htaken)
  have hkeeps : ∀ i p, s.server.clientConnections.owner i = some p →
      server.clientConnections.owner i = some p := fun i p hp => hsame ▸ hp
  split at hcases
  · rename_i hown
    obtain ⟨hsmall, hnumber, hcounts⟩ := hcases
    have hsent : s.toGateway e = [⟨UInt64.ofNat (s.numbered.length + 1), r⟩] := by
      simp only [toGateway, htaken, if_pos hown, hnumber]
    have hlen : (s.numbered ++ s.toGateway e).length = s.numbered.length + 1 := by
      rw [hsent, List.length_append, List.length_singleton]
    refine ⟨hkeeps, hlen ▸ hcounts, hlen ▸ hsmall, ?_, fun r' hr' => ?_⟩
    · rw [hlen, sequence_add, List.map_append, h.responseNumbers, hsent]
      rfl
    · rw [hsent, List.mem_singleton] at hr'
      rw [hr']
      exact hown
  · rename_i hother
    refine h.exchangedNone ?_ hkeeps hcases
    simp only [toGateway, htaken, if_neg hother]

theorem exchange_step (h : s.Sound) {e : RoutingStep} (hforeign : Foreign s.conn e)
    (horderly : s.Orderly (.exchange e)) {routing : Routing}
    (hstep : s.routing.step host e = .ok routing) : s.Exchanged e routing.server := by
  have hcounts := h.counts
  cases e with
  | accept =>
    cases hstep
    exact h.exchangedNone rfl (fun _ _ hp => hp)
      ⟨hcounts.owned, hcounts.bound, hcounts.fresh, hcounts.counters, hcounts.absent⟩
  | store =>
    obtain ⟨server, hstore, hs'⟩ := bind_eq_ok.mp hstep
    cases hs'
    obtain ⟨hcounts', hkeeps⟩ := hcounts.store hstore
    exact h.exchangedNone rfl hkeeps hcounts'
  | read p userTime r =>
    obtain ⟨server, hread, hs'⟩ := bind_eq_ok.mp hstep
    cases hs'
    obtain ⟨hcounts', hsame⟩ := hcounts.readForeign hforeign hread
    exact h.exchangedNone rfl (fun _ _ hp => hsame ▸ hp) hcounts'
  | publish sort =>
    cases hstep
    exact h.exchangedNone rfl (fun _ _ hp => hp)
      ⟨hcounts.owned, hcounts.bound, hcounts.fresh, hcounts.counters, hcounts.absent⟩
  | answer r =>
    cases hstep
    exact h.exchangedNone rfl (fun _ _ hp => hp) hcounts
  | takeServer =>
    rw [Routing.step] at hstep
    split at hstep
    · rename_i hempty
      cases hstep
      refine h.exchangedNone ?_ (fun _ _ hp => hp) hcounts
      simp only [toGateway, Routing.taken, hempty]
    · rename_i r hnext
      obtain ⟨server, hprocess, hs'⟩ := bind_eq_ok.mp hstep
      cases hs'
      obtain ⟨hkeeps, hcounts', hsmall, hnumbers, howner⟩ :=
        h.exchangedTaken (e := .takeServer) hnext horderly hprocess
      exact ⟨hkeeps, ⟨hcounts'.owned, hcounts'.bound, hcounts'.fresh, hcounts'.counters,
        hcounts'.absent⟩, hsmall, hnumbers, howner⟩
  | takeEngine =>
    rw [Routing.step] at hstep
    split at hstep
    · rename_i hempty
      cases hstep
      refine h.exchangedNone ?_ (fun _ _ hp => hp) hcounts
      simp only [toGateway, Routing.taken, hempty]
    · rename_i r hnext
      obtain ⟨server, hprocess, hs'⟩ := bind_eq_ok.mp hstep
      cases hs'
      exact h.exchangedTaken (e := .takeEngine) hnext horderly hprocess

theorem exchange_sound (h : s.Sound) {e : RoutingStep} (hforeign : Foreign s.conn e)
    (horderly : s.Orderly (.exchange e)) (hstep : s.step host (.exchange e) = .ok s') :
    s'.Sound := by
  obtain ⟨routing, hrouting, hs'⟩ := bind_eq_ok.mp hstep
  cases hs'
  obtain ⟨hkeeps, hcounts, hsmall, hnumbers, howner⟩ := exchange_step h hforeign horderly hrouting
  refine ⟨hcounts, h.sent, ?_, h.requestNumbers, hnumbers, h.next, h.expected, h.forwarded_lt,
    hsmall, fun hknown => hkeeps _ _ (h.client hknown), fun r hr => hkeeps _ _ (h.requests r hr),
    fun r hr => hkeeps _ _ ?_⟩
  · dsimp only
    rw [h.numbered, List.append_assoc]
  · rcases List.mem_append.mp hr with hr | hr
    · exact h.responses r hr
    · exact howner r hr

theorem step_sound (h : s.Sound) {e : LockstepStep} (hadmits : s.Admits e)
    (horderly : s.Orderly e) (hstep : s.step host e = .ok s') : s'.Sound := by
  cases e with
  | submit request =>
    cases hstep
    exact ⟨h.counts, h.sent, h.numbered, h.requestNumbers, h.responseNumbers, h.next, h.expected,
      h.forwarded_lt, h.numbered_lt, h.client, h.requests, h.responses⟩
  | idle => exact idle_sound h hstep
  | deliver userTime =>
    cases hrequests : s.requests with
    | nil =>
      simp only [step, hrequests] at hstep
      cases hstep
      exact h
    | cons r rest =>
      obtain ⟨s₁, hs₁, hsound, -⟩ := @deliver_sound host s h r rest hrequests userTime horderly
      cases hs₁.symm.trans hstep
      exact hsound
  | receive => exact receive_sound h hstep
  | exchange e => exact exchange_sound h hadmits.2 horderly hstep

end Steps

section Runs
variable {host : ByteOrder} {conn : Nat} {es : List LockstepStep} {s : Lockstep}

/-- In an orderly run, what either side numbers is taken by the other side in order or still
in flight, and the next record in flight will be taken. -/
theorem orderly_lockstep (h : Reached (step host) (fun s e => s.Admits e ∧ s.Orderly e)
      (create conn) es s) :
    s.sent = s.forwarded ++ s.requests ∧ s.numbered = s.accepted ++ s.responses ∧
    s.forwarded.map (·.sequenceNumber) =
      (List.range s.forwarded.length).map (fun i => UInt64.ofNat (i + 1)) ∧
    (s.forwarded.map (·.sequenceNumber)).Nodup ∧
    (∀ r rest userTime, s.requests = r :: rest → s.Orderly (.deliver userTime) →
      ∃ s', s.step host (.deliver userTime) = .ok s' ∧ s'.forwarded = s.forwarded ++ [r] ∧
        s'.server.serverResponses = s.server.serverResponses) ∧
    (∀ r rest, s.responses = r :: rest →
      (s.gateway.readResponse r).nextExpSeqNum = s.gateway.nextExpSeqNum + 1) := by
  have hsound : s.Sound := by
    refine h.invariant (P := Sound) (create_sound conn) ?_
    intro s e s' hsound hadmits hstep
    exact step_sound hsound hadmits.1 hadmits.2 hstep
  have hnumbers := hsound.requestNumbers
  rw [hsound.sent] at hnumbers
  have hforwarded := (split_sequence hnumbers).1
  have hlt : s.forwarded.length < 2 ^ 64 :=
    Nat.lt_trans hsound.forwarded_lt (Nat.pow_lt_pow_right Nat.one_lt_two (by omega))
  refine ⟨hsound.sent, hsound.numbered, hforwarded, ?_,
    fun r rest userTime hrequests horderly => ?_,
    fun r rest hresponses => (readResponse_accepts hsound hresponses).1⟩
  · rw [hforwarded]
    exact nodup_sequence hlt
  · obtain ⟨s', hs', -, hforwarded', hresponses⟩ :=
      @deliver_sound host s hsound r rest hrequests userTime horderly
    exact ⟨s', hs', hforwarded', hresponses⟩

end Runs

instance (conn : Nat) : (e : RoutingStep) → Decidable (Foreign conn e)
  | .read p _ _ => inferInstanceAs (Decidable (p ≠ conn))
  | .accept => .isTrue trivial
  | .store => .isTrue trivial
  | .publish _ => .isTrue trivial
  | .answer _ => .isTrue trivial
  | .takeServer => .isTrue trivial
  | .takeEngine => .isTrue trivial

instance (s : Lockstep) : (e : LockstepStep) → Decidable (s.Admits e)
  | .deliver _ => inferInstanceAs (Decidable (_ = false))
  | .exchange e => inferInstanceAs (Decidable (s.routing.Feasible e ∧ Foreign s.conn e))
  | .submit _ => .isTrue trivial
  | .idle => .isTrue trivial
  | .receive => .isTrue trivial

instance (s : Lockstep) : (e : LockstepStep) → Decidable (s.Orderly e)
  | .deliver _ => inferInstanceAs (Decidable (∀ r ∈ s.requests.head?,
      s.server.clientNextIncomingSeqNum r.request.clientId.toNat ≠ 0 ∧
      s.server.fifoSequencer.pendingClientRequests.length < maxPendingRequests))
  | .exchange e => inferInstanceAs (Decidable (∀ r ∈ s.routing.taken e,
      s.server.clientConnections.owner r.clientId.toNat = some s.conn →
      s.server.clientNextOutgoingSeqNum r.clientId.toNat ≠ 0))
  | .submit _ => .isTrue trivial
  | .idle => .isTrue trivial
  | .receive => .isTrue trivial

/-- The gateway is connected and learns its client id. -/
def connectSteps : List LockstepStep :=
  [.exchange .accept, .exchange .store, .exchange .takeServer, .receive]

/-- A new order of the client. -/
def newOrder : ClientRequestInternal := ⟨.new, 0, 0, 1, .buy, 10, 5⟩

/-- A request goes to the server and the answer comes back. -/
theorem orderly_lockstep_sample : ∃ s : Lockstep,
    s.sent = s.forwarded ++ s.requests ∧ s.numbered = s.accepted ++ s.responses ∧
    s.forwarded = [⟨1, newOrder⟩] ∧
    s.accepted = [⟨1, .ofServer .accepted 0⟩, ⟨2, ⟨.accepted, 0, 0, 1, 1, .buy, 10, 0, 5⟩⟩] := by
  obtain ⟨s, hreached, hcheck⟩ := @reached_of_any _ _ _ (step .little)
    (fun (s : Lockstep) e => s.Admits e ∧ s.Orderly e) (create 0)
    (connectSteps ++ [.submit newOrder, .idle, .deliver 7,
      .exchange (.answer ⟨.accepted, 0, 0, 1, 1, .buy, 10, 0, 5⟩), .exchange .takeEngine, .receive])
    inferInstance
    (fun s => decide (s.forwarded = [⟨1, newOrder⟩] ∧ s.accepted =
      [⟨1, .ofServer .accepted 0⟩, ⟨2, ⟨.accepted, 0, 0, 1, 1, .buy, 10, 0, 5⟩⟩]))
    (by decide +kernel)
  obtain ⟨hsent, hnumbered, -⟩ := orderly_lockstep hreached
  obtain ⟨hforwarded, haccepted⟩ := of_decide_eq_true hcheck
  exact ⟨s, hsent, hnumbered, hforwarded, haccepted⟩

/-- The gateway on connection 0 has sent `sent` requests and the server expects the one
numbered `read + 1`; the thread and the queues are at rest. -/
structure Quiet (s : Lockstep) (sent read : Nat) : Prop where
  conn : s.conn = 0
  loop : s.routing.accepting = false
  owner : s.server.clientConnections.owner 0 = some 0
  pending : s.server.fifoSequencer.pendingClientRequests = []
  incoming : s.server.clientNextIncomingSeqNum 0 = UInt32.ofNat (read + 1)
  client : s.gateway.clientId = 0
  next : s.gateway.nextOutgoingSeqNum = UInt64.ofNat (sent + 1)
  indices : s.gateway.outgoingRequests.nextReadIndex = s.gateway.outgoingRequests.nextWriteIndex
  empty : s.gateway.outgoingRequests.numElements = 0

section Wrapping
variable {s : Lockstep} {es : List LockstepStep} {n : Nat}

/-- The client submits a request and the gateway sends it. -/
theorem Quiet.send (h : s.Quiet n n) (hrequests : s.requests = [])
    (hs : Reached (step .little) Admits (create 0) es s) : ∃ es' s',
    Reached (step .little) Admits (create 0) es' s' ∧ s'.Quiet (n + 1) n ∧
    s'.requests = [⟨UInt64.ofNat (n + 1), newOrder⟩] ∧
    ⟨UInt64.ofNat (n + 1), newOrder⟩ ∈ s'.sent := by
  have hknown : s.gateway.clientId ≠ invalidClientId := by
    rw [h.client]
    decide
  have hone : (s.gateway.outgoingRequests.push newOrder).numElements = 1 :=
    congrArg (· + 1) h.empty
  have hnext : (s.gateway.outgoingRequests.push newOrder).nextReadElement = some newOrder := by
    rw [LockFreeQueue.nextReadElement, hone, if_neg Nat.one_ne_zero]
    change some (Function.update s.gateway.outgoingRequests.data
      s.gateway.outgoingRequests.nextWriteIndex newOrder
      s.gateway.outgoingRequests.nextReadIndex) = _
    rw [h.indices, Function.update_self]
  have hpop : (s.gateway.outgoingRequests.push newOrder).pop =
      (s.gateway.outgoingRequests.push newOrder).advanceRead.decrement := by
    rw [LockFreeQueue.pop, hone, if_neg Nat.one_ne_zero]
  have hnumbered : OrderGateway.numbered
      { s.gateway with outgoingRequests := s.gateway.outgoingRequests.push newOrder } newOrder =
      ⟨UInt64.ofNat (n + 1), newOrder⟩ := by
    rw [OrderGateway.numbered]
    dsimp only
    rw [h.client, h.next]
    rfl
  have hidle := @OrderGateway.onIdle_single
    { s.gateway with outgoingRequests := s.gateway.outgoingRequests.push newOrder } newOrder
    hknown hone hnext
  rw [hnumbered] at hidle
  have hs₁ := Reached.call (r := LockstepStep.submit newOrder) hs trivial rfl
  have hs₂ := Reached.call (r := LockstepStep.idle) hs₁ trivial rfl
  refine ⟨_, _, hs₂, ⟨h.conn, h.loop, h.owner, h.pending, h.incoming, ?_, ?_, ?_, ?_⟩, ?_, ?_⟩
  · dsimp only
    rw [hidle]
    exact h.client
  · dsimp only
    rw [hidle]
    dsimp only [OrderGateway.nextRequest]
    rw [h.next]
    exact (UInt64.ofNat_add (n + 1) 1).symm
  · dsimp only
    rw [hidle]
    dsimp only [OrderGateway.nextRequest]
    rw [hpop]
    change (s.gateway.outgoingRequests.nextReadIndex + 1) % _ =
      (s.gateway.outgoingRequests.nextWriteIndex + 1) % _
    rw [h.indices]
    rfl
  · dsimp only
    rw [hidle]
    dsimp only [OrderGateway.nextRequest]
    rw [hpop]
    change (s.gateway.outgoingRequests.push newOrder).numElements - 1 = 0
    rw [hone]
  · dsimp only
    rw [hidle, hrequests]
    rfl
  · dsimp only
    rw [hidle]
    exact List.mem_append_right _ (List.mem_singleton_self _)

/-- The request is read in turn and the sequencer publishes it. -/
theorem Quiet.forward (h : s.Quiet (n + 1) n) (hn : n + 1 < 2 ^ 32)
    (hrequests : s.requests = [⟨UInt64.ofNat (n + 1), newOrder⟩])
    (hs : Reached (step .little) Admits (create 0) es s) : ∃ es' s',
    Reached (step .little) Admits (create 0) es' s' ∧ s'.Quiet (n + 1) (n + 1) ∧
    s'.requests = [] := by
  have hturn : UInt64.ofNat (n + 1) = (s.server.clientNextIncomingSeqNum 0).toUInt64 := by
    rw [h.incoming, toUInt64_ofNat hn]
  have hroom : s.server.fifoSequencer.pendingClientRequests.length < maxPendingRequests := by
    rw [h.pending]
    decide
  obtain ⟨server, hread, -, hsame, -, hincoming⟩ := @OrderServer.readRequest_turn 0 0 7 s.server
    ⟨UInt64.ofNat (n + 1), newOrder⟩ (by decide) h.owner rfl hturn hroom
  have hdeliver : s.step .little (.deliver 7) = .ok
      { s with
        routing :=
          { s.routing with
            server := server
            forwarded := s.routing.forwarded ++ (server.fifoSequencer.pendingClientRequests.drop
              s.server.fifoSequencer.pendingClientRequests.length).map (·.request.clientId) }
        requests := []
        forwarded := s.forwarded ++ (server.fifoSequencer.pendingClientRequests.drop
          s.server.fifoSequencer.pendingClientRequests.length).map
            fun t => ⟨UInt64.ofNat (n + 1), t.request⟩ } := by
    simp only [step, hrequests, Routing.step, h.conn, hread, ok_bind]
  have hs₁ := Reached.call (r := LockstepStep.deliver 7) hs h.loop hdeliver
  have hs₂ := Reached.call (r := LockstepStep.exchange (.publish id)) hs₁ ⟨h.loop, trivial⟩ rfl
  refine ⟨_, _, hs₂, ⟨h.conn, h.loop, ?_, FifoSequencer.pending_sequenceAndPublish id _, ?_,
    h.client, h.next, h.indices, h.empty⟩, rfl⟩
  · change server.clientConnections.owner 0 = some 0
    rw [hsame]
    exact h.owner
  · change server.clientNextIncomingSeqNum 0 = _
    rw [hincoming, h.incoming, OrderServer.succ_ofNat]

/-- As long as the server's counter has not come round, requests go through. -/
theorem quiet_reached (hn : n < 2 ^ 32) : ∃ es s,
    Reached (step .little) Admits (create 0) es s ∧ s.Quiet n n ∧ s.requests = [] := by
  induction n with
  | zero =>
    obtain ⟨s, hreached, hcheck⟩ := @reached_of_any _ _ _ (step .little) Admits (create 0)
      connectSteps inferInstance
      (fun s => decide (s.conn = 0 ∧ s.routing.accepting = false ∧
        s.server.clientConnections.owner 0 = some 0 ∧
        s.server.fifoSequencer.pendingClientRequests = [] ∧
        s.server.clientNextIncomingSeqNum 0 = 1 ∧ s.gateway.clientId = 0 ∧
        s.gateway.nextOutgoingSeqNum = 1 ∧ s.gateway.outgoingRequests.nextReadIndex =
          s.gateway.outgoingRequests.nextWriteIndex ∧
        s.gateway.outgoingRequests.numElements = 0 ∧ s.requests = []))
      (by decide +kernel)
    obtain ⟨hconn, hloop, howner, hpending, hincoming, hclient, hnext, hindices, hempty,
      hrequests⟩ := of_decide_eq_true hcheck
    exact ⟨_, s, hreached, ⟨hconn, hloop, howner, hpending, hincoming, hclient, hnext, hindices,
      hempty⟩, hrequests⟩
  | succ n ih =>
    obtain ⟨es, s, hs, hquiet, hrequests⟩ := ih (by omega)
    obtain ⟨es₁, s₁, hs₁, hquiet₁, hrequests₁, -⟩ := hquiet.send hrequests hs
    exact hquiet₁.forward hn hrequests₁ hs₁

end Wrapping

/-- The request numbered 2^32 meets a counter that is back at 0: the server answers
INVALID_REQUEST and forwards nothing. -/
theorem request_dropped : ∃ es s s' r, Reached (step .little) Admits (create 0) es s ∧
    s.gateway.clientId = 0 ∧ r ∈ s.sent ∧ s.requests = [r] ∧ r.sequenceNumber = 4294967296 ∧
    r.request.clientId = 0 ∧ s.server.clientNextIncomingSeqNum 0 = 0 ∧
    s.step .little (.deliver 7) = .ok s' ∧ s'.forwarded = s.forwarded ∧ s'.requests = [] ∧
    s'.server.serverResponses = s.server.serverResponses.push (.ofServer .invalidRequest 0) := by
  obtain ⟨es, s, hs, hquiet, hrequests⟩ := @quiet_reached (2 ^ 32 - 1) (by omega)
  obtain ⟨es₁, s₁, hs₁, hquiet₁, hrequests₁, hsent⟩ := hquiet.send hrequests hs
  have hcounter : s₁.server.clientNextIncomingSeqNum 0 = 0 := hquiet₁.incoming
  have hturn : ¬ UInt64.ofNat (2 ^ 32 - 1 + 1) =
      (s₁.server.clientNextIncomingSeqNum 0).toUInt64 := by
    rw [hcounter]
    decide
  have hread := @OrderServer.readRequest_outOfTurn 0 0 7 s₁.server
    ⟨UInt64.ofNat (2 ^ 32 - 1 + 1), newOrder⟩ (by decide) hquiet₁.owner rfl hturn
  refine ⟨es₁, s₁, { s₁ with
      routing :=
        { s₁.routing with server := s₁.server.sendInvalidResponse newOrder.clientId }
      requests := [] },
    _, hs₁, hquiet₁.client, hsent, hrequests₁, by decide, rfl, hcounter, ?_, rfl, rfl, rfl⟩
  simp only [step, hrequests₁, Routing.step, hquiet₁.conn, hread, ok_bind,
    OrderServer.sendInvalidResponse, OrderServer.pushServerResponse, List.drop_length,
    List.map_nil, List.append_nil]

end Lockstep

end StockExchange
