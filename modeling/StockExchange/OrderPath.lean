import StockExchange.Addressees
import StockExchange.FifoSequencer
import StockExchange.Routing

/-!
# The path of an order

The loop thread reads requests and publishes them to the queue of the engine, the engine
replies into a second queue, and the response thread takes the replies to the connections of
their clients. Nothing is lost on the way, and nothing comes twice.
-/

namespace StockExchange

open Bytes Transitions

namespace Routing

/-- The reply of the engine that a step takes. -/
def replyTaken (s : Routing) : RoutingStep → Option ClientResponseInternal
  | .takeEngine => s.engineResponses.nextReadElement
  | _ => none

section Steps
variable {host : ByteOrder} {s s' : Routing} {server server' : OrderServer} {e : RoutingStep}

/-- Reading a request leaves the queue of the engine alone. -/
theorem readRequest_queues {conn : Nat} {userTime : Int64} {r : ClientRequestExternal}
    (h : server.readRequest conn userTime r = .ok server') :
    ∃ new, server'.fifoSequencer.pendingClientRequests =
        server.fifoSequencer.pendingClientRequests ++ new ∧
      server'.fifoSequencer.incomingRequests = server.fifoSequencer.incomingRequests := by
  rw [OrderServer.readRequest] at h
  split at h
  · split at h
    · cases h
      exact ⟨[], (List.append_nil _).symm, rfl⟩
    · split at h
      · cases h
        exact ⟨[], (List.append_nil _).symm, rfl⟩
      · rw [FifoSequencer.addRequest] at h
        split at h
        · cases h
        · cases h
          exact ⟨_, rfl, rfl⟩
  · cases h

/-- What a step between two publications does to the queues: requests become pending, and the
oldest reply may be taken. -/
theorem step_queues (h : s.step host e = .ok s') (hpublish : ∀ sort, e ≠ .publish sort)
    (hanswer : ∀ r, e ≠ .answer r) :
    (∃ new, s'.server.fifoSequencer.pendingClientRequests =
        s.server.fifoSequencer.pendingClientRequests ++ new ∧
      s'.server.fifoSequencer.incomingRequests = s.server.fifoSequencer.incomingRequests ∧
      s'.forwarded = s.forwarded ++ new.map (·.request.clientId)) ∧
    ∀ answers, s.engineResponses.Queues answers →
      ∃ rest, s'.engineResponses.Queues rest ∧ answers = (s.replyTaken e).toList ++ rest := by
  have hnothing : s'.server.fifoSequencer = s.server.fifoSequencer → s'.forwarded = s.forwarded →
      ∃ new, s'.server.fifoSequencer.pendingClientRequests =
        s.server.fifoSequencer.pendingClientRequests ++ new ∧
      s'.server.fifoSequencer.incomingRequests = s.server.fifoSequencer.incomingRequests ∧
      s'.forwarded = s.forwarded ++ new.map (·.request.clientId) := by
    intro hfifo hforwarded
    exact ⟨[], by rw [hfifo, List.append_nil], by rw [hfifo],
      hforwarded.trans (List.append_nil _).symm⟩
  cases e with
  | accept =>
    cases h
    exact ⟨hnothing rfl rfl, fun answers hq => ⟨answers, hq, rfl⟩⟩
  | store =>
    obtain ⟨server, hstore, hs'⟩ := bind_eq_ok.mp h
    cases hs'
    rw [OrderServer.storeConnection] at hstore
    split at hstore
    · cases hstore
      exact ⟨hnothing rfl rfl, fun answers hq => ⟨answers, hq, rfl⟩⟩
    · cases hstore
  | read conn userTime r =>
    obtain ⟨server, hread, hs'⟩ := bind_eq_ok.mp h
    cases hs'
    obtain ⟨new, hpending, hqueue⟩ := readRequest_queues hread
    refine ⟨⟨new, hpending, hqueue, ?_⟩, fun answers hq => ⟨answers, hq, rfl⟩⟩
    dsimp only
    rw [hpending, List.drop_left]
  | publish sort => exact absurd rfl (hpublish sort)
  | answer r => exact absurd rfl (hanswer r)
  | takeServer =>
    rw [step] at h
    split at h
    · cases h
      exact ⟨hnothing rfl rfl, fun answers hq => ⟨answers, hq, rfl⟩⟩
    · obtain ⟨server, hprocess, hs'⟩ := bind_eq_ok.mp h
      cases hs'
      obtain ⟨conn, c, -, rfl⟩ := processResponse_cases hprocess
      exact ⟨hnothing rfl rfl, fun answers hq => ⟨answers, hq, rfl⟩⟩
  | takeEngine =>
    rw [step] at h
    split at h
    · rename_i hnone
      cases h
      refine ⟨hnothing rfl rfl, fun answers hq => ⟨answers, hq, ?_⟩⟩
      rw [replyTaken, hnone]
      rfl
    · rename_i r hsome
      obtain ⟨server, hprocess, hs'⟩ := bind_eq_ok.mp h
      cases hs'
      obtain ⟨conn, c, -, rfl⟩ := processResponse_cases hprocess
      refine ⟨hnothing rfl rfl, fun answers hq => ?_⟩
      have hhead := hq.next.symm.trans hsome
      cases answers with
      | nil => cases hhead
      | cons a rest =>
        refine ⟨rest, hq.pop, ?_⟩
        rw [replyTaken, hq.next]
        rfl

end Steps

end Routing

/-- The order server, the engine and the queues between them. While it works on a request the
engine has the replies `sending` still to push. `accepted` are the requests that became
pending, `begun` those the engine took up, `delivered` the replies the response thread took. -/
structure OrderPath where
  routing : Routing
  engine : MatchingEngine
  sending : Option (List ClientResponseInternal)
  accepted : List ClientRequestInternal
  begun : List ClientRequestInternal
  delivered : List ClientResponseInternal

inductive PathStep where
  | server (e : RoutingStep)
  | publish (sort : { sort // FifoSequencer.Sorts sort })
  | process
  | send
  | finish

namespace OrderPath

def create : OrderPath where
  routing := .create
  engine := .create
  sending := none
  accepted := []
  begun := []
  delivered := []

/-- The requests that wait to be published. -/
def pending (s : OrderPath) : List ClientRequestInternal :=
  s.routing.server.fifoSequencer.pendingClientRequests.map (·.request)

/-- The queue from the sequencer to the engine. -/
def requests (s : OrderPath) : LockFreeQueue ClientRequestInternal :=
  s.routing.server.fifoSequencer.incomingRequests

/-- The requests in the queue that the engine has not taken up. Its current one stays in the
queue until it is finished. -/
def waiting (s : OrderPath) : List ClientRequestInternal :=
  s.requests.contents.drop s.sending.toList.length

def popRequest (s : OrderPath) : Routing :=
  { s.routing with server := { s.routing.server with
    fifoSequencer := { s.routing.server.fifoSequencer with incomingRequests := s.requests.pop } } }

/-- A step of the order server. The requests it reads are noted, and the replies it takes from
the queue of the engine. -/
def serve (host : ByteOrder) (s : OrderPath) (e : RoutingStep) : Except Fault OrderPath :=
  s.routing.step host e >>= fun routing =>
    .ok { s with
      routing := routing
      accepted := s.accepted ++ (routing.server.fifoSequencer.pendingClientRequests.drop
        s.routing.server.fifoSequencer.pendingClientRequests.length).map (·.request)
      delivered := s.delivered ++ (s.routing.replyTaken e).toList }

/-- The loop of the engine: a request is processed, its replies are pushed one by one, and the
request is popped. -/
def step (fuel : Nat) (host : ByteOrder) (s : OrderPath) : PathStep → Except Fault OrderPath
  | .server e => s.serve host e
  | .publish sort => s.serve host (.publish sort.1)
  | .process =>
    match s.sending, s.requests.nextReadElement with
    | none, some r => s.engine.processClientRequest fuel r >>= fun engine =>
        .ok { s with
          engine := engine
          sending := some (s.engine.reply engine r)
          begun := s.begun ++ [r] }
    | _, _ => .ok s
  | .send =>
    match s.sending with
    | some (r :: rs) => s.routing.step host (.answer r) >>= fun routing =>
        .ok { s with routing := routing, sending := some rs }
    | _ => .ok s
  | .finish =>
    match s.sending with
    | some [] => .ok { s with routing := s.popRequest, sending := none }
    | _ => .ok s

/-- The order server runs in order, no queue overflows, and the engine is given what it can
process. -/
def Admits (fuel : Nat) (s : OrderPath) : PathStep → Prop
  | .server (.answer _) => False
  | .server (.publish _) => False
  | .server e => s.routing.Feasible e ∧ s.routing.Orderly e
  | .publish _ => s.routing.accepting = false ∧
    s.requests.numElements + s.pending.length ≤ s.requests.size
  | .process => s.sending = none → ∀ r ∈ s.requests.nextReadElement,
    r.instrumentId.toNat < maxNumInstruments ∧
      ∃ c ∈ r.bookRequest, (s.engine.instrumentOrderBooks r.instrumentId.toNat).Serves fuel c
  | .send => s.routing.engineResponses.numElements < s.routing.engineResponses.size
  | .finish => True

/-- The requests and the replies of the engine are all accounted for. -/
structure Sound (fuel : Nat) (s : OrderPath) : Prop where
  routing : s.routing.Sound
  forwarded : s.routing.forwarded = s.accepted.map (·.clientId)
  reached : Reached (MatchingEngine.processClientRequest fuel) (MatchingEngine.Serves fuel)
    .create s.begun s.engine
  knows : s.engine.Knows (· ∈ s.routing.forwarded)
  addressed : ∀ rs ∈ MatchingEngine.replies fuel .create s.begun, ∀ r ∈ rs,
    r.clientId ∈ s.routing.forwarded
  answered : List.Forall₂ (fun q rs => ∃ r ∈ rs, r.clientId = q.clientId) s.begun
    (MatchingEngine.replies fuel .create s.begun)
  requests : ∃ current waiting, current.length = s.sending.toList.length ∧
    s.requests.Queues (current ++ waiting) ∧
    (s.begun ++ waiting ++ s.pending).Perm s.accepted
  responses : ∃ answers, s.routing.engineResponses.Queues answers ∧
    s.delivered ++ answers ++ s.sending.getD [] =
      (MatchingEngine.replies fuel .create s.begun).flatten

section Steps
variable {fuel : Nat} {host : ByteOrder} {s s' : OrderPath} {e : PathStep}

theorem create_sound : create.Sound fuel where
  routing := Routing.create_sound
  forwarded := rfl
  reached := .start
  knows := MatchingEngine.create_knows
  addressed _ hrs := absurd hrs List.not_mem_nil
  answered := .nil
  requests := ⟨[], [], rfl, LockFreeQueue.create_queues .., .nil⟩
  responses := ⟨[], LockFreeQueue.create_queues .., rfl⟩

/-- Steps of the order server, which may add requests and take replies. -/
theorem Sound.serve (h : s.Sound fuel) {routing : Routing} {new : List ClientRequestInternal}
    (out : List ClientResponseInternal) (hrouting : routing.Sound)
    (hforwarded : routing.forwarded = s.routing.forwarded ++ new.map (·.clientId))
    (hrequests : ∃ current waiting, current.length = s.sending.toList.length ∧
      routing.server.fifoSequencer.incomingRequests.Queues (current ++ waiting) ∧
      (s.begun ++ waiting ++ routing.server.fifoSequencer.pendingClientRequests.map
        (·.request)).Perm (s.accepted ++ new))
    (hresponses : ∃ answers, routing.engineResponses.Queues answers ∧
      s.delivered ++ out ++ answers ++ s.sending.getD [] =
        (MatchingEngine.replies fuel .create s.begun).flatten) :
    Sound fuel { s with
      routing := routing, accepted := s.accepted ++ new, delivered := s.delivered ++ out } where
  routing := hrouting
  forwarded := by rw [hforwarded, h.forwarded, List.map_append]
  reached := h.reached
  knows := h.knows.mono fun c hc => hforwarded ▸ List.mem_append_left _ hc
  addressed rs hrs r hr := hforwarded ▸ List.mem_append_left _ (h.addressed rs hrs r hr)
  answered := h.answered
  requests := hrequests
  responses := hresponses

theorem Sound.server (h : s.Sound fuel) {e : RoutingStep} (hfeasible : s.routing.Feasible e)
    (horderly : s.routing.Orderly e) (hpublish : ∀ sort, e ≠ .publish sort)
    (hanswer : ∀ r, e ≠ .answer r) (hstep : s.serve host e = .ok s') : s'.Sound fuel := by
  obtain ⟨routing, hrouting, hs'⟩ := bind_eq_ok.mp hstep
  cases hs'
  obtain ⟨⟨new, hpending, hqueue, hforwarded⟩, hreplies⟩ :=
    Routing.step_queues hrouting hpublish hanswer
  obtain ⟨current, waiting, hcurrent, hqueues, hperm⟩ := h.requests
  obtain ⟨answers, hanswers, hsent⟩ := h.responses
  obtain ⟨rest, hrest, rfl⟩ := hreplies answers hanswers
  refine h.serve _ (Routing.step_sound h.routing hfeasible horderly hrouting) ?_
    ⟨current, waiting, hcurrent, hqueue ▸ hqueues, ?_⟩ ⟨rest, hrest, ?_⟩
  · rw [hforwarded, hpending, List.drop_left, List.map_map]
    rfl
  · rw [hpending, List.drop_left, List.map_append, ← List.append_assoc]
    exact hperm.append_right _
  · rw [List.append_assoc s.delivered, hsent]

theorem Sound.publish (h : s.Sound fuel) (sort : { sort // FifoSequencer.Sorts sort })
    (hloop : s.routing.accepting = false)
    (hroom : s.requests.numElements + s.pending.length ≤ s.requests.size)
    (hstep : s.serve host (.publish sort.1) = .ok s') : s'.Sound fuel := by
  cases hstep
  obtain ⟨current, waiting, hcurrent, hqueues, hperm⟩ := h.requests
  have hempty : (s.routing.server.onCheck sort.1).fifoSequencer.pendingClientRequests = [] :=
    FifoSequencer.pending_sequenceAndPublish ..
  have hsound := @Routing.step_sound host _ _ h.routing (.publish sort.1) hloop trivial rfl
  refine h.serve [] hsound ?_ ?_ ?_
  · rw [hempty, List.drop_nil, List.map_nil, List.map_nil, List.append_nil]
  · by_cases hnone : s.routing.server.fifoSequencer.pendingClientRequests = []
    · refine ⟨current, waiting, hcurrent, ?_, ?_⟩
      · have hsame : (s.routing.server.onCheck sort.1).fifoSequencer =
          s.routing.server.fifoSequencer := if_pos hnone
        exact hsame ▸ hqueues
      · rw [pending, hnone, List.map_nil, List.append_nil] at hperm
        rwa [hempty, List.drop_nil, List.map_nil, List.append_nil, List.append_nil]
    · -- the pending requests follow in the order of the sort
      have hpublished : (s.routing.server.fifoSequencer.publishOrder sort.1).Perm s.pending :=
        (sort.2.perm _).map _
      have hqueue : (s.routing.server.onCheck sort.1).fifoSequencer.incomingRequests =
          (s.routing.server.fifoSequencer.publishOrder sort.1).foldl .push s.requests :=
        congrArg FifoSequencer.incomingRequests (if_neg hnone)
      refine ⟨current, waiting ++ s.routing.server.fifoSequencer.publishOrder sort.1, hcurrent,
        ?_, ?_⟩
      · rw [hqueue, ← List.append_assoc]
        exact hqueues.pushAll (hpublished.length_eq ▸ hroom)
      · rw [hempty, List.drop_nil, List.map_nil, List.append_nil, List.append_nil,
          ← List.append_assoc]
        exact (hpublished.append_left _).trans hperm
  · obtain ⟨answers, hanswers, hsent⟩ := h.responses
    exact ⟨answers, hanswers, by rwa [List.append_nil]⟩

/-- The next request is of a client whose connection is stored. -/
theorem Sound.next (h : s.Sound fuel) (hidle : s.sending = none) {r : ClientRequestInternal}
    (hnext : s.requests.nextReadElement = some r) : ∃ waiting, s.requests.Queues (r :: waiting) ∧
      (s.begun ++ r :: waiting ++ s.pending).Perm s.accepted ∧
      r.clientId ∈ s.routing.forwarded ∧ r.clientId.toNat < maxNumClients := by
  obtain ⟨current, waiting, hcurrent, hqueues, hperm⟩ := h.requests
  rw [hidle] at hcurrent
  obtain rfl := List.eq_nil_of_length_eq_zero hcurrent
  rw [List.nil_append] at hqueues
  rw [hqueues.next] at hnext
  obtain ⟨rest, rfl⟩ := List.head?_eq_some_iff.mp hnext
  have hmem : r.clientId ∈ s.routing.forwarded := by
    rw [h.forwarded]
    exact List.mem_map_of_mem (hperm.mem_iff.mp (by simp))
  exact ⟨rest, hqueues, hperm, hmem, (h.routing.forwarded _ hmem).1⟩

/-- A request that the engine can process is processed, and the engine sends its replies. -/
theorem Sound.process (h : s.Sound fuel) (hfuel : maxNumOrders < fuel)
    (hadmits : s.Admits fuel .process) :
    ∃ s', s.step fuel host .process = .ok s' ∧ s'.Sound fuel := by
  rw [step]
  rcases hsending : s.sending with _ | rs
  · rcases hnext : s.requests.nextReadElement with _ | r
    · exact ⟨s, rfl, h⟩
    · obtain ⟨waiting, hqueues, hperm, hforwarded, hclient⟩ := h.next hsending hnext
      obtain ⟨hi, c, hc, hbook⟩ := hadmits hsending r hnext
      have hserves : s.engine.Serves fuel r := ⟨hi, hclient, c, hc, hbook⟩
      obtain ⟨e, he, hknows, haddressed, hanswered⟩ :=
        h.knows.processClientRequest hfuel hserves hforwarded
      have hreplies : MatchingEngine.replies fuel .create (s.begun ++ [r]) =
          MatchingEngine.replies fuel .create s.begun ++ [s.engine.reply e r] := by
        rw [MatchingEngine.replies_append h.reached, MatchingEngine.replies_cons he,
          MatchingEngine.replies]
      obtain ⟨answers, hanswers, hsent⟩ := h.responses
      rw [hsending, Option.getD_none, List.append_nil] at hsent
      refine ⟨{ s with
          engine := e, sending := some (s.engine.reply e r), begun := s.begun ++ [r] },
        by simp only [he, ok_bind], h.routing, h.forwarded, .call h.reached hserves he,
        hknows, fun rs hrs => ?_, ?_, ⟨[r], waiting, rfl, hqueues, ?_⟩, answers, hanswers, ?_⟩
      · rw [hreplies] at hrs
        rcases List.mem_append.mp hrs with hrs | hrs
        · exact h.addressed rs hrs
        · cases List.mem_singleton.mp hrs
          exact haddressed
      · rw [hreplies]
        exact List.rel_append h.answered (.cons hanswered .nil)
      · rwa [List.append_cons] at hperm
      · rw [hreplies, List.flatten_append, List.flatten_singleton, ← hsent, Option.getD_some]
  · exact ⟨s, rfl, h⟩

/-- The engine answers clients whose requests were accepted. -/
theorem Sound.send (h : s.Sound fuel) (hadmits : s.Admits fuel .send)
    (hstep : s.step fuel host .send = .ok s') : s'.Sound fuel := by
  rw [step] at hstep
  split at hstep
  · rename_i r rs hsending
    cases hstep
    obtain ⟨answers, hanswers, hsent⟩ := h.responses
    rw [hsending, Option.getD_some] at hsent
    have hfeasible : r.clientId ∈ s.routing.forwarded := by
      have hmem : r ∈ (MatchingEngine.replies fuel .create s.begun).flatten := by
        rw [← hsent]
        exact List.mem_append_right _ List.mem_cons_self
      obtain ⟨rs', hrs', hr⟩ := List.mem_flatten.mp hmem
      exact h.addressed rs' hrs' r hr
    refine ⟨@Routing.step_sound host _ _ h.routing (.answer r) hfeasible trivial rfl,
      h.forwarded, h.reached, h.knows, h.addressed, h.answered, ?_,
      answers ++ [r], hanswers.push hadmits r, ?_⟩
    · have hrequests := h.requests
      rw [hsending] at hrequests
      exact hrequests
    · rw [← hsent, Option.getD_some, List.append_assoc, List.append_assoc, List.append_assoc]
      rfl
  · cases hstep
    exact h

theorem Sound.finish (h : s.Sound fuel) (hstep : s.step fuel host .finish = .ok s') :
    s'.Sound fuel := by
  rw [step] at hstep
  split at hstep
  · rename_i hsending
    cases hstep
    obtain ⟨current, waiting, hcurrent, hqueues, hperm⟩ := h.requests
    rw [hsending] at hcurrent
    obtain ⟨r, rfl⟩ := List.length_eq_one_iff.mp hcurrent
    have hrouting : Routing.Sound s.popRequest := h.routing.keep rfl rfl rfl h.routing.server
      h.routing.engine h.routing.forwarded
    refine ⟨hrouting, h.forwarded, h.reached, h.knows, h.addressed, h.answered,
      ⟨[], waiting, rfl, hqueues.pop, hperm⟩, ?_⟩
    have hresponses := h.responses
    rw [hsending] at hresponses
    exact hresponses
  · cases hstep
    exact h

theorem step_sound (hfuel : maxNumOrders < fuel) (h : s.Sound fuel) (hadmits : s.Admits fuel e)
    (hstep : s.step fuel host e = .ok s') : s'.Sound fuel := by
  cases e with
  | server e =>
    cases e with
    | answer r => exact hadmits.elim
    | publish sort => exact hadmits.elim
    | accept => exact h.server hadmits.1 hadmits.2 (by simp) (by simp) hstep
    | store => exact h.server hadmits.1 hadmits.2 (by simp) (by simp) hstep
    | read conn userTime r => exact h.server hadmits.1 hadmits.2 (by simp) (by simp) hstep
    | takeServer => exact h.server hadmits.1 hadmits.2 (by simp) (by simp) hstep
    | takeEngine => exact h.server hadmits.1 hadmits.2 (by simp) (by simp) hstep
  | publish sort => exact h.publish sort hadmits.1 hadmits.2 hstep
  | process =>
    obtain ⟨s₁, hs₁, hsound⟩ := h.process hfuel hadmits
    exact Except.ok.inj (hs₁.symm.trans hstep) ▸ hsound
  | send => exact h.send hadmits hstep
  | finish => exact h.finish hstep

end Steps

section Runs
variable {fuel : Nat} {host : ByteOrder} {s : OrderPath} {es : List PathStep}

theorem reached_sound (hfuel : maxNumOrders < fuel)
    (h : Reached (step fuel host) (Admits fuel) create es s) : s.Sound fuel :=
  h.invariant (P := Sound fuel) create_sound fun _ _ _ hsound hadmits hstep =>
    step_sound hfuel hsound hadmits hstep

/-- Every request that was accepted is pending, waits for the engine, or was processed once; the
engine runs on those as on its own, and every one of its replies was delivered, waits or is about
to be sent, in order. Each request is answered, and each reply is for a client whose connection is
stored. -/
theorem path_exact (hfuel : maxNumOrders < fuel)
    (h : Reached (step fuel host) (Admits fuel) create es s) :
    (s.begun ++ s.waiting ++ s.pending).Perm s.accepted ∧
    Reached (MatchingEngine.processClientRequest fuel) (MatchingEngine.Serves fuel) .create s.begun
      s.engine ∧
    s.delivered ++ s.routing.engineResponses.contents ++ s.sending.getD [] =
      (MatchingEngine.replies fuel .create s.begun).flatten ∧
    List.Forall₂ (fun q rs => ∃ r ∈ rs, r.clientId = q.clientId) s.begun
      (MatchingEngine.replies fuel .create s.begun) ∧
    (∀ rs ∈ MatchingEngine.replies fuel .create s.begun, ∀ r ∈ rs,
      Routing.Registered s.routing.server r.clientId) ∧
    (s.Admits fuel .process → ∃ s', s.step fuel host .process = .ok s') := by
  have hsound := reached_sound hfuel h
  obtain ⟨current, waiting, hcurrent, hqueues, hperm⟩ := hsound.requests
  obtain ⟨answers, hanswers, hsent⟩ := hsound.responses
  have hwaiting : s.waiting = waiting := by
    rw [OrderPath.waiting, hqueues.contents, ← hcurrent, List.drop_left]
  refine ⟨hwaiting ▸ hperm, hsound.reached, hanswers.contents ▸ hsent, hsound.answered,
    fun rs hrs r hr => hsound.routing.forwarded _ (hsound.addressed rs hrs r hr), fun hadmits => ?_⟩
  exact (hsound.process hfuel hadmits).imp fun s' hs' => hs'.1

end Runs

instance (fuel : Nat) (s : OrderPath) : ∀ e, Decidable (s.Admits fuel e)
  | .server (.answer _) => .isFalse id
  | .server (.publish _) => .isFalse id
  | .server .accept => inferInstanceAs (Decidable (_ ∧ _))
  | .server .store => inferInstanceAs (Decidable (_ ∧ _))
  | .server (.read _ _ _) => inferInstanceAs (Decidable (_ ∧ _))
  | .server .takeServer => inferInstanceAs (Decidable (_ ∧ _))
  | .server .takeEngine => inferInstanceAs (Decidable (_ ∧ _))
  | .publish _ => inferInstanceAs (Decidable (_ ∧ _))
  | .process => inferInstanceAs (Decidable (_ → ∀ r ∈ s.requests.nextReadElement, _ ∧
      ∃ c ∈ r.bookRequest, (s.engine.instrumentOrderBooks r.instrumentId.toNat).Serves fuel c))
  | .send => inferInstanceAs (Decidable (_ < _))
  | .finish => .isTrue trivial

/-- A sort that finds one request. -/
def sortOne (r : TimedClientRequest) : { sort // FifoSequencer.Sorts sort } :=
  ⟨FifoSequencer.sortExcept [r] [r],
    FifoSequencer.sortExcept_sorts (.refl _) (List.pairwise_singleton ..)⟩

/-- Two clients trade; the last of the four replies has not been sent yet. -/
theorem path_exact_sample : ∃ s : OrderPath,
    Reached (step 3000 .little) (Admits 3000) create
      [.server .accept, .server .store, .server .takeServer, .server .accept, .server .store,
        .server (.read 0 7 ⟨1, ⟨.new, 0, 0, 1, .sell, 10, 5⟩⟩),
        .publish (sortOne ⟨7, ⟨.new, 0, 0, 1, .sell, 10, 5⟩⟩), .process, .send, .finish,
        .server (.read 1 9 ⟨1, ⟨.new, 1, 0, 1, .buy, 10, 3⟩⟩), .server .takeEngine,
        .publish (sortOne ⟨9, ⟨.new, 1, 0, 1, .buy, 10, 3⟩⟩), .process, .send, .send,
        .server .takeEngine] s ∧
    s.accepted.length = 2 ∧ s.delivered.length = 2 ∧
    s.delivered ++ s.routing.engineResponses.contents ++ s.sending.getD [] =
      (MatchingEngine.replies 3000 .create s.begun).flatten := by
  obtain ⟨s, hs, hcheck⟩ := @reached_of_any _ _ _ (step 3000 .little) (Admits 3000) create
    [.server .accept, .server .store, .server .takeServer, .server .accept, .server .store,
      .server (.read 0 7 ⟨1, ⟨.new, 0, 0, 1, .sell, 10, 5⟩⟩),
      .publish (sortOne ⟨7, ⟨.new, 0, 0, 1, .sell, 10, 5⟩⟩), .process, .send, .finish,
      .server (.read 1 9 ⟨1, ⟨.new, 1, 0, 1, .buy, 10, 3⟩⟩), .server .takeEngine,
      .publish (sortOne ⟨9, ⟨.new, 1, 0, 1, .buy, 10, 3⟩⟩), .process, .send, .send,
      .server .takeEngine] _
    (fun s => s.accepted.length = 2 ∧ s.delivered.length = 2) (by decide +kernel)
  obtain ⟨haccepted, hdelivered⟩ := of_decide_eq_true hcheck
  exact ⟨s, hs, haccepted, hdelivered, (path_exact (by decide) hs).2.2.1⟩

end OrderPath

end StockExchange
