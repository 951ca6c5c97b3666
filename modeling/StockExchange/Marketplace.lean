import StockExchange.TradingClient
import StockExchange.VenueCalls

/-!
# The trading client at the exchange

The requests of the client reach the matching engine in the order they were sent, among those of
other clients, and it is told of its orders and of the market. The model of the exchange that
`TradingSystem` has is what the matching engine does for the client, so an order in the book is
the one that the order manager keeps in its place.
-/

namespace StockExchange

open BookView Replay Transitions Relation

/-! ## The ids of the requests -/

/-- How many new orders are asked for. -/
def newOrders (qs : List ClientRequestInternal) : Nat := qs.countP fun q => q.type = .new

theorem newOrders_append (qs qs' : List ClientRequestInternal) :
    newOrders (qs ++ qs') = newOrders qs + newOrders qs' := List.countP_append

/-- After `n` new orders the requests on the way have ids of their own, which no order at the
exchange has. -/
structure TradingSystem.Numbered (s : TradingSystem) (n : Nat) : Prop where
  next : s.engine.nextOrderId = UInt64.ofNat (n + 1)
  born : ∀ q ∈ s.engine.outgoingOgwRequests, q.type = .new → Born n q.orderId
  requests : s.engine.outgoingOgwRequests.Pairwise fun q q' =>
    q.type = .new → q'.type = .new → q.orderId ≠ q'.orderId
  orders : ∀ x ∈ s.orders, Born n x.clientOrderId ∧
    ∀ q ∈ s.engine.outgoingOgwRequests, q.type = .new → q.orderId ≠ x.clientOrderId

namespace TradingSystem

section Numbered
variable {s : TradingSystem} {n i k : Nat} {e : TradeEngine} {instrumentId : InstrumentId}
  {price : Price} {side : Side} {qty : Quantity}

theorem create_numbered (riskCfg : Nat → RiskConfig) : (create riskCfg).Numbered 0 :=
  ⟨rfl, fun _ hq => absurd hq List.not_mem_nil, .nil, fun _ hx => absurd hx List.not_mem_nil⟩

/-- A request that is no new order takes no id. -/
theorem Numbered.send (h : s.Numbered n) {q : ClientRequestInternal} (hq : q.type ≠ .new) :
    Numbered { s with engine := s.engine.sendClientRequest q } n := by
  refine ⟨h.next, fun q' hq' htype => ?_, List.pairwise_append.mpr ⟨h.requests,
    List.pairwise_singleton _ q, fun q₁ _ q₂ hq₂ _ htype => ?_⟩, fun x hx =>
      ⟨(h.orders x hx).1, fun q' hq' htype => ?_⟩⟩
  · rcases List.mem_append.mp hq' with hq' | hq'
    · exact h.born q' hq' htype
    · exact absurd (List.mem_singleton.mp hq' ▸ htype) hq
  · exact absurd (List.mem_singleton.mp hq₂ ▸ htype) hq
  · rcases List.mem_append.mp hq' with hq' | hq'
    · exact (h.orders x hx).2 q' hq' htype
    · exact absurd (List.mem_singleton.mp hq' ▸ htype) hq

/-- A new order takes the next one. -/
theorem Numbered.newOrder (h : s.Numbered n) (hlt : n < 2 ^ 64) :
    Numbered { s with engine := s.engine.newOrder i k instrumentId price side qty } (n + 1) := by
  have hfresh : ∀ id, Born n id → s.engine.nextOrderId ≠ id := by
    intro id hborn heq
    rw [h.next] at heq
    exact not_born_next hlt (heq ▸ hborn)
  refine ⟨?_, fun q hq htype => ?_, List.pairwise_append.mpr ⟨h.requests,
    List.pairwise_singleton _ _, fun q₁ hq₁ q₂ hq₂ htype _ => ?_⟩, fun x hx =>
      ⟨(h.orders x hx).1.mono (Nat.le_succ n), fun q hq htype => ?_⟩⟩
  · change s.engine.nextOrderId + 1 = _
    rw [h.next]
    exact (UInt64.ofNat_add (n + 1) 1).symm
  · rcases List.mem_append.mp hq with hq | hq
    · exact (h.born q hq htype).mono (Nat.le_succ n)
    · rw [List.mem_singleton.mp hq]
      exact h.next ▸ born_last n
  · rw [List.mem_singleton.mp hq₂]
    exact fun heq => hfresh _ (h.born q₁ hq₁ htype) heq.symm
  · rcases List.mem_append.mp hq with hq | hq
    · exact (h.orders x hx).2 q hq htype
    · rw [List.mem_singleton.mp hq]
      exact hfresh _ (h.orders x hx).1

theorem moveOrder_sends (hi : instrumentId.toNat = i) {e' : TradeEngine}
    (hmove : e.moveOrder i k instrumentId price side qty = .ok e') :
    ∃ new, e'.outgoingOgwRequests = e.outgoingOgwRequests ++ new := by
  rcases TradeEngine.moveOrder_cases hi hmove with ⟨-, rfl⟩ | ⟨-, rfl⟩ | ⟨-, rfl⟩
  · exact ⟨[], (List.append_nil _).symm⟩
  · exact ⟨_, rfl⟩
  · exact ⟨_, rfl⟩

theorem Numbered.moveOrder (h : s.Numbered n) (hi : instrumentId.toNat = i)
    (hmove : s.engine.moveOrder i k instrumentId price side qty = .ok e)
    {new : List ClientRequestInternal}
    (hnew : e.outgoingOgwRequests = s.engine.outgoingOgwRequests ++ new)
    (hle : n + newOrders new ≤ 2 ^ 64) : Numbered { s with engine := e } (n + newOrders new) := by
  rcases TradeEngine.moveOrder_cases hi hmove with ⟨-, rfl⟩ | ⟨-, rfl⟩ | ⟨-, rfl⟩
  · obtain rfl := List.self_eq_append_right.mp hnew
    exact h
  · obtain rfl := List.append_cancel_left hnew
    exact h.send (show ¬ ClientRequestType.cancel = .new by decide)
  · obtain rfl := List.append_cancel_left hnew
    exact h.newOrder hle

theorem Numbered.moveOrders (h : s.Numbered n) {bidPrice askPrice : Price} {clip : Quantity}
    (hmoves : s.engine.moveOrders instrumentId bidPrice askPrice clip = .ok e)
    {new : List ClientRequestInternal}
    (hnew : e.outgoingOgwRequests = s.engine.outgoingOgwRequests ++ new)
    (hle : n + newOrders new ≤ 2 ^ 64) : Numbered { s with engine := e } (n + newOrders new) := by
  obtain ⟨e₁, hbid, hask⟩ := TradeEngine.moveOrders_eq_ok hmoves
  obtain ⟨bids, hbids⟩ := moveOrder_sends rfl hbid
  obtain ⟨asks, hasks⟩ := moveOrder_sends rfl hask
  obtain rfl : bids ++ asks = new := by
    rw [hasks, hbids, List.append_assoc] at hnew
    exact List.append_cancel_left hnew
  rw [newOrders_append, ← Nat.add_assoc] at hle ⊢
  have hnumbered := h.moveOrder rfl hbid hbids ((Nat.le_add_right _ _).trans hle)
  exact hnumbered.moveOrder rfl hask hasks hle

/-- What rests after an answer rested before or is the order that was asked for. -/
theorem Numbered.answer (h : s.Numbered n) (marketOrderId : OrderId) :
    (s.answer marketOrderId).Numbered n := by
  rw [TradingSystem.answer]
  cases hq : s.engine.outgoingOgwRequests with
  | nil => exact h
  | cons q qs =>
    have hborn := h.born
    have hrequests := h.requests
    have horders := h.orders
    rw [hq] at hborn hrequests horders
    obtain ⟨hfirst, hrest⟩ := List.pairwise_cons.mp hrequests
    have hold : ∀ x ∈ s.orders, Born n x.clientOrderId ∧
        ∀ q ∈ qs, q.type = .new → q.orderId ≠ x.clientOrderId :=
      fun x hx => ⟨(horders x hx).1, fun q' hq' => (horders x hx).2 q' (List.mem_cons_of_mem q hq')⟩
    have hkept := fun q' hq' => hborn q' (List.mem_cons_of_mem q hq')
    by_cases hnew : q.type = .new
    · simp only [if_pos hnew, accept]
      split
      · exact ⟨h.next, hkept, hrest, hold⟩
      · refine ⟨h.next, hkept, hrest, fun x hx => ?_⟩
        rcases List.mem_append.mp hx with hx | hx
        · exact hold x hx
        · rw [List.mem_singleton.mp hx]
          exact ⟨hborn q List.mem_cons_self hnew, fun q' hq' htype =>
            (hfirst q' hq' hnew htype).symm⟩
    · simp only [if_neg hnew, cancel]
      split
      · exact ⟨h.next, hkept, hrest, hold⟩
      · exact ⟨h.next, hkept, hrest, fun x hx => hold x (List.mem_of_mem_eraseP hx)⟩

theorem Numbered.fill (h : s.Numbered n) (m : Nat) (price : Price) (execQty : Quantity) :
    (s.fill m price execQty).Numbered n := by
  rw [TradingSystem.fill]
  cases hx : s.orders[m]? with
  | none => exact h
  | some x =>
    dsimp only
    split
    · refine ⟨h.next, h.born, h.requests, fun x' hx' => ?_⟩
      dsimp only at hx'
      split at hx'
      · exact h.orders x' (List.mem_of_mem_eraseIdx hx')
      · rcases List.mem_or_eq_of_mem_set hx' with hx' | rfl
        · exact h.orders x' hx'
        · exact h.orders x (List.mem_of_getElem? hx)
    · exact h

theorem Numbered.read (h : s.Numbered n) {s' : TradingSystem} (hread : s.step .read = .ok s') :
    s'.Numbered n := by
  obtain ⟨e, he, rfl⟩ := step_read hread
  rcases TradeEngine.readResponse_cases he with ⟨-, rfl⟩ | ⟨r, rs, -, rfl⟩
  · exact ⟨h.next, h.born, h.requests, h.orders⟩
  · exact ⟨h.next, h.born, h.requests, h.orders⟩

end Numbered

end TradingSystem

namespace TradingClient

section Numbered
variable {fuel : Nat} {ar : DoubleArithmetic} {algo : Algo} {cfg : Nat → TradeEngineConfig}
  {riskCfg : Nat → RiskConfig} {c c' : TradingClient} {es : List ClientStep}

/-- How many new orders have been sent. -/
def ordersSent (c : TradingClient) : Nat := newOrders (c.sent.map (·.request))

theorem ordersSent_append {new : List SentRequest} (h : c'.sent = c.sent ++ new) :
    c'.ordersSent = c.ordersSent + newOrders (new.map (·.request)) := by
  rw [ordersSent, h, List.map_append, newOrders_append]
  rfl

theorem step_sends (hflat : c.system.engine.instrumentPosition = fun _ => .default)
    {e : ClientStep} (h : c.step fuel ar algo cfg e = .ok c') :
    ∃ new, c'.sent = c.sent ++ new ∧
      ∀ n, c.system.Numbered n → n + newOrders (new.map (·.request)) ≤ 2 ^ 64 →
        c'.system.Numbered (n + newOrders (new.map (·.request))) := by
  cases e with
  | market u =>
    obtain ⟨-, -, -, hmoved⟩ := onMarketUpdate_cases hflat h
    cases hmoved with
    | stay hsystem hsent =>
      exact ⟨[], hsent.trans (List.append_nil _).symm, fun n hn _ => hsystem ▸ hn⟩
    | @move bbo bidPrice askPrice engine _ _ _ hmoves hsystem hsent =>
      obtain ⟨e₁, hbid, hask⟩ := TradeEngine.moveOrders_eq_ok hmoves
      obtain ⟨bids, hbids⟩ := TradingSystem.moveOrder_sends rfl hbid
      obtain ⟨asks, hasks⟩ := TradingSystem.moveOrder_sends rfl hask
      have hnew : engine.outgoingOgwRequests = c.system.engine.outgoingOgwRequests ++
          (bids ++ asks) := by rw [hasks, hbids, List.append_assoc]
      have hrequests : ((bids ++ asks).map (SentRequest.mk bbo u)).map (·.request) =
          bids ++ asks := by rw [List.map_map]; exact List.map_id _
      rw [hnew, List.drop_left] at hsent
      refine ⟨_, hsent, fun n hn hle => ?_⟩
      rw [hrequests] at hle ⊢
      rw [hsystem]
      exact hn.moveOrders hmoves hnew hle
  | read =>
    obtain ⟨system, hread, hc'⟩ := bind_eq_ok.mp h
    cases hc'
    exact ⟨[], (List.append_nil _).symm, fun n hn _ => hn.read hread⟩
  | answer marketOrderId =>
    cases h
    exact ⟨[], (List.append_nil _).symm, fun n hn _ => hn.answer marketOrderId⟩
  | fill m price execQty =>
    cases h
    exact ⟨[], (List.append_nil _).symm, fun n hn _ => hn.fill m price execQty⟩

/-- As long as the ids have not gone round, each request has its own. -/
theorem numbered_reached
    (h : Reached (step fuel ar algo cfg) (fun _ _ => True) (create riskCfg) es c)
    (hle : c.ordersSent ≤ 2 ^ 64) : c.system.Numbered c.ordersSent := by
  induction h with
  | start => exact TradingSystem.create_numbered riskCfg
  | call before _ returns ih =>
    obtain ⟨rs, hsystem, -⟩ := system_reached before
    obtain ⟨new, hsent, hnumbered⟩ :=
      step_sends (TradingSystem.position_reached hsystem) returns
    rw [ordersSent_append hsent] at hle ⊢
    exact hnumbered _ (ih ((Nat.le_add_right _ _).trans hle)) hle

end Numbered

/-- Executions at the exchange are steps of the client. -/
theorem reached_executed {fuel : Nat} {ar : DoubleArithmetic} {algo : Algo}
    {cfg : Nat → TradeEngineConfig} {start c : TradingClient} {es : List ClientStep}
    {s : TradingSystem} (h : Reached (step fuel ar algo cfg) (fun _ _ => True) start es c)
    (hruns : ReflTransGen TradingSystem.Executes c.system s) :
    ∃ es', Reached (step fuel ar algo cfg) (fun _ _ => True) start es' { c with system := s } := by
  induction hruns with
  | refl => exact ⟨es, h⟩
  | tail _ hexecutes ih =>
    obtain ⟨es', hes'⟩ := ih
    obtain ⟨n, price, execQty, rfl⟩ := hexecutes
    exact ⟨es' ++ [.fill n price execQty], hes'.call trivial rfl⟩

end TradingClient

/-! ## The client and the matching engine -/

/-- The exchange, and a client of it that has the number 0. The orders at the exchange are those
in its books, and `client.system.orders` stays empty. -/
structure Marketplace where
  exchange : Exchange
  client : TradingClient

/-- The client reads the next market update or a response; the exchange processes the next request
of the client or one of another. -/
inductive MarketplaceStep where
  | update
  | read
  | serve
  | other (r : ClientRequestInternal)

namespace Marketplace

def create (riskCfg : Nat → RiskConfig) : Marketplace := ⟨.create, .create riskCfg⟩

/-- The client is told of what concerns it. -/
def process (fuel : Nat) (m : Marketplace) (r : ClientRequestInternal) : Except Fault Marketplace :=
  m.exchange.processClientRequest fuel r >>= fun exchange => .ok
    { m with
      exchange := exchange
      client := { m.client with
        system := m.client.system.after
          (responsesTo 0 (m.exchange.engine.reply exchange.engine r)) m.client.system.orders } }

def step (fuel : Nat) (ar : DoubleArithmetic) (algo : Algo) (cfg : Nat → TradeEngineConfig)
    (m : Marketplace) : MarketplaceStep → Except Fault Marketplace
  | .update => match m.exchange.stream[m.client.seen.length]? with
    | none => .ok m
    | some u => m.client.step fuel ar algo cfg (.market u) >>= fun client =>
      .ok { m with client := client }
  | .read => m.client.step fuel ar algo cfg .read >>= fun client => .ok { m with client := client }
  | .serve => match m.client.system.engine.outgoingOgwRequests with
    | [] => .ok m
    | q :: qs =>
      let engine := { m.client.system.engine with outgoingOgwRequests := qs }
      let client := { m.client with system := { m.client.system with engine := engine } }
      process fuel { m with client := client } q
  | .other r => m.process fuel r

/-- The requests of others are not in the name of the client, and the prices are kept apart. -/
def Admits (fuel : Nat) (m : Marketplace) : MarketplaceStep → Prop
  | .serve => ∀ q ∈ m.client.system.engine.outgoingOgwRequests.head?,
    m.exchange.KeepsPrices fuel q
  | .other r => r.clientId ≠ 0 ∧ m.exchange.KeepsPrices fuel r
  | _ => True

instance (fuel : Nat) (m : Marketplace) (e : MarketplaceStep) : Decidable (m.Admits fuel e) :=
  match e with
  | .serve =>
    inferInstanceAs (Decidable (∀ q ∈ m.client.system.engine.outgoingOgwRequests.head?, _))
  | .other _ => inferInstanceAs (Decidable (_ ∧ _))
  | .update => inferInstanceAs (Decidable True)
  | .read => inferInstanceAs (Decidable True)

/-- The books stand for lists, and the orders of the client in them are those of the model. -/
structure Hosts (x : Exchange) (os : List VenueOrder) : Prop where
  books : ∀ i < maxNumInstruments, ∃ v, Represents (x.engine.instrumentOrderBooks i) v ∧
    v.Valid ∧ v.Filed 0 ∧ v.instrumentId = UInt8.ofNat i ∧
    (os.filter fun o => o.instrumentId = UInt8.ofNat i).Perm
      (ordersOf 0 (v.orders.map OrderView.resting))
  bounded : ∀ o ∈ os, o.instrumentId.toNat < maxNumInstruments

section Hosts
variable {fuel : Nat} {x x' : Exchange} {os os' others : List VenueOrder}
  {r : ClientRequestInternal}

theorem create_hosts : Hosts .create [] := by
  refine ⟨fun i _ => ⟨_, create_represents (UInt8.ofNat i), create_valid (UInt8.ofNat i),
    create_filed (UInt8.ofNat i), rfl, .nil⟩, fun _ ho => absurd ho List.not_mem_nil⟩

/-- One book and the orders in it are replaced. -/
theorem Hosts.replace (h : Hosts x os) {i : Nat} (hi : i < maxNumInstruments) {b : OrderBook}
    {w : BookView} (hr : Represents b w) (hw : w.Valid) (hfiled : w.Filed 0)
    (hinstrument : w.instrumentId = UInt8.ofNat i)
    (hos' : os'.Perm (ordersOf 0 (w.orders.map OrderView.resting) ++
      os.filter fun o => o.instrumentId ≠ UInt8.ofNat i)) (us : List MarketUpdate) :
    Hosts ⟨x.engine.setOrderBook i b, us⟩ os' := by
  have hown : ∀ o ∈ ordersOf 0 (w.orders.map OrderView.resting),
      o.instrumentId = UInt8.ofNat i := by
    intro o ho
    obtain ⟨ho, hc⟩ := List.mem_filter.mp ho
    obtain ⟨o', ho', rfl⟩ := List.mem_map.mp ho
    exact (hfiled.instrument o' ho' (of_decide_eq_true hc)).trans hinstrument
  refine ⟨fun j hj => ?_, fun o ho => ?_⟩
  · have hfilter := hos'.filter fun o => decide (o.instrumentId = UInt8.ofNat j)
    rw [List.filter_append, List.filter_filter] at hfilter
    by_cases hji : j = i
    · subst hji
      rw [x.engine.setOrderBook_self]
      refine ⟨w, hr, hw, hfiled, hinstrument, hfilter.trans (.of_eq ?_)⟩
      rw [List.filter_eq_self.mpr fun o ho => decide_eq_true (hown o ho),
        List.filter_eq_nil_iff.mpr fun o _ => by simp, List.append_nil]
    · have hne : UInt8.ofNat j ≠ UInt8.ofNat i :=
        ofNat_ne (Nat.lt_trans hj (by decide)) (Nat.lt_trans hi (by decide)) hji
      obtain ⟨v, hrv, hv, hfv, hiv, hperm⟩ := h.books j hj
      rw [x.engine.setOrderBook_ne hji]
      refine ⟨v, hrv, hv, hfv, hiv, hfilter.trans (.trans (.of_eq ?_) hperm)⟩
      rw [List.filter_eq_nil_iff.mpr fun o ho => by
        rw [decide_eq_true_eq, hown o ho]
        exact fun heq => hne heq.symm, List.nil_append]
      refine List.filter_congr fun o _ => ?_
      by_cases ho : o.instrumentId = UInt8.ofNat j <;> simp [ho, hne]
  · rcases List.mem_append.mp (hos'.mem_iff.mp ho) with ho | ho
    · rw [hown o ho, UInt8.toNat_ofNat']
      exact (Nat.mod_eq_of_lt (Nat.lt_trans hi (by decide))).trans_lt hi
    · exact h.bounded o (List.mem_filter.mp ho).1

/-- A request is a call on the book of its instrument, and what the client is told of it is what
the call adds to the responses. -/
theorem Hosts.process (hfuel : maxNumOrders < fuel) (h : Hosts x os)
    (hkeeps : x.KeepsPrices fuel r) (hx' : x.processClientRequest fuel r = .ok x') :
    ∃ v call others, r.bookRequest = some call ∧ v.Valid ∧ v.Filed 0 ∧
      v.instrumentId = r.instrumentId ∧ Admissible v call ∧
      (∀ s : TradingSystem, s.orders = os → Rests 0 others s v) ∧
      responsesTo 0 (responses (v.call call).sent) = responsesTo 0 (responses v.sent) ++
        responsesTo 0 (x.engine.reply x'.engine r) ∧
      ∀ s before rs, Met 0 others s before v.instrumentId [] (v.call call) →
        responsesTo 0 (responses (v.call call).sent) = before ++ rs →
        ∃ os', ReflTransGen TradingSystem.Executes s (s.after rs os') ∧ Hosts x' os' := by
  obtain ⟨hi, call, b, hcall, hb, rfl⟩ := Exchange.processClientRequest_ok hx'
  obtain ⟨v, hr, hv, hfiled, hinstrument, hperm⟩ := h.books _ hi
  have hprices := keepsPrices_books hfuel hr hv (hkeeps call hcall)
  obtain ⟨hadmissible, hr', hv'⟩ :=
    call_returned hr hv hfuel (books_mono (fun _ _ _ => SamePrice.same) hprices) hb
  have hname : UInt8.ofNat r.instrumentId.toNat = r.instrumentId := UInt8.ofNat_toNat
  obtain ⟨ms, hms, -⟩ := answered_call hv call
  refine ⟨v, call, os.filter fun o => o.instrumentId ≠ UInt8.ofNat r.instrumentId.toNat, hcall, hv,
    hfiled, hinstrument.trans hname, hadmissible, fun s hs => ⟨?_, fun o ho => ?_⟩, ?_,
    fun s before rs hmet hrs => ?_⟩
  · rw [hs]
    refine ((List.filter_append_perm (fun o => decide
      (o.instrumentId = UInt8.ofNat r.instrumentId.toNat)) os).symm).trans ?_
    refine (hperm.append_right _).trans (.of_eq (congrArg _ (List.filter_congr fun o _ => ?_)))
    simp
  · rw [hinstrument]
    exact of_decide_eq_true (List.mem_filter.mp ho).2
  · rw [hms, responses_append, responsesTo_append, MatchingEngine.reply,
      x.engine.setOrderBook_self, hr'.sent, hms, hr.sent, List.drop_left]
  · obtain ⟨rs', hrs', os', hruns, hos'⟩ := hmet.meets
    obtain rfl := List.append_cancel_left (hrs.symm.trans hrs')
    exact ⟨os', hruns, h.replace hi hr' hv' hmet.filed (hmet.instrument.trans hinstrument) hos' _⟩

end Hosts

end Marketplace

namespace TradingClient

/-- The orders at the exchange do not matter to the client. -/
def withOrders (c : TradingClient) (os : List VenueOrder) : TradingClient :=
  { c with system := { c.system with orders := os } }

section Orders
variable {fuel : Nat} {ar : DoubleArithmetic} {algo : Algo} {cfg : Nat → TradeEngineConfig}
  {c c' : TradingClient}

theorem moveOrders_withOrders {u : MarketUpdate} {bbo : Bbo} {clip : Quantity}
    {quotes : Option (Price × Price)} (h : c.moveOrders u bbo clip quotes = .ok c')
    (os : List VenueOrder) :
    (c.withOrders os).moveOrders u bbo clip quotes = .ok (c'.withOrders os) ∧
      c.sent <+: c'.sent ∧ c'.seen = c.seen := by
  cases quotes with
  | none =>
    cases h
    exact ⟨rfl, List.prefix_rfl, rfl⟩
  | some quotes =>
    obtain ⟨engine, hengine, hc'⟩ := bind_eq_ok.mp h
    cases hc'
    refine ⟨?_, List.prefix_append _ _, rfl⟩
    rw [moveOrders]
    change c.system.engine.moveOrders _ _ _ _ >>= _ = _
    rw [hengine, ok_bind]
    rfl

theorem market_withOrders {u : MarketUpdate} (h : c.step fuel ar algo cfg (.market u) = .ok c')
    (os : List VenueOrder) :
    (c.withOrders os).step fuel ar algo cfg (.market u) = .ok (c'.withOrders os) ∧
      c.sent <+: c'.sent ∧ c'.seen = c.seen ++ [u] := by
  obtain ⟨i, hi, h⟩ := bind_eq_ok.mp h
  obtain ⟨books, hbooks, h⟩ := bind_eq_ok.mp h
  rw [step, onMarketUpdate, hi, ok_bind]
  change c.books.onMarketUpdate fuel u >>= _ = _ ∧ _
  rw [hbooks, ok_bind]
  by_cases htrade : u.type = .trade
  · simp only [if_pos htrade, onTradeUpdate] at h ⊢
    cases algo with
    | maker =>
      cases h
      exact ⟨rfl, List.prefix_rfl, rfl⟩
    | taker => exact moveOrders_withOrders h os
  · simp only [if_neg htrade, onOrderBookUpdate] at h ⊢
    cases algo with
    | maker => exact moveOrders_withOrders h os
    | taker =>
      cases h
      exact ⟨rfl, List.prefix_rfl, rfl⟩

theorem read_withOrders (h : c.step fuel ar algo cfg .read = .ok c') (os : List VenueOrder) :
    (c.withOrders os).step fuel ar algo cfg .read = .ok (c'.withOrders os) := by
  obtain ⟨system, hsystem, hc'⟩ := bind_eq_ok.mp h
  cases hc'
  obtain ⟨e, he, rfl⟩ := TradingSystem.step_read hsystem
  rw [step, TradingSystem.step]
  change (c.system.engine.readResponse >>= _) >>= _ = _
  rw [he]
  rfl

end Orders

end TradingClient

namespace Marketplace

/-- The blocks with orders of the client on a side of a book. -/
def ordersAt (m : Marketplace) (i : Nat) (side : Side) : Set OrderPtr :=
  {p | p ∈ (m.exchange.engine.instrumentOrderBooks i).resting ∧
    ((m.exchange.engine.instrumentOrderBooks i).order p).clientId = 0 ∧
    ((m.exchange.engine.instrumentOrderBooks i).order p).side = side}

/-- The place of the order manager for a side of an instrument. -/
def place (m : Marketplace) (i : Nat) (side : Side) : OmOrder :=
  m.client.system.engine.instrumentSideOrder i (sideToIndex side)

/-- An order in the book is in its place, and was sent by the rule. -/
structure Manages (fuel : Nat) (algo : Algo) (cfg : Nat → TradeEngineConfig) (m : Marketplace)
    (i : Nat) (x : OrderFields) : Prop where
  state : (m.place i x.side).orderState = .pendingNew ∨ (m.place i x.side).orderState = .live
  named : x.clientOrderId = (m.place i x.side).orderId ∧ x.price = (m.place i x.side).price
  sent : ∃ s ∈ m.client.sent, s.ByRule algo cfg ∧ s.ReadFrom fuel m.client.seen ∧
    s.request.type = .new ∧ s.request.orderId = x.clientOrderId ∧ s.request.side = x.side ∧
    s.request.price = x.price

/-- A place whose order is known for sure is empty or tells what rests. -/
structure Settled (m : Marketplace) (i : Nat) (side : Side) : Prop where
  state : (m.place i side).orderState = .invalid ∨ (m.place i side).orderState = .dead ∨
    (m.place i side).orderState = .live
  live : ∀ p ∈ m.ordersAt i side, (m.place i side).orderState = .live ∧
    ((m.exchange.engine.instrumentOrderBooks i).order p).qty = (m.place i side).qty
  rests : (m.place i side).orderState = .live → (m.place i side).qty ≠ 0 →
    (m.ordersAt i side).Nonempty

section Runs
variable {fuel : Nat} {ar : DoubleArithmetic} {algo : Algo} {cfg : Nat → TradeEngineConfig}
  {riskCfg : Nat → RiskConfig} {m m' : Marketplace} {es : List MarketplaceStep}
  {os : List VenueOrder} {r q : ClientRequestInternal} {qs : List ClientRequestInternal}

/-- Another client's request is executions of the client's orders. -/
theorem Hosts.other (hfuel : maxNumOrders < fuel) (h : Hosts m.exchange os) (hne : r.clientId ≠ 0)
    (hkeeps : m.exchange.KeepsPrices fuel r) (hm' : m.process fuel r = .ok m') :
    ∃ os', ReflTransGen TradingSystem.Executes (m.client.withOrders os).system
      (m'.client.withOrders os').system ∧ Hosts m'.exchange os' := by
  obtain ⟨x', hx', hm'⟩ := bind_eq_ok.mp hm'
  cases hm'
  obtain ⟨v, call, others, hcall, hv, hfiled, -, hadmissible, hrests, hsent, hhosts⟩ :=
    h.process hfuel hkeeps hx'
  have hstart : Met 0 others (m.client.withOrders os).system
      (responsesTo 0 (responses v.sent)) v.instrumentId [] v :=
    ⟨rfl, hfiled, [], (List.append_nil _).symm, .start (hrests _ rfl).orders⟩
  have hmet := hstart.other_call hv hadmissible fun heq =>
    hne ((bookRequest_ids hcall).symm.trans heq)
  exact hhosts _ _ _ hmet hsent

/-- The client's own request is an answer, and executions. -/
theorem Hosts.serve (hfuel : maxNumOrders < fuel) (h : Hosts m.exchange os)
    (hq : m.client.system.engine.outgoingOgwRequests = q :: qs) (hclient : q.clientId = 0)
    (hexpected : q.Expected)
    (hfresh : q.type = .new → ∀ o ∈ os, q.orderId ≠ o.clientOrderId)
    (hkeeps : m.exchange.KeepsPrices fuel q) (hm' : m.step fuel ar algo cfg .serve = .ok m') :
    ∃ id os', ReflTransGen TradingSystem.Executes ((m.client.withOrders os).system.answer id)
      (m'.client.withOrders os').system ∧ Hosts m'.exchange os' := by
  simp only [step, hq] at hm'
  obtain ⟨x', hx', hm'⟩ := bind_eq_ok.mp hm'
  cases hm'
  obtain ⟨v, call, others, hcall, hv, hfiled, hinstrument, hadmissible, hrests, hsent, hhosts⟩ :=
    h.process hfuel hkeeps hx'
  have hrests := hrests (m.client.withOrders os).system rfl
  obtain ⟨r, hanswers, hmet⟩ : ∃ r,
      Answers (m.client.withOrders os).system qs r
        ((m.client.withOrders os).system.answer v.nextMarketOrderId) ∧
      Met 0 others ((m.client.withOrders os).system.answer v.nextMarketOrderId)
        (responsesTo 0 (responses v.sent) ++ [r]) v.instrumentId [] (v.call call) := by
    rcases hexpected with hcancel | ⟨hnew, -⟩
    · rw [ClientRequestInternal.bookRequest, hcancel] at hcall
      obtain rfl := Option.some.inj hcall
      rw [hclient]
      exact hrests.cancel hv hfiled (by decide) hq hclient hinstrument.symm hcancel _
    · rw [ClientRequestInternal.bookRequest, if_pos hnew] at hcall
      obtain rfl := Option.some.inj hcall
      refine hrests.new hv hfiled hq hclient hinstrument.symm hnew (fun o ho hc => ?_) hadmissible
      have hmem : o.resting ∈ os := hrests.orders.mem_iff.mpr (List.mem_append_left _
        (List.mem_filter.mpr ⟨List.mem_map_of_mem ho, decide_eq_true hc⟩))
      exact (hfresh hnew _ hmem).symm
  obtain ⟨rs, hrs, -⟩ := hmet.meets
  obtain ⟨os', hruns, hhosts'⟩ := hhosts _ _ _ hmet hrs
  refine ⟨v.nextMarketOrderId, os', ?_, hhosts'⟩
  have htold : responsesTo 0 (m.exchange.engine.reply x'.engine q) = r :: rs := by
    rw [hsent, List.append_assoc] at hrs
    exact List.append_cancel_left hrs
  have hafter := (congrArg (TradingSystem.after · rs os') hanswers).trans
    (TradingSystem.after_after _ _ _ _ _)
  rw [hafter, List.singleton_append, ← htold] at hruns
  exact hruns

/-- The client at the exchange is the client with the model of it. -/
theorem client_reached (hfuel : maxNumOrders < fuel)
    (h : Reached (step fuel ar algo cfg) (Admits fuel) (create riskCfg) es m)
    (hids : m.client.ordersSent ≤ 2 ^ 64) : ∃ cs os,
      Reached (TradingClient.step fuel ar algo cfg) (fun _ _ => True) (.create riskCfg) cs
        (m.client.withOrders os) ∧ Hosts m.exchange os := by
  induction h with
  | start => exact ⟨[], [], .start, create_hosts⟩
  | @call _ m m' e before admitted returns ih =>
    cases e with
    | update =>
      simp only [step] at returns
      cases hu : m.exchange.stream[m.client.seen.length]? with
      | none =>
        rw [hu] at returns
        cases returns
        exact ih hids
      | some u =>
        rw [hu] at returns
        obtain ⟨client, hclient, hm'⟩ := bind_eq_ok.mp returns
        cases hm'
        obtain ⟨new, hsent⟩ := (TradingClient.market_withOrders hclient []).2.1
        have hle := hids
        rw [TradingClient.ordersSent_append hsent.symm] at hle
        obtain ⟨cs, os, hcs, hhosts⟩ := ih ((Nat.le_add_right _ _).trans hle)
        exact ⟨_, os, hcs.call trivial (TradingClient.market_withOrders hclient os).1, hhosts⟩
    | read =>
      obtain ⟨client, hclient, hm'⟩ := bind_eq_ok.mp returns
      cases hm'
      have hsent : client.ordersSent = m.client.ordersSent := by
        obtain ⟨system, -, hclient⟩ := bind_eq_ok.mp hclient
        cases hclient
        rfl
      obtain ⟨cs, os, hcs, hhosts⟩ := ih (hsent ▸ hids)
      exact ⟨_, os, hcs.call trivial (TradingClient.read_withOrders hclient os), hhosts⟩
    | serve =>
      cases hq : m.client.system.engine.outgoingOgwRequests with
      | nil =>
        simp only [step, hq] at returns
        cases returns
        exact ih hids
      | cons q qs =>
        have hsent : m'.client.ordersSent = m.client.ordersSent := by
          simp only [step, hq] at returns
          obtain ⟨x', -, hm'⟩ := bind_eq_ok.mp returns
          cases hm'
          rfl
        obtain ⟨cs, os, hcs, hhosts⟩ := ih (hsent ▸ hids)
        have hsound := TradingClient.sound_reached hcs
        obtain ⟨rs, hsystem, -⟩ := TradingClient.system_reached hcs
        have hnumbered := TradingClient.numbered_reached hcs (hsent ▸ hids)
        have hmem : q ∈ (m.client.withOrders os).system.engine.outgoingOgwRequests :=
          hq ▸ List.mem_cons_self
        have hclient : q.clientId = 0 := by
          obtain ⟨s, hs, rfl⟩ := hsound.requests q hmem
          exact (hsound.sent s hs).client
        obtain ⟨id, os', hruns, hhosts'⟩ := hhosts.serve hfuel hq hclient
          ((TradingSystem.orderly_reached hsystem).requests q hmem)
          (fun hnew o ho => (hnumbered.orders o ho).2 q hmem hnew)
          (admitted q (by rw [hq]; rfl)) returns
        obtain ⟨cs', hcs'⟩ := TradingClient.reached_executed
          (hcs.call (r := .answer id) trivial rfl) hruns
        simp only [step, hq] at returns
        obtain ⟨x', -, hm'⟩ := bind_eq_ok.mp returns
        cases hm'
        exact ⟨cs', os', hcs', hhosts'⟩
    | other r =>
      have hsent : m'.client.ordersSent = m.client.ordersSent := by
        obtain ⟨x', -, hm'⟩ := bind_eq_ok.mp returns
        cases hm'
        rfl
      obtain ⟨cs, os, hcs, hhosts⟩ := ih (hsent ▸ hids)
      obtain ⟨os', hruns, hhosts'⟩ := hhosts.other hfuel admitted.1 admitted.2 returns
      obtain ⟨cs', hcs'⟩ := TradingClient.reached_executed hcs hruns
      obtain ⟨x', -, hm'⟩ := bind_eq_ok.mp returns
      cases hm'
      exact ⟨cs', os', hcs', hhosts'⟩

theorem prefix_next {us vs : List MarketUpdate} {u : MarketUpdate} (h : us <+: vs)
    (hu : vs[us.length]? = some u) : us ++ [u] <+: vs := by
  obtain ⟨ws, rfl⟩ := h
  rw [List.getElem?_append_right (Nat.le_refl _), Nat.sub_self] at hu
  obtain ⟨rest, rfl⟩ : ∃ rest, ws = u :: rest :=
    List.head?_eq_some_iff.mp (List.head?_eq_getElem? ▸ hu)
  exact ⟨rest, by rw [List.append_assoc]; rfl⟩

/-- The exchange goes through the requests it is given, and the client reads the stream. -/
theorem exchange_reached (h : Reached (step fuel ar algo cfg) (Admits fuel) (create riskCfg) es m) :
    (∃ rs, Reached (Exchange.processClientRequest fuel) (Exchange.KeepsPrices fuel) .create rs
      m.exchange) ∧ m.client.seen <+: m.exchange.stream := by
  have hprocess {m m' : Marketplace} {r : ClientRequestInternal}
      (hm' : m.process fuel r = .ok m') (hkeeps : m.exchange.KeepsPrices fuel r)
      (ih : (∃ rs, Reached (Exchange.processClientRequest fuel) (Exchange.KeepsPrices fuel)
        .create rs m.exchange) ∧ m.client.seen <+: m.exchange.stream) :
      (∃ rs, Reached (Exchange.processClientRequest fuel) (Exchange.KeepsPrices fuel) .create rs
        m'.exchange) ∧ m'.client.seen <+: m'.exchange.stream := by
    obtain ⟨⟨rs, hrs⟩, hseen⟩ := ih
    obtain ⟨x', hx', hm'⟩ := bind_eq_ok.mp hm'
    cases hm'
    refine ⟨⟨_, hrs.call hkeeps hx'⟩, hseen.trans ?_⟩
    obtain ⟨engine, -, hx'⟩ := bind_eq_ok.mp hx'
    cases hx'
    exact List.prefix_append _ _
  induction h with
  | start => exact ⟨⟨[], .start⟩, List.prefix_rfl⟩
  | @call _ m m' e _ admitted returns ih =>
    cases e with
    | update =>
      simp only [step] at returns
      cases hu : m.exchange.stream[m.client.seen.length]? with
      | none =>
        rw [hu] at returns
        cases returns
        exact ih
      | some u =>
        rw [hu] at returns
        obtain ⟨client, hclient, hm'⟩ := bind_eq_ok.mp returns
        cases hm'
        refine ⟨ih.1, ?_⟩
        rw [(TradingClient.market_withOrders hclient []).2.2]
        exact prefix_next ih.2 hu
    | read =>
      obtain ⟨client, hclient, hm'⟩ := bind_eq_ok.mp returns
      cases hm'
      obtain ⟨system, -, hclient⟩ := bind_eq_ok.mp hclient
      cases hclient
      exact ih
    | serve =>
      cases hq : m.client.system.engine.outgoingOgwRequests with
      | nil =>
        simp only [step, hq] at returns
        cases returns
        exact ih
      | cons q qs =>
        simp only [step, hq] at returns
        exact hprocess returns (admitted q (by rw [hq]; rfl)) ih
    | other r => exact hprocess returns admitted.2 ih

section Places
variable {i : Nat} {side : Side} {v : BookView} {p : OrderPtr}

theorem mem_ordersAt (hr : Represents (m.exchange.engine.instrumentOrderBooks i) v)
    (hv : v.Valid) : p ∈ m.ordersAt i side ↔
      ∃ o ∈ v.orders, o.handle = p ∧ o.clientId = 0 ∧ o.side = side := by
  constructor
  · rintro ⟨hp, hc, hside⟩
    obtain ⟨o, ho, rfl⟩ := List.mem_map.mp ((mem_resting_iff hr hv).mp hp)
    have hfields := hr.fields ho
    rw [hfields] at hc hside
    exact ⟨o, ho, rfl, hc, hside⟩
  · rintro ⟨o, ho, rfl, hc, hside⟩
    refine ⟨(mem_resting_iff hr hv).mpr (List.mem_map_of_mem ho), ?_⟩
    rw [hr.fields ho]
    exact ⟨hc, hside⟩

/-- The orders of a place in the model are those of the client in the book. -/
theorem mem_working (hi : i < maxNumInstruments) (hfiled : v.Filed 0)
    (hinstrument : v.instrumentId = UInt8.ofNat i)
    (hperm : (os.filter fun o => o.instrumentId = UInt8.ofNat i).Perm
      (ordersOf 0 (v.orders.map OrderView.resting)))
    (hos : ∀ x ∈ os, Traded x.side) (hside : Traded side) {x : VenueOrder} :
    x ∈ working i (sideToIndex side) os ↔
      ∃ o ∈ v.orders, o.resting = x ∧ o.clientId = 0 ∧ o.side = side := by
  have hname : (UInt8.ofNat i).toNat = i := by
    rw [UInt8.toNat_ofNat']
    exact Nat.mod_eq_of_lt (Nat.lt_trans hi (by decide))
  constructor
  · intro hx
    obtain ⟨hx, hplaced⟩ := List.mem_filter.mp hx
    obtain ⟨hxi, hxside⟩ := of_decide_eq_true hplaced
    have hmem := hperm.mem_iff.mp (List.mem_filter.mpr ⟨hx, decide_eq_true
      (UInt8.toNat_inj.mp (hxi.trans hname.symm))⟩)
    obtain ⟨hmem, hc⟩ := List.mem_filter.mp hmem
    obtain ⟨o, ho, rfl⟩ := List.mem_map.mp hmem
    exact ⟨o, ho, rfl, of_decide_eq_true hc, (hos _ hx).eq_of_index hside hxside⟩
  · rintro ⟨o, ho, rfl, hc, rfl⟩
    have hmem := hperm.mem_iff.mpr (List.mem_filter.mpr
      ⟨List.mem_map_of_mem ho, decide_eq_true hc⟩)
    refine List.mem_filter.mpr ⟨(List.mem_filter.mp hmem).1, decide_eq_true ⟨?_, rfl⟩⟩
    exact (congrArg UInt8.toNat ((hfiled.instrument o ho hc).trans hinstrument)).trans hname

end Places

/-- With nothing on the way a place says what rests. -/
theorem agrees_settled {o : OmOrder} {xs : List VenueOrder} (h : Agrees o [] [] xs) :
    (o.orderState = .invalid ∨ o.orderState = .dead) ∧ xs = [] ∨
      o.orderState = .live ∧ (o.qty = 0 ∧ xs = [] ∨ ∃ x, xs = [x] ∧ x.leavesQty = o.qty) := by
  cases h with
  | idle state => exact .inl ⟨state, rfl⟩
  | live state left =>
    refine .inr ⟨state, ?_⟩
    generalize o.qty = qty at left
    cases left with
    | empty => exact .inl ⟨rfl, rfl⟩
    | resting named left => exact .inr ⟨_, rfl, left⟩

/-- Until the ids of an instrument run out of the table, nothing that the exchange tells the client
stops it. -/
theorem loop_completes (hfuel : maxNumOrders < fuel)
    (h : Reached (step fuel ar algo cfg) (Admits fuel) (create riskCfg) es m)
    (hids : m.client.ordersSent ≤ 2 ^ 64)
    (haccepts : ∀ i < maxNumInstruments,
      accepts (m.exchange.engine.instrumentOrderBooks i).sent < maxNumOrders) :
    (∃ m', m.step fuel ar algo cfg .update = .ok m') ∧
      ∃ m', m.step fuel ar algo cfg .read = .ok m' := by
  obtain ⟨cs, os, hcs, -⟩ := client_reached hfuel h hids
  have hsound := TradingClient.sound_reached hcs
  obtain ⟨⟨rs, hrs⟩, hseen⟩ := exchange_reached h
  have hlt : ∀ i < maxNumInstruments,
      accepts (m.exchange.engine.instrumentOrderBooks i).sent < 2 ^ 64 :=
    fun i hi => Nat.lt_trans (haccepts i hi) (by decide)
  constructor
  · rw [step]
    cases hu : m.exchange.stream[m.client.seen.length]? with
    | none => exact ⟨m, rfl⟩
    | some u =>
      have hnext := prefix_next hseen hu
      have hfits : (m.client.withOrders os).Fits (.market u) := by
        refine ⟨fun w hw => ?_, fun i hi => ?_⟩
        · have hw := hnext.subset hw
          have hname := Exchange.stream_named hrs w hw
          refine ⟨hname, fun hadd => ?_⟩
          obtain ⟨hbook, hstream⟩ := Exchange.books_reached hrs _ hname
          obtain ⟨v, hr, hpublished⟩ := keepsPrices_published hfuel hbook (hlt _ hname)
          rw [UInt8.ofNat_toNat, hr.sent] at hstream
          have hborn := hpublished.born w (hstream ▸ List.mem_filter.mpr ⟨hw, by simp⟩) hadd
          exact Nat.lt_of_le_of_lt (hborn.toNat_le (hlt _ hname)) (haccepts _ hname)
        · change PublicBook.AdmitsAll .empty (ofInstrument _ (m.client.seen ++ [u]))
          rw [List.prefix_iff_eq_take.mp hnext]
          exact admitsAll_take (Exchange.stream_shows hfuel hrs hi (hlt i hi)).1 _
      obtain ⟨c', hc'⟩ := (hsound.completes_iff _).mpr (hsound.takes hfuel hfits)
      have hclient := (TradingClient.market_withOrders hc' m.client.system.orders).1
      change m.client.step fuel ar algo cfg (.market u) = _ at hclient
      refine ⟨{ m with client := c'.withOrders m.client.system.orders }, ?_⟩
      dsimp only
      rw [hclient, ok_bind]
  · obtain ⟨c', hc'⟩ := (hsound.completes_iff .read).mpr trivial
    have hclient := TradingClient.read_withOrders hc' m.client.system.orders
    change m.client.step fuel ar algo cfg .read = _ at hclient
    exact ⟨_, by rw [step, hclient, ok_bind]⟩

/-- At any moment an order of the client that is in the book is alone on its side, is the one that
the order manager keeps in its place, and was sent by the rule; if nothing is on the way the place
says exactly what is in the book; and the client reads on until ids leave its table. -/
theorem places_show_books (hfuel : maxNumOrders < fuel)
    (h : Reached (step fuel ar algo cfg) (Admits fuel) (create riskCfg) es m)
    (hids : m.client.ordersSent ≤ 2 ^ 64) :
    (∃ cs os, Reached (TradingClient.step fuel ar algo cfg) (fun _ _ => True) (.create riskCfg) cs
      (m.client.withOrders os)) ∧
    m.client.seen <+: m.exchange.stream ∧
    (∀ i < maxNumInstruments, ∀ side, Traded side →
      (∀ p ∈ m.ordersAt i side, m.Manages fuel algo cfg i
        ((m.exchange.engine.instrumentOrderBooks i).order p).toOrderFields) ∧
      (m.ordersAt i side).Subsingleton ∧
      (m.client.system.engine.outgoingOgwRequests = [] →
        m.client.system.engine.incomingOgwResponses = [] → m.Settled i side)) ∧
    ((∀ i < maxNumInstruments,
        accepts (m.exchange.engine.instrumentOrderBooks i).sent < maxNumOrders) →
      (∃ m', m.step fuel ar algo cfg .update = .ok m') ∧
        ∃ m', m.step fuel ar algo cfg .read = .ok m') := by
  obtain ⟨cs, os, hcs, hhosts⟩ := client_reached hfuel h hids
  refine ⟨⟨cs, os, hcs⟩, (exchange_reached h).2, fun i hi side hside => ?_,
    loop_completes hfuel h hids⟩
  obtain ⟨rs, hsystem, -⟩ := TradingClient.system_reached hcs
  have horderly := TradingSystem.orderly_reached hsystem
  have hsound := TradingClient.sound_reached hcs
  obtain ⟨v, hr, hv, hfiled, hinstrument, hperm⟩ := hhosts.books i hi
  have hworking {x : VenueOrder} :=
    mem_working (x := x) hi hfiled hinstrument hperm horderly.orders hside
  have hagrees : Agrees (m.place i side) (asked i (sideToIndex side)
      m.client.system.engine.outgoingOgwRequests) (answers i (sideToIndex side)
      m.client.system.engine.incomingOgwResponses) (working i (sideToIndex side) os) :=
    horderly.consistent i (sideToIndex side)
  refine ⟨fun p hp => ?_, fun p hp p' hp' => ?_, fun hout hin => ?_⟩
  · obtain ⟨o, ho, rfl, hc, rfl⟩ := (mem_ordersAt hr hv).mp hp
    have hx := hworking.mpr ⟨o, ho, rfl, hc, rfl⟩
    rw [hr.fields ho]
    obtain ⟨s, hs, hfor⟩ := hsound.orders _ (List.mem_filter.mp hx).1
    exact ⟨hagrees.open_of_any (.inr (List.ne_nil_of_mem hx)), hagrees.named.2 _ hx, s, hs,
      hsound.sent s hs, hsound.shown s hs, hfor.type, hfor.orderId, hfor.side, hfor.price⟩
  · obtain ⟨o, ho, rfl, hc, hside₁⟩ := (mem_ordersAt hr hv).mp hp
    obtain ⟨o', ho', rfl, hc', hside₂⟩ := (mem_ordersAt hr hv).mp hp'
    have hid := (hagrees.named.2 _ (hworking.mpr ⟨o, ho, rfl, hc, hside₁⟩)).1
    have hid' := (hagrees.named.2 _ (hworking.mpr ⟨o', ho', rfl, hc', hside₂⟩)).1
    rw [hfiled.eq_of_id hv ho ho' hc hc' (hid.trans hid'.symm)]
  · rw [hout, hin] at hagrees
    have hnothing (hnone : working i (sideToIndex side) os = []) (p : OrderPtr) :
        p ∉ m.ordersAt i side := by
      intro hp
      obtain ⟨o, ho, -, hown⟩ := (mem_ordersAt hr hv).mp hp
      have hx := hworking.mpr ⟨o, ho, rfl, hown⟩
      rw [hnone] at hx
      cases hx
    rcases agrees_settled hagrees with ⟨state, hnone⟩ | ⟨state, ⟨hqty, hnone⟩ | ⟨x, hone, hqty⟩⟩
    · refine ⟨state.imp_right .inl, fun p hp => absurd hp (hnothing hnone p), fun hlive => ?_⟩
      rcases state with state | state <;> rw [state] at hlive <;> cases hlive
    · exact ⟨.inr (.inr state), fun p hp => absurd hp (hnothing hnone p),
        fun _ hne => absurd hqty hne⟩
    · refine ⟨.inr (.inr state), fun p hp => ?_, fun _ _ => ?_⟩
      · obtain ⟨o, ho, rfl, hown⟩ := (mem_ordersAt hr hv).mp hp
        have hx := hworking.mpr ⟨o, ho, rfl, hown⟩
        rw [hone] at hx
        rw [hr.fields ho, ← hqty, ← List.mem_singleton.mp hx]
        exact ⟨state, rfl⟩
      · obtain ⟨o, ho, -, hown⟩ := hworking.mp (hone ▸ List.mem_singleton_self x)
        exact ⟨o.handle, (mem_ordersAt hr hv).mpr ⟨o, ho, rfl, hown⟩⟩

/-- The bid at 9 is filled by another client, the ask at 14 rests behind the others. -/
theorem places_show_books_sample : ∃ m,
    Reached (step 3000 TradingClient.exactArithmetic .maker fun _ => ⟨1, .finite 2⟩) (Admits 3000)
      (create TradingSystem.fiveLots)
      [.other ⟨.new, 1, 0, 1, .buy, 10, 3⟩, .other ⟨.new, 2, 0, 1, .sell, 14, 5⟩,
        .other ⟨.new, 1, 0, 2, .buy, 10, 2⟩, .other ⟨.new, 2, 0, 2, .sell, 14, 2⟩, .update, .update,
        .update, .update, .serve, .serve, .read, .read, .other ⟨.new, 2, 0, 3, .sell, 9, 6⟩,
        .read] m ∧
    ((m.place 0 .buy).orderState = .dead ∧ (m.place 0 .sell).orderState = .live) ∧
    (m.ordersAt 0 .sell).Subsingleton ∧ m.Settled 0 .buy ∧ m.Settled 0 .sell := by
  obtain ⟨m, hm, hcheck⟩ := @reached_of_any _ _ _
    (step 3000 TradingClient.exactArithmetic .maker fun _ => ⟨1, .finite 2⟩) (Admits 3000)
    (create TradingSystem.fiveLots)
    [.other ⟨.new, 1, 0, 1, .buy, 10, 3⟩, .other ⟨.new, 2, 0, 1, .sell, 14, 5⟩,
      .other ⟨.new, 1, 0, 2, .buy, 10, 2⟩, .other ⟨.new, 2, 0, 2, .sell, 14, 2⟩, .update, .update,
      .update, .update, .serve, .serve, .read, .read, .other ⟨.new, 2, 0, 3, .sell, 9, 6⟩, .read] _
    (fun m => ((m.place 0 .buy).orderState = .dead ∧ (m.place 0 .sell).orderState = .live) ∧
      m.client.system.engine.outgoingOgwRequests = [] ∧
      m.client.system.engine.incomingOgwResponses = [] ∧ m.client.ordersSent = 2)
    (by decide +kernel)
  obtain ⟨hplaces, hout, hin, hsent⟩ := of_decide_eq_true hcheck
  obtain ⟨-, -, hrests, -⟩ := places_show_books (by decide) hm (by rw [hsent]; decide)
  obtain ⟨-, -, hbuy⟩ := hrests 0 (by decide) .buy (by decide)
  obtain ⟨-, hone, hsell⟩ := hrests 0 (by decide) .sell (by decide)
  exact ⟨m, hm, hplaces, hone, hbuy hout hin, hsell hout hin⟩

end Runs

end Marketplace

end StockExchange
