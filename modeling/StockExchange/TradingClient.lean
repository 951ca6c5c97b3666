import StockExchange.Clearing
import StockExchange.InDoubt
import StockExchange.LateJoiner

/-!
# The trading client

The loop of `trade_engine::run` reads responses and market updates. An update changes the book of
its instrument, then the features, and then the orders: the market maker quotes on both sides of
the best prices whenever the book changes, the liquidity taker follows a large trade. What the
`double` arithmetic yields is left open, and so is what the exchange does with the orders.
-/

namespace StockExchange

open Replay Transitions

/-- `x != y`: a NaN differs from everything. -/
def Double.differs : Double → Double → Bool
  | .nan, _ => true
  | _, .nan => true
  | x, y => x ≠ y

/-- What conversions and operations on `double` yield, rounded as it may be. -/
structure DoubleArithmetic where
  ofInt : Int → Double
  sub : Double → Double → Double
  div : Double → Double → Double
  atLeast : Double → Double → Bool

def Bbo.quoted (b : Bbo) : Bool := b.bidPrice ≠ invalidPrice ∧ b.askPrice ≠ invalidPrice

structure FeatureEngine where
  marketPrice : Double
  aggTradeQtyRatio : Double

namespace FeatureEngine

def create : FeatureEngine := ⟨.nan, .nan⟩

def onOrderBookUpdate (ar : DoubleArithmetic) (f : FeatureEngine) (bbo : Bbo) : FeatureEngine :=
  if bbo.quoted then
    let weighted := bbo.bidPrice * bbo.askQty.toUInt64.toInt64 +
      bbo.askPrice * bbo.bidQty.toUInt64.toInt64
    let totalQty := bbo.bidQty + bbo.askQty
    { f with marketPrice := ar.div (ar.ofInt weighted.toInt) (ar.ofInt totalQty.toNat) }
  else f

def onTradeUpdate (ar : DoubleArithmetic) (f : FeatureEngine) (u : MarketUpdate) (bbo : Bbo) :
    FeatureEngine :=
  if bbo.quoted then
    let oppositeQty := if u.side = .buy then bbo.askQty else bbo.bidQty
    { f with aggTradeQtyRatio := ar.div (ar.ofInt u.qty.toNat) (ar.ofInt oppositeQty.toNat) }
  else f

end FeatureEngine

/-- The algorithms that send orders. -/
inductive Algo where
  | maker
  | taker
deriving DecidableEq

/-- `trade_engine_config` without the limits of the risk manager. -/
structure TradeEngineConfig where
  clip : Quantity
  threshold : Double

/-- `market_maker::on_order_book_update`: the bid and the ask for `move_orders`. -/
def makerQuotes (ar : DoubleArithmetic) (cfg : TradeEngineConfig) (f : FeatureEngine) (bbo : Bbo) :
    Option (Price × Price) :=
  let fairPrice := f.marketPrice
  if bbo.quoted ∧ fairPrice.differs .nan then
    some
      (bbo.bidPrice - (if ar.atLeast (ar.sub fairPrice (ar.ofInt bbo.bidPrice.toInt)) cfg.threshold
        then 0 else 1),
      bbo.askPrice + (if ar.atLeast (ar.sub (ar.ofInt bbo.askPrice.toInt) fairPrice) cfg.threshold
        then 0 else 1))
  else none

/-- `liquidity_taker::on_trade_update`: the bid and the ask for `move_orders`. -/
def takerQuotes (ar : DoubleArithmetic) (cfg : TradeEngineConfig) (f : FeatureEngine) (bbo : Bbo)
    (u : MarketUpdate) : Option (Price × Price) :=
  let aggQtyRatio := f.aggTradeQtyRatio
  if bbo.quoted ∧ aggQtyRatio.differs .nan then
    if ar.atLeast aggQtyRatio cfg.threshold then
      some (if u.side = .buy then (bbo.askPrice, invalidPrice) else (invalidPrice, bbo.bidPrice))
    else none
  else none

/-- `position_keeper::update_bbo`. -/
def TradeEngine.updateBbo (e : TradeEngine) (instrument : Nat) (bbo : Bbo) : TradeEngine :=
  { e with
    instrumentPosition := Function.update e.instrumentPosition instrument
      ((e.instrumentPosition instrument).updateBbo bbo) }

/-- A request with the best prices shown when it was sent, and the update that led to it. -/
structure SentRequest where
  shown : Bbo
  update : MarketUpdate
  request : ClientRequestInternal

/-- The trade engine with its books and features, and the exchange as it meets it. `seen` are the
market updates read so far, `sent` the requests sent. -/
structure TradingClient where
  system : TradingSystem
  books : InstrumentOrderBooks
  features : FeatureEngine
  seen : List MarketUpdate
  sent : List SentRequest

/-- The loop reads a market update or a response; the exchange answers a request or executes an
order. -/
inductive ClientStep where
  | market (u : MarketUpdate)
  | read
  | answer (marketOrderId : OrderId)
  | fill (n : Nat) (price : Price) (execQty : Quantity)

/-- The steps that do not move orders. -/
def ClientStep.venue : ClientStep → List TradingStep
  | .market _ => []
  | .read => [.read]
  | .answer marketOrderId => [.answer marketOrderId]
  | .fill n price execQty => [.fill n price execQty]

def TradingStep.venue : TradingStep → List TradingStep
  | .moveOrders _ _ _ _ => []
  | r => [r]

namespace TradingClient

def create (riskCfg : Nat → RiskConfig) : TradingClient :=
  ⟨.create riskCfg, .create, .create, [], []⟩

/-- `move_orders`, if the algorithm calls it; the requests are noted. -/
def moveOrders (c : TradingClient) (u : MarketUpdate) (bbo : Bbo) (clip : Quantity) :
    Option (Price × Price) → Except Fault TradingClient
  | none => .ok c
  | some (bidPrice, askPrice) =>
    c.system.engine.moveOrders u.instrumentId bidPrice askPrice clip >>= fun engine =>
      .ok { c with
        system := { c.system with engine := engine }
        sent := c.sent ++ (engine.outgoingOgwRequests.drop
          c.system.engine.outgoingOgwRequests.length).map (⟨bbo, u, ·⟩) }

/-- `trade_engine::on_order_book_update`. The taker does nothing here. -/
def onOrderBookUpdate (ar : DoubleArithmetic) (algo : Algo) (cfg : Nat → TradeEngineConfig)
    (c : TradingClient) (u : MarketUpdate) (i : Nat) (bbo : Bbo) : Except Fault TradingClient :=
  let c := { c with
    system := { c.system with engine := c.system.engine.updateBbo i bbo }
    features := c.features.onOrderBookUpdate ar bbo }
  match algo with
  | .maker => c.moveOrders u bbo (cfg i).clip (makerQuotes ar (cfg i) c.features bbo)
  | .taker => .ok c

/-- `trade_engine::on_trade_update`. The maker does nothing here. -/
def onTradeUpdate (ar : DoubleArithmetic) (algo : Algo) (cfg : Nat → TradeEngineConfig)
    (c : TradingClient) (u : MarketUpdate) (i : Nat) (bbo : Bbo) : Except Fault TradingClient :=
  let c := { c with features := c.features.onTradeUpdate ar u bbo }
  match algo with
  | .maker => .ok c
  | .taker => c.moveOrders u bbo (cfg i).clip (takerQuotes ar (cfg i) c.features bbo u)

/-- A market update is read: the book calls the engine back, with its best prices as they are
then. -/
def onMarketUpdate (fuel : Nat) (ar : DoubleArithmetic) (algo : Algo)
    (cfg : Nat → TradeEngineConfig) (c : TradingClient) (u : MarketUpdate) :
    Except Fault TradingClient := do
  let i ← instrumentAt u.instrumentId
  let books ← c.books.onMarketUpdate fuel u
  let c := { c with books := books, seen := c.seen ++ [u] }
  let bbo := (books.instrumentOrderBook i).bbo
  if u.type = .trade then c.onTradeUpdate ar algo cfg u i bbo
  else c.onOrderBookUpdate ar algo cfg u i bbo

def step (fuel : Nat) (ar : DoubleArithmetic) (algo : Algo) (cfg : Nat → TradeEngineConfig)
    (c : TradingClient) : ClientStep → Except Fault TradingClient
  | .market u => c.onMarketUpdate fuel ar algo cfg u
  | .read => c.system.step .read >>= fun system => .ok { c with system := system }
  | .answer marketOrderId => .ok { c with system := c.system.answer marketOrderId }
  | .fill n price execQty => .ok { c with system := c.system.fill n price execQty }

end TradingClient

/-! ## What is sent -/

/-- The bids and asks of an algorithm. The maker quotes at the best prices or one tick behind them
when the book has changed; the taker bids the best ask, or asks the best bid, after a trade. -/
def Algo.Quotes (bbo : Bbo) (u : MarketUpdate) (bidPrice askPrice : Price) : Algo → Prop
  | .maker => u.type ≠ .trade ∧ (bidPrice = bbo.bidPrice ∨ bidPrice = bbo.bidPrice - 1) ∧
    (askPrice = bbo.askPrice ∨ askPrice = bbo.askPrice + 1)
  | .taker => u.type = .trade ∧
    (u.side = .buy ∧ bidPrice = bbo.askPrice ∧ askPrice = invalidPrice ∨
      u.side ≠ .buy ∧ bidPrice = invalidPrice ∧ askPrice = bbo.bidPrice)

/-- The best prices were those of the book of the instrument right after the update. -/
def SentRequest.ReadFrom (fuel : Nat) (seen : List MarketUpdate) (s : SentRequest) : Prop :=
  ∃ us books, us ++ [s.update] <+: seen ∧
    InstrumentOrderBooks.create.run fuel (us ++ [s.update]) = .ok books ∧
    s.shown = (books.instrumentOrderBook s.update.instrumentId.toNat).bbo

/-- With a bid and an ask shown, client 0 sent a request for the instrument of the update, and a
new order is one side of what the algorithm quotes. -/
structure SentRequest.ByRule (algo : Algo) (cfg : Nat → TradeEngineConfig) (s : SentRequest) :
    Prop where
  client : s.request.clientId = 0
  instrument : s.request.instrumentId = s.update.instrumentId
  bound : s.request.instrumentId.toNat < maxNumInstruments
  quoted : s.shown.quoted
  priced : s.request.type = .new → s.request.qty = (cfg s.update.instrumentId.toNat).clip ∧
    s.request.price ≠ invalidPrice ∧ ∃ bidPrice askPrice,
      algo.Quotes s.shown s.update bidPrice askPrice ∧
      (s.request.side = .buy ∧ s.request.price = bidPrice ∨
        s.request.side = .sell ∧ s.request.price = askPrice)

section Quotes
variable {ar : DoubleArithmetic} {cfg : TradeEngineConfig} {f : FeatureEngine} {bbo : Bbo}
  {u : MarketUpdate} {bidPrice askPrice : Price}

theorem quotes_maker (hu : u.type ≠ .trade)
    (h : makerQuotes ar cfg f bbo = some (bidPrice, askPrice)) :
    bbo.quoted ∧ Algo.maker.Quotes bbo u bidPrice askPrice := by
  simp only [makerQuotes] at h
  split at h
  · rename_i hquoted
    obtain ⟨rfl, rfl⟩ := Prod.mk.inj (Option.some.inj h)
    refine ⟨hquoted.1, hu, ?_, ?_⟩
    · split
      · exact .inl (Int64.sub_zero _)
      · exact .inr rfl
    · split
      · exact .inl (Int64.add_zero _)
      · exact .inr rfl
  · cases h

theorem quotes_taker (hu : u.type = .trade)
    (h : takerQuotes ar cfg f bbo u = some (bidPrice, askPrice)) :
    bbo.quoted ∧ Algo.taker.Quotes bbo u bidPrice askPrice := by
  simp only [takerQuotes] at h
  split at h
  · rename_i hquoted
    split at h
    · refine ⟨hquoted.1, hu, ?_⟩
      have hprices := Option.some.inj h
      split at hprices
      · rename_i hside
        obtain ⟨rfl, rfl⟩ := Prod.mk.inj hprices
        exact .inl ⟨hside, rfl, rfl⟩
      · rename_i hside
        obtain ⟨rfl, rfl⟩ := Prod.mk.inj hprices
        exact .inr ⟨hside, rfl, rfl⟩
    · cases h
  · cases h

end Quotes

namespace TradeEngine

section Moves
variable {e e' : TradeEngine} {i k : Nat} {instrumentId : InstrumentId} {price : Price}
  {side : Side} {qty : Quantity}

/-- Without fills the best prices change nothing of a position. -/
theorem updateBbo_default (h : e.instrumentPosition = fun _ => .default) (i : Nat) (bbo : Bbo) :
    e.updateBbo i bbo = e := by
  have hsame : PositionInfo.default.updateBbo bbo = .default := if_neg fun hne => hne.1 rfl
  rw [updateBbo, h, hsame, Function.update_eq_self i fun _ => PositionInfo.default, ← h]

/-- At most one request is sent for a place, and a new order is the one that was asked for. -/
theorem moveOrder_requests (hi : instrumentId.toNat = i)
    (hplaced : (e.instrumentSideOrder i k).Placed i k)
    (h : e.moveOrder i k instrumentId price side qty = .ok e') :
    ∃ new, e'.outgoingOgwRequests = e.outgoingOgwRequests ++ new ∧
      ∀ q ∈ new, q.clientId = 0 ∧ q.instrumentId.toNat = i ∧ (q.type = .new →
        q.qty = qty ∧ q.side = side ∧ q.price = price ∧ price ≠ invalidPrice) := by
  rcases moveOrder_cases hi h with ⟨-, rfl⟩ | ⟨hmoves, rfl⟩ | ⟨hsends, rfl⟩
  · exact ⟨[], (List.append_nil _).symm, List.forall_mem_nil _⟩
  · refine ⟨_, rfl, List.forall_mem_singleton.mpr ⟨rfl, ?_, fun hnew => by cases hnew⟩⟩
    exact (hplaced (.inr hmoves.1)).1.1
  · exact ⟨_, rfl, List.forall_mem_singleton.mpr ⟨rfl, hi, fun _ => ⟨rfl, rfl, rfl, hsends.price⟩⟩⟩

theorem moveOrders_requests {bidPrice askPrice : Price} {clip : Quantity}
    (hplaced : ∀ i k, (e.instrumentSideOrder i k).Placed i k)
    (h : e.moveOrders instrumentId bidPrice askPrice clip = .ok e') :
    ∃ new, e'.outgoingOgwRequests = e.outgoingOgwRequests ++ new ∧
      ∀ q ∈ new, q.clientId = 0 ∧ q.instrumentId = instrumentId ∧ (q.type = .new →
        q.qty = clip ∧ q.price ≠ invalidPrice ∧
          (q.side = .buy ∧ q.price = bidPrice ∨ q.side = .sell ∧ q.price = askPrice)) := by
  obtain ⟨e₁, hbid, hask⟩ := moveOrders_eq_ok h
  obtain ⟨bids, hbids, hbidRule⟩ := moveOrder_requests rfl (hplaced _ _) hbid
  have hplaced₁ : (e₁.instrumentSideOrder instrumentId.toNat (sideToIndex .sell)).Placed
      instrumentId.toNat (sideToIndex .sell) := by
    rw [moveOrder_other rfl hbid fun hsame => absurd hsame.2 (by decide)]
    exact hplaced _ _
  obtain ⟨asks, hasks, haskRule⟩ := moveOrder_requests rfl hplaced₁ hask
  refine ⟨bids ++ asks, by rw [hasks, hbids, List.append_assoc], fun q hq => ?_⟩
  rcases List.mem_append.mp hq with hq | hq
  · obtain ⟨hc, hi, hrule⟩ := hbidRule q hq
    refine ⟨hc, UInt8.toNat_inj.mp hi, fun hnew => ?_⟩
    obtain ⟨hqty, hside, rfl, hvalid⟩ := hrule hnew
    exact ⟨hqty, hvalid, .inl ⟨hside, rfl⟩⟩
  · obtain ⟨hc, hi, hrule⟩ := haskRule q hq
    refine ⟨hc, UInt8.toNat_inj.mp hi, fun hnew => ?_⟩
    obtain ⟨hqty, hside, rfl, hvalid⟩ := hrule hnew
    exact ⟨hqty, hvalid, .inr ⟨hside, rfl⟩⟩

theorem moveOrder_incoming (hi : instrumentId.toNat = i)
    (h : e.moveOrder i k instrumentId price side qty = .ok e') :
    e'.incomingOgwResponses = e.incomingOgwResponses := by
  rcases moveOrder_cases hi h with ⟨-, rfl⟩ | ⟨-, rfl⟩ | ⟨-, rfl⟩ <;> rfl

theorem moveOrder_ok (hi : instrumentId.toNat < maxNumInstruments) :
    ∃ e', e.moveOrder i k instrumentId price side qty = .ok e' := by
  have hplace : ∃ e', e.placeOrder i k instrumentId price side qty = .ok e' := by
    rw [placeOrder, instrumentAt, if_pos hi]
    split <;> exact ⟨_, rfl⟩
  simp only [moveOrder]
  cases (e.instrumentSideOrder i k).orderState with
  | invalid | dead => exact hplace
  | live | pendingModified | pendingNew | pendingCancel => exact ⟨_, rfl⟩

theorem moveOrders_ok (hi : instrumentId.toNat < maxNumInstruments) (bidPrice askPrice : Price)
    (clip : Quantity) : ∃ e', e.moveOrders instrumentId bidPrice askPrice clip = .ok e' := by
  obtain ⟨e₁, hbid⟩ := @moveOrder_ok e instrumentId.toNat (sideToIndex .buy) instrumentId bidPrice
    .buy clip hi
  obtain ⟨e', hask⟩ := @moveOrder_ok e₁ instrumentId.toNat (sideToIndex .sell) instrumentId askPrice
    .sell clip hi
  exact ⟨e', by rw [moveOrders, instrumentAt, if_pos hi, ok_bind, hbid, ok_bind, hask]⟩

end Moves

end TradeEngine

namespace TradingClient

section Steps
variable {fuel : Nat} {ar : DoubleArithmetic} {algo : Algo} {cfg : Nat → TradeEngineConfig}
  {c c' : TradingClient} {u : MarketUpdate} {bbo : Bbo}

/-- The orders are left as they are or moved once, to what the algorithm quotes. -/
inductive Moved (algo : Algo) (cfg : Nat → TradeEngineConfig) (c c' : TradingClient)
    (u : MarketUpdate) : Prop
  | stay (system : c'.system = c.system) (sent : c'.sent = c.sent)
  | move {bbo : Bbo} {bidPrice askPrice : Price} {engine : TradeEngine}
      (shown : bbo = (c'.books.instrumentOrderBook u.instrumentId.toNat).bbo) (quoted : bbo.quoted)
      (quotes : algo.Quotes bbo u bidPrice askPrice)
      (moves : c.system.engine.moveOrders u.instrumentId bidPrice askPrice
        (cfg u.instrumentId.toNat).clip = .ok engine)
      (system : c'.system = { c.system with engine := engine })
      (sent : c'.sent = c.sent ++ (engine.outgoingOgwRequests.drop
        c.system.engine.outgoingOgwRequests.length).map (⟨bbo, u, ·⟩))

theorem moveOrders_moved {c₁ : TradingClient} {quotes : Option (Price × Price)}
    (h : c₁.moveOrders u bbo (cfg u.instrumentId.toNat).clip quotes = .ok c')
    (hsystem : c₁.system = c.system) (hsent : c₁.sent = c.sent)
    (hshown : bbo = (c₁.books.instrumentOrderBook u.instrumentId.toNat).bbo)
    (hquotes : ∀ bidPrice askPrice, quotes = some (bidPrice, askPrice) →
      bbo.quoted ∧ algo.Quotes bbo u bidPrice askPrice) :
    Moved algo cfg c c' u ∧ c'.books = c₁.books ∧ c'.seen = c₁.seen := by
  cases quotes with
  | none =>
    cases h
    exact ⟨.stay hsystem hsent, rfl, rfl⟩
  | some quotes =>
    obtain ⟨engine, hengine, hc'⟩ := bind_eq_ok.mp h
    cases hc'
    rw [hsystem] at hengine
    obtain ⟨hquoted, hrule⟩ := hquotes _ _ rfl
    exact ⟨.move hshown hquoted hrule hengine (by rw [hsystem]) (by rw [hsent, hsystem]), rfl, rfl⟩

/-- What an update does to the books, and to the orders of an engine without fills. -/
theorem onMarketUpdate_cases (hflat : c.system.engine.instrumentPosition = fun _ => .default)
    (h : c.onMarketUpdate fuel ar algo cfg u = .ok c') :
    u.instrumentId.toNat < maxNumInstruments ∧ c.books.onMarketUpdate fuel u = .ok c'.books ∧
      c'.seen = c.seen ++ [u] ∧ Moved algo cfg c c' u := by
  obtain ⟨i, hi, h⟩ := bind_eq_ok.mp h
  obtain ⟨books, hbooks, h⟩ := bind_eq_ok.mp h
  obtain rfl := TradeEngine.instrumentAt_eq_ok hi
  have hlt : u.instrumentId.toNat < maxNumInstruments := by
    by_contra hge
    rw [instrumentAt, if_neg hge] at hi
    cases hi
  have hsame := TradeEngine.updateBbo_default hflat u.instrumentId.toNat
    (books.instrumentOrderBook u.instrumentId.toNat).bbo
  by_cases htrade : u.type = .trade
  · simp only [if_pos htrade, onTradeUpdate] at h
    cases algo with
    | maker =>
      cases h
      exact ⟨hlt, hbooks, rfl, .stay rfl rfl⟩
    | taker =>
      obtain ⟨hmoved, rfl, hseen⟩ :=
        moveOrders_moved (c := c) h rfl rfl rfl fun _ _ => quotes_taker htrade
      exact ⟨hlt, hbooks, hseen, hmoved⟩
  · simp only [if_neg htrade, onOrderBookUpdate, hsame] at h
    cases algo with
    | maker =>
      obtain ⟨hmoved, rfl, hseen⟩ :=
        moveOrders_moved (c := c) h rfl rfl rfl fun _ _ => quotes_maker htrade
      exact ⟨hlt, hbooks, hseen, hmoved⟩
    | taker =>
      cases h
      exact ⟨hlt, hbooks, rfl, .stay rfl rfl⟩

/-- The request asked for the order. -/
structure SentFor (s : SentRequest) (o : VenueOrder) : Prop where
  type : s.request.type = .new
  instrument : s.request.instrumentId = o.instrumentId
  orderId : s.request.orderId = o.clientOrderId
  side : s.request.side = o.side
  price : s.request.price = o.price

/-- The requests on the way, the orders at the exchange and the responses on the way go back to
requests that were sent by the rule. -/
structure Sound (fuel : Nat) (algo : Algo) (cfg : Nat → TradeEngineConfig) (c : TradingClient) :
    Prop where
  books : InstrumentOrderBooks.create.run fuel c.seen = .ok c.books
  sent : ∀ s ∈ c.sent, s.ByRule algo cfg
  shown : ∀ s ∈ c.sent, s.ReadFrom fuel c.seen
  requests : ∀ q ∈ c.system.engine.outgoingOgwRequests, ∃ s ∈ c.sent, s.request = q
  orders : ∀ o ∈ c.system.orders, ∃ s ∈ c.sent, SentFor s o
  responses : ∀ r ∈ c.system.engine.incomingOgwResponses,
    r.instrumentId.toNat < maxNumInstruments

theorem create_sound (riskCfg : Nat → RiskConfig) : (create riskCfg).Sound fuel algo cfg :=
  ⟨rfl, List.forall_mem_nil _, List.forall_mem_nil _, List.forall_mem_nil _,
    List.forall_mem_nil _, List.forall_mem_nil _⟩

theorem Sound.order_bound (h : c.Sound fuel algo cfg) {o : VenueOrder}
    (ho : o ∈ c.system.orders) : o.instrumentId.toNat < maxNumInstruments := by
  obtain ⟨s, hs, hfor⟩ := h.orders o ho
  exact hfor.instrument ▸ (h.sent s hs).bound

/-- The exchange answers requests that were sent, and its orders were sent. -/
theorem Sound.answer (h : c.Sound fuel algo cfg) (marketOrderId : OrderId) :
    Sound fuel algo cfg { c with system := c.system.answer marketOrderId } := by
  cases hq : c.system.engine.outgoingOgwRequests with
  | nil =>
    simp only [TradingSystem.answer, hq]
    exact h
  | cons q qs =>
    have hrequests := h.requests
    rw [hq] at hrequests
    obtain ⟨⟨s, hs, rfl⟩, hrest⟩ := List.forall_mem_cons.mp hrequests
    have hbound := (h.sent s hs).bound
    have hresponses {r : ClientResponseInternal} (hr : r.instrumentId.toNat < maxNumInstruments) :
        ∀ r' ∈ c.system.engine.incomingOgwResponses ++ [r],
          r'.instrumentId.toNat < maxNumInstruments := by
      intro r' hr'
      rcases List.mem_append.mp hr' with hr' | hr'
      · exact h.responses r' hr'
      · exact List.mem_singleton.mp hr' ▸ hr
    simp only [TradingSystem.answer, hq]
    by_cases hnew : s.request.type = .new
    · simp only [if_pos hnew, TradingSystem.accept]
      split
      · exact ⟨h.books, h.sent, h.shown, hrest, h.orders, hresponses hbound⟩
      · refine ⟨h.books, h.sent, h.shown, hrest, fun o ho => ?_, hresponses hbound⟩
        rcases List.mem_append.mp ho with ho | ho
        · exact h.orders o ho
        · cases List.mem_singleton.mp ho
          exact ⟨s, hs, hnew, rfl, rfl, rfl, rfl⟩
    · simp only [if_neg hnew, TradingSystem.cancel]
      cases hfind : c.system.orders.find? (TradingSystem.names s.request) with
      | none => exact ⟨h.books, h.sent, h.shown, hrest, h.orders, hresponses hbound⟩
      | some o =>
        have ho := List.mem_of_find?_eq_some hfind
        exact ⟨h.books, h.sent, h.shown, hrest,
          fun o' ho' => h.orders o' (List.mem_of_mem_eraseP ho'), hresponses (h.order_bound ho)⟩

theorem Sound.fill (h : c.Sound fuel algo cfg) (n : Nat) (price : Price) (execQty : Quantity) :
    Sound fuel algo cfg { c with system := c.system.fill n price execQty } := by
  rw [TradingSystem.fill]
  cases hx : c.system.orders[n]? with
  | none => exact h
  | some o =>
    have ho := List.mem_of_getElem? hx
    dsimp only
    split
    · refine ⟨h.books, h.sent, h.shown, h.requests, fun o' ho' => ?_, fun r hr => ?_⟩
      · dsimp only at ho'
        split at ho'
        · exact h.orders o' (List.mem_of_mem_eraseIdx ho')
        · rcases List.mem_or_eq_of_mem_set ho' with ho' | rfl
          · exact h.orders o' ho'
          · obtain ⟨s, hs, hfor⟩ := h.orders o ho
            exact ⟨s, hs, hfor.type, hfor.instrument, hfor.orderId, hfor.side, hfor.price⟩
      · rcases List.mem_append.mp hr with hr | hr
        · exact h.responses r hr
        · exact List.mem_singleton.mp hr ▸ h.order_bound ho
    · exact h

/-- A response that is read is of an instrument. -/
theorem Sound.read (h : c.Sound fuel algo cfg) :
    ∃ system, c.system.step .read = .ok system ∧
      Sound fuel algo cfg { c with system := system } := by
  rw [TradingSystem.step, TradeEngine.readResponse]
  cases hr : c.system.engine.incomingOgwResponses with
  | nil => exact ⟨_, rfl, h.books, h.sent, h.shown, h.requests, h.orders, h.responses⟩
  | cons r rs =>
    have hresponses := h.responses
    rw [hr] at hresponses
    obtain ⟨hbound, hrest⟩ := List.forall_mem_cons.mp hresponses
    have hfill : (if r.type = .filled then TradeEngine.addFill
        { c.system.engine with incomingOgwResponses := rs } r
        else { c.system.engine with incomingOgwResponses := rs }) =
        { c.system.engine with incomingOgwResponses := rs } := ite_self _
    simp only [TradeEngine.onOrderUpdate, hfill, instrumentAt, if_pos hbound, ok_bind]
    exact ⟨_, rfl, h.books, h.sent, h.shown, h.requests, h.orders, hrest⟩

theorem run_concat {books books' : InstrumentOrderBooks} {us : List MarketUpdate}
    (h : books.run fuel us = .ok books') :
    books.run fuel (us ++ [u]) = books'.onMarketUpdate fuel u := by
  induction us generalizing books with
  | nil =>
    cases h
    rw [List.nil_append, InstrumentOrderBooks.run]
    exact bind_pure _
  | cons v us ih =>
    obtain ⟨books₁, hbooks₁, h⟩ := bind_eq_ok.mp h
    rw [List.cons_append, InstrumentOrderBooks.run, hbooks₁, ok_bind]
    exact ih h

theorem Sound.market (h : c.Sound fuel algo cfg) (horderly : c.system.Orderly)
    (hflat : c.system.engine.instrumentPosition = fun _ => .default)
    (hc' : c.onMarketUpdate fuel ar algo cfg u = .ok c') : c'.Sound fuel algo cfg := by
  obtain ⟨hi, hbooks, hseen, hmoved⟩ := onMarketUpdate_cases hflat hc'
  have hrun : InstrumentOrderBooks.create.run fuel c'.seen = .ok c'.books := by
    rw [hseen, run_concat h.books, hbooks]
  have hread : ∀ s ∈ c.sent, s.ReadFrom fuel c'.seen := by
    intro s hs
    obtain ⟨us, books, hpre, hus⟩ := h.shown s hs
    exact ⟨us, books, hpre.trans (hseen ▸ List.prefix_append _ _), hus⟩
  cases hmoved with
  | stay hsystem hsent =>
    exact ⟨hrun, hsent ▸ h.sent, hsent ▸ hread, hsystem ▸ hsent ▸ h.requests,
      hsystem ▸ hsent ▸ h.orders, hsystem ▸ h.responses⟩
  | @move bbo bidPrice askPrice engine hshown hquoted hquotes hmoves hsystem hsent =>
    obtain ⟨new, hnew, hrule⟩ := TradeEngine.moveOrders_requests horderly.slots hmoves
    rw [hnew, List.drop_left] at hsent
    have hold : ∀ s ∈ c.sent, s ∈ c'.sent := fun s hs => hsent ▸ List.mem_append_left _ hs
    have hincoming : engine.incomingOgwResponses = c.system.engine.incomingOgwResponses := by
      obtain ⟨e₁, hbid, hask⟩ := TradeEngine.moveOrders_eq_ok hmoves
      rw [TradeEngine.moveOrder_incoming rfl hask, TradeEngine.moveOrder_incoming rfl hbid]
    refine ⟨hrun, fun s hs => ?_, fun s hs => ?_, fun q hq => ?_, fun o ho => ?_, fun r hr => ?_⟩
    · rw [hsent] at hs
      rcases List.mem_append.mp hs with hs | hs
      · exact h.sent s hs
      · obtain ⟨q, hq, rfl⟩ := List.mem_map.mp hs
        obtain ⟨hclient, hinstrument, hprices⟩ := hrule q hq
        refine ⟨hclient, hinstrument, hinstrument ▸ hi, hquoted, fun htype => ?_⟩
        obtain ⟨hqty, hvalid, hside⟩ := hprices htype
        exact ⟨hqty, hvalid, bidPrice, askPrice, hquotes, hside⟩
    · rw [hsent] at hs
      rcases List.mem_append.mp hs with hs | hs
      · exact hread s hs
      · obtain ⟨q, -, rfl⟩ := List.mem_map.mp hs
        exact ⟨c.seen, c'.books, hseen ▸ List.prefix_rfl, hseen ▸ hrun, hshown⟩
    · rw [hsystem] at hq
      rw [hnew] at hq
      rcases List.mem_append.mp hq with hq | hq
      · obtain ⟨s, hs, heq⟩ := h.requests q hq
        exact ⟨s, hold s hs, heq⟩
      · rw [hsent]
        exact ⟨⟨bbo, u, q⟩, List.mem_append_right _ (List.mem_map_of_mem hq), rfl⟩
    · rw [hsystem] at ho
      obtain ⟨s, hs, hfor⟩ := h.orders o ho
      exact ⟨s, hold s hs, hfor⟩
    · rw [hsystem] at hr
      exact h.responses r (hincoming ▸ hr)

end Steps

section Runs
variable {fuel : Nat} {ar : DoubleArithmetic} {algo : Algo} {cfg : Nat → TradeEngineConfig}
  {riskCfg : Nat → RiskConfig} {c c' : TradingClient} {es : List ClientStep} {u : MarketUpdate}

/-- A step of an engine without fills moves the orders at most once. -/
theorem step_refines (hflat : c.system.engine.instrumentPosition = fun _ => .default)
    {e : ClientStep} (h : c.step fuel ar algo cfg e = .ok c') :
    ∃ rs, Reached TradingSystem.step (fun _ _ => True) c.system rs c'.system ∧
      rs.flatMap TradingStep.venue = e.venue := by
  cases e with
  | market u =>
    obtain ⟨-, -, -, hmoved⟩ := onMarketUpdate_cases hflat h
    cases hmoved with
    | stay hsystem => exact ⟨[], hsystem ▸ .start, rfl⟩
    | @move _ bidPrice askPrice engine _ _ _ hmoves hsystem =>
      refine ⟨[] ++ [.moveOrders u.instrumentId bidPrice askPrice
        (cfg u.instrumentId.toNat).clip], .call .start trivial ?_, rfl⟩
      rw [TradingSystem.step, hmoves, hsystem]
      rfl
  | read =>
    obtain ⟨system, hsystem, hc'⟩ := bind_eq_ok.mp h
    cases hc'
    exact ⟨[] ++ [.read], .call .start trivial hsystem, rfl⟩
  | answer marketOrderId =>
    cases h
    exact ⟨[] ++ [.answer marketOrderId], .call .start trivial rfl, rfl⟩
  | fill n price execQty =>
    cases h
    exact ⟨[] ++ [.fill n price execQty], .call .start trivial rfl, rfl⟩

/-- What an algorithm does is a run of the order manager, and the exchange does the same. -/
theorem system_reached
    (h : Reached (step fuel ar algo cfg) (fun _ _ => True) (create riskCfg) es c) :
    ∃ rs, Reached TradingSystem.step (fun _ _ => True) (.create riskCfg) rs c.system ∧
      rs.flatMap TradingStep.venue = es.flatMap ClientStep.venue := by
  refine Reached.refine rfl (fun c e c' hreached _ hc' => ?_) h
  obtain ⟨rs, hrs⟩ := hreached
  exact step_refines (TradingSystem.position_reached hrs) hc'

theorem sound_reached
    (h : Reached (step fuel ar algo cfg) (fun _ _ => True) (create riskCfg) es c) :
    c.Sound fuel algo cfg := by
  induction h with
  | start => exact create_sound riskCfg
  | @call _ c c' e before _ returns ih =>
    obtain ⟨rs, hsystem, -⟩ := system_reached before
    cases e with
    | market u =>
      exact ih.market (TradingSystem.orderly_reached hsystem)
        (TradingSystem.position_reached hsystem) returns
    | read =>
      obtain ⟨system, hsystem, hread⟩ := ih.read
      rw [step, hsystem] at returns
      cases returns
      exact hread
    | answer marketOrderId =>
      cases returns
      exact ih.answer marketOrderId
    | fill n price execQty =>
      cases returns
      exact ih.fill n price execQty

/-- The books take an update that is read. -/
def Takes (fuel : Nat) (c : TradingClient) : ClientStep → Prop
  | .market u => ∃ books, c.books.onMarketUpdate fuel u = .ok books
  | _ => True

/-- An update that fits the public books after those read before. -/
def Fits (c : TradingClient) : ClientStep → Prop
  | .market u =>
    (∀ v ∈ c.seen ++ [u], v.instrumentId.toNat < maxNumInstruments ∧
      (v.type = .add → v.orderId.toNat < maxNumOrders)) ∧
    ∀ i < maxNumInstruments,
      PublicBook.AdmitsAll .empty (ofInstrument (UInt8.ofNat i) (c.seen ++ [u]))
  | _ => True

theorem Sound.takes (hfuel : maxNumOrders < fuel) (h : c.Sound fuel algo cfg) {e : ClientStep}
    (hfits : c.Fits e) : c.Takes fuel e := by
  cases e with
  | market u =>
    obtain ⟨books, hrun, -⟩ := InstrumentOrderBooks.run_shows hfuel hfits.1 hfits.2
    exact ⟨books, (run_concat h.books).symm.trans hrun⟩
  | read | answer | fill => trivial

/-- What the books take the algorithms take. -/
theorem Sound.completes_iff (h : c.Sound fuel algo cfg) (e : ClientStep) :
    (∃ c', c.step fuel ar algo cfg e = .ok c') ↔ c.Takes fuel e := by
  cases e with
  | market u =>
    constructor
    · rintro ⟨c', hc'⟩
      obtain ⟨i, -, hc'⟩ := bind_eq_ok.mp hc'
      obtain ⟨books, hbooks, -⟩ := bind_eq_ok.mp hc'
      exact ⟨books, hbooks⟩
    · rintro ⟨books, hbooks⟩
      obtain ⟨i, hi, -⟩ := bind_eq_ok.mp hbooks
      have hlt : u.instrumentId.toNat < maxNumInstruments := by
        by_contra hge
        rw [instrumentAt, if_neg hge] at hi
        cases hi
      have hmoves (c : TradingClient) (bbo : Bbo) (clip : Quantity) (quotes) :
          ∃ c', c.moveOrders u bbo clip quotes = .ok c' := by
        cases quotes with
        | none => exact ⟨_, rfl⟩
        | some quotes =>
          obtain ⟨engine, hengine⟩ := c.system.engine.moveOrders_ok hlt quotes.1 quotes.2 clip
          exact ⟨_, by rw [moveOrders, hengine, ok_bind]⟩
      simp only [step, onMarketUpdate, instrumentAt, if_pos hlt, ok_bind, hbooks]
      split
      · cases algo with
        | maker => exact ⟨_, rfl⟩
        | taker => exact hmoves _ _ _ _
      · cases algo with
        | maker => exact hmoves _ _ _ _
        | taker => exact ⟨_, rfl⟩
  | read =>
    obtain ⟨system, hsystem, -⟩ := h.read
    exact iff_of_true ⟨_, by rw [step, hsystem, ok_bind]⟩ trivial
  | answer | fill => exact iff_of_true ⟨_, rfl⟩ trivial

/-- Arithmetic that rounds nothing and has no infinities. -/
def exactArithmetic : DoubleArithmetic where
  ofInt z := .finite z
  sub
    | .finite x, .finite y => .finite (x - y)
    | _, _ => .nan
  div
    | .finite x, .finite y => if y = 0 then .nan else .finite (x / y)
    | _, _ => .nan
  atLeast
    | .finite x, .finite y => y ≤ x
    | _, _ => false

end Runs

end TradingClient

end StockExchange
