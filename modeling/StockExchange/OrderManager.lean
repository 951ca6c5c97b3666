import StockExchange.Models

/-!
# The orders of a trade engine

`om_order.hpp`, `position_keeper.hpp`, `risk_manager.hpp`, `order_manager.{hpp,cpp}` and
the part of `trade_engine.cpp` they meet, under `example/trading_engine`. The market maker
and the liquidity taker choose the arguments of `move_orders` and pass order responses on;
both are left to the caller here. The queues to and from the gateway are lists, and
logging is left out.
-/

namespace StockExchange

/-- A `double`; a finite one is the rational it stands for. -/
inductive Double where
  | finite (x : Rat)
  | infinity (negative : Bool)
  | nan
deriving DecidableEq

/-- `x < y` for a finite `x`. -/
def Double.exceeds : Double → Rat → Bool
  | .finite y, x => x < y
  | .infinity negative, _ => !negative
  | .nan, _ => false

def sideToIndex (side : Side) : Nat := if side = .buy then 0 else 1

def sideToValue (side : Side) : Int32 := if side = .buy then 1 else -1

structure RiskConfig where
  maxOrderSize : Quantity
  maxPosition : Quantity
  maxLoss : Double

/-- `position_info_t` without the pointer to the best prices. Its members of type `double` are read
as exact rationals. -/
structure PositionInfo where
  position : Int32
  realizedPnl : Rat
  unrealizedPnl : Rat
  totalPnl : Rat
  buyOpenVwap : Rat
  sellOpenVwap : Rat
  volume : Quantity

def PositionInfo.default : PositionInfo := ⟨0, 0, 0, 0, 0, 0, 0⟩

inductive RiskCheckResult where
  | invalid
  | orderTooLarge
  | positionTooLarge
  | lossTooLarge
  | allowed
deriving DecidableEq

structure RiskInfo where
  positionInfo : PositionInfo
  riskCfg : RiskConfig

/-- `risk_info::check_pretrade_risk`. -/
def RiskInfo.checkPretradeRisk (r : RiskInfo) (side : Side) (qty : Quantity) : RiskCheckResult :=
  if r.riskCfg.maxOrderSize < qty then .orderTooLarge
  else if r.riskCfg.maxPosition.toInt32 <
      (r.positionInfo.position + sideToValue side * qty.toInt32).abs then .positionTooLarge
  else if r.riskCfg.maxLoss.exceeds r.positionInfo.totalPnl then .lossTooLarge
  else .allowed

inductive OmOrderState where
  | invalid
  | pendingNew
  | live
  | pendingCancel
  | dead
  | pendingModified
deriving DecidableEq

structure OmOrder where
  instrumentId : InstrumentId
  orderId : OrderId
  side : Side
  price : Price
  qty : Quantity
  orderState : OmOrderState
deriving DecidableEq

def OmOrder.default : OmOrder :=
  ⟨invalidInstrumentId, invalidOrderId, .invalid, invalidPrice, invalidQuantity, .invalid⟩

/-- The switch of `order_manager::on_order_update`. -/
def OmOrder.onOrderUpdate (o : OmOrder) (r : ClientResponseInternal) : OmOrder :=
  if r.type = .accepted then { o with orderState := .live }
  else if r.type = .canceled then { o with orderState := .dead }
  else if r.type = .modified then { o with orderState := .live }
  else if r.type = .filled then
    { o with
      qty := r.leavesQty
      orderState := if r.leavesQty = 0 then .dead else o.orderState }
  else o

/-- `.at(instrument_id)` of a table with one entry for each instrument. -/
def instrumentAt (instrumentId : InstrumentId) : Except Fault Nat :=
  if instrumentId.toNat < maxNumInstruments then .ok instrumentId.toNat else .error .thrown

/-- The members of `trade_engine`, with those of its position keeper, its risk manager and
its order manager. -/
structure TradeEngine where
  outgoingOgwRequests : List ClientRequestInternal
  incomingOgwResponses : List ClientResponseInternal
  instrumentPosition : Nat → PositionInfo
  riskCfg : Nat → RiskConfig
  instrumentSideOrder : Nat → Nat → OmOrder
  nextOrderId : OrderId

namespace TradeEngine

def create (riskCfg : Nat → RiskConfig) : TradeEngine where
  outgoingOgwRequests := []
  incomingOgwResponses := []
  instrumentPosition _ := .default
  riskCfg := riskCfg
  instrumentSideOrder _ _ := .default
  nextOrderId := 1

/-- An entry of `instruments_risk_`, which points into the position keeper. -/
def risk (e : TradeEngine) (instrument : Nat) : RiskInfo :=
  ⟨e.instrumentPosition instrument, e.riskCfg instrument⟩

def setOrder (e : TradeEngine) (instrument side : Nat) (o : OmOrder) : TradeEngine :=
  { e with
    instrumentSideOrder := Function.update e.instrumentSideOrder instrument
      (Function.update (e.instrumentSideOrder instrument) side o) }

def sendClientRequest (e : TradeEngine) (r : ClientRequestInternal) : TradeEngine :=
  { e with outgoingOgwRequests := e.outgoingOgwRequests ++ [r] }

/-- `order_manager::new_order`; the order to write is given by its place. -/
def newOrder (e : TradeEngine) (instrument index : Nat) (instrumentId : InstrumentId)
    (price : Price) (side : Side) (qty : Quantity) : TradeEngine :=
  let e := e.sendClientRequest ⟨.new, 0, instrumentId, e.nextOrderId, side, price, qty⟩
  let e := e.setOrder instrument index
    ⟨instrumentId, e.nextOrderId, side, price, qty, .pendingNew⟩
  { e with nextOrderId := e.nextOrderId + 1 }

/-- `order_manager::cancel_order`, which leaves the order as it is. -/
def cancelOrder (e : TradeEngine) (instrument index : Nat) : TradeEngine :=
  let o := e.instrumentSideOrder instrument index
  e.sendClientRequest ⟨.cancel, 0, o.instrumentId, o.orderId, o.side, o.price, o.qty⟩

/-- The branch of `move_order` for an order that is neither live nor pending. -/
def placeOrder (e : TradeEngine) (instrument index : Nat) (instrumentId : InstrumentId)
    (price : Price) (side : Side) (qty : Quantity) : Except Fault TradeEngine :=
  if price ≠ invalidPrice then do
    let i ← instrumentAt instrumentId
    .ok (if (e.risk i).checkPretradeRisk side qty = .allowed then
      e.newOrder instrument index instrumentId price side qty else e)
  else .ok e

def moveOrder (e : TradeEngine) (instrument index : Nat) (instrumentId : InstrumentId)
    (price : Price) (side : Side) (qty : Quantity) : Except Fault TradeEngine :=
  let o := e.instrumentSideOrder instrument index
  match o.orderState with
  | .live => .ok (if o.price ≠ price then e.cancelOrder instrument index else e)
  | .invalid | .dead => e.placeOrder instrument index instrumentId price side qty
  | .pendingModified | .pendingNew | .pendingCancel => .ok e

def moveOrders (e : TradeEngine) (instrumentId : InstrumentId) (bidPrice askPrice : Price)
    (clip : Quantity) : Except Fault TradeEngine := do
  let i ← instrumentAt instrumentId
  let e ← e.moveOrder i (sideToIndex .buy) instrumentId bidPrice .buy clip
  e.moveOrder i (sideToIndex .sell) instrumentId askPrice .sell clip

/-- `position_keeper::add_fill`: the only line of its body is commented out. -/
def addFill (e : TradeEngine) (_ : ClientResponseInternal) : TradeEngine := e

/-- `trade_engine::on_order_update` with `order_manager::on_order_update`, to which both
algorithms pass the response on. -/
def onOrderUpdate (e : TradeEngine) (r : ClientResponseInternal) : Except Fault TradeEngine := do
  let e := if r.type = .filled then e.addFill r else e
  let i ← instrumentAt r.instrumentId
  .ok (e.setOrder i (sideToIndex r.side)
    ((e.instrumentSideOrder i (sideToIndex r.side)).onOrderUpdate r))

/-- The loop of `run` over the responses, once. -/
def readResponse (e : TradeEngine) : Except Fault TradeEngine :=
  match e.incomingOgwResponses with
  | [] => .ok e
  | r :: rs => { e with incomingOgwResponses := rs }.onOrderUpdate r

end TradeEngine

end StockExchange
