import StockExchange.OrderBook
import Mathlib.Data.List.Perm.Basic

/-!
# The book as lists

Each side is the list of its price levels from `bid_` or `ask_` on, each level the
list of its orders from `first_order_` on. Blocks keep their index, so the table of
client orders and the two free lists are part of the view. The operations below
are those of the book on lists, in the order in which its levels really are.
-/

namespace StockExchange

structure OrderView extends OrderFields where
  handle : OrderPtr
deriving DecidableEq

structure LevelView where
  handle : LevelPtr
  side : Side
  price : Price
  orders : List OrderView
deriving DecidableEq

namespace LevelView

def slot (l : LevelView) : Nat := priceToIndex l.price

def setQty (h : OrderPtr) (qty : Quantity) (l : LevelView) : LevelView :=
  { l with orders := l.orders.map fun o => if o.handle = h then { o with qty := qty } else o }

def append (o : OrderView) (l : LevelView) : LevelView :=
  { l with orders := l.orders ++ [o] }

def drop (h : OrderPtr) (l : LevelView) : LevelView :=
  { l with orders := l.orders.filter fun o => o.handle ≠ h }

end LevelView

section Insertion
variable {α : Type} (before : α → Bool) (x : α)

/-- The position search of `add_price_level` past the best level. Once the walk
stands before the last level it goes after it without a comparison. -/
def insertRest : List α → List α
  | [] => [x]
  | [l] => if before l then [x, l] else [l, x]
  | [l, last] => if before l then [x, l, last] else [l, last, x]
  | l :: m :: n :: rest =>
    if before l then x :: l :: m :: n :: rest else l :: insertRest (m :: n :: rest)

def insertLevel : List α → List α
  | [] => [x]
  | best :: rest =>
    if before best then x :: best :: rest else best :: insertRest before x rest

end Insertion

structure BookView where
  instrumentId : InstrumentId
  bids : List LevelView
  asks : List LevelView
  freeOrders : List OrderPtr
  freeLevels : List LevelPtr
  clientOrders : Nat → Nat → Option OrderPtr
  nextMarketOrderId : OrderId
  sent : List Message

namespace BookView

def create (instrumentId : InstrumentId) : BookView where
  instrumentId := instrumentId
  bids := []
  asks := []
  freeOrders := List.range maxNumOrders
  freeLevels := List.range maxPriceLevels
  clientOrders _ _ := none
  nextMarketOrderId := 1
  sent := []

def levels (v : BookView) : List LevelView := v.bids ++ v.asks
def orders (v : BookView) : List OrderView := v.levels.flatMap (·.orders)

/-- The side an order of `side` rests on. -/
def own (v : BookView) (side : Side) : List LevelView :=
  if side = .buy then v.bids else v.asks

/-- The side an order of `side` takes from. -/
def opposite (v : BookView) (side : Side) : List LevelView :=
  if side = .buy then v.asks else v.bids

def mapLevels (v : BookView) (f : List LevelView → List LevelView) : BookView :=
  { v with bids := f v.bids, asks := f v.asks }

def setOwn (v : BookView) (side : Side) (ls : List LevelView) : BookView :=
  { v with
    bids := if side = .buy then ls else v.bids
    asks := if side = .buy then v.asks else ls }

def send (v : BookView) (ms : List Message) : BookView := { v with sent := v.sent ++ ms }

def setClientOrder (v : BookView) (clientId : ClientId) (clientOrderId : OrderId)
    (p : Option OrderPtr) : BookView :=
  { v with
    clientOrders := Function.update v.clientOrders clientId.toNat
      (Function.update (v.clientOrders clientId.toNat) clientOrderId.toNat p) }

def slotLevel (v : BookView) (i : Nat) : Option LevelView :=
  v.levels.find? fun l => l.slot = i

def getPriceLevel (v : BookView) (side : Side) (price : Price) : Option LevelView :=
  (v.slotLevel (priceToIndex price)).filter fun l => l.side = side

def priorityAt (v : BookView) (side : Side) (price : Price) : Priority :=
  match v.getPriceLevel side price with
  | none => 1
  | some l => match l.orders with
    | [] => 1
    | first :: _ => first.priority + 1

def setQty (v : BookView) (h : OrderPtr) (qty : Quantity) : BookView :=
  v.mapLevels (List.map (LevelView.setQty h qty))

/-- The levels holding nothing but order `h`. -/
def emptied (v : BookView) (h : OrderPtr) : List LevelPtr :=
  (v.levels.filter fun l => (l.drop h).orders = []).map (·.handle)

def dropOrder (h : OrderPtr) (ls : List LevelView) : List LevelView :=
  (ls.map (LevelView.drop h)).filter fun l => l.orders ≠ []

def removeOrder (v : BookView) (o : OrderView) : BookView :=
  { (v.mapLevels (dropOrder o.handle)).setClientOrder o.clientId o.clientOrderId none with
    freeOrders := o.handle :: v.freeOrders
    freeLevels := v.emptied o.handle ++ v.freeLevels }

def newLevel (v : BookView) (l : LevelPtr) (rest : List LevelPtr) (o : OrderView) : BookView :=
  { v.setOwn o.side (insertLevel (fun m => betterPrice o.price m.price o.side)
      ⟨l, o.side, o.price, [o]⟩ (v.own o.side)) with
    freeLevels := rest }

/-- An order joins the level in its slot if that level has its side; otherwise a
new level is made for it. -/
def place (v : BookView) (o : OrderView) : BookView :=
  match v.getPriceLevel o.side o.price with
  | some l => v.mapLevels (List.map fun m => if m.slot = l.slot then m.append o else m)
  | none => match v.freeLevels with
    | [] => v
    | l :: rest => v.newLevel l rest o

def addOrder (v : BookView) (o : OrderView) : BookView :=
  (v.place o).setClientOrder o.clientId o.clientOrderId (some o.handle)

/-- The taker of a match. -/
structure Aggressor where
  clientId : ClientId
  clientOrderId : OrderId
  marketOrderId : OrderId
  side : Side
  price : Price
deriving DecidableEq

/-- What `match` reports of `qty` executed between a taker and a resting order. -/
def fillMessages (instrumentId : InstrumentId) (a : Aggressor) (leavesQty : Quantity)
    (o : OrderFields) (matchedQty : Quantity) : List Message :=
  [.response ⟨.filled, a.clientId, instrumentId, a.clientOrderId, a.marketOrderId, a.side,
    o.price, matchedQty, leavesQty - matchedQty⟩,
   .response ⟨.filled, o.clientId, o.instrumentId, o.clientOrderId, o.marketOrderId, o.side,
    o.price, matchedQty, o.qty - matchedQty⟩,
   .update ⟨.trade, invalidOrderId, instrumentId, a.side, o.price, matchedQty,
    invalidPriority⟩,
   .update (if o.qty - matchedQty = 0 then
      ⟨.cancel, o.marketOrderId, instrumentId, o.side, o.price, o.qty, o.priority⟩
    else ⟨.modify, o.marketOrderId, instrumentId, o.side, o.price, o.qty - matchedQty,
      o.priority⟩)]

def fill (v : BookView) (a : Aggressor) (leavesQty : Quantity) (o : OrderView) : BookView :=
  let matchedQty := min leavesQty o.qty
  let v' := v.send (fillMessages v.instrumentId a leavesQty o.toOrderFields matchedQty)
  if o.qty - matchedQty = 0 then v'.removeOrder o
  else v'.setQty o.handle (o.qty - matchedQty)

/-- The order a taker of `side` meets first. -/
def head (v : BookView) (side : Side) : Option OrderView :=
  (v.opposite side).head?.bind (·.orders.head?)

/-- The resting price is worse for the taker than its limit. -/
def beyond (a : Aggressor) (o : OrderView) : Bool :=
  if a.side = .buy then a.price < o.price else o.price < a.price

def matchLoop (a : Aggressor) : Nat → BookView → Quantity → BookView × Quantity
  | 0, v, leavesQty => (v, leavesQty)
  | n + 1, v, leavesQty =>
    match v.head a.side with
    | none => (v, leavesQty)
    | some o =>
      if leavesQty = 0 ∨ beyond a o then (v, leavesQty)
      else matchLoop a n (v.fill a leavesQty o) (leavesQty - min leavesQty o.qty)

def oppositeCount (v : BookView) (side : Side) : Nat :=
  ((v.opposite side).flatMap (·.orders)).length

def accepted (v : BookView) (clientId : ClientId) (clientOrderId : OrderId) (side : Side)
    (price : Price) (quantity : Quantity) : BookView :=
  ({ v with nextMarketOrderId := v.nextMarketOrderId + 1 } : BookView).send
    [.response ⟨.accepted, clientId, v.instrumentId, clientOrderId, v.nextMarketOrderId, side,
      price, 0, quantity⟩]

def accept (v : BookView) (clientId : ClientId) (clientOrderId : OrderId) (side : Side)
    (price : Price) (quantity : Quantity) : BookView × Quantity :=
  matchLoop ⟨clientId, clientOrderId, v.nextMarketOrderId, side, price⟩
    ((v.accepted clientId clientOrderId side price quantity).oppositeCount side + 1)
    (v.accepted clientId clientOrderId side price quantity) quantity

def bookedOrder (v : BookView) (h : OrderPtr) (clientId : ClientId) (clientOrderId id : OrderId)
    (side : Side) (price : Price) (leavesQty : Quantity) : OrderView :=
  { handle := h, instrumentId := v.instrumentId, clientId := clientId,
    clientOrderId := clientOrderId, marketOrderId := id, side := side, price := price,
    qty := leavesQty, priority := v.priorityAt side price }

def book (v : BookView) (clientId : ClientId) (clientOrderId id : OrderId) (side : Side)
    (price : Price) (leavesQty : Quantity) : BookView :=
  match v.freeOrders with
  | [] => v
  | h :: rest =>
    let o := v.bookedOrder h clientId clientOrderId id side price leavesQty
    ({ v.addOrder o with freeOrders := rest }).send
      [.update ⟨.add, id, v.instrumentId, side, price, leavesQty, o.priority⟩]

def add (v : BookView) (clientId : ClientId) (clientOrderId : OrderId) (side : Side)
    (price : Price) (quantity : Quantity) : BookView :=
  let r := v.accept clientId clientOrderId side price quantity
  if 0 < r.2 then
    r.1.book clientId clientOrderId v.nextMarketOrderId side price r.2
  else r.1

/-- The order found at `client_orders_[client_id][client_order_id]`. -/
def findOrder (v : BookView) (clientId : ClientId) (clientOrderId : OrderId) :
    Option OrderView :=
  if clientId.toNat < maxNumClients then
    (v.clientOrders clientId.toNat clientOrderId.toNat).bind fun h =>
      v.orders.find? fun o => o.handle = h
  else none

def cancelOrder (v : BookView) (clientId : ClientId) (clientOrderId : OrderId)
    (o : OrderView) : BookView :=
  (v.removeOrder o).send
    [.response ⟨.canceled, clientId, v.instrumentId, clientOrderId, o.marketOrderId, o.side,
      o.price, invalidQuantity, o.qty⟩,
     .update ⟨.cancel, o.marketOrderId, v.instrumentId, o.side, o.price, 0, o.priority⟩]

def reject (v : BookView) (type : ClientResponseType) (clientId : ClientId)
    (clientOrderId : OrderId) : BookView :=
  v.send [.response ⟨type, clientId, v.instrumentId, clientOrderId, invalidOrderId, .invalid,
    invalidPrice, invalidQuantity, invalidQuantity⟩]

def cancel (v : BookView) (clientId : ClientId) (clientOrderId : OrderId) : BookView :=
  match v.findOrder clientId clientOrderId with
  | none => v.reject .cancelRejected clientId clientOrderId
  | some o => v.cancelOrder clientId clientOrderId o

def reduce (v : BookView) (clientId : ClientId) (clientOrderId : OrderId) (o : OrderView)
    (newQuantity : Quantity) : BookView :=
  (v.setQty o.handle newQuantity).send
    [.response ⟨.modified, clientId, v.instrumentId, clientOrderId, o.marketOrderId, o.side,
      o.price, 0, newQuantity⟩,
     .update ⟨.modify, o.marketOrderId, v.instrumentId, o.side, o.price, newQuantity,
      o.priority⟩]

def modify (v : BookView) (clientId : ClientId) (clientOrderId : OrderId) (newPrice : Price)
    (newQuantity : Quantity) : BookView :=
  match v.findOrder clientId clientOrderId with
  | none => v.reject .modifyRejected clientId clientOrderId
  | some o =>
    if o.price ≠ newPrice ∨ o.qty < newQuantity then
      (v.cancelOrder clientId clientOrderId o).add clientId clientOrderId o.side newPrice
        newQuantity
    else v.reduce clientId clientOrderId o newQuantity

def call (v : BookView) : OrderBook.BookRequest → BookView
  | .add clientId clientOrderId side price quantity =>
    v.add clientId clientOrderId side price quantity
  | .cancel clientId clientOrderId => v.cancel clientId clientOrderId
  | .modify clientId clientOrderId newPrice newQuantity =>
    v.modify clientId clientOrderId newPrice newQuantity

end BookView

end StockExchange
