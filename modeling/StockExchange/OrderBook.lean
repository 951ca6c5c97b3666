import StockExchange.MemoryPool

/-!
# The order book

Translated from `engine/order_book.hpp` and `engine/order_book.cpp` in a release
build. Pointers are block indices of the two pools and `none` is null. Timing and
logging are left out; what goes through `message_handler_` is kept in order in
`sent`, of which `client_response_` and `market_update_` hold the last entries.
-/

namespace StockExchange

abbrev OrderPtr := Nat
abbrev LevelPtr := Nat

/-- The members of `order` other than its ring links. -/
structure OrderFields where
  instrumentId : InstrumentId
  clientId : ClientId
  clientOrderId : OrderId
  marketOrderId : OrderId
  side : Side
  price : Price
  qty : Quantity
  priority : Priority
deriving DecidableEq

structure Order extends OrderFields where
  prevOrder : Option OrderPtr
  nextOrder : Option OrderPtr

structure PriceLevel where
  side : Side
  price : Price
  firstOrder : Option OrderPtr
  prevEntry : Option LevelPtr
  nextEntry : Option LevelPtr

def Order.default : Order :=
  ⟨⟨invalidInstrumentId, invalidClientId, invalidOrderId, invalidOrderId, .invalid,
    invalidPrice, invalidQuantity, invalidPriority⟩, none, none⟩

def PriceLevel.default : PriceLevel := ⟨.invalid, invalidPrice, none, none, none⟩

/-- One call of `message_handler::send_client_response` or `send_market_update`. -/
inductive Message where
  | response (r : ClientResponseInternal)
  | update (u : MarketUpdate)
deriving DecidableEq

structure OrderBook where
  instrumentId : InstrumentId
  clientOrders : Nat → Nat → Option OrderPtr
  priceLevelPool : MemoryPool PriceLevel
  bid : Option LevelPtr
  ask : Option LevelPtr
  priceLevels : Nat → Option LevelPtr
  orderPool : MemoryPool Order
  nextMarketOrderId : OrderId
  sent : List Message

/-- `price % MAX_PRICE_LEVELS`: the signed price is converted to `size_t` first. -/
def priceToIndex (price : Price) : Nat := (price.toUInt64 % 256).toNat

/-- `comparison_func`. -/
def betterPrice (a b : Price) (side : Side) : Bool :=
  if side = .buy then b < a else a < b

namespace OrderBook

def create (instrumentId : InstrumentId) : OrderBook where
  instrumentId := instrumentId
  clientOrders _ _ := none
  priceLevelPool := .create .default maxPriceLevels
  bid := none
  ask := none
  priceLevels _ := none
  orderPool := .create .default maxNumOrders
  nextMarketOrderId := 1
  sent := []

def order (s : OrderBook) (p : OrderPtr) : Order := s.orderPool.read p
def level (s : OrderBook) (l : LevelPtr) : PriceLevel := s.priceLevelPool.read l

def setOrder (s : OrderBook) (p : OrderPtr) (o : Order) : OrderBook :=
  { s with orderPool := s.orderPool.write p o }

def setNextOrder (s : OrderBook) (p : OrderPtr) (q : Option OrderPtr) : OrderBook :=
  s.setOrder p { s.order p with nextOrder := q }

def setPrevOrder (s : OrderBook) (p : OrderPtr) (q : Option OrderPtr) : OrderBook :=
  s.setOrder p { s.order p with prevOrder := q }

def setQty (s : OrderBook) (p : OrderPtr) (qty : Quantity) : OrderBook :=
  s.setOrder p { s.order p with qty := qty }

def setLevel (s : OrderBook) (l : LevelPtr) (x : PriceLevel) : OrderBook :=
  { s with priceLevelPool := s.priceLevelPool.write l x }

def setNextEntry (s : OrderBook) (l : LevelPtr) (m : Option LevelPtr) : OrderBook :=
  s.setLevel l { s.level l with nextEntry := m }

def setPrevEntry (s : OrderBook) (l : LevelPtr) (m : Option LevelPtr) : OrderBook :=
  s.setLevel l { s.level l with prevEntry := m }

def setFirstOrder (s : OrderBook) (l : LevelPtr) (p : Option OrderPtr) : OrderBook :=
  s.setLevel l { s.level l with firstOrder := p }

/-- The reference `best_price_level`: `bid_` for a buy, `ask_` for any other side. -/
def best (s : OrderBook) (side : Side) : Option LevelPtr :=
  if side = .buy then s.bid else s.ask

def setBest (s : OrderBook) (side : Side) (l : Option LevelPtr) : OrderBook :=
  { s with
    bid := if side = .buy then l else s.bid
    ask := if side = .buy then s.ask else l }

def setPriceLevel (s : OrderBook) (i : Nat) (l : Option LevelPtr) : OrderBook :=
  { s with priceLevels := Function.update s.priceLevels i l }

def freeLevel (s : OrderBook) (l : LevelPtr) : OrderBook :=
  { s with priceLevelPool := s.priceLevelPool.free l }

def freeOrder (s : OrderBook) (p : OrderPtr) : OrderBook :=
  { s with orderPool := s.orderPool.free p }

/-- `client_orders_.at(client_id).at(client_order_id)` in bounds. -/
def inTable (clientId : ClientId) (clientOrderId : OrderId) : Prop :=
  clientId.toNat < maxNumClients ∧ clientOrderId.toNat < maxNumOrders

instance (c : ClientId) (o : OrderId) : Decidable (inTable c o) :=
  inferInstanceAs (Decidable (_ ∧ _))

def setClientOrder (s : OrderBook) (clientId : ClientId) (clientOrderId : OrderId)
    (p : Option OrderPtr) : Except Fault OrderBook :=
  if inTable clientId clientOrderId then
    .ok { s with
      clientOrders := Function.update s.clientOrders clientId.toNat
        (Function.update (s.clientOrders clientId.toNat) clientOrderId.toNat p) }
  else .error .thrown

def sendClientResponse (s : OrderBook) (r : ClientResponseInternal) : OrderBook :=
  { s with sent := s.sent ++ [.response r] }

def sendMarketUpdate (s : OrderBook) (u : MarketUpdate) : OrderBook :=
  { s with sent := s.sent ++ [.update u] }

def getPriceLevel (s : OrderBook) (side : Side) (price : Price) : Option LevelPtr :=
  (s.priceLevels (priceToIndex price)).filter fun l => (s.level l).side = side

def getOrderPriorityAtPriceLevel (s : OrderBook) (side : Side) (price : Price) :
    Except Fault Priority :=
  match s.getPriceLevel side price with
  | none => .ok 1
  | some l => do
    let first ← deref (s.level l).firstOrder
    .ok ((s.order first).priority + 1)

def addAfter (s : OrderBook) (current new : LevelPtr) : Except Fault OrderBook := do
  let s := s.setNextEntry new (s.level current).nextEntry
  let s := s.setPrevEntry new (some current)
  let next ← deref (s.level current).nextEntry
  let s := s.setPrevEntry next (some new)
  .ok (s.setNextEntry current (some new))

def addBefore (s : OrderBook) (current new : LevelPtr) : Except Fault OrderBook := do
  let s := s.setPrevEntry new (s.level current).prevEntry
  let s := s.setNextEntry new (some current)
  let prev ← deref (s.level current).prevEntry
  let s := s.setNextEntry prev (some new)
  .ok (s.setPrevEntry current (some new))

/-- The `while` loop of `add_price_level`: the level it stops at and
`add_after_flag`. The flag is set as soon as the walk reaches the last level,
before that level has been compared. -/
def findPosition (s : OrderBook) (new best : LevelPtr) :
    Nat → LevelPtr → Bool → Except Fault (LevelPtr × Bool)
  | 0, _, _ => .error .outOfFuel
  | fuel + 1, current, addAfterFlag =>
    if !addAfterFlag &&
        !betterPrice (s.level new).price (s.level current).price (s.level new).side then do
      let current ← deref (s.level current).nextEntry
      if (s.level current).nextEntry = some best then
        findPosition s new best fuel current true
      else findPosition s new best fuel current addAfterFlag
    else .ok (current, addAfterFlag)

def addPriceLevel (fuel : Nat) (s : OrderBook) (new : LevelPtr) : Except Fault OrderBook :=
  let s := s.setPriceLevel (priceToIndex (s.level new).price) (some new)
  match s.best (s.level new).side with
  | none =>
    let s := s.setBest (s.level new).side (some new)
    let s := s.setPrevEntry new (some new)
    .ok (s.setNextEntry new (some new))
  | some best =>
    if betterPrice (s.level new).price (s.level best).price (s.level new).side then do
      let s ← s.addBefore best new
      .ok (s.setBest (s.level new).side (some new))
    else do
      let first ← deref (s.level best).nextEntry
      let (current, addAfterFlag) ← s.findPosition new best fuel first false
      if addAfterFlag then s.addAfter current new else s.addBefore current new

def removePriceLevel (s : OrderBook) (side : Side) (price : Price) :
    Except Fault OrderBook :=
  match s.getPriceLevel side price with
  | none => .ok s
  | some l => do
    let s ← if (s.level l).nextEntry = some l then .ok (s.setBest side none) else do
      let prev ← deref (s.level l).prevEntry
      let s := s.setNextEntry prev (s.level l).nextEntry
      let next ← deref (s.level l).nextEntry
      let s := s.setPrevEntry next (s.level l).prevEntry
      let best ← deref (s.best side)
      let s := if (s.level best).price = (s.level l).price then
        s.setBest side (s.level l).nextEntry else s
      .ok ((s.setPrevEntry l none).setNextEntry l none)
    .ok ((s.setPriceLevel (priceToIndex price) none).freeLevel l)

def addOrder (fuel : Nat) (s : OrderBook) (p : OrderPtr) : Except Fault OrderBook := do
  let s ← match s.getPriceLevel (s.order p).side (s.order p).price with
    | none => do
      let s := s.setPrevOrder p (some p)
      let s := s.setNextOrder p (some p)
      let (pool, new) ← s.priceLevelPool.alloc
        ⟨(s.order p).side, (s.order p).price, some p, none, none⟩
      addPriceLevel fuel { s with priceLevelPool := pool } new
    | some l => do
      let first ← deref (s.level l).firstOrder
      let last ← deref (s.order first).prevOrder
      let s := s.setNextOrder last (some p)
      let s := s.setPrevOrder p (some last)
      let s := s.setNextOrder p (s.level l).firstOrder
      let first ← deref (s.level l).firstOrder
      .ok (s.setPrevOrder first (some p))
  s.setClientOrder (s.order p).clientId (s.order p).clientOrderId (some p)

def removeOrder (s : OrderBook) (p : OrderPtr) : Except Fault OrderBook := do
  let level := s.getPriceLevel (s.order p).side (s.order p).price
  let s ← if (s.order p).prevOrder = some p then
      s.removePriceLevel (s.order p).side (s.order p).price
    else do
      let before ← deref (s.order p).prevOrder
      let after ← deref (s.order p).nextOrder
      let s := s.setNextOrder before (some after)
      let s := s.setPrevOrder after (some before)
      let l ← deref level
      let s := if (s.level l).firstOrder = some p then s.setFirstOrder l (some after) else s
      .ok ((s.setNextOrder p none).setPrevOrder p none)
  let s ← s.setClientOrder (s.order p).clientId (s.order p).clientOrderId none
  .ok (s.freeOrder p)

/-- `order_book::match`. -/
def matchOrder (s : OrderBook) (clientId : ClientId) (side : Side)
    (clientOrderId marketOrderId : OrderId) (leavesQty : Quantity) (p : OrderPtr) :
    Except Fault (OrderBook × Quantity) := do
  let oldQty := (s.order p).qty
  let matchedQty := min leavesQty oldQty
  let leavesQtyAfterMatch := leavesQty - matchedQty
  let s := s.setQty p (oldQty - matchedQty)
  let o := s.order p
  let s := s.sendClientResponse ⟨.filled, clientId, s.instrumentId, clientOrderId,
    marketOrderId, side, o.price, matchedQty, leavesQtyAfterMatch⟩
  let s := s.sendClientResponse ⟨.filled, o.clientId, o.instrumentId, o.clientOrderId,
    o.marketOrderId, o.side, o.price, matchedQty, o.qty⟩
  let s := s.sendMarketUpdate ⟨.trade, invalidOrderId, s.instrumentId, side, o.price,
    matchedQty, invalidPriority⟩
  if o.qty = 0 then do
    let s := s.sendMarketUpdate ⟨.cancel, o.marketOrderId, s.instrumentId, o.side,
      o.price, oldQty, o.priority⟩
    let s ← s.removeOrder p
    .ok (s, leavesQtyAfterMatch)
  else
    .ok (s.sendMarketUpdate ⟨.modify, o.marketOrderId, s.instrumentId, o.side, o.price,
      o.qty, o.priority⟩, leavesQtyAfterMatch)

/-- The two `while` loops of `check_for_match` differ in the side they take from
and in the direction of the price test. -/
def matchLoop (clientId : ClientId) (clientOrderId newMarketOrderId : OrderId)
    (side : Side) (price : Price) :
    Nat → OrderBook → Quantity → Except Fault (OrderBook × Quantity)
  | 0, _, _ => .error .outOfFuel
  | fuel + 1, s, leavesQty =>
    match (if side = .buy then s.ask else s.bid) with
    | none => .ok (s, leavesQty)
    | some l => if leavesQty = 0 then .ok (s, leavesQty) else do
      let p ← deref (s.level l).firstOrder
      if (if side = .buy then price < (s.order p).price else (s.order p).price < price) then
        .ok (s, leavesQty)
      else do
        let (s, leavesQty) ←
          s.matchOrder clientId side clientOrderId newMarketOrderId leavesQty p
        matchLoop clientId clientOrderId newMarketOrderId side price fuel s leavesQty

def checkForMatch (fuel : Nat) (s : OrderBook) (clientId : ClientId)
    (clientOrderId newMarketOrderId : OrderId) (side : Side) (price : Price)
    (qty : Quantity) : Except Fault (OrderBook × Quantity) :=
  matchLoop clientId clientOrderId newMarketOrderId side price fuel s qty

/-- A new market order id taken and reported: `add` up to `check_for_match`. -/
def accepted (s : OrderBook) (clientId : ClientId) (clientOrderId : OrderId) (side : Side)
    (price : Price) (quantity : Quantity) : OrderBook :=
  let marketOrderId := s.nextMarketOrderId
  let s := { s with nextMarketOrderId := s.nextMarketOrderId + 1 }
  s.sendClientResponse ⟨.accepted, clientId, s.instrumentId, clientOrderId, marketOrderId, side,
    price, 0, quantity⟩

/-- The part of `add` before the order is booked. -/
def accept (fuel : Nat) (s : OrderBook) (clientId : ClientId) (clientOrderId : OrderId)
    (side : Side) (price : Price) (quantity : Quantity) :
    Except Fault (OrderBook × Quantity) :=
  (s.accepted clientId clientOrderId side price quantity).checkForMatch fuel clientId
    clientOrderId s.nextMarketOrderId side price quantity

/-- The part of `add` under `leaves_qty > 0`. -/
def book (fuel : Nat) (s : OrderBook) (clientId : ClientId)
    (clientOrderId marketOrderId : OrderId) (side : Side) (price : Price)
    (leavesQty : Quantity) : Except Fault OrderBook := do
  let priority ← s.getOrderPriorityAtPriceLevel side price
  let (pool, p) ← s.orderPool.alloc ⟨⟨s.instrumentId, clientId, clientOrderId,
    marketOrderId, side, price, leavesQty, priority⟩, none, none⟩
  let s ← addOrder fuel { s with orderPool := pool } p
  .ok (s.sendMarketUpdate ⟨.add, marketOrderId, s.instrumentId, side, price, leavesQty,
    priority⟩)

def add (fuel : Nat) (s : OrderBook) (clientId : ClientId) (clientOrderId : OrderId)
    (side : Side) (price : Price) (quantity : Quantity) : Except Fault OrderBook := do
  let marketOrderId := s.nextMarketOrderId
  let (s, leavesQty) ← s.accept fuel clientId clientOrderId side price quantity
  if 0 < leavesQty then
    s.book fuel clientId clientOrderId marketOrderId side price leavesQty
  else .ok s

/-- The lookup that opens `cancel` and `modify`: a client id beyond the table is
reported as unknown, a client order id beyond it throws. -/
def findClientOrder (s : OrderBook) (clientId : ClientId) (clientOrderId : OrderId) :
    Except Fault (Option OrderPtr) :=
  if clientId.toNat < maxNumClients then
    if clientOrderId.toNat < maxNumOrders then
      .ok (s.clientOrders clientId.toNat clientOrderId.toNat)
    else .error .thrown
  else .ok none

def cancel (s : OrderBook) (clientId : ClientId) (clientOrderId : OrderId) :
    Except Fault OrderBook := do
  match ← s.findClientOrder clientId clientOrderId with
  | none =>
    .ok (s.sendClientResponse ⟨.cancelRejected, clientId, s.instrumentId, clientOrderId,
      invalidOrderId, .invalid, invalidPrice, invalidQuantity, invalidQuantity⟩)
  | some p =>
    let o := s.order p
    let response := ⟨.canceled, clientId, s.instrumentId, clientOrderId, o.marketOrderId,
      o.side, o.price, invalidQuantity, o.qty⟩
    let update := ⟨.cancel, o.marketOrderId, s.instrumentId, o.side, o.price, 0, o.priority⟩
    let s ← s.removeOrder p
    .ok ((s.sendClientResponse response).sendMarketUpdate update)

/-- The order is freed by `cancel` before its side is read for `add`; the block
keeps its contents. -/
def modify (fuel : Nat) (s : OrderBook) (clientId : ClientId) (clientOrderId : OrderId)
    (newPrice : Price) (newQuantity : Quantity) : Except Fault OrderBook := do
  match ← s.findClientOrder clientId clientOrderId with
  | none =>
    .ok (s.sendClientResponse ⟨.modifyRejected, clientId, s.instrumentId, clientOrderId,
      invalidOrderId, .invalid, invalidPrice, invalidQuantity, invalidQuantity⟩)
  | some p =>
    let o := s.order p
    if o.price ≠ newPrice ∨ o.qty < newQuantity then do
      let s ← s.cancel clientId clientOrderId
      s.add fuel clientId clientOrderId (s.order p).side newPrice newQuantity
    else
      let s := s.setQty p newQuantity
      let s := s.sendClientResponse ⟨.modified, clientId, s.instrumentId, clientOrderId,
        o.marketOrderId, o.side, newPrice, 0, newQuantity⟩
      .ok (s.sendMarketUpdate ⟨.modify, o.marketOrderId, s.instrumentId, o.side, newPrice,
        newQuantity, o.priority⟩)

inductive BookRequest where
  | add (clientId : ClientId) (clientOrderId : OrderId) (side : Side) (price : Price)
      (quantity : Quantity)
  | cancel (clientId : ClientId) (clientOrderId : OrderId)
  | modify (clientId : ClientId) (clientOrderId : OrderId) (newPrice : Price)
      (newQuantity : Quantity)
deriving DecidableEq

def call (fuel : Nat) (s : OrderBook) : BookRequest → Except Fault OrderBook
  | .add clientId clientOrderId side price quantity =>
    s.add fuel clientId clientOrderId side price quantity
  | .cancel clientId clientOrderId => s.cancel clientId clientOrderId
  | .modify clientId clientOrderId newPrice newQuantity =>
    s.modify fuel clientId clientOrderId newPrice newQuantity

section Fields
variable (s : OrderBook) (p r : OrderPtr) (l m : LevelPtr)

abbrev nextOrder : OrderPtr → Option OrderPtr := fun p => (s.order p).nextOrder
abbrev prevOrder : OrderPtr → Option OrderPtr := fun p => (s.order p).prevOrder
abbrev nextEntry : LevelPtr → Option LevelPtr := fun l => (s.level l).nextEntry
abbrev prevEntry : LevelPtr → Option LevelPtr := fun l => (s.level l).prevEntry

theorem order_setOrder (o : Order) :
    (s.setOrder p o).order r = if r = p then o else s.order r := by
  simp [order, setOrder, Function.update_apply]

theorem level_setLevel (x : PriceLevel) :
    (s.setLevel l x).level m = if m = l then x else s.level m := by
  simp [level, setLevel, Function.update_apply]

theorem best_setBest (side side' : Side) (x : Option LevelPtr) :
    (s.setBest side x).best side' =
      if side = .buy ↔ side' = .buy then x else s.best side' := by
  by_cases hs : side = .buy <;> by_cases hs' : side' = .buy <;>
    simp [setBest, best, hs, hs']

@[simp] theorem level_setOrder (o : Order) : (s.setOrder p o).level = s.level := rfl
@[simp] theorem level_setNextOrder (q) : (s.setNextOrder p q).level = s.level := rfl
@[simp] theorem level_setPrevOrder (q) : (s.setPrevOrder p q).level = s.level := rfl
@[simp] theorem level_setQty (q) : (s.setQty p q).level = s.level := rfl
@[simp] theorem order_setNextEntry (q) : (s.setNextEntry l q).order = s.order := rfl
@[simp] theorem order_setPrevEntry (q) : (s.setPrevEntry l q).order = s.order := rfl
@[simp] theorem order_setFirstOrder (q) : (s.setFirstOrder l q).order = s.order := rfl
@[simp] theorem best_setNextEntry (q) : (s.setNextEntry l q).best = s.best := rfl
@[simp] theorem best_setPrevEntry (q) : (s.setPrevEntry l q).best = s.best := rfl
@[simp] theorem level_setBest (side) (q) : (s.setBest side q).level = s.level := rfl
@[simp] theorem level_setPriceLevel (i) (q) : (s.setPriceLevel i q).level = s.level := rfl
@[simp] theorem best_setPriceLevel (i) (q) : (s.setPriceLevel i q).best = s.best := rfl
@[simp] theorem best_setFirstOrder (q) : (s.setFirstOrder l q).best = s.best := rfl
@[simp] theorem best_freeLevel : (s.freeLevel l).best = s.best := rfl

@[simp] theorem level_freeLevel : (s.freeLevel l).level = s.level := by
  funext m
  simp [level, freeLevel]

@[simp] theorem order_freeOrder : (s.freeOrder p).order = s.order := by
  funext m
  simp [order, freeOrder]

@[simp] theorem fields_setNextOrder (q) :
    ((s.setNextOrder p q).order r).toOrderFields = (s.order r).toOrderFields := by
  by_cases h : r = p <;> simp [setNextOrder, order_setOrder, h]

@[simp] theorem fields_setPrevOrder (q) :
    ((s.setPrevOrder p q).order r).toOrderFields = (s.order r).toOrderFields := by
  by_cases h : r = p <;> simp [setPrevOrder, order_setOrder, h]

@[simp] theorem fields_setQty (q) :
    ((s.setQty p q).order r).toOrderFields =
      if r = p then { (s.order p).toOrderFields with qty := q }
      else (s.order r).toOrderFields := by
  by_cases h : r = p <;> simp [setQty, order_setOrder, h]

@[simp] theorem nextOrder_setNextOrder (q) :
    ((s.setNextOrder p q).order r).nextOrder = if r = p then q else (s.order r).nextOrder := by
  by_cases h : r = p <;> simp [setNextOrder, order_setOrder, h]

@[simp] theorem prevOrder_setNextOrder (q) :
    ((s.setNextOrder p q).order r).prevOrder = (s.order r).prevOrder := by
  by_cases h : r = p <;> simp [setNextOrder, order_setOrder, h]

@[simp] theorem nextOrder_setPrevOrder (q) :
    ((s.setPrevOrder p q).order r).nextOrder = (s.order r).nextOrder := by
  by_cases h : r = p <;> simp [setPrevOrder, order_setOrder, h]

@[simp] theorem prevOrder_setPrevOrder (q) :
    ((s.setPrevOrder p q).order r).prevOrder = if r = p then q else (s.order r).prevOrder := by
  by_cases h : r = p <;> simp [setPrevOrder, order_setOrder, h]

@[simp] theorem nextOrder_setQty (q) :
    ((s.setQty p q).order r).nextOrder = (s.order r).nextOrder := by
  by_cases h : r = p <;> simp [setQty, order_setOrder, h]

@[simp] theorem prevOrder_setQty (q) :
    ((s.setQty p q).order r).prevOrder = (s.order r).prevOrder := by
  by_cases h : r = p <;> simp [setQty, order_setOrder, h]

@[simp] theorem nextEntry_setNextEntry (q) :
    ((s.setNextEntry l q).level m).nextEntry = if m = l then q else (s.level m).nextEntry := by
  by_cases h : m = l <;> simp [setNextEntry, level_setLevel, h]

@[simp] theorem prevEntry_setNextEntry (q) :
    ((s.setNextEntry l q).level m).prevEntry = (s.level m).prevEntry := by
  by_cases h : m = l <;> simp [setNextEntry, level_setLevel, h]

@[simp] theorem nextEntry_setPrevEntry (q) :
    ((s.setPrevEntry l q).level m).nextEntry = (s.level m).nextEntry := by
  by_cases h : m = l <;> simp [setPrevEntry, level_setLevel, h]

@[simp] theorem prevEntry_setPrevEntry (q) :
    ((s.setPrevEntry l q).level m).prevEntry = if m = l then q else (s.level m).prevEntry := by
  by_cases h : m = l <;> simp [setPrevEntry, level_setLevel, h]

@[simp] theorem side_setNextEntry (q) :
    ((s.setNextEntry l q).level m).side = (s.level m).side := by
  by_cases h : m = l <;> simp [setNextEntry, level_setLevel, h]

@[simp] theorem side_setPrevEntry (q) :
    ((s.setPrevEntry l q).level m).side = (s.level m).side := by
  by_cases h : m = l <;> simp [setPrevEntry, level_setLevel, h]

@[simp] theorem price_setNextEntry (q) :
    ((s.setNextEntry l q).level m).price = (s.level m).price := by
  by_cases h : m = l <;> simp [setNextEntry, level_setLevel, h]

@[simp] theorem price_setPrevEntry (q) :
    ((s.setPrevEntry l q).level m).price = (s.level m).price := by
  by_cases h : m = l <;> simp [setPrevEntry, level_setLevel, h]

@[simp] theorem firstOrder_setNextEntry (q) :
    ((s.setNextEntry l q).level m).firstOrder = (s.level m).firstOrder := by
  by_cases h : m = l <;> simp [setNextEntry, level_setLevel, h]

@[simp] theorem firstOrder_setPrevEntry (q) :
    ((s.setPrevEntry l q).level m).firstOrder = (s.level m).firstOrder := by
  by_cases h : m = l <;> simp [setPrevEntry, level_setLevel, h]

@[simp] theorem firstOrder_setFirstOrder (q) :
    ((s.setFirstOrder l q).level m).firstOrder = if m = l then q else (s.level m).firstOrder := by
  by_cases h : m = l <;> simp [setFirstOrder, level_setLevel, h]

theorem level_setFirstOrder (q) : ((s.setFirstOrder l q).level m).side = (s.level m).side ∧
    ((s.setFirstOrder l q).level m).price = (s.level m).price ∧
    ((s.setFirstOrder l q).level m).nextEntry = (s.level m).nextEntry ∧
    ((s.setFirstOrder l q).level m).prevEntry = (s.level m).prevEntry := by
  by_cases h : m = l <;> simp [setFirstOrder, level_setLevel, h]

end Fields

end OrderBook

end StockExchange
