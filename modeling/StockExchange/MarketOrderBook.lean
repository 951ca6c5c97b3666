import StockExchange.OrderBook

/-!
# The book of a client

`example/trading_engine/market_order_book.{hpp,cpp}`, which rebuilds the book of one
instrument from the market updates. A market order id is the index of its order, prices
alone find their level, and `clear_price_levels` frees the levels of a side but leaves
`price_levels_` as it is. Logging and the calls into `trade_engine_` are left out: they
read the book and change nothing of it.
-/

namespace StockExchange

/-- The members of `market_order` other than its ring links. -/
structure MarketOrderFields where
  marketOrderId : OrderId
  side : Side
  price : Price
  qty : Quantity
  priority : Priority
deriving DecidableEq

structure MarketOrder extends MarketOrderFields where
  prevOrder : Option OrderPtr
  nextOrder : Option OrderPtr

/-- `market_price_level` has the members of `price_level`. -/
abbrev MarketPriceLevel := PriceLevel

def MarketOrder.default : MarketOrder :=
  ⟨⟨invalidOrderId, .invalid, invalidPrice, invalidQuantity, invalidPriority⟩, none, none⟩

/-- `bbo_t`. -/
structure Bbo where
  bidPrice : Price
  askPrice : Price
  bidQty : Quantity
  askQty : Quantity
deriving DecidableEq

structure MarketOrderBook where
  instrumentId : InstrumentId
  orders : Nat → Option OrderPtr
  priceLevelPool : MemoryPool MarketPriceLevel
  bid : Option LevelPtr
  ask : Option LevelPtr
  priceLevels : Nat → Option LevelPtr
  orderPool : MemoryPool MarketOrder
  bbo : Bbo

namespace MarketOrderBook

def create (instrumentId : InstrumentId) : MarketOrderBook where
  instrumentId := instrumentId
  orders _ := none
  priceLevelPool := .create .default maxPriceLevels
  bid := none
  ask := none
  priceLevels _ := none
  orderPool := .create .default maxNumOrders
  bbo := ⟨invalidPrice, invalidPrice, invalidQuantity, invalidQuantity⟩

def order (m : MarketOrderBook) (p : OrderPtr) : MarketOrder := m.orderPool.read p
def level (m : MarketOrderBook) (l : LevelPtr) : MarketPriceLevel := m.priceLevelPool.read l

def setOrder (m : MarketOrderBook) (p : OrderPtr) (o : MarketOrder) : MarketOrderBook :=
  { m with orderPool := m.orderPool.write p o }

def setNextOrder (m : MarketOrderBook) (p : OrderPtr) (q : Option OrderPtr) : MarketOrderBook :=
  m.setOrder p { m.order p with nextOrder := q }

def setPrevOrder (m : MarketOrderBook) (p : OrderPtr) (q : Option OrderPtr) : MarketOrderBook :=
  m.setOrder p { m.order p with prevOrder := q }

def setLevel (m : MarketOrderBook) (l : LevelPtr) (x : MarketPriceLevel) : MarketOrderBook :=
  { m with priceLevelPool := m.priceLevelPool.write l x }

def setNextEntry (m : MarketOrderBook) (l : LevelPtr) (k : Option LevelPtr) : MarketOrderBook :=
  m.setLevel l { m.level l with nextEntry := k }

def setPrevEntry (m : MarketOrderBook) (l : LevelPtr) (k : Option LevelPtr) : MarketOrderBook :=
  m.setLevel l { m.level l with prevEntry := k }

def setFirstOrder (m : MarketOrderBook) (l : LevelPtr) (p : Option OrderPtr) : MarketOrderBook :=
  m.setLevel l { m.level l with firstOrder := p }

/-- The reference `best_price_level`: `bid_` for a buy, `ask_` for any other side. -/
def best (m : MarketOrderBook) (side : Side) : Option LevelPtr :=
  if side = .buy then m.bid else m.ask

def setBest (m : MarketOrderBook) (side : Side) (l : Option LevelPtr) : MarketOrderBook :=
  { m with
    bid := if side = .buy then l else m.bid
    ask := if side = .buy then m.ask else l }

def setPriceLevel (m : MarketOrderBook) (i : Nat) (l : Option LevelPtr) : MarketOrderBook :=
  { m with priceLevels := Function.update m.priceLevels i l }

def freeLevel (m : MarketOrderBook) (l : LevelPtr) : MarketOrderBook :=
  { m with priceLevelPool := m.priceLevelPool.free l }

def freeOrder (m : MarketOrderBook) (p : OrderPtr) : MarketOrderBook :=
  { m with orderPool := m.orderPool.free p }

/-- `orders_.at(id) = p`. -/
def setMarketOrder (m : MarketOrderBook) (id : OrderId) (p : Option OrderPtr) :
    Except Fault MarketOrderBook :=
  if id.toNat < maxNumOrders then
    .ok { m with orders := Function.update m.orders id.toNat p }
  else .error .thrown

/-- `orders_.at(id)`. -/
def findOrder (m : MarketOrderBook) (id : OrderId) : Except Fault (Option OrderPtr) :=
  if id.toNat < maxNumOrders then .ok (m.orders id.toNat) else .error .thrown

/-- Whatever level the slot of the price points to. -/
def getPriceLevel (m : MarketOrderBook) (price : Price) : Option LevelPtr :=
  m.priceLevels (priceToIndex price)

/-- The loop of `update_side` over the orders behind the first one. -/
def sumQty (m : MarketOrderBook) (first : OrderPtr) :
    Nat → Option OrderPtr → Quantity → Except Fault Quantity
  | 0, _, _ => .error .outOfFuel
  | fuel + 1, order, quantity =>
    if order = some first then .ok quantity else do
      let p ← deref order
      sumQty m first fuel (m.order p).nextOrder (quantity + (m.order p).qty)

def updateSide (fuel : Nat) (m : MarketOrderBook) (level : Option LevelPtr) :
    Except Fault (Price × Quantity) :=
  match level with
  | none => .ok (invalidPrice, invalidQuantity)
  | some l => do
    let first ← deref (m.level l).firstOrder
    let quantity ← m.sumQty first fuel (m.order first).nextOrder (m.order first).qty
    .ok ((m.level l).price, quantity)

def updateBid (fuel : Nat) (m : MarketOrderBook) : Except Fault MarketOrderBook := do
  let q ← updateSide fuel m m.bid
  .ok { m with bbo := { m.bbo with bidPrice := q.1, bidQty := q.2 } }

def updateAsk (fuel : Nat) (m : MarketOrderBook) : Except Fault MarketOrderBook := do
  let q ← updateSide fuel m m.ask
  .ok { m with bbo := { m.bbo with askPrice := q.1, askQty := q.2 } }

def updateBbo (fuel : Nat) (m : MarketOrderBook) (bid ask : Bool) :
    Except Fault MarketOrderBook := do
  let m ← (if bid then m.updateBid fuel else .ok m)
  if ask then m.updateAsk fuel else .ok m

/-- The loop of `clear_price_levels` from the level behind the best one on. -/
def freeLevels (best : LevelPtr) :
    Nat → MarketOrderBook → Option LevelPtr → Except Fault MarketOrderBook
  | 0, _, _ => .error .outOfFuel
  | _ + 1, m, none => .ok m
  | fuel + 1, m, some p =>
    if p = best then .ok m
    else freeLevels best fuel (m.freeLevel p) (m.level p).nextEntry

def clearPriceLevels (fuel : Nat) (m : MarketOrderBook) (side : Side) :
    Except Fault MarketOrderBook :=
  match m.best side with
  | none => .ok m
  | some best => do
    let m ← freeLevels best fuel m (m.level best).nextEntry
    .ok (m.freeLevel best)

def addAfter (m : MarketOrderBook) (current new : LevelPtr) : Except Fault MarketOrderBook := do
  let m := m.setNextEntry new (m.level current).nextEntry
  let m := m.setPrevEntry new (some current)
  let next ← deref (m.level current).nextEntry
  let m := m.setPrevEntry next (some new)
  .ok (m.setNextEntry current (some new))

def addBefore (m : MarketOrderBook) (current new : LevelPtr) : Except Fault MarketOrderBook := do
  let m := m.setPrevEntry new (m.level current).prevEntry
  let m := m.setNextEntry new (some current)
  let prev ← deref (m.level current).prevEntry
  let m := m.setNextEntry prev (some new)
  .ok (m.setPrevEntry current (some new))

/-- The `while` loop of `add_price_level`, the same as that of the engine. -/
def findPosition (m : MarketOrderBook) (new best : LevelPtr) :
    Nat → LevelPtr → Bool → Except Fault (LevelPtr × Bool)
  | 0, _, _ => .error .outOfFuel
  | fuel + 1, current, addAfterFlag =>
    if !addAfterFlag &&
        !betterPrice (m.level new).price (m.level current).price (m.level new).side then do
      let current ← deref (m.level current).nextEntry
      if (m.level current).nextEntry = some best then
        findPosition m new best fuel current true
      else findPosition m new best fuel current addAfterFlag
    else .ok (current, addAfterFlag)

def addPriceLevel (fuel : Nat) (m : MarketOrderBook) (new : LevelPtr) :
    Except Fault MarketOrderBook :=
  let m := m.setPriceLevel (priceToIndex (m.level new).price) (some new)
  match m.best (m.level new).side with
  | none =>
    let m := m.setBest (m.level new).side (some new)
    let m := m.setPrevEntry new (some new)
    .ok (m.setNextEntry new (some new))
  | some best =>
    if betterPrice (m.level new).price (m.level best).price (m.level new).side then do
      let m ← m.addBefore best new
      .ok (m.setBest (m.level new).side (some new))
    else do
      let first ← deref (m.level best).nextEntry
      let (current, addAfterFlag) ← m.findPosition new best fuel first false
      if addAfterFlag then m.addAfter current new else m.addBefore current new

def removeOrderAtPrice (m : MarketOrderBook) (side : Side) (price : Price) :
    Except Fault MarketOrderBook := do
  let l ← deref (m.getPriceLevel price)
  let m ← if (m.level l).nextEntry = some l then .ok (m.setBest side none) else do
    let prev ← deref (m.level l).prevEntry
    let m := m.setNextEntry prev (m.level l).nextEntry
    let next ← deref (m.level l).nextEntry
    let m := m.setPrevEntry next (m.level l).prevEntry
    let m := if m.best side = some l then m.setBest side (m.level l).nextEntry else m
    .ok ((m.setPrevEntry l none).setNextEntry l none)
  .ok ((m.setPriceLevel (priceToIndex price) none).freeLevel l)

def addOrder (fuel : Nat) (m : MarketOrderBook) (p : OrderPtr) :
    Except Fault MarketOrderBook := do
  let m ← match m.getPriceLevel (m.order p).price with
    | none => do
      let m := m.setPrevOrder p (some p)
      let m := m.setNextOrder p (some p)
      let (pool, new) ← m.priceLevelPool.alloc
        ⟨(m.order p).side, (m.order p).price, some p, none, none⟩
      addPriceLevel fuel { m with priceLevelPool := pool } new
    | some l => do
      let first ← deref (m.level l).firstOrder
      let last ← deref (m.order first).prevOrder
      let m := m.setNextOrder last (some p)
      let m := m.setPrevOrder p (some last)
      let m := m.setNextOrder p (m.level l).firstOrder
      let first ← deref (m.level l).firstOrder
      .ok (m.setPrevOrder first (some p))
  m.setMarketOrder (m.order p).marketOrderId (some p)

def removeOrder (m : MarketOrderBook) (p : OrderPtr) : Except Fault MarketOrderBook := do
  let level := m.getPriceLevel (m.order p).price
  let m ← if (m.order p).prevOrder = some p then
      m.removeOrderAtPrice (m.order p).side (m.order p).price
    else do
      let before ← deref (m.order p).prevOrder
      let after ← deref (m.order p).nextOrder
      let m := m.setNextOrder before (some after)
      let m := m.setPrevOrder after (some before)
      let l ← deref level
      let m := if (m.level l).firstOrder = some p then m.setFirstOrder l (some after) else m
      .ok ((m.setNextOrder p none).setPrevOrder p none)
  let m ← m.setMarketOrder (m.order p).marketOrderId none
  .ok (m.freeOrder p)

/-- The loop over `orders_` when the book is cleared. -/
def freeOrders (m : MarketOrderBook) : MarketOrderBook :=
  { m with orderPool := ((List.range maxNumOrders).filterMap m.orders).foldl .free m.orderPool }

def clear (fuel : Nat) (m : MarketOrderBook) : Except Fault MarketOrderBook := do
  let m := { m.freeOrders with orders := fun _ => none }
  let m ← m.clearPriceLevels fuel .buy
  let m ← m.clearPriceLevels fuel .sell
  .ok { m with bid := none, ask := none }

/-- The `switch` of `on_market_update`, up to the return in its case `TRADE`. -/
def apply (fuel : Nat) (m : MarketOrderBook) (u : MarketUpdate) : Except Fault MarketOrderBook :=
  if u.type = .add then do
    let (pool, p) ← m.orderPool.alloc ⟨⟨u.orderId, u.side, u.price, u.qty, u.priority⟩, none, none⟩
    addOrder fuel { m with orderPool := pool } p
  else if u.type = .modify then do
    let p ← deref (← m.findOrder u.orderId)
    .ok (m.setOrder p { m.order p with price := u.price, qty := u.qty })
  else if u.type = .cancel then do
    let p ← deref (← m.findOrder u.orderId)
    m.removeOrder p
  else if u.type = .clear then m.clear fuel
  else .ok m

def onMarketUpdate (fuel : Nat) (m : MarketOrderBook) (u : MarketUpdate) :
    Except Fault MarketOrderBook := do
  let bidUpdated := match m.bid with
    | none => false
    | some l => u.side = .buy ∧ (m.level l).price ≤ u.price
  let askUpdated := match m.ask with
    | none => false
    | some l => u.side = .sell ∧ u.price ≤ (m.level l).price
  let m ← m.apply fuel u
  if u.type = .trade then .ok m else m.updateBbo fuel bidUpdated askUpdated

/-- The updates for one instrument, each on the book left by the one before. -/
def run (fuel : Nat) : MarketOrderBook → List MarketUpdate → Except Fault MarketOrderBook
  | m, [] => .ok m
  | m, u :: us => do
    let m ← m.onMarketUpdate fuel u
    run fuel m us

section Fields
variable (m : MarketOrderBook) (p r : OrderPtr) (l k : LevelPtr) (side : Side)

theorem order_setOrder (o : MarketOrder) :
    (m.setOrder p o).order r = if r = p then o else m.order r := by
  simp [order, setOrder, Function.update_apply]

theorem level_setLevel (x : MarketPriceLevel) :
    (m.setLevel l x).level k = if k = l then x else m.level k := by
  simp [level, setLevel, Function.update_apply]

@[simp] theorem best_setNextEntry (q) : (m.setNextEntry l q).best side = m.best side := rfl
@[simp] theorem best_setPrevEntry (q) : (m.setPrevEntry l q).best side = m.best side := rfl

@[simp] theorem level_freeLevel : (m.freeLevel l).level = m.level := by
  funext k
  simp [level, freeLevel]

@[simp] theorem price_setNextEntry (q) :
    ((m.setNextEntry l q).level k).price = (m.level k).price := by
  by_cases h : k = l <;> simp [setNextEntry, level_setLevel, h]

@[simp] theorem price_setPrevEntry (q) :
    ((m.setPrevEntry l q).level k).price = (m.level k).price := by
  by_cases h : k = l <;> simp [setPrevEntry, level_setLevel, h]

@[simp] theorem fields_setNextOrder (q) :
    ((m.setNextOrder p q).order r).toMarketOrderFields = (m.order r).toMarketOrderFields := by
  by_cases h : r = p <;> simp [setNextOrder, order_setOrder, h]

@[simp] theorem fields_setPrevOrder (q) :
    ((m.setPrevOrder p q).order r).toMarketOrderFields = (m.order r).toMarketOrderFields := by
  by_cases h : r = p <;> simp [setPrevOrder, order_setOrder, h]

end Fields

end MarketOrderBook

end StockExchange
