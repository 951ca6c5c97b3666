import StockExchange.MarketOrderBook
import StockExchange.OrderRing

/-!
# The client's book as a book of the engine

The book of a client is one of the engine whose orders all belong to client 0 and whose
client order ids are the market order ids. Slots that point to levels freed by a `CLEAR`
are hidden. Away from these, the functions of the two books are the same.
-/

namespace StockExchange

open Ring BookView

def MarketOrderFields.asFields (o : MarketOrderFields) : OrderFields :=
  ⟨0, 0, o.marketOrderId, o.marketOrderId, o.side, o.price, o.qty, o.priority⟩

def MarketOrder.asOrder (o : MarketOrder) : Order :=
  ⟨o.asFields, o.prevOrder, o.nextOrder⟩

namespace MarketOrderBook

/-- A slot left behind by a price of `cleared`. -/
def Stale (cleared : List Price) (i : Nat) : Prop := ∃ p ∈ cleared, priceToIndex p = i

instance (cleared : List Price) (i : Nat) : Decidable (Stale cleared i) :=
  inferInstanceAs (Decidable (∃ p ∈ cleared, _))

def asBook (cleared : List Price) (m : MarketOrderBook) : OrderBook where
  instrumentId := m.instrumentId
  clientOrders c i := if c = 0 then m.orders i else none
  priceLevelPool := m.priceLevelPool
  bid := m.bid
  ask := m.ask
  priceLevels i := if Stale cleared i then none else m.priceLevels i
  orderPool := m.orderPool.map MarketOrder.asOrder
  nextMarketOrderId := 1
  sent := []

section Fields
variable (cleared : List Price) (m : MarketOrderBook) (p : OrderPtr) (l : LevelPtr)

@[simp] theorem asBook_order : (m.asBook cleared).order p = (m.order p).asOrder := rfl
@[simp] theorem asBook_level : (m.asBook cleared).level l = m.level l := rfl
@[simp] theorem asBook_best (side : Side) : (m.asBook cleared).best side = m.best side := rfl

theorem asBook_setOrder (o : MarketOrder) :
    (m.setOrder p o).asBook cleared = (m.asBook cleared).setOrder p o.asOrder := by
  simp only [asBook, setOrder, OrderBook.setOrder, MemoryPool.map_write]

@[simp] theorem asBook_setNextOrder (q : Option OrderPtr) :
    (m.asBook cleared).setNextOrder p q = (m.setNextOrder p q).asBook cleared :=
  (asBook_setOrder cleared m p { m.order p with nextOrder := q }).symm

@[simp] theorem asBook_setPrevOrder (q : Option OrderPtr) :
    (m.asBook cleared).setPrevOrder p q = (m.setPrevOrder p q).asBook cleared :=
  (asBook_setOrder cleared m p { m.order p with prevOrder := q }).symm

@[simp] theorem asBook_setNextEntry (k : Option LevelPtr) :
    (m.asBook cleared).setNextEntry l k = (m.setNextEntry l k).asBook cleared := rfl

@[simp] theorem asBook_setPrevEntry (k : Option LevelPtr) :
    (m.asBook cleared).setPrevEntry l k = (m.setPrevEntry l k).asBook cleared := rfl

@[simp] theorem asBook_setFirstOrder (q : Option OrderPtr) :
    (m.asBook cleared).setFirstOrder l q = (m.setFirstOrder l q).asBook cleared := rfl

@[simp] theorem asBook_setBest (side : Side) (k : Option LevelPtr) :
    (m.asBook cleared).setBest side k = (m.setBest side k).asBook cleared := rfl

@[simp] theorem asBook_freeLevel :
    (m.asBook cleared).freeLevel l = (m.freeLevel l).asBook cleared := rfl

@[simp] theorem asBook_freeOrder :
    (m.asBook cleared).freeOrder p = (m.freeOrder p).asBook cleared := by
  simp only [asBook, freeOrder, OrderBook.freeOrder, MemoryPool.map_free]

theorem asBook_setPriceLevel {i : Nat} (fresh : ¬ Stale cleared i) (k : Option LevelPtr) :
    (m.asBook cleared).setPriceLevel i k = (m.setPriceLevel i k).asBook cleared := by
  have hslots : ∀ j, Function.update (m.asBook cleared).priceLevels i k j =
      ((m.setPriceLevel i k).asBook cleared).priceLevels j := by
    intro j
    by_cases hj : j = i
    · subst hj
      simp [asBook, setPriceLevel, fresh]
    · simp [asBook, setPriceLevel, hj]
  rw [OrderBook.setPriceLevel, funext hslots]
  rfl

theorem asBook_setClientOrder (id : OrderId) (q : Option OrderPtr) :
    (m.asBook cleared).setClientOrder 0 id q = (m.setMarketOrder id q).map (asBook cleared) := by
  by_cases hid : id.toNat < maxNumOrders
  · have htable : OrderBook.inTable 0 id := ⟨by decide, hid⟩
    rw [OrderBook.setClientOrder, if_pos htable, setMarketOrder, if_pos hid]
    have horders : ∀ c i, Function.update (m.asBook cleared).clientOrders 0
        (Function.update ((m.asBook cleared).clientOrders 0) id.toNat q) c i =
        if c = 0 then Function.update m.orders id.toNat q i else none := by
      intro c i
      by_cases hc : c = 0
      · subst hc
        by_cases hi : i = id.toNat
        · subst hi
          simp
        · simp [asBook, hi]
      · simp [asBook, hc]
    have hfun := funext fun c => funext (horders c)
    exact congrArg (fun f => Except.ok { m.asBook cleared with clientOrders := f }) hfun
  · have htable : ¬ OrderBook.inTable 0 id := fun h => hid h.2
    rw [OrderBook.setClientOrder, if_neg htable, setMarketOrder, if_neg hid]
    rfl

end Fields

section Levels
variable {cleared : List Price} {m : MarketOrderBook}

theorem asBook_addAfter (current new : LevelPtr) :
    (m.asBook cleared).addAfter current new = (m.addAfter current new).map (asBook cleared) := by
  simp only [OrderBook.addAfter, addAfter, asBook_level, asBook_setNextEntry,
    asBook_setPrevEntry]
  rcases hnext : (((m.setNextEntry new (m.level current).nextEntry).setPrevEntry new
    (some current)).level current).nextEntry with _ | next <;> rfl

theorem asBook_addBefore (current new : LevelPtr) :
    (m.asBook cleared).addBefore current new = (m.addBefore current new).map (asBook cleared) := by
  simp only [OrderBook.addBefore, addBefore, asBook_level, asBook_setNextEntry,
    asBook_setPrevEntry]
  rcases hprev : (((m.setPrevEntry new (m.level current).prevEntry).setNextEntry new
    (some current)).level current).prevEntry with _ | prev <;> rfl

theorem asBook_findPosition (new best : LevelPtr) (fuel : Nat) (current : LevelPtr)
    (flag : Bool) : (m.asBook cleared).findPosition new best fuel current flag =
      m.findPosition new best fuel current flag := by
  induction fuel generalizing current flag with
  | zero => rfl
  | succ fuel ih => simp only [OrderBook.findPosition, findPosition, asBook_level, ih]

theorem asBook_addPriceLevel {fuel : Nat} {new : LevelPtr}
    (fresh : ¬ Stale cleared (priceToIndex (m.level new).price)) :
    (m.asBook cleared).addPriceLevel fuel new =
      (m.addPriceLevel fuel new).map (asBook cleared) := by
  simp only [OrderBook.addPriceLevel, addPriceLevel, asBook_level,
    asBook_setPriceLevel _ _ fresh, asBook_best]
  generalize m.setPriceLevel (priceToIndex (m.level new).price) (some new) = m₁
  rcases hbest : m₁.best (m₁.level new).side with _ | best
  · simp
    rfl
  · simp only
    by_cases hbetter : betterPrice (m₁.level new).price (m₁.level best).price (m₁.level new).side
    · simp only [hbetter, if_true, asBook_addBefore]
      rcases m₁.addBefore best new with f | m' <;> rfl
    · simp only [hbetter, asBook_findPosition]
      rcases (m₁.level best).nextEntry with _ | first
      · rfl
      · simp only [deref_some, ok_bind]
        rcases m₁.findPosition new best fuel first false with f | ⟨current, flag⟩
        · rfl
        · simp only [ok_bind]
          cases flag
          · exact asBook_addBefore current new
          · exact asBook_addAfter current new

/-- The slot of a price that has not been left behind. -/
theorem asBook_getPriceLevel {side : Side} {price : Price}
    (fresh : ¬ Stale cleared (priceToIndex price))
    (hside : ∀ l, m.getPriceLevel price = some l → (m.level l).side = side) :
    (m.asBook cleared).getPriceLevel side price = m.getPriceLevel price := by
  have hslot : (m.asBook cleared).priceLevels (priceToIndex price) = m.getPriceLevel price :=
    if_neg fresh
  rw [OrderBook.getPriceLevel, hslot]
  rcases hl : m.getPriceLevel price with _ | l
  · rfl
  · simp [Option.filter, hside l hl]

theorem asBook_removePriceLevel {side : Side} {price : Price} {l : LevelPtr}
    (fresh : ¬ Stale cleared (priceToIndex price)) (hl : m.getPriceLevel price = some l)
    (hside : (m.level l).side = side)
    (hbest : ∃ b, m.best side = some b ∧ ((m.level b).price = (m.level l).price ↔ b = l)) :
    (m.asBook cleared).removePriceLevel side price =
      (m.removeOrderAtPrice side price).map (asBook cleared) := by
  obtain ⟨b, hb, hiff⟩ := hbest
  have hget : (m.asBook cleared).getPriceLevel side price = some l :=
    (asBook_getPriceLevel fresh fun l' hl' => Option.some.inj (hl.symm.trans hl') ▸ hside).trans hl
  have hfree : ∀ m' : MarketOrderBook, ((m'.asBook cleared).setPriceLevel (priceToIndex price)
      none).freeLevel l = ((m'.setPriceLevel (priceToIndex price) none).freeLevel l).asBook
        cleared := fun m' => by rw [asBook_setPriceLevel cleared m' fresh, asBook_freeLevel]
  simp only [OrderBook.removePriceLevel, hget, removeOrderAtPrice, hl, deref_some, ok_bind,
    asBook_level, asBook_setBest, asBook_setNextEntry, asBook_setPrevEntry]
  by_cases halone : (m.level l).nextEntry = some l
  · simp only [halone, if_true, hfree]
    rfl
  · simp only [halone, if_false]
    rcases (m.level l).prevEntry with _ | prev
    · rfl
    simp only [deref_some, ok_bind]
    rcases hnext : ((m.setNextEntry prev (m.level l).nextEntry).level l).nextEntry with _ | next
    · rfl
    simp only [deref_some, ok_bind]
    simp only [asBook_best, best_setNextEntry, best_setPrevEntry, hb, deref_some, ok_bind,
      price_setNextEntry, price_setPrevEntry, hiff]
    by_cases hbl : b = l
    · subst hbl
      simp only [if_true, asBook_setPrevEntry, asBook_setNextEntry, hfree]
      rfl
    · have hne : ¬ some b = some l := fun h => hbl (Option.some.inj h)
      simp only [hbl, hne, if_false, asBook_setPrevEntry, asBook_setNextEntry, hfree]
      rfl

end Levels

section Orders
variable {cleared : List Price} {m : MarketOrderBook} {p : OrderPtr}

/-- The order enters its table, or leaves it. -/
theorem asBook_file (x : Except Fault MarketOrderBook) (q : Option OrderPtr) :
    (x.map (asBook cleared) >>= fun s =>
      s.setClientOrder (s.order p).clientId (s.order p).clientOrderId q) =
    (x >>= fun m => m.setMarketOrder (m.order p).marketOrderId q).map (asBook cleared) := by
  cases x with
  | error f => rfl
  | ok m => exact asBook_setClientOrder cleared m (m.order p).marketOrderId q

theorem alloc_read {α : Type} {pool pool' : MemoryPool α} {value : α} {q : Nat}
    (h : pool.alloc value = .ok (pool', q)) : pool'.read q = value := by
  by_cases hlt : pool.freeBlockIndex < pool.size
  · simp only [MemoryPool.alloc, hlt, if_true] at h
    cases h
    simp [MemoryPool.read]
  · simp only [MemoryPool.alloc, hlt, if_false] at h
    cases h

theorem asBook_addOrder {fuel : Nat} (fresh : ¬ Stale cleared (priceToIndex (m.order p).price))
    (hside : ∀ l, m.getPriceLevel (m.order p).price = some l →
      (m.level l).side = (m.order p).side) :
    (m.asBook cleared).addOrder fuel p = (m.addOrder fuel p).map (asBook cleared) := by
  have hget := asBook_getPriceLevel fresh hside
  have hget' : (m.asBook cleared).getPriceLevel ((m.asBook cleared).order p).side
      ((m.asBook cleared).order p).price = m.getPriceLevel (m.order p).price := hget
  simp only [OrderBook.addOrder, addOrder, hget']
  rcases hl : m.getPriceLevel (m.order p).price with _ | l
  · simp only [asBook_setPrevOrder, asBook_setNextOrder]
    generalize hm₁ : (m.setPrevOrder p (some p)).setNextOrder p (some p) = m₁
    have hprice : (m₁.order p).price = (m.order p).price := by
      rw [← hm₁, fields_setNextOrder, fields_setPrevOrder]
    change m₁.priceLevelPool.alloc ⟨(m₁.order p).side, (m₁.order p).price, some p, none, none⟩
      >>= _ = _
    rcases halloc : m₁.priceLevelPool.alloc
      ⟨(m₁.order p).side, (m₁.order p).price, some p, none, none⟩ with f | ⟨pool, new⟩
    · rfl
    simp only [ok_bind]
    have hnew : (({ m₁ with priceLevelPool := pool } : MarketOrderBook).level new).price =
        (m.order p).price := (congrArg PriceLevel.price (alloc_read halloc)).trans hprice
    have hadd := @asBook_addPriceLevel cleared { m₁ with priceLevelPool := pool } fuel new
      (hnew ▸ fresh)
    rw [← asBook_file, ← hadd]
    rfl
  · simp only [asBook_setPrevOrder, asBook_setNextOrder, asBook_level]
    rcases hfirst : (m.level l).firstOrder with _ | first
    · rfl
    simp only [deref_some, ok_bind]
    change deref (m.order first).prevOrder >>= _ = _
    rcases (m.order first).prevOrder with _ | last
    · rfl
    simp only [deref_some, ok_bind]
    generalize ((m.setNextOrder last (some p)).setPrevOrder p (some last)).setNextOrder p
      (((m.setNextOrder last (some p)).setPrevOrder p (some last)).level l).firstOrder = m₁
    rcases (m₁.level l).firstOrder with _ | first'
    · rfl
    · exact asBook_file (.ok (m₁.setPrevOrder first' (some p))) (some p)

/-- A resting order whose level the slot finds, on its side. -/
theorem asBook_removeOrder {l : LevelPtr}
    (fresh : ¬ Stale cleared (priceToIndex (m.order p).price))
    (hl : m.getPriceLevel (m.order p).price = some l)
    (hside : (m.level l).side = (m.order p).side)
    (hbest : ∃ b, m.best (m.order p).side = some b ∧
      ((m.level b).price = (m.level l).price ↔ b = l)) :
    (m.asBook cleared).removeOrder p = (m.removeOrder p).map (asBook cleared) := by
  have hget : (m.asBook cleared).getPriceLevel (m.order p).side (m.order p).price = some l :=
    (asBook_getPriceLevel fresh fun l' hl' => Option.some.inj (hl.symm.trans hl') ▸ hside).trans hl
  have hget' : (m.asBook cleared).getPriceLevel ((m.asBook cleared).order p).side
      ((m.asBook cleared).order p).price = some l := hget
  have hfile : ∀ x : Except Fault MarketOrderBook, (x.map (asBook cleared) >>= fun s =>
      s.setClientOrder (s.order p).clientId (s.order p).clientOrderId none >>= fun s =>
        .ok (s.freeOrder p)) = (x >>= fun m => m.setMarketOrder (m.order p).marketOrderId none
          >>= fun m => .ok (m.freeOrder p)).map (asBook cleared) := by
    intro x
    rw [← bind_assoc, asBook_file x none, ← bind_assoc]
    rcases (x >>= fun m => m.setMarketOrder (m.order p).marketOrderId none) with f | m'
    · rfl
    · exact congrArg Except.ok (asBook_freeOrder cleared m' p)
  simp only [OrderBook.removeOrder, removeOrder, hget', hl]
  by_cases halone : (m.order p).prevOrder = some p
  · have halone' : ((m.asBook cleared).order p).prevOrder = some p := halone
    simp only [halone, halone', if_true]
    rw [← hfile, ← asBook_removePriceLevel fresh hl hside hbest]
    rfl
  · have halone' : ¬ ((m.asBook cleared).order p).prevOrder = some p := halone
    simp only [halone, halone', if_false, asBook_setPrevOrder, asBook_setNextOrder]
    change deref (m.order p).prevOrder >>= _ = _
    rcases (m.order p).prevOrder with _ | before
    · rfl
    simp only [deref_some, ok_bind]
    change deref (m.order p).nextOrder >>= _ = _
    rcases (m.order p).nextOrder with _ | after
    · rfl
    simp only [deref_some, ok_bind, asBook_level]
    by_cases hfirst : (((m.setNextOrder before (some after)).setPrevOrder after
      (some before)).level l).firstOrder = some p
    · simp only [hfirst, if_true, asBook_setFirstOrder, asBook_setNextOrder, asBook_setPrevOrder]
      exact hfile (.ok _)
    · simp only [hfirst, if_false, asBook_setNextOrder, asBook_setPrevOrder]
      exact hfile (.ok _)

end Orders

end MarketOrderBook

end StockExchange
