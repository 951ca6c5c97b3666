import StockExchange.ViewLemmas
import StockExchange.Library.Ring

/-!
# The heap represents the lists

`Represents s v` reads every pointer of the book: both level rings, every order
ring, the slot table and the two pools. The lemmas below follow the pointer code
of `order_book.hpp` and land on the list operations of the view.
-/

namespace StockExchange

open Ring BookView

structure LevelRep (s : OrderBook) (l : LevelView) : Prop where
  side : (s.level l.handle).side = l.side
  price : (s.level l.handle).price = l.price
  firstOrder : (s.level l.handle).firstOrder = (l.orders.map (·.handle)).head?
  ring : IsRing s.nextOrder s.prevOrder (l.orders.map (·.handle))
  fields : ∀ o ∈ l.orders, (s.order o.handle).toOrderFields = o.toOrderFields

structure SideRep (s : OrderBook) (best : Option LevelPtr) (hs : List LevelPtr) : Prop where
  head : best = hs.head?
  ring : IsRing s.nextEntry s.prevEntry hs

structure Represents (s : OrderBook) (v : BookView) : Prop where
  instrumentId : s.instrumentId = v.instrumentId
  sides : ∀ side, SideRep s (s.best side) ((v.own side).map (·.handle))
  level : ∀ l ∈ v.levels, LevelRep s l
  slots : ∀ i, s.priceLevels i = (v.slotLevel i).map (·.handle)
  orderPool : s.orderPool.Owns v.freeOrders (v.orders.map (·.handle))
  levelPool : s.priceLevelPool.Owns v.freeLevels (v.levels.map (·.handle))
  clientOrders : s.clientOrders = v.clientOrders
  nextMarketOrderId : s.nextMarketOrderId = v.nextMarketOrderId
  sent : s.sent = v.sent

theorem create_represents (i : InstrumentId) :
    Represents (OrderBook.create i) (BookView.create i) := by
  have orders := @MemoryPool.Owns.create _ Order.default maxNumOrders
    (by simp [maxNumOrders]) (by simp [maxNumOrders, MemoryPool.endOfChain])
  have levels := @MemoryPool.Owns.create _ PriceLevel.default maxPriceLevels
    (by simp [maxPriceLevels]) (by simp [maxPriceLevels, MemoryPool.endOfChain])
  refine ⟨rfl, ?_, by simp [BookView.create, BookView.levels], fun _ => rfl, ?_, ?_, rfl, rfl,
    rfl⟩
  · intro side
    by_cases hs : side = .buy <;>
      exact ⟨by simp [OrderBook.best, OrderBook.create, own, BookView.create, hs], by
        simpa [own, BookView.create, hs] using isRing_nil⟩
  · simpa [OrderBook.create, BookView.create, BookView.orders, BookView.levels] using orders
  · simpa [OrderBook.create, BookView.create, BookView.levels] using levels

theorem LevelRep.congr {s s' : OrderBook} {l : LevelView} (h : LevelRep s l)
    (side : (s'.level l.handle).side = (s.level l.handle).side)
    (price : (s'.level l.handle).price = (s.level l.handle).price)
    (firstOrder : (s'.level l.handle).firstOrder = (s.level l.handle).firstOrder)
    (orders : ∀ o ∈ l.orders, s'.order o.handle = s.order o.handle) : LevelRep s' l := by
  refine ⟨side.trans h.side, price.trans h.price, firstOrder.trans h.firstOrder, ?_, ?_⟩
  · refine h.ring.congr ?_ ?_ <;> intro p hp
    · obtain ⟨o, ho, rfl⟩ := List.mem_map.mp hp
      exact congrArg Order.nextOrder (orders o ho)
    · obtain ⟨o, ho, rfl⟩ := List.mem_map.mp hp
      exact congrArg Order.prevOrder (orders o ho)
  · intro o ho
    rw [orders o ho]
    exact h.fields o ho

/-- Messages and the id counter are not part of the heap. -/
theorem Represents.report {s : OrderBook} {v : BookView} (h : Represents s v) (id : OrderId)
    (ms : List Message) : Represents { s with nextMarketOrderId := id, sent := s.sent ++ ms }
      (({ v with nextMarketOrderId := id } : BookView).send ms) := by
  refine ⟨h.instrumentId, ?_, ?_, h.slots, h.orderPool, h.levelPool, h.clientOrders, rfl, ?_⟩
  · intro side
    exact ⟨(h.sides side).head, (h.sides side).ring⟩
  · intro l hl
    obtain ⟨side, price, firstOrder, ring, fields⟩ := h.level l hl
    exact ⟨side, price, firstOrder, ring, fields⟩
  · change s.sent ++ ms = v.sent ++ ms
    rw [h.sent]

theorem Represents.send {s : OrderBook} {v : BookView} (h : Represents s v)
    (ms : List Message) : Represents { s with sent := s.sent ++ ms } (v.send ms) := by
  rw [h.nextMarketOrderId]
  exact h.report v.nextMarketOrderId ms

section Lookup
variable {s : OrderBook} {v : BookView}

theorem Represents.getPriceLevel (h : Represents s v) (side : Side) (price : Price) :
    s.getPriceLevel side price = (v.getPriceLevel side price).map (·.handle) := by
  rw [OrderBook.getPriceLevel, BookView.getPriceLevel, h.slots]
  rcases hl : v.slotLevel (priceToIndex price) with _ | l
  · rfl
  · have hside := (h.level l (Valid.slotLevel_some hl).1).side
    by_cases hs : l.side = side <;> simp [Option.filter, hside, hs]

theorem Represents.fields (h : Represents s v) {o : OrderView} (ho : o ∈ v.orders) :
    (s.order o.handle).toOrderFields = o.toOrderFields := by
  obtain ⟨l, hl, hol⟩ := v.mem_orders.mp ho
  exact (h.level l hl).fields o hol

theorem own_congr {side side' : Side} (same : side = .buy ↔ side' = .buy) :
    v.own side = v.own side' := by
  by_cases hs : side = .buy
  · simp [own, hs, same.mp hs]
  · have hs' : ¬ side' = .buy := fun h' => hs (same.mpr h')
    simp [own, hs, hs']

/-- The two sides share no level block. -/
theorem BookView.Valid.own_ne (hv : v.Valid) {side side' : Side} {l m : LevelView}
    (differ : ¬ (side = .buy ↔ side' = .buy)) (hl : l ∈ v.own side) (hm : m ∈ v.own side') :
    l.handle ≠ m.handle := by
  intro heq
  have := hv.level_eq (v.own_subset side hl) (v.own_subset side' hm) heq
  subst this
  have hnd := hv.levels_nodup
  rw [levels, List.map_append, List.nodup_append] at hnd
  by_cases hs : side = .buy
  · have hs' : ¬ side' = .buy := fun h' => differ (by simp [hs, h'])
    exact hnd.2.2 _ (List.mem_map_of_mem (by simpa [own, hs] using hl)) _
      (List.mem_map_of_mem (by simpa [own, hs'] using hm)) rfl
  · have hs' : side' = .buy := by
      by_contra h'
      exact differ (by simp [hs, h'])
    exact hnd.2.2 _ (List.mem_map_of_mem (by simpa [own, hs'] using hm)) _
      (List.mem_map_of_mem (by simpa [own, hs] using hl)) rfl

end Lookup

/-- A step that touches only level links, best pointers, slots and the level pool. -/
structure LevelStep (s s' : OrderBook) : Prop where
  instrumentId : s'.instrumentId = s.instrumentId
  orderPool : s'.orderPool = s.orderPool
  clientOrders : s'.clientOrders = s.clientOrders
  nextMarketOrderId : s'.nextMarketOrderId = s.nextMarketOrderId
  sent : s'.sent = s.sent
  side : ∀ m, (s'.level m).side = (s.level m).side
  price : ∀ m, (s'.level m).price = (s.level m).price
  firstOrder : ∀ m, (s'.level m).firstOrder = (s.level m).firstOrder

/-- A best pointer and the ring it starts may be replaced on one side alone. -/
theorem sides_of_own {s s' : OrderBook} {v : BookView} {side : Side} {hs : List LevelPtr}
    (h : ∀ side', SideRep s (s.best side') ((v.own side').map (·.handle)))
    (changed : SideRep s' (s'.best side) hs)
    (best : ∀ side', ¬ (side = .buy ↔ side' = .buy) → s'.best side' = s.best side')
    (links : ∀ side', ¬ (side = .buy ↔ side' = .buy) → ∀ m ∈ v.own side',
      (s'.level m.handle).nextEntry = (s.level m.handle).nextEntry ∧
      (s'.level m.handle).prevEntry = (s.level m.handle).prevEntry) (side' : Side) :
    SideRep s' (s'.best side') (if side = .buy ↔ side' = .buy then hs
      else (v.own side').map (·.handle)) := by
  by_cases hsame : side = .buy ↔ side' = .buy
  · rw [if_pos hsame]
    have hbest : s'.best side' = s'.best side := by
      by_cases hb : side = .buy
      · simp [OrderBook.best, hb, hsame.mp hb]
      · have hb' : ¬ side' = .buy := fun h' => hb (hsame.mpr h')
        simp [OrderBook.best, hb, hb']
    rw [hbest]
    exact changed
  · rw [if_neg hsame]
    have hold := h side'
    refine ⟨(best side' hsame).trans hold.head, hold.ring.congr ?_ ?_⟩ <;> intro p hp <;>
      obtain ⟨m, hm, rfl⟩ := List.mem_map.mp hp
    · exact (links side' hsame m hm).1
    · exact (links side' hsame m hm).2

end StockExchange
