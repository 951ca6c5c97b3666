import StockExchange.BookEdits

/-!
# Cancelling what was just added

An order that meets nothing on entry and is cancelled at once leaves no trace in the book: the
rings, the tables and the free blocks are what they were, in the order they were.
-/

namespace StockExchange

open Ring BookView

attribute [ext] BookView

namespace OrderBook

/-- `p` carries these ids. -/
def OwnedBy (s : OrderBook) (p : OrderPtr) (clientId : ClientId) (clientOrderId : OrderId) : Prop :=
  (s.order p).clientId = clientId ∧ (s.order p).clientOrderId = clientOrderId

/-- The client has no order with this id in the book. -/
def NoLiveOrder (s : OrderBook) (clientId : ClientId) (clientOrderId : OrderId) : Prop :=
  ∀ p ∈ s.resting, ¬ s.OwnedBy p clientId clientOrderId

/-- The best order of the other side, if any, is out of the limit. -/
def MeetsNothing (s : OrderBook) (side : Side) (price : Price) : Prop :=
  ∀ l ∈ s.best side.other, ∀ p ∈ (s.level l).firstOrder,
    if side = .buy then price < (s.order p).price else (s.order p).price < price

/-- What can be reached in `s`, its tables and its free blocks, block by block, are the same in
`t`. -/
structure Restored (s t : OrderBook) : Prop where
  instrumentId : t.instrumentId = s.instrumentId
  bid : t.bid = s.bid
  ask : t.ask = s.ask
  level : ∀ side l, s.LevelOf side l → t.level l = s.level l
  order : ∀ p ∈ s.resting, t.order p = s.order p
  priceLevels : t.priceLevels = s.priceLevels
  clientOrders : t.clientOrders = s.clientOrders
  freeLevels : ∃ ls, s.priceLevelPool.FreeChain s.priceLevelPool.freeBlockIndex ls ∧
    t.priceLevelPool.FreeChain t.priceLevelPool.freeBlockIndex ls ∧
    t.priceLevelPool.freeBlockCount = s.priceLevelPool.freeBlockCount
  freeOrders : ∃ ps, s.orderPool.FreeChain s.orderPool.freeBlockIndex ps ∧
    t.orderPool.FreeChain t.orderPool.freeBlockIndex ps ∧
    t.orderPool.freeBlockCount = s.orderPool.freeBlockCount

end OrderBook

section Heap
variable {s t : OrderBook} {v : BookView}

theorem meetsNothing_iff (hr : Represents s v) (hv : v.Valid) (a : Aggressor) :
    s.MeetsNothing a.side a.price ↔ ∀ o ∈ v.head a.side, beyond a o := by
  have hbest : s.best a.side.other = ((v.opposite a.side).map (·.handle)).head? := by
    rw [opposite_eq_own]
    exact (hr.sides a.side.other).head
  rcases head_cases v a.side hv with ⟨hopp, hnone⟩ | ⟨l, ls, o, os, hopp, horders, hsome⟩
  · rw [OrderBook.MeetsNothing, hbest, hopp, hnone]
    simp
  · have hl : l ∈ v.levels := by
      rw [opposite_eq_own] at hopp
      exact v.own_subset _ (hopp ▸ List.mem_cons_self)
    have hfirst : (s.level l.handle).firstOrder = some o.handle := by
      rw [(hr.level l hl).firstOrder, horders]
      rfl
    have hprice : (s.order o.handle).price = o.price :=
      congrArg OrderFields.price (hr.fields (v.mem_orders.mpr ⟨l, hl, by simp [horders]⟩))
    rw [OrderBook.MeetsNothing, hbest, hopp, hsome]
    by_cases hs : a.side = .buy <;> simp [hfirst, hprice, beyond, hs]

/-- Two heaps with the same lists have the same rings, tables and free blocks. -/
theorem restored_of_represents {id : OrderId} {ms : List Message} (hr : Represents s v)
    (hv : v.Valid)
    (hr' : Represents t { v with nextMarketOrderId := id, sent := ms }) : s.Restored t := by
  have hbest : ∀ side, t.best side = s.best side := fun side =>
    (hr'.sides side).head.trans (hr.sides side).head.symm
  refine ⟨hr'.instrumentId.trans hr.instrumentId.symm, hbest .buy, hbest .sell,
    fun side l hl => ?_, fun p hp => ?_, ?_, hr'.clientOrders.trans hr.clientOrders.symm,
    ⟨v.freeLevels, hr.levelPool.chain, hr'.levelPool.chain,
      hr'.levelPool.count.trans hr.levelPool.count.symm⟩,
    ⟨v.freeOrders, hr.orderPool.chain, hr'.orderPool.chain,
      hr'.orderPool.count.trans hr.orderPool.count.symm⟩⟩
  · obtain ⟨m, hm, rfl⟩ := (levelOf_iff hr).mp hl
    have hrep := hr.level m (v.own_subset side hm)
    have hrep' := hr'.level m (v.own_subset side hm)
    obtain ⟨hnext, hprev⟩ := (hr.sides side).ring.agree (hr'.sides side).ring
      (List.mem_map_of_mem hm)
    have hside := hrep'.side.trans hrep.side.symm
    have hprice := hrep'.price.trans hrep.price.symm
    have hfirst := hrep'.firstOrder.trans hrep.firstOrder.symm
    cases hs : s.level m.handle
    cases ht : t.level m.handle
    simp only [OrderBook.nextEntry, OrderBook.prevEntry, hs, ht] at hnext hprev hside hprice hfirst
    subst hnext hprev hside hprice hfirst
    rfl
  · obtain ⟨o, ho, rfl⟩ := List.mem_map.mp ((mem_resting_iff hr hv).mp hp)
    obtain ⟨m, hm, hom⟩ := v.mem_orders.mp ho
    obtain ⟨hnext, hprev⟩ := (hr.level m hm).ring.agree (hr'.level m hm).ring
      (List.mem_map_of_mem hom)
    have hfields := ((hr'.level m hm).fields o hom).trans ((hr.level m hm).fields o hom).symm
    cases hs : s.order o.handle
    cases ht : t.order o.handle
    simp only [OrderBook.nextOrder, OrderBook.prevOrder, hs, ht] at hnext hprev hfields
    subst hnext hprev hfields
    rfl
  · funext i
    exact (hr'.slots i).trans (hr.slots i).symm

end Heap

section View
variable {v : BookView} {o : OrderView} {clientId : ClientId} {clientOrderId : OrderId}
  {side : Side} {price : Price} {quantity : Quantity}

/-- Unlinking the order that was booked last gives back the book before it. -/
theorem removeOrder_addOrder (hv : v.Valid) (same : v.SameSide o.side o.price)
    {rest : List OrderPtr} (free : v.freeOrders = o.handle :: rest)
    (fresh : o.handle ∉ v.orders.map (·.handle))
    (unused : v.clientOrders o.clientId.toNat o.clientOrderId.toNat = none) :
    ({ v.addOrder o with freeOrders := rest } : BookView).removeOrder o = v := by
  have hplace := place_sent v o
  ext1
  · exact place_instrumentId v o
  · exact dropOrder_place hv same fresh .buy
  · exact dropOrder_place hv same fresh .sell
  · exact free.symm
  · exact emptied_place hv same fresh
  · funext c i
    rw [clientOrders_removeOrder]
    change (if _ then none else (v.addOrder o).clientOrders c i) = _
    rw [clientOrders_addOrder]
    split
    · rename_i h
      rw [h.1, h.2, unused]
    · rfl
  · exact hplace.2
  · exact hplace.1

/-- Nothing is executed if the best order of the other side is out of the limit. -/
theorem accept_nothing (h : ∀ o ∈ v.head side,
      beyond ⟨clientId, clientOrderId, v.nextMarketOrderId, side, price⟩ o) :
    v.accept clientId clientOrderId side price quantity =
      (v.accepted clientId clientOrderId side price quantity, quantity) := by
  rw [accept, matchLoop]
  rcases hhead : v.head side with _ | o
  · have hhead' : (v.accepted clientId clientOrderId side price quantity).head side = none := hhead
    simp only [hhead']
  · have hhead' : (v.accepted clientId clientOrderId side price quantity).head side = some o :=
      hhead
    have hbeyond := h o (hhead ▸ rfl)
    simp only [hhead', hbeyond, or_true, if_true]

/-- What is sent about an order that is added and cancelled. -/
def passingMessages (v : BookView) (clientId : ClientId) (clientOrderId : OrderId) (side : Side)
    (price : Price) (quantity : Quantity) : List Message :=
  [.response ⟨.accepted, clientId, v.instrumentId, clientOrderId, v.nextMarketOrderId, side,
      price, 0, quantity⟩,
    .update ⟨.add, v.nextMarketOrderId, v.instrumentId, side, price, quantity,
      v.priorityAt side price⟩,
    .response ⟨.canceled, clientId, v.instrumentId, clientOrderId, v.nextMarketOrderId, side,
      price, invalidQuantity, quantity⟩,
    .update ⟨.cancel, v.nextMarketOrderId, v.instrumentId, side, price, 0,
      v.priorityAt side price⟩]

/-- An order that meets nothing and is cancelled leaves the book as it was. -/
theorem cancel_add (hv : v.Valid) (table : OrderBook.inTable clientId clientOrderId)
    (unused : v.clientOrders clientId.toNat clientOrderId.toNat = none) (hpos : 0 < quantity)
    (hmeets : ∀ o ∈ v.head side,
      beyond ⟨clientId, clientOrderId, v.nextMarketOrderId, side, price⟩ o)
    (same : v.SameSide side price) (free : v.freeOrders ≠ []) :
    (v.add clientId clientOrderId side price quantity).cancel clientId clientOrderId =
      { v with
        nextMarketOrderId := v.nextMarketOrderId + 1
        sent := v.sent ++ passingMessages v clientId clientOrderId side price quantity } := by
  obtain ⟨h, rest, hfree⟩ := List.exists_cons_of_ne_nil free
  let w := v.accepted clientId clientOrderId side price quantity
  have hw : w.Valid := accepted_valid hv clientId clientOrderId side price quantity
  let o := w.bookedOrder h clientId clientOrderId v.nextMarketOrderId side price quantity
  have hsame : w.SameSide o.side o.price := same
  have hfree' : w.freeOrders = o.handle :: rest := hfree
  have hfresh : o.handle ∉ w.orders.map (·.handle) := fresh_of_free hw hfree'
  let x : BookView := { w.addOrder o with freeOrders := rest }
  let added : BookView := x.send [.update ⟨.add, v.nextMarketOrderId, v.instrumentId, side, price,
    quantity, v.priorityAt side price⟩]
  have hx : x.Valid := hw.addOrder hfree' hsame table
  have hadd : v.add clientId clientOrderId side price quantity = added := by
    rw [BookView.add, accept_nothing hmeets]
    simp only [if_pos hpos]
    change w.book clientId clientOrderId v.nextMarketOrderId side price quantity = added
    rw [book_eq hfree']
    rfl
  have ho : o ∈ x.orders := (hw.perm_place hsame).mem_iff.mpr List.mem_cons_self
  have hfind : added.findOrder clientId clientOrderId = some o := by
    refine findOrder_of_entry _ _ (hx.send _) ho table.1 ?_
    change (w.addOrder o).clientOrders _ _ = _
    rw [clientOrders_addOrder]
    exact if_pos ⟨rfl, rfl⟩
  have hback : x.removeOrder o = w := removeOrder_addOrder hw hsame hfree' hfresh unused
  have hdropped : added.removeOrder o = w.send [.update ⟨.add, v.nextMarketOrderId,
      v.instrumentId, side, price, quantity, v.priorityAt side price⟩] := by
    rw [← hback]
    rfl
  have hinstrument : added.instrumentId = v.instrumentId := place_instrumentId w o
  rw [hadd, BookView.cancel, hfind]
  change (added.removeOrder o).send _ = _
  rw [hdropped, hinstrument]
  simp only [w, o, send, accepted, bookedOrder, passingMessages, List.append_assoc,
    List.cons_append, List.nil_append]
  rfl

end View

section Undo
variable {s : OrderBook} {v : BookView} {fuel : Nat} {clientId : ClientId}
  {clientOrderId : OrderId}

theorem ownedBy_iff (hr : Represents s v) {o : OrderView} (ho : o ∈ v.orders) :
    s.OwnedBy o.handle clientId clientOrderId ↔
      o.clientId = clientId ∧ o.clientOrderId = clientOrderId := by
  rw [OrderBook.OwnedBy, hr.fields ho]

theorem noLiveOrder_iff (hr : Represents s v) (hv : v.Valid) :
    s.NoLiveOrder clientId clientOrderId ↔
      ∀ o ∈ v.orders, ¬ (o.clientId = clientId ∧ o.clientOrderId = clientOrderId) := by
  constructor
  · intro h o ho howned
    exact h o.handle ((mem_resting_iff hr hv).mpr (List.mem_map_of_mem ho))
      ((ownedBy_iff hr ho).mpr howned)
  · intro h p hp
    obtain ⟨o, ho, rfl⟩ := List.mem_map.mp ((mem_resting_iff hr hv).mp hp)
    exact fun howned => h o ho ((ownedBy_iff hr ho).mp howned)

/-- Under ids that no resting order has there is no entry. -/
theorem unused_of_noLiveOrder (hr : Represents s v) (hv : v.Valid)
    (h : s.NoLiveOrder clientId clientOrderId) :
    v.clientOrders clientId.toNat clientOrderId.toNat = none := by
  rcases hentry : v.clientOrders clientId.toNat clientOrderId.toNat with _ | p
  · rfl
  · obtain ⟨o, ho, -, hc, hi⟩ := hv.clientOrders _ _ _ hentry
    exact absurd ⟨UInt32.toNat_inj.mp hc, UInt64.toNat_inj.mp hi⟩
      ((noLiveOrder_iff hr hv).mp h o ho)

/-- On every well-formed book an order that meets nothing, added under unused ids and cancelled,
leaves what it found but the number of the next order. -/
theorem cancel_undoes_add (hr : Represents s v) (hv : v.Valid) (hfuel : maxNumOrders < fuel)
    (table : OrderBook.inTable clientId clientOrderId)
    (unknown : s.NoLiveOrder clientId clientOrderId) {side : Side} {price : Price}
    {quantity : Quantity} (hpos : 0 < quantity) (hmeets : s.MeetsNothing side price)
    (hslot : s.SlotOfSide side price) (hroom : s.HasRoom) :
    ∃ s₁ s₂, s.add fuel clientId clientOrderId side price quantity = .ok s₁ ∧
      s₁.cancel clientId clientOrderId = .ok s₂ ∧ s.Restored s₂ ∧
      s₂.nextMarketOrderId = s.nextMarketOrderId + 1 ∧
      s₂.sent = s.sent ++ passingMessages v clientId clientOrderId side price quantity := by
  have hunused := unused_of_noLiveOrder hr hv unknown
  have hbeyond := (meetsNothing_iff hr hv
    ⟨clientId, clientOrderId, v.nextMarketOrderId, side, price⟩).mp hmeets
  have hsame := (slotOfSide_iff hr hv side price).mp hslot
  have hfree := (hasRoom_iff hr).mp hroom
  obtain ⟨s₁, hs₁, hr₁, hv₁⟩ := add_spec clientId clientOrderId side price quantity hr hv hfuel
    fun _ => by
      rw [accept_nothing hbeyond]
      exact ⟨table, hfree, hsame⟩
  obtain ⟨s₂, hs₂, hr₂, _⟩ := cancel_spec clientId clientOrderId hr₁ hv₁ fun _ => table.2
  rw [cancel_add hv table hunused hpos hbeyond hsame hfree] at hr₂
  refine ⟨s₁, s₂, hs₁, hs₂, restored_of_represents hr hv hr₂, ?_, ?_⟩
  · rw [hr₂.nextMarketOrderId, hr.nextMarketOrderId]
  · rw [hr₂.sent, hr.sent]

/-- The hypotheses are met by a sell above the only buy. -/
theorem cancel_undoes_add_sample : ∃ s s₁ s₂ : OrderBook,
    s.add 2049 2 7 .sell 12 3 = .ok s₁ ∧ s₁.cancel 2 7 = .ok s₂ ∧ s.Restored s₂ ∧
    s₂.nextMarketOrderId = s.nextMarketOrderId + 1 := by
  obtain ⟨s, hr, hv⟩ := oneBuy_represented
  obtain ⟨s₁, s₂, hs₁, hs₂, hback, hid, _⟩ := cancel_undoes_add hr hv
    (by decide : maxNumOrders < 2049) (by decide)
    ((noLiveOrder_iff hr hv).mpr (by decide +kernel : ∀ o ∈ oneBuy.orders,
      ¬ (o.clientId = 2 ∧ o.clientOrderId = 7)))
    (by decide : (0 : Quantity) < 3)
    ((meetsNothing_iff hr hv ⟨2, 7, 2, .sell, 12⟩).mpr (by decide +kernel))
    ((slotOfSide_iff hr hv .sell 12).mpr (by unfold SameSide; decide +kernel))
    ((hasRoom_iff hr).mpr (by decide +kernel))
  exact ⟨s, s₁, s₂, hs₁, hs₂, hback, hid⟩

end Undo

end StockExchange
