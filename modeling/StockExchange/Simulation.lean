import StockExchange.Booking

/-!
# The heap follows the lists

Every call on the heap returns and does what the same call does on the view, as long
as an order that is booked finds a free block and a slot free of the other side.
-/

namespace StockExchange

open Ring BookView

section Match
variable {s : OrderBook} {v : BookView} {o : OrderView} {a : Aggressor}

theorem represents_setQty (hr : Represents s v) (hv : v.Valid) (ho : o ∈ v.orders)
    (qty : Quantity) : Represents (s.setQty o.handle qty) (v.setQty o.handle qty) := by
  have handles : (v.setQty o.handle qty).orders.map (·.handle) = v.orders.map (·.handle) := by
    simp [orders_setQty, Function.comp_def]
  have hlinks : ∀ q, ((s.setQty o.handle qty).order q).nextOrder = (s.order q).nextOrder ∧
      ((s.setQty o.handle qty).order q).prevOrder = (s.order q).prevOrder := by simp
  refine hr.replace hv (hv.setQty o.handle qty) (f := .setQty o.handle qty)
    ⟨rfl, rfl, rfl, fun _ _ h => h, fun _ => ⟨rfl, rfl, rfl, rfl⟩⟩
    (own_setQty v o.handle qty) (fun _ => ⟨rfl, rfl⟩) ?_ rfl rfl ?_ hr.clientOrders
    hr.nextMarketOrderId hr.sent
  · intro m hm
    obtain ⟨hside, hprice, hfirst, hring, hfields⟩ := hr.level m hm
    have hsame : (m.setQty o.handle qty).orders.map (·.handle) = m.orders.map (·.handle) := by
      rw [LevelView.setQty, List.map_map]
      exact List.map_congr_left fun o' _ => withQty_handle o.handle qty o'
    refine ⟨hside, hprice, hfirst.trans (by rw [hsame]), ?_, ?_⟩
    · rw [hsame]
      exact hring.congr (fun q _ => (hlinks q).1) fun q _ => (hlinks q).2
    · intro o' ho'
      obtain ⟨k, hk, rfl⟩ :=
        List.mem_map.mp (show o' ∈ m.orders.map (withQty o.handle qty) from ho')
      rw [withQty_handle, OrderBook.fields_setQty, hfields k hk]
      by_cases hkh : k.handle = o.handle
      · have hko := hv.order_eq (v.mem_orders.mpr ⟨m, hm, hk⟩) ho hkh
        subst hko
        simp [withQty, hfields k hk]
      · simp [withQty, hkh]
  · rw [handles]
    exact hr.orderPool.write _

theorem drop_setQty (h : OrderPtr) (qty : Quantity) (l : LevelView) :
    (l.setQty h qty).drop h = l.drop h := by
  have : ∀ os : List OrderView, (os.map (withQty h qty)).filter (fun o => o.handle ≠ h) =
      os.filter fun o => o.handle ≠ h := by
    intro os
    induction os with
    | nil => rfl
    | cons o os ih =>
      rw [List.map_cons, List.filter_cons, List.filter_cons, ih, withQty_handle]
      by_cases ho : o.handle = h <;> simp [ho, withQty]
  exact congrArg (fun os => ({ l with orders := os } : LevelView)) (this l.orders)

theorem dropOrder_setQty (h : OrderPtr) (qty : Quantity) (ls : List LevelView) :
    dropOrder h (ls.map (.setQty h qty)) = dropOrder h ls := by
  rw [dropOrder, dropOrder, List.map_map]
  congr 1
  exact List.map_congr_left fun l _ => drop_setQty h qty l

/-- The quantity of an order that leaves does not matter. -/
theorem removeOrder_setQty (v : BookView) (o : OrderView) (qty : Quantity) :
    (v.setQty o.handle qty).removeOrder { o with qty := qty } = v.removeOrder o := by
  have hemptied : (v.setQty o.handle qty).emptied o.handle = v.emptied o.handle := by
    rw [emptied, emptied, levels_setQty, List.filter_map, List.map_map]
    refine congrArg₂ _ rfl ?_
    exact List.filter_congr fun l _ => by simp [drop_setQty]
  have hbids : dropOrder o.handle (v.setQty o.handle qty).bids = dropOrder o.handle v.bids :=
    dropOrder_setQty ..
  have hasks : dropOrder o.handle (v.setQty o.handle qty).asks = dropOrder o.handle v.asks :=
    dropOrder_setQty ..
  simp only [BookView.removeOrder, mapLevels, setClientOrder, hemptied, hbids, hasks]
  rfl

theorem mem_setQty (ho : o ∈ v.orders) (qty : Quantity) :
    ({ o with qty := qty } : OrderView) ∈ (v.setQty o.handle qty).orders := by
  rw [orders_setQty]
  exact List.mem_map.mpr ⟨o, ho, by simp [withQty]⟩

/-- What holds of every quantity and of the new one. -/
theorem forall_setQty {p : Quantity → Prop} {qty : Quantity} (h : OrderPtr) (hqty : p qty)
    (hall : ∀ o ∈ v.orders, p o.qty) : ∀ o ∈ (v.setQty h qty).orders, p o.qty := by
  intro o ho
  rw [orders_setQty] at ho
  obtain ⟨o', ho', rfl⟩ := List.mem_map.mp ho
  rw [withQty]
  split
  · exact hqty
  · exact hall o' ho'

theorem fill_eq_removeOrder {leavesQty : Quantity} (a : Aggressor)
    (hzero : o.qty - min leavesQty o.qty = 0) : v.fill a leavesQty o =
      (v.send (fillMessages v.instrumentId a leavesQty o.toOrderFields
        (min leavesQty o.qty))).removeOrder o := by
  rw [fill]
  simp only [hzero, if_true]

theorem fill_eq_setQty {leavesQty : Quantity} (a : Aggressor)
    (hpos : o.qty - min leavesQty o.qty ≠ 0) : v.fill a leavesQty o =
      (v.setQty o.handle (o.qty - min leavesQty o.qty)).send
        (fillMessages v.instrumentId a leavesQty o.toOrderFields (min leavesQty o.qty)) := by
  rw [fill]
  simp only [hpos, if_false]
  rfl

theorem BookView.Valid.fill (hv : v.Valid) (a : Aggressor) (ho : o ∈ v.orders)
    (leavesQty : Quantity) : (v.fill a leavesQty o).Valid := by
  by_cases hzero : o.qty - min leavesQty o.qty = 0
  · rw [fill_eq_removeOrder a hzero]
    exact (hv.send _).removeOrder ho
  · rw [fill_eq_setQty a hzero]
    exact (hv.setQty _ _).send _

/-- The state of `match` once it has sent its messages. -/
def filled (s : OrderBook) (a : Aggressor) (leavesQty : Quantity) (p : OrderPtr) : OrderBook :=
  let o := (s.order p).toOrderFields
  { s.setQty p (o.qty - min leavesQty o.qty) with
    sent := s.sent ++ fillMessages s.instrumentId a leavesQty o (min leavesQty o.qty) }

theorem matchOrder_eq (s : OrderBook) (a : Aggressor) (leavesQty : Quantity) (p : OrderPtr) :
    s.matchOrder a.clientId a.side a.clientOrderId a.marketOrderId leavesQty p =
      if (s.order p).qty - min leavesQty (s.order p).qty = 0 then
        (filled s a leavesQty p).removeOrder p >>= fun s' =>
          .ok (s', leavesQty - min leavesQty (s.order p).qty)
      else .ok (filled s a leavesQty p, leavesQty - min leavesQty (s.order p).qty) := by
  simp only [OrderBook.matchOrder, OrderBook.fields_setQty, if_true]
  by_cases hzero : (s.order p).qty - min leavesQty (s.order p).qty = 0
  · simp only [if_pos hzero, OrderBook.sendClientResponse, OrderBook.sendMarketUpdate,
      List.append_assoc, List.cons_append, List.nil_append, filled, fillMessages]
    rfl
  · simp only [if_neg hzero, OrderBook.sendClientResponse, OrderBook.sendMarketUpdate,
      List.append_assoc, List.cons_append, List.nil_append, filled, fillMessages]
    rfl

/-- `match` executes against a resting order as `fill` does on the view. -/
theorem matchOrder_spec (hr : Represents s v) (hv : v.Valid) (ho : o ∈ v.orders)
    (leavesQty : Quantity) : ∃ s', s.matchOrder a.clientId a.side a.clientOrderId a.marketOrderId
      leavesQty o.handle = .ok (s', leavesQty - min leavesQty o.qty) ∧
      Represents s' (v.fill a leavesQty o) ∧ (v.fill a leavesQty o).Valid := by
  have hq : (s.order o.handle).toOrderFields = o.toOrderFields := hr.fields ho
  have hqty : (s.order o.handle).qty = o.qty := congrArg OrderFields.qty hq
  have hrep : Represents (filled s a leavesQty o.handle)
      ((v.setQty o.handle (o.qty - min leavesQty o.qty)).send
        (fillMessages v.instrumentId a leavesQty o.toOrderFields (min leavesQty o.qty))) := by
    have h := (represents_setQty hr hv ho (o.qty - min leavesQty o.qty)).send
      (fillMessages v.instrumentId a leavesQty o.toOrderFields (min leavesQty o.qty))
    simp only [filled, hq, hr.instrumentId]
    exact h
  have hvalid := hv.setQty o.handle (o.qty - min leavesQty o.qty)
  rw [matchOrder_eq, hqty]
  by_cases hzero : o.qty - min leavesQty o.qty = 0
  · have hmem := mem_setQty ho (o.qty - min leavesQty o.qty)
    obtain ⟨s', hs', hr', _⟩ := removeOrder_spec hrep (hvalid.send _) hmem
    have hfill : v.fill a leavesQty o = ((v.setQty o.handle (o.qty - min leavesQty o.qty)).send
        (fillMessages v.instrumentId a leavesQty o.toOrderFields
          (min leavesQty o.qty))).removeOrder { o with qty := o.qty - min leavesQty o.qty } := by
      rw [fill_eq_removeOrder a hzero]
      exact (removeOrder_setQty (v.send _) o _).symm
    rw [if_pos hzero, hfill]
    have hs'' : (filled s a leavesQty o.handle).removeOrder o.handle = .ok s' := hs'
    exact ⟨s', by rw [hs'', ok_bind], hr', (hvalid.send _).removeOrder hmem⟩
  · rw [if_neg hzero, fill_eq_setQty a hzero]
    exact ⟨_, rfl, hrep, hvalid.send _⟩

end Match

section Loop
variable {s : OrderBook} {v : BookView} {o : OrderView} {side : Side}

theorem opposite_eq_own (v : BookView) (side : Side) : v.opposite side = v.own side.other := by
  by_cases hs : side = .buy <;> simp [opposite, own, Side.other, hs]

theorem best_other (s : OrderBook) (side : Side) :
    (if side = .buy then s.ask else s.bid) = s.best side.other := by
  by_cases hs : side = .buy <;> simp [OrderBook.best, Side.other, hs]

theorem head_cases (v : BookView) (side : Side) (hv : v.Valid) :
    (v.opposite side = [] ∧ v.head side = none) ∨
    ∃ l ls o os, v.opposite side = l :: ls ∧ l.orders = o :: os ∧ v.head side = some o := by
  rcases hopp : v.opposite side with _ | ⟨l, ls⟩
  · exact Or.inl ⟨rfl, by simp [head, hopp]⟩
  · have hl : l ∈ v.levels := v.own_subset side.other (by rw [← opposite_eq_own, hopp]; simp)
    rcases horders : l.orders with _ | ⟨o, os⟩
    · exact absurd horders (hv.nonempty l hl)
    · exact Or.inr ⟨l, ls, o, os, rfl, horders, by simp [head, hopp, horders]⟩

theorem mem_orders_of_head (hv : v.Valid) (hhead : v.head side = some o) :
    o ∈ (v.opposite side).flatMap (·.orders) ∧ o ∈ v.orders := by
  rcases head_cases v side hv with ⟨_, hnone⟩ | ⟨l, ls, o', os, hopp, horders, hsome⟩
  · simp [hnone] at hhead
  · have heq : o' = o := Option.some.inj (hsome.symm.trans hhead)
    subst heq
    refine ⟨by simp [hopp, horders], ?_⟩
    refine v.mem_orders.mpr ⟨l, v.own_subset side.other ?_, by simp [horders]⟩
    rw [← opposite_eq_own, hopp]
    exact List.mem_cons_self

/-- The smaller of two quantities is one of them. -/
theorem minQty_cases (a b : Quantity) : a ≤ b ∧ min a b = a ∨ b < a ∧ min a b = b := by
  by_cases h : a ≤ b
  · exact Or.inl ⟨h, if_pos h⟩
  · exact Or.inr ⟨UInt32.not_le.mp h, if_neg h⟩

/-- Unless the resting order is used up, the taker is. -/
theorem min_sub_eq_zero {a b : Quantity} (h : b - min a b ≠ 0) : a - min a b = 0 := by
  rcases minQty_cases a b with ⟨_, hmin⟩ | ⟨_, hmin⟩
  · rw [hmin, UInt32.sub_self]
  · rw [hmin, UInt32.sub_self] at h
    exact absurd rfl h

theorem oppositeCount_removeOrder (ho : o ∈ (v.opposite side).flatMap (·.orders)) :
    (v.removeOrder o).oppositeCount side < v.oppositeCount side := by
  simp only [oppositeCount, opposite_eq_own, own_removeOrder, orders_dropOrder] at ho ⊢
  refine List.length_filter_lt_length_iff_exists.mpr ⟨o, ho, by simp⟩

/-- One execution ends the taker or takes one order off the other side. -/
theorem fill_progress (hv : v.Valid) (a : Aggressor) (hhead : v.head a.side = some o)
    (leavesQty : Quantity) : leavesQty - min leavesQty o.qty = 0 ∨
      (v.fill a leavesQty o).oppositeCount a.side < v.oppositeCount a.side := by
  by_cases hzero : o.qty - min leavesQty o.qty = 0
  · refine Or.inr ?_
    rw [fill]
    simp only [hzero, if_true]
    exact oppositeCount_removeOrder (mem_orders_of_head hv hhead).1
  · exact Or.inl (min_sub_eq_zero hzero)

/-- The loop of `check_for_match` returns whatever the taker and the book. -/
theorem matchLoop_spec (hr : Represents s v) (hv : v.Valid) (a : Aggressor) {fuel : Nat}
    (leavesQty : Quantity) (hpos : 0 < fuel)
    (hfuel : leavesQty = 0 ∨ v.oppositeCount a.side < fuel) :
    ∃ s', OrderBook.matchLoop a.clientId a.clientOrderId a.marketOrderId a.side a.price fuel s
        leavesQty = .ok (s', (v.matchLoop a fuel leavesQty).2) ∧
      Represents s' (v.matchLoop a fuel leavesQty).1 ∧ (v.matchLoop a fuel leavesQty).1.Valid := by
  induction fuel generalizing s v leavesQty with
  | zero => omega
  | succ fuel ih =>
    have hside := hr.sides a.side.other
    rw [OrderBook.matchLoop, best_other, hside.head, ← opposite_eq_own, matchLoop]
    rcases head_cases v a.side hv with ⟨hopp, hhead⟩ | ⟨l, ls, o, os, hopp, horders, hhead⟩
    · rw [hopp, hhead]
      exact ⟨s, rfl, hr, hv⟩
    · obtain ⟨hoc, ho⟩ := mem_orders_of_head hv hhead
      have hl : l ∈ v.levels :=
        v.own_subset a.side.other (by rw [← opposite_eq_own, hopp]; simp)
      have hfirst : (s.level l.handle).firstOrder = some o.handle := by
        rw [(hr.level l hl).firstOrder, horders]
        rfl
      have hprice : (s.order o.handle).price = o.price :=
        congrArg OrderFields.price (hr.fields ho)
      simp only [hopp, hhead, List.map_cons, List.head?_cons, hfirst, deref_some, ok_bind, hprice]
      by_cases hzero : leavesQty = 0
      · simp only [hzero, if_true, true_or]
        exact ⟨s, rfl, hr, hv⟩
      · have hbeyond : (if a.side = .buy then a.price < o.price else o.price < a.price) ↔
            beyond a o = true := by
          by_cases hs : a.side = .buy <;> simp [beyond, hs]
        by_cases hb : beyond a o
        · simp only [hzero, if_false, hbeyond, hb, if_true, or_true]
          exact ⟨s, rfl, hr, hv⟩
        · simp only [hzero, if_false, hbeyond, hb]
          obtain ⟨s', hmatch, hr', hv'⟩ := matchOrder_spec (a := a) hr hv ho leavesQty
          rw [hmatch]
          have hcount : 0 < v.oppositeCount a.side := List.length_pos_of_mem hoc
          have hlt := hfuel.resolve_left hzero
          exact ih hr' hv' _ (by omega) ((fill_progress hv a hhead leavesQty).imp_right (by omega))

/-- More rounds than orders to take change nothing. -/
theorem matchLoop_enough (hv : v.Valid) (a : Aggressor) {n m : Nat} (leavesQty : Quantity)
    (hn : leavesQty = 0 ∨ v.oppositeCount a.side < n)
    (hm : leavesQty = 0 ∨ v.oppositeCount a.side < m) :
    v.matchLoop a n leavesQty = v.matchLoop a m leavesQty := by
  have stopped : ∀ (v : BookView) k, v.matchLoop a k 0 = (v, 0) := by
    intro v k
    rcases k with _ | k
    · rfl
    · rw [matchLoop]
      cases v.head a.side <;> simp
  induction n generalizing v m leavesQty with
  | zero =>
    rcases hn with rfl | hn
    · rw [stopped, stopped]
    · omega
  | succ n ih =>
    by_cases hzero : leavesQty = 0
    · subst hzero
      rw [stopped, stopped]
    · have hn' := hn.resolve_left hzero
      have hm' := hm.resolve_left hzero
      obtain ⟨m, rfl⟩ : ∃ k, m = k + 1 := ⟨m - 1, by omega⟩
      rw [matchLoop, matchLoop]
      rcases hhead : v.head a.side with _ | o
      · rfl
      · by_cases hstop : leavesQty = 0 ∨ beyond a o
        · simp only [if_pos hstop]
        · simp only [if_neg hstop]
          have hprog := fill_progress hv a hhead leavesQty
          exact ih (hv.fill a (mem_orders_of_head hv hhead).2 leavesQty) _
            (hprog.imp_right fun _ => by omega) (hprog.imp_right fun _ => by omega)

end Loop

section Calls
variable {s : OrderBook} {v : BookView} {fuel : Nat} (clientId : ClientId)
  (clientOrderId : OrderId) (side : Side) (price : Price) (quantity : Quantity)

theorem oppositeCount_le (hv : v.Valid) (side : Side) : v.oppositeCount side ≤ maxNumOrders := by
  have hlen := hv.orderHandles.length_eq
  simp only [List.length_append, List.length_map, List.length_range] at hlen
  have hle : v.oppositeCount side ≤ v.orders.length := by
    by_cases hs : side = .buy <;> simp [oppositeCount, opposite, orders, levels, hs]
  omega

theorem accepted_spec (hr : Represents s v) (hv : v.Valid) :
    Represents (s.accepted clientId clientOrderId side price quantity)
      (v.accepted clientId clientOrderId side price quantity) ∧
    (v.accepted clientId clientOrderId side price quantity).Valid := by
  constructor
  · have h := hr.report (v.nextMarketOrderId + 1) [.response ⟨.accepted, clientId, v.instrumentId,
      clientOrderId, v.nextMarketOrderId, side, price, 0, quantity⟩]
    have heq : s.accepted clientId clientOrderId side price quantity =
        { s with
          nextMarketOrderId := v.nextMarketOrderId + 1
          sent := s.sent ++ [.response ⟨.accepted, clientId, v.instrumentId, clientOrderId,
            v.nextMarketOrderId, side, price, 0, quantity⟩] } := by
      rw [← hr.nextMarketOrderId, ← hr.instrumentId]
      rfl
    rw [heq]
    exact h
  · exact ⟨hv.slots, hv.nonempty, hv.bidSide, hv.askSide, hv.filed, hv.inTable, hv.clientOrders,
      hv.orderHandles, hv.levelHandles⟩

/-- `add` up to the booking always returns. -/
theorem accept_spec (hr : Represents s v) (hv : v.Valid) (hfuel : maxNumOrders < fuel) :
    ∃ s', s.accept fuel clientId clientOrderId side price quantity =
        .ok (s', (v.accept clientId clientOrderId side price quantity).2) ∧
      Represents s' (v.accept clientId clientOrderId side price quantity).1 ∧
      (v.accept clientId clientOrderId side price quantity).1.Valid := by
  obtain ⟨hrep, hw⟩ := accepted_spec clientId clientOrderId side price quantity hr hv
  let a : Aggressor := ⟨clientId, clientOrderId, v.nextMarketOrderId, side, price⟩
  have hcount := Nat.lt_of_le_of_lt (oppositeCount_le hw side) hfuel
  obtain ⟨s', hloop, hr', hv'⟩ := matchLoop_spec hrep hw a quantity (Nat.zero_lt_of_lt hfuel)
    (Or.inr hcount)
  have hrounds := matchLoop_enough hw a quantity (Or.inr hcount) (Or.inr (Nat.lt_succ_self _))
  rw [hrounds] at hloop hr' hv'
  refine ⟨s', ?_, hr', hv'⟩
  rw [OrderBook.accept, OrderBook.checkForMatch, hr.nextMarketOrderId]
  exact hloop

/-- An order left over by the matching can be booked: its ids are in the table, a block
is free, and the slot of its price holds no level of another side. -/
def Bookable (clientId : ClientId) (clientOrderId : OrderId) (side : Side) (price : Price)
    (r : BookView × Quantity) : Prop :=
  0 < r.2 → OrderBook.inTable clientId clientOrderId ∧ r.1.freeOrders ≠ [] ∧
    r.1.SameSide side price

theorem add_spec (hr : Represents s v) (hv : v.Valid) (hfuel : maxNumOrders < fuel)
    (hbook : Bookable clientId clientOrderId side price
      (v.accept clientId clientOrderId side price quantity)) :
    ∃ s', s.add fuel clientId clientOrderId side price quantity = .ok s' ∧
      Represents s' (v.add clientId clientOrderId side price quantity) ∧
      (v.add clientId clientOrderId side price quantity).Valid := by
  obtain ⟨s₁, haccept, hr₁, hv₁⟩ :=
    accept_spec clientId clientOrderId side price quantity hr hv hfuel
  simp only [OrderBook.add, haccept, ok_bind, BookView.add]
  by_cases hpos : 0 < (v.accept clientId clientOrderId side price quantity).2
  · obtain ⟨table, free, same⟩ := hbook hpos
    rw [if_pos hpos, if_pos hpos, hr.nextMarketOrderId]
    exact book_spec hr₁ hv₁ free same table _ _ hfuel
  · rw [if_neg hpos, if_neg hpos]
    exact ⟨s₁, rfl, hr₁, hv₁⟩

theorem findClientOrder_spec (hr : Represents s v) (hv : v.Valid)
    (hid : clientId.toNat < maxNumClients → clientOrderId.toNat < maxNumOrders) :
    s.findClientOrder clientId clientOrderId =
      .ok ((v.findOrder clientId clientOrderId).map (·.handle)) := by
  rw [OrderBook.findClientOrder, findOrder]
  by_cases hc : clientId.toNat < maxNumClients
  · rw [if_pos hc, if_pos hc, if_pos (hid hc), hr.clientOrders]
    rcases hp : v.clientOrders clientId.toNat clientOrderId.toNat with _ | p
    · rfl
    · obtain ⟨o, ho, rfl, _⟩ := hv.clientOrders _ _ _ hp
      rw [Option.bind_some, hv.find_handle ho]
      rfl
  · rw [if_neg hc, if_neg hc]
    rfl

/-- An order found by its block is found under its ids. -/
theorem findOrder_of_entry (hv : v.Valid) {o : OrderView} (ho : o ∈ v.orders)
    (hclient : clientId.toNat < maxNumClients)
    (hentry : v.clientOrders clientId.toNat clientOrderId.toNat = some o.handle) :
    v.findOrder clientId clientOrderId = some o := by
  rw [findOrder, if_pos hclient, hentry, Option.bind_some, hv.find_handle ho]

theorem mem_of_findOrder {o : OrderView} (h : v.findOrder clientId clientOrderId = some o) :
    o ∈ v.orders ∧ clientId.toNat < maxNumClients ∧
      v.clientOrders clientId.toNat clientOrderId.toNat = some o.handle := by
  rw [findOrder] at h
  by_cases hc : clientId.toNat < maxNumClients
  · rw [if_pos hc] at h
    obtain ⟨p, hp, hfind⟩ := Option.bind_eq_some_iff.mp h
    have heq : o.handle = p := by simpa using List.find?_some hfind
    exact ⟨List.mem_of_find?_eq_some hfind, hc, by rw [hp, heq]⟩
  · simp [hc] at h

theorem reject_spec (hr : Represents s v) (type : ClientResponseType) :
    Represents (s.sendClientResponse ⟨type, clientId, s.instrumentId, clientOrderId,
      invalidOrderId, .invalid, invalidPrice, invalidQuantity, invalidQuantity⟩)
      (v.reject type clientId clientOrderId) := by
  rw [hr.instrumentId]
  exact hr.send _

theorem cancel_spec (hr : Represents s v) (hv : v.Valid)
    (hid : clientId.toNat < maxNumClients → clientOrderId.toNat < maxNumOrders) :
    ∃ s', s.cancel clientId clientOrderId = .ok s' ∧
      Represents s' (v.cancel clientId clientOrderId) ∧ (v.cancel clientId clientOrderId).Valid ∧
      ∀ q, (s'.order q).toOrderFields = (s.order q).toOrderFields := by
  rw [OrderBook.cancel, findClientOrder_spec clientId clientOrderId hr hv hid, BookView.cancel]
  rcases hfind : v.findOrder clientId clientOrderId with _ | o
  · exact ⟨_, rfl, reject_spec clientId clientOrderId hr .cancelRejected, hv.send _, fun _ => rfl⟩
  · obtain ⟨ho, _⟩ := mem_of_findOrder clientId clientOrderId hfind
    have hfields := hr.fields ho
    obtain ⟨s', hremove, hr', hkeep⟩ := removeOrder_spec hr hv ho
    simp only [Option.map_some, ok_bind, hremove, hfields, hr.instrumentId]
    refine ⟨_, rfl, ?_, (hv.removeOrder ho).send _, hkeep⟩
    simp only [OrderBook.sendClientResponse, OrderBook.sendMarketUpdate, List.append_assoc]
    exact hr'.send _

/-- The order that `modify` finds, and what its `cancel` leaves. -/
theorem found_spec (hr : Represents s v) (hv : v.Valid)
    (hid : clientId.toNat < maxNumClients → clientOrderId.toNat < maxNumOrders) {o : OrderView}
    (hfind : v.findOrder clientId clientOrderId = some o) :
    s.findClientOrder clientId clientOrderId = .ok (some o.handle) ∧
      (s.order o.handle).toOrderFields = o.toOrderFields ∧
      ∃ s', s.cancel clientId clientOrderId = .ok s' ∧
        Represents s' (v.cancelOrder clientId clientOrderId o) ∧
        (v.cancelOrder clientId clientOrderId o).Valid ∧
        (s'.order o.handle).toOrderFields = o.toOrderFields := by
  have hheap : s.findClientOrder clientId clientOrderId = .ok (some o.handle) := by
    rw [findClientOrder_spec clientId clientOrderId hr hv hid, hfind]
    rfl
  have hfields := hr.fields (mem_of_findOrder clientId clientOrderId hfind).1
  obtain ⟨s', hs', hr', hv', hkeep⟩ := cancel_spec clientId clientOrderId hr hv hid
  rw [BookView.cancel, hfind] at hr' hv'
  exact ⟨hheap, hfields, s', hs', hr', hv', (hkeep _).trans hfields⟩

/-- What `modify` books again, if it does. -/
def Requeueable (v : BookView) (clientId : ClientId) (clientOrderId : OrderId)
    (newPrice : Price) (newQuantity : Quantity) : Prop :=
  ∀ o, v.findOrder clientId clientOrderId = some o → o.price ≠ newPrice ∨ o.qty < newQuantity →
    Bookable clientId clientOrderId o.side newPrice ((v.cancelOrder clientId clientOrderId o).accept
      clientId clientOrderId o.side newPrice newQuantity)

theorem modify_spec (hr : Represents s v) (hv : v.Valid) (hfuel : maxNumOrders < fuel)
    (hid : clientId.toNat < maxNumClients → clientOrderId.toNat < maxNumOrders)
    (hbook : Requeueable v clientId clientOrderId price quantity) :
    ∃ s', s.modify fuel clientId clientOrderId price quantity = .ok s' ∧
      Represents s' (v.modify clientId clientOrderId price quantity) ∧
      (v.modify clientId clientOrderId price quantity).Valid := by
  rw [OrderBook.modify, findClientOrder_spec clientId clientOrderId hr hv hid, BookView.modify]
  rcases hfind : v.findOrder clientId clientOrderId with _ | o
  · exact ⟨_, rfl, reject_spec clientId clientOrderId hr .modifyRejected, hv.send _⟩
  · obtain ⟨ho, _⟩ := mem_of_findOrder clientId clientOrderId hfind
    have hfields := hr.fields ho
    simp only [Option.map_some, ok_bind, hfields]
    by_cases hqueue : o.price ≠ price ∨ o.qty < quantity
    · obtain ⟨-, -, s₁, hcancel, hr₁, hv₁, hkeep⟩ :=
        found_spec clientId clientOrderId hr hv hid hfind
      rw [if_pos hqueue, if_pos hqueue, hcancel, ok_bind, hkeep]
      exact add_spec clientId clientOrderId o.side price quantity hr₁ hv₁ hfuel
        (hbook o hfind hqueue)
    · have hprice : o.price = price := by
        by_contra hne
        exact hqueue (Or.inl hne)
      rw [if_neg hqueue, if_neg hqueue]
      refine ⟨_, rfl, ?_, (hv.setQty _ _).send _⟩
      simp only [OrderBook.sendClientResponse, OrderBook.sendMarketUpdate, List.append_assoc]
      rw [← hprice]
      have h := (represents_setQty hr hv ho quantity).send
        [.response ⟨.modified, clientId, v.instrumentId, clientOrderId, o.marketOrderId, o.side,
          o.price, 0, quantity⟩,
         .update ⟨.modify, o.marketOrderId, v.instrumentId, o.side, o.price, quantity,
          o.priority⟩]
      have hi : (s.setQty o.handle quantity).instrumentId = v.instrumentId := hr.instrumentId
      rw [hi] at h ⊢
      exact h

end Calls

section Run
variable {s : OrderBook} {v : BookView} {fuel : Nat}

/-- What a call needs to return: its ids are within the tables, and an order that is
booked finds a free block and no level of another side in its slot. -/
def Admissible (v : BookView) : OrderBook.BookRequest → Prop
  | .add clientId clientOrderId side price quantity =>
    Bookable clientId clientOrderId side price
      (v.accept clientId clientOrderId side price quantity)
  | .cancel clientId clientOrderId =>
    clientId.toNat < maxNumClients → clientOrderId.toNat < maxNumOrders
  | .modify clientId clientOrderId newPrice newQuantity =>
    (clientId.toNat < maxNumClients → clientOrderId.toNat < maxNumOrders) ∧
      Requeueable v clientId clientOrderId newPrice newQuantity

/-- One call on the heap is the same call on the lists. -/
theorem call_spec (hr : Represents s v) (hv : v.Valid) (hfuel : maxNumOrders < fuel)
    {r : OrderBook.BookRequest} (ha : Admissible v r) :
    ∃ s', s.call fuel r = .ok s' ∧ Represents s' (v.call r) ∧ (v.call r).Valid := by
  cases r with
  | add clientId clientOrderId side price quantity =>
    exact add_spec clientId clientOrderId side price quantity hr hv hfuel ha
  | cancel clientId clientOrderId =>
    obtain ⟨s', hs', hr', hv', _⟩ := cancel_spec clientId clientOrderId hr hv ha
    exact ⟨s', hs', hr', hv'⟩
  | modify clientId clientOrderId price quantity =>
    exact modify_spec clientId clientOrderId price quantity hr hv hfuel ha.1 ha.2

/-- A heap for the lists after a call. -/
theorem represented_call {r : OrderBook.BookRequest} (h : ∃ s, Represents s v ∧ v.Valid)
    (ha : Admissible v r) : ∃ s, Represents s (v.call r) ∧ (v.call r).Valid := by
  obtain ⟨s, hr, hv⟩ := h
  obtain ⟨s', _, hr', hv'⟩ := call_spec hr hv (Nat.lt_succ_self maxNumOrders) ha
  exact ⟨s', hr', hv'⟩

end Run

end StockExchange
