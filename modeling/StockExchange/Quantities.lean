import StockExchange.Invariants
import StockExchange.Termination

/-!
# Quantities of orders and executions

Matching leaves a resting order either something or removes it, and executes something of
both orders if both have something. Only a `modify` to zero at the price an order has leaves
it in the book with nothing.
-/

namespace StockExchange

open Ring BookView Transitions

/-- An execution that is reported has a quantity. -/
def Message.Positive : Message → Prop
  | .response r => r.type = .filled → 0 < r.execQty
  | .update u => u.type = .trade → 0 < u.qty

instance (m : Message) : Decidable m.Positive :=
  match m with
  | .response r => inferInstanceAs (Decidable (r.type = .filled → 0 < r.execQty))
  | .update u => inferInstanceAs (Decidable (u.type = .trade → 0 < u.qty))

/-- Only `FILLED` reports an execution to a client. -/
theorem positive_response {type : ClientResponseType} {clientId : ClientId}
    {instrumentId : InstrumentId} {clientOrderId marketOrderId : OrderId} {side : Side}
    {price : Price} {execQty leavesQty : Quantity} (hne : type ≠ .filled) :
    (Message.response ⟨type, clientId, instrumentId, clientOrderId, marketOrderId, side, price,
      execQty, leavesQty⟩).Positive :=
  fun h => absurd h hne

/-- Only `TRADE` reports an execution to the market. -/
theorem positive_update {type : MarketUpdateType} {orderId : OrderId}
    {instrumentId : InstrumentId} {side : Side} {price : Price} {qty : Quantity}
    {priority : Priority} (hne : type ≠ .trade) :
    (Message.update ⟨type, orderId, instrumentId, side, price, qty, priority⟩).Positive :=
  fun h => absurd h hne

namespace OrderBook

/-- A new order has a quantity. -/
def BookRequest.Nonempty : BookRequest → Prop
  | .add _ _ _ _ quantity => 0 < quantity
  | .cancel _ _ => True
  | .modify _ _ _ _ => True

/-- A `modify` that leaves its order in place leaves it a quantity. -/
def LeavesQuantity (s : OrderBook) : BookRequest → Prop
  | .add _ _ _ _ _ => True
  | .cancel _ _ => True
  | .modify clientId clientOrderId newPrice newQuantity =>
    OnReturn (s.findClientOrder clientId clientOrderId) fun found => ∀ p ∈ found,
      (s.order p).price = newPrice → 0 < newQuantity

instance (r : BookRequest) : Decidable r.Nonempty :=
  match r with
  | .add _ _ _ _ quantity => inferInstanceAs (Decidable (0 < quantity))
  | .cancel _ _ => .isTrue trivial
  | .modify _ _ _ _ => .isTrue trivial

instance (s : OrderBook) (r : BookRequest) : Decidable (s.LeavesQuantity r) :=
  match r with
  | .add _ _ _ _ _ => .isTrue trivial
  | .cancel _ _ => .isTrue trivial
  | .modify clientId clientOrderId newPrice newQuantity =>
    inferInstanceAs (Decidable (OnReturn (s.findClientOrder clientId clientOrderId)
      fun found => ∀ p ∈ found, (s.order p).price = newPrice → 0 < newQuantity))

/-- New orders with a quantity, no order left in place with nothing, and none booked into a
slot of another side. -/
def KeepsQuantities (fuel : Nat) (s : OrderBook) (r : BookRequest) : Prop :=
  r.Nonempty ∧ s.LeavesQuantity r ∧ s.Books fuel SlotOfSide r

instance (fuel : Nat) (s : OrderBook) (r : BookRequest) : Decidable (s.KeepsQuantities fuel r) :=
  inferInstanceAs (Decidable (_ ∧ _))

end OrderBook

namespace BookView

/-- Orders and executions have quantities. -/
structure Positive (v : BookView) : Prop where
  orders : ∀ o ∈ v.orders, 0 < o.qty
  sent : ∀ m ∈ v.sent, m.Positive

/-- A `modify` that leaves its order in place leaves it a quantity. -/
def LeavesQuantity (v : BookView) : OrderBook.BookRequest → Prop
  | .add _ _ _ _ _ => True
  | .cancel _ _ => True
  | .modify clientId clientOrderId newPrice newQuantity =>
    ∀ o, v.findOrder clientId clientOrderId = some o → o.price = newPrice → 0 < newQuantity

section Steps
variable {v : BookView} {o : OrderView}

theorem create_positive (i : InstrumentId) : (create i).Positive :=
  ⟨by simp [create, BookView.orders, levels], by simp [create]⟩

theorem Positive.report (h : v.Positive) (id : OrderId) {ms : List Message}
    (hms : ∀ m ∈ ms, m.Positive) :
    (({ v with nextMarketOrderId := id } : BookView).send ms).Positive := by
  refine ⟨h.orders, fun m hm => ?_⟩
  rcases List.mem_append.mp hm with hm | hm
  · exact h.sent m hm
  · exact hms m hm

theorem Positive.send (h : v.Positive) {ms : List Message} (hms : ∀ m ∈ ms, m.Positive) :
    (v.send ms).Positive :=
  h.report v.nextMarketOrderId hms

theorem Positive.removeOrder (h : v.Positive) (o : OrderView) : (v.removeOrder o).Positive :=
  ⟨fun o' ho' => h.orders o' (mem_removeOrder.mp ho').1, h.sent⟩

theorem Positive.setQty (h : v.Positive) (p : OrderPtr) {qty : Quantity} (pos : 0 < qty) :
    (v.setQty p qty).Positive :=
  ⟨forall_setQty p pos h.orders, h.sent⟩

/-- What is executed between two orders with a quantity. -/
theorem min_pos {x y : Quantity} (hx : 0 < x) (hy : 0 < y) : 0 < min x y := by
  rcases minQty_cases x y with ⟨_, hmin⟩ | ⟨_, hmin⟩
  · rwa [hmin]
  · rwa [hmin]

theorem fillMessages_positive (i : InstrumentId) (a : Aggressor) (leavesQty : Quantity)
    (o : OrderFields) {qty : Quantity} (pos : 0 < qty) :
    ∀ m ∈ fillMessages i a leavesQty o qty, m.Positive := by
  intro m hm
  simp only [fillMessages, List.mem_cons, List.not_mem_nil, or_false] at hm
  rcases hm with rfl | rfl | rfl | rfl
  · exact fun _ => pos
  · exact fun _ => pos
  · exact fun _ => pos
  · by_cases hzero : o.qty - qty = 0
    · rw [if_pos hzero]
      exact positive_update (by decide)
    · rw [if_neg hzero]
      exact positive_update (by decide)

/-- An execution takes a positive quantity, and leaves one or no order. -/
theorem Positive.fill (h : v.Positive) (a : Aggressor) (ho : o ∈ v.orders) {leavesQty : Quantity}
    (hleft : leavesQty ≠ 0) : (v.fill a leavesQty o).Positive := by
  have hpos := min_pos (UInt32.pos_iff_ne_zero.mpr hleft) (h.orders o ho)
  have hms := fillMessages_positive v.instrumentId a leavesQty o.toOrderFields hpos
  by_cases hzero : o.qty - min leavesQty o.qty = 0
  · rw [fill_eq_removeOrder a hzero]
    exact (h.send hms).removeOrder o
  · rw [fill_eq_setQty a hzero]
    exact (h.setQty o.handle (UInt32.pos_iff_ne_zero.mpr hzero)).send hms

theorem Positive.accept (h : v.Positive) (hv : v.Valid) (clientId : ClientId)
    (clientOrderId : OrderId) (side : Side) (price : Price) (quantity : Quantity) :
    (v.accept clientId clientOrderId side price quantity).1.Positive := by
  refine matchLoop_keeps (J := fun w _ => w.Positive) ?_ _ (accepted_valid hv ..) ?_
  · intro w leavesQty o hw hpos hhead hleft _
    exact hpos.fill _ (mem_orders_of_head hw hhead).2 hleft
  · exact h.report _ fun m hm => by
      rw [List.mem_singleton.mp hm]
      exact positive_response (by decide)

theorem Positive.add (h : v.Positive) (hv : v.Valid) {clientId : ClientId}
    {clientOrderId : OrderId} {side : Side} {price : Price} {quantity : Quantity}
    (hb : Bookable clientId clientOrderId side price
      (v.accept clientId clientOrderId side price quantity)) :
    (v.add clientId clientOrderId side price quantity).Positive := by
  have hmatched := h.accept hv clientId clientOrderId side price quantity
  refine add_cases hv hb (fun w heq => ?_) fun w leavesQty p rest heq hw hpos hfree same => ?_
  · rwa [heq] at hmatched
  rw [heq] at hmatched
  rw [book_eq hfree]
  have hplaced : ({ w.addOrder (w.bookedOrder p clientId clientOrderId v.nextMarketOrderId
      side price leavesQty) with freeOrders := rest } : BookView).Positive := by
    refine ⟨fun o ho => ?_, fun m hm => hmatched.sent m ?_⟩
    · rcases List.mem_cons.mp ((hw.perm_place (o := w.bookedOrder p clientId clientOrderId
        v.nextMarketOrderId side price leavesQty) same).mem_iff.mp ho) with rfl | ho
      · exact hpos
      · exact hmatched.orders o ho
    · rwa [← (place_sent w _).1]
  exact hplaced.send fun m hm => by
    rw [List.mem_singleton.mp hm]
    exact positive_update (by decide)

theorem Positive.reject (h : v.Positive) {type : ClientResponseType} (hne : type ≠ .filled)
    (clientId : ClientId) (clientOrderId : OrderId) :
    (v.reject type clientId clientOrderId).Positive :=
  h.send fun m hm => by
    rw [List.mem_singleton.mp hm]
    exact positive_response hne

theorem Positive.cancelOrder (h : v.Positive) (clientId : ClientId) (clientOrderId : OrderId)
    (o : OrderView) : (v.cancelOrder clientId clientOrderId o).Positive := by
  refine (h.removeOrder o).send fun m hm => ?_
  rcases List.mem_cons.mp hm with rfl | hm
  · exact positive_response (by decide)
  · rw [List.mem_singleton.mp hm]
    exact positive_update (by decide)

theorem Positive.reduce (h : v.Positive) (clientId : ClientId) (clientOrderId : OrderId)
    (o : OrderView) {newQuantity : Quantity} (pos : 0 < newQuantity) :
    (v.reduce clientId clientOrderId o newQuantity).Positive := by
  refine (h.setQty o.handle pos).send fun m hm => ?_
  rcases List.mem_cons.mp hm with rfl | hm
  · exact positive_response (by decide)
  · rw [List.mem_singleton.mp hm]
    exact positive_update (by decide)

/-- A call that leaves no order in place with nothing keeps all quantities positive. -/
theorem Positive.call (h : v.Positive) (hv : v.Valid) {r : OrderBook.BookRequest}
    (ha : Admissible v r) (hleaves : v.LeavesQuantity r) : (v.call r).Positive := by
  apply call_cases r
  · rintro clientId clientOrderId side price quantity rfl
    exact h.add hv ha
  · intro type clientId clientOrderId htype
    refine h.reject ?_ clientId clientOrderId
    rcases htype with rfl | rfl <;> decide
  · intro clientId clientOrderId o _
    exact h.cancelOrder clientId clientOrderId o
  · rintro clientId clientOrderId price quantity o rfl hfind ho hq
    exact (h.cancelOrder clientId clientOrderId o).add (cancelOrder_valid hv ho ..)
      (ha.2 o hfind hq)
  · rintro clientId clientOrderId price quantity o rfl hfind _ hprice _
    exact h.reduce clientId clientOrderId o (hleaves o hfind hprice)

end Steps

end BookView

section Run
variable {fuel : Nat} {i : InstrumentId} {rs : List OrderBook.BookRequest} {s : OrderBook}
  {v : BookView}

theorem leavesQuantity_view (hr : Represents s v) (hv : v.Valid) {r : OrderBook.BookRequest}
    (hb : r.Findable) (h : s.LeavesQuantity r) : v.LeavesQuantity r := by
  cases r with
  | add => trivial
  | cancel => trivial
  | modify clientId clientOrderId price quantity =>
    intro o hfind hprice
    obtain ⟨hheap, hfields, _⟩ := found_spec clientId clientOrderId hr hv hb hfind
    exact h _ hheap o.handle rfl (by rwa [hfields])

/-- In a run that leaves no order in place with nothing and books into slots free of another
side, every resting order has a quantity, and so has every execution that was reported. -/
theorem keepsQuantities_positive (hfuel : maxNumOrders < fuel)
    (h : Reached (OrderBook.call fuel) (OrderBook.KeepsQuantities fuel) (.create i) rs s) :
    (∀ p ∈ s.resting, 0 < (s.order p).qty) ∧ ∀ m ∈ s.sent, m.Positive := by
  have hsim : Simulates Positive s (rs.foldl BookView.call (.create i)) := by
    refine reached_simulates hfuel (create_positive i) ?_ h
    intro s v r hr hv hp ⟨_, hleaves, hbooks⟩ hfind
    exact ⟨books_sameSide hr hv hfuel hfind hbooks, fun ha =>
      hp.call hv ha (leavesQuantity_view hr hv hfind hleaves)⟩
  obtain ⟨hr, hv, hp⟩ := hsim
  constructor
  · intro p hrests
    obtain ⟨o, ho, rfl⟩ := List.mem_map.mp ((mem_resting_iff hr hv).mp hrests)
    rw [hr.fields ho]
    exact hp.orders o ho
  · rw [hr.sent]
    exact hp.sent

/-- The hypotheses are met by a run with executions and a `modify` to zero at a new price. -/
theorem keepsQuantities_positive_sample : ∃ s,
    Reached (OrderBook.call 3000) (OrderBook.KeepsQuantities 3000) (.create 0)
      [.add 1 1 .buy 10 5, .add 2 1 .sell 10 3, .modify 1 1 10 1, .add 1 2 .buy 9 4,
        .modify 1 1 8 0] s ∧
    (∀ p ∈ s.resting, 0 < (s.order p).qty) ∧ ∀ m ∈ s.sent, m.Positive := by
  obtain ⟨s, hs, _⟩ := @reached_of_any _ _ _ (OrderBook.call 3000)
    (OrderBook.KeepsQuantities 3000) (.create 0)
    [.add 1 1 .buy 10 5, .add 2 1 .sell 10 3, .modify 1 1 10 1, .add 1 2 .buy 9 4,
      .modify 1 1 8 0] _ (fun _ => true) (by decide +kernel)
  exact ⟨s, hs, keepsQuantities_positive (by decide) hs⟩

/-- A buy is modified to nothing at its price, and a sell arrives. -/
def modifiedToZero : List OrderBook.BookRequest :=
  [.add 1 1 .buy 10 5, .modify 1 1 10 0, .add 2 1 .sell 10 1]

/-- The buy rests with nothing, and the sell executes nothing against it. -/
theorem modifiedToZero_executes :
    (∃ s, Reached (OrderBook.call 3000) (fun s r => s.WithinPools 3000 r ∧ r.Nonempty)
        (.create 0) (modifiedToZero.take 2) s ∧
      ∃ p ∈ s.resting, ¬ 0 < (s.order p).qty) ∧
    ∃ s, Reached (OrderBook.call 3000) (fun s r => s.WithinPools 3000 r ∧ r.Nonempty)
        (.create 0) modifiedToZero s ∧
      Message.response ⟨.filled, 1, 0, 1, 1, .buy, 10, 0, 0⟩ ∈ s.sent ∧
      Message.update ⟨.trade, invalidOrderId, 0, .sell, 10, 0, invalidPriority⟩ ∈ s.sent := by
  constructor
  · obtain ⟨s, hs, hcheck⟩ := @reached_of_any _ _ _ (OrderBook.call 3000)
      (fun s r => s.WithinPools 3000 r ∧ r.Nonempty) (.create 0) (modifiedToZero.take 2) _
      (fun s => s.bid = some 0 ∧ (s.level 0).firstOrder = some 0 ∧ (s.order 0).qty = 0)
      (by decide +kernel)
    simp only [decide_eq_true_eq] at hcheck
    obtain ⟨hbid, hfirst, hqty⟩ := hcheck
    refine ⟨s, hs, 0, Or.inl ⟨0, ⟨0, hbid, .refl⟩, 0, hfirst, .refl⟩, ?_⟩
    rw [hqty]
    decide
  · obtain ⟨s, hs, hcheck⟩ := @reached_of_any _ _ _ (OrderBook.call 3000)
      (fun s r => s.WithinPools 3000 r ∧ r.Nonempty) (.create 0) modifiedToZero _
      (fun s => Message.response ⟨.filled, 1, 0, 1, 1, .buy, 10, 0, 0⟩ ∈ s.sent ∧
        Message.update ⟨.trade, invalidOrderId, 0, .sell, 10, 0, invalidPriority⟩ ∈ s.sent)
      (by decide +kernel)
    exact ⟨s, hs, of_decide_eq_true hcheck⟩

end Run

end StockExchange
