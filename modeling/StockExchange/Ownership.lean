import StockExchange.ReferenceBook

/-!
# The table of client orders

`add_order` writes the entry of an order and `remove_order` clears it without looking at what
it holds. As long as no order is booked under ids that a resting order has, the entry of each
resting order is that order.
-/

namespace StockExchange

open Ring BookView Transitions

namespace OrderBook

/-- The lookup of `cancel` and `modify` finds the order under its own ids. -/
def OwnerFinds (s : OrderBook) (p : OrderPtr) : Prop :=
  s.findClientOrder (s.order p).clientId (s.order p).clientOrderId = .ok (some p)

/-- A new order that is booked is booked under ids without an entry. -/
def BooksUnused (fuel : Nat) (s : OrderBook) : BookRequest → Prop
  | .add clientId clientOrderId side price quantity =>
    AddBooks fuel (fun s _ _ => s.clientOrders clientId.toNat clientOrderId.toNat = none) s
      clientId clientOrderId side price quantity
  | .cancel _ _ => True
  | .modify _ _ _ _ => True

instance (fuel : Nat) (s : OrderBook) (r : BookRequest) : Decidable (s.BooksUnused fuel r) :=
  match r with
  | .add clientId clientOrderId side price quantity =>
    inferInstanceAs (Decidable (AddBooks fuel
      (fun s _ _ => s.clientOrders clientId.toNat clientOrderId.toNat = none) s clientId
      clientOrderId side price quantity))
  | .cancel _ _ => .isTrue trivial
  | .modify _ _ _ _ => .isTrue trivial

/-- Within the tables and pools, in slots of its price, and under ids without an entry. -/
def KeepsOwners (fuel : Nat) (s : OrderBook) (r : BookRequest) : Prop :=
  s.WithinPools fuel r ∧ s.KeepsPrices fuel r ∧ s.BooksUnused fuel r

instance (fuel : Nat) (s : OrderBook) (r : BookRequest) : Decidable (s.KeepsOwners fuel r) :=
  inferInstanceAs (Decidable (_ ∧ _))

end OrderBook

namespace BookView

/-- The ids of a new order that is booked have no entry. -/
def BooksUnused (v : BookView) : OrderBook.BookRequest → Prop
  | .add clientId clientOrderId side price quantity =>
    0 < (v.accept clientId clientOrderId side price quantity).2 →
      (v.accept clientId clientOrderId side price quantity).1.clientOrders clientId.toNat
        clientOrderId.toNat = none
  | .cancel _ _ => True
  | .modify _ _ _ _ => True

section Steps
variable {v : BookView} {clientId : ClientId} {clientOrderId : OrderId} {side : Side}
  {price : Price} {quantity : Quantity}

theorem Keyed.matched (hk : v.Keyed) (hv : v.Valid) (clientId : ClientId)
    (clientOrderId : OrderId) (side : Side) (price : Price) (quantity : Quantity) :
    (v.accept clientId clientOrderId side price quantity).1.Keyed :=
  matchLoop_keeps (J := fun w _ => w.Keyed)
    (fun _ leavesQty _ hv hk hhead _ _ => hk.fill _ (mem_orders_of_head hv hhead).2 leavesQty)
    _ (accepted_valid hv ..) hk

theorem Keyed.add (hk : v.Keyed) (hv : v.Valid)
    (hb : Bookable clientId clientOrderId side price
      (v.accept clientId clientOrderId side price quantity))
    (unused : 0 < (v.accept clientId clientOrderId side price quantity).2 →
      (v.accept clientId clientOrderId side price quantity).1.clientOrders clientId.toNat
        clientOrderId.toNat = none) :
    (v.add clientId clientOrderId side price quantity).Keyed := by
  have hmatched := hk.matched hv clientId clientOrderId side price quantity
  refine add_cases hv hb (fun w heq => ?_) fun w leavesQty h rest heq hw hpos hfree same => ?_
  · rwa [heq] at hmatched
  · rw [heq] at hmatched unused
    rw [book_eq hfree]
    exact hmatched.addOrder hw (o := w.bookedOrder h clientId clientOrderId _ side price leavesQty)
      same (unused hpos)

/-- The entry of an order is clear once it is canceled. -/
theorem cancelOrder_unused (hv : v.Valid) {o : OrderView}
    (hfind : v.findOrder clientId clientOrderId = some o) :
    (v.cancelOrder clientId clientOrderId o).clientOrders clientId.toNat clientOrderId.toNat =
      none := by
  obtain ⟨ho, _, htable⟩ := mem_of_findOrder clientId clientOrderId hfind
  obtain ⟨o', ho', hh, hc, hi⟩ := hv.clientOrders _ _ _ htable
  obtain rfl := hv.order_eq ho' ho hh
  change (v.removeOrder o').clientOrders _ _ = none
  rw [clientOrders_removeOrder, if_pos ⟨hc.symm, hi.symm⟩]

/-- An order modified to the back of a queue is booked under the ids it had. -/
theorem Keyed.call (hk : v.Keyed) (hv : v.Valid) {r : OrderBook.BookRequest}
    (ha : Admissible v r) (unused : v.BooksUnused r) : (v.call r).Keyed := by
  apply call_cases r
  · rintro clientId clientOrderId side price quantity rfl
    exact hk.add hv ha unused
  · intro type clientId clientOrderId _
    exact hk
  · intro clientId clientOrderId o ho
    exact hk.removeOrder ho
  · rintro clientId clientOrderId price quantity o rfl hfind ho hq
    have hcancel : (v.cancelOrder clientId clientOrderId o).Keyed := hk.removeOrder ho
    have hvalid := cancelOrder_valid hv ho clientId clientOrderId
    exact hcancel.add hvalid (ha.2 o hfind hq) fun _ =>
      (hcancel.accept hvalid (cancelOrder_unused hv hfind) o.side price quantity).2
  · intro clientId clientOrderId price quantity o _ _ _ _ _
    exact hk.setQty o.handle quantity

end Steps

end BookView

section Run
variable {fuel : Nat} {i : InstrumentId} {rs : List OrderBook.BookRequest} {s : OrderBook}
  {v : BookView}

theorem booksUnused_view (hr : Represents s v) (hv : v.Valid) (hfuel : maxNumOrders < fuel)
    {r : OrderBook.BookRequest} (h : s.BooksUnused fuel r) : v.BooksUnused r := by
  cases r with
  | add clientId clientOrderId side price quantity =>
    intro hpos
    obtain ⟨s', hs', hr', _⟩ := accept_spec clientId clientOrderId side price quantity hr hv hfuel
    rw [← hr'.clientOrders]
    exact h (s', _) hs' hpos
  | cancel => trivial
  | modify => trivial

theorem ownerFinds_of_keyed (hr : Represents s v) (hv : v.Valid) (hk : v.Keyed) {p : OrderPtr}
    (hp : p ∈ s.resting) : s.OwnerFinds p := by
  obtain ⟨o, ho, rfl⟩ := List.mem_map.mp ((mem_resting_iff hr hv).mp hp)
  obtain ⟨hc, hi⟩ := hv.inTable o ho
  rw [OrderBook.OwnerFinds, hr.fields ho, OrderBook.findClientOrder, if_pos hc, if_pos hi,
    hr.clientOrders, hk o ho]

/-- In a run that books no order under the ids of another one, every resting order is found
under its ids. -/
theorem keepsOwners_found (hfuel : maxNumOrders < fuel)
    (h : Reached (OrderBook.call fuel) (OrderBook.KeepsOwners fuel) (.create i) rs s) :
    ∀ p ∈ s.resting, s.OwnerFinds p := by
  have hsim : Simulates Keyed s (rs.foldl BookView.call (.create i)) := by
    refine reached_simulates hfuel (fun o ho => absurd ho List.not_mem_nil) ?_ h
    intro s v r hr hv hk ⟨_, hprices, hunused⟩ _
    exact ⟨books_mono (fun _ _ _ => SamePrice.same) (keepsPrices_books hfuel hr hv hprices),
      fun ha => hk.call hv ha (booksUnused_view hr hv hfuel hunused)⟩
  intro p hp
  exact ownerFinds_of_keyed hsim.1 hsim.2.1 hsim.2.2 hp

/-- The hypotheses are met by a run in which ids are used again once their order is filled. -/
theorem keepsOwners_found_sample : ∃ s,
    Reached (OrderBook.call 3000) (OrderBook.KeepsOwners 3000) (.create 0)
      [.add 1 1 .buy 10 5, .add 2 1 .sell 10 5, .add 1 1 .buy 11 5, .modify 1 1 12 6] s ∧
    ∀ p ∈ s.resting, s.OwnerFinds p := by
  obtain ⟨s, hs, _⟩ := @reached_of_any _ _ _ (OrderBook.call 3000) (OrderBook.KeepsOwners 3000)
    (.create 0) [.add 1 1 .buy 10 5, .add 2 1 .sell 10 5, .add 1 1 .buy 11 5, .modify 1 1 12 6] _
    (fun _ => true) (by decide +kernel)
  exact ⟨s, hs, keepsOwners_found (by decide) hs⟩

/-- A client sends two buys under one id. -/
def sameId : List OrderBook.BookRequest := [.add 1 1 .buy 10 5, .add 1 1 .buy 11 5]

/-- The first of them rests, and its ids lead to the second. -/
theorem sameId_lost : ∃ s,
    Reached (OrderBook.call 3000) (fun s r => s.WithinPools 3000 r ∧ s.KeepsPrices 3000 r)
      (.create 0) sameId s ∧
    ∃ p ∈ s.resting, ¬ s.OwnerFinds p := by
  obtain ⟨s, hs, hcheck⟩ := @reached_of_any _ _ _ (OrderBook.call 3000)
    (fun s r => s.WithinPools 3000 r ∧ s.KeepsPrices 3000 r) (.create 0) sameId _
    (fun s => s.bid = some 1 ∧ (s.level 1).nextEntry = some 0 ∧ (s.level 0).firstOrder = some 0 ∧
      (s.order 0).clientId = 1 ∧ (s.order 0).clientOrderId = 1 ∧ s.clientOrders 1 1 = some 1)
    (by decide +kernel)
  simp only [decide_eq_true_eq] at hcheck
  obtain ⟨hbid, hnext, hfirst, hclient, hid, hentry⟩ := hcheck
  have hlevel : s.LevelOf .buy 0 := ⟨1, hbid, .single hnext⟩
  refine ⟨s, hs, 0, Or.inl ⟨0, hlevel, 0, hfirst, .refl⟩, ?_⟩
  have hfound : s.findClientOrder (s.order 0).clientId (s.order 0).clientOrderId =
      .ok (some 1) := by
    rw [hclient, hid]
    exact congrArg Except.ok hentry
  rw [OrderBook.OwnerFinds, hfound]
  simp

end Run

end StockExchange
