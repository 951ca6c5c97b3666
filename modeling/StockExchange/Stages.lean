import StockExchange.SlotIndex

/-!
# The stages of a call

A call accepts an order, matches it, and books what is left, or it removes, reduces or
rejects. Invariants that tie the messages to the book hold between calls; while an order
is matched they also speak of the taker.
-/

namespace StockExchange

open BookView

namespace BookView

/-- `Inv` holds between calls, `Match` while taker `a` has `leavesQty` left. -/
structure Stages (Inv : BookView → Prop) (Match : Aggressor → BookView → Quantity → Prop)
    (Q : BookView → Side → Price → Prop) : Prop where
  named : ∀ v o, v.Valid → Inv v → o ∈ v.orders → Named o.side
  accepted : ∀ v clientId clientOrderId side price quantity, v.Valid → Inv v → Named side →
    Match ⟨clientId, clientOrderId, v.nextMarketOrderId, side, price⟩
      (v.accepted clientId clientOrderId side price quantity) quantity
  fill : ∀ a v leavesQty o, v.Valid → Match a v leavesQty → v.head a.side = some o →
    o ∈ v.orders → leavesQty ≠ 0 → Match a (v.fill a leavesQty o) (leavesQty - min leavesQty o.qty)
  filled : ∀ a v, Match a v 0 → Inv v
  book : ∀ a v leavesQty h rest, v.Valid → Match a v leavesQty → 0 < leavesQty →
    v.freeOrders = h :: rest → v.SameSide a.side a.price → Q v a.side a.price →
    Inv (v.book a.clientId a.clientOrderId a.marketOrderId a.side a.price leavesQty)
  cancelOrder : ∀ v clientId clientOrderId o, v.Valid → Inv v → o ∈ v.orders →
    Inv (v.cancelOrder clientId clientOrderId o)
  reduce : ∀ v clientId clientOrderId o newQuantity, v.Valid → Inv v → o ∈ v.orders →
    newQuantity ≤ o.qty → Inv (v.reduce clientId clientOrderId o newQuantity)
  reject : ∀ v type clientId clientOrderId, type = .cancelRejected ∨ type = .modifyRejected →
    Inv v → Inv (v.reject type clientId clientOrderId)

namespace Stages
variable {Inv : BookView → Prop} {Match : Aggressor → BookView → Quantity → Prop}
  {Q : BookView → Side → Price → Prop} {v : BookView}

theorem accept (h : Stages Inv Match Q) (hv : v.Valid) (hi : Inv v) (clientId : ClientId)
    (clientOrderId : OrderId) {side : Side} (price : Price) (quantity : Quantity)
    (hn : Named side) :
    Match ⟨clientId, clientOrderId, v.nextMarketOrderId, side, price⟩
      (v.accept clientId clientOrderId side price quantity).1
      (v.accept clientId clientOrderId side price quantity).2 :=
  matchLoop_keeps (J := Match ⟨clientId, clientOrderId, v.nextMarketOrderId, side, price⟩)
    (fun _ _ _ hv hm hhead hleft _ =>
      h.fill _ _ _ _ hv hm hhead (mem_orders_of_head hv hhead).2 hleft)
    _ (accepted_valid hv clientId clientOrderId side price quantity)
    (h.accepted v clientId clientOrderId side price quantity hv hi hn)

theorem add (h : Stages Inv Match Q) (hv : v.Valid) (hi : Inv v) (clientId : ClientId)
    (clientOrderId : OrderId) {side : Side} (price : Price) (quantity : Quantity)
    (hn : Named side) (hb : Bookable clientId clientOrderId side price
      (v.accept clientId clientOrderId side price quantity))
    (hQ : 0 < (v.accept clientId clientOrderId side price quantity).2 →
      Q (v.accept clientId clientOrderId side price quantity).1 side price) :
    Inv (v.add clientId clientOrderId side price quantity) := by
  have hm := h.accept hv hi clientId clientOrderId price quantity hn
  refine add_cases hv hb (fun w heq => ?_) fun w leavesQty p rest heq hw hpos hfree same => ?_
  · rw [heq] at hm
    exact h.filled _ _ hm
  · rw [heq] at hm hQ
    exact h.book ⟨clientId, clientOrderId, v.nextMarketOrderId, side, price⟩ w leavesQty p rest hw
      hm hpos hfree same (hQ hpos)

/-- When a call books an order, the stage of its taker has been reached. -/
theorem books (h : Stages Inv Match Q) (hv : v.Valid) (hi : Inv v) {r : OrderBook.BookRequest}
    (hsided : r.Sided) : v.Books (fun w _ _ => w.Valid ∧ ∃ a n, Match a w n) r := by
  cases r with
  | add clientId clientOrderId side price quantity =>
    exact fun _ => ⟨accept_valid hv .., _, _, h.accept hv hi _ _ _ _ hsided⟩
  | cancel => trivial
  | modify clientId clientOrderId price quantity =>
    intro o hfind _ _
    have ho := (mem_of_findOrder clientId clientOrderId hfind).1
    have hv' := cancelOrder_valid hv ho clientId clientOrderId
    exact ⟨accept_valid hv' .., _, _, h.accept hv' (h.cancelOrder v _ _ o hv hi ho) _ _ _ _
      (h.named v o hv hi ho)⟩

/-- What every stage keeps, every call keeps. -/
theorem call (h : Stages Inv Match Q) (hv : v.Valid) (hi : Inv v) {r : OrderBook.BookRequest}
    (hsided : r.Sided) (ha : Admissible v r) (hQ : v.Books Q r) : Inv (v.call r) := by
  apply call_cases r
  · rintro clientId clientOrderId side price quantity rfl
    exact h.add hv hi _ _ _ _ hsided ha hQ
  · intro type clientId clientOrderId htype
    exact h.reject v _ _ _ htype hi
  · intro clientId clientOrderId o ho
    exact h.cancelOrder v _ _ o hv hi ho
  · rintro clientId clientOrderId price quantity o rfl hfind ho hq
    exact h.add (cancelOrder_valid hv ho ..) (h.cancelOrder v _ _ o hv hi ho) _ _ _ _
      (h.named v o hv hi ho) (ha.2 o hfind hq) (hQ o hfind hq)
  · intro clientId clientOrderId price quantity o _ _ ho _ hle
    exact h.reduce v _ _ o _ hv hi ho hle

end Stages

end BookView

end StockExchange
