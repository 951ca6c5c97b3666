import StockExchange.Runs

/-!
# Invariants of the view

What each step of a call keeps, every call keeps. The loop of `check_for_match` is an
induction on its rounds.
-/

namespace StockExchange

open BookView

namespace BookView

section Loop
variable {v : BookView} {a : Aggressor} {leavesQty : Quantity}

/-- An assertion about the book and the quantity left, kept by each execution. -/
theorem matchLoop_keeps {J : BookView → Quantity → Prop}
    (fill : ∀ v leavesQty o, v.Valid → J v leavesQty → v.head a.side = some o →
      leavesQty ≠ 0 → ¬ beyond a o → J (v.fill a leavesQty o) (leavesQty - min leavesQty o.qty))
    (n : Nat) (hv : v.Valid) (hJ : J v leavesQty) :
    J (v.matchLoop a n leavesQty).1 (v.matchLoop a n leavesQty).2 := by
  induction n generalizing v leavesQty with
  | zero => exact hJ
  | succ n ih =>
    rw [matchLoop]
    rcases hhead : v.head a.side with _ | o
    · exact hJ
    · by_cases hstop : leavesQty = 0 ∨ beyond a o
      · simp only [if_pos hstop]
        exact hJ
      · simp only [if_neg hstop]
        obtain ⟨hleft, hwithin⟩ := not_or.mp hstop
        exact ih (hv.fill a (mem_orders_of_head hv hhead).2 leavesQty)
          (fill v leavesQty o hv hJ hhead hleft hwithin)

theorem matchLoop_valid (n : Nat) (hv : v.Valid) : (v.matchLoop a n leavesQty).1.Valid :=
  matchLoop_keeps (J := fun w _ => w.Valid)
    (fun _ leavesQty _ hv _ hhead _ _ => hv.fill a (mem_orders_of_head hv hhead).2 leavesQty)
    n hv hv

/-- The loop ends with nothing left, or with no order within the limit at the head. -/
theorem matchLoop_exit (n : Nat) (hv : v.Valid)
    (hn : leavesQty = 0 ∨ v.oppositeCount a.side < n) :
    (v.matchLoop a n leavesQty).2 = 0 ∨
      ∀ o ∈ (v.matchLoop a n leavesQty).1.head a.side, beyond a o := by
  induction n generalizing v leavesQty with
  | zero => exact hn.imp_right fun h => absurd h (Nat.not_lt_zero _)
  | succ n ih =>
    rw [matchLoop]
    rcases hhead : v.head a.side with _ | o
    · simp [hhead]
    · by_cases hstop : leavesQty = 0 ∨ beyond a o
      · simp only [if_pos hstop]
        exact hstop.imp_right fun h => by simpa [hhead] using h
      · simp only [if_neg hstop]
        refine ih (hv.fill a (mem_orders_of_head hv hhead).2 leavesQty) ?_
        have hlt := hn.resolve_left (not_or.mp hstop).1
        exact (fill_progress hv a hhead leavesQty).imp_right fun _ => by omega

theorem accepted_valid (hv : v.Valid) (clientId : ClientId) (clientOrderId : OrderId)
    (side : Side) (price : Price) (quantity : Quantity) :
    (v.accepted clientId clientOrderId side price quantity).Valid :=
  ⟨hv.slots, hv.nonempty, hv.bidSide, hv.askSide, hv.filed, hv.inTable, hv.clientOrders,
    hv.orderHandles, hv.levelHandles⟩

theorem accept_valid (hv : v.Valid) (clientId : ClientId) (clientOrderId : OrderId) (side : Side)
    (price : Price) (quantity : Quantity) :
    (v.accept clientId clientOrderId side price quantity).1.Valid :=
  matchLoop_valid _ (accepted_valid hv clientId clientOrderId side price quantity)

/-- After the matching nothing is left, or the head of the other side is out of reach. -/
theorem accept_exit (hv : v.Valid) (clientId : ClientId) (clientOrderId : OrderId) (side : Side)
    (price : Price) (quantity : Quantity) :
    (v.accept clientId clientOrderId side price quantity).2 = 0 ∨
      ∀ o ∈ (v.accept clientId clientOrderId side price quantity).1.head side,
        beyond ⟨clientId, clientOrderId, v.nextMarketOrderId, side, price⟩ o :=
  matchLoop_exit _ (accepted_valid hv clientId clientOrderId side price quantity)
    (Or.inr (Nat.lt_succ_self _))

theorem cancelOrder_valid {o : OrderView} (hv : v.Valid) (ho : o ∈ v.orders) (clientId : ClientId)
    (clientOrderId : OrderId) : (v.cancelOrder clientId clientOrderId o).Valid :=
  (hv.removeOrder ho).send _

end Loop

section Book
variable {v : BookView} {side : Side} {price : Price}

/-- What `book` does with a free block: the order is added, then reported. -/
theorem book_eq {h : OrderPtr} {rest : List OrderPtr} (hfree : v.freeOrders = h :: rest)
    (clientId : ClientId) (clientOrderId id : OrderId) (side : Side) (price : Price)
    (leavesQty : Quantity) : v.book clientId clientOrderId id side price leavesQty =
      ({ v.addOrder (v.bookedOrder h clientId clientOrderId id side price leavesQty) with
        freeOrders := rest } : BookView).send
      [.update ⟨.add, id, v.instrumentId, side, price, leavesQty, v.priorityAt side price⟩] := by
  rw [book]
  simp only [hfree]
  rfl

theorem place_sent (v : BookView) (o : OrderView) : (v.place o).sent = v.sent ∧
    (v.place o).nextMarketOrderId = v.nextMarketOrderId := by
  unfold place
  split
  · exact ⟨rfl, rfl⟩
  · split <;> exact ⟨rfl, rfl⟩

theorem sent_book {h : OrderPtr} {rest : List OrderPtr} (hfree : v.freeOrders = h :: rest)
    (clientId : ClientId) (clientOrderId id : OrderId) (side : Side) (price : Price)
    (leavesQty : Quantity) : (v.book clientId clientOrderId id side price leavesQty).sent =
      v.sent ++
        [.update ⟨.add, id, v.instrumentId, side, price, leavesQty, v.priorityAt side price⟩] := by
  rw [book_eq hfree]
  change (v.place _).sent ++ _ = _
  rw [(place_sent v _).1]

theorem nextMarketOrderId_book {h : OrderPtr} {rest : List OrderPtr}
    (hfree : v.freeOrders = h :: rest) (clientId : ClientId) (clientOrderId id : OrderId)
    (side : Side) (price : Price) (leavesQty : Quantity) :
    (v.book clientId clientOrderId id side price leavesQty).nextMarketOrderId =
      v.nextMarketOrderId := by
  rw [book_eq hfree]
  exact (place_sent v _).2

end Book

section Fill
variable (v : BookView) (a : Aggressor) (leavesQty : Quantity) (o : OrderView)

theorem sent_fill : (v.fill a leavesQty o).sent =
    v.sent ++ fillMessages v.instrumentId a leavesQty o.toOrderFields (min leavesQty o.qty) := by
  by_cases hzero : o.qty - min leavesQty o.qty = 0
  · rw [fill_eq_removeOrder a hzero]
    rfl
  · rw [fill_eq_setQty a hzero]
    rfl

theorem nextMarketOrderId_fill :
    (v.fill a leavesQty o).nextMarketOrderId = v.nextMarketOrderId := by
  by_cases hzero : o.qty - min leavesQty o.qty = 0
  · rw [fill_eq_removeOrder a hzero]
    rfl
  · rw [fill_eq_setQty a hzero]
    rfl

theorem send_send (ms ns : List Message) : (v.send ms).send ns = v.send (ms ++ ns) := by
  simp [send, List.append_assoc]

/-- The two `FILLED` and the `TRADE` of an execution. -/
def executionMessages (i : InstrumentId) (a : Aggressor) (leavesQty : Quantity)
    (o : OrderFields) (qty : Quantity) : List Message :=
  [.response ⟨.filled, a.clientId, i, a.clientOrderId, a.marketOrderId, a.side, o.price, qty,
    leavesQty - qty⟩,
   .response ⟨.filled, o.clientId, o.instrumentId, o.clientOrderId, o.marketOrderId, o.side,
    o.price, qty, o.qty - qty⟩,
   .update ⟨.trade, invalidOrderId, i, a.side, o.price, qty, invalidPriority⟩]

/-- An execution against all of a resting order: it is reported, the order removed, and
the removal reported. -/
theorem fill_whole (hzero : o.qty - min leavesQty o.qty = 0) : v.fill a leavesQty o =
    ((v.send (executionMessages v.instrumentId a leavesQty o.toOrderFields
      (min leavesQty o.qty))).removeOrder o).send
      [.update ⟨.cancel, o.marketOrderId, v.instrumentId, o.side, o.price, o.qty, o.priority⟩] := by
  have hsplit : fillMessages v.instrumentId a leavesQty o.toOrderFields (min leavesQty o.qty) =
      executionMessages v.instrumentId a leavesQty o.toOrderFields (min leavesQty o.qty) ++
        [.update ⟨.cancel, o.marketOrderId, v.instrumentId, o.side, o.price, o.qty,
          o.priority⟩] := by
    rw [fillMessages, if_pos hzero]
    rfl
  rw [fill_eq_removeOrder a hzero, hsplit, ← send_send]
  rfl

/-- An execution against a part of a resting order. -/
theorem fill_part (hzero : ¬ o.qty - min leavesQty o.qty = 0) : v.fill a leavesQty o =
    ((v.send (executionMessages v.instrumentId a leavesQty o.toOrderFields
      (min leavesQty o.qty))).setQty o.handle (o.qty - min leavesQty o.qty)).send
      [.update ⟨.modify, o.marketOrderId, v.instrumentId, o.side, o.price,
        o.qty - min leavesQty o.qty, o.priority⟩] := by
  have hsplit : fillMessages v.instrumentId a leavesQty o.toOrderFields (min leavesQty o.qty) =
      executionMessages v.instrumentId a leavesQty o.toOrderFields (min leavesQty o.qty) ++
        [.update ⟨.modify, o.marketOrderId, v.instrumentId, o.side, o.price,
          o.qty - min leavesQty o.qty, o.priority⟩] := by
    rw [fillMessages, if_neg hzero]
    rfl
  rw [fill_eq_setQty a hzero, hsplit, ← send_send]
  rfl

end Fill

section Cases
variable {v : BookView} {P : BookView → Prop}

/-- An order is used up by its executions, or what is left of it is booked. -/
theorem add_cases {clientId : ClientId} {clientOrderId : OrderId} {side : Side} {price : Price}
    {quantity : Quantity} (hv : v.Valid)
    (hb : Bookable clientId clientOrderId side price
      (v.accept clientId clientOrderId side price quantity))
    (filled : ∀ w, v.accept clientId clientOrderId side price quantity = (w, 0) → P w)
    (booked : ∀ w leavesQty h rest,
      v.accept clientId clientOrderId side price quantity = (w, leavesQty) → w.Valid →
      0 < leavesQty → w.freeOrders = h :: rest → w.SameSide side price →
      P (w.book clientId clientOrderId v.nextMarketOrderId side price leavesQty)) :
    P (v.add clientId clientOrderId side price quantity) := by
  have hvalid := accept_valid hv clientId clientOrderId side price quantity
  rw [BookView.add]
  generalize v.accept clientId clientOrderId side price quantity = r at hb filled booked hvalid ⊢
  obtain ⟨w, leavesQty⟩ := r
  by_cases hpos : 0 < leavesQty
  · obtain ⟨_, free, same⟩ := hb hpos
    obtain ⟨h, rest, hfree⟩ := List.exists_cons_of_ne_nil free
    simp only [if_pos hpos]
    exact booked w leavesQty h rest rfl hvalid hpos hfree same
  · have hzero : leavesQty = 0 := by rwa [UInt32.pos_iff_ne_zero, not_not] at hpos
    simp only [if_neg hpos]
    exact filled w (hzero ▸ rfl)

/-- A call adds an order, rejects the request, cancels an order, puts one back into the
queue or reduces one. -/
theorem call_cases (r : OrderBook.BookRequest)
    (add : ∀ clientId clientOrderId side price quantity,
      r = .add clientId clientOrderId side price quantity →
      P (v.add clientId clientOrderId side price quantity))
    (reject : ∀ type clientId clientOrderId, type = .cancelRejected ∨ type = .modifyRejected →
      P (v.reject type clientId clientOrderId))
    (cancelOrder : ∀ clientId clientOrderId o, o ∈ v.orders →
      P (v.cancelOrder clientId clientOrderId o))
    (requeue : ∀ clientId clientOrderId price quantity o,
      r = .modify clientId clientOrderId price quantity →
      v.findOrder clientId clientOrderId = some o → o ∈ v.orders →
      (o.price ≠ price ∨ o.qty < quantity) →
      P ((v.cancelOrder clientId clientOrderId o).add clientId clientOrderId o.side price quantity))
    (reduce : ∀ clientId clientOrderId price quantity o,
      r = .modify clientId clientOrderId price quantity →
      v.findOrder clientId clientOrderId = some o → o ∈ v.orders →
      o.price = price → quantity ≤ o.qty →
      P (v.reduce clientId clientOrderId o quantity)) : P (v.call r) := by
  cases r with
  | add clientId clientOrderId side price quantity => exact add _ _ _ _ _ rfl
  | cancel clientId clientOrderId =>
    rw [BookView.call, BookView.cancel]
    rcases hfind : v.findOrder clientId clientOrderId with _ | o
    · exact reject _ _ _ (Or.inl rfl)
    · exact cancelOrder _ _ o (mem_of_findOrder clientId clientOrderId hfind).1
  | modify clientId clientOrderId price quantity =>
    rw [BookView.call, BookView.modify]
    rcases hfind : v.findOrder clientId clientOrderId with _ | o
    · exact reject _ _ _ (Or.inr rfl)
    · have ho := (mem_of_findOrder clientId clientOrderId hfind).1
      by_cases hq : o.price ≠ price ∨ o.qty < quantity
      · simp only [if_pos hq]
        exact requeue _ _ _ _ o rfl hfind ho hq
      · simp only [if_neg hq]
        exact reduce _ _ _ _ o rfl hfind ho (not_not.mp (not_or.mp hq).1)
          (UInt32.not_lt.mp (not_or.mp hq).2)

end Cases

/-- An invariant of the lists alone: kept by every removal, change of quantity and
booking, and blind to messages and the id counter. -/
structure Structural (Inv : BookView → Prop) (Q : BookView → Side → Price → Prop) : Prop where
  report : ∀ v id ms, Inv v → Inv (({ v with nextMarketOrderId := id } : BookView).send ms)
  setQty : ∀ v h qty, v.Valid → Inv v → Inv (v.setQty h qty)
  removeOrder : ∀ v o, v.Valid → o ∈ v.orders → Inv v → Inv (v.removeOrder o)
  addOrder : ∀ v o rest, v.Valid → Inv v → v.freeOrders = o.handle :: rest →
    v.SameSide o.side o.price → Q v o.side o.price →
    Inv { v.addOrder o with freeOrders := rest }

namespace Structural
variable {Inv : BookView → Prop} {Q : BookView → Side → Price → Prop} {v : BookView}

theorem send (h : Structural Inv Q) (ms : List Message) (hi : Inv v) : Inv (v.send ms) :=
  h.report v v.nextMarketOrderId ms hi

theorem fill (h : Structural Inv Q) (hv : v.Valid) (hi : Inv v) (a : Aggressor) {o : OrderView}
    (ho : o ∈ v.orders) (leavesQty : Quantity) : Inv (v.fill a leavesQty o) := by
  by_cases hzero : o.qty - min leavesQty o.qty = 0
  · rw [fill_eq_removeOrder a hzero]
    exact h.removeOrder _ o (hv.send _) ho (h.send _ hi)
  · rw [fill_eq_setQty a hzero]
    exact h.send _ (h.setQty v _ _ hv hi)

theorem accept (h : Structural Inv Q) (hv : v.Valid) (hi : Inv v) (clientId : ClientId)
    (clientOrderId : OrderId) (side : Side) (price : Price) (quantity : Quantity) :
    Inv (v.accept clientId clientOrderId side price quantity).1 :=
  matchLoop_keeps (J := fun w _ => Inv w)
    (fun _ leavesQty _ hv hi hhead _ _ =>
      h.fill hv hi _ (mem_orders_of_head hv hhead).2 leavesQty)
    _ (accepted_valid hv clientId clientOrderId side price quantity) (h.report v _ _ hi)

theorem book (h : Structural Inv Q) (hv : v.Valid) (hi : Inv v) {side : Side} {price : Price}
    (free : v.freeOrders ≠ []) (same : v.SameSide side price) (hQ : Q v side price)
    (clientId : ClientId) (clientOrderId id : OrderId) (leavesQty : Quantity) :
    Inv (v.book clientId clientOrderId id side price leavesQty) := by
  obtain ⟨p, rest, hfree⟩ := List.exists_cons_of_ne_nil free
  rw [book_eq hfree]
  exact h.send _ (h.addOrder v (v.bookedOrder p clientId clientOrderId id side price leavesQty) rest
    hv hi hfree same hQ)

theorem add (h : Structural Inv Q) (hv : v.Valid) (hi : Inv v) (clientId : ClientId)
    (clientOrderId : OrderId) (side : Side) (price : Price) (quantity : Quantity)
    (hb : Bookable clientId clientOrderId side price
      (v.accept clientId clientOrderId side price quantity))
    (hQ : 0 < (v.accept clientId clientOrderId side price quantity).2 →
      Q (v.accept clientId clientOrderId side price quantity).1 side price) :
    Inv (v.add clientId clientOrderId side price quantity) := by
  have haccept := h.accept hv hi clientId clientOrderId side price quantity
  refine add_cases hv hb (fun w heq => ?_) fun w leavesQty p rest heq hw hpos hfree same => ?_
  · rwa [heq] at haccept
  · rw [heq] at haccept hQ
    exact h.book hw haccept (by simp [hfree]) same (hQ hpos) _ _ _ _

/-- Every call keeps a structural invariant. -/
theorem call (h : Structural Inv Q) (hv : v.Valid) (hi : Inv v) {r : OrderBook.BookRequest}
    (ha : Admissible v r) (hQ : v.Books Q r) : Inv (v.call r) := by
  apply call_cases r
  · rintro clientId clientOrderId side price quantity rfl
    exact h.add hv hi _ _ _ _ _ ha hQ
  · intro type clientId clientOrderId _
    exact h.send _ hi
  · intro clientId clientOrderId o ho
    exact h.send _ (h.removeOrder v o hv ho hi)
  · rintro clientId clientOrderId price quantity o rfl hfind ho hq
    exact h.add (cancelOrder_valid hv ho ..) (h.send _ (h.removeOrder v o hv ho hi)) _ _ _ _ _
      (ha.2 o hfind hq) (hQ o hfind hq)
  · intro clientId clientOrderId price quantity o _ _ _ _ _
    exact h.send _ (h.setQty v _ _ hv hi)

end Structural

end BookView

end StockExchange
