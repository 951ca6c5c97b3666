import StockExchange.TradingSystem

/-!
# Requests in doubt

An order of a trade engine is at the exchange while it is asked for or rests, and a cancel
is in doubt from when it is sent until its answer is read. There is one order in each
place whatever the engine does, and one cancel in doubt for it as long as the engine moves
no order whose cancel is still in doubt.
-/

namespace StockExchange

open Transitions

/-- The cancels of an order that are on their way to the exchange. -/
def cancelsSent (i : Nat) (id : OrderId) (qs : List ClientRequestInternal) : Nat :=
  qs.countP fun q => q.type = .cancel ∧ q.instrumentId.toNat = i ∧ q.orderId = id

/-- The answers to cancels of an order that are on their way back. -/
def cancelsAnswered (i : Nat) (id : OrderId) (rs : List ClientResponseInternal) : Nat :=
  rs.countP fun r => (r.type = .canceled ∨ r.type = .cancelRejected) ∧
    r.instrumentId.toNat = i ∧ r.clientOrderId = id

instance (o : OmOrder) (price : Price) : Decidable (o.Moves price) :=
  inferInstanceAs (Decidable (_ ∧ _))

namespace TradingSystem

def unanswered (s : TradingSystem) (i : Nat) (id : OrderId) : Nat :=
  cancelsSent i id s.engine.outgoingOgwRequests +
    cancelsAnswered i id s.engine.incomingOgwResponses

/-- The order of a place is the only one of the place at the exchange, and at most one of
its cancels is in doubt. -/
structure OneInDoubt (s : TradingSystem) : Prop where
  atMostOne : ∀ i k, (asked i k s.engine.outgoingOgwRequests).length +
    (working i k s.orders).length ≤ 1
  pending : ∀ i k, ∀ q ∈ asked i k s.engine.outgoingOgwRequests,
    q.orderId = (s.engine.instrumentSideOrder i k).orderId ∧
      q.price = (s.engine.instrumentSideOrder i k).price ∧
      q.side = (s.engine.instrumentSideOrder i k).side
  resting : ∀ i k, ∀ o ∈ working i k s.orders,
    o.clientOrderId = (s.engine.instrumentSideOrder i k).orderId ∧
      o.price = (s.engine.instrumentSideOrder i k).price ∧
      o.side = (s.engine.instrumentSideOrder i k).side
  cancels : ∀ i k, s.unanswered i (s.engine.instrumentSideOrder i k).orderId ≤ 1

/-- No order is moved while a cancel of it is in doubt. The orders of both sides may be
moved at once unless they have the same id. -/
def KeepsOne (s : TradingSystem) : TradingStep → Prop
  | .moveOrders instrumentId bidPrice askPrice _ =>
    let bid := s.engine.instrumentSideOrder instrumentId.toNat (sideToIndex .buy)
    let ask := s.engine.instrumentSideOrder instrumentId.toNat (sideToIndex .sell)
    (bid.Moves bidPrice → s.unanswered instrumentId.toNat bid.orderId = 0) ∧
      (ask.Moves askPrice → s.unanswered instrumentId.toNat ask.orderId = 0) ∧
      ¬ (bid.Moves bidPrice ∧ ask.Moves askPrice ∧ bid.orderId = ask.orderId)
  | _ => True

instance (s : TradingSystem) : (r : TradingStep) → Decidable (s.KeepsOne r)
  | .moveOrders .. => inferInstanceAs (Decidable (_ ∧ _ ∧ _))
  | .answer _ | .fill .. | .read => .isTrue trivial

end TradingSystem

/-- A side that the engine trades on. -/
abbrev Traded (side : Side) : Prop := side = .buy ∨ side = .sell

theorem Traded.eq_of_index {side side' : Side} (h : Traded side) (h' : Traded side')
    (hindex : sideToIndex side = sideToIndex side') : side = side' := by
  rcases h with rfl | rfl <;> rcases h' with rfl | rfl
  · rfl
  · exact absurd hindex (by decide)
  · exact absurd hindex (by decide)
  · rfl

/-- An order that the engine takes to be pending or live is written in its place. -/
def OmOrder.Placed (o : OmOrder) (i k : Nat) : Prop :=
  o.orderState = .pendingNew ∨ o.orderState = .live →
    PlacedAt i k o.instrumentId o.side ∧ Traded o.side

/-- What the engine sends: new orders on the sides it trades on, and cancels. -/
def ClientRequestInternal.Expected (q : ClientRequestInternal) : Prop :=
  q.type = .cancel ∨ q.type = .new ∧ Traded q.side

section Place
variable {o : OmOrder} {i k : Nat} {qs : List ClientRequestInternal} {r : ClientResponseInternal}
  {rs : List ClientResponseInternal} {xs : List VenueOrder}

/-- Only of a pending or live order is there anything to read. -/
theorem Agrees.open_of_read (h : Agrees o qs (r :: rs) xs) :
    o.orderState = .pendingNew ∨ o.orderState = .live := by
  generalize hrs : r :: rs = rs' at h
  cases h with
  | idle | requested => cases hrs
  | accepted state => exact Or.inl state
  | live state => exact Or.inr state

theorem onOrderUpdate_place (o : OmOrder) (r : ClientResponseInternal) :
    (o.onOrderUpdate r).instrumentId = o.instrumentId ∧ (o.onOrderUpdate r).side = o.side := by
  rw [OmOrder.onOrderUpdate]
  (repeat' split) <;> exact ⟨rfl, rfl⟩

theorem Settles.named {id : OrderId} {price : Price} {qty : Quantity}
    (h : Settles id price qty rs xs) : ∀ x ∈ xs, x.clientOrderId = id ∧ x.price = price := by
  induction h with
  | resting named left => exact List.forall_mem_singleton.mpr named
  | reduced _ _ _ _ _ ih => exact ih
  | empty | filled | canceled => exact List.forall_mem_nil _

/-- Together, at most one order is asked for or rests. -/
theorem Agrees.length_add_le (h : Agrees o qs rs xs) : qs.length + xs.length ≤ 1 := by
  cases h with
  | idle => exact Nat.zero_le 1
  | requested => exact Nat.le_refl 1
  | accepted _ _ left | live _ left =>
    rw [List.length_nil, Nat.zero_add]
    exact left.length_le

theorem Agrees.named (h : Agrees o qs rs xs) :
    (∀ q ∈ qs, q.orderId = o.orderId ∧ q.price = o.price) ∧
      ∀ x ∈ xs, x.clientOrderId = o.orderId ∧ x.price = o.price := by
  cases h with
  | idle => exact ⟨List.forall_mem_nil _, List.forall_mem_nil _⟩
  | requested _ _ named => exact ⟨List.forall_mem_singleton.mpr named, List.forall_mem_nil _⟩
  | accepted _ _ left | live _ left => exact ⟨List.forall_mem_nil _, left.named⟩

/-- What is at the exchange is pending or live in its place. -/
theorem Agrees.open_of_any (h : Agrees o qs rs xs) (hany : qs ≠ [] ∨ xs ≠ []) :
    o.orderState = .pendingNew ∨ o.orderState = .live := by
  cases h with
  | idle => exact hany.elim (absurd rfl) (absurd rfl)
  | requested state => exact Or.inl state
  | accepted state => exact Or.inl state
  | live state => exact Or.inr state

end Place

section Counts
variable {i : Nat} {id : OrderId}

theorem cancelsSent_concat (qs : List ClientRequestInternal) (q : ClientRequestInternal) :
    cancelsSent i id (qs ++ [q]) = cancelsSent i id qs +
      if q.type = .cancel ∧ q.instrumentId.toNat = i ∧ q.orderId = id then 1 else 0 := by
  rw [cancelsSent, List.countP_append, ← cancelsSent, List.countP_singleton]
  simp only [decide_eq_true_eq]

theorem cancelsSent_cons (qs : List ClientRequestInternal) (q : ClientRequestInternal) :
    cancelsSent i id (q :: qs) = cancelsSent i id qs +
      if q.type = .cancel ∧ q.instrumentId.toNat = i ∧ q.orderId = id then 1 else 0 := by
  rw [cancelsSent, List.countP_cons, ← cancelsSent]
  simp only [decide_eq_true_eq]

theorem cancelsAnswered_concat (rs : List ClientResponseInternal) (r : ClientResponseInternal) :
    cancelsAnswered i id (rs ++ [r]) = cancelsAnswered i id rs +
      if (r.type = .canceled ∨ r.type = .cancelRejected) ∧ r.instrumentId.toNat = i ∧
        r.clientOrderId = id then 1 else 0 := by
  rw [cancelsAnswered, List.countP_append, ← cancelsAnswered, List.countP_singleton]
  simp only [decide_eq_true_eq]

theorem cancelsAnswered_le_cons (rs : List ClientResponseInternal) (r : ClientResponseInternal) :
    cancelsAnswered i id rs ≤ cancelsAnswered i id (r :: rs) := by
  rw [cancelsAnswered, cancelsAnswered, List.countP_cons]
  exact Nat.le_add_right ..

end Counts

namespace TradeEngine
variable {e e' : TradeEngine} {i k : Nat} {instrumentId : InstrumentId} {price : Price}
  {side : Side} {qty : Quantity}

/-- `move_order` writes to one place. -/
theorem moveOrder_other (hi : instrumentId.toNat = i)
    (h : e.moveOrder i k instrumentId price side qty = .ok e') {i' k' : Nat}
    (hother : ¬ (i' = i ∧ k' = k)) :
    e'.instrumentSideOrder i' k' = e.instrumentSideOrder i' k' := by
  rcases moveOrder_cases hi h with ⟨_, rfl⟩ | ⟨_, rfl⟩ | ⟨_, rfl⟩
  · rfl
  · rfl
  · exact setOrder_ne _ _ hother

/-- An order that is moved stays in its place. -/
theorem moveOrder_moved (hi : instrumentId.toNat = i)
    (h : e.moveOrder i k instrumentId price side qty = .ok e')
    (hmoves : (e.instrumentSideOrder i k).Moves price) :
    e'.instrumentSideOrder i k = e.instrumentSideOrder i k := by
  rcases moveOrder_cases hi h with ⟨_, rfl⟩ | ⟨_, rfl⟩ | ⟨hsends, _⟩
  · rfl
  · rfl
  · rcases hsends.state with hstate | hstate <;> rw [hmoves.1] at hstate <;> cases hstate

end TradeEngine

namespace TradingSystem
variable {s s' : TradingSystem} {i k : Nat}

/-- The places agree with the exchange, and all that was sent is expected. -/
structure Orderly (s : TradingSystem) : Prop where
  consistent : s.Consistent
  requests : ∀ q ∈ s.engine.outgoingOgwRequests, q.Expected
  orders : ∀ o ∈ s.orders, Traded o.side
  slots : ∀ i k, (s.engine.instrumentSideOrder i k).Placed i k

theorem create_orderly (riskCfg : Nat → RiskConfig) : (create riskCfg).Orderly where
  consistent := create_consistent riskCfg
  requests := List.forall_mem_nil _
  orders := List.forall_mem_nil _
  slots _ _ h := by rcases h with h | h <;> cases h

theorem Orderly.moveOrder (h : s.Orderly) {instrumentId : InstrumentId} {price : Price}
    {side : Side} {qty : Quantity} {e : TradeEngine} (hplace : PlacedAt i k instrumentId side)
    (htraded : Traded side)
    (hmove : s.engine.moveOrder i k instrumentId price side qty = .ok e) :
    Orderly { s with engine := e } := by
  have hconsistent := h.consistent.moveOrder hplace hmove
  rcases TradeEngine.moveOrder_cases hplace.1 hmove with ⟨_, rfl⟩ | ⟨_, rfl⟩ | ⟨_, rfl⟩
  · exact h
  · refine ⟨hconsistent, fun q hq => ?_, h.orders, h.slots⟩
    rcases List.mem_append.mp hq with hq | hq
    · exact h.requests q hq
    · exact Or.inl (List.mem_singleton.mp hq ▸ rfl)
  · refine ⟨hconsistent, fun q hq => ?_, h.orders, fun i' k' => ?_⟩
    · rcases List.mem_append.mp hq with hq | hq
      · exact h.requests q hq
      · obtain rfl := List.mem_singleton.mp hq
        exact Or.inr ⟨rfl, htraded⟩
    · change OmOrder.Placed (TradeEngine.instrumentSideOrder (TradeEngine.setOrder _ i k _) i' k')
        i' k'
      by_cases hsame : i' = i ∧ k' = k
      · obtain ⟨rfl, rfl⟩ := hsame
        rw [TradeEngine.setOrder_same]
        exact fun _ => ⟨hplace, htraded⟩
      · rw [TradeEngine.setOrder_ne _ _ hsame]
        exact h.slots i' k'

theorem Orderly.read (h : s.Orderly) {e : TradeEngine}
    (hread : s.engine.readResponse = .ok e) : Orderly { s with engine := e } := by
  have hconsistent := h.consistent.read hread
  rcases TradeEngine.readResponse_cases hread with ⟨_, rfl⟩ | ⟨r, rs, hr, rfl⟩
  · exact h
  refine ⟨hconsistent, h.requests, h.orders, fun i k => ?_⟩
  change OmOrder.Placed (TradeEngine.instrumentSideOrder (TradeEngine.setOrder _ _ _ _) i k) i k
  by_cases hplace : i = r.instrumentId.toNat ∧ k = sideToIndex r.side
  · obtain ⟨rfl, rfl⟩ := hplace
    rw [TradeEngine.setOrder_same]
    have hslot := h.slots r.instrumentId.toNat (sideToIndex r.side)
    by_cases htype : r.type = .cancelRejected
    · rwa [onOrderUpdate_cancelRejected htype]
    · have hagrees := h.consistent r.instrumentId.toNat (sideToIndex r.side)
      rw [hr, answers, List.filter_cons_of_pos (by simp [htype])] at hagrees
      obtain ⟨hinstrument, hside⟩ := onOrderUpdate_place (s.engine.instrumentSideOrder
        r.instrumentId.toNat (sideToIndex r.side)) r
      intro _
      rw [hinstrument, hside]
      exact hslot hagrees.open_of_read
  · rw [TradeEngine.setOrder_ne _ _ hplace]
    exact h.slots i k

/-- An execution is reported, and no request is read. -/
theorem Orderly.fill (h : s.Orderly) (n : Nat) (price : Price) (execQty : Quantity) :
    (s.fill n price execQty).Orderly := by
  have hconsistent := h.consistent.fill n price execQty
  rw [TradingSystem.fill] at hconsistent ⊢
  cases hx : s.orders[n]? with
  | none => exact h
  | some x =>
    simp only [hx] at hconsistent ⊢
    split at hconsistent
    · rename_i hle
      rw [if_pos hle]
      refine ⟨hconsistent, h.requests, fun o ho => ?_, h.slots⟩
      dsimp only at ho
      split at ho
      · exact h.orders o (List.mem_of_mem_eraseIdx ho)
      · rcases List.mem_or_eq_of_mem_set ho with ho | rfl
        · exact h.orders o ho
        · exact h.orders x (List.mem_of_getElem? hx)
    · rename_i hle
      rw [if_neg hle]
      exact h

theorem Orderly.answer (h : s.Orderly) (marketOrderId : OrderId) :
    (s.answer marketOrderId).Orderly := by
  have hconsistent := h.consistent.answer marketOrderId
  rw [TradingSystem.answer] at hconsistent ⊢
  cases hq : s.engine.outgoingOgwRequests with
  | nil => exact h
  | cons q qs =>
    have hrequests := h.requests
    rw [hq] at hrequests
    obtain ⟨hexpected, hrequests⟩ := List.forall_mem_cons.mp hrequests
    simp only [hq] at hconsistent ⊢
    by_cases htype : q.type = .new
    · have htraded : Traded q.side := by
        rcases hexpected with hcancel | ⟨_, htraded⟩
        · rw [htype] at hcancel
          cases hcancel
        · exact htraded
      simp only [if_pos htype] at hconsistent ⊢
      rw [accept] at hconsistent ⊢
      split at hconsistent
      · rename_i hzero
        rw [if_pos hzero]
        exact ⟨hconsistent, hrequests, h.orders, h.slots⟩
      · rename_i hzero
        rw [if_neg hzero]
        refine ⟨hconsistent, hrequests, fun o ho => ?_, h.slots⟩
        rcases List.mem_append.mp ho with ho | ho
        · exact h.orders o ho
        · obtain rfl := List.mem_singleton.mp ho
          exact htraded
    · simp only [if_neg htype] at hconsistent ⊢
      rw [cancel] at hconsistent ⊢
      dsimp only at hconsistent ⊢
      split at hconsistent
      · exact ⟨hconsistent, hrequests, h.orders, h.slots⟩
      · exact ⟨hconsistent, hrequests,
          fun o ho => h.orders o (List.mem_of_mem_eraseP ho), h.slots⟩

theorem Orderly.step (h : s.Orderly) {r : TradingStep} (hs' : s.step r = .ok s') :
    s'.Orderly := by
  cases r with
  | moveOrders instrumentId bidPrice askPrice clip =>
    obtain ⟨e₁, e, hbid, hask, rfl⟩ := step_moveOrders hs'
    have h₁ : Orderly { s with engine := e₁ } := h.moveOrder ⟨rfl, rfl⟩ (Or.inl rfl) hbid
    exact h₁.moveOrder ⟨rfl, rfl⟩ (Or.inr rfl) hask
  | answer marketOrderId =>
    obtain rfl := Except.ok.inj hs'
    exact h.answer marketOrderId
  | fill n price execQty =>
    obtain rfl := Except.ok.inj hs'
    exact h.fill n price execQty
  | read =>
    obtain ⟨e, he, rfl⟩ := step_read hs'
    have hread := h.read he
    exact ⟨hread.consistent, hread.requests, hread.orders, hread.slots⟩

section Counts
variable {id : OrderId}

/-- A response that answers no cancel. -/
theorem unanswered_respond {r : ClientResponseInternal}
    (h : ¬ (r.type = .canceled ∨ r.type = .cancelRejected)) :
    (s.respond r).unanswered i id = s.unanswered i id := by
  rw [unanswered, unanswered, respond, cancelsAnswered_concat, if_neg fun hr => h hr.1,
    Nat.add_zero]

/-- A cancel is as much in doubt when its answer is on the way back. -/
theorem unanswered_respond_cancel {r : ClientResponseInternal} {q : ClientRequestInternal}
    {qs : List ClientRequestInternal} (hq : s.engine.outgoingOgwRequests = q :: qs)
    (htype : q.type = .cancel) (h : r.type = .canceled ∨ r.type = .cancelRejected)
    (hnamed : r.instrumentId = q.instrumentId ∧ r.clientOrderId = q.orderId) :
    (respond { s with engine := { s.engine with outgoingOgwRequests := qs } } r).unanswered i id =
      s.unanswered i id := by
  rw [unanswered, unanswered, respond, cancelsAnswered_concat, hq, cancelsSent_cons]
  dsimp only
  simp only [htype, h, hnamed, true_and]
  omega

/-- The answer to a request reports its cancel, if it is one. -/
theorem unanswered_answer (h : ∀ q ∈ s.engine.outgoingOgwRequests, q.Expected)
    (marketOrderId : OrderId) : (s.answer marketOrderId).unanswered i id = s.unanswered i id := by
  rw [answer]
  cases hq : s.engine.outgoingOgwRequests with
  | nil => rfl
  | cons q qs =>
    rw [hq] at h
    dsimp only
    rcases (List.forall_mem_cons.mp h).1 with htype | ⟨htype, _⟩
    · rw [if_neg (by rw [htype]; decide), cancel]
      dsimp only
      split
      · exact unanswered_respond_cancel hq htype (Or.inr rfl) ⟨rfl, rfl⟩
      · rename_i x hx
        have hnames : x.instrumentId = q.instrumentId ∧ x.clientOrderId = q.orderId := by
          simpa [names] using List.find?_some hx
        exact unanswered_respond_cancel hq htype (Or.inl rfl) hnames
    · have hread : unanswered { s with engine := { s.engine with outgoingOgwRequests := qs } } i
          id = s.unanswered i id := by
        have hnew : q.type ≠ .cancel := by rw [htype]; decide
        rw [unanswered, unanswered, hq, cancelsSent_cons, if_neg fun h => hnew h.1]
        rfl
      rw [if_pos htype, accept, ← hread]
      split
      · exact unanswered_respond (by rintro (h | h) <;> cases h)
      · exact unanswered_respond (by rintro (h | h) <;> cases h)

theorem unanswered_fill (n : Nat) (price : Price) (execQty : Quantity) :
    (s.fill n price execQty).unanswered i id = s.unanswered i id := by
  rw [fill]
  cases hx : s.orders[n]? with
  | none => rfl
  | some x =>
    dsimp only
    split
    · exact unanswered_respond (by rintro (h | h) <;> cases h)
    · rfl

theorem unanswered_read {e : TradeEngine} (h : s.engine.readResponse = .ok e) :
    unanswered { s with engine := e } i id ≤ s.unanswered i id := by
  rcases TradeEngine.readResponse_cases h with ⟨_, rfl⟩ | ⟨r, rs, hr, rfl⟩
  · exact Nat.le_refl _
  · have hle : cancelsAnswered i id rs ≤ cancelsAnswered i id (r :: rs) :=
      cancelsAnswered_le_cons rs r
    rw [← hr] at hle
    exact Nat.add_le_add_left hle _

/-- `move_order` adds a cancel in doubt exactly when it moves the order. -/
theorem unanswered_moveOrder (h : s.Orderly) {instrumentId : InstrumentId} {price : Price}
    {side : Side} {qty : Quantity} {e : TradeEngine} (hi : instrumentId.toNat = i)
    (hmove : s.engine.moveOrder i k instrumentId price side qty = .ok e) (j : Nat) (id : OrderId) :
    unanswered { s with engine := e } j id = s.unanswered j id +
      if (s.engine.instrumentSideOrder i k).Moves price ∧ i = j ∧
        (s.engine.instrumentSideOrder i k).orderId = id then 1 else 0 := by
  rcases TradeEngine.moveOrder_cases hi hmove with ⟨hstays, rfl⟩ | ⟨hmoves, rfl⟩ | ⟨hsends, rfl⟩
  · rw [if_neg fun h => hstays h.1]
    rfl
  · have hplace := (h.slots i k (Or.inr hmoves.1)).1.1
    change cancelsSent j id (s.engine.outgoingOgwRequests ++ [_]) + cancelsAnswered j id
      s.engine.incomingOgwResponses = _
    rw [cancelsSent_concat, unanswered]
    simp only [hplace, hmoves, true_and]
    omega
  · have hstays : ¬ (s.engine.instrumentSideOrder i k).Moves price := by
      intro hmoves
      rcases hsends.state with hstate | hstate <;> rw [hmoves.1] at hstate <;> cases hstate
    rw [if_neg fun h => hstays h.1]
    change cancelsSent j id (s.engine.outgoingOgwRequests ++ [_]) + cancelsAnswered j id
      s.engine.incomingOgwResponses = _
    rw [cancelsSent_concat, unanswered, if_neg fun h => nomatch h.1]
    rfl

end Counts

section MoveOrders
variable {instrumentId : InstrumentId} {bidPrice askPrice : Price} {clip : Quantity}

/-- `move_orders` adds a cancel in doubt for either order that it moves. -/
theorem unanswered_moveOrders (h : s.Orderly)
    (hs' : s.step (.moveOrders instrumentId bidPrice askPrice clip) = .ok s') (j : Nat)
    (id : OrderId) :
    let bid := s.engine.instrumentSideOrder instrumentId.toNat (sideToIndex .buy)
    let ask := s.engine.instrumentSideOrder instrumentId.toNat (sideToIndex .sell)
    s'.unanswered j id = s.unanswered j id +
      (if bid.Moves bidPrice ∧ instrumentId.toNat = j ∧ bid.orderId = id then 1 else 0) +
      if ask.Moves askPrice ∧ instrumentId.toNat = j ∧ ask.orderId = id then 1 else 0 := by
  obtain ⟨e₁, e, hbid, hask, rfl⟩ := step_moveOrders hs'
  have h₁ : Orderly { s with engine := e₁ } := h.moveOrder ⟨rfl, rfl⟩ (Or.inl rfl) hbid
  have hcount := unanswered_moveOrder h₁ rfl hask j id
  rw [unanswered_moveOrder h rfl hbid j id] at hcount
  dsimp only at hcount
  rw [TradeEngine.moveOrder_other rfl hbid (by simp [sideToIndex])] at hcount
  exact hcount

/-- The orders that `move_orders` moves stay in their places. -/
theorem moveOrders_moved
    (hs' : s.step (.moveOrders instrumentId bidPrice askPrice clip) = .ok s') :
    let bid := s.engine.instrumentSideOrder instrumentId.toNat (sideToIndex .buy)
    let ask := s.engine.instrumentSideOrder instrumentId.toNat (sideToIndex .sell)
    (bid.Moves bidPrice →
      s'.engine.instrumentSideOrder instrumentId.toNat (sideToIndex .buy) = bid) ∧
    (ask.Moves askPrice →
      s'.engine.instrumentSideOrder instrumentId.toNat (sideToIndex .sell) = ask) := by
  obtain ⟨e₁, e, hbid, hask, rfl⟩ := step_moveOrders hs'
  have hkept : e₁.instrumentSideOrder instrumentId.toNat (sideToIndex .sell) =
      s.engine.instrumentSideOrder instrumentId.toNat (sideToIndex .sell) :=
    TradeEngine.moveOrder_other rfl hbid (by simp [sideToIndex])
  refine ⟨fun hmoves => ?_, fun hmoves => ?_⟩
  · exact (TradeEngine.moveOrder_other rfl hask (by simp [sideToIndex])).trans
      (TradeEngine.moveOrder_moved rfl hbid hmoves)
  · rw [← hkept] at hmoves ⊢
    exact TradeEngine.moveOrder_moved rfl hask hmoves

end MoveOrders

/-- At most one cancel of any order is in doubt. -/
def Single (s : TradingSystem) : Prop :=
  ∀ i id, s.unanswered i id ≤ 1

theorem KeepsOne.single (h : s.Orderly) (hsingle : s.Single) {r : TradingStep}
    (hkeeps : s.KeepsOne r) (hs' : s.step r = .ok s') : s'.Single := by
  intro i id
  have hle := hsingle i id
  cases r with
  | moveOrders instrumentId bidPrice askPrice clip =>
    obtain ⟨hbid, hask, hboth⟩ := hkeeps
    have hcount := unanswered_moveOrders h hs' i id
    dsimp only at hcount
    rw [hcount]
    by_cases hi : instrumentId.toNat = i
    · subst hi
      grind
    · simp only [hi, false_and, and_false, if_false]
      exact hle
  | answer marketOrderId =>
    obtain rfl := Except.ok.inj hs'
    rw [unanswered_answer h.requests marketOrderId]
    exact hle
  | fill n price execQty =>
    obtain rfl := Except.ok.inj hs'
    rw [unanswered_fill n price execQty]
    exact hle
  | read =>
    obtain ⟨e, he, rfl⟩ := step_read hs'
    exact Nat.le_trans (unanswered_read he) hle

/-- The order of a place is the only one of the place at the exchange. -/
theorem Orderly.oneInDoubt (h : s.Orderly)
    (hcancels : ∀ i k, s.unanswered i (s.engine.instrumentSideOrder i k).orderId ≤ 1) :
    s.OneInDoubt where
  atMostOne i k := (h.consistent i k).length_add_le
  pending i k q hq := by
    have hagrees := h.consistent i k
    obtain ⟨hid, hprice⟩ := hagrees.named.1 q hq
    obtain ⟨hplace, htraded⟩ := h.slots i k
      (hagrees.open_of_any (Or.inl (List.ne_nil_of_mem hq)))
    obtain ⟨hmem, hnew⟩ := List.mem_filter.mp hq
    obtain ⟨htype, hindex⟩ := of_decide_eq_true hnew
    refine ⟨hid, hprice, Traded.eq_of_index ?_ htraded (hindex.2.trans hplace.2.symm)⟩
    rcases h.requests q hmem with hcancel | ⟨_, htraded⟩
    · rw [htype] at hcancel
      cases hcancel
    · exact htraded
  resting i k o ho := by
    have hagrees := h.consistent i k
    obtain ⟨hid, hprice⟩ := hagrees.named.2 o ho
    obtain ⟨hplace, htraded⟩ := h.slots i k
      (hagrees.open_of_any (Or.inr (List.ne_nil_of_mem ho)))
    obtain ⟨hmem, hindex⟩ := List.mem_filter.mp ho
    exact ⟨hid, hprice, (h.orders o hmem).eq_of_index htraded
      ((of_decide_eq_true hindex).2.trans hplace.2.symm)⟩
  cancels := hcancels

/-- An order moved while its cancel is in doubt has two in doubt. -/
theorem OneInDoubt.keepsOne (h : s.Orderly) {r : TradingStep} (hs' : s.step r = .ok s')
    (hone : s'.OneInDoubt) : s.KeepsOne r := by
  cases r with
  | moveOrders instrumentId bidPrice askPrice clip =>
    have hmoved := moveOrders_moved hs'
    have hcount := unanswered_moveOrders h hs' instrumentId.toNat
    have hcancels := hone.cancels instrumentId.toNat
    dsimp only at hmoved hcount
    refine ⟨fun hmoves => ?_, fun hmoves => ?_, ?_⟩
    · have hle := hcancels (sideToIndex .buy)
      rw [hmoved.1 hmoves, hcount, if_pos ⟨hmoves, rfl, rfl⟩] at hle
      omega
    · have hle := hcancels (sideToIndex .sell)
      rw [hmoved.2 hmoves, hcount, Nat.add_right_comm, if_pos ⟨hmoves, rfl, rfl⟩] at hle
      omega
    · rintro ⟨hbid, hask, hid⟩
      have hle := hcancels (sideToIndex .sell)
      rw [hmoved.2 hask, hcount, if_pos ⟨hbid, rfl, hid⟩, if_pos ⟨hask, rfl, rfl⟩] at hle
      omega
  | answer | fill | read => trivial

variable {riskCfg : Nat → RiskConfig} {rs : List TradingStep}

theorem orderly_reached {admits : TradingSystem → TradingStep → Prop}
    (h : Reached step admits (create riskCfg) rs s) : s.Orderly :=
  h.invariant (create_orderly riskCfg) fun _ _ _ hs _ hs' => hs.step hs'

/-- As long as no order is moved while a cancel of it is in doubt, one order of a place is at
the exchange and one cancel of it in doubt; and one step further that is so exactly if no
order is moved in that step while a cancel of it is in doubt. -/
theorem keepsOne_inDoubt (h : Reached step KeepsOne (create riskCfg) rs s) :
    s.OneInDoubt ∧ ∀ r s', s.step r = .ok s' → (s'.OneInDoubt ↔ s.KeepsOne r) := by
  have horderly := orderly_reached h
  have hsingle : s.Single := by
    refine (Reached.invariant (P := fun s => s.Orderly ∧ s.Single)
      ⟨create_orderly riskCfg, fun _ _ => Nat.zero_le 1⟩ ?_ h).2
    exact fun s r s' hs hkeeps hs' => ⟨hs.1.step hs', hkeeps.single hs.1 hs.2 hs'⟩
  refine ⟨horderly.oneInDoubt fun i k => hsingle i _, fun r s' hs' =>
    ⟨fun hone => hone.keepsOne horderly hs', fun hkeeps => ?_⟩⟩
  exact (horderly.step hs').oneInDoubt fun i k => hkeeps.single horderly hsingle hs' i _

def fiveLots (_ : Nat) : RiskConfig := ⟨5, 5, .finite 0⟩

/-- The hypothesis is met by a run in which a bid is moved, filled while its cancel is in
doubt and bid again, with an ask that rests. -/
theorem keepsOne_inDoubt_sample : ∃ s,
    Reached step KeepsOne (create fiveLots)
      [.moveOrders 0 10 15 2, .answer 1, .answer 2, .read, .read, .fill 0 10 1, .read,
        .moveOrders 0 11 15 2, .fill 0 10 1, .read, .moveOrders 0 11 15 2, .answer 3,
        .answer 3, .read, .read] s ∧
    s.engine.nextOrderId = 4 ∧ s.OneInDoubt := by
  obtain ⟨s, hs, hcheck⟩ := @reached_of_any _ _ _ step KeepsOne (create fiveLots)
    [.moveOrders 0 10 15 2, .answer 1, .answer 2, .read, .read, .fill 0 10 1, .read,
      .moveOrders 0 11 15 2, .fill 0 10 1, .read, .moveOrders 0 11 15 2, .answer 3,
      .answer 3, .read, .read] _
    (fun s => s.engine.nextOrderId = 4) (by decide +kernel)
  exact ⟨s, hs, of_decide_eq_true hcheck, (keepsOne_inDoubt hs).1⟩

/-- A bid is moved again while its cancel is in doubt, and a second cancel is sent. -/
theorem movedTwice_twoInDoubt : ∃ s,
    Reached step (fun _ _ => True) (create fiveLots)
      [.moveOrders 0 10 invalidPrice 1, .answer 1, .read, .moveOrders 0 11 invalidPrice 1,
        .moveOrders 0 12 invalidPrice 1] s ∧ ¬ s.OneInDoubt := by
  obtain ⟨s, hs, hcheck⟩ := @reached_of_any _ _ _ step (fun _ _ => True) (create fiveLots)
    [.moveOrders 0 10 invalidPrice 1, .answer 1, .read, .moveOrders 0 11 invalidPrice 1,
      .moveOrders 0 12 invalidPrice 1] _
    (fun s => s.unanswered 0 (s.engine.instrumentSideOrder 0 0).orderId = 2) (by decide +kernel)
  refine ⟨s, hs, fun hone => ?_⟩
  have hle := hone.cancels 0 0
  rw [of_decide_eq_true hcheck] at hle
  omega

end TradingSystem

end StockExchange
