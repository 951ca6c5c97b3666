import StockExchange.OrderManager
import StockExchange.Library.Transitions

/-!
# A trade engine and the exchange it trades at

The exchange as one of its clients meets it: the requests are answered in the order they
were sent, an order that rests may be executed at any time, and the responses reach the
client in the order they were sent.
-/

namespace StockExchange

/-- An order of the client that rests at the exchange. -/
structure VenueOrder where
  clientId : ClientId
  instrumentId : InstrumentId
  clientOrderId : OrderId
  marketOrderId : OrderId
  side : Side
  price : Price
  leavesQty : Quantity

/-- The engine, its orders at the exchange, and the responses it has processed. -/
structure TradingSystem where
  engine : TradeEngine
  orders : List VenueOrder
  received : List ClientResponseInternal

/-- The exchange answers a request or executes its client's `n`-th order; the engine moves
its orders or reads a response. -/
inductive TradingStep where
  | moveOrders (instrumentId : InstrumentId) (bidPrice askPrice : Price) (clip : Quantity)
  | answer (marketOrderId : OrderId)
  | fill (n : Nat) (price : Price) (execQty : Quantity)
  | read

namespace TradingSystem

def create (riskCfg : Nat → RiskConfig) : TradingSystem := ⟨.create riskCfg, [], []⟩

def respond (s : TradingSystem) (r : ClientResponseInternal) : TradingSystem :=
  { s with
    engine := { s.engine with incomingOgwResponses := s.engine.incomingOgwResponses ++ [r] } }

/-- The answer of `order_book::add` before any execution; nothing rests of an empty order. -/
def accept (s : TradingSystem) (marketOrderId : OrderId) (q : ClientRequestInternal) :
    TradingSystem :=
  let s := s.respond ⟨.accepted, q.clientId, q.instrumentId, q.orderId, marketOrderId, q.side,
    q.price, 0, q.qty⟩
  if q.qty = 0 then s else
    { s with orders := s.orders ++ [⟨q.clientId, q.instrumentId, q.orderId, marketOrderId,
      q.side, q.price, q.qty⟩] }

def names (q : ClientRequestInternal) (o : VenueOrder) : Bool :=
  o.instrumentId = q.instrumentId ∧ o.clientOrderId = q.orderId

/-- The answer of `order_book::cancel`. -/
def cancel (s : TradingSystem) (q : ClientRequestInternal) : TradingSystem :=
  match s.orders.find? (names q) with
  | none => s.respond ⟨.cancelRejected, q.clientId, q.instrumentId, q.orderId, invalidOrderId,
    .invalid, invalidPrice, invalidQuantity, invalidQuantity⟩
  | some o =>
    let s := s.respond ⟨.canceled, o.clientId, o.instrumentId, o.clientOrderId,
      o.marketOrderId, o.side, o.price, invalidQuantity, o.leavesQty⟩
    { s with orders := s.orders.eraseP (names q) }

/-- The engine sends `NEW` and `CANCEL` only. -/
def answer (s : TradingSystem) (marketOrderId : OrderId) : TradingSystem :=
  match s.engine.outgoingOgwRequests with
  | [] => s
  | q :: qs =>
    let s := { s with engine := { s.engine with outgoingOgwRequests := qs } }
    if q.type = .new then s.accept marketOrderId q else s.cancel q

/-- One side of `order_book::match`. -/
def fill (s : TradingSystem) (n : Nat) (price : Price) (execQty : Quantity) : TradingSystem :=
  match s.orders[n]? with
  | none => s
  | some o =>
    if execQty ≤ o.leavesQty then
      let leavesQty := o.leavesQty - execQty
      let s := s.respond ⟨.filled, o.clientId, o.instrumentId, o.clientOrderId,
        o.marketOrderId, o.side, price, execQty, leavesQty⟩
      { s with orders := if leavesQty = 0 then s.orders.eraseIdx n
        else s.orders.set n { o with leavesQty := leavesQty } }
    else s

def step (s : TradingSystem) : TradingStep → Except Fault TradingSystem
  | .moveOrders instrumentId bidPrice askPrice clip => do
    let engine ← s.engine.moveOrders instrumentId bidPrice askPrice clip
    .ok { s with engine := engine }
  | .answer marketOrderId => .ok (s.answer marketOrderId)
  | .fill n price execQty => .ok (s.fill n price execQty)
  | .read => do
    let engine ← s.engine.readResponse
    .ok { s with
      engine := engine
      received := s.received ++ s.engine.incomingOgwResponses.take 1 }

end TradingSystem

/-- The place in `instrument_side_order_` for the orders of an instrument and side. -/
abbrev PlacedAt (i k : Nat) (instrumentId : InstrumentId) (side : Side) : Prop :=
  instrumentId.toNat = i ∧ sideToIndex side = k

/-- The orders asked for and not answered. -/
def asked (i k : Nat) : List ClientRequestInternal → List ClientRequestInternal :=
  List.filter fun q => q.type = .new ∧ PlacedAt i k q.instrumentId q.side

/-- The responses on the way that the order manager heeds. -/
def answers (i k : Nat) : List ClientResponseInternal → List ClientResponseInternal :=
  List.filter fun r => r.type ≠ .cancelRejected ∧ PlacedAt i k r.instrumentId r.side

/-- The orders that rest. -/
def working (i k : Nat) : List VenueOrder → List VenueOrder :=
  List.filter fun o => PlacedAt i k o.instrumentId o.side

/-- An order with `qty` left is what rests of it once the responses on the way are read. -/
inductive Settles (id : OrderId) (price : Price) :
    Quantity → List ClientResponseInternal → List VenueOrder → Prop
  | empty : Settles id price 0 [] []
  | resting {qty} {o : VenueOrder} (named : o.clientOrderId = id ∧ o.price = price)
      (left : o.leavesQty = qty) : Settles id price qty [] [o]
  | reduced {qty r rs os} (type : r.type = .filled) (within : r.execQty ≤ qty)
      (leaves : r.leavesQty = qty - r.execQty) (some_left : r.leavesQty ≠ 0)
      (rest : Settles id price r.leavesQty rs os) : Settles id price qty (r :: rs) os
  | filled {qty r} (type : r.type = .filled) (within : r.execQty ≤ qty)
      (leaves : r.leavesQty = qty - r.execQty) (none_left : r.leavesQty = 0) :
      Settles id price qty [r] []
  | canceled {qty r} (type : r.type = .canceled) : Settles id price qty [r] []

/-- What the exchange has of the order that the manager keeps in one place. -/
inductive Agrees (o : OmOrder) :
    List ClientRequestInternal → List ClientResponseInternal → List VenueOrder → Prop
  | idle (state : o.orderState = .invalid ∨ o.orderState = .dead) : Agrees o [] [] []
  | requested {q} (state : o.orderState = .pendingNew) (qty : q.qty = o.qty)
      (named : q.orderId = o.orderId ∧ q.price = o.price) : Agrees o [q] [] []
  | accepted {r rs os} (state : o.orderState = .pendingNew) (type : r.type = .accepted)
      (left : Settles o.orderId o.price o.qty rs os) : Agrees o [] (r :: rs) os
  | live {rs os} (state : o.orderState = .live)
      (left : Settles o.orderId o.price o.qty rs os) : Agrees o [] rs os

/-- Every place agrees with the exchange. -/
def TradingSystem.Consistent (s : TradingSystem) : Prop :=
  ∀ i k, Agrees (s.engine.instrumentSideOrder i k) (asked i k s.engine.outgoingOgwRequests)
    (answers i k s.engine.incomingOgwResponses) (working i k s.orders)

section Settles
variable {id : OrderId} {price : Price} {qty : Quantity} {rs : List ClientResponseInternal}
  {r : ClientResponseInternal} {x : VenueOrder}

theorem Settles.fill (h : Settles id price qty rs [x]) (type : r.type = .filled)
    (within : r.execQty ≤ x.leavesQty) (leaves : r.leavesQty = x.leavesQty - r.execQty) :
    Settles id price qty (rs ++ [r])
      (if r.leavesQty = 0 then [] else [{ x with leavesQty := r.leavesQty }]) := by
  generalize hxs : [x] = xs at h
  induction h with
  | resting named left =>
    cases hxs
    subst left
    by_cases hzero : r.leavesQty = 0
    · rw [if_pos hzero]
      exact .filled type within leaves hzero
    · rw [if_neg hzero]
      exact .reduced type within leaves hzero (.resting named rfl)
  | reduced type' within' leaves' some_left _ ih =>
    exact .reduced type' within' leaves' some_left (ih hxs)
  | empty | filled | canceled => cases hxs

theorem Settles.cancel (h : Settles id price qty rs [x]) (type : r.type = .canceled) :
    Settles id price qty (rs ++ [r]) [] := by
  generalize hxs : [x] = xs at h
  induction h with
  | resting => exact .canceled type
  | reduced type' within' leaves' some_left _ ih =>
    exact .reduced type' within' leaves' some_left (ih hxs)
  | empty | filled | canceled => cases hxs

theorem Settles.length_le {xs : List VenueOrder} (h : Settles id price qty rs xs) :
    xs.length ≤ 1 := by
  induction h with
  | resting => exact Nat.le_refl 1
  | reduced _ _ _ _ _ ih => exact ih
  | empty | filled | canceled => exact Nat.zero_le 1

end Settles

section Agrees
variable {o : OmOrder} {qs : List ClientRequestInternal} {rs : List ClientResponseInternal}
  {r : ClientResponseInternal} {x : VenueOrder} {xs : List VenueOrder}

/-- At most one order of a place rests. -/
theorem Agrees.length_le (h : Agrees o qs rs xs) : xs.length ≤ 1 := by
  cases h with
  | idle | requested => exact Nat.zero_le 1
  | accepted _ _ left | live _ left => exact left.length_le

/-- A response about the order that rests. -/
theorem Agrees.respond (h : Agrees o qs rs [x])
    (settles : ∀ {id price qty rs}, Settles id price qty rs [x] →
      Settles id price qty (rs ++ [r]) xs) : Agrees o qs (rs ++ [r]) xs := by
  generalize hxs : [x] = ys at h
  cases h with
  | idle | requested => cases hxs
  | accepted state type left =>
    subst hxs
    exact .accepted state type (settles left)
  | live state left =>
    subst hxs
    exact .live state (settles left)

theorem onOrderUpdate_accepted (h : r.type = .accepted) :
    o.onOrderUpdate r = { o with orderState := .live } := if_pos h

theorem onOrderUpdate_canceled (h : r.type = .canceled) :
    o.onOrderUpdate r = { o with orderState := .dead } := by
  rw [OmOrder.onOrderUpdate, if_neg (by rw [h]; decide), if_pos h]

theorem onOrderUpdate_filled (h : r.type = .filled) :
    o.onOrderUpdate r = { o with
      qty := r.leavesQty
      orderState := if r.leavesQty = 0 then .dead else o.orderState } := by
  rw [OmOrder.onOrderUpdate, if_neg (by rw [h]; decide), if_neg (by rw [h]; decide),
    if_neg (by rw [h]; decide), if_pos h]

theorem onOrderUpdate_cancelRejected (h : r.type = .cancelRejected) : o.onOrderUpdate r = o := by
  rw [OmOrder.onOrderUpdate, if_neg (by rw [h]; decide), if_neg (by rw [h]; decide),
    if_neg (by rw [h]; decide), if_neg (by rw [h]; decide)]

/-- The order manager follows the exchange. -/
theorem Agrees.read (h : Agrees o qs (r :: rs) xs) : Agrees (o.onOrderUpdate r) qs rs xs := by
  generalize hrs : r :: rs = rs' at h
  cases h with
  | idle | requested => cases hrs
  | accepted state type left =>
    cases hrs
    rw [onOrderUpdate_accepted type]
    exact .live rfl left
  | live state left =>
    subst hrs
    generalize o.qty = qty at left
    cases left with
    | reduced type within leaves some_left rest =>
      rw [onOrderUpdate_filled type, if_neg some_left]
      exact .live state rest
    | filled type within leaves none_left =>
      rw [onOrderUpdate_filled type, if_pos none_left]
      exact .idle (Or.inr rfl)
    | canceled type =>
      rw [onOrderUpdate_canceled type]
      exact .idle (Or.inr rfl)

/-- A request on the way is the only trace of its order. -/
theorem Agrees.alone {q : ClientRequestInternal} (h : Agrees o (q :: qs) rs xs) :
    (qs = [] ∧ rs = [] ∧ xs = []) ∧ o.orderState = .pendingNew ∧ q.qty = o.qty ∧
      q.orderId = o.orderId ∧ q.price = o.price := by
  cases h with
  | requested state qty named => exact ⟨⟨rfl, rfl, rfl⟩, state, qty, named⟩

/-- Nothing is on the way for an order that is neither live nor pending. -/
theorem Agrees.nothing (h : Agrees o qs rs xs)
    (state : o.orderState = .invalid ∨ o.orderState = .dead) : qs = [] ∧ rs = [] ∧ xs = [] := by
  cases h with
  | idle => exact ⟨rfl, rfl, rfl⟩
  | requested state' | accepted state' | live state' => rcases state with h | h <;> grind

end Agrees

/-- `move_order` cancels the order. -/
def OmOrder.Moves (o : OmOrder) (price : Price) : Prop :=
  o.orderState = .live ∧ o.price ≠ price

namespace TradeEngine
variable {e e' : TradeEngine} {i k : Nat}

theorem setOrder_same (e : TradeEngine) (i k : Nat) (o : OmOrder) :
    (e.setOrder i k o).instrumentSideOrder i k = o := by
  simp [setOrder]

theorem setOrder_ne {i' k' : Nat} (e : TradeEngine) (o : OmOrder) (h : ¬ (i' = i ∧ k' = k)) :
    (e.setOrder i k o).instrumentSideOrder i' k' = e.instrumentSideOrder i' k' := by
  by_cases hi : i' = i
  · subst hi
    have hk : k' ≠ k := fun hk => h ⟨rfl, hk⟩
    simp [setOrder, hk]
  · simp [setOrder, hi]

/-- `move_order` sends a new order. -/
structure Sends (e : TradeEngine) (i k : Nat) (price : Price) (side : Side) (qty : Quantity) :
    Prop where
  state : (e.instrumentSideOrder i k).orderState = .invalid ∨
    (e.instrumentSideOrder i k).orderState = .dead
  price : price ≠ invalidPrice
  allowed : (e.risk i).checkPretradeRisk side qty = .allowed

variable {instrumentId : InstrumentId} {price : Price} {side : Side} {qty : Quantity}

theorem instrumentAt_eq_ok (h : instrumentAt instrumentId = .ok i) : instrumentId.toNat = i := by
  rw [instrumentAt] at h
  split at h
  · exact Except.ok.inj h
  · cases h

theorem placeOrder_cases (hi : instrumentId.toNat = i)
    (state : (e.instrumentSideOrder i k).orderState = .invalid ∨
      (e.instrumentSideOrder i k).orderState = .dead)
    (h : e.placeOrder i k instrumentId price side qty = .ok e') : e' = e ∨
      e.Sends i k price side qty ∧ e' = e.newOrder i k instrumentId price side qty := by
  rw [placeOrder] at h
  split at h
  · rename_i hprice
    obtain ⟨j, hj, h⟩ := bind_eq_ok.mp h
    obtain rfl := (instrumentAt_eq_ok hj).symm.trans hi
    obtain rfl := Except.ok.inj h
    split
    · exact Or.inr ⟨⟨state, hprice, ‹_›⟩, rfl⟩
    · exact Or.inl rfl
  · exact Or.inl (Except.ok.inj h).symm

/-- `move_order` does nothing, cancels the order or sends a new one. -/
theorem moveOrder_cases (hi : instrumentId.toNat = i)
    (h : e.moveOrder i k instrumentId price side qty = .ok e') :
    ¬ (e.instrumentSideOrder i k).Moves price ∧ e' = e ∨
      (e.instrumentSideOrder i k).Moves price ∧ e' = e.cancelOrder i k ∨
      e.Sends i k price side qty ∧ e' = e.newOrder i k instrumentId price side qty := by
  have hstill (state) (hstate : (e.instrumentSideOrder i k).orderState = state)
      (hne : state ≠ .live) : ¬ (e.instrumentSideOrder i k).Moves price :=
    fun hmoves => hne (hstate.symm.trans hmoves.1)
  cases hstate : (e.instrumentSideOrder i k).orderState with
  | live =>
    simp only [moveOrder, hstate] at h
    obtain rfl := Except.ok.inj h
    split
    · exact Or.inr (Or.inl ⟨⟨hstate, ‹_›⟩, rfl⟩)
    · exact Or.inl ⟨fun hmoves => ‹¬ _› hmoves.2, rfl⟩
  | invalid =>
    simp only [moveOrder, hstate] at h
    exact (placeOrder_cases hi (Or.inl hstate) h).imp (.intro (hstill _ hstate (by decide))) Or.inr
  | dead =>
    simp only [moveOrder, hstate] at h
    exact (placeOrder_cases hi (Or.inr hstate) h).imp (.intro (hstill _ hstate (by decide))) Or.inr
  | pendingModified | pendingNew | pendingCancel =>
    simp only [moveOrder, hstate] at h
    exact Or.inl ⟨hstill _ hstate (by decide), (Except.ok.inj h).symm⟩

theorem moveOrders_eq_ok {bidPrice askPrice : Price} {clip : Quantity}
    (h : e.moveOrders instrumentId bidPrice askPrice clip = .ok e') :
    ∃ e₁, e.moveOrder instrumentId.toNat (sideToIndex .buy) instrumentId bidPrice .buy clip =
        .ok e₁ ∧
      e₁.moveOrder instrumentId.toNat (sideToIndex .sell) instrumentId askPrice .sell clip =
        .ok e' := by
  obtain ⟨i, hi, h⟩ := bind_eq_ok.mp h
  obtain rfl := instrumentAt_eq_ok hi
  exact bind_eq_ok.mp h

theorem readResponse_cases (h : e.readResponse = .ok e') :
    e.incomingOgwResponses = [] ∧ e' = e ∨ ∃ r rs, e.incomingOgwResponses = r :: rs ∧
      e' = setOrder { e with incomingOgwResponses := rs } r.instrumentId.toNat
        (sideToIndex r.side) ((e.instrumentSideOrder r.instrumentId.toNat
          (sideToIndex r.side)).onOrderUpdate r) := by
  rw [readResponse] at h
  cases hr : e.incomingOgwResponses with
  | nil =>
    rw [hr] at h
    exact Or.inl ⟨rfl, (Except.ok.inj h).symm⟩
  | cons r rs =>
    rw [hr] at h
    obtain ⟨i, hi, h⟩ := bind_eq_ok.mp h
    obtain rfl := instrumentAt_eq_ok hi
    refine Or.inr ⟨r, rs, rfl, ?_⟩
    rw [← Except.ok.inj h]
    simp only [addFill, ite_self]

end TradeEngine

section Lists
variable {i k : Nat} {q : ClientRequestInternal} {qs : List ClientRequestInternal}
  {r : ClientResponseInternal} {rs : List ClientResponseInternal}

theorem asked_concat (h : q.type = .new ∧ PlacedAt i k q.instrumentId q.side) :
    asked i k (qs ++ [q]) = asked i k qs ++ [q] := by
  simp [asked, h]

theorem asked_concat_not (h : ¬ (q.type = .new ∧ PlacedAt i k q.instrumentId q.side)) :
    asked i k (qs ++ [q]) = asked i k qs := by
  simpa [asked] using h

theorem answers_concat (h : r.type ≠ .cancelRejected ∧ PlacedAt i k r.instrumentId r.side) :
    answers i k (rs ++ [r]) = answers i k rs ++ [r] := by
  simp [answers, h]

theorem answers_concat_not
    (h : ¬ (r.type ≠ .cancelRejected ∧ PlacedAt i k r.instrumentId r.side)) :
    answers i k (rs ++ [r]) = answers i k rs := by
  simpa [answers] using h

theorem working_concat {x : VenueOrder} {xs : List VenueOrder}
    (h : PlacedAt i k x.instrumentId x.side) : working i k (xs ++ [x]) = working i k xs ++ [x] := by
  simp [working, h]

theorem working_concat_not {x : VenueOrder} {xs : List VenueOrder}
    (h : ¬ PlacedAt i k x.instrumentId x.side) : working i k (xs ++ [x]) = working i k xs := by
  simpa [working] using h

end Lists

namespace TradingSystem
variable {s s' : TradingSystem} {i k : Nat}

theorem create_consistent (riskCfg : Nat → RiskConfig) : (create riskCfg).Consistent :=
  fun _ _ => .idle (Or.inl rfl)

/-- A new order is asked for where there was none. -/
theorem Consistent.newOrder (h : s.Consistent) {instrumentId : InstrumentId} {price : Price}
    {side : Side} {qty : Quantity} (hplace : PlacedAt i k instrumentId side)
    (hsends : s.engine.Sends i k price side qty) : Consistent
      { s with engine := s.engine.newOrder i k instrumentId price side qty } := by
  intro i' k'
  change Agrees ((s.engine.setOrder i k _).instrumentSideOrder i' k')
    (asked i' k' (s.engine.outgoingOgwRequests ++ [_]))
    (answers i' k' s.engine.incomingOgwResponses) (working i' k' s.orders)
  by_cases hsame : i' = i ∧ k' = k
  · obtain ⟨rfl, rfl⟩ := hsame
    obtain ⟨hasked, hanswers, hworking⟩ := (h i' k').nothing hsends.state
    rw [asked_concat ⟨rfl, hplace⟩, hasked, hanswers, hworking, TradeEngine.setOrder_same]
    exact .requested rfl rfl ⟨rfl, rfl⟩
  · rw [asked_concat_not (fun hq => hsame ⟨hq.2.1.symm.trans hplace.1,
      hq.2.2.symm.trans hplace.2⟩), TradeEngine.setOrder_ne _ _ hsame]
    exact h i' k'

/-- A cancel asks for no order, and nothing is written of it. -/
theorem Consistent.cancelOrder (h : s.Consistent) : Consistent
    { s with engine := s.engine.cancelOrder i k } := by
  intro i' k'
  change Agrees (s.engine.instrumentSideOrder i' k')
    (asked i' k' (s.engine.outgoingOgwRequests ++ [_]))
    (answers i' k' s.engine.incomingOgwResponses) (working i' k' s.orders)
  rw [asked_concat_not fun hq => absurd hq.1 (show ¬ ClientRequestType.cancel = .new by decide)]
  exact h i' k'

/-- A response that the order manager does not heed. -/
theorem Consistent.reject (h : s.Consistent) {r : ClientResponseInternal}
    (htype : r.type = .cancelRejected) : (s.respond r).Consistent := by
  intro i k
  change Agrees _ _ (answers i k (s.engine.incomingOgwResponses ++ [r])) _
  rw [answers_concat_not fun hr => hr.1 htype]
  exact h i k

/-- A response about an order that rests, and what it leaves of the order. -/
theorem Consistent.replace (h : s.Consistent) {r : ClientResponseInternal} {x : VenueOrder}
    {l₁ l₂ : List VenueOrder} (xs : List VenueOrder) (horders : s.orders = l₁ ++ x :: l₂)
    (htype : r.type ≠ .cancelRejected) (hplace : r.instrumentId = x.instrumentId ∧ r.side = x.side)
    (hxs : ∀ y ∈ xs, y.instrumentId = x.instrumentId ∧ y.side = x.side)
    (settles : ∀ {id price qty rs}, Settles id price qty rs [x] →
      Settles id price qty (rs ++ [r]) xs) :
    Consistent { s.respond r with orders := l₁ ++ xs ++ l₂ } := by
  intro i k
  have hagrees := h i k
  change Agrees (s.engine.instrumentSideOrder i k) (asked i k s.engine.outgoingOgwRequests)
    (answers i k (s.engine.incomingOgwResponses ++ [r])) (working i k (l₁ ++ xs ++ l₂))
  rw [horders] at hagrees
  by_cases hx : PlacedAt i k x.instrumentId x.side
  · have hr : PlacedAt i k r.instrumentId r.side := hplace.1 ▸ hplace.2 ▸ hx
    have hxs' : working i k xs = xs := by
      rw [working, List.filter_eq_self]
      intro y hy
      obtain ⟨hi, hs⟩ := hxs y hy
      rw [hi, hs]
      exact decide_eq_true hx
    have hsplit : working i k (l₁ ++ x :: l₂) = working i k l₁ ++ x :: working i k l₂ := by
      simp [working, hx]
    rw [hsplit] at hagrees
    have hlength := hagrees.length_le
    rw [List.length_append, List.length_cons] at hlength
    have h₁ : working i k l₁ = [] := List.length_eq_zero_iff.mp (by omega)
    have h₂ : working i k l₂ = [] := List.length_eq_zero_iff.mp (by omega)
    rw [h₁, h₂] at hagrees
    have hall : working i k (l₁ ++ xs ++ l₂) = xs := by
      rw [working, List.filter_append, List.filter_append, ← working, h₁, h₂, hxs',
        List.nil_append, List.append_nil]
    rw [hall, answers_concat ⟨htype, hr⟩]
    exact hagrees.respond settles
  · have hr : ¬ PlacedAt i k r.instrumentId r.side := hplace.1 ▸ hplace.2 ▸ hx
    have hxs' : working i k xs = [] := by
      rw [working, List.filter_eq_nil_iff]
      intro y hy
      obtain ⟨hi, hs⟩ := hxs y hy
      rw [hi, hs, decide_eq_true_eq]
      exact hx
    have hall : working i k (l₁ ++ xs ++ l₂) = working i k (l₁ ++ x :: l₂) := by
      rw [working, List.filter_append, List.filter_append, ← working, hxs', List.append_nil,
        working, List.filter_append, List.filter_cons_of_neg (by simpa using hx)]
    rw [hall, answers_concat_not fun h => hr h.2]
    exact hagrees

theorem find_split {p : VenueOrder → Bool} {l : List VenueOrder} {x : VenueOrder}
    (h : l.find? p = some x) : ∃ l₁ l₂, l = l₁ ++ x :: l₂ ∧ l.eraseP p = l₁ ++ l₂ := by
  obtain ⟨hx, l₁, l₂, rfl, hl₁⟩ := List.find?_eq_some_iff_append.mp h
  refine ⟨l₁, l₂, rfl, ?_⟩
  rw [List.eraseP_append_right _ (by simpa using hl₁), List.eraseP_cons_of_pos hx]

theorem Consistent.cancel (h : s.Consistent) (q : ClientRequestInternal) :
    (s.cancel q).Consistent := by
  rw [TradingSystem.cancel]
  cases hfind : s.orders.find? (names q) with
  | none => exact h.reject rfl
  | some x =>
    obtain ⟨l₁, l₂, horders, herase⟩ := find_split hfind
    have hstep := h.replace (r := ⟨.canceled, x.clientId, x.instrumentId, x.clientOrderId,
      x.marketOrderId, x.side, x.price, invalidQuantity, x.leavesQty⟩) [] horders
      (show ¬ ClientResponseType.canceled = .cancelRejected by decide) ⟨rfl, rfl⟩ (by simp)
      fun hs => hs.cancel rfl
    rw [List.append_nil, ← herase] at hstep
    exact hstep

theorem getElem?_split {l : List VenueOrder} {n : Nat} {x : VenueOrder} (h : l[n]? = some x) :
    ∃ l₁ l₂, l = l₁ ++ x :: l₂ ∧ l.eraseIdx n = l₁ ++ l₂ ∧ ∀ y, l.set n y = l₁ ++ y :: l₂ := by
  obtain ⟨hn, hx⟩ := List.getElem?_eq_some_iff.mp h
  refine ⟨l.take n, l.drop (n + 1), ?_, List.eraseIdx_eq_take_drop_succ .., fun y => ?_⟩
  · rw [← hx, ← List.drop_eq_getElem_cons hn, List.take_append_drop]
  · rw [List.set_eq_take_append_cons_drop, if_pos hn]

theorem Consistent.fill (h : s.Consistent) (n : Nat) (price : Price) (execQty : Quantity) :
    (s.fill n price execQty).Consistent := by
  rw [TradingSystem.fill]
  cases hx : s.orders[n]? with
  | none => exact h
  | some x =>
    by_cases hle : execQty ≤ x.leavesQty
    · obtain ⟨l₁, l₂, horders, herase, hset⟩ := getElem?_split hx
      have hstep := h.replace (r := ⟨.filled, x.clientId, x.instrumentId, x.clientOrderId,
        x.marketOrderId, x.side, price, execQty, x.leavesQty - execQty⟩)
        (if x.leavesQty - execQty = 0 then []
          else [{ x with leavesQty := x.leavesQty - execQty }]) horders
        (show ¬ ClientResponseType.filled = .cancelRejected by decide) ⟨rfl, rfl⟩
        (by split <;> simp) fun hs => hs.fill rfl hle rfl
      simp only [if_pos hle]
      by_cases hzero : x.leavesQty - execQty = 0
      · simp only [if_pos hzero, List.append_nil, ← herase] at hstep ⊢
        exact hstep
      · simp only [if_neg hzero, List.append_assoc, List.singleton_append, ← hset] at hstep ⊢
        exact hstep
    · simp only [if_neg hle]
      exact h

/-- An order is accepted, and rests unless it is empty. -/
theorem Consistent.accept {q : ClientRequestInternal} {qs : List ClientRequestInternal}
    (h : s.Consistent) (hq : s.engine.outgoingOgwRequests = q :: qs) (htype : q.type = .new)
    (marketOrderId : OrderId) : Consistent (accept
      { s with engine := { s.engine with outgoingOgwRequests := qs } } marketOrderId q) := by
  let r : ClientResponseInternal := ⟨.accepted, q.clientId, q.instrumentId, q.orderId,
    marketOrderId, q.side, q.price, 0, q.qty⟩
  let x : VenueOrder := ⟨q.clientId, q.instrumentId, q.orderId, marketOrderId, q.side, q.price,
    q.qty⟩
  have hstep (i k : Nat) : Agrees (s.engine.instrumentSideOrder i k) (asked i k qs)
      (answers i k (s.engine.incomingOgwResponses ++ [r]))
      (working i k (s.orders ++ if q.qty = 0 then [] else [x])) := by
    have hagrees := h i k
    rw [hq] at hagrees
    by_cases hplace : PlacedAt i k q.instrumentId q.side
    · have hasked : asked i k (q :: qs) = q :: asked i k qs :=
        List.filter_cons_of_pos (decide_eq_true ⟨htype, hplace⟩)
      rw [hasked] at hagrees
      obtain ⟨⟨hasked, hanswers, hworking⟩, state, hqty, hnamed⟩ := hagrees.alone
      have haccepted : r.type ≠ .cancelRejected :=
        show ¬ ClientResponseType.accepted = .cancelRejected by decide
      rw [hasked, answers_concat ⟨haccepted, hplace⟩, hanswers]
      refine .accepted state rfl ?_
      by_cases hzero : q.qty = 0
      · rw [if_pos hzero, List.append_nil, hworking, ← hqty, hzero]
        exact .empty
      · rw [if_neg hzero, working_concat hplace, hworking]
        exact .resting hnamed hqty
    · have hasked : asked i k (q :: qs) = asked i k qs :=
        List.filter_cons_of_neg (by simp [hplace])
      rw [hasked] at hagrees
      rw [answers_concat_not fun h => hplace h.2]
      split
      · rwa [List.append_nil]
      · rwa [working_concat_not hplace]
  rw [TradingSystem.accept]
  by_cases hzero : q.qty = 0
  · simp only [if_pos hzero, List.append_nil] at hstep ⊢
    exact hstep
  · simp only [if_neg hzero] at hstep ⊢
    exact hstep

theorem Consistent.answer (h : s.Consistent) (marketOrderId : OrderId) :
    (s.answer marketOrderId).Consistent := by
  rw [TradingSystem.answer]
  cases hq : s.engine.outgoingOgwRequests with
  | nil => exact h
  | cons q qs =>
    by_cases htype : q.type = .new
    · simp only [if_pos htype]
      exact h.accept hq htype marketOrderId
    · simp only [if_neg htype]
      refine Consistent.cancel (fun i k => ?_) q
      have hagrees := h i k
      rw [hq] at hagrees
      have hasked : asked i k (q :: qs) = asked i k qs :=
        List.filter_cons_of_neg (by simp [htype])
      rw [hasked] at hagrees
      exact hagrees

/-- The engine moves its orders on one side. -/
theorem Consistent.moveOrder (h : s.Consistent) {instrumentId : InstrumentId} {price : Price}
    {side : Side} {qty : Quantity} {e : TradeEngine} (hplace : PlacedAt i k instrumentId side)
    (hmove : s.engine.moveOrder i k instrumentId price side qty = .ok e) :
    Consistent { s with engine := e } := by
  rcases TradeEngine.moveOrder_cases hplace.1 hmove with ⟨_, rfl⟩ | ⟨_, rfl⟩ | ⟨hsends, rfl⟩
  · exact h
  · exact h.cancelOrder
  · exact h.newOrder hplace hsends

/-- The engine reads a response. -/
theorem Consistent.read (h : s.Consistent) {e : TradeEngine}
    (hread : s.engine.readResponse = .ok e) : Consistent { s with engine := e } := by
  rcases TradeEngine.readResponse_cases hread with ⟨_, rfl⟩ | ⟨r, rs, hr, rfl⟩
  · exact h
  intro i k
  have hagrees := h i k
  rw [hr] at hagrees
  change Agrees ((TradeEngine.setOrder _ _ _ _).instrumentSideOrder i k)
    (asked i k s.engine.outgoingOgwRequests) (answers i k rs) (working i k s.orders)
  by_cases hplace : i = r.instrumentId.toNat ∧ k = sideToIndex r.side
  · obtain ⟨rfl, rfl⟩ := hplace
    rw [TradeEngine.setOrder_same]
    by_cases htype : r.type = .cancelRejected
    · rw [onOrderUpdate_cancelRejected htype]
      rwa [answers, List.filter_cons_of_neg (by simp [htype])] at hagrees
    · rw [answers, List.filter_cons_of_pos (by simp [htype])] at hagrees
      exact hagrees.read
  · rw [TradeEngine.setOrder_ne _ _ hplace]
    rwa [answers, List.filter_cons_of_neg (by
      rw [decide_eq_true_eq]
      exact fun h => hplace ⟨h.2.1.symm, h.2.2.symm⟩)] at hagrees

/-- `move_orders` moves the order of either side in turn. -/
theorem step_moveOrders {instrumentId : InstrumentId} {bidPrice askPrice : Price}
    {clip : Quantity} (h : s.step (.moveOrders instrumentId bidPrice askPrice clip) = .ok s') :
    ∃ e₁ e, s.engine.moveOrder instrumentId.toNat (sideToIndex .buy) instrumentId bidPrice .buy
        clip = .ok e₁ ∧
      e₁.moveOrder instrumentId.toNat (sideToIndex .sell) instrumentId askPrice .sell clip =
        .ok e ∧ s' = { s with engine := e } := by
  obtain ⟨e, he, h⟩ := bind_eq_ok.mp h
  obtain ⟨e₁, hbid, hask⟩ := TradeEngine.moveOrders_eq_ok he
  exact ⟨e₁, e, hbid, hask, (Except.ok.inj h).symm⟩

theorem step_read (h : s.step .read = .ok s') : ∃ e, s.engine.readResponse = .ok e ∧
    s' = { s with
      engine := e
      received := s.received ++ s.engine.incomingOgwResponses.take 1 } := by
  obtain ⟨e, he, h⟩ := bind_eq_ok.mp h
  exact ⟨e, he, (Except.ok.inj h).symm⟩

theorem Consistent.step (h : s.Consistent) {r : TradingStep} (hs' : s.step r = .ok s') :
    s'.Consistent := by
  cases r with
  | moveOrders instrumentId bidPrice askPrice clip =>
    obtain ⟨e₁, e, hbid, hask, rfl⟩ := step_moveOrders hs'
    have hconsistent : Consistent { s with engine := e₁ } := h.moveOrder ⟨rfl, rfl⟩ hbid
    exact hconsistent.moveOrder ⟨rfl, rfl⟩ hask
  | answer marketOrderId =>
    obtain rfl := Except.ok.inj hs'
    exact h.answer marketOrderId
  | fill n price execQty =>
    obtain rfl := Except.ok.inj hs'
    exact h.fill n price execQty
  | read =>
    obtain ⟨e, he, rfl⟩ := step_read hs'
    exact h.read he

/-- The exchange writes to the queues only. -/
structure Untouched (s s' : TradingSystem) : Prop where
  orders : s'.engine.instrumentSideOrder = s.engine.instrumentSideOrder
  positions : s'.engine.instrumentPosition = s.engine.instrumentPosition
  config : s'.engine.riskCfg = s.engine.riskCfg
  received : s'.received = s.received

theorem untouched_cancel (s : TradingSystem) (q : ClientRequestInternal) :
    s.Untouched (s.cancel q) := by
  cases hfind : s.orders.find? (names q) with
  | none =>
    simp only [cancel, hfind]
    exact ⟨rfl, rfl, rfl, rfl⟩
  | some x =>
    simp only [cancel, hfind]
    exact ⟨rfl, rfl, rfl, rfl⟩

theorem untouched_accept (s : TradingSystem) (marketOrderId : OrderId)
    (q : ClientRequestInternal) : s.Untouched (s.accept marketOrderId q) := by
  rw [accept]
  split <;> exact ⟨rfl, rfl, rfl, rfl⟩

theorem untouched_answer (s : TradingSystem) (marketOrderId : OrderId) :
    s.Untouched (s.answer marketOrderId) := by
  cases hq : s.engine.outgoingOgwRequests with
  | nil =>
    simp only [answer, hq]
    exact ⟨rfl, rfl, rfl, rfl⟩
  | cons q qs =>
    simp only [answer, hq]
    split
    · have h := untouched_accept
        { s with engine := { s.engine with outgoingOgwRequests := qs } } marketOrderId q
      exact ⟨h.orders, h.positions, h.config, h.received⟩
    · have h := untouched_cancel
        { s with engine := { s.engine with outgoingOgwRequests := qs } } q
      exact ⟨h.orders, h.positions, h.config, h.received⟩

theorem untouched_fill (s : TradingSystem) (n : Nat) (price : Price) (execQty : Quantity) :
    s.Untouched (s.fill n price execQty) := by
  cases hx : s.orders[n]? with
  | none =>
    simp only [fill, hx]
    exact ⟨rfl, rfl, rfl, rfl⟩
  | some x =>
    simp only [fill, hx]
    split <;> exact ⟨rfl, rfl, rfl, rfl⟩

open Transitions in
/-- The places agree with the exchange along every run. -/
theorem consistent_reached {riskCfg : Nat → RiskConfig}
    {admits : TradingSystem → TradingStep → Prop} {rs : List TradingStep}
    (h : Reached step admits (create riskCfg) rs s) : s.Consistent :=
  h.invariant (create_consistent riskCfg) fun _ _ _ hs _ hs' => hs.step hs'

end TradingSystem

end StockExchange
