import StockExchange.LifeCycle
import StockExchange.MatchingEngine

/-!
# Whom the engine answers

A response goes to the client that made the request or to one with an order in the book, and
an order is in the book for the client that asked for it. So the engine answers no one it was
not given a request of.
-/

namespace StockExchange

open BookView Transitions

namespace BookView

/-- Every order in the book, and every response so far, is for a client in `p`. -/
structure Addressed (p : ClientId → Prop) (v : BookView) : Prop where
  orders : ∀ o ∈ v.orders, p o.clientId
  answers : ∀ r, .response r ∈ v.sent → p r.clientId

section Addressed
variable {p : ClientId → Prop} {v : BookView} {a : Aggressor} {o : OrderView}
  {clientId : ClientId} {clientOrderId : OrderId}

theorem create_addressed (i : InstrumentId) : (create i).Addressed p :=
  ⟨fun _ ho => absurd ho List.not_mem_nil, fun _ hr => absurd hr List.not_mem_nil⟩

theorem Addressed.mono {p' : ClientId → Prop} (hle : ∀ c, p c → p' c) (h : v.Addressed p) :
    v.Addressed p' :=
  ⟨fun o ho => hle _ (h.orders o ho), fun r hr => hle _ (h.answers r hr)⟩

theorem Addressed.send (h : v.Addressed p) {ms : List Message}
    (hms : ∀ r, .response r ∈ ms → p r.clientId) : (v.send ms).Addressed p := by
  refine ⟨h.orders, fun r hr => ?_⟩
  rcases List.mem_append.mp hr with hr | hr
  · exact h.answers r hr
  · exact hms r hr

theorem Addressed.removeOrder (h : v.Addressed p) (o : OrderView) :
    (v.removeOrder o).Addressed p :=
  ⟨fun o' ho' => h.orders o' (mem_removeOrder.mp ho').1, h.answers⟩

theorem Addressed.setQty (h : v.Addressed p) (q : OrderPtr) (qty : Quantity) :
    (v.setQty q qty).Addressed p := by
  refine ⟨fun o ho => ?_, h.answers⟩
  rw [orders_setQty] at ho
  obtain ⟨o', ho', rfl⟩ := List.mem_map.mp ho
  rw [withQty]
  split <;> exact h.orders o' ho'

theorem Addressed.fill (h : v.Addressed p) (ha : p a.clientId) (ho : o ∈ v.orders)
    (leavesQty : Quantity) : (v.fill a leavesQty o).Addressed p := by
  have hsent : (v.send (fillMessages v.instrumentId a leavesQty o.toOrderFields
      (min leavesQty o.qty))).Addressed p := by
    refine h.send fun r hr => ?_
    simp only [fillMessages, List.mem_cons, Message.response.injEq, reduceCtorEq,
      List.not_mem_nil, or_false] at hr
    rcases hr with rfl | rfl
    · exact ha
    · exact h.orders o ho
  rw [BookView.fill]
  split
  · exact hsent.removeOrder o
  · exact hsent.setQty _ _

theorem Addressed.accept (h : v.Addressed p) (hv : v.Valid) (hc : p clientId)
    (clientOrderId : OrderId) (side : Side) (price : Price) (quantity : Quantity) :
    (v.accept clientId clientOrderId side price quantity).1.Addressed p := by
  refine matchLoop_keeps (J := fun w _ => w.Addressed p)
    (fun w leavesQty o hv h hhead _ _ => h.fill hc (mem_orders_of_head hv hhead).2 leavesQty)
    _ (accepted_valid hv clientId clientOrderId side price quantity) ⟨h.orders, fun r hr => ?_⟩
  rcases List.mem_append.mp hr with hr | hr
  · exact h.answers r hr
  · cases List.mem_singleton.mp hr
    exact hc

/-- What is left of an order is booked for its client. -/
theorem Addressed.book (h : v.Addressed p) (hv : v.Valid) (hc : p clientId) {side : Side}
    {price : Price} {h' : OrderPtr} {rest : List OrderPtr} (hfree : v.freeOrders = h' :: rest)
    (same : v.SameSide side price) (id : OrderId) (leavesQty : Quantity) :
    (v.book clientId clientOrderId id side price leavesQty).Addressed p := by
  rw [book_eq hfree]
  refine Addressed.send ⟨fun o ho => ?_, fun r hr => ?_⟩ fun r hr => ?_
  · rcases List.mem_cons.mp ((hv.perm_place (o := v.bookedOrder h' clientId clientOrderId id side
      price leavesQty) same).mem_iff.mp ho) with rfl | ho
    · exact hc
    · exact h.orders o ho
  · have hsent := (place_sent v (v.bookedOrder h' clientId clientOrderId id side price
      leavesQty)).1
    exact h.answers r (hsent ▸ hr)
  · cases List.mem_singleton.mp hr

theorem Addressed.add (h : v.Addressed p) (hv : v.Valid) (hc : p clientId) {side : Side}
    {price : Price} {quantity : Quantity} (hb : Bookable clientId clientOrderId side price
      (v.accept clientId clientOrderId side price quantity)) :
    (v.add clientId clientOrderId side price quantity).Addressed p := by
  have haccept := h.accept hv hc clientOrderId side price quantity
  refine add_cases hv hb (fun w heq => ?_) fun w leavesQty h' rest heq hw _ hfree same => ?_
  · rwa [heq] at haccept
  · rw [heq] at haccept
    exact haccept.book hw hc hfree same _ _

theorem Addressed.cancelOrder (h : v.Addressed p) (hc : p clientId) (o : OrderView) :
    (v.cancelOrder clientId clientOrderId o).Addressed p := by
  refine (h.removeOrder o).send fun r hr => ?_
  simp only [List.mem_cons, Message.response.injEq, reduceCtorEq, List.not_mem_nil,
    or_false] at hr
  rw [hr]
  exact hc

/-- A call answers the client that makes it and clients with orders in the book, and books
for the client that makes it. -/
theorem Addressed.call (h : v.Addressed p) (hv : v.Valid) {c : OrderBook.BookRequest}
    (hc : p c.clientId) (ha : Admissible v c) : (v.call c).Addressed p := by
  have hreject : ∀ type clientId clientOrderId, p clientId →
      (v.reject type clientId clientOrderId).Addressed p := by
    intro type clientId clientOrderId hc
    refine h.send fun r hr => ?_
    cases List.mem_singleton.mp hr
    exact hc
  cases c with
  | add => exact h.add hv hc ha
  | cancel clientId clientOrderId =>
    rw [BookView.call, BookView.cancel]
    rcases v.findOrder clientId clientOrderId with _ | o
    · exact hreject _ _ _ hc
    · exact h.cancelOrder hc o
  | modify clientId clientOrderId price quantity =>
    rw [BookView.call, BookView.modify]
    rcases hfind : v.findOrder clientId clientOrderId with _ | o
    · exact hreject _ _ _ hc
    · have ho := (mem_of_findOrder clientId clientOrderId hfind).1
      by_cases hq : o.price ≠ price ∨ o.qty < quantity
      · simp only [if_pos hq]
        exact (h.cancelOrder hc o).add (cancelOrder_valid hv ho ..) hc (ha.2 o hfind hq)
      · simp only [if_neg hq]
        refine (h.setQty o.handle quantity).send fun r hr => ?_
        simp only [List.mem_cons, Message.response.injEq, reduceCtorEq, List.not_mem_nil,
          or_false] at hr
        rw [hr]
        exact hc

end Addressed

end BookView

theorem mem_responses {ms : List Message} {r : ClientResponseInternal} :
    r ∈ responses ms ↔ .response r ∈ ms := by
  constructor
  · intro h
    obtain ⟨m, hm, heq⟩ := List.mem_filterMap.mp h
    cases m with
    | response r' => exact Option.some.inj heq ▸ hm
    | update u => cases heq
  · exact fun h => List.mem_filterMap.mpr ⟨_, h, rfl⟩

namespace MatchingEngine

/-- The responses that a request adds to those of its book. -/
def reply (before after : MatchingEngine) (r : ClientRequestInternal) :
    List ClientResponseInternal :=
  responses ((after.instrumentOrderBooks r.instrumentId.toNat).sent.drop
    (before.instrumentOrderBooks r.instrumentId.toNat).sent.length)

/-- What the engine replies to requests, one after the other. -/
def replies (fuel : Nat) : MatchingEngine → List ClientRequestInternal →
    List (List ClientResponseInternal)
  | _, [] => []
  | e, r :: rs =>
    match e.processClientRequest fuel r with
    | .ok e' => e.reply e' r :: e'.replies fuel rs
    | .error _ => []

/-- Every book stands for lists, and knows no client but those in `p`. -/
def Knows (p : ClientId → Prop) (e : MatchingEngine) : Prop :=
  ∀ i, ∃ v, Represents (e.instrumentOrderBooks i) v ∧ v.Valid ∧ v.Addressed p

section Replies
variable {fuel : Nat} {e e' : MatchingEngine} {r : ClientRequestInternal}
  {rs rs' : List ClientRequestInternal} {p : ClientId → Prop}

theorem replies_cons (h : e.processClientRequest fuel r = .ok e') :
    e.replies fuel (r :: rs) = e.reply e' r :: e'.replies fuel rs := by
  rw [replies, h]

theorem replies_append {admits : MatchingEngine → ClientRequestInternal → Prop}
    (h : Reached (processClientRequest fuel) admits e rs e') :
    e.replies fuel (rs ++ rs') = e.replies fuel rs ++ e'.replies fuel rs' := by
  induction h generalizing rs' with
  | start => rfl
  | call _ _ returns ih =>
    rw [List.append_assoc, ih, ih, replies_cons returns, List.append_assoc]
    exact congrArg _ (replies_cons returns)

theorem create_knows : create.Knows p :=
  fun i => ⟨_, create_represents (UInt8.ofNat i), create_valid (UInt8.ofNat i),
    create_addressed (UInt8.ofNat i)⟩

theorem Knows.mono {p' : ClientId → Prop} (hle : ∀ c, p c → p' c) (h : e.Knows p) :
    e.Knows p' := by
  intro i
  obtain ⟨v, hr, hv, haddressed⟩ := h i
  exact ⟨v, hr, hv, haddressed.mono hle⟩

/-- A served request of a client in `p` is answered; the replies go to clients in `p` alone. -/
theorem Knows.processClientRequest (h : e.Knows p) (hfuel : maxNumOrders < fuel)
    (hserves : e.Serves fuel r) (hp : p r.clientId) :
    ∃ e', e.processClientRequest fuel r = .ok e' ∧ e'.Knows p ∧
      (∀ a ∈ e.reply e' r, p a.clientId) ∧ ∃ a ∈ e.reply e' r, a.clientId = r.clientId := by
  obtain ⟨hi, hid, c, hc, hbook⟩ := hserves
  have hc' : r.bookRequest = some c := hc
  have hclient := bookRequest_ids hc'
  obtain ⟨v, hr, hv, haddressed⟩ := h r.instrumentId.toNat
  have hadmissible := admissible_of_serves hr hv hfuel (hclient ▸ hid) hbook
  obtain ⟨s', hs', hr', hv'⟩ := call_spec hr hv hfuel hadmissible
  have haddressed' := haddressed.call hv (hclient ▸ hp) hadmissible
  obtain ⟨ms, hms, a, ha, haid⟩ := answered_call hv c
  have hreply : e.reply (e.setOrderBook r.instrumentId.toNat s') r = responses ms := by
    rw [reply, e.setOrderBook_self, hr'.sent, hms, hr.sent, List.drop_left]
  refine ⟨_, by rw [processClientRequest_eq fuel e hi hc', hs', ok_bind], fun j => ?_, ?_, ?_⟩
  · by_cases hj : j = r.instrumentId.toNat
    · subst hj
      rw [e.setOrderBook_self]
      exact ⟨v.call c, hr', hv', haddressed'⟩
    · rw [e.setOrderBook_ne hj]
      exact h j
  · intro b hb
    rw [hreply, mem_responses] at hb
    exact haddressed'.answers b (hms ▸ List.mem_append_right _ hb)
  · rw [hreply]
    exact ⟨a, mem_responses.mpr ha, haid.trans hclient⟩

end Replies

end MatchingEngine

end StockExchange
