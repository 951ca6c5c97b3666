import StockExchange.Invariants
import StockExchange.Termination

/-!
# The matching engine

One order book for each instrument. A request names its book and one of three calls;
any other type ends the process, and so does an instrument or an order id out of range.
-/

namespace StockExchange

open BookView Transitions

structure MatchingEngine where
  instrumentOrderBooks : Nat → OrderBook

/-- The call on the order book that the type asks for. -/
def ClientRequestInternal.bookRequest (r : ClientRequestInternal) :
    Option OrderBook.BookRequest :=
  if r.type = .new then some (.add r.clientId r.orderId r.side r.price r.qty)
  else if r.type = .cancel then some (.cancel r.clientId r.orderId)
  else if r.type = .modify then some (.modify r.clientId r.orderId r.price r.qty)
  else none

namespace MatchingEngine

def create : MatchingEngine := ⟨fun i => OrderBook.create (UInt8.ofNat i)⟩

def setOrderBook (e : MatchingEngine) (i : Nat) (s : OrderBook) : MatchingEngine :=
  ⟨Function.update e.instrumentOrderBooks i s⟩

def processClientRequest (fuel : Nat) (e : MatchingEngine) (r : ClientRequestInternal) :
    Except Fault MatchingEngine :=
  if r.instrumentId.toNat < maxNumInstruments then do
    let orderBook := e.instrumentOrderBooks r.instrumentId.toNat
    let orderBook ←
      if r.type = .new then orderBook.add fuel r.clientId r.orderId r.side r.price r.qty
      else if r.type = .cancel then orderBook.cancel r.clientId r.orderId
      else if r.type = .modify then orderBook.modify fuel r.clientId r.orderId r.price r.qty
      else .error .fatal
    .ok (e.setOrderBook r.instrumentId.toNat orderBook)
  else .error .thrown

theorem setOrderBook_self (e : MatchingEngine) (i : Nat) (s : OrderBook) :
    (e.setOrderBook i s).instrumentOrderBooks i = s := Function.update_self ..

theorem setOrderBook_ne (e : MatchingEngine) {i j : Nat} (hne : j ≠ i) (s : OrderBook) :
    (e.setOrderBook i s).instrumentOrderBooks j = e.instrumentOrderBooks j :=
  Function.update_of_ne hne ..

end MatchingEngine

/-- The order id is in the table if it is looked up or booked, and an order that is booked
finds a block and no level of another side in its slot. -/
def OrderBook.Serves (fuel : Nat) (s : OrderBook) (c : BookRequest) : Prop :=
  c.Findable ∧ s.Books fuel (fun s side price =>
    c.clientOrderId.toNat < maxNumOrders ∧ s.HasRoom ∧ s.SlotOfSide side price) c

/-- What the engine asks of a request. -/
def MatchingEngine.Serves (fuel : Nat) (e : MatchingEngine) (r : ClientRequestInternal) : Prop :=
  r.instrumentId.toNat < maxNumInstruments ∧ r.clientId.toNat < maxNumClients ∧
    ∃ c ∈ r.bookRequest, (e.instrumentOrderBooks r.instrumentId.toNat).Serves fuel c

instance (fuel : Nat) (s : OrderBook) (c : OrderBook.BookRequest) :
    Decidable (s.Serves fuel c) := inferInstanceAs (Decidable (_ ∧ _))

instance (fuel : Nat) (e : MatchingEngine) (r : ClientRequestInternal) :
    Decidable (e.Serves fuel r) := inferInstanceAs (Decidable (_ ∧ _ ∧ ∃ c ∈ _, _))

/-- Messages were added, a response to the client among them. -/
def Answered (clientId : ClientId) (before after : List Message) : Prop :=
  ∃ ms, after = before ++ ms ∧ ∃ r, .response r ∈ ms ∧ r.clientId = clientId

theorem Answered.append {clientId : ClientId} {before after : List Message}
    (h : Answered clientId before after) {later : List Message} (hle : after <+: later) :
    Answered clientId before later := by
  obtain ⟨ms, rfl, r, hr, hid⟩ := h
  obtain ⟨ns, rfl⟩ := hle
  exact ⟨ms ++ ns, List.append_assoc .., r, List.mem_append_left _ hr, hid⟩

section Answers
variable {v : BookView}

/-- What has been sent when an order is accepted stays sent. -/
theorem sent_add (hv : v.Valid) (clientId : ClientId) (clientOrderId : OrderId) (side : Side)
    (price : Price) (quantity : Quantity) :
    (v.accepted clientId clientOrderId side price quantity).sent <+:
      (v.add clientId clientOrderId side price quantity).sent := by
  have haccept : (v.accepted clientId clientOrderId side price quantity).sent <+:
      (v.accept clientId clientOrderId side price quantity).1.sent :=
    matchLoop_keeps (J := fun w _ =>
        (v.accepted clientId clientOrderId side price quantity).sent <+: w.sent)
      (fun w leavesQty o _ hpre _ _ _ => by
        rw [sent_fill]
        exact hpre.trans (List.prefix_append _ _))
      _ (accepted_valid hv clientId clientOrderId side price quantity) List.prefix_rfl
  rw [BookView.add]
  generalize v.accept clientId clientOrderId side price quantity = r at haccept ⊢
  by_cases hpos : 0 < r.2
  · simp only [if_pos hpos]
    rcases hfree : r.1.freeOrders with _ | ⟨p, rest⟩
    · rw [book]
      simp only [hfree]
      exact haccept
    · rw [sent_book hfree]
      exact haccept.trans (List.prefix_append _ _)
  · simp only [if_neg hpos]
    exact haccept

theorem answered_add (hv : v.Valid) (clientId : ClientId) (clientOrderId : OrderId) (side : Side)
    (price : Price) (quantity : Quantity) :
    Answered clientId v.sent (v.add clientId clientOrderId side price quantity).sent :=
  Answered.append ⟨_, rfl, _, List.mem_singleton_self _, rfl⟩
    (sent_add hv clientId clientOrderId side price quantity)

/-- Every call answers the client that makes it. -/
theorem answered_call (hv : v.Valid) (c : OrderBook.BookRequest) :
    Answered c.clientId v.sent (v.call c).sent := by
  cases c with
  | add clientId clientOrderId side price quantity => exact answered_add hv ..
  | cancel clientId clientOrderId =>
    rw [BookView.call, BookView.cancel]
    rcases v.findOrder clientId clientOrderId with _ | o
    · exact ⟨_, rfl, _, List.mem_singleton_self _, rfl⟩
    · exact ⟨_, rfl, _, List.mem_cons_self, rfl⟩
  | modify clientId clientOrderId price quantity =>
    rw [BookView.call, BookView.modify]
    rcases hfind : v.findOrder clientId clientOrderId with _ | o
    · exact ⟨_, rfl, _, List.mem_singleton_self _, rfl⟩
    · by_cases hq : o.price ≠ price ∨ o.qty < quantity
      · simp only [if_pos hq]
        have ho := (mem_of_findOrder clientId clientOrderId hfind).1
        have hcancel : Answered clientId v.sent (v.cancelOrder clientId clientOrderId o).sent :=
          ⟨_, rfl, _, List.mem_cons_self, rfl⟩
        exact hcancel.append ((List.prefix_append _ _).trans
          (sent_add (cancelOrder_valid hv ho clientId clientOrderId) ..))
      · simp only [if_neg hq]
        exact ⟨_, rfl, _, List.mem_cons_self, rfl⟩

end Answers

section Engine
variable {fuel : Nat} {e : MatchingEngine} {r : ClientRequestInternal}

theorem processClientRequest_eq (fuel : Nat) (e : MatchingEngine) {c : OrderBook.BookRequest}
    (hi : r.instrumentId.toNat < maxNumInstruments) (hc : r.bookRequest = some c) :
    e.processClientRequest fuel r =
      ((e.instrumentOrderBooks r.instrumentId.toNat).call fuel c >>= fun orderBook =>
        .ok (e.setOrderBook r.instrumentId.toNat orderBook)) := by
  rw [MatchingEngine.processClientRequest, if_pos hi]
  rw [ClientRequestInternal.bookRequest] at hc
  by_cases hnew : r.type = .new
  · rw [if_pos hnew] at hc
    obtain rfl := Option.some.inj hc
    simp only [if_pos hnew]
    rfl
  · rw [if_neg hnew] at hc
    by_cases hcancel : r.type = .cancel
    · rw [if_pos hcancel] at hc
      obtain rfl := Option.some.inj hc
      simp only [if_neg hnew, if_pos hcancel]
      rfl
    · rw [if_neg hcancel] at hc
      by_cases hmodify : r.type = .modify
      · rw [if_pos hmodify] at hc
        obtain rfl := Option.some.inj hc
        simp only [if_neg hnew, if_neg hcancel, if_pos hmodify]
        rfl
      · rw [if_neg hmodify] at hc
        cases hc

theorem bookRequest_ids {c : OrderBook.BookRequest} (hc : r.bookRequest = some c) :
    c.clientId = r.clientId := by
  rw [ClientRequestInternal.bookRequest] at hc
  split at hc
  · exact Option.some.inj hc ▸ rfl
  · split at hc
    · exact Option.some.inj hc ▸ rfl
    · split at hc
      · exact Option.some.inj hc ▸ rfl
      · cases hc

/-- A request that the book serves returns. -/
theorem admissible_of_serves {s : OrderBook} {v : BookView} (hr : Represents s v) (hv : v.Valid)
    (hfuel : maxNumOrders < fuel) {c : OrderBook.BookRequest}
    (hid : c.clientId.toNat < maxNumClients) (h : s.Serves fuel c) : Admissible v c := by
  have hbooks : v.Books (fun w side price => c.clientOrderId.toNat < maxNumOrders ∧
      w.freeOrders ≠ [] ∧ w.SameSide side price) c :=
    books_view hr hv hfuel (fun _ _ side price hr hv h => ⟨h.1, (hasRoom_iff hr).mp h.2.1,
      (slotOfSide_iff hr hv side price).mp h.2.2⟩) h.1 h.2
  cases c with
  | add => exact fun hpos => ⟨⟨hid, (hbooks hpos).1⟩, (hbooks hpos).2⟩
  | cancel => exact h.1
  | modify =>
    exact ⟨h.1, fun o ho hq hpos => ⟨⟨hid, (hbooks o ho hq hpos).1⟩, (hbooks o ho hq hpos).2⟩⟩

/-- Every book stands for lists. -/
def MatchingEngine.Sound (e : MatchingEngine) : Prop :=
  ∀ i, ∃ v, Represents (e.instrumentOrderBooks i) v ∧ v.Valid

theorem create_sound : MatchingEngine.create.Sound :=
  fun i => ⟨_, create_represents (UInt8.ofNat i), create_valid (UInt8.ofNat i)⟩

/-- A served request completes, leaves every book sound and answers its client. -/
theorem processClientRequest_served (hfuel : maxNumOrders < fuel) (hsound : e.Sound)
    (h : e.Serves fuel r) : ∃ e', e.processClientRequest fuel r = .ok e' ∧ e'.Sound ∧
      Answered r.clientId (e.instrumentOrderBooks r.instrumentId.toNat).sent
        (e'.instrumentOrderBooks r.instrumentId.toNat).sent := by
  obtain ⟨hi, hid, c, hc, hserves⟩ := h
  have hc' : r.bookRequest = some c := hc
  obtain ⟨v, hr, hv⟩ := hsound r.instrumentId.toNat
  have hclient := bookRequest_ids hc'
  obtain ⟨s', hs', hr', hv'⟩ :=
    call_spec hr hv hfuel (admissible_of_serves hr hv hfuel (hclient ▸ hid) hserves)
  refine ⟨e.setOrderBook r.instrumentId.toNat s', ?_, fun j => ?_, ?_⟩
  · rw [processClientRequest_eq fuel e hi hc', hs', ok_bind]
  · by_cases hj : j = r.instrumentId.toNat
    · subst hj
      exact ⟨v.call c, by rwa [e.setOrderBook_self], hv'⟩
    · obtain ⟨w, hw⟩ := hsound j
      exact ⟨w, by rwa [e.setOrderBook_ne hj]⟩
  · rw [e.setOrderBook_self, hr.sent, hr'.sent, ← hclient]
    exact answered_call hv c

variable {rs : List ClientRequestInternal}

/-- In a run of requests that are served, every next one completes and is answered. -/
theorem serves_completes (hfuel : maxNumOrders < fuel)
    (h : Reached (MatchingEngine.processClientRequest fuel) (MatchingEngine.Serves fuel) .create
      rs e) (hserves : e.Serves fuel r) : ∃ e', e.processClientRequest fuel r = .ok e' ∧
      Answered r.clientId (e.instrumentOrderBooks r.instrumentId.toNat).sent
        (e'.instrumentOrderBooks r.instrumentId.toNat).sent := by
  have hsound : e.Sound := h.invariant create_sound fun e r e' hsound hserves hcall => by
    obtain ⟨e₁, he₁, hsound₁, _⟩ := processClientRequest_served hfuel hsound hserves
    exact Except.ok.inj (he₁.symm.trans hcall) ▸ hsound₁
  obtain ⟨e', he', _, hanswered⟩ := processClientRequest_served hfuel hsound hserves
  exact ⟨e', he', hanswered⟩

/-- The hypotheses are met by orders on two instruments, one of them of no named side. -/
theorem serves_completes_sample : ∃ e,
    Reached (MatchingEngine.processClientRequest 3000) (MatchingEngine.Serves 3000) .create
      [⟨.new, 1, 0, 5, .buy, 10, 4⟩, ⟨.new, 2, 7, 5, ⟨9⟩, 10, 4⟩] e ∧
    ∃ e', e.processClientRequest 3000 ⟨.new, 3, 0, 2048, .sell, 10, 3⟩ = .ok e' ∧
      Answered 3 (e.instrumentOrderBooks 0).sent (e'.instrumentOrderBooks 0).sent := by
  obtain ⟨e, he, hcheck⟩ := @reached_of_any _ _ _ (MatchingEngine.processClientRequest 3000)
    (MatchingEngine.Serves 3000) .create
    [⟨.new, 1, 0, 5, .buy, 10, 4⟩, ⟨.new, 2, 7, 5, ⟨9⟩, 10, 4⟩] _
    (fun e => e.Serves 3000 ⟨.new, 3, 0, 2048, .sell, 10, 3⟩) (by decide +kernel)
  exact ⟨e, he, serves_completes (by decide) he (of_decide_eq_true hcheck)⟩

/-- Requests that end the process: an unknown type, an instrument out of range, and an
order id out of range to be booked or looked up. -/
theorem processClientRequest_fails :
    MatchingEngine.create.processClientRequest 3000 ⟨⟨9⟩, 1, 0, 1, .buy, 10, 1⟩ = .error .fatal ∧
    MatchingEngine.create.processClientRequest 3000 ⟨.new, 1, 8, 1, .buy, 10, 1⟩ =
      .error .thrown ∧
    MatchingEngine.create.processClientRequest 3000 ⟨.new, 1, 0, 2048, .buy, 10, 1⟩ =
      .error .thrown ∧
    MatchingEngine.create.processClientRequest 3000 ⟨.cancel, 1, 0, 2048, .buy, 10, 1⟩ =
      .error .thrown := by
  exact ⟨rfl, rfl, eq_error_of_faultOf (by decide +kernel), rfl⟩

end Engine

end StockExchange
