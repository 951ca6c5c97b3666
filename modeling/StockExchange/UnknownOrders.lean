import StockExchange.Cancellation

/-!
# Requests for orders that are not in the book

`cancel` and `modify` compare the client id with the size of `client_orders_` and leave the
client order id to `at`. Within the table a request for an order that is not in the book is
answered and changes nothing; past its end it throws.
-/

namespace StockExchange

open Ring BookView Transitions

namespace OrderBook

/-- One response to the client and nothing else comes of the call. -/
def OnlyRejects (s : OrderBook) (type : ClientResponseType) (clientId : ClientId)
    (clientOrderId : OrderId) (result : Except Fault OrderBook) : Prop :=
  ∃ response : ClientResponseInternal, response.type = type ∧ response.clientId = clientId ∧
    response.clientOrderId = clientOrderId ∧ result = .ok (s.sendClientResponse response)

/-- What `cancel` reports of order `p`. -/
def cancelMessages (s : OrderBook) (p : OrderPtr) (clientId : ClientId) (clientOrderId : OrderId) :
    List Message :=
  [.response ⟨.canceled, clientId, s.instrumentId, clientOrderId, (s.order p).marketOrderId,
      (s.order p).side, (s.order p).price, invalidQuantity, (s.order p).qty⟩,
    .update ⟨.cancel, (s.order p).marketOrderId, s.instrumentId, (s.order p).side,
      (s.order p).price, 0, (s.order p).priority⟩]

/-- `cancel` deletes `p`, reports it, and leaves every other order where it was. -/
def OnlyCancels (s : OrderBook) (p : OrderPtr) (clientId : ClientId) (clientOrderId : OrderId) :
    Prop :=
  ∃ s' v w o, s.cancel clientId clientOrderId = .ok s' ∧ Represents s v ∧ o ∈ v.orders ∧
    o.handle = p ∧ Represents s' w ∧ Deleted v w o ∧
    s'.sent = s.sent ++ s.cancelMessages p clientId clientOrderId

end OrderBook

section Requests
variable {s : OrderBook} {v : BookView} {fuel : Nat} {clientId : ClientId}
  {clientOrderId : OrderId}

/-- The lookup returns unless it runs past the row of a client. -/
theorem findClientOrder_none (unused : s.clientOrders clientId.toNat clientOrderId.toNat = none)
    (hid : clientId.toNat < maxNumClients → clientOrderId.toNat < maxNumOrders) :
    s.findClientOrder clientId clientOrderId = .ok none := by
  rw [OrderBook.findClientOrder]
  split
  · rename_i hc
    rw [if_pos (hid hc), unused]
  · rfl

theorem findClientOrder_throws (hc : clientId.toNat < maxNumClients)
    (hi : ¬ clientOrderId.toNat < maxNumOrders) :
    s.findClientOrder clientId clientOrderId = .error .thrown := by
  rw [OrderBook.findClientOrder, if_pos hc, if_neg hi]

theorem onlyRejects_iff (hr : Represents s v) (hv : v.Valid)
    (unknown : s.NoLiveOrder clientId clientOrderId) :
    (s.OnlyRejects .cancelRejected clientId clientOrderId (s.cancel clientId clientOrderId) ∧
      ∀ price quantity, s.OnlyRejects .modifyRejected clientId clientOrderId
        (s.modify fuel clientId clientOrderId price quantity)) ↔
    (clientId.toNat < maxNumClients → clientOrderId.toNat < maxNumOrders) := by
  constructor
  · rintro ⟨⟨response, -, -, -, hcancel⟩, -⟩ hc
    by_contra hi
    rw [OrderBook.cancel, findClientOrder_throws hc hi] at hcancel
    cases hcancel
  · intro hid
    have hunused := unused_of_noLiveOrder hr hv unknown
    rw [← hr.clientOrders] at hunused
    have hfind := findClientOrder_none hunused hid
    constructor
    · refine ⟨⟨.cancelRejected, clientId, s.instrumentId, clientOrderId, invalidOrderId, .invalid,
        invalidPrice, invalidQuantity, invalidQuantity⟩, rfl, rfl, rfl, ?_⟩
      rw [OrderBook.cancel, hfind]
      rfl
    · intro price quantity
      refine ⟨⟨.modifyRejected, clientId, s.instrumentId, clientOrderId, invalidOrderId, .invalid,
        invalidPrice, invalidQuantity, invalidQuantity⟩, rfl, rfl, rfl, ?_⟩
      rw [OrderBook.modify, hfind]
      rfl

theorem entry_of_findClientOrder {p : OrderPtr}
    (h : s.findClientOrder clientId clientOrderId = .ok (some p)) :
    s.clientOrders clientId.toNat clientOrderId.toNat = some p := by
  rw [OrderBook.findClientOrder] at h
  split at h
  · split at h
    · exact Except.ok.inj h
    · cases h
  · cases h

/-- What the lookup finds is found on the lists. -/
theorem findOrder_of_findClientOrder (hr : Represents s v) (hv : v.Valid) {o : OrderView}
    (ho : o ∈ v.orders) (hfind : s.findClientOrder clientId clientOrderId = .ok (some o.handle)) :
    (clientId.toNat < maxNumClients → clientOrderId.toNat < maxNumOrders) ∧
      v.findOrder clientId clientOrderId = some o := by
  rw [OrderBook.findClientOrder] at hfind
  by_cases hc : clientId.toNat < maxNumClients
  · by_cases hi : clientOrderId.toNat < maxNumOrders
    · rw [if_pos hc, if_pos hi, hr.clientOrders] at hfind
      exact ⟨fun _ => hi, findOrder_of_entry _ _ hv ho hc (Except.ok.inj hfind)⟩
    · rw [if_pos hc, if_neg hi] at hfind
      cases hfind
  · rw [if_neg hc] at hfind
    cases hfind

theorem onlyCancels_of_found (hr : Represents s v) (hv : v.Valid) {o : OrderView}
    (ho : o ∈ v.orders) (hfind : s.findClientOrder clientId clientOrderId = .ok (some o.handle)) :
    s.OnlyCancels o.handle clientId clientOrderId := by
  obtain ⟨hid, hview⟩ := findOrder_of_findClientOrder hr hv ho hfind
  obtain ⟨s', hs', hr', -, -⟩ := cancel_spec clientId clientOrderId hr hv hid
  rw [BookView.cancel, hview] at hr'
  have hdeleted := deleted_removeOrder hv ho
  refine ⟨s', v, _, o, hs', hr, ho, rfl, hr', ⟨hdeleted.orders, hdeleted.levels,
    hdeleted.others, hdeleted.freeOrders, hdeleted.clientOrders⟩, ?_⟩
  rw [hr'.sent, OrderBook.cancelMessages, hr.fields ho, hr.sent, hr.instrumentId]
  rfl

/-- The order that is gone after a cancel is the one that was found. -/
theorem found_of_onlyCancels (hr : Represents s v) (hv : v.Valid) {o : OrderView}
    (ho : o ∈ v.orders) (h : s.OnlyCancels o.handle clientId clientOrderId) :
    s.findClientOrder clientId clientOrderId = .ok (some o.handle) := by
  obtain ⟨s', v', w, o', hs', -, -, hsame, hr', hdeleted, hsent⟩ := h
  rcases hfind : s.findClientOrder clientId clientOrderId with fault | found
  · rw [OrderBook.cancel, hfind] at hs'
    cases hs'
  · rcases found with _ | p
    · -- A rejection sends one message, a cancel two.
      rw [OrderBook.cancel, hfind] at hs'
      rw [← Except.ok.inj hs'] at hsent
      have hlength := congrArg List.length hsent
      simp [OrderBook.sendClientResponse, OrderBook.cancelMessages] at hlength
    · have hentry : v.clientOrders clientId.toNat clientOrderId.toNat = some p := by
        rw [← hr.clientOrders]
        exact entry_of_findClientOrder hfind
      obtain ⟨o₁, ho₁, rfl, -, -⟩ := hv.clientOrders _ _ _ hentry
      obtain ⟨hid, hview⟩ := findOrder_of_findClientOrder hr hv ho₁ hfind
      obtain ⟨s₁, hs₁, hr₁, -, -⟩ := cancel_spec clientId clientOrderId hr hv hid
      obtain rfl := Except.ok.inj (hs'.symm.trans hs₁)
      rw [BookView.cancel, hview] at hr₁
      have hgone : (s'.orderPool.memoryBlocks o.handle).isFree = true := by
        refine hr'.orderPool.freeFlag _ ?_
        rw [hdeleted.freeOrders, hsame]
        exact List.mem_cons_self
      by_contra hne
      have hkept : o ∈ (v.removeOrder o₁).orders := by
        refine mem_removeOrder.mpr ⟨ho, fun heq => hne ?_⟩
        rw [heq]
      have hlive := hr₁.orderPool.liveFlag o.handle (List.mem_map_of_mem hkept)
      rw [hgone] at hlive
      cases hlive

theorem onlyCancels_iff (hr : Represents s v) (hv : v.Valid) {p : OrderPtr}
    (hp : p ∈ s.resting) (howned : s.OwnedBy p clientId clientOrderId) :
    s.OnlyCancels p clientId clientOrderId ↔
      s.clientOrders clientId.toNat clientOrderId.toNat = some p := by
  obtain ⟨o, ho, rfl⟩ := List.mem_map.mp ((mem_resting_iff hr hv).mp hp)
  constructor
  · exact fun h => entry_of_findClientOrder (found_of_onlyCancels hr hv ho h)
  · intro hentry
    obtain ⟨rfl, rfl⟩ := (ownedBy_iff hr ho).mp howned
    obtain ⟨hc, hi⟩ := hv.inTable o ho
    refine onlyCancels_of_found hr hv ho ?_
    rw [OrderBook.findClientOrder, if_pos hc, if_pos hi, hentry]

end Requests

section Run
variable {fuel : Nat} {i : InstrumentId} {rs : List OrderBook.BookRequest} {s : OrderBook}

/-- In every state reached a request for an order that is not in the book is only rejected,
exactly if its ids are within the table, and a cancel of an order in the book only cancels it,
exactly if the table leads to it. -/
theorem unknown_rejected_live_cancelled (hfuel : maxNumOrders < fuel)
    (h : Reached (OrderBook.call fuel) (OrderBook.Books fuel OrderBook.SlotOfSide) (.create i) rs
      s) (clientId : ClientId) (clientOrderId : OrderId) :
    (s.NoLiveOrder clientId clientOrderId →
      ((s.OnlyRejects .cancelRejected clientId clientOrderId (s.cancel clientId clientOrderId) ∧
        ∀ price quantity, s.OnlyRejects .modifyRejected clientId clientOrderId
          (s.modify fuel clientId clientOrderId price quantity)) ↔
      (clientId.toNat < maxNumClients → clientOrderId.toNat < maxNumOrders))) ∧
    ∀ p ∈ s.resting, s.OwnedBy p clientId clientOrderId →
      (s.OnlyCancels p clientId clientOrderId ↔
        s.clientOrders clientId.toNat clientOrderId.toNat = some p) := by
  obtain ⟨hr, hv⟩ := represents_of_booksOfSide hfuel h
  exact ⟨fun unknown => onlyRejects_iff hr hv unknown, fun p hp => onlyCancels_iff hr hv hp⟩

/-- The hypotheses are met by a book with one buy, in which order 1 is live and order 2 is not. -/
theorem unknown_rejected_live_cancelled_sample : ∃ s,
    Reached (OrderBook.call 3000) (OrderBook.Books 3000 OrderBook.SlotOfSide) (.create 0)
      [.add 1 1 .buy 10 5] s ∧
    s.OnlyRejects .cancelRejected 1 2 (s.cancel 1 2) ∧ ∃ p ∈ s.resting, s.OnlyCancels p 1 1 := by
  obtain ⟨s, hs, hcheck⟩ := @reached_of_any _ _ _ (OrderBook.call 3000)
    (OrderBook.Books 3000 OrderBook.SlotOfSide) (.create 0) [.add 1 1 .buy 10 5] _
    (fun s => s.clientOrders 1 1 = some 0) (by decide +kernel)
  simp only [decide_eq_true_eq] at hcheck
  obtain ⟨hr, hv⟩ := represents_of_booksOfSide (by decide) hs
  rw [List.foldl_cons, List.foldl_nil, ← oneBuy] at hr hv
  have hunknown : s.NoLiveOrder 1 2 := (noLiveOrder_iff hr hv).mpr
    (by decide +kernel : ∀ o ∈ oneBuy.orders, ¬ (o.clientId = 1 ∧ o.clientOrderId = 2))
  obtain ⟨o, ho, hhandle, hclient, hid⟩ := hv.clientOrders 1 1 0 (hr.clientOrders ▸ hcheck)
  have howned : s.OwnedBy 0 1 1 := by
    rw [← hhandle, ownedBy_iff hr ho]
    exact ⟨UInt32.toNat_inj.mp hclient, UInt64.toNat_inj.mp hid⟩
  have hlive : 0 ∈ s.resting := by
    rw [mem_resting_iff hr hv, ← hhandle]
    exact List.mem_map_of_mem ho
  have hreject := ((unknown_rejected_live_cancelled (by decide) hs 1 2).1 hunknown).mpr
    fun _ => by decide
  have hcancel := ((unknown_rejected_live_cancelled (by decide) hs 1 1).2 0 hlive howned).mpr hcheck
  exact ⟨s, hs, hreject.1, 0, hlive, hcancel⟩

/-- On the empty book a cancel with the first id past the table of a client throws. -/
theorem cancel_pastTable_throws :
    (OrderBook.create 0).NoLiveOrder 1 2048 ∧ (OrderBook.create 0).cancel 1 2048 = .error .thrown ∧
    ¬ (OrderBook.create 0).OnlyRejects .cancelRejected 1 2048
      ((OrderBook.create 0).cancel 1 2048) := by
  have hthrows : (OrderBook.create 0).cancel 1 2048 = .error .thrown := by
    rw [OrderBook.cancel, findClientOrder_throws (by decide) (by decide)]
    rfl
  refine ⟨?_, hthrows, ?_⟩
  · rw [noLiveOrder_iff (create_represents 0) (create_valid 0)]
    exact fun o ho => absurd ho List.not_mem_nil
  · rintro ⟨_, -, -, -, hreturns⟩
    rw [hthrows] at hreturns
    cases hreturns

end Run

end StockExchange
