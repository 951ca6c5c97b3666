import StockExchange.OrderBook
import StockExchange.Library.Transitions

/-!
# What every call does

Whatever state it meets, a call that returns has added to what was sent, in the name of the
instrument of its book, and does the same with more fuel.
-/

namespace StockExchange

open Transitions

namespace OrderBook

/-- Nothing is sent. -/
structure Quiet (s s' : OrderBook) : Prop where
  instrumentId : s'.instrumentId = s.instrumentId
  sent : s'.sent = s.sent

/-- Messages are added, and the updates among them name the instrument of the book. -/
structure Reports (s s' : OrderBook) : Prop where
  instrumentId : s'.instrumentId = s.instrumentId
  sent : ∃ ms, s'.sent = s.sent ++ ms ∧ ∀ u, .update u ∈ ms → u.instrumentId = s.instrumentId

section Messages
variable {s t s' : OrderBook} {fuel : Nat} {p : OrderPtr} {side : Side} {price : Price}
  {clientId : ClientId} {clientOrderId marketOrderId : OrderId} {quantity leavesQty : Quantity}

theorem Quiet.reports (h : Quiet s s') : Reports s s' :=
  ⟨h.instrumentId, [], by simp [h.sent], by simp⟩

theorem Reports.trans (h : Reports s t) (h' : Reports t s') : Reports s s' := by
  obtain ⟨hi, ms, hms, hnames⟩ := h
  obtain ⟨hi', ns, hns, hnames'⟩ := h'
  refine ⟨hi'.trans hi, ms ++ ns, by rw [hns, hms, List.append_assoc], ?_⟩
  intro u hu
  rcases List.mem_append.mp hu with hu | hu
  · exact hnames u hu
  · exact (hnames' u hu).trans hi

theorem response_reports (s : OrderBook) (r : ClientResponseInternal) :
    Reports s (s.sendClientResponse r) :=
  ⟨rfl, [.response r], rfl, by simp⟩

theorem update_reports {u : MarketUpdate} (hu : u.instrumentId = s.instrumentId) :
    Reports s (s.sendMarketUpdate u) := by
  refine ⟨rfl, [.update u], rfl, ?_⟩
  intro w hw
  obtain rfl : w = u := by simpa using hw
  exact hu

theorem addAfter_quiet {current new : LevelPtr} (h : s.addAfter current new = .ok s') :
    Quiet s s' := by
  obtain ⟨next, -, h⟩ := bind_eq_ok.mp h
  cases h
  constructor <;> rfl

theorem addBefore_quiet {current new : LevelPtr} (h : s.addBefore current new = .ok s') :
    Quiet s s' := by
  obtain ⟨prev, -, h⟩ := bind_eq_ok.mp h
  cases h
  constructor <;> rfl

theorem addPriceLevel_quiet {new : LevelPtr} (h : s.addPriceLevel fuel new = .ok s') :
    Quiet s s' := by
  simp only [addPriceLevel] at h
  split at h
  · cases h
    constructor <;> rfl
  · split at h
    · obtain ⟨t, ht, h⟩ := bind_eq_ok.mp h
      obtain ⟨hi, hsent⟩ := addBefore_quiet ht
      cases h
      exact ⟨hi, hsent⟩
    · obtain ⟨first, -, h⟩ := bind_eq_ok.mp h
      obtain ⟨⟨current, flag⟩, -, h⟩ := bind_eq_ok.mp h
      dsimp only at h
      split at h
      · obtain ⟨hi, hsent⟩ := addAfter_quiet h
        exact ⟨hi, hsent⟩
      · obtain ⟨hi, hsent⟩ := addBefore_quiet h
        exact ⟨hi, hsent⟩

theorem setClientOrder_quiet {q : Option OrderPtr}
    (h : s.setClientOrder clientId clientOrderId q = .ok s') : Quiet s s' := by
  rw [setClientOrder] at h
  split at h
  · cases h
    constructor <;> rfl
  · cases h

theorem addOrder_quiet (h : s.addOrder fuel p = .ok s') : Quiet s s' := by
  simp only [addOrder] at h
  split at h
  · obtain ⟨⟨pool, new⟩, -, h⟩ := bind_eq_ok.mp h
    obtain ⟨t, ht, h⟩ := bind_eq_ok.mp h
    obtain ⟨hi, hsent⟩ := addPriceLevel_quiet ht
    obtain ⟨hi', hsent'⟩ := setClientOrder_quiet h
    exact ⟨hi'.trans hi, hsent'.trans hsent⟩
  · obtain ⟨first, -, h⟩ := bind_eq_ok.mp h
    obtain ⟨last, -, h⟩ := bind_eq_ok.mp h
    obtain ⟨first', -, h⟩ := bind_eq_ok.mp h
    obtain ⟨hi, hsent⟩ := setClientOrder_quiet h
    exact ⟨hi, hsent⟩

theorem removePriceLevel_quiet (h : s.removePriceLevel side price = .ok s') : Quiet s s' := by
  simp only [removePriceLevel] at h
  split at h
  · cases h
    constructor <;> rfl
  · split at h
    · cases h
      constructor <;> rfl
    · obtain ⟨prev, -, h⟩ := bind_eq_ok.mp h
      obtain ⟨next, -, h⟩ := bind_eq_ok.mp h
      obtain ⟨best, -, h⟩ := bind_eq_ok.mp h
      rw [ok_bind] at h
      split at h <;> cases h <;> constructor <;> rfl

theorem removeOrder_quiet (h : s.removeOrder p = .ok s') : Quiet s s' := by
  simp only [removeOrder] at h
  split at h
  · obtain ⟨t, ht, h⟩ := bind_eq_ok.mp h
    obtain ⟨t', ht', h⟩ := bind_eq_ok.mp h
    cases h
    obtain ⟨hi, hsent⟩ := removePriceLevel_quiet ht
    obtain ⟨hi', hsent'⟩ := setClientOrder_quiet ht'
    exact ⟨hi'.trans hi, hsent'.trans hsent⟩
  · obtain ⟨before, -, h⟩ := bind_eq_ok.mp h
    obtain ⟨after, -, h⟩ := bind_eq_ok.mp h
    obtain ⟨l, -, h⟩ := bind_eq_ok.mp h
    rw [ok_bind] at h
    obtain ⟨t, ht, h⟩ := bind_eq_ok.mp h
    cases h
    split at ht
    · obtain ⟨hi, hsent⟩ := setClientOrder_quiet ht
      exact ⟨hi, hsent⟩
    · obtain ⟨hi, hsent⟩ := setClientOrder_quiet ht
      exact ⟨hi, hsent⟩

/-- An execution tells both clients and the market. -/
theorem matchOrder_reports {r : OrderBook × Quantity}
    (h : s.matchOrder clientId side clientOrderId marketOrderId leavesQty p = .ok r) :
    Reports s r.1 := by
  simp only [matchOrder] at h
  have hfilled (s : OrderBook) (r r' : ClientResponseInternal) (u : MarketUpdate)
      (hu : u.instrumentId = s.instrumentId) :
      Reports s (((s.sendClientResponse r).sendClientResponse r').sendMarketUpdate u) :=
    ((response_reports s r).trans (response_reports _ r')).trans (update_reports hu)
  have hquiet (qty : Quantity) : Reports s (s.setQty p qty) := Quiet.reports ⟨rfl, rfl⟩
  split at h
  · obtain ⟨t, ht, h⟩ := bind_eq_ok.mp h
    cases h
    refine Reports.trans ?_ (removeOrder_quiet ht).reports
    exact ((hquiet _).trans (hfilled _ _ _ _ rfl)).trans (update_reports rfl)
  · cases h
    exact ((hquiet _).trans (hfilled _ _ _ _ rfl)).trans (update_reports rfl)

theorem matchLoop_reports {r : OrderBook × Quantity}
    (h : matchLoop clientId clientOrderId marketOrderId side price fuel s leavesQty = .ok r) :
    Reports s r.1 := by
  induction fuel generalizing s leavesQty with
  | zero => cases h
  | succ fuel ih =>
    rw [matchLoop] at h
    split at h
    · cases h
      exact Quiet.reports ⟨rfl, rfl⟩
    · split at h
      · cases h
        exact Quiet.reports ⟨rfl, rfl⟩
      · obtain ⟨q, -, h⟩ := bind_eq_ok.mp h
        by_cases hworse : if side = .buy then price < (s.order q).price else (s.order q).price < price
        · simp only [if_pos hworse] at h
          cases h
          exact Quiet.reports ⟨rfl, rfl⟩
        · simp only [if_neg hworse] at h
          obtain ⟨⟨t, leavesQty'⟩, ht, h⟩ := bind_eq_ok.mp h
          exact (matchOrder_reports ht).trans (ih h)

theorem book_reports
    (h : s.book fuel clientId clientOrderId marketOrderId side price leavesQty = .ok s') :
    Reports s s' := by
  rw [book] at h
  obtain ⟨priority, -, h⟩ := bind_eq_ok.mp h
  obtain ⟨⟨pool, q⟩, -, h⟩ := bind_eq_ok.mp h
  obtain ⟨t, ht, h⟩ := bind_eq_ok.mp h
  cases h
  obtain ⟨hi, hsent⟩ := addOrder_quiet ht
  exact Reports.trans (Quiet.reports ⟨hi, hsent⟩) (update_reports (by rfl))

theorem add_reports (h : s.add fuel clientId clientOrderId side price quantity = .ok s') :
    Reports s s' := by
  rw [add] at h
  obtain ⟨⟨t, leavesQty⟩, ht, h⟩ := bind_eq_ok.mp h
  have haccepted : Reports s (s.accepted clientId clientOrderId side price quantity) :=
    ⟨rfl, _, rfl, by simp⟩
  have hmatched := haccepted.trans (matchLoop_reports ht)
  dsimp only at h
  split at h
  · exact hmatched.trans (book_reports h)
  · cases h
    exact hmatched

theorem cancel_reports (h : s.cancel clientId clientOrderId = .ok s') : Reports s s' := by
  simp only [cancel] at h
  obtain ⟨found, -, h⟩ := bind_eq_ok.mp h
  cases found with
  | none =>
    cases h
    exact response_reports s _
  | some q =>
    obtain ⟨t, ht, h⟩ := bind_eq_ok.mp h
    cases h
    have hremoved := removeOrder_quiet ht
    exact (hremoved.reports.trans (response_reports t _)).trans
      (update_reports hremoved.instrumentId.symm)

theorem modify_reports
    (h : s.modify fuel clientId clientOrderId price quantity = .ok s') : Reports s s' := by
  simp only [modify] at h
  obtain ⟨found, -, h⟩ := bind_eq_ok.mp h
  cases found with
  | none =>
    cases h
    exact response_reports s _
  | some q =>
    dsimp only at h
    split at h
    · obtain ⟨t, ht, h⟩ := bind_eq_ok.mp h
      exact (cancel_reports ht).trans (add_reports h)
    · cases h
      have hquiet : Reports s (s.setQty q quantity) := Quiet.reports ⟨rfl, rfl⟩
      exact (hquiet.trans (response_reports _ _)).trans (update_reports (by rfl))

theorem call_reports {c : BookRequest} (h : s.call fuel c = .ok s') : Reports s s' := by
  cases c with
  | add => exact add_reports h
  | cancel => exact cancel_reports h
  | modify => exact modify_reports h

end Messages

section Fuel
variable (s : OrderBook)

theorem findPosition_steady (new best current : LevelPtr) (addAfterFlag : Bool) :
    Steady fun fuel => s.findPosition new best fuel current addAfterFlag := by
  refine steady_of_succ fun fuel r h => ?_
  induction fuel generalizing current addAfterFlag with
  | zero => cases h
  | succ fuel ih =>
    rw [findPosition] at h ⊢
    split
    · rename_i hgoes
      rw [if_pos hgoes] at h
      obtain ⟨next, hnext, h⟩ := bind_eq_ok.mp h
      rw [hnext, ok_bind]
      split
      · rename_i hlast
        rw [if_pos hlast] at h
        exact ih _ _ h
      · rename_i hlast
        rw [if_neg hlast] at h
        exact ih _ _ h
    · rename_i hstops
      rwa [if_neg hstops] at h

theorem addPriceLevel_steady (new : LevelPtr) : Steady fun fuel => s.addPriceLevel fuel new := by
  simp only [addPriceLevel]
  generalize s.setPriceLevel (priceToIndex (s.level new).price) (some new) = t
  cases t.best (t.level new).side with
  | none => exact steady_const _
  | some best =>
    dsimp only
    split
    · exact steady_const _
    · refine (steady_const _).bind fun first => ?_
      exact (findPosition_steady t new best first false).bind fun r => steady_const _

theorem addOrder_steady (p : OrderPtr) : Steady fun fuel => s.addOrder fuel p := by
  simp only [addOrder]
  cases s.getPriceLevel (s.order p).side (s.order p).price with
  | none =>
    refine (steady_const _).bind fun r => ?_
    exact (addPriceLevel_steady _ r.2).bind fun t => steady_const _
  | some l => exact steady_const _

theorem matchLoop_steady (clientId : ClientId) (clientOrderId newMarketOrderId : OrderId)
    (side : Side) (price : Price) (leavesQty : Quantity) : Steady fun fuel =>
      matchLoop clientId clientOrderId newMarketOrderId side price fuel s leavesQty := by
  refine steady_of_succ fun fuel r h => ?_
  induction fuel generalizing s leavesQty with
  | zero => cases h
  | succ fuel ih =>
    rw [matchLoop] at h ⊢
    cases hopposite : (if side = .buy then s.ask else s.bid) with
    | none => simpa only [hopposite] using h
    | some l =>
      simp only [hopposite] at h ⊢
      split
      · rename_i hdone
        rwa [if_pos hdone] at h
      · rename_i hdone
        rw [if_neg hdone] at h
        obtain ⟨p, hp, h⟩ := bind_eq_ok.mp h
        rw [hp, ok_bind]
        by_cases hworse : if side = .buy then price < (s.order p).price else (s.order p).price < price
        · simpa only [if_pos hworse] using h
        · simp only [if_neg hworse] at h ⊢
          obtain ⟨⟨t, leavesQty'⟩, ht, h⟩ := bind_eq_ok.mp h
          rw [ht, ok_bind]
          exact ih _ _ h

theorem add_steady (clientId : ClientId) (clientOrderId : OrderId) (side : Side) (price : Price)
    (quantity : Quantity) :
    Steady fun fuel => s.add fuel clientId clientOrderId side price quantity := by
  simp only [add, accept, checkForMatch]
  refine (matchLoop_steady _ _ _ _ _ _ _).bind fun r => ?_
  split
  · simp only [book]
    refine (steady_const _).bind fun priority => (steady_const _).bind fun q => ?_
    exact (addOrder_steady _ q.2).bind fun t => steady_const _
  · exact steady_const _

/-- A call that returns needs no more fuel. -/
theorem call_steady (c : BookRequest) : Steady fun fuel => s.call fuel c := by
  cases c with
  | add => exact add_steady s _ _ _ _ _
  | cancel => exact steady_const _
  | modify clientId clientOrderId price quantity =>
    simp only [call, modify]
    refine (steady_const _).bind fun found => ?_
    cases found with
    | none => exact steady_const _
    | some p =>
      dsimp only
      split
      · exact (steady_const _).bind fun t => add_steady t _ _ _ _ _
      · exact steady_const _

end Fuel

end OrderBook

end StockExchange
