import StockExchange.Instruments
import StockExchange.LifeCycle
import StockExchange.PositionKeeper
import Mathlib.Algebra.BigOperators.Group.Finset.Basic
import Mathlib.Algebra.BigOperators.Ring.Finset

/-!
# Clearing

Each execution is reported to a buyer and to a seller. Over all clients of an instrument the
positions cancel, and so do the profits and losses once everyone values what is open at the
same best bid and offer. That is said of exact accounts: the source rounds, as its entry values,
profits and mid prices are of type `double`.
-/

namespace StockExchange

open BookView Replay Transitions

/-- The `FILLED` responses to one client. -/
def fillsFor (c : ClientId) (ms : List Message) : List ClientResponseInternal :=
  (fills ms).filter fun r => r.clientId = c

/-- The volume that the public updates report. -/
def tradedOn (us : List MarketUpdate) : ℕ :=
  ((us.filter fun u => u.type = .trade).map (·.qty.toNat)).sum

/-! ## Sums over the clients -/

/-- A sum over a list is the sum over the parts that share a key. -/
theorem sum_parts {α κ M : Type*} [DecidableEq κ] [AddCommMonoid M] (key : α → κ) (g : α → M)
    (ks : Finset κ) (xs : List α) (h : ∀ x ∈ xs, key x ∈ ks) :
    ∑ k ∈ ks, ((xs.filter fun x => key x = k).map g).sum = (xs.map g).sum := by
  induction xs with
  | nil => simp
  | cons x xs ih =>
    have hx := h x List.mem_cons_self
    have hsplit (k : κ) : (((x :: xs).filter fun x => key x = k).map g).sum =
        (if key x = k then g x else 0) + ((xs.filter fun x => key x = k).map g).sum := by
      by_cases hk : key x = k <;> simp [hk]
    rw [Finset.sum_congr rfl fun k _ => hsplit k, Finset.sum_add_distrib,
      Finset.sum_ite_eq ks (key x), if_pos hx, ih fun y hy => h y (List.mem_cons_of_mem _ hy),
      List.map_cons, List.sum_cons]

section Messages
variable {ms ns : List Message}

theorem tradedOn_append (us vs : List MarketUpdate) :
    tradedOn (us ++ vs) = tradedOn us + tradedOn vs := by
  rw [tradedOn, List.filter_append, List.map_append, List.sum_append]
  rfl

theorem netQty_append (rs qs : List ClientResponseInternal) :
    netQty (rs ++ qs) = netQty rs + netQty qs := by
  rw [netQty, List.map_append, List.sum_append]
  rfl

theorem netCash_append (rs qs : List ClientResponseInternal) :
    netCash (rs ++ qs) = netCash rs + netCash qs := by
  rw [netCash, List.map_append, List.sum_append]
  rfl

theorem tradedQty_append (rs qs : List ClientResponseInternal) :
    tradedQty (rs ++ qs) = tradedQty rs + tradedQty qs := by
  rw [tradedQty, List.map_append, List.sum_append]
  rfl

/-- What the two sides of an execution gain and lose cancels. -/
theorem IsExecution.cancels {a b : ClientResponseInternal} {t : MarketUpdate}
    (h : IsExecution a b t) : signedQty a + signedQty b = 0 := by
  have hqty : a.execQty = b.execQty := h.qty.1.trans h.qty.2.symm
  rw [signedQty, signedQty, hqty]
  have hopposite : (sideToValue a.side).toInt + (sideToValue b.side).toInt = 0 := by
    rcases h.sides with ⟨ha, hb⟩ | ⟨ha, hb⟩ <;> rw [ha, hb] <;> decide
  rw [← Int.add_mul, hopposite, Int.zero_mul]

/-- Of executions reported in threes the quantities and the cash cancel, and the volume is
counted once on either side. -/
theorem Paired.clears (h : Paired ms) : netQty (fills ms) = 0 ∧ netCash (fills ms) = 0 ∧
    tradedQty (fills ms) = 2 * tradedOn (updates ms) := by
  induction h with
  | nil => exact ⟨rfl, rfl, rfl⟩
  | @execution ms a b t _ h ih =>
    obtain ⟨hqty, hcash, htraded⟩ := ih
    have hfills : fills [.response a, .response b, .update t] = [a, b] := by
      simp [fills, h.types.1, h.types.2.1]
    have hcancels := h.cancels
    have hprice : a.price = b.price := h.price.1.trans h.price.2.symm
    have hupdates : tradedOn (updates [.response a, .response b, .update t]) = t.qty.toNat := by
      simp [tradedOn, updates, h.types.2.2]
    rw [fills_append, hfills, updates_append, tradedOn_append, hupdates, netQty_append,
      netCash_append, tradedQty_append, hqty, hcash, htraded]
    refine ⟨?_, ?_, ?_⟩
    · simpa [netQty] using hcancels
    · simp only [netCash, List.map_cons, List.map_nil, List.sum_cons, List.sum_nil, hprice]
      linear_combination -(b.price.toInt : ℤ) * hcancels
    · simp only [tradedQty, List.map_cons, List.map_nil, List.sum_cons, List.sum_nil, h.qty.1,
        h.qty.2]
      ring
  | @other ms m _ h ih =>
    have hfills : fills [m] = [] ∧ tradedOn (updates [m]) = 0 := by
      cases m with
      | response r =>
        have hr : r.type ≠ .filled := by simpa [reportsExecution] using h
        simp [fills, updates, tradedOn, hr]
      | update u =>
        have hu : u.type ≠ .trade := by simpa [reportsExecution] using h
        simp [fills, updates, tradedOn, hu]
    rw [fills_append, hfills.1, List.append_nil, updates_append, tradedOn_append, hfills.2]
    exact ih

end Messages

namespace BookView

/-- Every stage of a call reports executions in threes. -/
theorem paired_stages : Stages (fun v => v.Priced ∧ Paired v.sent)
    (fun a v _ => Named a.side ∧ v.Priced ∧ Paired v.sent) SamePrice where
  named _ _ hv h ho := h.1.named hv ho
  accepted v _ _ _ _ _ _ h hn := ⟨hn, priced_structural.report v _ _ h.1, .other h.2 rfl⟩
  fill a v leavesQty o hv h hhead ho _ :=
    ⟨h.1, priced_structural.fill hv h.2.1 a ho leavesQty,
      paired_fill hv h.2.1 h.1 hhead leavesQty h.2.2⟩
  filled _ _ h := h.2
  book a v leavesQty p rest hv h _ hfree same hprice := by
    refine ⟨?_, ?_⟩
    · rw [book_eq hfree]
      exact priced_structural.send _ (priced_structural.addOrder v (v.bookedOrder p a.clientId
        a.clientOrderId a.marketOrderId a.side a.price leavesQty) rest hv h.2.1 hfree same
        ⟨hprice, h.1⟩)
    · rw [sent_book hfree]
      exact .other h.2.2 rfl
  cancelOrder v _ _ o hv h ho := by
    refine ⟨priced_structural.send _ (priced_structural.removeOrder v o hv ho h.1), h.2.others ?_⟩
    simp only [List.forall_mem_cons, List.not_mem_nil, false_implies, implies_true, and_true]
    exact ⟨rfl, rfl⟩
  reduce v _ _ o qty hv h _ _ := by
    refine ⟨priced_structural.send _ (priced_structural.setQty v o.handle qty hv h.1),
      h.2.others ?_⟩
    simp only [List.forall_mem_cons, List.not_mem_nil, false_implies, implies_true, and_true]
    exact ⟨rfl, rfl⟩
  reject v type _ _ htype h := by
    refine ⟨priced_structural.send _ h.1, .other h.2 ?_⟩
    rcases htype with rfl | rfl <;> rfl

end BookView

/-- Whatever a book did, its executions were reported in threes. -/
theorem keepsPrices_paired {fuel : Nat} {i : InstrumentId} {rs : List OrderBook.BookRequest}
    {s : OrderBook} (hfuel : maxNumOrders < fuel)
    (h : Reached (OrderBook.call fuel) (OrderBook.KeepsPrices fuel) (.create i) rs s) :
    Paired s.sent := by
  obtain ⟨hr, -, -, hpaired⟩ : Simulates (fun v => v.Priced ∧ Paired v.sent) s
      (rs.foldl BookView.call (.create i)) := by
    refine reached_simulates hfuel ⟨create_priced i, .nil⟩ ?_ h
    intro s v r hr hv hi ha _
    have hprices := keepsPrices_books hfuel hr hv ha
    exact ⟨books_mono (fun _ _ _ => SamePrice.same) hprices, fun hadm =>
      paired_stages.call hv hi ha.2.1 hadm hprices⟩
  rwa [← hr.sent] at hpaired

/-! ## Profit and loss at one BBO -/

namespace PositionInfo

/-- `position_info_t::update_bbo`. What is open is valued at the mid price, without rounding. -/
def updateBbo (p : PositionInfo) (bbo : Bbo) : PositionInfo :=
  if p.position ≠ 0 ∧ bbo.bidPrice ≠ invalidPrice ∧ bbo.askPrice ≠ invalidPrice then
    let midPrice : Rat := (bbo.bidPrice + bbo.askPrice).toInt * (1 / 2)
    let unrealizedPnl :=
      if 0 < p.position then
        (midPrice - p.buyOpenVwap / p.position.abs.toInt) * p.position.abs.toInt
      else (p.sellOpenVwap / p.position.abs.toInt - midPrice) * p.position.abs.toInt
    { p with unrealizedPnl := unrealizedPnl, totalPnl := unrealizedPnl + p.realizedPnl }
  else p

section Value
variable {p : PositionInfo} {rs : List ClientResponseInternal} {r : ClientResponseInternal}
  {overflow : Int32 → Int32 → Option Int32} {bbo : Bbo}

/-- With a bid and an ask, profit and loss are what was received and paid, and what the position
is worth at the mid price. -/
theorem Accounts.updateBbo (h : p.Accounts rs) (hsmall : p.position.toInt.natAbs < 2 ^ 31)
    (hflat : p.position = 0 → p.totalPnl = netCash rs) (hbid : bbo.bidPrice ≠ invalidPrice)
    (hask : bbo.askPrice ≠ invalidPrice) : (p.updateBbo bbo).totalPnl =
      netCash rs + netQty rs * ((bbo.bidPrice + bbo.askPrice).toInt * (1 / 2)) := by
  have hcash := h.balanced.cash
  have hbuy : ¬ 0 < p.position.toInt * 1 → p.buyOpenVwap = 0 := h.balanced.own_zero
  have hsell : ¬ p.position.toInt * 1 < 0 → p.sellOpenVwap = 0 := h.balanced.other_zero
  simp only [ledger, if_true, Int.cast_one, one_mul] at hcash
  by_cases hzero : p.position = 0
  · have hnet : netQty rs = 0 := by
      rw [← h.position, hzero]
      rfl
    rw [PositionInfo.updateBbo, if_neg fun hquoted => hquoted.1 hzero, hflat hzero, hnet]
    simp
  · have habs := toInt_abs hsmall
    have hnet : p.position.toInt ≠ 0 := fun h => hzero (Int32.toInt_inj.mp h)
    have hcast : ((p.position.toInt.natAbs : ℤ) : ℚ) ≠ 0 := by
      rw [Int.cast_ne_zero]
      omega
    rw [PositionInfo.updateBbo, if_pos ⟨hzero, hbid, hask⟩, ← h.position]
    generalize ((bbo.bidPrice + bbo.askPrice).toInt * (1 / 2) : ℚ) = mid
    dsimp only
    by_cases hlong : 0 < p.position
    · have hpos : 0 < p.position.toInt := Int32.lt_iff_toInt_lt.mp hlong
      have hvalue : ((p.position.toInt.natAbs : ℤ) : ℚ) = p.position.toInt := by
        rw [Int.cast_inj]
        omega
      have hpaid := div_mul_cancel₀ p.buyOpenVwap hcast
      rw [if_pos hlong, habs]
      rw [hsell (by omega)] at hcash
      linear_combination hcash - hpaid + mid * hvalue
    · have hneg : p.position.toInt < 0 := by
        have hle : ¬ 0 < p.position.toInt := fun h => hlong (Int32.lt_iff_toInt_lt.mpr h)
        omega
      have hvalue : ((p.position.toInt.natAbs : ℤ) : ℚ) = -p.position.toInt := by
        rw [← Int.cast_neg, Int.cast_inj]
        omega
      have hreceived := div_mul_cancel₀ p.sellOpenVwap hcast
      rw [if_neg hlong, habs]
      rw [hbuy (by omega)] at hcash
      linear_combination hcash + hreceived - mid * hvalue

theorem revalue_volume (p : PositionInfo) (price : Price) :
    (p.revalue price).volume = p.volume := by
  unfold revalue
  split
  · rfl
  · split <;> rfl

theorem addFill_volume {p' : PositionInfo} (h : p.addFill overflow r = some p') :
    p'.volume = p.volume + r.execQty := by
  simp only [addFill, Option.bind_eq_bind] at h
  obtain ⟨t, -, hp'⟩ := Option.bind_eq_some_iff.mp h
  rw [← Option.some.inj hp', revalue_volume]

theorem addFills_volume (hp : addFills overflow .default rs = some p)
    (hvolume : tradedQty rs < 2 ^ 32) : p.volume.toNat = tradedQty rs := by
  induction rs using List.reverseRecOn generalizing p with
  | nil =>
    cases hp
    rfl
  | append_singleton rs r ih =>
    rw [addFills_concat] at hp
    obtain ⟨q, hq, hfill⟩ := Option.bind_eq_some_iff.mp hp
    rw [tradedQty_concat] at hvolume ⊢
    rw [addFill_volume hfill, UInt32.toNat_add, ih hq (by omega)]
    exact Nat.mod_eq_of_lt hvolume

/-- What a client has after its fills, valued at a BBO. -/
theorem addFills_value (overflow : Int32 → Int32 → Option Int32) (hwithin : WithinTypes rs)
    (hno : NoOverflow rs) (hbid : bbo.bidPrice ≠ invalidPrice)
    (hask : bbo.askPrice ≠ invalidPrice) :
    ∃ p, addFills overflow .default rs = some p ∧ p.position.toInt = netQty rs ∧
      (p.updateBbo bbo).totalPnl =
        netCash rs + netQty rs * ((bbo.bidPrice + bbo.askPrice).toInt * (1 / 2)) ∧
      p.volume.toNat = tradedQty rs := by
  obtain ⟨p, hp, haccounts, hexact⟩ := addFills_accounts overflow hwithin hno
  have hnet := natAbs_netQty_le rs
  have hvolume := hwithin.volume
  refine ⟨p, hp, haccounts.position, haccounts.updateBbo ?_ (fun hflat => ?_) hbid hask,
    addFills_volume hp (by omega)⟩
  · rw [haccounts.position]
    omega
  · rcases List.eq_nil_or_concat rs with rfl | ⟨before, last, rfl⟩
    · cases hp
      rfl
    · have htotal := hexact.totalPnl last (by simp)
      have hzero : p.position.toInt = 0 := congrArg Int32.toInt hflat
      rw [htotal, hzero]
      simp

end Value

end PositionInfo

namespace Exchange

section Clearing
variable {fuel : Nat} {x : Exchange} {rs : List ClientRequestInternal} {i : Nat}

/-- In every run, the clients of an instrument have positions that cancel and, valued at one BBO
in exact arithmetic, profits and losses that cancel; the volumes they count are twice what the
feed reports. -/
theorem accounts_clear (hfuel : maxNumOrders < fuel)
    (h : Reached (processClientRequest fuel) (KeepsPrices fuel) create rs x)
    (hi : i < maxNumInstruments) (clients : Finset ClientId)
    (hclients : ∀ r ∈ fills (x.engine.instrumentOrderBooks i).sent, r.clientId ∈ clients)
    (hwithin : ∀ c ∈ clients, WithinTypes (fillsFor c (x.engine.instrumentOrderBooks i).sent) ∧
      NoOverflow (fillsFor c (x.engine.instrumentOrderBooks i).sent))
    (overflow : Int32 → Int32 → Option Int32) {bbo : Bbo} (hbid : bbo.bidPrice ≠ invalidPrice)
    (hask : bbo.askPrice ≠ invalidPrice) :
    ∃ p : ClientId → PositionInfo,
      (∀ c ∈ clients, PositionInfo.addFills overflow .default
        (fillsFor c (x.engine.instrumentOrderBooks i).sent) = some (p c)) ∧
      ∑ c ∈ clients, (p c).position.toInt = 0 ∧
      ∑ c ∈ clients, ((p c).updateBbo bbo).totalPnl = 0 ∧
      ∑ c ∈ clients, (p c).volume.toNat =
        2 * tradedOn (ofInstrument (UInt8.ofNat i) x.stream) := by
  obtain ⟨hbook, hstream⟩ := books_reached h i hi
  obtain ⟨hqty, hcash, htraded⟩ := (keepsPrices_paired hfuel hbook).clears
  rw [hstream]
  generalize (x.engine.instrumentOrderBooks i).sent = ms at hclients hwithin hqty hcash htraded ⊢
  have hparts {M : Type} [AddCommMonoid M] (g : ClientResponseInternal → M) :
      ∑ c ∈ clients, ((fillsFor c ms).map g).sum = ((fills ms).map g).sum :=
    sum_parts ClientResponseInternal.clientId g clients (fills ms) hclients
  have hvalue : ∀ c, ∃ p, c ∈ clients →
      PositionInfo.addFills overflow .default (fillsFor c ms) = some p ∧
      p.position.toInt = netQty (fillsFor c ms) ∧
      (p.updateBbo bbo).totalPnl = netCash (fillsFor c ms) +
        netQty (fillsFor c ms) * ((bbo.bidPrice + bbo.askPrice).toInt * (1 / 2)) ∧
      p.volume.toNat = tradedQty (fillsFor c ms) := by
    intro c
    by_cases hc : c ∈ clients
    · obtain ⟨p, hp⟩ :=
        PositionInfo.addFills_value overflow (hwithin c hc).1 (hwithin c hc).2 hbid hask
      exact ⟨p, fun _ => hp⟩
    · exact ⟨.default, fun hc' => absurd hc' hc⟩
  choose p hp using hvalue
  have hnet : ∑ c ∈ clients, netQty (fillsFor c ms) = 0 := (hparts signedQty).trans hqty
  have hpaid : ∑ c ∈ clients, netCash (fillsFor c ms) = 0 := (hparts _).trans hcash
  refine ⟨p, fun c hc => (hp c hc).1, ?_, ?_, ?_⟩
  · rw [Finset.sum_congr rfl fun c hc => (hp c hc).2.1, hnet]
  · rw [Finset.sum_congr rfl fun c hc => (hp c hc).2.2.1, Finset.sum_add_distrib,
      ← Finset.sum_mul, ← Int.cast_sum, ← Int.cast_sum, hnet, hpaid]
    simp
  · rw [Finset.sum_congr rfl fun c hc => (hp c hc).2.2.2, ← htraded]
    exact hparts _

/-- Three clients, one of which buys and sells again at a better price. -/
theorem accounts_clear_sample : ∃ (x : Exchange) (p : ClientId → PositionInfo),
    Reached (processClientRequest 3000) (KeepsPrices 3000) create
      [⟨.new, 1, 0, 1, .sell, 12, 8⟩, ⟨.new, 2, 0, 1, .buy, 12, 5⟩, ⟨.new, 3, 0, 1, .buy, 14, 4⟩,
        ⟨.new, 2, 0, 2, .sell, 14, 1⟩] x ∧
    (∀ c ∈ ({1, 2, 3} : Finset ClientId), PositionInfo.addFills (fun _ _ => none) .default
      (fillsFor c (x.engine.instrumentOrderBooks 0).sent) = some (p c)) ∧
    ∑ c ∈ ({1, 2, 3} : Finset ClientId), (p c).position.toInt = 0 ∧
    ∑ c ∈ ({1, 2, 3} : Finset ClientId), ((p c).updateBbo ⟨11, 15, 1, 1⟩).totalPnl = 0 ∧
    ∑ c ∈ ({1, 2, 3} : Finset ClientId), (p c).volume.toNat = 18 := by
  obtain ⟨x, hx, hcheck⟩ := @reached_of_any _ _ _ (processClientRequest 3000) (KeepsPrices 3000)
    create
    [⟨.new, 1, 0, 1, .sell, 12, 8⟩, ⟨.new, 2, 0, 1, .buy, 12, 5⟩, ⟨.new, 3, 0, 1, .buy, 14, 4⟩,
      ⟨.new, 2, 0, 2, .sell, 14, 1⟩] _
    (fun x => tradedOn (ofInstrument 0 x.stream) = 9 ∧
      (∀ r ∈ fills (x.engine.instrumentOrderBooks 0).sent, r.clientId ∈ [1, 2, 3]) ∧
      -- `∀ c ∈ [1, 2, 3]` could be decided by a search through all ids
      [1, 2, 3].all fun c =>
        (∀ r ∈ fillsFor c (x.engine.instrumentOrderBooks 0).sent, 0 < r.execQty) ∧
        tradedQty (fillsFor c (x.engine.instrumentOrderBooks 0).sent) < 2 ^ 31 ∧
        (∀ r ∈ fillsFor c (x.engine.instrumentOrderBooks 0).sent,
          -2 ^ 63 ≤ r.price.toInt * r.execQty.toNat ∧
            r.price.toInt * r.execQty.toNat < 2 ^ 63) ∧
        (PositionInfo.addFills (fun _ _ => none) .default
          (fillsFor c (x.engine.instrumentOrderBooks 0).sent)).isSome) (by decide +kernel)
  obtain ⟨htraded, hlisted, hfills⟩ := of_decide_eq_true hcheck
  have hmem {c : ClientId} : c ∈ ({1, 2, 3} : Finset ClientId) ↔ c ∈ [1, 2, 3] := by simp
  have hclients : ∀ r ∈ fills (x.engine.instrumentOrderBooks 0).sent,
      r.clientId ∈ ({1, 2, 3} : Finset ClientId) := fun r hr => hmem.mpr (hlisted r hr)
  have hwithin : ∀ c ∈ ({1, 2, 3} : Finset ClientId),
      WithinTypes (fillsFor c (x.engine.instrumentOrderBooks 0).sent) ∧
        NoOverflow (fillsFor c (x.engine.instrumentOrderBooks 0).sent) := by
    intro c hc
    obtain ⟨hpositive, hvolume, hproducts, hsome⟩ :=
      of_decide_eq_true (List.all_eq_true.mp hfills c (hmem.mp hc))
    obtain ⟨q, hq⟩ := Option.isSome_iff_exists.mp hsome
    have hwithin : WithinTypes _ := ⟨hpositive, hvolume, hproducts⟩
    exact ⟨hwithin, PositionInfo.noOverflow_of_addFills hwithin hq⟩
  have hbid : (⟨11, 15, 1, 1⟩ : Bbo).bidPrice ≠ invalidPrice := by decide
  have hask : (⟨11, 15, 1, 1⟩ : Bbo).askPrice ≠ invalidPrice := by decide
  obtain ⟨p, hp, hnet, htotal, hvolume⟩ := accounts_clear (by decide) hx (by decide) {1, 2, 3}
    hclients hwithin (fun _ _ => none) hbid hask
  exact ⟨x, p, hx, hp, hnet, htotal, hvolume.trans (congrArg (2 * ·) htraded)⟩

end Clearing

end Exchange

end StockExchange
