import StockExchange.BookEmbedding
import StockExchange.ReferenceBook
import Mathlib.Data.UInt

/-!
# The client's book mirrors the feed

A replay of the updates keeps the live orders by arrival. The levels of the client's book
are those of the live orders, as long as no order is added at a price that had orders when
the book was cleared, or opens a level between the last two of a side.
-/

namespace StockExchange

open Ring BookView MarketOrderBook

/-- An order whose quantity an update for `id` sets. -/
def MarketOrderFields.amend (id : OrderId) (qty : Quantity) (o : MarketOrderFields) :
    MarketOrderFields :=
  if o.marketOrderId = id then { o with qty := qty } else o

theorem MarketOrderFields.amend_key (id : OrderId) (qty : Quantity) (o : MarketOrderFields) :
    (o.amend id qty).side = o.side ∧ (o.amend id qty).price = o.price := by
  unfold amend
  split <;> exact ⟨rfl, rfl⟩

/-- The live orders by arrival, and the prices that had orders at a `CLEAR`. -/
structure Replay where
  live : List MarketOrderFields
  cleared : List Price

namespace Replay

def create : Replay := ⟨[], []⟩

def step (r : Replay) (u : MarketUpdate) : Replay :=
  if u.type = .add then
    { r with live := r.live ++ [⟨u.orderId, u.side, u.price, u.qty, u.priority⟩] }
  else if u.type = .modify then
    { r with live := r.live.map (.amend u.orderId u.qty) }
  else if u.type = .cancel then
    { r with live := r.live.filter fun o => o.marketOrderId ≠ u.orderId }
  else if u.type = .clear then ⟨[], r.live.map (·.price) ++ r.cleared⟩
  else r

section Step
variable {r : Replay} {u : MarketUpdate}

theorem step_add (h : u.type = .add) : r.step u =
    { r with live := r.live ++ [⟨u.orderId, u.side, u.price, u.qty, u.priority⟩] } :=
  if_pos h

theorem step_modify (h : u.type = .modify) :
    r.step u = { r with live := r.live.map (.amend u.orderId u.qty) } := by
  rw [step, if_neg (by rw [h]; decide), if_pos h]

theorem step_cancel (h : u.type = .cancel) :
    r.step u = { r with live := r.live.filter fun o => o.marketOrderId ≠ u.orderId } := by
  rw [step, if_neg (by rw [h]; decide), if_neg (by rw [h]; decide), if_pos h]

theorem step_clear (h : u.type = .clear) :
    r.step u = ⟨[], r.live.map (·.price) ++ r.cleared⟩ := by
  rw [step, if_neg (by rw [h]; decide), if_neg (by rw [h]; decide), if_neg (by rw [h]; decide),
    if_pos h]

theorem step_trade (h : u.type = .trade) : r.step u = r := by
  rw [step, if_neg (by rw [h]; decide), if_neg (by rw [h]; decide), if_neg (by rw [h]; decide),
    if_neg (by rw [h]; decide)]

end Step

/-- A fresh order at a price that is not live on the other side. -/
def AdmitsAdd (r : Replay) (u : MarketUpdate) : Prop :=
  u.orderId.toNat < maxNumOrders ∧ (∀ o ∈ r.live, o.marketOrderId ≠ u.orderId) ∧
    (u.side = .buy ∨ u.side = .sell) ∧ InRange u.price ∧
    ∀ o ∈ r.live, o.price = u.price → o.side = u.side

/-- The update is about a live order and keeps its side and price. -/
def AdmitsChange (r : Replay) (u : MarketUpdate) : Prop :=
  ∃ o ∈ r.live, o.marketOrderId = u.orderId ∧ o.side = u.side ∧ o.price = u.price

/-- The update may come next in a valid replay. -/
def Admits (r : Replay) (u : MarketUpdate) : Prop :=
  (u.type = .add → r.AdmitsAdd u) ∧
  (u.type = .modify ∨ u.type = .cancel → r.AdmitsChange u) ∧
  u.type ∈ [MarketUpdateType.add, .modify, .cancel, .trade, .clear]

/-- A price without orders, one worse price and at least two better ones on its side. -/
def BetweenWorst (r : Replay) (side : Side) (price : Price) : Prop :=
  (∀ o ∈ r.live, o.side = side → o.price ≠ price) ∧
  (∃ w ∈ r.live, w.side = side ∧ betterPrice price w.price side ∧
    ∀ o ∈ r.live, o.side = side → betterPrice price o.price side → o.price = w.price) ∧
  ∃ b ∈ r.live, ∃ u ∈ r.live, b.side = side ∧ u.side = side ∧
    betterPrice b.price u.price side ∧ betterPrice u.price price side

/-- An order added at a price that was never cleared away, and not between the last two
levels of its side. -/
def KeepsLevels (r : Replay) (u : MarketUpdate) : Prop :=
  u.type = .add → u.price ∉ r.cleared ∧ ¬ r.BetweenWorst u.side u.price

/-- What holds of each update of a replay. -/
def Along (P : Replay → MarketUpdate → Prop) : Replay → List MarketUpdate → Prop
  | _, [] => True
  | r, u :: us => P r u ∧ Along P (r.step u) us

instance (r : Replay) (u : MarketUpdate) : Decidable (r.AdmitsAdd u) :=
  inferInstanceAs (Decidable (_ ∧ _))

instance (r : Replay) (u : MarketUpdate) : Decidable (r.AdmitsChange u) :=
  inferInstanceAs (Decidable (∃ o ∈ r.live, _))

instance (r : Replay) (u : MarketUpdate) : Decidable (r.Admits u) :=
  inferInstanceAs (Decidable (_ ∧ _))

instance (r : Replay) (side : Side) (price : Price) : Decidable (r.BetweenWorst side price) :=
  inferInstanceAs (Decidable (_ ∧ _))

instance (r : Replay) (u : MarketUpdate) : Decidable (r.KeepsLevels u) :=
  inferInstanceAs (Decidable (_ → _))

instance along (P : Replay → MarketUpdate → Prop) [∀ r u, Decidable (P r u)] :
    ∀ r us, Decidable (Along P r us)
  | _, [] => .isTrue trivial
  | r, u :: us =>
    haveI := along P (r.step u) us
    inferInstanceAs (Decidable (P r u ∧ Along P (r.step u) us))

end Replay

namespace MarketOrderBook

/-- The levels reachable from `bid_` and `ask_`, best price first, with their orders in ring
order, are the live orders. -/
def Mirrors (m : MarketOrderBook) (live : List MarketOrderFields) : Prop :=
  ∀ side, side = .buy ∨ side = .sell → ∃ ls : List LevelPtr,
    m.best side = ls.head? ∧
    IsRing (fun l => (m.level l).nextEntry) (fun l => (m.level l).prevEntry) ls ∧
    ls.Pairwise (fun l k => betterPrice (m.level l).price (m.level k).price side) ∧
    (∀ l ∈ ls, (m.level l).side = side ∧ ∃ ps : List OrderPtr, ps ≠ [] ∧
      (m.level l).firstOrder = ps.head? ∧
      IsRing (fun p => (m.order p).nextOrder) (fun p => (m.order p).prevOrder) ps ∧
      ps.map (fun p => (m.order p).toMarketOrderFields) =
        live.filter fun o => o.side = side ∧ o.price = (m.level l).price) ∧
    ∀ o ∈ live, o.side = side → ∃ l ∈ ls, (m.level l).price = o.price

end MarketOrderBook

def OrderView.asMarket (o : OrderView) : MarketOrderFields :=
  ⟨o.marketOrderId, o.side, o.price, o.qty, o.priority⟩

/-- The view of the client's book stands for the replay. -/
structure InStep (m : MarketOrderBook) (v : BookView) (r : Replay) : Prop where
  represents : Represents (m.asBook r.cleared) v
  valid : v.Valid
  keyed : v.Keyed
  sorted : ∀ side, (v.own side).Pairwise fun l k => betterPrice l.price k.price side
  orders : ∀ l ∈ v.levels, l.orders.map OrderView.asMarket =
    r.live.filter fun o => o.side = l.side ∧ o.price = l.price
  covers : ∀ o ∈ r.live, ∃ l ∈ v.levels, l.side = o.side ∧ l.price = o.price
  range : ∀ o ∈ r.live, InRange o.price
  sides : ∀ o ∈ r.live, o.side = .buy ∨ o.side = .sell
  cleared : ∀ p ∈ r.cleared, InRange p

section InStep
variable {m : MarketOrderBook} {v : BookView} {r : Replay} {o : OrderView}

theorem create_inStep (i : InstrumentId) :
    InStep (MarketOrderBook.create i) (BookView.create i) .create := by
  have hbase := create_represents i
  have horders := @MemoryPool.Owns.create _ MarketOrder.default.asOrder maxNumOrders
    (by simp [maxNumOrders]) (by simp [maxNumOrders, MemoryPool.endOfChain])
  have hrep : Represents ((MarketOrderBook.create i).asBook []) (BookView.create i) := by
    refine ⟨rfl, fun side => ⟨(hbase.sides side).head, (hbase.sides side).ring⟩,
      by simp [BookView.create, BookView.levels], fun j => ?_, ?_, hbase.levelPool, ?_, rfl, rfl⟩
    · change (if Stale [] j then none else none) = none
      exact ite_self _
    · have hpool : ((MarketOrderBook.create i).asBook []).orderPool =
          MemoryPool.create MarketOrder.default.asOrder maxNumOrders :=
        MemoryPool.map_create MarketOrder.asOrder MarketOrder.default maxNumOrders
      rw [hpool]
      simpa [BookView.create, BookView.orders, BookView.levels] using horders
    · funext c j
      exact ite_self _
  refine ⟨hrep, create_valid i, ?_, fun side => ?_, ?_, ?_, ?_, ?_, ?_⟩
  · simp [Keyed, BookView.create, BookView.orders, BookView.levels]
  · by_cases hs : side = .buy <;> simp [own, BookView.create, hs]
  · simp [BookView.create, BookView.levels]
  all_goals simp [Replay.create]

/-- An order of the view is one of the replay. -/
theorem InStep.mem_live (h : InStep m v r) (ho : o ∈ v.orders) : o.asMarket ∈ r.live := by
  obtain ⟨l, hl, ho⟩ := v.mem_orders.mp ho
  have hmem := h.orders l hl ▸ List.mem_map_of_mem ho
  exact List.mem_of_mem_filter hmem

/-- And the other way round. -/
theorem InStep.exists_order (h : InStep m v r) {x : MarketOrderFields} (hx : x ∈ r.live) :
    ∃ l ∈ v.levels, ∃ o ∈ l.orders, o.asMarket = x := by
  obtain ⟨l, hl, hside, hprice⟩ := h.covers x hx
  have hmem : x ∈ l.orders.map OrderView.asMarket := by
    rw [h.orders l hl]
    simp [hx, hside, hprice]
  obtain ⟨o, ho, heq⟩ := List.mem_map.mp hmem
  exact ⟨l, hl, o, ho, heq⟩

/-- An order of the view has the fields of a market order. -/
theorem InStep.fields (h : InStep m v r) (ho : o ∈ v.orders) :
    (m.order o.handle).toMarketOrderFields = o.asMarket ∧ o.clientId = 0 ∧
      o.clientOrderId = o.marketOrderId := by
  have hfields : ((m.order o.handle).toMarketOrderFields).asFields = o.toOrderFields :=
    h.represents.fields ho
  refine ⟨?_, ?_, ?_⟩
  · rw [OrderView.asMarket, ← hfields]
    rfl
  · rw [← hfields]
    rfl
  · rw [← hfields]
    rfl

/-- A market order id names one order. -/
theorem InStep.order_eq (h : InStep m v r) {o' : OrderView} (ho : o ∈ v.orders)
    (ho' : o' ∈ v.orders) (same : o.marketOrderId = o'.marketOrderId) : o = o' := by
  have hkey := h.keyed o ho
  have hkey' := h.keyed o' ho'
  obtain ⟨_, hc, hi⟩ := h.fields ho
  obtain ⟨_, hc', hi'⟩ := h.fields ho'
  rw [hc, hi, same] at hkey
  rw [hc', hi'] at hkey'
  exact h.valid.order_eq ho ho' (Option.some.inj (hkey.symm.trans hkey'))

/-- A level has a live order. -/
theorem InStep.exists_live (h : InStep m v r) {l : LevelView} (hl : l ∈ v.levels) :
    ∃ x ∈ r.live, x.side = l.side ∧ x.price = l.price := by
  obtain ⟨o, os, horders⟩ := List.exists_cons_of_ne_nil (h.valid.nonempty l hl)
  have hmem : o.asMarket ∈ r.live.filter fun o => o.side = l.side ∧ o.price = l.price := by
    rw [← h.orders l hl, horders]
    exact List.mem_cons_self
  obtain ⟨hlive, hkey⟩ := List.mem_filter.mp hmem
  exact ⟨_, hlive, by simpa using hkey⟩

theorem InStep.level_range (h : InStep m v r) {l : LevelView} (hl : l ∈ v.levels) :
    InRange l.price ∧ (l.side = .buy ∨ l.side = .sell) := by
  obtain ⟨x, hx, hside, hprice⟩ := h.exists_live hl
  exact ⟨hprice ▸ h.range x hx, hside ▸ h.sides x hx⟩

/-- The levels of a side carry its name. -/
theorem InStep.own_level (h : InStep m v r) {side : Side} (hside : side = .buy ∨ side = .sell)
    {l : LevelView} (hl : l ∈ v.own side) : l ∈ v.levels ∧ l.side = side := by
  have hmem := v.own_subset side hl
  refine ⟨hmem, ?_⟩
  rcases hside with rfl | rfl
  · exact h.valid.bidSide l hl
  · have hne := h.valid.askSide l (by simpa [own] using hl)
    exact (h.level_range hmem).2.resolve_left hne

/-- What the client sees is what the view says. -/
theorem InStep.mirrors (h : InStep m v r) : m.Mirrors r.live := by
  intro side hside
  have hrep := h.represents.sides side
  have hprice : ∀ l ∈ v.own side, (m.level l.handle).price = l.price := fun l hl =>
    (h.represents.level l (v.own_subset side hl)).price
  refine ⟨(v.own side).map LevelView.handle, hrep.head, hrep.ring, ?_, fun k hk => ?_,
    fun o ho hs => ?_⟩
  · rw [List.pairwise_map]
    refine (h.sorted side).imp_of_mem fun {l k} hl hk hlk => ?_
    rwa [hprice l hl, hprice k hk]
  · obtain ⟨l, hl, rfl⟩ := List.mem_map.mp hk
    obtain ⟨hmem, hsame⟩ := h.own_level hside hl
    have hlevel := h.represents.level l hmem
    refine ⟨hlevel.side.trans hsame, l.orders.map OrderView.handle, ?_, hlevel.firstOrder,
      hlevel.ring, ?_⟩
    · simpa using h.valid.nonempty l hmem
    · have hfields : ∀ o ∈ l.orders, (m.order o.handle).toMarketOrderFields = o.asMarket :=
        fun o ho => (h.fields (v.mem_orders.mpr ⟨l, hmem, ho⟩)).1
      rw [List.map_map, hprice l hl, ← hsame, ← h.orders l hmem]
      exact List.map_congr_left hfields
  · obtain ⟨l, hl, hlside, hlprice⟩ := h.covers o ho
    have hmem : l ∈ v.own side := by
      rw [← hs, ← hlside]
      exact h.valid.own_side hl
    exact ⟨l.handle, List.mem_map_of_mem hmem, (hprice l hmem).trans hlprice⟩

end InStep

section Add
variable {m : MarketOrderBook} {v : BookView} {r : Replay} {o : OrderView} {u : MarketUpdate}

/-- A fresh id below the bound leaves a block for its order. -/
theorem InStep.hasRoom (h : InStep m v r) (hid : u.orderId.toNat < maxNumOrders)
    (fresh : ∀ x ∈ r.live, x.marketOrderId ≠ u.orderId) : v.freeOrders ≠ [] := by
  intro hfull
  have hids : (v.orders.map fun o => o.marketOrderId.toNat).Nodup := by
    refine List.Nodup.map_on (fun o ho o' ho' heq => ?_) (List.Nodup.of_map _ h.valid.orders_nodup)
    exact h.order_eq ho ho' (UInt64.toNat_inj.mp heq)
  have hnew : u.orderId.toNat ∉ v.orders.map fun o => o.marketOrderId.toNat := by
    intro hmem
    obtain ⟨o, ho, heq⟩ := List.mem_map.mp hmem
    exact fresh _ (h.mem_live ho) (UInt64.toNat_inj.mp heq)
  have hsub : (u.orderId.toNat :: v.orders.map fun o => o.marketOrderId.toNat) ⊆
      List.range maxNumOrders := by
    intro j hj
    rcases List.mem_cons.mp hj with rfl | hj
    · exact List.mem_range.mpr hid
    · obtain ⟨o, ho, rfl⟩ := List.mem_map.mp hj
      exact List.mem_range.mpr ((h.fields ho).2.2 ▸ (h.valid.inTable o ho).2)
  have hlen := (List.subperm_of_subset (List.nodup_cons.mpr ⟨hnew, hids⟩) hsub).length_le
  have hall := h.valid.orderHandles.length_eq
  simp only [hfull, List.nil_append, List.length_cons, List.length_map, List.length_range]
    at hlen hall
  omega

theorem InStep.price_of_slot (h : InStep m v r) {l : LevelView} {price : Price}
    (hl : l ∈ v.levels) (hrange : InRange price) (hslot : l.slot = priceToIndex price) :
    l.price = price :=
  inRange_inj (h.level_range hl).1 hrange hslot

theorem InStep.sameSide (h : InStep m v r) (ha : r.AdmitsAdd u) : v.SameSide u.side u.price := by
  obtain ⟨_, _, _, hrange, hsame⟩ := ha
  intro l hl hslot
  obtain ⟨x, hx, hside, hprice⟩ := h.exists_live hl
  exact hside.symm.trans (hsame x hx (hprice.trans (h.price_of_slot hl hrange hslot)))

/-- Before the last level of a view is between the two worst prices of the replay. -/
theorem InStep.apart (h : InStep m v r) {side : Side} {price : Price}
    (hside : side = .buy ∨ side = .sell) (hlive : ∀ x ∈ r.live, x.side = side → x.price ≠ price)
    (hbefore : v.BeforeLast side price) : r.BetweenWorst side price := by
  obtain ⟨best, rest, u, w, hown, hu, hw⟩ := hbefore
  have hx : ∀ l ∈ v.own side, ∃ x ∈ r.live, x.side = side ∧ x.price = l.price := by
    intro l hl
    obtain ⟨hmem, hsame⟩ := h.own_level hside hl
    obtain ⟨x, hx, hs, hp⟩ := h.exists_live hmem
    exact ⟨x, hx, hs.trans hsame, hp⟩
  have hsorted := h.sorted side
  rw [hown] at hsorted hx
  have hbu : betterPrice best.price u.price side := by
    have hcons := (List.pairwise_cons.mp hsorted).1
    exact hcons u (by simp)
  obtain ⟨b, hb, hbs, hbp⟩ := hx best (by simp)
  obtain ⟨x, hx', hxs, hxp⟩ := hx u (by simp)
  obtain ⟨z, hz, hzs, hzp⟩ := hx w (by simp)
  refine ⟨hlive, ⟨z, hz, hzs, hzp ▸ hw, fun y hy hys hworse => ?_⟩,
    b, hb, x, hx', hbs, hxs, hbp ▸ hxp ▸ hbu, hxp ▸ hu⟩
  obtain ⟨l, hl, hls, hlp⟩ := h.covers y hy
  have hmem : l ∈ best :: rest ++ [u, w] := by
    rw [← hown, ← hys, ← hls]
    exact h.valid.own_side hl
  rw [← hlp] at hworse ⊢
  rw [hzp]
  have hnot : ¬ betterPrice l.price price side := by
    rw [betterPrice_asymm hworse]
    exact Bool.false_ne_true
  rcases List.mem_append.mp hmem with hl | hl
  · have hlu := (List.pairwise_append.mp hsorted).2.2 l hl u (by simp)
    exact absurd (betterPrice_trans hlu hu) hnot
  · rcases List.mem_cons.mp hl with rfl | hl
    · exact absurd hu hnot
    · rw [List.mem_singleton.mp hl]

/-- Placing an order is its arrival. -/
theorem InStep.place (h : InStep m v r) (same : v.SameSide o.side o.price)
    (hrange : InRange o.price) :
    (∀ l ∈ (v.place o).levels, l.orders.map OrderView.asMarket =
      (r.live ++ [o.asMarket]).filter fun x => x.side = l.side ∧ x.price = l.price) ∧
    ∀ x ∈ r.live ++ [o.asMarket], ∃ l ∈ (v.place o).levels,
      l.side = x.side ∧ l.price = x.price := by
  have hother : ∀ l ∈ v.levels, l.slot ≠ priceToIndex o.price → l.orders.map OrderView.asMarket =
      (r.live ++ [o.asMarket]).filter fun x => x.side = l.side ∧ x.price = l.price := by
    intro l hl hne
    have hprice : o.price ≠ l.price := fun heq => hne (by rw [LevelView.slot, ← heq])
    rw [h.orders l hl, List.filter_append]
    simp [OrderView.asMarket, hprice]
  rcases h.valid.place_cases same with ⟨l, hl, hside, hslot, heq⟩ | ⟨k, ls, _, empty, heq⟩
  · have hmem := v.own_subset _ hl
    have hprice := h.price_of_slot hmem hrange hslot
    rw [heq, levels_appended]
    constructor
    · intro l' hl'
      obtain ⟨j, hj, rfl⟩ := List.mem_map.mp hl'
      by_cases hjl : j.slot = l.slot
      · obtain rfl := h.valid.level_eq_of_slot hj hmem hjl
        rw [if_pos rfl, LevelView.append, List.map_append, h.orders j hj, List.filter_append]
        simp [OrderView.asMarket, hside, hprice]
      · rw [if_neg hjl]
        exact hother j hj (hslot ▸ hjl)
    · intro x hx
      have hkeep : ∀ j ∈ v.levels, ∃ l' ∈ v.levels.map fun k =>
          if k.slot = l.slot then k.append o else k, l'.side = j.side ∧ l'.price = j.price := by
        intro j hj
        refine ⟨_, List.mem_map_of_mem hj, ?_⟩
        split <;> exact ⟨rfl, rfl⟩
      rcases List.mem_append.mp hx with hx | hx
      · obtain ⟨j, hj, hs, hp⟩ := h.covers x hx
        obtain ⟨l', hl', hs', hp'⟩ := hkeep j hj
        exact ⟨l', hl', hs'.trans hs, hp'.trans hp⟩
      · obtain rfl := List.mem_singleton.mp hx
        obtain ⟨l', hl', hs', hp'⟩ := hkeep l hmem
        exact ⟨l', hl', hs'.trans hside, hp'.trans hprice⟩
  · have hperm := levels_newLevel v k ls o
    rw [heq]
    constructor
    · intro l' hl'
      rcases List.mem_cons.mp (hperm.mem_iff.mp hl') with rfl | hl'
      · have hnil : (r.live.filter fun x => x.side = o.side ∧ x.price = o.price) = [] := by
          rw [List.filter_eq_nil_iff]
          intro x hx hkey
          obtain ⟨j, hj, _, hp⟩ := h.covers x hx
          have hxp : x.price = o.price := (of_decide_eq_true hkey).2
          exact empty j hj (by rw [LevelView.slot, hp, hxp])
        rw [List.filter_append, hnil]
        simp [OrderView.asMarket]
      · exact hother l' hl' (empty l' hl')
    · intro x hx
      rcases List.mem_append.mp hx with hx | hx
      · obtain ⟨j, hj, hkey⟩ := h.covers x hx
        exact ⟨j, hperm.mem_iff.mpr (List.mem_cons_of_mem _ hj), hkey⟩
      · obtain rfl := List.mem_singleton.mp hx
        exact ⟨_, hperm.mem_iff.mpr List.mem_cons_self, rfl, rfl⟩

/-- A slot that is not stale points to the level of the view. -/
theorem InStep.slot (h : InStep m v r) {price : Price}
    (fresh : ¬ Stale r.cleared (priceToIndex price)) :
    m.getPriceLevel price = (v.slotLevel (priceToIndex price)).map (·.handle) := by
  rw [← h.represents.slots]
  exact (if_neg fresh).symm

theorem InStep.not_stale (h : InStep m v r) {price : Price} (hrange : InRange price)
    (hcleared : price ∉ r.cleared) : ¬ Stale r.cleared (priceToIndex price) := by
  rintro ⟨y, hy, hslot⟩
  exact hcleared (inRange_inj (h.cleared y hy) hrange hslot ▸ hy)

theorem InStep.unused (h : InStep m v r) {id : OrderId}
    (fresh : ∀ x ∈ r.live, x.marketOrderId ≠ id) : v.clientOrders 0 id.toNat = none := by
  rcases hp : v.clientOrders 0 id.toNat with _ | p
  · rfl
  · obtain ⟨o, ho, _, _, hi⟩ := h.valid.clientOrders _ _ _ hp
    rw [(h.fields ho).2.2] at hi
    exact absurd (UInt64.toNat_inj.mp hi) (fresh _ (h.mem_live ho))

/-- The block of a new order is filled in and linked as the engine would do it. -/
theorem InStep.book (h : InStep m v r) {x : MarketOrderFields} {p : OrderPtr}
    {rest : List OrderPtr} (hfree : v.freeOrders = p :: rest)
    (hid : x.marketOrderId.toNat < maxNumOrders) (same : v.SameSide x.side x.price)
    (fresh : ¬ Stale r.cleared (priceToIndex x.price)) {fuel : Nat} (hfuel : maxNumOrders < fuel) :
    ∃ pool m', m.orderPool.alloc ⟨x, none, none⟩ = .ok (pool, p) ∧
      MarketOrderBook.addOrder fuel { m with orderPool := pool } p = .ok m' ∧
      Represents (m'.asBook r.cleared) { v.addOrder ⟨x.asFields, p⟩ with freeOrders := rest } ∧
      ({ v.addOrder ⟨x.asFields, p⟩ with freeOrders := rest } : BookView).Valid := by
  obtain ⟨pool, halloc, ht⟩ := @book_taken _ v h.represents ⟨x.asFields, p⟩ rest hfree
  have halloc' : (m.orderPool.map MarketOrder.asOrder).alloc (MarketOrder.asOrder ⟨x, none, none⟩) =
      .ok (pool, p) := halloc
  rw [MemoryPool.map_alloc] at halloc'
  rcases hpool : m.orderPool.alloc ⟨x, none, none⟩ with f | ⟨pool', q⟩
  · rw [hpool] at halloc'
    cases halloc'
  rw [hpool] at halloc'
  obtain ⟨rfl, rfl⟩ := Prod.mk.inj (Except.ok.inj halloc')
  obtain ⟨s', hadd, hr', hv'⟩ := addOrder_spec h.represents h.valid hfree ht same
    (show OrderBook.inTable 0 x.marketOrderId from ⟨by decide, hid⟩) hfuel
  obtain ⟨m₁, hm₁⟩ : ∃ m₁ : MarketOrderBook, m₁ = { m with orderPool := pool' } := ⟨_, rfl⟩
  have hfields : ((m₁.order q).asOrder).toOrderFields = x.asFields := hm₁ ▸ ht.fields
  have hprice : (m₁.order q).price = x.price := congrArg OrderFields.price hfields
  have hxside : (m₁.order q).side = x.side := congrArg OrderFields.side hfields
  have hcommutes := @asBook_addOrder r.cleared m₁ q fuel (hprice ▸ fresh) fun l hl => by
    have hslot : (v.slotLevel (priceToIndex x.price)).map (·.handle) = some l := by
      rw [← h.slot fresh, ← hprice, ← hl, hm₁]
      rfl
    obtain ⟨k, hk, rfl⟩ := Option.map_eq_some_iff.mp hslot
    obtain ⟨hmem, hkslot⟩ := Valid.slotLevel_some hk
    rw [hxside, ← same k hmem hkslot, ← (h.represents.level k hmem).side, hm₁]
    rfl
  have hadd' : (m₁.asBook r.cleared).addOrder fuel q = .ok s' := hm₁ ▸ hadd
  rw [hcommutes] at hadd'
  rcases hdone : m₁.addOrder fuel q with f | m'
  · rw [hdone] at hadd'
    cases hadd'
  · rw [hdone] at hadd'
    obtain rfl := Except.ok.inj hadd'
    exact ⟨pool', m', rfl, hm₁ ▸ hdone, hr', hv'⟩

/-- `ADD` books the order at the end of its level. -/
theorem InStep.add (h : InStep m v r) (htype : u.type = .add) (ha : r.AdmitsAdd u)
    (hk : r.KeepsLevels u) {fuel : Nat} (hfuel : maxNumOrders < fuel) :
    ∃ m' v', m.apply fuel u = .ok m' ∧ InStep m' v' (r.step u) := by
  obtain ⟨hid, hfresh, hside, hrange, hlive⟩ := id ha
  obtain ⟨hcleared, hapart⟩ := hk htype
  obtain ⟨p, rest, hfree⟩ := List.exists_cons_of_ne_nil (h.hasRoom hid hfresh)
  let x : MarketOrderFields := ⟨u.orderId, u.side, u.price, u.qty, u.priority⟩
  have hsame : v.SameSide u.side u.price := h.sameSide ha
  obtain ⟨pool, m', halloc, hadd, hr', hv'⟩ := h.book (x := x) hfree hid hsame
    (h.not_stale hrange hcleared) hfuel
  have hstep : r.step u = { r with live := r.live ++ [x] } := Replay.step_add htype
  obtain ⟨horders, hcovers⟩ := h.place (o := ⟨x.asFields, p⟩) hsame hrange
  refine ⟨m', { v.addOrder ⟨x.asFields, p⟩ with freeOrders := rest }, ?_, ?_⟩
  · rw [MarketOrderBook.apply, if_pos htype, halloc]
    exact hadd
  · rw [hstep]
    refine ⟨hr', hv', h.keyed.addOrder h.valid hsame (h.unused hfresh), ?_, horders, hcovers,
      fun y hy => ?_, fun y hy => ?_, h.cleared⟩
    · refine sorted_place h.valid hsame h.sorted fun empty hbefore => hapart ?_
      refine h.apart hside (fun y hy hys hyp => ?_) hbefore
      obtain ⟨l, hl, _, hlp⟩ := h.covers y hy
      exact empty l hl (by rw [LevelView.slot, hlp, hyp]; rfl)
    · rcases List.mem_append.mp hy with hy | hy
      · exact h.range y hy
      · exact List.mem_singleton.mp hy ▸ hrange
    · rcases List.mem_append.mp hy with hy | hy
      · exact h.sides y hy
      · exact List.mem_singleton.mp hy ▸ hside

end Add

section Change
variable {m : MarketOrderBook} {v : BookView} {r : Replay} {o : OrderView} {u : MarketUpdate}

/-- The table finds the live order an update is about. -/
theorem InStep.found (h : InStep m v r) (ha : r.AdmitsChange u) : ∃ o ∈ v.orders,
    o.marketOrderId = u.orderId ∧ o.price = u.price ∧
      m.findOrder u.orderId = .ok (some o.handle) := by
  obtain ⟨x, hx, hid, _, hprice⟩ := ha
  obtain ⟨l, hl, o, ho, rfl⟩ := h.exists_order hx
  have hmem := v.mem_orders.mpr ⟨l, hl, ho⟩
  obtain ⟨_, hc, hi⟩ := h.fields hmem
  have hbound := (h.valid.inTable o hmem).2
  have hkey := h.keyed o hmem
  change o.marketOrderId = u.orderId at hid
  rw [hi, hid] at hbound
  rw [hc, hi, hid, ← h.represents.clientOrders] at hkey
  refine ⟨o, hmem, hid, hprice, ?_⟩
  rw [MarketOrderBook.findOrder, if_pos hbound]
  exact congrArg Except.ok hkey

theorem InStep.handle_iff (h : InStep m v r) (ho : o ∈ v.orders) {l : LevelView}
    (hl : l ∈ v.levels) : ∀ o' ∈ l.orders,
      (o'.handle = o.handle ↔ o'.marketOrderId = o.marketOrderId) := by
  intro o' ho'
  have hmem := v.mem_orders.mpr ⟨l, hl, ho'⟩
  exact ⟨fun heq => h.valid.order_eq hmem ho heq ▸ rfl,
    fun heq => h.order_eq hmem ho heq ▸ rfl⟩

/-- `MODIFY` sets a quantity. -/
theorem InStep.modify (h : InStep m v r) (htype : u.type = .modify) (ha : r.AdmitsChange u)
    (fuel : Nat) : ∃ m' v', m.apply fuel u = .ok m' ∧ InStep m' v' (r.step u) := by
  obtain ⟨o, ho, hid, hprice, hfind⟩ := h.found ha
  have hne : ¬ u.type = .add := by rw [htype]; decide
  have hmprice : (m.order o.handle).price = u.price :=
    (congrArg MarketOrderFields.price (h.fields ho).1).trans hprice
  refine ⟨m.setOrder o.handle { m.order o.handle with price := u.price, qty := u.qty },
    v.setQty o.handle u.qty, ?_, ?_⟩
  · rw [MarketOrderBook.apply, if_neg hne, if_pos htype, hfind]
    rfl
  rw [Replay.step_modify htype]
  have hkeep := MarketOrderFields.amend_key u.orderId u.qty
  refine ⟨?_, h.valid.setQty .., h.keyed.setQty _ _, fun side => ?_, fun l hl => ?_, fun x hx => ?_,
    fun x hx => ?_, fun x hx => ?_, h.cleared⟩
  · have hrep := represents_setQty h.represents h.valid ho u.qty
    rw [asBook_setOrder, ← hmprice]
    exact hrep
  · rw [own_setQty]
    exact sorted_of_sublist (f := .setQty o.handle u.qty) (fun _ => rfl) (List.Sublist.refl _)
      (h.sorted side)
  · obtain ⟨k, hk, rfl⟩ := List.mem_map.mp (levels_setQty v o.handle u.qty ▸ hl)
    have horders : (k.orders.map (withQty o.handle u.qty)).map OrderView.asMarket =
        (k.orders.map OrderView.asMarket).map (.amend u.orderId u.qty) := by
      rw [List.map_map, List.map_map]
      refine List.map_congr_left fun o' ho' => ?_
      have hiff := h.handle_iff ho hk o' ho'
      by_cases heq : o'.handle = o.handle
      · have hid' : o'.marketOrderId = u.orderId := (hiff.mp heq).trans hid
        simp [withQty, OrderView.asMarket, MarketOrderFields.amend, heq, hid']
      · have hid' : ¬ o'.marketOrderId = u.orderId := fun h => heq (hiff.mpr (h.trans hid.symm))
        simp [withQty, OrderView.asMarket, MarketOrderFields.amend, heq, hid']
    change (k.orders.map (withQty o.handle u.qty)).map OrderView.asMarket = _
    rw [horders, h.orders k hk, List.filter_map]
    refine congrArg _ (List.filter_congr fun x _ => ?_)
    simp only [Function.comp_apply, (hkeep x).1, (hkeep x).2]
    rfl
  · obtain ⟨y, hy, rfl⟩ := List.mem_map.mp hx
    obtain ⟨l, hl, hs, hp⟩ := h.covers y hy
    refine ⟨l.setQty o.handle u.qty, ?_, hs.trans (hkeep y).1.symm, hp.trans (hkeep y).2.symm⟩
    rw [levels_setQty]
    exact List.mem_map_of_mem hl
  · obtain ⟨y, hy, rfl⟩ := List.mem_map.mp hx
    rw [(hkeep y).2]
    exact h.range y hy
  · obtain ⟨y, hy, rfl⟩ := List.mem_map.mp hx
    rw [(hkeep y).1]
    exact h.sides y hy

/-- Removing a live order goes as in the engine. -/
theorem InStep.removeOrder (h : InStep m v r) (ho : o ∈ v.orders) : ∃ m',
    m.removeOrder o.handle = .ok m' ∧ Represents (m'.asBook r.cleared) (v.removeOrder o) := by
  obtain ⟨l, hl, hol⟩ := v.mem_orders.mp ho
  obtain ⟨hside, hslot⟩ := h.valid.filed l hl o hol
  have hfields := (h.fields ho).1
  have hprice : (m.order o.handle).price = o.price := congrArg MarketOrderFields.price hfields
  have hmside : (m.order o.handle).side = o.side := congrArg MarketOrderFields.side hfields
  have hslots := h.represents.slots (priceToIndex o.price)
  rw [hslot, h.valid.slotLevel_eq hl, ← hslot] at hslots
  have hfresh : ¬ Stale r.cleared (priceToIndex o.price) := by
    intro hstale
    have hmask : (m.asBook r.cleared).priceLevels (priceToIndex o.price) = none := if_pos hstale
    rw [hmask] at hslots
    cases hslots
  have hget : m.getPriceLevel o.price = some l.handle := by
    rw [h.slot hfresh, hslot, h.valid.slotLevel_eq hl]
    rfl
  have hown : l ∈ v.own o.side := hside ▸ h.valid.own_side hl
  obtain ⟨k, ks, hcons⟩ := List.exists_cons_of_ne_nil (List.ne_nil_of_mem hown)
  have hk : k ∈ v.levels := v.own_subset o.side (hcons ▸ List.mem_cons_self)
  have hbest : m.best o.side = some k.handle := by
    have hhead := (h.represents.sides o.side).head
    rw [hcons] at hhead
    exact hhead
  have hiff : (m.level k.handle).price = (m.level l.handle).price ↔ k.handle = l.handle := by
    have hkp : (m.level k.handle).price = k.price := (h.represents.level k hk).price
    have hlp : (m.level l.handle).price = l.price := (h.represents.level l hl).price
    rw [hkp, hlp]
    constructor
    · intro heq
      exact congrArg LevelView.handle (h.valid.level_eq_of_slot hk hl
        (by rw [LevelView.slot, heq]; rfl))
    · intro heq
      exact congrArg LevelView.price (h.valid.level_eq hk hl heq)
  obtain ⟨s', hs', hr', _⟩ := removeOrder_spec h.represents h.valid ho
  rw [asBook_removeOrder (l := l.handle) (hprice ▸ hfresh) (hprice ▸ hget)
    (((h.represents.level l hl).side).trans (hside.symm.trans hmside.symm))
    ⟨k.handle, hmside ▸ hbest, hiff⟩] at hs'
  rcases hdone : m.removeOrder o.handle with f | m'
  · rw [hdone] at hs'
    cases hs'
  · rw [hdone] at hs'
    obtain rfl := Except.ok.inj hs'
    exact ⟨m', rfl, hr'⟩

/-- `CANCEL` takes an order off its level. -/
theorem InStep.cancel (h : InStep m v r) (htype : u.type = .cancel) (ha : r.AdmitsChange u)
    (fuel : Nat) : ∃ m' v', m.apply fuel u = .ok m' ∧ InStep m' v' (r.step u) := by
  obtain ⟨o, ho, hid, _, hfind⟩ := h.found ha
  obtain ⟨m', hm', hr'⟩ := h.removeOrder ho
  have hne : ¬ u.type = .add := by rw [htype]; decide
  have hne' : ¬ u.type = .modify := by rw [htype]; decide
  refine ⟨m', v.removeOrder o, ?_, ?_⟩
  · rw [MarketOrderBook.apply, if_neg hne, if_neg hne', if_pos htype, hfind]
    exact hm'
  rw [Replay.step_cancel htype]
  have hdrop : ∀ l ∈ v.levels, (l.drop o.handle).orders.map OrderView.asMarket =
      (l.orders.map OrderView.asMarket).filter fun x => x.marketOrderId ≠ u.orderId := by
    intro l hl
    rw [LevelView.drop, List.filter_map]
    refine congrArg _ (List.filter_congr fun o' ho' => ?_)
    have hiff := h.handle_iff ho hl o' ho'
    rw [hid] at hiff
    exact decide_eq_decide.mpr (not_congr hiff)
  refine ⟨hr', h.valid.removeOrder ho, h.keyed.removeOrder ho, fun side => ?_, fun l hl => ?_,
    fun x hx => ?_, fun x hx => ?_, fun x hx => ?_, h.cleared⟩
  · rw [own_removeOrder]
    exact sorted_of_sublist (f := .drop o.handle) (fun _ => rfl) List.filter_sublist
      (h.sorted side)
  · obtain ⟨k, hk, rfl, _⟩ := mem_dropOrder.mp (levels_removeOrder v o ▸ hl)
    rw [hdrop k hk, h.orders k hk, List.filter_filter, List.filter_filter]
    exact List.filter_congr fun x _ => Bool.and_comm _ _
  · obtain ⟨hx, hxid⟩ := List.mem_filter.mp hx
    obtain ⟨l, hl, o', ho', rfl⟩ := h.exists_order hx
    have hiff := h.handle_iff ho hl o' ho'
    have hne : o'.handle ≠ o.handle := fun heq => of_decide_eq_true hxid ((hiff.mp heq).trans hid)
    have hmem : o' ∈ (l.drop o.handle).orders := List.mem_filter.mpr ⟨ho', by simpa using hne⟩
    obtain ⟨hs, hp⟩ : o'.asMarket.side = l.side ∧ o'.asMarket.price = l.price := by
      have hfilter := h.orders l hl ▸ List.mem_map_of_mem (f := OrderView.asMarket) ho'
      simpa using (List.mem_filter.mp hfilter).2
    refine ⟨l.drop o.handle, ?_, hs.symm, hp.symm⟩
    rw [levels_removeOrder]
    exact mem_dropOrder.mpr ⟨l, hl, rfl, List.ne_nil_of_mem hmem⟩
  · exact h.range x (List.mem_of_mem_filter hx)
  · exact h.sides x (List.mem_of_mem_filter hx)

end Change

section Loops
variable {m : MarketOrderBook} {best a : LevelPtr} {first p : OrderPtr} {fuel : Nat}

/-- The walk frees the levels of the ring behind the best one. -/
theorem freeLevels_chain {ls : List LevelPtr} (hbest : best ∉ ls)
    (h : (a :: ls ++ [best]).IsChain fun l k => (m.level l).nextEntry = some k)
    (hfuel : ls.length < fuel) : freeLevels best fuel m (m.level a).nextEntry =
      .ok { m with priceLevelPool := ls.foldl .free m.priceLevelPool } := by
  induction ls generalizing m a fuel with
  | nil =>
    obtain ⟨fuel, rfl⟩ : ∃ n, fuel = n + 1 := ⟨fuel - 1, by omega⟩
    have hnext : (m.level a).nextEntry = some best := by simpa using h
    rw [hnext, MarketOrderBook.freeLevels, if_pos rfl]
    rfl
  | cons b ls ih =>
    obtain ⟨fuel, rfl⟩ : ∃ n, fuel = n + 1 := ⟨fuel - 1, by omega⟩
    obtain ⟨hnext, hrest⟩ := List.isChain_cons_cons.mp h
    obtain ⟨hne, hbest⟩ := not_or.mp (List.mem_cons.not.mp hbest)
    rw [hnext, MarketOrderBook.freeLevels, if_neg (Ne.symm hne)]
    have hlevel : (m.level b).nextEntry = ((m.freeLevel b).level b).nextEntry := by
      rw [level_freeLevel]
    have hlen : ls.length < fuel := by simpa using hfuel
    rw [hlevel, ih (m := m.freeLevel b) hbest (by simpa using hrest) hlen]
    rfl

/-- A side is freed level by level, the best one last. -/
theorem clearPriceLevels_ring {side : Side} {ls : List LevelPtr} (hhead : m.best side = ls.head?)
    (h : IsRing (fun l => (m.level l).nextEntry) (fun l => (m.level l).prevEntry) ls)
    (hfuel : ls.length < fuel) : m.clearPriceLevels fuel side =
      .ok { m with priceLevelPool := (ls.rotate 1).foldl .free m.priceLevelPool } := by
  rcases ls with _ | ⟨best, ls⟩
  · simp only [clearPriceLevels, hhead, List.head?_nil]
    rfl
  · have hbest : best ∉ ls := (List.nodup_cons.mp h.nodup).1
    have hlen : ls.length < fuel := Nat.lt_of_succ_lt hfuel
    simp only [clearPriceLevels, hhead, List.head?_cons, freeLevels_chain hbest h.cycle hlen,
      ok_bind]
    rw [List.rotate_cons_succ, List.rotate_zero, List.foldl_append]
    rfl

/-- The walk over the orders of a level adds up their quantities. -/
theorem sumQty_chain {ps : List OrderPtr} (hfirst : first ∉ ps)
    (h : (p :: ps ++ [first]).IsChain fun p q => (m.order p).nextOrder = some q)
    (hfuel : ps.length < fuel) (quantity : Quantity) :
    m.sumQty first fuel (m.order p).nextOrder quantity =
      .ok (quantity + (ps.map fun p => (m.order p).qty).sum) := by
  induction ps generalizing p fuel quantity with
  | nil =>
    obtain ⟨fuel, rfl⟩ : ∃ n, fuel = n + 1 := ⟨fuel - 1, by omega⟩
    have hnext : (m.order p).nextOrder = some first := by simpa using h
    rw [hnext, sumQty, if_pos rfl, List.map_nil, List.sum_nil, UInt32.add_zero]
  | cons q ps ih =>
    obtain ⟨fuel, rfl⟩ : ∃ n, fuel = n + 1 := ⟨fuel - 1, by omega⟩
    obtain ⟨hnext, hrest⟩ := List.isChain_cons_cons.mp h
    obtain ⟨hne, hfirst⟩ := not_or.mp (List.mem_cons.not.mp hfirst)
    rw [hnext, sumQty, if_neg fun heq => hne (Option.some.inj heq).symm, deref_some, ok_bind,
      ih hfirst hrest (by simpa using hfuel), List.map_cons, List.sum_cons, UInt32.add_assoc]

end Loops

section Clear
variable {m : MarketOrderBook} {v : BookView} {r : Replay} {u : MarketUpdate} {fuel : Nat}

theorem InStep.level_count (h : InStep m v r) (side : Side) :
    (v.own side).length ≤ maxPriceLevels := by
  have hlen := h.valid.levelHandles.length_eq
  have hle : (v.own side).length ≤ v.levels.length := by
    by_cases hs : side = .buy <;> simp [own, levels, hs]
  simp only [List.length_append, List.length_map, List.length_range] at hlen
  omega

/-- The orders the loop over `orders_` frees are those in the book. -/
theorem InStep.orders_perm (h : InStep m v r) :
    ((List.range maxNumOrders).filterMap m.orders).Perm (v.orders.map (·.handle)) := by
  have horders : ∀ i, m.orders i = v.clientOrders 0 i := by
    intro i
    rw [← h.represents.clientOrders]
    rfl
  have hnd : ((List.range maxNumOrders).filterMap m.orders).Nodup := by
    refine List.Nodup.filterMap (fun i j p hi hj => ?_) List.nodup_range
    rw [Option.mem_def, horders] at hi hj
    obtain ⟨o, ho, hp, _, hoi⟩ := h.valid.clientOrders _ _ _ hi
    obtain ⟨o', ho', hp', _, hoj⟩ := h.valid.clientOrders _ _ _ hj
    obtain rfl := h.valid.order_eq ho ho' (hp.trans hp'.symm)
    exact hoi.symm.trans hoj
  refine (List.perm_ext_iff_of_nodup hnd h.valid.orders_nodup).mpr fun p => ?_
  rw [List.mem_filterMap, List.mem_map]
  constructor
  · rintro ⟨i, _, hi⟩
    rw [horders] at hi
    obtain ⟨o, ho, hp, _⟩ := h.valid.clientOrders _ _ _ hi
    exact ⟨o, ho, hp⟩
  · rintro ⟨o, ho, rfl⟩
    have hkey := h.keyed o ho
    rw [(h.fields ho).2.1] at hkey
    exact ⟨o.clientOrderId.toNat, List.mem_range.mpr (h.valid.inTable o ho).2,
      (horders _).trans hkey⟩

/-- The book after a `CLEAR`: everything is free, and the slots keep what they point to. -/
def clearedBook (m : MarketOrderBook) (v : BookView) (ps : List OrderPtr) : MarketOrderBook :=
  { m with
    orders := fun _ => none
    priceLevelPool := ((v.asks.map (·.handle)).rotate 1).foldl .free
      (((v.bids.map (·.handle)).rotate 1).foldl .free m.priceLevelPool)
    bid := none
    ask := none
    orderPool := ps.foldl .free m.orderPool }

def clearedView (m : MarketOrderBook) (v : BookView) (ps : List OrderPtr) : BookView where
  instrumentId := m.instrumentId
  bids := []
  asks := []
  freeOrders := ps.reverse ++ v.freeOrders
  freeLevels := ((v.asks.map (·.handle)).rotate 1).reverse ++
    (((v.bids.map (·.handle)).rotate 1).reverse ++ v.freeLevels)
  clientOrders _ _ := none
  nextMarketOrderId := 1
  sent := []

theorem InStep.clear_eq (h : InStep m v r) (hfuel : maxNumOrders < fuel) {ps : List OrderPtr}
    (hps : (List.range maxNumOrders).filterMap m.orders = ps) :
    m.clear fuel = .ok (clearedBook m v ps) := by
  have hcount : ∀ side, ((v.own side).map (·.handle)).length < fuel := by
    intro side
    have hle := h.level_count side
    have hlt : maxPriceLevels < maxNumOrders := by decide
    rw [List.length_map]
    omega
  have hbids := h.represents.sides .buy
  have hasks := h.represents.sides .sell
  obtain ⟨m₀, hm₀⟩ : ∃ m₀ : MarketOrderBook,
    m₀ = { m with orderPool := ps.foldl .free m.orderPool, orders := fun _ => none } := ⟨_, rfl⟩
  have hbid : m₀.best .buy = (v.bids.map (·.handle)).head? := by
    rw [hm₀]
    exact hbids.head
  have hring₀ : IsRing (fun l => (m₀.level l).nextEntry) (fun l => (m₀.level l).prevEntry)
      (v.bids.map (·.handle)) := by
    rw [hm₀]
    exact hbids.ring
  have hbuy := clearPriceLevels_ring hbid hring₀ (hcount .buy)
  obtain ⟨m₁, hm₁⟩ : ∃ m₁ : MarketOrderBook, m₁ = { m₀ with
    priceLevelPool := ((v.bids.map (·.handle)).rotate 1).foldl .free m₀.priceLevelPool } :=
      ⟨_, rfl⟩
  have hlevel : ∀ l, m₁.level l = m.level l := by
    intro l
    have hread := congrFun (MemoryPool.read_foldl_free m₀.priceLevelPool
      ((v.bids.map (·.handle)).rotate 1)) l
    rw [hm₁]
    exact hread.trans (by rw [hm₀]; rfl)
  have hring : IsRing (fun l => (m₁.level l).nextEntry) (fun l => (m₁.level l).prevEntry)
      (v.asks.map (·.handle)) := by
    simp only [hlevel]
    exact hasks.ring
  have hask : m₁.best .sell = (v.asks.map (·.handle)).head? := by
    rw [hm₁, hm₀]
    exact hasks.head
  have hsell := clearPriceLevels_ring hask hring (hcount .sell)
  simp only [MarketOrderBook.clear, MarketOrderBook.freeOrders, hps, ← hm₀, hbuy, ok_bind, ← hm₁,
    hsell]
  rw [hm₁, hm₀]
  rfl

theorem InStep.clear_represents (h : InStep m v r) {ps : List OrderPtr}
    (hps : ps.Perm (v.orders.map (·.handle))) :
    Represents ((clearedBook m v ps).asBook (r.live.map (·.price) ++ r.cleared))
      (clearedView m v ps) := by
  refine ⟨rfl, fun side => ?_, by simp [clearedView, levels], fun i => ?_, ?_, ?_, ?_, rfl, rfl⟩
  · have hown : ((clearedView m v ps).own side).map (·.handle) = [] := by
      by_cases hs : side = .buy <;> simp [own, clearedView, hs]
    rw [hown]
    refine ⟨?_, isRing_nil⟩
    by_cases hs : side = .buy <;> simp [OrderBook.best, asBook, clearedBook, hs]
  · have hnone : (clearedView m v ps).slotLevel i = none := rfl
    rw [hnone]
    by_cases hstale : Stale (r.live.map (·.price) ++ r.cleared) i
    · exact if_pos hstale
    · have hold : ¬ Stale r.cleared i := by
        rintro ⟨p, hp, hi⟩
        exact hstale ⟨p, List.mem_append_right _ hp, hi⟩
      have hempty : v.slotLevel i = none := by
        refine Valid.slotLevel_none fun l hl hi => ?_
        obtain ⟨x, hx, _, hprice⟩ := h.exists_live hl
        refine hstale ⟨x.price, List.mem_append_left _ (List.mem_map_of_mem hx), ?_⟩
        rw [hprice]
        exact hi
      have hslots := h.represents.slots i
      rw [hempty] at hslots
      exact (if_neg hstale).trans ((if_neg hold).symm.trans hslots)
  · have horders := (h.represents.orderPool.perm
      (hps.symm.trans (.of_eq (List.append_nil _).symm))).release_all
    have hpool : ((clearedBook m v ps).asBook (r.live.map (·.price) ++ r.cleared)).orderPool =
        ps.foldl .free (m.asBook r.cleared).orderPool := MemoryPool.map_foldl_free ..
    rw [hpool]
    exact horders
  · have hperm : (v.levels.map (·.handle)).Perm (((v.bids.map (·.handle)).rotate 1) ++
        (((v.asks.map (·.handle)).rotate 1) ++ [])) := by
      rw [levels, List.map_append, List.append_nil]
      exact ((List.rotate_perm _ 1).append (List.rotate_perm _ 1)).symm
    exact ((h.represents.levelPool.perm hperm).release_all).release_all
  · funext c i
    exact ite_self _

theorem InStep.clear_valid (h : InStep m v r) {ps : List OrderPtr}
    (hps : ps.Perm (v.orders.map (·.handle))) : (clearedView m v ps).Valid := by
  refine ⟨by simp [clearedView, levels], by simp [clearedView, levels], by simp [clearedView],
    by simp [clearedView], by simp [clearedView, levels],
    by simp [clearedView, BookView.orders, levels], by simp [clearedView], ?_, ?_⟩
  · have hperm : (ps.reverse ++ v.freeOrders).Perm (v.freeOrders ++ v.orders.map (·.handle)) :=
      List.perm_append_comm.trans ((ps.reverse_perm.trans hps).append_left _)
    have hall := hperm.trans h.valid.orderHandles
    simpa [clearedView, BookView.orders, levels] using hall
  · have hbids := (List.reverse_perm _).trans ((v.bids.map (·.handle)).rotate_perm 1)
    have hasks := (List.reverse_perm _).trans ((v.asks.map (·.handle)).rotate_perm 1)
    have hperm : (((v.asks.map (·.handle)).rotate 1).reverse ++
        (((v.bids.map (·.handle)).rotate 1).reverse ++ v.freeLevels)).Perm
          (v.freeLevels ++ v.levels.map (·.handle)) := by
      rw [levels, List.map_append, ← List.append_assoc]
      refine ((hasks.append hbids).append_right _).trans ?_
      exact (List.perm_append_comm.append_right _).trans List.perm_append_comm
    have hall := hperm.trans h.valid.levelHandles
    simpa [clearedView, levels] using hall

/-- `CLEAR` empties the book and leaves the slots of its prices stale. -/
theorem InStep.clear (h : InStep m v r) (htype : u.type = .clear) (hfuel : maxNumOrders < fuel) :
    ∃ m' v', m.apply fuel u = .ok m' ∧ InStep m' v' (r.step u) := by
  have hadd : ¬ u.type = .add := by rw [htype]; decide
  have hmodify : ¬ u.type = .modify := by rw [htype]; decide
  have hcancel : ¬ u.type = .cancel := by rw [htype]; decide
  obtain ⟨ps, hps⟩ : ∃ ps, (List.range maxNumOrders).filterMap m.orders = ps := ⟨_, rfl⟩
  have hperm := hps ▸ h.orders_perm
  refine ⟨clearedBook m v ps, clearedView m v ps, ?_, ?_⟩
  · rw [MarketOrderBook.apply, if_neg hadd, if_neg hmodify, if_neg hcancel, if_pos htype]
    exact h.clear_eq hfuel hps
  · rw [Replay.step_clear htype]
    refine ⟨h.clear_represents hperm, h.clear_valid hperm, ?_, fun side => ?_, ?_, ?_, ?_, ?_,
      fun p hp => ?_⟩
    · simp [Keyed, clearedView, BookView.orders, levels]
    · by_cases hs : side = .buy <;> simp [own, clearedView, hs]
    · simp [clearedView, levels]
    · simp
    · simp
    · simp
    · rcases List.mem_append.mp hp with hp | hp
      · obtain ⟨x, hx, rfl⟩ := List.mem_map.mp hp
        exact h.range x hx
      · exact h.cleared p hp

/-- A `TRADE` says nothing about the book. -/
theorem InStep.trade (h : InStep m v r) (htype : u.type = .trade) (fuel : Nat) :
    m.apply fuel u = .ok m ∧ InStep m v (r.step u) := by
  have hadd : ¬ u.type = .add := by rw [htype]; decide
  have hmodify : ¬ u.type = .modify := by rw [htype]; decide
  have hcancel : ¬ u.type = .cancel := by rw [htype]; decide
  have hclear : ¬ u.type = .clear := by rw [htype]; decide
  constructor
  · rw [MarketOrderBook.apply, if_neg hadd, if_neg hmodify, if_neg hcancel, if_neg hclear]
  · rw [Replay.step_trade htype]
    exact h

end Clear

section Run
variable {m : MarketOrderBook} {v : BookView} {r : Replay} {u : MarketUpdate} {fuel : Nat}

/-- What `update_side` makes of a side: the best price and the quantity at it. -/
def BookView.top (v : BookView) (side : Side) : Price × Quantity :=
  match v.own side with
  | [] => (invalidPrice, invalidQuantity)
  | l :: _ => (l.price, (l.orders.map (·.qty)).sum)

/-- The best level of a side is summed up. -/
theorem InStep.updateSide (h : InStep m v r) (hfuel : maxNumOrders < fuel) (side : Side) :
    m.updateSide fuel (m.best side) = .ok (v.top side) := by
  have hhead : m.best side = ((v.own side).map (·.handle)).head? := (h.represents.sides side).head
  rcases hown : v.own side with _ | ⟨l, ls⟩
  · rw [hown] at hhead
    rw [hhead, BookView.top, hown]
    rfl
  · rw [hown] at hhead
    have hl : l ∈ v.levels := v.own_subset side (hown ▸ List.mem_cons_self)
    have hrep := h.represents.level l hl
    have hfirst : (m.level l.handle).firstOrder = (l.orders.map (·.handle)).head? := hrep.firstOrder
    have hring : IsRing (fun p => (m.order p).nextOrder) (fun p => (m.order p).prevOrder)
        (l.orders.map (·.handle)) := hrep.ring
    have hprice : (m.level l.handle).price = l.price := hrep.price
    have hlen : (l.orders.map (·.handle)).length ≤ maxNumOrders := by
      have hsub : l.orders.map (·.handle) ⊆ List.range maxNumOrders := by
        intro p hp
        obtain ⟨o, ho, rfl⟩ := List.mem_map.mp hp
        refine h.valid.orderHandles.mem_iff.mp (List.mem_append_right _ ?_)
        exact List.mem_map_of_mem (v.mem_orders.mpr ⟨l, hl, ho⟩)
      simpa using (List.subperm_of_subset hring.nodup hsub).length_le
    have hqty : ∀ o ∈ l.orders, (m.order o.handle).qty = o.qty := fun o ho =>
      congrArg MarketOrderFields.qty (h.fields (v.mem_orders.mpr ⟨l, hl, ho⟩)).1
    obtain ⟨o, os, horders⟩ := List.exists_cons_of_ne_nil (h.valid.nonempty l hl)
    rw [horders, List.map_cons] at hfirst hring hlen
    rw [horders] at hqty
    have hnot := (List.nodup_cons.mp hring.nodup).1
    have hos : (os.map (·.handle)).length < fuel :=
      Nat.lt_of_lt_of_le (Nat.lt_succ_self _) (Nat.le_of_lt (Nat.lt_of_le_of_lt hlen hfuel))
    have hsum := sumQty_chain hnot hring.cycle hos (m.order o.handle).qty
    have hqtys : (os.map (·.handle)).map (fun p => (m.order p).qty) = os.map (·.qty) := by
      rw [List.map_map]
      exact List.map_congr_left fun o ho => hqty o (List.mem_cons_of_mem _ ho)
    rw [hqtys, hqty o List.mem_cons_self] at hsum
    simp only [hhead, List.map_cons, List.head?_cons, MarketOrderBook.updateSide, BookView.top,
      hown, horders, List.sum_cons, hfirst, deref_some, ok_bind, hqty o List.mem_cons_self, hsum,
      hprice]

/-- The prices and quantities that `update_bbo` keeps say nothing about the levels. -/
theorem InStep.withBbo (h : InStep m v r) (bbo : Bbo) : InStep { m with bbo := bbo } v r :=
  ⟨h.represents, h.valid, h.keyed, h.sorted, h.orders, h.covers, h.range, h.sides, h.cleared⟩

/-- `update_bbo` sets the sides it is asked for. -/
theorem InStep.updateBbo (h : InStep m v r) (hfuel : maxNumOrders < fuel) (bid ask : Bool) :
    m.updateBbo fuel bid ask = .ok { m with bbo := {
      bidPrice := if bid then (v.top .buy).1 else m.bbo.bidPrice
      askPrice := if ask then (v.top .sell).1 else m.bbo.askPrice
      bidQty := if bid then (v.top .buy).2 else m.bbo.bidQty
      askQty := if ask then (v.top .sell).2 else m.bbo.askQty } } := by
  have hbid : m.updateBid fuel = .ok { m with bbo := { m.bbo with
      bidPrice := (v.top .buy).1
      bidQty := (v.top .buy).2 } } := by
    have hside : m.updateSide fuel m.bid = .ok (v.top .buy) := h.updateSide hfuel .buy
    rw [updateBid, hside, ok_bind]
  have hask (bbo : Bbo) : MarketOrderBook.updateAsk fuel { m with bbo := bbo } =
      .ok { m with bbo := { bbo with
        askPrice := (v.top .sell).1
        askQty := (v.top .sell).2 } } := by
    have hside : MarketOrderBook.updateSide fuel { m with bbo := bbo } m.ask =
        .ok (v.top .sell) := (h.withBbo bbo).updateSide hfuel .sell
    rw [updateAsk, hside, ok_bind]
  rw [MarketOrderBook.updateBbo]
  cases bid
  · cases ask
    · rfl
    · exact hask m.bbo
  · rw [if_pos rfl, hbid, ok_bind]
    cases ask
    · rfl
    · exact hask _

theorem InStep.apply (h : InStep m v r) (ha : r.Admits u) (hk : r.KeepsLevels u)
    (hfuel : maxNumOrders < fuel) :
    ∃ m' v', m.apply fuel u = .ok m' ∧ InStep m' v' (r.step u) := by
  obtain ⟨hadd, hchange, htype⟩ := ha
  simp only [List.mem_cons, List.not_mem_nil, or_false] at htype
  rcases htype with htype | htype | htype | htype | htype
  · exact h.add htype (hadd htype) hk hfuel
  · exact h.modify htype (hchange (Or.inl htype)) fuel
  · exact h.cancel htype (hchange (Or.inr htype)) fuel
  · exact ⟨m, v, h.trade htype fuel⟩
  · exact h.clear htype hfuel

/-- An update keeps the book in step with the replay. -/
theorem InStep.step (h : InStep m v r) (ha : r.Admits u) (hk : r.KeepsLevels u)
    (hfuel : maxNumOrders < fuel) :
    ∃ m' v', m.onMarketUpdate fuel u = .ok m' ∧ InStep m' v' (r.step u) := by
  obtain ⟨m₁, v', hm₁, h₁⟩ := h.apply ha hk hfuel
  rw [onMarketUpdate, hm₁, ok_bind]
  by_cases htrade : u.type = .trade
  · exact ⟨m₁, v', if_pos htrade, h₁⟩
  · exact ⟨_, v', (if_neg htrade).trans (h₁.updateBbo hfuel _ _), h₁.withBbo _⟩

theorem InStep.run {us : List MarketUpdate} (h : InStep m v r)
    (ha : Replay.Along Replay.Admits r us) (hk : Replay.Along Replay.KeepsLevels r us)
    (hfuel : maxNumOrders < fuel) :
    ∃ m' v', m.run fuel us = .ok m' ∧ InStep m' v' (us.foldl Replay.step r) := by
  induction us generalizing m v r with
  | nil => exact ⟨m, v, rfl, h⟩
  | cons u us ih =>
    obtain ⟨m₁, v₁, hm₁, h₁⟩ := h.step ha.1 hk.1 hfuel
    obtain ⟨m', v', hm', h'⟩ := ih h₁ ha.2 hk.2
    exact ⟨m', v', by rw [MarketOrderBook.run, hm₁, ok_bind, hm'], h'⟩

theorem Replay.Along.of_append {P : Replay → MarketUpdate → Prop} {us ws : List MarketUpdate}
    (h : Replay.Along P r (us ++ ws)) : Replay.Along P r us := by
  induction us generalizing r with
  | nil => trivial
  | cons u us ih => exact ⟨h.1, ih h.2⟩

/-- After each update of a valid replay the levels of the client's book are the live orders, if
no order is added at a price cleared away or between the last two levels of a side. -/
theorem marketOrderBook_mirrors (i : InstrumentId) (hfuel : maxNumOrders < fuel)
    {us : List MarketUpdate} (valid : Replay.Along Replay.Admits .create us)
    (keeps : Replay.Along Replay.KeepsLevels .create us) {ws : List MarketUpdate}
    (hws : ws <+: us) : ∃ m, (MarketOrderBook.create i).run fuel ws = .ok m ∧
      m.Mirrors (ws.foldl Replay.step .create).live := by
  obtain ⟨rest, rfl⟩ := hws
  obtain ⟨m, v, hm, h⟩ := (create_inStep i).run valid.of_append keeps.of_append hfuel
  exact ⟨m, hm, h.mirrors⟩

/-- Both sides, all types of updates, and an id that is used again at another price. -/
def shortFeed : List MarketUpdate :=
  [⟨.add, 1, 0, .buy, 10, 5, 1⟩, ⟨.add, 2, 0, .sell, 12, 5, 1⟩, ⟨.add, 3, 0, .buy, 10, 7, 2⟩,
    ⟨.modify, 3, 0, .buy, 10, 2, 2⟩, ⟨.trade, invalidOrderId, 0, .sell, 10, 5, invalidPriority⟩,
    ⟨.cancel, 1, 0, .buy, 10, 0, 1⟩,
    ⟨.clear, invalidOrderId, 0, .invalid, invalidPrice, invalidQuantity, invalidPriority⟩,
    ⟨.add, 1, 0, .buy, 11, 5, 1⟩]

theorem marketOrderBook_mirrors_sample : ∃ m,
    (MarketOrderBook.create 0).run 2049 shortFeed = .ok m ∧
      m.Mirrors [⟨1, .buy, 11, 5, 1⟩] :=
  @marketOrderBook_mirrors 2049 0 (by decide) shortFeed (by decide) (by decide) shortFeed
    (List.prefix_refl _)

/-- A price that had an order when the book was cleared. -/
def readded : List MarketUpdate :=
  [⟨.add, 1, 0, .buy, 10, 5, 1⟩,
    ⟨.clear, invalidOrderId, 0, .invalid, invalidPrice, invalidQuantity, invalidPriority⟩,
    ⟨.add, 1, 0, .buy, 10, 5, 1⟩]

/-- The second order joins the level that was freed, and follows a null pointer. -/
theorem readded_lost : Replay.Along Replay.Admits .create readded ∧
    (MarketOrderBook.create 0).run 2049 readded = .error .badAccess ∧
    ¬ ∃ m, (MarketOrderBook.create 0).run 2049 readded = .ok m ∧
      m.Mirrors (readded.foldl Replay.step .create).live := by
  have hrun : (MarketOrderBook.create 0).run 2049 readded = .error .badAccess :=
    eq_error_of_faultOf (by decide +kernel)
  refine ⟨by decide, hrun, ?_⟩
  rintro ⟨m, hm, _⟩
  rw [hrun] at hm
  cases hm

end Run

end StockExchange
