import StockExchange.PublicBook

/-!
# The client's book is a replica

A client that applies the updates of an instrument to an empty book has the levels and
orders of the exchange, in the same order. Both books insert a level in the same way, so
they agree about a level in the wrong place as well.
-/

namespace StockExchange

open Ring BookView MarketOrderBook Transitions

/-- The client's book stands for a view the engine might have. -/
structure Copies (m : MarketOrderBook) (v : BookView) : Prop where
  represents : Represents (m.asBook []) v
  valid : v.Valid
  keyed : v.Keyed
  priced : v.Priced

theorem not_stale_nil {i : Nat} : ¬ Stale [] i := fun ⟨_, hp, _⟩ => List.not_mem_nil hp

/-- A computation returns if its image does. -/
theorem exists_of_map {α β : Type} {f : α → β} {x : Except Fault α} {b : β}
    (h : x.map f = .ok b) : ∃ a, x = .ok a ∧ f a = b := by
  rcases x with e | a
  · cases h
  · exact ⟨a, rfl, Except.ok.inj h⟩

namespace Copies
variable {m : MarketOrderBook} {v : BookView} {u : MarketUpdate} {o : OrderView} {fuel : Nat}

theorem create (i : InstrumentId) : Copies (.create i) (.create i) :=
  ⟨(create_inStep i).represents, create_valid i, (create_inStep i).keyed, create_priced i⟩

theorem shows (h : Copies m v) : m.heap.Shows v.asPublic := h.represents.shows

theorem fields (h : Copies m v) (ho : o ∈ v.orders) :
    (m.order o.handle).toMarketOrderFields = o.asMarket ∧ o.clientId = 0 ∧
      o.clientOrderId = o.marketOrderId := by
  have hfields : ((m.order o.handle).toMarketOrderFields).asFields = o.toOrderFields :=
    h.represents.fields ho
  rw [OrderView.asMarket, ← hfields]
  exact ⟨rfl, rfl, rfl⟩

theorem lookup (h : Copies m v) (ho : o ∈ v.orders) :
    m.orders o.marketOrderId.toNat = some o.handle ∧ o.marketOrderId.toNat < maxNumOrders := by
  obtain ⟨-, hclient, hid⟩ := h.fields ho
  have hkey := h.keyed o ho
  rw [hclient, hid, ← h.represents.clientOrders] at hkey
  exact ⟨hkey, hid ▸ (h.valid.inTable o ho).2⟩

theorem ids (h : Copies m v) : (v.orders.map (·.marketOrderId)).Nodup := by
  refine List.Nodup.map_on (fun o ho o' ho' heq => ?_) (List.Nodup.of_map _ h.valid.orders_nodup)
  have hkey := (h.lookup ho).1
  have hkey' := (h.lookup ho').1
  rw [heq, hkey'] at hkey
  exact (h.valid.order_eq ho' ho (Option.some.inj hkey)).symm

/-- A fresh id below the bound leaves a block for its order. -/
theorem hasRoom (h : Copies m v) {id : OrderId} (hid : id.toNat < maxNumOrders)
    (hfresh : id ∉ v.orders.map (·.marketOrderId)) : v.freeOrders ≠ [] := by
  intro hfull
  have hnodup : ((id :: v.orders.map (·.marketOrderId)).map UInt64.toNat).Nodup :=
    (List.nodup_cons.mpr ⟨hfresh, h.ids⟩).map fun _ _ => UInt64.toNat_inj.mp
  have hsub : (id :: v.orders.map (·.marketOrderId)).map UInt64.toNat ⊆
      List.range maxNumOrders := by
    intro k hk
    obtain ⟨id', hid', rfl⟩ := List.mem_map.mp hk
    rcases List.mem_cons.mp hid' with rfl | hid'
    · exact List.mem_range.mpr hid
    · obtain ⟨o, ho, rfl⟩ := List.mem_map.mp hid'
      exact List.mem_range.mpr (h.lookup ho).2
  have hlen := (List.subperm_of_subset hnodup hsub).length_le
  have hall := h.valid.orderHandles.length_eq
  simp only [hfull, List.nil_append, List.length_cons, List.length_map, List.length_range]
    at hlen hall
  omega

theorem samePrice (h : Copies m v) (ha : v.asPublic.Admits u) (htype : u.type = .add) :
    v.SamePrice u.side u.price := by
  intro l hl hslot
  have hown : ∀ side, l ∈ v.own side → l.price = u.price ∧ (side = .buy ↔ u.side = .buy) :=
    fun side hl => ha.slot htype side l.asPublic
      (PublicBook.own_asPublic v side ▸ List.mem_map_of_mem hl) hslot
  rcases List.mem_append.mp hl with hl | hl
  · obtain ⟨hprice, hside⟩ := hown .buy hl
    exact ⟨(h.valid.bidSide l hl).trans (hside.mp rfl).symm, hprice⟩
  · obtain ⟨hprice, hside⟩ := hown .sell hl
    have hne : u.side ≠ .buy := fun heq => absurd (hside.mpr heq) (by decide)
    exact ⟨(h.priced.sell l hl).trans ((ha.sided htype).resolve_left hne).symm, hprice⟩

theorem slot (h : Copies m v) (price : Price) :
    m.getPriceLevel price = (v.slotLevel (priceToIndex price)).map (·.handle) := by
  rw [← h.represents.slots]
  rfl

/-- `ADD` books the order as the engine did. -/
theorem add (h : Copies m v) (htype : u.type = .add) (ha : v.asPublic.Admits u)
    (hid : u.orderId.toNat < maxNumOrders) (hfuel : maxNumOrders < fuel) : ∃ m' v',
    m.apply fuel u = .ok m' ∧ Copies m' v' ∧ v'.asPublic = v.asPublic.apply u := by
  have hfresh : u.orderId ∉ v.orders.map (·.marketOrderId) := by
    intro hmem
    obtain ⟨o, ho, heq⟩ := List.mem_map.mp hmem
    exact ha.fresh htype o.asMarket (orders_asPublic v ▸ List.mem_map_of_mem ho) heq
  have hsame := h.samePrice ha htype
  obtain ⟨p, rest, hfree⟩ := List.exists_cons_of_ne_nil (h.hasRoom hid hfresh)
  obtain ⟨o, ho⟩ : ∃ o : OrderView, o = ⟨MarketOrderFields.asFields
    ⟨u.orderId, u.side, u.price, u.qty, u.priority⟩, p⟩ := ⟨_, rfl⟩
  have hfree' : v.freeOrders = o.handle :: rest := by rw [hfree, ho]
  have hsame' : v.SamePrice o.side o.price := by
    rw [ho]
    exact hsame
  obtain ⟨pool, halloc, ht⟩ := book_taken h.represents hfree'
  obtain ⟨s', hadd, hr', hv'⟩ := addOrder_spec h.represents h.valid hfree' ht hsame'.same
    (ho ▸ show OrderBook.inTable 0 u.orderId from ⟨by decide, hid⟩) hfuel
  have hmap : (m.orderPool.alloc ⟨⟨u.orderId, u.side, u.price, u.qty, u.priority⟩, none, none⟩).map
      (fun r => (r.1.map MarketOrder.asOrder, r.2)) = .ok (pool, o.handle) := by
    rw [← MemoryPool.map_alloc]
    rw [ho] at halloc ⊢
    exact halloc
  obtain ⟨⟨pool', p'⟩, halloc', hpool⟩ := exists_of_map hmap
  obtain ⟨rfl, rfl⟩ := Prod.mk.inj hpool
  obtain ⟨m₁, hm₁⟩ : ∃ m₁ : MarketOrderBook, m₁ = { m with orderPool := pool' } := ⟨_, rfl⟩
  have hbook : ({ m.asBook [] with orderPool := pool'.map MarketOrder.asOrder } : OrderBook) =
      m₁.asBook [] := hm₁ ▸ rfl
  rw [hbook] at hadd ht
  have hside : ∀ l, m₁.getPriceLevel (m₁.order o.handle).price = some l →
      (m₁.level l).side = (m₁.order o.handle).side := by
    intro l hl
    have hprice : (m₁.order o.handle).price = o.price := congrArg OrderFields.price ht.fields
    have hoside : (m₁.order o.handle).side = o.side := congrArg OrderFields.side ht.fields
    have hslot : (v.slotLevel (priceToIndex o.price)).map (·.handle) = some l := by
      rw [← h.slot, ← hprice, ← hl, hm₁]
      rfl
    obtain ⟨k, hk, rfl⟩ := Option.map_eq_some_iff.mp hslot
    obtain ⟨hmem, hkslot⟩ := Valid.slotLevel_some hk
    rw [hoside, ← (hsame' k hmem hkslot).1, ← (h.represents.level k hmem).side, hm₁]
    rfl
  rw [asBook_addOrder not_stale_nil hside] at hadd
  obtain ⟨m', hm', rfl⟩ := exists_of_map hadd
  refine ⟨m', { v.addOrder o with freeOrders := rest }, ?_, ⟨hr', hv', ?_, ?_⟩, ?_⟩
  · rw [hm₁] at hm'
    rw [MarketOrderBook.apply, if_pos htype, halloc', ok_bind]
    exact hm'
  · refine h.keyed.addOrder h.valid hsame'.same ?_
    rcases hp : v.clientOrders o.clientId.toNat o.clientOrderId.toNat with _ | q
    · rfl
    · obtain ⟨o', ho', -, -, hi⟩ := h.valid.clientOrders _ _ _ hp
      rw [(h.fields ho').2.2, ho] at hi
      have heq : o'.marketOrderId = u.orderId := UInt64.toNat_inj.mp hi
      exact absurd (heq ▸ List.mem_map_of_mem ho') hfresh
  · refine priced_structural.addOrder v o rest h.valid h.priced hfree' hsame'.same ⟨hsame', ?_⟩
    rw [ho]
    exact ha.sided htype
  · rw [PublicBook.apply_add htype]
    refine (asPublic_place h.valid hsame').trans ?_
    rw [ho]
    rfl

/-- The order that an update changes is found by its id. -/
theorem found (h : Copies m v) (htype : u.type = .modify ∨ u.type = .cancel)
    (ha : v.asPublic.Admits u) : ∃ o ∈ v.orders, o.marketOrderId = u.orderId ∧
      o.price = u.price ∧ m.findOrder u.orderId = .ok (some o.handle) := by
  obtain ⟨x, hx, hid, -, hprice⟩ := ha.present htype
  rw [orders_asPublic] at hx
  obtain ⟨o, ho, rfl⟩ := List.mem_map.mp hx
  obtain ⟨hlookup, hbound⟩ := h.lookup ho
  have hid' : o.marketOrderId = u.orderId := hid
  rw [hid'] at hlookup hbound
  exact ⟨o, ho, hid, hprice, by rw [MarketOrderBook.findOrder, if_pos hbound, hlookup]⟩

/-- `MODIFY` sets a quantity. -/
theorem modify (h : Copies m v) (htype : u.type = .modify) (ha : v.asPublic.Admits u)
    (fuel : Nat) : ∃ m' v',
    m.apply fuel u = .ok m' ∧ Copies m' v' ∧ v'.asPublic = v.asPublic.apply u := by
  obtain ⟨o, ho, hid, hprice, hfind⟩ := h.found (.inl htype) ha
  have hmprice : (m.order o.handle).price = u.price :=
    (congrArg MarketOrderFields.price (h.fields ho).1).trans hprice
  refine ⟨m.setOrder o.handle { m.order o.handle with price := u.price, qty := u.qty },
    v.setQty o.handle u.qty, ?_, ⟨?_, h.valid.setQty .., h.keyed.setQty _ _,
      priced_structural.setQty v _ _ h.valid h.priced⟩, ?_⟩
  · rw [MarketOrderBook.apply, if_neg (by rw [htype]; decide), if_pos htype, hfind]
    rfl
  · rw [asBook_setOrder, ← hmprice]
    exact represents_setQty h.represents h.valid ho u.qty
  · rw [PublicBook.apply_modify htype, ← hid]
    exact asPublic_setQty h.valid h.ids ho u.qty

/-- Removing an order goes as in the engine. -/
theorem removeOrder (h : Copies m v) (ho : o ∈ v.orders) : ∃ m',
    m.removeOrder o.handle = .ok m' ∧ Copies m' (v.removeOrder o) := by
  obtain ⟨l, hl, hol⟩ := v.mem_orders.mp ho
  obtain ⟨hside, hslot⟩ := h.valid.filed l hl o hol
  have hfields := (h.fields ho).1
  have hget : m.getPriceLevel (m.order o.handle).price = some l.handle := by
    rw [h.slot, hfields, asMarket_price, hslot, h.valid.slotLevel_eq hl]
    rfl
  have hlside : (m.level l.handle).side = (m.order o.handle).side := by
    rw [hfields]
    exact (h.represents.level l hl).side.trans hside.symm
  have hbest : ∃ b, m.best (m.order o.handle).side = some b ∧
      ((m.level b).price = (m.level l.handle).price ↔ b = l.handle) := by
    have hown : l ∈ v.own o.side := hside ▸ h.valid.own_side hl
    obtain ⟨k, ks, hcons⟩ := List.exists_cons_of_ne_nil (List.ne_nil_of_mem hown)
    have hk : k ∈ v.levels := v.own_subset o.side (hcons ▸ List.mem_cons_self)
    have hhead := (h.represents.sides o.side).head
    have hkp : (m.level k.handle).price = k.price := (h.represents.level k hk).price
    have hlp : (m.level l.handle).price = l.price := (h.represents.level l hl).price
    rw [hcons] at hhead
    refine ⟨k.handle, by rw [hfields]; exact hhead, ?_⟩
    rw [hkp, hlp]
    exact ⟨fun heq => congrArg LevelView.handle (h.valid.level_eq_of_slot hk hl
      (congrArg priceToIndex heq)),
      fun heq => congrArg LevelView.price (h.valid.level_eq hk hl heq)⟩
  obtain ⟨s', hs', hr', -⟩ := removeOrder_spec h.represents h.valid ho
  rw [asBook_removeOrder not_stale_nil hget hlside hbest] at hs'
  obtain ⟨m', hm', rfl⟩ := exists_of_map hs'
  exact ⟨m', hm', hr', h.valid.removeOrder ho, h.keyed.removeOrder ho,
    priced_structural.removeOrder v o h.valid ho h.priced⟩

/-- `CANCEL` takes an order off its level. -/
theorem cancel (h : Copies m v) (htype : u.type = .cancel) (ha : v.asPublic.Admits u)
    (fuel : Nat) : ∃ m' v',
    m.apply fuel u = .ok m' ∧ Copies m' v' ∧ v'.asPublic = v.asPublic.apply u := by
  obtain ⟨o, ho, hid, -, hfind⟩ := h.found (.inr htype) ha
  obtain ⟨m', hm', hcopies⟩ := h.removeOrder ho
  refine ⟨m', v.removeOrder o, ?_, hcopies, ?_⟩
  · rw [MarketOrderBook.apply, if_neg (by rw [htype]; decide), if_neg (by rw [htype]; decide),
      if_pos htype, hfind]
    exact hm'
  · rw [PublicBook.apply_cancel htype, ← hid]
    exact asPublic_removeOrder h.valid h.ids ho

/-- A book without orders is in step with a replay that has none. -/
theorem inStep (h : Copies m v) (hempty : v.asPublic = .empty) : InStep m v .create := by
  have hlevels : v.bids = [] ∧ v.asks = [] :=
    ⟨List.map_eq_nil_iff.mp (congrArg PublicBook.bids hempty),
      List.map_eq_nil_iff.mp (congrArg PublicBook.asks hempty)⟩
  have hown : ∀ side, v.own side = [] := by
    intro side
    by_cases hs : side = .buy <;> simp [own, hs, hlevels]
  refine ⟨h.represents, h.valid, h.keyed, fun side => by rw [hown side]; exact .nil, ?_, ?_, ?_,
    ?_, ?_⟩
  · simp [levels, hlevels]
  all_goals simp [Replay.create]

/-- `CLEAR` of an empty book. -/
theorem clear (h : Copies m v) (htype : u.type = .clear) (ha : v.asPublic.Admits u)
    (hfuel : maxNumOrders < fuel) : ∃ m' v',
    m.apply fuel u = .ok m' ∧ Copies m' v' ∧ v'.asPublic = v.asPublic.apply u := by
  obtain ⟨m', v', hm', hstep⟩ := (h.inStep (ha.empty htype)).clear htype hfuel
  rw [Replay.step_clear htype] at hstep
  have hlevels : v'.levels = [] := by
    refine List.eq_nil_iff_forall_not_mem.mpr fun l hl => ?_
    obtain ⟨x, hx, -⟩ := hstep.exists_live hl
    exact List.not_mem_nil hx
  obtain ⟨hbids, hasks⟩ := List.append_eq_nil_iff.mp hlevels
  refine ⟨m', v', hm', ⟨hstep.represents, hstep.valid, hstep.keyed, ?_, ?_⟩, ?_⟩
  · simp [hlevels]
  · simp [hasks]
  · rw [PublicBook.apply_clear htype, asPublic, hbids, hasks]
    rfl

/-- The walk over the best level of a side comes to its end. -/
theorem updateSide (h : Copies m v) (hfuel : maxNumOrders < fuel) (side : Side) :
    ∃ q, m.updateSide fuel (m.best side) = .ok q := by
  have hhead : m.best side = ((v.own side).map (·.handle)).head? := (h.represents.sides side).head
  rcases hown : v.own side with _ | ⟨l, ls⟩
  · rw [hown] at hhead
    exact ⟨_, by rw [hhead]; rfl⟩
  rw [hown] at hhead
  have hl : l ∈ v.levels := v.own_subset side (hown ▸ List.mem_cons_self)
  obtain ⟨o, os, horders⟩ := List.exists_cons_of_ne_nil (h.valid.nonempty l hl)
  have hfirst : (m.level l.handle).firstOrder = (l.orders.map (·.handle)).head? :=
    (h.represents.level l hl).firstOrder
  have hring : IsRing (fun p => (m.order p).nextOrder) (fun p => (m.order p).prevOrder)
      (l.orders.map (·.handle)) := (h.represents.level l hl).ring
  have hlen : (l.orders.map (·.handle)).length ≤ maxNumOrders := by
    have hsub : l.orders.map (·.handle) ⊆ List.range maxNumOrders := by
      intro p hp
      obtain ⟨o, ho, rfl⟩ := List.mem_map.mp hp
      exact h.valid.orderHandles.mem_iff.mp (List.mem_append_right _
        (List.mem_map_of_mem (v.mem_orders.mpr ⟨l, hl, ho⟩)))
    simpa using (List.subperm_of_subset hring.nodup hsub).length_le
  rw [horders, List.map_cons] at hfirst hring hlen
  have hsum := sumQty_chain (List.nodup_cons.mp hring.nodup).1 hring.cycle
    (Nat.lt_trans (Nat.lt_of_succ_le hlen) hfuel) (m.order o.handle).qty
  simp only [hhead, List.map_cons, List.head?_cons, MarketOrderBook.updateSide, hfirst, deref_some,
    ok_bind, hsum]
  exact ⟨_, rfl⟩

/-- The best prices that are kept beside the book are no part of it. -/
theorem withBbo (h : Copies m v) (bbo : Bbo) : Copies { m with bbo := bbo } v :=
  ⟨h.represents, h.valid, h.keyed, h.priced⟩

theorem updateBbo (h : Copies m v) (hfuel : maxNumOrders < fuel) (bid ask : Bool) :
    ∃ bbo, m.updateBbo fuel bid ask = .ok { m with bbo := bbo } := by
  have hask : ∀ bbo, ∃ bbo', (if ask then MarketOrderBook.updateAsk fuel { m with bbo := bbo }
      else .ok { m with bbo := bbo }) = .ok { m with bbo := bbo' } := by
    intro bbo
    cases ask
    · exact ⟨bbo, rfl⟩
    · obtain ⟨q, hq⟩ := (h.withBbo bbo).updateSide hfuel .sell
      have hq' : MarketOrderBook.updateSide fuel { m with bbo := bbo } m.ask = .ok q := hq
      exact ⟨_, by rw [if_pos rfl, updateAsk, hq', ok_bind]⟩
  rw [MarketOrderBook.updateBbo]
  cases bid
  · exact hask m.bbo
  · obtain ⟨q, hq⟩ := h.updateSide hfuel .buy
    have hq' : m.updateSide fuel m.bid = .ok q := hq
    obtain ⟨bbo, hbbo⟩ := hask { m.bbo with bidPrice := q.1, bidQty := q.2 }
    exact ⟨bbo, by rw [if_pos rfl, updateBid, hq', ok_bind, ok_bind, hbbo]⟩

/-- An update that fits the public book is applied as it says. -/
theorem step (h : Copies m v) (ha : v.asPublic.Admits u)
    (hid : u.type = .add → u.orderId.toNat < maxNumOrders) (hfuel : maxNumOrders < fuel) :
    ∃ m' v', m.onMarketUpdate fuel u = .ok m' ∧ Copies m' v' ∧
      v'.asPublic = v.asPublic.apply u := by
  have happly : ∃ m' v', m.apply fuel u = .ok m' ∧ Copies m' v' ∧
      v'.asPublic = v.asPublic.apply u := by
    have htype := ha.type
    simp only [List.mem_cons, List.not_mem_nil, or_false] at htype
    rcases htype with htype | htype | htype | htype | htype
    · exact h.add htype ha (hid htype) hfuel
    · exact h.modify htype ha fuel
    · exact h.cancel htype ha fuel
    · refine ⟨m, v, ?_, h, (PublicBook.apply_other (.inl htype)).symm⟩
      rw [MarketOrderBook.apply, if_neg (by rw [htype]; decide), if_neg (by rw [htype]; decide),
        if_neg (by rw [htype]; decide), if_neg (by rw [htype]; decide)]
    · exact h.clear htype ha hfuel
  obtain ⟨m₁, v', hm₁, h₁, hbook⟩ := happly
  rw [onMarketUpdate, hm₁, ok_bind]
  by_cases htrade : u.type = .trade
  · exact ⟨m₁, v', if_pos htrade, h₁, hbook⟩
  · obtain ⟨bbo, hbbo⟩ := h₁.updateBbo hfuel _ _
    exact ⟨_, v', (if_neg htrade).trans hbbo, h₁.withBbo bbo, hbook⟩

theorem run {us : List MarketUpdate} (h : Copies m v) (ha : v.asPublic.AdmitsAll us)
    (hids : ∀ u ∈ us, u.type = .add → u.orderId.toNat < maxNumOrders)
    (hfuel : maxNumOrders < fuel) : ∃ m' v', m.run fuel us = .ok m' ∧ Copies m' v' ∧
      v'.asPublic = us.foldl PublicBook.apply v.asPublic := by
  induction us generalizing m v with
  | nil => exact ⟨m, v, rfl, h, rfl⟩
  | cons u us ih =>
    obtain ⟨m₁, v₁, hm₁, h₁, hbook⟩ := h.step ha.1 (hids u List.mem_cons_self) hfuel
    obtain ⟨m', v', hm', h', hbook'⟩ := ih h₁ (hbook ▸ ha.2) fun w hw =>
      hids w (List.mem_cons_of_mem u hw)
    refine ⟨m', v', by rw [MarketOrderBook.run, hm₁, ok_bind, hm'], h', ?_⟩
    rw [hbook', hbook, List.foldl_cons]

end Copies

section Replica
variable {fuel : Nat} {i : InstrumentId} {rs : List OrderBook.BookRequest} {s : OrderBook}

/-- A new client that is sent updates that fit shows the public book they describe. -/
theorem run_shows {us : List MarketUpdate} (hfuel : maxNumOrders < fuel)
    (ha : PublicBook.AdmitsAll .empty us)
    (hids : ∀ u ∈ us, u.type = .add → u.orderId.toNat < maxNumOrders) :
    ∃ m, (MarketOrderBook.create i).run fuel us = .ok m ∧ m.heap.Shows (publicBook us) := by
  obtain ⟨m, v, hm, hcopies, hbook⟩ := (Copies.create i).run ha hids hfuel
  have hshows := hcopies.shows
  rw [hbook] at hshows
  exact ⟨m, hm, hshows⟩

/-- After every call the client that has applied the updates sent shows the book of the
exchange, level for level and order for order. -/
theorem client_replicates (hfuel : maxNumOrders < fuel)
    (h : Reached (OrderBook.call fuel) (OrderBook.KeepsPrices fuel) (.create i) rs s)
    (hids : accepts s.sent < maxNumOrders) :
    ∃ m, (MarketOrderBook.create i).run fuel (updates s.sent) = .ok m ∧
      s.heap.Shows (publicBook (updates s.sent)) ∧ ∀ b, m.heap.Shows b ↔ s.heap.Shows b := by
  have hlt : accepts s.sent < 2 ^ 64 := Nat.lt_trans hids (by decide)
  obtain ⟨v, hr, hpublished⟩ := keepsPrices_published hfuel h hlt
  have hs := hr.shows
  rw [hpublished.book] at hs
  rw [← hr.sent] at hs
  obtain ⟨m, hm, hshows⟩ := @run_shows fuel i (updates s.sent) hfuel
    (hr.sent ▸ hpublished.admits) fun u hu htype =>
      Nat.lt_of_le_of_lt ((hpublished.born u (hr.sent ▸ hu) htype).toNat_le hlt) hids
  refine ⟨m, hm, hs, fun b => ⟨fun hb => ?_, fun hb => ?_⟩⟩
  · rwa [hb.unique hshows]
  · rwa [hb.unique hs]

/-- Both books have the level at 13 behind the one at 14. -/
theorem client_replicates_sample : ∃ s m,
    Reached (OrderBook.call 3000) (OrderBook.KeepsPrices 3000) (.create 0)
      [.add 1 1 .sell 10 8, .add 1 2 .sell 12 5, .add 2 1 .sell 14 5, .add 2 2 .sell 13 4,
        .add 3 1 .buy 10 3, .modify 1 2 12 2] s ∧
    (MarketOrderBook.create 0).run 3000 (updates s.sent) = .ok m ∧
    m.heap.Shows ⟨[], [⟨10, [⟨1, .sell, 10, 5, 1⟩]⟩, ⟨12, [⟨2, .sell, 12, 2, 1⟩]⟩,
      ⟨14, [⟨3, .sell, 14, 5, 1⟩]⟩, ⟨13, [⟨4, .sell, 13, 4, 1⟩]⟩]⟩ := by
  obtain ⟨s, hs, hcheck⟩ := @reached_of_any _ _ _ (OrderBook.call 3000)
    (OrderBook.KeepsPrices 3000) (.create 0)
    [.add 1 1 .sell 10 8, .add 1 2 .sell 12 5, .add 2 1 .sell 14 5, .add 2 2 .sell 13 4,
      .add 3 1 .buy 10 3, .modify 1 2 12 2] _
    (fun s => accepts s.sent < maxNumOrders ∧ publicBook (updates s.sent) =
      ⟨[], [⟨10, [⟨1, .sell, 10, 5, 1⟩]⟩, ⟨12, [⟨2, .sell, 12, 2, 1⟩]⟩,
        ⟨14, [⟨3, .sell, 14, 5, 1⟩]⟩, ⟨13, [⟨4, .sell, 13, 4, 1⟩]⟩]⟩) (by decide +kernel)
  obtain ⟨hids, hbook⟩ := of_decide_eq_true hcheck
  obtain ⟨m, hm, hshows, hiff⟩ := client_replicates (by decide) hs hids
  exact ⟨s, m, hs, hm, (hiff _).mpr (hbook ▸ hshows)⟩

end Replica

end StockExchange
