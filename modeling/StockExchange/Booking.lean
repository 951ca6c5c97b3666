import StockExchange.OrderRing

/-!
# Booking an order

`add_order` and the part of `add` under `leaves_qty > 0`.
-/

namespace StockExchange

open Ring BookView

section Priority
variable {s : OrderBook} {v : BookView}

theorem priorityAt_spec (hr : Represents s v) (hv : v.Valid) (side : Side) (price : Price) :
    s.getOrderPriorityAtPriceLevel side price = .ok (v.priorityAt side price) := by
  rw [OrderBook.getOrderPriorityAtPriceLevel, hr.getPriceLevel, priorityAt]
  rcases hfind : v.getPriceLevel side price with _ | l
  · rfl
  · have hl : l ∈ v.levels :=
      (Valid.slotLevel_some (Option.filter_eq_some_iff.mp hfind).1).1
    rcases horders : l.orders with _ | ⟨o, os⟩
    · exact absurd horders (hv.nonempty l hl)
    · have hrep := hr.level l hl
      have hfirst := hrep.firstOrder
      have hprio := congrArg OrderFields.priority (hrep.fields o (by simp [horders]))
      rw [horders] at hfirst
      simp [hfirst, hprio, horders]

end Priority

section Join
variable {s : OrderBook} {v : BookView} {l : LevelView} {o : OrderView}

/-- Appending order `p` between the last order of a level and its first. -/
def joined (s : OrderBook) (p last first : OrderPtr) : OrderBook :=
  (((s.setNextOrder last (some p)).setPrevOrder p (some last)).setNextOrder p
    (some first)).setPrevOrder first (some p)

/-- What is read of `s'` is what is read of `s` after order `p` has been appended. -/
structure Joined (s s' : OrderBook) (p last first : OrderPtr) : Prop where
  step : OrderStep s s'
  firstOrder : ∀ m, (s'.level m).firstOrder = (s.level m).firstOrder
  fields : ∀ q, (s'.order q).toOrderFields = (s.order q).toOrderFields
  next : ∀ q, (s'.order q).nextOrder =
    if q = p then some first else if q = last then some p else (s.order q).nextOrder
  prev : ∀ q, (s'.order q).prevOrder =
    if q = first then some p else if q = p then some last else (s.order q).prevOrder

theorem joined_reads (s : OrderBook) (p last first : OrderPtr) :
    Joined s (joined s p last first) p last first where
  step := (((orderStep_setNextOrder ..).trans (orderStep_setPrevOrder ..)).trans
    (orderStep_setNextOrder ..)).trans (orderStep_setPrevOrder ..)
  firstOrder _ := rfl
  fields q := by simp [joined]
  next q := by simp [joined]
  prev q := by simp [joined]

/-- Only the new order and its neighbours change. -/
theorem Joined.order {s' : OrderBook} {p last first q : OrderPtr} (h : Joined s s' p last first)
    (hp : q ≠ p) (hlast : q ≠ last) (hfirst : q ≠ first) : s'.order q = s.order q := by
  have hnext := h.next q
  have hprev := h.prev q
  rw [if_neg hp, if_neg hlast] at hnext
  rw [if_neg hfirst, if_neg hp] at hprev
  exact order_ext (h.fields q) hnext hprev

/-- `add_order` with a level at hand. -/
theorem addOrder_join {p last first : OrderPtr} {l : LevelPtr} {o : OrderFields} (fuel : Nat)
    (hfields : (s.order p).toOrderFields = o)
    (hget : s.getPriceLevel o.side o.price = some l)
    (hfirst : (s.level l).firstOrder = some first)
    (hlast : (s.order first).prevOrder = some last)
    (table : OrderBook.inTable o.clientId o.clientOrderId) :
    s.addOrder fuel p = .ok { joined s p last first with
      clientOrders := Function.update s.clientOrders o.clientId.toNat
        (Function.update (s.clientOrders o.clientId.toNat) o.clientOrderId.toNat (some p)) } := by
  have hside : (s.order p).side = o.side := congrArg OrderFields.side hfields
  have hprice : (s.order p).price = o.price := congrArg OrderFields.price hfields
  have hfields' := ((joined_reads s p last first).fields p).trans hfields
  have hc := congrArg OrderFields.clientId hfields'
  have hi := congrArg OrderFields.clientOrderId hfields'
  simp only [OrderBook.addOrder, hside, hprice, hget, hfirst, hlast, deref_some, ok_bind,
    OrderBook.level_setNextOrder, OrderBook.level_setPrevOrder]
  change (joined s p last first).setClientOrder ((joined s p last first).order p).clientId
    ((joined s p last first).order p).clientOrderId (some p) = _
  rw [hc, hi, setClientOrder_ok table]
  rfl

/-- What holds after the block of a new order has been taken. -/
structure Taken (s : OrderBook) (v : BookView) (o : OrderView) (rest : List OrderPtr)
    (s₁ : OrderBook) : Prop where
  step : OrderStep s s₁
  firstOrder : ∀ m, (s₁.level m).firstOrder = (s.level m).firstOrder
  clientOrders : s₁.clientOrders = s.clientOrders
  nextMarketOrderId : s₁.nextMarketOrderId = s.nextMarketOrderId
  sent : s₁.sent = s.sent
  fields : (s₁.order o.handle).toOrderFields = o.toOrderFields
  other : ∀ q, q ≠ o.handle → s₁.order q = s.order q
  pool : s₁.orderPool.Owns rest (o.handle :: v.orders.map (·.handle))
  fresh : o.handle ∉ v.orders.map (·.handle)

theorem Taken.fresh_order {s₁ : OrderBook} {rest : List OrderPtr} (ht : Taken s v o rest s₁)
    (hl : l ∈ v.levels) {o' : OrderView} (ho' : o' ∈ l.orders) : o'.handle ≠ o.handle := by
  intro heq
  exact ht.fresh (heq ▸ List.mem_map_of_mem (v.mem_orders.mpr ⟨l, hl, ho'⟩))

/-- The ring of the level that the order joins. -/
theorem Joined.levelRep {s₁ s' : OrderBook} {rest : List OrderPtr} {last first : OrderPtr}
    (h : Joined s₁ s' o.handle last first) (ht : Taken s v o rest s₁) (hrep : LevelRep s l)
    (hl : l ∈ v.levels) (hne : l.orders ≠ [])
    (hlast : (l.orders.map (·.handle)).getLast? = some last)
    (hhead : (l.orders.map (·.handle)).head? = some first) : LevelRep s' (l.append o) := by
  have hmem : ∀ c ∈ l.orders.map (·.handle), c ≠ o.handle := by
    intro c hc
    obtain ⟨o', ho', rfl⟩ := List.mem_map.mp hc
    exact ht.fresh_order hl ho'
  have hlastm := List.mem_of_getLast? hlast
  have hfirstm := List.mem_of_mem_head? hhead
  have hfresh : o.handle ∉ l.orders.map (·.handle) := fun h => hmem _ h rfl
  have hlevel := (ht.step.trans h.step).level l.handle
  have hconcat : (l.append o).orders.map (·.handle) = l.orders.map (·.handle) ++ [o.handle] := by
    simp [LevelView.append]
  refine ⟨?_, ?_, ?_, ?_, fun o' ho' => ?_⟩
  · exact hlevel.1.trans hrep.side
  · exact hlevel.2.1.trans hrep.price
  · rw [hconcat, List.head?_append_of_ne_nil _ (by simpa using hne)]
    exact (h.firstOrder _).trans ((ht.firstOrder _).trans hrep.firstOrder)
  · rw [hconcat]
    refine hrep.ring.concat hlast hhead hfresh ?_ ?_ ⟨?_, ?_⟩ ⟨?_, ?_⟩
    · intro c hc hcl
      rw [OrderBook.nextOrder, h.next, if_neg (hmem c hc), if_neg hcl, ht.other c (hmem c hc)]
    · intro c hc hcf
      rw [OrderBook.prevOrder, h.prev, if_neg hcf, if_neg (hmem c hc), ht.other c (hmem c hc)]
    · rw [OrderBook.nextOrder, h.next, if_neg (hmem last hlastm), if_pos rfl]
    · rw [OrderBook.prevOrder, h.prev, if_neg (hmem _ hfirstm).symm, if_pos rfl]
    · rw [OrderBook.nextOrder, h.next, if_pos rfl]
    · rw [OrderBook.prevOrder, h.prev, if_pos rfl]
  · rw [h.fields]
    rcases List.mem_append.mp ho' with ho' | ho'
    · rw [ht.other _ (ht.fresh_order hl ho')]
      exact hrep.fields o' ho'
    · rw [List.mem_singleton.mp ho']
      exact ht.fields

/-- The rings of the other levels. -/
theorem Joined.levelRep_other {s₁ s' : OrderBook} {rest : List OrderPtr} {last first : OrderPtr}
    {m : LevelView} (h : Joined s₁ s' o.handle last first) (ht : Taken s v o rest s₁)
    (hv : v.Valid) (hrep : LevelRep s m) (hm : m ∈ v.levels) (hl : l ∈ v.levels) (hne : m ≠ l)
    (hlast : last ∈ l.orders.map (·.handle)) (hfirst : first ∈ l.orders.map (·.handle)) :
    LevelRep s' m := by
  have hlevel := (ht.step.trans h.step).level m.handle
  refine hrep.congr hlevel.1 hlevel.2.1 ((h.firstOrder _).trans (ht.firstOrder _))
    fun o' ho' => ?_
  have hfar : ∀ c ∈ l.orders.map (·.handle), o'.handle ≠ c := by
    intro c hc
    obtain ⟨o₁, ho₁, rfl⟩ := List.mem_map.mp hc
    exact not_mem_other hv hl ho₁ hm hne o' ho'
  have hoo := ht.fresh_order hm ho'
  rw [h.order hoo (hfar _ hlast) (hfar _ hfirst), ht.other _ hoo]

theorem represents_join {s₁ : OrderBook} {rest : List OrderPtr} (hr : Represents s v)
    (hv : v.Valid) (hv' : ({ v.addOrder o with freeOrders := rest } : BookView).Valid)
    (ht : Taken s v o rest s₁) (hl : l ∈ v.levels) (hside : l.side = o.side)
    (hslot : l.slot = priceToIndex o.price) (same : v.SameSide o.side o.price)
    (table : OrderBook.inTable o.clientId o.clientOrderId) {fuel : Nat}
    (hplace : v.place o =
      v.mapLevels (List.map fun m => if m.slot = l.slot then m.append o else m)) :
    ∃ s', s₁.addOrder fuel o.handle = .ok s' ∧
      Represents s' { v.addOrder o with freeOrders := rest } := by
  obtain ⟨f, fs, horders⟩ := List.exists_cons_of_ne_nil (hv.nonempty l hl)
  have hrep := hr.level l hl
  have hhead : (l.orders.map (·.handle)).head? = some f.handle := by rw [horders]; rfl
  obtain ⟨last, hlast⟩ : ∃ last, (l.orders.map (·.handle)).getLast? = some last :=
    ⟨_, List.getLast?_eq_some_getLast (by simp [horders])⟩
  have hlastm := List.mem_of_getLast? hlast
  have hfirstm : f.handle ∈ l.orders.map (·.handle) := List.mem_of_mem_head? hhead
  have hfresh : f.handle ≠ o.handle := ht.fresh_order hl (horders ▸ List.mem_cons_self)
  have hprev : (s.order f.handle).prevOrder = some last := (hrep.ring.last_head hlast hhead).2
  have hget : s₁.getPriceLevel o.side o.price = some l.handle := by
    have h := getPriceLevel_of_mem hr hv hl hside hslot.symm
    simp only [OrderBook.getPriceLevel, ht.step.slots, (ht.step.level _).1] at h ⊢
    exact h
  have hadd := addOrder_join fuel ht.fields hget
    ((ht.firstOrder _).trans (hrep.firstOrder.trans hhead))
    ((congrArg Order.prevOrder (ht.other _ hfresh)).trans hprev) table
  have hpool : (joined s₁ o.handle last f.handle).orderPool.Owns rest
      ((v.place o).orders.map (·.handle)) :=
    ((((ht.pool.write _).write _).write _).write _).perm ((hv.perm_place same).map _).symm
  have hjoined : Joined s₁ { joined s₁ o.handle last f.handle with
      clientOrders := Function.update s₁.clientOrders o.clientId.toNat
        (Function.update (s₁.clientOrders o.clientId.toNat) o.clientOrderId.toNat
          (some o.handle)) } o.handle last f.handle := by
    obtain ⟨step, firstOrder, fields, next, prev⟩ := joined_reads s₁ o.handle last f.handle
    exact ⟨⟨step.instrumentId, step.best, step.slots, step.levelPool, step.level⟩, firstOrder,
      fields, next, prev⟩
  refine ⟨_, hadd, ?_⟩
  generalize hs' : ({ joined s₁ o.handle last f.handle with
    clientOrders := Function.update s₁.clientOrders o.clientId.toNat
      (Function.update (s₁.clientOrders o.clientId.toNat) o.clientOrderId.toNat
        (some o.handle)) } : OrderBook) = s' at hjoined ⊢
  let f' : LevelView → LevelView := fun m => if m.slot = l.slot then m.append o else m
  have hf : ∀ m, (f' m).handle = m.handle ∧ (f' m).slot = m.slot := by
    intro m
    simp only [f']
    split <;> exact ⟨rfl, rfl⟩
  refine hr.replace hv hv' (ht.step.trans hjoined.step) (f := f') (fun side => ?_) hf
    (fun m hm => ?_) ?_ ?_ ?_ ?_ ?_ ?_
  · by_cases hs : side = .buy <;>
      simp [BookView.addOrder, hplace, own, mapLevels, setClientOrder, hs, f']
  · by_cases hml : m.slot = l.slot
    · obtain rfl := hv.level_eq_of_slot hm hl hml
      simp only [f', if_true]
      exact hjoined.levelRep ht hrep hl (hv.nonempty _ hl) hlast hhead
    · simp only [f', if_neg hml]
      have hne : m ≠ l := fun h => hml (congrArg LevelView.slot h)
      exact hjoined.levelRep_other ht hv (hr.level m hm) hm hl hne hlastm hfirstm
  · simp [BookView.addOrder, hplace, mapLevels, setClientOrder]
  · simp [BookView.addOrder, hplace, mapLevels, setClientOrder]
  · rw [← hs']
    exact hpool
  · rw [← hs', ht.clientOrders, hr.clientOrders, ← place_clientOrders v o]
    rfl
  · rw [← hs']
    exact (ht.nextMarketOrderId.trans hr.nextMarketOrderId).trans (by
      simp [BookView.addOrder, hplace, mapLevels, setClientOrder])
  · rw [← hs']
    exact (ht.sent.trans hr.sent).trans (by
      simp [BookView.addOrder, hplace, mapLevels, setClientOrder])

end Join

section Open
variable {s s₁ : OrderBook} {v : BookView} {o : OrderView} {rest : List OrderPtr}

/-- The order alone in its ring. -/
def looped (s : OrderBook) (p : OrderPtr) : OrderBook :=
  (s.setPrevOrder p (some p)).setNextOrder p (some p)

theorem looped_order (s : OrderBook) (p q : OrderPtr) :
    ((looped s p).order q).toOrderFields = (s.order q).toOrderFields ∧
    ((looped s p).order q).nextOrder = (if q = p then some p else (s.order q).nextOrder) ∧
    ((looped s p).order q).prevOrder = if q = p then some p else (s.order q).prevOrder := by
  simp [looped]

theorem own_newLevel (v : BookView) (h : LevelPtr) (levels : List LevelPtr) (o : OrderView)
    (side : Side) : (v.newLevel h levels o).own side =
      if o.side = .buy ↔ side = .buy then
        insertLevel (fun m => betterPrice o.price m.price o.side) ⟨h, o.side, o.price, [o]⟩
          (v.own o.side)
      else v.own side := by
  by_cases hs : o.side = .buy <;> by_cases hs' : side = .buy <;>
    simp [newLevel, setOwn, own, hs, hs']

/-- With the block of the level that is to hold the order. -/
def opened (s : OrderBook) (p : OrderPtr) (pool : MemoryPool PriceLevel) : OrderBook :=
  { looped s p with priceLevelPool := pool }

/-- Block `h` has been taken for the level of the order. -/
structure Opened (s : OrderBook) (v : BookView) (o : OrderView) (h : LevelPtr)
    (levels : List LevelPtr) (pool : MemoryPool PriceLevel) : Prop where
  alloc : s.priceLevelPool.alloc ⟨o.side, o.price, some o.handle, none, none⟩ = .ok (pool, h)
  owns : pool.Owns levels (h :: v.levels.map (·.handle))
  fresh : ∀ l ∈ v.levels, l.handle ≠ h
  new : (opened s o.handle pool).level h = ⟨o.side, o.price, some o.handle, none, none⟩
  old : ∀ l ∈ v.levels, (opened s o.handle pool).level l.handle = s.level l.handle

variable {h : LevelPtr} {levels : List LevelPtr} {pool : MemoryPool PriceLevel} {s₂ : OrderBook}
  {fuel : Nat}

theorem exists_opened (o : OrderView)
    (hlevels : s₁.priceLevelPool.Owns (h :: levels) (v.levels.map (·.handle))) :
    ∃ pool, Opened s₁ v o h levels pool := by
  obtain ⟨pool, halloc, howns, hread⟩ := hlevels.alloc
    ⟨o.side, o.price, some o.handle, none, none⟩
  have hfresh : ∀ l ∈ v.levels, l.handle ≠ h := by
    intro l hl heq
    exact hlevels.not_mem_live (heq ▸ List.mem_map_of_mem hl)
  refine ⟨pool, halloc, howns, hfresh, ?_, fun l hl => ?_⟩
  · change pool.read h = _
    rw [hread, Function.update_self]
  · change pool.read l.handle = _
    rw [hread, Function.update_of_ne (hfresh l hl)]
    rfl

/-- The rings of levels are those of before. -/
theorem Opened.sides (ho : Opened s₁ v o h levels pool) (hr : Represents s v)
    (step : OrderStep s s₁) (side : Side) : SideRep (opened s₁ o.handle pool)
      ((opened s₁ o.handle pool).best side) ((v.own side).map (·.handle)) := by
  obtain ⟨hhead, hring⟩ := hr.sides side
  have hbest : (opened s₁ o.handle pool).best = s.best := step.best
  rw [hbest]
  refine ⟨hhead, hring.congr ?_ ?_⟩ <;> intro m hm <;>
    obtain ⟨l, hl, rfl⟩ := List.mem_map.mp hm
  · rw [OrderBook.nextEntry, ho.old l (v.own_subset side hl)]
    exact (step.level _).2.2.1
  · rw [OrderBook.prevEntry, ho.old l (v.own_subset side hl)]
    exact (step.level _).2.2.2

/-- The new level goes into the ring of its side. -/
theorem Opened.insert (ho : Opened s₁ v o h levels pool) (hr : Represents s v) (hv : v.Valid)
    (step : OrderStep s s₁) (hfuel : maxNumOrders < fuel) :
    ∃ s₂, (opened s₁ o.handle pool).addPriceLevel fuel h = .ok s₂ ∧
      LevelStep (opened s₁ o.handle pool) s₂ ∧
      s₂.priceLevels = Function.update s.priceLevels (priceToIndex o.price) (some h) ∧
      s₂.priceLevelPool.Owns levels (h :: v.levels.map (·.handle)) ∧
      ∀ side, SideRep s₂ (s₂.best side) (((v.newLevel h levels o).own side).map (·.handle)) := by
  have hfuel' : (v.own o.side).length + 2 ≤ fuel := by
    have hle : (v.own o.side).length ≤ v.levels.length := by
      by_cases hs : o.side = .buy <;> simp [own, BookView.levels, hs]
    have hsize := hv.levelHandles.length_eq
    simp only [List.length_append, List.length_map, List.length_range, maxPriceLevels] at hsize
    simp only [maxNumOrders] at hfuel
    omega
  have hdisjoint : ∀ side', ¬ (o.side = .buy ↔ side' = .buy) → ∀ m ∈ v.own side',
      m.handle ∉ (v.own o.side).map (·.handle) := by
    intro side' hne m hm hmem
    obtain ⟨k, hk, heq⟩ := List.mem_map.mp hmem
    exact hv.own_ne hne hk hm heq
  have hprices : ∀ m ∈ v.own o.side, betterPrice ((opened s₁ o.handle pool).level h).price
      ((opened s₁ o.handle pool).level m.handle).price o.side =
        betterPrice o.price m.price o.side := by
    intro m hm
    have hm := v.own_subset _ hm
    rw [ho.new, ho.old m hm, (step.level _).2.1, (hr.level m hm).price]
  obtain ⟨s₂, hadd, hstep, hslots, hpool, hsides⟩ := addPriceLevel_spec
    (x := ⟨h, o.side, o.price, [o]⟩) (ho.sides hr step) ho.fresh rfl hdisjoint
    (by rw [ho.new]) hprices hfuel'
  have hbefore : (opened s₁ o.handle pool).priceLevels = s.priceLevels := step.slots
  refine ⟨s₂, hadd, hstep, ?_, hpool _ _ ho.owns, fun side => ?_⟩
  · rw [hslots, ho.new, hbefore]
  · have hside := hsides side
    rw [own_newLevel]
    by_cases hsame : o.side = .buy ↔ side = .buy
    · rwa [if_pos hsame] at hside ⊢
    · rwa [if_neg hsame] at hside ⊢

/-- `add_order` with no level at hand. -/
theorem Opened.addOrder (ho : Opened s₁ v o h levels pool)
    (hself : (s₁.order o.handle).toOrderFields = o.toOrderFields)
    (hget : s₁.getPriceLevel o.side o.price = none)
    (hadd : (opened s₁ o.handle pool).addPriceLevel fuel h = .ok s₂)
    (hstep : LevelStep (opened s₁ o.handle pool) s₂)
    (table : OrderBook.inTable o.clientId o.clientOrderId) :
    s₁.addOrder fuel o.handle = .ok { s₂ with
      clientOrders := Function.update s₂.clientOrders o.clientId.toNat
        (Function.update (s₂.clientOrders o.clientId.toNat) o.clientOrderId.toNat
          (some o.handle)) } := by
  have hlooped := (looped_order s₁ o.handle o.handle).1.trans hself
  have hfields : (s₂.order o.handle).toOrderFields = o.toOrderFields := by
    rw [OrderBook.order, hstep.orderPool]
    exact hlooped
  have hside := congrArg OrderFields.side hself
  have hprice := congrArg OrderFields.price hself
  have hside' : ((looped s₁ o.handle).order o.handle).side = o.side :=
    congrArg OrderFields.side hlooped
  have hprice' : ((looped s₁ o.handle).order o.handle).price = o.price :=
    congrArg OrderFields.price hlooped
  have halloc : (looped s₁ o.handle).priceLevelPool.alloc
      ⟨o.side, o.price, some o.handle, none, none⟩ = .ok (pool, h) := ho.alloc
  simp only [OrderBook.addOrder, hside, hprice, hget]
  change (looped s₁ o.handle).priceLevelPool.alloc
    ⟨((looped s₁ o.handle).order o.handle).side, ((looped s₁ o.handle).order o.handle).price,
      some o.handle, none, none⟩ >>= _ = _
  rw [hside', hprice', halloc, ok_bind]
  change OrderBook.addPriceLevel fuel (opened s₁ o.handle pool) h >>= _ = _
  rw [hadd, ok_bind, congrArg OrderFields.clientId hfields,
    congrArg OrderFields.clientOrderId hfields, setClientOrder_ok table]

/-- The rings of orders, that of the new level among them. -/
theorem Opened.levelRep (ho : Opened s₁ v o h levels pool) (ht : Taken s v o rest s₁)
    (hr : Represents s v) (hstep : LevelStep (opened s₁ o.handle pool) s₂) {m : LevelView}
    (hm : m = ⟨h, o.side, o.price, [o]⟩ ∨ m ∈ v.levels) : LevelRep s₂ m := by
  have horder : s₂.order = (looped s₁ o.handle).order := by
    funext q
    rw [OrderBook.order, hstep.orderPool]
    rfl
  rcases hm with rfl | hm
  · refine ⟨?_, ?_, ?_, isRing_singleton.mpr ⟨?_, ?_⟩, fun o' ho' => ?_⟩
    · exact (hstep.side h).trans (by rw [ho.new])
    · exact (hstep.price h).trans (by rw [ho.new])
    · exact (hstep.firstOrder h).trans (by rw [ho.new]; rfl)
    · change (s₂.order o.handle).nextOrder = _
      rw [horder, (looped_order s₁ o.handle o.handle).2.1, if_pos rfl]
    · change (s₂.order o.handle).prevOrder = _
      rw [horder, (looped_order s₁ o.handle o.handle).2.2, if_pos rfl]
    · rw [List.mem_singleton.mp ho', horder]
      exact (looped_order s₁ o.handle o.handle).1.trans ht.fields
  · obtain ⟨hside, hprice, -, -⟩ := ht.step.level m.handle
    refine (hr.level m hm).congr ?_ ?_ ?_ fun o' ho' => ?_
    · exact (hstep.side _).trans ((congrArg PriceLevel.side (ho.old m hm)).trans hside)
    · exact (hstep.price _).trans ((congrArg PriceLevel.price (ho.old m hm)).trans hprice)
    · exact (hstep.firstOrder _).trans
        ((congrArg PriceLevel.firstOrder (ho.old m hm)).trans (ht.firstOrder _))
    · have hne := ht.fresh_order hm ho'
      obtain ⟨hf, hn, hp⟩ := looped_order s₁ o.handle o'.handle
      rw [if_neg hne] at hn hp
      rw [horder, ← ht.other _ hne]
      exact order_ext hf hn hp

theorem slots_open {w : BookView} (hr : Represents s v) (hv : v.Valid) (hw : w.Valid)
    (hmem : ∀ m, m ∈ w.levels ↔ m = ⟨h, o.side, o.price, [o]⟩ ∨ m ∈ v.levels)
    (empty : ∀ l ∈ v.levels, l.slot ≠ priceToIndex o.price) (i : Nat) :
    Function.update s.priceLevels (priceToIndex o.price) (some h) i =
      (w.slotLevel i).map (·.handle) := by
  refine (slots_iff hw).mpr (fun i l => ?_) i
  by_cases hi : i = priceToIndex o.price
  · subst hi
    rw [Function.update_self, Option.some.injEq]
    constructor
    · rintro rfl
      exact ⟨_, (hmem _).mpr (Or.inl rfl), rfl, rfl⟩
    · rintro ⟨m, hm, hslot, rfl⟩
      rcases (hmem m).mp hm with rfl | hm
      · rfl
      · exact absurd hslot (empty m hm)
  · rw [Function.update_of_ne hi, (slots_iff hv).mp hr.slots]
    constructor
    · rintro ⟨m, hm, hfound⟩
      exact ⟨m, (hmem m).mpr (Or.inr hm), hfound⟩
    · rintro ⟨m, hm, hslot, hhandle⟩
      rcases (hmem m).mp hm with rfl | hm
      · exact absurd hslot.symm hi
      · exact ⟨m, hm, hslot, hhandle⟩

theorem represents_open (hr : Represents s v) (hv : v.Valid)
    (hv' : ({ v.addOrder o with freeOrders := rest } : BookView).Valid)
    (ht : Taken s v o rest s₁) (table : OrderBook.inTable o.clientId o.clientOrderId)
    (same : v.SameSide o.side o.price) (hfree : v.freeLevels = h :: levels)
    (empty : ∀ l ∈ v.levels, l.slot ≠ priceToIndex o.price)
    (hplace : v.place o = v.newLevel h levels o) (hfuel : maxNumOrders < fuel) :
    ∃ s', s₁.addOrder fuel o.handle = .ok s' ∧
      Represents s' { v.addOrder o with freeOrders := rest } := by
  have hget : s₁.getPriceLevel o.side o.price = none := by
    have hnone : s.priceLevels (priceToIndex o.price) = none := by
      rw [hr.slots, Valid.slotLevel_none empty]
      rfl
    rw [OrderBook.getPriceLevel, ht.step.slots, hnone]
    rfl
  obtain ⟨pool, ho⟩ := exists_opened o (hfree ▸ ht.step.levelPool _ _ hr.levelPool)
  obtain ⟨s₂, hadd, hstep, hslots, hpool, hsides⟩ := ho.insert hr hv ht.step hfuel
  refine ⟨_, ho.addOrder ht.fields hget hadd hstep table, ?_⟩
  have hlevels : ({ v.addOrder o with freeOrders := rest } : BookView).levels =
      (v.newLevel h levels o).levels := by
    simp only [BookView.addOrder, hplace]
    rfl
  have hperm := levels_newLevel v h levels o
  have hmem : ∀ m, m ∈ ({ v.addOrder o with freeOrders := rest } : BookView).levels ↔
      m = ⟨h, o.side, o.price, [o]⟩ ∨ m ∈ v.levels := by
    intro m
    rw [hlevels, hperm.mem_iff, List.mem_cons]
  refine ⟨?_, fun side => ?_, fun m hm => ?_, fun i => ?_, ?_, ?_, ?_, ?_, ?_⟩
  · refine (hstep.instrumentId.trans (ht.step.instrumentId.trans hr.instrumentId)).trans ?_
    simp [BookView.addOrder, hplace, newLevel, setOwn, setClientOrder]
  · have hown : ({ v.addOrder o with freeOrders := rest } : BookView).own side =
        (v.newLevel h levels o).own side := by
      simp only [BookView.addOrder, hplace]
      rfl
    rw [hown]
    exact ⟨(hsides side).head, (hsides side).ring⟩
  · exact (ho.levelRep ht hr hstep ((hmem m).mp hm)).congr rfl rfl rfl fun _ _ => rfl
  · exact (congrFun hslots i).trans (slots_open hr hv hv' hmem empty i)
  · have hlooped : (looped s₁ o.handle).orderPool.Owns rest
        (o.handle :: v.orders.map (·.handle)) := (ht.pool.write _).write _
    change s₂.orderPool.Owns _ _
    rw [hstep.orderPool]
    exact hlooped.perm ((hv.perm_place same).map _).symm
  · have hrest : ({ v.addOrder o with freeOrders := rest } : BookView).freeLevels = levels := by
      simp [BookView.addOrder, hplace, newLevel, setOwn, setClientOrder]
    have hhandles : (h :: v.levels.map (·.handle)).Perm
        ((v.newLevel h levels o).levels.map (·.handle)) := (hperm.map LevelView.handle).symm
    rw [hrest, hlevels]
    exact hpool.perm hhandles
  · have hclients : s₂.clientOrders = v.clientOrders :=
      hstep.clientOrders.trans (ht.clientOrders.trans hr.clientOrders)
    rw [hclients, ← place_clientOrders v o]
    rfl
  · refine (hstep.nextMarketOrderId.trans (ht.nextMarketOrderId.trans
      hr.nextMarketOrderId)).trans ?_
    simp [BookView.addOrder, hplace, newLevel, setOwn, setClientOrder]
  · refine (hstep.sent.trans (ht.sent.trans hr.sent)).trans ?_
    simp [BookView.addOrder, hplace, newLevel, setOwn, setClientOrder]

end Open

section Book
variable {s : OrderBook} {v : BookView} {side : Side} {price : Price} {clientId : ClientId}
  {clientOrderId : OrderId}

theorem book_taken (hr : Represents s v) {o : OrderView} {rest : List OrderPtr}
    (hfree : v.freeOrders = o.handle :: rest) :
    ∃ pool, s.orderPool.alloc ⟨o.toOrderFields, none, none⟩ = .ok (pool, o.handle) ∧
      Taken s v o rest { s with orderPool := pool } := by
  have hown := hr.orderPool
  rw [hfree] at hown
  obtain ⟨pool, halloc, howns, hread⟩ := hown.alloc ⟨o.toOrderFields, none, none⟩
  refine ⟨pool, halloc, ⟨rfl, rfl, rfl, fun _ _ h => h, fun _ => ⟨rfl, rfl, rfl, rfl⟩⟩,
    fun _ => rfl, rfl, rfl, rfl, ?_, ?_, howns, hown.not_mem_live⟩
  · change (pool.read o.handle).toOrderFields = _
    rw [hread, Function.update_self]
  · intro q hq
    change pool.read q = _
    rw [hread, Function.update_of_ne hq]
    rfl

/-- A taken block is linked into the level of its price, or into a new one. -/
theorem addOrder_spec (hr : Represents s v) (hv : v.Valid) {s₁ : OrderBook} {o : OrderView}
    {rest : List OrderPtr} (hfree : v.freeOrders = o.handle :: rest) (ht : Taken s v o rest s₁)
    (same : v.SameSide o.side o.price) (table : OrderBook.inTable o.clientId o.clientOrderId)
    {fuel : Nat} (hfuel : maxNumOrders < fuel) : ∃ s', s₁.addOrder fuel o.handle = .ok s' ∧
      Represents s' { v.addOrder o with freeOrders := rest } ∧
      ({ v.addOrder o with freeOrders := rest } : BookView).Valid := by
  have hv' := hv.addOrder hfree same table
  rcases hv.place_cases same with ⟨l, hl, hside, hslot, hplace⟩ |
    ⟨l, levels, hlevels, empty, hplace⟩
  · obtain ⟨s', hs', hr'⟩ := represents_join hr hv hv' ht (v.own_subset _ hl) hside hslot same
      table hplace
    exact ⟨s', hs', hr', hv'⟩
  · obtain ⟨s', hs', hr'⟩ := represents_open hr hv hv' ht table same hlevels empty hplace hfuel
    exact ⟨s', hs', hr', hv'⟩

/-- Booking with a free block and a slot free of the other side. -/
theorem book_spec (hr : Represents s v) (hv : v.Valid) (free : v.freeOrders ≠ [])
    (same : v.SameSide side price) (table : OrderBook.inTable clientId clientOrderId)
    (id : OrderId) (leavesQty : Quantity) {fuel : Nat} (hfuel : maxNumOrders < fuel) :
    ∃ s', s.book fuel clientId clientOrderId id side price leavesQty = .ok s' ∧
      Represents s' (v.book clientId clientOrderId id side price leavesQty) ∧
      (v.book clientId clientOrderId id side price leavesQty).Valid := by
  obtain ⟨h, rest, hfree⟩ := List.exists_cons_of_ne_nil free
  obtain ⟨pool, halloc, ht⟩ := @book_taken s v hr
    (v.bookedOrder h clientId clientOrderId id side price leavesQty) rest hfree
  obtain ⟨s', hadd, hr', hv'⟩ := @addOrder_spec s v hr hv _
    (v.bookedOrder h clientId clientOrderId id side price leavesQty) rest hfree ht same table _
    hfuel
  change OrderBook.addOrder fuel { s with orderPool := pool } h = .ok s' at hadd
  refine ⟨s'.sendMarketUpdate ⟨.add, id, s'.instrumentId, side, price, leavesQty,
    v.priorityAt side price⟩, ?_, ?_, ?_⟩
  · have hi := hr.instrumentId
    simp only [OrderBook.book, priorityAt_spec hr hv, ok_bind]
    change s.orderPool.alloc ⟨⟨s.instrumentId, clientId, clientOrderId, id, side, price,
      leavesQty, v.priorityAt side price⟩, none, none⟩ >>= _ = _
    have halloc' : s.orderPool.alloc ⟨⟨s.instrumentId, clientId, clientOrderId, id, side, price,
        leavesQty, v.priorityAt side price⟩, none, none⟩ = .ok (pool, h) := by
      rw [hi]
      exact halloc
    rw [halloc', ok_bind]
    change OrderBook.addOrder fuel { s with orderPool := pool } h >>= _ = _
    rw [hadd, ok_bind]
  · have hbook : v.book clientId clientOrderId id side price leavesQty =
        ({ v.addOrder (v.bookedOrder h clientId clientOrderId id side price leavesQty) with
          freeOrders := rest } : BookView).send
        [.update ⟨.add, id, v.instrumentId, side, price, leavesQty, v.priorityAt side price⟩] := by
      rw [BookView.book]
      simp only [hfree]
      rfl
    rw [hbook]
    have hi : s'.instrumentId = v.instrumentId :=
      hr'.instrumentId.trans (place_instrumentId v _)
    rw [← hi]
    exact hr'.send _
  · rw [BookView.book]
    simp only [hfree]
    exact ⟨hv'.slots, hv'.nonempty, hv'.bidSide, hv'.askSide, hv'.filed, hv'.inTable,
      hv'.clientOrders, hv'.orderHandles, hv'.levelHandles⟩

/-- With no block left `order_pool_.alloc` leaves its array. -/
theorem book_exhausted (hr : Represents s v) (hv : v.Valid) (empty : v.freeOrders = [])
    (id : OrderId) (leavesQty : Quantity) (fuel : Nat) :
    s.book fuel clientId clientOrderId id side price leavesQty = .error .badAccess := by
  have hown := hr.orderPool
  rw [empty] at hown
  simp only [OrderBook.book, priorityAt_spec hr hv, ok_bind]
  rw [hown.alloc_exhausted]
  rfl

end Book

end StockExchange
