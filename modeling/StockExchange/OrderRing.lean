import StockExchange.LevelRing

/-!
# Orders in the ring of their level

`remove_order` and `add_order` against the lists of the view.
-/

namespace StockExchange

open Ring BookView

section Slots
variable {v : BookView} {f : Nat → Option LevelPtr}

/-- The slot table as a relation between slots and levels. -/
theorem slots_iff (hv : v.Valid) :
    (∀ i, f i = (v.slotLevel i).map (·.handle)) ↔
      ∀ i h, f i = some h ↔ ∃ l ∈ v.levels, l.slot = i ∧ l.handle = h := by
  have hfind : ∀ i h, (v.slotLevel i).map (·.handle) = some h ↔
      ∃ l ∈ v.levels, l.slot = i ∧ l.handle = h := by
    intro i h
    constructor
    · intro hh
      obtain ⟨l, hl, hlh⟩ := Option.map_eq_some_iff.mp hh
      exact ⟨l, (Valid.slotLevel_some hl).1, (Valid.slotLevel_some hl).2, hlh⟩
    · rintro ⟨l, hl, rfl, rfl⟩
      rw [hv.slotLevel_eq hl]
      rfl
  constructor
  · intro hf i h
    rw [hf, hfind]
  · intro hf i
    refine Option.ext fun h => ?_
    rw [hf, hfind]

end Slots

section RemoveView
variable {v : BookView} {l : LevelView} {o : OrderView} {A B : List LevelView}

theorem not_mem_other (hv : v.Valid) (hl : l ∈ v.levels) (ho : o ∈ l.orders) {m : LevelView}
    (hm : m ∈ v.levels) (hne : m ≠ l) : ∀ o' ∈ m.orders, o'.handle ≠ o.handle :=
  fun _ ho' heq => hne (hv.level_eq_of_order hm hl ho' ho heq)

theorem drop_of_ne (hv : v.Valid) (hl : l ∈ v.levels) (ho : o ∈ l.orders) {m : LevelView}
    (hm : m ∈ v.levels) (hne : m ≠ l) : m.drop o.handle = m := by
  have : m.orders.filter (fun o' => o'.handle ≠ o.handle) = m.orders :=
    List.filter_eq_self.mpr fun o' ho' => by simpa using not_mem_other hv hl ho hm hne o' ho'
  rw [LevelView.drop, this]

/-- Taking an order out of its side changes its level only. -/
theorem dropOrder_split (hv : v.Valid) (hl : l ∈ v.levels) (ho : o ∈ l.orders)
    (hsub : ∀ m ∈ A ++ l :: B, m ∈ v.levels) (hnd : (A ++ l :: B).Nodup) :
    dropOrder o.handle (A ++ l :: B) =
      A ++ (if (l.drop o.handle).orders = [] then [] else [l.drop o.handle]) ++ B := by
  have hcons := List.nodup_cons.mp (List.perm_middle.nodup_iff.mp hnd)
  have hAB : ∀ m ∈ A ++ B, m ∈ v.levels ∧ m ≠ l := by
    intro m hm
    refine ⟨hsub m ?_, fun heq => hcons.1 (heq ▸ hm)⟩
    rcases List.mem_append.mp hm with hm | hm <;> simp [hm]
  have keep : ∀ ms, (∀ m ∈ ms, m ∈ A ++ B) → dropOrder o.handle ms = ms := by
    intro ms hms
    refine dropOrder_of_not_mem ?_ ?_ <;> intro m hm
    · exact not_mem_other hv hl ho (hAB m (hms m hm)).1 (hAB m (hms m hm)).2
    · exact hv.nonempty m (hAB m (hms m hm)).1
  rw [dropOrder_append, dropOrder_cons, keep A fun m hm => List.mem_append_left B hm,
    keep B fun m hm => List.mem_append_right A hm, List.append_assoc]

theorem own_nodup (hv : v.Valid) (side : Side) : (v.own side).Nodup := by
  have hnd : v.levels.Nodup := hv.levels_nodup.of_map
  rw [levels, List.nodup_append] at hnd
  by_cases hs : side = .buy
  · simpa [own, hs] using hnd.1
  · simpa [own, hs] using hnd.2.1

theorem own_removeOrder_self (hv : v.Valid) (hown : v.own l.side = A ++ l :: B)
    (ho : o ∈ l.orders) : (v.removeOrder o).own l.side =
      A ++ (if (l.drop o.handle).orders = [] then [] else [l.drop o.handle]) ++ B := by
  have hl : l ∈ v.levels := v.own_subset l.side (by simp [hown])
  rw [own_removeOrder, hown]
  refine dropOrder_split hv hl ho (fun m hm => v.own_subset l.side (hown ▸ hm)) ?_
  exact hown ▸ own_nodup hv l.side

theorem own_removeOrder_other (hv : v.Valid) (hl : l ∈ v.levels) (ho : o ∈ l.orders)
    {side : Side} (hne : ¬ (l.side = .buy ↔ side = .buy)) :
    (v.removeOrder o).own side = v.own side := by
  rw [own_removeOrder]
  refine dropOrder_of_not_mem ?_ ?_ <;> intro m hm
  · refine not_mem_other hv hl ho (v.own_subset side hm) ?_
    rintro rfl
    exact hv.own_ne hne (hv.own_side hl) hm rfl
  · exact hv.nonempty m (v.own_subset side hm)

theorem own_of_levels {side : Side} (hl : l ∈ v.own side) (hv : v.Valid) :
    l.side = .buy ↔ side = .buy := by
  by_cases hs : side = .buy
  · simp [hs, hv.bidSide l (by simpa [own, hs] using hl)]
  · simp [hs, hv.askSide l (by simpa [own, hs] using hl)]

end RemoveView

section Steps
variable {s s' : OrderBook} {v v' : BookView}

/-- A step that changes no level but for its first order. -/
structure OrderStep (s s' : OrderBook) : Prop where
  instrumentId : s'.instrumentId = s.instrumentId
  best : s'.best = s.best
  slots : s'.priceLevels = s.priceLevels
  levelPool : ∀ free live, s.priceLevelPool.Owns free live → s'.priceLevelPool.Owns free live
  level : ∀ m, (s'.level m).side = (s.level m).side ∧ (s'.level m).price = (s.level m).price ∧
    (s'.level m).nextEntry = (s.level m).nextEntry ∧
    (s'.level m).prevEntry = (s.level m).prevEntry

theorem OrderStep.trans {s s₁ s₂ : OrderBook} (h : OrderStep s s₁) (h₁ : OrderStep s₁ s₂) :
    OrderStep s s₂ where
  instrumentId := h₁.instrumentId.trans h.instrumentId
  best := h₁.best.trans h.best
  slots := h₁.slots.trans h.slots
  levelPool _ _ hpool := h₁.levelPool _ _ (h.levelPool _ _ hpool)
  level m := by
    obtain ⟨hside, hprice, hnext, hprev⟩ := h.level m
    obtain ⟨hside₁, hprice₁, hnext₁, hprev₁⟩ := h₁.level m
    exact ⟨hside₁.trans hside, hprice₁.trans hprice, hnext₁.trans hnext, hprev₁.trans hprev⟩

theorem orderStep_setNextOrder (s : OrderBook) (p : OrderPtr) (q : Option OrderPtr) :
    OrderStep s (s.setNextOrder p q) :=
  ⟨rfl, rfl, rfl, fun _ _ h => h, fun _ => ⟨rfl, rfl, rfl, rfl⟩⟩

theorem orderStep_setPrevOrder (s : OrderBook) (p : OrderPtr) (q : Option OrderPtr) :
    OrderStep s (s.setPrevOrder p q) :=
  ⟨rfl, rfl, rfl, fun _ _ h => h, fun _ => ⟨rfl, rfl, rfl, rfl⟩⟩

theorem orderStep_setFirstOrder (s : OrderBook) (l : LevelPtr) (q : Option OrderPtr) :
    OrderStep s (s.setFirstOrder l q) :=
  ⟨rfl, rfl, rfl, fun _ _ h => h.write _, fun m => OrderBook.level_setFirstOrder s l m q⟩

theorem mem_levels_of_own {f : LevelView → LevelView}
    (hown : ∀ side, v'.own side = (v.own side).map f) : v'.levels = v.levels.map f := by
  have hb := hown .buy
  have ha := hown .sell
  simp only [own, if_true, show (Side.sell = Side.buy) = False from by simp [Side.sell, Side.buy],
    if_false] at hb ha
  rw [levels, levels, List.map_append, hb, ha]

/-- The rings of levels stay represented when levels change only inside. -/
theorem Represents.replace (hr : Represents s v) (hv : v.Valid) (hv' : v'.Valid)
    (step : OrderStep s s') {f : LevelView → LevelView}
    (hown : ∀ side, v'.own side = (v.own side).map f)
    (hf : ∀ m, (f m).handle = m.handle ∧ (f m).slot = m.slot)
    (hlevel : ∀ m ∈ v.levels, LevelRep s' (f m))
    (instrumentId : v'.instrumentId = v.instrumentId) (freeLevels : v'.freeLevels = v.freeLevels)
    (orderPool : s'.orderPool.Owns v'.freeOrders (v'.orders.map (·.handle)))
    (clientOrders : s'.clientOrders = v'.clientOrders)
    (nextMarketOrderId : s'.nextMarketOrderId = v'.nextMarketOrderId)
    (sent : s'.sent = v'.sent) : Represents s' v' := by
  have hlevels := mem_levels_of_own hown
  have handles : ∀ ls : List LevelView, (ls.map f).map (·.handle) = ls.map (·.handle) := by
    intro ls
    rw [List.map_map]
    exact List.map_congr_left fun m _ => (hf m).1
  refine ⟨?_, ?_, ?_, ?_, orderPool, ?_, clientOrders, nextMarketOrderId, sent⟩
  · rw [step.instrumentId, instrumentId, hr.instrumentId]
  · intro side
    obtain ⟨hhead, hring⟩ := hr.sides side
    rw [hown, handles, step.best]
    exact ⟨hhead, hring.congr (fun m _ => (step.level m).2.2.1) fun m _ => (step.level m).2.2.2⟩
  · intro l hl
    rw [hlevels] at hl
    obtain ⟨m, hm, rfl⟩ := List.mem_map.mp hl
    exact hlevel m hm
  · refine (slots_iff hv').mpr fun i h => ?_
    rw [step.slots, (slots_iff hv).mp hr.slots, hlevels]
    constructor
    · rintro ⟨l, hl, rfl, rfl⟩
      exact ⟨f l, List.mem_map_of_mem hl, (hf l).2, (hf l).1⟩
    · rintro ⟨_, hl, rfl, rfl⟩
      obtain ⟨m, hm, rfl⟩ := List.mem_map.mp hl
      exact ⟨m, hm, (hf m).2.symm, (hf m).1.symm⟩
  · rw [hlevels, handles, freeLevels]
    exact step.levelPool _ _ hr.levelPool

end Steps

section Unlink
variable {s : OrderBook} {v : BookView} {l : LevelView} {o : OrderView}

theorem setClientOrder_ok {clientId : ClientId} {clientOrderId : OrderId}
    (h : OrderBook.inTable clientId clientOrderId) (p : Option OrderPtr) :
    s.setClientOrder clientId clientOrderId p = .ok { s with
      clientOrders := Function.update s.clientOrders clientId.toNat
        (Function.update (s.clientOrders clientId.toNat) clientOrderId.toNat p) } :=
  if_pos h

theorem order_ext {x y : Order} (fields : x.toOrderFields = y.toOrderFields)
    (next : x.nextOrder = y.nextOrder) (prev : x.prevOrder = y.prevOrder) : x = y := by
  cases x
  cases y
  simp_all

/-- The relinking of `remove_order` when other orders remain at the level. -/
def unlinkedOrder (s : OrderBook) (l : LevelPtr) (p a b : OrderPtr) : OrderBook :=
  let s' := (s.setNextOrder a (some b)).setPrevOrder b (some a)
  let s' := if (s.level l).firstOrder = some p then s'.setFirstOrder l (some b) else s'
  (s'.setNextOrder p none).setPrevOrder p none

theorem unlinkedOrder_step (s : OrderBook) (l : LevelPtr) (p a b : OrderPtr) :
    OrderStep s (unlinkedOrder s l p a b) := by
  have links : OrderStep s ((s.setNextOrder a (some b)).setPrevOrder b (some a)) :=
    (orderStep_setNextOrder ..).trans (orderStep_setPrevOrder ..)
  have cleared : ∀ t : OrderBook, OrderStep t ((t.setNextOrder p none).setPrevOrder p none) :=
    fun t => (orderStep_setNextOrder ..).trans (orderStep_setPrevOrder ..)
  unfold unlinkedOrder
  by_cases hfirst : (s.level l).firstOrder = some p
  · simp only [hfirst, if_true]
    exact (links.trans (orderStep_setFirstOrder ..)).trans (cleared _)
  · simp only [hfirst, if_false]
    exact links.trans (cleared _)

theorem unlinkedOrder_fields (s : OrderBook) (l : LevelPtr) (p a b q : OrderPtr) :
    ((unlinkedOrder s l p a b).order q).toOrderFields = (s.order q).toOrderFields := by
  unfold unlinkedOrder
  by_cases hfirst : (s.level l).firstOrder = some p <;> simp [hfirst]

theorem unlinkedOrder_links (s : OrderBook) (l : LevelPtr) {p a b q : OrderPtr} (hq : q ≠ p) :
    ((unlinkedOrder s l p a b).order q).nextOrder =
        (if q = a then some b else (s.order q).nextOrder) ∧
      ((unlinkedOrder s l p a b).order q).prevOrder =
        if q = b then some a else (s.order q).prevOrder := by
  unfold unlinkedOrder
  by_cases hfirst : (s.level l).firstOrder = some p <;> simp [hfirst, hq]

theorem unlinkedOrder_firstOrder (s : OrderBook) (l m : LevelPtr) (p a b : OrderPtr) :
    ((unlinkedOrder s l p a b).level m).firstOrder =
      if m = l ∧ (s.level l).firstOrder = some p then some b else (s.level m).firstOrder := by
  unfold unlinkedOrder
  by_cases hfirst : (s.level l).firstOrder = some p <;> simp [hfirst]

theorem unlinkedOrder_pool (s : OrderBook) (l : LevelPtr) (p a b : OrderPtr)
    {free live : List Nat} (h : s.orderPool.Owns free live) :
    (unlinkedOrder s l p a b).orderPool.Owns free live := by
  have links : ((s.setNextOrder a (some b)).setPrevOrder b (some a)).orderPool.Owns free live :=
    (h.write _).write _
  unfold unlinkedOrder
  by_cases hfirst : (s.level l).firstOrder = some p <;> simp only [hfirst, if_true, if_false] <;>
    exact (links.write _).write _

theorem unlinkedOrder_rest (s : OrderBook) (l : LevelPtr) (p a b : OrderPtr) :
    (unlinkedOrder s l p a b).clientOrders = s.clientOrders ∧
    (unlinkedOrder s l p a b).nextMarketOrderId = s.nextMarketOrderId ∧
    (unlinkedOrder s l p a b).sent = s.sent := by
  unfold unlinkedOrder
  by_cases hfirst : (s.level l).firstOrder = some p <;> simp only [hfirst, if_true, if_false] <;>
    exact ⟨rfl, rfl, rfl⟩

/-- Clearing an order's table entry and returning its block. -/
def released (s : OrderBook) (o : OrderFields) (p : OrderPtr) : OrderBook :=
  OrderBook.freeOrder { s with
    clientOrders := Function.update s.clientOrders o.clientId.toNat
      (Function.update (s.clientOrders o.clientId.toNat) o.clientOrderId.toNat none) } p

theorem getPriceLevel_of_order (hr : Represents s v) (hv : v.Valid) (hl : l ∈ v.levels)
    (ho : o ∈ l.orders) : s.getPriceLevel o.side o.price = some l.handle := by
  rw [hr.getPriceLevel, hv.getPriceLevel_eq hl ho]
  rfl

theorem removeOrder_among (hr : Represents s v) (hv : v.Valid) (hl : l ∈ v.levels)
    {X Y : List OrderView} (horders : l.orders = X ++ o :: Y) {a b : OrderPtr}
    (ha : (Y.map (·.handle) ++ X.map (·.handle)).getLast? = some a)
    (hb : (Y.map (·.handle) ++ X.map (·.handle)).head? = some b) :
    s.removeOrder o.handle = .ok
      (released (unlinkedOrder s l.handle o.handle a b) o.toOrderFields o.handle) := by
  have ho : o ∈ l.orders := by simp [horders]
  have hfields := (hr.level l hl).fields o ho
  have hside : (s.order o.handle).side = o.side := congrArg OrderFields.side hfields
  have hprice : (s.order o.handle).price = o.price := congrArg OrderFields.price hfields
  have hring := (hr.level l hl).ring
  rw [horders, List.map_append, List.map_cons] at hring
  obtain ⟨hal, hlb⟩ := hring.neighbours ha hb
  have hne : ∀ c ∈ Y.map (·.handle) ++ X.map (·.handle), ¬ o.handle = c := by
    have hcons := List.nodup_cons.mp (List.perm_middle.nodup_iff.mp hring.nodup)
    rintro c hc rfl
    exact hcons.1 (List.mem_append.mpr (List.mem_append.mp hc).symm)
  have hoa : ¬ a = o.handle := fun h => hne a (List.mem_of_getLast? ha) h.symm
  have hprev : (s.order o.handle).prevOrder = some a := hal.2
  have hnext : (s.order o.handle).nextOrder = some b := hlb.1
  have htable := hv.inTable o (v.mem_orders.mpr ⟨l, hl, ho⟩)
  have hfields' := unlinkedOrder_fields s l.handle o.handle a b o.handle
  rw [hfields] at hfields'
  have hc := congrArg OrderFields.clientId hfields'
  have hi := congrArg OrderFields.clientOrderId hfields'
  simp only [OrderBook.removeOrder, hside, hprice, getPriceLevel_of_order hr hv hl ho, hprev,
    hnext, Option.some.injEq, hoa, if_false, deref_some, ok_bind, OrderBook.level_setNextOrder,
    OrderBook.level_setPrevOrder]
  change ((unlinkedOrder s l.handle o.handle a b).setClientOrder
    ((unlinkedOrder s l.handle o.handle a b).order o.handle).clientId
    ((unlinkedOrder s l.handle o.handle a b).order o.handle).clientOrderId none >>= _) = _
  simp only [hc, hi, setClientOrder_ok htable, ok_bind]
  rfl

theorem drop_eq (hv : v.Valid) (hl : l ∈ v.levels) {X Y : List OrderView}
    (horders : l.orders = X ++ o :: Y) : (l.drop o.handle).orders = X ++ Y := by
  have hnd : (l.orders.map (·.handle)).Nodup := by
    obtain ⟨A, B, hsplit⟩ := List.append_of_mem hl
    have hnd := hv.orders_nodup
    rw [orders, hsplit] at hnd
    simp only [List.flatMap_append, List.flatMap_cons, List.map_append] at hnd
    exact (List.nodup_append.mp (List.nodup_append.mp hnd).2.1).1
  rw [horders, List.map_append, List.map_cons] at hnd
  have hcons := List.nodup_cons.mp (List.perm_middle.nodup_iff.mp hnd)
  have keep : ∀ o' ∈ X ++ Y, o'.handle ≠ o.handle := by
    intro o' ho' heq
    rw [← List.map_append] at hcons
    exact hcons.1 (heq ▸ List.mem_map_of_mem ho')
  rw [LevelView.drop, horders, List.filter_append, List.filter_cons_of_neg (by simp),
    ← List.filter_append, List.filter_eq_self]
  intro o' ho'
  simpa using keep o' ho'

theorem removeOrder_handles (hv : v.Valid) (ho : o ∈ v.orders) :
    (v.orders.map (·.handle)).Perm (o.handle :: (v.removeOrder o).orders.map (·.handle)) :=
  (perm_removeOrder hv ho).map _

theorem LevelRep.released (h : LevelRep s l) (o : OrderFields) (p : OrderPtr) :
    LevelRep (released s o p) l := by
  have horder : (StockExchange.released s o p).order = s.order := OrderBook.order_freeOrder ..
  exact h.congr rfl rfl rfl fun o' _ => congrFun horder o'.handle

/-- The ring of the level that the order leaves. -/
theorem LevelRep.unlinked (hrep : LevelRep s l) {X Y : List OrderView}
    (horders : l.orders = X ++ o :: Y) (hdrop : (l.drop o.handle).orders = X ++ Y)
    {a b : OrderPtr} (ha : (Y.map (·.handle) ++ X.map (·.handle)).getLast? = some a)
    (hb : (Y.map (·.handle) ++ X.map (·.handle)).head? = some b) :
    LevelRep (unlinkedOrder s l.handle o.handle a b) (l.drop o.handle) := by
  obtain ⟨hside, hprice, -, -⟩ := (unlinkedOrder_step s l.handle o.handle a b).level l.handle
  have hring := hrep.ring
  have hfirst := hrep.firstOrder
  rw [horders, List.map_append, List.map_cons] at hring hfirst
  have hmid := List.nodup_cons.mp (List.perm_middle.nodup_iff.mp hring.nodup)
  have hother : ∀ c ∈ X.map (·.handle) ++ Y.map (·.handle), c ≠ o.handle :=
    fun c hc heq => hmid.1 (heq ▸ hc)
  have hXY : ∀ d ∈ Y.map (·.handle) ++ X.map (·.handle),
      d ∈ X.map (·.handle) ++ Y.map (·.handle) :=
    fun d hd => List.mem_append.mpr (List.mem_append.mp hd).symm
  have haX := hXY a (List.mem_of_getLast? ha)
  have hbX := hXY b (List.mem_of_mem_head? hb)
  refine ⟨hside.trans hrep.side, hprice.trans hrep.price, ?_, ?_, fun o' ho' => ?_⟩
  · rw [hdrop, List.map_append]
    change ((unlinkedOrder s l.handle o.handle a b).level l.handle).firstOrder = _
    rw [unlinkedOrder_firstOrder, hfirst]
    rcases X with _ | ⟨x, X⟩
    · simpa using hb.symm
    · have hx : x.handle ≠ o.handle := hother _ (by simp)
      simp [hx]
  · rw [hdrop, List.map_append]
    refine hring.remove ha hb ?_ ?_ ⟨?_, ?_⟩ <;>
      simp only [OrderBook.nextOrder, OrderBook.prevOrder]
    · intro c hc hca
      rw [(unlinkedOrder_links s l.handle (hother c hc)).1, if_neg hca]
    · intro c hc hcb
      rw [(unlinkedOrder_links s l.handle (hother c hc)).2, if_neg hcb]
    · rw [(unlinkedOrder_links s l.handle (hother a haX)).1, if_pos rfl]
    · rw [(unlinkedOrder_links s l.handle (hother b hbX)).2, if_pos rfl]
  · rw [unlinkedOrder_fields]
    exact hrep.fields o' (List.mem_of_mem_filter ho')

/-- The rings of the other levels. -/
theorem LevelRep.unlinked_other {m : LevelView} (hrep : LevelRep s m) (hv : v.Valid)
    (hl : l ∈ v.levels) (hm : m ∈ v.levels) (hne : m ≠ l) {o₁ o₂ : OrderView}
    (ho : o ∈ l.orders) (ho₁ : o₁ ∈ l.orders) (ho₂ : o₂ ∈ l.orders) :
    LevelRep (unlinkedOrder s l.handle o.handle o₁.handle o₂.handle) m := by
  obtain ⟨hside, hprice, -, -⟩ :=
    (unlinkedOrder_step s l.handle o.handle o₁.handle o₂.handle).level m.handle
  have hhandle : ¬ m.handle = l.handle := fun h => hne (hv.level_eq hm hl h)
  refine hrep.congr hside hprice ?_ fun o' ho' => ?_
  · rw [unlinkedOrder_firstOrder, if_neg fun h => hhandle h.1]
  · obtain ⟨hn, hp⟩ := unlinkedOrder_links s l.handle (a := o₁.handle) (b := o₂.handle)
      (not_mem_other hv hl ho hm hne o' ho')
    rw [if_neg (not_mem_other hv hl ho₁ hm hne o' ho')] at hn
    rw [if_neg (not_mem_other hv hl ho₂ hm hne o' ho')] at hp
    exact order_ext (unlinkedOrder_fields ..) hn hp

theorem represents_removeOrder_among (hr : Represents s v) (hv : v.Valid) (hl : l ∈ v.levels)
    {X Y : List OrderView} (horders : l.orders = X ++ o :: Y) {a b : OrderPtr}
    (ha : (Y.map (·.handle) ++ X.map (·.handle)).getLast? = some a)
    (hb : (Y.map (·.handle) ++ X.map (·.handle)).head? = some b) :
    Represents (released (unlinkedOrder s l.handle o.handle a b) o.toOrderFields o.handle)
      (v.removeOrder o) := by
  have ho : o ∈ l.orders := by simp [horders]
  have hov : o ∈ v.orders := v.mem_orders.mpr ⟨l, hl, ho⟩
  have hrest : X ++ Y ≠ [] := by
    rintro h
    obtain ⟨rfl, rfl⟩ := List.append_eq_nil_iff.mp h
    simp at hb
  have hdrop := drop_eq hv hl horders
  have hkeep : ∀ m ∈ v.levels, m ≠ l → m.drop o.handle = m :=
    fun m hm hne => drop_of_ne hv hl ho hm hne
  have hnonempty : ∀ m ∈ v.levels, (m.drop o.handle).orders ≠ [] := by
    intro m hm
    by_cases hml : m = l
    · rw [hml, hdrop]
      exact hrest
    · rw [hkeep m hm hml]
      exact hv.nonempty m hm
  have hown : ∀ side, (v.removeOrder o).own side = (v.own side).map (.drop o.handle) := by
    intro side
    rw [own_removeOrder, dropOrder, List.filter_eq_self]
    intro m hm
    obtain ⟨k, hk, rfl⟩ := List.mem_map.mp hm
    simpa using hnonempty k (v.own_subset side hk)
  have hmem : ∀ c ∈ Y.map (·.handle) ++ X.map (·.handle), ∃ o' ∈ l.orders, o'.handle = c := by
    intro c hc
    rw [← List.map_append] at hc
    obtain ⟨o', ho', rfl⟩ := List.mem_map.mp hc
    refine ⟨o', ?_, rfl⟩
    rw [horders]
    rcases List.mem_append.mp ho' with h | h <;> simp [h]
  have hstep := unlinkedOrder_step s l.handle o.handle a b
  obtain ⟨hclient, hnextId, hsent⟩ := unlinkedOrder_rest s l.handle o.handle a b
  refine hr.replace hv (hv.removeOrder hov) (f := .drop o.handle) ⟨hstep.instrumentId, hstep.best,
    hstep.slots, hstep.levelPool, hstep.level⟩ hown (fun _ => ⟨rfl, rfl⟩) (fun m hm => ?_) rfl
    ?_ ?_ ?_ (hnextId.trans hr.nextMarketOrderId) (hsent.trans hr.sent)
  · apply LevelRep.released
    by_cases hml : m = l
    · subst hml
      exact (hr.level m hl).unlinked horders hdrop ha hb
    · obtain ⟨o₁, ho₁, rfl⟩ := hmem a (List.mem_of_getLast? ha)
      obtain ⟨o₂, ho₂, rfl⟩ := hmem b (List.mem_of_mem_head? hb)
      rw [hkeep m hm hml]
      exact (hr.level m hm).unlinked_other hv hl hm hml ho ho₁ ho₂
  · have hemptied : v.emptied o.handle = [] := by
      rw [emptied, List.map_eq_nil_iff, List.filter_eq_nil_iff]
      intro m hm
      simpa using hnonempty m hm
    simp [BookView.removeOrder, hemptied]
  · exact (unlinkedOrder_pool s l.handle o.handle a b
      (hr.orderPool.perm (removeOrder_handles hv hov))).release
  · change Function.update (unlinkedOrder s l.handle o.handle a b).clientOrders _ _ = _
    rw [hclient, hr.clientOrders]
    rfl

section Alone
variable (hv : v.Valid) (hl : l ∈ v.levels) (horders : l.orders = [o])
include hv hl horders

/-- The level goes with its only order, and the others stay. -/
theorem mem_levels_alone {m : LevelView} :
    m ∈ (v.removeOrder o).levels ↔ m ∈ v.levels ∧ m ≠ l := by
  have ho : o ∈ l.orders := by simp [horders]
  have hdrop : (l.drop o.handle).orders = [] := by simp [LevelView.drop, horders]
  rw [levels_removeOrder]
  constructor
  · intro hm
    obtain ⟨k, hk, rfl, hne⟩ := mem_dropOrder.mp hm
    have hkl : k ≠ l := by
      rintro rfl
      exact hne hdrop
    rw [drop_of_ne hv hl ho hk hkl]
    exact ⟨hk, hkl⟩
  · rintro ⟨hm, hne⟩
    exact mem_dropOrder.mpr ⟨m, hm, drop_of_ne hv hl ho hm hne, hv.nonempty m hm⟩

theorem emptied_alone : v.emptied o.handle = [l.handle] := by
  have ho : o ∈ l.orders := by simp [horders]
  have hfilter : v.levels.filter (fun m => (m.drop o.handle).orders = []) = [l] := by
    have hnd : v.levels.Nodup := hv.levels_nodup.of_map
    refine (List.perm_singleton.mp ?_)
    refine (List.perm_ext_iff_of_nodup (hnd.filter _) (List.nodup_singleton l)).mpr fun m => ?_
    rw [List.mem_filter, List.mem_singleton, decide_eq_true_eq]
    constructor
    · rintro ⟨hm, hempty⟩
      by_contra hne
      rw [drop_of_ne hv hl ho hm hne] at hempty
      exact hv.nonempty m hm hempty
    · rintro rfl
      exact ⟨hl, by simp [LevelView.drop, horders]⟩
  rw [emptied, hfilter]
  rfl

theorem slots_alone (hr : Represents s v) (i : Nat) :
    Function.update s.priceLevels l.slot none i =
      ((v.removeOrder o).slotLevel i).map (·.handle) := by
  have hmem := fun m => @mem_levels_alone v l o hv hl horders m
  have hov : o ∈ v.orders := v.mem_orders.mpr ⟨l, hl, by simp [horders]⟩
  refine (slots_iff (hv.removeOrder hov)).mpr (fun i h => ?_) i
  by_cases hil : i = l.slot
  · subst hil
    simp only [Function.update_self, reduceCtorEq, false_iff]
    rintro ⟨m, hm, hslot, -⟩
    obtain ⟨hm, hne⟩ := (hmem m).mp hm
    exact hne (hv.level_eq_of_slot hm hl hslot)
  · rw [Function.update_of_ne hil, (slots_iff hv).mp hr.slots]
    constructor
    · rintro ⟨m, hm, rfl, rfl⟩
      refine ⟨m, (hmem m).mpr ⟨hm, ?_⟩, rfl, rfl⟩
      rintro rfl
      exact hil rfl
    · rintro ⟨m, hm, hfound⟩
      exact ⟨m, ((hmem m).mp hm).1, hfound⟩

end Alone

/-- The last order of a level takes the level with it. -/
theorem represents_removeOrder_alone (hr : Represents s v) (hv : v.Valid) (hl : l ∈ v.levels)
    (horders : l.orders = [o]) : ∃ s', s.removeOrder o.handle = .ok s' ∧
      Represents s' (v.removeOrder o) ∧
      ∀ q, (s'.order q).toOrderFields = (s.order q).toOrderFields := by
  have ho : o ∈ l.orders := by simp [horders]
  have hov : o ∈ v.orders := v.mem_orders.mpr ⟨l, hl, ho⟩
  have hfields := (hr.level l hl).fields o ho
  have hside : (s.order o.handle).side = o.side := congrArg OrderFields.side hfields
  have hprice : (s.order o.handle).price = o.price := congrArg OrderFields.price hfields
  obtain ⟨hls, hslot⟩ := hv.filed l hl o ho
  obtain ⟨A, B, hown⟩ := List.append_of_mem (hv.own_side hl)
  have hprev : (s.order o.handle).prevOrder = some o.handle := by
    have hring := (hr.level l hl).ring
    rw [horders] at hring
    exact (isRing_singleton.mp hring).2
  have hdrop : (l.drop o.handle).orders = [] := by simp [LevelView.drop, horders]
  have hself := own_removeOrder_self hv hown ho
  rw [hdrop, if_pos rfl, List.append_nil] at hself
  have hemptied := emptied_alone hv hl horders
  have hlive : (v.levels.map (·.handle)).Perm
      (l.handle :: (v.removeOrder o).levels.map (·.handle)) := by
    rw [levels_removeOrder]
    refine (dropOrder_handles o.handle v.levels).trans ?_
    change (v.emptied o.handle ++ _).Perm _
    rw [hemptied]
    exact .refl _
  obtain ⟨s', hs', step, hslots, hpool, hsides⟩ := removePriceLevel_spec hr hv hown rfl hslot hlive
  have horder : s'.order = s.order := by
    funext q
    rw [OrderBook.order, OrderBook.order, step.orderPool]
  have hreleased : (released s' o.toOrderFields o.handle).order = s.order :=
    (OrderBook.order_freeOrder ..).trans horder
  have hc : (s'.order o.handle).clientId = o.clientId := by
    rw [horder]
    exact congrArg OrderFields.clientId hfields
  have hi : (s'.order o.handle).clientOrderId = o.clientOrderId := by
    rw [horder]
    exact congrArg OrderFields.clientOrderId hfields
  refine ⟨released s' o.toOrderFields o.handle, ?_, ?_, fun q => by rw [hreleased]⟩
  · simp only [OrderBook.removeOrder, hprev, if_true, hside, hprice, hls, hs', ok_bind, hc, hi,
      setClientOrder_ok (hv.inTable o hov)]
    rfl
  · refine ⟨?_, fun side => ?_, fun m hm => ?_, fun i => ?_, ?_, ?_, ?_, ?_, ?_⟩
    · exact step.instrumentId.trans hr.instrumentId
    · have h := hsides side
      by_cases hsame : l.side = .buy ↔ side = .buy
      · rw [if_pos hsame] at h
        rw [own_congr hsame.symm, hself]
        exact ⟨h.head, h.ring⟩
      · rw [if_neg hsame] at h
        rw [own_removeOrder_other hv hl ho hsame]
        exact ⟨h.head, h.ring⟩
    · obtain ⟨hm, -⟩ := (mem_levels_alone hv hl horders).mp hm
      refine (hr.level m hm).congr (step.side _) (step.price _) (step.firstOrder _) ?_
      intro o' _
      rw [hreleased]
    · exact (congrFun hslots i).trans (slots_alone hv hl horders hr i)
    · have hown := hr.orderPool.perm (removeOrder_handles hv hov)
      rw [← step.orderPool] at hown
      exact hown.release
    · have hfree : (v.removeOrder o).freeLevels = l.handle :: v.freeLevels := by
        simp [BookView.removeOrder, hemptied]
      rw [hfree]
      exact hpool
    · change Function.update s'.clientOrders _ _ = _
      rw [step.clientOrders, hr.clientOrders]
      rfl
    · exact step.nextMarketOrderId.trans hr.nextMarketOrderId
    · exact step.sent.trans hr.sent

/-- `remove_order` takes a resting order out of the lists. -/
theorem removeOrder_spec (hr : Represents s v) (hv : v.Valid) (ho : o ∈ v.orders) :
    ∃ s', s.removeOrder o.handle = .ok s' ∧ Represents s' (v.removeOrder o) ∧
      ∀ q, (s'.order q).toOrderFields = (s.order q).toOrderFields := by
  obtain ⟨l, hl, hol⟩ := v.mem_orders.mp ho
  obtain ⟨X, Y, horders⟩ := List.append_of_mem hol
  rcases hYX : Y.map (·.handle) ++ X.map (·.handle) with _ | ⟨b, rest⟩
  · have hX : X = [] := by simpa using (List.append_eq_nil_iff.mp hYX).2
    have hY : Y = [] := by simpa using (List.append_eq_nil_iff.mp hYX).1
    subst hX hY
    exact represents_removeOrder_alone hr hv hl horders
  · have hb : (Y.map (·.handle) ++ X.map (·.handle)).head? = some b := by rw [hYX]; rfl
    obtain ⟨a, ha⟩ : ∃ a, (Y.map (·.handle) ++ X.map (·.handle)).getLast? = some a :=
      ⟨_, List.getLast?_eq_some_getLast (by simp [hYX])⟩
    refine ⟨_, removeOrder_among hr hv hl horders ha hb,
      represents_removeOrder_among hr hv hl horders ha hb, ?_⟩
    intro q
    have : (released (unlinkedOrder s l.handle o.handle a b) o.toOrderFields o.handle).order =
        (unlinkedOrder s l.handle o.handle a b).order := OrderBook.order_freeOrder ..
    rw [this, unlinkedOrder_fields]

end Unlink

end StockExchange
