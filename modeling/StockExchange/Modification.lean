import StockExchange.Calls
import StockExchange.Ownership
import StockExchange.UnknownOrders

/-!
# Modifying an order

At its price and for no more than it has, an order is changed where it stands. Otherwise it is
cancelled and added again, which may fill orders of the other side and open or close levels on
both. Every order that is not filled stays where it is.
-/

namespace StockExchange

open Ring BookView Transitions

namespace BookView

/-- The orders of a side, first to be matched first. -/
def queue (v : BookView) (side : Side) : List OrderPtr :=
  ((v.own side).flatMap (·.orders)).map (·.handle)

/-- Every order that is not `gone` is as it was, on the level where it was, and no two orders
that remain have changed places; `new` may have come. -/
structure KeepsOthers (v w : BookView) (gone : OrderView → Prop) (new : Option OrderPtr) :
    Prop where
  kept : ∀ side, ∀ l ∈ v.own side, ∀ o ∈ l.orders, ¬ gone o →
    ∃ m ∈ w.own side, m.handle = l.handle ∧ m.side = l.side ∧ m.price = l.price ∧ o ∈ m.orders
  order : ∀ side, ((w.queue side).filter fun h => new ≠ some h).Sublist (v.queue side)

section Others
variable {v w x : BookView} {o : OrderView} {gone gone' : OrderView → Prop}

theorem KeepsOthers.refl (v : BookView) (gone : OrderView → Prop) : KeepsOthers v v gone none :=
  ⟨fun _ l hl _ ho _ => ⟨l, hl, rfl, rfl, rfl, ho⟩, fun _ => List.filter_sublist⟩

theorem KeepsOthers.trans {new : Option OrderPtr} (h : KeepsOthers v w gone none)
    (h' : KeepsOthers w x gone' new) : KeepsOthers v x (fun o => gone o ∨ gone' o) new := by
  refine ⟨fun side l hl o ho hgone => ?_, fun side => ?_⟩
  · obtain ⟨hstays, hstays'⟩ := not_or.mp hgone
    obtain ⟨m, hm, hhandle, hside, hprice, hom⟩ := h.kept side l hl o ho hstays
    obtain ⟨k, hk, hhandle', hside', hprice', hok⟩ := h'.kept side m hm o hom hstays'
    exact ⟨k, hk, hhandle'.trans hhandle, hside'.trans hside, hprice'.trans hprice, hok⟩
  · have hfirst := h.order side
    rw [List.filter_eq_self.mpr fun _ _ => by simp] at hfirst
    exact (h'.order side).trans hfirst

theorem KeepsOthers.mono {new : Option OrderPtr} (h : KeepsOthers v w gone new)
    (more : ∀ o, gone o → gone' o) : KeepsOthers v w gone' new :=
  ⟨fun side l hl o ho hgone => h.kept side l hl o ho fun hg => hgone (more o hg), h.order⟩

theorem queue_removeOrder (v : BookView) (o : OrderView) (side : Side) :
    (v.removeOrder o).queue side = (v.queue side).filter fun h => h ≠ o.handle := by
  rw [queue, own_removeOrder, orders_dropOrder, queue, List.filter_map]
  rfl

theorem Valid.handle_ne (hv : v.Valid) {side : Side} {l : LevelView} {o' : OrderView}
    (hl : l ∈ v.own side) (ho' : o' ∈ l.orders) (ho : o ∈ v.orders) (hne : o' ≠ o) :
    o'.handle ≠ o.handle := fun hsame =>
  hne (hv.order_eq (v.mem_orders.mpr ⟨l, v.own_subset side hl, ho'⟩) ho hsame)

theorem keepsOthers_removeOrder (hv : v.Valid) (ho : o ∈ v.orders) :
    KeepsOthers v (v.removeOrder o) (fun o' => o' = o) none := by
  refine ⟨fun side l hl o' ho' hgone => ?_, fun side => ?_⟩
  · have hdiffers := hv.handle_ne hl ho' ho hgone
    have hstays : o' ∈ (l.drop o.handle).orders :=
      List.mem_filter.mpr ⟨ho', by simpa using hdiffers⟩
    refine ⟨l.drop o.handle, ?_, rfl, rfl, rfl, hstays⟩
    rw [own_removeOrder]
    exact mem_dropOrder.mpr ⟨l, hl, rfl, List.ne_nil_of_mem hstays⟩
  · rw [queue_removeOrder]
    exact List.filter_sublist.trans List.filter_sublist

theorem queue_setQty (v : BookView) (h : OrderPtr) (qty : Quantity) (side : Side) :
    (v.setQty h qty).queue side = v.queue side := by
  rw [queue, own_setQty, List.flatMap_map, queue, List.map_flatMap, List.map_flatMap]
  refine List.flatMap_congr fun l _ => ?_
  rw [LevelView.setQty, List.map_map]
  exact List.map_congr_left fun o _ => withQty_handle h qty o

theorem keepsOthers_setQty (hv : v.Valid) (ho : o ∈ v.orders) (qty : Quantity) :
    KeepsOthers v (v.setQty o.handle qty) (fun o' => o' = o) none := by
  refine ⟨fun side l hl o' ho' hgone => ?_, fun side => ?_⟩
  · have hdiffers := hv.handle_ne hl ho' ho hgone
    refine ⟨l.setQty o.handle qty, ?_, rfl, rfl, rfl, ?_⟩
    · rw [own_setQty]
      exact List.mem_map_of_mem hl
    · exact List.mem_map.mpr ⟨o', ho', if_neg hdiffers⟩
  · rw [queue_setQty]
    exact List.filter_sublist

/-- An execution disturbs no order but the one at the head. -/
theorem keepsOthers_fill (hv : v.Valid) (ho : o ∈ v.orders) (a : Aggressor)
    (leavesQty : Quantity) : KeepsOthers v (v.fill a leavesQty o) (fun o' => o' = o) none := by
  by_cases hzero : o.qty - min leavesQty o.qty = 0
  · have h := keepsOthers_removeOrder hv ho
    rw [fill_eq_removeOrder a hzero]
    exact ⟨h.kept, h.order⟩
  · have h := keepsOthers_setQty hv ho (o.qty - min leavesQty o.qty)
    rw [fill_eq_setQty a hzero]
    exact ⟨h.kept, h.order⟩

theorem keepsOthers_appended (h : Appended v w o) :
    KeepsOthers v w (fun _ => False) (some o.handle) := by
  refine ⟨fun side l hl o' ho' _ => ?_, fun side => ?_⟩
  · rw [← h.others side] at hl
    obtain ⟨m, hm, rfl, -⟩ := mem_dropOrder.mp hl
    exact ⟨m, hm, rfl, rfl, rfl, (List.mem_filter.mp ho').1⟩
  · have hqueue : (w.queue side).filter (fun p => some o.handle ≠ some p) = v.queue side := by
      rw [queue, queue, ← h.others side, orders_dropOrder, List.filter_map]
      refine congrArg _ (List.filter_congr fun o' _ => ?_)
      simp [eq_comm]
    rw [hqueue]

end Others

/-- A `FILLED` response has told the owner of `o` of an execution. -/
def FilledIn (ms : List Message) (o : OrderView) : Prop :=
  ∃ execQty leavesQty, .response ⟨.filled, o.clientId, o.instrumentId, o.clientOrderId,
    o.marketOrderId, o.side, o.price, execQty, leavesQty⟩ ∈ ms

/-- What the rounds of a matching do to everything but the taker. -/
structure Matched (v w : BookView) (ms : List Message) : Prop where
  sent : w.sent = v.sent ++ ms
  others : KeepsOthers v w (FilledIn ms) none
  room : v.freeOrders ≠ [] → w.freeOrders ≠ []
  slots : ∀ side price, v.SameSide side price → w.SameSide side price
  nextMarketOrderId : w.nextMarketOrderId = v.nextMarketOrderId

section Matching
variable {v w : BookView} {o : OrderView} {a : Aggressor} {ms : List Message}

theorem sameSide_removeOrder {side : Side} {price : Price} (h : v.SameSide side price) :
    (v.removeOrder o).SameSide side price := by
  intro l hl
  rw [levels_removeOrder] at hl
  obtain ⟨m, hm, rfl, -⟩ := mem_dropOrder.mp hl
  exact h m hm

theorem sameSide_setQty {side : Side} {price : Price} (h : v.SameSide side price) (p : OrderPtr)
    (qty : Quantity) : (v.setQty p qty).SameSide side price := by
  intro l hl
  rw [levels_setQty] at hl
  obtain ⟨m, hm, rfl⟩ := List.mem_map.mp hl
  exact h m hm

/-- The order at the head is told of its execution. -/
theorem filledIn_fillMessages (i : InstrumentId) (a : Aggressor) (leavesQty : Quantity)
    (o : OrderView) (qty : Quantity) :
    FilledIn (fillMessages i a leavesQty o.toOrderFields qty) o :=
  ⟨qty, o.qty - qty, List.mem_cons_of_mem _ List.mem_cons_self⟩

theorem Matched.fill (h : Matched v w ms) (hw : w.Valid) (ho : o ∈ w.orders)
    (leavesQty : Quantity) : Matched v (w.fill a leavesQty o) (ms ++
      fillMessages w.instrumentId a leavesQty o.toOrderFields (min leavesQty o.qty)) := by
  refine ⟨?_, ?_, fun hroom => ?_, fun side price hsame => ?_, ?_⟩
  · rw [sent_fill, h.sent, List.append_assoc]
  · refine (h.others.trans (keepsOthers_fill hw ho a leavesQty)).mono fun o' hgone => ?_
    rcases hgone with ⟨execQty, left, hmem⟩ | rfl
    · exact ⟨execQty, left, List.mem_append_left _ hmem⟩
    · obtain ⟨execQty, left, hmem⟩ := filledIn_fillMessages w.instrumentId a leavesQty o'
        (min leavesQty o'.qty)
      exact ⟨execQty, left, List.mem_append_right _ hmem⟩
  · by_cases hzero : o.qty - min leavesQty o.qty = 0
    · rw [fill_eq_removeOrder a hzero]
      exact List.cons_ne_nil _ _
    · rw [fill_eq_setQty a hzero]
      exact h.room hroom
  · have hsame' := h.slots side price hsame
    by_cases hzero : o.qty - min leavesQty o.qty = 0
    · rw [fill_eq_removeOrder a hzero]
      exact sameSide_removeOrder (v := w.send _) hsame'
    · rw [fill_eq_setQty a hzero]
      exact sameSide_setQty hsame' o.handle _
  · rw [nextMarketOrderId_fill, h.nextMarketOrderId]

theorem matched_accept (hv : v.Valid) (clientId : ClientId) (clientOrderId : OrderId)
    (side : Side) (price : Price) (quantity : Quantity) :
    ∃ ms, Matched (v.accepted clientId clientOrderId side price quantity)
      (v.accept clientId clientOrderId side price quantity).1 ms := by
  have hw := accepted_valid hv clientId clientOrderId side price quantity
  refine matchLoop_keeps (J := fun w _ => ∃ ms, Matched _ w ms) ?_ _ hw ⟨[], ?_⟩
  · rintro w leavesQty o hw ⟨ms, h⟩ hhead - -
    exact ⟨_, h.fill hw (mem_orders_of_head hw hhead).2 leavesQty⟩
  · exact ⟨(List.append_nil _).symm, KeepsOthers.refl _ _, id, fun _ _ => id, rfl⟩

end Matching

/-- `x` keeps its number and its place, and its quantity is the new one. -/
structure Reduced (v w : BookView) (x : OrderView) (quantity : Quantity) (ms : List Message) :
    Prop where
  changed : w = (v.setQty x.handle quantity).send ms
  others : KeepsOthers v w (fun o => o = x ∨ FilledIn ms o) none
  reports : ms.head? = some (.response ⟨.modified, x.clientId, v.instrumentId, x.clientOrderId,
    x.marketOrderId, x.side, x.price, 0, quantity⟩)

def canceledResponse (v : BookView) (x : OrderView) : ClientResponseInternal :=
  ⟨.canceled, x.clientId, v.instrumentId, x.clientOrderId, x.marketOrderId, x.side, x.price,
    invalidQuantity, x.qty⟩

/-- The book after `x` is cancelled and matched as a new order, and what is left of it. -/
def rematch (v : BookView) (x : OrderView) (price : Price) (quantity : Quantity) :
    BookView × Quantity :=
  (v.cancelOrder x.clientId x.clientOrderId x).accept x.clientId x.clientOrderId x.side price
    quantity

/-- `x` leaves the book and is matched as a new order, and what is left of it is booked behind
the orders of its level under the next number. -/
structure Requeued (v w : BookView) (x : OrderView) (price : Price) (quantity : Quantity)
    (ms : List Message) : Prop where
  leaves : Deleted v (v.cancelOrder x.clientId x.clientOrderId x) x
  filled : (v.rematch x price quantity).2 = 0 → w = (v.rematch x price quantity).1 ∧
    KeepsOthers v w (fun o => o = x ∨ FilledIn ms o) none
  booked : 0 < (v.rematch x price quantity).2 → ∃ o : OrderView, o.clientId = x.clientId ∧
    o.clientOrderId = x.clientOrderId ∧ o.marketOrderId = v.nextMarketOrderId ∧
    o.side = x.side ∧ o.price = price ∧ o.qty = (v.rematch x price quantity).2 ∧
    Appended (v.rematch x price quantity).1 w o ∧
    KeepsOthers v w (fun o => o = x ∨ FilledIn ms o) (some o.handle)
  nextMarketOrderId : w.nextMarketOrderId = v.nextMarketOrderId + 1
  reports : ms.head? = some (.response (v.canceledResponse x))

section Modify
variable {v : BookView} {x : OrderView} {price : Price} {quantity : Quantity}

theorem reduced_reduce (hv : v.Valid) (hx : x ∈ v.orders) (quantity : Quantity) :
    ∃ ms, (v.reduce x.clientId x.clientOrderId x quantity).sent = v.sent ++ ms ∧
      Reduced v (v.reduce x.clientId x.clientOrderId x quantity) x quantity ms := by
  have h := keepsOthers_setQty hv hx quantity
  exact ⟨_, rfl, rfl, ⟨fun side l hl o ho hgone =>
    h.kept side l hl o ho fun heq => hgone (Or.inl heq), h.order⟩, rfl⟩

/-- What the cancel and the matching do, and what they send. -/
theorem rematch_spec (hv : v.Valid) (hx : x ∈ v.orders) (price : Price) (quantity : Quantity) :
    ∃ ms, (v.rematch x price quantity).1.sent = v.sent ++ ms ∧
      ms.head? = some (.response (v.canceledResponse x)) ∧
      KeepsOthers v (v.rematch x price quantity).1 (fun o => o = x ∨ FilledIn ms o) none ∧
      (v.rematch x price quantity).1.freeOrders ≠ [] ∧
      (v.SameSide x.side price → (v.rematch x price quantity).1.SameSide x.side price) ∧
      (v.rematch x price quantity).1.nextMarketOrderId = v.nextMarketOrderId + 1 := by
  let c := v.cancelOrder x.clientId x.clientOrderId x
  obtain ⟨ms, h⟩ := matched_accept (v := c) (cancelOrder_valid hv hx _ _) x.clientId
    x.clientOrderId x.side price quantity
  obtain ⟨before, hbefore, hhead⟩ : ∃ before,
      (c.accepted x.clientId x.clientOrderId x.side price quantity).sent = v.sent ++ before ∧
        before.head? = some (.response (v.canceledResponse x)) :=
    ⟨_, List.append_assoc .., rfl⟩
  have hcancel : KeepsOthers v (c.accepted x.clientId x.clientOrderId x.side price quantity)
      (fun o => o = x) none := by
    have h := keepsOthers_removeOrder hv hx
    exact ⟨h.kept, h.order⟩
  refine ⟨before ++ ms, ?_, ?_, ?_, h.room (List.cons_ne_nil _ _),
    fun same => h.slots _ _ (sameSide_removeOrder same), h.nextMarketOrderId⟩
  · refine h.sent.trans ?_
    rw [hbefore, List.append_assoc]
  · rw [List.head?_append, hhead]
    rfl
  · refine (hcancel.trans h.others).mono fun o hgone => hgone.imp_right ?_
    rintro ⟨execQty, left, hmem⟩
    exact ⟨execQty, left, List.mem_append_right _ hmem⟩

/-- A cancelled order leaves room for what is left of it. -/
theorem bookable_rematch (hv : v.Valid) (hx : x ∈ v.orders) (same : v.SameSide x.side price) :
    Bookable x.clientId x.clientOrderId x.side price (v.rematch x price quantity) := by
  obtain ⟨ms, -, -, -, hroom, hslots, -⟩ := rematch_spec hv hx price quantity
  exact fun _ => ⟨hv.inTable x hx, hroom, hslots same⟩

theorem requeued_add (hv : v.Valid) (hx : x ∈ v.orders) (same : v.SameSide x.side price)
    (quantity : Quantity) :
    ∃ ms, ((v.cancelOrder x.clientId x.clientOrderId x).add x.clientId x.clientOrderId x.side price
        quantity).sent = v.sent ++ ms ∧
      Requeued v ((v.cancelOrder x.clientId x.clientOrderId x).add x.clientId x.clientOrderId x.side
        price quantity) x price quantity ms := by
  obtain ⟨ms, hsent, hhead, hothers, -, -, hnext⟩ := rematch_spec hv hx price quantity
  have hdeleted := deleted_removeOrder hv hx
  have hleaves : Deleted v (v.cancelOrder x.clientId x.clientOrderId x) x :=
    ⟨hdeleted.orders, hdeleted.levels, hdeleted.others, hdeleted.freeOrders,
      hdeleted.clientOrders⟩
  refine add_cases (P := fun w => ∃ ms, w.sent = v.sent ++ ms ∧
    Requeued v w x price quantity ms) (cancelOrder_valid hv hx _ _) (bookable_rematch hv hx same)
    (fun w heq => ?_) fun w leavesQty h rest heq hw hpos hfree hslot => ?_
  · change v.rematch x price quantity = (w, 0) at heq
    rw [heq] at hsent hothers hnext
    refine ⟨ms, hsent, hleaves, fun _ => ⟨?_, hothers⟩, fun hpos => ?_, hnext, hhead⟩
    · rw [heq]
    · rw [heq] at hpos
      exact absurd hpos (UInt32.lt_irrefl 0)
  · change v.rematch x price quantity = (w, leavesQty) at heq
    rw [heq] at hsent hothers hnext
    let o := w.bookedOrder h x.clientId x.clientOrderId v.nextMarketOrderId x.side price leavesQty
    have hadded := appended_addOrder (o := o) hw hslot hfree (fresh_of_free hw hfree)
    have happended : Appended w (w.book x.clientId x.clientOrderId v.nextMarketOrderId x.side price
        leavesQty) o := by
      rw [book_eq hfree]
      exact ⟨hadded.joins, hadded.opens, hadded.others, hadded.freeOrders, hadded.clientOrders⟩
    refine ⟨ms ++ [.update ⟨.add, v.nextMarketOrderId, w.instrumentId, x.side, price, leavesQty,
      w.priorityAt x.side price⟩], ?_, hleaves, fun hzero => ?_, fun _ => ⟨o, rfl, rfl, rfl, rfl,
      rfl, ?_, ?_, ?_⟩, ?_, ?_⟩
    · rw [← List.append_assoc, ← hsent]
      exact sent_book hfree _ _ _ _ _ _
    · rw [heq] at hzero
      exact absurd hzero (UInt32.pos_iff_ne_zero.mp hpos)
    · rw [heq]
      rfl
    · rw [heq]
      exact happended
    · refine (hothers.trans (keepsOthers_appended happended)).mono fun o' hgone => ?_
      rcases hgone with (hx' | ⟨execQty, left, hmem⟩) | hfalse
      · exact Or.inl hx'
      · exact Or.inr ⟨execQty, left, List.mem_append_left _ hmem⟩
      · exact hfalse.elim
    · exact (nextMarketOrderId_book hfree _ _ _ _ _ _).trans hnext
    · rw [List.head?_append, hhead]
      rfl

end Modify

end BookView

namespace OrderBook

/-- `modify` under the ids of `p` changes `p` in place, or takes it out and adds it again, and
disturbs no other order. -/
def Modifies (fuel : Nat) (s : OrderBook) (p : OrderPtr) (price : Price) (quantity : Quantity) :
    Prop :=
  ∃ s' v w x ms, s.modify fuel (s.order p).clientId (s.order p).clientOrderId price quantity =
      .ok s' ∧
    Represents s v ∧ x ∈ v.orders ∧ x.handle = p ∧ Represents s' w ∧ w.Valid ∧
    w.sent = v.sent ++ ms ∧
    if x.price = price ∧ quantity ≤ x.qty then Reduced v w x quantity ms
    else Requeued v w x price quantity ms

/-- No two resting orders have the same number. -/
def DistinctIds (s : OrderBook) : Prop :=
  ∀ p ∈ s.resting, ∀ q ∈ s.resting, (s.order p).marketOrderId = (s.order q).marketOrderId → p = q

end OrderBook

section Heap
variable {s s' : OrderBook} {v : BookView} {fuel : Nat} {price : Price} {quantity : Quantity}

/-- A modify that finds the order modifies it. -/
theorem modifies_of_found (hr : Represents s v) (hv : v.Valid) (hfuel : maxNumOrders < fuel)
    {x : OrderView} (hx : x ∈ v.orders) (same : v.SameSide x.side price) (quantity : Quantity)
    (hentry : s.clientOrders x.clientId.toNat x.clientOrderId.toNat = some x.handle) :
    s.Modifies fuel x.handle price quantity := by
  obtain ⟨hc, hi⟩ := hv.inTable x hx
  have hfind : v.findOrder x.clientId x.clientOrderId = some x :=
    findOrder_of_entry _ _ hv hx hc (hr.clientOrders ▸ hentry)
  have hfields := hr.fields hx
  obtain ⟨s', hs', hr', hv'⟩ := modify_spec x.clientId x.clientOrderId price quantity hr hv hfuel
    (fun _ => hi) fun o ho _ => by
      obtain rfl := Option.some.inj (hfind.symm.trans ho)
      exact bookable_rematch hv hx same
  rw [BookView.modify, hfind] at hr' hv'
  dsimp only at hr' hv'
  by_cases hqueue : x.price ≠ price ∨ x.qty < quantity
  · rw [if_pos hqueue] at hr' hv'
    obtain ⟨ms, hsent, hrequeued⟩ := requeued_add hv hx same quantity
    refine ⟨s', v, _, x, ms, ?_, hr, hx, rfl, hr', hv', hsent, ?_⟩
    · rw [hfields]
      exact hs'
    · rw [if_neg]
      · exact hrequeued
      · rintro ⟨hprice, hqty⟩
        exact hqueue.elim (fun hne => hne hprice) fun hlt => UInt32.not_lt.mpr hqty hlt
  · rw [if_neg hqueue] at hr' hv'
    obtain ⟨hprice, hqty⟩ := not_or.mp hqueue
    obtain ⟨ms, hsent, hreduced⟩ := reduced_reduce hv hx quantity
    refine ⟨s', v, _, x, ms, ?_, hr, hx, rfl, hr', hv', hsent, ?_⟩
    · rw [hfields]
      exact hs'
    · rw [if_pos ⟨not_not.mp hprice, UInt32.not_lt.mp hqty⟩]
      exact hreduced

/-! ### The first message names the order that was found -/

theorem first_of_modify (hr : Represents s v) (hv : v.Valid) {clientId : ClientId}
    {clientOrderId : OrderId} {y : OrderView} (hy : y ∈ v.orders)
    (hfind : s.findClientOrder clientId clientOrderId = .ok (some y.handle))
    (h : s.modify fuel clientId clientOrderId price quantity = .ok s') :
    ∃ r ms, s'.sent = s.sent ++ .response r :: ms ∧ r.marketOrderId = y.marketOrderId := by
  obtain ⟨hid, hview⟩ := findOrder_of_findClientOrder hr hv hy hfind
  obtain ⟨-, hfields, t, ht, hrt, -, -⟩ := found_spec clientId clientOrderId hr hv hid hview
  simp only [OrderBook.modify, hfind, ok_bind, ht, hfields] at h
  split at h
  · obtain ⟨ms, hms, -⟩ := (OrderBook.add_reports h).sent
    refine ⟨⟨.canceled, clientId, v.instrumentId, clientOrderId, y.marketOrderId, y.side, y.price,
      invalidQuantity, y.qty⟩, .update ⟨.cancel, y.marketOrderId, v.instrumentId, y.side, y.price,
      0, y.priority⟩ :: ms, ?_, rfl⟩
    rw [hms, hrt.sent, hr.sent, cancelOrder, send, List.append_assoc]
    rfl
  · obtain rfl := Except.ok.inj h
    refine ⟨⟨.modified, clientId, s.instrumentId, clientOrderId, y.marketOrderId, y.side, price, 0,
      quantity⟩, [.update ⟨.modify, y.marketOrderId, s.instrumentId, y.side, price, quantity,
      y.priority⟩], ?_, rfl⟩
    exact List.append_assoc ..

/-- What is modified is told first, under its number. -/
theorem reports_of_modifies (hr : Represents s v) {x : OrderView} (hx : x ∈ v.orders)
    (h : s.Modifies fuel x.handle price quantity) :
    ∃ s' r ms, s.modify fuel x.clientId x.clientOrderId price quantity = .ok s' ∧
      s'.sent = s.sent ++ .response r :: ms ∧ r.marketOrderId = x.marketOrderId ∧
      r.type ≠ .modifyRejected := by
  obtain ⟨s', v', w, x', ms, hs', hr', hx', hsame, hw, -, hsent, hcase⟩ := h
  have hfields : x'.toOrderFields = x.toOrderFields := by
    rw [← hr'.fields hx', hsame, hr.fields hx]
  have hid : x'.marketOrderId = x.marketOrderId := congrArg OrderFields.marketOrderId hfields
  rw [hr.fields hx] at hs'
  rw [← hw.sent, ← hr'.sent] at hsent
  split at hcase
  · obtain ⟨ns, rfl⟩ := List.head?_eq_some_iff.mp hcase.reports
    exact ⟨s', _, ns, hs', hsent, hid, by dsimp only; decide⟩
  · obtain ⟨ns, rfl⟩ := List.head?_eq_some_iff.mp hcase.reports
    exact ⟨s', _, ns, hs', hsent, hid, by dsimp only [canceledResponse]; decide⟩

theorem found_of_modifies (hr : Represents s v) (hv : v.Valid) {x : OrderView} (hx : x ∈ v.orders)
    (hdistinct : s.DistinctIds) (h : s.Modifies fuel x.handle price quantity) :
    s.clientOrders x.clientId.toNat x.clientOrderId.toNat = some x.handle := by
  obtain ⟨s', r, ms, hs', hsent, hid, htype⟩ := reports_of_modifies hr hx h
  rcases hfind : s.findClientOrder x.clientId x.clientOrderId with fault | found
  · rw [OrderBook.modify, hfind] at hs'
    cases hs'
  · rcases found with _ | q
    · rw [OrderBook.modify, hfind] at hs'
      rw [← Except.ok.inj hs'] at hsent
      have hfirst := List.append_cancel_left hsent
      simp only [List.cons.injEq, Message.response.injEq] at hfirst
      exact absurd (hfirst.1 ▸ rfl) htype
    · have hentry := entry_of_findClientOrder hfind
      obtain ⟨y, hy, rfl, -, -⟩ := hv.clientOrders _ _ _ (hr.clientOrders ▸ hentry)
      obtain ⟨r', ms', hsent', hid'⟩ := first_of_modify hr hv hy hfind hs'
      have hfirst := List.append_cancel_left (hsent.symm.trans hsent')
      simp only [List.cons.injEq, Message.response.injEq] at hfirst
      have hsame : y.handle = x.handle := by
        refine hdistinct _ ((mem_resting_iff hr hv).mpr (List.mem_map_of_mem hy)) _
          ((mem_resting_iff hr hv).mpr (List.mem_map_of_mem hx)) ?_
        rw [hr.fields hy, hr.fields hx, ← hid', ← hid, hfirst.1]
      rw [hentry, hsame]

/-- On every well-formed book a resting order, the slot of the new price being empty or of its
side, is modified by the rule if the table leads to it; and only then, if the numbers of resting
orders differ. -/
theorem modify_by_rule (hr : Represents s v) (hv : v.Valid) (hfuel : maxNumOrders < fuel)
    {p : OrderPtr} (hp : p ∈ s.resting) (price : Price) (quantity : Quantity)
    (hslot : s.SlotOfSide (s.order p).side price) :
    (s.clientOrders (s.order p).clientId.toNat (s.order p).clientOrderId.toNat = some p →
      s.Modifies fuel p price quantity) ∧
    (s.DistinctIds → (s.Modifies fuel p price quantity ↔
      s.clientOrders (s.order p).clientId.toNat (s.order p).clientOrderId.toNat = some p)) := by
  obtain ⟨x, hx, rfl⟩ := List.mem_map.mp ((mem_resting_iff hr hv).mp hp)
  rw [hr.fields hx] at hslot ⊢
  have hsame := (slotOfSide_iff hr hv x.side price).mp hslot
  have hfound := modifies_of_found hr hv hfuel hx hsame quantity
  exact ⟨hfound, fun hdistinct => ⟨found_of_modifies hr hv hx hdistinct, hfound⟩⟩

/-- The hypotheses are met by the only buy, reduced in place or moved up. -/
theorem modify_by_rule_sample :
    ∃ s : OrderBook, s.Modifies 2049 0 10 3 ∧ s.Modifies 2049 0 11 7 := by
  obtain ⟨s, hr, hv⟩ := oneBuy_represented
  have hx : (⟨⟨0, 1, 1, 1, .buy, 10, 5, 1⟩, 0⟩ : OrderView) ∈ oneBuy.orders := by decide +kernel
  have hp : 0 ∈ s.resting := (mem_resting_iff hr hv).mpr (List.mem_map.mpr ⟨_, hx, rfl⟩)
  have hfields := hr.fields hx
  have hslot : ∀ price, price = 10 ∨ price = 11 → s.SlotOfSide (s.order 0).side price := by
    rw [hfields]
    rintro price (rfl | rfl) <;>
      exact (slotOfSide_iff hr hv .buy _).mpr (by unfold SameSide; decide +kernel)
  have hentry : s.clientOrders (s.order 0).clientId.toNat (s.order 0).clientOrderId.toNat =
      some 0 := by
    rw [hfields, hr.clientOrders]
    decide +kernel
  have hfuel : maxNumOrders < 2049 := by decide
  exact ⟨s, (modify_by_rule hr hv hfuel hp 10 3 (hslot 10 (Or.inl rfl))).1 hentry,
    (modify_by_rule hr hv hfuel hp 11 7 (hslot 11 (Or.inr rfl))).1 hentry⟩

/-- Of two buys under one id the first is out of reach: a modify of it moves the second. -/
theorem sameId_modified : ∃ s v, Represents s v ∧ v.Valid ∧ 0 ∈ s.resting ∧
    (s.order 0).clientId = 1 ∧ (s.order 0).clientOrderId = 1 ∧
    s.SlotOfPrice (s.order 0).side 10 ∧ ¬ s.Modifies 3000 0 10 3 := by
  obtain ⟨s, hs, hentry⟩ := @reached_of_any _ _ _ (OrderBook.call 3000)
    (OrderBook.Books 3000 OrderBook.SlotOfSide) (.create 0) sameId _
    (fun s => s.clientOrders 1 1 = some 1) (by decide +kernel)
  simp only [decide_eq_true_eq] at hentry
  obtain ⟨hr, hv⟩ := represents_of_booksOfSide (by decide) hs
  let first : OrderView := ⟨⟨0, 1, 1, 1, .buy, 10, 5, 1⟩, 0⟩
  have horders : (sameId.foldl BookView.call (.create 0)).orders =
      [⟨⟨0, 1, 1, 2, .buy, 11, 5, 1⟩, 1⟩, first] := by decide +kernel
  have hx : first ∈ (sameId.foldl BookView.call (.create 0)).orders := by
    rw [horders]
    exact List.mem_cons_of_mem _ List.mem_cons_self
  have hdistinct : s.DistinctIds := by
    intro p hp q hq hid
    obtain ⟨o, ho, rfl⟩ := List.mem_map.mp ((mem_resting_iff hr hv).mp hp)
    obtain ⟨o', ho', rfl⟩ := List.mem_map.mp ((mem_resting_iff hr hv).mp hq)
    rw [hr.fields ho, hr.fields ho'] at hid
    rw [horders] at ho ho'
    simp only [List.mem_cons, List.not_mem_nil, or_false] at ho ho'
    rcases ho with rfl | rfl <;> rcases ho' with rfl | rfl <;> simp_all [first]
  have hfields := hr.fields hx
  refine ⟨s, _, hr, hv, (mem_resting_iff hr hv).mpr (List.mem_map.mpr ⟨_, hx, rfl⟩), ?_, ?_, ?_,
    fun h => ?_⟩
  · exact congrArg OrderFields.clientId hfields
  · exact congrArg OrderFields.clientOrderId hfields
  · have hside : (s.order 0).side = .buy := congrArg OrderFields.side hfields
    rw [hside, slotOfPrice_iff hr hv]
    unfold SamePrice
    decide +kernel
  · have hfound := found_of_modifies hr hv hx hdistinct h
    rw [show s.clientOrders first.clientId.toNat first.clientOrderId.toNat = some 1 from hentry]
      at hfound
    cases hfound

end Heap

end StockExchange
