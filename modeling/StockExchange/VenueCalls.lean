import StockExchange.Addressees
import StockExchange.InDoubt
import StockExchange.Recording
import StockExchange.ReferenceBook
import Mathlib.Logic.Relation

/-!
# What a client meets of an order book

For one of its clients a call on the book is the answer to its own request and executions of its
orders, or such executions alone if another client made it.
-/

namespace StockExchange

open BookView Relation

/-- An order in the book, as its client knows it. -/
def OrderView.resting (o : OrderView) : VenueOrder :=
  ⟨o.clientId, o.instrumentId, o.clientOrderId, o.marketOrderId, o.side, o.price, o.qty⟩

namespace VenueOrder

/-- What is left of an order, unless nothing is. -/
def left (x : VenueOrder) (leavesQty : Quantity) : List VenueOrder :=
  if leavesQty = 0 then [] else [{ x with leavesQty := leavesQty }]

/-- What the client is told of an execution. -/
def filled (x : VenueOrder) (price : Price) (execQty : Quantity) : ClientResponseInternal :=
  ⟨.filled, x.clientId, x.instrumentId, x.clientOrderId, x.marketOrderId, x.side, price, execQty,
    x.leavesQty - execQty⟩

end VenueOrder

/-- The orders of a client among all. -/
def ordersOf (clientId : ClientId) : List VenueOrder → List VenueOrder :=
  List.filter fun x => x.clientId = clientId

/-- The responses to a client among all. -/
def responsesTo (clientId : ClientId) : List ClientResponseInternal → List ClientResponseInternal :=
  List.filter fun r => r.clientId = clientId

theorem ordersOf_append (clientId : ClientId) (xs ys : List VenueOrder) :
    ordersOf clientId (xs ++ ys) = ordersOf clientId xs ++ ordersOf clientId ys :=
  List.filter_append ..

theorem ordersOf_cons_other {clientId : ClientId} {x : VenueOrder} (hx : x.clientId ≠ clientId)
    (xs : List VenueOrder) : ordersOf clientId (x :: xs) = ordersOf clientId xs :=
  List.filter_cons_of_neg fun h => hx (of_decide_eq_true h)

theorem ordersOf_cons_own {clientId : ClientId} {x : VenueOrder} (hx : x.clientId = clientId)
    (xs : List VenueOrder) : ordersOf clientId (x :: xs) = x :: ordersOf clientId xs :=
  List.filter_cons_of_pos (decide_eq_true hx)

theorem ordersOf_perm (clientId : ClientId) {xs ys : List VenueOrder} (h : xs.Perm ys) :
    (ordersOf clientId xs).Perm (ordersOf clientId ys) := h.filter _

theorem ordersOf_left (clientId : ClientId) (x : VenueOrder) (leavesQty : Quantity) :
    ordersOf clientId (x.left leavesQty) =
      if x.clientId = clientId then x.left leavesQty else [] := by
  rw [VenueOrder.left]
  by_cases hzero : leavesQty = 0
  · rw [if_pos hzero, ite_self]
    rfl
  · rw [if_neg hzero]
    by_cases hown : x.clientId = clientId <;> simp [ordersOf, hown]

theorem responsesTo_append (clientId : ClientId) (rs rs' : List ClientResponseInternal) :
    responsesTo clientId (rs ++ rs') = responsesTo clientId rs ++ responsesTo clientId rs' :=
  List.filter_append ..

namespace TradingSystem

/-- An execution at the exchange. -/
def Executes (s s' : TradingSystem) : Prop :=
  ∃ n price execQty, s' = s.fill n price execQty

/-- More responses are on the way, and other orders rest. -/
def after (s : TradingSystem) (rs : List ClientResponseInternal) (os : List VenueOrder) :
    TradingSystem :=
  { s with
    engine := { s.engine with incomingOgwResponses := s.engine.incomingOgwResponses ++ rs }
    orders := os }

theorem after_after (s : TradingSystem) (rs rs' : List ClientResponseInternal)
    (os os' : List VenueOrder) : (s.after rs os).after rs' os' = s.after (rs ++ rs') os' := by
  simp only [after, List.append_assoc]

theorem after_nil (s : TradingSystem) : s.after [] s.orders = s := by
  simp only [after, List.append_nil]

section Execution
variable {s : TradingSystem} {x : VenueOrder} {os : List VenueOrder} {execQty : Quantity}

/-- An order that rests is executed. -/
theorem executes_order (hx : s.orders.Perm (x :: os)) (hle : execQty ≤ x.leavesQty)
    (price : Price) : ∃ os', s.Executes (s.after [x.filled price execQty] os') ∧
      os'.Perm (x.left (x.leavesQty - execQty) ++ os) := by
  obtain ⟨n, hn⟩ := List.mem_iff_getElem?.mp (hx.mem_iff.mpr List.mem_cons_self)
  obtain ⟨l₁, l₂, horders, herase, hset⟩ := getElem?_split hn
  have hrest : (l₁ ++ l₂).Perm os := by
    rw [horders] at hx
    exact (List.perm_middle.symm.trans hx).cons_inv
  refine ⟨if x.leavesQty - execQty = 0 then l₁ ++ l₂
    else l₁ ++ { x with leavesQty := x.leavesQty - execQty } :: l₂, ⟨n, price, execQty, ?_⟩, ?_⟩
  · simp only [fill, hn, if_pos hle, respond, herase, hset]
    rfl
  · rw [VenueOrder.left]
    split
    · exact hrest
    · exact List.perm_middle.trans (hrest.cons _)

end Execution

/-- From `s` on, executions have led to the responses `rs`; of the orders `xs` those of the client
rest, besides `others`. -/
def Meets (clientId : ClientId) (others : List VenueOrder) (s : TradingSystem)
    (rs : List ClientResponseInternal) (xs : List VenueOrder) : Prop :=
  ∃ os, ReflTransGen Executes s (s.after rs os) ∧ os.Perm (ordersOf clientId xs ++ others)

section Meets
variable {clientId : ClientId} {others xs xs' : List VenueOrder} {s : TradingSystem}
  {rs : List ClientResponseInternal} {x : VenueOrder} {execQty : Quantity}

theorem Meets.start (h : s.orders.Perm (ordersOf clientId xs ++ others)) :
    Meets clientId others s [] xs :=
  ⟨s.orders, by rw [after_nil], h⟩

theorem Meets.perm (h : Meets clientId others s rs xs) (hperm : xs.Perm xs') :
    Meets clientId others s rs xs' := by
  obtain ⟨os, hruns, hos⟩ := h
  exact ⟨os, hruns, hos.trans ((hperm.filter _).append_right others)⟩

/-- An execution of whichever order: the client is told if it is its own. -/
theorem Meets.execute (h : Meets clientId others s rs (x :: xs)) (hle : execQty ≤ x.leavesQty)
    (price : Price) : Meets clientId others s (rs ++ responsesTo clientId [x.filled price execQty])
      (x.left (x.leavesQty - execQty) ++ xs) := by
  obtain ⟨os, hruns, hos⟩ := h
  rw [Meets, ordersOf_append, ordersOf_left]
  by_cases hown : x.clientId = clientId
  · have htold : responsesTo clientId [x.filled price execQty] = [x.filled price execQty] :=
      List.filter_cons_of_pos (decide_eq_true hown)
    rw [ordersOf_cons_own hown, List.cons_append] at hos
    obtain ⟨os', hexecutes, hos'⟩ := executes_order (s := s.after rs os) hos hle price
    rw [after_after] at hexecutes
    rw [htold, if_pos hown, List.append_assoc]
    exact ⟨os', hruns.tail hexecutes, hos'⟩
  · have htold : responsesTo clientId [x.filled price execQty] = [] :=
      List.filter_cons_of_neg fun h => hown (of_decide_eq_true h)
    rw [ordersOf_cons_other hown] at hos
    rw [htold, if_neg hown, List.append_nil]
    exact ⟨os, hruns, hos⟩

end Meets

end TradingSystem

namespace BookView

/-- Every order of the client is in the table under its own id, and names the instrument. -/
structure Filed (clientId : ClientId) (v : BookView) : Prop where
  table : ∀ o ∈ v.orders, o.clientId = clientId →
    v.clientOrders clientId.toNat o.clientOrderId.toNat = some o.handle
  instrument : ∀ o ∈ v.orders, o.clientId = clientId → o.instrumentId = v.instrumentId

/-- No order of the client has the id. -/
def Lacks (clientId : ClientId) (clientOrderId : OrderId) (v : BookView) : Prop :=
  ∀ o ∈ v.orders, o.clientId = clientId → o.clientOrderId ≠ clientOrderId

section Filed
variable {clientId c : ClientId} {clientOrderId id : OrderId} {v : BookView} {a : Aggressor}
  {o o' : OrderView} {leavesQty : Quantity}

theorem create_filed (i : InstrumentId) : (create i).Filed clientId :=
  ⟨fun _ ho => absurd ho List.not_mem_nil, fun _ ho => absurd ho List.not_mem_nil⟩

/-- Two orders of the client differ in their ids. -/
theorem Filed.eq_of_id (h : v.Filed clientId) (hv : v.Valid) (ho : o ∈ v.orders)
    (ho' : o' ∈ v.orders) (hc : o.clientId = clientId) (hc' : o'.clientId = clientId)
    (hid : o.clientOrderId = o'.clientOrderId) : o = o' := by
  have hentry := h.table o ho hc
  rw [hid, h.table o' ho' hc'] at hentry
  exact hv.order_eq ho ho' (Option.some.inj hentry).symm

theorem Filed.removeOrder (h : v.Filed clientId) (ho : o ∈ v.orders) :
    (v.removeOrder o).Filed clientId := by
  refine ⟨fun o' ho' hc => ?_, fun o' ho' hc => h.instrument o' (mem_removeOrder.mp ho').1 hc⟩
  obtain ⟨ho', hne⟩ := mem_removeOrder.mp ho'
  rw [clientOrders_removeOrder, if_neg, h.table o' ho' hc]
  rintro ⟨hclient, hid⟩
  have hentry := h.table o' ho' hc
  rw [hid, h.table o ho (UInt32.toNat_inj.mp hclient).symm] at hentry
  exact hne (Option.some.inj hentry).symm

theorem Filed.setQty (h : v.Filed clientId) (p : OrderPtr) (qty : Quantity) :
    (v.setQty p qty).Filed clientId := by
  have hsame : ∀ o ∈ (v.setQty p qty).orders, ∃ o' ∈ v.orders, o'.handle = o.handle ∧
      o'.clientId = o.clientId ∧ o'.clientOrderId = o.clientOrderId ∧
      o'.instrumentId = o.instrumentId := by
    intro o ho
    rw [orders_setQty] at ho
    obtain ⟨o', ho', rfl⟩ := List.mem_map.mp ho
    refine ⟨o', ho', ?_⟩
    rw [withQty]
    split <;> exact ⟨rfl, rfl, rfl, rfl⟩
  constructor
  · intro o ho hc
    obtain ⟨o', ho', hhandle, hc', hid, -⟩ := hsame o ho
    rw [← hhandle, ← hid]
    exact h.table o' ho' (hc'.trans hc)
  · intro o ho hc
    obtain ⟨o', ho', -, hc', -, hi⟩ := hsame o ho
    rw [← hi]
    exact h.instrument o' ho' (hc'.trans hc)

theorem Filed.fill (h : v.Filed clientId) (ho : o ∈ v.orders) (a : Aggressor)
    (leavesQty : Quantity) : (v.fill a leavesQty o).Filed clientId := by
  rw [BookView.fill]
  have hsent : (v.send (fillMessages v.instrumentId a leavesQty o.toOrderFields
      (min leavesQty o.qty))).Filed clientId := ⟨h.table, h.instrument⟩
  split
  · exact hsent.removeOrder ho
  · exact hsent.setQty _ _

theorem Lacks.fill (h : v.Lacks clientId clientOrderId) (a : Aggressor) (leavesQty : Quantity)
    (o : OrderView) : (v.fill a leavesQty o).Lacks clientId clientOrderId := by
  rw [BookView.fill]
  split
  · exact fun o' ho' => h o' (mem_removeOrder.mp ho').1
  · intro o' ho'
    rw [orders_setQty] at ho'
    obtain ⟨o₁, ho₁, rfl⟩ := List.mem_map.mp ho'
    obtain ⟨-, -, hc, hid⟩ := withQty_key o.handle (o.qty - min leavesQty o.qty) o₁
    rw [hc, hid]
    exact h o₁ ho₁

theorem perm_setQty (hv : v.Valid) (ho : o ∈ v.orders) (qty : Quantity) :
    ((v.setQty o.handle qty).orders.map OrderView.resting).Perm
      ({ o.resting with leavesQty := qty } :: (v.removeOrder o).orders.map OrderView.resting) := by
  rw [orders_setQty]
  refine (((perm_removeOrder hv ho).map (withQty _ _)).map _).trans ?_
  rw [List.map_cons, List.map_cons, withQty, if_pos rfl, List.map_map]
  refine .of_eq (congrArg _ (List.map_congr_left fun o' ho' => ?_))
  rw [Function.comp_apply, withQty, if_neg (mem_removeOrder.mp ho').2]

/-- What an execution leaves of the orders. -/
theorem perm_fill (hv : v.Valid) (ho : o ∈ v.orders) (a : Aggressor) (leavesQty : Quantity) :
    ∃ xs, (v.orders.map OrderView.resting).Perm (o.resting :: xs) ∧
      ((v.fill a leavesQty o).orders.map OrderView.resting).Perm
        (o.resting.left (o.qty - min leavesQty o.qty) ++ xs) := by
  refine ⟨(v.removeOrder o).orders.map OrderView.resting, (perm_removeOrder hv ho).map _, ?_⟩
  rw [VenueOrder.left]
  by_cases hzero : o.qty - min leavesQty o.qty = 0
  · rw [fill_eq_removeOrder a hzero, if_pos hzero]
    exact .refl _
  · rw [fill_eq_setQty a hzero, if_neg hzero]
    exact perm_setQty hv ho _

theorem Filed.book (h : v.Filed clientId) (hv : v.Valid) {p : OrderPtr} {rest : List OrderPtr}
    (hfree : v.freeOrders = p :: rest) {side : Side} {price : Price}
    (same : v.SameSide side price) (hlacks : c = clientId → v.Lacks clientId clientOrderId)
    (id : OrderId) (leavesQty : Quantity) :
    (v.book c clientOrderId id side price leavesQty).Filed clientId := by
  rw [book_eq hfree]
  let o := v.bookedOrder p c clientOrderId id side price leavesQty
  have hmem : ∀ o' ∈ (v.addOrder o).orders, o' = o ∨ o' ∈ v.orders :=
    fun o' ho' => List.mem_cons.mp ((hv.perm_place same).mem_iff.mp ho')
  constructor
  · intro o' ho' hc
    change (v.addOrder o).clientOrders _ _ = _
    rw [clientOrders_addOrder]
    rcases hmem o' ho' with rfl | ho'
    · exact if_pos ⟨congrArg _ hc.symm, rfl⟩
    · rw [if_neg, h.table o' ho' hc]
      rintro ⟨hclient, hid⟩
      exact hlacks (UInt32.toNat_inj.mp hclient).symm o' ho' hc (UInt64.toNat_inj.mp hid)
  · intro o' ho' hc
    change o'.instrumentId = (v.place o).instrumentId
    rw [instrumentId_place]
    rcases hmem o' ho' with rfl | ho'
    · rfl
    · exact h.instrument o' ho' hc

/-- The table leads to the order of the client with the id. -/
theorem Filed.findOrder_iff (h : v.Filed clientId) (hv : v.Valid)
    (hclient : clientId.toNat < maxNumClients) : v.findOrder clientId clientOrderId = some o ↔
      o ∈ v.orders ∧ o.clientId = clientId ∧ o.clientOrderId = clientOrderId := by
  constructor
  · intro hfind
    obtain ⟨ho, -, hentry⟩ := mem_of_findOrder clientId clientOrderId hfind
    obtain ⟨o', ho', hhandle, hc, hid⟩ := hv.clientOrders _ _ _ hentry
    obtain rfl := hv.order_eq ho' ho hhandle
    exact ⟨ho, UInt32.toNat_inj.mp hc, UInt64.toNat_inj.mp hid⟩
  · rintro ⟨ho, hc, rfl⟩
    exact findOrder_of_entry clientId o.clientOrderId hv ho hclient (h.table o ho hc)

end Filed

end BookView

/-- What is left of a taker, as its client knows it. -/
def BookView.Aggressor.resting (a : Aggressor) (i : InstrumentId) (leavesQty : Quantity) :
    VenueOrder :=
  ⟨a.clientId, i, a.clientOrderId, a.marketOrderId, a.side, a.price, leavesQty⟩

/-- The book as the client meets it: besides the orders in it, those of `taker` are there, and
after the responses of `before` the executions from `s` on have led to those that were sent. -/
structure Met (clientId : ClientId) (others : List VenueOrder) (s : TradingSystem)
    (before : List ClientResponseInternal) (i : InstrumentId) (taker : List VenueOrder)
    (v : BookView) : Prop where
  instrument : v.instrumentId = i
  filed : v.Filed clientId
  meets : ∃ rs, responsesTo clientId (responses v.sent) = before ++ rs ∧
    s.Meets clientId others rs (taker ++ v.orders.map OrderView.resting)

section Met
variable {clientId : ClientId} {others taker taker' : List VenueOrder} {s : TradingSystem}
  {before : List ClientResponseInternal} {i : InstrumentId} {v w : BookView} {a : Aggressor}
  {o : OrderView} {leavesQty quantity : Quantity}

/-- What other clients are told, and their orders, do not matter. -/
theorem Met.congr (h : Met clientId others s before i taker v) (hi : w.instrumentId = i)
    (hfiled : w.Filed clientId)
    (hsent : responsesTo clientId (responses w.sent) = responsesTo clientId (responses v.sent))
    (horders : (ordersOf clientId (taker ++ v.orders.map OrderView.resting)).Perm
      (ordersOf clientId (taker' ++ w.orders.map OrderView.resting))) :
    Met clientId others s before i taker' w := by
  obtain ⟨rs, hrs, os, hruns, hos⟩ := h.meets
  exact ⟨hi, hfiled, rs, hsent.trans hrs, os, hruns, hos.trans (horders.append_right others)⟩

theorem Met.fill (h : Met clientId others s before i ((a.resting i leavesQty).left leavesQty) v)
    (hv : v.Valid) (ho : o ∈ v.orders) (hleft : leavesQty ≠ 0) :
    Met clientId others s before i ((a.resting i (leavesQty - min leavesQty o.qty)).left
      (leavesQty - min leavesQty o.qty)) (v.fill a leavesQty o) := by
  let qty := min leavesQty o.qty
  obtain ⟨rs, hrs, hmeets⟩ := h.meets
  obtain ⟨xs, hperm, hperm'⟩ := perm_fill hv ho a leavesQty
  refine ⟨?_, h.filed.fill ho a leavesQty,
    rs ++ responsesTo clientId [(a.resting i leavesQty).filled o.price qty] ++
      responsesTo clientId [o.resting.filled o.price qty], ?_, ?_⟩
  · rw [BookView.fill]
    split <;> exact h.instrument
  · rw [sent_fill, responses_append, responsesTo_append, hrs, h.instrument, List.append_assoc,
      List.append_assoc, ← responsesTo_append]
    rfl
  · have htaker : (a.resting i leavesQty).left leavesQty = [a.resting i leavesQty] := if_neg hleft
    rw [htaker, List.singleton_append] at hmeets
    have htook := hmeets.execute (minQty_le_left leavesQty o.qty) o.price
    have hmaker := (htook.perm ((hperm.append_left _).trans List.perm_middle)).execute
      (x := o.resting) (minQty_le_right leavesQty o.qty) o.price
    refine hmaker.perm ?_
    exact (List.perm_append_comm_assoc _ _ _).trans (hperm'.symm.append_left _)

theorem Met.accept {c : ClientId} {clientOrderId : OrderId} {side : Side} {price : Price}
    (h : Met clientId others s before i
      ((Aggressor.resting ⟨c, clientOrderId, v.nextMarketOrderId, side, price⟩ i quantity).left
        quantity) (v.accepted c clientOrderId side price quantity))
    (hv : v.Valid) (hlacks : c = clientId → v.Lacks clientId clientOrderId) :
    Met clientId others s before i
      ((Aggressor.resting ⟨c, clientOrderId, v.nextMarketOrderId, side, price⟩ i
        (v.accept c clientOrderId side price quantity).2).left
        (v.accept c clientOrderId side price quantity).2)
      (v.accept c clientOrderId side price quantity).1 ∧
    (c = clientId →
      (v.accept c clientOrderId side price quantity).1.Lacks clientId clientOrderId) :=
  matchLoop_keeps (a := ⟨c, clientOrderId, v.nextMarketOrderId, side, price⟩)
    (J := fun w leavesQty => Met clientId others s before i
      ((Aggressor.resting ⟨c, clientOrderId, v.nextMarketOrderId, side, price⟩ i leavesQty).left
        leavesQty) w ∧ (c = clientId → w.Lacks clientId clientOrderId))
    (fun _ _ _ hw hJ hhead hleft _ =>
      ⟨hJ.1.fill hw (mem_orders_of_head hw hhead).2 hleft, fun hc => (hJ.2 hc).fill _ _ _⟩)
    _ (accepted_valid hv ..) ⟨h, hlacks⟩

/-- What is left of an order rests in the book. -/
theorem Met.add {c : ClientId} {clientOrderId : OrderId} {side : Side} {price : Price}
    (h : Met clientId others s before i
      ((Aggressor.resting ⟨c, clientOrderId, v.nextMarketOrderId, side, price⟩ i quantity).left
        quantity) (v.accepted c clientOrderId side price quantity))
    (hv : v.Valid) (hlacks : c = clientId → v.Lacks clientId clientOrderId)
    (hb : Bookable c clientOrderId side price (v.accept c clientOrderId side price quantity)) :
    Met clientId others s before i [] (v.add c clientOrderId side price quantity) := by
  obtain ⟨hmet, hlacks'⟩ := h.accept hv hlacks
  refine add_cases hv hb (fun w heq => ?_) fun w leavesQty p rest heq hw hpos hfree same => ?_
  · rwa [heq] at hmet
  · rw [heq] at hmet hlacks'
    let o := w.bookedOrder p c clientOrderId v.nextMarketOrderId side price leavesQty
    have hbook := book_eq hfree c clientOrderId v.nextMarketOrderId side price leavesQty
    have hperm : ((w.addOrder o).orders).Perm (o :: w.orders) := hw.perm_place same
    have hleft : (Aggressor.resting ⟨c, clientOrderId, v.nextMarketOrderId, side, price⟩ i
        leavesQty).left leavesQty = [o.resting] := by
      rw [VenueOrder.left, if_neg (UInt32.pos_iff_ne_zero.mp hpos), ← hmet.instrument]
      rfl
    rw [hleft] at hmet
    refine hmet.congr ?_ (hmet.filed.book hw hfree same hlacks' _ _) ?_ ?_
    · rw [hbook]
      exact (instrumentId_place w o).trans hmet.instrument
    · rw [sent_book hfree, responses_append]
      exact congrArg _ (List.append_nil _)
    · rw [hbook]
      exact ordersOf_perm clientId (hperm.map OrderView.resting).symm

/-- An order of another client is removed. -/
theorem Met.removeOther (h : Met clientId others s before i [] v) (hv : v.Valid)
    (ho : o ∈ v.orders) (hother : o.clientId ≠ clientId) {ms : List Message}
    (hms : responsesTo clientId (responses ms) = []) :
    Met clientId others s before i [] ((v.removeOrder o).send ms) := by
  have hfiled := h.filed.removeOrder ho
  refine h.congr h.instrument ⟨hfiled.table, hfiled.instrument⟩ ?_ ?_
  · change responsesTo clientId (responses (v.sent ++ ms)) = _
    rw [responses_append, responsesTo_append, hms, List.append_nil]
  · refine (ordersOf_perm clientId ((perm_removeOrder hv ho).map OrderView.resting)).trans ?_
    exact .of_eq (ordersOf_cons_other hother _)

/-- A call of another client is executions for this one. -/
theorem Met.other_call (h : Met clientId others s before i [] v) (hv : v.Valid)
    {c : OrderBook.BookRequest} (ha : Admissible v c) (hother : c.clientId ≠ clientId) :
    Met clientId others s before i [] (v.call c) := by
  have hnone {c : ClientId} (hc : c ≠ clientId) (r : ClientResponseInternal)
      (hr : r.clientId = c) (us : List Message) (hus : responses us = []) :
      responsesTo clientId (responses (.response r :: us)) = [] := by
    change responsesTo clientId (r :: responses us) = []
    rw [hus]
    exact List.filter_cons_of_neg fun h => hc (hr.symm.trans (of_decide_eq_true h))
  have hadd {w : BookView} (hw : w.Valid) (h : Met clientId others s before i [] w)
      {c : ClientId} (hc : c ≠ clientId) {clientOrderId : OrderId} {side : Side} {price : Price}
      {quantity : Quantity} (hb : Bookable c clientOrderId side price
        (w.accept c clientOrderId side price quantity)) :
      Met clientId others s before i [] (w.add c clientOrderId side price quantity) := by
    refine Met.add (h.congr h.instrument ⟨h.filed.table, h.filed.instrument⟩ ?_ ?_) hw
      (fun heq => absurd heq hc) hb
    · change responsesTo clientId (responses (w.sent ++ _)) = _
      rw [responses_append, responsesTo_append, hnone hc _ rfl _ rfl, List.append_nil]
    · rw [ordersOf_append, ordersOf_append, ordersOf_left]
      exact .of_eq (congrArg₂ (· ++ ·) (if_neg hc).symm rfl)
  have hreject {c : ClientId} (hc : c ≠ clientId) (type : ClientResponseType)
      (clientOrderId : OrderId) :
      Met clientId others s before i [] (v.reject type c clientOrderId) := by
    refine h.congr h.instrument ⟨h.filed.table, h.filed.instrument⟩ ?_ (.refl _)
    change responsesTo clientId (responses (v.sent ++ _)) = _
    rw [responses_append, responsesTo_append, hnone hc _ rfl _ rfl, List.append_nil]
  have hfound {c : ClientId} (hc : c ≠ clientId) {clientOrderId : OrderId} {o : OrderView}
      (hfind : v.findOrder c clientOrderId = some o) : o ∈ v.orders ∧ o.clientId ≠ clientId := by
    obtain ⟨ho, -, hentry⟩ := mem_of_findOrder c clientOrderId hfind
    obtain ⟨o', ho', hhandle, hid, -⟩ := hv.clientOrders _ _ _ hentry
    obtain rfl := hv.order_eq ho' ho hhandle
    exact ⟨ho, fun heq => hc ((UInt32.toNat_inj.mp hid).symm.trans heq)⟩
  cases c with
  | add => exact hadd hv h hother ha
  | cancel c clientOrderId =>
    rw [BookView.call, BookView.cancel]
    rcases hfind : v.findOrder c clientOrderId with _ | o
    · exact hreject hother _ _
    · obtain ⟨ho, hne⟩ := hfound hother hfind
      exact h.removeOther hv ho hne (hnone hother _ rfl _ rfl)
  | modify c clientOrderId price quantity =>
    rw [BookView.call, BookView.modify]
    rcases hfind : v.findOrder c clientOrderId with _ | o
    · exact hreject hother _ _
    · obtain ⟨ho, hne⟩ := hfound hother hfind
      by_cases hq : o.price ≠ price ∨ o.qty < quantity
      · simp only [if_pos hq]
        exact hadd (cancelOrder_valid hv ho ..)
          (h.removeOther hv ho hne (hnone hother _ rfl _ rfl)) hother (ha.2 o hfind hq)
      · simp only [if_neg hq]
        have hfiled := h.filed.setQty o.handle quantity
        refine h.congr h.instrument ⟨hfiled.table, hfiled.instrument⟩ ?_ ?_
        · change responsesTo clientId (responses (v.sent ++ _)) = _
          rw [responses_append, responsesTo_append, hnone hother _ rfl _ rfl, List.append_nil]
        · have hbefore := ordersOf_perm clientId
            ((perm_removeOrder hv ho).map OrderView.resting)
          have hafter := ordersOf_perm clientId (perm_setQty hv ho quantity)
          rw [List.map_cons, ordersOf_cons_other hne] at hbefore
          rw [ordersOf_cons_other hne] at hafter
          exact hbefore.trans hafter.symm

end Met

/-! ## The requests of the client -/

section Own
variable {clientId : ClientId} {others : List VenueOrder} {s : TradingSystem} {v : BookView}
  {q : ClientRequestInternal} {qs : List ClientRequestInternal} {o : OrderView}

/-- The orders of the client in this book and elsewhere. -/
structure Rests (clientId : ClientId) (others : List VenueOrder) (s : TradingSystem)
    (v : BookView) : Prop where
  orders : s.orders.Perm (ordersOf clientId (v.orders.map OrderView.resting) ++ others)
  elsewhere : ∀ x ∈ others, x.instrumentId ≠ v.instrumentId

/-- The exchange and the model of it find the same order. -/
theorem Rests.find (h : Rests clientId others s v) (hv : v.Valid) (hfiled : v.Filed clientId)
    (hclient : clientId.toNat < maxNumClients) (hi : q.instrumentId = v.instrumentId) :
    s.orders.find? (TradingSystem.names q) =
      (v.findOrder clientId q.orderId).map OrderView.resting := by
  have hnamed : ∀ x ∈ s.orders, TradingSystem.names q x → ∃ o,
      v.findOrder clientId q.orderId = some o ∧ o.resting = x := by
    intro x hx hnames
    obtain ⟨hinstrument, hid⟩ := of_decide_eq_true hnames
    rcases List.mem_append.mp (h.orders.mem_iff.mp hx) with hx | hx
    · obtain ⟨hx, hown⟩ := List.mem_filter.mp hx
      obtain ⟨o, ho, rfl⟩ := List.mem_map.mp hx
      exact ⟨o, (hfiled.findOrder_iff hv hclient).mpr ⟨ho, of_decide_eq_true hown, hid⟩, rfl⟩
    · exact absurd (hinstrument.trans hi) (h.elsewhere x hx)
  rcases hfind : v.findOrder clientId q.orderId with _ | o
  · refine List.find?_eq_none.mpr fun x hx hnames => ?_
    obtain ⟨o, ho, -⟩ := hnamed x hx hnames
    rw [hfind] at ho
    cases ho
  · obtain ⟨ho, hown, hid⟩ := (hfiled.findOrder_iff hv hclient).mp hfind
    have hmem : o.resting ∈ s.orders := h.orders.mem_iff.mpr (List.mem_append_left _
      (List.mem_filter.mpr ⟨List.mem_map_of_mem ho, decide_eq_true hown⟩))
    have hnames : TradingSystem.names q o.resting :=
      decide_eq_true ⟨(hfiled.instrument o ho hown).trans hi.symm, hid⟩
    refine find?_eq_of_unique hmem hnames fun x hx hx' => ?_
    obtain ⟨o', ho', rfl⟩ := hnamed x hx hx'
    rw [Option.some.inj (ho'.symm.trans hfind)]

/-- After the answer the client is told `r`, and nothing else but its orders has changed. -/
def Answers (s : TradingSystem) (qs : List ClientRequestInternal) (r : ClientResponseInternal)
    (s' : TradingSystem) : Prop :=
  s' = TradingSystem.after
    { s with engine := { s.engine with outgoingOgwRequests := qs } } [r] s'.orders

/-- A new order of the client. -/
theorem Rests.new (h : Rests clientId others s v) (hv : v.Valid) (hfiled : v.Filed clientId)
    (hq : s.engine.outgoingOgwRequests = q :: qs) (hown : q.clientId = clientId)
    (hi : q.instrumentId = v.instrumentId) (hnew : q.type = .new)
    (hlacks : v.Lacks clientId q.orderId)
    (hb : Bookable q.clientId q.orderId q.side q.price
      (v.accept q.clientId q.orderId q.side q.price q.qty)) :
    ∃ r, Answers s qs r (s.answer v.nextMarketOrderId) ∧
      Met clientId others (s.answer v.nextMarketOrderId)
        (responsesTo clientId (responses v.sent) ++ [r]) v.instrumentId []
        (v.add q.clientId q.orderId q.side q.price q.qty) := by
  let a : Aggressor := ⟨q.clientId, q.orderId, v.nextMarketOrderId, q.side, q.price⟩
  have hanswer : s.answer v.nextMarketOrderId = TradingSystem.after
      { s with engine := { s.engine with outgoingOgwRequests := qs } }
      [⟨.accepted, q.clientId, q.instrumentId, q.orderId, v.nextMarketOrderId, q.side, q.price, 0,
        q.qty⟩] (s.orders ++ (a.resting v.instrumentId q.qty).left q.qty) := by
    simp only [TradingSystem.answer, hq, if_pos hnew, TradingSystem.accept, VenueOrder.left]
    split
    · rw [List.append_nil]
      rfl
    · rw [hi]
      rfl
  refine ⟨_, by rw [hanswer]; rfl, Met.add ⟨rfl, ⟨hfiled.table, hfiled.instrument⟩, [], ?_,
    .start ?_⟩ hv (fun _ => hlacks) hb⟩
  · change responsesTo clientId (responses (v.sent ++ _)) = _
    rw [responses_append, responsesTo_append, List.append_nil, ← hi]
    exact congrArg _ (List.filter_cons_of_pos (decide_eq_true hown))
  · rw [hanswer, ordersOf_append, ordersOf_left]
    refine List.perm_append_comm.trans ?_
    rw [List.append_assoc]
    exact (h.orders.append_left _).trans (.of_eq (congrArg (· ++ _) (if_pos hown).symm))

/-- A cancel of the client. -/
theorem Rests.cancel (h : Rests clientId others s v) (hv : v.Valid) (hfiled : v.Filed clientId)
    (hclient : clientId.toNat < maxNumClients)
    (hq : s.engine.outgoingOgwRequests = q :: qs) (hown : q.clientId = clientId)
    (hi : q.instrumentId = v.instrumentId) (hcancel : q.type = .cancel) (id : OrderId) :
    ∃ r, Answers s qs r (s.answer id) ∧ Met clientId others (s.answer id)
      (responsesTo clientId (responses v.sent) ++ [r]) v.instrumentId []
      (v.cancel clientId q.orderId) := by
  have hfind := h.find hv hfiled hclient hi
  have htype : ¬ q.type = .new := by
    rw [hcancel]
    decide
  have htold (r : ClientResponseInternal) (hr : r.clientId = clientId) (us : List Message)
      (hus : responses us = []) :
      responsesTo clientId (responses (v.sent ++ .response r :: us)) =
        responsesTo clientId (responses v.sent) ++ [r] := by
    rw [responses_append, responsesTo_append]
    change _ ++ responsesTo clientId (r :: responses us) = _
    rw [hus]
    exact congrArg _ (List.filter_cons_of_pos (decide_eq_true hr))
  rw [BookView.cancel]
  rcases hfound : v.findOrder clientId q.orderId with _ | o
  · rw [hfound, Option.map_none] at hfind
    have hanswer : s.answer id = TradingSystem.after
        { s with engine := { s.engine with outgoingOgwRequests := qs } }
        [⟨.cancelRejected, q.clientId, q.instrumentId, q.orderId, invalidOrderId, .invalid,
          invalidPrice, invalidQuantity, invalidQuantity⟩] s.orders := by
      simp only [TradingSystem.answer, hq, if_neg htype, TradingSystem.cancel, hfind]
      rfl
    refine ⟨_, by rw [hanswer]; rfl, rfl, ⟨hfiled.table, hfiled.instrument⟩, [], ?_, .start ?_⟩
    · rw [hown, hi, List.append_nil]
      exact htold _ rfl [] rfl
    · rw [hanswer]
      exact h.orders
  · rw [hfound, Option.map_some] at hfind
    obtain ⟨ho, hc, hid⟩ := (hfiled.findOrder_iff hv hclient).mp hfound
    obtain ⟨l₁, l₂, horders, herase⟩ := TradingSystem.find_split hfind
    have hanswer : s.answer id = TradingSystem.after
        { s with engine := { s.engine with outgoingOgwRequests := qs } }
        [⟨.canceled, o.clientId, o.instrumentId, o.clientOrderId, o.marketOrderId, o.side, o.price,
          invalidQuantity, o.qty⟩] (l₁ ++ l₂) := by
      simp only [TradingSystem.answer, hq, if_neg htype, TradingSystem.cancel, hfind, ← herase]
      rfl
    have hremoved := hfiled.removeOrder ho
    refine ⟨_, by rw [hanswer]; rfl, rfl, ⟨hremoved.table, hremoved.instrument⟩, [], ?_, .start ?_⟩
    · rw [List.append_nil, hc, hid, hfiled.instrument o ho hc]
      exact htold _ rfl _ rfl
    · rw [hanswer]
      have hperm := h.orders
      rw [horders] at hperm
      have hleft := ordersOf_perm clientId ((perm_removeOrder hv ho).map OrderView.resting)
      rw [List.map_cons, ordersOf_cons_own hc] at hleft
      exact ((List.perm_middle.symm.trans hperm).trans (hleft.append_right others)).cons_inv

end Own

end StockExchange
