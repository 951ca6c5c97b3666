import StockExchange.Runs

/-!
# Matching terminates

Each round of a `while` loop of `check_for_match` ends the taker or takes one order
out of the book, provided no order was ever booked into a slot held by a level of the
other side. Without that condition the loop can meet the same order forever.
-/

namespace StockExchange

open Ring BookView Transitions

/-- One round of a `while` loop of `check_for_match`, taking from order `p`. -/
inductive Round (a : Aggressor) (p : OrderPtr) :
    OrderBook × Quantity → OrderBook × Quantity → Prop
  | mk {s s' : OrderBook} {leavesQty leavesQty' : Quantity} {l : LevelPtr}
      (best : (if a.side = .buy then s.ask else s.bid) = some l) (left : leavesQty ≠ 0)
      (first : (s.level l).firstOrder = some p)
      (within : ¬ if a.side = .buy then a.price < (s.order p).price
        else (s.order p).price < a.price)
      (matched : s.matchOrder a.clientId a.side a.clientOrderId a.marketOrderId leavesQty p =
        .ok (s', leavesQty')) :
      Round a p (s, leavesQty) (s', leavesQty')

section Round
variable {s s' : OrderBook} {v : BookView} {a : Aggressor} {p : OrderPtr}
  {leavesQty leavesQty' : Quantity}

/-- A round on the heap is one execution on the view. -/
theorem Round.fill (hr : Represents s v) (hv : v.Valid)
    (h : Round a p (s, leavesQty) (s', leavesQty')) :
    ∃ o, v.head a.side = some o ∧ o ∈ v.orders ∧ o.handle = p ∧
      leavesQty' = leavesQty - min leavesQty o.qty ∧
      Represents s' (v.fill a leavesQty o) ∧ (v.fill a leavesQty o).Valid := by
  obtain ⟨best, _, first, _, matched⟩ := h
  rw [best_other, (hr.sides a.side.other).head, ← opposite_eq_own] at best
  rcases head_cases v a.side hv with ⟨hopp, _⟩ | ⟨l, ls, o, os, hopp, horders, hhead⟩
  · simp [hopp] at best
  · have ho := (mem_orders_of_head hv hhead).2
    have hl : l ∈ v.levels := v.own_subset a.side.other (by rw [← opposite_eq_own, hopp]; simp)
    simp only [hopp, List.map_cons, List.head?_cons, Option.some.injEq] at best
    rw [← best, (hr.level l hl).firstOrder, horders] at first
    simp only [List.map_cons, List.head?_cons, Option.some.injEq] at first
    subst first
    obtain ⟨s₁, hs₁, hr₁, hv₁⟩ := matchOrder_spec (a := a) hr hv ho leavesQty
    cases matched.symm.trans hs₁
    exact ⟨o, hhead, ho, rfl, rfl, hr₁, hv₁⟩

/-- A round ends the taker or unlinks the order it has taken from. -/
theorem Round.progress (hr : Represents s v) (hv : v.Valid)
    (h : Round a p (s, leavesQty) (s', leavesQty')) :
    leavesQty' = 0 ∨ p ∈ s.resting ∧ s'.resting = s.resting \ {p} ∧
      s'.resting.ncard < s.resting.ncard := by
  obtain ⟨o, hhead, ho, rfl, rfl, hr', hv'⟩ := h.fill hr hv
  by_cases hzero : o.qty - min leavesQty o.qty = 0
  · have horders : (v.fill a leavesQty o).orders = (v.removeOrder o).orders := by
      rw [fill_eq_removeOrder a hzero]
      rfl
    refine Or.inr ⟨(mem_resting_iff hr hv).mpr (List.mem_map_of_mem ho), ?_, ?_⟩
    · ext q
      rw [mem_resting_iff hr' hv', horders, Set.mem_sdiff, mem_resting_iff hr hv,
        Set.mem_singleton_iff]
      simp only [List.mem_map, mem_removeOrder]
      constructor
      · rintro ⟨o', ⟨ho', hne⟩, rfl⟩
        exact ⟨⟨o', ho', rfl⟩, hne⟩
      · rintro ⟨⟨o', ho', rfl⟩, hne⟩
        exact ⟨o', ⟨ho', hne⟩, rfl⟩
    · rw [ncard_resting hr' hv', ncard_resting hr hv, horders,
        (perm_removeOrder hv ho).length_eq]
      exact Nat.lt_succ_self _
  · exact Or.inl (min_sub_eq_zero hzero)

end Round

namespace OrderBook

/-- A request within the bounds of the tables and of the order pool. -/
def WithinPools (fuel : Nat) (s : OrderBook) (r : BookRequest) : Prop :=
  r.Bounded ∧ s.Books fuel (fun s _ _ => s.HasRoom) r

/-- No order is booked into a slot held by a level of the other side. -/
def KeepsSides (fuel : Nat) (s : OrderBook) (r : BookRequest) : Prop :=
  s.WithinPools fuel r ∧ s.Books fuel SlotOfSide r

end OrderBook

section Decidable
variable (fuel : Nat) (s : OrderBook) (r : OrderBook.BookRequest)

instance : Decidable (s.WithinPools fuel r) := inferInstanceAs (Decidable (_ ∧ _))
instance : Decidable (s.KeepsSides fuel r) := inferInstanceAs (Decidable (_ ∧ _))

end Decidable

section Reached
variable {fuel : Nat} {i : InstrumentId} {rs : List OrderBook.BookRequest} {s : OrderBook}

theorem keepsSides_books {v : BookView} (hfuel : maxNumOrders < fuel) (hr : Represents s v)
    (hv : v.Valid) {r : OrderBook.BookRequest} (h : s.KeepsSides fuel r) :
    v.Books (fun w side price => w.freeOrders ≠ [] ∧ w.SameSide side price) r :=
  books_and
    (books_view hr hv hfuel (fun _ _ _ _ hr _ h => (hasRoom_iff hr).mp h) h.1.1.findable h.1.2)
    (books_sameSide hr hv hfuel h.1.1.findable h.2)

/-- A run that books only into slots free of the other side is a run of the lists. -/
theorem represents_of_booksOfSide (hfuel : maxNumOrders < fuel)
    (h : Reached (OrderBook.call fuel) (OrderBook.Books fuel OrderBook.SlotOfSide) (.create i) rs
      s) :
    Represents s (rs.foldl BookView.call (.create i)) ∧
      (rs.foldl BookView.call (.create i)).Valid := by
  have hsim : Simulates (fun _ => True) s (rs.foldl BookView.call (.create i)) := by
    refine reached_simulates hfuel trivial ?_ h
    intro s v r hr hv _ hbooks hfind
    exact ⟨books_sameSide hr hv hfuel hfind hbooks, fun _ => trivial⟩
  exact ⟨hsim.1, hsim.2.1⟩

theorem keepsSides_reached (hfuel : maxNumOrders < fuel)
    (h : Reached (OrderBook.call fuel) (OrderBook.KeepsSides fuel) (.create i) rs s) :
    Represents s (rs.foldl BookView.call (.create i)) ∧
      (rs.foldl BookView.call (.create i)).Valid :=
  represents_of_booksOfSide hfuel (h.mono fun _ _ ha => ha.2)

/-- In a run that books no order into a slot of the other side, every next such call
returns, and every round of the loop of an `add` ends the taker or unlinks an order. The
loop of a `modify` starts in the state its `cancel` reaches. -/
theorem keepsSides_terminates (hfuel : maxNumOrders < fuel)
    (h : Reached (OrderBook.call fuel) (OrderBook.KeepsSides fuel) (.create i) rs s) :
    (∀ r, s.KeepsSides fuel r → ∃ s', s.call fuel r = .ok s') ∧
    ∀ clientId clientOrderId side price quantity x y p,
      Relation.ReflTransGen
        (fun x y => ∃ p, Round ⟨clientId, clientOrderId, s.nextMarketOrderId, side, price⟩ p x y)
        (s.accepted clientId clientOrderId side price quantity, quantity) x →
      Round ⟨clientId, clientOrderId, s.nextMarketOrderId, side, price⟩ p x y →
      y.2 = 0 ∨ p ∈ x.1.resting ∧ y.1.resting = x.1.resting \ {p} ∧
        y.1.resting.ncard < x.1.resting.ncard := by
  obtain ⟨hr, hv⟩ := keepsSides_reached hfuel h
  constructor
  · intro r ha
    obtain ⟨s', hs', _⟩ := call_spec hr hv hfuel
      (admissible_of_books ha.1.1 (keepsSides_books hfuel hr hv ha))
    exact ⟨s', hs'⟩
  · intro clientId clientOrderId side price quantity x y p hloop hround
    have hrep : ∃ w, Represents x.1 w ∧ w.Valid := by
      clear hround
      induction hloop with
      | refl => exact ⟨_, accepted_spec clientId clientOrderId side price quantity hr hv⟩
      | tail _ hstep ih =>
        obtain ⟨q, hstep⟩ := hstep
        obtain ⟨w, hrw, hvw⟩ := ih
        obtain ⟨o, _, _, _, _, hr', hv'⟩ := hstep.fill hrw hvw
        exact ⟨_, hr', hv'⟩
    obtain ⟨w, hrw, hvw⟩ := hrep
    exact hround.progress hrw hvw

/-- The hypotheses are met by a run in which a buy takes part of a sell. -/
theorem keepsSides_terminates_sample : ∃ s,
    Reached (OrderBook.call 3000) (OrderBook.KeepsSides 3000) (.create 0)
      [.add 1 1 .sell 10 8, .add 2 1 .buy 12 5] s ∧
    ∀ r, s.KeepsSides 3000 r → ∃ s', s.call 3000 r = .ok s' := by
  obtain ⟨s, hs, _⟩ := @reached_of_any _ _ _ (OrderBook.call 3000) (OrderBook.KeepsSides 3000)
    (.create 0) [.add 1 1 .sell 10 8, .add 2 1 .buy 12 5] _ (fun _ => true) (by decide +kernel)
  exact ⟨s, hs, (keepsSides_terminates (by decide) hs).1⟩

end Reached

/-! ## The loop that meets one order forever -/

section Orphan
variable {s : OrderBook} {p : OrderPtr} {a : Aggressor} {leavesQty : Quantity}

/-- An order alone at its level whose slot is held by a level of another side. -/
structure Orphan (s : OrderBook) (p : OrderPtr) : Prop where
  alone : (s.order p).prevOrder = some p
  table : OrderBook.inTable (s.order p).clientId (s.order p).clientOrderId
  slot : ∃ m, s.priceLevels (priceToIndex (s.order p).price) = some m ∧
    (s.level m).side ≠ (s.order p).side

/-- `remove_order` frees such an order and leaves its level in the ring. -/
theorem Orphan.removeOrder (h : Orphan s p) :
    s.removeOrder p = .ok (released s (s.order p).toOrderFields p) := by
  obtain ⟨m, hm, hside⟩ := h.slot
  have hget : s.getPriceLevel (s.order p).side (s.order p).price = none := by
    simp [OrderBook.getPriceLevel, hm, Option.filter, hside]
  simp only [OrderBook.removeOrder, h.alone, if_true, OrderBook.removePriceLevel, hget, ok_bind,
    setClientOrder_ok h.table]
  rfl

theorem filled_fields (s : OrderBook) (a : Aggressor) (leavesQty : Quantity) (p : OrderPtr) :
    ((filled s a leavesQty p).order p).toOrderFields =
      { (s.order p).toOrderFields with
        qty := (s.order p).qty - min leavesQty (s.order p).qty } := by
  change ((s.setQty p _).order p).toOrderFields = _
  rw [OrderBook.fields_setQty, if_pos rfl]

theorem Orphan.setQty (h : Orphan s p) (a : Aggressor) (leavesQty : Quantity) :
    Orphan (filled s a leavesQty p) p := by
  have hfields := filled_fields s a leavesQty p
  have hprev : ((filled s a leavesQty p).order p).prevOrder = (s.order p).prevOrder :=
    OrderBook.prevOrder_setQty ..
  refine ⟨hprev.trans h.alone, ?_, ?_⟩ <;> rw [hfields]
  · exact h.table
  · exact h.slot

/-- A round against such an order leaves it where it was, with nothing left to take. -/
theorem Orphan.matchOrder (h : Orphan s p) (hqty : (s.order p).qty < leavesQty) :
    ∃ s', s.matchOrder a.clientId a.side a.clientOrderId a.marketOrderId leavesQty p =
        .ok (s', leavesQty - (s.order p).qty) ∧ Orphan s' p ∧ (s'.order p).qty = 0 ∧
      s'.bid = s.bid ∧ s'.ask = s.ask ∧ s'.level = s.level ∧
      (s'.order p).price = (s.order p).price := by
  have hmin := ((minQty_cases leavesQty (s.order p).qty).resolve_left fun h =>
    UInt32.not_le.mpr hqty h.1).2
  have hfilled := h.setQty a leavesQty
  have hfields := filled_fields s a leavesQty p
  rw [matchOrder_eq, hmin, UInt32.sub_self, if_pos rfl, hfilled.removeOrder, ok_bind]
  have horder : (released (filled s a leavesQty p)
      ((filled s a leavesQty p).order p).toOrderFields p).order =
      (filled s a leavesQty p).order := OrderBook.order_freeOrder ..
  refine ⟨_, rfl, ⟨?_, ?_, ?_⟩, ?_, rfl, rfl, rfl, ?_⟩
  · rw [horder]
    exact hfilled.alone
  · rw [horder]
    exact hfilled.table
  · rw [horder]
    exact hfilled.slot
  · rw [horder, hfields, hmin, UInt32.sub_self]
  · rw [horder, hfields]

/-- A taker that wants more than such an order has, at the head of its side, never ends. -/
theorem Orphan.matchLoop {l : LevelPtr} (h : Orphan s p)
    (best : (if a.side = .buy then s.ask else s.bid) = some l)
    (first : (s.level l).firstOrder = some p)
    (within : ¬ if a.side = .buy then a.price < (s.order p).price
      else (s.order p).price < a.price)
    (hqty : (s.order p).qty < leavesQty) (fuel : Nat) :
    s.matchLoop a.clientId a.clientOrderId a.marketOrderId a.side a.price fuel leavesQty =
      .error .outOfFuel := by
  induction fuel generalizing s leavesQty with
  | zero => rfl
  | succ fuel ih =>
    obtain ⟨s', hs', horphan, hzero, hbid, hask, hlevel, hprice⟩ := h.matchOrder (a := a) hqty
    have hleft : ¬ leavesQty = 0 := by
      rintro rfl
      exact absurd hqty (by simp)
    rw [OrderBook.matchLoop, best]
    simp only [hleft, if_false, first, deref_some, ok_bind, within, hs']
    refine ih horphan (by rw [hbid, hask, best]) (by rw [hlevel, first])
      (by rw [hprice]; exact within) ?_
    rw [hzero, UInt32.lt_iff_toNat_lt, UInt32.toNat_sub_of_le _ _ (UInt32.le_of_lt hqty)]
    exact Nat.sub_pos_of_lt (UInt32.lt_iff_toNat_lt.mp hqty)

end Orphan

section Collision

/-- A sell at 256 and a buy at 0: both prices have slot 0. -/
def collision : List OrderBook.BookRequest := [.add 1 1 .sell 256 5, .add 2 1 .buy 0 1]

/-- After the collision a buy at 256 for more than rests there is never answered. -/
theorem collision_hangs : ∃ s,
    Reached (OrderBook.call 3000) (OrderBook.WithinPools 3000) (.create 0) collision s ∧
      s.WithinPools 3000 (.add 2 2 .buy 256 10) ∧
      ∀ fuel, s.call fuel (.add 2 2 .buy 256 10) = .error .outOfFuel := by
  obtain ⟨s, hs, hcheck⟩ := @reached_of_any _ _ _ (OrderBook.call 3000)
    (OrderBook.WithinPools 3000) (.create 0) collision _
    (fun s => s.ask = some 0 ∧
      (s.level 0).firstOrder = some 0 ∧ (s.order 0).prevOrder = some 0 ∧
      OrderBook.inTable (s.order 0).clientId (s.order 0).clientOrderId ∧
      (s.order 0).price = 256 ∧ (s.order 0).qty < 10 ∧ s.priceLevels 0 = some 1 ∧
      (s.level 1).side ≠ (s.order 0).side) (by decide +kernel)
  simp only [decide_eq_true_eq] at hcheck
  obtain ⟨hask, hfirst, hprev, htable, hprice, hqty, hslot, hside⟩ := hcheck
  let a : Aggressor := ⟨2, 2, s.nextMarketOrderId, .buy, 256⟩
  let s₁ := s.accepted 2 2 .buy 256 10
  have hp : (s₁.order 0).price = 256 := hprice
  have horphan : Orphan s₁ 0 := by
    refine ⟨hprev, htable, 1, ?_, hside⟩
    rw [hp]
    exact hslot
  have hwithin : ¬ if a.side = .buy then a.price < (s₁.order 0).price
      else (s₁.order 0).price < a.price := by
    rw [hp]
    simp [a]
  have haccept : ∀ fuel, s.accept fuel 2 2 .buy 256 10 = .error .outOfFuel :=
    fun fuel => horphan.matchLoop (a := a) hask hfirst hwithin hqty fuel
  refine ⟨s, hs, ⟨by decide, ?_⟩, fun fuel => ?_⟩
  · rw [OrderBook.Books, OrderBook.AddBooks, haccept]
    exact nofun
  · simp only [OrderBook.call, OrderBook.add, haccept, error_bind]

end Collision

end StockExchange
