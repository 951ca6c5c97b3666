import StockExchange.Stages

/-!
# Priorities

A new order gets the priority after that of the first order of its level. It is the
greatest of the level only if the level has no second order.
-/

namespace StockExchange

open Ring BookView Transitions

namespace OrderBook

/-- The level an order joins holds one order, whose priority is not the largest. -/
def JoinsOne (s : OrderBook) (side : Side) (price : Price) : Prop :=
  ∀ l ∈ s.getPriceLevel side price, ∀ p ∈ (s.level l).firstOrder,
    (s.order p).nextOrder = some p ∧ (s.order p).priority ≠ 0xFFFFFFFFFFFFFFFF

/-- The priority of a new order is greater than those that rest at its side and price. -/
def Foremost (s : OrderBook) (side : Side) (price : Price) : Prop :=
  OnReturn (s.getOrderPriorityAtPriceLevel side price) fun priority =>
    ∀ p ∈ s.resting, (s.order p).side = side → (s.order p).price = price →
      (s.order p).priority < priority

instance (s : OrderBook) (side : Side) (price : Price) : Decidable (s.JoinsOne side price) :=
  inferInstanceAs (Decidable (∀ l ∈ s.getPriceLevel side price,
    ∀ p ∈ (s.level l).firstOrder, _))

/-- Within the tables and pools, in slots of its price, and as the first or second order of
its level. -/
def KeepsPriorities (fuel : Nat) (s : OrderBook) (r : BookRequest) : Prop :=
  s.WithinPools fuel r ∧ s.KeepsPrices fuel r ∧ s.Books fuel JoinsOne r

instance (fuel : Nat) (s : OrderBook) (r : BookRequest) : Decidable (s.KeepsPriorities fuel r) :=
  inferInstanceAs (Decidable (_ ∧ _))

end OrderBook

namespace BookView

/-- Along each level the priorities increase. -/
def Rising (v : BookView) : Prop :=
  ∀ l ∈ v.levels, l.orders.Pairwise fun o o' => o.priority < o'.priority

def JoinsOne (v : BookView) (side : Side) (price : Price) : Prop :=
  ∀ l, v.getPriceLevel side price = some l →
    ∃ o, l.orders = [o] ∧ o.priority ≠ 0xFFFFFFFFFFFFFFFF

def Foremost (v : BookView) (side : Side) (price : Price) : Prop :=
  ∀ o ∈ v.orders, o.side = side → o.price = price → o.priority < v.priorityAt side price

theorem lt_succ {n : Priority} (hn : n ≠ 0xFFFFFFFFFFFFFFFF) : n < n + 1 := by
  rw [UInt64.lt_iff_toNat_lt, UInt64.toNat_add, UInt64.toNat_one]
  have hlt := n.toNat_lt
  have hne : n.toNat ≠ 0xFFFFFFFFFFFFFFFF := fun h => hn (UInt64.toNat_inj.mp h)
  omega

theorem le_of_lt_succ {n m : Priority} (h : m < n + 1) : m ≤ n := by
  rw [UInt64.lt_iff_toNat_lt, UInt64.toNat_add, UInt64.toNat_one] at h
  rw [UInt64.le_iff_toNat_le]
  have hlt := n.toNat_lt
  omega

section Steps
variable {v : BookView} {side : Side} {price : Price}

theorem create_rising (i : InstrumentId) : (create i).Rising := by simp [Rising, create, levels]

theorem Rising.setQty (h : v.Rising) (p : OrderPtr) (qty : Quantity) : (v.setQty p qty).Rising := by
  intro l hl
  obtain ⟨m, hm, rfl⟩ := List.mem_map.mp (levels_setQty v p qty ▸ hl)
  have keep : ∀ o, (withQty p qty o).priority = o.priority := by
    intro o
    unfold withQty
    split <;> rfl
  refine List.pairwise_map.mpr ((h m hm).imp fun {o o'} hlt => ?_)
  change (withQty p qty o).priority < (withQty p qty o').priority
  rwa [keep, keep]

theorem Rising.removeOrder (h : v.Rising) (o : OrderView) : (v.removeOrder o).Rising := by
  intro l hl
  obtain ⟨m, hm, rfl, _⟩ := mem_dropOrder.mp (levels_removeOrder v o ▸ hl)
  exact (h m hm).filter _

theorem Rising.fill (h : v.Rising) (a : Aggressor) (leavesQty : Quantity) (o : OrderView) :
    (v.fill a leavesQty o).Rising := by
  by_cases hzero : o.qty - min leavesQty o.qty = 0
  · rw [fill_eq_removeOrder a hzero]
    exact Rising.removeOrder (v := v.send _) h o
  · rw [fill_eq_setQty a hzero]
    exact h.setQty _ _

/-- The level of a side and price is the one the lookup finds. -/
theorem getPriceLevel_some (hv : v.Valid) {l : LevelView} : v.getPriceLevel side price = some l ↔
    l ∈ v.levels ∧ l.side = side ∧ l.slot = priceToIndex price := by
  rw [getPriceLevel, Option.filter_eq_some_iff]
  constructor
  · rintro ⟨hslot, hside⟩
    obtain ⟨hl, hindex⟩ := Valid.slotLevel_some hslot
    exact ⟨hl, of_decide_eq_true hside, hindex⟩
  · rintro ⟨hl, hside, hindex⟩
    rw [← hindex]
    exact ⟨hv.slotLevel_eq hl, decide_eq_true hside⟩

theorem priorityAt_eq {l : LevelView} {first : OrderView} {rest : List OrderView}
    (hfind : v.getPriceLevel side price = some l) (horders : l.orders = first :: rest) :
    v.priorityAt side price = first.priority + 1 := by
  rw [priorityAt, hfind]
  simp only [horders]

/-- A new order comes behind all others of its level if it joins one at most. -/
theorem Rising.book (h : v.Rising) (hv : v.Valid) (same : v.SameSide side price)
    (joins : v.JoinsOne side price) (p : OrderPtr) (clientId : ClientId)
    (clientOrderId id : OrderId) (leavesQty : Quantity) :
    (v.place (v.bookedOrder p clientId clientOrderId id side price leavesQty)).Rising := by
  rcases hv.place_cases (o := v.bookedOrder p clientId clientOrderId id side price leavesQty) same
    with ⟨l, hl, hside, hslot, heq⟩ | ⟨q, rest, _, _, heq⟩
  · have hfind : v.getPriceLevel side price = some l :=
      (getPriceLevel_some hv).mpr ⟨v.own_subset _ hl, hside, hslot⟩
    obtain ⟨o, horders, hne⟩ := joins l hfind
    rw [heq]
    intro m hm
    rw [levels_appended] at hm
    obtain ⟨k, hk, rfl⟩ := List.mem_map.mp hm
    by_cases hkl : k.slot = l.slot
    · obtain rfl := hv.level_eq_of_slot hk (v.own_subset _ hl) hkl
      rw [if_pos rfl, LevelView.append, horders]
      simpa [bookedOrder, priorityAt_eq hfind horders] using lt_succ hne
    · rw [if_neg hkl]
      exact h k hk
  · rw [heq]
    intro m hm
    rcases List.mem_cons.mp ((levels_newLevel v q rest _).mem_iff.mp hm) with rfl | hm
    · exact List.pairwise_singleton _ _
    · exact h m hm

/-- The new priority is the greatest exactly if at most one order is joined. -/
theorem joinsOne_iff_foremost (h : v.Rising) (hv : v.Valid) (hp : v.Priced)
    (same : v.SamePrice side price) : v.JoinsOne side price ↔ v.Foremost side price := by
  constructor
  · intro joins o ho hside hprice
    obtain ⟨l, hl, hol⟩ := v.mem_orders.mp ho
    obtain ⟨hlside, hlslot⟩ := hv.filed l hl o hol
    have hfind : v.getPriceLevel side price = some l := (getPriceLevel_some hv).mpr
      ⟨hl, hlside.symm.trans hside, by rw [← hlslot, hprice]⟩
    obtain ⟨first, horders, hne⟩ := joins l hfind
    obtain rfl : o = first := by simpa [horders] using hol
    rw [priorityAt_eq hfind horders]
    exact lt_succ hne
  · intro foremost l hfind
    obtain ⟨hl, hside, hslot⟩ := (getPriceLevel_some hv).mp hfind
    have hprice := (same l hl hslot).2
    have hlt : ∀ o ∈ l.orders, o.priority < v.priorityAt side price := fun o ho =>
      foremost o (v.mem_orders.mpr ⟨l, hl, ho⟩) ((hv.filed l hl o ho).1.trans hside)
        ((hp.price l hl o ho).trans hprice)
    have hrising := h l hl
    rcases horders : l.orders with _ | ⟨first, rest⟩
    · exact absurd horders (hv.nonempty l hl)
    · rw [priorityAt_eq hfind horders, horders] at hlt
      rw [horders] at hrising
      rcases rest with _ | ⟨second, rest⟩
      · refine ⟨first, rfl, fun hmax => ?_⟩
        have hfirst := hlt first List.mem_cons_self
        rw [hmax] at hfirst
        exact absurd hfirst (by decide)
      · have hsecond := le_of_lt_succ (hlt second (by simp))
        have hstep : first.priority < second.priority :=
          (List.pairwise_cons.mp hrising).1 second List.mem_cons_self
        exact absurd hstep (UInt64.not_lt.mpr hsecond)

/-- Prices and priorities along the levels. -/
structure Queued (v : BookView) : Prop where
  priced : v.Priced
  rising : v.Rising

theorem queued_stages : Stages Queued (fun a v _ => v.Queued ∧ Named a.side)
    (fun v side price => v.SamePrice side price ∧ v.JoinsOne side price) where
  named _ _ hv h ho := h.priced.named hv ho
  accepted _ _ _ _ _ _ _ h hn := ⟨⟨priced_structural.report _ _ _ h.priced, h.rising⟩, hn⟩
  fill a _ leavesQty o hv h _ ho _ :=
    ⟨⟨priced_structural.fill hv h.1.priced a ho leavesQty, h.1.rising.fill a leavesQty o⟩, h.2⟩
  filled _ _ h := h.1
  book a v leavesQty p rest hv h hpos hfree same hQ := by
    refine ⟨priced_structural.book hv h.1.priced (by simp [hfree]) same ⟨hQ.1, h.2⟩ _ _ _ _, ?_⟩
    rw [book_eq hfree]
    exact (h.1.rising.book hv same hQ.2 p a.clientId a.clientOrderId a.marketOrderId leavesQty :)
  cancelOrder _ _ _ o hv h ho :=
    ⟨priced_structural.send _ (priced_structural.removeOrder _ o hv ho h.priced),
      h.rising.removeOrder o⟩
  reduce _ _ _ _ _ hv h _ _ :=
    ⟨priced_structural.send _ (priced_structural.setQty _ _ _ hv h.priced), h.rising.setQty _ _⟩
  reject _ _ _ _ _ h := ⟨priced_structural.send _ h.priced, h.rising⟩

end Steps

end BookView

section Run
variable {fuel : Nat} {i : InstrumentId} {rs : List OrderBook.BookRequest} {s : OrderBook}
  {v : BookView}

theorem joinsOne_iff (hr : Represents s v) (hv : v.Valid) (side : Side) (price : Price) :
    s.JoinsOne side price ↔ v.JoinsOne side price := by
  rw [OrderBook.JoinsOne, BookView.JoinsOne, hr.getPriceLevel]
  have level : ∀ l, v.getPriceLevel side price = some l →
      ((∀ p ∈ (s.level l.handle).firstOrder, (s.order p).nextOrder = some p ∧
          (s.order p).priority ≠ 0xFFFFFFFFFFFFFFFF) ↔
        ∃ o, l.orders = [o] ∧ o.priority ≠ 0xFFFFFFFFFFFFFFFF) := by
    intro l hfind
    obtain ⟨hl, _, _⟩ := (getPriceLevel_some hv).mp hfind
    obtain ⟨_, _, hfirst, hring, hfields⟩ := hr.level l hl
    rcases horders : l.orders with _ | ⟨first, rest⟩
    · exact absurd horders (hv.nonempty l hl)
    · rw [horders] at hfirst hring hfields
      have hpriority : (s.order first.handle).priority = first.priority :=
        congrArg OrderFields.priority (hfields first List.mem_cons_self)
      have halone : (s.order first.handle).nextOrder = some first.handle ↔ rest = [] := by
        rcases rest with _ | ⟨second, rest⟩
        · exact iff_of_true (isRing_singleton.mp hring).1 rfl
        · have hnext : (s.order first.handle).nextOrder = some second.handle :=
            hring.linked_head.1
          have hne : second.handle ≠ first.handle := fun heq => by
            have hnd := hring.nodup
            simp [heq] at hnd
          simp [hnext, hne]
      simp only [hfirst, List.map_cons, List.head?_cons, Option.mem_some_iff, forall_eq', halone,
        hpriority, List.cons.injEq]
      constructor
      · rintro ⟨hrest, hne⟩
        exact ⟨first, ⟨rfl, hrest⟩, hne⟩
      · rintro ⟨o, ⟨rfl, hrest⟩, hne⟩
        exact ⟨hrest, hne⟩
  rcases hfind : v.getPriceLevel side price with _ | l
  · simp
  · simpa using level l hfind

theorem foremost_iff (hr : Represents s v) (hv : v.Valid) (side : Side) (price : Price) :
    s.Foremost side price ↔ v.Foremost side price := by
  rw [OrderBook.Foremost, priorityAt_spec hr hv, onReturn_ok, BookView.Foremost]
  constructor
  · intro h o ho hside hprice
    have hfields := hr.fields ho
    have := h o.handle ((mem_resting_iff hr hv).mpr (List.mem_map_of_mem ho))
      (by rw [hfields]; exact hside) (by rw [hfields]; exact hprice)
    rwa [hfields] at this
  · intro h p hp hside hprice
    obtain ⟨o, ho, rfl⟩ := List.mem_map.mp ((mem_resting_iff hr hv).mp hp)
    rw [hr.fields ho] at hside hprice ⊢
    exact h o ho hside hprice

theorem keepsPriorities_reached (hfuel : maxNumOrders < fuel)
    (h : Reached (OrderBook.call fuel) (OrderBook.KeepsPriorities fuel) (.create i) rs s) :
    Simulates Queued s (rs.foldl BookView.call (.create i)) := by
  refine reached_simulates hfuel ⟨create_priced i, create_rising i⟩ ?_ h
  intro s v r hr hv hq ⟨_, hprices, hjoins⟩ hfind
  have hsame := keepsPrices_books hfuel hr hv hprices
  have hone : v.Books BookView.JoinsOne r :=
    books_view hr hv hfuel (fun _ _ side price hr hv => (joinsOne_iff hr hv side price).mp) hfind
      hjoins
  exact ⟨books_mono (fun _ _ _ => SamePrice.same) hsame, fun ha =>
    queued_stages.call hv hq hprices.2.1 ha (books_and hsame hone)⟩

/-- Where an order is booked, it gets the greatest priority exactly if it joins at most one. -/
theorem books_foremost_iff (hr : Represents s v) (hv : v.Valid) (hq : v.Queued)
    (hfuel : maxNumOrders < fuel) {r : OrderBook.BookRequest} (hprices : s.KeepsPrices fuel r) :
    s.Books fuel OrderBook.Foremost r ↔ s.Books fuel OrderBook.JoinsOne r := by
  have hfind := hprices.1.findable
  have hone := books_iff hr hv hfuel (r := r)
    (fun _ _ side price hr hv => joinsOne_iff hr hv side price) hfind
  have hmost := books_iff hr hv hfuel (r := r)
    (fun _ _ side price hr hv => foremost_iff hr hv side price) hfind
  have hqueued := books_and (keepsPrices_books hfuel hr hv hprices)
    (queued_stages.books hv hq hprices.2.1)
  rw [hone, hmost]
  constructor
  · intro h
    refine books_mono ?_ (books_and hqueued h)
    rintro w side price ⟨⟨hsame, hw, _, _, hw', _⟩, hforemost⟩
    exact (joinsOne_iff_foremost hw'.rising hw hw'.priced hsame).mpr hforemost
  · intro h
    refine books_mono ?_ (books_and hqueued h)
    rintro w side price ⟨⟨hsame, hw, _, _, hw', _⟩, hjoins⟩
    exact (joinsOne_iff_foremost hw'.rising hw hw'.priced hsame).mp hjoins

/-- In a run in which every order is the first or second of its level when it is booked, the
priorities increase along every level; and an order that is booked gets the greatest of its
level exactly if it is the first or second. -/
theorem keepsPriorities_rising (hfuel : maxNumOrders < fuel)
    (h : Reached (OrderBook.call fuel) (OrderBook.KeepsPriorities fuel) (.create i) rs s) :
    (∀ side l p q, s.LevelOf side l → s.RestsAt l p → s.nextOrder p = some q →
      (s.level l).firstOrder ≠ some q → (s.order p).priority < (s.order q).priority) ∧
    ∀ r, s.WithinPools fuel r → s.KeepsPrices fuel r →
      (s.Books fuel OrderBook.Foremost r ↔ s.Books fuel OrderBook.JoinsOne r) := by
  obtain ⟨hr, hv, hq⟩ := keepsPriorities_reached hfuel h
  refine ⟨?_, fun r _ hprices => books_foremost_iff hr hv hq hfuel hprices⟩
  intro side l p q hl hp hnext hne
  obtain ⟨m, hm, rfl⟩ := (levelOf_iff hr).mp hl
  have hml := own_subset _ side hm
  obtain ⟨o, ho, rfl⟩ := (restsAt_iff hr hv hml).mp hp
  obtain ⟨_, _, hfirst, hring, hfields⟩ := hr.level m hml
  rcases horders : m.orders with _ | ⟨first, rest⟩
  · exact absurd horders (hv.nonempty m hml)
  · have hsorted : (m.orders.map (·.handle)).Pairwise fun p q =>
        (s.order p).priority < (s.order q).priority := by
      refine List.pairwise_map.mpr ((hq.rising m hml).imp_of_mem fun {o o'} ho ho' hlt => ?_)
      rw [hfields o ho, hfields o' ho']
      exact hlt
    rw [horders] at hring hsorted hfirst ho
    refine hring.rel_of_next (r := fun p q => (s.order p).priority < (s.order q).priority) hsorted
      (List.mem_map_of_mem ho) hnext fun heq => hne ?_
    rw [hfirst, heq]
    rfl

/-- The hypotheses are met by a run in which the first of two orders is filled and a third
one comes. -/
theorem keepsPriorities_rising_sample : ∃ s,
    Reached (OrderBook.call 3000) (OrderBook.KeepsPriorities 3000) (.create 0)
      [.add 1 1 .buy 10 5, .add 2 1 .buy 10 5, .add 3 1 .sell 10 5, .add 3 2 .buy 10 5] s ∧
    ∀ side l p q, s.LevelOf side l → s.RestsAt l p → s.nextOrder p = some q →
      (s.level l).firstOrder ≠ some q → (s.order p).priority < (s.order q).priority := by
  obtain ⟨s, hs, _⟩ := @reached_of_any _ _ _ (OrderBook.call 3000)
    (OrderBook.KeepsPriorities 3000) (.create 0)
    [.add 1 1 .buy 10 5, .add 2 1 .buy 10 5, .add 3 1 .sell 10 5, .add 3 2 .buy 10 5] _
    (fun _ => true) (by decide +kernel)
  exact ⟨s, hs, (keepsPriorities_rising (by decide) hs).1⟩

/-- Three buys at one price. -/
def threeBuys : List OrderBook.BookRequest :=
  [.add 1 1 .buy 10 5, .add 2 1 .buy 10 5, .add 3 1 .buy 10 5]

/-- The second and the third have the same priority. -/
theorem threeBuys_share : ∃ s,
    Reached (OrderBook.call 3000) (fun s r => s.WithinPools 3000 r ∧ s.KeepsPrices 3000 r)
      (.create 0) threeBuys s ∧
    ∃ side l p q, s.LevelOf side l ∧ s.RestsAt l p ∧ s.nextOrder p = some q ∧
      (s.level l).firstOrder ≠ some q ∧ ¬ (s.order p).priority < (s.order q).priority := by
  obtain ⟨s, hs, hcheck⟩ := @reached_of_any _ _ _ (OrderBook.call 3000)
    (fun s r => s.WithinPools 3000 r ∧ s.KeepsPrices 3000 r) (.create 0) threeBuys _
    (fun s => s.bid = some 0 ∧ (s.level 0).firstOrder = some 0 ∧
      (s.order 0).nextOrder = some 1 ∧ (s.order 1).nextOrder = some 2 ∧
      (s.order 1).priority = 2 ∧ (s.order 2).priority = 2)
    (by decide +kernel)
  simp only [decide_eq_true_eq] at hcheck
  obtain ⟨hbid, hfirst, hnext, hnext', hpriority, hpriority'⟩ := hcheck
  refine ⟨s, hs, .buy, 0, 1, 2, ⟨0, hbid, .refl⟩, ⟨0, hfirst, .single hnext⟩, hnext', ?_, ?_⟩
  · rw [hfirst]
    decide
  · rw [hpriority, hpriority']
    decide

end Run

end StockExchange
