import StockExchange.Invariants
import StockExchange.Termination

/-!
# The price level index

`price_levels_` is indexed by the price modulo 256 and looked up by side. As long as no
order is booked into a slot of another price or side, each level is the one in its slot
and holds exactly the orders of its side and price.
-/

namespace StockExchange

open Ring BookView Transitions

namespace BookView

/-- No level of another side or price holds the slot of `price`. -/
def SamePrice (v : BookView) (side : Side) (price : Price) : Prop :=
  ∀ l ∈ v.levels, l.slot = priceToIndex price → l.side = side ∧ l.price = price

/-- The side is one of the two named ones. -/
def Named (side : Side) : Prop := side = .buy ∨ side = .sell

/-- Orders have the price of their level, and asks are sells. -/
structure Priced (v : BookView) : Prop where
  price : ∀ l ∈ v.levels, ∀ o ∈ l.orders, o.price = l.price
  sell : ∀ l ∈ v.asks, l.side = .sell

theorem create_priced (i : InstrumentId) : (create i).Priced :=
  ⟨by simp [create, levels], by simp [create]⟩

theorem Priced.named {v : BookView} (hp : v.Priced) (hv : v.Valid) {o : OrderView}
    (ho : o ∈ v.orders) : Named o.side := by
  obtain ⟨l, hl, hol⟩ := v.mem_orders.mp ho
  rw [(hv.filed l hl o hol).1]
  rcases List.mem_append.mp hl with hb | ha
  · exact Or.inl (hv.bidSide l hb)
  · exact Or.inr (hp.sell l ha)

/-- Every order that is booked has a named side. -/
theorem Priced.books_named {v : BookView} (hp : v.Priced) (hv : v.Valid)
    {r : OrderBook.BookRequest} (hr : r.Sided) : v.Books (fun _ side _ => Named side) r := by
  cases r with
  | add => exact fun _ => hr
  | cancel => trivial
  | modify => exact fun o hfind _ _ => hp.named hv (mem_of_findOrder _ _ hfind).1

theorem priced_structural :
    Structural Priced fun v side price => v.SamePrice side price ∧ Named side where
  report _ _ _ hp := ⟨hp.price, hp.sell⟩
  setQty v h qty _ hp := by
    constructor
    · intro l hl o ho
      obtain ⟨m, hm, rfl⟩ := List.mem_map.mp (levels_setQty v h qty ▸ hl)
      obtain ⟨o', ho', rfl⟩ := List.mem_map.mp (show o ∈ m.orders.map (withQty h qty) from ho)
      rw [(withQty_key h qty o').2.1]
      exact hp.price m hm o' ho'
    · intro l hl
      obtain ⟨m, hm, rfl⟩ := List.mem_map.mp (show l ∈ v.asks.map (.setQty h qty) from hl)
      exact hp.sell m hm
  removeOrder v o _ _ hp := by
    constructor
    · intro l hl o' ho'
      obtain ⟨m, hm, rfl, _⟩ := mem_dropOrder.mp (levels_removeOrder v o ▸ hl)
      exact hp.price m hm o' (List.mem_of_mem_filter ho')
    · intro l hl
      obtain ⟨m, hm, rfl, _⟩ := mem_dropOrder.mp (show l ∈ dropOrder o.handle v.asks from hl)
      exact hp.sell m hm
  addOrder v o rest hv hp _ same hQ := by
    obtain ⟨hprice, hnamed⟩ := hQ
    suffices h : (v.place o).Priced from ⟨h.price, h.sell⟩
    rcases hv.place_cases same with ⟨l, hl, hside, hslot, heq⟩ | ⟨h, ls, _, _, heq⟩
    · rw [heq]
      constructor
      · intro m hm o' ho'
        rw [levels_appended] at hm
        obtain ⟨k, hk, rfl⟩ := List.mem_map.mp hm
        by_cases hkl : k.slot = l.slot
        · rw [if_pos hkl] at ho' ⊢
          rcases List.mem_append.mp ho' with ho' | ho'
          · exact hp.price k hk o' ho'
          · rw [List.mem_singleton.mp ho']
            exact (hprice k hk (hkl.trans hslot)).2.symm
        · rw [if_neg hkl] at ho' ⊢
          exact hp.price k hk o' ho'
      · intro m hm
        obtain ⟨k, hk, rfl⟩ := List.mem_map.mp hm
        split
        · exact hp.sell k hk
        · exact hp.sell k hk
    · rw [heq]
      constructor
      · intro m hm o' ho'
        rcases List.mem_cons.mp ((levels_newLevel v h ls o).mem_iff.mp hm) with rfl | hm
        · rw [List.mem_singleton.mp ho']
        · exact hp.price m hm o' ho'
      · intro m hm
        by_cases hs : o.side = .buy
        · exact hp.sell m (by simpa only [newLevel, setOwn, own, hs, if_true] using hm)
        · have hm' : m ∈ insertLevel (fun m => betterPrice o.price m.price o.side)
              ⟨h, o.side, o.price, [o]⟩ v.asks := by
            simpa only [newLevel, setOwn, own, hs, if_false] using hm
          rcases List.mem_cons.mp ((insertLevel_perm _ _ _).mem_iff.mp hm') with rfl | hm'
          · exact hnamed.resolve_left hs
          · exact hp.sell m hm'

end BookView

namespace OrderBook

/-- No order is booked into a slot held by a level of another price or side. -/
def KeepsPrices (fuel : Nat) (s : OrderBook) (r : BookRequest) : Prop :=
  r.Bounded ∧ r.Sided ∧ s.Books fuel SlotOfPrice r

instance (fuel : Nat) (s : OrderBook) (r : BookRequest) : Decidable (s.KeepsPrices fuel r) :=
  inferInstanceAs (Decidable (_ ∧ _))

/-- Two orders rest in the ring of one level. -/
def SameRing (s : OrderBook) (p q : OrderPtr) : Prop :=
  ∃ side l, s.LevelOf side l ∧ s.RestsAt l p ∧ s.RestsAt l q

end OrderBook

section Index
variable {fuel : Nat} {i : InstrumentId} {rs : List OrderBook.BookRequest} {s : OrderBook}
  {v : BookView}

theorem slotOfPrice_iff (hr : Represents s v) (hv : v.Valid) (side : Side) (price : Price) :
    s.SlotOfPrice side price ↔ v.SamePrice side price :=
  slot_iff hr hv (fun side' price' => side' = side ∧ price' = price) price

theorem keepsPrices_books (hfuel : maxNumOrders < fuel) (hr : Represents s v) (hv : v.Valid)
    {r : OrderBook.BookRequest} (h : s.KeepsPrices fuel r) : v.Books SamePrice r :=
  books_view hr hv hfuel (fun _ _ side price hr hv => (slotOfPrice_iff hr hv side price).mp)
    h.1.findable h.2.2

theorem books_mono {Q Q' : BookView → Side → Price → Prop}
    (weaker : ∀ v side price, Q v side price → Q' v side price) {r : OrderBook.BookRequest}
    (h : v.Books Q r) : v.Books Q' r := by
  cases r with
  | add => exact fun hpos => weaker _ _ _ (h hpos)
  | cancel => trivial
  | modify => exact fun o ho hq hpos => weaker _ _ _ (h o ho hq hpos)

theorem BookView.SamePrice.same {side : Side} {price : Price} (h : v.SamePrice side price) :
    v.SameSide side price :=
  fun l hl hslot => (h l hl hslot).1

theorem keepsPrices_reached (hfuel : maxNumOrders < fuel)
    (h : Reached (OrderBook.call fuel) (OrderBook.KeepsPrices fuel) (.create i) rs s) :
    Simulates Priced s (rs.foldl BookView.call (.create i)) := by
  refine reached_simulates hfuel (create_priced i) ?_ h
  intro s v r hr hv hp ha _
  have hprices := keepsPrices_books hfuel hr hv ha
  exact ⟨books_mono (fun _ _ _ => SamePrice.same) hprices, fun hadm =>
    priced_structural.call hv hp hadm (books_and hprices (hp.books_named hv ha.2.1))⟩

theorem sameRing_iff (hr : Represents s v) (hv : v.Valid) {p q : OrderPtr} :
    s.SameRing p q ↔ ∃ l ∈ v.levels, ∃ o ∈ l.orders, ∃ o' ∈ l.orders,
      o.handle = p ∧ o'.handle = q := by
  constructor
  · rintro ⟨side, l, hl, hp, hq⟩
    obtain ⟨m, hm, rfl⟩ := (levelOf_iff hr).mp hl
    have hml := v.own_subset side hm
    obtain ⟨o, ho, rfl⟩ := (restsAt_iff hr hv hml).mp hp
    obtain ⟨o', ho', rfl⟩ := (restsAt_iff hr hv hml).mp hq
    exact ⟨m, hml, o, ho, o', ho', rfl, rfl⟩
  · rintro ⟨l, hl, o, ho, o', ho', rfl, rfl⟩
    refine ⟨l.side, l.handle, (levelOf_iff hr).mpr ⟨l, hv.own_side hl, rfl⟩, ?_, ?_⟩
    · exact (restsAt_iff hr hv hl).mpr ⟨o, ho, rfl⟩
    · exact (restsAt_iff hr hv hl).mpr ⟨o', ho', rfl⟩

/-- Levels on their sides and in their slots, orders with their side and price. -/
theorem keepsPrices_index (hfuel : maxNumOrders < fuel)
    (h : Reached (OrderBook.call fuel) (OrderBook.KeepsPrices fuel) (.create i) rs s) :
    (∀ l, s.LevelOf .buy l → (s.level l).side = .buy) ∧
    (∀ l, s.LevelOf .sell l → (s.level l).side = .sell) ∧
    (∀ side l, s.LevelOf side l → s.priceLevels (priceToIndex (s.level l).price) = some l) ∧
    (∀ side l p, s.LevelOf side l → s.RestsAt l p → (s.order p).price = (s.level l).price) ∧
    ∀ p q, p ∈ s.resting → q ∈ s.resting → (s.SameRing p q ↔
      (s.order p).side = (s.order q).side ∧ (s.order p).price = (s.order q).price) := by
  obtain ⟨hr, hv, hp⟩ := keepsPrices_reached hfuel h
  refine ⟨?_, ?_, ?_, ?_, ?_⟩
  · intro l hl
    obtain ⟨m, hm, rfl⟩ := (levelOf_iff hr).mp hl
    rw [(hr.level m (own_subset _ .buy hm)).side]
    exact hv.bidSide m hm
  · intro l hl
    obtain ⟨m, hm, rfl⟩ := (levelOf_iff hr).mp hl
    rw [(hr.level m (own_subset _ .sell hm)).side]
    exact hp.sell m hm
  · intro side l hl
    obtain ⟨m, hm, rfl⟩ := (levelOf_iff hr).mp hl
    have hml := own_subset _ side hm
    rw [(hr.level m hml).price]
    exact ((slots_iff hv).mp hr.slots _ _).mpr ⟨m, hml, rfl, rfl⟩
  · intro side l p hl hp'
    obtain ⟨m, hm, rfl⟩ := (levelOf_iff hr).mp hl
    have hml := own_subset _ side hm
    obtain ⟨o, ho, rfl⟩ := (restsAt_iff hr hv hml).mp hp'
    rw [hr.fields ((mem_orders _).mpr ⟨m, hml, ho⟩), (hr.level m hml).price]
    exact hp.price m hml o ho
  · intro p q hp' hq
    rw [mem_resting_iff hr hv] at hp' hq
    obtain ⟨o, ho, rfl⟩ := List.mem_map.mp hp'
    obtain ⟨o', ho', rfl⟩ := List.mem_map.mp hq
    rw [hr.fields ho, hr.fields ho', sameRing_iff hr hv]
    constructor
    · rintro ⟨l, hl, o₁, ho₁, o₂, ho₂, h₁, h₂⟩
      have e₁ := hv.order_eq ((mem_orders _).mpr ⟨l, hl, ho₁⟩) ho h₁
      have e₂ := hv.order_eq ((mem_orders _).mpr ⟨l, hl, ho₂⟩) ho' h₂
      subst e₁ e₂
      rw [(hv.filed l hl o₁ ho₁).1, (hv.filed l hl o₂ ho₂).1, hp.price l hl o₁ ho₁,
        hp.price l hl o₂ ho₂]
      exact ⟨rfl, rfl⟩
    · rintro ⟨_, hprice⟩
      obtain ⟨l, hl, hol⟩ := (mem_orders _).mp ho
      obtain ⟨l', hl', hol'⟩ := (mem_orders _).mp ho'
      have hll : l = l' := by
        refine hv.level_eq_of_slot hl hl' ?_
        rw [← (hv.filed l hl o hol).2, ← (hv.filed l' hl' o' hol').2, hprice]
      subst hll
      exact ⟨l, hl, o, hol, o', hol', rfl, rfl⟩

/-- The hypotheses are met by a run with levels on both sides. -/
theorem keepsPrices_index_sample : ∃ s,
    Reached (OrderBook.call 3000) (OrderBook.KeepsPrices 3000) (.create 0)
      [.add 1 1 .sell 12 8, .add 2 1 .buy 10 5, .add 3 1 .buy 10 7] s ∧
    ∀ p q, p ∈ s.resting → q ∈ s.resting → (s.SameRing p q ↔
      (s.order p).side = (s.order q).side ∧ (s.order p).price = (s.order q).price) := by
  obtain ⟨s, hs, _⟩ := @reached_of_any _ _ _ (OrderBook.call 3000) (OrderBook.KeepsPrices 3000)
    (.create 0) [.add 1 1 .sell 12 8, .add 2 1 .buy 10 5, .add 3 1 .buy 10 7] _ (fun _ => true)
    (by decide +kernel)
  exact ⟨s, hs, (keepsPrices_index (by decide) hs).2.2.2.2⟩

/-- Buys at 0 and at 256 share a ring. -/
theorem prices_share_ring : ∃ s,
    Reached (OrderBook.call 3000) (fun s r => s.WithinPools 3000 r ∧ r.Sided) (.create 0)
      [.add 1 1 .buy 0 5, .add 2 1 .buy 256 5] s ∧
    ∃ p q, p ∈ s.resting ∧ q ∈ s.resting ∧ s.SameRing p q ∧
      (s.order p).price ≠ (s.order q).price := by
  obtain ⟨s, hs, hcheck⟩ := @reached_of_any _ _ _ (OrderBook.call 3000)
    (fun s r => s.WithinPools 3000 r ∧ r.Sided) (.create 0)
    [.add 1 1 .buy 0 5, .add 2 1 .buy 256 5] _
    (fun s => s.bid = some 0 ∧ (s.level 0).firstOrder = some 0 ∧
      (s.order 0).nextOrder = some 1 ∧ (s.order 0).price = 0 ∧ (s.order 1).price = 256)
    (by decide +kernel)
  simp only [decide_eq_true_eq] at hcheck
  obtain ⟨hbid, hfirst, hnext, h₀, h₁⟩ := hcheck
  have hlevel : s.LevelOf .buy 0 := ⟨0, hbid, .refl⟩
  have hrest : s.RestsAt 0 0 := ⟨0, hfirst, .refl⟩
  have hrest' : s.RestsAt 0 1 := ⟨0, hfirst, .single hnext⟩
  exact ⟨s, hs, 0, 1, Or.inl ⟨0, hlevel, hrest⟩, Or.inl ⟨0, hlevel, hrest'⟩,
    ⟨.buy, 0, hlevel, hrest, hrest'⟩, by rw [h₀, h₁]; decide⟩

end Index

end StockExchange
