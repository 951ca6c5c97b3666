import StockExchange.Feed
import StockExchange.FeedMirror

/-!
# The public book

What the market updates say of a book: the levels of its two sides in their order, each with
its orders by arrival. After every call the rings of the book are those of the public book
of the updates it has sent, also where a level stands in the wrong place.
-/

namespace StockExchange

open Ring BookView Transitions

structure PublicLevel where
  price : Price
  orders : List MarketOrderFields
deriving DecidableEq

namespace PublicLevel

def append (o : MarketOrderFields) (l : PublicLevel) : PublicLevel :=
  { l with orders := l.orders ++ [o] }

def amend (id : OrderId) (qty : Quantity) (l : PublicLevel) : PublicLevel :=
  { l with orders := l.orders.map (.amend id qty) }

def drop (id : OrderId) (l : PublicLevel) : PublicLevel :=
  { l with orders := l.orders.filter fun o => o.marketOrderId ≠ id }

end PublicLevel

structure PublicBook where
  bids : List PublicLevel
  asks : List PublicLevel
deriving DecidableEq

namespace PublicBook

def empty : PublicBook := ⟨[], []⟩

def own (b : PublicBook) (side : Side) : List PublicLevel :=
  if side = .buy then b.bids else b.asks

def setOwn (b : PublicBook) (side : Side) (ls : List PublicLevel) : PublicBook where
  bids := if side = .buy then ls else b.bids
  asks := if side = .buy then b.asks else ls

def mapLevels (b : PublicBook) (f : List PublicLevel → List PublicLevel) : PublicBook :=
  ⟨f b.bids, f b.asks⟩

/-- The order joins the level of its price, or opens one. -/
def join (o : MarketOrderFields) (ls : List PublicLevel) : List PublicLevel :=
  if ls.any fun l => l.price = o.price then
    ls.map fun l => if l.price = o.price then l.append o else l
  else insertLevel (fun l => betterPrice o.price l.price o.side) ⟨o.price, [o]⟩ ls

def add (b : PublicBook) (o : MarketOrderFields) : PublicBook :=
  b.setOwn o.side (join o (b.own o.side))

def amend (b : PublicBook) (id : OrderId) (qty : Quantity) : PublicBook :=
  b.mapLevels (List.map (.amend id qty))

def cancel (b : PublicBook) (id : OrderId) : PublicBook :=
  b.mapLevels fun ls => (ls.map (.drop id)).filter fun l => l.orders ≠ []

def apply (b : PublicBook) (u : MarketUpdate) : PublicBook :=
  if u.type = .add then b.add ⟨u.orderId, u.side, u.price, u.qty, u.priority⟩
  else if u.type = .modify then b.amend u.orderId u.qty
  else if u.type = .cancel then b.cancel u.orderId
  else if u.type = .clear then empty
  else b

def levels (b : PublicBook) : List PublicLevel := b.bids ++ b.asks
def orders (b : PublicBook) : List MarketOrderFields := b.levels.flatMap (·.orders)

end PublicBook

/-- The book that the updates describe. -/
def publicBook (us : List MarketUpdate) : PublicBook := us.foldl PublicBook.apply .empty

def LevelView.asPublic (l : LevelView) : PublicLevel := ⟨l.price, l.orders.map OrderView.asMarket⟩

def BookView.asPublic (v : BookView) : PublicBook :=
  ⟨v.bids.map LevelView.asPublic, v.asks.map LevelView.asPublic⟩

@[simp] theorem asMarket_price (o : OrderView) : o.asMarket.price = o.price := rfl
@[simp] theorem asMarket_side (o : OrderView) : o.asMarket.side = o.side := rfl

@[simp] theorem asMarket_id (o : OrderView) : o.asMarket.marketOrderId = o.marketOrderId := rfl

namespace PublicBook
variable {b c : PublicBook} {side : Side}

theorem ext_own (h : ∀ side, b.own side = c.own side) : b = c := by
  obtain ⟨bids, asks⟩ := b
  obtain ⟨bids', asks'⟩ := c
  have hbids : bids = bids' := h .buy
  have hasks : asks = asks' := h .sell
  rw [hbids, hasks]

theorem own_setOwn (b : PublicBook) (side side' : Side) (ls : List PublicLevel) :
    (b.setOwn side ls).own side' = if side = .buy ↔ side' = .buy then ls else b.own side' := by
  by_cases hs : side = .buy <;> by_cases hs' : side' = .buy <;> simp [own, setOwn, hs, hs']

theorem own_mapLevels (b : PublicBook) (f : List PublicLevel → List PublicLevel) (side : Side) :
    (b.mapLevels f).own side = f (b.own side) := by
  by_cases hs : side = .buy <;> simp [own, mapLevels, hs]

theorem own_asPublic (v : BookView) (side : Side) :
    v.asPublic.own side = (v.own side).map LevelView.asPublic := by
  by_cases hs : side = .buy <;> simp [own, BookView.own, asPublic, hs]

section Apply
variable {u : MarketUpdate}

theorem apply_add (h : u.type = .add) :
    b.apply u = b.add ⟨u.orderId, u.side, u.price, u.qty, u.priority⟩ := if_pos h

theorem apply_modify (h : u.type = .modify) : b.apply u = b.amend u.orderId u.qty := by
  rw [apply, if_neg (by rw [h]; decide), if_pos h]

theorem apply_cancel (h : u.type = .cancel) : b.apply u = b.cancel u.orderId := by
  rw [apply, if_neg (by rw [h]; decide), if_neg (by rw [h]; decide), if_pos h]

theorem apply_clear (h : u.type = .clear) : b.apply u = empty := by
  rw [apply, if_neg (by rw [h]; decide), if_neg (by rw [h]; decide), if_neg (by rw [h]; decide),
    if_pos h]

/-- Trades and the ends of a snapshot say nothing of the book. -/
theorem apply_other (h : u.type = .trade ∨ u.type = .snapshotStart ∨ u.type = .snapshotEnd) :
    b.apply u = b := by
  rcases h with h | h | h <;> rw [apply, if_neg (by rw [h]; decide), if_neg (by rw [h]; decide),
    if_neg (by rw [h]; decide), if_neg (by rw [h]; decide)]

end Apply

end PublicBook

/-- Insertion looks at nothing but the comparisons. -/
theorem map_insertRest {α β : Type} {f : α → β} {before : α → Bool} {before' : β → Bool} (x : α) :
    ∀ {ls : List α}, (∀ l ∈ ls, before l = before' (f l)) →
      (insertRest before x ls).map f = insertRest before' (f x) (ls.map f)
  | [], _ => rfl
  | [l], h => by
    have hl := h l (by simp)
    by_cases hb : before l <;> simp [insertRest, hb, ← hl]
  | [l, last], h => by
    have hl := h l (by simp)
    by_cases hb : before l <;> simp [insertRest, hb, ← hl]
  | l :: m :: n :: rest, h => by
    have hl := h l (by simp)
    have ih := map_insertRest x fun k hk => h k (List.mem_cons_of_mem l hk)
    by_cases hb : before l
    · simp [insertRest, hb, ← hl]
    · simp only [List.map_cons] at ih ⊢
      rw [insertRest, if_neg hb, insertRest, if_neg (hl ▸ hb), List.map_cons, ih]

theorem map_insertLevel {α β : Type} {f : α → β} {before : α → Bool} {before' : β → Bool} (x : α)
    {ls : List α} (h : ∀ l ∈ ls, before l = before' (f l)) :
    (insertLevel before x ls).map f = insertLevel before' (f x) (ls.map f) := by
  rcases ls with _ | ⟨best, rest⟩
  · rfl
  · have hbest := h best (by simp)
    have hrest := map_insertRest x fun l hl => h l (List.mem_cons_of_mem best hl)
    by_cases hb : before best
    · simp [insertLevel, hb, ← hbest]
    · rw [insertLevel, if_neg hb, List.map_cons, hrest, List.map_cons, insertLevel,
        if_neg (hbest ▸ hb)]

section View
variable {v : BookView} {o : OrderView}

/-- Booking an order where its slot holds no other price is its `ADD`. -/
theorem asPublic_place (hv : v.Valid) (same : v.SamePrice o.side o.price) :
    (v.place o).asPublic = v.asPublic.add o.asMarket := by
  refine PublicBook.ext_own fun side => ?_
  rw [PublicBook.own_asPublic, PublicBook.add, PublicBook.own_setOwn, PublicBook.own_asPublic,
    PublicBook.own_asPublic, asMarket_side]
  by_cases hside : o.side = .buy ↔ side = .buy
  · rw [if_pos hside, ← own_congr hside]
    rcases hv.place_cases same.same with ⟨l, hl, -, hslot, heq⟩ | ⟨h, ls, -, hempty, heq⟩
    · have hprice : ∀ m ∈ v.own o.side, m.slot = l.slot ↔ m.price = o.price := fun m hm =>
        ⟨fun h => (same m (v.own_subset _ hm) (h.trans hslot)).2, fun h => by
          rw [hslot, LevelView.slot, h]⟩
      have hany : ((v.own o.side).map LevelView.asPublic).any
          (fun m => m.price = o.price) = true := by
        rw [List.any_eq_true]
        exact ⟨_, List.mem_map_of_mem hl, decide_eq_true ((hprice l hl).mp rfl)⟩
      have hown : (v.place o).own o.side =
          (v.own o.side).map fun m => if m.slot = l.slot then m.append o else m := by
        rw [heq]
        by_cases hs : o.side = .buy <;> simp [own, mapLevels, hs]
      rw [PublicBook.join, asMarket_price, if_pos hany, hown, List.map_map, List.map_map]
      refine List.map_congr_left fun m hm => ?_
      have hiff : m.slot = l.slot ↔ m.asPublic.price = o.price := hprice m hm
      simp only [Function.comp_apply]
      by_cases hm' : m.slot = l.slot
      · rw [if_pos hm', if_pos (hiff.mp hm')]
        simp [LevelView.asPublic, LevelView.append, PublicLevel.append]
      · rw [if_neg hm', if_neg fun h => hm' (hiff.mpr h)]
    · have hany : ¬ ((v.own o.side).map LevelView.asPublic).any
          (fun m => m.price = o.price) = true := by
        rw [List.any_eq_true]
        rintro ⟨_, hm, hp⟩
        obtain ⟨m, hm', rfl⟩ := List.mem_map.mp hm
        have hprice : m.price = o.price := of_decide_eq_true hp
        exact hempty m (v.own_subset _ hm') (by rw [LevelView.slot, hprice])
      rw [PublicBook.join, asMarket_price, if_neg hany, heq, own_newLevel, if_pos Iff.rfl]
      exact map_insertLevel _ fun m _ => rfl
  · rw [if_neg hside, own_place_other hv same.same hside]

/-- The ids of the orders are theirs alone. -/
theorem handle_iff_id (hv : v.Valid) (hids : (v.orders.map (·.marketOrderId)).Nodup)
    (ho : o ∈ v.orders) {l : LevelView} {side : Side} (hl : l ∈ v.own side) :
    ∀ o' ∈ l.orders, o'.handle = o.handle ↔ o'.asMarket.marketOrderId = o.marketOrderId := by
  intro o' ho'
  have hmem := v.mem_orders.mpr ⟨l, v.own_subset side hl, ho'⟩
  exact ⟨fun h => hv.order_eq hmem ho h ▸ rfl,
    fun h => List.inj_on_of_nodup_map hids hmem ho h ▸ rfl⟩

/-- Removing an order is its `CANCEL`. -/
theorem asPublic_removeOrder (hv : v.Valid) (hids : (v.orders.map (·.marketOrderId)).Nodup)
    (ho : o ∈ v.orders) : (v.removeOrder o).asPublic = v.asPublic.cancel o.marketOrderId := by
  refine PublicBook.ext_own fun side => ?_
  have hdrop : ∀ l ∈ v.own side,
      (l.drop o.handle).asPublic = l.asPublic.drop o.marketOrderId := by
    intro l hl
    rw [LevelView.asPublic, LevelView.asPublic, PublicLevel.drop, LevelView.drop, List.filter_map]
    refine congrArg _ (congrArg _ (List.filter_congr fun o' ho' => ?_))
    exact decide_eq_decide.mpr (not_congr (handle_iff_id hv hids ho hl o' ho'))
  rw [PublicBook.own_asPublic, own_removeOrder, PublicBook.cancel, PublicBook.own_mapLevels,
    PublicBook.own_asPublic, dropOrder, List.map_map]
  have hmap : (v.own side).map (PublicLevel.drop o.marketOrderId ∘ LevelView.asPublic) =
      ((v.own side).map (LevelView.drop o.handle)).map LevelView.asPublic := by
    rw [List.map_map]
    exact List.map_congr_left fun l hl => (hdrop l hl).symm
  rw [hmap]
  generalize (v.own side).map (LevelView.drop o.handle) = ls
  rw [List.filter_map]
  refine congrArg _ (List.filter_congr fun l _ => ?_)
  simp [LevelView.asPublic]

/-- A change of quantity is a `MODIFY`. -/
theorem asPublic_setQty (hv : v.Valid) (hids : (v.orders.map (·.marketOrderId)).Nodup)
    (ho : o ∈ v.orders) (qty : Quantity) :
    (v.setQty o.handle qty).asPublic = v.asPublic.amend o.marketOrderId qty := by
  refine PublicBook.ext_own fun side => ?_
  rw [PublicBook.own_asPublic, own_setQty, PublicBook.amend, PublicBook.own_mapLevels,
    PublicBook.own_asPublic, List.map_map, List.map_map]
  refine List.map_congr_left fun l hl => ?_
  have horders : (l.orders.map (withQty o.handle qty)).map OrderView.asMarket =
      (l.orders.map OrderView.asMarket).map (.amend o.marketOrderId qty) := by
    rw [List.map_map, List.map_map]
    refine List.map_congr_left fun o' ho' => ?_
    have hiff := handle_iff_id hv hids ho hl o' ho'
    by_cases heq : o'.handle = o.handle
    · have hid : o'.marketOrderId = o.marketOrderId := hiff.mp heq
      simp [withQty, OrderView.asMarket, MarketOrderFields.amend, heq, hid]
    · have hid : ¬ o'.marketOrderId = o.marketOrderId := fun h => heq (hiff.mpr h)
      simp [withQty, OrderView.asMarket, MarketOrderFields.amend, heq, hid]
  exact congrArg (PublicLevel.mk l.price) horders

theorem orders_asPublic (v : BookView) : v.asPublic.orders = v.orders.map OrderView.asMarket := by
  simp only [PublicBook.orders, PublicBook.levels, BookView.orders, BookView.levels,
    BookView.asPublic, List.flatMap_append, List.map_append, List.flatMap_map, List.map_flatMap]
  rfl

end View

namespace PublicBook

/-- The update may come next: a fresh order whose slot holds no other price or side, a
change of a live order under its side and price, or a `CLEAR` of an empty book. -/
structure Admits (b : PublicBook) (u : MarketUpdate) : Prop where
  type : u.type ∈ [MarketUpdateType.add, .modify, .cancel, .trade, .clear]
  fresh : u.type = .add → ∀ o ∈ b.orders, o.marketOrderId ≠ u.orderId
  sided : u.type = .add → Named u.side
  slot : u.type = .add → ∀ side, ∀ l ∈ b.own side, priceToIndex l.price = priceToIndex u.price →
    l.price = u.price ∧ (side = .buy ↔ u.side = .buy)
  present : u.type = .modify ∨ u.type = .cancel →
    ∃ o ∈ b.orders, o.marketOrderId = u.orderId ∧ o.side = u.side ∧ o.price = u.price
  empty : u.type = .clear → b = .empty

def AdmitsAll : PublicBook → List MarketUpdate → Prop
  | _, [] => True
  | b, u :: us => b.Admits u ∧ AdmitsAll (b.apply u) us

theorem admitsAll_append {b : PublicBook} {us vs : List MarketUpdate} :
    b.AdmitsAll (us ++ vs) ↔ b.AdmitsAll us ∧ (us.foldl apply b).AdmitsAll vs := by
  induction us generalizing b with
  | nil => exact ⟨fun h => ⟨trivial, h⟩, fun h => h.2⟩
  | cons u us ih => rw [List.cons_append, AdmitsAll, ih, AdmitsAll, List.foldl_cons, and_assoc]

theorem admitsAll_concat {b : PublicBook} {us : List MarketUpdate} {u : MarketUpdate} :
    b.AdmitsAll (us ++ [u]) ↔ b.AdmitsAll us ∧ (us.foldl apply b).Admits u := by
  rw [admitsAll_append]
  exact and_congr_right fun _ => and_iff_left trivial

theorem admits_trade {b : PublicBook} {u : MarketUpdate} (h : u.type = .trade) : b.Admits u := by
  have hne : ∀ t : MarketUpdateType, t ≠ .trade → u.type ≠ t := fun t ht heq =>
    ht (heq.symm.trans h)
  exact ⟨by rw [h]; decide, fun ht => absurd ht (hne _ (by decide)),
    fun ht => absurd ht (hne _ (by decide)), fun ht => absurd ht (hne _ (by decide)),
    fun ht => ht.elim (fun ht => absurd ht (hne _ (by decide)))
      fun ht => absurd ht (hne _ (by decide)), fun ht => absurd ht (hne _ (by decide))⟩

end PublicBook

theorem publicBook_append (us vs : List MarketUpdate) :
    publicBook (us ++ vs) = vs.foldl PublicBook.apply (publicBook us) := List.foldl_append ..

namespace BookView

/-- The ids of the orders added increase. -/
def AddsRise (us : List MarketUpdate) : Prop :=
  us.Pairwise fun a b => a.type = .add → b.type = .add → a.orderId < b.orderId

/-- The updates sent describe the view, each fits the book before it, and the ids added
increase and are among the first `n`. -/
structure Published (v : BookView) (n : Nat) : Prop where
  book : v.asPublic = publicBook (updates v.sent)
  admits : PublicBook.AdmitsAll .empty (updates v.sent)
  born : ∀ u ∈ updates v.sent, u.type = .add → Born n u.orderId
  rising : AddsRise (updates v.sent)

section Published
variable {v w : BookView} {n m : Nat} {u : MarketUpdate} {o : OrderView}

theorem create_published (i : InstrumentId) : (create i).Published 0 :=
  ⟨rfl, trivial, fun _ hu => absurd hu List.not_mem_nil, .nil⟩

/-- One more update, with the next id if it is an `ADD`. -/
theorem Published.advance (h : v.Published n) (hnm : n ≤ m)
    (hsent : updates w.sent = updates v.sent ++ [u]) (hu : v.asPublic.Admits u)
    (hid : u.type = .add → m = n + 1 ∧ m < 2 ^ 64 ∧ u.orderId = UInt64.ofNat m)
    (hbook : w.asPublic = v.asPublic.apply u) : w.Published m := by
  rw [h.book] at hu hbook
  refine ⟨?_, ?_, fun u' hu' htype => ?_, ?_⟩
  · rw [hbook, hsent, publicBook_append]
    rfl
  · rw [hsent]
    exact PublicBook.admitsAll_concat.mpr ⟨h.admits, hu⟩
  · rw [hsent] at hu'
    rcases List.mem_append.mp hu' with hu' | hu'
    · exact (h.born u' hu' htype).mono hnm
    · obtain rfl := List.mem_singleton.mp hu'
      obtain ⟨rfl, -, hid⟩ := hid htype
      exact hid ▸ born_last n
  · rw [hsent]
    refine List.pairwise_append.mpr ⟨h.rising, List.pairwise_singleton _ u, ?_⟩
    intro a ha b hb hadd htype
    obtain rfl := List.mem_singleton.mp hb
    obtain ⟨rfl, hlt, hid⟩ := hid htype
    have hle := (h.born a ha hadd).toNat_le (by omega)
    rw [UInt64.lt_iff_toNat_lt, hid, UInt64.toNat_ofNat', Nat.mod_eq_of_lt hlt]
    omega

/-- Responses are not published. -/
theorem Published.respond (h : v.Published n) (hbook : w.asPublic = v.asPublic)
    (hsent : updates w.sent = updates v.sent) : w.Published n :=
  ⟨by rw [hbook, hsent]; exact h.book, by rw [hsent]; exact h.admits, by
    rw [hsent]; exact h.born, by rw [hsent]; exact h.rising⟩

theorem Published.trade (h : v.Published n) {ms : List Message} (hms : updates ms = [u])
    (hu : u.type = .trade) : (v.send ms).Published n := by
  refine h.advance le_rfl (u := u) ?_ (PublicBook.admits_trade hu) (fun ht => ?_) ?_
  · rw [updates_send, hms]
  · exact absurd (hu.symm.trans ht) (by decide)
  · rw [PublicBook.apply_other (.inl hu)]
    rfl

/-- A `MODIFY` or `CANCEL` of a resting order fits. -/
theorem admits_change (ho : o ∈ v.orders) (htype : u.type = .modify ∨ u.type = .cancel)
    (hid : u.orderId = o.marketOrderId) (hside : u.side = o.side) (hprice : u.price = o.price) :
    v.asPublic.Admits u := by
  have hadd : u.type ≠ .add := by rcases htype with h | h <;> rw [h] <;> decide
  have hclear : u.type ≠ .clear := by rcases htype with h | h <;> rw [h] <;> decide
  refine ⟨by rcases htype with h | h <;> rw [h] <;> decide, fun h => absurd h hadd,
    fun h => absurd h hadd, fun h => absurd h hadd, fun _ => ⟨o.asMarket, ?_, hid.symm, hside.symm,
      hprice.symm⟩, fun h => absurd h hclear⟩
  rw [orders_asPublic]
  exact List.mem_map_of_mem ho

theorem Published.removeOrder (h : v.Published n) (hv : v.Valid) (hn : v.Numbered n)
    (ho : o ∈ v.orders) {ms : List Message} (hms : updates ms = [u]) (htype : u.type = .cancel)
    (hid : u.orderId = o.marketOrderId) (hside : u.side = o.side) (hprice : u.price = o.price) :
    ((v.removeOrder o).send ms).Published n := by
  refine h.advance le_rfl (u := u) ?_ (admits_change ho (.inr htype) hid hside hprice)
    (fun ht => absurd (htype.symm.trans ht) (by decide)) ?_
  · rw [updates_send, hms]
    rfl
  · rw [PublicBook.apply_cancel htype, hid]
    exact asPublic_removeOrder hv hn.ids ho

theorem Published.setQty (h : v.Published n) (hv : v.Valid) (hn : v.Numbered n)
    (ho : o ∈ v.orders) {ms : List Message} (hms : updates ms = [u]) (htype : u.type = .modify)
    (hid : u.orderId = o.marketOrderId) (hside : u.side = o.side) (hprice : u.price = o.price) :
    ((v.setQty o.handle u.qty).send ms).Published n := by
  refine h.advance le_rfl (u := u) ?_ (admits_change ho (.inl htype) hid hside hprice)
    (fun ht => absurd (htype.symm.trans ht) (by decide)) ?_
  · rw [updates_send, hms]
    rfl
  · rw [PublicBook.apply_modify htype, hid]
    exact asPublic_setQty hv hn.ids ho u.qty

/-- A new order under the next id fits where its slot holds no other price. -/
theorem admits_add (hv : v.Valid) (hn : v.Numbered n) (hlt : n + 1 < 2 ^ 64)
    (same : v.SamePrice u.side u.price) (hnamed : Named u.side) (htype : u.type = .add)
    (hid : u.orderId = UInt64.ofNat (n + 1)) : v.asPublic.Admits u := by
  refine ⟨by rw [htype]; decide, fun _ x hx heq => ?_, fun _ => hnamed, fun _ side l hl hslot => ?_,
    fun h => ?_, fun h => absurd (htype.symm.trans h) (by decide)⟩
  · rw [orders_asPublic] at hx
    obtain ⟨o, ho, rfl⟩ := List.mem_map.mp hx
    have hborn := hn.born o ho
    rw [← asMarket_id, heq, hid] at hborn
    exact not_born_next (by omega) hborn
  · rw [PublicBook.own_asPublic] at hl
    obtain ⟨m, hm, rfl⟩ := List.mem_map.mp hl
    obtain ⟨hmside, hmprice⟩ := same m (v.own_subset side hm) hslot
    refine ⟨hmprice, ?_⟩
    rw [← hmside]
    by_cases hs : side = .buy
    · exact iff_of_true hs (hv.bidSide m (by simpa [own, hs] using hm))
    · exact iff_of_false hs (hv.askSide m (by simpa [own, hs] using hm))
  · exact h.elim (fun h => absurd (htype.symm.trans h) (by decide))
      fun h => absurd (htype.symm.trans h) (by decide)

theorem Published.addOrder (h : v.Published n) (hv : v.Valid) (hn : v.Numbered n)
    (hlt : n + 1 < 2 ^ 64) (same : v.SamePrice o.side o.price) (hnamed : Named o.side)
    (hid : o.marketOrderId = UInt64.ofNat (n + 1)) (rest : List OrderPtr) {ms : List Message}
    (hms : updates ms = [⟨.add, o.marketOrderId, v.instrumentId, o.side, o.price, o.qty,
      o.priority⟩]) :
    (({ v.addOrder o with freeOrders := rest } : BookView).send ms).Published (n + 1) := by
  refine h.advance (Nat.le_succ n) ?_ (admits_add hv hn hlt same hnamed rfl hid)
    (fun _ => ⟨rfl, hlt, hid⟩) ?_
    (u := ⟨.add, o.marketOrderId, v.instrumentId, o.side, o.price, o.qty, o.priority⟩)
  · change updates ((v.place o).sent ++ ms) = _
    rw [updates_append, hms, (place_sent v o).1]
  · exact asPublic_place hv same

theorem tracks_published : Tracks (2 ^ 64 - 1) Published
    fun a v n _ => v.Published n ∧ Named a.side where
  accepted v n a quantity _ h _ hnamed _ _ :=
    ⟨h.respond rfl ((updates_append ..).trans (List.append_nil _)), hnamed⟩
  fill v n a leavesQty o hv _ hn h _ _ _ _ ho _ := by
    have htrade : (v.send (executionMessages v.instrumentId a leavesQty o.toOrderFields
        (min leavesQty o.qty))).Published n :=
      h.1.trade (u := ⟨.trade, invalidOrderId, v.instrumentId, a.side, o.price, min leavesQty o.qty,
        invalidPriority⟩) rfl rfl
    refine ⟨?_, h.2⟩
    by_cases hzero : o.qty - min leavesQty o.qty = 0
    · rw [fill_whole v a leavesQty o hzero]
      exact htrade.removeOrder (hv.send _) (hn.send _) ho (u := ⟨.cancel, o.marketOrderId,
        v.instrumentId, o.side, o.price, o.qty, o.priority⟩) rfl rfl rfl rfl rfl
    · rw [fill_part v a leavesQty o hzero]
      exact htrade.setQty (hv.send _) (hn.send _) ho (u := ⟨.modify, o.marketOrderId,
        v.instrumentId, o.side, o.price, o.qty - min leavesQty o.qty, o.priority⟩)
        rfl rfl rfl rfl rfl
  filled v n _ h := ⟨h.1.book, h.1.admits, fun u hu ht => (h.1.born u hu ht).mono (Nat.le_succ n),
    h.1.rising⟩
  book v n a leavesQty p rest hv hn h hlt hid _ hfree hprice := by
    rw [book_eq hfree]
    exact h.1.addOrder hv hn (by omega) (o := v.bookedOrder p a.clientId a.clientOrderId
      a.marketOrderId a.side a.price leavesQty) hprice h.2 hid rest rfl
  cancelOrder v n _ _ o hv hn h ho := h.removeOrder hv hn ho (u := ⟨.cancel, o.marketOrderId,
    v.instrumentId, o.side, o.price, 0, o.priority⟩) rfl rfl rfl rfl rfl
  reduce v n _ _ o newQuantity hv hn h ho _ := h.setQty hv hn ho (u := ⟨.modify, o.marketOrderId,
    v.instrumentId, o.side, o.price, newQuantity, o.priority⟩) rfl rfl rfl rfl rfl
  reject v n _ _ _ _ h := h.respond rfl ((updates_append ..).trans (List.append_nil _))

end Published

end BookView

/-! ## The rings -/

/-- What can be seen of a book in memory. -/
structure Heap where
  best : Side → Option LevelPtr
  level : LevelPtr → PriceLevel
  nextOrder : OrderPtr → Option OrderPtr
  prevOrder : OrderPtr → Option OrderPtr
  fields : OrderPtr → MarketOrderFields

def OrderBook.heap (s : OrderBook) : Heap where
  best := s.best
  level := s.level
  nextOrder := s.nextOrder
  prevOrder := s.prevOrder
  fields p := ⟨(s.order p).marketOrderId, (s.order p).side, (s.order p).price, (s.order p).qty,
    (s.order p).priority⟩

def MarketOrderBook.heap (m : MarketOrderBook) : Heap where
  best := m.best
  level := m.level
  nextOrder p := (m.order p).nextOrder
  prevOrder p := (m.order p).prevOrder
  fields p := (m.order p).toMarketOrderFields

namespace Heap

/-- The ring of a level, from its first order on. -/
structure ShowsLevel (h : Heap) (l : LevelPtr) (x : PublicLevel) : Prop where
  price : (h.level l).price = x.price
  orders : ∃ ps : List OrderPtr, (h.level l).firstOrder = ps.head? ∧
    IsRing h.nextOrder h.prevOrder ps ∧ ps.map h.fields = x.orders

/-- The levels from `bid_` and from `ask_` on are those of the public book. -/
def Shows (h : Heap) (b : PublicBook) : Prop :=
  ∀ side, ∃ ls : List LevelPtr, h.best side = ls.head? ∧
    IsRing (fun l => (h.level l).nextEntry) (fun l => (h.level l).prevEntry) ls ∧
    List.Forall₂ h.ShowsLevel ls (b.own side)

variable {h : Heap} {b c : PublicBook}

theorem ShowsLevel.unique {l : LevelPtr} {x y : PublicLevel} (hx : h.ShowsLevel l x)
    (hy : h.ShowsLevel l y) : x = y := by
  obtain ⟨price, orders⟩ := x
  obtain ⟨price', orders'⟩ := y
  obtain ⟨hprice, ps, hfirst, hring, horders⟩ := hx
  obtain ⟨hprice', ps', hfirst', hring', horders'⟩ := hy
  dsimp only at hprice hprice' horders horders'
  obtain rfl := hring.unique hring' (hfirst.symm.trans hfirst')
  rw [← hprice, ← hprice', ← horders, ← horders']

/-- One public book at most is shown. -/
theorem Shows.unique (hb : h.Shows b) (hc : h.Shows c) : b = c := by
  refine PublicBook.ext_own fun side => ?_
  obtain ⟨ls, hhead, hring, hlevels⟩ := hb side
  obtain ⟨ls', hhead', hring', hlevels'⟩ := hc side
  obtain rfl := hring.unique hring' (hhead.symm.trans hhead')
  have hunique : Relator.RightUnique h.ShowsLevel := fun _ _ _ => ShowsLevel.unique
  exact hunique.forall₂ hlevels hlevels'

end Heap

theorem Represents.shows {s : OrderBook} {v : BookView} (hr : Represents s v) :
    s.heap.Shows v.asPublic := by
  intro side
  refine ⟨(v.own side).map LevelView.handle, (hr.sides side).head, (hr.sides side).ring, ?_⟩
  rw [PublicBook.own_asPublic, List.forall₂_map_left_iff, List.forall₂_map_right_iff,
    List.forall₂_same]
  intro l hl
  have hlevel := hr.level l (v.own_subset side hl)
  refine ⟨hlevel.price, l.orders.map OrderView.handle, hlevel.firstOrder, hlevel.ring, ?_⟩
  rw [List.map_map]
  refine List.map_congr_left fun o ho => ?_
  have hfields := hlevel.fields o ho
  simp only [Function.comp_apply, OrderBook.heap, hfields]
  rfl

section Run
variable {fuel : Nat} {i : InstrumentId} {rs : List OrderBook.BookRequest} {s : OrderBook}

theorem keepsPrices_published (hfuel : maxNumOrders < fuel)
    (h : Reached (OrderBook.call fuel) (OrderBook.KeepsPrices fuel) (.create i) rs s)
    (hids : accepts s.sent < 2 ^ 64) :
    ∃ v, Represents s v ∧ v.Published (accepts s.sent) := by
  obtain ⟨hr, -, ht⟩ :=
    keepsPrices_tracked tracks_published (by decide) (create_published i) hfuel h
  rw [hr.sent] at hids ⊢
  exact ⟨_, hr, (ht.tracked (Nat.le_sub_one_of_lt hids)).2⟩

end Run

end StockExchange
