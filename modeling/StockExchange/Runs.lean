import StockExchange.Simulation
import StockExchange.Library.Transitions
import Mathlib.Data.Set.Card

/-!
# Runs of one order book

What a run may do is said of the heap: the ids of a request lie in the tables, and
whenever an order is booked the state of that moment meets a condition.
-/

namespace StockExchange

open Ring BookView Transitions

namespace OrderBook

namespace BookRequest

def clientId : BookRequest → ClientId
  | .add clientId _ _ _ _ => clientId
  | .cancel clientId _ => clientId
  | .modify clientId _ _ _ => clientId

def clientOrderId : BookRequest → OrderId
  | .add _ clientOrderId _ _ _ => clientOrderId
  | .cancel _ clientOrderId => clientOrderId
  | .modify _ clientOrderId _ _ => clientOrderId

/-- Client id and client order id within the tables. -/
def Bounded (r : BookRequest) : Prop := inTable r.clientId r.clientOrderId

/-- The lookup of a resting order does not run past the table. -/
def Findable : BookRequest → Prop
  | .add .. => True
  | .cancel clientId clientOrderId | .modify clientId clientOrderId _ _ =>
    clientId.toNat < maxNumClients → clientOrderId.toNat < maxNumOrders

theorem Bounded.findable {r : BookRequest} (h : r.Bounded) : r.Findable := by
  cases r with
  | add => trivial
  | cancel => exact fun _ => h.2
  | modify => exact fun _ => h.2

/-- The side of a new order is a named one. -/
def Sided : BookRequest → Prop
  | .add _ _ side _ _ => side = .buy ∨ side = .sell
  | _ => True

end BookRequest

/-- `P` holds at the moment `add` books an order. -/
def AddBooks (fuel : Nat) (P : OrderBook → Side → Price → Prop) (s : OrderBook)
    (clientId : ClientId) (clientOrderId : OrderId) (side : Side) (price : Price)
    (quantity : Quantity) : Prop :=
  OnReturn (s.accept fuel clientId clientOrderId side price quantity) fun r =>
    0 < r.2 → P r.1 side price

/-- `P` holds at the moment a call books an order, for a `modify` after its `cancel`. -/
def Books (fuel : Nat) (P : OrderBook → Side → Price → Prop) (s : OrderBook) :
    BookRequest → Prop
  | .add clientId clientOrderId side price quantity =>
    AddBooks fuel P s clientId clientOrderId side price quantity
  | .cancel _ _ => True
  | .modify clientId clientOrderId newPrice newQuantity =>
    OnReturn (s.findClientOrder clientId clientOrderId) fun found => ∀ p ∈ found,
      (s.order p).price ≠ newPrice ∨ (s.order p).qty < newQuantity →
        OnReturn (s.cancel clientId clientOrderId) fun s' =>
          AddBooks fuel P s' clientId clientOrderId (s.order p).side newPrice newQuantity

/-- The slot of `price` is empty or holds a level of `side`. -/
def SlotOfSide (s : OrderBook) (side : Side) (price : Price) : Prop :=
  ∀ l, s.priceLevels (priceToIndex price) = some l → (s.level l).side = side

/-- The slot of `price` is empty or holds a level of `side` at `price`. -/
def SlotOfPrice (s : OrderBook) (side : Side) (price : Price) : Prop :=
  ∀ l, s.priceLevels (priceToIndex price) = some l →
    (s.level l).side = side ∧ (s.level l).price = price

section Decidable
variable (fuel : Nat) (P : OrderBook → Side → Price → Prop) (s : OrderBook)
  [∀ s side price, Decidable (P s side price)]

instance (r : BookRequest) : Decidable r.Bounded := inferInstanceAs (Decidable (inTable _ _))

instance (r : BookRequest) : Decidable r.Findable :=
  match r with
  | .add .. => .isTrue trivial
  | .cancel _ _ | .modify _ _ _ _ => inferInstanceAs (Decidable (_ → _))

instance (r : BookRequest) : Decidable r.Sided :=
  match r with
  | .add _ _ side _ _ => inferInstanceAs (Decidable (side = .buy ∨ side = .sell))
  | .cancel _ _ => .isTrue trivial
  | .modify _ _ _ _ => .isTrue trivial

instance (clientId : ClientId) (clientOrderId : OrderId) (side : Side) (price : Price)
    (quantity : Quantity) :
    Decidable (AddBooks fuel P s clientId clientOrderId side price quantity) :=
  inferInstanceAs (Decidable (OnReturn _ _))

instance (r : BookRequest) : Decidable (Books fuel P s r) :=
  match r with
  | .add _ _ _ _ _ => inferInstanceAs (Decidable (AddBooks ..))
  | .cancel _ _ => .isTrue trivial
  | .modify _ _ _ _ => inferInstanceAs (Decidable (OnReturn _ _))

end Decidable

instance (s : OrderBook) (side : Side) (price : Price) : Decidable (s.SlotOfSide side price) :=
  inferInstanceAs (Decidable (∀ l ∈ s.priceLevels (priceToIndex price), (s.level l).side = side))

instance (s : OrderBook) (side : Side) (price : Price) : Decidable (s.SlotOfPrice side price) :=
  inferInstanceAs (Decidable (∀ l ∈ s.priceLevels (priceToIndex price),
    (s.level l).side = side ∧ (s.level l).price = price))

/-- `l` can be reached from `bid_` or `ask_`. -/
def LevelOf (s : OrderBook) (side : Side) (l : LevelPtr) : Prop :=
  ∃ best, s.best side = some best ∧ Reaches s.nextEntry best l

/-- `p` can be reached from `first_order_` of `l`. -/
def RestsAt (s : OrderBook) (l : LevelPtr) (p : OrderPtr) : Prop :=
  ∃ first, (s.level l).firstOrder = some first ∧ Reaches s.nextOrder first p

/-- The orders of `side` in the book. -/
def RestsOn (s : OrderBook) (side : Side) (p : OrderPtr) : Prop :=
  ∃ l, s.LevelOf side l ∧ s.RestsAt l p

/-- The orders that can be reached from `bid_` and `ask_`. -/
def resting (s : OrderBook) : Set OrderPtr := {p | s.RestsOn .buy p ∨ s.RestsOn .sell p}

/-- A block is left in `order_pool_`. -/
def HasRoom (s : OrderBook) : Prop := s.orderPool.freeBlockCount ≠ 0

instance (s : OrderBook) : Decidable s.HasRoom := inferInstanceAs (Decidable (_ ≠ _))

end OrderBook

namespace BookView

/-- `Q` holds of the view at the moment a call books an order. -/
def Books (Q : BookView → Side → Price → Prop) (v : BookView) : OrderBook.BookRequest → Prop
  | .add clientId clientOrderId side price quantity =>
    0 < (v.accept clientId clientOrderId side price quantity).2 →
      Q (v.accept clientId clientOrderId side price quantity).1 side price
  | .cancel _ _ => True
  | .modify clientId clientOrderId newPrice newQuantity =>
    ∀ o, v.findOrder clientId clientOrderId = some o →
      o.price ≠ newPrice ∨ o.qty < newQuantity →
      0 < ((v.cancelOrder clientId clientOrderId o).accept clientId clientOrderId o.side newPrice
        newQuantity).2 →
      Q ((v.cancelOrder clientId clientOrderId o).accept clientId clientOrderId o.side newPrice
        newQuantity).1 o.side newPrice

end BookView

section Reading
variable {s : OrderBook} {v : BookView}

theorem levelOf_iff (hr : Represents s v) {side : Side} {l : LevelPtr} :
    s.LevelOf side l ↔ ∃ m ∈ v.own side, m.handle = l := by
  obtain ⟨hhead, hring⟩ := hr.sides side
  rw [OrderBook.LevelOf, hhead]
  rcases hown : v.own side with _ | ⟨m, ms⟩
  · simp
  · rw [hown] at hring
    simp only [List.map_cons, List.head?_cons, Option.some.injEq, exists_eq_left']
    rw [hring.reaches_iff, ← List.map_cons, List.mem_map]

theorem restsAt_iff (hr : Represents s v) (hv : v.Valid) {m : LevelView} (hm : m ∈ v.levels)
    {p : OrderPtr} : s.RestsAt m.handle p ↔ ∃ o ∈ m.orders, o.handle = p := by
  obtain ⟨_, _, hfirst, hring, _⟩ := hr.level m hm
  rw [OrderBook.RestsAt, hfirst]
  rcases horders : m.orders with _ | ⟨o, os⟩
  · exact absurd horders (hv.nonempty m hm)
  · rw [horders] at hring
    simp only [List.map_cons, List.head?_cons, Option.some.injEq, exists_eq_left']
    rw [hring.reaches_iff, ← List.map_cons, List.mem_map]

theorem restsOn_iff (hr : Represents s v) (hv : v.Valid) {side : Side} {p : OrderPtr} :
    s.RestsOn side p ↔ ∃ m ∈ v.own side, ∃ o ∈ m.orders, o.handle = p := by
  constructor
  · rintro ⟨l, hl, hp⟩
    obtain ⟨m, hm, rfl⟩ := (levelOf_iff hr).mp hl
    exact ⟨m, hm, (restsAt_iff hr hv (v.own_subset side hm)).mp hp⟩
  · rintro ⟨m, hm, hp⟩
    exact ⟨m.handle, (levelOf_iff hr).mpr ⟨m, hm, rfl⟩,
      (restsAt_iff hr hv (v.own_subset side hm)).mpr hp⟩

theorem mem_resting_iff (hr : Represents s v) (hv : v.Valid) {p : OrderPtr} :
    p ∈ s.resting ↔ p ∈ v.orders.map (·.handle) := by
  simp only [OrderBook.resting, Set.mem_ofPred_eq, restsOn_iff hr hv, List.mem_map, v.mem_orders]
  constructor
  · rintro (⟨m, hm, o, ho, rfl⟩ | ⟨m, hm, o, ho, rfl⟩)
    · exact ⟨o, ⟨m, v.own_subset .buy hm, ho⟩, rfl⟩
    · exact ⟨o, ⟨m, v.own_subset .sell hm, ho⟩, rfl⟩
  · rintro ⟨o, ⟨m, hm, ho⟩, rfl⟩
    exact (v.mem_own_or hm).imp (fun h => ⟨m, h, o, ho, rfl⟩) fun h => ⟨m, h, o, ho, rfl⟩

theorem ncard_resting (hr : Represents s v) (hv : v.Valid) :
    s.resting.ncard = v.orders.length := by
  have hset : s.resting = ((v.orders.map (·.handle)).toFinset : Set OrderPtr) := by
    ext p
    rw [mem_resting_iff hr hv, List.coe_toFinset, Set.mem_ofPred_eq]
  rw [hset, Set.ncard_coe_finset, List.toFinset_card_of_nodup hv.orders_nodup, List.length_map]

end Reading

/-! ## Calls that return -/

section Returns
variable {s s' : OrderBook} {fuel : Nat}

theorem orderPool_addAfter {c new : LevelPtr} (h : s.addAfter c new = .ok s') :
    s'.orderPool = s.orderPool := by
  obtain ⟨next, _, h⟩ := bind_eq_ok.mp h
  cases h
  rfl

theorem orderPool_addBefore {c new : LevelPtr} (h : s.addBefore c new = .ok s') :
    s'.orderPool = s.orderPool := by
  obtain ⟨prev, _, h⟩ := bind_eq_ok.mp h
  cases h
  rfl

/-- A level is linked without touching an order. -/
theorem orderPool_addPriceLevel {new : LevelPtr} (h : s.addPriceLevel fuel new = .ok s') :
    s'.orderPool = s.orderPool := by
  simp only [OrderBook.addPriceLevel] at h
  split at h
  · cases h
    rfl
  · split at h
    · obtain ⟨t, ht, h⟩ := bind_eq_ok.mp h
      have hpool := orderPool_addBefore ht
      cases h
      exact hpool
    · obtain ⟨first, _, h⟩ := bind_eq_ok.mp h
      obtain ⟨⟨current, flag⟩, _, h⟩ := bind_eq_ok.mp h
      dsimp only at h
      split at h
      · exact (orderPool_addAfter h :)
      · exact (orderPool_addBefore h :)

theorem inTable_of_setClientOrder {clientId : ClientId} {clientOrderId : OrderId}
    {p : Option OrderPtr} (h : s.setClientOrder clientId clientOrderId p = .ok s') :
    OrderBook.inTable clientId clientOrderId := by
  by_contra htable
  rw [OrderBook.setClientOrder, if_neg htable] at h
  cases h

/-- An order that is filed has ids within the table. -/
theorem inTable_of_addOrder {p : OrderPtr} (h : s.addOrder fuel p = .ok s') :
    OrderBook.inTable (s.order p).clientId (s.order p).clientOrderId := by
  simp only [OrderBook.addOrder] at h
  split at h
  · obtain ⟨⟨pool, new⟩, _, h⟩ := bind_eq_ok.mp h
    obtain ⟨t, ht, h⟩ := bind_eq_ok.mp h
    have htable := inTable_of_setClientOrder h
    have hfields : (t.order p).toOrderFields = (s.order p).toOrderFields := by
      rw [OrderBook.order, orderPool_addPriceLevel ht]
      exact (looped_order s p p).1
    rwa [hfields] at htable
  · obtain ⟨first, _, h⟩ := bind_eq_ok.mp h
    obtain ⟨last, _, h⟩ := bind_eq_ok.mp h
    obtain ⟨first', _, h⟩ := bind_eq_ok.mp h
    simpa using inTable_of_setClientOrder h

theorem inTable_of_book {clientId : ClientId} {clientOrderId id : OrderId} {side : Side}
    {price : Price} {leavesQty : Quantity}
    (h : s.book fuel clientId clientOrderId id side price leavesQty = .ok s') :
    OrderBook.inTable clientId clientOrderId := by
  rw [OrderBook.book] at h
  obtain ⟨priority, _, h⟩ := bind_eq_ok.mp h
  obtain ⟨⟨pool, p⟩, halloc, h⟩ := bind_eq_ok.mp h
  obtain ⟨t, ht, _⟩ := bind_eq_ok.mp h
  have htable := inTable_of_addOrder ht
  rw [MemoryPool.alloc] at halloc
  dsimp only at halloc
  split at halloc
  · cases halloc
    simpa [OrderBook.order, MemoryPool.read] using htable
  · cases halloc

theorem findable_of_returns {r : OrderBook.BookRequest} (h : s.call fuel r = .ok s') :
    r.Findable := by
  cases r with
  | add => trivial
  | cancel clientId clientOrderId =>
    intro hc
    by_contra hi
    simp only [OrderBook.call, OrderBook.cancel, OrderBook.findClientOrder, if_pos hc, if_neg hi,
      error_bind] at h
    cases h
  | modify clientId clientOrderId price quantity =>
    intro hc
    by_contra hi
    simp only [OrderBook.call, OrderBook.modify, OrderBook.findClientOrder, if_pos hc, if_neg hi,
      error_bind] at h
    cases h

end Returns

section Conditions
variable {s : OrderBook} {v : BookView} {fuel : Nat}

/-- What holds of the level in the slot of a price. -/
theorem slot_iff (hr : Represents s v) (hv : v.Valid) (R : Side → Price → Prop) (price : Price) :
    (∀ p, s.priceLevels (priceToIndex price) = some p → R (s.level p).side (s.level p).price) ↔
      ∀ l ∈ v.levels, l.slot = priceToIndex price → R l.side l.price := by
  have hslots := (slots_iff hv).mp hr.slots
  constructor
  · intro h l hl hslot
    rw [← (hr.level l hl).side, ← (hr.level l hl).price]
    exact h l.handle ((hslots _ _).mpr ⟨l, hl, hslot, rfl⟩)
  · intro h p hp
    obtain ⟨l, hl, hslot, rfl⟩ := (hslots _ _).mp hp
    rw [(hr.level l hl).side, (hr.level l hl).price]
    exact h l hl hslot

theorem slotOfSide_iff (hr : Represents s v) (hv : v.Valid) (side : Side) (price : Price) :
    s.SlotOfSide side price ↔ v.SameSide side price :=
  slot_iff hr hv (fun side' _ => side' = side) price

theorem hasRoom_iff (hr : Represents s v) : s.HasRoom ↔ v.freeOrders ≠ [] := by
  rw [OrderBook.HasRoom, hr.orderPool.count, ← List.length_pos_iff, Nat.pos_iff_ne_zero]

variable {P : OrderBook → Side → Price → Prop} {Q : BookView → Side → Price → Prop}

/-- A condition on the heap at each booking is one on the view. -/
theorem books_view (hr : Represents s v) (hv : v.Valid) (hfuel : maxNumOrders < fuel)
    (hPQ : ∀ s v side price, Represents s v → v.Valid → P s side price → Q v side price)
    {r : OrderBook.BookRequest} (hb : r.Findable) (h : s.Books fuel P r) : v.Books Q r := by
  have add : ∀ {s v}, Represents s v → v.Valid → ∀ clientId clientOrderId side price quantity,
      s.AddBooks fuel P clientId clientOrderId side price quantity →
      0 < (v.accept clientId clientOrderId side price quantity).2 →
      Q (v.accept clientId clientOrderId side price quantity).1 side price := by
    intro s v hr hv clientId clientOrderId side price quantity hP hpos
    obtain ⟨s', hs', hr', hv'⟩ :=
      accept_spec clientId clientOrderId side price quantity hr hv hfuel
    exact hPQ s' _ side price hr' hv' (hP (s', _) hs' hpos)
  cases r with
  | add clientId clientOrderId side price quantity => exact add hr hv _ _ _ _ _ h
  | cancel clientId clientOrderId => trivial
  | modify clientId clientOrderId price quantity =>
    intro o hfind hqueue
    obtain ⟨hheap, hfields, s', hs', hr', hv', -⟩ :=
      found_spec clientId clientOrderId hr hv hb hfind
    have hP := h _ hheap o.handle rfl (by rwa [hfields]) s' hs'
    rw [hfields] at hP
    exact add hr' hv' _ _ _ _ _ hP

/-- A condition on the view at each booking is one on the heap. -/
theorem books_heap (hr : Represents s v) (hv : v.Valid) (hfuel : maxNumOrders < fuel)
    (hQP : ∀ s v side price, Represents s v → v.Valid → Q v side price → P s side price)
    {r : OrderBook.BookRequest} (hb : r.Findable) (h : v.Books Q r) : s.Books fuel P r := by
  have add : ∀ {s v}, Represents s v → v.Valid → ∀ clientId clientOrderId side price quantity,
      (0 < (v.accept clientId clientOrderId side price quantity).2 →
        Q (v.accept clientId clientOrderId side price quantity).1 side price) →
      s.AddBooks fuel P clientId clientOrderId side price quantity := by
    intro s v hr hv clientId clientOrderId side price quantity hQ a ha hpos
    obtain ⟨s', hs', hr', hv'⟩ :=
      accept_spec clientId clientOrderId side price quantity hr hv hfuel
    cases ha.symm.trans hs'
    exact hQP s' _ side price hr' hv' (hQ hpos)
  cases r with
  | add clientId clientOrderId side price quantity => exact add hr hv _ _ _ _ _ h
  | cancel clientId clientOrderId => trivial
  | modify clientId clientOrderId price quantity =>
    have hid : clientId.toNat < maxNumClients → clientOrderId.toNat < maxNumOrders := hb
    intro found hfound p hp hqueue s₁ hs₁
    rw [findClientOrder_spec clientId clientOrderId hr hv hid] at hfound
    rcases hfind : v.findOrder clientId clientOrderId with _ | o
    · rw [hfind] at hfound
      cases hfound
      cases hp
    · rw [hfind] at hfound
      cases hfound
      obtain rfl : o.handle = p := Option.some.inj hp
      obtain ⟨-, hfields, s', hs', hr', hv', -⟩ :=
        found_spec clientId clientOrderId hr hv hid hfind
      cases hs₁.symm.trans hs'
      rw [hfields] at hqueue ⊢
      exact add hr' hv' _ _ _ _ _ (h o hfind hqueue)

theorem books_iff (hr : Represents s v) (hv : v.Valid) (hfuel : maxNumOrders < fuel)
    (hPQ : ∀ s v side price, Represents s v → v.Valid → (P s side price ↔ Q v side price))
    {r : OrderBook.BookRequest} (hb : r.Findable) : s.Books fuel P r ↔ v.Books Q r :=
  ⟨books_view hr hv hfuel (fun s v side price hr hv => (hPQ s v side price hr hv).mp) hb,
    books_heap hr hv hfuel (fun s v side price hr hv => (hPQ s v side price hr hv).mpr) hb⟩

theorem books_sameSide (hr : Represents s v) (hv : v.Valid) (hfuel : maxNumOrders < fuel)
    {r : OrderBook.BookRequest} (hb : r.Findable) (h : s.Books fuel OrderBook.SlotOfSide r) :
    v.Books SameSide r :=
  books_view hr hv hfuel (fun _ _ side price hr hv => (slotOfSide_iff hr hv side price).mp) hb h

theorem books_and {Q' : BookView → Side → Price → Prop} {r : OrderBook.BookRequest}
    (h : v.Books Q r) (h' : v.Books Q' r) :
    v.Books (fun w side price => Q w side price ∧ Q' w side price) r := by
  cases r with
  | add => exact fun hpos => ⟨h hpos, h' hpos⟩
  | cancel => trivial
  | modify => exact fun o ho hq hpos => ⟨h o ho hq hpos, h' o ho hq hpos⟩

theorem admissible_of_books {r : OrderBook.BookRequest} (hb : r.Bounded)
    (h : v.Books (fun w side price => w.freeOrders ≠ [] ∧ w.SameSide side price) r) :
    Admissible v r := by
  cases r with
  | add => exact fun hpos => ⟨hb, h hpos⟩
  | cancel => exact fun _ => hb.2
  | modify => exact ⟨fun _ => hb.2, fun o ho hq hpos => ⟨hb, h o ho hq hpos⟩⟩

/-- An `add` that returns has found a block and an entry for the order it booked. -/
theorem bookable_of_returns (hr : Represents s v) (hv : v.Valid) (hfuel : maxNumOrders < fuel)
    {clientId : ClientId} {clientOrderId : OrderId} {side : Side} {price : Price}
    {quantity : Quantity}
    (same : 0 < (v.accept clientId clientOrderId side price quantity).2 →
      SameSide (v.accept clientId clientOrderId side price quantity).1 side price)
    {s' : OrderBook} (h : s.add fuel clientId clientOrderId side price quantity = .ok s') :
    Bookable clientId clientOrderId side price
      (v.accept clientId clientOrderId side price quantity) := by
  intro hpos
  obtain ⟨s₁, hs₁, hr₁, hv₁⟩ :=
    accept_spec clientId clientOrderId side price quantity hr hv hfuel
  simp only [OrderBook.add, hs₁, ok_bind, if_pos hpos] at h
  refine ⟨inTable_of_book h, fun hempty => ?_, same hpos⟩
  rw [book_exhausted hr₁ hv₁ hempty] at h
  cases h

/-- What a call that returns and books into slots free of the other side has met. -/
theorem admissible_of_returns (hr : Represents s v) (hv : v.Valid) (hfuel : maxNumOrders < fuel)
    {r : OrderBook.BookRequest} (hsame : v.Books SameSide r) {s' : OrderBook}
    (h : s.call fuel r = .ok s') : Admissible v r := by
  have hfind := findable_of_returns h
  cases r with
  | add => exact bookable_of_returns hr hv hfuel hsame h
  | cancel => exact hfind
  | modify clientId clientOrderId price quantity =>
    refine ⟨hfind, fun o ho hqueue => ?_⟩
    obtain ⟨hheap, hfields, s₁, hs₁, hr₁, hv₁, hkeep⟩ :=
      found_spec clientId clientOrderId hr hv hfind ho
    simp only [OrderBook.call, OrderBook.modify, hheap, ok_bind, hfields, if_pos hqueue, hs₁,
      hkeep] at h
    exact bookable_of_returns hr₁ hv₁ hfuel (hsame o ho hqueue) h

/-- A call that returns, booking only into slots free of the other side. -/
theorem call_returned (hr : Represents s v) (hv : v.Valid) (hfuel : maxNumOrders < fuel)
    {r : OrderBook.BookRequest} (hsame : v.Books SameSide r) {s' : OrderBook}
    (h : s.call fuel r = .ok s') :
    Admissible v r ∧ Represents s' (v.call r) ∧ (v.call r).Valid := by
  have ha := admissible_of_returns hr hv hfuel hsame h
  obtain ⟨s₁, hs₁, hr₁, hv₁⟩ := call_spec hr hv hfuel ha
  cases Except.ok.inj (h.symm.trans hs₁)
  exact ⟨ha, hr₁, hv₁⟩

end Conditions

section Simulation
variable {fuel : Nat} {i : InstrumentId}

/-- The heap, its view and what else a run keeps. -/
def Simulates (Inv : BookView → Prop) (s : OrderBook) (v : BookView) : Prop :=
  Represents s v ∧ v.Valid ∧ Inv v

/-- Along a run the heap represents the view of the same calls, if every admitted call
books into slots free of the other side and keeps `Inv`. -/
theorem reached_simulates {admits : OrderBook → OrderBook.BookRequest → Prop}
    {Inv : BookView → Prop} (hfuel : maxNumOrders < fuel) (initial : Inv (.create i))
    (admitted : ∀ s v r, Represents s v → v.Valid → Inv v → admits s r → r.Findable →
      v.Books SameSide r ∧ (Admissible v r → Inv (v.call r)))
    {rs : List OrderBook.BookRequest} {s : OrderBook}
    (h : Reached (OrderBook.call fuel) admits (.create i) rs s) :
    Simulates Inv s (rs.foldl BookView.call (.create i)) := by
  refine h.simulation ⟨create_represents i, create_valid i, initial⟩ ?_
  rintro s v r s' ⟨hr, hv, hinv⟩ ha hcall
  obtain ⟨hsame, hkeep⟩ := admitted s v r hr hv hinv ha (findable_of_returns hcall)
  obtain ⟨hadm, hr', hv'⟩ := call_returned hr hv hfuel hsame hcall
  exact ⟨hr', hv', hkeep hadm⟩

end Simulation

end StockExchange
