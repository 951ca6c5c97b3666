import StockExchange.BookView
import Mathlib.Data.List.Nodup
import Mathlib.Data.List.Range

/-!
# Well-formed views

`Valid` is what every run keeps as long as no order is booked into a slot held by
a level of another side: one level for each slot, no empty level, every order filed
on its own side and slot, and every block either free or in use exactly once.
-/

namespace StockExchange

namespace BookView

structure Valid (v : BookView) : Prop where
  slots : (v.levels.map LevelView.slot).Nodup
  nonempty : ∀ l ∈ v.levels, l.orders ≠ []
  bidSide : ∀ l ∈ v.bids, l.side = .buy
  askSide : ∀ l ∈ v.asks, l.side ≠ .buy
  filed : ∀ l ∈ v.levels, ∀ o ∈ l.orders, o.side = l.side ∧ priceToIndex o.price = l.slot
  inTable : ∀ o ∈ v.orders, OrderBook.inTable o.clientId o.clientOrderId
  clientOrders : ∀ c i h, v.clientOrders c i = some h →
    ∃ o ∈ v.orders, o.handle = h ∧ o.clientId.toNat = c ∧ o.clientOrderId.toNat = i
  orderHandles : (v.freeOrders ++ v.orders.map (·.handle)).Perm (List.range maxNumOrders)
  levelHandles : (v.freeLevels ++ v.levels.map (·.handle)).Perm (List.range maxPriceLevels)

/-- No level of another side holds the slot of `price`. -/
def SameSide (v : BookView) (side : Side) (price : Price) : Prop :=
  ∀ l ∈ v.levels, l.slot = priceToIndex price → l.side = side

theorem create_valid (i : InstrumentId) : (create i).Valid := by
  constructor <;> simp [create, levels, orders]

section Projections
variable (v : BookView) (side : Side) (ms : List Message)

@[simp] theorem levels_send : (v.send ms).levels = v.levels := rfl
@[simp] theorem orders_send : (v.send ms).orders = v.orders := rfl

theorem mem_own_or {l : LevelView} (hl : l ∈ v.levels) :
    l ∈ v.own .buy ∨ l ∈ v.own .sell := by
  rcases List.mem_append.mp hl with h | h
  · exact Or.inl h
  · exact Or.inr h

theorem own_subset {l : LevelView} (hl : l ∈ v.own side) : l ∈ v.levels := by
  by_cases hs : side = .buy
  · exact List.mem_append_left _ (by simpa [own, hs] using hl)
  · exact List.mem_append_right _ (by simpa [own, hs] using hl)

theorem mem_orders {o : OrderView} : o ∈ v.orders ↔ ∃ l ∈ v.levels, o ∈ l.orders := by
  simp [orders]

end Projections

/-- A search finds the only element it accepts. -/
theorem find?_eq_of_unique {α : Type} {p : α → Bool} {x : α} {xs : List α} (hx : x ∈ xs)
    (hp : p x) (unique : ∀ y ∈ xs, p y → y = x) : xs.find? p = some x := by
  obtain ⟨y, hy⟩ := Option.isSome_iff_exists.mp (List.find?_isSome.mpr ⟨x, hx, hp⟩)
  rw [hy, unique y (List.mem_of_find?_eq_some hy) (List.find?_some hy)]

namespace Valid
variable {v : BookView}

theorem orders_nodup (h : v.Valid) : (v.orders.map (·.handle)).Nodup :=
  (List.nodup_append.mp (h.orderHandles.nodup_iff.mpr List.nodup_range)).2.1

theorem levels_nodup (h : v.Valid) : (v.levels.map (·.handle)).Nodup :=
  (List.nodup_append.mp (h.levelHandles.nodup_iff.mpr List.nodup_range)).2.1

theorem own_side (h : v.Valid) {l : LevelView} (hl : l ∈ v.levels) : l ∈ v.own l.side := by
  rcases List.mem_append.mp hl with hb | ha
  · simpa [own, h.bidSide l hb] using hb
  · simpa [own, h.askSide l ha] using ha

theorem order_eq (h : v.Valid) {o o' : OrderView} (ho : o ∈ v.orders) (ho' : o' ∈ v.orders)
    (same : o.handle = o'.handle) : o = o' :=
  List.inj_on_of_nodup_map h.orders_nodup ho ho' same

theorem find_handle (h : v.Valid) {o : OrderView} (ho : o ∈ v.orders) :
    v.orders.find? (fun o' => o'.handle = o.handle) = some o :=
  find?_eq_of_unique ho (decide_eq_true rfl) fun _ ho' hsame =>
    h.order_eq ho' ho (of_decide_eq_true hsame)

theorem level_eq (h : v.Valid) {l l' : LevelView} (hl : l ∈ v.levels) (hl' : l' ∈ v.levels)
    (same : l.handle = l'.handle) : l = l' :=
  List.inj_on_of_nodup_map h.levels_nodup hl hl' same

theorem level_eq_of_slot (h : v.Valid) {l l' : LevelView} (hl : l ∈ v.levels)
    (hl' : l' ∈ v.levels) (same : l.slot = l'.slot) : l = l' :=
  List.inj_on_of_nodup_map h.slots hl hl' same

theorem level_eq_of_order (h : v.Valid) {l l' : LevelView} {o o' : OrderView}
    (hl : l ∈ v.levels) (hl' : l' ∈ v.levels) (ho : o ∈ l.orders) (ho' : o' ∈ l'.orders)
    (same : o.handle = o'.handle) : l = l' := by
  have heq := h.order_eq (v.mem_orders.mpr ⟨l, hl, ho⟩) (v.mem_orders.mpr ⟨l', hl', ho'⟩) same
  subst heq
  exact h.level_eq_of_slot hl hl' ((h.filed l hl o ho).2.symm.trans (h.filed l' hl' o ho').2)

/-- The level in a slot is the one a lookup finds. -/
theorem slotLevel_eq (h : v.Valid) {l : LevelView} (hl : l ∈ v.levels) :
    v.slotLevel l.slot = some l :=
  find?_eq_of_unique hl (decide_eq_true rfl) fun _ hm hslot =>
    h.level_eq_of_slot hm hl (of_decide_eq_true hslot)

theorem slotLevel_none {i : Nat} (none : ∀ l ∈ v.levels, l.slot ≠ i) :
    v.slotLevel i = Option.none := by
  simpa [slotLevel] using none

theorem slotLevel_some {i : Nat} {l : LevelView} (hl : v.slotLevel i = some l) :
    l ∈ v.levels ∧ l.slot = i :=
  ⟨List.mem_of_find?_eq_some hl, by simpa using List.find?_some hl⟩

theorem getPriceLevel_eq (h : v.Valid) {l : LevelView} (hl : l ∈ v.levels) {o : OrderView}
    (ho : o ∈ l.orders) : v.getPriceLevel o.side o.price = some l := by
  obtain ⟨hside, hslot⟩ := h.filed l hl o ho
  rw [getPriceLevel, hslot, h.slotLevel_eq hl]
  simp [hside]

end Valid

theorem Valid.send {v : BookView} (h : v.Valid) (ms : List Message) : (v.send ms).Valid :=
  ⟨h.slots, h.nonempty, h.bidSide, h.askSide, h.filed, h.inTable, h.clientOrders, h.orderHandles,
    h.levelHandles⟩

/-! ## The lists of an operation -/

section Lists
variable {α : Type} (before : α → Bool) (x : α)

theorem insertRest_perm : ∀ ls : List α, (insertRest before x ls).Perm (x :: ls)
  | [] => by simp [insertRest]
  | [l] => by
    by_cases h : before l
    · simp [insertRest, h]
    · simpa [insertRest, h] using List.Perm.swap x l []
  | [l, last] => by
    by_cases h : before l
    · simp [insertRest, h]
    · rw [insertRest, if_neg h]
      exact @List.perm_append_comm _ [l, last] [x]
  | l :: m :: n :: rest => by
    by_cases h : before l
    · simp [insertRest, h]
    · rw [insertRest, if_neg h]
      exact ((insertRest_perm (m :: n :: rest)).cons l).trans (.swap x l _)

theorem insertLevel_perm (ls : List α) : (insertLevel before x ls).Perm (x :: ls) := by
  rcases ls with _ | ⟨best, rest⟩
  · simp [insertLevel]
  · by_cases h : before best
    · simp [insertLevel, h]
    · rw [insertLevel, if_neg h]
      exact ((insertRest_perm before x rest).cons best).trans (.swap x best rest)

end Lists

section Drop
variable {ls ms : List LevelView} {h : OrderPtr}

theorem dropOrder_append : dropOrder h (ls ++ ms) = dropOrder h ls ++ dropOrder h ms := by
  simp [dropOrder]

theorem dropOrder_cons (l : LevelView) : dropOrder h (l :: ls) =
    (if (l.drop h).orders = [] then [] else [l.drop h]) ++ dropOrder h ls := by
  by_cases hl : (l.drop h).orders = [] <;> simp [dropOrder, hl]

theorem orders_dropOrder : (dropOrder h ls).flatMap (·.orders) =
    (ls.flatMap (·.orders)).filter fun o => o.handle ≠ h := by
  induction ls with
  | nil => rfl
  | cons l ls ih =>
    rw [dropOrder_cons, List.flatMap_append, ih, List.flatMap_cons, List.filter_append]
    congr 1
    by_cases hl : (l.drop h).orders = []
    · rw [if_pos hl]
      exact hl.symm
    · rw [if_neg hl]
      exact List.flatMap_singleton ..

theorem drop_eq_self {l : LevelView} (absent : ∀ o ∈ l.orders, o.handle ≠ h) : l.drop h = l := by
  have hsame : l.orders.filter (fun o => o.handle ≠ h) = l.orders :=
    List.filter_eq_self.mpr fun o ho => by simpa using absent o ho
  rw [LevelView.drop, hsame]

/-- Levels without the order stay as they are. -/
theorem dropOrder_of_not_mem (absent : ∀ l ∈ ls, ∀ o ∈ l.orders, o.handle ≠ h)
    (nonempty : ∀ l ∈ ls, l.orders ≠ []) : dropOrder h ls = ls := by
  rw [dropOrder, List.map_congr_left fun l hl => drop_eq_self (absent l hl), List.map_id',
    List.filter_eq_self]
  intro l hl
  simpa using nonempty l hl

end Drop

/-! ## What each operation keeps -/

section SetQty
variable (v : BookView) (h : OrderPtr) (qty : Quantity)

def withQty (o : OrderView) : OrderView := if o.handle = h then { o with qty := qty } else o

@[simp] theorem withQty_handle (o : OrderView) : (withQty h qty o).handle = o.handle := by
  unfold withQty
  split <;> rfl

theorem withQty_key (o : OrderView) : (withQty h qty o).side = o.side ∧
    (withQty h qty o).price = o.price ∧ (withQty h qty o).clientId = o.clientId ∧
    (withQty h qty o).clientOrderId = o.clientOrderId := by
  unfold withQty
  split <;> exact ⟨rfl, rfl, rfl, rfl⟩

@[simp] theorem levels_setQty : (v.setQty h qty).levels = v.levels.map (.setQty h qty) := by
  simp [setQty, mapLevels, levels]

theorem orders_setQty : (v.setQty h qty).orders = v.orders.map (withQty h qty) := by
  simp only [orders, levels_setQty, List.flatMap_map, List.map_flatMap]
  rfl

theorem own_setQty (side : Side) :
    (v.setQty h qty).own side = (v.own side).map (.setQty h qty) := by
  by_cases hs : side = .buy <;> simp [own, setQty, mapLevels, hs]

theorem Valid.setQty {v : BookView} (hv : v.Valid) : (v.setQty h qty).Valid := by
  have handles : (v.setQty h qty).orders.map (·.handle) = v.orders.map (·.handle) := by
    simp [orders_setQty, Function.comp_def]
  have levelHandles : (v.setQty h qty).levels.map (·.handle) = v.levels.map (·.handle) := by
    simp [LevelView.setQty, Function.comp_def]
  constructor
  · rw [levels_setQty, List.map_map]
    exact hv.slots
  · intro l hl
    obtain ⟨m, hm, rfl⟩ := List.mem_map.mp (levels_setQty v h qty ▸ hl)
    simpa [LevelView.setQty] using hv.nonempty m hm
  · intro l hl
    obtain ⟨m, hm, rfl⟩ := List.mem_map.mp (show l ∈ v.bids.map (.setQty h qty) from hl)
    exact hv.bidSide m hm
  · intro l hl
    obtain ⟨m, hm, rfl⟩ := List.mem_map.mp (show l ∈ v.asks.map (.setQty h qty) from hl)
    exact hv.askSide m hm
  · intro l hl o ho
    obtain ⟨m, hm, rfl⟩ := List.mem_map.mp (levels_setQty v h qty ▸ hl)
    obtain ⟨o', ho', rfl⟩ := List.mem_map.mp (show o ∈ m.orders.map (withQty h qty) from ho)
    obtain ⟨hside, hprice, _⟩ := withQty_key h qty o'
    rw [hside, hprice]
    exact hv.filed m hm o' ho'
  · intro o ho
    obtain ⟨o', ho', rfl⟩ := List.mem_map.mp (orders_setQty v h qty ▸ ho)
    obtain ⟨_, _, hc, hi⟩ := withQty_key h qty o'
    rw [hc, hi]
    exact hv.inTable o' ho'
  · intro c i p hp
    obtain ⟨o, ho, hh, hc, hi⟩ := hv.clientOrders c i p hp
    obtain ⟨_, _, hc', hi'⟩ := withQty_key h qty o
    refine ⟨withQty h qty o, ?_, by simpa using hh, by rwa [hc'], by rwa [hi']⟩
    rw [orders_setQty]
    exact List.mem_map_of_mem ho
  · rw [handles]
    exact hv.orderHandles
  · rw [levelHandles]
    exact hv.levelHandles

end SetQty

section RemoveOrder
variable {v : BookView} {o : OrderView}

theorem levels_removeOrder (v : BookView) (o : OrderView) :
    (v.removeOrder o).levels = dropOrder o.handle v.levels :=
  dropOrder_append.symm

theorem own_removeOrder (v : BookView) (o : OrderView) (side : Side) :
    (v.removeOrder o).own side = dropOrder o.handle (v.own side) := by
  by_cases hs : side = .buy <;> simp [own, removeOrder, setClientOrder, mapLevels, hs]

theorem orders_removeOrder (v : BookView) (o : OrderView) :
    (v.removeOrder o).orders = v.orders.filter fun o' => o'.handle ≠ o.handle := by
  rw [orders, levels_removeOrder, orders_dropOrder]
  rfl

theorem mem_removeOrder {o' : OrderView} :
    o' ∈ (v.removeOrder o).orders ↔ o' ∈ v.orders ∧ o'.handle ≠ o.handle := by
  simp [orders_removeOrder]

theorem perm_removeOrder (hv : v.Valid) (ho : o ∈ v.orders) :
    v.orders.Perm (o :: (v.removeOrder o).orders) := by
  obtain ⟨before, after, hsplit⟩ := List.append_of_mem ho
  have hnd := hv.orders_nodup
  simp only [hsplit, List.map_append, List.map_cons] at hnd
  have hcons := List.nodup_cons.mp (List.perm_middle.nodup_iff.mp hnd)
  have keep : ∀ o' ∈ before ++ after, o'.handle ≠ o.handle := by
    intro o' ho' heq
    refine hcons.1 (heq ▸ ?_)
    rw [← List.map_append]
    exact List.mem_map_of_mem ho'
  have hfilter : (v.removeOrder o).orders = before ++ after := by
    rw [orders_removeOrder, hsplit, List.filter_append, List.filter_cons_of_neg (by simp),
      ← List.filter_append, List.filter_eq_self]
    intro o' ho'
    simpa using keep o' ho'
  rw [hfilter, hsplit]
  exact List.perm_middle

theorem handles_dropOrder (h : OrderPtr) (ls : List LevelView) :
    (dropOrder h ls).map (·.handle) =
      (ls.filter fun l => ¬ (l.drop h).orders = []).map (·.handle) := by
  induction ls with
  | nil => rfl
  | cons l ls ih =>
    rw [dropOrder_cons, List.map_append, ih]
    by_cases hl : (l.drop h).orders = []
    · rw [if_pos hl, List.filter_cons_of_neg (by simpa using hl)]
      rfl
    · rw [if_neg hl, List.filter_cons_of_pos (by simpa using hl)]
      rfl

theorem dropOrder_handles (h : OrderPtr) (ls : List LevelView) :
    (ls.map (·.handle)).Perm (((ls.filter fun l => (l.drop h).orders = []).map (·.handle)) ++
      (dropOrder h ls).map (·.handle)) := by
  rw [handles_dropOrder, ← List.map_append]
  have hp := (List.filter_append_perm (fun l => decide ((LevelView.drop h l).orders = [])) ls).symm
  simpa using hp.map (·.handle)

theorem mem_dropOrder {h : OrderPtr} {ls : List LevelView} {l : LevelView} :
    l ∈ dropOrder h ls ↔ ∃ m ∈ ls, m.drop h = l ∧ l.orders ≠ [] := by
  simp only [dropOrder, List.mem_filter, List.mem_map, decide_eq_true_eq]
  constructor
  · rintro ⟨⟨m, hm, rfl⟩, hne⟩
    exact ⟨m, hm, rfl, hne⟩
  · rintro ⟨m, hm, rfl, hne⟩
    exact ⟨⟨m, hm, rfl⟩, hne⟩

theorem Valid.removeOrder (hv : v.Valid) (ho : o ∈ v.orders) : (v.removeOrder o).Valid := by
  have hperm := perm_removeOrder hv ho
  constructor
  · rw [levels_removeOrder]
    have hsub : ((dropOrder o.handle v.levels).map LevelView.slot).Sublist
        (v.levels.map LevelView.slot) := by
      have hmap : (v.levels.map (LevelView.drop o.handle)).map LevelView.slot =
          v.levels.map LevelView.slot := by simp [Function.comp_def, LevelView.drop, LevelView.slot]
      rw [← hmap]
      exact (List.filter_sublist).map _
    exact hv.slots.sublist hsub
  · intro l hl
    obtain ⟨m, _, _, hne⟩ := mem_dropOrder.mp (levels_removeOrder v o ▸ hl)
    exact hne
  · intro l hl
    obtain ⟨m, hm, rfl, _⟩ := mem_dropOrder.mp (show l ∈ dropOrder o.handle v.bids from hl)
    exact hv.bidSide m hm
  · intro l hl
    obtain ⟨m, hm, rfl, _⟩ := mem_dropOrder.mp (show l ∈ dropOrder o.handle v.asks from hl)
    exact hv.askSide m hm
  · intro l hl o' ho'
    obtain ⟨m, hm, rfl, _⟩ := mem_dropOrder.mp (levels_removeOrder v o ▸ hl)
    exact hv.filed m hm o' (List.mem_of_mem_filter ho')
  · intro o' ho'
    exact hv.inTable o' (mem_removeOrder.mp ho').1
  · intro c i p hp
    have hne : ¬ (c = o.clientId.toNat ∧ i = o.clientOrderId.toNat) := by
      rintro ⟨rfl, rfl⟩
      simp [BookView.removeOrder, setClientOrder] at hp
    have hold : v.clientOrders c i = some p := by
      by_cases hc : c = o.clientId.toNat
      · subst hc
        have hi : i ≠ o.clientOrderId.toNat := fun hi => hne ⟨rfl, hi⟩
        simpa [BookView.removeOrder, setClientOrder, hi, mapLevels] using hp
      · simpa [BookView.removeOrder, setClientOrder, hc, mapLevels] using hp
    obtain ⟨o', ho', hh, hc, hi⟩ := hv.clientOrders c i p hold
    refine ⟨o', mem_removeOrder.mpr ⟨ho', fun heq => hne ?_⟩, hh, hc, hi⟩
    have := hv.order_eq ho' ho heq
    subst this
    exact ⟨hc.symm, hi.symm⟩
  · refine List.Perm.trans ?_ hv.orderHandles
    refine List.Perm.trans ?_ ((hperm.map (·.handle)).symm.append_left v.freeOrders)
    exact List.perm_middle.symm
  · refine List.Perm.trans ?_ hv.levelHandles
    have hsplit := dropOrder_handles o.handle v.levels
    rw [levels_removeOrder]
    refine List.Perm.trans ?_ (hsplit.symm.append_left v.freeLevels)
    have hfree : (v.removeOrder o).freeLevels = v.emptied o.handle ++ v.freeLevels := rfl
    rw [hfree, emptied, ← List.append_assoc]
    exact List.perm_append_comm.append_right _

end RemoveOrder

section AddOrder
variable {v : BookView} {o : OrderView} {l : LevelView}

theorem priceToIndex_lt (price : Price) : priceToIndex price < maxPriceLevels := by
  have h := UInt64.toNat_lt (price.toUInt64 % 256)
  simp only [priceToIndex, maxPriceLevels, UInt64.toNat_mod]
  exact Nat.mod_lt _ (by decide)

/-- With an empty slot left there are fewer levels than blocks. -/
theorem Valid.freeLevels_ne_nil (hv : v.Valid) {i : Nat} (hi : i < maxPriceLevels)
    (empty : ∀ l ∈ v.levels, l.slot ≠ i) : v.freeLevels ≠ [] := by
  intro hnil
  have hlen := hv.levelHandles.length_eq
  simp only [hnil, List.nil_append, List.length_map, List.length_range] at hlen
  have hnd : (i :: v.levels.map LevelView.slot).Nodup := by
    refine List.nodup_cons.mpr ⟨?_, hv.slots⟩
    intro hmem
    obtain ⟨l, hl, hslot⟩ := List.mem_map.mp hmem
    exact empty l hl hslot
  have hsub : (i :: v.levels.map LevelView.slot) ⊆ List.range maxPriceLevels := by
    intro j hj
    rcases List.mem_cons.mp hj with rfl | hj
    · exact List.mem_range.mpr hi
    · obtain ⟨l, _, rfl⟩ := List.mem_map.mp hj
      exact List.mem_range.mpr (priceToIndex_lt l.price)
  have hle := (List.subperm_of_subset hnd hsub).length_le
  simp only [List.length_cons, List.length_map, List.length_range] at hle
  omega

/-- Booking finds the level of the order's side in its slot, or an empty slot and
a free block for a new level. -/
theorem Valid.place_cases (hv : v.Valid) (same : v.SameSide o.side o.price) :
    (∃ l ∈ v.own o.side, l.side = o.side ∧ l.slot = priceToIndex o.price ∧
      v.place o = v.mapLevels (List.map fun m => if m.slot = l.slot then m.append o else m)) ∨
    (∃ h rest, v.freeLevels = h :: rest ∧ (∀ l ∈ v.levels, l.slot ≠ priceToIndex o.price) ∧
      v.place o = v.newLevel h rest o) := by
  by_cases hslot : ∃ l ∈ v.levels, l.slot = priceToIndex o.price
  · obtain ⟨l, hl, hi⟩ := hslot
    have hside := same l hl hi
    refine Or.inl ⟨l, hside ▸ hv.own_side hl, hside, hi, ?_⟩
    have hfind : v.getPriceLevel o.side o.price = some l := by
      rw [getPriceLevel, ← hi, hv.slotLevel_eq hl]
      simp [hside]
    rw [place, hfind]
  · have empty : ∀ l ∈ v.levels, l.slot ≠ priceToIndex o.price :=
      fun l hl hi => hslot ⟨l, hl, hi⟩
    rcases hfree : v.freeLevels with _ | ⟨h, rest⟩
    · exact absurd hfree (hv.freeLevels_ne_nil (priceToIndex_lt o.price) empty)
    · refine Or.inr ⟨h, rest, rfl, empty, ?_⟩
      have hfind : v.getPriceLevel o.side o.price = none := by
        rw [getPriceLevel, Valid.slotLevel_none empty]
        rfl
      rw [place, hfind]
      simp only [hfree]

theorem map_append_of_slot_ne {ls : List LevelView} {i : Nat} (ne : ∀ m ∈ ls, m.slot ≠ i) :
    (ls.map fun m => if m.slot = i then m.append o else m) = ls := by
  have same : ∀ m ∈ ls, (if m.slot = i then m.append o else m) = id m :=
    fun m hm => if_neg (ne m hm)
  rw [List.map_congr_left same, List.map_id]

/-- Only the level of the slot gets the order. -/
theorem map_append_split {A B : List LevelView}
    (hnd : ((A ++ l :: B).map LevelView.slot).Nodup) :
    ((A ++ l :: B).map fun m => if m.slot = l.slot then m.append o else m) =
      A ++ l.append o :: B := by
  simp only [List.map_append, List.map_cons] at hnd
  have hcons := List.nodup_cons.mp (List.perm_middle.nodup_iff.mp hnd)
  have ne : ∀ m ∈ A ++ B, m.slot ≠ l.slot := by
    intro m hm heq
    refine hcons.1 (heq ▸ ?_)
    rw [← List.map_append]
    exact List.mem_map_of_mem hm
  rw [List.map_append, List.map_cons, if_pos rfl,
    map_append_of_slot_ne fun m hm => ne m (List.mem_append_left B hm),
    map_append_of_slot_ne fun m hm => ne m (List.mem_append_right A hm)]

theorem levels_newLevel (v : BookView) (h : LevelPtr) (rest : List LevelPtr) (o : OrderView) :
    (v.newLevel h rest o).levels.Perm (⟨h, o.side, o.price, [o]⟩ :: v.levels) := by
  by_cases hs : o.side = .buy
  · simp only [newLevel, levels, setOwn, own, hs, if_true]
    exact (insertLevel_perm _ _ _).append_right _
  · simp only [newLevel, levels, setOwn, own, hs, if_false]
    exact ((insertLevel_perm _ _ _).append_left _).trans List.perm_middle

theorem levels_appended (v : BookView) (o : OrderView) (i : Nat) :
    (v.mapLevels (List.map fun m => if m.slot = i then m.append o else m)).levels =
      v.levels.map fun m => if m.slot = i then m.append o else m := by
  simp [mapLevels, levels]

theorem Valid.perm_place (hv : v.Valid) (same : v.SameSide o.side o.price) :
    (v.place o).orders.Perm (o :: v.orders) := by
  rcases hv.place_cases same with ⟨l, hl, _, _, heq⟩ | ⟨h, rest, _, _, heq⟩
  · obtain ⟨A, B, hsplit⟩ := List.append_of_mem (v.own_subset o.side hl)
    have hnd := hv.slots
    rw [hsplit] at hnd
    rw [heq, orders, levels_appended, orders, hsplit, map_append_split hnd]
    simp only [List.flatMap_append, List.flatMap_cons, LevelView.append, List.append_assoc]
    refine (List.Perm.append_left _ ?_).trans List.perm_middle
    exact List.perm_middle
  · rw [heq]
    exact (levels_newLevel v h rest o).flatMap_right _

theorem mem_levels_place (hv : v.Valid) (same : v.SameSide o.side o.price) {m : LevelView}
    (hm : m ∈ (v.place o).levels) : m.orders ≠ [] ∧
      ∀ o' ∈ m.orders, o'.side = m.side ∧ priceToIndex o'.price = m.slot := by
  rcases hv.place_cases same with ⟨l, hl, hside, hslot, heq⟩ | ⟨h, rest, _, _, heq⟩
  · rw [heq, levels_appended] at hm
    obtain ⟨k, hk, rfl⟩ := List.mem_map.mp hm
    by_cases hkl : k.slot = l.slot
    · rw [if_pos hkl]
      have hkeq := hv.level_eq_of_slot hk (v.own_subset o.side hl) hkl
      subst hkeq
      refine ⟨by simp [LevelView.append], fun o' ho' => ?_⟩
      rcases List.mem_append.mp ho' with ho' | ho'
      · exact hv.filed k hk o' ho'
      · rw [List.mem_singleton.mp ho']
        exact ⟨hside.symm, hslot.symm⟩
    · rw [if_neg hkl]
      exact ⟨hv.nonempty k hk, hv.filed k hk⟩
  · rw [heq] at hm
    rcases List.mem_cons.mp ((levels_newLevel v h rest o).mem_iff.mp hm) with rfl | hm
    · refine ⟨by simp, fun o' ho' => ?_⟩
      rw [List.mem_singleton.mp ho']
      exact ⟨rfl, rfl⟩
    · exact ⟨hv.nonempty m hm, hv.filed m hm⟩

theorem Valid.place_sides (hv : v.Valid) (same : v.SameSide o.side o.price) :
    (∀ l ∈ (v.place o).bids, l.side = .buy) ∧ ∀ l ∈ (v.place o).asks, l.side ≠ .buy := by
  rcases hv.place_cases same with ⟨l, _, _, _, heq⟩ | ⟨h, rest, _, _, heq⟩
  · rw [heq]
    have keep : ∀ k : LevelView, (if k.slot = l.slot then k.append o else k).side = k.side := by
      intro k
      split <;> rfl
    constructor
    · intro m hm
      obtain ⟨k, hk, rfl⟩ := List.mem_map.mp hm
      exact (keep k).trans (hv.bidSide k hk)
    · intro m hm
      obtain ⟨k, hk, rfl⟩ := List.mem_map.mp hm
      exact (keep k).symm ▸ hv.askSide k hk
  · rw [heq]
    by_cases hs : o.side = .buy
    · constructor
      · intro m hm
        have hm' : m ∈ insertLevel (fun m => betterPrice o.price m.price o.side)
            ⟨h, o.side, o.price, [o]⟩ v.bids := by
          simpa only [newLevel, setOwn, own, hs, if_true] using hm
        rcases List.mem_cons.mp ((insertLevel_perm _ _ _).mem_iff.mp hm') with rfl | hm'
        · exact hs
        · exact hv.bidSide m hm'
      · intro m hm
        exact hv.askSide m (by simpa only [newLevel, setOwn, own, hs, if_true] using hm)
    · constructor
      · intro m hm
        exact hv.bidSide m (by simpa only [newLevel, setOwn, own, hs, if_false] using hm)
      · intro m hm
        have hm' : m ∈ insertLevel (fun m => betterPrice o.price m.price o.side)
            ⟨h, o.side, o.price, [o]⟩ v.asks := by
          simpa only [newLevel, setOwn, own, hs, if_false] using hm
        rcases List.mem_cons.mp ((insertLevel_perm _ _ _).mem_iff.mp hm') with rfl | hm'
        · exact hs
        · exact hv.askSide m hm'

theorem Valid.place_slots (hv : v.Valid) (same : v.SameSide o.side o.price) :
    ((v.place o).levels.map LevelView.slot).Nodup ∧
    ((v.place o).freeLevels ++ (v.place o).levels.map (·.handle)).Perm
      (List.range maxPriceLevels) := by
  rcases hv.place_cases same with ⟨l, _, _, _, heq⟩ | ⟨h, rest, hfree, empty, heq⟩
  · have keep : ∀ k : LevelView, (if k.slot = l.slot then k.append o else k).slot = k.slot ∧
        (if k.slot = l.slot then k.append o else k).handle = k.handle := by
      intro k
      split <;> exact ⟨rfl, rfl⟩
    rw [heq, levels_appended, List.map_map, List.map_map]
    constructor
    · exact (List.map_congr_left fun k _ => (keep k).1) ▸ hv.slots
    · exact (List.map_congr_left fun k _ => (keep k).2) ▸ hv.levelHandles
  · rw [heq]
    have hperm := levels_newLevel v h rest o
    constructor
    · refine (hperm.map LevelView.slot).nodup_iff.mpr ?_
      refine List.nodup_cons.mpr ⟨?_, hv.slots⟩
      intro hmem
      obtain ⟨m, hm, hslot⟩ := List.mem_map.mp hmem
      exact empty m hm hslot
    · have hrest : (v.newLevel h rest o).freeLevels = rest := rfl
      rw [hrest]
      refine ((hperm.map (·.handle)).append_left rest).trans ?_
      refine List.perm_middle.trans ?_
      have := hv.levelHandles
      rwa [hfree] at this

theorem place_clientOrders (v : BookView) (o : OrderView) :
    (v.place o).clientOrders = v.clientOrders := by
  unfold place
  split
  · rfl
  · split
    · rfl
    · by_cases hs : o.side = .buy <;> simp [newLevel, setOwn, hs]

theorem place_instrumentId (v : BookView) (o : OrderView) :
    (v.place o).instrumentId = v.instrumentId := by
  unfold place
  split
  · rfl
  · split <;> rfl

/-- Booking a new order keeps the view well formed. -/
theorem Valid.addOrder (hv : v.Valid) {rest : List OrderPtr}
    (free : v.freeOrders = o.handle :: rest) (same : v.SameSide o.side o.price)
    (table : OrderBook.inTable o.clientId o.clientOrderId) :
    ({ v.addOrder o with freeOrders := rest } : BookView).Valid := by
  have hperm := hv.perm_place same
  have hmem : ∀ o', o' ∈ (v.place o).orders ↔ o' = o ∨ o' ∈ v.orders :=
    fun o' => (hperm.mem_iff).trans List.mem_cons
  constructor
  · exact (hv.place_slots same).1
  · exact fun l hl => (mem_levels_place hv same hl).1
  · exact (hv.place_sides same).1
  · exact (hv.place_sides same).2
  · exact fun l hl => (mem_levels_place hv same hl).2
  · intro o' ho'
    rcases (hmem o').mp ho' with rfl | ho'
    · exact table
    · exact hv.inTable o' ho'
  · intro c i p hp
    by_cases hkey : c = o.clientId.toNat ∧ i = o.clientOrderId.toNat
    · obtain ⟨rfl, rfl⟩ := hkey
      have hpo : o.handle = p := by
        simpa [BookView.addOrder, setClientOrder] using hp
      exact ⟨o, (hmem o).mpr (Or.inl rfl), hpo, rfl, rfl⟩
    · have hold : v.clientOrders c i = some p := by
        rw [← place_clientOrders v o]
        by_cases hc : c = o.clientId.toNat
        · subst hc
          have hi : i ≠ o.clientOrderId.toNat := fun hi => hkey ⟨rfl, hi⟩
          simpa [BookView.addOrder, setClientOrder, hi] using hp
        · simpa [BookView.addOrder, setClientOrder, hc] using hp
      obtain ⟨o', ho', rest⟩ := hv.clientOrders c i p hold
      exact ⟨o', (hmem o').mpr (Or.inr ho'), rest⟩
  · refine ((hperm.map (·.handle)).append_left rest).trans ?_
    refine List.perm_middle.trans ?_
    have := hv.orderHandles
    rwa [free] at this
  · exact (hv.place_slots same).2

end AddOrder

end BookView

end StockExchange
