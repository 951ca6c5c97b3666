import StockExchange.PriceOrder
import Mathlib.Algebra.Group.Even
import Mathlib.Data.List.TakeDrop

/-!
# Price-time priority

The reference book keeps each side as one list, best price first and then by arrival,
and a taker repeatedly takes the head while it is within its limit. The order book
reports the executions of the reference book as long as its levels are sorted.
-/

namespace StockExchange

open Ring BookView Transitions

structure Execution where
  aggressor : OrderId
  resting : OrderId
  price : Price
  qty : Quantity
deriving DecidableEq

/-- The `FILLED` responses among the messages. -/
def fills : List Message → List ClientResponseInternal :=
  List.filterMap fun
    | .response r => if r.type = .filled then some r else none
    | .update _ => none

/-- An execution is reported to the aggressor and then to the resting order. -/
def pairUp : List ClientResponseInternal → List Execution
  | a :: b :: rest => ⟨a.marketOrderId, b.marketOrderId, a.price, a.execQty⟩ :: pairUp rest
  | _ => []

def executionsOf (ms : List Message) : List Execution := pairUp (fills ms)

structure RefOrder where
  clientId : ClientId
  clientOrderId : OrderId
  marketOrderId : OrderId
  side : Side
  price : Price
  qty : Quantity
deriving DecidableEq

structure ReferenceBook where
  bids : List RefOrder
  asks : List RefOrder
  nextMarketOrderId : OrderId
  executions : List Execution

namespace ReferenceBook

def create : ReferenceBook := ⟨[], [], 1, []⟩

/-- Behind every order that is at least as good. -/
def arrive (o : RefOrder) (ls : List RefOrder) : List RefOrder :=
  ls.takeWhile (fun m => ¬ betterPrice o.price m.price o.side) ++
    o :: ls.dropWhile fun m => ¬ betterPrice o.price m.price o.side

/-- The resting price is within the limit of the taker. -/
def within (a : Aggressor) (o : RefOrder) : Bool :=
  if a.side = .buy then o.price ≤ a.price else a.price ≤ o.price

/-- A taker takes the head while it is within its limit. -/
def take (a : Aggressor) : List RefOrder → Quantity → List RefOrder × Quantity × List Execution
  | [], leavesQty => ([], leavesQty, [])
  | o :: os, leavesQty =>
    if leavesQty = 0 ∨ ¬ within a o then (o :: os, leavesQty, [])
    else
      let qty := min leavesQty o.qty
      let e := ⟨a.marketOrderId, o.marketOrderId, o.price, qty⟩
      if o.qty = qty then
        let (os, leavesQty, es) := take a os (leavesQty - qty)
        (os, leavesQty, e :: es)
      else ({ o with qty := o.qty - qty } :: os, leavesQty - qty, [e])

def own (b : ReferenceBook) (side : Side) : List RefOrder :=
  if side = .buy then b.bids else b.asks

def setOwn (b : ReferenceBook) (side : Side) (ls : List RefOrder) : ReferenceBook :=
  { b with
    bids := if side = .buy then ls else b.bids
    asks := if side = .buy then b.asks else ls }

def add (b : ReferenceBook) (clientId : ClientId) (clientOrderId : OrderId) (side : Side)
    (price : Price) (quantity : Quantity) : ReferenceBook :=
  let id := b.nextMarketOrderId
  let (os, leavesQty, es) :=
    take ⟨clientId, clientOrderId, id, side, price⟩ (b.own side.other) quantity
  let b := { b.setOwn side.other os with
    nextMarketOrderId := id + 1
    executions := b.executions ++ es }
  if 0 < leavesQty then
    b.setOwn side (arrive ⟨clientId, clientOrderId, id, side, price, leavesQty⟩ (b.own side))
  else b

def hasKey (clientId : ClientId) (clientOrderId : OrderId) (o : RefOrder) : Bool :=
  o.clientId = clientId ∧ o.clientOrderId = clientOrderId

def find (b : ReferenceBook) (clientId : ClientId) (clientOrderId : OrderId) :
    Option RefOrder :=
  (b.bids ++ b.asks).find? (hasKey clientId clientOrderId)

def remove (b : ReferenceBook) (clientId : ClientId) (clientOrderId : OrderId) :
    ReferenceBook :=
  { b with
    bids := b.bids.filter fun o => ¬ hasKey clientId clientOrderId o
    asks := b.asks.filter fun o => ¬ hasKey clientId clientOrderId o }

def reduce (b : ReferenceBook) (clientId : ClientId) (clientOrderId : OrderId)
    (newQuantity : Quantity) : ReferenceBook :=
  let set := fun o : RefOrder =>
    if hasKey clientId clientOrderId o then { o with qty := newQuantity } else o
  { b with bids := b.bids.map set, asks := b.asks.map set }

/-- A quantity reduced at the same price keeps its place; any other change is a new
arrival. -/
def modify (b : ReferenceBook) (clientId : ClientId) (clientOrderId : OrderId)
    (newPrice : Price) (newQuantity : Quantity) : ReferenceBook :=
  match b.find clientId clientOrderId with
  | none => b
  | some o =>
    if o.price ≠ newPrice ∨ o.qty < newQuantity then
      (b.remove clientId clientOrderId).add clientId clientOrderId o.side newPrice newQuantity
    else b.reduce clientId clientOrderId newQuantity

def call (b : ReferenceBook) : OrderBook.BookRequest → ReferenceBook
  | .add clientId clientOrderId side price quantity =>
    b.add clientId clientOrderId side price quantity
  | .cancel clientId clientOrderId => b.remove clientId clientOrderId
  | .modify clientId clientOrderId newPrice newQuantity =>
    b.modify clientId clientOrderId newPrice newQuantity

def run (rs : List OrderBook.BookRequest) : ReferenceBook := rs.foldl call create

end ReferenceBook

open ReferenceBook (take within arrive hasKey)

def OrderView.toRef (o : OrderView) : RefOrder :=
  ⟨o.clientId, o.clientOrderId, o.marketOrderId, o.side, o.price, o.qty⟩

namespace BookView

/-- The orders of a side in the order in which they are met. -/
def refOrders (ls : List LevelView) : List RefOrder :=
  (ls.flatMap (·.orders)).map OrderView.toRef

/-- The table finds each resting order under its own key. -/
def Keyed (v : BookView) : Prop :=
  ∀ o ∈ v.orders, v.clientOrders o.clientId.toNat o.clientOrderId.toNat = some o.handle

/-- The key of a new order is not that of a resting one. -/
def Unused (v : BookView) : OrderBook.BookRequest → Prop
  | .add clientId clientOrderId _ _ _ =>
    v.clientOrders clientId.toNat clientOrderId.toNat = none
  | _ => True

/-- The view stands for the reference book. -/
structure Refines (v : BookView) (b : ReferenceBook) : Prop where
  ordered : v.Ordered
  keyed : v.Keyed
  own : ∀ side, b.own side = refOrders (v.own side)
  nextMarketOrderId : b.nextMarketOrderId = v.nextMarketOrderId
  even : Even (fills v.sent).length
  executions : b.executions = executionsOf v.sent

end BookView

section Messages

theorem fills_append (ms ns : List Message) : fills (ms ++ ns) = fills ms ++ fills ns :=
  List.filterMap_append ..

theorem pairUp_append : ∀ {xs ys : List ClientResponseInternal}, Even xs.length →
    pairUp (xs ++ ys) = pairUp xs ++ pairUp ys
  | [], _, _ => rfl
  | [_], _, h => absurd h (by simp)
  | a :: b :: xs, ys, h => by
    have hxs : Even xs.length := by simpa [Nat.even_add_one] using h
    simp [pairUp, pairUp_append hxs]

theorem executionsOf_append {ms ns : List Message} (h : Even (fills ms).length) :
    executionsOf (ms ++ ns) = executionsOf ms ++ executionsOf ns := by
  rw [executionsOf, fills_append, pairUp_append h, executionsOf, executionsOf]

theorem fills_fillMessages (i : InstrumentId) (a : Aggressor) (leavesQty : Quantity)
    (o : OrderFields) (qty : Quantity) : (fills (fillMessages i a leavesQty o qty)).length = 2 ∧
      executionsOf (fillMessages i a leavesQty o qty) =
        [⟨a.marketOrderId, o.marketOrderId, o.price, qty⟩] := by
  constructor <;> rfl

end Messages

section Matching
variable {v : BookView} {a : Aggressor} {o : OrderView} {leavesQty : Quantity}

theorem beyond_iff (a : Aggressor) (o : OrderView) : beyond a o ↔ ¬ within a o.toRef := by
  unfold beyond within
  split <;> rw [decide_eq_true_eq, decide_eq_true_eq, Int64.not_le] <;> rfl

theorem own_orders_nodup (hv : v.Valid) (side : Side) :
    (((v.own side).flatMap (·.orders)).map (·.handle)).Nodup := by
  have hnd := hv.orders_nodup
  rw [orders, levels, List.flatMap_append, List.map_append, List.nodup_append] at hnd
  by_cases hs : side = .buy
  · simpa [own, hs] using hnd.1
  · simpa [own, hs] using hnd.2.1

/-- The first order of the other side after an execution against it. -/
theorem opposite_fill (hv : v.Valid) {os : List OrderView}
    (hopp : (v.opposite a.side).flatMap (·.orders) = o :: os) :
    ((v.fill a leavesQty o).opposite a.side).flatMap (·.orders) =
      if o.qty - min leavesQty o.qty = 0 then os
      else { o with qty := o.qty - min leavesQty o.qty } :: os := by
  have hnd := own_orders_nodup hv a.side.other
  rw [opposite_eq_own] at hopp ⊢
  rw [hopp, List.map_cons, List.nodup_cons] at hnd
  have hne : ∀ o' ∈ os, o'.handle ≠ o.handle := fun o' ho' heq =>
    hnd.1 (heq ▸ List.mem_map_of_mem ho')
  by_cases hzero : o.qty - min leavesQty o.qty = 0
  · rw [if_pos hzero, fill_eq_removeOrder a hzero, own_removeOrder, orders_dropOrder]
    change ((v.own a.side.other).flatMap (·.orders)).filter _ = os
    rw [hopp, List.filter_cons_of_neg (by simp), List.filter_eq_self]
    intro o' ho'
    simpa using hne o' ho'
  · rw [if_neg hzero, fill_eq_setQty a hzero]
    change ((v.setQty _ _).own a.side.other).flatMap (·.orders) = _
    have hmap : ((v.own a.side.other).map (LevelView.setQty o.handle
        (o.qty - min leavesQty o.qty))).flatMap (·.orders) =
        ((v.own a.side.other).flatMap (·.orders)).map (withQty o.handle
          (o.qty - min leavesQty o.qty)) := by
      rw [List.flatMap_map, List.map_flatMap]
      rfl
    have hos : ∀ o' ∈ os, withQty o.handle (o.qty - min leavesQty o.qty) o' = id o' :=
      fun o' ho' => if_neg (hne o' ho')
    rw [own_setQty, hmap, hopp, List.map_cons, List.map_congr_left hos, List.map_id]
    simp [withQty]

theorem matchLoop_zero (v : BookView) (a : Aggressor) (n : Nat) :
    v.matchLoop a n 0 = (v, 0) := by
  rcases n with _ | n
  · rfl
  · rw [matchLoop]
    cases v.head a.side <;> simp

theorem sub_eq_zero_iff {x y : Quantity} : x - min y x = 0 ↔ x = min y x := by
  constructor
  · intro h
    have := UInt32.sub_add_cancel x (min y x)
    rw [h, UInt32.zero_add] at this
    exact this.symm
  · intro h
    rw [← h, UInt32.sub_self]

/-- The loop over the levels takes what the reference takes from its list. -/
theorem matchLoop_take (n : Nat) (hv : v.Valid) (heven : Even (fills v.sent).length)
    (hn : leavesQty = 0 ∨ v.oppositeCount a.side < n) {os : List RefOrder}
    (hos : refOrders (v.opposite a.side) = os) :
    refOrders ((v.matchLoop a n leavesQty).1.opposite a.side) = (take a os leavesQty).1 ∧
    (v.matchLoop a n leavesQty).2 = (take a os leavesQty).2.1 ∧
    Even (fills (v.matchLoop a n leavesQty).1.sent).length ∧
    executionsOf (v.matchLoop a n leavesQty).1.sent =
      executionsOf v.sent ++ (take a os leavesQty).2.2 := by
  induction n generalizing v leavesQty os with
  | zero =>
    obtain rfl := hn.resolve_right (Nat.not_lt_zero _)
    rw [matchLoop_zero]
    rcases os with _ | ⟨o, os⟩ <;> simp [take, hos, heven]
  | succ n ih =>
    rw [matchLoop]
    rcases head_cases v a.side hv with ⟨hopp, hhead⟩ | ⟨l, ls, o, rest, hopp, horders, hhead⟩
    · rw [hopp] at hos
      subst hos
      simp [hhead, take, refOrders, heven, hopp]
    · obtain ⟨tail, hflat⟩ : ∃ tail, (v.opposite a.side).flatMap (·.orders) = o :: tail :=
        ⟨rest ++ ls.flatMap (·.orders), by rw [hopp, List.flatMap_cons, horders]; rfl⟩
      have hos' : os = o.toRef :: tail.map OrderView.toRef := by
        rw [← hos, refOrders, hflat, List.map_cons]
      subst hos'
      simp only [hhead, take]
      have hstop : (leavesQty = 0 ∨ beyond a o) ↔ (leavesQty = 0 ∨ ¬ within a o.toRef) := by
        rw [beyond_iff]
      by_cases hs : leavesQty = 0 ∨ beyond a o
      · rw [if_pos hs, if_pos (hstop.mp hs)]
        simp [hos, heven]
      · rw [if_neg hs, if_neg fun h => hs (hstop.mpr h)]
        have hmem := (mem_orders_of_head hv hhead).2
        have hv' := hv.fill a hmem leavesQty
        obtain ⟨hlen, hexec⟩ := fills_fillMessages v.instrumentId a leavesQty o.toOrderFields
          (min leavesQty o.qty)
        have heven' : Even (fills (v.fill a leavesQty o).sent).length := by
          rw [sent_fill, fills_append, List.length_append, hlen]
          exact heven.add (by decide)
        have hexec' : executionsOf (v.fill a leavesQty o).sent = executionsOf v.sent ++
            [⟨a.marketOrderId, o.marketOrderId, o.price, min leavesQty o.qty⟩] := by
          rw [sent_fill, executionsOf_append heven, hexec]
        have hprog := (fill_progress hv a hhead leavesQty).imp_right fun h =>
          Nat.lt_of_lt_of_le h (Nat.le_of_lt_succ (hn.resolve_left (not_or.mp hs).1))
        have hopp' : ((v.fill a leavesQty o).opposite a.side).flatMap (·.orders) =
            if o.qty - min leavesQty o.qty = 0 then tail
            else { o with qty := o.qty - min leavesQty o.qty } :: tail := opposite_fill hv hflat
        by_cases hzero : o.qty - min leavesQty o.qty = 0
        · rw [if_pos hzero] at hopp'
          have htail : refOrders ((v.fill a leavesQty o).opposite a.side) =
              tail.map OrderView.toRef := by rw [refOrders, hopp']
          obtain ⟨h₁, h₂, h₃, h₄⟩ := ih hv' heven' hprog htail
          have hqty : o.toRef.qty = min leavesQty o.toRef.qty := sub_eq_zero_iff.mp hzero
          rw [if_pos hqty]
          refine ⟨h₁, h₂, h₃, ?_⟩
          rw [h₄, hexec', List.append_assoc]
          rfl
        · rw [if_neg hzero] at hopp'
          have hqty : ¬ o.toRef.qty = min leavesQty o.toRef.qty :=
            fun h => hzero (sub_eq_zero_iff.mpr h)
          have hleft := min_sub_eq_zero hzero
          rw [if_neg hqty, hleft, matchLoop_zero]
          refine ⟨?_, hleft.symm, heven', hexec'⟩
          rw [refOrders, hopp']
          rfl

end Matching

section Booking
variable {v : BookView} {o : OrderView} {side : Side} {price : Price}

theorem arrive_split {o : RefOrder} {xs ys : List RefOrder}
    (hxs : ∀ m ∈ xs, betterPrice o.price m.price o.side = false)
    (hys : ∀ m ∈ ys, betterPrice o.price m.price o.side = true) :
    arrive o (xs ++ ys) = xs ++ o :: ys := by
  have htake : ys.takeWhile (fun m => ¬ betterPrice o.price m.price o.side) = [] := by
    rcases ys with _ | ⟨y, ys⟩
    · rfl
    · simp [hys y (by simp)]
  have hdrop : ys.dropWhile (fun m => ¬ betterPrice o.price m.price o.side) = ys := by
    rcases ys with _ | ⟨y, ys⟩
    · rfl
    · simp [hys y (by simp)]
  have hall : ∀ m ∈ xs, decide ¬ betterPrice o.price m.price o.side = true := by
    intro m hm
    simp [hxs m hm]
  rw [arrive, List.takeWhile_append_of_pos hall, List.dropWhile_append_of_pos hall, htake, hdrop,
    List.append_nil]

theorem insertRest_split (before : LevelView → Bool) (x : LevelView) :
    ∀ ls : List LevelView, ∃ A B, ls = A ++ B ∧ insertRest before x ls = A ++ x :: B
  | [] => ⟨[], [], rfl, rfl⟩
  | [l] => by
    by_cases h : before l
    · exact ⟨[], [l], rfl, by simp [insertRest, h]⟩
    · exact ⟨[l], [], rfl, by simp [insertRest, h]⟩
  | [l, last] => by
    by_cases h : before l
    · exact ⟨[], [l, last], rfl, by simp [insertRest, h]⟩
    · exact ⟨[l, last], [], rfl, by simp [insertRest, h]⟩
  | l :: m :: n :: rest => by
    by_cases h : before l
    · exact ⟨[], l :: m :: n :: rest, rfl, by simp [insertRest, h]⟩
    · obtain ⟨A, B, hsplit, hins⟩ := insertRest_split before x (m :: n :: rest)
      exact ⟨l :: A, B, by rw [hsplit]; rfl, by rw [insertRest, if_neg h, hins]; rfl⟩

theorem insertLevel_split (before : LevelView → Bool) (x : LevelView) (ls : List LevelView) :
    ∃ A B, ls = A ++ B ∧ insertLevel before x ls = A ++ x :: B := by
  rcases ls with _ | ⟨best, rest⟩
  · exact ⟨[], [], rfl, rfl⟩
  · by_cases h : before best
    · exact ⟨[], best :: rest, rfl, by simp [insertLevel, h]⟩
    · obtain ⟨A, B, hsplit, hins⟩ := insertRest_split before x rest
      exact ⟨best :: A, B, by rw [hsplit]; rfl, by rw [insertLevel, if_neg h, hins]; rfl⟩

theorem mem_refOrders {ls : List LevelView} {m : RefOrder} :
    m ∈ refOrders ls ↔ ∃ l ∈ ls, ∃ o ∈ l.orders, o.toRef = m := by
  simp only [refOrders, List.mem_map, List.mem_flatMap]
  constructor
  · rintro ⟨o, ⟨l, hl, ho⟩, rfl⟩
    exact ⟨l, hl, o, ho, rfl⟩
  · rintro ⟨l, hl, o, ho, rfl⟩
    exact ⟨o, ⟨l, hl, ho⟩, rfl⟩

theorem refOrders_append (ls ms : List LevelView) :
    refOrders (ls ++ ms) = refOrders ls ++ refOrders ms := by
  simp [refOrders]

/-- Placing an order on an ordered side is its arrival in the sorted list. -/
theorem own_place (hv : v.Valid) (ho : v.Ordered) (hf : v.Fits o.side o.price)
    (same : v.SameSide o.side o.price) :
    refOrders ((v.place o).own o.side) = arrive o.toRef (refOrders (v.own o.side)) := by
  have hsorted := ho.sorted o.side
  have hprices : ∀ l ∈ v.own o.side, ∀ m ∈ l.orders, m.price = l.price :=
    fun l hl => ho.priced.price l (v.own_subset _ hl)
  rcases hv.place_cases same with ⟨l, hl, hside, hslot, heq⟩ | ⟨h, ls, _, empty, heq⟩
  · have hprice := ho.eq_of_slot hf.range (v.own_subset _ hl) hslot
    obtain ⟨A, B, hsplit⟩ := List.append_of_mem hl
    have hnd : ((A ++ l :: B).map LevelView.slot).Nodup := by
      have hnd := hv.slots
      rw [levels, List.map_append, List.nodup_append] at hnd
      rw [← hsplit]
      by_cases hs : o.side = .buy
      · simpa [own, hs] using hnd.1
      · simpa [own, hs] using hnd.2.1
    have hown : (v.place o).own o.side = A ++ l.append o :: B := by
      rw [heq, ← map_append_split hnd, ← hsplit]
      by_cases hs : o.side = .buy <;> simp [own, mapLevels, hs]
    rw [hsplit, List.pairwise_append, List.pairwise_cons] at hsorted
    obtain ⟨_, ⟨hB, _⟩, hA⟩ := hsorted
    have hnew : refOrders [l.append o] = refOrders [l] ++ [o.toRef] := by
      simp [refOrders, LevelView.append]
    have hcut : refOrders ((v.place o).own o.side) =
        refOrders (A ++ [l]) ++ o.toRef :: refOrders B := by
      rw [hown, ← List.singleton_append, refOrders_append, refOrders_append, hnew,
        refOrders_append]
      simp
    have hlist : A ++ l :: B = (A ++ [l]) ++ B := by simp
    rw [hcut, hsplit, hlist, refOrders_append (A ++ [l]) B]
    refine (arrive_split ?_ ?_).symm
    · intro m hm
      obtain ⟨k, hk, o', ho', rfl⟩ := mem_refOrders.mp hm
      rcases List.mem_append.mp hk with hk | hk
      · have hkl := hA k hk l (by simp)
        rw [hprice, ← hprices k (by simp [hsplit, hk]) o' ho'] at hkl
        exact betterPrice_asymm hkl
      · rw [List.mem_singleton.mp hk] at ho'
        have hpo' := hprices l hl o' ho'
        change betterPrice o.price o'.price o.side = false
        rw [hpo', hprice]
        exact betterPrice_irrefl _ _
    · intro m hm
      obtain ⟨k, hk, o', ho', rfl⟩ := mem_refOrders.mp hm
      have hlk := hB k hk
      rwa [hprice, ← hprices k (by simp [hsplit, hk]) o' ho'] at hlk
  · obtain ⟨A, B, hsplit, hins⟩ := insertLevel_split
      (fun m => betterPrice o.price m.price o.side) ⟨h, o.side, o.price, [o]⟩ (v.own o.side)
    have hown : (v.place o).own o.side = A ++ ⟨h, o.side, o.price, [o]⟩ :: B := by
      rw [heq, own_newLevel, if_pos Iff.rfl, hins]
    have hnew := sorted_newLevel (ho.sorted _) hf.apart empty ⟨h, o.side, o.price, [o]⟩ rfl
    rw [hins, List.pairwise_append, List.pairwise_cons] at hnew
    obtain ⟨_, ⟨hB, _⟩, hA⟩ := hnew
    have hcut : refOrders ((v.place o).own o.side) = refOrders A ++ o.toRef :: refOrders B := by
      rw [hown, ← List.singleton_append, refOrders_append, refOrders_append]
      rfl
    rw [hcut, hsplit, refOrders_append]
    refine (arrive_split ?_ ?_).symm
    · intro m hm
      obtain ⟨k, hk, o', ho', rfl⟩ := mem_refOrders.mp hm
      have hkx := hA k hk _ List.mem_cons_self
      rw [← hprices k (by simp [hsplit, hk]) o' ho'] at hkx
      exact betterPrice_asymm hkx
    · intro m hm
      obtain ⟨k, hk, o', ho', rfl⟩ := mem_refOrders.mp hm
      have hxk := hB k hk
      rwa [← hprices k (by simp [hsplit, hk]) o' ho'] at hxk

theorem own_place_other (hv : v.Valid) (same : v.SameSide o.side o.price)
    (hne : ¬ (o.side = .buy ↔ side = .buy)) : (v.place o).own side = v.own side := by
  rcases hv.place_cases same with ⟨l, hl, hside, hslot, heq⟩ | ⟨h, ls, _, empty, heq⟩
  · have hmap : (v.place o).own side =
        (v.own side).map fun m => if m.slot = l.slot then m.append o else m := by
      rw [heq]
      by_cases hs : side = .buy <;> simp [own, mapLevels, hs]
    rw [hmap]
    refine map_append_of_slot_ne fun m hm heq => ?_
    have hml := hv.level_eq_of_slot (v.own_subset _ hm) (v.own_subset _ hl) heq
    exact hv.own_ne hne hl hm (congrArg LevelView.handle hml.symm)
  · rw [heq, own_newLevel, if_neg hne]

end Booking

section Keys
variable {v : BookView} {o : OrderView} {clientId : ClientId} {clientOrderId : OrderId}

theorem clientOrders_removeOrder (v : BookView) (o : OrderView) (c i : Nat) :
    (v.removeOrder o).clientOrders c i =
      if c = o.clientId.toNat ∧ i = o.clientOrderId.toNat then none else v.clientOrders c i := by
  change Function.update v.clientOrders o.clientId.toNat
    (Function.update (v.clientOrders o.clientId.toNat) o.clientOrderId.toNat none) c i = _
  by_cases hc : c = o.clientId.toNat
  · subst hc
    by_cases hi : i = o.clientOrderId.toNat <;> simp [hi]
  · simp [hc]

theorem clientOrders_addOrder (v : BookView) (o : OrderView) (c i : Nat) :
    (v.addOrder o).clientOrders c i =
      if c = o.clientId.toNat ∧ i = o.clientOrderId.toNat then some o.handle
      else v.clientOrders c i := by
  change Function.update (v.place o).clientOrders _ _ c i = _
  rw [place_clientOrders]
  by_cases hc : c = o.clientId.toNat
  · subst hc
    by_cases hi : i = o.clientOrderId.toNat <;> simp [hi]
  · simp [hc]

theorem BookView.Keyed.removeOrder (hk : v.Keyed) (ho : o ∈ v.orders) :
    (v.removeOrder o).Keyed := by
  intro o' ho'
  obtain ⟨ho', hne⟩ := mem_removeOrder.mp ho'
  rw [clientOrders_removeOrder, if_neg, hk o' ho']
  rintro ⟨hc, hi⟩
  have h := hk o' ho'
  rw [hc, hi, hk o ho] at h
  exact hne (Option.some.inj h).symm

theorem BookView.Keyed.setQty (hk : v.Keyed) (h : OrderPtr) (qty : Quantity) :
    (v.setQty h qty).Keyed := by
  intro o ho
  rw [orders_setQty] at ho
  obtain ⟨o', ho', rfl⟩ := List.mem_map.mp ho
  obtain ⟨_, _, hc, hi⟩ := withQty_key h qty o'
  rw [hc, hi, withQty_handle]
  exact hk o' ho'

theorem BookView.Keyed.fill (hk : v.Keyed) (a : Aggressor) (ho : o ∈ v.orders)
    (leavesQty : Quantity) : (v.fill a leavesQty o).Keyed := by
  by_cases hzero : o.qty - min leavesQty o.qty = 0
  · rw [fill_eq_removeOrder a hzero]
    exact Keyed.removeOrder (v := v.send _) hk ho
  · rw [fill_eq_setQty a hzero]
    exact hk.setQty _ _

/-- An unused key stays unused while a taker is matched. -/
theorem unused_fill (a : Aggressor) (leavesQty : Quantity) {c i : Nat}
    (h : v.clientOrders c i = none) : (v.fill a leavesQty o).clientOrders c i = none := by
  by_cases hzero : o.qty - min leavesQty o.qty = 0
  · rw [fill_eq_removeOrder a hzero, clientOrders_removeOrder]
    split
    · rfl
    · exact h
  · rw [fill_eq_setQty a hzero]
    exact h

theorem BookView.Keyed.accept (hk : v.Keyed) (hv : v.Valid)
    (unused : v.clientOrders clientId.toNat clientOrderId.toNat = none) (side : Side)
    (price : Price) (quantity : Quantity) :
    (v.accept clientId clientOrderId side price quantity).1.Keyed ∧
    (v.accept clientId clientOrderId side price quantity).1.clientOrders clientId.toNat
      clientOrderId.toNat = none :=
  matchLoop_keeps (J := fun w _ => w.Keyed ∧
      w.clientOrders clientId.toNat clientOrderId.toNat = none)
    (fun _ leavesQty _ hv hJ hhead _ _ =>
      ⟨hJ.1.fill _ (mem_orders_of_head hv hhead).2 leavesQty, unused_fill _ leavesQty hJ.2⟩)
    _ (accepted_valid hv ..) ⟨hk, unused⟩

theorem BookView.Keyed.addOrder (hk : v.Keyed) (hv : v.Valid) (same : v.SameSide o.side o.price)
    (unused : v.clientOrders o.clientId.toNat o.clientOrderId.toNat = none) :
    (v.addOrder o).Keyed := by
  intro o' ho'
  rw [clientOrders_addOrder]
  rcases List.mem_cons.mp ((hv.perm_place same).mem_iff.mp ho') with rfl | ho'
  · rw [if_pos ⟨rfl, rfl⟩]
  · rw [if_neg, hk o' ho']
    rintro ⟨hc, hi⟩
    have h := hk o' ho'
    rw [hc, hi, unused] at h
    cases h

theorem hasKey_toRef (o : OrderView) : hasKey clientId clientOrderId o.toRef ↔
    o.clientId.toNat = clientId.toNat ∧ o.clientOrderId.toNat = clientOrderId.toNat := by
  rw [hasKey, decide_eq_true_eq, UInt32.toNat_inj, UInt64.toNat_inj]
  rfl

/-- An order found by its key is the only one with it. -/
theorem BookView.Keyed.hasKey_iff (hk : v.Keyed) (hv : v.Valid)
    (hfind : v.findOrder clientId clientOrderId = some o) {o' : OrderView} (ho' : o' ∈ v.orders) :
    hasKey clientId clientOrderId o'.toRef ↔ o'.handle = o.handle := by
  obtain ⟨ho, _, htable⟩ := mem_of_findOrder clientId clientOrderId hfind
  rw [hasKey_toRef]
  constructor
  · rintro ⟨hc, hi⟩
    have h := hk o' ho'
    rw [hc, hi, htable] at h
    exact (Option.some.inj h).symm
  · intro h
    obtain ⟨o₁, ho₁, hh, hc, hi⟩ := hv.clientOrders _ _ _ htable
    rw [hv.order_eq ho' ho₁ (h.trans hh.symm)]
    exact ⟨hc, hi⟩

theorem BookView.Keyed.hasKey_none (hk : v.Keyed) (hb : clientId.toNat < maxNumClients)
    (hfind : v.findOrder clientId clientOrderId = none) {o : OrderView} (ho : o ∈ v.orders) :
    hasKey clientId clientOrderId o.toRef = false := by
  by_contra hne
  have hkey : hasKey clientId clientOrderId o.toRef := by simpa using hne
  obtain ⟨hc, hi⟩ := (hasKey_toRef o).mp hkey
  have h := hk o ho
  rw [hc, hi] at h
  rw [findOrder, if_pos hb, h] at hfind
  have := List.find?_eq_none.mp hfind o ho
  simp at this

end Keys

section Steps
variable {v : BookView} {b : ReferenceBook} {o : OrderView} {clientId : ClientId}
  {clientOrderId : OrderId} {side : Side} {price : Price} {quantity : Quantity}

theorem reference_own_setOwn (b : ReferenceBook) (side side' : Side) (ls : List RefOrder) :
    (b.setOwn side ls).own side' =
      if side = .buy ↔ side' = .buy then ls else b.own side' := by
  by_cases hs : side = .buy <;> by_cases hs' : side' = .buy <;>
    simp [ReferenceBook.own, ReferenceBook.setOwn, hs, hs']

theorem side_other_iff (side : Side) : ¬ (side.other = .buy ↔ side = .buy) := by
  by_cases hs : side = .buy <;> simp [Side.other, hs]

/-- Any side is the taker's or the other. -/
theorem own_cases (v : BookView) (side side' : Side) :
    v.own side' = if side.other = .buy ↔ side' = .buy then v.own side.other else v.own side := by
  have h := side_other_iff side
  by_cases hsame : side.other = .buy ↔ side' = .buy
  · rw [if_pos hsame, own_congr hsame]
  · rw [if_neg hsame]
    refine own_congr ?_
    by_cases h₁ : side.other = .buy <;> by_cases h₂ : side = .buy <;>
      by_cases h₃ : side' = .buy <;> simp_all

/-- The matching of `add` is what the reference takes. -/
theorem BookView.Refines.accept (hR : v.Refines b) (hv : v.Valid)
    (unused : v.clientOrders clientId.toNat clientOrderId.toNat = none) (side : Side)
    (price : Price) (quantity : Quantity) :
    let t := take ⟨clientId, clientOrderId, b.nextMarketOrderId, side, price⟩
      (b.own side.other) quantity
    (v.accept clientId clientOrderId side price quantity).2 = t.2.1 ∧
    (v.accept clientId clientOrderId side price quantity).1.Refines
      { b.setOwn side.other t.1 with
        nextMarketOrderId := b.nextMarketOrderId + 1
        executions := b.executions ++ t.2.2 } := by
  intro t
  let a : Aggressor := ⟨clientId, clientOrderId, v.nextMarketOrderId, side, price⟩
  let w := v.accepted clientId clientOrderId side price quantity
  have hw : w.Valid := accepted_valid hv ..
  have hsent : fills w.sent = fills v.sent := by
    change fills (v.sent ++ _) = _
    rw [fills_append]
    exact List.append_nil _
  have hopp : refOrders (w.opposite side) = b.own side.other := by
    rw [hR.own, ← opposite_eq_own]
    rfl
  have htake : t = take a (b.own side.other) quantity := by
    simp only [t, a, hR.nextMarketOrderId]
  have hrounds : quantity = 0 ∨ w.oppositeCount a.side < w.oppositeCount side + 1 :=
    Or.inr (Nat.lt_succ_self _)
  obtain ⟨h₁, h₂, h₃, h₄⟩ := matchLoop_take (w.oppositeCount side + 1) hw
    (hsent ▸ hR.even) hrounds hopp
  obtain ⟨hkeyed, _⟩ := hR.keyed.accept hv unused side price quantity
  rw [htake]
  refine ⟨h₂, ordered_structural.accept hv hR.ordered .., hkeyed, fun side' => ?_, ?_, h₃, ?_⟩
  · change (b.setOwn side.other (take a (b.own side.other) quantity).1).own side' = _
    rw [reference_own_setOwn, own_cases _ side side']
    split
    · rw [← opposite_eq_own]
      exact h₁.symm
    · rename_i hne
      rw [own_accept hv, hR.own, own_cases v side side', if_neg hne]
  · change b.nextMarketOrderId + 1 = (w.matchLoop a _ quantity).1.nextMarketOrderId
    have hid : (w.matchLoop a (w.oppositeCount side + 1) quantity).1.nextMarketOrderId =
        v.nextMarketOrderId + 1 :=
      matchLoop_keeps (J := fun u _ => u.nextMarketOrderId = v.nextMarketOrderId + 1)
        (fun u leavesQty o _ hu _ _ _ => (nextMarketOrderId_fill u _ leavesQty o).trans hu)
        _ hw rfl
    rw [hid, hR.nextMarketOrderId]
  · change b.executions ++ _ = executionsOf (w.matchLoop a _ quantity).1.sent
    rw [h₄, hR.executions]
    simp only [executionsOf, hsent]

theorem BookView.Refines.book (hR : v.Refines b) (hv : v.Valid) (free : v.freeOrders ≠ [])
    (hf : v.Fits side price)
    (unused : v.clientOrders clientId.toNat clientOrderId.toNat = none) (id : OrderId)
    (leavesQty : Quantity) : (v.book clientId clientOrderId id side price leavesQty).Refines
      (b.setOwn side (arrive ⟨clientId, clientOrderId, id, side, price, leavesQty⟩
        (b.own side))) := by
  obtain ⟨h, rest, hfree⟩ := List.exists_cons_of_ne_nil free
  let o := v.bookedOrder h clientId clientOrderId id side price leavesQty
  have same : v.SameSide o.side o.price := (hR.ordered.samePrice hv hf).same
  have hadd := ordered_structural.addOrder v o rest hv hR.ordered hfree same hf
  have hsent : fills (v.book clientId clientOrderId id side price leavesQty).sent =
      fills v.sent := by
    rw [sent_book hfree, fills_append]
    exact List.append_nil _
  refine ⟨?_, ?_, fun side' => ?_, ?_, hsent ▸ hR.even, ?_⟩
  · rw [book_eq hfree]
    exact ordered_structural.send _ hadd
  · rw [book_eq hfree]
    exact hR.keyed.addOrder hv same unused
  · rw [book_eq hfree, reference_own_setOwn]
    change _ = refOrders ((v.place o).own side')
    split
    · rename_i hsame
      rw [own_congr (v := v.place o) hsame.symm]
      exact (hR.own side ▸ own_place hv hR.ordered hf same).symm
    · rename_i hne
      rw [hR.own, own_place_other hv same hne]
  · rw [nextMarketOrderId_book hfree]
    exact hR.nextMarketOrderId
  · rw [executionsOf, hsent]
    exact hR.executions

theorem BookView.Refines.add (hR : v.Refines b) (hv : v.Valid)
    (unused : v.clientOrders clientId.toNat clientOrderId.toNat = none)
    (hb : Bookable clientId clientOrderId side price
      (v.accept clientId clientOrderId side price quantity))
    (hf : 0 < (v.accept clientId clientOrderId side price quantity).2 →
      Fits (v.accept clientId clientOrderId side price quantity).1 side price) :
    (v.add clientId clientOrderId side price quantity).Refines
      (b.add clientId clientOrderId side price quantity) := by
  obtain ⟨hleft, hR'⟩ := hR.accept hv unused side price quantity
  rw [BookView.add, ReferenceBook.add]
  simp only [← hleft]
  by_cases hpos : 0 < (v.accept clientId clientOrderId side price quantity).2
  · rw [if_pos hpos, if_pos hpos, ← hR.nextMarketOrderId]
    exact hR'.book (accept_valid hv ..) (hb hpos).2.1 (hf hpos)
      (hR.keyed.accept hv unused side price quantity).2 _ _
  · rw [if_neg hpos, if_neg hpos]
    exact hR'

/-- The orders of the reference are those of the view. -/
theorem BookView.Refines.orders (hR : v.Refines b) :
    b.bids ++ b.asks = v.orders.map OrderView.toRef := by
  have hbids : b.bids = refOrders v.bids := hR.own .buy
  have hasks : b.asks = refOrders v.asks := hR.own .sell
  rw [hbids, hasks, ← refOrders_append]
  rfl

theorem BookView.Refines.find (hR : v.Refines b) (hv : v.Valid)
    (hb : clientId.toNat < maxNumClients) :
    b.find clientId clientOrderId = (v.findOrder clientId clientOrderId).map OrderView.toRef := by
  rw [ReferenceBook.find, hR.orders, List.find?_map]
  congr 1
  rcases hfind : v.findOrder clientId clientOrderId with _ | o
  · refine List.find?_eq_none.mpr fun o ho => ?_
    simp [hR.keyed.hasKey_none hb hfind ho]
  · obtain ⟨ho, _⟩ := mem_of_findOrder clientId clientOrderId hfind
    have hkey : hasKey clientId clientOrderId o.toRef :=
      (hR.keyed.hasKey_iff hv hfind ho).mpr rfl
    exact find?_eq_of_unique ho hkey fun o' ho' hkey' =>
      hv.order_eq ho' ho ((hR.keyed.hasKey_iff hv hfind ho').mp hkey')

/-- Messages that report no execution change nothing. -/
theorem BookView.Refines.send (hR : v.Refines b) {ms : List Message} (hms : fills ms = []) :
    (v.send ms).Refines b := by
  have hsent : fills (v.send ms).sent = fills v.sent := by
    change fills (v.sent ++ ms) = _
    rw [fills_append, hms, List.append_nil]
  refine ⟨ordered_structural.send _ hR.ordered, hR.keyed, hR.own, hR.nextMarketOrderId,
    hsent ▸ hR.even, ?_⟩
  rw [executionsOf, hsent]
  exact hR.executions

theorem BookView.Refines.removeOrder (hR : v.Refines b) (hv : v.Valid)
    (hfind : v.findOrder clientId clientOrderId = some o) :
    (v.removeOrder o).Refines (b.remove clientId clientOrderId) := by
  obtain ⟨ho, _⟩ := mem_of_findOrder clientId clientOrderId hfind
  refine ⟨ordered_structural.removeOrder v o hv ho hR.ordered, hR.keyed.removeOrder ho,
    fun side => ?_, hR.nextMarketOrderId, hR.even, hR.executions⟩
  have hown : (b.remove clientId clientOrderId).own side =
      (b.own side).filter fun o => ¬ hasKey clientId clientOrderId o := by
    by_cases hs : side = .buy <;> simp [ReferenceBook.own, ReferenceBook.remove, hs]
  rw [hown, hR.own, own_removeOrder, refOrders, refOrders, orders_dropOrder, List.filter_map]
  congr 1
  refine List.filter_congr fun o' ho' => ?_
  obtain ⟨l, hl, ho'⟩ := List.mem_flatMap.mp ho'
  have hkey := hR.keyed.hasKey_iff hv hfind (v.mem_orders.mpr ⟨l, v.own_subset side hl, ho'⟩)
  change decide (¬ hasKey clientId clientOrderId o'.toRef = true) = decide (o'.handle ≠ o.handle)
  rw [decide_eq_decide, hkey]

theorem BookView.Refines.remove_none (hR : v.Refines b) (hb : clientId.toNat < maxNumClients)
    (hfind : v.findOrder clientId clientOrderId = none) :
    b.remove clientId clientOrderId = b := by
  have hkeep : ∀ o ∈ b.bids ++ b.asks, hasKey clientId clientOrderId o = false := by
    rw [hR.orders]
    intro o ho
    obtain ⟨o', ho', rfl⟩ := List.mem_map.mp ho
    exact hR.keyed.hasKey_none hb hfind ho'
  have hbids : b.bids.filter (fun o => ¬ hasKey clientId clientOrderId o) = b.bids :=
    List.filter_eq_self.mpr fun o ho => by simp [hkeep o (List.mem_append_left _ ho)]
  have hasks : b.asks.filter (fun o => ¬ hasKey clientId clientOrderId o) = b.asks :=
    List.filter_eq_self.mpr fun o ho => by simp [hkeep o (List.mem_append_right _ ho)]
  rw [ReferenceBook.remove, hbids, hasks]

theorem BookView.Refines.setQty (hR : v.Refines b) (hv : v.Valid)
    (hfind : v.findOrder clientId clientOrderId = some o) (qty : Quantity) :
    (v.setQty o.handle qty).Refines (b.reduce clientId clientOrderId qty) := by
  refine ⟨ordered_structural.setQty v _ _ hv hR.ordered, hR.keyed.setQty _ _, fun side => ?_,
    hR.nextMarketOrderId, hR.even, hR.executions⟩
  have hown : (b.reduce clientId clientOrderId qty).own side = (b.own side).map fun o =>
      if hasKey clientId clientOrderId o then { o with qty := qty } else o := by
    by_cases hs : side = .buy <;> simp [ReferenceBook.own, ReferenceBook.reduce, hs]
  have hlevels : ((v.own side).map (LevelView.setQty o.handle qty)).flatMap (·.orders) =
      ((v.own side).flatMap (·.orders)).map (withQty o.handle qty) := by
    rw [List.flatMap_map, List.map_flatMap]
    rfl
  rw [hown, hR.own, own_setQty, refOrders, refOrders, hlevels, List.map_map, List.map_map]
  refine List.map_congr_left fun o' ho' => ?_
  obtain ⟨l, hl, ho'⟩ := List.mem_flatMap.mp ho'
  have hkey := hR.keyed.hasKey_iff hv hfind (v.mem_orders.mpr ⟨l, v.own_subset side hl, ho'⟩)
  change (if hasKey clientId clientOrderId o'.toRef then { o'.toRef with qty := qty }
    else o'.toRef) = (withQty o.handle qty o').toRef
  by_cases hh : o'.handle = o.handle
  · rw [if_pos (hkey.mpr hh), withQty, if_pos hh]
    rfl
  · rw [if_neg fun h => hh (hkey.mp h), withQty, if_neg hh]

/-- One call on the view is the same call on the reference. -/
theorem BookView.Refines.call (hR : v.Refines b) (hv : v.Valid) {r : OrderBook.BookRequest}
    (hb : r.Bounded) (unused : v.Unused r) (ha : Admissible v r) (hf : v.Books Fits r) :
    (v.call r).Refines (b.call r) := by
  cases r with
  | add clientId clientOrderId side price quantity => exact hR.add hv unused ha hf
  | cancel clientId clientOrderId =>
    have hid : clientId.toNat < maxNumClients := hb.1
    rw [BookView.call, BookView.cancel, ReferenceBook.call]
    rcases hfind : v.findOrder clientId clientOrderId with _ | o
    · rw [hR.remove_none hid hfind]
      exact hR.send rfl
    · exact (hR.removeOrder hv hfind).send rfl
  | modify clientId clientOrderId price quantity =>
    have hid : clientId.toNat < maxNumClients := hb.1
    rw [BookView.call, BookView.modify, ReferenceBook.call, ReferenceBook.modify, hR.find hv hid]
    rcases hfind : v.findOrder clientId clientOrderId with _ | o
    · exact hR.send rfl
    · obtain ⟨ho, _, _⟩ := mem_of_findOrder clientId clientOrderId hfind
      by_cases hq : o.price ≠ price ∨ o.qty < quantity
      · have hkey := (hasKey_toRef o).mp ((hR.keyed.hasKey_iff hv hfind ho).mpr rfl)
        have hunused : (v.cancelOrder clientId clientOrderId o).clientOrders clientId.toNat
            clientOrderId.toNat = none := by
          change (v.removeOrder o).clientOrders _ _ = none
          rw [clientOrders_removeOrder, if_pos ⟨hkey.1.symm, hkey.2.symm⟩]
        have hcancel : (v.cancelOrder clientId clientOrderId o).Refines
            (b.remove clientId clientOrderId) := (hR.removeOrder hv hfind).send rfl
        simp only [Option.map_some, if_pos hq]
        rw [if_pos (by exact hq)]
        exact hcancel.add (cancelOrder_valid hv ho ..) hunused (ha.2 o hfind hq) (hf o hfind hq)
      · simp only [Option.map_some, if_neg hq]
        rw [if_neg (by exact hq)]
        exact (hR.setQty hv hfind quantity).send rfl

end Steps

namespace OrderBook

/-- The key of a new order is not that of a resting one. -/
def Unused (s : OrderBook) : BookRequest → Prop
  | .add clientId clientOrderId _ _ _ =>
    s.clientOrders clientId.toNat clientOrderId.toNat = none
  | _ => True

/-- A request with fresh ids, within the pools, that places no order just before the last
level of its side. -/
def KeepsPriority (fuel : Nat) (s : OrderBook) (r : BookRequest) : Prop :=
  s.WithinPools fuel r ∧ s.Unused r ∧ s.KeepsOrder r

instance (s : OrderBook) (r : BookRequest) : Decidable (s.Unused r) :=
  match r with
  | .add _ _ _ _ _ => inferInstanceAs (Decidable (_ = none))
  | .cancel _ _ => .isTrue trivial
  | .modify _ _ _ _ => .isTrue trivial

instance (fuel : Nat) (s : OrderBook) (r : BookRequest) : Decidable (s.KeepsPriority fuel r) :=
  inferInstanceAs (Decidable (_ ∧ _))

end OrderBook

section Run
variable {fuel : Nat} {i : InstrumentId} {rs : List OrderBook.BookRequest} {s : OrderBook}

theorem create_refines (i : InstrumentId) : (BookView.create i).Refines .create :=
  ⟨create_ordered i, fun _ ho => absurd ho (by simp [create, orders, levels]),
    fun side => by by_cases hs : side = .buy <;> simp [ReferenceBook.own, ReferenceBook.create,
      refOrders, create, BookView.own, hs], rfl, Even.zero, rfl⟩

theorem unused_iff {v : BookView} (hr : Represents s v) (r : OrderBook.BookRequest) :
    s.Unused r ↔ v.Unused r := by
  cases r with
  | add => rw [OrderBook.Unused, BookView.Unused, hr.clientOrders]
  | cancel => exact Iff.rfl
  | modify => exact Iff.rfl

theorem keepsPriority_reached (hfuel : maxNumOrders < fuel)
    (h : Reached (OrderBook.call fuel) (OrderBook.KeepsPriority fuel) (.create i) rs s) :
    ∃ v, Represents s v ∧ v.Valid ∧ v.Refines (ReferenceBook.run rs) := by
  refine h.simulation (R := fun s b => ∃ v, Represents s v ∧ v.Valid ∧ BookView.Refines v b)
    ⟨_, create_represents i, create_valid i, create_refines i⟩ ?_
  rintro s b r s' ⟨v, hr, hv, hR⟩ ⟨_, hunused, ha⟩ hcall
  have hfits := hR.ordered.books_fits hv ha.2.1 ha.2.2.1 (keepsOrder_places hr hv ha)
  obtain ⟨hadm, hr', hv'⟩ := call_returned hr hv hfuel
    (books_mono (fun _ _ _ h => h.1.same) hfits) hcall
  exact ⟨_, hr', hv', hR.call hv ha.1 ((unused_iff hr r).mp hunused) hadm
    (books_mono (fun _ _ _ h => h.2) hfits)⟩

/-- In a run that places no order just before the last level of its side, the executions
are those of the reference book, and every next such call returns. -/
theorem keepsPriority_executions (hfuel : maxNumOrders < fuel)
    (h : Reached (OrderBook.call fuel) (OrderBook.KeepsPriority fuel) (.create i) rs s) :
    executionsOf s.sent = (ReferenceBook.run rs).executions ∧
      ∀ r, s.KeepsPriority fuel r → ∃ s', s.call fuel r = .ok s' := by
  obtain ⟨v, hr, hv, hR⟩ := keepsPriority_reached hfuel h
  refine ⟨by rw [hr.sent, hR.executions], fun r ha => ?_⟩
  have hfits := hR.ordered.books_fits hv ha.2.2.2.1 ha.2.2.2.2.1 (keepsOrder_places hr hv ha.2.2)
  have hroom := books_view hr hv hfuel (fun _ _ _ _ hr _ h => (hasRoom_iff hr).mp h)
    ha.1.1.findable ha.1.2
  obtain ⟨s', hs', _⟩ := call_spec hr hv hfuel (admissible_of_books ha.1.1
    (books_and hroom (books_mono (fun _ _ _ h => h.1.same) hfits)))
  exact ⟨s', hs'⟩

/-- The hypotheses are met by a run in which a buy takes an order and part of another. -/
theorem keepsPriority_executions_sample : ∃ s,
    Reached (OrderBook.call 3000) (OrderBook.KeepsPriority 3000) (.create 0)
      [.add 1 1 .sell 12 8, .add 1 2 .sell 10 3, .add 2 1 .buy 12 5] s ∧
    executionsOf s.sent = [⟨3, 2, 10, 3⟩, ⟨3, 1, 12, 2⟩] := by
  obtain ⟨s, hs, _⟩ := @reached_of_any _ _ _ (OrderBook.call 3000)
    (OrderBook.KeepsPriority 3000) (.create 0)
    [.add 1 1 .sell 12 8, .add 1 2 .sell 10 3, .add 2 1 .buy 12 5] _ (fun _ => true)
    (by decide +kernel)
  exact ⟨s, hs, (keepsPriority_executions (by decide) hs).1.trans (by decide)⟩

/-- Sells at 10, 12, 14 and 13, and a buy that takes them all. -/
def outOfTurn : List OrderBook.BookRequest :=
  [.add 1 1 .sell 10 5, .add 1 2 .sell 12 5, .add 1 3 .sell 14 5, .add 1 4 .sell 13 5,
    .add 2 1 .buy 14 20]

/-- The sell at 14 is taken before the one at 13. -/
theorem outOfTurn_executions : ∃ s,
    Reached (OrderBook.call 3000)
      (fun s r => s.WithinPools 3000 r ∧ s.Unused r ∧ r.Sided ∧ r.PriceInRange) (.create 0)
      outOfTurn s ∧
    executionsOf s.sent = [⟨5, 1, 10, 5⟩, ⟨5, 2, 12, 5⟩, ⟨5, 3, 14, 5⟩, ⟨5, 4, 13, 5⟩] ∧
    (ReferenceBook.run outOfTurn).executions =
      [⟨5, 1, 10, 5⟩, ⟨5, 2, 12, 5⟩, ⟨5, 4, 13, 5⟩, ⟨5, 3, 14, 5⟩] := by
  obtain ⟨s, hs, hcheck⟩ := @reached_of_any _ _ _ (OrderBook.call 3000)
    (fun s r => s.WithinPools 3000 r ∧ s.Unused r ∧ r.Sided ∧ r.PriceInRange) (.create 0)
    outOfTurn _ (fun s => executionsOf s.sent =
      [⟨5, 1, 10, 5⟩, ⟨5, 2, 12, 5⟩, ⟨5, 3, 14, 5⟩, ⟨5, 4, 13, 5⟩])
    (by decide +kernel)
  exact ⟨s, hs, of_decide_eq_true hcheck, by decide⟩

end Run

end StockExchange
