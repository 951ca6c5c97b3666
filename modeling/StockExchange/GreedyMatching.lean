import StockExchange.Quantities
import StockExchange.ReferenceBook
import Mathlib.Algebra.Order.BigOperators.Group.List

/-!
# Matching is greedy

On a sorted book a taker takes from the front of the other side until nothing of it is left
or nothing within its limit. Only the last order it meets may survive.
-/

namespace StockExchange

open Ring BookView

namespace BookView

/-- Well-formed, strictly sorted best first, and with orders of the price of their level that
have a quantity. -/
structure Sound (v : BookView) : Prop where
  valid : v.Valid
  price : ∀ l ∈ v.levels, ∀ o ∈ l.orders, o.price = l.price
  sorted : ∀ side, (v.own side).Pairwise fun l m => betterPrice l.price m.price side
  positive : ∀ o ∈ v.orders, 0 < o.qty

/-- What is left of an order after the executions `es`. -/
def settleOrder (es : List (OrderView × Quantity)) (o : OrderView) : Option OrderView :=
  match es.find? fun e => e.1.handle = o.handle with
  | none => some o
  | some e => if e.2 = o.qty then none else some { o with qty := o.qty - e.2 }

/-- Orders that are used up are gone, and so are the levels they emptied. -/
def settle (es : List (OrderView × Quantity)) (ls : List LevelView) : List LevelView :=
  (ls.map fun l => { l with orders := l.orders.filterMap (settleOrder es) }).filter
    fun l => l.orders ≠ []

/-- A taker of `quantity` executes `es`, in this order, against the front of the other side,
and `leavesQty` of it is left. -/
structure Takes (a : Aggressor) (v : BookView) (quantity : Quantity) (v' : BookView)
    (leavesQty : Quantity) (es : List (OrderView × Quantity)) (rest : List OrderView) :
    Prop where
  orders : (v.opposite a.side).flatMap (·.orders) = es.map (·.1) ++ rest
  bounds : ∀ e ∈ es, 0 < e.2 ∧ e.2 ≤ e.1.qty ∧ beyond a e.1 = false
  whole : ∀ e ∈ es.dropLast, e.2 = e.1.qty
  last : leavesQty ≠ 0 → ∀ e ∈ es, e.2 = e.1.qty
  sum : leavesQty.toNat + (es.map (·.2.toNat)).sum = quantity.toNat
  stop : leavesQty = 0 ∨ ∀ o ∈ rest.head?, beyond a o
  reported : ∃ ms, v'.sent = v.sent ++ ms ∧ executionsOf ms =
    es.map fun e => ⟨a.marketOrderId, e.1.marketOrderId, e.1.price, e.2⟩
  opposite : v'.opposite a.side = settle es (v.opposite a.side)
  own : v'.own a.side = v.own a.side

section Sound
variable {v : BookView} {a : Aggressor} {o : OrderView} {leavesQty : Quantity}

theorem Sound.send (hs : v.Sound) (ms : List Message) : (v.send ms).Sound :=
  ⟨hs.valid.send ms, hs.price, hs.sorted, hs.positive⟩

theorem Sound.removeOrder (hs : v.Sound) (ho : o ∈ v.orders) : (v.removeOrder o).Sound := by
  refine ⟨hs.valid.removeOrder ho, fun l hl o' ho' => ?_, fun side => ?_, fun o' ho' => ?_⟩
  · obtain ⟨m, hm, rfl, _⟩ := mem_dropOrder.mp (levels_removeOrder v o ▸ hl)
    exact hs.price m hm o' (List.mem_of_mem_filter ho')
  · rw [own_removeOrder]
    exact sorted_of_sublist (f := .drop o.handle) (fun _ => rfl) List.filter_sublist
      (hs.sorted side)
  · exact hs.positive o' (mem_removeOrder.mp ho').1

theorem Sound.setQty (hs : v.Sound) (p : OrderPtr) {qty : Quantity} (hpos : 0 < qty) :
    (v.setQty p qty).Sound := by
  refine ⟨hs.valid.setQty p qty, fun l hl o' ho' => ?_, fun side => ?_,
    forall_setQty p hpos hs.positive⟩
  · obtain ⟨m, hm, rfl⟩ := List.mem_map.mp (levels_setQty v p qty ▸ hl)
    obtain ⟨o₁, ho₁, rfl⟩ := List.mem_map.mp (show o' ∈ m.orders.map (withQty p qty) from ho')
    rw [(withQty_key p qty o₁).2.1]
    exact hs.price m hm o₁ ho₁
  · rw [own_setQty]
    exact sorted_of_sublist (f := .setQty p qty) (fun _ => rfl) (List.Sublist.refl _)
      (hs.sorted side)

theorem Sound.fill (hs : v.Sound) (a : Aggressor) (ho : o ∈ v.orders) (leavesQty : Quantity) :
    (v.fill a leavesQty o).Sound := by
  by_cases hzero : o.qty - min leavesQty o.qty = 0
  · rw [fill_eq_removeOrder a hzero]
    exact (hs.send _).removeOrder ho
  · rw [fill_eq_setQty a hzero]
    exact (hs.setQty o.handle (UInt32.pos_iff_ne_zero.mpr hzero)).send _

/-- Behind an order out of reach all orders are. -/
theorem Sound.beyond_behind (hs : v.Sound) (a : Aggressor) :
    ((v.opposite a.side).flatMap (·.orders)).Pairwise fun o o' => beyond a o → beyond a o' := by
  have hmem : ∀ l ∈ v.opposite a.side, ∀ o ∈ l.orders, o.price = l.price := by
    intro l hl o ho
    rw [opposite_eq_own] at hl
    exact hs.price l (v.own_subset _ hl) o ho
  have hsorted := hs.sorted a.side.other
  rw [← opposite_eq_own] at hsorted
  rw [List.pairwise_flatMap]
  refine ⟨fun l hl => List.pairwise_of_forall_mem_list fun o ho o' ho' h => ?_,
    hsorted.imp_of_mem fun {l m} hl hm hlm o ho o' ho' h => ?_⟩
  · rw [beyond, hmem l hl o ho] at h
    rwa [beyond, hmem l hl o' ho']
  · rw [beyond, hmem l hl o ho] at h
    rw [beyond, hmem m hm o' ho']
    by_cases hside : a.side = .buy
    · simp only [hside, if_true, decide_eq_true_eq, Side.other, betterPrice_iff,
        Side.sell_ne_buy, if_false] at h hlm ⊢
      exact Int64.lt_trans h hlm
    · simp only [hside, if_false, decide_eq_true_eq, Side.other, betterPrice_iff, if_true]
        at h hlm ⊢
      exact Int64.lt_trans hlm h

end Sound

section Settle
variable {es : List (OrderView × Quantity)} {ls : List LevelView} {o : OrderView}

theorem settleOrder_nil (o : OrderView) : settleOrder [] o = some o := rfl

theorem settle_nil (hne : ∀ l ∈ ls, l.orders ≠ []) : settle [] ls = ls := by
  have hid : ∀ l ∈ ls, ({ l with orders := l.orders.filterMap (settleOrder []) } : LevelView) =
      id l := by
    intro l _
    have hfun : settleOrder [] = some := funext settleOrder_nil
    rw [hfun, List.filterMap_some]
    rfl
  rw [settle, List.map_congr_left hid, List.map_id, List.filter_eq_self]
  intro l hl
  simpa using hne l hl

theorem settle_cons (l : LevelView) : settle es (l :: ls) =
    (if l.orders.filterMap (settleOrder es) = [] then []
      else [{ l with orders := l.orders.filterMap (settleOrder es) }]) ++ settle es ls := by
  by_cases hnil : l.orders.filterMap (settleOrder es) = [] <;> simp [settle, hnil]

theorem settleOrder_cons (q : Quantity) (o' : OrderView) : settleOrder ((o, q) :: es) o' =
    if o.handle = o'.handle then
      if q = o'.qty then none else some { o' with qty := o'.qty - q }
    else settleOrder es o' := by
  by_cases hh : o.handle = o'.handle <;> simp [settleOrder, hh]

/-- An order used up first is as good as gone. -/
theorem settle_cons_whole (hone : ∀ l ∈ ls, ∀ o' ∈ l.orders, o'.handle = o.handle → o' = o) :
    settle ((o, o.qty) :: es) ls = settle es (dropOrder o.handle ls) := by
  induction ls with
  | nil => rfl
  | cons l ls ih =>
    have hl : l.orders.filterMap (settleOrder ((o, o.qty) :: es)) =
        (l.drop o.handle).orders.filterMap (settleOrder es) := by
      rw [LevelView.drop, List.filterMap_filter]
      refine List.filterMap_congr fun o' ho' => ?_
      rw [settleOrder_cons]
      by_cases hh : o'.handle = o.handle
      · obtain rfl := hone l (by simp) o' ho' hh
        simp
      · simp [hh, Ne.symm hh]
    rw [settle_cons, ih fun m hm => hone m (List.mem_cons_of_mem l hm), dropOrder_cons, hl]
    by_cases hnil : (l.drop o.handle).orders = []
    · rw [if_pos hnil, hnil]
      simp
    · rw [if_neg hnil, List.singleton_append, settle_cons]
      rfl

/-- An order taken in part stays with what is left. -/
theorem settle_part {q : Quantity} (hq : q ≠ o.qty)
    (hone : ∀ l ∈ ls, ∀ o' ∈ l.orders, o'.handle = o.handle → o' = o)
    (hne : ∀ l ∈ ls, l.orders ≠ []) :
    settle [(o, q)] ls = ls.map (.setQty o.handle (o.qty - q)) := by
  have hl : ∀ l ∈ ls, ({ l with orders := l.orders.filterMap (settleOrder [(o, q)]) } :
      LevelView) = l.setQty o.handle (o.qty - q) := by
    intro l hl
    have hmap : l.orders.filterMap (settleOrder [(o, q)]) =
        l.orders.map (withQty o.handle (o.qty - q)) := by
      rw [← List.filterMap_eq_map]
      refine List.filterMap_congr fun o' ho' => ?_
      rw [settleOrder_cons]
      by_cases hh : o'.handle = o.handle
      · obtain rfl := hone l hl o' ho' hh
        simp [withQty, hq]
      · simp [settleOrder_nil, withQty, hh, Ne.symm hh]
    rw [hmap]
    rfl
  rw [settle, List.map_congr_left hl, List.filter_eq_self]
  intro l hl
  obtain ⟨m, hm, rfl⟩ := List.mem_map.mp hl
  simpa [LevelView.setQty] using hne m hm

end Settle

section Greedy
variable {v v' : BookView} {a : Aggressor} {o : OrderView} {quantity leavesQty : Quantity}
  {es : List (OrderView × Quantity)} {rest tail : List OrderView}

/-- What a taker could execute within its limit. -/
def available (a : Aggressor) (v : BookView) : Nat :=
  ((((v.opposite a.side).flatMap (·.orders)).filter fun o => ¬ beyond a o).map
    (·.qty.toNat)).sum

theorem mem_orders_of_opposite (ho : o ∈ (v.opposite a.side).flatMap (·.orders)) :
    o ∈ v.orders := by
  obtain ⟨l, hl, ho⟩ := List.mem_flatMap.mp ho
  rw [opposite_eq_own] at hl
  exact v.mem_orders.mpr ⟨l, v.own_subset _ hl, ho⟩

theorem opposite_one (hv : v.Valid) (ho : o ∈ v.orders) :
    ∀ l ∈ v.opposite a.side, ∀ o' ∈ l.orders, o'.handle = o.handle → o' = o := by
  intro l hl o' ho' heq
  rw [opposite_eq_own] at hl
  exact hv.order_eq (v.mem_orders.mpr ⟨l, v.own_subset _ hl, ho'⟩) ho heq

theorem opposite_nonempty (hv : v.Valid) : ∀ l ∈ v.opposite a.side, l.orders ≠ [] := by
  intro l hl
  rw [opposite_eq_own] at hl
  exact hv.nonempty l (v.own_subset _ hl)

/-- The order a taker meets is none of its own side. -/
theorem own_absent (hv : v.Valid) (ho : o ∈ (v.opposite a.side).flatMap (·.orders)) :
    ∀ l ∈ v.own a.side, ∀ o' ∈ l.orders, o'.handle ≠ o.handle := by
  have hnd := hv.orders_nodup
  rw [orders, levels, List.flatMap_append, List.map_append, List.nodup_append] at hnd
  intro l hl o' ho' heq
  have hown : o' ∈ (v.own a.side).flatMap (·.orders) := List.mem_flatMap.mpr ⟨l, hl, ho'⟩
  by_cases hs : a.side = .buy
  · rw [own, if_pos hs] at hown
    rw [opposite, if_pos hs] at ho
    exact hnd.2.2 _ (List.mem_map_of_mem hown) _ (List.mem_map_of_mem ho) heq
  · rw [own, if_neg hs] at hown
    rw [opposite, if_neg hs] at ho
    exact hnd.2.2 _ (List.mem_map_of_mem ho) _ (List.mem_map_of_mem hown) heq.symm

/-- A taker that stops leaves the book as it is. -/
theorem takes_nothing (hv : v.Valid) (hstop : leavesQty = 0 ∨
      ∀ o ∈ ((v.opposite a.side).flatMap (·.orders)).head?, beyond a o) :
    Takes a v leavesQty v leavesQty [] ((v.opposite a.side).flatMap (·.orders)) where
  orders := rfl
  bounds := by simp
  whole := by simp
  last := by simp
  sum := by simp
  stop := hstop
  reported := ⟨[], (List.append_nil _).symm, rfl⟩
  opposite := (settle_nil (opposite_nonempty hv)).symm
  own := rfl

/-- An order that is not used up is larger than the taker. -/
theorem min_cases (x y : Quantity) :
    (y = min x y ∧ y ≤ x) ∨ (y ≠ min x y ∧ min x y = x ∧ x < y) := by
  rcases minQty_cases x y with ⟨hle, hmin⟩ | ⟨hlt, hmin⟩
  · rw [hmin]
    by_cases heq : y = x
    · exact Or.inl ⟨heq, heq ▸ UInt32.le_refl y⟩
    · exact Or.inr ⟨heq, rfl, UInt32.lt_of_le_of_ne hle (Ne.symm heq)⟩
  · rw [hmin]
    exact Or.inl ⟨rfl, UInt32.le_of_lt hlt⟩

theorem reported_fill (v : BookView) (a : Aggressor) (leavesQty : Quantity) (o : OrderView)
    {ms : List Message} {xs : List Execution} (h : executionsOf ms = xs) :
    executionsOf (fillMessages v.instrumentId a leavesQty o.toOrderFields
      (min leavesQty o.qty) ++ ms) =
      ⟨a.marketOrderId, o.marketOrderId, o.price, min leavesQty o.qty⟩ :: xs := by
  obtain ⟨hlen, hexec⟩ := fills_fillMessages v.instrumentId a leavesQty o.toOrderFields
    (min leavesQty o.qty)
  rw [executionsOf_append (hlen ▸ by decide), hexec, h]
  rfl

/-- An order used up leaves its side to what the rest of the taker does. -/
theorem Takes.whole_first (hs : v.Sound) (hopp : (v.opposite a.side).flatMap (·.orders) =
      o :: tail) (hwithin : beyond a o = false) (hqty : o.qty = min quantity o.qty)
    (h : Takes a (v.fill a quantity o) (quantity - min quantity o.qty) v' leavesQty es rest) :
    Takes a v quantity v' leavesQty ((o, o.qty) :: es) rest := by
  have hmem : o ∈ (v.opposite a.side).flatMap (·.orders) := by simp [hopp]
  have ho := mem_orders_of_opposite hmem
  have hzero : o.qty - min quantity o.qty = 0 := sub_eq_zero_iff.mpr hqty
  have hfill := fill_eq_removeOrder (v := v) a hzero
  have hflat := @opposite_fill v a o quantity hs.valid tail hopp
  rw [if_pos hzero] at hflat
  have hle : o.qty ≤ quantity := ((min_cases quantity o.qty).resolve_right fun h => h.1 hqty).2
  constructor
  · rw [hopp, ← hflat, h.orders]
    rfl
  · intro e he
    rcases List.mem_cons.mp he with rfl | he
    · exact ⟨hs.positive o ho, UInt32.le_refl _, hwithin⟩
    · exact h.bounds e he
  · intro e he
    rcases es with _ | ⟨e₁, es⟩
    · cases he
    · rcases List.mem_cons.mp he with rfl | he
      · rfl
      · exact h.whole e he
  · intro hleft e he
    rcases List.mem_cons.mp he with rfl | he
    · rfl
    · exact h.last hleft e he
  · have hsum := h.sum
    rw [← hqty, UInt32.toNat_sub_of_le _ _ hle] at hsum
    have hle' := UInt32.le_iff_toNat_le.mp hle
    simp only [List.map_cons, List.sum_cons]
    omega
  · exact h.stop
  · obtain ⟨ms, hms, hexec⟩ := h.reported
    refine ⟨_, by rw [hms, sent_fill, List.append_assoc], ?_⟩
    rw [reported_fill v a quantity o hexec, ← hqty]
    rfl
  · rw [h.opposite, settle_cons_whole (opposite_one hs.valid ho), hfill, opposite_eq_own,
      own_removeOrder, ← opposite_eq_own]
    rfl
  · rw [h.own, hfill, own_removeOrder]
    change dropOrder o.handle (v.own a.side) = v.own a.side
    exact dropOrder_of_not_mem (own_absent hs.valid hmem) fun l hl =>
      hs.valid.nonempty l (v.own_subset _ hl)

/-- An order that survives is the last one. -/
theorem takes_part (hs : v.Sound) (hopp : (v.opposite a.side).flatMap (·.orders) = o :: tail)
    (hleft : quantity ≠ 0) (hwithin : beyond a o = false) (hqty : o.qty ≠ min quantity o.qty) :
    Takes a v quantity (v.fill a quantity o) 0 [(o, quantity)] tail := by
  have hmem : o ∈ (v.opposite a.side).flatMap (·.orders) := by simp [hopp]
  have ho := mem_orders_of_opposite hmem
  have hpos : o.qty - min quantity o.qty ≠ 0 := fun h => hqty (sub_eq_zero_iff.mp h)
  have hfill := fill_eq_setQty (v := v) a hpos
  obtain ⟨_, hmin, hlt⟩ := (min_cases quantity o.qty).resolve_left fun h => hqty h.1
  constructor
  · exact hopp
  · intro e he
    obtain rfl := List.mem_singleton.mp he
    exact ⟨UInt32.pos_iff_ne_zero.mpr hleft, UInt32.le_of_lt hlt, hwithin⟩
  · simp
  · simp
  · simp
  · exact Or.inl rfl
  · refine ⟨_, sent_fill .., ?_⟩
    have hexec := (fills_fillMessages v.instrumentId a quantity o.toOrderFields
      (min quantity o.qty)).2
    rw [hexec, hmin]
    rfl
  · rw [hfill, settle_part (hmin ▸ Ne.symm hqty) (opposite_one hs.valid ho)
      (opposite_nonempty hs.valid), opposite_eq_own]
    change (BookView.setQty _ _ _).own _ = _
    rw [own_setQty, ← opposite_eq_own, hmin]
  · rw [hfill]
    change (BookView.setQty _ _ _).own _ = _
    have hsame : ∀ l ∈ v.own a.side, l.setQty o.handle (o.qty - min quantity o.qty) = id l := by
      intro l hl
      have hid : ∀ o' ∈ l.orders, withQty o.handle (o.qty - min quantity o.qty) o' = id o' :=
        fun o' ho' => if_neg (own_absent hs.valid hmem l hl o' ho')
      have horders := (List.map_congr_left hid).trans (List.map_id _)
      exact congrArg (fun os => ({ l with orders := os } : LevelView)) horders
    rw [own_setQty, List.map_congr_left hsame, List.map_id]

/-- The loop takes from the front of the other side. -/
theorem matchLoop_takes (n : Nat) (hs : v.Sound)
    (hn : quantity = 0 ∨ v.oppositeCount a.side < n) :
    ∃ es rest, Takes a v quantity (v.matchLoop a n quantity).1 (v.matchLoop a n quantity).2
      es rest := by
  induction n generalizing v quantity with
  | zero =>
    obtain rfl := hn.resolve_right (Nat.not_lt_zero _)
    rw [matchLoop_zero]
    exact ⟨[], _, takes_nothing hs.valid (Or.inl rfl)⟩
  | succ n ih =>
    rw [matchLoop]
    rcases head_cases v a.side hs.valid with ⟨hopp, hhead⟩ | ⟨l, ls, o, os, hopp, horders, hhead⟩
    · simp only [hhead]
      exact ⟨[], _, takes_nothing hs.valid (Or.inr (by simp [hopp]))⟩
    · have hflat : (v.opposite a.side).flatMap (·.orders) = o :: (os ++ ls.flatMap (·.orders)) := by
        rw [hopp, List.flatMap_cons, horders, List.cons_append]
      simp only [hhead]
      by_cases hstop : quantity = 0 ∨ beyond a o
      · rw [if_pos hstop]
        exact ⟨[], _, takes_nothing hs.valid (hstop.imp_right fun h => by simpa [hflat] using h)⟩
      · rw [if_neg hstop]
        obtain ⟨hleft, hwithin⟩ := not_or.mp hstop
        have hwithin' : beyond a o = false := Bool.not_eq_true _ ▸ hwithin
        have ho := (mem_orders_of_head hs.valid hhead).2
        by_cases hqty : o.qty = min quantity o.qty
        · have hprog := (fill_progress hs.valid a hhead quantity).imp_right fun h =>
            Nat.lt_of_lt_of_le h (Nat.le_of_lt_succ (hn.resolve_left hleft))
          obtain ⟨es, rest, htakes⟩ := ih (hs.fill a ho quantity) hprog
          exact ⟨_, _, htakes.whole_first hs hflat hwithin' hqty⟩
        · have hzero := min_sub_eq_zero fun h => hqty (sub_eq_zero_iff.mp h)
          rw [hzero, matchLoop_zero]
          exact ⟨_, _, takes_part hs hflat hleft hwithin' hqty⟩

theorem matchLoop_sound (n : Nat) (hs : v.Sound) : (v.matchLoop a n quantity).1.Sound :=
  matchLoop_keeps (J := fun w _ => w.Sound)
    (fun _ leavesQty _ hv hs hhead _ _ => hs.fill a (mem_orders_of_head hv hhead).2 leavesQty)
    n hs.valid hs

/-- Behind the first order out of reach nothing is within the limit. -/
theorem filter_stop (hs : v.Sound) (hopp : (v.opposite a.side).flatMap (·.orders) = tail ++ rest)
    (hstop : ∀ o ∈ rest.head?, beyond a o) : rest.filter (fun o => ¬ beyond a o) = [] := by
  have hbehind := hs.beyond_behind a
  rw [hopp] at hbehind
  have hrest := (List.pairwise_append.mp hbehind).2.1
  rcases rest with _ | ⟨o, os⟩
  · rfl
  · have ho : beyond a o := hstop o rfl
    rw [List.filter_eq_nil_iff]
    intro o' ho'
    rcases List.mem_cons.mp ho' with rfl | ho'
    · simpa using ho
    · simpa using (List.pairwise_cons.mp hrest).1 o' ho' ho

/-- A taker executes all it asks for, or all there is within its limit. -/
theorem Takes.total (hs : v.Sound) (h : Takes a v quantity v' leavesQty es rest) :
    (es.map (·.2.toNat)).sum = min quantity.toNat (available a v) := by
  have hwithin : (es.map (·.1)).filter (fun o => ¬ beyond a o) = es.map (·.1) := by
    rw [List.filter_eq_self]
    intro o ho
    obtain ⟨e, he, rfl⟩ := List.mem_map.mp ho
    simp [(h.bounds e he).2.2]
  have havail : available a v = (es.map (·.1.qty.toNat)).sum +
      ((rest.filter fun o => ¬ beyond a o).map (·.qty.toNat)).sum := by
    rw [available, h.orders, List.filter_append, hwithin, List.map_append, List.sum_append,
      List.map_map]
    rfl
  have hsum := h.sum
  by_cases hzero : leavesQty = 0
  · have hle : (es.map (·.2.toNat)).sum ≤ (es.map (·.1.qty.toNat)).sum :=
      List.sum_le_sum fun e he => UInt32.le_iff_toNat_le.mp (h.bounds e he).2.1
    rw [hzero, UInt32.toNat_zero] at hsum
    omega
  · have hwhole : es.map (·.2.toNat) = es.map (·.1.qty.toNat) :=
      List.map_congr_left fun e he => congrArg UInt32.toNat (h.last hzero e he)
    have hrest := filter_stop hs h.orders (h.stop.resolve_left hzero)
    rw [hrest, List.map_nil, List.sum_nil, ← hwhole] at havail
    omega

end Greedy

end BookView

section Heap
variable {s : OrderBook} {v : BookView} {fuel : Nat}

/-- `check_for_match` is greedy, and takes all it can. -/
theorem checkForMatch_greedy (hr : Represents s v) (hs : v.Sound) (hfuel : maxNumOrders < fuel)
    (clientId : ClientId) (clientOrderId newMarketOrderId : OrderId) (side : Side)
    (price : Price) (quantity : Quantity) : ∃ s' v' leavesQty es rest,
      s.checkForMatch fuel clientId clientOrderId newMarketOrderId side price quantity =
        .ok (s', leavesQty) ∧ Represents s' v' ∧ v'.Sound ∧
      Takes ⟨clientId, clientOrderId, newMarketOrderId, side, price⟩ v quantity v' leavesQty
        es rest ∧
      (es.map (·.2.toNat)).sum = min quantity.toNat
        (available ⟨clientId, clientOrderId, newMarketOrderId, side, price⟩ v) := by
  let a : Aggressor := ⟨clientId, clientOrderId, newMarketOrderId, side, price⟩
  have hcount : v.oppositeCount a.side < fuel :=
    Nat.lt_of_le_of_lt (oppositeCount_le hs.valid _) hfuel
  obtain ⟨s', hs', hr', _⟩ := matchLoop_spec hr hs.valid a quantity
    (Nat.lt_of_le_of_lt (Nat.zero_le _) hcount) (Or.inr hcount)
  obtain ⟨es, rest, htakes⟩ := matchLoop_takes (a := a) fuel hs (Or.inr hcount)
  exact ⟨s', _, _, es, rest, hs', hr', matchLoop_sound fuel hs, htakes, htakes.total hs⟩

/-- Sells of 5 at 10 and at 20. -/
def oneSell : BookView := (create 0).call (.add 1 1 .sell 10 5)
def twoSells : BookView := oneSell.call (.add 1 2 .sell 20 5)

theorem twoSells_sound (hv : twoSells.Valid) : twoSells.Sound := by
  refine ⟨hv, by decide +kernel, fun side => ?_, by decide +kernel⟩
  have hbids : twoSells.bids = [] := by decide +kernel
  have hasks : twoSells.asks.Pairwise fun l m => betterPrice l.price m.price .sell := by
    decide +kernel
  by_cases hside : side = .buy
  · simp [own, hside, hbids]
  · simpa [own, hside, betterPrice] using hasks

theorem twoSells_represented : ∃ s, Represents s twoSells ∧ twoSells.Valid := by
  have hfirst : ∃ s, Represents s oneSell ∧ oneSell.Valid :=
    represented_call ⟨_, create_represents 0, create_valid 0⟩
      fun _ => ⟨by decide, by decide +kernel, by unfold SameSide; decide +kernel⟩
  exact represented_call hfirst
    fun _ => ⟨by decide, by decide +kernel, by unfold SameSide; decide +kernel⟩

/-- The hypotheses are met by a buyer of 7 that takes the first sell whole. -/
theorem checkForMatch_greedy_sample : ∃ (s : OrderBook) (s' : OrderBook) (v' : BookView)
      (leavesQty : Quantity) (es : List (OrderView × Quantity)) (rest : List OrderView),
    s.checkForMatch 2049 2 1 3 .buy 20 7 = .ok (s', leavesQty) ∧ Represents s' v' ∧
    v'.Sound ∧ Takes ⟨2, 1, 3, .buy, 20⟩ twoSells 7 v' leavesQty es rest ∧
    (es.map (·.2.toNat)).sum = 7 := by
  obtain ⟨s, hr, hv⟩ := twoSells_represented
  obtain ⟨s', v', leavesQty, es, rest, hs', hr', hsound, htakes, hsum⟩ :=
    checkForMatch_greedy hr (twoSells_sound hv) (by decide : maxNumOrders < 2049) 2 1 3 .buy 20 7
  refine ⟨s, s', v', leavesQty, es, rest, hs', hr', hsound, htakes, hsum.trans ?_⟩
  decide +kernel

end Heap

end StockExchange
