import StockExchange.ReferenceBook

/-!
# Booking and unlinking

`add_order` puts an order behind the others of its level and `remove_order` takes one order
out. Neither moves another order; a level comes with its first order and goes with its last.
-/

namespace StockExchange

open Ring BookView

section Drop
variable {l : LevelView} {ls : List LevelView} {o : OrderView} {h : OrderPtr}

theorem drop_append (absent : ∀ o' ∈ l.orders, o'.handle ≠ o.handle) :
    (l.append o).drop o.handle = l := by
  have hself := drop_eq_self absent
  have horders : (l.orders ++ [o]).filter (fun o' => o'.handle ≠ o.handle) =
      l.orders.filter fun o' => o'.handle ≠ o.handle := by
    rw [List.filter_append, List.filter_cons_of_neg (by simp), List.filter_nil, List.append_nil]
  rw [LevelView.drop] at hself ⊢
  rw [LevelView.append, horders]
  exact hself

/-- The level of a single order goes with it. -/
theorem dropOrder_single {A B : List LevelView} (hl : l.orders = [o])
    (absent : ∀ m ∈ A ++ B, ∀ o' ∈ m.orders, o'.handle ≠ o.handle)
    (nonempty : ∀ m ∈ A ++ B, m.orders ≠ []) : dropOrder o.handle (A ++ l :: B) = A ++ B := by
  have hgone : (l.drop o.handle).orders = [] := by simp [LevelView.drop, hl]
  rw [dropOrder_append, dropOrder_cons, if_pos hgone, List.nil_append, ← dropOrder_append,
    dropOrder_of_not_mem absent nonempty]

end Drop

section Place
variable {v : BookView} {o : OrderView}

/-- A free block is no order of the book. -/
theorem fresh_of_free (hv : v.Valid) {h : OrderPtr} {rest : List OrderPtr}
    (hfree : v.freeOrders = h :: rest) : h ∉ v.orders.map (·.handle) := by
  have hnodup := hv.orderHandles.nodup_iff.mpr List.nodup_range
  rw [hfree, List.cons_append] at hnodup
  exact fun hmem => (List.nodup_cons.mp hnodup).1 (List.mem_append_right _ hmem)

theorem absent_of_fresh (fresh : o.handle ∉ v.orders.map (·.handle)) {l : LevelView}
    (hl : l ∈ v.levels) : ∀ o' ∈ l.orders, o'.handle ≠ o.handle := by
  intro o' ho' heq
  exact fresh (heq ▸ List.mem_map_of_mem (v.mem_orders.mpr ⟨l, hl, ho'⟩))

/-- Without the new order the levels are what they were. -/
theorem dropOrder_place (hv : v.Valid) (same : v.SameSide o.side o.price)
    (fresh : o.handle ∉ v.orders.map (·.handle)) (side : Side) :
    dropOrder o.handle ((v.place o).own side) = v.own side := by
  have habsent : ∀ m ∈ v.own side, ∀ o' ∈ m.orders, o'.handle ≠ o.handle :=
    fun m hm => absent_of_fresh fresh (v.own_subset side hm)
  have hnonempty : ∀ m ∈ v.own side, m.orders ≠ [] :=
    fun m hm => hv.nonempty m (v.own_subset side hm)
  rcases hv.place_cases same with ⟨l, _, _, _, heq⟩ | ⟨k, rest, _, _, heq⟩
  · have hback : ∀ m ∈ v.own side,
        (if m.slot = l.slot then m.append o else m).drop o.handle = m := by
      intro m hm
      split
      · exact drop_append (habsent m hm)
      · exact drop_eq_self (habsent m hm)
    have hown : (v.place o).own side =
        (v.own side).map fun m => if m.slot = l.slot then m.append o else m := by
      rw [heq]
      by_cases hs : side = .buy <;> simp [own, mapLevels, hs]
    have hmap := (List.map_congr_left hback).trans (List.map_id' _)
    rw [hown, dropOrder, List.map_map]
    refine (congrArg _ hmap).trans (List.filter_eq_self.mpr fun m hm => ?_)
    simpa using hnonempty m hm
  · rw [heq, own_newLevel]
    by_cases hside : o.side = .buy ↔ side = .buy
    · rw [if_pos hside, own_congr hside]
      obtain ⟨A, B, hsplit, hins⟩ := insertLevel_split
        (fun m => betterPrice o.price m.price o.side) ⟨k, o.side, o.price, [o]⟩ (v.own side)
      rw [hsplit] at habsent hnonempty
      rw [hins, hsplit]
      exact dropOrder_single rfl habsent hnonempty
    · rw [if_neg hside]
      exact dropOrder_of_not_mem habsent hnonempty

/-- The block of a new level is the first of those that were free. -/
theorem emptied_place (hv : v.Valid) (same : v.SameSide o.side o.price)
    (fresh : o.handle ∉ v.orders.map (·.handle)) :
    (v.place o).emptied o.handle ++ (v.place o).freeLevels = v.freeLevels := by
  have hkeep : ∀ m ∈ v.levels, ¬ (m.drop o.handle).orders = [] := by
    intro m hm
    rw [drop_eq_self (absent_of_fresh fresh hm)]
    exact hv.nonempty m hm
  rcases hv.place_cases same with ⟨l, _, _, _, heq⟩ | ⟨k, rest, hfree, _, heq⟩
  · have hnone : (v.place o).emptied o.handle = [] := by
      rw [heq, emptied, levels_appended, List.map_eq_nil_iff, List.filter_eq_nil_iff]
      intro m' hm'
      obtain ⟨m, hm, rfl⟩ := List.mem_map.mp hm'
      rw [decide_eq_true_eq]
      split
      · rw [drop_append (absent_of_fresh fresh hm)]
        exact hv.nonempty m hm
      · exact hkeep m hm
    rw [hnone, heq]
    rfl
  · have hperm := (levels_newLevel v k rest o).filter
      fun m => decide ((m.drop o.handle).orders = [])
    have hold : v.levels.filter (fun m => (m.drop o.handle).orders = []) = [] :=
      List.filter_eq_nil_iff.mpr fun m hm => by simpa using hkeep m hm
    have hnew : (({ handle := k, side := o.side, price := o.price, orders := [o] } :
        LevelView).drop o.handle).orders = [] := by simp [LevelView.drop]
    rw [List.filter_cons_of_pos (by simpa using hnew), hold, List.perm_singleton] at hperm
    rw [heq, emptied, hperm, hfree]
    rfl

end Place

/-- `w` is `v` with `o` behind the orders of its slot, on a level of its own if there were
none. Without `o` the levels of `w` are those of `v`. -/
structure Appended (v w : BookView) (o : OrderView) : Prop where
  joins : ∀ l, v.slotLevel (priceToIndex o.price) = some l →
    { l with orders := l.orders ++ [o] } ∈ w.own o.side
  opens : v.slotLevel (priceToIndex o.price) = none →
    ∃ k, v.freeLevels = k :: w.freeLevels ∧ ⟨k, o.side, o.price, [o]⟩ ∈ w.own o.side
  others : ∀ side, dropOrder o.handle (w.own side) = v.own side
  freeOrders : v.freeOrders = o.handle :: w.freeOrders
  clientOrders : ∀ c i, w.clientOrders c i =
    if c = o.clientId.toNat ∧ i = o.clientOrderId.toNat then some o.handle
    else v.clientOrders c i

/-- `w` is `v` without `o`, and without its level if `o` was alone on it. -/
structure Deleted (v w : BookView) (o : OrderView) : Prop where
  orders : ∀ side, (w.own side).flatMap (·.orders) = ((v.own side).flatMap (·.orders)).erase o
  levels : ∀ side, (w.own side).map (·.handle) =
    ((v.own side).filter fun l => l.orders ≠ [o]).map (·.handle)
  others : ∀ side, w.own side = dropOrder o.handle (v.own side)
  freeOrders : w.freeOrders = o.handle :: v.freeOrders
  clientOrders : ∀ c i, w.clientOrders c i =
    if c = o.clientId.toNat ∧ i = o.clientOrderId.toNat then none else v.clientOrders c i

section Edits
variable {s : OrderBook} {v : BookView} {o : OrderView} {fuel : Nat}

theorem appended_addOrder (hv : v.Valid) (same : v.SameSide o.side o.price)
    {rest : List OrderPtr} (free : v.freeOrders = o.handle :: rest)
    (fresh : o.handle ∉ v.orders.map (·.handle)) :
    Appended v { v.addOrder o with freeOrders := rest } o := by
  have hown : ∀ side, ({ v.addOrder o with freeOrders := rest } : BookView).own side =
      (v.place o).own side := fun _ => rfl
  refine ⟨fun l hl => ?_, fun hnone => ?_, fun side => ?_, free,
    clientOrders_addOrder v o⟩
  · obtain ⟨hmem, hslot⟩ := Valid.slotLevel_some hl
    rw [hown]
    rcases hv.place_cases same with ⟨m, hm, _, hmslot, heq⟩ | ⟨_, _, _, empty, _⟩
    · obtain rfl := hv.level_eq_of_slot (v.own_subset _ hm) hmem (hmslot.trans hslot.symm)
      have hmap : (v.place o).own o.side =
          (v.own o.side).map fun k => if k.slot = m.slot then k.append o else k := by
        rw [heq]
        by_cases hs : o.side = .buy <;> simp [own, mapLevels, hs]
      rw [hmap]
      exact List.mem_map.mpr ⟨m, hm, if_pos rfl⟩
    · exact absurd hslot (empty l hmem)
  · rw [hown]
    rcases hv.place_cases same with ⟨m, hm, _, hmslot, _⟩ | ⟨k, levels, hfree, _, heq⟩
    · have hsome := hv.slotLevel_eq (v.own_subset _ hm)
      rw [hmslot, hnone] at hsome
      cases hsome
    · refine ⟨k, ?_, ?_⟩
      · change v.freeLevels = k :: (v.place o).freeLevels
        rw [heq, hfree]
        rfl
      · rw [heq, own_newLevel, if_pos Iff.rfl]
        exact (insertLevel_perm _ _ _).mem_iff.mpr List.mem_cons_self
  · exact dropOrder_place hv same fresh side

/-- Only the level of a single order is emptied. -/
theorem drop_eq_nil_iff (hv : v.Valid) (ho : o ∈ v.orders) {l : LevelView} (hl : l ∈ v.levels) :
    (l.drop o.handle).orders = [] ↔ l.orders = [o] := by
  constructor
  · intro hnil
    have hall : ∀ o' ∈ l.orders, o' = o := by
      intro o' ho'
      refine hv.order_eq (v.mem_orders.mpr ⟨l, hl, ho'⟩) ho ?_
      simpa using List.filter_eq_nil_iff.mp hnil o' ho'
    have hrep := List.eq_replicate_of_mem hall
    have hnodup : l.orders.Nodup := by
      have hflat := List.Nodup.of_map _ hv.orders_nodup
      rw [orders, List.nodup_flatMap] at hflat
      exact hflat.1 l hl
    rw [hrep, List.nodup_replicate] at hnodup
    have hpos := List.length_pos_iff.mpr (hv.nonempty l hl)
    have hone : l.orders.length = 1 := by omega
    rw [hrep, hone]
    rfl
  · intro hone
    simp [LevelView.drop, hone]

theorem deleted_removeOrder (hv : v.Valid) (ho : o ∈ v.orders) :
    Deleted v (v.removeOrder o) o := by
  have hmem : ∀ side, ∀ l ∈ v.own side, ∀ o' ∈ l.orders, (o'.handle = o.handle ↔ o' = o) := by
    intro side l hl o' ho'
    refine ⟨hv.order_eq (v.mem_orders.mpr ⟨l, v.own_subset side hl, ho'⟩) ho, ?_⟩
    rintro rfl
    rfl
  refine ⟨fun side => ?_, fun side => ?_, fun side => own_removeOrder v o side, rfl,
    clientOrders_removeOrder v o⟩
  · have hnodup : ((v.own side).flatMap (·.orders)).Nodup := by
      have hsub : ((v.own side).flatMap (·.orders)).Sublist v.orders := by
        rw [orders, levels, List.flatMap_append]
        by_cases hs : side = .buy
        · rw [own, if_pos hs]
          exact List.sublist_append_left _ _
        · rw [own, if_neg hs]
          exact List.sublist_append_right _ _
      exact (List.Nodup.of_map _ hv.orders_nodup).sublist hsub
    rw [own_removeOrder, orders_dropOrder, hnodup.erase_eq_filter]
    refine List.filter_congr fun o' ho' => ?_
    obtain ⟨l, hl, ho'⟩ := List.mem_flatMap.mp ho'
    have hiff := hmem side l hl o' ho'
    by_cases heq : o' = o <;> simp [heq, hiff]
  · rw [own_removeOrder, handles_dropOrder]
    refine congrArg _ (List.filter_congr fun l hl => ?_)
    exact decide_eq_decide.mpr (not_congr (drop_eq_nil_iff hv ho (v.own_subset side hl)))

/-- On every well-formed book `add_order` appends a fresh order and `remove_order` deletes a
resting one, and both leave a well-formed book. -/
theorem addOrder_appends_removeOrder_deletes (hr : Represents s v) (hv : v.Valid)
    (hfuel : maxNumOrders < fuel) :
    (∀ (x : OrderFields) pool p, s.orderPool.alloc ⟨x, none, none⟩ = .ok (pool, p) →
      OrderBook.inTable x.clientId x.clientOrderId → s.SlotOfSide x.side x.price →
      ∃ s' w, OrderBook.addOrder fuel { s with orderPool := pool } p = .ok s' ∧
        Represents s' w ∧ w.Valid ∧ Appended v w ⟨x, p⟩) ∧
    ∀ o ∈ v.orders, ∃ s' w, s.removeOrder o.handle = .ok s' ∧ Represents s' w ∧ w.Valid ∧
      Deleted v w o := by
  refine ⟨fun x pool p halloc htable hslot => ?_, fun o ho => ?_⟩
  · have hsame := (slotOfSide_iff hr hv x.side x.price).mp hslot
    rcases hfree : v.freeOrders with _ | ⟨h, rest⟩
    · have hfull := hr.orderPool
      rw [hfree] at hfull
      rw [hfull.alloc_exhausted] at halloc
      cases halloc
    · obtain ⟨pool', halloc', htaken⟩ := @book_taken s v hr ⟨x, h⟩ rest hfree
      cases halloc.symm.trans halloc'
      obtain ⟨s', hs', hr', hv'⟩ := addOrder_spec hr hv hfree htaken hsame htable hfuel
      exact ⟨s', _, hs', hr', hv', appended_addOrder hv hsame hfree htaken.fresh⟩
  · obtain ⟨s', hs', hr', _⟩ := removeOrder_spec hr hv ho
    exact ⟨s', _, hs', hr', hv.removeOrder ho, deleted_removeOrder hv ho⟩

/-- A book with a buy of 5 at 10. -/
def oneBuy : BookView := (create 0).call (.add 1 1 .buy 10 5)

theorem oneBuy_represented : ∃ s, Represents s oneBuy ∧ oneBuy.Valid :=
  represented_call ⟨_, create_represents 0, create_valid 0⟩
    fun _ => ⟨by decide, by decide +kernel, by unfold SameSide; decide +kernel⟩

/-- The hypotheses are met by another buy at its price, and by the buy itself. -/
theorem addOrder_appends_removeOrder_deletes_sample : ∃ (s : OrderBook)
      (pool : MemoryPool Order) (s₁ s₂ : OrderBook) (w₁ w₂ : BookView) (o : OrderView),
    s.orderPool.alloc ⟨⟨0, 2, 7, 2, .buy, 10, 3, 2⟩, none, none⟩ = .ok (pool, 1) ∧
    OrderBook.addOrder 2049 { s with orderPool := pool } 1 = .ok s₁ ∧ Represents s₁ w₁ ∧
    Appended oneBuy w₁ ⟨⟨0, 2, 7, 2, .buy, 10, 3, 2⟩, 1⟩ ∧
    s.removeOrder o.handle = .ok s₂ ∧ Represents s₂ w₂ ∧ Deleted oneBuy w₂ o := by
  obtain ⟨s, hr, hv⟩ := oneBuy_represented
  obtain ⟨happend, hdelete⟩ :=
    addOrder_appends_removeOrder_deletes hr hv (by decide : maxNumOrders < 2049)
  obtain ⟨o, os, horders⟩ := List.exists_cons_of_ne_nil
    (show oneBuy.orders ≠ [] by decide +kernel)
  obtain ⟨rest, hfree⟩ : ∃ rest, oneBuy.freeOrders = 1 :: rest :=
    ⟨_, List.eq_cons_of_mem_head? (by decide +kernel)⟩
  obtain ⟨pool, halloc, _⟩ :=
    @book_taken s oneBuy hr ⟨⟨0, 2, 7, 2, .buy, 10, 3, 2⟩, 1⟩ rest hfree
  have hslot : s.SlotOfSide .buy 10 :=
    (slotOfSide_iff hr hv .buy 10).mpr (by unfold SameSide; decide +kernel)
  obtain ⟨s₁, w₁, hs₁, hr₁, _, happended⟩ := happend _ pool 1 halloc (by decide) hslot
  obtain ⟨s₂, w₂, hs₂, hr₂, _, hdeleted⟩ := hdelete o (horders ▸ List.mem_cons_self)
  exact ⟨s, pool, s₁, s₂, w₁, w₂, o, halloc, hs₁, hr₁, happended, hs₂, hr₂, hdeleted⟩

end Edits

end StockExchange
