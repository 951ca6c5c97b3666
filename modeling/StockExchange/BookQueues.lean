import StockExchange.Instruments

/-!
# The levels as queues

A public book that was kept by updates that fit it has one level for each side and price at
which orders are live, and the level is their queue. Two such books of the same live orders
differ at most in the order of their levels.
-/

namespace StockExchange

open BookView Replay

def MarketUpdate.asMarket (u : MarketUpdate) : MarketOrderFields :=
  ⟨u.orderId, u.side, u.price, u.qty, u.priority⟩

/-- The live orders of one side and price by arrival. -/
def queue (os : List MarketUpdate) (side : Side) (price : Price) : List MarketUpdate :=
  os.filter fun o => o.side = side ∧ o.price = price

namespace PublicBook

/-- The same levels on both sides, in whatever order. -/
def Similar (b c : PublicBook) : Prop := ∀ side, (b.own side).Perm (c.own side)

def prices (b : PublicBook) (side : Side) : List Price := (b.own side).map (·.price)

/-- The levels of the book are the queues of `os`, orders of one instrument. -/
structure Reads (i : InstrumentId) (b : PublicBook) (os : List MarketUpdate) : Prop where
  instrument : ∀ o ∈ os, o.instrumentId = i
  named : ∀ o ∈ os, Named o.side
  ids : (os.map (·.orderId)).Nodup
  levels : ∀ side, Named side → ∀ l : PublicLevel, l ∈ b.own side ↔
    l.orders ≠ [] ∧ l.orders = (queue os side l.price).map MarketUpdate.asMarket
  prices : ∀ side, (b.prices side).Nodup
  slots : ∀ side side', ∀ p ∈ b.prices side, ∀ p' ∈ b.prices side',
    priceToIndex p = priceToIndex p' → p = p' ∧ (side = .buy ↔ side' = .buy)

section Queue
variable {os : List MarketUpdate} {u o : MarketUpdate} {side : Side} {price : Price}

theorem mem_queue : o ∈ queue os side price ↔ o ∈ os ∧ o.side = side ∧ o.price = price := by
  rw [queue, List.mem_filter, decide_eq_true_eq]

theorem queue_concat (os : List MarketUpdate) (u : MarketUpdate) (side : Side) (price : Price) :
    queue (os ++ [u]) side price =
      queue os side price ++ if u.side = side ∧ u.price = price then [u] else [] := by
  rw [queue, queue, List.filter_append, List.filter_singleton]
  congr 1
  by_cases h : u.side = side ∧ u.price = price
  · rw [if_pos h, decide_eq_true h]
    rfl
  · rw [if_neg h, decide_eq_false h]
    rfl

theorem named_iff {side' : Side} (h : Named side) (h' : Named side') :
    (side = .buy ↔ side' = .buy) ↔ side = side' := by
  rcases h with rfl | rfl <;> rcases h' with rfl | rfl <;> decide

end Queue

section Join
variable {x : MarketOrderFields} {ls : List PublicLevel} {l : PublicLevel}

theorem join_found (h : x.price ∈ ls.map (·.price)) :
    join x ls = ls.map fun l => if l.price = x.price then l.append x else l := by
  refine if_pos (List.any_eq_true.mpr ?_)
  obtain ⟨l, hl, hp⟩ := List.mem_map.mp h
  exact ⟨l, hl, decide_eq_true hp⟩

theorem join_new (h : x.price ∉ ls.map (·.price)) :
    (join x ls).Perm (⟨x.price, [x]⟩ :: ls) := by
  rw [join, if_neg]
  · exact insertLevel_perm _ _ _
  · rw [List.any_eq_true]
    rintro ⟨l, hl, hp⟩
    exact h (List.mem_map.mpr ⟨l, hl, of_decide_eq_true hp⟩)

theorem prices_join_found (h : x.price ∈ ls.map (·.price)) :
    (join x ls).map (·.price) = ls.map (·.price) := by
  rw [join_found h, List.map_map]
  refine List.map_congr_left fun l _ => ?_
  rw [Function.comp_apply]
  split <;> rfl

end Join

namespace Reads
variable {i : InstrumentId} {b c : PublicBook} {os : List MarketUpdate} {u : MarketUpdate}

theorem empty (i : InstrumentId) : Reads i .empty [] := by
  have hnone : ∀ side, PublicBook.empty.own side = [] := by
    intro side
    by_cases hs : side = .buy <;> simp [own, PublicBook.empty, hs]
  refine ⟨fun _ ho => absurd ho List.not_mem_nil, fun _ ho => absurd ho List.not_mem_nil, .nil,
    fun side _ l => ?_, fun side => ?_, fun side _ p hp => ?_⟩
  · rw [hnone]
    exact ⟨fun hl => absurd hl List.not_mem_nil, fun h => absurd h.2 h.1⟩
  · rw [PublicBook.prices, hnone]
    exact .nil
  · rw [PublicBook.prices, hnone] at hp
    cases hp

/-- The orders of the book. -/
theorem mem_orders (h : Reads i b os) {x : MarketOrderFields} :
    x ∈ b.orders ↔ ∃ o ∈ os, o.asMarket = x := by
  have hown : ∀ l, l ∈ b.levels ↔ ∃ side, Named side ∧ l ∈ b.own side := by
    intro l
    rw [PublicBook.levels, List.mem_append]
    constructor
    · rintro (hl | hl)
      · exact ⟨.buy, .inl rfl, hl⟩
      · exact ⟨.sell, .inr rfl, hl⟩
    · rintro ⟨side, rfl | rfl, hl⟩
      · exact .inl hl
      · exact .inr hl
  rw [PublicBook.orders, List.mem_flatMap]
  constructor
  · rintro ⟨l, hl, hx⟩
    obtain ⟨side, hside, hl⟩ := (hown l).mp hl
    rw [((h.levels side hside l).mp hl).2] at hx
    obtain ⟨o, ho, rfl⟩ := List.mem_map.mp hx
    exact ⟨o, (mem_queue.mp ho).1, rfl⟩
  · rintro ⟨o, ho, rfl⟩
    have hmem : o.asMarket ∈ (queue os o.side o.price).map MarketUpdate.asMarket :=
      List.mem_map_of_mem (mem_queue.mpr ⟨ho, rfl, rfl⟩)
    exact ⟨⟨o.price, (queue os o.side o.price).map MarketUpdate.asMarket⟩,
      (hown _).mpr ⟨o.side, h.named o ho, (h.levels _ (h.named o ho) _).mpr
        ⟨List.ne_nil_of_mem hmem, rfl⟩⟩, hmem⟩

theorem eq_of_id (h : Reads i b os) {o o' : MarketUpdate} (ho : o ∈ os) (ho' : o' ∈ os)
    (heq : o.orderId = o'.orderId) : o = o' := List.inj_on_of_nodup_map h.ids ho ho' heq

/-- A price at which a side has no level has no queue. -/
theorem queue_nil (h : Reads i b os) {side : Side} (hside : Named side) {price : Price}
    (hp : price ∉ b.prices side) : queue os side price = [] := by
  by_contra hne
  refine hp (List.mem_map.mpr ⟨⟨price, (queue os side price).map MarketUpdate.asMarket⟩,
    (h.levels side hside _).mpr ⟨fun hnil => hne (List.map_eq_nil_iff.mp hnil), rfl⟩, rfl⟩)

theorem own_add (b : PublicBook) (x : MarketOrderFields) (side : Side) :
    (b.add x).own side = join x (b.own side) ∧ (x.side = .buy ↔ side = .buy) ∨
      (b.add x).own side = b.own side ∧ ¬ (x.side = .buy ↔ side = .buy) := by
  rw [PublicBook.add, own_setOwn]
  by_cases hs : x.side = .buy ↔ side = .buy
  · have hown : b.own x.side = b.own side := by
      by_cases hb : x.side = .buy
      · simp [own, hb, hs.mp hb]
      · simp [own, hb, mt hs.mpr hb]
    exact .inl ⟨by rw [if_pos hs, hown], hs⟩
  · exact .inr ⟨if_neg hs, hs⟩

theorem mem_prices_add {x : MarketOrderFields} {side : Side} {p : Price}
    (hp : p ∈ (b.add x).prices side) :
    p ∈ b.prices side ∨ p = x.price ∧ (x.side = .buy ↔ side = .buy) := by
  rcases own_add b x side with ⟨hown, hs⟩ | ⟨hown, -⟩ <;> rw [PublicBook.prices, hown] at hp
  · by_cases hfound : x.price ∈ (b.own side).map (·.price)
    · rw [prices_join_found hfound] at hp
      exact .inl hp
    · rcases List.mem_cons.mp (((join_new hfound).map _).mem_iff.mp hp) with rfl | hp
      · exact .inr ⟨rfl, hs⟩
      · exact .inl hp
  · exact .inl hp

theorem nodup_prices_add {x : MarketOrderFields} {side : Side} (h : (b.prices side).Nodup) :
    ((b.add x).prices side).Nodup := by
  rcases own_add b x side with ⟨hown, -⟩ | ⟨hown, -⟩ <;> rw [PublicBook.prices, hown]
  · by_cases hfound : x.price ∈ (b.own side).map (·.price)
    · rw [prices_join_found hfound]
      exact h
    · exact ((join_new hfound).map _).nodup_iff.mpr (List.nodup_cons.mpr ⟨hfound, h⟩)
  · exact h

/-- The order joins a level that is there. -/
theorem levels_join_found (h : Reads i b os) (hnamed : Named u.side)
    (hfound : u.price ∈ b.prices u.side) (l : PublicLevel) :
    l ∈ join u.asMarket (b.own u.side) ↔
      l.orders ≠ [] ∧ l.orders = (queue (os ++ [u]) u.side l.price).map MarketUpdate.asMarket := by
  have hfound' : u.asMarket.price ∈ (b.own u.side).map (·.price) := hfound
  rw [join_found hfound', List.mem_map, queue_concat, List.map_append]
  obtain ⟨l₀, hl₀, hp₀⟩ := List.mem_map.mp hfound
  by_cases hp : u.price = l.price
  · have hmarket : ∀ l' : PublicLevel, l'.price = l.price → l'.price = u.asMarket.price :=
      fun l' h => h.trans hp.symm
    rw [if_pos ⟨rfl, hp⟩]
    constructor
    · rintro ⟨l', hl', hl⟩
      have hp' : l'.price = l.price := by
        rw [← hl]
        split <;> rfl
      rw [if_pos (hmarket l' hp')] at hl
      obtain ⟨-, heq⟩ := (h.levels _ hnamed l').mp hl'
      rw [← hl]
      exact ⟨by simp [PublicLevel.append], congrArg (· ++ [u.asMarket]) heq⟩
    · rintro ⟨-, heq⟩
      obtain ⟨-, heq₀⟩ := (h.levels _ hnamed l₀).mp hl₀
      refine ⟨l₀, hl₀, ?_⟩
      obtain ⟨price, orders⟩ := l
      obtain ⟨price₀, orders₀⟩ := l₀
      dsimp only at hp heq heq₀ hp₀
      subst hp hp₀
      refine (if_pos (hmarket _ rfl)).trans ?_
      rw [heq, heq₀]
      rfl
  · rw [if_neg fun h => hp h.2, List.map_nil, List.append_nil, ← h.levels _ hnamed]
    constructor
    · rintro ⟨l', hl', hl⟩
      have hne : ¬ l'.price = u.asMarket.price := fun h => hp (by
        rw [← hl]
        split <;> exact h.symm)
      rw [if_neg hne] at hl
      exact hl ▸ hl'
    · exact fun hl => ⟨l, hl, if_neg fun h => hp h.symm⟩

/-- The order opens a level. -/
theorem levels_join_new (h : Reads i b os) (hnamed : Named u.side)
    (hnew : u.price ∉ b.prices u.side) (l : PublicLevel) :
    l ∈ join u.asMarket (b.own u.side) ↔
      l.orders ≠ [] ∧ l.orders = (queue (os ++ [u]) u.side l.price).map MarketUpdate.asMarket := by
  have hnew' : u.asMarket.price ∉ (b.own u.side).map (·.price) := hnew
  rw [(join_new hnew').mem_iff, List.mem_cons, queue_concat, List.map_append,
    h.levels _ hnamed]
  by_cases hp : u.price = l.price
  · have hnone : queue os u.side l.price = [] := hp ▸ h.queue_nil hnamed hnew
    rw [hnone, if_pos ⟨rfl, hp⟩]
    obtain ⟨price, orders⟩ := l
    dsimp only at hp
    subst hp
    constructor
    · rintro (hl | ⟨hne, heq⟩)
      · rw [(PublicLevel.mk.inj hl).2]
        exact ⟨List.cons_ne_nil _ _, rfl⟩
      · exact absurd heq hne
    · rintro ⟨-, rfl⟩
      exact .inl rfl
  · rw [if_neg fun h => hp h.2, List.map_nil, List.append_nil]
    exact or_iff_right fun hl => hp (congrArg PublicLevel.price hl).symm

theorem levels_add (h : Reads i b os) (hnamed : Named u.side) {side : Side} (hside : Named side)
    (l : PublicLevel) : l ∈ (b.add u.asMarket).own side ↔
      l.orders ≠ [] ∧ l.orders = (queue (os ++ [u]) side l.price).map MarketUpdate.asMarket := by
  rcases own_add b u.asMarket side with ⟨hown, hs⟩ | ⟨hown, hs⟩ <;> rw [hown]
  · obtain rfl := (named_iff hnamed hside).mp hs
    by_cases hfound : u.price ∈ b.prices u.side
    · exact h.levels_join_found hnamed hfound l
    · exact h.levels_join_new hnamed hfound l
  · have hother : ¬ (u.side = side ∧ u.price = l.price) := fun h =>
      hs ((named_iff hnamed hside).mpr h.1)
    rw [queue_concat, if_neg hother, List.append_nil]
    exact h.levels side hside l

/-- A new order stands at the end of its queue. -/
theorem add (h : Reads i b os) (hu : u.instrumentId = i) (htype : u.type = .add)
    (ha : b.Admits u) : Reads i (b.apply u) (Replay.apply os u) := by
  have hnamed := ha.sided htype
  have hslot : ∀ side, ∀ p ∈ b.prices side, priceToIndex p = priceToIndex u.price →
      p = u.price ∧ (side = .buy ↔ u.side = .buy) := by
    intro side p hp hindex
    obtain ⟨l, hl, rfl⟩ := List.mem_map.mp hp
    exact ha.slot htype side l hl hindex
  rw [apply_add htype, Replay.apply_add htype]
  refine ⟨fun o ho => ?_, fun o ho => ?_, ?_, fun side hside => h.levels_add hnamed hside,
    fun side => nodup_prices_add (h.prices side), fun side side' p hp p' hp' hindex => ?_⟩
  · rcases List.mem_append.mp ho with ho | ho
    · exact h.instrument o ho
    · exact List.mem_singleton.mp ho ▸ hu
  · rcases List.mem_append.mp ho with ho | ho
    · exact h.named o ho
    · exact List.mem_singleton.mp ho ▸ hnamed
  · rw [List.map_append, List.map_singleton]
    refine List.nodup_append.mpr ⟨h.ids, List.nodup_singleton _, fun id hid id' hid' heq => ?_⟩
    obtain ⟨o, ho, rfl⟩ := List.mem_map.mp hid
    exact ha.fresh htype o.asMarket (h.mem_orders.mpr ⟨o, ho, rfl⟩)
      (heq.trans (List.mem_singleton.mp hid'))
  · rcases mem_prices_add hp with hp | ⟨rfl, hs⟩ <;>
      rcases mem_prices_add hp' with hp' | ⟨rfl, hs'⟩
    · exact h.slots side side' p hp p' hp' hindex
    · obtain ⟨heq, hsame⟩ := hslot side p hp hindex
      exact ⟨heq, hsame.trans hs'⟩
    · obtain ⟨heq, hsame⟩ := hslot side' p' hp' hindex.symm
      exact ⟨heq.symm, hs.symm.trans hsame.symm⟩
    · exact ⟨rfl, hs.symm.trans hs'⟩

/-- The order that an update names. -/
theorem present (h : Reads i b os) (htype : u.type = .modify ∨ u.type = .cancel)
    (ha : b.Admits u) : ∃ o ∈ os, o.orderId = u.orderId ∧ o.price = u.price := by
  obtain ⟨x, hx, hid, -, hprice⟩ := ha.present htype
  obtain ⟨o, ho, rfl⟩ := h.mem_orders.mp hx
  exact ⟨o, ho, hid, hprice⟩

theorem sameOrder_iff (h : Reads i b os) (hu : u.instrumentId = i) {o : MarketUpdate}
    (ho : o ∈ os) : SameOrder u o ↔ o.orderId = u.orderId :=
  ⟨fun hs => hs.2, fun hid => ⟨(h.instrument o ho).trans hu.symm, hid⟩⟩

theorem amend_patch (h : Reads i b os) (hu : u.instrumentId = i)
    (hprice : ∀ o ∈ os, o.orderId = u.orderId → o.price = u.price) {o : MarketUpdate}
    (ho : o ∈ os) : (patch u o).asMarket = o.asMarket.amend u.orderId u.qty ∧
      (patch u o).price = o.price ∧ (patch u o).side = o.side ∧
      (patch u o).orderId = o.orderId ∧ (patch u o).instrumentId = o.instrumentId := by
  by_cases hid : o.orderId = u.orderId
  · have hp := hprice o ho hid
    rw [patch_same ((h.sameOrder_iff hu ho).mpr hid)]
    refine ⟨?_, hp.symm, rfl, rfl, rfl⟩
    refine Eq.trans ?_ (if_pos (c := o.asMarket.marketOrderId = u.orderId) hid).symm
    rw [MarketUpdate.asMarket, MarketUpdate.asMarket, hp]
  · rw [patch_other fun hs => hid ((h.sameOrder_iff hu ho).mp hs)]
    exact ⟨(if_neg hid).symm, rfl, rfl, rfl, rfl⟩

/-- A change of quantity leaves the queues as they are. -/
theorem modify (h : Reads i b os) (hu : u.instrumentId = i) (htype : u.type = .modify)
    (ha : b.Admits u) : Reads i (b.apply u) (Replay.apply os u) := by
  have hprice : ∀ o ∈ os, o.orderId = u.orderId → o.price = u.price := by
    intro o ho hid
    obtain ⟨o', ho', hid', hp⟩ := h.present (.inl htype) ha
    rw [h.eq_of_id ho ho' (hid.trans hid'.symm), hp]
  have hkeep := fun o (ho : o ∈ os) => h.amend_patch hu hprice ho
  have hqueue : ∀ side price, (queue (os.map (patch u)) side price).map MarketUpdate.asMarket =
      ((queue os side price).map MarketUpdate.asMarket).map
        (MarketOrderFields.amend u.orderId u.qty) := by
    intro side price
    have hfilter : queue (os.map (patch u)) side price = (queue os side price).map (patch u) := by
      rw [queue, List.filter_map, queue]
      refine congrArg _ (List.filter_congr fun o ho => ?_)
      rw [Function.comp_apply, (hkeep o ho).2.1, (hkeep o ho).2.2.1]
    rw [hfilter, List.map_map, List.map_map]
    exact List.map_congr_left fun o ho => (hkeep o (mem_queue.mp ho).1).1
  have hprices : ∀ side, (b.amend u.orderId u.qty).prices side = b.prices side := by
    intro side
    rw [PublicBook.prices, PublicBook.amend, own_mapLevels, List.map_map]
    rfl
  rw [apply_modify htype, Replay.apply_modify htype]
  refine ⟨fun o ho => ?_, fun o ho => ?_, ?_, fun side hside l => ?_, fun side => ?_,
    fun side side' p hp p' hp' => ?_⟩
  · obtain ⟨o', ho', rfl⟩ := List.mem_map.mp ho
    rw [(hkeep o' ho').2.2.2.2]
    exact h.instrument o' ho'
  · obtain ⟨o', ho', rfl⟩ := List.mem_map.mp ho
    rw [(hkeep o' ho').2.2.1]
    exact h.named o' ho'
  · have hids : (os.map (patch u)).map (·.orderId) = os.map (·.orderId) := by
      rw [List.map_map]
      exact List.map_congr_left fun o ho => (hkeep o ho).2.2.2.1
    rw [hids]
    exact h.ids
  · rw [PublicBook.amend, own_mapLevels, hqueue, List.mem_map]
    constructor
    · rintro ⟨l', hl', rfl⟩
      obtain ⟨hne, heq⟩ := (h.levels side hside l').mp hl'
      exact ⟨fun hnil => hne (List.map_eq_nil_iff.mp hnil),
        congrArg (List.map (MarketOrderFields.amend u.orderId u.qty)) heq⟩
    · rintro ⟨hne, heq⟩
      refine ⟨⟨l.price, (queue os side l.price).map MarketUpdate.asMarket⟩,
        (h.levels side hside _).mpr ⟨fun hnil => hne (heq.trans (congrArg _ hnil)), rfl⟩, ?_⟩
      rw [PublicLevel.amend, ← heq]
  · rw [hprices]
    exact h.prices side
  · rw [hprices] at hp hp'
    exact h.slots side side' p hp p' hp'

/-- An order is taken out of its queue, and its level with it if it was the last. -/
theorem cancel (h : Reads i b os) (hu : u.instrumentId = i) (htype : u.type = .cancel) :
    Reads i (b.apply u) (Replay.apply os u) := by
  have hqueue : ∀ side price, (queue (os.filter fun o => ¬ SameOrder u o) side price).map
      MarketUpdate.asMarket = ((queue os side price).map MarketUpdate.asMarket).filter fun x =>
        x.marketOrderId ≠ u.orderId := by
    intro side price
    rw [queue, List.filter_comm, ← queue, List.filter_map]
    refine congrArg _ (List.filter_congr fun o ho => ?_)
    exact decide_eq_decide.mpr (not_congr (h.sameOrder_iff hu (mem_queue.mp ho).1))
  have hsub : ∀ side, ((b.cancel u.orderId).prices side).Sublist (b.prices side) := by
    intro side
    have hmap : ((b.own side).map (PublicLevel.drop u.orderId)).map (·.price) =
        b.prices side := by
      rw [List.map_map]
      rfl
    rw [PublicBook.prices, PublicBook.cancel, own_mapLevels, ← hmap]
    exact List.filter_sublist.map _
  rw [apply_cancel htype, Replay.apply_cancel htype]
  refine ⟨fun o ho => h.instrument o (List.mem_filter.mp ho).1,
    fun o ho => h.named o (List.mem_filter.mp ho).1, h.ids.sublist (List.filter_sublist.map _),
    fun side hside l => ?_, fun side => (h.prices side).sublist (hsub side),
    fun side side' p hp p' hp' =>
      h.slots side side' p ((hsub side).subset hp) p' ((hsub side').subset hp')⟩
  rw [PublicBook.cancel, own_mapLevels, hqueue, List.mem_filter, decide_eq_true_eq, List.mem_map]
  constructor
  · rintro ⟨⟨l', hl', rfl⟩, hne⟩
    exact ⟨hne, congrArg (List.filter _) ((h.levels side hside l').mp hl').2⟩
  · rintro ⟨hne, heq⟩
    refine ⟨⟨⟨l.price, (queue os side l.price).map MarketUpdate.asMarket⟩,
      (h.levels side hside _).mpr ⟨fun hnil => hne (heq.trans (congrArg _ hnil)), rfl⟩, ?_⟩, hne⟩
    rw [PublicLevel.drop, ← heq]

/-- Every update that fits. -/
theorem step (h : Reads i b os) (hu : u.instrumentId = i) (ha : b.Admits u) :
    Reads i (b.apply u) (Replay.apply os u) := by
  have htype := ha.type
  simp only [List.mem_cons, List.not_mem_nil, or_false] at htype
  rcases htype with htype | htype | htype | htype | htype
  · exact h.add hu htype ha
  · exact h.modify hu htype ha
  · exact h.cancel hu htype
  · rw [PublicBook.apply_other (.inl htype), Replay.apply_other (.inl htype)]
    exact h
  · have hnone : (os.filter fun o => ¬ o.instrumentId = u.instrumentId) = [] := by
      refine List.filter_eq_nil_iff.mpr fun o ho hne => ?_
      exact of_decide_eq_true hne ((h.instrument o ho).trans hu.symm)
    rw [PublicBook.apply_clear htype, Replay.apply_clear htype, hnone]
    exact .empty i

theorem run {us : List MarketUpdate} (h : Reads i b os) (hus : ∀ u ∈ us, u.instrumentId = i)
    (ha : b.AdmitsAll us) : Reads i (us.foldl PublicBook.apply b) (us.foldl Replay.apply os) := by
  induction us generalizing b os with
  | nil => exact h
  | cons u us ih =>
    exact ih (h.step (hus u List.mem_cons_self) ha.1)
      (fun v hv => hus v (List.mem_cons_of_mem u hv)) ha.2

/-- Books of the same queues differ at most in the order of their levels. -/
theorem similar (h : Reads i b os) {os' : List MarketUpdate} (h' : Reads i c os')
    (hsame : ∀ side price, queue os side price = queue os' side price) : Similar b c := by
  have hnamed : ∀ side, Named side → (b.own side).Perm (c.own side) := by
    intro side hside
    refine (List.perm_ext_iff_of_nodup (h.prices side).of_map (h'.prices side).of_map).mpr ?_
    intro l
    rw [h.levels side hside, h'.levels side hside, hsame]
  intro side
  by_cases hs : side = .buy
  · exact hs ▸ hnamed .buy (.inl rfl)
  · have hsell : ∀ d : PublicBook, d.own side = d.own .sell := fun d => by
      rw [own, if_neg hs]
      rfl
    rw [hsell, hsell]
    exact hnamed .sell (.inr rfl)

end Reads

/-! ## Similar books -/

namespace Similar
variable {b c : PublicBook} {u : MarketUpdate}

theorem refl (b : PublicBook) : Similar b b := fun _ => .refl _

theorem symm (h : Similar b c) : Similar c b := fun side => (h side).symm

theorem orders (h : Similar b c) (x : MarketOrderFields) : x ∈ b.orders ↔ x ∈ c.orders := by
  have hlevels : b.levels.Perm c.levels := (h .buy).append (h .sell)
  rw [PublicBook.orders, PublicBook.orders, List.mem_flatMap, List.mem_flatMap]
  simp only [hlevels.mem_iff]

theorem admits (h : Similar b c) (ha : b.Admits u) : c.Admits u where
  type := ha.type
  fresh htype x hx := ha.fresh htype x ((h.orders x).mpr hx)
  sided := ha.sided
  slot htype side l hl := ha.slot htype side l ((h side).mem_iff.mpr hl)
  present htype := by
    obtain ⟨x, hx, hrest⟩ := ha.present htype
    exact ⟨x, (h.orders x).mp hx, hrest⟩
  empty htype := by
    have hnone := ha.empty htype
    have hown : ∀ side, c.own side = [] := by
      intro side
      have hb : b.own side = [] := by
        rw [hnone]
        by_cases hs : side = .buy <;> simp [own, PublicBook.empty, hs]
      exact (hb ▸ h side).symm.eq_nil
    exact ext_own fun side => by
      rw [hown]
      by_cases hs : side = .buy <;> simp [own, PublicBook.empty, hs]

theorem join (x : MarketOrderFields) {ls ms : List PublicLevel} (h : ls.Perm ms) :
    (join x ls).Perm (PublicBook.join x ms) := by
  have hprices := (h.map (·.price)).mem_iff (a := x.price)
  by_cases hfound : x.price ∈ ls.map (·.price)
  · rw [join_found hfound, join_found (hprices.mp hfound)]
    exact h.map _
  · exact (join_new hfound).trans ((h.cons _).trans (join_new (mt hprices.mpr hfound)).symm)

theorem apply (h : Similar b c) (ha : b.Admits u) : Similar (b.apply u) (c.apply u) := by
  have htype := ha.type
  simp only [List.mem_cons, List.not_mem_nil, or_false] at htype
  rcases htype with htype | htype | htype | htype | htype
  · rw [apply_add htype, apply_add htype]
    intro side
    rcases Reads.own_add b ⟨u.orderId, u.side, u.price, u.qty, u.priority⟩ side with
      ⟨hown, hs⟩ | ⟨hown, hs⟩ <;>
      rcases Reads.own_add c ⟨u.orderId, u.side, u.price, u.qty, u.priority⟩ side with
        ⟨hown', hs'⟩ | ⟨hown', hs'⟩ <;> rw [hown, hown']
    · exact join _ (h side)
    · exact absurd hs hs'
    · exact absurd hs' hs
    · exact h side
  · rw [apply_modify htype, apply_modify htype]
    intro side
    rw [amend, amend, own_mapLevels, own_mapLevels]
    exact (h side).map _
  · rw [apply_cancel htype, apply_cancel htype]
    intro side
    rw [cancel, cancel, own_mapLevels, own_mapLevels]
    exact ((h side).map _).filter _
  · rw [apply_other (.inl htype), apply_other (.inl htype)]
    exact h
  · rw [apply_clear htype, apply_clear htype]
    exact refl _

theorem run {us : List MarketUpdate} (h : Similar b c) (ha : b.AdmitsAll us) :
    c.AdmitsAll us ∧ Similar (us.foldl PublicBook.apply b) (us.foldl PublicBook.apply c) := by
  induction us generalizing b c with
  | nil => exact ⟨trivial, h⟩
  | cons u us ih =>
    obtain ⟨hall, hsimilar⟩ := ih (h.apply ha.1) ha.2
    exact ⟨⟨h.admits ha.1, hall⟩, hsimilar⟩

end Similar

end PublicBook

end StockExchange
