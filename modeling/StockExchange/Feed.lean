import StockExchange.ViewRuns
import Mathlib.Data.List.Infix

/-!
# The incremental feed

A reader of the market updates keeps one entry for each id. After every call its
entries are the resting orders, as long as fewer than 2^64 ids have been handed out.
-/

namespace StockExchange

open Ring BookView Transitions

/-- What an `ADD` tells of an order. -/
structure FeedEntry where
  side : Side
  price : Price
  qty : Quantity
  priority : Priority
deriving DecidableEq

abbrev Feed := OrderId → Option FeedEntry

def Feed.apply (f : Feed) (u : MarketUpdate) : Feed :=
  if u.type = .add then
    Function.update f u.orderId (some ⟨u.side, u.price, u.qty, u.priority⟩)
  else if u.type = .modify then
    Function.update f u.orderId
      ((f u.orderId).map fun e => { e with qty := u.qty, price := u.price })
  else if u.type = .cancel then Function.update f u.orderId none
  else f

def feed (us : List MarketUpdate) : Feed := us.foldl Feed.apply fun _ => none

def updates : List Message → List MarketUpdate :=
  List.filterMap fun
    | .response _ => none
    | .update u => some u

/-- An `ADD` names an id that was never present, a `MODIFY` or `CANCEL` one that is, with
its side and price. -/
structure Follows (before : List MarketUpdate) (u : MarketUpdate) : Prop where
  fresh : u.type = .add → ∀ us, us <+: before → feed us u.orderId = none
  present : u.type = .modify ∨ u.type = .cancel →
    ∃ e ∈ feed before u.orderId, e.side = u.side ∧ e.price = u.price

def WellFormed (us : List MarketUpdate) : Prop :=
  ∀ before u after, us = before ++ u :: after → Follows before u

/-- The id was present at some moment. -/
def Seen (us : List MarketUpdate) (id : OrderId) : Prop :=
  ∃ before, before <+: us ∧ feed before id ≠ none

def OrderFields.entry (o : OrderFields) : FeedEntry := ⟨o.side, o.price, o.qty, o.priority⟩

namespace BookView

/-- The feed shows the orders of the view, whose ids are among the first `n`. -/
structure Feeds (v : BookView) (n : Nat) : Prop where
  entries : ∀ id e, feed (updates v.sent) id = some e ↔
    ∃ o ∈ v.orders, o.marketOrderId = id ∧ o.entry = e
  wellFormed : WellFormed (updates v.sent)
  seen : ∀ id, Seen (updates v.sent) id → Born n id
  fifo : ∀ l ∈ v.levels, (l.orders.map (·.marketOrderId)).Pairwise (· < ·)

end BookView

section Log
variable {us : List MarketUpdate} {u : MarketUpdate} {id : OrderId}

theorem feed_concat (us : List MarketUpdate) (u : MarketUpdate) :
    feed (us ++ [u]) = (feed us).apply u := by
  rw [feed, List.foldl_append]
  rfl

theorem updates_append (ms ns : List Message) : updates (ms ++ ns) = updates ms ++ updates ns :=
  List.filterMap_append ..

theorem WellFormed.concat (h : WellFormed us) (hu : Follows us u) : WellFormed (us ++ [u]) := by
  intro before w after heq
  rcases List.eq_nil_or_concat after with rfl | ⟨rest, x, rfl⟩
  · obtain ⟨rfl, hw⟩ := List.append_inj' heq rfl
    cases hw
    exact hu
  · rw [List.concat_eq_append, ← List.cons_append, ← List.append_assoc] at heq
    exact h before w rest (List.append_inj' heq rfl).1

theorem Seen.concat (h : Seen (us ++ [u]) id) : Seen us id ∨ feed (us ++ [u]) id ≠ none := by
  obtain ⟨before, hpre, hne⟩ := h
  rcases List.prefix_concat_iff.mp hpre with rfl | hpre
  · exact Or.inr hne
  · exact Or.inl ⟨before, hpre, hne⟩

theorem not_seen (h : ¬ Seen us id) (before : List MarketUpdate) (hpre : before <+: us) :
    feed before id = none := by
  by_contra hne
  exact h ⟨before, hpre, hne⟩

theorem Seen.of_present {e : FeedEntry} (h : feed us id = some e) : Seen us id :=
  ⟨us, List.prefix_rfl, by simp [h]⟩

/-- A `TRADE` is ignored. -/
theorem apply_trade (f : Feed) (h : u.type = .trade) : f.apply u = f := by
  rw [Feed.apply, if_neg (by rw [h]; decide), if_neg (by rw [h]; decide),
    if_neg (by rw [h]; decide)]

theorem follows_trade (us : List MarketUpdate) (h : u.type = .trade) : Follows us u :=
  ⟨fun ht => absurd (h.symm.trans ht) (by decide),
    fun ht => ht.elim (fun ht => absurd (h.symm.trans ht) (by decide))
      fun ht => absurd (h.symm.trans ht) (by decide)⟩

end Log

namespace BookView

section Feeds
variable {v w : BookView} {n : Nat} {u : MarketUpdate} {o : OrderView}

theorem create_feeds (i : InstrumentId) : (create i).Feeds 0 := by
  refine ⟨fun id e => ?_, fun before u after h => ?_, fun id h => ?_, fun l hl => ?_⟩
  · simp [create, orders, levels, updates, feed]
  · exact absurd (congrArg List.length h) (by simp [create, updates])
  · obtain ⟨before, hpre, hne⟩ := h
    rw [List.prefix_nil.mp (show before <+: [] from hpre)] at hne
    exact absurd rfl hne
  · simp [create, levels] at hl

theorem updates_send (v : BookView) (ms : List Message) :
    updates (v.send ms).sent = updates v.sent ++ updates ms := updates_append ..

/-- Responses are not part of the feed. -/
theorem Feeds.respond (h : v.Feeds n) {ms : List Message} (hms : updates ms = []) :
    (v.send ms).Feeds n := by
  have hsent : updates (v.send ms).sent = updates v.sent := by
    rw [updates_send, hms, List.append_nil]
  exact ⟨by rw [hsent]; exact h.entries, by rw [hsent]; exact h.wellFormed,
    by rw [hsent]; exact h.seen, h.fifo⟩

/-- One more update. -/
theorem Feeds.advance (h : v.Feeds n) {m : Nat} (hnm : n ≤ m)
    (hsent : updates w.sent = updates v.sent ++ [u]) (hu : Follows (updates v.sent) u)
    (hw : w.Numbered m)
    (entries : ∀ id e, (feed (updates v.sent)).apply u id = some e ↔
      ∃ o ∈ w.orders, o.marketOrderId = id ∧ o.entry = e)
    (fifo : ∀ l ∈ w.levels, (l.orders.map (·.marketOrderId)).Pairwise (· < ·)) : w.Feeds m := by
  rw [← feed_concat, ← hsent] at entries
  refine ⟨entries, hsent ▸ h.wellFormed.concat hu, fun id hseen => ?_, fifo⟩
  rw [hsent] at hseen
  rcases hseen.concat with hold | hnew
  · exact (h.seen id hold).mono hnm
  · obtain ⟨e, he⟩ := Option.ne_none_iff_exists'.mp hnew
    rw [← hsent] at he
    obtain ⟨o, ho, rfl, _⟩ := (entries id e).mp he
    exact hw.born o ho

theorem Feeds.trade (h : v.Feeds n) (hv : v.Numbered n) (ms : List Message)
    (hms : updates ms = [u]) (hu : u.type = .trade) : (v.send ms).Feeds n := by
  refine h.advance le_rfl (u := u) ?_ (follows_trade _ hu) (hv.send ms) ?_ h.fifo
  · rw [updates_send, hms]
  · rw [apply_trade _ hu]
    exact h.entries

/-- A resting order has its entry in the feed. -/
theorem Feeds.entry (h : v.Feeds n) (ho : o ∈ v.orders) :
    feed (updates v.sent) o.marketOrderId = some o.entry :=
  (h.entries _ _).mpr ⟨o, ho, rfl, rfl⟩

/-- An update other than `ADD` of a resting order. -/
theorem Feeds.follows (h : v.Feeds n) (ho : o ∈ v.orders) (htype : u.type ≠ .add)
    (hid : u.orderId = o.marketOrderId) (hside : u.side = o.side) (hprice : u.price = o.price) :
    Follows (updates v.sent) u := by
  refine ⟨fun ht => absurd ht htype, fun _ => ⟨o.entry, ?_, hside.symm, hprice.symm⟩⟩
  rw [hid]
  exact h.entry ho

theorem Feeds.removeOrder (h : v.Feeds n) (hv : v.Valid) (hn : v.Numbered n) (ho : o ∈ v.orders)
    {ms : List Message} (hms : updates ms = [u]) (htype : u.type = .cancel)
    (hid : u.orderId = o.marketOrderId) (hside : u.side = o.side) (hprice : u.price = o.price) :
    ((v.removeOrder o).send ms).Feeds n := by
  refine h.advance le_rfl (u := u) ?_ (h.follows ho (by rw [htype]; decide) hid hside hprice)
    ((hn.removeOrder o).send ms) (fun id e => ?_) fun l hl => ?_
  · rw [updates_send, hms]
    rfl
  · rw [Feed.apply, if_neg (by rw [htype]; decide), if_neg (by rw [htype]; decide),
      if_pos htype, hid]
    by_cases heq : id = o.marketOrderId
    · subst heq
      rw [Function.update_self]
      refine ⟨nofun, ?_⟩
      rintro ⟨o', ho', heq, _⟩
      obtain ⟨ho', hne⟩ := mem_removeOrder.mp ho'
      exact absurd (congrArg OrderView.handle (hn.eq_of_id ho' ho heq)) hne
    · rw [Function.update_of_ne heq, h.entries]
      constructor
      · rintro ⟨o', ho', rfl, he⟩
        refine ⟨o', mem_removeOrder.mpr ⟨ho', fun hh => ?_⟩, rfl, he⟩
        rw [hv.order_eq ho' ho hh] at heq
        exact heq rfl
      · rintro ⟨o', ho', hid', he⟩
        exact ⟨o', (mem_removeOrder.mp ho').1, hid', he⟩
  · obtain ⟨m, hm, rfl, _⟩ := mem_dropOrder.mp (levels_removeOrder v o ▸ hl)
    exact (h.fifo m hm).sublist (List.filter_sublist.map _)

theorem withQty_entry (h : OrderPtr) (qty : Quantity) (o : OrderView) :
    (withQty h qty o).entry = if o.handle = h then { o.entry with qty := qty } else o.entry := by
  unfold withQty
  split <;> rfl

theorem Feeds.setQty (h : v.Feeds n) (hv : v.Valid) (hn : v.Numbered n) (ho : o ∈ v.orders)
    {ms : List Message} (hms : updates ms = [u]) (htype : u.type = .modify)
    (hid : u.orderId = o.marketOrderId) (hside : u.side = o.side) (hprice : u.price = o.price) :
    ((v.setQty o.handle u.qty).send ms).Feeds n := by
  refine h.advance le_rfl (u := u) ?_ (h.follows ho (by rw [htype]; decide) hid hside hprice)
    ((hn.setQty _ _).send ms) (fun id e => ?_) fun l hl => ?_
  · rw [updates_send, hms]
    rfl
  · have hmem : ∀ o', o' ∈ (v.setQty o.handle u.qty).orders ↔
        ∃ o₁ ∈ v.orders, withQty o.handle u.qty o₁ = o' := by
      intro o'
      rw [orders_setQty, List.mem_map]
    rw [Feed.apply, if_neg (by rw [htype]; decide), if_pos htype, hid, h.entry ho]
    by_cases heq : id = o.marketOrderId
    · subst heq
      rw [Function.update_self]
      constructor
      · intro he
        refine ⟨_, (hmem _).mpr ⟨o, ho, rfl⟩, withQty_id .., ?_⟩
        rw [withQty_entry, if_pos rfl, ← Option.some.inj he, hprice]
        rfl
      · rintro ⟨o', ho', hid', he⟩
        obtain ⟨o₁, ho₁, rfl⟩ := (hmem o').mp ho'
        rw [withQty_id] at hid'
        obtain rfl := hn.eq_of_id ho₁ ho hid'
        rw [withQty_entry, if_pos rfl] at he
        rw [← he, hprice]
        rfl
    · rw [Function.update_of_ne heq, h.entries]
      have hne : ∀ o' ∈ v.orders, o'.marketOrderId = id → o'.handle ≠ o.handle := by
        rintro o' ho' rfl hh
        rw [hv.order_eq ho' ho hh] at heq
        exact heq rfl
      constructor
      · rintro ⟨o', ho', hid', he⟩
        refine ⟨_, (hmem _).mpr ⟨o', ho', rfl⟩, (withQty_id ..).trans hid', ?_⟩
        rw [withQty_entry, if_neg (hne o' ho' hid'), he]
      · rintro ⟨o', ho', hid', he⟩
        obtain ⟨o₁, ho₁, rfl⟩ := (hmem o').mp ho'
        rw [withQty_id] at hid'
        rw [withQty_entry, if_neg (hne o₁ ho₁ hid')] at he
        exact ⟨o₁, ho₁, hid', he⟩
  · change l ∈ (v.setQty o.handle u.qty).levels at hl
    obtain ⟨m, hm, rfl⟩ := List.mem_map.mp (levels_setQty v _ _ ▸ hl)
    have hids : (m.setQty o.handle u.qty).orders.map (·.marketOrderId) =
        m.orders.map (·.marketOrderId) := by
      change (m.orders.map (withQty o.handle u.qty)).map _ = _
      rw [List.map_map]
      exact List.map_congr_left fun o' _ => withQty_id _ _ o'
    rw [hids]
    exact h.fifo m hm

/-- The next id is above all ids in the book. -/
theorem fifo_addOrder (h : v.Feeds n) (hv : v.Valid) (hn : v.Numbered n) (hlt : n + 1 < 2 ^ 64)
    (same : v.SameSide o.side o.price) (hid : o.marketOrderId = UInt64.ofNat (n + 1)) :
    ∀ l ∈ (v.place o).levels, (l.orders.map (·.marketOrderId)).Pairwise (· < ·) := by
  have habove : ∀ o' ∈ v.orders, o'.marketOrderId < o.marketOrderId := by
    intro o' ho'
    rw [UInt64.lt_iff_toNat_lt, hid, UInt64.toNat_ofNat', Nat.mod_eq_of_lt hlt]
    exact Nat.lt_succ_of_le ((hn.born o' ho').toNat_le (by omega))
  intro l hl
  rcases hv.place_cases same with ⟨m, _, _, _, heq⟩ | ⟨p, ls, _, _, heq⟩
  · rw [heq, levels_appended] at hl
    obtain ⟨k, hk, rfl⟩ := List.mem_map.mp hl
    split
    · rw [LevelView.append, List.map_append, List.pairwise_append]
      refine ⟨h.fifo k hk, List.pairwise_singleton _ _, ?_⟩
      intro x hx y hy
      obtain ⟨o', ho', rfl⟩ := List.mem_map.mp hx
      rw [List.mem_singleton.mp hy]
      exact habove o' (v.mem_orders.mpr ⟨k, hk, ho'⟩)
    · exact h.fifo k hk
  · rw [heq] at hl
    rcases List.mem_cons.mp ((levels_newLevel v p ls o).mem_iff.mp hl) with rfl | hl
    · exact List.pairwise_singleton _ _
    · exact h.fifo l hl

theorem Feeds.addOrder (h : v.Feeds n) (hv : v.Valid) (hn : v.Numbered n) (hlt : n + 1 < 2 ^ 64)
    (same : v.SameSide o.side o.price) (hid : o.marketOrderId = UInt64.ofNat (n + 1))
    (rest : List OrderPtr) {ms : List Message}
    (hms : updates ms = [⟨.add, o.marketOrderId, v.instrumentId, o.side, o.price, o.qty,
      o.priority⟩]) :
    (({ v.addOrder o with freeOrders := rest } : BookView).send ms).Feeds (n + 1) := by
  have hperm := hv.perm_place same
  have hfresh : ¬ Seen (updates v.sent) o.marketOrderId := fun hseen =>
    not_born_next (by omega) (hid ▸ h.seen _ hseen)
  have hnum := hn.addOrder hv (by omega) hid same
  refine h.advance (Nat.le_succ n) ?_ ⟨fun _ => not_seen hfresh, fun ht => ?_⟩
    ⟨hnum.ids, hnum.born⟩ (fun id e => ?_) (fifo_addOrder h hv hn hlt same hid)
    (u := ⟨.add, o.marketOrderId, v.instrumentId, o.side, o.price, o.qty, o.priority⟩)
  · change updates ((v.place o).sent ++ ms) = _
    rw [updates_append, hms, (place_sent v o).1]
  · exact absurd (show MarketUpdateType.add = .modify ∨ MarketUpdateType.add = .cancel from ht)
      (by decide)
  · change (feed (updates v.sent)).apply _ id = some e ↔
      ∃ o' ∈ (v.place o).orders, o'.marketOrderId = id ∧ o'.entry = e
    rw [Feed.apply, if_pos rfl]
    simp only [hperm.mem_iff, List.mem_cons, exists_eq_or_imp]
    by_cases heq : id = o.marketOrderId
    · subst heq
      rw [Function.update_self]
      constructor
      · exact fun he => Or.inl ⟨rfl, Option.some.inj he⟩
      · rintro (⟨_, he⟩ | ⟨o', ho', heq, _⟩)
        · exact congrArg some he
        · exact absurd (Seen.of_present (heq ▸ h.entry ho')) hfresh
    · rw [Function.update_of_ne heq, h.entries]
      constructor
      · exact Or.inr
      · rintro (⟨heq', _⟩ | hold)
        · exact absurd heq'.symm heq
        · exact hold

theorem tracks_feeds : Tracks (2 ^ 64 - 1) Feeds fun _ v n _ => v.Feeds n where
  accepted v n a quantity _ h _ _ _ _ := by
    have hsent : updates (v.accepted a.clientId a.clientOrderId a.side a.price quantity).sent =
        updates v.sent := (updates_append ..).trans (List.append_nil _)
    exact ⟨by rw [hsent]; exact h.entries, by rw [hsent]; exact h.wellFormed,
      by rw [hsent]; exact h.seen, h.fifo⟩
  fill v n a leavesQty o hv _ hn h _ _ _ _ ho _ := by
    -- the two responses and the trade first, then the update on the resting order
    have htrade := h.trade hn
      (executionMessages v.instrumentId a leavesQty o.toOrderFields (min leavesQty o.qty))
      (u := ⟨.trade, invalidOrderId, v.instrumentId, a.side, o.price, min leavesQty o.qty,
        invalidPriority⟩) rfl rfl
    by_cases hzero : o.qty - min leavesQty o.qty = 0
    · rw [fill_whole v a leavesQty o hzero]
      exact htrade.removeOrder (hv.send _) (hn.send _) ho (u := ⟨.cancel, o.marketOrderId,
        v.instrumentId, o.side, o.price, o.qty, o.priority⟩) rfl rfl rfl rfl rfl
    · rw [fill_part v a leavesQty o hzero]
      exact htrade.setQty (hv.send _) (hn.send _) ho (u := ⟨.modify, o.marketOrderId,
        v.instrumentId, o.side, o.price, o.qty - min leavesQty o.qty, o.priority⟩)
        rfl rfl rfl rfl rfl
  filled v n _ h :=
    ⟨h.entries, h.wellFormed, fun id hs => (h.seen id hs).mono (Nat.le_succ n), h.fifo⟩
  book v n a leavesQty p rest hv hn h hlt hid _ hfree hprice := by
    rw [book_eq hfree]
    exact h.addOrder hv hn (by omega) (o := v.bookedOrder p a.clientId a.clientOrderId
      a.marketOrderId a.side a.price leavesQty) hprice.same hid rest rfl
  cancelOrder v n _ _ o hv hn h ho := h.removeOrder hv hn ho (u := ⟨.cancel, o.marketOrderId,
    v.instrumentId, o.side, o.price, 0, o.priority⟩) rfl rfl rfl rfl rfl
  reduce v n _ _ o newQuantity hv hn h ho _ := h.setQty hv hn ho (u := ⟨.modify, o.marketOrderId,
    v.instrumentId, o.side, o.price, newQuantity, o.priority⟩) rfl rfl rfl rfl rfl
  reject v n _ _ _ _ h := h.respond rfl

end Feeds

end BookView

section Run
variable {fuel : Nat} {i : InstrumentId} {rs : List OrderBook.BookRequest} {s : OrderBook}
  {v : BookView}

/-- The orders of the view are the resting ones of the heap. -/
theorem mem_orders_iff (hr : Represents s v) (hv : v.Valid) {p : OrderPtr} :
    p ∈ s.resting ↔ ∃ o ∈ v.orders, o.handle = p ∧ (s.order p).toOrderFields = o.toOrderFields := by
  rw [mem_resting_iff hr hv, List.mem_map]
  constructor
  · rintro ⟨o, ho, rfl⟩
    exact ⟨o, ho, rfl, hr.fields ho⟩
  · rintro ⟨o, ho, rfl, _⟩
    exact ⟨o, ho, rfl⟩

theorem feed_increasing (hr : Represents s v)
    (fifo : ∀ l ∈ v.levels, (l.orders.map (·.marketOrderId)).Pairwise (· < ·)) {side : Side}
    {l : LevelPtr} {first p q : OrderPtr} (hl : s.LevelOf side l)
    (hfirst : (s.level l).firstOrder = some first) (hp : s.RestsAt l p)
    (hq : (s.order p).nextOrder = some q) (hne : q ≠ first) :
    (s.order p).marketOrderId < (s.order q).marketOrderId := by
  obtain ⟨m, hm, rfl⟩ := (levelOf_iff hr).mp hl
  have hml := v.own_subset side hm
  obtain ⟨_, _, hhead, hring, hfields⟩ := hr.level m hml
  obtain ⟨first', hfirst', hreach⟩ := hp
  cases hfirst.symm.trans hfirst'
  rcases horders : m.orders with _ | ⟨o, os⟩
  · rw [hhead, horders] at hfirst
    cases hfirst
  have hsorted : (m.orders.map (·.handle)).Pairwise
      fun p q => (s.order p).marketOrderId < (s.order q).marketOrderId := by
    rw [List.pairwise_map]
    refine (List.pairwise_map.mp (fifo m hml)).imp_of_mem fun {o₁ o₂} h₁ h₂ hlt => ?_
    rwa [hfields o₁ h₁, hfields o₂ h₂]
  rw [hhead] at hfirst
  rw [horders] at hring hsorted hfirst
  cases hfirst
  have hlt := hring.rel_of_next hsorted ((hring.reaches_iff p).mp hreach) hq hne
  exact hlt

/-- After every call the feed shows the resting orders, each update fits the feed before
it, and the rings are in the order of the ids. -/
theorem keepsPrices_feed (hfuel : maxNumOrders < fuel)
    (h : Reached (OrderBook.call fuel) (OrderBook.KeepsPrices fuel) (.create i) rs s)
    (hids : accepts s.sent < 2 ^ 64) :
    (∀ id e, feed (updates s.sent) id = some e ↔
      ∃ p ∈ s.resting, (s.order p).marketOrderId = id ∧ (s.order p).entry = e) ∧
    (∀ p ∈ s.resting, ∀ q ∈ s.resting,
      (s.order p).marketOrderId = (s.order q).marketOrderId → p = q) ∧
    WellFormed (updates s.sent) ∧
    ∀ side l first p q, s.LevelOf side l → (s.level l).firstOrder = some first →
      s.RestsAt l p → (s.order p).nextOrder = some q → q ≠ first →
      (s.order p).marketOrderId < (s.order q).marketOrderId := by
  obtain ⟨hr, hv, ht⟩ := keepsPrices_tracked tracks_feeds (by decide) (create_feeds i) hfuel h
  rw [hr.sent] at hids ⊢
  obtain ⟨hnum, hf⟩ := ht.tracked (Nat.le_sub_one_of_lt hids)
  refine ⟨fun id e => ?_, fun p hp q hq heq => ?_, hf.wellFormed,
    fun _ _ _ _ _ hl hfirst hp hq hne => feed_increasing hr hf.fifo hl hfirst hp hq hne⟩
  · rw [hf.entries]
    constructor
    · rintro ⟨o, ho, hid, he⟩
      refine ⟨o.handle, (mem_orders_iff hr hv).mpr ⟨o, ho, rfl, hr.fields ho⟩, ?_⟩
      rw [hr.fields ho]
      exact ⟨hid, he⟩
    · rintro ⟨p, hp, hid, he⟩
      obtain ⟨o, ho, rfl, hfields⟩ := (mem_orders_iff hr hv).mp hp
      rw [hfields] at hid he
      exact ⟨o, ho, hid, he⟩
  · obtain ⟨o, ho, rfl, hfields⟩ := (mem_orders_iff hr hv).mp hp
    obtain ⟨o', ho', rfl, hfields'⟩ := (mem_orders_iff hr hv).mp hq
    rw [hfields, hfields'] at heq
    rw [hnum.eq_of_id ho ho' heq]

/-- The hypotheses are met by a run with a partial fill, a reduction and a requeueing. -/
theorem keepsPrices_feed_sample : ∃ s,
    Reached (OrderBook.call 3000) (OrderBook.KeepsPrices 3000) (.create 0)
      [.add 1 1 .sell 12 8, .add 2 1 .buy 12 5, .modify 1 1 12 2, .add 3 1 .sell 12 4,
        .modify 1 1 13 2] s ∧
    feed (updates s.sent) 3 = some ⟨.sell, 12, 4, 2⟩ ∧
    WellFormed (updates s.sent) := by
  obtain ⟨s, hs, hcheck⟩ := @reached_of_any _ _ _ (OrderBook.call 3000)
    (OrderBook.KeepsPrices 3000) (.create 0)
    [.add 1 1 .sell 12 8, .add 2 1 .buy 12 5, .modify 1 1 12 2, .add 3 1 .sell 12 4,
      .modify 1 1 13 2] _
    (fun s => accepts s.sent < 2 ^ 64 ∧ feed (updates s.sent) 3 = some ⟨.sell, 12, 4, 2⟩)
    (by decide +kernel)
  simp only [decide_eq_true_eq] at hcheck
  exact ⟨s, hs, hcheck.2, (keepsPrices_feed (by decide) hs hcheck.1).2.2.1⟩

/-- Once the counter has come round, an `ADD` names the id of a resting order. -/
theorem onceAround_feed : ∃ s,
    Reached (OrderBook.call 3000) (fun s r => s.WithinPools 3000 r ∧ s.KeepsPrices 3000 r)
      (.create 0) onceAround s ∧
    ¬ WellFormed (updates s.sent) := by
  obtain ⟨s, ms, hs, hsent⟩ := @onceAround_reached 3000 (by decide)
  refine ⟨s, hs, fun hwell => ?_⟩
  have hupdates : updates s.sent = (⟨.add, 1, 0, .buy, 10, 5, 1⟩ :: updates ms) ++
      [⟨.add, 1, 0, .buy, 10, 5, 2⟩] := by
    rw [hsent, updates_append, updates_append, updates_append]
    simp [updates]
  have hfresh := (hwell _ _ [] hupdates).fresh rfl [⟨.add, 1, 0, .buy, 10, 5, 1⟩]
    (List.cons_prefix_cons.mpr ⟨rfl, List.nil_prefix⟩)
  exact absurd hfresh (by decide)

end Run

end StockExchange
