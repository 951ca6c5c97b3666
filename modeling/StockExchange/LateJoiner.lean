import StockExchange.BookQueues
import StockExchange.ClientReplica
import StockExchange.MarketDataNetwork
import StockExchange.OrderManager

/-!
# A client that joins late

The trade engine hands each update to the book of its instrument. A client that missed the
first updates is sent the live orders again, by increasing id and not in the order of the
levels; its books have the same levels as those of the exchange, order for order.
-/

namespace StockExchange

open Bytes BookView Replay Transitions FeedHandler

/-- The books of a trade engine. -/
structure InstrumentOrderBooks where
  instrumentOrderBook : Nat → MarketOrderBook

namespace InstrumentOrderBooks

def create : InstrumentOrderBooks := ⟨fun i => .create (UInt8.ofNat i)⟩

def setOrderBook (c : InstrumentOrderBooks) (i : Nat) (m : MarketOrderBook) :
    InstrumentOrderBooks := ⟨Function.update c.instrumentOrderBook i m⟩

/-- The loop of `trade_engine::run` over the market updates, once. -/
def onMarketUpdate (fuel : Nat) (c : InstrumentOrderBooks) (u : MarketUpdate) :
    Except Fault InstrumentOrderBooks := do
  let i ← instrumentAt u.instrumentId
  let m ← (c.instrumentOrderBook i).onMarketUpdate fuel u
  .ok (c.setOrderBook i m)

def run (fuel : Nat) : InstrumentOrderBooks → List MarketUpdate → Except Fault InstrumentOrderBooks
  | c, [] => .ok c
  | c, u :: us => do
    let c ← c.onMarketUpdate fuel u
    run fuel c us

section Dispatch
variable {fuel : Nat} {c : InstrumentOrderBooks} {us : List MarketUpdate}

theorem setOrderBook_self (c : InstrumentOrderBooks) (i : Nat) (m : MarketOrderBook) :
    (c.setOrderBook i m).instrumentOrderBook i = m := Function.update_self ..

theorem setOrderBook_ne (c : InstrumentOrderBooks) {i j : Nat} (hne : j ≠ i)
    (m : MarketOrderBook) :
    (c.setOrderBook i m).instrumentOrderBook j = c.instrumentOrderBook j :=
  Function.update_of_ne hne ..

/-- Every book is given the updates of its instrument. -/
theorem run_apart (hnames : ∀ u ∈ us, u.instrumentId.toNat < maxNumInstruments)
    (hbooks : ∀ i < maxNumInstruments, ∃ m,
      (c.instrumentOrderBook i).run fuel (ofInstrument (UInt8.ofNat i) us) = .ok m) :
    ∃ c', c.run fuel us = .ok c' ∧ ∀ i < maxNumInstruments,
      (c.instrumentOrderBook i).run fuel (ofInstrument (UInt8.ofNat i) us) =
        .ok (c'.instrumentOrderBook i) := by
  induction us generalizing c with
  | nil => exact ⟨c, rfl, fun i _ => rfl⟩
  | cons u us ih =>
    have hi := hnames u List.mem_cons_self
    have hown : ofInstrument (UInt8.ofNat u.instrumentId.toNat) (u :: us) =
        u :: ofInstrument (UInt8.ofNat u.instrumentId.toNat) us := by
      exact List.filter_cons_of_pos (decide_eq_true UInt8.ofNat_toNat.symm)
    have hother : ∀ j < maxNumInstruments, j ≠ u.instrumentId.toNat →
        ofInstrument (UInt8.ofNat j) (u :: us) = ofInstrument (UInt8.ofNat j) us := by
      intro j hj hne
      refine List.filter_cons_of_neg fun heq => hne ?_
      rw [of_decide_eq_true heq, UInt8.toNat_ofNat']
      exact (Nat.mod_eq_of_lt (Nat.lt_trans hj (by decide))).symm
    obtain ⟨m, hm⟩ := hbooks _ hi
    rw [hown, MarketOrderBook.run] at hm
    obtain ⟨m₁, hm₁, hm⟩ := bind_eq_ok.mp hm
    have hnext : ∀ j < maxNumInstruments,
        (c.instrumentOrderBook j).run fuel (ofInstrument (UInt8.ofNat j) (u :: us)) =
          ((c.setOrderBook u.instrumentId.toNat m₁).instrumentOrderBook j).run fuel
            (ofInstrument (UInt8.ofNat j) us) := by
      intro j hj
      by_cases heq : j = u.instrumentId.toNat
      · subst heq
        rw [hown, c.setOrderBook_self, MarketOrderBook.run, hm₁, ok_bind]
      · rw [hother j hj heq, c.setOrderBook_ne heq]
    have hstep : c.onMarketUpdate fuel u = .ok (c.setOrderBook u.instrumentId.toNat m₁) := by
      rw [onMarketUpdate, instrumentAt, if_pos hi, ok_bind, hm₁, ok_bind]
    obtain ⟨c', hrun, hall⟩ := ih (c := c.setOrderBook u.instrumentId.toNat m₁)
      (fun v hv => hnames v (List.mem_cons_of_mem u hv)) fun j hj => by
        rw [← hnext j hj]
        exact hbooks j hj
    refine ⟨c', by rw [run, hstep, ok_bind, hrun], fun j hj => ?_⟩
    rw [hnext j hj]
    exact hall j hj

end Dispatch

end InstrumentOrderBooks

/-! ## The live orders once more -/

section Resent
variable {i : InstrumentId} {b : PublicBook} {os ws : List MarketUpdate} {u : MarketUpdate}

namespace PublicBook

theorem own_sell {side : Side} (h : side ≠ .buy) (b : PublicBook) :
    b.own side = b.own .sell := by
  rw [own, if_neg h]
  rfl

/-- A level is there for one of its orders. -/
theorem Reads.exists_order (h : Reads i b os) {side : Side} {l : PublicLevel}
    (hl : l ∈ b.own side) : ∃ o ∈ os, o.price = l.price ∧ (o.side = .buy ↔ side = .buy) := by
  have hside : ∃ side', Named side' ∧ l ∈ b.own side' ∧ (side' = .buy ↔ side = .buy) := by
    by_cases hs : side = .buy
    · exact ⟨.buy, .inl rfl, hs ▸ hl, by simp [hs]⟩
    · exact ⟨.sell, .inr rfl, own_sell hs b ▸ hl, by simp [hs]⟩
  obtain ⟨side', hnamed, hl', hiff⟩ := hside
  obtain ⟨hne, heq⟩ := (h.levels side' hnamed l).mp hl'
  obtain ⟨o, ho⟩ := List.exists_mem_of_ne_nil _
    (fun hnil => hne (heq.trans (congrArg (List.map MarketUpdate.asMarket) hnil)))
  obtain ⟨hmem, hs, hp⟩ := mem_queue.mp ho
  exact ⟨o, hmem, hp, hs ▸ hiff⟩

/-- Two orders share a slot only if they share side and price. -/
theorem Reads.same_slot (h : Reads i b os) {o o' : MarketUpdate} (ho : o ∈ os) (ho' : o' ∈ os)
    (hslot : priceToIndex o.price = priceToIndex o'.price) :
    o.price = o'.price ∧ (o.side = .buy ↔ o'.side = .buy) := by
  have hprice : ∀ o ∈ os, o.price ∈ b.prices o.side := fun o ho =>
    List.mem_map.mpr ⟨⟨o.price, (queue os o.side o.price).map MarketUpdate.asMarket⟩,
      (h.levels _ (h.named o ho) _).mpr ⟨List.ne_nil_of_mem
        (List.mem_map_of_mem (mem_queue.mpr ⟨ho, rfl, rfl⟩)), rfl⟩, rfl⟩
  exact h.slots _ _ _ (hprice o ho) _ (hprice o' ho') hslot

/-- New orders fit one after the other. -/
theorem Reads.adds (h : Reads i b os) (hinstrument : ∀ w ∈ ws, w.instrumentId = i)
    (htype : ∀ w ∈ ws, w.type = .add) (hnamed : ∀ w ∈ ws, Named w.side)
    (hids : ((os ++ ws).map (·.orderId)).Nodup)
    (hslots : ∀ o ∈ os ++ ws, ∀ w ∈ ws, priceToIndex o.price = priceToIndex w.price →
      o.price = w.price ∧ (o.side = .buy ↔ w.side = .buy)) :
    b.AdmitsAll ws ∧ Reads i (ws.foldl PublicBook.apply b) (os ++ ws) := by
  induction ws generalizing b os with
  | nil => exact ⟨trivial, by rwa [List.append_nil]⟩
  | cons w ws ih =>
    have hmem : w ∈ os ++ w :: ws := List.mem_append_right _ List.mem_cons_self
    have htype' := htype w List.mem_cons_self
    have hfresh : ∀ o ∈ os, o.orderId ≠ w.orderId := by
      intro o ho heq
      rw [List.map_append, List.map_cons] at hids
      exact (List.nodup_append.mp hids).2.2 _ (List.mem_map_of_mem ho) _ List.mem_cons_self heq
    have hfits : b.Admits w := {
      type := by rw [htype']; decide
      fresh _ x hx hid := by
        obtain ⟨o, ho, rfl⟩ := h.mem_orders.mp hx
        exact hfresh o ho hid
      sided _ := hnamed w List.mem_cons_self
      slot _ side l hl hindex := by
        obtain ⟨o, ho, hp, hs⟩ := h.exists_order hl
        rw [← hp] at hindex ⊢
        obtain ⟨heq, hsame⟩ := hslots o (List.mem_append_left _ ho) w List.mem_cons_self hindex
        exact ⟨heq, hs.symm.trans hsame⟩
      present hchange := by
        rw [htype'] at hchange
        rcases hchange with hchange | hchange <;> exact absurd hchange (by decide)
      empty hclear := absurd (htype'.symm.trans hclear) (by decide) }
    have hstep := h.step (hinstrument w List.mem_cons_self) hfits
    rw [Replay.apply_add htype'] at hstep
    obtain ⟨hall, hreads⟩ := ih hstep (fun v hv => hinstrument v (List.mem_cons_of_mem w hv))
      (fun v hv => htype v (List.mem_cons_of_mem w hv))
      (fun v hv => hnamed v (List.mem_cons_of_mem w hv))
      (by rwa [List.append_assoc, List.singleton_append])
      (fun o ho v hv => by
        rw [List.append_assoc, List.singleton_append] at ho
        exact hslots o ho v (List.mem_cons_of_mem w hv))
    rw [List.append_assoc, List.singleton_append] at hreads
    exact ⟨⟨hfits, hall⟩, hreads⟩

/-- The live orders once more, after a `CLEAR`, in whatever order. -/
theorem Reads.resent (h : Reads i b os) (htype : ∀ o ∈ os, o.type = .add)
    (hclear : u.type = .clear) (hids : (ws.map (·.orderId)).Nodup) (hws : ∀ w ∈ ws, w ∈ os) :
    AdmitsAll .empty (u :: ws) ∧ Reads i (publicBook (u :: ws)) ws := by
  have hstart : PublicBook.apply .empty u = .empty := apply_clear hclear
  have hadmits : PublicBook.empty.Admits u := {
    type := by rw [hclear]; decide
    fresh hadd := absurd (hclear.symm.trans hadd) (by decide)
    sided hadd := absurd (hclear.symm.trans hadd) (by decide)
    slot hadd := absurd (hclear.symm.trans hadd) (by decide)
    present hchange := by
      rw [hclear] at hchange
      rcases hchange with hchange | hchange <;> exact absurd hchange (by decide)
    empty _ := rfl }
  obtain ⟨hall, hreads⟩ := (Reads.empty i).adds
    (fun w hw => h.instrument w (hws w hw)) (fun w hw => htype w (hws w hw))
    (fun w hw => h.named w (hws w hw)) hids
    (fun o ho w hw => h.same_slot (hws o ho) (hws w hw))
  refine ⟨⟨hadmits, ?_⟩, ?_⟩
  · rw [hstart]
    exact hall
  · rw [publicBook, List.foldl_cons, hstart]
    exact hreads

end PublicBook

end Resent

/-! ## One instrument of the stream -/

section Instrument
variable {i : InstrumentId} {os us vs : List MarketUpdate} {u : MarketUpdate}

theorem ofInstrument_patch (i : InstrumentId) (u : MarketUpdate) (os : List MarketUpdate) :
    ofInstrument i (os.map (patch u)) = (ofInstrument i os).map (patch u) := by
  have hpatch : ∀ o, (patch u o).instrumentId = o.instrumentId := by
    intro o
    rw [patch]
    split <;> rfl
  rw [ofInstrument, List.filter_map, ofInstrument]
  refine congrArg _ (List.filter_congr fun o _ => ?_)
  rw [Function.comp_apply, hpatch]

theorem ofInstrument_singleton (i : InstrumentId) (u : MarketUpdate) :
    ofInstrument i [u] = if u.instrumentId = i then [u] else [] := by
  by_cases hi : u.instrumentId = i <;> simp [ofInstrument, hi]

/-- An update changes the orders of its own instrument only. -/
theorem ofInstrument_apply (i : InstrumentId) (os : List MarketUpdate) (u : MarketUpdate) :
    ofInstrument i (Replay.apply os u) =
      if u.instrumentId = i then Replay.apply (ofInstrument i os) u else ofInstrument i os := by
  have hown : ∀ o ∈ ofInstrument i os, o.instrumentId = i := fun o ho =>
    of_decide_eq_true (List.mem_filter.mp ho).2
  have hother : u.instrumentId ≠ i → ∀ o ∈ ofInstrument i os, ¬ SameOrder u o :=
    fun hne o ho hs => hne (hs.1.symm.trans (hown o ho))
  by_cases hi : u.instrumentId = i
  · rw [if_pos hi, Replay.apply, Replay.apply]
    split_ifs
    · rw [Exchange.ofInstrument_append, ofInstrument_singleton, if_pos hi]
    · exact ofInstrument_patch i u os
    · exact List.filter_comm ..
    · exact List.filter_comm ..
    · rfl
  · rw [if_neg hi, Replay.apply]
    split_ifs
    · rw [Exchange.ofInstrument_append, ofInstrument_singleton, if_neg hi, List.append_nil]
    · rw [ofInstrument_patch]
      exact (List.map_congr_left fun o ho => patch_other (hother hi o ho)).trans (List.map_id _)
    · rw [ofInstrument, List.filter_comm]
      exact List.filter_eq_self.mpr fun o ho => decide_eq_true (hother hi o ho)
    · rw [ofInstrument, List.filter_comm]
      exact List.filter_eq_self.mpr fun o ho => decide_eq_true fun heq =>
        hi (heq.symm.trans (hown o ho))
    · rfl

theorem replay_ofInstrument (i : InstrumentId) (us : List MarketUpdate) :
    replay (ofInstrument i us) = ofInstrument i (replay us) := by
  induction us using List.reverseRecOn with
  | nil => rfl
  | append_singleton us u ih =>
    rw [Exchange.ofInstrument_append, replay_append, replay_append, ih, List.foldl_cons,
      List.foldl_nil, ofInstrument_apply, ofInstrument_singleton]
    split <;> rfl

/-- Of lists for one instrument each, the list of one of them. -/
theorem ofInstrument_flatMap {f : Nat → List MarketUpdate} {n : Nat} (hn : n ≤ 256)
    (hf : ∀ j < n, ∀ o ∈ f j, o.instrumentId = UInt8.ofNat j) {k : Nat} (hk : k < n) :
    ofInstrument (UInt8.ofNat k) ((List.range n).flatMap f) = f k := by
  induction n with
  | zero => omega
  | succ n ih =>
    rw [List.range_succ, List.flatMap_append, List.flatMap_singleton,
      Exchange.ofInstrument_append]
    by_cases heq : k = n
    · subst heq
      have hnone : ofInstrument (UInt8.ofNat k) ((List.range k).flatMap f) = [] := by
        refine List.filter_eq_nil_iff.mpr fun o ho hmark => ?_
        obtain ⟨j, hj, ho⟩ := List.mem_flatMap.mp ho
        have hlt := List.mem_range.mp hj
        exact ofNat_ne (by omega) (by omega) (by omega)
          ((hf j (by omega) o ho).symm.trans (of_decide_eq_true hmark))
      rw [hnone, List.nil_append]
      exact List.filter_eq_self.mpr fun o ho => decide_eq_true (hf k hk o ho)
    · have hnone : ofInstrument (UInt8.ofNat k) (f n) = [] := by
        refine List.filter_eq_nil_iff.mpr fun o ho hmark => ?_
        exact ofNat_ne (by omega) (by omega) heq
          ((of_decide_eq_true hmark).symm.trans (hf n (Nat.lt_succ_self n) o ho))
      rw [hnone, List.append_nil]
      exact ih (by omega) (fun j hj => hf j (Nat.lt_succ_of_lt hj)) (by omega)

theorem queue_ofInstrument (i : InstrumentId) (os : List MarketUpdate) (side : Side)
    (price : Price) : queue (ofInstrument i os) side price = level os i side price := by
  rw [queue, ofInstrument, List.filter_filter, level]
  refine List.filter_congr fun o _ => ?_
  rw [← Bool.decide_and]
  exact decide_eq_decide.mpr and_comm

theorem admitsAll_take (ha : PublicBook.AdmitsAll .empty (ofInstrument i us)) (n : Nat) :
    PublicBook.AdmitsAll .empty (ofInstrument i (us.take n)) := by
  rw [← List.take_append_drop n us, Exchange.ofInstrument_append] at ha
  exact (PublicBook.admitsAll_append.mp ha).1

/-- The levels are the queues of the live orders. -/
theorem reads_stream (ha : PublicBook.AdmitsAll .empty (ofInstrument i us)) :
    PublicBook.Reads i (publicBook (ofInstrument i us)) (ofInstrument i (replay us)) := by
  rw [← replay_ofInstrument]
  exact (PublicBook.Reads.empty i).run (fun u hu => of_decide_eq_true (List.mem_filter.mp hu).2) ha

end Instrument

section Incoming
variable {us : List MarketUpdate} {h : FeedHandler} {t : SnapshotSynthesizer} {s : Snapshot}
  {i n : Nat}

theorem ofInstrument_content (hholds : t.Holds us) (hs : s.updates = t.messages)
    (hi : i < maxNumInstruments) :
    ofInstrument (UInt8.ofNat i) s.content = SnapshotSynthesizer.clearUpdate i :: t.stored i := by
  rw [MarketDataNetwork.content_eq hs]
  refine ofInstrument_flatMap (by decide) (fun j _ o ho => ?_) hi
  rcases List.mem_cons.mp ho with rfl | ho
  · rfl
  · rw [← (hholds.mem_stored.mp ho).2, UInt8.ofNat_toNat]

theorem ofInstrument_liveOrders (hholds : t.Holds us) (hi : i < maxNumInstruments) :
    ofInstrument (UInt8.ofNat i) t.liveOrders = t.stored i :=
  ofInstrument_flatMap (by decide) (fun j _ o ho => by
    rw [← (hholds.mem_stored.mp ho).2, UInt8.ofNat_toNat]) hi

/-- The content of a snapshot fits an empty book and leaves the levels of the exchange. -/
theorem content_similar (hi : i < maxNumInstruments)
    (ha : PublicBook.AdmitsAll .empty (ofInstrument (UInt8.ofNat i) us))
    (hqueued : Queued (replay us)) (hholds : t.Holds (replay us)) (hs : s.updates = t.messages) :
    PublicBook.AdmitsAll .empty (ofInstrument (UInt8.ofNat i) s.content) ∧
      (publicBook (ofInstrument (UInt8.ofNat i) s.content)).Similar
        (publicBook (ofInstrument (UInt8.ofNat i) us)) := by
  have hreads := reads_stream ha
  have hids : ((t.stored i).map (·.orderId)).Nodup :=
    List.pairwise_map.mpr ((hholds.stored_sorted i).imp fun {a b} hlt (heq : a.orderId = _) =>
      UInt64.lt_irrefl _ (heq ▸ hlt))
  have hmem : ∀ o ∈ t.stored i, o ∈ ofInstrument (UInt8.ofNat i) (replay us) := by
    intro o ho
    obtain ⟨hlive, hown⟩ := hholds.mem_stored.mp ho
    refine List.mem_filter.mpr ⟨hlive, decide_eq_true ?_⟩
    rw [← hown, UInt8.ofNat_toNat]
  rw [ofInstrument_content hholds hs hi]
  obtain ⟨hall, hresent⟩ := hreads.resent (u := SnapshotSynthesizer.clearUpdate i)
    (fun o ho => replay_type us o (List.mem_filter.mp ho).1) rfl hids hmem
  refine ⟨hall, hresent.similar hreads fun side price => ?_⟩
  rw [queue_ofInstrument, hholds.sameBooks hqueued, ← queue_ofInstrument,
    ofInstrument_liveOrders hholds hi]

/-- A client that has been passed on nothing before the snapshot. -/
def JoinsLate (h : FeedHandler) : Prop :=
  h.snapshotFeed = .closed → ∀ u ∈ h.incomingUpdates.head?, u.type = .clear

/-- What has been passed on fits the books of the client, and describes those of the exchange
after `n` updates. -/
theorem conveys_similar (hi : i < maxNumInstruments) (hvalid : ValidReplay us)
    (ha : PublicBook.AdmitsAll .empty (ofInstrument (UInt8.ofNat i) us))
    (hqueued : ∀ k, Queued (replay (us.take k))) (hlate : JoinsLate h) (hc : Conveys us h n) :
    PublicBook.AdmitsAll .empty (ofInstrument (UInt8.ofNat i) h.incomingUpdates) ∧
      (publicBook (ofInstrument (UInt8.ofNat i) h.incomingUpdates)).Similar
        (publicBook (ofInstrument (UInt8.ofNat i) (us.take n))) := by
  rw [Conveys] at hc
  split at hc
  · rename_i hclosed
    obtain ⟨n₀, -, s, ⟨-, t, hholds, hupdates⟩, hlast, hincoming⟩ := hc
    have hnone : us.take n₀ = [] := by
      rcases us with _ | ⟨u, us⟩
      · exact List.take_nil
      rcases n₀ with _ | n₀
      · rfl
      have hclear : u.type = .clear := hlate hclosed u (by rw [hincoming]; rfl)
      rcases hvalid.1.type with htype | htype | htype | htype <;>
        exact absurd (htype.symm.trans hclear) (by decide)
    obtain ⟨hall, hsimilar⟩ := content_similar hi (admitsAll_take ha _) (hqueued _) hholds hupdates
    -- the updates behind the snapshot change both books alike
    have hsplit : ofInstrument (UInt8.ofNat i) (us.take n) =
        ofInstrument (UInt8.ofNat i) (us.take s.lastIncSeqNum.toNat) ++
          ofInstrument (UInt8.ofNat i) ((us.take n).drop s.lastIncSeqNum.toNat) := by
      have htake : us.take s.lastIncSeqNum.toNat = (us.take n).take s.lastIncSeqNum.toNat := by
        rw [List.take_take, Nat.min_eq_left hlast]
      rw [htake, ← Exchange.ofInstrument_append, List.take_append_drop]
    have htail := admitsAll_take ha n
    rw [hsplit] at htail
    obtain ⟨hall', hsimilar'⟩ := hsimilar.symm.run (PublicBook.admitsAll_append.mp htail).2
    rw [hincoming, hnone, List.nil_append, Exchange.ofInstrument_append, hsplit,
      publicBook_append, publicBook_append]
    exact ⟨PublicBook.admitsAll_append.mpr ⟨hall, hall'⟩, hsimilar'.symm⟩
  · rw [hc]
    exact ⟨admitsAll_take ha n, .refl _⟩

theorem fitsAll_ids {os : List MarketUpdate} (h : FitsAll os us) :
    ∀ u ∈ us, u.type = .add → u.orderId.toNat < maxNumOrders := by
  induction us generalizing os with
  | nil => exact fun u hu => absurd hu List.not_mem_nil
  | cons v us ih =>
    intro u hu
    rcases List.mem_cons.mp hu with rfl | hu
    · exact fun htype => (h.1.fresh htype).1
    · exact ih h.2 u hu

theorem stream_named (hvalid : ValidReplay us) :
    ∀ u ∈ us, u.instrumentId.toNat < maxNumInstruments ∧
      (u.type = .add → u.orderId.toNat < maxNumOrders) := fun u hu =>
  ⟨MarketDataNetwork.fitsAll_named hvalid u hu, fitsAll_ids hvalid u hu⟩

/-- Everything that is passed on names an instrument, and an order that has a place. -/
theorem conveys_named (hvalid : ValidReplay us) (hc : Conveys us h n) :
    ∀ u ∈ h.incomingUpdates, u.instrumentId.toNat < maxNumInstruments ∧
      (u.type = .add → u.orderId.toNat < maxNumOrders) := by
  have hstream := stream_named hvalid
  rw [Conveys] at hc
  split at hc
  · obtain ⟨n₀, -, s, ⟨-, t, hholds, hupdates⟩, -, hincoming⟩ := hc
    intro u hu
    rw [hincoming, List.mem_append, List.mem_append] at hu
    rcases hu with hu | hu | hu
    · exact hstream u (List.mem_of_mem_take hu)
    · rw [MarketDataNetwork.content_eq hupdates] at hu
      obtain ⟨j, hj, hu⟩ := List.mem_flatMap.mp hu
      rcases List.mem_cons.mp hu with rfl | hu
      · have hlt := List.mem_range.mp hj
        refine ⟨?_, fun hadd => absurd hadd (show MarketUpdateType.clear ≠ .add by decide)⟩
        rw [SnapshotSynthesizer.clearUpdate, UInt8.toNat_ofNat',
          Nat.mod_eq_of_lt (Nat.lt_trans hlt (by decide))]
        exact hlt
      · obtain ⟨entries, hentries, hlive⟩ := hholds
        have hmem := (SnapshotSynthesizer.Holds.mem_stored ⟨entries, hentries, hlive⟩).mp hu
        rw [← hlive] at hmem
        obtain ⟨e, he, rfl⟩ := List.mem_map.mp hmem.1
        exact ⟨(hentries.bound e he).1, fun _ => (hentries.bound e he).2⟩
    · exact hstream u (List.mem_of_mem_take (List.mem_of_mem_drop hu))
  · rw [hc]
    exact fun u hu => hstream u (List.mem_of_mem_take hu)

end Incoming

/-- What the stream says of an instrument fits an empty book, and is the book of the exchange. -/
theorem Exchange.stream_shows {fuel : Nat} {x : Exchange} {rs : List ClientRequestInternal}
    {i : Nat} (hfuel : maxNumOrders < fuel)
    (h : Reached (processClientRequest fuel) (KeepsPrices fuel) create rs x)
    (hi : i < maxNumInstruments)
    (hids : accepts (x.engine.instrumentOrderBooks i).sent < 2 ^ 64) :
    PublicBook.AdmitsAll .empty (ofInstrument (UInt8.ofNat i) x.stream) ∧
      (x.engine.instrumentOrderBooks i).heap.Shows
        (publicBook (ofInstrument (UInt8.ofNat i) x.stream)) := by
  obtain ⟨hbook, hstream⟩ := books_reached h i hi
  obtain ⟨v, hr, hpublished⟩ := keepsPrices_published hfuel hbook hids
  rw [hstream, hr.sent, ← hpublished.book]
  exact ⟨hpublished.admits, hr.shows⟩

/-- Updates that fit the books of a client are processed without a fault. -/
theorem InstrumentOrderBooks.run_shows {fuel : Nat} {us : List MarketUpdate}
    (hfuel : maxNumOrders < fuel)
    (hnamed : ∀ u ∈ us, u.instrumentId.toNat < maxNumInstruments ∧
      (u.type = .add → u.orderId.toNat < maxNumOrders))
    (ha : ∀ i < maxNumInstruments,
      PublicBook.AdmitsAll .empty (ofInstrument (UInt8.ofNat i) us)) :
    ∃ c, create.run fuel us = .ok c ∧ ∀ i < maxNumInstruments,
      (c.instrumentOrderBook i).heap.Shows (publicBook (ofInstrument (UInt8.ofNat i) us)) := by
  have hclient : ∀ i < maxNumInstruments, ∃ m,
      (MarketOrderBook.create (UInt8.ofNat i)).run fuel (ofInstrument (UInt8.ofNat i) us) = .ok m ∧
      m.heap.Shows (publicBook (ofInstrument (UInt8.ofNat i) us)) :=
    fun i hi => StockExchange.run_shows hfuel (ha i hi) fun u hu =>
      (hnamed u (List.mem_filter.mp hu).1).2
  obtain ⟨c, hrun, hbook⟩ := run_apart (c := create) (fun u hu => (hnamed u hu).1)
    fun i hi => (hclient i hi).imp fun m hm => hm.1
  refine ⟨c, hrun, fun i hi => ?_⟩
  obtain ⟨m, hm, hshows⟩ := hclient i hi
  rwa [Except.ok.inj ((hbook i hi).symm.trans hm)]

namespace MarketDataNetwork

section Clients
variable {fuel size : Nat} {host client : ByteOrder} {s : MarketDataNetwork}
  {es : List NetworkStep}

/-- The books of a client that missed nothing, or joined late, are built without a fault; each
has the levels of the exchange after the first `n` updates, order for order. -/
theorem late_joiner_replicates (hfuel : maxNumOrders < fuel)
    (h : Reached (step fuel host client) (Admits fuel) (create size) es s)
    (hlt : s.exchange.stream.length < 2 ^ 64)
    (hids : ∀ i < maxNumInstruments,
      accepts (s.exchange.engine.instrumentOrderBooks i).sent < 2 ^ 64)
    (hlate : JoinsLate s.handler) :
    ∃ n ≤ s.exchange.stream.length,
      (s.handler.inRecovery = false → s.handler.nextExpectedSeq = UInt64.ofNat (n + 1)) ∧
      ∃ c, InstrumentOrderBooks.create.run fuel s.handler.incomingUpdates = .ok c ∧
        ∀ i < maxNumInstruments, ∃ b, (c.instrumentOrderBook i).heap.Shows b ∧
          b.Similar (publicBook (ofInstrument (UInt8.ofNat i) (s.exchange.stream.take n))) ∧
          (n = s.exchange.stream.length → ∃ b',
            (s.exchange.engine.instrumentOrderBooks i).heap.Shows b' ∧ b.Similar b') := by
  have hsound := reached_sound hfuel h hlt
  obtain ⟨rs, hrs⟩ := hsound.reached
  obtain ⟨n, hn, hnext, hconveys⟩ := hsound.trails.conveys
  have hvalid : ValidReplay s.exchange.stream := (accommodates_stream hfuel hrs).fitsAll
  have hkeeps := hrs.mono fun _ _ (ha : _ ∧ _ ∧ _) => ha.2.2
  have hqueued := Exchange.queued_stream hfuel hkeeps hids (fitsAll_named hvalid)
  have hbooks := fun i hi => Exchange.stream_shows hfuel hkeeps (i := i) hi (hids i hi)
  have hclient := fun i hi =>
    conveys_similar (i := i) hi hvalid (hbooks i hi).1 hqueued hlate hconveys
  obtain ⟨c, hrun, hshows⟩ := InstrumentOrderBooks.run_shows hfuel
    (conveys_named hvalid hconveys) fun i hi => (hclient i hi).1
  refine ⟨n, hn, hnext, c, hrun, fun i hi => ⟨_, hshows i hi, (hclient i hi).2, fun hall => ?_⟩⟩
  have hsimilar := (hclient i hi).2
  rw [hall, List.take_length] at hsimilar
  exact ⟨_, (hbooks i hi).2, hsimilar⟩

/-- The client that lost the first datagram has both orders. -/
theorem late_joiner_replicates_sample : ∃ s c,
    Reached (step 3000 .little .big) (Admits 3000) (create 4) lostDatagram s ∧
    InstrumentOrderBooks.create.run 3000 s.handler.incomingUpdates = .ok c ∧
    ∃ b, (c.instrumentOrderBook 3).heap.Shows b ∧
      b.Similar ⟨[⟨20, [⟨1, .buy, 20, 4, 1⟩]⟩], []⟩ := by
  obtain ⟨s, hs, hcheck⟩ := @reached_of_any _ _ _ (step 3000 .little .big) (Admits 3000)
    (create 4) lostDatagram _
    (fun s => s.handler.inRecovery = false ∧ s.handler.nextExpectedSeq = 3 ∧
      s.exchange.stream = [⟨.add, 1, 0, .sell, 12, 8, 1⟩, ⟨.add, 1, 3, .buy, 20, 4, 1⟩] ∧
      (∀ u ∈ s.handler.incomingUpdates.head?, u.type = .clear) ∧
      ∀ i < maxNumInstruments,
        accepts (s.exchange.engine.instrumentOrderBooks i).sent < 2 ^ 64) (by decide +kernel)
  obtain ⟨hrecovery, hnext, hstream, hlate, hids⟩ := of_decide_eq_true hcheck
  obtain ⟨n, hn, hexpects, c, hrun, hbooks⟩ :=
    late_joiner_replicates (by decide) hs (by rw [hstream]; decide) hids fun _ => hlate
  refine ⟨s, c, hs, hrun, ?_⟩
  obtain ⟨b, hshows, hsimilar, -⟩ := hbooks 3 (by decide)
  refine ⟨b, hshows, ?_⟩
  rw [hstream] at hn hsimilar
  have hnumber := hnext.symm.trans (hexpects hrecovery)
  have hle : n ≤ 2 := hn
  interval_cases n
  · exact absurd hnumber (by decide)
  · exact absurd hnumber (by decide)
  · exact hsimilar

end Clients

end MarketDataNetwork

end StockExchange
