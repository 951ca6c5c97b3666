import StockExchange.Feed
import StockExchange.Replay

/-!
# What a call reports

The updates of a call tell a reader exactly what the call does to its book: each of them
fits what the reader has made of those before it, and at the end it has the resting orders.
-/

namespace StockExchange

open BookView Replay

namespace Replay

/-- Every update fits, and an `ADD` finds fewer live orders than the pool has blocks. -/
def Accommodates : List MarketUpdate → List MarketUpdate → Prop
  | _, [] => True
  | os, u :: us =>
    (Replay.Fits os u ∧ (u.type = .add → os.length < maxNumOrders)) ∧ Accommodates (apply os u) us

/-- The live orders of one instrument. -/
def ofInstrument (i : InstrumentId) (os : List MarketUpdate) : List MarketUpdate :=
  os.filter fun o => o.instrumentId = i

def ofOthers (i : InstrumentId) (os : List MarketUpdate) : List MarketUpdate :=
  os.filter fun o => ¬ o.instrumentId = i

section Accommodates
variable {os us vs : List MarketUpdate} {u : MarketUpdate} {i : InstrumentId}

theorem accommodates_append :
    Accommodates os (us ++ vs) ↔ Accommodates os us ∧ Accommodates (us.foldl apply os) vs := by
  induction us generalizing os with
  | nil => exact ⟨fun h => ⟨trivial, h⟩, fun h => h.2⟩
  | cons u us ih =>
    rw [List.cons_append, Accommodates, ih, Accommodates, List.foldl_cons]
    exact and_assoc.symm

theorem Accommodates.fitsAll (h : Accommodates os us) : FitsAll os us := by
  induction us generalizing os with
  | nil => trivial
  | cons u us ih => exact ⟨h.1.1, ih h.2⟩

/-- Only an `ADD` makes the live orders more. -/
theorem length_apply_le (h : u.type ≠ .add) : (apply os u).length ≤ os.length := by
  rw [apply, if_neg h]
  split
  · rw [List.length_map]
  · split
    · exact List.length_filter_le ..
    · split
      · exact List.length_filter_le ..
      · exact le_rfl

theorem Accommodates.live (h : Accommodates os us) (hos : os.length ≤ maxNumOrders) :
    (us.foldl apply os).length ≤ maxNumOrders := by
  induction us generalizing os with
  | nil => exact hos
  | cons u us ih =>
    obtain ⟨⟨-, hroom⟩, hus⟩ := h
    apply ih hus
    by_cases hadd : u.type = .add
    · have hlt := hroom hadd
      rw [apply_add hadd, List.length_append, List.length_singleton]
      omega
    · have hle := @length_apply_le os u hadd
      omega

theorem Accommodates.take (h : Accommodates os us) (n : Nat) : Accommodates os (us.take n) := by
  rw [← List.take_append_drop n us] at h
  exact (accommodates_append.mp h).1

theorem Accommodates.instrument (h : Accommodates [] us) :
    ∀ o ∈ replay us, o.instrumentId.toNat < maxNumInstruments := by
  induction us using List.reverseRecOn with
  | nil => exact nofun
  | append_singleton us u ih =>
    obtain ⟨hus, ⟨hu, -⟩, -⟩ := accommodates_append.mp h
    rw [replay_append]
    exact forall_apply (P := fun o => o.instrumentId.toNat < maxNumInstruments)
      (fun _ => hu.instrument) (fun _ _ _ h => h) (ih hus)

theorem length_split (i : InstrumentId) (os : List MarketUpdate) :
    os.length = (ofInstrument i os).length + (ofOthers i os).length := by
  induction os with
  | nil => rfl
  | cons o os ih =>
    rw [ofInstrument, ofOthers] at ih ⊢
    by_cases ho : o.instrumentId = i
    · simp only [List.filter_cons, ho, decide_true, if_true, not_true_eq_false, decide_false,
        List.length_cons, ih]
      exact Nat.add_right_comm ..
    · simp only [List.filter_cons, ho, decide_true, if_true, not_false_eq_true, decide_false,
        List.length_cons, ih]
      rfl

/-- An update leaves the orders of other instruments alone. -/
theorem ofOthers_apply (os : List MarketUpdate) (u : MarketUpdate) :
    ofOthers u.instrumentId (apply os u) = ofOthers u.instrumentId os := by
  have hfilter : ∀ p : MarketUpdate → Bool, (∀ o, o.instrumentId ≠ u.instrumentId → p o = true) →
      ofOthers u.instrumentId (os.filter p) = ofOthers u.instrumentId os := by
    intro p hp
    rw [ofOthers, List.filter_filter, ofOthers]
    refine List.filter_congr fun o _ => ?_
    by_cases ho : o.instrumentId = u.instrumentId
    · simp [ho]
    · simp [ho, hp o ho]
  rw [apply]
  split
  · rw [ofOthers, List.filter_append, List.filter_singleton, decide_eq_false (not_not.mpr rfl)]
    exact List.append_nil _
  · split
    · rw [ofOthers, List.filter_map, ofOthers]
      have hpatch : ∀ o ∈ os.filter fun o => ¬ o.instrumentId = u.instrumentId,
          patch u o = o := by
        intro o ho
        have hne := of_decide_eq_true (List.mem_filter.mp ho).2
        exact patch_other fun hsame => hne hsame.1
      have hsame : ((fun o : MarketUpdate => decide ¬ o.instrumentId = u.instrumentId) ∘ patch u) =
          fun o => decide ¬ o.instrumentId = u.instrumentId := by
        funext o
        rw [Function.comp_apply, patch]
        split <;> rfl
      rw [hsame, List.map_congr_left hpatch, List.map_id']
    · split
      · exact hfilter _ fun o ho => decide_eq_true fun hsame => ho hsame.1
      · split
        · exact hfilter _ fun o ho => decide_eq_true ho
        · rfl

end Accommodates

end Replay

/-- The `ADD` a reader knows an order by. -/
def OrderView.record (i : InstrumentId) (o : OrderView) : MarketUpdate :=
  ⟨.add, o.marketOrderId, i, o.side, o.price, o.qty, o.priority⟩

namespace BookView

/-- Of the live orders `os`, those of the book's instrument are its orders; those of the
others are as they were in `before`. -/
structure Shows (before os : List MarketUpdate) (v : BookView) : Prop where
  instrument : v.instrumentId.toNat < maxNumInstruments
  own : (ofInstrument v.instrumentId os).Perm (v.orders.map (·.record v.instrumentId))
  others : ofOthers v.instrumentId os = ofOthers v.instrumentId before
  distinct : Distinct os

/-- Since the book had sent `start`, with `before` live, its updates fit and tell its
orders. -/
def Recorded (start : List Message) (before : List MarketUpdate) (v : BookView) : Prop :=
  ∃ ms, v.sent = start ++ ms ∧ Accommodates before (updates ms) ∧
    v.Shows before ((updates ms).foldl apply before)

section Shows
variable {before os : List MarketUpdate} {v w : BookView} {u : MarketUpdate} {o : OrderView}

/-- No two orders of the book have the same id. -/
theorem Shows.nodup_ids (h : v.Shows before os) : (v.orders.map (·.marketOrderId)).Nodup := by
  have hrecords : (v.orders.map (·.record v.instrumentId)).Pairwise
      fun a b => ¬ SameOrder a b :=
    h.own.pairwise (h.distinct.filter _) fun hne hsame => hne hsame.symm
  rw [List.pairwise_map] at hrecords
  rw [List.Nodup, List.pairwise_map]
  exact hrecords.imp fun hne heq => hne ⟨rfl, heq.symm⟩

theorem Shows.eq_of_id (h : v.Shows before os) {o' : OrderView} (ho : o ∈ v.orders)
    (ho' : o' ∈ v.orders) (heq : o.marketOrderId = o'.marketOrderId) : o = o' :=
  List.inj_on_of_nodup_map h.nodup_ids ho ho' heq

theorem Shows.mem (h : v.Shows before os) (ho : o ∈ v.orders) :
    o.record v.instrumentId ∈ os := by
  have hmem := h.own.mem_iff.mpr (List.mem_map_of_mem ho)
  exact (List.mem_filter.mp hmem).1

theorem Shows.congr (h : v.Shows before os) (hinstrument : w.instrumentId = v.instrumentId)
    (horders : w.orders = v.orders) : w.Shows before os := by
  refine ⟨?_, ?_, ?_, h.distinct⟩
  · rw [hinstrument]
    exact h.instrument
  · rw [hinstrument, horders]
    exact h.own
  · rw [hinstrument]
    exact h.others

/-- A `TRADE` changes nothing. -/
theorem Shows.trade (h : v.Shows before os) (hu : u.type = .trade)
    (hinstrument : u.instrumentId = v.instrumentId) :
    (Replay.Fits os u ∧ (u.type = .add → os.length < maxNumOrders)) ∧
      v.Shows before (apply os u) := by
  have hne : ∀ t, t ≠ .trade → u.type ≠ t := fun t ht heq => ht (heq.symm.trans hu)
  refine ⟨⟨⟨hinstrument ▸ h.instrument, .inr (.inr (.inr hu)),
    fun htype => absurd htype (hne _ (by decide)), fun htype => ?_⟩,
    fun htype => absurd htype (hne _ (by decide))⟩, ?_⟩
  · rcases htype with htype | htype
    · exact absurd htype (hne _ (by decide))
    · exact absurd htype (hne _ (by decide))
  · rw [apply_other (.inl hu)]
    exact h

theorem Shows.others_apply (h : v.Shows before os) (hinstrument : u.instrumentId = v.instrumentId) :
    ofOthers v.instrumentId (apply os u) = ofOthers v.instrumentId before := by
  rw [← hinstrument, ofOthers_apply, hinstrument, h.others]

/-- An update that names a resting order fits. -/
theorem Shows.fits (h : v.Shows before os) (ho : o ∈ v.orders)
    (hu : u.type = .modify ∨ u.type = .cancel) (hinstrument : u.instrumentId = v.instrumentId)
    (hid : u.orderId = o.marketOrderId) (hside : u.side = o.side) (hprice : u.price = o.price) :
    Replay.Fits os u ∧ (u.type = .add → os.length < maxNumOrders) := by
  have hne : u.type ≠ .add := by
    rcases hu with hu | hu <;> rw [hu] <;> decide
  refine ⟨⟨hinstrument ▸ h.instrument, ?_, fun htype => absurd htype hne, fun _ =>
    ⟨o.record v.instrumentId, h.mem ho, ⟨hinstrument.symm, hid.symm⟩, hside.symm, hprice.symm⟩⟩,
    fun htype => absurd htype hne⟩
  rcases hu with hu | hu
  · exact .inr (.inl hu)
  · exact .inr (.inr (.inl hu))

theorem Shows.removeOrder (h : v.Shows before os) (hv : v.Valid) (ho : o ∈ v.orders)
    (hu : u.type = .cancel) (hinstrument : u.instrumentId = v.instrumentId)
    (hid : u.orderId = o.marketOrderId) (hside : u.side = o.side) (hprice : u.price = o.price) :
    (Replay.Fits os u ∧ (u.type = .add → os.length < maxNumOrders)) ∧
      (v.removeOrder o).Shows before (apply os u) := by
  have hfits := h.fits ho (.inr hu) hinstrument hid hside hprice
  have hdistinct := distinct_apply h.distinct hfits.1
  rw [apply_cancel hu] at hdistinct ⊢
  refine ⟨hfits, h.instrument, ?_, ?_, hdistinct⟩
  · change (ofInstrument v.instrumentId _).Perm _
    have hfilter : (v.removeOrder o).orders =
        v.orders.filter fun o' => ¬ SameOrder u (o'.record v.instrumentId) := by
      rw [orders_removeOrder]
      refine List.filter_congr fun o' ho' => ?_
      have hsame : SameOrder u (o'.record v.instrumentId) ↔ o'.handle = o.handle := by
        constructor
        · rintro ⟨-, heq⟩
          exact congrArg OrderView.handle (h.eq_of_id ho' ho (heq.trans hid))
        · intro heq
          rw [hv.order_eq ho' ho heq]
          exact ⟨hinstrument.symm, hid.symm⟩
      simp only [hsame, ne_eq]
    rw [ofInstrument, List.filter_comm, hfilter]
    have hperm := h.own.filter fun o' => ¬ SameOrder u o'
    rw [List.filter_map] at hperm
    exact hperm
  · have hothers := h.others_apply hinstrument
    rw [apply_cancel hu] at hothers
    exact hothers

theorem Shows.setQty (h : v.Shows before os) (hv : v.Valid) (ho : o ∈ v.orders)
    (hu : u.type = .modify) (hinstrument : u.instrumentId = v.instrumentId)
    (hid : u.orderId = o.marketOrderId) (hside : u.side = o.side) (hprice : u.price = o.price) :
    (Replay.Fits os u ∧ (u.type = .add → os.length < maxNumOrders)) ∧
      (v.setQty o.handle u.qty).Shows before (apply os u) := by
  have hfits := h.fits ho (.inl hu) hinstrument hid hside hprice
  have hdistinct := distinct_apply h.distinct hfits.1
  rw [apply_modify hu] at hdistinct ⊢
  have hpatch : ∀ o', (patch u o').instrumentId = o'.instrumentId := by
    intro o'
    rw [patch]
    split <;> rfl
  refine ⟨hfits, h.instrument, ?_, ?_, hdistinct⟩
  · change (ofInstrument v.instrumentId _).Perm _
    have hown : ofInstrument v.instrumentId (os.map (patch u)) =
        (ofInstrument v.instrumentId os).map (patch u) := by
      rw [ofInstrument, List.filter_map, ofInstrument]
      congr 1
      refine List.filter_congr fun o' _ => ?_
      rw [Function.comp_apply, hpatch]
    have hrecord : ∀ o' ∈ v.orders, patch u (o'.record v.instrumentId) =
        (withQty o.handle u.qty o').record v.instrumentId := by
      intro o' ho'
      by_cases hsame : SameOrder u (o'.record v.instrumentId)
      · obtain rfl := h.eq_of_id ho' ho (hsame.2.trans hid)
        rw [patch_same hsame, withQty, if_pos rfl, hprice]
        rfl
      · have hother : o'.handle ≠ o.handle := by
          intro heq
          apply hsame
          rw [hv.order_eq ho' ho heq]
          exact ⟨hinstrument.symm, hid.symm⟩
        rw [patch_other hsame, withQty, if_neg hother]
    rw [hown, orders_setQty, List.map_map]
    have hperm := h.own.map (patch u)
    rw [List.map_map] at hperm
    refine hperm.trans (List.Perm.of_eq (List.map_congr_left fun o' ho' => ?_))
    exact hrecord o' ho'
  · have hothers := h.others_apply hinstrument
    rw [apply_modify hu] at hothers
    exact hothers

theorem instrumentId_place (v : BookView) (o : OrderView) :
    (v.place o).instrumentId = v.instrumentId := by
  unfold place
  split
  · rfl
  · split <;> rfl

theorem instrumentId_structural (i : InstrumentId) :
    Structural (fun v => v.instrumentId = i) fun _ _ _ => True where
  report _ _ _ h := h
  setQty _ _ _ _ h := h
  removeOrder _ _ _ _ h := h
  addOrder v o _ _ h _ _ _ := (instrumentId_place v o).trans h

/-- The order that is booked gets a new entry. -/
theorem Shows.addOrder (h : v.Shows before os) (hv : v.Valid) (same : v.SameSide o.side o.price)
    (hid : o.marketOrderId.toNat < maxNumOrders)
    (hfresh : ∀ o' ∈ v.orders, o'.marketOrderId ≠ o.marketOrderId)
    (hroom : v.orders.length + (ofOthers v.instrumentId before).length < maxNumOrders)
    (hw : w.instrumentId = v.instrumentId) (horders : w.orders = (v.place o).orders) :
    (Replay.Fits os (o.record v.instrumentId) ∧
        ((o.record v.instrumentId).type = .add → os.length < maxNumOrders)) ∧
      w.Shows before (apply os (o.record v.instrumentId)) := by
  have hother : ∀ o' ∈ os, ¬ SameOrder (o.record v.instrumentId) o' := by
    intro o' ho' hsame
    have hmem := h.own.mem_iff.mp (List.mem_filter.mpr ⟨ho', decide_eq_true hsame.1⟩)
    obtain ⟨o₁, ho₁, rfl⟩ := List.mem_map.mp hmem
    exact hfresh o₁ ho₁ hsame.2
  have hfits : Replay.Fits os (o.record v.instrumentId) :=
    ⟨h.instrument, .inl rfl, fun _ => ⟨hid, hother⟩, fun htype =>
      absurd (show MarketUpdateType.add = .modify ∨ MarketUpdateType.add = .cancel from htype)
        (by decide)⟩
  have hlen : os.length < maxNumOrders := by
    have hown := h.own.length_eq
    rw [List.length_map] at hown
    rw [length_split v.instrumentId os, hown, h.others]
    exact hroom
  have hothers := h.others_apply (u := o.record v.instrumentId) rfl
  have hdistinct := distinct_apply h.distinct hfits
  rw [apply_add rfl] at hothers hdistinct ⊢
  refine ⟨⟨hfits, fun _ => hlen⟩, ?_, ?_, ?_, hdistinct⟩
  · rw [hw]
    exact h.instrument
  · rw [hw, horders, ofInstrument, List.filter_append, List.filter_singleton,
      decide_eq_true (show (o.record v.instrumentId).instrumentId = v.instrumentId from rfl)]
    have hplace := (hv.perm_place same).map (·.record v.instrumentId)
    exact ((List.perm_append_singleton _ _).trans (h.own.cons _)).trans hplace.symm
  · rw [hw]
    exact hothers

end Shows

section Recorded
variable {start : List Message} {before : List MarketUpdate} {v w : BookView} {u : MarketUpdate}
  {o : OrderView} {ms : List Message}

/-- At the start of a call. -/
theorem Shows.recorded (h : v.Shows before before) : v.Recorded v.sent before :=
  ⟨[], (List.append_nil _).symm, trivial, h⟩

theorem Recorded.respond (h : v.Recorded start before) (hsent : w.sent = v.sent ++ ms)
    (hms : updates ms = []) (hinstrument : w.instrumentId = v.instrumentId)
    (horders : w.orders = v.orders) : w.Recorded start before := by
  obtain ⟨ns, hns, hfits, hshows⟩ := h
  refine ⟨ns ++ ms, ?_, ?_, ?_⟩
  · rw [hsent, hns, List.append_assoc]
  · rw [updates_append, hms, List.append_nil]
    exact hfits
  · rw [updates_append, hms, List.append_nil]
    exact hshows.congr hinstrument horders

/-- One more update, which fits whatever the reader has. -/
theorem Recorded.update (h : v.Recorded start before) (hsent : w.sent = v.sent ++ ms)
    (hms : updates ms = [u]) (hstep : ∀ os, v.Shows before os →
      (Replay.Fits os u ∧ (u.type = .add → os.length < maxNumOrders)) ∧
        w.Shows before (apply os u)) :
    w.Recorded start before := by
  obtain ⟨ns, hns, hfits, hshows⟩ := h
  obtain ⟨hu, hw⟩ := hstep _ hshows
  refine ⟨ns ++ ms, ?_, ?_, ?_⟩
  · rw [hsent, hns, List.append_assoc]
  · rw [updates_append, hms]
    exact accommodates_append.mpr ⟨hfits, hu, trivial⟩
  · rw [updates_append, hms, List.foldl_append]
    exact hw

theorem Recorded.trade (h : v.Recorded start before) (hms : updates ms = [u])
    (hu : u.type = .trade) (hinstrument : u.instrumentId = v.instrumentId) :
    (v.send ms).Recorded start before := by
  refine h.update (w := v.send ms) rfl hms fun os hos => ?_
  obtain ⟨hfits, hshows⟩ := hos.trade hu hinstrument
  exact ⟨hfits, hshows.congr rfl rfl⟩

theorem Recorded.removeOrder (h : v.Recorded start before) (hv : v.Valid) (ho : o ∈ v.orders)
    (hms : updates ms = [u]) (hu : u.type = .cancel)
    (hinstrument : u.instrumentId = v.instrumentId) (hid : u.orderId = o.marketOrderId)
    (hside : u.side = o.side) (hprice : u.price = o.price) :
    ((v.removeOrder o).send ms).Recorded start before := by
  refine h.update (w := (v.removeOrder o).send ms) rfl hms fun os hos => ?_
  obtain ⟨hfits, hshows⟩ := hos.removeOrder hv ho hu hinstrument hid hside hprice
  exact ⟨hfits, hshows.congr rfl rfl⟩

theorem Recorded.setQty (h : v.Recorded start before) (hv : v.Valid) (ho : o ∈ v.orders)
    (hms : updates ms = [u]) (hu : u.type = .modify)
    (hinstrument : u.instrumentId = v.instrumentId) (hid : u.orderId = o.marketOrderId)
    (hside : u.side = o.side) (hprice : u.price = o.price) :
    ((v.setQty o.handle u.qty).send ms).Recorded start before := by
  refine h.update (w := (v.setQty o.handle u.qty).send ms) rfl hms fun os hos => ?_
  obtain ⟨hfits, hshows⟩ := hos.setQty hv ho hu hinstrument hid hside hprice
  exact ⟨hfits, hshows.congr rfl rfl⟩

/-- The two `FILLED` and the `TRADE` first, then the update on the resting order. -/
theorem Recorded.fill (h : v.Recorded start before) (hv : v.Valid) (ho : o ∈ v.orders)
    (a : Aggressor) (leavesQty : Quantity) : (v.fill a leavesQty o).Recorded start before := by
  have htrade : (v.send (executionMessages v.instrumentId a leavesQty o.toOrderFields
      (min leavesQty o.qty))).Recorded start before :=
    h.trade (u := ⟨.trade, invalidOrderId, v.instrumentId, a.side, o.price, min leavesQty o.qty,
      invalidPriority⟩) rfl rfl rfl
  by_cases hzero : o.qty - min leavesQty o.qty = 0
  · rw [fill_whole v a leavesQty o hzero]
    exact htrade.removeOrder (hv.send _) ho (u := ⟨.cancel, o.marketOrderId, v.instrumentId, o.side,
      o.price, o.qty, o.priority⟩) rfl rfl rfl rfl rfl rfl
  · rw [fill_part v a leavesQty o hzero]
    exact htrade.setQty (hv.send _) ho (u := ⟨.modify, o.marketOrderId, v.instrumentId, o.side,
      o.price, o.qty - min leavesQty o.qty, o.priority⟩) rfl rfl rfl rfl rfl rfl

theorem Recorded.accept (h : v.Recorded start before) (hv : v.Valid) (clientId : ClientId)
    (clientOrderId : OrderId) (side : Side) (price : Price) (quantity : Quantity) :
    (v.accept clientId clientOrderId side price quantity).1.Recorded start before ∧
    (v.accept clientId clientOrderId side price quantity).1.nextMarketOrderId =
      v.nextMarketOrderId + 1 := by
  have haccepted : (v.accepted clientId clientOrderId side price quantity).Recorded start before :=
    h.respond rfl rfl rfl rfl
  exact matchLoop_keeps (J := fun w _ => w.Recorded start before ∧
      w.nextMarketOrderId = v.nextMarketOrderId + 1)
    (fun w leavesQty o hw hJ hhead _ _ =>
      ⟨hJ.1.fill hw (mem_orders_of_head hw hhead).2 _ leavesQty,
        (nextMarketOrderId_fill w _ leavesQty o).trans hJ.2⟩)
    _ (accepted_valid hv clientId clientOrderId side price quantity) ⟨haccepted, rfl⟩

/-- The reader has a place for the order that is booked next, with `others` live orders of
other instruments: the last id handed out is in the table and not that of a live order, and
not all blocks are taken. -/
structure Placeable (others : Nat) (v : BookView) : Prop where
  id : (v.nextMarketOrderId - 1).toNat < maxNumOrders
  fresh : ∀ o ∈ v.orders, o.marketOrderId ≠ v.nextMarketOrderId - 1
  room : v.orders.length + others < maxNumOrders

theorem Recorded.book (h : v.Recorded start before) (hv : v.Valid) {side : Side} {price : Price}
    (free : v.freeOrders ≠ []) (same : v.SameSide side price)
    (hplace : v.Placeable (ofOthers v.instrumentId before).length) (clientId : ClientId)
    (clientOrderId : OrderId) (leavesQty : Quantity) :
    (v.book clientId clientOrderId (v.nextMarketOrderId - 1) side price leavesQty).Recorded start
      before := by
  obtain ⟨p, rest, hfree⟩ := List.exists_cons_of_ne_nil free
  have hi := instrumentId_place v (v.bookedOrder p clientId clientOrderId (v.nextMarketOrderId - 1)
    side price leavesQty)
  refine h.update (sent_book hfree ..) rfl fun os hos => ?_
  refine hos.addOrder (o := v.bookedOrder p clientId clientOrderId (v.nextMarketOrderId - 1) side
    price leavesQty) hv same hplace.id hplace.fresh hplace.room ?_ ?_
  · rw [book_eq hfree]
    exact hi
  · rw [book_eq hfree]
    rfl

theorem Recorded.add (h : v.Recorded start before) (hv : v.Valid) (clientId : ClientId)
    (clientOrderId : OrderId) (side : Side) (price : Price) (quantity : Quantity)
    (hb : Bookable clientId clientOrderId side price
      (v.accept clientId clientOrderId side price quantity))
    (hplace : 0 < (v.accept clientId clientOrderId side price quantity).2 →
      (v.accept clientId clientOrderId side price quantity).1.Placeable
        (ofOthers v.instrumentId before).length) :
    (v.add clientId clientOrderId side price quantity).Recorded start before := by
  obtain ⟨hr, hnext⟩ := h.accept hv clientId clientOrderId side price quantity
  have hi := (instrumentId_structural v.instrumentId).accept hv rfl clientId clientOrderId side
    price quantity
  refine add_cases hv hb (fun w heq => ?_) fun w leavesQty p rest heq hw hpos hfree same => ?_
  · rwa [heq] at hr
  · rw [heq] at hr hnext hi hplace
    have hid : v.nextMarketOrderId = w.nextMarketOrderId - 1 := by
      rw [hnext]
      exact (UInt64.add_sub_cancel _ _).symm
    rw [hid]
    exact hr.book hw (by simp [hfree]) same (hi ▸ hplace hpos) ..

theorem Recorded.cancelOrder (h : v.Recorded start before) (hv : v.Valid) (ho : o ∈ v.orders)
    (clientId : ClientId) (clientOrderId : OrderId) :
    (v.cancelOrder clientId clientOrderId o).Recorded start before :=
  h.removeOrder hv ho (u := ⟨.cancel, o.marketOrderId, v.instrumentId, o.side, o.price, 0,
    o.priority⟩) rfl rfl rfl rfl rfl rfl

theorem Recorded.reduce (h : v.Recorded start before) (hv : v.Valid) (ho : o ∈ v.orders)
    (clientId : ClientId) (clientOrderId : OrderId) (newQuantity : Quantity) :
    (v.reduce clientId clientOrderId o newQuantity).Recorded start before :=
  h.setQty hv ho (u := ⟨.modify, o.marketOrderId, v.instrumentId, o.side, o.price, newQuantity,
    o.priority⟩) rfl rfl rfl rfl rfl rfl

/-- Every call reports what it does. -/
theorem Recorded.call (h : v.Recorded start before) (hv : v.Valid) {c : OrderBook.BookRequest}
    (ha : Admissible v c)
    (hplace : v.Books (fun w _ _ => w.Placeable (ofOthers v.instrumentId before).length) c) :
    (v.call c).Recorded start before := by
  apply call_cases c
  · rintro clientId clientOrderId side price quantity rfl
    exact h.add hv _ _ _ _ _ ha hplace
  · intro type clientId clientOrderId _
    exact h.respond rfl rfl rfl rfl
  · intro clientId clientOrderId o ho
    exact h.cancelOrder hv ho ..
  · rintro clientId clientOrderId price quantity o rfl hfind ho hq
    exact (h.cancelOrder hv ho clientId clientOrderId).add (cancelOrder_valid hv ho ..) _ _ _ _
      _ (ha.2 o hfind hq) (hplace o hfind hq)
  · intro clientId clientOrderId price quantity o _ _ ho _ _
    exact h.reduce hv ho ..

end Recorded

end BookView

end StockExchange
