import StockExchange.Stages

/-!
# Market order ids

The ids are handed out in turn, one with each `ACCEPTED`. The counter is a `uint64`:
ids are new as long as no more than 2^64 have been handed out.
-/

namespace StockExchange

open BookView

def isAccepted : Message → Bool
  | .response r => r.type = .accepted
  | .update _ => false

/-- How many ids have been handed out. -/
def accepts (ms : List Message) : Nat := ms.countP isAccepted

/-- One of the first `n` ids. -/
def Born (n : Nat) (id : OrderId) : Prop := ∃ k, 1 ≤ k ∧ k ≤ n ∧ UInt64.ofNat k = id

theorem accepts_append (ms ns : List Message) : accepts (ms ++ ns) = accepts ms + accepts ns :=
  List.countP_append

theorem accepts_fillMessages (i : InstrumentId) (a : Aggressor) (leavesQty : Quantity)
    (o : OrderFields) (qty : Quantity) : accepts (fillMessages i a leavesQty o qty) = 0 := rfl

section Born
variable {n : Nat} {id : OrderId}

theorem Born.mono {m : Nat} (hle : n ≤ m) : Born n id → Born m id
  | ⟨k, h₁, h₂, h⟩ => ⟨k, h₁, h₂.trans hle, h⟩

theorem born_last (n : Nat) : Born (n + 1) (UInt64.ofNat (n + 1)) :=
  ⟨n + 1, Nat.le_add_left 1 n, le_rfl, rfl⟩

theorem not_born_next (hn : n < 2 ^ 64) : ¬ Born n (UInt64.ofNat (n + 1)) := by
  rintro ⟨k, h₁, h₂, h⟩
  have hmod := congrArg UInt64.toNat h
  rw [UInt64.toNat_ofNat', UInt64.toNat_ofNat', Nat.mod_eq_of_lt (h₂.trans_lt hn)] at hmod
  rcases Nat.lt_or_ge (n + 1) (2 ^ 64) with hlt | hge
  · rw [Nat.mod_eq_of_lt hlt] at hmod
    omega
  · have heq : n + 1 = 2 ^ 64 := by omega
    rw [heq, Nat.mod_self] at hmod
    omega

theorem Born.toNat_le (hn : n < 2 ^ 64) : Born n id → id.toNat ≤ n
  | ⟨k, _, h₂, h⟩ => by
    rw [← h, UInt64.toNat_ofNat', Nat.mod_eq_of_lt (h₂.trans_lt hn)]
    exact h₂

end Born

namespace BookView

/-- The counter stands after the ids handed out. -/
def Counts (v : BookView) : Prop := v.nextMarketOrderId = UInt64.ofNat (accepts v.sent + 1)

/-- The orders have different ids, all among the first `n`. -/
structure Numbered (v : BookView) (n : Nat) : Prop where
  ids : (v.orders.map (·.marketOrderId)).Nodup
  born : ∀ o ∈ v.orders, Born n o.marketOrderId

section Numbered
variable {v : BookView} {n : Nat} {o : OrderView}

theorem create_counts (i : InstrumentId) : (create i).Counts := rfl

theorem create_numbered (i : InstrumentId) : (create i).Numbered 0 :=
  ⟨by simp [create, orders, levels], by simp [create, orders, levels]⟩

theorem Numbered.mono {m : Nat} (h : v.Numbered n) (hle : n ≤ m) : v.Numbered m :=
  ⟨h.ids, fun o ho => (h.born o ho).mono hle⟩

theorem Numbered.send (h : v.Numbered n) (ms : List Message) : (v.send ms).Numbered n :=
  ⟨h.ids, h.born⟩

theorem Numbered.eq_of_id (h : v.Numbered n) {o' : OrderView} (ho : o ∈ v.orders)
    (ho' : o' ∈ v.orders) (heq : o.marketOrderId = o'.marketOrderId) : o = o' :=
  List.inj_on_of_nodup_map h.ids ho ho' heq

theorem Numbered.removeOrder (h : v.Numbered n) (o : OrderView) :
    (v.removeOrder o).Numbered n := by
  constructor
  · rw [orders_removeOrder]
    exact h.ids.sublist (List.filter_sublist.map _)
  · exact fun o' ho' => h.born o' (mem_removeOrder.mp ho').1

theorem withQty_id (h : OrderPtr) (qty : Quantity) (o : OrderView) :
    (withQty h qty o).marketOrderId = o.marketOrderId := by
  unfold withQty
  split <;> rfl

theorem Numbered.setQty (h : v.Numbered n) (p : OrderPtr) (qty : Quantity) :
    (v.setQty p qty).Numbered n := by
  constructor
  · have hids : (v.setQty p qty).orders.map (·.marketOrderId) =
        v.orders.map (·.marketOrderId) := by
      rw [orders_setQty, List.map_map]
      exact List.map_congr_left fun o _ => withQty_id p qty o
    rw [hids]
    exact h.ids
  · intro o ho
    rw [orders_setQty] at ho
    obtain ⟨o', ho', rfl⟩ := List.mem_map.mp ho
    rw [withQty_id]
    exact h.born o' ho'

theorem Numbered.fill (h : v.Numbered n) (a : Aggressor) (leavesQty : Quantity) (o : OrderView) :
    (v.fill a leavesQty o).Numbered n := by
  by_cases hzero : o.qty - min leavesQty o.qty = 0
  · rw [fill_eq_removeOrder a hzero]
    exact (h.send _).removeOrder o
  · rw [fill_eq_setQty a hzero]
    exact (h.setQty _ _).send _

/-- A new order gets the next id. -/
theorem Numbered.addOrder (h : v.Numbered n) (hv : v.Valid) (hn : n < 2 ^ 64)
    (hid : o.marketOrderId = UInt64.ofNat (n + 1)) (same : v.SameSide o.side o.price) :
    (v.addOrder o).Numbered (n + 1) := by
  have hperm : (v.addOrder o).orders.Perm (o :: v.orders) := hv.perm_place same
  constructor
  · refine ((hperm.map (·.marketOrderId)).nodup_iff).mpr (List.nodup_cons.mpr ⟨?_, h.ids⟩)
    intro hmem
    obtain ⟨o', ho', heq⟩ := List.mem_map.mp hmem
    have hnext : o'.marketOrderId = UInt64.ofNat (n + 1) := heq.trans hid
    exact not_born_next hn (hnext ▸ h.born o' ho')
  · intro o' ho'
    rcases List.mem_cons.mp (hperm.mem_iff.mp ho') with rfl | ho'
    · rw [hid]
      exact born_last n
    · exact (h.born o' ho').mono (Nat.le_succ n)

end Numbered

/-- What the stages of a call keep of the messages and the orders after `n` ids: `P`
between calls, `R` while the order with the next id is matched. -/
structure Tracks (bound : Nat) (P : BookView → Nat → Prop)
    (R : Aggressor → BookView → Nat → Quantity → Prop) : Prop where
  accepted : ∀ v n a quantity, v.Numbered n → P v n → n < bound → Named a.side →
    a.marketOrderId = v.nextMarketOrderId → a.marketOrderId = UInt64.ofNat (n + 1) →
    R a (v.accepted a.clientId a.clientOrderId a.side a.price quantity) n quantity
  fill : ∀ v n a leavesQty o, v.Valid → v.Priced → v.Numbered n → R a v n leavesQty →
    n < bound → Named a.side → a.marketOrderId = UInt64.ofNat (n + 1) →
    v.head a.side = some o → o ∈ v.orders → leavesQty ≠ 0 →
    R a (v.fill a leavesQty o) n (leavesQty - min leavesQty o.qty)
  filled : ∀ v n a, R a v n 0 → P v (n + 1)
  book : ∀ v n a leavesQty h rest, v.Valid → v.Numbered n → R a v n leavesQty → n < bound →
    a.marketOrderId = UInt64.ofNat (n + 1) → 0 < leavesQty → v.freeOrders = h :: rest →
    v.SamePrice a.side a.price →
    P (v.book a.clientId a.clientOrderId a.marketOrderId a.side a.price leavesQty) (n + 1)
  cancelOrder : ∀ v n clientId clientOrderId o, v.Valid → v.Numbered n → P v n → o ∈ v.orders →
    P (v.cancelOrder clientId clientOrderId o) n
  reduce : ∀ v n clientId clientOrderId o newQuantity, v.Valid → v.Numbered n → P v n →
    o ∈ v.orders → newQuantity ≤ o.qty → P (v.reduce clientId clientOrderId o newQuantity) n
  reject : ∀ v n type clientId clientOrderId, type = .cancelRejected ∨ type = .modifyRejected →
    P v n → P (v.reject type clientId clientOrderId) n

/-- Between calls, as long as no more than `bound` ids have been handed out. -/
structure Tracked (bound : Nat) (P : BookView → Nat → Prop) (v : BookView) : Prop where
  priced : v.Priced
  counts : v.Counts
  tracked : accepts v.sent ≤ bound → v.Numbered (accepts v.sent) ∧ P v (accepts v.sent)

/-- While taker `a` is matched. -/
structure Taking (bound : Nat) (R : Aggressor → BookView → Nat → Quantity → Prop)
    (a : Aggressor) (v : BookView) (leavesQty : Quantity) : Prop where
  priced : v.Priced
  named : Named a.side
  counts : v.Counts
  taking : ∃ n, accepts v.sent = n + 1 ∧ a.marketOrderId = UInt64.ofNat (n + 1) ∧
    (n < bound → v.Numbered n ∧ R a v n leavesQty)

theorem create_tracked {bound : Nat} {P : BookView → Nat → Prop} (i : InstrumentId)
    (h : P (create i) 0) : (create i).Tracked bound P :=
  ⟨create_priced i, create_counts i, fun _ => ⟨create_numbered i, h⟩⟩

theorem Tracks.stages {bound : Nat} {P : BookView → Nat → Prop}
    {R : Aggressor → BookView → Nat → Quantity → Prop} (h : Tracks bound P R)
    (hbound : bound ≤ 2 ^ 64) : Stages (Tracked bound P) (Taking bound R) SamePrice where
  named _ _ hv ht ho := ht.priced.named hv ho
  accepted v clientId clientOrderId side price quantity _ ht hn := by
    have haccepts : accepts (v.accepted clientId clientOrderId side price quantity).sent =
        accepts v.sent + 1 := accepts_append ..
    refine ⟨priced_structural.report v _ _ ht.priced, hn, ?_, accepts v.sent, haccepts,
      ht.counts, fun hlt => ?_⟩
    · rw [Counts, haccepts]
      change v.nextMarketOrderId + 1 = _
      rw [ht.counts, UInt64.ofNat_add (accepts v.sent + 1) 1]
      rfl
    · obtain ⟨hnum, hP⟩ := ht.tracked hlt.le
      exact ⟨⟨hnum.ids, hnum.born⟩, h.accepted v _
        ⟨clientId, clientOrderId, v.nextMarketOrderId, side, price⟩ quantity hnum hP hlt hn rfl
        ht.counts⟩
  fill a v leavesQty o hv ht hhead ho hleft := by
    obtain ⟨n, hcount, hid, hR⟩ := ht.taking
    have haccepts : accepts (v.fill a leavesQty o).sent = accepts v.sent := by
      rw [sent_fill, accepts_append, accepts_fillMessages, Nat.add_zero]
    refine ⟨priced_structural.fill hv ht.priced a ho leavesQty, ht.named, ?_, n,
      haccepts.trans hcount, hid, fun hlt => ?_⟩
    · rw [Counts, haccepts, nextMarketOrderId_fill]
      exact ht.counts
    · obtain ⟨hnum, hR⟩ := hR hlt
      exact ⟨hnum.fill a leavesQty o, h.fill v n a leavesQty o hv ht.priced hnum hR hlt ht.named
        hid hhead ho hleft⟩
  filled a v ht := by
    obtain ⟨n, hcount, _, hR⟩ := ht.taking
    refine ⟨ht.priced, ht.counts, fun hle => ?_⟩
    rw [hcount] at hle ⊢
    obtain ⟨hnum, hR⟩ := hR hle
    exact ⟨hnum.mono (Nat.le_succ n), h.filled v n a hR⟩
  book a v leavesQty p rest hv ht hpos hfree same hprice := by
    obtain ⟨n, hcount, hid, hR⟩ := ht.taking
    have haccepts : accepts (v.book a.clientId a.clientOrderId a.marketOrderId a.side a.price
        leavesQty).sent = accepts v.sent := by
      rw [sent_book hfree]
      exact accepts_append ..
    refine ⟨priced_structural.book hv ht.priced (by simp [hfree]) same ⟨hprice, ht.named⟩ _ _ _ _,
      ?_, fun hle => ?_⟩
    · rw [Counts, haccepts, nextMarketOrderId_book hfree]
      exact ht.counts
    · rw [haccepts, hcount] at hle ⊢
      obtain ⟨hnum, hR⟩ := hR hle
      refine ⟨?_, h.book v n a leavesQty p rest hv hnum hR hle hid hpos hfree hprice⟩
      rw [book_eq hfree]
      have hadd := hnum.addOrder hv (lt_of_lt_of_le hle hbound) hid (o := v.bookedOrder p a.clientId
        a.clientOrderId a.marketOrderId a.side a.price leavesQty) same
      exact ⟨hadd.ids, hadd.born⟩
  cancelOrder v clientId clientOrderId o hv ht ho := by
    have haccepts : accepts (v.cancelOrder clientId clientOrderId o).sent = accepts v.sent :=
      accepts_append ..
    refine ⟨priced_structural.send _ (priced_structural.removeOrder v o hv ho ht.priced),
      ?_, fun hle => ?_⟩
    · rw [Counts, haccepts]
      exact ht.counts
    · rw [haccepts] at hle ⊢
      obtain ⟨hnum, hP⟩ := ht.tracked hle
      exact ⟨(hnum.removeOrder o).send _, h.cancelOrder v _ clientId clientOrderId o hv hnum hP ho⟩
  reduce v clientId clientOrderId o newQuantity hv ht ho hle' := by
    have haccepts : accepts (v.reduce clientId clientOrderId o newQuantity).sent =
        accepts v.sent := accepts_append ..
    refine ⟨priced_structural.send _ (priced_structural.setQty v _ _ hv ht.priced),
      ?_, fun hle => ?_⟩
    · rw [Counts, haccepts]
      exact ht.counts
    · rw [haccepts] at hle ⊢
      obtain ⟨hnum, hP⟩ := ht.tracked hle
      exact ⟨(hnum.setQty _ _).send _,
        h.reduce v _ clientId clientOrderId o newQuantity hv hnum hP ho hle'⟩
  reject v type clientId clientOrderId htype ht := by
    have haccepts : accepts (v.reject type clientId clientOrderId).sent = accepts v.sent := by
      rcases htype with rfl | rfl <;> exact accepts_append ..
    refine ⟨priced_structural.send _ ht.priced, ?_, fun hle => ?_⟩
    · rw [Counts, haccepts]
      exact ht.counts
    · rw [haccepts] at hle ⊢
      obtain ⟨hnum, hP⟩ := ht.tracked hle
      exact ⟨hnum.send _, h.reject v _ type clientId clientOrderId htype hP⟩

end BookView

section Run
open Transitions
variable {fuel bound : Nat} {i : InstrumentId} {rs : List OrderBook.BookRequest} {s : OrderBook}
  {P : BookView → Nat → Prop} {R : Aggressor → BookView → Nat → Quantity → Prop}

/-- In a run that keeps the prices apart, what the stages keep holds after every call. -/
theorem keepsPrices_tracked (h : Tracks bound P R) (hbound : bound ≤ 2 ^ 64)
    (initial : P (create i) 0) (hfuel : maxNumOrders < fuel)
    (hreached : Reached (OrderBook.call fuel) (OrderBook.KeepsPrices fuel) (.create i) rs s) :
    Simulates (Tracked bound P) s (rs.foldl BookView.call (.create i)) := by
  refine reached_simulates hfuel (create_tracked i initial) ?_ hreached
  intro s v r hr hv ht ha _
  have hprices := keepsPrices_books hfuel hr hv ha
  exact ⟨books_mono (fun _ _ _ => SamePrice.same) hprices, fun hadm =>
    (h.stages hbound).call hv ht ha.2.1 hadm hprices⟩

end Run

end StockExchange
