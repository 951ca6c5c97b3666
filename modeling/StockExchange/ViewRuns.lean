import StockExchange.OrderIds

/-!
# Runs of the view

Every run of the view that books into slots of its price and finds free blocks is a run of
the heap. Runs too long to be evaluated are found on the view.
-/

namespace StockExchange

open BookView Transitions

section Converse
variable {fuel : Nat} {v : BookView}

/-- What the view asks of a request. -/
def BookView.Admits (v : BookView) (r : OrderBook.BookRequest) : Prop :=
  r.Bounded ∧ r.Sided ∧
    v.Books (fun w side price => w.freeOrders ≠ [] ∧ w.SamePrice side price) r

/-- A run of the view is one of the heap. -/
theorem reached_of_view {i : InstrumentId} {rs : List OrderBook.BookRequest}
    (hfuel : maxNumOrders < fuel)
    (h : Reached (fun v r => (.ok (v.call r) : Except Fault BookView)) Admits (.create i) rs v) :
    ∃ s, Reached (OrderBook.call fuel)
      (fun s r => s.WithinPools fuel r ∧ s.KeepsPrices fuel r) (.create i) rs s ∧
      Represents s v ∧ v.Valid := by
  induction h with
  | start => exact ⟨_, .start, create_represents i, create_valid i⟩
  | @call rs v v' r _ ha hcall ih =>
    obtain ⟨s, hs, hr, hv⟩ := ih
    cases hcall
    obtain ⟨hb, hsided, hbooks⟩ := ha
    have hsame : v.Books (fun w side price => w.freeOrders ≠ [] ∧ w.SameSide side price) r :=
      books_mono (fun _ _ _ h => ⟨h.1, h.2.same⟩) hbooks
    obtain ⟨s', hs', hr', hv'⟩ := call_spec hr hv hfuel (admissible_of_books hb hsame)
    have hroom : s.Books fuel (fun s _ _ => s.HasRoom) r :=
      books_heap hr hv hfuel (fun _ _ _ _ hr _ h => (hasRoom_iff hr).mpr h.1) hb.findable hbooks
    have hprice : s.Books fuel OrderBook.SlotOfPrice r :=
      books_heap hr hv hfuel (fun _ _ side price hr hv h =>
        (slotOfPrice_iff hr hv side price).mpr h.2) hb.findable hbooks
    exact ⟨s', hs.call ⟨⟨hb, hroom⟩, hb, hsided, hprice⟩ hs', hr', hv'⟩

end Converse

/-! ## The counter once around -/

section Churn
variable (rest : List OrderPtr) (levels : List LevelPtr) (table : Nat → Nat → Option OrderPtr)
  (id : OrderId) (sent : List Message)

/-- A bid of client 1 at 10 alone in the book. -/
def oneBid : BookView where
  instrumentId := 0
  bids := [⟨0, .buy, 10, [⟨⟨0, 1, 1, 1, .buy, 10, 5, 1⟩, 0⟩]⟩]
  asks := []
  freeOrders := 1 :: rest
  freeLevels := 1 :: levels
  clientOrders := table
  nextMarketOrderId := id
  sent := sent

/-- A better bid of client 2 beside it. -/
def twoBids : BookView :=
  { oneBid rest levels table (id + 1) (sent ++
      [.response ⟨.accepted, 2, 0, 1, id, .buy, 20, 0, 1⟩] ++
      [.update ⟨.add, id, 0, .buy, 20, 1, 1⟩]) with
    bids := [⟨1, .buy, 20, [⟨⟨0, 2, 1, id, .buy, 20, 1, 1⟩, 1⟩]⟩,
      ⟨0, .buy, 10, [⟨⟨0, 1, 1, 1, .buy, 10, 5, 1⟩, 0⟩]⟩]
    freeOrders := rest
    freeLevels := levels
    clientOrders := Function.update table 2 (Function.update (table 2) 1 (some 1)) }

/-- The better bid comes and goes. -/
def churn : List OrderBook.BookRequest := [.add 2 1 .buy 20 1, .cancel 2 1]

theorem oneBid_add : (oneBid rest levels table id sent).call (.add 2 1 .buy 20 1) =
    twoBids rest levels table id sent := rfl

theorem sent_twoBids : (twoBids rest levels table id sent).sent = sent ++
    [.response ⟨.accepted, 2, 0, 1, id, .buy, 20, 0, 1⟩] ++
    [.update ⟨.add, id, 0, .buy, 20, 1, 1⟩] := rfl

def churnMessages : List Message :=
  [.response ⟨.accepted, 2, 0, 1, id, .buy, 20, 0, 1⟩,
   .update ⟨.add, id, 0, .buy, 20, 1, 1⟩,
   .response ⟨.canceled, 2, 0, 1, id, .buy, 20, invalidQuantity, 1⟩,
   .update ⟨.cancel, id, 0, .buy, 20, 0, 1⟩]

theorem twoBids_cancel (hkey : table 2 1 = none) :
    (twoBids rest levels table id sent).call (.cancel 2 1) =
      oneBid rest levels table (id + 1) (sent ++ churnMessages id) := by
  have htable : Function.update (Function.update table 2 (Function.update (table 2) 1 (some 1))) 2
      (Function.update (Function.update (table 2) 1 (some 1)) 1 none) = table := by
    rw [Function.update_idem, Function.update_idem, ← hkey, Function.update_eq_self,
      Function.update_eq_self]
  have hcancel : (twoBids rest levels table id sent).call (.cancel 2 1) =
      { oneBid rest levels table (id + 1) ((twoBids rest levels table id sent).sent ++
          (churnMessages id).drop 2) with
        clientOrders := Function.update
          (Function.update table 2 (Function.update (table 2) 1 (some 1))) 2
          (Function.update (Function.update (table 2) 1 (some 1)) 1 none) } := rfl
  have hsent : (twoBids rest levels table id sent).sent ++ (churnMessages id).drop 2 =
      sent ++ churnMessages id := by
    simp [sent_twoBids, churnMessages]
  rw [hcancel, htable, hsent]
  rfl

theorem oneBid_admits : (oneBid rest levels table id sent).Admits (.add 2 1 .buy 20 1) := by
  have haccept : (oneBid rest levels table id sent).accept 2 1 .buy 20 1 =
      (oneBid rest levels table (id + 1) (sent ++
        [.response ⟨.accepted, 2, 0, 1, id, .buy, 20, 0, 1⟩]), 1) := rfl
  refine ⟨by decide, Or.inl rfl, fun _ => ?_⟩
  rw [haccept]
  refine ⟨nofun, fun l hl hslot => ?_⟩
  obtain rfl := List.mem_singleton.mp hl
  exact absurd hslot (by decide)

theorem oneBid_join :
    (oneBid rest levels table id sent).Admits (.add 3 1 .buy 10 5) ∧
      ((oneBid rest levels table id sent).call (.add 3 1 .buy 10 5)).sent = sent ++
        [.response ⟨.accepted, 3, 0, 1, id, .buy, 10, 0, 5⟩] ++
        [.update ⟨.add, id, 0, .buy, 10, 5, 2⟩] := by
  have haccept : (oneBid rest levels table id sent).accept 3 1 .buy 10 5 =
      (oneBid rest levels table (id + 1) (sent ++
        [.response ⟨.accepted, 3, 0, 1, id, .buy, 10, 0, 5⟩]), 5) := rfl
  refine ⟨⟨by decide, Or.inl rfl, fun _ => ?_⟩, rfl⟩
  rw [haccept]
  refine ⟨nofun, fun l hl _ => ?_⟩
  obtain rfl := List.mem_singleton.mp hl
  exact ⟨rfl, rfl⟩

/-- The first bid meets an empty book. -/
theorem create_oneBid : (create 0).Admits (.add 1 1 .buy 10 5) ∧
    ∃ rest levels table, table 2 1 = none ∧ (create 0).call (.add 1 1 .buy 10 5) =
      oneBid rest levels table 2 [.response ⟨.accepted, 1, 0, 1, 1, .buy, 10, 0, 5⟩,
        .update ⟨.add, 1, 0, .buy, 10, 5, 1⟩] := by
  have horders : List.range maxNumOrders =
      0 :: 1 :: (List.range 2046).map (Nat.succ ∘ Nat.succ) := by
    rw [maxNumOrders, List.range_succ_eq_map, List.range_succ_eq_map, List.map_cons, List.map_map]
  have hlevels : List.range maxPriceLevels =
      0 :: 1 :: (List.range 254).map (Nat.succ ∘ Nat.succ) := by
    rw [maxPriceLevels, List.range_succ_eq_map, List.range_succ_eq_map, List.map_cons,
      List.map_map]
  have hcreate : create 0 = { create 0 with
      freeOrders := 0 :: 1 :: (List.range 2046).map (Nat.succ ∘ Nat.succ)
      freeLevels := 0 :: 1 :: (List.range 254).map (Nat.succ ∘ Nat.succ) } := by
    rw [create, horders, hlevels]
  rw [hcreate]
  generalize (List.range 2046).map (Nat.succ ∘ Nat.succ) = rest
  generalize (List.range 254).map (Nat.succ ∘ Nat.succ) = levels
  refine ⟨⟨by decide, Or.inl rfl, fun _ => ⟨List.cons_ne_nil 0 _, fun l hl => ?_⟩⟩, rest,
    levels, Function.update (fun _ _ => none) 1 (Function.update (fun _ => none) 1 (some 0)), rfl,
    rfl⟩
  exact absurd hl (List.not_mem_nil)

/-- The book after the bid of client 1 and `k` times the coming and going of the better
one. -/
theorem churn_reached (k : Nat) : ∃ rest levels table ms, table 2 1 = none ∧
    Reached (fun v r => (.ok (v.call r) : Except Fault BookView)) Admits (.create 0)
      (.add 1 1 .buy 10 5 :: (List.replicate k churn).flatten)
      (oneBid rest levels table (UInt64.ofNat (k + 2))
        ([.response ⟨.accepted, 1, 0, 1, 1, .buy, 10, 0, 5⟩,
          .update ⟨.add, 1, 0, .buy, 10, 5, 1⟩] ++ ms)) := by
  induction k with
  | zero =>
    obtain ⟨hadmits, rest, levels, table, hkey, hcall⟩ := create_oneBid
    exact ⟨rest, levels, table, [], hkey, hcall ▸ Reached.start.call hadmits rfl⟩
  | succ k ih =>
    obtain ⟨rest, levels, table, ms, hkey, h⟩ := ih
    refine ⟨rest, levels, table, ms ++ churnMessages (UInt64.ofNat (k + 2)), hkey, ?_⟩
    have hadd := h.call (oneBid_admits ..) rfl
    have hadmits : ∀ v : BookView, v.Admits (.cancel 2 1) := fun _ => ⟨by decide, trivial, trivial⟩
    have hcancel := hadd.call (hadmits _) rfl
    rw [oneBid_add, twoBids_cancel _ _ _ _ _ hkey] at hcancel
    have hnext : UInt64.ofNat (k + 1 + 2) = UInt64.ofNat (k + 2) + 1 := by
      rw [show k + 1 + 2 = (k + 2) + 1 from rfl, UInt64.ofNat_add]
      rfl
    rw [hnext, List.replicate_succ', List.flatten_append]
    simpa [churn] using hcancel

/-- A bid, 2^64 - 1 times a better one that is canceled, and the same bid of another
client. -/
def onceAround : List OrderBook.BookRequest :=
  .add 1 1 .buy 10 5 :: (List.replicate (2 ^ 64 - 1) churn).flatten ++ [.add 3 1 .buy 10 5]

/-- The id of the last bid is that of the first. -/
theorem onceAround_reached {fuel : Nat} (hfuel : maxNumOrders < fuel) : ∃ s ms,
    Reached (OrderBook.call fuel) (fun s r => s.WithinPools fuel r ∧ s.KeepsPrices fuel r)
      (.create 0) onceAround s ∧
    s.sent = [.response ⟨.accepted, 1, 0, 1, 1, .buy, 10, 0, 5⟩,
      .update ⟨.add, 1, 0, .buy, 10, 5, 1⟩] ++ ms ++
      [.response ⟨.accepted, 3, 0, 1, 1, .buy, 10, 0, 5⟩] ++
      [.update ⟨.add, 1, 0, .buy, 10, 5, 2⟩] := by
  obtain ⟨rest, levels, table, ms, _, h⟩ := churn_reached (2 ^ 64 - 1)
  have hid : UInt64.ofNat (2 ^ 64 - 1 + 2) = 1 := by decide
  rw [hid] at h
  obtain ⟨hadmits, hsent⟩ := oneBid_join rest levels table 1 _
  obtain ⟨s, hs, hr, _⟩ := reached_of_view hfuel (h.call hadmits rfl)
  exact ⟨s, ms, hs, hr.sent.trans hsent⟩

end Churn

end StockExchange
