import StockExchange.TradingSystem
import Mathlib.Algebra.Group.Nat.Defs
import Mathlib.Algebra.Ring.Int.Defs

/-!
# The position limit

A pre-trade check bounds the position that one more order can lead to. It keeps the limit
when the position it reads is the quantity filled so far, and fills never reach the
position that it does read.
-/

namespace StockExchange

open Transitions

/-- The net quantity that the `FILLED` responses report for an instrument. -/
def netFilled (i : Nat) (rs : List ClientResponseInternal) : Int :=
  ((rs.filter fun r => r.type = .filled ∧ r.instrumentId.toNat = i).map fun r =>
    (sideToValue r.side).toInt * r.execQty.toNat).sum

/-- What an order may still add to the position. -/
def OmOrder.openQty (o : OmOrder) : Nat :=
  if o.orderState = .pendingNew ∨ o.orderState = .live then o.qty.toNat else 0

section Check
variable {side : Side} {qty : Quantity}

theorem sideToValue_cases (side : Side) :
    side = .buy ∧ (sideToValue side).toInt = 1 ∧ sideToIndex side = 0 ∨
      side ≠ .buy ∧ (sideToValue side).toInt = -1 ∧ sideToIndex side = 1 := by
  by_cases h : side = .buy
  · exact Or.inl ⟨h, by rw [sideToValue, if_pos h]; rfl, by rw [sideToIndex, if_pos h]⟩
  · exact Or.inr ⟨h, by rw [sideToValue, if_neg h]; rfl, by rw [sideToIndex, if_neg h]⟩

theorem sideToValue_of_index {side' : Side} (h : sideToIndex side = sideToIndex side') :
    sideToValue side = sideToValue side' := by
  unfold sideToIndex at h
  unfold sideToValue
  split at h <;> split at h <;> simp_all

theorem toInt_toInt32 (h : qty.toNat < 2 ^ 31) : qty.toInt32.toInt = qty.toNat := by
  have hqty : qty.toInt32 = Int32.ofNat qty.toNat := by
    rw [← UInt32.toInt32_ofNat', UInt32.ofNat_toNat]
  rw [hqty, Int32.toInt_ofNat_of_lt (by omega)]

theorem toInt_abs {x : Int32} (h : x.toInt.natAbs < 2 ^ 31) : x.abs.toInt = x.toInt.natAbs := by
  have hmin : x.toBitVec ≠ BitVec.intMin 32 := by
    intro heq
    have hx : x.toInt = (BitVec.intMin 32).toInt := congrArg BitVec.toInt heq
    have hvalue : (BitVec.intMin 32).toInt = -2 ^ 31 := by decide
    omega
  change x.toBitVec.abs.toInt = _
  rw [BitVec.toInt_abs_eq_natAbs, if_neg hmin]
  rfl

theorem toInt_signed (h : qty.toNat < 2 ^ 30) :
    (sideToValue side * qty.toInt32).toInt = (sideToValue side).toInt * qty.toNat := by
  rcases sideToValue_cases side with ⟨_, hv, _⟩ | ⟨_, hv, _⟩ <;>
    rw [Int32.toInt_mul, toInt_toInt32 (by omega), hv, Int.bmod_eq_of_le] <;> omega

/-- An allowed order can move a position within the limit no further than the limit. -/
theorem checkPretradeRisk_within {r : RiskInfo} (hsize : r.riskCfg.maxOrderSize.toNat < 2 ^ 30)
    (hlimit : r.riskCfg.maxPosition.toNat < 2 ^ 30)
    (hposition : r.positionInfo.position.toInt.natAbs ≤ r.riskCfg.maxPosition.toNat)
    (h : r.checkPretradeRisk side qty = .allowed) :
    (sideToValue side).toInt * r.positionInfo.position.toInt + qty.toNat ≤
      r.riskCfg.maxPosition.toNat := by
  rw [RiskInfo.checkPretradeRisk] at h
  split at h
  · cases h
  rename_i hqty
  split at h
  · cases h
  rename_i hmoved
  rw [UInt32.lt_iff_toNat_lt] at hqty
  have hqty' : qty.toNat < 2 ^ 30 := by omega
  have hv : (sideToValue side).toInt = 1 ∨ (sideToValue side).toInt = -1 :=
    (sideToValue_cases side).imp (fun h => h.2.1) fun h => h.2.1
  have hadd : (r.positionInfo.position + sideToValue side * qty.toInt32).toInt =
      r.positionInfo.position.toInt + (sideToValue side).toInt * qty.toNat := by
    rcases hv with hv | hv <;>
      rw [Int32.toInt_add, toInt_signed hqty', hv, Int.bmod_eq_of_le] <;> omega
  have hsmall : (r.positionInfo.position + sideToValue side * qty.toInt32).toInt.natAbs <
      2 ^ 31 := by
    rcases hv with hv | hv <;> rw [hadd, hv] <;> omega
  rw [Int32.lt_iff_toInt_lt, toInt_toInt32 (by omega), toInt_abs hsmall, hadd] at hmoved
  rcases hv with hv | hv <;> rw [hv] at hmoved ⊢ <;> omega

end Check

section Fills
variable {o : OmOrder} {qs : List ClientRequestInternal} {r : ClientResponseInternal}
  {rs : List ClientResponseInternal} {xs : List VenueOrder} {i : Nat}

theorem openQty_eq (h : o.orderState = .pendingNew ∨ o.orderState = .live) :
    o.openQty = o.qty.toNat := if_pos h

theorem openQty_dead (h : o.orderState = .dead) : o.openQty = 0 := by
  rw [OmOrder.openQty, if_neg (by rw [h]; decide)]

theorem openQty_le_qty (o : OmOrder) : o.openQty ≤ o.qty.toNat := by
  rw [OmOrder.openQty]
  split <;> omega

/-- A response takes what it fills from what its order may still fill. -/
theorem Agrees.openQty_le (h : Agrees o qs (r :: rs) xs) :
    (o.onOrderUpdate r).openQty + (if r.type = .filled then r.execQty.toNat else 0) ≤
      o.openQty := by
  generalize hrs : r :: rs = rs' at h
  cases h with
  | idle | requested => cases hrs
  | accepted state type =>
    cases hrs
    have hno : ¬ r.type = .filled := by rw [type]; decide
    rw [onOrderUpdate_accepted type, if_neg hno, openQty_eq (Or.inl state), Nat.add_zero]
    exact openQty_le_qty _
  | live state left =>
    subst hrs
    rw [openQty_eq (Or.inr state)]
    generalize o.qty = qty at left
    cases left with
    | reduced type within leaves some_left =>
      have hopen := openQty_le_qty (o.onOrderUpdate r)
      have hleaves := UInt32.toNat_sub_of_le _ _ within
      have hle := UInt32.le_iff_toNat_le.mp within
      rw [onOrderUpdate_filled type] at hopen ⊢
      rw [← leaves] at hleaves
      rw [if_pos type]
      dsimp only at hopen
      omega
    | filled type within leaves none_left =>
      have hle := UInt32.le_iff_toNat_le.mp within
      rw [if_pos type, onOrderUpdate_filled type, openQty_dead (if_pos none_left)]
      omega
    | canceled type =>
      have hno : ¬ r.type = .filled := by rw [type]; decide
      rw [if_neg hno, onOrderUpdate_canceled type, openQty_dead rfl]
      omega

theorem netFilled_concat (i : Nat) (rs : List ClientResponseInternal) (r : ClientResponseInternal) :
    netFilled i (rs ++ [r]) = netFilled i rs +
      if r.type = .filled ∧ r.instrumentId.toNat = i then
        (sideToValue r.side).toInt * r.execQty.toNat else 0 := by
  rw [netFilled, List.filter_append, List.map_append, List.sum_append, ← netFilled]
  congr 1
  by_cases h : r.type = .filled ∧ r.instrumentId.toNat = i
  · simp [h]
  · simp [h]

end Fills

namespace TradingSystem
variable {s s' : TradingSystem} {i k : Nat}

/-- What the check would read if fills reached the position. -/
def recorded (s : TradingSystem) (i : Nat) : RiskInfo :=
  ⟨{ s.engine.instrumentPosition i with position := Int32.ofInt (netFilled i s.received) },
    s.engine.riskCfg i⟩

/-- A new order passes the check on the quantity filled so far as well. -/
def KeepsSide (s : TradingSystem) (i : Nat) (side : Side) (price : Price) (qty : Quantity) :
    Prop :=
  s.engine.Sends i (sideToIndex side) price side qty →
    (s.recorded i).checkPretradeRisk side qty = .allowed

def KeepsPosition (s : TradingSystem) : TradingStep → Prop
  | .moveOrders instrumentId bidPrice askPrice clip =>
    s.KeepsSide instrumentId.toNat .buy bidPrice clip ∧
      s.KeepsSide instrumentId.toNat .sell askPrice clip
  | _ => True

instance (e : TradeEngine) (i k : Nat) (price : Price) (side : Side) (qty : Quantity) :
    Decidable (e.Sends i k price side qty) :=
  decidable_of_iff (((e.instrumentSideOrder i k).orderState = .invalid ∨
      (e.instrumentSideOrder i k).orderState = .dead) ∧ price ≠ invalidPrice ∧
      (e.risk i).checkPretradeRisk side qty = .allowed)
    ⟨fun h => ⟨h.1, h.2.1, h.2.2⟩, fun h => ⟨h.state, h.price, h.allowed⟩⟩

instance (s : TradingSystem) (i : Nat) (side : Side) (price : Price) (qty : Quantity) :
    Decidable (s.KeepsSide i side price qty) := inferInstanceAs (Decidable (_ → _))

instance (s : TradingSystem) : (r : TradingStep) → Decidable (s.KeepsPosition r)
  | .moveOrders .. => inferInstanceAs (Decidable (_ ∧ _))
  | .answer _ | .fill .. | .read => .isTrue trivial

/-- The filled quantity and what the orders of either side may add to it are within the
limit. -/
structure Held (riskCfg : Nat → RiskConfig) (s : TradingSystem) : Prop where
  consistent : s.Consistent
  config : s.engine.riskCfg = riskCfg
  within : ∀ i side, (sideToValue side).toInt * netFilled i s.received +
    (s.engine.instrumentSideOrder i (sideToIndex side)).openQty ≤ (riskCfg i).maxPosition.toNat

variable {riskCfg : Nat → RiskConfig}

theorem create_held (riskCfg : Nat → RiskConfig) : (create riskCfg).Held riskCfg where
  consistent := create_consistent riskCfg
  config := rfl
  within i side := by
    have hnet : netFilled i (create riskCfg).received = 0 := rfl
    rw [hnet, Int.mul_zero]
    exact Int.natCast_nonneg _

/-- The limit holds on both sides, so it holds of the absolute value. -/
theorem Held.natAbs_le (h : s.Held riskCfg) (i : Nat) :
    (netFilled i s.received).natAbs ≤ (riskCfg i).maxPosition.toNat := by
  have hbuy := h.within i .buy
  have hsell := h.within i .sell
  have hone : (sideToValue .buy).toInt = 1 := rfl
  have hminus : (sideToValue .sell).toInt = -1 := rfl
  rw [hone] at hbuy
  rw [hminus] at hsell
  omega

/-- A new order leaves the other side alone. -/
theorem KeepsSide.moveOrder {instrumentId : InstrumentId} {side side' : Side}
    {price price' : Price} {qty qty' : Quantity} {e : TradeEngine}
    (h : s.KeepsSide i side' price' qty') (hi : instrumentId.toNat = i)
    (hside : sideToIndex side' ≠ sideToIndex side)
    (hmove : s.engine.moveOrder i (sideToIndex side) instrumentId price side qty = .ok e) :
    KeepsSide { s with engine := e } i side' price' qty' := by
  rcases TradeEngine.moveOrder_cases hi hmove with ⟨_, rfl⟩ | ⟨_, rfl⟩ | ⟨_, rfl⟩
  · exact h
  · exact fun hs => h ⟨hs.state, hs.price, hs.allowed⟩
  · intro hs
    have hstate := hs.state
    change (TradeEngine.instrumentSideOrder (TradeEngine.setOrder _ i _ _) i _).orderState = _ ∨
      (TradeEngine.instrumentSideOrder (TradeEngine.setOrder _ i _ _) i _).orderState = _
      at hstate
    rw [TradeEngine.setOrder_ne _ _ fun hk => hside hk.2] at hstate
    exact h ⟨hstate, hs.price, hs.allowed⟩

/-- A new order passes the check on the filled quantity, so its fills stay within the limit. -/
theorem Held.moveOrder (hsize : ∀ i, (riskCfg i).maxOrderSize.toNat < 2 ^ 30)
    (hlimit : ∀ i, (riskCfg i).maxPosition.toNat < 2 ^ 30) (h : s.Held riskCfg)
    {instrumentId : InstrumentId} {side : Side} {price : Price} {qty : Quantity}
    {e : TradeEngine} (hkeeps : s.KeepsSide instrumentId.toNat side price qty)
    (hmove : s.engine.moveOrder instrumentId.toNat (sideToIndex side) instrumentId price side
      qty = .ok e) : Held riskCfg { s with engine := e } := by
  have hconsistent := h.consistent.moveOrder ⟨rfl, rfl⟩ hmove
  rcases TradeEngine.moveOrder_cases rfl hmove with ⟨_, rfl⟩ | ⟨_, rfl⟩ | ⟨hsends, rfl⟩
  · exact h
  · exact ⟨hconsistent, h.config, h.within⟩
  refine ⟨hconsistent, h.config, fun i side' => ?_⟩
  change _ * netFilled i s.received + ((TradeEngine.setOrder _ _ _ _).instrumentSideOrder i
    (sideToIndex side')).openQty ≤ _
  by_cases hsame : i = instrumentId.toNat ∧ sideToIndex side' = sideToIndex side
  · obtain ⟨rfl, hindex⟩ := hsame
    have hallowed := hkeeps hsends
    have hnet := h.natAbs_le instrumentId.toNat
    have hbound := hlimit instrumentId.toNat
    have hread : (Int32.ofInt (netFilled instrumentId.toNat s.received)).toInt =
        netFilled instrumentId.toNat s.received :=
      Int32.toInt_ofInt_of_le (by omega) (by omega)
    have hcfg : (s.recorded instrumentId.toNat).riskCfg = riskCfg instrumentId.toNat :=
      congrFun h.config _
    have hposition : (s.recorded instrumentId.toNat).positionInfo.position.toInt =
        netFilled instrumentId.toNat s.received := hread
    have hcheck := checkPretradeRisk_within (hcfg ▸ hsize _) (hcfg ▸ hlimit _)
      (by rw [hposition, hcfg]; exact hnet) hallowed
    rw [hposition, hcfg] at hcheck
    rw [hindex, TradeEngine.setOrder_same, sideToValue_of_index hindex]
    exact hcheck
  · rw [TradeEngine.setOrder_ne _ _ hsame]
    exact h.within i side'

theorem Held.congr (h : s.Held riskCfg) (hs' : s'.Consistent) (hsame : s.Untouched s') :
    s'.Held riskCfg where
  consistent := hs'
  config := hsame.config.trans h.config
  within i side := by
    rw [hsame.orders, hsame.received]
    exact h.within i side

/-- A fill moves the position by what its order may no longer fill, and away from the limit
on the other side. -/
theorem Held.read (h : s.Held riskCfg) {e : TradeEngine} (hread : s.engine.readResponse = .ok e) :
    Held riskCfg { s with
      engine := e
      received := s.received ++ s.engine.incomingOgwResponses.take 1 } := by
  have hconsistent := h.consistent.read hread
  rcases TradeEngine.readResponse_cases hread with ⟨hempty, rfl⟩ | ⟨r, rs, hr, rfl⟩
  · rw [hempty, List.take_nil, List.append_nil]
    exact h
  refine ⟨hconsistent, h.config, fun i side => ?_⟩
  have hwithin := h.within i side
  have hagrees := h.consistent i (sideToIndex side)
  rw [hr] at hagrees ⊢
  change _ * netFilled i (s.received ++ [r]) + ((TradeEngine.setOrder _ _ _ _).instrumentSideOrder
    i (sideToIndex side)).openQty ≤ _
  rw [netFilled_concat]
  by_cases hsame : i = r.instrumentId.toNat ∧ sideToIndex side = sideToIndex r.side
  · obtain ⟨rfl, hindex⟩ := hsame
    rw [hindex, TradeEngine.setOrder_same]
    rw [hindex] at hagrees hwithin
    have hvalue := sideToValue_of_index hindex
    by_cases hrejected : r.type = .cancelRejected
    · have hno : ¬ (r.type = .filled ∧ r.instrumentId.toNat = r.instrumentId.toNat) := by
        rw [hrejected]
        exact fun h => absurd h.1 (by decide)
      rwa [onOrderUpdate_cancelRejected hrejected, if_neg hno, Int.add_zero]
    · rw [answers, List.filter_cons_of_pos (by simp [hrejected])] at hagrees
      have hopen := hagrees.openQty_le
      by_cases hfilled : r.type = .filled
      · rw [if_pos hfilled] at hopen
        rw [if_pos ⟨hfilled, rfl⟩, ← hvalue]
        rcases sideToValue_cases side with ⟨_, hv, _⟩ | ⟨_, hv, _⟩ <;> rw [hv] at hwithin ⊢ <;>
          omega
      · rw [if_neg hfilled] at hopen
        rw [if_neg fun h => hfilled h.1, Int.add_zero]
        omega
  · rw [TradeEngine.setOrder_ne _ _ hsame]
    change _ + ((s.engine.instrumentSideOrder i (sideToIndex side)).openQty : Int) ≤ _
    split
    · rename_i hfilled
      have hother : sideToIndex side ≠ sideToIndex r.side :=
        fun hindex => hsame ⟨hfilled.2.symm, hindex⟩
      rcases sideToValue_cases side with ⟨_, hv, hk⟩ | ⟨_, hv, hk⟩ <;>
        rcases sideToValue_cases r.side with ⟨_, hv', hk'⟩ | ⟨_, hv', hk'⟩ <;>
        rw [hv] at hwithin ⊢ <;> rw [hv'] <;> omega
    · rw [Int.add_zero]
      exact hwithin

theorem Held.step (hsize : ∀ i, (riskCfg i).maxOrderSize.toNat < 2 ^ 30)
    (hlimit : ∀ i, (riskCfg i).maxPosition.toNat < 2 ^ 30) (h : s.Held riskCfg)
    {r : TradingStep} (hkeeps : s.KeepsPosition r) (hs' : s.step r = .ok s') :
    s'.Held riskCfg := by
  cases r with
  | moveOrders instrumentId bidPrice askPrice clip =>
    obtain ⟨hbid, hask⟩ := hkeeps
    obtain ⟨e₁, e, hmove, hmove', rfl⟩ := step_moveOrders hs'
    have h₁ : Held riskCfg { s with engine := e₁ } := h.moveOrder hsize hlimit hbid hmove
    exact h₁.moveOrder hsize hlimit (hask.moveOrder rfl (by decide) hmove) hmove'
  | answer marketOrderId =>
    obtain rfl := Except.ok.inj hs'
    exact h.congr (h.consistent.answer _) (untouched_answer s marketOrderId)
  | fill n price execQty =>
    obtain rfl := Except.ok.inj hs'
    exact h.congr (h.consistent.fill _ _ _) (untouched_fill s n price execQty)
  | read =>
    obtain ⟨e, he, rfl⟩ := step_read hs'
    exact h.read he

/-- If every new order passes the check on the quantity filled so far, that quantity stays
within the limit. -/
theorem keepsPosition_within (hsize : ∀ i, (riskCfg i).maxOrderSize.toNat < 2 ^ 30)
    (hlimit : ∀ i, (riskCfg i).maxPosition.toNat < 2 ^ 30) {rs : List TradingStep}
    (h : Reached step KeepsPosition (create riskCfg) rs s) (i : Nat) :
    (netFilled i s.received).natAbs ≤ (riskCfg i).maxPosition.toNat := by
  have hheld : s.Held riskCfg :=
    h.invariant (create_held riskCfg) fun _ _ _ hs hkeeps hs' =>
      hs.step hsize hlimit hkeeps hs'
  exact hheld.natAbs_le i

/-- The position that the check reads is the one the engine starts with. -/
theorem position_reached {admits : TradingSystem → TradingStep → Prop} {rs : List TradingStep}
    (h : Reached step admits (create riskCfg) rs s) :
    s.engine.instrumentPosition = fun _ => .default := by
  have hmove {e e' : TradeEngine} {instrumentId : InstrumentId} {k : Nat} {price : Price}
      {side : Side} {qty : Quantity}
      (hmove : e.moveOrder instrumentId.toNat k instrumentId price side qty = .ok e') :
      e'.instrumentPosition = e.instrumentPosition := by
    rcases TradeEngine.moveOrder_cases rfl hmove with ⟨_, rfl⟩ | ⟨_, rfl⟩ | ⟨_, rfl⟩ <;> rfl
  refine Reached.invariant (P := fun s => s.engine.instrumentPosition = fun _ => .default) rfl
    (fun s r s' hs _ hs' => ?_) h
  cases r with
  | moveOrders instrumentId bidPrice askPrice clip =>
    obtain ⟨e₁, e, hbid, hask, rfl⟩ := step_moveOrders hs'
    exact (hmove hask).trans ((hmove hbid).trans hs)
  | answer marketOrderId =>
    obtain rfl := Except.ok.inj hs'
    exact (untouched_answer s marketOrderId).positions.trans hs
  | fill n price execQty =>
    obtain rfl := Except.ok.inj hs'
    exact (untouched_fill s n price execQty).positions.trans hs
  | read =>
    obtain ⟨e, he, rfl⟩ := step_read hs'
    rcases TradeEngine.readResponse_cases he with ⟨_, rfl⟩ | ⟨r, rs, _, rfl⟩
    · exact hs
    · exact hs

/-- Where fills have reached the position, the condition is the check itself. -/
theorem keepsPosition_of_recorded
    (h : ∀ i, (s.engine.instrumentPosition i).position = Int32.ofInt (netFilled i s.received))
    (r : TradingStep) : s.KeepsPosition r := by
  have hsame (i : Nat) : s.recorded i = s.engine.risk i := by
    rw [recorded, ← h i]
    rfl
  cases r with
  | moveOrders instrumentId bidPrice askPrice clip =>
    refine ⟨fun hsends => ?_, fun hsends => ?_⟩ <;>
      rw [hsame] <;> exact hsends.allowed
  | answer | fill | read => trivial

def oneLot (_ : Nat) : RiskConfig := ⟨1, 1, .finite 0⟩

theorem oneLot_small (i : Nat) :
    (oneLot i).maxOrderSize.toNat < 2 ^ 30 ∧ (oneLot i).maxPosition.toNat < 2 ^ 30 := by
  rw [oneLot]
  decide

/-- The hypotheses are met by a run in which a lot is bought, and sold while another bid
rests. -/
theorem keepsPosition_within_sample : ∃ s,
    Reached step KeepsPosition (create oneLot)
      [.moveOrders 0 10 invalidPrice 1, .answer 1, .read, .fill 0 10 1, .read,
        .moveOrders 0 invalidPrice 12 1, .answer 2, .read, .fill 0 12 1,
        .read, .moveOrders 0 10 12 1, .answer 3, .read] s ∧
    s.received.length = 5 ∧ (netFilled 0 s.received).natAbs ≤ 1 := by
  obtain ⟨s, hs, hcheck⟩ := @reached_of_any _ _ _ step KeepsPosition (create oneLot)
    [.moveOrders 0 10 invalidPrice 1, .answer 1, .read, .fill 0 10 1, .read,
      .moveOrders 0 invalidPrice 12 1, .answer 2, .read, .fill 0 12 1,
      .read, .moveOrders 0 10 12 1, .answer 3, .read] _
    (fun s => s.received.length = 5) (by decide +kernel)
  exact ⟨s, hs, of_decide_eq_true hcheck,
    keepsPosition_within (fun i => (oneLot_small i).1) (fun i => (oneLot_small i).2) hs 0⟩

/-- The check reads a position of zero after every fill, and a second lot is bought. -/
theorem filledTwice_exceeds : ∃ s,
    Reached step (fun _ _ => True) (create oneLot)
      [.moveOrders 0 10 invalidPrice 1, .answer 1, .read, .fill 0 10 1, .read,
        .moveOrders 0 10 invalidPrice 1, .answer 2, .read, .fill 0 10 1, .read] s ∧
    (∀ i, (oneLot i).maxOrderSize.toNat < 2 ^ 30 ∧ (oneLot i).maxPosition.toNat < 2 ^ 30) ∧
    (oneLot 0).maxPosition.toNat < (netFilled 0 s.received).natAbs := by
  obtain ⟨s, hs, hcheck⟩ := @reached_of_any _ _ _ step (fun _ _ => True) (create oneLot)
    [.moveOrders 0 10 invalidPrice 1, .answer 1, .read, .fill 0 10 1, .read,
      .moveOrders 0 10 invalidPrice 1, .answer 2, .read, .fill 0 10 1, .read] _
    (fun s => netFilled 0 s.received = 2) (by decide +kernel)
  refine ⟨s, hs, oneLot_small, ?_⟩
  rw [of_decide_eq_true hcheck]
  decide

end TradingSystem

end StockExchange
