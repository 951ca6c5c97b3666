import StockExchange.PositionLimit
import Mathlib.Algebra.Order.Field.Basic
import Mathlib.Data.List.Induction
import Mathlib.Tactic.FieldSimp
import Mathlib.Tactic.Linarith
import Mathlib.Tactic.LinearCombination
import Mathlib.Tactic.Ring

/-!
# The accounts of a position

`add_fill` keeps the value of what is open at its entry prices and realizes the difference when
it is closed. Over the rationals the two make up what was paid and received. The test for a
position that changes its sign multiplies two positions as `int`.
-/

namespace StockExchange

/-! ## Exact accounts -/

/-- A signed position, what was realized, and the entry value of what is open on either side. -/
@[ext] structure Ledger where
  net : ℤ
  realized : ℚ
  own : ℚ
  other : ℚ

namespace Ledger

/-- A fill of `qty` at `price` in the direction `s`: it adds to what is open on its own side, or
closes what is open on the other and opens what is left. -/
def settle (s : ℤ) (l : Ledger) (price : ℚ) (qty : ℕ) : Ledger :=
  let net := l.net + s * qty
  let vwap := l.other / l.net.natAbs
  if 0 ≤ l.net * s then ⟨net, l.realized, l.own + price * qty, l.other⟩
  else if qty ≤ l.net.natAbs then
    ⟨net, l.realized + qty * (vwap - price) * s, l.own, vwap * net.natAbs⟩
  else ⟨net, l.realized + l.net.natAbs * (vwap - price) * s, price * net.natAbs, 0⟩

/-- The same accounts with the other side as its own. -/
def swap (l : Ledger) : Ledger := { l with own := l.other, other := l.own }

/-- What is realized and open is the `cash`, and nothing is open against the position. -/
structure Balanced (s : ℤ) (l : Ledger) (cash : ℚ) : Prop where
  cash : l.realized - s * l.own + s * l.other = cash
  own : l.own ≠ 0 → 0 < l.net * s
  other : l.other ≠ 0 → l.net * s < 0

section Balanced
variable {s : ℤ} {l : Ledger} {cash : ℚ}

theorem settle_net (s : ℤ) (l : Ledger) (price : ℚ) (qty : ℕ) :
    (l.settle s price qty).net = l.net + s * qty := by
  rw [settle]
  split
  · rfl
  · split <;> rfl

theorem settle_adds (h : 0 ≤ l.net * s) (price : ℚ) (qty : ℕ) : l.settle s price qty =
    ⟨l.net + s * qty, l.realized, l.own + price * qty, l.other⟩ :=
  if_pos h

theorem settle_closes (h : ¬ 0 ≤ l.net * s) (price : ℚ) {qty : ℕ} (hle : qty ≤ l.net.natAbs) :
    l.settle s price qty =
      ⟨l.net + s * qty, l.realized + qty * (l.other / l.net.natAbs - price) * s, l.own,
        l.other / l.net.natAbs * (l.net + s * qty).natAbs⟩ :=
  (if_neg h).trans (if_pos hle)

theorem settle_flips (h : ¬ 0 ≤ l.net * s) (price : ℚ) {qty : ℕ} (hgt : ¬ qty ≤ l.net.natAbs) :
    l.settle s price qty =
      ⟨l.net + s * qty, l.realized + l.net.natAbs * (l.other / l.net.natAbs - price) * s,
        price * (l.net + s * qty).natAbs, 0⟩ :=
  (if_neg h).trans (if_neg hgt)

theorem Balanced.own_zero (h : l.Balanced s cash) (hopposed : ¬ 0 < l.net * s) : l.own = 0 := by
  by_contra hne
  exact hopposed (h.own hne)

theorem Balanced.other_zero (h : l.Balanced s cash) (hadds : ¬ l.net * s < 0) : l.other = 0 := by
  by_contra hne
  exact hadds (h.other hne)

/-- A balanced ledger seen from the other side. -/
theorem Balanced.swap (h : l.Balanced s cash) : l.swap.Balanced (-s) cash := by
  have hcash := h.cash
  refine ⟨?_, fun hne => ?_, fun hne => ?_⟩
  · rw [Ledger.swap]
    push_cast
    linear_combination hcash
  · rw [mul_neg]
    exact neg_pos.mpr (h.other hne)
  · rw [mul_neg]
    exact neg_lt_zero.mpr (h.own hne)

theorem Balanced.settle (hs : s = 1 ∨ s = -1) (h : l.Balanced s cash) (price : ℚ) {qty : ℕ}
    (hqty : 0 < qty) : (l.settle s price qty).Balanced s (cash - s * (price * qty)) := by
  have hcash := h.cash
  by_cases hadds : 0 ≤ l.net * s
  · have hother : l.other = 0 := h.other_zero (not_lt.mpr hadds)
    rw [settle_adds hadds]
    refine ⟨?_, fun _ => ?_, fun hne => absurd hother hne⟩
    · dsimp only
      linear_combination hcash
    · rcases hs with rfl | rfl <;> dsimp only <;> omega
  · have hown : l.own = 0 := h.own_zero fun hpos => hadds hpos.le
    have hnet : (l.net.natAbs : ℚ) ≠ 0 := by
      rw [Nat.cast_ne_zero]
      rcases hs with rfl | rfl <;> omega
    have hclosed : l.other / l.net.natAbs * l.net.natAbs = l.other := div_mul_cancel₀ _ hnet
    by_cases hle : qty ≤ l.net.natAbs
    · rw [settle_closes hadds price hle]
      have hleft : ((l.net + s * qty).natAbs : ℚ) = l.net.natAbs - qty := by
        rw [← Nat.cast_sub hle, Nat.cast_inj]
        rcases hs with rfl | rfl <;> omega
      refine ⟨?_, fun hne => absurd hown hne, fun hne => ?_⟩
      · dsimp only
        rw [hleft]
        linear_combination hcash + (s : ℚ) * hclosed
      · have hpart : (l.net + s * qty).natAbs ≠ 0 :=
          Nat.cast_ne_zero.mp (mul_ne_zero_iff.mp hne).2
        rcases hs with rfl | rfl <;> dsimp only <;> omega
    · rw [settle_flips hadds price hle]
      have hleft : ((l.net + s * qty).natAbs : ℚ) = qty - l.net.natAbs := by
        rw [← Nat.cast_sub (not_le.mp hle).le, Nat.cast_inj]
        rcases hs with rfl | rfl <;> omega
      refine ⟨?_, fun _ => ?_, fun hne => absurd rfl hne⟩
      · dsimp only
        rw [hleft]
        linear_combination hcash + (s : ℚ) * hclosed + (s : ℚ) * hown
      · rcases hs with rfl | rfl <;> dsimp only <;> omega

end Balanced

end Ledger

/-! ## The position of an instrument -/

/-- A product of two `int`s; one that does not fit is left to `overflow`. -/
def mulInt32 (overflow : Int32 → Int32 → Option Int32) (x y : Int32) : Option Int32 :=
  if -2 ^ 31 ≤ x.toInt * y.toInt ∧ x.toInt * y.toInt < 2 ^ 31 then some (x * y) else overflow x y

/-- What a fill adds to the position. -/
def signedQty (r : ClientResponseInternal) : ℤ := (sideToValue r.side).toInt * r.execQty.toNat

namespace PositionInfo

/-- The branch of `add_fill` that opens, increases, decreases or flips: `open_vwap`,
`opposite_side_open_vwap` and `realized_pnl_` after a fill that leads to `position`. -/
def openClose (overflow : Int32 → Int32 → Option Int32) (p : PositionInfo)
    (r : ClientResponseInternal) (position : Int32) : Option (Rat × Rat × Rat) := do
  let oldPosition := p.position
  let openVwap := if r.side = .buy then p.buyOpenVwap else p.sellOpenVwap
  let oppositeSideOpenVwap := if r.side = .buy then p.sellOpenVwap else p.buyOpenVwap
  let sideValue := sideToValue r.side
  if 0 ≤ oldPosition * sideValue then
    some (openVwap + (r.price * r.execQty.toUInt64.toInt64).toInt, oppositeSideOpenVwap,
      p.realizedPnl)
  else do
    let oppSideVwap := oppositeSideOpenVwap / oldPosition.abs.toInt
    let realizedPnl := p.realizedPnl + (min r.execQty.toInt32 oldPosition.abs).toInt *
      (oppSideVwap - r.price.toInt) * sideValue.toInt
    let product ← mulInt32 overflow position oldPosition
    if product < 0 then some ((r.price * position.abs.toInt64).toInt, 0, realizedPnl)
    else some (openVwap, oppSideVwap * position.abs.toInt, realizedPnl)

/-- The end of `add_fill`: what is open at the price of the fill. -/
def revalue (p : PositionInfo) (price : Price) : PositionInfo :=
  let p := if p.position = 0 then
      { p with buyOpenVwap := 0, sellOpenVwap := 0, unrealizedPnl := 0 }
    else if 0 < p.position then
      { p with unrealizedPnl :=
          (price.toInt - p.buyOpenVwap / p.position.abs.toInt) * p.position.abs.toInt }
    else
      { p with unrealizedPnl :=
          (p.sellOpenVwap / p.position.abs.toInt - price.toInt) * p.position.abs.toInt }
  { p with totalPnl := p.unrealizedPnl + p.realizedPnl }

/-- `position_info_t::add_fill`. The quantity is multiplied by `-1` as an unsigned number. -/
def addFill (overflow : Int32 → Int32 → Option Int32) (p : PositionInfo)
    (r : ClientResponseInternal) : Option PositionInfo := do
  let position := (p.position.toUInt32 + r.execQty * (sideToValue r.side).toUInt32).toInt32
  let (openVwap, oppositeSideOpenVwap, realizedPnl) ← p.openClose overflow r position
  some (PositionInfo.revalue
    { p with
      position := position
      volume := p.volume + r.execQty
      realizedPnl := realizedPnl
      buyOpenVwap := if r.side = .buy then openVwap else oppositeSideOpenVwap
      sellOpenVwap := if r.side = .buy then oppositeSideOpenVwap else openVwap } r.price)

def addFills (overflow : Int32 → Int32 → Option Int32) :
    PositionInfo → List ClientResponseInternal → Option PositionInfo
  | p, [] => some p
  | p, r :: rs => p.addFill overflow r >>= fun p => addFills overflow p rs

/-- The accounts as a fill of `side` sees them. -/
def ledger (p : PositionInfo) (side : Side) : Ledger :=
  ⟨p.position.toInt, p.realizedPnl, if side = .buy then p.buyOpenVwap else p.sellOpenVwap,
    if side = .buy then p.sellOpenVwap else p.buyOpenVwap⟩

/-- The accounts after a fill that settles, before they are valued at its price. -/
def settled (p : PositionInfo) (r : ClientResponseInternal) : PositionInfo :=
  let l := (p.ledger r.side).settle (sideToValue r.side).toInt r.price.toInt r.execQty.toNat
  { p with
    position := (p.position.toUInt32 + r.execQty * (sideToValue r.side).toUInt32).toInt32
    volume := p.volume + r.execQty
    realizedPnl := l.realized
    buyOpenVwap := if r.side = .buy then l.own else l.other
    sellOpenVwap := if r.side = .buy then l.other else l.own }

section Fill
variable {p : PositionInfo} {r : ClientResponseInternal} {cash : ℚ}

/-- Whichever side the accounts are seen from, they are balanced or not. -/
theorem balanced_side_iff (side : Side) :
    (p.ledger side).Balanced (sideToValue side).toInt cash ↔ (p.ledger .buy).Balanced 1 cash := by
  rcases sideToValue_cases side with ⟨rfl, hs, -⟩ | ⟨hside, hs, -⟩
  · rw [hs]
  · have hswap : p.ledger side = (p.ledger .buy).swap := by
      rw [ledger, if_neg hside, if_neg hside]
      rfl
    rw [hs, hswap]
    exact ⟨Ledger.Balanced.swap, Ledger.Balanced.swap⟩

/-- The position after a fill, as a number. -/
theorem toInt_position (hfits : p.position.toInt.natAbs + r.execQty.toNat < 2 ^ 31) :
    (p.position.toUInt32 + r.execQty * (sideToValue r.side).toUInt32).toInt32.toInt =
      p.position.toInt + signedQty r := by
  rw [UInt32.toInt32_add, UInt32.toInt32_mul, Int32.toInt32_toUInt32, Int32.toInt32_toUInt32,
    Int32.toInt_add, Int32.toInt_mul, toInt_toInt32 (by omega), signedQty]
  rcases sideToValue_cases r.side with ⟨-, hs, -⟩ | ⟨-, hs, -⟩ <;> rw [hs]
  · rw [Int.bmod_eq_of_le (n := r.execQty.toNat * 1) (by omega) (by omega),
      Int.bmod_eq_of_le (by omega) (by omega)]
    omega
  · rw [Int.bmod_eq_of_le (n := r.execQty.toNat * -1) (by omega) (by omega),
      Int.bmod_eq_of_le (by omega) (by omega)]
    omega

theorem revalue_position (p : PositionInfo) (price : Price) :
    (p.revalue price).position = p.position := by
  unfold revalue
  split
  · rfl
  · split <;> rfl

/-- What is open is worth what it was paid plus what it would bring now. -/
theorem revalue_balanced (hsmall : p.position.toInt.natAbs < 2 ^ 31)
    (h : (p.ledger .buy).Balanced 1 cash) (price : Price) :
    (p.revalue price).ledger .buy = p.ledger .buy ∧
      (p.revalue price).totalPnl = cash + p.position.toInt * price.toInt := by
  have hcash := h.cash
  have hbuy : ¬ 0 < p.position.toInt * 1 → p.buyOpenVwap = 0 := h.own_zero
  have hsell : ¬ p.position.toInt * 1 < 0 → p.sellOpenVwap = 0 := h.other_zero
  simp only [ledger, if_true, Int.cast_one, one_mul] at hcash
  have habs := toInt_abs hsmall
  by_cases hflat : p.position = 0
  · have hzero : p.position.toInt = 0 := congrArg Int32.toInt hflat
    rw [hbuy (by omega), hsell (by omega)] at hcash
    simp only [revalue, if_pos hflat, ledger, if_true]
    rw [hzero, hbuy (by omega), hsell (by omega)]
    exact ⟨rfl, by push_cast; linear_combination hcash⟩
  · have hnet : p.position.toInt ≠ 0 := fun h => hflat (Int32.toInt_inj.mp h)
    have hcast : ((p.position.toInt.natAbs : ℤ) : ℚ) ≠ 0 := by
      rw [Int.cast_ne_zero]
      omega
    by_cases hlong : 0 < p.position
    · have hpos : 0 < p.position.toInt := Int32.lt_iff_toInt_lt.mp hlong
      simp only [revalue, if_neg hflat, if_pos hlong, ledger, if_true, habs, true_and]
      rw [hsell (by omega)] at hcash
      have hvalue : ((p.position.toInt.natAbs : ℤ) : ℚ) = p.position.toInt := by
        rw [Int.cast_inj]
        omega
      have hpaid := div_mul_cancel₀ p.buyOpenVwap hcast
      linear_combination hcash - hpaid + (price.toInt : ℚ) * hvalue
    · have hneg : p.position.toInt < 0 := by
        have hle : ¬ 0 < p.position.toInt := fun h => hlong (Int32.lt_iff_toInt_lt.mpr h)
        omega
      simp only [revalue, if_neg hflat, if_neg hlong, ledger, if_true, habs, true_and]
      rw [hbuy (by omega)] at hcash
      have hvalue : ((p.position.toInt.natAbs : ℤ) : ℚ) = -p.position.toInt := by
        rw [← Int.cast_neg, Int.cast_inj]
        omega
      have hreceived := div_mul_cancel₀ p.sellOpenVwap hcast
      linear_combination hcash + hreceived - (price.toInt : ℚ) * hvalue

/-- A product that fits still fits with a smaller factor. -/
theorem fits_of_le {x : ℤ} {n m : ℕ} (hle : n ≤ m)
    (h : -2 ^ 63 ≤ x * m ∧ x * m < 2 ^ 63) : -2 ^ 63 ≤ x * n ∧ x * n < 2 ^ 63 := by
  have hcast : (n : ℤ) ≤ m := Int.ofNat_le.mpr hle
  rcases le_total 0 x with hx | hx
  · have hup := Int.mul_le_mul_of_nonneg_left hcast hx
    have hlow := Int.mul_nonneg hx (Int.natCast_nonneg n)
    omega
  · have hdown := mul_le_mul_of_nonpos_left hcast hx
    have hhigh := Int.mul_nonpos_of_nonpos_of_nonneg hx (Int.natCast_nonneg n)
    omega

/-- A product of a price and a quantity as `int64_t`. -/
theorem toInt_price_mul {x y : Int64} {n : ℕ} (hy : y.toInt = n)
    (h : -2 ^ 63 ≤ x.toInt * n ∧ x.toInt * n < 2 ^ 63) : (x * y).toInt = x.toInt * n := by
  rw [Int64.toInt_mul, hy, Int.bmod_eq_of_le] <;> omega

theorem toInt_toInt64 (qty : Quantity) : qty.toUInt64.toInt64.toInt = qty.toNat := by
  have hqty : qty.toUInt64.toInt64 = Int64.ofNat qty.toNat := by
    rw [← UInt64.toInt64_ofNat', UInt64.ofNat_uInt32ToNat]
  have hlt := qty.toNat_lt
  rw [hqty, Int64.toInt_ofNat_of_lt (by omega)]

theorem toInt_min (x y : Int32) : (min x y).toInt = min x.toInt y.toInt := by
  change (if x ≤ y then x else y).toInt = _
  split
  · rename_i hle
    exact (min_eq_left (Int32.le_iff_toInt_le.mp hle)).symm
  · rename_i hlt
    rw [Int32.not_le, Int32.lt_iff_toInt_lt] at hlt
    exact (min_eq_right hlt.le).symm

theorem increases_iff (side : Side) (hsmall : p.position.toInt.natAbs < 2 ^ 31) :
    0 ≤ p.position * sideToValue side ↔ 0 ≤ p.position.toInt * (sideToValue side).toInt := by
  have hproduct : (p.position * sideToValue side).toInt =
      p.position.toInt * (sideToValue side).toInt := by
    rw [Int32.toInt_mul]
    rcases sideToValue_cases side with ⟨-, hs, -⟩ | ⟨-, hs, -⟩ <;>
      rw [hs, Int.bmod_eq_of_le] <;> omega
  rw [Int32.le_iff_toInt_le, hproduct]
  rfl

/-- The sign of a product that fits tells whether the fill was more than the position. -/
theorem flips_iff {s : ℤ} {position : Int32} {qty : ℕ} (hs : s = 1 ∨ s = -1)
    (hmoved : position.toInt = p.position.toInt + s * qty) (hdecreases : p.position.toInt * s < 0)
    (hproduct : -2 ^ 31 ≤ position.toInt * p.position.toInt ∧
      position.toInt * p.position.toInt < 2 ^ 31) :
    position * p.position < 0 ↔ ¬ qty ≤ p.position.toInt.natAbs := by
  obtain ⟨hlow, hhigh⟩ := hproduct
  rw [Int32.lt_iff_toInt_lt, Int32.toInt_mul, Int.bmod_eq_of_le (by omega) (by omega)]
  change _ < 0 ↔ _
  rw [mul_neg_iff, hmoved]
  rcases hs with rfl | rfl <;> omega

/-- A fill that increases the position, or decreases it without overflow, settles. -/
theorem openClose_settle (overflow : Int32 → Int32 → Option Int32) {position : Int32}
    (hposition : position.toInt = p.position.toInt + signedQty r)
    (hfits : p.position.toInt.natAbs + r.execQty.toNat < 2 ^ 31)
    (hprice : -2 ^ 63 ≤ r.price.toInt * r.execQty.toNat ∧
      r.price.toInt * r.execQty.toNat < 2 ^ 63)
    (hproduct : p.position.toInt * (sideToValue r.side).toInt < 0 →
      -2 ^ 31 ≤ position.toInt * p.position.toInt ∧ position.toInt * p.position.toInt < 2 ^ 31) :
    let l := (p.ledger r.side).settle (sideToValue r.side).toInt r.price.toInt r.execQty.toNat
    p.openClose overflow r position = some (l.own, l.other, l.realized) := by
  have hs : (sideToValue r.side).toInt = 1 ∨ (sideToValue r.side).toInt = -1 :=
    (sideToValue_cases r.side).imp (fun h => h.2.1) fun h => h.2.1
  have hadds := increases_iff (p := p) r.side (by omega)
  intro l
  rw [openClose]
  by_cases hincreases : 0 ≤ p.position.toInt * (sideToValue r.side).toInt
  · have hl : l = _ := Ledger.settle_adds hincreases _ _
    have hvalue := toInt_price_mul (toInt_toInt64 r.execQty) hprice
    simp only [if_pos (hadds.mpr hincreases), hvalue, hl, ledger]
    push_cast
    rfl
  · have hdecreases := not_le.mp hincreases
    have hold : p.position.toInt.natAbs < 2 ^ 31 := by omega
    have hmoved : position.toInt =
        p.position.toInt + (sideToValue r.side).toInt * r.execQty.toNat := hposition
    have hnew : position.toInt.natAbs < 2 ^ 31 := by
      rcases hs with hs | hs <;> rw [hs] at hmoved <;> omega
    have hflips := flips_iff hs hmoved hdecreases (hproduct hdecreases)
    have hmin : (min r.execQty.toInt32 p.position.abs).toInt =
        min (r.execQty.toNat : ℤ) p.position.toInt.natAbs := by
      rw [toInt_min, toInt_toInt32 (by omega), toInt_abs hold]
    have hmul : mulInt32 overflow position p.position = some (position * p.position) :=
      if_pos (hproduct hdecreases)
    simp only [if_neg (fun h => hincreases (hadds.mp h)), hmul, hmin, toInt_abs hold,
      toInt_abs hnew, Option.bind_eq_bind, Option.bind_some]
    by_cases hle : r.execQty.toNat ≤ p.position.toInt.natAbs
    · have hl : l = _ := Ledger.settle_closes hincreases _ hle
      have hwhole : min (r.execQty.toNat : ℤ) p.position.toInt.natAbs = r.execQty.toNat := by omega
      rw [if_neg fun h => hflips.mp h hle, hl, hwhole, hmoved]
      rfl
    · have hl : l = _ := Ledger.settle_flips hincreases _ hle
      have hwhole : min (r.execQty.toNat : ℤ) p.position.toInt.natAbs =
          p.position.toInt.natAbs := by omega
      have hopened : (r.price * position.abs.toInt64).toInt =
          r.price.toInt * position.toInt.natAbs := by
        refine toInt_price_mul ?_ (fits_of_le ?_ hprice)
        · rw [Int32.toInt_toInt64, toInt_abs hnew]
        · rcases hs with hs | hs <;> rw [hs] at hmoved hdecreases <;> omega
      rw [if_pos (hflips.mpr hle), hl, hwhole, hopened, hmoved, Int.cast_mul]
      rfl

theorem addFill_settled (overflow : Int32 → Int32 → Option Int32)
    (hfits : p.position.toInt.natAbs + r.execQty.toNat < 2 ^ 31)
    (hprice : -2 ^ 63 ≤ r.price.toInt * r.execQty.toNat ∧
      r.price.toInt * r.execQty.toNat < 2 ^ 63)
    (hproduct : p.position.toInt * (sideToValue r.side).toInt < 0 →
      -2 ^ 31 ≤ (p.settled r).position.toInt * p.position.toInt ∧
        (p.settled r).position.toInt * p.position.toInt < 2 ^ 31) :
    p.addFill overflow r = some ((p.settled r).revalue r.price) := by
  have hclosed := openClose_settle overflow (toInt_position hfits) hfits hprice hproduct
  rw [PositionInfo.addFill]
  simp only [Option.bind_eq_bind]
  rw [hclosed]
  rfl

theorem ledger_settled (hfits : p.position.toInt.natAbs + r.execQty.toNat < 2 ^ 31) :
    (p.settled r).ledger r.side =
      (p.ledger r.side).settle (sideToValue r.side).toInt r.price.toInt r.execQty.toNat := by
  ext1
  · rw [Ledger.settle_net]
    exact toInt_position hfits
  · rfl
  · by_cases hs : r.side = .buy <;> simp [ledger, settled, hs]
  · by_cases hs : r.side = .buy <;> simp [ledger, settled, hs]

theorem balanced_settled (hfits : p.position.toInt.natAbs + r.execQty.toNat < 2 ^ 31)
    (hqty : 0 < r.execQty.toNat) (h : (p.ledger .buy).Balanced 1 cash) :
    ((p.settled r).ledger .buy).Balanced 1 (cash - r.price.toInt * signedQty r) := by
  have hs := (sideToValue_cases r.side).imp (fun h => h.2.1) fun h => h.2.1
  have hsettle := ((balanced_side_iff r.side).mpr h).settle hs r.price.toInt hqty
  have hcash : cash - (r.price.toInt * signedQty r : ℚ) =
      cash - (sideToValue r.side).toInt * (r.price.toInt * r.execQty.toNat) := by
    rw [signedQty]
    push_cast
    ring
  rw [← ledger_settled hfits, ← hcash] at hsettle
  exact (balanced_side_iff r.side).mp hsettle

/-- Where nothing becomes of an overflow, a fill that decreases the position did not overflow. -/
theorem fits_of_openClose {position : Int32} {t : Rat × Rat × Rat}
    (hdecreases : ¬ 0 ≤ p.position * sideToValue r.side)
    (h : p.openClose (fun _ _ => none) r position = some t) :
    -2 ^ 31 ≤ position.toInt * p.position.toInt ∧ position.toInt * p.position.toInt < 2 ^ 31 := by
  by_contra hfits
  have hmul : mulInt32 (fun _ _ => none) position p.position = none := if_neg hfits
  simp only [openClose, if_neg hdecreases, hmul, Option.bind_eq_bind, Option.bind_none] at h
  cases h

end Fill

end PositionInfo

/-- Bought minus sold. -/
def netQty (rs : List ClientResponseInternal) : ℤ := (rs.map signedQty).sum

/-- Received for sells minus paid for buys. -/
def netCash (rs : List ClientResponseInternal) : ℤ :=
  (rs.map fun r => -(r.price.toInt * signedQty r)).sum

def tradedQty (rs : List ClientResponseInternal) : ℕ := (rs.map fun r => r.execQty.toNat).sum

/-- Fills of something, with a volume and values that fit their types. -/
structure WithinTypes (rs : List ClientResponseInternal) : Prop where
  positive : ∀ r ∈ rs, 0 < r.execQty
  volume : tradedQty rs < 2 ^ 31
  products : ∀ r ∈ rs, -2 ^ 63 ≤ r.price.toInt * r.execQty.toNat ∧
    r.price.toInt * r.execQty.toNat < 2 ^ 63

/-- Whenever a fill decreases the position, the product of the positions before and after it
fits an `int`. -/
def NoOverflow (rs : List ClientResponseInternal) : Prop :=
  ∀ before r after, rs = before ++ r :: after →
    netQty before * (sideToValue r.side).toInt < 0 →
    -2 ^ 31 ≤ netQty (before ++ [r]) * netQty before ∧
      netQty (before ++ [r]) * netQty before < 2 ^ 31

namespace PositionInfo

/-- The position is what was bought minus what was sold, something is open only in its direction,
and profit and loss are what was received and paid and what the position is worth. -/
structure ExactAccounts (p : PositionInfo) (rs : List ClientResponseInternal) : Prop where
  position : p.position.toInt = netQty rs
  totalPnl : ∀ last ∈ rs.getLast?,
    p.totalPnl = netCash rs + p.position.toInt * last.price.toInt
  buyOpenVwap : p.buyOpenVwap ≠ 0 → 0 < p.position
  sellOpenVwap : p.sellOpenVwap ≠ 0 → p.position < 0

/-- What `add_fill` keeps from fill to fill. -/
structure Accounts (p : PositionInfo) (rs : List ClientResponseInternal) : Prop where
  position : p.position.toInt = netQty rs
  balanced : (p.ledger .buy).Balanced 1 (netCash rs)

section Run
variable {p : PositionInfo} {r : ClientResponseInternal} {rs : List ClientResponseInternal}
  {overflow : Int32 → Int32 → Option Int32}

theorem natAbs_netQty_le (rs : List ClientResponseInternal) :
    (netQty rs).natAbs ≤ tradedQty rs := by
  induction rs with
  | nil => exact le_refl 0
  | cons r rs ih =>
    have hnet : netQty (r :: rs) = signedQty r + netQty rs := List.sum_cons
    have htraded : tradedQty (r :: rs) = r.execQty.toNat + tradedQty rs := List.sum_cons
    rw [hnet, htraded, signedQty]
    rcases sideToValue_cases r.side with ⟨-, hs, -⟩ | ⟨-, hs, -⟩ <;> rw [hs] <;> omega

theorem netQty_concat (rs : List ClientResponseInternal) (r : ClientResponseInternal) :
    netQty (rs ++ [r]) = netQty rs + signedQty r := by
  rw [netQty, List.map_append, List.sum_append, List.map_singleton, List.sum_singleton]
  rfl

theorem netCash_concat (rs : List ClientResponseInternal) (r : ClientResponseInternal) :
    netCash (rs ++ [r]) = netCash rs - r.price.toInt * signedQty r := by
  rw [netCash, List.map_append, List.sum_append, List.map_singleton, List.sum_singleton,
    sub_eq_add_neg]
  rfl

theorem tradedQty_concat (rs : List ClientResponseInternal) (r : ClientResponseInternal) :
    tradedQty (rs ++ [r]) = tradedQty rs + r.execQty.toNat := by
  rw [tradedQty, List.map_append, List.sum_append]
  rfl

theorem addFills_concat (p : PositionInfo) (rs : List ClientResponseInternal)
    (r : ClientResponseInternal) : addFills overflow p (rs ++ [r]) =
      addFills overflow p rs >>= fun p => p.addFill overflow r := by
  induction rs generalizing p with
  | nil =>
    simp only [List.nil_append, addFills, Option.bind_eq_bind, Option.bind_some]
    cases p.addFill overflow r <;> rfl
  | cons r' rs ih =>
    simp only [List.cons_append, addFills, Option.bind_eq_bind, Option.bind_assoc]
    cases p.addFill overflow r' with
    | none => rfl
    | some p => exact ih p

/-- One fill keeps the accounts and values them at its price. -/
theorem Accounts.addFill (overflow : Int32 → Int32 → Option Int32) (h : p.Accounts rs)
    (hwithin : WithinTypes (rs ++ [r]))
    (hproduct : netQty rs * (sideToValue r.side).toInt < 0 →
      -2 ^ 31 ≤ netQty (rs ++ [r]) * netQty rs ∧ netQty (rs ++ [r]) * netQty rs < 2 ^ 31) :
    ∃ p', p.addFill overflow r = some p' ∧ p'.Accounts (rs ++ [r]) ∧
      p'.totalPnl = netCash (rs ++ [r]) + p'.position.toInt * r.price.toInt := by
  have hr : r ∈ rs ++ [r] := List.mem_append_right _ List.mem_cons_self
  have hqty : 0 < r.execQty.toNat := UInt32.lt_iff_toNat_lt.mp (hwithin.positive r hr)
  have hvolume := hwithin.volume
  have hnet := natAbs_netQty_le rs
  have hafter := natAbs_netQty_le (rs ++ [r])
  rw [tradedQty_concat] at hvolume hafter
  have hfits : p.position.toInt.natAbs + r.execQty.toNat < 2 ^ 31 := by
    rw [h.position]
    omega
  have hposition : (p.settled r).position.toInt = netQty (rs ++ [r]) := by
    rw [netQty_concat, ← h.position]
    exact toInt_position hfits
  have hadd := addFill_settled overflow hfits (hwithin.products r hr)
    (by rwa [hposition, h.position])
  have hbalanced := balanced_settled hfits hqty h.balanced
  rw [← Int.cast_mul, ← Int.cast_sub, ← netCash_concat] at hbalanced
  have hsmall : (p.settled r).position.toInt.natAbs < 2 ^ 31 := by
    rw [hposition]
    omega
  obtain ⟨hkept, htotal⟩ := revalue_balanced hsmall hbalanced r.price
  have hsame := revalue_position (p.settled r) r.price
  refine ⟨_, hadd, ⟨?_, ?_⟩, ?_⟩
  · rw [hsame, hposition]
  · rw [hkept]
    exact hbalanced
  · rw [htotal, hsame]

theorem accounts_default : Accounts .default [] :=
  ⟨rfl, by simp [PositionInfo.default, ledger, netCash], fun h => absurd rfl h,
    fun h => absurd rfl h⟩

theorem Accounts.exact (h : p.Accounts rs) (htotal : ∀ last ∈ rs.getLast?,
    p.totalPnl = netCash rs + p.position.toInt * last.price.toInt) : p.ExactAccounts rs := by
  refine ⟨h.position, htotal, fun hne => ?_, fun hne => ?_⟩
  · have hlong : 0 < p.position.toInt * 1 := h.balanced.own hne
    exact Int32.lt_iff_toInt_lt.mpr (by rwa [mul_one] at hlong)
  · have hshort : p.position.toInt * 1 < 0 := h.balanced.other hne
    exact Int32.lt_iff_toInt_lt.mpr (by rwa [mul_one] at hshort)

theorem withinTypes_before (h : WithinTypes (rs ++ [r])) : WithinTypes rs := by
  have hvolume := h.volume
  rw [tradedQty_concat] at hvolume
  exact ⟨fun r' hr' => h.positive r' (List.mem_append_left _ hr'), by omega,
    fun r' hr' => h.products r' (List.mem_append_left _ hr')⟩

theorem noOverflow_before (h : NoOverflow (rs ++ [r])) : NoOverflow rs := by
  rintro before r' after rfl
  exact h before r' (after ++ [r]) (by simp)

/-- Without overflow the accounts are exact after every fill. -/
theorem addFills_accounts (overflow : Int32 → Int32 → Option Int32) (hwithin : WithinTypes rs)
    (h : NoOverflow rs) :
    ∃ p, addFills overflow .default rs = some p ∧ p.Accounts rs ∧ p.ExactAccounts rs := by
  induction rs using List.reverseRecOn with
  | nil => exact ⟨_, rfl, accounts_default, accounts_default.exact fun _ hlast => by cases hlast⟩
  | append_singleton rs r ih =>
    obtain ⟨p, hp, haccounts, -⟩ := ih (withinTypes_before hwithin) (noOverflow_before h)
    obtain ⟨p', hp', haccounts', htotal⟩ :=
      haccounts.addFill overflow hwithin (h rs r [] rfl)
    refine ⟨p', ?_, haccounts', haccounts'.exact fun last hlast => ?_⟩
    · rw [addFills_concat, hp]
      exact hp'
    · obtain rfl : r = last := by simpa using hlast
      exact htotal

/-- Where nothing becomes of an overflow, fills that were all processed did not overflow. -/
theorem noOverflow_of_addFills (hwithin : WithinTypes rs)
    (h : addFills (fun _ _ => none) .default rs = some p) : NoOverflow rs := by
  induction rs using List.reverseRecOn generalizing p with
  | nil => exact fun before r after hnil => by simp at hnil
  | append_singleton rs r ih =>
    rw [addFills_concat] at h
    obtain ⟨q, hq, hfill⟩ := Option.bind_eq_some_iff.mp h
    have hbefore := ih (withinTypes_before hwithin) hq
    obtain ⟨q', hq', haccounts, -⟩ :=
      addFills_accounts (fun _ _ => none) (withinTypes_before hwithin) hbefore
    obtain rfl := Option.some.inj (hq'.symm.trans hq)
    intro before r' after hsplit hdecreases
    rcases List.eq_nil_or_concat after with rfl | ⟨after, last, rfl⟩
    · obtain ⟨rfl, hlast⟩ := List.append_inj' hsplit rfl
      obtain rfl : r = r' := by simpa using hlast
      have hbound := hwithin.volume
      have hnet := natAbs_netQty_le rs
      rw [tradedQty_concat] at hbound
      have hs : ¬ 0 ≤ q'.position * sideToValue r.side := by
        rw [increases_iff r.side (by rw [haccounts.position]; omega), haccounts.position]
        exact not_le.mpr hdecreases
      simp only [PositionInfo.addFill, Option.bind_eq_bind] at hfill
      obtain ⟨t, ht, -⟩ := Option.bind_eq_some_iff.mp hfill
      have hfits := fits_of_openClose hs ht
      rw [toInt_position (by rw [haccounts.position]; omega), haccounts.position,
        ← netQty_concat] at hfits
      exact hfits
    · rw [List.concat_eq_append, ← List.cons_append, ← List.append_assoc] at hsplit
      exact hbefore before r' after (List.append_inj' hsplit rfl).1 hdecreases

/-- For all fills within the types of their fields: the accounts are exact, whatever becomes of
a product that does not fit an `int`, if and only if there is none. -/
theorem addFills_exact (hwithin : WithinTypes rs) :
    (∀ overflow, ∃ p, addFills overflow .default rs = some p ∧ p.ExactAccounts rs) ↔
      NoOverflow rs := by
  constructor
  · intro h
    obtain ⟨p, hp, -⟩ := h fun _ _ => none
    exact noOverflow_of_addFills hwithin hp
  · intro h overflow
    obtain ⟨p, hp, -, hexact⟩ := addFills_accounts overflow hwithin h
    exact ⟨p, hp, hexact⟩

/-- A `FILLED` of `qty` at `price`. -/
def fillOf (side : Side) (price : Price) (qty : Quantity) : ClientResponseInternal :=
  ⟨.filled, 1, 0, 1, 1, side, price, qty, 0⟩

/-- A position that is opened, flipped and reduced. -/
def flipped : List ClientResponseInternal :=
  [fillOf .buy 10 3, fillOf .sell 12 5, fillOf .buy 11 1]

theorem addFills_exact_sample :
    ∃ p, addFills (fun _ _ => none) .default flipped = some p ∧ p.ExactAccounts flipped := by
  have hwithin : WithinTypes flipped := ⟨by decide, by decide, by decide⟩
  obtain ⟨q, hq⟩ := Option.isSome_iff_exists.mp
    (by decide +kernel : (addFills (fun _ _ => none) .default flipped).isSome)
  exact (addFills_exact hwithin).mpr (noOverflow_of_addFills hwithin hq) _

/-- 50000 are bought and one is sold. -/
def reduced : List ClientResponseInternal := [fillOf .buy 10 50000, fillOf .sell 10 1]

/-- With wrapping arithmetic the product of 49999 and 50000 is negative: the position counts as
flipped, and the profit is its whole value. -/
theorem reduced_miscounted : WithinTypes reduced ∧
    ∃ p, addFills (fun x y => some (x * y)) .default reduced = some p ∧ p.totalPnl = 499990 ∧
      netCash reduced + p.position.toInt * 10 = 0 ∧ ¬ p.ExactAccounts reduced := by
  refine ⟨⟨by decide, by decide, by decide⟩, ?_⟩
  obtain ⟨p, hp, hposition, htotal⟩ : ∃ p,
      addFills (fun x y => some (x * y)) .default reduced = some p ∧ p.position = 49999 ∧
        p.totalPnl = 499990 := by
    have hcheck : (addFills (fun x y => some (x * y)) .default reduced).any
        (fun p => p.position = 49999 ∧ p.totalPnl = 499990) = true := by decide +kernel
    obtain ⟨p, hp, hvalues⟩ := (Option.any_eq_true _ _).mp hcheck
    exact ⟨p, hp, of_decide_eq_true hvalues⟩
  have hnet : p.position.toInt = 49999 := congrArg Int32.toInt hposition
  have hcash : netCash reduced = -499990 := by decide
  refine ⟨p, hp, htotal, by rw [hnet, hcash]; decide, fun h => ?_⟩
  have hexact := h.totalPnl (fillOf .sell 10 1) rfl
  have hprice : (fillOf .sell 10 1).price.toInt = 10 := rfl
  rw [htotal, hcash, hnet, hprice] at hexact
  norm_num at hexact

end Run

end PositionInfo

end StockExchange
