import StockExchange.SlotIndex

/-!
# The order of the levels

`add_price_level` keeps a side sorted unless the new price lies strictly between the
two worst levels of a side with three levels or more: the walk then stops before the
last level and links the new one behind it unseen. On sorted sides the head is the best
price and the book is never crossed.
-/

namespace StockExchange

open Ring BookView Transitions

section Insertion
variable {α : Type} {better : α → α → Prop} {before : α → Bool} {x : α}

/-- `x` belongs between the last two elements. -/
def BetweenLast (better : α → α → Prop) (x : α) (ls : List α) : Prop :=
  ∃ A u w, ls = A ++ [u, w] ∧ better u x ∧ better x w

theorem insertRest_sorted (trans : ∀ a b c, better a b → better b c → better a c)
    (hbefore : ∀ l, before l = true ↔ better x l) {ls : List α} (sorted : ls.Pairwise better)
    (total : ∀ l ∈ ls, better l x ∨ better x l) (apart : ¬ BetweenLast better x ls) :
    (insertRest before x ls).Pairwise better := by
  match ls with
  | [] => simp [insertRest]
  | [l] =>
    by_cases h : before l
    · simpa [insertRest, h] using (hbefore l).mp h
    · simpa [insertRest, h] using
        (total l (by simp)).resolve_right fun hl => h ((hbefore l).mpr hl)
  | [l, last] =>
    have hlast : better l last := by simpa using sorted
    by_cases h : before l
    · have hl := (hbefore l).mp h
      simpa [insertRest, h, hlast, hl] using trans x l last hl hlast
    · have hl := (total l (by simp)).resolve_right fun hl => h ((hbefore l).mpr hl)
      have hx : better last x := (total last (by simp)).resolve_right fun hx =>
        apart ⟨[], l, last, rfl, hl, hx⟩
      simpa [insertRest, h, hlast, hl] using hx
  | l :: m :: n :: rest =>
    obtain ⟨hl, hrest⟩ := List.pairwise_cons.mp sorted
    by_cases h : before l
    · have hxl := (hbefore l).mp h
      rw [insertRest, if_pos h, List.pairwise_cons]
      refine ⟨fun k hk => ?_, sorted⟩
      rcases List.mem_cons.mp hk with rfl | hk
      · exact hxl
      · exact trans x l k hxl (hl k hk)
    · rw [insertRest, if_neg h, List.pairwise_cons]
      refine ⟨fun k hk => ?_, insertRest_sorted trans hbefore hrest
        (fun k hk => total k (List.mem_cons_of_mem l hk)) ?_⟩
      · rcases List.mem_cons.mp ((insertRest_perm before x _).mem_iff.mp hk) with rfl | hk
        · exact (total l (by simp)).resolve_right fun hl => h ((hbefore l).mpr hl)
        · exact hl k hk
      · rintro ⟨A, u, w, heq, hu, hw⟩
        exact apart ⟨l :: A, u, w, by rw [heq]; rfl, hu, hw⟩

/-- Insertion keeps a sorted side sorted, unless `x` belongs between its last two. -/
theorem insertLevel_sorted (trans : ∀ a b c, better a b → better b c → better a c)
    (hbefore : ∀ l, before l = true ↔ better x l) {ls : List α} (sorted : ls.Pairwise better)
    (total : ∀ l ∈ ls, better l x ∨ better x l)
    (apart : ∀ best rest, ls = best :: rest → ¬ BetweenLast better x rest) :
    (insertLevel before x ls).Pairwise better := by
  rcases ls with _ | ⟨best, rest⟩
  · simp [insertLevel]
  · obtain ⟨hbest, hrest⟩ := List.pairwise_cons.mp sorted
    by_cases h : before best
    · have hx := (hbefore best).mp h
      rw [insertLevel, if_pos h, List.pairwise_cons]
      refine ⟨fun k hk => ?_, sorted⟩
      rcases List.mem_cons.mp hk with rfl | hk
      · exact hx
      · exact trans x best k hx (hbest k hk)
    · rw [insertLevel, if_neg h, List.pairwise_cons]
      refine ⟨fun k hk => ?_, insertRest_sorted trans hbefore hrest
        (fun k hk => total k (List.mem_cons_of_mem best hk)) (apart best rest rfl)⟩
      rcases List.mem_cons.mp ((insertRest_perm before x _).mem_iff.mp hk) with rfl | hk
      · exact (total best (by simp)).resolve_right fun hb => h ((hbefore best).mpr hb)
      · exact hbest k hk

end Insertion

section Price

theorem betterPrice_iff {p q : Price} {side : Side} : betterPrice p q side = true ↔
    if side = .buy then q < p else p < q := by
  unfold betterPrice
  split <;> simp

theorem betterPrice_trans {p q r : Price} {side : Side} (hpq : betterPrice p q side)
    (hqr : betterPrice q r side) : betterPrice p r side := by
  rw [betterPrice_iff] at *
  split at hpq <;> simp_all only [if_true, if_false]
  · exact Int64.lt_trans hqr hpq
  · exact Int64.lt_trans hpq hqr

theorem betterPrice_total {p q : Price} (side : Side) (hne : p ≠ q) :
    betterPrice p q side ∨ betterPrice q p side := by
  simp only [betterPrice_iff]
  split
  · exact (Int64.lt_or_lt_of_ne hne).symm
  · exact Int64.lt_or_lt_of_ne hne

theorem betterPrice_asymm {p q : Price} {side : Side} (h : betterPrice p q side) :
    betterPrice q p side = false := by
  by_contra hne
  have h' : betterPrice q p side := by simpa using hne
  rw [betterPrice_iff] at h h'
  split at h <;> simp_all only [if_true, if_false]
  · exact absurd h (Int64.lt_asymm h')
  · exact absurd h (Int64.lt_asymm h')

theorem betterPrice_irrefl (p : Price) (side : Side) : betterPrice p p side = false := by
  by_contra h
  have h' : betterPrice p p side := by simpa using h
  exact absurd (betterPrice_asymm h') (by simp [h'])

/-- The prices for which `price_levels_` has a slot of their own. -/
def InRange (price : Price) : Prop := 0 ≤ price ∧ price < 256

instance (price : Price) : Decidable (InRange price) := inferInstanceAs (Decidable (_ ∧ _))

theorem priceToIndex_of_inRange {price : Price} (h : InRange price) :
    (priceToIndex price : Int) = price.toInt := by
  obtain ⟨hlo, hhi⟩ := h
  have hnat : price.toUInt64.toNat = price.toInt.toNat := Int64.toNat_toUInt64_of_le hlo
  rw [Int64.le_iff_toInt_le, show (0 : Int64).toInt = 0 from rfl] at hlo
  rw [Int64.lt_iff_toInt_lt, show (256 : Int64).toInt = 256 from rfl] at hhi
  rw [priceToIndex, UInt64.toNat_mod, show (256 : UInt64).toNat = 256 from rfl, hnat]
  omega

theorem inRange_inj {p q : Price} (hp : InRange p) (hq : InRange q)
    (same : priceToIndex p = priceToIndex q) : p = q := by
  rw [← Int64.toInt_inj, ← priceToIndex_of_inRange hp, ← priceToIndex_of_inRange hq, same]

end Price

namespace BookView

/-- The opposite side has nothing within the limit. -/
def OutOfReach (v : BookView) (side : Side) (price : Price) : Prop :=
  ∀ m ∈ v.opposite side, if side = .buy then price < m.price else m.price < price

/-- `price` lies strictly between the two worst levels of a side of three or more. -/
def BeforeLast (v : BookView) (side : Side) (price : Price) : Prop :=
  ∃ best rest u w, v.own side = best :: rest ++ [u, w] ∧
    betterPrice u.price price side ∧ betterPrice price w.price side

/-- Sorted sides that do not cross. -/
structure Ordered (v : BookView) : Prop where
  priced : v.Priced
  range : ∀ l ∈ v.levels, InRange l.price
  sorted : ∀ side, (v.own side).Pairwise fun l m => betterPrice l.price m.price side
  uncrossed : ∀ l ∈ v.bids, ∀ m ∈ v.asks, l.price < m.price

/-- What keeps a book ordered when an order is booked. -/
structure Fits (v : BookView) (side : Side) (price : Price) : Prop where
  named : Named side
  range : InRange price
  apart : ¬ v.BeforeLast side price
  reach : v.OutOfReach side price

section Ordered
variable {v : BookView} {side : Side} {price : Price}

theorem create_ordered (i : InstrumentId) : (create i).Ordered := by
  refine ⟨create_priced i, by simp [create, levels], fun side => ?_, by simp [create]⟩
  by_cases hs : side = .buy <;> simp [own, create, hs]

/-- A level in the slot of a price in range has that price. -/
theorem Ordered.eq_of_slot (ho : v.Ordered) (hrange : InRange price) {l : LevelView}
    (hl : l ∈ v.levels) (hslot : l.slot = priceToIndex price) : l.price = price :=
  inRange_inj (ho.range l hl) hrange hslot

theorem Ordered.samePrice (ho : v.Ordered) (hv : v.Valid) (hf : v.Fits side price) :
    v.SamePrice side price := by
  intro l hl hslot
  have hprice := ho.eq_of_slot hf.range hl hslot
  refine ⟨?_, hprice⟩
  by_contra hne
  have hopp : l ∈ v.opposite side := by
    rcases hf.named with rfl | rfl
    · rcases List.mem_append.mp hl with hb | ha
      · exact absurd (hv.bidSide l hb) hne
      · simpa [opposite] using ha
    · rcases List.mem_append.mp hl with hb | ha
      · simpa [opposite] using hb
      · exact absurd (ho.priced.sell l ha) hne
  have := hf.reach l hopp
  rw [hprice] at this
  split at this <;> exact absurd this Int64.lt_irrefl

theorem sorted_newLevel (sorted : (v.own side).Pairwise fun l m =>
      betterPrice l.price m.price side) (apart : ¬ v.BeforeLast side price)
    (empty : ∀ l ∈ v.levels, l.slot ≠ priceToIndex price) (x : LevelView) (hx : x.price = price) :
    (insertLevel (fun m => betterPrice price m.price side) x (v.own side)).Pairwise
      fun l m => betterPrice l.price m.price side := by
  have trans : ∀ l m k : LevelView, betterPrice l.price m.price side = true →
      betterPrice m.price k.price side = true → betterPrice l.price k.price side = true :=
    fun _ _ _ hlm hmk => betterPrice_trans hlm hmk
  have total : ∀ l ∈ v.own side, betterPrice l.price x.price side = true ∨
      betterPrice x.price l.price side = true := by
    intro l hl
    rw [hx]
    refine betterPrice_total side fun heq => empty l (v.own_subset side hl) ?_
    rw [LevelView.slot, heq]
  rw [← hx] at empty ⊢
  refine insertLevel_sorted trans (fun _ => Iff.rfl) sorted total ?_
  rintro best rest hown ⟨A, u, w, rfl, hu, hw⟩
  rw [hx] at hu hw
  exact apart ⟨best, A, u, w, hown, hu, hw⟩

/-- A sorted book stays sorted, whatever order is placed away from its last two levels. -/
theorem sorted_place (hv : v.Valid) {o : OrderView} (same : v.SameSide o.side o.price)
    (sorted : ∀ side, (v.own side).Pairwise fun l m => betterPrice l.price m.price side)
    (apart : (∀ l ∈ v.levels, l.slot ≠ priceToIndex o.price) → ¬ v.BeforeLast o.side o.price)
    (side : Side) :
    ((v.place o).own side).Pairwise fun l m => betterPrice l.price m.price side := by
  rcases hv.place_cases same with ⟨l, _, _, _, heq⟩ | ⟨h, ls, _, empty, heq⟩
  · have hprice : ∀ m : LevelView, (if m.slot = l.slot then m.append o else m).price = m.price := by
      intro m
      split <;> rfl
    have hown : (v.place o).own side =
        (v.own side).map fun m => if m.slot = l.slot then m.append o else m := by
      rw [heq]
      by_cases hs : side = .buy <;> simp [own, mapLevels, hs]
    rw [hown, List.pairwise_map]
    exact (sorted side).imp fun {m k} h => by rwa [hprice m, hprice k]
  · rw [heq, own_newLevel]
    by_cases hsame : o.side = .buy ↔ side = .buy
    · rw [if_pos hsame]
      have hcmp : ∀ p q, betterPrice p q side = betterPrice p q o.side := by
        intro p q
        by_cases hs : side = .buy
        · simp [betterPrice, hs, hsame.mpr hs]
        · have hs' : ¬ o.side = .buy := fun h => hs (hsame.mp h)
          simp [betterPrice, hs, hs']
      simp only [hcmp]
      exact sorted_newLevel (sorted _) (apart empty) empty _ rfl
    · rw [if_neg hsame]
      exact sorted side

theorem sorted_of_sublist {side : Side} {ls ms : List LevelView} {f : LevelView → LevelView}
    (hf : ∀ l, (f l).price = l.price) (hsub : ms.Sublist (ls.map f))
    (h : ls.Pairwise fun l m => betterPrice l.price m.price side) :
    ms.Pairwise fun l m => betterPrice l.price m.price side := by
  refine List.Pairwise.sublist hsub (List.pairwise_map.mpr (h.imp fun {l m} hlm => ?_))
  rwa [hf l, hf m]

/-- The prices of a side may be read off a list with the same handles and prices. -/
theorem Ordered.congr (ho : v.Ordered) {w : BookView} (priced : w.Priced)
    {f : LevelView → LevelView} (hf : ∀ l, (f l).price = l.price)
    (hown : ∀ side, (w.own side).Sublist ((v.own side).map f)) : w.Ordered := by
  have hbids : w.bids.Sublist (v.bids.map f) := hown .buy
  have hasks : w.asks.Sublist (v.asks.map f) := by simpa [own] using hown .sell
  have mem : ∀ {ls ms : List LevelView}, ls.Sublist (ms.map f) → ∀ l ∈ ls, ∃ m ∈ ms,
      l.price = m.price := by
    intro ls ms hsub l hl
    obtain ⟨m, hm, rfl⟩ := List.mem_map.mp (hsub.subset hl)
    exact ⟨m, hm, hf m⟩
  refine ⟨priced, fun l hl => ?_, fun side => ?_, fun l hl m hm => ?_⟩
  · rcases List.mem_append.mp hl with hl | hl
    · obtain ⟨k, hk, hprice⟩ := mem hbids l hl
      exact hprice ▸ ho.range k (List.mem_append_left _ hk)
    · obtain ⟨k, hk, hprice⟩ := mem hasks l hl
      exact hprice ▸ ho.range k (List.mem_append_right _ hk)
  · exact sorted_of_sublist hf (hown side) (ho.sorted side)
  · obtain ⟨k, hk, hl'⟩ := mem hbids l hl
    obtain ⟨k', hk', hm'⟩ := mem hasks m hm
    rw [hl', hm']
    exact ho.uncrossed k hk k' hk'

theorem ordered_structural : Structural Ordered Fits where
  report v id ms ho := ⟨priced_structural.report v id ms ho.priced, ho.range, ho.sorted,
    ho.uncrossed⟩
  setQty v h qty hv ho :=
    ho.congr (priced_structural.setQty v h qty hv ho.priced) (f := .setQty h qty) (fun _ => rfl)
      fun side => by rw [own_setQty]
  removeOrder v o hv hmem ho := by
    refine ho.congr (priced_structural.removeOrder v o hv hmem ho.priced) (f := .drop o.handle)
      (fun _ => rfl) fun side => ?_
    rw [own_removeOrder]
    exact List.filter_sublist
  addOrder v o rest hv ho hfree same hf := by
    have hpriced := priced_structural.addOrder v o rest hv ho.priced hfree same
      ⟨ho.samePrice hv hf, hf.named⟩
    suffices h : (v.place o).Ordered from ⟨hpriced, h.range, h.sorted, h.uncrossed⟩
    have hpriced' : (v.place o).Priced := ⟨hpriced.price, hpriced.sell⟩
    rcases hv.place_cases same with ⟨l, hl, hside, hslot, heq⟩ | ⟨h, ls, _, empty, heq⟩
    · rw [heq] at hpriced' ⊢
      refine ho.congr hpriced' (f := fun m => if m.slot = l.slot then m.append o else m) ?_ ?_
      · intro m
        split <;> rfl
      · intro side
        by_cases hs : side = .buy <;> simp [own, mapLevels, hs]
    · rw [heq] at hpriced' ⊢
      have hown := own_newLevel v h ls o
      have hins := fun m => (insertLevel_perm (fun m => betterPrice o.price m.price o.side)
        ⟨h, o.side, o.price, [o]⟩ (v.own o.side)).mem_iff (a := m)
      refine ⟨hpriced', fun m hm => ?_, fun side => ?_, fun m hm k hk => ?_⟩
      · rcases List.mem_cons.mp ((levels_newLevel v h ls o).mem_iff.mp hm) with rfl | hm
        · exact hf.range
        · exact ho.range m hm
      · rw [← heq]
        exact sorted_place hv same ho.sorted (fun _ => hf.apart) side
      · have hb := hown .buy
        have ha := hown .sell
        have hm' : m ∈ (v.newLevel h ls o).own .buy := hm
        have hk' : k ∈ (v.newLevel h ls o).own .sell := by simpa [own] using hk
        rw [hb] at hm'
        rw [ha] at hk'
        have hreach := hf.reach
        rcases hf.named with hs | hs
        · rw [if_pos (by simp [hs])] at hm'
          rw [if_neg (by simp [hs])] at hk'
          have hk'' : k ∈ v.asks := by simpa [own] using hk'
          rcases List.mem_cons.mp ((hins m).mp hm') with rfl | hm'
          · simpa [hs] using hreach k (by simpa [opposite, hs] using hk'')
          · exact ho.uncrossed m (by simpa [own, hs] using hm') k hk''
        · rw [if_neg (by simp [hs])] at hm'
          rw [if_pos (by simp [hs])] at hk'
          rcases List.mem_cons.mp ((hins k).mp hk') with rfl | hk'
          · simpa [hs] using hreach m (by simpa [opposite, hs, own] using hm')
          · exact ho.uncrossed m (by simpa [own] using hm') k (by simpa [own, hs] using hk')

end Ordered

end BookView

namespace BookView

section Matching
variable {v : BookView} {a : Aggressor} {o : OrderView}

theorem own_setQty_other (hv : v.Valid) {l : LevelView} (hl : l ∈ v.levels) (ho : o ∈ l.orders)
    {side : Side} (hne : ¬ (l.side = .buy ↔ side = .buy)) (qty : Quantity) :
    (v.setQty o.handle qty).own side = v.own side := by
  have same : ∀ m ∈ v.own side, m.setQty o.handle qty = id m := by
    intro m hm
    have hml : m ≠ l := by
      rintro rfl
      exact hv.own_ne hne (hv.own_side hl) hm rfl
    have : m.orders.map (withQty o.handle qty) = m.orders := by
      have hid : ∀ o' ∈ m.orders, withQty o.handle qty o' = id o' := fun o' ho' =>
        if_neg (not_mem_other hv hl ho (v.own_subset side hm) hml o' ho')
      rw [List.map_congr_left hid, List.map_id]
    exact congrArg (fun os => ({ m with orders := os } : LevelView)) this
  rw [own_setQty, List.map_congr_left same, List.map_id]

/-- An execution leaves the taker's own side alone. -/
theorem own_fill (hv : v.Valid) (hhead : v.head a.side = some o) (leavesQty : Quantity) :
    (v.fill a leavesQty o).own a.side = v.own a.side := by
  rcases head_cases v a.side hv with ⟨_, hnone⟩ | ⟨l, ls, o', os, hopp, horders, hsome⟩
  · simp [hnone] at hhead
  · cases hsome.symm.trans hhead
    have hlo : l ∈ v.own a.side.other := by rw [← opposite_eq_own, hopp]; simp
    have hl := v.own_subset _ hlo
    have hne : ¬ (l.side = .buy ↔ a.side = .buy) := by
      rw [own_of_levels hlo hv]
      by_cases hs : a.side = .buy <;> simp [Side.other, hs]
    have ho : o ∈ l.orders := by simp [horders]
    by_cases hzero : o.qty - min leavesQty o.qty = 0
    · rw [fill_eq_removeOrder a hzero]
      exact own_removeOrder_other hv hl ho hne
    · rw [fill_eq_setQty a hzero]
      exact own_setQty_other hv hl ho hne _

theorem own_accept (hv : v.Valid) (clientId : ClientId) (clientOrderId : OrderId) (side : Side)
    (price : Price) (quantity : Quantity) :
    (v.accept clientId clientOrderId side price quantity).1.own side = v.own side :=
  matchLoop_keeps (a := ⟨clientId, clientOrderId, v.nextMarketOrderId, side, price⟩)
    (J := fun w _ => w.own side = v.own side)
    (fun _ leavesQty _ hv hown hhead _ _ => (own_fill hv hhead leavesQty).trans hown) _
    (accepted_valid hv ..) rfl

/-- On a sorted side a head out of reach means the whole side is. -/
theorem Ordered.outOfReach (ho : v.Ordered) (hv : v.Valid)
    (hexit : ∀ o ∈ v.head a.side, beyond a o) : v.OutOfReach a.side a.price := by
  intro m hm
  rcases head_cases v a.side hv with ⟨hopp, _⟩ | ⟨l, ls, o', os, hopp, horders, hsome⟩
  · simp [hopp] at hm
  · have hl : l ∈ v.levels := v.own_subset a.side.other (by rw [← opposite_eq_own, hopp]; simp)
    have hprice := ho.priced.price l hl o' (by simp [horders])
    have hb := hexit o' hsome
    have hsorted := ho.sorted a.side.other
    rw [← opposite_eq_own, hopp, List.pairwise_cons] at hsorted
    rw [beyond, hprice] at hb
    rw [hopp] at hm
    by_cases hs : a.side = .buy
    · simp only [hs, if_true, decide_eq_true_eq] at hb ⊢
      rcases List.mem_cons.mp hm with rfl | hm
      · exact hb
      · have := hsorted.1 m hm
        simp only [Side.other, hs, if_true, betterPrice_iff, Side.sell_ne_buy, if_false] at this
        exact Int64.lt_trans hb this
    · simp only [hs, if_false, decide_eq_true_eq] at hb ⊢
      rcases List.mem_cons.mp hm with rfl | hm
      · exact hb
      · have := hsorted.1 m hm
        simp only [Side.other, hs, if_false, betterPrice_iff, if_true] at this
        exact Int64.lt_trans this hb

end Matching

/-- `Q` holds of the view in which the `add` of a call starts. -/
def Places (Q : BookView → Side → Price → Prop) (v : BookView) : OrderBook.BookRequest → Prop
  | .add _ _ side price _ => Q v side price
  | .cancel _ _ => True
  | .modify clientId clientOrderId newPrice newQuantity =>
    ∀ o, v.findOrder clientId clientOrderId = some o →
      o.price ≠ newPrice ∨ o.qty < newQuantity →
      Q (v.cancelOrder clientId clientOrderId o) o.side newPrice

end BookView

namespace OrderBook

/-- The price of a request has a slot of its own. -/
def BookRequest.PriceInRange : BookRequest → Prop
  | .add _ _ _ price _ => InRange price
  | .cancel _ _ => True
  | .modify _ _ newPrice _ => InRange newPrice

/-- `P` holds in the state in which the `add` of a call starts, for a `modify` after its
`cancel`. -/
def Places (P : OrderBook → Side → Price → Prop) (s : OrderBook) : BookRequest → Prop
  | .add _ _ side price _ => P s side price
  | .cancel _ _ => True
  | .modify clientId clientOrderId newPrice newQuantity =>
    OnReturn (s.findClientOrder clientId clientOrderId) fun found => ∀ p ∈ found,
      (s.order p).price ≠ newPrice ∨ (s.order p).qty < newQuantity →
        OnReturn (s.cancel clientId clientOrderId) fun s' => P s' (s.order p).side newPrice

/-- `price` lies strictly between the prices of the last two levels of a side that has
three or more. -/
def BeforeLast (s : OrderBook) (side : Side) (price : Price) : Prop :=
  ∃ best ∈ s.best side, ∃ last ∈ (s.level best).prevEntry, ∃ u ∈ (s.level last).prevEntry,
    u ≠ best ∧ betterPrice (s.level u).price price side ∧
      betterPrice price (s.level last).price side

/-- Named sides, prices in range, and no order placed just before the last level. -/
def KeepsOrder (s : OrderBook) (r : BookRequest) : Prop :=
  r.Bounded ∧ r.Sided ∧ r.PriceInRange ∧ s.Places (fun s side price => ¬ s.BeforeLast side price) r

section Decidable
variable (P : OrderBook → Side → Price → Prop) (s : OrderBook) (r : BookRequest)
  [∀ s side price, Decidable (P s side price)]

instance : Decidable r.PriceInRange :=
  match r with
  | .add _ _ _ price _ => inferInstanceAs (Decidable (InRange price))
  | .cancel _ _ => .isTrue trivial
  | .modify _ _ newPrice _ => inferInstanceAs (Decidable (InRange newPrice))

instance : Decidable (s.Places P r) :=
  match r with
  | .add _ _ side price _ => inferInstanceAs (Decidable (P s side price))
  | .cancel _ _ => .isTrue trivial
  | .modify _ _ _ _ => inferInstanceAs (Decidable (OnReturn _ _))

instance (side : Side) (price : Price) : Decidable (s.BeforeLast side price) :=
  inferInstanceAs (Decidable (∃ best ∈ s.best side, _))

instance : Decidable (s.KeepsOrder r) := inferInstanceAs (Decidable (_ ∧ _))

end Decidable

end OrderBook

section Run
variable {fuel : Nat} {i : InstrumentId} {rs : List OrderBook.BookRequest} {s : OrderBook}
  {v : BookView}

/-- The test for the gap before the last level, read off the ring of a side. -/
theorem beforeLast_ring {side : Side} {ls : List LevelView}
    (hrep : SideRep s (s.best side) (ls.map (·.handle)))
    (hprice : ∀ l ∈ ls, (s.level l.handle).price = l.price) (price : Price) :
    s.BeforeLast side price ↔ ∃ best rest u w, ls = best :: rest ++ [u, w] ∧
      betterPrice u.price price side ∧ betterPrice price w.price side := by
  obtain ⟨hhead, hring⟩ := hrep
  match ls with
  | [] => simp [OrderBook.BeforeLast, hhead]
  | [w] =>
    have hw : (s.level w.handle).prevEntry = some w.handle := (isRing_singleton.mp hring).2
    simp [OrderBook.BeforeLast, hhead, hw]
  | [u, w] =>
    have hu : (s.level u.handle).prevEntry = some w.handle :=
      (hring.last_head (a := w.handle) (b := u.handle) rfl rfl).2
    have hw : (s.level w.handle).prevEntry = some u.handle := hring.linked_head.2
    have hshort : ¬ ∃ best rest u' w', [u, w] = best :: rest ++ [u', w'] ∧
        betterPrice u'.price price side ∧ betterPrice price w'.price side := by
      rintro ⟨b, rest, u', w', h, _⟩
      have hlen := congrArg List.length h
      simp at hlen
    refine iff_of_false ?_ hshort
    simp [OrderBook.BeforeLast, hhead, hu, hw]
  | best :: l :: m :: ls =>
    obtain ⟨rest, u, w, hsplit⟩ : ∃ rest u w, l :: m :: ls = rest ++ [u, w] := by
      obtain ⟨ms, w, hms⟩ := List.eq_nil_or_concat (m :: ls) |>.resolve_left (by simp)
      rcases List.eq_nil_or_concat (l :: ms) with h | ⟨rest, u, h⟩
      · simp at h
      · refine ⟨rest, u, w, ?_⟩
        rw [hms, List.concat_eq_append, ← List.cons_append, h, List.concat_eq_append,
          List.append_assoc]
        rfl
    rw [hsplit] at hhead hring hprice ⊢
    have hmap : (best :: (rest ++ [u, w])).map (·.handle) =
        (best.handle :: rest.map (·.handle)) ++ [u.handle, w.handle] := by simp
    rw [hmap] at hring
    have hbest : (s.level best.handle).prevEntry = some w.handle :=
      (hring.last_head (a := w.handle) (b := best.handle) (by rw [List.getLast?_append]; rfl) rfl).2
    have hw : (s.level w.handle).prevEntry = some u.handle := hring.linked.2
    have hne : u.handle ≠ best.handle := by
      intro h
      have hnd := hring.nodup
      simp [h] at hnd
    have hpu := hprice u (by simp)
    have hpw := hprice w (by simp)
    constructor
    · rintro ⟨b, hb, last, hlast, u', hu', _, h₁, h₂⟩
      cases hhead.symm.trans hb
      cases hbest.symm.trans hlast
      cases hw.symm.trans hu'
      rw [hpu] at h₁
      rw [hpw] at h₂
      exact ⟨best, rest, u, w, rfl, h₁, h₂⟩
    · rintro ⟨b, rest', u', w', hown', h₁, h₂⟩
      have heq : rest ++ [u, w] = rest' ++ [u', w'] := (List.cons.inj hown').2
      obtain ⟨_, huw⟩ := List.append_inj' heq rfl
      obtain ⟨rfl, hww⟩ := List.cons.inj huw
      obtain ⟨rfl, _⟩ := List.cons.inj hww
      rw [← hpu] at h₁
      rw [← hpw] at h₂
      exact ⟨best.handle, hhead, w.handle, hbest, u.handle, hw, hne, h₁, h₂⟩

theorem beforeLast_iff (hr : Represents s v) (side : Side) (price : Price) :
    s.BeforeLast side price ↔ v.BeforeLast side price :=
  beforeLast_ring (hr.sides side) (fun l hl => (hr.level l (v.own_subset side hl)).price) price

theorem places_view {P : OrderBook → Side → Price → Prop} {Q : BookView → Side → Price → Prop}
    (hPQ : ∀ s v side price, Represents s v → P s side price → Q v side price)
    (hr : Represents s v) (hv : v.Valid) {r : OrderBook.BookRequest} (hb : r.Bounded)
    (h : s.Places P r) : v.Places Q r := by
  cases r with
  | add clientId clientOrderId side price quantity => exact hPQ s v side price hr h
  | cancel clientId clientOrderId => trivial
  | modify clientId clientOrderId price quantity =>
    intro o hfind hqueue
    obtain ⟨hheap, hfields, s', hs', hr', -⟩ :=
      found_spec clientId clientOrderId hr hv (fun _ => hb.2) hfind
    have hP := h _ hheap o.handle rfl (by rwa [hfields]) s' hs'
    rw [hfields] at hP
    exact hPQ s' _ o.side price hr' hP

/-- On an ordered book a placement off the last gap fits where it is booked. -/
theorem BookView.Ordered.books_fits (ho : v.Ordered) (hv : v.Valid) {r : OrderBook.BookRequest}
    (hsided : r.Sided) (hrange : r.PriceInRange)
    (hplace : v.Places (fun w side price => ¬ w.BeforeLast side price) r) :
    v.Books (fun w side price => w.SamePrice side price ∧ w.Fits side price) r := by
  have add : ∀ {v : BookView}, v.Valid → v.Ordered → ∀ clientId clientOrderId side price quantity,
      Named side → InRange price → ¬ v.BeforeLast side price →
      0 < (v.accept clientId clientOrderId side price quantity).2 →
      SamePrice (v.accept clientId clientOrderId side price quantity).1 side price ∧
        Fits (v.accept clientId clientOrderId side price quantity).1 side price := by
    intro v hv ho clientId clientOrderId side price quantity hn hrange hapart hpos
    have hv' := accept_valid hv clientId clientOrderId side price quantity
    have ho' := ordered_structural.accept hv ho clientId clientOrderId side price quantity
    have hexit := (accept_exit hv clientId clientOrderId side price quantity).resolve_left
      fun hz => by
        rw [hz] at hpos
        exact absurd hpos (by decide)
    have hfits : Fits (v.accept clientId clientOrderId side price quantity).1 side price := by
      refine ⟨hn, hrange, ?_, ho'.outOfReach
        (a := ⟨clientId, clientOrderId, v.nextMarketOrderId, side, price⟩) hv' hexit⟩
      simpa only [BookView.BeforeLast, own_accept hv] using hapart
    exact ⟨ho'.samePrice hv' hfits, hfits⟩
  cases r with
  | add clientId clientOrderId side price quantity =>
    exact add hv ho _ _ _ _ _ hsided hrange hplace
  | cancel => trivial
  | modify clientId clientOrderId price quantity =>
    intro o hfind hqueue
    have hmem := (mem_of_findOrder clientId clientOrderId hfind).1
    exact add (cancelOrder_valid hv hmem ..)
      (ordered_structural.send _ (ordered_structural.removeOrder v o hv hmem ho)) _ _ _ _ _
      (ho.priced.named hv hmem) hrange (hplace o hfind hqueue)

theorem keepsOrder_places (hr : Represents s v) (hv : v.Valid) {r : OrderBook.BookRequest}
    (h : s.KeepsOrder r) : v.Places (fun w side price => ¬ w.BeforeLast side price) r :=
  places_view (fun _ _ side price hr h => fun hb => h ((beforeLast_iff hr side price).mpr hb))
    hr hv h.1 h.2.2.2

theorem keepsOrder_reached (hfuel : maxNumOrders < fuel)
    (h : Reached (OrderBook.call fuel) OrderBook.KeepsOrder (.create i) rs s) :
    Simulates Ordered s (rs.foldl BookView.call (.create i)) := by
  refine reached_simulates hfuel (create_ordered i) ?_ h
  intro s v r hr hv ho ha _
  have hfits := ho.books_fits hv ha.2.1 ha.2.2.1 (keepsOrder_places hr hv ha)
  exact ⟨books_mono (fun _ _ _ h => h.1.same) hfits, fun hadm =>
    ordered_structural.call hv ho hadm (books_mono (fun _ _ _ h => h.2) hfits)⟩

/-- In a run that places no order just before the last level of its side, the book is
never crossed. -/
theorem keepsOrder_uncrossed (hfuel : maxNumOrders < fuel)
    (h : Reached (OrderBook.call fuel) OrderBook.KeepsOrder (.create i) rs s) (p q : OrderPtr)
    (hp : s.RestsOn .buy p) (hq : s.RestsOn .sell q) : (s.order p).price < (s.order q).price := by
  obtain ⟨hr, hv, ho⟩ := keepsOrder_reached hfuel h
  obtain ⟨l, hl, o, hol, rfl⟩ := (restsOn_iff hr hv).mp hp
  obtain ⟨m, hm, o', hom, rfl⟩ := (restsOn_iff hr hv).mp hq
  have hl' := own_subset _ .buy hl
  have hm' := own_subset _ .sell hm
  rw [hr.fields ((mem_orders _).mpr ⟨l, hl', hol⟩), hr.fields ((mem_orders _).mpr ⟨m, hm', hom⟩),
    ho.priced.price l hl' o hol, ho.priced.price m hm' o' hom]
  exact ho.uncrossed l hl m hm

/-- The hypotheses are met by a run with orders on both sides. -/
theorem keepsOrder_uncrossed_sample : ∃ s,
    Reached (OrderBook.call 3000) OrderBook.KeepsOrder (.create 0)
      [.add 1 1 .sell 12 8, .add 2 1 .buy 10 5, .modify 2 1 11 5] s ∧
    ∀ p q, s.RestsOn .buy p → s.RestsOn .sell q → (s.order p).price < (s.order q).price := by
  obtain ⟨s, hs, _⟩ := @reached_of_any _ _ _ (OrderBook.call 3000) OrderBook.KeepsOrder
    (.create 0) [.add 1 1 .sell 12 8, .add 2 1 .buy 10 5, .modify 2 1 11 5] _ (fun _ => true)
    (by decide +kernel)
  exact ⟨s, hs, keepsOrder_uncrossed (by decide) hs⟩

/-- Sells at 10, 20, 40 and 30 rest in the order 10, 20, 40, 30. -/
def outOfOrder : List OrderBook.BookRequest :=
  [.add 1 1 .sell 10 1, .add 1 2 .sell 20 1, .add 1 3 .sell 40 1, .add 1 4 .sell 30 1,
    .cancel 1 1, .cancel 1 2, .add 2 1 .buy 35 1]

/-- Once the better levels are gone the head is 40, and a buy at 35 rests above a sell
at 30. -/
theorem outOfOrder_crosses : ∃ s,
    Reached (OrderBook.call 3000)
      (fun s r => s.WithinPools 3000 r ∧ r.Sided ∧ r.PriceInRange) (.create 0) outOfOrder s ∧
    ∃ p q, s.RestsOn .buy p ∧ s.RestsOn .sell q ∧ (s.order q).price < (s.order p).price := by
  obtain ⟨s, hs, hcheck⟩ := @reached_of_any _ _ _ (OrderBook.call 3000)
    (fun s r => s.WithinPools 3000 r ∧ r.Sided ∧ r.PriceInRange) (.create 0) outOfOrder _
    (fun s => s.bid = some 1 ∧ (s.level 1).firstOrder = some 1 ∧ (s.order 1).price = 35 ∧
      s.ask = some 2 ∧ (s.level 2).nextEntry = some 3 ∧ (s.level 3).firstOrder = some 3 ∧
      (s.order 3).price = 30)
    (by decide +kernel)
  simp only [decide_eq_true_eq] at hcheck
  obtain ⟨hbid, hfirst, hprice, hask, hnext, hfirst', hprice'⟩ := hcheck
  refine ⟨s, hs, 1, 3, ⟨1, ⟨1, hbid, .refl⟩, 1, hfirst, .refl⟩,
    ⟨3, ⟨2, hask, .single hnext⟩, 3, hfirst', .refl⟩, ?_⟩
  rw [hprice, hprice']
  decide

end Run

end StockExchange
