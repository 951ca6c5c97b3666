import StockExchange.FeedMirror

/-!
# The best bid and offer of the client

`update_bbo` is called for a side when an update is at its best price or at a better one.
The side may be empty then, and a `CLEAR` is at no price of it, so what strategies are
shown is not always what the book holds. A replay tells when it is.
-/

namespace StockExchange

open Ring BookView MarketOrderBook

/-- What strategies see of a side. -/
def Bbo.quote (b : Bbo) (side : Side) : Price × Quantity :=
  if side = .buy then (b.bidPrice, b.bidQty) else (b.askPrice, b.askQty)

/-- The best price of a side and the sum of the quantities in its ring are shown, or the
invalid values if the side has no level. -/
def MarketOrderBook.Shows (m : MarketOrderBook) (side : Side) : Prop :=
  match m.best side with
  | none => m.bbo.quote side = (invalidPrice, invalidQuantity)
  | some l => (m.bbo.quote side).1 = (m.level l).price ∧ ∃ ps : List OrderPtr, ps ≠ [] ∧
      (m.level l).firstOrder = ps.head? ∧
      IsRing (fun p => (m.order p).nextOrder) (fun p => (m.order p).prevOrder) ps ∧
      (m.bbo.quote side).2.toNat = (ps.map fun p => (m.order p).qty.toNat).sum

namespace Replay

/-- The side has a live order. -/
def Lives (r : Replay) (side : Side) : Prop := ∃ o ∈ r.live, o.side = side

/-- No live order of the side has a better price. -/
def Unbeaten (r : Replay) (side : Side) (price : Price) : Prop :=
  ∀ o ∈ r.live, o.side = side → ¬ betterPrice o.price price side

/-- The update makes `update_bbo` refresh the side. -/
def Refreshes (r : Replay) (side : Side) (u : MarketUpdate) : Prop :=
  u.type ≠ .trade ∧ u.side = side ∧ r.Lives side ∧ r.Unbeaten side u.price

/-- What the live orders at the best price of a side add up to. -/
def bestQty (r : Replay) (side : Side) : Nat :=
  ((r.live.filter fun o => o.side = side ∧ ∀ x ∈ r.live, x.side = side →
    betterPrice x.price o.price side = false).map fun o => o.qty.toNat).sum

instance (r : Replay) (side : Side) : Decidable (r.Lives side) :=
  inferInstanceAs (Decidable (∃ o ∈ r.live, _))

instance (r : Replay) (side : Side) (price : Price) : Decidable (r.Unbeaten side price) :=
  inferInstanceAs (Decidable (∀ o ∈ r.live, _))

instance (r : Replay) (side : Side) (u : MarketUpdate) : Decidable (r.Refreshes side u) :=
  inferInstanceAs (Decidable (_ ∧ _))

end Replay

/-- What is shown of a side is current, nothing though it has orders, or a price that was
cleared away. -/
inductive Shown where
  | current
  | blank
  | cleared
deriving DecidableEq

namespace Shown

def step (side : Side) (r : Replay) (s : Shown) (u : MarketUpdate) : Shown :=
  if r.Refreshes side u then .current
  else if u.type = .clear ∧ r.Lives side then if s = .blank then .current else .cleared
  else if u.type = .add ∧ u.side = side ∧ ¬ r.Lives side ∧ s = .current then .blank
  else s

/-- From an empty book on. -/
def after (side : Side) : Replay → Shown → List MarketUpdate → Shown
  | _, s, [] => s
  | r, s, u :: us => after side (r.step u) (s.step side r u) us

end Shown

namespace MarketOrderBook
variable {m m' : MarketOrderBook} {p : OrderPtr} {l k : LevelPtr} {side : Side} {price : Price}
  {fuel : Nat} {u : MarketUpdate}

theorem addAfter_bbo (h : m.addAfter l k = .ok m') : m'.bbo = m.bbo := by
  obtain ⟨next, _, h⟩ := bind_eq_ok.mp h
  exact Except.ok.inj h ▸ rfl

theorem addBefore_bbo (h : m.addBefore l k = .ok m') : m'.bbo = m.bbo := by
  obtain ⟨prev, _, h⟩ := bind_eq_ok.mp h
  exact Except.ok.inj h ▸ rfl

theorem addPriceLevel_bbo (h : m.addPriceLevel fuel l = .ok m') : m'.bbo = m.bbo := by
  rw [addPriceLevel] at h
  dsimp only at h
  split at h
  · exact Except.ok.inj h ▸ rfl
  · split at h
    · obtain ⟨m₁, h₁, h⟩ := bind_eq_ok.mp h
      obtain rfl := Except.ok.inj h
      exact (addBefore_bbo h₁).trans rfl
    · obtain ⟨first, _, h⟩ := bind_eq_ok.mp h
      obtain ⟨found, _, h⟩ := bind_eq_ok.mp h
      split at h
      · exact (addAfter_bbo h).trans rfl
      · exact (addBefore_bbo h).trans rfl

theorem setMarketOrder_bbo {id : OrderId} {q : Option OrderPtr}
    (h : m.setMarketOrder id q = .ok m') : m'.bbo = m.bbo := by
  rw [setMarketOrder] at h
  split at h
  · exact Except.ok.inj h ▸ rfl
  · cases h

theorem addOrder_bbo (h : m.addOrder fuel p = .ok m') : m'.bbo = m.bbo := by
  rw [addOrder] at h
  dsimp only at h
  split at h
  · obtain ⟨new, _, h⟩ := bind_eq_ok.mp h
    obtain ⟨m₁, h₁, h⟩ := bind_eq_ok.mp h
    exact (setMarketOrder_bbo h).trans ((addPriceLevel_bbo h₁).trans rfl)
  · obtain ⟨first, _, h⟩ := bind_eq_ok.mp h
    obtain ⟨last, _, h⟩ := bind_eq_ok.mp h
    obtain ⟨first', _, h⟩ := bind_eq_ok.mp h
    obtain ⟨m₁, h₁, h⟩ := bind_eq_ok.mp h
    obtain rfl := Except.ok.inj h₁
    exact (setMarketOrder_bbo h).trans rfl

theorem removeOrderAtPrice_bbo (h : m.removeOrderAtPrice side price = .ok m') :
    m'.bbo = m.bbo := by
  obtain ⟨l, _, h⟩ := bind_eq_ok.mp h
  dsimp only at h
  split at h
  · obtain ⟨m₁, h₁, h⟩ := bind_eq_ok.mp h
    obtain rfl := Except.ok.inj h₁
    exact Except.ok.inj h ▸ rfl
  · obtain ⟨prev, _, h⟩ := bind_eq_ok.mp h
    obtain ⟨next, _, h⟩ := bind_eq_ok.mp h
    obtain ⟨m₁, h₁, h⟩ := bind_eq_ok.mp h
    obtain rfl := Except.ok.inj h₁
    obtain rfl := Except.ok.inj h
    split <;> rfl

theorem removeOrder_bbo (h : m.removeOrder p = .ok m') : m'.bbo = m.bbo := by
  rw [removeOrder] at h
  dsimp only at h
  split at h
  · obtain ⟨m₁, h₁, h⟩ := bind_eq_ok.mp h
    obtain ⟨m₂, h₂, h⟩ := bind_eq_ok.mp h
    obtain rfl := Except.ok.inj h
    exact (setMarketOrder_bbo h₂).trans (removeOrderAtPrice_bbo h₁)
  · obtain ⟨before, _, h⟩ := bind_eq_ok.mp h
    obtain ⟨after, _, h⟩ := bind_eq_ok.mp h
    obtain ⟨l, _, h⟩ := bind_eq_ok.mp h
    obtain ⟨m₁, h₁, h⟩ := bind_eq_ok.mp h
    obtain rfl := Except.ok.inj h₁
    obtain ⟨m₂, h₂, h⟩ := bind_eq_ok.mp h
    obtain rfl := Except.ok.inj h
    refine (setMarketOrder_bbo h₂).trans ?_
    split <;> rfl

theorem freeLevels_bbo {q : Option LevelPtr} (h : freeLevels l fuel m q = .ok m') :
    m'.bbo = m.bbo := by
  induction fuel generalizing m q with
  | zero => cases h
  | succ fuel ih =>
    cases q with
    | none => exact Except.ok.inj h ▸ rfl
    | some p =>
      rw [freeLevels] at h
      split at h
      · exact Except.ok.inj h ▸ rfl
      · exact (ih h).trans rfl

theorem clearPriceLevels_bbo (h : m.clearPriceLevels fuel side = .ok m') : m'.bbo = m.bbo := by
  rw [clearPriceLevels] at h
  split at h
  · exact Except.ok.inj h ▸ rfl
  · obtain ⟨m₁, h₁, h⟩ := bind_eq_ok.mp h
    obtain rfl := Except.ok.inj h
    exact (freeLevels_bbo h₁).trans rfl

theorem clear_bbo (h : m.clear fuel = .ok m') : m'.bbo = m.bbo := by
  rw [clear] at h
  dsimp only at h
  obtain ⟨m₁, h₁, h⟩ := bind_eq_ok.mp h
  obtain ⟨m₂, h₂, h⟩ := bind_eq_ok.mp h
  obtain rfl := Except.ok.inj h
  have hfreed := clearPriceLevels_bbo h₁
  simp only [freeOrders] at hfreed
  exact (clearPriceLevels_bbo h₂).trans hfreed

/-- The switch of `on_market_update` does not touch what is shown. -/
theorem apply_bbo (h : m.apply fuel u = .ok m') : m'.bbo = m.bbo := by
  rw [apply] at h
  split at h
  · obtain ⟨new, _, h⟩ := bind_eq_ok.mp h
    exact (addOrder_bbo h).trans rfl
  split at h
  · obtain ⟨q, _, h⟩ := bind_eq_ok.mp h
    obtain ⟨p, _, h⟩ := bind_eq_ok.mp h
    exact Except.ok.inj h ▸ rfl
  split at h
  · obtain ⟨q, _, h⟩ := bind_eq_ok.mp h
    obtain ⟨p, _, h⟩ := bind_eq_ok.mp h
    exact removeOrder_bbo h
  split at h
  · exact clear_bbo h
  · exact Except.ok.inj h ▸ rfl

end MarketOrderBook

namespace Replay
variable {r r' : Replay} {side : Side} {price p : Price} {qty : Quantity} {u : MarketUpdate}

/-- The live orders of a level. -/
def ordersAt (r : Replay) (side : Side) (price : Price) : List MarketOrderFields :=
  r.live.filter fun o => o.side = side ∧ o.price = price

/-- The best price of a side and what `update_side` adds up at it. -/
inductive Quotes (r : Replay) (side : Side) : Price → Quantity → Prop
  | none (empty : ¬ r.Lives side) : Quotes r side invalidPrice invalidQuantity
  | best {x : Price} (some : r.ordersAt side x ≠ []) (unbeaten : r.Unbeaten side x) :
      Quotes r side x ((r.ordersAt side x).map (·.qty)).sum

/-- Market order ids name one live order. -/
def DistinctIds (r : Replay) : Prop :=
  ∀ o ∈ r.live, ∀ x ∈ r.live, o.marketOrderId = x.marketOrderId → o = x

theorem mem_ordersAt {o : MarketOrderFields} :
    o ∈ r.ordersAt side price ↔ o ∈ r.live ∧ o.side = side ∧ o.price = price := by
  simp [ordersAt]

theorem beaten_of_not_refreshes (htrade : u.type ≠ .trade) (h : ¬ r.Refreshes side u)
    (hside : u.side = side) (hlives : r.Lives side) :
    ∃ o ∈ r.live, o.side = side ∧ betterPrice o.price u.price side := by
  by_contra hnone
  exact h ⟨htrade, hside, hlives, fun o ho hos hb => hnone ⟨o, ho, hos, hb⟩⟩

/-- An update that does not refresh a side is at a worse price than its best. -/
theorem worse_of_not_refreshes (htrade : u.type ≠ .trade) (h : ¬ r.Refreshes side u)
    (hside : u.side = side) (hlives : r.Lives side) (hbest : r.Unbeaten side p) :
    betterPrice p u.price side := by
  obtain ⟨o, ho, hos, hbetter⟩ := beaten_of_not_refreshes htrade h hside hlives
  by_cases hsame : o.price = p
  · exact hsame ▸ hbetter
  · exact betterPrice_trans ((betterPrice_total side hsame).resolve_left (hbest o ho hos)) hbetter

/-- The best price of a side is one. -/
theorem Unbeaten.unique {p' : Price} (h : r.Unbeaten side p) (hp : r.ordersAt side p ≠ [])
    (h' : r.Unbeaten side p') (hp' : r.ordersAt side p' ≠ []) : p = p' := by
  obtain ⟨o, ho⟩ := List.exists_mem_of_ne_nil _ hp
  obtain ⟨x, hx⟩ := List.exists_mem_of_ne_nil _ hp'
  obtain ⟨hlive, hside, rfl⟩ := mem_ordersAt.mp ho
  obtain ⟨hlive', hside', rfl⟩ := mem_ordersAt.mp hx
  by_contra hne
  rcases betterPrice_total side hne with hbetter | hbetter
  · exact h' o hlive hside hbetter
  · exact h x hlive' hside' hbetter

/-- The best level of a side, and whether it has one, is the same in both replays. -/
structure SameBest (side : Side) (r r' : Replay) : Prop where
  lives : r'.Lives side ↔ r.Lives side
  unbeaten : r.Lives side → ∀ p, r.Unbeaten side p → r'.Unbeaten side p
  level : r.Lives side → ∀ p, r.Unbeaten side p → r'.ordersAt side p = r.ordersAt side p

theorem lives_of_ordersAt (h : r.ordersAt side price ≠ []) : r.Lives side := by
  obtain ⟨o, ho⟩ := List.exists_mem_of_ne_nil _ h
  obtain ⟨hlive, hside, _⟩ := mem_ordersAt.mp ho
  exact ⟨o, hlive, hside⟩

theorem Quotes.congr (h : r.Quotes side price qty) (same : SameBest side r r') :
    r'.Quotes side price qty := by
  cases h with
  | none empty => exact .none fun h => empty (same.lives.mp h)
  | best some unbeaten =>
    have hlives := lives_of_ordersAt some
    have hlevel := same.level hlives price unbeaten
    rw [← hlevel] at some ⊢
    exact .best some (same.unbeaten hlives price unbeaten)

theorem sameBest_add (htype : u.type = .add) (h : ¬ r.Refreshes side u)
    (hlives : u.side = side → r.Lives side) : SameBest side r (r.step u) := by
  have htrade : u.type ≠ .trade := by rw [htype]; decide
  have hstep := congrArg live (step_add (r := r) htype)
  have hworse : ∀ p, r.Unbeaten side p → u.side = side → betterPrice p u.price side :=
    fun p hp hside => worse_of_not_refreshes htrade h hside (hlives hside) hp
  refine ⟨⟨?_, ?_⟩, fun _ p hp => ?_, fun _ p hp => ?_⟩
  · rintro ⟨o, ho, hside⟩
    rw [hstep] at ho
    rcases List.mem_append.mp ho with ho | ho
    · exact ⟨o, ho, hside⟩
    · obtain rfl := List.mem_singleton.mp ho
      exact hlives hside
  · rintro ⟨o, ho, hside⟩
    exact ⟨o, hstep ▸ List.mem_append_left _ ho, hside⟩
  · intro o ho hside
    rw [hstep] at ho
    rcases List.mem_append.mp ho with ho | ho
    · exact hp o ho hside
    · obtain rfl := List.mem_singleton.mp ho
      rw [betterPrice_asymm (hworse p hp hside)]
      exact Bool.false_ne_true
  · rw [ordersAt, hstep, List.filter_append, ← ordersAt, List.filter_eq_nil_iff.mpr,
      List.append_nil]
    intro o ho hkey
    obtain rfl := List.mem_singleton.mp ho
    obtain ⟨hside, hprice⟩ := of_decide_eq_true hkey
    have hself := hworse p hp hside
    rw [show u.price = p from hprice, betterPrice_irrefl] at hself
    cases hself

/-- An update about an order that is not at the best price of the side leaves the orders
there alone. -/
theorem ne_of_ordersAt (hdistinct : r.DistinctIds) (ha : r.AdmitsChange u)
    (htrade : u.type ≠ .trade) (h : ¬ r.Refreshes side u) (hp : r.Unbeaten side p)
    {o : MarketOrderFields} (ho : o ∈ r.ordersAt side p) : o.marketOrderId ≠ u.orderId := by
  intro hid
  obtain ⟨x, hx, hxid, hxside, hxprice⟩ := ha
  obtain ⟨hlive, hside, hprice⟩ := mem_ordersAt.mp ho
  obtain rfl := hdistinct o hlive x hx (hid.trans hxid.symm)
  have hself := worse_of_not_refreshes htrade h (hxside.symm.trans hside) ⟨o, hlive, hside⟩ hp
  rw [← hxprice, hprice, betterPrice_irrefl] at hself
  cases hself

theorem sameBest_modify (htype : u.type = .modify) (hdistinct : r.DistinctIds)
    (ha : r.AdmitsChange u) (h : ¬ r.Refreshes side u) : SameBest side r (r.step u) := by
  have htrade : u.type ≠ .trade := by rw [htype]; decide
  have hstep := congrArg live (step_modify (r := r) htype)
  have hkeep := MarketOrderFields.amend_key u.orderId u.qty
  refine ⟨⟨?_, ?_⟩, fun _ p hp => ?_, fun _ p hp => ?_⟩
  · rintro ⟨o, ho, hside⟩
    rw [hstep] at ho
    obtain ⟨x, hx, rfl⟩ := List.mem_map.mp ho
    exact ⟨x, hx, (hkeep x).1.symm.trans hside⟩
  · rintro ⟨o, ho, hside⟩
    exact ⟨_, hstep ▸ List.mem_map_of_mem ho, (hkeep o).1.trans hside⟩
  · intro o ho hside
    rw [hstep] at ho
    obtain ⟨x, hx, rfl⟩ := List.mem_map.mp ho
    rw [(hkeep x).2]
    exact hp x hx ((hkeep x).1.symm.trans hside)
  · have hfilter :
        (r.step u).ordersAt side p = (r.ordersAt side p).map (.amend u.orderId u.qty) := by
      rw [ordersAt, hstep, List.filter_map]
      refine congrArg _ (List.filter_congr fun x _ => ?_)
      simp only [Function.comp_apply, (hkeep x).1, (hkeep x).2]
    rw [hfilter]
    refine (List.map_congr_left fun o ho => ?_).trans (List.map_id _)
    exact if_neg (ne_of_ordersAt hdistinct ha htrade h hp ho)

theorem sameBest_cancel (htype : u.type = .cancel) (hdistinct : r.DistinctIds)
    (ha : r.AdmitsChange u) (h : ¬ r.Refreshes side u) : SameBest side r (r.step u) := by
  have htrade : u.type ≠ .trade := by rw [htype]; decide
  have hstep := congrArg live (step_cancel (r := r) htype)
  refine ⟨⟨?_, ?_⟩, fun _ p hp => ?_, fun _ p hp => ?_⟩
  · rintro ⟨o, ho, hside⟩
    rw [hstep] at ho
    exact ⟨o, List.mem_of_mem_filter ho, hside⟩
  · rintro ⟨o, ho, hside⟩
    obtain ⟨x, hx, hxid, hxside, hxprice⟩ := ha
    have hsurvives : ∀ y ∈ r.live, y.side = side → y ≠ x → (r.step u).Lives side := by
      intro y hy hys hne
      refine ⟨y, hstep ▸ List.mem_filter.mpr ⟨hy, decide_eq_true fun hid => hne ?_⟩, hys⟩
      exact hdistinct y hy x hx (hid.trans hxid.symm)
    by_cases hsame : u.side = side
    · obtain ⟨y, hy, hys, hbetter⟩ := beaten_of_not_refreshes htrade h hsame ⟨o, ho, hside⟩
      refine hsurvives y hy hys ?_
      rintro rfl
      rw [hxprice, betterPrice_irrefl] at hbetter
      cases hbetter
    · refine hsurvives o ho hside ?_
      rintro rfl
      exact hsame (hxside.symm.trans hside)
  · intro o ho hside
    rw [hstep] at ho
    exact hp o (List.mem_of_mem_filter ho) hside
  · rw [ordersAt, hstep, List.filter_filter]
    refine List.filter_congr fun o ho => ?_
    by_cases hkey : o.side = side ∧ o.price = p
    · have hne := ne_of_ordersAt hdistinct ha htrade h hp (mem_ordersAt.mpr ⟨ho, hkey⟩)
      simp [hkey, hne]
    · simp [hkey]

end Replay

namespace Shown
variable {r : Replay} {side : Side} {q : Price × Quantity} {u : MarketUpdate} {s : Shown}

/-- What it says of the values that are shown. -/
def Holds (r : Replay) (side : Side) (q : Price × Quantity) : Shown → Prop
  | .current => r.Quotes side q.1 q.2
  | .blank => q = (invalidPrice, invalidQuantity) ∧ r.Lives side
  | .cleared => q.1 ∈ r.cleared

theorem Holds.congr {r' : Replay} (h : s.Holds r side q) (same : Replay.SameBest side r r')
    (hcleared : r'.cleared = r.cleared) : s.Holds r' side q := by
  cases s with
  | current => exact Replay.Quotes.congr h same
  | blank => exact ⟨h.1, same.lives.mpr h.2⟩
  | cleared =>
    change q.1 ∈ r'.cleared
    rw [hcleared]
    exact h

theorem Holds.clear (h : s.Holds r side q) (htype : u.type = .clear)
    (hrefresh : ¬ r.Refreshes side u) : (s.step side r u).Holds (r.step u) side q := by
  have hstep := Replay.step_clear (r := r) htype
  have hempty : ¬ (r.step u).Lives side := by
    rw [hstep]
    exact fun ⟨o, ho, _⟩ => List.not_mem_nil ho
  have hadd : ¬ u.type = .add := by rw [htype]; decide
  obtain ⟨price, qty⟩ := q
  by_cases hlives : r.Lives side
  · rw [Shown.step, if_neg hrefresh, if_pos ⟨htype, hlives⟩]
    cases s with
    | blank =>
      obtain ⟨rfl, rfl⟩ := Prod.mk.inj h.1
      exact .none hempty
    | current =>
      change Replay.Quotes r side price qty at h
      change price ∈ (r.step u).cleared
      cases h with
      | none empty => exact absurd hlives empty
      | best some =>
        obtain ⟨o, ho⟩ := List.exists_mem_of_ne_nil _ some
        obtain ⟨hlive, _, rfl⟩ := Replay.mem_ordersAt.mp ho
        rw [hstep]
        exact List.mem_append_left _ (List.mem_map_of_mem hlive)
    | cleared =>
      change price ∈ (r.step u).cleared
      rw [hstep]
      exact List.mem_append_right _ h
  · rw [Shown.step, if_neg hrefresh, if_neg fun hc => hlives hc.2, if_neg fun hc => hadd hc.1]
    cases s with
    | blank => exact absurd h.2 hlives
    | current =>
      change Replay.Quotes r side price qty at h
      cases h with
      | none => exact .none hempty
      | best some => exact absurd (Replay.lives_of_ordersAt some) hlives
    | cleared =>
      change price ∈ (r.step u).cleared
      rw [hstep]
      exact List.mem_append_right _ h

/-- An order is added to a side without any. -/
theorem Holds.first (h : s.Holds r side q) (htype : u.type = .add) (hside : u.side = side)
    (hlives : ¬ r.Lives side) : (s.step side r u).Holds (r.step u) side q := by
  have hstep := Replay.step_add (r := r) htype
  have hfilled : (r.step u).Lives side := by
    rw [hstep]
    exact ⟨_, List.mem_append_right _ List.mem_cons_self, hside⟩
  obtain ⟨price, qty⟩ := q
  rw [Shown.step, if_neg fun hr => hlives hr.2.2.1, if_neg fun hc => hlives hc.2]
  cases s with
  | current =>
    rw [if_pos ⟨htype, hside, hlives, rfl⟩]
    change Replay.Quotes r side price qty at h
    cases h with
    | none => exact ⟨rfl, hfilled⟩
    | best some => exact absurd (Replay.lives_of_ordersAt some) hlives
  | blank => exact absurd h.2 hlives
  | cleared =>
    rw [if_neg fun hc => nomatch hc.2.2.2]
    change price ∈ (r.step u).cleared
    rw [hstep]
    exact h

/-- What is said of the values that are shown stays true of them as long as they do. -/
theorem Holds.step (h : s.Holds r side q) (hdistinct : r.DistinctIds) (ha : r.Admits u)
    (hrefresh : ¬ r.Refreshes side u) : (s.step side r u).Holds (r.step u) side q := by
  obtain ⟨_, hchange, htype⟩ := ha
  have hsame (hclear : ¬ u.type = .clear)
      (hadd : ¬ (u.type = .add ∧ u.side = side ∧ ¬ r.Lives side ∧ s = .current)) :
      s.step side r u = s := by
    rw [Shown.step, if_neg hrefresh, if_neg fun hc => hclear hc.1, if_neg hadd]
  simp only [List.mem_cons, List.not_mem_nil, or_false] at htype
  rcases htype with htype | htype | htype | htype | htype
  · by_cases hfirst : u.side = side ∧ ¬ r.Lives side
    · exact h.first htype hfirst.1 hfirst.2
    · have hlives : u.side = side → r.Lives side :=
        fun hside => by_contra fun hl => hfirst ⟨hside, hl⟩
      rw [hsame (by rw [htype]; decide) fun hc => hfirst ⟨hc.2.1, hc.2.2.1⟩]
      exact h.congr (Replay.sameBest_add htype hrefresh hlives)
        (by rw [Replay.step_add htype])
  · rw [hsame (by rw [htype]; decide) fun hc => absurd (htype.symm.trans hc.1) (by decide)]
    exact h.congr (Replay.sameBest_modify htype hdistinct (hchange (Or.inl htype)) hrefresh)
      (by rw [Replay.step_modify htype])
  · rw [hsame (by rw [htype]; decide) fun hc => absurd (htype.symm.trans hc.1) (by decide)]
    exact h.congr (Replay.sameBest_cancel htype hdistinct (hchange (Or.inr htype)) hrefresh)
      (by rw [Replay.step_cancel htype])
  · rw [hsame (by rw [htype]; decide) fun hc => absurd (htype.symm.trans hc.1) (by decide),
      Replay.step_trade htype]
    exact h
  · exact h.clear htype hrefresh

end Shown

section InStep
variable {m : MarketOrderBook} {v : BookView} {r : Replay} {side : Side} {u : MarketUpdate}

theorem not_betterPrice_buy {p q : Price} : ¬ betterPrice p q .buy ↔ p ≤ q := by
  rw [betterPrice_iff, if_pos rfl, Int64.not_lt]

theorem not_betterPrice_sell {p q : Price} : ¬ betterPrice p q .sell ↔ q ≤ p := by
  rw [betterPrice_iff, if_neg (by decide), Int64.not_lt]

theorem InStep.distinct (h : InStep m v r) : r.DistinctIds := by
  intro o ho x hx hid
  obtain ⟨l, hl, y, hy, rfl⟩ := h.exists_order ho
  obtain ⟨k, hk, z, hz, rfl⟩ := h.exists_order hx
  rw [h.order_eq (v.mem_orders.mpr ⟨l, hl, hy⟩) (v.mem_orders.mpr ⟨k, hk, hz⟩) hid]

/-- A live order is in a level of its side. -/
theorem InStep.exists_own (h : InStep m v r) {o : MarketOrderFields} (ho : o ∈ r.live) :
    ∃ l ∈ v.own o.side, l.price = o.price := by
  obtain ⟨l, hl, hside, hprice⟩ := h.covers o ho
  exact ⟨l, hside ▸ h.valid.own_side hl, hprice⟩

theorem InStep.level (h : InStep m v r) (hside : side = .buy ∨ side = .sell) {l : LevelView}
    (hl : l ∈ v.own side) : l.orders.map OrderView.asMarket = r.ordersAt side l.price := by
  obtain ⟨hmem, hsame⟩ := h.own_level hside hl
  rw [h.orders l hmem, hsame]
  rfl

theorem InStep.level_ne_nil (h : InStep m v r) (hside : side = .buy ∨ side = .sell)
    {l : LevelView} (hl : l ∈ v.own side) : r.ordersAt side l.price ≠ [] := by
  rw [← h.level hside hl]
  simpa using h.valid.nonempty l (h.own_level hside hl).1

/-- A side without levels has no live order. -/
theorem InStep.not_lives (h : InStep m v r) (hown : v.own side = []) : ¬ r.Lives side := by
  rintro ⟨o, ho, rfl⟩
  obtain ⟨l, hl, _⟩ := h.exists_own ho
  rw [hown] at hl
  cases hl

/-- The first level of a side is its best. -/
theorem InStep.unbeaten_iff (h : InStep m v r) (hside : side = .buy ∨ side = .sell)
    {l : LevelView} {ls : List LevelView} (hown : v.own side = l :: ls) (price : Price) :
    r.Unbeaten side price ↔ ¬ betterPrice l.price price side := by
  constructor
  · intro hbest
    have hmem : l ∈ v.own side := hown ▸ List.mem_cons_self
    obtain ⟨o, ho⟩ := List.exists_mem_of_ne_nil _ (h.level_ne_nil hside hmem)
    obtain ⟨hlive, hs, hp⟩ := Replay.mem_ordersAt.mp ho
    exact hp ▸ hbest o hlive hs
  · intro hworse o ho hs hbetter
    obtain ⟨k, hk, hprice⟩ := h.exists_own ho
    have hsorted := h.sorted side
    rw [hs, hown] at hk
    rw [hown] at hsorted
    rw [← hprice] at hbetter
    rcases List.mem_cons.mp hk with rfl | hk
    · exact hworse hbetter
    · exact hworse (betterPrice_trans ((List.pairwise_cons.mp hsorted).1 k hk) hbetter)

theorem InStep.unbeaten_head (h : InStep m v r) (hside : side = .buy ∨ side = .sell)
    {l : LevelView} {ls : List LevelView} (hown : v.own side = l :: ls) :
    r.Unbeaten side l.price :=
  (h.unbeaten_iff hside hown l.price).mpr (by simp [betterPrice_irrefl])

/-- What `update_side` makes of a side is its best price and quantity. -/
theorem InStep.quotes (h : InStep m v r) (hside : side = .buy ∨ side = .sell) :
    r.Quotes side (v.top side).1 (v.top side).2 := by
  rw [BookView.top]
  rcases hown : v.own side with _ | ⟨l, ls⟩
  · exact .none (h.not_lives hown)
  · have hmem : l ∈ v.own side := hown ▸ List.mem_cons_self
    have hqty : (l.orders.map fun o => o.qty) = (r.ordersAt side l.price).map (·.qty) := by
      rw [← h.level hside hmem, List.map_map]
      rfl
    dsimp only
    rw [hqty]
    exact .best (h.level_ne_nil hside hmem) (h.unbeaten_head hside hown)

theorem InStep.not_refreshes (h : InStep m v r) (hbest : m.best side = none) :
    ¬ r.Refreshes side u := by
  have hhead : m.best side = ((v.own side).map (·.handle)).head? := (h.represents.sides side).head
  rw [hbest] at hhead
  have hown : v.own side = [] := List.map_eq_nil_iff.mp (List.head?_eq_none_iff.mp hhead.symm)
  exact fun hr => h.not_lives hown hr.2.2.1

/-- `update_bbo` is called for a side as the replay says. -/
theorem InStep.refreshes_iff (h : InStep m v r) (hside : side = .buy ∨ side = .sell)
    (htrade : u.type ≠ .trade) {p : LevelPtr} (hbest : m.best side = some p) :
    r.Refreshes side u ↔ u.side = side ∧ ¬ betterPrice (m.level p).price u.price side := by
  have hhead : m.best side = ((v.own side).map (·.handle)).head? := (h.represents.sides side).head
  rcases hown : v.own side with _ | ⟨l, ls⟩
  · rw [hown, hbest] at hhead
    cases hhead
  · rw [hown, hbest] at hhead
    obtain rfl := Option.some.inj hhead
    have hmem : l ∈ v.own side := hown ▸ List.mem_cons_self
    have hprice : (m.level l.handle).price = l.price :=
      (h.represents.level l (v.own_subset side hmem)).price
    rw [hprice, ← h.unbeaten_iff hside hown u.price]
    constructor
    · exact fun hr => ⟨hr.2.1, hr.2.2.2⟩
    · exact fun hr => ⟨htrade, hr.1, Replay.lives_of_ordersAt (h.level_ne_nil hside hmem), hr.2⟩

/-- A side is shown anew when it is refreshed, and as before otherwise. -/
theorem InStep.quote_step (h : InStep m v r) (ha : r.Admits u) (hk : r.KeepsLevels u) {fuel : Nat}
    (hfuel : maxNumOrders < fuel) : ∃ m' v', m.onMarketUpdate fuel u = .ok m' ∧
      InStep m' v' (r.step u) ∧ ∀ side, side = .buy ∨ side = .sell →
        m'.bbo.quote side = if r.Refreshes side u then v'.top side else m.bbo.quote side := by
  obtain ⟨m₁, v', hm₁, h₁⟩ := h.apply ha hk hfuel
  have hbbo := apply_bbo hm₁
  rw [onMarketUpdate, hm₁, ok_bind]
  by_cases htrade : u.type = .trade
  · refine ⟨m₁, v', if_pos htrade, h₁, fun side _ => ?_⟩
    rw [if_neg fun hr => hr.1 htrade, hbbo]
  rw [if_neg htrade, h₁.updateBbo hfuel]
  refine ⟨_, v', rfl, h₁.withBbo _, fun side hside => ?_⟩
  rcases hside with rfl | rfl
  · rcases hbid : m.bid with _ | l
    · rw [if_neg (h.not_refreshes (show m.best .buy = none from hbid)), ← hbbo]
      rfl
    · have hiff := h.refreshes_iff (Or.inl rfl) htrade (show m.best .buy = some l from hbid)
      rw [not_betterPrice_buy] at hiff
      by_cases hr : r.Refreshes .buy u
      · rw [if_pos hr]
        simp only [decide_eq_true (hiff.mp hr)]
        rfl
      · rw [if_neg hr, ← hbbo]
        simp only [decide_eq_false (hiff.not.mp hr)]
        rfl
  · rcases hask : m.ask with _ | l
    · rw [if_neg (h.not_refreshes (show m.best .sell = none from hask)), ← hbbo]
      rfl
    · have hiff := h.refreshes_iff (Or.inr rfl) htrade (show m.best .sell = some l from hask)
      rw [not_betterPrice_sell] at hiff
      by_cases hr : r.Refreshes .sell u
      · rw [if_pos hr]
        simp only [decide_eq_true (hiff.mp hr)]
        rfl
      · rw [if_neg hr, ← hbbo]
        simp only [decide_eq_false (hiff.not.mp hr)]
        rfl

end InStep

/-- The book, the replay and what is said of the values that are shown of a side. -/
structure Displays (m : MarketOrderBook) (v : BookView) (r : Replay) (side : Side) (s : Shown) :
    Prop where
  inStep : InStep m v r
  uncleared : ∀ o ∈ r.live, o.price ∉ r.cleared
  holds : s.Holds r side (m.bbo.quote side)

section Displays
variable {m : MarketOrderBook} {v : BookView} {r : Replay} {side : Side} {s : Shown}
  {u : MarketUpdate} {fuel : Nat}

theorem create_displays (i : InstrumentId) (side : Side) :
    Displays (MarketOrderBook.create i) (BookView.create i) .create side .current where
  inStep := create_inStep i
  uncleared := List.forall_mem_nil _
  holds := by
    have hquote : (MarketOrderBook.create i).bbo.quote side = (invalidPrice, invalidQuantity) :=
      ite_self _
    rw [hquote]
    exact .none fun ⟨_, ho, _⟩ => List.not_mem_nil ho

theorem uncleared_step (h : ∀ o ∈ r.live, o.price ∉ r.cleared) (ha : r.Admits u)
    (hk : r.KeepsLevels u) : ∀ o ∈ (r.step u).live, o.price ∉ (r.step u).cleared := by
  obtain ⟨_, _, htype⟩ := ha
  simp only [List.mem_cons, List.not_mem_nil, or_false] at htype
  rcases htype with htype | htype | htype | htype | htype
  · rw [Replay.step_add htype]
    intro o ho
    rcases List.mem_append.mp ho with ho | ho
    · exact h o ho
    · obtain rfl := List.mem_singleton.mp ho
      exact (hk htype).1
  · rw [Replay.step_modify htype]
    intro o ho
    obtain ⟨x, hx, rfl⟩ := List.mem_map.mp ho
    rw [(MarketOrderFields.amend_key u.orderId u.qty x).2]
    exact h x hx
  · rw [Replay.step_cancel htype]
    exact fun o ho => h o (List.mem_of_mem_filter ho)
  · rw [Replay.step_trade htype]
    exact h
  · rw [Replay.step_clear htype]
    exact List.forall_mem_nil _

theorem Displays.step (h : Displays m v r side s) (hside : side = .buy ∨ side = .sell)
    (ha : r.Admits u) (hk : r.KeepsLevels u) (hfuel : maxNumOrders < fuel) :
    ∃ m' v', m.onMarketUpdate fuel u = .ok m' ∧
      Displays m' v' (r.step u) side (s.step side r u) := by
  obtain ⟨m', v', hm', h', hquote⟩ := h.inStep.quote_step ha hk hfuel
  refine ⟨m', v', hm', h', uncleared_step h.uncleared ha hk, ?_⟩
  rw [hquote side hside]
  by_cases hrefresh : r.Refreshes side u
  · rw [if_pos hrefresh, Shown.step, if_pos hrefresh]
    exact h'.quotes hside
  · rw [if_neg hrefresh]
    exact h.holds.step h.inStep.distinct ha hrefresh

theorem Displays.run {us : List MarketUpdate} (h : Displays m v r side s)
    (hside : side = .buy ∨ side = .sell) (ha : Replay.Along Replay.Admits r us)
    (hk : Replay.Along Replay.KeepsLevels r us) (hfuel : maxNumOrders < fuel) :
    ∃ m' v', m.run fuel us = .ok m' ∧
      Displays m' v' (us.foldl Replay.step r) side (Shown.after side r s us) := by
  induction us generalizing m v r s with
  | nil => exact ⟨m, v, rfl, h⟩
  | cons u us ih =>
    obtain ⟨m₁, v₁, hm₁, h₁⟩ := h.step hside ha.1 hk.1 hfuel
    obtain ⟨m', v', hm', h'⟩ := ih h₁ ha.2 hk.2
    exact ⟨m', v', by rw [MarketOrderBook.run, hm₁, ok_bind, hm'], h'⟩

theorem toNat_sum (xs : List Quantity) :
    xs.sum.toNat = (xs.map UInt32.toNat).sum % 2 ^ 32 := by
  induction xs with
  | nil => rfl
  | cons x xs ih =>
    rw [List.sum_cons, List.map_cons, List.sum_cons, UInt32.toNat_add, ih, Nat.add_mod_mod]

/-- The best level of a side holds the orders whose quantities `bestQty` adds up. -/
theorem bestQty_eq {l : LevelView} {ls : List LevelView} (h : InStep m v r)
    (hside : side = .buy ∨ side = .sell) (hown : v.own side = l :: ls) :
    r.bestQty side = ((r.ordersAt side l.price).map fun o => o.qty.toNat).sum := by
  have hmem : l ∈ v.own side := hown ▸ List.mem_cons_self
  rw [Replay.bestQty, Replay.ordersAt]
  refine congrArg (fun os : List MarketOrderFields => (os.map fun o => o.qty.toNat).sum)
    (List.filter_congr fun o ho => decide_eq_decide.mpr ?_)
  refine and_congr_right fun hs => ?_
  have hbest : (∀ x ∈ r.live, x.side = side → betterPrice x.price o.price side = false) ↔
      r.Unbeaten side o.price := by
    simp only [Replay.Unbeaten, Bool.not_eq_true]
  rw [hbest]
  constructor
  · intro hunbeaten
    exact hunbeaten.unique (List.ne_nil_of_mem (Replay.mem_ordersAt.mpr ⟨ho, hs, rfl⟩))
      (h.unbeaten_head hside hown) (h.level_ne_nil hside hmem)
  · rintro heq
    rw [heq]
    exact h.unbeaten_head hside hown

theorem not_inRange_invalid : ¬ InRange invalidPrice := by decide

/-- Nothing is shown of a side without levels. -/
theorem Displays.shows_empty (h : Displays m v r side s) (hown : v.own side = []) :
    m.Shows side ↔ s = .current ∧ r.bestQty side < 2 ^ 32 := by
  have hbest : m.best side = none := by
    have hhead : m.best side = ((v.own side).map (·.handle)).head? :=
      (h.inStep.represents.sides side).head
    rw [hhead, hown]
    rfl
  have hlives := h.inStep.not_lives hown
  have hqty : r.bestQty side = 0 := by
    have hnone : (r.live.filter fun o => o.side = side ∧ ∀ x ∈ r.live, x.side = side →
        betterPrice x.price o.price side = false) = [] := by
      refine List.filter_eq_nil_iff.mpr fun o ho hkey => hlives ⟨o, ho, ?_⟩
      exact (of_decide_eq_true hkey).1
    rw [Replay.bestQty, hnone]
    rfl
  have hshows : m.Shows side ↔ m.bbo.quote side = (invalidPrice, invalidQuantity) := by
    rw [MarketOrderBook.Shows, hbest]
  have hholds := h.holds
  rw [hshows, hqty]
  generalize m.bbo.quote side = q at hholds
  obtain ⟨price, qty⟩ := q
  cases s with
  | current =>
    change Replay.Quotes r side price qty at hholds
    cases hholds with
    | none => simp
    | best some => exact absurd (Replay.lives_of_ordersAt some) hlives
  | blank => exact absurd hholds.2 hlives
  | cleared =>
    refine ⟨fun heq => ?_, fun hc => nomatch hc.1⟩
    obtain ⟨rfl, _⟩ := Prod.mk.inj heq
    exact absurd (h.inStep.cleared _ hholds) not_inRange_invalid

/-- The ring of the best level adds up to `bestQty`, whichever order it is read in. -/
theorem InStep.shows_iff {l : LevelView} {ls : List LevelView} (h : InStep m v r)
    (hside : side = .buy ∨ side = .sell) (hown : v.own side = l :: ls) : m.Shows side ↔
      (m.bbo.quote side).1 = l.price ∧ (m.bbo.quote side).2.toNat = r.bestQty side := by
  have hmem : l ∈ v.own side := hown ▸ List.mem_cons_self
  have hl := v.own_subset side hmem
  have hlevel := h.represents.level l hl
  have hprice : (m.level l.handle).price = l.price := hlevel.price
  have hfirst : (m.level l.handle).firstOrder = (l.orders.map (·.handle)).head? :=
    hlevel.firstOrder
  have hring : IsRing (fun p => (m.order p).nextOrder) (fun p => (m.order p).prevOrder)
      (l.orders.map (·.handle)) := hlevel.ring
  have hbest : m.best side = some l.handle := by
    have hhead : m.best side = ((v.own side).map (·.handle)).head? := (h.represents.sides side).head
    rw [hhead, hown]
    rfl
  have hsum : ((l.orders.map (·.handle)).map fun p => (m.order p).qty.toNat).sum =
      r.bestQty side := by
    rw [bestQty_eq h hside hown, ← h.level hside hmem, List.map_map, List.map_map]
    refine congrArg List.sum (List.map_congr_left fun o ho => ?_)
    exact congrArg (fun x : MarketOrderFields => x.qty.toNat)
      (h.fields (v.mem_orders.mpr ⟨l, hl, ho⟩)).1
  rw [MarketOrderBook.Shows, hbest, ← hsum, ← hprice]
  refine and_congr_right fun _ => ⟨?_, fun hqty => ?_⟩
  · rintro ⟨ps, _, hhead, hring', hqty⟩
    rw [hqty]
    exact ((hring'.perm hring (hhead.symm.trans hfirst)).map _).sum_eq
  · exact ⟨_, by simpa using h.valid.nonempty l hl, hfirst, hring, hqty⟩

theorem Displays.shows_level {l : LevelView} {ls : List LevelView}
    (h : Displays m v r side s) (hside : side = .buy ∨ side = .sell) (hown : v.own side = l :: ls) :
    m.Shows side ↔ s = .current ∧ r.bestQty side < 2 ^ 32 := by
  have hmem : l ∈ v.own side := hown ▸ List.mem_cons_self
  have hlevel := h.inStep.level_ne_nil hside hmem
  have hlives := Replay.lives_of_ordersAt hlevel
  obtain ⟨o, ho⟩ := List.exists_mem_of_ne_nil _ hlevel
  obtain ⟨hlive, _, hprice⟩ := Replay.mem_ordersAt.mp ho
  have hholds := h.holds
  rw [h.inStep.shows_iff hside hown]
  generalize m.bbo.quote side = q at hholds
  obtain ⟨price, qty⟩ := q
  cases s with
  | current =>
    change Replay.Quotes r side price qty at hholds
    cases hholds with
    | none empty => exact absurd hlives empty
    | best some unbeaten =>
      obtain rfl := unbeaten.unique some (h.inStep.unbeaten_head hside hown) hlevel
      have hsum : UInt32.toNat ((r.ordersAt side l.price).map (·.qty)).sum =
          r.bestQty side % 2 ^ 32 := by
        rw [toNat_sum, bestQty_eq h.inStep hside hown, List.map_map]
        rfl
      rw [hsum]
      have hlt := Nat.mod_lt (r.bestQty side) (show 0 < 2 ^ 32 by decide)
      constructor
      · rintro ⟨_, hfits⟩
        exact ⟨rfl, hfits ▸ hlt⟩
      · rintro ⟨_, hfits⟩
        exact ⟨rfl, Nat.mod_eq_of_lt hfits⟩
  | blank =>
    obtain ⟨rfl, rfl⟩ := Prod.mk.inj hholds.1
    refine ⟨fun heq => ?_, fun hc => nomatch hc.1⟩
    have hrange := h.inStep.range o hlive
    rw [hprice, ← heq.1] at hrange
    exact absurd hrange not_inRange_invalid
  | cleared =>
    refine ⟨fun heq => ?_, fun hc => nomatch hc.1⟩
    have hnot := h.uncleared o hlive
    rw [hprice, ← heq.1] at hnot
    exact absurd hholds hnot

/-- What is shown is right if it is current and the quantity fits. -/
theorem Displays.shows_iff (h : Displays m v r side s) (hside : side = .buy ∨ side = .sell) :
    m.Shows side ↔ s = .current ∧ r.bestQty side < 2 ^ 32 := by
  rcases hown : v.own side with _ | ⟨l, ls⟩
  · exact h.shows_empty hown
  · exact h.shows_level hside hown

/-- After each update of a valid replay that keeps the levels, a side is shown as it is in the
book exactly if what is shown is current and the quantity at the best price fits. -/
theorem shows_iff_current (i : InstrumentId) (hfuel : maxNumOrders < fuel)
    {us : List MarketUpdate} (valid : Replay.Along Replay.Admits .create us)
    (keeps : Replay.Along Replay.KeepsLevels .create us) {ws : List MarketUpdate}
    (hws : ws <+: us) (hside : side = .buy ∨ side = .sell) :
    ∃ m, (MarketOrderBook.create i).run fuel ws = .ok m ∧ (m.Shows side ↔
      Shown.after side .create .current ws = .current ∧
        (ws.foldl Replay.step .create).bestQty side < 2 ^ 32) := by
  obtain ⟨rest, rfl⟩ := hws
  obtain ⟨m, v, hm, h⟩ :=
    (create_displays i side).run hside valid.of_append keeps.of_append hfuel
  exact ⟨m, hm, h.shows_iff hside⟩

/-- The first order of a side, and a second one at its price. -/
def equalBids : List MarketUpdate :=
  [⟨.add, 1, 0, .buy, 10, 5, 1⟩, ⟨.add, 2, 0, .buy, 10, 7, 2⟩]

theorem shows_iff_current_sample : ∃ m,
    (MarketOrderBook.create 0).run 2049 equalBids = .ok m ∧ (m.Shows .buy ↔
      Shown.after .buy .create .current equalBids = .current ∧
        (equalBids.foldl Replay.step .create).bestQty .buy < 2 ^ 32) ∧
    Shown.after .buy .create .current equalBids = .current ∧
      (equalBids.foldl Replay.step .create).bestQty .buy = 12 := by
  obtain ⟨m, hm, hiff⟩ := @shows_iff_current .buy 2049 0 (by decide) equalBids (by decide)
    (by decide) equalBids (List.prefix_refl _) (Or.inl rfl)
  exact ⟨m, hm, hiff, by decide, by decide⟩

/-- The first order of a side is not shown. -/
theorem firstBid_notShown : Replay.Along Replay.Admits .create (equalBids.take 1) ∧
    ∃ m, (MarketOrderBook.create 0).run 2049 (equalBids.take 1) = .ok m ∧ ¬ m.Shows .buy := by
  refine ⟨by decide, ?_⟩
  have hcheck : (match (MarketOrderBook.create 0).run 2049 (equalBids.take 1) with
    | .ok m => (m.best .buy).any fun l => decide ((m.bbo.quote .buy).1 ≠ (m.level l).price)
    | .error _ => false) = true := by decide +kernel
  rcases hrun : (MarketOrderBook.create 0).run 2049 (equalBids.take 1) with f | m
  · rw [hrun] at hcheck
    cases hcheck
  · rw [hrun] at hcheck
    obtain ⟨l, hl, hne⟩ := (Option.any_eq_true _ _).mp hcheck
    refine ⟨m, rfl, fun hshows => of_decide_eq_true hne ?_⟩
    rw [MarketOrderBook.Shows, hl] at hshows
    exact hshows.1

end Displays

end StockExchange
