import StockExchange.Feed

/-!
# The life of an order

The responses that name one id accept an order, reduce it, and end it. Each execution is
reported to a buyer and a seller alike.
-/

namespace StockExchange

open BookView Transitions

def responses : List Message → List ClientResponseInternal :=
  List.filterMap fun
    | .response r => some r
    | .update _ => none

/-- An order as its responses show it. -/
inductive Life where
  | unborn
  | live (leavesQty : Quantity)
  | dead
deriving DecidableEq

/-- The next response about an order, if it may come now. -/
def Life.next : Life → ClientResponseInternal → Option Life
  | .unborn, r => if r.type = .accepted then some (.live r.leavesQty) else none
  | .live leavesQty, r =>
    if r.type = .filled then
      if r.execQty ≤ leavesQty ∧ r.leavesQty = leavesQty - r.execQty then
        some (if r.leavesQty = 0 then .dead else .live r.leavesQty)
      else none
    else if r.type = .modified then
      if r.leavesQty ≤ leavesQty then some (.live r.leavesQty) else none
    else if r.type = .canceled then
      if r.leavesQty = leavesQty then some .dead else none
    else none
  | .dead, _ => none

/-- What the responses that name `id` make of it, if they come in an order they may. -/
def lifeOf (id : OrderId) (rs : List ClientResponseInternal) : Option Life :=
  (rs.filter fun r => r.marketOrderId = id).foldlM Life.next .unborn

/-- Two `FILLED`, one on each side, and the `TRADE` sent with them. -/
structure IsExecution (a b : ClientResponseInternal) (t : MarketUpdate) : Prop where
  types : a.type = .filled ∧ b.type = .filled ∧ t.type = .trade
  sides : a.side = .buy ∧ b.side = .sell ∨ a.side = .sell ∧ b.side = .buy
  price : a.price = t.price ∧ b.price = t.price
  qty : a.execQty = t.qty ∧ b.execQty = t.qty

def reportsExecution : Message → Bool
  | .response r => r.type = .filled
  | .update u => u.type = .trade

/-- Executions are reported in threes and nowhere else. -/
inductive Paired : List Message → Prop
  | nil : Paired []
  | execution {ms a b t} (before : Paired ms) (h : IsExecution a b t) :
      Paired (ms ++ [.response a, .response b, .update t])
  | other {ms m} (before : Paired ms) (h : reportsExecution m = false) : Paired (ms ++ [m])

/-- The quantity executed on a side. -/
def traded (side : Side) (ms : List Message) : Nat :=
  (((responses ms).filter fun r => r.type = .filled ∧ r.side = side).map
    (·.execQty.toNat)).sum

section Log
variable {rs : List ClientResponseInternal} {r : ClientResponseInternal} {id : OrderId}

theorem responses_append (ms ns : List Message) :
    responses (ms ++ ns) = responses ms ++ responses ns := List.filterMap_append ..

theorem lifeOf_concat_ne (h : r.marketOrderId ≠ id) : lifeOf id (rs ++ [r]) = lifeOf id rs := by
  rw [lifeOf, lifeOf, List.filter_append, List.filter_cons_of_neg (by simpa using h),
    List.filter_nil, List.append_nil]

theorem lifeOf_concat_self (rs : List ClientResponseInternal) (r : ClientResponseInternal) :
    lifeOf r.marketOrderId (rs ++ [r]) = (lifeOf r.marketOrderId rs).bind (·.next r) := by
  rw [lifeOf, List.filter_append, List.filter_cons_of_pos (by simp), List.filter_nil,
    List.foldlM_append]
  rcases h : (rs.filter fun r' => r'.marketOrderId = r.marketOrderId).foldlM Life.next .unborn with
    _ | l
  · simp [lifeOf, h]
  · simp [lifeOf, h]

theorem Life.next_ne_unborn {l : Life} : l.next r ≠ some .unborn := by
  cases l with
  | unborn =>
    rw [Life.next]
    split <;> simp
  | live leavesQty =>
    simp only [Life.next]
    repeat' split
    all_goals simp
  | dead => simp [Life.next]

/-- An id that has been named is not unborn. -/
theorem lifeOf_ne_unborn (hr : r ∈ rs) (hid : r.marketOrderId = id) :
    lifeOf id rs ≠ some .unborn := by
  induction rs using List.reverseRecOn with
  | nil => cases hr
  | append_singleton rs r' ih =>
    by_cases heq : r'.marketOrderId = id
    · subst heq
      rw [lifeOf_concat_self]
      intro h
      obtain ⟨l, _, hl⟩ := Option.bind_eq_some_iff.mp h
      exact Life.next_ne_unborn hl
    · rw [lifeOf_concat_ne heq]
      rcases List.mem_append.mp hr with hr | hr
      · exact ih hr
      · rw [List.mem_singleton.mp hr] at hid
        exact absurd hid heq

/-- No id is accepted twice. -/
theorem lifeOf_accepted_again {q : ClientResponseInternal} (hr : r ∈ rs)
    (hid : q.marketOrderId = r.marketOrderId) (htype : q.type = .accepted) :
    lifeOf q.marketOrderId (rs ++ [q]) = none := by
  rw [lifeOf_concat_self]
  rcases h : lifeOf q.marketOrderId rs with _ | l
  · rfl
  · cases l with
    | unborn => exact absurd h (lifeOf_ne_unborn hr hid.symm)
    | live leavesQty =>
      simp [Life.next, htype, show ¬ ClientResponseType.accepted = .filled by decide,
        show ¬ ClientResponseType.accepted = .modified by decide,
        show ¬ ClientResponseType.accepted = .canceled by decide]
    | dead => rfl

theorem traded_append (side : Side) (ms ns : List Message) :
    traded side (ms ++ ns) = traded side ms + traded side ns := by
  rw [traded, responses_append, List.filter_append, List.map_append, List.sum_append]
  rfl

theorem Paired.others {ms ns : List Message} (h : Paired ms)
    (hns : ∀ m ∈ ns, reportsExecution m = false) : Paired (ms ++ ns) := by
  induction ns generalizing ms with
  | nil => rwa [List.append_nil]
  | cons m ns ih =>
    rw [List.append_cons]
    exact ih (.other h (hns m List.mem_cons_self)) fun k hk => hns k (List.mem_cons_of_mem _ hk)

/-- Paired executions buy as much as they sell. -/
theorem Paired.traded_eq {ms : List Message} (h : Paired ms) :
    traded .buy ms = traded .sell ms := by
  induction h with
  | nil => rfl
  | @execution ms a b t _ h ih =>
    obtain ⟨⟨ha, hb, _⟩, hsides, _, hqa, hqb⟩ := h
    rw [traded_append, traded_append, ih]
    congr 1
    rcases hsides with ⟨sa, sb⟩ | ⟨sa, sb⟩ <;>
      simp [traded, responses, ha, hb, sa, sb, hqa, hqb]
  | @other ms m _ h ih =>
    have hnone : ∀ side, traded side [m] = 0 := by
      intro side
      rcases m with r | u
      · have hr : ¬ r.type = .filled := by simpa [reportsExecution] using h
        simp [traded, responses, hr]
      · rfl
    rw [traded_append, traded_append, ih, hnone, hnone]

end Log

namespace BookView

/-- The responses about each id are those of one life, at whose end stands the order. -/
structure Lives (v : BookView) (n : Nat) : Prop where
  obeyed : ∀ id, id ≠ invalidOrderId → lifeOf id (responses v.sent) ≠ none
  unborn : ∀ id, id ≠ invalidOrderId → ¬ Born n id →
    lifeOf id (responses v.sent) = some .unborn
  alive : ∀ o ∈ v.orders, o.marketOrderId ≠ invalidOrderId →
    lifeOf o.marketOrderId (responses v.sent) = some (.live o.qty)

/-- The taker has as much left as its responses say. -/
def TakerLives (a : Aggressor) (v : BookView) (leavesQty : Quantity) : Prop :=
  a.marketOrderId ≠ invalidOrderId →
    lifeOf a.marketOrderId (responses v.sent) = some (.live leavesQty) ∨
      leavesQty = 0 ∧ lifeOf a.marketOrderId (responses v.sent) = some .dead

section Lives
variable {v w : BookView} {n : Nat} {o : OrderView} {r : ClientResponseInternal}

theorem create_lives (i : InstrumentId) : (create i).Lives 0 :=
  ⟨fun _ _ => nofun, fun _ _ _ => rfl, fun o ho => absurd ho (by simp [create, orders, levels])⟩

/-- One more response, and what is left of the order it names. -/
theorem Lives.respond (h : v.Lives n) {m : Nat} (hnm : n ≤ m) {j k : Life}
    (hsent : responses w.sent = responses v.sent ++ [r]) (hborn : Born m r.marketOrderId)
    (hl : r.marketOrderId ≠ invalidOrderId →
      lifeOf r.marketOrderId (responses v.sent) = some j) (hnext : j.next r = some k)
    (orders : ∀ o ∈ w.orders, o.marketOrderId = r.marketOrderId ∧ k = .live o.qty ∨
      o.marketOrderId ≠ r.marketOrderId ∧
        ∃ o' ∈ v.orders, o'.marketOrderId = o.marketOrderId ∧ o'.qty = o.qty) :
    w.Lives m ∧ (r.marketOrderId ≠ invalidOrderId →
      lifeOf r.marketOrderId (responses w.sent) = some k) := by
  have hself : r.marketOrderId ≠ invalidOrderId →
      lifeOf r.marketOrderId (responses w.sent) = some k := by
    intro hv
    rw [hsent, lifeOf_concat_self, hl hv]
    exact hnext
  have hother : ∀ id, id ≠ r.marketOrderId →
      lifeOf id (responses w.sent) = lifeOf id (responses v.sent) := by
    intro id hne
    rw [hsent, lifeOf_concat_ne hne.symm]
  refine ⟨⟨fun id hid => ?_, fun id hid hnb => ?_, fun o ho hid => ?_⟩, hself⟩
  · by_cases heq : id = r.marketOrderId
    · subst heq
      rw [hself hid]
      exact nofun
    · rw [hother id heq]
      exact h.obeyed id hid
  · have heq : id ≠ r.marketOrderId := by
      rintro rfl
      exact hnb hborn
    rw [hother id heq]
    exact h.unborn id hid fun hb => hnb (hb.mono hnm)
  · rcases orders o ho with ⟨heq, hlive⟩ | ⟨hne, o', ho', heq, hqty⟩
    · rw [heq] at hid ⊢
      rw [hself hid, hlive]
    · rw [hother _ hne, ← heq, ← hqty]
      exact h.alive o' ho' (heq ▸ hid)

/-- Other messages, and responses that name no order. -/
theorem Lives.congr (h : v.Lives n) {m : Nat} (hnm : n ≤ m)
    (hsent : ∀ id, id ≠ invalidOrderId →
      lifeOf id (responses w.sent) = lifeOf id (responses v.sent))
    (orders : ∀ o ∈ w.orders, o.marketOrderId ≠ invalidOrderId →
      lifeOf o.marketOrderId (responses v.sent) = some (.live o.qty)) : w.Lives m :=
  ⟨fun id hid => by rw [hsent id hid]; exact h.obeyed id hid,
    fun id hid hnb => by rw [hsent id hid]; exact h.unborn id hid fun hb => hnb (hb.mono hnm),
    fun o ho hid => by rw [hsent _ hid]; exact orders o ho hid⟩

theorem live_filled {leavesQty : Quantity} (htype : r.type = .filled)
    (hle : r.execQty ≤ leavesQty) (hleaves : r.leavesQty = leavesQty - r.execQty) :
    (Life.live leavesQty).next r =
      some (if r.leavesQty = 0 then .dead else .live r.leavesQty) := by
  rw [Life.next, if_pos htype, if_pos ⟨hle, hleaves⟩]

theorem Lives.accepted (h : v.Lives n) (hn : v.Numbered n) (hlt : n < 2 ^ 64)
    (a : Aggressor) (hid : a.marketOrderId = v.nextMarketOrderId)
    (hnext : a.marketOrderId = UInt64.ofNat (n + 1)) (quantity : Quantity) :
    (v.accepted a.clientId a.clientOrderId a.side a.price quantity).Lives (n + 1) ∧
    TakerLives a (v.accepted a.clientId a.clientOrderId a.side a.price quantity) quantity := by
  have hfresh : ¬ Born n a.marketOrderId := hnext ▸ not_born_next hlt
  have hstep := h.respond (Nat.le_succ n) (j := .unborn) (k := .live quantity)
    (w := v.accepted a.clientId a.clientOrderId a.side a.price quantity)
    (r := ⟨.accepted, a.clientId, v.instrumentId, a.clientOrderId, v.nextMarketOrderId, a.side,
      a.price, 0, quantity⟩) (responses_append ..)
    (by change Born _ v.nextMarketOrderId; rw [← hid, hnext]; exact born_last n)
    (fun hne => h.unborn _ hne (hid ▸ hfresh)) rfl
    (fun o ho => Or.inr ⟨fun heq => hfresh ?_, o, ho, rfl, rfl⟩)
  · refine ⟨hstep.1, fun hne => Or.inl ?_⟩
    rw [hid] at hne ⊢
    exact hstep.2 hne
  · have hid' : o.marketOrderId = a.marketOrderId := heq.trans hid.symm
    exact hid' ▸ hn.born o ho

/-- Apart from `o` a removal leaves the orders as they are. -/
theorem orders_removed (hn : v.Numbered n) (ho : o ∈ v.orders) {o' : OrderView}
    (ho' : o' ∈ (v.removeOrder o).orders) : o'.marketOrderId ≠ o.marketOrderId ∧
      ∃ o₁ ∈ v.orders, o₁.marketOrderId = o'.marketOrderId ∧ o₁.qty = o'.qty := by
  obtain ⟨hmem, hne⟩ := mem_removeOrder.mp ho'
  exact ⟨fun heq => hne (congrArg OrderView.handle (hn.eq_of_id hmem ho heq)), o', hmem, rfl, rfl⟩

theorem orders_reduced (hv : v.Valid) (hn : v.Numbered n) (ho : o ∈ v.orders) {qty : Quantity}
    {o' : OrderView} (ho' : o' ∈ (v.setQty o.handle qty).orders) :
    o'.marketOrderId = o.marketOrderId ∧ o'.qty = qty ∨
      o'.marketOrderId ≠ o.marketOrderId ∧
        ∃ o₁ ∈ v.orders, o₁.marketOrderId = o'.marketOrderId ∧ o₁.qty = o'.qty := by
  rw [orders_setQty] at ho'
  obtain ⟨o₁, ho₁, rfl⟩ := List.mem_map.mp ho'
  rw [withQty_id]
  by_cases hh : o₁.handle = o.handle
  · left
    rw [hv.order_eq ho₁ ho hh, withQty, if_pos rfl]
    exact ⟨rfl, rfl⟩
  · right
    refine ⟨fun heq => hh (congrArg OrderView.handle (hn.eq_of_id ho₁ ho heq)), o₁, ho₁, rfl, ?_⟩
    rw [withQty, if_neg hh]

theorem Lives.removeOrder (h : v.Lives n) (hn : v.Numbered n) (ho : o ∈ v.orders)
    {ms : List Message} (hms : responses ms = [r]) (hid : r.marketOrderId = o.marketOrderId)
    (hnext : (Life.live o.qty).next r = some .dead) : ((v.removeOrder o).send ms).Lives n := by
  refine (h.respond le_rfl (r := r) (w := (v.removeOrder o).send ms) ?_ (hid ▸ hn.born o ho)
    (fun hne => ?_) hnext fun o' ho' => Or.inr ?_).1
  · change responses (v.sent ++ ms) = _
    rw [responses_append, hms]
  · rw [hid] at hne ⊢
    exact h.alive o ho hne
  · rw [hid]
    exact orders_removed hn ho ho'

theorem Lives.setQty (h : v.Lives n) (hv : v.Valid) (hn : v.Numbered n) (ho : o ∈ v.orders)
    {ms : List Message} (hms : responses ms = [r]) (hid : r.marketOrderId = o.marketOrderId)
    {qty : Quantity} (hnext : (Life.live o.qty).next r = some (.live qty)) :
    ((v.setQty o.handle qty).send ms).Lives n := by
  refine (h.respond le_rfl (r := r) (w := (v.setQty o.handle qty).send ms) ?_
    (hid ▸ hn.born o ho) (fun hne => ?_) hnext fun o' ho' => ?_).1
  · change responses (v.sent ++ ms) = _
    rw [responses_append, hms]
  · rw [hid] at hne ⊢
    exact h.alive o ho hne
  · rw [hid]
    refine (orders_reduced hv hn ho ho').imp_left fun ⟨heq, hqty⟩ => ⟨heq, ?_⟩
    rw [hqty]

theorem minQty_le_left (x y : Quantity) : min x y ≤ x := by
  rcases minQty_cases x y with ⟨_, hmin⟩ | ⟨hlt, hmin⟩
  · rw [hmin]
    exact UInt32.le_refl x
  · rw [hmin]
    exact UInt32.le_of_lt hlt

theorem minQty_le_right (x y : Quantity) : min x y ≤ y := by
  rcases minQty_cases x y with ⟨hle, hmin⟩ | ⟨_, hmin⟩
  · rw [hmin]
    exact hle
  · rw [hmin]
    exact UInt32.le_refl y

/-- An execution answers the taker and then the resting order. -/
theorem Lives.fill (h : v.Lives (n + 1)) (hv : v.Valid) (hn : v.Numbered n) (hlt : n < 2 ^ 64)
    {a : Aggressor} (hid : a.marketOrderId = UInt64.ofNat (n + 1)) (ho : o ∈ v.orders)
    {leavesQty : Quantity} (hleft : leavesQty ≠ 0) (htaker : TakerLives a v leavesQty) :
    (v.fill a leavesQty o).Lives (n + 1) ∧
      TakerLives a (v.fill a leavesQty o) (leavesQty - min leavesQty o.qty) := by
  let qty := min leavesQty o.qty
  let ra : ClientResponseInternal := ⟨.filled, a.clientId, v.instrumentId, a.clientOrderId,
    a.marketOrderId, a.side, o.price, qty, leavesQty - qty⟩
  let ro : ClientResponseInternal := ⟨.filled, o.clientId, o.instrumentId, o.clientOrderId,
    o.marketOrderId, o.side, o.price, qty, o.qty - qty⟩
  have hne : ∀ o' ∈ v.orders, o'.marketOrderId ≠ a.marketOrderId := fun o' ho' heq =>
    not_born_next hlt (hid ▸ heq ▸ hn.born o' ho')
  have hlive : a.marketOrderId ≠ invalidOrderId →
      lifeOf a.marketOrderId (responses v.sent) = some (.live leavesQty) :=
    fun hv => (htaker hv).resolve_right fun hz => hleft hz.1
  obtain ⟨hL, hself⟩ := h.respond le_rfl (w := v.send [.response ra]) (r := ra)
    (responses_append ..) (show Born (n + 1) a.marketOrderId from hid ▸ born_last n) hlive
    (live_filled rfl (minQty_le_left _ _) rfl) fun o' ho' => Or.inr ⟨hne o' ho', o', ho', rfl, rfl⟩
  have hsent : responses (v.fill a leavesQty o).sent =
      responses (v.send [.response ra]).sent ++ [ro] := by
    rw [sent_fill]
    change responses (v.sent ++ _) = responses (v.sent ++ [.response ra]) ++ [ro]
    rw [responses_append, responses_append, List.append_assoc]
    rfl
  have hnext : (Life.live o.qty).next ro =
      some (if o.qty - qty = 0 then .dead else .live (o.qty - qty)) :=
    live_filled rfl (minQty_le_right _ _) rfl
  obtain ⟨hL', _⟩ := hL.respond le_rfl hsent ((hn.born o ho).mono (Nat.le_succ n))
    (hL.alive o ho) hnext fun o' ho' => by
      by_cases hzero : o.qty - qty = 0
      · rw [fill_whole v a leavesQty o hzero] at ho'
        exact Or.inr (orders_removed (hn.send _) ho ho')
      · rw [fill_part v a leavesQty o hzero] at ho'
        rw [if_neg hzero]
        refine (orders_reduced (hv.send _) (hn.send _) ho ho').imp_left fun ⟨heq, hqty⟩ =>
          ⟨heq, ?_⟩
        rw [hqty]
  refine ⟨hL', fun hvalid => ?_⟩
  rw [hsent, lifeOf_concat_ne (hne o ho)]
  have hlife := hself hvalid
  by_cases hzero : leavesQty - qty = 0
  · right
    refine ⟨hzero, ?_⟩
    rwa [if_pos (show ra.leavesQty = 0 from hzero)] at hlife
  · left
    rwa [if_neg (show ¬ ra.leavesQty = 0 from hzero)] at hlife

end Lives

section Pairs
variable {v : BookView} {a : Aggressor} {o : OrderView}

/-- The first order a taker meets rests on the other side. -/
theorem side_of_head (hv : v.Valid) (hp : v.Priced) (hn : Named a.side)
    (hhead : v.head a.side = some o) :
    a.side = .buy ∧ o.side = .sell ∨ a.side = .sell ∧ o.side = .buy := by
  obtain ⟨l, hl, hol⟩ : ∃ l ∈ v.opposite a.side, o ∈ l.orders := by
    obtain ⟨l, hl, hfirst⟩ := Option.bind_eq_some_iff.mp hhead
    exact ⟨l, List.mem_of_head? hl, List.mem_of_head? hfirst⟩
  rcases hn with hs | hs
  · have hl' : l ∈ v.asks := by simpa [opposite, hs] using hl
    rw [(hv.filed l (List.mem_append_right _ hl') o hol).1, hp.sell l hl']
    exact Or.inl ⟨hs, rfl⟩
  · have hl' : l ∈ v.bids := by simpa [opposite, hs] using hl
    rw [(hv.filed l (List.mem_append_left _ hl') o hol).1, hv.bidSide l hl']
    exact Or.inr ⟨hs, rfl⟩

theorem paired_fill (hv : v.Valid) (hp : v.Priced) (hn : Named a.side)
    (hhead : v.head a.side = some o) (leavesQty : Quantity) (h : Paired v.sent) :
    Paired (v.fill a leavesQty o).sent := by
  have hthree : Paired (v.sent ++ executionMessages v.instrumentId a leavesQty o.toOrderFields
      (min leavesQty o.qty)) :=
    .execution h ⟨⟨rfl, rfl, rfl⟩, side_of_head hv hp hn hhead, ⟨rfl, rfl⟩, rfl, rfl⟩
  by_cases hzero : o.qty - min leavesQty o.qty = 0
  · rw [fill_whole v a leavesQty o hzero]
    exact .other hthree rfl
  · rw [fill_part v a leavesQty o hzero]
    exact .other hthree rfl

theorem tracks_lives : Tracks (2 ^ 64) (fun v n => v.Lives n ∧ Paired v.sent)
    fun a v n leavesQty => v.Lives (n + 1) ∧ TakerLives a v leavesQty ∧ Paired v.sent where
  accepted v n a quantity hn h hlt _ hid hnext := by
    obtain ⟨hlives, htaker⟩ := h.1.accepted hn hlt a hid hnext quantity
    exact ⟨hlives, htaker, .other h.2 rfl⟩
  fill v n a leavesQty o hv hp hn h hlt hnamed hid hhead ho hleft := by
    obtain ⟨hlives, htaker⟩ := h.1.fill hv hn hlt hid ho hleft h.2.1
    exact ⟨hlives, htaker, paired_fill hv hp hnamed hhead leavesQty h.2.2⟩
  filled _ _ _ h := ⟨h.1, h.2.2⟩
  book v n a leavesQty p rest hv hn h hlt hid hpos hfree hprice := by
    have hresponses : responses (v.book a.clientId a.clientOrderId a.marketOrderId a.side a.price
        leavesQty).sent = responses v.sent := by
      rw [sent_book hfree, responses_append]
      exact List.append_nil _
    refine ⟨h.1.congr le_rfl (fun _ _ => by rw [hresponses]) fun o ho hvalid => ?_, ?_⟩
    · rw [book_eq hfree] at ho
      rcases List.mem_cons.mp ((hv.perm_place (o := v.bookedOrder p a.clientId a.clientOrderId
        a.marketOrderId a.side a.price leavesQty) hprice.same).mem_iff.mp ho) with rfl | ho
      · refine (h.2.1 hvalid).resolve_right fun hz => ?_
        rw [hz.1] at hpos
        exact absurd hpos (by decide)
      · exact h.1.alive o ho hvalid
    · rw [sent_book hfree]
      exact .other h.2.2 rfl
  cancelOrder v n _ _ o _ hn h ho := by
    refine ⟨h.1.removeOrder hn ho rfl rfl ?_, ?_⟩
    · simp [Life.next, show ¬ ClientResponseType.canceled = .filled by decide,
        show ¬ ClientResponseType.canceled = .modified by decide]
    · exact h.2.others (by simp [reportsExecution, show ¬ ClientResponseType.canceled = .filled by
        decide, show ¬ MarketUpdateType.cancel = .trade by decide])
  reduce v n _ _ o newQuantity hv hn h ho hle := by
    refine ⟨h.1.setQty hv hn ho rfl rfl ?_, ?_⟩
    · simp [Life.next, show ¬ ClientResponseType.modified = .filled by decide, hle]
    · exact h.2.others (by simp [reportsExecution, show ¬ ClientResponseType.modified = .filled by
        decide, show ¬ MarketUpdateType.modify = .trade by decide])
  reject v n type clientId clientOrderId htype h := by
    refine ⟨h.1.congr le_rfl (fun id hid => ?_) h.1.alive, h.2.other ?_⟩
    · change lifeOf id (responses (v.sent ++ [_])) = _
      rw [responses_append]
      exact lifeOf_concat_ne hid.symm
    · rcases htype with rfl | rfl <;> rfl

end Pairs

end BookView

section Run
variable {fuel : Nat} {i : InstrumentId} {rs : List OrderBook.BookRequest} {s : OrderBook}

/-- The responses about every id are those of one life, a resting order has what they
leave it, and executions come in pairs. -/
theorem keepsPrices_lives (hfuel : maxNumOrders < fuel)
    (h : Reached (OrderBook.call fuel) (OrderBook.KeepsPrices fuel) (.create i) rs s)
    (hids : accepts s.sent ≤ 2 ^ 64) :
    (∀ id, id ≠ invalidOrderId → ∃ life, lifeOf id (responses s.sent) = some life ∧
      ∀ p ∈ s.resting, (s.order p).marketOrderId = id → life = .live (s.order p).qty) ∧
    Paired s.sent ∧ traded .buy s.sent = traded .sell s.sent := by
  obtain ⟨hr, hv, ht⟩ := keepsPrices_tracked tracks_lives le_rfl ⟨create_lives i, .nil⟩ hfuel h
  rw [hr.sent] at hids ⊢
  obtain ⟨_, hlives, hpaired⟩ := ht.tracked hids
  refine ⟨fun id hid => ?_, hpaired, hpaired.traded_eq⟩
  obtain ⟨life, hlife⟩ := Option.ne_none_iff_exists'.mp (hlives.obeyed id hid)
  refine ⟨life, hlife, fun p hp heq => ?_⟩
  obtain ⟨o, ho, rfl, hfields⟩ := (mem_orders_iff hr hv).mp hp
  rw [hfields] at heq ⊢
  subst heq
  exact Option.some.inj (hlife.symm.trans (hlives.alive o ho hid))

/-- The hypotheses are met by a run in which one order is filled in part and canceled. -/
theorem keepsPrices_lives_sample : ∃ s,
    Reached (OrderBook.call 3000) (OrderBook.KeepsPrices 3000) (.create 0)
      [.add 1 1 .sell 12 8, .add 2 1 .buy 12 5, .modify 1 1 12 2, .cancel 1 1] s ∧
    lifeOf 1 (responses s.sent) = some .dead ∧ traded .buy s.sent = 5 ∧
    traded .buy s.sent = traded .sell s.sent := by
  obtain ⟨s, hs, hcheck⟩ := @reached_of_any _ _ _ (OrderBook.call 3000)
    (OrderBook.KeepsPrices 3000) (.create 0)
    [.add 1 1 .sell 12 8, .add 2 1 .buy 12 5, .modify 1 1 12 2, .cancel 1 1] _
    (fun s => accepts s.sent ≤ 2 ^ 64 ∧ lifeOf 1 (responses s.sent) = some .dead ∧
      traded .buy s.sent = 5)
    (by decide +kernel)
  simp only [decide_eq_true_eq] at hcheck
  exact ⟨s, hs, hcheck.2.1, hcheck.2.2, (keepsPrices_lives (by decide) hs hcheck.1).2.2⟩

/-- A rejection names `INVALID_ORDER_ID`, which nothing accepted; and once the counter has
come round, an order is accepted under the id of a resting one. -/
theorem onceAround_lives : (∃ s,
    Reached (OrderBook.call 3000) (fun s r => s.WithinPools 3000 r ∧ s.KeepsPrices 3000 r)
      (.create 0) [.cancel 1 1] s ∧ lifeOf invalidOrderId (responses s.sent) = none) ∧
    ∃ s, Reached (OrderBook.call 3000)
      (fun s r => s.WithinPools 3000 r ∧ s.KeepsPrices 3000 r) (.create 0) onceAround s ∧
      lifeOf 1 (responses s.sent) = none := by
  constructor
  · obtain ⟨s, hs, hcheck⟩ := @reached_of_any _ _ _ (OrderBook.call 3000)
      (fun s r => s.WithinPools 3000 r ∧ s.KeepsPrices 3000 r) (.create 0) [.cancel 1 1] _
      (fun s => lifeOf invalidOrderId (responses s.sent) = none) (by decide +kernel)
    exact ⟨s, hs, of_decide_eq_true hcheck⟩
  · obtain ⟨s, ms, hs, hsent⟩ := @onceAround_reached 3000 (by decide)
    refine ⟨s, hs, ?_⟩
    have hresponses : responses s.sent = (⟨.accepted, 1, 0, 1, 1, .buy, 10, 0, 5⟩ ::
        responses ms) ++ [⟨.accepted, 3, 0, 1, 1, .buy, 10, 0, 5⟩] := by
      rw [hsent, responses_append, responses_append, responses_append]
      simp [responses]
    rw [hresponses]
    exact lifeOf_accepted_again (q := ⟨.accepted, 3, 0, 1, 1, .buy, 10, 0, 5⟩)
      List.mem_cons_self rfl rfl

end Run

end StockExchange
