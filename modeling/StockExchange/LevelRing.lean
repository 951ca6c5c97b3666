import StockExchange.Represents

/-!
# Price levels in the ring

`remove_price_level` and `add_price_level` against the lists of the view.
-/

namespace StockExchange

open Ring BookView

section Remove
variable {s : OrderBook} {v : BookView} {side : Side} {price : Price} {A B : List LevelView}
  {l : LevelView}

theorem best_of_split (hr : Represents s v) (hown : v.own side = A ++ l :: B) :
    IsRing s.nextEntry s.prevEntry (A.map (·.handle) ++ l.handle :: B.map (·.handle)) ∧
      s.best side = (A.map (·.handle) ++ l.handle :: B.map (·.handle)).head? := by
  have h := hr.sides side
  rw [hown, List.map_append, List.map_cons] at h
  exact ⟨h.ring, h.head⟩

/-- Within a side the price tells the levels apart. -/
theorem BookView.Valid.eq_of_price (hv : v.Valid) {l m : LevelView} (hl : l ∈ v.levels)
    (hm : m ∈ v.levels) (same : l.price = m.price) : l = m :=
  hv.level_eq_of_slot hl hm (congrArg priceToIndex same)

theorem getPriceLevel_of_mem (hr : Represents s v) (hv : v.Valid) (hl : l ∈ v.levels)
    (hside : l.side = side) (hslot : priceToIndex price = l.slot) :
    s.getPriceLevel side price = some l.handle := by
  rw [hr.getPriceLevel, BookView.getPriceLevel, hslot, hv.slotLevel_eq hl]
  simp [Option.filter, hside]

theorem removePriceLevel_alone (hr : Represents s v) (hv : v.Valid) (hown : v.own side = [l])
    (hside : l.side = side) (hslot : priceToIndex price = l.slot) :
    s.removePriceLevel side price = .ok
      (((s.setBest side none).setPriceLevel l.slot none).freeLevel l.handle) := by
  have hl : l ∈ v.levels := v.own_subset side (by simp [hown])
  have hget := getPriceLevel_of_mem hr hv hl hside hslot
  have hring := (hr.sides side).ring
  rw [hown] at hring
  have hloop : (s.level l.handle).nextEntry = some l.handle := (isRing_singleton.mp hring).1
  simp only [OrderBook.removePriceLevel, hget, hloop, if_true, hslot, ok_bind]

/-- The relinking of `remove_price_level` when other levels remain. -/
def unlinked (s : OrderBook) (side : Side) (l a b : LevelPtr) : OrderBook :=
  let s' := (s.setNextEntry a (some b)).setPrevEntry b (some a)
  let s' := if s.best side = some l then s'.setBest side (some b) else s'
  (s'.setPrevEntry l none).setNextEntry l none

theorem removePriceLevel_among (hr : Represents s v) (hv : v.Valid)
    (hown : v.own side = A ++ l :: B) (hside : l.side = side)
    (hslot : priceToIndex price = l.slot) {a b : LevelPtr}
    (ha : (B.map (·.handle) ++ A.map (·.handle)).getLast? = some a)
    (hb : (B.map (·.handle) ++ A.map (·.handle)).head? = some b) :
    s.removePriceLevel side price = .ok
      (((unlinked s side l.handle a b).setPriceLevel l.slot none).freeLevel l.handle) := by
  have hl : l ∈ v.levels := v.own_subset side (by simp [hown])
  have hget := getPriceLevel_of_mem hr hv hl hside hslot
  obtain ⟨hring, hbest⟩ := best_of_split hr hown
  obtain ⟨hal, hlb⟩ := hring.neighbours ha hb
  have hne : ∀ c ∈ B.map (·.handle) ++ A.map (·.handle), ¬ l.handle = c := by
    have hcons := List.nodup_cons.mp (List.perm_middle.nodup_iff.mp hring.nodup)
    rintro c hc rfl
    exact hcons.1 (List.mem_append.mpr (List.mem_append.mp hc).symm)
  have hla := hne a (List.mem_of_getLast? ha)
  have hbl : ¬ b = l.handle := fun h => hne b (List.mem_of_mem_head? hb) h.symm
  obtain ⟨m, hm, hbest⟩ : ∃ m ∈ v.levels, s.best side = some m.handle := by
    rcases A with _ | ⟨m, A⟩
    · exact ⟨l, hl, by simpa using hbest⟩
    · exact ⟨m, v.own_subset side (by simp [hown]), by simpa using hbest⟩
  have hprice : (s.level m.handle).price = (s.level l.handle).price ↔ m.handle = l.handle := by
    rw [(hr.level m hm).price, (hr.level l hl).price]
    exact ⟨fun h => by rw [hv.eq_of_price hm hl h], fun h => by rw [hv.level_eq hm hl h]⟩
  have hnext : (s.level l.handle).nextEntry = some b := hlb.1
  have hprev : (s.level l.handle).prevEntry = some a := hal.2
  simp only [OrderBook.removePriceLevel, hget, hnext, hprev, hslot, Option.some.injEq, hbl,
    if_false, ok_bind, deref_some, OrderBook.nextEntry_setNextEntry,
    OrderBook.prevEntry_setNextEntry, hla, OrderBook.best_setNextEntry,
    OrderBook.best_setPrevEntry, hbest, OrderBook.price_setNextEntry,
    OrderBook.price_setPrevEntry, OrderBook.nextEntry_setPrevEntry, hprice, unlinked]

theorem unlinked_links (s : OrderBook) (side : Side) (l a b m : LevelPtr) (hm : m ≠ l) :
    ((unlinked s side l a b).level m).nextEntry =
        (if m = a then some b else (s.level m).nextEntry) ∧
      ((unlinked s side l a b).level m).prevEntry =
        if m = b then some a else (s.level m).prevEntry := by
  unfold unlinked
  by_cases hbest : s.best side = some l <;> simp [hbest, hm]

theorem unlinked_best (s : OrderBook) (side side' : Side) (l a b : LevelPtr) :
    (unlinked s side l a b).best side' =
      if (side = .buy ↔ side' = .buy) ∧ s.best side = some l then some b
      else s.best side' := by
  unfold unlinked
  by_cases hbest : s.best side = some l <;> simp [hbest, OrderBook.best_setBest]

theorem unlinked_step (s : OrderBook) (side : Side) (l a b : LevelPtr) :
    LevelStep s (unlinked s side l a b) := by
  unfold unlinked
  by_cases hbest : s.best side = some l <;> constructor <;> simp [hbest] <;> rfl

theorem unlinked_pool (s : OrderBook) (side : Side) (l a b : LevelPtr) {free live : List Nat}
    (h : s.priceLevelPool.Owns free live) :
    (unlinked s side l a b).priceLevelPool.Owns free live := by
  have links : ((s.setNextEntry a (some b)).setPrevEntry b (some a)).priceLevelPool.Owns
      free live := (h.write _).write _
  unfold unlinked
  by_cases hbest : s.best side = some l <;> simp only [hbest, if_true, if_false] <;>
    exact (links.write _).write _

theorem unlinked_slots (s : OrderBook) (side : Side) (l a b : LevelPtr) :
    (unlinked s side l a b).priceLevels = s.priceLevels := by
  unfold unlinked
  by_cases hbest : s.best side = some l <;> simp only [hbest, if_true, if_false] <;> rfl

theorem LevelStep.remove {s s' : OrderBook} (h : LevelStep s s') (i : Nat) (l : LevelPtr) :
    LevelStep s ((s'.setPriceLevel i none).freeLevel l) := by
  refine ⟨h.instrumentId, h.orderPool, h.clientOrders, h.nextMarketOrderId, h.sent, ?_, ?_, ?_⟩ <;>
    intro m <;> simp only [OrderBook.level_freeLevel, OrderBook.level_setPriceLevel]
  · exact h.side m
  · exact h.price m
  · exact h.firstOrder m

/-- The ends of a ring cut open are in it. -/
theorem mem_of_ends {as bs : List LevelPtr} {a b : LevelPtr} (ha : (bs ++ as).getLast? = some a)
    (hb : (bs ++ as).head? = some b) : a ∈ as ++ bs ∧ b ∈ as ++ bs :=
  ⟨List.mem_append.mpr (List.mem_append.mp (List.mem_of_getLast? ha)).symm,
    List.mem_append.mpr (List.mem_append.mp (List.mem_of_mem_head? hb)).symm⟩

/-- The ring of a side without an unlinked level, whose slot and block are given back. -/
theorem unlinked_sideRep {as bs : List LevelPtr} {l a b : LevelPtr}
    (hring : IsRing s.nextEntry s.prevEntry (as ++ l :: bs))
    (hbest : s.best side = (as ++ l :: bs).head?) (ha : (bs ++ as).getLast? = some a)
    (hb : (bs ++ as).head? = some b) (i : Nat) :
    SideRep (((unlinked s side l a b).setPriceLevel i none).freeLevel l)
      ((((unlinked s side l a b).setPriceLevel i none).freeLevel l).best side) (as ++ bs) := by
  have hmid := List.nodup_cons.mp (List.perm_middle.nodup_iff.mp hring.nodup)
  have hother : ∀ c ∈ as ++ bs, c ≠ l := fun c hc heq => hmid.1 (heq ▸ hc)
  obtain ⟨hma, hmb⟩ := mem_of_ends ha hb
  constructor
  · simp only [OrderBook.best_freeLevel, OrderBook.best_setPriceLevel, unlinked_best, true_and]
    rcases as with _ | ⟨m, as⟩
    · have hbest' : s.best side = some l := by simpa using hbest
      rw [if_pos hbest']
      simpa using hb.symm
    · have hbest' : s.best side = some m := by simpa using hbest
      have hm : m ≠ l := hother _ (by simp)
      simp [hbest', hm]
  · refine hring.remove ha hb ?_ ?_ ⟨?_, ?_⟩ <;>
      simp only [OrderBook.nextEntry, OrderBook.prevEntry, OrderBook.level_freeLevel,
        OrderBook.level_setPriceLevel]
    · intro c hc hca
      rw [(unlinked_links s side l a b c (hother c hc)).1, if_neg hca]
    · intro c hc hcb
      rw [(unlinked_links s side l a b c (hother c hc)).2, if_neg hcb]
    · rw [(unlinked_links s side l a b a (hother a hma)).1, if_pos rfl]
    · rw [(unlinked_links s side l a b b (hother b hmb)).2, if_pos rfl]

/-- What `remove_price_level` does to the level it finds. -/
theorem removePriceLevel_spec (hr : Represents s v) (hv : v.Valid)
    (hown : v.own side = A ++ l :: B) (hside : l.side = side)
    (hslot : priceToIndex price = l.slot) {live : List LevelPtr}
    (hlive : (v.levels.map (·.handle)).Perm (l.handle :: live)) :
    ∃ s', s.removePriceLevel side price = .ok s' ∧ LevelStep s s' ∧
      s'.priceLevels = Function.update s.priceLevels l.slot none ∧
      s'.priceLevelPool.Owns (l.handle :: v.freeLevels) live ∧
      ∀ side', SideRep s' (s'.best side') (if side = .buy ↔ side' = .buy then
        (A ++ B).map (·.handle) else (v.own side').map (·.handle)) := by
  have hpool := hr.levelPool.perm hlive
  have hl : l ∈ v.own side := by simp [hown]
  rcases hBA : B.map (·.handle) ++ A.map (·.handle) with _ | ⟨b, rest⟩
  · have hA : A = [] := by simpa using (List.append_eq_nil_iff.mp hBA).2
    have hB : B = [] := by simpa using (List.append_eq_nil_iff.mp hBA).1
    subst hA hB
    have hstep : LevelStep s (s.setBest side none) :=
      ⟨rfl, rfl, rfl, rfl, rfl, fun _ => rfl, fun _ => rfl, fun _ => rfl⟩
    refine ⟨_, removePriceLevel_alone hr hv hown hside hslot, hstep.remove _ _, rfl,
      hpool.release, ?_⟩
    · refine sides_of_own hr.sides ⟨?_, isRing_nil⟩ ?_ ?_
      · simp [OrderBook.best_setBest]
      · intro side' hne
        simp [OrderBook.best_setBest, hne]
      · intro side' _ m _
        simp
  · have hb : (B.map (·.handle) ++ A.map (·.handle)).head? = some b := by rw [hBA]; rfl
    obtain ⟨a, ha⟩ : ∃ a, (B.map (·.handle) ++ A.map (·.handle)).getLast? = some a :=
      ⟨_, List.getLast?_eq_some_getLast (by simp [hBA])⟩
    obtain ⟨hring, hbest⟩ := best_of_split hr hown
    have hab := mem_of_ends ha hb
    refine ⟨_, removePriceLevel_among hr hv hown hside hslot ha hb,
      (unlinked_step s side l.handle a b).remove _ _, ?_,
      (unlinked_pool s side l.handle a b hpool).release, ?_⟩
    · simp only [OrderBook.freeLevel, OrderBook.setPriceLevel, unlinked_slots]
    · refine sides_of_own hr.sides ?_ ?_ ?_
      · rw [List.map_append]
        exact unlinked_sideRep hring hbest ha hb _
      · intro side' hne
        simp only [OrderBook.best_freeLevel, OrderBook.best_setPriceLevel, unlinked_best, hne,
          false_and, if_false]
      · intro side' hne m hm
        have hml : ∀ k ∈ v.own side, m.handle ≠ k.handle :=
          fun k hk => (hv.own_ne hne hk hm).symm
        have hmem : ∀ c ∈ A.map (·.handle) ++ B.map (·.handle), m.handle ≠ c := by
          intro c hc
          rw [← List.map_append] at hc
          obtain ⟨k, hk, rfl⟩ := List.mem_map.mp hc
          refine hml k ?_
          rw [hown]
          rcases List.mem_append.mp hk with hk | hk <;> simp [hk]
        simp only [OrderBook.level_freeLevel, OrderBook.level_setPriceLevel]
        obtain ⟨hnext, hprev⟩ := unlinked_links s side l.handle a b m.handle (hml l hl)
        rw [hnext, hprev, if_neg (hmem a hab.1), if_neg (hmem b hab.2)]
        exact ⟨rfl, rfl⟩

end Remove

section Insert
variable {s : OrderBook} {v : BookView} {new a b best : LevelPtr}

/-- `new` has been linked between its neighbours `a` and `b`. -/
structure LinkedIn (s s' : OrderBook) (a new b : LevelPtr) : Prop where
  step : LevelStep s s'
  best : s'.best = s.best
  slots : s'.priceLevels = s.priceLevels
  pool : ∀ free live, s.priceLevelPool.Owns free live → s'.priceLevelPool.Owns free live
  next : ∀ m, (s'.level m).nextEntry =
    if m = a then some new else if m = new then some b else (s.level m).nextEntry
  prev : ∀ m, (s'.level m).prevEntry =
    if m = b then some new else if m = new then some a else (s.level m).prevEntry

theorem addBefore_linked (hprev : (s.level b).prevEntry = some a) (hb : b ≠ new) :
    ∃ s', s.addBefore b new = .ok s' ∧ LinkedIn s s' a new b := by
  simp only [OrderBook.addBefore, hprev, OrderBook.prevEntry_setNextEntry,
    OrderBook.prevEntry_setPrevEntry, if_neg hb, deref_some, ok_bind]
  refine ⟨_, rfl, ?_, rfl, rfl, fun _ _ h => (((h.write _).write _).write _).write _, ?_, ?_⟩
  · refine ⟨rfl, rfl, rfl, rfl, rfl, ?_, ?_, ?_⟩ <;> intro m <;> simp
  · simp
  · simp

theorem addAfter_linked (hnext : (s.level a).nextEntry = some b) (ha : a ≠ new) :
    ∃ s', s.addAfter a new = .ok s' ∧ LinkedIn s s' a new b := by
  simp only [OrderBook.addAfter, hnext, OrderBook.nextEntry_setPrevEntry,
    OrderBook.nextEntry_setNextEntry, if_neg ha, deref_some, ok_bind]
  refine ⟨_, rfl, ?_, rfl, rfl, fun _ _ h => (((h.write _).write _).write _).write _, ?_, ?_⟩
  · refine ⟨rfl, rfl, rfl, rfl, rfl, ?_, ?_, ?_⟩ <;> intro m <;> simp
  · simp
  · simp

/-- Where the walk of `add_price_level` stops, for a side with two levels or more. -/
theorem findPosition_walk {before : LevelView → Bool} {x : LevelView}
    {pre post : List LevelView} {l : LevelView}
    (hring : IsRing s.nextEntry s.prevEntry (best :: (pre ++ l :: post).map (·.handle)))
    (hbefore : ∀ m ∈ l :: post, betterPrice (s.level new).price (s.level m.handle).price
      (s.level new).side = before m)
    (hpost : post ≠ []) {fuel : Nat} (hfuel : post.length + 2 ≤ fuel) :
    ∃ c flag P Q, s.findPosition new best fuel l.handle false = .ok (c, flag) ∧
      l :: post = P ++ Q ∧ insertRest before x (l :: post) = P ++ x :: Q ∧
      (flag = false ∧ Q.head?.map (·.handle) = some c ∨
        flag = true ∧ Q = [] ∧ P.getLast?.map (·.handle) = some c) := by
  induction post generalizing pre l fuel with
  | nil => exact absurd rfl hpost
  | cons m post ih =>
    obtain ⟨fuel, rfl⟩ : ∃ n, fuel = n + 1 := ⟨fuel - 1, by simp at hfuel; omega⟩
    by_cases hl : before l
    · refine ⟨l.handle, false, [], l :: m :: post, ?_, rfl, ?_, Or.inl ⟨rfl, rfl⟩⟩
      · rw [OrderBook.findPosition, hbefore l (by simp), hl]
        rfl
      · rcases post with _ | ⟨n, post⟩ <;> simp [insertRest, hl]
    · have hlm : (s.level l.handle).nextEntry = some m.handle := by
        have : best :: (pre ++ l :: m :: post).map (·.handle) =
            (best :: pre.map (·.handle)) ++ l.handle :: m.handle :: post.map (·.handle) := by simp
        rw [this] at hring
        exact hring.linked.1
      have hstep : s.findPosition new best (fuel + 1) l.handle false =
          if (s.level m.handle).nextEntry = some best then
            s.findPosition new best fuel m.handle true
          else s.findPosition new best fuel m.handle false := by
        rw [OrderBook.findPosition, hbefore l (by simp)]
        simp [hl, hlm]
      rcases post with _ | ⟨n, post⟩
      · have hlast : (s.level m.handle).nextEntry = some best := by
          refine (hring.last_head (b := best) ?_ rfl).1
          have : best :: (pre ++ [l, m]).map (·.handle) =
            (best :: (pre.map (·.handle) ++ [l.handle])) ++ [m.handle] := by simp
          rw [this, List.getLast?_concat]
        refine ⟨m.handle, true, [l, m], [], ?_, rfl, ?_, Or.inr ⟨rfl, rfl, rfl⟩⟩
        · obtain ⟨fuel, rfl⟩ : ∃ n, fuel = n + 1 := ⟨fuel - 1, by simp at hfuel; omega⟩
          rw [hstep, if_pos hlast, OrderBook.findPosition]
          rfl
        · simp [insertRest, hl]
      · have hmn : (s.level m.handle).nextEntry = some n.handle := by
          have : best :: (pre ++ l :: m :: n :: post).map (·.handle) =
              (best :: (pre.map (·.handle) ++ [l.handle])) ++
                m.handle :: n.handle :: post.map (·.handle) := by simp
          rw [this] at hring
          exact hring.linked.1
        have hne : ¬ n.handle = best := by
          rintro rfl
          have hnd := hring.nodup
          simp at hnd
        have hring' : IsRing s.nextEntry s.prevEntry
            (best :: ((pre ++ [l]) ++ m :: n :: post).map (·.handle)) := by simpa using hring
        have hfuel' : (n :: post).length + 2 ≤ fuel := by simp at hfuel ⊢; omega
        obtain ⟨c, flag, P, Q, hfind, hsplit, hins, hend⟩ := ih hring'
          (fun k hk => hbefore k (List.mem_cons_of_mem l hk)) (by simp) hfuel'
        refine ⟨c, flag, l :: P, Q, ?_, by simp [hsplit], by simp [insertRest, hl, hins], ?_⟩
        · rw [hstep, hmn, if_neg (by simpa using hne), hfind]
        · rcases hend with h | ⟨hflag, hQ, hP⟩
          · exact Or.inl h
          · refine Or.inr ⟨hflag, hQ, ?_⟩
            rcases P with _ | ⟨p, P⟩
            · simp at hP
            · simpa using hP

/-- The walk from the second level on, which passes the best level again if there are
fewer than three. -/
theorem findPosition_spec {before : LevelView → Bool} {x b₀ : LevelView}
    {rest : List LevelView}
    (hring : IsRing s.nextEntry s.prevEntry ((b₀ :: rest).map (·.handle)))
    (hbefore : ∀ m ∈ b₀ :: rest, betterPrice (s.level new).price (s.level m.handle).price
      (s.level new).side = before m)
    (hbest : before b₀ = false) {fuel : Nat} (hfuel : rest.length + 3 ≤ fuel) :
    ∃ first c flag P Q, (s.level b₀.handle).nextEntry = some first ∧
      s.findPosition new b₀.handle fuel first false = .ok (c, flag) ∧
      b₀ :: rest = P ++ Q ∧ insertLevel before x (b₀ :: rest) = P ++ x :: Q ∧
      (flag = false ∧ (P ≠ [] ∧ Q.head?.map (·.handle) = some c) ∨
        flag = true ∧ Q = [] ∧ P.getLast?.map (·.handle) = some c) := by
  have hb₀ := hbefore b₀ List.mem_cons_self
  obtain ⟨fuel, rfl⟩ : ∃ n, fuel = n + 3 := ⟨fuel - 3, by omega⟩
  rcases rest with _ | ⟨l, rest⟩
  · have hloop : (s.level b₀.handle).nextEntry = some b₀.handle :=
      (hring.last_head (a := b₀.handle) (b := b₀.handle) rfl rfl).1
    refine ⟨b₀.handle, b₀.handle, true, [b₀], [], hloop, ?_, rfl, ?_, Or.inr ⟨rfl, rfl, rfl⟩⟩
    · rw [OrderBook.findPosition, hb₀, hbest, hloop]
      simp [hloop, OrderBook.findPosition]
    · simp [insertLevel, insertRest, hbest]
  · have hbl : (s.level b₀.handle).nextEntry = some l.handle := hring.linked_head.1
    have hins : insertLevel before x (b₀ :: l :: rest) = b₀ :: insertRest before x (l :: rest) := by
      simp [insertLevel, hbest]
    rcases rest with _ | ⟨m, rest⟩
    · have hlb : (s.level l.handle).nextEntry = some b₀.handle :=
        (hring.last_head (a := l.handle) (b := b₀.handle) rfl rfl).1
      have hne : ¬ l.handle = b₀.handle := by
        intro h
        have hnd := hring.nodup
        simp [h] at hnd
      have hl := hbefore l (by simp)
      by_cases hlt : before l
      · refine ⟨l.handle, l.handle, false, [b₀], [l], hbl, ?_, rfl, ?_, Or.inl ⟨rfl, by simp⟩⟩
        · rw [OrderBook.findPosition, hl, hlt]
          rfl
        · simp [hins, insertRest, hlt]
      · have hlt' : before l = false := by simpa using hlt
        refine ⟨l.handle, l.handle, true, [b₀, l], [], hbl, ?_, rfl, ?_, Or.inr ⟨rfl, rfl, rfl⟩⟩
        · rw [OrderBook.findPosition, hl, hlt', hlb]
          simp only [Bool.not_false, Bool.and_self, if_true, deref_some, ok_bind, hbl,
            Option.some.injEq, if_neg hne]
          rw [OrderBook.findPosition, hb₀, hbest, hbl]
          simp [hlb, OrderBook.findPosition]
        · simp [hins, insertRest, hlt]
    · obtain ⟨c, flag, P, Q, hfind, hsplit, hins', hend⟩ := @findPosition_walk s new b₀.handle
        before x [] (m :: rest) l hring (fun k hk => hbefore k (List.mem_cons_of_mem b₀ hk))
        (by simp) (fuel + 3) (by simp at hfuel ⊢; omega)
      refine ⟨l.handle, c, flag, b₀ :: P, Q, hbl, hfind, by simp [hsplit], by simp [hins, hins'],
        ?_⟩
      rcases hend with ⟨hflag, hQ⟩ | ⟨hflag, hQ, hP⟩
      · exact Or.inl ⟨hflag, by simp, hQ⟩
      · refine Or.inr ⟨hflag, hQ, ?_⟩
        rcases P with _ | ⟨p, P⟩
        · simp at hP
        · simpa using hP

/-- Linking `new` between the levels of `P` and those of `Q`. -/
theorem insert_between {P Q : List LevelView} {c : LevelPtr} {flag : Bool}
    (hring : IsRing s.nextEntry s.prevEntry ((P ++ Q).map (·.handle)))
    (hfresh : new ∉ (P ++ Q).map (·.handle))
    (hend : flag = false ∧ Q.head?.map (·.handle) = some c ∨
      flag = true ∧ Q = [] ∧ P.getLast?.map (·.handle) = some c) :
    ∃ s' a b, (if flag then s.addAfter c new else s.addBefore c new) = .ok s' ∧
      LinkedIn s s' a new b ∧ a ∈ (P ++ Q).map (·.handle) ∧ b ∈ (P ++ Q).map (·.handle) ∧
      IsRing s'.nextEntry s'.prevEntry (P.map (·.handle) ++ new :: Q.map (·.handle)) := by
  rw [List.map_append] at hring hfresh ⊢
  have hne : Q.map (·.handle) ++ P.map (·.handle) ≠ [] := by
    rcases hend with ⟨_, hQ⟩ | ⟨_, _, hP⟩
    · rcases Q with _ | ⟨q, Q⟩ <;> simp at hQ ⊢
    · rcases P with _ | ⟨p, P⟩ <;> simp at hP ⊢
  obtain ⟨a, ha⟩ : ∃ a, (Q.map (·.handle) ++ P.map (·.handle)).getLast? = some a :=
    ⟨_, List.getLast?_eq_some_getLast hne⟩
  obtain ⟨b, hb⟩ : ∃ b, (Q.map (·.handle) ++ P.map (·.handle)).head? = some b :=
    ⟨_, List.head?_eq_some_head hne⟩
  have hab := hring.rotate.last_head ha hb
  obtain ⟨hma, hmb⟩ := mem_of_ends ha hb
  have hnew : ∀ d ∈ P.map (·.handle) ++ Q.map (·.handle), d ≠ new :=
    fun d hd heq => hfresh (heq ▸ hd)
  obtain ⟨s', hs', hlink⟩ : ∃ s', (if flag then s.addAfter c new else s.addBefore c new) = .ok s' ∧
      LinkedIn s s' a new b := by
    rcases hend with ⟨rfl, hQ⟩ | ⟨rfl, rfl, hP⟩
    · have hc : b = c := by
        rcases Q with _ | ⟨q, Q⟩
        · simp at hQ
        · exact Option.some.inj (hb.symm.trans hQ)
      subst hc
      exact addBefore_linked hab.2 (hnew b hmb)
    · have hc : a = c := by
        rw [List.map_nil, List.nil_append, List.getLast?_map, hP] at ha
        exact (Option.some.inj ha).symm
      subst hc
      exact addAfter_linked hab.1 (hnew a hma)
  refine ⟨s', a, b, hs', hlink, hma, hmb, hring.insert ha hb hfresh ?_ ?_ ⟨?_, ?_⟩ ⟨?_, ?_⟩⟩
  · intro d hd hda
    rw [OrderBook.nextEntry, hlink.next, if_neg hda, if_neg (hnew d hd)]
  · intro d hd hdb
    rw [OrderBook.prevEntry, hlink.prev, if_neg hdb, if_neg (hnew d hd)]
  · rw [OrderBook.nextEntry, hlink.next, if_pos rfl]
  · rw [OrderBook.prevEntry, hlink.prev, if_neg (hnew b hmb).symm, if_pos rfl]
  · rw [OrderBook.nextEntry, hlink.next, if_neg (hnew a hma).symm, if_pos rfl]
  · rw [OrderBook.prevEntry, hlink.prev, if_pos rfl]

/-- The other levels keep their links. -/
theorem LinkedIn.others {s' : OrderBook} {ps : List LevelPtr} (h : LinkedIn s s' a new b)
    (ha : a ∈ ps) (hb : b ∈ ps) {m : LevelPtr} (hne : m ≠ new) (hm : m ∉ ps) :
    (s'.level m).nextEntry = (s.level m).nextEntry ∧
      (s'.level m).prevEntry = (s.level m).prevEntry := by
  have hma : m ≠ a := fun h => hm (h ▸ ha)
  have hmb : m ≠ b := fun h => hm (h ▸ hb)
  rw [h.next, h.prev, if_neg hma, if_neg hmb, if_neg hne, if_neg hne]
  exact ⟨rfl, rfl⟩

theorem LevelStep.after_setPriceLevel {s' : OrderBook} {i : Nat} {l : Option LevelPtr}
    (h : LevelStep (s.setPriceLevel i l) s') : LevelStep s s' :=
  ⟨h.instrumentId, h.orderPool, h.clientOrders, h.nextMarketOrderId, h.sent, h.side, h.price,
    h.firstOrder⟩

theorem LevelStep.setBest {s' : OrderBook} (h : LevelStep s s') (side : Side)
    (l : Option LevelPtr) : LevelStep s (s'.setBest side l) :=
  ⟨h.instrumentId, h.orderPool, h.clientOrders, h.nextMarketOrderId, h.sent, h.side, h.price,
    h.firstOrder⟩

/-- What `add_price_level` does with a new level and the ring of its side. -/
theorem addPriceLevel_ring {x : LevelView} {before : LevelView → Bool} {side : Side}
    {ls : List LevelView} (hrep : SideRep s (s.best side) (ls.map (·.handle)))
    (hfresh : new ∉ ls.map (·.handle)) (hx : x.handle = new) (hside : (s.level new).side = side)
    (hbefore : ∀ m ∈ ls, betterPrice (s.level new).price (s.level m.handle).price side = before m)
    {fuel : Nat} (hfuel : ls.length + 2 ≤ fuel) :
    ∃ s', s.addPriceLevel fuel new = .ok s' ∧ LevelStep s s' ∧
      s'.priceLevels =
        Function.update s.priceLevels (priceToIndex (s.level new).price) (some new) ∧
      (∀ free live, s.priceLevelPool.Owns free live → s'.priceLevelPool.Owns free live) ∧
      SideRep s' (s'.best side) ((insertLevel before x ls).map (·.handle)) ∧
      (∀ side', ¬ (side = .buy ↔ side' = .buy) → s'.best side' = s.best side') ∧
      ∀ m, m ≠ new → m ∉ ls.map (·.handle) →
        (s'.level m).nextEntry = (s.level m).nextEntry ∧
        (s'.level m).prevEntry = (s.level m).prevEntry := by
  subst hx hside
  obtain ⟨hhead, hring⟩ := hrep
  simp only [OrderBook.addPriceLevel, OrderBook.level_setPriceLevel, OrderBook.best_setPriceLevel]
  rcases ls with _ | ⟨b₀, rest⟩
  · rw [show s.best (s.level x.handle).side = none from hhead]
    refine ⟨_, rfl, ?_, rfl, fun _ _ h => (h.write _).write _, ⟨?_, ?_⟩, ?_, ?_⟩
    · refine ⟨rfl, rfl, rfl, rfl, rfl, ?_, ?_, ?_⟩ <;> intro m <;> simp
    · simp [OrderBook.best_setBest, insertLevel]
    · simp [insertLevel, isRing_singleton, Linked]
    · intro side' hne
      simp [OrderBook.best_setBest, hne]
    · intro m hne _
      simp [hne]
  · rw [show s.best (s.level x.handle).side = some b₀.handle from hhead]
    have hbb := hbefore b₀ List.mem_cons_self
    -- the slot is written before the links, which do not depend on it
    let t := s.setPriceLevel (priceToIndex (s.level x.handle).price) (some x.handle)
    by_cases hlt : before b₀
    · obtain ⟨s', a, b, hs', hlink, ha, hb, hring'⟩ := @insert_between t x.handle [] (b₀ :: rest)
        b₀.handle false hring hfresh (Or.inl ⟨rfl, rfl⟩)
      have hs' : t.addBefore b₀.handle x.handle = .ok s' := hs'
      have hins : insertLevel before x (b₀ :: rest) = x :: b₀ :: rest := by
        simp [insertLevel, hlt]
      simp only [hbb, hlt, if_true, t, hs', ok_bind]
      refine ⟨_, rfl, hlink.step.after_setPriceLevel.setBest _ _, hlink.slots, hlink.pool, ?_, ?_,
        fun m => hlink.others ha hb⟩
      · rw [hins]
        have hside' : (s'.level x.handle).side = (s.level x.handle).side := hlink.step.side _
        rw [hside']
        exact ⟨by simp [OrderBook.best_setBest], hring'⟩
      · intro side' hne
        have hside' : (s'.level x.handle).side = (s.level x.handle).side := hlink.step.side _
        rw [hside', OrderBook.best_setBest, if_neg hne, hlink.best]
        rfl
    · have hlt' : before b₀ = false := by simpa using hlt
      obtain ⟨first, c, flag, P, Q, hfirst, hfind, hsplit, hins, hend⟩ :=
        @findPosition_spec t x.handle before x b₀ rest hring hbefore hlt' fuel (by
          simp at hfuel
          omega)
      rw [hsplit] at hring hfresh
      obtain ⟨s', a, b, hs', hlink, ha, hb, hring'⟩ := @insert_between t x.handle P Q c flag hring
        hfresh (by
          rcases hend with ⟨h, _, hQ⟩ | h
          · exact Or.inl ⟨h, hQ⟩
          · exact Or.inr h)
      have hfirst : (s.level b₀.handle).nextEntry = some first := hfirst
      simp only [hbb, hlt', hfirst, deref_some, ok_bind, t, hfind, hs', Bool.false_eq_true,
        if_false]
      rw [← hsplit] at ha hb
      refine ⟨_, rfl, hlink.step.after_setPriceLevel, hlink.slots, hlink.pool, ?_, ?_,
        fun m => hlink.others ha hb⟩
      · rw [hins]
        refine ⟨?_, by simpa using hring'⟩
        have hP : (P ++ x :: Q).head? = (P ++ Q).head? := by
          rcases P with _ | ⟨p, P⟩
          · rcases hend with ⟨_, h, _⟩ | ⟨_, _, h⟩ <;> simp at h
          · rfl
        rw [hlink.best, List.head?_map, hP, ← hsplit, ← List.head?_map]
        exact hhead
      · intro side' _
        rw [hlink.best]
        rfl

/-- What `add_price_level` does with a new level. -/
theorem addPriceLevel_spec {x : LevelView} {before : LevelView → Bool} {side : Side}
    (hsides : ∀ side', SideRep s (s.best side') ((v.own side').map (·.handle)))
    (hfresh : ∀ l ∈ v.levels, l.handle ≠ new) (hx : x.handle = new)
    (hdisjoint : ∀ side', ¬ (side = .buy ↔ side' = .buy) → ∀ m ∈ v.own side',
      m.handle ∉ (v.own side).map (·.handle))
    (hside : (s.level new).side = side)
    (hbefore : ∀ m ∈ v.own side, betterPrice (s.level new).price (s.level m.handle).price side =
      before m) {fuel : Nat} (hfuel : (v.own side).length + 2 ≤ fuel) :
    ∃ s', s.addPriceLevel fuel new = .ok s' ∧ LevelStep s s' ∧
      s'.priceLevels =
        Function.update s.priceLevels (priceToIndex (s.level new).price) (some new) ∧
      (∀ free live, s.priceLevelPool.Owns free live → s'.priceLevelPool.Owns free live) ∧
      ∀ side', SideRep s' (s'.best side') (if side = .buy ↔ side' = .buy then
        (insertLevel before x (v.own side)).map (·.handle)
        else (v.own side').map (·.handle)) := by
  have hfresh' : new ∉ (v.own side).map (·.handle) := by
    intro hmem
    obtain ⟨m, hm, heq⟩ := List.mem_map.mp hmem
    exact hfresh m (v.own_subset _ hm) heq
  obtain ⟨s', hs', hstep, hslots, hpool, hrep, hbest, hlinks⟩ :=
    addPriceLevel_ring (hsides side) hfresh' hx hside hbefore hfuel
  refine ⟨s', hs', hstep, hslots, hpool, sides_of_own hsides hrep hbest fun side' hne m hm => ?_⟩
  exact hlinks m.handle (hfresh m (v.own_subset side' hm)) (hdisjoint side' hne m hm)

end Insert

end StockExchange
