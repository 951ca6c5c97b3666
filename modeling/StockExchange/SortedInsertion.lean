import StockExchange.PriceOrder

/-!
# Insertion into a sorted ring

`add_price_level` on one side of the book, whatever the rest of it is: it always links the
new level into the ring behind the best, and leaves the ring sorted exactly if the new price
is not between those of the last two of three levels or more.
-/

namespace StockExchange

open Ring BookView

section Lists
variable {α : Type} {better : α → α → Prop} {before : α → Bool} {x : α}

/-- The walk stops before the last element, and what belongs between the last two goes
behind it. -/
theorem insertRest_between {A : List α} {u w : α} (hA : ∀ a ∈ A, before a = false)
    (hu : before u = false) : insertRest before x (A ++ [u, w]) = A ++ [u, w, x] := by
  induction A with
  | nil => simp [insertRest, hu]
  | cons a A ih =>
    have ha := hA a List.mem_cons_self
    have htail := ih fun b hb => hA b (List.mem_cons_of_mem a hb)
    rcases A with _ | ⟨b, _ | ⟨c, A⟩⟩ <;> simpa [insertRest, ha] using htail

/-- Insertion keeps a sorted list sorted exactly if `x` is not between the last two of three
elements or more. -/
theorem insertLevel_sorted_iff (trans : ∀ a b c, better a b → better b c → better a c)
    (asymm : ∀ a b, better a b → ¬ better b a) (hbefore : ∀ l, before l = true ↔ better x l)
    {ls : List α} (sorted : ls.Pairwise better) (total : ∀ l ∈ ls, better l x ∨ better x l) :
    (insertLevel before x ls).Pairwise better ↔
      ¬ ∃ best rest u w, ls = best :: rest ++ [u, w] ∧ better u x ∧ better x w := by
  constructor
  · rintro hins ⟨best, A, u, w, rfl, hu, hw⟩
    have hfirst : ∀ a ∈ best :: A, before a = false := by
      intro a ha
      have hau : better a u := (List.pairwise_append.mp sorted).2.2 a ha u List.mem_cons_self
      exact Bool.eq_false_iff.mpr fun h => asymm a x (trans a u x hau hu) ((hbefore a).mp h)
    have hubefore : before u = false :=
      Bool.eq_false_iff.mpr fun h => asymm u x hu ((hbefore u).mp h)
    have hbest := hfirst best List.mem_cons_self
    rw [List.cons_append, insertLevel, if_neg (Bool.eq_false_iff.mp hbest),
      insertRest_between (fun a ha => hfirst a (List.mem_cons_of_mem best ha)) hubefore] at hins
    have hlast := (List.pairwise_append.mp (List.pairwise_cons.mp hins).2).2.1
    have hwx : better w x := by
      simp only [List.pairwise_cons, List.mem_cons, List.not_mem_nil, or_false] at hlast
      exact hlast.2.1 x rfl
    exact asymm x w hw hwx
  · intro apart
    refine insertLevel_sorted trans hbefore sorted total ?_
    rintro best rest rfl ⟨A, u, w, rfl, hu, hw⟩
    exact apart ⟨best, A, u, w, rfl, hu, hw⟩

/-- The first of the list after an insertion is better than all others. -/
theorem insertLevel_head (trans : ∀ a b c, better a b → better b c → better a c)
    (hbefore : ∀ l, before l = true ↔ better x l) {ls : List α} (sorted : ls.Pairwise better)
    (total : ∀ l ∈ ls, better l x ∨ better x l) :
    ∀ best rest, insertLevel before x ls = best :: rest → ∀ l ∈ rest, better best l := by
  intro best rest heq l hl
  rcases ls with _ | ⟨b₀, ls⟩
  · obtain ⟨-, rfl⟩ := List.cons.inj heq
    exact absurd hl List.not_mem_nil
  · obtain ⟨hb₀, _⟩ := List.pairwise_cons.mp sorted
    rw [insertLevel] at heq
    by_cases h : before b₀
    · rw [if_pos h] at heq
      obtain ⟨rfl, rfl⟩ := List.cons.inj heq
      have hx := (hbefore b₀).mp h
      rcases List.mem_cons.mp hl with rfl | hl
      · exact hx
      · exact trans x b₀ l hx (hb₀ l hl)
    · rw [if_neg h] at heq
      obtain ⟨rfl, rfl⟩ := List.cons.inj heq
      rcases List.mem_cons.mp ((insertRest_perm before x ls).mem_iff.mp hl) with rfl | hl
      · exact (total b₀ List.mem_cons_self).resolve_right fun hx => h ((hbefore b₀).mpr hx)
      · exact hb₀ l hl

end Lists

section Heap
variable {s : OrderBook} {new : LevelPtr} {side : Side} {ls : List LevelPtr} {fuel : Nat}

/-- Strictly sorted, best first. -/
def OrderBook.Sorted (s : OrderBook) (side : Side) (ls : List LevelPtr) : Prop :=
  ls.Pairwise fun l m => betterPrice (s.level l).price (s.level m).price side = true

/-- A level of the heap as the lists know it. -/
def OrderBook.levelView (s : OrderBook) (l : LevelPtr) : LevelView :=
  ⟨l, (s.level l).side, (s.level l).price, []⟩

theorem map_levelView (s : OrderBook) (ls : List LevelPtr) :
    (ls.map s.levelView).map (·.handle) = ls := by
  simp [OrderBook.levelView, Function.comp_def]

/-- The new level is linked in and the ring is headed by the best price; it is sorted again
exactly if the new price is not just before the last. -/
theorem addPriceLevel_sorted_iff (hside : (s.level new).side = side)
    (hrep : SideRep s (s.best side) ls) (sorted : s.Sorted side ls) (hfresh : new ∉ ls)
    (hprice : ∀ l ∈ ls, (s.level l).price ≠ (s.level new).price) (hfuel : ls.length + 2 ≤ fuel) :
    ∃ s' ls', s.addPriceLevel fuel new = .ok s' ∧ SideRep s' (s'.best side) ls' ∧
      ls'.Perm (new :: ls) ∧
      (∀ l, (s'.level l).side = (s.level l).side ∧ (s'.level l).price = (s.level l).price ∧
        (s'.level l).firstOrder = (s.level l).firstOrder) ∧
      (∀ best ∈ s'.best side, ∀ l ∈ ls', l = best ∨
        betterPrice (s'.level best).price (s'.level l).price side) ∧
      (s'.Sorted side ls' ↔ ¬ s.BeforeLast side (s.level new).price) := by
  let before : LevelView → Bool := fun m => betterPrice (s.level new).price m.price side
  let better : LevelView → LevelView → Prop := fun l m => betterPrice l.price m.price side = true
  have hrep' : SideRep s (s.best side) ((ls.map s.levelView).map (·.handle)) := by
    rwa [map_levelView]
  have hmem : ∀ m ∈ ls.map s.levelView, (s.level m.handle).price = m.price := by
    intro m hm
    obtain ⟨l, _, rfl⟩ := List.mem_map.mp hm
    rfl
  have hbefore : ∀ m ∈ ls.map s.levelView,
      betterPrice (s.level new).price (s.level m.handle).price side = before m := by
    intro m hm
    rw [hmem m hm]
  have hfresh' : new ∉ (ls.map s.levelView).map (·.handle) := by rwa [map_levelView]
  have hfuel' : (ls.map s.levelView).length + 2 ≤ fuel := by rwa [List.length_map]
  obtain ⟨s', hs', hstep, -, -, hrep₁, -, -⟩ :=
    addPriceLevel_ring (x := s.levelView new) hrep' hfresh' rfl hside hbefore hfuel'
  have trans : ∀ a b c : LevelView, better a b → better b c → better a c :=
    fun _ _ _ => betterPrice_trans
  have asymm : ∀ a b : LevelView, better a b → ¬ better b a := fun a b hab =>
    Bool.eq_false_iff.mp (betterPrice_asymm hab)
  have hsorted : (ls.map s.levelView).Pairwise better := List.pairwise_map.mpr sorted
  have total : ∀ l ∈ ls.map s.levelView, better l (s.levelView new) ∨
      better (s.levelView new) l := by
    intro m hm
    obtain ⟨l, hl, rfl⟩ := List.mem_map.mp hm
    exact betterPrice_total side (hprice l hl)
  have hwalk : ∀ l, before l = true ↔ better (s.levelView new) l := fun _ => Iff.rfl
  have hperm := insertLevel_perm before (s.levelView new) (ls.map s.levelView)
  have hview : ∀ m ∈ insertLevel before (s.levelView new) (ls.map s.levelView),
      (s'.level m.handle).price = m.price := by
    intro m hm
    rw [hstep.price]
    rcases List.mem_cons.mp (hperm.mem_iff.mp hm) with rfl | hm
    · rfl
    · exact hmem m hm
  refine ⟨s', _, hs', hrep₁, ?_, fun l => ⟨hstep.side l, hstep.price l, hstep.firstOrder l⟩, ?_, ?_⟩
  · have hmap := hperm.map (·.handle)
    rwa [List.map_cons, map_levelView] at hmap
  · intro best hbest l hl
    obtain ⟨m, hm, rfl⟩ := List.mem_map.mp hl
    have hhead := hrep₁.head
    rcases hins : insertLevel before (s.levelView new) (ls.map s.levelView) with _ | ⟨b, rest⟩
    · rw [hins] at hm
      exact absurd hm List.not_mem_nil
    · rw [hins] at hhead hm hview
      obtain rfl : b.handle = best := Option.some.inj (hhead.symm.trans hbest)
      rcases List.mem_cons.mp hm with rfl | hm
      · exact Or.inl rfl
      · right
        rw [hview b List.mem_cons_self, hview m (List.mem_cons_of_mem b hm)]
        exact insertLevel_head trans hwalk hsorted total b rest hins m hm
  · have hiff := insertLevel_sorted_iff (x := s.levelView new) trans asymm hwalk hsorted
      total
    have hpair : ((insertLevel before (s.levelView new) (ls.map s.levelView)).map
        (·.handle)).Pairwise (fun l m => betterPrice (s'.level l).price (s'.level m).price side) ↔
        (insertLevel before (s.levelView new) (ls.map s.levelView)).Pairwise better := by
      rw [List.pairwise_map]
      refine List.Pairwise.iff_of_mem fun {l m} hl hm => ?_
      rw [hview l hl, hview m hm]
    rw [beforeLast_ring hrep' hmem]
    exact hpair.trans hiff

/-- Sells at 10, 20 and 40 in the book, and a new level at `price`. -/
def threeAsks (price : Price) : OrderBook :=
  { OrderBook.create 0 with
    ask := some 0
    priceLevelPool := ((((MemoryPool.create PriceLevel.default 4).write 0
      ⟨.sell, 10, none, some 2, some 1⟩).write 1 ⟨.sell, 20, none, some 0, some 2⟩).write 2
      ⟨.sell, 40, none, some 1, some 0⟩).write 3 ⟨.sell, price, none, none, none⟩ }

theorem threeAsks_rep (price : Price) :
    SideRep (threeAsks price) ((threeAsks price).best .sell) [0, 1, 2] := by
  refine ⟨rfl, by decide, ?_, ?_⟩
  · simp only [List.isChain_cons_cons, List.isChain_singleton, and_true]
    exact ⟨⟨rfl, rfl⟩, rfl, rfl⟩
  · rintro a ha b hb
    obtain rfl : 2 = a := Option.some.inj ha
    obtain rfl : 0 = b := Option.some.inj hb
    exact ⟨rfl, rfl⟩

/-- The hypotheses are met by a new price between the first two. -/
theorem addPriceLevel_sorted_iff_sample : ∃ s' ls',
    (threeAsks 15).addPriceLevel 5 3 = .ok s' ∧ SideRep s' (s'.best .sell) ls' ∧
      ls'.Perm [3, 0, 1, 2] ∧ s'.Sorted .sell ls' := by
  obtain ⟨s', ls', hs', hrep, hperm, _, _, hiff⟩ := @addPriceLevel_sorted_iff (threeAsks 15) 3
    .sell [0, 1, 2] 5 rfl (threeAsks_rep 15)
    (by unfold OrderBook.Sorted; decide) (by decide) (by decide) (by decide)
  exact ⟨s', ls', hs', hrep, hperm, hiff.mpr (by decide)⟩

/-- A new level at 30 is linked behind the one at 40. -/
theorem threeAsks_unsorted :
    SideRep (threeAsks 30) ((threeAsks 30).best .sell) [0, 1, 2] ∧
    (threeAsks 30).Sorted .sell [0, 1, 2] ∧
    (∀ l ∈ [0, 1, 2], ((threeAsks 30).level l).price ≠ ((threeAsks 30).level 3).price) ∧
    ∃ s', (threeAsks 30).addPriceLevel 5 3 = .ok s' ∧
      ¬ ∃ ls', SideRep s' (s'.best .sell) ls' ∧ s'.Sorted .sell ls' := by
  refine ⟨threeAsks_rep 30, by unfold OrderBook.Sorted; decide, by decide, ?_⟩
  have hrun : OnReturn ((threeAsks 30).addPriceLevel 5 3) (fun s' => s'.best .sell = some 0 ∧
      s'.nextEntry 0 = some 1 ∧ s'.nextEntry 1 = some 2 ∧ s'.nextEntry 2 = some 3 ∧
      betterPrice (s'.level 2).price (s'.level 3).price .sell = false) := by decide
  rcases hs' : (threeAsks 30).addPriceLevel 5 3 with f | s'
  · have hreturns : faultOf ((threeAsks 30).addPriceLevel 5 3) = none := by decide
    rw [hs'] at hreturns
    cases hreturns
  · obtain ⟨hbest, h01, h12, h23, hworse⟩ := hrun s' hs'
    refine ⟨s', rfl, ?_⟩
    rintro ⟨ls', ⟨hhead, hring⟩, hsorted⟩
    rcases ls' with _ | ⟨best, rest⟩
    · cases hbest.symm.trans hhead
    · obtain rfl : best = 0 := Option.some.inj (hhead.symm.trans hbest)
      have htwo : 2 ∈ 0 :: rest := (hring.reaches_iff 2).mp (.tail (.single h01) h12)
      have hbetter := hring.rel_of_next hsorted htwo h23 (by decide)
      exact absurd (hworse.symm.trans hbetter) Bool.noConfusion

end Heap

end StockExchange
