import StockExchange.Models
import Mathlib.Data.List.Nodup
import Mathlib.Data.List.Induction
import Mathlib.Data.List.Pairwise

/-!
# Replaying market updates

What a reader of the updates makes of them: the orders of all instruments in the order of
their arrival, each of them its `ADD` with the quantity and the price of its last `MODIFY`.
The queue of a price level is the part of them that rests there.
-/

namespace StockExchange

namespace Replay

/-- The updates name the same order. -/
def SameOrder (u o : MarketUpdate) : Prop :=
  o.instrumentId = u.instrumentId ∧ o.orderId = u.orderId

instance (u o : MarketUpdate) : Decidable (SameOrder u o) := inferInstanceAs (Decidable (_ ∧ _))

def patch (u o : MarketUpdate) : MarketUpdate :=
  if SameOrder u o then { o with qty := u.qty, price := u.price } else o

def apply (os : List MarketUpdate) (u : MarketUpdate) : List MarketUpdate :=
  if u.type = .add then os ++ [u]
  else if u.type = .modify then os.map (patch u)
  else if u.type = .cancel then os.filter fun o => ¬ SameOrder u o
  else if u.type = .clear then os.filter fun o => ¬ o.instrumentId = u.instrumentId
  else os

def replay (us : List MarketUpdate) : List MarketUpdate := us.foldl apply []

/-- The queue of a price level of an instrument. -/
def level (os : List MarketUpdate) (instrumentId : InstrumentId) (side : Side) (price : Price) :
    List MarketUpdate :=
  os.filter fun o => o.instrumentId = instrumentId ∧ o.side = side ∧ o.price = price

/-- The books of all instruments are the same. -/
def SameBooks (os os' : List MarketUpdate) : Prop :=
  ∀ instrumentId side price, level os instrumentId side price = level os' instrumentId side price

/-- In each price level the ids increase in the order of arrival. -/
def Queued (os : List MarketUpdate) : Prop :=
  os.Pairwise fun a b => a.instrumentId = b.instrumentId → a.side = b.side →
    a.price = b.price → a.orderId < b.orderId

/-- The next update: an `ADD` of an id in range that is not live, a `MODIFY` or `CANCEL`
that keeps side and price of a live order, or a `TRADE`. -/
structure Fits (os : List MarketUpdate) (u : MarketUpdate) : Prop where
  instrument : u.instrumentId.toNat < maxNumInstruments
  type : u.type = .add ∨ u.type = .modify ∨ u.type = .cancel ∨ u.type = .trade
  fresh : u.type = .add → u.orderId.toNat < maxNumOrders ∧ ∀ o ∈ os, ¬ SameOrder u o
  present : u.type = .modify ∨ u.type = .cancel →
    ∃ o ∈ os, SameOrder u o ∧ o.side = u.side ∧ o.price = u.price

/-- Every update fits the orders that those before it leave. -/
def FitsAll : List MarketUpdate → List MarketUpdate → Prop
  | _, [] => True
  | os, u :: us => Fits os u ∧ FitsAll (apply os u) us

def ValidReplay (us : List MarketUpdate) : Prop := FitsAll [] us

/-- No order is there twice. -/
def Distinct (os : List MarketUpdate) : Prop := os.Pairwise fun a b => ¬ SameOrder a b

section Decidable
variable (os us : List MarketUpdate) (u : MarketUpdate)

instance : Decidable (Queued os) := inferInstanceAs (Decidable (os.Pairwise _))

instance : Decidable (Fits os u) :=
  decidable_of_iff (u.instrumentId.toNat < maxNumInstruments ∧
      (u.type = .add ∨ u.type = .modify ∨ u.type = .cancel ∨ u.type = .trade) ∧
      (u.type = .add → u.orderId.toNat < maxNumOrders ∧ ∀ o ∈ os, ¬ SameOrder u o) ∧
      (u.type = .modify ∨ u.type = .cancel →
        ∃ o ∈ os, SameOrder u o ∧ o.side = u.side ∧ o.price = u.price))
    ⟨fun h => ⟨h.1, h.2.1, h.2.2.1, h.2.2.2⟩,
      fun h => ⟨h.instrument, h.type, h.fresh, h.present⟩⟩

instance decidableFitsAll : (os us : List MarketUpdate) → Decidable (FitsAll os us)
  | _, [] => .isTrue trivial
  | os, u :: us =>
    have := decidableFitsAll (apply os u) us
    inferInstanceAs (Decidable (_ ∧ _))

instance : Decidable (ValidReplay us) := inferInstanceAs (Decidable (FitsAll [] us))

end Decidable

section Orders
variable {os os' us vs : List MarketUpdate} {o o' u : MarketUpdate}

theorem SameOrder.symm (h : SameOrder o o') : SameOrder o' o := ⟨h.1.symm, h.2.symm⟩

theorem SameOrder.trans (h : SameOrder u o) (h' : SameOrder u o') : SameOrder o o' :=
  ⟨h'.1.trans h.1.symm, h'.2.trans h.2.symm⟩

theorem patch_same (h : SameOrder u o) : patch u o = { o with qty := u.qty, price := u.price } :=
  if_pos h

theorem patch_other (h : ¬ SameOrder u o) : patch u o = o := if_neg h

@[simp] theorem sameOrder_patch (v : MarketUpdate) :
    SameOrder v (patch u o) ↔ SameOrder v o := by
  unfold patch
  split <;> rfl

theorem apply_add (h : u.type = .add) : apply os u = os ++ [u] := if_pos h

theorem apply_modify (h : u.type = .modify) : apply os u = os.map (patch u) := by
  rw [apply, if_neg (by rw [h]; decide), if_pos h]

theorem apply_cancel (h : u.type = .cancel) :
    apply os u = os.filter fun o => ¬ SameOrder u o := by
  rw [apply, if_neg (by rw [h]; decide), if_neg (by rw [h]; decide), if_pos h]

theorem apply_clear (h : u.type = .clear) :
    apply os u = os.filter fun o => ¬ o.instrumentId = u.instrumentId := by
  rw [apply, if_neg (by rw [h]; decide), if_neg (by rw [h]; decide),
    if_neg (by rw [h]; decide), if_pos h]

/-- Trades and the ends of a snapshot change nothing. -/
theorem apply_other (h : u.type = .trade ∨ u.type = .snapshotStart ∨ u.type = .snapshotEnd) :
    apply os u = os := by
  rcases h with h | h | h <;> rw [apply, if_neg (by rw [h]; decide), if_neg (by rw [h]; decide),
    if_neg (by rw [h]; decide), if_neg (by rw [h]; decide)]

theorem replay_append (us vs : List MarketUpdate) :
    replay (us ++ vs) = vs.foldl apply (replay us) := List.foldl_append ..

theorem fitsAll_append :
    FitsAll os (us ++ vs) ↔ FitsAll os us ∧ FitsAll (us.foldl apply os) vs := by
  induction us generalizing os with
  | nil => exact ⟨fun h => ⟨trivial, h⟩, fun h => h.2⟩
  | cons u us ih =>
    rw [List.cons_append, FitsAll, ih, FitsAll, List.foldl_cons, and_assoc]

theorem ValidReplay.take (h : ValidReplay us) (n : Nat) : ValidReplay (us.take n) := by
  rw [← List.take_append_drop n us] at h
  exact (fitsAll_append.mp h).1

theorem ValidReplay.drop (h : ValidReplay us) (n : Nat) :
    FitsAll (replay (us.take n)) (us.drop n) := by
  rw [← List.take_append_drop n us] at h
  exact (fitsAll_append.mp h).2

/-- What every `ADD` has and no patch takes away, every order has. -/
theorem forall_apply {P : MarketUpdate → Prop} (hadd : u.type = .add → P u)
    (hpatch : ∀ o qty price, P o → P { o with qty := qty, price := price })
    (h : ∀ o ∈ os, P o) : ∀ o ∈ apply os u, P o := by
  intro o ho
  rw [apply] at ho
  split at ho
  · rename_i htype
    rcases List.mem_append.mp ho with ho | ho
    · exact h o ho
    · exact List.mem_singleton.mp ho ▸ hadd htype
  · split at ho
    · obtain ⟨o', ho', rfl⟩ := List.mem_map.mp ho
      rw [patch]
      split
      · exact hpatch o' _ _ (h o' ho')
      · exact h o' ho'
    · split at ho
      · exact h o (List.mem_filter.mp ho).1
      · split at ho
        · exact h o (List.mem_filter.mp ho).1
        · exact h o ho

theorem distinct_apply (h : Distinct os) (hu : Fits os u) : Distinct (apply os u) := by
  rcases hu.type with htype | htype | htype | htype
  · rw [apply_add htype, Distinct, List.pairwise_append]
    refine ⟨h, List.pairwise_singleton .., fun o ho o' ho' => ?_⟩
    rw [List.mem_singleton.mp ho']
    exact fun hsame => (hu.fresh htype).2 o ho hsame.symm
  · rw [apply_modify htype, Distinct, List.pairwise_map]
    refine h.imp fun hne hsame => hne ?_
    rw [sameOrder_patch] at hsame
    exact (sameOrder_patch _).mp hsame.symm |>.symm
  · rw [apply_cancel htype]
    exact h.filter _
  · rw [apply_other (.inl htype)]
    exact h

theorem distinct_replay (h : ValidReplay us) : Distinct (replay us) := by
  induction us using List.reverseRecOn with
  | nil => exact .nil
  | append_singleton us u ih =>
    obtain ⟨hus, hu, -⟩ := fitsAll_append.mp h
    rw [replay_append]
    exact distinct_apply (ih hus) hu

theorem replay_type (us : List MarketUpdate) : ∀ o ∈ replay us, o.type = .add := by
  induction us using List.reverseRecOn with
  | nil => exact nofun
  | append_singleton us u ih =>
    rw [replay_append]
    exact forall_apply (P := fun o => o.type = .add) id (fun _ _ _ h => h) ih

theorem Distinct.eq_of_same (h : Distinct os) (ho : o ∈ os) (ho' : o' ∈ os)
    (hsame : SameOrder o o') : o = o' := by
  have hsymm : Std.Symm fun a b : MarketUpdate => SameOrder a b → a = b :=
    ⟨fun a b hab hba => (hab hba.symm).symm⟩
  have himp : os.Pairwise fun a b => SameOrder a b → a = b := h.imp fun hne heq => absurd heq hne
  exact himp.forall_of_forall (fun _ _ _ => rfl) ho ho' hsame

theorem mem_level {instrumentId : InstrumentId} {side : Side} {price : Price} :
    o ∈ level os instrumentId side price ↔
      o ∈ os ∧ o.instrumentId = instrumentId ∧ o.side = side ∧ o.price = price := by
  rw [level, List.mem_filter, decide_eq_true_eq]

theorem SameBooks.mem (h : SameBooks os os') (ho : o ∈ os') : o ∈ os := by
  have hlevel := mem_level.mpr ⟨ho, rfl, rfl, rfl⟩
  rw [← h] at hlevel
  exact (mem_level.mp hlevel).1

/-- A patch that keeps the price moves no order to another level. -/
theorem level_modify (hprice : ∀ o ∈ os, SameOrder u o → o.price = u.price)
    (instrumentId : InstrumentId) (side : Side) (price : Price) :
    level (os.map (patch u)) instrumentId side price =
      (level os instrumentId side price).map (patch u) := by
  rw [level, List.filter_map, level]
  congr 1
  refine List.filter_congr fun o ho => ?_
  rw [Function.comp_apply, patch]
  split
  · rename_i hsame
    rw [hprice o ho hsame]
  · rfl

/-- The books stay the same under an update that fits. -/
theorem SameBooks.apply (h : SameBooks os os') (hdistinct : Distinct os) (hu : Fits os u) :
    SameBooks (apply os u) (apply os' u) := by
  intro i side price
  rcases hu.type with htype | htype | htype | htype
  · rw [apply_add htype, apply_add htype, level, level, List.filter_append, List.filter_append]
    exact congrArg (· ++ _) (h i side price)
  · have hprice : ∀ o ∈ os, SameOrder u o → o.price = u.price := by
      intro o ho hsame
      obtain ⟨o', ho', hsame', -, hprice⟩ := hu.present (.inl htype)
      rw [hdistinct.eq_of_same ho ho' (hsame.trans hsame'), hprice]
    rw [apply_modify htype, apply_modify htype, level_modify hprice,
      level_modify fun o ho => hprice o (h.mem ho), h]
  · rw [apply_cancel htype, apply_cancel htype, level, level, List.filter_comm,
      List.filter_comm _ _ os']
    exact congrArg _ (h i side price)
  · rw [apply_other (.inl htype), apply_other (.inl htype), h]

theorem SameBooks.applyAll (h : SameBooks os os') (hdistinct : Distinct os)
    (hus : FitsAll os us) : SameBooks (us.foldl Replay.apply os) (us.foldl Replay.apply os') := by
  induction us generalizing os os' with
  | nil => exact h
  | cons u us ih =>
    exact ih (h.apply hdistinct hus.1) (distinct_apply hdistinct hus.1) hus.2

end Orders

end Replay

end StockExchange
