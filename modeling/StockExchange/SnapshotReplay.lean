import StockExchange.SnapshotSynthesizer
import StockExchange.Replay

/-!
# The snapshot and the replay

The tables of the synthesizer hold the orders of the replay, each in a block of the pool of
its own. A snapshot lists them by id; a level's queue is in the order of the ids as well.
-/

namespace StockExchange

open Replay Bytes

namespace SnapshotSynthesizer

/-- The orders in the tables, each with its block. -/
structure Stores (s : SnapshotSynthesizer) (entries : List (Nat × MarketUpdate)) : Prop where
  pool : ∃ free, s.marketUpdatePool.Owns free (entries.map (·.1))
  size : s.marketUpdatePool.size = maxNumOrders
  read : ∀ e ∈ entries, s.marketUpdatePool.read e.1 = e.2
  table : ∀ i k p, s.updatesByInstrument i k = some p ↔
    ∃ e ∈ entries, e.1 = p ∧ e.2.instrumentId.toNat = i ∧ e.2.orderId.toNat = k
  bound : ∀ e ∈ entries,
    e.2.instrumentId.toNat < maxNumInstruments ∧ e.2.orderId.toNat < maxNumOrders

/-- The tables hold exactly these orders. -/
def Holds (s : SnapshotSynthesizer) (os : List MarketUpdate) : Prop :=
  ∃ entries, s.Stores entries ∧ entries.map (·.2) = os

section Steps
variable {s : SnapshotSynthesizer} {entries : List (Nat × MarketUpdate)} {os : List MarketUpdate}
  {u : MarketUpdate} {e : Nat × MarketUpdate}

theorem create_holds : create.Holds [] := by
  have hpool : create.marketUpdatePool.Owns (List.range maxNumOrders) [] :=
    MemoryPool.Owns.create MarketUpdate.default (by decide) (by decide)
  exact ⟨[], ⟨⟨_, hpool⟩, rfl, nofun, fun _ _ _ => ⟨nofun, nofun⟩, nofun⟩, rfl⟩

theorem Stores.nodup (h : s.Stores entries) : (entries.map (·.1)).Nodup := by
  obtain ⟨free, hpool⟩ := h.pool
  exact hpool.live_nodup

theorem Stores.eq_of_block (h : s.Stores entries) {e' : Nat × MarketUpdate} (he : e ∈ entries)
    (he' : e' ∈ entries) (hblock : e.1 = e'.1) : e = e' :=
  List.inj_on_of_nodup_map h.nodup he he' hblock

/-- The entry of the table for an order that is there. -/
theorem Stores.lookup (h : s.Stores entries) (he : e ∈ entries) :
    s.updatesByInstrument e.2.instrumentId.toNat e.2.orderId.toNat = some e.1 :=
  (h.table ..).mpr ⟨e, he, rfl, rfl, rfl⟩

theorem Stores.eq_of_same (h : s.Stores entries) {e' : Nat × MarketUpdate} (he : e ∈ entries)
    (he' : e' ∈ entries) (hsame : SameOrder e.2 e'.2) : e = e' := by
  have hlookup := h.lookup he'
  rw [hsame.1, hsame.2, h.lookup he] at hlookup
  exact h.eq_of_block he he' (Option.some.inj hlookup)

theorem updateAt_ok (hu : u.orderId.toNat < maxNumOrders) :
    s.updateAt u = .ok (s.updatesByInstrument u.instrumentId.toNat u.orderId.toNat) :=
  if_pos hu

theorem Stores.updateAt (h : s.Stores entries) (he : e ∈ entries) (hsame : SameOrder u e.2) :
    s.updateAt u = .ok (some e.1) := by
  rw [updateAt_ok (hsame.2 ▸ (h.bound e he).2), ← hsame.1, ← hsame.2, h.lookup he]

theorem setUpdate_table (s : SnapshotSynthesizer) (u : MarketUpdate) (p : Option Nat)
    (i k : Nat) : (s.setUpdate u p).updatesByInstrument i k =
      if i = u.instrumentId.toNat ∧ k = u.orderId.toNat then p
      else s.updatesByInstrument i k := by
  rw [setUpdate]
  dsimp only
  by_cases hi : i = u.instrumentId.toNat
  · subst hi
    rw [Function.update_self]
    by_cases hk : k = u.orderId.toNat
    · rw [hk, Function.update_self, if_pos ⟨rfl, rfl⟩]
    · rw [Function.update_of_ne hk, if_neg fun h => hk h.2]
  · rw [Function.update_of_ne hi, if_neg fun h => hi h.1]

theorem sameOrder_iff {o : MarketUpdate} : SameOrder u o ↔
    o.instrumentId.toNat = u.instrumentId.toNat ∧ o.orderId.toNat = u.orderId.toNat := by
  rw [SameOrder, UInt8.toNat_inj, UInt64.toNat_inj]

theorem Stores.add (h : s.Stores entries) (hi : u.instrumentId.toNat < maxNumInstruments)
    (hk : u.orderId.toNat < maxNumOrders) (hfresh : ∀ e ∈ entries, ¬ SameOrder u e.2)
    (hroom : entries.length < maxNumOrders) :
    ∃ s' p, s.addUpdate u = .ok s' ∧ s'.Stores (entries ++ [(p, u)]) ∧
      s'.sendBuffer = s.sendBuffer := by
  obtain ⟨free, hpool⟩ := h.pool
  have hlen := hpool.length
  rw [h.size, List.length_map] at hlen
  obtain ⟨p, rest, rfl⟩ := List.exists_cons_of_length_pos (l := free) (by omega)
  obtain ⟨pool, halloc, hpool', hread⟩ := hpool.alloc u
  have hnew : ∀ e ∈ entries, e.1 ≠ p := fun e he heq =>
    hpool.not_mem_live (heq ▸ List.mem_map_of_mem he)
  refine ⟨({ s with marketUpdatePool := pool } : SnapshotSynthesizer).setUpdate u (some p), p, ?_,
    ⟨⟨rest, ?_⟩, ?_, ?_, fun i k b => ?_, ?_⟩, rfl⟩
  · rw [addUpdate, updateAt_ok hk, ok_bind, halloc, ok_bind]
  · rw [List.map_append, List.map_singleton]
    exact hpool'.perm (List.perm_append_singleton p _).symm
  · have hlen' := hpool'.length
    rw [List.length_cons, List.length_map] at hlen'
    rw [List.length_cons] at hlen
    change pool.size = maxNumOrders
    omega
  · intro e he
    change pool.read e.1 = e.2
    rw [hread]
    rcases List.mem_append.mp he with he | he
    · rw [Function.update_of_ne (hnew e he), h.read e he]
    · rw [List.mem_singleton.mp he, Function.update_self]
  · rw [setUpdate_table]
    simp only [List.mem_append, List.mem_singleton]
    split
    · rename_i hkey
      obtain ⟨rfl, rfl⟩ := hkey
      constructor
      · rintro hb
        exact ⟨(p, u), .inr rfl, Option.some.inj hb, rfl, rfl⟩
      · rintro ⟨e, he | rfl, rfl, hsame⟩
        · exact absurd (sameOrder_iff.mpr hsame) (hfresh e he)
        · rfl
    · rename_i hkey
      rw [h.table]
      constructor
      · rintro ⟨e, he, hrest⟩
        exact ⟨e, .inl he, hrest⟩
      · rintro ⟨e, he | rfl, rfl, hi', hk'⟩
        · exact ⟨e, he, rfl, hi', hk'⟩
        · exact absurd ⟨hi'.symm, hk'.symm⟩ hkey
  · intro e he
    rcases List.mem_append.mp he with he | he
    · exact h.bound e he
    · rw [List.mem_singleton.mp he]
      exact ⟨hi, hk⟩

theorem Stores.modify (h : s.Stores entries) (he : e ∈ entries) (hsame : SameOrder u e.2) :
    ∃ s', s.modifyUpdate u = .ok s' ∧
      s'.Stores (entries.map fun e => (e.1, patch u e.2)) ∧ s'.sendBuffer = s.sendBuffer := by
  obtain ⟨free, hpool⟩ := h.pool
  have hkeys : ∀ o : MarketUpdate, (patch u o).instrumentId = o.instrumentId ∧
      (patch u o).orderId = o.orderId := by
    intro o
    rw [patch]
    split <;> exact ⟨rfl, rfl⟩
  refine ⟨{ s with
      marketUpdatePool := s.marketUpdatePool.write e.1
        { s.marketUpdatePool.read e.1 with qty := u.qty, price := u.price } }, ?_,
    ⟨⟨free, ?_⟩, h.size, ?_, fun i k b => ?_, ?_⟩, rfl⟩
  · rw [modifyUpdate, h.updateAt he hsame, ok_bind, deref_some, ok_bind]
  · rw [List.map_map]
    exact hpool.write _
  · intro e' he'
    obtain ⟨e', hmem, rfl⟩ := List.mem_map.mp he'
    rw [MemoryPool.read_write]
    by_cases hblock : e'.1 = e.1
    · obtain rfl := h.eq_of_block hmem he hblock
      rw [Function.update_self, h.read _ hmem, patch_same hsame]
    · have hother : ¬ SameOrder u e'.2 := fun hsame' =>
        hblock (congrArg Prod.fst (h.eq_of_same hmem he (hsame'.trans hsame)))
      rw [Function.update_of_ne hblock, h.read _ hmem, patch_other hother]
  · rw [h.table]
    constructor
    · rintro ⟨e', he', rfl, rfl, rfl⟩
      exact ⟨_, List.mem_map_of_mem he', rfl, by rw [(hkeys e'.2).1], by rw [(hkeys e'.2).2]⟩
    · rintro ⟨e', he', rfl, rfl, rfl⟩
      obtain ⟨e', hmem, rfl⟩ := List.mem_map.mp he'
      exact ⟨e', hmem, rfl, by rw [(hkeys e'.2).1], by rw [(hkeys e'.2).2]⟩
  · intro e' he'
    obtain ⟨e', hmem, rfl⟩ := List.mem_map.mp he'
    rw [(hkeys e'.2).1, (hkeys e'.2).2]
    exact h.bound e' hmem

theorem Stores.cancel (h : s.Stores entries) (he : e ∈ entries) (hsame : SameOrder u e.2) :
    ∃ s', s.cancelUpdate u = .ok s' ∧
      s'.Stores (entries.filter fun e => ¬ SameOrder u e.2) ∧ s'.sendBuffer = s.sendBuffer := by
  obtain ⟨free, hpool⟩ := h.pool
  have hkept : ∀ e' ∈ entries, ¬ SameOrder u e'.2 ↔ e' ≠ e := by
    intro e' he'
    constructor
    · rintro hother rfl
      exact hother hsame
    · exact fun hne hsame' => hne (h.eq_of_same he' he (hsame'.trans hsame))
  have hperm : (entries.map (·.1)).Perm
      (e.1 :: (entries.filter fun e => ¬ SameOrder u e.2).map (·.1)) := by
    have herase : entries.erase e = entries.filter fun e => ¬ SameOrder u e.2 := by
      rw [h.nodup.of_map.erase_eq_filter]
      refine List.filter_congr fun e' he' => ?_
      rw [← Bool.coe_iff_coe, bne_iff_ne, decide_eq_true_eq]
      exact (hkept e' he').symm
    rw [← herase, ← List.map_cons (f := Prod.fst)]
    exact (List.perm_cons_erase he).map _
  refine ⟨({ s with marketUpdatePool := s.marketUpdatePool.free e.1 } :
      SnapshotSynthesizer).setUpdate u none, ?_,
    ⟨⟨e.1 :: free, ?_⟩, h.size, ?_, fun i k b => ?_, ?_⟩, rfl⟩
  · rw [cancelUpdate, h.updateAt he hsame, ok_bind, deref_some, ok_bind]
  · exact (hpool.perm hperm).release
  · intro e' he'
    exact (congrFun (MemoryPool.read_free s.marketUpdatePool e.1) e'.1).trans
      (h.read e' (List.mem_filter.mp he').1)
  · rw [setUpdate_table]
    simp only [List.mem_filter, decide_eq_true_eq]
    split
    · rename_i hkey
      obtain ⟨rfl, rfl⟩ := hkey
      refine ⟨nofun, ?_⟩
      rintro ⟨e', ⟨_, hother⟩, _, hkey⟩
      exact absurd (sameOrder_iff.mpr hkey) hother
    · rename_i hkey
      rw [h.table]
      constructor
      · rintro ⟨e', he', rfl, rfl, rfl⟩
        exact ⟨e', ⟨he', fun hsame' => hkey (sameOrder_iff.mp hsame')⟩, rfl, rfl, rfl⟩
      · rintro ⟨e', ⟨he', _⟩, hrest⟩
        exact ⟨e', he', hrest⟩
  · exact fun e' he' => h.bound e' (List.mem_filter.mp he').1

end Steps

/-- The synthesizer after the updates `us`, numbered from 1. -/
def process (us : List MarketUpdate) : Except Fault SnapshotSynthesizer :=
  (number 1 us).foldlM addToSnapshot create

section Runs
variable {s : SnapshotSynthesizer} {os us : List MarketUpdate}

/-- An update that fits is processed: the tables hold what the replay makes of it. -/
theorem addToSnapshot_fits {update : ClientMarketUpdate} (h : s.Holds os)
    (hu : Fits os update.update) (hroom : update.update.type = .add → os.length < maxNumOrders) :
    ∃ s', s.addToSnapshot update = .ok s' ∧ s'.Holds (apply os update.update) ∧
      s'.lastIncSeqNum = update.sequenceNumber ∧ s'.sendBuffer = s.sendBuffer := by
  obtain ⟨entries, hentries, rfl⟩ := h
  obtain ⟨n, u⟩ := update
  dsimp only at hu hroom ⊢
  have hdone : ∀ {t : SnapshotSynthesizer} {entries'}, t.Stores entries' →
      ({ t with lastIncSeqNum := n } : SnapshotSynthesizer).Stores entries' := fun ht =>
    ⟨ht.pool, ht.size, ht.read, ht.table, ht.bound⟩
  rw [addToSnapshot]
  dsimp only
  rw [if_pos hu.instrument]
  rcases hu.type with htype | htype | htype | htype
  · obtain ⟨hk, hfresh⟩ := hu.fresh htype
    obtain ⟨t, p, ht, hstores, hbuffer⟩ := hentries.add hu.instrument hk
      (fun e he => hfresh e.2 (List.mem_map_of_mem he)) (by simpa using hroom htype)
    rw [if_pos htype, ht, ok_bind]
    refine ⟨_, rfl, ⟨_, hdone hstores, ?_⟩, rfl, hbuffer⟩
    rw [apply_add htype, List.map_append, List.map_singleton]
  · obtain ⟨o, ho, hsame, -⟩ := hu.present (.inl htype)
    obtain ⟨e, he, rfl⟩ := List.mem_map.mp ho
    obtain ⟨t, ht, hstores, hbuffer⟩ := hentries.modify he hsame
    rw [if_neg (by rw [htype]; decide), if_pos htype, ht, ok_bind]
    refine ⟨_, rfl, ⟨_, hdone hstores, ?_⟩, rfl, hbuffer⟩
    rw [apply_modify htype, List.map_map, List.map_map]
    rfl
  · obtain ⟨o, ho, hsame, -⟩ := hu.present (.inr htype)
    obtain ⟨e, he, rfl⟩ := List.mem_map.mp ho
    obtain ⟨t, ht, hstores, hbuffer⟩ := hentries.cancel he hsame
    rw [if_neg (by rw [htype]; decide), if_neg (by rw [htype]; decide), if_pos htype, ht, ok_bind]
    refine ⟨_, rfl, ⟨_, hdone hstores, ?_⟩, rfl, hbuffer⟩
    rw [apply_cancel htype, List.filter_map]
    rfl
  · rw [if_neg (by rw [htype]; decide), if_neg (by rw [htype]; decide),
      if_neg (by rw [htype]; decide), ok_bind]
    refine ⟨_, rfl, ⟨_, hdone hentries, ?_⟩, rfl, rfl⟩
    rw [apply_other (.inl htype)]

theorem process_append (us : List MarketUpdate) (u : MarketUpdate) :
    process (us ++ [u]) = process us >>= fun s =>
      s.addToSnapshot ⟨UInt64.ofNat (us.length + 1), u⟩ := by
  have hnext : (1 : UInt64) + UInt64.ofNat us.length = UInt64.ofNat (us.length + 1) := by
    rw [UInt64.ofNat_add, UInt64.add_comm]
    rfl
  rw [process, number_append, List.foldlM_append, hnext]
  congr 1
  funext s
  rw [number, number, List.foldlM_cons]
  rcases s.addToSnapshot ⟨UInt64.ofNat (us.length + 1), u⟩ with f | t <;> rfl

/-- The loop takes the updates from the queue in order and leaves it empty. -/
theorem processLoop_eq {q : LockFreeQueue ClientMarketUpdate} {cs : List ClientMarketUpdate}
    {w lo : Nat} (hq : q.Holds w lo lo cs) (hcount : q.numElements = cs.length) :
    ∃ q' : LockFreeQueue ClientMarketUpdate, q'.numElements = 0 ∧ ∀ s : SnapshotSynthesizer,
      processLoop cs.length s q = cs.foldlM addToSnapshot s >>= fun s => .ok (s, q') := by
  induction cs generalizing q lo with
  | nil => exact ⟨q, hcount, fun _ => rfl⟩
  | cons c cs ih =>
    have hne : q.numElements ≠ 0 := by
      rw [hcount]
      exact Nat.succ_ne_zero _
    obtain ⟨hpop, hless⟩ := hq.pop hne
    obtain ⟨q', hempty, hloop⟩ := ih hpop (by rw [hless, hcount]; rfl)
    refine ⟨q', hempty, fun s => ?_⟩
    rw [List.length_cons, processLoop, hq.nextReadElement hne, List.foldlM_cons]
    dsimp only
    rcases s.addToSnapshot c with f | s'
    · rfl
    · exact hloop s'

/-- A call of `process_client_market_update` that finds the updates after `us` in the queue
takes the tables after `us` to those after all. -/
theorem processClientMarketUpdate_eq {us vs : List MarketUpdate}
    {q : LockFreeQueue ClientMarketUpdate} {w lo : Nat} (hs : process us = .ok s)
    (hq : q.Holds w lo lo (number (1 + UInt64.ofNat us.length) vs))
    (hcount : q.numElements = vs.length) :
    ∃ q' : LockFreeQueue ClientMarketUpdate, q'.numElements = 0 ∧
      s.processClientMarketUpdate q = process (us ++ vs) >>= fun s => .ok (s, q') := by
  obtain ⟨q', hempty, hloop⟩ := processLoop_eq hq (by rw [length_number, hcount])
  refine ⟨q', hempty, ?_⟩
  rw [length_number] at hloop
  rw [processClientMarketUpdate, hcount, hloop, process, number_append, List.foldlM_append,
    ← process, hs]
  rfl

/-- The updates of a valid replay with no more live orders than the pool has blocks are all
processed. -/
theorem process_valid (hvalid : ValidReplay us)
    (hlive : ∀ k ≤ us.length, (replay (us.take k)).length ≤ maxNumOrders) :
    ∃ s, process us = .ok s ∧ s.Holds (replay us) ∧
      s.lastIncSeqNum = UInt64.ofNat us.length ∧ s.sendBuffer = .create := by
  induction us using List.reverseRecOn with
  | nil => exact ⟨create, rfl, create_holds, rfl, rfl⟩
  | append_singleton us u ih =>
    obtain ⟨hus, hu, -⟩ := fitsAll_append.mp hvalid
    have hlen : (us ++ [u]).length = us.length + 1 := by
      rw [List.length_append, List.length_singleton]
    obtain ⟨s, hs, hholds, -, hbuffer⟩ := ih hus fun k hk => by
      have h := hlive k (by omega)
      rwa [List.take_append_of_le_length hk] at h
    have hroom : u.type = .add → (replay us).length < maxNumOrders := by
      intro htype
      have h := hlive (us ++ [u]).length le_rfl
      rw [List.take_length, replay_append, List.foldl_cons, List.foldl_nil, apply_add htype,
        List.length_append, List.length_singleton] at h
      omega
    obtain ⟨s', hs', hholds', hlast, hbuffer'⟩ :=
      @addToSnapshot_fits _ _ ⟨UInt64.ofNat (us.length + 1), u⟩ hholds hu hroom
    refine ⟨s', ?_, ?_, ?_, hbuffer'.trans hbuffer⟩
    · rw [process_append, hs, ok_bind, hs']
    · rw [replay_append]
      exact hholds'
    · rw [hlast, hlen]

end Runs

section Levels
variable {s : SnapshotSynthesizer} {os us : List MarketUpdate} {o : MarketUpdate}

/-- An order of the tables is found under its instrument and id. -/
theorem Holds.table (h : s.Holds os) {i k p : Nat} (hp : s.updatesByInstrument i k = some p) :
    s.marketUpdatePool.read p ∈ os ∧ (s.marketUpdatePool.read p).instrumentId.toNat = i ∧
      (s.marketUpdatePool.read p).orderId.toNat = k := by
  obtain ⟨entries, hentries, rfl⟩ := h
  obtain ⟨e, he, rfl, rfl, rfl⟩ := (hentries.table ..).mp hp
  rw [hentries.read e he]
  exact ⟨List.mem_map_of_mem he, rfl, rfl⟩

/-- What the table says of an instrument and an id. -/
def orderAt (s : SnapshotSynthesizer) (instrumentId orderId : Nat) : Option MarketUpdate :=
  (s.updatesByInstrument instrumentId orderId).map s.marketUpdatePool.read

theorem Holds.orderAt (h : s.Holds os) {i k : Nat} :
    s.orderAt i k = some o ↔ o ∈ os ∧ o.instrumentId.toNat = i ∧ o.orderId.toNat = k := by
  constructor
  · intro ho
    obtain ⟨p, hp, rfl⟩ := Option.map_eq_some_iff.mp ho
    exact h.table hp
  · obtain ⟨entries, hentries, rfl⟩ := h
    rintro ⟨ho, rfl, rfl⟩
    obtain ⟨e, he, rfl⟩ := List.mem_map.mp ho
    rw [SnapshotSynthesizer.orderAt, hentries.lookup he, Option.map_some, hentries.read e he]

theorem Holds.mem_stored (h : s.Holds os) {i : Nat} :
    o ∈ s.stored i ↔ o ∈ os ∧ o.instrumentId.toNat = i := by
  rw [stored, List.mem_filterMap]
  constructor
  · rintro ⟨k, -, hk⟩
    obtain ⟨p, hp, rfl⟩ := Option.map_eq_some_iff.mp hk
    obtain ⟨hmem, hi, -⟩ := h.table hp
    exact ⟨hmem, hi⟩
  · obtain ⟨entries, hentries, rfl⟩ := h
    rintro ⟨ho, rfl⟩
    obtain ⟨e, he, rfl⟩ := List.mem_map.mp ho
    refine ⟨e.2.orderId.toNat, List.mem_range.mpr (hentries.bound e he).2, ?_⟩
    rw [hentries.lookup he, Option.map_some, hentries.read e he]

theorem Holds.mem_liveOrders (h : s.Holds os) : o ∈ s.liveOrders ↔ o ∈ os := by
  rw [liveOrders, List.mem_flatMap]
  constructor
  · rintro ⟨i, -, ho⟩
    exact (h.mem_stored.mp ho).1
  · intro ho
    refine ⟨o.instrumentId.toNat, ?_, h.mem_stored.mpr ⟨ho, rfl⟩⟩
    obtain ⟨entries, hentries, rfl⟩ := h
    obtain ⟨e, he, rfl⟩ := List.mem_map.mp ho
    exact List.mem_range.mpr (hentries.bound e he).1

/-- The orders of one instrument come by increasing id. -/
theorem Holds.stored_sorted (h : s.Holds os) (i : Nat) :
    (s.stored i).Pairwise fun a b => a.orderId < b.orderId := by
  rw [stored, List.pairwise_filterMap]
  refine List.pairwise_lt_range.imp fun {j k} hlt a ha b hb => ?_
  obtain ⟨p, hp, rfl⟩ := Option.map_eq_some_iff.mp ha
  obtain ⟨q, hq, rfl⟩ := Option.map_eq_some_iff.mp hb
  rw [UInt64.lt_iff_toNat_lt, (h.table hp).2.2, (h.table hq).2.2]
  exact hlt

theorem Holds.liveOrders_queued (h : s.Holds os) : Queued s.liveOrders := by
  rw [Queued, liveOrders, List.pairwise_flatMap]
  refine ⟨fun i _ => (h.stored_sorted i).imp fun hlt _ _ _ => hlt, ?_⟩
  refine List.pairwise_lt_range.imp fun {i j} hlt a ha b hb hinstrument => ?_
  have ha' := (h.mem_stored.mp ha).2
  have hb' := (h.mem_stored.mp hb).2
  rw [hinstrument] at ha'
  omega

theorem queued_level (h : Queued os) (i : InstrumentId) (side : Side) (price : Price) :
    (level os i side price).Pairwise fun a b => a.orderId < b.orderId := by
  rw [level, List.pairwise_filter]
  refine h.imp fun hqueue ha hb => ?_
  obtain ⟨ha₁, ha₂, ha₃⟩ := of_decide_eq_true ha
  obtain ⟨hb₁, hb₂, hb₃⟩ := of_decide_eq_true hb
  exact hqueue (ha₁.trans hb₁.symm) (ha₂.trans hb₂.symm) (ha₃.trans hb₃.symm)

/-- Where each level's queue is in the order of the ids, the books are those of the tables. -/
theorem Holds.sameBooks (h : s.Holds os) (hqueued : Queued os) : SameBooks os s.liveOrders := by
  intro i side price
  have hos := queued_level hqueued i side price
  have hlive := queued_level h.liveOrders_queued i side price
  have hirrefl : ∀ {l : List MarketUpdate}, (l.Pairwise fun a b => a.orderId < b.orderId) →
      l.Nodup := fun hl => hl.imp fun hlt heq => by
    rw [heq] at hlt
    exact UInt64.lt_irrefl _ hlt
  have hperm : (level os i side price).Perm (level s.liveOrders i side price) := by
    rw [List.perm_ext_iff_of_nodup (hirrefl hos) (hirrefl hlive)]
    intro o
    rw [mem_level, mem_level, h.mem_liveOrders]
  exact hperm.eq_of_pairwise (fun a b _ _ hab hba => absurd hab (UInt64.lt_asymm hba)) hos hlive

/-- Replaying the orders of one instrument after its `CLEAR`. -/
theorem replay_stored {vs : List MarketUpdate} {i : Nat} (htype : ∀ o ∈ vs, o.type = .add)
    (hother : ∀ o ∈ os, o.instrumentId.toNat < i) (hi : i < 256) :
    (clearUpdate i :: vs).foldl apply os = os ++ vs := by
  have hadds : ∀ os' : List MarketUpdate, vs.foldl apply os' = os' ++ vs := by
    intro os'
    induction vs generalizing os' with
    | nil => rw [List.foldl_nil, List.append_nil]
    | cons v vs ih =>
      rw [List.foldl_cons, apply_add (htype v List.mem_cons_self),
        ih fun o ho => htype o (List.mem_cons_of_mem v ho), List.append_assoc]
      rfl
  have hclear : apply os (clearUpdate i) = os := by
    rw [apply_clear rfl, List.filter_eq_self]
    intro o ho
    refine decide_eq_true fun heq => ?_
    have hlt := hother o ho
    have hi' : o.instrumentId.toNat = i := by
      rw [heq, clearUpdate, UInt8.toNat_ofNat']
      exact Nat.mod_eq_of_lt hi
    omega
  rw [List.foldl_cons, hclear, hadds]

/-- Replaying a snapshot gives the orders of the tables. -/
theorem Holds.replay_messages (h : s.Holds os) (htype : ∀ o ∈ os, o.type = .add) :
    replay s.messages = s.liveOrders := by
  have hinstruments : ∀ n ≤ 256, ((List.range n).flatMap fun i =>
      clearUpdate i :: s.stored i).foldl apply [] = (List.range n).flatMap s.stored := by
    intro n
    induction n with
    | zero => exact fun _ => rfl
    | succ n ih =>
      intro hn
      rw [List.range_succ, List.flatMap_append, List.flatMap_append, List.foldl_append,
        ih (by omega), List.flatMap_singleton, List.flatMap_singleton]
      refine replay_stored (fun o ho => htype o (h.mem_stored.mp ho).1) (fun o ho => ?_) hn
      obtain ⟨j, hj, ho⟩ := List.mem_flatMap.mp ho
      rw [(h.mem_stored.mp ho).2]
      exact List.mem_range.mp hj
  rw [messages, List.cons_append, replay, List.foldl_cons, List.foldl_append,
    apply_other (.inr (.inl rfl)), hinstruments _ (by decide), List.foldl_cons, List.foldl_nil,
    apply_other (.inr (.inr rfl))]
  rfl

end Levels

section Tail
variable {us : List MarketUpdate} {n m : Nat}

/-- The snapshot after update `n`, as it stands in the buffer when it is sent last, and then
the updates up to `m` give the same books as all updates up to `m`. -/
theorem snapshot_and_tail (host : ByteOrder) (hvalid : ValidReplay us)
    (hqueued : ∀ k ≤ us.length, Queued (replay (us.take k)))
    (hlive : ∀ k ≤ us.length, (replay (us.take k)).length ≤ maxNumOrders)
    (hnm : n ≤ m) (hm : m ≤ us.length) :
    ∃ s s' ds d, process (us.take n) = .ok s ∧ s.publishSnapshot host = .ok (s', ds) ∧
      ds.getLast? = some d ∧
      SameBooks (replay (us.take m))
        (replay ((decode host d).map (·.update) ++ (us.take m).drop n)) ∧
      ((decode host d).head?.map (·.update)) =
        some { MarketUpdate.default with type := .snapshotStart, orderId := UInt64.ofNat n } ∧
      ((decode host d).getLast?.map (·.update)) =
        some { MarketUpdate.default with type := .snapshotEnd, orderId := UInt64.ofNat n } := by
  have hlen : (us.take n).length = n := by
    rw [List.length_take]
    omega
  obtain ⟨s, hs, hholds, hlast, hbuffer⟩ := process_valid (hvalid.take n) fun k hk => by
    rw [hlen] at hk
    rw [List.take_take, Nat.min_eq_left hk]
    exact hlive k (by omega)
  rw [hlen] at hlast
  obtain ⟨b, parts, hok, -, -⟩ := @publishSnapshot_spec host s (by rw [hbuffer]; rfl)
  have hmessages : (decode host (snapshotBytes host s.messages)).map (·.update) = s.messages := by
    rw [decode_snapshotBytes, map_update_number]
  refine ⟨s, _, _, _, hs, hok, List.getLast?_concat, ?_, ?_, ?_⟩
  · have htail : FitsAll (replay (us.take n)) ((us.take m).drop n) := by
      have h := (hvalid.take m).drop n
      rwa [List.take_take, Nat.min_eq_left hnm] at h
    have hsame := (hholds.sameBooks (hqueued n (by omega))).applyAll
      (distinct_replay (hvalid.take n)) htail
    rw [hmessages, replay_append, hholds.replay_messages (replay_type _)]
    have hall : replay (us.take m) = ((us.take m).drop n).foldl apply (replay (us.take n)) := by
      have htake : us.take n = (us.take m).take n := by rw [List.take_take, Nat.min_eq_left hnm]
      rw [htake, ← replay_append, List.take_append_drop]
    rw [hall]
    exact hsame
  · rw [← List.head?_map, hmessages, ← hlast]
    rfl
  · rw [← List.getLast?_map, hmessages, messages, List.getLast?_concat, ← hlast]
    rfl

/-- Two instruments that use the same id, a partial fill and, behind the snapshot, a
cancellation. -/
theorem snapshot_and_tail_sample :
    ∃ s s' ds d, process [⟨.add, 1, 0, .buy, 10, 5, 1⟩, ⟨.add, 2, 0, .buy, 10, 7, 2⟩,
        ⟨.add, 1, 3, .sell, 12, 4, 1⟩, ⟨.trade, invalidOrderId, 0, .sell, 10, 3, invalidPriority⟩,
        ⟨.modify, 1, 0, .buy, 10, 2, 1⟩] = .ok s ∧
      s.publishSnapshot .little = .ok (s', ds) ∧ ds.getLast? = some d ∧
      SameBooks [⟨.add, 2, 0, .buy, 10, 7, 2⟩, ⟨.add, 1, 3, .sell, 12, 4, 1⟩,
          ⟨.add, 3, 0, .buy, 10, 6, 3⟩]
        (replay ((decode .little d).map (·.update) ++
          [⟨.cancel, 1, 0, .buy, 10, 0, 1⟩, ⟨.add, 3, 0, .buy, 10, 6, 3⟩])) := by
  obtain ⟨s, s', ds, d, hs, hpublish, hd, hsame, -, -⟩ := @snapshot_and_tail
    [⟨.add, 1, 0, .buy, 10, 5, 1⟩, ⟨.add, 2, 0, .buy, 10, 7, 2⟩,
      ⟨.add, 1, 3, .sell, 12, 4, 1⟩, ⟨.trade, invalidOrderId, 0, .sell, 10, 3, invalidPriority⟩,
      ⟨.modify, 1, 0, .buy, 10, 2, 1⟩, ⟨.cancel, 1, 0, .buy, 10, 0, 1⟩,
      ⟨.add, 3, 0, .buy, 10, 6, 3⟩] 5 7 .little (by decide) (by decide) (by decide) (by decide)
    (by decide)
  exact ⟨s, s', ds, d, hs, hpublish, hd, hsame⟩

end Tail

end SnapshotSynthesizer

end StockExchange
