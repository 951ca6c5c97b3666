import StockExchange.MatchingEngine
import StockExchange.Recording
import StockExchange.SnapshotReplay
import StockExchange.ViewRuns

/-!
# The exchange and its snapshots

The books of all instruments report to one stream of updates, from which the synthesizer
keeps a table for each instrument and one pool for all of them.
-/

namespace StockExchange

open BookView Replay Transitions

namespace OrderBook

/-- The blocks of `order_pool_` in use. -/
def live (s : OrderBook) : Nat := s.orderPool.size - s.orderPool.freeBlockCount

/-- The last id handed out has an entry in the tables of the synthesizer, and no order of
the book has it. -/
def Recordable (s : OrderBook) : Prop :=
  (s.nextMarketOrderId - 1).toNat < maxNumOrders ∧
  ∀ p < s.orderPool.size, (s.orderPool.memoryBlocks p).isFree = false →
    (s.order p).marketOrderId ≠ s.nextMarketOrderId - 1

/-- What is looked up or booked is in the table of client orders, and an order that is
booked finds a block. -/
def Processes (fuel : Nat) (s : OrderBook) (c : BookRequest) : Prop :=
  c.Findable ∧ s.Books fuel (fun s _ _ => inTable c.clientId c.clientOrderId ∧ s.HasRoom) c

/-- The update that tells of an order. -/
def record (s : OrderBook) (p : OrderPtr) : MarketUpdate :=
  ⟨.add, (s.order p).marketOrderId, s.instrumentId, (s.order p).side, (s.order p).price,
    (s.order p).qty, (s.order p).priority⟩

end OrderBook

namespace OrderBook.BookRequest

/-- The request of a client that asks for a call on book 0. -/
def clientRequest : BookRequest → ClientRequestInternal
  | .add clientId clientOrderId side price quantity =>
    ⟨.new, clientId, 0, clientOrderId, side, price, quantity⟩
  | .cancel clientId clientOrderId =>
    ⟨.cancel, clientId, 0, clientOrderId, .invalid, invalidPrice, invalidQuantity⟩
  | .modify clientId clientOrderId newPrice newQuantity =>
    ⟨.modify, clientId, 0, clientOrderId, .invalid, newPrice, newQuantity⟩

end OrderBook.BookRequest

namespace MatchingEngine

/-- The live orders of all books. -/
def live (e : MatchingEngine) : Nat :=
  ((List.range maxNumInstruments).map fun i => (e.instrumentOrderBooks i).live).sum

/-- The book of the request processes it within its own order pool. -/
def Processes (fuel : Nat) (e : MatchingEngine) (r : ClientRequestInternal) : Prop :=
  r.instrumentId.toNat < maxNumInstruments ∧
    ∃ c ∈ r.bookRequest, (e.instrumentOrderBooks r.instrumentId.toNat).Processes fuel c

/-- An order that is booked finds no level of another side in its slot, has an id with a
place in the synthesizer's table, and meets fewer live orders than its pool has blocks. -/
def Records (fuel : Nat) (e : MatchingEngine) (r : ClientRequestInternal) : Prop :=
  ∀ c ∈ r.bookRequest, (e.instrumentOrderBooks r.instrumentId.toNat).Books fuel
    (fun s side price => s.SlotOfSide side price ∧ s.Recordable ∧
      (e.setOrderBook r.instrumentId.toNat s).live < maxNumOrders) c

end MatchingEngine

section Decidable
variable (fuel : Nat)

-- A list of blocks evaluates much faster than the bound of `Recordable`.
instance (s : OrderBook) : Decidable s.Recordable :=
  decidable_of_iff ((s.nextMarketOrderId - 1).toNat < maxNumOrders ∧
    ∀ p ∈ List.range s.orderPool.size, (s.orderPool.memoryBlocks p).isFree = false →
      (s.order p).marketOrderId ≠ s.nextMarketOrderId - 1)
    (and_congr_right fun _ => forall_congr' fun _ => imp_congr_left List.mem_range)

instance (s : OrderBook) (c : OrderBook.BookRequest) : Decidable (s.Processes fuel c) :=
  inferInstanceAs (Decidable (_ ∧ _))

instance (e : MatchingEngine) (r : ClientRequestInternal) : Decidable (e.Processes fuel r) :=
  inferInstanceAs (Decidable (_ ∧ ∃ c ∈ _, _))

instance (e : MatchingEngine) (r : ClientRequestInternal) : Decidable (e.Records fuel r) :=
  inferInstanceAs (Decidable (∀ c ∈ _, _))

end Decidable

/-- The engine and the updates it has sent, of all books in their order. -/
structure Exchange where
  engine : MatchingEngine
  stream : List MarketUpdate

namespace Exchange

def create : Exchange := ⟨.create, []⟩

def processClientRequest (fuel : Nat) (x : Exchange) (r : ClientRequestInternal) :
    Except Fault Exchange :=
  x.engine.processClientRequest fuel r >>= fun engine => .ok
    { engine := engine
      stream := x.stream ++
        updates ((engine.instrumentOrderBooks r.instrumentId.toNat).sent.drop
          (x.engine.instrumentOrderBooks r.instrumentId.toNat).sent.length) }

end Exchange

section Counting
variable {os : List MarketUpdate} {i j : InstrumentId}

theorem ofInstrument_ofOthers (hne : j ≠ i) (os : List MarketUpdate) :
    ofInstrument j (ofOthers i os) = ofInstrument j os := by
  rw [ofInstrument, ofOthers, List.filter_filter, ofInstrument]
  refine List.filter_congr fun o _ => ?_
  by_cases ho : o.instrumentId = j
  · simp [ho, hne]
  · simp [ho]

theorem ofNat_ne {a b : Nat} (ha : a < 256) (hb : b < 256) (hne : a ≠ b) :
    UInt8.ofNat a ≠ UInt8.ofNat b := by
  intro heq
  have hnat := congrArg UInt8.toNat heq
  rw [UInt8.toNat_ofNat', UInt8.toNat_ofNat', Nat.mod_eq_of_lt ha, Nat.mod_eq_of_lt hb] at hnat
  exact hne hnat

/-- The live orders are those of the instruments. -/
theorem length_eq_sum {n : Nat} (hn : n ≤ 256) (h : ∀ o ∈ os, o.instrumentId.toNat < n) :
    os.length =
      ((List.range n).map fun j => (ofInstrument (UInt8.ofNat j) os).length).sum := by
  induction n generalizing os with
  | zero =>
    cases os with
    | nil => rfl
    | cons o os => exact absurd (h o List.mem_cons_self) (Nat.not_lt_zero _)
  | succ n ih =>
    have hrest : ∀ o ∈ ofOthers (UInt8.ofNat n) os, o.instrumentId.toNat < n := by
      intro o ho
      obtain ⟨ho, hne⟩ := List.mem_filter.mp ho
      have hlt := h o ho
      have hneq : o.instrumentId.toNat ≠ n := by
        intro heq
        apply of_decide_eq_true hne
        rw [← heq, UInt8.ofNat_toNat]
      omega
    have hsum : ((List.range n).map fun j =>
          (ofInstrument (UInt8.ofNat j) (ofOthers (UInt8.ofNat n) os)).length) =
        (List.range n).map fun j => (ofInstrument (UInt8.ofNat j) os).length := by
      refine List.map_congr_left fun j hj => ?_
      have hlt := List.mem_range.mp hj
      rw [ofInstrument_ofOthers (ofNat_ne (by omega) (by omega) (by omega))]
    rw [length_split (UInt8.ofNat n) os, ih (by omega) hrest, hsum, List.range_succ,
      List.map_append, List.sum_append, List.map_singleton, List.sum_singleton, Nat.add_comm]

theorem sum_replace {n k a : Nat} {f : Nat → Nat} (hk : k < n) :
    ((List.range n).map fun j => if j = k then a else f j).sum =
      a + ((List.range n).map fun j => if j = k then 0 else f j).sum := by
  induction n with
  | zero => exact absurd hk (Nat.not_lt_zero k)
  | succ n ih =>
    simp only [List.range_succ, List.map_append, List.sum_append, List.map_singleton,
      List.sum_singleton]
    by_cases heq : n = k
    · subst heq
      have hbelow : ∀ b : Nat, ((List.range n).map fun j => if j = n then b else f j) =
          (List.range n).map f := by
        intro b
        refine List.map_congr_left fun j hj => if_neg ?_
        have hlt := List.mem_range.mp hj
        omega
      rw [hbelow, hbelow, if_pos rfl, if_pos rfl]
      omega
    · rw [if_neg heq, if_neg heq, ih (by omega)]
      omega

end Counting

section Heap
variable {s : OrderBook} {v : BookView}

theorem live_eq (hr : Represents s v) : s.live = v.orders.length := by
  have hlen := hr.orderPool.length
  rw [List.length_map] at hlen
  rw [OrderBook.live, hr.orderPool.count]
  omega

theorem record_eq (hr : Represents s v) {o : OrderView} (ho : o ∈ v.orders) :
    s.record o.handle = o.record v.instrumentId := by
  have hfields := hr.fields ho
  rw [OrderBook.record, hfields, hr.instrumentId]
  rfl

theorem placeable_of_recordable (hr : Represents s v) (h : s.Recordable) {others : Nat}
    (hroom : s.live + others < maxNumOrders) : v.Placeable others := by
  obtain ⟨hid, hfresh⟩ := h
  rw [hr.nextMarketOrderId] at hid hfresh
  refine ⟨hid, fun o ho => ?_, live_eq hr ▸ hroom⟩
  have hmem : o.handle ∈ v.orders.map (·.handle) := List.mem_map_of_mem ho
  have hblock := hfresh o.handle (hr.orderPool.lt_size (List.mem_append_right _ hmem))
    (hr.orderPool.liveFlag _ hmem)
  rwa [hr.fields ho] at hblock

end Heap

namespace Exchange

/-- Every book stands for lists, and the updates so far tell the orders in them. -/
structure Sound (x : Exchange) (v : Nat → BookView) : Prop where
  represents : ∀ i, Represents (x.engine.instrumentOrderBooks i) (v i)
  valid : ∀ i, (v i).Valid
  instrument : ∀ i < maxNumInstruments, (v i).instrumentId = UInt8.ofNat i
  fits : Accommodates [] x.stream
  tells : ∀ i < maxNumInstruments, (ofInstrument (UInt8.ofNat i) (replay x.stream)).Perm
    ((v i).orders.map (·.record (UInt8.ofNat i)))

section Steps
variable {fuel : Nat} {x x' : Exchange} {v : Nat → BookView} {r : ClientRequestInternal}

theorem create_sound : create.Sound fun i => BookView.create (UInt8.ofNat i) where
  represents i := create_represents (UInt8.ofNat i)
  valid i := create_valid (UInt8.ofNat i)
  instrument _ _ := rfl
  fits := trivial
  tells _ _ := .nil

/-- With `s` as the book of instrument `i`, the live orders are those of `s` and those the
stream tells of the others. -/
theorem Sound.live (h : x.Sound v) {i : Nat} (hi : i < maxNumInstruments) (s : OrderBook) :
    (x.engine.setOrderBook i s).live =
      s.live + (ofOthers (UInt8.ofNat i) (replay x.stream)).length := by
  have hsmall : maxNumInstruments ≤ 256 := by decide
  have hbooks : ((List.range maxNumInstruments).map fun j =>
        ((x.engine.setOrderBook i s).instrumentOrderBooks j).live) =
      (List.range maxNumInstruments).map fun j =>
        if j = i then s.live else (v j).orders.length := by
    refine List.map_congr_left fun j _ => ?_
    by_cases hj : j = i
    · rw [if_pos hj, hj, x.engine.setOrderBook_self]
    · rw [if_neg hj, x.engine.setOrderBook_ne hj, live_eq (h.represents j)]
  have hothers : ∀ o ∈ ofOthers (UInt8.ofNat i) (replay x.stream),
      o.instrumentId.toNat < maxNumInstruments :=
    fun o ho => h.fits.instrument o (List.mem_filter.mp ho).1
  have hlists : ((List.range maxNumInstruments).map fun j => (ofInstrument (UInt8.ofNat j)
        (ofOthers (UInt8.ofNat i) (replay x.stream))).length) =
      (List.range maxNumInstruments).map fun j => if j = i then 0 else (v j).orders.length := by
    refine List.map_congr_left fun j hj => ?_
    have hlt := List.mem_range.mp hj
    by_cases heq : j = i
    · rw [if_pos heq, heq, ofInstrument, ofOthers, List.filter_filter, List.length_eq_zero_iff,
        List.filter_eq_nil_iff]
      intro o _
      simp
    · rw [if_neg heq, ofInstrument_ofOthers (ofNat_ne (by omega) (by omega) heq),
        (h.tells j hlt).length_eq, List.length_map]
  rw [MatchingEngine.live, hbooks, sum_replace hi, length_eq_sum hsmall hothers, hlists]

/-- A request that is processed, with a place for what it books. -/
theorem Sound.admissible (h : x.Sound v) (hfuel : maxNumOrders < fuel)
    (hi : r.instrumentId.toNat < maxNumInstruments) {c : OrderBook.BookRequest}
    (hprocesses : (x.engine.instrumentOrderBooks r.instrumentId.toNat).Processes fuel c)
    (hc : c ∈ r.bookRequest) (hrecords : x.engine.Records fuel r) :
    Admissible (v r.instrumentId.toNat) c ∧ (v r.instrumentId.toNat).Books
      (fun w _ _ => w.Placeable (ofOthers r.instrumentId (replay x.stream)).length) c := by
  obtain ⟨hfind, hbooks⟩ := hprocesses
  have hr := h.represents r.instrumentId.toNat
  have hv := h.valid r.instrumentId.toNat
  have hroom : (v r.instrumentId.toNat).Books (fun w _ _ =>
      OrderBook.inTable c.clientId c.clientOrderId ∧ w.freeOrders ≠ []) c :=
    books_view hr hv hfuel (fun _ _ _ _ hr _ hP => ⟨hP.1, (hasRoom_iff hr).mp hP.2⟩) hfind hbooks
  have hplace : (v r.instrumentId.toNat).Books (fun w side price => w.SameSide side price ∧
      w.Placeable (ofOthers r.instrumentId (replay x.stream)).length) c := by
    refine books_view hr hv hfuel (fun s w side price hr hv hP => ?_) hfind (hrecords c hc)
    obtain ⟨hside, hid, hlive⟩ := hP
    rw [h.live hi, UInt8.ofNat_toNat] at hlive
    exact ⟨(slotOfSide_iff hr hv side price).mp hside, placeable_of_recordable hr hid hlive⟩
  refine ⟨?_, books_mono (fun _ _ _ hQ => hQ.2) hplace⟩
  cases c with
  | add => exact fun hpos => ⟨(hroom hpos).1, (hroom hpos).2, (hplace hpos).1⟩
  | cancel => exact hfind
  | modify =>
    exact ⟨hfind, fun o ho hq hpos =>
      ⟨(hroom o ho hq hpos).1, (hroom o ho hq hpos).2, (hplace o ho hq hpos).1⟩⟩

theorem Sound.step (h : x.Sound v) (hfuel : maxNumOrders < fuel)
    (hprocesses : x.engine.Processes fuel r) (hrecords : x.engine.Records fuel r)
    (hstep : x.processClientRequest fuel r = .ok x') : ∃ v', x'.Sound v' := by
  obtain ⟨hi, c, hc, hprocess⟩ := hprocesses
  obtain ⟨hadmissible, hplace⟩ := h.admissible hfuel hi hprocess hc hrecords
  have hr := h.represents r.instrumentId.toNat
  have hv := h.valid r.instrumentId.toNat
  have hinstrument : (v r.instrumentId.toNat).instrumentId = r.instrumentId := by
    rw [h.instrument _ hi, UInt8.ofNat_toNat]
  have hshows : (v r.instrumentId.toNat).Shows (replay x.stream) (replay x.stream) := by
    have htells := h.tells _ hi
    rw [UInt8.ofNat_toNat] at htells
    refine ⟨?_, ?_, rfl, distinct_replay h.fits.fitsAll⟩
    · rw [hinstrument]
      exact hi
    · rw [hinstrument]
      exact htells
  obtain ⟨s', hs', hr', hv'⟩ := call_spec hr hv hfuel hadmissible
  obtain ⟨ms, hsent, hfits, hshows'⟩ := hshows.recorded.call hv hadmissible (by
    rw [hinstrument]
    exact hplace)
  have hinstrument' : ((v r.instrumentId.toNat).call c).instrumentId = r.instrumentId :=
    (instrumentId_structural _).call hv hinstrument hadmissible
      (books_mono (fun _ _ _ _ => trivial) hplace)
  rw [Exchange.processClientRequest, processClientRequest_eq fuel x.engine hi hc, hs', ok_bind,
    ok_bind, x.engine.setOrderBook_self, hr'.sent, hsent, hr.sent, List.drop_left] at hstep
  cases hstep
  refine ⟨Function.update v r.instrumentId.toNat ((v r.instrumentId.toNat).call c), fun j => ?_,
    fun j => ?_, fun j hj => ?_, accommodates_append.mpr ⟨h.fits, hfits⟩, fun j hj => ?_⟩
  · dsimp only
    by_cases hj : j = r.instrumentId.toNat
    · rw [hj, x.engine.setOrderBook_self, Function.update_self]
      exact hr'
    · rw [x.engine.setOrderBook_ne hj, Function.update_of_ne hj]
      exact h.represents j
  · by_cases hj : j = r.instrumentId.toNat
    · rw [hj, Function.update_self]
      exact hv'
    · rw [Function.update_of_ne hj]
      exact h.valid j
  · by_cases hji : j = r.instrumentId.toNat
    · rw [hji, Function.update_self, hinstrument', UInt8.ofNat_toNat]
    · rw [Function.update_of_ne hji]
      exact h.instrument j hj
  · dsimp only
    rw [replay_append]
    by_cases hji : j = r.instrumentId.toNat
    · have hown := hshows'.own
      rw [hinstrument'] at hown
      rw [hji, Function.update_self, UInt8.ofNat_toNat]
      exact hown
    · have hne : UInt8.ofNat j ≠ r.instrumentId := by
        rw [← UInt8.ofNat_toNat (x := r.instrumentId)]
        exact ofNat_ne (Nat.lt_trans hj (by decide)) r.instrumentId.toNat_lt hji
      have hothers := hshows'.others
      rw [hinstrument'] at hothers
      rw [Function.update_of_ne hji, ← ofInstrument_ofOthers hne, hothers,
        ofInstrument_ofOthers hne]
      exact h.tells j hj

end Steps

section Runs
variable {fuel : Nat} {x : Exchange} {rs : List ClientRequestInternal}

/-- The tables after some of the updates. -/
theorem process_accommodated {us : List MarketUpdate} (h : Accommodates [] us) :
    ∃ s, SnapshotSynthesizer.process us = .ok s ∧ s.lastIncSeqNum = UInt64.ofNat us.length ∧
      ∀ i k u, s.orderAt i k = some u ↔
        u ∈ replay us ∧ u.instrumentId.toNat = i ∧ u.orderId.toNat = k := by
  obtain ⟨s, hs, hholds, hlast, -⟩ := SnapshotSynthesizer.process_valid h.fitsAll fun n _ =>
    (h.take n).live (Nat.zero_le _)
  exact ⟨s, hs, hlast, fun i k u => hholds.orderAt⟩

/-- In a run that leaves a place for every order that is booked, the synthesizer processes
every update, and its tables hold the live orders: those the updates so far tell of, and
after each request the orders that rest in the books. -/
theorem recorded_tables (hfuel : maxNumOrders < fuel)
    (h : Reached (processClientRequest fuel)
      (fun x r => x.engine.Processes fuel r ∧ x.engine.Records fuel r) create rs x) :
    (∀ n ≤ x.stream.length, ∃ s, SnapshotSynthesizer.process (x.stream.take n) = .ok s ∧
      s.lastIncSeqNum = UInt64.ofNat n ∧ ∀ i k u, s.orderAt i k = some u ↔
        u ∈ replay (x.stream.take n) ∧ u.instrumentId.toNat = i ∧ u.orderId.toNat = k) ∧
    ∃ s, SnapshotSynthesizer.process x.stream = .ok s ∧
      s.lastIncSeqNum = UInt64.ofNat x.stream.length ∧
      ∀ i < maxNumInstruments, ∀ k u, s.orderAt i k = some u ↔
        ∃ p ∈ (x.engine.instrumentOrderBooks i).resting,
          (x.engine.instrumentOrderBooks i).record p = u ∧ u.orderId.toNat = k := by
  obtain ⟨v, hsound⟩ : ∃ v, x.Sound v := by
    refine h.invariant (P := fun x => ∃ v, x.Sound v) ⟨_, create_sound⟩ ?_
    rintro x r x' ⟨v, hsound⟩ ⟨hprocesses, hrecords⟩ hstep
    exact hsound.step hfuel hprocesses hrecords hstep
  constructor
  · intro n hn
    obtain ⟨s, hs, hlast, htable⟩ := process_accommodated (hsound.fits.take n)
    rw [List.length_take, Nat.min_eq_left hn] at hlast
    exact ⟨s, hs, hlast, htable⟩
  · obtain ⟨s, hs, hlast, htable⟩ := process_accommodated hsound.fits
    refine ⟨s, hs, hlast, fun i hi k u => ?_⟩
    have hr := hsound.represents i
    have hv := hsound.valid i
    have hmem : u ∈ replay x.stream ∧ u.instrumentId.toNat = i ↔
        ∃ o ∈ (v i).orders, o.record (v i).instrumentId = u := by
      rw [← List.mem_map, hsound.instrument i hi, ← (hsound.tells i hi).mem_iff, ofInstrument,
        List.mem_filter, decide_eq_true_eq]
      refine and_congr_right fun _ => ⟨fun heq => ?_, fun heq => ?_⟩
      · rw [← heq, UInt8.ofNat_toNat]
      · rw [heq, UInt8.toNat_ofNat', Nat.mod_eq_of_lt (Nat.lt_trans hi (by decide))]
    rw [htable, ← and_assoc, hmem]
    constructor
    · rintro ⟨⟨o, ho, heq⟩, hk⟩
      refine ⟨o.handle, (mem_orders_iff hr hv).mpr ⟨o, ho, rfl, hr.fields ho⟩, ?_, hk⟩
      rw [record_eq hr ho, heq]
    · rintro ⟨p, hp, heq, hk⟩
      obtain ⟨o, ho, rfl, -⟩ := (mem_orders_iff hr hv).mp hp
      rw [record_eq hr ho] at heq
      exact ⟨⟨o, ho, heq⟩, hk⟩

/-- Orders of two instruments rest, and one is filled in part and canceled. -/
theorem recorded_tables_sample : ∃ x : Exchange,
    x.stream = [⟨.add, 1, 0, .sell, 12, 8, 1⟩, ⟨.add, 1, 3, .buy, 20, 4, 1⟩,
      ⟨.trade, invalidOrderId, 0, .buy, 12, 5, invalidPriority⟩,
      ⟨.modify, 1, 0, .sell, 12, 3, 1⟩, ⟨.cancel, 1, 0, .sell, 12, 0, 1⟩] ∧
    ∃ s, SnapshotSynthesizer.process x.stream = .ok s ∧ s.lastIncSeqNum = 5 ∧
      ∀ i < maxNumInstruments, ∀ k u, s.orderAt i k = some u ↔
        ∃ p ∈ (x.engine.instrumentOrderBooks i).resting,
          (x.engine.instrumentOrderBooks i).record p = u ∧ u.orderId.toNat = k := by
  obtain ⟨x, hx, hcheck⟩ := @reached_of_any _ _ _ (processClientRequest 3000)
    (fun x r => x.engine.Processes 3000 r ∧ x.engine.Records 3000 r) create
    [⟨.new, 1, 0, 1, .sell, 12, 8⟩, ⟨.new, 1, 3, 1, .buy, 20, 4⟩, ⟨.new, 2, 0, 1, .buy, 12, 5⟩,
      ⟨.cancel, 1, 0, 1, .invalid, 0, 0⟩] inferInstance
    (fun x => x.stream = [⟨.add, 1, 0, .sell, 12, 8, 1⟩, ⟨.add, 1, 3, .buy, 20, 4, 1⟩,
      ⟨.trade, invalidOrderId, 0, .buy, 12, 5, invalidPriority⟩,
      ⟨.modify, 1, 0, .sell, 12, 3, 1⟩, ⟨.cancel, 1, 0, .sell, 12, 0, 1⟩])
    (by decide +kernel)
  have hstream := of_decide_eq_true hcheck
  obtain ⟨-, s, hs, hlast, htable⟩ := recorded_tables (by decide) hx
  refine ⟨x, hstream, s, hs, ?_, htable⟩
  rw [hlast, hstream]
  rfl

end Runs

/-! ## The end of the tables -/

section LongSession
variable {fuel : Nat}

theorem clientRequest_instrumentId (c : OrderBook.BookRequest) :
    c.clientRequest.instrumentId = 0 := by
  cases c <;> rfl

theorem clientRequest_bookRequest (c : OrderBook.BookRequest) :
    c.clientRequest.bookRequest = some c := by
  cases c <;> rfl

/-- A run of the view of book 0 is a run of the exchange in which the other books stay
empty. -/
theorem reached_of_book {cs : List OrderBook.BookRequest} {v : BookView}
    (hfuel : maxNumOrders < fuel)
    (h : Reached (fun v c => (.ok (v.call c) : Except Fault BookView)) Admits (.create 0) cs v) :
    ∃ x, Reached (processClientRequest fuel) (fun x r => x.engine.Processes fuel r) create
        (cs.map (·.clientRequest)) x ∧
      Represents (x.engine.instrumentOrderBooks 0) v ∧ v.Valid ∧ x.stream = updates v.sent := by
  induction h with
  | start => exact ⟨_, .start, create_represents 0, create_valid 0, rfl⟩
  | @call cs v v' c _ ha hcall ih =>
    obtain ⟨x, hx, hr, hv, hstream⟩ := ih
    cases hcall
    obtain ⟨hbounded, -, hbooks⟩ := ha
    have hsame : v.Books (fun w side price => w.freeOrders ≠ [] ∧ w.SameSide side price) c :=
      books_mono (fun _ _ _ h => ⟨h.1, h.2.same⟩) hbooks
    obtain ⟨s', hs', hr', hv'⟩ := call_spec hr hv hfuel (admissible_of_books hbounded hsame)
    obtain ⟨ms, hsent, -⟩ := answered_call hv c
    have hi : c.clientRequest.instrumentId.toNat = 0 := by
      rw [clientRequest_instrumentId]
      rfl
    have hlt : c.clientRequest.instrumentId.toNat < maxNumInstruments := by
      rw [hi]
      decide
    have hprocesses : (x.engine.instrumentOrderBooks 0).Processes fuel c :=
      ⟨hbounded.findable, books_heap hr hv hfuel
        (fun _ _ _ _ hr _ h => ⟨hbounded, (hasRoom_iff hr).mpr h.1⟩) hbounded.findable hbooks⟩
    have hcall : x.processClientRequest fuel c.clientRequest = .ok
        ⟨x.engine.setOrderBook 0 s', x.stream ++ updates ms⟩ := by
      rw [processClientRequest, processClientRequest_eq fuel x.engine hlt
        (clientRequest_bookRequest c), hi, hs', ok_bind, ok_bind, x.engine.setOrderBook_self,
        hr'.sent, hsent, hr.sent, List.drop_left]
    refine ⟨⟨x.engine.setOrderBook 0 s', x.stream ++ updates ms⟩, ?_, ?_, hv', ?_⟩
    · rw [List.map_append]
      exact hx.call ⟨hlt, c, clientRequest_bookRequest c, hi ▸ hprocesses⟩ hcall
    · rw [x.engine.setOrderBook_self]
      exact hr'
    · rw [hsent, updates_append, hstream]

/-- A bid, 2046 times a better one that is canceled, and the better one once more. -/
def longSession : List OrderBook.BookRequest :=
  .add 1 1 .buy 10 5 :: (List.replicate 2046 churn).flatten ++ [.add 2 1 .buy 20 1]

/-- Never more than two orders rest, but the last has id 2048. -/
theorem longSession_throws : ∃ x before,
    Reached (processClientRequest 3000) (fun x r => x.engine.Processes 3000 r) create
      (longSession.map (·.clientRequest)) x ∧
    x.stream = before ++ [⟨.add, 2048, 0, .buy, 20, 1, 1⟩] ∧
    ∀ s, SnapshotSynthesizer.process x.stream ≠ .ok s := by
  obtain ⟨rest, levels, table, ms, -, h⟩ := churn_reached 2046
  have hid : UInt64.ofNat (2046 + 2) = 2048 := by decide
  rw [hid] at h
  have hadd := h.call (oneBid_admits ..) rfl
  rw [oneBid_add] at hadd
  obtain ⟨x, hx, -, -, hstream⟩ := @reached_of_book 3000 _ _ (by decide) hadd
  rw [sent_twoBids, updates_append] at hstream
  refine ⟨x, _, hx, hstream, fun s hs => ?_⟩
  have hlast : x.stream = _ ++ [⟨.add, 2048, 0, .buy, 20, 1, 1⟩] := hstream
  rw [hlast, SnapshotSynthesizer.process_append] at hs
  obtain ⟨s', -, hstep⟩ := bind_eq_ok.mp hs
  cases hstep

end LongSession

end Exchange

end StockExchange
