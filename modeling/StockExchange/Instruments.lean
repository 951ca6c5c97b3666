import StockExchange.Calls
import StockExchange.Exchange
import StockExchange.PublicBook

/-!
# The instruments do not meet

All books report to one stream. A list of requests is a run of the exchange exactly when the
requests for each instrument are a run of its book, and then the book and what the stream
says of the instrument are those of that run.
-/

namespace StockExchange

open BookView Replay Transitions

/-- The call on the book of instrument `i` that a request asks for. -/
def ClientRequestInternal.forInstrument (i : InstrumentId) (r : ClientRequestInternal) :
    Option OrderBook.BookRequest :=
  if r.instrumentId = i then r.bookRequest else none

/-- The calls on the book of instrument `i`, in order. -/
def callsOn (i : InstrumentId) (rs : List ClientRequestInternal) : List OrderBook.BookRequest :=
  rs.filterMap (ClientRequestInternal.forInstrument i)

namespace Exchange

/-- What is asked of a call is asked of the book that it is made on. -/
def EachBook (admits : OrderBook → OrderBook.BookRequest → Prop) (x : Exchange)
    (r : ClientRequestInternal) : Prop :=
  ∀ c ∈ r.bookRequest, admits (x.engine.instrumentOrderBooks r.instrumentId.toNat) c

/-- No order is booked into a slot held by a level of another price or side. -/
def KeepsPrices (fuel : Nat) (x : Exchange) (r : ClientRequestInternal) : Prop :=
  ∀ c ∈ r.bookRequest, (x.engine.instrumentOrderBooks r.instrumentId.toNat).KeepsPrices fuel c

instance (fuel : Nat) (x : Exchange) (r : ClientRequestInternal) :
    Decidable (x.KeepsPrices fuel r) := inferInstanceAs (Decidable (∀ c ∈ r.bookRequest, _))

end Exchange

section Books
variable {fuel : Nat} {i : InstrumentId} {cs : List OrderBook.BookRequest} {s s' : OrderBook}
  {admits : OrderBook → OrderBook.BookRequest → Prop}

theorem mem_updates {u : MarketUpdate} {ms : List Message} : u ∈ updates ms ↔ .update u ∈ ms := by
  rw [updates, List.mem_filterMap]
  constructor
  · rintro ⟨m, hm, hu⟩
    cases m with
    | response r => cases hu
    | update w =>
      cases hu
      exact hm
  · exact fun hu => ⟨_, hu, rfl⟩

theorem instrumentId_reached (h : Reached (OrderBook.call fuel) admits (.create i) cs s) :
    s.instrumentId = i := by
  refine h.invariant (P := fun s => s.instrumentId = i) rfl ?_
  intro s c s' hs _ hcall
  exact (OrderBook.call_reports hcall).instrumentId.trans hs

/-- A call adds to what has been sent, and its updates name the instrument. -/
theorem sent_call {c : OrderBook.BookRequest}
    (h : Reached (OrderBook.call fuel) admits (.create i) cs s) (hcall : s.call fuel c = .ok s') :
    ∃ ms, s'.sent = s.sent ++ ms ∧ ∀ u ∈ updates ms, u.instrumentId = i := by
  obtain ⟨-, ms, hsent, hnames⟩ := OrderBook.call_reports hcall
  refine ⟨ms, hsent, fun u hu => ?_⟩
  exact (hnames u (mem_updates.mp hu)).trans (instrumentId_reached h)

end Books

namespace Exchange

section Steps
variable {fuel : Nat} {x x' : Exchange} {r : ClientRequestInternal}

/-- A request that returns is a call on the book of its instrument. -/
theorem processClientRequest_ok (h : x.processClientRequest fuel r = .ok x') :
    r.instrumentId.toNat < maxNumInstruments ∧ ∃ c s', r.bookRequest = some c ∧
      (x.engine.instrumentOrderBooks r.instrumentId.toNat).call fuel c = .ok s' ∧
      x' = ⟨x.engine.setOrderBook r.instrumentId.toNat s', x.stream ++ updates (s'.sent.drop
        (x.engine.instrumentOrderBooks r.instrumentId.toNat).sent.length)⟩ := by
  have hi : r.instrumentId.toNat < maxNumInstruments := by
    by_contra hi
    rw [Exchange.processClientRequest, MatchingEngine.processClientRequest, if_neg hi] at h
    cases h
  rcases hc : r.bookRequest with _ | c
  · rw [ClientRequestInternal.bookRequest] at hc
    split_ifs at hc with hnew hcancel hmodify
    rw [Exchange.processClientRequest, MatchingEngine.processClientRequest, if_pos hi] at h
    simp only [if_neg hnew, if_neg hcancel, if_neg hmodify] at h
    cases h
  · rw [Exchange.processClientRequest, processClientRequest_eq fuel x.engine hi hc] at h
    obtain ⟨engine, hengine, h⟩ := bind_eq_ok.mp h
    obtain ⟨s', hs', hengine⟩ := bind_eq_ok.mp hengine
    cases hengine
    cases h
    exact ⟨hi, c, s', rfl, hs', by rw [x.engine.setOrderBook_self]⟩

/-- And the other way round. -/
theorem processClientRequest_call {c : OrderBook.BookRequest} {s' : OrderBook}
    (hi : r.instrumentId.toNat < maxNumInstruments) (hc : r.bookRequest = some c)
    (h : (x.engine.instrumentOrderBooks r.instrumentId.toNat).call fuel c = .ok s') :
    ∃ x', x.processClientRequest fuel r = .ok x' := by
  rw [Exchange.processClientRequest, processClientRequest_eq fuel x.engine hi hc, h]
  exact ⟨_, rfl⟩

end Steps

section Runs
variable {fuel : Nat} {x : Exchange} {rs : List ClientRequestInternal}
  {r : ClientRequestInternal} {admits : OrderBook → OrderBook.BookRequest → Prop}

theorem ofInstrument_append (i : InstrumentId) (us vs : List MarketUpdate) :
    ofInstrument i (us ++ vs) = ofInstrument i us ++ ofInstrument i vs := List.filter_append ..

theorem callsOn_concat (i : InstrumentId) (rs : List ClientRequestInternal)
    (r : ClientRequestInternal) :
    callsOn i (rs ++ [r]) = callsOn i rs ++ (r.forInstrument i).toList := by
  rw [callsOn, List.filterMap_append, ← callsOn]
  rcases h : r.forInstrument i with _ | c <;> simp [h]

theorem forInstrument_self {i : Nat} (hi : r.instrumentId.toNat = i) :
    r.forInstrument (UInt8.ofNat i) = r.bookRequest := by
  rw [← hi, UInt8.ofNat_toNat]
  exact if_pos rfl

theorem forInstrument_other {i : Nat} (hi : i < maxNumInstruments)
    (hne : r.instrumentId.toNat ≠ i) : r.forInstrument (UInt8.ofNat i) = none := by
  refine if_neg fun heq => hne ?_
  rw [heq, UInt8.toNat_ofNat']
  exact Nat.mod_eq_of_lt (Nat.lt_trans hi (by decide))

/-- Each book is that of the requests for its instrument, and the stream has its updates. -/
theorem books_reached (h : Reached (processClientRequest fuel) (EachBook admits) create rs x) :
    ∀ i < maxNumInstruments,
      Reached (OrderBook.call fuel) admits (.create (UInt8.ofNat i)) (callsOn (UInt8.ofNat i) rs)
        (x.engine.instrumentOrderBooks i) ∧
      ofInstrument (UInt8.ofNat i) x.stream = updates (x.engine.instrumentOrderBooks i).sent := by
  induction h with
  | start => exact fun i _ => ⟨.start, rfl⟩
  | @call rs x x' r _ admitted returns ih =>
    obtain ⟨hr, c, s', hc, hcall, rfl⟩ := processClientRequest_ok returns
    obtain ⟨hbook, hstream⟩ := ih _ hr
    have hown := forInstrument_self (r := r) rfl
    have hnext := Reached.call hbook (admitted c hc) hcall
    obtain ⟨ms, hsent, hmarked⟩ := sent_call hbook hcall
    have hdrop : s'.sent.drop
        (x.engine.instrumentOrderBooks r.instrumentId.toNat).sent.length = ms := by
      rw [hsent, List.drop_left]
    intro i hi
    rw [callsOn_concat, ofInstrument_append, hdrop]
    by_cases heq : r.instrumentId.toNat = i
    · subst heq
      rw [hown, hc, x.engine.setOrderBook_self, hstream, hsent, updates_append]
      refine ⟨hnext, congrArg _ ?_⟩
      exact List.filter_eq_self.mpr fun u hu => decide_eq_true (hmarked u hu)
    · obtain ⟨hother, hstream'⟩ := ih i hi
      rw [forInstrument_other hi heq, x.engine.setOrderBook_ne (Ne.symm heq), hstream']
      refine ⟨by rwa [Option.toList_none, List.append_nil], ?_⟩
      have hnone : ofInstrument (UInt8.ofNat i) (updates ms) = [] := by
        refine List.filter_eq_nil_iff.mpr fun u hu hmark => ?_
        have hnames := (hmarked u hu).symm.trans (of_decide_eq_true hmark)
        exact ofNat_ne (Nat.lt_trans hr (by decide)) (Nat.lt_trans hi (by decide)) heq hnames
      rw [hnone, List.append_nil]

/-- Every update names an instrument. -/
theorem stream_named (h : Reached (processClientRequest fuel) (EachBook admits) create rs x) :
    ∀ u ∈ x.stream, u.instrumentId.toNat < maxNumInstruments := by
  induction h with
  | start => exact fun u hu => absurd hu List.not_mem_nil
  | call before admitted returns ih =>
    obtain ⟨hr, c, s', hc, hcall, rfl⟩ := processClientRequest_ok returns
    obtain ⟨hbook, -⟩ := books_reached before _ hr
    obtain ⟨ms, hsent, hmarked⟩ := sent_call hbook hcall
    intro u hu
    rw [hsent, List.drop_left] at hu
    rcases List.mem_append.mp hu with hu | hu
    · exact ih u hu
    · rw [hmarked u hu, UInt8.ofNat_toNat]
      exact hr

/-- The requests of a run name an instrument and a call. -/
theorem requests_named (h : Reached (processClientRequest fuel) (EachBook admits) create rs x) :
    ∀ r ∈ rs, r.instrumentId.toNat < maxNumInstruments ∧ r.bookRequest.isSome := by
  induction h with
  | start => exact fun r hr => absurd hr List.not_mem_nil
  | call _ _ returns ih =>
    intro r hr
    rcases List.mem_append.mp hr with hr | hr
    · exact ih r hr
    · obtain ⟨hi, c, _, hc, -⟩ := processClientRequest_ok returns
      rw [List.mem_singleton.mp hr, hc]
      exact ⟨hi, rfl⟩

/-- Runs of the books, one for each instrument, are one run of the exchange in whatever order
their requests arrive. -/
theorem reached_of_books
    (hnamed : ∀ r ∈ rs, r.instrumentId.toNat < maxNumInstruments ∧ r.bookRequest.isSome)
    (hbooks : ∀ i < maxNumInstruments, ∃ s, Reached (OrderBook.call fuel) admits
      (.create (UInt8.ofNat i)) (callsOn (UInt8.ofNat i) rs) s) :
    ∃ x, Reached (processClientRequest fuel) (EachBook admits) create rs x := by
  induction rs using List.reverseRecOn with
  | nil => exact ⟨create, .start⟩
  | append_singleton rs r ih =>
    have hshorter : ∀ i < maxNumInstruments, ∃ s, Reached (OrderBook.call fuel) admits
        (.create (UInt8.ofNat i)) (callsOn (UInt8.ofNat i) rs) s := by
      intro i hi
      obtain ⟨s, hs⟩ := hbooks i hi
      rw [callsOn_concat] at hs
      rcases hc : r.forInstrument (UInt8.ofNat i) with _ | c
      · rw [hc, Option.toList_none, List.append_nil] at hs
        exact ⟨s, hs⟩
      · rw [hc] at hs
        obtain ⟨s₀, hs₀, -⟩ := hs.last
        exact ⟨s₀, hs₀⟩
    obtain ⟨x, hx⟩ := ih (fun r hr => hnamed r (List.mem_append_left _ hr)) hshorter
    obtain ⟨hi, hsome⟩ := hnamed r (List.mem_append_right _ (List.mem_singleton_self r))
    obtain ⟨c, hc⟩ := Option.isSome_iff_exists.mp hsome
    obtain ⟨s, hs⟩ := hbooks _ hi
    rw [callsOn_concat, forInstrument_self rfl, hc] at hs
    obtain ⟨s₀, hs₀, hadmitted, hreturns⟩ := hs.last
    obtain rfl := hs₀.unique (books_reached hx _ hi).1
    obtain ⟨x', hx'⟩ := processClientRequest_call hi hc hreturns
    refine ⟨x', .call hx (fun c' hc' => ?_) hx'⟩
    rwa [← Option.some.inj (hc.symm.trans hc')]

/-- What happens to an instrument depends on its own requests alone, whatever they are. -/
theorem instruments_apart (rs : List ClientRequestInternal) :
    ((∃ fuel x, Reached (processClientRequest fuel) (fun _ _ => True) create rs x) ↔
      (∀ r ∈ rs, r.instrumentId.toNat < maxNumInstruments ∧ r.bookRequest.isSome) ∧
      ∀ i < maxNumInstruments, ∃ fuel s, Reached (OrderBook.call fuel) (fun _ _ => True)
        (.create (UInt8.ofNat i)) (callsOn (UInt8.ofNat i) rs) s) ∧
    ∀ fuel x, Reached (processClientRequest fuel) (fun _ _ => True) create rs x →
      ∀ i < maxNumInstruments, ∀ fuel' s, Reached (OrderBook.call fuel') (fun _ _ => True)
          (.create (UInt8.ofNat i)) (callsOn (UInt8.ofNat i) rs) s →
        x.engine.instrumentOrderBooks i = s ∧
          ofInstrument (UInt8.ofNat i) x.stream = updates s.sent := by
  have hany {fuel : Nat} {x : Exchange}
      (hx : Reached (processClientRequest fuel) (fun _ _ => True) create rs x) :
      Reached (processClientRequest fuel) (EachBook fun _ _ => True) create rs x :=
    hx.mono fun _ _ _ _ _ => trivial
  refine ⟨⟨?_, ?_⟩, ?_⟩
  · rintro ⟨fuel, x, hx⟩
    exact ⟨requests_named (hany hx), fun i hi => ⟨fuel, _, (books_reached (hany hx) i hi).1⟩⟩
  · rintro ⟨hnamed, hbooks⟩
    choose! need hneed using hbooks
    -- one fuel for all books
    have hbooks : ∀ i < maxNumInstruments, ∃ s,
        Reached (OrderBook.call ((Finset.range maxNumInstruments).sup need)) (fun _ _ => True)
          (.create (UInt8.ofNat i)) (callsOn (UInt8.ofNat i) rs) s := by
      intro i hi
      obtain ⟨s, hs⟩ := hneed i hi
      exact ⟨s, hs.more OrderBook.call_steady (Finset.le_sup (Finset.mem_range.mpr hi))⟩
    obtain ⟨x, hx⟩ := reached_of_books hnamed hbooks
    exact ⟨_, x, hx.mono fun _ _ _ => trivial⟩
  · intro fuel x hx i hi fuel' s hs
    obtain ⟨hbook, hstream⟩ := books_reached (hany hx) i hi
    obtain rfl := hbook.unique_fuel OrderBook.call_steady hs
    exact ⟨rfl, hstream⟩

/-- An order of instrument 3 arrives between two of instrument 0. -/
theorem instruments_apart_sample : ∃ x,
    Reached (processClientRequest 3000) (fun _ _ => True) create
      [⟨.new, 1, 0, 1, .sell, 12, 8⟩, ⟨.new, 1, 3, 1, .buy, 20, 4⟩,
        ⟨.new, 2, 0, 1, .buy, 12, 5⟩] x ∧
    ∀ s, Reached (OrderBook.call 3000) (fun _ _ => True) (.create 0)
        [.add 1 1 .sell 12 8, .add 2 1 .buy 12 5] s →
      x.engine.instrumentOrderBooks 0 = s ∧ ofInstrument 0 x.stream = updates s.sent := by
  obtain ⟨x, hx, -⟩ := @reached_of_any _ _ _ (processClientRequest 3000) (fun _ _ => True) create
    [⟨.new, 1, 0, 1, .sell, 12, 8⟩, ⟨.new, 1, 3, 1, .buy, 20, 4⟩, ⟨.new, 2, 0, 1, .buy, 12, 5⟩] _
    (fun _ => true) (by decide +kernel)
  exact ⟨x, hx, fun s hs => (instruments_apart _).2 3000 x hx 0 (by decide) 3000 s hs⟩

end Runs

/-! ## The queues of the levels -/

section Queues
variable {us : List MarketUpdate}

/-- The ids that are added for an instrument increase. -/
def Rises (us : List MarketUpdate) : Prop :=
  us.Pairwise fun a b => a.type = .add → b.type = .add → a.instrumentId = b.instrumentId →
    a.orderId < b.orderId

theorem rises_of_rising (h : ∀ u ∈ us, AddsRise (ofInstrument u.instrumentId us)) : Rises us := by
  refine List.pairwise_iff_forall_sublist.mpr fun {a b} hsub hadd htype hsame => ?_
  have hkeep : [a, b].filter (fun u => u.instrumentId = a.instrumentId) = [a, b] := by
    simp [← hsame]
  have hfilter := hsub.filter fun u => u.instrumentId = a.instrumentId
  rw [hkeep] at hfilter
  exact List.pairwise_iff_forall_sublist.mp (h a (hsub.subset List.mem_cons_self)) hfilter hadd
    htype

/-- The live orders of an instrument stand in the order of their ids. -/
theorem queued_replay (h : Rises us) : Queued (replay us) := by
  suffices hkeys : (replay us).Pairwise (fun a b => a.instrumentId = b.instrumentId →
      a.orderId < b.orderId) from hkeys.imp fun hlt hsame _ _ => hlt hsame
  induction us using List.reverseRecOn with
  | nil => exact .nil
  | append_singleton us u ih =>
    have hus : Rises us := h.sublist (List.sublist_append_left us [u])
    have hborn : ∀ o ∈ replay us, ∃ a ∈ us, a.type = .add ∧ a.instrumentId = o.instrumentId ∧
        a.orderId = o.orderId := by
      clear ih h
      induction us using List.reverseRecOn with
      | nil => exact fun o ho => absurd ho List.not_mem_nil
      | append_singleton us v ih =>
        rw [replay_append]
        refine forall_apply (fun hv => ⟨v, by simp, hv, rfl, rfl⟩) (fun o _ _ ho => ho)
          fun o ho => ?_
        obtain ⟨a, ha, hrest⟩ := ih (hus.sublist (List.sublist_append_left us [v])) o ho
        exact ⟨a, List.mem_append_left _ ha, hrest⟩
    have hkeys := ih hus
    rw [replay_append, List.foldl_cons, List.foldl_nil, apply]
    split
    · rename_i htype
      refine List.pairwise_append.mpr ⟨hkeys, List.pairwise_singleton _ u, fun o ho b hb => ?_⟩
      obtain rfl := List.mem_singleton.mp hb
      obtain ⟨a, ha, hadd, hinstrument, hid⟩ := hborn o ho
      intro hsame
      rw [← hid]
      exact (List.pairwise_append.mp h).2.2 a ha b (List.mem_singleton_self b) hadd htype
        (hinstrument.trans hsame)
    · split
      · refine List.pairwise_map.mpr (hkeys.imp fun {a b} hlt => ?_)
        have hkey : ∀ o, (patch u o).instrumentId = o.instrumentId ∧
            (patch u o).orderId = o.orderId := by
          intro o
          rw [patch]
          split <;> exact ⟨rfl, rfl⟩
        rw [(hkey a).1, (hkey b).1, (hkey a).2, (hkey b).2]
        exact hlt
      · split
        · exact hkeys.sublist List.filter_sublist
        · split
          · exact hkeys.sublist List.filter_sublist
          · exact hkeys

/-- In each level of what the stream tells the ids increase, at every moment. -/
theorem queued_stream {fuel : Nat} {x : Exchange} {rs : List ClientRequestInternal}
    (hfuel : maxNumOrders < fuel)
    (h : Reached (processClientRequest fuel) (KeepsPrices fuel) create rs x)
    (hids : ∀ i < maxNumInstruments, accepts (x.engine.instrumentOrderBooks i).sent < 2 ^ 64)
    (hnames : ∀ u ∈ x.stream, u.instrumentId.toNat < maxNumInstruments) (k : Nat) :
    Queued (replay (x.stream.take k)) := by
  refine queued_replay (List.Pairwise.sublist (List.take_sublist k _) (rises_of_rising ?_))
  intro u hu
  obtain ⟨hbook, hstream⟩ := books_reached h _ (hnames u hu)
  obtain ⟨v, hr, hpublished⟩ := keepsPrices_published hfuel hbook (hids _ (hnames u hu))
  rw [UInt8.ofNat_toNat] at hstream
  rw [hstream, hr.sent]
  exact hpublished.rising

end Queues

end Exchange

end StockExchange
