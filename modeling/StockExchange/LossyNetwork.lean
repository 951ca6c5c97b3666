import StockExchange.LateJoiner

/-!
# What a loss costs

If the datagrams arrive one after the other, each once, the client never recovers, and when
everything has been sent its books are those of the exchange. After a loss the end of a
snapshot ends the recovery exactly if the updates queued since then leave no gap behind it.
-/

namespace StockExchange

open Bytes BookView Replay Transitions FeedHandler

/-- The incremental datagram that arrives in a step. -/
def NetworkStep.delivered : NetworkStep → Option Nat
  | .incremental k => some k
  | _ => none

namespace FeedHandler

/-- A client that has been passed on `us` and nothing else happened to. -/
def caughtUp (us : List MarketUpdate) : FeedHandler :=
  { create with
    nextExpectedSeq := UInt64.ofNat (us.length + 1)
    incomingUpdates := us }

/-- Messages in the order of their numbers are passed on. -/
theorem readUpdates_caughtUp (us vs : List MarketUpdate) :
    (caughtUp us).readUpdates false (number (UInt64.ofNat (us.length + 1)) vs) =
      caughtUp (us ++ vs) := by
  induction vs generalizing us with
  | nil => rw [List.append_nil]; rfl
  | cons v vs ih =>
    have hnext : UInt64.ofNat (us.length + 1) + 1 = UInt64.ofNat ((us ++ [v]).length + 1) := by
      rw [List.length_append]
      exact (UInt64.ofNat_add (us.length + 1) 1).symm
    have hread : (caughtUp us).readUpdate false ⟨UInt64.ofNat (us.length + 1), v⟩ =
        caughtUp (us ++ [v]) := by
      refine (if_neg Bool.false_ne_true).trans ((if_neg (not_not.mpr rfl)).trans ?_)
      rw [caughtUp, caughtUp, ← hnext]
      rfl
    have happ : us ++ v :: vs = (us ++ [v]) ++ vs := by
      rw [List.append_assoc, List.singleton_append]
    rw [number, happ, ← ih (us ++ [v]), ← hread, ← hnext]
    rfl

end FeedHandler

/-- A part of consecutive records. -/
theorem number_split {n : UInt64} {us : List MarketUpdate} {cs ds : List ClientMarketUpdate}
    (h : cs ++ ds = number n us) : cs = number n (us.take cs.length) ∧
      ds = number (n + UInt64.ofNat cs.length) (us.drop cs.length) := by
  have hlen : (us.take cs.length).length = cs.length := by
    have := congrArg List.length h
    rw [List.length_append, length_number] at this
    rw [List.length_take]
    omega
  rw [← List.take_append_drop cs.length us, number_append, hlen] at h
  exact List.append_inj h (by rw [length_number, hlen])

namespace MarketDataNetwork

/-- Only a datagram that was sent arrives. -/
def Delivers (s : MarketDataNetwork) : NetworkStep → Prop
  | .incremental k => k < s.incrementals.length
  | _ => True

instance (s : MarketDataNetwork) : ∀ e, Decidable (s.Delivers e)
  | .request _ => .isTrue trivial
  | .engine => .isTrue trivial
  | .publisher => .isTrue trivial
  | .synthesizer => .isTrue trivial
  | .timer => .isTrue trivial
  | .incremental _ => inferInstanceAs (Decidable (_ < _))
  | .snapshot _ => .isTrue trivial

/-- The records in the first `k` datagrams. -/
def recordsIn (host : ByteOrder) (s : MarketDataNetwork) (k : Nat) : List ClientMarketUpdate :=
  (s.incrementals.take k).flatMap (decode host)

/-- Everything the exchange reported has been written, passed on and sent. -/
def Drained (s : MarketDataNetwork) : Prop :=
  s.feed.sent = s.exchange.stream ∧ s.feed.phase = .idle ∧ s.feed.queue.numElements = 0 ∧
    s.feed.publisher.sendBuffer.nextSendValidIndex = 0

section Lossless
variable {fuel size : Nat} {host client : ByteOrder} {s s' : MarketDataNetwork}
  {es : List NetworkStep} {e : NetworkStep} {k : Nat}

theorem flatMap_decode (chunks : List (List ClientMarketUpdate)) :
    (chunks.map (encode host)).flatMap (decode host) = chunks.flatten := by
  rw [List.flatMap_map, ← List.flatMap_id']
  exact List.flatMap_congr fun cs _ => decode_encode host cs

/-- The records are numbered from 1, without a gap. -/
theorem Sound.records_number (h : Sound fuel host s) (k : Nat) : ∃ us,
    s.recordsIn host k = number 1 us ∧ us <+: s.exchange.stream := by
  obtain ⟨chunks, last, hds, -, hrecords⟩ := h.linedUp
  obtain ⟨passed, unread, hsound⟩ := h.feed
  have hpre : passed ++ unread.take s.feed.phase.held <+: s.exchange.stream := by
    refine List.IsPrefix.trans ?_ ((List.prefix_append _ _).trans h.written)
    rw [hsound.sent, List.prefix_append_right_inj]
    exact List.take_prefix _ _
  have hall : s.recordsIn host k ++ ((chunks.drop k).flatten ++ last) =
      number 1 (passed ++ unread.take s.feed.phase.held) := by
    rw [recordsIn, hds, ← List.map_take, flatMap_decode, ← List.append_assoc, ← List.flatten_append,
      List.take_append_drop, hrecords, hsound.incremental]
  exact ⟨_, (number_split hall).1, (List.take_prefix _ _).trans hpre⟩

/-- The datagram behind the first `k` goes on with the next number. -/
theorem Sound.datagram_number (h : Sound fuel host s) (hk : k < s.incrementals.length) : ∃ us,
    s.incrementals[k] =
      encode host (number (UInt64.ofNat ((s.recordsIn host k).length + 1)) us) ∧
    s.recordsIn host (k + 1) = s.recordsIn host k ++
      number (UInt64.ofNat ((s.recordsIn host k).length + 1)) us := by
  obtain ⟨cs, hcs, -⟩ := h.records (List.getElem_mem hk)
  have hgrow : s.recordsIn host (k + 1) = s.recordsIn host k ++ cs := by
    rw [recordsIn, List.take_succ_eq_append_getElem hk, List.flatMap_append, List.flatMap_singleton,
      hcs, decode_encode, ← recordsIn]
  obtain ⟨us, hnumber, -⟩ := h.records_number (k + 1)
  have hrest := (number_split (hgrow.symm.trans hnumber)).2
  have hone : (1 : UInt64) + UInt64.ofNat (s.recordsIn host k).length =
      UInt64.ofNat ((s.recordsIn host k).length + 1) := by
    rw [UInt64.ofNat_add, UInt64.add_comm]
    rfl
  rw [hone] at hrest
  exact ⟨_, hrest ▸ hcs, hrest ▸ hgrow⟩

/-- A client that does not recover is reached by incremental datagrams only. -/
theorem handler_step (ht : Trails s.exchange.stream s.handler)
    (hrecovery : s.handler.inRecovery = false) (he : e.delivered = none)
    (h : s.step fuel host client e = .ok s') :
    s'.handler = s.handler ∧ s.incrementals <+: s'.incrementals := by
  cases e with
  | request r =>
    obtain ⟨x, -, hs'⟩ := bind_eq_ok.mp h
    cases hs'
    exact ⟨rfl, List.prefix_rfl⟩
  | engine =>
    obtain ⟨f, -, hs'⟩ := bind_eq_ok.mp h
    cases hs'
    exact ⟨rfl, List.prefix_rfl⟩
  | publisher =>
    obtain ⟨f, -, hs'⟩ := bind_eq_ok.mp h
    cases hs'
    exact ⟨rfl, List.prefix_append _ _⟩
  | synthesizer =>
    rw [step] at h
    split at h
    · cases h
      exact ⟨rfl, List.prefix_rfl⟩
    · obtain ⟨t, -, hs'⟩ := bind_eq_ok.mp h
      cases hs'
      exact ⟨rfl, List.prefix_rfl⟩
  | timer =>
    obtain ⟨r, -, hs'⟩ := bind_eq_ok.mp h
    cases hs'
    exact ⟨rfl, List.prefix_rfl⟩
  | incremental k => cases he
  | snapshot k =>
    rw [step] at h
    split at h
    · cases h
      exact ⟨rfl, List.prefix_rfl⟩
    · split at h
      · rename_i hopen
        exact absurd ((ht.listens hopen).symm.trans hrecovery) Bool.noConfusion
      · cases h
        exact ⟨rfl, List.prefix_rfl⟩

/-- The client has been passed on what is in the first `k` datagrams. -/
def InOrder (host : ByteOrder) (k : Nat) (s : MarketDataNetwork) : Prop :=
  s.handler = caughtUp ((s.recordsIn host k).map (·.update)) ∧ k ≤ s.incrementals.length

theorem InOrder.other (h : InOrder host k s) (ht : Trails s.exchange.stream s.handler)
    (he : e.delivered = none) (hstep : s.step fuel host client e = .ok s') :
    InOrder host k s' := by
  obtain ⟨hhandler, hk⟩ := h
  obtain ⟨hsame, ds, hgrow⟩ := handler_step ht (by rw [hhandler]; rfl) he hstep
  have htake : s'.recordsIn host k = s.recordsIn host k := by
    rw [recordsIn, ← hgrow, List.take_append_of_le_length hk, ← recordsIn]
  refine ⟨by rw [hsame, hhandler, htake], ?_⟩
  rw [← hgrow, List.length_append]
  omega

theorem InOrder.next (h : InOrder host k s) (hsound : Sound fuel host s)
    (hk : k < s.incrementals.length) (hstep : s.step fuel host client (.incremental k) = .ok s') :
    InOrder host (k + 1) s' := by
  obtain ⟨hhandler, -⟩ := h
  obtain ⟨us, hd, hgrow⟩ := hsound.datagram_number hk
  rw [step, List.getElem?_eq_getElem hk] at hstep
  cases hstep
  obtain ⟨hread, -⟩ := FeedHandler.onRead_encode host client false hsound.incrementalFeed
    s.handler (number (UInt64.ofNat ((s.recordsIn host k).length + 1)) us)
  have hnext := readUpdates_caughtUp ((s.recordsIn host k).map (·.update)) us
  rw [List.length_map] at hnext
  refine ⟨?_, hk⟩
  change (FeedHandler.onRead client false s.incrementalFeed s.handler s.incrementals[k]).2 =
    caughtUp ((s.recordsIn host (k + 1)).map (·.update))
  rw [hd, hread, hgrow, List.map_append, map_update_number, ← hnext, hhandler]
  rfl

/-- By induction on the run; each datagram that arrives is the next one. -/
theorem reached_inOrder (hfuel : maxNumOrders < fuel)
    (h : Reached (step fuel host client) (fun s e => s.Admits fuel e ∧ s.Delivers e)
      (create size) es s) (hlt : s.exchange.stream.length < 2 ^ 64)
    (hes : es.filterMap NetworkStep.delivered = List.range k) : InOrder host k s := by
  induction h generalizing k with
  | start =>
    rcases k with _ | k
    · exact ⟨rfl, Nat.le_refl 0⟩
    · exact absurd hes.symm (by simp [List.range_succ])
  | @call es s s' e before admitted returns ih =>
    have hlt' := Nat.lt_of_le_of_lt (stream_step returns) hlt
    have hsound := reached_sound hfuel (before.mono fun _ _ ha => ha.1) hlt'
    rw [List.filterMap_append] at hes
    rcases he : e.delivered with _ | j
    · rw [List.filterMap_cons_none he, List.filterMap_nil, List.append_nil] at hes
      exact (ih hlt' hes).other hsound.trails he returns
    · obtain ⟨k, rfl⟩ : ∃ k', k = k' + 1 := Nat.exists_eq_succ_of_ne_zero fun hzero => by
        rw [List.filterMap_cons_some he, hzero] at hes
        exact List.append_ne_nil_of_right_ne_nil _ (List.cons_ne_nil _ _) hes
      rw [List.filterMap_cons_some he, List.filterMap_nil, List.range_succ] at hes
      obtain ⟨hes', hj⟩ := List.append_inj' hes rfl
      obtain rfl := List.singleton_inj.mp hj
      obtain rfl : e = .incremental j := by
        cases e <;> cases he
        rfl
      exact (ih hlt' hes').next hsound admitted.2 returns

/-- What has been sent when nothing is left to send. -/
theorem Sound.drained (h : Sound fuel host s) (hdrained : s.Drained) :
    (s.recordsIn host s.incrementals.length).map (·.update) = s.exchange.stream := by
  obtain ⟨hsent, hphase, hcount, hindex⟩ := hdrained
  obtain ⟨chunks, last, hds, hdatagram, hrecords⟩ := h.linedUp
  obtain ⟨passed, unread, hsound⟩ := h.feed
  have hunread : unread = [] := by
    have hcounted := hsound.counted
    rw [hphase, hcount] at hcounted
    exact List.eq_nil_of_length_eq_zero hcounted.symm
  have hlast : last = [] := by
    have hlen := congrArg List.length hdatagram
    rw [SendBuffer.length_datagram, hindex, length_encode] at hlen
    exact List.eq_nil_of_length_eq_zero
      ((Nat.mul_eq_zero.mp hlen.symm).resolve_left (by decide))
  have hpassed : passed = s.exchange.stream := by
    rw [← hsent, hsound.sent, hunread, List.append_nil]
  rw [recordsIn, List.take_length, hds, flatMap_decode, ← List.append_nil chunks.flatten, ← hlast,
    hrecords, hsound.incremental, map_update_number, hunread, List.take_nil, List.append_nil,
    hpassed]

/-- A client that is sent every datagram once and in order never recovers. When nothing is
left to send it has the books of the exchange. -/
theorem lossless_delivery (hfuel : maxNumOrders < fuel)
    (h : Reached (step fuel host client) (fun s e => s.Admits fuel e ∧ s.Delivers e)
      (create size) es s) (hlt : s.exchange.stream.length < 2 ^ 64)
    (hids : ∀ i < maxNumInstruments,
      accepts (s.exchange.engine.instrumentOrderBooks i).sent < 2 ^ 64)
    (hes : es.filterMap NetworkStep.delivered = List.range k) :
    s.handler.inRecovery = false ∧
    s.handler.incomingUpdates = (s.recordsIn host k).map (·.update) ∧
    ∃ c, InstrumentOrderBooks.create.run fuel s.handler.incomingUpdates = .ok c ∧
      (s.Drained → k = s.incrementals.length → ∀ i < maxNumInstruments, ∀ b,
        (c.instrumentOrderBook i).heap.Shows b ↔
          (s.exchange.engine.instrumentOrderBooks i).heap.Shows b) := by
  have hsound := reached_sound hfuel (h.mono fun _ _ ha => ha.1) hlt
  obtain ⟨hhandler, -⟩ := reached_inOrder hfuel h hlt hes
  obtain ⟨rs, hrs⟩ := hsound.reached
  have hvalid : ValidReplay s.exchange.stream := (accommodates_stream hfuel hrs).fitsAll
  have hkeeps := hrs.mono fun _ _ (ha : _ ∧ _ ∧ _) => ha.2.2
  have hbooks := fun i hi => Exchange.stream_shows hfuel hkeeps (i := i) hi (hids i hi)
  obtain ⟨us, hrecords, hpre⟩ := hsound.records_number k
  have hincoming : s.handler.incomingUpdates = (s.recordsIn host k).map (·.update) := by
    rw [hhandler]
    rfl
  have hus : s.handler.incomingUpdates = s.exchange.stream.take us.length := by
    rw [hincoming, hrecords, map_update_number, ← List.prefix_iff_eq_take.mp hpre]
  obtain ⟨c, hrun, hshows⟩ := @InstrumentOrderBooks.run_shows fuel s.handler.incomingUpdates hfuel
    (fun u hu => stream_named hvalid u (List.mem_of_mem_take (hus ▸ hu)))
    fun i hi => hus ▸ admitsAll_take (hbooks i hi).1 _
  refine ⟨by rw [hhandler]; rfl, hincoming, c, hrun, fun hdrained hk i hi b => ?_⟩
  have hall : s.handler.incomingUpdates = s.exchange.stream := by
    rw [hincoming, hk, hsound.drained hdrained]
  have hclient := hshows i hi
  have hexchange := (hbooks i hi).2
  rw [hall] at hclient
  exact ⟨fun hb => hb.unique hclient ▸ hexchange, fun hb => hb.unique hexchange ▸ hclient⟩

/-- Three datagrams are delivered, one after the other. -/
theorem lossless_delivery_sample : ∃ s c,
    Reached (step 3000 .little .big) (fun s e => s.Admits 3000 e ∧ s.Delivers e) (create 4)
      ([.request ⟨.new, 1, 0, 1, .sell, 12, 8⟩] ++ written ++ [.incremental 0, .timer,
        .request ⟨.new, 2, 0, 1, .buy, 12, 3⟩] ++ written ++ written ++
        [.incremental 1, .incremental 2]) s ∧
    InstrumentOrderBooks.create.run 3000 s.handler.incomingUpdates = .ok c ∧
    ∀ b, (c.instrumentOrderBook 0).heap.Shows b ↔
      (s.exchange.engine.instrumentOrderBooks 0).heap.Shows b := by
  obtain ⟨s, hs, hcheck⟩ := @reached_of_any _ _ _ (step 3000 .little .big)
    (fun s e => s.Admits 3000 e ∧ s.Delivers e) (create 4)
    ([.request ⟨.new, 1, 0, 1, .sell, 12, 8⟩] ++ written ++ [.incremental 0, .timer,
      .request ⟨.new, 2, 0, 1, .buy, 12, 3⟩] ++ written ++ written ++
        [.incremental 1, .incremental 2]) _
    (fun s => s.exchange.stream.length < 2 ^ 64 ∧ 3 = s.incrementals.length ∧
      (s.feed.sent = s.exchange.stream ∧ s.feed.phase = .idle ∧ s.feed.queue.numElements = 0 ∧
        s.feed.publisher.sendBuffer.nextSendValidIndex = 0) ∧
      ∀ i < maxNumInstruments,
        accepts (s.exchange.engine.instrumentOrderBooks i).sent < 2 ^ 64) (by decide +kernel)
  obtain ⟨hlt, hcount, hdrained, hids⟩ := of_decide_eq_true hcheck
  obtain ⟨-, -, c, hrun, hsame⟩ := lossless_delivery (by decide) hs hlt hids (k := 3) (by decide)
  exact ⟨s, c, hs, hrun, hsame hdrained hcount 0 (by decide)⟩

end Lossless

/-! ## The end of a recovery -/

section Recovery
variable {fuel size : Nat} {host client : ByteOrder} {s : MarketDataNetwork}
  {es : List NetworkStep} {snap : Snapshot} {k : Nat}

theorem lastQueued_le {m : QueuedMarketUpdates} {a b : Nat} (ha : a ≤ b)
    (hm : ∀ e ∈ m, e.sequenceNumber.toNat ≤ b) : lastQueued a m ≤ b := by
  induction m generalizing a with
  | nil => exact ha
  | cons e m ih =>
    exact ih (Nat.max_le.mpr ⟨ha, hm e List.mem_cons_self⟩) fun d hd =>
      hm d (List.mem_cons_of_mem e hd)

/-- The snapshot that a datagram holds is of one of the updates. -/
theorem Sound.snapshot_le (h : Sound fuel host s)
    (hk : s.snapshots[k]? = some (encode host snap.messages)) :
    snap.lastIncSeqNum.toNat ≤ s.exchange.stream.length := by
  obtain ⟨snap', j, ⟨hle, -⟩, hj, hd⟩ := h.snapshots _ (List.mem_of_getElem? hk)
  have hmessages := congrArg (decode host) hd
  rw [SnapshotSynthesizer.snapshotBytes, decode_encode, decode_encode, Snapshot.messages]
    at hmessages
  have hupdates := congrArg (List.map ClientMarketUpdate.update) hmessages
  rw [map_update_number, map_update_number] at hupdates
  -- both begin with their START
  have hstart := congrArg (fun us : List MarketUpdate => us.head?.map (·.orderId)) hupdates
  have hsame : snap.lastIncSeqNum = snap'.lastIncSeqNum := Option.some.inj hstart
  rw [hsame]
  exact hle

/-- The last datagram of a snapshot ends the recovery exactly if the queued updates leave no
gap behind it. Otherwise the client goes on queueing and waits for the next one. -/
theorem recovery_ends (hfuel : maxNumOrders < fuel)
    (h : Reached (step fuel host client) (Admits fuel) (create size) es s)
    (hlt : s.exchange.stream.length + 1 < 2 ^ 64) (hopen : s.handler.snapshotFeed = .receiving)
    (hk : s.snapshots[k]? = some (encode host snap.messages)) :
    ∃ s', s.step fuel host client (.snapshot k) = .ok s' ∧
      (NoGap snap.lastIncSeqNum.toNat s.handler.incrementalQueuedMsgs →
        ∃ n, n = lastQueued snap.lastIncSeqNum.toNat s.handler.incrementalQueuedMsgs ∧
          s'.handler.inRecovery = false ∧ s'.handler.nextExpectedSeq = UInt64.ofNat (n + 1) ∧
          s'.handler.incomingUpdates = s.handler.incomingUpdates ++ (snap.content ++
            (s.exchange.stream.take n).drop snap.lastIncSeqNum.toNat)) ∧
      (¬ NoGap snap.lastIncSeqNum.toNat s.handler.incrementalQueuedMsgs →
        s'.handler.inRecovery = true ∧ s'.handler.snapshotFeed = .receiving ∧
          s'.handler.incomingUpdates = s.handler.incomingUpdates ∧
          s'.handler.incrementalQueuedMsgs = s.handler.incrementalQueuedMsgs) := by
  have hsound := reached_sound hfuel h (Nat.lt_of_succ_lt hlt)
  have ht := hsound.trails
  have hle := hsound.snapshot_le hk
  have hrecovery := ht.listens hopen
  obtain ⟨hread, -⟩ := FeedHandler.onRead_encode host client true hsound.snapshotFeed s.handler
    snap.messages
  have hmessages := read_messages (s := snap) hrecovery ht.begins
  have hfirst : snap.lastIncSeqNum + 1 = UInt64.ofNat (snap.lastIncSeqNum.toNat + 1) := by
    rw [UInt64.ofNat_add, UInt64.ofNat_toNat]
    rfl
  have hqueued : ∀ e ∈ s.handler.incrementalQueuedMsgs,
      e.sequenceNumber.toNat ≤ s.exchange.stream.length := by
    intro e he
    obtain ⟨j, hj, hnumber, -⟩ := mem_number (ht.incremental e he)
    have hone : (1 : UInt64) + UInt64.ofNat j = UInt64.ofNat (j + 1) := by
      rw [UInt64.ofNat_add, UInt64.add_comm]
      rfl
    rw [hnumber, hone, UInt64.toNat_ofNat', Nat.mod_eq_of_lt (by omega)]
    exact hj
  obtain ⟨hfull, hgap⟩ := synchronizeIncremental_iff (a := snap.lastIncSeqNum.toNat) ht.sorted
    (fun e he => Nat.lt_of_le_of_lt (Nat.succ_le_succ (hqueued e he)) hlt) (by omega)
  rw [step, hk]
  dsimp only
  rw [if_pos hopen]
  refine ⟨_, rfl, fun hno => ?_, fun hno => ?_⟩
  · obtain ⟨vs, hsync⟩ := hfull hno
    obtain ⟨htaken, hnext⟩ := synchronizeIncremental_prefix (Nat.lt_of_succ_lt hlt)
      snap.lastIncSeqNum.toNat_lt ht.incremental hsync
    rw [hfirst, hsync] at hmessages
    have hlast := lastQueued_le hle hqueued
    have hlen := htaken.length_le
    rw [List.length_drop] at hlen
    have hn : lastQueued snap.lastIncSeqNum.toNat s.handler.incrementalQueuedMsgs =
        snap.lastIncSeqNum.toNat + vs.length := by
      have heq := congrArg UInt64.toNat hnext
      rw [UInt64.toNat_ofNat', UInt64.toNat_ofNat', Nat.mod_eq_of_lt (by omega),
        Nat.mod_eq_of_lt (by omega)] at heq
      exact Nat.succ.inj heq
    have htail : (s.exchange.stream.take (snap.lastIncSeqNum.toNat + vs.length)).drop
        snap.lastIncSeqNum.toNat = vs := by
      rw [List.drop_take, Nat.add_sub_cancel_left]
      exact (List.prefix_iff_eq_take.mp htaken).symm
    refine ⟨_, rfl, ?_⟩
    dsimp only
    rw [hread.trans hmessages, hn, htail]
    exact ⟨rfl, rfl, rfl⟩
  · obtain ⟨next, hsync⟩ := hgap hno
    rw [hfirst, hsync] at hmessages
    dsimp only
    rw [hread.trans hmessages]
    exact ⟨hrecovery, hopen, rfl, rfl⟩

/-- A snapshot of the first update, which was lost; the second one is queued. -/
theorem recovery_ends_sample : ∃ s s' : MarketDataNetwork,
    Reached (step 3000 .little .big) (Admits 3000) (create 4) lostDatagram.dropLast s ∧
    s.step 3000 .little .big (.snapshot 1) = .ok s' ∧
    s.handler.inRecovery = true ∧ s'.handler.inRecovery = false ∧
    s'.handler.nextExpectedSeq = 3 := by
  obtain ⟨snap, hsnap⟩ : ∃ snap : Snapshot, snap = ⟨1, (List.range maxNumInstruments).flatMap
    fun i => SnapshotSynthesizer.clearUpdate i ::
      if i = 0 then [⟨.add, 1, 0, .sell, 12, 8, 1⟩] else [], by decide, by decide⟩ := ⟨_, rfl⟩
  obtain ⟨s, hs, hcheck⟩ := @reached_of_any _ _ _ (step 3000 .little .big) (Admits 3000)
    (create 4) lostDatagram.dropLast _
    (fun s => s.exchange.stream.length + 1 < 2 ^ 64 ∧ s.handler.snapshotFeed = .receiving ∧
      s.handler.inRecovery = true ∧
      s.handler.incrementalQueuedMsgs = [⟨2, ⟨.add, 1, 3, .buy, 20, 4, 1⟩⟩] ∧
      s.snapshots[1]? = some (encode .little (Snapshot.messages ⟨1,
        (List.range maxNumInstruments).flatMap fun i => SnapshotSynthesizer.clearUpdate i ::
          if i = 0 then [⟨.add, 1, 0, .sell, 12, 8, 1⟩] else [], by decide, by decide⟩)))
    (by decide +kernel)
  obtain ⟨hlt, hopen, hrecovery, hqueued, hdatagram⟩ := of_decide_eq_true hcheck
  rw [← hsnap] at hdatagram
  obtain ⟨s', hstep, hends, -⟩ := recovery_ends (by decide) hs hlt hopen hdatagram
  have hgap : NoGap snap.lastIncSeqNum.toNat s.handler.incrementalQueuedMsgs := by
    rw [hqueued, hsnap]
    intro e he k hk hke
    obtain rfl := List.mem_singleton.mp he
    exact ⟨_, List.mem_singleton_self _, Nat.le_antisymm hk hke⟩
  obtain ⟨n, hn, hleft, hnext, -⟩ := hends hgap
  refine ⟨s, s', hs, hstep, hrecovery, hleft, hnext.trans ?_⟩
  rw [hn, hqueued, hsnap]
  decide

end Recovery

end MarketDataNetwork

end StockExchange
