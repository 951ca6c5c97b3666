import StockExchange.Instruments
import StockExchange.LiveFeed
import StockExchange.MulticastConnection
import StockExchange.Resynchronisation

/-!
# The market data network

The engine, the publisher and the synthesizer run side by side and send datagrams; a client
listens. The network may delay, reorder, repeat and lose datagrams. Whatever it does, the
client has been passed on the first updates, with at most one snapshot in the place of some
of them.
-/

namespace StockExchange

open Bytes BookView Replay Transitions FeedHandler

/-- The threads of the exchange, the datagrams sent so far on the two addresses, and the
client with its two sockets. -/
structure MarketDataNetwork where
  exchange : Exchange
  feed : LiveFeed
  synthesizer : SnapshotSynthesizer
  incrementals : List (List UInt8)
  snapshots : List (List UInt8)
  incrementalFeed : MulticastConnection
  snapshotFeed : MulticastConnection
  handler : FeedHandler

/-- A request is processed, one of the threads takes a step, the snapshot timer expires, or
one of the datagrams arrives. -/
inductive NetworkStep where
  | request (r : ClientRequestInternal)
  | engine
  | publisher
  | synthesizer
  | timer
  | incremental (k : Nat)
  | snapshot (k : Nat)
deriving DecidableEq

namespace MarketDataNetwork

def create (size : Nat) : MarketDataNetwork where
  exchange := .create
  feed := .create size
  synthesizer := .create
  incrementals := []
  snapshots := []
  incrementalFeed := ⟨fun _ => 0, 0⟩
  snapshotFeed := ⟨fun _ => 0, 0⟩
  handler := .create

/-- What the engine writes next. -/
def nextUpdate (s : MarketDataNetwork) : MarketUpdate :=
  s.exchange.stream.getD s.feed.sent.length .default

def snapshotQueue (s : MarketDataNetwork) : LockFreeQueue ClientMarketUpdate :=
  s.feed.publisher.snapshotMarketUpdateQueue

/-- The records are lined up and the queue is empty: the datagram is sent. -/
def sends (f : LiveFeed) : List (List UInt8) :=
  if f.phase = .idle ∧ f.queue.numElements = 0 ∧ f.publisher.sendBuffer.nextSendValidIndex ≠ 0
  then [f.publisher.sendBuffer.datagram] else []

def step (fuel : Nat) (host client : ByteOrder) (s : MarketDataNetwork) :
    NetworkStep → Except Fault MarketDataNetwork
  | .request r => s.exchange.processClientRequest fuel r >>= fun x => .ok { s with exchange := x }
  | .engine => s.feed.step host (.engine s.nextUpdate) >>= fun f => .ok { s with feed := f }
  | .publisher => s.feed.step host .publisher >>= fun f =>
    .ok { s with
      feed := f
      incrementals := s.incrementals ++ sends s.feed }
  | .synthesizer => match s.snapshotQueue.nextReadElement with
    | none => .ok s
    | some u => s.synthesizer.addToSnapshot u >>= fun t =>
      .ok { s with
        synthesizer := t
        feed := { s.feed with publisher :=
          { s.feed.publisher with snapshotMarketUpdateQueue := s.snapshotQueue.pop } } }
  | .timer => s.synthesizer.publishSnapshot host >>= fun r =>
    .ok { s with
      synthesizer := r.1
      snapshots := s.snapshots ++ r.2 }
  | .incremental k => match s.incrementals[k]? with
    | none => .ok s
    | some d =>
      let r := FeedHandler.onRead client false s.incrementalFeed s.handler d
      .ok { s with
        incrementalFeed := r.1
        handler := r.2 }
  | .snapshot k => match s.snapshots[k]? with
    | none => .ok s
    | some d =>
      -- before and after a recovery nothing is received
      if s.handler.snapshotFeed = .receiving then
        let r := FeedHandler.onRead client true s.snapshotFeed s.handler d
        .ok { s with
          snapshotFeed := r.1
          handler := r.2 }
      else .ok s

/-- A request keeps the prices apart and finds a place for what it books, the engine has
something to write, and neither queue overflows. -/
def Admits (fuel : Nat) (s : MarketDataNetwork) : NetworkStep → Prop
  | .request r => s.exchange.engine.Processes fuel r ∧ s.exchange.engine.Records fuel r ∧
    s.exchange.KeepsPrices fuel r
  | .engine => (s.feed.engine.isIdle = true → s.feed.sent.length < s.exchange.stream.length) ∧
    s.feed.Admits (.engine s.nextUpdate) ∧ s.feed.Orderly (.engine s.nextUpdate)
  | .publisher => s.feed.phase.released = 1 → s.snapshotQueue.numElements < s.snapshotQueue.size
  | _ => True

instance (fuel : Nat) (s : MarketDataNetwork) : ∀ e, Decidable (s.Admits fuel e)
  | .request r => inferInstanceAs (Decidable (_ ∧ _ ∧ s.exchange.KeepsPrices fuel r))
  | .engine => inferInstanceAs (Decidable ((_ = true → _ < _) ∧ _ ∧ _))
  | .publisher => inferInstanceAs (Decidable (_ = 1 → _ < _))
  | .synthesizer => .isTrue trivial
  | .timer => .isTrue trivial
  | .incremental _ => .isTrue trivial
  | .snapshot _ => .isTrue trivial

/-- The datagrams hold the records so far, in order, and the buffer holds the rest. -/
def LinedUp (host : ByteOrder) (f : LiveFeed) (ds : List (List UInt8)) : Prop :=
  ∃ (chunks : List (List ClientMarketUpdate)) (last : List ClientMarketUpdate),
    ds = chunks.map (encode host) ∧
    f.publisher.sendBuffer.datagram = encode host last ∧ chunks.flatten ++ last = f.incremental

/-- The tables hold what the first records say, and the queue holds the others. -/
def Tabled (f : LiveFeed) (t : SnapshotSynthesizer) : Prop :=
  ∃ j ≤ f.snapshot.length, t.lastIncSeqNum = UInt64.ofNat j ∧
    t.Holds (replay ((f.snapshot.take j).map (·.update))) ∧
    t.sendBuffer.nextSendValidIndex = 0 ∧
    f.publisher.snapshotMarketUpdateQueue.Holds f.snapshot.length j j (f.snapshot.drop j) ∧
    f.publisher.snapshotMarketUpdateQueue.numElements = f.snapshot.length - j

/-- Every datagram is the beginning of a snapshot of one of the updates. -/
def Snapshots (host : ByteOrder) (us : List MarketUpdate) (ds : List (List UInt8)) : Prop :=
  ∀ d ∈ ds, ∃ s j, SnapshotOf us s ∧ j < s.updates.length ∧
    d = SnapshotSynthesizer.snapshotBytes host (s.updates.take (j + 1))

structure Sound (fuel : Nat) (host : ByteOrder) (s : MarketDataNetwork) : Prop where
  reached : ∃ rs, Reached (Exchange.processClientRequest fuel)
    (fun x r => x.engine.Processes fuel r ∧ x.engine.Records fuel r ∧ x.KeepsPrices fuel r)
    .create rs s.exchange
  feed : ∃ passed unread, s.feed.Sound passed unread
  written : s.feed.sent ++ s.feed.engine.pending <+: s.exchange.stream
  linedUp : LinedUp host s.feed s.incrementals
  tabled : Tabled s.feed s.synthesizer
  snapshots : Snapshots host s.exchange.stream s.snapshots
  incrementalFeed : s.incrementalFeed.offset = 0
  snapshotFeed : s.snapshotFeed.offset = 0
  trails : Trails s.exchange.stream s.handler

section Exchange
variable {fuel : Nat} {x : Exchange} {rs : List ClientRequestInternal}

/-- What the exchange says of its orders can be recorded. -/
theorem accommodates_stream (hfuel : maxNumOrders < fuel)
    (h : Reached (Exchange.processClientRequest fuel)
      (fun x r => x.engine.Processes fuel r ∧ x.engine.Records fuel r ∧ x.KeepsPrices fuel r)
      .create rs x) : Accommodates [] x.stream := by
  obtain ⟨v, hsound⟩ : ∃ v, x.Sound v := by
    refine h.invariant (P := fun x => ∃ v, x.Sound v) ⟨_, Exchange.create_sound⟩ ?_
    rintro x r x' ⟨v, hsound⟩ ⟨hprocesses, hrecords, -⟩ hstep
    exact hsound.step hfuel hprocesses hrecords hstep
  exact hsound.fits

end Exchange

section Threads
variable {host : ByteOrder} {f f' : LiveFeed} {ds : List (List UInt8)} {t t' : SnapshotSynthesizer}

theorem create_linedUp (size : Nat) : LinedUp host (.create size) [] :=
  ⟨[], [], rfl, rfl, rfl⟩

theorem create_tabled (size : Nat) : Tabled (.create size) .create :=
  ⟨0, le_rfl, rfl, SnapshotSynthesizer.create_holds, rfl, LockFreeQueue.create_holds _ _, rfl⟩

/-- The engine does not touch what the publisher has lined up and passed on. -/
theorem engine_step {u : MarketUpdate} (h : f.step host (.engine u) = .ok f') :
    f'.publisher.sendBuffer = f.publisher.sendBuffer ∧ f'.incremental = f.incremental ∧
      f'.snapshot = f.snapshot ∧ f'.publisher.snapshotMarketUpdateQueue =
        f.publisher.snapshotMarketUpdateQueue := by
  obtain ⟨p, engine, phase, sent, incremental, snapshot⟩ := f
  cases engine <;> cases h <;> exact ⟨rfl, rfl, rfl, rfl⟩

/-- What the engine has begun to write is what it was sent next. -/
theorem engine_written {us : List MarketUpdate} (hwritten : f.sent ++ f.engine.pending <+: us)
    (hroom : f.engine.isIdle = true → f.sent.length < us.length)
    (h : f.step host (.engine (us.getD f.sent.length .default)) = .ok f') :
    f'.sent ++ f'.engine.pending <+: us := by
  obtain ⟨p, engine, phase, sent, incremental, snapshot⟩ := f
  cases engine with
  | idle =>
    cases h
    have hlt : sent.length < us.length := hroom rfl
    have hsent : sent <+: us := by simpa [Producer.pending] using hwritten
    have hgrow : sent ++ [us.getD sent.length .default] = us.take (sent.length + 1) := by
      rw [List.getD_eq_getElem _ _ hlt, List.take_succ_eq_append_getElem hlt,
        ← List.prefix_iff_eq_take.mp hsent]
    exact hgrow ▸ List.take_prefix _ _
  | stored v =>
    cases h
    exact hwritten
  | advanced v =>
    cases h
    simpa [Producer.pending] using hwritten

/-- The publisher leaves alone what the engine has written. -/
theorem publisher_written (h : f.step host .publisher = .ok f') :
    f'.sent = f.sent ∧ f'.engine = f.engine := by
  obtain ⟨p, engine, phase, sent, incremental, snapshot⟩ := f
  cases phase with
  | idle =>
    rw [LiveFeed.step] at h
    dsimp only at h
    split at h <;> cases h <;> exact ⟨rfl, rfl⟩
  | taken c =>
    obtain ⟨p', -, h⟩ := bind_eq_ok.mp h
    cases h
    exact ⟨rfl, rfl⟩
  | encoded c =>
    rw [LiveFeed.step] at h
    dsimp only at h
    split at h <;> cases h <;> exact ⟨rfl, rfl⟩
  | releasing c => cases h; exact ⟨rfl, rfl⟩
  | advanced c => cases h; exact ⟨rfl, rfl⟩
  | handedBack c => cases h; exact ⟨rfl, rfl⟩

theorem LinedUp.engine {u : MarketUpdate} (hl : LinedUp host f ds)
    (h : f.step host (.engine u) = .ok f') : LinedUp host f' ds := by
  obtain ⟨hbuffer, hincremental, -, -⟩ := engine_step h
  rw [LinedUp, hbuffer, hincremental]
  exact hl

/-- A record is added to those lined up, or they are sent. -/
theorem LinedUp.publisher (hl : LinedUp host f ds) (h : f.step host .publisher = .ok f') :
    LinedUp host f' (ds ++ sends f) := by
  obtain ⟨chunks, last, rfl, hdatagram, hrecords⟩ := hl
  have hindex : f.publisher.sendBuffer.nextSendValidIndex =
      sizeofClientMarketUpdate * last.length := by
    rw [← SendBuffer.length_datagram, hdatagram, length_encode]
  have hnone : f.phase ≠ .idle → sends f = [] := fun hphase => if_neg fun hs => hphase hs.1
  obtain ⟨p, engine, phase, sent, incremental, snapshot⟩ := f
  dsimp only at hdatagram hrecords hindex hnone
  cases phase with
  | idle =>
    rw [LiveFeed.step] at h
    dsimp only at h
    split at h
    · rename_i hempty
      cases h
      by_cases hzero : p.sendBuffer.nextSendValidIndex = 0
      · have hlast : last = [] := List.eq_nil_of_length_eq_zero
          ((Nat.mul_eq_zero.mp (hindex.symm.trans hzero)).resolve_left (by decide))
        refine ⟨chunks, [], ?_, rfl, hlast ▸ hrecords⟩
        rw [sends, if_neg fun hs => hs.2.2 hzero, List.append_nil]
      · refine ⟨chunks ++ [last], [], ?_, rfl, ?_⟩
        · rw [sends, if_pos ⟨rfl, hempty, hzero⟩, List.map_append, List.map_singleton,
            hdatagram]
        · rw [List.flatten_append, List.flatten_singleton, List.append_nil]
          exact hrecords
    · rename_i hne
      cases h
      rw [sends, if_neg fun hs => hne hs.2.1, List.append_nil]
      exact ⟨chunks, last, rfl, hdatagram, hrecords⟩
  | taken c =>
    obtain ⟨p', hp', h⟩ := bind_eq_ok.mp h
    cases h
    obtain ⟨b, hb, hp'⟩ := bind_eq_ok.mp hp'
    cases hp'
    have hroom : sizeofClientMarketUpdate * (last.length + 1) ≤ bufferSize := by
      by_contra hfull
      rw [SendBuffer.addToBuffer, dif_neg (by rwa [hindex, ← Nat.mul_succ])] at hb
      cases hb
    obtain ⟨b', hb', hdatagram'⟩ := SendBuffer.addToBuffer_encode hdatagram hroom
    cases hb.symm.trans hb'
    rw [hnone (by simp), List.append_nil]
    exact ⟨chunks, _, rfl, hdatagram', by rw [← List.append_assoc, hrecords]⟩
  | encoded c =>
    rw [LiveFeed.step] at h
    rw [hnone (by simp), List.append_nil]
    dsimp only at h
    split at h <;> cases h <;> exact ⟨chunks, last, rfl, hdatagram, hrecords⟩
  | releasing c =>
    cases h
    rw [hnone (by simp), List.append_nil]
    exact ⟨chunks, last, rfl, hdatagram, hrecords⟩
  | advanced c =>
    cases h
    rw [hnone (by simp), List.append_nil]
    exact ⟨chunks, last, rfl, hdatagram, hrecords⟩
  | handedBack c =>
    cases h
    rw [hnone (by simp), List.append_nil]
    exact ⟨chunks, last, rfl, hdatagram, hrecords⟩

theorem Tabled.congr (ht : Tabled f t) (hsnapshot : f'.snapshot = f.snapshot)
    (hqueue : f'.publisher.snapshotMarketUpdateQueue = f.publisher.snapshotMarketUpdateQueue) :
    Tabled f' t := by
  rw [Tabled, hsnapshot, hqueue]
  exact ht

/-- A record is passed on to the queue of the synthesizer. -/
theorem Tabled.publisher (ht : Tabled f t) (hroom : f.phase.released = 1 →
      f.publisher.snapshotMarketUpdateQueue.numElements <
        f.publisher.snapshotMarketUpdateQueue.size)
    (h : f.step host .publisher = .ok f') : Tabled f' t := by
  obtain ⟨p, engine, phase, sent, incremental, snapshot⟩ := f
  cases phase with
  | idle =>
    rw [LiveFeed.step] at h
    dsimp only at h
    split at h <;> cases h <;> exact ht.congr rfl rfl
  | taken c =>
    obtain ⟨p', hp', h⟩ := bind_eq_ok.mp h
    cases h
    obtain ⟨b, -, hp'⟩ := bind_eq_ok.mp hp'
    cases hp'
    exact ht.congr rfl rfl
  | encoded c =>
    rw [LiveFeed.step] at h
    dsimp only at h
    split at h <;> cases h <;> exact ht.congr rfl rfl
  | releasing c => cases h; exact ht.congr rfl rfl
  | advanced c => cases h; exact ht.congr rfl rfl
  | handedBack c =>
    cases h
    obtain ⟨j, hj, hlast, hholds, hbuffer, hqueue, hcount⟩ := ht
    dsimp only at hj hlast hholds hqueue hcount hroom
    have hfree := hroom rfl
    obtain ⟨u, hu⟩ : ∃ u : ClientMarketUpdate,
      u = ⟨p.nextIncSeqNum, p.outgoingMarketUpdateQueue.data c⟩ := ⟨_, rfl⟩
    have hlen : (snapshot ++ [u]).length = snapshot.length + 1 := by
      rw [List.length_append, List.length_singleton]
    have hdrop : (snapshot ++ [u]).drop j = snapshot.drop j ++ [u] :=
      List.drop_append_of_le_length hj
    have hstore := hqueue.store (by rw [List.length_drop]; omega)
      (by rw [List.length_drop]; omega) u
    change Tabled ⟨p.passOn _, _, _, _, _, snapshot ++ [_]⟩ t
    refine ⟨j, ?_, hlast, ?_, hbuffer, ?_, ?_⟩
    · dsimp only
      rw [List.length_append]
      omega
    · rwa [List.take_append_of_le_length hj]
    · dsimp only
      rw [LiveFeed.queue, ← hu, hlen, hdrop]
      exact hu ▸ hstore.advanceWrite.increment
    · dsimp only
      rw [LiveFeed.queue, ← hu, hlen]
      change p.snapshotMarketUpdateQueue.numElements + 1 = _
      omega

/-- The synthesizer takes the next record. -/
theorem Tabled.synthesizer {us passed : List MarketUpdate} {u : ClientMarketUpdate}
    (ht : Tabled f t) (hus : Accommodates [] us) (hpassed : passed <+: us)
    (hsnapshot : f.snapshot = number 1 passed)
    (hnext : f.publisher.snapshotMarketUpdateQueue.nextReadElement = some u)
    (h : t.addToSnapshot u = .ok t') :
    Tabled { f with publisher := { f.publisher with
      snapshotMarketUpdateQueue := f.publisher.snapshotMarketUpdateQueue.pop } } t' := by
  obtain ⟨j, hj, hlast, hholds, hbuffer, hqueue, hcount⟩ := ht
  have hne : f.publisher.snapshotMarketUpdateQueue.numElements ≠ 0 := by
    intro hzero
    rw [LockFreeQueue.nextReadElement, if_pos hzero] at hnext
    cases hnext
  have hlt : j < f.snapshot.length := by omega
  have hlt' : j < passed.length := by rwa [hsnapshot, length_number] at hlt
  have hone : (1 : UInt64) + UInt64.ofNat j = UInt64.ofNat (j + 1) := by
    rw [UInt64.ofNat_add, UInt64.add_comm]
    rfl
  have hget : f.snapshot[j] = ⟨UInt64.ofNat (j + 1), passed[j]⟩ := by
    simp only [hsnapshot]
    rw [getElem_number, List.get_eq_getElem, hone]
  have hcut : f.snapshot.drop j =
      ⟨UInt64.ofNat (j + 1), passed[j]⟩ :: f.snapshot.drop (j + 1) := by
    rw [List.drop_eq_getElem_cons hlt, hget]
  rw [hcut] at hqueue
  obtain rfl := Option.some.inj (hnext.symm.trans (hqueue.nextReadElement hne))
  have hupdates : ∀ n, (f.snapshot.take n).map (·.update) = passed.take n := fun n => by
    rw [hsnapshot, List.map_take, map_update_number]
  -- the update fits the orders of those before it
  have hpre : passed.take j ++ [passed[j]] <+: us := by
    rw [← List.take_succ_eq_append_getElem hlt']
    exact (List.take_prefix _ _).trans hpassed
  obtain ⟨ws, hws⟩ := hpre
  rw [← hws] at hus
  have hfits := accommodates_append.mp (accommodates_append.mp hus).1
  rw [hupdates] at hholds
  obtain ⟨t₁, ht₁, hholds', hlast', hbuffer'⟩ :=
    @SnapshotSynthesizer.addToSnapshot_fits _ _ ⟨UInt64.ofNat (j + 1), passed[j]⟩ hholds
      hfits.2.1.1 hfits.2.1.2
  cases h.symm.trans ht₁
  obtain ⟨hpop, hless⟩ := hqueue.pop hne
  refine ⟨j + 1, hlt, hlast', ?_, by rw [hbuffer', hbuffer], hpop, ?_⟩
  · rw [hupdates, List.take_succ_eq_append_getElem hlt', replay_append]
    exact hholds'
  · dsimp only
    omega

end Threads

section Timer
variable {host : ByteOrder} {f : LiveFeed} {ds : List (List UInt8)} {t : SnapshotSynthesizer}
  {us passed : List MarketUpdate}

theorem Snapshots.mono {vs : List MarketUpdate} (hs : Snapshots host us ds) (hle : us <+: vs) :
    Snapshots host vs ds := by
  intro d hd
  obtain ⟨s, j, hof, hj, rfl⟩ := hs d hd
  exact ⟨s, j, hof.mono hle, hj, rfl⟩

/-- The send buffer is no part of the tables. -/
theorem holds_withBuffer {os : List MarketUpdate} (hholds : t.Holds os) (b : SendBuffer) :
    ({ t with sendBuffer := b } : SnapshotSynthesizer).Holds os := by
  obtain ⟨entries, h, hos⟩ := hholds
  exact ⟨entries, ⟨h.pool, h.size, h.read, h.table, h.bound⟩, hos⟩

/-- A snapshot is published. -/
theorem Tabled.timer (ht : Tabled f t) (hpassed : passed <+: us)
    (hsnapshot : f.snapshot = number 1 passed) (hlt : us.length < 2 ^ 64)
    (hs : Snapshots host us ds) {r : SnapshotSynthesizer × List (List UInt8)}
    (h : t.publishSnapshot host = .ok r) :
    Tabled f r.1 ∧ Snapshots host us (ds ++ r.2) := by
  obtain ⟨j, hj, hlast, hholds, hbuffer, hqueue, hcount⟩ := ht
  obtain ⟨b, parts, hok, -, hparts⟩ := @SnapshotSynthesizer.publishSnapshot_spec host t hbuffer
  cases hok.symm.trans h
  have hj' : j ≤ us.length := by
    rw [hsnapshot, length_number] at hj
    exact hj.trans hpassed.length_le
  obtain ⟨snap, hupdates, hinc⟩ := exists_snapshot hholds (replay_type _)
  have hnat : snap.lastIncSeqNum.toNat = j := by
    rw [hinc, hlast, UInt64.toNat_ofNat', Nat.mod_eq_of_lt (by omega)]
  have hof : SnapshotOf us snap := by
    refine ⟨hnat ▸ hj', t, ?_, hupdates⟩
    obtain ⟨ws, rfl⟩ := hpassed
    rw [hsnapshot, List.map_take, map_update_number] at hholds
    rw [hsnapshot, length_number] at hj
    rwa [hnat, List.take_append_of_le_length hj]
  refine ⟨⟨j, hj, hlast, holds_withBuffer hholds _, rfl, hqueue, hcount⟩, fun d hd => ?_⟩
  rcases List.mem_append.mp hd with hd | hd
  · exact hs d hd
  · have hpart : ∃ part, part ≠ [] ∧ part <+: snap.updates ∧
        d = SnapshotSynthesizer.snapshotBytes host part := by
      rw [hupdates]
      rcases List.mem_append.mp hd with hd | hd
      · obtain ⟨part, hpart, rfl⟩ := List.mem_map.mp hd
        exact ⟨part, (hparts part hpart).1, (hparts part hpart).2, rfl⟩
      · refine ⟨t.messages, ?_, List.prefix_rfl, List.mem_singleton.mp hd⟩
        rw [← hupdates]
        exact List.ne_nil_of_length_pos (by rw [length_updates]; omega)
    obtain ⟨part, hne, hpre, rfl⟩ := hpart
    have hpos := List.length_pos_of_ne_nil hne
    refine ⟨snap, part.length - 1, hof, ?_, ?_⟩
    · have := hpre.length_le
      omega
    · rw [Nat.sub_add_cancel hpos, ← List.prefix_iff_eq_take.mp hpre]

end Timer

section Runs
variable {fuel : Nat} {host client : ByteOrder} {s s' : MarketDataNetwork} {e : NetworkStep}

theorem create_sound (size : Nat) : Sound fuel host (create size) where
  reached := ⟨[], .start⟩
  feed := ⟨[], [], LiveFeed.create_sound size⟩
  written := List.nil_prefix
  linedUp := create_linedUp size
  tabled := create_tabled size
  snapshots _ hd := absurd hd List.not_mem_nil
  incrementalFeed := rfl
  snapshotFeed := rfl
  trails := create_trails

/-- The records so far are of updates that were sent. -/
theorem Sound.records (h : Sound fuel host s) {d : List UInt8} (hd : d ∈ s.incrementals) :
    ∃ cs, d = encode host cs ∧ ∀ u ∈ cs, u ∈ number 1 s.exchange.stream := by
  obtain ⟨chunks, last, hds, -, hrecords⟩ := h.linedUp
  obtain ⟨passed, unread, hsound⟩ := h.feed
  rw [hds] at hd
  obtain ⟨cs, hcs, rfl⟩ := List.mem_map.mp hd
  refine ⟨cs, rfl, fun u hu => ?_⟩
  have hmem : u ∈ s.feed.incremental := by
    rw [← hrecords]
    exact List.mem_append_left _ (List.mem_flatten_of_mem hcs hu)
  have hsent : number 1 (passed ++ unread.take s.feed.phase.held) <+:
      number 1 s.exchange.stream := by
    refine LiveFeed.number_isPrefix 1 (List.IsPrefix.trans ?_
      ((List.prefix_append _ _).trans h.written))
    rw [hsound.sent, List.prefix_append_right_inj]
    exact List.take_prefix _ _
  rw [hsound.incremental] at hmem
  exact hsent.subset hmem

theorem Sound.stream_prefix (h : Sound fuel host s) {passed unread : List MarketUpdate}
    (hsound : s.feed.Sound passed unread) : passed <+: s.exchange.stream := by
  refine List.IsPrefix.trans ?_ ((List.prefix_append _ _).trans h.written)
  rw [hsound.sent]
  exact List.prefix_append _ _

theorem stream_grows {x x' : Exchange} {r : ClientRequestInternal}
    (h : x.processClientRequest fuel r = .ok x') : x.stream <+: x'.stream := by
  obtain ⟨-, c, s', -, -, rfl⟩ := Exchange.processClientRequest_ok h
  exact List.prefix_append _ _

/-- Every step keeps the network sound. -/
theorem Sound.step (hfuel : maxNumOrders < fuel) (h : Sound fuel host s) {e : NetworkStep}
    (hadmits : s.Admits fuel e) (hlt : s'.exchange.stream.length < 2 ^ 64)
    (hstep : step fuel host client s e = .ok s') : Sound fuel host s' := by
  cases e with
  | request r =>
    obtain ⟨x, hx, hs'⟩ := bind_eq_ok.mp hstep
    cases hs'
    obtain ⟨rs, hrs⟩ := h.reached
    have hgrows := stream_grows hx
    exact ⟨⟨_, .call hrs hadmits hx⟩, h.feed, h.written.trans hgrows, h.linedUp, h.tabled,
      h.snapshots.mono hgrows, h.incrementalFeed, h.snapshotFeed, h.trails.mono hgrows⟩
  | engine =>
    obtain ⟨f, hf, hs'⟩ := bind_eq_ok.mp hstep
    cases hs'
    obtain ⟨passed, unread, hsound⟩ := h.feed
    obtain ⟨hsends, hroom, horderly⟩ := hadmits
    obtain ⟨unread', hsound'⟩ := LiveFeed.engine_sound hsound hroom horderly hf
    obtain ⟨-, -, hsnapshot, hqueue⟩ := engine_step hf
    exact ⟨h.reached, ⟨passed, unread', hsound'⟩, engine_written h.written hsends hf,
      h.linedUp.engine hf, h.tabled.congr hsnapshot hqueue, h.snapshots, h.incrementalFeed,
      h.snapshotFeed, h.trails⟩
  | publisher =>
    obtain ⟨f, hf, hs'⟩ := bind_eq_ok.mp hstep
    cases hs'
    obtain ⟨passed, unread, hsound⟩ := h.feed
    obtain ⟨hsent, hengine⟩ := publisher_written hf
    exact ⟨h.reached, LiveFeed.publisher_sound hsound hf, by
        dsimp only
        rw [hsent, hengine]
        exact h.written, h.linedUp.publisher hf,
      h.tabled.publisher hadmits hf, h.snapshots, h.incrementalFeed, h.snapshotFeed, h.trails⟩
  | synthesizer =>
    rw [MarketDataNetwork.step] at hstep
    rcases hnext : s.snapshotQueue.nextReadElement with _ | u
    · rw [hnext] at hstep
      cases hstep
      exact h
    · rw [hnext] at hstep
      obtain ⟨t, ht, hs'⟩ := bind_eq_ok.mp hstep
      cases hs'
      obtain ⟨rs, hrs⟩ := h.reached
      obtain ⟨passed, unread, hsound⟩ := h.feed
      exact ⟨h.reached, ⟨passed, unread, hsound.sent, hsound.holds, hsound.counted, hsound.room,
          hsound.busy, hsound.cell, hsound.numbered, hsound.incremental, hsound.snapshot⟩,
        h.written, h.linedUp, h.tabled.synthesizer (accommodates_stream hfuel hrs)
          (h.stream_prefix hsound) hsound.snapshot hnext ht,
        h.snapshots, h.incrementalFeed, h.snapshotFeed, h.trails⟩
  | timer =>
    obtain ⟨r, hr, hs'⟩ := bind_eq_ok.mp hstep
    cases hs'
    obtain ⟨passed, unread, hsound⟩ := h.feed
    obtain ⟨htabled, hsnapshots⟩ :=
      h.tabled.timer (h.stream_prefix hsound) hsound.snapshot hlt h.snapshots hr
    exact ⟨h.reached, h.feed, h.written, h.linedUp, htabled, hsnapshots, h.incrementalFeed,
      h.snapshotFeed, h.trails⟩
  | incremental k =>
    rw [MarketDataNetwork.step] at hstep
    rcases hk : s.incrementals[k]? with _ | d
    · rw [hk] at hstep
      cases hstep
      exact h
    · rw [hk] at hstep
      cases hstep
      obtain ⟨cs, rfl, hcs⟩ := h.records (List.mem_of_getElem? hk)
      obtain ⟨hread, hoffset⟩ :=
        FeedHandler.onRead_encode host client false h.incrementalFeed s.handler cs
      exact ⟨h.reached, h.feed, h.written, h.linedUp, h.tabled, h.snapshots, hoffset,
        h.snapshotFeed, hread ▸ h.trails.readIncrementals hlt hcs⟩
  | snapshot k =>
    rw [MarketDataNetwork.step] at hstep
    rcases hk : s.snapshots[k]? with _ | d
    · rw [hk] at hstep
      cases hstep
      exact h
    · rw [hk] at hstep
      dsimp only at hstep
      split at hstep
      · rename_i hopen
        cases hstep
        obtain ⟨snap, j, hof, hj, rfl⟩ := h.snapshots d (List.mem_of_getElem? hk)
        obtain ⟨hread, hoffset⟩ := FeedHandler.onRead_encode host client true h.snapshotFeed
          s.handler (number 0 (snap.updates.take (j + 1)))
        exact ⟨h.reached, h.feed, h.written, h.linedUp, h.tabled, h.snapshots, h.incrementalFeed,
          hoffset, hread ▸ h.trails.readSnapshot hlt hopen hof hj⟩
      · cases hstep
        exact h

theorem stream_step (h : s.step fuel host client e = .ok s') :
    s.exchange.stream.length ≤ s'.exchange.stream.length := by
  cases e with
  | request r =>
    obtain ⟨x, hx, hs'⟩ := bind_eq_ok.mp h
    cases hs'
    exact (stream_grows hx).length_le
  | engine =>
    obtain ⟨f, -, hs'⟩ := bind_eq_ok.mp h
    cases hs'
    exact le_rfl
  | publisher =>
    obtain ⟨f, -, hs'⟩ := bind_eq_ok.mp h
    cases hs'
    exact le_rfl
  | synthesizer =>
    rw [MarketDataNetwork.step] at h
    split at h
    · cases h
      exact le_rfl
    · obtain ⟨t, -, hs'⟩ := bind_eq_ok.mp h
      cases hs'
      exact le_rfl
  | timer =>
    obtain ⟨r, -, hs'⟩ := bind_eq_ok.mp h
    cases hs'
    exact le_rfl
  | incremental k =>
    rw [MarketDataNetwork.step] at h
    split at h <;> cases h <;> exact le_rfl
  | snapshot k =>
    rw [MarketDataNetwork.step] at h
    split at h
    · cases h
      exact le_rfl
    · split at h <;> cases h <;> exact le_rfl

/-- As long as the numbers of the updates have not come round. -/
theorem reached_sound {size : Nat} {es : List NetworkStep} (hfuel : maxNumOrders < fuel)
    (h : Reached (step fuel host client) (Admits fuel) (create size) es s)
    (hlt : s.exchange.stream.length < 2 ^ 64) : Sound fuel host s := by
  refine h.invariant (P := fun s => s.exchange.stream.length < 2 ^ 64 → Sound fuel host s)
    (fun _ => create_sound size) ?_ hlt
  intro s e s' hs hadmits hstep hlt'
  exact (hs (Nat.lt_of_le_of_lt (stream_step hstep) hlt')).step hfuel hadmits hlt' hstep

end Runs

section Books
variable {os us vs : List MarketUpdate} {t : SnapshotSynthesizer} {s : Snapshot}

theorem foldl_adds (htype : ∀ o ∈ vs, o.type = .add) : vs.foldl apply os = os ++ vs := by
  induction vs generalizing os with
  | nil => rw [List.foldl_nil, List.append_nil]
  | cons v vs ih =>
    rw [List.foldl_cons, apply_add (htype v List.mem_cons_self),
      ih fun o ho => htype o (List.mem_cons_of_mem v ho), List.append_assoc]
    rfl

/-- Each `CLEAR` takes away what a reader had of its instrument. -/
theorem replay_instruments (hholds : t.Holds us) (htype : ∀ o ∈ us, o.type = .add)
    (os : List MarketUpdate) {n : Nat} (hn : n ≤ 256) :
    ((List.range n).flatMap fun i => SnapshotSynthesizer.clearUpdate i :: t.stored i).foldl
      apply os = (os.filter fun o => n ≤ o.instrumentId.toNat) ++
        (List.range n).flatMap t.stored := by
  induction n with
  | zero => simp
  | succ n ih =>
    have hnat : (UInt8.ofNat n).toNat = n := by
      rw [UInt8.toNat_ofNat', Nat.mod_eq_of_lt (by omega)]
    have hrest : ((os.filter fun o => n ≤ o.instrumentId.toNat).filter fun o =>
        ¬ o.instrumentId = UInt8.ofNat n) =
          os.filter fun o => n + 1 ≤ o.instrumentId.toNat := by
      rw [List.filter_filter]
      refine List.filter_congr fun o _ => ?_
      rw [← Bool.decide_and]
      refine decide_eq_decide.mpr ⟨fun ⟨hne, hle⟩ => ?_, fun hle => ⟨fun heq => ?_, by omega⟩⟩
      · refine Nat.lt_of_le_of_ne hle fun heq => hne ?_
        rw [heq, UInt8.ofNat_toNat]
      · rw [heq, hnat] at hle
        omega
    have hkept : (((List.range n).flatMap t.stored).filter fun o =>
        ¬ o.instrumentId = UInt8.ofNat n) = (List.range n).flatMap t.stored := by
      refine List.filter_eq_self.mpr fun o ho => decide_eq_true fun heq => ?_
      obtain ⟨i, hi, ho⟩ := List.mem_flatMap.mp ho
      have hlt := List.mem_range.mp hi
      have hown := (hholds.mem_stored.mp ho).2
      rw [heq, hnat] at hown
      omega
    rw [List.range_succ, List.flatMap_append, List.flatMap_append, List.foldl_append,
      ih (by omega), List.flatMap_singleton, List.flatMap_singleton, List.foldl_cons,
      apply_clear rfl, SnapshotSynthesizer.clearUpdate, List.filter_append, hrest, hkept,
      foldl_adds fun o ho => htype o (hholds.mem_stored.mp ho).1, List.append_assoc]

theorem content_eq (hs : s.updates = t.messages) : s.content =
    (List.range maxNumInstruments).flatMap fun i =>
      SnapshotSynthesizer.clearUpdate i :: t.stored i := by
  rw [Snapshot.updates, SnapshotSynthesizer.messages, List.cons_append, List.cons_append] at hs
  exact (List.append_inj' (List.cons.inj hs).2 rfl).1

/-- Whatever a reader had, the content of a snapshot leaves it with the orders of the tables. -/
theorem replay_content (hholds : t.Holds us) (htype : ∀ o ∈ us, o.type = .add)
    (hs : s.updates = t.messages) (hos : ∀ o ∈ os, o.instrumentId.toNat < maxNumInstruments) :
    s.content.foldl apply os = t.liveOrders := by
  rw [content_eq hs, replay_instruments hholds htype os (by decide)]
  have hnone : (os.filter fun o => maxNumInstruments ≤ o.instrumentId.toNat) = [] := by
    refine List.filter_eq_nil_iff.mpr fun o ho hle => ?_
    have := hos o ho
    have := of_decide_eq_true hle
    omega
  rw [hnone, List.nil_append]
  rfl

theorem fitsAll_named (h : FitsAll os us) :
    ∀ u ∈ us, u.instrumentId.toNat < maxNumInstruments := by
  induction us generalizing os with
  | nil => exact fun u hu => absurd hu List.not_mem_nil
  | cons v us ih =>
    intro u hu
    rcases List.mem_cons.mp hu with rfl | hu
    · exact h.1.instrument
    · exact ih h.2 u hu

/-- What has been passed on tells of the books after the first `n` updates. -/
theorem conveys_sameBooks {h : FeedHandler} {n : Nat} (hus : Accommodates [] us)
    (hqueued : ∀ k, Queued (replay (us.take k))) (hc : Conveys us h n) :
    SameBooks (replay (us.take n)) (replay h.incomingUpdates) := by
  have hvalid : ValidReplay us := hus.fitsAll
  rw [Conveys] at hc
  split at hc
  · obtain ⟨n₀, -, s, ⟨-, t, hholds, hupdates⟩, hlast, hincoming⟩ := hc
    have hcontent := replay_content hholds (replay_type _) hupdates
      (hus.take n₀).instrument
    have htail : FitsAll (replay (us.take s.lastIncSeqNum.toNat))
        ((us.take n).drop s.lastIncSeqNum.toNat) := by
      have hfits := (hvalid.take n).drop s.lastIncSeqNum.toNat
      rwa [List.take_take, Nat.min_eq_left hlast] at hfits
    have hall : replay (us.take n) = ((us.take n).drop s.lastIncSeqNum.toNat).foldl apply
        (replay (us.take s.lastIncSeqNum.toNat)) := by
      have htake : us.take s.lastIncSeqNum.toNat = (us.take n).take s.lastIncSeqNum.toNat := by
        rw [List.take_take, Nat.min_eq_left hlast]
      rw [htake, ← replay_append, List.take_append_drop]
    rw [hincoming, replay_append, List.foldl_append, hcontent, hall]
    exact (hholds.sameBooks (hqueued _)).applyAll (distinct_replay (hvalid.take _)) htail
  · rw [hc]
    exact fun _ _ _ => rfl

end Books

section Safety
variable {fuel size : Nat} {host client : ByteOrder} {s : MarketDataNetwork}
  {es : List NetworkStep}

/-- The steps in which an update is written and sent. -/
def written : List NetworkStep := List.replicate 3 .engine ++ List.replicate 7 .publisher

/-- The first datagram is lost; a snapshot of the first update arrives after the second. -/
def lostDatagram : List NetworkStep :=
  [.request ⟨.new, 1, 0, 1, .sell, 12, 8⟩] ++ written ++
    [.request ⟨.new, 1, 3, 1, .buy, 20, 4⟩] ++ written ++
    [.incremental 1, .synthesizer, .timer, .snapshot 1]

end Safety

end MarketDataNetwork

end StockExchange
