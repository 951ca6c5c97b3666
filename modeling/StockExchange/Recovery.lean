import StockExchange.FeedHandler

/-!
# Recovery from a gap

Messages of both streams reach the handler in any order, some of them twice and some never.
As long as the messages of different snapshots do not meet in the queue, what the handler
passes on when it leaves recovery is one snapshot and the updates that follow it.
-/

namespace StockExchange

open Transitions QueuedMarketUpdates

/-- The messages of one snapshot are START, the content and END. -/
structure Snapshot where
  lastIncSeqNum : UInt64
  content : List MarketUpdate
  plain : ∀ u ∈ content, u.type ≠ .snapshotEnd
  size_lt : content.length + 2 < 2 ^ 64

def Snapshot.updates (s : Snapshot) : List MarketUpdate :=
  { MarketUpdate.default with type := .snapshotStart, orderId := s.lastIncSeqNum } :: s.content ++
    [{ MarketUpdate.default with type := .snapshotEnd, orderId := s.lastIncSeqNum }]

def Snapshot.messages (s : Snapshot) : List ClientMarketUpdate := number 0 s.updates

/-- Everything that is published, the numbers of the updates not having come round. -/
structure PublishedFeed where
  updates : List MarketUpdate
  snapshots : List Snapshot
  updates_lt : updates.length < 2 ^ 64

inductive SocketMessage where
  | snapshot (u : ClientMarketUpdate)
  | incremental (u : ClientMarketUpdate)

namespace FeedHandler

def receive (h : FeedHandler) : SocketMessage → FeedHandler
  | .snapshot u => h.readUpdate true u
  | .incremental u => h.readUpdate false u

def step (h : FeedHandler) (d : SocketMessage) : Except Fault FeedHandler := .ok (h.receive d)

/-- A message of one of the streams is delivered. -/
def Delivered (feed : PublishedFeed) : SocketMessage → Prop
  | .snapshot u => ∃ s ∈ feed.snapshots, u ∈ s.messages
  | .incremental u => u ∈ number 1 feed.updates

/-- The queued snapshot messages that `u` meets. -/
def meets (h : FeedHandler) (u : ClientMarketUpdate) : QueuedMarketUpdates :=
  if h.inRecovery then
    if contains h.snapshotQueuedMsgs u.sequenceNumber then [] else h.snapshotQueuedMsgs
  else []

/-- A snapshot message meets only messages of its own snapshot in the queue. -/
def Orderly (feed : PublishedFeed) (h : FeedHandler) : SocketMessage → Prop
  | .snapshot u => ∃ s ∈ feed.snapshots, u ∈ s.messages ∧ ∀ e ∈ h.meets u, e ∈ s.messages
  | .incremental u => u ∈ number 1 feed.updates

/-- One whole snapshot is passed on, and then the updates behind it without a gap. -/
def Recovers (feed : PublishedFeed) (h h' : FeedHandler) : Prop :=
  ∃ s ∈ feed.snapshots, ∃ tail, tail <+: feed.updates.drop s.lastIncSeqNum.toNat ∧
    h'.incomingUpdates = h.incomingUpdates ++ (s.content ++ tail) ∧
    h'.nextExpectedSeq = UInt64.ofNat (s.lastIncSeqNum.toNat + tail.length + 1)

/-- Nothing is passed on, or the update with the expected number. -/
def Continues (feed : PublishedFeed) (h h' : FeedHandler) : Prop :=
  h'.incomingUpdates = h.incomingUpdates ∧ h'.nextExpectedSeq = h.nextExpectedSeq ∨
  ∃ k u, h.nextExpectedSeq = UInt64.ofNat (k + 1) ∧ feed.updates[k]? = some u ∧
    h'.incomingUpdates = h.incomingUpdates ++ [u] ∧ h'.nextExpectedSeq = UInt64.ofNat (k + 2)

/-- The queued snapshot messages are of one snapshot. -/
structure Sound (feed : PublishedFeed) (h : FeedHandler) : Prop where
  snapshot : h.snapshotQueuedMsgs ≠ [] →
    ∃ s ∈ feed.snapshots, ∀ e ∈ h.snapshotQueuedMsgs, e ∈ s.messages
  incremental : ∀ e ∈ h.incrementalQueuedMsgs, e ∈ number 1 feed.updates

section Queues
variable {us vs : List MarketUpdate} {m : QueuedMarketUpdates} {e : ClientMarketUpdate}

theorem ofNat_inj_of_lt {a b : Nat} (ha : a < 2 ^ 64) (hb : b < 2 ^ 64)
    (h : UInt64.ofNat a = UInt64.ofNat b) : a = b := by
  have hnat := congrArg UInt64.toNat h
  rwa [UInt64.toNat_ofNat', UInt64.toNat_ofNat', Nat.mod_eq_of_lt ha, Nat.mod_eq_of_lt hb] at hnat

theorem mem_number {n : UInt64} (h : e ∈ number n us) :
    ∃ k, ∃ hk : k < us.length, e.sequenceNumber = n + UInt64.ofNat k ∧ e.update = us[k] := by
  obtain ⟨k, hk, rfl⟩ := List.mem_iff_getElem.mp h
  rw [length_number] at hk
  exact ⟨k, hk, by rw [getElem_number], by rw [getElem_number, List.get_eq_getElem]⟩

/-- Without a gap the queue is a run of the messages. -/
theorem synchronizeSnapshot_take (hlt : us.length < 2 ^ 64) {a : Nat} (ha : a ≤ us.length)
    (hmem : ∀ e ∈ m, e ∈ number 0 us) (h : synchronizeSnapshot (UInt64.ofNat a) m = some vs) :
    m = ((number 0 us).drop a).take m.length := by
  induction m generalizing a vs with
  | nil => rw [List.length_nil, List.take_zero]
  | cons e m ih =>
    rw [synchronizeSnapshot] at h
    split at h
    · cases h
    · rename_i hseq
      obtain ⟨ws, hws, -⟩ := Option.map_eq_some_iff.mp h
      obtain ⟨k, hk, hnumber, hupdate⟩ := mem_number (hmem e List.mem_cons_self)
      have hka : k = a := by
        apply ofNat_inj_of_lt (by omega) (by omega)
        rw [← not_not.mp hseq, hnumber, UInt64.zero_add]
      subst hka
      have hlen : k < (number 0 us).length := by rwa [length_number]
      have hhead : (number 0 us)[k] = e := by
        rw [getElem_number, List.get_eq_getElem]
        obtain ⟨seq, u⟩ := e
        rw [← hnumber, ← hupdate]
      have hnext : UInt64.ofNat k + 1 = UInt64.ofNat (k + 1) := (UInt64.ofNat_add k 1).symm
      rw [List.drop_eq_getElem_cons hlen, hhead, List.length_cons, List.take_succ_cons,
        ← ih hk (fun d hd => hmem d (List.mem_cons_of_mem e hd)) (hnext ▸ hws)]

/-- Plain updates behind the first message are all kept. -/
theorem synchronizeSnapshot_plain (hplain : ∀ u ∈ us, u.type ≠ .snapshotEnd) {a : Nat}
    (hpos : 0 < a) (hlt : a + us.length < 2 ^ 64) (m : QueuedMarketUpdates) :
    synchronizeSnapshot (UInt64.ofNat a) (number (UInt64.ofNat a) us ++ m) =
      (synchronizeSnapshot (UInt64.ofNat (a + us.length)) m).map (us ++ ·) := by
  induction us generalizing a with
  | nil =>
    simp only [number, List.nil_append, List.length_nil, Nat.add_zero]
    exact Option.map_id'.symm
  | cons u us ih =>
    rw [List.length_cons] at hlt
    have hne : UInt64.ofNat a ≠ 0 := fun hzero =>
      Nat.ne_of_gt hpos (ofNat_inj_of_lt (by omega) (by decide) hzero)
    have hkeep : UInt64.ofNat a ≠ 0 ∧ u.type ≠ .snapshotEnd :=
      ⟨hne, hplain u List.mem_cons_self⟩
    have hnext : UInt64.ofNat a + 1 = UInt64.ofNat (a + 1) := (UInt64.ofNat_add a 1).symm
    rw [number, List.cons_append, synchronizeSnapshot, if_neg (not_not.mpr rfl), hnext,
      ih (fun v hv => hplain v (List.mem_cons_of_mem u hv)) (Nat.succ_pos a) (by omega),
      Option.map_map, List.length_cons, Nat.add_assoc a 1, Nat.add_comm 1 us.length]
    simp only [Function.comp_def, if_pos hkeep, List.cons_append]

theorem length_updates (s : Snapshot) : s.updates.length = s.content.length + 2 := by
  rw [Snapshot.updates, List.length_append, List.length_cons, List.length_singleton]

/-- Only the last message of a snapshot is END. -/
theorem end_last (s : Snapshot) {i : Nat} (hi : i < s.updates.length)
    (hend : s.updates[i].type = .snapshotEnd) : i = s.content.length + 1 := by
  have hlen := length_updates s
  rcases i with _ | j
  · exact absurd hend (by decide : MarketUpdateType.snapshotStart ≠ .snapshotEnd)
  · by_cases hj : j < s.content.length
    · have hcontent : s.updates[j + 1] = s.content[j] := List.getElem_append_left hj
      exact absurd hend (hcontent ▸ s.plain _ (List.getElem_mem hj))
    · omega

/-- The whole of a snapshot has no gap. -/
theorem synchronizeSnapshot_messages (s : Snapshot) :
    synchronizeSnapshot 0 s.messages = some s.content := by
  have hsize := s.size_lt
  have hplain := synchronizeSnapshot_plain s.plain Nat.one_pos (by omega)
    (number (1 + UInt64.ofNat s.content.length)
      [{ MarketUpdate.default with type := .snapshotEnd, orderId := s.lastIncSeqNum }])
  have hone : UInt64.ofNat 1 = 1 := rfl
  have hnext : UInt64.ofNat (1 + s.content.length) = 1 + UInt64.ofNat s.content.length :=
    UInt64.ofNat_add 1 _
  rw [hone, ← number_append, hnext, number, number, synchronizeSnapshot, synchronizeSnapshot,
    if_neg (not_not.mpr rfl), Option.map_some, if_neg fun h => h.2 rfl, Option.map_some,
    List.append_nil] at hplain
  rw [Snapshot.messages, Snapshot.updates, List.cons_append, number, synchronizeSnapshot,
    if_neg (not_not.mpr rfl), UInt64.zero_add, hplain, Option.map_some,
    if_neg fun h => h.1 rfl]

/-- A queue of messages of a snapshot that has no gap and ends with END is all of it. -/
theorem synchronizeSnapshot_whole {s : Snapshot} (hmem : ∀ e ∈ m, e ∈ s.messages)
    (h : synchronizeSnapshot 0 m = some vs) {last : ClientMarketUpdate}
    (hlast : m.getLast? = some last) (hend : last.update.type = .snapshotEnd) :
    vs = s.content ∧ 2 ≤ m.length ∧ last.update.orderId = s.lastIncSeqNum := by
  have hlen := length_updates s
  have hsize := s.size_lt
  have hmessages : s.messages.length = s.content.length + 2 := by
    rw [Snapshot.messages, length_number, hlen]
  have htake := synchronizeSnapshot_take (a := 0) (hlen ▸ hsize) (Nat.zero_le _) hmem h
  rw [List.drop_zero] at htake
  have hpos : 0 < m.length := List.length_pos_of_mem (List.mem_of_getLast? hlast)
  have hle : m.length ≤ s.content.length + 2 := by
    have hcount := congrArg List.length htake
    rw [List.length_take, length_number, hlen] at hcount
    omega
  -- the queue is a run from the beginning that ends with END
  have hlast' : m.length - 1 < s.updates.length := by omega
  have hupdate : last.update = s.updates[m.length - 1] := by
    have hget : m[m.length - 1]? = ((number 0 s.updates).take m.length)[m.length - 1]? :=
      congrArg (·[m.length - 1]?) htake
    rw [← List.getLast?_eq_getElem?, hlast, List.getElem?_take_of_lt (by omega)] at hget
    obtain ⟨hi, hget⟩ := List.getElem?_eq_some_iff.mp hget.symm
    rw [← hget, getElem_number, List.get_eq_getElem]
  have hfull := end_last s (by omega) (hupdate ▸ hend)
  have hm : m = s.messages := by
    rw [htake, Snapshot.messages, List.take_of_length_le]
    rw [length_number, hlen]
    omega
  rw [hm, synchronizeSnapshot_messages] at h
  have hlast' : last.update =
      { MarketUpdate.default with type := .snapshotEnd, orderId := s.lastIncSeqNum } := by
    apply Option.some.inj
    rw [← Option.map_some, ← hlast, ← List.getLast?_map, hm, Snapshot.messages,
      map_update_number]
    exact List.getLast?_concat
  exact ⟨(Option.some.inj h).symm, by omega, by rw [hlast']⟩

/-- Without a gap, what is found from the expected number on are the updates behind it. -/
theorem synchronizeIncremental_prefix (hlt : us.length < 2 ^ 64) {a : Nat} (ha : a < 2 ^ 64)
    (hmem : ∀ e ∈ m, e ∈ number 1 us) {next : UInt64}
    (h : synchronizeIncremental (UInt64.ofNat (a + 1)) m = (next, some vs)) :
    vs <+: us.drop a ∧ next = UInt64.ofNat (a + vs.length + 1) := by
  induction m generalizing a vs with
  | nil =>
    cases h
    exact ⟨List.nil_prefix, rfl⟩
  | cons e m ih =>
    have hrest : ∀ d ∈ m, d ∈ number 1 us := fun d hd => hmem d (List.mem_cons_of_mem e hd)
    rw [synchronizeIncremental] at h
    split at h
    · exact ih ha hrest h
    · split at h
      · cases h
      · rename_i hseq
        obtain ⟨k, hk, hnumber, hupdate⟩ := mem_number (hmem e List.mem_cons_self)
        have hka : k = a := by
          have heq : UInt64.ofNat (a + 1) = UInt64.ofNat (k + 1) := by
            rw [← not_not.mp hseq, hnumber, UInt64.add_comm, UInt64.ofNat_add]
            rfl
          by_cases hwrap : a + 1 < 2 ^ 64
          · exact Nat.succ.inj (ofNat_inj_of_lt hwrap (by omega) heq).symm
          · have hround : a + 1 = 2 ^ 64 := by omega
            have hnat := congrArg UInt64.toNat heq
            rw [UInt64.toNat_ofNat', UInt64.toNat_ofNat', hround, Nat.mod_self,
              Nat.mod_eq_of_lt (by omega)] at hnat
            omega
        subst hka
        have hnext : UInt64.ofNat (k + 1) + 1 = UInt64.ofNat (k + 1 + 1) :=
          (UInt64.ofNat_add (k + 1) 1).symm
        rw [hnext] at h
        obtain ⟨hnext', hsome⟩ := Prod.mk.inj h
        obtain ⟨ws, hws, rfl⟩ := Option.map_eq_some_iff.mp hsome
        have hr : synchronizeIncremental (UInt64.ofNat (k + 1 + 1)) m = (next, some ws) :=
          Prod.ext hnext' hws
        obtain ⟨hstart, hnext''⟩ := ih (by omega) hrest hr
        refine ⟨?_, ?_⟩
        · rw [List.drop_eq_getElem_cons hk, hupdate]
          exact List.cons_prefix_cons.mpr ⟨rfl, hstart⟩
        · rw [hnext'', List.length_cons]
          congr 1
          omega

end Queues

section Steps
variable {feed : PublishedFeed} {h h' : FeedHandler}

/-- A look at the queues drops the snapshot, keeps everything, or ends the recovery. -/
theorem sync_cases (h : FeedHandler) :
    (∃ next q, h.syncSnapshotWithIncremental =
        { h with nextExpectedSeq := next, snapshotQueuedMsgs := q } ∧
      (q = [] ∨ q = h.snapshotQueuedMsgs)) ∨
    ∃ content last next updates, h.snapshotQueuedMsgs.getLast? = some last ∧
      last.update.type = .snapshotEnd ∧
      synchronizeSnapshot 0 h.snapshotQueuedMsgs = some content ∧
      synchronizeIncremental (last.update.orderId + 1) h.incrementalQueuedMsgs =
        (next, some updates) ∧
      h.syncSnapshotWithIncremental = h.leaveRecovery next (content ++ updates) := by
  rw [syncSnapshotWithIncremental]
  split
  · rename_i first last hfirst hlast
    split
    · exact .inl ⟨_, _, rfl, .inl rfl⟩
    · split
      · exact .inl ⟨_, _, rfl, .inl rfl⟩
      · rename_i content hcontent
        split
        · exact .inl ⟨_, _, rfl, .inr rfl⟩
        · rename_i hend
          split
          · exact .inl ⟨_, _, rfl, .inl rfl⟩
          · rename_i next updates hupdates
            exact .inr ⟨content, last, next, updates, hlast, not_not.mp hend, hcontent, hupdates,
              rfl⟩
  · exact .inl ⟨_, _, rfl, .inr rfl⟩

/-- What the handler does with its queues while it is in recovery. -/
theorem sync_sound (hsound : h.Sound feed) (hrecovery : h.inRecovery = true) :
    h.syncSnapshotWithIncremental.Sound feed ∧
    (h.syncSnapshotWithIncremental.inRecovery = true →
      h.syncSnapshotWithIncremental.incomingUpdates = h.incomingUpdates) ∧
    (h.syncSnapshotWithIncremental.inRecovery = false →
      2 ≤ h.snapshotQueuedMsgs.length ∧ Recovers feed h h.syncSnapshotWithIncremental) := by
  rcases sync_cases h with ⟨next, q, heq, hq⟩ | ⟨content, last, next, updates, hlast, hend,
    hcontent, hupdates, heq⟩
  · rw [heq]
    refine ⟨⟨fun hne => ?_, hsound.incremental⟩, fun _ => rfl, fun hleft => ?_⟩
    · dsimp only at hne ⊢
      rcases hq with rfl | rfl
      · exact absurd rfl hne
      · exact hsound.snapshot hne
    · exact absurd (hrecovery.symm.trans hleft) Bool.noConfusion
  · rw [heq]
    obtain ⟨s, hs, hmem⟩ := hsound.snapshot (List.ne_nil_of_mem (List.mem_of_getLast? hlast))
    obtain ⟨rfl, hlen, hlastInc⟩ := synchronizeSnapshot_whole hmem hcontent hlast hend
    have hnext : s.lastIncSeqNum + 1 = UInt64.ofNat (s.lastIncSeqNum.toNat + 1) := by
      rw [UInt64.ofNat_add, UInt64.ofNat_toNat]
      rfl
    rw [hlastInc, hnext] at hupdates
    obtain ⟨hstart, rfl⟩ := synchronizeIncremental_prefix feed.updates_lt
      s.lastIncSeqNum.toNat_lt hsound.incremental hupdates
    exact ⟨⟨fun hne => absurd rfl hne, nofun⟩, fun hleft => absurd hleft.symm Bool.noConfusion,
      fun _ => ⟨hlen, s, hs, updates, hstart, rfl, rfl⟩⟩

/-- What comes of a message that is queued. -/
structure Queued (feed : PublishedFeed) (h h' : FeedHandler) : Prop where
  sound : h'.Sound feed
  waits : h'.inRecovery = true → h'.incomingUpdates = h.incomingUpdates
  leaves : h'.inRecovery = false → h.snapshotQueuedMsgs ≠ [] ∧ Recovers feed h h'

theorem queue_snapshot {u : ClientMarketUpdate} (hsound : h.Sound feed)
    (hrecovery : h.inRecovery = true) (horderly : h.Orderly feed (.snapshot u)) :
    Queued feed h (h.queueMessage true u) := by
  obtain ⟨s, hs, hu, hmeets⟩ := horderly
  rw [meets, if_pos hrecovery] at hmeets
  rw [queueMessage, if_pos rfl]
  generalize hq : (if contains h.snapshotQueuedMsgs u.sequenceNumber then []
    else h.snapshotQueuedMsgs) = q at hmeets
  obtain ⟨hsound', hwaits, hleaves⟩ := @sync_sound feed
    { h with snapshotQueuedMsgs := emplace u q }
    ⟨fun _ => ⟨s, hs, fun e he => (mem_emplace he).elim (fun heq => heq ▸ hu) (hmeets e)⟩,
      hsound.incremental⟩ hrecovery
  refine ⟨hsound', hwaits, fun hleft => ?_⟩
  obtain ⟨hlen, hrecovers⟩ := hleaves hleft
  refine ⟨?_, hrecovers⟩
  rintro hnil
  rw [hnil, ite_self] at hq
  subst hq
  change 2 ≤ (emplace u []).length at hlen
  rw [emplace, List.length_singleton] at hlen
  omega

theorem queue_incremental {u : ClientMarketUpdate} (hsound : h.Sound feed)
    (hrecovery : h.inRecovery = true) (horderly : h.Orderly feed (.incremental u)) :
    Queued feed h (h.queueMessage false u) := by
  rw [queueMessage, if_neg Bool.false_ne_true]
  obtain ⟨hsound', hwaits, hleaves⟩ := @sync_sound feed
    { h with incrementalQueuedMsgs := emplace u h.incrementalQueuedMsgs }
    ⟨hsound.snapshot, fun e he => (mem_emplace he).elim (fun heq => heq ▸ horderly)
      (hsound.incremental e)⟩ hrecovery
  refine ⟨hsound', hwaits, fun hleft => ?_⟩
  obtain ⟨hlen, hrecovers⟩ := hleaves hleft
  exact ⟨List.ne_nil_of_length_pos (Nat.lt_of_lt_of_le Nat.two_pos hlen), hrecovers⟩

theorem queue_sound {d : SocketMessage} (hsound : h.Sound feed) (hrecovery : h.inRecovery = true)
    (horderly : h.Orderly feed d) : Queued feed h (h.receive d) := by
  cases d with
  | snapshot u =>
    rw [receive, readUpdate, if_pos hrecovery]
    exact queue_snapshot hsound hrecovery horderly
  | incremental u =>
    rw [receive, readUpdate, if_pos hrecovery]
    exact queue_incremental hsound hrecovery horderly

/-- What one delivery may do. -/
structure Outcome (feed : PublishedFeed) (h h' : FeedHandler) : Prop where
  waits : h'.inRecovery = true → h'.incomingUpdates = h.incomingUpdates
  recovers : h.inRecovery = true → h'.inRecovery = false → Recovers feed h h'
  continues : h.inRecovery = false → h'.inRecovery = false → Continues feed h h'

/-- A message with another number than the expected one starts a recovery. -/
theorem gap_sound {d : SocketMessage} {isSnapshot : Bool} {u : ClientMarketUpdate}
    (hd : d = cond isSnapshot (.snapshot u) (.incremental u)) (horderly : h.Orderly feed d)
    (hrecovery : h.inRecovery = false) :
    (h.enterRecovery.queueMessage isSnapshot u).Sound feed ∧
      Outcome feed h (h.enterRecovery.queueMessage isSnapshot u) := by
  have hsound : h.enterRecovery.Sound feed := ⟨fun hne => absurd rfl hne, nofun⟩
  have hqueued : Queued feed h.enterRecovery (h.enterRecovery.queueMessage isSnapshot u) := by
    cases isSnapshot with
    | true =>
      subst hd
      obtain ⟨s, hs, hu, -⟩ := horderly
      exact queue_snapshot hsound rfl ⟨s, hs, hu, by simp [meets, enterRecovery, contains]⟩
    | false =>
      subst hd
      exact queue_incremental hsound rfl horderly
  refine ⟨hqueued.sound, hqueued.waits, fun htrue => ?_, fun _ hleft => ?_⟩
  · exact absurd (hrecovery.symm.trans htrue) Bool.noConfusion
  · exact absurd rfl (hqueued.leaves hleft).1

theorem receive_sound {d : SocketMessage} (hsound : h.Sound feed) (horderly : h.Orderly feed d) :
    (h.receive d).Sound feed ∧ Outcome feed h (h.receive d) := by
  by_cases hrecovery : h.inRecovery = true
  · have hqueued := queue_sound hsound hrecovery horderly
    refine ⟨hqueued.sound, hqueued.waits, fun _ hleft => (hqueued.leaves hleft).2, fun hfalse => ?_⟩
    exact absurd (hrecovery.symm.trans hfalse) Bool.noConfusion
  · have hfalse : h.inRecovery = false := Bool.eq_false_iff.mpr hrecovery
    have hquiet : Outcome feed h h := ⟨fun _ => rfl,
      fun htrue => absurd (hfalse.symm.trans htrue) Bool.noConfusion, fun _ _ => .inl ⟨rfl, rfl⟩⟩
    cases d with
    | snapshot u =>
      rw [receive, readUpdate, if_neg hrecovery]
      split
      · exact gap_sound rfl horderly hfalse
      · exact ⟨hsound, hquiet⟩
    | incremental u =>
      rw [receive, readUpdate, if_neg hrecovery]
      split
      · exact gap_sound rfl horderly hfalse
      · rename_i hseq
        obtain ⟨k, hk, hnumber, hupdate⟩ := mem_number horderly
        have hexpected : h.nextExpectedSeq = UInt64.ofNat (k + 1) := by
          rw [← not_not.mp hseq, hnumber, UInt64.add_comm, UInt64.ofNat_add]
          rfl
        refine ⟨⟨hsound.snapshot, hsound.incremental⟩, fun htrue => ?_, fun htrue => ?_,
          fun _ _ => .inr ⟨k, u.update, hexpected, ?_, rfl, ?_⟩⟩
        · exact absurd (hfalse.symm.trans htrue) Bool.noConfusion
        · exact absurd (hfalse.symm.trans htrue) Bool.noConfusion
        · rw [List.getElem?_eq_getElem hk, hupdate]
        · change h.nextExpectedSeq + 1 = _
          rw [hexpected]
          exact (UInt64.ofNat_add (k + 1) 1).symm

end Steps

section Runs
variable {feed : PublishedFeed} {ds : List SocketMessage} {h : FeedHandler}

/-- In an orderly run, the handler leaves recovery only with one snapshot and the updates
behind it, and passes on consecutive updates outside. -/
theorem orderly_recovers (hreached : Reached step (Orderly feed) create ds h) {d : SocketMessage}
    (horderly : h.Orderly feed d) : Outcome feed h (h.receive d) := by
  have hsound : h.Sound feed := by
    refine hreached.invariant (P := Sound feed)
      ⟨fun hne => absurd rfl hne, fun _ he => absurd he List.not_mem_nil⟩ ?_
    intro h d h' hsound horderly hstep
    cases hstep
    exact (receive_sound hsound horderly).1
  exact (receive_sound hsound horderly).2

/-- What the synthesizer publishes is such a snapshot. -/
theorem exists_snapshot {s : SnapshotSynthesizer} {os : List MarketUpdate} (hholds : s.Holds os)
    (htype : ∀ o ∈ os, o.type = .add) :
    ∃ snap : Snapshot, snap.updates = s.messages ∧ snap.lastIncSeqNum = s.lastIncSeqNum := by
  have hlen := s.length_messages
  have hlive := s.length_liveOrders_le
  have hbound : maxNumOrders * maxNumInstruments + maxNumInstruments + 2 < 2 ^ 64 := by decide
  refine ⟨⟨s.lastIncSeqNum, (List.range maxNumInstruments).flatMap fun i =>
    SnapshotSynthesizer.clearUpdate i :: s.stored i, fun u hu => ?_, ?_⟩, rfl, rfl⟩
  · obtain ⟨i, -, hu⟩ := List.mem_flatMap.mp hu
    rcases List.mem_cons.mp hu with rfl | hu
    · exact (by decide : MarketUpdateType.clear ≠ .snapshotEnd)
    · rw [htype u (hholds.mem_stored.mp hu).1]
      decide
  · rw [SnapshotSynthesizer.messages, List.length_append, List.length_cons,
      List.length_singleton] at hlen
    omega

end Runs

section MixedSnapshots

/-- The snapshot of one order of instrument 0. -/
def oneOrder (lastIncSeqNum : UInt64) (o : MarketUpdate) (h : o.type ≠ .snapshotEnd) :
    Snapshot where
  lastIncSeqNum := lastIncSeqNum
  content := SnapshotSynthesizer.clearUpdate 0 :: o ::
    (List.range' 1 7).map SnapshotSynthesizer.clearUpdate
  plain u hu := by
    rcases List.mem_cons.mp hu with rfl | hu
    · decide
    · rcases List.mem_cons.mp hu with rfl | hu
      · exact h
      · obtain ⟨i, -, rfl⟩ := List.mem_map.mp hu
        exact (by decide : MarketUpdateType.clear ≠ .snapshotEnd)
  size_lt := by simp

/-- An order is replaced by another one; there is a snapshot before and one after it. -/
def replacedOrder : PublishedFeed where
  updates := [⟨.add, 1, 0, .buy, 10, 5, 1⟩, ⟨.cancel, 1, 0, .buy, 10, 0, 1⟩,
    ⟨.add, 2, 0, .buy, 11, 6, 1⟩]
  snapshots := [oneOrder 1 ⟨.add, 1, 0, .buy, 10, 5, 1⟩ (by decide),
    oneOrder 3 ⟨.add, 2, 0, .buy, 11, 6, 1⟩ (by decide)]
  updates_lt := by decide

instance (feed : PublishedFeed) (h : FeedHandler) :
    (d : SocketMessage) → Decidable (h.Orderly feed d)
  | .snapshot u => inferInstanceAs (Decidable (∃ s ∈ feed.snapshots, u ∈ s.messages ∧
      ∀ e ∈ h.meets u, e ∈ s.messages))
  | .incremental u => inferInstanceAs (Decidable (u ∈ number 1 feed.updates))

instance (feed : PublishedFeed) : (d : SocketMessage) → Decidable (Delivered feed d)
  | .snapshot u => inferInstanceAs (Decidable (∃ s ∈ feed.snapshots, u ∈ s.messages))
  | .incremental u => inferInstanceAs (Decidable (u ∈ number 1 feed.updates))

/-- The end of the second snapshot. -/
def lastMessage : SocketMessage :=
  .snapshot ⟨10, { MarketUpdate.default with type := .snapshotEnd, orderId := 3 }⟩

/-- Both snapshots arrive after the third update, but the second update is missing for the
first of them. -/
def bothSnapshots : List SocketMessage :=
  .incremental ⟨3, ⟨.add, 2, 0, .buy, 11, 6, 1⟩⟩ ::
    (replacedOrder.snapshots.flatMap (·.messages)).dropLast.map .snapshot

/-- Of the first snapshot only the first three messages arrive, of the second one only the
others. -/
def mixedSnapshots : List SocketMessage :=
  .incremental ⟨3, ⟨.add, 2, 0, .buy, 11, 6, 1⟩⟩ ::
    ((oneOrder 1 ⟨.add, 1, 0, .buy, 10, 5, 1⟩ (by decide)).messages.take 3 ++
      ((oneOrder 3 ⟨.add, 2, 0, .buy, 11, 6, 1⟩ (by decide)).messages.drop 3).dropLast).map
        .snapshot

theorem orderly_recovers_sample : ∃ h : FeedHandler,
    Reached step (Orderly replacedOrder) create bothSnapshots h ∧ h.inRecovery = true ∧
    (h.receive lastMessage).inRecovery = false ∧
    Recovers replacedOrder h (h.receive lastMessage) := by
  obtain ⟨h, hreached, hcheck⟩ := @reached_of_any _ _ _ step (Orderly replacedOrder) create
    bothSnapshots inferInstance (fun h => decide (h.inRecovery = true ∧
      h.Orderly replacedOrder lastMessage ∧ (h.receive lastMessage).inRecovery = false))
    (by decide +kernel)
  obtain ⟨hrecovery, horderly, hleft⟩ := of_decide_eq_true hcheck
  exact ⟨h, hreached, hrecovery, hleft,
    (orderly_recovers hreached horderly).recovers hrecovery hleft⟩

/-- What is passed on is the first snapshot, as if it were the second. -/
theorem mixed_snapshots : ∃ h : FeedHandler,
    Reached step (fun _ => Delivered replacedOrder) create mixedSnapshots h ∧
    Delivered replacedOrder lastMessage ∧ h.inRecovery = true ∧
    (h.receive lastMessage).inRecovery = false ∧
    ¬ Recovers replacedOrder h (h.receive lastMessage) := by
  obtain ⟨h, hreached, hcheck⟩ := @reached_of_any _ _ _ step (fun _ => Delivered replacedOrder)
    create mixedSnapshots inferInstance (fun h => decide (h.inRecovery = true ∧
      h.incomingUpdates = [] ∧ (h.receive lastMessage).inRecovery = false ∧
      (h.receive lastMessage).nextExpectedSeq = 4 ∧ (h.receive lastMessage).incomingUpdates =
        (oneOrder 1 ⟨.add, 1, 0, .buy, 10, 5, 1⟩ (by decide)).content)) (by decide +kernel)
  obtain ⟨hrecovery, hnone, hleft, hnext, hincoming⟩ := of_decide_eq_true hcheck
  refine ⟨h, hreached, by decide, hrecovery, hleft, ?_⟩
  rintro ⟨s, hs, tail, -, hpassed, hexpected⟩
  rw [hincoming, hnone, List.nil_append] at hpassed
  rw [hnext] at hexpected
  rcases List.mem_cons.mp hs with rfl | hs
  · -- the content is that of the first snapshot, the number is not
    obtain rfl : tail = [] := List.self_eq_append_right.mp hpassed
    exact absurd hexpected (by decide)
  · rw [List.mem_singleton.mp hs] at hpassed
    have hsecond : some (⟨.add, 1, 0, .buy, 10, 5, 1⟩ : MarketUpdate) =
        some ⟨.add, 2, 0, .buy, 11, 6, 1⟩ := congrArg (·[1]?) hpassed
    exact absurd hsecond (by decide)

end MixedSnapshots

end FeedHandler

end StockExchange
