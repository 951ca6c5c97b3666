import StockExchange.Recovery

/-!
# Back in step

Every datagram of a snapshot begins with its START, so that the queue always holds the
beginning of one snapshot. The last datagram ends the recovery exactly if the updates that
were queued leave no gap behind the snapshot.
-/

namespace StockExchange

open QueuedMarketUpdates

namespace FeedHandler

/-- The queued messages are the beginning of one snapshot, without its END. -/
def Begins (m : QueuedMarketUpdates) : Prop :=
  m = [] ∨ ∃ s : Snapshot, ∃ j ≤ s.content.length, m = number 0 (s.updates.take (j + 1))

/-- Between `a` and the last queued number every number is queued. -/
def NoGap (a : Nat) (m : QueuedMarketUpdates) : Prop :=
  ∀ e ∈ m, ∀ k, a < k → k ≤ e.sequenceNumber.toNat → ∃ d ∈ m, d.sequenceNumber.toNat = k

/-- The last queued number, if it is behind `a`. -/
def lastQueued (a : Nat) (m : QueuedMarketUpdates) : Nat :=
  m.foldl (fun n e => max n e.sequenceNumber.toNat) a

/-- All the messages of a datagram. -/
def readUpdates (isSnapshot : Bool) (h : FeedHandler) (us : List ClientMarketUpdate) :
    FeedHandler := us.foldl (fun h u => h.readUpdate isSnapshot u) h

section Queues
variable {m : QueuedMarketUpdates} {u e : ClientMarketUpdate} {us vs : List MarketUpdate}

theorem emplace_last (h : ∀ e ∈ m, e.sequenceNumber < u.sequenceNumber) :
    emplace u m = m ++ [u] := by
  induction m with
  | nil => rfl
  | cons e m ih =>
    have hlt := h e List.mem_cons_self
    have hne : u.sequenceNumber ≠ e.sequenceNumber := fun heq =>
      UInt64.lt_irrefl _ (heq ▸ hlt)
    rw [emplace, if_neg (UInt64.lt_asymm hlt), if_neg hne,
      ih fun e he => h e (List.mem_cons_of_mem _ he), List.cons_append]

/-- The numbers of the queue increase. -/
def Sorted (m : QueuedMarketUpdates) : Prop :=
  m.Pairwise fun d e => d.sequenceNumber < e.sequenceNumber

theorem sorted_emplace (h : Sorted m) : Sorted (emplace u m) := by
  induction m with
  | nil => exact List.pairwise_singleton _ u
  | cons e m ih =>
    obtain ⟨hall, hm⟩ := List.pairwise_cons.mp h
    rw [emplace]
    split
    · rename_i hlt
      refine List.pairwise_cons.mpr ⟨fun d hd => ?_, h⟩
      rcases List.mem_cons.mp hd with rfl | hd
      · exact hlt
      · exact UInt64.lt_trans hlt (hall d hd)
    · rename_i hge
      split
      · exact h
      · rename_i hne
        refine List.pairwise_cons.mpr ⟨fun d hd => ?_, ih hm⟩
        rcases mem_emplace hd with rfl | hd
        · exact UInt64.lt_of_le_of_ne (UInt64.not_lt.mp hge) fun heq => hne heq.symm
        · exact hall d hd

/-- The messages of a list are below the next number. -/
theorem number_lt (hlt : us.length < 2 ^ 64) (he : e ∈ number 0 us) :
    e.sequenceNumber < UInt64.ofNat us.length := by
  obtain ⟨k, hk, hnumber, -⟩ := mem_number he
  rw [hnumber, UInt64.zero_add, UInt64.lt_iff_toNat_lt, UInt64.toNat_ofNat', UInt64.toNat_ofNat',
    Nat.mod_eq_of_lt (Nat.lt_trans hk hlt), Nat.mod_eq_of_lt hlt]
  exact hk

theorem not_contains_number (hlt : us.length < 2 ^ 64) :
    contains (number 0 us) (UInt64.ofNat us.length) = false := by
  rw [contains, List.any_eq_false]
  intro e he heq
  exact UInt64.lt_irrefl _ (of_decide_eq_true heq ▸ number_lt hlt he)

theorem synchronizeSnapshot_number (n : UInt64) (us : List MarketUpdate) :
    ∃ vs, synchronizeSnapshot n (number n us) = some vs := by
  induction us generalizing n with
  | nil => exact ⟨[], rfl⟩
  | cons u us ih =>
    obtain ⟨vs, hvs⟩ := ih (n + 1)
    rw [number, synchronizeSnapshot, if_neg (not_not.mpr rfl), hvs]
    exact ⟨_, rfl⟩

theorem getLast?_number_take (n : UInt64) {j : Nat} (hj : j < us.length) :
    ((number n (us.take (j + 1))).getLast?).map (·.update) = some us[j] := by
  rw [← List.getLast?_map, map_update_number, List.take_succ_eq_append_getElem hj,
    List.getLast?_concat]

/-- The loop passes exactly over the queues without a gap. -/
theorem synchronizeIncremental_iff {a : Nat} (hm : Sorted m)
    (hlt : ∀ e ∈ m, e.sequenceNumber.toNat + 1 < 2 ^ 64) (ha : a + 1 < 2 ^ 64) :
    (NoGap a m → ∃ vs, synchronizeIncremental (UInt64.ofNat (a + 1)) m =
      (UInt64.ofNat (lastQueued a m + 1), some vs)) ∧
    (¬ NoGap a m → ∃ next, synchronizeIncremental (UInt64.ofNat (a + 1)) m = (next, none)) := by
  have hnat : (UInt64.ofNat (a + 1)).toNat = a + 1 := by
    rw [UInt64.toNat_ofNat', Nat.mod_eq_of_lt ha]
  induction m generalizing a with
  | nil => exact ⟨fun _ => ⟨[], rfl⟩, fun h => absurd (fun e he => absurd he List.not_mem_nil) h⟩
  | cons e m ih =>
    obtain ⟨hall, hm'⟩ := List.pairwise_cons.mp hm
    have hlt' : ∀ d ∈ m, d.sequenceNumber.toNat + 1 < 2 ^ 64 := fun d hd =>
      hlt d (List.mem_cons_of_mem e hd)
    have hbelow : ∀ d ∈ m, e.sequenceNumber.toNat < d.sequenceNumber.toNat := fun d hd =>
      UInt64.lt_iff_toNat_lt.mp (hall d hd)
    rw [synchronizeIncremental]
    by_cases hold : e.sequenceNumber < UInt64.ofNat (a + 1)
    · -- an update that the snapshot knows
      have hle : e.sequenceNumber.toNat ≤ a := by
        have := UInt64.lt_iff_toNat_lt.mp hold
        omega
      have hgap : NoGap a (e :: m) ↔ NoGap a m := by
        constructor
        · intro h d hd k hk hkd
          obtain ⟨d', hd', rfl⟩ := h d (List.mem_cons_of_mem e hd) k hk hkd
          rcases List.mem_cons.mp hd' with rfl | hd'
          · omega
          · exact ⟨d', hd', rfl⟩
        · intro h d hd k hk hkd
          rcases List.mem_cons.mp hd with rfl | hd
          · omega
          · obtain ⟨d', hd', heq⟩ := h d hd k hk hkd
            exact ⟨d', List.mem_cons_of_mem e hd', heq⟩
      have hlast : lastQueued a (e :: m) = lastQueued a m := by
        rw [lastQueued, List.foldl_cons, Nat.max_eq_left hle, lastQueued]
      rw [if_pos hold, hgap, hlast]
      exact ih hm' hlt' ha hnat
    · rw [if_neg hold]
      have hge : a + 1 ≤ e.sequenceNumber.toNat := by
        have := UInt64.le_iff_toNat_le.mp (UInt64.not_lt.mp hold)
        omega
      by_cases heq : e.sequenceNumber = UInt64.ofNat (a + 1)
      · -- the expected update
        have hnum : e.sequenceNumber.toNat = a + 1 := by rw [heq, hnat]
        have hroom : a + 1 + 1 < 2 ^ 64 := hnum ▸ hlt e List.mem_cons_self
        have hnext : UInt64.ofNat (a + 1) + 1 = UInt64.ofNat (a + 1 + 1) :=
          (UInt64.ofNat_add (a + 1) 1).symm
        have hgap : NoGap a (e :: m) ↔ NoGap (a + 1) m := by
          constructor
          · intro h d hd k hk hkd
            obtain ⟨d', hd', rfl⟩ := h d (List.mem_cons_of_mem e hd) k (by omega) hkd
            rcases List.mem_cons.mp hd' with rfl | hd'
            · omega
            · exact ⟨d', hd', rfl⟩
          · intro h d hd k hk hkd
            by_cases hka : k = a + 1
            · exact ⟨e, List.mem_cons_self, hnum.trans hka.symm⟩
            · rcases List.mem_cons.mp hd with rfl | hd
              · omega
              · obtain ⟨d', hd', heq⟩ := h d hd k (by omega) hkd
                exact ⟨d', List.mem_cons_of_mem e hd', heq⟩
        have hlast : lastQueued a (e :: m) = lastQueued (a + 1) m := by
          rw [lastQueued, List.foldl_cons, hnum, Nat.max_eq_right (Nat.le_succ a), lastQueued]
        rw [if_neg (not_not.mpr heq), hgap, hlast, hnext]
        obtain ⟨hfull, hnone⟩ := ih hm' hlt' hroom (by
          rw [UInt64.toNat_ofNat', Nat.mod_eq_of_lt hroom])
        constructor
        · intro h
          obtain ⟨vs, hvs⟩ := hfull h
          exact ⟨e.update :: vs, by rw [hvs]; rfl⟩
        · intro h
          obtain ⟨next, hvs⟩ := hnone h
          exact ⟨next, by rw [hvs]; rfl⟩
      · -- a gap
        rw [if_pos heq]
        have hgt : a + 1 < e.sequenceNumber.toNat := by
          refine Nat.lt_of_le_of_ne hge fun hnum => heq (UInt64.toNat_inj.mp ?_)
          rw [hnat, hnum]
        refine ⟨fun h => ?_, fun _ => ⟨_, rfl⟩⟩
        obtain ⟨d, hd, hdk⟩ := h e List.mem_cons_self (a + 1) (Nat.lt_succ_self a) hge
        rcases List.mem_cons.mp hd with rfl | hd
        · omega
        · have := hbelow d hd
          omega

end Queues

section Reading
variable {h : FeedHandler} {s : Snapshot} {u : ClientMarketUpdate}

theorem readUpdates_concat (isSnapshot : Bool) (h : FeedHandler) (us : List ClientMarketUpdate)
    (u : ClientMarketUpdate) : h.readUpdates isSnapshot (us ++ [u]) =
      (h.readUpdates isSnapshot us).readUpdate isSnapshot u := List.foldl_append ..

theorem Begins.head (hm : Begins m) : m = [] ∨ contains m 0 = true := by
  rcases hm with rfl | ⟨s, j, -, rfl⟩
  · exact .inl rfl
  · exact .inr rfl

/-- The beginning of a snapshot waits for the rest. -/
theorem sync_begins (hb : Begins h.snapshotQueuedMsgs) : h.syncSnapshotWithIncremental = h := by
  rcases hb with hnil | ⟨s, j, hj, hq⟩
  · rw [syncSnapshotWithIncremental, hnil]
    rfl
  · have hlen := length_updates s
    have hindex : j < s.updates.length := by omega
    have hlast := getLast?_number_take 0 hindex
    obtain ⟨last, hlast, hupdate⟩ := Option.map_eq_some_iff.mp hlast
    obtain ⟨vs, hvs⟩ := synchronizeSnapshot_number 0 (s.updates.take (j + 1))
    have hend : last.update.type ≠ .snapshotEnd := fun hend => by
      have := end_last s hindex (hupdate ▸ hend)
      omega
    rw [syncSnapshotWithIncremental, hq, hlast, hvs]
    exact if_pos hend

/-- Messages of a snapshot up to one before its END replace what was queued before. -/
theorem read_beginning (hrecovery : h.inRecovery = true) (hb : Begins h.snapshotQueuedMsgs)
    {j : Nat} (hj : j ≤ s.content.length) :
    h.readUpdates true (number 0 (s.updates.take (j + 1))) =
      { h with snapshotQueuedMsgs := number 0 (s.updates.take (j + 1)) } := by
  have hlen := length_updates s
  have hsize := s.size_lt
  induction j with
  | zero =>
    have hfirst : number 0 (s.updates.take 1) = [⟨0, s.updates[0]⟩] := rfl
    have hmeets : (if contains h.snapshotQueuedMsgs 0 then [] else h.snapshotQueuedMsgs) = [] := by
      rcases hb.head with hnil | hzero
      · rw [hnil, ite_self]
      · rw [hzero, if_pos rfl]
    change h.readUpdate true ⟨0, s.updates[0]⟩ = _
    rw [hfirst, readUpdate, if_pos hrecovery, queueMessage, if_pos rfl, hmeets]
    exact sync_begins (.inr ⟨s, 0, Nat.zero_le _, rfl⟩)
  | succ j ih =>
    have hindex : j + 1 < s.updates.length := by omega
    have hcount : (s.updates.take (j + 1)).length = j + 1 := by
      rw [List.length_take]
      omega
    have hnumber : number 0 (s.updates.take (j + 1 + 1)) = number 0 (s.updates.take (j + 1)) ++
        [⟨UInt64.ofNat (j + 1), s.updates[j + 1]⟩] := by
      rw [List.take_succ_eq_append_getElem hindex, number_append, hcount, UInt64.zero_add]
      rfl
    have hnew := @not_contains_number (s.updates.take (j + 1)) (by omega)
    have hemplace : emplace ⟨UInt64.ofNat (j + 1), s.updates[j + 1]⟩
        (number 0 (s.updates.take (j + 1))) = number 0 (s.updates.take (j + 1 + 1)) := by
      rw [hnumber]
      refine emplace_last fun e he => ?_
      have := number_lt (by omega) he
      rwa [hcount] at this
    rw [hcount] at hnew
    rw [hnumber, readUpdates_concat, ih (by omega), readUpdate, if_pos hrecovery, queueMessage,
      if_pos rfl]
    dsimp only
    rw [hnew, if_neg Bool.false_ne_true, hemplace, ← hnumber]
    exact sync_begins (.inr ⟨s, j + 1, hj, rfl⟩)

/-- After its END the snapshot is compared with the queued updates. -/
theorem read_messages (hrecovery : h.inRecovery = true) (hb : Begins h.snapshotQueuedMsgs) :
    h.readUpdates true s.messages = match
        synchronizeIncremental (s.lastIncSeqNum + 1) h.incrementalQueuedMsgs with
      | (next, none) => { h with nextExpectedSeq := next, snapshotQueuedMsgs := [] }
      | (next, some updates) => h.leaveRecovery next (s.content ++ updates) := by
  have hsize := s.size_lt
  obtain ⟨start, last, hsplit, hcount, hlast⟩ : ∃ start last, s.updates = start ++ [last] ∧
      start.length = s.content.length + 1 ∧ last = { MarketUpdate.default with
        type := .snapshotEnd, orderId := s.lastIncSeqNum } := ⟨_ :: s.content, _, rfl, rfl, rfl⟩
  have hnumber : s.messages = number 0 start ++ [⟨UInt64.ofNat start.length, last⟩] := by
    rw [Snapshot.messages, hsplit, number_append, UInt64.zero_add]
    rfl
  have hbeginning := read_beginning (s := s) hrecovery hb le_rfl
  rw [hsplit, List.take_left' hcount] at hbeginning
  have hemplace : emplace ⟨UInt64.ofNat start.length, last⟩ (number 0 start) = s.messages := by
    rw [hnumber]
    exact emplace_last fun e he => number_lt (by omega) he
  have hread : h.readUpdates true s.messages =
      { h with snapshotQueuedMsgs := s.messages }.syncSnapshotWithIncremental := by
    rw [hnumber, readUpdates_concat, hbeginning, readUpdate, if_pos hrecovery, queueMessage,
      if_pos rfl]
    dsimp only
    rw [not_contains_number (by omega), if_neg Bool.false_ne_true, hemplace, hnumber]
  have hgetLast : s.messages.getLast? = some ⟨UInt64.ofNat start.length, last⟩ := by
    rw [hnumber, List.getLast?_concat]
  obtain ⟨first, hhead⟩ : ∃ first, s.messages.head? = some ⟨0, first⟩ := ⟨_, rfl⟩
  rw [hread, syncSnapshotWithIncremental, hhead, hgetLast]
  dsimp only
  rw [if_neg (not_not.mpr rfl), synchronizeSnapshot_messages, hlast]
  dsimp only
  rw [if_neg (not_not.mpr rfl)]
  rcases synchronizeIncremental (s.lastIncSeqNum + 1) h.incrementalQueuedMsgs with ⟨next, _ | us⟩
  · rfl
  · rfl

/-- An incremental update is queued, starts a recovery, or is passed on. -/
theorem read_incremental (hb : Begins h.snapshotQueuedMsgs) : h.readUpdate false u =
    if h.inRecovery then { h with incrementalQueuedMsgs := emplace u h.incrementalQueuedMsgs }
    else if u.sequenceNumber ≠ h.nextExpectedSeq then
      { h.enterRecovery with incrementalQueuedMsgs := [u] }
    else { h with
      nextExpectedSeq := h.nextExpectedSeq + 1
      incomingUpdates := h.incomingUpdates ++ [u.update] } := by
  rw [readUpdate]
  split
  · rw [queueMessage, if_neg Bool.false_ne_true]
    exact sync_begins hb
  · split
    · rw [queueMessage, if_neg Bool.false_ne_true]
      exact sync_begins (.inl rfl)
    · rfl

end Reading

/-! ## What has been passed on -/

/-- The snapshot shows the orders after one of the updates. -/
def SnapshotOf (us : List MarketUpdate) (s : Snapshot) : Prop :=
  s.lastIncSeqNum.toNat ≤ us.length ∧ ∃ t : SnapshotSynthesizer,
    t.Holds (Replay.replay (us.take s.lastIncSeqNum.toNat)) ∧ s.updates = t.messages

/-- The first `n` updates have been passed on; if there was a recovery, one snapshot stands in
the place of some of them. -/
def Conveys (us : List MarketUpdate) (h : FeedHandler) (n : Nat) : Prop :=
  if h.snapshotFeed = .closed then ∃ n₀ ≤ us.length, ∃ s, SnapshotOf us s ∧
    s.lastIncSeqNum.toNat ≤ n ∧ h.incomingUpdates =
      us.take n₀ ++ (s.content ++ (us.take n).drop s.lastIncSeqNum.toNat)
  else h.incomingUpdates = us.take n

/-- The handler of a client, where `us` have been sent so far. -/
structure Trails (us : List MarketUpdate) (h : FeedHandler) : Prop where
  begins : Begins h.snapshotQueuedMsgs
  deaf : h.snapshotFeed ≠ .receiving → h.snapshotQueuedMsgs = []
  listens : h.snapshotFeed = .receiving → h.inRecovery = true
  incremental : ∀ e ∈ h.incrementalQueuedMsgs, e ∈ number 1 us
  sorted : Sorted h.incrementalQueuedMsgs
  conveys : ∃ n ≤ us.length,
    (h.inRecovery = false → h.nextExpectedSeq = UInt64.ofNat (n + 1)) ∧ Conveys us h n

section Trails
variable {us vs : List MarketUpdate} {h : FeedHandler} {s : Snapshot} {u : ClientMarketUpdate}

theorem create_trails : Trails [] create :=
  ⟨.inl rfl, fun _ => rfl, nofun, nofun, .nil, 0, le_rfl, fun _ => rfl, rfl⟩

theorem SnapshotOf.mono (hs : SnapshotOf us s) (hle : us <+: vs) : SnapshotOf vs s := by
  obtain ⟨ws, rfl⟩ := hle
  obtain ⟨hlast, t, hholds, hupdates⟩ := hs
  refine ⟨hlast.trans (by rw [List.length_append]; omega), t, ?_, hupdates⟩
  rwa [List.take_append_of_le_length hlast]

/-- The updates may become more. -/
theorem Trails.mono (hf : Trails us h) (hle : us <+: vs) : Trails vs h := by
  obtain ⟨n, hn, hnext, hconveys⟩ := hf.conveys
  refine ⟨hf.begins, hf.deaf, hf.listens, fun e he => ?_, hf.sorted, n, hn.trans hle.length_le,
    hnext, ?_⟩
  · obtain ⟨ws, rfl⟩ := hle
    rw [number_append]
    exact List.mem_append_left _ (hf.incremental e he)
  · have htake : ∀ k ≤ us.length, vs.take k = us.take k := by
      obtain ⟨ws, rfl⟩ := hle
      exact fun k hk => List.take_append_of_le_length hk
    rw [Conveys] at hconveys ⊢
    split
    · rename_i hclosed
      rw [if_pos hclosed] at hconveys
      obtain ⟨n₀, hn₀, s, hs, hlast, hincoming⟩ := hconveys
      refine ⟨n₀, hn₀.trans hle.length_le, s, hs.mono hle, hlast, ?_⟩
      rw [htake n₀ hn₀, htake n hn]
      exact hincoming
    · rename_i hopen
      rw [if_neg hopen] at hconveys
      rw [htake n hn]
      exact hconveys

/-- A message of the incremental feed. -/
theorem Trails.readIncremental (hf : Trails us h) (hlt : us.length < 2 ^ 64)
    (hu : u ∈ number 1 us) : Trails us (h.readUpdate false u) := by
  obtain ⟨n, hn, hnext, hconveys⟩ := hf.conveys
  rw [read_incremental hf.begins]
  split
  · rename_i hrecovery
    exact ⟨hf.begins, hf.deaf, hf.listens, fun e he => (mem_emplace he).elim (fun heq => heq ▸ hu)
      (hf.incremental e), sorted_emplace hf.sorted, n, hn,
      fun hfalse => absurd (hrecovery.symm.trans hfalse) Bool.noConfusion, hconveys⟩
  · rename_i hrecovery
    have hfalse : h.inRecovery = false := Bool.eq_false_iff.mpr hrecovery
    split
    · -- a gap: the snapshots are listened to unless their socket was closed before
      have hsocket : h.snapshotFeed.recvStart = .closed ↔ h.snapshotFeed = .closed := by
        cases h.snapshotFeed <;> simp [SnapshotSocket.recvStart]
      refine ⟨.inl rfl, fun _ => rfl, fun _ => rfl, fun e he => ?_, List.pairwise_singleton _ u,
        n, hn, fun htrue => absurd htrue.symm Bool.noConfusion, ?_⟩
      · rw [List.mem_singleton.mp he]
        exact hu
      · unfold Conveys at hconveys ⊢
        simp only [enterRecovery, hsocket]
        exact hconveys
    · rename_i hseq
      obtain ⟨k, hk, hnumber, hupdate⟩ := mem_number hu
      have hkn : k = n := by
        have hone : (1 : UInt64) + UInt64.ofNat k = UInt64.ofNat (k + 1) := by
          rw [UInt64.ofNat_add, UInt64.add_comm]
          rfl
        have heq := congrArg UInt64.toNat (not_not.mp hseq)
        rw [hnext hfalse, hnumber, hone, UInt64.toNat_ofNat', UInt64.toNat_ofNat'] at heq
        omega
      subst hkn
      have hgrow : us.take (k + 1) = us.take k ++ [u.update] := by
        rw [hupdate]
        exact List.take_succ_eq_append_getElem hk
      refine ⟨hf.begins, hf.deaf, hf.listens, hf.incremental, hf.sorted, k + 1, hk, fun _ => ?_, ?_⟩
      · dsimp only
        rw [hnext hfalse]
        exact (UInt64.ofNat_add (k + 1) 1).symm
      · unfold Conveys at hconveys ⊢
        split
        · rename_i hclosed
          rw [if_pos hclosed] at hconveys
          obtain ⟨n₀, hn₀, s, hs, hlast, hincoming⟩ := hconveys
          refine ⟨n₀, hn₀, s, hs, hlast.trans (Nat.le_succ k), ?_⟩
          have hlen : (us.take k).length = k := by
            rw [List.length_take]
            omega
          dsimp only
          rw [hincoming, hgrow, List.drop_append_of_le_length (by rwa [hlen])]
          simp only [List.append_assoc]
        · rename_i hopen
          rw [if_neg hopen] at hconveys
          dsimp only
          rw [hconveys, hgrow]

theorem Trails.readIncrementals (hf : Trails us h) (hlt : us.length < 2 ^ 64)
    {cs : List ClientMarketUpdate} (hcs : ∀ u ∈ cs, u ∈ number 1 us) :
    Trails us (h.readUpdates false cs) := by
  induction cs generalizing h with
  | nil => exact hf
  | cons c cs ih =>
    refine ih (hf.readIncremental hlt (hcs c List.mem_cons_self)) fun u hu => ?_
    exact hcs u (List.mem_cons_of_mem c hu)

/-- The end of a snapshot without a gap behind it. -/
theorem Trails.leave (hf : Trails us h) (hlt : us.length < 2 ^ 64)
    (hopen : h.snapshotFeed = .receiving) (hs : SnapshotOf us s) {next : UInt64}
    (hsync : synchronizeIncremental (s.lastIncSeqNum + 1) h.incrementalQueuedMsgs =
      (next, some vs)) : Trails us (h.leaveRecovery next (s.content ++ vs)) := by
  obtain ⟨n, hn, -, hconveys⟩ := hf.conveys
  have hfirst : s.lastIncSeqNum + 1 = UInt64.ofNat (s.lastIncSeqNum.toNat + 1) := by
    rw [UInt64.ofNat_add, UInt64.ofNat_toNat]
    rfl
  rw [hfirst] at hsync
  obtain ⟨htaken, hnext⟩ := synchronizeIncremental_prefix hlt s.lastIncSeqNum.toNat_lt
    hf.incremental hsync
  have hlen := htaken.length_le
  have hlast := hs.1
  rw [List.length_drop] at hlen
  rw [Conveys, if_neg (by rw [hopen]; decide)] at hconveys
  refine ⟨.inl rfl, fun _ => rfl, nofun, nofun, .nil, s.lastIncSeqNum.toNat + vs.length, by omega,
    fun _ => hnext, ?_⟩
  have htail : (us.take (s.lastIncSeqNum.toNat + vs.length)).drop s.lastIncSeqNum.toNat = vs := by
    rw [List.drop_take, Nat.add_sub_cancel_left]
    exact (List.prefix_iff_eq_take.mp htaken).symm
  have hclosed : (h.leaveRecovery next (s.content ++ vs)).snapshotFeed = .closed := rfl
  rw [Conveys, if_pos hclosed]
  refine ⟨n, hn, s, hs, Nat.le_add_right _ _, ?_⟩
  rw [htail, ← hconveys]
  rfl

/-- A datagram of a snapshot. -/
theorem Trails.readSnapshot (hf : Trails us h) (hlt : us.length < 2 ^ 64)
    (hopen : h.snapshotFeed = .receiving) (hs : SnapshotOf us s) {j : Nat}
    (hj : j < s.updates.length) :
    Trails us (h.readUpdates true (number 0 (s.updates.take (j + 1)))) := by
  have hrecovery := hf.listens hopen
  have hlen := length_updates s
  obtain ⟨n, hn, -, hconveys⟩ := hf.conveys
  have hnever : ∀ {P : Prop}, h.inRecovery = false → P := fun hfalse =>
    absurd (hrecovery.symm.trans hfalse) Bool.noConfusion
  by_cases hend : j ≤ s.content.length
  · rw [read_beginning hrecovery hf.begins hend]
    exact ⟨.inr ⟨s, j, hend, rfl⟩, fun hne => absurd hopen hne, hf.listens, hf.incremental,
      hf.sorted, n, hn, hnever, hconveys⟩
  · have hall : s.updates.take (j + 1) = s.updates := List.take_of_length_le (by omega)
    rw [hall, ← Snapshot.messages, read_messages hrecovery hf.begins]
    rcases hsync : synchronizeIncremental (s.lastIncSeqNum + 1) h.incrementalQueuedMsgs with
      ⟨next, _ | vs⟩
    · exact ⟨.inl rfl, fun _ => rfl, hf.listens, hf.incremental, hf.sorted, n, hn, hnever,
        hconveys⟩
    · exact hf.leave hlt hopen hs hsync

end Trails

end FeedHandler

end StockExchange
