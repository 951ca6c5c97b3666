import StockExchange.Recovery

/-!
# The snapshot socket over several recoveries

Leaving recovery closes the handle of the snapshot socket, and a closed handle does not
receive again. The handler listens to the snapshots in its first recovery and in no other.
-/

namespace StockExchange

open Transitions QueuedMarketUpdates

namespace SocketMessage

def update : SocketMessage → ClientMarketUpdate
  | .snapshot u => u
  | .incremental u => u

def isSnapshot : SocketMessage → Bool
  | .snapshot _ => true
  | .incremental _ => false

end SocketMessage

namespace FeedHandler

theorem receive_eq (h : FeedHandler) (d : SocketMessage) :
    h.receive d = h.readUpdate d.isSnapshot d.update := by
  cases d <;> rfl

/-- In recovery the snapshots are received. -/
def Listens (h : FeedHandler) : Prop := h.inRecovery = true → h.snapshotFeed = .receiving

/-- The message is the first after a gap. -/
def Gap (h : FeedHandler) (d : SocketMessage) : Prop :=
  h.inRecovery = false ∧ d.update.sequenceNumber ≠ h.nextExpectedSeq

/-- A recovery begins only while the snapshot socket has not been closed. -/
def OpensOpen (h : FeedHandler) (d : SocketMessage) : Prop :=
  h.Gap d → h.snapshotFeed ≠ .closed

/-- A snapshot message can only arrive while the snapshots are received. -/
def Heard (h : FeedHandler) (d : SocketMessage) : Prop :=
  d.isSnapshot = true → h.snapshotFeed = .receiving

instance (h : FeedHandler) (d : SocketMessage) : Decidable (h.OpensOpen d) :=
  inferInstanceAs (Decidable (_ ∧ _ → _))

instance (h : FeedHandler) (d : SocketMessage) : Decidable (h.Heard d) :=
  inferInstanceAs (Decidable (_ → _))

section Steps
variable {feed : PublishedFeed} {h : FeedHandler} {d : SocketMessage}

theorem sync_socket (h : FeedHandler) :
    (h.syncSnapshotWithIncremental.inRecovery = h.inRecovery ∧
      h.syncSnapshotWithIncremental.snapshotFeed = h.snapshotFeed) ∨
    (h.syncSnapshotWithIncremental.inRecovery = false ∧
      h.syncSnapshotWithIncremental.snapshotFeed = .closed) := by
  rcases sync_cases h with ⟨_, _, heq, _⟩ | ⟨_, _, _, _, _, _, _, _, heq⟩
  · exact .inl (heq ▸ ⟨rfl, rfl⟩)
  · exact .inr (heq ▸ ⟨rfl, rfl⟩)

/-- The queues a message is put into before they are looked at. -/
theorem queue_eq (h : FeedHandler) (isSnapshot : Bool) (u : ClientMarketUpdate) :
    ∃ q : FeedHandler, h.queueMessage isSnapshot u = q.syncSnapshotWithIncremental ∧
      q.inRecovery = h.inRecovery ∧ q.snapshotFeed = h.snapshotFeed ∧
      q.incomingUpdates = h.incomingUpdates ∧
      (isSnapshot = false → q.snapshotQueuedMsgs = h.snapshotQueuedMsgs) := by
  cases isSnapshot with
  | true => exact ⟨_, rfl, rfl, rfl, rfl, fun h => absurd h Bool.noConfusion⟩
  | false => exact ⟨_, rfl, rfl, rfl, rfl, fun _ => rfl⟩

theorem queue_listens (hlistens : h.Listens) (isSnapshot : Bool) (u : ClientMarketUpdate) :
    (h.queueMessage isSnapshot u).Listens := by
  intro hrecovery
  obtain ⟨q, heq, hflag, hsocket, _⟩ := queue_eq h isSnapshot u
  rw [heq] at hrecovery ⊢
  rcases sync_socket q with ⟨hflag', hsocket'⟩ | ⟨hleft, _⟩
  · rw [hsocket', hsocket]
    exact hlistens (hflag.symm.trans (hflag'.symm.trans hrecovery))
  · exact absurd (hleft.symm.trans hrecovery) Bool.noConfusion

theorem enterRecovery_listens (hopen : h.snapshotFeed ≠ .closed) : h.enterRecovery.Listens := by
  intro _
  change h.snapshotFeed.recvStart = _
  cases hsocket : h.snapshotFeed with
  | bound => rfl
  | receiving => rfl
  | closed => exact absurd hsocket hopen

/-- What a message makes of the handler: it is queued, begins a recovery and is queued, or
the handler goes on outside. -/
theorem receive_cases (h : FeedHandler) (d : SocketMessage) :
    (h.inRecovery = true ∧ h.receive d = h.queueMessage d.isSnapshot d.update) ∨
    (h.Gap d ∧ h.receive d = h.enterRecovery.queueMessage d.isSnapshot d.update) ∨
    (¬ h.Gap d ∧ (h.receive d).inRecovery = false) := by
  rw [receive_eq, readUpdate]
  by_cases hrecovery : h.inRecovery = true
  · exact .inl ⟨hrecovery, if_pos hrecovery⟩
  · have hfalse : h.inRecovery = false := Bool.eq_false_iff.mpr hrecovery
    rw [if_neg hrecovery]
    by_cases hgap : d.update.sequenceNumber ≠ h.nextExpectedSeq
    · exact .inr (.inl ⟨⟨hfalse, hgap⟩, if_pos hgap⟩)
    · rw [if_neg hgap]
      refine .inr (.inr ⟨fun hg => hgap hg.2, ?_⟩)
      split
      · exact hfalse
      · exact hfalse

theorem receive_listens (hlistens : h.Listens) (hopen : h.OpensOpen d) :
    (h.receive d).Listens := by
  rcases receive_cases h d with ⟨_, heq⟩ | ⟨hgap, heq⟩ | ⟨_, hout⟩
  · rw [heq]
    exact queue_listens hlistens d.isSnapshot d.update
  · rw [heq]
    exact queue_listens (enterRecovery_listens (hopen hgap)) d.isSnapshot d.update
  · exact fun hrecovery => absurd (hout.symm.trans hrecovery) Bool.noConfusion

/-- The first message of a snapshot does not end it. -/
theorem start_not_end {s : Snapshot} {u : ClientMarketUpdate} (hu : u ∈ s.messages)
    (hzero : u.sequenceNumber = 0) : u.update.type ≠ .snapshotEnd := by
  obtain ⟨k, hk, hnumber, hupdate⟩ := mem_number hu
  have hlen := length_updates s
  have hsize := s.size_lt
  have hk0 : k = 0 := by
    apply ofNat_inj_of_lt (by omega) (by decide)
    rw [← UInt64.zero_add (UInt64.ofNat k), ← hnumber, hzero]
    rfl
  subst hk0
  rw [hupdate]
  exact (by decide : MarketUpdateType.snapshotStart ≠ .snapshotEnd)

/-- Without the end of a snapshot nothing is passed on, and recovery goes on. -/
theorem sync_plain (hplain : ∀ e ∈ h.snapshotQueuedMsgs, e.update.type ≠ .snapshotEnd) :
    h.syncSnapshotWithIncremental.inRecovery = h.inRecovery ∧
    h.syncSnapshotWithIncremental.snapshotFeed = h.snapshotFeed ∧
    h.syncSnapshotWithIncremental.incomingUpdates = h.incomingUpdates ∧
    ∀ e ∈ h.syncSnapshotWithIncremental.snapshotQueuedMsgs, e.update.type ≠ .snapshotEnd := by
  rcases sync_cases h with ⟨_, q, heq, hq⟩ | ⟨_, last, _, _, hlast, hend, _, _, _⟩
  · rw [heq]
    refine ⟨rfl, rfl, rfl, fun e he => ?_⟩
    rcases hq with rfl | rfl
    · exact absurd he List.not_mem_nil
    · exact hplain e he
  · exact absurd hend (hplain last (List.mem_of_getLast? hlast))

/-- In recovery with a closed socket, and no end of a snapshot queued. -/
structure Frozen (h : FeedHandler) : Prop where
  recovery : h.inRecovery = true
  closed : h.snapshotFeed = .closed
  plain : ∀ e ∈ h.snapshotQueuedMsgs, e.update.type ≠ .snapshotEnd

/-- What is queued at the begin of a recovery neither ends it nor is passed on. -/
theorem gap_sync (hd : Delivered feed d) {q : FeedHandler}
    (heq : h.enterRecovery.queueMessage d.isSnapshot d.update = q) :
    q.inRecovery = true ∧ q.snapshotFeed = h.snapshotFeed.recvStart ∧
      q.incomingUpdates = h.incomingUpdates ∧
      ∀ e ∈ q.snapshotQueuedMsgs, e.update.type ≠ .snapshotEnd := by
  subst heq
  cases d with
  | incremental u => exact ⟨rfl, rfl, rfl, fun _ he => absurd he List.not_mem_nil⟩
  | snapshot u =>
    obtain ⟨s, _, hu⟩ := hd
    by_cases hzero : u.sequenceNumber = 0
    · refine sync_plain (h := { h.enterRecovery with snapshotQueuedMsgs := [u] }) fun e he => ?_
      rw [List.mem_singleton.mp he]
      exact start_not_end hu hzero
    · have hclear : h.enterRecovery.queueMessage true u = h.enterRecovery := by
        change ({ h.enterRecovery with
          snapshotQueuedMsgs := [u] } : FeedHandler).syncSnapshotWithIncremental = _
        simp only [syncSnapshotWithIncremental, List.head?_cons, List.getLast?_singleton,
          if_pos hzero]
        rfl
      simp only [SocketMessage.isSnapshot, SocketMessage.update, hclear]
      exact ⟨rfl, rfl, rfl, fun _ he => absurd he List.not_mem_nil⟩

/-- A gap met with a closed socket is never recovered from. -/
theorem gap_frozen (hd : Delivered feed d) (hgap : h.Gap d) (hclosed : h.snapshotFeed = .closed) :
    (h.receive d).Frozen ∧ (h.receive d).incomingUpdates = h.incomingUpdates := by
  obtain ⟨hrecovery, hsocket, hincoming, hplain⟩ := gap_sync (h := h) hd rfl
  rcases receive_cases h d with ⟨hin, _⟩ | ⟨_, heq⟩ | ⟨hno, _⟩
  · exact absurd (hgap.1.symm.trans hin) Bool.noConfusion
  · rw [heq]
    exact ⟨⟨hrecovery, by rw [hsocket, hclosed]; rfl, hplain⟩, hincoming⟩
  · exact absurd hgap hno

theorem Frozen.receive (hf : h.Frozen) (hheard : h.Heard d) :
    (h.receive d).Frozen ∧ (h.receive d).incomingUpdates = h.incomingUpdates := by
  have hinc : d.isSnapshot = false := by
    refine Bool.eq_false_iff.mpr fun hsnap => ?_
    exact absurd (hf.closed.symm.trans (hheard hsnap)) (by decide)
  obtain ⟨q, heq, hflag, hsocket, hincoming, hqueue⟩ := queue_eq h d.isSnapshot d.update
  have hreceive : h.receive d = q.syncSnapshotWithIncremental := by
    rw [receive_eq, readUpdate, if_pos hf.recovery, heq]
  obtain ⟨hflag', hsocket', hincoming', hplain⟩ := sync_plain (h := q)
    (by rw [hqueue hinc]; exact hf.plain)
  rw [hreceive]
  exact ⟨⟨hflag'.trans (hflag.trans hf.recovery), hsocket'.trans (hsocket.trans hf.closed),
    hplain⟩, hincoming'.trans hincoming⟩

end Steps

section Runs
variable {feed : PublishedFeed} {ds : List SocketMessage} {h h' : FeedHandler}

/-- As long as no recovery begins after the socket has been closed, the handler listens to
the snapshots in every recovery; and the next message keeps it so exactly under that
condition. -/
theorem opensOpen_listens
    (hreached : Reached step (fun h d => Delivered feed d ∧ h.OpensOpen d) create ds h) :
    h.Listens ∧ ∀ d, Delivered feed d → ((h.receive d).Listens ↔ h.OpensOpen d) := by
  have hlistens : h.Listens := by
    refine hreached.invariant (fun hrecovery => absurd hrecovery Bool.noConfusion) ?_
    intro h d h' hlistens hopen hstep
    cases hstep
    exact receive_listens hlistens hopen.2
  refine ⟨hlistens, fun d hd => ⟨fun hnext hgap hclosed => ?_, receive_listens hlistens⟩⟩
  obtain ⟨hfrozen, _⟩ := gap_frozen hd hgap hclosed
  exact absurd (hfrozen.closed.symm.trans (hnext hfrozen.recovery)) (by decide)

/-- After a gap met with a closed socket, nothing is ever passed on again. -/
theorem gap_never_recovers {d : SocketMessage} (hd : Delivered feed d) (hgap : h.Gap d)
    (hclosed : h.snapshotFeed = .closed) (hreached : Reached step Heard (h.receive d) ds h') :
    h'.inRecovery = true ∧ h'.incomingUpdates = h.incomingUpdates := by
  have hfrozen : h'.Frozen ∧ h'.incomingUpdates = h.incomingUpdates := by
    refine hreached.invariant (P := fun h' => h'.Frozen ∧ h'.incomingUpdates = h.incomingUpdates)
      (gap_frozen hd hgap hclosed) ?_
    rintro h₁ d₁ h₂ ⟨hf, hsame⟩ hheard hstep
    cases hstep
    obtain ⟨hf', hsame'⟩ := hf.receive hheard
    exact ⟨hf', hsame'.trans hsame⟩
  exact ⟨hfrozen.1.recovery, hfrozen.2⟩

/-- An order is modified three times; there is a snapshot after the first time. -/
def modifiedOrder : PublishedFeed where
  updates := [⟨.add, 1, 0, .buy, 10, 5, 1⟩, ⟨.modify, 1, 0, .buy, 10, 4, 1⟩,
    ⟨.modify, 1, 0, .buy, 10, 3, 1⟩, ⟨.modify, 1, 0, .buy, 10, 2, 1⟩]
  snapshots := [oneOrder 2 ⟨.add, 1, 0, .buy, 10, 4, 1⟩ (by decide)]
  updates_lt := by decide

/-- The first update is lost, and the snapshot arrives. -/
def oneGap : List SocketMessage :=
  .incremental ⟨2, ⟨.modify, 1, 0, .buy, 10, 4, 1⟩⟩ ::
    (oneOrder 2 ⟨.add, 1, 0, .buy, 10, 4, 1⟩ (by decide)).messages.map .snapshot

/-- The third update is lost as well. -/
def twoGaps : List SocketMessage :=
  oneGap ++ [.incremental ⟨4, ⟨.modify, 1, 0, .buy, 10, 2, 1⟩⟩]

/-- The hypotheses are met by a run with one recovery. -/
theorem opensOpen_listens_sample : ∃ h : FeedHandler,
    Reached step (fun h d => Delivered modifiedOrder d ∧ h.OpensOpen d) create
      (oneGap.take 5) h ∧
    h.inRecovery = true ∧ h.snapshotFeed = .receiving := by
  obtain ⟨h, hreached, hcheck⟩ := @reached_of_any _ _ _ step
    (fun h d => Delivered modifiedOrder d ∧ h.OpensOpen d) create (oneGap.take 5) inferInstance
    (fun h => decide (h.inRecovery = true)) (by decide +kernel)
  have hrecovery := of_decide_eq_true hcheck
  exact ⟨h, hreached, hrecovery, (opensOpen_listens hreached).1 hrecovery⟩

/-- In the second recovery the snapshot socket is closed. -/
theorem twoGaps_deaf : ∃ h : FeedHandler,
    Reached step (fun h d => Delivered modifiedOrder d ∧ h.Heard d) create twoGaps h ∧
    h.inRecovery = true ∧ h.snapshotFeed = .closed := by
  obtain ⟨h, hreached, hcheck⟩ := @reached_of_any _ _ _ step
    (fun h d => Delivered modifiedOrder d ∧ h.Heard d) create twoGaps inferInstance
    (fun h => decide (h.inRecovery = true ∧ h.snapshotFeed = .closed)) (by decide +kernel)
  exact ⟨h, hreached, of_decide_eq_true hcheck⟩

end Runs

end FeedHandler

end StockExchange
