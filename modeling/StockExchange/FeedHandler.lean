import StockExchange.SnapshotReplay

/-!
# The feed handler

In sequence, incremental updates are passed on one by one. After a gap the messages of both
streams are queued by number, and after each of them the handler looks whether the queues
hold a complete snapshot and all that follows it.
-/

namespace StockExchange

open Transitions

/-- `std::map<uint64_t, market_update>`: the entries by increasing number. -/
abbrev QueuedMarketUpdates := List ClientMarketUpdate

namespace QueuedMarketUpdates

def contains (m : QueuedMarketUpdates) (seq : UInt64) : Bool :=
  m.any fun e => e.sequenceNumber = seq

/-- An entry that is there is kept. -/
def emplace (u : ClientMarketUpdate) : QueuedMarketUpdates → QueuedMarketUpdates
  | [] => [u]
  | e :: m =>
    if u.sequenceNumber < e.sequenceNumber then u :: e :: m
    else if u.sequenceNumber = e.sequenceNumber then e :: m
    else e :: emplace u m

theorem mem_emplace {u e : ClientMarketUpdate} {m : QueuedMarketUpdates}
    (h : e ∈ emplace u m) : e = u ∨ e ∈ m := by
  induction m with
  | nil => exact .inl (List.mem_singleton.mp h)
  | cons d m ih =>
    rw [emplace] at h
    split at h
    · exact (List.mem_cons.mp h)
    · split at h
      · exact .inr h
      · rcases List.mem_cons.mp h with rfl | h
        · exact .inr List.mem_cons_self
        · exact (ih h).imp_right (List.mem_cons_of_mem d)

end QueuedMarketUpdates

open QueuedMarketUpdates

/-- The socket of the snapshots: nothing is received before `uv_udp_recv_start` and after
`uv_close`. -/
inductive SnapshotSocket where
  | bound
  | receiving
  | closed
deriving DecidableEq

/-- Starting to receive has no effect on a closed handle. -/
def SnapshotSocket.recvStart : SnapshotSocket → SnapshotSocket
  | .bound => .receiving
  | .receiving => .receiving
  | .closed => .closed

/-- `incomingUpdates` is everything that was written to `incoming_updates_`. -/
structure FeedHandler where
  nextExpectedSeq : UInt64
  incomingUpdates : List MarketUpdate
  snapshotFeed : SnapshotSocket
  inRecovery : Bool
  snapshotQueuedMsgs : QueuedMarketUpdates
  incrementalQueuedMsgs : QueuedMarketUpdates

namespace FeedHandler

def create : FeedHandler where
  nextExpectedSeq := 1
  incomingUpdates := []
  snapshotFeed := .bound
  inRecovery := false
  snapshotQueuedMsgs := []
  incrementalQueuedMsgs := []

/-- The loop over the queued snapshot: its content, or `none` after a gap. -/
def synchronizeSnapshot : UInt64 → QueuedMarketUpdates → Option (List MarketUpdate)
  | _, [] => some []
  | nextSnapshotSeq, e :: m =>
    if e.sequenceNumber ≠ nextSnapshotSeq then none
    else (synchronizeSnapshot (nextSnapshotSeq + 1) m).map fun us =>
      if e.sequenceNumber ≠ 0 ∧ e.update.type ≠ .snapshotEnd then e.update :: us else us

/-- The loop over the queued incremental updates: the number expected at its end, and the
updates, or `none` after a gap. -/
def synchronizeIncremental : UInt64 → QueuedMarketUpdates → UInt64 × Option (List MarketUpdate)
  | nextExpectedSeq, [] => (nextExpectedSeq, some [])
  | nextExpectedSeq, e :: m =>
    if e.sequenceNumber < nextExpectedSeq then synchronizeIncremental nextExpectedSeq m
    else if e.sequenceNumber ≠ nextExpectedSeq then (nextExpectedSeq, none)
    else
      let r := synchronizeIncremental (nextExpectedSeq + 1) m
      (r.1, r.2.map (e.update :: ·))

/-- Both queues are complete: what they hold is passed on. -/
def leaveRecovery (h : FeedHandler) (nextExpectedSeq : UInt64)
    (synchronizedUpdates : List MarketUpdate) : FeedHandler where
  nextExpectedSeq := nextExpectedSeq
  incomingUpdates := h.incomingUpdates ++ synchronizedUpdates
  snapshotFeed := .closed
  inRecovery := false
  snapshotQueuedMsgs := []
  incrementalQueuedMsgs := []

def syncSnapshotWithIncremental (h : FeedHandler) : FeedHandler :=
  match h.snapshotQueuedMsgs.head?, h.snapshotQueuedMsgs.getLast? with
  | some first, some last =>
    if first.sequenceNumber ≠ 0 then { h with snapshotQueuedMsgs := [] }
    else match synchronizeSnapshot 0 h.snapshotQueuedMsgs with
      | none => { h with snapshotQueuedMsgs := [] }
      | some content =>
        if last.update.type ≠ .snapshotEnd then h
        else match synchronizeIncremental (last.update.orderId + 1) h.incrementalQueuedMsgs with
          | (next, none) => { h with nextExpectedSeq := next, snapshotQueuedMsgs := [] }
          | (next, some updates) => h.leaveRecovery next (content ++ updates)
  | _, _ => h

def queueMessage (isSnapshot : Bool) (u : ClientMarketUpdate) (h : FeedHandler) : FeedHandler :=
  (if isSnapshot then
    { h with
      snapshotQueuedMsgs := emplace u
        (if contains h.snapshotQueuedMsgs u.sequenceNumber then [] else h.snapshotQueuedMsgs) }
  else { h with incrementalQueuedMsgs := emplace u h.incrementalQueuedMsgs }
    ).syncSnapshotWithIncremental

/-- The queues are cleared and the snapshots are listened to. -/
def enterRecovery (h : FeedHandler) : FeedHandler :=
  { h with
    inRecovery := true
    snapshotQueuedMsgs := []
    incrementalQueuedMsgs := []
    snapshotFeed := h.snapshotFeed.recvStart }

/-- The body of the loop of `read_data`. -/
def readUpdate (isSnapshot : Bool) (u : ClientMarketUpdate) (h : FeedHandler) : FeedHandler :=
  if h.inRecovery then h.queueMessage isSnapshot u
  else if u.sequenceNumber ≠ h.nextExpectedSeq then h.enterRecovery.queueMessage isSnapshot u
  else if isSnapshot then h
  else
    { h with
      nextExpectedSeq := h.nextExpectedSeq + 1
      incomingUpdates := h.incomingUpdates ++ [u.update] }

end FeedHandler

end StockExchange
