import StockExchange.Delivery

/-!
# The slots of the outbound buffer

`append_to_outbound_buffer` begins again at the first slot when the index is past
`MAX_BUFFERED_RESPONSE`, so the slot after the last of `outbound_data_` is used before that.
-/

namespace StockExchange

open Bytes Transitions

/-- `outbound_data_.size()`. -/
def outboundDataSize : Nat := sizeofClientResponse * maxBufferedResponse

/-- The slots used by `append_to_outbound_buffer` so far, and the slot numbers that
`write_to_socket` has drained. -/
structure SlotLog where
  delivery : Delivery
  used : List Nat
  drained : Nat

namespace SlotLog

def create (freeWriters : Nat) : SlotLog := ⟨.create freeWriters, [], 0⟩

/-- The slots whose numbers are still in `write_queue_`. -/
def waiting (s : SlotLog) : List Nat := s.used.drop s.drained

/-- The slot that a call of `append_to_outbound_buffer` uses. -/
def nextSlot (s : SlotLog) : Nat := s.delivery.connection.wrapSendIndex.nextSendValidIndex

/-- The step begins such a call. -/
def begins (s : SlotLog) : DeliveryStep → Bool
  | .respond _ => s.delivery.responseThread.current.isEmpty
  | .loop | .writers _ => false

/-- The step counts down the elements of `write_queue_`. -/
def drains (s : SlotLog) : DeliveryStep → Bool
  | .loop => s.delivery.loopThread.ahead = 1
  | .respond _ | .writers _ => false

def step (host : ByteOrder) (s : SlotLog) (e : DeliveryStep) : Except Fault SlotLog := do
  let delivery ← s.delivery.step host e
  .ok {
    delivery := delivery
    used := if s.begins e then s.used ++ [s.nextSlot] else s.used
    drained := if s.drains e then s.drained + 1 else s.drained }

/-- With the response that is appended, at most `MAX_BUFFERED_RESPONSE - 1` are not drained. -/
def Undrained (s : SlotLog) (e : DeliveryStep) : Prop :=
  s.begins e → s.waiting.length + 1 ≤ maxBufferedResponse - 1

/-- A response is appended into a slot of `outbound_data_` that is not waiting. -/
def KeepsSlots (s : SlotLog) (e : DeliveryStep) : Prop :=
  s.begins e → (s.nextSlot + 1) * sizeofClientResponse ≤ outboundDataSize ∧
    s.nextSlot ∉ s.waiting

instance (s : SlotLog) (e : DeliveryStep) : Decidable (s.Undrained e) :=
  inferInstanceAs (Decidable (_ → _))

/-- Slot number `i` is that of response number `i`. -/
structure Filled (s : SlotLog) : Prop where
  index : s.delivery.connection.nextSendValidIndex ≤ maxBufferedResponse
  used : s.used = List.range (s.delivery.connection.nextSendValidIndex +
    s.delivery.responseThread.current.length)
  written : s.delivery.responseThread.written = 1 →
    s.delivery.connection.nextSendValidIndex < maxBufferedResponse

section Steps
variable {host : ByteOrder} {s s' : SlotLog} {e : DeliveryStep}

theorem wrapSendIndex_eq {c : TcpConnection} (h : c.nextSendValidIndex ≤ maxBufferedResponse) :
    c.wrapSendIndex = c := if_neg (Nat.not_lt.mpr h)

theorem create_filled (freeWriters : Nat) : (create freeWriters).Filled :=
  ⟨Nat.zero_le _, rfl, (absurd · Nat.zero_ne_one)⟩

theorem Filled.nextSlot (h : s.Filled) (hbegins : s.begins e) : s.nextSlot = s.used.length := by
  cases e with
  | respond r =>
    have hidle : s.delivery.responseThread.current = [] := List.isEmpty_iff.mp hbegins
    rw [SlotLog.nextSlot, wrapSendIndex_eq h.index, h.used, List.length_range, hidle]
    rfl
  | loop | writers => cases hbegins

theorem step_eq_ok (h : s.step host e = .ok s') : ∃ d, s.delivery.step host e = .ok d ∧
    s' = ⟨d, if s.begins e then s.used ++ [s.nextSlot] else s.used,
      if s.drains e then s.drained + 1 else s.drained⟩ := by
  obtain ⟨d, hd, h⟩ := bind_eq_ok.mp h
  exact ⟨d, hd, (Except.ok.inj h).symm⟩

/-- The loop thread leaves the response thread and its index alone. -/
theorem loop_frame {d d' : Delivery} (h : d.loop = .ok d') :
    d'.responseThread = d.responseThread ∧
      d'.connection.nextSendValidIndex = d.connection.nextSendValidIndex := by
  rw [Delivery.loop] at h
  split at h
  · split at h <;> obtain rfl := Except.ok.inj h <;> exact ⟨rfl, rfl⟩
  · obtain rfl := Except.ok.inj h
    exact ⟨rfl, rfl⟩
  · split at h
    · obtain rfl := Except.ok.inj h
      exact ⟨rfl, rfl⟩
    · cases h
  · split at h <;> obtain rfl := Except.ok.inj h <;> exact ⟨rfl, rfl⟩
  · obtain rfl := Except.ok.inj h
    exact ⟨rfl, rfl⟩
  · obtain rfl := Except.ok.inj h
    exact ⟨rfl, rfl⟩

theorem Filled.respond (h : s.Filled) {r : ClientResponseInternal}
    (hs' : s.step host (.respond r) = .ok s') : s'.Filled := by
  obtain ⟨d, hd, rfl⟩ := step_eq_ok hs'
  have hnext := h.nextSlot (e := .respond r)
  obtain ⟨hindex, hused, hwritten⟩ := h
  change s.delivery.respond host r = .ok d at hd
  rw [Delivery.respond] at hd
  cases hthread : s.delivery.responseThread with
  | idle =>
    rw [hthread] at hd hused
    obtain rfl := Except.ok.inj hd
    have hbegins : s.begins (.respond r) := by rw [begins, hthread]; rfl
    refine ⟨?_, ?_, (absurd · Nat.zero_ne_one)⟩
    · dsimp only
      rw [wrapSendIndex_eq hindex]
      exact hindex
    · dsimp only
      rw [if_pos hbegins, hnext hbegins, wrapSendIndex_eq hindex, hused, List.length_range]
      exact List.range_succ.symm
  | stored response | advanced response =>
    rw [hthread] at hd hused
    obtain rfl := Except.ok.inj hd
    have hbegins : ¬ s.begins (.respond r) := by rw [begins, hthread]; exact Bool.false_ne_true
    exact ⟨hindex, (if_neg hbegins).trans hused, (absurd · Nat.zero_ne_one)⟩
  | counted response =>
    rw [hthread] at hd hused
    obtain ⟨c, hc, hd⟩ := bind_eq_ok.mp hd
    obtain rfl := Except.ok.inj hd
    have hbegins : ¬ s.begins (.respond r) := by rw [begins, hthread]; exact Bool.false_ne_true
    rw [TcpConnection.serializeResponse] at hc
    split at hc
    · rename_i hlt
      obtain rfl := Except.ok.inj hc
      exact ⟨hindex, (if_neg hbegins).trans hused, fun _ => hlt⟩
    · cases hc
  | serialized response =>
    rw [hthread] at hd hused hwritten
    obtain rfl := Except.ok.inj hd
    have hbegins : ¬ s.begins (.respond r) := by rw [begins, hthread]; exact Bool.false_ne_true
    exact ⟨hwritten rfl, (if_neg hbegins).trans hused, (absurd · Nat.zero_ne_one)⟩

theorem Filled.step (h : s.Filled) (hs' : s.step host e = .ok s') : s'.Filled := by
  cases e with
  | respond r => exact h.respond hs'
  | loop =>
    obtain ⟨d, hd, rfl⟩ := step_eq_ok hs'
    obtain ⟨hthread, hindex⟩ := loop_frame hd
    refine ⟨?_, ?_, ?_⟩
    · dsimp only
      rw [hindex]
      exact h.index
    · dsimp only
      rw [hindex, hthread]
      exact h.used
    · dsimp only
      rw [hindex, hthread]
      exact h.written
  | writers n =>
    obtain ⟨d, hd, rfl⟩ := step_eq_ok hs'
    obtain rfl := Except.ok.inj hd
    exact ⟨h.index, h.used, h.written⟩

/-- A response is appended to those before it. -/
theorem length_used (hs' : s.step host e = .ok s') :
    s'.used.length = s.used.length + if s.begins e then 1 else 0 := by
  obtain ⟨d, _, rfl⟩ := step_eq_ok hs'
  dsimp only
  split
  · rw [List.length_append, List.length_singleton]
  · rfl

/-- The next slot is in the array as long as there is one that was never used. -/
theorem Filled.keepsSlots_iff (h : s.Filled) (e : DeliveryStep) :
    s.KeepsSlots e ↔ (s.begins e → s.used.length < maxBufferedResponse) := by
  refine forall_congr' fun hbegins => ?_
  have hnext := h.nextSlot hbegins
  rw [hnext, outboundDataSize, Nat.mul_comm,
    Nat.mul_le_mul_left_iff (show 0 < sizeofClientResponse by decide)]
  refine and_iff_left fun hwaiting => ?_
  have hmem : s.used.length ∈ s.used := List.mem_of_mem_drop hwaiting
  rw [h.used, List.length_range] at hmem
  exact absurd (List.mem_range.mp hmem) (Nat.lt_irrefl _)

end Steps

section Runs
variable {host : ByteOrder} {s : SlotLog} {es : List DeliveryStep} {freeWriters : Nat}

theorem filled_reached {admits : SlotLog → DeliveryStep → Prop}
    (h : Reached (step host) admits (create freeWriters) es s) : s.Filled :=
  h.invariant (create_filled freeWriters) fun _ _ _ hs _ hs' => hs.step hs'

theorem length_used_le (h : Reached (step host) (fun s e => s.Undrained e ∧ s.KeepsSlots e)
    (create freeWriters) es s) : s.used.length ≤ maxBufferedResponse := by
  induction h with
  | start => exact Nat.zero_le _
  | call before admitted returns ih =>
    have hkeeps := ((filled_reached before).keepsSlots_iff _).mp admitted.2
    rw [length_used returns]
    split
    · exact hkeeps ‹_›
    · exact ih

/-- Every slot that is used is in the array and not waiting exactly if the array has a slot
for each response that is ever appended. -/
theorem slots_kept_iff (h : Reached (step host) Undrained (create freeWriters) es s) :
    Reached (step host) (fun s e => s.Undrained e ∧ s.KeepsSlots e) (create freeWriters) es s ↔
      s.used.length ≤ maxBufferedResponse := by
  refine ⟨length_used_le, fun hle => ?_⟩
  induction h with
  | start => exact .start
  | call before admitted returns ih =>
    rw [length_used returns] at hle
    refine .call (ih (Nat.le_trans (Nat.le_add_right ..) hle)) ⟨admitted, ?_⟩ returns
    refine ((filled_reached before).keepsSlots_iff _).mpr fun hbegins => ?_
    rw [if_pos hbegins] at hle
    exact hle

end Runs

section Cycle
variable {host : ByteOrder} {s : SlotLog} {k : Nat}

/-- Between a response and the next one, all that were appended are drained. -/
structure Rested (s : SlotLog) (k : Nat) : Prop where
  responseThread : s.delivery.responseThread = .idle
  loopThread : s.delivery.loopThread = .idle
  index : s.delivery.connection.nextSendValidIndex = k
  empty : s.delivery.connection.writeQueue.numElements = 0
  even : s.delivery.connection.writeQueue.nextReadIndex =
    s.delivery.connection.writeQueue.nextWriteIndex
  used : s.used.length = k
  drained : s.drained = k

/-- A response is appended and drained with no step of the other thread in between. -/
def cycleSteps : List DeliveryStep :=
  Delivery.appendSteps (.ofServer .accepted 0) ++ [.writers 1] ++ Delivery.writeSteps

theorem create_rested (freeWriters : Nat) : (create freeWriters).Rested 0 :=
  ⟨rfl, rfl, rfl, rfl, rfl, rfl, rfl⟩

theorem Rested.cycle (h : s.Rested k) (hk : k < maxBufferedResponse) :
    ∃ s', Reached (step host) Undrained s cycleSteps s' ∧ s'.Rested (k + 1) := by
  obtain ⟨⟨⟨out, next, inb, rcv, ⟨size, data, w, r, num⟩⟩, seq, writers, thread, loop, appended,
    handed⟩, used, drained⟩ := s
  obtain ⟨hthread, hloop, hindex, hempty, heven, hused, hdrained⟩ := h
  dsimp only at hthread hloop hindex hempty heven hused hdrained
  subst hthread hloop hindex hempty heven hdrained
  have hwrap : ¬ drained > maxBufferedResponse := by omega
  have hmax : 1 ≤ maxBufferedResponse - 1 := by decide
  let response : ClientResponseExternal := ⟨seq.toUInt64, .ofServer .accepted 0⟩
  let out' := writeCells out (TcpConnection.responseBuffer drained)
    (serializeClientResponse host response)
  have hrun : follow (step host) Undrained ⟨⟨⟨out, drained, inb, rcv, ⟨size, data, r, r, 0⟩⟩, seq,
      writers, .idle, .idle, appended, handed⟩, used, drained⟩ cycleSteps =
      some ⟨⟨⟨out', drained + 1, inb, rcv,
        ⟨size, Function.update data r drained, (r + 1) % size, (r + 1) % size, 0⟩⟩, seq + 1, 0,
        .idle, .idle, appended ++ [response], handed ++ [readCells out'
          (TcpConnection.responseBuffer drained) sizeofClientResponse]⟩, used ++ [drained],
        drained + 1⟩ := by
    simp [follow, cycleSteps, Delivery.appendSteps, Delivery.writeSteps, List.replicate, step,
      Delivery.step, Delivery.respond, Delivery.loop, begins, drains, Undrained, waiting, nextSlot,
      TcpConnection.wrapSendIndex, TcpConnection.serializeResponse, TcpConnection.advanceSendIndex,
      ResponseThread.current, LoopThread.ahead, LockFreeQueue.store, LockFreeQueue.advanceWrite,
      LockFreeQueue.increment, LockFreeQueue.readElement, LockFreeQueue.advanceRead,
      LockFreeQueue.decrement, hwrap, hk, hused, hmax, response, out']
  have hreached : Reached (step host) Undrained _ ([] ++ cycleSteps) _ :=
    reached_of_follow .start hrun
  refine ⟨_, hreached, rfl, rfl, rfl, rfl, rfl, ?_, rfl⟩
  dsimp only
  rw [List.length_append, hused, List.length_singleton]

theorem cycles_reached (host : ByteOrder) (freeWriters : Nat) (hk : k ≤ maxBufferedResponse) :
    ∃ s, Reached (step host) Undrained (create freeWriters) (List.replicate k cycleSteps).flatten
      s ∧ s.Rested k := by
  induction k with
  | zero => exact ⟨_, .start, create_rested freeWriters⟩
  | succ k ih =>
    obtain ⟨s, hs, hrested⟩ := ih (Nat.le_of_succ_le hk)
    obtain ⟨s', hs', hrested'⟩ := hrested.cycle hk
    refine ⟨s', ?_, hrested'⟩
    rw [List.replicate_succ', List.flatten_append, List.flatten_singleton]
    exact hs.append hs'

/-- The hypothesis is met by a run in which both threads take turns. -/
theorem slots_kept_iff_sample : ∃ s : SlotLog, s.used = [0, 1, 2] ∧ s.drained = 1 ∧
    Reached (step .little) (fun s e => s.Undrained e ∧ s.KeepsSlots e) (create 3)
      (Delivery.appendSteps (.ofServer .accepted 0) ++ Delivery.appendSteps (.ofServer .filled 0) ++
        Delivery.writeSteps ++ Delivery.appendSteps (.ofServer .canceled 0)) s := by
  obtain ⟨s, hs, hcheck⟩ := @reached_of_any _ _ _ (step .little) Undrained (create 3)
    (Delivery.appendSteps (.ofServer .accepted 0) ++ Delivery.appendSteps (.ofServer .filled 0) ++
      Delivery.writeSteps ++ Delivery.appendSteps (.ofServer .canceled 0)) _
    (fun s => s.used = [0, 1, 2] ∧ s.drained = 1) (by decide +kernel)
  obtain ⟨hused, hdrained⟩ := of_decide_eq_true hcheck
  exact ⟨s, hused, hdrained, (slots_kept_iff hs).mpr (by rw [hused]; decide)⟩

/-- Each response is drained before the next one, and the one after the first
`MAX_BUFFERED_RESPONSE` goes behind the end of the array. -/
theorem lastSlot_outside : ∃ s, Reached (step .little) Undrained (create 1)
      ((List.replicate maxBufferedResponse cycleSteps).flatten ++
        [.respond (.ofServer .accepted 0)]) s ∧
    ¬ Reached (step .little) (fun s e => s.Undrained e ∧ s.KeepsSlots e) (create 1)
      ((List.replicate maxBufferedResponse cycleSteps).flatten ++
        [.respond (.ofServer .accepted 0)]) s := by
  obtain ⟨s, hs, hrested⟩ := cycles_reached .little 1 (Nat.le_refl maxBufferedResponse)
  have hbegins : s.begins (.respond (.ofServer .accepted 0)) := by
    rw [begins, hrested.responseThread]
    rfl
  have hundrained : s.Undrained (.respond (.ofServer .accepted 0)) := by
    intro _
    rw [waiting, List.length_drop, hrested.used, hrested.drained, Nat.sub_self]
    decide
  obtain ⟨s', hs'⟩ : ∃ s', s.step .little (.respond (.ofServer .accepted 0)) = .ok s' := by
    simp only [SlotLog.step, Delivery.step, Delivery.respond, hrested.responseThread]
    exact ⟨_, rfl⟩
  refine ⟨s', .call hs hundrained hs', fun hkept => ?_⟩
  have hle := length_used_le hkept
  rw [length_used hs', if_pos hbegins, hrested.used] at hle
  omega

end Cycle

end SlotLog

end StockExchange
