import StockExchange.OrderServer
import StockExchange.Library.Transitions

/-!
# Responses on their way to one client

The response thread publishes a slot number before it has serialized the response into the
slot, and the ring of slot numbers has two cells whatever its size was meant to be. The
steps of the two threads interleave freely.
-/

namespace StockExchange

open Bytes Transitions

/-- How far `append_to_outbound_buffer` is: the slot number is stored, the write index is
advanced, the counter is incremented, the response is serialized. -/
inductive ResponseThread where
  | idle
  | stored (r : ClientResponseExternal)
  | advanced (r : ClientResponseExternal)
  | counted (r : ClientResponseExternal)
  | serialized (r : ClientResponseExternal)

/-- How far `write_to_socket` is: the counter was positive, a slot number is read, its bytes
are handed to `uv_write`, the counter was positive again, the read index is advanced. -/
inductive LoopThread where
  | idle
  | loaded
  | pointed (index : Nat)
  | written
  | releasing
  | advanced

/-- A connection with its two threads. The writer blocks that are free change as other
connections write and as writes complete. -/
structure Delivery where
  connection : TcpConnection
  nextOutgoingSeqNum : ClientId
  freeWriters : Nat
  responseThread : ResponseThread
  loopThread : LoopThread
  appended : List ClientResponseExternal
  handed : List (List UInt8)

inductive DeliveryStep where
  | respond (r : ClientResponseInternal)
  | loop
  | writers (n : Nat)

namespace Delivery

def create (freeWriters : Nat) : Delivery := ⟨.create, 1, freeWriters, .idle, .idle, [], []⟩

/-- The response thread with the next response, if it is not busy with one. -/
def respond (host : ByteOrder) (s : Delivery) (r : ClientResponseInternal) :
    Except Fault Delivery :=
  match s.responseThread with
  | .idle =>
    let c := s.connection.wrapSendIndex
    let response := ⟨s.nextOutgoingSeqNum.toUInt64, r⟩
    .ok { s with
      connection := { c with writeQueue := c.writeQueue.store c.nextSendValidIndex }
      responseThread := .stored response
      appended := s.appended ++ [response] }
  | .stored response =>
    .ok { s with
      connection := { s.connection with writeQueue := s.connection.writeQueue.advanceWrite }
      responseThread := .advanced response }
  | .advanced response =>
    .ok { s with
      connection := { s.connection with writeQueue := s.connection.writeQueue.increment }
      responseThread := .counted response }
  | .counted response =>
    s.connection.serializeResponse host response >>= fun c =>
      .ok { s with connection := c, responseThread := .serialized response }
  | .serialized _ =>
    .ok { s with
      connection := s.connection.advanceSendIndex
      nextOutgoingSeqNum := s.nextOutgoingSeqNum + 1
      responseThread := .idle }

def loop (s : Delivery) : Except Fault Delivery :=
  match s.loopThread with
  | .idle =>
    if s.connection.writeQueue.numElements = 0 then .ok s else .ok { s with loopThread := .loaded }
  | .loaded => .ok { s with loopThread := .pointed s.connection.writeQueue.readElement }
  | .pointed index =>
    if 0 < s.freeWriters ∧ index < maxBufferedResponse then
      .ok { s with
        freeWriters := s.freeWriters - 1
        loopThread := .written
        handed := s.handed ++ [readCells s.connection.outboundData
          (TcpConnection.responseBuffer index) sizeofClientResponse] }
    else .error .badAccess
  | .written =>
    if s.connection.writeQueue.numElements = 0 then .ok { s with loopThread := .idle }
    else .ok { s with loopThread := .releasing }
  | .releasing =>
    .ok { s with
      connection := { s.connection with writeQueue := s.connection.writeQueue.advanceRead }
      loopThread := .advanced }
  | .advanced =>
    .ok { s with
      connection := { s.connection with writeQueue := s.connection.writeQueue.decrement }
      loopThread := .idle }

def step (host : ByteOrder) (s : Delivery) : DeliveryStep → Except Fault Delivery
  | .respond r => s.respond host r
  | .loop => s.loop
  | .writers n => .ok { s with freeWriters := n }

end Delivery

namespace ResponseThread

/-- The response that is being appended. -/
def current : ResponseThread → List ClientResponseExternal
  | .idle => []
  | .stored r => [r]
  | .advanced r => [r]
  | .counted r => [r]
  | .serialized r => [r]

/-- Whether the write index has passed its slot number. -/
def moved : ResponseThread → Nat
  | .idle => 0
  | .stored _ => 0
  | _ => 1

/-- Whether its slot number is published. -/
def published : ResponseThread → Nat
  | .counted _ => 1
  | .serialized _ => 1
  | _ => 0

/-- Whether its slot number is published and the slot is not yet filled. -/
def serializing : ResponseThread → Bool
  | .counted _ => true
  | _ => false

/-- Whether it is in its slot. -/
def written : ResponseThread → Nat
  | .serialized _ => 1
  | _ => 0

end ResponseThread

namespace LoopThread

/-- Whether a slot number is read but not given back. -/
def held : LoopThread → Nat
  | .idle => 0
  | .loaded => 0
  | _ => 1

def ahead : LoopThread → Nat
  | .advanced => 1
  | _ => 0

/-- The slot whose bytes are to be handed over. -/
def pointer : LoopThread → Option Nat
  | .pointed index => some index
  | _ => none

def pending : LoopThread → Nat
  | .pointed _ => 1
  | _ => 0

end LoopThread

namespace Delivery

/-- A response is appended only while a cell of the ring holds no slot number that is still
to be read, and into a slot of the array; bytes are handed over only when the response is in
its slot and a writer block is free. -/
def Orderly (s : Delivery) : DeliveryStep → Prop
  | .respond _ => s.responseThread.current = [] →
    s.connection.writeQueue.numElements < s.connection.writeQueue.size + s.loopThread.held ∧
      s.connection.nextSendValidIndex ≠ maxBufferedResponse
  | .loop => ∀ index ∈ s.loopThread.pointer, 0 < s.freeWriters ∧
    (s.responseThread.serializing = true → index ≠ s.connection.nextSendValidIndex)
  | .writers _ => True

instance (s : Delivery) : ∀ e, Decidable (s.Orderly e)
  | .respond _ => inferInstanceAs (Decidable (_ = [] → _ < _ ∧ _ ≠ _))
  | .loop => inferInstanceAs (Decidable (∀ index ∈ _, _ ∧ (_ = true → index ≠ _)))
  | .writers _ => .isTrue trivial

/-- Of the slot numbers stored so far `published` are published and `read` are read. -/
structure Ring (q : LockFreeQueue Nat) (stored moved published : Nat) (loop : LoopThread)
    (read : Nat) : Prop where
  size : q.size = 2
  holds : ∃ r, r + loop.held = read + loop.ahead ∧
    q.Holds moved r read (List.range' read (stored - read))
  room : stored ≤ read + 2
  counted : q.numElements + read = published + loop.held
  reading : read ≤ published
  loaded : loop = .loaded → read < published

section RingSteps
variable {q : LockFreeQueue Nat} {stored moved published read k : Nat} {loop : LoopThread}

theorem Ring.store (h : Ring q k k k loop read) (hfree : q.numElements < q.size + loop.held) :
    Ring (q.store k) (k + 1) k k loop read := by
  obtain ⟨hsize, ⟨r, hr, hholds⟩, hroom, hcounted, hreading, hloaded⟩ := h
  have hstore := hholds.store (by rw [List.length_range']; omega)
    (by rw [List.length_range']; omega) k
  have hrange : List.range' read (k - read) ++ [k] = List.range' read (k + 1 - read) := by
    have hlast : read + 1 * (k - read) = k := by omega
    rw [Nat.succ_sub hreading, List.range'_concat, hlast]
  rw [hrange] at hstore
  exact ⟨hsize, ⟨r, hr, hstore⟩, by omega, hcounted, hreading, hloaded⟩

theorem Ring.advanceWrite (h : Ring q stored moved published loop read) :
    Ring q.advanceWrite stored (moved + 1) published loop read := by
  obtain ⟨hsize, ⟨r, hr, hholds⟩, hroom, hcounted, hreading, hloaded⟩ := h
  exact ⟨hsize, ⟨r, hr, hholds.advanceWrite⟩, hroom, hcounted, hreading, hloaded⟩

theorem Ring.increment (h : Ring q stored moved published loop read) :
    Ring q.increment stored moved (published + 1) loop read := by
  obtain ⟨hsize, ⟨r, hr, hholds⟩, hroom, hcounted, hreading, hloaded⟩ := h
  refine ⟨hsize, ⟨r, hr, hholds.increment⟩, hroom, ?_, by omega,
    fun hl => Nat.lt_succ_of_lt (hloaded hl)⟩
  rw [LockFreeQueue.numElements_increment]
  omega

theorem Ring.load (h : Ring q stored moved published .idle read) (hpos : q.numElements ≠ 0) :
    Ring q stored moved published .loaded read := by
  obtain ⟨hsize, hholds, hroom, hcounted, hreading, -⟩ := h
  simp only [LoopThread.held, Nat.add_zero] at hcounted
  exact ⟨hsize, hholds, hroom, hcounted, hreading, fun _ => by omega⟩

/-- The slot number that is read is the next one in order. -/
theorem Ring.point (h : Ring q stored moved published .loaded read)
    (hle : published ≤ stored) : q.readElement = read ∧
      Ring q stored moved published (.pointed q.readElement) (read + 1) := by
  obtain ⟨hsize, ⟨r, hr, hholds⟩, hroom, hcounted, hreading, hloaded⟩ := h
  have hlt := hloaded rfl
  simp only [LoopThread.held, LoopThread.ahead, Nat.add_zero] at hr hcounted
  subst hr
  have hrange : List.range' r (stored - r) = r :: List.range' (r + 1) (stored - (r + 1)) := by
    have hsucc : stored - r = stored - (r + 1) + 1 := by omega
    rw [hsucc, List.range'_succ]
  rw [hrange] at hholds
  refine ⟨hholds.readElement, hsize, ⟨r, rfl, hholds.release⟩, by omega, ?_, hlt, nofun⟩
  simp only [LoopThread.held]
  omega

theorem Ring.hand {i : Nat} (h : Ring q stored moved published (.pointed i) read) :
    Ring q stored moved published .written read :=
  ⟨h.size, h.holds, h.room, h.counted, h.reading, nofun⟩

theorem Ring.check (h : Ring q stored moved published .written read) :
    q.numElements ≠ 0 ∧ Ring q stored moved published .releasing read := by
  refine ⟨?_, h.size, h.holds, h.room, h.counted, h.reading, nofun⟩
  have hcounted := h.counted
  have hreading := h.reading
  simp only [LoopThread.held] at hcounted
  omega

theorem Ring.advanceRead (h : Ring q stored moved published .releasing read) :
    Ring q.advanceRead stored moved published .advanced read := by
  obtain ⟨hsize, ⟨r, hr, hholds⟩, hroom, hcounted, hreading, -⟩ := h
  refine ⟨hsize, ⟨r + 1, ?_, hholds.advanceRead⟩, hroom, hcounted, hreading, nofun⟩
  simp only [LoopThread.held, LoopThread.ahead] at hr ⊢
  omega

theorem Ring.decrement (h : Ring q stored moved published .advanced read) :
    Ring q.decrement stored moved published .idle read := by
  obtain ⟨hsize, ⟨r, hr, hholds⟩, hroom, hcounted, hreading, -⟩ := h
  refine ⟨hsize, ⟨r, ?_, hholds.decrement⟩, hroom, ?_, hreading, nofun⟩
  · simp only [LoopThread.held, LoopThread.ahead] at hr ⊢
    omega
  · simp only [LoopThread.held] at hcounted ⊢
    rw [LockFreeQueue.numElements_decrement]
    omega

end RingSteps

/-- Response number `i` goes into slot `i`; the next slot is number `next`. -/
structure Filling (host : ByteOrder) (outboundData : Nat → UInt8) (next : Nat) (seq : ClientId)
    (thread : ResponseThread) (appended : List ClientResponseExternal) : Prop where
  index : next ≤ maxBufferedResponse
  current : appended.drop next = thread.current
  length : appended.length = next + thread.current.length
  busy : thread.current ≠ [] → next < maxBufferedResponse
  number : seq = UInt32.ofNat (next + 1)
  numbered : appended.map (·.sequenceNumber) =
    (List.range appended.length).map fun i => UInt64.ofNat (i + 1)
  slots : ∀ i (h : i < appended.length), i < next + thread.written →
    readCells outboundData (TcpConnection.responseBuffer i) sizeofClientResponse =
      serializeClientResponse host appended[i]

section FillingSteps
variable {host : ByteOrder} {outboundData : Nat → UInt8} {next : Nat} {seq : ClientId}
  {thread : ResponseThread} {appended : List ClientResponseExternal}

/-- The steps that only touch the ring. -/
theorem Filling.keep (h : Filling host outboundData next seq thread appended)
    {later : ResponseThread} (hcurrent : later.current = thread.current)
    (hwritten : later.written = thread.written) :
    Filling host outboundData next seq later appended :=
  ⟨h.index, hcurrent ▸ h.current, hcurrent ▸ h.length, hcurrent ▸ h.busy, h.number, h.numbered,
    hwritten ▸ h.slots⟩

/-- A response is numbered. -/
theorem Filling.begin (h : Filling host outboundData next seq .idle appended)
    (hslot : next ≠ maxBufferedResponse) (r : ClientResponseInternal) :
    Filling host outboundData next seq (.stored ⟨seq.toUInt64, r⟩)
      (appended ++ [⟨seq.toUInt64, r⟩]) := by
  obtain ⟨hindex, hcurrent, hlength, hbusy, hnumber, hnumbered, hslots⟩ := h
  have hlen : appended.length = next := hlength
  have hmax : maxBufferedResponse = 1048576 := by decide
  refine ⟨hindex, ?_, ?_, fun _ => by omega, hnumber, ?_, fun i hi hlt => ?_⟩
  · rw [← hlen, List.drop_left]
    rfl
  · rw [List.length_append, hlen]
    rfl
  · rw [List.map_append, hnumbered, List.length_append, List.length_singleton,
      List.range_succ, List.map_append, hnumber, toUInt64_ofNat (by omega), hlen]
    rfl
  · have hold : i < appended.length := hlen ▸ hlt
    rw [List.getElem_append_left hold]
    exact hslots i hold hlt

theorem responseBuffer_apart {i j : Nat} (h : i < j) :
    TcpConnection.responseBuffer i + sizeofClientResponse ≤ TcpConnection.responseBuffer j := by
  simp only [TcpConnection.responseBuffer, sizeofClientResponse]
  omega

/-- The response that is being appended is put into its slot. -/
theorem Filling.serialize {r : ClientResponseExternal}
    (h : Filling host outboundData next seq (.counted r) appended) :
    Filling host (writeCells outboundData (TcpConnection.responseBuffer next)
      (serializeClientResponse host r)) next seq (.serialized r) appended := by
  obtain ⟨hindex, hcurrent, hlength, hbusy, hnumber, hnumbered, hslots⟩ := h
  refine ⟨hindex, hcurrent, hlength, hbusy, hnumber, hnumbered, fun i hi hlt => ?_⟩
  by_cases hnew : i = next
  · subst hnew
    have hlast : appended[i] = r := by
      have hget : (appended.drop i)[0]? = some r := by rw [hcurrent]; rfl
      rw [List.getElem?_drop, Nat.add_zero, List.getElem?_eq_getElem hi] at hget
      exact Option.some.inj hget
    rw [hlast]
    have hread := readCells_writeCells outboundData (TcpConnection.responseBuffer i)
      (serializeClientResponse host r)
    rwa [length_serializeClientResponse] at hread
  · simp only [ResponseThread.written] at hlt
    have hbefore := responseBuffer_apart (show i < next by omega)
    rw [readCells_writeCells_outside _ (.inl hbefore)]
    exact hslots i hi (by simp only [ResponseThread.written]; omega)

theorem Filling.finish {r : ClientResponseExternal}
    (h : Filling host outboundData next seq (.serialized r) appended) :
    Filling host outboundData (next + 1) (seq + 1) .idle appended := by
  obtain ⟨hindex, hcurrent, hlength, hbusy, hnumber, hnumbered, hslots⟩ := h
  refine ⟨hbusy (List.cons_ne_nil _ _), ?_, hlength, nofun, ?_, hnumbered,
    fun i hi hlt => hslots i hi hlt⟩
  · rw [← List.drop_drop, hcurrent]
    rfl
  · rw [hnumber]
    exact (UInt32.ofNat_add (next + 1) 1).symm

end FillingSteps

/-- What was handed over are the first responses, up to the slot number read last. -/
structure Handing (host : ByteOrder) (loop : LoopThread) (read : Nat) (handed : List (List UInt8))
    (appended : List ClientResponseExternal) : Prop where
  pointed : ∀ i ∈ loop.pointer, i + 1 = read
  count : handed.length + loop.pending = read
  handed : handed = (appended.take handed.length).map (serializeClientResponse host)

def Sound (host : ByteOrder) (s : Delivery) (read : Nat) : Prop :=
  Filling host s.connection.outboundData s.connection.nextSendValidIndex s.nextOutgoingSeqNum
    s.responseThread s.appended ∧
  Ring s.connection.writeQueue s.appended.length
    (s.connection.nextSendValidIndex + s.responseThread.moved)
    (s.connection.nextSendValidIndex + s.responseThread.published) s.loopThread read ∧
  Handing host s.loopThread read s.handed s.appended

section Steps
variable {host : ByteOrder} {s s' : Delivery} {read : Nat}

theorem create_sound (freeWriters : Nat) : (create freeWriters).Sound host 0 := by
  refine ⟨⟨Nat.zero_le _, rfl, rfl, fun h => absurd rfl h, rfl, rfl, fun _ h => ?_⟩,
    ⟨rfl, ⟨0, rfl, rfl, rfl, Circular.Window.nil⟩, Nat.zero_le _, rfl, Nat.le_refl _, nofun⟩,
    nofun, rfl, rfl⟩
  exact absurd h (Nat.not_lt_zero _)

theorem Handing.append {loop : LoopThread} {handed : List (List UInt8)}
    {appended : List ClientResponseExternal} (h : Handing host loop read handed appended)
    (hle : read ≤ appended.length) (r : ClientResponseExternal) :
    Handing host loop read handed (appended ++ [r]) := by
  obtain ⟨hpointed, hcount, hhanded⟩ := h
  refine ⟨hpointed, hcount, ?_⟩
  rw [List.take_append_of_le_length (by omega)]
  exact hhanded

theorem respond_sound (h : s.Sound host read) (r : ClientResponseInternal)
    (horderly : s.Orderly (.respond r)) :
    ∃ s', s.respond host r = .ok s' ∧ s'.Sound host read := by
  obtain ⟨c, seq, writers, thread, loop, appended, handed⟩ := s
  obtain ⟨hfilling, hring, hhanding⟩ := h
  dsimp only at hfilling hring hhanding
  cases thread with
  | idle =>
    obtain ⟨hfree, hslot⟩ := horderly rfl
    have hlen : appended.length = c.nextSendValidIndex := hfilling.length
    have hindex := hfilling.index
    have hwrap : c.wrapSendIndex = c := by
      rw [TcpConnection.wrapSendIndex, if_neg (Nat.not_lt.mpr hindex)]
    simp only [ResponseThread.moved, ResponseThread.published, Nat.add_zero, hlen] at hring
    rw [respond]
    dsimp only
    rw [hwrap]
    refine ⟨_, rfl, hfilling.begin hslot r, ?_, hhanding.append (hlen ▸ hring.reading) _⟩
    dsimp only
    rw [List.length_append, List.length_singleton, hlen]
    exact hring.store hfree
  | stored response =>
    have hlater : Filling host c.outboundData c.nextSendValidIndex seq (.advanced response)
      appended := hfilling.keep rfl rfl
    exact ⟨_, rfl, hlater, hring.advanceWrite, hhanding⟩
  | advanced response =>
    have hlater : Filling host c.outboundData c.nextSendValidIndex seq (.counted response)
      appended := hfilling.keep rfl rfl
    exact ⟨_, rfl, hlater, hring.increment, hhanding⟩
  | counted response =>
    have hslot := hfilling.busy (List.cons_ne_nil _ _)
    rw [respond]
    dsimp only
    rw [TcpConnection.serializeResponse, if_pos hslot, ok_bind]
    exact ⟨_, rfl, hfilling.serialize, hring, hhanding⟩
  | serialized response => exact ⟨_, rfl, hfilling.finish, hring, hhanding⟩

theorem loop_sound (h : s.Sound host read) (horderly : s.Orderly .loop) :
    ∃ s' read', s.loop = .ok s' ∧ s'.Sound host read' := by
  obtain ⟨c, seq, writers, thread, loop, appended, handed⟩ := s
  obtain ⟨hfilling, hring, hpointed, hcount, hhanded⟩ := h
  dsimp only at hfilling hring hpointed hcount hhanded
  have hlength := hfilling.length
  have hpublished : c.nextSendValidIndex + thread.published ≤ appended.length := by
    cases thread <;> simp only [ResponseThread.published, ResponseThread.current,
      List.length_nil, List.length_singleton] at hlength ⊢ <;> omega
  cases loop with
  | idle =>
    rw [Delivery.loop]
    by_cases hzero : c.writeQueue.numElements = 0
    · exact ⟨_, read, if_pos hzero, hfilling, hring, hpointed, hcount, hhanded⟩
    · exact ⟨_, read, if_neg hzero, hfilling, hring.load hzero, hpointed, hcount, hhanded⟩
  | loaded =>
    obtain ⟨hread, hpoint⟩ := hring.point hpublished
    refine ⟨_, read + 1, rfl, hfilling, hpoint, ?_, ?_, hhanded⟩
    · intro i hi
      rw [← Option.some.inj hi, hread]
    · simp only [LoopThread.pending, Nat.add_zero] at hcount ⊢
      omega
  | pointed index =>
    obtain ⟨hwriter, hfilled⟩ := horderly index rfl
    have hread := hpointed index rfl
    have hreading := hring.reading
    simp only [LoopThread.pending] at hcount
    have hindex : index < appended.length := by omega
    have hwritten : index < c.nextSendValidIndex + thread.written := by
      cases thread with
      | counted r =>
        have hne := hfilled rfl
        simp only [ResponseThread.published, ResponseThread.written] at hreading ⊢
        dsimp only at hne
        omega
      | _ =>
        simp only [ResponseThread.published, ResponseThread.written] at hreading ⊢
        omega
    have hslot : index < maxBufferedResponse := by
      have hmax := hfilling.index
      cases thread with
      | idle =>
        simp only [ResponseThread.written] at hwritten
        omega
      | _ =>
        have hbusy := hfilling.busy (List.cons_ne_nil _ _)
        simp only [ResponseThread.current, List.length_singleton] at hlength
        omega
    refine ⟨_, read, if_pos ⟨hwriter, hslot⟩, hfilling, hring.hand, nofun, ?_, ?_⟩
    · simp only [LoopThread.pending, List.length_append, List.length_singleton]
      omega
    · dsimp only
      have hnext : handed.length = index := by omega
      rw [hnext] at hhanded
      rw [List.length_append, List.length_singleton, hnext, List.take_succ_eq_append_getElem hindex,
        List.map_append, ← hhanded, hfilling.slots index hindex hwritten]
      rfl
  | written =>
    obtain ⟨hzero, hcheck⟩ := hring.check
    exact ⟨_, read, if_neg hzero, hfilling, hcheck, nofun, hcount, hhanded⟩
  | releasing => exact ⟨_, read, rfl, hfilling, hring.advanceRead, nofun, hcount, hhanded⟩
  | advanced => exact ⟨_, read, rfl, hfilling, hring.decrement, nofun, hcount, hhanded⟩

theorem step_sound (h : s.Sound host read) {e : DeliveryStep} (horderly : s.Orderly e) :
    ∃ s' read', s.step host e = .ok s' ∧ s'.Sound host read' := by
  cases e with
  | respond r =>
    obtain ⟨s', hs', hsound⟩ := respond_sound h r horderly
    exact ⟨s', read, hs', hsound⟩
  | loop => exact loop_sound h horderly
  | writers n => exact ⟨_, read, rfl, h⟩

end Steps

/-- With no step of the loop thread in between, the five steps of the response thread are
one call of `append_to_outbound_buffer`. -/
theorem respond_alone (host : ByteOrder) {s : Delivery} (hidle : s.responseThread = .idle)
    (r : ClientResponseInternal) :
    [r, r, r, r, r].foldlM (respond host) s =
      (s.connection.appendToOutboundBuffer host r s.nextOutgoingSeqNum.toUInt64 >>= fun c =>
        .ok { s with
          connection := c
          nextOutgoingSeqNum := s.nextOutgoingSeqNum + 1
          appended := s.appended ++ [⟨s.nextOutgoingSeqNum.toUInt64, r⟩] }) := by
  obtain ⟨c, seq, writers, thread, loop, appended, handed⟩ := s
  cases hidle
  have hsteps : [r, r, r, r, r].foldlM (respond host)
      ⟨c, seq, writers, .idle, loop, appended, handed⟩ =
      ((c.wrapSendIndex.queueSlot.serializeResponse host ⟨seq.toUInt64, r⟩ >>= fun c =>
        .ok ⟨c, seq, writers, .serialized ⟨seq.toUInt64, r⟩, loop,
          appended ++ [⟨seq.toUInt64, r⟩], handed⟩) >>= fun s => [r].foldlM (respond host) s) :=
    rfl
  rw [hsteps, TcpConnection.appendToOutboundBuffer]
  cases c.wrapSendIndex.queueSlot.serializeResponse host ⟨seq.toUInt64, r⟩ <;> rfl

section Runs
variable {host : ByteOrder} {s : Delivery} {es : List DeliveryStep} {freeWriters : Nat}

theorem reached_sound (h : Reached (step host) Orderly (create freeWriters) es s) :
    ∃ read, s.Sound host read := by
  refine h.invariant (P := fun s => ∃ read, Sound host s read) ⟨0, create_sound freeWriters⟩ ?_
  rintro s e s' ⟨read, hsound⟩ horderly hstep
  obtain ⟨s₁, read', hs₁, hsound'⟩ := step_sound hsound horderly
  cases hs₁.symm.trans hstep
  exact ⟨read', hsound'⟩

/-- In an orderly run the bytes handed over are those of the responses appended, in order
and numbered from 1; none is missing when the ring is empty and the response thread idle,
and the next orderly step returns. -/
theorem orderly_delivers (h : Reached (step host) Orderly (create freeWriters) es s) :
    s.handed <+: s.appended.map (serializeClientResponse host) ∧
    s.appended.map (·.sequenceNumber) =
      (List.range s.appended.length).map (fun i => UInt64.ofNat (i + 1)) ∧
    (s.connection.writeQueue.numElements = 0 → s.responseThread = .idle →
      s.handed = s.appended.map (serializeClientResponse host)) ∧
    ∀ e, s.Orderly e → ∃ s', s.step host e = .ok s' := by
  obtain ⟨read, hsound⟩ := reached_sound h
  obtain ⟨hfilling, hring, hpointed, hcount, hhanded⟩ := id hsound
  refine ⟨?_, hfilling.numbered, fun hzero hidle => ?_, fun e he => ?_⟩
  · rw [hhanded, List.map_take]
    exact List.take_prefix _ _
  · have hcounted := hring.counted
    have hreading := hring.reading
    have hlength := hfilling.length
    rw [hidle] at hcounted hreading hlength
    simp only [ResponseThread.published, ResponseThread.current, List.length_nil,
      Nat.add_zero, hzero, Nat.zero_add] at hcounted hreading hlength
    have hpending : s.loopThread.pending = 0 := by
      cases hl : s.loopThread with
      | pointed i =>
        rw [hl] at hcounted
        simp only [LoopThread.held] at hcounted
        omega
      | _ => rfl
    have hall : s.handed.length = s.appended.length := by omega
    rw [hhanded, hall, List.take_length]
  · obtain ⟨s', _, hs', _⟩ := step_sound hsound he
    exact ⟨s', hs'⟩

end Runs

/-- The steps that append a response without a break. -/
def appendSteps (r : ClientResponseInternal) : List DeliveryStep :=
  List.replicate 5 (.respond r)

/-- The steps that write a response without a break. -/
def writeSteps : List DeliveryStep := List.replicate 6 .loop

/-- Two responses are waiting while the first is written, and a third follows. -/
theorem orderly_delivers_sample : ∃ s : Delivery, s.handed.length = 3 ∧
    s.handed <+: s.appended.map (serializeClientResponse .little) ∧
    s.appended.map (·.sequenceNumber) =
      (List.range s.appended.length).map (fun i => UInt64.ofNat (i + 1)) ∧
    (s.connection.writeQueue.numElements = 0 → s.responseThread = .idle →
      s.handed = s.appended.map (serializeClientResponse .little)) ∧
    ∀ e, s.Orderly e → ∃ s', s.step .little e = .ok s' := by
  obtain ⟨s, hs, hcheck⟩ := @reached_of_any _ _ _ (step .little) Orderly (create 3)
    (appendSteps (.ofServer .accepted 0) ++ appendSteps (.ofServer .filled 0) ++ writeSteps ++
      [.respond (.ofServer .canceled 0)] ++ writeSteps ++
      List.replicate 4 (.respond (.ofServer .canceled 0)) ++ writeSteps) _
    (fun s => s.handed.length = 3) (by decide +kernel)
  exact ⟨s, of_decide_eq_true hcheck, orderly_delivers hs⟩

/-- Three responses are appended before any is written: the third comes out first. -/
theorem crowded_ring : ∃ s, Reached (step .little) (fun _ _ => True) (create 3)
    (appendSteps (.ofServer .accepted 0) ++ appendSteps (.ofServer .filled 0) ++
      appendSteps (.ofServer .canceled 0) ++ writeSteps) s ∧
    s.appended = [⟨1, .ofServer .accepted 0⟩, ⟨2, .ofServer .filled 0⟩,
      ⟨3, .ofServer .canceled 0⟩] ∧
    s.handed = [serializeClientResponse .little ⟨3, .ofServer .canceled 0⟩] ∧
    ¬ s.handed <+: s.appended.map (serializeClientResponse .little) := by
  obtain ⟨s, hs, hcheck⟩ := @reached_of_any _ _ _ (step .little) (fun _ _ => True) (create 3)
    (appendSteps (.ofServer .accepted 0) ++ appendSteps (.ofServer .filled 0) ++
      appendSteps (.ofServer .canceled 0) ++ writeSteps) _
    (fun s => s.appended = [⟨1, .ofServer .accepted 0⟩, ⟨2, .ofServer .filled 0⟩,
        ⟨3, .ofServer .canceled 0⟩] ∧
      s.handed = [serializeClientResponse .little ⟨3, .ofServer .canceled 0⟩])
    (by decide +kernel)
  obtain ⟨happended, hhanded⟩ := of_decide_eq_true hcheck
  refine ⟨s, hs, happended, hhanded, ?_⟩
  rw [happended, hhanded]
  decide +kernel

end Delivery

end StockExchange
