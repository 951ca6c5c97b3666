import StockExchange.Serializer
import StockExchange.LockFreeQueue

/-!
# A client connection of the order server

The loop thread reads requests into `inboundData`. The response thread serializes responses
into the slots of `outboundData` and passes slot numbers to the loop thread through
`writeQueue`.
-/

namespace StockExchange

open Bytes

def tcpBufferSize : Nat := 64 * 1024 * 1024

def maxBufferedResponse : Nat := 1024 * 1024

structure TcpConnection where
  outboundData : Nat → UInt8
  nextSendValidIndex : Nat
  inboundData : Nat → UInt8
  nextRcvValidIndex : Nat
  writeQueue : LockFreeQueue Nat

/-- `lock_free_queue<size_t>{size}`. The braces of `data_{size, T()}` list the elements when
`T` is `size_t`: the ring has two cells. -/
def LockFreeQueue.createIndices (size : Nat) : LockFreeQueue Nat :=
  ⟨2, fun i => if i = 0 then size else 0, 0, 0, 0⟩

namespace TcpConnection

def create : TcpConnection where
  outboundData _ := 0
  nextSendValidIndex := 0
  inboundData _ := 0
  nextRcvValidIndex := 0
  writeQueue := .createIndices maxBufferedResponse

/-- `get_response_buffer`: where a slot begins in `outboundData`. -/
def responseBuffer (index : Nat) : Nat := index * sizeofClientResponse

/-! The steps of `append_to_outbound_buffer`. -/

def wrapSendIndex (c : TcpConnection) : TcpConnection :=
  if c.nextSendValidIndex > maxBufferedResponse then { c with nextSendValidIndex := 0 } else c

/-- The slot number is put into the ring; the response follows later. -/
def queueSlot (c : TcpConnection) : TcpConnection :=
  { c with writeQueue := c.writeQueue.push c.nextSendValidIndex }

def serializeResponse (host : ByteOrder) (c : TcpConnection) (r : ClientResponseExternal) :
    Except Fault TcpConnection :=
  if c.nextSendValidIndex < maxBufferedResponse then
    .ok { c with
      outboundData := writeCells c.outboundData (responseBuffer c.nextSendValidIndex)
        (serializeClientResponse host r) }
  else .error .badAccess

def advanceSendIndex (c : TcpConnection) : TcpConnection :=
  { c with nextSendValidIndex := c.nextSendValidIndex + 1 }

def appendToOutboundBuffer (host : ByteOrder) (c : TcpConnection)
    (response : ClientResponseInternal) (sequenceNumber : UInt64) :
    Except Fault TcpConnection :=
  c.wrapSendIndex.queueSlot.serializeResponse host ⟨sequenceNumber, response⟩ >>= fun c =>
    .ok c.advanceSendIndex

def shiftInboundBuffer (c : TcpConnection) (processedBytes : Nat) : Except Fault TcpConnection :=
  if 0 < processedBytes ∧ processedBytes ≤ c.nextRcvValidIndex then
    if c.nextRcvValidIndex ≤ tcpBufferSize then
      .ok { c with
        inboundData := moveCells c.inboundData 0 processedBytes
          (c.nextRcvValidIndex - processedBytes)
        nextRcvValidIndex := c.nextRcvValidIndex - processedBytes }
    else .error .badAccess
  else .ok c

/-- `alloc_buffer`: where in `inboundData` the next bytes are to be put, and how many. -/
def allocBuffer (_ : TcpConnection) : Nat × Nat := (0, tcpBufferSize)

/-- A read puts some bytes into the buffer it was given. -/
def receive (c : TcpConnection) (bytes : List UInt8) : TcpConnection :=
  { c with inboundData := writeCells c.inboundData c.allocBuffer.1 bytes }

/-- What `on_read` does with the number of bytes. -/
def arrive (c : TcpConnection) (nread : Nat) : TcpConnection :=
  { c with nextRcvValidIndex := c.nextRcvValidIndex + nread }

section Reading
variable {σ : Type} (host : ByteOrder) (handle : σ → ClientRequestExternal → Except Fault σ)

/-- The loop of `read_data` from index `i` on. -/
def readLoop (c : TcpConnection) : Nat → Nat → σ → Except Fault (σ × Nat)
  | 0, _, _ => .error .outOfFuel
  | fuel + 1, i, s =>
    if i + sizeofClientRequest ≤ c.nextRcvValidIndex then
      if i + sizeofClientRequest ≤ tcpBufferSize then
        handle s (deserializeClientRequest host
          (readCells c.inboundData i sizeofClientRequest)) >>= fun s =>
            readLoop c fuel (i + sizeofClientRequest) s
      else .error .badAccess
    else .ok (s, i)

/-- `read_data`, with what it does to a request left to `handle`. -/
def readData (c : TcpConnection) (s : σ) : Except Fault (TcpConnection × σ) :=
  if sizeofClientRequest ≤ c.nextRcvValidIndex then
    readLoop host handle c (c.nextRcvValidIndex + 1) 0 s >>= fun r =>
      c.shiftInboundBuffer r.2 >>= fun c => .ok (c, r.1)
  else .ok (c, s)

/-- `on_read` after a read of some bytes. -/
def onRead (c : TcpConnection) (s : σ) (bytes : List UInt8) : Except Fault (TcpConnection × σ) :=
  readData host handle ((c.receive bytes).arrive bytes.length) s

end Reading

/-- The valid bytes. -/
def received (c : TcpConnection) : List UInt8 := readCells c.inboundData 0 c.nextRcvValidIndex

/-- The complete requests at the front of some bytes. -/
def requests (host : ByteOrder) (bytes : List UInt8) : List ClientRequestExternal :=
  (blocks sizeofClientRequest bytes).map (deserializeClientRequest host)

section Reading
variable {σ : Type} {host : ByteOrder} {handle : σ → ClientRequestExternal → Except Fault σ}
  {c : TcpConnection}

theorem sizeofClientRequest_pos : 0 < sizeofClientRequest := by decide

theorem length_received : c.received.length = c.nextRcvValidIndex := length_readCells ..

theorem requests_append {a b : List UInt8} (h : sizeofClientRequest ∣ a.length) :
    requests host (a ++ b) = requests host a ++ requests host b := by
  rw [requests, blocks_append sizeofClientRequest_pos h, List.map_append]
  rfl

/-- The loop hands over the requests from `i` on and ends after the last. -/
theorem readLoop_eq (hbuffer : c.nextRcvValidIndex ≤ tcpBufferSize) :
    ∀ (fuel i : Nat) (s : σ), i ≤ c.nextRcvValidIndex → c.nextRcvValidIndex < i + fuel →
      readLoop host handle c fuel i s =
        ((requests host (c.received.drop i)).foldlM handle s >>= fun s' =>
          .ok (s', c.nextRcvValidIndex - (leftover sizeofClientRequest (c.received.drop i)).length))
  | 0, i, s, hi, hfuel => by omega
  | fuel + 1, i, s, hi, hfuel => by
    have hlen : (c.received.drop i).length = c.nextRcvValidIndex - i := by
      rw [List.length_drop, length_received]
    rw [readLoop]
    by_cases hnext : i + sizeofClientRequest ≤ c.nextRcvValidIndex
    · have hle : sizeofClientRequest ≤ (c.received.drop i).length := by omega
      have hpos := sizeofClientRequest_pos
      have hblock : field (c.received.drop i) 0 sizeofClientRequest =
          readCells c.inboundData i sizeofClientRequest := by
        rw [received, drop_readCells, field_readCells _ (by omega), Nat.zero_add, Nat.add_zero]
      rw [if_pos hnext, if_pos (by omega), requests,
        blocks_cons sizeofClientRequest_pos hle, List.map_cons, List.foldlM_cons, hblock,
        ← leftover_drop sizeofClientRequest_pos hle, List.drop_drop]
      cases handle s (deserializeClientRequest host (readCells c.inboundData i _)) with
      | error f => rfl
      | ok s' => exact readLoop_eq hbuffer fuel _ s' hnext (by omega)
    · have hlt : (c.received.drop i).length < sizeofClientRequest := by omega
      rw [if_neg hnext, requests, blocks_of_lt hlt, leftover_of_lt hlt, hlen]
      have hback : c.nextRcvValidIndex - (c.nextRcvValidIndex - i) = i := by omega
      rw [hback]
      rfl

/-- Reading hands over the complete requests and leaves the rest at the buffer's start. -/
theorem readData_eq (hbuffer : c.nextRcvValidIndex ≤ tcpBufferSize) (s : σ) : ∃ c',
    readData host handle c s =
      ((requests host c.received).foldlM handle s >>= fun s' => .ok (c', s')) ∧
    c'.received = leftover sizeofClientRequest c.received := by
  have hlen : c.received.length = c.nextRcvValidIndex := length_received
  by_cases hsize : sizeofClientRequest ≤ c.nextRcvValidIndex
  · have hrest := length_leftover (k := sizeofClientRequest) c.received
    have hlt : c.received.length % sizeofClientRequest < sizeofClientRequest :=
      Nat.mod_lt _ sizeofClientRequest_pos
    have hdiv := Nat.div_add_mod c.received.length sizeofClientRequest
    refine ⟨{ c with
      inboundData := moveCells c.inboundData 0
        (c.nextRcvValidIndex - (leftover sizeofClientRequest c.received).length)
        (leftover sizeofClientRequest c.received).length
      nextRcvValidIndex := (leftover sizeofClientRequest c.received).length }, ?_, ?_⟩
    · have hback : ∀ {m n : Nat}, m ≤ n → n - (n - m) = m := by omega
      rw [readData, if_pos hsize, readLoop_eq hbuffer _ _ _ (Nat.zero_le _) (by omega),
        List.drop_zero]
      cases (requests host c.received).foldlM handle s with
      | error f => rfl
      | ok s' =>
        simp only [ok_bind, shiftInboundBuffer]
        rw [if_pos ⟨by omega, by omega⟩, if_pos hbuffer, hback (by omega)]
        rfl
    · have hfrom : c.nextRcvValidIndex - (leftover sizeofClientRequest c.received).length =
          sizeofClientRequest * (c.received.length / sizeofClientRequest) := by omega
      have hleft : leftover sizeofClientRequest c.received =
          readCells c.inboundData (sizeofClientRequest * (c.received.length / sizeofClientRequest))
            (c.nextRcvValidIndex -
              sizeofClientRequest * (c.received.length / sizeofClientRequest)) := by
        rw [leftover, received, drop_readCells, length_readCells, Nat.zero_add]
      rw [TcpConnection.received, readCells_moveCells, hfrom, hrest, hleft]
      congr 1
      omega
  · have hlt : c.received.length < sizeofClientRequest := by omega
    refine ⟨c, ?_, (leftover_of_lt hlt).symm⟩
    rw [readData, if_neg hsize, requests, blocks_of_lt hlt]
    rfl

end Reading

end TcpConnection

end StockExchange
