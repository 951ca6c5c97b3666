import StockExchange.FeedHandler

/-!
# Datagrams of the market data

The publishers put the records of a datagram at multiples of their size, and the feed
handler takes them out in steps of that size. What is left of a datagram is moved to the
start of the buffer.
-/

namespace StockExchange

open Bytes

/-- `multicast_connection_t`. -/
structure MulticastConnection where
  buffer : Nat → UInt8
  offset : Nat

namespace MulticastConnection

def shiftInboundBuffer (c : MulticastConnection) (processedBytes : Nat) : MulticastConnection :=
  if 0 < processedBytes ∧ processedBytes ≤ c.offset then
    { buffer := moveCells c.buffer 0 processedBytes (c.offset - processedBytes)
      offset := c.offset - processedBytes }
  else c

/-- A datagram is put at the start of the buffer, and `on_read` counts its bytes. -/
def receive (c : MulticastConnection) (datagram : List UInt8) : MulticastConnection where
  buffer := writeCells c.buffer 0 datagram
  offset := c.offset + datagram.length

section Reading
variable {σ : Type} (host : ByteOrder) (handle : σ → ClientMarketUpdate → σ)

/-- The loop of `read_data` from index `i` on: the state it leaves and the index it stops
at. -/
def readLoop (c : MulticastConnection) (i : Nat) (s : σ) : σ × Nat :=
  if i + sizeofClientMarketUpdate ≤ c.offset then
    readLoop c (i + sizeofClientMarketUpdate)
      (handle s (deserializeMarketUpdate host (readCells c.buffer i sizeofClientMarketUpdate)))
  else (s, i)
termination_by c.offset - i
decreasing_by
  simp only [sizeofClientMarketUpdate] at *
  omega

/-- `read_data`, with what it does to an update left to `handle`. -/
def readData (c : MulticastConnection) (s : σ) : MulticastConnection × σ :=
  if sizeofClientMarketUpdate ≤ c.offset then
    let r := readLoop host handle c 0 s
    (c.shiftInboundBuffer r.2, r.1)
  else (c, s)

/-- `on_read` of a datagram. -/
def onRead (c : MulticastConnection) (s : σ) (datagram : List UInt8) :
    MulticastConnection × σ :=
  if 0 < datagram.length then readData host handle (c.receive datagram) s else (c, s)

end Reading

/-- The valid bytes. -/
def received (c : MulticastConnection) : List UInt8 := readCells c.buffer 0 c.offset

section Reading
variable {σ : Type} (host : ByteOrder) (handle : σ → ClientMarketUpdate → σ)
  {c : MulticastConnection}

theorem length_received : c.received.length = c.offset := length_readCells ..

/-- The loop hands over the records from `i` on and stops after the last. -/
theorem readLoop_eq {i : Nat} (hi : i ≤ c.offset) (s : σ) : readLoop host handle c i s =
    ((decode host (c.received.drop i)).foldl handle s,
      c.offset - (leftover sizeofClientMarketUpdate (c.received.drop i)).length) := by
  induction i, s using @readLoop.induct σ host handle c with
  | case1 i s hnext ih =>
    have hlen : (c.received.drop i).length = c.offset - i := by
      rw [List.length_drop, length_received]
    have hle : sizeofClientMarketUpdate ≤ (c.received.drop i).length := by omega
    have hblock : field (c.received.drop i) 0 sizeofClientMarketUpdate =
        readCells c.buffer i sizeofClientMarketUpdate := by
      rw [received, drop_readCells, field_readCells _ (by omega), Nat.zero_add, Nat.add_zero]
    rw [readLoop, if_pos hnext, ih hnext, decode, decode,
      blocks_cons sizeofClientMarketUpdate_pos hle, List.map_cons, List.foldl_cons, hblock,
      ← leftover_drop sizeofClientMarketUpdate_pos hle, List.drop_drop]
  | case2 i s hnext =>
    have hlen : (c.received.drop i).length = c.offset - i := by
      rw [List.length_drop, length_received]
    have hlt : (c.received.drop i).length < sizeofClientMarketUpdate := by omega
    have hback : c.offset - (c.offset - i) = i := by omega
    rw [readLoop, if_neg hnext, decode, blocks_of_lt hlt, leftover_of_lt hlt, hlen, hback]
    rfl

/-- A datagram of whole records is handed over and leaves nothing behind. -/
theorem onRead_whole (hempty : c.offset = 0) {datagram : List UInt8}
    (hwhole : sizeofClientMarketUpdate ∣ datagram.length) (s : σ) :
    (onRead host handle c s datagram).2 = (decode host datagram).foldl handle s ∧
      (onRead host handle c s datagram).1.offset = 0 := by
  by_cases hpos : 0 < datagram.length
  · have hoffset : (c.receive datagram).offset = datagram.length := by
      rw [receive, hempty, Nat.zero_add]
    have hreceived : (c.receive datagram).received = datagram := by
      rw [received, hoffset]
      exact readCells_writeCells c.buffer 0 datagram
    have hle : sizeofClientMarketUpdate ≤ (c.receive datagram).offset := by
      rw [hoffset]
      exact Nat.le_of_dvd hpos hwhole
    have hleft : (leftover sizeofClientMarketUpdate datagram).length = 0 := by
      rw [length_leftover]
      exact Nat.mod_eq_zero_of_dvd hwhole
    have hloop := readLoop_eq host handle (Nat.zero_le (c.receive datagram).offset) s
    rw [List.drop_zero, hreceived, hleft, hoffset, Nat.sub_zero] at hloop
    rw [onRead, if_pos hpos, readData, if_pos hle]
    simp only [hloop, shiftInboundBuffer, hoffset, if_pos (And.intro hpos le_rfl), Nat.sub_self,
      and_self]
  · have hnil : datagram = [] := List.length_eq_zero_iff.mp (Nat.eq_zero_of_not_pos hpos)
    have hnone : decode host [] = [] := decode_encode host []
    rw [onRead, if_neg hpos, hnil, hnone]
    exact ⟨rfl, hempty⟩

end Reading

end MulticastConnection

section Encoding
variable (host : ByteOrder)

/-- Records written one after the other from `index` on, as `add_to_buffer` does. -/
def writeUpdates (buffer : Nat → UInt8) (index : Nat) :
    List ClientMarketUpdate → Nat → UInt8
  | [] => buffer
  | u :: us => writeUpdates (writeCells buffer index (serializeClientMarketUpdate host u))
      (index + sizeofClientMarketUpdate) us

/-- The bytes of a datagram written into `buffer`. -/
def datagramOf (buffer : Nat → UInt8) (us : List ClientMarketUpdate) : List UInt8 :=
  readCells (writeUpdates host buffer 0 us) 0 (sizeofClientMarketUpdate * us.length)

/-- The bytes do not depend on the host. -/
theorem encode_host (host' : ByteOrder) (us : List ClientMarketUpdate) :
    encode host us = encode host' us := by
  rw [encode, encode]
  congr 1
  funext u
  rw [serializeClientMarketUpdate_host, ← serializeClientMarketUpdate_host host']

theorem writeUpdates_below (buffer : Nat → UInt8) (index : Nat) (us : List ClientMarketUpdate)
    {k : Nat} (hk : k < index) : writeUpdates host buffer index us k = buffer k := by
  induction us generalizing buffer index with
  | nil => rfl
  | cons u us ih =>
    rw [writeUpdates, ih _ _ (Nat.lt_add_right _ hk), writeCells_outside buffer (.inl hk)]

/-- The records lie side by side. -/
theorem readCells_writeUpdates (buffer : Nat → UInt8) (index : Nat)
    (us : List ClientMarketUpdate) :
    readCells (writeUpdates host buffer index us) index (sizeofClientMarketUpdate * us.length) =
      encode host us := by
  induction us generalizing buffer index with
  | nil => rfl
  | cons u us ih =>
    have hlen : sizeofClientMarketUpdate * (u :: us).length =
        sizeofClientMarketUpdate + sizeofClientMarketUpdate * us.length := by
      rw [List.length_cons, Nat.mul_succ, Nat.add_comm]
    have hfirst : readCells (writeUpdates host buffer index (u :: us)) index
        sizeofClientMarketUpdate = serializeClientMarketUpdate host u := by
      have hread := readCells_writeCells buffer index (serializeClientMarketUpdate host u)
      rw [length_serializeClientMarketUpdate] at hread
      rw [← hread]
      exact readCells_congr fun k hk => writeUpdates_below host _ _ us (by omega)
    rw [hlen, readCells_append, hfirst, writeUpdates, ih, encode, encode, List.flatMap_cons]

/-- A send buffer with room for them takes the same bytes. -/
theorem addToBuffer_encode_all {b : SendBuffer} (us vs : List ClientMarketUpdate)
    (h : b.datagram = encode host us)
    (hroom : sizeofClientMarketUpdate * (us.length + vs.length) ≤ bufferSize) :
    ∃ b', vs.foldlM (SendBuffer.addToBuffer host) b = .ok b' ∧
      b'.datagram = encode host (us ++ vs) := by
  induction vs generalizing b us with
  | nil => exact ⟨b, rfl, by rw [List.append_nil, h]⟩
  | cons v vs ih =>
    rw [List.length_cons, Nat.add_comm vs.length 1, ← Nat.add_assoc] at hroom
    obtain ⟨b₁, hadd, hb₁⟩ := SendBuffer.addToBuffer_encode (u := v) h
      ((Nat.mul_le_mul_left _ (Nat.le_add_right _ _)).trans hroom)
    obtain ⟨b', hrest, hb'⟩ := ih _ hb₁ (by rwa [List.length_append, List.length_singleton])
    refine ⟨b', ?_, by rw [hb', List.append_assoc]; rfl⟩
    rw [List.foldlM_cons, hadd]
    exact hrest

end Encoding

open MulticastConnection

/-- A datagram of any updates, written on one host and read on another, gives the updates
and leaves the connection empty; the publisher's buffer holds that datagram if it has room;
and a record that is read and written again comes back. -/
theorem datagram_roundtrip (host host' : ByteOrder) (us : List ClientMarketUpdate)
    (sent buffer : Nat → UInt8) :
    (onRead host' (fun read u => read ++ [u]) ⟨buffer, 0⟩ [] (datagramOf host sent us)).2 = us ∧
    (onRead host' (fun read u => read ++ [u]) ⟨buffer, 0⟩ [] (datagramOf host sent us)).1.offset =
      0 ∧
    (sizeofClientMarketUpdate * us.length ≤ bufferSize → ∃ b,
      us.foldlM (SendBuffer.addToBuffer host) .create = .ok b ∧
        b.datagram = datagramOf host sent us) ∧
    ∀ record, record.length = sizeofClientMarketUpdate →
      serializeClientMarketUpdate host (deserializeMarketUpdate host' record) = record := by
  have hbytes : datagramOf host sent us = encode host us := readCells_writeUpdates ..
  have hhost := encode_host host host' us
  have hread := onRead_whole host' (fun (read : List ClientMarketUpdate) u => read ++ [u])
    (c := ⟨buffer, 0⟩) rfl (length_encode host us ▸ Nat.dvd_mul_right ..) []
  rw [hbytes]
  refine ⟨?_, hread.2, fun hroom => ?_, fun record hlen => ?_⟩
  · rw [hread.1, hhost, decode_encode, List.foldl_append_eq_append, List.nil_append,
      ← List.flatMap_def, List.flatMap_singleton']
  · obtain ⟨b, hb, hdatagram⟩ := @addToBuffer_encode_all host .create [] us
      rfl (by simpa using hroom)
    exact ⟨b, hb, hdatagram⟩
  · rw [serializeClientMarketUpdate_host, ← serializeClientMarketUpdate_host host']
    exact serialize_deserializeMarketUpdate host' hlen

/-- Two updates from a little-endian host to a big-endian one. -/
theorem datagram_roundtrip_sample : ∃ b,
    [⟨1, ⟨.add, 1, 0, .buy, 10, 5, 1⟩⟩, ⟨2, ⟨⟨9⟩, 1, 0, ⟨7⟩, -1, 0, 1⟩⟩].foldlM
      (SendBuffer.addToBuffer .little) .create = .ok b ∧
    serializeClientMarketUpdate .little
      (deserializeMarketUpdate .big (List.replicate 39 0xAB)) = List.replicate 39 0xAB := by
  obtain ⟨_, _, hsend, hrecord⟩ := datagram_roundtrip .little .big
    [⟨1, ⟨.add, 1, 0, .buy, 10, 5, 1⟩⟩, ⟨2, ⟨⟨9⟩, 1, 0, ⟨7⟩, -1, 0, 1⟩⟩] (fun _ => 0)
    (fun _ => 0)
  obtain ⟨b, hb, _⟩ := hsend (by decide)
  exact ⟨b, hb, hrecord _ (by decide)⟩

namespace FeedHandler

/-- A datagram that arrives on one of the two sockets. -/
def onRead (host : ByteOrder) (isSnapshot : Bool) (c : MulticastConnection) (h : FeedHandler)
    (datagram : List UInt8) : MulticastConnection × FeedHandler :=
  c.onRead host (fun h u => h.readUpdate isSnapshot u) h datagram

/-- The handler reads the updates of a datagram one after the other. -/
theorem onRead_encode (host host' : ByteOrder) (isSnapshot : Bool) {c : MulticastConnection}
    (hempty : c.offset = 0) (h : FeedHandler) (us : List ClientMarketUpdate) :
    (onRead host' isSnapshot c h (encode host us)).2 =
      us.foldl (fun h u => h.readUpdate isSnapshot u) h ∧
    (onRead host' isSnapshot c h (encode host us)).1.offset = 0 := by
  have hread := onRead_whole host' (fun h u => readUpdate isSnapshot u h)
    hempty (length_encode host us ▸ Nat.dvd_mul_right ..) h
  rw [encode_host host host', decode_encode] at hread
  rw [encode_host host host']
  exact hread

end FeedHandler

end StockExchange
