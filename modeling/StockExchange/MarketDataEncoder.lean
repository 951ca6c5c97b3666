import StockExchange.Serializer

/-!
# The market data codec

The encoder of the exchange, the decoder of the example's feed handler, and the buffer in
which both publishers line up the records of one datagram.
-/

namespace StockExchange

open Bytes

/-- `sizeof(client_market_update)`, which is packed. -/
def sizeofClientMarketUpdate : Nat := 39

def serializeClientMarketUpdate (host : ByteOrder) (u : ClientMarketUpdate) : List UInt8 :=
  store64 host (toBigEndian64 host u.sequenceNumber) ++
  (store8 u.update.type.code ++
  (store64 host (toBigEndian64 host u.update.orderId) ++
  (store8 u.update.instrumentId ++
  (store8 u.update.side.code ++
  (store64 host (toBigEndian64 host u.update.price.toUInt64) ++
  (store32 host (toBigEndian32 host u.update.qty) ++
  store64 host (toBigEndian64 host u.update.priority)))))))

def deserializeMarketUpdate (host : ByteOrder) (buffer : List UInt8) : ClientMarketUpdate where
  sequenceNumber := fromBigEndian64 host (load64 host (field buffer 0 8))
  update :=
    { type := ⟨load8 (field buffer 8 1)⟩
      orderId := fromBigEndian64 host (load64 host (field buffer 9 8))
      instrumentId := load8 (field buffer 17 1)
      side := ⟨load8 (field buffer 18 1)⟩
      price := (fromBigEndian64 host (load64 host (field buffer 19 8))).toInt64
      qty := fromBigEndian32 host (load32 host (field buffer 27 4))
      priority := fromBigEndian64 host (load64 host (field buffer 31 8)) }

section Codec
variable (host : ByteOrder)

theorem serializeClientMarketUpdate_host (u : ClientMarketUpdate) :
    serializeClientMarketUpdate host u = serializeClientMarketUpdate .big u := by
  simp only [serializeClientMarketUpdate, store32_toBigEndian, store64_toBigEndian]

@[simp] theorem length_serializeClientMarketUpdate (u : ClientMarketUpdate) :
    (serializeClientMarketUpdate host u).length = sizeofClientMarketUpdate := by
  simp [serializeClientMarketUpdate, sizeofClientMarketUpdate]

theorem deserializeMarketUpdate_host {buffer : List UInt8}
    (h : buffer.length = sizeofClientMarketUpdate) :
    deserializeMarketUpdate host buffer = deserializeMarketUpdate .big buffer := by
  have hword : ∀ {offset size}, offset + size ≤ 39 → (field buffer offset size).length = size :=
    fun hle => length_field (h ▸ hle)
  simp (disch := exact hword (by decide)) only [deserializeMarketUpdate, fromBigEndian32_load32,
    fromBigEndian64_load64]

/-- Writing what was read gives the buffer back. -/
theorem serialize_deserializeMarketUpdate {buffer : List UInt8}
    (h : buffer.length = sizeofClientMarketUpdate) :
    serializeClientMarketUpdate host (deserializeMarketUpdate host buffer) = buffer := by
  have hword : ∀ {offset size}, offset + size ≤ 39 → (field buffer offset size).length = size :=
    fun hle => length_field (h ▸ hle)
  rw [serializeClientMarketUpdate_host, deserializeMarketUpdate_host host h]
  simp (disch := exact hword (by decide)) only [serializeClientMarketUpdate,
    deserializeMarketUpdate, fromBigEndian32_load32, fromBigEndian64_load64, store32_toBigEndian,
    store64_toBigEndian, store32_load32, store64_load64, store8_load8, UInt64.toUInt64_toInt64]
  rw [field_append_field, field_append_field, field_append_field, field_append_field,
    field_append_field, field_append_field, field_append_field]
  exact field_all h

/-- Reading what was written gives the update back. -/
theorem deserialize_serializeClientMarketUpdate (u : ClientMarketUpdate) :
    deserializeMarketUpdate host (serializeClientMarketUpdate host u) = u := by
  rw [deserializeMarketUpdate_host host (length_serializeClientMarketUpdate host u),
    serializeClientMarketUpdate_host]
  simp [deserializeMarketUpdate, serializeClientMarketUpdate, field_left, field_skip, field_all,
    fromBigEndian32_big, fromBigEndian64_big, store32_toBigEndian, store64_toBigEndian,
    load32_store32, load64_store64, load8_store8]

end Codec

/-- Updates with consecutive sequence numbers. -/
def number : UInt64 → List MarketUpdate → List ClientMarketUpdate
  | _, [] => []
  | n, u :: us => ⟨n, u⟩ :: number (n + 1) us

/-- Records side by side, as `add_to_buffer` leaves them. -/
def encode (host : ByteOrder) (us : List ClientMarketUpdate) : List UInt8 :=
  us.flatMap (serializeClientMarketUpdate host)

/-- The complete records of a datagram. -/
def decode (host : ByteOrder) (datagram : List UInt8) : List ClientMarketUpdate :=
  (blocks sizeofClientMarketUpdate datagram).map (deserializeMarketUpdate host)

section Lists
variable (host : ByteOrder)

theorem sizeofClientMarketUpdate_pos : 0 < sizeofClientMarketUpdate := by decide

@[simp] theorem length_number (n : UInt64) (us : List MarketUpdate) :
    (number n us).length = us.length := by
  induction us generalizing n with
  | nil => rfl
  | cons u us ih => rw [number, List.length_cons, List.length_cons, ih]

@[simp] theorem map_update_number (n : UInt64) (us : List MarketUpdate) :
    (number n us).map (·.update) = us := by
  induction us generalizing n with
  | nil => rfl
  | cons u us ih => rw [number, List.map_cons, ih]

theorem number_append (n : UInt64) (us vs : List MarketUpdate) :
    number n (us ++ vs) = number n us ++ number (n + UInt64.ofNat us.length) vs := by
  induction us generalizing n with
  | nil => simp [number]
  | cons u us ih =>
    have hlen : n + UInt64.ofNat (u :: us).length = n + 1 + UInt64.ofNat us.length := by
      rw [List.length_cons, UInt64.ofNat_add, UInt64.add_comm (UInt64.ofNat us.length),
        ← UInt64.add_assoc]
      rfl
    rw [List.cons_append, number, number, ih, hlen, List.cons_append]

theorem getElem_number (n : UInt64) (us : List MarketUpdate) {k : Nat}
    (h : k < (number n us).length) :
    (number n us)[k] = ⟨n + UInt64.ofNat k, us.get ⟨k, length_number n us ▸ h⟩⟩ := by
  induction us generalizing n k with
  | nil => exact absurd h (Nat.not_lt_zero k)
  | cons u us ih =>
    cases k with
    | zero =>
      simp only [number, List.getElem_cons_zero]
      congr 1
      exact (UInt64.add_zero n).symm
    | succ k =>
      simp only [number, List.getElem_cons_succ, ih]
      congr 1
      rw [UInt64.ofNat_add, UInt64.add_comm (UInt64.ofNat k), ← UInt64.add_assoc]
      rfl

theorem encode_append (us vs : List ClientMarketUpdate) :
    encode host (us ++ vs) = encode host us ++ encode host vs := List.flatMap_append

@[simp] theorem length_encode (us : List ClientMarketUpdate) :
    (encode host us).length = sizeofClientMarketUpdate * us.length := by
  induction us with
  | nil => rfl
  | cons u us ih =>
    rw [encode, List.flatMap_cons, List.length_append, length_serializeClientMarketUpdate,
      ← encode, ih, List.length_cons]
    ring

/-- The records of a datagram, one after the other. -/
theorem decode_append {a b : List UInt8} (ha : sizeofClientMarketUpdate ∣ a.length) :
    decode host (a ++ b) = decode host a ++ decode host b := by
  rw [decode, blocks_append sizeofClientMarketUpdate_pos ha, List.map_append]
  rfl

theorem decode_encode (us : List ClientMarketUpdate) : decode host (encode host us) = us := by
  induction us with
  | nil =>
    have hnone : blocks sizeofClientMarketUpdate ([] : List UInt8) = [] :=
      blocks_of_lt sizeofClientMarketUpdate_pos
    rw [encode, List.flatMap_nil, decode, hnone, List.map_nil]
  | cons u us ih =>
    have hlen : (serializeClientMarketUpdate host u).length = sizeofClientMarketUpdate :=
      length_serializeClientMarketUpdate host u
    have hone : decode host (serializeClientMarketUpdate host u) = [u] := by
      rw [decode, blocks_cons sizeofClientMarketUpdate_pos hlen.ge, field_all hlen,
        List.drop_eq_nil_of_le hlen.le, List.map_cons, deserialize_serializeClientMarketUpdate]
      rfl
    rw [encode, List.flatMap_cons, decode_append host hlen.symm.dvd, hone, ← encode, ih]
    rfl

end Lists

/-- `BUFFER_SIZE` of the market data. -/
def bufferSize : Nat := 64 * 1024 * 1024

/-- `buffer_` and `next_send_valid_index_`. -/
structure SendBuffer where
  buffer : Nat → UInt8
  nextSendValidIndex : Nat
  index_le : nextSendValidIndex ≤ bufferSize

namespace SendBuffer

def create : SendBuffer := ⟨fun _ => 0, 0, Nat.zero_le _⟩

def addToBuffer (host : ByteOrder) (b : SendBuffer) (u : ClientMarketUpdate) :
    Except Fault SendBuffer :=
  if h : b.nextSendValidIndex + sizeofClientMarketUpdate ≤ bufferSize then
    .ok ⟨writeCells b.buffer b.nextSendValidIndex (serializeClientMarketUpdate host u),
      b.nextSendValidIndex + sizeofClientMarketUpdate, h⟩
  else .error .badAccess

/-- What `send_data` hands to `uv_udp_send`. -/
def datagram (b : SendBuffer) : List UInt8 := readCells b.buffer 0 b.nextSendValidIndex

/-- `next_send_valid_index_ = 0`. -/
def reset (b : SendBuffer) : SendBuffer := { b with
  nextSendValidIndex := 0
  index_le := Nat.zero_le _ }

variable {host : ByteOrder} {b b' : SendBuffer} {u : ClientMarketUpdate}
  {us : List ClientMarketUpdate}

@[simp] theorem length_datagram (b : SendBuffer) : b.datagram.length = b.nextSendValidIndex :=
  length_readCells ..

@[simp] theorem datagram_reset (b : SendBuffer) : b.reset.datagram = [] := rfl

/-- Another record in a buffer that has room for it. -/
theorem addToBuffer_encode (h : b.datagram = encode host us)
    (hroom : sizeofClientMarketUpdate * (us.length + 1) ≤ bufferSize) :
    ∃ b', b.addToBuffer host u = .ok b' ∧ b'.datagram = encode host (us ++ [u]) := by
  have hindex : b.nextSendValidIndex = sizeofClientMarketUpdate * us.length := by
    rw [← length_datagram, h, length_encode]
  have hlen := length_serializeClientMarketUpdate host u
  have hone : encode host [u] = serializeClientMarketUpdate host u := List.append_nil _
  have hle : b.nextSendValidIndex + sizeofClientMarketUpdate ≤ bufferSize := by
    rw [hindex, ← Nat.mul_succ]
    exact hroom
  refine ⟨_, dif_pos hle, ?_⟩
  rw [encode_append, ← h, hone]
  simp only [datagram]
  rw [readCells_append, Nat.zero_add]
  congr 1
  · exact readCells_writeCells_outside _ (.inl (Nat.zero_add _).le)
  · have hread := readCells_writeCells b.buffer b.nextSendValidIndex
      (serializeClientMarketUpdate host u)
    rwa [hlen] at hread

end SendBuffer

end StockExchange
