import StockExchange.Models
import StockExchange.Library.Bytes
import Mathlib.Tactic.IntervalCases

/-!
# The order entry codec

Fields are copied one after the other without padding, the wider ones in big-endian order.
What is on the wire does not depend on the byte order of the host.
-/

namespace StockExchange

open Bytes

def isBigEndian (host : ByteOrder) : Bool := (store host 2 0x1).head? == some 0

def swapBytes32 (value : UInt32) : UInt32 :=
  ((value >>> 24) &&& (0xFF : UInt32)) ||| ((value >>> 8) &&& (0xFF00 : UInt32)) |||
    ((value <<< 8) &&& (0xFF0000 : UInt32)) ||| ((value <<< 24) &&& (0xFF000000 : UInt32))

def swapBytes64 (value : UInt64) : UInt64 :=
  ((value >>> 56) &&& (0xFF : UInt64)) ||| ((value >>> 40) &&& (0xFF00 : UInt64)) |||
    ((value >>> 24) &&& (0xFF0000 : UInt64)) ||| ((value >>> 8) &&& (0xFF000000 : UInt64)) |||
    ((value <<< 8) &&& (0xFF00000000 : UInt64)) |||
    ((value <<< 24) &&& (0xFF0000000000 : UInt64)) |||
    ((value <<< 40) &&& (0xFF000000000000 : UInt64)) |||
    ((value <<< 56) &&& (0xFF00000000000000 : UInt64))

def toBigEndian32 (host : ByteOrder) (value : UInt32) : UInt32 :=
  if isBigEndian host then value else swapBytes32 value

def toBigEndian64 (host : ByteOrder) (value : UInt64) : UInt64 :=
  if isBigEndian host then value else swapBytes64 value

def fromBigEndian32 (host : ByteOrder) (value : UInt32) : UInt32 :=
  if isBigEndian host then value else swapBytes32 value

def fromBigEndian64 (host : ByteOrder) (value : UInt64) : UInt64 :=
  if isBigEndian host then value else swapBytes64 value

/-! The copies `std::memcpy` makes between a variable and a buffer. -/

def store8 (value : UInt8) : List UInt8 := [value]
def store32 (host : ByteOrder) (value : UInt32) : List UInt8 := store host 4 value.toNat
def store64 (host : ByteOrder) (value : UInt64) : List UInt8 := store host 8 value.toNat

def load8 (bs : List UInt8) : UInt8 := bs.headD 0
def load32 (host : ByteOrder) (bs : List UInt8) : UInt32 := UInt32.ofNat (load host bs)
def load64 (host : ByteOrder) (bs : List UInt8) : UInt64 := UInt64.ofNat (load host bs)

/-- `sizeof(client_request_external)`, which is packed. -/
def sizeofClientRequest : Nat := 35

/-- `sizeof(client_response_external)`. -/
def sizeofClientResponse : Nat := 47

def serializeClientRequest (host : ByteOrder) (r : ClientRequestExternal) : List UInt8 :=
  store64 host (toBigEndian64 host r.sequenceNumber) ++
  (store8 r.request.type.code ++
  (store32 host (toBigEndian32 host r.request.clientId) ++
  (store8 r.request.instrumentId ++
  (store64 host (toBigEndian64 host r.request.orderId) ++
  (store8 r.request.side.code ++
  (store64 host (toBigEndian64 host r.request.price.toUInt64) ++
  store32 host (toBigEndian32 host r.request.qty)))))))

def deserializeClientRequest (host : ByteOrder) (buffer : List UInt8) : ClientRequestExternal where
  sequenceNumber := fromBigEndian64 host (load64 host (field buffer 0 8))
  request :=
    { type := ⟨load8 (field buffer 8 1)⟩
      clientId := fromBigEndian32 host (load32 host (field buffer 9 4))
      instrumentId := load8 (field buffer 13 1)
      orderId := fromBigEndian64 host (load64 host (field buffer 14 8))
      side := ⟨load8 (field buffer 22 1)⟩
      price := (fromBigEndian64 host (load64 host (field buffer 23 8))).toInt64
      qty := fromBigEndian32 host (load32 host (field buffer 31 4)) }

def serializeClientResponse (host : ByteOrder) (r : ClientResponseExternal) : List UInt8 :=
  store64 host (toBigEndian64 host r.sequenceNumber) ++
  (store8 r.response.type.code ++
  (store32 host (toBigEndian32 host r.response.clientId) ++
  (store8 r.response.instrumentId ++
  (store64 host (toBigEndian64 host r.response.clientOrderId) ++
  (store64 host (toBigEndian64 host r.response.marketOrderId) ++
  (store8 r.response.side.code ++
  (store64 host (toBigEndian64 host r.response.price.toUInt64) ++
  (store32 host (toBigEndian32 host r.response.execQty) ++
  store32 host (toBigEndian32 host r.response.leavesQty)))))))))

def deserializeClientResponse (host : ByteOrder) (buffer : List UInt8) :
    ClientResponseExternal where
  sequenceNumber := fromBigEndian64 host (load64 host (field buffer 0 8))
  response :=
    { type := ⟨load8 (field buffer 8 1)⟩
      clientId := fromBigEndian32 host (load32 host (field buffer 9 4))
      instrumentId := load8 (field buffer 13 1)
      clientOrderId := fromBigEndian64 host (load64 host (field buffer 14 8))
      marketOrderId := fromBigEndian64 host (load64 host (field buffer 22 8))
      side := ⟨load8 (field buffer 30 1)⟩
      price := (fromBigEndian64 host (load64 host (field buffer 31 8))).toInt64
      execQty := fromBigEndian32 host (load32 host (field buffer 39 4))
      leavesQty := fromBigEndian32 host (load32 host (field buffer 43 4)) }

@[simp] theorem isBigEndian_little : isBigEndian .little = false := by decide
@[simp] theorem isBigEndian_big : isBigEndian .big = true := by decide

@[simp] theorem length_store8 (v : UInt8) : (store8 v).length = 1 :=
  List.length_singleton

@[simp] theorem length_store32 (host : ByteOrder) (v : UInt32) : (store32 host v).length = 4 :=
  length_store ..

@[simp] theorem length_store64 (host : ByteOrder) (v : UInt64) : (store64 host v).length = 8 :=
  length_store ..

section Bytes

/-- The bytes of a word, cut out by shifts. -/
theorem bytes_four (v : UInt32) :
    bytes 4 v.toNat = [v.toUInt8, (v >>> 8).toUInt8, (v >>> 16).toUInt8, (v >>> 24).toUInt8] := by
  simp [bytes, Nat.div_div_eq_div_mul, ← UInt8.toNat_inj, Nat.shiftRight_eq_div_pow]

theorem bytes_eight (v : UInt64) :
    bytes 8 v.toNat = [v.toUInt8, (v >>> 8).toUInt8, (v >>> 16).toUInt8, (v >>> 24).toUInt8,
      (v >>> 32).toUInt8, (v >>> 40).toUInt8, (v >>> 48).toUInt8, (v >>> 56).toUInt8] := by
  simp [bytes, Nat.div_div_eq_div_mul, ← UInt8.toNat_inj, Nat.shiftRight_eq_div_pow]

theorem bytes_swapBytes32 (v : UInt32) :
    bytes 4 (swapBytes32 v).toNat = (bytes 4 v.toNat).reverse := by
  rw [bytes_four, bytes_four]
  simp only [List.reverse_cons, List.reverse_nil, List.nil_append, List.cons_append,
    List.cons.injEq, and_true]
  refine ⟨?_, ?_, ?_, ?_⟩ <;>
  · apply UInt8.eq_of_toBitVec_eq
    ext i hi
    simp only [swapBytes32, UInt32.toBitVec_or, UInt32.toBitVec_and, UInt32.toBitVec_shiftLeft,
      UInt32.toBitVec_shiftRight, UInt32.toBitVec_toUInt8]
    interval_cases i <;> simp

theorem bytes_swapBytes64 (v : UInt64) :
    bytes 8 (swapBytes64 v).toNat = (bytes 8 v.toNat).reverse := by
  rw [bytes_eight, bytes_eight]
  simp only [List.reverse_cons, List.reverse_nil, List.nil_append, List.cons_append,
    List.cons.injEq, and_true]
  refine ⟨?_, ?_, ?_, ?_, ?_, ?_, ?_, ?_⟩ <;>
  · apply UInt8.eq_of_toBitVec_eq
    ext i hi
    simp only [swapBytes64, UInt64.toBitVec_or, UInt64.toBitVec_and, UInt64.toBitVec_shiftLeft,
      UInt64.toBitVec_shiftRight, UInt64.toBitVec_toUInt8]
    interval_cases i <;> simp

end Bytes

section Words
variable (host : ByteOrder)

theorem fromBigEndian32_big (v : UInt32) : fromBigEndian32 .big v = v := rfl
theorem fromBigEndian64_big (v : UInt64) : fromBigEndian64 .big v = v := rfl

/-- A converted word lies in memory most significant byte first. -/
theorem store32_toBigEndian (v : UInt32) :
    store32 host (toBigEndian32 host v) = store32 .big v := by
  cases host with
  | little =>
    rw [toBigEndian32, isBigEndian_little, if_neg Bool.false_ne_true]
    exact bytes_swapBytes32 v
  | big => rfl

theorem store64_toBigEndian (v : UInt64) :
    store64 host (toBigEndian64 host v) = store64 .big v := by
  cases host with
  | little =>
    rw [toBigEndian64, isBigEndian_little, if_neg Bool.false_ne_true]
    exact bytes_swapBytes64 v
  | big => rfl

theorem store32_load32 {bs : List UInt8} (h : bs.length = 4) :
    store32 host (load32 host bs) = bs := by
  have hlt : load host bs % 2 ^ 32 = load host bs := by
    rw [← store_load host h, load_store]
    exact Nat.mod_mod ..
  rw [store32, load32, UInt32.toNat_ofNat', hlt, store_load host h]

theorem store64_load64 {bs : List UInt8} (h : bs.length = 8) :
    store64 host (load64 host bs) = bs := by
  have hlt : load host bs % 2 ^ 64 = load host bs := by
    rw [← store_load host h, load_store]
    exact Nat.mod_mod ..
  rw [store64, load64, UInt64.toNat_ofNat', hlt, store_load host h]

theorem load32_store32 (v : UInt32) : load32 host (store32 host v) = v := by
  have hlt : v.toNat % 256 ^ 4 = v.toNat := Nat.mod_eq_of_lt v.toNat_lt
  rw [store32, load32, load_store, hlt, UInt32.ofNat_toNat]

theorem load64_store64 (v : UInt64) : load64 host (store64 host v) = v := by
  have hlt : v.toNat % 256 ^ 8 = v.toNat := Nat.mod_eq_of_lt v.toNat_lt
  rw [store64, load64, load_store, hlt, UInt64.ofNat_toNat]

theorem store8_load8 {bs : List UInt8} (h : bs.length = 1) : store8 (load8 bs) = bs := by
  obtain ⟨b, rfl⟩ := List.length_eq_one_iff.mp h
  rfl

theorem load8_store8 (v : UInt8) : load8 (store8 v) = v := rfl

/-- Reading a word off the wire undoes writing it, whatever the two hosts are. -/
theorem fromBigEndian32_load32 (bs : List UInt8) (h : bs.length = 4) :
    fromBigEndian32 host (load32 host bs) = load32 .big bs := by
  cases host with
  | little =>
    rw [fromBigEndian32, isBigEndian_little, if_neg Bool.false_ne_true,
      ← load32_store32 .big (swapBytes32 _)]
    have hbytes : bytes 4 (load32 .little bs).toNat = bs := store32_load32 .little h
    rw [store32, store, bytes_swapBytes32, List.reverse_reverse, hbytes]
  | big => rfl

theorem fromBigEndian64_load64 (bs : List UInt8) (h : bs.length = 8) :
    fromBigEndian64 host (load64 host bs) = load64 .big bs := by
  cases host with
  | little =>
    rw [fromBigEndian64, isBigEndian_little, if_neg Bool.false_ne_true,
      ← load64_store64 .big (swapBytes64 _)]
    have hbytes : bytes 8 (load64 .little bs).toNat = bs := store64_load64 .little h
    rw [store64, store, bytes_swapBytes64, List.reverse_reverse, hbytes]
  | big => rfl

end Words

section Requests
variable (host : ByteOrder)

/-- The layout is that of a big-endian host. -/
theorem serializeClientRequest_host (r : ClientRequestExternal) :
    serializeClientRequest host r = serializeClientRequest .big r := by
  simp only [serializeClientRequest, store32_toBigEndian, store64_toBigEndian]

@[simp] theorem length_serializeClientRequest (r : ClientRequestExternal) :
    (serializeClientRequest host r).length = sizeofClientRequest := by
  simp [serializeClientRequest, sizeofClientRequest]

theorem deserializeClientRequest_host {buffer : List UInt8}
    (h : buffer.length = sizeofClientRequest) :
    deserializeClientRequest host buffer = deserializeClientRequest .big buffer := by
  have hword : ∀ {offset size}, offset + size ≤ 35 → (field buffer offset size).length = size :=
    fun hle => length_field (h ▸ hle)
  simp (disch := exact hword (by decide)) only [deserializeClientRequest, fromBigEndian32_load32,
    fromBigEndian64_load64]

/-- Writing what was read gives the buffer back. -/
theorem serialize_deserializeClientRequest {buffer : List UInt8}
    (h : buffer.length = sizeofClientRequest) :
    serializeClientRequest host (deserializeClientRequest host buffer) = buffer := by
  have hword : ∀ {offset size}, offset + size ≤ 35 → (field buffer offset size).length = size :=
    fun hle => length_field (h ▸ hle)
  rw [serializeClientRequest_host, deserializeClientRequest_host host h]
  simp (disch := exact hword (by decide)) only [serializeClientRequest, deserializeClientRequest,
    fromBigEndian32_load32, fromBigEndian64_load64, store32_toBigEndian, store64_toBigEndian,
    store32_load32, store64_load64, store8_load8, UInt64.toUInt64_toInt64]
  rw [field_append_field, field_append_field, field_append_field, field_append_field,
    field_append_field, field_append_field, field_append_field]
  exact field_all h

/-- Reading what was written gives the request back. -/
theorem deserialize_serializeClientRequest (r : ClientRequestExternal) :
    deserializeClientRequest host (serializeClientRequest host r) = r := by
  rw [deserializeClientRequest_host host (length_serializeClientRequest host r),
    serializeClientRequest_host]
  simp [deserializeClientRequest, serializeClientRequest, field_left, field_skip, field_all,
    fromBigEndian32_big, fromBigEndian64_big, store32_toBigEndian, store64_toBigEndian,
    load32_store32, load64_store64, load8_store8]

end Requests

section Responses
variable (host : ByteOrder)

theorem serializeClientResponse_host (r : ClientResponseExternal) :
    serializeClientResponse host r = serializeClientResponse .big r := by
  simp only [serializeClientResponse, store32_toBigEndian, store64_toBigEndian]

@[simp] theorem length_serializeClientResponse (r : ClientResponseExternal) :
    (serializeClientResponse host r).length = sizeofClientResponse := by
  simp [serializeClientResponse, sizeofClientResponse]

theorem deserializeClientResponse_host {buffer : List UInt8}
    (h : buffer.length = sizeofClientResponse) :
    deserializeClientResponse host buffer = deserializeClientResponse .big buffer := by
  have hword : ∀ {offset size}, offset + size ≤ 47 → (field buffer offset size).length = size :=
    fun hle => length_field (h ▸ hle)
  simp (disch := exact hword (by decide)) only [deserializeClientResponse,
    fromBigEndian32_load32, fromBigEndian64_load64]

theorem serialize_deserializeClientResponse {buffer : List UInt8}
    (h : buffer.length = sizeofClientResponse) :
    serializeClientResponse host (deserializeClientResponse host buffer) = buffer := by
  have hword : ∀ {offset size}, offset + size ≤ 47 → (field buffer offset size).length = size :=
    fun hle => length_field (h ▸ hle)
  rw [serializeClientResponse_host, deserializeClientResponse_host host h]
  simp (disch := exact hword (by decide)) only [serializeClientResponse,
    deserializeClientResponse, fromBigEndian32_load32, fromBigEndian64_load64,
    store32_toBigEndian, store64_toBigEndian, store32_load32, store64_load64, store8_load8,
    UInt64.toUInt64_toInt64]
  rw [field_append_field, field_append_field, field_append_field, field_append_field,
    field_append_field, field_append_field, field_append_field, field_append_field,
    field_append_field]
  exact field_all h

theorem deserialize_serializeClientResponse (r : ClientResponseExternal) :
    deserializeClientResponse host (serializeClientResponse host r) = r := by
  rw [deserializeClientResponse_host host (length_serializeClientResponse host r),
    serializeClientResponse_host]
  simp [deserializeClientResponse, serializeClientResponse, field_left, field_skip, field_all,
    fromBigEndian32_big, fromBigEndian64_big, store32_toBigEndian, store64_toBigEndian,
    load32_store32, load64_store64, load8_store8]

end Responses

end StockExchange
