import StockExchange.Serializer

/-!
# The order entry codec of the gateway

`example/order_gateway/serializer.hpp` repeats the codec of the order server. Both programs
write the same bytes on either kind of host, and each reads what the other writes.
-/

namespace StockExchange

open Bytes

namespace Gateway

def serializeClientRequest (host : ByteOrder) (request : ClientRequestExternal) : List UInt8 :=
  store64 host (toBigEndian64 host request.sequenceNumber) ++
  (store8 request.request.type.code ++
  (store32 host (toBigEndian32 host request.request.clientId) ++
  (store8 request.request.instrumentId ++
  (store64 host (toBigEndian64 host request.request.orderId) ++
  (store8 request.request.side.code ++
  (store64 host (toBigEndian64 host request.request.price.toUInt64) ++
  store32 host (toBigEndian32 host request.request.qty)))))))

def deserializeClientRequest (host : ByteOrder) (buffer : List UInt8) : ClientRequestExternal where
  sequenceNumber := fromBigEndian64 host (load64 host (field buffer 0 8))
  request :=
    { type := ⟨load8 (field buffer 8 1)⟩
      clientId := fromBigEndian32 host (load32 host (field buffer 9 4))
      instrumentId := load8 (field buffer 13 1)
      orderId := fromBigEndian64 host (load64 host (field buffer 14 8))
      side := ⟨load8 (field buffer 22 1)⟩
      price := (fromBigEndian64 host (load64 host (field buffer 23 8))).toInt64
      qty := fromBigEndian32 host (load32 host (field buffer 31 4)) }

def serializeClientResponse (host : ByteOrder) (response : ClientResponseExternal) :
    List UInt8 :=
  store64 host (toBigEndian64 host response.sequenceNumber) ++
  (store8 response.response.type.code ++
  (store32 host (toBigEndian32 host response.response.clientId) ++
  (store8 response.response.instrumentId ++
  (store64 host (toBigEndian64 host response.response.clientOrderId) ++
  (store64 host (toBigEndian64 host response.response.marketOrderId) ++
  (store8 response.response.side.code ++
  (store64 host (toBigEndian64 host response.response.price.toUInt64) ++
  (store32 host (toBigEndian32 host response.response.execQty) ++
  store32 host (toBigEndian32 host response.response.leavesQty)))))))))

def deserializeClientResponse (host : ByteOrder) (buffer : List UInt8) :
    ClientResponseExternal where
  sequenceNumber := fromBigEndian64 host (load64 host (field buffer 0 8))
  response :=
    { type := ⟨load8 (field buffer 8 1)⟩
      clientId := fromBigEndian32 host (load32 host (field buffer 9 4))
      instrumentId := load8 (field buffer 13 1)
      clientOrderId := fromBigEndian64 host (load64 host (field buffer 14 8))
      marketOrderId := fromBigEndian64 host (load64 host (field buffer 22 8))
      side := ⟨load8 (field buffer 30 1)⟩
      price := (fromBigEndian64 host (load64 host (field buffer 31 8))).toInt64
      execQty := fromBigEndian32 host (load32 host (field buffer 39 4))
      leavesQty := fromBigEndian32 host (load32 host (field buffer 43 4)) }

end Gateway

/-- The two directories with an order entry codec. -/
inductive Program where
  | exchange
  | gateway
deriving DecidableEq

namespace Program

def serializeClientRequest : Program → ByteOrder → ClientRequestExternal → List UInt8
  | exchange => StockExchange.serializeClientRequest
  | gateway => Gateway.serializeClientRequest

def deserializeClientRequest : Program → ByteOrder → List UInt8 → ClientRequestExternal
  | exchange => StockExchange.deserializeClientRequest
  | gateway => Gateway.deserializeClientRequest

def serializeClientResponse : Program → ByteOrder → ClientResponseExternal → List UInt8
  | exchange => StockExchange.serializeClientResponse
  | gateway => Gateway.serializeClientResponse

def deserializeClientResponse : Program → ByteOrder → List UInt8 → ClientResponseExternal
  | exchange => StockExchange.deserializeClientResponse
  | gateway => Gateway.deserializeClientResponse

/-! The field order, widths and offsets of the two programs agree. -/

variable (program : Program)

@[simp] theorem serializeClientRequest_eq :
    program.serializeClientRequest = StockExchange.serializeClientRequest := by
  cases program <;> rfl

@[simp] theorem deserializeClientRequest_eq :
    program.deserializeClientRequest = StockExchange.deserializeClientRequest := by
  cases program <;> rfl

@[simp] theorem serializeClientResponse_eq :
    program.serializeClientResponse = StockExchange.serializeClientResponse := by
  cases program <;> rfl

@[simp] theorem deserializeClientResponse_eq :
    program.deserializeClientResponse = StockExchange.deserializeClientResponse := by
  cases program <;> rfl

end Program

section Hosts
variable (host host' : ByteOrder)

/-- What one host writes another one reads. -/
theorem deserializeClientRequest_other (r : ClientRequestExternal) :
    deserializeClientRequest host' (serializeClientRequest host r) = r := by
  rw [serializeClientRequest_host, ← serializeClientRequest_host host']
  exact deserialize_serializeClientRequest host' r

theorem deserializeClientResponse_other (r : ClientResponseExternal) :
    deserializeClientResponse host' (serializeClientResponse host r) = r := by
  rw [serializeClientResponse_host, ← serializeClientResponse_host host']
  exact deserialize_serializeClientResponse host' r

theorem serializeClientRequest_other {buffer : List UInt8}
    (h : buffer.length = sizeofClientRequest) :
    serializeClientRequest host' (deserializeClientRequest host buffer) = buffer := by
  rw [serializeClientRequest_host, ← serializeClientRequest_host host]
  exact serialize_deserializeClientRequest host h

theorem serializeClientResponse_other {buffer : List UInt8}
    (h : buffer.length = sizeofClientResponse) :
    serializeClientResponse host' (deserializeClientResponse host buffer) = buffer := by
  rw [serializeClientResponse_host, ← serializeClientResponse_host host]
  exact serialize_deserializeClientResponse host h

end Hosts

/-- Whichever program writes and whichever reads, on whichever hosts: values come back, the
bytes are those of the packed struct in one layout, and buffers come back. -/
theorem codecs_inverse (writer reader : Program) (host host' : ByteOrder) :
    (∀ r, reader.deserializeClientRequest host' (writer.serializeClientRequest host r) = r) ∧
    (∀ r, reader.deserializeClientResponse host' (writer.serializeClientResponse host r) = r) ∧
    (∀ r, (writer.serializeClientRequest host r).length = sizeofClientRequest ∧
      writer.serializeClientRequest host r = reader.serializeClientRequest host' r) ∧
    (∀ r, (writer.serializeClientResponse host r).length = sizeofClientResponse ∧
      writer.serializeClientResponse host r = reader.serializeClientResponse host' r) ∧
    (∀ buffer, buffer.length = sizeofClientRequest →
      writer.serializeClientRequest host' (reader.deserializeClientRequest host buffer) =
        buffer) ∧
    ∀ buffer, buffer.length = sizeofClientResponse →
      writer.serializeClientResponse host' (reader.deserializeClientResponse host buffer) =
        buffer := by
  simp only [Program.serializeClientRequest_eq, Program.deserializeClientRequest_eq,
    Program.serializeClientResponse_eq, Program.deserializeClientResponse_eq]
  refine ⟨deserializeClientRequest_other host host', deserializeClientResponse_other host host',
    fun r => ⟨length_serializeClientRequest host r, ?_⟩,
    fun r => ⟨length_serializeClientResponse host r, ?_⟩,
    fun _ => serializeClientRequest_other host host',
    fun _ => serializeClientResponse_other host host'⟩
  · rw [serializeClientRequest_host, ← serializeClientRequest_host host']
  · rw [serializeClientResponse_host, ← serializeClientResponse_host host']

/-- A buffer with bytes outside the enumerations comes back. -/
theorem codecs_inverse_sample :
    Program.gateway.serializeClientRequest .big
      (Program.exchange.deserializeClientRequest .little (List.replicate 35 0xAB)) =
        List.replicate 35 0xAB :=
  (codecs_inverse .gateway .exchange .little .big).2.2.2.2.1 _ (by decide)

end StockExchange
