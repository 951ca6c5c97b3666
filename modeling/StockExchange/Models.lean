import Mathlib.Logic.Function.Basic

/-!
# Types and constants of the exchange

Fixed-width integers keep their width, so overflow is that of the type. A scoped
enumeration with a fixed underlying byte can hold any value of that byte, and
requests arrive from the wire unchecked; it is the byte with named values.
-/

namespace StockExchange

abbrev OrderId := UInt64
abbrev InstrumentId := UInt8
abbrev ClientId := UInt32
abbrev Price := Int64
abbrev Quantity := UInt32
abbrev Priority := UInt64

def invalidOrderId : OrderId := 0xFFFFFFFFFFFFFFFF
def invalidInstrumentId : InstrumentId := 0xFF
def invalidClientId : ClientId := 0xFFFFFFFF
def invalidPrice : Price := 0x7FFFFFFFFFFFFFFF
def invalidQuantity : Quantity := 0xFFFFFFFF
def invalidPriority : Priority := 0xFFFFFFFFFFFFFFFF

def maxNumInstruments : Nat := 8
def maxClientUpdates : Nat := 256 * 1024
def maxMarketUpdates : Nat := 256 * 1024
def maxNumClients : Nat := 10
def maxNumOrders : Nat := 2048
def maxPriceLevels : Nat := 256

structure Side where
  code : UInt8
deriving DecidableEq

namespace Side
def invalid : Side := ⟨0⟩
def buy : Side := ⟨1⟩
def sell : Side := ⟨2⟩

@[simp] theorem sell_ne_buy : ¬ sell = buy := by decide
@[simp] theorem buy_ne_sell : ¬ buy = sell := by decide

/-- The side an order of `side` trades against. -/
def other (side : Side) : Side := if side = buy then sell else buy
end Side

structure ClientRequestType where
  code : UInt8
deriving DecidableEq

namespace ClientRequestType
def invalid : ClientRequestType := ⟨0⟩
def new : ClientRequestType := ⟨1⟩
def cancel : ClientRequestType := ⟨2⟩
def modify : ClientRequestType := ⟨3⟩
end ClientRequestType

structure ClientResponseType where
  code : UInt8
deriving DecidableEq

namespace ClientResponseType
def invalid : ClientResponseType := ⟨0⟩
def accepted : ClientResponseType := ⟨1⟩
def canceled : ClientResponseType := ⟨2⟩
def modified : ClientResponseType := ⟨3⟩
def filled : ClientResponseType := ⟨4⟩
def cancelRejected : ClientResponseType := ⟨5⟩
def modifyRejected : ClientResponseType := ⟨6⟩
def invalidRequest : ClientResponseType := ⟨7⟩
end ClientResponseType

structure MarketUpdateType where
  code : UInt8
deriving DecidableEq

namespace MarketUpdateType
def invalid : MarketUpdateType := ⟨0⟩
def clear : MarketUpdateType := ⟨1⟩
def add : MarketUpdateType := ⟨2⟩
def modify : MarketUpdateType := ⟨3⟩
def cancel : MarketUpdateType := ⟨4⟩
def trade : MarketUpdateType := ⟨5⟩
def snapshotStart : MarketUpdateType := ⟨6⟩
def snapshotEnd : MarketUpdateType := ⟨7⟩
end MarketUpdateType

structure ClientRequestInternal where
  type : ClientRequestType
  clientId : ClientId
  instrumentId : InstrumentId
  orderId : OrderId
  side : Side
  price : Price
  qty : Quantity
deriving DecidableEq

structure ClientRequestExternal where
  sequenceNumber : UInt64
  request : ClientRequestInternal
deriving DecidableEq

structure ClientResponseInternal where
  type : ClientResponseType
  clientId : ClientId
  instrumentId : InstrumentId
  clientOrderId : OrderId
  marketOrderId : OrderId
  side : Side
  price : Price
  execQty : Quantity
  leavesQty : Quantity
deriving DecidableEq

structure ClientResponseExternal where
  sequenceNumber : UInt64
  response : ClientResponseInternal
deriving DecidableEq

structure MarketUpdate where
  type : MarketUpdateType
  orderId : OrderId
  instrumentId : InstrumentId
  side : Side
  price : Price
  qty : Quantity
  priority : Priority
deriving DecidableEq

structure ClientMarketUpdate where
  sequenceNumber : UInt64
  update : MarketUpdate
deriving DecidableEq

/-- How a call can fail to return: an exception inside a `noexcept` function,
`utils::FATAL`, an access through a null pointer or past the end of an array,
or a loop that has not ended within the fuel. -/
inductive Fault where
  | thrown
  | fatal
  | badAccess
  | outOfFuel
deriving DecidableEq

/-- Dereferencing a possibly null pointer, given as a block index. -/
def deref : Option Nat → Except Fault Nat
  | some p => .ok p
  | none => .error .badAccess

@[simp] theorem deref_some (p : Nat) : deref (some p) = .ok p := rfl
@[simp] theorem deref_none : deref none = .error .badAccess := rfl

section Except
variable {ε α β : Type}

@[simp] theorem ok_bind (a : α) (f : α → Except ε β) : (Except.ok a >>= f) = f a := rfl

@[simp] theorem error_bind (e : ε) (f : α → Except ε β) : (Except.error e >>= f) = .error e :=
  rfl

/-- A sequence that returns has returned at its first step. -/
theorem bind_eq_ok {x : Except ε α} {f : α → Except ε β} {b : β} :
    (x >>= f) = .ok b ↔ ∃ a, x = .ok a ∧ f a = .ok b := by
  cases x <;> simp

/-- The fault of a call that does not return. -/
def faultOf : Except ε α → Option ε
  | .ok _ => none
  | .error f => some f

theorem eq_error_of_faultOf {x : Except ε α} {f : ε} (h : faultOf x = some f) : x = .error f := by
  cases x with
  | ok a => cases h
  | error g => rw [Option.some.inj h]

/-- What `x` returns, if it returns, has `p`. -/
def OnReturn (x : Except ε α) (p : α → Prop) : Prop := ∀ a, x = .ok a → p a

@[simp] theorem onReturn_ok {a : α} {p : α → Prop} :
    OnReturn (Except.ok a : Except ε α) p ↔ p a := by
  simp [OnReturn]

instance (x : Except ε α) (p : α → Prop) [DecidablePred p] : Decidable (OnReturn x p) :=
  match x with
  | .ok a => decidable_of_iff' (p a) onReturn_ok
  | .error _ => .isTrue nofun

end Except

end StockExchange
