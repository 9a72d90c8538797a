import Mathlib.Data.Nat.Bitwise
import Mathlib.Data.Int.Basic

/-!
# Wire types

The enumerations and records of `fbs/exchange.fbs` that the matching engine,
the market data server and the client database exchange, and the `EXEC_*`
masks of `include/define.hpp`.

Flatbuffers verification does not check that a byte is one of the declared
enumerators, so `Side`, `OrderType` and `OrderAction` keep every other byte
as `other`. `p` is the `int64` price and `q`, `qRem` are the `uint64`
quantities, as exact integers: the bounds the code needs are those it checks.
The matching engine does not look at `visible_qty`.
-/

namespace Exchange

/-- `enum Side : byte`. -/
inductive Side
  | buy
  | sell
  | none
  | other (code : Int)
  deriving DecidableEq, Repr

/-- `enum OrderType : byte`. -/
inductive OrderType
  | limit
  | market
  | ioc
  | fok
  | other (code : Int)
  deriving DecidableEq, Repr

/-- `enum OrderAction : byte`. -/
inductive OrderAction
  | new
  | cancel
  | modify
  | other (code : Int)
  deriving DecidableEq, Repr

/-- `enum RejectCode : byte`. -/
inductive RejectCode
  | none
  | priceInvalid
  | invalidQuantity
  | orderNotFound
  | invalidAction
  | invalidModify
  | duplicateOrderID
  | invalidSequenceNumber
  | loginAtOtherSession
  | unknown
  deriving DecidableEq, Repr

/-- `enum ExecType : byte`. -/
inductive ExecType
  | new
  | partialFill
  | fill
  | rejected
  | cancelled
  | replaced
  | orderStatus
  | complete
  deriving DecidableEq, Repr

/-- `OrderRequestT`. -/
structure OrderRequest where
  action : OrderAction
  execId : Nat
  orderId : UInt32
  clientId : UInt32
  symbolId : UInt32
  side : Side
  type : OrderType
  p : Int
  q : Nat
  visibleQty : Nat := 0
  timestamp : Nat
  deriving DecidableEq, Repr

/-- `OrderResponseT`. -/
structure OrderResponse where
  execType : ExecType
  orderId : UInt32
  clientId : UInt32
  execId : Nat
  symbolId : UInt32
  side : Side
  p : Int
  q : Nat
  qRem : Nat
  rejectCode : RejectCode
  deriving DecidableEq, Repr

/-! ## Combined order ids -/

/-- `(static_cast<uint64_t>(client_id) << 32) | order_id`. -/
def combinedOrderId (clientId orderId : UInt32) : Nat :=
  (clientId.toNat <<< 32) ||| orderId.toNat

/-- `static_cast<uint32_t>(combined_order_id & 0xFFFFFFFF)`. -/
def orderIdOf (combined : Nat) : UInt32 := UInt32.ofNat (combined &&& 0xFFFFFFFF)

/-- `static_cast<uint32_t>(combined_order_id >> 32)`. -/
def clientIdOf (combined : Nat) : UInt32 := UInt32.ofNat (combined >>> 32)

theorem combinedOrderId_eq (c o : UInt32) :
    combinedOrderId c o = c.toNat * 2 ^ 32 + o.toNat := by
  have ho : o.toNat < 2 ^ 32 := o.toNat_lt
  rw [combinedOrderId, Nat.shiftLeft_eq, Nat.mul_comm, Nat.two_pow_add_eq_or_of_lt ho]

@[simp] theorem orderIdOf_combined (c o : UInt32) : orderIdOf (combinedOrderId c o) = o := by
  have ho : o.toNat < 2 ^ 32 := o.toNat_lt
  have hmask : (0xFFFFFFFF : Nat) = 2 ^ 32 - 1 := rfl
  rw [orderIdOf, hmask, Nat.and_two_pow_sub_one_eq_mod, combinedOrderId_eq]
  have : (c.toNat * 2 ^ 32 + o.toNat) % 2 ^ 32 = o.toNat := by omega
  rw [this, UInt32.ofNat_toNat]

@[simp] theorem clientIdOf_combined (c o : UInt32) : clientIdOf (combinedOrderId c o) = c := by
  have ho : o.toNat < 2 ^ 32 := o.toNat_lt
  rw [clientIdOf, Nat.shiftRight_eq_div_pow, combinedOrderId_eq]
  have : (c.toNat * 2 ^ 32 + o.toNat) / 2 ^ 32 = c.toNat := by omega
  rw [this, UInt32.ofNat_toNat]

theorem combinedOrderId_lt (c o : UInt32) : combinedOrderId c o < 2 ^ 64 := by
  have ho : o.toNat < 2 ^ 32 := o.toNat_lt
  have hc : c.toNat < 2 ^ 32 := c.toNat_lt
  rw [combinedOrderId_eq]
  omega

/-- Every 64-bit id is the combination of its parts. -/
theorem combinedOrderId_parts {n : Nat} (h : n < 2 ^ 64) :
    combinedOrderId (clientIdOf n) (orderIdOf n) = n := by
  have hmask : (0xFFFFFFFF : Nat) = 2 ^ 32 - 1 := rfl
  rw [combinedOrderId_eq, clientIdOf, orderIdOf, hmask, Nat.and_two_pow_sub_one_eq_mod,
    Nat.shiftRight_eq_div_pow, UInt32.toNat_ofNat', UInt32.toNat_ofNat']
  omega

/-- The combined id determines both parts. -/
theorem combinedOrderId_inj {c o c' o' : UInt32}
    (h : combinedOrderId c o = combinedOrderId c' o') : c = c' ∧ o = o' := by
  constructor
  · rw [← clientIdOf_combined c o, h, clientIdOf_combined]
  · rw [← orderIdOf_combined c o, h, orderIdOf_combined]

/-- `combined_order_id` of the order a request names. -/
def OrderRequest.combinedId (req : OrderRequest) : Nat :=
  combinedOrderId req.clientId req.orderId

/-- `combined_order_id` of the order a record is about. -/
def OrderResponse.combinedId (resp : OrderResponse) : Nat :=
  combinedOrderId resp.clientId resp.orderId

/-! ## Execution masks -/

/-- The enumerator's value. -/
def ExecType.code : ExecType → Nat
  | .new => 0
  | .partialFill => 1
  | .fill => 2
  | .rejected => 3
  | .cancelled => 4
  | .replaced => 5
  | .orderStatus => 6
  | .complete => 7

/-- `exec_mask(type)`. -/
def execMask (t : ExecType) : Nat := 1 <<< t.code

/-- `check_exec(type, mask)`. -/
def checkExec (t : ExecType) (mask : Nat) : Bool := execMask t &&& mask ≠ 0

def execTrade : Nat := execMask .fill ||| execMask .partialFill

def execAnn : Nat := execMask .fill ||| execMask .cancelled

def execMe : Nat := execMask .new ||| execMask .replaced

def execAlive : Nat := execMe ||| execMask .partialFill

def execResp : Nat := execMe ||| execMask .cancelled ||| execMask .rejected

def execMd : Nat := execAnn ||| execAlive

end Exchange
