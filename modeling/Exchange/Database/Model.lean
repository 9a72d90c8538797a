import Mathlib.Data.List.AList
import Exchange.Types

/-!
# `InMemoryClientDatabase`, as the code computes it

The account store of `include/database/InMemoryClientDatabase.hpp`, as far as
`update_on_execution` reads and writes it.

A `std::map` is an `AList`. Positions are 64-bit words; sequence numbers and log
offsets are exact, a client being short of `2^64` records by a wide margin. The
key of an open order is its `order_id`, which the code widens to 64 bits. The
mutex is left out: each call holds it from start to end.
-/

namespace Exchange

/-- `class InMemoryClientDatabase`. -/
structure InMemoryClientDatabase where
  oSeqNums : AList (fun _ : UInt32 => Nat)
  logOffsets : AList (fun _ : UInt32 => AList (fun _ : Nat => Nat))
  positions : AList (fun _ : UInt32 => AList (fun _ : UInt32 => BitVec 64))
  openOrders : AList (fun _ : UInt32 => AList (fun _ : UInt32 => OrderResponse))
  lastLogOffset : Nat

namespace InMemoryClientDatabase

/-- The store the constructor builds. -/
def empty : InMemoryClientDatabase := ⟨∅, ∅, ∅, ∅, 0⟩

/-- `getClientOSeqNum`. -/
def getClientOSeqNum (db : InMemoryClientDatabase) (clientId : UInt32) : Nat :=
  (db.oSeqNums.lookup clientId).getD 0

/-- What `get_or_create_client_positions` gives a new client: cash, and none of
symbol 1. -/
def newClientPositions : AList (fun _ : UInt32 => BitVec 64) :=
  ((∅ : AList fun _ : UInt32 => BitVec 64).insert 0 1000000).insert 1 0

/-- `get_or_create_client_positions`. -/
def clientPositions (db : InMemoryClientDatabase) (clientId : UInt32) :
    AList (fun _ : UInt32 => BitVec 64) :=
  (db.positions.lookup clientId).getD newClientPositions

/-- `positions[symbol_id] += delta`. -/
def addPosition (pos : AList (fun _ : UInt32 => BitVec 64)) (symbolId : UInt32) (delta : BitVec 64) :
    AList (fun _ : UInt32 => BitVec 64) :=
  pos.insert symbolId ((pos.lookup symbolId).getD 0 + delta)

/-- The trade branch of `update_on_execution`: the asset, then the cash. -/
def applyTrade (db : InMemoryClientDatabase) (resp : OrderResponse) : InMemoryClientDatabase :=
  let cost := BitVec.ofInt 64 resp.p * BitVec.ofNat 64 resp.q
  let qty := BitVec.ofNat 64 resp.q
  let assetDelta := if resp.side = .buy then qty else -qty
  let cashDelta := if resp.side = .buy then -cost else cost
  let pos := addPosition (db.clientPositions resp.clientId) resp.symbolId assetDelta
  { db with positions := db.positions.insert resp.clientId (addPosition pos 0 cashDelta) }

/-- The open-order branch of `update_on_execution`. -/
def updateOpenOrders (db : InMemoryClientDatabase) (resp : OrderResponse) : InMemoryClientDatabase :=
  if checkExec resp.execType execAlive then
    let orders := (db.openOrders.lookup resp.clientId).getD ∅
    let orders :=
      if resp.execType = .partialFill then
        match orders.lookup resp.orderId with
        | none => orders
        | some order => orders.insert resp.orderId { order with qRem := resp.qRem }
      else orders.insert resp.orderId resp
    { db with openOrders := db.openOrders.insert resp.clientId orders }
  else if checkExec resp.execType execAnn then
    match db.openOrders.lookup resp.clientId with
    | none => db
    | some orders =>
      { db with openOrders := db.openOrders.insert resp.clientId (orders.erase resp.orderId) }
  else db

/-- `log_offsets_[client_id][msg_seq_num] = log_offset`. -/
def setLogOffset (db : InMemoryClientDatabase) (clientId : UInt32) (msgSeqNum logOffset : Nat) :
    InMemoryClientDatabase :=
  let offsets := (db.logOffsets.lookup clientId).getD ∅
  { db with logOffsets := db.logOffsets.insert clientId (offsets.insert msgSeqNum logOffset) }

/-- `update_on_execution`. -/
def updateOnExecution (db : InMemoryClientDatabase) (resp : OrderResponse) (logOffset : Nat) :
    InMemoryClientDatabase :=
  let msgSeqNum := db.getClientOSeqNum resp.clientId + 1
  let db := { db with oSeqNums := db.oSeqNums.insert resp.clientId msgSeqNum }
  let db := if checkExec resp.execType execTrade then db.applyTrade resp else db
  let db := (db.updateOpenOrders resp).setLogOffset resp.clientId msgSeqNum logOffset
  { db with lastLogOffset := logOffset }

/-- Records in the order they were read, each with the offset it is filed under. -/
def updateAll (db : InMemoryClientDatabase) (rs : List (OrderResponse × Nat)) :
    InMemoryClientDatabase :=
  rs.foldl (fun db r => db.updateOnExecution r.1 r.2) db

/-- `open_orders_[client_id][order_id]`, where there is one. -/
def openOrder (db : InMemoryClientDatabase) (clientId orderId : UInt32) : Option OrderResponse :=
  (db.openOrders.lookup clientId).bind fun orders => orders.lookup orderId

end InMemoryClientDatabase

end Exchange
