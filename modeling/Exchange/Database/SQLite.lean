import Exchange.Database.Model
import Exchange.Lib.Table

/-!
# `SQLiteClientDatabase`, as the code computes it

The tables of `src/SQLiteClientDatabase.cpp` and the statements of the calls that write
them. Every statement succeeds, but for the one insert that has no `ON CONFLICT` clause:
on a key that is taken it fails, and nobody looks at its result. The statements of
`update_on_execution` are one transaction.

Client and symbol ids are bound as 32-bit integers, prices, quantities and numbers as
64-bit ones, and read back the same way: they stand here as what they were. A sum in SQL
is exact as long as it fits a 64-bit integer, and a `REAL` beyond. The column is declared
`INTEGER`, so a `REAL` that comes back into the range is stored as an integer again.
-/

namespace Exchange

open Lib

/-- A value of a column of numbers. A `REAL` is a sum of integers here, so that its value is
an integer too. -/
inductive SqlValue
  | integer (n : Int)
  | real (x : Int)
  deriving DecidableEq, Repr

namespace SqlValue

/-- The integers of SQL. -/
def Fits (n : Int) : Prop := -2 ^ 63 ≤ n ∧ n < 2 ^ 63

instance (n : Int) : Decidable (Fits n) := inferInstanceAs (Decidable (_ ∧ _))

/-- The double nearest to an integer; of two, the one whose significand is even. -/
def toDouble (n : Int) : Int :=
  let unit := 2 ^ (n.natAbs.log2 - 52)
  let significand := n.natAbs / unit
  let rest := n.natAbs % unit
  let up := unit < 2 * rest ∨ (unit = 2 * rest ∧ significand % 2 = 1)
  n.sign * ((if up then significand + 1 else significand) * unit : Nat)

/-- `sqlite3_value_double`. -/
def double : SqlValue → Int
  | .integer n => toDouble n
  | .real x => x

/-- `+`. -/
def add : SqlValue → SqlValue → SqlValue
  | .integer a, .integer b =>
    if Fits (a + b) then .integer (a + b) else .real (toDouble (toDouble a + toDouble b))
  | a, b => .real (toDouble (a.double + b.double))

/-- What an `INTEGER` column makes of a value. -/
def stored : SqlValue → SqlValue
  | .integer n => .integer n
  | .real x => if -2 ^ 63 < x ∧ x < 2 ^ 63 - 1 then .integer x else .real x

/-- A sum that is stored. -/
def plus (a b : SqlValue) : SqlValue := (a.add b).stored

/-- `sqlite3_column_int64`. -/
def columnInt64 : SqlValue → Int
  | .integer n => n
  | .real x => max (-2 ^ 63) (min x (2 ^ 63 - 1))

end SqlValue

/-- A row of `clients`. -/
structure ClientRow where
  iSeqNum : Nat
  oSeqNum : Nat
  deriving DecidableEq, Repr

/-- A row of `open_orders`. -/
structure OpenOrderRow where
  clientId : UInt32
  symbolId : UInt32
  side : Side
  priceMantissa : Int
  q : Nat
  qRem : Nat
  deriving DecidableEq, Repr

/-- `class SQLiteClientDatabase`; `logOffset` is the value of the key of that name in
`system_state`. -/
structure SQLiteClientDatabase where
  clients : Table UInt32 ClientRow
  clientLogOffsets : Table (UInt32 × Nat) Nat
  positions : Table (UInt32 × UInt32) SqlValue
  openOrders : Table Nat OpenOrderRow
  logOffset : Option Nat

namespace SQLiteClientDatabase

/-- The tables `init_tables` creates. -/
def empty : SQLiteClientDatabase := ⟨∅, ∅, ∅, ∅, none⟩

/-- The insert that makes sure of a client. -/
def ensureClient (db : SQLiteClientDatabase) (clientId : UInt32) : SQLiteClientDatabase :=
  { db with clients := db.clients.insertNew clientId ⟨0, 0⟩ }

/-- `getClientISeqNum`. -/
def getClientISeqNum (db : SQLiteClientDatabase) (clientId : UInt32) : Nat × SQLiteClientDatabase :=
  match db.clients.lookup clientId with
  | some row => (row.iSeqNum, db)
  | none => (0, db.ensureClient clientId)

/-- `setClientISeqNum`. -/
def setClientISeqNum (db : SQLiteClientDatabase) (clientId : UInt32) (seqNum : Nat) :
    SQLiteClientDatabase :=
  { db with clients := db.clients.upsert clientId ⟨seqNum, 0⟩ fun row => { row with iSeqNum := seqNum } }

/-- `getClientOSeqNum`. -/
def getClientOSeqNum (db : SQLiteClientDatabase) (clientId : UInt32) : Nat × SQLiteClientDatabase :=
  match db.clients.lookup clientId with
  | some row => (row.oSeqNum, db)
  | none => (0, db.ensureClient clientId)

/-- `setClientOSeqNum`. -/
def setClientOSeqNum (db : SQLiteClientDatabase) (clientId : UInt32) (seqNum : Nat) :
    SQLiteClientDatabase :=
  { db with clients := db.clients.upsert clientId ⟨0, seqNum⟩ fun row => { row with oSeqNum := seqNum } }

/-- The statement that counts a message; `RETURNING o_seq_num`. -/
def bumpOSeqNum (db : SQLiteClientDatabase) (clientId : UInt32) : Nat × SQLiteClientDatabase :=
  let clients := db.clients.upsert clientId ⟨0, 1⟩ fun row => { row with oSeqNum := row.oSeqNum + 1 }
  (((clients.lookup clientId).map ClientRow.oSeqNum).getD 0, { db with clients := clients })

/-- `incrementAndGetClientOSeqNum`. -/
def incrementAndGetClientOSeqNum (db : SQLiteClientDatabase) (clientId : UInt32) :
    Nat × SQLiteClientDatabase := db.bumpOSeqNum clientId

/-- The trade branch of `update_on_execution`: the cash, then the asset. -/
def applyTrade (db : SQLiteClientDatabase) (resp : OrderResponse) : SQLiteClientDatabase :=
  let cost := BitVec.ofInt 64 resp.p * BitVec.ofNat 64 resp.q
  let qty := BitVec.ofNat 64 resp.q
  let assetDelta := SqlValue.integer (if resp.side = .buy then qty else -qty).toInt
  let cashDelta := SqlValue.integer (if resp.side = .buy then -cost else cost).toInt
  let db := { db with positions :=
    db.positions.upsert (resp.clientId, 0) (.plus (.integer 1000000) cashDelta) (·.plus cashDelta) }
  if resp.symbolId ≠ 0 then
    { db with positions :=
      db.positions.upsert (resp.clientId, resp.symbolId) assetDelta (·.plus assetDelta) }
  else db

/-- The open-order branch of `update_on_execution`. -/
def updateOpenOrders (db : SQLiteClientDatabase) (resp : OrderResponse) : SQLiteClientDatabase :=
  let orderId := combinedOrderId resp.clientId resp.orderId
  if checkExec resp.execType execAlive then
    let isStateUpdate := resp.execType = .new ∨ resp.execType = .replaced
    let row := OpenOrderRow.mk resp.clientId resp.symbolId resp.side resp.p resp.q resp.qRem
    let update := fun old : OpenOrderRow =>
      { old with
        priceMantissa := resp.p
        q := if isStateUpdate then resp.q else old.q
        qRem := resp.qRem }
    { db with openOrders := db.openOrders.upsert orderId row update }
  else if checkExec resp.execType execAnn then
    { db with openOrders := db.openOrders.erase orderId }
  else db

/-- `INSERT INTO client_log_offsets`. -/
def insertLogOffset (db : SQLiteClientDatabase) (clientId : UInt32) (msgSeqNum logOffset : Nat) :
    SQLiteClientDatabase :=
  { db with clientLogOffsets := db.clientLogOffsets.insertNew (clientId, msgSeqNum) logOffset }

/-- `update_on_execution`. -/
def updateOnExecution (db : SQLiteClientDatabase) (resp : OrderResponse) (logOffset : Nat) :
    SQLiteClientDatabase :=
  let (msgSeqNum, db) := (db.ensureClient resp.clientId).bumpOSeqNum resp.clientId
  let db := if checkExec resp.execType execTrade then db.applyTrade resp else db
  let db := (db.updateOpenOrders resp).insertLogOffset resp.clientId msgSeqNum logOffset
  { db with logOffset := some logOffset }

/-- Records in the order they were read, each with the offset it is filed under. -/
def updateAll (db : SQLiteClientDatabase) (rs : List (OrderResponse × Nat)) : SQLiteClientDatabase :=
  rs.foldl (fun db r => db.updateOnExecution r.1 r.2) db

/-- `getLastLogOffset`. -/
def getLastLogOffset (db : SQLiteClientDatabase) : Nat := db.logOffset.getD 0

/-- `getPosition`. -/
def getPosition (db : SQLiteClientDatabase) (clientId symbolId : UInt32) : Int :=
  match db.positions.lookup (clientId, symbolId) with
  | some position => position.columnInt64
  | none => if symbolId = 0 then 1000000 else 0

/-! ## The number of a client -/

/-- `o_seq_num`, which is 0 for a client that is not there. -/
def oSeqNum (db : SQLiteClientDatabase) (clientId : UInt32) : Nat :=
  ((db.clients.lookup clientId).map ClientRow.oSeqNum).getD 0

variable (db : SQLiteClientDatabase) (clientId id : UInt32)

/-- Making a client's row gives it number 0, as no row reads. -/
@[simp]
theorem oSeqNum_ensureClient : (db.ensureClient clientId).oSeqNum id = db.oSeqNum id := by
  unfold oSeqNum ensureClient
  dsimp only
  rw [Table.lookup_insertNew]
  by_cases hid : id = clientId
  · subst hid
    rw [if_pos rfl]
    cases db.clients.lookup id <;> rfl
  · rw [if_neg hid]

theorem getClientOSeqNum_fst : (db.getClientOSeqNum clientId).1 = db.oSeqNum clientId := by
  unfold getClientOSeqNum oSeqNum
  cases db.clients.lookup clientId <;> rfl

theorem oSeqNum_getClientOSeqNum : (db.getClientOSeqNum clientId).2.oSeqNum id = db.oSeqNum id := by
  unfold getClientOSeqNum
  split
  · rfl
  · exact db.oSeqNum_ensureClient clientId id

/-- Reading the inbound number leaves the outbound ones. -/
theorem oSeqNum_getClientISeqNum : (db.getClientISeqNum clientId).2.oSeqNum id = db.oSeqNum id := by
  unfold getClientISeqNum
  split
  · rfl
  · exact db.oSeqNum_ensureClient clientId id

theorem oSeqNum_setClientISeqNum (n : Nat) :
    (db.setClientISeqNum clientId n).oSeqNum id = db.oSeqNum id := by
  unfold oSeqNum setClientISeqNum
  dsimp only
  rw [Table.lookup_upsert]
  by_cases hid : id = clientId
  · subst hid
    rw [if_pos rfl]
    cases db.clients.lookup id <;> rfl
  · rw [if_neg hid]

/-- Setting a client's number leaves the others'. -/
theorem oSeqNum_setClientOSeqNum (n : Nat) :
    (db.setClientOSeqNum clientId n).oSeqNum id = if id = clientId then n else db.oSeqNum id := by
  unfold oSeqNum setClientOSeqNum
  dsimp only
  rw [Table.lookup_upsert]
  by_cases hid : id = clientId
  · subst hid
    rw [if_pos rfl, if_pos rfl]
    cases db.clients.lookup id <;> rfl
  · rw [if_neg hid, if_neg hid]

theorem oSeqNum_bumpOSeqNum :
    (db.bumpOSeqNum clientId).2.oSeqNum id =
      if id = clientId then db.oSeqNum clientId + 1 else db.oSeqNum id := by
  unfold oSeqNum bumpOSeqNum
  dsimp only
  rw [Table.lookup_upsert]
  by_cases hid : id = clientId
  · subst hid
    rw [if_pos rfl, if_pos rfl]
    cases db.clients.lookup id <;> rfl
  · rw [if_neg hid, if_neg hid]

theorem bumpOSeqNum_fst : (db.bumpOSeqNum clientId).1 = db.oSeqNum clientId + 1 :=
  (db.oSeqNum_bumpOSeqNum clientId clientId).trans (if_pos rfl)

/-! ## What the branches of `update_on_execution` leave alone -/

section

variable (resp : OrderResponse) (logOffset : Nat)

theorem applyTrade_frame : (db.applyTrade resp).clients = db.clients ∧
    (db.applyTrade resp).clientLogOffsets = db.clientLogOffsets ∧
    (db.applyTrade resp).openOrders = db.openOrders := by
  unfold applyTrade
  dsimp only
  split
  · exact ⟨rfl, rfl, rfl⟩
  · exact ⟨rfl, rfl, rfl⟩

theorem updateOpenOrders_frame : (db.updateOpenOrders resp).clients = db.clients ∧
    (db.updateOpenOrders resp).clientLogOffsets = db.clientLogOffsets ∧
    (db.updateOpenOrders resp).positions = db.positions := by
  unfold updateOpenOrders
  dsimp only
  split
  · exact ⟨rfl, rfl, rfl⟩
  · split
    · exact ⟨rfl, rfl, rfl⟩
    · exact ⟨rfl, rfl, rfl⟩

/-- The trade branch, where it is taken. -/
def tradePart : SQLiteClientDatabase :=
  if checkExec resp.execType execTrade then db.applyTrade resp else db

theorem tradePart_frame : (db.tradePart resp).clients = db.clients ∧
    (db.tradePart resp).clientLogOffsets = db.clientLogOffsets ∧
    (db.tradePart resp).openOrders = db.openOrders := by
  unfold tradePart
  split
  · exact db.applyTrade_frame resp
  · exact ⟨rfl, rfl, rfl⟩

theorem clients_updateOnExecution : (db.updateOnExecution resp logOffset).clients =
    ((db.ensureClient resp.clientId).bumpOSeqNum resp.clientId).2.clients := by
  show ((SQLiteClientDatabase.tradePart _ resp).updateOpenOrders resp).clients = _
  rw [(updateOpenOrders_frame _ resp).1, (tradePart_frame _ resp).1]
  rfl

theorem clientLogOffsets_updateOnExecution : (db.updateOnExecution resp logOffset).clientLogOffsets =
    db.clientLogOffsets.insertNew (resp.clientId, db.oSeqNum resp.clientId + 1) logOffset := by
  show (((SQLiteClientDatabase.tradePart _ resp).updateOpenOrders resp).clientLogOffsets).insertNew
    (_, ((db.ensureClient resp.clientId).bumpOSeqNum resp.clientId).1) _ = _
  rw [(updateOpenOrders_frame _ resp).2.1, (tradePart_frame _ resp).2.1, bumpOSeqNum_fst,
    oSeqNum_ensureClient]
  rfl

theorem oSeqNum_updateOnExecution : (db.updateOnExecution resp logOffset).oSeqNum id =
    if id = resp.clientId then db.oSeqNum resp.clientId + 1 else db.oSeqNum id := by
  have h := (db.ensureClient resp.clientId).oSeqNum_bumpOSeqNum resp.clientId id
  rw [oSeqNum_ensureClient, oSeqNum_ensureClient] at h
  rw [← h]
  unfold oSeqNum
  rw [clients_updateOnExecution]

end

end SQLiteClientDatabase

end Exchange
