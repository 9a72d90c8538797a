import Exchange.Database.Failures

/-!
# `PostgresClientDatabase`, as the code computes it

`update_on_execution` of `src/PostgresClientDatabase.cpp` on the tables it writes. Any of its
statements may throw, for whatever reason: the connection, a constraint, a number that is out of
range. The transaction is then rolled back, and the `catch` behind it writes a line to the log.
What counts of a `commit` is whether the server has committed, also where the exception leaves
that in doubt.
-/

namespace Exchange

open Lib

/-- The tables; `logOffset` is the value of the key of that name in `system_state`. -/
structure PostgresClientDatabase where
  clients : Table UInt32 ClientRow
  clientLogOffsets : Table (UInt32 × Nat) Nat
  positions : Table (UInt32 × UInt32) Int
  openOrders : Table Nat OpenOrderRow
  logOffset : Option Nat

namespace PostgresClientDatabase

/-- Tables without rows. -/
def empty : PostgresClientDatabase := ⟨∅, ∅, ∅, ∅, none⟩

/-- The insert that makes sure of a client. -/
def ensureClient (clientId : UInt32) (db : PostgresClientDatabase) : PostgresClientDatabase :=
  { db with clients := db.clients.insertNew clientId ⟨0, 0⟩ }

/-- The statement that counts a message; `RETURNING o_seq_num`. -/
def bumpOSeqNum (clientId : UInt32) (db : PostgresClientDatabase) : Nat × PostgresClientDatabase :=
  let clients := db.clients.upsert clientId ⟨0, 1⟩ fun row => { row with oSeqNum := row.oSeqNum + 1 }
  (((clients.lookup clientId).map ClientRow.oSeqNum).getD 0, { db with clients := clients })

/-- The cash position of a trade. -/
def applyCash (resp : OrderResponse) (db : PostgresClientDatabase) : PostgresClientDatabase :=
  let cost := BitVec.ofInt 64 resp.p * BitVec.ofNat 64 resp.q
  let cashDelta := (if resp.side = .buy then -cost else cost).toInt
  { db with positions := db.positions.upsert (resp.clientId, 0) (1000000 + cashDelta) (· + cashDelta) }

/-- The asset position of a trade. -/
def applyAsset (resp : OrderResponse) (db : PostgresClientDatabase) : PostgresClientDatabase :=
  let qty := BitVec.ofNat 64 resp.q
  let assetDelta := (if resp.side = .buy then qty else -qty).toInt
  { db with positions := db.positions.upsert (resp.clientId, resp.symbolId) assetDelta (· + assetDelta) }

/-- The upsert of an open order. -/
def upsertOrder (resp : OrderResponse) (db : PostgresClientDatabase) : PostgresClientDatabase :=
  let orderId := combinedOrderId resp.clientId resp.orderId
  let row := OpenOrderRow.mk resp.clientId resp.symbolId resp.side resp.p resp.q resp.qRem
  let update := fun old : OpenOrderRow =>
    { old with
      priceMantissa := resp.p
      q := if resp.execType = .partialFill then old.q else resp.q
      qRem := resp.qRem }
  { db with openOrders := db.openOrders.upsert orderId row update }

/-- `DELETE FROM open_orders`. -/
def deleteOrder (resp : OrderResponse) (db : PostgresClientDatabase) : PostgresClientDatabase :=
  { db with openOrders := db.openOrders.erase (combinedOrderId resp.clientId resp.orderId) }

/-- `INSERT INTO client_log_offsets`. -/
def insertLogOffset (clientId : UInt32) (msgSeqNum logOffset : Nat) (db : PostgresClientDatabase) :
    PostgresClientDatabase :=
  { db with clientLogOffsets := db.clientLogOffsets.insertNew (clientId, msgSeqNum) logOffset }

/-- `INSERT INTO system_state`. -/
def saveLogOffset (logOffset : Nat) (db : PostgresClientDatabase) : PostgresClientDatabase :=
  { db with logOffset := some logOffset }

/-- `w.exec(..)`; none is an exception. -/
def exec (fate : Fate) (stmt : PostgresClientDatabase → PostgresClientDatabase)
    (db : PostgresClientDatabase) : Option PostgresClientDatabase :=
  if fate = .done then some (stmt db) else none

/-- The trade branch of the transaction. -/
def execTrades (f : Fates) (resp : OrderResponse) (db : PostgresClientDatabase) :
    Option PostgresClientDatabase := do
  if checkExec resp.execType execTrade then
    let db ← exec f.cash (applyCash resp) db
    if resp.symbolId ≠ 0 then exec f.asset (applyAsset resp) db else some db
  else some db

/-- The open-order branch of the transaction. -/
def execOrders (f : Fates) (resp : OrderResponse) (db : PostgresClientDatabase) :
    Option PostgresClientDatabase :=
  if checkExec resp.execType execAlive then exec f.order (upsertOrder resp) db
  else if checkExec resp.execType execAnn then exec f.order (deleteOrder resp) db
  else some db

/-- The transaction of `update_on_execution` up to `w.commit()`. -/
def transact (f : Fates) (resp : OrderResponse) (logOffset : Nat) (db : PostgresClientDatabase) :
    Option PostgresClientDatabase := do
  let db ← exec f.start id db
  let db ← exec f.client (ensureClient resp.clientId) db
  let msgSeqNum := (db.bumpOSeqNum resp.clientId).1
  let db ← exec f.seq (fun db => (db.bumpOSeqNum resp.clientId).2) db
  let db ← execTrades f resp db
  let db ← execOrders f resp db
  let db ← exec f.log (insertLogOffset resp.clientId msgSeqNum logOffset) db
  exec f.state (saveLogOffset logOffset) db

/-- `update_on_execution`. -/
def attempt (db : PostgresClientDatabase) (f : Fates) (resp : OrderResponse) (logOffset : Nat) :
    PostgresClientDatabase :=
  match transact f resp logOffset db with
  | some db' => if f.commit = .done then db' else db
  | none => db

/-- The trade branch, where nothing throws. -/
def applyTrade (resp : OrderResponse) (db : PostgresClientDatabase) : PostgresClientDatabase :=
  if checkExec resp.execType execTrade then
    if resp.symbolId ≠ 0 then (db.applyCash resp).applyAsset resp else db.applyCash resp
  else db

/-- The open-order branch, where nothing throws. -/
def updateOpenOrders (resp : OrderResponse) (db : PostgresClientDatabase) : PostgresClientDatabase :=
  if checkExec resp.execType execAlive then db.upsertOrder resp
  else if checkExec resp.execType execAnn then db.deleteOrder resp
  else db

/-- `update_on_execution`, where nothing throws. -/
def updateOnExecution (db : PostgresClientDatabase) (resp : OrderResponse) (logOffset : Nat) :
    PostgresClientDatabase :=
  let (msgSeqNum, db) := (db.ensureClient resp.clientId).bumpOSeqNum resp.clientId
  let db := (db.applyTrade resp).updateOpenOrders resp
  (db.insertLogOffset resp.clientId msgSeqNum logOffset).saveLogOffset logOffset

/-- `getLastLogOffset`. -/
def getLastLogOffset (db : PostgresClientDatabase) : Nat := db.logOffset.getD 0

/-- No statement throws. -/
def holds (f : Fates) (resp : OrderResponse) : Bool :=
  f.start = .done && f.client = .done && (f.needed resp).all (· = .done) && f.commit = .done

/-! ## All the effects, or none -/

theorem ite_some_bind {α β : Type} (p : Prop) [Decidable p] (a : α) (k : α → Option β) :
    (if p then some a else none).bind k = if p then k a else none := by
  split
  · rfl
  · rfl

/-- A statement that is not done ends the transaction. -/
theorem exec_bind (fate : Fate) (stmt : PostgresClientDatabase → PostgresClientDatabase)
    (db : PostgresClientDatabase) {α : Type} (k : PostgresClientDatabase → Option α) :
    (exec fate stmt db).bind k = if fate = .done then k (stmt db) else none :=
  ite_some_bind _ _ _

section Transact

variable (f : Fates) (resp : OrderResponse) (logOffset : Nat) (db : PostgresClientDatabase)

/-- What becomes of the statements of the trade branch. -/
def tradeFates : List Fate :=
  if checkExec resp.execType execTrade then
    [f.cash] ++ (if resp.symbolId ≠ 0 then [f.asset] else []) else []

/-- What becomes of the statement of the open-order branch. -/
def orderFates : List Fate :=
  if checkExec resp.execType execAlive ∨ checkExec resp.execType execAnn then [f.order] else []

/-- All the statements of a trade, or none. -/
theorem execTrades_eq : execTrades f resp db =
    if ∀ x ∈ tradeFates f resp, x = .done then some (db.applyTrade resp) else none := by
  unfold execTrades tradeFates applyTrade
  split
  · simp only [Option.bind_eq_bind, exec_bind]
    by_cases hsym : resp.symbolId ≠ 0
    · simp only [if_pos hsym, exec, List.singleton_append, List.forall_mem_cons, ite_and]
      simp
    · simp [hsym]
  · simp

theorem execOrders_eq : execOrders f resp db =
    if ∀ x ∈ orderFates f resp, x = .done then some (db.updateOpenOrders resp) else none := by
  unfold execOrders orderFates updateOpenOrders exec
  by_cases halive : checkExec resp.execType execAlive
  · simp [halive]
  · by_cases hann : checkExec resp.execType execAnn
    · simp [halive, hann]
    · simp [halive, hann]

/-- The transaction comes to its end if nothing throws. -/
theorem transact_eq : transact f resp logOffset db =
    if f.start = .done ∧ f.client = .done ∧ ∀ x ∈ f.needed resp, x = .done then
      some (db.updateOnExecution resp logOffset)
    else none := by
  have hneeded : (∀ x ∈ f.needed resp, x = .done) ↔ f.seq = .done ∧
      (∀ x ∈ tradeFates f resp, x = .done) ∧ (∀ x ∈ orderFates f resp, x = .done) ∧
        f.log = .done ∧ f.state = .done := by
    unfold Fates.needed tradeFates orderFates
    simp only [List.forall_mem_append, List.forall_mem_cons, List.not_mem_nil, false_implies,
      implies_true, and_true, and_assoc]
  unfold transact
  simp only [Option.bind_eq_bind, exec_bind, execTrades_eq, execOrders_eq, ite_some_bind, hneeded, ite_and]
  rfl

end Transact

/-- The record leaves all of its effects. -/
theorem attempt_holds {f : Fates} {resp : OrderResponse} (h : holds f resp = true) (logOffset : Nat)
    (db : PostgresClientDatabase) : attempt db f resp logOffset = db.updateOnExecution resp logOffset := by
  unfold holds at h
  simp only [Bool.and_eq_true, List.all_eq_true, decide_eq_true_eq] at h
  obtain ⟨⟨⟨hstart, hclient⟩, hneeded⟩, hcommit⟩ := h
  unfold attempt
  rw [transact_eq, if_pos ⟨hstart, hclient, hneeded⟩]
  exact if_pos hcommit

/-- The record leaves none. -/
theorem attempt_idle {f : Fates} {resp : OrderResponse} (h : holds f resp = false) (logOffset : Nat)
    (db : PostgresClientDatabase) : attempt db f resp logOffset = db := by
  unfold attempt
  rw [transact_eq]
  by_cases hall : f.start = .done ∧ f.client = .done ∧ ∀ x ∈ f.needed resp, x = .done
  · have hcommit : f.commit ≠ .done := by
      intro hcommit
      have htrue : holds f resp = true := by
        unfold holds
        simp only [Bool.and_eq_true, List.all_eq_true, decide_eq_true_eq]
        exact ⟨⟨⟨hall.1, hall.2.1⟩, hall.2.2⟩, hcommit⟩
      rw [h] at htrue
      cases htrue
    rw [if_pos hall]
    exact if_neg hcommit
  · rw [if_neg hall]

end PostgresClientDatabase

end Exchange
