import Exchange.Database.SQLite
import Exchange.Lib.Transactions

/-!
# `update_on_execution` with statements that fail

The statements of `SQLiteClientDatabase::update_on_execution` one by one, on a connection, each
with what becomes of it: a call of `sqlite3_prepare_v2`, `sqlite3_step` or `sqlite3_exec` that
fails for whatever reason. Nobody looks at the results. The one thing that is kept of a statement
is the number of the message, which is 0 where the statement that counts it fails.

A record leaves all of its effects (`attempt_holds`) or none (`attempt_idle`), where its statements
do.
-/

namespace Exchange

open Lib

/-- What becomes of the statements of `update_on_execution`. -/
structure Fates where
  /-- `BEGIN IMMEDIATE TRANSACTION`. -/
  start : Fate
  /-- The insert that makes sure of the client. -/
  client : Fate
  /-- The statement that counts the message. -/
  seq : Fate
  cash : Fate
  asset : Fate
  /-- The upsert or the `DELETE` of the open order. -/
  order : Fate
  /-- `INSERT INTO client_log_offsets`. -/
  log : Fate
  /-- `INSERT INTO system_state`. -/
  state : Fate
  commit : Fate

/-- What becomes of those statements that a record needs. -/
def Fates.needed (f : Fates) (resp : OrderResponse) : List Fate :=
  [f.seq] ++
    (if checkExec resp.execType execTrade then
      [f.cash] ++ (if resp.symbolId ≠ 0 then [f.asset] else []) else []) ++
    (if checkExec resp.execType execAlive ∨ checkExec resp.execType execAnn then [f.order] else []) ++
    [f.log, f.state]

namespace SQLiteClientDatabase

/-- The cash position of a trade. -/
def applyCash (resp : OrderResponse) (db : SQLiteClientDatabase) : SQLiteClientDatabase :=
  let cost := BitVec.ofInt 64 resp.p * BitVec.ofNat 64 resp.q
  let cashDelta := SqlValue.integer (if resp.side = .buy then -cost else cost).toInt
  { db with positions :=
    db.positions.upsert (resp.clientId, 0) (.plus (.integer 1000000) cashDelta) (·.plus cashDelta) }

/-- The asset position of a trade. -/
def applyAsset (resp : OrderResponse) (db : SQLiteClientDatabase) : SQLiteClientDatabase :=
  let qty := BitVec.ofNat 64 resp.q
  let assetDelta := SqlValue.integer (if resp.side = .buy then qty else -qty).toInt
  { db with positions :=
    db.positions.upsert (resp.clientId, resp.symbolId) assetDelta (·.plus assetDelta) }

/-- The statements between the insert of the client and `COMMIT`. -/
def statements (f : Fates) (resp : OrderResponse) (msgSeqNum logOffset : Nat) :
    List (Fate × (SQLiteClientDatabase → SQLiteClientDatabase)) :=
  [(f.seq, fun db => (db.bumpOSeqNum resp.clientId).2)] ++
    (if checkExec resp.execType execTrade then
      [(f.cash, applyCash resp)] ++ (if resp.symbolId ≠ 0 then [(f.asset, applyAsset resp)] else [])
    else []) ++
    (if checkExec resp.execType execAlive ∨ checkExec resp.execType execAnn then
      [(f.order, fun db => db.updateOpenOrders resp)] else []) ++
    [(f.log, fun db => db.insertLogOffset resp.clientId msgSeqNum logOffset),
      (f.state, fun db => { db with logOffset := some logOffset })]

/-- `update_on_execution` up to the insert of the client. -/
def begin (c : Connection SQLiteClientDatabase) (f : Fates) (clientId : UInt32) :
    Connection SQLiteClientDatabase :=
  (c.start f.start).exec f.client fun db => db.ensureClient clientId

/-- `update_on_execution`. -/
def attempt (c : Connection SQLiteClientDatabase) (f : Fates) (resp : OrderResponse) (logOffset : Nat) :
    Connection SQLiteClientDatabase :=
  let c := begin c f resp.clientId
  let msgSeqNum := if f.seq = .done then (c.view.bumpOSeqNum resp.clientId).1 else 0
  (c.run (statements f resp msgSeqNum logOffset)).commit f.commit

/-! ## All the effects, or none -/

/-- What a record has an effect on. A client without messages is as good as none. -/
structure Effects where
  oSeqNum : UInt32 → Nat
  clientLogOffsets : Table (UInt32 × Nat) Nat
  positions : Table (UInt32 × UInt32) SqlValue
  openOrders : Table Nat OpenOrderRow
  logOffset : Option Nat

/-- The effects of the records so far. -/
def effects (db : SQLiteClientDatabase) : Effects :=
  ⟨db.oSeqNum, db.clientLogOffsets, db.positions, db.openOrders, db.logOffset⟩

/-- There is a transaction open for the statements that a record needs. -/
def inWork (c : Connection SQLiteClientDatabase) (f : Fates) : Bool :=
  ((c.start f.start).exec f.client id).work.isSome

/-- Every statement the record needs succeeds, and none of the others rolls a transaction back
that holds records, or this one. -/
def holds (c : Connection SQLiteClientDatabase) (f : Fates) (resp : OrderResponse) : Bool :=
  (f.needed resp).all (· = .done) &&
    !(c.work.isSome && (f.start = .undone || f.client = .undone)) &&
    !(inWork c f && f.commit = .undone)

/-- No statement the record needs has taken hold at the end. -/
def idle (c : Connection SQLiteClientDatabase) (f : Fates) (resp : OrderResponse) : Bool :=
  !Connection.lasting (inWork c f) (f.needed resp ++ [Connection.commitFate f.commit])

theorem effects_ensureClient (db : SQLiteClientDatabase) (clientId : UInt32) :
    (db.ensureClient clientId).effects = db.effects := by
  have hseq : (db.ensureClient clientId).oSeqNum = db.oSeqNum := by
    funext id
    exact db.oSeqNum_ensureClient clientId id
  unfold effects
  rw [hseq]
  rfl

/-- The statement that counts a message makes sure of the client itself. -/
theorem bumpOSeqNum_ensureClient (db : SQLiteClientDatabase) (clientId : UInt32) :
    (db.ensureClient clientId).bumpOSeqNum clientId = db.bumpOSeqNum clientId := by
  have hclients : (db.clients.insertNew clientId ⟨0, 0⟩).upsert clientId ⟨0, 1⟩
      (fun row => { row with oSeqNum := row.oSeqNum + 1 }) =
      db.clients.upsert clientId ⟨0, 1⟩ fun row => { row with oSeqNum := row.oSeqNum + 1 } := by
    unfold Table.insertNew Table.upsert
    cases h : db.clients.lookup clientId with
    | none =>
      dsimp only
      rw [AList.lookup_insert]
      dsimp only
      rw [AList.insert_insert]
    | some row =>
      dsimp only
      rw [h]
  unfold bumpOSeqNum ensureClient
  dsimp only
  rw [hclients]

theorem updateOnExecution_ensureClient (db : SQLiteClientDatabase) (resp : OrderResponse) (logOffset : Nat) :
    (db.ensureClient resp.clientId).updateOnExecution resp logOffset = db.updateOnExecution resp logOffset := by
  unfold updateOnExecution
  rw [bumpOSeqNum_ensureClient]

theorem positions_congr {a b : SQLiteClientDatabase} (h : a.positions = b.positions)
    (resp : OrderResponse) : (a.tradePart resp).positions = (b.tradePart resp).positions := by
  unfold tradePart applyTrade
  dsimp only
  rw [apply_ite positions, apply_ite positions, apply_ite positions, apply_ite positions, h]

theorem openOrders_congr {a b : SQLiteClientDatabase} (h : a.openOrders = b.openOrders)
    (resp : OrderResponse) : (a.updateOpenOrders resp).openOrders = (b.updateOpenOrders resp).openOrders := by
  unfold updateOpenOrders
  dsimp only
  split
  · rw [h]
  · rw [apply_ite openOrders, apply_ite openOrders, h]

/-- The effects of a record are those it has on the effects so far. -/
theorem effects_updateOnExecution {a b : SQLiteClientDatabase} (h : a.effects = b.effects)
    (resp : OrderResponse) (logOffset : Nat) :
    (a.updateOnExecution resp logOffset).effects = (b.updateOnExecution resp logOffset).effects := by
  have hseq : ∀ id, a.oSeqNum id = b.oSeqNum id := congrFun (congrArg Effects.oSeqNum h)
  have hlog : a.clientLogOffsets = b.clientLogOffsets := congrArg Effects.clientLogOffsets h
  have hpositions : a.positions = b.positions := congrArg Effects.positions h
  have horders : a.openOrders = b.openOrders := congrArg Effects.openOrders h
  have hseq' : (a.updateOnExecution resp logOffset).oSeqNum = (b.updateOnExecution resp logOffset).oSeqNum := by
    funext id
    rw [oSeqNum_updateOnExecution, oSeqNum_updateOnExecution, hseq, hseq]
  have hlog' : (a.updateOnExecution resp logOffset).clientLogOffsets =
      (b.updateOnExecution resp logOffset).clientLogOffsets := by
    rw [clientLogOffsets_updateOnExecution, clientLogOffsets_updateOnExecution, hlog, hseq]
  have hpositions' : (a.updateOnExecution resp logOffset).positions =
      (b.updateOnExecution resp logOffset).positions := by
    show ((SQLiteClientDatabase.tradePart _ resp).updateOpenOrders resp).positions =
      ((SQLiteClientDatabase.tradePart _ resp).updateOpenOrders resp).positions
    rw [(updateOpenOrders_frame _ resp).2.2, (updateOpenOrders_frame _ resp).2.2]
    apply positions_congr
    exact hpositions
  have horders' : (a.updateOnExecution resp logOffset).openOrders =
      (b.updateOnExecution resp logOffset).openOrders := by
    show ((SQLiteClientDatabase.tradePart _ resp).updateOpenOrders resp).openOrders =
      ((SQLiteClientDatabase.tradePart _ resp).updateOpenOrders resp).openOrders
    apply openOrders_congr
    rw [(tradePart_frame _ resp).2.2, (tradePart_frame _ resp).2.2]
    exact horders
  unfold effects
  rw [hseq', hlog', hpositions', horders']
  rfl

/-- The statements are those whose fates the outcome needs. -/
theorem map_statements (f : Fates) (resp : OrderResponse) (msgSeqNum logOffset : Nat) :
    (statements f resp msgSeqNum logOffset).map Prod.fst = f.needed resp := by
  unfold statements Fates.needed
  simp only [List.map_append, List.map_cons, List.map_nil, apply_ite (List.map _)]

/-- The statements together. -/
theorem foldl_statements (f : Fates) (resp : OrderResponse) (logOffset : Nat) (db : SQLiteClientDatabase) :
    (statements f resp (db.bumpOSeqNum resp.clientId).1 logOffset).foldl (fun x s => s.2 x) db =
      db.updateOnExecution resp logOffset := by
  -- a record that leaves the open orders alone
  have horders : ∀ x : SQLiteClientDatabase,
      ¬ (checkExec resp.execType execAlive ∨ checkExec resp.execType execAnn) →
        x.updateOpenOrders resp = x := by
    intro x h
    unfold updateOpenOrders
    dsimp only
    rw [if_neg (fun halive => h (Or.inl halive)), if_neg (fun hann => h (Or.inr hann))]
  unfold statements
  simp only [List.foldl_append, List.foldl_cons, List.foldl_nil]
  have htrade : ∀ x : SQLiteClientDatabase,
      (if checkExec resp.execType execTrade then
        [(f.cash, applyCash resp)] ++ (if resp.symbolId ≠ 0 then [(f.asset, applyAsset resp)] else [])
      else []).foldl (fun x s => s.2 x) x = x.tradePart resp := by
    intro x
    unfold tradePart applyTrade
    split
    · by_cases hsym : resp.symbolId ≠ 0
      · rw [if_pos hsym, if_pos hsym]
        rfl
      · rw [if_neg hsym, if_neg hsym]
        rfl
    · rfl
  have horder : ∀ x : SQLiteClientDatabase,
      (if checkExec resp.execType execAlive ∨ checkExec resp.execType execAnn then
        [(f.order, fun db : SQLiteClientDatabase => db.updateOpenOrders resp)] else []).foldl
          (fun x s => s.2 x) x = x.updateOpenOrders resp := by
    intro x
    split
    · rfl
    · rename_i h
      exact (horders x h).symm
  rw [htrade, horder]
  unfold updateOnExecution
  rw [bumpOSeqNum_ensureClient]
  rfl

/-! ### The statements before -/

section Begin

variable (c : Connection SQLiteClientDatabase) (f : Fates) (clientId : UInt32)

/-- A transaction is under way where the begin went through. -/
theorem isSome_begin : (begin c f clientId).work.isSome = inWork c f := by
  unfold begin inWork
  generalize c.start f.start = c'
  obtain ⟨disk, work⟩ := c'
  cases f.client <;> cases work <;> rfl

/-- The first two statements write nothing but, maybe, the client. -/
theorem begin_cases : ((begin c f clientId).disk = c.disk ∨
      (begin c f clientId).disk = c.disk.ensureClient clientId) ∧
    (((begin c f clientId).view = c.view ∨ (begin c f clientId).view = c.view.ensureClient clientId) ∨
      ((c.work.isSome && (f.start = .undone || f.client = .undone)) = true ∧
        ((begin c f clientId).view = c.disk ∨
          (begin c f clientId).view = c.disk.ensureClient clientId))) := by
  obtain ⟨disk, work⟩ := c
  unfold begin
  cases f.start <;> cases f.client <;> cases work <;>
    simp [Connection.start, Connection.exec, Connection.view]

theorem effects_begin_disk : (begin c f clientId).disk.effects = c.disk.effects := by
  rcases (begin_cases c f clientId).1 with h | h
  · rw [h]
  · rw [h, effects_ensureClient]

theorem effects_begin_view : (begin c f clientId).view.effects = c.view.effects ∨
    (begin c f clientId).view.effects = c.disk.effects := by
  rcases (begin_cases c f clientId).2 with (h | h) | ⟨-, h | h⟩
  · rw [h]
    exact Or.inl rfl
  · rw [h, effects_ensureClient]
    exact Or.inl rfl
  · rw [h]
    exact Or.inr rfl
  · rw [h, effects_ensureClient]
    exact Or.inr rfl

end Begin

/-! ### A record -/

section Attempt

variable {c : Connection SQLiteClientDatabase} {f : Fates} {resp : OrderResponse}

/-- The record leaves all of its effects. -/
theorem attempt_holds (h : holds c f resp = true) (logOffset : Nat) :
    (attempt c f resp logOffset).view = c.view.updateOnExecution resp logOffset ∧
      ((attempt c f resp logOffset).disk.effects = c.disk.effects ∨
        (attempt c f resp logOffset).disk = (attempt c f resp logOffset).view) := by
  unfold holds at h
  simp only [Bool.and_eq_true, List.all_eq_true, decide_eq_true_eq, Bool.not_eq_true'] at h
  obtain ⟨⟨hall, hkept⟩, hcommit⟩ := h
  have hseq : f.seq = .done := by
    apply hall
    unfold Fates.needed
    exact List.mem_append_left _ (List.mem_append_left _ (List.mem_append_left _ List.mem_cons_self))
  have hscript : ∀ n, ∀ s ∈ statements f resp n logOffset, s.1 = .done := by
    intro n s hs
    apply hall
    rw [← map_statements f resp n logOffset]
    exact List.mem_map_of_mem hs
  have hopen : (begin c f resp.clientId).work.isSome = true → f.commit ≠ .undone := by
    intro hsome heq
    rw [isSome_begin] at hsome
    rw [hsome, heq] at hcommit
    cases hcommit
  obtain ⟨hview, hdisk⟩ := Connection.commit_done (begin c f resp.clientId)
    (hscript ((begin c f resp.clientId).view.bumpOSeqNum resp.clientId).1) hopen
  rw [foldl_statements] at hview
  unfold attempt
  dsimp only
  rw [if_pos hseq]
  constructor
  · rw [hview]
    rcases (begin_cases c f resp.clientId).2 with (heq | heq) | ⟨hlost, -⟩
    · rw [heq]
    · rw [heq, updateOnExecution_ensureClient]
    · rw [hkept] at hlost
      cases hlost
  · rcases hdisk with hdisk | hdisk
    · left
      rw [hdisk]
      exact effects_begin_disk c f resp.clientId
    · exact Or.inr hdisk

/-- The record leaves none; what was not committed may be gone, or committed. -/
theorem attempt_idle (h : idle c f resp = true) (logOffset : Nat) :
    ((attempt c f resp logOffset).view.effects = c.view.effects ∨
        (attempt c f resp logOffset).view.effects = c.disk.effects) ∧
      ((attempt c f resp logOffset).disk.effects = c.disk.effects ∨
        (attempt c f resp logOffset).disk = (attempt c f resp logOffset).view) := by
  unfold idle at h
  rw [Bool.not_eq_true'] at h
  unfold attempt
  dsimp only
  generalize (if f.seq = .done then ((begin c f resp.clientId).view.bumpOSeqNum resp.clientId).1 else 0) = n
  rw [← isSome_begin c f resp.clientId, ← map_statements f resp n logOffset] at h
  obtain ⟨hview, hdisk⟩ := Connection.commit_idle (begin c f resp.clientId) h
  constructor
  · rcases hview with hview | hview
    · rw [hview]
      exact effects_begin_view c f resp.clientId
    · rw [hview, effects_begin_disk]
      exact Or.inr rfl
  · rcases hdisk with hdisk | hdisk
    · left
      rw [hdisk]
      exact effects_begin_disk c f resp.clientId
    · exact Or.inr hdisk

end Attempt

end SQLiteClientDatabase

end Exchange
