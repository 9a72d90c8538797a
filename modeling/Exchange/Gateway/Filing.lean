import Exchange.Database.Responses
import Exchange.Database.SQLite
import Exchange.Gateway.Sessions

/-!
# Where responses are filed

The polling thread files each record under the next number of its client, and a client that
has missed something gets what is filed under the numbers it has not seen. `ClientManager`
sets that same number to the outbound number of a session when the session ends. The two
have little to do with each other: a session counts what was sent on it, the database what
was read from the journal, and each reads at its own pace. Set back, the number leads to
places that are taken. There one database drops the new entry, and the other the old.

`Stores` has both databases under the same calls.
-/

namespace Exchange

open Lib

/-- The calls that `ClientManager` and the polling thread make. -/
inductive Call
  | getClientISeqNum (clientId : UInt32)
  | setClientISeqNum (clientId : UInt32) (seqNum : Nat)
  | getClientOSeqNum (clientId : UInt32)
  | setClientOSeqNum (clientId : UInt32) (seqNum : Nat)
  | incrementAndGetClientOSeqNum (clientId : UInt32)
  | updateOnExecution (resp : OrderResponse) (logOffset : Nat)
  deriving DecidableEq, Repr

def SQLiteClientDatabase.call (db : SQLiteClientDatabase) : Call → SQLiteClientDatabase
  | .getClientISeqNum clientId => (db.getClientISeqNum clientId).2
  | .setClientISeqNum clientId seqNum => db.setClientISeqNum clientId seqNum
  | .getClientOSeqNum clientId => (db.getClientOSeqNum clientId).2
  | .setClientOSeqNum clientId seqNum => db.setClientOSeqNum clientId seqNum
  | .incrementAndGetClientOSeqNum clientId => (db.incrementAndGetClientOSeqNum clientId).2
  | .updateOnExecution resp logOffset => db.updateOnExecution resp logOffset

namespace InMemoryClientDatabase

/-- `setClientOSeqNum`. -/
def setClientOSeqNum (db : InMemoryClientDatabase) (clientId : UInt32) (seqNum : Nat) :
    InMemoryClientDatabase := { db with oSeqNums := db.oSeqNums.insert clientId seqNum }

/-- `incrementAndGetClientOSeqNum`. -/
def incrementAndGetClientOSeqNum (db : InMemoryClientDatabase) (clientId : UInt32) :
    Nat × InMemoryClientDatabase :=
  let seqNum := db.getClientOSeqNum clientId + 1
  (seqNum, db.setClientOSeqNum clientId seqNum)

/-- The numbers of requests are not in the model, and an entry of 0 is as good as none. -/
def call (db : InMemoryClientDatabase) : Call → InMemoryClientDatabase
  | .getClientISeqNum _ => db
  | .setClientISeqNum _ _ => db
  | .getClientOSeqNum _ => db
  | .setClientOSeqNum clientId seqNum => db.setClientOSeqNum clientId seqNum
  | .incrementAndGetClientOSeqNum clientId => (db.incrementAndGetClientOSeqNum clientId).2
  | .updateOnExecution resp logOffset => db.updateOnExecution resp logOffset

/-- In memory one client's number is set and no other. -/
theorem getClientOSeqNum_setClientOSeqNum (db : InMemoryClientDatabase) (clientId id : UInt32) (n : Nat) :
    (db.setClientOSeqNum clientId n).getClientOSeqNum id =
      if id = clientId then n else db.getClientOSeqNum id := by
  unfold getClientOSeqNum setClientOSeqNum
  dsimp only
  by_cases hid : id = clientId
  · rw [if_pos hid, hid, AList.lookup_insert]
    rfl
  · rw [if_neg hid, AList.lookup_insert_ne hid]

end InMemoryClientDatabase

/-- A record that `update_on_execution` has processed, with the number it got. -/
structure Filing where
  clientId : UInt32
  seqNum : Nat
  logOffset : Nat
  deriving DecidableEq, Repr

/-- Both databases, and what they have processed. -/
structure Stores where
  sqlite : SQLiteClientDatabase
  memory : InMemoryClientDatabase
  filed : List Filing

namespace Stores

def empty : Stores := ⟨.empty, .empty, []⟩

def call (st : Stores) (c : Call) : Stores where
  sqlite := st.sqlite.call c
  memory := st.memory.call c
  filed := st.filed ++
    match c with
    | .updateOnExecution resp logOffset =>
      [⟨resp.clientId, st.sqlite.oSeqNum resp.clientId + 1, logOffset⟩]
    | _ => []

def callAll (st : Stores) (calls : List Call) : Stores := calls.foldl call st

/-- Every record that was processed has its own entry, in either database. -/
structure Kept (st : Stores) : Prop where
  own : (st.filed.map fun f => (f.clientId, f.seqNum)).Nodup
  sqlite : ∀ f ∈ st.filed,
    st.sqlite.clientLogOffsets.lookup (f.clientId, f.seqNum) = some f.logOffset
  memory : ∀ f ∈ st.filed, st.memory.logOffset f.clientId f.seqNum = some f.logOffset

/-- The number of a client is not set below one that was given to a record. -/
def Forward (st : Stores) : Call → Prop
  | .setClientOSeqNum clientId seqNum => ∀ f ∈ st.filed, f.clientId = clientId → f.seqNum ≤ seqNum
  | _ => True

/-- The two databases count alike, and what is filed has its entry and no number that is still
to come. -/
structure Filed (st : Stores) : Prop where
  count : ∀ id, st.memory.getClientOSeqNum id = st.sqlite.oSeqNum id
  below : ∀ f ∈ st.filed, f.seqNum ≤ st.sqlite.oSeqNum f.clientId
  entries : ∀ id n off, st.sqlite.clientLogOffsets.lookup (id, n) = some off →
    ∃ f ∈ st.filed, f.clientId = id ∧ f.seqNum = n
  kept : Kept st

/-- Whatever is called, the two databases go on counting alike. -/
theorem count_call {st : Stores} (h : ∀ id, st.memory.getClientOSeqNum id = st.sqlite.oSeqNum id)
    (c : Call) (id : UInt32) : (st.call c).memory.getClientOSeqNum id = (st.call c).sqlite.oSeqNum id := by
  cases c with
  | getClientISeqNum clientId =>
    exact (h id).trans (st.sqlite.oSeqNum_getClientISeqNum clientId id).symm
  | setClientISeqNum clientId n =>
    exact (h id).trans (st.sqlite.oSeqNum_setClientISeqNum clientId id n).symm
  | getClientOSeqNum clientId =>
    exact (h id).trans (st.sqlite.oSeqNum_getClientOSeqNum clientId id).symm
  | setClientOSeqNum clientId n =>
    show (st.memory.setClientOSeqNum clientId n).getClientOSeqNum id =
      (st.sqlite.setClientOSeqNum clientId n).oSeqNum id
    rw [InMemoryClientDatabase.getClientOSeqNum_setClientOSeqNum,
      SQLiteClientDatabase.oSeqNum_setClientOSeqNum, h]
  | incrementAndGetClientOSeqNum clientId =>
    show (st.memory.setClientOSeqNum clientId _).getClientOSeqNum id =
      (st.sqlite.bumpOSeqNum clientId).2.oSeqNum id
    rw [InMemoryClientDatabase.getClientOSeqNum_setClientOSeqNum,
      SQLiteClientDatabase.oSeqNum_bumpOSeqNum, h, h]
  | updateOnExecution resp logOffset =>
    show (st.memory.updateOnExecution resp logOffset).getClientOSeqNum id =
      (st.sqlite.updateOnExecution resp logOffset).oSeqNum id
    rw [InMemoryClientDatabase.getClientOSeqNum_updateOnExecution,
      SQLiteClientDatabase.oSeqNum_updateOnExecution]
    split
    · rename_i hid
      rw [hid, h]
    · exact h id

/-- Only `update_on_execution` writes entries. -/
theorem call_entries (st : Stores) {c : Call}
    (hc : ∀ resp logOffset, c ≠ .updateOnExecution resp logOffset) :
    (st.call c).sqlite.clientLogOffsets = st.sqlite.clientLogOffsets ∧
      (st.call c).memory.logOffsets = st.memory.logOffsets ∧ (st.call c).filed = st.filed := by
  cases c with
  | getClientISeqNum clientId =>
    refine ⟨?_, rfl, List.append_nil _⟩
    show (st.sqlite.getClientISeqNum clientId).2.clientLogOffsets = _
    unfold SQLiteClientDatabase.getClientISeqNum
    split <;> rfl
  | setClientISeqNum clientId n => exact ⟨rfl, rfl, List.append_nil _⟩
  | getClientOSeqNum clientId =>
    refine ⟨?_, rfl, List.append_nil _⟩
    show (st.sqlite.getClientOSeqNum clientId).2.clientLogOffsets = _
    unfold SQLiteClientDatabase.getClientOSeqNum
    split <;> rfl
  | setClientOSeqNum clientId n => exact ⟨rfl, rfl, List.append_nil _⟩
  | incrementAndGetClientOSeqNum clientId => exact ⟨rfl, rfl, List.append_nil _⟩
  | updateOnExecution resp logOffset => exact absurd rfl (hc resp logOffset)

/-- By induction on the calls, both stores count alike. -/
theorem count_callAll {st : Stores} (h : ∀ id, st.memory.getClientOSeqNum id = st.sqlite.oSeqNum id)
    (calls : List Call) (id : UInt32) :
    (st.callAll calls).memory.getClientOSeqNum id = (st.callAll calls).sqlite.oSeqNum id := by
  induction calls generalizing st with
  | nil => exact h id
  | cons c calls ih => exact ih (count_call h c)

/-- Calls that file no record leave the entries. -/
theorem callAll_entries (st : Stores) {calls : List Call}
    (hcalls : ∀ c ∈ calls, ∀ resp logOffset, c ≠ .updateOnExecution resp logOffset) :
    (st.callAll calls).sqlite.clientLogOffsets = st.sqlite.clientLogOffsets ∧
      (st.callAll calls).memory.logOffsets = st.memory.logOffsets ∧
      (st.callAll calls).filed = st.filed := by
  induction calls generalizing st with
  | nil => exact ⟨rfl, rfl, rfl⟩
  | cons c calls ih =>
    obtain ⟨hsqlite, hmemory, hfiled⟩ := ih (st.call c) fun c' hc' => hcalls c' (List.mem_cons_of_mem _ hc')
    obtain ⟨hsqlite', hmemory', hfiled'⟩ := st.call_entries (hcalls c List.mem_cons_self)
    exact ⟨hsqlite.trans hsqlite', hmemory.trans hmemory', hfiled.trans hfiled'⟩

namespace Filed

variable {st : Stores}

/-- A call that files nothing, and sets no number too low. -/
theorem of_frame (h : Filed st) {c : Call} (hc : ∀ resp logOffset, c ≠ .updateOnExecution resp logOffset)
    (hbelow : ∀ f ∈ st.filed, f.seqNum ≤ (st.call c).sqlite.oSeqNum f.clientId) : Filed (st.call c) := by
  obtain ⟨hsqlite, hmemory, hfiled⟩ := st.call_entries hc
  refine ⟨count_call h.count c, ?_, ?_, ?_, ?_, ?_⟩
  · rw [hfiled]
    exact hbelow
  · rw [hfiled, hsqlite]
    exact h.entries
  · rw [hfiled]
    exact h.kept.own
  · rw [hfiled, hsqlite]
    exact h.kept.sqlite
  · unfold InMemoryClientDatabase.logOffset
    rw [hfiled, hmemory]
    exact h.kept.memory

/-- A record gets a number that no record of its client has. -/
theorem updateOnExecution (h : Filed st) (resp : OrderResponse) (logOffset : Nat) :
    Filed (st.call (.updateOnExecution resp logOffset)) := by
  have hnumber := h.count resp.clientId
  -- nothing is filed under the new number
  have hfresh : ∀ f ∈ st.filed, (f.clientId, f.seqNum) ≠
      (resp.clientId, st.sqlite.oSeqNum resp.clientId + 1) := by
    intro f hf heq
    obtain ⟨hid, hseq⟩ := Prod.mk.injEq .. ▸ heq
    have hle := h.below f hf
    rw [hid] at hle
    omega
  have hnone : st.sqlite.clientLogOffsets.lookup
      (resp.clientId, st.sqlite.oSeqNum resp.clientId + 1) = none := by
    cases hlook : st.sqlite.clientLogOffsets.lookup
        (resp.clientId, st.sqlite.oSeqNum resp.clientId + 1) with
    | none => rfl
    | some off =>
      obtain ⟨f, hf, hid, hseq⟩ := h.entries _ _ off hlook
      exact absurd (Prod.ext hid hseq) (hfresh f hf)
  have hsqlite : (st.call (.updateOnExecution resp logOffset)).sqlite.clientLogOffsets =
      st.sqlite.clientLogOffsets.insertNew (resp.clientId, st.sqlite.oSeqNum resp.clientId + 1)
        logOffset := SQLiteClientDatabase.clientLogOffsets_updateOnExecution _ _ _
  have hlookup : ∀ k, (st.call (.updateOnExecution resp logOffset)).sqlite.clientLogOffsets.lookup k =
      if k = (resp.clientId, st.sqlite.oSeqNum resp.clientId + 1) then some logOffset
      else st.sqlite.clientLogOffsets.lookup k := by
    intro k
    rw [hsqlite, Table.lookup_insertNew, hnone]
    rfl
  refine ⟨count_call h.count _, fun f hf => ?_, fun id n off hoff => ?_, ?_, fun f hf => ?_, fun f hf => ?_⟩
  · show f.seqNum ≤ (st.sqlite.updateOnExecution resp logOffset).oSeqNum f.clientId
    rw [SQLiteClientDatabase.oSeqNum_updateOnExecution]
    rcases List.mem_append.mp hf with hf | hf
    · have hle := h.below f hf
      split
      · rename_i hid
        rw [hid] at hle
        omega
      · exact hle
    · rw [List.mem_singleton.mp hf, if_pos rfl]
  · rw [hlookup] at hoff
    split at hoff
    · rename_i hkey
      obtain ⟨hid, hseq⟩ := Prod.mk.injEq .. ▸ hkey
      exact ⟨_, List.mem_append_right _ List.mem_cons_self, hid.symm, hseq.symm⟩
    · obtain ⟨f, hf, hkey⟩ := h.entries id n off hoff
      exact ⟨f, List.mem_append_left _ hf, hkey⟩
  · show ((st.filed ++ [_]).map _).Nodup
    rw [List.map_append, List.nodup_append]
    refine ⟨h.kept.own, List.nodup_singleton _, fun k hk k' hk' heq => ?_⟩
    obtain ⟨f, hf, rfl⟩ := List.mem_map.mp hk
    rw [List.map_singleton, List.mem_singleton] at hk'
    exact hfresh f hf (heq.trans hk')
  · rw [hlookup]
    rcases List.mem_append.mp hf with hf | hf
    · rw [if_neg (hfresh f hf)]
      exact h.kept.sqlite f hf
    · rw [List.mem_singleton.mp hf, if_pos rfl]
  · show (st.memory.updateOnExecution resp logOffset).logOffset f.clientId f.seqNum = some f.logOffset
    rcases List.mem_append.mp hf with hf | hf
    · rw [InMemoryClientDatabase.logOffset_updateOnExecution_ne]
      · exact h.kept.memory f hf
      · intro hid hseq
        rw [hnumber] at hseq
        exact hfresh f hf (Prod.ext hid hseq)
    · rw [List.mem_singleton.mp hf]
      show (st.memory.updateOnExecution resp logOffset).logOffset resp.clientId
        (st.sqlite.oSeqNum resp.clientId + 1) = some logOffset
      rw [← hnumber]
      exact InMemoryClientDatabase.logOffset_updateOnExecution _ _ _

/-- Setting a number that is not behind the entries -/
theorem setClientOSeqNum (h : Filed st) {clientId : UInt32} {n : Nat}
    (hn : ∀ f ∈ st.filed, f.clientId = clientId → f.seqNum ≤ n) :
    Filed (st.call (.setClientOSeqNum clientId n)) := by
  refine h.of_frame (fun _ _ heq => by cases heq) (fun f hf => ?_)
  show f.seqNum ≤ (st.sqlite.setClientOSeqNum clientId n).oSeqNum f.clientId
  rw [SQLiteClientDatabase.oSeqNum_setClientOSeqNum]
  split
  · rename_i hid
    exact hn f hf hid
  · exact h.below f hf

/-- and counting up keep every entry at or below its client's number. -/
theorem incrementAndGetClientOSeqNum (h : Filed st) (clientId : UInt32) :
    Filed (st.call (.incrementAndGetClientOSeqNum clientId)) := by
  refine h.of_frame (fun _ _ heq => by cases heq) (fun f hf => ?_)
  show f.seqNum ≤ (st.sqlite.bumpOSeqNum clientId).2.oSeqNum f.clientId
  rw [SQLiteClientDatabase.oSeqNum_bumpOSeqNum]
  have hle := h.below f hf
  split
  · rename_i hid
    rw [hid] at hle
    omega
  · exact hle

/-- A call that only makes sure of a client, or sets the other number. -/
theorem of_same (h : Filed st) {c : Call} (hc : ∀ resp logOffset, c ≠ .updateOnExecution resp logOffset)
    (hnumber : ∀ id, (st.sqlite.call c).oSeqNum id = st.sqlite.oSeqNum id) : Filed (st.call c) := by
  refine h.of_frame hc (fun f hf => ?_)
  show f.seqNum ≤ (st.sqlite.call c).oSeqNum f.clientId
  rw [hnumber]
  exact h.below f hf

theorem call (h : Filed st) {c : Call} (hc : st.Forward c) : Filed (st.call c) := by
  cases c with
  | getClientISeqNum clientId =>
    exact h.of_same (fun _ _ heq => by cases heq) (st.sqlite.oSeqNum_getClientISeqNum clientId)
  | setClientISeqNum clientId n =>
    exact h.of_same (fun _ _ heq => by cases heq) fun id => st.sqlite.oSeqNum_setClientISeqNum clientId id n
  | getClientOSeqNum clientId =>
    exact h.of_same (fun _ _ heq => by cases heq) (st.sqlite.oSeqNum_getClientOSeqNum clientId)
  | setClientOSeqNum clientId n => exact h.setClientOSeqNum hc
  | incrementAndGetClientOSeqNum clientId => exact h.incrementAndGetClientOSeqNum clientId
  | updateOnExecution resp logOffset => exact h.updateOnExecution resp logOffset

theorem empty : Filed .empty :=
  ⟨fun _ => rfl, fun _ h => absurd h List.not_mem_nil, fun _ _ _ h => (nomatch h),
    List.Pairwise.nil, fun _ h => absurd h List.not_mem_nil, fun _ h => absurd h List.not_mem_nil⟩

end Filed

end Stores

/-! ## The calls of a process -/

namespace Gateway.Service

variable {σ : Type} [DecidableEq σ] {g : Service σ} {st : Stores}

/-- The calls of `handle_client_logout`. -/
def logoutCalls (g : Service σ) (client : σ) : List Call :=
  let clientId := g.manager.clientId client
  if clientId ≠ 0 ∧ g.manager.clients clientId = some client then
    [.setClientISeqNum clientId (g.inboundSeqNum client),
      .setClientOSeqNum clientId (g.outboundSeqNum client)]
  else []

/-- The calls an event makes that write. -/
def calls (g : Service σ) : Event σ → List Call
  | .message _ ⟨.admin .logOn clientId ackSeqNum, msgSeqNum⟩ _ =>
    match g.manager.clients clientId with
    | some _ => []
    | none =>
      [.getClientISeqNum clientId, .getClientOSeqNum clientId] ++
        if g.accepts clientId msgSeqNum ackSeqNum then [] else [.incrementAndGetClientOSeqNum clientId]
  | .message client ⟨.admin .logOut _ _, _⟩ _ => g.logoutCalls client
  | .close client => if g.closed client then [] else g.logoutCalls client
  | .updated resp logOffset => [.updateOnExecution resp logOffset]
  | _ => []

/-- The databases after a run. -/
def stores (g : Service σ) (st : Stores) : List (Event σ) → Stores
  | [] => st
  | e :: events => (g.step e).stores (st.callAll (g.calls e)) events

/-- The numbers of the process are those of its database, and its log says what was filed. -/
structure Mirrors (g : Service σ) (st : Stores) : Prop where
  numbers : ∀ id, g.oSeqNums id = st.sqlite.oSeqNum id
  filed : ∀ f ∈ st.filed, .filed f.clientId f.seqNum ∈ g.log

/-- A session that ends has an outbound number no lower than any that was given to a record of
its client. -/
def NotBehind (g : Service σ) (client : σ) : Prop :=
  g.manager.clientId client ≠ 0 → g.manager.clients (g.manager.clientId client) = some client →
    ∀ n, .filed (g.manager.clientId client) n ∈ g.log → n ≤ g.outboundSeqNum client

/-- No event ends a session that is behind. -/
def EndsInTime (g : Service σ) : Event σ → Prop
  | .message client ⟨.admin .logOut _ _, _⟩ _ => g.NotBehind client
  | .close client => g.closed client = false → g.NotBehind client
  | _ => True

/-- Only the polling thread files. -/
theorem calls_file_nothing (g : Service σ) {e : Event σ}
    (he : ∀ resp logOffset, e ≠ .updated resp logOffset) :
    ∀ c ∈ g.calls e, ∀ resp logOffset, c ≠ .updateOnExecution resp logOffset := by
  have hlogout : ∀ client resp logOffset,
      .updateOnExecution resp logOffset ∉ g.logoutCalls client := by
    intro client resp logOffset
    unfold logoutCalls
    dsimp only
    split <;> simp
  intro c hc resp logOffset heq
  subst heq
  unfold calls at hc
  split at hc
  · split at hc
    · exact absurd hc List.not_mem_nil
    · split at hc <;> simp at hc
  · exact hlogout _ _ _ hc
  · split at hc
    · exact absurd hc List.not_mem_nil
    · exact hlogout _ _ _ hc
  · exact he _ _ rfl
  · exact absurd hc List.not_mem_nil

theorem oSeqNums_takeOver (g : Service σ) (client : σ) (clientId : UInt32) :
    (g.takeOver client clientId).oSeqNums = g.oSeqNums := by
  unfold takeOver
  split
  · rfl
  · dsimp only
    split
    · rfl
    · rfl

theorem oSeqNums_handleClientLogout (g : Service σ) (client : σ) :
    (g.handleClientLogout client).oSeqNums =
      if g.manager.clientId client ≠ 0 ∧
          g.manager.clients (g.manager.clientId client) = some client then
        Function.update g.oSeqNums (g.manager.clientId client) (g.outboundSeqNum client)
      else g.oSeqNums := by
  have hforget : ∀ g' : Service σ, (g'.forget client).oSeqNums = g'.oSeqNums := by
    intro g'
    unfold forget
    split <;> rfl
  unfold handleClientLogout
  dsimp only
  by_cases hzero : g.manager.clientId client = 0
  · rw [if_pos hzero, if_neg fun h => h.1 hzero]
  · rw [if_neg hzero, hforget]
    by_cases hreg : g.manager.clients (g.manager.clientId client) = some client
    · rw [if_pos hreg, if_pos ⟨hzero, hreg⟩]
      rfl
    · rw [if_neg hreg, if_neg fun h => hreg h.2]

namespace Mirrors

/-- What a logout writes is what the process takes its numbers to be. -/
theorem logout (h : Mirrors g st) (client : σ) (id : UInt32) :
    (g.handleClientLogout client).oSeqNums id =
      (st.callAll (g.logoutCalls client)).sqlite.oSeqNum id := by
  rw [oSeqNums_handleClientLogout]
  unfold logoutCalls
  dsimp only
  split
  · show Function.update g.oSeqNums _ _ id =
      ((st.sqlite.setClientISeqNum _ _).setClientOSeqNum _ _).oSeqNum id
    rw [SQLiteClientDatabase.oSeqNum_setClientOSeqNum, SQLiteClientDatabase.oSeqNum_setClientISeqNum]
    split
    · rename_i hid
      rw [hid, Function.update_self]
    · rename_i hid
      rw [Function.update_of_ne hid]
      exact h.numbers id
  · exact h.numbers id

theorem logon (h : Mirrors g st) (client : σ) (clientId : UInt32) (n ack : Nat) (answers : Answers)
    (id : UInt32) :
    (g.step (.message client ⟨.admin .logOn clientId ack, n⟩ answers)).oSeqNums id =
      (st.callAll (g.calls (.message client ⟨.admin .logOn clientId ack, n⟩ answers))).sqlite.oSeqNum
        id := by
  -- reading the numbers changes none
  have hget : (((st.sqlite.getClientISeqNum clientId).2.getClientOSeqNum clientId).2).oSeqNum =
      st.sqlite.oSeqNum := by
    funext x
    rw [SQLiteClientDatabase.oSeqNum_getClientOSeqNum, SQLiteClientDatabase.oSeqNum_getClientISeqNum]
  show (g.handleClientLogon client clientId n ack answers.missed).oSeqNums id = _
  unfold handleClientLogon calls
  dsimp only
  by_cases hacc : g.accepts clientId n ack = true
  · rw [if_pos hacc, if_pos hacc]
    show (g.takeOver client clientId).oSeqNums id = _
    rw [oSeqNums_takeOver, h.numbers id]
    split
    · rfl
    · exact (congrFun hget id).symm
  · rw [if_neg hacc, if_neg hacc]
    unfold rejectLogon
    dsimp only
    cases g.manager.clients clientId with
    | some old => exact h.numbers id
    | none =>
      show Function.update g.oSeqNums clientId (g.oSeqNums clientId + 1) id =
        ((((st.sqlite.getClientISeqNum clientId).2.getClientOSeqNum clientId).2).bumpOSeqNum
          clientId).2.oSeqNum id
      rw [SQLiteClientDatabase.oSeqNum_bumpOSeqNum, hget, ← h.numbers clientId]
      split
      · rename_i hid
        rw [hid, Function.update_self]
      · rename_i hid
        rw [Function.update_of_ne hid]
        exact h.numbers id

/-- Requests that are neither logons nor logouts leave the numbers of the database alone. -/
theorem oSeqNums_request (g : Service σ) (client : σ) {data : ClientRequestData} {n : Nat}
    {answers : Answers} (hadmin : ∀ action id ack, data ≠ .admin action id ack) :
    (g.step (.message client ⟨data, n⟩ answers)).oSeqNums = g.oSeqNums := by
  have hsend : ∀ (g' : Service σ) (resps : List OrderResponse),
      (resps.foldl (fun g resp => g.sendNext client (.order resp)) g').oSeqNums = g'.oSeqNums := by
    intro g' resps
    induction resps generalizing g' with
    | nil => rfl
    | cons resp resps ih => exact (ih _).trans rfl
  show (g.processClientRequest client ⟨data, n⟩ answers).oSeqNums = _
  unfold processClientRequest
  cases data with
  | admin action id ack => exact absurd rfl (hadmin action id ack)
  | order req =>
    dsimp only
    split
    · rfl
    · split
      · rfl
      · unfold placeOrder
        split
        · rfl
        · split <;> rfl
  | position id symbolId =>
    dsimp only
    split_ifs <;> rfl
  | openOrders id =>
    dsimp only
    split
    · rfl
    · split
      · rfl
      · exact hsend _ _
  | other =>
    dsimp only
    split_ifs <;> rfl

theorem numbers_step (h : Mirrors g st) (e : Event σ) (id : UInt32) :
    (g.step e).oSeqNums id = (st.callAll (g.calls e)).sqlite.oSeqNum id := by
  cases e with
  | message client request answers =>
    obtain ⟨data, n⟩ := request
    by_cases hadmin : ∃ action clientId ack, data = .admin action clientId ack
    · obtain ⟨action, clientId, ack, rfl⟩ := hadmin
      cases action with
      | logOn => exact h.logon client clientId n ack answers id
      | logOut => exact h.logout client id
      | other code => exact h.numbers id
    · rw [oSeqNums_request g client fun a b c hd => hadmin ⟨a, b, c, hd⟩]
      cases data with
      | admin action clientId ack => exact absurd ⟨action, clientId, ack, rfl⟩ hadmin
      | _ => exact h.numbers id
  | close client =>
    show (g.onClose client).oSeqNums id = (st.callAll (if g.closed client = true then _ else _)).sqlite.oSeqNum id
    unfold onClose
    split
    · exact h.numbers id
    · rw [handleClientLogout_closed g client (Function.update g.closed client true)]
      exact h.logout client id
  | writeFailed client => exact h.numbers id
  | respond resp =>
    show (g.handleExecutionResponse resp).oSeqNums id = _
    unfold handleExecutionResponse
    dsimp only
    split
    · exact h.numbers id
    · exact h.numbers id
  | updated resp logOffset =>
    show Function.update g.oSeqNums resp.clientId (g.oSeqNums resp.clientId + 1) id =
      (st.sqlite.updateOnExecution resp logOffset).oSeqNum id
    rw [SQLiteClientDatabase.oSeqNum_updateOnExecution, ← h.numbers resp.clientId]
    split
    · rename_i hid
      rw [hid, Function.update_self]
    · rename_i hid
      rw [Function.update_of_ne hid]
      exact h.numbers id
  | restart => exact h.numbers id

/-- The log has every record that is filed. -/
theorem filed_step (h : Mirrors g st) (e : Event σ) :
    ∀ f ∈ (st.callAll (g.calls e)).filed, .filed f.clientId f.seqNum ∈ (g.step e).log := by
  intro f hf
  by_cases hupd : ∃ resp logOffset, e = .updated resp logOffset
  · obtain ⟨resp, logOffset, rfl⟩ := hupd
    rcases List.mem_append.mp hf with hf | hf
    · exact List.mem_append_left _ (h.filed f hf)
    · rw [List.mem_singleton.mp hf, ← h.numbers]
      exact List.mem_append_right _ List.mem_cons_self
  · have hnone := g.calls_file_nothing fun resp logOffset he => hupd ⟨resp, logOffset, he⟩
    rw [(st.callAll_entries hnone).2.2] at hf
    exact (g.log_step e).subset (h.filed f hf)

/-- One event: the service's numbers stay those of the stores. -/
theorem step (h : Mirrors g st) (e : Event σ) : Mirrors (g.step e) (st.callAll (g.calls e)) :=
  ⟨h.numbers_step e, h.filed_step e⟩

end Mirrors

/-- A session that is not behind sets no number too low. -/
theorem filed_logout (hf : st.Filed) (hm : Mirrors g st) {client : σ} (h : g.NotBehind client) :
    (st.callAll (g.logoutCalls client)).Filed := by
  unfold logoutCalls
  dsimp only
  split
  · rename_i hreg
    have hset := hf.call (c := .setClientISeqNum (g.manager.clientId client) (g.inboundSeqNum client))
      trivial
    refine hset.call (c := .setClientOSeqNum _ _) (fun f hin hid => ?_)
    have hin : f ∈ st.filed := by
      rcases List.mem_append.mp hin with hin | hin
      · exact hin
      · exact absurd hin List.not_mem_nil
    have hlog := hm.filed f hin
    rw [hid] at hlog
    exact h hreg.1 hreg.2 f.seqNum hlog
  · exact hf

/-- Where sessions end in time, every call of an event goes forward. -/
theorem filed_step (hf : st.Filed) (hm : Mirrors g st) {e : Event σ} (h : g.EndsInTime e) :
    (st.callAll (g.calls e)).Filed := by
  unfold calls
  split
  · rename_i clientId ack n answers
    split
    · exact hf
    · have hget := (hf.call (c := .getClientISeqNum clientId) trivial).call
        (c := .getClientOSeqNum clientId) trivial
      split
      · exact hget
      · exact hget.call (c := .incrementAndGetClientOSeqNum clientId) trivial
  · exact filed_logout hf hm h
  · split
    · exact hf
    · rename_i hopen
      exact filed_logout hf hm (h (by simpa using hopen))
  · exact hf.call trivial
  · exact hf

theorem filed_stores {events : List (Event σ)} (hf : st.Filed) (hm : Mirrors g st)
    (h : Along EndsInTime g events) : (g.stores st events).Filed := by
  induction events generalizing g st with
  | nil => exact hf
  | cons e events ih => exact ih (filed_step hf hm h.1) (hm.step e) h.2

/-- Every record that was processed has its own entry from then on, in a run in which every
session ends with an outbound number no lower than the numbers of its client's records. -/
theorem no_entry_lost (m : ClientManager σ) (events : List (Event σ))
    (h : Along EndsInTime (start m (fun _ => 0) fun _ => 0) events) :
    ((start m (fun _ => 0) fun _ => 0).stores .empty events).Kept :=
  (filed_stores Stores.Filed.empty ⟨fun _ => rfl, fun _ hf => absurd hf List.not_mem_nil⟩ h).kept

/-- A response to client 7. -/
def response7 : OrderResponse := ⟨.new, 1, 7, 0, 1, .buy, 100, 5, 5, .none⟩

/-- Client 7 logs on, one of its records is filed, it logs out, and another one is filed. -/
def timelyRun : List (Event Nat) :=
  [.message 0 ⟨.admin .logOn 7 0, 1⟩ .quiet, .updated response7 10,
    .message 0 ⟨.admin .logOut 7 0, 2⟩ .quiet, .updated response7 20]

theorem timelyRun_kept : Along EndsInTime (start oneRing (fun _ => 0) fun _ => 0) timelyRun ∧
    ((start oneRing (fun _ => 0) fun _ => 0).stores .empty timelyRun).Kept := by
  have halong : Along EndsInTime (start oneRing (fun _ => 0) fun _ => 0) timelyRun := by
    refine ⟨trivial, trivial, fun _ _ n hn => ?_, trivial, trivial⟩
    have hlog : ((start oneRing (fun _ => 0) fun _ => 0).run (timelyRun.take 2)).log =
        [.loggedOn 0 7, .sent 0 ⟨.admin .ready 7 1 .none, 1⟩, .filed 7 1] := by decide
    change .filed 7 n ∈ ((start oneRing (fun _ => 0) fun _ => 0).run (timelyRun.take 2)).log at hn
    rw [hlog] at hn
    simp at hn
    rw [hn]
    decide
  exact ⟨halong, no_entry_lost oneRing timelyRun halong⟩

/-- Two records of client 7 are filed before its session, which has sent nothing but Ready, sets
the number back to 1: the next one is filed under 2 again, and SQLite drops it. -/
theorem early_logout_drops_entry :
    ¬ ((start oneRing (fun _ => 0) fun _ => 0).stores .empty
      [.message 0 ⟨.admin .logOn 7 0, 1⟩ .quiet, .updated response7 10, .updated response7 20,
        .message 0 ⟨.admin .logOut 7 0, 2⟩ .quiet, .updated response7 30]).Kept := by
  intro h
  have hlost := h.sqlite ⟨7, 2, 30⟩ (by decide)
  revert hlost
  decide

end Gateway.Service

end Exchange
