import Exchange.Engine.Runs
import Exchange.Gateway.Symbols

/-!
# `ClientManager` and the engines behind it

The order path of `src/ClientManager.cpp`: `process_client_request` puts an order
in the request ring of its symbol's core and the session in the queue of that
core, and `handle_execution_response` takes a session out of the queue for each
acknowledgement it reads.

A `System` is the gateway with the rings, the engines and the journal. A ring
hands requests on in order. Each engine's records are appended one by one,
those of different engines in any order (`outbox` are the ones on their way).
Every engine appends with a writer of its own, which knows of no other
(`MmapLog.writers_overwrite`): a record goes behind the engine's last one, over
whatever another engine has put there. Every request and every record carries
the session it came from; nothing in the system reads that.

Logons, logouts and the numbering of messages are a step that may change the
registry in any way. A request is one that passed the sequence check.
-/

namespace Exchange.Gateway

/-- `class ClientManager`, with `client_id()` of the sessions: `σ` are the
`CMClient`s. `pending_order_clients_` has as many queues as there are rings. -/
structure ClientManager (σ : Type) where
  getSymbolInfo : UInt32 → DbSymbolInfo → Option DbSymbolInfo
  requestRings : List Bool
  pendingOrderClients : Nat → List σ
  lastPoppedClient : Option σ
  clients : UInt32 → Option σ
  clientId : σ → UInt32

namespace ClientManager

variable {σ : Type}

/-- The ring an order on a symbol is put in. -/
def ringOf (m : ClientManager σ) (symbolId : UInt32) : Option Nat :=
  ringIndex m.requestRings (coreOffset m.getSymbolInfo symbolId)

/-- The queue the sender of an acknowledgement is looked for in. -/
def queueOf (m : ClientManager σ) (symbolId : UInt32) : Option Nat :=
  queueIndex m.requestRings.length (coreOffset m.getSymbolInfo symbolId)

/-- `pending_order_clients_[core_offset].push(client)`. -/
def push (m : ClientManager σ) (core : Nat) (client : σ) : ClientManager σ :=
  { m with pendingOrderClients :=
      Function.update m.pendingOrderClients core (m.pendingOrderClients core ++ [client]) }

/-- The session `handle_execution_response` takes from a queue for an
acknowledgement, and the manager after it. -/
def popPending (m : ClientManager σ) (resp : OrderResponse) : ClientManager σ × Option σ :=
  match m.queueOf resp.symbolId with
  | none => (m, none)
  | some core =>
    match m.pendingOrderClients core with
    | [] => (m, none)
    | client :: rest =>
      ({ m with
        pendingOrderClients := Function.update m.pendingOrderClients core rest
        lastPoppedClient := some client }, some client)

/-- `handle_execution_response`, with the session the response is sent to. -/
def handleExecutionResponse (m : ClientManager σ) (resp : OrderResponse) :
    ClientManager σ × Option σ :=
  let r :=
    if checkExec resp.execType execResp then m.popPending resp
    else (m, m.lastPoppedClient.filter fun client => m.clientId client = resp.clientId)
  (r.1, r.2.or (r.1.clients resp.clientId))

end ClientManager

/-- The journal with its writers and the gateway's reader. Every record is one
`OrderResponseT`, so all writers put their records, and change files, at the same
places, and a place is the number of a slot. `next` is the slot each engine's
writer comes to next, and `taken` counts the slots the reader has read. -/
structure Journal (σ : Type) where
  slots : List (σ × OrderResponse)
  next : Nat → Nat
  taken : Nat

namespace Journal

variable {σ : Type}

/-- An empty directory, when the writers look for its end. -/
def empty : Journal σ := ⟨[], fun _ => 0, 0⟩

/-- The records the reader has not come to. -/
def unread (j : Journal σ) : List (σ × OrderResponse) := j.slots.drop j.taken

/-- `MmapWriter::append` of the engine on a core. -/
def append (j : Journal σ) (core : Nat) (r : σ × OrderResponse) : Journal σ :=
  { j with
    -- a slot that another engine has used is written again
    slots := if j.next core < j.slots.length then j.slots.set (j.next core) r else j.slots ++ [r]
    next := Function.update j.next core (j.next core + 1) }

/-- `MmapReader::read_next`, if there is a record. -/
def advance (j : Journal σ) : Journal σ := { j with taken := j.taken + 1 }

/-- No other engine has appended since the one on a core did, or was started. -/
def AtEnd (j : Journal σ) (core : Nat) : Prop := j.next core = j.slots.length

instance (j : Journal σ) (core : Nat) : Decidable (j.AtEnd core) :=
  inferInstanceAs (Decidable (_ = _))

/-- A record written at the end of the journal is one more slot. -/
theorem slots_append {j : Journal σ} {core : Nat} (hend : j.AtEnd core) (r : σ × OrderResponse) :
    (j.append core r).slots = j.slots ++ [r] :=
  if_neg (fun hlt => absurd hend (Nat.ne_of_lt hlt))

/-- A record that goes to the end is the last one the reader will come to. -/
theorem unread_append {j : Journal σ} {core : Nat} (hend : j.AtEnd core)
    (htaken : j.taken ≤ j.slots.length) (r : σ × OrderResponse) :
    (j.append core r).unread = j.unread ++ [r] := by
  unfold unread
  rw [slots_append hend]
  exact List.drop_append_of_le_length htaken

/-- Reading one leaves the rest unread. -/
theorem unread_advance {j : Journal σ} {r : σ × OrderResponse} {rest : List (σ × OrderResponse)}
    (h : j.unread = r :: rest) : j.advance.unread = rest := by
  have hdrop : j.advance.unread = j.unread.drop 1 := by
    show j.slots.drop (j.taken + 1) = (j.slots.drop j.taken).drop 1
    rw [List.drop_drop]
  rw [hdrop, h]
  rfl

/-- What can be read is there. -/
theorem advance_le {j : Journal σ} {r : σ × OrderResponse} {rest : List (σ × OrderResponse)}
    (h : j.unread = r :: rest) : j.advance.taken ≤ j.advance.slots.length := by
  have hlen := congrArg List.length h
  unfold unread at hlen
  rw [List.length_drop, List.length_cons] at hlen
  show j.taken + 1 ≤ j.slots.length
  omega

/-- A writer takes no slot away. -/
theorem length_le_append (j : Journal σ) (core : Nat) (r : σ × OrderResponse) :
    j.slots.length ≤ (j.append core r).slots.length := by
  unfold append
  dsimp only
  split
  · rw [List.length_set]
  · rw [List.length_append]
    exact Nat.le_add_right _ _

end Journal

/-- The gateway, the rings, the engines and the journal. -/
structure System (σ : Type) where
  manager : ClientManager σ
  rings : Nat → List (σ × OrderRequest)
  engines : Nat → MatchingEngine
  outbox : Nat → List (σ × OrderResponse)
  journal : Journal σ

namespace System

variable {σ : Type}

/-- The records the gateway has not read. -/
def unread (sys : System σ) : List (σ × OrderResponse) := sys.journal.unread

/-- Nothing has been sent: an empty journal, empty rings and queues, and on each
core an engine with freshly built books. -/
structure Initial (cfgs : Nat → List Config) (sys : System σ) : Prop where
  pending : ∀ core, sys.manager.pendingOrderClients core = []
  rings : ∀ core, sys.rings core = []
  outbox : ∀ core, sys.outbox core = []
  journal : sys.journal = .empty
  engines : ∀ core, ∃ gen, sys.engines core = .create (cfgs core) gen

/-- One step of the system; `K` may restrict the requests, and `J` the engines that append. -/
inductive Step (K : System σ → OrderRequest → Prop) (J : System σ → Nat → Prop) :
    System σ → System σ → Prop
  /-- `process_client_request`: the order goes to a ring that has room for it. -/
  | request (sys : System σ) (client : σ) (req : OrderRequest) {core : Nat} (hK : K sys req)
      (hring : sys.manager.ringOf req.symbolId = some core) :
      Step K J sys { sys with
        manager := sys.manager.push core client
        rings := Function.update sys.rings core (sys.rings core ++ [(client, req)]) }
  /-- `process_client_request`: no ring for the core, or no room in it. -/
  | dropped (sys : System σ) : Step K J sys sys
  /-- `MatchingEngine::poll_server` of the engine on a core. -/
  | poll (sys : System σ) {core : Nat} {client : σ} {req : OrderRequest}
      {rest : List (σ × OrderRequest)} {e : MatchingEngine} {new : List Emission}
      (hring : sys.rings core = (client, req) :: rest)
      (hrun : (sys.engines core).pollServer req = some (e, new)) :
      Step K J sys { sys with
        rings := Function.update sys.rings core rest
        engines := Function.update sys.engines core e
        outbox := Function.update sys.outbox core
          (sys.outbox core ++ new.map fun x => (client, x.resp)) }
  /-- An engine appends its next record to the journal. -/
  | journal (sys : System σ) {core : Nat} {r : σ × OrderResponse} {rest : List (σ × OrderResponse)}
      (hJ : J sys core) (hout : sys.outbox core = r :: rest) :
      Step K J sys { sys with
        outbox := Function.update sys.outbox core rest
        journal := sys.journal.append core r }
  /-- `ClientManager::poll_server`. -/
  | respond (sys : System σ) {sender : σ} {resp : OrderResponse} {rest : List (σ × OrderResponse)}
      (hread : sys.unread = (sender, resp) :: rest) :
      Step K J sys { sys with
        manager := (sys.manager.handleExecutionResponse resp).1
        journal := sys.journal.advance }
  /-- Logons, logouts and closed connections. -/
  | registry (sys : System σ) (last : Option σ) (clients : UInt32 → Option σ) (clientId : σ → UInt32) :
      Step K J sys { sys with
        manager := { sys.manager with
          lastPoppedClient := last
          clients := clients
          clientId := clientId } }

/-- The systems that can be reached when every request meets `K` and every append `J`. -/
inductive Run (K : System σ → OrderRequest → Prop) (J : System σ → Nat → Prop)
    (cfgs : Nat → List Config) : System σ → Prop
  | initial {sys : System σ} (h : Initial cfgs sys) : Run K J cfgs sys
  | step {sys sys' : System σ} (h : Run K J cfgs sys) (hstep : Step K J sys sys') : Run K J cfgs sys'

/-- The next record the gateway reads, if it acknowledges a request, is matched
with the session that sent that request. -/
def Aligned (sys : System σ) : Prop :=
  ∀ sender resp rest, sys.unread = (sender, resp) :: rest →
    checkExec resp.execType execResp = true → (sys.manager.popPending resp).2 = some sender

end System

end Exchange.Gateway
