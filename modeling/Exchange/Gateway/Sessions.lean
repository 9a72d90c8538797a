import Exchange.Gateway.Manager

/-!
# Sessions of `ClientManager`

Logons, logouts and the numbering of messages: `handle_client_logon`,
`handle_client_logout`, `process_client_request` and `handle_execution_response` of
`src/ClientManager.cpp`, on the `CMClient`s of `src/CMClient.cpp`. `σ` are the
connections; each has one `CMClient`, which lives as long as the connection.

The client database appears by its two numbers for each client. What else it answers
(`getResponsesSince`, `getPosition`, `getOpenOrders`), and whether a ring has room, comes
with the message that asks for it.

Between two messages a connection may be closed, records may be read from the journal,
the polling thread of the database may process one, and the whole process may be
restarted on the same database. A connection whose close handler has run can still have
a message under way: `WSSession::read_loop` does not look at `closed_`.

`log` is the history. Nothing in the code reads it.
-/

namespace Exchange.Gateway

/-- `enum AdminAction : byte`. -/
inductive AdminAction
  | logOn
  | logOut
  | other (code : Int)
  deriving DecidableEq, Repr

/-- `enum AdminResponseType : byte`. -/
inductive AdminResponseType
  | ready
  | reject
  deriving DecidableEq, Repr

/-- `union ClientRequestData`; `other` is what the switch has no case for. -/
inductive ClientRequestData
  | admin (action : AdminAction) (clientId : UInt32) (ackSeqNum : Nat)
  | order (req : OrderRequest)
  | position (clientId symbolId : UInt32)
  | openOrders (clientId : UInt32)
  | other
  deriving DecidableEq, Repr

/-- `ClientRequest`. -/
structure ClientRequest where
  data : ClientRequestData
  msgSeqNum : Nat
  deriving DecidableEq, Repr

/-- `union ClientResponseData`. -/
inductive ClientResponseData
  | admin (type : AdminResponseType) (clientId : UInt32) (expectedMsgSeqNum : Nat)
      (rejectCode : RejectCode)
  | order (resp : OrderResponse)
  | position (clientId symbolId : UInt32) (position : BitVec 64)
  deriving DecidableEq, Repr

/-- `ClientResponse`. -/
structure ClientResponse where
  data : ClientResponseData
  msgSeqNum : Nat
  deriving DecidableEq, Repr

def ClientResponse.isReady (msg : ClientResponse) : Bool :=
  match msg.data with
  | .admin .ready _ _ _ => true
  | _ => false

/-- An order request that went into a ring: the connection it came from, the session that
was registered for its client, and the numbers it bears. -/
structure Placed (σ : Type) where
  client : σ
  registered : Option σ
  clientId : UInt32
  msgSeqNum : Nat
  req : OrderRequest
  deriving DecidableEq, Repr

/-- What happened. -/
inductive Entry (σ : Type)
  /-- A message was sent on a connection. -/
  | sent (client : σ) (msg : ClientResponse)
  /-- A logon was accepted. -/
  | loggedOn (client : σ) (clientId : UInt32)
  /-- A session was replaced by a later logon under this client id. -/
  | replaced (client : σ) (clientId : UInt32)
  /-- A session was taken out of the registry by its logout, or its close handler. -/
  | loggedOut (client : σ)
  /-- The close handler of a connection ran. -/
  | closed (client : σ)
  /-- An order request was put in a ring. -/
  | placed (order : Placed σ)
  /-- The database filed a record of a client, under this number. -/
  | filed (clientId : UInt32) (seqNum : Nat)
  /-- The process was started anew. -/
  | restarted
  deriving DecidableEq, Repr

/-- A message or a record, which say nothing about who is registered. -/
def Entry.quiet {σ : Type} : Entry σ → Bool
  | .sent _ _ => true
  | .filed _ _ => true
  | _ => false

/-- The client-manager process: the manager, its sessions, and the two numbers the database
has for each client. -/
structure Service (σ : Type) where
  manager : ClientManager σ
  inboundSeqNum : σ → Nat
  outboundSeqNum : σ → Nat
  ready : σ → Bool
  closed : σ → Bool
  iSeqNums : UInt32 → Nat
  oSeqNums : UInt32 → Nat
  log : List (Entry σ)

/-- What the database and the ring have to say to a message. -/
structure Answers where
  missed : List OrderResponse
  position : BitVec 64
  openOrders : List OrderResponse
  room : Bool
  deriving DecidableEq, Repr

/-- What can happen next. -/
inductive Event (σ : Type)
  | message (client : σ) (request : ClientRequest) (answers : Answers)
  | close (client : σ)
  | writeFailed (client : σ)
  | respond (resp : OrderResponse)
  | updated (resp : OrderResponse) (logOffset : Nat)
  | restart
  deriving DecidableEq, Repr

namespace ClientManager

variable {σ : Type}

theorem popPending_registry (m : ClientManager σ) (resp : OrderResponse) :
    (m.popPending resp).1.clients = m.clients ∧ (m.popPending resp).1.clientId = m.clientId := by
  unfold popPending
  split
  · exact ⟨rfl, rfl⟩
  · split
    · exact ⟨rfl, rfl⟩
    · exact ⟨rfl, rfl⟩

/-- Reading a record changes queues, and no registration. -/
theorem handleExecutionResponse_clients (m : ClientManager σ) (resp : OrderResponse) :
    (m.handleExecutionResponse resp).1.clients = m.clients := by
  unfold handleExecutionResponse
  dsimp only
  split
  · exact (m.popPending_registry resp).1
  · rfl

theorem handleExecutionResponse_clientId (m : ClientManager σ) (resp : OrderResponse) :
    (m.handleExecutionResponse resp).1.clientId = m.clientId := by
  unfold handleExecutionResponse
  dsimp only
  split
  · exact (m.popPending_registry resp).2
  · rfl

end ClientManager

namespace Service

variable {σ : Type}

def note (g : Service σ) (entries : List (Entry σ)) : Service σ := { g with log := g.log ++ entries }

/-- `CMClient::send` of a message that is built already. -/
def send (g : Service σ) (client : σ) (data : ClientResponseData) (msgSeqNum : Nat) : Service σ :=
  g.note [.sent client ⟨data, msgSeqNum⟩]

variable [DecidableEq σ]

/-- `increment_outbound_seq_num`. -/
def incrementOutboundSeqNum (g : Service σ) (client : σ) : Service σ :=
  { g with outboundSeqNum := Function.update g.outboundSeqNum client (g.outboundSeqNum client + 1) }

/-- `increment_inbound_seq_num`. -/
def incrementInboundSeqNum (g : Service σ) (client : σ) : Service σ :=
  { g with inboundSeqNum := Function.update g.inboundSeqNum client (g.inboundSeqNum client + 1) }

/-- A message that takes the session's next number. -/
def sendNext (g : Service σ) (client : σ) (data : ClientResponseData) : Service σ :=
  (g.incrementOutboundSeqNum client).send client data (g.outboundSeqNum client + 1)

/-- `expected_msg_seq_num` of a logon. -/
def expectedMsgSeqNum (g : Service σ) (clientId : UInt32) : Nat :=
  match g.manager.clients clientId with
  | some old => g.inboundSeqNum old + 1
  | none => g.iSeqNums clientId + 1

/-- `expected_ack_seq_num` of a logon. -/
def expectedAckSeqNum (g : Service σ) (clientId : UInt32) : Nat :=
  match g.manager.clients clientId with
  | some old => g.outboundSeqNum old
  | none => g.oSeqNums clientId

/-- The numbers of a logon are right. -/
def accepts (g : Service σ) (clientId : UInt32) (msgSeqNum ackSeqNum : Nat) : Bool :=
  decide (msgSeqNum = g.expectedMsgSeqNum clientId ∧ ackSeqNum ≤ g.expectedAckSeqNum clientId)

/-- The branch of `handle_client_logon` for wrong numbers. -/
def rejectLogon (g : Service σ) (client : σ) (clientId : UInt32) : Service σ :=
  let data := ClientResponseData.admin .reject clientId (g.expectedMsgSeqNum clientId)
    .invalidSequenceNumber
  match g.manager.clients clientId with
  | some old => (g.incrementOutboundSeqNum old).send client data (g.outboundSeqNum old + 1)
  | none =>
    { g with oSeqNums := Function.update g.oSeqNums clientId (g.oSeqNums clientId + 1) }.send client
      data (g.oSeqNums clientId + 1)

/-- `shared_msg_seq_num`. -/
def sharedMsgSeqNum (g : Service σ) (clientId : UInt32) : Nat := g.expectedAckSeqNum clientId + 1

/-- The session that is there is told, and its connection will be closed. -/
def takeOver (g : Service σ) (client : σ) (clientId : UInt32) : Service σ :=
  match g.manager.clients clientId with
  | none => g
  | some old =>
    let g' := g.incrementOutboundSeqNum old
    if old = client then g'
    else
      g'.note [.sent old ⟨.admin .reject clientId (g.expectedMsgSeqNum clientId) .loginAtOtherSession,
        g.sharedMsgSeqNum clientId⟩, .replaced old clientId]

/-- The new session is registered. -/
def register (g : Service σ) (client : σ) (clientId : UInt32) (msgSeqNum shared : Nat) : Service σ :=
  { g with
    manager := { g.manager with
      clientId := Function.update g.manager.clientId client clientId
      clients := Function.update g.manager.clients clientId (some client) }
    inboundSeqNum := Function.update g.inboundSeqNum client msgSeqNum
    outboundSeqNum := Function.update g.outboundSeqNum client shared
    log := g.log ++ [.loggedOn client clientId] }

/-- The missed responses, numbered from the acknowledged one on. -/
def resend (g : Service σ) (client : σ) (ackSeqNum : Nat) (missed : List OrderResponse) : Service σ :=
  g.note ((missed.zipIdx (ackSeqNum + 1)).map fun r => .sent client ⟨.order r.1, r.2⟩)

/-- `set_ready` and the answer to the logon. -/
def makeReady (g : Service σ) (client : σ) (clientId : UInt32) (expected shared : Nat) : Service σ :=
  { g with ready := Function.update g.ready client true }.send client
    (.admin .ready clientId expected .none) shared

/-- `handle_client_logon`. -/
def handleClientLogon (g : Service σ) (client : σ) (clientId : UInt32) (msgSeqNum ackSeqNum : Nat)
    (missed : List OrderResponse) : Service σ :=
  if g.accepts clientId msgSeqNum ackSeqNum then
    let shared := g.sharedMsgSeqNum clientId
    let expected := g.expectedMsgSeqNum clientId
    (((g.takeOver client clientId).register client clientId msgSeqNum shared).resend client ackSeqNum
      missed).makeReady client clientId expected shared
  else g.rejectLogon client clientId

/-- The session's numbers are saved, and it is taken out of the registry. -/
def unregister (g : Service σ) (client : σ) (clientId : UInt32) : Service σ :=
  { g with
    iSeqNums := Function.update g.iSeqNums clientId (g.inboundSeqNum client)
    oSeqNums := Function.update g.oSeqNums clientId (g.outboundSeqNum client)
    manager := { g.manager with clients := Function.update g.manager.clients clientId none }
    log := g.log ++ [.loggedOut client] }

/-- `last_popped_client_` is let go of. -/
def forget (g : Service σ) (client : σ) : Service σ :=
  if g.manager.lastPoppedClient = some client then
    { g with manager := { g.manager with lastPoppedClient := none } }
  else g

/-- `handle_client_logout`. -/
def handleClientLogout (g : Service σ) (client : σ) : Service σ :=
  let clientId := g.manager.clientId client
  if clientId = 0 then g
  else
    (if g.manager.clients clientId = some client then g.unregister client clientId else g).forget client

/-- An order request with the right number: it goes to its ring, if that has room. -/
def placeOrder (g : Service σ) (client : σ) (msgSeqNum : Nat) (req : OrderRequest) (room : Bool) :
    Service σ :=
  match g.manager.ringOf req.symbolId with
  | none => g
  | some core =>
    if room then
      let clientId := g.manager.clientId client
      { g with
        manager := g.manager.push core client
        log := g.log ++
          [.placed ⟨client, g.manager.clients clientId, clientId, msgSeqNum, req⟩] }
    else g

/-- `process_client_request`. -/
def processClientRequest (g : Service σ) (client : σ) (request : ClientRequest) (answers : Answers) :
    Service σ :=
  match request.data with
  | .admin .logOn clientId ackSeqNum =>
    g.handleClientLogon client clientId request.msgSeqNum ackSeqNum answers.missed
  | .admin .logOut _ _ => g.handleClientLogout client
  | .admin (.other _) _ _ => g
  | data =>
    if ¬ g.ready client then g
    else if request.msgSeqNum ≠ g.inboundSeqNum client + 1 then
      g.sendNext client (.admin .reject (g.manager.clientId client) (g.inboundSeqNum client + 1)
        .invalidSequenceNumber)
    else
      let g := g.incrementInboundSeqNum client
      match data with
      | .order req => g.placeOrder client request.msgSeqNum req answers.room
      | .position clientId symbolId =>
        g.sendNext client (.position clientId symbolId answers.position)
      | .openOrders _ => answers.openOrders.foldl (fun g resp => g.sendNext client (.order resp)) g
      | _ => g

/-- `handle_execution_response`. -/
def handleExecutionResponse (g : Service σ) (resp : OrderResponse) : Service σ :=
  let r := g.manager.handleExecutionResponse resp
  let g := { g with manager := r.1 }
  match r.2 with
  | none => g
  | some client => g.sendNext client (.order resp)

/-- `WSSession::on_close`. -/
def onClose (g : Service σ) (client : σ) : Service σ :=
  if g.closed client then g
  else
    ({ g with closed := Function.update g.closed client true }.handleClientLogout client).note
      [.closed client]

/-- `update_on_execution`, as far as numbers go. -/
def updateOnExecution (g : Service σ) (resp : OrderResponse) : Service σ :=
  let seqNum := g.oSeqNums resp.clientId + 1
  { g with oSeqNums := Function.update g.oSeqNums resp.clientId seqNum }.note
    [.filed resp.clientId seqNum]

/-- A new process on the same database. -/
def restart (g : Service σ) : Service σ where
  manager := { g.manager with
    pendingOrderClients := fun _ => []
    lastPoppedClient := none
    clients := fun _ => none
    clientId := fun _ => 0 }
  inboundSeqNum := fun _ => 0
  outboundSeqNum := fun _ => 0
  ready := fun _ => false
  closed := fun _ => false
  iSeqNums := g.iSeqNums
  oSeqNums := g.oSeqNums
  log := g.log ++ [.restarted]

/-- A process that was just started for the first time. -/
def start (m : ClientManager σ) (iSeqNums oSeqNums : UInt32 → Nat) : Service σ where
  manager := { m with
    pendingOrderClients := fun _ => []
    lastPoppedClient := none
    clients := fun _ => none
    clientId := fun _ => 0 }
  inboundSeqNum := fun _ => 0
  outboundSeqNum := fun _ => 0
  ready := fun _ => false
  closed := fun _ => false
  iSeqNums := iSeqNums
  oSeqNums := oSeqNums
  log := []

def step (g : Service σ) : Event σ → Service σ
  | .message client request answers => g.processClientRequest client request answers
  | .close client => g.onClose client
  -- `write_loop` sets the flag and leaves the handler out
  | .writeFailed client => { g with closed := Function.update g.closed client true }
  | .respond resp => g.handleExecutionResponse resp
  | .updated resp _ => g.updateOnExecution resp
  | .restart => g.restart

def run (g : Service σ) (events : List (Event σ)) : Service σ := events.foldl step g

/-- Every event of a run meets `P` in the state it happens in. -/
def Along (P : Service σ → Event σ → Prop) : Service σ → List (Event σ) → Prop
  | _, [] => True
  | g, e :: events => P g e ∧ Along P (g.step e) events

/-- What every event that meets `P` preserves holds after a run. -/
theorem Along.preserves {P : Service σ → Event σ → Prop} {I : Service σ → Prop}
    (hstep : ∀ g e, I g → P g e → I (g.step e)) {g : Service σ} {events : List (Event σ)}
    (halong : Along P g events) (h : I g) : I (g.run events) := by
  induction events generalizing g with
  | nil => exact h
  | cons e events ih => exact ih halong.2 (hstep g e h halong.1)

/-- Along two stretches of events. -/
theorem Along.append {P : Service σ → Event σ → Prop} {g : Service σ} {events events' : List (Event σ)} :
    Along P g (events ++ events') ↔ Along P g events ∧ Along P (g.run events) events' := by
  induction events generalizing g with
  | nil => exact (and_iff_right trivial).symm
  | cons e events ih =>
    show _ ∧ Along P (g.step e) (events ++ events') ↔ (_ ∧ _) ∧ _
    rw [ih, and_assoc]
    rfl

end Service

/-- A manager with one ring, and the core of every symbol the first. -/
def oneRing : ClientManager Nat where
  getSymbolInfo := fun _ _ => none
  requestRings := [true]
  pendingOrderClients := fun _ => []
  lastPoppedClient := none
  clients := fun _ => none
  clientId := fun _ => 0

/-- A database that has nothing to say, and a ring with room. -/
def Answers.quiet : Answers := ⟨[], 0, [], true⟩

/-! ## What leaves the registry alone -/

namespace Service

variable {σ : Type} {g g' g'' : Service σ} {client : σ}

/-- Nothing has changed but outbound numbers, queues and flags. -/
structure Quiet (g g' : Service σ) : Prop where
  clients : g'.manager.clients = g.manager.clients
  clientId : g'.manager.clientId = g.manager.clientId
  inbound : g'.inboundSeqNum = g.inboundSeqNum
  saved : g'.iSeqNums = g.iSeqNums
  log : ∃ l, g'.log = g.log ++ l ∧ ∀ x ∈ l, x.quiet = true

namespace Quiet

/-- A change that does not show in the log. -/
theorem silent (hclients : g'.manager.clients = g.manager.clients)
    (hid : g'.manager.clientId = g.manager.clientId) (hin : g'.inboundSeqNum = g.inboundSeqNum)
    (hsaved : g'.iSeqNums = g.iSeqNums) (hlog : g'.log = g.log) : Quiet g g' :=
  ⟨hclients, hid, hin, hsaved, [], by rw [hlog, List.append_nil], fun _ hx => absurd hx List.not_mem_nil⟩

theorem refl (g : Service σ) : Quiet g g := silent rfl rfl rfl rfl rfl

theorem trans (h : Quiet g g') (h' : Quiet g' g'') : Quiet g g'' := by
  obtain ⟨l, hl, hql⟩ := h.log
  obtain ⟨l', hl', hql'⟩ := h'.log
  refine ⟨h'.clients.trans h.clients, h'.clientId.trans h.clientId, h'.inbound.trans h.inbound,
    h'.saved.trans h.saved, l ++ l', by rw [hl', hl, List.append_assoc], ?_⟩
  intro x hx
  rcases List.mem_append.mp hx with hx | hx
  · exact hql x hx
  · exact hql' x hx

/-- A change that shows as one quiet entry. -/
theorem single {x : Entry σ} (hx : x.quiet = true) (hclients : g'.manager.clients = g.manager.clients)
    (hid : g'.manager.clientId = g.manager.clientId) (hin : g'.inboundSeqNum = g.inboundSeqNum)
    (hsaved : g'.iSeqNums = g.iSeqNums) (hlog : g'.log = g.log ++ [x]) : Quiet g g' := by
  refine ⟨hclients, hid, hin, hsaved, [x], hlog, fun y hy => ?_⟩
  rw [List.mem_singleton.mp hy]
  exact hx

variable [DecidableEq σ]

theorem sendNext (data : ClientResponseData) : Quiet g (g.sendNext client data) :=
  single (x := .sent _ _) rfl rfl rfl rfl rfl rfl

theorem rejectLogon (clientId : UInt32) : Quiet g (g.rejectLogon client clientId) := by
  unfold Service.rejectLogon
  dsimp only
  split
  · exact single (x := .sent _ _) rfl rfl rfl rfl rfl rfl
  · exact single (x := .sent _ _) rfl rfl rfl rfl rfl rfl

omit [DecidableEq σ] in
theorem resend (ackSeqNum : Nat) (missed : List OrderResponse) :
    Quiet g (g.resend client ackSeqNum missed) := by
  refine ⟨rfl, rfl, rfl, rfl, _, rfl, fun x hx => ?_⟩
  obtain ⟨r, -, rfl⟩ := List.mem_map.mp hx
  rfl

theorem makeReady (clientId : UInt32) (expected shared : Nat) :
    Quiet g (g.makeReady client clientId expected shared) :=
  single (x := .sent _ _) rfl rfl rfl rfl rfl rfl

theorem forget : Quiet g (g.forget client) := by
  unfold Service.forget
  split
  · exact silent rfl rfl rfl rfl rfl
  · exact refl g

theorem sendAll (resps : List OrderResponse) :
    Quiet g (resps.foldl (fun g resp => g.sendNext client (.order resp)) g) := by
  induction resps generalizing g with
  | nil => exact refl g
  | cons resp resps ih => exact (sendNext _).trans ih

omit [DecidableEq σ] in
theorem updateOnExecution (resp : OrderResponse) : Quiet g (g.updateOnExecution resp) :=
  single (x := .filed _ _) rfl rfl rfl rfl rfl rfl

theorem handleExecutionResponse (resp : OrderResponse) : Quiet g (g.handleExecutionResponse resp) := by
  have hmanager : Quiet g { g with manager := (g.manager.handleExecutionResponse resp).1 } :=
    silent (g.manager.handleExecutionResponse_clients resp)
      (g.manager.handleExecutionResponse_clientId resp) rfl rfl rfl
  unfold Service.handleExecutionResponse
  dsimp only
  split
  · exact hmanager
  · exact hmanager.trans (sendNext _)

end Quiet

variable [DecidableEq σ]

/-- A logout takes the session out of the registry, if it is there under its own id. -/
theorem handleClientLogout_cases (g : Service σ) (client : σ) :
    (g.manager.clientId client ≠ 0 ∧ g.manager.clients (g.manager.clientId client) = some client ∧
      Quiet (g.unregister client (g.manager.clientId client)) (g.handleClientLogout client)) ∨
    ((g.manager.clientId client = 0 ∨
        g.manager.clients (g.manager.clientId client) ≠ some client) ∧
      Quiet g (g.handleClientLogout client)) := by
  unfold handleClientLogout
  dsimp only
  split
  · rename_i hzero
    exact Or.inr ⟨Or.inl hzero, Quiet.refl g⟩
  · rename_i hzero
    split
    · rename_i hreg
      exact Or.inl ⟨hzero, hreg, Quiet.forget⟩
    · rename_i hreg
      exact Or.inr ⟨Or.inr hreg, Quiet.forget⟩

/-- Logouts do not look at the flags of connections. -/
theorem handleClientLogout_closed (g : Service σ) (client : σ) (flags : σ → Bool) :
    { g with closed := flags }.handleClientLogout client =
      { g.handleClientLogout client with closed := flags } := by
  unfold handleClientLogout
  dsimp only
  by_cases hzero : g.manager.clientId client = 0
  · rw [if_pos hzero, if_pos hzero]
  · rw [if_neg hzero, if_neg hzero]
    unfold forget
    by_cases hreg : g.manager.clients (g.manager.clientId client) = some client
    · rw [if_pos hreg, if_pos hreg]
      split_ifs <;> first | rfl | contradiction
    · rw [if_neg hreg, if_neg hreg]
      split_ifs <;> rfl

/-- The close handler, up to the flag. -/
theorem onClose_quiet (hopen : g.closed client = false) :
    Quiet ((g.handleClientLogout client).note [.closed client]) (g.onClose client) := by
  unfold onClose
  rw [if_neg (by rw [hopen]; exact Bool.false_ne_true),
    handleClientLogout_closed g client (Function.update g.closed client true)]
  exact Quiet.silent rfl rfl rfl rfl rfl

/-- An order request that passes every check. -/
structure Admitted (g : Service σ) (client : σ) (msgSeqNum : Nat) (req : OrderRequest)
    (answers : Answers) : Prop where
  ready : g.ready client = true
  number : msgSeqNum = g.inboundSeqNum client + 1
  ring : (g.manager.ringOf req.symbolId).isSome = true
  room : answers.room = true

/-- What an event does to the registry, and to the numbers of requests. -/
inductive Moves (g : Service σ) : Event σ → Service σ → Prop
  | idle (e : Event σ) : Moves g e g
  | count (client : σ) (request : ClientRequest) (answers : Answers) :
      Moves g (.message client request answers) (g.incrementInboundSeqNum client)
  | place (client : σ) (msgSeqNum : Nat) (req : OrderRequest) (answers : Answers)
      (hadm : g.Admitted client msgSeqNum req answers) :
      Moves g (.message client ⟨.order req, msgSeqNum⟩ answers)
        ((g.incrementInboundSeqNum client).note [.placed ⟨client,
          g.manager.clients (g.manager.clientId client), g.manager.clientId client, msgSeqNum, req⟩])
  | logon (client : σ) (clientId : UInt32) (msgSeqNum ackSeqNum : Nat) (answers : Answers)
      (hacc : g.accepts clientId msgSeqNum ackSeqNum = true) :
      Moves g (.message client ⟨.admin .logOn clientId ackSeqNum, msgSeqNum⟩ answers)
        ((g.takeOver client clientId).register client clientId msgSeqNum (g.sharedMsgSeqNum clientId))
  | logout (client : σ) (clientId : UInt32) (msgSeqNum ackSeqNum : Nat) (answers : Answers) :
      Moves g (.message client ⟨.admin .logOut clientId ackSeqNum, msgSeqNum⟩ answers)
        (g.handleClientLogout client)
  | close (client : σ) (hopen : g.closed client = false) :
      Moves g (.close client) ((g.handleClientLogout client).note [.closed client])
  | restart : Moves g .restart g.restart

/-- An order request that is admitted is placed. -/
theorem step_admitted {msgSeqNum : Nat} {req : OrderRequest} {answers : Answers}
    (hadm : g.Admitted client msgSeqNum req answers) :
    Quiet ((g.incrementInboundSeqNum client).note [.placed ⟨client,
        g.manager.clients (g.manager.clientId client), g.manager.clientId client, msgSeqNum, req⟩])
      (g.step (.message client ⟨.order req, msgSeqNum⟩ answers)) := by
  obtain ⟨core, hcore⟩ := Option.isSome_iff_exists.mp hadm.ring
  show Quiet _ (g.processClientRequest client ⟨.order req, msgSeqNum⟩ answers)
  unfold processClientRequest
  dsimp only
  rw [if_neg (by simp [hadm.ready]), if_neg (by simp [hadm.number])]
  unfold placeOrder
  rw [show (g.incrementInboundSeqNum client).manager.ringOf req.symbolId = some core from hcore]
  dsimp only
  rw [if_pos hadm.room]
  exact Quiet.silent rfl rfl rfl rfl rfl

/-- A logon with the right numbers is accepted. -/
theorem step_accepted (g : Service σ) (client : σ) {clientId : UInt32} {msgSeqNum ackSeqNum : Nat}
    (hacc : g.accepts clientId msgSeqNum ackSeqNum = true) (answers : Answers) :
    Quiet ((g.takeOver client clientId).register client clientId msgSeqNum (g.sharedMsgSeqNum clientId))
      (g.step (.message client ⟨.admin .logOn clientId ackSeqNum, msgSeqNum⟩ answers)) := by
  show Quiet _ (g.handleClientLogon client clientId msgSeqNum ackSeqNum answers.missed)
  unfold handleClientLogon
  rw [if_pos hacc]
  exact (Quiet.resend _ _).trans (Quiet.makeReady _ _ _)

/-- Any other request is at most counted. -/
theorem step_request (g : Service σ) (client : σ) (data : ClientRequestData) (msgSeqNum : Nat)
    (answers : Answers)
    (hadmin : ∀ action clientId ackSeqNum, data ≠ .admin action clientId ackSeqNum)
    (hno : ∀ req, data = .order req → ¬ g.Admitted client msgSeqNum req answers) :
    Quiet g (g.step (.message client ⟨data, msgSeqNum⟩ answers)) ∨
      Quiet (g.incrementInboundSeqNum client) (g.step (.message client ⟨data, msgSeqNum⟩ answers)) := by
  show Quiet g (g.processClientRequest client ⟨data, msgSeqNum⟩ answers) ∨
    Quiet _ (g.processClientRequest client ⟨data, msgSeqNum⟩ answers)
  unfold processClientRequest
  -- before the logon, or with a wrong number, at most an answer is sent
  by_cases hready : ¬ g.ready client
  · cases data with
    | admin action clientId ackSeqNum => exact absurd rfl (hadmin action clientId ackSeqNum)
    | _ => exact Or.inl (by dsimp only; rw [if_pos hready]; exact Quiet.refl g)
  by_cases hnum : msgSeqNum ≠ g.inboundSeqNum client + 1
  · cases data with
    | admin action clientId ackSeqNum => exact absurd rfl (hadmin action clientId ackSeqNum)
    | _ => exact Or.inl (by dsimp only; rw [if_neg hready, if_pos hnum]; exact Quiet.sendNext _)
  -- otherwise the number has been counted, and an order has not been admitted
  refine Or.inr ?_
  cases data with
  | admin action clientId ackSeqNum => exact absurd rfl (hadmin action clientId ackSeqNum)
  | order req =>
    dsimp only
    rw [if_neg hready, if_neg hnum]
    unfold placeOrder
    split
    · exact Quiet.refl _
    · rename_i core hring
      split
      · rename_i hroom
        refine absurd ⟨by simpa using hready, by simpa using hnum, ?_, hroom⟩ (hno req rfl)
        rw [show g.manager.ringOf req.symbolId = some core from hring]
        rfl
      · exact Quiet.refl _
  | position clientId symbolId =>
    dsimp only
    rw [if_neg hready, if_neg hnum]
    exact Quiet.sendNext _
  | openOrders clientId =>
    dsimp only
    rw [if_neg hready, if_neg hnum]
    exact Quiet.sendAll _
  | other =>
    dsimp only
    rw [if_neg hready, if_neg hnum]
    exact Quiet.refl _

/-- Every event is one of the moves, and a quiet rest. -/
theorem step_moves (g : Service σ) (e : Event σ) : ∃ g', Moves g e g' ∧ Quiet g' (g.step e) := by
  cases e with
  | message client request answers =>
    obtain ⟨data, n⟩ := request
    by_cases hadmin : ∃ action clientId ackSeqNum, data = .admin action clientId ackSeqNum
    · obtain ⟨action, clientId, ackSeqNum, rfl⟩ := hadmin
      cases action with
      | logOn =>
        by_cases hacc : g.accepts clientId n ackSeqNum = true
        · exact ⟨_, .logon client clientId n ackSeqNum answers hacc, g.step_accepted client hacc answers⟩
        · refine ⟨g, .idle _, ?_⟩
          show Quiet g (g.handleClientLogon client clientId n ackSeqNum answers.missed)
          unfold handleClientLogon
          rw [if_neg hacc]
          exact Quiet.rejectLogon _
      | logOut => exact ⟨_, .logout client clientId n ackSeqNum answers, Quiet.refl _⟩
      | other code => exact ⟨g, .idle _, Quiet.refl g⟩
    · by_cases horder : ∃ req, data = .order req ∧ g.Admitted client n req answers
      · obtain ⟨req, rfl, hadm⟩ := horder
        exact ⟨_, .place client n req answers hadm, step_admitted hadm⟩
      · rcases g.step_request client data n answers (fun a b c h => hadmin ⟨a, b, c, h⟩)
          (fun req h hadm => horder ⟨req, h, hadm⟩) with h | h
        · exact ⟨g, .idle _, h⟩
        · exact ⟨_, .count client ⟨data, n⟩ answers, h⟩
  | close client =>
    by_cases hopen : g.closed client = true
    · refine ⟨g, .idle _, ?_⟩
      show Quiet g (g.onClose client)
      unfold onClose
      rw [if_pos hopen]
      exact Quiet.refl g
    · have hopen : g.closed client = false := by simpa using hopen
      exact ⟨_, .close client hopen, onClose_quiet hopen⟩
  | writeFailed client => exact ⟨g, .idle _, Quiet.silent rfl rfl rfl rfl rfl⟩
  | respond resp => exact ⟨g, .idle _, Quiet.handleExecutionResponse resp⟩
  | updated resp logOffset => exact ⟨g, .idle _, Quiet.updateOnExecution resp⟩
  | restart => exact ⟨_, .restart, Quiet.refl _⟩

/-- The log is only ever added to. -/
theorem log_step (g : Service σ) (e : Event σ) : g.log <+: (g.step e).log := by
  obtain ⟨g', hmoves, hq⟩ := g.step_moves e
  obtain ⟨l, hl, -⟩ := hq.log
  rw [hl]
  refine List.IsPrefix.trans ?_ (List.prefix_append _ _)
  have hlogout : ∀ client, g.log <+: (g.handleClientLogout client).log := by
    intro client
    rcases g.handleClientLogout_cases client with ⟨-, -, hq⟩ | ⟨-, hq⟩
    · obtain ⟨l, hl, -⟩ := hq.log
      rw [hl]
      exact (List.prefix_append _ _).trans (List.prefix_append _ _)
    · obtain ⟨l, hl, -⟩ := hq.log
      rw [hl]
      exact List.prefix_append _ _
  cases hmoves with
  | idle => exact List.prefix_refl _
  | count client request answers => exact List.prefix_refl _
  | place client n req answers hadm => exact List.prefix_append _ _
  | logon client clientId n ack answers hacc =>
    refine List.IsPrefix.trans ?_ (List.prefix_append _ _)
    unfold takeOver
    split
    · exact List.prefix_refl _
    · dsimp only
      split
      · exact List.prefix_refl _
      · exact List.prefix_append _ _
  | logout client clientId n ack answers => exact hlogout client
  | close client hopen => exact (hlogout client).trans (List.prefix_append _ _)
  | restart => exact List.prefix_append _ _

end Service

end Exchange.Gateway
