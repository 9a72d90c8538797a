import Exchange.Book.Named
import Exchange.Gateway.Align
import Exchange.Gateway.Sessions

/-!
# Responses and live sessions

The client-manager process of `Sessions.lean` with the rings, the engines and the journal of
`Manager.lean`: an order request that is placed goes to its engine, and the records come back.

`handle_execution_response` finds the session of a record in three places, which hold
sessions from different times: the one that sent the request, the last of these, and the one
that is registered now. They are the same session as long as nobody logs on under an id that
another session still waits for an answer with, or trades on an id that another session has
taken over (`Timely`). Otherwise the answer goes to the old session (`response_misses_session`).
Behind that is the order of the queues, and so the journal has to keep every record (`AtEnd`).
-/

namespace Exchange.Gateway

/-- The client-manager process, the rings, the engines and the journal. -/
structure Live (σ : Type) where
  service : Service σ
  rings : Nat → List (σ × OrderRequest)
  engines : Nat → MatchingEngine
  outbox : Nat → List (σ × OrderResponse)
  journal : Journal σ

namespace Service

variable {σ : Type} [DecidableEq σ]

/-- An event of the sessions, that is neither an order for an engine nor an answer from one. -/
def Elsewhere (g : Service σ) : Event σ → Prop
  | .message client ⟨.order req, msgSeqNum⟩ answers => ¬ g.Admitted client msgSeqNum req answers
  | .message _ _ _ => True
  | .close _ => True
  | .writeFailed _ => True
  | .updated _ _ => True
  | .respond _ => False
  | .restart => False

end Service

namespace Live

variable {σ : Type}

/-- The gateway as `Manager.lean` has it. -/
def system (x : Live σ) : System σ := ⟨x.service.manager, x.rings, x.engines, x.outbox, x.journal⟩

/-- The records the process has not read. -/
def unread (x : Live σ) : List (σ × OrderResponse) := x.journal.unread

/-- An engine appends to the journal's end. -/
def AtEnd (x : Live σ) (core : Nat) : Prop := x.journal.AtEnd core

instance (x : Live σ) (core : Nat) : Decidable (AtEnd x core) :=
  inferInstanceAs (Decidable (x.journal.AtEnd core))

variable [DecidableEq σ]

/-- Nothing has happened: a process that was just started, an empty journal, and on each core an
engine with freshly built books. -/
structure Initial (cfgs : Nat → List Config) (x : Live σ) : Prop where
  service : ∃ m iSeqNums oSeqNums, x.service = .start m iSeqNums oSeqNums
  rings : ∀ core, x.rings core = []
  outbox : ∀ core, x.outbox core = []
  journal : x.journal = .empty
  engines : ∀ core, ∃ gen, x.engines core = .create (cfgs core) gen

/-- One step; `K` may restrict what comes from the sessions, and `J` the engines that append. -/
inductive Step (K : Live σ → Event σ → Prop) (J : Live σ → Nat → Prop) : Live σ → Live σ → Prop
  /-- An order request is placed. -/
  | order (x : Live σ) (client : σ) (msgSeqNum : Nat) (req : OrderRequest) (answers : Answers)
      {core : Nat} (hK : K x (.message client ⟨.order req, msgSeqNum⟩ answers))
      (hadm : x.service.Admitted client msgSeqNum req answers)
      (hring : x.service.manager.ringOf req.symbolId = some core) :
      Step K J x { x with
        service := x.service.step (.message client ⟨.order req, msgSeqNum⟩ answers)
        rings := Function.update x.rings core (x.rings core ++ [(client, req)]) }
  /-- Anything else the sessions do. -/
  | session (x : Live σ) (e : Event σ) (hK : K x e) (he : x.service.Elsewhere e) :
      Step K J x { x with service := x.service.step e }
  /-- `MatchingEngine::poll_server` of the engine on a core. -/
  | poll (x : Live σ) {core : Nat} {client : σ} {req : OrderRequest} {rest : List (σ × OrderRequest)}
      {e : MatchingEngine} {new : List Emission} (hring : x.rings core = (client, req) :: rest)
      (hrun : (x.engines core).pollServer req = some (e, new)) :
      Step K J x { x with
        rings := Function.update x.rings core rest
        engines := Function.update x.engines core e
        outbox := Function.update x.outbox core
          (x.outbox core ++ new.map fun y => (client, y.resp)) }
  /-- An engine appends its next record to the journal. -/
  | journal (x : Live σ) {core : Nat} {r : σ × OrderResponse} {rest : List (σ × OrderResponse)}
      (hJ : J x core) (hout : x.outbox core = r :: rest) :
      Step K J x { x with
        outbox := Function.update x.outbox core rest
        journal := x.journal.append core r }
  /-- `handle_execution_response`. -/
  | respond (x : Live σ) {sender : σ} {resp : OrderResponse} {rest : List (σ × OrderResponse)}
      (hread : x.unread = (sender, resp) :: rest) :
      Step K J x { x with
        service := x.service.step (.respond resp)
        journal := x.journal.advance }

/-- The states these steps lead to. -/
inductive Run (K : Live σ → Event σ → Prop) (J : Live σ → Nat → Prop) (cfgs : Nat → List Config) :
    Live σ → Prop
  | initial {x : Live σ} (h : Initial cfgs x) : Run K J cfgs x
  | step {x x' : Live σ} (h : Run K J cfgs x) (hstep : Step K J x x') : Run K J cfgs x'

/-- Orders are sent under the session's own id, and for symbols that an engine serves. -/
def Own (x : Live σ) : Event σ → Prop
  | .message client ⟨.order req, msgSeqNum⟩ answers =>
    x.service.Admitted client msgSeqNum req answers →
      req.clientId = x.service.manager.clientId client ∧ x.system.Served req
  | _ => True

/-- A session sends an order while no other is registered under its id; and logs on under an id
while no other session of that id waits for an answer, or is the last that got one, and not
itself for one under another id. -/
def Timely (x : Live σ) : Event σ → Prop
  | .message client ⟨.order req, msgSeqNum⟩ answers =>
    x.service.Admitted client msgSeqNum req answers →
      ∀ s, x.service.manager.clients (x.service.manager.clientId client) = some s → s = client
  | .message client ⟨.admin .logOn clientId ackSeqNum, msgSeqNum⟩ _ =>
    x.service.accepts clientId msgSeqNum ackSeqNum = true →
      (∀ core, ∀ s ∈ x.service.manager.pendingOrderClients core,
        x.service.manager.clientId s = clientId ↔ s = client) ∧
      ∀ s, x.service.manager.lastPoppedClient = some s → x.service.manager.clientId s = clientId →
        s = client
  | _ => True

/-- The next record the process reads, if its client has a session, is sent on that session, and
nothing else is. -/
def Reaches (x : Live σ) : Prop :=
  ∀ sender resp rest s, x.unread = (sender, resp) :: rest →
    x.service.manager.clients resp.clientId = some s →
    (x.service.step (.respond resp)).log =
      x.service.log ++ [.sent s ⟨.order resp, x.service.outboundSeqNum s + 1⟩]

end Live

/-! ## What the sessions do to the manager -/

namespace ClientManager

variable {σ : Type}

/-- The routes and the queues are the same, and no session has been popped. -/
structure SameQueues (m m' : ClientManager σ) : Prop where
  info : m'.getSymbolInfo = m.getSymbolInfo
  rings : m'.requestRings = m.requestRings
  pending : m'.pendingOrderClients = m.pendingOrderClients
  popped : ∀ s, m'.lastPoppedClient = some s → m.lastPoppedClient = some s

theorem SameQueues.refl (m : ClientManager σ) : SameQueues m m := ⟨rfl, rfl, rfl, fun _ h => h⟩

/-- Nobody is registered anew. -/
structure Shrinks (m m' : ClientManager σ) : Prop where
  queues : SameQueues m m'
  clientId : m'.clientId = m.clientId
  clients : ∀ c s, m'.clients c = some s → m.clients c = some s

theorem Shrinks.refl (m : ClientManager σ) : Shrinks m m := ⟨.refl m, rfl, fun _ _ h => h⟩

/-- What is the same has not grown. -/
theorem Shrinks.of_eq {m m' : ClientManager σ} (h : m' = m) : Shrinks m m' := h ▸ .refl m

end ClientManager

namespace Service

variable {σ : Type} [DecidableEq σ] (g : Service σ)

theorem manager_sendAll (client : σ) (resps : List OrderResponse) :
    (resps.foldl (fun g resp => g.sendNext client (.order resp)) g).manager = g.manager := by
  induction resps generalizing g with
  | nil => rfl
  | cons resp resps ih => exact (ih _).trans rfl

theorem manager_rejectLogon (client : σ) (clientId : UInt32) :
    (g.rejectLogon client clientId).manager = g.manager := by
  unfold rejectLogon
  dsimp only
  split
  · rfl
  · rfl

theorem manager_takeOver (client : σ) (clientId : UInt32) :
    (g.takeOver client clientId).manager = g.manager := by
  unfold takeOver
  split
  · rfl
  · dsimp only
    split
    · rfl
    · rfl

/-- A logout only takes senders out. -/
theorem shrinks_logout (client : σ) :
    g.manager.Shrinks (g.handleClientLogout client).manager := by
  have hforget : ∀ g' : Service σ, g'.manager.Shrinks (g'.forget client).manager := by
    intro g'
    unfold forget
    split
    · exact ⟨⟨rfl, rfl, rfl, fun _ h => by cases h⟩, rfl, fun _ _ h => h⟩
    · exact .refl _
  unfold handleClientLogout
  dsimp only
  split
  · exact .refl _
  · split
    · obtain ⟨⟨hinfo, hrings, hpending, hpopped⟩, hid, hclients⟩ :=
        hforget (g.unregister client (g.manager.clientId client))
      refine ⟨⟨hinfo, hrings, hpending, hpopped⟩, hid, fun c s hs => ?_⟩
      have hleft := hclients c s hs
      unfold unregister at hleft
      dsimp only at hleft
      by_cases hc : c = g.manager.clientId client
      · rw [hc, Function.update_self] at hleft
        cases hleft
      · rw [Function.update_of_ne hc] at hleft
        exact hleft
    · exact hforget g

/-- A logon that is accepted registers its session. -/
theorem manager_logon {client : σ} {clientId : UInt32} {msgSeqNum ackSeqNum : Nat} (answers : Answers)
    (hacc : g.accepts clientId msgSeqNum ackSeqNum = true) :
    (g.step (.message client ⟨.admin .logOn clientId ackSeqNum, msgSeqNum⟩ answers)).manager =
      { g.manager with
        clientId := Function.update g.manager.clientId client clientId
        clients := Function.update g.manager.clients clientId (some client) } := by
  show (g.handleClientLogon client clientId msgSeqNum ackSeqNum answers.missed).manager = _
  unfold handleClientLogon
  rw [if_pos hacc]
  show ((g.takeOver client clientId).register client clientId msgSeqNum
    (g.sharedMsgSeqNum clientId)).manager = _
  unfold register
  dsimp only
  rw [manager_takeOver]

/-- A logon registers its session; nothing else the sessions do registers any. -/
theorem step_elsewhere {e : Event σ} (he : g.Elsewhere e) :
    g.manager.Shrinks (g.step e).manager ∨
      ∃ client clientId msgSeqNum ackSeqNum answers,
        e = .message client ⟨.admin .logOn clientId ackSeqNum, msgSeqNum⟩ answers ∧
        g.accepts clientId msgSeqNum ackSeqNum = true ∧
        (g.step e).manager = { g.manager with
          clientId := Function.update g.manager.clientId client clientId
          clients := Function.update g.manager.clients clientId (some client) } := by
  cases e with
  | respond resp => exact he.elim
  | restart => exact he.elim
  | updated resp logOffset => exact Or.inl (.refl _)
  | writeFailed client => exact Or.inl (.refl _)
  | close client =>
    refine Or.inl ?_
    show g.manager.Shrinks (g.onClose client).manager
    unfold onClose
    split
    · exact .refl _
    · rw [handleClientLogout_closed]
      exact g.shrinks_logout client
  | message client request answers =>
    obtain ⟨data, n⟩ := request
    by_cases hadmin : ∃ action clientId ackSeqNum, data = .admin action clientId ackSeqNum
    · obtain ⟨action, clientId, ackSeqNum, rfl⟩ := hadmin
      cases action with
      | logOn =>
        by_cases hacc : g.accepts clientId n ackSeqNum = true
        · exact Or.inr ⟨client, clientId, n, ackSeqNum, answers, rfl, hacc, g.manager_logon answers hacc⟩
        · refine Or.inl (.of_eq ?_)
          show (g.handleClientLogon client clientId n ackSeqNum answers.missed).manager = _
          unfold handleClientLogon
          rw [if_neg hacc]
          exact g.manager_rejectLogon client clientId
      | logOut => exact Or.inl (g.shrinks_logout client)
      | other code => exact Or.inl (.refl _)
    · -- a request that is at most counted
      refine Or.inl (.of_eq ?_)
      show (g.processClientRequest client ⟨data, n⟩ answers).manager = _
      unfold processClientRequest
      cases data with
      | admin action clientId ackSeqNum => exact absurd ⟨_, _, _, rfl⟩ hadmin
      | order req =>
        dsimp only
        split
        · rfl
        rename_i hready
        split
        · rfl
        rename_i hnum
        unfold placeOrder
        split
        · rfl
        rename_i core hring
        split
        · rename_i hroom
          refine absurd ⟨not_not.mp hready, not_not.mp hnum, ?_, hroom⟩ he
          rw [show g.manager.ringOf req.symbolId = some core from hring]
          rfl
        · rfl
      | position clientId symbolId =>
        dsimp only
        split_ifs <;> rfl
      | openOrders clientId =>
        dsimp only
        split
        · rfl
        split
        · rfl
        · exact manager_sendAll _ _ _
      | other =>
        dsimp only
        split_ifs <;> rfl

/-- An order that is placed. -/
theorem manager_admitted {client : σ} {msgSeqNum : Nat} {req : OrderRequest} {answers : Answers}
    (hadm : g.Admitted client msgSeqNum req answers) {core : Nat}
    (hring : g.manager.ringOf req.symbolId = some core) :
    (g.step (.message client ⟨.order req, msgSeqNum⟩ answers)).manager = g.manager.push core client := by
  show (g.processClientRequest client ⟨.order req, msgSeqNum⟩ answers).manager = _
  unfold processClientRequest
  dsimp only
  rw [if_neg (by simp [hadm.ready]), if_neg (by simp [hadm.number])]
  unfold placeOrder
  rw [show (g.incrementInboundSeqNum client).manager.ringOf req.symbolId = some core from hring]
  dsimp only
  rw [if_pos hadm.room]
  rfl

/-- A response moves the registry as `handle_execution_response` does. -/
theorem manager_respond (resp : OrderResponse) :
    (g.step (.respond resp)).manager = (g.manager.handleExecutionResponse resp).1 := by
  show (g.handleExecutionResponse resp).manager = _
  unfold handleExecutionResponse
  dsimp only
  split
  · rfl
  · rfl

end Service

/-! ## The invariant -/

/-- Nobody else is registered under the session's id. -/
def ClientManager.Current {σ : Type} (m : ClientManager σ) (s : σ) : Prop :=
  ∀ s', m.clients (m.clientId s) = some s' → s' = s

namespace Live

variable {σ : Type}

/-- What a run keeps. -/
structure Tied (x : Live σ) : Prop where
  balanced : x.system.Balanced
  indexed : ∀ core sid b, (x.engines core).books.lookup sid = some b → b.Indexed
  ring : ∀ core, ∀ y ∈ x.rings core, x.service.manager.clientId y.1 = y.2.clientId
  sent : ∀ core, ∀ y ∈ x.outbox core, y.2.isResp = true → x.service.manager.clientId y.1 = y.2.clientId
  filed : ∀ y ∈ x.unread, y.2.isResp = true → x.service.manager.clientId y.1 = y.2.clientId
  live : ∀ core, ∀ s ∈ x.service.manager.pendingOrderClients core, x.service.manager.Current s
  popped : ∀ s, x.service.manager.lastPoppedClient = some s → x.service.manager.Current s

/-- An empty index names no order. -/
theorem fresh_indexed (c : Config) : (OrderBook.fresh c).Indexed :=
  ⟨(fun h => by cases h), (fun h => by cases h)⟩

/-- The senders of all requests under way are in the queues. -/
theorem Tied.pending {x : Live σ} (h : x.Tied) :
    (∀ core, ∀ y ∈ x.rings core, y.1 ∈ x.service.manager.pendingOrderClients core) ∧
    (∀ core, ∀ y ∈ x.outbox core, y.2.isResp = true →
      y.1 ∈ x.service.manager.pendingOrderClients core) ∧
    ∀ y ∈ x.unread, y.2.isResp = true → ∃ core, y.1 ∈ x.service.manager.pendingOrderClients core := by
  have hqueue : ∀ core, x.service.manager.pendingOrderClients core =
    ackSenders (x.system.ofCore core x.unread) ++ (ackSenders (x.outbox core) ++
      (x.rings core).map Prod.fst) := h.balanced.queue
  have hmem : ∀ {rs : List (σ × OrderResponse)} {y}, y ∈ rs → y.2.isResp = true →
      y.1 ∈ ackSenders rs := by
    intro rs y hy hresp
    exact List.mem_map_of_mem (List.mem_filter.mpr ⟨hy, hresp⟩)
  refine ⟨fun core y hy => ?_, fun core y hy hresp => ?_, fun y hy hresp => ?_⟩
  · rw [hqueue]
    exact List.mem_append_right _ (List.mem_append_right _ (List.mem_map_of_mem hy))
  · rw [hqueue]
    exact List.mem_append_right _ (List.mem_append_left _ (hmem hy hresp))
  · obtain ⟨core, hcore⟩ := h.balanced.filed y hy
    refine ⟨core, ?_⟩
    rw [hqueue]
    refine List.mem_append_left _ (hmem (List.mem_filter.mpr ⟨hy, ?_⟩) hresp)
    exact decide_eq_true hcore

/-- At the start nothing is on its way. -/
theorem Initial.tied {cfgs : Nat → List Config} {x : Live σ} (h : Initial cfgs x) : x.Tied := by
  obtain ⟨m, i, o, hservice⟩ := h.service
  have hinitial : System.Initial cfgs x.system :=
    ⟨fun core => by rw [system, hservice]; rfl, h.rings, h.outbox, h.journal, h.engines⟩
  refine ⟨hinitial.balanced, fun core sid b hb => ?_, fun core y hy => ?_, fun core y hy => ?_,
    fun y hy => ?_, fun core s hs => ?_, fun s hs => ?_⟩
  · obtain ⟨gen, he⟩ := h.engines core
    rw [he] at hb
    obtain ⟨c, -, -, rfl⟩ := MatchingEngine.create_lookup hb
    exact fresh_indexed c
  · rw [h.rings] at hy
    exact absurd hy List.not_mem_nil
  · rw [h.outbox] at hy
    exact absurd hy List.not_mem_nil
  · unfold unread at hy
    rw [h.journal] at hy
    exact absurd hy List.not_mem_nil
  · rw [hservice] at hs
    exact absurd hs List.not_mem_nil
  · rw [hservice] at hs
    cases hs

/-- The queues are as they were, and the sessions in them have kept their ids. -/
theorem Tied.registry {x : Live σ} (h : x.Tied) {g : Service σ}
    (hqueues : x.service.manager.SameQueues g.manager)
    (hid : ∀ core, ∀ s ∈ x.service.manager.pendingOrderClients core,
      g.manager.clientId s = x.service.manager.clientId s)
    (hlive : ∀ core, ∀ s ∈ x.service.manager.pendingOrderClients core, g.manager.Current s)
    (hpopped : ∀ s, x.service.manager.lastPoppedClient = some s → g.manager.Current s) :
    Tied { x with service := g } := by
  obtain ⟨hrings, hsent, hfiled⟩ := h.pending
  refine ⟨?_, h.indexed, fun core y hy => ?_, fun core y hy hresp => ?_, fun y hy hresp => ?_,
    fun core s hs => ?_, fun s hs => ?_⟩
  · have hmanager : g.manager = { x.service.manager with
        lastPoppedClient := g.manager.lastPoppedClient
        clients := g.manager.clients
        clientId := g.manager.clientId } := by
      dsimp only
      rw [← hqueues.info, ← hqueues.rings, ← hqueues.pending]
    have hbalanced := h.balanced.step (.registry x.system g.manager.lastPoppedClient g.manager.clients
      g.manager.clientId)
    unfold system
    dsimp only
    rw [hmanager]
    exact hbalanced
  · exact (hid core _ (hrings core y hy)).trans (h.ring core y hy)
  · exact (hid core _ (hsent core y hy hresp)).trans (h.sent core y hy hresp)
  · obtain ⟨core, hcore⟩ := hfiled y hy hresp
    exact (hid core _ hcore).trans (h.filed y hy hresp)
  · dsimp only at hs
    rw [hqueues.pending] at hs
    exact hlive core s hs
  · exact hpopped s (hqueues.popped s hs)

/-- The acknowledgement of a request bears its client. -/
theorem pollServer_named {e e' : MatchingEngine} {req : OrderRequest} {new : List Emission}
    (hindexed : ∀ sid b, e.books.lookup sid = some b → b.Indexed)
    (hmode : ∀ sid b, e.books.lookup sid = some b → b.recoverMode = false)
    (hrun : e.pollServer req = some (e', new)) :
    (∀ ack rs, new.map (·.resp) = ack :: rs → ack.clientId = req.clientId) ∧
      ∀ sid b, e'.books.lookup sid = some b → b.Indexed := by
  unfold MatchingEngine.pollServer at hrun
  split at hrun
  · obtain ⟨rfl, rfl⟩ := Prod.mk.inj (Option.some.inj hrun)
    exact ⟨fun _ _ h => (by cases h), hindexed⟩
  · rename_i b hb
    obtain ⟨st, hst, hrun⟩ := Option.bind_eq_some_iff.mp hrun
    obtain ⟨rfl, rfl⟩ := Prod.mk.inj (Option.some.inj hrun)
    have hb' : (⟨b, e.gen, []⟩ : State).book.Indexed := hindexed _ b hb
    obtain ⟨hbook, ack, rs, hemits, hclient⟩ := processRequest_named hb' hst
    have hlog : st.log = [] ++ if b.recoverMode then [] else ack :: rs := hemits.log
    rw [hmode _ b hb, if_neg Bool.false_ne_true, List.nil_append] at hlog
    refine ⟨fun ack' rs' h => ?_, fun sid b' hb' => ?_⟩
    · obtain ⟨rfl, -⟩ := List.cons.inj (hlog.symm.trans h)
      exact hclient
    · by_cases hs : sid = req.symbolId
      · subst hs
        obtain rfl := Option.some.inj ((AList.lookup_insert _).symm.trans hb')
        exact hbook
      · exact hindexed sid b' ((AList.lookup_insert_ne hs).symm.trans hb')

/-- An engine that polls hands the request's sender on with its records. -/
theorem Tied.poll {x : Live σ} (h : x.Tied) {core : Nat} {client : σ} {req : OrderRequest}
    {rest : List (σ × OrderRequest)} {e : MatchingEngine} {new : List Emission}
    (hring : x.rings core = (client, req) :: rest)
    (hrun : (x.engines core).pollServer req = some (e, new)) :
    Tied { x with
      rings := Function.update x.rings core rest
      engines := Function.update x.engines core e
      outbox := Function.update x.outbox core
        (x.outbox core ++ new.map fun y => (client, y.resp)) } := by
  have hmode : ∀ sid b, (x.engines core).books.lookup sid = some b → b.recoverMode = false :=
    fun sid b hb => (h.balanced.books core sid b hb).2
  obtain ⟨hnamed, hbooks⟩ := pollServer_named (h.indexed core) hmode hrun
  have hmem : (client, req) ∈ x.rings core := hring ▸ List.mem_cons_self
  obtain ⟨-, hbook⟩ := h.balanced.ring core (client, req) hmem
  obtain ⟨⟨ack, rs, hnew, hack, -, htrades⟩, -, -⟩ :=
    System.pollServer_answers hbook (h.balanced.books core) hrun
  refine ⟨h.balanced.poll hring hrun, fun k sid b hb => ?_, fun k y hy => ?_, fun k y hy hresp => ?_,
    h.filed, h.live, h.popped⟩
  · dsimp only at hb
    by_cases hk : k = core
    · subst hk
      rw [Function.update_self] at hb
      exact hbooks sid b hb
    · rw [Function.update_of_ne hk] at hb
      exact h.indexed k sid b hb
  · dsimp only at hy
    by_cases hk : k = core
    · subst hk
      rw [Function.update_self] at hy
      exact h.ring k y (hring ▸ List.mem_cons_of_mem _ hy)
    · rw [Function.update_of_ne hk] at hy
      exact h.ring k y hy
  · dsimp only at hy
    by_cases hk : k = core
    · subst hk
      rw [Function.update_self] at hy
      rcases List.mem_append.mp hy with hy | hy
      · exact h.sent k y hy hresp
      · -- of the new records only the first is an acknowledgement
        obtain ⟨r, hr, rfl⟩ := List.mem_map.mp hy
        have hsent : r.resp ∈ ack :: rs := hnew ▸ List.mem_map_of_mem hr
        rcases List.mem_cons.mp hsent with heq | htrade
        · show x.service.manager.clientId client = r.resp.clientId
          rw [heq, hnamed ack rs hnew]
          exact h.ring k (client, req) hmem
        · have hno : r.resp.isResp = false := isResp_trade (htrades _ htrade).1
          rw [show r.resp.isResp = true from hresp] at hno
          cases hno
    · rw [Function.update_of_ne hk] at hy
      exact h.sent k y hy hresp

/-- A record journalled keeps its sender. -/
theorem Tied.journal {x : Live σ} (h : x.Tied) {core : Nat} {r : σ × OrderResponse}
    {rest : List (σ × OrderResponse)} (hend : x.AtEnd core) (hout : x.outbox core = r :: rest) :
    Tied { x with
      outbox := Function.update x.outbox core rest
      journal := x.journal.append core r } := by
  have hunread : (x.journal.append core r).unread = x.unread ++ [r] :=
    Journal.unread_append hend h.balanced.taken r
  refine ⟨h.balanced.journal hend hout, h.indexed, h.ring, fun k y hy hresp => ?_, fun y hy hresp => ?_,
    h.live, h.popped⟩
  · dsimp only at hy
    by_cases hk : k = core
    · subst hk
      rw [Function.update_self] at hy
      exact h.sent k y (hout ▸ List.mem_cons_of_mem _ hy) hresp
    · rw [Function.update_of_ne hk] at hy
      exact h.sent k y hy hresp
  · change y ∈ (x.journal.append core r).unread at hy
    rw [hunread] at hy
    rcases List.mem_append.mp hy with hy | hy
    · exact h.filed y hy hresp
    · rw [List.mem_singleton.mp hy] at hresp ⊢
      exact h.sent core r (hout ▸ List.mem_cons_self) hresp

/-- What `handle_execution_response` does with the next record. -/
theorem Tied.read {x : Live σ} (h : x.Tied) {sender : σ} {resp : OrderResponse}
    {rest : List (σ × OrderResponse)} (hread : x.unread = (sender, resp) :: rest) :
    (resp.isResp = true ∧ ∃ core queue, x.service.manager.pendingOrderClients core = sender :: queue ∧
      x.service.manager.handleExecutionResponse resp = ({ x.service.manager with
        pendingOrderClients := Function.update x.service.manager.pendingOrderClients core queue
        lastPoppedClient := some sender }, some sender)) ∨
    (resp.isResp = false ∧ x.service.manager.handleExecutionResponse resp = (x.service.manager,
      (x.service.manager.lastPoppedClient.filter fun s =>
        x.service.manager.clientId s = resp.clientId).or (x.service.manager.clients resp.clientId))) := by
  cases hresp : resp.isResp with
  | true =>
    obtain ⟨core, hcore, hpending⟩ := h.balanced.pop hread hresp
    refine Or.inl ⟨rfl, core, _, hpending, ?_⟩
    have hack : checkExec resp.execType execResp = true := hresp
    unfold ClientManager.handleExecutionResponse ClientManager.popPending
    dsimp only
    rw [if_pos hack, show x.service.manager.queueOf resp.symbolId = some core from hcore]
    dsimp only
    rw [show x.service.manager.pendingOrderClients core = _ from hpending]
    rfl
  | false =>
    refine Or.inr ⟨rfl, ?_⟩
    have hack : ¬ checkExec resp.execType execResp = true := by
      rw [show checkExec resp.execType execResp = false from hresp]
      exact Bool.false_ne_true
    unfold ClientManager.handleExecutionResponse
    dsimp only
    rw [if_neg hack]

variable [DecidableEq σ]

/-- An order of the registered session, under its own id. -/
theorem Tied.order {x : Live σ} (h : x.Tied) {client : σ} {msgSeqNum : Nat} {req : OrderRequest}
    {answers : Answers} {core : Nat} (hadm : x.service.Admitted client msgSeqNum req answers)
    (hring : x.service.manager.ringOf req.symbolId = some core)
    (hown : req.clientId = x.service.manager.clientId client) (hserved : x.system.Served req)
    (hcurrent : x.service.manager.Current client) :
    Tied { x with
      service := x.service.step (.message client ⟨.order req, msgSeqNum⟩ answers)
      rings := Function.update x.rings core (x.rings core ++ [(client, req)]) } := by
  have hmanager := x.service.manager_admitted hadm hring
  refine ⟨?_, h.indexed, fun k y hy => ?_, ?_, ?_, fun k s hs => ?_, ?_⟩
  · have hbalanced := h.balanced.request client hserved hring
    unfold system
    dsimp only
    rw [hmanager]
    exact hbalanced
  -- the one more in the ring is its sender's
  · dsimp only at hy ⊢
    rw [hmanager]
    by_cases hk : k = core
    · subst hk
      rw [Function.update_self] at hy
      rcases List.mem_append.mp hy with hy | hy
      · exact h.ring k y hy
      · rw [List.mem_singleton.mp hy]
        exact hown.symm
    · rw [Function.update_of_ne hk] at hy
      exact h.ring k y hy
  · dsimp only
    rw [hmanager]
    exact h.sent
  · dsimp only
    rw [hmanager]
    exact h.filed
  -- and the one more in the queue is a session that is current
  · dsimp only at hs ⊢
    rw [hmanager] at hs ⊢
    unfold ClientManager.push at hs
    dsimp only at hs
    by_cases hk : k = core
    · subst hk
      rw [Function.update_self] at hs
      rcases List.mem_append.mp hs with hs | hs
      · exact h.live k s hs
      · rw [List.mem_singleton.mp hs]
        exact hcurrent
    · rw [Function.update_of_ne hk] at hs
      exact h.live k s hs
  · dsimp only
    rw [hmanager]
    exact h.popped

/-- What the sessions do, in time. -/
theorem Tied.session {x : Live σ} (h : x.Tied) {e : Event σ} (he : x.service.Elsewhere e)
    (htimely : x.Timely e) : Tied { x with service := x.service.step e } := by
  rcases x.service.step_elsewhere he with
    ⟨hqueues, hid, hclients⟩ | ⟨client, clientId, n, ack, answers, rfl, hacc, hmanager⟩
  · -- nobody is registered anew
    have hcurrent : ∀ s, x.service.manager.Current s → (x.service.step e).manager.Current s := by
      intro s hs s' hs'
      rw [hid] at hs'
      exact hs s' (hclients _ _ hs')
    refine h.registry hqueues (fun _ _ _ => by rw [hid]) ?_ ?_
    · exact fun core s hs => hcurrent s (h.live core s hs)
    · exact fun s hs => hcurrent s (h.popped s hs)
  · obtain ⟨hwaiting, hlast⟩ := htimely hacc
    have hself : (x.service.step (.message client ⟨.admin .logOn clientId ack, n⟩
        answers)).manager.Current client := by
      intro s' hs'
      rw [hmanager] at hs'
      dsimp only at hs'
      rw [Function.update_self, Function.update_self] at hs'
      exact (Option.some.inj hs').symm
    -- a session of another id
    have hother : ∀ s, s ≠ client → x.service.manager.clientId s ≠ clientId →
        x.service.manager.Current s → (x.service.step (.message client
          ⟨.admin .logOn clientId ack, n⟩ answers)).manager.Current s := by
      intro s hne hid hs s' hs'
      rw [hmanager] at hs'
      dsimp only at hs'
      rw [Function.update_of_ne hne, Function.update_of_ne hid] at hs'
      exact hs s' hs'
    refine h.registry ?_ (fun core s hs => ?_) (fun core s hs => ?_) fun s hs => ?_
    · rw [hmanager]
      exact ⟨rfl, rfl, rfl, fun _ hs => hs⟩
    · rw [hmanager]
      dsimp only
      by_cases hs' : s = client
      · rw [hs', Function.update_self]
        exact ((hwaiting core client (hs' ▸ hs)).mpr rfl).symm
      · rw [Function.update_of_ne hs']
    · by_cases hs' : s = client
      · exact hs' ▸ hself
      · exact hother s hs' (fun hid => hs' ((hwaiting core s hs).mp hid)) (h.live core s hs)
    · by_cases hs' : s = client
      · exact hs' ▸ hself
      · exact hother s hs' (fun hid => hs' (hlast s hs hid)) (h.popped s hs)

/-- A response that is read belongs to the sender at the head of the queue. -/
theorem Tied.respond {x : Live σ} (h : x.Tied) {sender : σ} {resp : OrderResponse}
    {rest : List (σ × OrderResponse)} (hread : x.unread = (sender, resp) :: rest) :
    Tied { x with
      service := x.service.step (.respond resp)
      journal := x.journal.advance } := by
  have hmanager := x.service.manager_respond resp
  have hbalanced := h.balanced.respond hread
  have hunread : x.journal.advance.unread = rest := Journal.unread_advance hread
  -- what is still unread was unread before
  have hfiled : ∀ y ∈ x.journal.advance.unread, y ∈ x.unread := by
    intro y hy
    rw [hunread] at hy
    exact hread ▸ List.mem_cons_of_mem _ hy
  have hsystem : System.Balanced (system { x with
      service := x.service.step (.respond resp)
      journal := x.journal.advance }) := by
    unfold system
    dsimp only
    rw [hmanager]
    exact hbalanced
  -- an acknowledgement pops the queue, anything else goes to the registry or to the one popped last
  rcases h.read hread with ⟨-, core, queue, hpending, hhandle⟩ | ⟨-, hhandle⟩
  · rw [hhandle] at hmanager
    have hsender : x.service.manager.Current sender := h.live core sender (hpending ▸ List.mem_cons_self)
    refine ⟨hsystem, h.indexed, ?_, ?_, fun y hy hresp => ?_, fun k s hs => ?_, fun s hs => ?_⟩
    · dsimp only
      rw [hmanager]
      exact h.ring
    · dsimp only
      rw [hmanager]
      exact h.sent
    · dsimp only
      rw [hmanager]
      exact h.filed y (hfiled y hy) hresp
    · dsimp only at hs ⊢
      rw [hmanager] at hs ⊢
      dsimp only at hs
      by_cases hk : k = core
      · subst hk
        rw [Function.update_self] at hs
        exact h.live k s (hpending ▸ List.mem_cons_of_mem _ hs)
      · rw [Function.update_of_ne hk] at hs
        exact h.live k s hs
    · dsimp only at hs ⊢
      rw [hmanager] at hs ⊢
      obtain rfl := Option.some.inj hs
      exact hsender
  · rw [hhandle] at hmanager
    refine ⟨hsystem, h.indexed, ?_, ?_, fun y hy hresp => ?_, ?_, ?_⟩ <;> dsimp only <;> rw [hmanager]
    · exact h.ring
    · exact h.sent
    · exact h.filed y (hfiled y hy) hresp
    · exact h.live
    · exact h.popped

theorem Tied.step {x x' : Live σ} (h : x.Tied)
    (hstep : Step (fun x e => x.Own e ∧ x.Timely e) AtEnd x x') : x'.Tied := by
  cases hstep with
  | order client n req answers hK hadm hring =>
    obtain ⟨hown, hserved⟩ := hK.1 hadm
    exact h.order hadm hring hown hserved (hK.2 hadm)
  | session e hK he => exact h.session he hK.2
  | poll hring hrun => exact h.poll hring hrun
  | journal hend hout => exact h.journal hend hout
  | respond hread => exact h.respond hread

theorem Run.tied {cfgs : Nat → List Config} {x : Live σ}
    (h : Run (fun x e => x.Own e ∧ x.Timely e) AtEnd cfgs x) : x.Tied := by
  induction h with
  | initial h => exact h.tied
  | step _ hstep ih => exact ih.step hstep

/-- In every run in which sessions send orders under their own ids, for symbols that are served,
and log on and trade in time, and whose records go to the journal's end, each record is sent on
the session its client has. -/
theorem responses_reach_session {cfgs : Nat → List Config} {x : Live σ}
    (h : Run (fun x e => x.Own e ∧ x.Timely e) AtEnd cfgs x) : x.Reaches := by
  intro sender resp rest s hread hs
  have htied := h.tied
  -- whichever of the three it is, it is the registered one
  have hchosen : (x.service.manager.handleExecutionResponse resp).2 = some s := by
    rcases htied.read hread with ⟨hresp, core, queue, hpending, hhandle⟩ | ⟨-, hhandle⟩
    · rw [hhandle]
      have hid : x.service.manager.clientId sender = resp.clientId :=
        htied.filed (sender, resp) (hread ▸ List.mem_cons_self) hresp
      have hcurrent := htied.live core sender (hpending ▸ List.mem_cons_self)
      exact congrArg some (hcurrent s (hid ▸ hs)).symm
    · rw [hhandle]
      cases hlast : x.service.manager.lastPoppedClient with
      | none => exact hs
      | some last =>
        rw [Option.filter_some]
        split
        · rename_i hid
          have hcurrent := htied.popped last hlast
          exact congrArg some (hcurrent s (of_decide_eq_true hid ▸ hs)).symm
        · exact hs
  show (x.service.handleExecutionResponse resp).log = _
  unfold Service.handleExecutionResponse
  dsimp only
  rw [hchosen]
  rfl

/-! ## Running it -/

/-- The steps that need no session. -/
inductive Move
  | poll (core : Nat)
  | journal (core : Nat)
  | respond

/-- Makes a step, if it can be made. -/
def next (x : Live σ) : Move → Option (Live σ)
  | .poll core =>
    match x.rings core with
    | [] => none
    | (client, req) :: rest =>
      match (x.engines core).pollServer req with
      | none => none
      | some (e, new) => some { x with
          rings := Function.update x.rings core rest
          engines := Function.update x.engines core e
          outbox := Function.update x.outbox core
            (x.outbox core ++ new.map fun y => (client, y.resp)) }
  | .journal core =>
    match x.outbox core with
    | [] => none
    | r :: rest => some { x with
        outbox := Function.update x.outbox core rest
        journal := x.journal.append core r }
  | .respond =>
    match x.unread with
    | [] => none
    | (_, resp) :: _ => some { x with
        service := x.service.step (.respond resp)
        journal := x.journal.advance }

/-- A move that can happen is a step. -/
theorem Step.of_next (K : Live σ → Event σ → Prop) {J : Live σ → Nat → Prop} {x x' : Live σ} {move : Move}
    (hJ : ∀ core, move = .journal core → J x core) (h : x.next move = some x') : Step K J x x' := by
  cases move with
  | poll core =>
    unfold next at h
    dsimp only at h
    split at h
    · cases h
    · rename_i client req rest hring
      split at h
      · cases h
      · rename_i e new hrun
        obtain rfl := Option.some.inj h
        exact .poll x hring hrun
  | journal core =>
    unfold next at h
    dsimp only at h
    split at h
    · cases h
    · rename_i r rest hout
      obtain rfl := Option.some.inj h
      exact .journal x (hJ core rfl) hout
  | respond =>
    unfold next at h
    dsimp only at h
    split at h
    · cases h
    · rename_i sender resp rest hread
      obtain rfl := Option.some.inj h
      exact .respond x hread

/-- An append passes a test; the other moves always do. -/
def Move.passes (J : Nat → Bool) : Move → Bool
  | .journal core => J core
  | _ => true

/-- Makes moves one after the other, as long as they pass the test. -/
def moveAll (J : Live σ → Nat → Bool) : List Move → Live σ → Option (Live σ)
  | [], x => some x
  | move :: moves, x =>
    if move.passes (J x) then (x.next move).bind (moveAll J moves) else none

/-- A run that goes on without the sessions, with a property that can be tested. -/
theorem Run.of_moves {K : Live σ → Event σ → Prop} {J' : Live σ → Nat → Prop} {cfgs : Nat → List Config}
    {x : Live σ} (h : Run K J' cfgs x) (J : Live σ → Nat → Bool)
    (hJ : ∀ x core, J x core = true → J' x core) (moves : List Move) (P : Live σ → Bool)
    (hP : (moveAll J moves x).any P = true) : ∃ x', Run K J' cfgs x' ∧ P x' = true := by
  induction moves generalizing x with
  | nil => exact ⟨x, h, hP⟩
  | cons move moves ih =>
    rw [moveAll] at hP
    split at hP
    · rename_i hpass
      cases hnext : x.next move with
      | none =>
        rw [hnext] at hP
        cases hP
      | some x₁ =>
        rw [hnext] at hP
        refine ih (h.step (.of_next K (fun core hmove => hJ x core ?_) hnext)) hP
        subst hmove
        exact hpass
    · cases hP

/-- The sample engine behind one ring, and a process that was just started. -/
def sample : Live Nat where
  service := .start System.sample.manager (fun _ => 0) fun _ => 0
  rings := fun _ => []
  engines := fun core => .create (System.sampleCfgs core) id
  outbox := fun _ => []
  journal := .empty

theorem sample_initial : Initial System.sampleCfgs sample :=
  ⟨⟨_, _, _, rfl⟩, fun _ => rfl, fun _ => rfl, rfl, fun _ => ⟨id, rfl⟩⟩

/-- Session 1 logs on as client 1. -/
def logon1 : Event Nat := .message 1 ⟨.admin .logOn 1 0, 1⟩ .quiet

/-- It sends an order. -/
def order1 : OrderRequest := sampleRequest .new 1 .sell 20 7

/-- The sample after the logon. -/
def logged : Live Nat := { sample with service := sample.service.step logon1 }

/-- And after the order. -/
def ordered : Live Nat := { logged with
  service := logged.service.step (.message 1 ⟨.order order1, 2⟩ .quiet)
  rings := Function.update logged.rings 0 [(1, order1)] }

theorem logged_admits : logged.service.Admitted 1 2 order1 .quiet :=
  ⟨by decide, by decide, by decide, rfl⟩

theorem ordered_run {K : Live Nat → Event Nat → Prop} {J : Live Nat → Nat → Prop} (hlogon : K sample logon1)
    (horder : K logged (.message 1 ⟨.order order1, 2⟩ .quiet)) : Run K J System.sampleCfgs ordered := by
  have hlogged : Run K J System.sampleCfgs logged :=
    (Run.initial sample_initial).step (.session sample logon1 hlogon trivial)
  exact hlogged.step (.order logged 1 2 order1 .quiet horder logged_admits (by decide))

theorem logged_own : logged.Own (.message 1 ⟨.order order1, 2⟩ .quiet) := fun _ => ⟨by decide, by decide⟩

/-- The answer comes while session 1 is there. -/
theorem response_reaches_session : ∃ x, Run (fun x e => x.Own e ∧ x.Timely e) AtEnd System.sampleCfgs x ∧
    x.unread.map (fun r => (r.2.clientId, r.2.execType)) = [(1, .new)] ∧
    x.service.manager.clients 1 = some 1 ∧ x.Reaches := by
  have hrun : Run (fun x e => x.Own e ∧ x.Timely e) AtEnd System.sampleCfgs ordered := by
    refine ordered_run ⟨trivial, fun _ => ⟨fun core s hs => ?_, fun s hs => ?_⟩⟩ ⟨logged_own, fun _ s hs => ?_⟩
    · exact absurd hs List.not_mem_nil
    · cases hs
    · revert s
      decide
  obtain ⟨x, hx, hP⟩ := hrun.of_moves (fun x core => decide (AtEnd x core))
    (fun _ _ h => of_decide_eq_true h) [.poll 0, .journal 0]
    (fun x => x.unread.map (fun r => (r.2.clientId, r.2.execType)) = [(1, .new)] ∧
      x.service.manager.clients 1 = some 1) (by decide +kernel)
  obtain ⟨hunread, hclients⟩ := of_decide_eq_true hP
  exact ⟨x, hx, hunread, hclients, responses_reach_session hx⟩

/-- Session 1 is closed, and client 1 logs on again, as session 2, before the answer to its order
is read: the answer goes to session 1. -/
theorem response_misses_session : ∃ x, Run Own (fun _ _ => True) System.sampleCfgs x ∧
    x.service.manager.clients 1 = some 2 ∧ (∃ resp, x.unread = [(1, resp)] ∧ resp.clientId = 1 ∧
      (x.service.step (.respond resp)).log.getLast? = some (.sent 1 ⟨.order resp, 2⟩)) ∧
    ¬ x.Reaches := by
  have hordered : Run Own (fun _ _ => True) System.sampleCfgs ordered := ordered_run trivial logged_own
  have hclosed := hordered.step (.session ordered (.close 1) trivial trivial)
  have hagain := hclosed.step (.session _ (.message 2 ⟨.admin .logOn 1 1, 3⟩ .quiet) trivial trivial)
  obtain ⟨x, hx, hP⟩ := hagain.of_moves (fun _ _ => true) (fun _ _ _ => trivial) [.poll 0, .journal 0]
    (fun x => x.service.manager.clients 1 = some 2 ∧ x.unread.length = 1 ∧
      x.unread.all fun r => r.1 = 1 ∧ r.2.clientId = 1 ∧
        (x.service.step (.respond r.2)).log.getLast? = some (.sent 1 ⟨.order r.2, 2⟩)) (by decide +kernel)
  obtain ⟨hclients, hlen, hall⟩ := of_decide_eq_true hP
  obtain ⟨⟨sender, resp⟩, hunread⟩ := List.length_eq_one_iff.mp hlen
  rw [hunread, List.all_cons, List.all_nil, Bool.and_true] at hall
  obtain ⟨hsender, hclient, hlog⟩ := of_decide_eq_true hall
  obtain rfl : sender = 1 := hsender
  refine ⟨x, hx, hclients, ⟨resp, hunread, hclient, hlog⟩, fun hreaches => ?_⟩
  have hsent := hreaches 1 resp [] 2 hunread (hclient ▸ hclients)
  rw [hsent, List.getLast?_append, List.getLast?_singleton] at hlog
  cases hlog

end Live

end Exchange.Gateway
