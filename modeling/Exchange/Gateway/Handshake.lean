import Exchange.Client.OrderEntry
import Exchange.Lib.Channel

/-!
# Both ends of a connection

An `OrderEntryClient` and the process it is connected to: the logon, the answer to a refusal, and
the numbers on the connection from then on. `Link` is the client, the process, and what is on its way
in each direction; a web socket neither loses nor reorders. Everything else that can happen to the
process happens between any two messages: other connections, under the same client id too, records
read from the journal, and those the database files.

The connection is looked at while it stands, in one life of the process. One thing other connections
can do is left out: a logon under the id of this session that is refused takes a number of this
session, and its answer goes elsewhere (`Aside`).

`Beside` is what the others do to a connection, one lemma for each function. `Phase` says where the
handshake is. Then:

* `client_never_out_of_step`: no message ever comes with a number the client does not wait for;
* `sequence_numbers_agree`: a session's requests bear the numbers the process expects, and with nothing on its way
  both ends have the same numbers.
-/

namespace Exchange.Gateway

open Lib

variable {σ : Type} [DecidableEq σ]

/-- An answer a session may get once it is ready. -/
def ClientResponseData.Ordinary : ClientResponseData → Prop
  | .admin type _ _ code => type = .reject ∧ code = .loginAtOtherSession
  | _ => True

/-- The next answer. -/
def NextAnswer (n : Nat) (m : ClientResponse) (n' : Nat) : Prop :=
  m.msgSeqNum = n + 1 ∧ m.data.Ordinary ∧ n' = n + 1

/-- The message an entry puts on a connection. -/
def Entry.on (conn : σ) : Entry σ → Option ClientResponse
  | .sent client msg => if client = conn then some msg else none
  | _ => none

/-- The messages that were sent on a connection. -/
def messagesOn (conn : σ) (log : List (Entry σ)) : List ClientResponse := log.filterMap (Entry.on conn)

/-- The messages on a connection, over two stretches of the log. -/
theorem messagesOn_append (conn : σ) (l l' : List (Entry σ)) :
    messagesOn conn (l ++ l') = messagesOn conn l ++ messagesOn conn l' := List.filterMap_append

theorem messagesOn_sent (conn client : σ) (msg : ClientResponse) :
    messagesOn conn [.sent client msg] = if client = conn then [msg] else [] := by
  unfold messagesOn
  by_cases hc : client = conn
  · have hon : Entry.on conn (.sent client msg) = some msg := if_pos hc
    rw [if_pos hc, List.filterMap_cons_some hon]
    rfl
  · have hon : Entry.on conn (.sent client msg) = none := if_neg hc
    rw [if_neg hc, List.filterMap_cons_none hon]
    rfl

/-- A message on another connection. -/
theorem messagesOn_snoc_ne {conn client : σ} (hne : client ≠ conn) (l : List (Entry σ)) (msg : ClientResponse) :
    messagesOn conn (l ++ [.sent client msg]) = messagesOn conn l := by
  rw [messagesOn_append, messagesOn_sent, if_neg hne, List.append_nil]

/-- An entry that is no message. -/
theorem messagesOn_snoc_none {conn : σ} (l : List (Entry σ)) {x : Entry σ} (hx : x.on conn = none) :
    messagesOn conn (l ++ [x]) = messagesOn conn l := by
  rw [messagesOn_append]
  show _ ++ List.filterMap _ [x] = _
  rw [List.filterMap_cons_none hx]
  exact List.append_nil _

/-- No queue holds the connection, and no id is registered for it. -/
structure ClientManager.Free (conn : σ) (m : ClientManager σ) : Prop where
  queues : ∀ core, conn ∉ m.pendingOrderClients core
  last : m.lastPoppedClient ≠ some conn
  clients : ∀ id, m.clients id ≠ some conn

/-- A connection that has no session, and never had. -/
def Service.Untouched (conn : σ) (g : Service σ) : Prop := g.manager.Free conn ∧ g.ready conn = false

/-! ## What the others do to a connection -/

/-- Nothing has happened to a connection, but that it was sent the next messages; nothing at all, if it
was untouched. -/
structure Beside (conn : σ) (g g' : Service σ) (ms : List ClientResponse) : Prop where
  log : messagesOn conn g'.log = messagesOn conn g.log ++ ms
  numbers : Carries NextAnswer (g.outboundSeqNum conn) ms (g'.outboundSeqNum conn)
  inbound : g'.inboundSeqNum conn = g.inboundSeqNum conn
  ready : g'.ready conn = g.ready conn
  untouched : g.Untouched conn → g'.Untouched conn ∧ ms = []

namespace Beside

variable {conn client : σ} {g g' g'' : Service σ} {ms ms' : List ClientResponse}

/-- Nothing at all. -/
theorem quiet (hlog : messagesOn conn g'.log = messagesOn conn g.log)
    (hout : g'.outboundSeqNum conn = g.outboundSeqNum conn)
    (hin : g'.inboundSeqNum conn = g.inboundSeqNum conn) (hready : g'.ready conn = g.ready conn)
    (hfree : g.manager.Free conn → g'.manager.Free conn) : Beside conn g g' [] :=
  ⟨by rw [hlog, List.append_nil], hout, hin, hready, fun h => ⟨⟨hfree h.1, hready.trans h.2⟩, rfl⟩⟩

theorem refl (conn : σ) (g : Service σ) : Beside conn g g [] := quiet rfl rfl rfl rfl id

/-- One thing after another beside the connection. -/
theorem trans (h : Beside conn g g' ms) (h' : Beside conn g' g'' ms') :
    Beside conn g g'' (ms ++ ms') := by
  refine ⟨by rw [h'.log, h.log, List.append_assoc], h.numbers.append h'.numbers,
    h'.inbound.trans h.inbound, h'.ready.trans h.ready, fun hfree => ?_⟩
  obtain ⟨hfree', hms⟩ := h.untouched hfree
  obtain ⟨hfree'', hms'⟩ := h'.untouched hfree'
  exact ⟨hfree'', by rw [hms, hms']; rfl⟩

/-- A manager and the rest of a process, as far as the connection is concerned. -/
theorem manager (m : ClientManager σ) (hfree : g.manager.Free conn → m.Free conn) :
    Beside conn g { g with manager := m } [] := quiet rfl rfl rfl rfl hfree

/-- A message that takes its connection's number. -/
theorem sendNext {data : ClientResponseData}
    (hown : client = conn → data.Ordinary ∧ ¬ g.Untouched conn) :
    ∃ ms, Beside conn g (g.sendNext client data) ms := by
  have hlog : messagesOn conn (g.sendNext client data).log = messagesOn conn g.log ++
      messagesOn conn [.sent client ⟨data, g.outboundSeqNum client + 1⟩] := messagesOn_append _ _ _
  rw [messagesOn_sent] at hlog
  by_cases hc : client = conn
  · subst hc
    obtain ⟨hdata, hbusy⟩ := hown rfl
    rw [if_pos rfl] at hlog
    refine ⟨_, hlog, Carries.single ⟨rfl, hdata, ?_⟩, rfl, rfl, fun hfree => absurd hfree hbusy⟩
    exact Function.update_self _ _ _
  · rw [if_neg hc, List.append_nil] at hlog
    exact ⟨[], quiet hlog (Function.update_of_ne (Ne.symm hc) _ _) rfl rfl id⟩

theorem sendAll {resps : List OrderResponse} (hown : client = conn → ¬ g.Untouched conn) :
    ∃ ms, Beside conn g (resps.foldl (fun g resp => g.sendNext client (.order resp)) g) ms := by
  induction resps generalizing g with
  | nil => exact ⟨[], refl conn g⟩
  | cons resp resps ih =>
    obtain ⟨ms, h⟩ : ∃ ms, Beside conn g (g.sendNext client (.order resp)) ms :=
      sendNext fun hc => ⟨trivial, hown hc⟩
    obtain ⟨ms', h'⟩ := ih (g := g.sendNext client (.order resp)) hown
    exact ⟨_, h.trans h'⟩

/-- The answer to a logon goes to where the logon came from. -/
theorem rejectLogon (hne : client ≠ conn) {clientId : UInt32} (hreg : g.manager.clients clientId ≠ some conn) :
    Beside conn g (g.rejectLogon client clientId) [] := by
  unfold Service.rejectLogon
  dsimp only
  split
  · rename_i old hold
    have hold' : conn ≠ old := fun hc => hreg (by rw [hold, hc])
    exact quiet (messagesOn_snoc_ne hne _ _) (Function.update_of_ne hold' _ _) rfl rfl id
  · exact quiet (messagesOn_snoc_ne hne _ _) rfl rfl rfl id

/-- The session that is replaced gets one more message. -/
theorem takeOver (hne : client ≠ conn) (clientId : UInt32) :
    ∃ ms, Beside conn g (g.takeOver client clientId) ms := by
  unfold Service.takeOver
  split
  · exact ⟨[], refl conn g⟩
  · rename_i old hold
    dsimp only
    split
    · rename_i hc
      have hold' : conn ≠ old := by
        rw [hc]
        exact Ne.symm hne
      exact ⟨[], quiet rfl (Function.update_of_ne hold' _ _) rfl rfl id⟩
    · have hshared : g.sharedMsgSeqNum clientId = g.outboundSeqNum old + 1 := by
        unfold Service.sharedMsgSeqNum Service.expectedAckSeqNum
        rw [hold]
      rw [hshared]
      have hreplaced : Beside conn (g.sendNext old (.admin .reject clientId (g.expectedMsgSeqNum clientId)
          .loginAtOtherSession)) ((g.sendNext old (.admin .reject clientId (g.expectedMsgSeqNum clientId)
          .loginAtOtherSession)).note [.replaced old clientId]) [] :=
        quiet (messagesOn_snoc_none _ rfl) rfl rfl rfl id
      obtain ⟨ms, hsent⟩ : ∃ ms, Beside conn g (g.sendNext old (.admin .reject clientId
          (g.expectedMsgSeqNum clientId) .loginAtOtherSession)) ms :=
        sendNext fun hc => ⟨⟨rfl, rfl⟩, fun hfree => hfree.1.clients clientId (by rw [hold, hc])⟩
      have hboth := hsent.trans hreplaced
      unfold Service.sendNext Service.send Service.note at hboth
      rw [List.append_assoc] at hboth
      exact ⟨_, hboth⟩

theorem register (hne : client ≠ conn) (clientId : UInt32) (msgSeqNum shared : Nat) :
    Beside conn g (g.register client clientId msgSeqNum shared) [] := by
  refine quiet (messagesOn_snoc_none _ rfl) (Function.update_of_ne (Ne.symm hne) _ _)
    (Function.update_of_ne (Ne.symm hne) _ _) rfl fun hfree => ⟨hfree.queues, hfree.last, fun id => ?_⟩
  show Function.update g.manager.clients clientId (some client) id ≠ some conn
  by_cases hid : id = clientId
  · rw [hid, Function.update_self]
    exact fun h => hne (Option.some.inj h)
  · rw [Function.update_of_ne hid]
    exact hfree.clients id

theorem resend (hne : client ≠ conn) (ackSeqNum : Nat) (missed : List OrderResponse) :
    Beside conn g (g.resend client ackSeqNum missed) [] := by
  refine quiet ?_ rfl rfl rfl id
  show messagesOn conn (g.log ++ _) = _
  rw [messagesOn_append]
  refine (congrArg _ (List.filterMap_eq_nil_iff.mpr fun x hx => ?_)).trans (List.append_nil _)
  obtain ⟨r, -, rfl⟩ := List.mem_map.mp hx
  exact if_neg hne

theorem makeReady (hne : client ≠ conn) (clientId : UInt32) (expected shared : Nat) :
    Beside conn g (g.makeReady client clientId expected shared) [] :=
  quiet (messagesOn_snoc_ne hne _ _) rfl rfl (Function.update_of_ne (Ne.symm hne) _ _) id

/-- A logon from another connection, unless it is refused and this one is registered under the id. -/
theorem handleClientLogon (hne : client ≠ conn) {clientId : UInt32} {msgSeqNum ackSeqNum : Nat}
    {missed : List OrderResponse}
    (hseamless : g.manager.clients clientId = some conn → g.accepts clientId msgSeqNum ackSeqNum = true) :
    ∃ ms, Beside conn g (g.handleClientLogon client clientId msgSeqNum ackSeqNum missed) ms := by
  unfold Service.handleClientLogon
  split
  · obtain ⟨ms, htaken⟩ := takeOver (g := g) hne clientId
    exact ⟨_, ((htaken.trans (register hne _ _ _)).trans (resend hne _ _)).trans (makeReady hne _ _ _)⟩
  · rename_i hrefused
    exact ⟨[], rejectLogon hne fun hreg => hrefused (hseamless hreg)⟩

theorem forget : Beside conn g (g.forget client) [] := by
  unfold Service.forget
  split
  · exact quiet rfl rfl rfl rfl fun hfree => ⟨hfree.queues, nofun, hfree.clients⟩
  · exact refl conn g

theorem unregister (clientId : UInt32) : Beside conn g (g.unregister client clientId) [] := by
  refine quiet (messagesOn_snoc_none _ rfl) rfl rfl rfl fun hfree => ⟨hfree.queues, hfree.last, fun id => ?_⟩
  show Function.update g.manager.clients clientId none id ≠ some conn
  by_cases hid : id = clientId
  · rw [hid, Function.update_self]
    nofun
  · rw [Function.update_of_ne hid]
    exact hfree.clients id

theorem handleClientLogout : Beside conn g (g.handleClientLogout client) [] := by
  unfold Service.handleClientLogout
  dsimp only
  split
  · exact refl conn g
  · split
    · exact (unregister _).trans forget
    · exact forget

theorem onClose : Beside conn g (g.onClose client) [] := by
  unfold Service.onClose
  split
  · exact refl conn g
  · have hflag : Beside conn g { g with closed := Function.update g.closed client true } [] :=
      quiet rfl rfl rfl rfl id
    exact (hflag.trans handleClientLogout).trans (quiet (messagesOn_snoc_none _ rfl) rfl rfl rfl id)

omit [DecidableEq σ] in
/-- Who gets a record is in the registry or was in a queue. -/
theorem not_free_of_responded {m : ClientManager σ} {resp : OrderResponse}
    (h : (m.handleExecutionResponse resp).2 = some conn) : ¬ (m.handleExecutionResponse resp).1.Free conn := by
  intro hfree
  have hclients := hfree.clients resp.clientId
  have hlast := hfree.last
  unfold ClientManager.handleExecutionResponse at h hclients hlast
  dsimp only at h hclients hlast
  rcases Option.or_eq_some_iff.mp h with hfound | ⟨-, hreg⟩
  · split at hfound
    · rename_i hexec
      rw [if_pos hexec] at hlast
      revert hfound hlast
      unfold ClientManager.popPending
      split
      · nofun
      · split
        · nofun
        · exact fun hlast hfound => hlast hfound
    · rename_i hexec
      rw [if_neg hexec] at hlast
      exact hlast (Option.filter_eq_some_iff.mp hfound).1
  · exact hclients hreg

omit [DecidableEq σ] in
/-- Routing a response leaves a connection that waits for nothing free. -/
theorem free_handleExecutionResponse {m : ClientManager σ} (hfree : m.Free conn) (resp : OrderResponse) :
    (m.handleExecutionResponse resp).1.Free conn := by
  unfold ClientManager.handleExecutionResponse
  dsimp only
  split
  · unfold ClientManager.popPending
    split
    · exact hfree
    · rename_i core hcore
      split
      · exact hfree
      · rename_i head rest hqueue
        have hmem := hfree.queues core
        rw [hqueue] at hmem
        refine ⟨fun core' => ?_, fun hlast => ?_, hfree.clients⟩
        · show conn ∉ Function.update m.pendingOrderClients core rest core'
          by_cases hc : core' = core
          · rw [hc, Function.update_self]
            exact fun hrest => hmem (List.mem_cons_of_mem _ hrest)
          · rw [Function.update_of_ne hc]
            exact hfree.queues core'
        · obtain rfl := Option.some.inj hlast
          exact hmem List.mem_cons_self
  · exact hfree

theorem handleExecutionResponse (resp : OrderResponse) :
    ∃ ms, Beside conn g (g.handleExecutionResponse resp) ms := by
  have hmanager : Beside conn g { g with manager := (g.manager.handleExecutionResponse resp).1 } [] :=
    manager _ fun hfree => free_handleExecutionResponse hfree resp
  unfold Service.handleExecutionResponse
  dsimp only
  split
  · exact ⟨_, hmanager⟩
  · rename_i client hclient
    obtain ⟨ms, hsent⟩ : ∃ ms, Beside conn { g with manager := (g.manager.handleExecutionResponse resp).1 }
        (Service.sendNext { g with manager := (g.manager.handleExecutionResponse resp).1 } client (.order resp))
        ms :=
      sendNext fun hc => ⟨trivial, fun hfree => not_free_of_responded (by rw [hclient, hc]) hfree.1⟩
    exact ⟨_, hmanager.trans hsent⟩

theorem placeOrder (hown : client = conn → ¬ g.Untouched conn) (msgSeqNum : Nat) (req : OrderRequest)
    (room : Bool) : Beside conn g (g.placeOrder client msgSeqNum req room) [] := by
  unfold Service.placeOrder
  split
  · exact refl conn g
  · rename_i core hring
    split
    · refine ⟨(messagesOn_snoc_none _ rfl).trans (List.append_nil _).symm, rfl, rfl, rfl, fun huntouched => ?_⟩
      have hfree := huntouched.1
      refine ⟨⟨⟨fun core' => ?_, hfree.last, hfree.clients⟩, huntouched.2⟩, rfl⟩
      show conn ∉ Function.update g.manager.pendingOrderClients core
        (g.manager.pendingOrderClients core ++ [client]) core'
      by_cases hc : core' = core
      · rw [hc, Function.update_self]
        intro hmem
        rcases List.mem_append.mp hmem with hmem | hmem
        · exact hfree.queues core hmem
        · exact hown (List.mem_singleton.mp hmem).symm huntouched
      · rw [Function.update_of_ne hc]
        exact hfree.queues core'
    · exact refl conn g

end Beside

/-! ## Requests -/

namespace Service

variable {conn client : σ} {g : Service σ}

/-- The switch at the end of `process_client_request`. -/
def serve (g : Service σ) (client : σ) (request : ClientRequest) (answers : Answers) : Service σ :=
  match request.data with
  | .order req => g.placeOrder client request.msgSeqNum req answers.room
  | .position clientId symbolId => g.sendNext client (.position clientId symbolId answers.position)
  | .openOrders _ => answers.openOrders.foldl (fun g resp => g.sendNext client (.order resp)) g
  | _ => g

/-- A request that is no logon or logout: before the logon it is dropped, with a wrong number it is
refused. -/
theorem processClientRequest_plain {request : ClientRequest} (hplain : request.Plain) (answers : Answers) :
    g.processClientRequest client request answers =
      if ¬ g.ready client then g
      else if request.msgSeqNum ≠ g.inboundSeqNum client + 1 then
        g.sendNext client (.admin .reject (g.manager.clientId client) (g.inboundSeqNum client + 1)
          .invalidSequenceNumber)
      else (g.incrementInboundSeqNum client).serve client request answers := by
  obtain ⟨data, n⟩ := request
  cases data with
  | admin action clientId ackSeqNum => exact absurd rfl (hplain action clientId ackSeqNum)
  | order _ | position _ _ | openOrders _ | other => rfl

theorem beside_serve (hown : client = conn → ¬ g.Untouched conn) (request : ClientRequest)
    (answers : Answers) : ∃ ms, Beside conn g (g.serve client request answers) ms := by
  obtain ⟨data, n⟩ := request
  cases data with
  | admin _ _ _ | other => exact ⟨[], .refl conn g⟩
  | order req => exact ⟨[], .placeOrder hown n req answers.room⟩
  | position _ _ => exact Beside.sendNext fun hc => ⟨trivial, hown hc⟩
  | openOrders _ => exact Beside.sendAll hown

/-- What can happen elsewhere while a connection stands: messages on other connections, but for a logon
that is refused under the id this one is registered for. -/
def Aside (conn : σ) (g : Service σ) : Event σ → Prop
  | .message client ⟨.admin .logOn clientId ackSeqNum, msgSeqNum⟩ _ =>
    client ≠ conn ∧
      (g.manager.clients clientId = some conn → g.accepts clientId msgSeqNum ackSeqNum = true)
  | .message client _ _ => client ≠ conn
  | .close client => client ≠ conn
  | .writeFailed client => client ≠ conn
  | .restart => False
  | _ => True

omit [DecidableEq σ] in
/-- Events aside are other connections'. -/
theorem Aside.client_ne {request : ClientRequest} {answers : Answers}
    (h : g.Aside conn (.message client request answers)) : client ≠ conn := by
  obtain ⟨data, n⟩ := request
  cases data with
  | admin action _ _ =>
    cases action with
    | logOn => exact h.1
    | logOut | other _ => exact h
  | order _ | position _ _ | openOrders _ | other => exact h

/-- A request from another connection. -/
theorem beside_plain (hne : client ≠ conn) {request : ClientRequest} (hplain : request.Plain)
    (answers : Answers) : ∃ ms, Beside conn g (g.processClientRequest client request answers) ms := by
  rw [processClientRequest_plain hplain]
  split
  · exact ⟨[], .refl conn g⟩
  split
  · exact Beside.sendNext fun hc => absurd hc hne
  · have hcount : Beside conn g (g.incrementInboundSeqNum client) [] :=
      .quiet rfl rfl (Function.update_of_ne (Ne.symm hne) _ _) rfl id
    obtain ⟨ms, hserve⟩ : ∃ ms, Beside conn (g.incrementInboundSeqNum client)
        ((g.incrementInboundSeqNum client).serve client request answers) ms :=
      beside_serve (fun hc => absurd hc hne) request answers
    exact ⟨_, hcount.trans hserve⟩

/-- Whatever happens elsewhere. -/
theorem beside_step {e : Event σ} (he : g.Aside conn e) : ∃ ms, Beside conn g (g.step e) ms := by
  cases e with
  | message client request answers =>
    have hne := he.client_ne
    by_cases hplain : request.Plain
    · exact beside_plain hne hplain answers
    · obtain ⟨data, n⟩ := request
      cases data with
      | admin action clientId ackSeqNum =>
        cases action with
        | logOn => exact Beside.handleClientLogon hne he.2
        | logOut => exact ⟨[], .handleClientLogout⟩
        | other code => exact ⟨[], .refl conn g⟩
      | order _ | position _ _ | openOrders _ | other => exact absurd (fun _ _ _ => nofun) hplain
  | close client => exact ⟨[], .onClose⟩
  | writeFailed client => exact ⟨[], .quiet rfl rfl rfl rfl id⟩
  | respond resp => exact Beside.handleExecutionResponse resp
  | updated resp logOffset => exact ⟨[], .quiet (messagesOn_snoc_none _ rfl) rfl rfl rfl id⟩
  | restart => exact absurd he not_false

end Service

/-! ## What the logon of an untouched connection does -/

/-- The answer to a logon with wrong numbers. -/
def refusal (clientId : UInt32) (expected msgSeqNum : Nat) : ClientResponse :=
  ⟨.admin .reject clientId expected .invalidSequenceNumber, msgSeqNum⟩

/-- What a client waits for: the next number, or an admin message, which sets it. A session is not
refused any more. -/
def Awaited (n : Nat) (m : ClientResponse) (n' : Nat) : Prop :=
  n' = m.msgSeqNum ∧
    match m.data with
    | .admin type _ _ code => type = .reject → code = .loginAtOtherSession
    | _ => m.msgSeqNum = n + 1

/-- The next answer is an awaited one. -/
theorem NextAnswer.awaited {n n' : Nat} {m : ClientResponse} (h : NextAnswer n m n') : Awaited n m n' := by
  obtain ⟨hnum, hdata, rfl⟩ := h
  obtain ⟨data, k⟩ := m
  refine ⟨hnum.symm, ?_⟩
  cases data with
  | admin type clientId expected code => exact fun _ => hdata.2
  | order _ | position _ _ _ => exact hnum

/-- The missed responses come with the numbers after the acknowledged one. -/
theorem carries_resent (missed : List OrderResponse) (ackSeqNum : Nat) :
    Carries Awaited ackSeqNum ((missed.zipIdx (ackSeqNum + 1)).map fun r => ⟨.order r.1, r.2⟩)
      (ackSeqNum + missed.length) := by
  induction missed generalizing ackSeqNum with
  | nil => rfl
  | cons resp missed ih =>
    refine ⟨ackSeqNum + 1, ⟨rfl, rfl⟩, ?_⟩
    have hrest := ih (ackSeqNum + 1)
    rw [show ackSeqNum + 1 + missed.length = ackSeqNum + (resp :: missed).length by
      rw [List.length_cons]; omega] at hrest
    exact hrest

namespace Service

variable {conn : σ} {g : Service σ}

/-- Missed responses are resent with the numbers that follow the acknowledged one. -/
theorem messagesOn_resend (g : Service σ) (conn : σ) (ackSeqNum : Nat) (missed : List OrderResponse) :
    messagesOn conn (g.resend conn ackSeqNum missed).log = messagesOn conn g.log ++
      (missed.zipIdx (ackSeqNum + 1)).map fun r => ⟨.order r.1, r.2⟩ := by
  refine (messagesOn_append _ _ _).trans (congrArg _ ?_)
  unfold messagesOn
  rw [List.filterMap_map]
  have hon : ∀ r : OrderResponse × Nat, (Entry.on conn ∘ fun r : OrderResponse × Nat =>
      Entry.sent conn ⟨.order r.1, r.2⟩) r = some ⟨.order r.1, r.2⟩ := fun _ => if_pos rfl
  rw [funext hon, List.filterMap_eq_map']

/-- A logon that is accepted: the missed responses and Ready are sent, and the numbers are those the
logon and Ready bear. -/
theorem logon_accepted (hfree : g.Untouched conn) {clientId : UInt32} {msgSeqNum ackSeqNum : Nat}
    (missed : List OrderResponse) (hacc : g.accepts clientId msgSeqNum ackSeqNum = true) :
    let g' := g.handleClientLogon conn clientId msgSeqNum ackSeqNum missed
    ∃ ms m, messagesOn conn g'.log = messagesOn conn g.log ++ (ms ++ [m]) ∧ m.isReady = true ∧
      (∀ m ∈ ms, m.isReady = false) ∧
      Carries Awaited ackSeqNum (ms ++ [m]) (g'.outboundSeqNum conn) ∧
      g'.inboundSeqNum conn = msgSeqNum ∧ g'.ready conn = true := by
  intro g'
  have hg' : g' = (((g.takeOver conn clientId).register conn clientId msgSeqNum
      (g.sharedMsgSeqNum clientId)).resend conn ackSeqNum missed).makeReady conn clientId
      (g.expectedMsgSeqNum clientId) (g.sharedMsgSeqNum clientId) := if_pos hacc
  have htaken : messagesOn conn (g.takeOver conn clientId).log = messagesOn conn g.log := by
    unfold takeOver
    split
    · rfl
    · rename_i old hold
      have hne : old ≠ conn := fun hc => hfree.1.clients clientId (by rw [hold, hc])
      dsimp only
      rw [if_neg hne]
      show messagesOn conn (g.log ++ ([_] ++ [_])) = _
      rw [← List.append_assoc, messagesOn_snoc_none _ rfl, messagesOn_snoc_ne hne]
  have hout : g'.outboundSeqNum conn = g.sharedMsgSeqNum clientId := by
    rw [hg']
    exact Function.update_self _ _ _
  refine ⟨_, ⟨.admin .ready clientId (g.expectedMsgSeqNum clientId) .none, g.sharedMsgSeqNum clientId⟩,
    ?_, rfl, ?_, (carries_resent missed ackSeqNum).snoc ⟨hout, nofun⟩, ?_, ?_⟩
  · rw [hg']
    refine (messagesOn_append _ _ _).trans ?_
    rw [messagesOn_sent, if_pos rfl]
    show messagesOn conn (Service.resend _ conn ackSeqNum missed).log ++ _ = _
    rw [messagesOn_resend, List.append_assoc]
    refine congrArg (· ++ _) (Eq.trans ?_ htaken)
    exact messagesOn_snoc_none _ rfl
  · intro m hm
    obtain ⟨r, -, rfl⟩ := List.mem_map.mp hm
    rfl
  · rw [hg']
    exact Function.update_self _ _ _
  · rw [hg']
    exact Function.update_self _ _ _

/-- A logon that is refused: the answer says which number is expected, and takes the id's next one. -/
theorem logon_refused (hfree : g.Untouched conn) {clientId : UInt32} {msgSeqNum ackSeqNum : Nat}
    (missed : List OrderResponse) (hacc : ¬ g.accepts clientId msgSeqNum ackSeqNum = true) :
    let g' := g.handleClientLogon conn clientId msgSeqNum ackSeqNum missed
    messagesOn conn g'.log = messagesOn conn g.log ++
        [refusal clientId (g.expectedMsgSeqNum clientId) (g.sharedMsgSeqNum clientId)] ∧
      g'.Untouched conn ∧ g'.expectedMsgSeqNum clientId = g.expectedMsgSeqNum clientId ∧
      g'.expectedAckSeqNum clientId = g.sharedMsgSeqNum clientId := by
  intro g'
  have hg' : g' = g.rejectLogon conn clientId := if_neg hacc
  rw [hg']
  unfold rejectLogon sharedMsgSeqNum expectedAckSeqNum expectedMsgSeqNum refusal
  dsimp only
  cases hold : g.manager.clients clientId with
  | some old =>
    refine ⟨(messagesOn_append _ _ _).trans (by rw [messagesOn_sent, if_pos rfl]; rfl), ⟨hfree.1, hfree.2⟩, ?_⟩
    have hmanager : (g.incrementOutboundSeqNum old).manager = g.manager := rfl
    simp only [send, note, hmanager, hold]
    exact ⟨rfl, Function.update_self _ _ _⟩
  | none =>
    refine ⟨(messagesOn_append _ _ _).trans (by rw [messagesOn_sent, if_pos rfl]), ⟨hfree.1, hfree.2⟩, ?_⟩
    simp only [send, note, hold]
    exact ⟨trivial, Function.update_self _ _ _⟩

end Service

/-- The numbers of requests that follow each other. -/
theorem numbers_range {n last : Nat} {reqs : List ClientRequest} (h : Carries NextRequest n reqs last) :
    reqs.map (·.msgSeqNum) = List.range' (n + 1) reqs.length ∧ last = n + reqs.length := by
  induction reqs generalizing n with
  | nil => exact ⟨rfl, h⟩
  | cons r reqs ih =>
    obtain ⟨mid, ⟨hnum, -, rfl⟩, hrest⟩ := h
    obtain ⟨hrange, hlast⟩ := ih hrest
    refine ⟨?_, by rw [hlast, List.length_cons]; omega⟩
    rw [List.map_cons, hrange, hnum, List.length_cons, List.range'_succ]

/-! ## The link -/

/-- A client, the process, the messages that are on their way in each direction, and what the handler
has thrown. -/
structure Link (σ : Type) where
  server : Service σ
  client : OrderEntryClient
  up : List ClientRequest
  down : List ClientResponse
  thrown : Option String

/-! ## The handler -/

/-- A message the client waits for: it is numbered, and what is sent in answer is. -/
theorem Awaited.ok {c c' : OrderEntryClient} {out : List ClientRequest} {m : ClientResponse} {n : Nat}
    (h : Awaited c.iSeqNum m n) (hrun : c.onMessage m = .ok (c', out)) :
    { c with iSeqNum := n }.Sends out c' ∧ (m.isReady = true → c'.ready = true) := by
  obtain ⟨rfl, hdata⟩ := h
  obtain ⟨data, k⟩ := m
  unfold OrderEntryClient.onMessage at hrun
  cases data with
  | admin type clientId expected code =>
    cases type with
    | ready =>
      obtain ⟨hsends, hready⟩ := OrderEntryClient.sends_onReady (c := { c with iSeqNum := k })
      obtain ⟨rfl, rfl⟩ := Prod.mk.inj (Except.ok.inj hrun)
      exact ⟨hsends, fun _ => hready⟩
    | reject =>
      obtain rfl : code = .loginAtOtherSession := hdata rfl
      obtain ⟨rfl, rfl⟩ := Prod.mk.inj (Except.ok.inj hrun)
      exact ⟨.nothing rfl rfl rfl id, nofun⟩
  | order r =>
    dsimp only at hrun hdata
    rw [if_neg (not_not.mpr hdata)] at hrun
    rcases OrderEntryClient.onOrderResponse_cases { c with iSeqNum := k } r with hok | ⟨err, herr⟩
    · rw [hok] at hrun
      obtain ⟨rfl, rfl⟩ := Prod.mk.inj (Except.ok.inj hrun)
      exact ⟨.nothing rfl rfl rfl id, nofun⟩
    · rw [herr] at hrun
      cases hrun
  | position clientId symbolId position =>
    dsimp only at hrun hdata
    rw [if_neg (not_not.mpr hdata)] at hrun
    obtain ⟨rfl, rfl⟩ := Prod.mk.inj (Except.ok.inj hrun)
    exact ⟨.nothing rfl rfl rfl id, nofun⟩

/-- Over such a message the handler throws for its price only. -/
theorem Awaited.error {c : OrderEntryClient} {m : ClientResponse} {n : Nat} {err : String}
    (h : Awaited c.iSeqNum m n) (hrun : c.onMessage m = .error err) : err ≠ sequenceNumberMismatch := by
  obtain ⟨rfl, hdata⟩ := h
  obtain ⟨data, k⟩ := m
  unfold OrderEntryClient.onMessage at hrun
  cases data with
  | admin type clientId expected code => cases type <;> cases hrun
  | order r =>
    dsimp only at hrun hdata
    rw [if_neg (not_not.mpr hdata)] at hrun
    rcases OrderEntryClient.onOrderResponse_cases { c with iSeqNum := k } r with hok | ⟨err', herr⟩
    · rw [hok] at hrun
      cases hrun
    · rw [herr] at hrun
      obtain rfl := Except.error.inj hrun
      exact OrderEntryClient.invalidPrice_ne_mismatch err'
  | position clientId symbolId position =>
    dsimp only at hrun hdata
    rw [if_neg (not_not.mpr hdata)] at hrun
    cases hrun

namespace Link

/-- The process has gone on, and what it sent is on its way. -/
def serverStep (conn : σ) (x : Link σ) (e : Event σ) : Link σ :=
  let g := x.server.step e
  { x with
    server := g
    down := x.down ++ (messagesOn conn g.log).drop (messagesOn conn x.server.log).length }

/-- What can happen next. `P` is what the other connections keep to. -/
inductive Step (P : Service σ → Event σ → Prop) (conn : σ) : Link σ → Link σ → Prop
  /-- The owner calls. -/
  | call {x : Link σ} (now : Nat) (k : OrderEntryClient.Call) {c : OrderEntryClient}
      {out : List ClientRequest} (hlive : x.thrown = none) (hcall : x.client.invoke now k = .ok (c, out)) :
      Step P conn x { x with client := c, up := x.up ++ out }
  /-- The process takes the next message from the connection. -/
  | request {x : Link σ} {r : ClientRequest} {rest : List ClientRequest} (answers : Answers)
      (hup : x.up = r :: rest) :
      Step P conn x (serverStep conn { x with up := rest } (.message conn r answers))
  /-- Something happens elsewhere. -/
  | aside {x : Link σ} {e : Event σ} (he : x.server.Aside conn e) (hP : P x.server e) :
      Step P conn x (serverStep conn x e)
  /-- The handler runs on the next message. -/
  | response {x : Link σ} {m : ClientResponse} {rest : List ClientResponse} {c : OrderEntryClient}
      {out : List ClientRequest} (hlive : x.thrown = none) (hrunning : x.client.running = true)
      (hdown : x.down = m :: rest) (hrun : x.client.onMessage m = .ok (c, out)) :
      Step P conn x { x with client := c, up := x.up ++ out, down := rest }
  /-- The handler throws. -/
  | throws {x : Link σ} {m : ClientResponse} {rest : List ClientResponse} {err : String}
      (hlive : x.thrown = none) (hrunning : x.client.running = true) (hdown : x.down = m :: rest)
      (hrun : x.client.onMessage m = .error err) :
      Step P conn x { x with thrown := some err }

/-- `start` has been called, on a connection the process has had no message from. -/
structure Initial (conn : σ) (x : Link σ) : Prop where
  server : ∃ (m : ClientManager σ) (i o : UInt32 → Nat) (events : List (Event σ)),
    x.server = (Service.start m i o).run events ∧
      ∀ e ∈ events, ∀ request answers, e ≠ .message conn request answers
  client : ∃ clientId symbolIds symbolsInfo,
    (x.client, x.up) = (OrderEntryClient.create clientId symbolIds symbolsInfo).logOn
  down : x.down = []
  thrown : x.thrown = none

/-- What can be reached. -/
inductive Reach (P : Service σ → Event σ → Prop) (conn : σ) : Link σ → Prop
  | initial {x : Link σ} (h : Initial conn x) : Reach P conn x
  | step {x x' : Link σ} (h : Reach P conn x) (hstep : Step P conn x x') : Reach P conn x'

/-! ## Where the handshake is -/

/-- Where the handshake is. -/
inductive Phase (conn : σ) (x : Link σ) : Prop
  /-- A logon is on its way. What was sent before it will be dropped, what comes after it follows it. -/
  | asking (early later : List ClientRequest) (n : Nat)
      (hup : x.up = early ++ ⟨.admin .logOn x.client.clientId x.client.iSeqNum, n⟩ :: later)
      (hearly : ∀ r ∈ early, r.Plain) (hlater : Carries NextRequest n later x.client.oSeqNum)
      (hdown : x.down = []) (hfree : x.server.Untouched conn)
  /-- The refusal of a logon is on its way. -/
  | refused (expected n : Nat) (hup : ∀ r ∈ x.up, r.Plain)
      (hdown : x.down = [refusal x.client.clientId expected n]) (hfree : x.server.Untouched conn)
  /-- A logon has been accepted. -/
  | accepted (hup : Carries NextRequest (x.server.inboundSeqNum conn) x.up x.client.oSeqNum)
      (hdown : Carries Awaited x.client.iSeqNum x.down (x.server.outboundSeqNum conn))
      (hready : x.server.ready conn = true)
      (hshown : x.client.ready = true ∨ ∃ m ∈ x.down, m.isReady = true)

variable {conn : σ} {x x' : Link σ} {P : Service σ → Event σ → Prop}

/-- A connection nothing was received from is untouched, and is sent nothing. -/
theorem untouched_step {g : Service σ} (h : g.Untouched conn) {e : Event σ}
    (he : ∀ request answers, e ≠ .message conn request answers) :
    (g.step e).Untouched conn ∧ messagesOn conn (g.step e).log = messagesOn conn g.log := by
  have hbeside : ∀ ms, Beside conn g (g.step e) ms →
      (g.step e).Untouched conn ∧ messagesOn conn (g.step e).log = messagesOn conn g.log := by
    intro ms hms
    obtain ⟨huntouched, rfl⟩ := hms.untouched h
    exact ⟨huntouched, hms.log.trans (List.append_nil _)⟩
  cases e with
  | message client request answers =>
    have hne : client ≠ conn := fun hc => he request answers (by rw [hc])
    have haside : g.Aside conn (.message client request answers) := by
      obtain ⟨data, n⟩ := request
      cases data with
      | admin action clientId _ =>
        cases action with
        | logOn => exact ⟨hne, fun hreg => absurd hreg (h.1.clients clientId)⟩
        | logOut | other _ => exact hne
      | order _ | position _ _ | openOrders _ | other => exact hne
    obtain ⟨ms, hms⟩ := Service.beside_step haside
    exact hbeside ms hms
  | close client => exact hbeside [] .onClose
  | writeFailed client => exact ⟨h, rfl⟩
  | respond resp =>
    obtain ⟨ms, hms⟩ : ∃ ms, Beside conn g (g.handleExecutionResponse resp) ms :=
      Beside.handleExecutionResponse resp
    exact hbeside ms hms
  | updated resp logOffset => exact ⟨h, messagesOn_snoc_none _ rfl⟩
  | restart => exact ⟨⟨⟨fun _ => List.not_mem_nil, nofun, nofun⟩, rfl⟩, messagesOn_snoc_none _ rfl⟩

theorem Initial.untouched (h : Initial conn x) :
    x.server.Untouched conn ∧ messagesOn conn x.server.log = [] := by
  obtain ⟨m, i, o, events, hrun, hothers⟩ := h.server
  rw [hrun]
  have hstart : (Service.start m i o).Untouched conn ∧ messagesOn conn (Service.start m i o).log = [] :=
    ⟨⟨⟨fun _ => List.not_mem_nil, nofun, nofun⟩, rfl⟩, rfl⟩
  revert hstart
  generalize Service.start m i o = g
  clear hrun
  induction events generalizing g with
  | nil => exact id
  | cons e events ih =>
    intro ⟨hg, hlog⟩
    obtain ⟨hg', hlog'⟩ := untouched_step hg (hothers e List.mem_cons_self)
    exact ih (fun e' he' => hothers e' (List.mem_cons_of_mem _ he')) _ ⟨hg', hlog'.trans hlog⟩

theorem Phase.initial (h : Initial conn x) : Phase conn x := by
  obtain ⟨clientId, symbolIds, symbolsInfo, hclient⟩ := h.client
  obtain ⟨hc, hup⟩ := Prod.mk.inj hclient
  refine .asking [] [] 1 ?_ (fun _ hr => absurd hr List.not_mem_nil) ?_ h.down h.untouched.1
  · rw [hup, hc]
    rfl
  · rw [hc]
    rfl

/-! ## One step -/

/-- What the server writes on the connection is what goes down. -/
theorem down_serverStep (conn : σ) (x : Link σ) (e : Event σ) {ms : List ClientResponse}
    (h : messagesOn conn (x.server.step e).log = messagesOn conn x.server.log ++ ms) :
    (serverStep conn x e).down = x.down ++ ms := by
  show x.down ++ List.drop _ (messagesOn conn (x.server.step e).log) = _
  rw [h, List.drop_left]

omit [DecidableEq σ] in
/-- A call adds its requests to those on their way up. -/
theorem Phase.call (h : Phase conn x) {c : OrderEntryClient} {out : List ClientRequest}
    (hsends : x.client.Sends out c) : Phase conn { x with client := c, up := x.up ++ out } := by
  cases h with
  | asking early later n hup hearly hlater hdown hfree =>
    refine .asking early (later ++ out) n ?_ hearly (hlater.append hsends.numbers) hdown hfree
    dsimp only
    rw [hup, hsends.clientId, hsends.iSeqNum, List.append_assoc, List.cons_append]
  | refused expected n hup hdown hfree =>
    refine .refused expected n (fun r hr => ?_) (by dsimp only; rw [hdown, hsends.clientId]) hfree
    rcases List.mem_append.mp hr with hr | hr
    · exact hup r hr
    · exact hsends.numbers.forall_mem (fun _ _ _ hnext => hnext.2.1) r hr
  | accepted hup hdown hready hshown =>
    refine .accepted (hup.append hsends.numbers) ?_ hready ?_
    · dsimp only
      rw [hsends.iSeqNum]
      exact hdown
    · exact hshown.imp hsends.ready id

/-- What is sent before the logon is accepted is dropped. -/
theorem step_plain_unready {g : Service σ} (hfree : g.Untouched conn) {r : ClientRequest} (hr : r.Plain)
    (answers : Answers) : g.step (.message conn r answers) = g :=
  (Service.processClientRequest_plain hr answers).trans (if_pos (by rw [hfree.2]; exact Bool.false_ne_true))

/-- Before the logon no other request is heeded. -/
theorem serverStep_plain_unready (hfree : x.server.Untouched conn) {r : ClientRequest} (hr : r.Plain)
    (answers : Answers) : serverStep conn x (.message conn r answers) = x := by
  have hstep := step_plain_unready hfree hr answers
  have hdown : (serverStep conn x (.message conn r answers)).down = x.down ++ [] :=
    down_serverStep conn x _ (by rw [hstep, List.append_nil])
  rw [List.append_nil] at hdown
  unfold serverStep at hdown ⊢
  rw [hstep] at hdown ⊢
  exact congrArg (fun down => { x with down := down }) hdown

/-- The next request of a session. -/
theorem beside_request {g : Service σ} (hready : g.ready conn = true) {r : ClientRequest} {n : Nat}
    (hr : NextRequest (g.inboundSeqNum conn) r n) (answers : Answers) :
    ∃ ms, Beside conn (g.incrementInboundSeqNum conn) (g.step (.message conn r answers)) ms := by
  have hserve : ∃ ms, Beside conn (g.incrementInboundSeqNum conn)
      ((g.incrementInboundSeqNum conn).serve conn r answers) ms :=
    Service.beside_serve (fun _ (huntouched : (g.incrementInboundSeqNum conn).Untouched conn) =>
      absurd (huntouched.2.symm.trans hready) (by decide)) r answers
  have hstep : g.step (.message conn r answers) =
      (g.incrementInboundSeqNum conn).serve conn r answers := by
    refine (Service.processClientRequest_plain hr.2.1 answers).trans ?_
    rw [if_neg (not_not.mpr hready), if_neg (not_not.mpr hr.1)]
  rw [hstep]
  exact hserve

/-- Serving the first request on its way. -/
theorem Phase.request (h : Phase conn x) {r : ClientRequest} {rest : List ClientRequest}
    (hup : x.up = r :: rest) (answers : Answers) :
    Phase conn (serverStep conn { x with up := rest } (.message conn r answers)) := by
  cases h with
  | asking early later n hasked hearly hlater hdown hfree =>
    rw [hup] at hasked
    cases early with
    | cons r' early =>
      obtain ⟨rfl, hrest⟩ := List.cons.inj hasked
      -- what came before the logon is dropped
      rw [serverStep_plain_unready (x := { x with up := rest }) hfree (hearly r List.mem_cons_self) answers]
      exact .asking early later n hrest (fun r' hr' => hearly r' (List.mem_cons_of_mem _ hr')) hlater hdown hfree
    | nil =>
      obtain ⟨rfl, rfl⟩ := List.cons.inj hasked
      clear hasked hup
      -- the logon itself: the answer to it is what comes next on the connection
      by_cases hacc : x.server.accepts x.client.clientId n x.client.iSeqNum = true
      · obtain ⟨ms, m, hlog, hm, -, hcarries, hin, hready⟩ :=
          Service.logon_accepted hfree answers.missed hacc
        have hsent := (down_serverStep conn { x with up := rest }
          (.message conn ⟨.admin .logOn x.client.clientId x.client.iSeqNum, n⟩ answers) hlog).trans
          (congrArg (· ++ _) hdown)
        have hmem : m ∈ [] ++ (ms ++ [m]) :=
          List.mem_append_right _ (List.mem_append_right _ List.mem_cons_self)
        have hnumber : (serverStep conn { x with up := rest } (.message conn
          ⟨.admin .logOn x.client.clientId x.client.iSeqNum, n⟩ answers)).server.inboundSeqNum conn = n := hin
        refine .accepted ?_ (by rw [hsent]; exact hcarries) hready (Or.inr ⟨m, by rw [hsent]; exact hmem, hm⟩)
        rw [hnumber]
        exact hlater
      · obtain ⟨hlog, huntouched, -, -⟩ := Service.logon_refused hfree answers.missed hacc
        have hsent := (down_serverStep conn { x with up := rest }
          (.message conn ⟨.admin .logOn x.client.clientId x.client.iSeqNum, n⟩ answers) hlog).trans
          (congrArg (· ++ _) hdown)
        exact .refused _ _ (hlater.forall_mem fun _ _ _ hnext => hnext.2.1) hsent huntouched
  | refused expected n hplain hdown hfree =>
    rw [hup] at hplain
    obtain ⟨hr, hrest⟩ := List.forall_mem_cons.mp hplain
    rw [serverStep_plain_unready (x := { x with up := rest }) hfree hr answers]
    exact .refused expected n hrest hdown hfree
  | accepted hnumbers hdown hready hshown =>
    rw [hup] at hnumbers
    obtain ⟨n, hr, hrest⟩ := hnumbers
    -- a session's request has the number that is waited for
    obtain ⟨ms, hms⟩ := beside_request hready hr answers
    have hsent := down_serverStep conn { x with up := rest } (.message conn r answers) hms.log
    refine .accepted ?_ ?_ (hms.ready.trans hready) ?_
    · rw [show (serverStep conn { x with up := rest } _).server.inboundSeqNum conn =
        x.server.inboundSeqNum conn + 1 from hms.inbound.trans (Function.update_self _ _ _), ← hr.2.2]
      exact hrest
    · rw [hsent]
      exact hdown.append (hms.numbers.mono fun _ _ _ _ hnext => hnext.awaited)
    · rw [hsent]
      exact hshown.imp id fun ⟨m, hm, hisReady⟩ => ⟨m, List.mem_append_left _ hm, hisReady⟩

/-- What happens aside leaves the phase. -/
theorem Phase.aside (h : Phase conn x) {e : Event σ} (he : x.server.Aside conn e) :
    Phase conn (serverStep conn x e) := by
  obtain ⟨ms, hms⟩ := Service.beside_step he
  have hsent := down_serverStep conn x e hms.log
  cases h with
  | asking early later n hup hearly hlater hdown hfree =>
    obtain ⟨huntouched, rfl⟩ := hms.untouched hfree
    exact .asking early later n hup hearly hlater (by rw [hsent, hdown]; rfl) huntouched
  | refused expected n hup hdown hfree =>
    obtain ⟨huntouched, rfl⟩ := hms.untouched hfree
    exact .refused expected n hup (by rw [hsent, hdown]; rfl) huntouched
  | accepted hup hdown hready hshown =>
    refine .accepted ?_ ?_ (hms.ready.trans hready) ?_
    · rw [show (serverStep conn x e).server.inboundSeqNum conn = _ from hms.inbound]
      exact hup
    · rw [hsent]
      exact hdown.append (hms.numbers.mono fun _ _ _ _ hnext => hnext.awaited)
    · rw [hsent]
      exact hshown.imp id fun ⟨m, hm, hisReady⟩ => ⟨m, List.mem_append_left _ hm, hisReady⟩

omit [DecidableEq σ] in
/-- Handling the first message on its way down. -/
theorem Phase.response (h : Phase conn x) {m : ClientResponse} {rest : List ClientResponse}
    {c : OrderEntryClient} {out : List ClientRequest} (hdown : x.down = m :: rest)
    (hrun : x.client.onMessage m = .ok (c, out)) :
    Phase conn { x with client := c, up := x.up ++ out, down := rest } := by
  cases h with
  | asking early later n hup hearly hlater hnone hfree =>
    rw [hnone] at hdown
    cases hdown
  | refused expected n hup hone hfree =>
    rw [hone] at hdown
    obtain ⟨rfl, rfl⟩ := List.cons.inj hdown
    obtain ⟨rfl, rfl⟩ := Prod.mk.inj (Except.ok.inj hrun)
    exact .asking x.up [] expected rfl hup rfl rfl hfree
  | accepted hup hnumbers hready hshown =>
    rw [hdown] at hnumbers hshown
    obtain ⟨n, hm, hrest⟩ := hnumbers
    obtain ⟨hsends, hisReady⟩ := hm.ok hrun
    refine .accepted (hup.append hsends.numbers) ?_ hready ?_
    · dsimp only
      rw [hsends.iSeqNum]
      exact hrest
    · rcases hshown with hshown | ⟨m', hm', hready'⟩
      · exact Or.inl (hsends.ready hshown)
      · rcases List.mem_cons.mp hm' with rfl | hm'
        · exact Or.inl (hisReady hready')
        · exact Or.inr ⟨m', hm', hready'⟩

omit [DecidableEq σ] in
/-- The exception over a gap is never the one that is thrown. -/
theorem Phase.throws (h : Phase conn x) {m : ClientResponse} {rest : List ClientResponse} {err : String}
    (hdown : x.down = m :: rest) (hrun : x.client.onMessage m = .error err) : err ≠ sequenceNumberMismatch := by
  cases h with
  | asking early later n hup hearly hlater hnone hfree =>
    rw [hnone] at hdown
    cases hdown
  | refused expected n hup hone hfree =>
    rw [hone] at hdown
    obtain ⟨rfl, rfl⟩ := List.cons.inj hdown
    cases hrun
  | accepted hup hnumbers hready hshown =>
    rw [hdown] at hnumbers
    obtain ⟨n, hm, -⟩ := hnumbers
    exact hm.error hrun

/-- Every step keeps to the handshake. -/
theorem Phase.step (h : Phase conn x) (hstep : Step P conn x x') : Phase conn x' := by
  cases hstep with
  | call now k hlive hcall => exact h.call (OrderEntryClient.sends_invoke hcall)
  | request answers hup => exact h.request hup answers
  | aside he hP => exact h.aside he
  | response hlive hrunning hdown hrun => exact h.response hdown hrun
  | throws hlive hrunning hdown hrun =>
    cases h with
    | asking early later n hup hearly hlater hnone hfree => exact .asking early later n hup hearly hlater hnone hfree
    | refused expected n hup hone hfree => exact .refused expected n hup hone hfree
    | accepted hup hnumbers hready hshown => exact .accepted hup hnumbers hready hshown

/-- By induction on the run: client and server are always in one of the phases. -/
theorem Reach.phase (h : Reach P conn x) : Phase conn x := by
  induction h with
  | initial h => exact .initial h
  | step _ hstep ih => exact ih.step hstep

/-- Client 7 on a new connection, to a process whose database has the numbers 5 and 3 for it. -/
def sampleLink : Link Nat where
  server := Service.start oneRing (fun _ => 5) (fun _ => 3)
  client := ((OrderEntryClient.create 7 [] fun _ => none).logOn).1
  up := ((OrderEntryClient.create 7 [] fun _ => none).logOn).2
  down := []
  thrown := none

theorem sampleLink_initial : Initial 0 sampleLink :=
  ⟨⟨oneRing, fun _ => 5, fun _ => 3, [], rfl, fun _ he => absurd he List.not_mem_nil⟩,
    ⟨7, [], fun _ => none, rfl⟩, rfl, rfl⟩

/-- Its logon is refused, the second one accepted, and it asks for its open orders. -/
theorem sampleLink_settles (P : Service Nat → Event Nat → Prop) : ∃ x, Reach P 0 x ∧ x.up = [] ∧ x.down = [] ∧
    x.client.clientId = 7 ∧ (messagesOn 0 x.server.log).length = 2 ∧ x.client.oSeqNum = 7 := by
  have hrefused := Reach.step (Reach.initial (P := P) sampleLink_initial) (.request .quiet rfl)
  have hretried := Reach.step hrefused (.response rfl rfl rfl rfl)
  have haccepted := Reach.step hretried (.request .quiet rfl)
  have hasked := Reach.step haccepted (.response rfl rfl rfl rfl)
  exact ⟨_, Reach.step hasked (.request .quiet rfl), rfl, rfl, rfl, rfl, rfl⟩

/-- While other connections have no logon refused under the session's id, the client never throws over a
gap: from the logon on, each message bears the number the handler waits for. -/
theorem client_never_out_of_step (h : Reach P conn x) : x.thrown ≠ some sequenceNumberMismatch := by
  induction h with
  | initial h =>
    rw [h.thrown]
    nofun
  | step h hstep ih =>
    cases hstep with
    | throws hlive hrunning hdown hrun => exact fun herr => h.phase.throws hdown hrun (Option.some.inj herr)
    | _ => exact ih

theorem sampleLink_in_step : ∃ x : Link Nat, x.client.oSeqNum = 7 ∧ x.thrown ≠ some sequenceNumberMismatch := by
  obtain ⟨x, h, -, -, -, -, hnum⟩ := sampleLink_settles fun _ _ => True
  exact ⟨x, hnum, client_never_out_of_step h⟩

/-- Once the logon is accepted, the requests on their way bear the numbers the process expects, up to the
client's own. With nothing on its way the logon has been accepted, the client knows, and both ends have the
same numbers. -/
theorem sequence_numbers_agree (h : Reach P conn x) :
    (x.server.ready conn = true →
      x.up.map (·.msgSeqNum) = List.range' (x.server.inboundSeqNum conn + 1) x.up.length ∧
        x.client.oSeqNum = x.server.inboundSeqNum conn + x.up.length) ∧
    (x.up = [] → x.down = [] → x.server.ready conn = true ∧ x.client.ready = true ∧
      x.client.oSeqNum = x.server.inboundSeqNum conn ∧ x.client.iSeqNum = x.server.outboundSeqNum conn) := by
  cases h.phase with
  | asking early later n hup hearly hlater hdown hfree =>
    refine ⟨fun hready => absurd (hready.symm.trans hfree.2) (by decide), fun hnone => ?_⟩
    rw [hnone] at hup
    exact absurd hup.symm (List.append_ne_nil_of_right_ne_nil _ (List.cons_ne_nil _ _))
  | refused expected n hup hdown hfree =>
    refine ⟨fun hready => absurd (hready.symm.trans hfree.2) (by decide), fun _ hnone => ?_⟩
    rw [hnone] at hdown
    cases hdown
  | accepted hup hdown hready hshown =>
    refine ⟨fun _ => numbers_range hup, fun hnoup hnodown => ?_⟩
    rw [hnoup] at hup
    rw [hnodown] at hdown hshown
    refine ⟨hready, hshown.resolve_right ?_, hup, hdown.symm⟩
    rintro ⟨m, hm, -⟩
    cases hm

theorem sampleLink_agrees : ∃ x : Link Nat, x.client.ready = true ∧ x.server.inboundSeqNum 0 = 7 := by
  obtain ⟨x, h, hup, hdown, -, -, hnum⟩ := sampleLink_settles fun _ _ => True
  obtain ⟨-, hready, hin, -⟩ := (sequence_numbers_agree h).2 hup hdown
  exact ⟨x, hready, hin.symm.trans hnum⟩

end Link

end Exchange.Gateway
