import Exchange.Gateway.Handshake

/-!
# The second logon

What a client does when its logon is refused: it logs on again, with the number it was told to use, and
acknowledges the number of the refusal. Unless another connection uses the id in between, the second logon
is accepted, and the refusal of the first is the only one there is (`one_refusal_at_most`). An old session of
the id may still be registered; it may be sent records, and it may end: its numbers are then the ones the
database has (`Standing`).

`Answered` is the connection after its first message: it is ready, or the client knows the number
(`Retrying`). Each step of the link keeps it (`Settling.request`, `Settling.aside`, `Settling.response`).
-/

namespace Exchange.Gateway

open Lib

variable {σ : Type} [DecidableEq σ]

namespace Service

variable {id : UInt32} {client : σ} {g g' g'' : Service σ}

/-- The next logon under an id may have the number it could have before, and acknowledge what it could
acknowledge before. -/
structure Standing (id : UInt32) (g g' : Service σ) : Prop where
  expected : g'.expectedMsgSeqNum id = g.expectedMsgSeqNum id
  acknowledged : g.expectedAckSeqNum id ≤ g'.expectedAckSeqNum id

namespace Standing

omit [DecidableEq σ] in
theorem refl (id : UInt32) (g : Service σ) : Standing id g g := ⟨rfl, le_refl _⟩

omit [DecidableEq σ] in
theorem trans (h : Standing id g g') (h' : Standing id g' g'') : Standing id g g'' :=
  ⟨h'.expected.trans h.expected, h.acknowledged.trans h'.acknowledged⟩

omit [DecidableEq σ] in
/-- The session that is registered keeps its number, and so does the database. -/
theorem of (hclients : g'.manager.clients id = g.manager.clients id)
    (hin : ∀ c, g.manager.clients id = some c → g'.inboundSeqNum c = g.inboundSeqNum c)
    (hout : ∀ c, g.manager.clients id = some c → g.outboundSeqNum c ≤ g'.outboundSeqNum c)
    (hi : g'.iSeqNums id = g.iSeqNums id) (ho : g.oSeqNums id ≤ g'.oSeqNums id) : Standing id g g' := by
  constructor
  · unfold expectedMsgSeqNum
    rw [hclients]
    cases hreg : g.manager.clients id with
    | some c => exact congrArg (· + 1) (hin c hreg)
    | none => exact congrArg (· + 1) hi
  · unfold expectedAckSeqNum
    rw [hclients]
    cases hreg : g.manager.clients id with
    | some c => exact hout c hreg
    | none => exact ho

omit [DecidableEq σ] in
/-- What is no number has changed. -/
theorem same (hclients : g'.manager.clients = g.manager.clients) (hin : g'.inboundSeqNum = g.inboundSeqNum)
    (hout : g'.outboundSeqNum = g.outboundSeqNum) (hi : g'.iSeqNums = g.iSeqNums)
    (ho : g'.oSeqNums = g.oSeqNums) : Standing id g g' :=
  of (congrFun hclients id) (fun c _ => congrFun hin c) (fun c _ => (congrFun hout c).ge) (congrFun hi id)
    (congrFun ho id).ge

theorem incrementOutboundSeqNum (client : σ) : Standing id g (g.incrementOutboundSeqNum client) := by
  refine of rfl (fun _ _ => rfl) (fun c _ => ?_) rfl (le_refl _)
  show _ ≤ Function.update g.outboundSeqNum client (g.outboundSeqNum client + 1) c
  by_cases hc : c = client
  · rw [hc, Function.update_self]
    omega
  · rw [Function.update_of_ne hc]

theorem sendNext (data : ClientResponseData) : Standing id g (g.sendNext client data) :=
  (incrementOutboundSeqNum client).trans (same rfl rfl rfl rfl rfl)

theorem sendAll (resps : List OrderResponse) :
    Standing id g (resps.foldl (fun g resp => g.sendNext client (.order resp)) g) := by
  induction resps generalizing g with
  | nil => exact refl id g
  | cons resp resps ih => exact (sendNext _).trans ih

omit [DecidableEq σ] in
theorem moreStored (id' : UInt32) (l : List (Entry σ)) : Standing id g
    ({ g with oSeqNums := Function.update g.oSeqNums id' (g.oSeqNums id' + 1) }.note l) := by
  refine of rfl (fun _ _ => rfl) (fun _ _ => le_refl _) rfl ?_
  show _ ≤ Function.update g.oSeqNums id' (g.oSeqNums id' + 1) id
  by_cases hid : id = id'
  · rw [hid, Function.update_self]
    omega
  · rw [Function.update_of_ne hid]

theorem rejectLogon (clientId : UInt32) : Standing id g (g.rejectLogon client clientId) := by
  unfold Service.rejectLogon
  dsimp only
  split
  · exact (incrementOutboundSeqNum _).trans (same rfl rfl rfl rfl rfl)
  · exact moreStored _ _

theorem takeOver (clientId : UInt32) : Standing id g (g.takeOver client clientId) := by
  unfold Service.takeOver
  split
  · exact refl id g
  · dsimp only
    split
    · exact incrementOutboundSeqNum _
    · exact (incrementOutboundSeqNum _).trans (same rfl rfl rfl rfl rfl)

theorem register {clientId : UInt32} (hid : clientId ≠ id) (hreg : g.manager.clients id ≠ some client)
    (msgSeqNum shared : Nat) : Standing id g (g.register client clientId msgSeqNum shared) := by
  have hne : ∀ c, g.manager.clients id = some c → c ≠ client := fun c hc h => hreg (by rw [hc, h])
  refine of (Function.update_of_ne (Ne.symm hid) _ _) (fun c hc => Function.update_of_ne (hne c hc) _ _)
    (fun c hc => ?_) rfl (le_refl _)
  exact (Function.update_of_ne (hne c hc) _ _).ge

/-- Taking over does not touch the registry of connections. -/
theorem takeOver_clients (clientId : UInt32) :
    (g.takeOver client clientId).manager.clients = g.manager.clients := by
  unfold Service.takeOver
  split
  · rfl
  · dsimp only
    split <;> rfl

/-- A logon under another id. -/
theorem handleClientLogon {clientId : UInt32} (hid : clientId ≠ id)
    (hreg : g.manager.clients id ≠ some client) (msgSeqNum ackSeqNum : Nat) (missed : List OrderResponse) :
    Standing id g (g.handleClientLogon client clientId msgSeqNum ackSeqNum missed) := by
  unfold Service.handleClientLogon
  split
  · have hregister := register (g := g.takeOver client clientId) hid
      (by rw [takeOver_clients]; exact hreg) msgSeqNum (g.sharedMsgSeqNum clientId)
    exact ((takeOver clientId).trans hregister).trans (same rfl rfl rfl rfl rfl)
  · exact rejectLogon clientId

/-- A session's numbers are saved when it ends. -/
theorem handleClientLogout : Standing id g (g.handleClientLogout client) := by
  have hforget : ∀ g : Service σ, Standing id g (g.forget client) := by
    intro g
    unfold Service.forget
    split
    · exact same rfl rfl rfl rfl rfl
    · exact refl id g
  unfold Service.handleClientLogout
  dsimp only
  split
  · exact refl id g
  · split
    · rename_i hreg
      refine Standing.trans ?_ (hforget _)
      by_cases hid : g.manager.clientId client = id
      · rw [hid] at hreg ⊢
        constructor
        · unfold expectedMsgSeqNum Service.unregister
          dsimp only
          rw [Function.update_self, Function.update_self, hreg]
        · unfold expectedAckSeqNum Service.unregister
          dsimp only
          rw [Function.update_self, Function.update_self, hreg]
      · exact of (Function.update_of_ne (Ne.symm hid) _ _) (fun _ _ => rfl) (fun _ _ => le_refl _)
          (Function.update_of_ne (Ne.symm hid) _ _) (Function.update_of_ne (Ne.symm hid) _ _).ge
    · exact hforget g

end Standing

/-- Another connection does not use the id: it sends nothing while it is registered under it, except that
it logs out, and it does not log on under it. -/
def Unused (id : UInt32) (g : Service σ) : Event σ → Prop
  | .message client ⟨.admin .logOn clientId _, _⟩ _ => clientId ≠ id ∧ g.manager.clients id ≠ some client
  | .message _ ⟨.admin _ _ _, _⟩ _ => True
  | .message client _ _ => g.manager.clients id ≠ some client
  | _ => True

theorem standing_serve (request : ClientRequest) (answers : Answers) :
    Standing id g (g.serve client request answers) := by
  obtain ⟨data, n⟩ := request
  cases data with
  | admin _ _ _ | other => exact .refl id g
  | order req =>
    show Standing id g (g.placeOrder client n req answers.room)
    unfold placeOrder
    split
    · exact .refl id g
    · split
      · exact .same rfl rfl rfl rfl rfl
      · exact .refl id g
  | position _ _ => exact .sendNext _
  | openOrders _ => exact .sendAll _

theorem standing_plain (request : ClientRequest) (hplain : request.Plain)
    (hreg : g.manager.clients id ≠ some client) (answers : Answers) :
    Standing id g (g.processClientRequest client request answers) := by
  rw [processClientRequest_plain hplain]
  split
  · exact .refl id g
  split
  · exact .sendNext _
  · refine Standing.trans ?_ (standing_serve request answers)
    exact .of rfl (fun c hc => Function.update_of_ne (fun h => hreg (by rw [hc, h])) _ _) (fun _ _ => le_refl _) rfl
      (le_refl _)

theorem standing_step {conn : σ} {e : Event σ} (haside : g.Aside conn e) (he : g.Unused id e) :
    Standing id g (g.step e) := by
  cases e with
  | message client request answers =>
    obtain ⟨data, n⟩ := request
    cases data with
    | admin action clientId ackSeqNum =>
      cases action with
      | logOn => exact .handleClientLogon he.1 he.2 n ackSeqNum answers.missed
      | logOut => exact .handleClientLogout
      | other code => exact .refl id g
    | order req => exact standing_plain ⟨.order req, n⟩ (fun _ _ _ => nofun) he answers
    | position id' symbolId =>
      exact standing_plain ⟨.position id' symbolId, n⟩ (fun _ _ _ => nofun) he answers
    | openOrders id' => exact standing_plain ⟨.openOrders id', n⟩ (fun _ _ _ => nofun) he answers
    | other => exact standing_plain ⟨.other, n⟩ (fun _ _ _ => nofun) he answers
  | close client =>
    show Standing id g (g.onClose client)
    unfold onClose
    split
    · exact .refl id g
    · have hflag : Standing id g { g with closed := Function.update g.closed client true } :=
        .same rfl rfl rfl rfl rfl
      exact (hflag.trans .handleClientLogout).trans (.same rfl rfl rfl rfl rfl)
  | writeFailed client => exact .same rfl rfl rfl rfl rfl
  | respond resp =>
    have hmanager : Standing id g { g with manager := (g.manager.handleExecutionResponse resp).1 } :=
      .same (g.manager.handleExecutionResponse_clients resp) rfl rfl rfl rfl
    show Standing id g (g.handleExecutionResponse resp)
    unfold handleExecutionResponse
    dsimp only
    split
    · exact hmanager
    · exact hmanager.trans (.sendNext _)
  | updated resp logOffset => exact .moreStored _ _
  | restart => exact absurd haside not_false

end Service

/-! ## How many refusals there are -/

/-- The refusal of a logon, or of a request with a wrong number. -/
def ClientResponse.isRefusal (m : ClientResponse) : Bool :=
  match m.data with
  | .admin .reject _ _ .invalidSequenceNumber => true
  | _ => false

/-- The refusals on a connection. -/
def refusals (conn : σ) (log : List (Entry σ)) : Nat := (messagesOn conn log).countP (·.isRefusal)

/-- Messages that are no refusals refuse nothing. -/
theorem refusals_append (conn : σ) {l l' : List (Entry σ)} {ms : List ClientResponse}
    (h : messagesOn conn l' = messagesOn conn l ++ ms) (hms : ∀ m ∈ ms, m.isRefusal = false) :
    refusals conn l' = refusals conn l := by
  unfold refusals
  have hnone : ms.countP (·.isRefusal) = 0 := by
    refine List.countP_eq_zero.mpr fun m hm => ?_
    rw [hms m hm]
    exact Bool.false_ne_true
  rw [h, List.countP_append, hnone, Nat.add_zero]

theorem Awaited.not_refusal {n n' : Nat} {m : ClientResponse} (h : Awaited n m n') : m.isRefusal = false := by
  obtain ⟨-, hdata⟩ := h
  obtain ⟨data, k⟩ := m
  unfold ClientResponse.isRefusal
  cases data with
  | admin type clientId expected code =>
    cases type with
    | ready => rfl
    | reject =>
      obtain rfl : code = .loginAtOtherSession := hdata rfl
      rfl
  | order _ | position _ _ _ => rfl

namespace Link

variable {conn : σ} {x x' : Link σ}

/-- After the one refusal, and before the logon is accepted: the client is told the number the process
still expects, or has sent a logon the process will accept. -/
structure Retrying (x : Link σ) : Prop where
  down : ∀ expected n, refusal x.client.clientId expected n ∈ x.down →
    expected = x.server.expectedMsgSeqNum x.client.clientId ∧
      n ≤ x.server.expectedAckSeqNum x.client.clientId
  up : ∀ n ackSeqNum, ⟨.admin .logOn x.client.clientId ackSeqNum, n⟩ ∈ x.up →
    x.server.accepts x.client.clientId n ackSeqNum = true

/-- The first logon is answered: from then on nothing is refused, and the logon is accepted or about
to be. -/
structure Answered (conn : σ) (x : Link σ) : Prop where
  sent : messagesOn conn x.server.log ≠ []
  later : ∀ m ∈ (messagesOn conn x.server.log).tail, m.isRefusal = false
  next : x.server.ready conn = true ∨ x.Retrying

/-- Nothing has been sent on the connection, or the first logon is answered. -/
def Settling (conn : σ) (x : Link σ) : Prop := messagesOn conn x.server.log = [] ∨ Answered conn x

variable {id : UInt32}

omit [DecidableEq σ] in
/-- With requests that are no logons, and messages that are taken. -/
theorem Retrying.mono (h : x.Retrying) (hid : x'.client.clientId = x.client.clientId)
    (hserver : x'.server = x.server) (hdown : ∀ m ∈ x'.down, m ∈ x.down)
    (hup : ∀ r ∈ x'.up, r ∈ x.up ∨ r.Plain) : x'.Retrying := by
  constructor
  · rw [hid, hserver]
    exact fun expected n hm => h.down expected n (hdown _ hm)
  · rw [hid, hserver]
    intro n ackSeqNum hr
    rcases hup _ hr with hr | hplain
    · exact h.up n ackSeqNum hr
    · exact absurd rfl (hplain _ _ _)

/-- Settled is said of the server and of what is on its way. -/
theorem Settling.mono (h : Settling conn x) (hid : x'.client.clientId = x.client.clientId)
    (hserver : x'.server = x.server) (hdown : ∀ m ∈ x'.down, m ∈ x.down)
    (hup : ∀ r ∈ x'.up, r ∈ x.up ∨ r.Plain) : Settling conn x' := by
  rcases h with hnone | ⟨hsent, hlater, hnext⟩
  · exact Or.inl (by rw [hserver]; exact hnone)
  · refine Or.inr ⟨by rw [hserver]; exact hsent, by rw [hserver]; exact hlater, ?_⟩
    rw [hserver]
    exact hnext.imp_right fun hretry => hretry.mono hid hserver hdown hup

/-- More messages, none of them a refusal. -/
theorem Answered.append (h : Answered conn x) {ms : List ClientResponse}
    (hlog : messagesOn conn x'.server.log = messagesOn conn x.server.log ++ ms)
    (hms : ∀ m ∈ ms, m.isRefusal = false) (hnext : x'.server.ready conn = true ∨ x'.Retrying) :
    Answered conn x' := by
  refine ⟨?_, fun m hm => ?_, hnext⟩
  · rw [hlog]
    exact List.append_ne_nil_of_left_ne_nil h.sent _
  · rw [hlog, List.tail_append_of_ne_nil h.sent] at hm
    rcases List.mem_append.mp hm with hm | hm
    · exact h.later m hm
    · exact hms m hm

/-- A session is not refused. -/
theorem Settling.of_ready (h : Settling conn x) {ms : List ClientResponse}
    (hlog : messagesOn conn x'.server.log = messagesOn conn x.server.log ++ ms)
    (hms : ∀ m ∈ ms, m.isRefusal = false) (hready : x'.server.ready conn = true) : Settling conn x' := by
  rcases h with hnone | hanswered
  · rw [hnone, List.nil_append] at hlog
    cases ms with
    | nil => exact Or.inl hlog
    | cons m ms =>
      refine Or.inr ⟨?_, ?_, Or.inl hready⟩
      · rw [hlog]
        exact List.cons_ne_nil m ms
      · rw [hlog]
        exact fun m' hm' => hms m' (List.mem_cons_of_mem m hm')
  · exact Or.inr (hanswered.append hlog hms (Or.inl hready))

/-- Serving a request settles a logon, or leaves what was settled. -/
theorem Settling.request (h : Settling conn x) (hphase : Phase conn x) {r : ClientRequest}
    {rest : List ClientRequest} (hup : x.up = r :: rest) (answers : Answers) :
    Settling conn (serverStep conn { x with up := rest } (.message conn r answers)) := by
  have hrest : Settling conn { x with up := rest } :=
    h.mono rfl rfl (fun _ hm => hm) fun r' hr' => Or.inl (by rw [hup]; exact List.mem_cons_of_mem _ hr')
  cases hphase with
  | asking early later n hasked hearly hlater hdown hfree =>
    rw [hup] at hasked
    cases early with
    | cons r' early =>
      obtain ⟨rfl, -⟩ := List.cons.inj hasked
      rw [serverStep_plain_unready (x := { x with up := rest }) hfree (hearly r List.mem_cons_self) answers]
      exact hrest
    | nil =>
      obtain ⟨rfl, rfl⟩ := List.cons.inj hasked
      by_cases hacc : x.server.accepts x.client.clientId n x.client.iSeqNum = true
      · obtain ⟨ms, m, hlog, -, -, hcarries, -, hready⟩ :=
          Service.logon_accepted hfree answers.missed hacc
        exact hrest.of_ready hlog (hcarries.forall_mem fun _ _ _ hawaited => hawaited.not_refusal) hready
      · obtain ⟨hlog, huntouched, hexpected, hack⟩ := Service.logon_refused hfree answers.missed hacc
        have hsent := (down_serverStep conn { x with up := rest }
          (.message conn ⟨.admin .logOn x.client.clientId x.client.iSeqNum, n⟩ answers) hlog).trans
          (congrArg (· ++ _) hdown)
        rcases h with hnone | ⟨-, -, hready | hretry⟩
        -- the first logon: the refusal is the first message there is, and tells what the process expects
        · have hfirst : messagesOn conn (serverStep conn { x with up := rest } (.message conn
              ⟨.admin .logOn x.client.clientId x.client.iSeqNum, n⟩ answers)).server.log =
              [refusal x.client.clientId (x.server.expectedMsgSeqNum x.client.clientId)
                (x.server.sharedMsgSeqNum x.client.clientId)] := by
            rw [hnone] at hlog
            exact hlog
          refine Or.inr ⟨?_, ?_, Or.inr ⟨fun expected k hm => ?_, fun k ackSeqNum hr => ?_⟩⟩
          · rw [hfirst]
            exact List.cons_ne_nil _ _
          · rw [hfirst]
            exact fun m hm => absurd hm List.not_mem_nil
          · rw [hsent] at hm
            have hsame := List.mem_singleton.mp hm
            unfold refusal at hsame
            obtain ⟨hdata, rfl⟩ := ClientResponse.mk.inj hsame
            obtain ⟨-, -, rfl, -⟩ := ClientResponseData.admin.inj hdata
            exact ⟨hexpected.symm, hack.ge⟩
          · exact absurd rfl (hlater.forall_mem (fun _ _ _ hnext => hnext.2.1) _ hr _ _ _)
        · exact absurd (hready.symm.trans hfree.2) (by decide)
        -- the second one is not refused
        · exact absurd (hretry.up _ _ (by rw [hup]; exact List.mem_cons_self)) hacc
  | refused expected n hplain hdown hfree =>
    rw [hup] at hplain
    rw [serverStep_plain_unready (x := { x with up := rest }) hfree (hplain r List.mem_cons_self) answers]
    exact hrest
  | accepted hnumbers hdown hready hshown =>
    rw [hup] at hnumbers
    obtain ⟨n, hr, -⟩ := hnumbers
    obtain ⟨ms, hms⟩ := beside_request hready hr answers
    exact hrest.of_ready hms.log (hms.numbers.forall_mem fun _ _ _ hnext => hnext.awaited.not_refusal)
      (hms.ready.trans hready)

theorem Settling.aside (h : Settling conn x) (hphase : Phase conn x) {e : Event σ}
    (he : x.server.Aside conn e) (hunused : x.server.Unused x.client.clientId e) :
    Settling conn (serverStep conn x e) := by
  obtain ⟨ms, hms⟩ := Service.beside_step he
  have hnone : ∀ m ∈ ms, m.isRefusal = false :=
    hms.numbers.forall_mem fun _ _ _ hnext => hnext.awaited.not_refusal
  have hstanding := Service.standing_step he hunused
  have hunready : x.server.Untouched conn → Settling conn (serverStep conn x e) := by
    intro hfree
    obtain ⟨-, rfl⟩ := hms.untouched hfree
    have hsent := down_serverStep conn x e hms.log
    have hlog := hms.log
    rw [List.append_nil] at hsent hlog
    rcases h with hempty | hanswered
    · exact Or.inl (hlog.trans hempty)
    rcases hanswered.next with hready | hretry
    · exact absurd (hready.symm.trans hfree.2) (by decide)
    · refine Or.inr (hanswered.append hms.log hnone
        (Or.inr ⟨fun expected n hm => ?_, fun n ackSeqNum hr => ?_⟩))
      · rw [hsent] at hm
        obtain ⟨hexpected, hn⟩ := hretry.down expected n hm
        exact ⟨hexpected.trans hstanding.expected.symm, hn.trans hstanding.acknowledged⟩
      · obtain ⟨hn, hack⟩ := of_decide_eq_true (hretry.up n ackSeqNum hr)
        exact decide_eq_true ⟨hn.trans hstanding.expected.symm, hack.trans hstanding.acknowledged⟩
  cases hphase with
  | asking early later n hup hearly hlater hdown hfree => exact hunready hfree
  | refused expected n hup hdown hfree => exact hunready hfree
  | accepted hup hdown hready hshown => exact h.of_ready hms.log hnone (hms.ready.trans hready)

theorem Settling.response (h : Settling conn x) (hphase : Phase conn x) {m : ClientResponse}
    {rest : List ClientResponse} {c : OrderEntryClient} {out : List ClientRequest} (hdown : x.down = m :: rest)
    (hrun : x.client.onMessage m = .ok (c, out)) :
    Settling conn { x with client := c, up := x.up ++ out, down := rest } := by
  cases hphase with
  | asking early later n hup hearly hlater hnone hfree =>
    rw [hnone] at hdown
    cases hdown
  | refused expected n hup hone hfree =>
    rw [hone] at hdown
    obtain ⟨rfl, rfl⟩ := List.cons.inj hdown
    obtain ⟨rfl, rfl⟩ := Prod.mk.inj (Except.ok.inj hrun)
    refine h.imp_right fun ⟨hsent, hlater, hnext⟩ => ⟨hsent, hlater, hnext.imp_right fun hretry =>
      ⟨nofun, fun k ackSeqNum hr => ?_⟩⟩
    rcases List.mem_append.mp hr with hr | hr
    · exact absurd rfl (hup _ hr _ _ _)
    · obtain ⟨hdata, rfl⟩ := ClientRequest.mk.inj (List.mem_singleton.mp hr)
      obtain ⟨-, -, rfl⟩ := ClientRequestData.admin.inj hdata
      exact decide_eq_true (hretry.down _ _ (by rw [hone]; exact List.mem_cons_self))
  | accepted hup hnumbers hready hshown =>
    exact h.of_ready (List.append_nil _).symm (fun m hm => absurd hm List.not_mem_nil) hready

theorem clientId_step {P : Service σ → Event σ → Prop} (hphase : Phase conn x) (hstep : Step P conn x x') :
    x'.client.clientId = x.client.clientId := by
  cases hstep with
  | call now k hlive hcall => exact (OrderEntryClient.sends_invoke hcall).clientId
  | response hlive hrunning hdown hrun =>
    cases hphase with
    | asking early later n hup hearly hlater hnone hfree =>
      rw [hnone] at hdown
      cases hdown
    | refused expected n hup hone hfree =>
      rw [hone] at hdown
      obtain ⟨rfl, rfl⟩ := List.cons.inj hdown
      obtain ⟨rfl, rfl⟩ := Prod.mk.inj (Except.ok.inj hrun)
      rfl
    | accepted hup hnumbers hready hshown =>
      rw [hdown] at hnumbers
      obtain ⟨n, hm, -⟩ := hnumbers
      exact (hm.ok hrun).1.clientId
  | _ => rfl

/-- Whatever the others do. -/
theorem Reach.settling (h : Reach (Service.Unused id) conn x) (hid : x.client.clientId = id) : Settling conn x := by
  induction h with
  | initial h => exact Or.inl h.untouched.2
  | step h hstep ih =>
    have hid' := (clientId_step h.phase hstep).symm.trans hid
    have ih := ih hid'
    cases hstep with
    | call now k hlive hcall =>
      have hsends := OrderEntryClient.sends_invoke hcall
      exact ih.mono hsends.clientId rfl (fun _ hm => hm) fun r hr => (List.mem_append.mp hr).imp_right
        fun hr => hsends.numbers.forall_mem (fun _ _ _ hnext => hnext.2.1) r hr
    | request answers hup => exact ih.request h.phase hup answers
    | aside he hP => exact ih.aside h.phase he (by rw [hid']; exact hP)
    | response hlive hrunning hdown hrun => exact ih.response h.phase hdown hrun
    | throws hlive hrunning hdown hrun => exact ih.mono rfl rfl (fun _ hm => hm) fun _ hr => Or.inl hr

/-- A logon that is on its way is the first one, or it will be accepted. -/
theorem Settling.logon (h : Settling conn x) (hphase : Phase conn x)
    (hsent : messagesOn conn x.server.log ≠ []) {n ackSeqNum : Nat}
    (hr : ⟨.admin .logOn x.client.clientId ackSeqNum, n⟩ ∈ x.up) :
    x.server.accepts x.client.clientId n ackSeqNum = true := by
  rcases (h.resolve_left hsent).next with hready | hretry
  -- the requests of a session are no logons
  · cases hphase with
    | asking early later n hup hearly hlater hdown hfree => exact absurd (hready.symm.trans hfree.2) (by decide)
    | refused expected n hup hdown hfree => exact absurd (hready.symm.trans hfree.2) (by decide)
    | accepted hup hdown hready hshown =>
      exact absurd rfl (hup.forall_mem (fun _ _ _ hnext => hnext.2.1) _ hr _ _ _)
  · exact hretry.up n ackSeqNum hr

/-- A request that is no logon is not refused: it bears the number the process waits for, or is dropped. -/
theorem Phase.plain_not_refused (h : Phase conn x) {r : ClientRequest} {rest : List ClientRequest}
    (hup : x.up = r :: rest) (hplain : r.Plain) (answers : Answers) :
    refusals conn (x.server.step (.message conn r answers)).log = refusals conn x.server.log := by
  cases h with
  | asking early later n hasked hearly hlater hdown hfree => rw [step_plain_unready hfree hplain]
  | refused expected n hasked hdown hfree => rw [step_plain_unready hfree hplain]
  | accepted hnumbers hdown hready hshown =>
    rw [hup] at hnumbers
    obtain ⟨n, hr, -⟩ := hnumbers
    obtain ⟨ms, hms⟩ := beside_request hready hr answers
    exact refusals_append conn hms.log
      (hms.numbers.forall_mem fun _ _ _ hnext => hnext.awaited.not_refusal)

/-- Unless another connection uses the client's id: of what is sent on the connection only the first message
can be a refusal; a logon that is sent after it will be accepted, whenever it arrives; and a request that is
no logon is never refused. -/
theorem one_refusal_at_most (h : Reach (Service.Unused id) conn x) (hid : x.client.clientId = id) :
    (∀ m ∈ (messagesOn conn x.server.log).tail, m.isRefusal = false) ∧
    (messagesOn conn x.server.log ≠ [] → ∀ n ackSeqNum, ⟨.admin .logOn id ackSeqNum, n⟩ ∈ x.up →
      x.server.accepts id n ackSeqNum = true) ∧
    ∀ r rest answers, x.up = r :: rest → r.Plain →
      refusals conn (x.server.step (.message conn r answers)).log = refusals conn x.server.log := by
  have hsettling := h.settling hid
  refine ⟨fun m hm => ?_, fun hsent n ackSeqNum hr => ?_, fun r rest answers hup hplain => ?_⟩
  · rcases hsettling with hnone | hanswered
    · rw [hnone] at hm
      exact absurd hm List.not_mem_nil
    · exact hanswered.later m hm
  · rw [← hid] at hr ⊢
    exact hsettling.logon h.phase hsent hr
  · exact h.phase.plain_not_refused hup hplain answers

/-- The client of `sampleLink` is refused, logs on again and asks for its open orders. -/
theorem sampleLink_refused_once : ∃ x : Link Nat, (messagesOn 0 x.server.log).length = 2 ∧
    ∀ m ∈ (messagesOn 0 x.server.log).tail, m.isRefusal = false := by
  obtain ⟨x, h, -, -, hid, hlog, -⟩ := sampleLink_settles (Service.Unused 7)
  exact ⟨x, hlog, (one_refusal_at_most h hid).1⟩

end Link

end Exchange.Gateway
