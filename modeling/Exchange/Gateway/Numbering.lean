import Mathlib.Data.List.Chain
import Exchange.Gateway.Sessions

/-!
# The numbers on a session

`OrderEntryClient` throws when a message does not bear the number after the one before.
Messages bear the session's outbound number, which every `send` advances first. What else
touches the number:

* a logon that is refused advances the number of the session that is registered under the
  id it names, and tells the connection it came on, which may be another one;
* a logon that is accepted sets the number of its connection to that of the id it names,
  after it has sent what was missed, numbered from the acknowledged one on.

`Numbered` ties the outbound numbers to the last message of each connection.
-/

namespace Exchange.Gateway

variable {σ : Type} [DecidableEq σ]

/-- What an entry does to the numbers on a connection. -/
def Entry.window (client : σ) (w : Option (List Nat)) : Entry σ → Option (List Nat)
  | .sent c msg =>
    if c = client then
      match w with
      | some ns => some (ns ++ [msg.msgSeqNum])
      | none => if msg.isReady then some [msg.msgSeqNum] else none
    else w
  | .replaced c _ => if c = client then none else w
  | .closed c => if c = client then none else w
  | .restarted => none
  | _ => w

/-- The numbers of the messages on a connection, from its Ready on, until it is replaced or
closed. -/
def window (client : σ) (log : List (Entry σ)) : Option (List Nat) :=
  log.foldl (Entry.window client) none

/-- The numbers of a session after one entry more, -/
theorem window_snoc (client : σ) (log : List (Entry σ)) (x : Entry σ) :
    window client (log ++ [x]) = Entry.window client (window client log) x :=
  List.foldl_append

/-- Each number is the one after the number before. -/
def Consecutive (ns : List Nat) : Prop := ns.IsChain fun a b => b = a + 1

/-- which are consecutive when the next one is appended. -/
theorem Consecutive.snoc {ns : List Nat} {n : Nat} (h : Consecutive ns) (hlast : ns.getLast? = some n) :
    Consecutive (ns ++ [n + 1]) := by
  refine List.IsChain.append h (List.isChain_singleton _) (fun a ha b hb => ?_)
  rw [hlast] at ha
  rw [← Option.some.inj ha, ← Option.some.inj hb]

/-- The messages on every connection are consecutive, now and at every time before, and the
last one that counts bears the outbound number. -/
structure Numbered (log : List (Entry σ)) (out : σ → Nat) : Prop where
  regular : ∀ pre, pre <+: log → ∀ c ns, window c pre = some ns → Consecutive ns
  last : ∀ c ns, window c log = some ns → ns.getLast? = some (out c)

namespace Numbered

variable {log : List (Entry σ)} {out out' : σ → Nat} {client : σ}

theorem snoc (h : Numbered log out) {x : Entry σ}
    (hx : ∀ c ns, Entry.window c (window c log) x = some ns →
      Consecutive ns ∧ ns.getLast? = some (out' c)) : Numbered (log ++ [x]) out' := by
  refine ⟨fun pre hpre c ns hns => ?_, fun c ns hns => ?_⟩
  · rcases List.prefix_concat_iff.mp hpre with rfl | hpre
    · rw [window_snoc] at hns
      exact (hx c ns hns).1
    · exact h.regular pre hpre c ns hns
  · rw [window_snoc] at hns
    exact (hx c ns hns).2

/-- An entry that is no message. -/
theorem pass (h : Numbered log out) {x : Entry σ}
    (hx : ∀ c w, Entry.window c w x = w ∨ Entry.window c w x = none) : Numbered (log ++ [x]) out := by
  refine h.snoc (fun c ns hns => ?_)
  rcases hx c (window c log) with hsame | hnone
  · rw [hsame] at hns
    exact ⟨h.regular log (List.prefix_refl _) c ns hns, h.last c ns hns⟩
  · rw [hnone] at hns
    cases hns

/-- The number of a connection without a session may change. -/
theorem renumber (h : Numbered log out) (hnone : window client log = none) (n : Nat) :
    Numbered log (Function.update out client n) := by
  refine ⟨h.regular, fun c ns hns => ?_⟩
  have hc : c ≠ client := by
    rintro rfl
    rw [hnone] at hns
    cases hns
  rw [Function.update_of_ne hc]
  exact h.last c ns hns

/-- A message with the next number. -/
theorem send (h : Numbered log out) (client : σ) (data : ClientResponseData) :
    Numbered (log ++ [.sent client ⟨data, out client + 1⟩])
      (Function.update out client (out client + 1)) := by
  refine h.snoc (fun c ns hns => ?_)
  unfold Entry.window at hns
  by_cases hc : client = c
  · subst hc
    dsimp only at hns
    rw [if_pos rfl] at hns
    rw [Function.update_self]
    split at hns
    · rename_i old hold
      rw [← Option.some.inj hns]
      exact ⟨(h.regular log (List.prefix_refl _) _ _ hold).snoc (h.last _ _ hold), by simp⟩
    · split at hns
      · rw [← Option.some.inj hns]
        exact ⟨List.isChain_singleton _, rfl⟩
      · cases hns
  · dsimp only at hns
    rw [if_neg hc] at hns
    rw [Function.update_of_ne (Ne.symm hc)]
    exact ⟨h.regular log (List.prefix_refl _) c ns hns, h.last c ns hns⟩

/-- A message on a connection without a session. -/
theorem send_aside (h : Numbered log out) (hnone : window client log = none) {msg : ClientResponse}
    (hmsg : msg.isReady = false) : Numbered (log ++ [.sent client msg]) out := by
  refine h.snoc (fun c ns hns => ?_)
  unfold Entry.window at hns
  by_cases hc : client = c
  · subst hc
    dsimp only at hns
    rw [if_pos rfl, hnone] at hns
    dsimp only at hns
    rw [hmsg] at hns
    cases hns
  · dsimp only at hns
    rw [if_neg hc] at hns
    exact ⟨h.regular log (List.prefix_refl _) c ns hns, h.last c ns hns⟩

/-- Outside a session, a message that is not Ready opens none. -/
theorem window_send_aside (hnone : window client log = none) {msg : ClientResponse}
    (hmsg : msg.isReady = false) : window client (log ++ [.sent client msg]) = none := by
  rw [window_snoc]
  unfold Entry.window
  dsimp only
  rw [if_pos rfl, hnone]
  dsimp only
  rw [hmsg]
  rfl

/-- Ready, whatever its number, on a connection without a session. -/
theorem send_ready (h : Numbered log out) (hnone : window client log = none) {msg : ClientResponse}
    (hmsg : msg.isReady = true) :
    Numbered (log ++ [.sent client msg]) (Function.update out client msg.msgSeqNum) := by
  refine h.snoc (fun c ns hns => ?_)
  unfold Entry.window at hns
  by_cases hc : client = c
  · subst hc
    dsimp only at hns
    rw [if_pos rfl, hnone] at hns
    dsimp only at hns
    rw [if_pos hmsg] at hns
    rw [← Option.some.inj hns, Function.update_self]
    exact ⟨List.isChain_singleton _, rfl⟩
  · dsimp only at hns
    rw [if_neg hc] at hns
    rw [Function.update_of_ne (Ne.symm hc)]
    exact ⟨h.regular log (List.prefix_refl _) c ns hns, h.last c ns hns⟩

/-- The missed responses, on a connection without a session. -/
theorem resend_aside (h : Numbered log out) (hnone : window client log = none) (n : Nat)
    (missed : List OrderResponse) :
    Numbered (log ++ (missed.zipIdx n).map fun r => .sent client ⟨.order r.1, r.2⟩) out ∧
      window client (log ++ (missed.zipIdx n).map fun r => .sent client ⟨.order r.1, r.2⟩) = none := by
  induction missed generalizing log n with
  | nil =>
    rw [List.zipIdx_nil, List.map_nil, List.append_nil]
    exact ⟨h, hnone⟩
  | cons r missed ih =>
    rw [List.zipIdx_cons, List.map_cons, List.append_cons]
    exact ih (h.send_aside hnone rfl) (window_send_aside hnone rfl) (n + 1)

/-- The missed responses, where they are the next messages. -/
theorem resend (h : Numbered log out) (missed : List OrderResponse) :
    Numbered (log ++ (missed.zipIdx (out client + 1)).map fun r => .sent client ⟨.order r.1, r.2⟩)
      (Function.update out client (out client + missed.length)) := by
  induction missed generalizing log out with
  | nil =>
    rw [List.zipIdx_nil, List.map_nil, List.append_nil, List.length_nil, Nat.add_zero,
      Function.update_eq_self]
    exact h
  | cons r missed ih =>
    have hih := ih (h.send client (.order r))
    rw [Function.update_self, Function.update_idem] at hih
    rw [List.zipIdx_cons, List.map_cons, List.append_cons, List.length_cons,
      show out client + (missed.length + 1) = out client + 1 + missed.length by omega]
    exact hih

end Numbered

namespace Service

variable {g : Service σ} {client : σ}

/-- A logon disturbs no session. One that is refused comes on a connection without a session,
or on the one that is registered, and no other session is registered under the id it names. One
that is accepted comes on a connection without a session, or goes on from its numbers. -/
def Seamless (g : Service σ) : Event σ → Prop
  | .message client ⟨.admin .logOn clientId ackSeqNum, msgSeqNum⟩ answers =>
    if g.accepts clientId msgSeqNum ackSeqNum = true then
      window client g.log ≠ none →
        (answers.missed = [] ∨ ackSeqNum = g.outboundSeqNum client) ∧
          g.expectedAckSeqNum clientId = g.outboundSeqNum client + answers.missed.length
    else
      (window client g.log ≠ none → g.manager.clients clientId = some client) ∧
        ∀ c, g.manager.clients clientId = some c → c ≠ client → window c g.log = none
  | _ => True

/-- The numbers of a process are those of its messages. -/
def InStep (g : Service σ) : Prop := Numbered g.log g.outboundSeqNum

namespace InStep

theorem sendNext (h : InStep g) (data : ClientResponseData) : InStep (g.sendNext client data) :=
  Numbered.send h client data

theorem sendAll (h : InStep g) (resps : List OrderResponse) :
    InStep (resps.foldl (fun g resp => g.sendNext client (.order resp)) g) := by
  induction resps generalizing g with
  | nil => exact h
  | cons resp resps ih => exact ih (h.sendNext _)

/-- A refusal keeps in step where the number it takes is that of no open session. -/
theorem rejectLogon (h : InStep g) {clientId : UInt32}
    (hown : window client g.log ≠ none → g.manager.clients clientId = some client)
    (hother : ∀ c, g.manager.clients clientId = some c → c ≠ client → window c g.log = none) :
    InStep (g.rejectLogon client clientId) := by
  unfold Service.rejectLogon
  dsimp only
  split
  · rename_i old hold
    by_cases hc : old = client
    · subst hc
      exact Numbered.send h _ _
    · -- the number is taken from one connection, and the message goes to another
      have hnone : window client g.log = none := by
        by_contra hsome
        rw [hold] at hown
        exact hc (Option.some.inj (hown hsome))
      exact (Numbered.renumber h (hother old hold hc) _).send_aside hnone rfl
  · rename_i hnoone
    have hnone : window client g.log = none := by
      by_contra hsome
      rw [hnoone] at hown
      cases hown hsome
    exact Numbered.send_aside h hnone rfl

/-- The session that is replaced gets one more message. The numbers are right but for the new
session's, which will be set. -/
theorem takeOver (h : InStep g) (client : σ) (clientId : UInt32) :
    ∃ out, Numbered (g.takeOver client clientId).log out ∧ out client = g.outboundSeqNum client ∧
      window client (g.takeOver client clientId).log = window client g.log ∧
      ∀ n, Function.update (g.takeOver client clientId).outboundSeqNum client n =
        Function.update out client n := by
  unfold Service.takeOver
  split
  · exact ⟨_, h, rfl, rfl, fun _ => rfl⟩
  · rename_i old hold
    dsimp only
    split
    · rename_i hc
      subst hc
      refine ⟨_, h, rfl, rfl, fun n => ?_⟩
      exact Function.update_idem _ _ _
    · rename_i hc
      have hshared : g.sharedMsgSeqNum clientId = g.outboundSeqNum old + 1 := by
        unfold sharedMsgSeqNum expectedAckSeqNum
        rw [hold]
      refine ⟨Function.update g.outboundSeqNum old (g.outboundSeqNum old + 1), ?_,
        Function.update_of_ne (Ne.symm hc) _ _, ?_, fun n => rfl⟩
      · rw [hshared]
        show Numbered (g.log ++ ([_] ++ [_])) _
        rw [← List.append_assoc]
        refine (Numbered.send h old _).pass (fun c w => ?_)
        unfold Entry.window
        dsimp only
        split
        · exact Or.inr rfl
        · exact Or.inl rfl
      · show window client (g.log ++ ([_] ++ [_])) = _
        rw [← List.append_assoc, window_snoc, window_snoc]
        unfold Entry.window
        dsimp only
        rw [if_neg hc, if_neg hc]

/-- An accepted logon opens a session at the number it resends from. -/
theorem logon (h : InStep g) {clientId : UInt32} {msgSeqNum ackSeqNum : Nat} {answers : Answers}
    (hacc : g.accepts clientId msgSeqNum ackSeqNum = true)
    (hgoes : window client g.log ≠ none →
      (answers.missed = [] ∨ ackSeqNum = g.outboundSeqNum client) ∧
        g.expectedAckSeqNum clientId = g.outboundSeqNum client + answers.missed.length) :
    InStep (g.handleClientLogon client clientId msgSeqNum ackSeqNum answers.missed) := by
  obtain ⟨out, hout, hclient, hwindow, hupdate⟩ := h.takeOver client clientId
  have hon : Numbered ((g.takeOver client clientId).log ++ [.loggedOn client clientId]) out :=
    hout.pass fun _ _ => Or.inl rfl
  have hwindow' : window client ((g.takeOver client clientId).log ++ [.loggedOn client clientId]) =
      window client g.log := (window_snoc _ _ _).trans hwindow
  have hnumbers : (g.handleClientLogon client clientId msgSeqNum ackSeqNum
      answers.missed).outboundSeqNum = Function.update out client (g.sharedMsgSeqNum clientId) := by
    unfold handleClientLogon
    rw [if_pos hacc, ← hupdate]
    rfl
  have hlog : (g.handleClientLogon client clientId msgSeqNum ackSeqNum answers.missed).log =
      (((g.takeOver client clientId).log ++ [.loggedOn client clientId]) ++
        (answers.missed.zipIdx (ackSeqNum + 1)).map fun r => .sent client ⟨.order r.1, r.2⟩) ++
        [.sent client ⟨.admin .ready clientId (g.expectedMsgSeqNum clientId) .none,
          g.sharedMsgSeqNum clientId⟩] := by
    unfold handleClientLogon
    rw [if_pos hacc]
    rfl
  unfold InStep
  rw [hnumbers, hlog]
  cases hw : window client g.log with
  | none =>
    obtain ⟨hsent, hnone⟩ := hon.resend_aside (hwindow'.trans hw) (ackSeqNum + 1) answers.missed
    exact hsent.send_ready hnone rfl
  | some ns =>
    obtain ⟨hmissed, hexpected⟩ := hgoes (by rw [hw]; exact Option.some_ne_none _)
    -- the numbers of what is resent go on from the session's
    have hsent : Numbered (((g.takeOver client clientId).log ++ [.loggedOn client clientId]) ++
        (answers.missed.zipIdx (ackSeqNum + 1)).map fun r => .sent client ⟨.order r.1, r.2⟩)
        (Function.update out client (out client + answers.missed.length)) := by
      rcases hmissed with hnil | hack
      · rw [hnil, List.zipIdx_nil, List.map_nil, List.append_nil, List.length_nil, Nat.add_zero,
          Function.update_eq_self]
        exact hon
      · rw [hack, ← hclient]
        exact hon.resend answers.missed
    have hready := hsent.send client (.admin .ready clientId (g.expectedMsgSeqNum clientId) .none)
    rw [Function.update_self, Function.update_idem] at hready
    have hshared : g.sharedMsgSeqNum clientId = out client + answers.missed.length + 1 := by
      unfold sharedMsgSeqNum
      rw [hexpected, hclient]
    rw [hshared]
    exact hready

theorem forget (h : InStep g) : InStep (g.forget client) := by
  unfold Service.forget
  split
  · exact h
  · exact h

theorem handleClientLogout (h : InStep g) : InStep (g.handleClientLogout client) := by
  unfold Service.handleClientLogout
  dsimp only
  split
  · exact h
  · split
    · exact forget (Numbered.pass h fun _ _ => Or.inl rfl)
    · exact h.forget

theorem onClose (h : InStep g) : InStep (g.onClose client) := by
  unfold Service.onClose
  split
  · exact h
  · rw [handleClientLogout_closed g client (Function.update g.closed client true)]
    refine Numbered.pass h.handleClientLogout (fun c w => ?_)
    unfold Entry.window
    dsimp only
    split
    · exact Or.inr rfl
    · exact Or.inl rfl

theorem placeOrder (h : InStep g) (msgSeqNum : Nat) (req : OrderRequest) (room : Bool) :
    InStep (g.placeOrder client msgSeqNum req room) := by
  unfold Service.placeOrder
  split
  · exact h
  · split
    · exact Numbered.pass h fun _ _ => Or.inl rfl
    · exact h

theorem handleExecutionResponse (h : InStep g) (resp : OrderResponse) :
    InStep (g.handleExecutionResponse resp) := by
  unfold Service.handleExecutionResponse
  dsimp only
  split
  · exact h
  · exact sendNext (show InStep { g with manager := _ } from h) _

/-- Every request that is no logon keeps the numbers. -/
theorem processClientRequest (h : InStep g) {request : ClientRequest} {answers : Answers}
    (hon : ∀ clientId ackSeqNum, request.data ≠ .admin .logOn clientId ackSeqNum) :
    InStep (g.processClientRequest client request answers) := by
  obtain ⟨data, n⟩ := request
  -- a request that is not the next one is refused
  have hwrong : ∀ (g' : Service σ) d, InStep g' →
      InStep (if ¬ g.ready client then g else if n ≠ g.inboundSeqNum client + 1 then
        g.sendNext client d else g') := by
    intro g' d hg'
    split
    · exact h
    · split
      · exact h.sendNext d
      · exact hg'
  unfold Service.processClientRequest
  cases data with
  | admin action clientId ack =>
    cases action with
    | logOn => exact absurd rfl (hon clientId ack)
    | logOut => exact h.handleClientLogout
    | other code => exact h
  | order req => exact hwrong _ _ (placeOrder (show InStep (g.incrementInboundSeqNum client) from h) n req _)
  | position clientId symbolId =>
    exact hwrong _ _ (sendNext (show InStep (g.incrementInboundSeqNum client) from h) _)
  | openOrders clientId =>
    exact hwrong _ _ (sendAll (show InStep (g.incrementInboundSeqNum client) from h) _)
  | other => exact hwrong _ _ (show InStep (g.incrementInboundSeqNum client) from h)

/-- Every event that the condition admits. -/
theorem step (h : InStep g) {e : Event σ} (he : g.Seamless e) : InStep (g.step e) := by
  cases e with
  | message client request answers =>
    obtain ⟨data, n⟩ := request
    by_cases hon : ∃ clientId ack, data = .admin .logOn clientId ack
    · obtain ⟨clientId, ack, rfl⟩ := hon
      show InStep (g.handleClientLogon client clientId n ack answers.missed)
      by_cases hacc : g.accepts clientId n ack = true
      · exact h.logon hacc ((if_pos hacc).mp he)
      · obtain ⟨hown, hother⟩ := (if_neg hacc).mp he
        unfold handleClientLogon
        rw [if_neg hacc]
        exact h.rejectLogon hown hother
    · exact h.processClientRequest fun clientId ack heq => hon ⟨clientId, ack, heq⟩
  | close client => exact h.onClose
  | writeFailed client => exact h
  | respond resp => exact h.handleExecutionResponse resp
  | updated resp logOffset => exact Numbered.pass h fun _ _ => Or.inl rfl
  | restart =>
    refine ⟨(Numbered.pass h fun _ _ => Or.inr rfl).regular, fun c ns hns => ?_⟩
    rw [show window c (g.step .restart).log = none from window_snoc _ _ _] at hns
    cases hns

/-- At the start no session is open. -/
theorem start (m : ClientManager σ) (iSeqNums oSeqNums : UInt32 → Nat) :
    InStep (start m iSeqNums oSeqNums) := by
  refine ⟨fun pre hpre c ns hns => ?_, fun c ns hns => (nomatch hns)⟩
  rw [List.prefix_nil.mp hpre] at hns
  cases hns

end InStep

/-- At every time of a run without disturbing logons, the messages on a connection from its
Ready on, until it is replaced or closed, bear consecutive numbers. -/
theorem session_numbers_consecutive (m : ClientManager σ) (iSeqNums oSeqNums : UInt32 → Nat)
    (events : List (Event σ)) (h : Along Seamless (start m iSeqNums oSeqNums) events)
    (log : List (Entry σ)) (hlog : log <+: ((start m iSeqNums oSeqNums).run events).log)
    (client : σ) (ns : List Nat) (hns : window client log = some ns) : Consecutive ns :=
  (h.preserves (fun _ _ hg he => hg.step he) (InStep.start m iSeqNums oSeqNums)).regular log hlog
    client ns hns

/-- Client 7 logs on and asks for a position, while client 8 tries a logon with a wrong
number. -/
def apartRun : List (Event Nat) :=
  [.message 0 ⟨.admin .logOn 7 0, 1⟩ .quiet, .message 1 ⟨.admin .logOn 8 0, 99⟩ .quiet,
    .message 0 ⟨.position 7 1, 2⟩ .quiet]

theorem apartRun_consecutive : Along Seamless (start oneRing (fun _ => 0) (fun _ => 0)) apartRun ∧
    Consecutive [1, 2] := by
  have halong : Along Seamless (start oneRing (fun _ => 0) (fun _ => 0)) apartRun := by
    refine ⟨?_, ⟨?_, ?_⟩, trivial, trivial⟩
    · exact fun hne => absurd rfl hne
    · exact fun hne => absurd rfl hne
    · exact fun _ h => (nomatch h)
  exact ⟨halong, session_numbers_consecutive oneRing _ _ _ halong _ (List.prefix_refl _) 0 [1, 2] rfl⟩

/-- A logon that is refused, on another connection, takes a number of client 7's session: its
messages bear 1 and 3. -/
theorem refused_logon_leaves_gap :
    ¬ ∀ log, log <+: ((start oneRing (fun _ => 0) (fun _ => 0)).run
        [.message 0 ⟨.admin .logOn 7 0, 1⟩ .quiet, .message 1 ⟨.admin .logOn 7 0, 99⟩ .quiet,
          .message 0 ⟨.position 7 1, 2⟩ .quiet]).log →
      ∀ client ns, window client log = some ns → Consecutive ns := by
  intro h
  have hgap := h _ (List.prefix_refl _) 0 [1, 3] (by decide)
  exact absurd (List.isChain_pair.mp hgap) (by decide)

end Service

end Exchange.Gateway
