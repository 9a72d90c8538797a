import Exchange.Gateway.Registry

/-!
# No request is taken twice

A request must bear the number after the last one of its session, and a logon the number
after the last one of its client. The numbers of a client are those of its session while
it has one, and those of the database else (`reached`). So none is taken twice as long as
`reached` never goes back: no session takes orders beside the registered one, no logon
moves a connection that is registered for somebody else, and no process ends before the
numbers of its sessions have been saved.

The last is what a crash does not wait for: the database learns the number of a session
from its logout, or its close handler.
-/

namespace Exchange.Gateway.Service

variable {σ : Type} [DecidableEq σ] {g g' : Service σ} {client : σ}

/-- The last number taken from a client. -/
def reached (g : Service σ) (clientId : UInt32) : Nat :=
  match g.manager.clients clientId with
  | some c => g.inboundSeqNum c
  | none => g.iSeqNums clientId

omit [DecidableEq σ] in
/-- A registered client has reached its connection's number, -/
theorem reached_of_registered {clientId : UInt32} {c : σ} (h : g.manager.clients clientId = some c) :
    g.reached clientId = g.inboundSeqNum c := by
  unfold reached
  rw [h]

omit [DecidableEq σ] in
/-- and its next request bears the one after. -/
theorem expectedMsgSeqNum_eq (g : Service σ) (clientId : UInt32) :
    g.expectedMsgSeqNum clientId = g.reached clientId + 1 := by
  unfold expectedMsgSeqNum reached
  cases g.manager.clients clientId <;> rfl

/-- An order comes from a connection that stands, a logon on one that is registered under no
other id, and the process is restarted only when the database has the number of every order
that was placed. -/
def Careful (g : Service σ) : Event σ → Prop
  | .message client ⟨.order req, msgSeqNum⟩ answers =>
    g.Admitted client msgSeqNum req answers → (standing client g.log).isSome = true
  | .message client ⟨.admin .logOn clientId ackSeqNum, msgSeqNum⟩ _ =>
    g.accepts clientId msgSeqNum ackSeqNum = true →
      ∀ id, g.manager.clients id = some client → id = clientId
  | .restart => ∀ p ∈ placedOrders g.log, p.msgSeqNum ≤ g.iSeqNums p.clientId
  | _ => True

/-- Two orders of one client and one number. -/
def Placed.Same (p p' : Placed σ) : Prop := p.clientId = p'.clientId ∧ p.msgSeqNum = p'.msgSeqNum

instance (p p' : Placed σ) : Decidable (Placed.Same p p') :=
  inferInstanceAs (Decidable (_ ∧ _))

/-- Every order that was placed bears a number that its client has reached, and no two bear
the same. -/
structure Once (g : Service σ) : Prop where
  tracked : Tracked g
  entry : ∀ id c, g.manager.clients id = some c → g.manager.clientId c = id
  below : ∀ p ∈ placedOrders g.log, p.msgSeqNum ≤ g.reached p.clientId
  distinct : (placedOrders g.log).Pairwise fun p p' => ¬ Placed.Same p p'

namespace Once

/-- What moves no number back and places nothing. -/
theorem of_le (h : Once g) (htracked : Tracked g')
    (hentry : ∀ id c, g'.manager.clients id = some c → g'.manager.clientId c = id)
    (hplaced : placedOrders g'.log = placedOrders g.log)
    (hle : ∀ p ∈ placedOrders g.log, p.msgSeqNum ≤ g'.reached p.clientId) : Once g' := by
  refine ⟨htracked, hentry, ?_, ?_⟩
  · rw [hplaced]
    exact hle
  · rw [hplaced]
    exact h.distinct

/-- Steps that place nothing and register nobody change nothing here. -/
theorem quiet (h : Once g) (hq : Quiet g g') : Once g' := by
  refine h.of_le (h.tracked.quiet hq) (fun id c hc => ?_) hq.placedOrders (fun p hp => ?_)
  · rw [hq.clients] at hc
    rw [hq.clientId]
    exact h.entry id c hc
  · unfold reached
    rw [hq.clients, hq.inbound, hq.saved]
    exact h.below p hp

/-- Counting a request moves the number reached forward. -/
theorem reached_increment (g : Service σ) (client : σ) (clientId : UInt32) :
    g.reached clientId ≤ (g.incrementInboundSeqNum client).reached clientId := by
  unfold reached
  show _ ≤ match g.manager.clients clientId with
    | some c => Function.update g.inboundSeqNum client (g.inboundSeqNum client + 1) c
    | none => g.iSeqNums clientId
  split
  · rename_i c _
    by_cases hc : c = client
    · rw [hc, Function.update_self]
      omega
    · rw [Function.update_of_ne hc]
  · exact Nat.le_refl _

theorem count (h : Once g) (client : σ) : Once (g.incrementInboundSeqNum client) :=
  h.of_le (h.tracked.congr rfl rfl fun _ => rfl) h.entry rfl
    fun p hp => (h.below p hp).trans (reached_increment g client p.clientId)

/-- The new order bears a number its client has not reached before. -/
theorem place (h : Once g) {msgSeqNum : Nat} {req : OrderRequest} {registered : Option σ}
    (hnumber : msgSeqNum = g.inboundSeqNum client + 1)
    (hstands : (standing client g.log).isSome = true) :
    Once ((g.incrementInboundSeqNum client).note [.placed ⟨client, registered,
      g.manager.clientId client, msgSeqNum, req⟩]) := by
  have hreg := (h.tracked.registered client).mpr hstands
  have hplaced : placedOrders ((g.incrementInboundSeqNum client).note [.placed ⟨client, registered,
      g.manager.clientId client, msgSeqNum, req⟩]).log =
      placedOrders g.log ++ [⟨client, registered, g.manager.clientId client, msgSeqNum, req⟩] :=
    placedOrders_append _ _
  refine ⟨h.tracked.congr rfl rfl fun _ => standing_append _ _ _, h.entry, ?_, ?_⟩
  · rw [hplaced]
    intro p hp
    rcases List.mem_append.mp hp with hp | hp
    · exact (h.below p hp).trans (reached_increment g client p.clientId)
    · rw [List.mem_singleton.mp hp]
      show msgSeqNum ≤ (g.incrementInboundSeqNum client).reached (g.manager.clientId client)
      rw [reached_of_registered (g := g.incrementInboundSeqNum client) hreg, hnumber]
      show g.inboundSeqNum client + 1 ≤
        Function.update g.inboundSeqNum client (g.inboundSeqNum client + 1) client
      rw [Function.update_self]
  · rw [hplaced, List.pairwise_append]
    refine ⟨h.distinct, List.pairwise_singleton _ _, fun p hp p' hp' hsame => ?_⟩
    rw [List.mem_singleton.mp hp'] at hsame
    have hle := h.below p hp
    have hclient : p.clientId = g.manager.clientId client := hsame.1
    have hseq : p.msgSeqNum = msgSeqNum := hsame.2
    rw [hclient, reached_of_registered hreg] at hle
    omega

theorem logon (h : Once g) {clientId : UInt32} {msgSeqNum ackSeqNum : Nat} (shared : Nat)
    (hacc : g.accepts clientId msgSeqNum ackSeqNum = true)
    (hown : ∀ id, g.manager.clients id = some client → id = clientId) :
    Once ((g.takeOver client clientId).register client clientId msgSeqNum shared) := by
  obtain ⟨hmanager, hinbound, hsaved⟩ := g.takeOver_frame client clientId
  have hnumber : msgSeqNum = g.reached clientId + 1 := by
    rw [← g.expectedMsgSeqNum_eq]
    exact (of_decide_eq_true hacc).1
  have hclients : ((g.takeOver client clientId).register client clientId msgSeqNum
      shared).manager.clients = Function.update g.manager.clients clientId (some client) := by
    rw [← hmanager]
    rfl
  have hin : ((g.takeOver client clientId).register client clientId msgSeqNum shared).inboundSeqNum =
      Function.update g.inboundSeqNum client msgSeqNum := by
    rw [← hinbound]
    rfl
  refine h.of_le (h.tracked.logon client clientId msgSeqNum shared) (fun id c hc => ?_) ?_
    (fun p hp => ?_)
  · show Function.update (g.takeOver client clientId).manager.clientId client clientId c = id
    rw [hmanager]
    rw [hclients] at hc
    by_cases hid : id = clientId
    · rw [hid, Function.update_self] at hc
      rw [← Option.some.inj hc, Function.update_self, hid]
    · rw [Function.update_of_ne hid] at hc
      rw [Function.update_of_ne fun hce : c = client => hid (hown id (hce ▸ hc))]
      exact h.entry id c hc
  · exact (placedOrders_append _ _).trans ((List.append_nil _).trans (g.takeOver_placedOrders _ _))
  · refine (h.below p hp).trans ?_
    by_cases hid : p.clientId = clientId
    · have hnew : ((g.takeOver client clientId).register client clientId msgSeqNum shared).reached
          clientId = msgSeqNum := by
        rw [reached_of_registered (c := client) (by rw [hclients, Function.update_self]), hin,
          Function.update_self]
      rw [hid, hnew]
      omega
    · -- every other client has its session, and its number, as before
      unfold reached
      rw [hclients, hin, Function.update_of_ne hid]
      show _ ≤ match g.manager.clients p.clientId with
        | some c => Function.update g.inboundSeqNum client msgSeqNum c
        | none => (g.takeOver client clientId).iSeqNums p.clientId
      rw [hsaved]
      split
      · rename_i c hc
        rw [Function.update_of_ne fun hce : c = client => hid (hown _ (hce ▸ hc))]
      · exact Nat.le_refl _

theorem logout (h : Once g) (hreg : g.manager.clients (g.manager.clientId client) = some client) :
    Once (g.unregister client (g.manager.clientId client)) := by
  refine h.of_le (h.tracked.logout hreg) (fun id c hc => ?_)
    ((placedOrders_append _ _).trans (List.append_nil _)) (fun p hp => ?_)
  · change Function.update g.manager.clients (g.manager.clientId client) none id = some c at hc
    by_cases hid : id = g.manager.clientId client
    · rw [hid, Function.update_self] at hc
      cases hc
    · rw [Function.update_of_ne hid] at hc
      exact h.entry id c hc
  · refine (h.below p hp).trans (le_of_eq ?_)
    by_cases hid : p.clientId = g.manager.clientId client
    · rw [hid, reached_of_registered hreg]
      unfold reached
      show _ = match Function.update g.manager.clients (g.manager.clientId client) none
          (g.manager.clientId client) with
        | some c => g.inboundSeqNum c
        | none => Function.update g.iSeqNums (g.manager.clientId client) (g.inboundSeqNum client)
          (g.manager.clientId client)
      rw [Function.update_self, Function.update_self]
    · unfold reached
      show _ = match Function.update g.manager.clients (g.manager.clientId client) none p.clientId with
        | some c => g.inboundSeqNum c
        | none => Function.update g.iSeqNums (g.manager.clientId client) (g.inboundSeqNum client)
          p.clientId
      rw [Function.update_of_ne hid, Function.update_of_ne hid]

theorem handleClientLogout (h : Once g) (client : σ) : Once (g.handleClientLogout client) := by
  rcases g.handleClientLogout_cases client with ⟨-, hreg, hq⟩ | ⟨-, hq⟩
  · exact (h.logout hreg).quiet hq
  · exact h.quiet hq

theorem restart (h : Once g) (hsaved : ∀ p ∈ placedOrders g.log, p.msgSeqNum ≤ g.iSeqNums p.clientId) :
    Once g.restart :=
  h.of_le Tracked.restart (fun _ _ h => (nomatch h))
    ((placedOrders_append _ _).trans (List.append_nil _)) hsaved

theorem step (h : Once g) {e : Event σ} (he : g.Careful e) : Once (g.step e) := by
  obtain ⟨g', hmoves, hq⟩ := g.step_moves e
  refine quiet ?_ hq
  cases hmoves with
  | idle => exact h
  | count client request answers => exact h.count client
  | place client n req answers hadm => exact h.place hadm.number (he hadm)
  | logon client clientId n ack answers hacc => exact h.logon _ hacc (he hacc)
  | logout client clientId n ack answers => exact h.handleClientLogout client
  | close client hopen =>
    have hlogout := h.handleClientLogout client
    exact hlogout.of_le (hlogout.tracked.congr rfl rfl fun _ => standing_append _ _ _) hlogout.entry
      ((placedOrders_append _ _).trans (List.append_nil _)) hlogout.below
  | restart => exact h.restart he

/-- At the start nothing is placed. -/
theorem start (m : ClientManager σ) (iSeqNums oSeqNums : UInt32 → Nat) :
    Once (start m iSeqNums oSeqNums) :=
  ⟨Tracked.start m iSeqNums oSeqNums, fun _ _ h => (nomatch h),
    fun _ hp => absurd hp List.not_mem_nil, List.Pairwise.nil⟩

end Once

/-- No two orders of one client and one number are placed, whatever is sent again and
however often the process is restarted, if every event is careful. -/
theorem no_order_placed_twice (m : ClientManager σ) (iSeqNums oSeqNums : UInt32 → Nat)
    (events : List (Event σ)) (h : Along Careful (start m iSeqNums oSeqNums) events) :
    (placedOrders ((start m iSeqNums oSeqNums).run events).log).Pairwise
      fun p p' => ¬ Placed.Same p p' :=
  (h.preserves (fun _ _ hg he => hg.step he) (Once.start m iSeqNums oSeqNums)).distinct

/-- Client 7 logs on, sends an order and logs out; the process is restarted, and all goes on
from the number that was saved. -/
def savedRun : List (Event Nat) :=
  [.message 0 ⟨.admin .logOn 7 0, 1⟩ .quiet, .message 0 ⟨.order order7, 2⟩ .quiet,
    .message 0 ⟨.admin .logOut 7 0, 3⟩ .quiet, .restart, .message 1 ⟨.admin .logOn 7 0, 3⟩ .quiet,
    .message 1 ⟨.order order7, 4⟩ .quiet]

theorem savedRun_placed_once : Along Careful (start oneRing (fun _ => 0) (fun _ => 0)) savedRun ∧
    (placedOrders ((start oneRing (fun _ => 0) (fun _ => 0)).run savedRun).log).Pairwise
      fun p p' => ¬ Placed.Same p p' := by
  have halong : Along Careful (start oneRing (fun _ => 0) (fun _ => 0)) savedRun := by
    refine ⟨fun _ _ h => (nomatch h), fun _ => by decide, trivial, ?_, fun _ _ h => (nomatch h),
      fun _ => by decide, trivial⟩
    show ∀ p ∈ placedOrders _, _
    decide
  exact ⟨halong, no_order_placed_twice oneRing _ _ _ halong⟩

/-- The process is restarted while client 7 is logged on. The number of its order is not in
the database, and the order is taken again. -/
theorem crash_places_twice :
    ¬ (placedOrders ((start oneRing (fun _ => 0) (fun _ => 0)).run
      [.message 0 ⟨.admin .logOn 7 0, 1⟩ .quiet, .message 0 ⟨.order order7, 2⟩ .quiet, .restart,
        .message 1 ⟨.admin .logOn 7 0, 1⟩ .quiet, .message 1 ⟨.order order7, 2⟩ .quiet]).log).Pairwise
      fun p p' => ¬ Placed.Same p p' := by
  decide

end Exchange.Gateway.Service
