import Exchange.Gateway.Sessions

/-!
# Who is registered, and who may trade

`clients_` has the session of each client. What `process_client_request` looks at before
it takes an order is something else: the flag `ready_`, which a logon sets and nothing
takes back. A session that has logged out, or was replaced by a later logon, is as good
as before until its connection is gone.

The map is keyed by client id, and logouts look their entry up by the id the connection
has now. A second logon on one connection under another id leaves the first entry behind.

The number an order must bear is the session's. It gets to the database when the session
ends, and not when the process does.
-/

namespace Exchange.Gateway

variable {σ : Type} [DecidableEq σ]

/-! ## What the history says -/

/-- What an entry says about the client id a connection stands for. -/
def Entry.stand (client : σ) (s : Option UInt32) : Entry σ → Option UInt32
  | .loggedOn c clientId => if c = client then some clientId else s
  | .replaced c clientId => if c = client ∧ s = some clientId then none else s
  | .loggedOut c => if c = client then none else s
  | .restarted => none
  | _ => s

/-- The client id a connection stands for: it has logged on under it, and since then it has
neither logged out nor been replaced. -/
def standing (client : σ) (log : List (Entry σ)) : Option UInt32 := log.foldl (Entry.stand client) none

/-- What an entry says about the close handler of a connection. -/
def Entry.handle (client : σ) (s : Bool) : Entry σ → Bool
  | .closed c => if c = client then true else s
  | .restarted => false
  | _ => s

/-- The close handler of the connection has run. -/
def handled (client : σ) (log : List (Entry σ)) : Bool := log.foldl (Entry.handle client) false

/-- The orders that went into rings. -/
def placedOrders (log : List (Entry σ)) : List (Placed σ) :=
  log.filterMap fun x =>
    match x with
    | .placed p => some p
    | _ => none

omit [DecidableEq σ] in
/-- Quiet entries are passed over by every scan that passes over each of them. -/
theorem foldl_quiet {α : Type} {f : α → Entry σ → α} (hf : ∀ s x, x.quiet = true → f s x = s)
    {l : List (Entry σ)} (hl : ∀ x ∈ l, x.quiet = true) (s : α) : l.foldl f s = s := by
  induction l generalizing s with
  | nil => rfl
  | cons x l ih =>
    rw [List.foldl_cons, hf s x (hl x List.mem_cons_self)]
    exact ih (fun y hy => hl y (List.mem_cons_of_mem _ hy)) s

theorem standing_append (client : σ) (log l : List (Entry σ)) :
    standing client (log ++ l) = l.foldl (Entry.stand client) (standing client log) :=
  List.foldl_append

theorem handled_append (client : σ) (log l : List (Entry σ)) :
    handled client (log ++ l) = l.foldl (Entry.handle client) (handled client log) :=
  List.foldl_append

omit [DecidableEq σ] in
theorem placedOrders_append (log l : List (Entry σ)) :
    placedOrders (log ++ l) = placedOrders log ++ placedOrders l := List.filterMap_append

namespace Service

variable {g g' : Service σ} {client : σ}

/-- What is quiet changes nothing of who stands on a connection. -/
theorem Quiet.standing (h : Quiet g g') (client : σ) :
    standing client g'.log = standing client g.log := by
  obtain ⟨l, hl, hq⟩ := h.log
  rw [hl, standing_append]
  refine foldl_quiet (fun s x hx => ?_) hq _
  cases x <;> first | rfl | cases hx

theorem Quiet.handled (h : Quiet g g') (client : σ) : handled client g'.log = handled client g.log := by
  obtain ⟨l, hl, hq⟩ := h.log
  rw [hl, handled_append]
  refine foldl_quiet (fun s x hx => ?_) hq _
  cases x <;> first | rfl | cases hx

omit [DecidableEq σ] in
theorem Quiet.placedOrders (h : Quiet g g') : placedOrders g'.log = placedOrders g.log := by
  obtain ⟨l, hl, hq⟩ := h.log
  have hnil : Gateway.placedOrders l = [] := by
    refine List.filterMap_eq_nil_iff.mpr (fun x hx => ?_)
    have := hq x hx
    cases x <;> first | rfl | cases this
  rw [hl, placedOrders_append, hnil, List.append_nil]

/-! ## A logon

What `takeOver` and `register` leave behind, for each thing that is asked below. -/

/-- Taking a session over leaves the registry and the inbound numbers. -/
theorem takeOver_frame (g : Service σ) (client : σ) (clientId : UInt32) :
    (g.takeOver client clientId).manager = g.manager ∧
      (g.takeOver client clientId).inboundSeqNum = g.inboundSeqNum ∧
      (g.takeOver client clientId).iSeqNums = g.iSeqNums := by
  unfold takeOver
  dsimp only
  split
  · exact ⟨rfl, rfl, rfl⟩
  · split
    · exact ⟨rfl, rfl, rfl⟩
    · exact ⟨rfl, rfl, rfl⟩

/-- A takeover ends what the old session stood for. -/
theorem takeOver_standing (g : Service σ) (client x : σ) (clientId : UInt32) :
    standing x (g.takeOver client clientId).log =
      if g.manager.clients clientId = some x ∧ x ≠ client ∧ standing x g.log = some clientId then none
      else standing x g.log := by
  unfold takeOver
  split
  · rename_i hnone
    rw [if_neg (by rw [hnone]; simp)]
  · rename_i old hold
    dsimp only
    split
    · rename_i heq
      rw [if_neg (by rw [hold, heq]; rintro ⟨h, hne, -⟩; exact hne (Option.some.inj h).symm)]
      rfl
    · rename_i hne
      show standing x (g.log ++ _) = _
      rw [standing_append]
      show (if old = x ∧ standing x g.log = some clientId then none else standing x g.log) = _
      by_cases hx : old = x
      · subst hx
        simp [hold, hne]
      · rw [if_neg (fun h => hx h.1), if_neg (fun h => hx (by rw [hold] at h; exact Option.some.inj h.1))]

theorem takeOver_handled (g : Service σ) (client x : σ) (clientId : UInt32) :
    handled x (g.takeOver client clientId).log = handled x g.log := by
  unfold takeOver
  split
  · rfl
  · dsimp only
    split
    · rfl
    · exact handled_append _ _ _

theorem takeOver_placedOrders (g : Service σ) (client : σ) (clientId : UInt32) :
    placedOrders (g.takeOver client clientId).log = placedOrders g.log := by
  unfold takeOver
  split
  · rfl
  · dsimp only
    split
    · rfl
    · exact (placedOrders_append _ _).trans (List.append_nil _)

/-- Registering sets who stands on the connection. -/
theorem register_standing (g : Service σ) (client x : σ) (clientId : UInt32) (msgSeqNum shared : Nat) :
    standing x (g.register client clientId msgSeqNum shared).log =
      if client = x then some clientId else standing x g.log := standing_append _ _ _

/-! ## The sessions that stand -/

/-- A connection is registered under its id exactly when it stands. -/
structure Tracked (g : Service σ) : Prop where
  registered : ∀ c, g.manager.clients (g.manager.clientId c) = some c ↔ (standing c g.log).isSome
  id : ∀ c i, standing c g.log = some i → g.manager.clientId c = i

namespace Tracked

/-- The invariant sees the registry and what each connection stands for. -/
theorem congr (h : Tracked g) (hclients : g'.manager.clients = g.manager.clients)
    (hid : g'.manager.clientId = g.manager.clientId)
    (hstand : ∀ c, standing c g'.log = standing c g.log) : Tracked g' := by
  refine ⟨fun c => ?_, fun c i hi => ?_⟩
  · rw [hclients, hid, hstand]
    exact h.registered c
  · rw [hid]
    rw [hstand] at hi
    exact h.id c i hi

theorem logon (h : Tracked g) (client : σ) (clientId : UInt32) (msgSeqNum shared : Nat) :
    Tracked ((g.takeOver client clientId).register client clientId msgSeqNum shared) := by
  obtain ⟨hmanager, -, -⟩ := g.takeOver_frame client clientId
  refine ⟨fun c => ?_, fun c i hi => ?_⟩
  · rw [register_standing, takeOver_standing]
    show Function.update (g.takeOver client clientId).manager.clients clientId (some client)
      (Function.update (g.takeOver client clientId).manager.clientId client clientId c) = some c ↔ _
    rw [hmanager]
    by_cases hc : c = client
    · subst hc
      simp
    · rw [Function.update_of_ne hc, if_neg (Ne.symm hc)]
      by_cases hi : g.manager.clientId c = clientId
      · -- the id was taken over, from `c` or from another session
        have hstand : g.manager.clients clientId = some c ↔ (standing c g.log).isSome = true := by
          rw [← h.registered c, hi]
        rw [hi, Function.update_self]
        refine ⟨fun heq => absurd (Option.some.inj heq).symm hc, fun hsome => ?_⟩
        split at hsome
        · cases hsome
        · rename_i hno
          obtain ⟨i, hs⟩ := Option.isSome_iff_exists.mp hsome
          refine absurd ⟨hstand.mpr hsome, hc, ?_⟩ hno
          rw [hs, ← h.id c i hs, hi]
      · rw [Function.update_of_ne hi, h.registered c, if_neg]
        intro ⟨_, _, hs⟩
        exact hi (h.id c clientId hs)
  · show Function.update (g.takeOver client clientId).manager.clientId client clientId c = i
    rw [register_standing, takeOver_standing] at hi
    rw [hmanager]
    split at hi
    · rename_i hc
      rw [← hc, Function.update_self]
      exact Option.some.inj hi
    · rename_i hc
      rw [Function.update_of_ne (Ne.symm hc)]
      split at hi
      · cases hi
      · exact h.id c i hi

theorem logout (h : Tracked g) (hreg : g.manager.clients (g.manager.clientId client) = some client) :
    Tracked (g.unregister client (g.manager.clientId client)) := by
  have hstand : ∀ c, standing c (g.unregister client (g.manager.clientId client)).log =
      if client = c then none else standing c g.log := fun c => standing_append _ _ _
  refine ⟨fun c => ?_, fun c i hi => ?_⟩
  · rw [hstand]
    show Function.update g.manager.clients (g.manager.clientId client) none (g.manager.clientId c) =
      some c ↔ _
    by_cases hc : client = c
    · subst hc
      simp
    · rw [if_neg hc]
      by_cases hi : g.manager.clientId c = g.manager.clientId client
      · rw [← h.registered c, hi, Function.update_self, hreg]
        simp [hc]
      · rw [Function.update_of_ne hi, h.registered c]
  · rw [hstand] at hi
    split at hi
    · cases hi
    · exact h.id c i hi

theorem restart : Tracked g.restart := by
  have hstand : ∀ c, standing c g.restart.log = none := fun c => standing_append _ _ _
  refine ⟨fun c => ?_, fun c i hi => ?_⟩
  · rw [hstand]
    exact ⟨fun h => (nomatch h), fun h => (nomatch h)⟩
  · rw [hstand] at hi
    cases hi

theorem quiet (h : Tracked g) (hq : Quiet g g') : Tracked g' :=
  h.congr hq.clients hq.clientId hq.standing

theorem handleClientLogout (h : Tracked g) (client : σ) : Tracked (g.handleClientLogout client) := by
  rcases g.handleClientLogout_cases client with ⟨-, hreg, hq⟩ | ⟨-, hq⟩
  · exact (h.logout hreg).quiet hq
  · exact h.quiet hq

theorem step (h : Tracked g) (e : Event σ) : Tracked (g.step e) := by
  obtain ⟨g', hmoves, hq⟩ := g.step_moves e
  refine quiet ?_ hq
  cases hmoves with
  | idle => exact h
  | count client request answers => exact h.congr rfl rfl fun _ => rfl
  | place client n req answers hadm => exact h.congr rfl rfl fun _ => standing_append _ _ _
  | logon client clientId n ack answers hacc => exact h.logon client clientId n _
  | logout client clientId n ack answers => exact h.handleClientLogout client
  | close client hopen =>
    exact (h.handleClientLogout client).congr rfl rfl fun _ => standing_append _ _ _
  | restart => exact restart

/-- At the start nobody stands anywhere. -/
theorem start (m : ClientManager σ) (iSeqNums oSeqNums : UInt32 → Nat) :
    Tracked (start m iSeqNums oSeqNums) :=
  ⟨fun _ => ⟨fun h => (nomatch h), fun h => (nomatch h)⟩, fun _ _ h => (nomatch h)⟩

end Tracked

/-! ## Orders -/

/-- An order that passes the checks comes from a connection that has not logged out, and was
not replaced, since it last logged on. -/
def FromStanding (g : Service σ) : Event σ → Prop
  | .message client ⟨.order req, msgSeqNum⟩ answers =>
    g.Admitted client msgSeqNum req answers → (standing client g.log).isSome = true
  | _ => True

/-- The orders of an event: one, if it is admitted. -/
theorem step_placedOrders (g : Service σ) (e : Event σ)
    (hno : ∀ client msgSeqNum req answers, e = .message client ⟨.order req, msgSeqNum⟩ answers →
      ¬ g.Admitted client msgSeqNum req answers) :
    placedOrders (g.step e).log = placedOrders g.log := by
  obtain ⟨g', hmoves, hq⟩ := g.step_moves e
  rw [hq.placedOrders]
  have hlogout : ∀ client, placedOrders (g.handleClientLogout client).log = placedOrders g.log := by
    intro client
    rcases g.handleClientLogout_cases client with ⟨-, -, hq⟩ | ⟨-, hq⟩
    · rw [hq.placedOrders]
      exact (placedOrders_append _ _).trans (List.append_nil _)
    · exact hq.placedOrders
  cases hmoves with
  | idle => rfl
  | count client request answers => rfl
  | place client n req answers hadm => exact absurd hadm (hno client n req answers rfl)
  | logon client clientId n ack answers hacc =>
    refine (placedOrders_append _ _).trans ?_
    rw [takeOver_placedOrders]
    exact List.append_nil _
  | logout client clientId n ack answers => exact hlogout client
  | close client hopen =>
    refine (placedOrders_append _ _).trans ?_
    rw [hlogout]
    exact List.append_nil _
  | restart => exact (placedOrders_append _ _).trans (List.append_nil _)

/-- An admitted order is placed once, for the client that is registered. -/
theorem step_admitted_placedOrders {msgSeqNum : Nat} {req : OrderRequest} {answers : Answers}
    (hadm : g.Admitted client msgSeqNum req answers) :
    placedOrders (g.step (.message client ⟨.order req, msgSeqNum⟩ answers)).log =
      placedOrders g.log ++ [⟨client, g.manager.clients (g.manager.clientId client),
        g.manager.clientId client, msgSeqNum, req⟩] := by
  rw [(step_admitted hadm).placedOrders]
  exact placedOrders_append _ _

/-- One event keeps the claim exactly when it meets the condition. -/
theorem step_fromStanding (h : Tracked g) (e : Event σ) :
    (∀ p ∈ placedOrders (g.step e).log, p.registered = some p.client) ↔
      (∀ p ∈ placedOrders g.log, p.registered = some p.client) ∧ g.FromStanding e := by
  by_cases horder : ∃ client n req answers, e = .message client ⟨.order req, n⟩ answers ∧
      g.Admitted client n req answers
  · obtain ⟨client, n, req, answers, rfl, hadm⟩ := horder
    rw [step_admitted_placedOrders hadm, List.forall_mem_append, List.forall_mem_singleton]
    refine and_congr_right fun _ => ?_
    show g.manager.clients (g.manager.clientId client) = some client ↔ (_ → _)
    rw [h.registered client]
    exact ⟨fun hs _ => hs, fun hs => hs hadm⟩
  · rw [g.step_placedOrders e fun c n req a he hadm => horder ⟨c, n, req, a, he, hadm⟩]
    refine (and_iff_left ?_).symm
    unfold FromStanding
    split
    · rename_i c req n a
      exact fun hadm => absurd ⟨c, n, req, a, rfl, hadm⟩ horder
    · exact trivial

/-- By induction on the events: all is placed by who stands, exactly if each order is. -/
theorem run_fromStanding {events : List (Event σ)} (h : Tracked g) :
    (∀ p ∈ placedOrders (g.run events).log, p.registered = some p.client) ↔
      (∀ p ∈ placedOrders g.log, p.registered = some p.client) ∧ Along FromStanding g events := by
  induction events generalizing g with
  | nil => exact (and_iff_left trivial).symm
  | cons e events ih =>
    show (∀ p ∈ placedOrders ((g.step e).run events).log, _) ↔ _
    rw [ih (h.step e), step_fromStanding h e, and_assoc]
    rfl

/-- Every order that went into a ring came from the registered session of its client, in
exactly the runs in which no order that passes the checks comes from a connection that
has logged out or was replaced. -/
theorem only_registered_trade (m : ClientManager σ) (iSeqNums oSeqNums : UInt32 → Nat)
    (events : List (Event σ)) :
    (∀ p ∈ placedOrders ((start m iSeqNums oSeqNums).run events).log, p.registered = some p.client) ↔
      Along FromStanding (start m iSeqNums oSeqNums) events := by
  rw [run_fromStanding (Tracked.start m iSeqNums oSeqNums)]
  exact and_iff_right fun _ hp => absurd hp List.not_mem_nil

/-- A limit order of client 7. -/
def order7 : OrderRequest := ⟨.new, 0, 1, 7, 1, .buy, .limit, 100, 5, 0, 0⟩

/-- Connection 0 logs on as client 7, logs out, and sends an order, which is placed. -/
theorem logged_out_trades :
    ¬ ∀ p ∈ placedOrders ((start oneRing (fun _ => 0) (fun _ => 0)).run
      [.message 0 ⟨.admin .logOn 7 0, 1⟩ .quiet, .message 0 ⟨.admin .logOut 7 0, 2⟩ .quiet,
        .message 0 ⟨.order order7, 2⟩ .quiet]).log, p.registered = some p.client := by
  decide

/-! ## The registry -/

/-- `clients_` and the sessions agree. -/
structure Consistent (g : Service σ) : Prop where
  entry : ∀ id c, g.manager.clients id = some c → g.manager.clientId c = id
  unique : ∀ c id id', g.manager.clients id = some c → g.manager.clients id' = some c → id = id'
  gone : ∀ c, handled c g.log = true → ∀ id, g.manager.clients id ≠ some c

/-- A logon that is accepted comes on a connection that is open and registered under no other
id, and no connection is closed while it is registered under 0. -/
def Orderly (g : Service σ) : Event σ → Prop
  | .message client ⟨.admin .logOn clientId ackSeqNum, msgSeqNum⟩ _ =>
    g.accepts clientId msgSeqNum ackSeqNum = true →
      handled client g.log = false ∧ ∀ id, g.manager.clients id = some client → id = clientId
  | .close client => g.closed client = false → g.manager.clients 0 ≠ some client
  | _ => True

namespace Consistent

/-- Two ids of one connection are one, as both are its own. -/
theorem of_entry (hentry : ∀ id c, g.manager.clients id = some c → g.manager.clientId c = id)
    (hgone : ∀ c, handled c g.log = true → ∀ id, g.manager.clients id ≠ some c) : Consistent g :=
  ⟨hentry, fun c _ _ h h' => (hentry _ c h).symm.trans (hentry _ c h'), hgone⟩

/-- Consistency reads the registry and what was handled only. -/
theorem congr (h : Consistent g) (hclients : g'.manager.clients = g.manager.clients)
    (hid : g'.manager.clientId = g.manager.clientId)
    (hhandled : ∀ c, handled c g'.log = handled c g.log) : Consistent g' := by
  refine of_entry (fun id c hc => ?_) (fun c hc id => ?_)
  · rw [hclients] at hc
    rw [hid]
    exact h.entry id c hc
  · rw [hhandled] at hc
    rw [hclients]
    exact h.gone c hc id

theorem quiet (h : Consistent g) (hq : Quiet g g') : Consistent g' :=
  h.congr hq.clients hq.clientId hq.handled

/-- A logon on a connection that is open and not someone else's. -/
theorem logon (h : Consistent g) {clientId : UInt32} (msgSeqNum shared : Nat)
    (hopen : handled client g.log = false)
    (hown : ∀ id, g.manager.clients id = some client → id = clientId) :
    Consistent ((g.takeOver client clientId).register client clientId msgSeqNum shared) := by
  obtain ⟨hmanager, -, -⟩ := g.takeOver_frame client clientId
  have hhandled : ∀ c, handled c ((g.takeOver client clientId).register client clientId msgSeqNum
      shared).log = handled c g.log :=
    fun c => (handled_append _ _ _).trans (g.takeOver_handled client c clientId)
  refine of_entry (fun id c hc => ?_) (fun c hc id => ?_)
  · show Function.update (g.takeOver client clientId).manager.clientId client clientId c = id
    change Function.update (g.takeOver client clientId).manager.clients clientId _ id = some c at hc
    rw [hmanager] at hc ⊢
    by_cases hid : id = clientId
    · rw [hid, Function.update_self] at hc
      rw [← Option.some.inj hc, Function.update_self, hid]
    · rw [Function.update_of_ne hid] at hc
      rw [Function.update_of_ne]
      · exact h.entry id c hc
      · exact fun hce => hid (hown id (hce ▸ hc))
  · show Function.update (g.takeOver client clientId).manager.clients clientId _ id ≠ some c
    rw [hhandled] at hc
    rw [hmanager]
    by_cases hid : id = clientId
    · rw [hid, Function.update_self]
      intro heq
      rw [Option.some.inj heq, hc] at hopen
      cases hopen
    · rw [Function.update_of_ne hid]
      exact h.gone c hc id

theorem unregister (h : Consistent g) (client : σ) (clientId : UInt32) :
    Consistent (g.unregister client clientId) := by
  have hclients : ∀ id c, (g.unregister client clientId).manager.clients id = some c →
      g.manager.clients id = some c := by
    intro id c hc
    change Function.update g.manager.clients clientId none id = some c at hc
    by_cases hid : id = clientId
    · rw [hid, Function.update_self] at hc
      cases hc
    · rwa [Function.update_of_ne hid] at hc
  refine of_entry (fun id c hc => h.entry id c (hclients id c hc)) (fun c hc id hreg => ?_)
  exact h.gone c ((handled_append _ _ _).symm.trans hc) id (hclients id c hreg)

theorem handleClientLogout (h : Consistent g) (client : σ) :
    Consistent (g.handleClientLogout client) := by
  rcases g.handleClientLogout_cases client with ⟨-, -, hq⟩ | ⟨-, hq⟩
  · exact (h.unregister _ _).quiet hq
  · exact h.quiet hq

/-- The close handler leaves a connection registered only under 0. -/
theorem handleClientLogout_gone (h : Consistent g) (hzero : g.manager.clients 0 ≠ some client)
    (id : UInt32) : (g.handleClientLogout client).manager.clients id ≠ some client := by
  intro hreg
  rcases g.handleClientLogout_cases client with ⟨-, -, hq⟩ | ⟨hno, hq⟩
  · rw [hq.clients] at hreg
    change Function.update g.manager.clients (g.manager.clientId client) none id = some client at hreg
    by_cases hid : id = g.manager.clientId client
    · rw [hid, Function.update_self] at hreg
      cases hreg
    · rw [Function.update_of_ne hid] at hreg
      exact hid (h.entry id client hreg).symm
  · rw [hq.clients] at hreg
    have hid := h.entry id client hreg
    rcases hno with hno | hno
    · rw [← hid, hno] at hreg
      exact hzero hreg
    · rw [hid] at hno
      exact hno hreg

theorem close (h : Consistent g) (hzero : g.manager.clients 0 ≠ some client) :
    Consistent ((g.handleClientLogout client).note [.closed client]) := by
  have hlog := h.handleClientLogout client
  refine of_entry hlog.entry (fun c hc id => ?_)
  have hhandled : handled c ((g.handleClientLogout client).note [.closed client]).log =
      if client = c then true else handled c (g.handleClientLogout client).log := handled_append _ _ _
  rw [hhandled] at hc
  split at hc
  · rename_i heq
    rw [← heq]
    exact h.handleClientLogout_gone hzero id
  · exact hlog.gone c hc id

theorem restart : Consistent g.restart :=
  of_entry (fun _ _ h => (nomatch h)) (fun _ _ _ h => (nomatch h))

theorem step (h : Consistent g) {e : Event σ} (he : g.Orderly e) : Consistent (g.step e) := by
  obtain ⟨g', hmoves, hq⟩ := g.step_moves e
  refine quiet ?_ hq
  cases hmoves with
  | idle => exact h
  | count client request answers => exact h.congr rfl rfl fun _ => rfl
  | place client n req answers hadm => exact h.congr rfl rfl fun _ => handled_append _ _ _
  | logon client clientId n ack answers hacc =>
    obtain ⟨hopen, hown⟩ := he hacc
    exact h.logon n _ hopen hown
  | logout client clientId n ack answers => exact h.handleClientLogout client
  | close client hopen => exact h.close (he hopen)
  | restart => exact restart

/-- Conversely, an event after which the registry is still consistent was orderly. -/
theorem orderly (h : Consistent g) {e : Event σ} (h' : Consistent (g.step e)) : g.Orderly e := by
  unfold Orderly
  split
  · rename_i client clientId ack n answers
    intro hacc
    have hq := g.step_accepted client hacc answers
    obtain ⟨hmanager, -, -⟩ := g.takeOver_frame client clientId
    -- the registry after the logon
    have hclients : (g.step (.message client ⟨.admin .logOn clientId ack, n⟩ answers)).manager.clients =
        Function.update g.manager.clients clientId (some client) := by
      rw [hq.clients, ← hmanager]
      rfl
    have hid : (g.step (.message client ⟨.admin .logOn clientId ack, n⟩ answers)).manager.clientId
        client = clientId := by
      rw [hq.clientId]
      exact Function.update_self _ _ _
    have hhandled : handled client (g.step (.message client ⟨.admin .logOn clientId ack, n⟩ answers)).log =
        handled client g.log := by
      rw [hq.handled]
      exact (handled_append _ _ _).trans (g.takeOver_handled client client clientId)
    refine ⟨Bool.eq_false_iff.mpr fun hgone => ?_, fun id hreg => ?_⟩
    · refine h'.gone client (hhandled.trans hgone) clientId ?_
      rw [hclients, Function.update_self]
    · by_cases hne : id = clientId
      · exact hne
      · have := h'.entry id client (by rw [hclients, Function.update_of_ne hne]; exact hreg)
        rw [← this, hid]
  · rename_i client
    intro hopen hzero
    have hq := onClose_quiet hopen
    have hsame : g.handleClientLogout client = g := by
      unfold Service.handleClientLogout
      dsimp only
      rw [if_pos (h.entry 0 client hzero)]
    rw [hsame] at hq
    refine h'.gone client ?_ 0 (by rw [← hzero]; exact congrFun hq.clients 0)
    refine (hq.handled client).trans ((handled_append _ _ _).trans ?_)
    exact if_pos rfl
  · exact trivial

/-- At the start nobody is registered. -/
theorem start (m : ClientManager σ) (iSeqNums oSeqNums : UInt32 → Nat) :
    Consistent (start m iSeqNums oSeqNums) :=
  of_entry (fun _ _ h => (nomatch h)) (fun _ _ _ h => (nomatch h))

end Consistent

/-- Where every state on the way is consistent, every event was orderly. -/
theorem along_orderly {events : List (Event σ)}
    (h : ∀ events', events' <+: events → Consistent (g.run events')) : Along Orderly g events := by
  induction events generalizing g with
  | nil => exact trivial
  | cons e events ih =>
    refine ⟨?_, ih fun events' hpre => h (e :: events') (List.cons_prefix_cons.mpr ⟨rfl, hpre⟩)⟩
    exact (h [] List.nil_prefix).orderly (h [e] (List.cons_prefix_cons.mpr ⟨rfl, List.nil_prefix⟩))

/-- The registry is consistent in every state of a run, in exactly the runs that are orderly. -/
theorem registry_consistent (m : ClientManager σ) (iSeqNums oSeqNums : UInt32 → Nat)
    (events : List (Event σ)) :
    (∀ events', events' <+: events → Consistent ((start m iSeqNums oSeqNums).run events')) ↔
      Along Orderly (start m iSeqNums oSeqNums) events := by
  refine ⟨along_orderly, fun halong events' hpre => ?_⟩
  obtain ⟨rest, rfl⟩ := hpre
  exact (Along.append.mp halong).1.preserves (fun _ _ h he => h.step he) (Consistent.start _ _ _)

/-- Connection 0 logs on as client 7 and then as client 8, and stays registered as 7. -/
theorem second_logon_stale :
    ¬ ∀ events', events' <+: [.message 0 ⟨.admin .logOn 7 0, 1⟩ .quiet,
        .message 0 ⟨.admin .logOn 8 0, 1⟩ .quiet] →
      Consistent ((start oneRing (fun _ => 0) (fun _ => 0)).run events') := by
  intro h
  have hentry := (h _ (List.prefix_refl _)).entry 7 0 (by decide)
  revert hentry
  decide

end Service

end Exchange.Gateway
