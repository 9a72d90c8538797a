import Exchange.Book.Records
import Exchange.Gateway.Manager

/-!
# Acknowledgements and the sessions they belong to

The gateway knows the sender of a request only by position: sessions are queued
in the order their requests went to a ring, and taken out in the order
acknowledgements come back. That is right as long as the engine answers every
request. It answers with one acknowledgement whatever the request says
(`processRequest_acknowledges`), except when it has no book for the symbol: then
it drops the request, and the session stays in the queue for the next answer. And
it is right as long as no acknowledgement is lost: of two engines that both append
to the journal, each writes over the other's records.

`Balanced` is the invariant: a core's queue holds the senders of the
acknowledgements not yet read, of those not yet in the journal, and of the
requests still in the ring.
-/

namespace Exchange.Gateway

variable {σ : Type}

/-- A ring that is used has a queue. -/
theorem queueIndex_of_ringIndex {rings : List Bool} {core : Int} {k : Nat}
    (h : ringIndex rings core = some k) : queueIndex rings.length core = some k := by
  unfold ringIndex at h
  split at h
  · cases h
  · rename_i hno
    unfold queueIndex
    rw [if_neg (fun hout => hno (hout.imp id Or.inl))]
    exact h

/-- The senders of the acknowledgements in a list of records. -/
def ackSenders (rs : List (σ × OrderResponse)) : List σ :=
  (rs.filter fun r => r.2.isResp).map Prod.fst

theorem ackSenders_append (rs rs' : List (σ × OrderResponse)) :
    ackSenders (rs ++ rs') = ackSenders rs ++ ackSenders rs' := by
  unfold ackSenders
  rw [List.filter_append, List.map_append]

theorem ackSenders_cons (sender : σ) (r : OrderResponse) (rs : List (σ × OrderResponse)) :
    ackSenders ((sender, r) :: rs) =
      if r.isResp = true then sender :: ackSenders rs else ackSenders rs := by
  unfold ackSenders
  rw [List.filter_cons]
  split <;> rfl

/-- The records a request sends name its sender once. -/
theorem ackSenders_answer {client : σ} {ack : OrderResponse} {rs : List OrderResponse} {sid : UInt32}
    (hack : ack.isResp = true) (hrs : TradesOf sid rs) :
    ackSenders ((ack :: rs).map fun r => (client, r)) = [client] := by
  have hnone : ackSenders (rs.map fun r => (client, r)) = [] := by
    refine List.map_eq_nil_iff.mpr (List.filter_eq_nil_iff.mpr (fun r hr => ?_))
    obtain ⟨r', hr', rfl⟩ := List.mem_map.mp hr
    rw [isResp_trade (hrs r' hr').1]
    exact Bool.false_ne_true
  rw [List.map_cons, ackSenders_cons, if_pos hack, hnone]

namespace System

/-- The request goes to an engine that has a book for its symbol. -/
def Served (sys : System σ) (req : OrderRequest) : Prop :=
  ∀ core, sys.manager.ringOf req.symbolId = some core →
    ((sys.engines core).books.lookup req.symbolId).isSome = true

instance (sys : System σ) (req : OrderRequest) : Decidable (Served sys req) :=
  decidable_of_iff ((sys.manager.ringOf req.symbolId).all fun core =>
    ((sys.engines core).books.lookup req.symbolId).isSome) (by
    unfold Served
    cases sys.manager.ringOf req.symbolId <;> simp)

/-- An engine appends to the journal's end. -/
def AtEnd (sys : System σ) (core : Nat) : Prop := sys.journal.AtEnd core

instance (sys : System σ) (core : Nat) : Decidable (AtEnd sys core) :=
  inferInstanceAs (Decidable (sys.journal.AtEnd core))

/-- The records in a list that the gateway files under a core. -/
def ofCore (sys : System σ) (core : Nat) (rs : List (σ × OrderResponse)) : List (σ × OrderResponse) :=
  rs.filter fun r => sys.manager.queueOf r.2.symbolId = some core

/-- What every run of served requests keeps, if engines append to the journal's end. -/
structure Balanced (sys : System σ) : Prop where
  queue : ∀ core, sys.manager.pendingOrderClients core =
    ackSenders (sys.ofCore core sys.unread) ++ (ackSenders (sys.outbox core) ++
      (sys.rings core).map Prod.fst)
  ring : ∀ core, ∀ x ∈ sys.rings core, sys.manager.queueOf x.2.symbolId = some core ∧
    ((sys.engines core).books.lookup x.2.symbolId).isSome = true
  sent : ∀ core, ∀ x ∈ sys.outbox core, sys.manager.queueOf x.2.symbolId = some core
  filed : ∀ x ∈ sys.unread, ∃ core, sys.manager.queueOf x.2.symbolId = some core
  books : ∀ core sid b, (sys.engines core).books.lookup sid = some b →
    b.cfg.symbolId = sid ∧ b.recoverMode = false
  taken : sys.journal.taken ≤ sys.journal.slots.length

/-- At the start nobody waits and nothing is under way. -/
theorem Initial.balanced {cfgs : Nat → List Config} {sys : System σ} (h : Initial cfgs sys) :
    Balanced sys := by
  have hunread : sys.unread = [] := by
    unfold unread
    rw [h.journal]
    rfl
  refine ⟨fun core => ?_, fun core x hx => ?_, fun core x hx => ?_, fun x hx => ?_,
    fun core sid b hb => ?_, by rw [h.journal]; exact Nat.le_refl _⟩
  · rw [h.pending, hunread, h.outbox, h.rings]
    rfl
  · rw [h.rings] at hx
    exact absurd hx List.not_mem_nil
  · rw [h.outbox] at hx
    exact absurd hx List.not_mem_nil
  · rw [hunread] at hx
    exact absurd hx List.not_mem_nil
  · obtain ⟨gen, he⟩ := h.engines core
    rw [he] at hb
    obtain ⟨c, -, hs, rfl⟩ := MatchingEngine.create_lookup hb
    exact ⟨hs, rfl⟩

/-! ## The steps -/

/-- A request that is forwarded adds its sender at both ends. -/
theorem Balanced.request {sys : System σ} (h : Balanced sys) (client : σ) {req : OrderRequest}
    {core : Nat} (hK : Served sys req) (hring : sys.manager.ringOf req.symbolId = some core) :
    Balanced { sys with
      manager := sys.manager.push core client
      rings := Function.update sys.rings core (sys.rings core ++ [(client, req)]) } := by
  refine ⟨fun k => ?_, fun k x hx => ?_, h.sent, h.filed, h.books, h.taken⟩
  · show Function.update sys.manager.pendingOrderClients core _ k =
      _ ++ (_ ++ (Function.update sys.rings core _ k).map Prod.fst)
    by_cases hk : k = core
    · subst hk
      rw [Function.update_self, Function.update_self, h.queue, List.map_append, List.append_assoc,
        List.append_assoc]
      rfl
    · rw [Function.update_of_ne hk, Function.update_of_ne hk]
      exact h.queue k
  · change x ∈ Function.update sys.rings core _ k at hx
    by_cases hk : k = core
    · subst hk
      rw [Function.update_self] at hx
      rcases List.mem_append.mp hx with hx | hx
      · exact h.ring k x hx
      · rw [List.mem_singleton.mp hx]
        exact ⟨queueIndex_of_ringIndex hring, hK k hring⟩
    · rw [Function.update_of_ne hk] at hx
      exact h.ring k x hx

/-- What an engine with a book for the request's symbol sends. -/
theorem pollServer_answers {e e' : MatchingEngine} {req : OrderRequest} {new : List Emission}
    (hbook : (e.books.lookup req.symbolId).isSome = true)
    (hbooks : ∀ sid b, e.books.lookup sid = some b → b.cfg.symbolId = sid ∧ b.recoverMode = false)
    (hrun : e.pollServer req = some (e', new)) :
    (∃ ack rs, new.map (·.resp) = ack :: rs ∧ ack.isResp = true ∧ ack.symbolId = req.symbolId ∧
        TradesOf req.symbolId rs) ∧
      (∀ sid, (e'.books.lookup sid).isSome = (e.books.lookup sid).isSome) ∧
      ∀ sid b, e'.books.lookup sid = some b → b.cfg.symbolId = sid ∧ b.recoverMode = false := by
  obtain ⟨b, hb⟩ := Option.isSome_iff_exists.mp hbook
  unfold MatchingEngine.pollServer at hrun
  rw [hb] at hrun
  obtain ⟨st, hst, hrun⟩ := Option.bind_eq_some_iff.mp hrun
  obtain ⟨rfl, rfl⟩ := Prod.mk.inj (Option.some.inj hrun)
  obtain ⟨ack, rs, hemits, hack, hsym, htrades⟩ := processRequest_acknowledges hst
  obtain ⟨hid, hmode⟩ := hbooks _ _ hb
  have hcfg : st.book.cfg = b.cfg := hemits.cfg
  have hkept : st.book.recoverMode = b.recoverMode := hemits.mode
  have hlog : st.log = [] ++ if b.recoverMode then [] else ack :: rs := hemits.log
  rw [hmode, if_neg Bool.false_ne_true, List.nil_append] at hlog
  refine ⟨⟨ack, rs, hlog, hack, hsym.trans hid, hid ▸ htrades⟩, fun sid => ?_, fun sid b' hb' => ?_⟩
  · by_cases hs : sid = req.symbolId
    · rw [hs, AList.lookup_insert, hb]
      rfl
    · rw [AList.lookup_insert_ne hs]
  · by_cases hs : sid = req.symbolId
    · subst hs
      obtain rfl := Option.some.inj ((AList.lookup_insert _).symm.trans hb')
      exact ⟨by rw [hcfg]; exact hid, hkept.trans hmode⟩
    · exact hbooks sid b' ((AList.lookup_insert_ne hs).symm.trans hb')

/-- An engine that polls answers the request once. -/
theorem Balanced.poll {sys : System σ} (h : Balanced sys) {core : Nat} {client : σ}
    {req : OrderRequest} {rest : List (σ × OrderRequest)} {e : MatchingEngine} {new : List Emission}
    (hring : sys.rings core = (client, req) :: rest)
    (hrun : (sys.engines core).pollServer req = some (e, new)) :
    Balanced { sys with
      rings := Function.update sys.rings core rest
      engines := Function.update sys.engines core e
      outbox := Function.update sys.outbox core
        (sys.outbox core ++ new.map fun x => (client, x.resp)) } := by
  obtain ⟨hroute, hbook⟩ := h.ring core (client, req) (hring ▸ List.mem_cons_self)
  obtain ⟨⟨ack, rs, hnew, hack, hsym, htrades⟩, hsame, hbooks⟩ :=
    pollServer_answers hbook (h.books core) hrun
  have hrecords : (new.map fun x => (client, x.resp)) = (ack :: rs).map fun r => (client, r) := by
    rw [← hnew, List.map_map]
    rfl
  refine ⟨fun k => ?_, fun k x hx => ?_, fun k x hx => ?_, h.filed, fun k sid b hb => ?_, h.taken⟩
  · show sys.manager.pendingOrderClients k = _ ++ (ackSenders (Function.update sys.outbox core _ k) ++
      (Function.update sys.rings core rest k).map Prod.fst)
    rw [h.queue k]
    congr 1
    by_cases hk : k = core
    · -- the sender moves from the ring to the records
      subst hk
      rw [Function.update_self, Function.update_self, hring, hrecords, ackSenders_append,
        ackSenders_answer hack htrades, List.append_assoc]
      rfl
    · rw [Function.update_of_ne hk, Function.update_of_ne hk]
  · change x ∈ Function.update sys.rings core rest k at hx
    show _ ∧ ((Function.update sys.engines core e k).books.lookup x.2.symbolId).isSome = true
    by_cases hk : k = core
    · subst hk
      rw [Function.update_self] at hx
      rw [Function.update_self, hsame]
      exact h.ring k x (hring ▸ List.mem_cons_of_mem _ hx)
    · rw [Function.update_of_ne hk] at hx
      rw [Function.update_of_ne hk]
      exact h.ring k x hx
  · change x ∈ Function.update sys.outbox core _ k at hx
    by_cases hk : k = core
    · subst hk
      rw [Function.update_self, hrecords] at hx
      rcases List.mem_append.mp hx with hx | hx
      · exact h.sent k x hx
      · obtain ⟨r, hr, rfl⟩ := List.mem_map.mp hx
        have hid : r.symbolId = req.symbolId := by
          rcases List.mem_cons.mp hr with rfl | hr
          · exact hsym
          · exact (htrades r hr).2
        show sys.manager.queueOf r.symbolId = some k
        rw [hid]
        exact hroute
    · rw [Function.update_of_ne hk] at hx
      exact h.sent k x hx
  · change (Function.update sys.engines core e k).books.lookup sid = some b at hb
    by_cases hk : k = core
    · subst hk
      rw [Function.update_self] at hb
      exact hbooks sid b hb
    · rw [Function.update_of_ne hk] at hb
      exact h.books k sid b hb

/-- Journalling a record moves it from the outbox to the journal. -/
theorem Balanced.journal {sys : System σ} (h : Balanced sys) {core : Nat} {r : σ × OrderResponse}
    {rest : List (σ × OrderResponse)} (hend : AtEnd sys core) (hout : sys.outbox core = r :: rest) :
    Balanced { sys with
      outbox := Function.update sys.outbox core rest
      journal := sys.journal.append core r } := by
  have hroute := h.sent core r (hout ▸ List.mem_cons_self)
  have hunread : (sys.journal.append core r).unread = sys.unread ++ [r] :=
    Journal.unread_append hend h.taken r
  refine ⟨fun k => ?_, h.ring, fun k x hx => ?_, fun x hx => ?_, h.books,
    h.taken.trans (sys.journal.length_le_append core r)⟩
  · show sys.manager.pendingOrderClients k = ackSenders (sys.ofCore k (sys.journal.append core r).unread) ++
      (ackSenders (Function.update sys.outbox core rest k) ++ _)
    rw [hunread]
    have hsplit : sys.ofCore k (sys.unread ++ [r]) = sys.ofCore k sys.unread ++ sys.ofCore k [r] :=
      List.filter_append ..
    rw [h.queue k, hsplit, ackSenders_append, List.append_assoc]
    congr 1
    by_cases hk : k = core
    · subst hk
      have hself : sys.ofCore k [r] = [r] := List.filter_cons_of_pos (by simpa using hroute)
      rw [Function.update_self, hout, hself, ← List.append_assoc, ← ackSenders_append]
      rfl
    · have hother : sys.ofCore k [r] = [] := by
        refine List.filter_cons_of_neg ?_
        rw [hroute]
        simpa using fun e => hk e.symm
      rw [Function.update_of_ne hk, hother]
      rfl
  · change x ∈ Function.update sys.outbox core rest k at hx
    by_cases hk : k = core
    · subst hk
      rw [Function.update_self] at hx
      exact h.sent k x (hout ▸ List.mem_cons_of_mem _ hx)
    · rw [Function.update_of_ne hk] at hx
      exact h.sent k x hx
  · change x ∈ (sys.journal.append core r).unread at hx
    rw [hunread] at hx
    rcases List.mem_append.mp hx with hx | hx
    · exact h.filed x hx
    · rw [List.mem_singleton.mp hx]
      exact ⟨core, hroute⟩

/-- What the gateway takes out of a queue for an acknowledgement. -/
theorem Balanced.pop {sys : System σ} (h : Balanced sys) {sender : σ} {resp : OrderResponse}
    {rest : List (σ × OrderResponse)} (hread : sys.unread = (sender, resp) :: rest)
    (hresp : resp.isResp = true) :
    ∃ core, sys.manager.queueOf resp.symbolId = some core ∧
      sys.manager.pendingOrderClients core = sender :: (ackSenders (sys.ofCore core rest) ++
        (ackSenders (sys.outbox core) ++ (sys.rings core).map Prod.fst)) := by
  obtain ⟨core, hcore⟩ := h.filed (sender, resp) (hread ▸ List.mem_cons_self)
  refine ⟨core, hcore, ?_⟩
  have hself : sys.ofCore core sys.unread = (sender, resp) :: sys.ofCore core rest := by
    rw [hread]
    exact List.filter_cons_of_pos (by simpa using hcore)
  rw [h.queue core, hself, ackSenders_cons, if_pos hresp]
  rfl

/-- Handling a record pops the sender it belongs to. -/
theorem Balanced.respond {sys : System σ} (h : Balanced sys) {sender : σ} {resp : OrderResponse}
    {rest : List (σ × OrderResponse)} (hread : sys.unread = (sender, resp) :: rest) :
    Balanced { sys with
      manager := (sys.manager.handleExecutionResponse resp).1
      journal := sys.journal.advance } := by
  have hunread : sys.journal.advance.unread = rest := Journal.unread_advance hread
  have htaken := Journal.advance_le hread
  have hfiled : ∀ x ∈ sys.journal.advance.unread, ∃ core, sys.manager.queueOf x.2.symbolId = some core := by
    intro x hx
    rw [hunread] at hx
    exact h.filed x (hread ▸ List.mem_cons_of_mem _ hx)
  unfold ClientManager.handleExecutionResponse
  dsimp only
  by_cases hresp : checkExec resp.execType execResp = true
  · obtain ⟨core, hcore, hpending⟩ := h.pop hread hresp
    rw [if_pos hresp]
    unfold ClientManager.popPending
    rw [hcore]
    dsimp only
    rw [hpending]
    refine ⟨fun k => ?_, h.ring, h.sent, hfiled, h.books, htaken⟩
    show Function.update sys.manager.pendingOrderClients core _ k =
      ackSenders (sys.ofCore k sys.journal.advance.unread) ++ _
    rw [hunread]
    by_cases hk : k = core
    · subst hk
      rw [Function.update_self]
    · rw [Function.update_of_ne hk, h.queue k, hread]
      congr 2
      refine List.filter_cons_of_neg ?_
      rw [hcore]
      simpa using fun e => hk e.symm
  · rw [if_neg hresp]
    refine ⟨fun k => ?_, h.ring, h.sent, hfiled, h.books, htaken⟩
    -- a trade record leaves the queues alone
    show sys.manager.pendingOrderClients k = ackSenders (sys.ofCore k sys.journal.advance.unread) ++ _
    rw [hunread, h.queue k, hread]
    congr 1
    unfold ackSenders ofCore
    rw [List.filter_filter, List.filter_filter, List.filter_cons_of_neg]
    simpa [OrderResponse.isResp] using fun hr => absurd hr hresp

theorem Balanced.step {sys sys' : System σ} (h : Balanced sys) (hstep : Step Served AtEnd sys sys') :
    Balanced sys' := by
  cases hstep with
  | request client req hK hring => exact h.request client hK hring
  | dropped => exact h
  | poll hring hrun => exact h.poll hring hrun
  | journal hend hout => exact h.journal hend hout
  | respond hread => exact h.respond hread
  | registry last clients clientId => exact ⟨h.queue, h.ring, h.sent, h.filed, h.books, h.taken⟩

theorem Run.balanced {cfgs : Nat → List Config} {sys : System σ} (h : Run Served AtEnd cfgs sys) :
    Balanced sys := by
  induction h with
  | initial h => exact h.balanced
  | step _ hstep ih => exact ih.step hstep

/-- In every run whose requests all go to an engine with a book for their symbol, and
whose records all go to the journal's end, each acknowledgement is matched with the
session that sent the request. -/
theorem responses_aligned {cfgs : Nat → List Config} {sys : System σ}
    (h : Run Served AtEnd cfgs sys) : Aligned sys := by
  intro sender resp rest hread hresp
  obtain ⟨core, hcore, hpending⟩ := h.balanced.pop hread hresp
  unfold ClientManager.popPending
  rw [hcore]
  dsimp only
  rw [hpending]

/-! ## One engine -/

/-- No engine but the one on a core has a book, and that one has written all the slots. -/
structure Alone (core : Nat) (sys : System σ) : Prop where
  books : ∀ k, k ≠ core → ∀ sid, (sys.engines k).books.lookup sid = none
  outbox : ∀ k, k ≠ core → sys.outbox k = []
  next : sys.journal.AtEnd core

/-- At the start, with the other cores empty. -/
theorem Initial.alone {cfgs : Nat → List Config} {core : Nat} (hcfgs : ∀ k, k ≠ core → cfgs k = [])
    {sys : System σ} (h : Initial cfgs sys) : Alone core sys := by
  refine ⟨fun k hk sid => ?_, fun k _ => h.outbox k, by rw [h.journal]; rfl⟩
  obtain ⟨gen, he⟩ := h.engines k
  rw [he, hcfgs k hk]
  rfl

/-- An engine without books takes the request and does nothing. -/
theorem pollServer_of_no_book {e e' : MatchingEngine} {req : OrderRequest} {new : List Emission}
    (hnone : ∀ sid, e.books.lookup sid = none) (hrun : e.pollServer req = some (e', new)) :
    e = e' ∧ [] = new := by
  unfold MatchingEngine.pollServer at hrun
  rw [hnone] at hrun
  exact Prod.mk.inj (Option.some.inj hrun)

/-- A lone engine's record goes to the end, whatever the run allows. -/
theorem Alone.step {K : System σ → OrderRequest → Prop} {J : System σ → Nat → Prop} {core : Nat}
    {sys sys' : System σ} (h : Alone core sys) (hstep : Step K J sys sys') :
    Step K AtEnd sys sys' ∧ Alone core sys' := by
  cases hstep with
  | request client req hK hring => exact ⟨.request sys client req hK hring, h.books, h.outbox, h.next⟩
  | dropped => exact ⟨.dropped sys, h⟩
  | registry last clients clientId => exact ⟨.registry sys last clients clientId, h.books, h.outbox, h.next⟩
  | respond hread => exact ⟨.respond sys hread, h.books, h.outbox, h.next⟩
  | @poll k client req rest e new hring hrun =>
    refine ⟨.poll sys hring hrun, fun k' hk' sid => ?_, fun k' hk' => ?_, h.next⟩
    · dsimp only
      by_cases hk : k' = k
      · subst hk
        obtain ⟨rfl, -⟩ := pollServer_of_no_book (h.books k' hk') hrun
        rw [Function.update_self]
        exact h.books k' hk' sid
      · rw [Function.update_of_ne hk]
        exact h.books k' hk' sid
    · dsimp only
      by_cases hk : k' = k
      · subst hk
        obtain ⟨-, rfl⟩ := pollServer_of_no_book (h.books k' hk') hrun
        rw [Function.update_self, h.outbox k' hk']
        rfl
      · rw [Function.update_of_ne hk]
        exact h.outbox k' hk'
  | @journal k r rest hJ hout =>
    obtain rfl : k = core := by
      by_contra hk
      rw [h.outbox k hk] at hout
      cases hout
    refine ⟨.journal sys h.next hout, h.books, fun k' hk' => ?_, ?_⟩
    · dsimp only
      rw [Function.update_of_ne hk']
      exact h.outbox k' hk'
    · show Function.update sys.journal.next k _ k = (sys.journal.append k r).slots.length
      rw [Function.update_self, Journal.slots_append h.next, List.length_append, h.next]
      rfl

/-- While one engine serves all the symbols, every record goes to the journal's end. -/
theorem Run.of_alone {K : System σ → OrderRequest → Prop} {J : System σ → Nat → Prop}
    {cfgs : Nat → List Config} {core : Nat} (hcfgs : ∀ k, k ≠ core → cfgs k = []) {sys : System σ}
    (h : Run K J cfgs sys) : Run K AtEnd cfgs sys ∧ Alone core sys := by
  induction h with
  | initial h => exact ⟨.initial h, h.alone hcfgs⟩
  | step _ hstep ih =>
    obtain ⟨hstep', halone⟩ := ih.2.step hstep
    exact ⟨ih.1.step hstep', halone⟩

/-! ## Running the system -/

/-- The steps an order can cause. -/
inductive Event (σ : Type)
  | request (client : σ) (req : OrderRequest)
  | poll (core : Nat)
  | journal (core : Nat)
  | respond

/-- Makes a step, if it can be made. -/
def next (sys : System σ) : Event σ → Option (System σ)
  | .request client req =>
    match sys.manager.ringOf req.symbolId with
    | none => some sys
    | some core => some { sys with
        manager := sys.manager.push core client
        rings := Function.update sys.rings core (sys.rings core ++ [(client, req)]) }
  | .poll core =>
    match sys.rings core with
    | [] => none
    | (client, req) :: rest =>
      match (sys.engines core).pollServer req with
      | none => none
      | some (e, new) => some { sys with
          rings := Function.update sys.rings core rest
          engines := Function.update sys.engines core e
          outbox := Function.update sys.outbox core
            (sys.outbox core ++ new.map fun x => (client, x.resp)) }
  | .journal core =>
    match sys.outbox core with
    | [] => none
    | r :: rest => some { sys with
        outbox := Function.update sys.outbox core rest
        journal := sys.journal.append core r }
  | .respond =>
    match sys.unread with
    | [] => none
    | (_, resp) :: _ => some { sys with
        manager := (sys.manager.handleExecutionResponse resp).1
        journal := sys.journal.advance }

/-- An event that can happen is a step. -/
theorem Step.of_next {K : System σ → OrderRequest → Prop} {J : System σ → Nat → Prop}
    {sys sys' : System σ} {ev : Event σ} (hK : ∀ client req, ev = .request client req → K sys req)
    (hJ : ∀ core, ev = .journal core → J sys core) (h : sys.next ev = some sys') :
    Step K J sys sys' := by
  cases ev with
  | request client req =>
    unfold next at h
    dsimp only at h
    split at h
    · obtain rfl := Option.some.inj h
      exact .dropped sys
    · rename_i core hring
      obtain rfl := Option.some.inj h
      exact .request sys client req (hK client req rfl) hring
  | poll core =>
    unfold next at h
    dsimp only at h
    split at h
    · cases h
    · rename_i client req rest hring
      split at h
      · cases h
      · rename_i e new hrun
        obtain rfl := Option.some.inj h
        exact .poll sys hring hrun
  | journal core =>
    unfold next at h
    dsimp only at h
    split at h
    · cases h
    · rename_i r rest hout
      obtain rfl := Option.some.inj h
      exact .journal sys (hJ core rfl) hout
  | respond =>
    unfold next at h
    dsimp only at h
    split at h
    · cases h
    · rename_i sender resp rest hread
      obtain rfl := Option.some.inj h
      exact .respond sys hread

/-- A request passes a test, and so does an append; the other steps always do. -/
def Event.passes (K : OrderRequest → Bool) (J : Nat → Bool) : Event σ → Bool
  | .request _ req => K req
  | .journal core => J core
  | _ => true

/-- Makes steps one after the other, as long as they pass the tests. -/
def drive (K : System σ → OrderRequest → Bool) (J : System σ → Nat → Bool) :
    System σ → List (Event σ) → Option (System σ)
  | sys, [] => some sys
  | sys, ev :: evs =>
    if ev.passes (K sys) (J sys) then (sys.next ev).bind (drive K J · evs) else none

/-- By induction on the events that both conditions let through. -/
theorem Run.drive {K : System σ → OrderRequest → Bool} {K' : System σ → OrderRequest → Prop}
    {J : System σ → Nat → Bool} {J' : System σ → Nat → Prop}
    (hK : ∀ sys req, K sys req = true → K' sys req) (hJ : ∀ sys core, J sys core = true → J' sys core)
    {cfgs : Nat → List Config} :
    ∀ {evs : List (Event σ)} {sys sys' : System σ}, Run K' J' cfgs sys →
      System.drive K J sys evs = some sys' → Run K' J' cfgs sys'
  | [], sys, sys', h, he => by
    obtain rfl := Option.some.inj he
    exact h
  | ev :: evs, sys, sys', h, he => by
    rw [System.drive] at he
    split at he
    · rename_i hpass
      obtain ⟨sys₁, hnext, he⟩ := Option.bind_eq_some_iff.mp he
      refine (h.step (Step.of_next (fun client req hev => hK sys req ?_)
        (fun core hev => hJ sys core ?_) hnext)).drive hK hJ he
      · subst hev
        exact hpass
      · subst hev
        exact hpass
    · cases he

/-- A run with a property that can be tested. -/
theorem Run.of_drive (K' : System σ → OrderRequest → Prop) (J' : System σ → Nat → Prop)
    (K : System σ → OrderRequest → Bool) (J : System σ → Nat → Bool)
    (hK : ∀ sys req, K sys req = true → K' sys req) (hJ : ∀ sys core, J sys core = true → J' sys core)
    {cfgs : Nat → List Config} {sys : System σ} (hinit : Initial cfgs sys) (evs : List (Event σ))
    (P : System σ → Bool) (h : (System.drive K J sys evs).any P = true) :
    ∃ sys', Run K' J' cfgs sys' ∧ P sys' = true := by
  obtain ⟨sys', hsys, hP⟩ := (Option.any_eq_true ..).mp h
  exact ⟨sys', (Run.initial hinit).drive hK hJ hsys, hP⟩

/-- The symbols of an engine on core 0, alone. -/
def sampleCfgs (core : Nat) : List Config := if core = 0 then [sampleConfig] else []

/-- The sample book's engine behind one ring; sessions are numbers. -/
def sample : System Nat where
  manager :=
    { getSymbolInfo := fun sid info => if sid = 1 then some { info with minStep := 5 } else none
      requestRings := [true]
      pendingOrderClients := fun _ => []
      lastPoppedClient := none
      clients := fun _ => none
      clientId := fun client => UInt32.ofNat client }
  rings := fun _ => []
  engines := fun core => .create (sampleCfgs core) id
  outbox := fun _ => []
  journal := .empty

theorem sample_initial : Initial sampleCfgs sample :=
  ⟨fun _ => rfl, fun _ => rfl, fun _ => rfl, rfl, fun _ => ⟨id, rfl⟩⟩

/-- Session 2 offers, session 3 takes part of it, and the first answer is read. -/
theorem sample_aligned : ∃ sys, Run Served AtEnd sampleCfgs sys ∧
    sys.unread.map (fun r => (r.1, r.2.execType)) = [(3, .new), (3, .fill), (3, .partialFill)] ∧
    Aligned sys := by
  obtain ⟨sys, hrun, hread⟩ := Run.of_drive Served AtEnd
    (fun sys req => decide (Served sys req)) (fun sys core => decide (AtEnd sys core))
    (fun _ _ h => of_decide_eq_true h) (fun _ _ h => of_decide_eq_true h) sample_initial
    [.request 2 (sampleRequest .new 1 .sell 20 7), .request 3 (sampleRequest .new 2 .buy 20 3),
      .poll 0, .poll 0, .journal 0, .respond, .journal 0, .journal 0, .journal 0]
    (fun sys => sys.unread.map (fun r => (r.1, r.2.execType)) =
      [(3, .new), (3, .fill), (3, .partialFill)]) (by decide +kernel)
  exact ⟨sys, hrun, of_decide_eq_true hread, responses_aligned hrun⟩

/-- The next record acknowledges one session's request, and another session is popped for it. -/
def Misread (sender popped : Nat) (sys : System Nat) : Bool :=
  sys.unread.head?.any fun r => r.1 = sender ∧ checkExec r.2.execType execResp ∧
    (sys.manager.popPending r.2).2 = some popped

/-- One misread answer, and the queue is out of line. -/
theorem misread_not_aligned {sender popped : Nat} (hne : popped ≠ sender) {sys : System Nat}
    (h : Misread sender popped sys = true) : ¬ Aligned sys := by
  intro halign
  obtain ⟨⟨sender', resp⟩, hhead, htest⟩ := (Option.any_eq_true ..).mp h
  obtain ⟨rfl, hresp, hpop⟩ := of_decide_eq_true htest
  obtain ⟨rest, hunread⟩ := List.head?_eq_some_iff.mp hhead
  have hsender := halign sender' resp rest hunread hresp
  rw [hpop] at hsender
  exact hne (Option.some.inj hsender)

/-- A request for a symbol without a book shifts the queue: session 1 asks for
symbol 9, which nobody serves, and is then taken for the sender of session 2's
order. -/
theorem responses_misaligned : ¬ ∀ (cfgs : Nat → List Config) (sys : System Nat),
    Run (fun _ _ => True) (fun _ _ => True) cfgs sys → Aligned sys := by
  intro hall
  obtain ⟨sys, hrun, hread⟩ := Run.of_drive (fun _ _ => True) (fun _ _ => True)
    (fun _ _ => true) (fun _ _ => true) (fun _ _ _ => trivial) (fun _ _ _ => trivial) sample_initial
    [.request 1 { sampleRequest .new 1 .buy 20 3 with symbolId := 9 },
      .request 2 (sampleRequest .new 1 .sell 20 7), .poll 0, .poll 0, .journal 0]
    (Misread 2 1) (by decide +kernel)
  exact misread_not_aligned (by decide) hread (hall sampleCfgs sys hrun)

/-- The symbols of an engine on core 0 and of another on core 1. -/
def twoCfgs (core : Nat) : List Config :=
  if core = 0 then [sampleConfig] else if core = 1 then [{ sampleConfig with symbolId := 2 }] else []

/-- The two engines behind two rings. -/
def sampleTwo : System Nat :=
  { sample with
    manager :=
      { sample.manager with
        getSymbolInfo := fun sid info =>
          if sid = 1 then some { info with minStep := 5 }
          else if sid = 2 then some { info with minStep := 5, coreOffset := 1 } else none
        requestRings := [true, true] }
    engines := fun core => .create (twoCfgs core) id }

/-- All requests go to an engine with a book, and the answer to session 2's is lost:
the engine of symbol 2 puts it in the slot that the gateway has read the answer to
session 1's from. Session 2 is then taken for the sender of session 3's order. -/
theorem engines_misalign : ¬ ∀ (cfgs : Nat → List Config) (sys : System Nat),
    Run Served (fun _ _ => True) cfgs sys → Aligned sys := by
  intro hall
  have hinit : Initial twoCfgs sampleTwo := ⟨fun _ => rfl, fun _ => rfl, fun _ => rfl, rfl, fun _ => ⟨id, rfl⟩⟩
  obtain ⟨sys, hrun, hread⟩ := Run.of_drive Served (fun _ _ => True)
    (fun sys req => decide (Served sys req)) (fun _ _ => true) (fun _ _ h => of_decide_eq_true h)
    (fun _ _ _ => trivial) hinit
    [.request 1 (sampleRequest .new 1 .sell 20 7), .poll 0, .journal 0, .respond,
      .request 2 { sampleRequest .new 2 .sell 20 7 with symbolId := 2 },
      .request 3 { sampleRequest .new 3 .sell 20 7 with symbolId := 2 },
      .poll 1, .poll 1, .journal 1, .journal 1]
    (Misread 3 2) (by decide +kernel)
  exact misread_not_aligned (by decide) hread (hall twoCfgs sys hrun)

end System

end Exchange.Gateway
