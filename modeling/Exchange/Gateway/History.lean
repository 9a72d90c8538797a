import Exchange.Database.Resume
import Exchange.Gateway.Reach

/-!
# A gateway on an old journal

`app/services/client-manager.cpp` opens `response_ring_` on the journal directory, and
`MmapReader::MmapReader` starts with the first record of `journal-0`. `poll_server` makes no
difference between what it finds there and what is written later: a process that is started on
a journal with records in it handles each of them as an answer that has just come in. The
polling thread of the database, on the same directory, does look for the place it has come to.

An old record is sent to a session if its client has logged on by the time it is read, and if it
acknowledges a request it takes a session out of its core's queue, where that has one. So
nothing happens as long as nobody logs on whom the rest of the old records names, and no order
goes to a core that one of the acknowledgements among them belongs to (`Clear`). Whoever does, is
taken for the one a record is meant for, once the process has read on.
-/

namespace Exchange.Gateway

open MmapLog Lib

/-- The client-manager process and the journal, with the records that `read_next` of
`response_ring_` has returned to it. -/
structure Restarted (σ : Type) where
  journal : Sys
  responseRing : MmapReader
  returned : List Payload
  service : Service σ

/-- What does not come from the journal, and happens to the same process. -/
def Event.ofSession {σ : Type} : Event σ → Bool
  | .respond _ => false
  | .restart => false
  | _ => true

namespace Restarted

variable {σ : Type}

/-- `main`, on a directory that is there. -/
def create (journal : Sys) (m : ClientManager σ) (iSeqNums oSeqNums : UInt32 → Nat) : Restarted σ :=
  ⟨journal, .create journal.dir, [], .start m iSeqNums oSeqNums⟩

/-- What a record is read as, if it is long enough. -/
def respOf (l : ResponseLayout) (p : Payload) : Option OrderResponse :=
  if l.size ≤ p.length then some (l.decode (p.take l.size)) else none

/-- The records from before the start, the first `old` of the journal, that are still to be read. -/
def ahead (l : ResponseLayout) (old : Nat) (x : Restarted σ) : List OrderResponse :=
  ((x.journal.appended.take old).drop x.returned.length).filterMap (respOf l)

variable [DecidableEq σ]

/-- The end of `poll_server`, for a record that `read_next` has returned. -/
def polled (l : ResponseLayout) (x : Restarted σ) (r : MmapReader) (data : Payload) : Restarted σ :=
  { x with
    responseRing := r
    returned := x.returned ++ [data]
    service :=
      if l.size ≤ data.length then
        x.service.handleExecutionResponse (l.cast x.journal.dir r data.length)
      else x.service }

/-- What can happen next; `K` may restrict what comes from the sessions. -/
inductive Step (K : Restarted σ → Event σ → Prop) (l : ResponseLayout) (maxFileSize : Nat)
    (x : Restarted σ) : Restarted σ → Prop
  | journal {sys : Sys} (hstep : Sys.Step maxFileSize x.journal sys) :
      Step K l maxFileSize x { x with journal := sys }
  | session (e : Event σ) (hK : K x e) (he : e.ofSession = true) :
      Step K l maxFileSize x { x with service := x.service.step e }
  | idle {r : MmapReader} {fuel : Nat} (hrun : x.responseRing.readNext x.journal.dir fuel = some (none, r)) :
      Step K l maxFileSize x { x with responseRing := r }
  | poll {r : MmapReader} {fuel : Nat} {data : Payload}
      (hrun : x.responseRing.readNext x.journal.dir fuel = some (some data, r)) :
      Step K l maxFileSize x (x.polled l r data)

/-- The states that these steps lead to from a state. -/
inductive From (K : Restarted σ → Event σ → Prop) (l : ResponseLayout) (maxFileSize : Nat)
    (x₀ : Restarted σ) : Restarted σ → Prop
  | here : From K l maxFileSize x₀ x₀
  | step {x x' : Restarted σ} (h : From K l maxFileSize x₀ x) (hstep : Step K l maxFileSize x x') :
      From K l maxFileSize x₀ x'

/-- `poll_server` is called, time and again, and nothing else happens. -/
inductive Reads (l : ResponseLayout) (x₀ : Restarted σ) : Restarted σ → Prop
  | here : Reads l x₀ x₀
  | poll {x : Restarted σ} (h : Reads l x₀ x) {r : MmapReader} {fuel : Nat} {data : Payload}
      (hrun : x.responseRing.readNext x.journal.dir fuel = some (some data, r)) :
      Reads l x₀ (x.polled l r data)

/-- The next record, if it is one of the first `old`, is sent to no session and takes none out of
a queue. -/
def Silent (l : ResponseLayout) (old : Nat) (x : Restarted σ) : Prop :=
  ∀ fuel data r, x.responseRing.readNext x.journal.dir fuel = some (some data, r) →
    x.returned.length < old →
    (x.polled l r data).service.log = x.service.log ∧
      (x.polled l r data).service.manager.pendingOrderClients =
        x.service.manager.pendingOrderClients

/-- Nobody logs on whom the old records that are left name, and no order goes to a core that one
of the acknowledgements among them belongs to. -/
def Clear (l : ResponseLayout) (old : Nat) (x : Restarted σ) : Event σ → Prop
  | .message _ ⟨.admin .logOn clientId ackSeqNum, msgSeqNum⟩ _ =>
    x.service.accepts clientId msgSeqNum ackSeqNum = true →
      ∀ resp ∈ x.ahead l old, resp.clientId ≠ clientId
  | .message client ⟨.order req, msgSeqNum⟩ answers =>
    x.service.Admitted client msgSeqNum req answers →
      ∀ resp ∈ x.ahead l old, resp.isResp = true →
        x.service.manager.queueOf resp.symbolId ≠ x.service.manager.ringOf req.symbolId
  | _ => True

end Restarted

/-! ## Records that nobody waits for -/

namespace ClientManager

variable {σ : Type}

/-- The client of a record is not there, and its core's queue is empty if it takes one out. -/
structure Unknown (m : ClientManager σ) (resp : OrderResponse) : Prop where
  clients : m.clients resp.clientId = none
  pending : resp.isResp = true → ∀ core, m.queueOf resp.symbolId = some core →
    m.pendingOrderClients core = []

/-- An answer of a symbol nobody asked for pops nothing. -/
theorem Unknown.popPending {m : ClientManager σ} {resp : OrderResponse} (h : m.Unknown resp)
    (hresp : resp.isResp = true) : m.popPending resp = (m, none) := by
  unfold ClientManager.popPending
  split
  · rfl
  · rename_i core hcore
    rw [h.pending hresp core hcore]

/-- Such a record changes nothing. -/
theorem Unknown.manager {m : ClientManager σ} {resp : OrderResponse} (h : m.Unknown resp) :
    (m.handleExecutionResponse resp).1 = m := by
  unfold handleExecutionResponse
  dsimp only
  split
  · rename_i hresp
    rw [h.popPending hresp]
  · rfl

/-- It is sent to no session, unless the last that was answered has its client id. -/
theorem Unknown.chosen {m : ClientManager σ} {resp : OrderResponse} (h : m.Unknown resp)
    (hlast : m.lastPoppedClient = none) : (m.handleExecutionResponse resp).2 = none := by
  unfold handleExecutionResponse
  dsimp only
  split
  · rename_i hresp
    rw [h.popPending hresp]
    exact h.clients
  · rw [hlast]
    exact h.clients

/-- Nobody is registered for it by a logout, or a connection that is closed. -/
theorem Unknown.shrinks {m m' : ClientManager σ} {resp : OrderResponse} (h : m.Unknown resp)
    (hshrinks : m.Shrinks m') : m'.Unknown resp := by
  have hqueues := hshrinks.queues
  refine ⟨?_, fun hresp core hcore => ?_⟩
  · cases hclient : m'.clients resp.clientId with
    | none => rfl
    | some s =>
      have hbefore := hshrinks.clients _ _ hclient
      rw [h.clients] at hbefore
      cases hbefore
  · rw [hqueues.pending]
    unfold queueOf at hcore
    rw [hqueues.info, hqueues.rings] at hcore
    exact h.pending hresp core hcore

/-- An order takes a place in the queue of its core. -/
theorem Unknown.push_iff {m : ClientManager σ} {resp : OrderResponse} (h : m.Unknown resp) (core : Nat)
    (client : σ) : (m.push core client).Unknown resp ↔
      (resp.isResp = true → m.queueOf resp.symbolId ≠ some core) := by
  constructor
  · intro hunknown hresp hcore
    have hempty := hunknown.pending hresp core hcore
    unfold push at hempty
    dsimp only at hempty
    rw [Function.update_self] at hempty
    cases List.append_eq_nil_iff.mp hempty with
    | intro _ hsingle => cases hsingle
  · intro hother
    refine ⟨h.clients, fun hresp k hk => ?_⟩
    have hne : k ≠ core := by
      rintro rfl
      exact hother hresp hk
    unfold push
    dsimp only
    rw [Function.update_of_ne hne]
    exact h.pending hresp k hk

/-- A record that is sent to no session is such a one. -/
theorem unknown_of_handle {m : ClientManager σ} {resp : OrderResponse}
    (hnone : (m.handleExecutionResponse resp).2 = none) : m.Unknown resp := by
  constructor
  · have hclients := (Option.or_eq_none_iff.mp hnone).2
    split at hclients
    · rw [(m.popPending_registry resp).1] at hclients
      exact hclients
    · exact hclients
  · intro hresp core hcore
    have hack : checkExec resp.execType execResp = true := hresp
    cases hqueue : m.pendingOrderClients core with
    | nil => rfl
    | cons s rest =>
      unfold handleExecutionResponse ClientManager.popPending at hnone
      rw [if_pos hack, hcore] at hnone
      dsimp only at hnone
      rw [hqueue] at hnone
      cases hnone

end ClientManager

namespace Service

variable {σ : Type} [DecidableEq σ] (g : Service σ)

/-- A record that answers nobody leaves the service as it was. -/
theorem handle_unknown {resp : OrderResponse} (h : g.manager.Unknown resp)
    (hnone : (g.manager.handleExecutionResponse resp).2 = none) : g.handleExecutionResponse resp = g := by
  unfold handleExecutionResponse
  dsimp only
  rw [hnone, h.manager]

/-- A record that is handled in silence is sent to no session. -/
theorem chosen_of_log {resp : OrderResponse} (h : (g.handleExecutionResponse resp).log = g.log) :
    (g.manager.handleExecutionResponse resp).2 = none := by
  cases hchosen : (g.manager.handleExecutionResponse resp).2 with
  | none => rfl
  | some s =>
    unfold handleExecutionResponse at h
    dsimp only at h
    rw [hchosen] at h
    have hsent : g.log ++ [.sent s ⟨.order resp, g.outboundSeqNum s + 1⟩] = g.log := h
    exact absurd (List.append_right_eq_self.mp hsent) (List.cons_ne_nil _ _)

/-- What the sessions do, and what it takes. -/
theorem step_session {e : Event σ}
    (he : e.ofSession = true) : g.Elsewhere e ∨
      ∃ client msgSeqNum req answers core, e = .message client ⟨.order req, msgSeqNum⟩ answers ∧
        g.Admitted client msgSeqNum req answers ∧ g.manager.ringOf req.symbolId = some core ∧
        (g.step e).manager = g.manager.push core client := by
  cases e with
  | message client request answers =>
    obtain ⟨data, msgSeqNum⟩ := request
    cases data with
    | order req =>
      by_cases hadm : g.Admitted client msgSeqNum req answers
      · obtain ⟨core, hring⟩ := Option.isSome_iff_exists.mp hadm.ring
        exact Or.inr ⟨client, msgSeqNum, req, answers, core, rfl, hadm, hring, g.manager_admitted hadm hring⟩
      · exact Or.inl hadm
    | admin action clientId ackSeqNum => exact Or.inl trivial
    | position clientId symbolId => exact Or.inl trivial
    | openOrders clientId => exact Or.inl trivial
    | other => exact Or.inl trivial
  | close client => exact Or.inl trivial
  | writeFailed client => exact Or.inl trivial
  | updated resp logOffset => exact Or.inl trivial
  | respond resp => cases he
  | restart => cases he

end Service

namespace Restarted

variable {σ : Type} {l : ResponseLayout} {maxFileSize old : Nat} {x : Restarted σ}

/-- A reader and the journal it reads. -/
structure Follows (maxFileSize : Nat) (x : Restarted σ) (full : List (List Payload))
    (cur : List Payload) : Prop where
  written : Written maxFileSize x.journal full cur
  small : full.length < 2 ^ 32
  reader : At maxFileSize x.journal.dir full cur x.responseRing x.returned

section Reading

variable {full : List (List Payload)} {cur : List Payload}

/-- Records that are written later are not among the old ones. -/
theorem ahead_grow {sys : Sys} (hgrow : x.journal.appended <+: sys.appended)
    (hold : old ≤ x.journal.appended.length) : ahead l old { x with journal := sys } = x.ahead l old := by
  obtain ⟨more, hmore⟩ := hgrow
  unfold ahead
  rw [← hmore, List.take_append_of_le_length hold]

variable [DecidableEq σ]

omit [DecidableEq σ] in
/-- The record that is read next. -/
theorem Follows.next (h : x.Follows maxFileSize full cur) {fuel : Nat} {data : Payload} {r : MmapReader}
    (hrun : x.responseRing.readNext x.journal.dir fuel = some (some data, r)) :
    At maxFileSize x.journal.dir full cur r (x.returned ++ [data]) ∧
      x.journal.appended[x.returned.length]? = some data := by
  have hnext : At maxFileSize x.journal.dir full cur r (x.returned ++ [data]) :=
    h.reader.read h.written.published h.small hrun
  refine ⟨hnext, ?_⟩
  obtain ⟨more, hmore⟩ := hnext.within
  rw [h.written.appended, ← hmore, List.append_assoc, List.getElem?_append_right (le_refl _), Nat.sub_self]
  rfl

/-- What the process makes of it. -/
theorem Follows.polled (h : x.Follows maxFileSize full cur) {fuel : Nat} {data : Payload} {r : MmapReader}
    (hrun : x.responseRing.readNext x.journal.dir fuel = some (some data, r)) :
    (x.polled l r data).Follows maxFileSize full cur ∧
      (x.polled l r data).service =
        ((respOf l data).map x.service.handleExecutionResponse).getD x.service := by
  have hnext := (h.next hrun).1
  obtain ⟨hmapped, hoffset⟩ := readNext_behind hrun
  refine ⟨⟨h.written, h.small, hnext⟩, ?_⟩
  unfold Restarted.polled respOf
  dsimp only
  split
  · rename_i hlong
    have hcast : l.cast x.journal.dir r data.length = l.decode (data.take l.size) := by
      unfold ResponseLayout.cast
      rw [← slice_take _ _ hlong, (hnext.place hmapped hoffset).2]
    rw [hcast]
    rfl
  · rfl

omit [DecidableEq σ] in
/-- A record that is there can be read. -/
theorem Follows.readable (h : x.Follows maxFileSize full cur) {data : Payload}
    (hget : x.journal.appended[x.returned.length]? = some data) :
    ∃ r, x.responseRing.readNext x.journal.dir (full.length + 2) = some (some data, r) := by
  obtain ⟨⟨res, r⟩, hrun, hnext⟩ :=
    h.reader.readNext h.written.published h.small (full.length + 2) (by omega)
  cases res with
  | none =>
    have hend := hnext.2
    rw [← h.written.appended] at hend
    rw [← hend, List.getElem?_eq_none (le_refl _)] at hget
    cases hget
  | some data' =>
    obtain rfl := Option.some.inj ((h.next hrun).2.symm.trans hget)
    exact ⟨r, hrun⟩

/-- What is ahead of it, and behind it. -/
theorem ahead_polled {r : MmapReader} {data : Payload}
    (hnext : x.journal.appended[x.returned.length]? = some data) (hlt : x.returned.length < old) :
    x.ahead l old = (respOf l data).toList ++ (x.polled l r data).ahead l old := by
  have hget : (x.journal.appended.take old)[x.returned.length]? = some data := by
    rw [List.getElem?_take_of_lt hlt]
    exact hnext
  obtain ⟨hlen, hdata⟩ := List.getElem?_eq_some_iff.mp hget
  unfold ahead polled
  dsimp only
  rw [List.drop_eq_getElem_cons hlen, hdata, List.filterMap_cons, List.length_append,
    List.length_singleton]
  cases respOf l data with
  | none => rfl
  | some resp => rfl

omit [DecidableEq σ] in
/-- Once past the old records, none is ahead. -/
theorem ahead_behind (hle : old ≤ x.returned.length) : x.ahead l old = [] := by
  unfold ahead
  rw [List.drop_of_length_le (Nat.le_trans (List.length_take_le _ _) hle)]
  rfl

end Reading

/-! ## Nothing is said -/

/-- What a run in which everybody keeps clear of the old records preserves. -/
structure Fresh (l : ResponseLayout) (old : Nat) (x : Restarted σ) : Prop where
  history : old ≤ x.journal.appended.length
  popped : x.returned.length < old → x.service.manager.lastPoppedClient = none
  unknown : ∀ resp ∈ x.ahead l old, x.service.manager.Unknown resp

variable [DecidableEq σ] {full : List (List Payload)} {cur : List Payload}

/-- An old record leaves the process as it is. -/
theorem Fresh.polled (h : x.Fresh l old) (hfollows : x.Follows maxFileSize full cur)
    (hlt : x.returned.length < old) {fuel : Nat} {data : Payload} {r : MmapReader}
    (hrun : x.responseRing.readNext x.journal.dir fuel = some (some data, r)) :
    (x.polled l r data).service = x.service := by
  rw [(hfollows.polled hrun).2]
  cases hresp : respOf l data with
  | none => rfl
  | some resp =>
    have hmem : resp ∈ x.ahead l old := by
      rw [ahead_polled (r := r) (hfollows.next hrun).2 hlt, hresp]
      exact List.mem_append_left _ (List.mem_singleton.mpr rfl)
    have hunknown := h.unknown resp hmem
    exact x.service.handle_unknown hunknown (hunknown.chosen (h.popped hlt))

/-- Reading only old records, a fresh gateway sends nothing. -/
theorem Fresh.silent (h : x.Fresh l old) (hfollows : x.Follows maxFileSize full cur) : x.Silent l old := by
  intro fuel data r hrun hlt
  rw [h.polled hfollows hlt hrun]
  exact ⟨rfl, rfl⟩

omit [DecidableEq σ] in
/-- An event that registers nobody, and is no order for an engine. -/
theorem clear_elsewhere {e : Event σ} (helse : x.service.Elsewhere e)
    (hno : ∀ client clientId msgSeqNum ackSeqNum answers,
      e = .message client ⟨.admin .logOn clientId ackSeqNum, msgSeqNum⟩ answers →
      ¬ x.service.accepts clientId msgSeqNum ackSeqNum = true) : x.Clear l old e := by
  cases e with
  | message client request answers =>
    obtain ⟨data, msgSeqNum⟩ := request
    cases data with
    | admin action clientId ackSeqNum =>
      cases action with
      | logOn => exact fun hacc => absurd hacc (hno client clientId msgSeqNum ackSeqNum answers rfl)
      | logOut => trivial
      | other code => trivial
    | order req => exact fun hadm => absurd hadm helse
    | position clientId symbolId => trivial
    | openOrders clientId => trivial
    | other => trivial
  | _ => trivial

/-- `Clear` says just that the old records stay unknown. -/
theorem Fresh.clear_iff (h : x.Fresh l old) {e : Event σ} (he : e.ofSession = true) : x.Clear l old e ↔
    ∀ resp ∈ x.ahead l old, (x.service.step e).manager.Unknown resp := by
  rcases x.service.step_session he with helse | ⟨client, n, req, answers, core, rfl, hadm, hring, hmanager⟩
  · by_cases hlogon : ∃ client clientId msgSeqNum ackSeqNum answers,
        e = .message client ⟨.admin .logOn clientId ackSeqNum, msgSeqNum⟩ answers ∧
        x.service.accepts clientId msgSeqNum ackSeqNum = true
    · obtain ⟨client, clientId, n, ack, answers, rfl, hacc⟩ := hlogon
      rw [x.service.manager_logon answers hacc]
      constructor
      · intro hclear resp hresp
        refine ⟨?_, (h.unknown resp hresp).pending⟩
        dsimp only
        rw [Function.update_of_ne (hclear hacc resp hresp)]
        exact (h.unknown resp hresp).clients
      · intro hunknown _ resp hresp heq
        have hnone := (hunknown resp hresp).clients
        dsimp only at hnone
        rw [heq, Function.update_self] at hnone
        cases hnone
    · have hno : ∀ client clientId msgSeqNum ackSeqNum answers,
          e = .message client ⟨.admin .logOn clientId ackSeqNum, msgSeqNum⟩ answers →
          ¬ x.service.accepts clientId msgSeqNum ackSeqNum = true :=
        fun _ _ _ _ _ heq hacc => hlogon ⟨_, _, _, _, _, heq, hacc⟩
      refine iff_of_true (clear_elsewhere helse hno) fun resp hresp => ?_
      rcases x.service.step_elsewhere helse with hshrinks | ⟨_, _, _, _, _, heq, hacc, -⟩
      · exact (h.unknown resp hresp).shrinks hshrinks
      · exact absurd hacc (hno _ _ _ _ _ heq)
  · rw [hmanager]
    constructor
    · intro hclear resp hresp
      rw [(h.unknown resp hresp).push_iff, ← hring]
      exact hclear hadm resp hresp
    · intro hunknown _ resp hresp
      have hother := hunknown resp hresp
      rw [(h.unknown resp hresp).push_iff, ← hring] at hother
      exact hother

/-! ## Runs -/

/-- What the sessions do takes no session out of a queue. -/
theorem popped_session {e : Event σ} (he : e.ofSession = true)
    (hlast : x.service.manager.lastPoppedClient = none) :
    (x.service.step e).manager.lastPoppedClient = none := by
  rcases x.service.step_session he with helse | ⟨client, n, req, answers, core, -, -, -, hmanager⟩
  · rcases x.service.step_elsewhere helse with hshrinks | ⟨_, _, _, _, _, -, -, hmanager⟩
    · cases hafter : (x.service.step e).manager.lastPoppedClient with
      | none => rfl
      | some s =>
        have hbefore := hshrinks.queues.popped s hafter
        rw [hlast] at hbefore
        cases hbefore
    · rw [hmanager]
      exact hlast
  · rw [hmanager]
    exact hlast

/-- The old records are read in their order, whatever happens. -/
theorem Follows.step {K : Restarted σ → Event σ → Prop} {x' : Restarted σ}
    (h : x.Follows maxFileSize full cur) (hstep : Step K l maxFileSize x x')
    (hsmall : x'.journal.rolled < 2 ^ 32) : ∃ full' cur', x'.Follows maxFileSize full' cur' := by
  cases hstep with
  | journal hstep =>
    obtain ⟨full', cur', hwritten, hgrows⟩ := h.written.step hstep hsmall
    refine ⟨full', cur', hwritten, ?_, h.reader.grows h.written.published hgrows⟩
    rw [← hwritten.rolled]
    exact hsmall
  | session e hK he => exact ⟨full, cur, h.written, h.small, h.reader⟩
  | idle hrun => exact ⟨full, cur, h.written, h.small, (h.reader.read h.written.published h.small hrun).1⟩
  | poll hrun => exact ⟨full, cur, (h.polled hrun).1⟩

/-- A step in which everybody keeps clear of the old records. -/
theorem Fresh.step {x' : Restarted σ} (h : x.Fresh l old) (hfollows : x.Follows maxFileSize full cur)
    (hstep : Step (Clear l old) l maxFileSize x x') : x'.Fresh l old := by
  cases hstep with
  | journal hstep =>
    have hgrow := hstep.appended_prefix
    refine ⟨Nat.le_trans h.history hgrow.length_le, h.popped, ?_⟩
    intro resp hresp
    rw [ahead_grow hgrow h.history] at hresp
    exact h.unknown resp hresp
  | session e hK he =>
    exact ⟨h.history, fun hlt => popped_session he (h.popped hlt), (h.clear_iff he).mp hK⟩
  | idle hrun => exact ⟨h.history, h.popped, h.unknown⟩
  | @poll r fuel data hrun =>
    by_cases hlt : x.returned.length < old
    · have hservice := h.polled hfollows hlt hrun
      refine ⟨h.history, fun _ => ?_, fun resp hresp => ?_⟩
      · rw [hservice]
        exact h.popped hlt
      · rw [hservice]
        refine h.unknown resp ?_
        rw [ahead_polled (hfollows.next hrun).2 hlt]
        exact List.mem_append_right _ hresp
    · -- the old records are behind
      have hle : old ≤ (x.polled l r data).returned.length := by
        show old ≤ (x.returned ++ [data]).length
        rw [List.length_append]
        omega
      refine ⟨h.history, fun hlt' => absurd hlt' (Nat.not_lt.mpr hle), fun resp hresp => ?_⟩
      rw [ahead_behind hle] at hresp
      cases hresp

/-- Files are only rolled forward. -/
theorem Step.rolled_le {K : Restarted σ → Event σ → Prop} {x' : Restarted σ}
    (h : Step K l maxFileSize x x') : x.journal.rolled ≤ x'.journal.rolled := by
  cases h
  case journal hstep => exact hstep.rolled_le
  all_goals exact le_rfl

omit [DecidableEq σ] in
/-- A process that was just started has read nothing, and knows nobody. -/
theorem create_fresh {journal : Sys} (hjournal : Sys.Run maxFileSize journal)
    (hsmall : journal.rolled < 2 ^ 32) (m : ClientManager σ) (iSeqNums oSeqNums : UInt32 → Nat) :
    (∃ full cur, (create journal m iSeqNums oSeqNums).Follows maxFileSize full cur) ∧
      (create journal m iSeqNums oSeqNums).Fresh l journal.appended.length := by
  obtain ⟨full, cur, hinv⟩ := hjournal.inv hsmall
  have hw := hinv.written
  exact ⟨⟨full, cur, hw, hw.rolled ▸ hsmall, At.open hw.published _ (Nat.zero_le _)⟩,
    le_refl _, fun _ => rfl, fun _ _ => ⟨rfl, fun _ _ _ => rfl⟩⟩

/-- By induction on the run from the restart. -/
theorem From.fresh {journal : Sys} (hjournal : Sys.Run maxFileSize journal) {m : ClientManager σ}
    {iSeqNums oSeqNums : UInt32 → Nat} (h : From (Clear l journal.appended.length) l maxFileSize
      (create journal m iSeqNums oSeqNums) x) (hsmall : x.journal.rolled < 2 ^ 32) :
    (∃ full cur, x.Follows maxFileSize full cur) ∧ x.Fresh l journal.appended.length := by
  induction h with
  | here => exact create_fresh hjournal hsmall m iSeqNums oSeqNums
  | step _ hstep ih =>
    obtain ⟨⟨full, cur, hfollows⟩, hfresh⟩ := ih (Nat.lt_of_le_of_lt hstep.rolled_le hsmall)
    exact ⟨hfollows.step hstep hsmall, hfresh.step hfollows hstep⟩

/-! ## Reading on -/

theorem Reads.fresh {x' : Restarted σ} (h : Reads l x x') (hfollows : x.Follows maxFileSize full cur)
    (hfresh : x.Fresh l old) : x'.Follows maxFileSize full cur ∧ x'.Fresh l old := by
  induction h with
  | here => exact ⟨hfollows, hfresh⟩
  | poll _ hrun ih =>
    obtain ⟨hfollows', hfresh'⟩ := ih
    exact ⟨(hfollows'.polled hrun).1, hfresh'.step hfollows' (.poll hrun)⟩

/-- A record that is not sent leaves the process as it is. -/
theorem Silent.polled (hsilent : x.Silent l old) (hfollows : x.Follows maxFileSize full cur)
    (hlt : x.returned.length < old) {fuel : Nat} {data : Payload} {r : MmapReader}
    (hrun : x.responseRing.readNext x.journal.dir fuel = some (some data, r)) :
    (∀ resp ∈ respOf l data, x.service.manager.Unknown resp) ∧
      (x.polled l r data).service = x.service := by
  have hlog := (hsilent fuel data r hrun hlt).1
  have hservice := (hfollows.polled (l := l) hrun).2
  rw [hservice] at hlog ⊢
  cases hresp : respOf l data with
  | none => exact ⟨fun _ h => (by cases h), rfl⟩
  | some resp =>
    rw [hresp] at hlog
    have hnone := x.service.chosen_of_log hlog
    have hunknown := ClientManager.unknown_of_handle hnone
    refine ⟨fun resp' h => ?_, x.service.handle_unknown hunknown hnone⟩
    obtain rfl := Option.some.inj h
    exact hunknown

/-- One record before others. -/
theorem Reads.head {r : MmapReader} {fuel : Nat} {data : Payload}
    (hrun : x.responseRing.readNext x.journal.dir fuel = some (some data, r)) {x' : Restarted σ}
    (h : Reads l (x.polled l r data) x') : Reads l x x' := by
  induction h with
  | here => exact Reads.here.poll hrun
  | poll _ hrun' ih => exact ih.poll hrun'

/-- If all that is left of the old records can be read in silence, nobody waits for them. -/
theorem unknown_of_silent (hfollows : x.Follows maxFileSize full cur)
    (hold : old ≤ x.journal.appended.length) (hall : ∀ x', Reads l x x' → x'.Silent l old) :
    ∀ resp ∈ x.ahead l old, x.service.manager.Unknown resp := by
  -- by induction on the number of records that are left
  induction hn : old - x.returned.length generalizing x with
  | zero =>
    intro resp hresp
    rw [ahead_behind (by omega)] at hresp
    cases hresp
  | succ n ih =>
    have hlt : x.returned.length < old := by omega
    have hget := List.getElem?_eq_getElem (Nat.lt_of_lt_of_le hlt hold)
    obtain ⟨r, hrun⟩ := hfollows.readable hget
    obtain ⟨hfirst, hservice⟩ := (hall x .here).polled hfollows hlt hrun
    have hrest := ih (hfollows.polled hrun).1 hold (fun x' h => hall x' (.head hrun h)) (by
      show old - (x.returned ++ [_]).length = n
      rw [List.length_append, List.length_singleton]
      omega)
    intro resp hresp
    rw [ahead_polled (r := r) hget hlt] at hresp
    rcases List.mem_append.mp hresp with hresp | hresp
    · exact hfirst resp (Option.mem_toList.mp hresp)
    · exact hservice ▸ hrest resp hresp

/-- A process is started on a journal. As long as nobody logs on whom the rest of the old records
names, and no order goes to a core that one of the acknowledgements among them belongs to, none of
them is sent, or takes a session out of a queue. It takes just one that does not keep to that, and
the process reading on, for this to happen. -/
theorem history_not_replayed {journal : Sys} (hjournal : Sys.Run maxFileSize journal)
    {m : ClientManager σ} {iSeqNums oSeqNums : UInt32 → Nat}
    (h : From (Clear l journal.appended.length) l maxFileSize (create journal m iSeqNums oSeqNums) x)
    (hsmall : x.journal.rolled < 2 ^ 32) :
    x.Silent l journal.appended.length ∧ ∀ e : Event σ, e.ofSession = true →
      (x.Clear l journal.appended.length e ↔
        ∀ x', Reads l { x with service := x.service.step e } x' → x'.Silent l journal.appended.length) := by
  obtain ⟨⟨full, cur, hfollows⟩, hfresh⟩ := h.fresh hjournal hsmall
  refine ⟨hfresh.silent hfollows, fun e he => ?_⟩
  have hfollows' : Follows maxFileSize { x with service := x.service.step e } full cur :=
    ⟨hfollows.written, hfollows.small, hfollows.reader⟩
  refine ⟨fun hclear x' hreads => ?_, fun hall => ?_⟩
  · obtain ⟨hlast, hstill⟩ := hreads.fresh hfollows' (hfresh.step hfollows (.session e hclear he))
    exact hstill.silent hlast
  · rw [hfresh.clear_iff he]
    exact unknown_of_silent hfollows' hfresh.history hall

/-! ## An acknowledgement of client 1 -/

/-- A journal with an acknowledgement of client 1 in it. -/
theorem journal_of_one : ∃ journal, Sys.Run 4096 journal ∧ journal.rolled = 0 ∧
    journal.appended = [sampleRecord 1] := by
  obtain ⟨sys, hsys, -, hrolled, happended⟩ := run_records (show 4096 < 2 ^ 63 by decide) 1 (by decide)
  exact ⟨sys, hsys, hrolled, happended⟩

/-- A process with one ring, on a database without numbers. -/
def started (journal : Sys) : Restarted Nat := create journal oneRing (fun _ => 0) fun _ => 0

/-- Connection 7 logs on under a client id for the first time. -/
def firstLogon (clientId : UInt32) : Event Nat := .message 7 ⟨.admin .logOn clientId 0, 1⟩ .quiet

/-- It sends an order. -/
def firstOrder : Event Nat := .message 7 ⟨.order (sampleRequest .new 1 .sell 20 7), 2⟩ .quiet

/-- The process after a logon of client 1, and the order. -/
def orderedService : Service Nat :=
  ((Service.start oneRing (fun _ => 0) fun _ => 0).step (firstLogon 1)).step firstOrder

/-- Client 2 logs on, and the record is not in its way. -/
theorem other_client_clear : ∃ journal x, Sys.Run 4096 journal ∧ journal.appended = [sampleRecord 1] ∧
    From (Clear sampleLayout journal.appended.length) sampleLayout 4096 (started journal) x ∧
    x.service.manager.clients 2 = some 7 ∧ x.Silent sampleLayout journal.appended.length := by
  obtain ⟨journal, hjournal, hrolled, happended⟩ := journal_of_one
  have hclear : (started journal).Clear sampleLayout journal.appended.length (firstLogon 2) := by
    intro _ resp hresp
    unfold ahead started create at hresp
    dsimp only at hresp
    rw [happended] at hresp
    revert resp
    decide
  have hfrom : From (Clear sampleLayout journal.appended.length) sampleLayout 4096 (started journal) _ :=
    From.here.step (.session (firstLogon 2) hclear rfl)
  have hsmall : journal.rolled < 2 ^ 32 := by
    rw [hrolled]
    decide
  exact ⟨journal, _, hjournal, happended, hfrom, rfl, (history_not_replayed hjournal hfrom hsmall).1⟩

/-- The process after a logon of client 1, and its first order. -/
def ordered (journal : Sys) : Restarted Nat := { started journal with service := orderedService }

/-- Client 1 logs on and sends an order. The record is sent to it, under the next number, and the
order has lost its place in the queue. -/
theorem history_replayed : ∃ journal r resp, Sys.Run 4096 journal ∧
    journal.appended = [sampleRecord 1] ∧
    From (fun _ _ => True) sampleLayout 4096 (started journal) (ordered journal) ∧
    (ordered journal).responseRing.readNext journal.dir 2 = some (some (sampleRecord 1), r) ∧
    ((ordered journal).polled sampleLayout r (sampleRecord 1)).service.log =
      (ordered journal).service.log ++ [.sent 7 ⟨.order resp, 2⟩] ∧
    (ordered journal).service.manager.pendingOrderClients 0 = [7] ∧
    ((ordered journal).polled sampleLayout r (sampleRecord 1)).service.manager.pendingOrderClients 0 = [] ∧
    ¬ (ordered journal).Silent sampleLayout journal.appended.length := by
  obtain ⟨journal, hjournal, hrolled, happended⟩ := journal_of_one
  have hlogged : From (fun _ _ => True) sampleLayout 4096 (started journal) _ :=
    From.here.step (.session (firstLogon 1) trivial rfl)
  have hwritten := written_records hjournal hrolled (n := 1) happended
  have hfollows : (ordered journal).Follows 4096 [] [sampleRecord 1] :=
    ⟨hwritten, by decide, At.open hwritten.published _ (Nat.zero_le _)⟩
  have hget : journal.appended[0]? = some (sampleRecord 1) := by
    rw [happended]
    rfl
  obtain ⟨r, hrun⟩ := hfollows.readable hget
  have hservice : ((ordered journal).polled sampleLayout r (sampleRecord 1)).service =
      orderedService.handleExecutionResponse (sampleLayout.decode (sampleRecord 1)) :=
    (hfollows.polled hrun).2
  have hlog : ((ordered journal).polled sampleLayout r (sampleRecord 1)).service.log =
      (ordered journal).service.log ++ [.sent 7 ⟨.order (sampleLayout.decode (sampleRecord 1)), 2⟩] := by
    rw [hservice]
    rfl
  refine ⟨journal, r, _, hjournal, happended, hlogged.step (.session firstOrder trivial rfl), hrun, hlog, rfl, ?_,
    fun hsilent => ?_⟩
  · rw [hservice]
    rfl
  · have hsame := (hsilent 2 _ r hrun (by rw [happended]; exact Nat.zero_lt_one)).1
    exact absurd (List.append_right_eq_self.mp (hlog.symm.trans hsame)) (List.cons_ne_nil _ _)

end Restarted

end Exchange.Gateway
