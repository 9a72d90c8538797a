import Exchange.Client.Account
import Exchange.Database.Restarts

/-!
# A position from two readers

The client manager's process reads the journal twice: the polling thread of `ClientDatabase` books
what it reads, `poll_server` sends what it reads to the client. `process_client_request` answers a
`PositionRequest` with what the database has booked so far. The client writes the answer over its
position and books the records as they come.

So behind an answer the account is what the database had booked then, and what `poll_server` had
still to read then (`Inv.answered`). That is the database's position if and only if the
two readers had as much to book (`positions_converge_iff`); on a journal of the engine, if and only
if the records that one of them had read and the other had not book nothing
(`engine_positions_converge_iff`).
-/

namespace Exchange

open CsvProcess (booked booked_append booked_single responses ProcessOk)
open InMemoryClientDatabase (empty)
open MmapLog

/-- What goes to the client. -/
inductive ClientMessage
  | orderResponse (response : OrderResponse)
  | positionResponse (response : PositionResponse)

/-- `on_order_response` and `on_position_response`. -/
def ClientAccount.handle (acc : ClientAccount) : ClientMessage → ClientAccount
  | .orderResponse response => acc.handleOrderResponse response
  | .positionResponse response => acc.handlePositionResponse response

/-- The journal with its writer, the two readers, and a client that is logged on. -/
structure PositionSync where
  journal : Sys
  /-- `start_polling`, with its database. -/
  database : PollProcess
  db : InMemoryClientDatabase
  /-- `poll_server`. -/
  gateway : PollProcess
  /-- What has been sent to the client and has not arrived. -/
  sent : List ClientMessage
  account : ClientAccount
  /-- The responses the database has booked. -/
  applied : List OrderResponse
  /-- The responses the gateway has read. -/
  passed : List OrderResponse
  /-- By symbol, how many of both there were at the last answer. -/
  answers : UInt32 → Option (Nat × Nat)

namespace PositionSync

/-- An empty directory, and a new process and client. -/
def init : PositionSync := ⟨.init, .down, .empty, .down, [], .empty, [], [], fun _ => none⟩

/-- `handle_execution_response`: a record goes to the client it is addressed to. -/
def send (clientId : UInt32) (resp : OrderResponse) (sent : List ClientMessage) : List ClientMessage :=
  if resp.clientId = clientId then sent ++ [.orderResponse resp] else sent

/-- What can happen next. -/
inductive Step (l : ResponseLayout) (maxFileSize : Nat) (clientId : UInt32) (st : PositionSync) :
    PositionSync → Prop
  | journal {sys : Sys} (hstep : Sys.Step maxFileSize st.journal sys) :
      Step l maxFileSize clientId st { st with journal := sys }
  | startPolling (hdown : st.database = .down) :
      Step l maxFileSize clientId st { st with
        database := .polling (Polling.startReader st.journal.dir st.db.lastLogOffset) }
  | sleep {r r' : MmapReader} {fuel : Nat} (hpolling : st.database = .polling r)
      (hrun : r.readNext st.journal.dir fuel = some (none, r')) :
      Step l maxFileSize clientId st { st with database := .polling r' }
  | read {r r' : MmapReader} {fuel : Nat} {data : Payload} (hpolling : st.database = .polling r)
      (hrun : r.readNext st.journal.dir fuel = some (some data, r')) :
      Step l maxFileSize clientId st { st with database := .applying r' data }
  | short {r : MmapReader} {data : Payload} (hread : st.database = .applying r data)
      (hshort : data.length < l.size) :
      Step l maxFileSize clientId st { st with database := .polling r }
  | update {r : MmapReader} {data : Payload} (hread : st.database = .applying r data)
      (hlong : l.size ≤ data.length) :
      Step l maxFileSize clientId st { st with
        database := .polling r
        db := st.db.updateOnExecution (l.cast st.journal.dir r data.length) r.getOffset
        applied := st.applied ++ [l.cast st.journal.dir r data.length] }
  | startGateway (hdown : st.gateway = .down) :
      Step l maxFileSize clientId st { st with gateway := .polling (.create st.journal.dir) }
  | idle {r r' : MmapReader} {fuel : Nat} (hpolling : st.gateway = .polling r)
      (hrun : r.readNext st.journal.dir fuel = some (none, r')) :
      Step l maxFileSize clientId st { st with gateway := .polling r' }
  | readResponse {r r' : MmapReader} {fuel : Nat} {data : Payload} (hpolling : st.gateway = .polling r)
      (hrun : r.readNext st.journal.dir fuel = some (some data, r')) :
      Step l maxFileSize clientId st { st with gateway := .applying r' data }
  | skip {r : MmapReader} {data : Payload} (hread : st.gateway = .applying r data)
      (hshort : data.length < l.size) :
      Step l maxFileSize clientId st { st with gateway := .polling r }
  | pass {r : MmapReader} {data : Payload} (hread : st.gateway = .applying r data)
      (hlong : l.size ≤ data.length) :
      Step l maxFileSize clientId st { st with
        gateway := .polling r
        sent := send clientId (l.cast st.journal.dir r data.length) st.sent
        passed := st.passed ++ [l.cast st.journal.dir r data.length] }
  /-- `poll_client` and `poll_server` take turns. -/
  | answer {r : MmapReader} (hpolling : st.gateway = .polling r) (symbolId : UInt32) :
      Step l maxFileSize clientId st { st with
        sent := st.sent ++
          [.positionResponse ⟨clientId, symbolId, st.db.getPosition clientId symbolId⟩]
        answers := Function.update st.answers symbolId (some (st.applied.length, st.passed.length)) }
  | deliver {m : ClientMessage} {rest : List ClientMessage} (hsent : st.sent = m :: rest) :
      Step l maxFileSize clientId st { st with sent := rest, account := st.account.handle m }

/-- The states these steps lead to. -/
inductive Run (l : ResponseLayout) (maxFileSize : Nat) (clientId : UInt32) : PositionSync → Prop
  | init : Run l maxFileSize clientId .init
  | step {st st' : PositionSync} (h : Run l maxFileSize clientId st)
      (hstep : Step l maxFileSize clientId st st') : Run l maxFileSize clientId st'

/-- Both readers have read everything there is, and everything that was sent has arrived. -/
structure AtEnd (st : PositionSync) : Prop where
  database : ∃ r r' fuel, st.database = .polling r ∧ r.readNext st.journal.dir fuel = some (none, r')
  gateway : ∃ r r' fuel, st.gateway = .polling r ∧ r.readNext st.journal.dir fuel = some (none, r')
  sent : st.sent = []

end PositionSync

/-- What responses book together in the account of a client. -/
def credited (rs : List OrderResponse) (clientId symbolId : UInt32) : BitVec 64 :=
  (rs.map fun r => if r.clientId = clientId then r.credit symbolId else 0).sum

theorem credited_append (rs rs' : List OrderResponse) (clientId symbolId : UInt32) :
    credited (rs ++ rs') clientId symbolId = credited rs clientId symbolId + credited rs' clientId symbolId := by
  unfold credited
  rw [List.map_append, List.sum_append]

theorem credited_single (r : OrderResponse) (clientId symbolId : UInt32) :
    credited [r] clientId symbolId = if r.clientId = clientId then r.credit symbolId else 0 := by
  unfold credited
  rw [List.map_singleton, List.sum_singleton]

/-- A trade of a side, or of nothing. -/
def OrderResponse.Sided (r : OrderResponse) : Prop :=
  r.isTrade = true → r.side = .buy ∨ r.side = .sell ∨ r.q = 0

/-- Such a record is booked alike. -/
theorem OrderResponse.Sided.credit {r : OrderResponse} (h : r.Sided) (clientId symbolId : UInt32) :
    (if r.clientId = clientId then r.credit symbolId else 0) = r.net clientId symbolId := by
  unfold OrderResponse.net OrderResponse.credit
  by_cases hc : r.clientId = clientId
  · rw [if_pos hc]
    by_cases ht : r.isTrade = true
    · rw [if_pos (⟨ht, hc⟩ : r.isTrade = true ∧ r.clientId = clientId)]
      by_cases hside : r.side = .buy ∨ r.side = .sell
      · rw [if_pos ⟨ht, hside⟩]
      · have hq : r.q = 0 := ((h ht).imp_right fun h => h).elim (fun hb => absurd (Or.inl hb) hside)
          fun hrest => hrest.resolve_left fun hs => hside (Or.inr hs)
        rw [if_neg fun h => hside h.2]
        unfold assetDelta cashDelta
        simp [hq]
    · rw [if_neg fun h => ht h.1, if_neg fun h => ht h.1]
  · rw [if_neg hc, if_neg fun h => hc h.2]

/-- What a client is credited is what the database books for it, for records of either side. -/
theorem credited_eq_booked {rs : List OrderResponse} (h : ∀ r ∈ rs, r.Sided) (clientId symbolId : UInt32) :
    credited rs clientId symbolId = booked rs clientId symbolId := by
  unfold credited booked
  exact congrArg List.sum (List.map_congr_left fun r hr => (h r hr).credit clientId symbolId)

namespace PositionSync

/-- The account once everything that has been sent has arrived. -/
def arrived (st : PositionSync) : ClientAccount := st.sent.foldl ClientAccount.handle st.account

/-- Both readers are on the journal; the positions are what the database has booked; and behind an
answer the account is what the database had booked then, and what was passed on since. -/
structure Inv (l : ResponseLayout) (maxFileSize : Nat) (clientId : UInt32) (st : PositionSync)
    (full : List (List Payload)) (cur : List Payload) : Prop where
  written : Written maxFileSize st.journal full cur
  database : ProcessOk l maxFileSize st.journal.dir full cur st.applied st.database
  gateway : ProcessOk l maxFileSize st.journal.dir full cur st.passed st.gateway
  fresh : st.database = .down → st.db = .empty
  position : ∀ s, st.db.getPosition clientId s =
    empty.getPosition clientId s + booked st.applied clientId s
  answered : ∀ s b p, st.answers s = some (b, p) → b ≤ st.applied.length ∧ p ≤ st.passed.length ∧
    st.arrived.getPosition s = empty.getPosition clientId s + booked (st.applied.take b) clientId s +
      credited (st.passed.drop p) clientId s

section Steps

variable {l : ResponseLayout} {maxFileSize : Nat} {clientId : UInt32} {st st' : PositionSync}
  {full : List (List Payload)} {cur : List Payload}

/-- At the start nothing is written and nothing read. -/
theorem inv_init (l : ResponseLayout) (maxFileSize : Nat) (clientId : UInt32) :
    Inv l maxFileSize clientId init [] [] :=
  ⟨(MmapLog.inv_init maxFileSize).written, rfl, rfl, fun _ => rfl, fun _ => (add_zero _).symm,
    fun _ _ _ h => by cases h⟩

/-- A record that is passed on is booked when it arrives. -/
theorem getPosition_send (acc : ClientAccount) (resp : OrderResponse) (sent : List ClientMessage) (s : UInt32) :
    ((send clientId resp sent).foldl ClientAccount.handle acc).getPosition s =
      (sent.foldl ClientAccount.handle acc).getPosition s + credited [resp] clientId s := by
  rw [credited_single]
  unfold send
  split
  · rw [List.foldl_append]
    exact ClientAccount.getPosition_handleOrderResponse _ resp s
  · exact (add_zero _).symm

/-- The journal grows, or its writer is about to make it grow. -/
theorem Inv.journal (h : Inv l maxFileSize clientId st full cur) {sys : Sys}
    (hstep : Sys.Step maxFileSize st.journal sys) (hsmall : sys.rolled < 2 ^ 32) :
    ∃ full' cur', Inv l maxFileSize clientId { st with journal := sys } full' cur' := by
  have hpub := h.written.published
  obtain ⟨full', cur', hwritten, hgrows⟩ := h.written.step hstep hsmall
  exact ⟨full', cur', hwritten, h.database.grow hpub hgrows, h.gateway.grow hpub hgrows, h.fresh, h.position,
    h.answered⟩

/-- Nothing has been booked before the first process of the database. -/
theorem Inv.startPolling (h : Inv l maxFileSize clientId st full cur) (hdown : st.database = .down) :
    Inv l maxFileSize clientId { st with
      database := .polling (Polling.startReader st.journal.dir st.db.lastLogOffset) } full cur := by
  have hdatabase := h.database
  rw [hdown] at hdatabase
  have happlied : st.applied = [] := hdatabase
  refine ⟨h.written, ?_, h.gateway, PollProcess.noConfusion, h.position, h.answered⟩
  dsimp only
  rw [h.fresh hdown, happlied]
  exact .create h.written.published

/-- What the database had booked at an answer is the first part of what it has booked. -/
theorem Inv.update (h : Inv l maxFileSize clientId st full cur) {r : MmapReader} {data : Payload}
    (hread : st.database = .applying r data) (hlong : l.size ≤ data.length) :
    Inv l maxFileSize clientId { st with
      database := .polling r
      db := st.db.updateOnExecution (l.cast st.journal.dir r data.length) r.getOffset
      applied := st.applied ++ [l.cast st.journal.dir r data.length] } full cur := by
  have hdatabase := h.database
  rw [hread] at hdatabase
  refine ⟨h.written, hdatabase.update hlong, h.gateway, PollProcess.noConfusion, fun s => ?_,
    fun s b p hans => ?_⟩
  · dsimp only
    rw [InMemoryClientDatabase.getPosition_net, h.position, booked_append, booked_single, add_assoc]
  · obtain ⟨hb, hp, hpos⟩ := h.answered s b p hans
    refine ⟨?_, hp, ?_⟩
    · rw [List.length_append]
      omega
    · rw [List.take_append_of_le_length hb]
      exact hpos

/-- The gateway starts from file 0, wherever the journal is. -/
theorem Inv.startGateway (h : Inv l maxFileSize clientId st full cur) (hdown : st.gateway = .down) :
    Inv l maxFileSize clientId { st with gateway := .polling (.create st.journal.dir) } full cur := by
  have hgateway := h.gateway
  rw [hdown] at hgateway
  have hpassed : st.passed = [] := hgateway
  refine ⟨h.written, h.database, ?_, h.fresh, h.position, h.answered⟩
  dsimp only
  rw [hpassed]
  exact .create h.written.published

/-- What is passed on comes behind every answer that was given before. -/
theorem Inv.pass (h : Inv l maxFileSize clientId st full cur) {r : MmapReader} {data : Payload}
    (hread : st.gateway = .applying r data) (hlong : l.size ≤ data.length) :
    Inv l maxFileSize clientId { st with
      gateway := .polling r
      sent := send clientId (l.cast st.journal.dir r data.length) st.sent
      passed := st.passed ++ [l.cast st.journal.dir r data.length] } full cur := by
  have hgateway := h.gateway
  rw [hread] at hgateway
  refine ⟨h.written, h.database, hgateway.update hlong, h.fresh, h.position, fun s b p hans => ?_⟩
  obtain ⟨hb, hp, hpos⟩ := h.answered s b p hans
  refine ⟨hb, ?_, ?_⟩
  · rw [List.length_append]
    omega
  · unfold arrived
    rw [getPosition_send, List.drop_append_of_le_length hp, credited_append, ← add_assoc]
    congr 1

/-- An answer has what the database has booked by then, whatever was sent before. -/
theorem Inv.answer (h : Inv l maxFileSize clientId st full cur) (symbolId : UInt32) :
    Inv l maxFileSize clientId { st with
      sent := st.sent ++ [.positionResponse ⟨clientId, symbolId, st.db.getPosition clientId symbolId⟩]
      answers := Function.update st.answers symbolId (some (st.applied.length, st.passed.length)) } full cur := by
  refine ⟨h.written, h.database, h.gateway, h.fresh, h.position, fun s b p hans => ?_⟩
  have harrived : ∀ m, (st.sent ++ [ClientMessage.positionResponse m]).foldl ClientAccount.handle st.account =
      st.arrived.handlePositionResponse m := fun _ => List.foldl_append
  unfold arrived
  rw [harrived, ClientAccount.getPosition_handlePositionResponse]
  by_cases hs : s = symbolId
  · -- what the database has booked is in the answer, and nothing has been passed on since
    subst hs
    have hnow : Function.update st.answers s (some (st.applied.length, st.passed.length)) s = some (b, p) :=
      hans
    rw [Function.update_self] at hnow
    obtain ⟨rfl, rfl⟩ := Prod.mk.inj (Option.some.inj hnow)
    refine ⟨le_rfl, le_rfl, ?_⟩
    rw [if_pos rfl, List.take_length, List.drop_length, h.position]
    exact (add_zero _).symm
  · rw [if_neg hs]
    dsimp only at hans
    rw [Function.update_of_ne hs] at hans
    exact h.answered s b p hans

/-- The account that has got everything is the same before a message arrives and after. -/
theorem Inv.deliver (h : Inv l maxFileSize clientId st full cur) {m : ClientMessage} {rest : List ClientMessage}
    (hsent : st.sent = m :: rest) :
    Inv l maxFileSize clientId { st with sent := rest, account := st.account.handle m } full cur := by
  refine ⟨h.written, h.database, h.gateway, h.fresh, h.position, fun s b p hans => ?_⟩
  have hanswered := h.answered s b p hans
  unfold arrived at hanswered
  rw [hsent] at hanswered
  exact hanswered

/-- Every step keeps the invariant; a reader that finds nothing, or a record that is too short, changes nothing
but its place. -/
theorem Inv.step (h : Inv l maxFileSize clientId st full cur) (hstep : Step l maxFileSize clientId st st')
    (hsmall : st'.journal.rolled < 2 ^ 32) : ∃ full' cur', Inv l maxFileSize clientId st' full' cur' := by
  have hpub := h.written.published
  have hdatabase := h.database
  have hgateway := h.gateway
  cases hstep with
  | journal hstep => exact h.journal hstep hsmall
  | startPolling hdown => exact ⟨full, cur, h.startPolling hdown⟩
  | sleep hpolling hrun =>
    rw [hpolling] at hdatabase
    obtain ⟨hdatabase', -⟩ := hdatabase.sleep hpub (h.written.rolled ▸ hsmall) hrun
    exact ⟨full, cur, h.written, hdatabase', hgateway, PollProcess.noConfusion, h.position, h.answered⟩
  | read hpolling hrun =>
    rw [hpolling] at hdatabase
    exact ⟨full, cur, h.written, hdatabase.read hpub (h.written.rolled ▸ hsmall) hrun, hgateway,
      PollProcess.noConfusion, h.position, h.answered⟩
  | short hread hshort =>
    rw [hread] at hdatabase
    exact ⟨full, cur, h.written, hdatabase.short hshort, hgateway, PollProcess.noConfusion, h.position,
      h.answered⟩
  | update hread hlong => exact ⟨full, cur, h.update hread hlong⟩
  | startGateway hdown => exact ⟨full, cur, h.startGateway hdown⟩
  | idle hpolling hrun =>
    rw [hpolling] at hgateway
    obtain ⟨hgateway', -⟩ := hgateway.sleep hpub (h.written.rolled ▸ hsmall) hrun
    exact ⟨full, cur, h.written, hdatabase, hgateway', h.fresh, h.position, h.answered⟩
  | readResponse hpolling hrun =>
    rw [hpolling] at hgateway
    exact ⟨full, cur, h.written, hdatabase, hgateway.read hpub (h.written.rolled ▸ hsmall) hrun, h.fresh,
      h.position, h.answered⟩
  | skip hread hshort =>
    rw [hread] at hgateway
    exact ⟨full, cur, h.written, hdatabase, hgateway.short hshort, h.fresh, h.position, h.answered⟩
  | pass hread hlong => exact ⟨full, cur, h.pass hread hlong⟩
  | answer hpolling symbolId => exact ⟨full, cur, h.answer symbolId⟩
  | deliver hsent => exact ⟨full, cur, h.deliver hsent⟩

/-- Files are only rolled forward. -/
theorem Step.rolled_le (h : Step l maxFileSize clientId st st') : st.journal.rolled ≤ st'.journal.rolled := by
  cases h
  case journal hstep => exact hstep.rolled_le
  all_goals exact le_rfl

/-- By induction on the run, as long as fewer than 2^32 files were rolled. -/
theorem Run.inv (h : Run l maxFileSize clientId st) (hsmall : st.journal.rolled < 2 ^ 32) :
    ∃ full cur, Inv l maxFileSize clientId st full cur := by
  induction h with
  | init => exact ⟨[], [], inv_init l maxFileSize clientId⟩
  | step _ hstep ih =>
    obtain ⟨full, cur, hinv⟩ := ih (Nat.lt_of_le_of_lt hstep.rolled_le hsmall)
    exact hinv.step hstep hsmall

/-- In the end the database has booked everything, and the account everything that was passed on
behind the answer. -/
theorem Run.settled (h : Run l maxFileSize clientId st) (hsmall : st.journal.rolled < 2 ^ 32)
    (hend : st.AtEnd) {s : UInt32} {b p : Nat} (hans : st.answers s = some (b, p)) :
    st.db.getPosition clientId s = empty.getPosition clientId s +
        booked (responses l st.journal.appended) clientId s ∧
      st.account.getPosition s = empty.getPosition clientId s +
        booked ((responses l st.journal.appended).take b) clientId s +
          credited ((responses l st.journal.appended).drop p) clientId s := by
  obtain ⟨full, cur, hinv⟩ := h.inv hsmall
  obtain ⟨⟨r, r', fuel, hpolling, hrun⟩, ⟨q, q', fuel', hpolling', hrun'⟩, hsent⟩ := hend
  have hlen : full.length < 2 ^ 32 := hinv.written.rolled ▸ hsmall
  have hdatabase := hinv.database
  have hgateway := hinv.gateway
  rw [hpolling] at hdatabase
  rw [hpolling'] at hgateway
  have happlied := (hdatabase.sleep hinv.written.published hlen hrun).2
  have hpassed := (hgateway.sleep hinv.written.published hlen hrun').2
  obtain ⟨-, -, hposition⟩ := hinv.answered s b p hans
  unfold arrived at hposition
  rw [hsent, List.foldl_nil, happlied, hpassed, ← hinv.written.appended] at hposition
  refine ⟨?_, hposition⟩
  rw [hinv.position, happlied, ← hinv.written.appended]

end Steps

end PositionSync

/-- Once everything has been read and has arrived, the position of a symbol for which a request was
answered is the database's if and only if, at the last answer, the database had as much to book for
the client as the gateway had to pass on to it. -/
theorem positions_converge_iff {l : ResponseLayout} {maxFileSize : Nat} {clientId : UInt32} {st : PositionSync}
    (h : st.Run l maxFileSize clientId) (hsmall : st.journal.rolled < 2 ^ 32) (hend : st.AtEnd)
    {s : UInt32} {b p : Nat} (hans : st.answers s = some (b, p)) :
    st.account.getPosition s = st.db.getPosition clientId s ↔
      booked ((responses l st.journal.appended).drop b) clientId s =
        credited ((responses l st.journal.appended).drop p) clientId s := by
  obtain ⟨hdb, haccount⟩ := h.settled hsmall hend hans
  have hsplit := booked_append ((responses l st.journal.appended).take b)
    ((responses l st.journal.appended).drop b) clientId s
  rw [List.take_append_drop] at hsplit
  rw [hdb, haccount, hsplit, ← add_assoc, add_right_inj]
  exact eq_comm

/-! ## Journals of the engine -/

section Engine

variable {c : Config} {a : Lob} {req : OrderRequest} {gen : Nat → Nat}

theorem trade_sided {s : Slot} {t : Order} {idx : Nat} {r : OrderResponse}
    (h : r ∈ (a.execute c gen s t idx).recs) : r.Sided := by
  obtain ⟨id, x, p, q, left, s', rfl⟩ := tradeRecords_form h
  intro _
  cases s' with
  | bid => exact Or.inl rfl
  | ask => exact Or.inr (Or.inl rfl)

theorem Lob.Outcome.sided {ans : Answer} (hout : Lob.Outcome c gen a req ans) : ∀ r ∈ ans.recs, r.Sided := by
  have hidle : ∀ {r : OrderResponse} {t : ExecType}, r.execType = t → t ≠ .fill ∧ t ≠ .partialFill → r.Sided :=
    fun he ht htrade => Or.inr (Or.inr (idle_of_type he ht htrade))
  have hreplaced : ∀ o target newQty, (replaceRecord c req o target newQty).Sided :=
    fun _ _ _ => hidle (t := .replaced) rfl (by decide)
  cases hout with
  | rejected qRem code => exact List.forall_mem_singleton.mpr (hidle (t := .rejected) rfl (by decide))
  | entered => exact List.forall_mem_cons.mpr ⟨hidle (t := .new) rfl (by decide), fun _ => trade_sided⟩
  | cancelled _ _ => exact List.forall_mem_singleton.mpr (hidle (t := .cancelled) rfl (by decide))
  | kept => exact List.forall_mem_singleton.mpr (hreplaced _ _ _)
  | finished =>
    rw [List.forall_mem_cons, List.forall_mem_singleton]
    exact ⟨hreplaced _ _ _, fun _ => Or.inr (Or.inr rfl)⟩
  | requeued => exact List.forall_mem_cons.mpr ⟨hreplaced _ _ _, fun _ => trade_sided⟩
  | shrunk => exact List.forall_mem_singleton.mpr (hreplaced _ _ _)

theorem MatchingEngine.Run.sided {K : OrderRequest → Prop} {cfgs : List Config} {e : MatchingEngine}
    {out : List Emission} (h : Run K cfgs e out) : ∀ r ∈ out.map (·.resp), r.Sided := by
  induction h with
  | create gen => exact fun _ hr => absurd hr List.not_mem_nil
  | @step e e' out new req hrun _ hreq hpoll ih =>
    rw [List.map_append]
    refine List.forall_mem_append.mpr ⟨ih, ?_⟩
    cases hrun.sound.stepped hreq hpoll with
    | unserved => exact fun _ hr => absurd hr List.not_mem_nil
    | @served b b' gen new hsym hcfg hlob hnew =>
      rw [hnew]
      exact (Lob.step_outcome b.cfg e.gen b.lob req).sided

end Engine

/-- On a journal of the engine: if and only if the records that one of the readers had read at the
last answer, and the other had not, book nothing. -/
theorem engine_positions_converge_iff {l : ResponseLayout} {maxFileSize : Nat} {clientId : UInt32}
    {st : PositionSync} (h : st.Run l maxFileSize clientId) (hsmall : st.journal.rolled < 2 ^ 32)
    (hend : st.AtEnd) {K : OrderRequest → Prop} {cfgs : List Config} {e : MatchingEngine}
    {out : List Emission} (hengine : MatchingEngine.Run K cfgs e out)
    (hjournal : responses l st.journal.appended = out.map (·.resp)) {s : UInt32} {b p : Nat}
    (hans : st.answers s = some (b, p)) :
    st.account.getPosition s = st.db.getPosition clientId s ↔
      booked ((out.map (·.resp)).take b) clientId s = booked ((out.map (·.resp)).take p) clientId s := by
  have hsplit : ∀ n, booked (out.map (·.resp)) clientId s =
      booked ((out.map (·.resp)).take n) clientId s + booked ((out.map (·.resp)).drop n) clientId s := by
    intro n
    rw [← booked_append, List.take_append_drop]
  rw [positions_converge_iff h hsmall hend hans, hjournal,
    credited_eq_booked fun r hr => hengine.sided r (List.mem_of_mem_drop hr)]
  constructor
  · intro hdrop
    have hsum := (hsplit b).symm.trans (hsplit p)
    rw [hdrop] at hsum
    exact add_right_cancel hsum
  · intro htake
    have hsum := (hsplit b).symm.trans (hsplit p)
    rw [htake] at hsum
    exact add_left_cancel hsum

/-! ## A fill between the two readers -/

/-- Client 1 buys 5 of symbol 1 at 100. -/
def sampleFill : OrderResponse := tradeLayout.decode (sampleRecord 1)

namespace PositionSync

/-- What the writer does without the readers. -/
theorem Run.of_journal {maxFileSize : Nat} (clientId : UInt32) {sys : Sys} (hsys : Sys.Run maxFileSize sys) :
    Run tradeLayout maxFileSize clientId
      ⟨sys, .down, .empty, .down, [], .empty, [], [], fun _ => none⟩ := by
  induction hsys with
  | init => exact .init
  | step _ hstep ih => exact ih.step (.journal hstep)

/-- The database has booked the only record there is, and the gateway has still to read it. -/
theorem polled_fill {maxFileSize : Nat} {sys : Sys} (hsys : Sys.Run maxFileSize sys) (hrolled : sys.rolled = 0)
    (happended : sys.appended = List.replicate 1 (sampleRecord 1)) :
    ∃ r r' db, Run tradeLayout maxFileSize 1
        ⟨sys, .polling r, db, .polling (.create sys.dir), [], .empty, [sampleFill], [], fun _ => none⟩ ∧
      (MmapReader.create sys.dir).readNext sys.dir 3 = some (some (sampleRecord 1), r) ∧
      tradeLayout.cast sys.dir r (sampleRecord 1).length = sampleFill ∧
      r.readNext sys.dir 3 = some (none, r') := by
  have hat : At maxFileSize sys.dir [] (List.replicate 1 (sampleRecord 1)) (.create sys.dir)
      (List.replicate 0 (sampleRecord 1)) :=
    At.open (written_records hsys hrolled happended).published _ (Nat.zero_le _)
  obtain ⟨r, hres, hlast, hmapped, hoffset, -⟩ := next_record hsys hrolled happended Nat.one_pos hat
  obtain ⟨r', hnone⟩ := no_more_records hsys hrolled happended hlast
  have hlong : tradeLayout.size ≤ (sampleRecord 1).length := by decide
  have hcast : tradeLayout.cast sys.dir r (sampleRecord 1).length = sampleFill :=
    cast_eq hlast hmapped hoffset hlong
  have hrun := (((Run.of_journal 1 hsys).step (.startPolling rfl)).step (.read rfl hres)).step
    (.update rfl hlong)
  dsimp only [List.nil_append] at hrun
  rw [hcast] at hrun
  exact ⟨r, r', _, hrun.step (.startGateway rfl), hres, hcast, hnone⟩

/-- A reader that has nothing to read is at the end. -/
theorem AtEnd.of_polling {sys : Sys} {r r' : MmapReader} {fuel : Nat}
    (hnone : r.readNext sys.dir fuel = some (none, r')) {db : InMemoryClientDatabase} {account : ClientAccount}
    {applied passed : List OrderResponse} {answers : UInt32 → Option (Nat × Nat)} :
    AtEnd ⟨sys, .polling r, db, .polling r, [], account, applied, passed, answers⟩ :=
  ⟨⟨r, r', fuel, rfl, hnone⟩, ⟨r, r', fuel, rfl, hnone⟩, rfl⟩

end PositionSync

/-- The client asks for its position once both have read the fill. -/
theorem sample_positions_converge : ∃ st : PositionSync, st.Run tradeLayout 4096 1 ∧ st.AtEnd ∧
    st.answers 1 = some (1, 1) ∧ st.account.getPosition 1 = st.db.getPosition 1 1 := by
  obtain ⟨sys, hsys, -, hrolled, happended⟩ :=
    run_records (show 4096 < 2 ^ 63 by decide) 1 (by decide)
  obtain ⟨r, r', db, hrun, hres, hcast, hnone⟩ := PositionSync.polled_fill hsys hrolled happended
  have hlong : tradeLayout.size ≤ (sampleRecord 1).length := by decide
  have hpassed := (hrun.step (.readResponse rfl hres)).step (.pass rfl hlong)
  dsimp only [List.nil_append] at hpassed
  rw [hcast] at hpassed
  have hdone := ((hpassed.step (.answer rfl 1)).step (.deliver rfl)).step (.deliver rfl)
  have hans : Function.update (fun _ : UInt32 => (none : Option (Nat × Nat))) 1 (some (1, 1)) 1 = some (1, 1) :=
    Function.update_self ..
  refine ⟨_, hdone, .of_polling hnone, hans, ?_⟩
  refine (positions_converge_iff hdone ?_ (.of_polling hnone) hans).mpr ?_
  · dsimp only
    rw [hrolled]
    decide
  · dsimp only
    rw [happended]
    decide

/-- The database has booked the fill when it answers, and the gateway has not read it: the client
books it on top of the answer. -/
theorem fill_in_snapshot_and_delta : ∃ st : PositionSync, st.Run tradeLayout 4096 1 ∧ st.journal.rolled = 0 ∧
    st.AtEnd ∧ st.answers 1 = some (1, 0) ∧ st.account.getPosition 1 = 10 ∧ st.db.getPosition 1 1 = 5 := by
  obtain ⟨sys, hsys, -, hrolled, happended⟩ :=
    run_records (show 4096 < 2 ^ 63 by decide) 1 (by decide)
  obtain ⟨r, r', db, hrun, hres, hcast, hnone⟩ := PositionSync.polled_fill hsys hrolled happended
  have hlong : tradeLayout.size ≤ (sampleRecord 1).length := by decide
  have hpassed := ((hrun.step (.answer rfl 1)).step (.readResponse rfl hres)).step (.pass rfl hlong)
  dsimp only [List.nil_append, List.length_singleton, List.length_nil] at hpassed
  rw [hcast] at hpassed
  have hdone := (hpassed.step (.deliver rfl)).step (.deliver rfl)
  have hans : Function.update (fun _ : UInt32 => (none : Option (Nat × Nat))) 1 (some (1, 0)) 1 = some (1, 0) :=
    Function.update_self ..
  obtain ⟨hdb, haccount⟩ := hdone.settled (s := 1) (by dsimp only; rw [hrolled]; decide)
    (.of_polling hnone) hans
  dsimp only at hdb haccount
  rw [happended] at hdb haccount
  refine ⟨_, hdone, hrolled, .of_polling hnone, hans, ?_, ?_⟩
  · rw [haccount]
    decide
  · rw [hdb]
    decide

end Exchange
