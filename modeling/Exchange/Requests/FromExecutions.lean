import Exchange.Book.Replay
import Exchange.Engine.Runs
import Exchange.Requests.File

/-!
# `execution-to-request`

The program reads the journal of executions and writes the requests they came of, as a file: `New`,
`Replaced` and `Cancelled` make a line each, fills and rejections none. A line says `Limit` whatever the
order was, so that a market order comes back as something else. It leaves out a record without a side, which
the answer to a cancel can be. A run of well-formed limit orders comes back whole.

`executions_rerun`: the file of a run's journal, read by either reader and given to newly built books,
leads to the same books again (but for timestamps), and to the same records, without the rejections, under
other execution ids. Every acknowledgement says what the request settled on, and the records of the fresh
books depend on no more (`Answer.Renumbered`).
-/

namespace Exchange

open Lib

namespace ExecutionToRequest

/-- `action_str`. -/
def action : ExecType → Option OrderAction
  | .new => some .new
  | .replaced => some .modify
  | .cancelled => some .cancel
  | _ => none

/-- `fake_timestamp`, at the start. -/
def firstTimestamp : Nat := 1747238400000000000

/-- The line of a record, when `k` lines have been written; none for a record that makes none. -/
def row (k : Nat) (resp : OrderResponse) : Option (List (List Char)) :=
  (action resp.execType).bind fun act =>
    if resp.side = .buy ∨ resp.side = .sell then
      let price := if resp.execType = .cancelled then 0 else resp.p
      let quantity := if resp.execType = .cancelled then 0 else resp.q
      some (requestRow ((1 + k) % 2 ^ 64) resp.orderId.toNat resp.clientId.toNat (actionText act)
        (sideText resp.side) price quantity ((firstTimestamp + k) % 2 ^ 64) resp.symbolId.toNat)
    else none

/-- The loop of `main`. -/
def rows (k : Nat) : List OrderResponse → List (List (List Char))
  | [] => []
  | resp :: journal =>
    match row k resp with
    | none => rows k journal
    | some line => line :: rows (k + 1) journal

/-- What the program has written when it has read this much of the journal. -/
def output (journal : List OrderResponse) : List Char := writeCSV (requestHeader :: rows 0 journal)

/-! ## The requests of the lines -/

/-- The request a line stands for. -/
def request (k : Nat) (resp : OrderResponse) : Option OrderRequest :=
  (action resp.execType).bind fun act =>
    if resp.side = .buy ∨ resp.side = .sell then
      some
        { action := act
          execId := (1 + k) % 2 ^ 64
          orderId := resp.orderId
          clientId := resp.clientId
          symbolId := resp.symbolId
          side := resp.side
          type := .limit
          p := if resp.execType = .cancelled then 0 else resp.p
          q := if resp.execType = .cancelled then 0 else resp.q
          visibleQty := 0
          timestamp := (firstTimestamp + k) % 2 ^ 64 }
    else none

/-- The requests of a journal. -/
def requests (k : Nat) : List OrderResponse → List OrderRequest
  | [] => []
  | resp :: journal =>
    match request k resp with
    | none => requests k journal
    | some req => req :: requests (k + 1) journal

theorem row_eq (k : Nat) (resp : OrderResponse) : row k resp = (request k resp).map OrderRequest.row := by
  unfold row request
  cases action resp.execType with
  | none => rfl
  | some act =>
    dsimp only [Option.bind_some]
    split <;> rfl

theorem rows_eq (journal : List OrderResponse) (k : Nat) :
    rows k journal = (requests k journal).map OrderRequest.row := by
  induction journal generalizing k with
  | nil => rfl
  | cons resp journal ih =>
    unfold rows requests
    rw [row_eq]
    cases request k resp with
    | none => exact ih k
    | some req => exact congrArg (List.cons _) (ih (k + 1))

/-- The file is that of the requests. -/
theorem output_eq (journal : List OrderResponse) : output journal = writeRequests (requests 0 journal) := by
  unfold output writeRequests
  rw [rows_eq]

/-- Two stretches of a journal, counted on. -/
theorem requests_append (journal journal' : List OrderResponse) (k : Nat) :
    requests k (journal ++ journal') =
      requests k journal ++ requests (k + (requests k journal).length) journal' := by
  induction journal generalizing k with
  | nil => rfl
  | cons resp journal ih =>
    rw [List.cons_append, requests, requests]
    cases request k resp with
    | none => exact ih k
    | some req =>
      dsimp only
      rw [ih, List.cons_append, List.length_cons, Nat.add_assoc, Nat.add_comm 1]

/-- Records that make no line. -/
theorem requests_skip {journal : List OrderResponse} (h : ∀ r ∈ journal, action r.execType = none) (k : Nat) :
    requests k journal = [] := by
  induction journal with
  | nil => rfl
  | cons resp journal ih =>
    obtain ⟨hr, hrest⟩ := List.forall_mem_cons.mp h
    have hnone : request k resp = none := by
      unfold request
      rw [hr]
      rfl
    rw [requests, hnone]
    exact ih hrest

end ExecutionToRequest

/-! ## Answers that are alike -/

/-- A record without its execution id. -/
def OrderResponse.unnumbered (r : OrderResponse) : OrderResponse := { r with execId := 0 }

/-- The same book but for timestamps and symbols, and the same records but for their execution ids. -/
structure Answer.Renumbered (ans ans' : Answer) : Prop where
  lob : ans'.lob.strip = ans.lob.strip
  recs : ans'.recs.map OrderResponse.unnumbered = ans.recs.map OrderResponse.unnumbered

theorem tradeRecords_unnumbered (c : Config) (taker : Nat) (s : Slot) (fs : List Fill) (gen gen' : Nat → Nat) :
    (tradeRecords c taker s gen' fs).map OrderResponse.unnumbered =
      (tradeRecords c taker s gen fs).map OrderResponse.unnumbered := by
  induction fs generalizing gen gen' with
  | nil => rfl
  | cons f fs ih =>
    rw [tradeRecords, tradeRecords, List.map_cons, List.map_cons, List.map_cons, List.map_cons, ih]
    rfl

theorem Answer.Renumbered.after {ans ans' : Answer} (h : ans.Renumbered ans') {r r' : OrderResponse}
    (hr : r'.unnumbered = r.unnumbered) : (ans.after r).Renumbered (ans'.after r') :=
  ⟨h.lob, by rw [Answer.after_recs, Answer.after_recs, List.map_cons, List.map_cons, hr, h.recs]⟩

/-- Executing, on books that are the same but for the stripped fields. -/
theorem Lob.execute_renumbered {a a' : Lob} (h : a'.strip = a.strip) {t t' : Order} (ht : t'.strip = t.strip)
    (c : Config) (gen gen' : Nat → Nat) (s : Slot) (idx : Nat) :
    (a.execute c gen s t idx).Renumbered (a'.execute c gen' s t' idx) := by
  have hrecs : ∀ (a : Lob) (gen : Nat → Nat) (t : Order),
      (a.execute c gen s t idx).recs = (a.strip.execute c gen s t.strip idx).recs := fun a gen t =>
    (congrArg Answer.recs (Order.strip_blind.execute c gen a s t idx)).symm
  refine ⟨?_, ?_⟩
  · rw [Lob.execute_strip c gen' gen', Lob.execute_strip c gen gen', h, ht]
  · rw [hrecs a' gen' t', hrecs a gen t, h, ht]
    exact tradeRecords_unnumbered c _ s _ gen gen'

/-- A replacement that is not refused. -/
theorem Lob.replaceOrder_renumbered {a a' : Lob} (h : a'.strip = a.strip) {o o' : Order} (ho : o'.strip = o.strip)
    {req req' : OrderRequest} (hid : req'.combinedId = req.combinedId) (hside : req'.side = req.side)
    (c : Config) (gen gen' : Nat → Nat) (s : Slot) (target : Nat) {newQty : Nat}
    (hexec : ¬ newQty < o.executed) : (a.replaceOrder c gen s req o target newQty).Renumbered
      (a'.replaceOrder c gen' s req' o' target newQty) := by
  refine ⟨Lob.replaceOrder_strip h ho gen gen' s req req' target newQty, ?_⟩
  have hexec' : o'.executed = o.executed :=
    (Order.strip_blind.executed o').symm.trans ((congrArg Order.executed ho).trans (Order.strip_blind.executed o))
  have hlevel : o'.level = o.level := (congrArg Order.level ho : o'.strip.level = o.strip.level)
  have horig : o'.qtyOriginal = o.qtyOriginal :=
    (congrArg Order.qtyOriginal ho : o'.strip.qtyOriginal = o.strip.qtyOriginal)
  have hoid : o'.orderId = o.orderId := (congrArg Order.orderId ho : o'.strip.orderId = o.strip.orderId)
  have hrecord : (Lob.replaceRecord c req' o' target newQty).unnumbered =
      (Lob.replaceRecord c req o target newQty).unnumbered := by
    unfold Lob.replaceRecord
    rw [hid, hside, hexec']
    rfl
  have hfinish : (Lob.finishRecord c req' target).unnumbered = (Lob.finishRecord c req target).unnumbered := by
    unfold Lob.finishRecord
    rw [hid, hside]
    rfl
  unfold Lob.replaceOrder
  rw [hexec', hlevel, horig, hoid, if_neg hexec, if_neg hexec]
  split
  · exact congrArg (fun r => [r]) hrecord
  split
  · show [_, _] = [_, _]
    rw [hrecord, hfinish]
  split
  · have hremoved : (a'.remove o.orderId).strip = (a.remove o.orderId).strip := by
      rw [Lob.remove_strip, Lob.remove_strip, h]
    have hresized : (o'.resized newQty).strip = (o.resized newQty).strip := by
      rw [Order.strip_blind.resized, Order.strip_blind.resized, ho]
    exact ((Lob.execute_renumbered hremoved hresized c gen gen' s target).after hrecord).recs
  · exact congrArg (fun r => [r]) hrecord

/-! ## One request, written down and read again -/

/-- A new order is a limit order. -/
def LimitOrder (req : OrderRequest) : Prop := req.action = .new → req.type = .limit

/-- The requests a line stands for, on a book that reads the same: each is well formed, and answered alike. -/
def Reruns (c : Config) (a' : Lob) (ans : Answer) (ack : OrderResponse) : Prop :=
  ∀ k, ∃ req, ExecutionToRequest.request k ack = some req ∧ WellFormed c a' req ∧ req.symbolId = c.symbolId ∧
    req.q ≤ globalMaxQty ∧ ∀ gen, ans.Renumbered (a'.step c gen req)

/-- The line of a replacement asks for the level and the quantity the record settled on. -/
theorem reruns_replaced {c : Config} {a a' : Lob} (h : a'.strip = a.strip) {req : OrderRequest} {s : Slot}
    {o : Order} (hfind : a.find req.combinedId = some (s, o)) (hs : req.side = s.side)
    (ht : req.target c o < c.maxPriceLevels ∧ (c.plToPrice (req.target c o) = 0 → o.level = req.target c o))
    (hq : 1 ≤ req.newQty o) (hmax : req.newQty o ≤ globalMaxQty) (hexec : ¬ req.newQty o < o.executed)
    (gen : Nat → Nat) {ans : Answer} (hans : ans = a.replaceOrder c gen s req o (req.target c o) (req.newQty o)) :
    Reruns c a' ans (Lob.replaceRecord c req o (req.target c o) (req.newQty o)) := by
  intro k
  obtain ⟨o', hfind', ho'⟩ := Lob.find_strip h hfind
  have hlevel : o'.level = o.level := (congrArg Order.level ho' : o'.strip.level = o.strip.level)
  have hside : req.side = .buy ∨ req.side = .sell := by
    rw [hs]
    cases s with
    | bid => exact Or.inl rfl
    | ask => exact Or.inr rfl
  obtain ⟨req', hreq', hact, hid, hside', hsym, hp, hqty⟩ : ∃ req',
      ExecutionToRequest.request k (Lob.replaceRecord c req o (req.target c o) (req.newQty o)) = some req' ∧
        req'.action = .modify ∧ req'.combinedId = req.combinedId ∧ req'.side = req.side ∧
        req'.symbolId = c.symbolId ∧ req'.p = c.plToPrice (req.target c o) ∧ req'.q = req.newQty o :=
    ⟨_, if_pos hside, rfl, combinedOrderId_parts req.combinedId_lt, rfl, rfl, rfl, rfl⟩
  refine ⟨req', hreq', ⟨⟨s, hside'.trans hs⟩, fun _ s' x hx => ?_, fun e => ?_, fun _ => ⟨_, ht.1, hp⟩⟩, hsym,
    hqty.le.trans hmax, fun gen' => ?_⟩
  · rw [hid, hfind'] at hx
    cases hx
    exact hside'.trans hs
  · rw [hact] at e
    cases e
  · have hzero : req'.p = 0 → o'.level = req.target c o := by
      rw [hp, hlevel]
      exact ht.2
    have hstep := Lob.step_modify hact (hid.symm ▸ hfind') ht.1 hp hzero (by omega) (by omega) gen'
    rw [hstep, hans, hqty]
    exact Lob.replaceOrder_renumbered h ho' hid hside' c gen gen' s _ hexec

theorem Slot.side_cases (s : Slot) : s.side = .buy ∨ s.side = .sell := by
  cases s with
  | bid => exact Or.inl rfl
  | ask => exact Or.inr rfl

/-- The line of a new limit order. -/
theorem reruns_new {c : Config} {a a' : Lob} (h : a'.strip = a.strip) {req : OrderRequest}
    (hreq : WellFormed c a req) (hlimit : req.type = .limit)
    (hnone : a.find req.combinedId = none) (hvalid : req.type ≠ .market → c.priceInvalid req.p = 0)
    (hp : ¬ (req.p ≤ 0 ∧ req.type = .limit)) (hq : 1 ≤ req.q) (hmax : req.q ≤ globalMaxQty) (gen : Nat → Nat) :
    Reruns c a' ((a.execute c gen req.slot (State.createOrder req) (State.newIndex c req)).after
      (Lob.newRecord c req)) (Lob.newRecord c req) := by
  intro k
  obtain ⟨s, hs⟩ := hreq.side
  have hside : req.side = .buy ∨ req.side = .sell := hs ▸ s.side_cases
  obtain ⟨req', hreq', hact', hid, hside', hsym, hp', hq', htype⟩ : ∃ req',
      ExecutionToRequest.request k (Lob.newRecord c req) = some req' ∧ req'.action = .new ∧
        req'.combinedId = req.combinedId ∧ req'.side = req.side ∧ req'.symbolId = c.symbolId ∧
        req'.p = req.p ∧ req'.q = req.q ∧ req'.type = .limit :=
    ⟨_, if_pos hside, rfl, combinedOrderId_parts req.combinedId_lt, rfl, rfl, rfl, rfl, rfl⟩
  -- the record says all that the order and its level depend on
  have hcreate : (State.createOrder req').strip = (State.createOrder req).strip := by
    unfold State.createOrder Order.strip
    rw [hid, hq', htype, hlimit]
  have hindex : State.newIndex c req' = State.newIndex c req := by
    unfold State.newIndex
    rw [htype, hside', hp', hlimit]
  have hslot : req'.slot = req.slot := by
    unfold OrderRequest.slot
    rw [hside']
  have hrecord : (Lob.newRecord c req').unnumbered = (Lob.newRecord c req).unnumbered := by
    unfold Lob.newRecord
    rw [hid, hside', hp', hq']
    rfl
  refine ⟨req', hreq', ⟨⟨s, hside'.trans hs⟩, fun e => ?_, fun _ => Or.inl htype, fun hne => ?_⟩, hsym,
    hq'.le.trans hmax, fun gen' => ?_⟩
  · rw [hact'] at e
    exact absurd e (by decide)
  · rw [hp'] at hne ⊢
    exact hreq.price hne
  -- so the fresh book takes the same branches
  · have hstep : a'.step c gen' req' = (a'.execute c gen' req.slot (State.createOrder req')
        (State.newIndex c req)).after (Lob.newRecord c req') := by
      have hvalid' := hvalid (by rw [hlimit]; decide)
      unfold Lob.step
      rw [hact']
      dsimp only
      rw [if_neg (fun hv => hv.2 (by rw [hp']; exact hvalid'))]
      unfold Lob.newOrder
      rw [hid, Lob.find_none_strip h hnone, if_neg (by simp), hp', htype.trans hlimit.symm, if_neg hp, hq',
        if_neg (by omega), hslot, hindex]
    rw [hstep]
    exact (Lob.execute_renumbered h hcreate c gen gen' _ _).after hrecord

/-- The line of a cancel names no price and no quantity. -/
theorem reruns_cancelled {c : Config} {a a' : Lob} (h : a'.strip = a.strip) {req : OrderRequest}
    (hact : req.action = .cancel) (hreq : WellFormed c a req) {s : Slot} {o : Order}
    (hfind : a.find req.combinedId = some (s, o)) (gen : Nat → Nat) :
    Reruns c a' ⟨a.remove o.orderId, gen, [Lob.cancelRecord c req o]⟩ (Lob.cancelRecord c req o) := by
  intro k
  obtain ⟨-, hoid⟩ := Lob.mem_of_find hfind
  obtain ⟨o', hfind', ho'⟩ := Lob.find_strip h hfind
  have hs := hreq.named (Or.inl hact) s o hfind
  have hside : req.side = .buy ∨ req.side = .sell := hs ▸ s.side_cases
  obtain ⟨req', hreq', hact', hid, hside', hsym, hp', hq'⟩ : ∃ req',
      ExecutionToRequest.request k (Lob.cancelRecord c req o) = some req' ∧ req'.action = .cancel ∧
        req'.combinedId = req.combinedId ∧ req'.side = req.side ∧ req'.symbolId = c.symbolId ∧
        req'.p = 0 ∧ req'.q = 0 := by
    refine ⟨_, if_pos hside, rfl, ?_, rfl, rfl, rfl, rfl⟩
    rw [← hoid]
    exact combinedOrderId_parts (by rw [hoid]; exact req.combinedId_lt)
  have hstep : ∀ gen', a'.step c gen' req' = ⟨a'.remove o'.orderId, gen', [Lob.cancelRecord c req' o']⟩ := by
    intro gen'
    unfold Lob.step
    rw [hact']
    unfold Lob.cancelOrder
    rw [hid, hfind']
  have hid' : o'.orderId = o.orderId := (congrArg Order.orderId ho' : o'.strip.orderId = o.strip.orderId)
  refine ⟨req', hreq', ⟨⟨s, hside'.trans hs⟩, fun _ s' x hx => ?_, fun e => ?_, fun hne => absurd hp' hne⟩, hsym,
    by rw [hq']; exact Nat.zero_le _, fun gen' => ⟨?_, ?_⟩⟩
  · rw [hid, hfind'] at hx
    cases hx
    exact hside'.trans hs
  · rw [hact'] at e
    cases e
  · rw [hstep, Lob.remove_strip, Lob.remove_strip, h, hid']
  · have hlevel : o'.level = o.level := (congrArg Order.level ho' : o'.strip.level = o.strip.level)
    have horig : o'.qtyOriginal = o.qtyOriginal :=
      (congrArg Order.qtyOriginal ho' : o'.strip.qtyOriginal = o.strip.qtyOriginal)
    rw [hstep]
    unfold Lob.cancelRecord
    rw [hside', hid', hlevel, horig]
    rfl

/-- The first record of a request is a rejection, and nothing has happened, or its line asks for the same
again. The records of trades make no lines. -/
theorem Lob.Outcome.reruns {c : Config} {a a' : Lob} (hok : a.Ok c) (h : a'.strip = a.strip)
    {req : OrderRequest} (hK : LimitOrder req) (hreq : WellFormed c a req) {gen : Nat → Nat} {ans : Answer}
    (hout : Outcome c gen a req ans) : ∃ ack rest, ans.recs = ack :: rest ∧ (∀ r ∈ rest, r.isTrade = true) ∧
      ((ack.execType = .rejected ∧ rest = [] ∧ ans.lob = a) ∨
        (ack.execType ≠ .rejected ∧ Reruns c a' ans ack)) := by
  have htarget : ∀ {s o}, a.find req.combinedId = some (s, o) → req.target c o < c.maxPriceLevels ∧
      (c.plToPrice (req.target c o) = 0 → o.level = req.target c o) := by
    intro s o hfind
    unfold OrderRequest.target
    split
    · rename_i hp
      obtain ⟨i, hi, he⟩ := hreq.price hp
      rw [he, c.priceToIndex_plToPrice hi]
      exact ⟨hi, fun hzero => absurd (he.trans hzero) hp⟩
    · exact ⟨(hok.level (mem_of_find hfind).1).2, fun _ => rfl⟩
  have hqty : ∀ {s o}, a.find req.combinedId = some (s, o) → req.q ≤ globalMaxQty →
      1 ≤ req.newQty o ∧ req.newQty o ≤ globalMaxQty := by
    intro s o hfind hq
    have hsane := hok.sane (mem_of_find hfind).1
    unfold OrderRequest.newQty
    split
    · omega
    · exact ⟨hsane.pos.trans hsane.le, hsane.max⟩
  -- the four ways a replacement can end have one first record
  have hreplaced : ∀ {s o}, req.action = .modify → a.find req.combinedId = some (s, o) → req.q ≤ globalMaxQty →
      ¬ req.newQty o < o.executed →
        ∀ ans', ans' = a.replaceOrder c gen s req o (req.target c o) (req.newQty o) →
          Reruns c a' ans' (replaceRecord c req o (req.target c o) (req.newQty o)) := by
    intro s o hact hfind hq hexec ans' hans
    exact reruns_replaced h hfind (hreq.named (Or.inr hact) s o hfind) (htarget hfind) (hqty hfind hq).1
      (hqty hfind hq).2 hexec gen hans
  cases hout with
  | rejected qRem code => exact ⟨_, _, rfl, fun r hr => absurd hr List.not_mem_nil, Or.inl ⟨rfl, rfl, rfl⟩⟩
  | entered hact hnone hvalid hp hq hmax =>
    refine ⟨_, _, rfl, fun r hr => ?_, Or.inr ⟨ExecType.noConfusion,
      reruns_new h hreq (hK hact) hnone hvalid hp hq hmax gen⟩⟩
    exact isTrade_iff.mpr (tradeRecords_execType hr)
  | @cancelled s o hact hfind =>
    exact ⟨_, _, rfl, fun r hr => absurd hr List.not_mem_nil,
      Or.inr ⟨ExecType.noConfusion, reruns_cancelled h hact hreq hfind gen⟩⟩
  | @kept s o hact hfind hq hvalid hexec hlevel hqty' =>
    refine ⟨_, _, rfl, fun r hr => absurd hr List.not_mem_nil, Or.inr ⟨ExecType.noConfusion,
      hreplaced hact hfind hq (Nat.not_lt.mpr hexec) _ ?_⟩⟩
    rw [replaceOrder, if_neg (Nat.not_lt.mpr hexec), if_pos ⟨hlevel, hqty'⟩]
  | @finished s o hact hfind hq hvalid hexec hmove =>
    refine ⟨_, _, rfl, fun r hr => ?_, Or.inr ⟨ExecType.noConfusion, hreplaced hact hfind hq (by omega) _ ?_⟩⟩
    · rw [List.mem_singleton.mp hr]
      exact isTrade_iff.mpr (Or.inl rfl)
    · rw [replaceOrder, if_neg (by omega), if_neg hmove, if_pos (by omega)]
  | @requeued s o hact hfind hq hvalid hexec hmove =>
    refine ⟨_, _, rfl, fun r hr => isTrade_iff.mpr (tradeRecords_execType hr), Or.inr ⟨ExecType.noConfusion,
      hreplaced hact hfind hq (by omega) _ ?_⟩⟩
    rw [replaceOrder, if_neg (by omega), if_neg ?_, if_neg (by omega), if_pos hmove]
    intro hkeep
    rcases hmove with hl | hlt
    · exact hl hkeep.1
    · omega
  | @shrunk s o hact hfind hq hvalid hexec hlevel hlt =>
    refine ⟨_, _, rfl, fun r hr => absurd hr List.not_mem_nil, Or.inr ⟨ExecType.noConfusion,
      hreplaced hact hfind hq (by omega) _ ?_⟩⟩
    rw [replaceOrder, if_neg (by omega), if_neg (fun hkeep => by omega), if_neg (by omega),
      if_neg (fun hmove => hmove.elim (fun hl => hl hlevel) (by omega))]

/-! ## A run, written down and read again -/

namespace MatchingEngine

/-- `poll_server` on one request after the other. -/
def pollAll (e : MatchingEngine) : List OrderRequest → Option (MatchingEngine × List Emission)
  | [] => some (e, [])
  | req :: reqs => do
    let (e, new) ← e.pollServer req
    let (e, more) ← e.pollAll reqs
    some (e, new ++ more)

/-- Polling two lists of requests. -/
theorem pollAll_append {e e₁ e₂ : MatchingEngine} {reqs reqs' : List OrderRequest} {out out' : List Emission}
    (h : e.pollAll reqs = some (e₁, out)) (h' : e₁.pollAll reqs' = some (e₂, out')) :
    e.pollAll (reqs ++ reqs') = some (e₂, out ++ out') := by
  induction reqs generalizing e out with
  | nil =>
    obtain ⟨rfl, rfl⟩ := Prod.mk.inj (Option.some.inj h)
    exact h'
  | cons req reqs ih =>
    obtain ⟨⟨e₃, new⟩, hpoll, hrest⟩ := Option.bind_eq_some_iff.mp h
    obtain ⟨⟨e₄, more⟩, hmore, hend⟩ := Option.bind_eq_some_iff.mp hrest
    obtain ⟨rfl, rfl⟩ := Prod.mk.inj (Option.some.inj hend)
    refine Option.bind_eq_some_iff.mpr ⟨_, hpoll, Option.bind_eq_some_iff.mpr ⟨_, ih hmore, ?_⟩⟩
    rw [List.append_assoc]

/-- The books of two engines read the same. -/
def SameBooks (e e' : MatchingEngine) : Prop :=
  ∀ sid, (e.books.lookup sid = none ∧ e'.books.lookup sid = none) ∨
    ∃ b b', e.books.lookup sid = some b ∧ e'.books.lookup sid = some b' ∧ b'.cfg = b.cfg ∧
      b'.lob.strip = b.lob.strip

/-- The record of a rejection, which the file leaves out. -/
def accepted (out : List Emission) : List OrderResponse :=
  (out.map (·.resp)).filter (·.execType ≠ .rejected)

/-- The books stay the same when both engines put theirs back. -/
theorem SameBooks.insert {e e' : MatchingEngine} (h : e.SameBooks e') {sid : UInt32} {b b' : OrderBook}
    (hcfg : b'.cfg = b.cfg) (hlob : b'.lob.strip = b.lob.strip) (gen gen' : Nat → Nat) :
    SameBooks ⟨e.books.insert sid b, gen⟩ ⟨e'.books.insert sid b', gen'⟩ := by
  intro k
  by_cases hk : k = sid
  · subst hk
    exact Or.inr ⟨b, b', AList.lookup_insert _, AList.lookup_insert _, hcfg, hlob⟩
  · dsimp only
    rw [AList.lookup_insert_ne hk, AList.lookup_insert_ne hk]
    exact h k

/-- One request of the run, and the line it makes. -/
theorem stepped_rerun {cfgs : List Config} {e e₁ e' : MatchingEngine} {req : OrderRequest} {new : List Emission}
    (hsound : e.Sound cfgs) (hsound' : e'.Sound cfgs) (hsame : e.SameBooks e') (hK : LimitOrder req)
    (hreq : e.Accepts req) (hstep : Stepped e req e₁ new) (k : Nat) :
    ∃ e₁' new', e'.pollAll (ExecutionToRequest.requests k (new.map (·.resp))) = some (e₁', new') ∧
      e₁'.Sound cfgs ∧ e₁.SameBooks e₁' ∧ (new'.map (·.resp)).map OrderResponse.unnumbered =
        (accepted new).map OrderResponse.unnumbered ∧
      ∀ r ∈ ExecutionToRequest.requests k (new.map (·.resp)), r.q ≤ globalMaxQty ∧
        ∃ c ∈ cfgs, r.symbolId = c.symbolId ∧ (r.p ≠ 0 → c.OnGrid r.p) := by
  cases hstep with
  | unserved hsym => exact ⟨e', [], rfl, hsound', hsame, rfl, fun r hr => absurd hr List.not_mem_nil⟩
  | @served b b₁ gen _ hsym hcfg hlob hnew =>
    rcases hsame req.symbolId with ⟨hnone, -⟩ | ⟨b₀, b', hb₀, hb', hcfg', hstrip⟩
    · rw [hsym] at hnone
      cases hnone
    obtain rfl := Option.some.inj (hsym.symm.trans hb₀)
    obtain ⟨ack, rest, hrecs, htrades, hack⟩ := (Lob.step_outcome b.cfg e.gen b.lob req).reruns
      (hsound.ok hsym) hstrip hK (hreq b hsym)
    have hnone : ∀ r ∈ rest, ExecutionToRequest.action r.execType = none := by
      intro r hr
      rcases isTrade_iff.mp (htrades r hr) with he | he <;> rw [he] <;> rfl
    have hkept : rest.filter (·.execType ≠ .rejected) = rest := by
      refine List.filter_eq_self.mpr fun r hr => ?_
      rcases isTrade_iff.mp (htrades r hr) with he | he <;> rw [he] <;> rfl
    unfold accepted
    rw [hnew, hrecs, ExecutionToRequest.requests]
    rcases hack with ⟨hrejected, rfl, hidle⟩ | ⟨haccepted, hreruns⟩
    · -- a rejection makes no line, and has left the book as it was
      have hskip : ExecutionToRequest.request k ack = none := by
        unfold ExecutionToRequest.request
        rw [hrejected]
        rfl
      rw [hskip]
      refine ⟨e', [], rfl, hsound', fun sid => ?_, ?_, fun r hr => absurd hr List.not_mem_nil⟩
      · by_cases hs : sid = req.symbolId
        · subst hs
          refine Or.inr ⟨b₁, b', AList.lookup_insert _, hb', hcfg'.trans hcfg.symm, ?_⟩
          rw [hlob, hidle, hstrip]
        · rcases hsame sid with ⟨hn, hn'⟩ | ⟨x, x', hx, hx', hrest⟩
          · exact Or.inl ⟨(AList.lookup_insert_ne hs).trans hn, hn'⟩
          · exact Or.inr ⟨x, x', (AList.lookup_insert_ne hs).trans hx, hx', hrest⟩
      · rw [List.filter_cons_of_neg (by simpa using hrejected)]
        rfl
    · obtain ⟨req', hline, hwf, hsid, hmax, halike⟩ := hreruns k
      obtain ⟨hmem, hsymbol⟩ := hsound.cfg hsym
      have hsym' : e'.books.lookup req'.symbolId = some b' := by
        rw [hsid, hsymbol]
        exact hb'
      obtain ⟨e₁', new', hpoll, hstep', hsound₁⟩ := hsound'.serves
        (fun x (hx : e'.books.lookup req'.symbolId = some x) => by
        obtain rfl := Option.some.inj (hx.symm.trans hsym')
        exact hcfg' ▸ hwf)
      have hrenumbered : (b.lob.step b.cfg e.gen req).Renumbered (b'.lob.step b'.cfg e'.gen req') := by
        rw [hcfg']
        exact halike e'.gen
      rw [hline]
      dsimp only
      rw [ExecutionToRequest.requests_skip hnone]
      refine ⟨e₁', new', ?_, hsound₁, ?_, ?_, fun r hr => ?_⟩
      · refine Option.bind_eq_some_iff.mpr ⟨_, hpoll, ?_⟩
        show some (e₁', new' ++ []) = _
        rw [List.append_nil]
      · cases hstep' with
        | unserved hn =>
          rw [hsym'] at hn
          cases hn
        | @served x x₁ gen' _ hx hcfg₁ hlob₁ hnew₁ =>
          obtain rfl := Option.some.inj (hx.symm.trans hsym')
          have hsids : req'.symbolId = req.symbolId := hsid.trans hsymbol
          rw [hsids]
          refine hsame.insert (hcfg₁.trans (hcfg'.trans hcfg.symm)) ?_ _ _
          rw [hlob₁, hlob]
          exact hrenumbered.lob
      · cases hstep' with
        | unserved hn =>
          rw [hsym'] at hn
          cases hn
        | @served x x₁ gen' _ hx hcfg₁ hlob₁ hnew₁ =>
          obtain rfl := Option.some.inj (hx.symm.trans hsym')
          rw [hnew₁, hrenumbered.recs, hrecs, List.filter_cons_of_pos (by simpa using haccepted), hkept]
      · rw [List.mem_singleton.mp hr]
        exact ⟨hmax, b.cfg, hmem, hsid, hwf.price⟩

/-- At the start both have fresh books. -/
theorem create_sameBooks (cfgs : List Config) (gen gen' : Nat → Nat) :
    (create cfgs gen).SameBooks (create cfgs gen') := by
  intro sid
  have hbooks : (create cfgs gen').books = (create cfgs gen).books := rfl
  rw [hbooks]
  cases h : (create cfgs gen).books.lookup sid with
  | none => exact Or.inl ⟨rfl, rfl⟩
  | some b => exact Or.inr ⟨b, b, rfl, rfl, rfl, rfl⟩

/-- The lines of a run's records lead newly built books to the same books, and to the same records. -/
theorem Run.rerun {cfgs : List Config} {e : MatchingEngine} {out : List Emission}
    (h : Run LimitOrder cfgs e out) (gen : Nat → Nat) :
    ∃ e' out',
      (MatchingEngine.create cfgs gen).pollAll (ExecutionToRequest.requests 0 (out.map (·.resp))) = some (e', out') ∧
      e'.Sound cfgs ∧ e.SameBooks e' ∧
      (out'.map (·.resp)).map OrderResponse.unnumbered = (accepted out).map OrderResponse.unnumbered ∧
      ∀ r ∈ ExecutionToRequest.requests 0 (out.map (·.resp)), r.q ≤ globalMaxQty ∧
        ∃ c ∈ cfgs, r.symbolId = c.symbolId ∧ (r.p ≠ 0 → c.OnGrid r.p) := by
  induction h with
  | create gen₀ =>
    exact ⟨MatchingEngine.create cfgs gen, [], rfl, create_sound cfgs gen, create_sameBooks cfgs gen₀ gen, rfl,
      fun r hr => absurd hr List.not_mem_nil⟩
  | @step e e₁ out new req hrun hK hreq hpoll ih =>
    obtain ⟨e', out', hpolled, hsound', hsame, hrecs, hlines⟩ := ih
    obtain ⟨e₁', new', hpolled', hsound₁, hsame₁, hrecs', hlines'⟩ := stepped_rerun hrun.sound hsound' hsame hK
      hreq (hrun.sound.stepped hreq hpoll) (0 + (ExecutionToRequest.requests 0 (out.map (·.resp))).length)
    rw [List.map_append, ExecutionToRequest.requests_append]
    refine ⟨e₁', out' ++ new', pollAll_append hpolled hpolled', hsound₁, hsame₁, ?_, fun r hr => ?_⟩
    · unfold accepted at hrecs hrecs' ⊢
      rw [List.map_append, List.map_append, hrecs, hrecs', List.map_append, List.filter_append, List.map_append]
    · exact (List.mem_append.mp hr).elim (hlines r) (hlines' r)

end MatchingEngine

namespace ExecutionToRequest

/-- Every price of a book is a word of the machine. -/
def Words (c : Config) : Prop := ∀ i < c.maxPriceLevels, -2 ^ 63 ≤ c.plToPrice i ∧ c.plToPrice i < 2 ^ 63

/-- The requests of the lines can be written. -/
theorem written {cfgs : List Config} (hwords : ∀ c ∈ cfgs, Words c) {journal : List OrderResponse} {k : Nat}
    (h : ∀ r ∈ requests k journal, r.q ≤ globalMaxQty ∧
      ∃ c ∈ cfgs, r.symbolId = c.symbolId ∧ (r.p ≠ 0 → c.OnGrid r.p)) :
    ∀ r ∈ requests k journal, r.Written := by
  induction journal generalizing k with
  | nil => exact fun r hr => absurd hr List.not_mem_nil
  | cons resp journal ih =>
    rw [requests] at h ⊢
    cases hline : request k resp with
    | none =>
      rw [hline] at h
      exact ih h
    | some req =>
      rw [hline] at h
      obtain ⟨⟨hq, c, hc, -, hp⟩, hrest⟩ := List.forall_mem_cons.mp h
      refine List.forall_mem_cons.mpr ⟨?_, ih hrest⟩
      have hprice : -2 ^ 63 ≤ req.p ∧ req.p < 2 ^ 63 := by
        by_cases hzero : req.p = 0
        · rw [hzero]
          decide
        · obtain ⟨i, hi, he⟩ := hp hzero
          rw [he]
          exact hwords c hc i hi
      unfold request at hline
      obtain ⟨act, hact, hsided⟩ := Option.bind_eq_some_iff.mp hline
      split at hsided
      · rename_i hside
        obtain rfl := Option.some.inj hsided
        refine ⟨?_, hside, rfl, rfl, Nat.mod_lt _ (by decide), hprice, Nat.lt_of_le_of_lt hq (by decide),
          Nat.mod_lt _ (by decide)⟩
        revert hact
        cases resp.execType with
        | new => exact fun hact => Or.inl (Option.some.inj hact).symm
        | replaced => exact fun hact => Or.inr (Or.inl (Option.some.inj hact).symm)
        | cancelled => exact fun hact => Or.inr (Or.inr (Option.some.inj hact).symm)
        | partialFill | fill | rejected | orderStatus | complete => exact fun hact => absurd hact nofun
      · cases hsided

open MatchingEngine in
/-- The file of the journal of any run of well-formed limit orders, read by either reader and given to newly
built books, makes the same books again, and the same records but for the rejections and the execution ids. The
side has to be the one of the order a request names: a cancel without one is done, and makes no line. -/
theorem executions_rerun {cfgs : List Config} (hwords : ∀ c ∈ cfgs, Words c) {e : MatchingEngine}
    {out : List Emission} (h : Run LimitOrder cfgs e out) (hasRing : UInt32 → Bool)
    (hrings : ∀ c ∈ cfgs, hasRing c.symbolId = true) (gen : Nat → Nat) :
    CSVInserter.insert hasRing (output (out.map (·.resp))) =
        CSVDataReader.loadFromCSV (output (out.map (·.resp))) ∧
      ∃ e' out', (create cfgs gen).pollAll (CSVDataReader.loadFromCSV (output (out.map (·.resp)))) =
          some (e', out') ∧
        (∀ sid b, e.books.lookup sid = some b → ∃ b', e'.books.lookup sid = some b' ∧ SameBook b b') ∧
        (out'.map (·.resp)).map OrderResponse.unnumbered =
          ((out.map (·.resp)).filter (·.execType ≠ .rejected)).map OrderResponse.unnumbered := by
  obtain ⟨e', out', hpoll, hsound', hsame, hrecs, hlines⟩ := h.rerun gen
  have hwritten := written hwords hlines
  rw [output_eq, CSVDataReader.loadFromCSV_written hwritten, CSVInserter.insert_written hwritten]
  refine ⟨List.filter_eq_self.mpr fun r hr => ?_, e', out', hpoll, fun sid b hb => ?_, hrecs⟩
  · obtain ⟨-, c, hc, hsid, -⟩ := hlines r hr
    rw [hsid]
    exact hrings c hc
  · rcases hsame sid with ⟨hnone, -⟩ | ⟨b₀, b', hb₀, hb', hcfg, hlob⟩
    · rw [hb] at hnone
      cases hnone
    obtain rfl := Option.some.inj (hb.symm.trans hb₀)
    obtain ⟨q, hq⟩ := h.sound.inv hb
    obtain ⟨q', hq'⟩ := hsound'.inv hb'
    exact ⟨b', hb', hq.sameBook hq' hcfg hlob⟩

open MatchingEngine in
/-- The sample run, with a request that is rejected: ten records, and a line for five of them. -/
theorem sample_rerun : ∃ e out, Run LimitOrder [sampleConfig] e out ∧ out.length = 10 ∧
    (requests 0 (out.map (·.resp))).length = 5 ∧
    ∃ e' out', (create [sampleConfig] id).pollAll (CSVDataReader.loadFromCSV (output (out.map (·.resp)))) =
        some (e', out') ∧
      (out'.map (·.resp)).map OrderResponse.unnumbered =
        ((out.map (·.resp)).filter (·.execType ≠ .rejected)).map OrderResponse.unnumbered := by
  obtain ⟨e, out, h, hlen⟩ := Run.of_serve LimitOrder [sampleConfig] id
    (sampleRequests ++ [sampleRequest .cancel 9 .sell 20 0]) (by unfold LimitOrder; decide)
    (fun x => x.2.length = 10 ∧ (requests 0 (x.2.map (·.resp))).length = 5) (by decide +kernel)
  obtain ⟨hten, hfive⟩ := of_decide_eq_true hlen
  obtain ⟨-, e', out', hpoll, -, hrecs⟩ := executions_rerun (by unfold Words; decide) h (fun _ => true)
    (fun _ _ => rfl) id
  exact ⟨e, out, h, hten, hfive, e', out', hpoll, hrecs⟩

end ExecutionToRequest

end Exchange
