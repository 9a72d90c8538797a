import Exchange.Book.Taking
import Exchange.Database.Model

/-!
# The store's open orders are the engine's

The store sees a flat stream of records. A `OpenLedger` says what it should hold,
by combined id: an acknowledgement writes a row, a partial fill lowers one, a
fill or a cancel deletes one (`OpenLedger.record`). `shows_update` connects this to
`update_on_execution`.

On the other side `Lob.ledger` is what the engine's book calls for. During an
execution the taker is in the ledger before it is in the book, so that
`ledger_execute` carries the taker's row along beside the book's.
-/

namespace Exchange

/-- The fields of an open order that the engine decides. -/
structure OpenOrder where
  side : Side
  p : Int
  q : Nat
  qRem : Nat
  deriving DecidableEq, Repr

/-- The row a record writes. -/
def OrderResponse.opened (r : OrderResponse) : OpenOrder := ⟨r.side, r.p, r.q, r.qRem⟩

/-- The row of a resting order. -/
def Order.opened (c : Config) (s : Slot) (o : Order) : OpenOrder :=
  ⟨s.side, c.plToPrice o.level, o.qtyOriginal, o.qtyRemaining⟩

/-- Open orders by combined id. -/
abbrev OpenLedger := Nat → Option OpenOrder

/-- What a record does to the open orders. -/
def OpenLedger.record (x : OpenLedger) (r : OrderResponse) : OpenLedger :=
  match r.execType with
  | .new | .replaced => Function.update x r.combinedId (some r.opened)
  | .partialFill =>
    Function.update x r.combinedId ((x r.combinedId).map fun o => { o with qRem := r.qRem })
  | .fill | .cancelled => Function.update x r.combinedId none
  | _ => x

/-- The rows a book calls for. -/
def Lob.ledger (c : Config) (a : Lob) : OpenLedger := fun id =>
  (a.find id).map fun so => so.2.opened c so.1

/-- A record is about one row. -/
theorem OpenLedger.record_other {x : OpenLedger} {r : OrderResponse} {k : Nat} (h : k ≠ r.combinedId) :
    x.record r k = x k := by
  unfold record
  cases r.execType <;> first | rfl | exact Function.update_of_ne h _ _

/-- What a record does to a row depends on this row. -/
theorem OpenLedger.record_congr {x y : OpenLedger} {k : Nat} (h : x k = y k) (r : OrderResponse) :
    x.record r k = y.record r k := by
  by_cases hk : k = r.combinedId
  · subst hk
    unfold record
    cases r.execType with
    | rejected | orderStatus | complete => exact h
    | partialFill =>
      dsimp only
      rw [Function.update_self, Function.update_self, h]
    | new | replaced | fill | cancelled =>
      dsimp only
      rw [Function.update_self, Function.update_self]
  · rw [record_other hk, record_other hk, h]

/-- A row depends on its own past only. -/
theorem OpenLedger.foldl_congr {k : Nat} (rs : List OrderResponse) : ∀ {x y : OpenLedger}, x k = y k →
    rs.foldl record x k = rs.foldl record y k := by
  induction rs with
  | nil => exact fun h => h
  | cons r rs ih => exact fun h => ih (record_congr h r)

/-! ## The store keeps a ledger -/

namespace InMemoryClientDatabase

/-- The store holds these open orders and no others. -/
def Shows (db : InMemoryClientDatabase) (x : OpenLedger) : Prop :=
  ∀ clientId orderId, (db.openOrder clientId orderId).map OrderResponse.opened =
    x (combinedOrderId clientId orderId)

/-- One row written, lowered or deleted; `row` is what becomes of it. -/
theorem Shows.write {db : InMemoryClientDatabase} {x : OpenLedger} (h : db.Shows x) {r : OrderResponse}
    {orders : AList fun _ : UInt32 => OrderResponse} {row : Option OpenOrder}
    (hself : (orders.lookup r.orderId).map OrderResponse.opened = row)
    (hother : ∀ o, o ≠ r.orderId →
      orders.lookup o = ((db.openOrders.lookup r.clientId).getD ∅).lookup o) :
    Shows { db with openOrders := db.openOrders.insert r.clientId orders }
      (Function.update x r.combinedId row) := by
  intro clientId orderId
  unfold openOrder
  by_cases hc : clientId = r.clientId
  · subst hc
    rw [AList.lookup_insert, Option.bind_some]
    by_cases ho : orderId = r.orderId
    · subst ho
      rw [hself]
      exact (Function.update_self (f := x) r.combinedId row).symm
    · have hne : combinedOrderId r.clientId orderId ≠ r.combinedId :=
        fun e => ho (combinedOrderId_inj e).2
      rw [Function.update_of_ne hne, hother orderId ho, ← h]
      unfold openOrder
      cases db.openOrders.lookup r.clientId <;> rfl
  · have hne : combinedOrderId clientId orderId ≠ r.combinedId :=
      fun e => hc (combinedOrderId_inj e).1
    rw [AList.lookup_insert_ne hc, Function.update_of_ne hne]
    exact h clientId orderId

/-- The open-order branch does to the rows what the record says. -/
theorem Shows.updateOpenOrders {db : InMemoryClientDatabase} {x : OpenLedger} (h : db.Shows x)
    (r : OrderResponse) : (db.updateOpenOrders r).Shows (x.record r) := by
  have hrow : (((db.openOrders.lookup r.clientId).getD ∅).lookup r.orderId).map OrderResponse.opened =
      x r.combinedId := by
    refine Eq.trans ?_ (h r.clientId r.orderId)
    unfold openOrder
    cases db.openOrders.lookup r.clientId <;> rfl
  unfold InMemoryClientDatabase.updateOpenOrders OpenLedger.record
  cases ht : r.execType with
  | new =>
    rw [if_pos (by decide)]
    dsimp only
    rw [if_neg (by decide)]
    refine h.write ?_ (fun o ho => AList.lookup_insert_ne ho)
    rw [AList.lookup_insert]
    rfl
  | replaced =>
    rw [if_pos (by decide)]
    dsimp only
    rw [if_neg (by decide)]
    refine h.write ?_ (fun o ho => AList.lookup_insert_ne ho)
    rw [AList.lookup_insert]
    rfl
  | partialFill =>
    rw [if_pos (by decide)]
    dsimp only
    rw [if_pos rfl]
    cases ho : ((db.openOrders.lookup r.clientId).getD ∅).lookup r.orderId with
    | none =>
      rw [ho] at hrow
      refine h.write ?_ (fun _ _ => rfl)
      rw [ho, ← hrow]
      rfl
    | some order =>
      rw [ho] at hrow
      refine h.write ?_ (fun o hne => AList.lookup_insert_ne hne)
      rw [AList.lookup_insert, ← hrow]
      rfl
  | fill | cancelled =>
    rw [if_neg (by decide), if_pos (by decide)]
    cases hc : db.openOrders.lookup r.clientId with
    | none =>
      -- a client without orders has no row to delete
      rw [hc] at hrow
      have hnone : x r.combinedId = none := hrow.symm
      have hsame : Function.update x r.combinedId none = x := by
        rw [← hnone, Function.update_eq_self]
      dsimp only
      rw [hsame]
      exact h
    | some orders =>
      refine h.write ?_ (fun o ho => ?_)
      · rw [AList.lookup_erase]
        rfl
      · rw [AList.lookup_erase_ne ho, hc]
        rfl
  | rejected | orderStatus | complete =>
    rw [if_neg (by decide), if_neg (by decide)]
    exact h

/-- A record's effect on the open orders is the ledger's. -/
theorem Shows.update {db : InMemoryClientDatabase} {x : OpenLedger} (h : db.Shows x) (r : OrderResponse)
    (logOffset : Nat) : (db.updateOnExecution r logOffset).Shows (x.record r) := by
  -- sequence number, positions and offsets are not looked at
  have hframe : ∀ {db db' : InMemoryClientDatabase} {x : OpenLedger},
      db'.openOrders = db.openOrders → db.Shows x → db'.Shows x := by
    intro db db' x he h clientId orderId
    unfold openOrder
    rw [he]
    exact h clientId orderId
  refine hframe rfl (Shows.updateOpenOrders (hframe ?_ h) r)
  split <;> rfl

/-- By induction on the records: the database keeps the ledger. -/
theorem Shows.updateAll (rs : List (OrderResponse × Nat)) :
    ∀ {db : InMemoryClientDatabase} {x : OpenLedger}, db.Shows x →
      (db.updateAll rs).Shows ((rs.map Prod.fst).foldl OpenLedger.record x) := by
  induction rs with
  | nil => exact fun h => h
  | cons r rs ih => exact fun h => ih (h.update r.1 r.2)

theorem shows_empty : empty.Shows fun _ => none := fun _ _ => rfl

end InMemoryClientDatabase

/-! ## The rows of a book -/

namespace Lob

variable {c : Config} {a : Lob} {s : Slot} {o : Order}

theorem Distinct.ledger_mem (h : a.Distinct) (ho : o ∈ a s) :
    a.ledger c o.orderId = some (o.opened c s) :=
  h.rows_mem ho

theorem Distinct.ledger_remove (h : a.Distinct) (id : Nat) :
    (a.remove id).ledger c = Function.update (a.ledger c) id none :=
  h.rows_remove id

theorem Distinct.ledger_resize (h : a.Distinct) (ho : o ∈ a s) (q r : Nat) :
    (a.resize o.orderId q r).ledger c = Function.update (a.ledger c) o.orderId
      (some ⟨s.side, c.plToPrice o.level, q, r⟩) :=
  h.rows_resize ho q r

end Lob

/-! ## Executions -/

/-- A trade record lowers the row of its order, or deletes it. -/
theorem OpenLedger.record_trade (x : OpenLedger) (c : Config) {id : Nat} (hid : id < 2 ^ 64) (execId : Nat)
    (side : Side) (p : Int) (q left : Nat) (code : RejectCode) :
    x.record (c.response (State.fillType left) id execId side p q left code) =
      Function.update x id (if left = 0 then none
        else (x id).map fun o => { o with qRem := left }) := by
  have hcombined := c.response_combinedId (State.fillType left) execId side p q left code hid
  have htype : (c.response (State.fillType left) id execId side p q left code).execType =
    State.fillType left := rfl
  unfold record
  rw [hcombined, htype]
  by_cases hz : left = 0
  · rw [if_pos hz, State.fillType, if_pos hz]
  · rw [if_neg hz, State.fillType, if_neg hz]
    rfl

/-- The ledger with the row of a taker that has not come to rest. -/
def OpenLedger.withTaker (x : OpenLedger) (c : Config) (s : Slot) (idx : Nat) (t : Order) : OpenLedger :=
  Function.update x t.orderId (if t.qtyRemaining = 0 then none
    else some ⟨s.side, c.plToPrice idx, t.qtyOriginal, t.qtyRemaining⟩)

section Execute

variable {c : Config} {s : Slot} {idx : Nat}

/-- The taker's record of a trade lowers its row. -/
theorem OpenLedger.withTaker_record (x : OpenLedger) (c : Config) (s : Slot) (idx : Nat) {t : Order}
    (ht : t.orderId < 2 ^ 64)
    (hr : t.qtyRemaining ≠ 0) (q execId : Nat) (p : Int) :
    (x.withTaker c s idx t).record (c.response (State.fillType (t.qtyRemaining - q)) t.orderId execId
      s.side p q (t.qtyRemaining - q) .none) = x.withTaker c s idx (t.fill q) := by
  rw [OpenLedger.record_trade _ _ ht]
  unfold withTaker
  rw [if_neg hr, Function.update_idem, Function.update_self]
  rfl

/-- A taker that comes to rest has its row already. -/
theorem Lob.Taking.ledger_rested {a : Lob} {t : Order} (h : a.Taking t) :
    (a.rested s idx t).ledger c = (a.ledger c).withTaker c s idx t :=
  h.rows_rested s idx

/-- The records of an execution turn the rows of the book, with the taker's, into
the rows of the book it leaves. -/
theorem ledger_execute (gen : Nat → Nat) {a : Lob} {t : Order} (h : a.Taking t) :
    (a.execute c gen s t idx).recs.foldl OpenLedger.record ((a.ledger c).withTaker c s idx t) =
      (a.execute c gen s t idx).lob.ledger c := by
  refine Lob.execute_rule (P := fun a t rs b =>
    rs.foldl OpenLedger.record ((a.ledger c).withTaker c s idx t) = b.ledger c)
    (fun ht _ => ht.ledger_rested.symm) ?_ ?_ gen h
  · intro a t y ms rs b x ht hm hr _ hle hnext
    have hmem : y ∈ a s.flip := hm ▸ List.mem_cons_self
    have hne : y.orderId ≠ t.orderId := ht.fresh _ _ hmem
    have hmaker := OpenLedger.record_trade ((a.ledger c).withTaker c s idx (t.fill y.qtyRemaining)) c
      (ht.distinct.id hmem) x s.flip.side (c.plToPrice y.level) y.qtyRemaining 0 .none
    rw [if_pos rfl] at hmaker
    rw [← hnext, List.foldl_cons, List.foldl_cons]
    congr 1
    -- the taker's row is lowered, the maker's deleted
    rw [OpenLedger.withTaker_record _ _ _ _ ht.id hr]
    refine hmaker.trans ?_
    rw [ht.distinct.ledger_remove]
    exact Function.update_comm (Ne.symm hne) _ _ _
  · intro a t y ms x ht hm hr _ hlt
    have hmem : y ∈ a s.flip := hm ▸ List.mem_cons_self
    have hpart : y.qtyRemaining - t.qtyRemaining ≠ 0 := by omega
    have hmaker := OpenLedger.record_trade (a.ledger c) c (ht.distinct.id hmem) x s.flip.side
      (c.plToPrice y.level) t.qtyRemaining (y.qtyRemaining - t.qtyRemaining) .none
    rw [if_neg hpart, State.fillType, if_neg hpart, ht.distinct.ledger_mem hmem] at hmaker
    have htaker := OpenLedger.withTaker_record (a.ledger c) c s idx ht.id hr t.qtyRemaining x
      (c.plToPrice y.level)
    -- a taker with nothing left has no row, as in the book
    have hgone : (a.ledger c).withTaker c s idx (t.fill t.qtyRemaining) = a.ledger c := by
      have hz : (t.fill t.qtyRemaining).qtyRemaining = 0 := Nat.sub_self _
      have hrest : a.Taking (t.fill t.qtyRemaining) := ⟨ht.distinct, ht.fresh, ht.id, ht.sorted⟩
      rw [← hrest.ledger_rested, Lob.rested, if_pos hz]
    rw [Nat.sub_self, hgone] at htaker
    rw [List.foldl_cons, List.foldl_cons, List.foldl_nil]
    refine (congrArg (fun x => OpenLedger.record x _) htaker).trans (hmaker.trans ?_)
    rw [ht.distinct.ledger_resize hmem]
    rfl

end Execute

/-! ## One request -/

/-- A new order is not a market order, whose resting price no record tells. -/
def NotMarket (req : OrderRequest) : Prop := req.action = .new → req.type ≠ .market

section Requests

variable {c : Config} {a : Lob} {req : OrderRequest} {gen : Nat → Nat}

/-- A `New` record sets the row to what was asked for, -/
theorem OpenLedger.record_new (x : OpenLedger) (c : Config) (req : OrderRequest) :
    x.record (Lob.newRecord c req) =
      Function.update x req.combinedId (some ⟨req.side, req.p, req.q, req.q⟩) := by
  unfold record
  rw [Lob.newRecord, c.response_combinedId _ _ _ _ _ _ _ req.combinedId_lt]
  rfl

/-- a `Replaced` record to the new price and quantity. -/
theorem OpenLedger.record_replace (x : OpenLedger) (c : Config) (req : OrderRequest) (o : Order)
    (target newQty : Nat) : x.record (Lob.replaceRecord c req o target newQty) =
      Function.update x req.combinedId
        (some ⟨req.side, c.plToPrice target, newQty, newQty - o.executed⟩) := by
  unfold record
  rw [Lob.replaceRecord, c.response_combinedId _ _ _ _ _ _ _ req.combinedId_lt]
  rfl

/-- Whatever a request does, its records turn the rows of the book before it into
the rows of the book after it. -/
theorem Lob.Outcome.ledger (hok : a.Ok c) (hwf : WellFormed c a req) (hK : NotMarket req)
    {ans : Answer} (hout : Lob.Outcome c gen a req ans) :
    ans.recs.foldl OpenLedger.record (a.ledger c) = ans.lob.ledger c := by
  have hd := Lob.Distinct.of_ok hok
  cases hout with
  | rejected qRem code => rfl
  | entered hact hnone _ hp hq _ =>
    obtain ⟨s, hs⟩ := hwf.side
    have hlimit : req.type = .limit := (hwf.type hact).resolve_right (hK hact)
    obtain ⟨i, hi, hpi, hindex⟩ := hwf.limit_index hlimit hp
    rw [OrderRequest.slot_of_side hs, hindex, Answer.after_recs, Answer.after_lob, List.foldl_cons,
      ← ledger_execute gen (.of_new hok hnone), OpenLedger.record_new, hs, hpi]
    have hq' : (State.createOrder req).qtyRemaining ≠ 0 := Nat.one_le_iff_ne_zero.mp hq
    unfold OpenLedger.withTaker
    rw [if_neg hq']
    rfl
  | cancelled hact hfind =>
    obtain ⟨ho, -, -⟩ := hwf.of_find (Or.inl hact) hfind
    rw [hd.ledger_remove, List.foldl_cons, List.foldl_nil]
    unfold OpenLedger.record
    rw [Lob.cancelRecord, c.response_combinedId _ _ _ _ _ _ _ (hok.sane ho).id]
    rfl
  | @kept s o hact hfind _ _ _ hlevel hqty =>
    obtain ⟨ho, hid, hs⟩ := hwf.of_find (Or.inr hact) hfind
    have hle := (hok.sane ho).le
    have hleft : o.qtyOriginal - o.executed = o.qtyRemaining := by
      unfold Order.executed
      omega
    -- the row written is the one that is there
    rw [← hlevel, hqty, List.foldl_cons, List.foldl_nil, OpenLedger.record_replace, hs, hleft, ← hid]
    refine (congrArg _ ?_).trans (Function.update_eq_self o.orderId _)
    rw [hd.ledger_mem ho]
    rfl
  | @finished s o hact hfind _ _ _ _ =>
    obtain ⟨ho, hid, hs⟩ := hwf.of_find (Or.inr hact) hfind
    rw [hd.ledger_remove, List.foldl_cons, List.foldl_cons, List.foldl_nil, OpenLedger.record_replace, hid]
    unfold OpenLedger.record
    rw [Lob.finishRecord, c.response_combinedId _ _ _ _ _ _ _ req.combinedId_lt]
    exact Function.update_idem ..
  | @requeued s o hact hfind _ _ hexec _ =>
    obtain ⟨ho, hid, hs⟩ := hwf.of_find (Or.inr hact) hfind
    have hr : (o.resized (req.newQty o)).qtyRemaining ≠ 0 := by
      show req.newQty o - o.executed ≠ 0
      omega
    rw [Answer.after_recs, Answer.after_lob, List.foldl_cons, OpenLedger.record_replace,
      ← ledger_execute gen (.of_replaced hok ho (req.newQty o))]
    unfold OpenLedger.withTaker
    have hmoved : (o.resized (req.newQty o)).orderId = req.combinedId := hid
    rw [if_neg hr, hmoved, hd.ledger_remove, hid, Function.update_idem, hs]
    rfl
  | @shrunk s o hact hfind _ _ _ hlevel _ =>
    obtain ⟨ho, hid, hs⟩ := hwf.of_find (Or.inr hact) hfind
    rw [hd.ledger_resize ho, List.foldl_cons, List.foldl_nil, OpenLedger.record_replace, hs, ← hlevel, hid]

/-- The rows of the other orders, also where a market order enters, whose row is its own. -/
theorem Lob.Outcome.ledger_at (hok : a.Ok c) (hwf : WellFormed c a req) {k : Nat}
    (hK : req.combinedId = k → NotMarket req) {ans : Answer} (hout : Lob.Outcome c gen a req ans) :
    ans.recs.foldl OpenLedger.record (a.ledger c) k = ans.lob.ledger c k := by
  by_cases hm : NotMarket req
  · rw [hout.ledger hok hwf hm]
  have hne : k ≠ req.combinedId := fun h => hm (hK h.symm)
  have hnew : req.action = .new := by
    by_contra hact
    exact hm fun h => absurd h hact
  cases hout with
  | rejected qRem code => rfl
  | entered _ hnone _ _ _ _ =>
    rw [Answer.after_recs, Answer.after_lob, List.foldl_cons, ← ledger_execute gen (.of_new hok hnone)]
    refine OpenLedger.foldl_congr _ ?_
    -- neither the acknowledgement nor the taker is about this row
    rw [OpenLedger.record_new, Function.update_of_ne hne]
    exact (Function.update_of_ne hne _ _).symm
  | cancelled hact _ => rw [hnew] at hact; cases hact
  | kept hact _ _ _ _ _ _ => rw [hnew] at hact; cases hact
  | finished hact _ _ _ _ _ => rw [hnew] at hact; cases hact
  | requeued hact _ _ _ _ _ => rw [hnew] at hact; cases hact
  | shrunk hact _ _ _ _ _ _ => rw [hnew] at hact; cases hact

end Requests

/-! ## Runs -/

/-- The rows of any run are those its book calls for. -/
theorem run_ledger {c : Config} {st : State} (h : ReachableBy NotMarket c st) :
    st.log.foldl OpenLedger.record (fun _ => none) = st.book.lob.ledger c := by
  induction h with
  | fresh gen =>
    rw [fresh_lob]
    rfl
  | step hst hK hreq hrun ih =>
    obtain ⟨hlob, hlog, -⟩ := hst.reachable.step_answer hreq hrun
    rw [hlog, hlob, List.foldl_append, ih]
    exact (Lob.step_outcome ..).ledger hst.reachable.ok hreq hK

/-- The order behind a row of the book. -/
theorem Reachable.active_row {c : Config} {st : State} (h : Reachable c st) {row : Option OrderResponse}
    {k : Nat} (hrow : row.map OrderResponse.opened = st.book.lob.ledger c k) {ptr : Nat}
    (hptr : st.book.activeOrders k = some ptr) :
    ∃ r o s pl, row = some r ∧ st.book.orders ptr = some o ∧ pl ∈ st.book.activeLevels s ∧
      ptr ∈ st.book.queueOf pl ∧ r.side = s.side ∧ r.p = st.book.cfg.plToPrice pl ∧ r.q = o.qtyOriginal ∧
        r.qRem = o.qtyRemaining := by
  obtain ⟨⟨q, hq⟩, hc, -⟩ := h.inv
  obtain ⟨s, i, o, hfind, ho, hp, hi, -, -, hlevel, -⟩ := hq.active_some hptr
  unfold Lob.ledger at hrow
  rw [hq.lob_eq, hfind, Option.map_some] at hrow
  obtain ⟨r, hr, he⟩ := Option.map_eq_some_iff.mp hrow
  unfold OrderResponse.opened Order.opened at he
  rw [hlevel] at he
  injection he with hside hprice hqty hrem
  refine ⟨r, o, s, i, hr, ho, hi, ?_, hside, hc ▸ hprice, hqty, hrem⟩
  rw [hq.queueOf_eq (hq.inRange hi)]
  exact hp

/-- No row for an order that is not active. -/
theorem Reachable.inactive_row {c : Config} {st : State} (h : Reachable c st) {row : Option OrderResponse}
    {k : Nat} (hrow : row.map OrderResponse.opened = st.book.lob.ledger c k)
    (hnone : st.book.activeOrders k = none) : row = none := by
  obtain ⟨⟨q, hq⟩, -, -⟩ := h.inv
  unfold Lob.ledger at hrow
  rw [hq.lob_eq, hq.active_none hnone] at hrow
  exact Option.map_eq_none_iff.mp hrow

/-- The store's open orders are the engine's active orders. -/
structure InMemoryClientDatabase.MirrorsOrders (db : InMemoryClientDatabase) (b : OrderBook) :
    Prop where
  /-- Each active order is open, as it rests. -/
  active : ∀ clientId orderId ptr, b.activeOrders (combinedOrderId clientId orderId) = some ptr →
    ∃ r o s pl, db.openOrder clientId orderId = some r ∧ b.orders ptr = some o ∧
      pl ∈ b.activeLevels s ∧ ptr ∈ b.queueOf pl ∧ r.side = s.side ∧ r.p = b.cfg.plToPrice pl ∧
      r.q = o.qtyOriginal ∧ r.qRem = o.qtyRemaining
  /-- No other order is. -/
  only : ∀ clientId orderId, b.activeOrders (combinedOrderId clientId orderId) = none →
    db.openOrder clientId orderId = none

/-- After all records of any run, whatever offsets they are filed under, the open
orders are the engine's. -/
theorem open_orders_mirror_engine {c : Config} {st : State} (h : ReachableBy NotMarket c st)
    {rs : List (OrderResponse × Nat)} (hrs : rs.map Prod.fst = st.log) :
    (InMemoryClientDatabase.empty.updateAll rs).MirrorsOrders st.book := by
  have hshows := InMemoryClientDatabase.shows_empty.updateAll rs
  rw [hrs, run_ledger h] at hshows
  exact ⟨fun clientId orderId _ hptr => h.reachable.active_row (hshows clientId orderId) hptr,
    fun clientId orderId hnone => h.reachable.inactive_row (hshows clientId orderId) hnone⟩

/-- The sample run, its records filed under offset 0. -/
theorem sample_open_orders : ∃ st, ReachableBy NotMarket sampleConfig st ∧ st.log.length = 9 ∧
    (InMemoryClientDatabase.empty.updateAll (st.log.map (·, 0))).MirrorsOrders st.book := by
  obtain ⟨st, hst, hlen⟩ := ReachableBy.of_serve NotMarket sampleConfig id sampleRequests
    (by unfold NotMarket; decide) (fun st => st.log.length = 9) (by decide +kernel)
  refine ⟨st, hst, of_decide_eq_true hlen, open_orders_mirror_engine hst ?_⟩
  rw [List.map_map]
  exact List.map_id st.log

end Exchange
