import Exchange.Client.Account
import Exchange.Database.Taken

/-!
# What a client knows of its orders

`ClientAccount::handle_order_response` is told of the orders of one client. It writes down what
`New` and `Replaced` say, and removes an order that is filled, cancelled or not there. A
`PartialFill` it books, and leaves the order as it was, with all that was left of it before.

So each order of the client is as the engine has it, or something has been traded since it was
written down and the client has too much left (`Lags`). The second is the case where the last
record of the order is a `PartialFill` (`lastReport`), and only there; so the client has the
engine's orders if and only if that is the last record of none (`account_mirrors_engine_iff`).
-/

namespace Exchange

open Lib

/-- What a record does to the open orders of an account. -/
def OpenLedger.keep (x : OpenLedger) (r : OrderResponse) : OpenLedger :=
  match r.execType with
  | .orderStatus | .new | .replaced => Function.update x r.combinedId (some r.opened)
  | .fill | .cancelled => Function.update x r.combinedId none
  | .rejected => if r.rejectCode = .orderNotFound then Function.update x r.combinedId none else x
  | .partialFill | .complete => x

/-- A record says nothing of another order. -/
theorem OpenLedger.keep_other {x : OpenLedger} {r : OrderResponse} {k : Nat} (h : k ≠ r.combinedId) :
    x.keep r k = x k := by
  unfold keep
  cases r.execType with
  | rejected =>
    dsimp only
    split
    · exact Function.update_of_ne h _ _
    · rfl
  | partialFill | complete => rfl
  | orderStatus | new | replaced | fill | cancelled => exact Function.update_of_ne h _ _

/-! ## The account keeps a ledger -/

namespace ClientAccount

/-- The account of this client holds these open orders, each once, and no others. -/
structure Shows (acc : ClientAccount) (clientId : UInt32) (x : OpenLedger) : Prop where
  distinct : acc.Distinct
  own : ∀ r ∈ acc.openOrders, r.clientId = clientId
  rows : ∀ orderId, (acc.openOrder orderId).map OrderResponse.opened = x (combinedOrderId clientId orderId)

section Steps

variable {acc acc' : ClientAccount} {clientId : UInt32} {x : OpenLedger} {r : OrderResponse}

/-- The order is written down. -/
theorem Shows.put (h : acc.Shows clientId x) (hr : r.clientId = clientId)
    (hacc : acc'.openOrders = Keyed.put (·.orderId) r acc.openOrders) :
    acc'.Shows clientId (Function.update x r.combinedId (some r.opened)) := by
  refine ⟨?_, fun r' hr' => ?_, fun orderId => ?_⟩
  · unfold Distinct
    rw [hacc]
    exact Keyed.nodup_put _ r h.distinct
  · rw [hacc] at hr'
    rcases Keyed.mem_put _ hr' with rfl | hmem
    · exact hr
    · exact h.own r' hmem
  · unfold openOrder
    rw [hacc, Keyed.find_put]
    by_cases ho : orderId = r.orderId
    · subst ho
      subst hr
      rw [if_pos rfl]
      exact (Function.update_self (f := x) r.combinedId _).symm
    · have hne : combinedOrderId clientId orderId ≠ r.combinedId := fun he => ho (combinedOrderId_inj he).2
      rw [if_neg ho, Function.update_of_ne hne]
      exact h.rows orderId

/-- The order is removed. -/
theorem Shows.remove (h : acc.Shows clientId x) (hr : r.clientId = clientId)
    (hacc : acc'.openOrders = Keyed.remove (·.orderId) r.orderId acc.openOrders) :
    acc'.Shows clientId (Function.update x r.combinedId none) := by
  refine ⟨?_, fun r' hr' => ?_, fun orderId => ?_⟩
  · unfold Distinct
    rw [hacc]
    exact Keyed.nodup_remove _ r.orderId h.distinct
  · rw [hacc] at hr'
    exact h.own r' (List.mem_of_mem_eraseP hr')
  · unfold openOrder
    rw [hacc, Keyed.find_remove _ h.distinct]
    by_cases ho : orderId = r.orderId
    · subst ho
      subst hr
      rw [if_pos rfl]
      exact (Function.update_self (f := x) r.combinedId none).symm
    · have hne : combinedOrderId clientId orderId ≠ r.combinedId := fun he => ho (combinedOrderId_inj he).2
      rw [if_neg ho, Function.update_of_ne hne]
      exact h.rows orderId

/-- Only the open orders are looked at. -/
theorem Shows.frame (h : acc.Shows clientId x) (hacc : acc'.openOrders = acc.openOrders) :
    acc'.Shows clientId x := by
  refine ⟨?_, fun r hr => h.own r (hacc ▸ hr), fun orderId => ?_⟩
  · unfold Distinct
    rw [hacc]
    exact h.distinct
  · unfold openOrder
    rw [hacc]
    exact h.rows orderId

/-- A record of the client. -/
theorem Shows.handle (h : acc.Shows clientId x) (hr : r.clientId = clientId) :
    (acc.handleOrderResponse r).Shows clientId (x.keep r) := by
  unfold handleOrderResponse OpenLedger.keep
  cases r.execType with
  | orderStatus | new | replaced => exact h.put hr rfl
  | partialFill => exact h.frame (acc.openOrders_updatePositionAndCash ..)
  | fill =>
    refine h.remove hr ?_
    dsimp only
    rw [openOrders_updatePositionAndCash]
  | cancelled => exact h.remove hr rfl
  | rejected =>
    dsimp only
    split
    · exact h.remove hr rfl
    · exact h
  | complete => exact h

/-- A record of another client. -/
theorem Shows.other (h : acc.Shows clientId x) (hr : r.clientId ≠ clientId) :
    acc.Shows clientId (x.keep r) := by
  refine ⟨h.distinct, h.own, fun orderId => ?_⟩
  rw [OpenLedger.keep_other fun he => hr (combinedOrderId_inj he).1.symm]
  exact h.rows orderId

/-- The account once all records that are addressed to the client have been handled. -/
def after (clientId : UInt32) (log : List OrderResponse) : ClientAccount :=
  (log.filter (·.clientId = clientId)).foldl handleOrderResponse empty

/-- By induction on the log: the account keeps the ledger of its client's records. -/
theorem Shows.handleAll (log : List OrderResponse) : ∀ {acc : ClientAccount} {x : OpenLedger},
    acc.Shows clientId x →
      ((log.filter (·.clientId = clientId)).foldl handleOrderResponse acc).Shows clientId
        (log.foldl OpenLedger.keep x) := by
  induction log with
  | nil => exact fun h => h
  | cons r log ih =>
    intro acc x h
    by_cases hr : r.clientId = clientId
    · rw [List.filter_cons_of_pos (by simpa using hr), List.foldl_cons, List.foldl_cons]
      exact ih (h.handle hr)
    · rw [List.filter_cons_of_neg (by simpa using hr), List.foldl_cons]
      exact ih (h.other hr)

theorem shows_after (clientId : UInt32) (log : List OrderResponse) :
    (after clientId log).Shows clientId (log.foldl OpenLedger.keep fun _ => none) :=
  Shows.handleAll log ⟨List.nodup_nil, fun _ hr => absurd hr List.not_mem_nil, fun _ => rfl⟩

end Steps

end ClientAccount

/-! ## What the client is behind by -/

/-- The type of the last record of an order, of the types in `EXEC_MD`: `Rejected` says nothing of it. -/
def lastReport (rs : List OrderResponse) (k : Nat) : Option ExecType :=
  ((rs.filter fun r => r.combinedId = k ∧ checkExec r.execType execMd).getLast?).map (·.execType)

/-- The last report is the last record of the order, when that one is an execution. -/
theorem lastReport_concat (rs : List OrderResponse) (r : OrderResponse) (k : Nat) :
    lastReport (rs ++ [r]) k =
      if r.combinedId = k ∧ checkExec r.execType execMd then some r.execType else lastReport rs k := by
  unfold lastReport
  rw [List.filter_append]
  by_cases hr : r.combinedId = k ∧ checkExec r.execType execMd
  · rw [if_pos hr, List.filter_singleton, decide_eq_true hr, cond_true, List.getLast?_concat]
    rfl
  · rw [if_neg hr, List.filter_singleton, decide_eq_false hr, cond_false, List.append_nil]

/-- The last record is one of them. -/
theorem mem_of_lastReport {rs : List OrderResponse} {k : Nat} {t : ExecType} (h : lastReport rs k = some t) :
    ∃ r ∈ rs, r.combinedId = k ∧ r.execType = t := by
  obtain ⟨r, hlast, ht⟩ := Option.map_eq_some_iff.mp h
  obtain ⟨hmem, hr⟩ := List.mem_filter.mp (List.mem_of_getLast? hlast)
  exact ⟨r, hmem, (of_decide_eq_true hr).1, ht⟩

/-- The engine's row of an order, and the account's. -/
inductive Lags : Option ExecType → Option OpenOrder → Option OpenOrder → Prop
  | gone {t : Option ExecType} (ht : t ≠ some .partialFill) : Lags t none none
  | same {t : Option ExecType} (ht : t ≠ some .partialFill) (o : OpenOrder) : Lags t (some o) (some o)
  | behind {o : OpenOrder} {q : Nat} (hq : o.qRem < q) :
      Lags (some .partialFill) (some o) (some { o with qRem := q })

/-- An order that is gone is not kept. -/
theorem Lags.gone_left {t : Option ExecType} {row : Option OpenOrder} (h : Lags t none row) :
    t ≠ some .partialFill ∧ row = none := by
  cases h with
  | gone ht => exact ⟨ht, rfl⟩

/-- An order that is there is kept, with all that is left of it or more. -/
theorem Lags.some_left {t : Option ExecType} {o : OpenOrder} {row : Option OpenOrder} (h : Lags t (some o) row) :
    ∃ q, o.qRem ≤ q ∧ row = some { o with qRem := q } := by
  cases h with
  | same _ _ => exact ⟨o.qRem, le_rfl, rfl⟩
  | @behind _ q hq => exact ⟨q, hq.le, rfl⟩

/-- Behind a partial fill, the row is the one kept with less left. -/
theorem Lags.behind_left {row kept : Option OpenOrder} (h : Lags (some .partialFill) row kept) :
    ∃ o q, row = some o ∧ kept = some { o with qRem := q } ∧ o.qRem < q := by
  cases h with
  | gone ht => exact absurd rfl ht
  | same ht _ => exact absurd rfl ht
  | @behind o q hq => exact ⟨o, q, rfl, rfl, hq⟩

theorem Lags.eq {t : Option ExecType} {row kept : Option OpenOrder} (h : Lags t row kept)
    (ht : t ≠ some .partialFill) : kept = row := by
  cases h with
  | gone _ => rfl
  | same _ o => rfl
  | behind _ => exact absurd rfl ht

/-- What the engine says beside what `Stream` has: a trade is of something, and an order that is not
found is not there. -/
structure OpenLedger.Sends (x : OpenLedger) (r : OrderResponse) : Prop where
  status : r.execType ≠ .orderStatus
  traded : r.execType = .partialFill → 0 < r.q
  missing : r.execType = .rejected → r.rejectCode = .orderNotFound → x r.combinedId = none

section Records

variable {x z : OpenLedger} {y y' : Remaining} {rs : List OrderResponse} {r : OrderResponse} {k : Nat}

/-- One record. -/
theorem Lags.record (h : Lags (lastReport rs k) (x k) (z k)) (hleft : (x k).map (·.qRem) = y k)
    (hfits : y.Fits r) (hsends : x.Sends r) :
    Lags (lastReport (rs ++ [r]) k) (x.record r k) (z.keep r k) ∧
      (x.record r k).map (·.qRem) = y.next r k := by
  by_cases hk : k = r.combinedId
  · subst hk
    rw [lastReport_concat]
    unfold OpenLedger.record OpenLedger.keep Remaining.next
    unfold Remaining.Fits at hfits
    cases ht : r.execType with
    | new | replaced =>
      dsimp only
      rw [if_pos ⟨rfl, by decide⟩, Function.update_self, Function.update_self, Function.update_self]
      exact ⟨.same (by decide) _, rfl⟩
    | partialFill =>
      rw [ht] at hfits
      have hq := hsends.traded ht
      dsimp only
      rw [if_pos ⟨rfl, by decide⟩, Function.update_self, Function.update_self]
      rw [hfits.1] at hleft
      obtain ⟨o, ho, hrow⟩ := Option.map_eq_some_iff.mp hleft
      rw [ho] at h
      obtain ⟨q, hle, hkept⟩ := h.some_left
      rw [ho, hkept]
      -- what is left gets less, and the account keeps what it has
      exact ⟨.behind (o := { o with qRem := r.qRem }) (by dsimp only; omega), rfl⟩
    | fill | cancelled =>
      dsimp only
      rw [if_pos ⟨rfl, by decide⟩, Function.update_self, Function.update_self, Function.update_self]
      exact ⟨.gone (by decide), rfl⟩
    | rejected =>
      dsimp only
      rw [if_neg fun h => absurd h.2 (by decide)]
      refine ⟨?_, hleft⟩
      split
      · rename_i hcode
        have hmissing := hsends.missing ht hcode
        rw [hmissing] at h
        rw [Function.update_self, hmissing]
        exact .gone h.gone_left.1
      · exact h
    | orderStatus => exact absurd ht hsends.status
    | complete =>
      dsimp only
      rw [if_neg fun h => absurd h.2 (by decide)]
      exact ⟨h, hleft⟩
  · rw [lastReport_concat, if_neg fun h => hk h.1.symm, OpenLedger.record_other hk, OpenLedger.keep_other hk,
      y.next_other hk]
    exact ⟨h, hleft⟩

/-- Records that reject nothing. -/
theorem Lags.stream (hs : Stream y rs y') (hrs : ∀ r ∈ rs, r.execType ≠ .rejected ∧ r.execType ≠ .orderStatus ∧
    (r.execType = .partialFill → 0 < r.q)) : ∀ {log : List OrderResponse} {x z : OpenLedger},
    Lags (lastReport log k) (x k) (z k) → (x k).map (·.qRem) = y k →
      Lags (lastReport (log ++ rs) k) (rs.foldl OpenLedger.record x k) (rs.foldl OpenLedger.keep z k) := by
  induction hs with
  | nil y =>
    intro log x z h _
    rw [List.append_nil]
    exact h
  | @cons y y' r rs hr _ ih =>
    intro log x z h hleft
    obtain ⟨hrejected, hstatus, htraded⟩ := hrs r List.mem_cons_self
    obtain ⟨hnext, hleft'⟩ := h.record hleft hr.fits ⟨hstatus, htraded, fun hr => absurd hr hrejected⟩
    rw [List.append_cons]
    exact ih (fun r' hr' => hrs r' (List.mem_cons_of_mem _ hr')) hnext hleft'

end Records

/-! ## The records of a request -/

theorem TradeStream.traded {x x' : Remaining} {rs : List OrderResponse} (h : TradeStream x rs x') :
    ∀ r ∈ rs, 0 < r.q := by
  induction h with
  | nil x => exact fun _ hr => absurd hr List.not_mem_nil
  | cons h _ ih => exact List.forall_mem_cons.mpr ⟨h.pos, ih⟩

section Requests

variable {c : Config} {a : Lob} {req : OrderRequest} {gen : Nat → Nat}

/-- An order that rests is not answered for with `OrderNotFound`. -/
theorem Lob.step_found {so : Slot × Order} (hfind : a.find req.combinedId = some so) :
    ∀ r ∈ (a.step c gen req).recs, r.rejectCode ≠ .orderNotFound := by
  have hreject : ∀ {qRem : Nat} {code : RejectCode}, code ≠ .orderNotFound →
      ∀ r ∈ (a.reject c gen req qRem code).recs, r.rejectCode ≠ .orderNotFound :=
    fun hcode => List.forall_mem_singleton.mpr hcode
  have hnone : RejectCode.none ≠ .orderNotFound := by decide
  unfold step
  cases req.action with
  | other n => exact hreject (by decide)
  | cancel =>
    simp only [cancelOrder, hfind]
    exact List.forall_mem_singleton.mpr hnone
  | new =>
    simp only [newOrder, hfind]
    split
    · exact hreject (by decide)
    · exact hreject (by decide)
  | modify =>
    simp only [modifyOrder, hfind, replaceOrder]
    split
    · exact hreject (by decide)
    split
    · exact hreject (by decide)
    split
    · exact hreject (by decide)
    split
    · exact List.forall_mem_singleton.mpr hnone
    split
    · exact List.forall_mem_cons.mpr ⟨hnone, List.forall_mem_singleton.mpr hnone⟩
    split
    · refine List.forall_mem_cons.mpr ⟨hnone, fun r hr => ?_⟩
      obtain ⟨id, x, p, q, left, s', rfl⟩ := tradeRecords_form hr
      exact hnone
    · exact List.forall_mem_singleton.mpr hnone

/-- The records that reject nothing. -/
theorem Lob.Outcome.sent (hok : a.Ok c) {ans : Answer} (hout : Lob.Outcome c gen a req ans) :
    (∃ qRem code, ans = a.reject c gen req qRem code) ∨ ∀ r ∈ ans.recs, r.execType ≠ .rejected ∧
      r.execType ≠ .orderStatus ∧ (r.execType = .partialFill → 0 < r.q) := by
  have hack : ∀ {r : OrderResponse} {t : ExecType}, r.execType = t →
      t ≠ .rejected ∧ t ≠ .orderStatus ∧ t ≠ .partialFill →
      r.execType ≠ .rejected ∧ r.execType ≠ .orderStatus ∧ (r.execType = .partialFill → 0 < r.q) := by
    rintro r t rfl ⟨hrejected, hstatus, hpartial⟩
    exact ⟨hrejected, hstatus, fun h => absurd h hpartial⟩
  have htrade : ∀ {b : Lob} {s : Slot} {t : Order} {idx : Nat}, b.Taking t → b.Positive →
      ∀ r ∈ (b.execute c gen s t idx).recs,
        r.execType ≠ .rejected ∧ r.execType ≠ .orderStatus ∧ (r.execType = .partialFill → 0 < r.q) := by
    intro b s t idx ht hpos r hr
    have hq := (ht.trades gen hpos).traded r hr
    rcases tradeRecords_execType hr with he | he
    · rw [he]
      exact ⟨by decide, by decide, fun _ => hq⟩
    · rw [he]
      exact ⟨by decide, by decide, fun _ => hq⟩
  have hreplaced : ∀ o target newQty, (replaceRecord c req o target newQty).execType ≠ .rejected ∧
      (replaceRecord c req o target newQty).execType ≠ .orderStatus ∧
        ((replaceRecord c req o target newQty).execType = .partialFill →
          0 < (replaceRecord c req o target newQty).q) :=
    fun _ _ _ => hack (t := .replaced) rfl (by decide)
  cases hout with
  | rejected qRem code => exact Or.inl ⟨qRem, code, rfl⟩
  | entered _ hnone _ _ _ _ =>
    exact Or.inr (List.forall_mem_cons.mpr ⟨hack (t := .new) rfl (by decide),
      htrade (Taking.of_new hok hnone) hok.positive⟩)
  | cancelled _ _ => exact Or.inr (List.forall_mem_singleton.mpr (hack (t := .cancelled) rfl (by decide)))
  | kept => exact Or.inr (List.forall_mem_singleton.mpr (hreplaced _ _ _))
  | finished =>
    exact Or.inr (List.forall_mem_cons.mpr ⟨hreplaced _ _ _,
      List.forall_mem_singleton.mpr (hack (t := .fill) rfl (by decide))⟩)
  | @requeued s' o _ hfind _ _ _ _ =>
    exact Or.inr (List.forall_mem_cons.mpr ⟨hreplaced _ _ _,
      htrade (Taking.of_replaced hok (mem_of_find hfind).1 _) (hok.positive.remove _)⟩)
  | shrunk => exact Or.inr (List.forall_mem_singleton.mpr (hreplaced _ _ _))

/-- The ledger's quantities are what the book has left. -/
theorem Lob.ledger_left (c : Config) (a : Lob) (k : Nat) : (a.ledger c k).map (·.qRem) = a.remaining k := by
  unfold Lob.ledger Lob.remaining Lob.rows
  rw [Option.map_map]
  rfl

/-- One request. -/
theorem Lob.step_lags (hok : a.Ok c) (hwf : WellFormed c a req) {k : Nat} (hK : req.combinedId = k → NotMarket req)
    {log : List OrderResponse} {z : OpenLedger} (h : Lags (lastReport log k) (a.ledger c k) (z k)) :
    Lags (lastReport (log ++ (a.step c gen req).recs) k) ((a.step c gen req).lob.ledger c k)
      ((a.step c gen req).recs.foldl OpenLedger.keep z k) := by
  have hout := Lob.step_outcome c gen a req
  have hrow := hout.ledger_at hok hwf hK
  have hstream := hout.stream hok hwf
  rcases hout.sent hok with ⟨qRem, code, hreject⟩ | hsent
  · have hfound : ∀ so, a.find req.combinedId = some so → ∀ r ∈ (a.step c gen req).recs,
        r.rejectCode ≠ .orderNotFound := fun _ => step_found
    rw [hreject] at hstream hfound ⊢
    have hid := c.response_combinedId .rejected req.execId req.side req.p req.q qRem code req.combinedId_lt
    have hsends : (a.ledger c).Sends
        (c.response .rejected req.combinedId req.execId req.side req.p req.q qRem code) := by
      refine ⟨(fun h => by cases h), (fun h => by cases h), fun _ hcode => ?_⟩
      rw [hid]
      unfold Lob.ledger
      cases hfind : a.find req.combinedId with
      | none => rfl
      | some so => exact absurd hcode (hfound so hfind _ List.mem_cons_self)
    cases hstream with
    | cons hr _ => exact (h.record (ledger_left c a k) hr.fits hsends).1
  · rw [← hrow]
    exact Lags.stream hstream hsent h (ledger_left c a k)

end Requests

/-! ## Runs -/

/-- By induction on the run: no row but one behind a partial fill differs from the book's. -/
theorem run_lags {K : OrderRequest → Prop} {c : Config} {st : State} (h : ReachableBy K c st) {k : Nat}
    (hmarket : ∀ req, K req → req.combinedId = k → NotMarket req) :
    Lags (lastReport st.log k) (st.book.lob.ledger c k) (st.log.foldl OpenLedger.keep (fun _ => none) k) := by
  induction h with
  | fresh gen =>
    rw [fresh_lob]
    exact .gone (t := none) (by decide)
  | step hst hK hreq hrun ih =>
    obtain ⟨hlob, hlog, -⟩ := hst.reachable.step_answer hreq hrun
    rw [hlog, hlob, List.foldl_append]
    exact Lob.step_lags hst.reachable.ok hreq (hmarket _ hK) ih

/-- The account's open orders are the client's active orders. -/
structure ClientAccount.MirrorsOrders (acc : ClientAccount) (clientId : UInt32) (b : OrderBook) : Prop where
  /-- No order is there twice. -/
  distinct : acc.Distinct
  /-- Each active order of the client is open, as it rests. -/
  active : ∀ orderId ptr, b.activeOrders (combinedOrderId clientId orderId) = some ptr →
    ∃ r o s pl, r ∈ acc.openOrders ∧ r.orderId = orderId ∧ b.orders ptr = some o ∧
      pl ∈ b.activeLevels s ∧ ptr ∈ b.queueOf pl ∧ r.side = s.side ∧ r.p = b.cfg.plToPrice pl ∧
      r.q = o.qtyOriginal ∧ r.qRem = o.qtyRemaining
  /-- No other order is. -/
  only : ∀ r ∈ acc.openOrders, r.clientId = clientId ∧
    (b.activeOrders (combinedOrderId clientId r.orderId)).isSome = true

/-- In every run in which the client enters no market order (the others may), the account that has
handled all records addressed to the client holds the client's active orders if and only if the
last record of none of its orders is a `PartialFill`. -/
theorem account_mirrors_engine_iff {c : Config} {clientId : UInt32} {st : State}
    (h : ReachableBy (fun req => req.clientId = clientId → NotMarket req) c st) :
    (ClientAccount.after clientId st.log).MirrorsOrders clientId st.book ↔
      ∀ orderId, lastReport st.log (combinedOrderId clientId orderId) ≠ some .partialFill := by
  have hshows := ClientAccount.shows_after clientId st.log
  have hlags : ∀ orderId, Lags (lastReport st.log (combinedOrderId clientId orderId))
      (st.book.lob.ledger c (combinedOrderId clientId orderId))
      (((ClientAccount.after clientId st.log).openOrder orderId).map OrderResponse.opened) := by
    intro orderId
    rw [hshows.rows]
    exact run_lags h fun req hreq hid => hreq (combinedOrderId_inj hid).1
  obtain ⟨⟨q, hq⟩, hc, -⟩ := h.reachable.inv
  constructor
  · intro hmirrors orderId hlast
    have hrow := hlags orderId
    rw [hlast] at hrow
    obtain ⟨x, left, hledger, hkept, hlt⟩ := hrow.behind_left
    -- the order behind the row
    cases hactive : st.book.activeOrders (combinedOrderId clientId orderId) with
    | none =>
      unfold Lob.ledger at hledger
      rw [hq.lob_eq, hq.active_none hactive] at hledger
      cases hledger
    | some ptr =>
      obtain ⟨s, i, o, hfind, ho, -⟩ := hq.active_some hactive
      unfold Lob.ledger at hledger
      rw [hq.lob_eq, hfind] at hledger
      obtain ⟨r, o', -, -, hmem, hid, ho', -, -, -, -, -, hrem⟩ := hmirrors.active orderId ptr hactive
      obtain rfl := Option.some.inj (ho.symm.trans ho')
      obtain rfl := hid
      have hopen : (ClientAccount.after clientId st.log).openOrder r.orderId = some r :=
        Keyed.find_of_mem _ hmirrors.distinct hmem
      rw [hopen] at hkept
      have hleft : r.qRem = left := congrArg OpenOrder.qRem (Option.some.inj hkept)
      have hx : o.qtyRemaining = x.qRem := congrArg OpenOrder.qRem (Option.some.inj hledger)
      omega
  · intro hlast
    have hrow : ∀ orderId, ((ClientAccount.after clientId st.log).openOrder orderId).map OrderResponse.opened =
        st.book.lob.ledger c (combinedOrderId clientId orderId) :=
      fun orderId => (hlags orderId).eq (hlast orderId)
    refine ⟨hshows.distinct, fun orderId ptr hptr => ?_, fun r hr => ⟨hshows.own r hr, ?_⟩⟩
    · obtain ⟨r, o, s, pl, hr, hrest⟩ := h.reachable.active_row (hrow orderId) hptr
      obtain ⟨hmem, hid⟩ := Keyed.mem_of_find _ hr
      exact ⟨r, o, s, pl, hmem, hid, hrest⟩
    · rw [Option.isSome_iff_ne_none]
      intro hnone
      have hgone := h.reachable.inactive_row (hrow r.orderId) hnone
      have hfind := Keyed.find_of_mem _ hshows.distinct hr
      exact absurd (hfind.symm.trans hgone) (by simp)

/-- Client 1 sells 9, client 2 takes 4 of them with a market order, and client 1 replaces its order by one
of 8. -/
def replacedSale : List OrderRequest :=
  [⟨.new, 1, 1, 1, 1, .sell, .limit, 20, 9, 0, 0⟩, ⟨.new, 2, 1, 2, 1, .buy, .market, 0, 4, 0, 0⟩,
    ⟨.modify, 3, 1, 1, 1, .sell, .limit, 0, 8, 0, 0⟩]

/-- The sample run, in which order 1 is the one behind. -/
theorem sample_account : ∃ st, ReachableBy (fun req => req.clientId = 1 → NotMarket req) sampleConfig st ∧
    (ClientAccount.after 1 st.log).openOrders.map (fun r => (r.orderId, r.q, r.qRem)) = [(1, 8, 4)] ∧
    (ClientAccount.after 1 st.log).MirrorsOrders 1 st.book := by
  obtain ⟨st, hst, hP⟩ := ReachableBy.of_serve (fun req => req.clientId = 1 → NotMarket req) sampleConfig id
    replacedSale (by unfold NotMarket; decide)
    (fun st => (∀ r ∈ st.log, r.clientId = 1 → lastReport st.log r.combinedId ≠ some .partialFill) ∧
      (ClientAccount.after 1 st.log).openOrders.map (fun r => (r.orderId, r.q, r.qRem)) = [(1, 8, 4)])
    (by decide +kernel)
  obtain ⟨hlast, hopen⟩ := of_decide_eq_true hP
  refine ⟨st, hst, hopen, (account_mirrors_engine_iff hst).mpr fun orderId hpartial => ?_⟩
  obtain ⟨r, hr, hid, -⟩ := mem_of_lastReport hpartial
  exact hlast r hr (combinedOrderId_inj hid).1 (hid ▸ hpartial)

/-- Before the replacement the engine has 5 left of the order, and the client 9. -/
theorem partial_fill_not_kept : ∃ st,
    ReachableBy (fun req => req.clientId = 1 → NotMarket req) sampleConfig st ∧
    (ClientAccount.after 1 st.log).openOrders.map (fun r => (r.orderId, r.q, r.qRem)) = [(1, 9, 9)] ∧
    ((st.book.activeOrders (combinedOrderId 1 1)).bind st.book.orders).map (·.qtyRemaining) = some 5 ∧
    ¬ (ClientAccount.after 1 st.log).MirrorsOrders 1 st.book := by
  obtain ⟨st, hst, hP⟩ := ReachableBy.of_serve (fun req => req.clientId = 1 → NotMarket req) sampleConfig id
    (replacedSale.take 2) (by unfold NotMarket; decide)
    (fun st => (ClientAccount.after 1 st.log).openOrders.map (fun r => (r.orderId, r.q, r.qRem)) = [(1, 9, 9)] ∧
      ((st.book.activeOrders (combinedOrderId 1 1)).bind st.book.orders).map (·.qtyRemaining) = some 5)
    (by decide +kernel)
  obtain ⟨hopen, hleft⟩ := of_decide_eq_true hP
  refine ⟨st, hst, hopen, hleft, fun hmirrors => ?_⟩
  obtain ⟨o, hbind, hrem⟩ := Option.map_eq_some_iff.mp hleft
  obtain ⟨ptr, hptr, ho⟩ := Option.bind_eq_some_iff.mp hbind
  obtain ⟨r, o', -, -, hmem, -, ho', -, -, -, -, -, hkept⟩ := hmirrors.active 1 ptr hptr
  have hrow := List.mem_map_of_mem (f := fun r : OrderResponse => (r.orderId, r.q, r.qRem)) hmem
  rw [hopen] at hrow
  obtain rfl := Option.some.inj (ho.symm.trans ho')
  have hnine : r.qRem = 9 := congrArg (·.2.2) (List.mem_singleton.mp hrow)
  omega

end Exchange
