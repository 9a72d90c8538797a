import Exchange.Book.Records
import Exchange.Book.Stream

/-!
# The records of one request

What everybody behind the journal goes by: a request is acknowledged once and first, by `New`, `Replaced`,
`Cancelled` or `Rejected`, and trades follow in pairs, the taker's record before the maker's.

`TradePairs` is the grammar of the pairs. It follows what is left of the taker and the queue in front of it, so
that each record says what is left after its own trade; `execute_pairs` is the induction along an execution.
`request_shape` puts the acknowledgement in front, for any request the book does not reach out of bounds for.
-/

namespace Exchange

/-! ## The grammar -/

/-- A record acknowledges a request, as `e`. -/
structure OrderResponse.Acks (r : OrderResponse) (req : OrderRequest) (e : ExecType) : Prop where
  type : r.execType = e
  orderId : r.orderId = req.orderId
  clientId : r.clientId = req.clientId
  execId : r.execId = req.execId

/-- A record reports a trade to one of its parties. -/
structure OrderResponse.Reports (r : OrderResponse) (combined : Nat) (side : Side) (execId : Nat) (p : Int)
    (q qRem : Nat) : Prop where
  type : r.execType = if qRem = 0 then .fill else .partialFill
  orderId : r.orderId = orderIdOf combined
  clientId : r.clientId = clientIdOf combined
  side : r.side = side
  execId : r.execId = execId
  p : r.p = p
  q : r.q = q
  qRem : r.qRem = qRem

/-- The queue once `q` of its first order is traded. -/
def behindTrade (m : Order) (q : Nat) (ms : List Order) : List Order :=
  if m.qtyRemaining = q then ms else m.fill q :: ms

/-- Pairs of trade records of a taker, which had `left` of its quantity and has `left'`, with the first orders of
the queue `ms`, of which `ms'` is left. -/
inductive TradePairs (c : Config) (taker : Nat) (s : Slot) :
    Nat → List Order → List OrderResponse → Nat → List Order → Prop
  | done (left : Nat) (ms : List Order) : TradePairs c taker s left ms [] left ms
  | pair {left q x left' : Nat} {m : Order} {ms ms' : List Order} {t k : OrderResponse} {rs : List OrderResponse}
      (hq : 0 < q) (hmin : q = min m.qtyRemaining left)
      (ht : t.Reports taker s.side x (c.plToPrice m.level) q (left - q))
      (hk : k.Reports m.orderId s.flip.side x (c.plToPrice m.level) q (m.qtyRemaining - q))
      (hrest : TradePairs c taker s (left - q) (behindTrade m q ms) rs left' ms') :
      TradePairs c taker s left (m :: ms) (t :: k :: rs) left' ms'

/-- What is left of an order, by its id: nothing, if it does not rest. -/
def Lob.unfilled (a : Lob) (id : Nat) : Nat := (a.remaining id).getD 0

/-- The records of a request that brings one book to another. -/
inductive Shape (c : Config) (req : OrderRequest) (b b' : OrderBook) : List OrderResponse → Prop
  | rejected {ack : OrderResponse} (hack : ack.Acks req .rejected) (hsame : b' = b) : Shape c req b b' [ack]
  | cancelled {ack : OrderResponse} (hack : ack.Acks req .cancelled) (hgone : b'.lob.unfilled req.combinedId = 0) :
      Shape c req b b' [ack]
  | entered {ack : OrderResponse} {rs : List OrderResponse} {s : Slot} (hs : req.side = s.side)
      (hack : ack.Acks req .new ∨ ack.Acks req .replaced)
      (hpairs : TradePairs c req.combinedId s ack.qRem (b.lob s.flip) rs (b'.lob.unfilled req.combinedId)
        (b'.lob s.flip)) : Shape c req b b' (ack :: rs)
  | finished {ack fin : OrderResponse} (hack : ack.Acks req .replaced) (hack_qRem : ack.qRem = 0)
      (hfin : fin.Acks req .fill) (hq : fin.q = 0) (hqRem : fin.qRem = 0)
      (hgone : b'.lob.unfilled req.combinedId = 0) : Shape c req b b' [ack, fin]

/-! ## The trades of an execution -/

/-- A record of a trade says what was traded. -/
theorem Config.response_reports (c : Config) (left taker x : Nat) (side : Side) (p : Int) (q : Nat) (k : RejectCode) :
    (c.response (State.fillType left) taker x side p q left k).Reports taker side x p q left :=
  ⟨rfl, rfl, rfl, rfl, rfl, rfl, rfl, rfl⟩

/-- An answer bears the request's own ids. -/
theorem Config.response_acks (c : Config) (e : ExecType) {req : OrderRequest} (side : Side) (p : Int) (q qRem : Nat)
    (k : RejectCode) : (c.response e req.combinedId req.execId side p q qRem k).Acks req e :=
  ⟨rfl, orderIdOf_combined _ _, clientIdOf_combined _ _, rfl⟩

namespace Lob

/-- An id that no order has, has nothing left. -/
theorem unfilled_of_fresh {a : Lob} {id : Nat} (h : ∀ s, ∀ o ∈ a s, o.orderId ≠ id) : a.unfilled id = 0 := by
  unfold unfilled remaining
  rw [rows_none h]
  rfl

/-- Resting the taker leaves it what it has left. -/
theorem Taking.unfilled_rested {a : Lob} {t : Order} (h : a.Taking t) (s : Slot) (idx : Nat) :
    (a.rested s idx t).unfilled t.orderId = t.qtyRemaining := by
  unfold unfilled
  rw [h.remaining_rested, withTaker, Function.update_self]
  split
  · rename_i hz
    exact hz.symm
  · rfl

/-- An order that rests has left what its row says. -/
theorem Distinct.unfilled_mem {a : Lob} (h : a.Distinct) {s : Slot} {o : Order} (ho : o ∈ a s) :
    a.unfilled o.orderId = o.qtyRemaining := by
  unfold unfilled
  rw [h.remaining_mem ho]
  rfl

/-- An execution reports its trades in pairs. -/
theorem execute_pairs {c : Config} {s : Slot} {idx : Nat} (gen : Nat → Nat) {a : Lob} {t : Order}
    (ht : a.Taking t) (hpos : ∀ o ∈ a s.flip, 1 ≤ o.qtyRemaining) :
    TradePairs c t.orderId s t.qtyRemaining (a s.flip) (a.execute c gen s t idx).recs
      ((a.execute c gen s t idx).lob.unfilled t.orderId) ((a.execute c gen s t idx).lob s.flip) := by
  refine execute_rule (c := c) (s := s) (P := fun a t rs b =>
    (∀ o ∈ a s.flip, 1 ≤ o.qtyRemaining) →
      TradePairs c t.orderId s t.qtyRemaining (a s.flip) rs (b.unfilled t.orderId) (b s.flip))
    (fun {a t} ht _ _ => ?_) (fun {a t y ms rs b} x ht hm hr _ hle ih hpos => ?_)
    (fun {a t y ms} x ht hm hr _ hlt hpos => ?_) gen ht hpos
  · rw [ht.unfilled_rested]
    have hflip : a.rested s idx t s.flip = a s.flip := by
      unfold rested
      split
      · rfl
      · exact Function.update_of_ne (Slot.flip_ne s) _ _
    rw [hflip]
    exact .done _ _
  · -- the first order of the queue is used up
    have hmem : y ∈ a s.flip := hm ▸ List.mem_cons_self
    have hrest : a.remove y.orderId s.flip = ms := by
      rw [ht.distinct.remove_head hm, Function.update_self]
    rw [hm]
    refine .pair (hpos y hmem) (Nat.min_eq_left hle).symm (c.response_reports ..) ?_ ?_
    · rw [Nat.sub_self]
      exact c.response_reports 0 ..
    · unfold behindTrade
      rw [if_pos rfl, ← hrest]
      refine ih fun o ho => ?_
      exact hpos o (mem_remove.mp ho).1
  · -- the first order of the queue has enough
    have hhead : (a.resize y.orderId y.qtyOriginal (y.qtyRemaining - t.qtyRemaining)) s.flip =
        y.fill t.qtyRemaining :: ms := by
      rw [ht.distinct.resize_head hm, Function.update_self]
      rfl
    have hgone : (a.resize y.orderId y.qtyOriginal (y.qtyRemaining - t.qtyRemaining)).unfilled t.orderId = 0 := by
      refine unfilled_of_fresh fun s' o ho => ?_
      obtain ⟨m, hm, hid, -⟩ := mem_resize ho
      rw [← hid]
      exact ht.fresh s' m hm
    rw [hm, hhead, hgone]
    refine .pair (x := x) (Nat.pos_of_ne_zero hr) (Nat.min_eq_right hlt.le).symm ?_ ?_ ?_
    · rw [Nat.sub_self]
      exact c.response_reports 0 ..
    · have hpart : State.fillType (y.qtyRemaining - t.qtyRemaining) = .partialFill := if_neg (by omega)
      rw [← hpart]
      exact c.response_reports ..
    · unfold behindTrade
      rw [if_neg (by omega), Nat.sub_self]
      exact .done _ _

/-- Rewriting an order does not touch the other side. -/
theorem Distinct.resize_ne {a : Lob} (h : a.Distinct) {s s' : Slot} {o : Order} (ho : o ∈ a s) (hs : s' ≠ s)
    (q r : Nat) : a.resize o.orderId q r s' = a s' := by
  refine (List.map_congr_left fun x hx => ?_).trans (List.map_id _)
  exact if_neg fun he => hs (h.apart hx ho he)

/-- Resizing an order sets what it has left. -/
theorem Distinct.unfilled_resize {a : Lob} (h : a.Distinct) {s : Slot} {o : Order} (ho : o ∈ a s) (q r : Nat) :
    (a.resize o.orderId q r).unfilled o.orderId = r := by
  unfold unfilled
  rw [h.remaining_resize ho, Function.update_self]
  rfl

end Lob

/-! ## Requests -/

section Requests

variable {c : Config} {req : OrderRequest}

/-- The price of a request does not lead out of the price array. -/
theorem Sided.safe {a : Lob} (h : Sided a req)
    (hprice : c.priceInvalid req.p ≠ 0 ∨ c.priceToIndex req.p < c.maxPriceLevels) : Safe c a req where
  new := fun _ => ⟨h.side, Or.inr (hprice.imp_right Or.inr)⟩
  named := h.named
  moved := fun _ => Or.inr hprice

/-- Only a refused request is answered with `Rejected`. -/
theorem rejected_same {st st' : State} {r : OrderResponse} (hrun : st.processRequest req = some st')
    (hmode : st.book.recoverMode = false) (hlog : st'.log = st.log ++ [r]) (hr : r.execType = .rejected) :
    st'.book = st.book := by
  cases processRequest_answered hrun with
  | refused qRem code => exact State.sendResponse_book ..
  | @served _ ack rs hsent _ hserved _ _ =>
    have hlog' := hsent.log
    rw [hmode, if_neg Bool.false_ne_true, hlog] at hlog'
    obtain ⟨rfl, -⟩ := List.cons.inj (List.append_cancel_left hlog')
    exact absurd hr hserved

/-- The records of an answer, for a request that is not refused. -/
theorem Lob.Outcome.shape {gen : Nat → Nat} {a : Lob} {ans : Answer} (hok : a.Ok c) (hsided : Sided a req)
    {b b' : OrderBook} (hb : b.lob = a) (hb' : b'.lob = ans.lob) (hout : Outcome c gen a req ans)
    (hsame : ∀ r, ans.recs = [r] → r.execType = .rejected → b' = b) : Shape c req b b' ans.recs := by
  subst hb
  have hdistinct := Distinct.of_ok hok
  cases hout with
  | rejected qRem code => exact .rejected (c.response_acks ..) (hsame _ rfl rfl)
  -- an acknowledgement, and the trades behind it two by two
  | entered hact hnone =>
    obtain ⟨s, hs⟩ := hsided.side
    have htaking := Taking.of_new hok hnone
    refine .entered hs (Or.inl (c.response_acks ..)) ?_
    rw [hb', OrderRequest.slot_of_side hs]
    exact execute_pairs gen htaking fun o ho => (hok.sane ho).pos
  | cancelled hact hfind =>
    obtain ⟨ho, hid⟩ := mem_of_find hfind
    refine .cancelled ?_ ?_
    · unfold cancelRecord
      rw [hid]
      exact c.response_acks ..
    · rw [hb', ← hid]
      exact unfilled_of_fresh fun _ _ hx => (mem_remove.mp hx).2
  -- a modify that leaves the order where it is trades nothing
  | @kept s o hact hfind hq hvalid hexec hlevel hqty =>
    obtain ⟨ho, hid⟩ := mem_of_find hfind
    have hleft : req.newQty o - o.executed = b'.lob.unfilled req.combinedId := by
      rw [hb', ← hid, hdistinct.unfilled_mem ho, hqty]
      exact Nat.sub_sub_self (hok.sane ho).le
    refine .entered (hsided.named (Or.inr hact) s o hfind) (Or.inr (c.response_acks ..)) ?_
    rw [← hleft, hb']
    exact .done _ _
  | finished hact hfind hq hvalid hexec hmove =>
    obtain ⟨ho, hid⟩ := mem_of_find hfind
    refine .finished (c.response_acks ..) ?_ (c.response_acks ..) rfl rfl ?_
    · exact Nat.sub_eq_zero_of_le hexec.le
    · rw [hb', ← hid]
      exact unfilled_of_fresh fun _ _ hx => (mem_remove.mp hx).2
  | @requeued s o hact hfind hq hvalid hexec hmove =>
    obtain ⟨ho, hid⟩ := mem_of_find hfind
    have htaking := Taking.of_replaced hok ho (req.newQty o)
    have hflip := hok.remove_flip ho
    refine .entered (hsided.named (Or.inr hact) s o hfind) (Or.inr (c.response_acks ..)) ?_
    rw [hb', ← hid, ← hflip]
    refine execute_pairs gen htaking fun x hx => ?_
    rw [hflip] at hx
    exact (hok.sane hx).pos
  | @shrunk s o hact hfind hq hvalid hexec hlevel hqty =>
    obtain ⟨ho, hid⟩ := mem_of_find hfind
    have hleft : req.newQty o - o.executed = b'.lob.unfilled req.combinedId := by
      rw [hb', ← hid]
      exact (hdistinct.unfilled_resize ho _ _).symm
    refine .entered (hsided.named (Or.inr hact) s o hfind) (Or.inr (c.response_acks ..)) ?_
    rw [← hleft, hb']
    dsimp only
    rw [hdistinct.resize_ne ho (Slot.flip_ne s)]
    exact .done _ _

/-- A request whose side is its order's, at a price that is refused or has a level, is answered with an
acknowledgement and pairs of trades, or the one `Fill` that closes an order. -/
theorem request_shape {st : State} (h : Reachable c st) (hsided : Sided st.book.lob req)
    (hprice : c.priceInvalid req.p ≠ 0 ∨ c.priceToIndex req.p < c.maxPriceLevels) :
    ∃ st', st.processRequest req = some st' ∧ ∃ rs, st'.log = st.log ++ rs ∧ Shape c req st.book st'.book rs := by
  obtain ⟨⟨q, hq⟩, hc, hmode⟩ := h.inv
  obtain ⟨st', -, hrun, -, -, -, hlob, hlog, -⟩ := hq.safe_answer hc hmode (hsided.safe hprice)
  refine ⟨st', hrun, _, hlog, ?_⟩
  refine (Lob.step_outcome c st.gen st.book.lob req).shape h.ok hsided rfl hlob fun r hr hrej => ?_
  rw [hr] at hlog
  exact rejected_same hrun hmode hlog hrej

end Requests

/-- An order at 22, between the levels of 20 and 25, trades with the offer at 20. -/
theorem sample_shape : ∃ st, Reachable sampleConfig st ∧ st.log.length = 9 ∧
    ∃ st', st.processRequest (sampleRequest .new 5 .buy 22 4) = some st' ∧ ∃ rs, st'.log = st.log ++ rs ∧
      Shape sampleConfig (sampleRequest .new 5 .buy 22 4) st.book st'.book rs := by
  obtain ⟨st, hst, hlen, -⟩ := sample_reachable
  have hsided : Sided st.book.lob (sampleRequest .new 5 .buy 22 4) := by
    refine ⟨⟨.bid, rfl⟩, fun hact => ?_⟩
    rcases hact with hact | hact <;> cases hact
  exact ⟨st, hst, hlen, request_shape hst hsided (Or.inr (by decide))⟩

end Exchange
