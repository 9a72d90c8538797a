import Exchange.Book.RoundTrip
import Exchange.Book.Taking

/-!
# A replacement that loses its place

A replacement that moves an order, or asks for more of it, is written out in `handleModifyOrder` as removal and
matching anew. It is the cancellation of the order and a new limit order for what it has left: `requeue_reenters`
compares the two, for an order that stays in part or not at all, and a level that vanishes with it or is made for it.

What tells them apart is what a new order has anew (`Order.reentered`), the acknowledgements, and the numbers that
`match` draws.
-/

namespace Exchange

/-- An order, without what the one under this id has anew when it is entered again. -/
def Order.reentered (id : Nat) (o : Order) : Order :=
  if o.orderId = id then { o with qtyOriginal := 0, type := .limit, timestamp := 0 } else o

/-- A new limit order, under the id and for the symbol and side of another. -/
structure Reenters (c : Config) (o : Order) (s : Slot) (target left : Nat) (req : OrderRequest) : Prop where
  action : req.action = .new
  id : req.combinedId = o.orderId
  symbolId : req.symbolId = o.symbolId
  side : req.side = s.side
  type : req.type = .limit
  p : req.p = c.plToPrice target
  q : req.q = left

namespace Order

theorem reentered_orderId (id : Nat) (o : Order) : (o.reentered id).orderId = o.orderId := by
  unfold reentered
  split <;> rfl

theorem reentered_level (id : Nat) (o : Order) : (o.reentered id).level = o.level := by
  unfold reentered
  split <;> rfl

theorem reentered_qtyRemaining (id : Nat) (o : Order) : (o.reentered id).qtyRemaining = o.qtyRemaining := by
  unfold reentered
  split <;> rfl

end Order

namespace Lob

variable {c : Config} {gen : Nat → Nat} {a : Lob} {req : OrderRequest} {s : Slot} {o : Order}

/-! ## The three requests -/

/-- A modify of price or to more quantity: the order is taken out and matched again. -/
theorem step_requeued (hact : req.action = .modify) (hfind : a.find req.combinedId = some (s, o))
    (hq : req.q ≤ globalMaxQty) (hvalid : req.p ≠ 0 → c.priceInvalid req.p = 0) (hleft : o.executed < req.newQty o)
    (hmove : o.level ≠ req.target c o ∨ o.qtyOriginal < req.newQty o) :
    a.step c gen req = ((a.remove o.orderId).execute c gen s (o.resized (req.newQty o)) (req.target c o)).after
      (replaceRecord c req o (req.target c o) (req.newQty o)) := by
  have hkeep : ¬ (o.level = req.target c o ∧ req.newQty o = o.qtyOriginal) := by
    rintro ⟨hlevel, hqty⟩
    rcases hmove with hmove | hmove
    · exact hmove hlevel
    · omega
  unfold step
  rw [hact]
  unfold modifyOrder
  rw [hfind]
  dsimp only
  rw [if_neg (by omega), if_neg (fun hne => hne.2 (hvalid hne.1))]
  unfold replaceOrder
  rw [if_neg (by omega), if_neg hkeep, if_neg (by omega), if_pos hmove]

/-- A cancel of an order that rests. -/
theorem step_cancelled (hact : req.action = .cancel) (hfind : a.find req.combinedId = some (s, o)) :
    a.step c gen req = ⟨a.remove o.orderId, gen, [cancelRecord c req o]⟩ := by
  unfold step
  rw [hact]
  unfold cancelOrder
  rw [hfind]

/-- A new order with what is left of it is matched the same way. -/
theorem step_reentered (hoff : 1 ≤ c.priceIndexOffset) {target left : Nat} (htarget : target < c.maxPriceLevels)
    (h : Reenters c o s target left req) (hpos : 1 ≤ left) (hmax : left ≤ globalMaxQty) :
    (a.remove o.orderId).step c gen req =
      ((a.remove o.orderId).execute c gen s (State.createOrder req) target).after (newRecord c req) := by
  have hvalid : c.priceInvalid req.p = 0 := by rw [h.p, c.priceInvalid_plToPrice htarget]
  have hprice : 0 < req.p := by
    rw [h.p]
    exact c.plToPrice_pos hoff target
  have hindex : State.newIndex c req = target := by
    unfold State.newIndex
    rw [h.type, if_neg (by decide), h.p, c.priceToIndex_plToPrice htarget]
  have hqty := h.q
  unfold step
  rw [h.action]
  dsimp only
  rw [if_neg (fun hne => hne.2 hvalid)]
  unfold newOrder
  rw [h.id, find_remove, if_neg (by simp), if_neg (by omega), if_neg (by omega), OrderRequest.slot_of_side h.side,
    hindex]

/-! ## Two takers -/

/-- Takers for the same quantity, under the same id, leave the same book but for what the one has anew. -/
theorem execute_reentered {t t' : Order} (hid : t'.orderId = t.orderId) (hqty : t'.qtyRemaining = t.qtyRemaining)
    (hsymbol : t'.symbolId = t.symbolId) (gen gen' : Nat → Nat) (idx : Nat) :
    (a.execute c gen' s t' idx).lob.through (Order.reentered t.orderId) =
      (a.execute c gen s t idx).lob.through (Order.reentered t.orderId) := by
  have hrests : ∀ left, Order.reentered t.orderId { t' with priceLevel := some idx, qtyRemaining := left } =
      Order.reentered t.orderId { t with priceLevel := some idx, qtyRemaining := left } := by
    intro left
    unfold Order.reentered
    rw [if_pos hid, if_pos rfl, hid, hsymbol]
  funext s'
  unfold through
  by_cases hs : s' = s
  · subst hs
    rw [execute_self, execute_self, hqty]
    split
    · rfl
    · rw [place_map (Order.reentered_level _), place_map (Order.reentered_level _), hrests]
  · obtain rfl : s' = s.flip := Slot.eq_flip hs
    rw [execute_flip, execute_flip, hqty]

/-- They trade alike. -/
theorem execute_trades {t t' : Order} (hid : t'.orderId = t.orderId) (hqty : t'.qtyRemaining = t.qtyRemaining)
    (hpos : ∀ o ∈ a s.flip, 1 ≤ o.qtyRemaining) (gen gen' : Nat → Nat) (idx : Nat) :
    (a.execute c gen' s t' idx).recs.map OrderResponse.undrawn =
      (a.execute c gen s t idx).recs.map OrderResponse.undrawn := by
  unfold execute
  rw [hid, hqty]
  exact tradeRecords_undrawn c _ s gen gen' (sweep_fills_pos _ _ hpos)

end Lob

/-! ## The comparison -/

/-- The level a well-formed replacement asks for. -/
theorem WellFormed.target_lt {c : Config} {a : Lob} {req : OrderRequest} (h : WellFormed c a req) (hok : a.Ok c)
    {s : Slot} {o : Order} (ho : o ∈ a s) : req.target c o < c.maxPriceLevels := by
  unfold OrderRequest.target
  split
  · rename_i hp
    obtain ⟨i, hi, he⟩ := h.price hp
    rw [he, c.priceToIndex_plToPrice hi]
    exact hi
  · exact (hok.level ho).2

/-- An accepted replacement that moves an order, or asks for more of it, and leaves some, is its cancellation and a
new limit order for what is left. -/
theorem requeue_reenters {c : Config} (hoff : 1 ≤ c.priceIndexOffset) {st : State} (h : Reachable c st)
    {modify cancel new : OrderRequest} {s : Slot} {o : Order} (hreq : WellFormed c st.book.lob modify)
    (hact : modify.action = .modify) (hfind : st.book.lob.find modify.combinedId = some (s, o))
    (hq : modify.q ≤ globalMaxQty) (hleft : o.executed < modify.newQty o)
    (hmove : o.level ≠ modify.target c o ∨ o.qtyOriginal < modify.newQty o) (hcancel : cancel.action = .cancel)
    (hid : cancel.combinedId = modify.combinedId) (hside : cancel.side = modify.side)
    (hnew : Reenters c o s (modify.target c o) (modify.newQty o - o.executed) new) (gen : Nat → Nat) :
    ∃ st₁ st₂ st₃, st.processRequest modify = some st₁ ∧ { st with gen := gen }.processRequest cancel = some st₂ ∧
      st₂.processRequest new = some st₃ ∧ AlikeBook (Order.reentered o.orderId) st₃.book st₁.book ∧
      ∃ replaced cancelled entered trades trades', st₁.log = st.log ++ replaced :: trades ∧
        st₃.log = st.log ++ cancelled :: entered :: trades' ∧ replaced.execType = .replaced ∧
        cancelled.execType = .cancelled ∧ entered.execType = .new ∧ (∀ r ∈ trades, r.isTrade = true) ∧
        trades'.map OrderResponse.undrawn = trades.map OrderResponse.undrawn := by
  obtain ⟨⟨q, hinv⟩, hc, hmode⟩ := h.inv
  have hok := h.ok
  obtain ⟨ho, hoid⟩ := Lob.mem_of_find hfind
  have hsane := hok.sane ho
  have htarget := hreq.target_lt hok ho
  have hvalid : modify.p ≠ 0 → c.priceInvalid modify.p = 0 := by
    intro hp
    obtain ⟨i, hi, he⟩ := hreq.price hp
    rw [he, c.priceInvalid_plToPrice hi]
  have hmax : modify.newQty o ≤ globalMaxQty := by
    unfold OrderRequest.newQty
    split
    · exact hq
    · exact hsane.max
  have hnamed : modify.side = s.side := hreq.named (Or.inr hact) s o hfind
  -- the replacement
  obtain ⟨st₁, q₁, hrun₁, hinv₁, hc₁, -, hlob₁, hlog₁, -⟩ := hinv.safe_answer hc hmode hreq.safe
  rw [Lob.step_requeued hact hfind hq hvalid hleft hmove] at hlob₁ hlog₁
  -- the cancellation
  have hfind' : st.book.lob.find cancel.combinedId = some (s, o) := by rw [hid, hfind]
  have hsafe₂ : Safe c st.book.lob cancel := by
    refine ⟨fun e => (by rw [hcancel] at e; cases e), fun _ s' o' hf => ?_, fun e => (by rw [hcancel] at e; cases e)⟩
    rw [hfind'] at hf
    cases hf
    exact hside.trans hnamed
  have hregen : Inv ({ st with gen := gen } : State).book q := hinv
  obtain ⟨st₂, q₂, hrun₂, hinv₂, hc₂, hmode₂, hlob₂, hlog₂, -⟩ :=
    hregen.safe_answer hc hmode hsafe₂
  rw [Lob.step_cancelled hcancel hfind'] at hlob₂ hlog₂
  -- the new order
  have hlob₂' : st₂.book.lob = st.book.lob.remove o.orderId := hlob₂
  have hsafe₃ : Safe c st₂.book.lob new := by
    refine ⟨fun _ => ⟨⟨s, hnew.side⟩, Or.inr (Or.inr (Or.inr ?_))⟩, fun e => ?_, fun e => ?_⟩
    · rw [hnew.p, c.priceToIndex_plToPrice htarget]
      exact htarget
    · rw [hnew.action] at e
      rcases e with e | e <;> cases e
    · rw [hnew.action] at e
      cases e
  obtain ⟨st₃, q₃, hrun₃, hinv₃, hc₃, -, hlob₃, hlog₃, -⟩ := hinv₂.safe_answer hc₂ hmode₂ hsafe₃
  rw [hlob₂', Lob.step_reentered hoff htarget hnew (by omega) (by omega)] at hlob₃ hlog₃
  have hid' : (o.resized (modify.newQty o)).orderId = (State.createOrder new).orderId := hnew.id.symm
  have hqty : (o.resized (modify.newQty o)).qtyRemaining = (State.createOrder new).qtyRemaining := hnew.q.symm
  have hsymbol : (o.resized (modify.newQty o)).symbolId = (State.createOrder new).symbolId := hnew.symbolId.symm
  have hpos : ∀ m ∈ st.book.lob.remove o.orderId s.flip, 1 ≤ m.qtyRemaining := fun m hm =>
    (hok.sane (Lob.mem_remove.mp hm).1).pos
  refine ⟨st₁, st₂, st₃, hrun₁, hrun₂, hrun₃, ?_, _, Lob.cancelRecord c cancel o, Lob.newRecord c new, _, _,
    hlog₁, ?_, rfl, rfl, rfl, fun r hr => ?_,
    (Lob.execute_trades hid' hqty hpos st₂.gen _ _).symm⟩
  · refine hinv₃.alikeBook hinv₁ (hc₁.trans hc₃.symm) (Order.reentered_orderId _) (Order.reentered_level _)
      (Order.reentered_qtyRemaining _) ?_
    rw [hlob₁, hlob₃]
    have hbooks := Lob.execute_reentered (c := c) (a := st.book.lob.remove o.orderId) (s := s) hid' hqty hsymbol st₂.gen
      st.gen (modify.target c o)
    rw [show (State.createOrder new).orderId = o.orderId from hnew.id] at hbooks
    exact hbooks
  · rw [hlog₃, hlog₂, List.append_assoc]
    rfl
  · exact isTrade_iff.mpr (tradeRecords_execType hr)

/-- An offer of which two are sold, and three left. -/
def partlySold : Order := ⟨4294967298, 5, 3, .limit, some 3, 0, 1⟩

/-- It goes to the price of a bid. -/
theorem sample_requeue : ∃ st, Reachable sampleConfig st ∧ st.log.length = 9 ∧
    ∃ st₁ st₂ st₃, st.processRequest (sampleRequest .modify 2 .sell 15 0) = some st₁ ∧
      { st with gen := id }.processRequest (sampleRequest .cancel 2 .sell 0 0) = some st₂ ∧
      st₂.processRequest (sampleRequest .new 2 .sell 15 3) = some st₃ ∧
      AlikeBook (Order.reentered partlySold.orderId) st₃.book st₁.book := by
  obtain ⟨st, hst, hP⟩ := Reachable.of_serve sampleConfig id sampleRequests (fun st => st.log.length = 9 ∧
    WellFormed sampleConfig st.book.lob (sampleRequest .modify 2 .sell 15 0) ∧
    st.book.lob.find (sampleRequest .modify 2 .sell 15 0).combinedId = some (.ask, partlySold)) (by decide +kernel)
  obtain ⟨hlen, hreq, hfind⟩ := of_decide_eq_true hP
  have hnew : Reenters sampleConfig partlySold .ask
      ((sampleRequest .modify 2 .sell 15 0).target sampleConfig partlySold)
      ((sampleRequest .modify 2 .sell 15 0).newQty partlySold - partlySold.executed)
      (sampleRequest .new 2 .sell 15 3) :=
    ⟨rfl, rfl, rfl, rfl, rfl, by decide, by decide⟩
  have hcancel : (sampleRequest .cancel 2 .sell 0 0).action = .cancel := rfl
  obtain ⟨st₁, st₂, st₃, hrun₁, hrun₂, hrun₃, halike, -⟩ := requeue_reenters (by decide) hst hreq rfl hfind (by decide)
    (by decide) (by decide) hcancel rfl rfl hnew id
  exact ⟨st, hst, hlen, st₁, st₂, st₃, hrun₁, hrun₂, hrun₃, halike⟩

end Exchange
