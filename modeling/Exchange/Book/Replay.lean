import Exchange.Book.Blind

/-!
# Replaying the journal rebuilds the book

`restore_from_response` turns an acknowledgement back into a request and runs
it in recover mode; fills and rejections are skipped. The values in an
acknowledgement are already normalised (a replacement carries the price and
quantity it settled on), so the request made of it takes the same branch as
the one it answers. What cannot come back is an order's timestamp and symbol:
books are compared with these two fields blanked (`strip`).

The specification's operations see neither field, so they commute with `strip`
and equal stripped books stay equal, request by request.
-/

namespace Exchange

/-! ## Books without timestamps -/

/-- An order without the fields replay does not restore. -/
def Order.strip (o : Order) : Order := { o with timestamp := 0, symbolId := 0 }

@[simp] theorem Order.strip_orderId (o : Order) : o.strip.orderId = o.orderId := rfl

@[simp] theorem Order.strip_level (o : Order) : o.strip.level = o.level := rfl

@[simp] theorem Order.strip_qtyRemaining (o : Order) : o.strip.qtyRemaining = o.qtyRemaining := rfl

/-- A book without these fields. -/
def Lob.strip (a : Lob) : Lob := fun s => (a s).map Order.strip

/-- Dropping the user and the timestamp is not seen by matching. -/
theorem Order.strip_blind : Order.Blind Order.strip :=
  ⟨fun _ => rfl, fun _ => rfl, fun _ => rfl, fun _ => rfl, fun _ _ _ _ => rfl⟩

/-- Executing is a matter of the stripped book and taker. -/
theorem Lob.execute_strip (c : Config) (gen gen' : Nat → Nat) (a : Lob) (s : Slot) (t : Order)
    (idx : Nat) :
    (a.execute c gen s t idx).lob.strip = (a.strip.execute c gen' s t.strip idx).lob :=
  (congrArg Answer.lob (Order.strip_blind.execute c gen' a s t idx)).symm

/-- An order is taken out of the stripped book as of the other. -/
theorem Lob.remove_strip (a : Lob) (id : Nat) : (a.remove id).strip = a.strip.remove id :=
  (Order.strip_blind.remove a id).symm

/-- Books that are the same but for the stripped fields hold the same ids. -/
theorem Lob.find_strip {a a' : Lob} (h : a'.strip = a.strip) {id : Nat} {s : Slot} {o : Order}
    (hfind : a.find id = some (s, o)) :
    ∃ o', a'.find id = some (s, o') ∧ o'.strip = o.strip := by
  have hstripped : a.strip.find id = _ := Order.strip_blind.find a id
  rw [hfind, ← h] at hstripped
  have hsame := (Order.strip_blind.find a' id).symm.trans hstripped
  obtain ⟨⟨s', o'⟩, hfind', hso⟩ := Option.map_eq_some_iff.mp hsame
  obtain ⟨rfl, ho'⟩ := Prod.mk.inj hso
  exact ⟨o', hfind', ho'⟩

/-- What one book does not hold, the other does not. -/
theorem Lob.find_none_strip {a a' : Lob} (h : a'.strip = a.strip) {id : Nat}
    (hn : a.find id = none) : a'.find id = none := by
  cases hf : a'.find id with
  | none => rfl
  | some so =>
    obtain ⟨o', ho', -⟩ := Lob.find_strip h.symm hf
    rw [hn] at ho'
    cases ho'

/-- The book after a replacement has nothing of the rest of the request, nor of the numbers drawn. -/
theorem Lob.replaceOrder_lob (c : Config) (gen gen' : Nat → Nat) (a : Lob) (s : Slot)
    (req req' : OrderRequest) (o : Order) (target newQty : Nat) :
    (a.replaceOrder c gen' s req' o target newQty).lob = (a.replaceOrder c gen s req o target newQty).lob := by
  unfold Lob.replaceOrder
  split
  · rfl
  split
  · rfl
  split
  · rfl
  split
  · rfl
  · rfl

/-- A replacement is a matter of the stripped book and order. -/
theorem Lob.replaceOrder_strip {c : Config} {a a' : Lob} (h : a'.strip = a.strip) {o o' : Order}
    (ho : o'.strip = o.strip) (gen gen' : Nat → Nat) (s : Slot) (req req' : OrderRequest)
    (target newQty : Nat) :
    (a'.replaceOrder c gen' s req' o' target newQty).lob.strip =
      (a.replaceOrder c gen s req o target newQty).lob.strip := by
  have hbefore : ∀ (a : Lob) (o : Order), (a.replaceOrder c gen s req o target newQty).lob.strip =
      (a.strip.replaceOrder c gen s req o.strip target newQty).lob := fun a o =>
    (congrArg Answer.lob (Order.strip_blind.replaceOrder c gen a s req o target newQty)).symm
  rw [Lob.replaceOrder_lob c gen gen', hbefore, hbefore, h, ho]

/-! ## One request, replayed -/

/-- Market orders carry no price. -/
def PricelessMarket (req : OrderRequest) : Prop :=
  req.action = .new → req.type = .market → req.p = 0

/-- How the records of one request are replayed: the first one is skipped, or
makes a well-formed request that brings an equal book to an equal book; the
others are skipped. -/
structure Replays (c : Config) (a a' : Lob) (ans : Answer) : Prop where
  replay : ∃ ack rest, ans.recs = ack :: rest ∧ (∀ r ∈ rest, State.restoreRequest r = none) ∧
    ((State.restoreRequest ack = none ∧ ans.lob = a) ∨
      ∃ req, State.restoreRequest ack = some req ∧ WellFormed c a' req ∧
        ∀ gen, (a'.step c gen req).lob.strip = ans.lob.strip)

/-- A trade record makes no request when the journal is replayed. -/
theorem restoreRequest_trades {c : Config} {taker : Nat} {s : Slot} {gen : Nat → Nat}
    {fs : List Fill} {r : OrderResponse} (h : r ∈ tradeRecords c taker s gen fs) :
    State.restoreRequest r = none := by
  unfold State.restoreRequest
  rcases tradeRecords_execType h with he | he <;> rw [he]

/-- A modify that names its level and quantity outright. A price of zero stands for the level
the order is at. -/
theorem Lob.step_modify {c : Config} {a : Lob} {req : OrderRequest} {s : Slot} {o : Order}
    (hact : req.action = .modify) (hfind : a.find req.combinedId = some (s, o)) {target : Nat}
    (ht : target < c.maxPriceLevels) (hp : req.p = c.plToPrice target)
    (hp0 : req.p = 0 → o.level = target) (hq0 : req.q ≠ 0) (hmax : req.q ≤ globalMaxQty)
    (gen : Nat → Nat) : a.step c gen req = a.replaceOrder c gen s req o target req.q := by
  have hvalid : ¬ (req.p ≠ 0 ∧ c.priceInvalid req.p ≠ 0) := fun h =>
    h.2 (by rw [hp, c.priceInvalid_plToPrice ht])
  have htarget : req.target c o = target := by
    unfold OrderRequest.target
    split
    · rw [hp, c.priceToIndex_plToPrice ht]
    · rename_i hzero
      exact hp0 (not_not.mp hzero)
  have hqty : req.newQty o = req.q := if_pos hq0
  unfold Lob.step
  rw [hact]
  unfold Lob.modifyOrder
  rw [hfind]
  dsimp only
  rw [if_neg (Nat.not_lt.mpr hmax), if_neg hvalid, htarget, hqty]

/-- A `Replaced` record, replayed: the request it makes asks for the level and
the quantity the record settled on. -/
theorem replays_replaced {c : Config} {a a' : Lob}
    (h : a'.strip = a.strip) {req : OrderRequest} {s : Slot} {o : Order}
    (hfind : a.find req.combinedId = some (s, o)) (hs : req.side = s.side)
    (ht : req.target c o < c.maxPriceLevels ∧
      (c.plToPrice (req.target c o) = 0 → o.level = req.target c o)) (hq : 1 ≤ req.newQty o)
    (hmax : req.newQty o ≤ globalMaxQty) (gen : Nat → Nat) {ans : Answer}
    (hans : ans.lob = (a.replaceOrder c gen s req o (req.target c o) (req.newQty o)).lob)
    {rest : List OrderResponse}
    (hrecs : ans.recs = Lob.replaceRecord c req o (req.target c o) (req.newQty o) :: rest)
    (hrest : ∀ r ∈ rest, State.restoreRequest r = none) : Replays c a a' ans := by
  obtain ⟨o', hfind', ho'⟩ := Lob.find_strip h hfind
  have hlevel : o'.level = o.level := by rw [← o'.strip_level, ho', o.strip_level]
  obtain ⟨req', hreq'⟩ : ∃ req', State.restoreRequest (Lob.replaceRecord c req o (req.target c o)
      (req.newQty o)) = some req' := ⟨_, rfl⟩
  have hid : req'.combinedId = req.combinedId := by
    obtain rfl := Option.some.inj hreq'
    exact combinedOrderId_parts req.combinedId_lt
  have hside : req'.side = req.side := by obtain rfl := Option.some.inj hreq'; rfl
  have hact : req'.action = .modify := by obtain rfl := Option.some.inj hreq'; rfl
  have hp : req'.p = c.plToPrice (req.target c o) := by obtain rfl := Option.some.inj hreq'; rfl
  have hqty : req'.q = req.newQty o := by obtain rfl := Option.some.inj hreq'; rfl
  refine ⟨_, _, hrecs, hrest, Or.inr ⟨req', hreq', ⟨⟨s, hside.trans hs⟩, fun _ s' x hx => ?_,
    fun e => ?_, fun _ => ⟨_, ht.1, hp⟩⟩, fun gen' => ?_⟩⟩
  · rw [hid, hfind'] at hx
    cases hx
    exact hside.trans hs
  · rw [hact] at e
    cases e
  · have hzero : req'.p = 0 → o'.level = req.target c o := by
      rw [hp, hlevel]
      exact ht.2
    have hstep := Lob.step_modify hact (hid.symm ▸ hfind') ht.1 hp hzero (by omega) (by omega) gen'
    rw [hstep, hans, hqty]
    exact Lob.replaceOrder_strip h ho' gen gen' s req req' _ _

/-- Replaying the records of any outcome. -/
theorem Lob.Outcome.replays {c : Config} {a a' : Lob} (hok : a.Ok c)
    (h : a'.strip = a.strip) {req : OrderRequest} (hK : PricelessMarket req)
    (hreq : WellFormed c a req) {gen : Nat → Nat} {ans : Answer} (hout : Outcome c gen a req ans) :
    Replays c a a' ans := by
  -- the level a replacement asks for is one of the array's
  have htarget : ∀ {s o}, a.find req.combinedId = some (s, o) → req.target c o < c.maxPriceLevels ∧
      (c.plToPrice (req.target c o) = 0 → o.level = req.target c o) := by
    intro s o hfind
    unfold OrderRequest.target
    split
    · rename_i hp
      obtain ⟨i, hi, he⟩ := hreq.price hp
      rw [he, c.priceToIndex_plToPrice hi]
      exact ⟨hi, fun hzero => absurd (he.trans hzero) hp⟩
    · exact ⟨(hok.level (mem_of_find hfind).1).2, fun _ => rfl⟩
  have hqty : ∀ {s o}, a.find req.combinedId = some (s, o) → req.q ≤ globalMaxQty →
      1 ≤ req.newQty o ∧ req.newQty o ≤ globalMaxQty := by
    intro s o hfind hq
    have hsane := hok.sane (mem_of_find hfind).1
    unfold OrderRequest.newQty
    split
    · omega
    · exact ⟨hsane.pos.trans hsane.le, hsane.max⟩
  cases hout with
  | rejected qRem code => exact ⟨_, _, rfl, fun r hr => absurd hr (by simp), Or.inl ⟨rfl, rfl⟩⟩
  | @kept s o hact hfind hq hvalid hexec hlevel hqty' =>
    refine replays_replaced h hfind (hreq.named (Or.inr hact) s o hfind) (htarget hfind)
      (hqty hfind hq).1 (hqty hfind hq).2 gen ?_ rfl (fun r hr => absurd hr (by simp))
    rw [replaceOrder, if_neg (Nat.not_lt.mpr hexec), if_pos ⟨hlevel, hqty'⟩]
  | @finished s o hact hfind hq hvalid hexec hmove =>
    refine replays_replaced h hfind (hreq.named (Or.inr hact) s o hfind) (htarget hfind)
      (hqty hfind hq).1 (hqty hfind hq).2 gen ?_ rfl (fun r hr => ?_)
    · rw [replaceOrder, if_neg (by omega), if_neg hmove, if_pos (by omega)]
    · rw [List.mem_singleton.mp hr]
      rfl
  | @requeued s o hact hfind hq hvalid hexec hmove =>
    refine replays_replaced h hfind (hreq.named (Or.inr hact) s o hfind) (htarget hfind)
      (hqty hfind hq).1 (hqty hfind hq).2 gen ?_ rfl (fun r hr => restoreRequest_trades hr)
    rw [replaceOrder, if_neg (by omega), if_neg ?_, if_neg (by omega), if_pos hmove]
    intro hkeep
    rcases hmove with hl | hlt
    · exact hl hkeep.1
    · omega
  | @shrunk s o hact hfind hq hvalid hexec hlevel hlt =>
    refine replays_replaced h hfind (hreq.named (Or.inr hact) s o hfind) (htarget hfind)
      (hqty hfind hq).1 (hqty hfind hq).2 gen ?_ rfl (fun r hr => absurd hr (by simp))
    rw [replaceOrder, if_neg (by omega), if_neg (fun hkeep => by omega), if_neg (by omega),
      if_neg (fun hmove => hmove.elim (fun hl => hl hlevel) (by omega))]
  | @cancelled s o hact hfind =>
    obtain ⟨hmem, hid⟩ := mem_of_find hfind
    obtain ⟨o', hfind', ho'⟩ := find_strip h hfind
    obtain ⟨req', hreq'⟩ : ∃ req', State.restoreRequest (cancelRecord c req o) = some req' := ⟨_, rfl⟩
    have hid' : req'.combinedId = req.combinedId := by
      obtain rfl := Option.some.inj hreq'
      rw [← hid]
      exact combinedOrderId_parts (hok.sane hmem).id
    have hside : req'.side = s.side := by
      obtain rfl := Option.some.inj hreq'
      exact hreq.named (Or.inl hact) s o hfind
    have hact' : req'.action = .cancel := by obtain rfl := Option.some.inj hreq'; rfl
    have hp : req'.p = c.plToPrice o.level := by obtain rfl := Option.some.inj hreq'; rfl
    refine ⟨_, _, rfl, fun r hr => absurd hr (by simp), Or.inr ⟨req', hreq', ⟨⟨s, hside⟩,
      fun _ s' x hx => ?_, fun e => ?_, fun _ => ⟨_, (hok.level hmem).2, hp⟩⟩, fun gen' => ?_⟩⟩
    · rw [hid', hfind'] at hx
      cases hx
      exact hside
    · rw [hact'] at e
      cases e
    · have hoid : o'.orderId = o.orderId := by rw [← o'.strip_orderId, ho', o.strip_orderId]
      unfold Lob.step
      rw [hact']
      unfold Lob.cancelOrder
      rw [hid', hfind']
      dsimp only
      rw [remove_strip, remove_strip, h, hoid]
  | entered hact hnone hvalid hp hq hmax =>
    obtain ⟨s, hs⟩ := hreq.side
    obtain ⟨req', hreq'⟩ : ∃ req', State.restoreRequest (newRecord c req) = some req' := ⟨_, rfl⟩
    have hid' : req'.combinedId = req.combinedId := by
      obtain rfl := Option.some.inj hreq'
      exact combinedOrderId_parts req.combinedId_lt
    have hside : req'.side = req.side := by obtain rfl := Option.some.inj hreq'; rfl
    have hact' : req'.action = .new := by obtain rfl := Option.some.inj hreq'; rfl
    have hp' : req'.p = req.p := by obtain rfl := Option.some.inj hreq'; rfl
    have hq' : req'.q = req.q := by obtain rfl := Option.some.inj hreq'; rfl
    -- a market order is known by its missing price
    have htype : req'.type = req.type := by
      obtain rfl := Option.some.inj hreq'
      show (if req.p = 0 then OrderType.market else .limit) = req.type
      rcases hreq.type hact with ht | ht
      · rw [ht, if_neg (fun e => hp ⟨e.le, ht⟩)]
      · rw [ht, if_pos (hK hact ht)]
    have hcreate : (State.createOrder req').strip = (State.createOrder req).strip := by
      unfold State.createOrder Order.strip
      rw [hid', hq', htype]
    have hindex : State.newIndex c req' = State.newIndex c req := by
      unfold State.newIndex
      rw [htype, hside, hp']
    have hslot : req'.slot = req.slot := by
      unfold OrderRequest.slot
      rw [hside]
    refine ⟨_, _, rfl, fun r hr => restoreRequest_trades hr, Or.inr ⟨req', hreq',
      ⟨⟨s, hside.trans hs⟩, fun e => ?_, fun _ => ?_, fun hne => ?_⟩, fun gen' => ?_⟩⟩
    · rw [hact'] at e
      exact absurd e (by decide)
    · rw [htype]
      exact hreq.type hact
    · rw [hp'] at hne ⊢
      exact hreq.price hne
    · have hstep : a'.step c gen' req' = (a'.execute c gen' req.slot (State.createOrder req')
          (State.newIndex c req)).after (newRecord c req') := by
        unfold Lob.step
        rw [hact']
        dsimp only
        rw [if_neg (fun hv => hv.2 (by rw [hp']; exact hvalid (htype ▸ hv.1)))]
        unfold Lob.newOrder
        rw [hid', find_none_strip h hnone, if_neg (by simp), hp', htype, if_neg hp, hq',
          if_neg (by omega), hslot, hindex]
      rw [hstep, Answer.after_lob, Answer.after_lob, execute_strip c gen' gen',
        execute_strip c gen gen', hcreate, h]

/-! ## The code's replay -/

/-- Feeds records to `restore_from_response`, one after the other. -/
def State.replay (st : State) : List OrderResponse → Option State
  | [] => some st
  | r :: rs => (st.restoreFromResponse r).bind (State.replay · rs)

/-- A book being rebuilt that reads as `a`, stripped, and has sent nothing. -/
structure Rebuilt (c : Config) (a : Lob) (st : State) : Prop where
  inv : ∃ q, Inv st.book q
  cfg : st.book.cfg = c
  mode : st.book.recoverMode = false
  lob : st.book.lob.strip = a.strip
  silent : st.log = []

/-- The invariant does not look at the mode. -/
theorem Inv.withMode {b : OrderBook} {q : Nat → List Nat} (h : Inv b q) (m : Bool) :
    Inv { b with recoverMode := m } q :=
  ⟨⟨h.queued, h.counted, h.alive, h.chained, h.inRange, h.held, h.fresh⟩, h.full, h.indexed⟩

/-- `restore_from_response` of a record that makes a well-formed request. -/
theorem Rebuilt.restore {c : Config} {a a' : Lob} {st : State} (h : Rebuilt c a st)
    {r : OrderResponse} {req : OrderRequest} (hr : State.restoreRequest r = some req)
    (hreq : WellFormed c st.book.lob req)
    (hstep : ∀ gen, (Lob.step c gen st.book.lob req).lob.strip = a'.strip) :
    ∃ st', st.restoreFromResponse r = some st' ∧ Rebuilt c a' st' := by
  obtain ⟨q, hq⟩ := h.inv
  have hq' : Inv ({ st with book := { st.book with recoverMode := true } } : State).book q :=
    hq.withMode true
  obtain ⟨st₁, hrun, hans⟩ := hq'.answers h.cfg hreq
  obtain ⟨q', hq', hlob⟩ := hans.lob
  refine ⟨{ st₁ with book := { st₁.book with recoverMode := false } }, ?_, ⟨q', hq'.withMode false⟩,
    hans.cfg.trans h.cfg, rfl, ?_, ?_⟩
  · unfold State.restoreFromResponse
    rw [hr]
    dsimp only
    rw [hrun]
    rfl
  · show st₁.book.lob.strip = a'.strip
    rw [hq'.lob_eq, hlob]
    exact hstep st.gen
  · -- nothing is sent while recovering
    have hlog : st₁.log = st.log ++ [] := hans.log
    rw [List.append_nil, h.silent] at hlog
    exact hlog

/-- Replaying the record brings a book that reads as `a` to one that reads as `a'`. -/
def Restores (c : Config) (a : Lob) (r : OrderResponse) (a' : Lob) : Prop :=
  ∀ st, Rebuilt c a st → ∃ st', st.restoreFromResponse r = some st' ∧ Rebuilt c a' st'

/-- Replaying the records, one after the other, brings a book that reads as the first to one
that reads as the last, whatever numbers are drawn between them. -/
inductive Follows (c : Config) : Lob → List OrderResponse → Lob → Prop
  | nil (a : Lob) : Follows c a [] a
  | cons {a a₁ a' : Lob} {r : OrderResponse} {rs : List OrderResponse} (h : Restores c a r a₁)
      (hrest : Follows c a₁ rs a') : Follows c a (r :: rs) a'

namespace Follows

variable {c : Config} {a a₁ a' : Lob} {rs rs' : List OrderResponse}

/-- Nothing replayed, nothing changed. -/
theorem eq_of_nil (h : Follows c a [] a') : a' = a := by
  cases h
  rfl

/-- The first record, and the rest of them. -/
theorem uncons {r : OrderResponse} (h : Follows c a (r :: rs) a') :
    ∃ a₁, Restores c a r a₁ ∧ Follows c a₁ rs a' := by
  cases h with
  | cons hr hrest => exact ⟨_, hr, hrest⟩

/-- One stretch of records after another. -/
theorem append (h : Follows c a rs a₁) (h' : Follows c a₁ rs' a') : Follows c a (rs ++ rs') a' := by
  induction h with
  | nil _ => exact h'
  | cons hr _ ih => exact .cons hr (ih h')

/-- Records that make no request. -/
theorem skip (a : Lob) : ∀ {rs : List OrderResponse}, (∀ r ∈ rs, State.restoreRequest r = none) →
    Follows c a rs a
  | [], _ => .nil a
  | r :: rs, h => by
    refine .cons (fun st hst => ⟨st, ?_, hst⟩) (skip a fun r' hr' => h r' (List.mem_cons_of_mem _ hr'))
    unfold State.restoreFromResponse
    rw [h r List.mem_cons_self]

/-- The engine's replay goes through what the records say. -/
theorem replay (h : Follows c a rs a') {st : State} (hst : Rebuilt c a st) :
    ∃ st', st.replay rs = some st' ∧ Rebuilt c a' st' := by
  induction h generalizing st with
  | nil _ => exact ⟨st, rfl, hst⟩
  | cons hr _ ih =>
    obtain ⟨st₁, hrun, hst₁⟩ := hr st hst
    obtain ⟨st', hrest, hst'⟩ := ih hst₁
    refine ⟨st', ?_, hst'⟩
    rw [State.replay, hrun]
    exact hrest

end Follows

/-- The first record of a request brings the whole of it about, and the others nothing. -/
theorem Lob.Outcome.restores {c : Config} {a : Lob} (hok : a.Ok c) {req : OrderRequest}
    (hK : PricelessMarket req) (hreq : WellFormed c a req) {gen : Nat → Nat} {ans : Answer}
    (hout : Outcome c gen a req ans) : ∃ ack rest, ans.recs = ack :: rest ∧ Restores c a ack ans.lob ∧
      ∀ r ∈ rest, State.restoreRequest r = none := by
  obtain ⟨ack, rest, hrecs, hrest, -⟩ := (hout.replays hok rfl hK hreq).replay
  refine ⟨ack, rest, hrecs, fun st hst => ?_, hrest⟩
  obtain ⟨ack', rest', hrecs', -, hack⟩ := (hout.replays hok hst.lob hK hreq).replay
  obtain ⟨rfl, rfl⟩ := List.cons.inj (hrecs.symm.trans hrecs')
  rcases hack with ⟨hskip, hsame⟩ | ⟨req', hreq', hwf, hstep⟩
  · refine ⟨st, ?_, hsame ▸ hst⟩
    unfold State.restoreFromResponse
    rw [hskip]
  · exact hst.restore hreq' hwf hstep

/-- The records of a request, replayed. -/
theorem Lob.Outcome.follows {c : Config} {a : Lob} (hok : a.Ok c) {req : OrderRequest}
    (hK : PricelessMarket req) (hreq : WellFormed c a req) {gen : Nat → Nat} {ans : Answer}
    (hout : Outcome c gen a req ans) : Follows c a ans.recs ans.lob := by
  obtain ⟨ack, rest, hrecs, hack, hrest⟩ := hout.restores hok hK hreq
  rw [hrecs]
  exact .cons hack (.skip ans.lob hrest)

/-- A run and its replay go side by side. -/
theorem ReachableBy.follows {c : Config} {st : State} (h : ReachableBy PricelessMarket c st) :
    Follows c (fun _ => []) st.log st.book.lob := by
  induction h with
  | fresh _ =>
    rw [fresh_lob]
    exact .nil _
  | step hst hK hreq hrun ih =>
    obtain ⟨hlob, hlog, -⟩ := hst.reachable.step_answer hreq hrun
    rw [hlog, hlob]
    exact ih.append ((Lob.step_outcome ..).follows hst.reachable.ok hK hreq)

/-- A book without orders. -/
theorem rebuilt_fresh (c : Config) (gen : Nat → Nat) : Rebuilt c (fun _ => []) ⟨.fresh c, gen, []⟩ :=
  ⟨⟨_, fresh_inv c⟩, rfl, rfl, by rw [fresh_lob], rfl⟩

/-! ## Equal sides are equal books -/

/-- The same resting orders in the same queues, the same levels, counters and
best levels, but for timestamps and symbols. -/
structure SameBook (b b' : OrderBook) : Prop where
  ids : ∀ id, (b'.activeOrders id).isSome = (b.activeOrders id).isSome
  levels : b'.activeLevels = b.activeLevels
  best : b'.bestLevels = b.bestLevels
  chain : ∀ s, b'.worseWalk s = b.worseWalk s
  counters : ∀ i < b.cfg.maxPriceLevels, b'.priceArray i = b.priceArray i
  queues : ∀ i < b.cfg.maxPriceLevels,
    (b'.queueOf i).map (fun p => (b'.orders p).map Order.strip) =
      (b.queueOf i).map (fun p => (b.orders p).map Order.strip)

/-- An id is in use when an order of the book carries it. -/
theorem Inv.mem_ids {b : OrderBook} {q : Nat → List Nat} (h : Inv b q) {id : Nat} :
    (b.activeOrders id).isSome = true ↔ ∃ s, ∃ o ∈ b.lob.strip s, o.orderId = id := by
  unfold Lob.strip
  rw [h.lob_eq]
  constructor
  · intro hid
    obtain ⟨p, hp⟩ := Option.isSome_iff_exists.mp hid
    obtain ⟨s, i, o, hfind, -, -, -, he, -⟩ := h.active_some hp
    exact ⟨s, o.strip, List.mem_map_of_mem (Lob.mem_of_find hfind).1, he⟩
  · intro ho
    obtain ⟨s, o', ho', he⟩ := ho
    obtain ⟨o, ho, rfl⟩ := List.mem_map.mp ho'
    cases hact : b.activeOrders id with
    | some p => rfl
    | none =>
      have hne : o.orderId ≠ id := Lob.find_eq_none (h.active_none hact) ho
      exact absurd he hne

section Alike

variable {b b' : OrderBook} {q q' : Nat → List Nat} {f : Order → Order}

/-- A level's queue is what its side holds at it. -/
theorem Inv.contents_map (h : Inv b q) (hf : ∀ o, (f o).level = o.level) {s : Slot} {i : Nat}
    (hi : i ∈ b.activeLevels s) :
    (contents b.orders q i).map f = ((b.lob s).map f).filter (fun o => o.level = i) := by
  rw [h.lob_eq, ← h.filter_flat hi, List.filter_map]
  refine congrArg _ (List.filter_congr fun o _ => ?_)
  rw [Function.comp_apply, hf]

/-- Books with the same sides, as far as `f` sees them, have the same levels. -/
theorem Inv.levels_alike (h : Inv b q) (h' : Inv b' q') (hf : ∀ o, (f o).level = o.level)
    (hlob : ∀ s, (b'.lob s).map f = (b.lob s).map f) : b'.activeLevels = b.activeLevels := by
  funext s
  refine OrdSet.ext_mem (fun i => ?_)
  have hmap : ∀ a : Lob, (∃ o ∈ a s, o.level = i) ↔ ∃ o ∈ (a s).map f, o.level = i := by
    intro a
    simp [hf]
  rw [h.mem_levels, h'.mem_levels, hmap b.lob, hmap b'.lob, hlob]

/-- They have the same queues. -/
theorem Inv.contents_alike (h : Inv b q) (h' : Inv b' q') (hf : ∀ o, (f o).level = o.level)
    (hlob : ∀ s, (b'.lob s).map f = (b.lob s).map f) (i : Nat) :
    (contents b'.orders q' i).map f = (contents b.orders q i).map f := by
  have hlevels := h.levels_alike h' hf hlob
  by_cases hact : ∃ s, i ∈ b.activeLevels s
  · obtain ⟨s, hs⟩ := hact
    rw [h.contents_map hf hs, h'.contents_map hf (hlevels ▸ hs), hlob]
  · -- a level that is not active is empty in both books
    have hnil : q i = [] := by_contra fun hne => hact (h.held hne)
    have hnil' : q' i = [] := by_contra fun hne => hact (hlevels ▸ h'.held hne)
    unfold contents
    rw [hnil, hnil']
    rfl

/-- A queue, read off the links. -/
theorem Inv.queueOf_map (h : Inv b q) (f : Order → Order) {i : Nat} (hi : i < b.cfg.maxPriceLevels) :
    (b.queueOf i).map (fun p => (b.orders p).map f) = ((contents b.orders q i).map f).map some := by
  unfold contents
  rw [h.queueOf_eq hi, List.map_map, List.map_map]
  refine List.map_congr_left (fun p hp => ?_)
  rw [(h.alive.deref hp).1]
  rfl

/-- The counters, worked out from the queue. -/
theorem Inv.counters (h : Inv b q) (hf : ∀ o, (f o).qtyRemaining = o.qtyRemaining) (i : Nat) :
    b.priceArray i =
      ⟨(((contents b.orders q i).map f).map fun o => (o.qtyRemaining : BitVec 64)).sum,
        ((contents b.orders q i).map f).length⟩ := by
  have hc := h.counted.count i
  have ht := h.counted.total i
  have hweights : ((contents b.orders q i).map f).map (fun o => (o.qtyRemaining : BitVec 64)) =
      (q i).map (weight b.orders) := by
    unfold contents
    rw [List.map_map, List.map_map]
    refine List.map_congr_left (fun p _ => ?_)
    rw [Function.comp_apply, Function.comp_apply, hf]
    rfl
  rw [hweights, List.length_map]
  unfold contents
  rw [List.length_map, ← hc]
  exact congrArg (fun t => PriceLevel.mk t (b.priceArray i).orderCount) ht

end Alike

/-- Books that read the same are the same, field by field. -/
theorem Inv.sameBook {b b' : OrderBook} {q q' : Nat → List Nat} (h : Inv b q) (h' : Inv b' q')
    (hcfg : b'.cfg = b.cfg) (hlob : b'.lob.strip = b.lob.strip) : SameBook b b' := by
  have hsides : ∀ s, (b'.lob s).map Order.strip = (b.lob s).map Order.strip := congrFun hlob
  have hlevels := h.levels_alike h' Order.strip_level hsides
  have hqueue := h.contents_alike h' Order.strip_level hsides
  have hwalk : ∀ s, levelsOf b'.activeLevels s = levelsOf b.activeLevels s := fun s => by
    rw [hlevels]
  refine ⟨fun id => ?_, hlevels, ?_, fun s => ?_, fun i _ => ?_, fun i hi => ?_⟩
  · rw [Bool.eq_iff_iff, h.mem_ids, h'.mem_ids, hlob]
  · funext s
    rw [h.chained.best, h'.chained.best, hwalk]
  · rw [h.worseWalk_eq, h'.worseWalk_eq, hwalk]
  · rw [h.counters Order.strip_qtyRemaining, h'.counters Order.strip_qtyRemaining, hqueue]
  · rw [h.queueOf_map _ hi, h'.queueOf_map _ (hcfg ▸ hi), hqueue]

/-- Feeding the records of any run back to a fresh book gives the live book
again, and sends nothing. Nothing depends on the sign of prices: a price of zero,
which means "as it was", is only ever recorded for an order that stays where it is. -/
theorem replay_rebuilds_book {c : Config} {st : State} (h : ReachableBy PricelessMarket c st) (gen : Nat → Nat) :
    ∃ st', State.replay ⟨.fresh c, gen, []⟩ st.log = some st' ∧ SameBook st.book st'.book ∧
      st'.out = [] := by
  obtain ⟨st', hrep, hreb⟩ := h.follows.replay (rebuilt_fresh c gen)
  obtain ⟨⟨q, hq⟩, hc, -⟩ := h.reachable.inv
  obtain ⟨q', hq'⟩ := hreb.inv
  refine ⟨st', hrep, hq.sameBook hq' (hreb.cfg.trans hc.symm) hreb.lob, ?_⟩
  exact List.map_eq_nil_iff.mp hreb.silent

/-- The sample run, with a market order at its end. -/
theorem sample_replay : ∃ st, ReachableBy PricelessMarket sampleConfig st ∧ st.log.length = 12 ∧
    ∃ st', State.replay ⟨.fresh sampleConfig, id, []⟩ st.log = some st' ∧
      SameBook st.book st'.book ∧ st'.out = [] := by
  obtain ⟨st, hst, hlen⟩ := ReachableBy.of_serve PricelessMarket sampleConfig id
    (sampleRequests ++ [sampleRequest .new 5 .sell 0 8])
    (by unfold PricelessMarket; decide) (fun st => st.log.length = 12) (by decide +kernel)
  exact ⟨st, hst, of_decide_eq_true hlen, replay_rebuilds_book hst id⟩

end Exchange
