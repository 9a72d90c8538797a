import Exchange.Book.Execute

/-!
# The records of any request

`Refine.lean` follows requests that are well formed. The gateway relies on less
and has no such promise: whatever the request and whatever became of the book,
a request that is answered sends one acknowledgement first (`New`, `Replaced`,
`Cancelled` or `Rejected`) and trade records after it.

The book's configuration and mode stay as they are under every operation
(`Keeps`), so that the records of a run of operations can be put together.
-/

namespace Exchange

/-- `b'` has the configuration and the mode of `b`. -/
structure Keeps (b b' : OrderBook) : Prop where
  cfg : b'.cfg = b.cfg
  mode : b'.recoverMode = b.recoverMode

namespace Keeps

variable {b b' b'' : OrderBook}

theorem trans (h : Keeps b b') (h' : Keeps b' b'') : Keeps b b'' :=
  ⟨h'.cfg.trans h.cfg, h'.mode.trans h.mode⟩

theorem of_same (h : SameOrders b b') : Keeps b b' := ⟨h.cfg, h.recoverMode⟩

theorem insertOrderToLevel {pl order : Nat} (h : b.insertOrderToLevel pl order = some b') :
    Keeps b b' := by
  unfold OrderBook.insertOrderToLevel at h
  obtain ⟨o, -, h⟩ := Option.bind_eq_some_iff.mp h
  obtain ⟨tail, -, h⟩ := Option.bind_eq_some_iff.mp h
  obtain rfl := Option.some.inj h
  exact ⟨rfl, rfl⟩

theorem removeOrderFromLevel {ptr : Nat} (h : b.removeOrderFromLevel ptr = some b') : Keeps b b' :=
  of_same (.removeOrderFromLevel h)

theorem removeIfEmpty {pl : Nat} {side : Side} (h : b.removeIfEmpty pl side = some b') :
    Keeps b b' :=
  of_same (.removeIfEmpty h)

theorem getOrCreatePriceLevel {pl : Nat} {side : Side} (h : b.getOrCreatePriceLevel pl side = some b') :
    Keeps b b' :=
  of_same (.getOrCreatePriceLevel h)

end Keeps

/-- Trade records of one symbol. -/
def TradesOf (symbolId : UInt32) (rs : List OrderResponse) : Prop :=
  ∀ r ∈ rs, r.isTrade = true ∧ r.symbolId = symbolId

/-- The records of two runs of trades. -/
theorem TradesOf.append {sid : UInt32} {rs rs' : List OrderResponse} (h : TradesOf sid rs)
    (h' : TradesOf sid rs') : TradesOf sid (rs ++ rs') := by
  intro r hr
  rcases List.mem_append.mp hr with hr | hr
  · exact h r hr
  · exact h' r hr

theorem TradesOf.nil (sid : UInt32) : TradesOf sid [] := fun _ h => absurd h List.not_mem_nil

/-- From `st` to `st'` nothing but trade records was sent. -/
def Trades (st st' : State) : Prop :=
  ∃ rs, Emits st st' rs ∧ TradesOf st.book.cfg.symbolId rs

namespace Trades

variable {st st' st'' : State}

theorem trans (h : Trades st st') (h' : Trades st' st'') : Trades st st'' := by
  obtain ⟨rs, he, ht⟩ := h
  obtain ⟨rs', he', ht'⟩ := h'
  rw [he.cfg] at ht'
  exact ⟨rs ++ rs', he.trans he', ht.append ht'⟩

/-- Book edits send nothing. -/
theorem edit {b : OrderBook} (h : Keeps st.book b) : Trades st { st with book := b } :=
  ⟨[], Emits.silent st st.gen h.cfg h.mode, .nil _⟩

theorem refl (st : State) : Trades st st := edit ⟨rfl, rfl⟩

/-- Nothing sent is taken back. -/
theorem sent_le (h : Trades st st') : st.out.length ≤ st'.out.length := by
  obtain ⟨rs, he, -⟩ := h
  have hlen := congrArg List.length he.log
  unfold State.log at hlen
  rw [List.length_append, List.length_map, List.length_map] at hlen
  omega

/-- The record of one party to a trade. -/
theorem fill (st : State) (left id execId : Nat) (side : Side) (p : Int) (q : Nat) (code : RejectCode) :
    Trades st (st.sendResponse (State.fillType left) id execId side p q left code) := by
  refine ⟨_, Emits.send .., fun r hr => ?_⟩
  rw [List.mem_singleton.mp hr]
  exact ⟨isTrade_iff.mpr (fillType_trade left), rfl⟩

/-- A trade sends two records, both trades. -/
theorem trade (st : State) (taker maker : Nat) (s : Slot) (oppo : Nat) (t m : Order) :
    Trades st (st.trade taker maker s oppo t m) := by
  unfold State.trade
  dsimp only
  refine Trades.trans ?_ ((Trades.fill ..).trans (Trades.fill ..))
  exact ⟨[], Emits.silent st _ rfl rfl, .nil _⟩

end Trades

/-- The inner loop of `match` sends trade records only. -/
theorem matchMakers_only_trades {taker : Nat} {s : Slot} {oppo : Nat} (fuel : Nat) :
    ∀ {maker : OrderNode} {st st' : State}, State.matchMakers taker s oppo fuel maker st = some st' →
      Trades st st' := by
  induction fuel with
  | zero =>
    intro maker st st' h
    cases h
  | succ fuel ih =>
    intro maker st st' h
    rw [State.matchMakers] at h
    obtain ⟨t, -, h⟩ := Option.bind_eq_some_iff.mp h
    split at h
    · obtain rfl := Option.some.inj h
      exact .refl st
    · obtain ⟨ptr, -, h⟩ := Option.bind_eq_some_iff.mp h
      obtain ⟨m, -, h⟩ := Option.bind_eq_some_iff.mp h
      refine (Trades.trade st taker ptr s oppo t m).trans ?_
      split at h
      · exact ih h
      · obtain ⟨b, hb, h⟩ := Option.bind_eq_some_iff.mp h
        obtain ⟨next, -, h⟩ := Option.bind_eq_some_iff.mp h
        have hkeep := Keeps.removeOrderFromLevel hb
        exact (Trades.edit (b := b.delete ptr) ⟨hkeep.cfg, hkeep.mode⟩).trans (ih h)

/-- The outer loop of `match` sends trade records only. -/
theorem matchLevels_only_trades {taker : Nat} {s : Slot} {priceIdx : Nat} (fuel : Nat) :
    ∀ {st st' : State}, State.matchLevels taker s priceIdx fuel st = some st' → Trades st st' := by
  induction fuel with
  | zero =>
    intro st st' h
    cases h
  | succ fuel ih =>
    intro st st' h
    rw [State.matchLevels] at h
    split at h
    · obtain rfl := Option.some.inj h
      exact .refl st
    · obtain ⟨t, -, h⟩ := Option.bind_eq_some_iff.mp h
      split at h
      · obtain rfl := Option.some.inj h
        exact .refl st
      · split at h
        · obtain ⟨maker, -, h⟩ := Option.bind_eq_some_iff.mp h
          obtain ⟨st₁, hmakers, h⟩ := Option.bind_eq_some_iff.mp h
          obtain ⟨b, hb, h⟩ := Option.bind_eq_some_iff.mp h
          exact (matchMakers_only_trades _ hmakers).trans ((Trades.edit (Keeps.removeIfEmpty hb)).trans (ih h))
        · obtain rfl := Option.some.inj h
          exact .refl st

/-- `match` sends trade records only. -/
theorem matchTaker_only_trades {st st' : State} {taker : Nat} {side : Side} {priceIdx : Nat}
    (h : st.matchTaker taker side priceIdx = some st') : Trades st st' := by
  unfold State.matchTaker at h
  obtain ⟨s, -, h⟩ := Option.bind_eq_some_iff.mp h
  obtain ⟨st₁, hlevels, h⟩ := Option.bind_eq_some_iff.mp h
  obtain ⟨t, -, h⟩ := Option.bind_eq_some_iff.mp h
  refine (matchLevels_only_trades _ hlevels).trans ?_
  split at h
  · obtain rfl := Option.some.inj h
    exact .edit ⟨rfl, rfl⟩
  · obtain ⟨b, hb, h⟩ := Option.bind_eq_some_iff.mp h
    obtain ⟨b', hb', h⟩ := Option.bind_eq_some_iff.mp h
    obtain rfl := Option.some.inj h
    have hkeep := (Keeps.getOrCreatePriceLevel hb).trans (Keeps.insertOrderToLevel hb')
    exact .edit ⟨hkeep.cfg, hkeep.mode⟩

/-! ## Acknowledgements -/

/-- `check_exec(exec_type, EXEC_RESP)`. -/
def OrderResponse.isResp (r : OrderResponse) : Bool := checkExec r.execType execResp

/-- `is_resp` reads the type only. -/
theorem isResp_of {r : OrderResponse} {e : ExecType} {b : Bool} (h : r.execType = e)
    (he : checkExec e execResp = b) : r.isResp = b := by
  unfold OrderResponse.isResp
  rw [h, he]

/-- A trade record acknowledges nothing. -/
theorem isResp_trade {r : OrderResponse} (h : r.isTrade = true) : r.isResp = false := by
  rcases isTrade_iff.mp h with he | he
  · exact isResp_of he (by decide)
  · exact isResp_of he (by decide)

/-- From `st` to `st'` one acknowledgement was sent, and trade records after it. -/
def Acknowledges (st st' : State) : Prop :=
  ∃ ack rs, Emits st st' (ack :: rs) ∧ ack.isResp = true ∧
    ack.symbolId = st.book.cfg.symbolId ∧ TradesOf st.book.cfg.symbolId rs

/-- How a request is answered: it is refused and the book is as it was, or it is
served, acknowledged first by a record that does not refuse it. -/
inductive Answered (st : State) (req : OrderRequest) : State → Prop
  | refused (qRem : Nat) (code : RejectCode) : Answered st req (st.reject req qRem code)
  | served {st' : State} {ack : OrderResponse} {rs : List OrderResponse}
      (hsent : Emits st st' (ack :: rs)) (hresp : ack.isResp = true)
      (hserved : ack.execType ≠ .rejected) (hsym : ack.symbolId = st.book.cfg.symbolId)
      (htrades : TradesOf st.book.cfg.symbolId rs) : Answered st req st'

/-- An acknowledgement, book edits in front of it and trades behind. -/
theorem Answered.intro {st st' : State} {req : OrderRequest} {b : OrderBook} (hkeep : Keeps st.book b)
    {e : ExecType} (he : checkExec e execResp = true ∧ e ≠ .rejected) (combined execId : Nat)
    (side : Side) (p : Int) (q qRem : Nat) (code : RejectCode)
    (h : Trades (State.sendResponse { st with book := b } e combined execId side p q qRem code) st') :
    Answered st req st' := by
  obtain ⟨rs, hrest, htrades⟩ := h
  have hsent := (Emits.silent st st.gen hkeep.cfg hkeep.mode).trans
    (Emits.send { st with book := b } e combined execId side p q qRem code)
  rw [State.sendResponse_book, hkeep.cfg] at htrades
  exact .served (hsent.trans hrest) (isResp_of rfl he.1) he.2 (congrArg Config.symbolId hkeep.cfg)
    htrades

/-- A new order is answered first, then traded. -/
theorem handleNewOrder_answered {st st' : State} {req : OrderRequest}
    (h : st.handleNewOrder req = some st') : Answered st req st' := by
  unfold State.handleNewOrder at h
  split at h
  · obtain rfl := Option.some.inj h
    exact .refused ..
  split at h
  · obtain rfl := Option.some.inj h
    exact .refused ..
  split at h
  · obtain rfl := Option.some.inj h
    exact .refused ..
  · exact Answered.intro (b := st.book.allocate (State.createOrder req)) (e := .new) ⟨rfl, rfl⟩
      ⟨by decide, by decide⟩ _ _ _ _ _ _ _ (matchTaker_only_trades h)

theorem handleCancelOrder_answered {st st' : State} {req : OrderRequest}
    (h : st.handleCancelOrder req = some st') : Answered st req st' := by
  unfold State.handleCancelOrder at h
  split at h
  · obtain rfl := Option.some.inj h
    exact .refused ..
  · rename_i ptr _
    obtain ⟨o, -, h⟩ := Option.bind_eq_some_iff.mp h
    obtain ⟨b, hb, h⟩ := Option.bind_eq_some_iff.mp h
    obtain ⟨pl, -, h⟩ := Option.bind_eq_some_iff.mp h
    obtain ⟨b', hb', h⟩ := Option.bind_eq_some_iff.mp h
    obtain rfl := Option.some.inj h
    have hgone := Keeps.removeOrderFromLevel hb
    have hkeep := (show Keeps st.book b from ⟨hgone.cfg, hgone.mode⟩).trans
      (show Keeps b b' from ⟨(Keeps.removeIfEmpty hb').cfg, (Keeps.removeIfEmpty hb').mode⟩)
    exact Answered.intro (e := .cancelled) hkeep ⟨by decide, by decide⟩ _ _ _ _ _ _ _ (.edit ⟨rfl, rfl⟩)

/-- Behind its acknowledgement a replacement sends trade records only. -/
theorem replaceOrder_only_trades {st st' : State} {req : OrderRequest} {ptr pl target newQty : Nat}
    {o : Order} (hqty : ¬ newQty < o.qtyOriginal - o.qtyRemaining)
    (h : st.replaceOrder req ptr o pl target newQty = some st') :
    Trades (st.sendResponse .replaced req.combinedId req.execId req.side (st.book.cfg.plToPrice target)
      newQty (newQty - (o.qtyOriginal - o.qtyRemaining)) .none) st' := by
  unfold State.replaceOrder at h
  dsimp only at h
  rw [if_neg hqty] at h
  split at h
  · obtain rfl := Option.some.inj h
    exact .refl _
  split at h
  · obtain ⟨b, hb, h⟩ := Option.bind_eq_some_iff.mp h
    obtain ⟨b', hb', h⟩ := Option.bind_eq_some_iff.mp h
    have hkeep := (Keeps.removeOrderFromLevel hb).trans
      (show Keeps b b' from ⟨(Keeps.removeIfEmpty hb').cfg, (Keeps.removeIfEmpty hb').mode⟩)
    refine (Trades.edit hkeep).trans ?_
    split at h
    · -- the closing `Fill`
      obtain rfl := Option.some.inj h
      exact (Trades.fill _ 0 ..).trans (.edit ⟨rfl, rfl⟩)
    · refine Trades.trans ?_ (matchTaker_only_trades h)
      exact .edit ⟨rfl, rfl⟩
  · obtain rfl := Option.some.inj h
    exact .edit ⟨rfl, rfl⟩

/-- A replacement that asks for less than is executed is refused. -/
theorem replaceOrder_refused {st st' : State} {req : OrderRequest} {ptr pl target newQty : Nat}
    {o : Order} (hqty : newQty < o.qtyOriginal - o.qtyRemaining)
    (h : st.replaceOrder req ptr o pl target newQty = some st') :
    st' = st.reject req o.qtyRemaining .invalidModify := by
  unfold State.replaceOrder at h
  dsimp only at h
  rw [if_pos hqty] at h
  exact (Option.some.inj h).symm

theorem replaceOrder_answered {st st' : State} {req : OrderRequest} {ptr pl target newQty : Nat}
    {o : Order} (h : st.replaceOrder req ptr o pl target newQty = some st') : Answered st req st' := by
  by_cases hqty : newQty < o.qtyOriginal - o.qtyRemaining
  · rw [replaceOrder_refused hqty h]
    exact .refused ..
  · exact Answered.intro (b := st.book) (e := .replaced) ⟨rfl, rfl⟩ ⟨by decide, by decide⟩ req.combinedId
      req.execId req.side (st.book.cfg.plToPrice target) newQty
      (newQty - (o.qtyOriginal - o.qtyRemaining)) .none (replaceOrder_only_trades hqty h)

theorem handleModifyOrder_answered {st st' : State} {req : OrderRequest}
    (h : st.handleModifyOrder req = some st') : Answered st req st' := by
  unfold State.handleModifyOrder at h
  split at h
  · obtain rfl := Option.some.inj h
    exact .refused ..
  · obtain ⟨o, -, h⟩ := Option.bind_eq_some_iff.mp h
    split at h
    · obtain rfl := Option.some.inj h
      exact .refused ..
    split at h
    · obtain rfl := Option.some.inj h
      exact .refused ..
    obtain ⟨pl, -, h⟩ := Option.bind_eq_some_iff.mp h
    exact replaceOrder_answered h

/-- Whatever is asked, the first record answers the request, and what follows are trades. -/
theorem processRequest_answered {st st' : State} {req : OrderRequest}
    (h : st.processRequest req = some st') : Answered st req st' := by
  unfold State.processRequest at h
  split at h
  · exact handleCancelOrder_answered h
  · exact handleModifyOrder_answered h
  · split at h
    · obtain rfl := Option.some.inj h
      exact .refused ..
    · exact handleNewOrder_answered h
  · obtain rfl := Option.some.inj h
    exact .refused ..

/-- Every request that is answered is acknowledged once, before its trades. -/
theorem processRequest_acknowledges {st st' : State} {req : OrderRequest}
    (h : st.processRequest req = some st') : Acknowledges st st' := by
  cases processRequest_answered h with
  | refused qRem code =>
    exact ⟨_, [], Emits.send .., isResp_of (e := .rejected) rfl (by decide), rfl, .nil _⟩
  | served hsent hresp _ hsym htrades => exact ⟨_, _, hsent, hresp, hsym, htrades⟩

end Exchange
