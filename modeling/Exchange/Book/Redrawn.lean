import Exchange.Book.Records

/-!
# The numbers that `match` draws

The books of an engine draw from one generator, so that what a book draws depends on what the
others did. It shows nowhere but in the `exec_id` of trades: from states that differ in the numbers
to come, and in those of the records sent, a request leads to such states again, whatever the
request and the book.
-/

namespace Exchange

/-- The same record, but for the number of a trade. -/
structure OrderResponse.Redrawn (r r' : OrderResponse) : Prop where
  same : r' = { r with execId := r'.execId }
  drawn : r.isTrade = false → r'.execId = r.execId

theorem OrderResponse.Redrawn.refl (r : OrderResponse) : r.Redrawn r := ⟨rfl, fun _ => rfl⟩

/-- The same book, and the same records sent. -/
structure Redrawn (st st' : State) : Prop where
  book : st'.book = st.book
  log : List.Forall₂ OrderResponse.Redrawn st.log st'.log

namespace Redrawn

variable {st st' : State}

theorem edit (h : Redrawn st st') {b b' : OrderBook} (hb : b' = b) :
    Redrawn { st with book := b } { st' with book := b' } := ⟨hb, h.log⟩

/-- Both send the same record; the trade id of a fill may differ. -/
theorem send (h : Redrawn st st') (t : ExecType) (combined execId : Nat) {execId' : Nat} (side : Side)
    (p : Int) (q qRem : Nat) (code : RejectCode)
    (hdrawn : execId' = execId ∨ t = .fill ∨ t = .partialFill) :
    Redrawn (st.sendResponse t combined execId side p q qRem code)
      (st'.sendResponse t combined execId' side p q qRem code) := by
  refine ⟨?_, ?_⟩
  · rw [State.sendResponse_book, State.sendResponse_book]
    exact h.book
  · have hsent := (Emits.send st t combined execId side p q qRem code).log
    have hsent' := (Emits.send st' t combined execId' side p q qRem code).log
    rw [hsent, hsent', h.book]
    split
    · rw [List.append_nil, List.append_nil]
      exact h.log
    · refine List.rel_append h.log (.cons ⟨rfl, fun hno => ?_⟩ .nil)
      refine hdrawn.resolve_right fun htrade => ?_
      rw [isTrade_iff.mpr htrade] at hno
      cases hno

theorem reject (h : Redrawn st st') (req : OrderRequest) (qRem : Nat) (code : RejectCode) :
    Redrawn (st.reject req qRem code) (st'.reject req qRem code) :=
  h.send _ _ _ _ _ _ _ _ (Or.inl rfl)

/-- A trade draws its own id on each side. -/
theorem trade (h : Redrawn st st') (taker maker : Nat) (s : Slot) (oppo : Nat) (t m : Order) :
    Redrawn (st.trade taker maker s oppo t m) (st'.trade taker maker s oppo t m) := by
  unfold State.trade
  dsimp only
  rw [h.book]
  refine send (send ?_ _ _ _ _ _ _ _ _ (Or.inr (fillType_trade _))) _ _ _ _ _ _ _ _
    (Or.inr (fillType_trade _))
  exact ⟨rfl, h.log⟩

end Redrawn

/-- If `x` returns, so does `x'`, and alike. -/
def Repeats (x x' : Option State) : Prop := ∀ st, x = some st → ∃ st', x' = some st' ∧ Redrawn st st'

namespace Repeats

theorem none (x' : Option State) : Repeats .none x' := fun _ h => by cases h

theorem some {st st' : State} (h : Redrawn st st') : Repeats (.some st) (.some st') := by
  intro st₁ he
  obtain rfl := Option.some.inj he
  exact ⟨st', rfl, h⟩

/-- What is read from the book is the same. -/
theorem read {α : Type} (x : Option α) {f f' : α → Option State} (h : ∀ a, Repeats (f a) (f' a)) :
    Repeats (x >>= f) (x >>= f') := by
  cases x with
  | none => exact none _
  | some a => exact h a

/-- One step after another: what the first leaves is what the second starts from. -/
theorem bind {x x' : Option State} {f f' : State → Option State} (h : Repeats x x')
    (hf : ∀ st st', Redrawn st st' → Repeats (f st) (f' st')) : Repeats (x >>= f) (x' >>= f') := by
  cases x with
  | none => exact none _
  | some st =>
    obtain ⟨st', rfl, hst⟩ := h st rfl
    exact hf st st' hst

end Repeats

/-- The inner loop of `match`. -/
theorem matchMakers_redrawn {taker : Nat} {s : Slot} {oppo : Nat} (fuel : Nat) :
    ∀ (maker : OrderNode) {st st' : State}, Redrawn st st' →
      Repeats (State.matchMakers taker s oppo fuel maker st) (State.matchMakers taker s oppo fuel maker st') := by
  induction fuel with
  | zero => exact fun _ _ _ _ => .none _
  | succ fuel ih =>
    intro maker st st' h
    rw [State.matchMakers, State.matchMakers, h.book]
    refine .read _ fun t => ?_
    split
    · exact .some h
    refine .read _ fun ptr => .read _ fun m => ?_
    have htrade := h.trade taker ptr s oppo t m
    dsimp only
    split
    · exact ih maker htrade
    rw [htrade.book]
    exact .read _ fun b => .read _ fun next => ih next (htrade.edit rfl)

/-- The outer loop of `match`. -/
theorem matchLevels_redrawn {taker : Nat} {s : Slot} {priceIdx : Nat} (fuel : Nat) :
    ∀ {st st' : State}, Redrawn st st' →
      Repeats (State.matchLevels taker s priceIdx fuel st) (State.matchLevels taker s priceIdx fuel st') := by
  induction fuel with
  | zero => exact fun _ => .none _
  | succ fuel ih =>
    intro st st' h
    rw [State.matchLevels, State.matchLevels, h.book]
    split
    · exact .some h
    refine .read _ fun t => ?_
    split
    · exact .some h
    split
    · refine .read _ fun maker => .bind (matchMakers_redrawn _ maker h) fun st₁ st₁' h₁ => ?_
      rw [h₁.book]
      exact .read _ fun b => ih (h₁.edit rfl)
    · exact .some h

theorem matchTaker_redrawn {st st' : State} (h : Redrawn st st') (taker : Nat) (side : Side)
    (priceIdx : Nat) : Repeats (st.matchTaker taker side priceIdx) (st'.matchTaker taker side priceIdx) := by
  unfold State.matchTaker
  rw [h.book]
  refine .read _ fun s => .bind (matchLevels_redrawn _ h) fun st₁ st₁' h₁ => ?_
  rw [h₁.book]
  refine .read _ fun t => ?_
  split
  · exact .some (h₁.edit rfl)
  · exact .read _ fun b => .read _ fun b' => .some (h₁.edit rfl)

theorem handleNewOrder_redrawn {st st' : State} (h : Redrawn st st') (req : OrderRequest) :
    Repeats (st.handleNewOrder req) (st'.handleNewOrder req) := by
  unfold State.handleNewOrder
  rw [h.book]
  split
  · exact .some (h.reject ..)
  split
  · exact .some (h.reject ..)
  split
  · exact .some (h.reject ..)
  · dsimp only
    have hack := (h.edit (b := st.book.allocate (State.createOrder req)) rfl).send .new req.combinedId
      req.execId req.side req.p req.q req.q .none (Or.inl rfl)
    rw [hack.book]
    exact matchTaker_redrawn hack _ _ _

theorem handleCancelOrder_redrawn {st st' : State} (h : Redrawn st st') (req : OrderRequest) :
    Repeats (st.handleCancelOrder req) (st'.handleCancelOrder req) := by
  unfold State.handleCancelOrder
  rw [h.book]
  split
  · exact .some (h.reject ..)
  · refine .read _ fun o => .read _ fun b => .read _ fun pl => .read _ fun b' => .some ?_
    have hack := (h.edit (b := b') rfl).send .cancelled o.orderId req.execId req.side
      (b'.cfg.plToPrice pl) o.qtyOriginal 0 .none (Or.inl rfl)
    exact hack.edit (by rw [hack.book])

theorem replaceOrder_redrawn {st st' : State} (h : Redrawn st st') (req : OrderRequest) (ptr : Nat)
    (o : Order) (pl target newQty : Nat) : Repeats (st.replaceOrder req ptr o pl target newQty)
      (st'.replaceOrder req ptr o pl target newQty) := by
  unfold State.replaceOrder
  dsimp only
  rw [h.book]
  split
  · exact .some (h.reject ..)
  have hack := h.send .replaced req.combinedId req.execId req.side (st.book.cfg.plToPrice target) newQty
    (newQty - (o.qtyOriginal - o.qtyRemaining)) .none (Or.inl rfl)
  rw [hack.book]
  split
  · exact .some hack
  split
  · refine .read _ fun b => .read _ fun b' => ?_
    split
    · have hfill := (hack.edit (b := b') rfl).send .fill req.combinedId req.execId req.side
        (st.book.cfg.plToPrice target) 0 0 .none (Or.inl rfl)
      exact .some (hfill.edit (by rw [hfill.book]))
    · exact matchTaker_redrawn (hack.edit rfl) _ _ _
  · exact .some (hack.edit rfl)

theorem handleModifyOrder_redrawn {st st' : State} (h : Redrawn st st') (req : OrderRequest) :
    Repeats (st.handleModifyOrder req) (st'.handleModifyOrder req) := by
  unfold State.handleModifyOrder
  rw [h.book]
  split
  · exact .some (h.reject ..)
  · refine .read _ fun o => ?_
    split
    · exact .some (h.reject ..)
    split
    · exact .some (h.reject ..)
    exact .read _ fun pl => replaceOrder_redrawn h req _ _ _ _ _

/-- The numbers to come make no difference to a request. -/
theorem processRequest_redrawn {st st' : State} (h : Redrawn st st') (req : OrderRequest) :
    Repeats (st.processRequest req) (st'.processRequest req) := by
  unfold State.processRequest
  rw [h.book]
  split
  · exact handleCancelOrder_redrawn h req
  · exact handleModifyOrder_redrawn h req
  · split
    · exact .some (h.reject ..)
    · exact handleNewOrder_redrawn h req
  · exact .some (h.reject ..)

end Exchange
