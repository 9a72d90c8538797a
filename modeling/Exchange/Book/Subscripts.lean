import Exchange.Book.Named

/-!
# Subscripts

`processRequest` once more, with the reason it stops where it has no meaning: `checked` returns the
subscript that is out of range, and forgets back to `processRequest` (`checked_toOption`). It stops at
`&price_array_[..]` of `handleModifyOrder` as well, an address that `processRequest` goes on with. Two
subscripts are not checked. `price_invalid` lets through the price one step behind the last level,
and `side` is used as it came, as `1 ^ side` of `best_levels_` in `match` and as the side of a level
that has become empty. `subscripts_in_range` says that there are no others, from any state that
requests of any kind have led to: also where a level was taken from the wrong side, the pointers of
the book are to levels of the array.
-/

namespace Exchange

/-- Where a request has no meaning: at a subscript of `price_array_`, `best_levels_` or
`active_levels_`, or elsewhere. -/
inductive Fault
  | priceArray (i : Nat)
  | bestLevels (i : Int)
  | activeLevels (i : Int)
  | elsewhere
  deriving DecidableEq, Repr

/-- `static_cast<int>(side)`. -/
def Side.code : Side → Int
  | .buy => 0
  | .sell => 1
  | .none => 2
  | .other code => code

/-- `1 ^ side_int`. -/
def Side.flipCode (side : Side) : Int := if side.code % 2 = 0 then side.code + 1 else side.code - 1

/-- A result, or the fault. -/
def orFault {α : Type} (f : Fault) : Option α → Except Fault α
  | some x => .ok x
  | none => .error f

namespace OrderBook

/-- `if (!level->order_count) removePriceLevel(level, side);`. `best_levels_` is written first, if
no level is better. -/
def removeIfEmptyChecked (b : OrderBook) (pl : Nat) (side : Side) : Except Fault OrderBook :=
  orFault (if (b.chain.prev pl).isSome then .activeLevels side.code else .bestLevels side.code)
    (b.removeIfEmpty pl side)

def getOrCreatePriceLevelChecked (b : OrderBook) (priceIdx : Nat) (side : Side) : Except Fault OrderBook :=
  orFault (if priceIdx < b.cfg.maxPriceLevels then .activeLevels side.code else .priceArray priceIdx)
    (b.getOrCreatePriceLevel priceIdx side)

end OrderBook

namespace State

/-- `match`. The subscripts of its loops are `1 ^ side_int`, as the first one. -/
def matchTakerChecked (st : State) (taker : Nat) (takerSide : Side) (priceIdx : Nat) :
    Except Fault State := do
  let s ← orFault (.bestLevels takerSide.flipCode) takerSide.slot
  let st ← orFault .elsewhere (matchLevels taker s priceIdx (st.book.cfg.maxPriceLevels + 2) st)
  let t ← orFault .elsewhere (st.book.orders taker)
  if t.qtyRemaining = 0 then
    .ok { st with book := (st.book.eraseActive t.orderId).delete taker }
  else
    let b ← st.book.getOrCreatePriceLevelChecked priceIdx takerSide
    let b ← orFault .elsewhere (b.insertOrderToLevel priceIdx taker)
    .ok { st with book := b.setActive t.orderId taker }

def handleNewOrderChecked (st : State) (req : OrderRequest) : Except Fault State :=
  if (st.book.activeOrders req.combinedId).isSome then
    .ok (st.reject req 0 .duplicateOrderID)
  else if req.p ≤ 0 ∧ req.type = .limit then .ok (st.reject req 0 .priceInvalid)
  else if req.q = 0 ∨ globalMaxQty < req.q then .ok (st.reject req 0 .invalidQuantity)
  else
    let taker := st.book.nextOrder
    let st : State := { st with book := st.book.allocate (createOrder req) }
    let st := st.sendResponse .new req.combinedId req.execId req.side req.p req.q req.q .none
    st.matchTakerChecked taker req.side (newIndex st.book.cfg req)

def handleCancelOrderChecked (st : State) (req : OrderRequest) : Except Fault State :=
  match st.book.activeOrders req.combinedId with
  | none => .ok (st.reject req 0 .orderNotFound)
  | some ptr => do
    let o ← orFault .elsewhere (st.book.orders ptr)
    let b ← orFault .elsewhere ((st.book.eraseActive o.orderId).removeOrderFromLevel ptr)
    let pl ← orFault .elsewhere o.priceLevel
    let b ← (b.subtractQty pl o.qtyRemaining).removeIfEmptyChecked pl req.side
    let st : State := { st with book := b }
    let st := st.sendResponse .cancelled o.orderId req.execId req.side (b.cfg.plToPrice pl)
      o.qtyOriginal 0 .none
    .ok { st with book := st.book.delete ptr }

def replaceOrderChecked (st : State) (req : OrderRequest) (ptr : Nat) (o : Order)
    (pl target newQty : Nat) : Except Fault State :=
  let executedQty := o.qtyOriginal - o.qtyRemaining
  let qtyDiff : Int := newQty - o.qtyOriginal
  let newQtyRemaining := newQty - executedQty
  let price := st.book.cfg.plToPrice target
  if newQty < executedQty then .ok (st.reject req o.qtyRemaining .invalidModify)
  else
    let st := st.sendResponse .replaced req.combinedId req.execId req.side price newQty
      newQtyRemaining .none
    if pl = target ∧ qtyDiff = 0 then .ok st
    else
      let needsRequeue := pl ≠ target ∨ 0 < qtyDiff
      if newQtyRemaining = 0 ∨ needsRequeue then do
        let b ← orFault .elsewhere (st.book.removeOrderFromLevel ptr)
        let b ← (b.subtractQty pl o.qtyRemaining).removeIfEmptyChecked pl req.side
        let st : State := { st with book := b }
        if newQtyRemaining = 0 then
          let st := st.sendResponse .fill req.combinedId req.execId req.side price 0 0 .none
          .ok { st with book := (st.book.eraseActive o.orderId).delete ptr }
        else
          let b := st.book.modifyOrder ptr fun o =>
            { o with qtyRemaining := newQtyRemaining, qtyOriginal := newQty }
          { st with book := b }.matchTakerChecked ptr req.side target
      else
        let b := st.book.modifyLevel pl fun l => { l with totalQty := l.totalQty + qtyDiff }
        .ok { st with book := b.modifyOrder ptr fun o =>
                { o with qtyRemaining := newQtyRemaining, qtyOriginal := newQty } }

def handleModifyOrderChecked (st : State) (req : OrderRequest) : Except Fault State :=
  match st.book.activeOrders req.combinedId with
  | none => .ok (st.reject req 0 .orderNotFound)
  | some ptr => do
    let o ← orFault .elsewhere (st.book.orders ptr)
    if globalMaxQty < req.q then .ok (st.reject req o.qtyRemaining .invalidQuantity)
    else if req.p ≠ 0 ∧ st.book.cfg.priceInvalid req.p ≠ 0 then
      .ok (st.reject req o.qtyRemaining .priceInvalid)
    else
      let pl ← orFault .elsewhere o.priceLevel
      let target := if req.p ≠ 0 then st.book.cfg.priceToIndex req.p else pl
      if target < st.book.cfg.maxPriceLevels then
        st.replaceOrderChecked req ptr o pl target (if req.q ≠ 0 then req.q else o.qtyOriginal)
      else .error (.priceArray target)

/-- `processRequest`. -/
def checked (st : State) (req : OrderRequest) : Except Fault State :=
  match req.action with
  | .cancel => st.handleCancelOrderChecked req
  | .modify => st.handleModifyOrderChecked req
  | .new =>
    if req.type ≠ .market ∧ st.book.cfg.priceInvalid req.p ≠ 0 then
      .ok (st.reject req 0 .priceInvalid)
    else st.handleNewOrderChecked req
  | .other _ => .ok (st.reject req 0 .invalidAction)

end State

/-! ## The reason forgotten -/

@[simp] theorem orFault_toOption {α : Type} (f : Fault) (x : Option α) : (orFault f x).toOption = x := by
  cases x with
  | none => rfl
  | some y => rfl

@[simp] theorem orFault_some {α : Type} (f : Fault) (x : α) : orFault f (some x) = .ok x := rfl

@[simp] theorem ok_bind {α β : Type} (x : α) (f : α → Except Fault β) : (Except.ok x >>= f) = f x := rfl

@[simp] theorem toOption_bind {α β : Type} (x : Except Fault α) (f : α → Except Fault β) :
    (x >>= f).toOption = x.toOption.bind fun y => (f y).toOption := by
  cases x with
  | error e => rfl
  | ok y => rfl

@[simp] theorem toOption_ok {α : Type} (x : α) : (Except.ok x : Except Fault α).toOption = some x := rfl

@[simp] theorem toOption_error {α : Type} (f : Fault) : (Except.error f : Except Fault α).toOption = none := rfl

@[simp] theorem toOption_ite {α : Type} {P : Prop} [Decidable P] (x y : Except Fault α) :
    (if P then x else y).toOption = if P then x.toOption else y.toOption := by
  split
  · rfl
  · rfl

namespace State

theorem matchTakerChecked_toOption (st : State) (taker : Nat) (side : Side) (priceIdx : Nat) :
    (st.matchTakerChecked taker side priceIdx).toOption = st.matchTaker taker side priceIdx := by
  simp only [matchTakerChecked, matchTaker, OrderBook.getOrCreatePriceLevelChecked, toOption_bind,
    orFault_toOption, toOption_ite, toOption_ok, Option.bind_eq_bind]

theorem replaceOrderChecked_toOption (st : State) (req : OrderRequest) (ptr : Nat) (o : Order)
    (pl target newQty : Nat) : (st.replaceOrderChecked req ptr o pl target newQty).toOption =
      st.replaceOrder req ptr o pl target newQty := by
  simp only [replaceOrderChecked, replaceOrder, OrderBook.removeIfEmptyChecked, toOption_bind,
    orFault_toOption, toOption_ite, toOption_ok, Option.bind_eq_bind, matchTakerChecked_toOption]

/-- With no subscript of `price_array_` out of range it is what `processRequest` does. -/
theorem checked_toOption (st : State) (req : OrderRequest)
    (hrange : ∀ i, st.checked req ≠ .error (.priceArray i)) :
    (st.checked req).toOption = st.processRequest req := by
  unfold checked processRequest at *
  cases hact : req.action with
  | cancel =>
    unfold handleCancelOrderChecked handleCancelOrder
    cases st.book.activeOrders req.combinedId with
    | none => rfl
    | some ptr =>
      simp only [OrderBook.removeIfEmptyChecked, toOption_bind, orFault_toOption, toOption_ok,
        Option.bind_eq_bind]
  | modify =>
    rw [hact] at hrange
    dsimp only at hrange ⊢
    unfold handleModifyOrderChecked at hrange ⊢
    unfold handleModifyOrder
    cases hptr : st.book.activeOrders req.combinedId with
    | none => rfl
    | some ptr =>
      rw [hptr] at hrange
      dsimp only at hrange ⊢
      cases ho : st.book.orders ptr with
      | none => rfl
      | some o =>
        simp only [ho, orFault_some, ok_bind, Option.bind_eq_bind, Option.bind_some] at hrange ⊢
        by_cases hq : globalMaxQty < req.q
        · rw [if_pos hq, if_pos hq]
          rfl
        by_cases hp : req.p ≠ 0 ∧ st.book.cfg.priceInvalid req.p ≠ 0
        · rw [if_neg hq, if_neg hq, if_pos hp, if_pos hp]
          rfl
        cases hpl : o.priceLevel with
        | none =>
          rw [if_neg hq, if_neg hq, if_neg hp, if_neg hp]
          rfl
        | some pl =>
          simp only [if_neg hq, if_neg hp, hpl, orFault_some, ok_bind, Option.bind_some] at hrange ⊢
          generalize (if req.p ≠ 0 then st.book.cfg.priceToIndex req.p else pl) = target at hrange ⊢
          -- the subscript of the target level is the only one that can be out of range
          by_cases hin : target < st.book.cfg.maxPriceLevels
          · rw [if_pos hin]
            exact replaceOrderChecked_toOption ..
          · exact absurd (if_neg hin) (hrange target)
  | new =>
    simp only [handleNewOrderChecked, handleNewOrder, toOption_ite, toOption_ok, matchTakerChecked_toOption]
  | other _ => rfl

end State

/-! ## The levels of the orders -/

/-- The orders are at levels of the array. -/
def OrderBook.Bounded (b : OrderBook) : Prop :=
  ∀ {ptr i : Nat} {o : Order}, b.orders ptr = some o → o.priceLevel = some i → i < b.cfg.maxPriceLevels

/-- The array is the same, and no order leaves it. -/
structure Confines (b b' : OrderBook) : Prop where
  cfg : b'.cfg = b.cfg
  bounded : b.Bounded → b'.Bounded

namespace Confines

variable {b b' b'' : OrderBook}

/-- Nothing is said of a book whose orders are the same. -/
theorem same (hcfg : b'.cfg = b.cfg) (horders : b'.orders = b.orders) : Confines b b' := by
  refine ⟨hcfg, fun h {ptr i o} ho hi => ?_⟩
  rw [horders] at ho
  rw [hcfg]
  exact h ho hi

theorem of_same (h : SameOrders b b') : Confines b b' := same h.cfg h.orders

theorem trans (h : Confines b b') (h' : Confines b' b'') : Confines b b'' :=
  ⟨h'.cfg.trans h.cfg, fun hb => h'.bounded (h.bounded hb)⟩

/-- One order is rewritten, and goes to a level of the array if it goes anywhere. -/
theorem rewritten {f : Order → Order} (ptr : Nat)
    (hf : ∀ o, (f o).priceLevel = o.priceLevel ∨ ∃ i < b.cfg.maxPriceLevels, (f o).priceLevel = some i)
    (hcfg : b'.cfg = b.cfg)
    (horders : b'.orders = Function.update b.orders ptr ((b.orders ptr).map f)) : Confines b b' := by
  refine ⟨hcfg, fun h {ptr' i o} ho hi => ?_⟩
  rw [horders] at ho
  rw [hcfg]
  by_cases hp : ptr' = ptr
  · subst hp
    rw [Function.update_self] at ho
    obtain ⟨o', ho', rfl⟩ := Option.map_eq_some_iff.mp ho
    rcases hf o' with hsame | ⟨j, hj, hlevel⟩
    · rw [hsame] at hi
      exact h ho' hi
    · obtain rfl := Option.some.inj (hlevel.symm.trans hi)
      exact hj
  · rw [Function.update_of_ne hp] at ho
    exact h ho hi

/-- An order edited in place stays in its level. -/
theorem modifyOrder (b : OrderBook) (ptr : Nat) {f : Order → Order}
    (hf : ∀ o, (f o).priceLevel = o.priceLevel) : Confines b (b.modifyOrder ptr f) :=
  rewritten ptr (fun o => Or.inl (hf o)) rfl rfl

theorem modifyLevel (b : OrderBook) (pl : Nat) (f : PriceLevel → PriceLevel) :
    Confines b (b.modifyLevel pl f) := same rfl rfl

theorem delete (b : OrderBook) (ptr : Nat) : Confines b (b.delete ptr) := by
  refine ⟨rfl, fun h {ptr' i o} ho hi => ?_⟩
  by_cases hp : ptr' = ptr
  · subst hp
    cases (Function.update_self ..).symm.trans ho
  · exact h ((Function.update_of_ne hp ..).symm.trans ho) hi

theorem gone (b : OrderBook) (id ptr : Nat) : Confines b ((b.eraseActive id).delete ptr) := by
  have herase : Confines b (b.eraseActive id) := same rfl rfl
  exact herase.trans (delete _ ptr)

/-- A new one is not in a level yet. -/
theorem allocate (b : OrderBook) {o : Order} (ho : o.priceLevel = none) : Confines b (b.allocate o) := by
  refine ⟨rfl, fun h {ptr i o'} ho' hi => ?_⟩
  by_cases hp : ptr = b.nextOrder
  · subst hp
    have hself : (b.allocate o).orders b.nextOrder = some o := Function.update_self ..
    obtain rfl := Option.some.inj (hself.symm.trans ho')
    rw [ho] at hi
    cases hi
  · exact h ((Function.update_of_ne hp ..).symm.trans ho') hi

theorem removeOrderFromLevel {ptr : Nat} (h : b.removeOrderFromLevel ptr = some b') : Confines b b' :=
  of_same (.removeOrderFromLevel h)

theorem removeIfEmpty {pl : Nat} {side : Side} (h : b.removeIfEmpty pl side = some b') :
    Confines b b' :=
  of_same (.removeIfEmpty h)

/-- An order is put at a level of the array. -/
theorem rests {pl order : Nat} {side : Side} (hlevel : b.getOrCreatePriceLevel pl side = some b')
    (hinsert : b'.insertOrderToLevel pl order = some b'') : Confines b b'' := by
  have hpl : pl < b.cfg.maxPriceLevels := by
    unfold OrderBook.getOrCreatePriceLevel at hlevel
    split at hlevel
    · assumption
    · cases hlevel
  have hsame := SameOrders.getOrCreatePriceLevel hlevel
  refine (of_same hsame).trans ?_
  unfold OrderBook.insertOrderToLevel at hinsert
  obtain ⟨o, -, hinsert⟩ := Option.bind_eq_some_iff.mp hinsert
  obtain ⟨tail, -, hinsert⟩ := Option.bind_eq_some_iff.mp hinsert
  obtain rfl := Option.some.inj hinsert
  refine rewritten (f := fun o => { o with priceLevel := some pl }) order (fun _ => Or.inr ?_) rfl rfl
  rw [hsame.cfg]
  exact ⟨pl, hpl, rfl⟩

theorem trade (st : State) (taker maker : Nat) (s : Slot) (oppo : Nat) (t m : Order) :
    Confines st.book (st.trade taker maker s oppo t m).book := by
  unfold State.trade
  dsimp only
  rw [State.sendResponse_book, State.sendResponse_book]
  have hfill : ∀ (b : OrderBook) (ptr : Nat), Confines b (b.modifyOrder ptr fun o =>
      { o with qtyRemaining := o.qtyRemaining - min m.qtyRemaining t.qtyRemaining }) :=
    fun b ptr => modifyOrder b ptr fun _ => rfl
  exact ((hfill _ maker).trans (hfill _ taker)).trans (same rfl rfl)

theorem matchEdits : MatchEdits Confines where
  refl := fun _ => same rfl rfl
  trans := trans
  trade := trade
  eraseActive := fun _ _ => same rfl rfl
  removeOrderFromLevel := removeOrderFromLevel
  removeIfEmpty := removeIfEmpty
  delete := delete

theorem matchTaker {st st' : State} {taker : Nat} {side : Side} {priceIdx : Nat}
    (h : st.matchTaker taker side priceIdx = some st') : Confines st.book st'.book := by
  unfold State.matchTaker at h
  obtain ⟨s, -, h⟩ := Option.bind_eq_some_iff.mp h
  obtain ⟨st₁, hlevels, h⟩ := Option.bind_eq_some_iff.mp h
  obtain ⟨t, -, h⟩ := Option.bind_eq_some_iff.mp h
  refine (matchEdits.matchLevels _ hlevels).trans ?_
  split at h
  · obtain rfl := Option.some.inj h
    exact gone st₁.book t.orderId taker
  · obtain ⟨b, hlevel, h⟩ := Option.bind_eq_some_iff.mp h
    obtain ⟨b', hinsert, h⟩ := Option.bind_eq_some_iff.mp h
    obtain rfl := Option.some.inj h
    exact (rests hlevel hinsert).trans (same rfl rfl)

variable {st st' : State} {req : OrderRequest}

theorem sent (st : State) (e : ExecType) (combined execId : Nat) (side : Side) (p : Int) (q qRem : Nat)
    (code : RejectCode) :
    Confines st.book (st.sendResponse e combined execId side p q qRem code).book := by
  rw [State.sendResponse_book]
  exact same rfl rfl

theorem handleNewOrder (h : st.handleNewOrder req = some st') : Confines st.book st'.book := by
  unfold State.handleNewOrder at h
  split at h
  · obtain rfl := Option.some.inj h
    exact sent ..
  split at h
  · obtain rfl := Option.some.inj h
    exact sent ..
  split at h
  · obtain rfl := Option.some.inj h
    exact sent ..
  · have halloc := allocate st.book (o := State.createOrder req) rfl
    refine halloc.trans (Confines.trans ?_ (matchTaker h))
    exact sent { st with book := st.book.allocate (State.createOrder req) } ..

theorem handleCancelOrder (h : st.handleCancelOrder req = some st') : Confines st.book st'.book := by
  unfold State.handleCancelOrder at h
  split at h
  · obtain rfl := Option.some.inj h
    exact sent ..
  · rename_i ptr _
    obtain ⟨o, -, h⟩ := Option.bind_eq_some_iff.mp h
    obtain ⟨b, hb, h⟩ := Option.bind_eq_some_iff.mp h
    obtain ⟨pl, -, h⟩ := Option.bind_eq_some_iff.mp h
    obtain ⟨b', hb', h⟩ := Option.bind_eq_some_iff.mp h
    obtain rfl := Option.some.inj h
    have herase : Confines st.book (st.book.eraseActive o.orderId) := same rfl rfl
    have hqty : Confines b (b.subtractQty pl o.qtyRemaining) := modifyLevel ..
    refine (herase.trans (removeOrderFromLevel hb)).trans ((hqty.trans (removeIfEmpty hb')).trans ?_)
    exact (sent { st with book := b' } ..).trans (delete _ ptr)

theorem replaceOrder {ptr pl target newQty : Nat} {o : Order}
    (h : st.replaceOrder req ptr o pl target newQty = some st') : Confines st.book st'.book := by
  have hresized : ∀ (b : OrderBook) (newRem : Nat), Confines b (b.modifyOrder ptr fun o =>
      { o with qtyRemaining := newRem, qtyOriginal := newQty }) :=
    fun b newRem => modifyOrder b ptr fun _ => rfl
  unfold State.replaceOrder at h
  dsimp only at h
  split at h
  · obtain rfl := Option.some.inj h
    exact sent ..
  refine (sent st .replaced req.combinedId req.execId req.side (st.book.cfg.plToPrice target) newQty
    (newQty - (o.qtyOriginal - o.qtyRemaining)) .none).trans ?_
  split at h
  · obtain rfl := Option.some.inj h
    exact same rfl rfl
  split at h
  · obtain ⟨b, hb, h⟩ := Option.bind_eq_some_iff.mp h
    obtain ⟨b', hb', h⟩ := Option.bind_eq_some_iff.mp h
    have hqty : Confines b (b.subtractQty pl o.qtyRemaining) := modifyLevel ..
    refine (removeOrderFromLevel hb).trans ((hqty.trans (removeIfEmpty hb')).trans ?_)
    split at h
    · obtain rfl := Option.some.inj h
      dsimp only
      rw [State.sendResponse_book]
      exact gone b' o.orderId ptr
    · exact (hresized b' _).trans (matchTaker h)
  · obtain rfl := Option.some.inj h
    exact (modifyLevel _ pl _).trans (hresized _ _)

theorem handleModifyOrder (h : st.handleModifyOrder req = some st') : Confines st.book st'.book := by
  unfold State.handleModifyOrder at h
  split at h
  · obtain rfl := Option.some.inj h
    exact sent ..
  · obtain ⟨o, -, h⟩ := Option.bind_eq_some_iff.mp h
    split at h
    · obtain rfl := Option.some.inj h
      exact sent ..
    split at h
    · obtain rfl := Option.some.inj h
      exact sent ..
    obtain ⟨pl, -, h⟩ := Option.bind_eq_some_iff.mp h
    exact replaceOrder h

/-- Whatever the request. -/
theorem processRequest (h : st.processRequest req = some st') : Confines st.book st'.book := by
  unfold State.processRequest at h
  split at h
  · exact handleCancelOrder h
  · exact handleModifyOrder h
  · split at h
    · obtain rfl := Option.some.inj h
      exact sent ..
    · exact handleNewOrder h
  · obtain rfl := Option.some.inj h
    exact sent ..

end Confines

/-! ## Requests that stay in range -/

/-- Any fault there is has nothing to do with a subscript. -/
def InRange {α : Type} (x : Except Fault α) : Prop := ∀ f, x = .error f → f = .elsewhere

namespace InRange

theorem ok {α : Type} (x : α) : InRange (.ok x) := fun _ h => by cases h

/-- What is undefined for another reason is in range. -/
theorem orFault {α : Type} {f : Fault} {x : Option α} (h : x = none → f = .elsewhere) :
    InRange (Exchange.orFault f x) := by
  intro g hg
  cases x with
  | none =>
    obtain rfl := Except.error.inj hg
    exact h rfl
  | some y => cases hg

theorem elsewhere {α : Type} (x : Option α) : InRange (Exchange.orFault .elsewhere x) :=
  orFault fun _ => rfl

theorem bind {α β : Type} {x : Except Fault α} {f : α → Except Fault β} (hx : InRange x)
    (hf : ∀ y, x = .ok y → InRange (f y)) : InRange (x >>= f) := by
  intro g hg
  cases x with
  | error e =>
    obtain rfl : e = g := Except.error.inj hg
    exact hx e rfl
  | ok y => exact hf y rfl g hg

end InRange

theorem orFault_ok {α : Type} {f : Fault} {x : Option α} {y : α} (h : orFault f x = .ok y) : x = some y := by
  cases x with
  | none => cases h
  | some z => exact congrArg some (Except.ok.inj h)

section Parts

variable {b : OrderBook} {pl : Nat} {s : Slot} {side : Side}

/-- A level that is not empty is left where it is. -/
theorem removeIfEmptyChecked_inRange
    (h : (b.priceArray pl).orderCount = 0 → ∃ s : Slot, side = s.side) :
    InRange (b.removeIfEmptyChecked pl side) := by
  refine InRange.orFault fun hnone => ?_
  unfold OrderBook.removeIfEmpty at hnone
  split at hnone
  · rename_i hempty
    obtain ⟨s, rfl⟩ := h hempty
    unfold OrderBook.removePriceLevel at hnone
    rw [Slot.slot_side] at hnone
    cases hnone
  · cases hnone

/-- A level is made inside the array, whichever side it is for. -/
theorem getOrCreatePriceLevelChecked_inRange (hpl : pl < b.cfg.maxPriceLevels) :
    InRange (b.getOrCreatePriceLevelChecked pl s.side) := by
  refine InRange.orFault fun hnone => ?_
  unfold OrderBook.getOrCreatePriceLevel at hnone
  rw [if_pos hpl] at hnone
  split at hnone
  · cases hnone
  · rw [Slot.slot_side] at hnone
    cases hnone

/-- Matching reads levels that are inside the array. -/
theorem matchTakerChecked_inRange {st : State} (taker : Nat) {priceIdx : Nat}
    (hidx : priceIdx < st.book.cfg.maxPriceLevels) :
    InRange (st.matchTakerChecked taker s.side priceIdx) := by
  unfold State.matchTakerChecked
  rw [Slot.slot_side]
  refine InRange.bind (InRange.ok s) fun s' _ => InRange.bind (.elsewhere _) fun st₁ hlevels => ?_
  refine InRange.bind (.elsewhere _) fun t _ => ?_
  have hcfg := (Confines.matchEdits.matchLevels _ (orFault_ok hlevels)).cfg
  split
  · exact .ok _
  · refine InRange.bind (getOrCreatePriceLevelChecked_inRange (by rw [hcfg]; exact hidx)) fun b _ => ?_
    exact InRange.bind (.elsewhere _) fun b' _ => .ok _

end Parts

/-- The price one step behind the last level. -/
def Config.Behind (c : Config) (p : Int) : Prop := p.tdiv c.minStep = c.priceIndexOffset + c.maxPriceLevels

instance (c : Config) (p : Int) : Decidable (c.Behind p) :=
  inferInstanceAs (Decidable (p.tdiv c.minStep = c.priceIndexOffset + c.maxPriceLevels))

/-- It is the only one that is let through and has no level. -/
theorem Config.priceToIndex_lt (c : Config) {p : Int} (h : c.priceInvalid p = 0) (hp : ¬ c.Behind p) :
    c.priceToIndex p < c.maxPriceLevels := by
  have hlt := c.levels_lt
  unfold Config.Behind at hp
  unfold Config.priceInvalid at h
  unfold Config.priceToIndex
  split at h
  · cases h
  split at h
  · cases h
  omega

/-- What the code does not check, of a request that passes its checks: that the price is not behind
the last level, and that there is a side where it is used. A cancelled order's is, if it is the
only one of its level; a replaced one's is if the order is matched again, or if nothing is left of
it and it was the only one. -/
structure Fits (b : OrderBook) (req : OrderRequest) : Prop where
  new : req.action = .new → (req.type ≠ .market → b.cfg.priceInvalid req.p = 0) →
    b.activeOrders req.combinedId = none → ¬ (req.p ≤ 0 ∧ req.type = .limit) →
    1 ≤ req.q → req.q ≤ globalMaxQty →
    (∃ s : Slot, req.side = s.side) ∧ (req.type ≠ .market → ¬ b.cfg.Behind req.p)
  cancel : req.action = .cancel → ∀ ptr o pl, b.activeOrders req.combinedId = some ptr →
    b.orders ptr = some o → o.priceLevel = some pl → (b.priceArray pl).orderCount ≤ 1 →
    ∃ s : Slot, req.side = s.side
  price : req.action = .modify → (b.activeOrders req.combinedId).isSome → req.q ≤ globalMaxQty →
    req.p ≠ 0 → b.cfg.priceInvalid req.p = 0 → ¬ b.cfg.Behind req.p
  modify : req.action = .modify → ∀ ptr o pl, b.activeOrders req.combinedId = some ptr →
    b.orders ptr = some o → o.priceLevel = some pl → req.q ≤ globalMaxQty →
    (req.p ≠ 0 → b.cfg.priceInvalid req.p = 0) →
    (req.newQty o = o.executed ∧ (b.priceArray pl).orderCount ≤ 1) ∨
      (o.executed < req.newQty o ∧ (pl ≠ req.target b.cfg o ∨ o.qtyOriginal < req.newQty o)) →
    ∃ s : Slot, req.side = s.side

section Requests

variable {st : State} {req : OrderRequest}

theorem handleNewOrderChecked_inRange (h : Fits st.book req) (hact : req.action = .new)
    (hvalid : req.type ≠ .market → st.book.cfg.priceInvalid req.p = 0) :
    InRange (st.handleNewOrderChecked req) := by
  unfold State.handleNewOrderChecked
  split
  · exact .ok _
  rename_i hnone
  split
  · exact .ok _
  rename_i hp
  split
  · exact .ok _
  rename_i hq
  have hfresh : st.book.activeOrders req.combinedId = none := Option.not_isSome_iff_eq_none.mp hnone
  obtain ⟨⟨s, hs⟩, hbehind⟩ := h.new hact hvalid hfresh hp (by omega) (by omega)
  have hidx : State.newIndex st.book.cfg req < st.book.cfg.maxPriceLevels := by
    have hlevels := st.book.cfg.levels_pos
    unfold State.newIndex
    split
    · split
      · omega
      · exact hlevels
    · rename_i hm
      exact st.book.cfg.priceToIndex_lt (hvalid hm) (hbehind hm)
  dsimp only
  rw [State.sendResponse_book, hs]
  refine matchTakerChecked_inRange _ ?_
  rw [State.sendResponse_book]
  exact hidx

/-- The count of a level after one of its orders is taken out. -/
theorem removeOrderFromLevel_count {b b' : OrderBook} {ptr pl qty : Nat} {o : Order}
    (h : b.removeOrderFromLevel ptr = some b') (ho : b.orders ptr = some o) (hpl : o.priceLevel = some pl)
    (hzero : ((b'.subtractQty pl qty).priceArray pl).orderCount = 0) : (b.priceArray pl).orderCount ≤ 1 := by
  unfold OrderBook.removeOrderFromLevel at h
  obtain ⟨o', ho', h⟩ := Option.bind_eq_some_iff.mp h
  obtain ⟨prev, -, h⟩ := Option.bind_eq_some_iff.mp h
  obtain ⟨next, -, h⟩ := Option.bind_eq_some_iff.mp h
  obtain ⟨pl', hpl', h⟩ := Option.bind_eq_some_iff.mp h
  obtain rfl := Option.some.inj h
  obtain rfl := Option.some.inj (ho.symm.trans ho')
  obtain rfl := Option.some.inj (hpl.symm.trans hpl')
  simp only [OrderBook.subtractQty, OrderBook.modifyLevel, Function.update_self] at hzero
  omega

theorem handleCancelOrderChecked_inRange (h : Fits st.book req) (hact : req.action = .cancel) :
    InRange (st.handleCancelOrderChecked req) := by
  unfold State.handleCancelOrderChecked
  split
  · exact .ok _
  rename_i ptr hptr
  refine InRange.bind (.elsewhere _) fun o ho => InRange.bind (.elsewhere _) fun b hb => ?_
  refine InRange.bind (.elsewhere _) fun pl hpl => InRange.bind ?_ fun b' _ => .ok _
  refine removeIfEmptyChecked_inRange fun hzero => ?_
  have ho := orFault_ok ho
  exact h.cancel hact ptr o pl hptr ho (orFault_ok hpl)
    (removeOrderFromLevel_count (b := st.book.eraseActive o.orderId) (orFault_ok hb) ho (orFault_ok hpl) hzero)

theorem replaceOrderChecked_inRange {ptr pl target newQty : Nat} {o : Order}
    (ho : st.book.orders ptr = some o) (hpl : o.priceLevel = some pl)
    (htarget : target < st.book.cfg.maxPriceLevels)
    (hside : (newQty = o.executed ∧ (st.book.priceArray pl).orderCount ≤ 1) ∨
      (o.executed < newQty ∧ (pl ≠ target ∨ o.qtyOriginal < newQty)) → ∃ s : Slot, req.side = s.side) :
    InRange (st.replaceOrderChecked req ptr o pl target newQty) := by
  unfold Order.executed at hside
  unfold State.replaceOrderChecked
  dsimp only
  split
  · exact .ok _
  rename_i hexec
  split
  · exact .ok _
  split
  · rename_i hmove
    rw [State.sendResponse_book]
    -- the order is matched again, unless nothing is left of it
    have hagain : newQty - (o.qtyOriginal - o.qtyRemaining) ≠ 0 → ∃ s : Slot, req.side = s.side := by
      intro hleft
      refine hside (Or.inr ⟨by omega, ?_⟩)
      exact (hmove.resolve_left hleft).imp_right fun hmore => by omega
    refine InRange.bind (.elsewhere _) fun b hb => ?_
    have hb := orFault_ok hb
    refine InRange.bind (removeIfEmptyChecked_inRange fun hzero => ?_) fun b' hb' => ?_
    · by_cases hleft : newQty - (o.qtyOriginal - o.qtyRemaining) = 0
      · exact hside (Or.inl ⟨by omega, removeOrderFromLevel_count hb ho hpl hzero⟩)
      · exact hagain hleft
    split
    · exact .ok _
    · rename_i hleft
      obtain ⟨s, hs⟩ := hagain hleft
      rw [hs]
      refine matchTakerChecked_inRange ptr ?_
      have hqty : Confines b (b.subtractQty pl o.qtyRemaining) := .modifyLevel ..
      have hcfg := ((Confines.removeOrderFromLevel hb).trans hqty).trans
        (Confines.removeIfEmpty (orFault_ok hb'))
      show target < b'.cfg.maxPriceLevels
      rw [hcfg.cfg]
      exact htarget
  · exact .ok _

theorem handleModifyOrderChecked_inRange (hb : st.book.Bounded) (h : Fits st.book req)
    (hact : req.action = .modify) : InRange (st.handleModifyOrderChecked req) := by
  unfold State.handleModifyOrderChecked
  split
  · exact .ok _
  rename_i ptr hptr
  refine InRange.bind (.elsewhere _) fun o ho => ?_
  split
  · exact .ok _
  rename_i hq
  split
  · exact .ok _
  rename_i hprice
  have hq := Nat.le_of_not_lt hq
  have hvalid : req.p ≠ 0 → st.book.cfg.priceInvalid req.p = 0 := by
    intro hp
    by_contra hne
    exact hprice ⟨hp, hne⟩
  refine InRange.bind (.elsewhere _) fun pl hpl => ?_
  have ho := orFault_ok ho
  have hpl := orFault_ok hpl
  have hlevel : o.level = pl := by
    unfold Order.level
    rw [hpl]
    rfl
  have htarget : (if req.p ≠ 0 then st.book.cfg.priceToIndex req.p else pl) = req.target st.book.cfg o := by
    unfold OrderRequest.target
    rw [hlevel]
  have hlt : req.target st.book.cfg o < st.book.cfg.maxPriceLevels := by
    rw [← htarget]
    split
    · rename_i hp
      exact st.book.cfg.priceToIndex_lt (hvalid hp) (h.price hact (by rw [hptr]; rfl) hq hp (hvalid hp))
    · exact hb ho hpl
  dsimp only
  rw [htarget, if_pos hlt]
  exact replaceOrderChecked_inRange ho hpl hlt (h.modify hact ptr o pl hptr ho hpl hq hvalid)

/-- One request. -/
theorem checked_inRange (hb : st.book.Bounded) (h : Fits st.book req) : InRange (st.checked req) := by
  unfold State.checked
  split
  · rename_i hact
    exact handleCancelOrderChecked_inRange h hact
  · rename_i hact
    exact handleModifyOrderChecked_inRange hb h hact
  · rename_i hact
    split
    · exact .ok _
    · rename_i hprice
      refine handleNewOrderChecked_inRange h hact fun hm => ?_
      by_contra hne
      exact hprice ⟨hm, hne⟩
  · exact .ok _

end Requests

/-- The states reached by requests of any kind, as long as they have a meaning. -/
inductive Driven (c : Config) : State → Prop
  | fresh (gen : Nat → Nat) : Driven c ⟨.fresh c, gen, []⟩
  | step {st st' : State} {req : OrderRequest} (h : Driven c st)
      (hrun : st.processRequest req = some st') : Driven c st'

/-- By induction on the run: every level an order names is inside the array. -/
theorem Driven.bounded {c : Config} {st : State} (h : Driven c st) : st.book.cfg = c ∧ st.book.Bounded := by
  induction h with
  | fresh gen => exact ⟨rfl, fun ho => by cases ho⟩
  | step _ hrun ih =>
    have hconfines := Confines.processRequest hrun
    exact ⟨hconfines.cfg.trans ih.1, hconfines.bounded ih.2⟩

/-- In every state that requests lead to, a request that fits has all its subscripts in range. -/
theorem subscripts_in_range {c : Config} {st : State} {req : OrderRequest} (h : Driven c st)
    (hreq : Fits st.book req) : InRange (st.checked req) :=
  checked_inRange h.bounded.2 hreq

/-- A bid for an offer that rests at the last level. -/
theorem sample_subscripts : ∃ st, Driven sampleConfig st ∧ st.out.length = 1 ∧
    InRange (st.checked (sampleRequest .new 2 .buy 40 5)) := by
  have hoffer : ((State.mk (.fresh sampleConfig) id []).processRequest
      (sampleRequest .new 1 .sell 40 7)).any (fun st => st.out.length = 1) = true := by decide +kernel
  obtain ⟨st, hrun, hlen⟩ := (Option.any_eq_true ..).mp hoffer
  have hst := (Driven.fresh id).step hrun
  refine ⟨st, hst, of_decide_eq_true hlen, subscripts_in_range hst ⟨?_, ?_, ?_, ?_⟩⟩
  · intro _ _ _ _ _ _
    rw [hst.bounded.1]
    exact ⟨⟨.bid, rfl⟩, fun _ => by decide⟩
  · exact fun hact => by cases hact
  · exact fun hact => by cases hact
  · exact fun hact => by cases hact

/-- One step behind the last of eight levels, and without a side. -/
theorem subscripts_out_of_range :
    Driven sampleConfig ⟨.fresh sampleConfig, id, []⟩ ∧ 0 ≤ sampleConfig.priceIndexOffset ∧
    (State.mk (.fresh sampleConfig) id []).checked (sampleRequest .new 1 .sell 45 7) =
      .error (.priceArray 8) ∧ sampleConfig.maxPriceLevels = 8 ∧
    (State.mk (.fresh sampleConfig) id []).checked (sampleRequest .new 1 .none 20 7) =
      .error (.bestLevels 3) :=
  ⟨.fresh id, by decide, rfl, rfl, rfl⟩

end Exchange
