import Exchange.Book.Records

/-!
# What a request is acknowledged under

Whatever the requests, the entries of `active_orders_` lead to orders of their own id
(`Indexed`): heap orders never change their id, and no memory is given out twice. So the
acknowledgement of a request is about the order that the request names, also where it is the
order that is asked for its id (`Cancelled`).

`Retains` is what every operation on a book but `active_orders_[id] = o` does to the ids.
-/

namespace Exchange

/-- The entries of `active_orders_` bear the ids of their orders. -/
structure OrderBook.Indexed (b : OrderBook) : Prop where
  allocated : ∀ {k ptr : Nat}, b.activeOrders k = some ptr → ptr < b.nextOrder
  names : ∀ {k ptr : Nat} {o : Order}, b.activeOrders k = some ptr → b.orders ptr = some o → o.orderId = k

/-- What holds across every edit that `match` makes to a book. -/
structure MatchEdits (R : OrderBook → OrderBook → Prop) : Prop where
  refl : ∀ b, R b b
  trans : ∀ {b b' b''}, R b b' → R b' b'' → R b b''
  trade : ∀ (st : State) (taker maker : Nat) (s : Slot) (oppo : Nat) (t m : Order),
    R st.book (st.trade taker maker s oppo t m).book
  eraseActive : ∀ b id, R b (b.eraseActive id)
  removeOrderFromLevel : ∀ {b b' : OrderBook} {ptr : Nat}, b.removeOrderFromLevel ptr = some b' → R b b'
  removeIfEmpty : ∀ {b b' : OrderBook} {pl : Nat} {side : Side}, b.removeIfEmpty pl side = some b' → R b b'
  delete : ∀ b ptr, R b (b.delete ptr)

namespace MatchEdits

variable {R : OrderBook → OrderBook → Prop}

/-- The loop over the makers of a level: what every edit keeps, it keeps. -/
theorem matchMakers (h : MatchEdits R) {taker : Nat} {s : Slot} {oppo : Nat} (fuel : Nat) :
    ∀ {maker : OrderNode} {st st' : State}, State.matchMakers taker s oppo fuel maker st = some st' →
      R st.book st'.book := by
  induction fuel with
  | zero =>
    intro maker st st' hrun
    cases hrun
  | succ fuel ih =>
    intro maker st st' hrun
    rw [State.matchMakers] at hrun
    obtain ⟨t, -, hrun⟩ := Option.bind_eq_some_iff.mp hrun
    split at hrun
    · obtain rfl := Option.some.inj hrun
      exact h.refl _
    · obtain ⟨ptr, -, hrun⟩ := Option.bind_eq_some_iff.mp hrun
      obtain ⟨m, -, hrun⟩ := Option.bind_eq_some_iff.mp hrun
      refine h.trans (h.trade st taker ptr s oppo t m) ?_
      split at hrun
      · exact ih hrun
      · obtain ⟨b, hb, hrun⟩ := Option.bind_eq_some_iff.mp hrun
        obtain ⟨next, -, hrun⟩ := Option.bind_eq_some_iff.mp hrun
        refine h.trans (h.eraseActive _ m.orderId) (h.trans (h.removeOrderFromLevel hb) ?_)
        exact h.trans (h.delete b ptr) (ih hrun)

/-- So it holds across the loops. -/
theorem matchLevels (h : MatchEdits R) {taker : Nat} {s : Slot} {priceIdx : Nat} (fuel : Nat) :
    ∀ {st st' : State}, State.matchLevels taker s priceIdx fuel st = some st' →
      R st.book st'.book := by
  induction fuel with
  | zero =>
    intro st st' hrun
    cases hrun
  | succ fuel ih =>
    intro st st' hrun
    rw [State.matchLevels] at hrun
    split at hrun
    · obtain rfl := Option.some.inj hrun
      exact h.refl _
    · obtain ⟨t, -, hrun⟩ := Option.bind_eq_some_iff.mp hrun
      split at hrun
      · obtain rfl := Option.some.inj hrun
        exact h.refl _
      · split at hrun
        · obtain ⟨maker, -, hrun⟩ := Option.bind_eq_some_iff.mp hrun
          obtain ⟨st₁, hmakers, hrun⟩ := Option.bind_eq_some_iff.mp hrun
          obtain ⟨b, hb, hrun⟩ := Option.bind_eq_some_iff.mp hrun
          exact h.trans (h.matchMakers _ hmakers) (h.trans (h.removeIfEmpty hb) (ih hrun))
        · obtain rfl := Option.some.inj hrun
          exact h.refl _

end MatchEdits

/-- Orders keep their ids, and no entry is made. -/
structure Retains (b b' : OrderBook) : Prop where
  next : b.nextOrder ≤ b'.nextOrder
  orders : ∀ {ptr : Nat} {o' : Order}, ptr < b.nextOrder → b'.orders ptr = some o' →
    ∃ o, b.orders ptr = some o ∧ o.orderId = o'.orderId
  active : ∀ {k ptr : Nat}, b'.activeOrders k = some ptr → b.activeOrders k = some ptr

namespace Retains

variable {b b' b'' : OrderBook}

/-- Nothing of it has changed. -/
theorem same (hnext : b'.nextOrder = b.nextOrder) (horders : b'.orders = b.orders)
    (hactive : b'.activeOrders = b.activeOrders) : Retains b b' := by
  refine ⟨hnext.ge, fun {ptr o'} _ ho => ⟨o', ?_, rfl⟩, fun {k ptr} hk => ?_⟩
  · rw [← horders]
    exact ho
  · rw [← hactive]
    exact hk

theorem of_same (h : SameOrders b b') : Retains b b' := same h.nextOrder h.orders h.activeOrders

theorem refl (b : OrderBook) : Retains b b := same rfl rfl rfl

theorem trans (h : Retains b b') (h' : Retains b' b'') : Retains b b'' := by
  refine ⟨h.next.trans h'.next, fun hptr ho => ?_, fun hk => h.active (h'.active hk)⟩
  obtain ⟨o', ho', hid'⟩ := h'.orders (Nat.lt_of_lt_of_le hptr h.next) ho
  obtain ⟨o, ho, hid⟩ := h.orders hptr ho'
  exact ⟨o, ho, hid.trans hid'⟩

/-- The index names orders that are there, before and after. -/
theorem indexed (h : Retains b b') (hb : b.Indexed) : b'.Indexed := by
  refine ⟨fun hk => ?_, fun hk ho => ?_⟩
  · exact Nat.lt_of_lt_of_le (hb.allocated (h.active hk)) h.next
  · obtain ⟨o, ho, hid⟩ := h.orders (hb.allocated (h.active hk)) ho
    exact hid.symm.trans (hb.names (h.active hk) ho)

theorem modifyLevel (b : OrderBook) (pl : Nat) (f : PriceLevel → PriceLevel) :
    Retains b (b.modifyLevel pl f) := same rfl rfl rfl

/-- One order is rewritten. -/
theorem rewritten {f : Order → Order} (hf : ∀ o, (f o).orderId = o.orderId) (ptr : Nat)
    (hnext : b'.nextOrder = b.nextOrder)
    (horders : b'.orders = Function.update b.orders ptr ((b.orders ptr).map f))
    (hactive : b'.activeOrders = b.activeOrders) : Retains b b' := by
  refine ⟨hnext.ge, fun {ptr' o'} _ ho => ?_, fun {k ptr} hk => hactive ▸ hk⟩
  rw [horders] at ho
  by_cases hp : ptr' = ptr
  · subst hp
    rw [Function.update_self] at ho
    obtain ⟨o, hmem, rfl⟩ := Option.map_eq_some_iff.mp ho
    exact ⟨o, hmem, (hf o).symm⟩
  · rw [Function.update_of_ne hp] at ho
    exact ⟨o', ho, rfl⟩

/-- Rewriting an order, but for its id. -/
theorem modifyOrder (b : OrderBook) (ptr : Nat) {f : Order → Order} (hf : ∀ o, (f o).orderId = o.orderId) :
    Retains b (b.modifyOrder ptr f) := rewritten hf ptr rfl rfl rfl

theorem delete (b : OrderBook) (ptr : Nat) : Retains b (b.delete ptr) := by
  refine ⟨le_rfl, fun {ptr' o'} _ ho => ⟨o', ?_, rfl⟩, id⟩
  by_cases hp : ptr' = ptr
  · subst hp
    cases (Function.update_self ..).symm.trans ho
  · exact (Function.update_of_ne hp ..).symm.trans ho

theorem eraseActive (b : OrderBook) (id : Nat) : Retains b (b.eraseActive id) := by
  refine ⟨le_rfl, fun {ptr o'} _ ho => ⟨o', ho, rfl⟩, fun {k ptr} hk => ?_⟩
  by_cases hid : k = id
  · subst hid
    cases (Function.update_self ..).symm.trans hk
  · exact (Function.update_of_ne hid ..).symm.trans hk

theorem allocate (b : OrderBook) (o : Order) : Retains b (b.allocate o) := by
  refine ⟨Nat.le_succ _, fun {ptr o'} hptr ho => ⟨o', ?_, rfl⟩, id⟩
  exact (Function.update_of_ne (Nat.ne_of_lt hptr) ..).symm.trans ho

theorem removeOrderFromLevel {ptr : Nat} (h : b.removeOrderFromLevel ptr = some b') : Retains b b' :=
  of_same (.removeOrderFromLevel h)

theorem removeIfEmpty {pl : Nat} {side : Side} (h : b.removeIfEmpty pl side = some b') :
    Retains b b' :=
  of_same (.removeIfEmpty h)

theorem getOrCreatePriceLevel {pl : Nat} {side : Side} (h : b.getOrCreatePriceLevel pl side = some b') :
    Retains b b' :=
  of_same (.getOrCreatePriceLevel h)

theorem insertOrderToLevel {pl order : Nat} (h : b.insertOrderToLevel pl order = some b') :
    Retains b b' := by
  unfold OrderBook.insertOrderToLevel at h
  obtain ⟨o, -, h⟩ := Option.bind_eq_some_iff.mp h
  obtain ⟨tail, -, h⟩ := Option.bind_eq_some_iff.mp h
  obtain rfl := Option.some.inj h
  exact rewritten (f := fun o => { o with priceLevel := some pl }) (fun _ => rfl) order rfl rfl rfl

/-- Sending a record changes no book. -/
theorem sendResponse {st : State} (h : Retains b st.book) (e : ExecType) (combined execId : Nat)
    (side : Side) (p : Int) (q qRem : Nat) (code : RejectCode) :
    Retains b (st.sendResponse e combined execId side p q qRem code).book := by
  rw [State.sendResponse_book]
  exact h

theorem trade (st : State) (taker maker : Nat) (s : Slot) (oppo : Nat) (t m : Order) :
    Retains st.book (st.trade taker maker s oppo t m).book := by
  unfold State.trade
  dsimp only
  rw [State.sendResponse_book, State.sendResponse_book]
  have hfill : ∀ (b : OrderBook) (ptr : Nat), Retains b (b.modifyOrder ptr fun o =>
      { o with qtyRemaining := o.qtyRemaining - min m.qtyRemaining t.qtyRemaining }) :=
    fun b ptr => modifyOrder b ptr fun _ => rfl
  exact ((hfill _ maker).trans (hfill _ taker)).trans (same rfl rfl rfl)

/-- It holds across a match. -/
theorem matchEdits : MatchEdits Retains where
  refl := refl
  trans := trans
  trade := trade
  eraseActive := eraseActive
  removeOrderFromLevel := removeOrderFromLevel
  removeIfEmpty := removeIfEmpty
  delete := delete

end Retains

/-! ## Requests -/

section Requests

variable {st st' : State} {req : OrderRequest}

/-- One more id in the index, for an order that has it. -/
theorem OrderBook.Indexed.setActive {b : OrderBook} (hb : b.Indexed) {k ptr : Nat}
    (hptr : ptr < b.nextOrder) (hid : ∀ o, b.orders ptr = some o → o.orderId = k) :
    (b.setActive k ptr).Indexed := by
  have hentry : ∀ {k' ptr'}, (b.setActive k ptr).activeOrders k' = some ptr' →
      (k' = k ∧ ptr' = ptr) ∨ b.activeOrders k' = some ptr' := by
    intro k' ptr' hk
    unfold OrderBook.setActive at hk
    dsimp only at hk
    by_cases hsame : k' = k
    · rw [hsame, Function.update_self] at hk
      exact Or.inl ⟨hsame, (Option.some.inj hk).symm⟩
    · rw [Function.update_of_ne hsame] at hk
      exact Or.inr hk
  refine ⟨fun hk => ?_, fun {k' ptr' o} hk ho => ?_⟩
  · rcases hentry hk with ⟨-, rfl⟩ | hk
    · exact hptr
    · exact hb.allocated hk
  · rcases hentry hk with ⟨rfl, rfl⟩ | hk
    · exact hid o ho
    · exact hb.names hk ho

/-- `match` enters the order under its own id. -/
theorem OrderBook.Indexed.matchTaker {taker : Nat} {side : Side} {priceIdx : Nat} (hb : st.book.Indexed)
    (htaker : taker < st.book.nextOrder) (h : st.matchTaker taker side priceIdx = some st') :
    st'.book.Indexed := by
  unfold State.matchTaker at h
  obtain ⟨s, -, h⟩ := Option.bind_eq_some_iff.mp h
  obtain ⟨st₁, hlevels, h⟩ := Option.bind_eq_some_iff.mp h
  obtain ⟨t, ht, h⟩ := Option.bind_eq_some_iff.mp h
  have hmatched := Retains.matchEdits.matchLevels _ hlevels
  split at h
  · obtain rfl := Option.some.inj h
    have hgone := (Retains.eraseActive st₁.book t.orderId).trans (Retains.delete _ taker)
    exact (hmatched.trans hgone).indexed hb
  · obtain ⟨b, hlevel, h⟩ := Option.bind_eq_some_iff.mp h
    obtain ⟨b', hinsert, h⟩ := Option.bind_eq_some_iff.mp h
    obtain rfl := Option.some.inj h
    have hrests := (Retains.getOrCreatePriceLevel hlevel).trans (Retains.insertOrderToLevel hinsert)
    have hb' := (hmatched.trans hrests).indexed hb
    have hfresh : taker < st₁.book.nextOrder := Nat.lt_of_lt_of_le htaker hmatched.next
    refine hb'.setActive (Nat.lt_of_lt_of_le hfresh hrests.next) fun o ho => ?_
    obtain ⟨t', ht', hid⟩ := hrests.orders hfresh ho
    obtain rfl := Option.some.inj (ht.symm.trans ht')
    exact hid.symm

/-- The first record sent from `st` to `st'` is about the order that the request names. -/
def FirstNames (st : State) (req : OrderRequest) (st' : State) : Prop :=
  ∃ ack rs, Emits st st' (ack :: rs) ∧ ack.clientId = req.clientId

/-- The acknowledgement is the first record, and only trades come behind it. -/
theorem FirstNames.intro {b : OrderBook} (hkeep : Keeps st.book b) (e : ExecType) (execId : Nat)
    (side : Side) (p : Int) (q qRem : Nat) (code : RejectCode)
    (h : Trades (State.sendResponse { st with book := b } e req.combinedId execId side p q qRem code) st') :
    FirstNames st req st' := by
  obtain ⟨rs, hrest, -⟩ := h
  have hsent := (Emits.silent st st.gen hkeep.cfg hkeep.mode).trans
    (Emits.send { st with book := b } e req.combinedId execId side p q qRem code)
  exact ⟨_, rs, hsent.trans hrest, clientIdOf_combined _ _⟩

theorem FirstNames.reject (st : State) (req : OrderRequest) (qRem : Nat) (code : RejectCode) :
    FirstNames st req (st.reject req qRem code) :=
  .intro (b := st.book) ⟨rfl, rfl⟩ .rejected req.execId req.side req.p req.q qRem code (.refl _)

theorem reject_named (hb : st.book.Indexed) (qRem : Nat) (code : RejectCode) :
    (st.reject req qRem code).book.Indexed ∧ FirstNames st req (st.reject req qRem code) :=
  ⟨(Retains.sendResponse (.refl _) ..).indexed hb, .reject st req qRem code⟩

theorem handleNewOrder_named (hb : st.book.Indexed) (h : st.handleNewOrder req = some st') :
    st'.book.Indexed ∧ FirstNames st req st' := by
  unfold State.handleNewOrder at h
  split at h
  · obtain rfl := Option.some.inj h
    exact reject_named hb _ _
  split at h
  · obtain rfl := Option.some.inj h
    exact reject_named hb _ _
  split at h
  · obtain rfl := Option.some.inj h
    exact reject_named hb _ _
  · have hnew := (Retains.allocate st.book (State.createOrder req)).indexed hb
    refine ⟨OrderBook.Indexed.matchTaker ?_ ?_ h, ?_⟩
    · rw [State.sendResponse_book]
      exact hnew
    · rw [State.sendResponse_book]
      exact Nat.lt_succ_self _
    · exact .intro (b := st.book.allocate (State.createOrder req)) ⟨rfl, rfl⟩ .new req.execId req.side
        req.p req.q req.q .none (matchTaker_only_trades h)

theorem handleCancelOrder_named (hb : st.book.Indexed) (h : st.handleCancelOrder req = some st') :
    st'.book.Indexed ∧ FirstNames st req st' := by
  unfold State.handleCancelOrder at h
  split at h
  · obtain rfl := Option.some.inj h
    exact reject_named hb _ _
  · rename_i ptr hptr
    obtain ⟨o, ho, h⟩ := Option.bind_eq_some_iff.mp h
    obtain ⟨b, hgone, h⟩ := Option.bind_eq_some_iff.mp h
    obtain ⟨pl, -, h⟩ := Option.bind_eq_some_iff.mp h
    obtain ⟨b', hempty, h⟩ := Option.bind_eq_some_iff.mp h
    obtain rfl := Option.some.inj h
    -- the entry for the request's id is that of the order
    have hid : o.orderId = req.combinedId := hb.names hptr ho
    have hretains : Retains st.book b' := by
      refine (Retains.eraseActive _ o.orderId).trans ((Retains.removeOrderFromLevel hgone).trans ?_)
      exact (Retains.modifyLevel b pl _).trans (Retains.removeIfEmpty hempty)
    have hkeep : Keeps st.book b' := by
      have hgone := Keeps.removeOrderFromLevel hgone
      have hempty := Keeps.removeIfEmpty hempty
      exact (show Keeps st.book b from ⟨hgone.cfg, hgone.mode⟩).trans ⟨hempty.cfg, hempty.mode⟩
    refine ⟨?_, ?_⟩
    · dsimp only
      rw [State.sendResponse_book]
      exact (hretains.trans (Retains.delete b' ptr)).indexed hb
    · rw [hid]
      exact .intro hkeep .cancelled req.execId req.side _ _ _ _ (.edit ⟨rfl, rfl⟩)

theorem replaceOrder_named {ptr pl target newQty : Nat} {o : Order} (hb : st.book.Indexed)
    (hptr : ptr < st.book.nextOrder) (h : st.replaceOrder req ptr o pl target newQty = some st') :
    st'.book.Indexed := by
  unfold State.replaceOrder at h
  dsimp only at h
  split at h
  · obtain rfl := Option.some.inj h
    exact (Retains.sendResponse (.refl _) ..).indexed hb
  split at h
  · obtain rfl := Option.some.inj h
    exact (Retains.sendResponse (.refl _) ..).indexed hb
  split at h
  · obtain ⟨b, hgone, h⟩ := Option.bind_eq_some_iff.mp h
    obtain ⟨b', hempty, h⟩ := Option.bind_eq_some_iff.mp h
    rw [State.sendResponse_book] at hgone
    have hretains : Retains st.book b' := (Retains.removeOrderFromLevel hgone).trans
      ((Retains.modifyLevel b pl _).trans (Retains.removeIfEmpty hempty))
    split at h
    · obtain rfl := Option.some.inj h
      dsimp only
      rw [State.sendResponse_book]
      have hdone := (Retains.eraseActive b' o.orderId).trans (Retains.delete _ ptr)
      exact (hretains.trans hdone).indexed hb
    · refine OrderBook.Indexed.matchTaker ?_ ?_ h
      · refine Retains.indexed (Retains.modifyOrder b' ptr ?_) (hretains.indexed hb)
        exact fun _ => rfl
      · exact Nat.lt_of_lt_of_le hptr hretains.next
  · obtain rfl := Option.some.inj h
    dsimp only
    rw [State.sendResponse_book]
    refine Retains.indexed (Retains.modifyOrder _ ptr ?_) ((Retains.modifyLevel st.book pl _).indexed hb)
    exact fun _ => rfl

theorem handleModifyOrder_named (hb : st.book.Indexed) (h : st.handleModifyOrder req = some st') :
    st'.book.Indexed ∧ FirstNames st req st' := by
  unfold State.handleModifyOrder at h
  split at h
  · obtain rfl := Option.some.inj h
    exact reject_named hb _ _
  · rename_i ptr hptr
    obtain ⟨o, -, h⟩ := Option.bind_eq_some_iff.mp h
    split at h
    · obtain rfl := Option.some.inj h
      exact reject_named hb _ _
    split at h
    · obtain rfl := Option.some.inj h
      exact reject_named hb _ _
    obtain ⟨pl, -, h⟩ := Option.bind_eq_some_iff.mp h
    dsimp only at h
    generalize (if req.p ≠ 0 then st.book.cfg.priceToIndex req.p else pl) = target at h
    generalize (if req.q ≠ 0 then req.q else o.qtyOriginal) = newQty at h
    refine ⟨replaceOrder_named hb (hb.allocated hptr) h, ?_⟩
    by_cases hqty : newQty < o.qtyOriginal - o.qtyRemaining
    · rw [replaceOrder_refused hqty h]
      exact .reject ..
    · exact .intro (b := st.book) ⟨rfl, rfl⟩ .replaced _ _ _ _ _ _ (replaceOrder_only_trades hqty h)

/-- A request leaves the book indexed, and its first record is about the order it names. -/
theorem processRequest_named (hb : st.book.Indexed) (h : st.processRequest req = some st') :
    st'.book.Indexed ∧ FirstNames st req st' := by
  unfold State.processRequest at h
  split at h
  · exact handleCancelOrder_named hb h
  · exact handleModifyOrder_named hb h
  · split at h
    · obtain rfl := Option.some.inj h
      exact reject_named hb _ _
    · exact handleNewOrder_named hb h
  · obtain rfl := Option.some.inj h
    exact reject_named hb _ _

end Requests

end Exchange
