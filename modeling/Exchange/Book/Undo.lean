import Exchange.Book.Replay
import Exchange.Book.SideField
import Exchange.Book.Taking

/-!
# Cancelling a new order

A new order that trades with nothing is put behind its level's queue, and its level, if it is new, between its
neighbours in the chain. Cancelling it takes both out again by their links alone.

The two handlers are followed down to the pointers: `Placed` is the book with the order in it, on the queues that
had been there with one more pointer at the back, and dropping that pointer gives back the very queues
(`cancel_undoes_new`). What the fields say then follows, as the invariant determines them from the queues.
-/

namespace Exchange

/-- The book is as it was: ids, level maps, best levels, queues and counters, and the links of each level. -/
structure Restored (b b' : OrderBook) : Prop extends SameFields b b' where
  worse : ∀ s, ∀ i ∈ b.activeLevels s, b'.chain.next i = b.chain.next i
  better : ∀ s, ∀ i ∈ b.activeLevels s, b'.chain.prev i = b.chain.prev i

theorem Restored.refl (b : OrderBook) : Restored b b :=
  ⟨⟨rfl, rfl, rfl, fun _ => rfl, fun _ _ => rfl, fun _ _ => rfl, fun _ _ _ _ => rfl⟩, fun _ _ _ => rfl,
    fun _ _ _ => rfl⟩

/-- The same pointers to the same orders in the same queues, and the same sides: the books are the same. -/
theorem Inv.restored {b b' : OrderBook} {q : Nat → List Nat} (h : Inv b q) (h' : Inv b' q) (hcfg : b'.cfg = b.cfg)
    (hlob : b'.lob = b.lob) (hactive : b'.activeOrders = b.activeOrders)
    (horders : ∀ i, ∀ p ∈ q i, b'.orders p = b.orders p) : Restored b b' := by
  have hlevels : b'.activeLevels = b.activeLevels :=
    h.levels_alike h' (f := id) (fun _ => rfl) (fun s => by rw [hlob])
  have hwalk : ∀ s, levelsOf b'.activeLevels s = levelsOf b.activeLevels s := fun s => by rw [hlevels]
  have hlinks : ∀ s, ∀ i ∈ b.activeLevels s,
      b'.chain.next i = b.chain.next i ∧ b'.chain.prev i = b.chain.prev i := fun s i hi =>
    Dll.fields_eq (hwalk s ▸ h'.chained.dll s) (h.chained.dll s) (mem_levelsOf.mpr hi)
  refine ⟨⟨hactive, hlevels, ?_, fun s => ?_, fun i _ => ?_, fun i hi => ?_, fun i hi p hp => ?_⟩,
    fun s i hi => (hlinks s i hi).1, fun s i hi => (hlinks s i hi).2⟩
  · funext s
    rw [h.chained.best, h'.chained.best, hwalk]
  · rw [h.worseWalk_eq, h'.worseWalk_eq, hwalk]
  · rw [h.counters (f := id) (fun _ => rfl), h'.counters (f := id) (fun _ => rfl), contents_congr (horders i)]
  · rw [h.queueOf_eq hi, h'.queueOf_eq (hcfg ▸ hi)]
  · rw [h.queueOf_eq hi] at hp
    exact horders i p hp

/-- The best level is that of the first order of its side. -/
theorem Inv.head_level {b : OrderBook} {q : Nat → List Nat} (h : Inv b q) (s : Slot) :
    (b.lob s).head?.map Order.level = b.bestLevels s := by
  rw [h.lob_eq, h.chained.best]
  unfold flat
  cases hl : levelsOf b.activeLevels s with
  | nil => rfl
  | cons i is =>
    have hi : i ∈ b.activeLevels s := mem_levelsOf.mp (hl ▸ List.mem_cons_self)
    obtain ⟨p, ps, hq⟩ := List.exists_cons_of_ne_nil (h.full s i hi)
    have hlevel := h.alive.level (hq ▸ List.mem_cons_self : p ∈ q i)
    unfold contents
    rw [List.flatMap_cons, hq, List.map_cons, List.cons_append, List.head?_cons, List.head?_cons, Option.map_some,
      hlevel]

/-- The pointer that is given out next is in no queue. -/
theorem Inv.loose {b : OrderBook} {q : Nat → List Nat} (h : Inv b q) (i : Nat) : b.nextOrder ∉ q i := by
  intro hp
  obtain ⟨o, ho, -⟩ := h.alive i _ hp
  rw [h.fresh le_rfl] at ho
  cases ho

/-- A pointer pushed and dropped again. -/
theorem dropPtr_pushPtr {q : Nat → List Nat} {p : Nat} (h : ∀ i, p ∉ q i) (i : Nat) :
    dropPtr (pushPtr q i p) p = q := by
  funext j
  by_cases hj : j = i
  · subst hj
    unfold dropPtr
    rw [pushPtr_self, List.filter_append, List.filter_cons_of_neg (by simp), List.filter_nil, List.append_nil]
    exact dropPtr_of_not_mem (h j)
  · have hmem : p ∉ pushPtr q i p j := by
      rw [pushPtr_ne hj]
      exact h j
    rw [dropPtr_of_not_mem hmem, pushPtr_ne hj]

/-! ## Placing an order -/

/-- `b'` is `b` with one more order, `o`, at the back of the queue of `i` on side `s`. -/
structure Placed (b b' : OrderBook) (q : Nat → List Nat) (s : Slot) (i : Nat) (o : Order) : Prop where
  inv : Inv b' (pushPtr q i b.nextOrder)
  cfg : b'.cfg = b.cfg
  orders : b'.orders = Function.update b.orders b.nextOrder (some o)
  activeOrders : b'.activeOrders = Function.update b.activeOrders o.orderId (some b.nextOrder)
  active : i ∈ b'.activeLevels s
  lob : b'.lob = Function.update b.lob s (place s o (b.lob s))

/-- A taker that crosses nothing does not trade. -/
theorem matchLevels_passive {st : State} {t idx : Nat} {s : Slot} {o : Order} (ht : st.book.orders t = some o)
    (hpass : (st.book.bestLevels s.flip).any (State.crossed s idx) = false) (fuel : Nat) :
    State.matchLevels t s idx (fuel + 1) st = some st := by
  unfold State.matchLevels
  cases hbest : st.book.bestLevels s.flip with
  | none => rfl
  | some oppo =>
    rw [hbest] at hpass
    have hcross : State.crossed s idx oppo = false := hpass
    dsimp only
    rw [ht, hcross]
    show (if o.qtyRemaining = 0 then some st else if false = true then _ else some st) = some st
    rw [if_neg Bool.false_ne_true, ite_self]

/-- A level that does not cross the best one crosses none. -/
theorem Inv.passive {b : OrderBook} {q : Nat → List Nat} (h : Inv b q) {s : Slot} {idx : Nat}
    (hpass : (b.bestLevels s.flip).any (State.crossed s idx) = false) :
    ∀ j ∈ b.activeLevels s.flip, State.crossed s idx j = false := by
  intro j hj
  have hsorted := levelsOf_sorted b.activeLevels s.flip
  have hmem := mem_levelsOf.mpr hj
  rw [h.chained.best] at hpass
  cases hl : levelsOf b.activeLevels s.flip with
  | nil =>
    rw [hl] at hmem
    cases hmem
  | cons i is =>
    rw [hl] at hpass hmem hsorted
    have hi : State.crossed s idx i = false := hpass
    rcases List.mem_cons.mp hmem with rfl | hj
    · exact hi
    · have hbetter := (List.pairwise_cons.mp hsorted).1 j hj
      cases s <;> simp only [State.crossed, decide_eq_false_iff_not, Slot.better, Slot.flip] at hi hbetter ⊢ <;> omega

/-- A loose order that crosses nothing is placed. -/
theorem InvBut.placed {b : OrderBook} {q : Nat → List Nat} {t : Nat} {o : Order} (h : InvBut t o b q) (hf : Full b q)
    (hs : o.Sane) {s : Slot} {i : Nat} (hi : i < b.cfg.maxPriceLevels)
    (hx : ∀ j ∈ b.activeLevels s.flip, State.crossed s i j = false) :
    ∃ b₁ b₂, b.getOrCreatePriceLevel i s.side = some b₁ ∧ b₁.insertOrderToLevel i t = some b₂ ∧
      Inv (b₂.setActive o.orderId t) (pushPtr q i t) ∧ b₂.cfg = b.cfg ∧ i ∈ b₂.activeLevels s ∧
      b₂.orders = Function.update b.orders t (some { o with priceLevel := some i }) ∧
      b₂.activeOrders = b.activeOrders ∧ flat b₂ (pushPtr q i t) = Function.update (flat b q) s
        (place s { o with priceLevel := some i } (flat b q s)) := by
  obtain ⟨b₁, b₂, hb₁, hb₂, hinv, hcfg, -, hflat⟩ := h.rests hf hs hi hx
  obtain ⟨b₁', hb₁', hcore, hactive, -, hsame, -⟩ := h.toCore.create hf hi hx
  obtain rfl := Option.some.inj (hb₁.symm.trans hb₁')
  obtain ⟨b₂', hb₂', -, -, horders, -, hids, -, hlevels, -⟩ :=
    hcore.insert hactive (hsame.orders ▸ h.taker) h.loose hs
  obtain rfl := Option.some.inj (hb₂.symm.trans hb₂')
  refine ⟨b₁, b₂, hb₁, hb₂, hinv, hcfg, ?_, ?_, hids.trans hsame.activeOrders, hflat⟩
  · rw [hlevels]
    exact hactive
  · rw [horders, hsame.orders]

/-- `handleNewOrder` of an order that crosses nothing. -/
theorem handleNewOrder_placed {st : State} {q : Nat → List Nat} (h : Inv st.book q) {req : OrderRequest} {s : Slot}
    (hs : req.side = s.side) (hfresh : st.book.activeOrders req.combinedId = none)
    (hp : ¬ (req.p ≤ 0 ∧ req.type = .limit)) (hq : 1 ≤ req.q) (hmax : req.q ≤ globalMaxQty)
    (hidx : State.newIndex st.book.cfg req < st.book.cfg.maxPriceLevels)
    (hpass : (st.book.bestLevels s.flip).any (State.crossed s (State.newIndex st.book.cfg req)) = false) :
    ∃ st', st.handleNewOrder req = some st' ∧ Placed st.book st'.book q s (State.newIndex st.book.cfg req)
      { State.createOrder req with priceLevel := some (State.newIndex st.book.cfg req) } := by
  have hqty : ¬ (req.q = 0 ∨ globalMaxQty < req.q) := by omega
  obtain ⟨hbut, hfull, hflat⟩ := h.allocate (o := State.createOrder req) hfresh
  have hsane : (State.createOrder req).Sane := ⟨combinedOrderId_lt _ _, hq, le_rfl, hmax⟩
  obtain ⟨b₁, b₂, hb₁, hb₂, hinv, hcfg, hactive, horders, hids, hlob⟩ :=
    hbut.placed hfull hsane (s := s) hidx (h.passive hpass)
  -- nothing is traded between the acknowledgement and the level
  generalize hst₁ : State.sendResponse ⟨st.book.allocate (State.createOrder req), st.gen, st.out⟩ .new req.combinedId
    req.execId req.side req.p req.q req.q .none = st₁
  have hbook : st₁.book = st.book.allocate (State.createOrder req) := by rw [← hst₁, State.sendResponse_book]
  have htaker : st₁.book.orders st.book.nextOrder = some (State.createOrder req) := by
    rw [hbook]
    exact hbut.taker
  have hlevels : State.matchLevels st.book.nextOrder s (State.newIndex st.book.cfg req)
      (st₁.book.cfg.maxPriceLevels + 2) st₁ = some st₁ := by
    refine matchLevels_passive htaker ?_ _
    rw [hbook]
    exact hpass
  have hrest : (State.createOrder req).qtyRemaining ≠ 0 := Nat.one_le_iff_ne_zero.mp hq
  have hcfg₁ : st₁.book.cfg = st.book.cfg := by
    rw [hbook]
    rfl
  refine ⟨{ st₁ with book := b₂.setActive req.combinedId st.book.nextOrder }, ?_, ?_⟩
  · unfold State.handleNewOrder
    rw [hfresh, if_neg (by simp), if_neg hp, if_neg hqty]
    dsimp only
    rw [hst₁, hcfg₁]
    unfold State.matchTaker
    rw [hs, Slot.slot_side, Option.bind_eq_bind, Option.bind_some, hlevels, Option.bind_eq_bind, Option.bind_some,
      htaker, Option.bind_eq_bind, Option.bind_some, if_neg hrest, hbook, hb₁, Option.bind_eq_bind, Option.bind_some,
      hb₂]
    rfl
  · refine ⟨hinv, hcfg, ?_, ?_, hactive, ?_⟩
    · show b₂.orders = _
      rw [horders]
      exact Function.update_idem ..
    · show Function.update b₂.activeOrders _ _ = _
      rw [hids]
      rfl
    · rw [hflat, ← h.lob_eq] at hlob
      exact hinv.lob_eq.trans hlob

/-! ## Taking it out -/

/-- `handleCancelOrder` of a queued order. -/
theorem handleCancelOrder_takes {st : State} {q : Nat → List Nat} (h : Inv st.book q) {req : OrderRequest} {s : Slot}
    {i p : Nat} {o : Order} (hs : req.side = s.side) (hfind : st.book.activeOrders req.combinedId = some p)
    (hp : p ∈ q i) (ho : st.book.orders p = some o) (hi : i ∈ st.book.activeLevels s) :
    ∃ st', st.handleCancelOrder req = some st' ∧ Inv st'.book (dropPtr q p) ∧ st'.book.cfg = st.book.cfg ∧
      st'.book.orders = Function.update st.book.orders p none ∧
      st'.book.activeOrders = Function.update st.book.activeOrders o.orderId none ∧
      st'.book.lob = st.book.lob.remove o.orderId := by
  have hlevel : o.priceLevel = some i := by
    have hl := (h.alive.deref hp).2.1
    rwa [deref_of_some ho] at hl
  obtain ⟨b₁, b₂, hb₁, hb₂, hbut, hfull, hcfg, -, hactive, hflat⟩ := h.detach hp ho hi none
  obtain ⟨hinv, hflat'⟩ := hbut.gone hfull
  rw [OrderBook.eraseActive_of_none (by rw [hactive, Function.update_self])] at hinv hflat'
  -- the orders are those of the book before
  have hcore : Core { st.book with activeOrders := Function.update st.book.activeOrders o.orderId none } q :=
    ⟨h.queued, h.counted, h.alive, h.chained, h.inRange, h.held, h.fresh⟩
  obtain ⟨b₁', b₂', hb₁', hb₂', -, -, hsame, -⟩ := hcore.takeOut h.full hp ho hi
  obtain rfl := Option.some.inj (hb₁.symm.trans hb₁')
  obtain rfl := Option.some.inj (hb₂.symm.trans hb₂')
  have hrun : ∃ st', st.handleCancelOrder req = some st' ∧ st'.book = b₂.delete p := by
    unfold State.handleCancelOrder
    rw [hfind]
    dsimp only
    rw [ho, Option.bind_eq_bind, Option.bind_some]
    unfold OrderBook.eraseActive
    rw [hb₁, Option.bind_eq_bind, Option.bind_some, hlevel, Option.bind_eq_bind, Option.bind_some, hs, hb₂,
      Option.bind_some]
    refine ⟨_, rfl, ?_⟩
    dsimp only
    rw [State.sendResponse_book]
  obtain ⟨st', hrun, hbook⟩ := hrun
  refine ⟨st', hrun, ?_⟩
  rw [hbook]
  refine ⟨hinv, hcfg, ?_, hactive, ?_⟩
  · show Function.update b₂.orders p none = _
    rw [hsame.orders]
  · rw [hinv.lob_eq, h.lob_eq]
    exact hflat'.trans hflat

/-! ## The two together -/

/-- A new order that trades with nothing, or is refused, and its cancellation leave the book as it was. -/
theorem cancel_undoes_new {c : Config} {st : State} (h : Reachable c st) {req cancel : OrderRequest}
    (hreq : WellFormed c st.book.lob req) (hact : req.action = .new) (htype : req.type = .limit)
    (hfresh : st.book.activeOrders req.combinedId = none) (hpassive : st.book.lob.meets c req = false)
    (hcancel : cancel.action = .cancel) (hid : cancel.combinedId = req.combinedId) (hside : cancel.side = req.side) :
    ∃ st' st'', st.processRequest req = some st' ∧ st'.processRequest cancel = some st'' ∧
      Restored st.book st''.book := by
  obtain ⟨⟨q, hq⟩, hc, -⟩ := h.inv
  obtain ⟨s, hs⟩ := hreq.side
  have hrunNew : ∀ st : State, st.processRequest req =
      if st.book.cfg.priceInvalid req.p ≠ 0 then some (st.reject req 0 .priceInvalid) else st.handleNewOrder req := by
    intro st
    unfold State.processRequest
    rw [hact, htype]
    simp
  have hrunCancel : ∀ st : State, st.processRequest cancel = st.handleCancelOrder cancel := by
    intro st
    unfold State.processRequest
    rw [hcancel]
  -- a refused order is not there to be cancelled
  have hrefused : ∀ code, st.processRequest req = some (st.reject req 0 code) →
      ∃ st' st'', st.processRequest req = some st' ∧ st'.processRequest cancel = some st'' ∧
        Restored st.book st''.book := by
    intro code hrun
    have hbook : (st.reject req 0 code).book = st.book := State.sendResponse_book ..
    refine ⟨_, (st.reject req 0 code).reject cancel 0 .orderNotFound, hrun, ?_, ?_⟩
    · rw [hrunCancel]
      unfold State.handleCancelOrder
      rw [hbook, hid, hfresh]
    · rw [show ((st.reject req 0 code).reject cancel 0 .orderNotFound).book = st.book from
        (State.sendResponse_book ..).trans hbook]
      exact .refl _
  by_cases hvalid : st.book.cfg.priceInvalid req.p ≠ 0
  · exact hrefused .priceInvalid (by rw [hrunNew, if_pos hvalid])
  by_cases hp : req.p ≤ 0 ∧ req.type = .limit
  · refine hrefused .priceInvalid ?_
    rw [hrunNew, if_neg hvalid]
    unfold State.handleNewOrder
    rw [hfresh, if_neg (by simp), if_pos hp]
  by_cases hqty : req.q = 0 ∨ globalMaxQty < req.q
  · refine hrefused .invalidQuantity ?_
    rw [hrunNew, if_neg hvalid]
    unfold State.handleNewOrder
    rw [hfresh, if_neg (by simp), if_neg hp, if_pos hqty]
  -- the order is placed and taken out
  obtain ⟨i, hi, -, hidx⟩ := hreq.limit_index htype hp
  have hpass : (st.book.bestLevels s.flip).any (State.crossed s (State.newIndex st.book.cfg req)) = false := by
    rw [Lob.meets_new hact, OrderRequest.slot_of_side hs, ← hc] at hpassive
    rw [← hq.head_level, Option.any_map]
    exact hpassive
  obtain ⟨st', hrun, hplaced⟩ := handleNewOrder_placed hq hs hfresh hp (by omega) (by omega)
    (by rw [hc, hidx]; exact hi) hpass
  have htaking := Lob.Taking.of_new h.ok (hq.lob_eq ▸ hq.active_none hfresh)
  have hrested : st'.book.lob = st.book.lob.rested s (State.newIndex st.book.cfg req) (State.createOrder req) := by
    unfold Lob.rested
    have hrest : (State.createOrder req).qtyRemaining ≠ 0 := fun hz => hqty (Or.inl hz)
    rw [hplaced.lob, if_neg hrest]
  have hptr : st'.book.activeOrders cancel.combinedId = some st.book.nextOrder := by
    rw [hid, hplaced.activeOrders]
    exact Function.update_self ..
  obtain ⟨st'', hrun', hinv, hcfg, horders, hactive, hlob⟩ := handleCancelOrder_takes hplaced.inv (hside.trans hs) hptr
    (mem_pushPtr.mpr (Or.inr ⟨rfl, rfl⟩)) (by rw [hplaced.orders, Function.update_self]) hplaced.active
  rw [dropPtr_pushPtr hq.loose] at hinv
  refine ⟨st', st'', ?_, ?_, ?_⟩
  · rw [hrunNew, if_neg hvalid]
    exact hrun
  · rw [hrunCancel]
    exact hrun'
  · refine hq.restored hinv (hcfg.trans hplaced.cfg) ?_ ?_ fun j p hp => ?_
    · rw [hlob, hrested]
      exact htaking.rested_remove
    · rw [hactive, hplaced.activeOrders, Function.update_idem]
      exact Function.update_eq_self_iff.mpr hfresh.symm
    · rw [horders, hplaced.orders, Function.update_idem]
      exact Function.update_of_ne (fun e : p = st.book.nextOrder => hq.loose j (e ▸ hp)) _ _

/-- A bid below the best one, on a level of its own. -/
theorem sample_undone : ∃ st, Reachable sampleConfig st ∧ st.log.length = 9 ∧
    ∃ st' st'', st.processRequest (sampleRequest .new 5 .buy 10 3) = some st' ∧
      st'.processRequest (sampleRequest .cancel 5 .buy 0 0) = some st'' ∧ Restored st.book st''.book := by
  obtain ⟨st, hst, hP⟩ := Reachable.of_serve sampleConfig id sampleRequests (fun st => st.log.length = 9 ∧
    WellFormed sampleConfig st.book.lob (sampleRequest .new 5 .buy 10 3) ∧
    st.book.activeOrders (sampleRequest .new 5 .buy 10 3).combinedId = none ∧
    st.book.lob.meets sampleConfig (sampleRequest .new 5 .buy 10 3) = false) (by decide +kernel)
  obtain ⟨hlen, hreq, hfresh, hpassive⟩ := of_decide_eq_true hP
  exact ⟨st, hst, hlen, cancel_undoes_new hst hreq rfl rfl hfresh hpassive rfl rfl rfl⟩

end Exchange
