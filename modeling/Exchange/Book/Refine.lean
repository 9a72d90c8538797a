import Exchange.Book.Match

/-!
# `processRequest` computes `Lob.step`

The pointer structure refines the list specification: from a book that
satisfies `Inv`, an admissible request is answered (no undefined behaviour, no
endless loop), `Inv` holds again, the sides read as `Lob.step` says, and the
records and random numbers are those of its answer.

`Safe` is what the code needs of a request and does not check itself. It is
weaker than a request being well formed (`Runs.lean`).
-/

namespace Exchange

/-! ## What the invariant says of the sides -/

/-- Queued pointers with the same order id are the same. -/
theorem Inv.ptr_unique {b : OrderBook} {q : Nat → List Nat} (h : Inv b q) {i j p p' : Nat}
    (hp : p ∈ q i) (hp' : p' ∈ q j)
    (he : (deref b.orders p).orderId = (deref b.orders p').orderId) : p = p' := by
  have h₁ := (h.indexed _ p).mpr ⟨⟨i, hp⟩, rfl⟩
  have h₂ := (h.indexed _ p').mpr ⟨⟨j, hp'⟩, rfl⟩
  rw [he] at h₁
  exact Option.some.inj (h₁.symm.trans h₂)

/-- Levels in order, and one order after another inside each: the sides are
sorted by price. -/
theorem Core.flat_sorted {b : OrderBook} {q : Nat → List Nat} (h : Core b q) (s : Slot) :
    (flat b q s).Pairwise fun x y => ¬ s.better y.level x.level := by
  rw [flat, List.pairwise_flatMap]
  refine ⟨fun i _ => ?_, ?_⟩
  · refine List.pairwise_of_forall_mem_list (fun x hx y hy => ?_)
    rw [(h.alive.contents hx).2.1, (h.alive.contents hy).2.1]
    exact Slot.better_irrefl s i
  · refine (levelsOf_sorted b.activeLevels s).imp (fun hij x hx y hy => ?_)
    rw [(h.alive.contents hx).2.1, (h.alive.contents hy).2.1]
    exact Slot.better_asymm hij

/-- The sides of a book that satisfies the invariant are a well-formed book. -/
theorem Inv.ok {b : OrderBook} {q : Nat → List Nat} (h : Inv b q) : (flat b q).Ok b.cfg := by
  have huniq : ∀ {s s' o o'}, o ∈ flat b q s → o' ∈ flat b q s' → o.orderId = o'.orderId →
      s = s' ∧ o = o' := by
    intro s s' o o' ho ho' he
    obtain ⟨i, p, hi, hp, rfl⟩ := mem_flat.mp ho
    obtain ⟨j, p', hj, hp', rfl⟩ := mem_flat.mp ho'
    obtain rfl := h.ptr_unique hp hp' he
    obtain rfl := h.queued.disj hp hp'
    exact ⟨h.chained.slot_unique hi hj, rfl⟩
  refine ⟨huniq, fun s => ?_, ?_, ?_, h.toCore.flat_sorted, ?_⟩
  · rw [flat, List.nodup_flatMap]
    refine ⟨fun i _ => ?_, ?_⟩
    · refine (List.nodup_map_iff_inj_on (h.queued.nodup i)).mpr (fun p hp p' hp' e => ?_)
      exact h.ptr_unique hp hp' (congrArg Order.orderId e)
    · refine (levelsOf_nodup b.activeLevels s).imp (fun hij o ho ho' => hij ?_)
      rw [← (h.alive.contents ho).2.1, (h.alive.contents ho').2.1]
  · intro s o ho
    obtain ⟨i, p, hi, hp, rfl⟩ := mem_flat.mp ho
    rw [h.alive.level hp]
    exact ⟨(h.alive.deref hp).2.1, h.inRange hi⟩
  · intro s o ho
    obtain ⟨i, p, hi, hp, rfl⟩ := mem_flat.mp ho
    exact (h.alive.deref hp).2.2
  · intro x y hx hy
    obtain ⟨i, p, hi, hp, rfl⟩ := mem_flat.mp hx
    obtain ⟨j, p', hj, hp', rfl⟩ := mem_flat.mp hy
    rw [h.alive.level hp, h.alive.level hp']
    exact h.chained.uncrossed hi hj

/-- `active_orders_` finds what the specification finds. -/
theorem Inv.active_some {b : OrderBook} {q : Nat → List Nat} (h : Inv b q) {id p : Nat}
    (hp : b.activeOrders id = some p) :
    ∃ s i o, (flat b q).find id = some (s, o) ∧ b.orders p = some o ∧ p ∈ q i ∧
      i ∈ b.activeLevels s ∧ o.orderId = id ∧ o.priceLevel = some i ∧ o.level = i ∧ o.Sane := by
  obtain ⟨⟨i, hi⟩, hid⟩ := (h.indexed id p).mp hp
  obtain ⟨s, hs⟩ := h.active_of_mem hi
  obtain ⟨ho, hl, hsane⟩ := h.alive.deref hi
  refine ⟨s, i, deref b.orders p, ?_, ho, hi, hs, hid, hl, h.alive.level hi, hsane⟩
  rw [← hid]
  exact h.ok.find_of_mem (mem_flat.mpr ⟨i, p, hs, hi, rfl⟩)

/-- What the index does not name stands in no queue. -/
theorem Inv.active_none {b : OrderBook} {q : Nat → List Nat} (h : Inv b q) {id : Nat}
    (hn : b.activeOrders id = none) : (flat b q).find id = none := by
  cases hf : (flat b q).find id with
  | none => rfl
  | some so =>
    obtain ⟨hm, hid⟩ := Lob.mem_of_find hf
    obtain ⟨i, p, -, hp, he⟩ := mem_flat.mp hm
    rw [(h.indexed id p).mpr ⟨⟨i, hp⟩, by rw [he, hid]⟩] at hn
    cases hn

/-! ## Entering and leaving `match` -/

/-- `createOrder`: a new order under an id that is not in use. -/
theorem Inv.allocate {b : OrderBook} {q : Nat → List Nat} (h : Inv b q) {o : Order}
    (hn : b.activeOrders o.orderId = none) :
    InvBut b.nextOrder o (b.allocate o) q ∧ Full (b.allocate o) q ∧
      flat (b.allocate o) q = flat b q := by
  have hloose : ∀ i, b.nextOrder ∉ q i := by
    intro i hi
    obtain ⟨o', ho', -⟩ := h.alive i _ hi
    rw [h.fresh le_rfl] at ho'
    cases ho'
  have hkeep : ∀ j, ∀ p ∈ q j, Function.update b.orders b.nextOrder (some o) p = b.orders p :=
    fun j p hp => Function.update_of_ne (fun e : p = b.nextOrder => hloose j (e ▸ hp)) _ _
  refine ⟨⟨⟨h.queued, ?_, ?_, h.chained, h.inRange, h.held, ?_⟩, ?_, hloose, ⟨?_, ?_⟩⟩, h.full, ?_⟩
  · exact h.counted.congr (fun j p hp => weight_congr (hkeep j p hp))
  · intro j p hp
    obtain ⟨o', ho', hr⟩ := h.alive j p hp
    exact ⟨o', (hkeep j p hp).trans ho', hr⟩
  · intro p hp
    have hp' : b.nextOrder + 1 ≤ p := hp
    exact (Function.update_of_ne (by omega) _ _).trans (h.fresh (by omega))
  · exact Function.update_self ..
  · intro id p _
    show b.activeOrders id = some p ↔ _ ∧
      (deref (Function.update b.orders b.nextOrder (some o)) p).orderId = id
    rw [h.indexed id p]
    constructor <;> rintro ⟨⟨j, hp⟩, he⟩
    · exact ⟨⟨j, hp⟩, by rw [deref_congr (hkeep j p hp), he]⟩
    · exact ⟨⟨j, hp⟩, by rw [← he, deref_congr (hkeep j p hp)]⟩
  · intro j p hp
    show (deref (Function.update b.orders b.nextOrder (some o)) p).orderId ≠ o.orderId
    rw [deref_congr (hkeep j p hp)]
    intro e
    rw [(h.indexed _ p).mpr ⟨⟨j, hp⟩, e⟩] at hn
    cases hn
  · funext s
    exact List.flatMap_congr (fun j _ => contents_congr (hkeep j))

/-- Without one of its orders the index is complete but for that order's id,
whatever it says there. -/
theorem Inv.indexed_drop {b : OrderBook} {q : Nat → List Nat} (h : Inv b q) {i p : Nat} {o : Order}
    (hp : p ∈ q i) (ho : b.orders p = some o) {v : Option Nat} :
    IndexedBut o.orderId (Function.update b.activeOrders o.orderId v) b.orders (dropPtr q p) := by
  have hod : deref b.orders p = o := deref_of_some ho
  constructor
  · intro id x hne
    rw [Function.update_of_ne hne, h.indexed id x]
    constructor
    · rintro ⟨⟨j, hx⟩, he⟩
      exact ⟨⟨j, mem_dropPtr.mpr ⟨hx, fun e => hne (by rw [← he, e, hod])⟩⟩, he⟩
    · rintro ⟨⟨j, hx⟩, he⟩
      exact ⟨⟨j, (mem_dropPtr.mp hx).1⟩, he⟩
  · intro j x hx he
    obtain ⟨hxj, hxp⟩ := mem_dropPtr.mp hx
    exact hxp (h.ptr_unique hxj hp (he.trans (by rw [hod])))

/-- The sides without one order. -/
theorem Inv.flat_drop {b : OrderBook} {q : Nat → List Nat} (h : Inv b q) {i p : Nat} {o : Order}
    (hp : p ∈ q i) (ho : b.orders p = some o) :
    flat b (dropPtr q p) = (flat b q).remove o.orderId := by
  have hod : deref b.orders p = o := deref_of_some ho
  funext s
  rw [Lob.remove, flat, flat, List.filter_flatMap]
  refine List.flatMap_congr (fun j _ => ?_)
  rw [← hod]
  exact contents_dropPtr (fun x hx e => h.ptr_unique hx hp e)

/-- An order is taken out of its level: the book is as inside `match`, with
that order the taker. The index may already have lost it. -/
theorem Inv.detach {b : OrderBook} {q : Nat → List Nat} (h : Inv b q) {s : Slot} {i p : Nat}
    {o : Order} (hp : p ∈ q i) (ho : b.orders p = some o) (hs : i ∈ b.activeLevels s)
    (v : Option Nat) :
    ∃ b₁ b₂, { b with activeOrders := Function.update b.activeOrders o.orderId v
        }.removeOrderFromLevel p = some b₁ ∧
      (b₁.subtractQty i o.qtyRemaining).removeIfEmpty i s.side = some b₂ ∧
      InvBut p o b₂ (dropPtr q p) ∧ Full b₂ (dropPtr q p) ∧ b₂.cfg = b.cfg ∧
      b₂.recoverMode = b.recoverMode ∧ b₂.activeOrders = Function.update b.activeOrders o.orderId v ∧
      flat b₂ (dropPtr q p) = (flat b q).remove o.orderId := by
  have hc : Core { b with activeOrders := Function.update b.activeOrders o.orderId v } q :=
    ⟨h.queued, h.counted, h.alive, h.chained, h.inRange, h.held, h.fresh⟩
  obtain ⟨b₁, b₂, hb₁, hb₂, hc₂, hf₂, hsame, hflat⟩ := hc.takeOut h.full hp ho hs
  refine ⟨b₁, b₂, hb₁, hb₂, ⟨hc₂, ?_, ?_, ?_⟩, hf₂, hsame.cfg, hsame.recoverMode,
    hsame.activeOrders, hflat.trans (h.flat_drop hp ho)⟩
  · rw [hsame.orders]
    exact ho
  · exact fun j hm => (mem_dropPtr.mp hm).2 rfl
  · rw [hsame.orders, hsame.activeOrders]
    exact h.indexed_drop hp ho

/-- A taker's own fields may change, its id apart. -/
theorem InvBut.modifyTaker {t : Nat} {o : Order} {b : OrderBook} {q : Nat → List Nat}
    (h : InvBut t o b q) (f : Order → Order) (hid : (f o).orderId = o.orderId) :
    InvBut t (f o) (b.modifyOrder t f) q ∧ flat (b.modifyOrder t f) q = flat b q := by
  have hkeep : ∀ j, ∀ p ∈ q j, (b.modifyOrder t f).orders p = b.orders p :=
    fun j p hp => Function.update_of_ne (fun e : p = t => h.loose j (e ▸ hp)) _ _
  refine ⟨⟨⟨h.queued, ?_, ?_, h.chained, h.inRange, h.held, ?_⟩, ?_, h.loose, ⟨?_, ?_⟩⟩, ?_⟩
  · exact h.counted.congr (fun j p hp => weight_congr (hkeep j p hp))
  · intro j p hp
    obtain ⟨o', ho', hr⟩ := h.alive j p hp
    exact ⟨o', (hkeep j p hp).trans ho', hr⟩
  · intro p hp
    have hdead := h.fresh hp
    refine (Function.update_of_ne (fun e => ?_) _ _).trans hdead
    rw [e, h.taker] at hdead
    cases hdead
  · show Function.update b.orders t ((b.orders t).map f) t = some (f o)
    rw [Function.update_self, h.taker]
    rfl
  · intro id p hne
    rw [hid] at hne
    rw [show (b.modifyOrder t f).activeOrders = b.activeOrders from rfl, h.indexed.iff hne]
    constructor <;> rintro ⟨⟨j, hp⟩, he⟩
    · exact ⟨⟨j, hp⟩, by rw [deref_congr (hkeep j p hp), he]⟩
    · exact ⟨⟨j, hp⟩, by rw [← he, deref_congr (hkeep j p hp)]⟩
  · intro j p hp
    rw [deref_congr (hkeep j p hp), hid]
    exact h.indexed.ne hp
  · funext s
    exact List.flatMap_congr (fun j _ => contents_congr (hkeep j))

/-- The in-place branch of `handleModifyOrder`: one order's quantities move, and
its level's total with them. -/
theorem Inv.resize {b : OrderBook} {q : Nat → List Nat} (h : Inv b q) {i p : Nat} {o : Order}
    (hp : p ∈ q i) (ho : b.orders p = some o) (newQty newRem : Nat)
    (hrem : newQty = newRem + (o.qtyOriginal - o.qtyRemaining)) (hpos : 1 ≤ newRem)
    (hmax : newQty ≤ globalMaxQty) :
    let b' := (b.modifyLevel i fun l =>
      { l with totalQty := l.totalQty + ((newQty - o.qtyOriginal : Int) : BitVec 64) }).modifyOrder p
        fun o => { o with qtyRemaining := newRem, qtyOriginal := newQty }
    Inv b' q ∧ flat b' q = (flat b q).resize o.orderId newQty newRem := by
  intro b'
  have hod : deref b.orders p = o := deref_of_some ho
  obtain ⟨-, hl, hs⟩ := h.alive.deref hp
  rw [hod] at hl hs
  -- one order changes, and only its quantities
  have horders : ∀ x, b'.orders x = if x = p then
      some { o with qtyRemaining := newRem, qtyOriginal := newQty } else b.orders x := by
    intro x
    show Function.update b.orders p ((b.orders p).map _) x = _
    rw [ho, Function.update_apply]
    rfl
  have hne : ∀ {x}, x ≠ p → deref b'.orders x = deref b.orders x :=
    fun hx => deref_congr ((horders _).trans (if_neg hx))
  have hself : deref b'.orders p = { o with qtyRemaining := newRem, qtyOriginal := newQty } :=
    deref_of_some ((horders p).trans (if_pos rfl))
  have hid : ∀ x, (deref b'.orders x).orderId = (deref b.orders x).orderId := by
    intro x
    by_cases hx : x = p
    · rw [hx, hself, hod]
    · rw [hne hx]
  -- the total of its level changes by as much
  have hcnt : Counted b'.priceArray b'.orders q := by
    refine h.counted.reweigh (h.queued.nodup i) hp (fun j hj hm => hj (h.queued.disj hm hp))
      (fun x hx => ?_) ?_
    · rw [weight, weight, hne hx]
    · rw [weight, weight, hself, hod]
      have hqty : (newRem : Int) = o.qtyRemaining + (newQty - o.qtyOriginal) := by
        have := hs.le
        omega
      have hcast := congrArg (Int.cast : Int → BitVec 64) hqty
      push_cast at hcast ⊢
      exact hcast
  refine ⟨⟨⟨h.queued, hcnt, ?_, h.chained, h.inRange, h.held, ?_⟩, h.full, ?_⟩, ?_⟩
  · intro j x hx
    rw [horders]
    by_cases hxp : x = p
    · obtain rfl : j = i := h.queued.disj (hxp ▸ hx) hp
      exact ⟨_, if_pos hxp, hl, hs.id, hpos, by simp only; omega, hmax⟩
    · rw [if_neg hxp]
      exact h.alive j x hx
  · intro x hx
    have hdead := h.fresh hx
    rw [horders, if_neg, hdead]
    exact fun e => by rw [e, ho] at hdead; cases hdead
  · intro id x
    rw [hid x]
    exact h.indexed id x
  · funext s
    rw [Lob.resize, flat, flat, List.map_flatMap]
    refine List.flatMap_congr (fun j _ => ?_)
    rw [contents, contents, List.map_map]
    refine List.map_congr_left (fun x hx => ?_)
    rw [Function.comp_apply]
    by_cases hxp : x = p
    · rw [hxp, hself, hod, if_pos rfl]
    · rw [hne hxp, if_neg]
      exact fun e => hxp (h.ptr_unique hx hp (by rw [e, hod]))

/-! ## The handlers -/

/-- A rejection leaves the book, here as there. -/
theorem reject_answers {st : State} {q : Nat → List Nat} (h : Inv st.book q) (req : OrderRequest)
    (qRem : Nat) (code : RejectCode) : Answers st (st.reject req qRem code)
      (Lob.reject st.book.cfg st.gen (flat st.book q) req qRem code) :=
  ⟨Emits.send .., ⟨q, by simpa [State.reject] using h, by simp [State.reject, Lob.reject]⟩,
    by simp [State.reject, Lob.reject]⟩

/-- A new order of either side, where its index is on the grid or the code returns anyway. -/
theorem handleNewOrder_answers {st : State} {q : Nat → List Nat} (h : Inv st.book q)
    {req : OrderRequest} {s : Slot} (hs : req.side = s.side)
    (hi : ¬ (req.p ≤ 0 ∧ req.type = .limit) →
      State.newIndex st.book.cfg req < st.book.cfg.maxPriceLevels ∨ (st.handleNewOrder req).isSome) :
    ∃ st', st.handleNewOrder req = some st' ∧
      Answers st st' (Lob.newOrder st.book.cfg st.gen (flat st.book q) req) := by
  have hslot := OrderRequest.slot_of_side hs
  unfold State.handleNewOrder Lob.newOrder at *
  cases hact : st.book.activeOrders req.combinedId with
  | some p =>
    obtain ⟨s', i, o, hfind, -⟩ := h.active_some hact
    rw [hfind]
    exact ⟨_, rfl, reject_answers h req 0 .duplicateOrderID⟩
  | none =>
    rw [hact] at hi
    rw [h.active_none hact]
    simp only [Option.isSome_none, Bool.false_eq_true, if_false] at hi ⊢
    split
    · exact ⟨_, rfl, reject_answers h req 0 .priceInvalid⟩
    · rename_i hp
      replace hi := hi hp
      rw [if_neg hp] at hi
      split
      · exact ⟨_, rfl, reject_answers h req 0 .invalidQuantity⟩
      · rename_i hq
        rw [if_neg hq, hs, State.sendResponse_book] at hi
        obtain ⟨hb, hf, hflat⟩ := h.allocate (o := State.createOrder req) hact
        have hsane : (State.createOrder req).Sane :=
          ⟨combinedOrderId_lt _ _, by simp only [State.createOrder]; omega, le_rfl,
            by simp only [State.createOrder]; omega⟩
        obtain ⟨st', hrun, hans⟩ := matchTaker_answers (State.sendResponse
          ⟨st.book.allocate (State.createOrder req), st.gen, st.out⟩ .new req.combinedId req.execId
          req.side req.p req.q req.q .none) s (State.newIndex st.book.cfg req)
          (by rw [State.sendResponse_book]; exact hb) (by rw [State.sendResponse_book]; exact hf)
          hsane (by rw [hs, State.sendResponse_book]; exact hi)
        rw [State.sendResponse_book, State.sendResponse_gen, hflat] at hans
        rw [hs] at hrun
        refine ⟨st', by rw [State.sendResponse_book, hs]; exact hrun, ?_⟩
        rw [hslot]
        have hsilent := Emits.silent st (b := st.book.allocate (State.createOrder req)) st.gen rfl rfl
        exact hans.after (hsilent.trans (Emits.send ..))

/-- Erasing an id that is not there. -/
theorem OrderBook.eraseActive_of_none {b : OrderBook} {id : Nat} (h : b.activeOrders id = none) :
    b.eraseActive id = b := by
  rw [OrderBook.eraseActive, Function.update_eq_self_iff.mpr h.symm]

/-- A cancel that names the side its order is on. -/
theorem handleCancelOrder_answers {st : State} {q : Nat → List Nat} (h : Inv st.book q)
    {req : OrderRequest}
    (hs : ∀ s o, (flat st.book q).find req.combinedId = some (s, o) → req.side = s.side) :
    ∃ st', st.handleCancelOrder req = some st' ∧
      Answers st st' (Lob.cancelOrder st.book.cfg st.gen (flat st.book q) req) := by
  unfold State.handleCancelOrder Lob.cancelOrder
  cases hact : st.book.activeOrders req.combinedId with
  | none =>
    rw [h.active_none hact]
    exact ⟨_, rfl, reject_answers h req 0 .orderNotFound⟩
  | some p =>
    obtain ⟨s, i, o, hfind, ho, hp, hi, hid, hl, hlev, hsane⟩ := h.active_some hact
    rw [hfind, hs s o hfind]
    obtain ⟨b₁, b₂, hb₁, hb₂, hinv, hf, hcfg, hmode, hnone, hflat⟩ := h.detach hp ho hi none
    have herase : st.book.eraseActive o.orderId = { st.book with
      activeOrders := Function.update st.book.activeOrders o.orderId none } := rfl
    obtain ⟨hinv', hflat'⟩ := hinv.gone hf
    rw [OrderBook.eraseActive_of_none (by rw [hnone, Function.update_self])] at hinv' hflat'
    simp only [ho, herase, hb₁, hl, hb₂, hcfg, Option.bind_eq_bind, Option.bind_some]
    have hsent := (Emits.silent st st.gen hcfg hmode).trans (Emits.send _ .cancelled
      o.orderId req.execId s.side (st.book.cfg.plToPrice i) o.qtyOriginal 0 .none)
    refine ⟨_, rfl, ?_, ⟨dropPtr q p, ?_, ?_⟩, by simp⟩
    · rw [hcfg] at hsent
      simp only [Lob.cancelRecord, hlev, hs s o hfind]
      exact hsent.edit rfl rfl
    · simpa using hinv'
    · simpa using hflat'.trans hflat

/-- A replacement: the order keeps its place when neither price nor quantity asks for another, is cut down in
place, or is taken out and matched again. -/
theorem replaceOrder_answers {st : State} {q : Nat → List Nat} (h : Inv st.book q)
    {req : OrderRequest} {s : Slot} {i p : Nat} {o : Order} (hp : p ∈ q i)
    (ho : st.book.orders p = some o) (hi : i ∈ st.book.activeLevels s)
    (hs : req.side = s.side) {target newQty : Nat}
    (ht : target < st.book.cfg.maxPriceLevels ∨ (st.replaceOrder req p o i target newQty).isSome)
    (hmax : newQty ≤ globalMaxQty) :
    ∃ st', st.replaceOrder req p o i target newQty = some st' ∧ Answers st st'
      (Lob.replaceOrder st.book.cfg st.gen (flat st.book q) s req o target newQty) := by
  obtain ⟨-, -, hsane⟩ := h.alive.deref hp
  have hlev := h.alive.level hp
  rw [deref_of_some ho] at hsane hlev
  unfold State.replaceOrder Lob.replaceOrder at *
  simp only [hlev, Order.executed] at ht ⊢
  by_cases hexec : newQty < o.qtyOriginal - o.qtyRemaining
  · simp only [if_pos hexec]
    exact ⟨_, rfl, reject_answers h req o.qtyRemaining .invalidModify⟩
  simp only [if_neg hexec] at ht ⊢
  generalize hst₁ : st.sendResponse .replaced req.combinedId req.execId req.side
    (st.book.cfg.plToPrice target) newQty (newQty - (o.qtyOriginal - o.qtyRemaining)) .none = st₁
  -- the acknowledgement is sent, and the book is still the one before
  have hack := Emits.send st .replaced req.combinedId req.execId req.side
    (st.book.cfg.plToPrice target) newQty (newQty - (o.qtyOriginal - o.qtyRemaining)) .none
  rw [hst₁] at hack
  have hbook : st₁.book = st.book := by rw [← hst₁, State.sendResponse_book]
  have hgen : st₁.gen = st.gen := by rw [← hst₁, State.sendResponse_gen]
  rw [hst₁, hbook] at ht
  rw [hbook]
  have hdiff : ((newQty : Int) - o.qtyOriginal = 0) ↔ newQty = o.qtyOriginal := by omega
  have hdiff' : (0 < (newQty : Int) - o.qtyOriginal) ↔ o.qtyOriginal < newQty := by omega
  simp only [hdiff, hdiff'] at ht ⊢
  by_cases hsame : i = target ∧ newQty = o.qtyOriginal
  · simp only [if_pos hsame]
    exact ⟨_, rfl, hack, ⟨q, hbook ▸ h, by rw [hbook]⟩, hgen⟩
  simp only [if_neg hsame] at ht ⊢
  -- the three ways out: the order is finished, joins a queue anew, or shrinks in place
  obtain ⟨b₁, b₂, hb₁, hb₂, hinv, hf, hcfg, hmode, hact, hflat⟩ :=
    h.detach hp ho hi (st.book.activeOrders o.orderId)
  rw [Function.update_eq_self] at hb₁ hact
  rw [← hs] at hb₂
  by_cases hrem : newQty - (o.qtyOriginal - o.qtyRemaining) = 0
  · obtain ⟨hinv', hflat'⟩ := hinv.gone hf
    simp only [hrem, true_or, if_true, hb₁, hb₂, Option.bind_eq_bind, Option.bind_some]
    have hsent := (hack.edit (b := b₂) (by rw [hbook, hcfg]) (by rw [hbook, hmode])).trans
      (Emits.send _ .fill req.combinedId req.execId req.side (st.book.cfg.plToPrice target) 0 0 .none)
    rw [hcfg] at hsent
    refine ⟨_, rfl, hsent.edit (by simp; rfl) (by simp; rfl), ⟨dropPtr q p, ?_, ?_⟩, ?_⟩
    · simpa using hinv'
    · simpa using hflat'.trans hflat
    · simpa using hgen
  by_cases hrequeue : i ≠ target ∨ o.qtyOriginal < newQty
  · simp only [hrem, hrequeue, or_true, if_true, if_false, hb₁, hb₂, Option.bind_eq_bind,
      Option.bind_some] at ht ⊢
    obtain ⟨hinv', hflat'⟩ := hinv.modifyTaker (fun x => { x with
      qtyRemaining := newQty - (o.qtyOriginal - o.qtyRemaining), qtyOriginal := newQty }) rfl
    obtain ⟨st', hrun, hans⟩ := matchTaker_answers { st₁ with book := b₂.modifyOrder p fun x =>
      { x with qtyRemaining := newQty - (o.qtyOriginal - o.qtyRemaining), qtyOriginal := newQty } }
      s target hinv' hf ⟨hsane.id, Nat.pos_of_ne_zero hrem, Nat.sub_le _ _, hmax⟩
      (by rw [hs, ← hcfg] at ht; exact ht)
    refine ⟨st', by rw [hs]; exact hrun, ?_⟩
    have hans' : Answers _ st' (Lob.execute b₂.cfg st₁.gen _ s _ target) := hans
    rw [hflat', hflat, hcfg, hgen] at hans'
    have hedit := hack.edit (b := b₂.modifyOrder p fun x => { x with
      qtyRemaining := newQty - (o.qtyOriginal - o.qtyRemaining), qtyOriginal := newQty })
      (hcfg.trans (by rw [hbook])) (hmode.trans (by rw [hbook]))
    rw [hgen] at hedit
    exact hans'.after hedit
  · simp only [hrem, hrequeue, or_false, if_false]
    have hin := h.resize hp ho newQty (newQty - (o.qtyOriginal - o.qtyRemaining)) (by omega)
      (by omega) hmax
    exact ⟨_, rfl, hack.edit (by rw [hbook]; rfl) (by rw [hbook]; rfl), ⟨q, hin.1, hin.2⟩, hgen⟩

/-- A modify that names the side its order is on. -/
theorem handleModifyOrder_answers {st : State} {q : Nat → List Nat} (h : Inv st.book q)
    {req : OrderRequest}
    (hs : ∀ s o, (flat st.book q).find req.combinedId = some (s, o) → req.side = s.side)
    (hp : req.p = 0 ∨ st.book.cfg.priceInvalid req.p ≠ 0 ∨
      st.book.cfg.priceToIndex req.p < st.book.cfg.maxPriceLevels ∨ (st.handleModifyOrder req).isSome) :
    ∃ st', st.handleModifyOrder req = some st' ∧
      Answers st st' (Lob.modifyOrder st.book.cfg st.gen (flat st.book q) req) := by
  unfold State.handleModifyOrder Lob.modifyOrder at *
  cases hact : st.book.activeOrders req.combinedId with
  | none =>
    rw [h.active_none hact]
    exact ⟨_, rfl, reject_answers h req 0 .orderNotFound⟩
  | some p =>
    obtain ⟨s, i, o, hfind, ho, hpq, hi, hid, hl, hlev, hsane⟩ := h.active_some hact
    simp only [hact, hfind, ho, Option.bind_eq_bind, Option.bind_some] at hp ⊢
    split
    · exact ⟨_, rfl, reject_answers h req o.qtyRemaining .invalidQuantity⟩
    · rename_i hq
      split
      · exact ⟨_, rfl, reject_answers h req o.qtyRemaining .priceInvalid⟩
      · rename_i hprice
        simp only [if_neg hq, if_neg hprice, hl, Option.bind_some] at hp
        have htarget : (if req.p ≠ 0 then st.book.cfg.priceToIndex req.p else i) <
            st.book.cfg.maxPriceLevels ∨ (st.replaceOrder req p o i
              (if req.p ≠ 0 then st.book.cfg.priceToIndex req.p else i)
              (if req.q ≠ 0 then req.q else o.qtyOriginal)).isSome := by
          by_cases hne : req.p = 0
          · rw [if_neg (not_not.mpr hne)]
            exact Or.inl (h.inRange hi)
          · rcases (hp.resolve_left hne).resolve_left (fun e => hprice ⟨hne, e⟩) with hlt | hsome
            · exact Or.inl (by rw [if_pos hne]; exact hlt)
            · exact Or.inr hsome
        simp only [hl, Option.bind_some, OrderRequest.target, OrderRequest.newQty, hlev]
        refine replaceOrder_answers h hpq ho hi (hs s o hfind) htarget ?_
        split
        · exact Nat.le_of_not_lt hq
        · exact hsane.max

/-- What the code needs of a request and does not check: the side it goes by
is the order's, and the index it works out lies in the price array. -/
structure Safe (c : Config) (a : Lob) (req : OrderRequest) : Prop where
  new : req.action = .new → (∃ s : Slot, req.side = s.side) ∧
    (req.type = .market ∨ c.priceInvalid req.p ≠ 0 ∨ (req.p ≤ 0 ∧ req.type = .limit) ∨
      c.priceToIndex req.p < c.maxPriceLevels)
  named : req.action = .cancel ∨ req.action = .modify →
    ∀ s o, a.find req.combinedId = some (s, o) → req.side = s.side
  moved : req.action = .modify → req.p = 0 ∨ c.priceInvalid req.p ≠ 0 ∨
    c.priceToIndex req.p < c.maxPriceLevels

/-- `processRequest` answers every safe request as `Lob.step` does. -/
theorem processRequest_answers {st : State} {q : Nat → List Nat} (h : Inv st.book q)
    {req : OrderRequest} (hsafe : Safe st.book.cfg (flat st.book q) req) :
    ∃ st', st.processRequest req = some st' ∧
      Answers st st' (Lob.step st.book.cfg st.gen (flat st.book q) req) := by
  unfold State.processRequest Lob.step
  cases hact : req.action with
  | cancel => exact handleCancelOrder_answers h (hsafe.named (Or.inl hact))
  | modify =>
    refine handleModifyOrder_answers h (hsafe.named (Or.inr hact)) ?_
    exact (hsafe.moved hact).imp_right fun hp => hp.imp_right Or.inl
  | other n => exact ⟨_, rfl, reject_answers h req 0 .invalidAction⟩
  | new =>
    obtain ⟨⟨s, hs⟩, hidx⟩ := hsafe.new hact
    simp only
    split
    · exact ⟨_, rfl, reject_answers h req 0 .priceInvalid⟩
    · rename_i hvalid
      refine handleNewOrder_answers h hs (fun hpos => Or.inl ?_)
      unfold State.newIndex
      split
      · have hlev := st.book.cfg.levels_pos
        split <;> omega
      · rename_i hmkt
        rcases hidx with hm | hv | hz | hlt
        · exact absurd hm hmkt
        · exact absurd ⟨hmkt, hv⟩ hvalid
        · exact absurd hz hpos
        · exact hlt

/-- A request as its sides go: it names one, and for a resting order that order's. -/
structure Sided (a : Lob) (req : OrderRequest) : Prop where
  side : ∃ s : Slot, req.side = s.side
  named : req.action = .cancel ∨ req.action = .modify →
    ∀ s o, a.find req.combinedId = some (s, o) → req.side = s.side

/-- Whatever the price of a request, `processRequest` returns what `Lob.step` does, if it
returns. -/
theorem processRequest_returns {st st' : State} {q : Nat → List Nat} (h : Inv st.book q)
    {req : OrderRequest} (hsided : Sided (flat st.book q) req) (hrun : st.processRequest req = some st') :
    Answers st st' (Lob.step st.book.cfg st.gen (flat st.book q) req) := by
  have hanswers : ∃ st', st.processRequest req = some st' ∧
      Answers st st' (Lob.step st.book.cfg st.gen (flat st.book q) req) := by
    unfold State.processRequest Lob.step at *
    cases hact : req.action with
    | cancel => exact handleCancelOrder_answers h (hsided.named (Or.inl hact))
    | modify =>
      rw [hact] at hrun
      dsimp only at hrun
      refine handleModifyOrder_answers h (hsided.named (Or.inr hact)) (Or.inr (Or.inr (Or.inr ?_)))
      rw [hrun]
      rfl
    | other n => exact ⟨_, rfl, reject_answers h req 0 .invalidAction⟩
    | new =>
      obtain ⟨s, hs⟩ := hsided.side
      rw [hact] at hrun
      dsimp only at hrun ⊢
      split
      · exact ⟨_, rfl, reject_answers h req 0 .priceInvalid⟩
      · rename_i hvalid
        rw [if_neg hvalid] at hrun
        refine handleNewOrder_answers h hs (fun _ => Or.inr ?_)
        rw [hrun]
        rfl
  obtain ⟨st'', hrun', hans⟩ := hanswers
  obtain rfl := Option.some.inj (hrun.symm.trans hrun')
  exact hans

end Exchange
