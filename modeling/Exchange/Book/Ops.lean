import Exchange.Book.Repr

/-!
# The book's edits, one lemma each

`Core b q` gathers the predicates of `Repr.lean` that hold at every step of
every request, `contents` reads the queues as lists of orders, and `Inv` /
`InvBut` add what holds between requests and inside `match`. The lemmas below
say for each helper of `OrderBook.cpp` that it returns, that `Core` survives,
and what became of `contents` and of the level lists.
-/

namespace Exchange

/-- The orders of each level, front to back. -/
def contents (orders : Nat → Option Order) (q : Nat → List Nat) : Nat → List Order :=
  fun i => (q i).map (deref orders)

/-- The invariant every step of every request keeps. -/
structure Core (b : OrderBook) (q : Nat → List Nat) : Prop where
  queued : Queued b.cfg.maxPriceLevels b.links q
  counted : Counted b.priceArray b.orders q
  alive : Alive b.orders q
  chained : Chained b.chain b.bestLevels b.activeLevels
  inRange : ∀ {s i}, i ∈ b.activeLevels s → i < b.cfg.maxPriceLevels
  held : ∀ {i}, q i ≠ [] → ∃ s, i ∈ b.activeLevels s
  fresh : ∀ {p}, b.nextOrder ≤ p → b.orders p = none

/-- No active level is empty. -/
def Full (b : OrderBook) (q : Nat → List Nat) : Prop :=
  ∀ s i, i ∈ b.activeLevels s → q i ≠ []

/-- The invariant between two requests. -/
structure Inv (b : OrderBook) (q : Nat → List Nat) : Prop extends Core b q where
  full : Full b q
  indexed : Indexed b.activeOrders b.orders q

/-- The invariant inside `match`: the taker `t` is in no queue. -/
structure InvBut (t : Nat) (o : Order) (b : OrderBook) (q : Nat → List Nat) : Prop
    extends Core b q where
  taker : b.orders t = some o
  loose : ∀ i, t ∉ q i
  indexed : IndexedBut o.orderId b.activeOrders b.orders q

/-- The resting orders of one side, in priority order. -/
def flat (b : OrderBook) (q : Nat → List Nat) : Lob :=
  fun s => (levelsOf b.activeLevels s).flatMap (contents b.orders q)

/-- The fields only the handlers change. -/
structure SameOrders (b b' : OrderBook) : Prop where
  cfg : b'.cfg = b.cfg
  orders : b'.orders = b.orders
  nextOrder : b'.nextOrder = b.nextOrder
  activeOrders : b'.activeOrders = b.activeOrders
  recoverMode : b'.recoverMode = b.recoverMode

namespace SameOrders

variable {b b' b'' : OrderBook}

theorem trans (h : SameOrders b b') (h' : SameOrders b' b'') : SameOrders b b'' :=
  ⟨h'.cfg.trans h.cfg, h'.orders.trans h.orders, h'.nextOrder.trans h.nextOrder,
    h'.activeOrders.trans h.activeOrders, h'.recoverMode.trans h.recoverMode⟩

/-- Unlinking an order rewrites links and counters only, -/
theorem removeOrderFromLevel {ptr : Nat} (h : b.removeOrderFromLevel ptr = some b') : SameOrders b b' := by
  unfold OrderBook.removeOrderFromLevel at h
  obtain ⟨o, -, h⟩ := Option.bind_eq_some_iff.mp h
  obtain ⟨prev, -, h⟩ := Option.bind_eq_some_iff.mp h
  obtain ⟨next, -, h⟩ := Option.bind_eq_some_iff.mp h
  obtain ⟨pl, -, h⟩ := Option.bind_eq_some_iff.mp h
  obtain rfl := Option.some.inj h
  exact ⟨rfl, rfl, rfl, rfl, rfl⟩

/-- taking a level out the levels of its side, -/
theorem removeIfEmpty {pl : Nat} {side : Side} (h : b.removeIfEmpty pl side = some b') : SameOrders b b' := by
  unfold OrderBook.removeIfEmpty at h
  split at h
  · unfold OrderBook.removePriceLevel at h
    obtain ⟨s, -, h⟩ := Option.bind_eq_some_iff.mp h
    obtain rfl := Option.some.inj h
    exact ⟨rfl, rfl, rfl, rfl, rfl⟩
  · obtain rfl := Option.some.inj h
    exact ⟨rfl, rfl, rfl, rfl, rfl⟩

/-- and so does putting one in. -/
theorem getOrCreatePriceLevel {pl : Nat} {side : Side} (h : b.getOrCreatePriceLevel pl side = some b') :
    SameOrders b b' := by
  unfold OrderBook.getOrCreatePriceLevel at h
  split at h
  · split at h
    · obtain rfl := Option.some.inj h
      exact ⟨rfl, rfl, rfl, rfl, rfl⟩
    · obtain ⟨s, -, h⟩ := Option.bind_eq_some_iff.mp h
      obtain rfl := Option.some.inj h
      exact ⟨rfl, rfl, rfl, rfl, rfl⟩
  · cases h

end SameOrders

/-! ## Reading contents -/

/-- Every queued pointer points to an order of its level, with sane quantities. -/
theorem Alive.deref {orders : Nat → Option Order} {q : Nat → List Nat} (h : Alive orders q)
    {i p : Nat} (hp : p ∈ q i) :
    orders p = some (Exchange.deref orders p) ∧ (Exchange.deref orders p).priceLevel = some i ∧
      (Exchange.deref orders p).Sane := by
  obtain ⟨o, ho, hl, hs⟩ := h i p hp
  rw [deref_of_some ho]
  exact ⟨ho, hl, hs⟩

theorem Alive.level {orders : Nat → Option Order} {q : Nat → List Nat} (h : Alive orders q)
    {i p : Nat} (hp : p ∈ q i) : (Exchange.deref orders p).level = i := by
  rw [Order.level, (h.deref hp).2.1]
  rfl

/-- Every order of a level's contents rests at that level, in sane quantities. -/
theorem Alive.contents {orders : Nat → Option Order} {q : Nat → List Nat} (h : Alive orders q)
    {i : Nat} {o : Order} (ho : o ∈ contents orders q i) :
    o.priceLevel = some i ∧ o.level = i ∧ o.Sane := by
  obtain ⟨p, hp, rfl⟩ := List.mem_map.mp ho
  exact ⟨(h.deref hp).2.1, h.level hp, (h.deref hp).2.2⟩

/-- The orders of a book, by level and by place in the queue. -/
theorem mem_flat {b : OrderBook} {q : Nat → List Nat} {s : Slot} {o : Order} :
    o ∈ flat b q s ↔ ∃ i p, i ∈ b.activeLevels s ∧ p ∈ q i ∧ deref b.orders p = o := by
  simp only [flat, contents, List.mem_flatMap, List.mem_map, mem_levelsOf]
  constructor
  · rintro ⟨i, hi, p, hp, rfl⟩
    exact ⟨i, p, hi, hp, rfl⟩
  · rintro ⟨i, p, hi, hp, rfl⟩
    exact ⟨i, hi, p, hp, rfl⟩

/-- A level reads the same where its own orders do. -/
theorem contents_congr {orders orders' : Nat → Option Order} {q : Nat → List Nat} {i : Nat}
    (h : ∀ p ∈ q i, orders' p = orders p) : contents orders' q i = contents orders q i :=
  List.map_congr_left (fun p hp => deref_congr (h p hp))

/-- Dropping a pointer drops the orders of its id, when ids are unique. -/
theorem contents_dropPtr {orders : Nat → Option Order} {q : Nat → List Nat} {p i : Nat}
    (huniq : ∀ x ∈ q i, (deref orders x).orderId = (deref orders p).orderId → x = p) :
    contents orders (dropPtr q p) i =
      (contents orders q i).filter (·.orderId ≠ (deref orders p).orderId) := by
  rw [contents, contents, List.filter_map, dropPtr]
  congr 1
  refine List.filter_congr (fun x hx => ?_)
  simp only [Function.comp_apply, decide_eq_decide, ne_eq, not_iff_not]
  exact ⟨fun e => by rw [e], huniq x hx⟩

/-- An emptied level adds nothing to its side. -/
theorem flatMap_remove {C : Nat → List Order} {pre post : List Nat} {i : Nat} (h : C i = []) :
    (pre ++ i :: post).flatMap C = (pre ++ post).flatMap C := by
  simp [List.flatMap_append, List.flatMap_cons, h]

/-- New contents at one level of a side, in place. -/
theorem flat_update {b b' : OrderBook} {q q' : Nat → List Nat}
    (h : Chained b.chain b.bestLevels b.activeLevels) {s : Slot} {i : Nat} {pre post : List Nat}
    {c : List Order} (hlv : b'.activeLevels = b.activeLevels)
    (hC : contents b'.orders q' = Function.update (contents b.orders q) i c)
    (hl : levelsOf b.activeLevels s = pre ++ i :: post) :
    flat b' q' = Function.update (flat b q) s
      (pre.flatMap (contents b.orders q) ++ (c ++ post.flatMap (contents b.orders q))) := by
  have hnd := levelsOf_nodup b.activeLevels s
  rw [hl] at hnd
  have hother : ∀ {ls : List Nat}, i ∉ ls →
      ls.flatMap (Function.update (contents b.orders q) i c) = ls.flatMap (contents b.orders q) :=
    fun hi => List.flatMap_congr (fun j hj =>
      Function.update_of_ne (fun e : j = i => hi (e ▸ hj)) _ _)
  have hpre : i ∉ pre := fun hm => (List.nodup_append.mp hnd).2.2 i hm i List.mem_cons_self rfl
  have hpost : i ∉ post := (List.nodup_cons.mp (List.nodup_append.mp hnd).2.1).1
  funext s'
  rw [flat, hlv, hC]
  by_cases hs : s' = s
  · subst hs
    rw [Function.update_self, hl, List.flatMap_append, List.flatMap_cons, hother hpre,
      hother hpost, Function.update_self]
  · rw [Function.update_of_ne hs, hother]
    · rfl
    · intro hm
      have hi : i ∈ b.activeLevels s := mem_levelsOf.mp (hl ▸ by simp)
      exact hs (h.slot_unique (mem_levelsOf.mp hm) hi)

/-! ## Taking an order out of its level -/

/-- The level an order is queued at is active on one side. -/
theorem Core.active_of_mem {b : OrderBook} {q : Nat → List Nat} (h : Core b q) {i p : Nat}
    (hp : p ∈ q i) : ∃ s, i ∈ b.activeLevels s :=
  h.held (fun e => by rw [e] at hp; cases hp)

/-- `removeOrderFromLevel` unlinks a queued order and counts it off its level. -/
theorem removeOrder_spec {b : OrderBook} {q : Nat → List Nat}
    (h : Queued b.cfg.maxPriceLevels b.links q) {i p : Nat} {o : Order} {xs ys : List Nat}
    (hq : q i = xs ++ p :: ys) (ho : b.orders p = some o) (hl : o.priceLevel = some i) :
    ∃ L, b.links.next (.order p) = some (front i ys) ∧
      L.next (.order p) = some (front i ys) ∧
      b.removeOrderFromLevel p = some ({ b with links := L }.modifyLevel i
        fun l => { l with orderCount := l.orderCount - 1 }) ∧
      Queued b.cfg.maxPriceLevels L (dropPtr q p) := by
  obtain ⟨prev, hprev, hnext, hun⟩ := h.unlink hq
  have hne : OrderNode.order p ≠ prev := by
    intro e
    -- a node is not its own neighbour: its level's nodes are distinct
    have hdll := h.dll (h.range (by simp [hq] : p ∈ q i))
    have hnd := nodes_nodup (i := i) (h.nodup i)
    have hcut : nodes i (q i) = ahead i xs ++ .order p :: behind i ys := by
      simp [nodes, ahead, behind, hq]
    rw [hcut] at hdll hnd
    have hlast : (ahead i xs).getLast? = some (.order p) := by
      have hmid := hdll.at_mid.1
      rw [hprev, ← e] at hmid
      simpa using hmid.symm
    exact (List.nodup_append.mp hnd).2.2 _ (List.mem_of_getLast? hlast) _ List.mem_cons_self rfl
  refine ⟨_, hnext, ?_, ?_, hun⟩
  · show Function.update b.links.next prev (some (front i ys)) (.order p) = _
    rw [Function.update_of_ne hne, hnext]
  · simp [OrderBook.removeOrderFromLevel, ho, hprev, hnext, hl]

/-- `remove_price_level`, for the side a level is on: the chain is closed over it and the best level moves up.
-/
theorem removePriceLevel_side (b : OrderBook) (s : Slot) (i : Nat) :
    b.removePriceLevel i s.side = some { b with
      chain := (b.chain.setNext? (b.chain.prev i) (b.chain.next i)).setPrev? (b.chain.next i)
        (b.chain.prev i)
      bestLevels := if (b.chain.prev i).isSome then b.bestLevels
        else Function.update b.bestLevels s (b.chain.next i)
      activeLevels := Function.update b.activeLevels s ((b.activeLevels s).erase i) } := by
  cases s <;> rfl

/-- `removePriceLevel`, when the level is left empty: the chain closes over it
and its side reads the same. -/
theorem Core.settle {b : OrderBook} {q : Nat → List Nat} (h : Core b q) {s : Slot} {i : Nat}
    (hi : i ∈ b.activeLevels s) (hf : ∀ s' j, j ∈ b.activeLevels s' → j ≠ i → q j ≠ []) :
    ∃ b', b.removeIfEmpty i s.side = some b' ∧
      Core b' q ∧ Full b' q ∧ SameOrders b b' ∧ flat b' q = flat b q ∧
      (q i = [] → ∀ {pre post}, levelsOf b.activeLevels s = pre ++ i :: post →
        levelsOf b'.activeLevels s = pre ++ post) := by
  by_cases hc : (b.priceArray i).orderCount = 0
  · have hempty : q i = [] := List.eq_nil_of_length_eq_zero (h.counted.count i ▸ hc)
    obtain ⟨pre, post, hl⟩ := List.append_of_mem (mem_levelsOf.mpr hi)
    have hmem : ∀ {s' j}, j ∈ Function.update b.activeLevels s ((b.activeLevels s).erase i) s' ↔
        j ∈ b.activeLevels s' ∧ j ≠ i := by
      intro s' j
      by_cases hs : s' = s
      · subst hs
        rw [Function.update_self, OrdSet.mem_erase]
      · rw [Function.update_of_ne hs]
        exact ⟨fun hj => ⟨hj, fun e => hs (h.chained.slot_unique (e ▸ hj) hi)⟩, fun hj => hj.1⟩
    rw [OrderBook.removeIfEmpty, if_pos hc]
    refine ⟨_, removePriceLevel_side b s i, ⟨h.queued, h.counted, h.alive,
      h.chained.remove hl, fun hj => h.inRange (hmem.mp hj).1, ?_, h.fresh⟩, ?_,
      ⟨rfl, rfl, rfl, rfl, rfl⟩, ?_, fun _ _ _ hl' => levelsOf_erase hl'⟩
    · intro j hj
      obtain ⟨s', hs'⟩ := h.held hj
      exact ⟨s', hmem.mpr ⟨hs', fun e => hj (e ▸ hempty)⟩⟩
    · intro s' j hj
      exact hf s' j (hmem.mp hj).1 (hmem.mp hj).2
    · funext s'
      show (levelsOf (Function.update b.activeLevels s ((b.activeLevels s).erase i)) s').flatMap _ = _
      by_cases hs : s' = s
      · subst hs
        rw [levelsOf_erase hl, flat, hl, flatMap_remove (by simp [contents, hempty])]
      · rw [levelsOf_update_ne hs]
        rfl
  · rw [OrderBook.removeIfEmpty, if_neg hc]
    have hne : q i ≠ [] := fun e => hc (by rw [h.counted.count, e]; rfl)
    refine ⟨b, rfl, h, ?_, ⟨rfl, rfl, rfl, rfl, rfl⟩, rfl, fun e => absurd e hne⟩
    intro s' j hj
    by_cases hji : j = i
    · exact hji ▸ hne
    · exact hf s' j hj hji

/-- The fields that lie about the levels. -/
structure SameLevels (b b' : OrderBook) : Prop where
  chain : b'.chain = b.chain
  bestLevels : b'.bestLevels = b.bestLevels
  activeLevels : b'.activeLevels = b.activeLevels

/-- An order leaves its level, with what it weighs there. The level itself stays,
perhaps empty. -/
theorem Core.unlinkOrder {b : OrderBook} {q : Nat → List Nat} (h : Core b q) {i p : Nat} {o : Order}
    (hp : p ∈ q i) (ho : b.orders p = some o) :
    ∃ b₁, b.removeOrderFromLevel p = some b₁ ∧
      Core (b₁.subtractQty i o.qtyRemaining) (dropPtr q p) ∧
      SameOrders b (b₁.subtractQty i o.qtyRemaining) ∧
      SameLevels b (b₁.subtractQty i o.qtyRemaining) := by
  obtain ⟨xs, ys, hq⟩ := List.append_of_mem hp
  have hd := h.alive.deref hp
  have hod : deref b.orders p = o := deref_of_some ho
  obtain ⟨L, -, -, hrem, hun⟩ := removeOrder_spec h.queued hq ho (hod ▸ hd.2.1)
  have hother : ∀ j, j ≠ i → p ∉ q j := fun j hj hm => hj (h.queued.disj hm hp)
  have hcnt := h.counted.unlink (h.queued.nodup i) hother hq
  have hpa : ({ b with links := L }.modifyLevel i
      fun l => { l with orderCount := l.orderCount - 1 }).subtractQty i o.qtyRemaining =
      { b with
        links := L
        priceArray := Function.update b.priceArray i
          ⟨(b.priceArray i).totalQty - weight b.orders p, (b.priceArray i).orderCount - 1⟩ } := by
    simp [OrderBook.subtractQty, OrderBook.modifyLevel, weight, hod]
  refine ⟨_, hrem, ?_, ⟨rfl, rfl, rfl, rfl, rfl⟩, ⟨rfl, rfl, rfl⟩⟩
  rw [hpa]
  exact ⟨hun, hcnt, fun j x hm => h.alive j x (mem_dropPtr.mp hm).1, h.chained, h.inRange,
    fun hj => h.held (fun e => hj (by simp [dropPtr, e])), h.fresh⟩

/-- No other level is emptied by that. -/
theorem Core.others_full {b : OrderBook} {q : Nat → List Nat} (h : Core b q) (hf : Full b q)
    {i p : Nat} (hp : p ∈ q i) {s : Slot} {j : Nat} (hj : j ∈ b.activeLevels s) (hji : j ≠ i) :
    dropPtr q p j ≠ [] := by
  rw [dropPtr_of_not_mem (fun hm => hji (h.queued.disj hm hp))]
  exact hf s j hj

/-- An order leaves its level, and the level is removed when that empties it:
the common part of `handleCancelOrder` and `handleModifyOrder`. -/
theorem Core.takeOut {b : OrderBook} {q : Nat → List Nat} (h : Core b q) (hf : Full b q)
    {s : Slot} {i p : Nat} {o : Order} (hp : p ∈ q i) (ho : b.orders p = some o)
    (hs : i ∈ b.activeLevels s) :
    ∃ b₁ b₂, b.removeOrderFromLevel p = some b₁ ∧
      (b₁.subtractQty i o.qtyRemaining).removeIfEmpty i s.side = some b₂ ∧
      Core b₂ (dropPtr q p) ∧ Full b₂ (dropPtr q p) ∧ SameOrders b b₂ ∧
      flat b₂ (dropPtr q p) = flat b (dropPtr q p) := by
  obtain ⟨b₁, hrem, hcore, hsame₁, hlev⟩ := h.unlinkOrder hp ho
  obtain ⟨b₂, hset, hc₂, hf₂, hsame, hflat, -⟩ := hcore.settle (s := s) (i := i)
    (by rw [hlev.activeLevels]; exact hs)
    (fun s' j hj hji => h.others_full hf hp (hlev.activeLevels ▸ hj) hji)
  refine ⟨b₁, b₂, hrem, hset, hc₂, hf₂, hsame₁.trans hsame, hflat.trans ?_⟩
  funext s'
  rw [flat, flat, hlev.activeLevels, hsame₁.orders]

/-! ## Putting an order into a level -/

/-- `get_or_create_price_level`, for a level that is not in use: it goes between its neighbours in the chain. -/
theorem getOrCreate_side (b : OrderBook) (s : Slot) {i : Nat} (hi : i < b.cfg.maxPriceLevels)
    (hc : (b.priceArray i).orderCount = 0) (hn : i ∉ b.activeLevels s) :
    b.getOrCreatePriceLevel i s.side = some { b with
      chain := (((b.chain.setPrev i (betterThan b.activeLevels s i).getLast?).setNext i
        (worseThan b.activeLevels s i).head?).setNext? (betterThan b.activeLevels s i).getLast?
          (some i)).setPrev? (worseThan b.activeLevels s i).head? (some i)
      bestLevels := if (betterThan b.activeLevels s i).getLast?.isSome then b.bestLevels
        else Function.update b.bestLevels s (some i)
      activeLevels := Function.update b.activeLevels s ((b.activeLevels s).insert i) } := by
  obtain ⟨hb, hw⟩ := Chained.neighbours hn
  simp only [OrderBook.getOrCreatePriceLevel, hi, hc, if_true, lt_irrefl, if_false,
    Slot.slot_side, Option.bind_eq_bind, Option.bind_some, hb, hw]

/-- `GetOrCreatePriceLevel` on a level that does not cross: it is active
afterwards, and both sides read the same. -/
theorem Core.create {b : OrderBook} {q : Nat → List Nat} (h : Core b q) (hf : Full b q) {s : Slot}
    {i : Nat} (hi : i < b.cfg.maxPriceLevels)
    (hx : ∀ j ∈ b.activeLevels s.flip, State.crossed s i j = false) :
    ∃ b', b.getOrCreatePriceLevel i s.side = some b' ∧ Core b' q ∧ i ∈ b'.activeLevels s ∧
      (∀ s' j, j ∈ b'.activeLevels s' → j ≠ i → q j ≠ []) ∧ SameOrders b b' ∧
      flat b' q = flat b q := by
  -- a level that is crossed with none of the other side is none of its levels
  have hflip : i ∉ b.activeLevels s.flip := fun hm => by
    have := hx i hm
    cases s <;> simp [State.crossed] at this
  have hslot : ∀ s', i ∈ b.activeLevels s' → s' = s := by
    intro s' hm
    by_contra hne
    exact hflip (Slot.eq_flip hne ▸ hm)
  -- a level without orders is a new one
  by_cases hc : (b.priceArray i).orderCount = 0
  · have hempty : q i = [] := List.eq_nil_of_length_eq_zero (h.counted.count i ▸ hc)
    have hn : ∀ s', i ∉ b.activeLevels s' := fun s' hm => hf s' i hm hempty
    have hmem : ∀ {s' j}, j ∈ Function.update b.activeLevels s ((b.activeLevels s).insert i) s' →
        j = i ∨ j ∈ b.activeLevels s' := by
      intro s' j hj
      by_cases hs : s' = s
      · subst hs
        rwa [Function.update_self, OrdSet.mem_insert] at hj
      · rw [Function.update_of_ne hs] at hj
        exact Or.inr hj
    refine ⟨_, getOrCreate_side b s hi hc (hn s), ⟨h.queued, h.counted, h.alive,
      h.chained.create hn hx, ?_, ?_, h.fresh⟩, ?_, ?_, ⟨rfl, rfl, rfl, rfl, rfl⟩, ?_⟩
    · intro s' j hj
      rcases hmem hj with rfl | hj'
      · exact hi
      · exact h.inRange hj'
    · intro j hj
      obtain ⟨s', hs'⟩ := h.held hj
      refine ⟨s', ?_⟩
      show j ∈ Function.update b.activeLevels s ((b.activeLevels s).insert i) s'
      by_cases hs : s' = s
      · subst hs
        rw [Function.update_self, OrdSet.mem_insert]
        exact Or.inr hs'
      · rwa [Function.update_of_ne hs]
    · show i ∈ Function.update b.activeLevels s ((b.activeLevels s).insert i) s
      rw [Function.update_self, OrdSet.mem_insert]
      exact Or.inl rfl
    · intro s' j hj hji
      rcases hmem hj with rfl | hj'
      · exact absurd rfl hji
      · exact hf s' j hj'
    · funext s'
      show (levelsOf (Function.update b.activeLevels s ((b.activeLevels s).insert i)) s').flatMap _ = _
      by_cases hs : s' = s
      · subst hs
        rw [levelsOf_insert, flatMap_remove (by simp [contents, hempty]), ← levelsOf_cut (hn s')]
        rfl
      · rw [levelsOf_update_ne hs]
        rfl
  -- a level that has orders is there already
  · have hne : q i ≠ [] := fun e => hc (by rw [h.counted.count, e]; rfl)
    obtain ⟨s', hs'⟩ := h.held hne
    refine ⟨b, ?_, h, hslot s' hs' ▸ hs', fun s' j hj _ => hf s' j hj,
      ⟨rfl, rfl, rfl, rfl, rfl⟩, rfl⟩
    rw [OrderBook.getOrCreatePriceLevel, if_pos hi, if_pos (Nat.pos_of_ne_zero hc)]

/-- An order placed behind those that are not worse and before those that are. -/
theorem place_append {s : Slot} {o : Order} : ∀ {xs ys : List Order},
    (∀ x ∈ xs, ¬ s.better o.level x.level) → (∀ y ∈ ys, s.better o.level y.level) →
      place s o (xs ++ ys) = xs ++ o :: ys
  | [], [], _, _ => rfl
  | [], y :: ys, _, hy => by
    rw [List.nil_append, place, if_pos (hy y List.mem_cons_self)]
    rfl
  | x :: xs, ys, hx, hy => by
    rw [List.cons_append, place, if_neg (hx x List.mem_cons_self),
      place_append (fun z hz => hx z (List.mem_cons_of_mem _ hz)) hy]
    rfl

theorem Slot.better_asymm {s : Slot} {i j : Nat} (h : s.better i j) : ¬ s.better j i := by
  cases s <;> exact Nat.lt_asymm h

theorem Slot.better_irrefl (s : Slot) (i : Nat) : ¬ s.better i i := by
  cases s <;> exact Nat.lt_irrefl i

/-- A worse order's worse neighbours are worse too. -/
theorem Slot.better_of_not_better {s : Slot} {i j k : Nat} (h : s.better i j)
    (hk : ¬ s.better k j) : s.better i k := by
  cases s <;> unfold Slot.better at * <;> dsimp only at * <;> omega

/-- `insertOrderToLevel`: a loose order becomes the last of an active level. -/
theorem Core.insert {b : OrderBook} {q : Nat → List Nat} (h : Core b q) {s : Slot} {i t : Nat}
    {o : Order} (hi : i ∈ b.activeLevels s) (ht : b.orders t = some o) (hl : ∀ j, t ∉ q j)
    (hs : o.Sane) :
    ∃ b', b.insertOrderToLevel i t = some b' ∧ Core b' (pushPtr q i t) ∧
      b'.cfg = b.cfg ∧ b'.orders = Function.update b.orders t (some { o with priceLevel := some i }) ∧
      b'.nextOrder = b.nextOrder ∧ b'.activeOrders = b.activeOrders ∧
      b'.recoverMode = b.recoverMode ∧ b'.activeLevels = b.activeLevels ∧
      flat b' (pushPtr q i t) = Function.update (flat b q) s
        (place s { o with priceLevel := some i } (flat b q s)) := by
  have hn := h.inRange hi
  obtain ⟨old, hold, hlink⟩ := h.queued.link hn hl
  have hkeep : ∀ {j p}, p ∈ q j →
      Function.update b.orders t (some { o with priceLevel := some i }) p = b.orders p := by
    intro j p hp
    exact Function.update_of_ne (fun e : p = t => hl j (e ▸ hp)) _ _
  have hself : Function.update b.orders t (some { o with priceLevel := some i }) t =
      some { o with priceLevel := some i } := Function.update_self ..
  have hsame : Counted b.priceArray (Function.update b.orders t
      (some { o with priceLevel := some i })) q :=
    h.counted.congr (fun j p hp => weight_congr (hkeep hp))
  have hcnt := hsame.link i t
  have hw : weight (Function.update b.orders t (some { o with priceLevel := some i })) t =
      (o.qtyRemaining : BitVec 64) := by rw [weight, deref_of_some hself]
  have hins : b.insertOrderToLevel i t = some { b with
      links := (((b.links.setNext old (some (.order t))).setPrev (.order t) (some old)).setNext
        (.order t) (some (.tail i))).setPrev (.tail i) (some (.order t))
      orders := Function.update b.orders t (some { o with priceLevel := some i })
      priceArray := Function.update b.priceArray i ⟨(b.priceArray i).totalQty + weight
        (Function.update b.orders t (some { o with priceLevel := some i })) t,
        (b.priceArray i).orderCount + 1⟩ } := by
    simp [OrderBook.insertOrderToLevel, ht, hold, hw, OrderBook.modifyLevel, OrderBook.modifyOrder]
  refine ⟨_, hins, ⟨hlink, hcnt, ?_, h.chained, h.inRange, ?_, ?_⟩, rfl, rfl, rfl, rfl, rfl, rfl, ?_⟩
  · intro j p hp
    rcases mem_pushPtr.mp hp with hp' | ⟨rfl, rfl⟩
    · obtain ⟨o', ho', hl', hs'⟩ := h.alive j p hp'
      exact ⟨o', (hkeep hp').trans ho', hl', hs'⟩
    · exact ⟨_, hself, rfl, hs.id, hs.pos, hs.le, hs.max⟩
  · intro j hj
    by_cases hji : j = i
    · exact ⟨s, hji ▸ hi⟩
    · rw [pushPtr_ne hji] at hj
      exact h.held hj
  · intro p hp
    have hpt : p ≠ t := fun e => by
      have := h.fresh (e ▸ hp)
      rw [ht] at this
      cases this
    exact (Function.update_of_ne hpt _ _).trans (h.fresh hp)
  · -- the level's contents grow by one at the back; the other levels are as they were
    have hC : contents (Function.update b.orders t (some { o with priceLevel := some i }))
        (pushPtr q i t) = Function.update (contents b.orders q) i
          (contents b.orders q i ++ [{ o with priceLevel := some i }]) := by
      funext j
      have hold' : contents (Function.update b.orders t (some { o with priceLevel := some i })) q j =
          contents b.orders q j := contents_congr (fun p hp => hkeep hp)
      by_cases hji : j = i
      · subst hji
        rw [Function.update_self, ← hold', contents, pushPtr_self, List.map_append]
        simp [contents, deref_of_some hself]
      · rw [Function.update_of_ne hji, ← hold', contents, pushPtr_ne hji, contents]
    obtain ⟨pre, post, hlv⟩ := List.append_of_mem (mem_levelsOf.mpr hi)
    have hsorted := levelsOf_sorted b.activeLevels s
    rw [hlv] at hsorted
    obtain ⟨_, hpost, hpre⟩ := List.pairwise_append.mp hsorted
    have hflat : flat b q s = (pre.flatMap (contents b.orders q) ++ contents b.orders q i) ++
        post.flatMap (contents b.orders q) := by
      rw [flat, hlv, List.flatMap_append, List.flatMap_cons, List.append_assoc]
    refine Eq.trans (flat_update h.chained rfl hC hlv) ?_
    rw [hflat, place_append]
    · simp
    · intro x hx
      rcases List.mem_append.mp hx with hx | hx
      · obtain ⟨j, hj, hx'⟩ := List.mem_flatMap.mp hx
        rw [(h.alive.contents hx').2.1]
        exact Slot.better_asymm (hpre j hj i List.mem_cons_self)
      · rw [(h.alive.contents hx).2.1]
        exact Slot.better_irrefl s i
    · intro x hx
      obtain ⟨j, hj, hx'⟩ := List.mem_flatMap.mp hx
      rw [(h.alive.contents hx').2.1]
      exact (List.pairwise_cons.mp hpost).1 j hj

end Exchange
