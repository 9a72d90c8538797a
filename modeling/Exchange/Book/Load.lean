import Exchange.Book.Replay

/-!
# Loading a snapshot

`load_snapshot` puts the orders of a snapshot into the queues one by one, without matching
them. `take_snapshot` writes each side from its lowest level up, whichever end is the best,
and each level from its front to its back; an order put into a queue comes last in it. So
the queues come out as they were, and with them the sides: a side is its levels' queues, one
after the other (`eq_of_levels`).

A `Market` order is put at the far end of its side, wherever it was. So the result is about books
in which all that there are of them rest there (`Inv.loads_index`), as in one without any.
-/

namespace Exchange

/-! ## The code -/

/-- The order `load_snapshot` makes of a record. -/
def OrderSnapshot.order (r : OrderSnapshot) : Order where
  orderId := r.combinedOrderId
  qtyOriginal := r.qtyOriginal
  qtyRemaining := r.qtyRemaining
  type := r.type
  priceLevel := none
  timestamp := r.timestamp
  symbolId := r.symbolId

/-- The index of the level it goes to. -/
def OrderSnapshot.index (c : Config) (r : OrderSnapshot) : Nat :=
  if r.type = .market then (if r.side = .buy then c.maxPriceLevels - 1 else 0) else c.priceToIndex r.p

namespace OrderBook

/-- The body of the loop of `load_snapshot`. -/
def loadOrder (b : OrderBook) (r : OrderSnapshot) : Option OrderBook := do
  let ptr := b.nextOrder
  let idx := r.index b.cfg
  let b ← (b.allocate r.order).getOrCreatePriceLevel idx r.side
  let b ← b.insertOrderToLevel idx ptr
  some (b.setActive r.combinedOrderId ptr)

/-- `load_snapshot`. -/
def loadSnapshot (b : OrderBook) (rs : List OrderSnapshot) : Option OrderBook := rs.foldlM loadOrder b

end OrderBook

/-! ## Sides by their levels -/

/-- A side is sorted by price, so it is known by the orders of each level. -/
theorem eq_of_levels {s : Slot} : ∀ {l l' : List Order},
    l.Pairwise (fun x y => ¬ s.better y.level x.level) →
    l'.Pairwise (fun x y => ¬ s.better y.level x.level) →
    (∀ i, l.filter (fun o => o.level = i) = l'.filter (fun o => o.level = i)) → l = l'
  | [], l', _, _, hlevels => by
    cases l' with
    | nil => rfl
    | cons y ys =>
      have hy := hlevels y.level
      rw [List.filter_cons_of_pos (by simp)] at hy
      cases hy
  | x :: xs, l', hsorted, hsorted', hlevels => by
    cases l' with
    | nil =>
      have hx := hlevels x.level
      rw [List.filter_cons_of_pos (by simp)] at hx
      cases hx
    | cons y ys =>
      -- the first orders are at the best level of either
      have hmem : ∀ {l₁ l₂ : List Order}, (∀ i, l₁.filter (fun o => o.level = i) =
          l₂.filter (fun o => o.level = i)) → ∀ o ∈ l₁, o ∈ l₂ := by
        intro l₁ l₂ heq o ho
        have hin : o ∈ l₁.filter (fun z => z.level = o.level) :=
          List.mem_filter.mpr ⟨ho, decide_eq_true rfl⟩
        rw [heq] at hin
        exact (List.mem_filter.mp hin).1
      have hlevel : y.level = x.level := by
        have hyx := head_best hsorted' x (hmem hlevels x List.mem_cons_self)
        have hxy := head_best hsorted y (hmem (fun i => (hlevels i).symm) y List.mem_cons_self)
        cases s <;> simp only [Slot.better] at hxy hyx <;> omega
      have hhead := hlevels x.level
      rw [List.filter_cons_of_pos (by simp), List.filter_cons_of_pos (by simpa using hlevel)] at hhead
      obtain ⟨rfl, -⟩ := List.cons.inj hhead
      refine congrArg _ (eq_of_levels (List.pairwise_cons.mp hsorted).2
        (List.pairwise_cons.mp hsorted').2 fun i => ?_)
      have hi := hlevels i
      rw [List.filter_cons, List.filter_cons] at hi
      split at hi
      · exact (List.cons.inj hi).2
      · exact hi

/-- The orders of some levels, by level. -/
theorem Core.filter_flatMap {b : OrderBook} {q : Nat → List Nat} (h : Core b q) {ls : List Nat}
    (hnodup : ls.Nodup) (i : Nat) :
    (ls.flatMap (contents b.orders q)).filter (fun o => o.level = i) =
      if i ∈ ls then contents b.orders q i else [] := by
  induction ls with
  | nil => rfl
  | cons j ls ih =>
    obtain ⟨hj, hls⟩ := List.nodup_cons.mp hnodup
    rw [List.flatMap_cons, List.filter_append, ih hls]
    by_cases hij : i = j
    · subst hij
      rw [if_neg hj, if_pos List.mem_cons_self, List.append_nil]
      exact List.filter_eq_self.mpr fun o ho => by simpa using (h.alive.contents ho).2.1
    · have hnone : (contents b.orders q j).filter (fun o => o.level = i) = [] := by
        refine List.filter_eq_nil_iff.mpr fun o ho => ?_
        have hlevel := (h.alive.contents ho).2.1
        have hne : o.level ≠ i := fun heq => hij (heq.symm.trans hlevel)
        simpa using hne
      rw [hnone, List.nil_append]
      exact if_congr (by rw [List.mem_cons, or_iff_right hij]) rfl rfl

/-! ## What a snapshot holds -/

/-- What a snapshot keeps of a resting order. -/
def Order.snapshot (c : Config) (s : Slot) (o : Order) : OrderSnapshot where
  combinedOrderId := o.orderId
  qtyOriginal := o.qtyOriginal
  qtyRemaining := o.qtyRemaining
  type := o.type
  side := s.side
  timestamp := o.timestamp
  symbolId := o.symbolId
  p := c.plToPrice o.level

/-- The orders of a side, from the lowest level up. -/
def stock (b : OrderBook) (q : Nat → List Nat) (s : Slot) : List Order :=
  (b.activeLevels s).keys.flatMap (contents b.orders q)

/-- A snapshot is the saved orders of the bids, then those of the asks. -/
theorem Core.takeSnapshot_eq {b : OrderBook} {q : Nat → List Nat} (h : Core b q) :
    b.takeSnapshot = (stock b q .bid).map (Order.snapshot b.cfg .bid) ++
      (stock b q .ask).map (Order.snapshot b.cfg .ask) := by
  have hside : ∀ s, ((b.activeLevels s).keys.flatMap fun pl => (b.queueOf pl).filterMap fun ptr =>
      (b.orders ptr).map fun o => OrderSnapshot.mk o.orderId o.qtyOriginal o.qtyRemaining o.type s.side
        o.timestamp o.symbolId (b.cfg.plToPrice pl)) =
      (stock b q s).map (Order.snapshot b.cfg s) := by
    intro s
    unfold stock
    rw [List.map_flatMap]
    refine List.flatMap_congr fun i hi => ?_
    rw [h.queueOf_eq (h.inRange hi), contents, List.map_map, ← List.filterMap_eq_map]
    refine List.filterMap_congr fun p hp => ?_
    rw [(h.alive.deref hp).1]
    show some _ = some (Order.snapshot b.cfg s (deref b.orders p))
    unfold Order.snapshot
    rw [h.alive.level hp]
  unfold OrderBook.takeSnapshot
  rw [List.flatMap_cons, List.flatMap_cons, List.flatMap_nil, List.append_nil, hside, hside]

/-- A snapshot keeps the order of each queue. -/
theorem Core.filter_stock {b : OrderBook} {q : Nat → List Nat} (h : Core b q) (s : Slot) (i : Nat) :
    (stock b q s).filter (fun o => o.level = i) = (flat b q s).filter (fun o => o.level = i) := by
  unfold stock flat
  rw [h.filter_flatMap (b.activeLevels s).nodup, h.filter_flatMap (levelsOf_nodup b.activeLevels s)]
  exact if_congr (by rw [mem_levelsOf, OrdSet.mem_def]) rfl rfl

/-- A snapshot has the orders of the book, in another order. -/
theorem perm_stock (b : OrderBook) (q : Nat → List Nat) (s : Slot) :
    (stock b q s).Perm (flat b q s) := by
  cases s
  · exact (List.Perm.flatMap_right _ (List.reverse_perm _)).symm
  · exact List.Perm.refl _

/-! ## Loading it -/

/-- An order that may join a book without matching: nothing there has its id, and nothing on the
other side would trade with it. -/
structure Lob.Joins (a : Lob) (c : Config) (s : Slot) (o : Order) : Prop where
  level : o.priceLevel = some o.level ∧ o.level < c.maxPriceLevels
  sane : o.Sane
  index : (o.snapshot c s).index c = o.level
  fresh : ∀ s', ∀ x ∈ a s', x.orderId ≠ o.orderId
  apart : ∀ x ∈ a s.flip, State.crossed s o.level x.level = false

/-- One order is loaded: it comes last at its level. -/
theorem Inv.loadOrder {b : OrderBook} {q : Nat → List Nat} (h : Inv b q) {s : Slot} {o : Order}
    (ho : b.lob.Joins b.cfg s o) :
    ∃ b' q', b.loadOrder (o.snapshot b.cfg s) = some b' ∧ Inv b' q' ∧ b'.cfg = b.cfg ∧
      b'.recoverMode = b.recoverMode ∧ b'.lob = Function.update b.lob s (place s o (b.lob s)) := by
  have hindex := ho.index
  have horder : { (o.snapshot b.cfg s).order with priceLevel := some o.level } = o := by
    rw [← ho.level.1]
    rfl
  have hnone : b.activeOrders (o.snapshot b.cfg s).order.orderId = none := by
    cases hact : b.activeOrders (o.snapshot b.cfg s).order.orderId with
    | none => rfl
    | some p =>
      obtain ⟨s', i, x, hfind, -, -, -, hid, -⟩ := h.active_some hact
      rw [← h.lob_eq] at hfind
      exact absurd hid (ho.fresh s' x (Lob.mem_of_find hfind).1)
  obtain ⟨hbut, hfull, hflat⟩ := h.allocate hnone
  have hsane : (o.snapshot b.cfg s).order.Sane := ⟨ho.sane.id, ho.sane.pos, ho.sane.le, ho.sane.max⟩
  have hx : ∀ j ∈ (b.allocate (o.snapshot b.cfg s).order).activeLevels s.flip,
      State.crossed s o.level j = false := by
    intro j hj
    obtain ⟨x, hx, rfl⟩ := h.mem_levels.mp hj
    exact ho.apart x hx
  obtain ⟨b₁, b₂, hb₁, hb₂, hinv, hcfg, hmode, hflat₂⟩ := hbut.rests hfull hsane ho.level.2 hx
  have hinv' : Inv (b₂.setActive (o.snapshot b.cfg s).combinedOrderId b.nextOrder)
      (pushPtr q o.level b.nextOrder) := hinv
  refine ⟨b₂.setActive (o.snapshot b.cfg s).combinedOrderId b.nextOrder, _, ?_, hinv', hcfg, hmode, ?_⟩
  · unfold OrderBook.loadOrder
    dsimp only
    rw [hindex]
    show ((b.allocate (o.snapshot b.cfg s).order).getOrCreatePriceLevel o.level s.side).bind _ = _
    rw [hb₁, Option.bind_some]
    show (b₁.insertOrderToLevel o.level b.nextOrder).bind _ = _
    rw [hb₂]
    rfl
  · rw [hinv'.lob_eq, h.lob_eq]
    refine (hflat₂ : _ = _).trans ?_
    rw [hflat, horder]

/-- The orders of one side of a book are loaded, one behind the other. -/
theorem Inv.loadSide {c : Config} {a : Lob} (hok : a.Ok c) (s : Slot)
    (hindex : ∀ o ∈ a s, (o.snapshot c s).index c = o.level) : ∀ {os : List Order} {b : OrderBook} {q : Nat → List Nat},
      Inv b q → b.cfg = c → (∀ s', ∀ x ∈ b.lob s', x ∈ a s') → (∀ o ∈ os, o ∈ a s) →
      (os.map (·.orderId)).Nodup → (∀ o ∈ os, o ∉ b.lob s) →
      ∃ b' q', b.loadSnapshot (os.map (Order.snapshot c s)) = some b' ∧ Inv b' q' ∧ b'.cfg = c ∧
        b'.recoverMode = b.recoverMode ∧ b'.lob s.flip = b.lob s.flip ∧
        (∀ x ∈ b'.lob s, x ∈ a s) ∧
        ∀ i, (b'.lob s).filter (fun o => o.level = i) =
          (b.lob s).filter (fun o => o.level = i) ++ os.filter (fun o => o.level = i)
  | [], b, q, h, hcfg, hsub, _, _, _ =>
    ⟨b, q, rfl, h, hcfg, rfl, rfl, hsub s, fun i => (List.append_nil _).symm⟩
  | o :: os, b, q, h, hcfg, hsub, hos, hids, hnew => by
    have ho := hos o List.mem_cons_self
    -- the order fits: it is one of an uncrossed book, and not loaded yet
    have hjoins : b.lob.Joins b.cfg s o := by
      refine ⟨hcfg ▸ hok.level ho, hok.sane ho, hcfg ▸ hindex o ho, fun s' x hx hid => ?_, fun x hx => ?_⟩
      · obtain ⟨rfl, rfl⟩ := hok.unique (hsub s' x hx) ho hid
        exact hnew x List.mem_cons_self hx
      · have hx' := hsub s.flip x hx
        cases s with
        | bid =>
          have hlt := hok.uncrossed ho hx'
          simpa [State.crossed] using hlt
        | ask =>
          have hlt := hok.uncrossed hx' ho
          simpa [State.crossed] using hlt
    obtain ⟨b₁, q₁, hb₁, h₁, hcfg₁, hmode₁, hlob₁⟩ := h.loadOrder hjoins
    -- it goes behind the orders of its level, and the other side stays
    have hself : b₁.lob s = place s o (b.lob s) := by rw [hlob₁, Function.update_self]
    have hflip : b₁.lob s.flip = b.lob s.flip := by
      rw [hlob₁, Function.update_of_ne (Slot.flip_ne s)]
    have hsub₁ : ∀ s', ∀ x ∈ b₁.lob s', x ∈ a s' := by
      intro s' x hx
      by_cases hs : s' = s
      · subst hs
        rw [hself] at hx
        rcases mem_place.mp hx with rfl | hx
        · exact ho
        · exact hsub s' x hx
      · rw [hlob₁, Function.update_of_ne hs] at hx
        exact hsub s' x hx
    obtain ⟨hid, hids'⟩ := List.nodup_cons.mp hids
    -- the rest has other ids, so it is not loaded yet either
    have hnew₁ : ∀ y ∈ os, y ∉ b₁.lob s := by
      intro y hy hmem
      rw [hself] at hmem
      rcases mem_place.mp hmem with rfl | hmem
      · exact hid (List.mem_map_of_mem hy)
      · exact hnew y (List.mem_cons_of_mem _ hy) hmem
    obtain ⟨b', q', hb', h', hcfg', hmode', hflip', hsub', hfilter⟩ := Inv.loadSide hok s hindex h₁
      (hcfg₁.trans hcfg) hsub₁ (fun y hy => hos y (List.mem_cons_of_mem _ hy)) hids' hnew₁
    refine ⟨b', q', ?_, h', hcfg', hmode'.trans hmode₁, hflip'.trans hflip, hsub', fun i => ?_⟩
    · rw [hcfg] at hb₁
      show (b.loadOrder (o.snapshot c s)).bind _ = _
      rw [hb₁]
      exact hb'
    · have hsorted : (b.lob s).Pairwise fun x y => ¬ s.better y.level x.level := by
        rw [h.lob_eq]
        exact h.flat_sorted s
      rw [hfilter i, hself]
      by_cases hi : o.level = i
      · subst hi
        rw [place_filter hsorted, List.append_assoc, List.filter_cons_of_pos (by simp)]
        rfl
      · rw [place_filter_ne hi, List.filter_cons_of_neg (by simpa using hi)]

/-- A fresh book loads orders of a book, first bids and then asks. -/
theorem Inv.loadBoth {c : Config} {a : Lob} (hok : a.Ok c)
    (hindex : ∀ s, ∀ o ∈ a s, (o.snapshot c s).index c = o.level) (os : Slot → List Order)
    (hos : ∀ s, ∀ o ∈ os s, o ∈ a s) (hids : ∀ s, ((os s).map (·.orderId)).Nodup) :
    ∃ b' q', (OrderBook.fresh c).loadSnapshot ((os .bid).map (Order.snapshot c .bid) ++
        (os .ask).map (Order.snapshot c .ask)) = some b' ∧ Inv b' q' ∧ b'.cfg = c ∧
      b'.recoverMode = false ∧ ∀ s i, (b'.lob s).filter (fun o => o.level = i) =
        (os s).filter (fun o => o.level = i) := by
  have hfresh : ∀ s, (OrderBook.fresh c).lob s = [] := fun s => congrFun (fresh_lob c) s
  obtain ⟨b₁, q₁, hb₁, h₁, hcfg₁, hmode₁, hflip₁, hsub₁, hbid⟩ := Inv.loadSide hok .bid (hindex .bid)
    (fresh_inv c) rfl (fun s' x hx => absurd hx (by rw [hfresh]; exact List.not_mem_nil))
    (hos .bid) (hids .bid) (fun o _ ho => absurd ho (by rw [hfresh]; exact List.not_mem_nil))
  have hask₁ : b₁.lob .ask = [] := hflip₁.trans (hfresh .ask)
  have hsub : ∀ s', ∀ x ∈ b₁.lob s', x ∈ a s' := by
    intro s' x hx
    cases s' with
    | bid => exact hsub₁ x hx
    | ask =>
      rw [hask₁] at hx
      exact absurd hx List.not_mem_nil
  obtain ⟨b₂, q₂, hb₂, h₂, hcfg₂, hmode₂, hflip₂, -, hask⟩ := Inv.loadSide hok .ask (hindex .ask)
    h₁ hcfg₁ hsub (hos .ask) (hids .ask) (fun o _ ho => absurd ho (by rw [hask₁]; exact List.not_mem_nil))
  refine ⟨b₂, q₂, ?_, h₂, hcfg₂, hmode₂.trans hmode₁, fun s i => ?_⟩
  · unfold OrderBook.loadSnapshot at *
    rw [List.foldlM_append, hb₁]
    exact hb₂
  · cases s with
    | bid => rw [show b₂.lob .bid = b₁.lob .bid from hflip₂, hbid i, hfresh .bid]; rfl
    | ask => rw [hask i, hask₁]; rfl

section Loads

variable {b : OrderBook} {q : Nat → List Nat}

/-- The orders by level are those of the sides. -/
theorem Inv.mem_stock (h : Inv b q) {s : Slot} {o : Order} : o ∈ stock b q s ↔ o ∈ b.lob s := by
  rw [h.lob_eq]
  exact (perm_stock b q s).mem_iff

theorem Inv.stock_nodup (h : Inv b q) (s : Slot) : ((stock b q s).map (·.orderId)).Nodup := by
  have hok : b.lob.Ok b.cfg := h.lob_eq ▸ h.ok
  refine ((perm_stock b q s).map _).nodup_iff.mpr ?_
  rw [← h.lob_eq]
  exact hok.ids_nodup s

/-- An order with a limit is put where it was. -/
theorem Lob.Ok.snapshot_index {c : Config} {a : Lob} (hok : a.Ok c) {s : Slot} {o : Order} (ho : o ∈ a s)
    (hlimit : o.type ≠ .market) : (o.snapshot c s).index c = o.level := by
  unfold OrderSnapshot.index Order.snapshot
  rw [if_neg hlimit]
  exact c.priceToIndex_plToPrice (hok.level ho).2

/-- A fresh book that loads the snapshot of a book is that book, if its orders are put where they
were. -/
theorem Inv.loads_index (h : Inv b q) (hindex : ∀ s, ∀ o ∈ b.lob s, (o.snapshot b.cfg s).index b.cfg = o.level) :
    ∃ b' q', (OrderBook.fresh b.cfg).loadSnapshot b.takeSnapshot = some b' ∧ Inv b' q' ∧
      b'.cfg = b.cfg ∧ b'.recoverMode = false ∧ b'.lob = b.lob := by
  have hok : b.lob.Ok b.cfg := h.lob_eq ▸ h.ok
  obtain ⟨b', q', hb', h', hcfg, hmode, hlevels⟩ := Inv.loadBoth hok hindex (stock b q)
    (fun s o ho => h.mem_stock.mp ho) h.stock_nodup
  rw [← h.takeSnapshot_eq] at hb'
  refine ⟨b', q', hb', h', hcfg, hmode, funext fun s => ?_⟩
  refine eq_of_levels ?_ (hok.sorted s) fun i => ?_
  · rw [h'.lob_eq]
    exact h'.flat_sorted s
  · rw [hlevels, h.filter_stock, h.lob_eq]

/-- A fresh book that loads the snapshot of a book without market orders is that book. -/
theorem Inv.loads (h : Inv b q) (hlimit : ∀ s, ∀ o ∈ b.lob s, o.type ≠ .market) :
    ∃ b' q', (OrderBook.fresh b.cfg).loadSnapshot b.takeSnapshot = some b' ∧ Inv b' q' ∧
      b'.cfg = b.cfg ∧ b'.recoverMode = false ∧ b'.lob = b.lob := by
  have hok : b.lob.Ok b.cfg := h.lob_eq ▸ h.ok
  exact h.loads_index fun s o ho => hok.snapshot_index ho (hlimit s o ho)

/-- A snapshot that breaks off loads as a book with as many orders. -/
theorem Inv.loads_take (h : Inv b q) (hlimit : ∀ s, ∀ o ∈ b.lob s, o.type ≠ .market) (n : Nat) :
    ∃ b' q', (OrderBook.fresh b.cfg).loadSnapshot (b.takeSnapshot.take n) = some b' ∧ Inv b' q' ∧
      b'.takeSnapshot.length = (b.takeSnapshot.take n).length := by
  have hok : b.lob.Ok b.cfg := h.lob_eq ▸ h.ok
  let os : Slot → List Order := fun s =>
    (stock b q s).take (if s = .bid then n else n - (stock b q .bid).length)
  have hsub : ∀ s, (os s).Sublist (stock b q s) := fun s => List.take_sublist ..
  have htake : b.takeSnapshot.take n = (os .bid).map (Order.snapshot b.cfg .bid) ++
      (os .ask).map (Order.snapshot b.cfg .ask) := by
    rw [h.takeSnapshot_eq, List.take_append, ← List.map_take, ← List.map_take, List.length_map]
    rfl
  obtain ⟨b', q', hb', h', -, -, hlevels⟩ := Inv.loadBoth hok
    (fun s o ho => hok.snapshot_index ho (hlimit s o ho)) os (fun s o ho => h.mem_stock.mp ((hsub s).subset ho))
    (fun s => (h.stock_nodup s).sublist ((hsub s).map _))
  rw [← htake] at hb'
  -- an order is in the book as often as in the list, as it is so at its level
  have hperm : ∀ s, (b'.lob s).Perm (os s) := by
    intro s
    refine List.perm_iff_count.mpr fun o => ?_
    have hcount : ∀ l : List Order, l.count o = (l.filter (fun x => x.level = o.level)).count o :=
      fun l => (List.count_filter (by simp)).symm
    rw [hcount (b'.lob s), hcount (os s), hlevels]
  have hlen : ∀ s, (stock b' q' s).length = (os s).length := fun s => by
    rw [(perm_stock b' q' s).length_eq, ← h'.lob_eq, (hperm s).length_eq]
  refine ⟨b', q', hb', h', ?_⟩
  rw [htake, h'.takeSnapshot_eq, List.length_append, List.length_append, List.length_map, List.length_map,
    List.length_map, List.length_map, hlen, hlen]

end Loads

end Exchange
