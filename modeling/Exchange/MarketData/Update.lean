import Exchange.MarketData.Holds

/-!
# `L3Book::update` edits the book it mirrors

One lemma for each thing `update` can do to a book that holds the engine's
orders: enter an order, take one out, lower one in place, and take one out and
enter it again. None of them meets a bad iterator. `crosses` on such a book is
the engine's own test on the first order of the opposite side.
-/

namespace Exchange.MarketData

namespace L3Book

@[simp] theorem slotOf_side (s : Slot) : slotOf s.side = s := by cases s <;> rfl

@[simp] theorem onLevelUpdated_orders (b : L3Book) (side : Side) (p : Int) (t : Nat) :
    (b.onLevelUpdated side p t).orders = b.orders := by
  unfold onLevelUpdated
  split <;> rfl

@[simp] theorem onLevelUpdated_levels (b : L3Book) (side : Side) (p : Int) (t : Nat) :
    (b.onLevelUpdated side p t).levels = b.levels := by
  unfold onLevelUpdated
  split <;> rfl

@[simp] theorem onLevelUpdated_nextNode (b : L3Book) (side : Side) (p : Int) (t : Nat) :
    (b.onLevelUpdated side p t).nextNode = b.nextNode := by
  unfold onLevelUpdated
  split <;> rfl

@[simp] theorem setLevel_orders (b : L3Book) (s : Slot) (p : Int) (l : L3PriceLevel) :
    (b.setLevel s p l).orders = b.orders := rfl

@[simp] theorem setLevel_nextNode (b : L3Book) (s : Slot) (p : Int) (l : L3PriceLevel) :
    (b.setLevel s p l).nextNode = b.nextNode := rfl

theorem setLevel_self (b : L3Book) (s : Slot) (p : Int) (l : L3PriceLevel) :
    ((b.setLevel s p l).levels s).lookup p = some l := by
  unfold setLevel
  dsimp only
  rw [Function.update_self, AList.lookup_insert]

theorem setLevel_ne (b : L3Book) {s s' : Slot} {p p' : Int} (l : L3PriceLevel)
    (h : s' ≠ s ∨ p' ≠ p) : ((b.setLevel s p l).levels s').lookup p' = (b.levels s').lookup p' := by
  unfold setLevel
  dsimp only
  by_cases hs : s' = s
  · subst hs
    rw [Function.update_self, AList.lookup_insert_ne (h.resolve_left (fun hne => hne rfl))]
  · rw [Function.update_of_ne hs]

@[simp] theorem setOrErase_orders (b : L3Book) (s : Slot) (p : Int) (l : L3PriceLevel) :
    (b.setOrErase s p l).orders = b.orders := by
  unfold setOrErase
  split <;> rfl

@[simp] theorem setOrErase_nextNode (b : L3Book) (s : Slot) (p : Int) (l : L3PriceLevel) :
    (b.setOrErase s p l).nextNode = b.nextNode := by
  unfold setOrErase
  split <;> rfl

@[simp] theorem setLevel_pendingL2 (b : L3Book) (s : Slot) (p : Int) (l : L3PriceLevel) :
    (b.setLevel s p l).pendingL2 = b.pendingL2 := rfl

@[simp] theorem setOrErase_pendingL2 (b : L3Book) (s : Slot) (p : Int) (l : L3PriceLevel) :
    (b.setOrErase s p l).pendingL2 = b.pendingL2 := by
  unfold setOrErase
  split <;> rfl

theorem setOrErase_self (b : L3Book) (s : Slot) (p : Int) (l : L3PriceLevel) :
    ((b.setOrErase s p l).levels s).lookup p = if l.queue = [] then none else some l := by
  unfold setOrErase
  split
  · dsimp only
    rw [Function.update_self, AList.lookup_erase]
  · exact setLevel_self ..

theorem setOrErase_ne (b : L3Book) {s s' : Slot} {p p' : Int} (l : L3PriceLevel)
    (h : s' ≠ s ∨ p' ≠ p) : ((b.setOrErase s p l).levels s').lookup p' = (b.levels s').lookup p' := by
  unfold setOrErase
  split
  · dsimp only
    by_cases hs : s' = s
    · subst hs
      rw [Function.update_self, AList.lookup_erase_ne (h.resolve_left (fun hne => hne rfl))]
    · rw [Function.update_of_ne hs]
  · exact setLevel_ne b l h

end L3Book

/-- Erasing a node that is there. -/
theorem eraseNode_mem {queue : List (Nat × Nat)} {pos id : Nat} (h : (pos, id) ∈ queue) (t : Nat) :
    (⟨t, queue⟩ : L3PriceLevel).eraseNode pos = .ok ⟨t, queue.filter fun n => n.1 ≠ pos⟩ :=
  if_pos (List.mem_map_of_mem h)

section Updates

variable {c : Config} {a : Lob} {b : L3Book} {s : Slot} {o : Order}

/-- The level an order is listed in is the one `operator[]` refers to. -/
theorem Listed.level_eq {x : L3Order} {l : L3PriceLevel} (h : Listed c b s o x l) :
    b.level s x.price = l := by
  unfold L3Book.level
  rw [h.price, h.level]
  rfl

/-- `pushBack` changes the entry of the order and its level, and takes a node of its own; `b₀` may still
have an old entry under the order's id. -/
theorem Edit.pushBack {id : Nat} (b₀ : L3Book)
    (hentries : ∀ k, k ≠ id → b₀.orders.lookup k = b.orders.lookup k)
    (hlevels : b₀.levels = b.levels) (hnode : b₀.nextNode = b.nextNode) (p : Int) (q r : Nat) :
    Edit b (b₀.pushBack id s.side p q r) id (some ⟨id, s.side, p, q, r, b.nextNode⟩) s p
      (some ⟨(b.level s p).totalQty + r, (b.level s p).queue ++ [(b.nextNode, id)]⟩) ∧
    b.nextNode < (b₀.pushBack id s.side p q r).nextNode := by
  have hlevel : b₀.level s p = b.level s p := by
    unfold L3Book.level
    rw [hlevels]
  refine ⟨⟨?_, fun k hk => ?_, ?_, fun s' p' hp => ?_, ?_⟩, ?_⟩
  all_goals
    unfold L3Book.pushBack
    simp only [L3Book.slotOf_side, L3Book.onLevelUpdated_orders, L3Book.onLevelUpdated_levels,
      L3Book.onLevelUpdated_nextNode, L3Book.setLevel_orders, L3Book.setLevel_nextNode, hnode, hlevel]
  · rw [AList.lookup_insert]
  · rw [AList.lookup_insert_ne hk, hentries k hk]
  · exact L3Book.setLevel_self ..
  · rw [L3Book.setLevel_ne _ _ hp, hlevels]
  · omega
  · omega

/-- `pushBack`, on a book that may still have an old entry under the order's id. -/
theorem Holds.pushBack (h : Holds c a b) (b₀ : L3Book)
    (hentries : ∀ k, k ≠ o.orderId → b₀.orders.lookup k = b.orders.lookup k)
    (hlevels : b₀.levels = b.levels) (hnode : b₀.nextNode = b.nextNode)
    (hsorted : (a s).Pairwise fun x y => ¬ s.better y.level x.level)
    (hnew : ∀ s', ∀ y ∈ a s', y.orderId ≠ o.orderId) (q : Nat) :
    Holds c (Function.update a s (place s o (a s)))
      (b₀.pushBack o.orderId s.side (c.plToPrice o.level) q o.qtyRemaining) := by
  obtain ⟨he, hnext⟩ := Edit.pushBack b₀ hentries hlevels hnode (c.plToPrice o.level) q o.qtyRemaining
  exact h.enter hsorted hnew ⟨rfl, rfl, rfl, rfl⟩ he hnext

/-- A record that announces a new order. -/
theorem Holds.update_new (h : Holds c a b)
    (hsorted : (a s).Pairwise fun x y => ¬ s.better y.level x.level)
    (hnew : ∀ s', ∀ y ∈ a s', y.orderId ≠ o.orderId) (q : Nat) :
    ∃ b', b.update .new o.orderId s.side (c.plToPrice o.level) q o.qtyRemaining = .ok b' ∧
      Holds c (Function.update a s (place s o (a s))) b' := by
  refine ⟨_, ?_, h.pushBack b (fun _ _ => rfl) rfl rfl hsorted hnew q⟩
  unfold L3Book.update
  rw [if_neg (by cases s <;> decide), if_neg (by decide), if_pos rfl]

/-- A record about an order that is not there. -/
theorem update_absent {type : ExecType} {id : Nat} {side : Side} (hside : side ≠ .none)
    (htype : type ≠ .new) (hnone : b.orders.lookup id = none) (p : Int) (q r : Nat) :
    b.update type id side p q r = .ok b := by
  unfold L3Book.update
  rw [if_neg hside]
  split
  · rfl
  · rw [hnone]

/-- A refusal of a request with a side. -/
theorem update_rejected {side : Side} (hside : side ≠ .none) (id : Nat) (p : Int) (q r : Nat) :
    b.update .rejected id side p q r = .ok b := by
  unfold L3Book.update
  rw [if_neg hside, if_pos rfl]

/-- An order is not found under the id of none. -/
theorem Holds.lookup_none (h : Holds c a b) {id : Nat} (hne : ∀ s, ∀ y ∈ a s, y.orderId ≠ id) :
    b.orders.lookup id = none := by
  cases hl : b.orders.lookup id with
  | none => rfl
  | some x =>
    obtain ⟨s, y, hy, hid⟩ := h.resting hl
    exact absurd hid (hne s y hy)

/-- A record about an order that is there and stays where it is. -/
theorem Listed.update_eq {x : L3Order} {l : L3PriceLevel} (hx : Listed c b s o x l)
    {type : ExecType} (htype : type ≠ .new ∧ type ≠ .rejected) {side : Side} (hside : side ≠ .none)
    {p : Int} {q r : Nat}
    (hstay : ¬ (type = .replaced ∧ (p ≠ c.plToPrice o.level ∨ o.qtyRemaining < r))) :
    b.update type o.orderId side p q r = b.updateInPlace type o.orderId x q r := by
  have hstay' : ¬ (type = .replaced ∧ (p ≠ x.price ∨ 0 < (r : Int) - x.qtyRem)) := by
    rw [hx.price, hx.qty]
    intro hre
    refine hstay ⟨hre.1, hre.2.imp_right (fun hlt => ?_)⟩
    omega
  unfold L3Book.update
  rw [if_neg hside, if_neg htype.2, if_neg htype.1, hx.entry]
  dsimp only
  rw [if_neg hstay']

/-- A record that takes an order out: it is cancelled, filled, or replaced by
nothing at its own price. -/
theorem Holds.update_gone (h : Holds c a b) (hd : a.Distinct) (ho : o ∈ a s) (type : ExecType)
    (htype : type ≠ .new ∧ type ≠ .rejected) {side : Side} (hside : side ≠ .none) {p : Int} {q : Nat}
    (hstay : type = .replaced → p = c.plToPrice o.level) :
    ∃ b', b.update type o.orderId side p q 0 = .ok b' ∧ Holds c (a.remove o.orderId) b' := by
  obtain ⟨x, l, hx⟩ := h.listed ho
  have hstay' : ¬ (type = .replaced ∧ (p ≠ c.plToPrice o.level ∨ o.qtyRemaining < 0)) := by
    rintro ⟨hre, hp | hlt⟩
    · exact hp (hstay hre)
    · omega
  rw [hx.update_eq htype hside hstay']
  unfold L3Book.updateInPlace
  rw [if_pos rfl, hx.side, L3Book.slotOf_side, hx.level_eq, hx.price]
  dsimp only
  rw [eraseNode_mem hx.node]
  refine ⟨_, rfl, ?_⟩
  refine h.remove hd ho hx ⟨(l.totalQty + ((0 : Nat) - (x.qtyRem : Int))).toNat,
    l.queue.filter fun n => n.1 ≠ x.queuePos⟩ rfl ?_ ⟨?_, fun k hk => ?_, ?_, fun s' p' hp => ?_, ?_⟩
  · rw [hx.qty]
    dsimp only
    omega
  · exact AList.lookup_erase ..
  · show (AList.erase _ _).lookup k = _
    rw [AList.lookup_erase_ne hk, L3Book.setOrErase_orders, L3Book.onLevelUpdated_orders,
      L3Book.setLevel_orders]
  · exact L3Book.setOrErase_self ..
  · show ((L3Book.setOrErase _ _ _ _).levels s').lookup p' = _
    rw [L3Book.setOrErase_ne _ _ hp, L3Book.onLevelUpdated_levels, L3Book.setLevel_ne _ _ hp]
  · show b.nextNode ≤ (L3Book.setOrErase _ _ _ _).nextNode
    simp

/-- A record that lowers an order in place, to `r`. -/
theorem Holds.update_lowered (h : Holds c a b) (hd : a.Distinct) (ho : o ∈ a s) (type : ExecType)
    (htype : type ≠ .new ∧ type ≠ .rejected) {side : Side} (hside : side ≠ .none) {p : Int}
    {q r : Nat} (hr : r ≠ 0) (hle : r ≤ o.qtyRemaining)
    (hstay : type = .replaced → p = c.plToPrice o.level) (q' : Nat) :
    ∃ b', b.update type o.orderId side p q r = .ok b' ∧ Holds c (a.resize o.orderId q' r) b' := by
  obtain ⟨x, l, hx⟩ := h.listed ho
  have hstay' : ¬ (type = .replaced ∧ (p ≠ c.plToPrice o.level ∨ o.qtyRemaining < r)) := by
    rintro ⟨hre, hp | hlt⟩
    · exact hp (hstay hre)
    · omega
  -- the level's total covers the order, so lowering it is exact
  have htotal : o.qtyRemaining ≤ l.totalQty := by
    obtain ⟨pre, post, ns, ns', -, -, -, -, -, -, hsum⟩ := h.split hd ho hx
    rw [hsum, List.map_append, List.map_cons, List.sum_append, List.sum_cons]
    omega
  rw [hx.update_eq htype hside hstay']
  unfold L3Book.updateInPlace
  rw [if_neg hr, hx.side, L3Book.slotOf_side, hx.level_eq, hx.price]
  refine ⟨_, rfl, ?_⟩
  refine h.resize hd ho hx q' r
    { x with qtyRem := r, qtyReq := if type = .replaced then q else x.qtyReq }
    ⟨(l.totalQty + ((r : Int) - x.qtyRem)).toNat, l.queue⟩ rfl ?_ ⟨rfl, rfl, rfl, rfl⟩
    ⟨?_, fun k hk => ?_, ?_, fun s' p' hp => ?_, ?_⟩
  · rw [hx.qty]
    dsimp only
    omega
  · rw [hx.side.symm, hx.price.symm]
    exact AList.lookup_insert ..
  · show (AList.insert _ _ _).lookup k = _
    rw [AList.lookup_insert_ne hk, L3Book.onLevelUpdated_orders, L3Book.setLevel_orders]
  · show ((L3Book.onLevelUpdated _ _ _ _).levels s).lookup _ = _
    rw [L3Book.onLevelUpdated_levels, L3Book.setLevel_self]
  · show ((L3Book.onLevelUpdated _ _ _ _).levels s').lookup p' = _
    rw [L3Book.onLevelUpdated_levels, L3Book.setLevel_ne _ _ hp]
  · show b.nextNode ≤ (L3Book.onLevelUpdated _ _ _ _).nextNode
    simp

/-- `remove_from_queues`, once the entry is erased too. -/
theorem Holds.removeFromQueues (h : Holds c a b) (hd : a.Distinct) (ho : o ∈ a s) :
    ∃ b', b.removeFromQueues o.orderId = .ok b' ∧
      Holds c (a.remove o.orderId) { b' with orders := b'.orders.erase o.orderId } := by
  obtain ⟨x, l, hx⟩ := h.listed ho
  unfold L3Book.removeFromQueues
  rw [hx.entry]
  dsimp only
  rw [hx.side, Slot.slot_side]
  dsimp only
  rw [hx.price, hx.level]
  dsimp only
  rw [eraseNode_mem hx.node]
  refine ⟨_, rfl, ?_⟩
  refine h.remove hd ho hx ⟨l.totalQty - x.qtyRem, l.queue.filter fun n => n.1 ≠ x.queuePos⟩
    rfl ?_ ⟨?_, fun k hk => ?_, ?_, fun s' p' hp => ?_, ?_⟩
  · rw [hx.qty]
  · exact AList.lookup_erase ..
  · show (AList.erase _ _).lookup k = _
    rw [AList.lookup_erase_ne hk, L3Book.onLevelUpdated_orders, L3Book.setOrErase_orders]
  · show ((L3Book.onLevelUpdated _ _ _ _).levels s).lookup _ = _
    rw [L3Book.onLevelUpdated_levels, L3Book.setOrErase_self]
  · show ((L3Book.onLevelUpdated _ _ _ _).levels s').lookup p' = _
    rw [L3Book.onLevelUpdated_levels, L3Book.setOrErase_ne _ _ hp]
  · show b.nextNode ≤ (L3Book.onLevelUpdated _ _ _ _).nextNode
    simp

/-- A replacement that leaves its place is `remove_from_queues` and what follows. -/
theorem Holds.update_requeue (h : Holds c a b) (ho : o ∈ a s) {p : Int} {q r : Nat}
    (hmove : p ≠ c.plToPrice o.level ∨ o.qtyRemaining < r) :
    b.update .replaced o.orderId s.side p q r = (b.removeFromQueues o.orderId).bind fun b =>
      if 0 < r then .ok (b.pushBack o.orderId s.side p q r)
      else .ok { b with orders := b.orders.erase o.orderId } := by
  obtain ⟨x, l, hx⟩ := h.listed ho
  have hmove' : p ≠ x.price ∨ 0 < (r : Int) - x.qtyRem := by
    rw [hx.price, hx.qty]
    exact hmove.imp_right (fun hlt => by omega)
  unfold L3Book.update
  rw [if_neg (by cases s <;> decide), if_neg (by decide), if_neg (by decide), hx.entry]
  dsimp only
  rw [if_pos ⟨rfl, hmove'⟩]
  rfl

/-- A replacement that takes an order out by moving nothing to another price. -/
theorem Holds.update_moved_out (h : Holds c a b) (hd : a.Distinct) (ho : o ∈ a s) {p : Int} {q : Nat}
    (hp : p ≠ c.plToPrice o.level) :
    ∃ b', b.update .replaced o.orderId s.side p q 0 = .ok b' ∧ Holds c (a.remove o.orderId) b' := by
  obtain ⟨b₁, hb₁, h₁⟩ := h.removeFromQueues hd ho
  rw [h.update_requeue ho (Or.inl hp), hb₁]
  exact ⟨_, rfl, h₁⟩

/-- A replacement that goes to the back of a queue, as the order `o'`. -/
theorem Holds.update_requeued (h : Holds c a b) (hd : a.Distinct) (ho : o ∈ a s) (o' : Order)
    (hid : o'.orderId = o.orderId) (hpos : 0 < o'.qtyRemaining)
    (hsorted : (a s).Pairwise fun x y => ¬ s.better y.level x.level) {q : Nat}
    (hmove : o'.level ≠ o.level ∨ o.qtyRemaining < o'.qtyRemaining) :
    ∃ b', b.update .replaced o.orderId s.side (c.plToPrice o'.level) q o'.qtyRemaining = .ok b' ∧
      Holds c (Function.update (a.remove o.orderId) s
        (place s o' (a.remove o.orderId s))) b' := by
  obtain ⟨b₁, hb₁, h₁⟩ := h.removeFromQueues hd ho
  have hmove' : c.plToPrice o'.level ≠ c.plToPrice o.level ∨ o.qtyRemaining < o'.qtyRemaining :=
    hmove.imp_left (fun hne e => hne (c.plToPrice_inj.mp e))
  have hsorted' : (a.remove o.orderId s).Pairwise fun x y => ¬ s.better y.level x.level :=
    hsorted.filter _
  have hgone : ∀ s', ∀ y ∈ a.remove o.orderId s', y.orderId ≠ o'.orderId := by
    intro s' y hy
    rw [hid]
    exact (Lob.mem_remove.mp hy).2
  rw [h.update_requeue ho hmove', hb₁]
  refine ⟨b₁.pushBack o.orderId s.side (c.plToPrice o'.level) q o'.qtyRemaining, ?_, ?_⟩
  · show (if 0 < o'.qtyRemaining then _ else _) = _
    rw [if_pos hpos]
  · have hback := h₁.pushBack b₁ (fun k hk => ?_) rfl rfl hsorted' hgone q
    · rw [hid] at hback
      exact hback
    · exact (AList.lookup_erase_ne (hid ▸ hk)).symm

end Updates

/-! ## Crossing -/

section Crossing

variable {c : Config} {a : Lob} {b : L3Book} {s : Slot}

/-- The prices of a side are those of its orders. -/
theorem Holds.mem_prices (h : Holds c a b) {p : Int} :
    p ∈ (b.levels s).keys ↔ ∃ o ∈ a s, c.plToPrice o.level = p := by
  rw [← AList.mem_keys, ← AList.lookup_isSome]
  have hview := h.views s p
  cases hat : atPrice c (a s) p with
  | nil =>
    rw [hat] at hview
    rw [Option.map_eq_none_iff.mp hview]
    constructor
    · intro hs
      cases hs
    · rintro ⟨o, ho, hp⟩
      have := mem_atPrice.mpr ⟨ho, hp⟩
      rw [hat] at this
      cases this
  | cons o os =>
    rw [hat] at hview
    obtain ⟨l, hl, -⟩ := Option.map_eq_some_iff.mp hview
    obtain ⟨ho, hp⟩ := mem_atPrice.mp (hat ▸ List.mem_cons_self : o ∈ atPrice c (a s) p)
    rw [hl]
    exact ⟨fun _ => ⟨o, ho, hp⟩, fun _ => rfl⟩

/-- Without orders a side has no best price. -/
theorem Holds.best_nil (h : Holds c a b) (hnil : a s = []) : b.best s = none := by
  have hkeys : (b.levels s).keys = [] := by
    refine List.eq_nil_iff_forall_not_mem.mpr (fun p hp => ?_)
    obtain ⟨o, ho, -⟩ := h.mem_prices.mp hp
    rw [hnil] at ho
    cases ho
  cases s
  · show (b.levels .bid).keys.max? = none
    rw [hkeys]
    rfl
  · show (b.levels .ask).keys.min? = none
    rw [hkeys]
    rfl

/-- The best price is that of the side's first order. -/
theorem Holds.best_cons (h : Holds c a b) {m : Order} {ms : List Order} (hm : a s = m :: ms)
    (hsorted : (a s).Pairwise fun x y => ¬ s.better y.level x.level) :
    b.best s = some (c.plToPrice m.level) := by
  have hmem : c.plToPrice m.level ∈ (b.levels s).keys :=
    h.mem_prices.mpr ⟨m, hm ▸ List.mem_cons_self, rfl⟩
  have hfirst : ∀ o ∈ a s, ¬ s.better o.level m.level := by
    rw [hm] at hsorted ⊢
    exact head_best hsorted
  cases s with
  | bid =>
    refine List.max?_eq_some_iff.mpr ⟨hmem, fun p hp => ?_⟩
    obtain ⟨o, ho, rfl⟩ := h.mem_prices.mp hp
    exact c.plToPrice_le.mpr (Nat.le_of_not_lt (hfirst o ho))
  | ask =>
    refine List.min?_eq_some_iff.mpr ⟨hmem, fun p hp => ?_⟩
    obtain ⟨o, ho, rfl⟩ := h.mem_prices.mp hp
    exact c.plToPrice_le.mpr (Nat.le_of_not_lt (hfirst o ho))

/-- `crosses` is the engine's test on the first order of the other side. -/
theorem crosses_eq {m : MDOrderBook} (h : Holds c a m.book)
    (hsorted : (a s.flip).Pairwise fun x y => ¬ s.flip.better y.level x.level) {idx : Nat}
    (hpriced : c.plToPrice idx ≠ 0) :
    m.crosses s.side (c.plToPrice idx) = (a s.flip).head?.any fun o => State.crossed s idx o.level := by
  cases hm : a s.flip with
  | nil =>
    have hbest := h.best_nil hm
    cases s
    · show (m.book.best .ask).any _ = _
      rw [show m.book.best .ask = none from hbest]
      rfl
    · show (m.book.best .bid).any _ = _
      rw [show m.book.best .bid = none from hbest]
      rfl
  | cons o os =>
    have hbest := h.best_cons hm hsorted
    rw [List.head?_cons, Option.any_some]
    cases s
    · show (m.book.best .ask).any _ = _
      rw [show m.book.best .ask = some (c.plToPrice o.level) from hbest, Option.any_some]
      show decide _ = decide _
      rw [decide_eq_decide, ← c.plToPrice_le]
      omega
    · show (m.book.best .bid).any _ = _
      rw [show m.book.best .bid = some (c.plToPrice o.level) from hbest, Option.any_some]
      show decide _ = decide _
      rw [decide_eq_decide, ← c.plToPrice_le]
      omega

end Crossing

end Exchange.MarketData
