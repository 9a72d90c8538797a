import Exchange.MarketData.Arranged

/-!
# A market data book agrees with itself

`Coherent b` needs no engine: every entry of `orders` has something left and its
node in the queue of its level; a level is not empty, its nodes belong to
entries, and its total is what they have left.

`Coherent.update` is what one call of `L3Book::update` does to such a book: it
stays coherent, no iterator is bad, every level that changed is marked in
`pendingL2` with its new total, and the only level that can appear is that of an
acknowledgement.
-/

namespace Exchange.MarketData

namespace L3Book

/-- `total_qty` of a level that is there. -/
def totalAt (b : L3Book) (s : Slot) (p : Int) : Option Nat :=
  ((b.levels s).lookup p).map L3PriceLevel.totalQty

theorem onLevelUpdated_self (b : L3Book) (s : Slot) (p : Int) (t : Nat) :
    ((b.onLevelUpdated s.side p t).pendingL2 s).lookup p = some t := by
  unfold onLevelUpdated
  rw [Slot.slot_side]
  dsimp only
  rw [Function.update_self, AList.lookup_insert]

theorem onLevelUpdated_ne (b : L3Book) {s s' : Slot} {p p' : Int} (t : Nat) (h : s' ≠ s ∨ p' ≠ p) :
    ((b.onLevelUpdated s.side p t).pendingL2 s').lookup p' = (b.pendingL2 s').lookup p' := by
  unfold onLevelUpdated
  rw [Slot.slot_side]
  dsimp only
  by_cases hs : s' = s
  · subst hs
    rw [Function.update_self, AList.lookup_insert_ne (h.resolve_left (fun hne => hne rfl))]
  · rw [Function.update_of_ne hs]

end L3Book

/-- The level of price `p` agrees with the entries of its orders. -/
structure LevelOk (b : L3Book) (s : Slot) (p : Int) (l : L3PriceLevel) : Prop where
  full : l.queue ≠ []
  nodup : (l.queue.map Prod.fst).Nodup
  fresh : ∀ n ∈ l.queue, n.1 < b.nextNode
  owner : ∀ n ∈ l.queue, ∃ x, b.orders.lookup n.2 = some x ∧ x.side = s.side ∧ x.price = p ∧
    x.queuePos = n.1
  total : l.totalQty = (l.queue.map fun n => b.weight n.2).sum

/-- Entries and levels agree. -/
structure Coherent (b : L3Book) : Prop where
  pos : ∀ {id x}, b.orders.lookup id = some x → 0 < x.qtyRem
  placed : ∀ {id x}, b.orders.lookup id = some x → ∃ s l, Placed b id x s l
  level : ∀ {s p l}, (b.levels s).lookup p = some l → LevelOk b s p l

theorem coherent_empty : Coherent .empty := by
  refine ⟨fun h => ?_, fun h => ?_, fun h => ?_⟩
  · cases h
  · cases h
  · cases h

/-- Every level that differs is marked with the total it now has. -/
def Noticed (b b' : L3Book) : Prop := ∀ s p,
  ((b'.levels s).lookup p = (b.levels s).lookup p ∧
    (b'.pendingL2 s).lookup p = (b.pendingL2 s).lookup p) ∨
  (b'.pendingL2 s).lookup p = some ((b'.totalAt s p).getD 0)

theorem Noticed.refl (b : L3Book) : Noticed b b := fun _ _ => Or.inl ⟨rfl, rfl⟩

theorem Noticed.trans {b b' b'' : L3Book} (h : Noticed b b') (h' : Noticed b' b'') : Noticed b b'' := by
  intro s p
  rcases h' s p with ⟨hl', hp'⟩ | hmark
  · rcases h s p with ⟨hl, hp⟩ | hmark
    · exact Or.inl ⟨hl'.trans hl, hp'.trans hp⟩
    · refine Or.inr ?_
      unfold L3Book.totalAt at hmark ⊢
      rw [hp', hmark, hl']
  · exact Or.inr hmark

/-- An edit of a level that is marked. -/
theorem Edit.noticed {b b' : L3Book} {id : Nat} {x? : Option L3Order} {s : Slot} {p : Int}
    {l? : Option L3PriceLevel} (he : Edit b b' id x? s p l?)
    (hself : (b'.pendingL2 s).lookup p = some ((l?.map L3PriceLevel.totalQty).getD 0))
    (hother : ∀ s' p', s' ≠ s ∨ p' ≠ p →
      (b'.pendingL2 s').lookup p' = (b.pendingL2 s').lookup p') : Noticed b b' := by
  intro s' p'
  by_cases hat : s' = s ∧ p' = p
  · obtain ⟨rfl, rfl⟩ := hat
    refine Or.inr ?_
    unfold L3Book.totalAt
    rw [he.level, hself]
  · have hat' := not_and_or.mp hat
    exact Or.inl ⟨he.levels s' p' hat', hother s' p' hat'⟩

/-! ## Edits of a coherent book -/

section Edits

variable {b b' : L3Book} {id : Nat} {s : Slot} {x : L3Order} {l : L3PriceLevel}

theorem Coherent.arranged (h : Coherent b) : Arranged b := by
  refine ⟨h.placed, fun hl => ?_⟩
  have hok := h.level hl
  exact ⟨hok.full, hok.nodup, hok.fresh, hok.owner⟩

theorem Coherent.tally (h : Coherent b) : Tally (fun n => n) b := fun _ _ _ hl => (h.level hl).total

theorem Arranged.coherent (h : Arranged b) (ht : Tally (fun n => n) b)
    (hpos : ∀ {id x}, b.orders.lookup id = some x → 0 < x.qtyRem) : Coherent b := by
  refine ⟨hpos, h.placed, fun hl => ?_⟩
  have hok := h.level hl
  exact ⟨hok.full, hok.nodup, hok.fresh, hok.owner, ht _ _ _ hl⟩

/-- What is left of the entries, as long as it is right for the one that changes. -/
theorem Coherent.positive (h : Coherent b) {p : Int} {x? : Option L3Order} {l? : Option L3PriceLevel}
    (he : Edit b b' id x? s p l?) (hself : ∀ x, x? = some x → 0 < x.qtyRem) {k : Nat} {y : L3Order}
    (hk : b'.orders.lookup k = some y) : 0 < y.qtyRem := by
  by_cases hid : k = id
  · subst hid
    exact hself y (he.entry.symm.trans hk)
  · exact h.pos ((he.entries k hid).symm.trans hk)

/-- An entry that leaves takes its node and its quantity with it. -/
theorem Coherent.leave (h : Coherent b) (hx : Placed b id x s l) (l' : L3PriceLevel)
    (hqueue : l'.queue = l.queue.filter fun n => n.1 ≠ x.queuePos)
    (htotal : l'.totalQty = l.totalQty - x.qtyRem)
    (he : Edit b b' id none s x.price (if l'.queue = [] then none else some l')) :
    Coherent b' ∧ (l'.queue = [] → l'.totalQty = 0) := by
  obtain ⟨ha, hsum⟩ := h.arranged.leave hx l' hqueue he
  have hall : l.totalQty = b.sumOf l := h.tally _ _ _ hx.level
  refine ⟨ha.coherent (h.tally.edit h.arranged he hx.old fun l₀ hl₀ => ?_)
    (h.positive he fun _ hn => by cases hn), fun hnil => ?_⟩
  · split at hl₀
    · cases hl₀
    obtain rfl := Option.some.inj hl₀
    show l'.totalQty = b'.sumOf l'
    omega
  · have hzero : b'.sumOf l' = 0 := by
      unfold L3Book.sumOf
      rw [hnil]
      rfl
    omega

/-- An entry whose quantity changes keeps its node. -/
theorem Coherent.resize (h : Coherent b) (hx : Placed b id x s l) {r : Nat} (hr : 0 < r)
    (x' : L3Order) (l' : L3PriceLevel) (hqueue : l'.queue = l.queue)
    (htotal : l'.totalQty + x.qtyRem = l.totalQty + r)
    (hentry : x'.side = x.side ∧ x'.price = x.price ∧ x'.queuePos = x.queuePos ∧ x'.qtyRem = r)
    (he : Edit b b' id (some x') s x.price (some l')) : Coherent b' := by
  obtain ⟨hside, hprice, hpos, hqty⟩ := hentry
  obtain ⟨ha, hsum⟩ := h.arranged.resize hx x' l' hqueue ⟨hside, hprice, hpos⟩ he
  have hall : l.totalQty = b.sumOf l := h.tally _ _ _ hx.level
  refine ha.coherent (h.tally.edit h.arranged he hx.old fun l₀ hl₀ => ?_) (h.positive he fun y hy => ?_)
  · obtain rfl := Option.some.inj hl₀
    show l'.totalQty = b'.sumOf l'
    omega
  · obtain rfl := Option.some.inj hy
    omega

/-- A new entry joins the end of the queue at its price. -/
theorem Coherent.enter (h : Coherent b) (hnone : b.orders.lookup id = none) (hpos : 0 < x.qtyRem)
    (hside : x.side = s.side) (hnode : x.queuePos = b.nextNode)
    (he : Edit b b' id (some x) s x.price (some ⟨(b.level s x.price).totalQty + x.qtyRem,
      (b.level s x.price).queue ++ [(b.nextNode, id)]⟩))
    (hnext : b.nextNode < b'.nextNode) : Coherent b' := by
  obtain ⟨ha, hsum⟩ := h.arranged.enter hnone hside hnode _ rfl he hnext
  have hall : (b.level s x.price).totalQty = b.sumOf (b.level s x.price) := by
    unfold L3Book.level
    cases hl : (b.levels s).lookup x.price with
    | none => rfl
    | some l => exact h.tally _ _ _ hl
  refine ha.coherent (h.tally.edit h.arranged he (fun y hy => ?_) fun l₀ hl₀ => ?_) (h.positive he fun y hy => ?_)
  · rw [hnone] at hy
    cases hy
  · obtain rfl := Option.some.inj hl₀
    rw [hsum, hall]
  · obtain rfl := Option.some.inj hy
    exact hpos

end Edits

/-! ## `update` -/

/-- What one record does to a coherent book. -/
structure Updated (b b' : L3Book) (type : ExecType) (id : Nat) (s : Slot) (p : Int) (qRem : Nat) :
    Prop where
  coherent : Coherent b'
  noticed : Noticed b b'
  /-- The only level that can appear is that of an acknowledgement. -/
  grows : ∀ {s' p'}, p' ∈ b'.levels s' → p' ∈ b.levels s' ∨
    ((type = .new ∨ type = .replaced) ∧ s' = s ∧ p' = p)
  others : ∀ k, k ≠ id → b'.orders.lookup k = b.orders.lookup k
  left : ∀ x, b'.orders.lookup id = some x → x.qtyRem = qRem

section Updates

variable {b : L3Book} {id : Nat} {s : Slot} {x : L3Order} {l : L3PriceLevel}

/-- An edit that makes no level appear, or makes one appear where it is allowed to. -/
theorem Edit.grows {b' : L3Book} {x? : Option L3Order} {p : Int} {l? : Option L3PriceLevel}
    (he : Edit b b' id x? s p l?) {s' : Slot} {p' : Int} (h : p' ∈ b'.levels s') :
    p' ∈ b.levels s' ∨ (s' = s ∧ p' = p ∧ l? ≠ none) := by
  rw [← AList.lookup_isSome] at h ⊢
  by_cases hat : s' = s ∧ p' = p
  · obtain ⟨rfl, rfl⟩ := hat
    refine Or.inr ⟨rfl, rfl, fun hn => ?_⟩
    rw [he.level, hn] at h
    cases h
  · rw [he.levels s' p' (not_and_or.mp hat)] at h
    exact Or.inl h

/-- `pushBack` on a coherent book without the order; `b₀` may still have an old
entry under its id. -/
theorem Coherent.pushBack (h : Coherent b) (hnone : b.orders.lookup id = none) (b₀ : L3Book)
    (hentries : ∀ k, k ≠ id → b₀.orders.lookup k = b.orders.lookup k)
    (hlevels : b₀.levels = b.levels) (hnode : b₀.nextNode = b.nextNode)
    (hpending : b₀.pendingL2 = b.pendingL2) {r : Nat} (hr : 0 < r) {type : ExecType}
    (htype : type = .new ∨ type = .replaced) (p : Int) (q : Nat) :
    Updated b (b₀.pushBack id s.side p q r) type id s p r := by
  have hlevel : b₀.level s p = b.level s p := by
    unfold L3Book.level
    rw [hlevels]
  obtain ⟨he, hnext⟩ := Edit.pushBack b₀ hentries hlevels hnode p q r
  refine ⟨h.enter (x := ⟨id, s.side, p, q, r, b.nextNode⟩) hnone hr rfl rfl he hnext,
    he.noticed ?_ (fun s' p' hp => ?_), fun hp => ?_, he.entries, fun y hy => ?_⟩
  · unfold L3Book.pushBack
    simp only [L3Book.slotOf_side]
    rw [L3Book.onLevelUpdated_self, hlevel]
    rfl
  · unfold L3Book.pushBack
    rw [L3Book.onLevelUpdated_ne _ _ hp]
    show (b₀.pendingL2 s').lookup p' = _
    rw [hpending]
  · rcases he.grows hp with hp | ⟨hs, hp, -⟩
    · exact Or.inl hp
    · exact Or.inr ⟨htype, hs, hp⟩
  · rw [he.entry] at hy
    rw [← Option.some.inj hy]

/-- What is left of a book from which an entry was dropped, and its level marked. -/
theorem Coherent.dropped (h : Coherent b) (hx : Placed b id x s l) {b' : L3Book}
    (horders : b'.orders = b.orders.erase id)
    (hself : (b'.levels s).lookup x.price = if (l.queue.filter fun n => n.1 ≠ x.queuePos) = [] then none
      else some ⟨l.totalQty - x.qtyRem, l.queue.filter fun n => n.1 ≠ x.queuePos⟩)
    (hothers : ∀ s' p', s' ≠ s ∨ p' ≠ x.price → (b'.levels s').lookup p' = (b.levels s').lookup p')
    (hmark : (b'.pendingL2 s).lookup x.price = some (l.totalQty - x.qtyRem))
    (hmarks : ∀ s' p', s' ≠ s ∨ p' ≠ x.price →
      (b'.pendingL2 s').lookup p' = (b.pendingL2 s').lookup p')
    (hnext : b'.nextNode = b.nextNode) (type : ExecType) (s' : Slot) (p : Int) :
    Updated b b' type id s' p 0 := by
  have he : Edit b b' id none s x.price (if (l.queue.filter fun n => n.1 ≠ x.queuePos) = [] then none
      else some ⟨l.totalQty - x.qtyRem, l.queue.filter fun n => n.1 ≠ x.queuePos⟩) := by
    refine ⟨?_, fun k hk => ?_, hself, hothers, hnext.ge⟩
    · rw [horders, AList.lookup_erase]
    · rw [horders, AList.lookup_erase_ne hk]
  obtain ⟨hcoherent, hzero⟩ := h.leave hx ⟨l.totalQty - x.qtyRem, l.queue.filter fun n =>
    n.1 ≠ x.queuePos⟩ rfl rfl he
  refine ⟨hcoherent, he.noticed ?_ hmarks, fun hp => ?_, he.entries, fun y hy => ?_⟩
  · rw [hmark]
    split
    · rename_i hnil
      exact congrArg some (hzero hnil)
    · rfl
  · rcases he.grows hp with hp | ⟨rfl, rfl, -⟩
    · exact Or.inl hp
    · exact Or.inl (AList.lookup_isSome.mp (by rw [hx.level]; rfl))
  · rw [he.entry] at hy
    cases hy

/-- The same for an entry whose quantity becomes `r`. -/
theorem Coherent.lowered (h : Coherent b) (hx : Placed b id x s l) {r t : Nat} (hr : r ≠ 0)
    (htotal : t + x.qtyRem = l.totalQty + r) (x' : L3Order)
    (hentry : x'.side = x.side ∧ x'.price = x.price ∧ x'.queuePos = x.queuePos ∧ x'.qtyRem = r)
    {b' : L3Book} (horders : b'.orders = b.orders.insert id x')
    (hself : (b'.levels s).lookup x.price = some ⟨t, l.queue⟩)
    (hothers : ∀ s' p', s' ≠ s ∨ p' ≠ x.price → (b'.levels s').lookup p' = (b.levels s').lookup p')
    (hmark : (b'.pendingL2 s).lookup x.price = some t)
    (hmarks : ∀ s' p', s' ≠ s ∨ p' ≠ x.price →
      (b'.pendingL2 s').lookup p' = (b.pendingL2 s').lookup p')
    (hnext : b'.nextNode = b.nextNode) (type : ExecType) (s' : Slot) (p : Int) :
    Updated b b' type id s' p r := by
  have he : Edit b b' id (some x') s x.price (some ⟨t, l.queue⟩) := by
    refine ⟨?_, fun k hk => ?_, hself, hothers, hnext.ge⟩
    · rw [horders, AList.lookup_insert]
    · rw [horders, AList.lookup_insert_ne hk]
  refine ⟨h.resize hx (Nat.pos_of_ne_zero hr) x' ⟨t, l.queue⟩ rfl htotal hentry he,
    he.noticed hmark hmarks, fun hp => ?_, he.entries, fun y hy => ?_⟩
  · rcases he.grows hp with hp | ⟨rfl, rfl, -⟩
    · exact Or.inl hp
    · exact Or.inl (AList.lookup_isSome.mp (by rw [hx.level]; rfl))
  · rw [he.entry] at hy
    rw [← Option.some.inj hy, hentry.2.2.2]

/-- `remove_from_queues`, once the entry is erased too. -/
theorem Coherent.removeFromQueues (h : Coherent b) (hx : Placed b id x s l) :
    ∃ b', b.removeFromQueues id = .ok b' ∧
      ∀ type s' p, Updated b { b' with orders := b'.orders.erase id } type id s' p 0 := by
  unfold L3Book.removeFromQueues
  rw [hx.entry]
  dsimp only
  rw [hx.side, Slot.slot_side]
  dsimp only
  rw [hx.level]
  dsimp only
  rw [eraseNode_mem hx.node]
  refine ⟨_, rfl, h.dropped hx ?_ ?_ (fun s' p' hp => ?_) ?_ (fun s' p' hp => ?_) ?_⟩
  all_goals dsimp only
  · rw [L3Book.onLevelUpdated_orders, L3Book.setOrErase_orders]
  · rw [L3Book.onLevelUpdated_levels, L3Book.setOrErase_self]
  · rw [L3Book.onLevelUpdated_levels, L3Book.setOrErase_ne _ _ hp]
  · rw [L3Book.onLevelUpdated_self]
  · rw [L3Book.onLevelUpdated_ne _ _ hp, L3Book.setOrErase_pendingL2]
  · rw [L3Book.onLevelUpdated_nextNode, L3Book.setOrErase_nextNode]

/-- The in-place branch. -/
theorem Coherent.updateInPlace (h : Coherent b) (hx : Placed b id x s l) (type : ExecType)
    (q r : Nat) :
    ∃ b', b.updateInPlace type id x q r = .ok b' ∧ ∀ s' p, Updated b b' type id s' p r := by
  have hcovers : x.qtyRem ≤ l.totalQty := by
    rw [h.tally _ _ _ hx.level]
    exact h.arranged.covers hx
  unfold L3Book.updateInPlace
  rw [hx.side, L3Book.slotOf_side]
  dsimp only
  rw [hx.level_eq]
  by_cases hr : r = 0
  · subst hr
    have htotal : (l.totalQty + ((0 : Nat) - (x.qtyRem : Int))).toNat = l.totalQty - x.qtyRem := by
      omega
    rw [if_pos rfl, eraseNode_mem hx.node, htotal]
    refine ⟨_, rfl, h.dropped hx ?_ ?_ (fun s' p' hp => ?_) ?_ (fun s' p' hp => ?_) ?_ type⟩
    all_goals dsimp only
    · rw [L3Book.setOrErase_orders, L3Book.onLevelUpdated_orders, L3Book.setLevel_orders]
    · rw [L3Book.setOrErase_self]
    · rw [L3Book.setOrErase_ne _ _ hp, L3Book.onLevelUpdated_levels, L3Book.setLevel_ne _ _ hp]
    · rw [L3Book.setOrErase_pendingL2, L3Book.onLevelUpdated_self]
    · rw [L3Book.setOrErase_pendingL2, L3Book.onLevelUpdated_ne _ _ hp, L3Book.setLevel_pendingL2]
    · rw [L3Book.setOrErase_nextNode, L3Book.onLevelUpdated_nextNode, L3Book.setLevel_nextNode]
  · rw [if_neg hr]
    refine ⟨_, rfl, h.lowered hx hr (t := (l.totalQty + ((r : Int) - x.qtyRem)).toNat) (by omega)
      ⟨x.orderId, s.side, x.price, if type = .replaced then q else x.qtyReq, r, x.queuePos⟩
      ⟨hx.side.symm, rfl, rfl, rfl⟩ ?_ ?_ (fun s' p' hp => ?_) ?_ (fun s' p' hp => ?_) ?_ type⟩
    all_goals dsimp only
    · rw [L3Book.onLevelUpdated_orders, L3Book.setLevel_orders]
    · rw [L3Book.onLevelUpdated_levels, L3Book.setLevel_self]
    · rw [L3Book.onLevelUpdated_levels, L3Book.setLevel_ne _ _ hp]
    · rw [L3Book.onLevelUpdated_self]
    · rw [L3Book.onLevelUpdated_ne _ _ hp, L3Book.setLevel_pendingL2]
    · rw [L3Book.onLevelUpdated_nextNode, L3Book.setLevel_nextNode]

/-- One call of `update` on a coherent book. -/
theorem Coherent.update (h : Coherent b) {type : ExecType} (htype : type ≠ .rejected) {r : Nat}
    (hnew : type = .new → b.orders.lookup id = none ∧ 0 < r) (p : Int) (q : Nat) :
    ∃ b', b.update type id s.side p q r = .ok b' ∧ Updated b b' type id s p r := by
  have hside : s.side ≠ .none := by cases s <;> decide
  unfold L3Book.update
  rw [if_neg hside, if_neg htype]
  split
  · rename_i ht
    obtain ⟨hnone, hr⟩ := hnew ht
    exact ⟨_, rfl, h.pushBack hnone b (fun _ _ => rfl) rfl rfl rfl hr (Or.inl ht) p q⟩
  · cases hx : b.orders.lookup id with
    | none =>
      refine ⟨b, rfl, h, .refl b, Or.inl, fun _ _ => rfl, fun y hy => ?_⟩
      rw [hx] at hy
      cases hy
    | some x =>
      obtain ⟨s₀, l, hpl⟩ := h.placed hx
      dsimp only
      split
      · rename_i hmove
        obtain ⟨b₁, hb₁, hgone⟩ := h.removeFromQueues hpl
        have hout := hgone .cancelled s p
        rw [hb₁]
        show ∃ b', (if 0 < r then _ else _) = _ ∧ _
        by_cases hr : 0 < r
        · -- taken out of one queue and entered in another
          have hback := hout.coherent.pushBack (s := s) (AList.lookup_erase ..) b₁
            (fun k hk => (AList.lookup_erase_ne hk).symm) rfl rfl rfl hr (Or.inr hmove.1) p q
          rw [if_pos hr]
          refine ⟨_, rfl, hback.coherent, hout.noticed.trans hback.noticed, fun hp => ?_,
            fun k hk => (hback.others k hk).trans (hout.others k hk), hback.left⟩
          rcases hback.grows hp with hp | hp
          · rcases hout.grows hp with hp | ⟨ht | ht, -, -⟩
            · exact Or.inl hp
            · cases ht
            · cases ht
          · exact Or.inr hp
        · rw [if_neg hr, Nat.eq_zero_of_not_pos hr]
          exact ⟨_, rfl, hgone type s p⟩
      · obtain ⟨b', hb', hdone⟩ := h.updateInPlace hpl type q r
        exact ⟨b', hb', hdone s p⟩

end Updates

end Exchange.MarketData
