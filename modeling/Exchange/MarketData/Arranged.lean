import Exchange.MarketData.Update

/-!
# Entries and queues of a market data book

`Arranged b`, whatever the totals are: every entry of `orders` has its node in the queue of its level, a
level is not empty, and its nodes belong to entries. An order that leaves, is resized or enters keeps it
so (`Arranged.leave`, `Arranged.resize`, `Arranged.enter`); beside each stands what becomes of the sum of
its level, and the sums of the other levels stay (`Arranged.sum_edit`).

`Tally f b` says that the total of a level is `f` of that sum: the sum itself where quantities are exact,
its remainder where they are machine words.
-/

namespace Exchange.MarketData

namespace L3Book

/-- What is left of an entry. -/
def weight (b : L3Book) (id : Nat) : Nat := ((b.orders.lookup id).map L3Order.qtyRem).getD 0

/-- What the orders of a level have left. -/
def sumOf (b : L3Book) (l : L3PriceLevel) : Nat := (l.queue.map fun n => b.weight n.2).sum

end L3Book

/-- The node of an entry. -/
structure Placed (b : L3Book) (id : Nat) (x : L3Order) (s : Slot) (l : L3PriceLevel) : Prop where
  entry : b.orders.lookup id = some x
  side : x.side = s.side
  level : (b.levels s).lookup x.price = some l
  node : (x.queuePos, id) ∈ l.queue

/-- The level of price `p` has nodes, and they belong to entries. -/
structure QueueOk (b : L3Book) (s : Slot) (p : Int) (l : L3PriceLevel) : Prop where
  full : l.queue ≠ []
  nodup : (l.queue.map Prod.fst).Nodup
  fresh : ∀ n ∈ l.queue, n.1 < b.nextNode
  owner : ∀ n ∈ l.queue, ∃ x, b.orders.lookup n.2 = some x ∧ x.side = s.side ∧ x.price = p ∧
    x.queuePos = n.1

/-- Entries and queues agree. -/
structure Arranged (b : L3Book) : Prop where
  placed : ∀ {id x}, b.orders.lookup id = some x → ∃ s l, Placed b id x s l
  level : ∀ {s p l}, (b.levels s).lookup p = some l → QueueOk b s p l

/-- The total of a level is `f` of what its orders have left. -/
def Tally (f : Nat → Nat) (b : L3Book) : Prop :=
  ∀ s p l, (b.levels s).lookup p = some l → l.totalQty = f (b.sumOf l)

theorem arranged_empty : Arranged .empty := by
  refine ⟨fun h => ?_, fun h => ?_⟩
  · cases h
  · cases h

section Edits

variable {b b' : L3Book} {id : Nat} {s : Slot} {x : L3Order} {l : L3PriceLevel} {p : Int}
  {x? : Option L3Order} {l? : Option L3PriceLevel}

/-- An order's weight is what it has left. -/
theorem L3Book.weight_of (h : b.orders.lookup id = some x) : b.weight id = x.qtyRem := by
  unfold L3Book.weight
  rw [h]
  rfl

/-- The nodes of other entries weigh what they did. -/
theorem Edit.weights (he : Edit b b' id x? s p l?) {ns : List (Nat × Nat)} (hns : ∀ n ∈ ns, n.2 ≠ id) :
    (ns.map fun n => b'.weight n.2) = ns.map fun n => b.weight n.2 := by
  refine List.map_congr_left (fun n hn => ?_)
  unfold L3Book.weight
  rw [he.entries _ (hns n hn)]

/-- The nodes before and behind that of an entry belong to others. -/
theorem Arranged.split (h : Arranged b) (hx : Placed b id x s l) :
    ∃ ns ns', l.queue = ns ++ (x.queuePos, id) :: ns' ∧
      ∀ n ∈ ns ++ ns', n.2 ≠ id ∧ n.1 ≠ x.queuePos := by
  obtain ⟨ns, ns', hq⟩ := List.append_of_mem hx.node
  have hok := h.level hx.level
  have hnd := hok.nodup
  rw [hq, List.map_append, List.map_cons, List.nodup_middle, List.nodup_cons, ← List.map_append] at hnd
  refine ⟨ns, ns', hq, fun n hn => ?_⟩
  have hne : n.1 ≠ x.queuePos := fun e => hnd.1 (List.mem_map.mpr ⟨n, hn, e⟩)
  refine ⟨fun hid => hne ?_, hne⟩
  have hmem : n ∈ l.queue := by
    rw [hq]
    rcases List.mem_append.mp hn with hn | hn
    · exact List.mem_append_left _ hn
    · exact List.mem_append_right _ (List.mem_cons_of_mem _ hn)
  obtain ⟨y, hy, -, -, hpos⟩ := hok.owner n hmem
  rw [hid, hx.entry] at hy
  rw [← hpos, Option.some.inj hy]

/-- The level an entry is placed in is the one `operator[]` refers to. -/
theorem Placed.level_eq (hx : Placed b id x s l) : b.level s x.price = l := by
  unfold L3Book.level
  rw [hx.level]
  rfl

/-- What an order has left is part of its level. -/
theorem Arranged.covers (h : Arranged b) (hx : Placed b id x s l) : x.qtyRem ≤ b.sumOf l := by
  obtain ⟨ns, ns', hq, -⟩ := h.split hx
  unfold L3Book.sumOf
  rw [hq, List.map_append, List.map_cons, List.sum_append, List.sum_cons, L3Book.weight_of hx.entry]
  omega

/-- The entry that changes has no node in another level. -/
theorem Arranged.elsewhere (h : Arranged b)
    (hold : ∀ x, b.orders.lookup id = some x → x.side = s.side ∧ x.price = p) {s' : Slot} {p' : Int}
    (hl : (b.levels s').lookup p' = some l) (hat : ¬ (s' = s ∧ p' = p)) : ∀ n ∈ l.queue, n.2 ≠ id := by
  intro n hn hid
  obtain ⟨y, hy, hys, hyp, -⟩ := (h.level hl).owner n hn
  obtain ⟨hs, hp⟩ := hold y (hid ▸ hy)
  exact hat ⟨Slot.side_inj (hys.symm.trans hs), hyp.symm.trans hp⟩

/-- What changes one entry and its level need only be looked at there. -/
theorem Arranged.edit (h : Arranged b) (he : Edit b b' id x? s p l?)
    (hold : ∀ x, b.orders.lookup id = some x → x.side = s.side ∧ x.price = p)
    (hself : ∀ x, x? = some x → x.side = s.side ∧ x.price = p ∧ ∃ l, l? = some l ∧ (x.queuePos, id) ∈ l.queue)
    (hkeep : ∀ l, (b.levels s).lookup p = some l → ∀ n ∈ l.queue, n.2 ≠ id →
      ∃ l', l? = some l' ∧ n ∈ l'.queue)
    (hlevel : ∀ l, l? = some l → QueueOk b' s p l) : Arranged b' := by
  refine ⟨fun {k x} hk => ?_, fun {s' p' l} hl => ?_⟩
  · by_cases hid : k = id
    · subst hid
      obtain ⟨hs, hp, l, hl, hn⟩ := hself x (he.entry.symm.trans hk)
      exact ⟨s, l, hk, hs, by rw [hp, he.level, hl], hn⟩
    · obtain ⟨s', l, hx⟩ := h.placed ((he.entries k hid).symm.trans hk)
      by_cases hat : s' = s ∧ x.price = p
      · obtain ⟨rfl, hp⟩ := hat
        obtain ⟨l', hl', hn⟩ := hkeep l (hp ▸ hx.level) _ hx.node hid
        exact ⟨s', l', hk, hx.side, by rw [hp, he.level, hl'], hn⟩
      · exact ⟨s', l, hk, hx.side, (he.levels _ _ (not_and_or.mp hat)).trans hx.level, hx.node⟩
  · by_cases hat : s' = s ∧ p' = p
    · obtain ⟨rfl, rfl⟩ := hat
      exact hlevel l (he.level.symm.trans hl)
    · rw [he.levels s' p' (not_and_or.mp hat)] at hl
      have hok := h.level hl
      have hne := h.elsewhere hold hl hat
      refine ⟨hok.full, hok.nodup, fun n hn => Nat.lt_of_lt_of_le (hok.fresh n hn) he.fresh, fun n hn => ?_⟩
      rw [he.entries _ (hne n hn)]
      exact hok.owner n hn

/-- The totals, as long as the one of the level that changes is right. -/
theorem Tally.edit {f : Nat → Nat} (ht : Tally f b) (h : Arranged b) (he : Edit b b' id x? s p l?)
    (hold : ∀ x, b.orders.lookup id = some x → x.side = s.side ∧ x.price = p)
    (hlevel : ∀ l, l? = some l → l.totalQty = f (b'.sumOf l)) : Tally f b' := by
  intro s' p' l hl
  by_cases hat : s' = s ∧ p' = p
  · obtain ⟨rfl, rfl⟩ := hat
    exact hlevel l (he.level.symm.trans hl)
  · rw [he.levels s' p' (not_and_or.mp hat)] at hl
    unfold L3Book.sumOf
    rw [he.weights (h.elsewhere hold hl hat)]
    exact ht s' p' l hl

/-- An order that was there before has kept side and price. -/
theorem Placed.old (hx : Placed b id x s l) :
    ∀ y, b.orders.lookup id = some y → y.side = s.side ∧ y.price = x.price := by
  intro y hy
  rw [← Option.some.inj (hx.entry.symm.trans hy)]
  exact ⟨hx.side, rfl⟩

/-- An entry that leaves takes its node and its quantity with it. -/
theorem Arranged.leave (h : Arranged b) (hx : Placed b id x s l) (l' : L3PriceLevel)
    (hqueue : l'.queue = l.queue.filter fun n => n.1 ≠ x.queuePos)
    (he : Edit b b' id none s x.price (if l'.queue = [] then none else some l')) :
    Arranged b' ∧ b'.sumOf l' + x.qtyRem = b.sumOf l := by
  obtain ⟨ns, ns', hq, hne⟩ := h.split hx
  have hok := h.level hx.level
  have hqueue' : l'.queue = ns ++ ns' := by
    rw [hqueue, hq, List.filter_append, List.filter_cons_of_neg (by simp), ← List.filter_append]
    exact List.filter_eq_self.mpr (fun n hn => by simpa using (hne n hn).2)
  refine ⟨h.edit he hx.old (fun _ hn => by cases hn) ?_ ?_, ?_⟩
  · intro l₀ hl₀ n hn hid
    obtain rfl := Option.some.inj (hx.level.symm.trans hl₀)
    have hmem : n ∈ l'.queue := by
      rw [hq] at hn
      rw [hqueue']
      rcases List.mem_append.mp hn with hn | hn
      · exact List.mem_append_left _ hn
      · rcases List.mem_cons.mp hn with rfl | hn
        · exact absurd rfl hid
        · exact List.mem_append_right _ hn
    exact ⟨l', if_neg (List.ne_nil_of_mem hmem), hmem⟩
  · intro l₀ hl₀
    split at hl₀
    · cases hl₀
    rename_i hfull
    obtain rfl := Option.some.inj hl₀
    have hmem : ∀ n ∈ l'.queue, n ∈ l.queue ∧ n.2 ≠ id := by
      intro n hn
      refine ⟨(List.mem_filter.mp (hqueue ▸ hn)).1, (hne n (hqueue' ▸ hn)).1⟩
    refine ⟨hfull, ?_, fun n hn => ?_, fun n hn => ?_⟩
    · rw [hqueue]
      exact hok.nodup.sublist (List.filter_sublist.map _)
    · exact Nat.lt_of_lt_of_le (hok.fresh n (hmem n hn).1) he.fresh
    · rw [he.entries _ (hmem n hn).2]
      exact hok.owner n (hmem n hn).1
  · unfold L3Book.sumOf
    rw [hqueue', he.weights (fun n hn => (hne n hn).1), hq, List.map_append, List.map_append, List.map_cons,
      List.sum_append, List.sum_append, List.sum_cons, L3Book.weight_of hx.entry]
    omega

/-- An entry whose quantity changes keeps its node. -/
theorem Arranged.resize (h : Arranged b) (hx : Placed b id x s l) (x' : L3Order) (l' : L3PriceLevel)
    (hqueue : l'.queue = l.queue)
    (hentry : x'.side = x.side ∧ x'.price = x.price ∧ x'.queuePos = x.queuePos)
    (he : Edit b b' id (some x') s x.price (some l')) :
    Arranged b' ∧ b'.sumOf l' + x.qtyRem = b.sumOf l + x'.qtyRem := by
  obtain ⟨hside, hprice, hpos⟩ := hentry
  obtain ⟨ns, ns', hq, hne⟩ := h.split hx
  have hok := h.level hx.level
  refine ⟨h.edit he hx.old ?_ ?_ ?_, ?_⟩
  · intro y hy
    obtain rfl := Option.some.inj hy
    exact ⟨hside.trans hx.side, hprice, l', rfl, by rw [hqueue, hpos]; exact hx.node⟩
  · intro l₀ hl₀ n hn _
    obtain rfl := Option.some.inj (hx.level.symm.trans hl₀)
    exact ⟨l', rfl, hqueue ▸ hn⟩
  · intro l₀ hl₀
    obtain rfl := Option.some.inj hl₀
    refine ⟨hqueue ▸ hok.full, hqueue ▸ hok.nodup, fun n hn => ?_, fun n hn => ?_⟩
    · exact Nat.lt_of_lt_of_le (hok.fresh n (hqueue ▸ hn)) he.fresh
    · obtain ⟨y, hy, hys, hyp, hyn⟩ := hok.owner n (hqueue ▸ hn)
      by_cases hid : n.2 = id
      · rw [hid, hx.entry] at hy
        obtain rfl := Option.some.inj hy
        exact ⟨x', by rw [hid, he.entry], hside.trans hys, hprice, hpos.trans hyn⟩
      · rw [he.entries _ hid]
        exact ⟨y, hy, hys, hyp, hyn⟩
  · unfold L3Book.sumOf
    rw [hqueue, hq, List.map_append, List.map_append, List.map_cons, List.map_cons, List.sum_append,
      List.sum_append, List.sum_cons, List.sum_cons, L3Book.weight_of hx.entry, L3Book.weight_of he.entry,
      he.weights (fun n hn => (hne n (List.mem_append_left _ hn)).1),
      he.weights (fun n hn => (hne n (List.mem_append_right _ hn)).1)]
    omega

/-- A new entry joins the end of the queue at its price. -/
theorem Arranged.enter (h : Arranged b) (hnone : b.orders.lookup id = none) (hside : x.side = s.side)
    (hnode : x.queuePos = b.nextNode) (l' : L3PriceLevel)
    (hqueue : l'.queue = (b.level s x.price).queue ++ [(b.nextNode, id)])
    (he : Edit b b' id (some x) s x.price (some l')) (hnext : b.nextNode < b'.nextNode) :
    Arranged b' ∧ b'.sumOf l' = b.sumOf (b.level s x.price) + x.qtyRem := by
  -- the level before, whether it was there or not
  have hbefore : ((b.level s x.price).queue.map Prod.fst).Nodup ∧
      (∀ n ∈ (b.level s x.price).queue, n.1 < b.nextNode) ∧
      (∀ n ∈ (b.level s x.price).queue, ∃ y, b.orders.lookup n.2 = some y ∧ y.side = s.side ∧
        y.price = x.price ∧ y.queuePos = n.1) := by
    unfold L3Book.level
    cases hl : (b.levels s).lookup x.price with
    | none =>
      exact ⟨List.nodup_nil, fun n hn => absurd hn List.not_mem_nil, fun n hn => absurd hn List.not_mem_nil⟩
    | some l =>
      have hok := h.level hl
      exact ⟨hok.nodup, hok.fresh, hok.owner⟩
  obtain ⟨hnd, hfresh, howner⟩ := hbefore
  have hne : ∀ n ∈ (b.level s x.price).queue, n.2 ≠ id := by
    intro n hn hid
    obtain ⟨y, hy, -⟩ := howner n hn
    rw [hid, hnone] at hy
    cases hy
  refine ⟨h.edit he ?_ ?_ ?_ ?_, ?_⟩
  · intro y hy
    rw [hnone] at hy
    cases hy
  · intro y hy
    obtain rfl := Option.some.inj hy
    exact ⟨hside, rfl, _, rfl, by rw [hqueue, hnode]; exact List.mem_append_right _ List.mem_cons_self⟩
  · intro l₀ hl₀ n hn _
    refine ⟨l', rfl, ?_⟩
    rw [hqueue]
    refine List.mem_append_left _ ?_
    unfold L3Book.level
    rw [hl₀]
    exact hn
  · intro l₀ hl₀
    obtain rfl := Option.some.inj hl₀
    refine ⟨by rw [hqueue]; simp, ?_, fun n hn => ?_, fun n hn => ?_⟩
    · rw [hqueue, List.map_append]
      refine List.Nodup.append hnd (List.nodup_singleton _) (fun k hk hk' => ?_)
      obtain ⟨n, hn, rfl⟩ := List.mem_map.mp hk
      have hlt := hfresh n hn
      have hlast : n.1 = b.nextNode := List.mem_singleton.mp hk'
      omega
    · rw [hqueue] at hn
      rcases List.mem_append.mp hn with hn | hn
      · exact Nat.lt_trans (hfresh n hn) hnext
      · rw [List.mem_singleton.mp hn]
        exact hnext
    · rw [hqueue] at hn
      rcases List.mem_append.mp hn with hn | hn
      · rw [he.entries _ (hne n hn)]
        exact howner n hn
      · rw [List.mem_singleton.mp hn]
        exact ⟨x, he.entry, hside, rfl, hnode⟩
  · unfold L3Book.sumOf
    rw [hqueue, List.map_append, List.sum_append, he.weights hne, List.map_singleton, List.sum_singleton,
      L3Book.weight_of he.entry]

end Edits

end Exchange.MarketData
