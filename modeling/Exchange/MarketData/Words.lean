import Exchange.MarketData.Arranged
import Mathlib.Data.Int.ModEq

/-!
# The book in 64 bits

`L3Book::update` of `src/L3Book.cpp` once more, for any records and with the integers the code has:
quantities and totals are `uint64_t`, the difference of two quantities is an `int64_t` that wraps, and
`remove_from_queues` lowers a total to zero at the least. `Edit` and the maps are those of the exact
model.

Whatever comes, entries and queues agree (`Sound`). Each total is what its orders have left modulo
`2^64`, as long as that lower bound has not been hit; while what is left in a level stays below `2^64`
it is not hit, and the totals are right (`represented`).
-/

namespace Exchange.MarketData

namespace L3Book

/-- `static_cast<int64_t>`. -/
def toInt64 (n : Int) : Int := n.bmod (2 ^ 64)

/-- `int64_t diff`. -/
def diff (qRem qtyRem : Nat) : Int := toInt64 (toInt64 qRem - toInt64 qtyRem)

/-- `total_qty += diff`. -/
def addDiff (totalQty : Nat) (diff : Int) : Nat := ((totalQty + diff) % 2 ^ 64).toNat

/-- `queue.push_back`, the level's total and the entry in `orders`. -/
def pushBack64 (b : L3Book) (orderId : Nat) (side : Side) (price : Int) (qty qRem : Nat) : L3Book :=
  let s := slotOf side
  let l := b.level s price
  let l : L3PriceLevel := ⟨(l.totalQty + qRem) % 2 ^ 64, l.queue ++ [(b.nextNode, orderId)]⟩
  let b := b.setLevel s price l
  { b with
    orders := b.orders.insert orderId ⟨orderId, side, price, qty, qRem, b.nextNode⟩
    nextNode := b.nextNode + 1 }.onLevelUpdated side price l.totalQty

/-- `remove_from_queues`. -/
def removeFromQueues64 (b : L3Book) (orderId : Nat) : Except Fault L3Book :=
  match b.orders.lookup orderId with
  | none => .ok b
  | some order =>
    match order.side.slot with
    | none => .ok (b.onLevelUpdated order.side order.price 0)
    | some s =>
      match (b.levels s).lookup order.price with
      | none => .ok (b.onLevelUpdated order.side order.price 0)
      | some l => do
        let totalQty := if order.qtyRem ≤ l.totalQty then l.totalQty - order.qtyRem else 0
        let l ← { l with totalQty := totalQty }.eraseNode order.queuePos
        .ok ((b.setOrErase s order.price l).onLevelUpdated order.side order.price l.totalQty)

/-- The in-place branch of `update`. -/
def updateInPlace64 (b : L3Book) (type : ExecType) (orderId : Nat) (order : L3Order)
    (qty qRem : Nat) : Except Fault L3Book :=
  let s := slotOf order.side
  let l := b.level s order.price
  let l := { l with totalQty := addDiff l.totalQty (diff qRem order.qtyRem) }
  let b := (b.setLevel s order.price l).onLevelUpdated order.side order.price l.totalQty
  if qRem = 0 then do
    let l ← l.eraseNode order.queuePos
    let b := b.setOrErase s order.price l
    .ok { b with orders := b.orders.erase orderId }
  else
    let qtyReq := if type = .replaced then qty else order.qtyReq
    .ok { b with
      orders := b.orders.insert orderId { order with qtyRem := qRem, qtyReq := qtyReq } }

/-- `L3Book::update`. -/
def update64 (b : L3Book) (type : ExecType) (orderId : Nat) (side : Side) (price : Int)
    (qty qRem : Nat) : Except Fault L3Book :=
  if side = .none then .ok { b with orders := ∅, levels := fun _ => ∅ }
  else if type = .rejected then .ok b
  else if type = .new then .ok (b.pushBack64 orderId side price qty qRem)
  else
    match b.orders.lookup orderId with
    | none => .ok b
    | some order =>
      if type = .replaced ∧ (price ≠ order.price ∨ 0 < diff qRem order.qtyRem) then do
        let b ← b.removeFromQueues64 orderId
        if 0 < qRem then .ok (b.pushBack64 orderId side price qty qRem)
        else .ok { b with orders := b.orders.erase orderId }
      else b.updateInPlace64 type orderId order qty qRem

/-- What is left in each level is below `2^64`. -/
def Within (b : L3Book) : Prop := ∀ s p l, (b.levels s).lookup p = some l → b.sumOf l < 2 ^ 64

/-- The books that updates of orders make of an empty one, while they meet `K`; an id is not announced
again while it is in the book. -/
inductive Run (K : L3Book → Prop) : L3Book → Prop
  | empty : Run K .empty
  | update {b b' : L3Book} {type : ExecType} {orderId : Nat} {side : Side} {price : Int} {qty qRem : Nat}
      (h : Run K b) (hside : side = .buy ∨ side = .sell)
      (hnew : type = .new → b.orders.lookup orderId = none)
      (hrun : b.update64 type orderId side price qty qRem = .ok b') (hK : K b') : Run K b'

/-- Every order is in one queue once: that of its side and price, at its `queue_pos`. No other ids are in
a queue, and no queue is empty. -/
structure Represented (b : L3Book) : Prop where
  queued : ∀ id x, b.orders.lookup id = some x → ∃ s l, x.side = s.side ∧
    (b.levels s).lookup x.price = some l ∧ (l.queue.filter fun n => n.2 = id) = [(x.queuePos, id)]
  owned : ∀ s p l, (b.levels s).lookup p = some l → ∀ n ∈ l.queue,
    ∃ x, b.orders.lookup n.2 = some x ∧ x.side = s.side ∧ x.price = p
  full : ∀ s p l, (b.levels s).lookup p = some l → l.queue ≠ []

end L3Book

/-! ## Sums modulo `2^64` -/

/-- A wrapped number is congruent to the number. -/
theorem toInt64_modEq (n : Int) : L3Book.toInt64 n ≡ n [ZMOD 2 ^ 64] := Int.bmod_emod

/-- A wrapped difference, added, makes up for the change. -/
theorem addDiff_sum {n n' q r : Nat} (h : n' + q = n + r) :
    L3Book.addDiff (n % 2 ^ 64) (L3Book.diff r q) = n' % 2 ^ 64 := by
  have hdiff : L3Book.diff r q ≡ (r : Int) - q [ZMOD 2 ^ 64] :=
    (toInt64_modEq _).trans ((toInt64_modEq r).sub (toInt64_modEq q))
  have hsum : (n : Int) + (r - q) = n' := by omega
  have hmod : ((n % 2 ^ 64 : Nat) : Int) + L3Book.diff r q ≡ n' [ZMOD 2 ^ 64] := by
    rw [← hsum]
    refine Int.ModEq.add ?_ hdiff
    push_cast
    exact Int.mod_modEq ..
  unfold L3Book.addDiff
  rw [hmod]
  exact Int.toNat_natCast (n' % 2 ^ 64)

/-! ## One update -/

/-- What a call keeps: entries and queues agree after it, and the totals are still right if they were
and no level was too full. -/
structure Kept (b b' : L3Book) : Prop where
  arranged : Arranged b'
  tally : Tally (fun n => n % 2 ^ 64) b → b.Within → Tally (fun n => n % 2 ^ 64) b'

section Updates

variable {b b' : L3Book} {id : Nat} {s : Slot} {x : L3Order} {l : L3PriceLevel}

theorem Arranged.kept_refl (h : Arranged b) : Kept b b := ⟨h, fun ht _ => ht⟩

/-- The total `operator[]` refers to, also of a level it makes up. -/
theorem Tally.level (ht : Tally (fun n => n % 2 ^ 64) b) (s : Slot) (p : Int) :
    (b.level s p).totalQty = b.sumOf (b.level s p) % 2 ^ 64 := by
  unfold L3Book.level
  cases hl : (b.levels s).lookup p with
  | none => rfl
  | some l => exact ht s p l hl

/-- `pushBack64` on a book without the order; `b₀` may still have an old entry under its id. -/
theorem Arranged.pushBack64 (h : Arranged b) (hnone : b.orders.lookup id = none) (b₀ : L3Book)
    (hentries : ∀ k, k ≠ id → b₀.orders.lookup k = b.orders.lookup k)
    (hlevels : b₀.levels = b.levels) (hnode : b₀.nextNode = b.nextNode) (p : Int) (q r : Nat) :
    Arranged (b₀.pushBack64 id s.side p q r) ∧ (Tally (fun n => n % 2 ^ 64) b →
      Tally (fun n => n % 2 ^ 64) (b₀.pushBack64 id s.side p q r)) := by
  have hlevel : b₀.level s p = b.level s p := by
    unfold L3Book.level
    rw [hlevels]
  have he : Edit b (b₀.pushBack64 id s.side p q r) id (some ⟨id, s.side, p, q, r, b.nextNode⟩) s p
      (some ⟨((b.level s p).totalQty + r) % 2 ^ 64, (b.level s p).queue ++ [(b.nextNode, id)]⟩) := by
    refine ⟨?_, fun k hk => ?_, ?_, fun s' p' hp => ?_, ?_⟩
    all_goals
      unfold L3Book.pushBack64
      simp only [L3Book.slotOf_side, L3Book.onLevelUpdated_orders, L3Book.onLevelUpdated_levels,
        L3Book.onLevelUpdated_nextNode, L3Book.setLevel_orders, L3Book.setLevel_nextNode, hnode, hlevel]
    · rw [AList.lookup_insert]
    · rw [AList.lookup_insert_ne hk, hentries k hk]
    · exact L3Book.setLevel_self ..
    · rw [L3Book.setLevel_ne _ _ hp, hlevels]
    · omega
  have hnext : b.nextNode < (b₀.pushBack64 id s.side p q r).nextNode := by
    unfold L3Book.pushBack64
    simp only [L3Book.onLevelUpdated_nextNode, L3Book.setLevel_nextNode, hnode]
    omega
  obtain ⟨ha, hsum⟩ := h.enter (x := ⟨id, s.side, p, q, r, b.nextNode⟩) hnone rfl rfl
    ⟨((b.level s p).totalQty + r) % 2 ^ 64, (b.level s p).queue ++ [(b.nextNode, id)]⟩ rfl he hnext
  refine ⟨ha, fun ht => ht.edit h he (fun y hy => ?_) fun l₀ hl₀ => ?_⟩
  · rw [hnone] at hy
    cases hy
  · obtain rfl := Option.some.inj hl₀
    dsimp only at hsum ⊢
    rw [hsum, ht.level, Nat.mod_add_mod]

/-- A book from which an entry was dropped. -/
theorem Arranged.dropped64 (h : Arranged b) (hx : Placed b id x s l) {t : Nat}
    (htotal : l.totalQty = b.sumOf l % 2 ^ 64 → b.sumOf l < 2 ^ 64 → t = b.sumOf l - x.qtyRem)
    (horders : b'.orders = b.orders.erase id)
    (hself : (b'.levels s).lookup x.price = if (l.queue.filter fun n => n.1 ≠ x.queuePos) = [] then none
      else some ⟨t, l.queue.filter fun n => n.1 ≠ x.queuePos⟩)
    (hothers : ∀ s' p', s' ≠ s ∨ p' ≠ x.price → (b'.levels s').lookup p' = (b.levels s').lookup p')
    (hnext : b'.nextNode = b.nextNode) : Kept b b' := by
  have he : Edit b b' id none s x.price (if (l.queue.filter fun n => n.1 ≠ x.queuePos) = [] then none
      else some ⟨t, l.queue.filter fun n => n.1 ≠ x.queuePos⟩) := by
    refine ⟨?_, fun k hk => ?_, hself, hothers, hnext.ge⟩
    · rw [horders, AList.lookup_erase]
    · rw [horders, AList.lookup_erase_ne hk]
  obtain ⟨ha, hsum⟩ := h.leave hx ⟨t, l.queue.filter fun n => n.1 ≠ x.queuePos⟩ rfl he
  refine ⟨ha, fun ht hw => ht.edit h he hx.old fun l₀ hl₀ => ?_⟩
  have hlt := hw _ _ _ hx.level
  have heq := htotal (ht _ _ _ hx.level) hlt
  split at hl₀
  · cases hl₀
  obtain rfl := Option.some.inj hl₀
  dsimp only
  omega

/-- `remove_from_queues`, once the entry is erased too. -/
theorem Arranged.removeFromQueues64 (h : Arranged b) (hx : Placed b id x s l) :
    ∃ b', b.removeFromQueues64 id = .ok b' ∧ Kept b { b' with orders := b'.orders.erase id } := by
  unfold L3Book.removeFromQueues64
  rw [hx.entry]
  dsimp only
  rw [hx.side, Slot.slot_side]
  dsimp only
  rw [hx.level]
  dsimp only
  rw [eraseNode_mem hx.node]
  have hcovers := h.covers hx
  refine ⟨_, rfl, h.dropped64 hx (t := if x.qtyRem ≤ l.totalQty then l.totalQty - x.qtyRem else 0)
    (fun ht hlt => ?_) ?_ ?_ (fun s' p' hp => ?_) ?_⟩
  · rw [ht, Nat.mod_eq_of_lt hlt, if_pos hcovers]
  all_goals dsimp only
  · rw [L3Book.onLevelUpdated_orders, L3Book.setOrErase_orders]
  · rw [L3Book.onLevelUpdated_levels, L3Book.setOrErase_self]
  · rw [L3Book.onLevelUpdated_levels, L3Book.setOrErase_ne _ _ hp]
  · rw [L3Book.onLevelUpdated_nextNode, L3Book.setOrErase_nextNode]

/-- The in-place branch. -/
theorem Arranged.updateInPlace64 (h : Arranged b) (hx : Placed b id x s l) (type : ExecType) (q r : Nat) :
    ∃ b', b.updateInPlace64 type id x q r = .ok b' ∧ Kept b b' := by
  have hcovers := h.covers hx
  unfold L3Book.updateInPlace64
  rw [hx.side, L3Book.slotOf_side]
  dsimp only
  rw [hx.level_eq]
  by_cases hr : r = 0
  · subst hr
    rw [if_pos rfl, eraseNode_mem hx.node]
    refine ⟨_, rfl, h.dropped64 hx (t := L3Book.addDiff l.totalQty (L3Book.diff 0 x.qtyRem))
      (fun ht hlt => ?_) ?_ ?_ (fun s' p' hp => ?_) ?_⟩
    · have hsum : b.sumOf l - x.qtyRem + x.qtyRem = b.sumOf l + 0 := by omega
      rw [ht, addDiff_sum hsum, Nat.mod_eq_of_lt (by omega)]
    all_goals dsimp only
    · rw [L3Book.setOrErase_orders, L3Book.onLevelUpdated_orders, L3Book.setLevel_orders]
    · rw [L3Book.setOrErase_self]
    · rw [L3Book.setOrErase_ne _ _ hp, L3Book.onLevelUpdated_levels, L3Book.setLevel_ne _ _ hp]
    · rw [L3Book.setOrErase_nextNode, L3Book.onLevelUpdated_nextNode, L3Book.setLevel_nextNode]
  · rw [if_neg hr]
    obtain ⟨t, ht⟩ : ∃ t, t = L3Book.addDiff l.totalQty (L3Book.diff r x.qtyRem) := ⟨_, rfl⟩
    rw [← ht]
    have hkept : ∀ b' x', x'.side = x.side ∧ x'.price = x.price ∧ x'.queuePos = x.queuePos →
        x'.qtyRem = r →
        Edit b b' id (some x') s x.price (some { l with totalQty := t }) → Kept b b' := by
      intro b' x' hentry hqty he
      obtain ⟨ha, hsum⟩ := h.resize hx x' { l with totalQty := t } rfl hentry he
      refine ⟨ha, fun htally _ => htally.edit h he hx.old fun l₀ hl₀ => ?_⟩
      obtain rfl := Option.some.inj hl₀
      have hall : l.totalQty = b.sumOf l % 2 ^ 64 := htally _ _ _ hx.level
      rw [hqty] at hsum
      calc t = L3Book.addDiff (b.sumOf l % 2 ^ 64) (L3Book.diff r x.qtyRem) := by rw [ht, hall]
        _ = b'.sumOf { l with totalQty := t } % 2 ^ 64 := addDiff_sum hsum
    refine ⟨_, rfl, hkept _ ⟨x.orderId, s.side, x.price, if type = .replaced then q else x.qtyReq, r,
      x.queuePos⟩ ⟨hx.side.symm, rfl, rfl⟩ rfl ⟨?_, fun k hk => ?_, ?_, fun s' p' hp => ?_, ?_⟩⟩
    all_goals
      simp only [L3Book.onLevelUpdated_orders, L3Book.onLevelUpdated_levels,
        L3Book.onLevelUpdated_nextNode, L3Book.setLevel_orders, L3Book.setLevel_nextNode]
    · rw [AList.lookup_insert]
    · rw [AList.lookup_insert_ne hk]
    · exact L3Book.setLevel_self ..
    · exact L3Book.setLevel_ne _ _ hp
    · exact Nat.le_refl _

/-- One call of `update`. -/
theorem Arranged.update64 (h : Arranged b) {type : ExecType} (hnew : type = .new → b.orders.lookup id = none)
    (p : Int) (q r : Nat) : ∃ b', b.update64 type id s.side p q r = .ok b' ∧ Kept b b' := by
  have hside : s.side ≠ .none := by cases s <;> decide
  unfold L3Book.update64
  rw [if_neg hside]
  split
  · exact ⟨b, rfl, h.kept_refl⟩
  · split
    · rename_i htype
      obtain ⟨ha, ht⟩ := h.pushBack64 (s := s) (hnew htype) b (fun _ _ => rfl) rfl rfl p q r
      exact ⟨_, rfl, ha, fun hb _ => ht hb⟩
    · cases hx : b.orders.lookup id with
      | none => exact ⟨b, rfl, h.kept_refl⟩
      | some x =>
        obtain ⟨s₀, l, hpl⟩ := h.placed hx
        dsimp only
        split
        · obtain ⟨b₁, hb₁, hgone⟩ := h.removeFromQueues64 hpl
          rw [hb₁]
          show ∃ b', (if 0 < r then _ else _) = _ ∧ _
          by_cases hr : 0 < r
          · -- taken out of one queue and entered in another
            obtain ⟨ha, ht⟩ := hgone.arranged.pushBack64 (s := s) (AList.lookup_erase ..) b₁
              (fun k hk => (AList.lookup_erase_ne hk).symm) rfl rfl p q r
            rw [if_pos hr]
            exact ⟨_, rfl, ha, fun hb hw => ht (hgone.tally hb hw)⟩
          · rw [if_neg hr]
            exact ⟨_, rfl, hgone⟩
        · exact h.updateInPlace64 hpl type q r

end Updates

/-! ## Runs -/

section Runs

variable {K : L3Book → Prop} {b : L3Book}

/-- The slot of the sides an update may have. -/
theorem slot_of_side {side : Side} (h : side = .buy ∨ side = .sell) : ∃ s : Slot, side = s.side := by
  rcases h with rfl | rfl
  · exact ⟨.bid, rfl⟩
  · exact ⟨.ask, rfl⟩

theorem tally_empty (f : Nat → Nat) : Tally f .empty := fun _ _ _ hl => by cases hl

/-- What a run keeps. -/
theorem L3Book.Run.kept (h : L3Book.Run K b) : Arranged b ∧
    ((∀ b, K b → b.Within) → b.Within ∧ Tally (fun n => n % 2 ^ 64) b) := by
  induction h with
  | empty => exact ⟨arranged_empty, fun _ => ⟨fun _ _ _ hl => (by cases hl), tally_empty _⟩⟩
  | @update b b' type id side p q r _ hside hnew hrun hK ih =>
    obtain ⟨s, rfl⟩ := slot_of_side hside
    obtain ⟨b₁, hb₁, hkept⟩ := ih.1.update64 (s := s) hnew p q r
    obtain rfl := Except.ok.inj (hrun.symm.trans hb₁)
    refine ⟨hkept.arranged, fun hwithin => ⟨hwithin _ hK, ?_⟩⟩
    obtain ⟨hw, ht⟩ := ih.2 hwithin
    exact hkept.tally ht hw

/-- An arranged book is one that the two 64-bit fields represent. -/
theorem Arranged.representation (h : Arranged b) : b.Represented := by
  refine ⟨fun id x hx => ?_, fun s p l hl n hn => ?_, fun s p l hl => (h.level hl).full⟩
  · obtain ⟨s, l, hpl⟩ := h.placed hx
    obtain ⟨ns, ns', hq, hne⟩ := h.split hpl
    refine ⟨s, l, hpl.side, hpl.level, ?_⟩
    have hothers : ∀ ms : List (Nat × Nat), (∀ n ∈ ms, n ∈ ns ++ ns') →
        (ms.filter fun n => n.2 = id) = [] := by
      intro ms hms
      refine List.filter_eq_nil_iff.mpr (fun n hn => ?_)
      simpa using (hne n (hms n hn)).1
    rw [hq, List.filter_append, List.filter_cons_of_pos (by simp),
      hothers ns (fun n hn => List.mem_append_left _ hn),
      hothers ns' (fun n hn => List.mem_append_right _ hn)]
    rfl
  · obtain ⟨x, hx, hs, hp, -⟩ := (h.level hl).owner n hn
    exact ⟨x, hx, hs, hp⟩

end Runs

namespace L3Book

/-- After any updates of orders, entries and queues agree and the next update meets no bad iterator; and
if what is left in a level stayed below `2^64`, each total is what its orders have left, and no smaller
than what any one of them has left. -/
theorem represented {K : L3Book → Prop} {b : L3Book} (h : Run K b) :
    b.Represented ∧
    (∀ type id side p q r, side = .buy ∨ side = .sell → (type = .new → b.orders.lookup id = none) →
      ∃ b', b.update64 type id side p q r = .ok b') ∧
    ((∀ b, K b → b.Within) → ∀ s p l, (b.levels s).lookup p = some l → l.totalQty = b.sumOf l ∧
      ∀ id x, b.orders.lookup id = some x → x.side = s.side → x.price = p → x.qtyRem ≤ l.totalQty) := by
  obtain ⟨ha, hwithin⟩ := h.kept
  refine ⟨ha.representation, fun type id side p q r hside hnew => ?_, fun hK s p l hl => ?_⟩
  · obtain ⟨s, rfl⟩ := slot_of_side hside
    obtain ⟨b', hb', -⟩ := ha.update64 (s := s) hnew p q r
    exact ⟨b', hb'⟩
  · obtain ⟨hw, ht⟩ := hwithin hK
    have htotal : l.totalQty = b.sumOf l := (ht s p l hl).trans (Nat.mod_eq_of_lt (hw s p l hl))
    refine ⟨htotal, fun id x hx hs hp => ?_⟩
    obtain ⟨s', l', hpl⟩ := ha.placed hx
    obtain rfl := Slot.side_inj (hs.symm.trans hpl.side)
    obtain rfl := Option.some.inj (hl.symm.trans (hp ▸ hpl.level))
    exact htotal ▸ ha.covers hpl

/-- Sums below 2^64 fit the levels. -/
theorem within_of_entries {b : L3Book} (h : ∀ s, ∀ e ∈ (b.levels s).entries, b.sumOf e.2 < 2 ^ 64) :
    b.Within := fun s _ _ hl => h s _ (AList.mem_lookup_iff.mp hl)

/-- An order to buy, lowered, and then to sell at another price and more. -/
theorem sample_words : ∃ b, Run Within b ∧ b.orders.keys = [7] ∧ b.Represented ∧
    ∀ s p l, (b.levels s).lookup p = some l → l.totalQty = b.sumOf l := by
  have hnone : (L3Book.empty.orders.lookup 7) = none := rfl
  have hentered := @Run.update Within _ _ .new 7 .buy 100 5 5 .empty (Or.inl rfl) (fun _ => hnone) rfl
    (within_of_entries fun s => by cases s <;> decide)
  have hlowered := @Run.update Within _ _ .partialFill 7 .buy 100 5 3 hentered (Or.inl rfl)
    (fun h => by cases h) rfl (within_of_entries fun s => by cases s <;> decide)
  have hrun := @Run.update Within _ _ .replaced 7 .sell 90 9 4 hlowered (Or.inr rfl)
    (fun h => by cases h) rfl (within_of_entries fun s => by cases s <;> decide)
  exact ⟨_, hrun, rfl, (represented hrun).1, fun s p l hl =>
    ((represented hrun).2.2 (fun _ hK => hK) s p l hl).1⟩

end L3Book

end Exchange.MarketData
