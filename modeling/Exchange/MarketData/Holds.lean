import Exchange.MarketData.Model
import Exchange.Book.Execute

/-!
# A market data book holds the engine's orders

`Holds c a b`: the orders of `b` are those of the book `a`, each with its side,
price and remaining quantity and with its node in the queue of its level; a
level lists the ids of a side's orders at its price in priority order, and its
total is their sum.

`Holds.edit` is the frame: whatever changes one entry of `orders` and one level
need only be looked at there. Removing, resizing and placing an order are its
three uses.
-/

namespace Exchange.MarketData

/-- What is read off a level: the ids in its queue and its total. -/
def L3PriceLevel.view (l : L3PriceLevel) : List Nat × Nat := (l.queue.map Prod.snd, l.totalQty)

/-- What a level with these orders reads as, if it is there. -/
def viewOf : List Order → Option (List Nat × Nat)
  | [] => none
  | o :: os => some ((o :: os).map Order.orderId, ((o :: os).map Order.qtyRemaining).sum)

/-- What a level with an order in it reads as. -/
theorem viewOf_middle (pre post : List Order) (o : Order) :
    viewOf (pre ++ o :: post) = some ((pre ++ o :: post).map Order.orderId,
      ((pre ++ o :: post).map Order.qtyRemaining).sum) := by
  cases pre <;> rfl

/-- The entry and the node of a resting order. -/
structure Listed (c : Config) (b : L3Book) (s : Slot) (o : Order) (x : L3Order) (l : L3PriceLevel) :
    Prop where
  entry : b.orders.lookup o.orderId = some x
  side : x.side = s.side
  price : x.price = c.plToPrice o.level
  qty : x.qtyRem = o.qtyRemaining
  level : (b.levels s).lookup (c.plToPrice o.level) = some l
  node : (x.queuePos, o.orderId) ∈ l.queue

/-- The book `b` of the server holds the orders of the book `a`. -/
structure Holds (c : Config) (a : Lob) (b : L3Book) : Prop where
  views : ∀ s p, ((b.levels s).lookup p).map L3PriceLevel.view = viewOf (atPrice c (a s) p)
  listed : ∀ {s o}, o ∈ a s → ∃ x l, Listed c b s o x l
  resting : ∀ {id x}, b.orders.lookup id = some x → ∃ s, ∃ o ∈ a s, o.orderId = id
  nodes : ∀ {s p l}, (b.levels s).lookup p = some l →
    (l.queue.map Prod.fst).Nodup ∧ ∀ n ∈ l.queue, n.1 < b.nextNode

theorem holds_empty (c : Config) : Holds c (fun _ => []) L3Book.empty := by
  refine ⟨fun s p => rfl, fun ho => ?_, fun hx => ?_, fun hl => ?_⟩
  · cases ho
  · cases hx
  · cases hl

/-- `b'` is `b` but for one entry of `orders` and one level. -/
structure Edit (b b' : L3Book) (id : Nat) (entry : Option L3Order) (s : Slot) (p : Int)
    (level : Option L3PriceLevel) : Prop where
  entry : b'.orders.lookup id = entry
  entries : ∀ k, k ≠ id → b'.orders.lookup k = b.orders.lookup k
  level : (b'.levels s).lookup p = level
  levels : ∀ s' p', s' ≠ s ∨ p' ≠ p → (b'.levels s').lookup p' = (b.levels s').lookup p'
  fresh : b.nextNode ≤ b'.nextNode

/-- The book `a'` is `a` but for one order, at one price of one side. -/
structure Frame (c : Config) (a a' : Lob) (id : Nat) (s : Slot) (p : Int) : Prop where
  others : ∀ {s' o}, o.orderId ≠ id → (o ∈ a' s' ↔ o ∈ a s')
  prices : ∀ s' p', s' ≠ s ∨ p' ≠ p → atPrice c (a' s') p' = atPrice c (a s') p'

section Edits

variable {c : Config} {a a' : Lob} {b b' : L3Book} {id : Nat} {s : Slot} {p : Int}
  {x? : Option L3Order} {l? : Option L3PriceLevel}

/-- What changes one entry and one level need only be looked at there. -/
theorem Holds.edit (h : Holds c a b) (he : Edit b b' id x? s p l?) (hf : Frame c a a' id s p)
    (hview : l?.map L3PriceLevel.view = viewOf (atPrice c (a' s) p))
    (hnodes : ∀ l, l? = some l → (l.queue.map Prod.fst).Nodup ∧ ∀ n ∈ l.queue, n.1 < b'.nextNode)
    (hkeep : ∀ l, (b.levels s).lookup p = some l → ∀ n ∈ l.queue, n.2 ≠ id →
      ∃ l', l? = some l' ∧ n ∈ l'.queue)
    (hself : ∀ {s' o}, o ∈ a' s' → o.orderId = id → ∃ x l, Listed c b' s' o x l)
    (hrest : ∀ x, x? = some x → ∃ s, ∃ o ∈ a' s, o.orderId = id) : Holds c a' b' := by
  refine ⟨fun s' p' => ?_, fun {s' o} ho => ?_, fun {k x} hx => ?_, fun {s' p' l} hl => ?_⟩
  · by_cases hat : s' = s ∧ p' = p
    · obtain ⟨rfl, rfl⟩ := hat
      rw [he.level, hview]
    · have hat' := not_and_or.mp hat
      rw [he.levels s' p' hat', h.views, hf.prices s' p' hat']
  · by_cases hid : o.orderId = id
    · exact hself ho hid
    · obtain ⟨x, l, hx⟩ := h.listed ((hf.others hid).mp ho)
      have hentry := (he.entries _ hid).trans hx.entry
      by_cases hat : s' = s ∧ c.plToPrice o.level = p
      · -- the node of another order is still in the level that changes
        obtain ⟨rfl, hp⟩ := hat
        obtain ⟨l', hl', hn⟩ := hkeep l (hp ▸ hx.level) _ hx.node hid
        have hlevel : (b'.levels s').lookup (c.plToPrice o.level) = some l' := by
          rw [hp, he.level, hl']
        exact ⟨x, l', hentry, hx.side, hx.price, hx.qty, hlevel, hn⟩
      · have hlevel := (he.levels _ _ (not_and_or.mp hat)).trans hx.level
        exact ⟨x, l, hentry, hx.side, hx.price, hx.qty, hlevel, hx.node⟩
  · by_cases hk : k = id
    · subst hk
      exact hrest x (he.entry.symm.trans hx)
    · rw [he.entries k hk] at hx
      obtain ⟨s', o, ho, rfl⟩ := h.resting hx
      exact ⟨s', o, (hf.others hk).mpr ho, rfl⟩
  · by_cases hat : s' = s ∧ p' = p
    · obtain ⟨rfl, rfl⟩ := hat
      exact hnodes l (he.level.symm.trans hl)
    · rw [he.levels s' p' (not_and_or.mp hat)] at hl
      obtain ⟨hnd, hlt⟩ := h.nodes hl
      exact ⟨hnd, fun n hn => Nat.lt_of_lt_of_le (hlt n hn) he.fresh⟩

end Edits

/-! ## An order at its price -/

section Split

variable {c : Config} {a : Lob} {b : L3Book} {s : Slot} {o : Order} {x : L3Order} {l : L3PriceLevel}

/-- The orders before and behind an order at its price. -/
theorem atPrice_split (c : Config) (hd : a.Distinct) (ho : o ∈ a s) : ∃ pre post,
    atPrice c (a s) (c.plToPrice o.level) = pre ++ o :: post ∧
      (∀ y ∈ pre, y.orderId ≠ o.orderId) ∧ ∀ y ∈ post, y.orderId ≠ o.orderId := by
  obtain ⟨pre, post, he⟩ := List.append_of_mem (mem_atPrice.mpr ⟨ho, rfl⟩ :
    o ∈ atPrice c (a s) (c.plToPrice o.level))
  have hids : ((pre ++ o :: post).map Order.orderId).Nodup := by
    rw [← he]
    exact (hd.ids s).sublist (List.filter_sublist.map _)
  rw [List.map_append, List.map_cons, List.nodup_middle, List.nodup_cons] at hids
  refine ⟨pre, post, he, fun y hy e => hids.1 ?_, fun y hy e => hids.1 ?_⟩
  · exact List.mem_append_left _ (List.mem_map.mpr ⟨y, hy, e⟩)
  · exact List.mem_append_right _ (List.mem_map.mpr ⟨y, hy, e⟩)

/-- The nodes before and behind the node of an order. -/
theorem Holds.split (h : Holds c a b) (hd : a.Distinct) (ho : o ∈ a s) (hx : Listed c b s o x l) :
    ∃ pre post ns ns', atPrice c (a s) (c.plToPrice o.level) = pre ++ o :: post ∧
      (∀ y ∈ pre, y.orderId ≠ o.orderId) ∧ (∀ y ∈ post, y.orderId ≠ o.orderId) ∧
      l.queue = ns ++ (x.queuePos, o.orderId) :: ns' ∧
      ns.map Prod.snd = pre.map Order.orderId ∧ ns'.map Prod.snd = post.map Order.orderId ∧
      l.totalQty = ((pre ++ o :: post).map Order.qtyRemaining).sum := by
  obtain ⟨pre, post, hat, hpre, hpost⟩ := atPrice_split c hd ho
  have hview := h.views s (c.plToPrice o.level)
  rw [hx.level, hat, Option.map_some] at hview
  rw [viewOf_middle] at hview
  obtain ⟨hids, htotal⟩ := Prod.mk.inj (Option.some.inj hview)
  rw [List.map_append] at hids
  obtain ⟨ns, ns₁, hq, hns, hns₁⟩ := List.map_eq_append_iff.mp hids
  obtain ⟨n, ns', rfl, hn, hns'⟩ := List.map_eq_cons_iff.mp hns₁
  -- only the node in the middle can carry the order's id
  have hnode : n = (x.queuePos, o.orderId) := by
    have hmem := hx.node
    rw [hq] at hmem
    rcases List.mem_append.mp hmem with hm | hm
    · have : o.orderId ∈ pre.map Order.orderId := hns ▸ List.mem_map_of_mem hm
      obtain ⟨y, hy, e⟩ := List.mem_map.mp this
      exact absurd e (hpre y hy)
    · rcases List.mem_cons.mp hm with hm | hm
      · exact hm.symm
      · have : o.orderId ∈ post.map Order.orderId := hns' ▸ List.mem_map_of_mem hm
        obtain ⟨y, hy, e⟩ := List.mem_map.mp this
        exact absurd e (hpost y hy)
  exact ⟨pre, post, ns, ns', hat, hpre, hpost, hnode ▸ hq, hns, hns', htotal⟩

/-- An order that leaves takes its entry, its node and its quantity with it. -/
theorem Holds.remove (h : Holds c a b) (hd : a.Distinct) (ho : o ∈ a s) (hx : Listed c b s o x l)
    {b' : L3Book} (l' : L3PriceLevel) (hqueue : l'.queue = l.queue.filter fun n => n.1 ≠ x.queuePos)
    (htotal : l'.totalQty = l.totalQty - o.qtyRemaining)
    (he : Edit b b' o.orderId none s (c.plToPrice o.level) (if l'.queue = [] then none else some l')) :
    Holds c (a.remove o.orderId) b' := by
  obtain ⟨pre, post, ns, ns', hat, hpre, hpost, hq, hns, hns', hsum⟩ := h.split hd ho hx
  obtain ⟨hnd, hlt⟩ := h.nodes hx.level
  -- the queue of the level is cut at the order's node, and the two parts stay
  have hqueue' : l'.queue = ns ++ ns' := by
    rw [hq, List.map_append, List.map_cons, List.nodup_middle, List.nodup_cons] at hnd
    rw [hqueue, hq, List.filter_append, List.filter_cons_of_neg (by simp)]
    congr 1
    · refine List.filter_eq_self.mpr (fun n hn => ?_)
      have hne : n.1 ≠ x.queuePos := fun e =>
        hnd.1 (List.mem_append_left _ (List.mem_map.mpr ⟨n, hn, e⟩))
      simpa using hne
    · refine List.filter_eq_self.mpr (fun n hn => ?_)
      have hne : n.1 ≠ x.queuePos := fun e =>
        hnd.1 (List.mem_append_right _ (List.mem_map.mpr ⟨n, hn, e⟩))
      simpa using hne
  -- so is the list of its orders
  have hat' : atPrice c (a.remove o.orderId s) (c.plToPrice o.level) = pre ++ post := by
    rw [atPrice_remove, hat, List.filter_append, List.filter_cons_of_neg (by simp)]
    congr 1
    · exact List.filter_eq_self.mpr (fun y hy => by simpa using hpre y hy)
    · exact List.filter_eq_self.mpr (fun y hy => by simpa using hpost y hy)
  have hids : l'.queue.map Prod.snd = (pre ++ post).map Order.orderId := by
    rw [hqueue', List.map_append, hns, hns', List.map_append]
  have hempty : l'.queue = [] ↔ pre ++ post = [] := by
    rw [← List.map_eq_nil_iff (f := Prod.snd), hids, List.map_eq_nil_iff]
  -- nothing else is touched
  have hframe : Frame c a (a.remove o.orderId) o.orderId s (c.plToPrice o.level) := by
    refine ⟨fun hne => ?_, fun s' p' hp => ?_⟩
    · rw [Lob.mem_remove]
      exact ⟨And.left, fun hm => ⟨hm, hne⟩⟩
    · rw [atPrice_remove]
      refine List.filter_eq_self.mpr (fun y hy => ?_)
      obtain ⟨hy, hyp⟩ := mem_atPrice.mp hy
      have hne : y.orderId ≠ o.orderId := by
        intro e
        obtain ⟨rfl, rfl⟩ := hd.unique hy ho e
        rcases hp with hp | hp
        · exact hp rfl
        · exact hp hyp.symm
      simpa using hne
  -- the level that is left shows the two parts, or it is gone
  refine h.edit he hframe ?_ ?_ ?_ ?_ (fun _ hn => by cases hn)
  · rw [hat']
    cases hrest : pre ++ post with
    | nil => rw [if_pos (hempty.mpr hrest)]; rfl
    | cons y ys =>
      have hne : l'.queue ≠ [] := fun e => by rw [hempty.mp e] at hrest; cases hrest
      have hview : l'.view = ((y :: ys).map Order.orderId, ((y :: ys).map Order.qtyRemaining).sum) := by
        unfold L3PriceLevel.view
        rw [hids, htotal, hsum, ← hrest]
        congr 1
        rw [List.map_append, List.map_append, List.sum_append, List.sum_append, List.map_cons,
          List.sum_cons]
        omega
      rw [if_neg hne, Option.map_some, hview]
      rfl
  · intro l₀ hl₀
    split at hl₀
    · cases hl₀
    · obtain rfl := Option.some.inj hl₀
      rw [hqueue]
      refine ⟨hnd.sublist (List.filter_sublist.map _), fun n hn => ?_⟩
      exact Nat.lt_of_lt_of_le (hlt n (List.mem_filter.mp hn).1) he.fresh
  · intro l₀ hl₀ n hn hne
    obtain rfl := Option.some.inj (hx.level.symm.trans hl₀)
    have hmem : n ∈ l'.queue := by
      rw [hq] at hn
      rw [hqueue']
      rcases List.mem_append.mp hn with hn | hn
      · exact List.mem_append_left _ hn
      · rcases List.mem_cons.mp hn with rfl | hn
        · exact absurd rfl hne
        · exact List.mem_append_right _ hn
    exact ⟨l', if_neg (List.ne_nil_of_mem hmem), hmem⟩
  · intro s' y hy hid
    exact absurd hid (Lob.mem_remove.mp hy).2

/-- An order whose quantity changes keeps its node. -/
theorem Holds.resize (h : Holds c a b) (hd : a.Distinct) (ho : o ∈ a s) (hx : Listed c b s o x l)
    (q r : Nat) {b' : L3Book} (x' : L3Order) (l' : L3PriceLevel) (hqueue : l'.queue = l.queue)
    (htotal : l'.totalQty + o.qtyRemaining = l.totalQty + r)
    (hentry : x'.side = x.side ∧ x'.price = x.price ∧ x'.queuePos = x.queuePos ∧ x'.qtyRem = r)
    (he : Edit b b' o.orderId (some x') s (c.plToPrice o.level) (some l')) :
    Holds c (a.resize o.orderId q r) b' := by
  obtain ⟨pre, post, ns, ns', hat, hpre, hpost, hq, hns, hns', hsum⟩ := h.split hd ho hx
  obtain ⟨hside, hprice, hpos, hqty⟩ := hentry
  -- only this order has its id
  have hkeep : ∀ {ys : List Order}, (∀ y ∈ ys, y.orderId ≠ o.orderId) → (ys.map fun y =>
      if y.orderId = o.orderId then { y with qtyOriginal := q, qtyRemaining := r } else y) = ys := by
    intro ys hys
    refine (List.map_congr_left (fun y hy => ?_)).trans (List.map_id ys)
    exact if_neg (hys y hy)
  have hat' : atPrice c (a.resize o.orderId q r s) (c.plToPrice o.level) =
      pre ++ { o with qtyOriginal := q, qtyRemaining := r } :: post := by
    rw [atPrice_resize, hat, List.map_append, List.map_cons, hkeep hpre, hkeep hpost, if_pos rfl]
  -- nothing else is touched
  have hframe : Frame c a (a.resize o.orderId q r) o.orderId s (c.plToPrice o.level) := by
    refine ⟨fun {s' y} hne => ?_, fun s' p' hp => ?_⟩
    · constructor
      · intro hy
        obtain ⟨m, hm, hid, -, hsame⟩ := Lob.mem_resize hy
        exact hsame (fun e => hne (hid ▸ e)) ▸ hm
      · intro hy
        exact List.mem_map.mpr ⟨y, hy, if_neg hne⟩
    · rw [atPrice_resize]
      refine hkeep (fun y hy e => ?_)
      obtain ⟨hy, hyp⟩ := mem_atPrice.mp hy
      obtain ⟨rfl, rfl⟩ := hd.unique hy ho e
      rcases hp with hp | hp
      · exact hp rfl
      · exact hp hyp.symm
  have hself := Lob.mem_resize_self ho q r
  -- the queue stays, and the total changes by as much as the order
  refine h.edit he hframe ?_ ?_ ?_ ?_ (fun _ _ => ⟨s, _, hself, rfl⟩)
  · have hview : l'.view = ((pre ++ { o with qtyOriginal := q, qtyRemaining := r } :: post).map
          Order.orderId,
        ((pre ++ { o with qtyOriginal := q, qtyRemaining := r } :: post).map
          Order.qtyRemaining).sum) := by
      unfold L3PriceLevel.view
      rw [hqueue, hq, List.map_append, List.map_cons, hns, hns', List.map_append, List.map_cons,
        List.map_append, List.map_cons, List.sum_append, List.sum_cons]
      rw [hsum, List.map_append, List.map_cons, List.sum_append, List.sum_cons] at htotal
      congr 1
      show l'.totalQty = _ + (r + _)
      omega
    rw [hat', viewOf_middle, Option.map_some, hview]
  · intro l₀ hl₀
    obtain rfl := Option.some.inj hl₀
    obtain ⟨hnd, hlt⟩ := h.nodes hx.level
    rw [hqueue]
    exact ⟨hnd, fun n hn => Nat.lt_of_lt_of_le (hlt n hn) he.fresh⟩
  · intro l₀ hl₀ n hn _
    obtain rfl := Option.some.inj (hx.level.symm.trans hl₀)
    exact ⟨l', rfl, hqueue ▸ hn⟩
  · intro s' y hy hid
    obtain ⟨rfl, rfl⟩ := (hd.resize o.orderId q r).unique hy hself hid
    exact ⟨x', l', he.entry, hside.trans hx.side, hprice.trans hx.price, hqty, he.level,
      by rw [hqueue, hpos]; exact hx.node⟩

end Split

/-- A new order joins the end of the queue at its price. -/
theorem Holds.enter {c : Config} {a : Lob} {b b' : L3Book} {s : Slot} {o : Order} {x : L3Order}
    (h : Holds c a b) (hsorted : (a s).Pairwise fun x y => ¬ s.better y.level x.level)
    (hnew : ∀ s', ∀ y ∈ a s', y.orderId ≠ o.orderId)
    (hentry : x.side = s.side ∧ x.price = c.plToPrice o.level ∧ x.queuePos = b.nextNode ∧
      x.qtyRem = o.qtyRemaining)
    (he : Edit b b' o.orderId (some x) s (c.plToPrice o.level)
      (some ⟨(b.level s (c.plToPrice o.level)).totalQty + o.qtyRemaining,
        (b.level s (c.plToPrice o.level)).queue ++ [(b.nextNode, o.orderId)]⟩))
    (hnext : b.nextNode < b'.nextNode) : Holds c (Function.update a s (place s o (a s))) b' := by
  obtain ⟨hside, hprice, hpos, hqty⟩ := hentry
  have hmem : ∀ {s' : Slot} {y : Order}, y ∈ Function.update a s (place s o (a s)) s' ↔
      (s' = s ∧ y = o) ∨ y ∈ a s' := by
    intro s' y
    by_cases hs : s' = s
    · subst hs
      rw [Function.update_self, mem_place]
      tauto
    · rw [Function.update_of_ne hs]
      tauto
  have hframe : Frame c a (Function.update a s (place s o (a s))) o.orderId s
      (c.plToPrice o.level) := by
    refine ⟨fun {s' y} hne => ?_, fun s' p' hp => ?_⟩
    · rw [hmem]
      constructor
      · intro hy
        rcases hy with ⟨-, rfl⟩ | hy
        · exact absurd rfl hne
        · exact hy
      · exact Or.inr
    · by_cases hs : s' = s
      · subst hs
        have hp' : p' ≠ c.plToPrice o.level := hp.resolve_left (fun hne => hne rfl)
        rw [Function.update_self, atPrice_place hsorted, if_neg hp']
      · rw [Function.update_of_ne hs]
  -- what the level read as before, whether it was there or not
  have hbefore : (b.level s (c.plToPrice o.level)).view =
      ((atPrice c (a s) (c.plToPrice o.level)).map Order.orderId,
        ((atPrice c (a s) (c.plToPrice o.level)).map Order.qtyRemaining).sum) := by
    have hview := h.views s (c.plToPrice o.level)
    unfold L3Book.level
    cases hat : atPrice c (a s) (c.plToPrice o.level) with
    | nil =>
      rw [hat] at hview
      rw [Option.map_eq_none_iff.mp hview]
      rfl
    | cons y ys =>
      rw [hat] at hview
      obtain ⟨l, hl, hv⟩ := Option.map_eq_some_iff.mp hview
      rw [hl]
      exact hv
  obtain ⟨hids, htotal⟩ := Prod.mk.inj hbefore
  refine h.edit he hframe ?_ ?_ ?_ ?_ (fun _ _ => ⟨s, o, hmem.mpr (Or.inl ⟨rfl, rfl⟩), rfl⟩)
  · rw [Function.update_self, atPrice_place hsorted, if_pos rfl, viewOf_middle, Option.map_some]
    unfold L3PriceLevel.view
    dsimp only
    rw [List.map_append, hids, htotal, List.map_append, List.map_append, List.sum_append]
    rfl
  · intro l₀ hl₀
    obtain rfl := Option.some.inj hl₀
    have hold : ((b.level s (c.plToPrice o.level)).queue.map Prod.fst).Nodup ∧
        ∀ n ∈ (b.level s (c.plToPrice o.level)).queue, n.1 < b.nextNode := by
      unfold L3Book.level
      cases hl : (b.levels s).lookup (c.plToPrice o.level) with
      | none => exact ⟨List.nodup_nil, fun n hn => by cases hn⟩
      | some l => exact h.nodes hl
    dsimp only
    rw [List.map_append]
    refine ⟨List.Nodup.append hold.1 (List.nodup_singleton _) (fun k hk hk' => ?_), fun n hn => ?_⟩
    · obtain ⟨n, hn, rfl⟩ := List.mem_map.mp hk
      have hlt := hold.2 n hn
      have hlast : n.1 = b.nextNode := List.mem_singleton.mp hk'
      omega
    · rcases List.mem_append.mp hn with hn | hn
      · exact Nat.lt_trans (hold.2 n hn) hnext
      · rw [List.mem_singleton.mp hn]
        exact hnext
  · intro l₀ hl₀ n hn _
    refine ⟨_, rfl, List.mem_append_left _ ?_⟩
    unfold L3Book.level
    rw [hl₀]
    exact hn
  · intro s' y hy hid
    rcases hmem.mp hy with ⟨rfl, rfl⟩ | hy
    · exact ⟨x, _, he.entry, hside, hprice, hqty, he.level,
        List.mem_append_right _ (by rw [hpos]; exact List.mem_singleton_self _)⟩
    · exact absurd hid (hnew s' y hy)

end Exchange.MarketData
