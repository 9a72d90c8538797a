import Exchange.Oracle.Model
import Exchange.Book.Execute

/-!
# The reference matcher's state is the book

`Mirrors c a st`: the dictionaries of the matcher hold exactly the orders of
the book `a`. An order is found under its key with the price of its level, and
the queue at a price lists the keys of a side's orders of that price, in
priority order. The matcher's three edits (`remove_order`, the change of an
order in place, `add_order`) are the book's `remove`, `resize` and `place`.
-/

namespace Exchange.Oracle

/-- The key of an order id. -/
def keyOf (id : Nat) : Key := (clientIdOf id, orderIdOf id)

theorem keyOf_inj {x y : Nat} (hx : x < 2 ^ 64) (hy : y < 2 ^ 64) (h : keyOf x = keyOf y) : x = y := by
  have hc : clientIdOf x = clientIdOf y := congrArg Prod.fst h
  have ho : orderIdOf x = orderIdOf y := congrArg Prod.snd h
  rw [← combinedOrderId_parts hx, ← combinedOrderId_parts hy, hc, ho]

/-- The key of a combined id is its two parts. -/
theorem keyOf_combined (c o : UInt32) : keyOf (combinedOrderId c o) = (c, o) := by
  unfold keyOf
  rw [clientIdOf_combined, orderIdOf_combined]

/-- What the matcher keeps of an order. -/
def entryOf (c : Config) (s : Slot) (o : Order) : Entry where
  orderId := orderIdOf o.orderId
  clientId := clientIdOf o.orderId
  side := s.side
  price := c.plToPrice o.level
  qtyOriginal := o.qtyOriginal
  qtyRemaining := o.qtyRemaining

@[simp] theorem entryOf_key (c : Config) (s : Slot) (o : Order) :
    (entryOf c s o).key = keyOf o.orderId := rfl

/-- The keys of the orders at a price, in priority order. -/
def keysAt (c : Config) (l : List Order) (p : Int) : List Key :=
  (l.filter fun o => c.plToPrice o.level = p).map fun o => keyOf o.orderId

theorem keysAt_eq (c : Config) (l : List Order) (p : Int) :
    keysAt c l p = (atPrice c l p).map fun o => keyOf o.orderId := rfl

/-- The queue at a price, if there is one. -/
def queueAt (c : Config) (l : List Order) (p : Int) : Option (List Key) :=
  if keysAt c l p = [] then none else some (keysAt c l p)

/-- The matcher holds the orders of the book. -/
structure Mirrors (c : Config) (a : Lob) (st : Matcher) : Prop where
  active : ∀ k e, st.activeOrders.lookup k = some e ↔
    ∃ s, ∃ o ∈ a s, keyOf o.orderId = k ∧ entryOf c s o = e
  books : ∀ (s : Slot) (p : Int), (st.book (decide (s.side = .buy))).lookup p = queueAt c (a s) p

/-! ## The two books -/

namespace Matcher

@[simp] theorem book_setBook (st : Matcher) (x y : Bool) (b : AList (fun _ : Int => List Key)) :
    (st.setBook x b).book y = if y = x then b else st.book y := by
  cases x <;> cases y <;> rfl

@[simp] theorem setBook_active (st : Matcher) (x : Bool) (b : AList (fun _ : Int => List Key)) :
    (st.setBook x b).activeOrders = st.activeOrders := by
  cases x <;> rfl

@[simp] theorem setBook_responses (st : Matcher) (x : Bool) (b : AList (fun _ : Int => List Key)) :
    (st.setBook x b).responses = st.responses := by
  cases x <;> rfl

@[simp] theorem removeOrder_responses (st : Matcher) (k : Key) :
    (st.removeOrder k).responses = st.responses := by
  unfold removeOrder
  split
  · rfl
  · dsimp only
    split
    · rfl
    · exact setBook_responses ..

@[simp] theorem addOrder_responses (st : Matcher) (o : Entry) :
    (st.addOrder o).responses = st.responses :=
  setBook_responses ..

end Matcher

theorem side_buy_iff (s s' : Slot) :
    decide (s.side = .buy) = decide (s'.side = .buy) ↔ s = s' := by
  cases s <;> cases s' <;> decide

theorem not_side_buy (s : Slot) : (!decide (s.side = .buy)) = decide (s.flip.side = .buy) := by
  cases s <;> decide

/-- The relation does not look at the records. -/
theorem Mirrors.congr {c : Config} {a : Lob} {st st' : Matcher} (h : Mirrors c a st)
    (hactive : st'.activeOrders = st.activeOrders) (hbook : ∀ x, st'.book x = st.book x) :
    Mirrors c a st' :=
  ⟨by rw [hactive]; exact h.active, fun s p => by rw [hbook]; exact h.books s p⟩

theorem Mirrors.sendResp {c : Config} {a : Lob} {st : Matcher} (h : Mirrors c a st) (t : Tag)
    (o cl : UInt32) (s : Side) (p : Int) (q r : Nat) : Mirrors c a (st.sendResp t o cl s p q r) :=
  h.congr rfl (fun _ => rfl)

/-! ## Reading -/

section Reading

variable {c : Config} {a : Lob} {st : Matcher} {s : Slot} {o : Order}

/-- A resting order is found under its key. -/
theorem Mirrors.lookup_of_mem (h : Mirrors c a st) (ho : o ∈ a s) :
    st.activeOrders.lookup (keyOf o.orderId) = some (entryOf c s o) :=
  (h.active _ _).mpr ⟨s, o, ho, rfl, rfl⟩

/-- The matcher finds what the book finds. -/
theorem Mirrors.lookup_eq (h : Mirrors c a st) (hok : a.Ok c) {id : Nat} (hid : id < 2 ^ 64) :
    st.activeOrders.lookup (keyOf id) = (a.find id).map fun so => entryOf c so.1 so.2 := by
  cases hf : a.find id with
  | some so =>
    obtain ⟨s, o⟩ := so
    obtain ⟨hm, rfl⟩ := Lob.mem_of_find hf
    exact h.lookup_of_mem hm
  | none =>
    cases hl : st.activeOrders.lookup (keyOf id) with
    | none => rfl
    | some e =>
      obtain ⟨s, o, ho, hk, -⟩ := (h.active _ _).mp hl
      exact absurd (keyOf_inj (hok.sane ho).id hid hk) (Lob.find_eq_none hf ho)

/-- The keys at a price are those of the orders at it. -/
theorem mem_keysAt {l : List Order} {p : Int} {k : Key} :
    k ∈ keysAt c l p ↔ ∃ o ∈ l, c.plToPrice o.level = p ∧ keyOf o.orderId = k := by
  simp [keysAt, and_assoc]

/-- The prices of a side are those of its orders. -/
theorem Mirrors.mem_prices (h : Mirrors c a st) {p : Int} :
    p ∈ (st.book (decide (s.side = .buy))).keys ↔ ∃ o ∈ a s, c.plToPrice o.level = p := by
  rw [← AList.mem_keys, ← AList.lookup_isSome, h.books]
  unfold queueAt
  split
  · rename_i hnil
    constructor
    · intro hs
      cases hs
    · intro ho
      obtain ⟨o, ho, hp⟩ := ho
      have : keyOf o.orderId ∈ keysAt c (a s) p := mem_keysAt.mpr ⟨o, ho, hp, rfl⟩
      rw [hnil] at this
      cases this
  · rename_i hne
    obtain ⟨k, hk⟩ := List.exists_mem_of_ne_nil _ hne
    obtain ⟨o, ho, hp, -⟩ := mem_keysAt.mp hk
    exact ⟨fun _ => ⟨o, ho, hp⟩, fun _ => rfl⟩

end Reading

/-! ## Edits -/

section Edits

variable {c : Config} {a : Lob} {st : Matcher} {s : Slot} {o : Order}

/-- The keys of one side are distinct. -/
theorem keys_nodup (hd : a.Distinct) (s : Slot) (p : Int) : (keysAt c (a s) p).Nodup := by
  refine (List.nodup_map_iff_inj_on ((hd.nodup s).filter _)).mpr (fun x hx y hy hk => ?_)
  have hx' := (List.mem_filter.mp hx).1
  have hy' := (List.mem_filter.mp hy).1
  exact (hd.unique hx' hy' (keyOf_inj (hd.id hx') (hd.id hy') hk)).2

/-- Removing an order removes its key. -/
theorem keysAt_remove (hd : a.Distinct) (ho : o ∈ a s) (p : Int) :
    keysAt c (a.remove o.orderId s) p = (keysAt c (a s) p).erase (keyOf o.orderId) := by
  rw [(keys_nodup hd s p).erase_eq_filter, keysAt_eq, keysAt_eq, atPrice_remove, List.filter_map]
  congr 1
  refine List.filter_congr (fun x hx => ?_)
  have hx' := (mem_atPrice.mp hx).1
  have hkey : keyOf x.orderId = keyOf o.orderId ↔ x.orderId = o.orderId :=
    ⟨keyOf_inj (hd.id hx') (hd.id ho), fun e => by rw [e]⟩
  by_cases he : x.orderId = o.orderId
  · simp [he]
  · have : keyOf x.orderId ≠ keyOf o.orderId := fun hk => he (hkey.mp hk)
    simp [he, this]

/-- The keys stay when an order's quantities change. -/
theorem keysAt_resize (a : Lob) (id q r : Nat) (s : Slot) (p : Int) :
    keysAt c (a.resize id q r s) p = keysAt c (a s) p := by
  rw [keysAt_eq, keysAt_eq, atPrice_resize, List.map_map]
  refine List.map_congr_left (fun x _ => ?_)
  rw [Function.comp_apply]
  split <;> rfl

/-- `remove_order`. -/
theorem Mirrors.remove (h : Mirrors c a st) (hd : a.Distinct) (ho : o ∈ a s) :
    Mirrors c (a.remove o.orderId) (st.removeOrder (keyOf o.orderId)) := by
  have hmem : keyOf o.orderId ∈ keysAt c (a s) (c.plToPrice o.level) :=
    mem_keysAt.mpr ⟨o, ho, rfl, rfl⟩
  have hqueue : (st.book (decide (s.side = .buy))).lookup (c.plToPrice o.level) =
      some (keysAt c (a s) (c.plToPrice o.level)) := by
    rw [h.books]
    exact if_neg (List.ne_nil_of_mem hmem)
  have hrun : st.removeOrder (keyOf o.orderId) =
      { st.setBook (decide (s.side = .buy))
          (if keysAt c (a.remove o.orderId s) (c.plToPrice o.level) = [] then
            (st.book (decide (s.side = .buy))).erase (c.plToPrice o.level)
          else (st.book (decide (s.side = .buy))).insert (c.plToPrice o.level)
            (keysAt c (a.remove o.orderId s) (c.plToPrice o.level))) with
        activeOrders := st.activeOrders.erase (keyOf o.orderId) } := by
    have hl := h.lookup_of_mem ho
    have hside : (entryOf c s o).side = s.side := rfl
    have hprice : (entryOf c s o).price = c.plToPrice o.level := rfl
    unfold Matcher.removeOrder
    rw [hl]
    dsimp only
    rw [hside, hprice, hqueue, keysAt_remove hd ho]
    simp only [Matcher.setBook_active]
  rw [hrun]
  constructor
  · intro k e
    show (st.activeOrders.erase (keyOf o.orderId)).lookup k = some e ↔ _
    by_cases hk : k = keyOf o.orderId
    · rw [hk, AList.lookup_erase]
      constructor
      · intro hn
        cases hn
      · intro hx
        obtain ⟨s', x, hx, hkey, -⟩ := hx
        obtain ⟨hx, hne⟩ := Lob.mem_remove.mp hx
        exact absurd (keyOf_inj (hd.id hx) (hd.id ho) hkey) hne
    · rw [AList.lookup_erase_ne hk, h.active]
      constructor
      · intro hx
        obtain ⟨s', x, hx, hkey, he⟩ := hx
        refine ⟨s', x, Lob.mem_remove.mpr ⟨hx, fun hid => hk ?_⟩, hkey, he⟩
        rw [← hkey, hid]
      · intro hx
        obtain ⟨s', x, hx, hkey, he⟩ := hx
        exact ⟨s', x, (Lob.mem_remove.mp hx).1, hkey, he⟩
  · intro s' p
    show ((st.setBook (decide (s.side = .buy)) _).book (decide (s'.side = .buy))).lookup p = _
    rw [Matcher.book_setBook]
    by_cases hs : s' = s
    · subst hs
      rw [if_pos rfl]
      by_cases hp : p = c.plToPrice o.level
      · rw [hp]
        unfold queueAt
        split
        · rw [AList.lookup_erase]
        · rw [AList.lookup_insert]
      · -- the queues at other prices stay
        have hkeep : queueAt c (a.remove o.orderId s') p = queueAt c (a s') p := by
          have hnot : keyOf o.orderId ∉ keysAt c (a s') p := by
            intro hk
            obtain ⟨x, hx, hxp, hkey⟩ := mem_keysAt.mp hk
            have he := (hd.unique hx ho (keyOf_inj (hd.id hx) (hd.id ho) hkey)).2
            exact hp (by rw [← hxp, he])
          unfold queueAt
          rw [keysAt_remove hd ho, List.erase_of_not_mem hnot]
        rw [hkeep, ← h.books]
        split
        · rw [AList.lookup_erase_ne hp]
        · rw [AList.lookup_insert_ne hp]
    · rw [if_neg (fun e => hs ((side_buy_iff s' s).mp e)), h.books, hd.remove_ne ho hs]

/-- An order changed in place. -/
theorem Mirrors.resize (h : Mirrors c a st) (hd : a.Distinct) (ho : o ∈ a s) (q r : Nat) :
    Mirrors c (a.resize o.orderId q r) { st with
      activeOrders := st.activeOrders.insert (keyOf o.orderId)
        { entryOf c s o with qtyOriginal := q, qtyRemaining := r } } := by
  constructor
  · intro k e
    show (st.activeOrders.insert _ _).lookup k = some e ↔ _
    by_cases hk : k = keyOf o.orderId
    · rw [hk, AList.lookup_insert]
      constructor
      · intro he
        refine ⟨s, _, List.mem_map_of_mem ho, ?_, ?_⟩
        · rw [if_pos rfl]
        · rw [if_pos rfl, ← Option.some.inj he]
          rfl
      · intro hx
        obtain ⟨s', y, hy, hkey, rfl⟩ := hx
        obtain ⟨x, hx, rfl⟩ := List.mem_map.mp hy
        have hid : x.orderId = o.orderId := by
          refine keyOf_inj (hd.id hx) (hd.id ho) (Eq.trans ?_ hkey)
          split <;> rfl
        obtain ⟨rfl, rfl⟩ := hd.unique hx ho hid
        rw [if_pos rfl]
        rfl
    · rw [AList.lookup_insert_ne hk, h.active]
      constructor
      · intro hx
        obtain ⟨s', x, hx, hkey, he⟩ := hx
        have hid : x.orderId ≠ o.orderId := fun hid => hk (by rw [← hkey, hid])
        exact ⟨s', x, List.mem_map.mpr ⟨x, hx, if_neg hid⟩, hkey, he⟩
      · intro hx
        obtain ⟨s', y, hy, hkey, he⟩ := hx
        obtain ⟨x, hx, rfl⟩ := List.mem_map.mp hy
        have hid : x.orderId ≠ o.orderId := by
          intro hid
          rw [if_pos hid] at hkey
          exact hk (by rw [← hkey, ← hid])
        rw [if_neg hid] at hkey he
        exact ⟨s', x, hx, hkey, he⟩
  · intro s' p
    unfold queueAt
    rw [keysAt_resize]
    exact h.books s' p

/-- `add_order`: the order joins the end of its price's queue. -/
theorem Mirrors.add (h : Mirrors c a st) (hd : a.Distinct)
    (hsorted : (a s).Pairwise fun x y => ¬ s.better y.level x.level) (hid : o.orderId < 2 ^ 64)
    (hnew : ∀ s', ∀ x ∈ a s', x.orderId ≠ o.orderId) :
    Mirrors c (Function.update a s (place s o (a s))) (st.addOrder (entryOf c s o)) := by
  -- no other order has its key
  have hkeys : ∀ {s' : Slot} {x : Order}, x ∈ a s' → keyOf x.orderId ≠ keyOf o.orderId :=
    fun hx hk => hnew _ _ hx (keyOf_inj (hd.id hx) hid hk)
  have hmem : ∀ {s' : Slot} {x : Order}, x ∈ Function.update a s (place s o (a s)) s' ↔
      (s' = s ∧ x = o) ∨ x ∈ a s' := by
    intro s' x
    by_cases hs : s' = s
    · subst hs
      rw [Function.update_self, mem_place]
      tauto
    · rw [Function.update_of_ne hs]
      tauto
  -- it goes to the end of its level's queue, in both
  have hplace : ∀ p, keysAt c (place s o (a s)) p =
      if p = c.plToPrice o.level then keysAt c (a s) p ++ [keyOf o.orderId]
      else keysAt c (a s) p := by
    intro p
    rw [keysAt_eq, keysAt_eq, atPrice_place hsorted]
    split
    · rw [List.map_append]
      rfl
    · rfl
  have hlookup : ((st.book (decide (s.side = .buy))).lookup (c.plToPrice o.level)).getD [] =
      keysAt c (a s) (c.plToPrice o.level) := by
    rw [h.books]
    unfold queueAt
    split
    · rename_i hnil
      rw [hnil]
      rfl
    · rfl
  have hrun : st.addOrder (entryOf c s o) =
      Matcher.setBook { st with
          activeOrders := st.activeOrders.insert (keyOf o.orderId) (entryOf c s o) }
        (decide (s.side = .buy)) ((st.book (decide (s.side = .buy))).insert (c.plToPrice o.level)
          (keysAt c (a s) (c.plToPrice o.level) ++ [keyOf o.orderId])) := by
    rw [← hlookup]
    rfl
  rw [hrun]
  constructor
  -- the entries: one more
  · intro k e
    rw [Matcher.setBook_active]
    by_cases hk : k = keyOf o.orderId
    · rw [hk]
      show (st.activeOrders.insert _ _).lookup _ = some e ↔ _
      rw [AList.lookup_insert]
      constructor
      · intro he
        exact ⟨s, o, hmem.mpr (Or.inl ⟨rfl, rfl⟩), rfl, Option.some.inj he⟩
      · intro hx
        obtain ⟨s', x, hx, hkey, he⟩ := hx
        rcases hmem.mp hx with ⟨rfl, rfl⟩ | hx
        · rw [he]
        · exact absurd hkey (hkeys hx)
    · show (st.activeOrders.insert _ _).lookup _ = some e ↔ _
      rw [AList.lookup_insert_ne hk, h.active]
      constructor
      · intro hx
        obtain ⟨s', x, hx, hkey, he⟩ := hx
        exact ⟨s', x, hmem.mpr (Or.inr hx), hkey, he⟩
      · intro hx
        obtain ⟨s', x, hx, hkey, he⟩ := hx
        rcases hmem.mp hx with ⟨rfl, rfl⟩ | hx
        · exact absurd hkey.symm hk
        · exact ⟨s', x, hx, hkey, he⟩
  -- the queues: one is longer
  · intro s' p
    rw [Matcher.book_setBook]
    by_cases hs : s' = s
    · subst hs
      rw [if_pos rfl, Function.update_self]
      unfold queueAt
      rw [hplace]
      by_cases hp : p = c.plToPrice o.level
      · rw [if_pos hp, if_neg (by simp), hp, AList.lookup_insert]
      · rw [if_neg hp, AList.lookup_insert_ne hp, h.books]
        rfl
    · rw [if_neg (fun e => hs ((side_buy_iff s' s).mp e)), Function.update_of_ne hs]
      exact h.books s' p

end Edits

end Exchange.Oracle
