import Exchange.Book.Runs

/-!
# What an execution does to the orders

Facts about `sweep`, `place` and `Lob.execute` that the run invariants share:
which orders are in the book afterwards and what became of them, and which
kinds of records were sent.
-/

namespace Exchange

@[simp] theorem Order.fill_orderId (o : Order) (k : Nat) : (o.fill k).orderId = o.orderId := rfl

/-- An order that joins a queue is one more of the same orders. -/
theorem mem_place {s : Slot} {o x : Order} : ∀ {l : List Order}, x ∈ place s o l ↔ x = o ∨ x ∈ l
  | [] => by simp [place]
  | y :: l => by
    rw [place]
    split
    · simp
    · rw [List.mem_cons, mem_place, List.mem_cons]
      tauto

/-- No order of a side is better than the first. -/
theorem head_best {s : Slot} {m : Order} {ms : List Order}
    (h : (m :: ms).Pairwise fun x y => ¬ s.better y.level x.level) :
    ∀ o ∈ m :: ms, ¬ s.better o.level m.level := by
  intro o ho
  rcases List.mem_cons.mp ho with rfl | ho
  · exact Slot.better_irrefl _ _
  · exact (List.pairwise_cons.mp h).1 o ho

/-- A placed order is the last of its level. -/
theorem place_filter {s : Slot} {o : Order} :
    ∀ {l : List Order}, l.Pairwise (fun x y => ¬ s.better y.level x.level) →
      (place s o l).filter (fun x => x.level = o.level) =
        l.filter (fun x => x.level = o.level) ++ [o]
  | [], _ => by simp [place]
  | x :: l, hs => by
    obtain ⟨hsx, hsl⟩ := List.pairwise_cons.mp hs
    rw [place]
    split
    · rename_i hb
      -- everything from here on is worse, so none of it is at the order's level
      have hnone : (x :: l).filter (fun x => x.level = o.level) = [] := by
        refine List.filter_eq_nil_iff.mpr (fun y hy => ?_)
        have hby : s.better o.level y.level := by
          rcases List.mem_cons.mp hy with rfl | hy
          · exact hb
          · exact Slot.better_of_not_better hb (hsx y hy)
        have hne : y.level ≠ o.level := fun e => Slot.better_irrefl s _ (e ▸ hby)
        simpa using hne
      rw [List.filter_cons_of_pos (by simp), hnone, List.nil_append]
    · rw [List.filter_cons, List.filter_cons, place_filter hsl]
      split <;> rfl

/-- The other levels do not change. -/
theorem place_filter_ne {s : Slot} {o : Order} {i : Nat} (hi : o.level ≠ i) :
    ∀ l : List Order, (place s o l).filter (fun x => x.level = i) = l.filter (fun x => x.level = i)
  | [] => by simp [place, hi]
  | x :: l => by
    rw [place]
    split
    · rw [List.filter_cons_of_neg (by simpa using hi)]
    · rw [List.filter_cons, List.filter_cons, place_filter_ne hi l]

/-- A maker that is still there after a sweep is there as it was, or filled in
part. -/
theorem mem_sweep_rest {x : Nat → Bool} {y : Order} (ms : List Order) (r : Nat) :
    y ∈ (sweep x r ms).rest → ∃ m ∈ ms, ∃ k, (k = 0 ∨ k < m.qtyRemaining) ∧ y = m.fill k := by
  refine sweep_induction (P := fun _ ms w => y ∈ w.rest →
    ∃ m ∈ ms, ∃ k, (k = 0 ∨ k < m.qtyRemaining) ∧ y = m.fill k) (fun _ h => absurd h (by simp))
    (fun r m ms _ h => ⟨y, h, 0, Or.inl rfl, rfl⟩) (fun r m ms w _ _ _ ih h => ?_)
    (fun r m ms _ _ hlt h => ?_) ms r
  · obtain ⟨m', hm', hk⟩ := ih h
    exact ⟨m', List.mem_cons_of_mem _ hm', hk⟩
  · rcases List.mem_cons.mp h with rfl | h
    · exact ⟨m, List.mem_cons_self, r, Or.inr hlt, rfl⟩
    · exact ⟨y, List.mem_cons_of_mem _ h, 0, Or.inl rfl, rfl⟩

/-- What a sweep leaves is the back of what it was given, by id and level. -/
theorem sweep_rest_suffix {x : Nat → Bool} (ms : List Order) (r : Nat) :
    ((sweep x r ms).rest.map fun o => (o.orderId, o.level)) <:+
      ms.map fun o => (o.orderId, o.level) := by
  refine sweep_induction (P := fun _ ms w => (w.rest.map fun o => (o.orderId, o.level)) <:+
    ms.map fun o => (o.orderId, o.level)) (fun _ => List.suffix_rfl) (fun _ _ _ _ => List.suffix_rfl)
    (fun r m ms w _ _ _ ih => ?_) (fun _ _ _ _ _ _ => List.suffix_rfl) ms r
  exact ih.trans (List.suffix_cons _ _)

/-- A sweep trades with makers it was given. -/
theorem mem_sweep_fills {x : Nat → Bool} {f : Fill} (ms : List Order) (r : Nat) :
    f ∈ (sweep x r ms).fills → f.maker ∈ ms := by
  refine sweep_induction (P := fun _ ms w => f ∈ w.fills → f.maker ∈ ms)
    (fun _ h => absurd h (by simp)) (fun _ _ _ _ h => absurd h (by simp))
    (fun r m ms w _ _ _ ih h => ?_) (fun r m ms _ _ _ h => ?_) ms r
  · rcases List.mem_cons.mp h with rfl | h
    · exact List.mem_cons_self
    · exact List.mem_cons_of_mem _ (ih h)
  · rw [List.mem_singleton.mp h]
    exact List.mem_cons_self

/-- What is traded and what is left make up the taker's quantity. -/
theorem sweep_total {x : Nat → Bool} (ms : List Order) (r : Nat) :
    ((sweep x r ms).fills.map Fill.qty).sum + (sweep x r ms).left = r := by
  refine sweep_induction (P := fun r _ w => (w.fills.map Fill.qty).sum + w.left = r)
    (fun r => Nat.zero_add r) (fun r _ _ _ => Nat.zero_add r) (fun r m ms w _ _ hle ih => ?_)
    (fun r m ms _ _ _ => ?_) ms r
  · simp only [List.map_cons, List.sum_cons]
    omega
  · simp

namespace Lob

/-- The opposite side after an execution. -/
theorem execute_flip (c : Config) (gen : Nat → Nat) (a : Lob) (s : Slot) (t : Order) (idx : Nat) :
    (a.execute c gen s t idx).lob s.flip =
      (sweep (State.crossed s idx) t.qtyRemaining (a s.flip)).rest := by
  unfold execute
  dsimp only
  split
  · exact Function.update_self ..
  · rw [Function.update_of_ne (Slot.flip_ne s), Function.update_self]

/-- The taker's side after an execution. -/
theorem execute_self (c : Config) (gen : Nat → Nat) (a : Lob) (s : Slot) (t : Order) (idx : Nat) :
    (a.execute c gen s t idx).lob s =
      if (sweep (State.crossed s idx) t.qtyRemaining (a s.flip)).left = 0 then a s
      else place s { t with
        priceLevel := some idx
        qtyRemaining := (sweep (State.crossed s idx) t.qtyRemaining (a s.flip)).left } (a s) := by
  unfold execute
  dsimp only
  split
  · exact Function.update_of_ne (Slot.ne_flip s) _ _
  · exact Function.update_self ..

/-- The orders of a book after an execution. -/
theorem mem_execute (c : Config) (gen : Nat → Nat) {a : Lob} {s s' : Slot} {t x : Order} {idx : Nat}
    (h : x ∈ (a.execute c gen s t idx).lob s') :
    (∃ m ∈ a s', ∃ k, (k = 0 ∨ k < m.qtyRemaining) ∧ x = m.fill k) ∨
      (s' = s ∧ x.orderId = t.orderId) := by
  by_cases hs : s' = s
  · subst hs
    rw [execute_self] at h
    split at h
    · exact Or.inl ⟨x, h, 0, Or.inl rfl, rfl⟩
    · rcases mem_place.mp h with rfl | h
      · exact Or.inr ⟨rfl, rfl⟩
      · exact Or.inl ⟨x, h, 0, Or.inl rfl, rfl⟩
  · obtain rfl : s' = s.flip := Slot.eq_flip hs
    rw [execute_flip] at h
    exact Or.inl (mem_sweep_rest _ _ h)

/-- A taker that has nothing left or crosses nothing is placed as it is. -/
theorem execute_stop (c : Config) (gen : Nat → Nat) {a : Lob} {s : Slot} {t : Order} {idx : Nat}
    (h : t.qtyRemaining = 0 ∨ (a s.flip).head?.any (fun o => State.crossed s idx o.level) = false) :
    (a.execute c gen s t idx).recs = [] ∧ (a.execute c gen s t idx).lob =
      if t.qtyRemaining = 0 then a
      else Function.update a s (place s { t with priceLevel := some idx } (a s)) := by
  have hsweep : sweep (State.crossed s idx) t.qtyRemaining (a s.flip) =
      ⟨[], a s.flip, t.qtyRemaining⟩ := by
    cases hm : a s.flip with
    | nil => rfl
    | cons m ms =>
      rw [hm] at h
      exact sweep_stop h
  unfold execute
  rw [hsweep]
  dsimp only
  rw [Function.update_eq_self]
  exact ⟨rfl, rfl⟩

/-- A taker that fills its first maker goes on with the rest. -/
theorem execute_filled (c : Config) (gen : Nat → Nat) {a : Lob} {s : Slot} {t : Order} {idx : Nat}
    {m : Order} {ms : List Order} (hm : a s.flip = m :: ms) (hr : t.qtyRemaining ≠ 0)
    (hx : State.crossed s idx m.level = true) (hle : m.qtyRemaining ≤ t.qtyRemaining) :
    let next := Lob.execute c (fun k => gen (k + 1)) (Function.update a s.flip ms) s
      (t.fill m.qtyRemaining) idx
    (a.execute c gen s t idx).recs =
        tradeRecords c t.orderId s gen [⟨m, m.qtyRemaining, t.qtyRemaining - m.qtyRemaining⟩] ++
          next.recs ∧
      (a.execute c gen s t idx).lob = next.lob := by
  intro next
  have hnext : next = Lob.execute c (fun k => gen (k + 1)) (Function.update a s.flip ms) s
    (t.fill m.qtyRemaining) idx := rfl
  rw [hnext]
  unfold execute
  rw [hm, sweep_filled hr hx hle, Function.update_self, Function.update_of_ne (Slot.ne_flip s)]
  dsimp only [Order.fill]
  rw [Function.update_idem]
  exact ⟨rfl, rfl⟩

/-- A taker that its first maker absorbs. -/
theorem execute_part (c : Config) (gen : Nat → Nat) {a : Lob} {s : Slot} {t : Order} {idx : Nat}
    {m : Order} {ms : List Order} (hm : a s.flip = m :: ms) (hr : t.qtyRemaining ≠ 0)
    (hx : State.crossed s idx m.level = true) (hlt : t.qtyRemaining < m.qtyRemaining) :
    (a.execute c gen s t idx).recs = tradeRecords c t.orderId s gen [⟨m, t.qtyRemaining, 0⟩] ∧
      (a.execute c gen s t idx).lob =
        Function.update a s.flip (m.fill t.qtyRemaining :: ms) := by
  unfold execute
  rw [hm, sweep_part hr hx hlt]
  exact ⟨rfl, rfl⟩

/-- Taking an order out leaves those with other ids. -/
theorem mem_remove {a : Lob} {id : Nat} {s : Slot} {o : Order} :
    o ∈ a.remove id s ↔ o ∈ a s ∧ o.orderId ≠ id := by
  simp [remove, List.mem_filter]

/-- A book without one of its orders is still a book. -/
theorem Ok.remove {c : Config} {a : Lob} (h : a.Ok c) (id : Nat) : (a.remove id).Ok c := by
  refine ⟨fun ho ho' => h.unique (mem_remove.mp ho).1 (mem_remove.mp ho').1,
    fun s => (h.nodup s).filter _, fun ho => h.level (mem_remove.mp ho).1,
    fun ho => h.sane (mem_remove.mp ho).1, fun s => (h.sorted s).filter _, fun hx hy => ?_⟩
  exact h.uncrossed (mem_remove.mp hx).1 (mem_remove.mp hy).1

/-- Removing an order does not touch the other side. -/
theorem Ok.remove_flip {c : Config} {a : Lob} (h : a.Ok c) {s : Slot} {o : Order} (ho : o ∈ a s) :
    a.remove o.orderId s.flip = a s.flip := by
  unfold Lob.remove
  refine List.filter_eq_self.mpr (fun x hx => ?_)
  have hne : x.orderId ≠ o.orderId := fun e => Slot.flip_ne s (h.unique hx ho e).1
  simpa using hne

/-- A resting order's level does not cross the other side. -/
theorem Ok.uncrossed_head {c : Config} {a : Lob} (h : a.Ok c) {s : Slot} {o : Order} (ho : o ∈ a s) :
    (a s.flip).head?.any (fun x => State.crossed s o.level x.level) = false := by
  cases hm : a s.flip with
  | nil => rfl
  | cons m ms =>
    have hmem : m ∈ a s.flip := hm ▸ List.mem_cons_self
    rw [List.head?_cons, Option.any_some]
    cases s
    · have := h.uncrossed ho hmem
      simp only [State.crossed, decide_eq_false_iff_not]
      omega
    · have := h.uncrossed hmem ho
      simp only [State.crossed, decide_eq_false_iff_not]
      omega

/-- The ids of one side are distinct. -/
theorem Ok.ids_nodup {c : Config} {a : Lob} (h : a.Ok c) (s : Slot) :
    ((a s).map Order.orderId).Nodup :=
  (List.nodup_map_iff_inj_on (h.nodup s)).mpr (fun _ ho _ ho' e => (h.unique ho ho' e).2)

/-- An order of a resized book has the id and level of one that was there. -/
theorem mem_resize {a : Lob} {id q r : Nat} {s : Slot} {o : Order} (h : o ∈ a.resize id q r s) :
    ∃ m ∈ a s, m.orderId = o.orderId ∧ m.level = o.level ∧ (m.orderId ≠ id → m = o) := by
  obtain ⟨m, hm, rfl⟩ := List.mem_map.mp h
  refine ⟨m, hm, ?_, ?_, fun hne => (if_neg hne).symm⟩ <;> split <;> rfl

/-- The order itself, with its new quantities. -/
theorem mem_resize_self {a : Lob} {s : Slot} {o : Order} (ho : o ∈ a s) (q r : Nat) :
    { o with qtyOriginal := q, qtyRemaining := r } ∈ a.resize o.orderId q r s :=
  List.mem_map.mpr ⟨o, ho, if_pos rfl⟩

/-- An order that leaves may be rewritten first. -/
theorem remove_resize (a : Lob) (id q r : Nat) : (a.resize id q r).remove id = a.remove id := by
  funext s
  unfold remove resize
  induction a s with
  | nil => rfl
  | cons x l ih =>
    rw [List.map_cons]
    by_cases hx : x.orderId = id
    · rw [if_pos hx, List.filter_cons_of_neg (by simp [hx]), List.filter_cons_of_neg (by simp [hx]),
        ih]
    · rw [if_neg hx, List.filter_cons_of_pos (by simp [hx]), List.filter_cons_of_pos (by simp [hx]),
        ih]

end Lob

/-! ## Orders told apart by their ids -/

/-- A book whose orders are told apart by their ids. -/
structure Lob.Distinct (a : Lob) : Prop where
  ids : ∀ s, ((a s).map Order.orderId).Nodup
  apart : ∀ {s s' o o'}, o ∈ a s → o' ∈ a s' → o.orderId = o'.orderId → s = s'
  id : ∀ {s o}, o ∈ a s → o.orderId < 2 ^ 64

namespace Lob.Distinct

variable {a : Lob} {s : Slot} {o : Order}

theorem of_ok {c : Config} (h : a.Ok c) : Distinct a :=
  ⟨h.ids_nodup, fun ho ho' he => (h.unique ho ho' he).1, fun ho => (h.sane ho).id⟩

/-- One order for each id, on one side. -/
theorem unique (h : Distinct a) {s' : Slot} {o' : Order} (ho : o ∈ a s) (ho' : o' ∈ a s')
    (he : o.orderId = o'.orderId) : s = s' ∧ o = o' := by
  obtain rfl := h.apart ho ho' he
  exact ⟨rfl, List.inj_on_of_nodup_map (h.ids s) ho ho' he⟩

theorem nodup (h : Distinct a) (s : Slot) : (a s).Nodup := (h.ids s).of_map _

theorem remove (h : Distinct a) (id : Nat) : Distinct (a.remove id) :=
  ⟨fun s => (h.ids s).sublist (List.filter_sublist.map _),
    fun ho ho' => h.apart (mem_remove.mp ho).1 (mem_remove.mp ho').1,
    fun ho => h.id (mem_remove.mp ho).1⟩

theorem resize (h : Distinct a) (id q r : Nat) : Distinct (a.resize id q r) := by
  refine ⟨fun s => ?_, fun ho ho' he => ?_, fun ho => ?_⟩
  · have hids : (a.resize id q r s).map Order.orderId = (a s).map Order.orderId := by
      unfold Lob.resize
      rw [List.map_map]
      refine List.map_congr_left (fun x _ => ?_)
      rw [Function.comp_apply]
      split <;> rfl
    rw [hids]
    exact h.ids s
  · obtain ⟨m, hm, hid, -⟩ := mem_resize ho
    obtain ⟨m', hm', hid', -⟩ := mem_resize ho'
    exact h.apart hm hm' (by rw [hid, hid', he])
  · obtain ⟨m, hm, hid, -⟩ := mem_resize ho
    rw [← hid]
    exact h.id hm

/-- The orders a sweep leaves are still apart. -/
theorem sweep (h : Distinct a) (s : Slot) (x : Nat → Bool) (r : Nat) :
    Distinct (Function.update a s (Exchange.sweep x r (a s)).rest) := by
  have hold : ∀ {s' o}, o ∈ Function.update a s (Exchange.sweep x r (a s)).rest s' →
      ∃ m ∈ a s', m.orderId = o.orderId := by
    intro s' o ho
    by_cases hs : s' = s
    · subst hs
      rw [Function.update_self] at ho
      obtain ⟨m, hm, k, -, rfl⟩ := mem_sweep_rest _ _ ho
      exact ⟨m, hm, rfl⟩
    · rw [Function.update_of_ne hs] at ho
      exact ⟨o, ho, rfl⟩
  refine ⟨fun s' => ?_, fun ho ho' he => ?_, fun ho => ?_⟩
  · by_cases hs : s' = s
    · subst hs
      rw [Function.update_self]
      have hsuf := (sweep_rest_suffix (x := x) (a s') r).sublist.map Prod.fst
      rw [List.map_map, List.map_map] at hsuf
      exact (h.ids s').sublist hsuf
    · rw [Function.update_of_ne hs]
      exact h.ids s'
  · obtain ⟨m, hm, hid⟩ := hold ho
    obtain ⟨m', hm', hid'⟩ := hold ho'
    exact h.apart hm hm' (by rw [hid, hid', he])
  · obtain ⟨m, hm, hid⟩ := hold ho
    rw [← hid]
    exact h.id hm

/-- Rewriting an order with what it has changes nothing. -/
theorem resize_self (h : Distinct a) (ho : o ∈ a s) :
    a.resize o.orderId o.qtyOriginal o.qtyRemaining = a := by
  funext s'
  refine (List.map_congr_left (fun x hx => ?_)).trans (List.map_id (a s'))
  split
  · rename_i he
    obtain ⟨-, rfl⟩ := h.unique hx ho he
    rfl
  · rfl

/-- An order is on one side only, so taking it out leaves the other. -/
theorem remove_ne (h : Distinct a) (ho : o ∈ a s) {s' : Slot} (hs : s' ≠ s) :
    a.remove o.orderId s' = a s' := by
  unfold Lob.remove
  refine List.filter_eq_self.mpr (fun x hx => ?_)
  have hne : x.orderId ≠ o.orderId := fun e => hs (h.apart hx ho e)
  simpa using hne

section Head

variable {m : Order} {ms : List Order}

/-- No other order has the id of the first one of a queue. -/
theorem head_ne (h : Distinct a) (hm : a s = m :: ms) {s' : Slot} {x : Order} (hx : x ∈ a s')
    (hne : s' ≠ s ∨ x ∈ ms) : x.orderId ≠ m.orderId := by
  intro he
  have hmem : m ∈ a s := hm ▸ List.mem_cons_self
  rcases hne with hs | hx'
  · exact hs (h.apart hx hmem he)
  · have hids := h.ids s
    rw [hm, List.map_cons] at hids
    exact (List.nodup_cons.mp hids).1 (he ▸ List.mem_map_of_mem hx')

/-- Removing a side's first order. -/
theorem remove_head (h : Distinct a) (hm : a s = m :: ms) :
    a.remove m.orderId = Function.update a s ms := by
  funext s'
  by_cases hs : s' = s
  · subst hs
    rw [Function.update_self]
    unfold Lob.remove
    rw [hm, List.filter_cons_of_neg (by simp)]
    refine List.filter_eq_self.mpr (fun x hx => ?_)
    have hne := h.head_ne hm (hm ▸ List.mem_cons_of_mem _ hx) (Or.inr hx)
    simpa using hne
  · rw [Function.update_of_ne hs, h.remove_ne (hm ▸ List.mem_cons_self) hs]

/-- Rewriting a side's first order. -/
theorem resize_head (h : Distinct a) (hm : a s = m :: ms) (q r : Nat) :
    a.resize m.orderId q r =
      Function.update a s ({ m with qtyOriginal := q, qtyRemaining := r } :: ms) := by
  have hkeep : ∀ l : List Order, (∀ x ∈ l, x.orderId ≠ m.orderId) → (l.map fun o =>
      if o.orderId = m.orderId then { o with qtyOriginal := q, qtyRemaining := r } else o) = l := by
    intro l hl
    refine (List.map_congr_left (fun x hx => ?_)).trans (List.map_id l)
    exact if_neg (hl x hx)
  funext s'
  unfold Lob.resize
  by_cases hs : s' = s
  · subst hs
    rw [Function.update_self, hm, List.map_cons, if_pos rfl, hkeep]
    exact fun x hx => h.head_ne hm (hm ▸ List.mem_cons_of_mem _ hx) (Or.inr hx)
  · rw [Function.update_of_ne hs, hkeep]
    exact fun x hx => h.head_ne hm hx (Or.inl hs)

end Head

end Lob.Distinct

/-! ## Orders at a price -/

/-- The orders of a side at a price, in priority order. -/
def atPrice (c : Config) (l : List Order) (p : Int) : List Order :=
  l.filter fun o => c.plToPrice o.level = p

theorem mem_atPrice {c : Config} {l : List Order} {p : Int} {o : Order} :
    o ∈ atPrice c l p ↔ o ∈ l ∧ c.plToPrice o.level = p := by
  unfold atPrice
  rw [List.mem_filter, decide_eq_true_iff]

/-- The orders at the price of a level are those of the level. -/
theorem atPrice_level (c : Config) (l : List Order) (i : Nat) :
    atPrice c l (c.plToPrice i) = l.filter fun o => o.level = i := by
  refine List.filter_congr (fun o _ => ?_)
  rw [decide_eq_decide, Config.plToPrice_inj]

/-- A placed order is the last at its price. -/
theorem atPrice_place {c : Config} {s : Slot} {o : Order} {l : List Order}
    (hs : l.Pairwise fun x y => ¬ s.better y.level x.level) (p : Int) :
    atPrice c (place s o l) p =
      if p = c.plToPrice o.level then atPrice c l p ++ [o] else atPrice c l p := by
  split
  · rename_i hp
    rw [hp, atPrice_level, atPrice_level, place_filter hs]
  · rename_i hp
    by_cases hx : ∃ i, c.plToPrice i = p
    · obtain ⟨i, rfl⟩ := hx
      have hne : o.level ≠ i := fun e => hp (by rw [e])
      rw [atPrice_level, atPrice_level, place_filter_ne hne]
    · -- no level has this price
      have hnil : ∀ l : List Order, atPrice c l p = [] := by
        intro l
        refine List.eq_nil_iff_forall_not_mem.mpr (fun x hxm => ?_)
        exact hx ⟨_, (mem_atPrice.mp hxm).2⟩
      rw [hnil, hnil]

/-- Taking an order out, at one price. -/
theorem atPrice_remove (c : Config) (a : Lob) (id : Nat) (s : Slot) (p : Int) :
    atPrice c (a.remove id s) p = (atPrice c (a s) p).filter fun o => o.orderId ≠ id := by
  unfold atPrice Lob.remove
  rw [List.filter_filter, List.filter_filter]
  exact List.filter_congr (fun x _ => Bool.and_comm _ _)

/-- The price of an order stays when its quantities change. -/
theorem atPrice_resize (c : Config) (a : Lob) (id q r : Nat) (s : Slot) (p : Int) :
    atPrice c (a.resize id q r s) p = (atPrice c (a s) p).map fun o =>
      if o.orderId = id then { o with qtyOriginal := q, qtyRemaining := r } else o := by
  unfold atPrice Lob.resize
  rw [List.filter_map]
  congr 1
  refine List.filter_congr (fun x _ => ?_)
  rw [Function.comp_apply]
  split <;> rfl

/-! ## Records -/

theorem fillType_trade (r : Nat) :
    State.fillType r = .fill ∨ State.fillType r = .partialFill := by
  unfold State.fillType
  split
  · exact Or.inl rfl
  · exact Or.inr rfl

/-- `check_exec(exec_type, EXEC_TRADE)`. -/
def OrderResponse.isTrade (r : OrderResponse) : Bool := checkExec r.execType execTrade

theorem isTrade_iff {r : OrderResponse} :
    r.isTrade = true ↔ r.execType = .fill ∨ r.execType = .partialFill := by
  unfold OrderResponse.isTrade
  cases r.execType <;> decide

/-- Whether a record is a trade is a matter of its kind. -/
theorem isTrade_of {r : OrderResponse} {e : ExecType} {b : Bool} (h : r.execType = e)
    (he : checkExec e execTrade = b) : r.isTrade = b := by
  unfold OrderResponse.isTrade
  rw [h, he]

/-- An execution sends trade records only. -/
theorem tradeRecords_form {c : Config} {taker : Nat} {s : Slot} {r : OrderResponse} :
    ∀ {gen : Nat → Nat} {fs : List Fill}, r ∈ tradeRecords c taker s gen fs →
      ∃ id x p q left, ∃ s' : Slot, r = c.response (State.fillType left) id x s'.side p q left .none
  | _, [], h => absurd h List.not_mem_nil
  | gen, f :: fs, h => by
    rw [tradeRecords] at h
    rcases List.mem_cons.mp h with rfl | h
    · exact ⟨_, _, _, _, _, s, rfl⟩
    · rcases List.mem_cons.mp h with rfl | h
      · exact ⟨_, _, _, _, _, s.flip, rfl⟩
      · exact tradeRecords_form h

theorem tradeRecords_execType {c : Config} {taker : Nat} {s : Slot} {r : OrderResponse} {gen : Nat → Nat}
    {fs : List Fill} (h : r ∈ tradeRecords c taker s gen fs) : r.execType = .fill ∨ r.execType = .partialFill := by
  obtain ⟨id, x, p, q, left, s', rfl⟩ := tradeRecords_form h
  exact fillType_trade left

theorem tradeRecords_symbol {c : Config} {taker : Nat} {s : Slot} {r : OrderResponse} {gen : Nat → Nat}
    {fs : List Fill} (h : r ∈ tradeRecords c taker s gen fs) : r.symbolId = c.symbolId := by
  obtain ⟨id, x, p, q, left, s', rfl⟩ := tradeRecords_form h
  rfl

/-- Every record carries the symbol of its book. -/
theorem Lob.Outcome.symbol {c : Config} {gen : Nat → Nat} {a : Lob} {req : OrderRequest} {ans : Answer}
    (h : Outcome c gen a req ans) : ∀ r ∈ ans.recs, r.symbolId = c.symbolId := by
  intro r hr
  cases h with
  | entered =>
    rcases List.mem_cons.mp hr with rfl | hr
    · rfl
    · exact tradeRecords_symbol hr
  | requeued =>
    rcases List.mem_cons.mp hr with rfl | hr
    · rfl
    · exact tradeRecords_symbol hr
  | finished =>
    rcases List.mem_cons.mp hr with rfl | hr
    · rfl
    · rw [List.mem_singleton.mp hr]
      rfl
  | _ =>
    rw [List.mem_singleton.mp hr]
    rfl

/-- The order a record is about. -/
theorem Config.response_combinedId (c : Config) (e : ExecType) {id : Nat} (x : Nat) (s : Side)
    (p : Int) (q r : Nat) (k : RejectCode) (h : id < 2 ^ 64) :
    (c.response e id x s p q r k).combinedId = id :=
  combinedOrderId_parts h

theorem OrderRequest.combinedId_lt (req : OrderRequest) : req.combinedId < 2 ^ 64 :=
  combinedOrderId_lt _ _

/-- The side named by the latest `New` record of an order. -/
def enteredAs (id : Nat) : List OrderResponse → Option Side :=
  List.foldl (fun acc r => if r.execType = .new ∧ r.combinedId = id then some r.side else acc) none

/-- What an order was entered as is decided by the last `New` record of its id. -/
theorem enteredAs_append_of_ne {id : Nat} {log rs : List OrderResponse}
    (h : ∀ r ∈ rs, r.execType = .new → r.combinedId ≠ id) :
    enteredAs id (log ++ rs) = enteredAs id log := by
  rw [enteredAs, List.foldl_append]
  induction rs with
  | nil => rfl
  | cons r rs ih =>
    rw [List.foldl_cons, if_neg (fun hr => h r List.mem_cons_self hr.1 hr.2)]
    exact ih (fun r' hr' => h r' (List.mem_cons_of_mem _ hr'))

end Exchange
