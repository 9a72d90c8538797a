import Exchange.Book.Execute

/-!
# Following an execution

`Lob.execute_rule` is the induction by which an observer of the record stream is
followed through an execution. The taker stops, or it fills the first maker and
goes on with the rest, or the first maker absorbs it; in the last two cases the
taker's and the maker's record are sent, in this order.

`Lob.rows` is what a table keyed by order id should hold of a book, for any
choice of columns, and how it changes when an order is removed, rewritten or
placed.
-/

namespace Exchange

namespace Lob

/-- A book about to be swept by an order that is not in it. -/
structure Taking (a : Lob) (t : Order) : Prop where
  distinct : a.Distinct
  fresh : ∀ s, ∀ y ∈ a s, y.orderId ≠ t.orderId
  id : t.orderId < 2 ^ 64
  sorted : ∀ s, (a s).Pairwise fun x y => ¬ s.better y.level x.level

namespace Taking

variable {a : Lob} {t : Order}

/-- The taker has less left. -/
theorem fill (h : a.Taking t) (q : Nat) : a.Taking (t.fill q) := ⟨h.distinct, h.fresh, h.id, h.sorted⟩

/-- An order leaves, and the taker has less left. -/
theorem remove (h : a.Taking t) (id q : Nat) : (a.remove id).Taking (t.fill q) :=
  ⟨h.distinct.remove id, fun s y hy => h.fresh s y (mem_remove.mp hy).1, h.id,
    fun s => (h.sorted s).filter _⟩

/-- A new order. -/
theorem of_new {c : Config} {req : OrderRequest} (hok : a.Ok c) (hnone : a.find req.combinedId = none) :
    a.Taking (State.createOrder req) :=
  ⟨.of_ok hok, fun _ _ hy => find_eq_none hnone hy, req.combinedId_lt, hok.sorted⟩

/-- A resting order that is taken out to be matched again. -/
theorem of_replaced {c : Config} {s : Slot} {o : Order} (hok : a.Ok c) (ho : o ∈ a s) (newQty : Nat) :
    (a.remove o.orderId).Taking (o.resized newQty) :=
  ⟨(Distinct.of_ok hok).remove _, fun _ _ hy => (mem_remove.mp hy).2, (hok.sane ho).id,
    (hok.remove _).sorted⟩

end Taking

/-- The book in which a taker comes to rest. -/
def rested (a : Lob) (s : Slot) (idx : Nat) (t : Order) : Lob :=
  if t.qtyRemaining = 0 then a
  else Function.update a s (place s { t with priceLevel := some idx } (a s))

/-- The induction along an execution, for a relation between the book and the
taker before it and the records and the book it ends in. -/
theorem execute_rule {c : Config} {s : Slot} {idx : Nat}
    {P : Lob → Order → List OrderResponse → Lob → Prop}
    (stop : ∀ {a t}, a.Taking t → (t.qtyRemaining = 0 ∨
      (a s.flip).head?.any (fun o => State.crossed s idx o.level) = false) →
      P a t [] (a.rested s idx t))
    (filled : ∀ {a t y ms rs b} (x : Nat), a.Taking t → a s.flip = y :: ms → t.qtyRemaining ≠ 0 →
      State.crossed s idx y.level = true → y.qtyRemaining ≤ t.qtyRemaining →
      P (a.remove y.orderId) (t.fill y.qtyRemaining) rs b →
      P a t (c.response (State.fillType (t.qtyRemaining - y.qtyRemaining)) t.orderId x s.side
          (c.plToPrice y.level) y.qtyRemaining (t.qtyRemaining - y.qtyRemaining) .none ::
        c.response .fill y.orderId x s.flip.side (c.plToPrice y.level) y.qtyRemaining 0 .none ::
          rs) b)
    (part : ∀ {a t y ms} (x : Nat), a.Taking t → a s.flip = y :: ms → t.qtyRemaining ≠ 0 →
      State.crossed s idx y.level = true → t.qtyRemaining < y.qtyRemaining →
      P a t [c.response .fill t.orderId x s.side (c.plToPrice y.level) t.qtyRemaining 0 .none,
          c.response .partialFill y.orderId x s.flip.side (c.plToPrice y.level) t.qtyRemaining
            (y.qtyRemaining - t.qtyRemaining) .none]
        (a.resize y.orderId y.qtyOriginal (y.qtyRemaining - t.qtyRemaining))) :
    ∀ (gen : Nat → Nat) {a : Lob} {t : Order}, a.Taking t →
      P a t (a.execute c gen s t idx).recs (a.execute c gen s t idx).lob := by
  -- on the makers still in front
  suffices h : ∀ (ms : List Order) (gen : Nat → Nat) (a : Lob) (t : Order), a s.flip = ms →
      a.Taking t → P a t (a.execute c gen s t idx).recs (a.execute c gen s t idx).lob from
    fun gen a t ht => h _ gen a t rfl ht
  intro ms
  induction ms with
  | nil =>
    intro gen a t hm ht
    have hstop : t.qtyRemaining = 0 ∨
        (a s.flip).head?.any (fun o => State.crossed s idx o.level) = false := by
      rw [hm]
      exact Or.inr rfl
    obtain ⟨hrecs, hlob⟩ := execute_stop c gen hstop
    rw [hrecs, hlob]
    exact stop ht hstop
  | cons y ms ih =>
    intro gen a t hm ht
    by_cases hstop : t.qtyRemaining = 0 ∨ State.crossed s idx y.level = false
    · have hstop' : t.qtyRemaining = 0 ∨
          (a s.flip).head?.any (fun o => State.crossed s idx o.level) = false := by
        rw [hm]
        exact hstop
      obtain ⟨hrecs, hlob⟩ := execute_stop c gen hstop'
      rw [hrecs, hlob]
      exact stop ht hstop'
    obtain ⟨hr, hx⟩ := not_or.mp hstop
    have hx' : State.crossed s idx y.level = true := by simpa using hx
    by_cases hle : y.qtyRemaining ≤ t.qtyRemaining
    · obtain ⟨hrecs, hlob⟩ := execute_filled c gen hm hr hx' hle
      have hhead := ht.distinct.remove_head hm
      have hleft : (⟨y, y.qtyRemaining, t.qtyRemaining - y.qtyRemaining⟩ : Fill).makerLeft = 0 :=
        Nat.sub_self _
      have hnext := ih (fun k => gen (k + 1)) (Function.update a s.flip ms) (t.fill y.qtyRemaining)
        (Function.update_self ..) (hhead ▸ ht.remove y.orderId y.qtyRemaining)
      rw [hrecs, hlob, tradeRecords, tradeRecords, hleft]
      rw [← hhead] at hnext ⊢
      exact filled (gen 0) ht hm hr hx' hle hnext
    · have hlt := Nat.lt_of_not_le hle
      obtain ⟨hrecs, hlob⟩ := execute_part c gen hm hr hx' hlt
      have hpart : State.fillType (y.qtyRemaining - t.qtyRemaining) = .partialFill :=
        if_neg (by omega)
      have hmaker : (⟨y, t.qtyRemaining, 0⟩ : Fill).makerLeft = y.qtyRemaining - t.qtyRemaining := rfl
      have hresize := ht.distinct.resize_head hm y.qtyOriginal (y.qtyRemaining - t.qtyRemaining)
      have hlob' : (a.execute c gen s t idx).lob =
          a.resize y.orderId y.qtyOriginal (y.qtyRemaining - t.qtyRemaining) := hlob.trans hresize.symm
      rw [hrecs, hlob', tradeRecords, tradeRecords, hmaker, hpart]
      exact part (gen 0) ht hm hr hx' hlt

/-! ## A book with its taker in it -/

section Rested

variable {a : Lob} {s : Slot} {idx : Nat} {t : Order}

/-- An order placed is one more of its side. -/
theorem mem_place_update {o : Order} {s' : Slot} {x : Order} :
    x ∈ Function.update a s (place s o (a s)) s' ↔ (s' = s ∧ x = o) ∨ x ∈ a s' := by
  by_cases hs : s' = s
  · subst hs
    rw [Function.update_self, mem_place]
    simp
  · rw [Function.update_of_ne hs]
    simp [hs]

theorem place_remove {l : List Order} (h : ∀ x ∈ l, x.orderId ≠ t.orderId) :
    (place s t l).filter (·.orderId ≠ t.orderId) = l := by
  induction l with
  | nil =>
    unfold place
    rw [List.filter_cons_of_neg (by simp)]
    rfl
  | cons x xs ih =>
    have hself : (x :: xs).filter (·.orderId ≠ t.orderId) = x :: xs :=
      List.filter_eq_self.mpr (fun y hy => by simpa using h y hy)
    unfold place
    split
    · rw [List.filter_cons_of_neg (by simp), hself]
    · rw [List.filter_cons_of_pos (by simpa using h x List.mem_cons_self),
        ih (fun y hy => h y (List.mem_cons_of_mem _ hy))]

/-- What leaves the level leaves the place. -/
theorem place_map {f : Order → Order} (hf : ∀ o, (f o).level = o.level) (l : List Order) :
    (place s t l).map f = place s (f t) (l.map f) := by
  induction l with
  | nil => rfl
  | cons x xs ih =>
    rw [List.map_cons, place, place, hf t, hf x]
    split
    · rfl
    · rw [List.map_cons, ih]

/-- Placing adds the order and moves no other. -/
theorem place_perm (l : List Order) : (place s t l).Perm (t :: l) := by
  induction l with
  | nil => exact .refl _
  | cons x xs ih =>
    unfold place
    split
    · exact .refl _
    · exact (ih.cons x).trans (.swap t x xs)

/-- The taker leaves the book it was placed in. -/
theorem Taking.rested_remove (h : a.Taking t) : (a.rested s idx t).remove t.orderId = a := by
  have hself : ∀ s', (a s').filter (·.orderId ≠ t.orderId) = a s' := fun s' =>
    List.filter_eq_self.mpr (fun y hy => by simpa using h.fresh s' y hy)
  funext s'
  unfold rested Lob.remove
  split
  · exact hself s'
  · by_cases hs : s' = s
    · subst hs
      rw [Function.update_self]
      exact place_remove (t := { t with priceLevel := some idx }) (h.fresh s')
    · rw [Function.update_of_ne hs]
      exact hself s'

/-- The taker shrinks in the book it was placed in. -/
theorem Taking.rested_resize (h : a.Taking t) (ht : t.qtyRemaining ≠ 0) {q : Nat}
    (hq : t.qtyRemaining - q ≠ 0) :
    (a.rested s idx t).resize t.orderId t.qtyOriginal (t.qtyRemaining - q) =
      a.rested s idx (t.fill q) := by
  have hself : ∀ s', ((a s').map fun o => if o.orderId = t.orderId then
      { o with qtyOriginal := t.qtyOriginal, qtyRemaining := t.qtyRemaining - q } else o) = a s' :=
    fun s' => (List.map_congr_left (fun y hy => if_neg (h.fresh s' y hy))).trans (List.map_id _)
  funext s'
  unfold rested Lob.resize
  rw [if_neg ht, if_neg (show (t.fill q).qtyRemaining ≠ 0 from hq)]
  by_cases hs : s' = s
  · subst hs
    rw [Function.update_self, Function.update_self, place_map (fun o => by split <;> rfl), hself]
    congr 1
    exact if_pos rfl
  · rw [Function.update_of_ne hs, Function.update_of_ne hs, hself]

/-- Another order leaves the book the taker was placed in. -/
theorem Taking.rested_remove_maker (h : a.Taking t) {y : Order} (hy : y ∈ a s.flip) :
    (a.rested s idx t).remove y.orderId = (a.remove y.orderId).rested s idx t := by
  unfold rested
  split
  · rfl
  · have hne := Slot.ne_flip s
    have hkeep : a.remove y.orderId s = a s := h.distinct.remove_ne hy hne
    funext s'
    by_cases hs : s' = s
    · subst hs
      unfold Lob.remove at hkeep ⊢
      rw [Function.update_self, Function.update_self, hkeep]
      refine List.filter_eq_self.mpr (fun x hx => ?_)
      rcases mem_place.mp hx with rfl | hx
      · simpa using (h.fresh _ y hy).symm
      · have hx' : x ∈ a.remove y.orderId s' := by
          unfold Lob.remove
          rw [hkeep]
          exact hx
        simpa using (mem_remove.mp hx').2
    · unfold Lob.remove
      rw [Function.update_of_ne hs, Function.update_of_ne hs]

/-- The taker among the others is one more order with an id of its own. -/
theorem Taking.rested_distinct (h : a.Taking t) : (a.rested s idx t).Distinct := by
  unfold rested
  split
  · exact h.distinct
  · have hmem : ∀ s' x, x ∈ Function.update a s (place s { t with priceLevel := some idx } (a s)) s' ↔
        (s' = s ∧ x = { t with priceLevel := some idx }) ∨ x ∈ a s' := fun _ _ => mem_place_update
    refine ⟨fun s' => ?_, fun {s₁ s₂ o o'} ho ho' he => ?_, fun {s' o} ho => ?_⟩
    · by_cases hs : s' = s
      · subst hs
        rw [Function.update_self]
        rw [((place_perm (a s')).map Order.orderId).nodup_iff, List.map_cons, List.nodup_cons]
        refine ⟨fun hid => ?_, h.distinct.ids s'⟩
        obtain ⟨x, hx, he⟩ := List.mem_map.mp hid
        exact h.fresh s' x hx he
      · rw [Function.update_of_ne hs]
        exact h.distinct.ids s'
    · rcases (hmem _ _).mp ho with ⟨rfl, rfl⟩ | ho
      · rcases (hmem _ _).mp ho' with ⟨rfl, -⟩ | ho'
        · rfl
        · exact absurd he.symm (h.fresh _ _ ho')
      · rcases (hmem _ _).mp ho' with ⟨-, rfl⟩ | ho'
        · exact absurd he (h.fresh _ _ ho)
        · exact h.distinct.apart ho ho' he
    · rcases (hmem _ _).mp ho with ⟨-, rfl⟩ | ho
      · exact h.id
      · exact h.distinct.id ho

end Rested

/-! ## Tables keyed by order id -/

section Rows

variable {β : Type} {f : Slot → Order → β} {a : Lob} {s : Slot} {o : Order}

/-- What a table keyed by order id holds of a book; `f` picks the columns. -/
def rows (f : Slot → Order → β) (a : Lob) : Nat → Option β := fun id =>
  (a.find id).map fun so => f so.1 so.2

theorem Distinct.rows_mem (h : a.Distinct) (ho : o ∈ a s) : a.rows f o.orderId = some (f s o) := by
  unfold rows
  cases hf : a.find o.orderId with
  | none => exact absurd rfl (find_eq_none hf ho)
  | some so =>
    obtain ⟨hm, hid⟩ := mem_of_find hf
    obtain ⟨hs, he⟩ := h.unique ho hm hid.symm
    rw [Option.map_some, ← hs, ← he]

theorem rows_none {id : Nat} (h : ∀ s, ∀ o ∈ a s, o.orderId ≠ id) : a.rows f id = none := by
  unfold rows
  cases hf : a.find id with
  | none => rfl
  | some so =>
    obtain ⟨hm, hid⟩ := mem_of_find hf
    exact absurd hid (h _ _ hm)

/-- A table with a row for each order, and no other row, is the book's. -/
theorem rows_eq {x : Nat → Option β} (hin : ∀ s, ∀ o ∈ a s, x o.orderId = some (f s o))
    (hout : ∀ id, (∀ s, ∀ o ∈ a s, o.orderId ≠ id) → x id = none) : a.rows f = x := by
  funext id
  unfold rows
  cases hf : a.find id with
  | none => exact (hout id (fun s o ho => find_eq_none hf ho)).symm
  | some so =>
    obtain ⟨hm, hid⟩ := mem_of_find hf
    rw [Option.map_some, ← hid, hin _ _ hm]

theorem Distinct.rows_remove (h : a.Distinct) (id : Nat) :
    (a.remove id).rows f = Function.update (a.rows f) id none := by
  refine rows_eq (fun s o ho => ?_) (fun id' hnone => ?_)
  · obtain ⟨hm, hne⟩ := mem_remove.mp ho
    rw [Function.update_of_ne hne, h.rows_mem hm]
  · by_cases he : id' = id
    · rw [he, Function.update_self]
    · rw [Function.update_of_ne he]
      exact rows_none (fun s o ho hid => hnone s o (mem_remove.mpr ⟨ho, hid ▸ he⟩) hid)

theorem Distinct.rows_resize (h : a.Distinct) (ho : o ∈ a s) (q r : Nat) :
    (a.resize o.orderId q r).rows f = Function.update (a.rows f) o.orderId
      (some (f s { o with qtyOriginal := q, qtyRemaining := r })) := by
  refine rows_eq (fun s' x hx => ?_) (fun id hnone => ?_)
  · obtain ⟨m, hm, rfl⟩ := List.mem_map.mp hx
    by_cases he : m.orderId = o.orderId
    · obtain ⟨rfl, rfl⟩ := h.unique ho hm he.symm
      rw [if_pos rfl, Function.update_self]
    · rw [if_neg he, Function.update_of_ne he, h.rows_mem hm]
  · have hne : id ≠ o.orderId := fun e => hnone s _ (mem_resize_self ho q r) e.symm
    rw [Function.update_of_ne hne]
    refine rows_none (fun s' x hx hid => ?_)
    have hkeep : x ∈ a.resize o.orderId q r s' :=
      List.mem_map.mpr ⟨x, hx, if_neg (fun e => hne (hid.symm.trans e))⟩
    exact hnone s' x hkeep hid

theorem Distinct.rows_place (h : a.Distinct) (hnew : ∀ s', ∀ x ∈ a s', x.orderId ≠ o.orderId) :
    rows f (Function.update a s (place s o (a s))) =
      Function.update (a.rows f) o.orderId (some (f s o)) := by
  refine rows_eq (fun s' x hx => ?_) (fun id hnone => ?_)
  · rcases mem_place_update.mp hx with ⟨rfl, rfl⟩ | hx
    · rw [Function.update_self]
    · rw [Function.update_of_ne (hnew s' x hx), h.rows_mem hx]
  · have hne : id ≠ o.orderId :=
      fun e => hnone s o (mem_place_update.mpr (Or.inl ⟨rfl, rfl⟩)) e.symm
    rw [Function.update_of_ne hne]
    exact rows_none (fun s' x hx => hnone s' x (mem_place_update.mpr (Or.inr hx)))

/-- The table of a book in which a taker comes to rest: a row for what is left. -/
theorem Taking.rows_rested {t : Order} (h : a.Taking t) (s : Slot) (idx : Nat) :
    (a.rested s idx t).rows f = Function.update (a.rows f) t.orderId
      (if t.qtyRemaining = 0 then none else some (f s { t with priceLevel := some idx })) := by
  unfold rested
  split
  · rw [← rows_none (f := f) h.fresh, Function.update_eq_self]
  · exact h.distinct.rows_place (o := { t with priceLevel := some idx }) h.fresh

end Rows

end Lob

end Exchange
