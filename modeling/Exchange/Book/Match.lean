import Exchange.Book.Ops

/-!
# `match` sweeps the opposite side

The inner loop walks one level's queue and the outer loop the opposite side's
levels; together they compute `sweep` on the side read as one list. The
induction of the inner loop is on the level's queue, that of the outer loop on
the level list: a pass either removes the best level or exhausts the taker.
`Emits` carries what the loops send, `InvBut` what they keep.
-/

namespace Exchange

namespace State

/-- The records sent so far. -/
def log (st : State) : List OrderResponse := st.out.map (·.resp)

@[simp] theorem sendResponse_book (st : State) (e : ExecType) (c x : Nat) (s : Side) (p : Int)
    (q r : Nat) (k : RejectCode) : (st.sendResponse e c x s p q r k).book = st.book := by
  unfold sendResponse
  split <;> rfl

@[simp] theorem sendResponse_gen (st : State) (e : ExecType) (c x : Nat) (s : Side) (p : Int)
    (q r : Nat) (k : RejectCode) : (st.sendResponse e c x s p q r k).gen = st.gen := by
  unfold sendResponse
  split <;> rfl

end State

/-- From `st` to `st'` the records `rs` were sent, unless the book is being
recovered. -/
structure Emits (st st' : State) (rs : List OrderResponse) : Prop where
  cfg : st'.book.cfg = st.book.cfg
  mode : st'.book.recoverMode = st.book.recoverMode
  log : st'.log = st.log ++ if st.book.recoverMode then [] else rs

namespace Emits

/-- What is sent, and then what is sent after it. -/
theorem trans {st st' st'' : State} {rs rs' : List OrderResponse} (h : Emits st st' rs)
    (h' : Emits st' st'' rs') : Emits st st'' (rs ++ rs') := by
  refine ⟨h'.cfg.trans h.cfg, h'.mode.trans h.mode, ?_⟩
  rw [h'.log, h.log, h.mode]
  split <;> simp

/-- Steps that send nothing. -/
theorem silent (st : State) {b : OrderBook} (g : Nat → Nat) (hc : b.cfg = st.book.cfg)
    (hm : b.recoverMode = st.book.recoverMode) : Emits st ⟨b, g, st.out⟩ [] :=
  ⟨hc, hm, by split <;> simp [State.log]⟩

/-- Book edits after the records. -/
theorem edit {st st' : State} {rs : List OrderResponse} (h : Emits st st' rs) {b : OrderBook}
    (hc : b.cfg = st'.book.cfg) (hm : b.recoverMode = st'.book.recoverMode) :
    Emits st { st' with book := b } rs :=
  ⟨hc.trans h.cfg, hm.trans h.mode, h.log⟩

theorem send (st : State) (e : ExecType) (c x : Nat) (s : Side) (p : Int) (q r : Nat)
    (k : RejectCode) : Emits st (st.sendResponse e c x s p q r k)
      [st.book.cfg.response e c x s p q r k] := by
  refine ⟨by simp, by simp, ?_⟩
  unfold State.sendResponse
  split <;> simp [State.log]

end Emits

/-! ## One trade -/

/-- What a trade of `qty` between the taker `t` and the maker `p` of level `i`
does to the book. -/
def OrderBook.traded (b : OrderBook) (t p i qty : Nat) : OrderBook :=
  ((b.modifyOrder p (Order.fill qty)).modifyOrder t (Order.fill qty)).subtractQty i qty

theorem trade_book (st : State) (t p : Nat) (s : Slot) (i : Nat) (o m : Order) :
    (st.trade t p s i o m).book = st.book.traded t p i (min m.qtyRemaining o.qtyRemaining) := by
  simp only [State.trade, State.sendResponse_book]
  rfl

theorem trade_gen (st : State) (t p : Nat) (s : Slot) (i : Nat) (o m : Order) :
    (st.trade t p s i o m).gen = fun k => st.gen (k + 1) := by
  simp [State.trade, State.draw]

/-- A trade sends the records of one fill. -/
theorem trade_emits (st : State) (t p : Nat) (s : Slot) {i : Nat} (o : Order) {m : Order}
    (hl : m.level = i) :
    Emits st (st.trade t p s i o m) (tradeRecords st.book.cfg o.orderId s st.gen
      [⟨m, min m.qtyRemaining o.qtyRemaining,
        o.qtyRemaining - min m.qtyRemaining o.qtyRemaining⟩]) := by
  subst hl
  have h₀ : Emits st ⟨st.book.traded t p m.level (min m.qtyRemaining o.qtyRemaining),
      fun k => st.gen (k + 1), st.out⟩ [] := Emits.silent st _ rfl rfl
  have h₁ := h₀.trans (Emits.send _ (State.fillType (o.qtyRemaining -
    min m.qtyRemaining o.qtyRemaining)) o.orderId (st.gen 0) s.side
    (st.book.cfg.plToPrice m.level) (min m.qtyRemaining o.qtyRemaining)
    (o.qtyRemaining - min m.qtyRemaining o.qtyRemaining) .none)
  have h₂ := h₁.trans (Emits.send _ (State.fillType (m.qtyRemaining -
    min m.qtyRemaining o.qtyRemaining)) m.orderId (st.gen 0) s.flip.side
    (st.book.cfg.plToPrice m.level) (min m.qtyRemaining o.qtyRemaining)
    (m.qtyRemaining - min m.qtyRemaining o.qtyRemaining) .none)
  simp only [State.sendResponse_book] at h₂
  exact h₂

section Trade

variable {t : Nat} {o m : Order} {b : OrderBook} {q : Nat → List Nat} {i p qty : Nat}

/-- The two orders of a trade, and the others. -/
theorem InvBut.traded_orders (h : InvBut t o b q) (hp : p ∈ q i) (hm : b.orders p = some m)
    (qty x : Nat) : (b.traded t p i qty).orders x =
      if x = t then some (o.fill qty) else if x = p then some (m.fill qty) else b.orders x := by
  have hpt : p ≠ t := fun e => h.loose i (e ▸ hp)
  show Function.update (Function.update b.orders p ((b.orders p).map (Order.fill qty))) t
    ((Function.update b.orders p ((b.orders p).map (Order.fill qty)) t).map (Order.fill qty)) x = _
  rw [Function.update_of_ne hpt.symm, h.taker, hm, Function.update_apply, Function.update_apply]
  rfl

/-- A trade takes its quantity off the maker and off the level's total. -/
theorem InvBut.traded_counted (h : InvBut t o b q) (hp : p ∈ q i) (hm : b.orders p = some m)
    (hqty : qty ≤ m.qtyRemaining) :
    Counted (b.traded t p i qty).priceArray (b.traded t p i qty).orders q := by
  have hpt : p ≠ t := fun e => h.loose i (e ▸ hp)
  have ho := h.traded_orders hp hm qty
  have hother : ∀ j, j ≠ i → p ∉ q j := fun j hj hmem => hj (h.queued.disj hmem hp)
  -- the taker weighs on no level, so only the maker's weight moves
  have hself : ∀ x, weight (Function.update b.orders t (some (o.fill qty))) x =
      if x = t then ((o.fill qty).qtyRemaining : BitVec 64) else weight b.orders x := by
    intro x
    by_cases hx : x = t
    · simp [hx, weight, deref]
    · simp [hx, weight, deref]
  have h₁ : Counted b.priceArray (Function.update b.orders t (some (o.fill qty))) q :=
    h.counted.congr (fun j x hx => by
      rw [hself, if_neg (fun e : x = t => h.loose j (e ▸ hx))])
  have hw : ∀ x, x ≠ p → weight (b.traded t p i qty).orders x =
      weight (Function.update b.orders t (some (o.fill qty))) x := by
    intro x hx
    rw [hself, weight, deref, ho, if_neg hx]
    by_cases hxt : x = t
    · simp [hxt]
    · simp [hxt, weight, deref]
  have hd : weight (b.traded t p i qty).orders p =
      weight (Function.update b.orders t (some (o.fill qty))) p + -(qty : BitVec 64) := by
    rw [hself, if_neg hpt, weight, weight, deref, ho, if_neg hpt, if_pos rfl, deref_of_some hm]
    show ((m.qtyRemaining - qty : Nat) : BitVec 64) = _
    rw [Nat.cast_sub hqty]
    ring
  have h₂ := h₁.reweigh (h.queued.nodup i) hp hother hw hd
  rw [← sub_eq_add_neg] at h₂
  exact h₂

/-- A trade that leaves the maker a remainder: the queues are as before. -/
theorem InvBut.traded (h : InvBut t o b q) (hp : p ∈ q i) (hm : b.orders p = some m)
    (hqty : qty < m.qtyRemaining) : InvBut t (o.fill qty) (b.traded t p i qty) q := by
  have ho := h.traded_orders hp hm qty
  have hid : ∀ {j x}, x ∈ q j → (deref (b.traded t p i qty).orders x).orderId =
      (deref b.orders x).orderId := by
    intro j x hx
    rw [deref, ho, if_neg (fun e : x = t => h.loose j (e ▸ hx))]
    by_cases hxp : x = p
    · simp [hxp, deref, hm, Order.fill]
    · simp [hxp, deref]
  refine ⟨⟨h.queued, h.traded_counted hp hm hqty.le, ?_, h.chained, h.inRange, h.held, ?_⟩,
    by rw [ho, if_pos rfl], h.loose, ⟨?_, ?_⟩⟩
  · intro j x hx
    obtain ⟨o', ho', hl', hs'⟩ := h.alive j x hx
    rw [ho, if_neg (fun e : x = t => h.loose j (e ▸ hx))]
    by_cases hxp : x = p
    · subst hxp
      obtain rfl : m = o' := Option.some.inj (hm.symm.trans ho')
      exact ⟨m.fill qty, if_pos rfl, hl', hs'.id, Nat.sub_pos_of_lt hqty,
        (Nat.sub_le _ _).trans hs'.le, hs'.max⟩
    · exact ⟨o', (if_neg hxp).trans ho', hl', hs'⟩
  · intro x hx
    have hdead := h.fresh hx
    rw [ho, if_neg, if_neg, hdead]
    · exact fun e => by rw [e, hm] at hdead; cases hdead
    · exact fun e => by rw [e, h.taker] at hdead; cases hdead
  · intro id x hne
    rw [show (b.traded t p i qty).activeOrders = b.activeOrders from rfl, h.indexed.iff hne]
    constructor <;> rintro ⟨⟨j, hx⟩, he⟩
    · exact ⟨⟨j, hx⟩, (hid hx).trans he⟩
    · exact ⟨⟨j, hx⟩, (hid hx).symm.trans he⟩
  · intro j x hx
    rw [hid hx]
    exact h.indexed.ne hx

/-- A fill of the first maker of a level changes the contents of that level only. -/
theorem InvBut.traded_contents (h : InvBut t o b q) {ps : List Nat} (hq : q i = p :: ps)
    (hm : b.orders p = some m) : contents (b.traded t p i qty).orders q =
      Function.update (contents b.orders q) i (m.fill qty :: ps.map (deref b.orders)) := by
  have hp : p ∈ q i := by simp [hq]
  have ho := h.traded_orders hp hm qty
  have hnd := h.queued.nodup i
  rw [hq] at hnd
  have hkeep : ∀ {j y}, y ∈ q j → y ≠ p → (b.traded t p i qty).orders y = b.orders y := by
    intro j y hy hyp
    rw [ho, if_neg (fun e : y = t => h.loose j (e ▸ hy)), if_neg hyp]
  funext j
  by_cases hj : j = i
  · subst hj
    rw [Function.update_self, contents, hq, List.map_cons]
    congr 1
    · rw [deref, ho, if_neg (fun e : p = t => h.loose j (e ▸ hp)), if_pos rfl]
      rfl
    · refine List.map_congr_left (fun y hy => deref_congr (hkeep (j := j) ?_ ?_))
      · exact hq ▸ List.mem_cons_of_mem p hy
      · exact fun e => (List.nodup_cons.mp hnd).1 (e ▸ hy)
  · rw [Function.update_of_ne hj]
    exact contents_congr (fun y hy => hkeep hy (fun e => hj (h.queued.disj (e ▸ hy) hp)))

/-- A trade that fills the maker: it leaves its level, the index and the heap. -/
theorem InvBut.filled (h : InvBut t o b q) {ps : List Nat} (hq : q i = p :: ps)
    (hm : b.orders p = some m) :
    ∃ b', ((b.traded t p i m.qtyRemaining).eraseActive m.orderId).removeOrderFromLevel p = some b' ∧
      b'.links.next (.order p) = some (front i ps) ∧
      b'.cfg = b.cfg ∧ b'.recoverMode = b.recoverMode ∧ b'.activeLevels = b.activeLevels ∧
      b'.nextOrder = b.nextOrder ∧
      contents (b'.delete p).orders (dropPtr q p) =
        Function.update (contents b.orders q) i (ps.map (deref b.orders)) ∧
      InvBut t (o.fill m.qtyRemaining) (b'.delete p) (dropPtr q p) := by
  have hp : p ∈ q i := by simp [hq]
  have hq' : q i = [] ++ p :: ps := hq
  have hpt : p ≠ t := fun e => h.loose i (e ▸ hp)
  have ho := h.traded_orders hp hm m.qtyRemaining
  have hcnt := h.traded_counted hp hm le_rfl
  obtain ⟨o', ho', hl, hs⟩ := h.alive i p hp
  obtain rfl : m = o' := Option.some.inj (hm.symm.trans ho')
  have hmo : (b.traded t p i m.qtyRemaining).orders p = some (m.fill m.qtyRemaining) := by
    rw [ho, if_neg hpt, if_pos rfl]
  have hother : ∀ j, j ≠ i → p ∉ q j := fun j hj hmem => hj (h.queued.disj hmem hp)
  obtain ⟨L, -, hL, hrem, hun⟩ := removeOrder_spec
    (b := (b.traded t p i m.qtyRemaining).eraseActive m.orderId) (o := m.fill m.qtyRemaining)
    h.queued hq' hmo hl
  -- the filled maker weighs nothing, so leaving changes only the count
  have hzero : weight (b.traded t p i m.qtyRemaining).orders p = 0 := by
    rw [weight, deref_of_some hmo]
    simp [Order.fill]
  have hcnt' := hcnt.unlink (h.queued.nodup i) hother hq'
  rw [hzero, sub_zero] at hcnt'
  have hdead : ∀ j, ∀ x ∈ dropPtr q p j,
      Function.update (b.traded t p i m.qtyRemaining).orders p none x = b.orders x := by
    intro j x hx
    obtain ⟨hxj, hxp⟩ := mem_dropPtr.mp hx
    rw [Function.update_of_ne hxp, ho, if_neg (fun e : x = t => h.loose j (e ▸ hxj)), if_neg hxp]
  refine ⟨_, hrem, hL, rfl, rfl, rfl, rfl, ?_,
    ⟨⟨hun, ?_, ?_, h.chained, h.inRange, ?_, ?_⟩, ?_, ?_, ⟨?_, ?_⟩⟩⟩
  · funext j
    refine (contents_congr (hdead j)).trans ?_
    by_cases hj : j = i
    · subst hj
      rw [Function.update_self, contents, dropPtr_of_split (h.queued.nodup j) hq']
      rfl
    · rw [Function.update_of_ne hj, contents, contents, dropPtr_of_not_mem (hother j hj)]
  · exact Counted.congr hcnt' (fun j x hx =>
      weight_congr (Function.update_of_ne (mem_dropPtr.mp hx).2 _ _))
  · intro j x hx
    obtain ⟨o', ho', hl', hs'⟩ := h.alive j x (mem_dropPtr.mp hx).1
    exact ⟨o', (hdead j x hx).trans ho', hl', hs'⟩
  · intro j hj
    exact h.held (fun e => hj (by simp [dropPtr, e]))
  · intro x hx
    have hnone := h.fresh hx
    have hxp : x ≠ p := fun e => by rw [e, hm] at hnone; cases hnone
    have hxt : x ≠ t := fun e => by rw [e, h.taker] at hnone; cases hnone
    show Function.update (b.traded t p i m.qtyRemaining).orders p none x = none
    rw [Function.update_of_ne hxp, ho, if_neg hxt, if_neg hxp, hnone]
  · show Function.update (b.traded t p i m.qtyRemaining).orders p none t = _
    rw [Function.update_of_ne hpt.symm, ho, if_pos rfl]
  · intro j hx
    exact h.loose j (mem_dropPtr.mp hx).1
  · intro id x hne
    show Function.update b.activeOrders m.orderId none id = some x ↔ _ ∧
      (deref (Function.update (b.traded t p i m.qtyRemaining).orders p none) x).orderId = id
    have hmd : (deref b.orders p).orderId = m.orderId := by rw [deref_of_some hm]
    by_cases hid : id = m.orderId
    · -- the erased id: no other queued order had it
      rw [hid, Function.update_self]
      refine ⟨fun e => absurd e (by simp), ?_⟩
      rintro ⟨⟨j, hx⟩, he⟩
      rw [deref_congr (hdead j x hx)] at he
      have hact : b.activeOrders m.orderId = some x :=
        (h.indexed.iff (hid ▸ hne)).mpr ⟨⟨j, (mem_dropPtr.mp hx).1⟩, he⟩
      have hact' : b.activeOrders m.orderId = some p :=
        (h.indexed.iff (hid ▸ hne)).mpr ⟨⟨i, hp⟩, hmd⟩
      exact absurd (Option.some.inj (hact.symm.trans hact')) (mem_dropPtr.mp hx).2
    · rw [Function.update_of_ne hid, h.indexed.iff hne]
      constructor
      · rintro ⟨⟨j, hx⟩, he⟩
        have hxp : x ≠ p := fun e => hid (by rw [← he, e, hmd])
        have hx' := mem_dropPtr.mpr ⟨hx, hxp⟩
        exact ⟨⟨j, hx'⟩, by rw [deref_congr (hdead j x hx'), he]⟩
      · rintro ⟨⟨j, hx⟩, he⟩
        rw [deref_congr (hdead j x hx)] at he
        exact ⟨⟨j, (mem_dropPtr.mp hx).1⟩, he⟩
  · intro j x hx
    show (deref (Function.update (b.traded t p i m.qtyRemaining).orders p none) x).orderId ≠ _
    rw [deref_congr (hdead j x hx)]
    exact h.indexed.ne (mem_dropPtr.mp hx).1

end Trade

/-! ## The inner loop -/

/-- The records of one run of fills and then another; each draws its own ids. -/
theorem tradeRecords_append (c : Config) (taker : Nat) (s : Slot) :
    ∀ (gen : Nat → Nat) (fs fs' : List Fill), tradeRecords c taker s gen (fs ++ fs') =
      tradeRecords c taker s gen fs ++ tradeRecords c taker s (fun k => gen (k + fs.length)) fs'
  | _, [], _ => rfl
  | gen, f :: fs, fs' => by
    have ih := tradeRecords_append c taker s (fun k => gen (k + 1)) fs fs'
    simp only [Nat.add_right_comm _ _ 1, Nat.add_assoc] at ih
    simp [tradeRecords, ih, Nat.add_comm]

/-- From `st` to `st'` the taker made the trades `fills`. -/
structure Ran (st st' : State) (taker : Nat) (s : Slot) (fills : List Fill) : Prop
    extends Emits st st' (tradeRecords st.book.cfg taker s st.gen fills) where
  gen : st'.gen = fun k => st.gen (k + fills.length)
  nextOrder : st'.book.nextOrder = st.book.nextOrder

namespace Ran

theorem refl (st : State) (taker : Nat) (s : Slot) : Ran st st taker s [] :=
  ⟨Emits.silent st st.gen rfl rfl, rfl, rfl⟩

/-- One run of the matching loop after another. -/
theorem trans {st st' st'' : State} {taker : Nat} {s : Slot} {fs fs' : List Fill}
    (h : Ran st st' taker s fs) (h' : Ran st' st'' taker s fs') :
    Ran st st'' taker s (fs ++ fs') := by
  refine ⟨?_, ?_, h'.nextOrder.trans h.nextOrder⟩
  · rw [tradeRecords_append]
    have he := h'.toEmits
    rw [h.gen, h.cfg] at he
    exact h.toEmits.trans he
  · rw [h'.gen, h.gen]
    funext k
    show st.gen (k + fs'.length + fs.length) = st.gen (k + (fs ++ fs').length)
    rw [List.length_append, Nat.add_assoc, Nat.add_comm fs'.length]

/-- An edit of the book sends nothing. -/
theorem edit {st st' : State} {taker : Nat} {s : Slot} {fs : List Fill}
    (h : Ran st st' taker s fs) {b : OrderBook} (hc : b.cfg = st'.book.cfg)
    (hm : b.recoverMode = st'.book.recoverMode) (hn : b.nextOrder = st'.book.nextOrder) :
    Ran st { st' with book := b } taker s fs :=
  ⟨h.toEmits.edit hc hm, h.gen, hn.trans h.nextOrder⟩

end Ran

theorem trade_ran (st : State) (t p : Nat) (s : Slot) {i : Nat} (o : Order) {m : Order}
    (hl : m.level = i) :
    Ran st (st.trade t p s i o m) o.orderId s [⟨m, min m.qtyRemaining o.qtyRemaining,
      o.qtyRemaining - min m.qtyRemaining o.qtyRemaining⟩] :=
  ⟨trade_emits st t p s o hl, trade_gen .., by rw [trade_book]; rfl⟩

/-- The inner loop of `match` sweeps the level it is given. -/
theorem matchMakers_spec {t : Nat} {s : Slot} {i : Nat} {x : Nat → Bool} (hx : x i = true) :
    ∀ {ps : List Nat} (fuel : Nat) (st : State) {q : Nat → List Nat} {o : Order},
      InvBut t o st.book q → q i = ps → ps.length + 2 ≤ fuel →
      let w := sweep x o.qtyRemaining (contents st.book.orders q i)
      ∃ st' q', State.matchMakers t s i fuel (front i ps) st = some st' ∧
        InvBut t { o with qtyRemaining := w.left } st'.book q' ∧
        contents st'.book.orders q' = Function.update (contents st.book.orders q) i w.rest ∧
        st'.book.activeLevels = st.book.activeLevels ∧ Ran st st' o.orderId s w.fills
  | [], fuel + 1, st, q, o, h, hq, _ => by
    have hc : contents st.book.orders q i = [] := by simp [contents, hq]
    rw [hc]
    refine ⟨st, q, ?_, h, ?_, rfl, Ran.refl st o.orderId s⟩
    · rw [State.matchMakers, h.taker]
      exact if_pos (Or.inl rfl)
    · exact (Function.update_eq_self_iff.mpr hc.symm).symm
  | p :: ps, fuel + 2, st, q, o, h, hq, hf => by
    have hp : p ∈ q i := by simp [hq]
    obtain ⟨m, hm, hl, hs⟩ := h.alive i p hp
    have hlev : m.level = i := by rw [Order.level, hl]; rfl
    have hc : contents st.book.orders q i = m :: ps.map (deref st.book.orders) := by
      simp [contents, hq, deref_of_some hm]
    by_cases hr : o.qtyRemaining = 0
    · -- the taker is exhausted
      rw [hc, sweep_stop (Or.inl hr), ← hc]
      refine ⟨st, q, ?_, h, ?_, rfl, Ran.refl st o.orderId s⟩
      · rw [State.matchMakers, h.taker, Option.bind_eq_bind, Option.bind_some, if_pos (Or.inr hr)]
      · simp
    · have hstep : State.matchMakers t s i (fuel + 2) (front i (p :: ps)) st =
          if m.qtyRemaining - min m.qtyRemaining o.qtyRemaining ≠ 0 then
            State.matchMakers t s i (fuel + 1) (.order p) (st.trade t p s i o m)
          else
            (((st.trade t p s i o m).book.eraseActive m.orderId).removeOrderFromLevel p).bind
              fun b => (b.links.next (.order p)).bind fun next =>
                State.matchMakers t s i (fuel + 1) next
                  { st.trade t p s i o m with book := b.delete p } := by
        rw [State.matchMakers]
        simp only [front, h.taker, hr, OrderNode.ptr?, hm, Option.bind_eq_bind, Option.bind_some,
          reduceCtorEq, or_false, if_false]
      have hran := trade_ran st t p s o hlev
      by_cases hleft : m.qtyRemaining - min m.qtyRemaining o.qtyRemaining = 0
      · -- the maker is filled: the loop goes on behind it
        have hmin : min m.qtyRemaining o.qtyRemaining = m.qtyRemaining := by omega
        rw [hmin] at hran
        obtain ⟨b', hrem, hnext, hcfg, hmode, hlv, hno, hC, hinv⟩ := h.filled hq hm
        have hbook : (st.trade t p s i o m).book = st.book.traded t p i m.qtyRemaining := by
          rw [trade_book, hmin]
        have hran' := hran.edit (b := b'.delete p) (by rw [hbook]; exact hcfg)
          (by rw [hbook]; exact hmode) (by rw [hbook]; exact hno)
        obtain ⟨st', q', hrun, hinv', hC', hlv', hran''⟩ := matchMakers_spec hx
          (fuel + 1) { st.trade t p s i o m with book := b'.delete p } hinv
          (dropPtr_of_split (h.queued.nodup i) (show q i = [] ++ p :: ps from hq))
          (by simp at hf ⊢; omega)
        rw [hC, Function.update_self] at hinv' hC' hran''
        rw [hc, sweep_filled hr (hlev ▸ hx) (by omega)]
        refine ⟨st', q', ?_, hinv', ?_, hlv'.trans hlv, hran'.trans hran''⟩
        · rw [hstep, if_neg (not_not.mpr hleft), hbook, hrem, Option.bind_some, hnext,
            Option.bind_some]
          exact hrun
        · exact hC'.trans (Function.update_idem ..)
      · -- the maker keeps a remainder: the taker is exhausted
        have hlt : o.qtyRemaining < m.qtyRemaining := by omega
        have hmin := Nat.min_eq_right hlt.le
        rw [hmin, Nat.sub_self] at hran
        have hbook : (st.trade t p s i o m).book = st.book.traded t p i o.qtyRemaining := by
          rw [trade_book, hmin]
        have hinv := h.traded hp hm hlt
        rw [Order.fill, Nat.sub_self, ← hbook] at hinv
        rw [hc, sweep_part hr (hlev ▸ hx) hlt]
        refine ⟨st.trade t p s i o m, q, ?_, hinv, ?_, by rw [hbook]; rfl, hran⟩
        · rw [hstep, if_pos hleft, State.matchMakers, hinv.taker, Option.bind_eq_bind,
            Option.bind_some, if_pos (Or.inr rfl)]
        · rw [hbook]
          exact h.traded_contents hq hm

/-! ## The outer loop -/

/-- Pointers are numbers below `nextOrder`, so no queue is longer. -/
theorem Core.length_le {b : OrderBook} {q : Nat → List Nat} (h : Core b q) (i : Nat) :
    (q i).length ≤ b.nextOrder := by
  have hsub : q i ⊆ List.range b.nextOrder := by
    intro p hp
    obtain ⟨o, ho, -⟩ := h.alive i p hp
    rw [List.mem_range]
    by_contra hlt
    rw [h.fresh (Nat.le_of_not_lt hlt)] at ho
    cases ho
  simpa using ((h.queued.nodup i).subperm hsub).length_le

/-- No side has more levels than the price array. -/
theorem Core.levels_le {b : OrderBook} {q : Nat → List Nat} (h : Core b q) (s : Slot) :
    (levelsOf b.activeLevels s).length ≤ b.cfg.maxPriceLevels := by
  have hsub : levelsOf b.activeLevels s ⊆ List.range b.cfg.maxPriceLevels := fun i hi =>
    List.mem_range.mpr (h.inRange (mem_levelsOf.mp hi))
  simpa using ((levelsOf_nodup b.activeLevels s).subperm hsub).length_le

/-- The in-match invariant sees only what `SameOrders` keeps. -/
theorem InvBut.same {t : Nat} {o : Order} {b b' : OrderBook} {q : Nat → List Nat}
    (h : InvBut t o b q) (hc : Core b' q) (hs : SameOrders b b') : InvBut t o b' q :=
  ⟨hc, hs.orders ▸ h.taker, h.loose, by rw [hs.activeOrders, hs.orders]; exact h.indexed⟩

/-- A worse level of the opposite side is crossed only if a better one is. -/
theorem crossed_of_better {s : Slot} {idx i j : Nat} (h : s.flip.better i j)
    (hi : State.crossed s idx i = false) : State.crossed s idx j = false := by
  cases s <;> simp [State.crossed, Slot.flip, Slot.better] at * <;> omega

/-- An exhausted taker ends the outer loop. -/
theorem matchLevels_done {t : Nat} {o : Order} {st : State} {q : Nat → List Nat} {s : Slot}
    {idx fuel : Nat} (h : InvBut t o st.book q) (hr : o.qtyRemaining = 0) :
    State.matchLevels t s idx (fuel + 1) st = some st := by
  rw [State.matchLevels]
  split
  · rfl
  · simp [h.taker, hr]

/-- The outer loop of `match` sweeps the opposite side. -/
theorem matchLevels_spec {t : Nat} (s : Slot) (idx : Nat) :
    ∀ {ls : List Nat} (fuel : Nat) (st : State) {q : Nat → List Nat} {o : Order},
      InvBut t o st.book q → Full st.book q → levelsOf st.book.activeLevels s.flip = ls →
      ls.length + 2 ≤ fuel →
      let w := sweep (State.crossed s idx) o.qtyRemaining (flat st.book q s.flip)
      ∃ st' q', State.matchLevels t s idx fuel st = some st' ∧
        InvBut t { o with qtyRemaining := w.left } st'.book q' ∧ Full st'.book q' ∧
        flat st'.book q' = Function.update (flat st.book q) s.flip w.rest ∧
        (w.left ≠ 0 → ∀ j ∈ st'.book.activeLevels s.flip, State.crossed s idx j = false) ∧
        Ran st st' o.orderId s w.fills
  | [], fuel + 1, st, q, o, h, hf, hl, _ => by
    have hflat : flat st.book q s.flip = [] := by rw [flat, hl]; rfl
    rw [hflat]
    refine ⟨st, q, ?_, h, hf, ?_, fun _ j hj => ?_, Ran.refl st o.orderId s⟩
    · rw [State.matchLevels, h.chained.best, hl]
      rfl
    · exact (Function.update_eq_self_iff.mpr hflat.symm).symm
    · rw [← mem_levelsOf, hl] at hj
      cases hj
  | i :: ls, fuel + 2, st, q, o, h, hf, hl, hfuel => by
    have hi : i ∈ st.book.activeLevels s.flip := mem_levelsOf.mp (hl ▸ List.mem_cons_self)
    have hflat : flat st.book q s.flip =
        contents st.book.orders q i ++ ls.flatMap (contents st.book.orders q) := by
      rw [flat, hl, List.flatMap_cons]
    have hbest : st.book.bestLevels s.flip = some i := by rw [h.chained.best, hl]; rfl
    by_cases hr : o.qtyRemaining = 0
    · -- nothing is left to match
      rw [hr, sweep_zero]
      refine ⟨st, q, matchLevels_done h hr, ?_, hf, by simp, fun hne => absurd rfl hne,
        Ran.refl st o.orderId s⟩
      rw [← hr]
      exact h
    · by_cases hx : State.crossed s idx i = true
      · obtain ⟨st₁, q₁, hrun₁, h₁, hC₁, hlv₁, hran₁⟩ := matchMakers_spec (t := t) (s := s) hx _ st h rfl
          (Nat.add_le_add_right (h.length_le i) 2)
        -- the level just walked is settled, whether it was emptied or not
        obtain ⟨b₂, hset, hc₂, hf₂, hsame, hflat₂, hlv₂⟩ := h₁.toCore.settle (s := s.flip) (i := i)
          (hlv₁ ▸ hi) (fun s' j hj hji e => by
            have hcj : contents st₁.book.orders q₁ j = [] := by simp [contents, e]
            rw [hC₁, Function.update_of_ne hji] at hcj
            exact hf s' j (hlv₁ ▸ hj) (List.map_eq_nil_iff.mp hcj))
        have h₂ := h₁.same hc₂ hsame
        have hran₂ := hran₁.edit hsame.cfg hsame.recoverMode hsame.nextOrder
        have hstep : State.matchLevels t s idx (fuel + 2) st =
            State.matchLevels t s idx (fuel + 1) { st₁ with book := b₂ } := by
          rw [State.matchLevels, hbest]
          simp only [h.taker, hr, hx, h.queued.next_head (h.inRange hi), hrun₁, hset,
            Option.bind_eq_bind, Option.bind_some, if_false, if_true]
        have hl' : levelsOf st.book.activeLevels s.flip = [] ++ i :: ls := hl
        have hmade := hflat₂.trans (flat_update h.chained hlv₁ hC₁ hl')
        rw [List.flatMap_nil, List.nil_append] at hmade
        have hall : ∀ m ∈ contents st.book.orders q i, State.crossed s idx m.level = true :=
          fun m hm => by rw [(h.alive.contents hm).2.1, hx]
        rcases Nat.eq_zero_or_pos (sweep (State.crossed s idx) o.qtyRemaining
          (contents st.book.orders q i)).left with hz | hpos
        · -- the taker is exhausted at this level
          rw [hflat, sweep_append_of_left _ _ _ hz]
          rw [hz] at h₂
          refine ⟨_, q₁, hstep.trans (matchLevels_done h₂ rfl), h₂, hf₂, hmade,
            fun hne => absurd rfl hne, hran₂⟩
        · -- the level is used up and the loop goes on behind it
          have hrest := (sweep_exhausts _ o.qtyRemaining hall).resolve_left hpos.ne'
          have hempty : q₁ i = [] := by
            have hci := congrFun hC₁ i
            rw [Function.update_self, hrest] at hci
            exact List.map_eq_nil_iff.mp hci
          have hls := hlv₂ hempty (hlv₁.symm ▸ hl')
          obtain ⟨st', q', hrun, h', hf', hflat', hdone, hran'⟩ := matchLevels_spec s idx
            (fuel + 1) { st₁ with book := b₂ } h₂ hf₂ hls (by simp at hfuel ⊢; omega)
          rw [hrest, List.nil_append] at hmade
          rw [hmade, Function.update_self] at h' hflat' hdone hran'
          rw [hflat, sweep_append_of_rest _ _ _ hrest]
          exact ⟨st', q', hstep.trans hrun, h', hf', hflat'.trans (Function.update_idem ..), hdone,
            hran₂.trans hran'⟩
      · -- the best level does not cross, so no level does
        have hx' : State.crossed s idx i = false := by simpa using hx
        have hsorted := levelsOf_sorted st.book.activeLevels s.flip
        rw [hl] at hsorted
        obtain ⟨m, ms, hms⟩ := List.exists_cons_of_ne_nil (hf s.flip i hi)
        have hstop : sweep (State.crossed s idx) o.qtyRemaining (flat st.book q s.flip) =
            ⟨[], flat st.book q s.flip, o.qtyRemaining⟩ := by
          rw [hflat, contents, hms, List.map_cons, List.cons_append]
          refine sweep_stop (Or.inr ?_)
          rw [h.alive.level (hms ▸ List.mem_cons_self : m ∈ q i), hx']
        rw [hstop]
        refine ⟨st, q, ?_, h, hf, by simp, fun _ j hj => ?_, Ran.refl st o.orderId s⟩
        · rw [State.matchLevels, hbest]
          simp [h.taker, hx']
        · rw [← mem_levelsOf, hl] at hj
          rcases List.mem_cons.mp hj with rfl | hj
          · exact hx'
          · exact crossed_of_better ((List.pairwise_cons.mp hsorted).1 j hj) hx'

/-! ## The taker's end -/

section Settle

variable {t : Nat} {o : Order} {b : OrderBook} {q : Nat → List Nat}

/-- An exhausted taker leaves the index and the heap. -/
theorem InvBut.gone (h : InvBut t o b q) (hf : Full b q) :
    Inv ((b.eraseActive o.orderId).delete t) q ∧
      flat ((b.eraseActive o.orderId).delete t) q = flat b q := by
  have hkeep : ∀ j, ∀ p ∈ q j, Function.update b.orders t none p = b.orders p :=
    fun j p hp => Function.update_of_ne (fun e : p = t => h.loose j (e ▸ hp)) _ _
  refine ⟨⟨⟨h.queued, ?_, ?_, h.chained, h.inRange, h.held, ?_⟩, hf, ?_⟩, ?_⟩
  · exact h.counted.congr (fun j p hp => weight_congr (hkeep j p hp))
  · intro j p hp
    obtain ⟨o', ho', hr⟩ := h.alive j p hp
    exact ⟨o', (hkeep j p hp).trans ho', hr⟩
  · intro p hp
    show Function.update b.orders t none p = none
    rw [Function.update_apply]
    split
    · rfl
    · exact h.fresh hp
  · intro id p
    show Function.update b.activeOrders o.orderId none id = some p ↔ _ ∧
      (deref (Function.update b.orders t none) p).orderId = id
    by_cases hid : id = o.orderId
    · rw [hid, Function.update_self]
      refine ⟨fun e => absurd e (by simp), ?_⟩
      rintro ⟨⟨j, hp⟩, he⟩
      rw [deref_congr (hkeep j p hp)] at he
      exact absurd he (h.indexed.ne hp)
    · rw [Function.update_of_ne hid, h.indexed.iff hid]
      constructor <;> rintro ⟨⟨j, hp⟩, he⟩
      · exact ⟨⟨j, hp⟩, by rw [deref_congr (hkeep j p hp), he]⟩
      · exact ⟨⟨j, hp⟩, by rw [← he, deref_congr (hkeep j p hp)]⟩
  · funext s
    exact List.flatMap_congr (fun j _ => contents_congr (hkeep j))

/-- A taker with a remainder joins the back of its level, on its own side. -/
theorem InvBut.rests (h : InvBut t o b q) (hf : Full b q) (hs : o.Sane) {s : Slot} {i : Nat}
    (hi : i < b.cfg.maxPriceLevels)
    (hx : ∀ j ∈ b.activeLevels s.flip, State.crossed s i j = false) :
    ∃ b₁ b₂, b.getOrCreatePriceLevel i s.side = some b₁ ∧ b₁.insertOrderToLevel i t = some b₂ ∧
      Inv (b₂.setActive o.orderId t) (pushPtr q i t) ∧ b₂.cfg = b.cfg ∧
      b₂.recoverMode = b.recoverMode ∧
      flat b₂ (pushPtr q i t) = Function.update (flat b q) s
        (place s { o with priceLevel := some i } (flat b q s)) := by
  -- the level is there or made, then the order goes to its end
  obtain ⟨b₁, hb₁, hc₁, hi₁, hf₁, hsame, hflat₁⟩ := h.toCore.create hf hi hx
  obtain ⟨b₂, hb₂, hc₂, hcfg, hord, hno, hact, hmode, hlv, hflat₂⟩ :=
    hc₁.insert hi₁ (hsame.orders ▸ h.taker) h.loose hs
  rw [hsame.orders] at hord
  -- no other order is touched
  have hkeep : ∀ {j p}, p ∈ q j → deref b₂.orders p = deref b.orders p := by
    intro j p hp
    rw [hord]
    exact deref_congr (Function.update_of_ne (fun e : p = t => h.loose j (e ▸ hp)) _ _)
  have hself : deref b₂.orders t = { o with priceLevel := some i } :=
    deref_of_some (by rw [hord, Function.update_self])
  refine ⟨b₁, b₂, hb₁, hb₂, ⟨⟨hc₂.queued, hc₂.counted, hc₂.alive, hc₂.chained, hc₂.inRange,
    hc₂.held, hc₂.fresh⟩, ?_, ?_⟩, hcfg.trans hsame.cfg, hmode.trans hsame.recoverMode,
    hflat₂.trans (by rw [hflat₁])⟩
  · intro s' j hj
    by_cases hji : j = i
    · rw [hji, pushPtr_self]
      simp
    · rw [pushPtr_ne hji]
      exact hf₁ s' j (hlv ▸ hj) hji
  -- the index has one more id
  · intro id p
    show Function.update b₂.activeOrders o.orderId (some t) id = some p ↔ _ ∧
      (deref b₂.orders p).orderId = id
    rw [hact, hsame.activeOrders]
    by_cases hid : id = o.orderId
    · rw [hid, Function.update_self]
      constructor
      · rintro e
        obtain rfl : t = p := Option.some.inj e
        exact ⟨⟨i, by simp⟩, by rw [hself]⟩
      · rintro ⟨⟨j, hp⟩, he⟩
        rcases mem_pushPtr.mp hp with hp' | ⟨-, rfl⟩
        · rw [hkeep hp'] at he
          exact absurd he (h.indexed.ne hp')
        · rfl
    · rw [Function.update_of_ne hid, h.indexed.iff hid]
      constructor
      · rintro ⟨⟨j, hp⟩, he⟩
        exact ⟨⟨j, mem_pushPtr.mpr (Or.inl hp)⟩, by rw [hkeep hp, he]⟩
      · rintro ⟨⟨j, hp⟩, he⟩
        rcases mem_pushPtr.mp hp with hp' | ⟨-, rfl⟩
        · exact ⟨⟨j, hp'⟩, by rw [← hkeep hp', he]⟩
        · exact absurd (he.symm.trans (by rw [hself])) hid

end Settle

/-- `st'` is `st` after a request that was answered as the specification says. -/
structure Answers (st st' : State) (ans : Answer) : Prop
    extends Emits st st' ans.recs where
  lob : ∃ q, Inv st'.book q ∧ flat st'.book q = ans.lob
  gen : st'.gen = ans.gen

/-- A record sent before the rest of an answer. -/
theorem Answers.after {st st₁ st' : State} {ans : Answer} {r : OrderResponse}
    (h : Answers st₁ st' ans) (he : Emits st st₁ [r]) : Answers st st' (ans.after r) :=
  ⟨he.trans h.toEmits, h.lob, h.gen⟩

/-- `match` executes the taker against the book. An index behind the last level does no harm to
a taker that has nothing left to rest. -/
theorem matchTaker_answers (st : State) {t : Nat} {o : Order} {q : Nat → List Nat} (s : Slot)
    (idx : Nat) (h : InvBut t o st.book q) (hf : Full st.book q) (hs : o.Sane)
    (hi : idx < st.book.cfg.maxPriceLevels ∨ (st.matchTaker t s.side idx).isSome) :
    ∃ st', st.matchTaker t s.side idx = some st' ∧
      Answers st st' (Lob.execute st.book.cfg st.gen (flat st.book q) s o idx) := by
  obtain ⟨st₁, q₁, hrun, h₁, hf₁, hflat₁, hdone, hran⟩ := matchLevels_spec s idx _ st h hf
    rfl (Nat.add_le_add_right (h.levels_le s.flip) 2)
  have hrun' : st.matchTaker t s.side idx =
      if (sweep (State.crossed s idx) o.qtyRemaining (flat st.book q s.flip)).left = 0 then
        some { st₁ with book := (st₁.book.eraseActive o.orderId).delete t }
      else (st₁.book.getOrCreatePriceLevel idx s.side).bind fun b =>
        (b.insertOrderToLevel idx t).bind fun b =>
          some { st₁ with book := b.setActive o.orderId t } := by
    simp only [State.matchTaker, Slot.slot_side, hrun, h₁.taker, Option.bind_eq_bind,
      Option.bind_some]
  by_cases hz : (sweep (State.crossed s idx) o.qtyRemaining (flat st.book q s.flip)).left = 0
  · obtain ⟨hinv, hflat⟩ := h₁.gone hf₁
    refine ⟨_, hrun'.trans (if_pos hz), ?_, ⟨q₁, hinv, ?_⟩, hran.gen⟩
    · exact (hran.edit (b := (st₁.book.eraseActive o.orderId).delete t) rfl rfl rfl).toEmits
    · rw [Lob.execute]
      simp only [hz, if_true]
      exact hflat.trans hflat₁
  · have hsane : Order.Sane { o with qtyRemaining := (sweep (State.crossed s idx) o.qtyRemaining
        (flat st.book q s.flip)).left } :=
      ⟨hs.id, Nat.pos_of_ne_zero hz, (sweep_left_le _ _).trans hs.le, hs.max⟩
    have hidx : idx < st₁.book.cfg.maxPriceLevels := by
      rcases hi with hi | hsome
      · rw [hran.cfg]
        exact hi
      · by_contra hout
        rw [hrun', if_neg hz, OrderBook.getOrCreatePriceLevel, if_neg hout] at hsome
        cases hsome
    obtain ⟨b₁, b₂, hb₁, hb₂, hinv, hcfg, hmode, hflat⟩ := h₁.rests hf₁ hsane (s := s) hidx (hdone hz)
    refine ⟨{ st₁ with book := b₂.setActive o.orderId t }, ?_, ?_, ⟨pushPtr q₁ idx t, hinv, ?_⟩,
      hran.gen⟩
    · rw [hrun', if_neg hz, hb₁, Option.bind_some, hb₂, Option.bind_some]
    · exact ⟨hcfg.trans hran.cfg, hmode.trans hran.mode, hran.log⟩
    · rw [Lob.execute]
      simp only [hz, if_false]
      refine hflat.trans ?_
      rw [hflat₁, Function.update_of_ne (Slot.ne_flip s)]

end Exchange
