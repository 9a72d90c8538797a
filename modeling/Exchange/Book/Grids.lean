import Mathlib.Data.List.Forall2
import Exchange.Book.RoundTrip

/-!
# Two books on different grids

A book keeps an order at a level, and a level is a price only by the step and the offset the book was
built with. Two books whose grids differ are given the same requests: as long as every price is on both
grids and no order is a market order, they hold the same orders at the same prices, in the same order, and
send the same records (`grids_alike`). Levels are compared through their prices (`SamePrice`), so the
relation needs no map from one grid to the other.

A market order is left out because it rests at the last level of its book, whatever that is worth.
-/

namespace Exchange

/-- `i` is for `c` the price that `i'` is for `c'`. -/
def SamePrice (c c' : Config) (i i' : Nat) : Prop := c'.plToPrice i' = c.plToPrice i

/-- An order in each of two books, wherever it rests. -/
structure Order.Paired (o o' : Order) : Prop where
  orderId : o'.orderId = o.orderId
  qtyOriginal : o'.qtyOriginal = o.qtyOriginal
  qtyRemaining : o'.qtyRemaining = o.qtyRemaining
  type : o'.type = o.type
  timestamp : o'.timestamp = o.timestamp
  symbolId : o'.symbolId = o.symbolId

/-- An order in each of two books, at one price. -/
structure Order.Regrid (c c' : Config) (o o' : Order) : Prop extends Order.Paired o o' where
  level : SamePrice c c' o.level o'.level

/-- Two books with the same orders at the same prices. -/
def Lob.Regrid (c c' : Config) (a a' : Lob) : Prop := ∀ s, List.Forall₂ (Order.Regrid c c') (a s) (a' s)

/-- The records of the second book say its own symbol. -/
def OrderResponse.of (c : Config) (r : OrderResponse) : OrderResponse := { r with symbolId := c.symbolId }

/-- Two answers that leave the same orders and send the same records. -/
structure Answer.Regrid (c c' : Config) (ans ans' : Answer) : Prop where
  lob : ans.lob.Regrid c c' ans'.lob
  gen : ans'.gen = ans.gen
  recs : ans'.recs = ans.recs.map (OrderResponse.of c')

section Grids

variable {c c' : Config}

/-! ## Levels -/

namespace SamePrice

variable {i j i' j' : Nat}

/-- Levels of the same prices are in the same order. -/
theorem le_iff (hi : SamePrice c c' i i') (hj : SamePrice c c' j j') : i' ≤ j' ↔ i ≤ j := by
  rw [← c'.plToPrice_le, hi, hj, c.plToPrice_le]

theorem eq_iff (hi : SamePrice c c' i i') (hj : SamePrice c c' j j') : i' = j' ↔ i = j := by
  rw [← c'.plToPrice_inj, hi, hj, c.plToPrice_inj]

theorem better_iff (s : Slot) (hi : SamePrice c c' i i') (hj : SamePrice c c' j j') :
    s.better i' j' ↔ s.better i j := by
  cases s with
  | bid =>
    show j' < i' ↔ j < i
    rw [← not_le, ← not_le, hi.le_iff hj]
  | ask =>
    show i' < j' ↔ i < j
    rw [← not_le, ← not_le, hj.le_iff hi]

/-- Crossing is a matter of prices. -/
theorem crossed_eq (s : Slot) (hi : SamePrice c c' i i') (hj : SamePrice c c' j j') :
    State.crossed s i' j' = State.crossed s i j := by
  cases s with
  | bid => exact decide_eq_decide.mpr (hj.le_iff hi)
  | ask => exact decide_eq_decide.mpr (hi.le_iff hj)

end SamePrice

/-- A price on both grids is a level of each. -/
theorem samePrice_priceToIndex {p : Int} (h : c.OnGrid p) (h' : c'.OnGrid p) :
    SamePrice c c' (c.priceToIndex p) (c'.priceToIndex p) := by
  obtain ⟨i, hi, hp⟩ := h
  obtain ⟨i', hi', hp'⟩ := h'
  unfold SamePrice
  rw [congrArg c.priceToIndex hp, congrArg c'.priceToIndex hp', c.priceToIndex_plToPrice hi,
    c'.priceToIndex_plToPrice hi', ← hp, ← hp']

theorem response_of (execType : ExecType) (combined execId : Nat) (side : Side) (p : Int) (q qRem : Nat)
    (code : RejectCode) : (c.response execType combined execId side p q qRem code).of c' =
      c'.response execType combined execId side p q qRem code := rfl

/-! ## Orders -/

namespace Order.Paired

variable {o o' : Order} (h : Order.Paired o o')

include h

theorem executed : o'.executed = o.executed := by
  unfold Order.executed
  rw [h.qtyOriginal, h.qtyRemaining]

theorem resized (newQty : Nat) : Order.Paired (o.resized newQty) (o'.resized newQty) := by
  refine ⟨h.orderId, rfl, ?_, h.type, h.timestamp, h.symbolId⟩
  unfold Order.resized
  rw [h.executed]

theorem newQty (req : OrderRequest) : req.newQty o' = req.newQty o := by
  unfold OrderRequest.newQty
  rw [h.qtyOriginal]

/-- What is left of a taker comes to rest. -/
theorem rested {idx idx' : Nat} (hidx : SamePrice c c' idx idx') (r : Nat) :
    Order.Regrid c c' { o with priceLevel := some idx, qtyRemaining := r }
      { o' with priceLevel := some idx', qtyRemaining := r } :=
  ⟨⟨h.orderId, h.qtyOriginal, rfl, h.type, h.timestamp, h.symbolId⟩, hidx⟩

end Order.Paired

/-- A fill leaves the price alone. -/
theorem Order.Regrid.fill {o o' : Order} (h : Order.Regrid c c' o o') (q : Nat) :
    Order.Regrid c c' (o.fill q) (o'.fill q) := by
  refine ⟨⟨h.orderId, h.qtyOriginal, ?_, h.type, h.timestamp, h.symbolId⟩, h.level⟩
  unfold Order.fill
  rw [h.qtyRemaining]

/-! ## Sweeps -/

/-- A trade in each of two books. -/
structure Fill.Regrid (c c' : Config) (f f' : Fill) : Prop where
  maker : Order.Regrid c c' f.maker f'.maker
  qty : f'.qty = f.qty
  left : f'.left = f.left

/-- Two sweeps that trade the same and leave the same. -/
structure Sweep.Regrid (c c' : Config) (w w' : Sweep) : Prop where
  fills : List.Forall₂ (Fill.Regrid c c') w.fills w'.fills
  rest : List.Forall₂ (Order.Regrid c c') w.rest w'.rest
  left : w'.left = w.left

/-- The induction is along the makers of both books at once. -/
theorem sweep_regrid {s : Slot} {idx idx' : Nat} (hidx : SamePrice c c' idx idx') {ms ms' : List Order}
    (h : List.Forall₂ (Order.Regrid c c') ms ms') (r : Nat) :
    Sweep.Regrid c c' (sweep (State.crossed s idx) r ms) (sweep (State.crossed s idx') r ms') := by
  induction h generalizing r with
  | nil => exact ⟨.nil, .nil, rfl⟩
  | @cons m m' ms ms' hm hms ih =>
    have hx : State.crossed s idx' m'.level = State.crossed s idx m.level := hidx.crossed_eq s hm.level
    by_cases hstop : r = 0 ∨ State.crossed s idx m.level = false
    · rw [sweep_stop hstop, sweep_stop (by rw [hx]; exact hstop)]
      exact ⟨.nil, .cons hm hms, rfl⟩
    obtain ⟨hr, hcross⟩ := not_or.mp hstop
    have hcross : State.crossed s idx m.level = true := Bool.not_eq_false _ ▸ hcross
    by_cases hle : m.qtyRemaining ≤ r
    · rw [sweep_filled hr hcross hle,
        sweep_filled hr (by rw [hx]; exact hcross) (by rw [hm.qtyRemaining]; exact hle), hm.qtyRemaining]
      have hnext := ih (r - m.qtyRemaining)
      exact ⟨.cons ⟨hm, rfl, rfl⟩ hnext.fills, hnext.rest, hnext.left⟩
    · have hlt := Nat.lt_of_not_le hle
      rw [sweep_part hr hcross hlt,
        sweep_part hr (by rw [hx]; exact hcross) (by rw [hm.qtyRemaining]; exact hlt)]
      exact ⟨.cons ⟨hm, rfl, rfl⟩ .nil, .cons (hm.fill r) hms, rfl⟩

/-- An order joins its queue at the same place on both grids. -/
theorem place_regrid {s : Slot} {o o' : Order} (ho : Order.Regrid c c' o o') {l l' : List Order}
    (h : List.Forall₂ (Order.Regrid c c') l l') :
    List.Forall₂ (Order.Regrid c c') (place s o l) (place s o' l') := by
  induction h with
  | nil => exact .cons ho .nil
  | cons hx hxs ih =>
    rw [place, place]
    simp only [ho.level.better_iff s hx.level]
    split
    · exact .cons ho (.cons hx hxs)
    · exact .cons hx ih

/-- Trades say the same of the same fills. -/
theorem tradeRecords_regrid (taker : Nat) (s : Slot) {fs fs' : List Fill}
    (h : List.Forall₂ (Fill.Regrid c c') fs fs') (gen : Nat → Nat) :
    tradeRecords c' taker s gen fs' = (tradeRecords c taker s gen fs).map (OrderResponse.of c') := by
  induction h generalizing gen with
  | nil => rfl
  | @cons f f' fs fs' hf hfs ih =>
    have hleft : f'.makerLeft = f.makerLeft := by
      unfold Fill.makerLeft
      rw [hf.maker.qtyRemaining, hf.qty]
    have hprice : c'.plToPrice f'.maker.level = c.plToPrice f.maker.level := hf.maker.level
    unfold tradeRecords
    rw [List.map_cons, List.map_cons, response_of, response_of, ih, hleft, hf.left, hf.qty, hf.maker.orderId, hprice]

/-! ## Books -/

theorem find?_regrid {l l' : List Order} (h : List.Forall₂ (Order.Regrid c c') l l') (id : Nat) :
    Option.Rel (Order.Regrid c c') (l.find? (·.orderId = id)) (l'.find? (·.orderId = id)) := by
  induction h with
  | nil => exact .none
  | @cons o o' l l' ho _ ih =>
    rw [List.find?_cons, List.find?_cons, ho.orderId]
    by_cases hid : o.orderId = id
    · rw [decide_eq_true hid]
      exact .some ho
    · rw [decide_eq_false hid]
      exact ih

/-- What the second book holds, the first does. -/
theorem Lob.Regrid.mem {a a' : Lob} (h : a.Regrid c c' a') (s : Slot) {o' : Order} (ho' : o' ∈ a' s) :
    ∃ o ∈ a s, Order.Regrid c c' o o' := by
  have hside : ∀ {l l' : List Order}, List.Forall₂ (Order.Regrid c c') l l' → o' ∈ l' →
      ∃ o ∈ l, Order.Regrid c c' o o' := by
    intro l l' hl ho'
    induction hl with
    | nil => exact absurd ho' List.not_mem_nil
    | @cons x x' l l' hx _ ih =>
      rcases List.mem_cons.mp ho' with rfl | ho'
      · exact ⟨x, List.mem_cons_self, hx⟩
      · obtain ⟨o, ho, hoo⟩ := ih ho'
        exact ⟨o, List.mem_cons_of_mem _ ho, hoo⟩
  exact hside (h s) ho'

/-- The order with an id in each of two books, and its side. -/
def Found (c c' : Config) (x x' : Slot × Order) : Prop := x'.1 = x.1 ∧ Order.Regrid c c' x.2 x'.2

namespace Lob.Regrid

variable {a a' : Lob} (h : a.Regrid c c' a')

include h

theorem find (id : Nat) : Option.Rel (Found c c') (a.find id) (a'.find id) := by
  have hbid := find?_regrid (h .bid) id
  have hask := find?_regrid (h .ask) id
  unfold Lob.find
  revert hbid hask
  generalize (a .bid).find? _ = x
  generalize (a' .bid).find? _ = x'
  generalize (a .ask).find? _ = y
  generalize (a' .ask).find? _ = y'
  intro hbid hask
  cases hbid with
  | some ho => exact .some ⟨rfl, ho⟩
  | none =>
    cases hask with
    | some ho => exact .some ⟨rfl, ho⟩
    | none => exact .none

theorem remove (id : Nat) : (a.remove id).Regrid c c' (a'.remove id) := fun s => by
  refine List.rel_filter (fun o o' ho => ?_) (h s)
  show decide (o.orderId ≠ id) = true ↔ decide (o'.orderId ≠ id) = true
  rw [ho.orderId]

theorem resize (id q r : Nat) : (a.resize id q r).Regrid c c' (a'.resize id q r) := fun s => by
  refine List.rel_map (fun o o' ho => ?_) (h s)
  by_cases hid : o.orderId = id
  · rw [if_pos hid, if_pos (ho.orderId.trans hid)]
    exact ⟨⟨ho.orderId, rfl, rfl, ho.type, ho.timestamp, ho.symbolId⟩, ho.level⟩
  · rw [if_neg hid, if_neg (ho.orderId ▸ hid)]
    exact ho

/-- Trading and resting what is left, on both grids. -/
theorem execute {t t' : Order} (ht : Order.Paired t t') {idx idx' : Nat} (hidx : SamePrice c c' idx idx')
    (s : Slot) (gen : Nat → Nat) :
    Answer.Regrid c c' (a.execute c gen s t idx) (a'.execute c' gen s t' idx') := by
  have hsweep := sweep_regrid (s := s) hidx (h s.flip) t.qtyRemaining
  refine ⟨fun s' => ?_, ?_, ?_⟩
  · by_cases hs : s' = s
    · subst hs
      rw [execute_self, execute_self, ht.qtyRemaining, hsweep.left]
      split
      · exact h s'
      · exact place_regrid (ht.rested hidx _) (h s')
    · obtain rfl : s' = s.flip := Slot.eq_flip hs
      rw [execute_flip, execute_flip, ht.qtyRemaining]
      exact hsweep.rest
  · unfold Lob.execute
    rw [ht.qtyRemaining]
    dsimp only
    rw [hsweep.fills.length_eq]
  · unfold Lob.execute
    rw [ht.qtyRemaining, ht.orderId]
    exact tradeRecords_regrid t.orderId s hsweep.fills gen

theorem reject (gen : Nat → Nat) (req : OrderRequest) (qRem : Nat) (code : RejectCode) :
    Answer.Regrid c c' (a.reject c gen req qRem code) (a'.reject c' gen req qRem code) := ⟨h, rfl, rfl⟩

end Lob.Regrid

theorem Answer.Regrid.after {ans ans' : Answer} (h : Answer.Regrid c c' ans ans') {r r' : OrderResponse}
    (hr : r' = r.of c') : Answer.Regrid c c' (ans.after r) (ans'.after r') :=
  ⟨h.lob, h.gen, by rw [Answer.after_recs, Answer.after_recs, List.map_cons, hr, h.recs]⟩

/-! ## Requests -/

/-- A request whose price, if it names one, is on both grids, and which is for no market order. -/
structure OrderRequest.Fits (c c' : Config) (req : OrderRequest) : Prop where
  new : req.action = .new → req.type ≠ .market ∧ req.p ≠ 0
  price : req.p ≠ 0 → c.OnGrid req.p ∧ c'.OnGrid req.p

instance (c c' : Config) (req : OrderRequest) : Decidable (req.Fits c c') :=
  decidable_of_iff ((req.action = .new → req.type ≠ .market ∧ req.p ≠ 0) ∧
    (req.p ≠ 0 → c.OnGrid req.p ∧ c'.OnGrid req.p)) ⟨fun h => ⟨h.1, h.2⟩, fun h => ⟨h.new, h.price⟩⟩

/-- A price of the grid passes the test of the price. -/
theorem Config.OnGrid.valid {p : Int} (h : c.OnGrid p) : c.priceInvalid p = 0 := by
  obtain ⟨i, hi, rfl⟩ := h
  exact c.priceInvalid_plToPrice hi

namespace Lob.Regrid

variable {a a' : Lob} (h : a.Regrid c c' a') {req : OrderRequest} (hfits : req.Fits c c')

include h hfits

theorem newOrder (hact : req.action = .new) (gen : Nat → Nat) :
    Answer.Regrid c c' (a.newOrder c gen req) (a'.newOrder c' gen req) := by
  obtain ⟨htype, hp⟩ := hfits.new hact
  obtain ⟨hgrid, hgrid'⟩ := hfits.price hp
  have hfound : (a'.find req.combinedId).isSome = (a.find req.combinedId).isSome := by
    have hfind := h.find req.combinedId
    revert hfind
    generalize a.find req.combinedId = x
    generalize a'.find req.combinedId = x'
    rintro (_ | _)
    · rfl
    · rfl
  have hidx : SamePrice c c' (State.newIndex c req) (State.newIndex c' req) := by
    unfold State.newIndex
    rw [if_neg htype, if_neg htype]
    exact samePrice_priceToIndex hgrid hgrid'
  unfold Lob.newOrder
  rw [hfound]
  split
  · exact h.reject gen req 0 .duplicateOrderID
  split
  · exact h.reject gen req 0 .priceInvalid
  split
  · exact h.reject gen req 0 .invalidQuantity
  · exact (h.execute ⟨rfl, rfl, rfl, rfl, rfl, rfl⟩ hidx req.slot gen).after rfl

omit hfits in
theorem cancelOrder (gen : Nat → Nat) :
    Answer.Regrid c c' (a.cancelOrder c gen req) (a'.cancelOrder c' gen req) := by
  have hfind := h.find req.combinedId
  unfold Lob.cancelOrder
  revert hfind
  generalize a.find req.combinedId = x
  generalize a'.find req.combinedId = x'
  rintro (@⟨⟨s, o⟩, ⟨s', o'⟩, -, ho⟩ | _)
  · have hrecord : cancelRecord c' req o' = (cancelRecord c req o).of c' := by
      have hprice : c'.plToPrice o'.level = c.plToPrice o.level := ho.level
      unfold cancelRecord
      rw [response_of, ho.orderId, ho.qtyOriginal, hprice]
    refine ⟨?_, rfl, congrArg (fun r => [r]) hrecord⟩
    dsimp only
    rw [ho.orderId]
    exact h.remove o.orderId
  · exact h.reject gen req 0 .orderNotFound

omit hfits in
theorem replaceOrder {o o' : Order} (ho : Order.Regrid c c' o o') {target target' : Nat}
    (htarget : SamePrice c c' target target') (gen : Nat → Nat) (s : Slot) (newQty : Nat) :
    Answer.Regrid c c' (a.replaceOrder c gen s req o target newQty)
      (a'.replaceOrder c' gen s req o' target' newQty) := by
  have hprice : c'.plToPrice target' = c.plToPrice target := htarget
  have hrecord : replaceRecord c' req o' target' newQty = (replaceRecord c req o target newQty).of c' := by
    unfold replaceRecord
    rw [response_of, ho.executed, hprice]
  have hfinish : finishRecord c' req target' = (finishRecord c req target).of c' := by
    unfold finishRecord
    rw [response_of, hprice]
  have hsame : o'.level = target' ↔ o.level = target := ho.level.eq_iff htarget
  unfold Lob.replaceOrder
  simp only [ho.executed, ho.qtyOriginal, ho.qtyRemaining, ho.orderId, ne_eq, hsame]
  split
  · exact h.reject gen req o.qtyRemaining .invalidModify
  split
  · exact ⟨h, rfl, congrArg (fun r => [r]) hrecord⟩
  split
  · exact ⟨h.remove o.orderId, rfl, congrArg₂ (fun r r' => [r, r']) hrecord hfinish⟩
  split
  · exact ((h.remove o.orderId).execute (ho.resized newQty) htarget s gen).after hrecord
  · exact ⟨h.resize o.orderId newQty _, rfl, congrArg (fun r => [r]) hrecord⟩

theorem modifyOrder (gen : Nat → Nat) :
    Answer.Regrid c c' (a.modifyOrder c gen req) (a'.modifyOrder c' gen req) := by
  have hfind := h.find req.combinedId
  unfold Lob.modifyOrder
  revert hfind
  generalize a.find req.combinedId = x
  generalize a'.find req.combinedId = x'
  rintro (@⟨⟨s, o⟩, ⟨s', o'⟩, hs, ho⟩ | _)
  · obtain rfl : s' = s := hs
    have htarget : SamePrice c c' (req.target c o) (req.target c' o') := by
      unfold OrderRequest.target
      split
      · rename_i hp
        obtain ⟨hgrid, hgrid'⟩ := hfits.price hp
        exact samePrice_priceToIndex hgrid hgrid'
      · exact ho.level
    have hvalid : ¬ (req.p ≠ 0 ∧ c.priceInvalid req.p ≠ 0) := fun hp => hp.2 (hfits.price hp.1).1.valid
    have hvalid' : ¬ (req.p ≠ 0 ∧ c'.priceInvalid req.p ≠ 0) := fun hp => hp.2 (hfits.price hp.1).2.valid
    dsimp only
    rw [if_neg hvalid, if_neg hvalid', ho.qtyRemaining, ho.newQty]
    split
    · exact h.reject gen req o.qtyRemaining .invalidQuantity
    · exact h.replaceOrder ho htarget gen s' (req.newQty o)
  · exact h.reject gen req 0 .orderNotFound

/-- Both books answer a request alike. -/
theorem step (gen : Nat → Nat) : Answer.Regrid c c' (a.step c gen req) (a'.step c' gen req) := by
  unfold Lob.step
  cases hact : req.action with
  | cancel => exact h.cancelOrder gen
  | modify => exact h.modifyOrder hfits gen
  | other n => exact h.reject gen req 0 .invalidAction
  | new =>
    obtain ⟨-, hp⟩ := hfits.new hact
    obtain ⟨hgrid, hgrid'⟩ := hfits.price hp
    dsimp only
    rw [if_neg fun hv => hv.2 hgrid.valid, if_neg fun hv => hv.2 hgrid'.valid]
    exact h.newOrder hfits hact gen

/-- What is well formed for the one book is so for the other. -/
theorem wellFormed (hreq : WellFormed c a req) : WellFormed c' a' req := by
  refine ⟨hreq.side, fun hact s o' hfind' => ?_, hreq.type, fun hp => (hfits.price hp).2⟩
  have hfind := h.find req.combinedId
  rw [hfind'] at hfind
  revert hfind
  cases hx : a.find req.combinedId with
  | none => nofun
  | some so =>
    rintro (⟨hs, -⟩ | _)
    exact (hreq.named hact so.1 so.2 hx).trans (congrArg Slot.side hs.symm)

end Lob.Regrid

/-! ## Runs -/

/-- Two runs on the same requests. -/
structure State.Regrid (c c' : Config) (st st' : State) : Prop where
  lob : st.book.lob.Regrid c c' st'.book.lob
  gen : st'.gen = st.gen
  log : st'.log = st.log.map (OrderResponse.of c')

/-- The requests a book has served are served by a book on another grid, and it ends with the same orders at
the same prices and the same records: for limit orders that bear the side of the order they name, prices that
are on both grids, and the same trade ids drawn. -/
theorem grids_alike {reqs : List OrderRequest} {st : State}
    (h : Served (fun _ req => req.Fits c c') c reqs st) :
    ∃ st', Served (fun _ req => req.Fits c c') c' reqs st' ∧ State.Regrid c c' st st' := by
  induction h with
  | fresh gen =>
    refine ⟨⟨.fresh c', gen, []⟩, .fresh gen, ?_, rfl, rfl⟩
    intro s
    rw [fresh_lob, fresh_lob]
    exact .nil
  | step hst hfits hreq hrun ih =>
    obtain ⟨st', hst', hlob, hgen, hlog⟩ := ih
    have hreq' := hlob.wellFormed hfits hreq
    obtain ⟨⟨q', hq'⟩, hcfg', hmode'⟩ := hst'.reachable.inv
    obtain ⟨st₁', -, hrun', -, -, -, hlob₁', hlog₁', hgen₁'⟩ := hq'.safe_answer hcfg' hmode' hreq'.safe
    obtain ⟨hlob₁, hlog₁, hgen₁⟩ := hst.reachable.step_answer hreq hrun
    obtain ⟨halob, hagen, harecs⟩ := hlob.step hfits st'.gen
    rw [hgen] at halob hagen harecs hlob₁' hlog₁' hgen₁'
    refine ⟨st₁', hst'.step hfits hreq' hrun', ?_, ?_, ?_⟩
    · rw [hlob₁, hlob₁']
      exact halob
    · rw [hgen₁, hgen₁', hagen]
    · rw [hlog₁, hlog₁', hlog, harecs, List.map_append]

end Grids

/-- A finer grid, with another offset. -/
def fineConfig : Config where
  symbolId := 9
  minStep := 1
  priceIndexOffset := 3
  maxPriceLevels := 40
  minStep_pos := Int.one_pos
  levels_pos := by decide
  levels_lt := by decide

/-- The sample run, on the finer grid. -/
theorem sample_grids_alike : ∃ st st', Served (fun _ req => req.Fits sampleConfig fineConfig) fineConfig
    sampleRequests st' ∧ st.log.length = 9 ∧ State.Regrid sampleConfig fineConfig st st' := by
  obtain ⟨st, hst, hlength⟩ := Served.of_serveBy (fun _ req => req.Fits sampleConfig fineConfig)
    (fun _ req => decide (req.Fits sampleConfig fineConfig)) (fun _ _ => of_decide_eq_true) sampleConfig id
    sampleRequests (fun st => st.log.length = 9) (by decide +kernel)
  obtain ⟨st', hst', halike⟩ := grids_alike hst
  exact ⟨st, st', hst', of_decide_eq_true hlength, halike⟩

end Exchange
