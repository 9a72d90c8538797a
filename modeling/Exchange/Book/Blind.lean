import Exchange.Book.Execute

/-!
# What the book does not read

Of an order in the book the specification reads its id, its level and its two quantities. A
change of the other fields (`Blind`) can be made before an operation or behind it: the book is
the same either way, and so are the records. An order's type is read once, when it enters.
-/

namespace Exchange

/-- A change of an order that the book does not see. -/
structure Order.Blind (f : Order → Order) : Prop where
  orderId : ∀ o, (f o).orderId = o.orderId
  priceLevel : ∀ o, (f o).priceLevel = o.priceLevel
  qtyOriginal : ∀ o, (f o).qtyOriginal = o.qtyOriginal
  qtyRemaining : ∀ o, (f o).qtyRemaining = o.qtyRemaining
  update : ∀ (o : Order) (l : Option Nat) (q r : Nat),
    f { o with priceLevel := l, qtyOriginal := q, qtyRemaining := r } =
      { f o with priceLevel := l, qtyOriginal := q, qtyRemaining := r }

/-- A book, with its orders changed. -/
def Lob.through (f : Order → Order) (a : Lob) : Lob := fun s => (a s).map f

/-- The ids are what an order is found by. -/
theorem Lob.find_through {f : Order → Order} (hid : ∀ o, (f o).orderId = o.orderId) (a : Lob) (id : Nat) :
    (a.through f).find id = (a.find id).map fun so => (so.1, f so.2) := by
  have hside : ∀ s, (a.through f s).find? (·.orderId = id) = ((a s).find? (·.orderId = id)).map f := by
    intro s
    unfold Lob.through
    rw [List.find?_map]
    refine congrArg _ (congrArg (List.find? · (a s)) (funext fun o => ?_))
    rw [Function.comp_apply, hid]
  unfold Lob.find
  rw [hside, hside]
  cases (a .bid).find? (·.orderId = id) with
  | some o => rfl
  | none =>
    cases (a .ask).find? (·.orderId = id) with
    | some o => rfl
    | none => rfl

/-- A trade, with its maker changed. -/
def Fill.through (f : Order → Order) (x : Fill) : Fill := { x with maker := f x.maker }

/-- Two answers with the same book, numbers and records. -/
theorem Answer.ext {ans ans' : Answer} (hlob : ans.lob = ans'.lob) (hgen : ans.gen = ans'.gen)
    (hrecs : ans.recs = ans'.recs) : ans = ans' := by
  cases ans
  cases ans'
  cases hlob
  cases hgen
  cases hrecs
  rfl

/-- An answer, with the orders of its book changed. -/
def Answer.through (f : Order → Order) (ans : Answer) : Answer := { ans with lob := ans.lob.through f }

namespace Order.Blind

variable {f : Order → Order} (hf : Order.Blind f)

include hf

theorem level (o : Order) : (f o).level = o.level := by
  unfold Order.level
  rw [hf.priceLevel]

theorem executed (o : Order) : (f o).executed = o.executed := by
  unfold Order.executed
  rw [hf.qtyOriginal, hf.qtyRemaining]

/-- What is traded comes off alike. -/
theorem fill (o : Order) (q : Nat) : f (o.fill q) = (f o).fill q := by
  refine (hf.update o o.priceLevel o.qtyOriginal (o.qtyRemaining - q)).trans ?_
  unfold Order.fill
  rw [← hf.priceLevel, ← hf.qtyOriginal, hf.qtyRemaining]

/-- Where a taker comes to rest. -/
theorem rested (o : Order) (idx r : Nat) : f { o with priceLevel := some idx, qtyRemaining := r } =
    { f o with priceLevel := some idx, qtyRemaining := r } := by
  refine (hf.update o (some idx) o.qtyOriginal r).trans ?_
  rw [← hf.qtyOriginal]

theorem quantities (o : Order) (q r : Nat) : f { o with qtyOriginal := q, qtyRemaining := r } =
    { f o with qtyOriginal := q, qtyRemaining := r } := by
  refine (hf.update o o.priceLevel q r).trans ?_
  rw [← hf.priceLevel]

/-- A replaced order keeps what it has traded, seen through `f` too. -/
theorem resized (o : Order) (newQty : Nat) : f (o.resized newQty) = (f o).resized newQty := by
  unfold Order.resized
  rw [hf.executed]
  exact hf.quantities o newQty _

/-- A sweep takes the same quantities from the same orders. -/
theorem sweep (x : Nat → Bool) (ms : List Order) (r : Nat) : Exchange.sweep x r (ms.map f) =
    ⟨(Exchange.sweep x r ms).fills.map (Fill.through f), (Exchange.sweep x r ms).rest.map f,
      (Exchange.sweep x r ms).left⟩ := by
  refine sweep_induction (x := x) (P := fun r ms w => Exchange.sweep x r (ms.map f) =
    ⟨w.fills.map (Fill.through f), w.rest.map f, w.left⟩) (fun _ => rfl) (fun r m ms hstop => ?_)
    (fun r m ms w hr hx hle ih => ?_) (fun r m ms hr hx hlt => ?_) ms r
  · rw [List.map_cons, sweep_stop (by rw [hf.level]; exact hstop)]
    rfl
  · rw [List.map_cons, sweep_filled hr (by rw [hf.level]; exact hx) (by rw [hf.qtyRemaining]; exact hle),
      hf.qtyRemaining, ih]
    rfl
  · rw [List.map_cons, sweep_part hr (by rw [hf.level]; exact hx) (by rw [hf.qtyRemaining]; exact hlt),
      ← hf.fill]
    rfl

/-- An order joins its queue at the same place. -/
theorem place {s : Slot} {o : Order} :
    ∀ l : List Order, Exchange.place s (f o) (l.map f) = (Exchange.place s o l).map f
  | [] => rfl
  | x :: l => by
    rw [List.map_cons, Exchange.place, Exchange.place, place l, hf.level, hf.level]
    split <;> rfl

/-- A trade's records name the maker by its id and its level. -/
theorem tradeRecords (c : Config) (taker : Nat) (s : Slot) : ∀ (gen : Nat → Nat) (fs : List Fill),
    Exchange.tradeRecords c taker s gen (fs.map (Fill.through f)) = Exchange.tradeRecords c taker s gen fs
  | _, [] => rfl
  | gen, x :: fs => by
    have hmaker : (x.through f).maker = f x.maker := rfl
    have hleft : (x.through f).makerLeft = x.makerLeft := by
      unfold Fill.makerLeft
      rw [hmaker, hf.qtyRemaining]
      rfl
    rw [List.map_cons, Exchange.tradeRecords, Exchange.tradeRecords, tradeRecords c taker s _ fs, hleft, hmaker,
      hf.level, hf.orderId]
    rfl

/-- Trading and resting what is left, seen through `f`. -/
theorem execute (c : Config) (gen : Nat → Nat) (a : Lob) (s : Slot) (t : Order) (idx : Nat) :
    (a.through f).execute c gen s (f t) idx = (a.execute c gen s t idx).through f := by
  have hsweep := hf.sweep (State.crossed s idx) (a s.flip) t.qtyRemaining
  have hflip : a.through f s.flip = (a s.flip).map f := rfl
  have hlob : ∀ s', ((a.through f).execute c gen s (f t) idx).lob s' =
      ((a.execute c gen s t idx).lob s').map f := by
    intro s'
    by_cases hs : s' = s
    · subst hs
      rw [Lob.execute_self, Lob.execute_self, hf.qtyRemaining, hflip, hsweep]
      dsimp only
      split
      · rfl
      · rw [← hf.rested]
        exact hf.place (a s')
    · obtain rfl : s' = s.flip := Slot.eq_flip hs
      rw [Lob.execute_flip, Lob.execute_flip, hf.qtyRemaining, hflip, hsweep]
  have hgen : ((a.through f).execute c gen s (f t) idx).gen = (a.execute c gen s t idx).gen := by
    unfold Lob.execute
    rw [hf.qtyRemaining, hflip, hsweep]
    dsimp only
    rw [List.length_map]
  have hrecs : ((a.through f).execute c gen s (f t) idx).recs = (a.execute c gen s t idx).recs := by
    unfold Lob.execute
    rw [hf.qtyRemaining, hflip, hsweep, hf.orderId]
    exact hf.tradeRecords c t.orderId s gen _
  exact Answer.ext (funext hlob) hgen hrecs

theorem remove (a : Lob) (id : Nat) : (a.through f).remove id = (a.remove id).through f := by
  funext s
  unfold Lob.through Lob.remove
  rw [List.filter_map]
  refine congrArg _ (List.filter_congr fun o _ => ?_)
  rw [Function.comp_apply, hf.orderId]

theorem resize (a : Lob) (id q r : Nat) : (a.through f).resize id q r = (a.resize id q r).through f := by
  funext s
  unfold Lob.through Lob.resize
  rw [List.map_map, List.map_map]
  refine List.map_congr_left fun o _ => ?_
  rw [Function.comp_apply, Function.comp_apply]
  by_cases hid : o.orderId = id
  · rw [if_pos ((hf.orderId o).trans hid), if_pos hid]
    exact (hf.quantities o q r).symm
  · rw [if_neg (fun h => hid ((hf.orderId o).symm.trans h)), if_neg hid]

/-- An order is found under its id, seen through `f`. -/
theorem find (a : Lob) (id : Nat) :
    (a.through f).find id = (a.find id).map fun so => (so.1, f so.2) := Lob.find_through hf.orderId a id

theorem target (c : Config) (o : Order) (req : OrderRequest) : req.target c (f o) = req.target c o := by
  unfold OrderRequest.target
  rw [hf.level]

theorem newQty (o : Order) (req : OrderRequest) : req.newQty (f o) = req.newQty o := by
  unfold OrderRequest.newQty
  rw [hf.qtyOriginal]

/-- A replacement goes the same way, seen through `f`. -/
theorem replaceOrder (c : Config) (gen : Nat → Nat) (a : Lob) (s : Slot) (req : OrderRequest) (o : Order)
    (target newQty : Nat) : (a.through f).replaceOrder c gen s req (f o) target newQty =
      (a.replaceOrder c gen s req o target newQty).through f := by
  have hrecord : Lob.replaceRecord c req (f o) target newQty = Lob.replaceRecord c req o target newQty := by
    unfold Lob.replaceRecord
    rw [hf.executed]
  unfold Lob.replaceOrder
  rw [hf.executed, hf.level, hf.qtyOriginal, hf.qtyRemaining, hf.orderId, hrecord]
  split
  · rfl
  split
  · rfl
  split
  · rw [hf.remove]
    rfl
  split
  · rw [hf.remove, ← hf.resized, hf.execute]
    rfl
  · rw [hf.resize]
    rfl

/-- A request about an order that is in the book. -/
theorem step (c : Config) (gen : Nat → Nat) (a : Lob) {req : OrderRequest} (hact : req.action ≠ .new) :
    (a.through f).step c gen req = (a.step c gen req).through f := by
  unfold Lob.step
  split
  · unfold Lob.cancelOrder
    rw [hf.find]
    cases a.find req.combinedId with
    | none => rfl
    | some so =>
      unfold Lob.cancelRecord
      dsimp only [Option.map_some]
      rw [hf.orderId, hf.level, hf.qtyOriginal, hf.remove]
      rfl
  · unfold Lob.modifyOrder
    rw [hf.find]
    cases a.find req.combinedId with
    | none => rfl
    | some so =>
      dsimp only [Option.map_some]
      rw [hf.qtyRemaining, hf.target, hf.newQty, hf.replaceOrder]
      split
      · rfl
      split
      · rfl
      · rfl
  · rename_i hnew
    exact absurd hnew hact
  · rfl

end Order.Blind

end Exchange
