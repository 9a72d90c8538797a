import Exchange.Book.Model

/-!
# The limit order book, as a specification

What `OrderBook` is for, without its pointers: each side is one list of
resting orders in priority order, best price first and first come first
served inside a price. A taker sweeps the opposite list from the front
(`sweep`), a remainder is placed behind every order that is not worse
(`place`), and a cancelled order is dropped from the list.

`Lob.step` answers one request with the next book, the records sent and the
random numbers left. `Refine.lean` shows that `processRequest` computes it.
-/

namespace Exchange

/-- The level an order rests at. -/
def Order.level (o : Order) : Nat := o.priceLevel.getD 0

/-- The id and the quantities of a resting order. -/
structure Order.Sane (o : Order) : Prop where
  id : o.orderId < 2 ^ 64
  pos : 1 ≤ o.qtyRemaining
  le : o.qtyRemaining ≤ o.qtyOriginal
  max : o.qtyOriginal ≤ globalMaxQty

/-- `i` is a strictly better index than `j` on side `s`. -/
def Slot.better (s : Slot) (i j : Nat) : Prop :=
  match s with
  | .bid => j < i
  | .ask => i < j

instance (s : Slot) (i j : Nat) : Decidable (s.better i j) :=
  match s with
  | .bid => Nat.decLt j i
  | .ask => Nat.decLt i j

/-- One trade of a sweep: the maker as it stood, the quantity traded and what
the taker has left after it. -/
structure Fill where
  maker : Order
  qty : Nat
  left : Nat
  deriving DecidableEq, Repr

/-- The maker's remaining quantity after the trade. -/
def Fill.makerLeft (f : Fill) : Nat := f.maker.qtyRemaining - f.qty

/-- What a sweep leaves: its trades, the orders still resting, and the taker's
remaining quantity. -/
structure Sweep where
  fills : List Fill
  rest : List Order
  left : Nat
  deriving DecidableEq, Repr

/-- The greedy allocation of `r` over a list of makers, up to the first one
whose level is not crossed. -/
def sweep (crossed : Nat → Bool) : Nat → List Order → Sweep
  | r, [] => ⟨[], [], r⟩
  | r, m :: ms =>
    if r = 0 ∨ crossed m.level = false then ⟨[], m :: ms, r⟩
    else
      let qty := min m.qtyRemaining r
      if m.qtyRemaining - qty = 0 then
        let w := sweep crossed (r - qty) ms
        ⟨⟨m, qty, r - qty⟩ :: w.fills, w.rest, w.left⟩
      else ⟨[⟨m, qty, r - qty⟩], { m with qtyRemaining := m.qtyRemaining - qty } :: ms, r - qty⟩

/-- What a trade does to an order. -/
def Order.fill (qty : Nat) (o : Order) : Order := { o with qtyRemaining := o.qtyRemaining - qty }

section Sweep

variable {x : Nat → Bool} {r : Nat} {m : Order} {ms : List Order}

/-- A sweep stops when the taker is done, or at an order it does not cross; -/
theorem sweep_stop (h : r = 0 ∨ x m.level = false) : sweep x r (m :: ms) = ⟨[], m :: ms, r⟩ := by
  rw [sweep, if_pos h]

/-- an order that is no more than what is left is filled; -/
theorem sweep_filled (hr : r ≠ 0) (hx : x m.level = true) (hm : m.qtyRemaining ≤ r) :
    sweep x r (m :: ms) =
      ⟨⟨m, m.qtyRemaining, r - m.qtyRemaining⟩ :: (sweep x (r - m.qtyRemaining) ms).fills,
        (sweep x (r - m.qtyRemaining) ms).rest, (sweep x (r - m.qtyRemaining) ms).left⟩ := by
  rw [sweep, if_neg (by simp [hr, hx])]
  simp [Nat.min_eq_left hm]

/-- a larger one is filled in part, and the taker is done. -/
theorem sweep_part (hr : r ≠ 0) (hx : x m.level = true) (hm : r < m.qtyRemaining) :
    sweep x r (m :: ms) = ⟨[⟨m, r, 0⟩], m.fill r :: ms, 0⟩ := by
  rw [sweep, if_neg (by simp [hr, hx])]
  simp only [Nat.min_eq_right hm.le, if_neg (Nat.sub_ne_zero_of_lt hm), Nat.sub_self]
  rfl

@[simp] theorem sweep_zero (x : Nat → Bool) (ms : List Order) : sweep x 0 ms = ⟨[], ms, 0⟩ := by
  cases ms with
  | nil => rfl
  | cons m ms => exact sweep_stop (Or.inl rfl)

/-- The induction every fact about a sweep goes by: it stops, or it fills the
first maker and goes on, or the first maker absorbs what is left of the taker. -/
theorem sweep_induction {P : Nat → List Order → Sweep → Prop} (nil : ∀ r, P r [] ⟨[], [], r⟩)
    (stop : ∀ r m ms, r = 0 ∨ x m.level = false → P r (m :: ms) ⟨[], m :: ms, r⟩)
    (filled : ∀ r m ms w, r ≠ 0 → x m.level = true → m.qtyRemaining ≤ r →
      P (r - m.qtyRemaining) ms w →
      P r (m :: ms) ⟨⟨m, m.qtyRemaining, r - m.qtyRemaining⟩ :: w.fills, w.rest, w.left⟩)
    (part : ∀ r m ms, r ≠ 0 → x m.level = true → r < m.qtyRemaining →
      P r (m :: ms) ⟨[⟨m, r, 0⟩], m.fill r :: ms, 0⟩) :
    ∀ (ms : List Order) (r : Nat), P r ms (sweep x r ms)
  | [], r => nil r
  | m :: ms, r => by
    by_cases hstop : r = 0 ∨ x m.level = false
    · rw [sweep_stop hstop]
      exact stop r m ms hstop
    · obtain ⟨hr, hx⟩ := not_or.mp hstop
      have hx' : x m.level = true := by simpa using hx
      by_cases hm : m.qtyRemaining ≤ r
      · rw [sweep_filled hr hx' hm]
        exact filled r m ms _ hr hx' hm (sweep_induction nil stop filled part ms _)
      · rw [sweep_part hr hx' (Nat.lt_of_not_le hm)]
        exact part r m ms hr hx' (Nat.lt_of_not_le hm)

/-- A sweep over crossed makers uses up the taker or the makers. -/
theorem sweep_exhausts (ms : List Order) (r : Nat) :
    (∀ m ∈ ms, x m.level = true) → (sweep x r ms).left = 0 ∨ (sweep x r ms).rest = [] := by
  refine sweep_induction (P := fun _ ms w => (∀ m ∈ ms, x m.level = true) → w.left = 0 ∨ w.rest = [])
    (fun _ _ => Or.inr rfl) (fun r m ms hstop h => ?_) (fun r m ms w _ _ _ ih h => ?_)
    (fun _ _ _ _ _ _ _ => Or.inl rfl) ms r
  · rcases hstop with hr | hr
    · exact Or.inl hr
    · rw [h m List.mem_cons_self] at hr
      cases hr
  · exact ih (fun y hy => h y (List.mem_cons_of_mem _ hy))

/-- A taker has no more left than it had. -/
theorem sweep_left_le (ms : List Order) (r : Nat) : (sweep x r ms).left ≤ r := by
  refine sweep_induction (P := fun r _ w => w.left ≤ r) (fun r => le_rfl) (fun r _ _ _ => le_rfl)
    (fun r m _ w _ _ _ ih => ?_) (fun _ _ _ _ _ _ => Nat.zero_le _) ms r
  exact ih.trans (Nat.sub_le r m.qtyRemaining)

/-- A sweep that ends inside the first part leaves the second as it is. -/
theorem sweep_append_of_left (ms' ms : List Order) (r : Nat) :
    (sweep x r ms).left = 0 → sweep x r (ms ++ ms') =
      ⟨(sweep x r ms).fills, (sweep x r ms).rest ++ ms', 0⟩ := by
  refine sweep_induction (P := fun r ms w => w.left = 0 →
    sweep x r (ms ++ ms') = ⟨w.fills, w.rest ++ ms', 0⟩) (fun r h => ?_)
    (fun r m ms hstop h => ?_) (fun r m ms w hr hx hm ih h => ?_)
    (fun r m ms hr hx hm _ => ?_) ms r
  · obtain rfl : r = 0 := h
    simp
  · obtain rfl : r = 0 := h
    simp
  · rw [List.cons_append, sweep_filled hr hx hm, ih h]
  · rw [List.cons_append, sweep_part hr hx hm]
    rfl

/-- A sweep that empties the first part goes on into the second. -/
theorem sweep_append_of_rest (ms' ms : List Order) (r : Nat) :
    (sweep x r ms).rest = [] → sweep x r (ms ++ ms') =
      ⟨(sweep x r ms).fills ++ (sweep x (sweep x r ms).left ms').fills,
        (sweep x (sweep x r ms).left ms').rest, (sweep x (sweep x r ms).left ms').left⟩ := by
  refine sweep_induction (P := fun r ms w => w.rest = [] → sweep x r (ms ++ ms') =
      ⟨w.fills ++ (sweep x w.left ms').fills, (sweep x w.left ms').rest, (sweep x w.left ms').left⟩)
    (fun r _ => rfl) (fun r m ms _ h => by cases h) (fun r m ms w hr hx hm ih h => ?_)
    (fun r m ms _ _ _ h => by cases h) ms r
  rw [List.cons_append, sweep_filled hr hx hm, ih h]
  rfl

end Sweep

/-- Places an order behind every order that is not worse. -/
def place (s : Slot) (o : Order) : List Order → List Order
  | [] => [o]
  | x :: xs => if s.better o.level x.level then o :: x :: xs else x :: place s o xs

/-- A limit order book: the resting orders of each side, in priority order. -/
abbrev Lob := Slot → List Order

/-- The records of a sweep: for each trade the taker's, then the maker's. -/
def tradeRecords (c : Config) (taker : Nat) (s : Slot) : (Nat → Nat) → List Fill → List OrderResponse
  | _, [] => []
  | gen, f :: fs =>
    c.response (State.fillType f.left) taker (gen 0) s.side (c.plToPrice f.maker.level)
      f.qty f.left .none ::
    c.response (State.fillType f.makerLeft) f.maker.orderId (gen 0) s.flip.side
      (c.plToPrice f.maker.level) f.qty f.makerLeft .none ::
    tradeRecords c taker s (fun k => gen (k + 1)) fs

/-- The quantity an order has traded. -/
def Order.executed (o : Order) : Nat := o.qtyOriginal - o.qtyRemaining

/-- An order after a replacement: its new quantity, less what it has traded. -/
def Order.resized (o : Order) (newQty : Nat) : Order :=
  { o with qtyRemaining := newQty - o.executed, qtyOriginal := newQty }

/-- The level a replacement asks for. -/
def OrderRequest.target (c : Config) (o : Order) (req : OrderRequest) : Nat :=
  if req.p ≠ 0 then c.priceToIndex req.p else o.level

/-- The quantity a replacement asks for. -/
def OrderRequest.newQty (o : Order) (req : OrderRequest) : Nat :=
  if req.q ≠ 0 then req.q else o.qtyOriginal

/-- The side a new order joins; the bid side stands in for a side that is
neither. -/
def OrderRequest.slot (req : OrderRequest) : Slot := req.side.slot.getD .bid

theorem OrderRequest.slot_of_side {req : OrderRequest} {s : Slot} (h : req.side = s.side) :
    req.slot = s := by
  unfold OrderRequest.slot
  rw [h, Slot.slot_side]
  rfl

/-- The answer to one request. -/
structure Answer where
  lob : Lob
  gen : Nat → Nat
  recs : List OrderResponse

/-- An answer with one more record in front. -/
def Answer.after (ans : Answer) (r : OrderResponse) : Answer := { ans with recs := r :: ans.recs }

@[simp] theorem Answer.after_lob (ans : Answer) (r : OrderResponse) : (ans.after r).lob = ans.lob :=
  rfl

@[simp] theorem Answer.after_recs (ans : Answer) (r : OrderResponse) :
    (ans.after r).recs = r :: ans.recs := rfl

namespace Lob

/-- The resting order with an id, and its side. -/
def find (a : Lob) (id : Nat) : Option (Slot × Order) :=
  match (a .bid).find? (·.orderId = id) with
  | some o => some (.bid, o)
  | none => ((a .ask).find? (·.orderId = id)).map (Slot.ask, ·)

/-- The book without the order of that id. -/
def remove (a : Lob) (id : Nat) : Lob := fun s => (a s).filter (·.orderId ≠ id)

/-- Sweeps the opposite side with a taker and places what is left of it. -/
def execute (c : Config) (gen : Nat → Nat) (a : Lob) (s : Slot) (taker : Order) (idx : Nat) :
    Answer :=
  let w := sweep (State.crossed s idx) taker.qtyRemaining (a s.flip)
  let swept := Function.update a s.flip w.rest
  { lob := if w.left = 0 then swept
      else Function.update swept s
        (place s { taker with priceLevel := some idx, qtyRemaining := w.left } (a s))
    gen := fun k => gen (k + w.fills.length)
    recs := tradeRecords c taker.orderId s gen w.fills }

/-- A rejected request changes nothing. -/
def reject (c : Config) (gen : Nat → Nat) (a : Lob) (req : OrderRequest) (qRem : Nat)
    (code : RejectCode) : Answer :=
  ⟨a, gen, [c.response .rejected req.combinedId req.execId req.side req.p req.q qRem code]⟩

/-- The acknowledgement of a new order. -/
def newRecord (c : Config) (req : OrderRequest) : OrderResponse :=
  c.response .new req.combinedId req.execId req.side req.p req.q req.q .none

def newOrder (c : Config) (gen : Nat → Nat) (a : Lob) (req : OrderRequest) : Answer :=
  if (a.find req.combinedId).isSome then a.reject c gen req 0 .duplicateOrderID
  else if req.p ≤ 0 ∧ req.type = .limit then a.reject c gen req 0 .priceInvalid
  else if req.q = 0 ∨ globalMaxQty < req.q then a.reject c gen req 0 .invalidQuantity
  else
    (a.execute c gen req.slot (State.createOrder req) (State.newIndex c req)).after (newRecord c req)

/-- The acknowledgement of a cancel. -/
def cancelRecord (c : Config) (req : OrderRequest) (o : Order) : OrderResponse :=
  c.response .cancelled o.orderId req.execId req.side (c.plToPrice o.level) o.qtyOriginal 0 .none

def cancelOrder (c : Config) (gen : Nat → Nat) (a : Lob) (req : OrderRequest) : Answer :=
  match a.find req.combinedId with
  | none => a.reject c gen req 0 .orderNotFound
  | some (_, o) => ⟨a.remove o.orderId, gen, [cancelRecord c req o]⟩

/-- Rewrites the quantities of one resting order, in place. -/
def resize (a : Lob) (id qtyOriginal qtyRemaining : Nat) : Lob := fun s =>
  (a s).map fun o =>
    if o.orderId = id then { o with qtyOriginal := qtyOriginal, qtyRemaining := qtyRemaining } else o

/-- The acknowledgement of a replacement. -/
def replaceRecord (c : Config) (req : OrderRequest) (o : Order) (target newQty : Nat) :
    OrderResponse :=
  c.response .replaced req.combinedId req.execId req.side (c.plToPrice target) newQty
    (newQty - o.executed) .none

/-- The fill of a replacement that asks for no more than was executed. -/
def finishRecord (c : Config) (req : OrderRequest) (target : Nat) : OrderResponse :=
  c.response .fill req.combinedId req.execId req.side (c.plToPrice target) 0 0 .none

/-- A replacement that passed the checks on its price and quantity. -/
def replaceOrder (c : Config) (gen : Nat → Nat) (a : Lob) (s : Slot) (req : OrderRequest)
    (o : Order) (target newQty : Nat) : Answer :=
  if newQty < o.executed then a.reject c gen req o.qtyRemaining .invalidModify
  else if o.level = target ∧ newQty = o.qtyOriginal then
    ⟨a, gen, [replaceRecord c req o target newQty]⟩
  else if newQty - o.executed = 0 then
    ⟨a.remove o.orderId, gen, [replaceRecord c req o target newQty, finishRecord c req target]⟩
  else if o.level ≠ target ∨ o.qtyOriginal < newQty then
    ((a.remove o.orderId).execute c gen s (o.resized newQty) target).after
      (replaceRecord c req o target newQty)
  else
    ⟨a.resize o.orderId newQty (newQty - o.executed), gen, [replaceRecord c req o target newQty]⟩

def modifyOrder (c : Config) (gen : Nat → Nat) (a : Lob) (req : OrderRequest) : Answer :=
  match a.find req.combinedId with
  | none => a.reject c gen req 0 .orderNotFound
  | some (s, o) =>
    if globalMaxQty < req.q then a.reject c gen req o.qtyRemaining .invalidQuantity
    else if req.p ≠ 0 ∧ c.priceInvalid req.p ≠ 0 then
      a.reject c gen req o.qtyRemaining .priceInvalid
    else a.replaceOrder c gen s req o (req.target c o) (req.newQty o)

/-- One request. A new order joins the side it names; the other requests act
on the side the order they name rests on. -/
def step (c : Config) (gen : Nat → Nat) (a : Lob) (req : OrderRequest) : Answer :=
  match req.action with
  | .cancel => a.cancelOrder c gen req
  | .modify => a.modifyOrder c gen req
  | .new =>
    if req.type ≠ .market ∧ c.priceInvalid req.p ≠ 0 then a.reject c gen req 0 .priceInvalid
    else a.newOrder c gen req
  | .other _ => a.reject c gen req 0 .invalidAction

/-- The request is for a level where there is something to trade with. -/
def meets (c : Config) (a : Lob) (req : OrderRequest) : Bool :=
  match req.action with
  | .new => (a req.slot.flip).head?.any fun x => State.crossed req.slot (State.newIndex c req) x.level
  | .modify => (a.find req.combinedId).any fun so =>
      (a so.1.flip).head?.any fun x => State.crossed so.1 (req.target c so.2) x.level
  | _ => false

/-- A new order meets the other side if its level crosses the first order there, -/
theorem meets_new {c : Config} {a : Lob} {req : OrderRequest} (h : req.action = .new) : a.meets c req =
    (a req.slot.flip).head?.any fun x => State.crossed req.slot (State.newIndex c req) x.level := by
  unfold meets
  rw [h]

/-- and a modify if its target does. -/
theorem meets_modify {c : Config} {a : Lob} {req : OrderRequest} (h : req.action = .modify) {s : Slot} {o : Order}
    (hfind : a.find req.combinedId = some (s, o)) : a.meets c req =
      (a s.flip).head?.any fun x => State.crossed s (req.target c o) x.level := by
  unfold meets
  rw [h, hfind]
  rfl

/-! ## What a request can do -/

/-- The answers to a request, one constructor for each way it can end. -/
inductive Outcome (c : Config) (gen : Nat → Nat) (a : Lob) (req : OrderRequest) : Answer → Prop
  | rejected (qRem : Nat) (code : RejectCode) : Outcome c gen a req (a.reject c gen req qRem code)
  | entered (hact : req.action = .new) (hnone : a.find req.combinedId = none)
      (hvalid : req.type ≠ .market → c.priceInvalid req.p = 0)
      (hp : ¬ (req.p ≤ 0 ∧ req.type = .limit)) (hq : 1 ≤ req.q) (hmax : req.q ≤ globalMaxQty) :
      Outcome c gen a req ((a.execute c gen req.slot (State.createOrder req)
        (State.newIndex c req)).after (newRecord c req))
  | cancelled {s : Slot} {o : Order} (hact : req.action = .cancel)
      (hfind : a.find req.combinedId = some (s, o)) :
      Outcome c gen a req ⟨a.remove o.orderId, gen, [cancelRecord c req o]⟩
  | kept {s : Slot} {o : Order} (hact : req.action = .modify)
      (hfind : a.find req.combinedId = some (s, o)) (hq : req.q ≤ globalMaxQty)
      (hvalid : req.p ≠ 0 → c.priceInvalid req.p = 0) (hexec : o.executed ≤ req.newQty o)
      (hlevel : o.level = req.target c o) (hqty : req.newQty o = o.qtyOriginal) :
      Outcome c gen a req ⟨a, gen, [replaceRecord c req o (req.target c o) (req.newQty o)]⟩
  | finished {s : Slot} {o : Order} (hact : req.action = .modify)
      (hfind : a.find req.combinedId = some (s, o)) (hq : req.q ≤ globalMaxQty)
      (hvalid : req.p ≠ 0 → c.priceInvalid req.p = 0) (hexec : req.newQty o = o.executed)
      (hmove : ¬ (o.level = req.target c o ∧ req.newQty o = o.qtyOriginal)) :
      Outcome c gen a req ⟨a.remove o.orderId, gen,
        [replaceRecord c req o (req.target c o) (req.newQty o), finishRecord c req (req.target c o)]⟩
  | requeued {s : Slot} {o : Order} (hact : req.action = .modify)
      (hfind : a.find req.combinedId = some (s, o)) (hq : req.q ≤ globalMaxQty)
      (hvalid : req.p ≠ 0 → c.priceInvalid req.p = 0) (hexec : o.executed < req.newQty o)
      (hmove : o.level ≠ req.target c o ∨ o.qtyOriginal < req.newQty o) :
      Outcome c gen a req (((a.remove o.orderId).execute c gen s (o.resized (req.newQty o))
        (req.target c o)).after (replaceRecord c req o (req.target c o) (req.newQty o)))
  | shrunk {s : Slot} {o : Order} (hact : req.action = .modify)
      (hfind : a.find req.combinedId = some (s, o)) (hq : req.q ≤ globalMaxQty)
      (hvalid : req.p ≠ 0 → c.priceInvalid req.p = 0) (hexec : o.executed < req.newQty o)
      (hlevel : o.level = req.target c o) (hqty : req.newQty o < o.qtyOriginal) :
      Outcome c gen a req ⟨a.resize o.orderId (req.newQty o) (req.newQty o - o.executed), gen,
        [replaceRecord c req o (req.target c o) (req.newQty o)]⟩

/-- What a request can come to, one case for each way through the source. -/
theorem step_outcome (c : Config) (gen : Nat → Nat) (a : Lob) (req : OrderRequest) :
    Outcome c gen a req (a.step c gen req) := by
  unfold step
  cases hact : req.action with
  | other n => exact .rejected 0 .invalidAction
  | cancel =>
    simp only [cancelOrder]
    cases hfind : a.find req.combinedId with
    | none => exact .rejected 0 .orderNotFound
    | some so => exact .cancelled hact hfind
  -- the checks of a new order, in the order of the source
  | new =>
    simp only [newOrder]
    split
    · exact .rejected 0 .priceInvalid
    rename_i hvalid
    split
    · exact .rejected 0 .duplicateOrderID
    rename_i hnone
    split
    · exact .rejected 0 .priceInvalid
    rename_i hp
    split
    · exact .rejected 0 .invalidQuantity
    · rename_i hq
      refine .entered hact (by simpa using hnone) (fun hm => ?_) hp (by omega) (by omega)
      by_contra hv
      exact hvalid ⟨hm, hv⟩
  -- those of a modify, and behind them the three ways of `replaceOrder`
  | modify =>
    simp only [modifyOrder]
    cases hfind : a.find req.combinedId with
    | none => exact .rejected 0 .orderNotFound
    | some so =>
      obtain ⟨s, o⟩ := so
      simp only
      split
      · exact .rejected o.qtyRemaining .invalidQuantity
      rename_i hq
      split
      · exact .rejected o.qtyRemaining .priceInvalid
      rename_i hv
      have hvalid : req.p ≠ 0 → c.priceInvalid req.p = 0 := fun hp => by
        by_contra hne
        exact hv ⟨hp, hne⟩
      rw [replaceOrder]
      split
      · exact .rejected o.qtyRemaining .invalidModify
      split
      · rename_i hexec hkeep
        exact .kept hact hfind (Nat.le_of_not_lt hq) hvalid (Nat.le_of_not_lt hexec) hkeep.1 hkeep.2
      split
      · rename_i hexec hkeep hz
        exact .finished hact hfind (Nat.le_of_not_lt hq) hvalid (by omega) hkeep
      split
      · rename_i hexec hkeep hz hmove
        exact .requeued hact hfind (Nat.le_of_not_lt hq) hvalid (by omega) hmove
      · rename_i hexec hkeep hz hmove
        obtain ⟨hlevel, hqty⟩ := not_or.mp hmove
        have hlevel' := not_not.mp hlevel
        have hne : req.newQty o ≠ o.qtyOriginal := fun e => hkeep ⟨hlevel', e⟩
        exact .shrunk hact hfind (Nat.le_of_not_lt hq) hvalid (by omega) hlevel' (by omega)

/-! ## Well-formed books -/

/-- What every reachable book satisfies. -/
structure Ok (c : Config) (a : Lob) : Prop where
  unique : ∀ {s s' o o'}, o ∈ a s → o' ∈ a s' → o.orderId = o'.orderId → s = s' ∧ o = o'
  nodup : ∀ s, (a s).Nodup
  level : ∀ {s o}, o ∈ a s → o.priceLevel = some o.level ∧ o.level < c.maxPriceLevels
  sane : ∀ {s o}, o ∈ a s → o.Sane
  sorted : ∀ s, (a s).Pairwise fun x y => ¬ s.better y.level x.level
  uncrossed : ∀ {x y}, x ∈ a .bid → y ∈ a .ask → x.level < y.level

/-- What is found is in the book, under that id. -/
theorem mem_of_find {a : Lob} {id : Nat} {s : Slot} {o : Order} (h : a.find id = some (s, o)) :
    o ∈ a s ∧ o.orderId = id := by
  unfold find at h
  split at h
  · rename_i o' ho
    cases h
    exact ⟨List.mem_of_find?_eq_some ho, by simpa using List.find?_some ho⟩
  · obtain ⟨o', ho, he⟩ := Option.map_eq_some_iff.mp h
    cases he
    exact ⟨List.mem_of_find?_eq_some ho, by simpa using List.find?_some ho⟩

/-- What is not found is not in the book. -/
theorem find_eq_none {a : Lob} {id : Nat} (h : a.find id = none) {s : Slot} {o : Order}
    (ho : o ∈ a s) : o.orderId ≠ id := by
  unfold find at h
  split at h
  · cases h
  · rename_i hbid
    have hask := Option.map_eq_none_iff.mp h
    cases s
    · simpa using List.find?_eq_none.mp hbid o ho
    · simpa using List.find?_eq_none.mp hask o ho

/-- An order is found under its id, on its side. -/
theorem Ok.find_of_mem {c : Config} {a : Lob} (h : a.Ok c) {s : Slot} {o : Order} (ho : o ∈ a s) :
    a.find o.orderId = some (s, o) := by
  cases hf : a.find o.orderId with
  | some so =>
    obtain ⟨hm, hid⟩ := mem_of_find hf
    obtain ⟨rfl, rfl⟩ := h.unique ho hm hid.symm
    rfl
  | none => exact absurd rfl (find_eq_none hf ho)

end Lob

end Exchange
