import Exchange.Book.Taking

/-!
# The record stream, as an observer can rely on it

An observer of the records, such as the market data server, keeps what is left
of each order (`Remaining`) and nothing of the engine. `Stream x rs x'` says
what it can rely on: a `New` record names an id that is not open and something
of it is left; a `PartialFill` lowers what is left by what is traded, and leaves
something; a `Fill` or `Cancelled` leaves nothing; and where a replacement has
left nothing, its `Fill` comes next.

`Outcome.stream` is the engine's side: the records of every well-formed request,
market orders and the order id 0 included, are such a stream.
-/

namespace Exchange

/-- What is left of each open order, by combined id. -/
abbrev Remaining := Nat → Option Nat

/-- What a record does to it. -/
def Remaining.next (x : Remaining) (r : OrderResponse) : Remaining :=
  match r.execType with
  | .new | .replaced | .partialFill => Function.update x r.combinedId (some r.qRem)
  | .fill | .cancelled => Function.update x r.combinedId none
  | _ => x

theorem Remaining.next_left (x : Remaining) {r : OrderResponse}
    (h : r.execType = .new ∨ r.execType = .replaced ∨ r.execType = .partialFill) :
    x.next r = Function.update x r.combinedId (some r.qRem) := by
  unfold next
  rcases h with h | h | h <;> rw [h]

theorem Remaining.next_gone (x : Remaining) {r : OrderResponse}
    (h : r.execType = .fill ∨ r.execType = .cancelled) :
    x.next r = Function.update x r.combinedId none := by
  unfold next
  rcases h with h | h <;> rw [h]

/-- A record is about one row. -/
theorem Remaining.next_other (x : Remaining) {r : OrderResponse} {k : Nat} (h : k ≠ r.combinedId) :
    x.next r k = x k := by
  unfold next
  cases r.execType <;> first | rfl | exact Function.update_of_ne h _ _

/-- The records the market data server looks at. -/
theorem md_cases {t : ExecType} (h : checkExec t execMd = true) :
    (t = .new ∨ t = .replaced ∨ t = .partialFill) ∨ t = .fill ∨ t = .cancelled := by
  revert h
  cases t <;> decide

/-- What a record says of the row it is about. -/
def Remaining.Fits (x : Remaining) (r : OrderResponse) : Prop :=
  match r.execType with
  | .new => x r.combinedId = none ∧ 0 < r.qRem
  | .partialFill => x r.combinedId = some (r.qRem + r.q) ∧ 0 < r.qRem
  | .fill | .cancelled => r.qRem = 0
  | _ => True

/-- A record that can stand where `x` is left. -/
structure Remaining.Allows (x : Remaining) (r : OrderResponse) : Prop where
  side : checkExec r.execType execMd = true → ∃ s : Slot, r.side = s.side
  fits : x.Fits r
  /-- A replacement by nothing is followed by its fill. -/
  closing : ∀ id, x id = some 0 → r.execType = .fill ∧ r.combinedId = id

/-- Records that can stand one after the other, from `x` to `x'`. -/
inductive Stream : Remaining → List OrderResponse → Remaining → Prop
  | nil (x : Remaining) : Stream x [] x
  | cons {x x' : Remaining} {r : OrderResponse} {rs : List OrderResponse} (h : x.Allows r)
      (hs : Stream (x.next r) rs x') : Stream x (r :: rs) x'

/-- One stretch of records after another. -/
theorem Stream.append {x x' x'' : Remaining} {rs rs' : List OrderResponse} (h : Stream x rs x')
    (h' : Stream x' rs' x'') : Stream x (rs ++ rs') x'' := by
  induction h with
  | nil => exact h'
  | cons hr _ ih => exact .cons hr (ih h')

/-- What is left of the orders of a book. -/
def Lob.remaining (a : Lob) : Remaining := a.rows fun _ o => o.qtyRemaining

/-- Something is left of every order. -/
def Lob.Positive (a : Lob) : Prop := ∀ s, ∀ o ∈ a s, 0 < o.qtyRemaining

/-- No order of a good book is at zero. -/
theorem Lob.Ok.positive {c : Config} {a : Lob} (h : a.Ok c) : a.Positive :=
  fun _ _ ho => (h.sane ho).pos

/-- What is left of the orders of a book and of a taker that is not in it. -/
def Lob.withTaker (a : Lob) (t : Order) : Remaining :=
  Function.update a.remaining t.orderId (if t.qtyRemaining = 0 then none else some t.qtyRemaining)

section Rows

variable {a : Lob} {t : Order}

theorem Lob.Distinct.remaining_mem (h : a.Distinct) {s : Slot} {o : Order} (ho : o ∈ a s) :
    a.remaining o.orderId = some o.qtyRemaining :=
  h.rows_mem (f := fun _ o => o.qtyRemaining) ho

theorem Lob.Distinct.remaining_remove (h : a.Distinct) (id : Nat) :
    (a.remove id).remaining = Function.update a.remaining id none :=
  h.rows_remove id

theorem Lob.Distinct.remaining_resize (h : a.Distinct) {s : Slot} {o : Order} (ho : o ∈ a s)
    (q r : Nat) :
    (a.resize o.orderId q r).remaining = Function.update a.remaining o.orderId (some r) :=
  h.rows_resize (f := fun _ o => o.qtyRemaining) ho q r

/-- No row is zero, so that nothing waits for its fill. -/
theorem Lob.Positive.remaining_ne (h : a.Positive) (id : Nat) : a.remaining id ≠ some 0 := by
  intro he
  unfold Lob.remaining Lob.rows at he
  obtain ⟨so, hf, hz⟩ := Option.map_eq_some_iff.mp he
  exact absurd hz (h _ _ (Lob.mem_of_find hf).1).ne'

theorem Lob.Positive.withTaker_ne (h : a.Positive) (t : Order) (id : Nat) :
    a.withTaker t id ≠ some 0 := by
  unfold Lob.withTaker
  by_cases he : id = t.orderId
  · rw [he, Function.update_self]
    split
    · exact fun hn => by cases hn
    · rename_i hne
      exact fun hn => hne (Option.some.inj hn)
  · rw [Function.update_of_ne he]
    exact h.remaining_ne id

/-- Taking an order out leaves the others positive. -/
theorem Lob.Positive.remove (h : a.Positive) (id : Nat) : (a.remove id).Positive :=
  fun s o ho => h s o (Lob.mem_remove.mp ho).1

/-- Once the taker rests, its row is the book's. -/
theorem Lob.Taking.remaining_rested (h : a.Taking t) (s : Slot) (idx : Nat) :
    (a.rested s idx t).remaining = a.withTaker t :=
  h.rows_rested s idx

/-- A taker with nothing left has no row. -/
theorem Lob.Taking.withTaker_gone (h : a.Taking t) (hz : t.qtyRemaining = 0) :
    a.withTaker t = a.remaining := by
  rw [← h.remaining_rested .bid 0, Lob.rested, if_pos hz]

end Rows

/-! ## Trade records -/

/-- The record of one party to a trade: `q` of what it had left is traded. -/
structure Remaining.Trades (x : Remaining) (r : OrderResponse) : Prop where
  side : ∃ s : Slot, r.side = s.side
  type : r.execType = State.fillType r.qRem
  row : x r.combinedId = some (r.qRem + r.q)
  pos : 0 < r.q

/-- Trade records, one after the other. -/
inductive TradeStream : Remaining → List OrderResponse → Remaining → Prop
  | nil (x : Remaining) : TradeStream x [] x
  | cons {x x' : Remaining} {r : OrderResponse} {rs : List OrderResponse} (h : x.Trades r)
      (hs : TradeStream (x.next r) rs x') : TradeStream x (r :: rs) x'

section Trades

variable {x x' : Remaining} {r : OrderResponse}

/-- A trade record is allowed where the row holds what is left and what was traded. -/
theorem Remaining.trades_of (c : Config) {id q : Nat} (left : Nat) (hid : id < 2 ^ 64)
    (hrow : x id = some (left + q)) (hq : 0 < q) (execId : Nat) (s : Slot) (p : Int) (code : RejectCode) :
    x.Trades (c.response (State.fillType left) id execId s.side p q left code) := by
  have hcombined := c.response_combinedId (State.fillType left) execId s.side p q left code hid
  refine ⟨⟨s, rfl⟩, rfl, ?_, hq⟩
  rw [hcombined]
  exact hrow

/-- After a trade record the row holds what is left. -/
theorem Remaining.next_trade (x : Remaining) (c : Config) {id : Nat} (hid : id < 2 ^ 64) (execId : Nat)
    (side : Side) (p : Int) (q left : Nat) (code : RejectCode) :
    x.next (c.response (State.fillType left) id execId side p q left code) =
      Function.update x id (if left = 0 then none else some left) := by
  have hcombined := c.response_combinedId (State.fillType left) execId side p q left code hid
  have htype : (c.response (State.fillType left) id execId side p q left code).execType =
    State.fillType left := rfl
  unfold next
  rw [htype, hcombined]
  by_cases hz : left = 0
  · rw [State.fillType, if_pos hz, if_pos hz]
  · rw [State.fillType, if_neg hz, if_neg hz]
    rfl

/-- What a trade leaves. -/
theorem Remaining.Trades.next_eq (h : x.Trades r) :
    x.next r = Function.update x r.combinedId (if r.qRem = 0 then none else some r.qRem) := by
  unfold Remaining.next
  rw [h.type]
  by_cases hz : r.qRem = 0
  · rw [State.fillType, if_pos hz, if_pos hz]
  · rw [State.fillType, if_neg hz, if_neg hz]

/-- A record of a trade is one the rows allow. -/
theorem Remaining.Trades.allows (h : x.Trades r) (hx : ∀ id, x id ≠ some 0) : x.Allows r := by
  refine ⟨fun _ => h.side, ?_, fun k hk => absurd hk (hx k)⟩
  unfold Fits
  rw [h.type]
  by_cases hz : r.qRem = 0
  · rw [State.fillType, if_pos hz]
    exact hz
  · rw [State.fillType, if_neg hz]
    exact ⟨h.row, Nat.pos_of_ne_zero hz⟩

/-- A trade leaves no row that is zero. -/
theorem Remaining.Trades.next_ne (h : x.Trades r) (hx : ∀ id, x id ≠ some 0) (id : Nat) :
    x.next r id ≠ some 0 := by
  rw [h.next_eq]
  by_cases hid : id = r.combinedId
  · rw [hid, Function.update_self]
    split
    · exact fun hn => by cases hn
    · rename_i hne
      exact fun hn => hne (Option.some.inj hn)
  · rw [Function.update_of_ne hid]
    exact hx id

/-- A stretch of trades is a stretch of records. -/
theorem TradeStream.stream {rs : List OrderResponse} (h : TradeStream x rs x') (hx : ∀ id, x id ≠ some 0) :
    Stream x rs x' := by
  induction h with
  | nil x => exact .nil x
  | cons h _ ih => exact .cons (h.allows hx) (ih (h.next_ne hx))

/-- Cut anywhere, both parts are stretches of trades. -/
theorem TradeStream.split {rs' : List OrderResponse} : ∀ {rs : List OrderResponse} {x : Remaining},
    TradeStream x (rs ++ rs') x' → ∃ y, TradeStream x rs y ∧ TradeStream y rs' x'
  | [], x, h => ⟨x, .nil x, h⟩
  | r :: rs, x, h => by
    cases h with
    | cons hr hs =>
      obtain ⟨y, hy, hrest⟩ := hs.split
      exact ⟨y, .cons hr hy, hrest⟩

/-- Trades leave less. -/
theorem TradeStream.le {rs : List OrderResponse} (h : TradeStream x rs x') (id : Nat) :
    (x' id).getD 0 ≤ (x id).getD 0 := by
  induction h with
  | nil x => exact le_rfl
  | @cons x x' r rs h _ ih =>
    refine ih.trans ?_
    by_cases hid : id = r.combinedId
    · rw [hid, h.next_eq, Function.update_self, h.row]
      split
      · exact Nat.zero_le _
      · exact Nat.le_add_right ..
    · rw [x.next_other hid]

/-- A trade shows. -/
theorem TradeStream.ne {rs : List OrderResponse} (h : TradeStream x (r :: rs) x') : x' ≠ x := by
  cases h with
  | cons h hs =>
    intro hsame
    have hle := hs.le r.combinedId
    have hpos := h.pos
    rw [hsame, h.row, h.next_eq, Function.update_self, Option.getD_some] at hle
    split at hle
    · rw [Option.getD_none] at hle
      omega
    · rw [Option.getD_some] at hle
      omega

end Trades

/-- The records of an execution. -/
theorem Lob.Taking.trades {c : Config} {s : Slot} {idx : Nat} (gen : Nat → Nat) {a : Lob} {t : Order}
    (h : a.Taking t) (hpos : a.Positive) : TradeStream (a.withTaker t) (a.execute c gen s t idx).recs
      (a.execute c gen s t idx).lob.remaining := by
  refine execute_rule (P := fun a t rs b => a.Positive → TradeStream (a.withTaker t) rs b.remaining)
    (fun ht _ _ => ?_) ?_ ?_ gen h hpos
  · rw [ht.remaining_rested]
    exact .nil _
  · intro a t y ms rs b x ht hm hr _ hle hnext hpos
    have hmem : y ∈ a s.flip := hm ▸ List.mem_cons_self
    have hy := ht.distinct.id hmem
    have hne : y.orderId ≠ t.orderId := ht.fresh _ _ hmem
    have htaker : a.withTaker t t.orderId = some (t.qtyRemaining - y.qtyRemaining + y.qtyRemaining) := by
      rw [withTaker, Function.update_self, if_neg hr]
      congr 1
      omega
    have hlowered : Function.update (a.withTaker t) t.orderId
        (if t.qtyRemaining - y.qtyRemaining = 0 then none
          else some (t.qtyRemaining - y.qtyRemaining)) = a.withTaker (t.fill y.qtyRemaining) :=
      Function.update_idem ..
    have hmaker : a.withTaker (t.fill y.qtyRemaining) y.orderId = some (0 + y.qtyRemaining) := by
      rw [withTaker, Order.fill_orderId, Function.update_of_ne hne, Nat.zero_add,
        ht.distinct.remaining_mem hmem]
    refine .cons (Remaining.trades_of c _ ht.id htaker (hpos _ _ hmem) x s _ _) ?_
    rw [Remaining.next_trade _ _ ht.id, hlowered]
    refine .cons (Remaining.trades_of c 0 hy hmaker (hpos _ _ hmem) x s.flip _ _) ?_
    have hgone := Remaining.next_trade (a.withTaker (t.fill y.qtyRemaining)) c hy x s.flip.side
      (c.plToPrice y.level) y.qtyRemaining 0 .none
    rw [if_pos rfl] at hgone
    have hrest : Function.update (a.withTaker (t.fill y.qtyRemaining)) y.orderId none =
        (a.remove y.orderId).withTaker (t.fill y.qtyRemaining) := by
      unfold withTaker
      rw [ht.distinct.remaining_remove]
      exact Function.update_comm (Ne.symm hne) _ _ _
    have hnext' := hnext (hpos.remove _)
    rw [← hrest, ← hgone] at hnext'
    exact hnext'
  · intro a t y ms x ht hm hr _ hlt hpos
    have hmem : y ∈ a s.flip := hm ▸ List.mem_cons_self
    have hy := ht.distinct.id hmem
    have hleft : y.qtyRemaining - t.qtyRemaining ≠ 0 := by omega
    have hpart : State.fillType (y.qtyRemaining - t.qtyRemaining) = .partialFill := if_neg hleft
    have htaker : a.withTaker t t.orderId = some (0 + t.qtyRemaining) := by
      rw [withTaker, Function.update_self, if_neg hr, Nat.zero_add]
    -- the taker's row goes, and the book's rows are left
    have hgone := Remaining.next_trade (a.withTaker t) c ht.id x s.side (c.plToPrice y.level)
      t.qtyRemaining 0 .none
    have hrows : Function.update (a.withTaker t) t.orderId none = a.remaining := by
      have hz : (t.fill t.qtyRemaining).qtyRemaining = 0 := Nat.sub_self _
      have hrest : a.Taking (t.fill t.qtyRemaining) := ⟨ht.distinct, ht.fresh, ht.id, ht.sorted⟩
      rw [← hrest.withTaker_gone hz, withTaker, withTaker, Function.update_idem, if_pos hz]
      rfl
    rw [if_pos rfl, hrows] at hgone
    have hmaker : a.remaining y.orderId =
        some (y.qtyRemaining - t.qtyRemaining + t.qtyRemaining) := by
      rw [ht.distinct.remaining_mem hmem]
      congr 1
      omega
    refine .cons (Remaining.trades_of c 0 ht.id htaker (Nat.pos_of_ne_zero hr) x s _ _) ?_
    have hlast : TradeStream a.remaining [c.response (State.fillType (y.qtyRemaining - t.qtyRemaining))
        y.orderId x s.flip.side (c.plToPrice y.level) t.qtyRemaining
        (y.qtyRemaining - t.qtyRemaining) .none]
        (a.resize y.orderId y.qtyOriginal (y.qtyRemaining - t.qtyRemaining)).remaining := by
      refine .cons (Remaining.trades_of c _ hy hmaker (Nat.pos_of_ne_zero hr) x s.flip _ _) ?_
      rw [Remaining.next_trade _ _ hy, if_neg hleft, ht.distinct.remaining_resize hmem]
      exact .nil _
    rw [hpart, ← hgone] at hlast
    exact hlast

/-- All of a match: from the rows with the taker out to the rows of the book it leaves. -/
theorem Lob.Taking.stream {c : Config} {s : Slot} {idx : Nat} (gen : Nat → Nat) {a : Lob} {t : Order}
    (h : a.Taking t) (hpos : a.Positive) :
    Stream (a.withTaker t) (a.execute c gen s t idx).recs (a.execute c gen s t idx).lob.remaining :=
  (h.trades gen hpos).stream (hpos.withTaker_ne t)

/-! ## Requests -/

section Requests

variable {c : Config} {a : Lob} {req : OrderRequest} {gen : Nat → Nat}

/-- A `Rejected` record, whatever it was sent for. -/
theorem Lob.Positive.stream_rejected (hpos : a.Positive) {r : OrderResponse}
    (hr : r.execType = .rejected) : Stream a.remaining [r] a.remaining := by
  have hskip : checkExec .rejected execMd = false := by decide
  have hnext : a.remaining.next r = a.remaining := by
    unfold Remaining.next
    rw [hr]
  refine .cons ⟨fun hmd => ?_, ?_, fun k hk => absurd hk (hpos.remaining_ne k)⟩ ?_
  · rw [hr, hskip] at hmd
    cases hmd
  · unfold Remaining.Fits
    rw [hr]
    trivial
  · rw [hnext]
    exact .nil _

/-- The acknowledgement of a replacement, whatever follows it. -/
theorem Lob.Positive.stream_replaced (hpos : a.Positive) {s : Slot} (hs : req.side = s.side) (o : Order)
    (target newQty : Nat) {rs : List OrderResponse} {x' : Remaining}
    (h : Stream (Function.update a.remaining req.combinedId (some (newQty - o.executed))) rs x') :
    Stream a.remaining (replaceRecord c req o target newQty :: rs) x' := by
  refine .cons ⟨fun _ => ⟨s, hs⟩, trivial, fun k hk => absurd hk (hpos.remaining_ne k)⟩ ?_
  have hid : (replaceRecord c req o target newQty).combinedId = req.combinedId :=
    c.response_combinedId _ _ _ _ _ _ _ req.combinedId_lt
  show Stream (Function.update a.remaining (replaceRecord c req o target newQty).combinedId
    (some (newQty - o.executed))) rs x'
  rw [hid]
  exact h

/-- The records of a well-formed request. -/
theorem Lob.Outcome.stream (hok : a.Ok c) (hwf : WellFormed c a req) {ans : Answer}
    (hout : Lob.Outcome c gen a req ans) : Stream a.remaining ans.recs ans.lob.remaining := by
  have hd := Lob.Distinct.of_ok hok
  have hpos := hok.positive
  obtain ⟨s, hs⟩ := hwf.side
  have hclosing : ∀ {r : OrderResponse} {id : Nat}, a.remaining id = some 0 →
      r.execType = .fill ∧ r.combinedId = id := fun hk => absurd hk (hpos.remaining_ne _)
  cases hout with
  | rejected qRem code => exact hpos.stream_rejected rfl
  | entered _ hnone _ _ hq _ =>
    have hid : (newRecord c req).combinedId = req.combinedId :=
      c.response_combinedId _ _ _ _ _ _ _ req.combinedId_lt
    have hfresh : a.remaining req.combinedId = none :=
      rows_none (fun s o ho => find_eq_none hnone ho)
    refine .cons ⟨fun _ => ⟨s, hs⟩, ⟨?_, hq⟩, fun _ => hclosing⟩ ?_
    · rw [hid]
      exact hfresh
    have hnext : a.remaining.next (newRecord c req) = a.withTaker (State.createOrder req) := by
      have hq' : (State.createOrder req).qtyRemaining ≠ 0 := Nat.one_le_iff_ne_zero.mp hq
      unfold withTaker
      rw [if_neg hq']
      show Function.update a.remaining (newRecord c req).combinedId (some req.q) = _
      rw [hid]
      rfl
    rw [hnext]
    exact (Taking.of_new hok hnone).stream gen hpos
  | @cancelled s' o hact hfind =>
    obtain ⟨ho, -⟩ := mem_of_find hfind
    refine .cons ⟨fun _ => ⟨s, hs⟩, rfl, fun _ => hclosing⟩ ?_
    have hid : (cancelRecord c req o).combinedId = o.orderId :=
      c.response_combinedId _ _ _ _ _ _ _ (hok.sane ho).id
    have hnext : a.remaining.next (cancelRecord c req o) = (a.remove o.orderId).remaining := by
      rw [hd.remaining_remove, ← hid]
      rfl
    rw [hnext]
    exact .nil _
  | @kept s' o _ hfind _ _ _ _ hqty =>
    obtain ⟨ho, hid⟩ := mem_of_find hfind
    have hle := (hok.sane ho).le
    have hleft : req.newQty o - o.executed = o.qtyRemaining := by
      rw [hqty]
      unfold Order.executed
      omega
    refine hpos.stream_replaced hs o _ _ ?_
    -- the row written is the one that is there
    have hsame : Function.update a.remaining req.combinedId (some (req.newQty o - o.executed)) =
        a.remaining := by
      rw [hleft, ← hid]
      refine (congrArg _ ?_).trans (Function.update_eq_self o.orderId _)
      exact (hd.remaining_mem ho).symm
    rw [hsame]
    exact .nil _
  | @finished s' o _ hfind _ _ hexec _ =>
    obtain ⟨ho, hid⟩ := mem_of_find hfind
    refine hpos.stream_replaced hs o _ _ ?_
    rw [hexec, Nat.sub_self]
    have hcombined : (finishRecord c req (req.target c o)).combinedId = req.combinedId :=
      c.response_combinedId _ _ _ _ _ _ _ req.combinedId_lt
    refine .cons ⟨fun _ => ⟨s, hs⟩, rfl, fun k hk => ⟨rfl, ?_⟩⟩ ?_
    · -- only the replaced order has nothing left
      by_cases hk' : k = req.combinedId
      · exact hcombined.trans hk'.symm
      · rw [Function.update_of_ne hk'] at hk
        exact absurd hk (hpos.remaining_ne k)
    · have hnext : Remaining.next (Function.update a.remaining req.combinedId (some 0))
          (finishRecord c req (req.target c o)) = (a.remove o.orderId).remaining := by
        rw [hd.remaining_remove, hid]
        show Function.update (Function.update a.remaining req.combinedId (some 0))
          (finishRecord c req (req.target c o)).combinedId none = _
        rw [hcombined]
        exact Function.update_idem ..
      rw [hnext]
      exact .nil _
  | @requeued s' o _ hfind _ _ hexec _ =>
    obtain ⟨ho, hid⟩ := mem_of_find hfind
    have hr : (o.resized (req.newQty o)).qtyRemaining ≠ 0 := by
      show req.newQty o - o.executed ≠ 0
      omega
    have hrows : Function.update a.remaining req.combinedId (some (req.newQty o - o.executed)) =
        (a.remove o.orderId).withTaker (o.resized (req.newQty o)) := by
      have hmoved : (o.resized (req.newQty o)).orderId = req.combinedId := hid
      unfold withTaker
      rw [if_neg hr, hmoved, hd.remaining_remove, hid, Function.update_idem]
      rfl
    refine hpos.stream_replaced hs o _ _ ?_
    rw [hrows]
    exact (Taking.of_replaced hok ho _).stream gen (hpos.remove _)
  | @shrunk s' o _ hfind _ _ _ _ _ =>
    obtain ⟨ho, hid⟩ := mem_of_find hfind
    refine hpos.stream_replaced hs o _ _ ?_
    rw [← hid, ← hd.remaining_resize ho (req.newQty o)]
    exact .nil _

end Requests

end Exchange
