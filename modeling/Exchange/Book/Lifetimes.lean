import Mathlib.Data.Set.Insert
import Exchange.Book.Records

/-!
# The lifetimes of order ids

A book has at most one order under an id. Whatever the requests, its heap holds the orders that
`active_orders_` leads to and no others (`Filed`), but for the order that is being matched
(`FiledBut`): this takes nothing of the levels, which a request of the wrong side can put in
disorder.

So the records of a book tell when an id is open. `Lives sid N x rs x'` reads them: an id of `N`
may be entered by a `New` record if it is not open, and every other record is about an id that is.
-/

namespace Exchange

/-! ## Open ids -/

/-- What a record about `id` does to the ids that are open. -/
def openAfter (x : Set Nat) (t : ExecType) (id : Nat) : Set Nat :=
  match t with
  | .new => insert id x
  | .fill | .cancelled => x \ {id}
  | _ => x

theorem mem_openAfter_ne {x : Set Nat} {t : ExecType} {id k : Nat} (hk : k ≠ id) :
    k ∈ openAfter x t id ↔ k ∈ x := by
  unfold openAfter
  cases t with
  | new => exact ⟨fun hin => hin.resolve_left hk, fun hin => Or.inr hin⟩
  | fill | cancelled => exact ⟨fun hin => hin.1, fun hin => ⟨hin, hk⟩⟩
  | replaced | partialFill | rejected | orderStatus | complete => exact Iff.rfl

/-- A record about `id` can stand where `x` is open. -/
def Stands (N x : Set Nat) (t : ExecType) (id : Nat) : Prop :=
  match t with
  | .new => id ∈ N ∧ id ∉ x
  | .replaced | .partialFill | .fill | .cancelled => id ∈ x
  | _ => True

/-- Records of a symbol that can stand one after the other, from `x` to `x'`. -/
inductive Lives (sid : UInt32) (N : Set Nat) : Set Nat → List OrderResponse → Set Nat → Prop
  | nil (x : Set Nat) : Lives sid N x [] x
  | cons {x x' : Set Nat} {r : OrderResponse} {rs : List OrderResponse} (hsym : r.symbolId = sid)
      (hr : Stands N x r.execType r.combinedId)
      (hs : Lives sid N (openAfter x r.execType r.combinedId) rs x') : Lives sid N x (r :: rs) x'

namespace Lives

variable {sid : UInt32} {N N' x x' x'' : Set Nat} {rs rs' : List OrderResponse}

/-- One run of records after the other. -/
theorem append (h : Lives sid N x rs x') (h' : Lives sid N x' rs' x'') :
    Lives sid N x (rs ++ rs') x'' := by
  induction h with
  | nil => exact h'
  | cons hsym hr _ ih => exact .cons hsym hr (ih h')

/-- All the records are of one symbol. -/
theorem symbol (h : Lives sid N x rs x') : ∀ r ∈ rs, r.symbolId = sid := by
  induction h with
  | nil => exact fun _ hr => absurd hr List.not_mem_nil
  | cons hsym _ _ ih =>
    intro r hr
    rcases List.mem_cons.mp hr with rfl | hr
    · exact hsym
    · exact ih r hr

/-- More ids may be entered. -/
theorem mono (h : Lives sid N x rs x') (hN : N ⊆ N') : Lives sid N' x rs x' := by
  induction h with
  | nil => exact .nil _
  | @cons x x' r rs hsym hr _ ih =>
    refine .cons hsym ?_ ih
    unfold Stands at hr ⊢
    split at hr
    · exact ⟨hN hr.1, hr.2⟩
    · exact hr
    · exact hr
    · exact hr
    · exact hr
    · trivial

variable {c : Config} {id execId q qRem : Nat} {side : Side} {p : Int} {code : RejectCode}

/-- One record, made of the parts that `sendResponse` is given. -/
theorem record {t : ExecType} (hid : id < 2 ^ 64) (hr : Stands N x t id) :
    Lives c.symbolId N x [c.response t id execId side p q qRem code] (openAfter x t id) := by
  have hcombined := c.response_combinedId t execId side p q qRem code hid
  have hnext : openAfter x t id = openAfter x (c.response t id execId side p q qRem code).execType
      (c.response t id execId side p q qRem code).combinedId := by
    rw [hcombined]
    rfl
  rw [hnext]
  refine .cons rfl ?_ (.nil _)
  rw [hcombined]
  exact hr

/-- The record of one party to a trade. -/
theorem fill (left : Nat) (hid : id < 2 ^ 64) (hx : id ∈ x) :
    Lives c.symbolId N x [c.response (State.fillType left) id execId side p q left code]
      (if left = 0 then x \ {id} else x) := by
  unfold State.fillType
  split
  · exact record hid hx
  · exact record hid hx

end Lives

/-! ## The heap and its index -/

namespace OrderBook

/-- The ids of the orders in memory. -/
def ids (b : OrderBook) (ptr : Nat) : Option Nat := (b.orders ptr).map Order.orderId

/-- What is left of the orders in memory. -/
def leftOf (b : OrderBook) (ptr : Nat) : Option Nat := (b.orders ptr).map Order.qtyRemaining

/-- `active_orders_` leads to the orders in memory, each under its id. -/
structure Filed (b : OrderBook) : Prop where
  filed : ∀ k ptr, b.activeOrders k = some ptr ↔ b.ids ptr = some k
  allocated : ∀ {ptr k}, b.ids ptr = some k → ptr < b.nextOrder
  bound : ∀ {ptr k}, b.ids ptr = some k → k < 2 ^ 64

/-- So it does but for the order that is being matched. -/
structure FiledBut (b : OrderBook) (taker tid : Nat) : Prop where
  self : b.ids taker = some tid
  only : ∀ {ptr}, b.ids ptr = some tid → ptr = taker
  filed : ∀ k, k ≠ tid → ∀ ptr, b.activeOrders k = some ptr ↔ b.ids ptr = some k
  allocated : ∀ {ptr k}, b.ids ptr = some k → ptr < b.nextOrder
  bound : ∀ {ptr k}, b.ids ptr = some k → k < 2 ^ 64

/-- In a new book nothing is filed, and nothing has to be. -/
theorem Filed.fresh (c : Config) : (OrderBook.fresh c).Filed := by
  have hnone : ∀ {ptr k : Nat}, (OrderBook.fresh c).ids ptr ≠ some k := by
    intro ptr k h
    cases h
  refine ⟨fun k ptr => ⟨fun h => ?_, fun h => absurd h hnone⟩, fun h => absurd h hnone,
    fun h => absurd h hnone⟩
  cases h

/-- The ids of a book. -/
def openIds (b : OrderBook) : Set Nat := {k | (b.activeOrders k).isSome}

/-- The ids of a book that matches an order: of that order, as long as something is left of it. -/
def openBut (b : OrderBook) (taker tid : Nat) : Set Nat :=
  {k | if k = tid then b.leftOf taker ≠ some 0 else (b.activeOrders k).isSome}

/-- The orders are the same, but for where they rest. -/
structure SameOrders (b b' : OrderBook) : Prop where
  ids : b'.ids = b.ids
  left : b'.leftOf = b.leftOf
  active : b'.activeOrders = b.activeOrders
  next : b'.nextOrder = b.nextOrder

namespace SameOrders

variable {b b' b'' : OrderBook}

theorem of_orders (h : b'.orders = b.orders) (hactive : b'.activeOrders = b.activeOrders)
    (hnext : b'.nextOrder = b.nextOrder) : SameOrders b b' := by
  refine ⟨?_, ?_, hactive, hnext⟩
  · unfold OrderBook.ids
    rw [h]
  · unfold OrderBook.leftOf
    rw [h]

/-- Where orders and index are as they were, so is what is read off them. -/
theorem of_same (h : Exchange.SameOrders b b') : SameOrders b b' := of_orders h.orders h.activeOrders h.nextOrder

theorem trans (h : SameOrders b b') (h' : SameOrders b' b'') : SameOrders b b'' :=
  ⟨h'.ids.trans h.ids, h'.left.trans h.left, h'.active.trans h.active, h'.next.trans h.next⟩

theorem removeOrderFromLevel {ptr : Nat} (h : b.removeOrderFromLevel ptr = some b') :
    SameOrders b b' :=
  of_same (.removeOrderFromLevel h)

theorem removeIfEmpty {pl : Nat} {side : Side} (h : b.removeIfEmpty pl side = some b') :
    SameOrders b b' :=
  of_same (.removeIfEmpty h)

theorem getOrCreatePriceLevel {pl : Nat} {side : Side} (h : b.getOrCreatePriceLevel pl side = some b') :
    SameOrders b b' :=
  of_same (.getOrCreatePriceLevel h)

end SameOrders

/-- An order that is rewritten keeps its id. -/
theorem ids_modifyOrder (b : OrderBook) (ptr : Nat) {f : Order → Order}
    (hf : ∀ o, (f o).orderId = o.orderId) : (b.modifyOrder ptr f).ids = b.ids := by
  funext p
  unfold ids modifyOrder
  dsimp only
  by_cases hp : p = ptr
  · rw [hp, Function.update_self, Option.map_map]
    exact congrArg (fun g => Option.map g (b.orders ptr)) (funext hf)
  · rw [Function.update_of_ne hp]

theorem leftOf_modifyOrder (b : OrderBook) (ptr : Nat) (f : Order → Order) :
    (b.modifyOrder ptr f).leftOf = Function.update b.leftOf ptr
      ((b.orders ptr).map fun o => (f o).qtyRemaining) := by
  funext p
  unfold leftOf modifyOrder
  dsimp only
  by_cases hp : p = ptr
  · rw [hp, Function.update_self, Function.update_self, Option.map_map]
    rfl
  · rw [Function.update_of_ne hp, Function.update_of_ne hp]

theorem SameOrders.insertOrderToLevel {b b' : OrderBook} {pl order : Nat}
    (h : b.insertOrderToLevel pl order = some b') : SameOrders b b' := by
  unfold OrderBook.insertOrderToLevel at h
  obtain ⟨o, -, h⟩ := Option.bind_eq_some_iff.mp h
  obtain ⟨tail, -, h⟩ := Option.bind_eq_some_iff.mp h
  obtain rfl := Option.some.inj h
  refine ⟨ids_modifyOrder _ order fun _ => rfl, ?_, rfl, rfl⟩
  refine (leftOf_modifyOrder _ order _).trans ?_
  exact Function.update_eq_self order _

theorem ids_delete (b : OrderBook) (ptr : Nat) :
    (b.delete ptr).ids = Function.update b.ids ptr none := by
  funext p
  unfold ids delete
  dsimp only
  by_cases hp : p = ptr
  · rw [hp, Function.update_self, Function.update_self]
    rfl
  · rw [Function.update_of_ne hp, Function.update_of_ne hp]

theorem ids_delete_eq {b : OrderBook} {p ptr k : Nat} :
    (b.delete p).ids ptr = some k ↔ ptr ≠ p ∧ b.ids ptr = some k := by
  rw [ids_delete]
  by_cases hp : ptr = p
  · rw [hp, Function.update_self]
    exact ⟨fun h => (by cases h), fun h => absurd rfl h.1⟩
  · rw [Function.update_of_ne hp]
    exact ⟨fun h => ⟨hp, h⟩, fun h => h.2⟩

/-- The same order is deleted from both. -/
theorem SameOrders.delete {b b' : OrderBook} (h : SameOrders b b') (ptr : Nat) :
    SameOrders (b.delete ptr) (b'.delete ptr) := by
  refine ⟨?_, ?_, h.active, h.next⟩
  · rw [ids_delete, ids_delete, h.ids]
  · funext p
    have hp := congrFun h.left p
    unfold OrderBook.leftOf OrderBook.delete at *
    dsimp only
    by_cases he : p = ptr
    · rw [he, Function.update_self, Function.update_self]
    · rw [Function.update_of_ne he, Function.update_of_ne he]
      exact hp

theorem ids_allocate (b : OrderBook) (o : Order) :
    (b.allocate o).ids = Function.update b.ids b.nextOrder (some o.orderId) := by
  funext p
  unfold ids allocate
  dsimp only
  by_cases hp : p = b.nextOrder
  · rw [hp, Function.update_self, Function.update_self]
    rfl
  · rw [Function.update_of_ne hp, Function.update_of_ne hp]

end OrderBook

/-! ## Matching -/

namespace OrderBook

variable {b b' : OrderBook} {taker tid : Nat}

/-- Only orders, ids and the index matter. -/
theorem FiledBut.same (h : b.FiledBut taker tid) (hs : SameOrders b b') : b'.FiledBut taker tid := by
  refine ⟨?_, ?_, ?_, ?_, ?_⟩
  · rw [hs.ids]
    exact h.self
  · rw [hs.ids]
    exact h.only
  · rw [hs.ids, hs.active]
    exact h.filed
  · rw [hs.ids, hs.next]
    exact h.allocated
  · rw [hs.ids]
    exact h.bound

theorem SameOrders.openBut (hs : SameOrders b b') (taker tid : Nat) :
    b'.openBut taker tid = b.openBut taker tid := by
  unfold OrderBook.openBut
  rw [hs.left, hs.active]

theorem Filed.same (h : b.Filed) (hs : SameOrders b b') : b'.Filed := by
  refine ⟨?_, ?_, ?_⟩
  · rw [hs.ids, hs.active]
    exact h.filed
  · rw [hs.ids, hs.next]
    exact h.allocated
  · rw [hs.ids]
    exact h.bound

/-- The taker is open as long as it has something left. -/
theorem mem_openBut_self : tid ∈ b.openBut taker tid ↔ b.leftOf taker ≠ some 0 := by
  unfold OrderBook.openBut
  rw [Set.mem_ofPred_eq, if_pos rfl]

/-- Any other id is open if it is in the index. -/
theorem mem_openBut_ne {k : Nat} (hk : k ≠ tid) :
    k ∈ b.openBut taker tid ↔ (b.activeOrders k).isSome = true := by
  unfold OrderBook.openBut
  rw [Set.mem_ofPred_eq, if_neg hk]

/-- An order leaves the memory, and its id `active_orders_`. -/
theorem filed_erase {ptr id k : Nat} (hself : b.ids ptr = some id)
    (honly : ∀ {p}, b.ids p = some id → p = ptr)
    (hk : k ≠ id → ∀ p, b.activeOrders k = some p ↔ b.ids p = some k) (p : Nat) :
    ((b.eraseActive id).delete ptr).activeOrders k = some p ↔
      ((b.eraseActive id).delete ptr).ids p = some k := by
  rw [ids_delete_eq]
  show Function.update b.activeOrders id none k = some p ↔ p ≠ ptr ∧ b.ids p = some k
  by_cases hid : k = id
  · rw [hid, Function.update_self]
    exact ⟨fun h => (by cases h), fun h => absurd (honly h.2) h.1⟩
  · rw [Function.update_of_ne hid, hk hid]
    refine ⟨fun h => ⟨fun e => hid ?_, h⟩, fun h => h.2⟩
    rw [e, hself] at h
    exact (Option.some.inj h).symm

/-- A maker that is filled leaves the book. -/
theorem FiledBut.erase (h : b.FiledBut taker tid) {maker id : Nat} (hm : b.ids maker = some id)
    (hne : maker ≠ taker) : ((b.eraseActive id).delete maker).FiledBut taker tid := by
  have hid : id ≠ tid := fun e => hne (h.only (e ▸ hm))
  have honly : ∀ {p}, b.ids p = some id → p = maker := by
    intro p hp
    have hact := (h.filed id hid p).mpr hp
    rw [(h.filed id hid maker).mpr hm] at hact
    exact (Option.some.inj hact).symm
  refine ⟨ids_delete_eq.mpr ⟨hne.symm, h.self⟩, fun hk => h.only (ids_delete_eq.mp hk).2,
    fun k hk p => filed_erase hm honly (fun _ => h.filed k hk) p,
    fun hk => h.allocated (ids_delete_eq.mp hk).2, fun hk => h.bound (ids_delete_eq.mp hk).2⟩

/-- A maker that is done leaves the open ids. -/
theorem openBut_erase (b : OrderBook) {maker id : Nat} (hid : id ≠ tid) (hne : maker ≠ taker) :
    ((b.eraseActive id).delete maker).openBut taker tid = b.openBut taker tid \ {id} := by
  have hleft : ((b.eraseActive id).delete maker).leftOf taker = b.leftOf taker := by
    unfold OrderBook.leftOf OrderBook.delete
    dsimp only
    rw [Function.update_of_ne hne.symm]
    rfl
  ext k
  rw [Set.mem_sdiff, Set.mem_singleton_iff]
  by_cases hk : k = tid
  · rw [hk, mem_openBut_self, mem_openBut_self, hleft]
    exact ⟨fun h => ⟨h, hid.symm⟩, fun h => h.1⟩
  · rw [mem_openBut_ne hk, mem_openBut_ne hk]
    show (Function.update b.activeOrders id none k).isSome = true ↔ _
    by_cases he : k = id
    · rw [he, Function.update_self]
      exact ⟨fun h => absurd h Bool.false_ne_true, fun h => absurd rfl h.2⟩
    · rw [Function.update_of_ne he]
      exact ⟨fun h => ⟨h, he⟩, fun h => h.1⟩

theorem ids_traded (b : OrderBook) (taker maker oppo qty : Nat) :
    (b.traded taker maker oppo qty).ids = b.ids :=
  (ids_modifyOrder (b.modifyOrder maker (Order.fill qty)) taker (f := Order.fill qty) fun _ => rfl).trans
    (ids_modifyOrder b maker (f := Order.fill qty) fun _ => rfl)

/-- An order that was matched comes to rest under its id. -/
theorem FiledBut.rested (h : b.FiledBut taker tid) : (b.setActive tid taker).Filed := by
  refine ⟨fun k ptr => ?_, h.allocated, h.bound⟩
  show Function.update b.activeOrders tid (some taker) k = some ptr ↔ b.ids ptr = some k
  by_cases hk : k = tid
  · rw [hk, Function.update_self]
    exact ⟨fun e => Option.some.inj e ▸ h.self, fun e => congrArg some (h.only e).symm⟩
  · rw [Function.update_of_ne hk]
    exact h.filed k hk ptr

/-- A taker that rests is open because it is in the index, -/
theorem openBut_rested (hleft : b.leftOf taker ≠ some 0) :
    b.openBut taker tid = (b.setActive tid taker).openIds := by
  ext k
  show _ ↔ (Function.update b.activeOrders tid (some taker) k).isSome = true
  by_cases hk : k = tid
  · rw [hk, mem_openBut_self, Function.update_self]
    exact ⟨fun _ => rfl, fun _ => hleft⟩
  · rw [mem_openBut_ne hk, Function.update_of_ne hk]

/-- Or it is filled, and deleted. -/
theorem FiledBut.gone (h : b.FiledBut taker tid) : ((b.eraseActive tid).delete taker).Filed :=
  ⟨fun k p => filed_erase h.self h.only (h.filed k) p,
    fun hk => h.allocated (ids_delete_eq.mp hk).2, fun hk => h.bound (ids_delete_eq.mp hk).2⟩

/-- and one that is done is open no more. -/
theorem openBut_gone (hleft : b.leftOf taker = some 0) :
    b.openBut taker tid = ((b.eraseActive tid).delete taker).openIds := by
  ext k
  show _ ↔ (Function.update b.activeOrders tid none k).isSome = true
  by_cases hk : k = tid
  · rw [hk, mem_openBut_self, Function.update_self]
    exact ⟨fun h => absurd hleft h, fun h => absurd h Bool.false_ne_true⟩
  · rw [mem_openBut_ne hk, Function.update_of_ne hk]

/-- A trade leaves both orders under their ids. -/
theorem FiledBut.traded (h : b.FiledBut taker tid) (maker oppo qty : Nat) :
    (b.traded taker maker oppo qty).FiledBut taker tid := by
  have hids := b.ids_traded taker maker oppo qty
  refine ⟨?_, ?_, ?_, ?_, ?_⟩
  · rw [hids]
    exact h.self
  · rw [hids]
    exact h.only
  · rw [hids]
    exact h.filed
  · rw [hids]
    exact h.allocated
  · rw [hids]
    exact h.bound

/-- A trade closes the id of the taker if nothing is left of it. -/
theorem openBut_traded {t : Order} {maker : Nat} (ht : b.orders taker = some t) (hne : maker ≠ taker)
    (hr : t.qtyRemaining ≠ 0) (tid oppo qty : Nat) : (b.traded taker maker oppo qty).openBut taker tid =
      if t.qtyRemaining - qty = 0 then b.openBut taker tid \ {tid} else b.openBut taker tid := by
  have hread : (b.modifyOrder maker (Order.fill qty)).orders taker = some t :=
    (Function.update_of_ne hne.symm ..).trans ht
  have hleft : (b.traded taker maker oppo qty).leftOf taker = some (t.qtyRemaining - qty) := by
    refine (congrFun (leftOf_modifyOrder (b.modifyOrder maker (Order.fill qty)) taker _) taker).trans ?_
    rw [Function.update_self, hread]
    rfl
  have htaker : b.leftOf taker = some t.qtyRemaining := by
    unfold OrderBook.leftOf
    rw [ht]
    rfl
  ext k
  by_cases hk : k = tid
  · rw [hk, mem_openBut_self, hleft]
    split
    · rename_i hz
      rw [hz]
      exact ⟨fun h => absurd rfl h, fun h => absurd rfl h.2⟩
    · rename_i hz
      rw [mem_openBut_self, htaker]
      exact ⟨fun _ e => hr (Option.some.inj e), fun _ e => hz (Option.some.inj e)⟩
  · have hself : k ∈ (b.traded taker maker oppo qty).openBut taker tid ↔ k ∈ b.openBut taker tid := by
      rw [mem_openBut_ne hk, mem_openBut_ne hk]
      rfl
    rw [hself]
    split
    · exact ⟨fun h => ⟨h, hk⟩, fun h => h.1⟩
    · rfl

end OrderBook

/-- From `st` to `st'` the ids that are open turn from `x` to `x'`. -/
def Turns (N : Set Nat) (st st' : State) (x x' : Set Nat) : Prop :=
  ∃ rs, Emits st st' rs ∧ Lives st.book.cfg.symbolId N x rs x'

namespace Turns

variable {N x x' x'' : Set Nat} {st st' st'' : State}

/-- One part of a step after the other. -/
theorem trans (h : Turns N st st' x x') (h' : Turns N st' st'' x' x'') : Turns N st st'' x x'' := by
  obtain ⟨rs, he, hl⟩ := h
  obtain ⟨rs', he', hl'⟩ := h'
  rw [he.cfg] at hl'
  exact ⟨rs ++ rs', he.trans he', hl.append hl'⟩

/-- Book edits send nothing. -/
theorem edit {b : OrderBook} (h : Keeps st.book b) (x : Set Nat) : Turns N st { st with book := b } x x :=
  ⟨[], Emits.silent st st.gen h.cfg h.mode, .nil _⟩

theorem refl (st : State) (x : Set Nat) : Turns N st st x x := edit ⟨rfl, rfl⟩ x

theorem edited (h : Turns N st st' x x') {b : OrderBook} (hb : Keeps st'.book b) :
    Turns N st { st' with book := b } x x' := h.trans (edit hb x')

theorem send (st : State) {t : ExecType} {id : Nat} (hid : id < 2 ^ 64) (hr : Stands N x t id)
    (execId : Nat) (side : Side) (p : Int) (q qRem : Nat) (code : RejectCode) :
    Turns N st (st.sendResponse t id execId side p q qRem code) x (openAfter x t id) :=
  ⟨_, Emits.send .., .record hid hr⟩

/-- Sending a fill: the order is open before, and behind it unless nothing is left. -/
theorem fill (st : State) (left : Nat) {id : Nat} (hid : id < 2 ^ 64) (hx : id ∈ x) (execId : Nat)
    (side : Side) (p : Int) (q : Nat) (code : RejectCode) :
    Turns N st (st.sendResponse (State.fillType left) id execId side p q left code) x
      (if left = 0 then x \ {id} else x) :=
  ⟨_, Emits.send .., .fill left hid hx⟩

end Turns

section Match

variable {N : Set Nat} {st st' : State} {taker tid : Nat}

/-- A trade is told by both orders, and closes the id of the one that is filled. -/
theorem trade_turns (h : st.book.FiledBut taker tid) {t m : Order} {maker : Nat}
    (ht : st.book.orders taker = some t) (hm : st.book.orders maker = some m) (hne : maker ≠ taker)
    (hr : t.qtyRemaining ≠ 0) (s : Slot) (oppo : Nat) :
    (st.trade taker maker s oppo t m).book.FiledBut taker tid ∧
      Turns N st (st.trade taker maker s oppo t m) (st.book.openBut taker tid)
        (if m.qtyRemaining - min m.qtyRemaining t.qtyRemaining = 0 then
          (st.trade taker maker s oppo t m).book.openBut taker tid \ {m.orderId}
        else (st.trade taker maker s oppo t m).book.openBut taker tid) := by
  -- taker and maker are two orders, and both are open
  have hself : t.orderId = tid := by
    have hids := h.self
    unfold OrderBook.ids at hids
    rw [ht] at hids
    exact Option.some.inj hids
  have hmaker : st.book.ids maker = some m.orderId := by
    unfold OrderBook.ids
    rw [hm]
    rfl
  have hother : m.orderId ≠ tid := fun e => hne (h.only (e ▸ hmaker))
  have hin : tid ∈ st.book.openBut taker tid := by
    rw [OrderBook.mem_openBut_self]
    unfold OrderBook.leftOf
    rw [ht]
    exact fun e => hr (Option.some.inj e)
  rw [trade_book]
  refine ⟨h.traded .., ?_⟩
  have hmin : m.orderId ∈ (st.book.traded taker maker oppo
      (min m.qtyRemaining t.qtyRemaining)).openBut taker tid := by
    rw [OrderBook.mem_openBut_ne hother]
    show (st.book.activeOrders m.orderId).isSome = true
    rw [(h.filed _ hother maker).mpr hmaker]
    rfl
  -- drawing an id and taking the quantities off sends nothing
  have hopen := OrderBook.openBut_traded ht hne hr tid oppo (min m.qtyRemaining t.qtyRemaining)
  have hedit : Turns N st (State.draw { st with
      book := st.book.traded taker maker oppo (min m.qtyRemaining t.qtyRemaining) })
      (st.book.openBut taker tid) (st.book.openBut taker tid) :=
    ⟨[], Emits.silent st _ rfl rfl, .nil _⟩
  -- then the two fills, each of an order that is open
  have htaker := hedit.trans (Turns.fill _ (t.qtyRemaining - min m.qtyRemaining t.qtyRemaining)
    (h.bound h.self) hin (st.gen 0) s.side (st.book.cfg.plToPrice oppo)
    (min m.qtyRemaining t.qtyRemaining) .none)
  rw [← hopen] at htaker
  have hboth := htaker.trans (Turns.fill _ (m.qtyRemaining - min m.qtyRemaining t.qtyRemaining)
    (h.bound hmaker) hmin (st.gen 0) s.flip.side (st.book.cfg.plToPrice oppo)
    (min m.qtyRemaining t.qtyRemaining) .none)
  rw [← hself] at hboth ⊢
  exact hboth

/-- The inner loop of `match`. -/
theorem matchMakers_turns {s : Slot} {oppo : Nat} (fuel : Nat) :
    ∀ {maker : OrderNode} {st st' : State}, st.book.FiledBut taker tid →
      State.matchMakers taker s oppo fuel maker st = some st' →
      st'.book.FiledBut taker tid ∧
        Turns N st st' (st.book.openBut taker tid) (st'.book.openBut taker tid) := by
  induction fuel with
  | zero =>
    intro maker st st' _ hrun
    cases hrun
  | succ fuel ih =>
    intro maker st st' h hrun
    rw [State.matchMakers] at hrun
    obtain ⟨t, ht, hrun⟩ := Option.bind_eq_some_iff.mp hrun
    split at hrun
    · obtain rfl := Option.some.inj hrun
      exact ⟨h, .refl st _⟩
    rename_i hgo
    obtain ⟨ptr, -, hrun⟩ := Option.bind_eq_some_iff.mp hrun
    obtain ⟨m, hm, hrun⟩ := Option.bind_eq_some_iff.mp hrun
    have hr : t.qtyRemaining ≠ 0 := fun e => hgo (Or.inr e)
    by_cases hself : ptr = taker
    · -- an order that met itself would be deleted and read again
      subst hself
      obtain rfl := Option.some.inj (ht.symm.trans hm)
      rw [if_neg (by omega)] at hrun
      obtain ⟨b, -, hrun⟩ := Option.bind_eq_some_iff.mp hrun
      obtain ⟨next, -, hrun⟩ := Option.bind_eq_some_iff.mp hrun
      cases fuel with
      | zero => cases hrun
      | succ fuel =>
        rw [State.matchMakers] at hrun
        obtain ⟨t', ht', -⟩ := Option.bind_eq_some_iff.mp hrun
        cases (Function.update_self ..).symm.trans ht'
    obtain ⟨hfiled, hturns⟩ := trade_turns (N := N) h ht hm hself hr s oppo
    split at hrun
    · rename_i hleft
      rw [if_neg hleft] at hturns
      obtain ⟨hfiled', hrest⟩ := ih hfiled hrun
      exact ⟨hfiled', hturns.trans hrest⟩
    · rename_i hleft
      rw [if_pos (not_not.mp hleft)] at hturns
      obtain ⟨b, hb, hrun⟩ := Option.bind_eq_some_iff.mp hrun
      obtain ⟨next, -, hrun⟩ := Option.bind_eq_some_iff.mp hrun
      have hmaker : (st.trade taker ptr s oppo t m).book.ids ptr = some m.orderId := by
        rw [trade_book, OrderBook.ids_traded]
        unfold OrderBook.ids
        rw [hm]
        rfl
      have hother : m.orderId ≠ tid := fun e => hself (hfiled.only (e ▸ hmaker))
      have hgone := (OrderBook.SameOrders.removeOrderFromLevel hb).delete ptr
      obtain ⟨hfiled', hrest⟩ := ih ((hfiled.erase hmaker hself).same hgone) hrun
      refine ⟨hfiled', hturns.trans ?_⟩
      rw [← OrderBook.openBut_erase _ hother hself, ← hgone.openBut taker tid]
      have hkeep := Keeps.removeOrderFromLevel hb
      exact (Turns.edit (b := b.delete ptr) ⟨hkeep.cfg, hkeep.mode⟩ _).trans hrest

/-- The outer loop of `match`. -/
theorem matchLevels_turns {s : Slot} {priceIdx : Nat} (fuel : Nat) :
    ∀ {st st' : State}, st.book.FiledBut taker tid →
      State.matchLevels taker s priceIdx fuel st = some st' →
      st'.book.FiledBut taker tid ∧
        Turns N st st' (st.book.openBut taker tid) (st'.book.openBut taker tid) := by
  induction fuel with
  | zero =>
    intro st st' _ hrun
    cases hrun
  | succ fuel ih =>
    intro st st' h hrun
    rw [State.matchLevels] at hrun
    split at hrun
    · obtain rfl := Option.some.inj hrun
      exact ⟨h, .refl st _⟩
    · obtain ⟨t, -, hrun⟩ := Option.bind_eq_some_iff.mp hrun
      split at hrun
      · obtain rfl := Option.some.inj hrun
        exact ⟨h, .refl st _⟩
      split at hrun
      · obtain ⟨maker, -, hrun⟩ := Option.bind_eq_some_iff.mp hrun
        obtain ⟨st₁, hmakers, hrun⟩ := Option.bind_eq_some_iff.mp hrun
        obtain ⟨b, hb, hrun⟩ := Option.bind_eq_some_iff.mp hrun
        obtain ⟨h₁, hturns⟩ := matchMakers_turns (N := N) _ h hmakers
        have hsame := OrderBook.SameOrders.removeIfEmpty hb
        obtain ⟨h₂, hrest⟩ := ih (h₁.same hsame) hrun
        rw [hsame.openBut] at hrest
        exact ⟨h₂, hturns.trans ((Turns.edit (Keeps.removeIfEmpty hb) _).trans hrest)⟩
      · obtain rfl := Option.some.inj hrun
        exact ⟨h, .refl st _⟩

/-- `match` files the order if something is left of it, and deletes it if not. -/
theorem matchTaker_turns {side : Side} {priceIdx : Nat} (h : st.book.FiledBut taker tid)
    (hrun : st.matchTaker taker side priceIdx = some st') :
    st'.book.Filed ∧ Turns N st st' (st.book.openBut taker tid) st'.book.openIds := by
  unfold State.matchTaker at hrun
  obtain ⟨s, -, hrun⟩ := Option.bind_eq_some_iff.mp hrun
  obtain ⟨st₁, hlevels, hrun⟩ := Option.bind_eq_some_iff.mp hrun
  obtain ⟨t, ht, hrun⟩ := Option.bind_eq_some_iff.mp hrun
  obtain ⟨h₁, hturns⟩ := matchLevels_turns (N := N) _ h hlevels
  have hself : t.orderId = tid := by
    have hids := h₁.self
    unfold OrderBook.ids at hids
    rw [ht] at hids
    exact Option.some.inj hids
  have hleft : st₁.book.leftOf taker = some t.qtyRemaining := by
    unfold OrderBook.leftOf
    rw [ht]
    rfl
  rw [hself] at hrun
  split at hrun
  · rename_i hz
    obtain rfl := Option.some.inj hrun
    have hopen : st₁.book.openBut taker tid = ((st₁.book.eraseActive tid).delete taker).openIds :=
      OrderBook.openBut_gone (hz ▸ hleft)
    rw [hopen] at hturns
    exact ⟨h₁.gone, hturns.trans (.edit (b := (st₁.book.eraseActive tid).delete taker) ⟨rfl, rfl⟩ _)⟩
  · rename_i hz
    obtain ⟨b, hlevel, hrun⟩ := Option.bind_eq_some_iff.mp hrun
    obtain ⟨b', hinsert, hrun⟩ := Option.bind_eq_some_iff.mp hrun
    obtain rfl := Option.some.inj hrun
    have hsame := (OrderBook.SameOrders.getOrCreatePriceLevel hlevel).trans (.insertOrderToLevel hinsert)
    have hkeep := (Keeps.getOrCreatePriceLevel hlevel).trans (Keeps.insertOrderToLevel hinsert)
    have hopen : b'.openBut taker tid = (b'.setActive tid taker).openIds := by
      refine OrderBook.openBut_rested ?_
      rw [hsame.left, hleft]
      exact fun e => hz (Option.some.inj e)
    rw [← hsame.openBut, hopen] at hturns
    exact ⟨(h₁.same hsame).rested,
      hturns.trans (.edit (b := b'.setActive tid taker) ⟨hkeep.cfg, hkeep.mode⟩ _)⟩

end Match

/-! ## Requests -/

/-- A new order passes the checks of `processRequest` and `handleNewOrder`. -/
structure OrderBook.Admits (b : OrderBook) (req : OrderRequest) : Prop where
  action : req.action = .new
  price : ¬ (req.type ≠ .market ∧ b.cfg.priceInvalid req.p ≠ 0)
  fresh : b.activeOrders req.combinedId = none
  limit : ¬ (req.p ≤ 0 ∧ req.type = .limit)
  quantity : ¬ (req.q = 0 ∨ globalMaxQty < req.q)

/-- The id that a request may enter. -/
def OrderBook.entering (b : OrderBook) (req : OrderRequest) : Set Nat :=
  {k | b.Admits req ∧ k = req.combinedId}

namespace OrderBook

variable {b : OrderBook} {ptr id : Nat}

/-- An order of the book is taken out of it. -/
theorem Filed.but (h : b.Filed) (hptr : b.ids ptr = some id) : b.FiledBut ptr id := by
  refine ⟨hptr, fun hp => ?_, fun k _ p => h.filed k p, h.allocated, h.bound⟩
  have hact := (h.filed id _).mpr hp
  rw [(h.filed id ptr).mpr hptr] at hact
  exact (Option.some.inj hact).symm

/-- As long as something is left of it, its id is open. -/
theorem Filed.openBut_eq (h : b.Filed) (hptr : b.ids ptr = some id) (hleft : b.leftOf ptr ≠ some 0) :
    b.openBut ptr id = b.openIds := by
  ext k
  by_cases hk : k = id
  · rw [hk, mem_openBut_self]
    unfold openIds
    rw [Set.mem_ofPred_eq, (h.filed id ptr).mpr hptr]
    exact ⟨fun _ => rfl, fun _ => hleft⟩
  · rw [mem_openBut_ne hk]
    rfl

/-- A filed book without one of its orders. -/
theorem Filed.erase (h : b.Filed) (hptr : b.ids ptr = some id) : ((b.eraseActive id).delete ptr).Filed :=
  (h.but hptr).gone

theorem openIds_erase (b : OrderBook) (ptr id : Nat) :
    ((b.eraseActive id).delete ptr).openIds = b.openIds \ {id} := by
  ext k
  show (Function.update b.activeOrders id none k).isSome = true ↔
    (b.activeOrders k).isSome = true ∧ k ≠ id
  by_cases he : k = id
  · rw [he, Function.update_self]
    exact ⟨fun h => absurd h Bool.false_ne_true, fun h => absurd rfl h.2⟩
  · rw [Function.update_of_ne he]
    exact ⟨fun h => ⟨h, he⟩, fun h => h.1⟩

/-- An order is rewritten. -/
theorem Filed.modifyOrder (h : b.Filed) (ptr : Nat) {f : Order → Order}
    (hf : ∀ o, (f o).orderId = o.orderId) : (b.modifyOrder ptr f).Filed := by
  have hids := ids_modifyOrder b ptr hf
  refine ⟨?_, ?_, ?_⟩
  · rw [hids]
    exact h.filed
  · rw [hids]
    exact h.allocated
  · rw [hids]
    exact h.bound

/-- It is matched again. -/
theorem Filed.rewritten (h : b.Filed) (hptr : b.ids ptr = some id) {f : Order → Order}
    (hf : ∀ o, (f o).orderId = o.orderId) (hleft : ∀ o, (f o).qtyRemaining ≠ 0) :
    (b.modifyOrder ptr f).FiledBut ptr id ∧ (b.modifyOrder ptr f).openBut ptr id = b.openIds := by
  have hptr' : (b.modifyOrder ptr f).ids ptr = some id := by
    rw [ids_modifyOrder b ptr hf]
    exact hptr
  refine ⟨(h.modifyOrder ptr hf).but hptr', (h.modifyOrder ptr hf).openBut_eq hptr' ?_⟩
  rw [leftOf_modifyOrder, Function.update_self]
  intro hzero
  obtain ⟨o, -, ho⟩ := Option.map_eq_some_iff.mp hzero
  exact hleft o ho

/-- A new order is in memory, and not yet under its id. -/
theorem Filed.allocate (h : b.Filed) {o : Order} (hid : o.orderId < 2 ^ 64)
    (hfresh : b.activeOrders o.orderId = none) : (b.allocate o).FiledBut b.nextOrder o.orderId := by
  have hids := ids_allocate b o
  have hold : ∀ {p k}, (b.allocate o).ids p = some k → p = b.nextOrder ∧ k = o.orderId ∨ b.ids p = some k := by
    intro p k hp
    rw [hids] at hp
    by_cases he : p = b.nextOrder
    · rw [he, Function.update_self] at hp
      exact Or.inl ⟨he, (Option.some.inj hp).symm⟩
    · rw [Function.update_of_ne he] at hp
      exact Or.inr hp
  refine ⟨?_, fun {p} hp => ?_, fun k hk p => ⟨fun hact => ?_, fun hp => ?_⟩, fun {p k} hp => ?_,
    fun {p k} hp => ?_⟩
  · rw [hids, Function.update_self]
  · rcases hold hp with ⟨he, -⟩ | hp
    · exact he
    · rw [(h.filed _ p).mpr hp] at hfresh
      cases hfresh
  · have hp := (h.filed k p).mp hact
    rw [hids, Function.update_of_ne (h.allocated hp).ne]
    exact hp
  · rcases hold hp with ⟨-, he⟩ | hp
    · exact absurd he hk
    · exact (h.filed k p).mpr hp
  · rcases hold hp with ⟨he, -⟩ | hp
    · rw [he]
      exact Nat.lt_succ_self _
    · exact Nat.lt_succ_of_lt (h.allocated hp)
  · rcases hold hp with ⟨-, he⟩ | hp
    · rw [he]
      exact hid
    · exact h.bound hp

/-- A taker that is not in the index yet is open. -/
theorem openBut_allocate (b : OrderBook) {o : Order} (hq : o.qtyRemaining ≠ 0) :
    (b.allocate o).openBut b.nextOrder o.orderId = insert o.orderId b.openIds := by
  have hleft : (b.allocate o).leftOf b.nextOrder = some o.qtyRemaining := by
    unfold leftOf allocate
    dsimp only
    rw [Function.update_self]
    rfl
  ext k
  rw [Set.mem_insert_iff]
  by_cases hk : k = o.orderId
  · rw [hk, mem_openBut_self, hleft]
    exact ⟨fun _ => Or.inl rfl, fun _ e => hq (Option.some.inj e)⟩
  · rw [mem_openBut_ne hk]
    exact ⟨fun h => Or.inr h, fun h => h.resolve_left hk⟩

end OrderBook

section Requests

variable {st st' : State} {req : OrderRequest}

/-- A rejection opens and closes nothing. -/
theorem reject_turns (h : st.book.Filed) (N : Set Nat) (req : OrderRequest) (qRem : Nat)
    (code : RejectCode) : (st.reject req qRem code).book.Filed ∧
      Turns N st (st.reject req qRem code) st.book.openIds (st.reject req qRem code).book.openIds := by
  unfold State.reject
  rw [State.sendResponse_book]
  exact ⟨h, .send st (t := .rejected) req.combinedId_lt trivial ..⟩

/-- A new order that is admitted is entered first. -/
theorem handleNewOrder_enters (h : st.book.Filed) (hadm : st.book.Admits req)
    (hrun : st.handleNewOrder req = some st') : st'.book.Filed ∧
      ∃ rs, Emits st st' (st.book.cfg.response .new req.combinedId req.execId req.side req.p req.q req.q
          .none :: rs) ∧
        Lives st.book.cfg.symbolId ∅ (insert req.combinedId st.book.openIds) rs st'.book.openIds := by
  unfold State.handleNewOrder at hrun
  rw [hadm.fresh, if_neg (by decide), if_neg hadm.limit, if_neg hadm.quantity] at hrun
  dsimp only at hrun
  have hq : (State.createOrder req).qtyRemaining ≠ 0 := fun e => hadm.quantity (Or.inl e)
  have hfiled := h.allocate (o := State.createOrder req) req.combinedId_lt hadm.fresh
  have hopen := st.book.openBut_allocate hq
  obtain ⟨hst', rs, hsent, hlives⟩ := matchTaker_turns (N := ∅) (by
    rw [State.sendResponse_book]
    exact hfiled) hrun
  rw [State.sendResponse_book] at hlives
  refine ⟨hst', rs, ?_, ?_⟩
  · have hack : Emits st (State.sendResponse { st with book := st.book.allocate (State.createOrder req) }
        .new req.combinedId req.execId req.side req.p req.q req.q .none)
        [st.book.cfg.response .new req.combinedId req.execId req.side req.p req.q req.q .none] :=
      (Emits.silent st (b := st.book.allocate (State.createOrder req)) st.gen rfl rfl).trans (Emits.send ..)
    exact hack.trans hsent
  · rw [← show (State.createOrder req).orderId = req.combinedId from rfl, ← hopen]
    exact hlives

theorem handleNewOrder_turns (h : st.book.Filed) (hact : req.action = .new)
    (hprice : ¬ (req.type ≠ .market ∧ st.book.cfg.priceInvalid req.p ≠ 0))
    (hrun : st.handleNewOrder req = some st') : st'.book.Filed ∧
      Turns (st.book.entering req) st st' st.book.openIds st'.book.openIds := by
  by_cases hadm : st.book.Admits req
  · obtain ⟨hst', rs, hsent, hlives⟩ := handleNewOrder_enters h hadm hrun
    refine ⟨hst', _, hsent, ?_⟩
    have hstands : Stands (st.book.entering req) st.book.openIds .new req.combinedId := by
      refine ⟨⟨hadm, rfl⟩, fun hin => ?_⟩
      unfold OrderBook.openIds at hin
      rw [Set.mem_ofPred_eq, hadm.fresh] at hin
      cases hin
    have hfirst : Lives st.book.cfg.symbolId (st.book.entering req) st.book.openIds
        [st.book.cfg.response .new req.combinedId req.execId req.side req.p req.q req.q .none]
        (insert req.combinedId st.book.openIds) := .record req.combinedId_lt hstands
    exact hfirst.append (hlives.mono (Set.empty_subset _))
  · unfold State.handleNewOrder at hrun
    split at hrun
    · obtain rfl := Option.some.inj hrun
      exact reject_turns h ..
    split at hrun
    · obtain rfl := Option.some.inj hrun
      exact reject_turns h ..
    split at hrun
    · obtain rfl := Option.some.inj hrun
      exact reject_turns h ..
    · rename_i hfresh hlimit hquantity
      exact absurd ⟨hact, hprice, Option.not_isSome_iff_eq_none.mp hfresh, hlimit, hquantity⟩ hadm

/-- The order under an id is in memory. -/
theorem OrderBook.Filed.ids_of (h : st.book.Filed) {k ptr : Nat} {o : Order}
    (hptr : st.book.activeOrders k = some ptr) (ho : st.book.orders ptr = some o) :
    st.book.ids ptr = some k ∧ o.orderId = k ∧ k ∈ st.book.openIds := by
  have hids := (h.filed k ptr).mp hptr
  refine ⟨hids, ?_, ?_⟩
  · unfold OrderBook.ids at hids
    rw [ho] at hids
    exact Option.some.inj hids
  · unfold OrderBook.openIds
    rw [Set.mem_ofPred_eq, hptr]
    rfl

theorem handleCancelOrder_turns (h : st.book.Filed) (N : Set Nat)
    (hrun : st.handleCancelOrder req = some st') : st'.book.Filed ∧
      Turns N st st' st.book.openIds st'.book.openIds := by
  unfold State.handleCancelOrder at hrun
  split at hrun
  · obtain rfl := Option.some.inj hrun
    exact reject_turns h ..
  · rename_i ptr hptr
    obtain ⟨o, ho, hrun⟩ := Option.bind_eq_some_iff.mp hrun
    obtain ⟨b, hgone, hrun⟩ := Option.bind_eq_some_iff.mp hrun
    obtain ⟨pl, -, hrun⟩ := Option.bind_eq_some_iff.mp hrun
    obtain ⟨b', hempty, hrun⟩ := Option.bind_eq_some_iff.mp hrun
    obtain rfl := Option.some.inj hrun
    obtain ⟨hids, hid, hin⟩ := h.ids_of hptr ho
    have hsame : OrderBook.SameOrders ((st.book.eraseActive o.orderId).delete ptr) (b'.delete ptr) := by
      refine OrderBook.SameOrders.delete ?_ ptr
      refine (OrderBook.SameOrders.removeOrderFromLevel hgone).trans (OrderBook.SameOrders.trans ?_
        (.removeIfEmpty hempty))
      exact .of_orders rfl rfl rfl
    have hkeep : Keeps st.book b' := by
      have hgone := Keeps.removeOrderFromLevel hgone
      have hempty := Keeps.removeIfEmpty hempty
      exact (show Keeps st.book b from ⟨hgone.cfg, hgone.mode⟩).trans ⟨hempty.cfg, hempty.mode⟩
    rw [hid] at hsame ⊢
    dsimp only
    rw [State.sendResponse_book]
    refine ⟨(h.erase hids).same hsame, ?_⟩
    have hopen : (b'.delete ptr).openIds = openAfter st.book.openIds .cancelled req.combinedId := by
      unfold OrderBook.openIds
      rw [hsame.active]
      exact st.book.openIds_erase ptr req.combinedId
    rw [hopen]
    have hsent := (Turns.edit hkeep _).trans (Turns.send (N := N) { st with book := b' } (t := .cancelled)
      req.combinedId_lt hin req.execId req.side (b'.cfg.plToPrice pl) o.qtyOriginal 0 .none)
    refine hsent.edited ?_
    rw [State.sendResponse_book]
    exact ⟨rfl, rfl⟩

theorem replaceOrder_turns (h : st.book.Filed) (N : Set Nat) {ptr pl target newQty : Nat} {o : Order}
    (hptr : st.book.activeOrders req.combinedId = some ptr) (ho : st.book.orders ptr = some o)
    (hrun : st.replaceOrder req ptr o pl target newQty = some st') : st'.book.Filed ∧
      Turns N st st' st.book.openIds st'.book.openIds := by
  obtain ⟨hids, hid, hin⟩ := h.ids_of hptr ho
  unfold State.replaceOrder at hrun
  dsimp only at hrun
  split at hrun
  · obtain rfl := Option.some.inj hrun
    exact reject_turns h ..
  have hack := Turns.send (N := N) st (t := .replaced) req.combinedId_lt hin req.execId req.side
    (st.book.cfg.plToPrice target) newQty (newQty - (o.qtyOriginal - o.qtyRemaining)) .none
  split at hrun
  · obtain rfl := Option.some.inj hrun
    rw [State.sendResponse_book]
    exact ⟨h, hack⟩
  split at hrun
  · obtain ⟨b, hgone, hrun⟩ := Option.bind_eq_some_iff.mp hrun
    obtain ⟨b', hempty, hrun⟩ := Option.bind_eq_some_iff.mp hrun
    rw [State.sendResponse_book] at hgone
    have hsame : OrderBook.SameOrders st.book b' := by
      refine (OrderBook.SameOrders.removeOrderFromLevel hgone).trans (OrderBook.SameOrders.trans ?_
        (.removeIfEmpty hempty))
      exact .of_orders rfl rfl rfl
    have hkeep : Keeps st.book b' := by
      have hgone := Keeps.removeOrderFromLevel hgone
      have hempty := Keeps.removeIfEmpty hempty
      exact (show Keeps st.book b from ⟨hgone.cfg, hgone.mode⟩).trans ⟨hempty.cfg, hempty.mode⟩
    have hmid := hack.edited (b := b') (by rw [State.sendResponse_book]; exact hkeep)
    split at hrun
    · obtain rfl := Option.some.inj hrun
      -- the closing `Fill`
      have hsent := hmid.trans (Turns.send (t := .fill) _ req.combinedId_lt hin req.execId req.side
        (st.book.cfg.plToPrice target) 0 0 .none)
      have hopen : ((b'.eraseActive o.orderId).delete ptr).openIds =
          openAfter st.book.openIds .fill req.combinedId := by
        rw [hid]
        refine (b'.openIds_erase ptr req.combinedId).trans ?_
        unfold OrderBook.openIds
        rw [hsame.active]
        rfl
      dsimp only
      rw [State.sendResponse_book, hopen]
      refine ⟨?_, hsent.edited ?_⟩
      · rw [hid]
        exact (h.same hsame).erase (by rw [hsame.ids]; exact hids)
      · rw [State.sendResponse_book]
        exact ⟨rfl, rfl⟩
    · rename_i hleft
      have hfiled := h.same hsame
      have hids' : b'.ids ptr = some req.combinedId := by
        rw [hsame.ids]
        exact hids
      obtain ⟨hbut, hopen⟩ := hfiled.rewritten hids' (f := fun o' => { o' with
        qtyRemaining := newQty - (o.qtyOriginal - o.qtyRemaining), qtyOriginal := newQty })
        (fun _ => rfl) (fun _ => hleft)
      obtain ⟨hst', hturns⟩ := matchTaker_turns (N := N) hbut hrun
      refine ⟨hst', Turns.trans ?_ hturns⟩
      rw [hopen]
      have hopen' : b'.openIds = st.book.openIds := by
        unfold OrderBook.openIds
        rw [hsame.active]
      rw [hopen']
      exact hmid.edited ⟨rfl, rfl⟩
  · obtain rfl := Option.some.inj hrun
    dsimp only
    rw [State.sendResponse_book]
    have hfiled : (st.book.modifyLevel pl fun l => { l with
        totalQty := l.totalQty + ((newQty : Int) - o.qtyOriginal : Int) }).Filed :=
      h.same (.of_orders rfl rfl rfl)
    refine ⟨hfiled.modifyOrder ptr fun _ => rfl, hack.edited ?_⟩
    rw [State.sendResponse_book]
    exact ⟨rfl, rfl⟩

theorem handleModifyOrder_turns (h : st.book.Filed) (N : Set Nat)
    (hrun : st.handleModifyOrder req = some st') : st'.book.Filed ∧
      Turns N st st' st.book.openIds st'.book.openIds := by
  unfold State.handleModifyOrder at hrun
  split at hrun
  · obtain rfl := Option.some.inj hrun
    exact reject_turns h ..
  · rename_i ptr hptr
    obtain ⟨o, ho, hrun⟩ := Option.bind_eq_some_iff.mp hrun
    split at hrun
    · obtain rfl := Option.some.inj hrun
      exact reject_turns h ..
    split at hrun
    · obtain rfl := Option.some.inj hrun
      exact reject_turns h ..
    obtain ⟨pl, -, hrun⟩ := Option.bind_eq_some_iff.mp hrun
    exact replaceOrder_turns h N hptr ho hrun

/-- Whatever the request: it enters at most the id that is admitted, and its other records are
about ids that are open. -/
theorem processRequest_turns (h : st.book.Filed) (hrun : st.processRequest req = some st') :
    st'.book.Filed ∧ Turns (st.book.entering req) st st' st.book.openIds st'.book.openIds := by
  unfold State.processRequest at hrun
  split at hrun
  · exact handleCancelOrder_turns h _ hrun
  · exact handleModifyOrder_turns h _ hrun
  · rename_i hact
    split at hrun
    · obtain rfl := Option.some.inj hrun
      exact reject_turns h ..
    · rename_i hprice
      exact handleNewOrder_turns h hact hprice hrun
  · obtain rfl := Option.some.inj hrun
    exact reject_turns h ..

/-- A request that is admitted is entered first. -/
theorem processRequest_enters (h : st.book.Filed) (hadm : st.book.Admits req)
    (hrun : st.processRequest req = some st') :
    ∃ rs, Emits st st' (st.book.cfg.response .new req.combinedId req.execId req.side req.p req.q req.q
        .none :: rs) ∧
      Lives st.book.cfg.symbolId ∅ (insert req.combinedId st.book.openIds) rs st'.book.openIds := by
  unfold State.processRequest at hrun
  rw [hadm.action] at hrun
  dsimp only at hrun
  rw [if_neg hadm.price] at hrun
  exact (handleNewOrder_enters h hadm hrun).2

end Requests

end Exchange
