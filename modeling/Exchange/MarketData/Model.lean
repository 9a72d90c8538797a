import Mathlib.Data.List.AList
import Exchange.Book.Model

/-!
# The market data server's books, as the code computes them

`src/L3Book.cpp`, `MDOrderBook.hpp` and the record processing of
`src/MarketDataServer.cpp`. The server reads the journal and keeps, for each
symbol, an `L3Book` of its own.

A `std::map` or `std::unordered_map` is an `AList`; `begin()` of `bids` is the
greatest price and of `asks` the least. A node of a `std::list` has an address,
numbered in allocation order, so that `queue_pos` is the address of a node.
Erasing a node that is not in the list it is erased from is undefined, and a
fault here, as is the exception.

Quantities are exact, as on the wire, and so is `total_qty`: the sum of a level
stays below `2^64` for as long as it holds fewer than `2^64 / GLOBAL_MAX_QTY`,
some eighteen thousand million, orders. The mutex and the publications to
subscribed clients, which write nothing here, are left out.
-/

namespace Exchange.MarketData

/-- What a step of the server can end in instead of a state. -/
inductive Fault
  | multiplePendingOrders
  | invalidIterator
  deriving DecidableEq, Repr

/-- `struct L3Order`. -/
structure L3Order where
  orderId : Nat
  side : Side
  price : Int
  qtyReq : Nat
  qtyRem : Nat
  queuePos : Nat
  deriving DecidableEq, Repr

/-- `struct L3PriceLevel`: each node of the queue with its address. -/
structure L3PriceLevel where
  totalQty : Nat
  queue : List (Nat × Nat)
  deriving DecidableEq, Repr

/-- The level `operator[]` makes up. -/
def L3PriceLevel.empty : L3PriceLevel := ⟨0, []⟩

/-- `queue.erase(pos)`. -/
def L3PriceLevel.eraseNode (l : L3PriceLevel) (pos : Nat) : Except Fault L3PriceLevel :=
  if pos ∈ l.queue.map Prod.fst then .ok { l with queue := l.queue.filter fun n => n.1 ≠ pos }
  else .error .invalidIterator

/-- `struct L3Book`, with the maps that `MDOrderBook` adds for its hook: `levels`
are `bids` and `asks`, `pendingL2` are `pending_l2_bids` and `pending_l2_asks`. -/
structure L3Book where
  orders : AList (fun _ : Nat => L3Order)
  levels : Slot → AList (fun _ : Int => L3PriceLevel)
  nextNode : Nat
  pendingL2 : Slot → AList (fun _ : Int => Nat)

namespace L3Book

/-- A book without orders. -/
def empty : L3Book := ⟨∅, fun _ => ∅, 0, fun _ => ∅⟩

/-- `side == Side_Buy ? bids : asks`. -/
def slotOf (side : Side) : Slot := if side = .buy then .bid else .ask

/-- `MDOrderBook::on_level_updated`. -/
def onLevelUpdated (b : L3Book) (side : Side) (price : Int) (totalQty : Nat) : L3Book :=
  match side.slot with
  | none => b
  | some s =>
    { b with pendingL2 := Function.update b.pendingL2 s ((b.pendingL2 s).insert price totalQty) }

/-- Writes one level. -/
def setLevel (b : L3Book) (s : Slot) (price : Int) (l : L3PriceLevel) : L3Book :=
  { b with levels := Function.update b.levels s ((b.levels s).insert price l) }

/-- Writes one level back, or erases it when its queue has become empty. -/
def setOrErase (b : L3Book) (s : Slot) (price : Int) (l : L3PriceLevel) : L3Book :=
  if l.queue = [] then { b with levels := Function.update b.levels s ((b.levels s).erase price) }
  else b.setLevel s price l

/-- The reference `bids[price]` or `asks[price]`. -/
def level (b : L3Book) (s : Slot) (price : Int) : L3PriceLevel :=
  ((b.levels s).lookup price).getD .empty

/-- `queue.push_back`, the level's total and the entry in `orders`. -/
def pushBack (b : L3Book) (orderId : Nat) (side : Side) (price : Int) (qty qRem : Nat) : L3Book :=
  let s := slotOf side
  let l := b.level s price
  let l : L3PriceLevel := ⟨l.totalQty + qRem, l.queue ++ [(b.nextNode, orderId)]⟩
  let b := b.setLevel s price l
  { b with
    orders := b.orders.insert orderId ⟨orderId, side, price, qty, qRem, b.nextNode⟩
    nextNode := b.nextNode + 1 }.onLevelUpdated side price l.totalQty

/-- `remove_from_queues`. -/
def removeFromQueues (b : L3Book) (orderId : Nat) : Except Fault L3Book :=
  match b.orders.lookup orderId with
  | none => .ok b
  | some order =>
    match order.side.slot with
    | none => .ok (b.onLevelUpdated order.side order.price 0)
    | some s =>
      match (b.levels s).lookup order.price with
      | none => .ok (b.onLevelUpdated order.side order.price 0)
      | some l => do
        -- the total is lowered by what is left, to zero at the least
        let l ← { l with totalQty := l.totalQty - order.qtyRem }.eraseNode order.queuePos
        .ok ((b.setOrErase s order.price l).onLevelUpdated order.side order.price l.totalQty)

/-- The in-place branch of `update`. -/
def updateInPlace (b : L3Book) (type : ExecType) (orderId : Nat) (order : L3Order)
    (qty qRem : Nat) : Except Fault L3Book :=
  let s := slotOf order.side
  let l := b.level s order.price
  let l := { l with totalQty := (l.totalQty + ((qRem : Int) - order.qtyRem)).toNat }
  let b := (b.setLevel s order.price l).onLevelUpdated order.side order.price l.totalQty
  if qRem = 0 then do
    let l ← l.eraseNode order.queuePos
    let b := b.setOrErase s order.price l
    .ok { b with orders := b.orders.erase orderId }
  else
    let qtyReq := if type = .replaced then qty else order.qtyReq
    .ok { b with
      orders := b.orders.insert orderId { order with qtyRem := qRem, qtyReq := qtyReq } }

/-- `L3Book::update`. -/
def update (b : L3Book) (type : ExecType) (orderId : Nat) (side : Side) (price : Int)
    (qty qRem : Nat) : Except Fault L3Book :=
  if side = .none then .ok { b with orders := ∅, levels := fun _ => ∅ }
  else if type = .rejected then .ok b
  else if type = .new then .ok (b.pushBack orderId side price qty qRem)
  else
    match b.orders.lookup orderId with
    | none => .ok b
    | some order =>
      -- a new price or a larger remainder goes to the back of the queue
      if type = .replaced ∧ (price ≠ order.price ∨ 0 < (qRem : Int) - order.qtyRem) then do
        let b ← b.removeFromQueues orderId
        if 0 < qRem then .ok (b.pushBack orderId side price qty qRem)
        else .ok { b with orders := b.orders.erase orderId }
      else b.updateInPlace type orderId order qty qRem

/-- `bids.begin()->first` or `asks.begin()->first`. -/
def best (b : L3Book) : Slot → Option Int
  | .bid => (b.levels .bid).keys.max?
  | .ask => (b.levels .ask).keys.min?

end L3Book

/-- `struct MDOrderBook`; a `pending_order` without an order id is none. -/
structure MDOrderBook where
  book : L3Book
  pendingOrder : OrderResponse
  mdSeqNum : Nat

namespace MDOrderBook

/-- The book the constructor builds. -/
def init : MDOrderBook where
  book := .empty
  pendingOrder :=
    { execType := .new
      orderId := 0
      clientId := 0
      execId := 0
      symbolId := 0
      side := .none
      p := 0
      q := 0
      qRem := 0
      rejectCode := .none }
  mdSeqNum := 0

/-- `MarketDataServer::crosses`. -/
def crosses (m : MDOrderBook) (side : Side) (price : Int) : Bool :=
  match side with
  | .buy => (m.book.best .ask).any fun p => price = 0 ∨ p ≤ price
  | .sell => (m.book.best .bid).any fun p => price = 0 ∨ price ≤ p
  | _ => false

/-- `MarketDataServer::__update`. -/
def update (m : MDOrderBook) (resp : OrderResponse) : Except Fault MDOrderBook := do
  let book ← m.book.update resp.execType resp.combinedId resp.side resp.p resp.q resp.qRem
  .ok { m with book := book, mdSeqNum := m.mdSeqNum + 1 }

/-- Enters the pending order once it no longer crosses. -/
def enterPending (m : MDOrderBook) : Except Fault MDOrderBook :=
  if m.pendingOrder.orderId = 0 ∨ m.crosses m.pendingOrder.side m.pendingOrder.p then .ok m
  else do
    let m ← m.update m.pendingOrder
    .ok { m with pendingOrder := { m.pendingOrder with orderId := 0 } }

/-- The end of `process_market_update`, for a record that is not held back. -/
def apply (m : MDOrderBook) (resp : OrderResponse) : Except Fault MDOrderBook := do
  (← m.update resp).enterPending

/-- `process_market_update`, once the book is found. -/
def process (m : MDOrderBook) (resp : OrderResponse) : Except Fault MDOrderBook :=
  if m.pendingOrder.orderId ≠ 0 then
    if checkExec resp.execType execResp then .error .multiplePendingOrders
    else if checkExec resp.execType (execAnn ||| execMask .partialFill) ∧
        resp.orderId = m.pendingOrder.orderId ∧ resp.clientId = m.pendingOrder.clientId then
      if resp.execType = .partialFill then
        .ok { m with pendingOrder := { m.pendingOrder with
                q := m.pendingOrder.q - resp.q, qRem := m.pendingOrder.qRem - resp.q } }
      else .ok { m with pendingOrder := { m.pendingOrder with orderId := 0 } }
    else m.apply resp
  else if checkExec resp.execType execMe ∧ m.crosses resp.side resp.p then do
    let m ← if resp.execType = .replaced then m.update { resp with execType := .cancelled, qRem := 0 }
      else .ok m
    .ok { m with pendingOrder := { resp with execType := .new } }
  else m.apply resp

end MDOrderBook

/-- `MarketDataServer`: `books_`. -/
abbrev Server := AList (fun _ : UInt32 => MDOrderBook)

namespace Server

/-- `get_or_create_book`. -/
def getOrCreateBook (srv : Server) (symbolId : UInt32) : MDOrderBook :=
  (srv.lookup symbolId).getD .init

/-- `process_market_update`. -/
def processMarketUpdate (srv : Server) (resp : OrderResponse) : Except Fault Server :=
  if checkExec resp.execType execMd then do
    let m ← (srv.getOrCreateBook resp.symbolId).process resp
    .ok (srv.insert resp.symbolId m)
  else .ok srv

/-- A journal, record by record. -/
def feed (srv : Server) (journal : List OrderResponse) : Except Fault Server :=
  journal.foldlM processMarketUpdate srv

end Server

theorem getOrCreateBook_self (srv : Server) (sid : UInt32) (m : MDOrderBook) :
    Server.getOrCreateBook (srv.insert sid m) sid = m := by
  unfold Server.getOrCreateBook
  rw [AList.lookup_insert]
  rfl

theorem getOrCreateBook_ne (srv : Server) {sid k : UInt32} (h : k ≠ sid) (m : MDOrderBook) :
    Server.getOrCreateBook (srv.insert sid m) k = srv.getOrCreateBook k := by
  unfold Server.getOrCreateBook
  rw [AList.lookup_insert_ne h]

end Exchange.MarketData
