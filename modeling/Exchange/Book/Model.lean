import Mathlib.Data.BitVec
import Exchange.Types
import Exchange.Lib.Links
import Exchange.Lib.OrdSet

/-!
# `OrderBook`, as the code computes it

`src/OrderBook.cpp` with `include/service/OrderBook.hpp` and `Order.hpp`.

Pointers. A `PriceLevel*` is its index in `price_array_`. An `Order*` is an
`OrderNode`: one of the two dummies inside a level, or a heap order, numbered
in allocation order. The struct fields that are pointers are kept as one
`Links` per pair: `links` holds every order's `next`/`prev`, `chain` every
level's `worse`/`better` (`worse` is `next`). A fresh order's link fields are
still null, as `createOrder` leaves them.

Undefined behaviour. A subscript outside `best_levels_`, `active_levels_` or
`price_array_`, and reading through a null or deleted pointer, make the model
return `none`. So does a loop that outlives its fuel; the refinement proof
shows that neither happens on well-formed requests.

Arithmetic. Prices and quantities are exact integers, `total_qty` is a 64-bit
word. `sendResponse` logs each record together with the image `take_snapshot`
would write at that moment, because the journal writer's rollover callback
runs inside it. A book without a response ring behaves as one in recover mode.
`report_ack` and `report_cancelled` are never cleared by a caller and left out.
-/

namespace Exchange

/-- The subscripts of `best_levels_` and `active_levels_` that are in bounds. -/
inductive Slot
  | bid
  | ask
  deriving DecidableEq, Repr

namespace Slot

/-- `1 ^ side_int`. -/
def flip : Slot → Slot
  | bid => ask
  | ask => bid

/-- `static_cast<Side>(slot)`. -/
def side : Slot → Side
  | bid => .buy
  | ask => .sell

@[simp] theorem flip_flip (s : Slot) : s.flip.flip = s := by cases s <;> rfl

@[simp] theorem flip_ne (s : Slot) : s.flip ≠ s := by cases s <;> decide

@[simp] theorem ne_flip (s : Slot) : s ≠ s.flip := by cases s <;> decide

/-- There are two sides. -/
theorem eq_flip {s s' : Slot} (h : s' ≠ s) : s' = s.flip := by
  cases s <;> cases s' <;> first | rfl | exact absurd rfl h

end Slot

/-- `static_cast<int>(side)` as a subscript, when it is in bounds. -/
def Side.slot : Side → Option Slot
  | .buy => some .bid
  | .sell => some .ask
  | _ => Option.none

@[simp] theorem Slot.slot_side (s : Slot) : s.side.slot = some s := by cases s <;> rfl

theorem Slot.side_inj {s s' : Slot} (h : s.side = s'.side) : s = s' :=
  Option.some.inj (by rw [← Slot.slot_side, h, Slot.slot_side])

theorem Side.eq_side_of_slot {x : Side} {s : Slot} (h : x.slot = some s) : x = s.side := by
  cases x <;> cases s <;> simp_all [Side.slot, Slot.side]

/-- The constructor's arguments, with what it checks and what a vector can hold. -/
structure Config where
  symbolId : UInt32
  minStep : Int
  priceIndexOffset : Int
  maxPriceLevels : Nat
  minStep_pos : 0 < minStep
  levels_pos : 0 < maxPriceLevels
  levels_lt : maxPriceLevels < 2 ^ 63

instance : Inhabited Config := ⟨⟨0, 1, 0, 1, by decide, by decide, by decide⟩⟩

namespace Config

/-- `price_to_index`: truncating division, then a conversion to `size_t`. -/
def priceToIndex (c : Config) (price : Int) : Nat :=
  ((price.tdiv c.minStep - c.priceIndexOffset) % 2 ^ 64).toNat

/-- `pl_to_price`, as the 64-bit prices of records and snapshots take it. It returns a `size_t`; `dump_raw` is
the one place that prints that. -/
def plToPrice (c : Config) (pl : Nat) : Int := (pl + c.priceIndexOffset) * c.minStep

/-- `price_invalid`. The number of the level behind the last is taken to be a 64-bit one, as the sum of
`int64_t` that it is. -/
def priceInvalid (c : Config) (price : Int) : Int :=
  if price.tdiv c.minStep < c.priceIndexOffset then 1
  else if c.priceIndexOffset + c.maxPriceLevels < price.tdiv c.minStep then -1
  else 0

end Config

/-- `constexpr uint64_t GLOBAL_MAX_QTY`. -/
def globalMaxQty : Nat := 1000000000

/-- `struct Order`, without its link fields. -/
structure Order where
  orderId : Nat
  qtyOriginal : Nat
  qtyRemaining : Nat
  type : OrderType
  priceLevel : Option Nat
  timestamp : Nat
  symbolId : UInt32
  deriving DecidableEq, Repr

/-- `Order*`: a level's `dummy_head` or `dummy_tail`, or a heap order. -/
inductive OrderNode
  | head (level : Nat)
  | tail (level : Nat)
  | order (ptr : Nat)
  deriving DecidableEq, Repr

/-- The heap order a pointer refers to. -/
def OrderNode.ptr? : OrderNode → Option Nat
  | order p => some p
  | _ => none

/-- `struct PriceLevel`, without its link fields and dummies. -/
structure PriceLevel where
  totalQty : BitVec 64
  orderCount : Nat
  deriving DecidableEq, Repr

/-- `struct OrderSnapshot`. -/
structure OrderSnapshot where
  combinedOrderId : Nat
  qtyOriginal : Nat
  qtyRemaining : Nat
  type : OrderType
  side : Side
  timestamp : Nat
  symbolId : UInt32
  p : Int
  deriving DecidableEq, Repr

/-- `class OrderBook`. -/
structure OrderBook where
  cfg : Config
  priceArray : Nat → PriceLevel
  chain : Links Nat
  links : Links OrderNode
  orders : Nat → Option Order
  nextOrder : Nat
  activeOrders : Nat → Option Nat
  bestLevels : Slot → Option Nat
  activeLevels : Slot → OrdSet Nat
  recoverMode : Bool

/-- A record on its way to the journal, with the image `take_snapshot` would
write for this book at that moment. -/
structure Emission where
  resp : OrderResponse
  image : List OrderSnapshot
  deriving DecidableEq, Repr

/-- A book being driven: the random numbers still to be drawn and the records
sent so far. -/
structure State where
  book : OrderBook
  gen : Nat → Nat
  out : List Emission

namespace OrderBook

/-- The book the constructor builds. -/
def fresh (c : Config) : OrderBook where
  cfg := c
  priceArray := fun _ => ⟨0, 0⟩
  chain := ⟨fun _ => none, fun _ => none⟩
  links :=
    { next := fun | .head i => some (.tail i) | _ => none
      prev := fun | .tail i => some (.head i) | _ => none }
  orders := fun _ => none
  nextOrder := 0
  activeOrders := fun _ => none
  bestLevels := fun _ => none
  activeLevels := fun _ => OrdSet.empty
  recoverMode := false

/-- The heap orders met from `dummy_head.next` up to `dummy_tail`. -/
def queueOf (b : OrderBook) (pl : Nat) : List Nat :=
  ((b.links.follow (b.nextOrder + 1) (b.links.next (.head pl))).takeWhile
    (· ≠ .tail pl)).filterMap OrderNode.ptr?

/-- `take_snapshot`: both sides, levels in increasing index order. -/
def takeSnapshot (b : OrderBook) : List OrderSnapshot :=
  [Slot.bid, Slot.ask].flatMap fun s =>
    (b.activeLevels s).keys.flatMap fun pl =>
      (b.queueOf pl).filterMap fun ptr =>
        (b.orders ptr).map fun o =>
          { combinedOrderId := o.orderId
            qtyOriginal := o.qtyOriginal
            qtyRemaining := o.qtyRemaining
            type := o.type
            side := s.side
            timestamp := o.timestamp
            symbolId := o.symbolId
            p := b.cfg.plToPrice pl }

/-- `dump_raw`: asks, then bids, from the highest index down. Both numbers are printed as the unsigned words
they are, a negative price too. -/
def dumpRaw (b : OrderBook) : List (Side × BitVec 64 × BitVec 64) :=
  [Slot.ask, Slot.bid].flatMap fun s => (b.activeLevels s).keys.reverse.map fun pl =>
    (s.side, (b.cfg.plToPrice pl : BitVec 64), (b.priceArray pl).totalQty)

/-- Rewrites one level's counters. -/
def modifyLevel (b : OrderBook) (pl : Nat) (f : PriceLevel → PriceLevel) : OrderBook :=
  { b with priceArray := Function.update b.priceArray pl (f (b.priceArray pl)) }

/-- Rewrites one heap order. -/
def modifyOrder (b : OrderBook) (ptr : Nat) (f : Order → Order) : OrderBook :=
  { b with orders := Function.update b.orders ptr ((b.orders ptr).map f) }

/-- `new Order{…}`. -/
def allocate (b : OrderBook) (o : Order) : OrderBook :=
  { b with
    orders := Function.update b.orders b.nextOrder (some o)
    nextOrder := b.nextOrder + 1 }

/-- `delete o`. -/
def delete (b : OrderBook) (ptr : Nat) : OrderBook :=
  { b with orders := Function.update b.orders ptr none }

/-- `active_orders_.erase(id)`. -/
def eraseActive (b : OrderBook) (id : Nat) : OrderBook :=
  { b with activeOrders := Function.update b.activeOrders id none }

/-- `active_orders_[id] = o`. -/
def setActive (b : OrderBook) (id ptr : Nat) : OrderBook :=
  { b with activeOrders := Function.update b.activeOrders id (some ptr) }

def insertOrderToLevel (b : OrderBook) (pl order : Nat) : Option OrderBook := do
  let o ← b.orders order
  let oldTail ← b.links.prev (.tail pl)
  let links := (((b.links.setNext oldTail (some (.order order))).setPrev
    (.order order) (some oldTail)).setNext (.order order) (some (.tail pl))).setPrev
    (.tail pl) (some (.order order))
  some (({ b with links := links }.modifyOrder order
    fun o => { o with priceLevel := some pl }).modifyLevel pl
    fun l => ⟨l.totalQty + o.qtyRemaining, l.orderCount + 1⟩)

def removeOrderFromLevel (b : OrderBook) (ptr : Nat) : Option OrderBook := do
  let o ← b.orders ptr
  let prev ← b.links.prev (.order ptr)
  let next ← b.links.next (.order ptr)
  let pl ← o.priceLevel
  some ({ b with links := (b.links.setNext prev (some next)).setPrev next (some prev) }.modifyLevel
    pl fun l => { l with orderCount := l.orderCount - 1 })

/-- `removePriceLevel`; its null guard is for callers this file does not have. -/
def removePriceLevel (b : OrderBook) (pl : Nat) (side : Side) : Option OrderBook := do
  let s ← side.slot
  let better := b.chain.prev pl
  let worse := b.chain.next pl
  some { b with
    chain := (b.chain.setNext? better worse).setPrev? worse better
    bestLevels := if better.isSome then b.bestLevels else Function.update b.bestLevels s worse
    activeLevels := Function.update b.activeLevels s ((b.activeLevels s).erase pl) }

/-- `if (!level->order_count) removePriceLevel(level, side);` -/
def removeIfEmpty (b : OrderBook) (pl : Nat) (side : Side) : Option OrderBook :=
  if (b.priceArray pl).orderCount = 0 then b.removePriceLevel pl side else some b

/-- `level->total_qty -= qty`. -/
def subtractQty (b : OrderBook) (pl qty : Nat) : OrderBook :=
  b.modifyLevel pl fun l => { l with totalQty := l.totalQty - qty }

/-- `GetOrCreatePriceLevel`; the level returned is `priceIdx` itself. -/
def getOrCreatePriceLevel (b : OrderBook) (priceIdx : Nat) (side : Side) : Option OrderBook :=
  if priceIdx < b.cfg.maxPriceLevels then
    if 0 < (b.priceArray priceIdx).orderCount then some b
    else do
      let s ← side.slot
      let active := b.activeLevels s
      let better := if side = .buy then active.lowerBound priceIdx else active.before priceIdx
      let worse := if side = .buy then active.before priceIdx else active.lowerBound priceIdx
      some { b with
        chain := (((b.chain.setPrev priceIdx better).setNext priceIdx worse).setNext?
          better (some priceIdx)).setPrev? worse (some priceIdx)
        bestLevels := if better.isSome then b.bestLevels
          else Function.update b.bestLevels s (some priceIdx)
        activeLevels := Function.update b.activeLevels s (active.insert priceIdx) }
  else none

end OrderBook

/-- The record `sendResponse` builds in the journal's memory. -/
def Config.response (c : Config) (execType : ExecType) (combined execId : Nat) (side : Side)
    (p : Int) (q qRem : Nat) (rejectCode : RejectCode) : OrderResponse where
  execType := execType
  orderId := orderIdOf combined
  clientId := clientIdOf combined
  execId := execId
  symbolId := c.symbolId
  side := side
  p := p
  q := q
  qRem := qRem
  rejectCode := rejectCode

namespace State

/-- `sendResponse`. -/
def sendResponse (st : State) (execType : ExecType) (combined execId : Nat) (side : Side)
    (p : Int) (q qRem : Nat) (rejectCode : RejectCode) : State :=
  if st.book.recoverMode then st
  else
    { st with out := st.out ++ [
      { resp := st.book.cfg.response execType combined execId side p q qRem rejectCode
        image := st.book.takeSnapshot }] }

/-- `gen()`: one number is drawn. -/
def draw (st : State) : State := { st with gen := fun k => st.gen (k + 1) }

/-- `crossed`. -/
def crossed (s : Slot) (priceIdx oppoIdx : Nat) : Bool :=
  match s with
  | .bid => oppoIdx ≤ priceIdx
  | .ask => priceIdx ≤ oppoIdx

/-- `qty == 0 ? ExecType_Fill : ExecType_PartialFill`. -/
def fillType (qRem : Nat) : ExecType := if qRem = 0 then .fill else .partialFill

/-- The trade step of `match`'s inner loop, up to the two records: both
quantities and the level's total go down, then the taker's and the maker's
record are sent under one drawn `exec_id`. -/
def trade (st : State) (taker maker : Nat) (s : Slot) (oppo : Nat) (t m : Order) : State :=
  let qtyFill := min m.qtyRemaining t.qtyRemaining
  let fill := fun o : Order => { o with qtyRemaining := o.qtyRemaining - qtyFill }
  let p := st.book.cfg.plToPrice oppo
  let b := ((st.book.modifyOrder maker fill).modifyOrder taker fill).subtractQty oppo qtyFill
  let execId := st.gen 0
  let st := { st with book := b }.draw.sendResponse (fillType (t.qtyRemaining - qtyFill)) t.orderId
    execId s.side p qtyFill (t.qtyRemaining - qtyFill) .none
  st.sendResponse (fillType (m.qtyRemaining - qtyFill)) m.orderId execId s.flip.side p
    qtyFill (m.qtyRemaining - qtyFill) .none

/-- The inner loop of `match`: the makers of the level `oppo`, from `maker` on. -/
def matchMakers (taker : Nat) (s : Slot) (oppo : Nat) : Nat → OrderNode → State → Option State
  | 0, _, _ => none
  | fuel + 1, maker, st => do
    let t ← st.book.orders taker
    if maker = .tail oppo ∨ t.qtyRemaining = 0 then some st
    else
      let ptr ← maker.ptr?
      let m ← st.book.orders ptr
      let st := st.trade taker ptr s oppo t m
      if m.qtyRemaining - min m.qtyRemaining t.qtyRemaining ≠ 0 then
        matchMakers taker s oppo fuel maker st
      else
        let b ← (st.book.eraseActive m.orderId).removeOrderFromLevel ptr
        let next ← b.links.next (.order ptr)
        matchMakers taker s oppo fuel next { st with book := b.delete ptr }

/-- The outer loop of `match`: the opposite side's levels, best first. -/
def matchLevels (taker : Nat) (s : Slot) (priceIdx : Nat) : Nat → State → Option State
  | 0, _ => none
  | fuel + 1, st =>
    match st.book.bestLevels s.flip with
    | none => some st
    | some oppo => do
      let t ← st.book.orders taker
      if t.qtyRemaining = 0 then some st
      else if crossed s priceIdx oppo then
        let maker ← st.book.links.next (.head oppo)
        let st ← matchMakers taker s oppo (st.book.nextOrder + 2) maker st
        let b ← st.book.removeIfEmpty oppo s.flip.side
        matchLevels taker s priceIdx fuel { st with book := b }
      else some st

/-- `match`. -/
def matchTaker (st : State) (taker : Nat) (takerSide : Side) (priceIdx : Nat) : Option State := do
  let s ← takerSide.slot
  let st ← matchLevels taker s priceIdx (st.book.cfg.maxPriceLevels + 2) st
  let t ← st.book.orders taker
  if t.qtyRemaining = 0 then
    some { st with book := (st.book.eraseActive t.orderId).delete taker }
  else
    let b ← st.book.getOrCreatePriceLevel priceIdx takerSide
    let b ← b.insertOrderToLevel priceIdx taker
    some { st with book := b.setActive t.orderId taker }

/-- A `Rejected` record echoing the request. -/
def reject (st : State) (req : OrderRequest) (qRem : Nat) (code : RejectCode) : State :=
  st.sendResponse .rejected req.combinedId req.execId req.side req.p req.q qRem code

/-- `createOrder`. -/
def createOrder (req : OrderRequest) : Order where
  orderId := req.combinedId
  qtyOriginal := req.q
  qtyRemaining := req.q
  type := req.type
  priceLevel := none
  timestamp := req.timestamp
  symbolId := req.symbolId

/-- The index a new order is matched at. -/
def newIndex (c : Config) (req : OrderRequest) : Nat :=
  if req.type = .market then (if req.side = .buy then c.maxPriceLevels - 1 else 0)
  else c.priceToIndex req.p

def handleNewOrder (st : State) (req : OrderRequest) : Option State :=
  if (st.book.activeOrders req.combinedId).isSome then
    some (st.reject req 0 .duplicateOrderID)
  else if req.p ≤ 0 ∧ req.type = .limit then some (st.reject req 0 .priceInvalid)
  else if req.q = 0 ∨ globalMaxQty < req.q then some (st.reject req 0 .invalidQuantity)
  else
    let taker := st.book.nextOrder
    let st : State := { st with book := st.book.allocate (createOrder req) }
    let st := st.sendResponse .new req.combinedId req.execId req.side req.p req.q req.q .none
    st.matchTaker taker req.side (newIndex st.book.cfg req)

def handleCancelOrder (st : State) (req : OrderRequest) : Option State :=
  match st.book.activeOrders req.combinedId with
  | none => some (st.reject req 0 .orderNotFound)
  | some ptr => do
    let o ← st.book.orders ptr
    let b ← (st.book.eraseActive o.orderId).removeOrderFromLevel ptr
    let pl ← o.priceLevel
    let b ← (b.subtractQty pl o.qtyRemaining).removeIfEmpty pl req.side
    let st : State := { st with book := b }
    let st := st.sendResponse .cancelled o.orderId req.execId req.side (b.cfg.plToPrice pl)
      o.qtyOriginal 0 .none
    some { st with book := st.book.delete ptr }

/-- `handleModifyOrder` once the order is found and the request has passed its
checks: `target` is the level asked for and `newQty` the quantity. -/
def replaceOrder (st : State) (req : OrderRequest) (ptr : Nat) (o : Order) (pl target newQty : Nat) :
    Option State :=
  let executedQty := o.qtyOriginal - o.qtyRemaining
  let qtyDiff : Int := newQty - o.qtyOriginal
  let newQtyRemaining := newQty - executedQty
  let price := st.book.cfg.plToPrice target
  if newQty < executedQty then some (st.reject req o.qtyRemaining .invalidModify)
  else
    let st := st.sendResponse .replaced req.combinedId req.execId req.side price newQty
      newQtyRemaining .none
    if pl = target ∧ qtyDiff = 0 then some st
    else
      let needsRequeue := pl ≠ target ∨ 0 < qtyDiff
      if newQtyRemaining = 0 ∨ needsRequeue then do
        let b ← st.book.removeOrderFromLevel ptr
        let b ← (b.subtractQty pl o.qtyRemaining).removeIfEmpty pl req.side
        let st : State := { st with book := b }
        if newQtyRemaining = 0 then
          let st := st.sendResponse .fill req.combinedId req.execId req.side price 0 0 .none
          some { st with book := (st.book.eraseActive o.orderId).delete ptr }
        else
          let b := st.book.modifyOrder ptr fun o =>
            { o with qtyRemaining := newQtyRemaining, qtyOriginal := newQty }
          { st with book := b }.matchTaker ptr req.side target
      else
        let b := st.book.modifyLevel pl fun l => { l with totalQty := l.totalQty + qtyDiff }
        some { st with book := b.modifyOrder ptr fun o =>
                { o with qtyRemaining := newQtyRemaining, qtyOriginal := newQty } }

def handleModifyOrder (st : State) (req : OrderRequest) : Option State :=
  match st.book.activeOrders req.combinedId with
  | none => some (st.reject req 0 .orderNotFound)
  | some ptr => do
    let o ← st.book.orders ptr
    if globalMaxQty < req.q then some (st.reject req o.qtyRemaining .invalidQuantity)
    else if req.p ≠ 0 ∧ st.book.cfg.priceInvalid req.p ≠ 0 then
      some (st.reject req o.qtyRemaining .priceInvalid)
    else
      let pl ← o.priceLevel
      -- `&price_array_[..]` is not read through before `match` rests the order there
      let target := if req.p ≠ 0 then st.book.cfg.priceToIndex req.p else pl
      st.replaceOrder req ptr o pl target (if req.q ≠ 0 then req.q else o.qtyOriginal)

def processRequest (st : State) (req : OrderRequest) : Option State :=
  match req.action with
  | .cancel => st.handleCancelOrder req
  | .modify => st.handleModifyOrder req
  | .new =>
    if req.type ≠ .market ∧ st.book.cfg.priceInvalid req.p ≠ 0 then
      some (st.reject req 0 .priceInvalid)
    else st.handleNewOrder req
  | .other _ => some (st.reject req 0 .invalidAction)

/-- The request `restore_from_response` makes of a record, if it makes one. -/
def restoreRequest (resp : OrderResponse) : Option OrderRequest :=
  let req : OrderRequest :=
    { action := .new
      execId := resp.execId
      orderId := resp.orderId
      clientId := resp.clientId
      symbolId := resp.symbolId
      side := resp.side
      type := .limit
      p := resp.p
      q := resp.q
      timestamp := 0 }
  match resp.execType with
  | .new => some { req with type := if resp.p = 0 then .market else .limit }
  | .cancelled => some { req with action := .cancel }
  | .replaced => some { req with action := .modify }
  | _ => none

/-- `restore_from_response`. -/
def restoreFromResponse (st : State) (resp : OrderResponse) : Option State :=
  match restoreRequest resp with
  | none => some st
  | some req => do
    let st ← { st with book := { st.book with recoverMode := true } }.processRequest req
    some { st with book := { st.book with recoverMode := false } }

end State

end Exchange
