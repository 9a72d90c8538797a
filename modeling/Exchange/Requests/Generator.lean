import Exchange.Book.Grids
import Exchange.Requests.File

/-!
# `CSVDataGen`

`src/csv_util.cpp`: the program that writes a file of random requests. It keeps a book of its own, gives it
every request it writes, and looks into it for what to write next: an order to cancel or to modify, and the
best price for an order that is filled at once.

Random numbers. What `randomInt` draws next is `rng 0`, cut to the range asked for, so that a property of
every `rng` is one of everything that can be drawn. `active_orders_` is an `unordered_map`; the order it is
walked in is an argument (`Iteration`), another one for every row.

The book. Its constructor takes the symbol first, which the call leaves out, so every argument is one place
off (`bookConfig`): the step is 2000 and the offset 8192. It has no response ring, and sends nothing.
-/

namespace Exchange

open Lib

/-- `Target`. -/
structure Target where
  orderId : Nat
  clientId : UInt32
  side : Side
  price : Int
  quantity : Nat
  deriving DecidableEq, Repr

/-- The order in which `active_orders_` is walked when so many rows have been written. -/
structure Iteration where
  walk : Nat → List Nat → List Nat
  perm : ∀ rows ptrs, (walk rows ptrs).Perm ptrs

/-- The heap orders `active_orders_` points to. -/
def OrderBook.activePtrs (b : OrderBook) : List Nat :=
  (List.range b.nextOrder).filter fun ptr => (b.orders ptr).any fun o => b.activeOrders o.orderId = some ptr

/-- `class CSVDataGen`: with its book, the random numbers to come, and the lines written. -/
structure CSVDataGen where
  targetRows : Nat
  state : State
  rng : Nat → Nat
  iteration : Iteration
  reqId : Nat
  nextOrderId : Nat
  timestamp : Nat
  rowsWritten : Nat
  filledOrders : List Target
  rows : List (List (List Char))

namespace CSVDataGen

/-! ## Constants -/

def initialPriceLevels : Nat := 8
def initialOrdersPerLevel : Nat := 4
def minPriceStep : Int := 10000
def priceIndexOffset : Int := 2000
def maxPriceLevels : Nat := 8192
def basePrice : Int := 50000000
def symbolId : UInt32 := 1
def baseTimestamp : Nat := 1747238400000000000

/-- `book_(MIN_PRICE_STEP, PRICE_INDEX_OFFSET, MAX_PRICE_LEVELS)`, where the constructor takes a symbol, the
step, the offset and, unless told, 65536 levels. -/
def bookConfig : Config where
  symbolId := UInt32.ofNat minPriceStep.toNat
  minStep := priceIndexOffset
  priceIndexOffset := maxPriceLevels
  maxPriceLevels := 65536
  minStep_pos := by decide
  levels_pos := by decide
  levels_lt := by decide

/-- The generator its constructor builds. -/
def create (targetRows : Nat) (gen rng : Nat → Nat) (iteration : Iteration) : CSVDataGen where
  targetRows := targetRows
  state := ⟨{ OrderBook.fresh bookConfig with recoverMode := true }, gen, []⟩
  rng := rng
  iteration := iteration
  reqId := 1
  nextOrderId := 1
  timestamp := baseTimestamp
  rowsWritten := 0
  filledOrders := []
  rows := []

/-- `book`. -/
def book (g : CSVDataGen) : OrderBook := g.state.book

/-- The file that is written. -/
def file (g : CSVDataGen) : List Char := writeCSV (requestHeader :: g.rows)

/-! ## Random choices -/

def randomInt (g : CSVDataGen) (low high : Nat) : Nat × CSVDataGen :=
  (low + g.rng 0 % (high + 1 - low), { g with rng := fun k => g.rng (k + 1) })

/-- `randomSide`; its two sides are those that are subscripts. -/
def randomSide (g : CSVDataGen) : Slot × CSVDataGen :=
  let (n, g) := g.randomInt 0 1
  (if n = 0 then .bid else .ask, g)

def randomClient (g : CSVDataGen) : UInt32 × CSVDataGen :=
  let (n, g) := g.randomInt 1001 9999
  (UInt32.ofNat n, g)

def randomQuantity (g : CSVDataGen) : Nat × CSVDataGen := g.randomInt 100 5000

/-- The price so many steps from the base. -/
def priceAt (s : Slot) (level : Nat) : Int :=
  match s with
  | .bid => basePrice - level * minPriceStep
  | .ask => basePrice + level * minPriceStep

def passivePrice (g : CSVDataGen) (s : Slot) : Int × CSVDataGen :=
  let (level, g) := g.randomInt 1 initialPriceLevels
  (priceAt s level, g)

/-- `sideForLevel`. -/
def sideForLevel (g : CSVDataGen) (pl : Nat) : Slot := if pl ∈ g.book.activeLevels .bid then .bid else .ask

/-- What a `Target` says of an order. -/
def targetOf (g : CSVDataGen) (ptr : Nat) : Option Target := do
  let o ← g.book.orders ptr
  let pl ← o.priceLevel
  some
    { orderId := (orderIdOf o.orderId).toNat
      clientId := clientIdOf o.orderId
      side := (g.sideForLevel pl).side
      price := g.book.cfg.plToPrice pl
      quantity := o.qtyRemaining }

/-- The orders of the book, in the order they are met. -/
def activeOrders (g : CSVDataGen) : List Nat := g.iteration.walk g.rowsWritten g.book.activePtrs

def randomActiveOrder (g : CSVDataGen) : Option (Target × CSVDataGen) := do
  let (offset, g) := g.randomInt 0 (g.activeOrders.length - 1)
  let ptr ← g.activeOrders[offset]?
  let target ← g.targetOf ptr
  some (target, g)

def randomFilledOrder (g : CSVDataGen) : Option (Target × CSVDataGen) := do
  let (offset, g) := g.randomInt 0 (g.filledOrders.length - 1)
  let target ← g.filledOrders[offset]?
  some (target, g)

/-- `shouldUseFilledOrder`: nothing is drawn while none is known. -/
def shouldUseFilledOrder (g : CSVDataGen) : Bool × CSVDataGen :=
  if g.filledOrders = [] then (false, g)
  else
    let (n, g) := g.randomInt 1 100
    (decide (n > 95), g)

/-- The order to cancel or to modify. -/
def randomTarget (g : CSVDataGen) : Option (Target × CSVDataGen) :=
  let (useFilledOrder, g) := g.shouldUseFilledOrder
  if useFilledOrder then g.randomFilledOrder else g.randomActiveOrder

/-! ## Rows -/

/-- `writeRow`. -/
def writeRow (g : CSVDataGen) (orderId : Nat) (clientId : UInt32) (action : OrderAction) (side : Side)
    (price : Int) (quantity : Nat) : CSVDataGen :=
  { g with
    rows := g.rows ++ [requestRow g.reqId orderId clientId.toNat (actionText action) (sideText side) price
      quantity g.timestamp symbolId.toNat]
    reqId := (g.reqId + 1) % 2 ^ 64
    timestamp := (g.timestamp + 1) % 2 ^ 64
    rowsWritten := g.rowsWritten + 1 }

/-- `processRequest`: the book is given the row that was written last. -/
def processRequest (g : CSVDataGen) (action : OrderAction) (orderId : Nat) (clientId : UInt32) (side : Side)
    (price : Int) (quantity : Nat) : Option CSVDataGen := do
  let st ← g.state.processRequest
    { action := action
      execId := (g.reqId + 2 ^ 64 - 1) % 2 ^ 64
      orderId := UInt32.ofNat orderId
      clientId := clientId
      symbolId := symbolId
      side := side
      type := .limit
      p := price
      q := quantity
      visibleQty := 0
      timestamp := (g.timestamp + 2 ^ 64 - 1) % 2 ^ 64 }
  some { g with state := st }

/-- A row, and what the book makes of it. -/
def request (g : CSVDataGen) (orderId : Nat) (clientId : UInt32) (action : OrderAction) (side : Side)
    (price : Int) (quantity : Nat) : Option CSVDataGen :=
  (g.writeRow orderId clientId action side price quantity).processRequest action orderId clientId side price quantity

/-- `next_order_id_++`. -/
def takeOrderId (g : CSVDataGen) : Nat × CSVDataGen := (g.nextOrderId, { g with nextOrderId := g.nextOrderId + 1 })

def writeNewPassive (g : CSVDataGen) (s : Slot) (price : Int) : Option CSVDataGen :=
  let (orderId, g) := g.takeOrderId
  let (clientId, g) := g.randomClient
  let (quantity, g) := g.randomQuantity
  g.request orderId clientId .new s.side price quantity

/-- A new order at a passive price of a side. -/
def writeRandomPassive (g : CSVDataGen) : Option CSVDataGen :=
  let (s, g) := g.randomSide
  let (price, g) := g.passivePrice s
  g.writeNewPassive s price

def hasActiveOrder (g : CSVDataGen) (orderId : Nat) : Bool := (g.book.activeOrders orderId).isSome

/-- `activeOrderTargets`, in the order the copy is walked. -/
def activeOrderTargets (g : CSVDataGen) : Option (List (Nat × Target)) :=
  g.activeOrders.mapM fun ptr => do
    let o ← g.book.orders ptr
    let target ← g.targetOf ptr
    some (o.orderId, target)

def recordFilledOrders (g : CSVDataGen) (before : List (Nat × Target)) : CSVDataGen :=
  { g with
    filledOrders := g.filledOrders ++ (before.filter fun x => ! g.hasActiveOrder x.1).map Prod.snd }

/-- The taker's side: where both sides hold orders either, else the one that finds some. -/
def crossingSide (g : CSVDataGen) : Slot × CSVDataGen :=
  if (g.book.bestLevels .ask).isSome ∧ (g.book.bestLevels .bid).isSome then g.randomSide
  else (if (g.book.bestLevels .ask).isSome then .bid else .ask, g)

/-- The last lines of `writeCrossingFill`. The id asked for is not the one orders are kept under. -/
def recordTaker (g : CSVDataGen) (target : Target) : CSVDataGen :=
  if g.hasActiveOrder target.orderId then g else { g with filledOrders := g.filledOrders ++ [target] }

/-- The order `writeCrossingFill` writes when there is a best level to meet. -/
def writeFillAt (g : CSVDataGen) (s : Slot) (bestOpposite totalQty : Nat) : Option CSVDataGen := do
  let (orderId, g) := g.takeOrderId
  let (clientId, g) := g.randomClient
  let price := g.book.cfg.plToPrice bestOpposite
  let (quantity, g) := g.randomInt 1 (min totalQty 500)
  let before ← g.activeOrderTargets
  let g ← g.request orderId clientId .new s.side price quantity
  some ((g.recordFilledOrders before).recordTaker ⟨orderId, clientId, s.side, price, quantity⟩)

def writeCrossingFill (g : CSVDataGen) : Option CSVDataGen :=
  let (s, g) := g.crossingSide
  match g.book.bestLevels s.flip with
  | none => g.writeRandomPassive
  | some bestOpposite =>
    let totalQty := (g.book.priceArray bestOpposite).totalQty.toNat
    if totalQty = 0 then g.writeRandomPassive else g.writeFillAt s bestOpposite totalQty

def writeCancel (g : CSVDataGen) : Option CSVDataGen := do
  let (target, g) ← g.randomTarget
  g.request target.orderId target.clientId .cancel target.side 0 0

/-- `passivePrice` of a target's side. -/
def passivePriceFor (g : CSVDataGen) (side : Side) : Int × CSVDataGen :=
  g.passivePrice (if side = .buy then .bid else .ask)

def writeModify (g : CSVDataGen) : Option CSVDataGen := do
  let (target, g) ← g.randomTarget
  let (newPrice, g) := g.passivePriceFor target.side
  let (newQuantity, g) := g.randomQuantity
  g.request target.orderId target.clientId .modify target.side newPrice newQuantity

/-- `canWriteFill`. -/
def canWriteFill (g : CSVDataGen) : Bool := (g.book.bestLevels .bid).isSome || (g.book.bestLevels .ask).isSome

def writeRandomRequest (g : CSVDataGen) : Option CSVDataGen :=
  if g.book.activePtrs = [] then g.writeRandomPassive
  else
    let (roll, g) := g.randomInt 1 100
    if roll ≤ 12 ∧ g.canWriteFill then g.writeCrossingFill
    else if roll ≤ 42 then g.writeModify
    else if roll ≤ 67 then g.writeCancel
    else g.writeRandomPassive

/-! ## The whole file -/

/-- The orders of `writeInitialBook`: bids from the lowest level up, then offers. -/
def initialOrders : List (Slot × Int) :=
  (List.range initialPriceLevels).reverse.flatMap
      (fun k => List.replicate initialOrdersPerLevel (.bid, priceAt .bid (k + 1))) ++
    (List.range initialPriceLevels).flatMap
      fun k => List.replicate initialOrdersPerLevel (.ask, priceAt .ask (k + 1))

/-- `writeInitialBook`, which stops where the file is long enough. -/
def writeInitialBook (g : CSVDataGen) : Option CSVDataGen :=
  initialOrders.foldlM
    (fun g x => if g.rowsWritten < g.targetRows then g.writeNewPassive x.1 x.2 else some g) g

/-- The loop of `run`. -/
def writeRequests : Nat → CSVDataGen → Option CSVDataGen
  | 0, _ => none
  | fuel + 1, g =>
    if g.rowsWritten < g.targetRows then g.writeRandomRequest.bind (writeRequests fuel) else some g

/-- `run`. Every round writes a row, so that no more rounds are needed than rows. -/
def run (g : CSVDataGen) : Option CSVDataGen := g.writeInitialBook.bind (writeRequests (g.targetRows + 1))

end CSVDataGen

end Exchange
