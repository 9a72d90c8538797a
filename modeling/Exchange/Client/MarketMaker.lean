import Exchange.Client.OrderEntry

/-!
# `MarketMakerNative`

The market maker of `app/client-agents/mm-native.cpp`: an `OrderEntryClient` that on every tick of its
timer moves its orders to ten levels on each side of a price it has from elsewhere, or trifles with them.

`manage_orders` calls the client and reads nothing back, so what it does is the list of its calls, and
`perform` makes them. `est_ticks`, the price rounded to a multiple of the step, comes with the tick: it is
computed in floating point, from a price that `on_timer` has put between the lowest and the highest. So do
the open orders, and what `std::sort` makes of them, which leaves the order of equal prices open. The
generator is the stream of what it draws. Prices and quantities are taken not to leave 64 bits; the HTTP
request and the log lines are left out.
-/

namespace Exchange

open Gateway OrderEntryClient

/-- `class MarketMakerNative`, with the client that it is. -/
structure MarketMakerNative where
  client : OrderEntryClient
  targetSymbol : UInt32
  lastEstTicks : Int
  gen : Nat → Nat

/-- `std::uniform_int_distribution(lo, hi)(gen_)`. -/
def uniform (gen : Nat → Nat) (lo hi : Int) : Int × (Nat → Nat) :=
  (lo + (gen 0 : Int) % (hi - lo + 1), fun k => gen (k + 1))

namespace MarketMakerNative

/-- `target_levels`. -/
def targetLevels : Nat := 10

/-- The constructor. -/
def create (client : OrderEntryClient) (targetSymbol : UInt32) (gen : Nat → Nat) : MarketMakerNative where
  client := client
  targetSymbol := targetSymbol
  lastEstTicks := 0
  gen := gen

/-- `bids`: the open orders to buy, best price first. -/
def IsBids (openOrders bids : List OrderResponse) : Prop :=
  bids.Perm (openOrders.filter (·.side = .buy)) ∧ bids.Pairwise fun a b => b.p ≤ a.p

/-- `asks`: all the others, best price first. -/
def IsAsks (openOrders asks : List OrderResponse) : Prop :=
  asks.Perm (openOrders.filter (·.side ≠ .buy)) ∧ asks.Pairwise fun a b => a.p ≤ b.p

/-- `symbols_info_.find(target_symbol_)`. -/
def info (mm : MarketMakerNative) : Option SymbolInfo := mm.client.symbolsInfo mm.targetSymbol

def step (mm : MarketMakerNative) : Int :=
  match mm.info with
  | some info => info.priceMinStep
  | none => 1

/-- `target_p`, from what it is before it is kept between the lowest and the highest price. -/
def targetP (mm : MarketMakerNative) (p : Int) : Int :=
  match mm.info with
  | some info => max info.priceMin (min info.priceMax p)
  | none => p

/-- What the loops do with the `i`-th open order. -/
def adjust (target : Nat → Int) (i : Nat) (o : OrderResponse) : List Call :=
  if i < targetLevels then
    if o.p ≠ target i then [.replaceOrder o.orderId (target i) o.q o.symbolId o.side] else []
  else [.cancelOrder o.orderId o.symbolId o.side]

/-- The loop of `handle_bids` and `handle_asks`, with how often it is still to run. -/
def handleOrders (targetSymbol : UInt32) (side : Side) (target : Nat → Int) :
    Nat → Nat → List OrderResponse → (Nat → Nat) → List Call × (Nat → Nat)
  | 0, _, _, gen => ([], gen)
  | n + 1, i, [], gen =>
    let q := uniform gen 10 50
    let rest := handleOrders targetSymbol side target n (i + 1) [] q.2
    (.newLimitOrder targetSymbol side (target i) q.1.toNat 0 :: rest.1, rest.2)
  | n + 1, i, o :: orders, gen =>
    let rest := handleOrders targetSymbol side target n (i + 1) orders gen
    (adjust target i o ++ rest.1, rest.2)

/-- `handle_bids`. -/
def handleBids (mm : MarketMakerNative) (estTicks : Int) (bids : List OrderResponse) (gen : Nat → Nat) :
    List Call × (Nat → Nat) :=
  handleOrders mm.targetSymbol .buy (fun i => mm.targetP (estTicks - (i + 1) * mm.step))
    (max bids.length targetLevels) 0 bids gen

/-- `handle_asks`. -/
def handleAsks (mm : MarketMakerNative) (estTicks : Int) (asks : List OrderResponse) (gen : Nat → Nat) :
    List Call × (Nat → Nat) :=
  handleOrders mm.targetSymbol .sell (fun i => mm.targetP (estTicks + (i + 1) * mm.step))
    (max asks.length targetLevels) 0 asks gen

/-- The side that the price has left goes first. -/
def refresh (mm : MarketMakerNative) (bids asks : List OrderResponse) (estTicks : Int) :
    MarketMakerNative × List Call :=
  let priceWentUp := mm.lastEstTicks < estTicks
  let mm := { mm with lastEstTicks := estTicks }
  if priceWentUp then
    let first := mm.handleAsks estTicks asks mm.gen
    let second := mm.handleBids estTicks bids first.2
    ({ mm with gen := second.2 }, first.1 ++ second.1)
  else
    let first := mm.handleBids estTicks bids mm.gen
    let second := mm.handleAsks estTicks asks first.2
    ({ mm with gen := second.2 }, first.1 ++ second.1)

/-- The best order of each side goes behind all others, if there is one on each. -/
def jumpBook (mm : MarketMakerNative) : List OrderResponse → List OrderResponse → Option (List Call)
  | bid :: _, ask :: _ =>
    let bidOut := mm.lastEstTicks - (targetLevels + 5 : Nat) * mm.step
    let askOut := mm.lastEstTicks + (targetLevels + 5 : Nat) * mm.step
    let bidOut := match mm.info with | some info => max info.priceMin bidOut | none => bidOut
    let askOut := match mm.info with | some info => min info.priceMax askOut | none => askOut
    some [.replaceOrder bid.orderId bidOut bid.q bid.symbolId bid.side,
      .replaceOrder ask.orderId askOut ask.q ask.symbolId ask.side]
  | _, _ => none

/-- The quantities of some orders change, each by up to five and to between 5 and 50. -/
def jitter (openOrders : List OrderResponse) : Nat → (Nat → Nat) → List Call × (Nat → Nat)
  | 0, gen => ([], gen)
  | mods + 1, gen =>
    let idx := uniform gen 0 (openOrders.length - 1)
    let qtyChange := uniform idx.2 (-5) 5
    let rest := jitter openOrders mods qtyChange.2
    let calls := openOrders[idx.1.toNat]?.toList.flatMap fun o =>
      let newQ := min 50 (max 5 ((o.q : Int) + qtyChange.1))
      if newQ ≠ o.q then [Call.replaceOrder o.orderId o.p newQ.toNat o.symbolId o.side] else []
    (calls ++ rest.1, rest.2)

/-- `manage_orders`. -/
def manageOrders (mm : MarketMakerNative) (openOrders bids asks : List OrderResponse) (estTicks : Int)
    (isFetchTick : Bool) : MarketMakerNative × List Call :=
  if isFetchTick ∨ bids.length < targetLevels ∨ asks.length < targetLevels then mm.refresh bids asks estTicks
  else if openOrders = [] then (mm, [])
  else
    let jump := uniform mm.gen 1 10
    match if jump.1 = 1 then mm.jumpBook bids asks else none with
    | some calls => ({ mm with gen := jump.2 }, calls)
    | none =>
      let mods := uniform jump.2 1 3
      let jittered := jitter openOrders mods.1.toNat mods.2
      ({ mm with gen := jittered.2 }, jittered.1)

end MarketMakerNative

namespace OrderEntryClient

/-- One call after the other, until one throws; each reads the clock. -/
def perform (c : OrderEntryClient) (clock : Nat → Nat) : List Call → Outcome
  | [] => .ok (c, [])
  | call :: calls => do
    let first ← c.invoke (clock 0) call
    let rest ← first.1.perform (fun k => clock (k + 1)) calls
    pure (rest.1, first.2 ++ rest.2)

end OrderEntryClient

end Exchange
