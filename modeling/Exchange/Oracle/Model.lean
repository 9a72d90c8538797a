import Mathlib.Data.List.AList
import Exchange.Types

/-!
# The reference matcher

`scripts/reference-matcher.py`, the oracle `test-correctness` generates its
expected files from. It keeps a dictionary of orders and, for each side, a
dictionary from prices to queues of order keys, and it looks for the best
price with `min`/`max` on every pass of its loop.

A Python dictionary is an `AList`: which key was inserted first is never seen,
since the script only looks keys up, takes the least or greatest of them, adds
over all values or sorts them. An order dictionary is shared between
`active_orders` and the code that changes it, so a change to a maker is a
write to its entry. A missing key is `none`, and so is a loop that outlives its
fuel. The rows of the CSV file are the requests. `positions`, which no record
and no line of the book depends on, is left out.
-/

namespace Exchange.Oracle

/-- `(client_id, order_id)`. -/
abbrev Key := UInt32 × UInt32

/-- The `exec_type` texts. `OTH` is only printed by `execution-stdout`. -/
inductive Tag
  | REJ
  | NEW
  | CAN
  | MOD
  | FIL
  | PAR
  | OTH
  deriving DecidableEq, Repr

/-- An entry of `responses`. -/
structure Response where
  execType : Tag
  orderId : UInt32
  clientId : UInt32
  side : Side
  p : Int
  q : Nat
  qRem : Nat
  deriving DecidableEq, Repr

/-- A value of `active_orders`. -/
structure Entry where
  orderId : UInt32
  clientId : UInt32
  side : Side
  price : Int
  qtyOriginal : Nat
  qtyRemaining : Nat
  deriving DecidableEq, Repr

/-- `(o['client_id'], o['order_id'])`. -/
def Entry.key (o : Entry) : Key := (o.clientId, o.orderId)

/-- The variables of `main`. -/
structure Matcher where
  activeOrders : AList (fun _ : Key => Entry)
  bids : AList (fun _ : Int => List Key)
  asks : AList (fun _ : Int => List Key)
  responses : List Response

namespace Matcher

/-- The matcher before the first row. -/
def init : Matcher := ⟨∅, ∅, ∅, []⟩

/-- `bids if buy else asks`. -/
def book (st : Matcher) (buy : Bool) : AList (fun _ : Int => List Key) :=
  if buy then st.bids else st.asks

/-- Writes `bids` or `asks`. -/
def setBook (st : Matcher) (buy : Bool) (b : AList (fun _ : Int => List Key)) : Matcher :=
  if buy then { st with bids := b } else { st with asks := b }

/-- `remove_order`. -/
def removeOrder (st : Matcher) (combined : Key) : Matcher :=
  match st.activeOrders.lookup combined with
  | none => st
  | some o =>
    let buy := decide (o.side = .buy)
    let st := match (st.book buy).lookup o.price with
      | none => st
      | some ids =>
        let ids := ids.erase combined
        st.setBook buy (if ids = [] then (st.book buy).erase o.price
          else (st.book buy).insert o.price ids)
    { st with activeOrders := st.activeOrders.erase combined }

/-- `add_order`. -/
def addOrder (st : Matcher) (o : Entry) : Matcher :=
  let buy := decide (o.side = .buy)
  let st := { st with activeOrders := st.activeOrders.insert o.key o }
  st.setBook buy ((st.book buy).insert o.price (((st.book buy).lookup o.price).getD [] ++ [o.key]))

/-- `send_resp`. -/
def sendResp (st : Matcher) (execType : Tag) (orderId clientId : UInt32) (side : Side) (p : Int)
    (q qRem : Nat) : Matcher :=
  { st with responses := st.responses ++ [⟨execType, orderId, clientId, side, p, q, qRem⟩] }

/-- `'FIL' if qty_remaining == 0 else 'PAR'`. -/
def fillTag (qRem : Nat) : Tag := if qRem = 0 then .FIL else .PAR

/-- `min(book.keys()) if is_buy else max(book.keys())`. -/
def bestPrice (isBuy : Bool) (book : AList (fun _ : Int => List Key)) : Option Int :=
  if isBuy then book.keys.min? else book.keys.max?

/-- The loop of `match`. -/
def matchLoop : Nat → Matcher → Entry → Option (Matcher × Entry)
  | 0, _, _ => none
  | fuel + 1, st, taker =>
    if taker.qtyRemaining = 0 then some (st, taker)
    else
      let isBuy := decide (taker.side = .buy)
      match bestPrice isBuy (st.book (!isBuy)) with
      | none => some (st, taker)
      | some bestP =>
        if isBuy ∧ taker.price < bestP then some (st, taker)
        else if ¬ isBuy ∧ bestP < taker.price then some (st, taker)
        else do
          let makerIds ← (st.book (!isBuy)).lookup bestP
          match makerIds with
          | [] => matchLoop fuel (st.setBook (!isBuy) ((st.book (!isBuy)).erase bestP)) taker
          | combined :: _ =>
            let maker ← st.activeOrders.lookup combined
            let fillQty := min taker.qtyRemaining maker.qtyRemaining
            let taker := { taker with qtyRemaining := taker.qtyRemaining - fillQty }
            let maker := { maker with qtyRemaining := maker.qtyRemaining - fillQty }
            let st := { st with activeOrders := st.activeOrders.insert combined maker }
            let st := st.sendResp (fillTag taker.qtyRemaining) taker.orderId taker.clientId
              taker.side bestP fillQty taker.qtyRemaining
            let st := st.sendResp (fillTag maker.qtyRemaining) maker.orderId maker.clientId
              maker.side bestP fillQty maker.qtyRemaining
            let st := if maker.qtyRemaining = 0 then st.removeOrder maker.key else st
            matchLoop fuel st taker

/-- `match`, and `add_order` of what is left of the taker. Every pass of the loop
but the last removes an order or a price. -/
def matchAndAdd (st : Matcher) (taker : Entry) : Option Matcher := do
  let (st, taker) ← matchLoop
    (st.activeOrders.keys.length + st.bids.keys.length + st.asks.keys.length + 2) st taker
  if 0 < taker.qtyRemaining then some (st.addOrder taker) else some st

/-- `MAX_QTY`. -/
def maxQty : Nat := 1000000000

/-- The record of a rejected row. -/
def reject (st : Matcher) (req : OrderRequest) (qRem : Nat) : Matcher :=
  st.sendResp .REJ req.orderId req.clientId req.side req.p req.q qRem

/-- `action == 'New'`. -/
def new (st : Matcher) (req : OrderRequest) : Option Matcher :=
  let combined := (req.clientId, req.orderId)
  if maxQty < req.q then some (st.reject req 0)
  else if req.p ≤ 0 then some (st.reject req 0)
  else if combined ∈ st.activeOrders then some (st.reject req 0)
  else
    let st := st.sendResp .NEW req.orderId req.clientId req.side req.p req.q req.q
    st.matchAndAdd
      { orderId := req.orderId
        clientId := req.clientId
        side := req.side
        price := req.p
        qtyOriginal := req.q
        qtyRemaining := req.q }

/-- `action == 'Cancel'`. -/
def cancel (st : Matcher) (req : OrderRequest) : Option Matcher :=
  let combined := (req.clientId, req.orderId)
  match st.activeOrders.lookup combined with
  | none => some (st.reject req 0)
  | some o =>
    let st := st.sendResp .CAN o.orderId o.clientId req.side o.price o.qtyOriginal 0
    some (st.removeOrder combined)

/-- `action == 'Modify'`, once the order is found. -/
def replace (st : Matcher) (req : OrderRequest) (o : Entry) : Option Matcher :=
  let combined := (req.clientId, req.orderId)
  if req.p ≠ 0 ∧ req.p % 25 ≠ 0 then some (st.reject req o.qtyRemaining)
  else
    let oldP := o.price
    let targetP := if req.p ≠ 0 then req.p else oldP
    let newQty := if req.q ≠ 0 then req.q else o.qtyOriginal
    let executedQty := o.qtyOriginal - o.qtyRemaining
    if newQty < executedQty then some (st.reject req o.qtyRemaining)
    else
      let qtyDiff : Int := newQty - o.qtyOriginal
      let resized := { o with qtyRemaining := newQty - executedQty, qtyOriginal := newQty }
      let acked := fun st : Matcher => st.sendResp .MOD req.orderId req.clientId req.side targetP
        newQty (newQty - executedQty)
      if oldP = targetP ∧ qtyDiff = 0 then some (acked st)
      else if oldP = targetP ∧ ¬ 0 < qtyDiff then
        let st := acked { st with activeOrders := st.activeOrders.insert combined resized }
        if resized.qtyRemaining = 0 then
          some ((st.sendResp .FIL req.orderId req.clientId req.side targetP 0 0).removeOrder combined)
        else some st
      else ((acked st).removeOrder combined).matchAndAdd { resized with price := targetP }

/-- `action == 'Modify'`. -/
def modify (st : Matcher) (req : OrderRequest) : Option Matcher :=
  let combined := (req.clientId, req.orderId)
  if maxQty < req.q then
    some (st.reject req (((st.activeOrders.lookup combined).map (·.qtyRemaining)).getD 0))
  else
    match st.activeOrders.lookup combined with
    | none => some (st.reject req 0)
    | some o => st.replace req o

/-- One row. -/
def step (st : Matcher) (req : OrderRequest) : Option Matcher :=
  match req.action with
  | .new => st.new req
  | .cancel => st.cancel req
  | .modify => st.modify req
  | .other _ => some (st.reject req 0)

/-- All rows. -/
def run (reqs : List OrderRequest) : Option Matcher := reqs.foldlM step init

/-- `l2_bids` or `l2_asks`: the remaining quantity at each price of a side. -/
def l2 (st : Matcher) (buy : Bool) : AList (fun _ : Int => Nat) :=
  st.activeOrders.entries.foldl (fun acc e =>
    if e.2.qtyRemaining = 0 ∨ decide (e.2.side = .buy) ≠ buy then acc
    else acc.insert e.2.price ((acc.lookup e.2.price).getD 0 + e.2.qtyRemaining)) ∅

/-- `sorted(l2.items(), key=lambda x: x[0], reverse=True)`. -/
def sortedL2 (st : Matcher) (buy : Bool) : List (Int × Nat) :=
  ((st.l2 buy).entries.map fun e => (e.1, e.2)).mergeSort fun x y => y.1 ≤ x.1

/-- The lines of `book-core.csv`: asks, then bids, highest price first. -/
def bookLines (st : Matcher) : List (Side × Int × Nat) :=
  (st.sortedL2 false).map (fun l => (.sell, l.1, l.2)) ++
    (st.sortedL2 true).map (fun l => (.buy, l.1, l.2))

end Matcher

end Exchange.Oracle
