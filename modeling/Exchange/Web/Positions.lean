import Mathlib.Data.List.AList
import Mathlib.Tactic.Linarith
import Mathlib.Tactic.Ring
import Exchange.Types

/-!
# Positions in the web client

`handleOrderResponse` of `web/src/hooks/useExchange.ts`: the open orders and the positions. A
position is a side and the lots it was opened with, the oldest first. A fill of the same side adds a
lot; one of the other side closes lots from the front, each at its own price, and what is left of it
opens a position of its own side.

A lot that is closed moves what it was worth from the lots to `realizedPnL` (`Closes`), so that the two
together are what the fills have brought in (`Booked`).

A `bigint` is an `Int`, `Date.now()` comes with each response. The log, the notifications and the cash,
which is a double, are left out.
-/

namespace Exchange.Web

/-- `interface PositionLot`. -/
structure PositionLot where
  price : Int
  quantity : Int
  timestamp : Nat
  orderId : UInt32
  deriving DecidableEq, Repr

/-- `interface SymbolPosition`. -/
structure SymbolPosition where
  symbolId : UInt32
  side : Side
  lots : List PositionLot
  totalQuantity : Int
  averagePrice : Int
  realizedPnL : Int
  deriving DecidableEq, Repr

/-- `interface OrderData`. -/
structure OrderData where
  orderId : UInt32
  symbolId : UInt32
  side : Side
  p : Int
  q : Int
  filled : Int
  deriving DecidableEq, Repr

namespace SymbolPosition

/-- No position. -/
def flat (symbolId : UInt32) : SymbolPosition := ⟨symbolId, .none, [], 0, 0, 0⟩

/-- The profit of closing a part of a lot. -/
def pnl (side : Side) (fillPrice lotPrice closedQty : Int) : Int :=
  if side = .buy then (fillPrice - lotPrice) * closedQty else (lotPrice - fillPrice) * closedQty

/-- The loop that closes lots, `fuel` tests of its condition at most: the position, and
`remainingFillQty`. -/
def closeLots (fillPrice : Int) : Nat → SymbolPosition → Int → Option (SymbolPosition × Int)
  | 0, _, _ => none
  | fuel + 1, pos, remaining =>
    match pos.lots with
    | [] => some (pos, remaining)
    | oldest :: rest =>
      if 0 < remaining then
        if oldest.quantity ≤ remaining then
          let closedQty := oldest.quantity
          closeLots fillPrice fuel
            { pos with
              realizedPnL := pos.realizedPnL + pnl pos.side fillPrice oldest.price closedQty
              totalQuantity := pos.totalQuantity - closedQty
              lots := rest }
            (remaining - closedQty)
        else
          let closedQty := remaining
          closeLots fillPrice fuel
            { pos with
              realizedPnL := pos.realizedPnL + pnl pos.side fillPrice oldest.price closedQty
              totalQuantity := pos.totalQuantity - closedQty
              lots := { oldest with quantity := oldest.quantity - closedQty } :: rest }
            0
      else some (pos, remaining)

/-- `lots.reduce((acc, lot) => acc + lot.price * lot.quantity, 0n)`. -/
def totalCost (lots : List PositionLot) : Int := lots.foldl (fun acc lot => acc + lot.price * lot.quantity) 0

/-- Updates the average price. -/
def average (pos : SymbolPosition) : SymbolPosition :=
  { pos with averagePrice :=
      if 0 < pos.totalQuantity then (totalCost pos.lots).tdiv pos.totalQuantity else 0 }

/-- The end of a fill of the other side. -/
def reopen (pos : SymbolPosition) (side : Side) (remaining : Int) (lot : PositionLot) : SymbolPosition :=
  if 0 < remaining then { pos with side := side, lots := pos.lots ++ [lot], totalQuantity := remaining }
  else if pos.lots = [] then { pos with side := .none, totalQuantity := 0 }
  else pos

/-- The updater of `setPositions`, for the position of the symbol; each round of its loop takes a lot
off, but for the last. -/
def fill (pos : SymbolPosition) (now : Nat) (orderId : UInt32) (side : Side) (fillPrice fillQty : Int) :
    Option SymbolPosition :=
  if pos.side = .none ∨ pos.side = side then
    let lot : PositionLot := ⟨fillPrice, fillQty, now, orderId⟩
    some (average { pos with
      side := side, lots := pos.lots ++ [lot], totalQuantity := pos.totalQuantity + fillQty })
  else do
    let (pos, remaining) ← pos.closeLots fillPrice (pos.lots.length + 2) fillQty
    some (pos.reopen side remaining ⟨fillPrice, remaining, now, orderId⟩).average

end SymbolPosition

/-- The state of the hook that `handleOrderResponse` sets: `openOrders` and `positions`. -/
structure ExchangeState where
  openOrders : AList (fun _ : UInt32 => OrderData)
  positions : AList (fun _ : UInt32 => SymbolPosition)

namespace ExchangeState

def empty : ExchangeState := ⟨∅, ∅⟩

/-- `pNext.get(sId)`, or the position it starts with. -/
def position (st : ExchangeState) (symbolId : UInt32) : SymbolPosition :=
  (st.positions.lookup symbolId).getD (.flat symbolId)

/-- What a trade does to the open orders. -/
def traded (st : ExchangeState) (resp : OrderResponse) : ExchangeState :=
  let order : OrderData :=
    match st.openOrders.lookup resp.orderId with
    | some existing => { existing with filled := existing.filled + resp.q }
    | none => ⟨resp.orderId, resp.symbolId, resp.side, resp.p, 0, resp.q⟩
  if resp.execType = .fill then { st with openOrders := st.openOrders.erase resp.orderId }
  else { st with openOrders := st.openOrders.insert resp.orderId order }

/-- `handleOrderResponse`; none if the loop does not end. -/
def handleOrderResponse (st : ExchangeState) (now : Nat) (resp : OrderResponse) : Option ExchangeState :=
  if resp.execType = .complete then some st
  else if resp.rejectCode ≠ .none then some st
  else
    match resp.execType with
    | .new | .orderStatus =>
      match st.openOrders.lookup resp.orderId with
      | some _ => some st
      | none => some { st with
          openOrders := st.openOrders.insert resp.orderId
            ⟨resp.orderId, resp.symbolId, resp.side, resp.p, resp.q, 0⟩ }
    | .replaced =>
      let filled := ((st.openOrders.lookup resp.orderId).map OrderData.filled).getD 0
      some { st with
        openOrders := st.openOrders.insert resp.orderId
          ⟨resp.orderId, resp.symbolId, resp.side, resp.p, resp.q, filled⟩ }
    | .partialFill | .fill =>
      let st := st.traded resp
      if resp.side = .none then some st
      else do
        let pos ← (st.position resp.symbolId).fill now resp.orderId resp.side resp.p resp.q
        some { st with positions := st.positions.insert resp.symbolId pos }
    | .cancelled => some { st with openOrders := st.openOrders.erase resp.orderId }
    | .rejected | .complete => some st

/-- Responses in the order they come, each with its time. -/
def handleAll (st : ExchangeState) (rs : List (Nat × OrderResponse)) : Option ExchangeState :=
  rs.foldlM (fun st r => st.handleOrderResponse r.1 r.2) st

end ExchangeState

/-! ## What the fills have brought in -/

/-- `+` for what is bought, `-` for what is sold. -/
def sign : Side → Int
  | .buy => 1
  | .sell => -1
  | _ => 0

/-- The quantities of lots. -/
def quantities (lots : List PositionLot) : Int := (lots.map PositionLot.quantity).sum

/-- What lots have cost. -/
def costs (lots : List PositionLot) : Int := (lots.map fun lot => lot.price * lot.quantity).sum

/-- The trades of a symbol. -/
def fillsOf (symbolId : UInt32) (rs : List OrderResponse) : List OrderResponse :=
  rs.filter fun r => r.symbolId = symbolId ∧ r.rejectCode = .none ∧ r.side ≠ .none ∧
    (r.execType = .fill ∨ r.execType = .partialFill)

/-- The signed sum of their quantities. -/
def netQuantity (fills : List OrderResponse) : Int := (fills.map fun r => sign r.side * (r.q : Int)).sum

/-- The sum of price times quantity over those of a side. -/
def turnover (side : Side) (fills : List OrderResponse) : Int :=
  ((fills.filter fun r => r.side = side).map fun r => r.p * (r.q : Int)).sum

/-- What was sold, less what was bought. -/
def proceeds (fills : List OrderResponse) : Int := turnover .sell fills - turnover .buy fills

/-- A position that fills with this net quantity and these proceeds have led to. -/
structure Booked (pos : SymbolPosition) (net proceeds : Int) : Prop where
  side : ∀ code, pos.side ≠ .other code
  none : pos.side = .none → pos.lots = []
  lots : ∀ lot ∈ pos.lots, 0 ≤ lot.quantity
  total : pos.totalQuantity = quantities pos.lots
  signed : sign pos.side * pos.totalQuantity = net
  realized : pos.realizedPnL = proceeds + sign pos.side * costs pos.lots

/-- What the loop moves: quantities leave the position and the fill together, and what a lot was worth
at the price of the fill becomes profit. -/
structure Closes (fillPrice : Int) (pos : SymbolPosition) (remaining : Int) (pos' : SymbolPosition)
    (remaining' : Int) : Prop where
  side : pos'.side = pos.side
  lots : (∀ lot ∈ pos.lots, 0 ≤ lot.quantity) → ∀ lot ∈ pos'.lots, 0 ≤ lot.quantity
  nonneg : 0 ≤ remaining → 0 ≤ remaining'
  total : pos'.totalQuantity - quantities pos'.lots = pos.totalQuantity - quantities pos.lots
  quantity : pos'.totalQuantity - remaining' = pos.totalQuantity - remaining
  worth : pos'.realizedPnL + sign pos.side * (fillPrice * remaining' - costs pos'.lots) =
    pos.realizedPnL + sign pos.side * (fillPrice * remaining - costs pos.lots)

namespace Closes

variable {fillPrice remaining remaining₁ remaining₂ : Int} {pos pos₁ pos₂ : SymbolPosition}

theorem refl (fillPrice : Int) (pos : SymbolPosition) (remaining : Int) :
    Closes fillPrice pos remaining pos remaining := ⟨rfl, id, id, rfl, rfl, rfl⟩

theorem trans (h : Closes fillPrice pos remaining pos₁ remaining₁)
    (h' : Closes fillPrice pos₁ remaining₁ pos₂ remaining₂) :
    Closes fillPrice pos remaining pos₂ remaining₂ := by
  refine ⟨h'.side.trans h.side, fun hl => h'.lots (h.lots hl), fun hr => h'.nonneg (h.nonneg hr),
    h'.total.trans h.total, h'.quantity.trans h.quantity, ?_⟩
  have hworth := h'.worth
  rw [h.side] at hworth
  exact hworth.trans h.worth

end Closes

section Loop

variable {fillPrice remaining : Int} {pos : SymbolPosition} {oldest : PositionLot} {rest : List PositionLot}

/-- The profit of closing, with the side as a sign. -/
theorem pnl_eq (hside : pos.side = .buy ∨ pos.side = .sell) (lotPrice closedQty : Int) :
    SymbolPosition.pnl pos.side fillPrice lotPrice closedQty =
      sign pos.side * ((fillPrice - lotPrice) * closedQty) := by
  unfold SymbolPosition.pnl
  rcases hside with hbuy | hsell
  · rw [hbuy, if_pos rfl]
    exact (one_mul _).symm
  · rw [hsell, if_neg (by decide)]
    unfold sign
    ring

/-- The oldest lot is closed. -/
theorem closes_lot (fillPrice : Int) (hside : pos.side = .buy ∨ pos.side = .sell) (hlots : pos.lots = oldest :: rest)
    (hle : oldest.quantity ≤ remaining) : Closes fillPrice pos remaining
      { pos with
        realizedPnL := pos.realizedPnL + SymbolPosition.pnl pos.side fillPrice oldest.price oldest.quantity
        totalQuantity := pos.totalQuantity - oldest.quantity
        lots := rest }
      (remaining - oldest.quantity) := by
  refine ⟨rfl, fun hl lot hm => hl lot (hlots ▸ List.mem_cons_of_mem _ hm), fun _ => by omega, ?_, ?_, ?_⟩
  · rw [hlots]
    unfold quantities
    rw [List.map_cons, List.sum_cons]
    dsimp only
    ring
  · dsimp only
    ring
  · rw [hlots]
    unfold costs
    rw [List.map_cons, List.sum_cons]
    dsimp only
    rw [pnl_eq hside]
    ring

/-- A part of it is. -/
theorem closes_part (fillPrice : Int) (hside : pos.side = .buy ∨ pos.side = .sell) (hlots : pos.lots = oldest :: rest)
    (hlt : remaining < oldest.quantity) : Closes fillPrice pos remaining
      { pos with
        realizedPnL := pos.realizedPnL + SymbolPosition.pnl pos.side fillPrice oldest.price remaining
        totalQuantity := pos.totalQuantity - remaining
        lots := { oldest with quantity := oldest.quantity - remaining } :: rest }
      0 := by
  refine ⟨rfl, fun hl lot hm => ?_, fun _ => le_rfl, ?_, ?_, ?_⟩
  · rcases List.mem_cons.mp hm with rfl | hm
    · show 0 ≤ oldest.quantity - remaining
      omega
    · exact hl lot (hlots ▸ List.mem_cons_of_mem _ hm)
  · rw [hlots]
    unfold quantities
    rw [List.map_cons, List.sum_cons, List.map_cons, List.sum_cons]
    dsimp only
    ring
  · dsimp only
    ring
  · rw [hlots]
    unfold costs
    rw [List.map_cons, List.sum_cons, List.map_cons, List.sum_cons]
    dsimp only
    rw [pnl_eq hside]
    ring

/-- The loop ends, with nothing left of the fill or no lot left. -/
theorem closeLots_ends (fillPrice : Int) : ∀ (fuel : Nat) (pos : SymbolPosition) {remaining : Int},
    pos.lots.length + 1 < fuel → pos.side = .buy ∨ pos.side = .sell → 0 ≤ remaining →
      ∃ pos' remaining', pos.closeLots fillPrice fuel remaining = some (pos', remaining') ∧
        Closes fillPrice pos remaining pos' remaining' ∧ (remaining' = 0 ∨ pos'.lots = [])
  | 0, _, _, hfuel, _, _ => absurd hfuel (Nat.not_lt_zero _)
  | fuel + 1, pos, remaining, hfuel, hside, hnonneg => by
    rw [SymbolPosition.closeLots]
    cases hlots : pos.lots with
    | nil => exact ⟨pos, remaining, rfl, .refl .., Or.inr hlots⟩
    | cons oldest rest =>
      rw [hlots, List.length_cons] at hfuel
      dsimp only
      by_cases hpos : 0 < remaining
      · rw [if_pos hpos]
        by_cases hle : oldest.quantity ≤ remaining
        · -- the next lot
          rw [if_pos hle]
          have hround := closes_lot fillPrice hside hlots hle
          obtain ⟨pos', remaining', hrun, hcloses, hend⟩ :=
            closeLots_ends fillPrice fuel { pos with
              realizedPnL := pos.realizedPnL +
                SymbolPosition.pnl pos.side fillPrice oldest.price oldest.quantity
              totalQuantity := pos.totalQuantity - oldest.quantity
              lots := rest } (show rest.length + 1 < fuel by omega) hside (hround.nonneg hnonneg)
          exact ⟨pos', remaining', hrun, hround.trans hcloses, hend⟩
        · -- the condition is tested once more
          rw [if_neg hle]
          have hround := closes_part fillPrice hside hlots (not_le.mp hle)
          obtain ⟨fuel, rfl⟩ : ∃ k, fuel = k + 1 := ⟨fuel - 1, by omega⟩
          rw [SymbolPosition.closeLots]
          dsimp only
          rw [if_neg (by decide)]
          exact ⟨_, 0, rfl, hround, Or.inl rfl⟩
      · rw [if_neg hpos]
        exact ⟨pos, remaining, rfl, .refl .., Or.inl (by omega)⟩

end Loop

section Fills

variable {pos : SymbolPosition} {net proceeds : Int}

/-- A flat position has booked nothing. -/
theorem booked_flat (symbolId : UInt32) : Booked (.flat symbolId) 0 0 := by
  refine ⟨fun code h => ?_, fun _ => rfl, fun lot hm => ?_, rfl, rfl, rfl⟩
  · cases h
  · cases hm

/-- The average price is not looked at. -/
theorem Booked.average (h : Booked pos net proceeds) : Booked pos.average net proceeds :=
  ⟨h.side, h.none, h.lots, h.total, h.signed, h.realized⟩

/-- A fill of the side of the position, or without a position. -/
theorem Booked.add (h : Booked pos net proceeds) {side : Side} (hside : side = .buy ∨ side = .sell)
    (hsame : pos.side = .none ∨ pos.side = side) (lot : PositionLot) (hlot : 0 ≤ lot.quantity) :
    Booked { pos with
      side := side, lots := pos.lots ++ [lot], totalQuantity := pos.totalQuantity + lot.quantity }
      (net + sign side * lot.quantity) (proceeds - sign side * (lot.price * lot.quantity)) := by
  have hold : sign pos.side * pos.totalQuantity = sign side * pos.totalQuantity ∧
      sign pos.side * costs pos.lots = sign side * costs pos.lots := by
    rcases hsame with hnone | hsame
    · have hlots := h.none hnone
      rw [h.total, hlots]
      exact ⟨(mul_zero _).trans (mul_zero _).symm, (mul_zero _).trans (mul_zero _).symm⟩
    · rw [hsame]
      exact ⟨rfl, rfl⟩
  have hquantities : quantities (pos.lots ++ [lot]) = quantities pos.lots + lot.quantity := by
    unfold quantities
    rw [List.map_append, List.sum_append, List.map_singleton, List.sum_singleton]
  have hcosts : costs (pos.lots ++ [lot]) = costs pos.lots + lot.price * lot.quantity := by
    unfold costs
    rw [List.map_append, List.sum_append, List.map_singleton, List.sum_singleton]
  have hne : side ≠ .none := by
    rintro rfl
    simp at hside
  refine ⟨fun code he => ?_, fun he => absurd he hne, fun l hm => ?_, ?_, ?_, ?_⟩
  · obtain rfl : side = .other code := he
    simp at hside
  · rcases List.mem_append.mp hm with hm | hm
    · exact h.lots l hm
    · rw [List.mem_singleton.mp hm]
      exact hlot
  · dsimp only
    rw [hquantities, h.total]
  · have hsigned := h.signed
    rw [hold.1] at hsigned
    dsimp only
    rw [← hsigned]
    ring
  · have hrealized := h.realized
    rw [hold.2] at hrealized
    dsimp only
    rw [hcosts, hrealized]
    ring

/-- What the loop leaves, and what is left of the fill. -/
theorem Booked.close (h : Booked pos net proceeds) {side : Side} {p q remaining : Int}
    {pos' : SymbolPosition} (hside : side = .buy ∨ side = .sell) (hopp : sign side = -sign pos.side)
    (hq : 0 ≤ q) (hcloses : Closes p pos q pos' remaining) (hend : remaining = 0 ∨ pos'.lots = [])
    {lot : PositionLot} (hprice : lot.price = p) (hquantity : lot.quantity = remaining) :
    Booked (pos'.reopen side remaining lot) (net + sign side * q) (proceeds - sign side * (p * q)) := by
  have htotal : pos'.totalQuantity = quantities pos'.lots := by
    have hdiff := hcloses.total
    rw [h.total] at hdiff
    omega
  have hnet : sign pos.side * (pos'.totalQuantity - remaining) = net + sign side * q := by
    rw [hcloses.quantity, hopp, ← h.signed]
    ring
  have hworth : pos'.realizedPnL + sign pos.side * (p * remaining - costs pos'.lots) =
      proceeds - sign side * (p * q) := by
    rw [hcloses.worth, h.realized, hopp]
    ring
  have hnonneg := hcloses.nonneg hq
  unfold SymbolPosition.reopen
  by_cases hpos : 0 < remaining
  · -- the fill goes over to its own side
    have hlots : pos'.lots = [] := hend.resolve_left (by omega)
    rw [hlots] at htotal hworth
    have hzero : pos'.totalQuantity = 0 := htotal
    rw [if_pos hpos, hlots]
    refine ⟨fun code he => ?_, fun he => ?_, fun l hm => ?_, ?_, ?_, ?_⟩
    · obtain rfl : side = .other code := he
      simp at hside
    · obtain rfl : side = .none := he
      simp at hside
    · rw [List.mem_singleton.mp hm, hquantity]
      exact hnonneg
    · show remaining = lot.quantity + 0
      rw [hquantity, add_zero]
    · dsimp only
      rw [← hnet, hzero, hopp]
      ring
    · show pos'.realizedPnL = proceeds - sign side * (p * q) + sign side * (lot.price * lot.quantity + 0)
      rw [← hworth, hprice, hquantity, hopp]
      show _ = pos'.realizedPnL + sign pos.side * (p * remaining - 0) + _
      ring
  · obtain rfl : remaining = 0 := by omega
    rw [if_neg hpos]
    rw [sub_zero] at hnet
    split
    · -- nothing is left of either
      rename_i hlots
      rw [hlots] at htotal hworth
      have hzero : pos'.totalQuantity = 0 := htotal
      refine ⟨fun code he => ?_, fun _ => hlots, fun l hm => ?_, ?_, ?_, ?_⟩
      · cases he
      · rw [hlots] at hm
        cases hm
      · dsimp only
        rw [hlots]
        rfl
      · dsimp only
        rw [← hnet, hzero, mul_zero, mul_zero]
      · dsimp only
        rw [hlots, ← hworth]
        show pos'.realizedPnL = pos'.realizedPnL + sign pos.side * (p * 0 - 0) + 0 * _
        ring
    · rename_i hlots
      refine ⟨fun code he => h.side code (hcloses.side ▸ he), fun he => ?_, hcloses.lots h.lots, htotal, ?_, ?_⟩
      · -- there was a position
        have hzero : pos.lots = [] := h.none (hcloses.side ▸ he)
        rw [← hcloses.side, he] at hopp
        rcases hside with rfl | rfl <;> cases hopp
      · rw [hcloses.side, hnet]
      · rw [hcloses.side, ← hworth]
        ring

/-- A fill is booked. -/
theorem Booked.fill (h : Booked pos net proceeds) (now : Nat) (orderId : UInt32) {side : Side}
    (hside : side = .buy ∨ side = .sell) (p : Int) {q : Int} (hq : 0 ≤ q) :
    ∃ pos', pos.fill now orderId side p q = some pos' ∧
      Booked pos' (net + sign side * q) (proceeds - sign side * (p * q)) := by
  unfold SymbolPosition.fill
  by_cases hsame : pos.side = .none ∨ pos.side = side
  · rw [if_pos hsame]
    exact ⟨_, rfl, (h.add hside hsame ⟨p, q, now, orderId⟩ hq).average⟩
  · obtain ⟨hnone, hne⟩ := not_or.mp hsame
    have hopen : pos.side = .buy ∨ pos.side = .sell := by
      cases hpos : pos.side with
      | buy => exact Or.inl rfl
      | sell => exact Or.inr rfl
      | none => exact absurd hpos hnone
      | other code => exact absurd hpos (h.side code)
    have hopp : sign side = -sign pos.side := by
      rcases hopen with hpos | hpos <;> rcases hside with rfl | rfl
      · exact absurd hpos hne
      · rw [hpos]
        rfl
      · rw [hpos]
        rfl
      · exact absurd hpos hne
    obtain ⟨pos', remaining, hrun, hcloses, hend⟩ :=
      closeLots_ends p (pos.lots.length + 2) pos (by omega) hopen hq
    rw [if_neg hsame, hrun]
    exact ⟨_, rfl, (h.close hside hopp hq hcloses hend rfl rfl).average⟩

end Fills

/-! ## All responses -/

section Sums

variable (fills : List OrderResponse) (r : OrderResponse)

theorem netQuantity_snoc : netQuantity (fills ++ [r]) = netQuantity fills + sign r.side * r.q := by
  unfold netQuantity
  rw [List.map_append, List.sum_append, List.map_singleton, List.sum_singleton]

theorem turnover_snoc (side : Side) : turnover side (fills ++ [r]) =
    turnover side fills + if r.side = side then r.p * r.q else 0 := by
  unfold turnover
  rw [List.filter_append, List.map_append, List.sum_append]
  by_cases hside : r.side = side
  · rw [if_pos hside, List.filter_cons_of_pos (by simpa using hside), List.filter_nil, List.map_singleton,
      List.sum_singleton]
  · rw [if_neg hside, List.filter_cons_of_neg (by simpa using hside), List.filter_nil, List.map_nil,
      List.sum_nil]

theorem proceeds_snoc (hside : r.side = .buy ∨ r.side = .sell) :
    proceeds (fills ++ [r]) = proceeds fills - sign r.side * (r.p * r.q) := by
  unfold proceeds
  rw [turnover_snoc, turnover_snoc]
  rcases hside with hbuy | hsell
  · rw [hbuy, if_neg (by decide), if_pos rfl]
    unfold sign
    ring
  · rw [hsell, if_pos rfl, if_neg (by decide)]
    unfold sign
    ring

/-- The fills of a symbol, with one response more. -/
theorem fillsOf_snoc (symbolId : UInt32) (rs : List OrderResponse) :
    fillsOf symbolId (rs ++ [r]) = fillsOf symbolId rs ++ fillsOf symbolId [r] := List.filter_append ..

end Sums

namespace ExchangeState

/-- Every position is what the trades of its symbol have led to. -/
def BooksAll (st : ExchangeState) (rs : List OrderResponse) : Prop :=
  ∀ symbolId, Booked (st.position symbolId) (netQuantity (fillsOf symbolId rs))
    (proceeds (fillsOf symbolId rs))

section Steps

variable {st st' : ExchangeState} {rs : List OrderResponse} {r : OrderResponse}

/-- A response that is no trade leaves the positions as they are. -/
theorem BooksAll.idle (h : st.BooksAll rs) (hst : st'.positions = st.positions)
    (hidle : ∀ symbolId, fillsOf symbolId [r] = []) : st'.BooksAll (rs ++ [r]) := by
  intro symbolId
  rw [fillsOf_snoc, hidle, List.append_nil]
  unfold position
  rw [hst]
  exact h symbolId

@[simp] theorem positions_traded : (st.traded r).positions = st.positions := by
  unfold traded
  dsimp only
  split <;> rfl

/-- A trade changes the position of its symbol. -/
theorem BooksAll.trade (h : st.BooksAll rs) (now : Nat) (hreject : r.rejectCode = .none)
    (htrade : r.execType = .fill ∨ r.execType = .partialFill) (hside : r.side = .buy ∨ r.side = .sell)
    (hst : st'.positions = st.positions) :
    ∃ pos, (st'.position r.symbolId).fill now r.orderId r.side r.p r.q = some pos ∧
      BooksAll { st' with positions := st'.positions.insert r.symbolId pos } (rs ++ [r]) := by
  have hne : r.side ≠ .none := by
    rcases hside with hbuy | hsell
    · rw [hbuy]
      decide
    · rw [hsell]
      decide
  have hself : st'.position r.symbolId = st.position r.symbolId := by
    unfold position
    rw [hst]
  obtain ⟨pos, hfill, hpos⟩ := (h r.symbolId).fill now r.orderId hside r.p (Int.natCast_nonneg r.q)
  refine ⟨pos, by rw [hself, hfill], fun symbolId => ?_⟩
  rw [fillsOf_snoc]
  unfold position
  dsimp only
  by_cases hs : symbolId = r.symbolId
  · have hone : fillsOf symbolId [r] = [r] :=
      List.filter_cons_of_pos (by simp [hs, hreject, hne, htrade])
    rw [hone, netQuantity_snoc, proceeds_snoc _ _ hside, hs, AList.lookup_insert]
    exact hpos
  · have hnone : fillsOf symbolId [r] = [] := List.filter_cons_of_neg (by simp [Ne.symm hs])
    rw [hnone, List.append_nil, AList.lookup_insert_ne hs, hst]
    exact h symbolId

/-- One response. -/
theorem BooksAll.handle (h : st.BooksAll rs) (now : Nat)
    (hsides : ∀ symbolId, ∀ r' ∈ fillsOf symbolId [r], r'.side = .buy ∨ r'.side = .sell) :
    ∃ st', st.handleOrderResponse now r = some st' ∧ st'.BooksAll (rs ++ [r]) := by
  have hnone : ¬ (r.rejectCode = .none ∧ r.side ≠ .none ∧ (r.execType = .fill ∨ r.execType = .partialFill)) →
      ∀ symbolId, fillsOf symbolId [r] = [] :=
    fun hno symbolId => List.filter_cons_of_neg fun hyes => hno (of_decide_eq_true hyes).2
  unfold handleOrderResponse
  by_cases hcomplete : r.execType = .complete
  · rw [if_pos hcomplete]
    exact ⟨st, rfl, h.idle rfl (hnone (by simp [hcomplete]))⟩
  rw [if_neg hcomplete]
  by_cases hreject : r.rejectCode ≠ .none
  · rw [if_pos hreject]
    exact ⟨st, rfl, h.idle rfl (hnone (by simp [hreject]))⟩
  rw [if_neg hreject]
  have htrades : r.execType = .fill ∨ r.execType = .partialFill →
      ∃ st', (if r.side = .none then some (st.traded r) else do
        let pos ← ((st.traded r).position r.symbolId).fill now r.orderId r.side r.p r.q
        some { st.traded r with positions := (st.traded r).positions.insert r.symbolId pos }) = some st' ∧
          st'.BooksAll (rs ++ [r]) := by
    intro htrade
    by_cases hside : r.side = .none
    · rw [if_pos hside]
      exact ⟨_, rfl, h.idle positions_traded (hnone (by simp [hside]))⟩
    · have hmem : r ∈ fillsOf r.symbolId [r] :=
        List.mem_filter.mpr ⟨List.mem_singleton_self r, by simp [not_not.mp hreject, hside, htrade]⟩
      have hkept : (st.traded r).positions = st.positions := positions_traded
      obtain ⟨pos, hfill, hpos⟩ := h.trade now (not_not.mp hreject) htrade (hsides _ r hmem) hkept
      rw [if_neg hside, hfill]
      exact ⟨_, rfl, hpos⟩
  cases htype : r.execType with
  | new | orderStatus =>
    have hidle := hnone (by simp [htype])
    dsimp only
    split
    · exact ⟨st, rfl, h.idle rfl hidle⟩
    · exact ⟨_, rfl, h.idle rfl hidle⟩
  | replaced | cancelled | rejected => exact ⟨_, rfl, h.idle rfl (hnone (by simp [htype]))⟩
  | partialFill => exact htrades (Or.inr htype)
  | fill => exact htrades (Or.inl htype)
  | complete => exact absurd htype hcomplete

/-- All of them. -/
theorem BooksAll.handleAll (responses : List (Nat × OrderResponse)) : ∀ {st : ExchangeState}
    {rs : List OrderResponse}, st.BooksAll rs →
      (∀ symbolId, ∀ r ∈ fillsOf symbolId (responses.map Prod.snd), r.side = .buy ∨ r.side = .sell) →
      ∃ st', st.handleAll responses = some st' ∧ st'.BooksAll (rs ++ responses.map Prod.snd) := by
  induction responses with
  | nil =>
    intro st rs h _
    exact ⟨st, rfl, by rw [List.map_nil, List.append_nil]; exact h⟩
  | cons x responses ih =>
    intro st rs h hsides
    obtain ⟨now, r⟩ := x
    have hsplit : ∀ symbolId, fillsOf symbolId (((now, r) :: responses).map Prod.snd) =
        fillsOf symbolId [r] ++ fillsOf symbolId (responses.map Prod.snd) :=
      fun symbolId => List.filter_append [r] _
    obtain ⟨st₁, hrun, h₁⟩ := h.handle now fun symbolId r' hr' =>
      hsides symbolId r' (hsplit symbolId ▸ List.mem_append_left _ hr')
    obtain ⟨st', hrest, h'⟩ := ih h₁ fun symbolId r' hr' =>
      hsides symbolId r' (hsplit symbolId ▸ List.mem_append_right _ hr')
    refine ⟨st', ?_, ?_⟩
    · unfold ExchangeState.handleAll at hrest ⊢
      rw [List.foldlM_cons]
      show (st.handleOrderResponse now r >>= _) = _
      rw [hrun]
      exact hrest
    · rw [List.map_cons, List.append_cons]
      exact h'

end Steps

end ExchangeState

/-- The identity of the lots: whatever the responses are, as long as trades are bought or sold. -/
theorem lots_account (responses : List (Nat × OrderResponse))
    (hsides : ∀ symbolId, ∀ r ∈ fillsOf symbolId (responses.map Prod.snd), r.side = .buy ∨ r.side = .sell) :
    ∃ st, ExchangeState.empty.handleAll responses = some st ∧
      ∀ symbolId, Booked (st.position symbolId) (netQuantity (fillsOf symbolId (responses.map Prod.snd)))
        (turnover .sell (fillsOf symbolId (responses.map Prod.snd)) -
          turnover .buy (fillsOf symbolId (responses.map Prod.snd))) := by
  have hempty : ExchangeState.empty.BooksAll [] := fun symbolId => booked_flat symbolId
  exact hempty.handleAll responses hsides

/-- Two lots are bought; a sale closes the first and a part of the second, and another the rest of it
and goes short. -/
def sampleResponses : List (Nat × OrderResponse) :=
  [(1, ⟨.fill, 7, 1, 1, 1, .buy, 10, 5, 0, .none⟩), (2, ⟨.partialFill, 8, 1, 2, 1, .buy, 12, 3, 4, .none⟩),
    (3, ⟨.fill, 9, 1, 3, 1, .sell, 15, 6, 0, .none⟩), (4, ⟨.fill, 10, 1, 4, 1, .sell, 11, 4, 0, .none⟩)]

/-- The sample fills, long and then short. -/
theorem sample_lots : ∃ st, ExchangeState.empty.handleAll sampleResponses = some st ∧
    Booked (st.position 1) (-2) 48 := by
  obtain ⟨st, hrun, hbooked⟩ := lots_account sampleResponses fun symbolId r hr => by
    have hmem := List.mem_of_mem_filter hr
    simp only [sampleResponses, List.map_cons, List.map_nil, List.mem_cons, List.not_mem_nil, or_false] at hmem
    rcases hmem with rfl | rfl | rfl | rfl
    · exact Or.inl rfl
    · exact Or.inl rfl
    · exact Or.inr rfl
    · exact Or.inr rfl
  exact ⟨st, hrun, hbooked 1⟩

end Exchange.Web
