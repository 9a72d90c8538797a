import Exchange.Database.Positions
import Exchange.Lib.Keyed

/-!
# `ClientAccount`, as the code computes it

What a client keeps of its own: positions and open orders, from the records and the positions the
gateway sends it (`include/client/ClientAccount.hpp`).

`positions_` is an `AList` of 64-bit words, `open_orders_` a list, searched from its front. The
mutex is left out: each call holds it from start to end.
-/

namespace Exchange

open InMemoryClientDatabase (addPosition)
open Lib

/-- `PositionResponse`. -/
structure PositionResponse where
  clientId : UInt32
  symbolId : UInt32
  position : BitVec 64
  deriving DecidableEq, Repr

/-- `class ClientAccount`. -/
structure ClientAccount where
  positions : AList (fun _ : UInt32 => BitVec 64)
  openOrders : List OrderResponse

namespace ClientAccount

/-- A new account. -/
def empty : ClientAccount := ⟨∅, []⟩

/-- `update_position_and_cash_internal`. -/
def updatePositionAndCash (acc : ClientAccount) (symbolId : UInt32) (side : Side) (qty : Nat) (price : Int) :
    ClientAccount :=
  let cashChange := BitVec.ofNat 64 qty * BitVec.ofInt 64 price
  match side with
  | .buy => { acc with
      positions := addPosition (addPosition acc.positions symbolId (BitVec.ofNat 64 qty)) 0 (-cashChange) }
  | .sell => { acc with
      positions := addPosition (addPosition acc.positions symbolId (-BitVec.ofNat 64 qty)) 0 cashChange }
  | _ => acc

/-- `handle_order_response`. -/
def handleOrderResponse (acc : ClientAccount) (response : OrderResponse) : ClientAccount :=
  match response.execType with
  | .orderStatus | .new | .replaced =>
    { acc with openOrders := Keyed.put (·.orderId) response acc.openOrders }
  | .partialFill => acc.updatePositionAndCash response.symbolId response.side response.q response.p
  | .fill =>
    let acc := acc.updatePositionAndCash response.symbolId response.side response.q response.p
    { acc with openOrders := Keyed.remove (·.orderId) response.orderId acc.openOrders }
  | .cancelled => { acc with openOrders := Keyed.remove (·.orderId) response.orderId acc.openOrders }
  | .rejected =>
    if response.rejectCode = .orderNotFound then
      { acc with openOrders := Keyed.remove (·.orderId) response.orderId acc.openOrders }
    else acc
  | .complete => acc

/-- `handle_position_response`. -/
def handlePositionResponse (acc : ClientAccount) (response : PositionResponse) : ClientAccount :=
  { acc with positions := acc.positions.insert response.symbolId response.position }

/-- `get_position`. -/
def getPosition (acc : ClientAccount) (symbolId : UInt32) : BitVec 64 :=
  (acc.positions.lookup symbolId).getD 0

/-- The open order with this id. -/
def openOrder (acc : ClientAccount) (orderId : UInt32) : Option OrderResponse :=
  Keyed.find (·.orderId) acc.openOrders orderId

/-- No two open orders have the same id. -/
def Distinct (acc : ClientAccount) : Prop := (acc.openOrders.map (·.orderId)).Nodup

end ClientAccount

/-- What a record books in an account under a symbol: the asset, and the cash under 0, which may be
the same. -/
def OrderResponse.credit (r : OrderResponse) (symbolId : UInt32) : BitVec 64 :=
  if r.isTrade ∧ (r.side = .buy ∨ r.side = .sell) then
    (if symbolId = r.symbolId then r.assetDelta else 0) + if symbolId = 0 then r.cashDelta else 0
  else 0

namespace ClientAccount

variable (acc : ClientAccount) (r : OrderResponse)

@[simp] theorem openOrders_updatePositionAndCash (symbolId : UInt32) (side : Side) (qty : Nat) (price : Int) :
    (acc.updatePositionAndCash symbolId side qty price).openOrders = acc.openOrders := by
  cases side <;> rfl

/-- A trade moves the position and the cash by what it credits. -/
theorem getPosition_updatePositionAndCash (s : UInt32) (htrade : r.isTrade = true) :
    (acc.updatePositionAndCash r.symbolId r.side r.q r.p).getPosition s = acc.getPosition s + r.credit s := by
  have hadd : ∀ pos delta delta', ((addPosition (addPosition pos r.symbolId delta) 0 delta').lookup s).getD 0 =
      (pos.lookup s).getD 0 + ((if s = r.symbolId then delta else 0) + if s = 0 then delta' else 0) := by
    intro pos delta delta'
    rw [InMemoryClientDatabase.lookup_addPosition, InMemoryClientDatabase.lookup_addPosition, add_assoc]
  unfold OrderResponse.credit OrderResponse.assetDelta OrderResponse.cashDelta
  rw [mul_comm (BitVec.ofInt 64 r.p)]
  cases hside : r.side with
  | buy =>
    rw [if_pos ⟨htrade, Or.inl rfl⟩, if_pos rfl, if_pos rfl]
    exact hadd _ _ _
  | sell =>
    have hne : ¬ Side.sell = .buy := by decide
    rw [if_pos ⟨htrade, Or.inr rfl⟩, if_neg hne, if_neg hne]
    exact hadd _ _ _
  | none | other =>
    rw [if_neg (by simp), add_zero]
    rfl

/-- Every record books its share, and nothing else. -/
theorem getPosition_handleOrderResponse (s : UInt32) :
    (acc.handleOrderResponse r).getPosition s = acc.getPosition s + r.credit s := by
  have hidle : r.execType ≠ .fill → r.execType ≠ .partialFill → r.credit s = 0 := by
    intro hfill hpartial
    refine if_neg fun h => ?_
    rcases isTrade_iff.mp h.1 with he | he
    · exact hfill he
    · exact hpartial he
  unfold handleOrderResponse
  cases ht : r.execType with
  | partialFill => exact acc.getPosition_updatePositionAndCash r s (isTrade_iff.mpr (Or.inr ht))
  | fill => exact acc.getPosition_updatePositionAndCash r s (isTrade_iff.mpr (Or.inl ht))
  | rejected =>
    rw [hidle (by rw [ht]; decide) (by rw [ht]; decide), add_zero]
    dsimp only
    split <;> rfl
  | complete => rw [hidle (by rw [ht]; decide) (by rw [ht]; decide), add_zero]
  | orderStatus | new | replaced | cancelled =>
    rw [hidle (by rw [ht]; decide) (by rw [ht]; decide), add_zero]
    rfl

/-- A position that is sent is written down as it is. -/
theorem getPosition_handlePositionResponse (m : PositionResponse) (s : UInt32) :
    (acc.handlePositionResponse m).getPosition s = if s = m.symbolId then m.position else acc.getPosition s := by
  unfold getPosition handlePositionResponse
  by_cases hs : s = m.symbolId
  · rw [if_pos hs, hs, AList.lookup_insert]
    rfl
  · rw [if_neg hs, AList.lookup_insert_ne hs]

end ClientAccount

end Exchange
