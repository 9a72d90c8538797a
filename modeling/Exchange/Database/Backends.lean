import Exchange.Database.Positions
import Exchange.Database.Responses
import Exchange.Database.SQLite
import Exchange.Database.Taken

/-!
# The two databases

`InMemoryClientDatabase` and `SQLiteClientDatabase` are told of the same records. What they
make of them is the same but for two things.

* On a `PartialFill` the one writes what is left of the order, and the other also the price of
  the trade. A taker that is filled at a better price than its own, and then rests, has the
  wrong price in SQLite until its next `New`, `Replaced` or `PartialFill` record.
* A balance that does not fit 64 bits wraps in the one and becomes a `REAL` in the other. The
  two then have different signs; later records may make them equal again.

Both keep the ledger of `OpenOrders.lean`; SQLite with prices of its own (`Prices`).
-/

namespace Exchange

open Lib

/-- The price of the last record of each order. -/
abbrev Prices := Nat → Int

/-- What a record does to it. -/
def Prices.record (prices : Prices) (r : OrderResponse) : Prices :=
  if checkExec r.execType execAlive then Function.update prices r.combinedId r.p else prices

/-- The row of an order in SQLite. -/
def OpenOrderRow.opened (row : OpenOrderRow) : OpenOrder := ⟨row.side, row.priceMantissa, row.q, row.qRem⟩

/-! ## The open orders of SQLite -/

namespace SQLiteClientDatabase

/-- SQLite holds these open orders, at these prices, and no others. -/
structure Shows (db : SQLiteClientDatabase) (x : OpenLedger) (prices : Prices) : Prop where
  rows : ∀ k, (db.openOrders.lookup k).map OpenOrderRow.opened =
    (x k).map fun y => { y with p := prices k }
  keyed : ∀ k row, db.openOrders.lookup k = some row → k = combinedOrderId row.clientId (orderIdOf k)

namespace Shows

variable {db : SQLiteClientDatabase} {x : OpenLedger} {prices : Prices}

/-- Only the open orders are read. -/
theorem of_openOrders {db' : SQLiteClientDatabase} (h : db.Shows x prices)
    (hsame : db'.openOrders = db.openOrders) : db'.Shows x prices := by
  refine ⟨?_, ?_⟩
  · rw [hsame]
    exact h.rows
  · rw [hsame]
    exact h.keyed

/-- One row written; `y` is what the ledger has in its place. -/
theorem write (h : db.Shows x prices) {r : OrderResponse} (row : OpenOrderRow) {y : OpenOrder}
    {t : Table Nat OpenOrderRow}
    (ht : ∀ k, t.lookup k = if k = r.combinedId then some row else db.openOrders.lookup k)
    (hy : row.opened = { y with p := r.p }) (hid : row.clientId = r.clientId) :
    ({ db with openOrders := t } : SQLiteClientDatabase).Shows
      (Function.update x r.combinedId (some y)) (Function.update prices r.combinedId r.p) := by
  refine ⟨fun k => ?_, fun k row' hrow => ?_⟩
  · dsimp only
    rw [ht]
    by_cases hk : k = r.combinedId
    · rw [hk, if_pos rfl, Function.update_self, Function.update_self, Option.map_some, hy]
      rfl
    · rw [if_neg hk, Function.update_of_ne hk, Function.update_of_ne hk]
      exact h.rows k
  · dsimp only at hrow
    rw [ht] at hrow
    split at hrow
    · rename_i hk
      rw [← Option.some.inj hrow, hid, hk]
      unfold OrderResponse.combinedId
      rw [orderIdOf_combined]
    · exact h.keyed k row' hrow

theorem erase (h : db.Shows x prices) (r : OrderResponse) :
    ({ db with openOrders := db.openOrders.erase r.combinedId } : SQLiteClientDatabase).Shows
      (Function.update x r.combinedId none) prices := by
  refine ⟨fun k => ?_, fun k row hrow => ?_⟩
  · dsimp only
    by_cases hk : k = r.combinedId
    · rw [hk, AList.lookup_erase, Function.update_self]
      rfl
    · rw [AList.lookup_erase_ne hk, Function.update_of_ne hk]
      exact h.rows k
  · dsimp only at hrow
    by_cases hk : k = r.combinedId
    · rw [hk, AList.lookup_erase] at hrow
      cases hrow
    · rw [AList.lookup_erase_ne hk] at hrow
      exact h.keyed k row hrow

/-- The upsert of a record, on a row that is there or not. -/
theorem lookup_row (h : db.Shows x prices) {k : Nat} {y : OpenOrder} (hy : x k = some y) :
    ∃ row, db.openOrders.lookup k = some row ∧ row.opened = { y with p := prices k } := by
  have hrow := h.rows k
  rw [hy] at hrow
  exact Option.map_eq_some_iff.mp hrow

/-- No row for an order that is not open. -/
theorem lookup_none (h : db.Shows x prices) {k : Nat} (hk : x k = none) :
    db.openOrders.lookup k = none := by
  have hrow := h.rows k
  rw [hk] at hrow
  exact Option.map_eq_none_iff.mp hrow

/-- The row of an order bears its client. -/
theorem clientId_row (h : db.Shows x prices) {r : OrderResponse} {row : OpenOrderRow}
    (hrow : db.openOrders.lookup r.combinedId = some row) : row.clientId = r.clientId :=
  (combinedOrderId_inj (h.keyed _ row hrow)).1.symm

/-- The upsert of `New` and `Replaced`. -/
theorem enter (h : db.Shows x prices) {r : OrderResponse} (hr : r.execType = .new ∨ r.execType = .replaced)
    (ht : x.Takes r) : (db.updateOpenOrders r).Shows (Function.update x r.combinedId (some r.opened))
      (Function.update prices r.combinedId r.p) := by
  have halive : checkExec r.execType execAlive = true := by
    rcases hr with hr | hr <;> rw [hr] <;> decide
  unfold SQLiteClientDatabase.updateOpenOrders
  dsimp only
  rw [if_pos halive]
  cases hx : x r.combinedId with
  | none =>
    refine h.write ⟨r.clientId, r.symbolId, r.side, r.p, r.q, r.qRem⟩ (fun k => ?_) rfl rfl
    rw [Table.lookup_upsert]
    show (if k = r.combinedId then some (((db.openOrders.lookup r.combinedId).map _).getD _) else _) = _
    rw [h.lookup_none hx]
    rfl
  | some y =>
    obtain ⟨row, hrow, hopened⟩ := h.lookup_row hx
    have hid := h.clientId_row hrow
    refine h.write { row with priceMantissa := r.p, q := r.q, qRem := r.qRem } (fun k => ?_) ?_ hid
    · rw [Table.lookup_upsert]
      show (if k = r.combinedId then some (((db.openOrders.lookup r.combinedId).map _).getD _) else _) = _
      rw [hrow, Option.map_some, Option.getD_some, if_pos hr]
    · have hside : row.side = y.side := congrArg OpenOrder.side hopened
      show OpenOrder.mk row.side r.p r.q r.qRem = _
      rw [hside, ht.side hr y hx]
      rfl

/-- The upsert of `PartialFill`. -/
theorem fill (h : db.Shows x prices) {r : OrderResponse} (hr : r.execType = .partialFill) {y : OpenOrder}
    (hx : x r.combinedId = some y) : (db.updateOpenOrders r).Shows
      (Function.update x r.combinedId (some { y with qRem := r.qRem }))
      (Function.update prices r.combinedId r.p) := by
  have halive : checkExec r.execType execAlive = true := by
    rw [hr]
    decide
  obtain ⟨row, hrow, hopened⟩ := h.lookup_row hx
  unfold SQLiteClientDatabase.updateOpenOrders
  dsimp only
  rw [if_pos halive]
  have hid := h.clientId_row hrow
  have hno : ¬ (r.execType = .new ∨ r.execType = .replaced) := by
    rw [hr]
    decide
  refine h.write { row with priceMantissa := r.p, qRem := r.qRem } (fun k => ?_) ?_ hid
  · rw [Table.lookup_upsert]
    show (if k = r.combinedId then some (((db.openOrders.lookup r.combinedId).map _).getD _) else _) = _
    rw [hrow, Option.map_some, Option.getD_some, if_neg hno]
  · have hside : row.side = y.side := congrArg OpenOrder.side hopened
    have hq : row.q = y.q := congrArg OpenOrder.q hopened
    show OpenOrder.mk row.side r.p row.q r.qRem = _
    rw [hside, hq]

/-- The open-order branch does to the rows what the record says, and notes its price. -/
theorem updateOpenOrders (h : db.Shows x prices) {r : OrderResponse} (ht : x.Takes r) :
    (db.updateOpenOrders r).Shows (x.record r) (prices.record r) := by
  unfold OpenLedger.record Prices.record
  cases hr : r.execType with
  | new =>
    rw [if_pos (by decide)]
    exact h.enter (Or.inl hr) ht
  | replaced =>
    rw [if_pos (by decide)]
    exact h.enter (Or.inr hr) ht
  | partialFill =>
    obtain ⟨y, hy⟩ := Option.isSome_iff_exists.mp (ht.partialFill hr)
    rw [if_pos (by decide)]
    dsimp only
    rw [hy]
    exact h.fill hr hy
  | fill | cancelled =>
    rw [if_neg (by decide)]
    unfold SQLiteClientDatabase.updateOpenOrders
    dsimp only
    rw [hr, if_neg (by decide), if_pos (by decide)]
    exact h.erase r
  | rejected | orderStatus | complete =>
    rw [if_neg (by decide)]
    unfold SQLiteClientDatabase.updateOpenOrders
    dsimp only
    rw [hr, if_neg (by decide), if_neg (by decide)]
    exact h

theorem update (h : db.Shows x prices) {r : OrderResponse} (ht : x.Takes r) (logOffset : Nat) :
    (db.updateOnExecution r logOffset).Shows (x.record r) (prices.record r) := by
  refine of_openOrders (updateOpenOrders (h.of_openOrders ?_) ht) rfl
  exact (SQLiteClientDatabase.tradePart_frame _ r).2.2

theorem updateAll {rs : List (OrderResponse × Nat)} (h : db.Shows x prices)
    (ht : TakenAlong x (rs.map Prod.fst)) : (db.updateAll rs).Shows
      ((rs.map Prod.fst).foldl OpenLedger.record x) ((rs.map Prod.fst).foldl Prices.record prices) := by
  induction rs generalizing db x prices with
  | nil => exact h
  | cons r rs ih =>
    cases ht with
    | cons hr hrs => exact ih (h.update hr r.2) hrs

end Shows

/-- The empty database shows the empty ledger. -/
theorem shows_empty : empty.Shows (fun _ => none) fun _ => 0 :=
  ⟨fun _ => rfl, fun _ _ h => (nomatch h)⟩

end SQLiteClientDatabase

/-! ## The positions of SQLite -/

namespace SqlValue

theorem fits_toInt (x : BitVec 64) : Fits x.toInt := ⟨x.le_toInt, x.toInt_lt⟩

/-- A sum that fits is exact. -/
theorem plus_of_fits {a b : Int} (h : Fits (a + b)) :
    plus (.integer a) (.integer b) = .integer (a + b) := by
  unfold plus add
  dsimp only
  rw [if_pos h]
  rfl

theorem plus_zero {n : Int} (h : Fits n) : plus (.integer n) (.integer 0) = .integer n := by
  rw [plus_of_fits (by rwa [Int.add_zero]), Int.add_zero]

theorem zero_plus (x : BitVec 64) : plus (.integer 0) (.integer x.toInt) = .integer x.toInt := by
  rw [plus_of_fits (by rw [Int.zero_add]; exact fits_toInt x), Int.zero_add]

/-- Rounding to a double leaves something of a number. -/
theorem toDouble_eq {n : Int} (h : n ≠ 0) : ∃ k : Nat, 0 < k ∧ toDouble n = n.sign * k := by
  have hunit : 2 ^ (n.natAbs.log2 - 52) ≤ n.natAbs :=
    (Nat.pow_le_pow_right (by decide) (Nat.sub_le _ _)).trans (Nat.log2_self_le (Int.natAbs_ne_zero.mpr h))
  have hsignificand : 0 < n.natAbs / 2 ^ (n.natAbs.log2 - 52) := Nat.div_pos hunit (Nat.two_pow_pos _)
  refine ⟨_, Nat.mul_pos ?_ (Nat.two_pow_pos _), rfl⟩
  split
  · exact Nat.succ_pos _
  · exact hsignificand

theorem toDouble_pos {n : Int} (h : 0 < n) : 0 < toDouble n := by
  obtain ⟨k, hk, heq⟩ := toDouble_eq h.ne'
  rw [heq, Int.sign_eq_one_of_pos h]
  omega

theorem toDouble_neg {n : Int} (h : n < 0) : toDouble n < 0 := by
  obtain ⟨k, hk, heq⟩ := toDouble_eq h.ne
  rw [heq, Int.sign_eq_neg_one_of_neg h]
  omega

/-- A `REAL` is read as a number of the same sign. -/
theorem columnInt64_stored (x : Int) : (0 < x → 0 < (stored (.real x)).columnInt64) ∧
    (x < 0 → (stored (.real x)).columnInt64 < 0) := by
  unfold stored
  dsimp only
  split
  · exact ⟨id, id⟩
  · unfold columnInt64
    dsimp only
    constructor <;> omega

/-- Where a sum of words does not fit, the word that it wraps to has the other sign, or is 0. -/
theorem columnInt64_plus_ne {x y : BitVec 64} (h : ¬ Fits (x.toInt + y.toInt)) :
    (plus (.integer x.toInt) (.integer y.toInt)).columnInt64 ≠ (x + y).toInt := by
  obtain ⟨hx, hx'⟩ := fits_toInt x
  obtain ⟨hy, hy'⟩ := fits_toInt y
  have hwrap := BitVec.toInt_add x y
  have hreal : plus (.integer x.toInt) (.integer y.toInt) =
      stored (.real (toDouble (toDouble x.toInt + toDouble y.toInt))) := by
    unfold plus add
    dsimp only
    rw [if_neg h]
  obtain ⟨hpos, hneg⟩ := columnInt64_stored (toDouble (toDouble x.toInt + toDouble y.toInt))
  rw [hreal]
  by_cases hhigh : 2 ^ 63 ≤ x.toInt + y.toInt
  · have hread := hpos (toDouble_pos (Int.add_pos (toDouble_pos (by omega)) (toDouble_pos (by omega))))
    have hword : (x + y).toInt < 0 := by
      rw [hwrap, Int.bmod_def]
      split
      · omega
      · omega
    omega
  · have hlow : x.toInt + y.toInt < -2 ^ 63 := by
      by_contra hno
      exact h ⟨not_lt.mp hno, not_le.mp hhigh⟩
    have hread := hneg (toDouble_neg (Int.add_neg (toDouble_neg (by omega)) (toDouble_neg (by omega))))
    have hword : 0 ≤ (x + y).toInt := by
      rw [hwrap, Int.bmod_def]
      split
      · omega
      · omega
    omega

end SqlValue

namespace SQLiteClientDatabase

/-- The column `getPosition` reads, or the one it stands for. -/
def cell (db : SQLiteClientDatabase) (clientId symbolId : UInt32) : SqlValue :=
  (db.positions.lookup (clientId, symbolId)).getD (.integer (if symbolId = 0 then 1000000 else 0))

variable (db : SQLiteClientDatabase)

/-- The position is the cell, read as an integer. -/
theorem getPosition_eq (c s : UInt32) : db.getPosition c s = (db.cell c s).columnInt64 := by
  unfold getPosition cell
  cases db.positions.lookup (c, s) <;> rfl

/-- Only a trade writes positions. -/
theorem positions_updateOnExecution (r : OrderResponse) (logOffset : Nat) :
    (db.updateOnExecution r logOffset).positions =
      if r.isTrade then (db.applyTrade r).positions else db.positions := by
  show ((SQLiteClientDatabase.tradePart _ r).updateOpenOrders r).positions = _
  rw [(updateOpenOrders_frame _ r).2.2]
  unfold tradePart OrderResponse.isTrade
  split
  · unfold applyTrade
    dsimp only
    split
    · rfl
    · rfl
  · rfl

/-- The positions after a trade in a symbol other than 0. -/
theorem positions_applyTrade {r : OrderResponse} (hsym : r.symbolId ≠ 0) :
    (db.applyTrade r).positions =
      (db.positions.upsert (r.clientId, 0)
          (.plus (.integer 1000000) (.integer r.cashDelta.toInt))
          (·.plus (.integer r.cashDelta.toInt))).upsert
        (r.clientId, r.symbolId) (.integer r.assetDelta.toInt) (·.plus (.integer r.assetDelta.toInt)) := by
  unfold applyTrade
  dsimp only
  rw [if_pos hsym]
  rfl

theorem cell_cash {r : OrderResponse} (hsym : r.symbolId ≠ 0) :
    (((db.applyTrade r).positions.lookup (r.clientId, 0)).getD (.integer 1000000)) =
      (db.cell r.clientId 0).plus (.integer r.cashDelta.toInt) := by
  have hne : (r.clientId, (0 : UInt32)) ≠ (r.clientId, r.symbolId) :=
    fun h => hsym (Prod.mk.inj h).2.symm
  rw [positions_applyTrade db hsym, Table.lookup_upsert, if_neg hne, Table.lookup_upsert, if_pos rfl,
    Option.getD_some]
  unfold cell
  cases db.positions.lookup (r.clientId, 0) <;> rfl

theorem cell_asset {r : OrderResponse} (hsym : r.symbolId ≠ 0) :
    (((db.applyTrade r).positions.lookup (r.clientId, r.symbolId)).getD (.integer 0)) =
      (db.cell r.clientId r.symbolId).plus (.integer r.assetDelta.toInt) := by
  have hne : (r.clientId, r.symbolId) ≠ (r.clientId, (0 : UInt32)) :=
    fun h => hsym (Prod.mk.inj h).2
  rw [positions_applyTrade db hsym, Table.lookup_upsert, if_pos rfl, Table.lookup_upsert, if_neg hne,
    Option.getD_some]
  unfold cell
  rw [if_neg hsym]
  cases db.positions.lookup (r.clientId, r.symbolId) with
  | none => exact (SqlValue.zero_plus r.assetDelta).symm
  | some v => rfl

/-- A record adds its share. -/
theorem cell_updateOnExecution {r : OrderResponse} (hsym : r.symbolId ≠ 0) (logOffset : Nat)
    {c s : UInt32} {n : Int} (hn : db.cell c s = .integer n) (hfits : SqlValue.Fits n) :
    (db.updateOnExecution r logOffset).cell c s =
      (db.cell c s).plus (.integer (r.bookedFor c s).toInt) := by
  -- a record that books nothing here
  have hidle : (db.updateOnExecution r logOffset).positions.lookup (c, s) = db.positions.lookup (c, s) →
      r.bookedFor c s = 0 → (db.updateOnExecution r logOffset).cell c s =
        (db.cell c s).plus (.integer (r.bookedFor c s).toInt) := by
    intro hsame hzero
    rw [hzero, show (0 : BitVec 64).toInt = 0 from rfl, hn, SqlValue.plus_zero hfits, ← hn]
    unfold cell
    rw [hsame]
  have hpositions := db.positions_updateOnExecution r logOffset
  by_cases ht : r.isTrade = true
  · rw [if_pos ht] at hpositions
    by_cases hc : r.clientId = c
    · subst hc
      by_cases hzero : s = 0
      · subst hzero
        have hshare : r.bookedFor r.clientId 0 = r.cashDelta := by
          unfold OrderResponse.bookedFor OrderResponse.booked
          rw [if_pos rfl, if_pos ht, if_pos rfl]
        rw [hshare, ← db.cell_cash hsym, ← hpositions]
        rfl
      · by_cases hs : s = r.symbolId
        · subst hs
          have hshare : r.bookedFor r.clientId r.symbolId = r.assetDelta := by
            unfold OrderResponse.bookedFor OrderResponse.booked
            rw [if_pos rfl, if_pos ht, if_neg hsym, if_pos rfl]
          rw [hshare, ← db.cell_asset hsym, ← hpositions]
          unfold cell
          rw [if_neg hsym]
        · refine hidle ?_ ?_
          · rw [hpositions, positions_applyTrade db hsym, Table.lookup_upsert,
              if_neg fun h => hs (Prod.mk.inj h).2, Table.lookup_upsert,
              if_neg fun h => hzero (Prod.mk.inj h).2]
          · unfold OrderResponse.bookedFor OrderResponse.booked
            rw [if_pos rfl, if_pos ht, if_neg hzero, if_neg hs]
    · refine hidle ?_ (if_neg hc)
      rw [hpositions, positions_applyTrade db hsym, Table.lookup_upsert,
        if_neg fun h => hc (Prod.mk.inj h).1.symm, Table.lookup_upsert,
        if_neg fun h => hc (Prod.mk.inj h).1.symm]
  · rw [if_neg ht] at hpositions
    refine hidle (by rw [hpositions]) ?_
    unfold OrderResponse.bookedFor OrderResponse.booked
    rw [if_neg ht, ite_self]

end SQLiteClientDatabase

/-! ## Balances -/

/-- The exact balance of a client in a symbol. -/
def balance (rs : List OrderResponse) (c s : UInt32) : Int :=
  (if s = 0 then 1000000 else 0) + (rs.map fun r => (r.bookedFor c s).toInt).sum

/-- The balance of a client in a symbol never leaves the range of 64-bit integers. -/
def BalanceFits (rs : List OrderResponse) (c s : UInt32) : Prop :=
  ∀ rs', rs' <+: rs → SqlValue.Fits (balance rs' c s)

/-- The exact balance after one record more. -/
theorem balance_snoc (rs : List OrderResponse) (r : OrderResponse) (c s : UInt32) :
    balance (rs ++ [r]) c s = balance rs c s + (r.bookedFor c s).toInt := by
  unfold balance
  rw [List.map_append, List.sum_append, List.map_singleton, List.sum_singleton, add_assoc]

/-- Where the sum fits, 64-bit addition is addition. -/
theorem toInt_add_of_fits {x y : BitVec 64} (h : SqlValue.Fits (x.toInt + y.toInt)) :
    (x + y).toInt = x.toInt + y.toInt := by
  obtain ⟨hlow, hhigh⟩ := h
  rw [BitVec.toInt_add]
  refine Int.bmod_eq_of_le_mul_two ?_ ?_
  · push_cast
    omega
  · push_cast
    omega

/-- Every client starts with a million in cash. -/
theorem balance_nil (c s : UInt32) : balance [] c s = if s = 0 then 1000000 else 0 := Int.add_zero _

theorem BalanceFits.init {rs : List OrderResponse} {r : OrderResponse} {c s : UInt32}
    (h : BalanceFits (rs ++ [r]) c s) : BalanceFits rs c s :=
  fun rs' hpre => h rs' (hpre.trans (List.prefix_append _ _))

theorem BalanceFits.snoc {rs : List OrderResponse} {r : OrderResponse} {c s : UInt32}
    (h : BalanceFits rs c s) (hr : SqlValue.Fits (balance (rs ++ [r]) c s)) :
    BalanceFits (rs ++ [r]) c s := by
  intro rs' hpre
  rcases List.prefix_concat_iff.mp hpre with rfl | hpre
  · exact hr
  · exact h rs' hpre

theorem SQLiteClientDatabase.updateAll_snoc (db : SQLiteClientDatabase) (rs : List (OrderResponse × Nat))
    (r : OrderResponse × Nat) : db.updateAll (rs ++ [r]) = (db.updateAll rs).updateOnExecution r.1 r.2 :=
  List.foldl_append

theorem InMemoryClientDatabase.updateAll_snoc (db : InMemoryClientDatabase)
    (rs : List (OrderResponse × Nat)) (r : OrderResponse × Nat) :
    db.updateAll (rs ++ [r]) = (db.updateAll rs).updateOnExecution r.1 r.2 := List.foldl_append

section Exact

variable {rs : List (OrderResponse × Nat)} (hsym : ∀ r ∈ rs, r.1.symbolId ≠ 0) (c s : UInt32)

include hsym

/-- The balance in SQLite is exact as long as it fits. -/
theorem SQLiteClientDatabase.cell_exact (hfits : BalanceFits (rs.map Prod.fst) c s) :
    (empty.updateAll rs).cell c s = .integer (balance (rs.map Prod.fst) c s) := by
  induction rs using List.reverseRecOn with
  | nil =>
    rw [List.map_nil, balance_nil]
    rfl
  | append_singleton rs r ih =>
    rw [List.map_append, List.map_singleton] at hfits ⊢
    have hr := hsym r (List.mem_append_right _ List.mem_cons_self)
    have hn := ih (fun x hx => hsym x (List.mem_append_left _ hx)) hfits.init
    have hlast := hfits _ (List.prefix_refl _)
    rw [balance_snoc] at hlast ⊢
    rw [updateAll_snoc, cell_updateOnExecution _ hr _ hn (hfits.init _ (List.prefix_refl _)), hn,
      SqlValue.plus_of_fits hlast]

/-- So is the one in memory. -/
theorem InMemoryClientDatabase.getPosition_exact (hfits : BalanceFits (rs.map Prod.fst) c s) :
    ((empty.updateAll rs).getPosition c s).toInt = balance (rs.map Prod.fst) c s := by
  induction rs using List.reverseRecOn with
  | nil =>
    show (empty.getPosition c s).toInt = balance [] c s
    rw [getPosition_empty, balance_nil]
    split <;> rfl
  | append_singleton rs r ih =>
    rw [List.map_append, List.map_singleton] at hfits ⊢
    have hr := hsym r (List.mem_append_right _ List.mem_cons_self)
    have hlast := hfits _ (List.prefix_refl _)
    rw [balance_snoc, ← ih (fun x hx => hsym x (List.mem_append_left _ hx)) hfits.init] at hlast ⊢
    rw [updateAll_snoc, getPosition_updateOnExecution _ hr]
    exact toInt_add_of_fits hlast

/-- The first record that takes the balance out of the range sets the two apart. -/
theorem balanceFits_of_same (hsame : ∀ rs', rs' <+: rs →
    (SQLiteClientDatabase.empty.updateAll rs').getPosition c s =
      ((InMemoryClientDatabase.empty.updateAll rs').getPosition c s).toInt) :
    BalanceFits (rs.map Prod.fst) c s := by
  induction rs using List.reverseRecOn with
  | nil =>
    intro rs' hpre
    rw [List.prefix_nil.mp hpre, balance_nil]
    split <;> decide
  | append_singleton rs r ih =>
    have hr := hsym r (List.mem_append_right _ List.mem_cons_self)
    have hsym' : ∀ x ∈ rs, x.1.symbolId ≠ 0 := fun x hx => hsym x (List.mem_append_left _ hx)
    have hfits := ih hsym' fun rs' hpre => hsame rs' (hpre.trans (List.prefix_append _ _))
    have hsql := SQLiteClientDatabase.cell_exact hsym' c s hfits
    have hmemory := InMemoryClientDatabase.getPosition_exact hsym' c s hfits
    rw [List.map_append, List.map_singleton]
    refine hfits.snoc ?_
    by_contra hno
    rw [balance_snoc, ← hmemory] at hno
    have hlast := hsame _ (List.prefix_refl _)
    rw [SQLiteClientDatabase.getPosition_eq, SQLiteClientDatabase.updateAll_snoc,
      SQLiteClientDatabase.cell_updateOnExecution _ hr _ hsql (hfits _ (List.prefix_refl _)), hsql, ← hmemory,
      InMemoryClientDatabase.updateAll_snoc, InMemoryClientDatabase.getPosition_updateOnExecution _ hr] at hlast
    exact SqlValue.columnInt64_plus_ne hno hlast

end Exact

/-- Both count a client's records. -/
theorem numbers_agree (rs : List (OrderResponse × Nat)) (c : UInt32) :
    ((SQLiteClientDatabase.empty.updateAll rs).getClientOSeqNum c).1 =
      (InMemoryClientDatabase.empty.updateAll rs).getClientOSeqNum c := by
  rw [SQLiteClientDatabase.getClientOSeqNum_fst]
  induction rs using List.reverseRecOn with
  | nil => rfl
  | append_singleton rs r ih =>
    rw [SQLiteClientDatabase.updateAll_snoc, InMemoryClientDatabase.updateAll_snoc,
      SQLiteClientDatabase.oSeqNum_updateOnExecution,
      InMemoryClientDatabase.getClientOSeqNum_updateOnExecution, ih]
    split
    · rename_i hc
      rw [← hc, ih]
    · rfl

/-! ## The databases side by side -/

/-- An order as SQLite has it, `None` if the row is not the client's. -/
def SQLiteClientDatabase.openOrder (db : SQLiteClientDatabase) (clientId orderId : UInt32) :
    Option OpenOrderRow :=
  (db.openOrders.lookup (combinedOrderId clientId orderId)).filter (·.clientId = clientId)

/-- The same positions. -/
def SamePositions (memory : InMemoryClientDatabase) (sqlite : SQLiteClientDatabase) : Prop :=
  ∀ c s, sqlite.getPosition c s = (memory.getPosition c s).toInt

/-- The same open orders, positions and numbers. -/
structure SameAccounts (memory : InMemoryClientDatabase) (sqlite : SQLiteClientDatabase) : Prop where
  orders : ∀ c o, (memory.openOrder c o).map OrderResponse.opened =
    (sqlite.openOrder c o).map OpenOrderRow.opened
  /-- A row of SQLite is that of an order of its client. -/
  rows : ∀ k row, sqlite.openOrders.lookup k = some row → ∃ o, k = combinedOrderId row.clientId o
  positions : SamePositions memory sqlite
  numbers : ∀ c, (sqlite.getClientOSeqNum c).1 = memory.getClientOSeqNum c

/-- Every order that is open at the end has, in its last record, the price it was entered or
replaced at. -/
def PricesKept (rs : List OrderResponse) : Prop :=
  ∀ k y, rs.foldl OpenLedger.record (fun _ => none) k = some y →
    rs.foldl Prices.record (fun _ => 0) k = y.p

/-- The row of an open order, with the price it was entered at. -/
theorem SQLiteClientDatabase.Shows.openOrder {db : SQLiteClientDatabase} {x : OpenLedger} {prices : Prices}
    (h : db.Shows x prices) (c o : UInt32) : (db.openOrder c o).map OpenOrderRow.opened =
      (x (combinedOrderId c o)).map fun y => { y with p := prices (combinedOrderId c o) } := by
  rw [← h.rows]
  unfold SQLiteClientDatabase.openOrder
  cases hrow : db.openOrders.lookup (combinedOrderId c o) with
  | none => rfl
  | some row =>
    have hc : row.clientId = c := (combinedOrderId_inj (h.keyed _ row hrow)).1.symm
    rw [Option.filter_some, if_pos (decide_eq_true hc)]

/-- Stores that hold the same ledger have the same orders where the prices are the same. -/
theorem orders_agree {memory : InMemoryClientDatabase} {sqlite : SQLiteClientDatabase} {x : OpenLedger}
    {prices : Prices} (hmemory : memory.Shows x) (hsqlite : sqlite.Shows x prices) :
    (∀ c o, (memory.openOrder c o).map OrderResponse.opened =
      (sqlite.openOrder c o).map OpenOrderRow.opened) ↔ ∀ k y, x k = some y → prices k = y.p := by
  refine ⟨fun h k y hy => ?_, fun h c o => ?_⟩
  · obtain ⟨row, hrow, -⟩ := hsqlite.lookup_row hy
    have hk := hsqlite.keyed k row hrow
    have hsame := h row.clientId (orderIdOf k)
    rw [hmemory, hsqlite.openOrder, ← hk, hy, Option.map_some] at hsame
    exact (congrArg OpenOrder.p (Option.some.inj hsame)).symm
  · rw [hmemory, hsqlite.openOrder]
    cases hy : x (combinedOrderId c o) with
    | none => rfl
    | some y => rw [Option.map_some, h _ y hy]

/-- At any point of a run on symbols other than 0, without `Market` orders and with no id used
for two symbols, the databases have the same accounts, and have had the same positions after
every record, if and only if every open order has kept its price and every balance has fitted
64 bits. -/
theorem backends_agree {cfgs : List Config} (hcfgs : ∀ c ∈ cfgs, c.symbolId ≠ 0) {owner : Nat → UInt32}
    {e : MatchingEngine} {out : List Emission} (h : MatchingEngine.Run (MatchingEngine.Apart owner) cfgs e out)
    {rs : List (OrderResponse × Nat)} (hrs : rs.map Prod.fst <+: out.map (·.resp)) :
    (SameAccounts (InMemoryClientDatabase.empty.updateAll rs) (SQLiteClientDatabase.empty.updateAll rs) ∧
        ∀ rs', rs' <+: rs → SamePositions (InMemoryClientDatabase.empty.updateAll rs')
          (SQLiteClientDatabase.empty.updateAll rs')) ↔
      PricesKept (rs.map Prod.fst) ∧ ∀ c s, BalanceFits (rs.map Prod.fst) c s := by
  have hmemory := InMemoryClientDatabase.shows_empty.updateAll rs
  have hsqlite := SQLiteClientDatabase.shows_empty.updateAll (h.taken.of_prefix hrs)
  have hsym : ∀ r ∈ rs, r.1.symbolId ≠ 0 := by
    intro r hr
    obtain ⟨c, hc, hs⟩ := h.symbol r.1 (hrs.subset (List.mem_map_of_mem hr))
    rw [hs]
    exact hcfgs c hc
  constructor
  · rintro ⟨hsame, hpositions⟩
    exact ⟨(orders_agree hmemory hsqlite).mp hsame.orders, fun c s =>
      balanceFits_of_same hsym c s fun rs' hpre => hpositions rs' hpre c s⟩
  · rintro ⟨hprices, hfits⟩
    have hpositions : ∀ rs', rs' <+: rs → SamePositions (InMemoryClientDatabase.empty.updateAll rs')
        (SQLiteClientDatabase.empty.updateAll rs') := by
      intro rs' hpre c s
      have hsym' : ∀ r ∈ rs', r.1.symbolId ≠ 0 := fun r hr => hsym r (hpre.subset hr)
      have hfits' : BalanceFits (rs'.map Prod.fst) c s :=
        fun xs hxs => hfits c s xs (hxs.trans (hpre.map Prod.fst))
      rw [SQLiteClientDatabase.getPosition_eq, SQLiteClientDatabase.cell_exact hsym' c s hfits',
        InMemoryClientDatabase.getPosition_exact hsym' c s hfits']
      rfl
    exact ⟨⟨(orders_agree hmemory hsqlite).mpr hprices, fun k row hrow => ⟨_, hsqlite.keyed k row hrow⟩,
      hpositions rs (List.prefix_refl _), numbers_agree rs⟩, hpositions⟩

/-- Records that are few and small fit. -/
theorem BalanceFits.of_small {rs : List OrderResponse} {m : Nat}
    (hsmall : ∀ r ∈ rs, r.assetDelta.toInt.natAbs ≤ m ∧ r.cashDelta.toInt.natAbs ≤ m)
    (hfew : 1000000 + rs.length * m < 2 ^ 63) (c s : UInt32) : BalanceFits rs c s := by
  have hbooked : ∀ r ∈ rs, (r.bookedFor c s).toInt.natAbs ≤ m := by
    intro r hr
    unfold OrderResponse.bookedFor OrderResponse.booked
    split
    · split
      · split
        · exact (hsmall r hr).2
        · split
          · exact (hsmall r hr).1
          · exact Nat.zero_le m
      · exact Nat.zero_le m
    · exact Nat.zero_le m
  have hsum : ∀ rs' : List OrderResponse, (∀ r ∈ rs', (r.bookedFor c s).toInt.natAbs ≤ m) →
      ((rs'.map fun r : OrderResponse => (r.bookedFor c s).toInt).sum).natAbs ≤ rs'.length * m := by
    intro rs' h
    induction rs' with
    | nil => exact Nat.zero_le _
    | cons r rs' ih =>
      have hr := h r List.mem_cons_self
      have hrest := ih fun x hx => h x (List.mem_cons_of_mem _ hx)
      rw [List.map_cons, List.sum_cons, List.length_cons, Nat.succ_mul]
      omega
  intro rs' hpre
  have hrs' := hsum rs' fun r hr => hbooked r (hpre.subset hr)
  have hlen := Nat.mul_le_mul_right m hpre.length_le
  unfold balance SqlValue.Fits
  constructor
  · split <;> omega
  · split <;> omega

/-- Prices are kept when each record finds the price of its order. -/
theorem pricesKept_iff (rs : List OrderResponse) : PricesKept rs ↔
    ∀ r ∈ rs, ∀ y ∈ rs.foldl OpenLedger.record (fun _ => none) r.combinedId,
      rs.foldl Prices.record (fun _ => 0) r.combinedId = y.p := by
  refine ⟨fun h r _ y hy => h _ y hy, fun h k y hy => ?_⟩
  by_cases hk : ∃ r ∈ rs, k = r.combinedId
  · obtain ⟨r, hr, rfl⟩ := hk
    exact h r hr y hy
  · rw [OpenLedger.foldl_other fun r hr heq => hk ⟨r, hr, heq⟩] at hy
    cases hy

/-- All trades of this run are at the price of both orders. -/
theorem tradingRun_agrees : ∃ e out,
    MatchingEngine.Run (MatchingEngine.Apart fun _ => 1) [sampleConfig] e out ∧ out.length = 9 ∧
      SameAccounts (InMemoryClientDatabase.empty.updateAll (out.map fun x => (x.resp, 0)))
        (SQLiteClientDatabase.empty.updateAll (out.map fun x => (x.resp, 0))) := by
  obtain ⟨e, out, hrun, hP⟩ := MatchingEngine.Run.of_serve (MatchingEngine.Apart fun _ => 1)
    [sampleConfig] id tradingRequests (by unfold MatchingEngine.Apart NotMarket; decide)
    (fun r => r.2.length = 9 ∧
      (∀ x ∈ r.2.map (·.resp), x.assetDelta.toInt.natAbs ≤ 1000 ∧ x.cashDelta.toInt.natAbs ≤ 1000) ∧
      ∀ x ∈ r.2.map (·.resp),
        ∀ y ∈ (r.2.map (·.resp)).foldl OpenLedger.record (fun _ => none) x.combinedId,
          (r.2.map (·.resp)).foldl Prices.record (fun _ => 0) x.combinedId = y.p)
    (by decide +kernel)
  obtain ⟨hlen, hsmall, hprices⟩ := of_decide_eq_true hP
  have hrs : (out.map fun x => (x.resp, 0)).map Prod.fst = out.map (·.resp) := List.map_map
  refine ⟨e, out, hrun, hlen, ((backends_agree (by decide) hrun (by rw [hrs])).mpr ?_).1⟩
  rw [hrs]
  refine ⟨(pricesKept_iff _).mpr hprices, BalanceFits.of_small hsmall ?_⟩
  rw [List.length_map, hlen]
  decide

/-- Client 1 sells 4 at 20, and client 2 buys 9 at 25: what is left of the second order rests
at 25, and SQLite has it at 20. -/
theorem better_fill_disagrees : ∃ e out,
    MatchingEngine.Run (MatchingEngine.Apart fun _ => 1) [sampleConfig] e out ∧
      ¬ SameAccounts (InMemoryClientDatabase.empty.updateAll (out.map fun x => (x.resp, 0)))
        (SQLiteClientDatabase.empty.updateAll (out.map fun x => (x.resp, 0))) := by
  obtain ⟨e, out, hrun, hP⟩ := MatchingEngine.Run.of_serve (MatchingEngine.Apart fun _ => 1)
    [sampleConfig] id
    [⟨.new, 1, 1, 1, 1, .sell, .limit, 20, 4, 0, 0⟩, ⟨.new, 2, 2, 2, 1, .buy, .limit, 25, 9, 0, 0⟩]
    (by unfold MatchingEngine.Apart NotMarket; decide)
    (fun r => ((InMemoryClientDatabase.empty.updateAll (r.2.map fun x => (x.resp, 0))).openOrder 2 2).map
        OrderResponse.opened = some ⟨.buy, 25, 9, 5⟩ ∧
      ((SQLiteClientDatabase.empty.updateAll (r.2.map fun x => (x.resp, 0))).openOrder 2 2).map
        OpenOrderRow.opened = some ⟨.buy, 20, 9, 5⟩)
    (by decide +kernel)
  obtain ⟨hmemory, hsqlite⟩ := of_decide_eq_true hP
  refine ⟨e, out, hrun, fun hsame => ?_⟩
  have horder := hsame.orders 2 2
  rw [hmemory, hsqlite] at horder
  exact absurd horder (by decide)

end Exchange
