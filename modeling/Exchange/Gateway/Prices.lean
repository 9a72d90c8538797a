import Exchange.Book.Named
import Exchange.Gateway.Symbols

/-!
# The prices the server and its clients accept

A row of the symbol table becomes the book of a matching engine (`main` of `matching-engine.cpp`) and
the answer of the public data service, by which `validate_price` of `src/TradingClientBase.cpp`
judges a price. The two tests differ. The client takes the multiples of the step from the lowest
price to the highest; `price_invalid` asks for an index, and takes every price from the lowest to
less than two steps above the highest. `accept_alike_iff` is the set of prices on which they agree.

A price that is accepted may still lead out of the price array. By then it has been acknowledged:
what is said here of a request is that it is not refused.
-/

namespace Exchange

/-! ## Requests that are refused -/

/-- The answer is one `Rejected` record, and the book is as it was. -/
def State.Rejects (st : State) (req : OrderRequest) : Prop :=
  ∃ qRem code, st.processRequest req = some (st.reject req qRem code)

/-- What comes after another acknowledgement is no refusal. -/
theorem Trades.not_reject {st : State} {b : OrderBook} (hkeep : Keeps st.book b)
    (hmode : st.book.recoverMode = false) {e : ExecType} (he : e ≠ .rejected) {combined execId : Nat}
    {side : Side} {p : Int} {q qRem qRem' : Nat} {code code' : RejectCode} {req : OrderRequest}
    (h : Trades (State.sendResponse { st with book := b } e combined execId side p q qRem code)
      (st.reject req qRem' code')) : False := by
  obtain ⟨rs, hrest, -⟩ := h
  have hsent := ((Emits.silent st st.gen hkeep.cfg hkeep.mode).trans
    (Emits.send { st with book := b } e combined execId side p q qRem code)).trans hrest
  have hrefusal := Emits.send st .rejected req.combinedId req.execId req.side req.p req.q qRem' code'
  have hlog := List.append_cancel_left (hrefusal.log.symm.trans hsent.log)
  rw [hmode] at hlog
  have hfirst := congrArg (fun rs => rs.head?.map OrderResponse.execType) hlog
  exact he (Option.some.inj hfirst).symm

section Requests

variable {st : State} {req : OrderRequest}

/-- A new limit order that nothing but its price can be refused for. -/
structure NewLimit (st : State) (req : OrderRequest) : Prop where
  action : req.action = .new
  type : req.type = .limit
  fresh : st.book.activeOrders req.combinedId = none
  pos : 1 ≤ req.q
  max : req.q ≤ globalMaxQty

/-- A new limit order is rejected for its price only. -/
theorem NewLimit.rejects_iff (h : NewLimit st req) (hmode : st.book.recoverMode = false) :
    st.Rejects req ↔ st.book.cfg.priceInvalid req.p ≠ 0 ∨ req.p ≤ 0 := by
  have hrun : st.processRequest req = if st.book.cfg.priceInvalid req.p ≠ 0 then
      some (st.reject req 0 .priceInvalid) else st.handleNewOrder req := by
    unfold State.processRequest
    rw [h.action]
    dsimp only
    rw [h.type]
    simp only [ne_eq, reduceCtorEq, not_false_iff, true_and]
  have hnew : st.handleNewOrder req = if req.p ≤ 0 then some (st.reject req 0 .priceInvalid) else
      (State.sendResponse { st with book := st.book.allocate (State.createOrder req) } .new req.combinedId
        req.execId req.side req.p req.q req.q .none).matchTaker st.book.nextOrder req.side
        (State.newIndex st.book.cfg req) := by
    have hq : ¬ (req.q = 0 ∨ globalMaxQty < req.q) := by
      have hpos := h.pos
      have hmax := h.max
      omega
    unfold State.handleNewOrder
    rw [h.fresh, h.type]
    simp only [Option.isSome_none, Bool.false_eq_true, if_false, and_true, if_neg hq, State.sendResponse_book]
    rfl
  by_cases hvalid : st.book.cfg.priceInvalid req.p = 0
  · rw [if_neg (not_not.mpr hvalid), hnew] at hrun
    by_cases hp : req.p ≤ 0
    · rw [if_pos hp] at hrun
      exact ⟨fun _ => Or.inr hp, fun _ => ⟨_, _, hrun⟩⟩
    · rw [if_neg hp] at hrun
      refine ⟨fun ⟨qRem, code, hreject⟩ => ?_, fun hor => absurd hor (not_or.mpr ⟨not_not.mpr hvalid, hp⟩)⟩
      have htrades := matchTaker_only_trades (hrun.symm.trans hreject)
      exact (Trades.not_reject (b := st.book.allocate (State.createOrder req)) (e := .new) ⟨rfl, rfl⟩ hmode
        ExecType.noConfusion htrades).elim
  · rw [if_pos hvalid] at hrun
    exact ⟨fun _ => Or.inl hvalid, fun _ => ⟨_, _, hrun⟩⟩

/-- A replacement with a new price that its quantity is no reason to refuse. -/
structure Repriced (st : State) (req : OrderRequest) : Prop where
  action : req.action = .modify
  price : req.p ≠ 0
  max : req.q ≤ globalMaxQty
  order : ∃ ptr o pl, st.book.activeOrders req.combinedId = some ptr ∧ st.book.orders ptr = some o ∧
    o.priceLevel = some pl ∧ o.executed ≤ req.newQty o

theorem Repriced.rejects_iff (h : Repriced st req) (hmode : st.book.recoverMode = false) :
    st.Rejects req ↔ st.book.cfg.priceInvalid req.p ≠ 0 := by
  obtain ⟨ptr, o, pl, hptr, ho, hpl, hexec⟩ := h.order
  have hrun : st.processRequest req = if st.book.cfg.priceInvalid req.p ≠ 0 then
      some (st.reject req o.qtyRemaining .priceInvalid) else
      st.replaceOrder req ptr o pl (st.book.cfg.priceToIndex req.p) (req.newQty o) := by
    unfold State.processRequest
    rw [h.action]
    dsimp only
    unfold State.handleModifyOrder OrderRequest.newQty
    rw [hptr]
    simp only [ho, hpl, Option.bind_eq_bind, Option.bind_some, if_neg (Nat.not_lt.mpr h.max), h.price,
      ne_eq, not_false_iff, true_and, if_true]
  by_cases hvalid : st.book.cfg.priceInvalid req.p = 0
  · rw [if_neg (not_not.mpr hvalid)] at hrun
    refine ⟨fun ⟨qRem, code, hreject⟩ => ?_, fun hne => absurd hvalid hne⟩
    have htrades := replaceOrder_only_trades (Nat.not_lt.mpr hexec) (hrun.symm.trans hreject)
    exact (Trades.not_reject (b := st.book) (e := .replaced) ⟨rfl, rfl⟩ hmode ExecType.noConfusion
      htrades).elim
  · rw [if_pos hvalid] at hrun
    exact ⟨fun _ => hvalid, fun _ => ⟨_, _, hrun⟩⟩

end Requests

end Exchange

namespace Exchange.Gateway

/-! ## Both tests -/

/-- `table SymbolInfo`, as far as the client reads it. -/
structure SymbolInfo where
  priceMinStep : Int
  priceMin : Int
  priceMax : Int
  deriving DecidableEq, Repr

namespace DbSymbolInfo

/-- The answer of `public-data.cpp`. -/
def published (info : DbSymbolInfo) : SymbolInfo where
  priceMinStep := info.minStep
  priceMin := info.minPrice
  priceMax := info.maxPrice

/-- `max_price_levels` of `matching-engine.cpp`. -/
def maxPriceLevels (info : DbSymbolInfo) : Nat :=
  (((info.maxPrice - info.minPrice).tdiv info.minStep + 1) % 2 ^ 64).toNat

/-- The book of `matching-engine.cpp`, unless its constructor throws. -/
def bookConfig (info : DbSymbolInfo) (symbolId : UInt32) : Option Config :=
  if h : 0 < info.minStep ∧ 0 < info.maxPriceLevels ∧ info.maxPriceLevels < 2 ^ 63 then
    some
      { symbolId := symbolId
        minStep := info.minStep
        priceIndexOffset := info.minPrice.tdiv info.minStep
        maxPriceLevels := info.maxPriceLevels
        minStep_pos := h.1
        levels_pos := h.2.1
        levels_lt := h.2.2 }
  else none

end DbSymbolInfo

/-- `validate_price`, with its message. -/
def validatePrice (symbolsInfo : UInt32 → Option SymbolInfo) (symbolId : UInt32) (p : Int) :
    Except String Unit :=
  match symbolsInfo symbolId with
  | none => .error ("Symbol " ++ toString symbolId ++ " info not found")
  | some info =>
    if p < info.priceMin ∨ info.priceMax < p then
      .error ("Price " ++ toString p ++ " out of bounds [" ++ toString info.priceMin ++ ", " ++
        toString info.priceMax ++ "]")
    else if 0 < info.priceMinStep ∧ p.tmod info.priceMinStep ≠ 0 then
      .error ("Price " ++ toString p ++ " is not a multiple of step size " ++
        toString info.priceMinStep)
    else .ok ()

/-- A row as it should be: the bounds are positive 64-bit multiples of the step, in order. -/
structure DbSymbolInfo.Regular (info : DbSymbolInfo) : Prop where
  step : 0 < info.minStep
  pos : 0 < info.minPrice
  lowest : info.minStep ∣ info.minPrice
  highest : info.minStep ∣ info.maxPrice
  le : info.minPrice ≤ info.maxPrice
  word : info.maxPrice < 2 ^ 63

/-- The book of such a row, in the steps from zero to its bounds. -/
theorem DbSymbolInfo.Regular.book {info : DbSymbolInfo} (h : info.Regular) (sid : UInt32) :
    ∃ c, info.bookConfig sid = some c ∧ c.minStep = info.minStep ∧ 0 < c.priceIndexOffset ∧
      c.priceIndexOffset * info.minStep = info.minPrice ∧
      (c.priceIndexOffset + c.maxPriceLevels - 1) * info.minStep = info.maxPrice := by
  obtain ⟨lo, hlo⟩ := h.lowest
  obtain ⟨hi, hhi⟩ := h.highest
  have hstep := h.step
  have hstep' : info.minStep ≠ 0 := by omega
  have hoff : info.minPrice.tdiv info.minStep = lo := by rw [hlo, Int.mul_tdiv_cancel_left _ hstep']
  have hspan : (info.maxPrice - info.minPrice).tdiv info.minStep = hi - lo := by
    rw [hlo, hhi, ← Int.mul_sub, Int.mul_tdiv_cancel_left _ hstep']
  have hpos : 0 < lo := by
    have hprod := h.pos
    rw [hlo] at hprod
    exact Int.pos_of_mul_pos_right hprod hstep
  have hle : lo ≤ hi := by
    have hprod := h.le
    rw [hlo, hhi] at hprod
    exact Int.le_of_mul_le_mul_left hprod hstep
  have hhi' : hi ≤ info.maxPrice := by
    have hprod := Int.mul_le_mul_of_nonneg_right (show 1 ≤ info.minStep from hstep) (show 0 ≤ hi by omega)
    rw [Int.one_mul, ← hhi] at hprod
    exact hprod
  have hlevels : (info.maxPriceLevels : Int) = hi - lo + 1 := by
    have hword := h.word
    unfold DbSymbolInfo.maxPriceLevels
    rw [hspan]
    omega
  have hchecks : 0 < info.minStep ∧ 0 < info.maxPriceLevels ∧ info.maxPriceLevels < 2 ^ 63 := by
    have hword := h.word
    omega
  refine ⟨_, dif_pos hchecks, rfl, ?_⟩
  dsimp only
  rw [hoff, hlevels]
  refine ⟨hpos, by rw [hlo, Int.mul_comm], ?_⟩
  rw [hhi, Int.mul_comm]
  congr 1
  omega

/-- The prices `price_invalid` lets through. -/
theorem priceInvalid_iff {info : DbSymbolInfo} {c : Config} (h : info.Regular) (hstep : c.minStep = info.minStep)
    (hpos : 0 < c.priceIndexOffset) (hmin : c.priceIndexOffset * info.minStep = info.minPrice)
    (hmax : (c.priceIndexOffset + c.maxPriceLevels - 1) * info.minStep = info.maxPrice) (p : Int) :
    c.priceInvalid p = 0 ↔ info.minPrice ≤ p ∧ p < info.maxPrice + 2 * info.minStep := by
  have hs := h.step
  have hp := h.pos
  have hle := h.le
  -- the index of a negative price is that of none of the levels
  have hneg : p < 0 → p.tdiv info.minStep ≤ 0 := by
    intro hneg
    have hquot := Int.tdiv_nonneg (show 0 ≤ -p by omega) hs.le
    rw [Int.neg_tdiv] at hquot
    omega
  have hlow : p.tdiv info.minStep < c.priceIndexOffset ↔ p < info.minPrice := by
    rcases Int.lt_or_le p 0 with hp0 | hp0
    · have hquot := hneg hp0
      constructor
      · omega
      · omega
    · rw [Int.tdiv_eq_ediv_of_nonneg hp0, Int.ediv_lt_iff_lt_mul hs, hmin]
  have hhigh : c.priceIndexOffset + c.maxPriceLevels < p.tdiv info.minStep ↔
      info.maxPrice + 2 * info.minStep ≤ p := by
    rcases Int.lt_or_le p 0 with hp0 | hp0
    · have hquot := hneg hp0
      constructor
      · omega
      · omega
    · have hbound : (c.priceIndexOffset + c.maxPriceLevels + 1) * info.minStep =
          info.maxPrice + 2 * info.minStep := by
        rw [← hmax, ← Int.add_mul]
        congr 1
        omega
      rw [Int.tdiv_eq_ediv_of_nonneg hp0, ← hbound, ← Int.le_ediv_iff_mul_le hs]
      exact Int.lt_iff_add_one_le
  unfold Config.priceInvalid
  rw [hstep]
  split
  · rename_i hlt
    have hlt := hlow.mp hlt
    constructor
    · intro hone
      cases hone
    · omega
  · rename_i hge
    have hge : ¬ p < info.minPrice := fun hlt => hge (hlow.mpr hlt)
    split
    · rename_i hlt
      have hlt := hhigh.mp hlt
      constructor
      · intro hone
        cases hone
      · omega
    · rename_i hle
      have hle : ¬ info.maxPrice + 2 * info.minStep ≤ p := fun hlt => hle (hhigh.mpr hlt)
      refine ⟨fun _ => by omega, fun _ => rfl⟩

/-- The prices `validate_price` accepts. -/
theorem validatePrice_iff {info : DbSymbolInfo} (h : info.Regular) {symbolsInfo : UInt32 → Option SymbolInfo}
    {sid : UInt32} (hinfo : symbolsInfo sid = some info.published) (p : Int) :
    validatePrice symbolsInfo sid p = .ok () ↔
      info.minPrice ≤ p ∧ p ≤ info.maxPrice ∧ info.minStep ∣ p := by
  unfold validatePrice
  rw [hinfo]
  dsimp only [DbSymbolInfo.published]
  rw [Int.dvd_iff_tmod_eq_zero]
  have hstep := h.step
  split
  · constructor
    · intro he
      cases he
    · omega
  · split
    · constructor
      · intro he
        cases he
      · omega
    · constructor
      · omega
      · exact fun _ => rfl

/-- The prices on which the server and its clients agree. -/
def DbSymbolInfo.Agreed (info : DbSymbolInfo) (p : Int) : Prop :=
  p < info.minPrice ∨ info.maxPrice + 2 * info.minStep ≤ p ∨ (p ≤ info.maxPrice ∧ info.minStep ∣ p)

/-- A new order or a replacement is accepted at just the prices the client accepts, if the price is
one of these. -/
theorem accept_alike_iff {info : DbSymbolInfo} (h : info.Regular) (symbolsInfo : UInt32 → Option SymbolInfo)
    (sid : UInt32) (hinfo : symbolsInfo sid = some info.published) :
    ∃ c, info.bookConfig sid = some c ∧ ∀ st : State, st.book.cfg = c → st.book.recoverMode = false →
      ∀ req, NewLimit st req ∨ Repriced st req →
        ((¬ st.Rejects req ↔ validatePrice symbolsInfo sid req.p = .ok ()) ↔ info.Agreed req.p) := by
  obtain ⟨c, hc, hstep, hoff, hmin, hmax⟩ := h.book sid
  refine ⟨c, hc, fun st hcfg hmode req hreq => ?_⟩
  have hvalid := priceInvalid_iff h hstep hoff hmin hmax req.p
  have hpos := h.pos
  have hrejects : ¬ st.Rejects req ↔
      info.minPrice ≤ req.p ∧ req.p < info.maxPrice + 2 * info.minStep := by
    rcases hreq with hnew | hmodify
    · rw [hnew.rejects_iff hmode, hcfg, ← hvalid, not_or, not_not]
      refine ⟨fun hboth => hboth.1, fun hv => ⟨hv, ?_⟩⟩
      have hlow := (hvalid.mp hv).1
      omega
    · rw [hmodify.rejects_iff hmode, hcfg, ← hvalid, not_not]
  rw [hrejects, validatePrice_iff h hinfo]
  have hs := h.step
  unfold DbSymbolInfo.Agreed
  constructor
  · intro hiff
    by_cases hlow : req.p < info.minPrice
    · exact Or.inl hlow
    by_cases hhigh : info.maxPrice + 2 * info.minStep ≤ req.p
    · exact Or.inr (Or.inl hhigh)
    · exact Or.inr (Or.inr (hiff.mp ⟨by omega, by omega⟩).2)
  · rintro (hlow | hhigh | ⟨hle, hdvd⟩)
    · exact ⟨fun hb => by omega, fun hb => by omega⟩
    · exact ⟨fun hb => by omega, fun hb => by omega⟩
    · exact ⟨fun hb => ⟨hb.1, hle, hdvd⟩, fun hb => ⟨hb.1, by omega⟩⟩

/-- The row of the sample book: prices 5, 10, …, 40. -/
def sampleInfo : DbSymbolInfo := { name := "SAMPLE", minStep := 5, minPrice := 5, maxPrice := 40 }

/-- The sample row has a step, and bounds on it. -/
theorem sampleInfo_regular : sampleInfo.Regular :=
  ⟨by decide, by decide, by decide, by decide, by decide, by decide⟩

/-- The orders of the sample book can be tested on an empty one. -/
theorem newLimit_fresh (c : Config) (side : Side) {p : Int} (hp : p ≠ 0) :
    NewLimit ⟨.fresh c, id, []⟩ (sampleRequest .new 1 side p 7) :=
  ⟨rfl, if_neg hp, rfl, show 1 ≤ 7 by decide, show 7 ≤ globalMaxQty by decide⟩

/-- A bid at 20. -/
theorem sample_accepted : ∃ c, sampleInfo.bookConfig 1 = some c ∧
    ¬ (State.mk (.fresh c) id []).Rejects (sampleRequest .new 1 .buy 20 7) ∧
    validatePrice (fun _ => some sampleInfo.published) 1 20 = .ok () := by
  obtain ⟨c, hc, halike⟩ := accept_alike_iff sampleInfo_regular (fun _ => some sampleInfo.published) 1 rfl
  have hiff := halike ⟨.fresh c, id, []⟩ rfl rfl _ (Or.inl (newLimit_fresh c .buy (p := 20) (by decide)))
  have hagreed : sampleInfo.Agreed 20 := Or.inr (Or.inr ⟨by decide, by decide⟩)
  exact ⟨c, hc, (hiff.mpr hagreed).mpr rfl, rfl⟩

/-- Offers at 22 and 45: the server takes both, and the client neither. -/
theorem client_stricter : sampleInfo.Regular ∧ sampleInfo.bookConfig 1 = some sampleConfig ∧
    (¬ (State.mk (.fresh sampleConfig) id []).Rejects (sampleRequest .new 1 .sell 22 7) ∧
      validatePrice (fun _ => some sampleInfo.published) 1 22 =
        .error "Price 22 is not a multiple of step size 5") ∧
    (¬ (State.mk (.fresh sampleConfig) id []).Rejects (sampleRequest .new 1 .sell 45 7) ∧
      validatePrice (fun _ => some sampleInfo.published) 1 45 =
        .error "Price 45 out of bounds [5, 40]") := by
  refine ⟨sampleInfo_regular, rfl, ⟨?_, by decide +kernel⟩, ?_, by decide +kernel⟩
  · rw [(newLimit_fresh sampleConfig .sell (by decide)).rejects_iff rfl]
    decide
  · rw [(newLimit_fresh sampleConfig .sell (by decide)).rejects_iff rfl]
    decide

end Exchange.Gateway
