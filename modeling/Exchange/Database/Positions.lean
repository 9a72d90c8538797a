import Mathlib.Algebra.BigOperators.Group.List.Basic
import Mathlib.Data.BitVec
import Exchange.Book.Stream
import Exchange.Database.Model
import Exchange.Engine.Runs

/-!
# Positions add up

Every trade of the engine is two records, one for each side, with the same price and
quantity; `update_on_execution` books the one as the opposite of the other. A replacement
that leaves nothing sends a `Fill` of its own, with quantity 0, and that books nothing.
So what the records of a request book adds up to nothing, whoever the parties are
(`Settled`), and the positions add up to nothing because they are what was booked.

All sums are of 64-bit words.
-/

namespace Exchange

namespace OrderResponse

/-- `asset_delta`. -/
def assetDelta (r : OrderResponse) : BitVec 64 :=
  if r.side = .buy then BitVec.ofNat 64 r.q else -BitVec.ofNat 64 r.q

/-- `cash_delta`. -/
def cashDelta (r : OrderResponse) : BitVec 64 :=
  if r.side = .buy then -(BitVec.ofInt 64 r.p * BitVec.ofNat 64 r.q)
  else BitVec.ofInt 64 r.p * BitVec.ofNat 64 r.q

/-- What a record books under a symbol, symbol 0 being the cash. -/
def booked (r : OrderResponse) (symbolId : UInt32) : BitVec 64 :=
  if r.isTrade then
    if symbolId = 0 then r.cashDelta else if symbolId = r.symbolId then r.assetDelta else 0
  else 0

/-- Of which this is for one client. -/
def bookedFor (r : OrderResponse) (clientId symbolId : UInt32) : BitVec 64 :=
  if r.clientId = clientId then r.booked symbolId else 0

/-- What `update_on_execution` books for a client under a symbol: the asset, and the cash under 0,
which may be the same. -/
def net (r : OrderResponse) (clientId symbolId : UInt32) : BitVec 64 :=
  if r.isTrade ∧ r.clientId = clientId then
    (if symbolId = r.symbolId then r.assetDelta else 0) + if symbolId = 0 then r.cashDelta else 0
  else 0

/-- An asset is not the cash. -/
theorem net_eq_bookedFor {r : OrderResponse} (hsym : r.symbolId ≠ 0) (clientId symbolId : UInt32) :
    r.net clientId symbolId = r.bookedFor clientId symbolId := by
  unfold net bookedFor booked
  by_cases hc : r.clientId = clientId
  · by_cases ht : r.isTrade = true
    · rw [if_pos ⟨ht, hc⟩, if_pos hc, if_pos ht]
      by_cases hzero : symbolId = 0
      · rw [if_pos hzero, if_pos hzero, if_neg, zero_add]
        exact fun h => hsym (h.symm.trans hzero)
      · rw [if_neg hzero, if_neg hzero, add_zero]
    · rw [if_neg fun h => ht h.1, if_pos hc, if_neg ht]
  · rw [if_neg fun h => hc h.2, if_neg hc]

end OrderResponse

/-! ## Records that add up -/

/-- The two records of a trade. -/
structure Mirrored (r r' : OrderResponse) : Prop where
  trades : r.isTrade = true ∧ r'.isTrade = true
  symbolId : r'.symbolId = r.symbolId
  p : r'.p = r.p
  q : r'.q = r.q
  side : r'.side = .buy ↔ r.side ≠ .buy

/-- Trades, two records each, and records that book nothing. -/
inductive Settled : List OrderResponse → Prop
  | nil : Settled []
  | trade {r r' : OrderResponse} {rs : List OrderResponse} (h : Mirrored r r') (hrs : Settled rs) :
      Settled (r :: r' :: rs)
  | idle {r : OrderResponse} {rs : List OrderResponse} (h : r.isTrade = true → r.q = 0)
      (hrs : Settled rs) : Settled (r :: rs)

namespace Settled

/-- One stretch of trades after another. -/
theorem append {rs rs' : List OrderResponse} (h : Settled rs) (h' : Settled rs') :
    Settled (rs ++ rs') := by
  induction h with
  | nil => exact h'
  | trade hm _ ih => exact .trade hm ih
  | idle hr _ ih => exact .idle hr ih

/-- A record that is no trade settles nothing. -/
theorem single {r : OrderResponse} (h : r.isTrade = true → r.q = 0) : Settled [r] := .idle h .nil

end Settled

/-- The two sides of a trade cancel. -/
theorem Mirrored.booked {r r' : OrderResponse} (h : Mirrored r r') (symbolId : UInt32) :
    r.booked symbolId + r'.booked symbolId = 0 := by
  unfold OrderResponse.booked OrderResponse.cashDelta OrderResponse.assetDelta
  rw [if_pos h.trades.1, if_pos h.trades.2, h.symbolId, h.p, h.q]
  by_cases hbuy : r.side = .buy
  · have hsell : ¬ r'.side = .buy := fun hb => h.side.mp hb hbuy
    rw [if_pos hbuy, if_pos hbuy, if_neg hsell, if_neg hsell]
    split
    · exact neg_add_cancel _
    · split
      · exact add_neg_cancel _
      · exact add_zero _
  · have hbuy' : r'.side = .buy := h.side.mpr hbuy
    rw [if_neg hbuy, if_neg hbuy, if_pos hbuy', if_pos hbuy']
    split
    · exact add_neg_cancel _
    · split
      · exact neg_add_cancel _
      · exact add_zero _

/-- What is no trade is booked at nothing. -/
theorem booked_idle {r : OrderResponse} (h : r.isTrade = true → r.q = 0) (symbolId : UInt32) :
    r.booked symbolId = 0 := by
  unfold OrderResponse.booked OrderResponse.cashDelta OrderResponse.assetDelta
  split
  · rename_i ht
    rw [h ht]
    simp
  · rfl

/-- What settled records book adds up to nothing. -/
theorem Settled.sum_booked {rs : List OrderResponse} (h : Settled rs) (symbolId : UInt32) :
    (rs.map (·.booked symbolId)).sum = 0 := by
  induction h with
  | nil => rfl
  | trade hm _ ih =>
    rw [List.map_cons, List.map_cons, List.sum_cons, List.sum_cons, ← add_assoc, hm.booked, zero_add]
    exact ih
  | idle hr _ ih =>
    rw [List.map_cons, List.sum_cons, booked_idle hr, zero_add]
    exact ih

/-! ## The engine's records -/

section Engine

variable {c : Config} {a : Lob} {req : OrderRequest} {gen : Nat → Nat}

/-- The records of a trade, as `match` sends them. -/
theorem mirrored_trade (c : Config) (s : Slot) (id id' left left' x : Nat) (p : Int) (q : Nat) :
    Mirrored (c.response (State.fillType left) id x s.side p q left .none)
      (c.response (State.fillType left') id' x s.flip.side p q left' .none) := by
  refine ⟨⟨isTrade_iff.mpr (fillType_trade left), isTrade_iff.mpr (fillType_trade left')⟩, rfl, rfl,
    rfl, ?_⟩
  show s.flip.side = .buy ↔ s.side ≠ .buy
  cases s <;> decide

/-- All of a match: every fill is mirrored. -/
theorem Lob.Taking.settled {s : Slot} {idx : Nat} (gen : Nat → Nat) {t : Order} (h : a.Taking t) :
    Settled (a.execute c gen s t idx).recs := by
  refine execute_rule (P := fun _ _ rs _ => Settled rs) (fun _ _ => .nil) ?_ ?_ gen h
  · intro a t y ms rs b x ht hm hr _ hle hnext
    exact .trade (mirrored_trade c s _ _ _ 0 _ _ _) hnext
  · intro a t y ms x ht hm hr _ hlt
    have hpart : State.fillType (y.qtyRemaining - t.qtyRemaining) = .partialFill :=
      if_neg (by omega)
    have htrade := mirrored_trade c s t.orderId y.orderId 0 (y.qtyRemaining - t.qtyRemaining) x
      (c.plToPrice y.level) t.qtyRemaining
    rw [hpart] at htrade
    exact .trade htrade .nil

/-- An acknowledgement is no trade. -/
theorem idle_of_type {r : OrderResponse} {t : ExecType} (h : r.execType = t)
    (ht : t ≠ .fill ∧ t ≠ .partialFill) : r.isTrade = true → r.q = 0 := by
  intro htrade
  rcases isTrade_iff.mp htrade with he | he
  · exact absurd (h.symm.trans he) ht.1
  · exact absurd (h.symm.trans he) ht.2

/-- The records of a request. -/
theorem Lob.Outcome.settled (hok : a.Ok c) {ans : Answer} (hout : Lob.Outcome c gen a req ans) :
    Settled ans.recs := by
  have hreplaced : ∀ o, (replaceRecord c req o (req.target c o) (req.newQty o)).isTrade = true →
      (replaceRecord c req o (req.target c o) (req.newQty o)).q = 0 :=
    fun _ => idle_of_type (t := .replaced) rfl (by decide)
  cases hout with
  | rejected qRem code => exact .single (idle_of_type (t := .rejected) rfl (by decide))
  | entered _ hnone _ _ _ _ =>
    exact .idle (idle_of_type (t := .new) rfl (by decide)) ((Taking.of_new hok hnone).settled gen)
  | cancelled _ _ => exact .single (idle_of_type (t := .cancelled) rfl (by decide))
  | kept => exact .single (hreplaced _)
  | finished => exact .idle (hreplaced _) (.single fun _ => rfl)
  | @requeued s' o _ hfind _ _ _ _ =>
    exact .idle (hreplaced o) ((Taking.of_replaced hok (mem_of_find hfind).1 _).settled gen)
  | shrunk => exact .single (hreplaced _)

/-- The records of a run. -/
theorem MatchingEngine.Run.settled {K : OrderRequest → Prop} {cfgs : List Config} {e : MatchingEngine}
    {out : List Emission} (h : Run K cfgs e out) : Settled (out.map (·.resp)) := by
  induction h with
  | create gen => exact .nil
  | @step e e' out new req hrun _ hreq hpoll ih =>
    rw [List.map_append]
    refine ih.append ?_
    cases hrun.sound.stepped hreq hpoll with
    | unserved => exact .nil
    | @served b b' gen new hsym hcfg hlob hnew =>
      rw [hnew]
      exact (Lob.step_outcome b.cfg e.gen b.lob req).settled (hrun.sound.ok hsym)

end Engine

/-! ## The store -/

namespace InMemoryClientDatabase

variable (db : InMemoryClientDatabase)

/-- `getPosition`. -/
def getPosition (clientId symbolId : UInt32) : BitVec 64 :=
  ((db.clientPositions clientId).lookup symbolId).getD 0

/-- A client that is not there has the cash it starts with, and nothing else. -/
theorem getPosition_empty (clientId symbolId : UInt32) :
    empty.getPosition clientId symbolId = if symbolId = 0 then 1000000 else 0 := by
  show (newClientPositions.lookup symbolId).getD 0 = _
  unfold newClientPositions
  by_cases hone : symbolId = 1
  · rw [hone, AList.lookup_insert]
    rfl
  · rw [AList.lookup_insert_ne hone]
    by_cases hzero : symbolId = 0
    · rw [hzero, AList.lookup_insert]
      rfl
    · rw [AList.lookup_insert_ne hzero, if_neg hzero]
      rfl

/-- Open orders and positions do not meet. -/
theorem positions_updateOpenOrders (resp : OrderResponse) :
    (db.updateOpenOrders resp).positions = db.positions := by
  unfold updateOpenOrders
  dsimp only
  split
  · rfl
  · split
    · split <;> rfl
    · rfl

/-- Only a trade writes positions. -/
theorem positions_updateOnExecution (resp : OrderResponse) (logOffset : Nat) :
    (db.updateOnExecution resp logOffset).positions =
      if resp.isTrade then (db.applyTrade resp).positions else db.positions := by
  unfold updateOnExecution setLogOffset
  dsimp only
  rw [positions_updateOpenOrders]
  unfold OrderResponse.isTrade
  split
  · rfl
  · rfl

theorem lookup_addPosition (pos : AList fun _ : UInt32 => BitVec 64) (symbolId s : UInt32)
    (delta : BitVec 64) : ((addPosition pos symbolId delta).lookup s).getD 0 =
      (pos.lookup s).getD 0 + if s = symbolId then delta else 0 := by
  unfold addPosition
  by_cases hs : s = symbolId
  · rw [hs, AList.lookup_insert, if_pos rfl]
    rfl
  · rw [AList.lookup_insert_ne hs, if_neg hs, add_zero]

/-- Every record books its share, and nothing else. -/
theorem getPosition_net (resp : OrderResponse) (logOffset : Nat) (clientId symbolId : UInt32) :
    (db.updateOnExecution resp logOffset).getPosition clientId symbolId =
      db.getPosition clientId symbolId + resp.net clientId symbolId := by
  unfold getPosition clientPositions
  rw [positions_updateOnExecution]
  unfold OrderResponse.net
  by_cases ht : resp.isTrade = true
  · rw [if_pos ht]
    by_cases hc : resp.clientId = clientId
    · subst hc
      show ((((db.positions.insert resp.clientId (addPosition (addPosition
        (db.clientPositions resp.clientId) resp.symbolId resp.assetDelta) 0
          resp.cashDelta)).lookup resp.clientId).getD newClientPositions).lookup symbolId).getD 0 = _
      rw [AList.lookup_insert, if_pos ⟨ht, rfl⟩]
      show ((addPosition _ 0 _).lookup symbolId).getD 0 = _
      rw [lookup_addPosition, lookup_addPosition, add_assoc]
      rfl
    · rw [if_neg fun h => hc h.2, add_zero]
      show ((((db.positions.insert resp.clientId _).lookup clientId).getD _).lookup symbolId).getD 0 = _
      rw [AList.lookup_insert_ne (Ne.symm hc)]
  · rw [if_neg ht, if_neg fun h => ht h.1, add_zero]

theorem getPosition_updateOnExecution {resp : OrderResponse} (hsym : resp.symbolId ≠ 0) (logOffset : Nat)
    (clientId symbolId : UInt32) :
    (db.updateOnExecution resp logOffset).getPosition clientId symbolId =
      db.getPosition clientId symbolId + resp.bookedFor clientId symbolId := by
  rw [getPosition_net, OrderResponse.net_eq_bookedFor hsym]

/-- A trade makes its client known. -/
theorem mem_positions_updateOnExecution (resp : OrderResponse) (logOffset : Nat) (clientId : UInt32) :
    clientId ∈ (db.updateOnExecution resp logOffset).positions ↔
      clientId ∈ db.positions ∨ (resp.isTrade = true ∧ resp.clientId = clientId) := by
  rw [positions_updateOnExecution]
  by_cases ht : resp.isTrade = true
  · rw [if_pos ht]
    show clientId ∈ db.positions.insert resp.clientId _ ↔ _
    rw [AList.mem_insert]
    constructor
    · rintro (h | h)
      · exact Or.inr ⟨ht, h.symm⟩
      · exact Or.inl h
    · rintro (h | h)
      · exact Or.inr h
      · exact Or.inl h.2.symm
  · rw [if_neg ht]
    exact ⟨Or.inl, fun h => h.resolve_right fun h => ht h.1⟩

theorem getPosition_updateAll {rs : List (OrderResponse × Nat)} (hsym : ∀ r ∈ rs, r.1.symbolId ≠ 0)
    (clientId symbolId : UInt32) :
    (db.updateAll rs).getPosition clientId symbolId =
      db.getPosition clientId symbolId + (rs.map (·.1.bookedFor clientId symbolId)).sum := by
  induction rs generalizing db with
  | nil => exact (add_zero _).symm
  | cons r rs ih =>
    show (updateAll (db.updateOnExecution r.1 r.2) rs).getPosition clientId symbolId = _
    rw [ih _ fun x hx => hsym x (List.mem_cons_of_mem _ hx),
      getPosition_updateOnExecution db (hsym r List.mem_cons_self), List.map_cons, List.sum_cons,
      add_assoc]

/-- A client has positions once it has traded. -/
theorem mem_positions_updateAll (rs : List (OrderResponse × Nat)) (clientId : UInt32) :
    clientId ∈ (db.updateAll rs).positions ↔
      clientId ∈ db.positions ∨ ∃ r ∈ rs, r.1.isTrade = true ∧ r.1.clientId = clientId := by
  induction rs generalizing db with
  | nil => simp [updateAll]
  | cons r rs ih =>
    show clientId ∈ (updateAll (db.updateOnExecution r.1 r.2) rs).positions ↔ _
    rw [ih, mem_positions_updateOnExecution, or_assoc]
    simp only [List.mem_cons, exists_eq_or_imp]

end InMemoryClientDatabase

/-- A sum with one term that counts. -/
theorem sum_single {l : List UInt32} (hnodup : l.Nodup) {k : UInt32} (hk : k ∈ l) (x : BitVec 64) :
    (l.map fun c => if k = c then x else 0).sum = x := by
  induction l with
  | nil => exact absurd hk List.not_mem_nil
  | cons c l ih =>
    obtain ⟨hc, hnodup⟩ := List.nodup_cons.mp hnodup
    rw [List.map_cons, List.sum_cons]
    by_cases hkc : k = c
    · have hrest : ∀ y ∈ l.map fun c => if k = c then x else 0, y = 0 := by
        intro y hy
        obtain ⟨d, hd, rfl⟩ := List.mem_map.mp hy
        exact if_neg fun h : k = d => hc (hkc ▸ h ▸ hd)
      rw [if_pos hkc, List.sum_eq_zero hrest, add_zero]
    · rw [if_neg hkc, zero_add]
      exact ih hnodup ((List.mem_cons.mp hk).resolve_left hkc)

/-- What is booked for each of some clients adds up to all there is, if they are the parties. -/
theorem sum_bookedFor {clients : List UInt32} (hnodup : clients.Nodup) {rs : List OrderResponse}
    (hparties : ∀ r ∈ rs, r.isTrade = true → r.clientId ∈ clients) (symbolId : UInt32) :
    (clients.map fun c => (rs.map (·.bookedFor c symbolId)).sum).sum =
      (rs.map (·.booked symbolId)).sum := by
  induction rs with
  | nil =>
    simp
  | cons r rs ih =>
    have hone : (clients.map fun c => r.bookedFor c symbolId).sum = r.booked symbolId := by
      by_cases ht : r.isTrade = true
      · exact sum_single hnodup (hparties r List.mem_cons_self ht) _
      · have hzero : r.booked symbolId = 0 := if_neg ht
        unfold OrderResponse.bookedFor
        simp [hzero]
    simp only [List.map_cons, List.sum_cons]
    rw [List.sum_map_add, hone, ih fun x hx => hparties x (List.mem_cons_of_mem _ hx)]

/-! ## Runs -/

namespace MatchingEngine

/-- Every record bears the symbol of a book. -/
theorem Run.symbol {K : OrderRequest → Prop} {cfgs : List Config} {e : MatchingEngine}
    {out : List Emission} (h : Run K cfgs e out) :
    ∀ r ∈ out.map (·.resp), ∃ c ∈ cfgs, r.symbolId = c.symbolId := by
  induction h with
  | create gen => exact fun _ hr => absurd hr List.not_mem_nil
  | @step e e' out new req hrun _ hreq hpoll ih =>
    rw [List.map_append]
    intro r hr
    rcases List.mem_append.mp hr with hr | hr
    · exact ih r hr
    cases hrun.sound.stepped hreq hpoll with
    | unserved => exact absurd hr List.not_mem_nil
    | @served b b' gen new hsym hcfg hlob hnew =>
      rw [hnew] at hr
      exact ⟨b.cfg, (hrun.sound.cfg hsym).1, (Lob.step_outcome b.cfg e.gen b.lob req).symbol r hr⟩

end MatchingEngine

/-- The positions in a store add up. -/
structure InMemoryClientDatabase.AddsUp (db : InMemoryClientDatabase) (rs : List OrderResponse) :
    Prop where
  assets : ∀ s, s ≠ 0 → (db.positions.keys.map fun c => db.getPosition c s).sum = 0
  cash : (db.positions.keys.map fun c => db.getPosition c 0 - 1000000).sum = 0
  each : ∀ c s, s ≠ 0 → db.getPosition c s =
    ((rs.filter fun r => r.isTrade ∧ r.clientId = c ∧ r.symbolId = s).map (·.assetDelta)).sum

/-- A position is the signed sum of what was traded. -/
theorem sum_bookedFor_filter (rs : List OrderResponse) (c : UInt32) {s : UInt32} (hs : s ≠ 0) :
    (rs.map (·.bookedFor c s)).sum =
      ((rs.filter fun r => r.isTrade ∧ r.clientId = c ∧ r.symbolId = s).map (·.assetDelta)).sum := by
  induction rs with
  | nil => rfl
  | cons r rs ih =>
    rw [List.map_cons, List.sum_cons, ih]
    by_cases hr : r.isTrade = true ∧ r.clientId = c ∧ r.symbolId = s
    · have hone : r.bookedFor c s = r.assetDelta := by
        unfold OrderResponse.bookedFor OrderResponse.booked
        rw [if_pos hr.2.1, if_pos hr.1, if_neg hs, if_pos hr.2.2.symm]
      rw [List.filter_cons_of_pos (by simpa using hr), List.map_cons, List.sum_cons, hone]
    · have hzero : r.bookedFor c s = 0 := by
        unfold OrderResponse.bookedFor OrderResponse.booked
        rw [if_neg hs]
        split
        · rename_i hc
          split
          · rename_i ht
            exact if_neg fun hsym => hr ⟨ht, hc, hsym.symm⟩
          · rfl
        · rfl
      rw [List.filter_cons_of_neg (by simpa using hr), hzero, zero_add]

/-- At every request boundary of a run on symbols other than 0, the positions of a store that
has processed its records add up: those in a symbol to nothing, the cash to what every client
started with, and each is the signed sum of the client's trades. -/
theorem positions_conserved {cfgs : List Config} (hcfgs : ∀ c ∈ cfgs, c.symbolId ≠ 0)
    {e : MatchingEngine} {out : List Emission} (h : MatchingEngine.Run (fun _ => True) cfgs e out)
    (rs : List (OrderResponse × Nat)) (hrs : rs.map Prod.fst = out.map (·.resp)) :
    (InMemoryClientDatabase.empty.updateAll rs).AddsUp (out.map (·.resp)) := by
  have hsym : ∀ r ∈ rs, r.1.symbolId ≠ 0 := by
    intro r hr
    have hmem : r.1 ∈ out.map (·.resp) := hrs ▸ List.mem_map_of_mem hr
    obtain ⟨c, hc, hs⟩ := h.symbol r.1 hmem
    rw [hs]
    exact hcfgs c hc
  have hposition : ∀ c s, (InMemoryClientDatabase.empty.updateAll rs).getPosition c s =
      InMemoryClientDatabase.empty.getPosition c s + ((out.map (·.resp)).map (·.bookedFor c s)).sum := by
    intro c s
    rw [InMemoryClientDatabase.getPosition_updateAll _ hsym, ← hrs, List.map_map]
    rfl
  have htotal : ∀ s, ((InMemoryClientDatabase.empty.updateAll rs).positions.keys.map fun c =>
      ((out.map (·.resp)).map (·.bookedFor c s)).sum).sum = 0 := by
    intro s
    rw [sum_bookedFor (AList.keys_nodup _) _ s, h.settled.sum_booked]
    intro r hr ht
    rw [← hrs] at hr
    obtain ⟨x, hx, rfl⟩ := List.mem_map.mp hr
    refine AList.mem_keys.mp ((InMemoryClientDatabase.mem_positions_updateAll _ rs _).mpr ?_)
    exact Or.inr ⟨x, hx, ht, rfl⟩
  have hstart : ∀ c s, s ≠ 0 → InMemoryClientDatabase.empty.getPosition c s = 0 := by
    intro c s hs
    rw [InMemoryClientDatabase.getPosition_empty, if_neg hs]
  refine ⟨fun s hs => ?_, ?_, fun c s hs => ?_⟩
  · rw [← htotal s]
    refine congrArg List.sum (List.map_congr_left fun c _ => ?_)
    rw [hposition, hstart c s hs, zero_add]
  · rw [← htotal 0]
    refine congrArg List.sum (List.map_congr_left fun c _ => ?_)
    rw [hposition]
    exact add_sub_cancel_left _ _
  · rw [hposition, hstart c s hs, zero_add, sum_bookedFor_filter _ c hs]

/-- Client 1 sells to client 2 and to itself, and ends what is left by a replacement. -/
def tradingRequests : List OrderRequest :=
  [⟨.new, 1, 1, 1, 1, .sell, .limit, 20, 9, 0, 0⟩, ⟨.new, 2, 1, 2, 1, .buy, .limit, 20, 4, 0, 0⟩,
    ⟨.new, 3, 2, 1, 1, .buy, .limit, 20, 2, 0, 0⟩, ⟨.modify, 4, 1, 1, 1, .sell, .limit, 0, 6, 0, 0⟩]

/-- The sample run, whose positions add up. -/
theorem sample_positions : ∃ e out, MatchingEngine.Run (fun _ => True) [sampleConfig] e out ∧
    out.length = 9 ∧ (InMemoryClientDatabase.empty.updateAll
      ((out.map (·.resp)).map fun r => (r, 0))).AddsUp (out.map (·.resp)) := by
  obtain ⟨e, out, hrun, hlen⟩ := MatchingEngine.Run.of_serve (fun _ => True) [sampleConfig] id
    tradingRequests (fun _ _ => trivial) (fun r => r.2.length = 9) (by decide +kernel)
  refine ⟨e, out, hrun, of_decide_eq_true hlen, positions_conserved (by decide) hrun _ ?_⟩
  rw [List.map_map]
  exact List.map_id _

end Exchange
