import Exchange.Book.Blind
import Exchange.Book.Images

/-!
# A snapshot, written and loaded

`take_snapshot` at a request boundary and `load_snapshot` into a book that was just built give
the book again (`snapshot_round_trip`), but for where its orders lie in memory. `Inv.loads` has
it for the sides; what is added here is that the sides, and the invariant, say every field of a
book, and that two books with the same sides go on alike.

What a book sends depends on its sides, on the request and on the numbers `match` draws, and
these only show as the `exec_id` of trades.
-/

namespace Exchange

/-! ## Equal books -/

/-- The same book, but for where its orders lie in memory: the orders under each id and in each
queue, the levels, their counters, `best_levels_`, and the levels' `worse` and `better`. -/
structure EqualBook (b b' : OrderBook) : Prop where
  cfg : b'.cfg = b.cfg
  orders : ∀ id, (b'.activeOrders id).bind b'.orders = (b.activeOrders id).bind b.orders
  levels : b'.activeLevels = b.activeLevels
  best : b'.bestLevels = b.bestLevels
  worse : ∀ s, ∀ i ∈ b.activeLevels s, b'.chain.next i = b.chain.next i
  better : ∀ s, ∀ i ∈ b.activeLevels s, b'.chain.prev i = b.chain.prev i
  counters : ∀ i < b.cfg.maxPriceLevels, b'.priceArray i = b.priceArray i
  queues : ∀ i < b.cfg.maxPriceLevels, (b'.queueOf i).map b'.orders = (b.queueOf i).map b.orders

/-- The order under an id is the one the sides have. -/
theorem Inv.order_under {b : OrderBook} {q : Nat → List Nat} (h : Inv b q) (id : Nat) :
    (b.activeOrders id).bind b.orders = (b.lob.find id).map Prod.snd := by
  rw [h.lob_eq]
  cases hact : b.activeOrders id with
  | none =>
    rw [h.active_none hact]
    rfl
  | some p =>
    obtain ⟨s, i, o, hfind, ho, -⟩ := h.active_some hact
    rw [hfind, Option.bind_some, ho]
    rfl

/-- Two books that are the same, as far as `f` sees their orders, and but for where these lie in memory. -/
structure AlikeBook (f : Order → Order) (b b' : OrderBook) : Prop where
  orders : ∀ id, ((b'.activeOrders id).bind b'.orders).map f = ((b.activeOrders id).bind b.orders).map f
  levels : b'.activeLevels = b.activeLevels
  best : b'.bestLevels = b.bestLevels
  worse : ∀ s, ∀ i ∈ b.activeLevels s, b'.chain.next i = b.chain.next i
  better : ∀ s, ∀ i ∈ b.activeLevels s, b'.chain.prev i = b.chain.prev i
  counters : ∀ i < b.cfg.maxPriceLevels, b'.priceArray i = b.priceArray i
  queues : ∀ i < b.cfg.maxPriceLevels,
    (b'.queueOf i).map (fun p => (b'.orders p).map f) = (b.queueOf i).map fun p => (b.orders p).map f

/-- Books with the same sides, as far as `f` sees them, are alike. -/
theorem Inv.alikeBook {b b' : OrderBook} {q q' : Nat → List Nat} {f : Order → Order} (h : Inv b q) (h' : Inv b' q')
    (hcfg : b'.cfg = b.cfg) (hid : ∀ o, (f o).orderId = o.orderId) (hlevel : ∀ o, (f o).level = o.level)
    (hqty : ∀ o, (f o).qtyRemaining = o.qtyRemaining) (hlob : b'.lob.through f = b.lob.through f) :
    AlikeBook f b b' := by
  have hsides : ∀ s, (b'.lob s).map f = (b.lob s).map f := congrFun hlob
  have hlevels := h.levels_alike h' hlevel hsides
  have hqueue := h.contents_alike h' hlevel hsides
  have hwalk : ∀ s, levelsOf b'.activeLevels s = levelsOf b.activeLevels s := fun s => by
    rw [hlevels]
  have hlinks : ∀ s, ∀ i ∈ b.activeLevels s,
      b'.chain.next i = b.chain.next i ∧ b'.chain.prev i = b.chain.prev i := by
    intro s i hi
    refine Dll.fields_eq (hwalk s ▸ h'.chained.dll s) (h.chained.dll s) (mem_levelsOf.mpr hi)
  have hfind : ∀ (a : Lob) (id : Nat), ((a.find id).map Prod.snd).map f =
      ((a.through f).find id).map Prod.snd := by
    intro a id
    rw [Lob.find_through hid, Option.map_map, Option.map_map]
    rfl
  refine ⟨fun id => ?_, hlevels, ?_, fun s i hi => (hlinks s i hi).1, fun s i hi => (hlinks s i hi).2,
    fun i _ => ?_, fun i hi => ?_⟩
  · rw [h.order_under, h'.order_under, hfind, hfind, hlob]
  · funext s
    rw [h.chained.best, h'.chained.best, hwalk]
  · rw [h.counters hqty, h'.counters hqty, hqueue]
  · rw [h.queueOf_map _ hi, h'.queueOf_map _ (hcfg ▸ hi), hqueue]

/-- Books with the same sides are equal. -/
theorem Inv.equalBook {b b' : OrderBook} {q q' : Nat → List Nat} (h : Inv b q) (h' : Inv b' q')
    (hcfg : b'.cfg = b.cfg) (hlob : b'.lob = b.lob) : EqualBook b b' := by
  have halike : AlikeBook id b b' :=
    h.alikeBook h' hcfg (fun _ => rfl) (fun _ => rfl) (fun _ => rfl) (by rw [hlob])
  refine ⟨hcfg, fun k => ?_, halike.levels, halike.best, halike.worse, halike.better, halike.counters,
    fun i hi => ?_⟩
  · simpa only [Option.map_id, id_eq] using halike.orders k
  · simpa only [Option.map_id, id_eq] using halike.queues i hi

/-! ## The numbers that are drawn -/

/-- A record without the number `match` drew for it. The record of a trade has a quantity; a
`Fill` without one ends a replacement and has the request's `exec_id`. -/
def OrderResponse.undrawn (r : OrderResponse) : OrderResponse :=
  if r.isTrade ∧ r.q ≠ 0 then { r with execId := 0 } else r

/-- Answers that differ in the numbers drawn. -/
structure Answer.Alike (ans ans' : Answer) : Prop where
  lob : ans'.lob = ans.lob
  recs : ans'.recs.map OrderResponse.undrawn = ans.recs.map OrderResponse.undrawn

/-- The same record in front of both. -/
theorem Answer.Alike.after {ans ans' : Answer} (h : ans.Alike ans') (r : OrderResponse) :
    (ans.after r).Alike (ans'.after r) :=
  ⟨h.lob, by rw [after_recs, after_recs, List.map_cons, List.map_cons, h.recs]⟩

/-- Every trade has a quantity. -/
theorem sweep_fills_pos {x : Nat → Bool} (ms : List Order) (r : Nat) :
    (∀ m ∈ ms, 1 ≤ m.qtyRemaining) → ∀ f ∈ (sweep x r ms).fills, f.qty ≠ 0 := by
  refine sweep_induction (P := fun _ ms w => (∀ m ∈ ms, 1 ≤ m.qtyRemaining) →
    ∀ f ∈ w.fills, f.qty ≠ 0) (fun _ _ f hf => absurd hf List.not_mem_nil)
    (fun _ _ _ _ _ f hf => absurd hf List.not_mem_nil) (fun r m ms w _ _ _ ih hpos f hf => ?_)
    (fun r m ms hr _ _ _ f hf => ?_) ms r
  · rcases List.mem_cons.mp hf with rfl | hf
    · have hm := hpos m List.mem_cons_self
      exact Nat.one_le_iff_ne_zero.mp hm
    · exact ih (fun m' hm' => hpos m' (List.mem_cons_of_mem _ hm')) f hf
  · rw [List.mem_singleton.mp hf]
    exact hr

/-- The trades are the same but for the ids drawn. -/
theorem tradeRecords_undrawn (c : Config) (taker : Nat) (s : Slot) : ∀ (gen gen' : Nat → Nat)
    {fs : List Fill}, (∀ f ∈ fs, f.qty ≠ 0) →
      (tradeRecords c taker s gen' fs).map OrderResponse.undrawn =
        (tradeRecords c taker s gen fs).map OrderResponse.undrawn
  | _, _, [], _ => rfl
  | gen, gen', f :: fs, hpos => by
    have hq := hpos f List.mem_cons_self
    have hrec : ∀ (left id x : Nat) (side : Side) (p : Int),
        (c.response (State.fillType left) id x side p f.qty left .none).undrawn =
          (c.response (State.fillType left) id 0 side p f.qty left .none) := by
      intro left id x side p
      refine (if_pos ⟨isTrade_iff.mpr (fillType_trade left), hq⟩).trans rfl
    rw [tradeRecords, tradeRecords, List.map_cons, List.map_cons, List.map_cons, List.map_cons, hrec,
      hrec, hrec, hrec, tradeRecords_undrawn c taker s (fun k => gen (k + 1)) (fun k => gen' (k + 1))
        fun f' hf' => hpos f' (List.mem_cons_of_mem _ hf')]

namespace Lob

variable {c : Config} {a : Lob}

theorem execute_alike (hpos : ∀ s, ∀ o ∈ a s, 1 ≤ o.qtyRemaining) (gen gen' : Nat → Nat) (s : Slot)
    (t : Order) (idx : Nat) : (a.execute c gen s t idx).Alike (a.execute c gen' s t idx) :=
  ⟨rfl, tradeRecords_undrawn c _ s gen gen' (sweep_fills_pos _ _ (hpos s.flip))⟩

theorem reject_alike (gen gen' : Nat → Nat) (req : OrderRequest) (qRem : Nat) (code : RejectCode) :
    (a.reject c gen req qRem code).Alike (a.reject c gen' req qRem code) := ⟨rfl, rfl⟩

/-- The numbers drawn show nowhere else. -/
theorem Ok.step_alike (hok : a.Ok c) (gen gen' : Nat → Nat) (req : OrderRequest) :
    (a.step c gen req).Alike (a.step c gen' req) := by
  have hpos : ∀ s, ∀ o ∈ a s, 1 ≤ o.qtyRemaining := fun s o ho => (hok.sane ho).pos
  have hpos' : ∀ id s, ∀ o ∈ a.remove id s, 1 ≤ o.qtyRemaining := fun id s o ho =>
    hpos s o (mem_remove.mp ho).1
  unfold step
  split
  · unfold cancelOrder
    split
    · exact reject_alike ..
    · exact ⟨rfl, rfl⟩
  · unfold modifyOrder
    split
    · exact reject_alike ..
    split
    · exact reject_alike ..
    split
    · exact reject_alike ..
    unfold replaceOrder
    split
    · exact reject_alike ..
    split
    · exact ⟨rfl, rfl⟩
    split
    · exact ⟨rfl, rfl⟩
    split
    · exact (execute_alike (hpos' _) ..).after _
    · exact ⟨rfl, rfl⟩
  · split
    · exact reject_alike ..
    unfold newOrder
    split
    · exact reject_alike ..
    split
    · exact reject_alike ..
    split
    · exact reject_alike ..
    · exact (execute_alike hpos ..).after _
  · exact reject_alike ..

end Lob

/-! ## Two books going on -/

/-- Two books with the same sides, which have sent the same records but for the numbers drawn. -/
structure Twins (c : Config) (st st' : State) : Prop where
  inv : ∃ q, Inv st.book q
  inv' : ∃ q, Inv st'.book q
  cfg : st.book.cfg = c
  cfg' : st'.book.cfg = c
  mode : st.book.recoverMode = false
  mode' : st'.book.recoverMode = false
  lob : st'.book.lob = st.book.lob
  log : st'.log.map OrderResponse.undrawn = st.log.map OrderResponse.undrawn

/-- Twin books serve a request alike and are twins again. -/
theorem Twins.step {c : Config} {st st' : State} (h : Twins c st st') {req : OrderRequest}
    (hreq : WellFormed c st.book.lob req) : ∃ st₁ st₁', st.processRequest req = some st₁ ∧
      st'.processRequest req = some st₁' ∧ Twins c st₁ st₁' := by
  obtain ⟨q, hq⟩ := h.inv
  obtain ⟨q', hq'⟩ := h.inv'
  obtain ⟨st₁, hrun, hans⟩ := hq.answers h.cfg hreq
  obtain ⟨st₁', hrun', hans'⟩ := hq'.answers h.cfg' (h.lob ▸ hreq)
  obtain ⟨q₁, hq₁, hlob₁⟩ := hans.lob
  obtain ⟨q₁', hq₁', hlob₁'⟩ := hans'.lob
  have hok : st.book.lob.Ok c := by
    rw [hq.lob_eq, ← h.cfg]
    exact hq.ok
  have halike := hok.step_alike st.gen st'.gen req
  have hlog := hans.log
  have hlog' := hans'.log
  rw [if_neg (by simp [h.mode])] at hlog
  rw [if_neg (by simp [h.mode']), h.lob] at hlog'
  refine ⟨st₁, st₁', hrun, hrun', ⟨q₁, hq₁⟩, ⟨q₁', hq₁'⟩, hans.cfg.trans h.cfg,
    hans'.cfg.trans h.cfg', hans.mode.trans h.mode, hans'.mode.trans h.mode', ?_, ?_⟩
  · rw [hq₁.lob_eq, hq₁'.lob_eq, hlob₁, hlob₁', h.lob]
    exact halike.lob
  · rw [hlog, hlog', List.map_append, List.map_append, h.log, halike.recs]

/-- By induction on the requests: twin books answer alike to the end. -/
theorem Twins.serve {c : Config} : ∀ {reqs : List OrderRequest} {st st' : State}, Twins c st st' →
    (Exchange.serve c st' reqs).map (fun s => s.log.map OrderResponse.undrawn) =
      (Exchange.serve c st reqs).map (fun s => s.log.map OrderResponse.undrawn)
  | [], _, _, h => congrArg some h.log
  | req :: reqs, st, st', h => by
    rw [Exchange.serve, Exchange.serve, h.lob]
    split
    · rename_i hreq
      obtain ⟨st₁, st₁', hrun, hrun', hnext⟩ := h.step hreq
      rw [hrun, hrun', Option.bind_some, Option.bind_some]
      exact hnext.serve
    · rfl

/-- With limit orders only, no resting order is a market order. -/
theorem ReachableBy.limits {c : Config} {st : State} (h : ReachableBy LimitOnly c st) :
    st.book.lob.Limits := by
  induction h with
  | fresh _ =>
    intro s o ho
    rw [fresh_lob] at ho
    exact absurd ho List.not_mem_nil
  | step hst hK hreq hrun ih =>
    rw [(hst.reachable.step_answer hreq hrun).1]
    exact ih.outcome hK (Lob.step_outcome ..)

/-- A book that loads the snapshot of another is that book, and sends what that book sends, for
as long as both are given the same requests; `serve` ends at one that is not well formed. -/
theorem snapshot_round_trip {c : Config} {st : State} (h : ReachableBy LimitOnly c st) :
    ∃ b, (OrderBook.fresh c).loadSnapshot st.book.takeSnapshot = some b ∧ EqualBook st.book b ∧
      ∀ (reqs : List OrderRequest) (gen gen' : Nat → Nat),
        (serve c ⟨b, gen', []⟩ reqs).map (fun s => s.log.map OrderResponse.undrawn) =
          (serve c ⟨st.book, gen, []⟩ reqs).map (fun s => s.log.map OrderResponse.undrawn) := by
  obtain ⟨⟨q, hq⟩, hcfg, hmode⟩ := h.reachable.inv
  obtain ⟨b, q', hload, hq', hcfg', hmode', hlob⟩ := hq.loads h.limits
  rw [hcfg] at hload
  refine ⟨b, hload, hq.equalBook hq' hcfg' hlob, fun reqs gen gen' => ?_⟩
  have htwins : Twins c ⟨st.book, gen, []⟩ ⟨b, gen', []⟩ :=
    ⟨⟨q, hq⟩, ⟨q', hq'⟩, hcfg, hcfg'.trans hcfg, hmode, hmode', hlob, rfl⟩
  exact htwins.serve

/-- The sample run, saved and loaded. -/
theorem sample_round_trip : ∃ st, ReachableBy LimitOnly sampleConfig st ∧ st.log.length = 9 ∧
    ∃ b, (OrderBook.fresh sampleConfig).loadSnapshot st.book.takeSnapshot = some b ∧
      EqualBook st.book b ∧ ∀ (reqs : List OrderRequest) (gen gen' : Nat → Nat),
        (serve sampleConfig ⟨b, gen', []⟩ reqs).map (fun s => s.log.map OrderResponse.undrawn) =
          (serve sampleConfig ⟨st.book, gen, []⟩ reqs).map
            (fun s => s.log.map OrderResponse.undrawn) := by
  obtain ⟨st, hst, hlen⟩ := ReachableBy.of_serve LimitOnly sampleConfig id sampleRequests
    (by unfold LimitOnly; decide) (fun st => st.log.length = 9) (by decide +kernel)
  exact ⟨st, hst, of_decide_eq_true hlen, snapshot_round_trip hst⟩

end Exchange
