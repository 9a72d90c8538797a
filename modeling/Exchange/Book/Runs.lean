import Exchange.Book.Refine

/-!
# Runs of well-formed requests

`Reachable c st`: `st` is reached from a fresh book of configuration `c` by
requests that are well formed where they are made. Every such state satisfies
`Inv`, every further well-formed request is answered, and `Reachable.rule`
turns a property of one specification step into a property of every run.

The sides are read off the pointers (`OrderBook.lob`, through `queueOf`), so
what is stated below of a book is stated of what its fields say.
-/

namespace Exchange

/-! ## Reading a book -/

namespace OrderBook

/-- The resting orders of each side in priority order, read off the links. -/
def lob (b : OrderBook) : Lob := flat b b.queueOf

/-- The pointers held by the queues of the active levels. -/
def resting (b : OrderBook) : List Nat :=
  [Slot.bid, Slot.ask].flatMap fun s => (b.activeLevels s).keys.flatMap b.queueOf

/-- The levels met from `best_levels_[s]` along `worse`. -/
def worseWalk (b : OrderBook) (s : Slot) : List Nat :=
  b.chain.follow (b.cfg.maxPriceLevels + 1) (b.bestLevels s)

end OrderBook

/-- A queue read off the links is the ghost queue. -/
theorem Core.queueOf_eq {b : OrderBook} {q : Nat → List Nat} (h : Core b q) {i : Nat}
    (hi : i < b.cfg.maxPriceLevels) : b.queueOf i = q i := by
  have hcut : ∀ ps : List Nat, ((ps.map OrderNode.order ++ [OrderNode.tail i]).takeWhile
      (· ≠ OrderNode.tail i)).filterMap OrderNode.ptr? = ps := by
    intro ps
    rw [List.takeWhile_append_of_pos (by simp), List.takeWhile_cons_of_neg (by simp),
      List.append_nil, List.filterMap_map]
    exact List.filterMap_some
  rw [OrderBook.queueOf, h.queued.follow_head hi (Nat.succ_le_succ (h.length_le i)), behind]
  exact hcut (q i)

/-- The orders a book shows are those its queues hold. -/
theorem Core.lob_eq {b : OrderBook} {q : Nat → List Nat} (h : Core b q) : b.lob = flat b q := by
  funext s
  refine List.flatMap_congr (fun i hi => ?_)
  rw [contents, contents, h.queueOf_eq (h.inRange (mem_levelsOf.mp hi))]

/-- The orders of a side at one of its levels are that level's queue. -/
theorem Core.filter_flat {b : OrderBook} {q : Nat → List Nat} (h : Core b q) {s : Slot} {i : Nat}
    (hi : i ∈ b.activeLevels s) :
    (flat b q s).filter (fun o => o.level = i) = contents b.orders q i := by
  obtain ⟨pre, post, hl⟩ := List.append_of_mem (mem_levelsOf.mpr hi)
  have hnd := levelsOf_nodup b.activeLevels s
  rw [hl] at hnd
  have hpre : i ∉ pre := fun hm => (List.nodup_append.mp hnd).2.2 i hm i List.mem_cons_self rfl
  have hpost : i ∉ post := (List.nodup_cons.mp (List.nodup_append.mp hnd).2.1).1
  have hother : ∀ {ls : List Nat}, i ∉ ls →
      (ls.flatMap (contents b.orders q)).filter (fun o => o.level = i) = [] := by
    intro ls hls
    refine List.filter_eq_nil_iff.mpr (fun o ho => ?_)
    obtain ⟨j, hj, ho'⟩ := List.mem_flatMap.mp ho
    have hlev := (h.alive.contents ho').2.1
    have hne : o.level ≠ i := fun e => hls (by rw [← e, hlev]; exact hj)
    simpa using hne
  have hself : (contents b.orders q i).filter (fun o => o.level = i) = contents b.orders q i :=
    List.filter_eq_self.mpr (fun o ho => by simpa using (h.alive.contents ho).2.1)
  rw [flat, hl, List.flatMap_append, List.flatMap_cons, List.filter_append, List.filter_append,
    hother hpre, hself, hother hpost, List.nil_append, List.append_nil]

/-- The levels of a side are those its orders rest at. -/
theorem Inv.mem_levels {b : OrderBook} {q : Nat → List Nat} (h : Inv b q) {s : Slot} {i : Nat} :
    i ∈ b.activeLevels s ↔ ∃ o ∈ b.lob s, o.level = i := by
  rw [h.lob_eq]
  constructor
  · intro hi
    obtain ⟨p, hp⟩ := List.exists_mem_of_ne_nil _ (h.full s i hi)
    exact ⟨deref b.orders p, mem_flat.mpr ⟨i, p, hi, hp, rfl⟩, h.alive.level hp⟩
  · rintro ⟨o, ho, hl⟩
    obtain ⟨j, p, hj, hp, rfl⟩ := mem_flat.mp ho
    have : j = i := by rw [← hl, h.alive.level hp]
    exact this ▸ hj

/-- The chain read off the links is the level map, best first. -/
theorem Core.worseWalk_eq {b : OrderBook} {q : Nat → List Nat} (h : Core b q) (s : Slot) :
    b.worseWalk s = levelsOf b.activeLevels s := by
  rw [OrderBook.worseWalk, h.chained.best]
  exact (h.chained.dll s).follow_eq (Nat.le_succ_of_le (h.levels_le s))

/-! ## Well-formed requests -/

/-- `p` is the price of a level: a multiple of `min_step_` whose index lies in
`[0, max_price_levels_)`. -/
def Config.OnGrid (c : Config) (p : Int) : Prop := ∃ i < c.maxPriceLevels, p = c.plToPrice i

/-- A level's price is read back as its index. -/
theorem Config.priceToIndex_plToPrice (c : Config) {i : Nat} (hi : i < c.maxPriceLevels) :
    c.priceToIndex (c.plToPrice i) = i := by
  have hlt := c.levels_lt
  have hdiv : (c.plToPrice i).tdiv c.minStep = i + c.priceIndexOffset :=
    Int.mul_tdiv_cancel _ c.minStep_pos.ne'
  rw [Config.priceToIndex, hdiv]
  omega

/-- The price of a level passes the engine's own check. -/
theorem Config.priceInvalid_plToPrice (c : Config) {i : Nat} (hi : i < c.maxPriceLevels) :
    c.priceInvalid (c.plToPrice i) = 0 := by
  have hdiv : (c.plToPrice i).tdiv c.minStep = i + c.priceIndexOffset :=
    Int.mul_tdiv_cancel _ c.minStep_pos.ne'
  rw [Config.priceInvalid, hdiv, if_neg (by omega), if_neg (by omega)]

/-- Every level's price is positive when the first one's is. -/
theorem Config.plToPrice_pos (c : Config) (hoff : 1 ≤ c.priceIndexOffset) (i : Nat) :
    0 < c.plToPrice i :=
  Int.mul_pos (by omega) c.minStep_pos

/-- Prices grow with the level. -/
theorem Config.plToPrice_le (c : Config) {i j : Nat} : c.plToPrice i ≤ c.plToPrice j ↔ i ≤ j := by
  unfold Config.plToPrice
  rw [Int.mul_le_mul_right c.minStep_pos]
  omega

/-- Different levels have different prices. -/
theorem Config.plToPrice_inj (c : Config) {i j : Nat} : c.plToPrice i = c.plToPrice j ↔ i = j := by
  constructor
  · intro h
    have h₁ := c.plToPrice_le.mp h.le
    have h₂ := c.plToPrice_le.mp h.ge
    omega
  · exact fun h => by rw [h]

/-- A request as a caller promises it: its side is `Buy` or `Sell`, a cancel or
modify of a resting order carries that order's side, a new order is a limit or
market order, and a price that is not zero is the price of a level. -/
structure WellFormed (c : Config) (a : Lob) (req : OrderRequest) : Prop where
  side : ∃ s : Slot, req.side = s.side
  named : req.action = .cancel ∨ req.action = .modify →
    ∀ s o, a.find req.combinedId = some (s, o) → req.side = s.side
  type : req.action = .new → req.type = .limit ∨ req.type = .market
  price : req.p ≠ 0 → c.OnGrid req.p

instance (c : Config) (p : Int) : Decidable (c.OnGrid p) :=
  inferInstanceAs (Decidable (∃ i < c.maxPriceLevels, p = c.plToPrice i))

instance (c : Config) (a : Lob) (req : OrderRequest) : Decidable (WellFormed c a req) :=
  decidable_of_iff (req.side.slot.isSome ∧
    (req.action = .cancel ∨ req.action = .modify →
      (a.find req.combinedId).all fun so => req.side = so.1.side) ∧
    (req.action = .new → req.type = .limit ∨ req.type = .market) ∧ (req.p ≠ 0 → c.OnGrid req.p)) (by
    constructor
    · rintro ⟨hs, hn, ht, hp⟩
      obtain ⟨s, hs⟩ := Option.isSome_iff_exists.mp hs
      refine ⟨⟨s, Side.eq_side_of_slot hs⟩, fun ha s o hf => ?_, ht, hp⟩
      have := hn ha
      rw [hf] at this
      simpa using this
    · rintro ⟨⟨s, hs⟩, hn, ht, hp⟩
      refine ⟨by rw [hs, Slot.slot_side]; rfl, fun ha => ?_, ht, hp⟩
      cases hf : a.find req.combinedId with
      | none => rfl
      | some so => simpa using hn ha so.1 so.2 hf)

/-- A well-formed request is a safe one. -/
theorem WellFormed.safe {c : Config} {a : Lob} {req : OrderRequest} (h : WellFormed c a req) :
    Safe c a req := by
  have hprice : req.p ≠ 0 → c.priceToIndex req.p < c.maxPriceLevels := by
    intro hp
    obtain ⟨i, hi, he⟩ := h.price hp
    rw [he, c.priceToIndex_plToPrice hi]
    exact hi
  refine ⟨fun hact => ⟨h.side, ?_⟩, h.named, fun _ => ?_⟩
  · rcases h.type hact with ht | ht
    · by_cases hp : req.p = 0
      · exact Or.inr (Or.inr (Or.inl ⟨hp.le, ht⟩))
      · exact Or.inr (Or.inr (Or.inr (hprice hp)))
    · exact Or.inl ht
  · by_cases hp : req.p = 0
    · exact Or.inl hp
    · exact Or.inr (Or.inr (hprice hp))

/-- The order that a cancel or modify names, with the side the request gives. -/
theorem WellFormed.of_find {c : Config} {a : Lob} {req : OrderRequest} (h : WellFormed c a req) {s : Slot}
    {o : Order} (hact : req.action = .cancel ∨ req.action = .modify) (hfind : a.find req.combinedId = some (s, o)) :
    o ∈ a s ∧ o.orderId = req.combinedId ∧ req.side = s.side := by
  obtain ⟨ho, hid⟩ := Lob.mem_of_find hfind
  exact ⟨ho, hid, h.named hact s o hfind⟩

/-- An accepted limit order carries the price of the level it is matched at. -/
theorem WellFormed.limit_index {c : Config} {a : Lob} {req : OrderRequest} (h : WellFormed c a req)
    (htype : req.type = .limit) (hp : ¬ (req.p ≤ 0 ∧ req.type = .limit)) :
    ∃ i < c.maxPriceLevels, req.p = c.plToPrice i ∧ State.newIndex c req = i := by
  obtain ⟨i, hi, hpi⟩ := h.price (fun hz => hp ⟨hz.le, htype⟩)
  refine ⟨i, hi, hpi, ?_⟩
  unfold State.newIndex
  rw [htype, if_neg (by decide), hpi, c.priceToIndex_plToPrice hi]

/-! ## Runs -/

/-- The states a fresh book can be brought to by well-formed requests. -/
inductive Reachable (c : Config) : State → Prop
  | fresh (gen : Nat → Nat) : Reachable c ⟨.fresh c, gen, []⟩
  | step {st st' : State} {req : OrderRequest} (h : Reachable c st)
      (hreq : WellFormed c st.book.lob req) (hrun : st.processRequest req = some st') :
      Reachable c st'

/-- The states reached by well-formed requests that also satisfy `K`. -/
inductive ReachableBy (K : OrderRequest → Prop) (c : Config) : State → Prop
  | fresh (gen : Nat → Nat) : ReachableBy K c ⟨.fresh c, gen, []⟩
  | step {st st' : State} {req : OrderRequest} (h : ReachableBy K c st) (hK : K req)
      (hreq : WellFormed c st.book.lob req) (hrun : st.processRequest req = some st') :
      ReachableBy K c st'

/-- A run of some kind of requests is a run. -/
theorem ReachableBy.reachable {K : OrderRequest → Prop} {c : Config} {st : State}
    (h : ReachableBy K c st) : Reachable c st := by
  induction h with
  | fresh gen => exact .fresh gen
  | step _ _ hreq hrun ih => exact ih.step hreq hrun

/-- The requests `reqs`, each well formed and with the property `K` where it is made,
bring a fresh book to `st`. -/
inductive Served (K : Lob → OrderRequest → Prop) (c : Config) : List OrderRequest → State → Prop
  | fresh (gen : Nat → Nat) : Served K c [] ⟨.fresh c, gen, []⟩
  | step {reqs : List OrderRequest} {st st' : State} {req : OrderRequest} (h : Served K c reqs st)
      (hK : K st.book.lob req) (hreq : WellFormed c st.book.lob req)
      (hrun : st.processRequest req = some st') : Served K c (reqs ++ [req]) st'

theorem Served.reachable {K : Lob → OrderRequest → Prop} {c : Config} {reqs : List OrderRequest}
    {st : State} (h : Served K c reqs st) : Reachable c st := by
  induction h with
  | fresh gen => exact .fresh gen
  | step _ _ hreq hrun ih => exact ih.step hreq hrun

/-- Serves a list of requests, as long as they are well formed. -/
def serve (c : Config) : State → List OrderRequest → Option State
  | st, [] => some st
  | st, req :: reqs =>
    if WellFormed c st.book.lob req then (st.processRequest req).bind (serve c · reqs) else none

/-- Serving a list of one kind of requests. -/
theorem ReachableBy.serve {K : OrderRequest → Prop} {c : Config} :
    ∀ {reqs : List OrderRequest} {st st' : State}, ReachableBy K c st → (∀ req ∈ reqs, K req) →
      Exchange.serve c st reqs = some st' → ReachableBy K c st'
  | [], st, st', h, _, he => by
    obtain rfl := Option.some.inj he
    exact h
  | req :: reqs, st, st', h, hK, he => by
    rw [Exchange.serve] at he
    split at he
    · rename_i hreq
      obtain ⟨st₁, hrun, he⟩ := Option.bind_eq_some_iff.mp he
      exact (h.step (hK req List.mem_cons_self) hreq hrun).serve
        (fun r hr => hK r (List.mem_cons_of_mem _ hr)) he
    · cases he

/-- Serves a list of requests, as long as they are well formed and meet `K`. -/
def serveBy (K : Lob → OrderRequest → Bool) (c : Config) : State → List OrderRequest → Option State
  | st, [] => some st
  | st, req :: reqs =>
    if K st.book.lob req ∧ WellFormed c st.book.lob req then
      (st.processRequest req).bind (serveBy K c · reqs)
    else none

/-- A list each of whose requests the check lets through is a served one. -/
theorem Served.serveBy {K : Lob → OrderRequest → Bool} {c : Config} :
    ∀ {reqs done : List OrderRequest} {st st' : State}, Served (fun a req => K a req = true) c done st →
      Exchange.serveBy K c st reqs = some st' →
      Served (fun a req => K a req = true) c (done ++ reqs) st'
  | [], done, st, st', h, he => by
    obtain rfl := Option.some.inj he
    rw [List.append_nil]
    exact h
  | req :: reqs, done, st, st', h, he => by
    rw [Exchange.serveBy] at he
    split at he
    · rename_i hreq
      obtain ⟨st₁, hrun, he⟩ := Option.bind_eq_some_iff.mp he
      have hrest := (h.step hreq.1 hreq.2 hrun).serveBy he
      rwa [List.append_assoc] at hrest
    · cases he

/-- A weaker condition on the requests. -/
theorem Served.imp {K K' : Lob → OrderRequest → Prop} {c : Config} {reqs : List OrderRequest}
    {st : State} (h : Served K c reqs st) (hK : ∀ a req, K a req → K' a req) :
    Served K' c reqs st := by
  induction h with
  | fresh gen => exact .fresh gen
  | step _ hk hreq hrun ih => exact ih.step (hK _ _ hk) hreq hrun

/-- A state served by these requests, with a property that can be tested. -/
theorem Served.of_serveBy (K' : Lob → OrderRequest → Prop) (K : Lob → OrderRequest → Bool)
    (hK : ∀ a req, K a req = true → K' a req) (c : Config) (gen : Nat → Nat)
    (reqs : List OrderRequest) (P : State → Bool)
    (h : (Exchange.serveBy K c ⟨.fresh c, gen, []⟩ reqs).any P = true) :
    ∃ st, Served K' c reqs st ∧ P st = true := by
  obtain ⟨st, hst, hP⟩ := (Option.any_eq_true ..).mp h
  exact ⟨st, ((Served.fresh gen).serveBy hst).imp hK, hP⟩

/-- A state reached by requests that satisfy `K`, with a property that can be
tested. -/
theorem ReachableBy.of_serve (K : OrderRequest → Prop) (c : Config) (gen : Nat → Nat)
    (reqs : List OrderRequest) (hK : ∀ req ∈ reqs, K req) (P : State → Bool)
    (h : (Exchange.serve c ⟨.fresh c, gen, []⟩ reqs).any P = true) :
    ∃ st, ReachableBy K c st ∧ P st = true := by
  obtain ⟨st, hst, hP⟩ := (Option.any_eq_true ..).mp h
  exact ⟨st, (ReachableBy.fresh gen).serve hK hst, hP⟩

/-- A reachable state with a property that can be tested. -/
theorem Reachable.of_serve (c : Config) (gen : Nat → Nat) (reqs : List OrderRequest)
    (P : State → Bool) (h : (Exchange.serve c ⟨.fresh c, gen, []⟩ reqs).any P = true) :
    ∃ st, Reachable c st ∧ P st = true := by
  obtain ⟨st, hst, hP⟩ := ReachableBy.of_serve (fun _ => True) c gen reqs (fun _ _ => trivial) P h
  exact ⟨st, hst.reachable, hP⟩

/-- The book the constructor builds satisfies the invariant, with empty queues. -/
theorem fresh_inv (c : Config) : Inv (OrderBook.fresh c) (fun _ => []) := by
  have hlevels : ∀ s, levelsOf (OrderBook.fresh c).activeLevels s = [] := fun s => by cases s <;> rfl
  refine ⟨⟨⟨fun {i} _ => ?_, fun _ => List.nodup_nil, fun hp => absurd hp List.not_mem_nil,
    fun hp => absurd hp List.not_mem_nil⟩, ⟨fun _ => rfl, fun _ => rfl⟩,
    fun i p hp => absurd hp List.not_mem_nil, ⟨fun s => ?_, fun s => ?_, ?_⟩, ?_,
    fun hq => absurd rfl hq, fun _ => rfl⟩, ?_, ?_⟩
  · exact ⟨rfl, rfl, rfl, rfl, trivial⟩
  · rw [hlevels]
    trivial
  · rw [hlevels]
    rfl
  · exact fun hi => absurd hi List.not_mem_nil
  · exact fun hi => absurd hi List.not_mem_nil
  · exact fun s i hi => absurd hi List.not_mem_nil
  · intro id p
    constructor
    · exact fun e => absurd e (by simp [OrderBook.fresh])
    · rintro ⟨⟨i, hp⟩, -⟩
      exact absurd hp List.not_mem_nil

theorem fresh_lob (c : Config) : (OrderBook.fresh c).lob = fun _ => [] := by
  rw [(fresh_inv c).lob_eq]
  funext s
  cases s <;> rfl

/-- One step of a run: it is answered, as the specification says. -/
theorem Inv.answers {c : Config} {st : State} {q : Nat → List Nat} (h : Inv st.book q)
    (hc : st.book.cfg = c) {req : OrderRequest} (hreq : WellFormed c st.book.lob req) :
    ∃ st', st.processRequest req = some st' ∧
      Answers st st' (Lob.step c st.gen st.book.lob req) := by
  have hsafe := hreq.safe
  rw [← hc, h.lob_eq] at hsafe
  rw [← hc, h.lob_eq]
  exact processRequest_answers h hsafe

/-- A safe request, as a step of the specification. -/
theorem Inv.safe_answer {c : Config} {st : State} {q : Nat → List Nat} (h : Inv st.book q)
    (hc : st.book.cfg = c) (hmode : st.book.recoverMode = false) {req : OrderRequest}
    (hsafe : Safe c st.book.lob req) :
    ∃ st' q', st.processRequest req = some st' ∧ Inv st'.book q' ∧ st'.book.cfg = c ∧
      st'.book.recoverMode = false ∧ st'.book.lob = (Lob.step c st.gen st.book.lob req).lob ∧
      st'.log = st.log ++ (Lob.step c st.gen st.book.lob req).recs ∧
      st'.gen = (Lob.step c st.gen st.book.lob req).gen := by
  rw [← hc, h.lob_eq] at hsafe
  obtain ⟨st', hrun, hans⟩ := processRequest_answers h hsafe
  rw [← h.lob_eq, hc] at hans
  obtain ⟨q', hq', hlob⟩ := hans.lob
  refine ⟨st', q', hrun, hq', hans.cfg.trans hc, hans.mode.trans hmode, hq'.lob_eq.trans hlob, ?_, hans.gen⟩
  rw [hans.log, hmode, if_neg Bool.false_ne_true]

/-- What every reachable state satisfies. -/
theorem Reachable.inv {c : Config} {st : State} (h : Reachable c st) :
    (∃ q, Inv st.book q) ∧ st.book.cfg = c ∧ st.book.recoverMode = false := by
  induction h with
  | fresh gen => exact ⟨⟨_, fresh_inv c⟩, rfl, rfl⟩
  | step _ hreq hrun ih =>
    obtain ⟨⟨q, hq⟩, hc, hm⟩ := ih
    obtain ⟨st'', q', hrun', hq', hc', hm', -⟩ := hq.safe_answer hc hm hreq.safe
    obtain rfl := Option.some.inj (hrun.symm.trans hrun')
    exact ⟨⟨q', hq'⟩, hc', hm'⟩

/-- Every reachable book is a limit order book in good order. -/
theorem Reachable.ok {c : Config} {st : State} (h : Reachable c st) : st.book.lob.Ok c := by
  obtain ⟨⟨q, hq⟩, hc, -⟩ := h.inv
  rw [hq.lob_eq, ← hc]
  exact hq.ok

/-- A step of a run, seen as a step of the specification. -/
theorem Reachable.step_answer {c : Config} {st st' : State} {req : OrderRequest} (h : Reachable c st)
    (hreq : WellFormed c st.book.lob req) (hrun : st.processRequest req = some st') :
    st'.book.lob = (Lob.step c st.gen st.book.lob req).lob ∧
      st'.log = st.log ++ (Lob.step c st.gen st.book.lob req).recs ∧
      st'.gen = (Lob.step c st.gen st.book.lob req).gen := by
  obtain ⟨⟨q, hq⟩, hc, hm⟩ := h.inv
  obtain ⟨st'', -, hrun', -, -, -, hanswer⟩ := hq.safe_answer hc hm hreq.safe
  obtain rfl := Option.some.inj (hrun.symm.trans hrun')
  exact hanswer

/-- The rule of invariants: what holds of an empty book and log, and is kept by
each outcome of each well-formed request, holds of every reachable state. -/
theorem Reachable.rule {c : Config} {P : Lob → List OrderResponse → Prop}
    (init : P (fun _ => []) [])
    (step : ∀ {a gen log req ans}, a.Ok c → ans.lob.Ok c → WellFormed c a req → P a log →
      Lob.Outcome c gen a req ans → P ans.lob (log ++ ans.recs))
    {st : State} (h : Reachable c st) : P st.book.lob st.log := by
  induction h with
  | fresh gen =>
    rw [fresh_lob]
    exact init
  | step hst hreq hrun ih =>
    obtain ⟨hlob, hlog, -⟩ := hst.step_answer hreq hrun
    have hok' := (Reachable.step hst hreq hrun).ok
    rw [hlob] at hok' ⊢
    rw [hlog]
    exact step hst.ok hok' hreq ih (Lob.step_outcome ..)

/-! ## A sample run -/

/-- Eight levels, at 5, 10, …, 40. -/
def sampleConfig : Config where
  symbolId := 1
  minStep := 5
  priceIndexOffset := 1
  maxPriceLevels := 8
  minStep_pos := by decide
  levels_pos := by decide
  levels_lt := by decide

/-- A request of client 1 to the sample book. -/
def sampleRequest (action : OrderAction) (orderId : UInt32) (side : Side) (p : Int) (q : Nat) :
    OrderRequest where
  action := action
  execId := 0
  orderId := orderId
  clientId := 1
  symbolId := 1
  side := side
  type := if p = 0 then .market else .limit
  p := p
  q := q
  timestamp := 0

/-- Two offers at one price, a bid below them, a bid that takes the first offer
and part of the second, and a replacement. -/
def sampleRequests : List OrderRequest :=
  [sampleRequest .new 1 .sell 20 7, sampleRequest .new 2 .sell 20 5, sampleRequest .new 3 .buy 10 4,
    sampleRequest .new 4 .buy 20 9, sampleRequest .modify 3 .buy 15 6]

/-- The sample run is one: it ends with an order on each side. -/
theorem sample_reachable : ∃ st, Reachable sampleConfig st ∧ st.log.length = 9 ∧
    (st.book.lob .bid).map (fun o => (o.orderId, o.level, o.qtyRemaining)) =
      [(4294967299, 2, 6)] ∧
    (st.book.lob .ask).map (fun o => (o.orderId, o.level, o.qtyRemaining)) =
      [(4294967298, 3, 3)] := by
  obtain ⟨st, hst, hP⟩ := Reachable.of_serve sampleConfig id sampleRequests
    (fun st => st.log.length = 9 ∧
      (st.book.lob .bid).map (fun o => (o.orderId, o.level, o.qtyRemaining)) =
        [(4294967299, 2, 6)] ∧
      (st.book.lob .ask).map (fun o => (o.orderId, o.level, o.qtyRemaining)) =
        [(4294967298, 3, 3)]) (by decide +kernel)
  exact ⟨st, hst, of_decide_eq_true hP⟩

end Exchange
