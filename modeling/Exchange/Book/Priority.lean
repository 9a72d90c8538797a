import Exchange.Book.Execute

/-!
# Strict price-time priority

A run is read together with a clock: `joined id` is the moment the order `id`
last joined a queue, by an accepted new order or by an accepted replacement that
asked for another price or a larger quantity (`joins`). The invariant is
`InTime`: inside one level the queue is in the order of these moments.

With it, the trades of a request that reaches `match` are determined by the
request and the book before it. What the taker may trade at, and how much of it,
is read off the request (`OrderRequest.taker`). The makers are the opposite
orders that cross, best price first and, at one price, first joined first; they
are strictly ordered, so there is one such list. The trades are the greedy
allocation of the taker over it (`greedy`), at the makers' prices. Of the answer
only whether the request was accepted is taken from the records.
-/

namespace Exchange

/-! ## Moments -/

/-- The price a replacement asks for, where 0 is the one the order has. -/
def OrderRequest.newPrice (c : Config) (o : Order) (req : OrderRequest) : Int :=
  if req.p ≠ 0 then req.p else c.plToPrice o.level

/-- The replacement asks for another price or for a larger quantity. -/
def requeues (c : Config) (a : Lob) (req : OrderRequest) : Bool :=
  (a.find req.combinedId).any fun so =>
    req.newPrice c so.2 ≠ c.plToPrice so.2.level ∨ so.2.qtyOriginal < req.newQty so.2

/-- The request is accepted, and its order joins a queue. -/
def joins (c : Config) (a : Lob) (req : OrderRequest) (ack : OrderResponse) : Bool :=
  ack.execType = .new ∨ (ack.execType = .replaced ∧ requeues c a req)

/-- The moments after a request that was answered by `recs` at time `clock`. -/
def rejoin (c : Config) (a : Lob) (req : OrderRequest) (recs : List OrderResponse)
    (joined : Nat → Nat) (clock : Nat) : Nat → Nat :=
  if recs.head?.any (joins c a req) then Function.update joined req.combinedId clock else joined

/-- A run of well-formed requests with its clock and the moments orders joined
their queues. -/
inductive TimedRun (c : Config) : State → (Nat → Nat) → Nat → Prop
  | fresh (gen : Nat → Nat) : TimedRun c ⟨.fresh c, gen, []⟩ (fun _ => 0) 0
  | step {st st' : State} {joined : Nat → Nat} {clock : Nat} {req : OrderRequest}
      {recs : List OrderResponse} (h : TimedRun c st joined clock)
      (hreq : WellFormed c st.book.lob req) (hrun : st.processRequest req = some st')
      (hlog : st'.log = st.log ++ recs) :
      TimedRun c st' (rejoin c st.book.lob req recs joined clock) (clock + 1)

theorem TimedRun.reachable {c : Config} {st : State} {joined : Nat → Nat} {clock : Nat}
    (h : TimedRun c st joined clock) : Reachable c st := by
  induction h with
  | fresh gen => exact .fresh gen
  | step _ hreq hrun _ ih => exact ih.step hreq hrun

/-- Every run can be timed. -/
theorem Reachable.timed {c : Config} {st : State} (h : Reachable c st) :
    ∃ joined clock, TimedRun c st joined clock := by
  induction h with
  | fresh gen => exact ⟨_, _, .fresh gen⟩
  | step hst hreq hrun ih =>
    obtain ⟨joined, clock, ht⟩ := ih
    exact ⟨_, _, ht.step hreq hrun (hst.step_answer hreq hrun).2.1⟩

/-- The price a well-formed replacement asks for is that of the level it asks for. -/
theorem WellFormed.newPrice {c : Config} {a : Lob} {req : OrderRequest} (h : WellFormed c a req) (o : Order) :
    req.newPrice c o = c.plToPrice (req.target c o) := by
  unfold OrderRequest.newPrice OrderRequest.target
  by_cases hp : req.p ≠ 0
  · obtain ⟨i, hi, hpi⟩ := h.price hp
    rw [if_pos hp, if_pos hp, hpi, c.priceToIndex_plToPrice hi]
  · rw [if_neg hp, if_neg hp]

/-- A replacement requeues if it moves the order or raises its quantity. -/
theorem WellFormed.requeues_iff {c : Config} {a : Lob} {req : OrderRequest} (h : WellFormed c a req) {s : Slot}
    {o : Order} (hfind : a.find req.combinedId = some (s, o)) :
    requeues c a req = true ↔ o.level ≠ req.target c o ∨ o.qtyOriginal < req.newQty o := by
  unfold requeues
  rw [hfind, Option.any_some, decide_eq_true_eq, h.newPrice, ne_eq, c.plToPrice_inj, eq_comm]

/-! ## The invariant -/

/-- Orders at one level stand in the order they joined it. -/
def InTime (joined : Nat → Nat) (l : List Order) : Prop :=
  l.Pairwise fun x y => x.level = y.level → joined x.orderId < joined y.orderId

/-- Every queue is in time, and nobody has joined in the future. -/
structure Timely (joined : Nat → Nat) (clock : Nat) (a : Lob) : Prop where
  inTime : ∀ s, InTime joined (a s)
  past : ∀ s o, o ∈ a s → joined o.orderId < clock

/-- Being in time is a matter of ids and levels. -/
theorem inTime_iff {joined : Nat → Nat} {l : List Order} :
    InTime joined l ↔ (l.map fun o => (o.orderId, o.level)).Pairwise
      fun x y => x.2 = y.2 → joined x.1 < joined y.1 := by
  unfold InTime
  rw [List.pairwise_map]

/-- Placing keeps a pairwise property that the placed order has with those it
is put behind and those it is put before. -/
theorem pairwise_place {R : Order → Order → Prop} {s : Slot} {o : Order} :
    ∀ {l : List Order}, l.Pairwise (fun x y => ¬ s.better y.level x.level) → l.Pairwise R →
      (∀ x ∈ l, ¬ s.better o.level x.level → R x o) →
      (∀ x ∈ l, s.better o.level x.level → R o x) → (place s o l).Pairwise R
  | [], _, _, _, _ => List.pairwise_singleton ..
  | x :: l, hs, hr, hafter, hbefore => by
    obtain ⟨hsx, hsl⟩ := List.pairwise_cons.mp hs
    obtain ⟨hrx, hrl⟩ := List.pairwise_cons.mp hr
    rw [place]
    split
    · rename_i hb
      -- the list is sorted, so everything from here on is worse
      refine List.pairwise_cons.mpr ⟨fun y hy => hbefore y hy ?_, hr⟩
      rcases List.mem_cons.mp hy with rfl | hy
      · exact hb
      · exact Slot.better_of_not_better hb (hsx y hy)
    · rename_i hb
      refine List.pairwise_cons.mpr ⟨fun y hy => ?_, pairwise_place hsl hrl
        (fun y hy => hafter y (List.mem_cons_of_mem _ hy))
        (fun y hy => hbefore y (List.mem_cons_of_mem _ hy))⟩
      rcases mem_place.mp hy with rfl | hy
      · exact hafter x List.mem_cons_self hb
      · exact hrx y hy

/-- Moments of other orders do not matter. -/
theorem InTime.congr {joined joined' : Nat → Nat} {l : List Order} (h : InTime joined l)
    (he : ∀ o ∈ l, joined' o.orderId = joined o.orderId) : InTime joined' l := by
  unfold InTime at *
  refine h.imp_of_mem (fun {x y} hx hy hxy hl => ?_)
  rw [he x hx, he y hy]
  exact hxy hl

/-- An execution of a taker that joins now keeps the queues in time. -/
theorem Timely.execute {c : Config} {a : Lob} {joined : Nat → Nat} {clock : Nat}
    (h : Timely joined clock a) (hok : a.Ok c) {t : Order}
    (hne : ∀ s o, o ∈ a s → o.orderId ≠ t.orderId) (gen : Nat → Nat) (s : Slot) (idx : Nat) :
    Timely (Function.update joined t.orderId clock) (clock + 1) (a.execute c gen s t idx).lob := by
  have hold : ∀ s o, o ∈ a s → Function.update joined t.orderId clock o.orderId = joined o.orderId :=
    fun s o ho => Function.update_of_ne (hne s o ho) _ _
  have hkeep : ∀ s, InTime (Function.update joined t.orderId clock) (a s) := fun s =>
    (h.inTime s).congr (hold s)
  refine ⟨fun s' => ?_, fun s' o ho => ?_⟩
  · by_cases hs : s' = s
    · subst hs
      rw [Lob.execute_self]
      split
      · exact hkeep s'
      · -- behind those of its level, which joined before now
        refine pairwise_place (hok.sorted s') (hkeep s') (fun x hx _ _ => ?_)
          (fun x hx hb hl => ?_)
        · rw [hold s' x hx]
          exact (h.past s' x hx).trans_eq (Function.update_self t.orderId clock joined).symm
        · rw [hl] at hb
          exact absurd hb (Slot.better_irrefl s' _)
    · obtain rfl : s' = s.flip := Slot.eq_flip hs
      rw [Lob.execute_flip, inTime_iff]
      exact (inTime_iff.mp (hkeep s.flip)).sublist (sweep_rest_suffix _ _).sublist
  · rcases Lob.mem_execute c gen ho with ⟨m, hm, k, -, rfl⟩ | ⟨rfl, hid⟩
    · rw [Order.fill_orderId, hold s' m hm]
      exact Nat.lt_succ_of_lt (h.past s' m hm)
    · rw [hid, Function.update_self]
      exact Nat.lt_succ_self clock

/-- Orders leaving and orders changed in place keep the queues in time. -/
theorem Timely.keep {a a' : Lob} {joined joined' : Nat → Nat} {clock : Nat}
    (h : Timely joined clock a)
    (hsub : ∀ s, ((a' s).map fun o => (o.orderId, o.level)).Sublist
      ((a s).map fun o => (o.orderId, o.level)))
    (hj : ∀ s o, o ∈ a' s → joined' o.orderId = joined o.orderId) :
    Timely joined' (clock + 1) a' := by
  refine ⟨fun s => ?_, fun s o ho => ?_⟩
  · exact (inTime_iff.mpr ((inTime_iff.mp (h.inTime s)).sublist (hsub s))).congr (hj s)
  · -- an order that is there was there before, under the same id
    have hm : (o.orderId, o.level) ∈ (a s).map fun o => (o.orderId, o.level) :=
      (hsub s).subset (List.mem_map.mpr ⟨o, ho, rfl⟩)
    obtain ⟨m, hm, he⟩ := List.mem_map.mp hm
    have hid : m.orderId = o.orderId := congrArg Prod.fst he
    rw [hj s o ho, ← hid]
    exact Nat.lt_succ_of_lt (h.past s m hm)

/-- One request: orders keep their turn, and the one that enters is the latest. -/
theorem Timely.step {c : Config} {gen : Nat → Nat} {a : Lob} {joined : Nat → Nat} {clock : Nat}
    {req : OrderRequest} {ans : Answer} (hok : a.Ok c) (hreq : WellFormed c a req) (h : Timely joined clock a)
    (hout : Lob.Outcome c gen a req ans) :
    Timely (rejoin c a req ans.recs joined clock) (clock + 1) ans.lob := by
  have hquiet : ∀ {r : OrderResponse} {rs : List OrderResponse}, joins c a req r = false →
      rejoin c a req (r :: rs) joined clock = joined := by
    intro r rs hr
    unfold rejoin
    rw [List.head?_cons, Option.any_some, hr]
    rfl
  have hjoin : ∀ {r : OrderResponse} {rs : List OrderResponse}, joins c a req r = true →
      rejoin c a req (r :: rs) joined clock = Function.update joined req.combinedId clock := by
    intro r rs hr
    unfold rejoin
    rw [List.head?_cons, Option.any_some, hr]
    rfl
  cases hout with
  | rejected qRem code =>
    refine h.keep (fun s => List.Sublist.refl _) (fun s o _ => ?_)
    rw [Lob.reject, hquiet (by simp [joins, Config.response])]
  | entered hact hnone hvalid hp hq hmax =>
    rw [Answer.after_recs, hjoin (by simp [joins, Lob.newRecord, Config.response])]
    exact h.execute hok (t := State.createOrder req)
      (fun s o ho => Lob.find_eq_none hnone ho) gen _ _
  | cancelled hact hfind =>
    refine h.keep (fun s => (List.filter_sublist).map _) (fun s o _ => ?_)
    rw [hquiet (by simp [joins, Lob.cancelRecord, Config.response])]
  | @kept s o hact hfind hq hvalid hexec hlevel hqty =>
    refine h.keep (fun s => List.Sublist.refl _) (fun s o _ => ?_)
    have hstays : ¬ requeues c a req = true := by
      rw [hreq.requeues_iff hfind]
      rintro (hmove | hraise)
      · exact hmove hlevel
      · omega
    rw [hquiet]
    simp [joins, hstays, Lob.replaceRecord, Config.response]
  | @finished s o hact hfind hq hvalid hexec hmove =>
    -- whatever its moment was, the order is gone
    refine h.keep (fun s => (List.filter_sublist).map _) (fun s' x hx => ?_)
    have hne : x.orderId ≠ req.combinedId := by
      rw [← (Lob.mem_of_find hfind).2]
      exact (Lob.mem_remove.mp hx).2
    unfold rejoin
    split
    · exact Function.update_of_ne hne _ _
    · rfl
  | @requeued s o hact hfind hq hvalid hexec hmove =>
    have hid := (Lob.mem_of_find hfind).2
    have hkeep : Timely joined clock (a.remove o.orderId) :=
      ⟨fun s => (h.inTime s).filter _, fun s x hx => h.past s x (Lob.mem_remove.mp hx).1⟩
    rw [Answer.after_recs, hjoin]
    · have := hkeep.execute (hok.remove o.orderId) (t := o.resized (req.newQty o))
        (fun s x hx => (Lob.mem_remove.mp hx).2) gen s (req.target c o)
      rw [← hid]
      exact this
    · have hmoves : requeues c a req = true := (hreq.requeues_iff hfind).mpr hmove
      simp [joins, hmoves, Lob.replaceRecord, Config.response]
  | @shrunk s o hact hfind hq hvalid hexec hlevel hqty =>
    refine h.keep (fun s => ?_) (fun s' x hx => ?_)
    · -- ids and levels are as they were
      have hsame : ((a.resize o.orderId (req.newQty o) (req.newQty o - o.executed) s).map
          fun o => (o.orderId, o.level)) = (a s).map fun o => (o.orderId, o.level) := by
        unfold Lob.resize
        rw [List.map_map]
        refine List.map_congr_left (fun x _ => ?_)
        rw [Function.comp_apply]
        split <;> rfl
      rw [hsame]
    · have hstays : ¬ requeues c a req = true := by
        rw [hreq.requeues_iff hfind]
        rintro (hmove | hraise)
        · exact hmove hlevel
        · omega
      rw [hquiet]
      simp [joins, hstays, Lob.replaceRecord, Config.response]

/-- In every timed run each queue stands in the order its orders joined. -/
theorem TimedRun.timely {c : Config} {st : State} {joined : Nat → Nat} {clock : Nat}
    (h : TimedRun c st joined clock) : Timely joined clock st.book.lob := by
  induction h with
  | fresh gen =>
    rw [fresh_lob]
    exact ⟨fun _ => List.Pairwise.nil, fun _ _ ho => absurd ho List.not_mem_nil⟩
  | step hst hreq hrun hlog ih =>
    obtain ⟨hlob, hlog', -⟩ := hst.reachable.step_answer hreq hrun
    obtain rfl := List.append_cancel_left (hlog.symm.trans hlog')
    rw [hlob]
    exact Timely.step hst.reachable.ok hreq ih (Lob.step_outcome ..)

/-! ## The greedy allocation -/

/-- The trades of a quantity `r` with the makers, one after the other, each at
its own price. -/
def greedy (c : Config) : Nat → List Order → List (Nat × Int × Nat)
  | _, [] => []
  | r, m :: ms =>
    if r = 0 then []
    else (m.orderId, c.plToPrice m.level, min m.qtyRemaining r) ::
      greedy c (r - min m.qtyRemaining r) ms

/-- The makers' ids, prices and quantities in the trade records of a taker. -/
def makerTrades (taker : Nat) (recs : List OrderResponse) : List (Nat × Int × Nat) :=
  (recs.filter fun r => r.isTrade ∧ r.combinedId ≠ taker).map fun r => (r.combinedId, r.p, r.q)

/-- `x` comes before `y` by price, then by time. -/
def Before (joined : Nat → Nat) (s : Slot) (x y : Order) : Prop :=
  s.better x.level y.level ∨ (x.level = y.level ∧ joined x.orderId < joined y.orderId)

@[simp] theorem greedy_zero (c : Config) (ms : List Order) : greedy c 0 ms = [] := by
  cases ms <;> rfl

/-- On a sorted side a sweep is the greedy allocation over what crosses. -/
theorem sweep_fills_greedy {c : Config} {s : Slot} {idx : Nat} (ms : List Order) (r : Nat) :
    ms.Pairwise (fun x y => ¬ s.flip.better y.level x.level) →
      ((sweep (State.crossed s idx) r ms).fills.map fun f =>
        (f.maker.orderId, c.plToPrice f.maker.level, f.qty)) =
      greedy c r (ms.filter fun m => State.crossed s idx m.level) := by
  refine sweep_induction (P := fun r ms w => ms.Pairwise (fun x y => ¬ s.flip.better y.level x.level) →
    (w.fills.map fun f => (f.maker.orderId, c.plToPrice f.maker.level, f.qty)) =
      greedy c r (ms.filter fun m => State.crossed s idx m.level)) (fun _ _ => rfl)
    (fun r m ms hstop hs => ?_) (fun r m ms w hr hx hle ih hs => ?_)
    (fun r m ms hr hx hlt _ => ?_) ms r
  · rcases hstop with rfl | hx
    · simp
    · -- the first maker does not cross, so no later one does
      have hnone : (m :: ms).filter (fun m => State.crossed s idx m.level) = [] := by
        refine List.filter_eq_nil_iff.mpr (fun y hy => ?_)
        rcases List.mem_cons.mp hy with rfl | hy
        · simp [hx]
        · have hns := (List.pairwise_cons.mp hs).1 y hy
          have : State.crossed s idx y.level = false := by
            cases s <;> simp [State.crossed, Slot.flip, Slot.better] at * <;> omega
          simp [this]
      rw [hnone]
      rfl
  · rw [List.map_cons, List.filter_cons_of_pos (by simpa using hx), greedy, if_neg hr,
      Nat.min_eq_left hle, ih (List.pairwise_cons.mp hs).2]
  · rw [List.map_singleton, List.filter_cons_of_pos (by simpa using hx), greedy, if_neg hr,
      Nat.min_eq_right hlt.le, Nat.sub_self, greedy_zero]

/-- The makers' part of the trade records is the sweep's trades. -/
theorem makerTrades_trades (c : Config) {taker : Nat} (htk : taker < 2 ^ 64) (s : Slot) :
    ∀ {fs : List Fill} (gen : Nat → Nat),
      (∀ f ∈ fs, f.maker.orderId < 2 ^ 64 ∧ f.maker.orderId ≠ taker) →
      makerTrades taker (tradeRecords c taker s gen fs) =
        fs.map fun f => (f.maker.orderId, c.plToPrice f.maker.level, f.qty)
  | [], _, _ => rfl
  | f :: fs, gen, hfs => by
    obtain ⟨hlt, hne⟩ := hfs f List.mem_cons_self
    have ih := makerTrades_trades c htk s (fun k => gen (k + 1))
      (fun g hg => hfs g (List.mem_cons_of_mem _ hg))
    unfold makerTrades at *
    have hid₁ : (c.response (State.fillType f.left) taker (gen 0) s.side
        (c.plToPrice f.maker.level) f.qty f.left .none).combinedId = taker :=
      c.response_combinedId _ _ _ _ _ _ _ htk
    have hid₂ : (c.response (State.fillType f.makerLeft) f.maker.orderId (gen 0) s.flip.side
        (c.plToPrice f.maker.level) f.qty f.makerLeft .none).combinedId = f.maker.orderId :=
      c.response_combinedId _ _ _ _ _ _ _ hlt
    have ht₂ : (c.response (State.fillType f.makerLeft) f.maker.orderId (gen 0) s.flip.side
        (c.plToPrice f.maker.level) f.qty f.makerLeft .none).isTrade = true :=
      isTrade_iff.mpr (fillType_trade _)
    rw [tradeRecords, List.filter_cons_of_neg (by simp [hid₁]),
      List.filter_cons_of_pos (by simp [hid₂, ht₂, hne]), List.map_cons, ih, hid₂]
    rfl

/-! ## The end of the level's queue -/

/-- The order at the end of a side's orders of one level is the one the level's
queue ends with. -/
theorem Reachable.queue_last {c : Config} {st : State} (h : Reachable c st) {s : Slot} {o : Order}
    {l : List Order}
    (hl : (st.book.lob s).filter (fun x => x.level = o.level) = l ++ [o]) :
    ∃ p, (st.book.queueOf o.level).getLast? = some p ∧ st.book.orders p = some o ∧
      o.priceLevel = some o.level ∧ o.level ∈ st.book.activeLevels s := by
  obtain ⟨⟨q, hq⟩, -, -⟩ := h.inv
  have hmem : o ∈ st.book.lob s := by
    have : o ∈ (st.book.lob s).filter (fun x => x.level = o.level) := by simp [hl]
    exact (List.mem_filter.mp this).1
  rw [hq.lob_eq] at hl hmem
  obtain ⟨i, p', hi, hp', he⟩ := mem_flat.mp hmem
  have hlev : o.level = i := by rw [← he, hq.alive.level hp']
  rw [hlev, hq.filter_flat hi] at hl
  have hlast : ((q i).map (deref st.book.orders)).getLast? = some o := by
    show (contents st.book.orders q i).getLast? = some o
    rw [hl]
    simp
  rw [List.getLast?_map] at hlast
  obtain ⟨p, hp, hpo⟩ := Option.map_eq_some_iff.mp hlast
  have hpq := List.mem_of_getLast? hp
  refine ⟨p, ?_, ?_, ?_, hlev ▸ hi⟩
  · rw [hlev, hq.queueOf_eq (hq.inRange hi)]
    exact hp
  · rw [(hq.alive.deref hpq).1, hpo]
  · rw [← hpo]
    rw [(hq.alive.deref hpq).2.1, hq.alive.level hpq]

/-! ## Priority -/

/-- What a request that reaches `match` brings to it: the price it may trade up or down to, which a market
order does not have, and the quantity that is still to trade. -/
structure Taker where
  limit : Option Int
  qty : Nat

/-- The taker of a new order, or of a replacement of a resting one. -/
def OrderRequest.taker (c : Config) (a : Lob) (req : OrderRequest) : Option Taker :=
  if req.action = .new then some ⟨if req.type = .market then none else some req.p, req.q⟩
  else (a.find req.combinedId).map fun so => ⟨some (req.newPrice c so.2), req.newQty so.2 - so.2.executed⟩

/-- The limit reaches the price of the opposite order. -/
def Taker.Crosses (c : Config) (s : Slot) (t : Taker) (o : Order) : Prop :=
  ∀ limit, t.limit = some limit →
    match s with
    | .bid => c.plToPrice o.level ≤ limit
    | .ask => limit ≤ c.plToPrice o.level

/-- The last level that a taker of this side can reach. -/
def Slot.farthest (c : Config) (s : Slot) : Nat :=
  match s with
  | .bid => c.maxPriceLevels - 1
  | .ask => 0

/-- The level of a remainder: that of the limit, and without one the last that the side can reach. -/
def Taker.RestsAt (c : Config) (s : Slot) (t : Taker) (i : Nat) : Prop :=
  match t.limit with
  | some limit => c.plToPrice i = limit
  | none => i = s.farthest c

/-- The request is accepted and reaches `match`: a new order, or a replacement that requeues and has
something left to trade. -/
def ReachesMatch (c : Config) (a : Lob) (req : OrderRequest) (ack : OrderResponse) : Prop :=
  ack.execType = .new ∨
    (ack.execType = .replaced ∧ requeues c a req ∧ ∀ t, req.taker c a = some t → t.qty ≠ 0)

/-- The loop's test compares indices as one compares prices. -/
theorem crossed_iff (c : Config) {s : Slot} {idx j : Nat} :
    State.crossed s idx j = true ↔
      match s with
      | .bid => c.plToPrice j ≤ c.plToPrice idx
      | .ask => c.plToPrice idx ≤ c.plToPrice j := by
  cases s <;> simp [State.crossed, c.plToPrice_le]

/-- The quantity in a list of trades. -/
def tradedQty (trades : List (Nat × Int × Nat)) : Nat := (trades.map (·.2.2)).sum

/-- The taker `t` of order `id` traded along price-time priority from the book `a`, whose orders joined at
`joined`, and is gone or rests at the end of its queue in `b`. -/
structure Prioritized (c : Config) (a : Lob) (joined : Nat → Nat) (s : Slot) (t : Taker) (id : Nat)
    (recs : List OrderResponse) (b : OrderBook) : Prop where
  /-- The makers are the crossing orders, strictly by price and time, and the
  trades are the greedy allocation over them. -/
  trades : ∃ makers, (∀ o, o ∈ makers ↔ o ∈ a s.flip ∧ t.Crosses c s o) ∧
    makers.Pairwise (Before joined s.flip) ∧ makerTrades id recs = greedy c t.qty makers
  /-- The taker is filled and gone, or nothing crosses it and its remainder is
  the last of its level, which is the one of its limit. -/
  rest : (b.activeOrders id = none ∧ tradedQty (makerTrades id recs) = t.qty) ∨
    ((∀ o ∈ b.lob s.flip, ¬ t.Crosses c s o) ∧ ∃ p o, b.orders p = some o ∧ o.orderId = id ∧
      o.priceLevel = some o.level ∧ t.RestsAt c s o.level ∧ o.level ∈ b.activeLevels s ∧
      (b.queueOf o.level).getLast? = some p ∧
      o.qtyRemaining + tradedQty (makerTrades id recs) = t.qty)

/-- An order that the sides do not hold is not in `active_orders_`. -/
theorem Reachable.active_none {c : Config} {st : State} (h : Reachable c st) {id : Nat}
    (hn : ∀ s o, o ∈ st.book.lob s → o.orderId ≠ id) : st.book.activeOrders id = none := by
  obtain ⟨⟨q, hq⟩, -, -⟩ := h.inv
  cases hact : st.book.activeOrders id with
  | none => rfl
  | some p =>
    obtain ⟨s, i, o, hfind, -, -, -, hid, -⟩ := hq.active_some hact
    rw [← hq.lob_eq] at hfind
    exact absurd hid (hn s o (Lob.mem_of_find hfind).1)

/-- What an execution does, in terms of the book it starts from. -/
theorem execute_prioritized {c : Config} {a : Lob} {joined : Nat → Nat} {clock : Nat} (hok : a.Ok c)
    (htime : Timely joined clock a) {t : Order} (hid : t.orderId < 2 ^ 64)
    (hne : ∀ s o, o ∈ a s → o.orderId ≠ t.orderId) (gen : Nat → Nat) (s : Slot) (idx : Nat)
    {tk : Taker} (hX : ∀ o : Order, o.level < c.maxPriceLevels →
      (tk.Crosses c s o ↔ State.crossed s idx o.level = true)) (hidx : tk.RestsAt c s idx)
    (hqty : tk.qty = t.qtyRemaining)
    {st' : State} (h' : Reachable c st') (hlob : st'.book.lob = (a.execute c gen s t idx).lob) :
    Prioritized c a joined s tk t.orderId (a.execute c gen s t idx).recs st'.book := by
  have hrecs : makerTrades t.orderId (a.execute c gen s t idx).recs =
      (sweep (State.crossed s idx) t.qtyRemaining (a s.flip)).fills.map fun f =>
        (f.maker.orderId, c.plToPrice f.maker.level, f.qty) := by
    refine makerTrades_trades c hid s gen (fun f hf => ?_)
    have hm := mem_sweep_fills _ _ hf
    exact ⟨(hok.sane hm).id, hne _ _ hm⟩
  refine ⟨⟨(a s.flip).filter fun m => State.crossed s idx m.level, fun o => ?_, ?_, ?_⟩, ?_⟩
  · rw [List.mem_filter]
    constructor
    · intro ho
      exact ⟨ho.1, (hX o (hok.level ho.1).2).mpr (by simpa using ho.2)⟩
    · intro ho
      exact ⟨ho.1, by simpa using (hX o (hok.level ho.1).2).mp ho.2⟩
  · -- best price first, then by time
    refine List.Pairwise.filter _ (((hok.sorted s.flip).and (htime.inTime s.flip)).imp ?_)
    intro x y h
    unfold Before
    by_cases hl : x.level = y.level
    · exact Or.inr ⟨hl, h.2 hl⟩
    · left
      have := h.1
      cases s <;> simp [Slot.flip, Slot.better] at * <;> omega
  · rw [hqty, hrecs, sweep_fills_greedy _ _ (hok.sorted s.flip)]
  · have htotal := sweep_total (x := State.crossed s idx) (a s.flip) t.qtyRemaining
    have htraded : tradedQty (makerTrades t.orderId (a.execute c gen s t idx).recs) =
        ((sweep (State.crossed s idx) t.qtyRemaining (a s.flip)).fills.map Fill.qty).sum := by
      rw [hrecs, tradedQty, List.map_map]
      rfl
    have hself := a.execute_self c gen s t idx
    rw [← hlob] at hself
    by_cases hz : (sweep (State.crossed s idx) t.qtyRemaining (a s.flip)).left = 0
    · -- filled: the taker is in neither list
      left
      refine ⟨h'.active_none (fun s' o ho e => ?_), by omega⟩
      by_cases hs : s' = s
      · subst hs
        rw [hself, if_pos hz] at ho
        exact hne s' o ho e
      · obtain rfl : s' = s.flip := Slot.eq_flip hs
        rw [hlob, Lob.execute_flip] at ho
        obtain ⟨m, hm, k, -, rfl⟩ := mem_sweep_rest _ _ ho
        exact hne s.flip m hm e
    · -- the remainder is placed, and an uncrossed book keeps the other side away
      right
      rw [if_neg hz] at hself
      have hlast := place_filter (o := { t with
        priceLevel := some idx
        qtyRemaining := (sweep (State.crossed s idx) t.qtyRemaining (a s.flip)).left }) (hok.sorted s)
      rw [← hself] at hlast
      obtain ⟨p, hp, hpo, hlev, hact⟩ := h'.queue_last hlast
      refine ⟨fun o ho hXo => ?_, p, _, hpo, rfl, hlev, hidx, hact, hp, by dsimp only; omega⟩
      have hmine : { t with
          priceLevel := some idx
          qtyRemaining := (sweep (State.crossed s idx) t.qtyRemaining (a s.flip)).left } ∈
          st'.book.lob s := by
        rw [hself]
        exact mem_place.mpr (Or.inl rfl)
      have hx := (hX o (h'.ok.level ho).2).mp hXo
      have hmyLevel : ∀ q, Order.level { t with priceLevel := some idx, qtyRemaining := q } = idx :=
        fun _ => rfl
      cases s
      · have := h'.ok.uncrossed hmine ho
        rw [hmyLevel] at this
        simp [State.crossed] at hx
        omega
      · have := h'.ok.uncrossed ho hmine
        rw [hmyLevel] at this
        simp [State.crossed] at hx
        omega

/-- A taker with a limit crosses and rests as the level of its limit says. -/
theorem Taker.of_limit {c : Config} {s : Slot} {t : Taker} {idx : Nat} (hlimit : t.limit = some (c.plToPrice idx)) :
    (∀ o : Order, t.Crosses c s o ↔ State.crossed s idx o.level = true) ∧ t.RestsAt c s idx := by
  refine ⟨fun o => ?_, ?_⟩
  · rw [crossed_iff c]
    constructor
    · exact fun h => h _ hlimit
    · intro h limit hsome
      rw [← Option.some.inj (hlimit.symm.trans hsome)]
      exact h
  · unfold Taker.RestsAt
    rw [hlimit]

/-- A new order's index: the orders it crosses, and where it rests. -/
theorem newIndex_taker {c : Config} {a : Lob} {req : OrderRequest} (hreq : WellFormed c a req)
    (hact : req.action = .new) {s : Slot} (hs : req.side = s.side)
    (hp : ¬ (req.p ≤ 0 ∧ req.type = .limit)) {t : Taker} (ht : req.taker c a = some t) :
    (∀ o : Order, o.level < c.maxPriceLevels →
      (t.Crosses c s o ↔ State.crossed s (State.newIndex c req) o.level = true)) ∧
    t.RestsAt c s (State.newIndex c req) ∧ t.qty = req.q := by
  unfold OrderRequest.taker at ht
  rw [if_pos hact] at ht
  obtain rfl := Option.some.inj ht
  rcases hreq.type hact with htype | htype
  · -- a limit order: its price is the price of its index
    obtain ⟨i, -, hpi, hidx⟩ := hreq.limit_index htype hp
    have hne : ¬ req.type = .market := by
      rw [htype]
      decide
    rw [hidx, if_neg hne, hpi]
    obtain ⟨hcross, hrest⟩ := Taker.of_limit (s := s) (t := ⟨some (c.plToPrice i), req.q⟩) rfl
    exact ⟨fun o _ => hcross o, hrest, rfl⟩
  · -- a market order stands at the end of the array and reaches every level
    have hidx : State.newIndex c req = s.farthest c := by
      unfold State.newIndex
      rw [if_pos htype, hs]
      cases s <;> rfl
    rw [if_pos htype]
    refine ⟨fun o ho => ?_, hidx, rfl⟩
    have hall : State.crossed s (State.newIndex c req) o.level = true := by
      rw [hidx]
      cases s
      · exact decide_eq_true (Nat.le_sub_one_of_lt ho)
      · exact decide_eq_true o.level.zero_le
    exact ⟨fun _ => hall, fun _ _ hsome => by cases hsome⟩

/-- Strict price-time priority: the trades of a request that reaches `match` are
the greedy allocation of what it asks for over the orders its limit crosses, by price
and time, and the taker ends gone or last in the queue of its limit with nothing left
to cross. -/
theorem price_time_priority {c : Config} {st st' : State} {joined : Nat → Nat} {clock : Nat}
    {req : OrderRequest} {ack : OrderResponse} {recs : List OrderResponse}
    (h : TimedRun c st joined clock) (hreq : WellFormed c st.book.lob req)
    (hrun : st.processRequest req = some st') (hlog : st'.log = st.log ++ ack :: recs)
    (hmatch : ReachesMatch c st.book.lob req ack) :
    ∃ s t, req.side = s.side ∧ req.taker c st.book.lob = some t ∧
      Prioritized c st.book.lob joined s t req.combinedId recs st'.book := by
  obtain ⟨hlob, hlog', -⟩ := h.reachable.step_answer hreq hrun
  have h' := h.reachable.step hreq hrun
  have hok := h.reachable.ok
  have hout := Lob.step_outcome c st.gen st.book.lob req
  have hrecs := List.append_cancel_left (hlog'.symm.trans hlog)
  -- a replacement that changes nothing or only lowers the quantity does not reach `match`
  have hstays : ∀ {s o}, st.book.lob.find req.combinedId = some (s, o) → o.level = req.target c o →
      req.newQty o ≤ o.qtyOriginal → ¬ requeues c st.book.lob req = true := by
    intro s o hfind hlevel hqty
    rw [hreq.requeues_iff hfind]
    rintro (hmove | hraise)
    · exact hmove hlevel
    · omega
  -- the taker of a replacement
  have htaker : ∀ {s o}, req.action = .modify → st.book.lob.find req.combinedId = some (s, o) →
      req.taker c st.book.lob = some ⟨some (c.plToPrice (req.target c o)), req.newQty o - o.executed⟩ := by
    intro s o hact hfind
    unfold OrderRequest.taker
    rw [hact, if_neg (by decide), hfind, Option.map_some, hreq.newPrice]
  generalize Lob.step c st.gen st.book.lob req = ans at hlob hrecs hout
  cases hout with
  | rejected qRem code =>
    obtain ⟨rfl, -⟩ := List.cons.inj hrecs
    simp [ReachesMatch, Config.response] at hmatch
  | cancelled hact hfind =>
    obtain ⟨rfl, -⟩ := List.cons.inj hrecs
    simp [ReachesMatch, Lob.cancelRecord, Config.response] at hmatch
  | @kept s o hact hfind hq hvalid hexec hlevel hqty =>
    obtain ⟨rfl, -⟩ := List.cons.inj hrecs
    simp [ReachesMatch, hstays hfind hlevel hqty.le, Lob.replaceRecord, Config.response] at hmatch
  | @finished s o hact hfind hq hvalid hexec hmove =>
    obtain ⟨rfl, -⟩ := List.cons.inj hrecs
    simp [ReachesMatch, htaker hact hfind, Lob.replaceRecord, Config.response, hexec] at hmatch
  | @shrunk s o hact hfind hq hvalid hexec hlevel hqty =>
    obtain ⟨rfl, -⟩ := List.cons.inj hrecs
    simp [ReachesMatch, hstays hfind hlevel hqty.le, Lob.replaceRecord, Config.response] at hmatch
  | entered hact hnone hvalid hp hq hmax =>
    obtain ⟨s, hs⟩ := hreq.side
    have hslot := OrderRequest.slot_of_side hs
    obtain ⟨rfl, rfl⟩ := List.cons.inj hrecs
    rw [Answer.after_lob, hslot] at hlob
    rw [hslot]
    obtain ⟨t, ht⟩ : ∃ t, req.taker c st.book.lob = some t := ⟨_, if_pos hact⟩
    obtain ⟨hcross, hrest, hqty⟩ := newIndex_taker hreq hact hs hp ht
    exact ⟨s, t, hs, ht, execute_prioritized hok h.timely (t := State.createOrder req) req.combinedId_lt
      (fun s o ho => Lob.find_eq_none hnone ho) st.gen s (State.newIndex c req) hcross hrest hqty h' hlob⟩
  | @requeued s o hact hfind hq hvalid hexec hmove =>
    obtain ⟨hmem, hid⟩ := Lob.mem_of_find hfind
    obtain ⟨rfl, rfl⟩ := List.cons.inj hrecs
    have hkeep : Timely joined clock (st.book.lob.remove o.orderId) :=
      ⟨fun s => (h.timely.inTime s).filter _, fun s x hx => h.timely.past s x (Lob.mem_remove.mp hx).1⟩
    obtain ⟨hcross, hrest⟩ := Taker.of_limit (s := s)
      (t := ⟨some (c.plToPrice (req.target c o)), req.newQty o - o.executed⟩) rfl
    have hprio := execute_prioritized (hok.remove o.orderId) hkeep (t := o.resized (req.newQty o))
      (hok.sane hmem).id (fun s x hx => (Lob.mem_remove.mp hx).2) st.gen s (req.target c o)
      (fun x _ => hcross x) hrest rfl h' hlob
    refine ⟨s, _, hreq.named (Or.inr hact) s o hfind, htaker hact hfind, ⟨?_, ?_⟩⟩
    · rw [← hid, ← hok.remove_flip hmem]
      exact hprio.trades
    · rw [← hid]
      exact hprio.rest

/-- In the sample run the fourth request takes the first offer and part of the
second. -/
theorem sample_priority : ∃ st st' joined clock recs, TimedRun sampleConfig st joined clock ∧
    st.processRequest (sampleRequest .new 4 .buy 20 9) = some st' ∧
    makerTrades (sampleRequest .new 4 .buy 20 9).combinedId recs =
      [(4294967297, 20, 7), (4294967298, 20, 2)] ∧
    ∃ s, Prioritized sampleConfig st.book.lob joined s ⟨some 20, 9⟩
      (sampleRequest .new 4 .buy 20 9).combinedId recs st'.book := by
  obtain ⟨st, hst, hP⟩ := Reachable.of_serve sampleConfig id (sampleRequests.take 3)
    (fun st => WellFormed sampleConfig st.book.lob (sampleRequest .new 4 .buy 20 9) ∧
      (st.processRequest (sampleRequest .new 4 .buy 20 9)).any fun st' =>
        (st'.log.drop st.log.length).head?.any (·.execType = .new) ∧
        st'.log = st.log ++ st'.log.drop st.log.length ∧
        makerTrades (sampleRequest .new 4 .buy 20 9).combinedId
          (st'.log.drop st.log.length).tail = [(4294967297, 20, 7), (4294967298, 20, 2)])
    (by decide +kernel)
  obtain ⟨hreq, hrun⟩ := of_decide_eq_true hP
  obtain ⟨st', hrun, hP'⟩ := (Option.any_eq_true ..).mp hrun
  obtain ⟨hack, hlog, htrades⟩ := of_decide_eq_true hP'
  obtain ⟨ack, hhead, hnew⟩ := (Option.any_eq_true ..).mp hack
  obtain ⟨joined, clock, ht⟩ := hst.timed
  rw [← List.cons_head?_tail hhead] at hlog
  obtain ⟨s, t, -, htaker, hprio⟩ := price_time_priority ht hreq hrun hlog (Or.inl (of_decide_eq_true hnew))
  obtain rfl := Option.some.inj htaker
  exact ⟨st, st', joined, clock, _, ht, hrun, htrades, s, hprio⟩

end Exchange
