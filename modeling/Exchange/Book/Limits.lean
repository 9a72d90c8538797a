import Exchange.Book.Priority
import Exchange.Book.Stands

/-!
# What an order is filled at

A limit is compared as an index, and `price_to_index` truncates: a price between two levels goes to
the one nearer to zero. For the bid of a positive price that is a better limit than it asked for,
and for the offer a worse one, which is then filled below its price. `fills_respect_limits` is what
holds as long as no order is accepted at such a price.

The prices of the requests are any that the book accepts. One step behind the last level is among
them; an order that would rest there leaves the price array, and the run ends.
-/

namespace Exchange

/-- A price that is no worse for the side than the limit. -/
def Slot.Honours (s : Slot) (limit p : Int) : Prop :=
  match s with
  | .bid => p ≤ limit
  | .ask => limit ≤ p

/-- A level that is crossed has a price that the limit allows. -/
theorem Slot.Honours.crossed {s : Slot} {c : Config} {limit : Int} {i j : Nat}
    (h : s.Honours limit (c.plToPrice i)) (hx : State.crossed s i j = true) :
    s.Honours limit (c.plToPrice j) := by
  have hcross := (crossed_iff c).mp hx
  cases s with
  | bid => exact le_trans hcross h
  | ask => exact le_trans h hcross

/-! ## Truncation -/

/-- The level of an accepted price, as a price. -/
theorem Config.plToPrice_priceToIndex (c : Config) {p : Int} (h : c.priceInvalid p = 0) :
    c.plToPrice (c.priceToIndex p) = p.tdiv c.minStep * c.minStep := by
  have hlt := c.levels_lt
  unfold Config.priceInvalid at h
  split at h
  · cases h
  split at h
  · cases h
  rename_i hlow hhigh
  have hidx : (c.priceToIndex p : Int) = p.tdiv c.minStep - c.priceIndexOffset := by
    unfold Config.priceToIndex
    omega
  unfold Config.plToPrice
  rw [hidx, Int.sub_add_cancel]

/-- The side gains by the truncation of the price, or nothing is truncated. -/
def Config.Rounds (c : Config) (s : Slot) (p : Int) : Prop :=
  c.minStep ∣ p ∨
    match s with
    | .bid => 0 ≤ p
    | .ask => p ≤ 0

instance (c : Config) (s : Slot) (p : Int) : Decidable (c.Rounds s p) :=
  match s with
  | .bid => inferInstanceAs (Decidable (c.minStep ∣ p ∨ 0 ≤ p))
  | .ask => inferInstanceAs (Decidable (c.minStep ∣ p ∨ p ≤ 0))

/-- Rounding to a level does not go past the limit, where it is fair. -/
theorem Config.Rounds.honours {c : Config} {s : Slot} {p : Int} (h : c.Rounds s p)
    (hvalid : c.priceInvalid p = 0) : s.Honours p (c.plToPrice (c.priceToIndex p)) := by
  rw [c.plToPrice_priceToIndex hvalid]
  rcases h with hdvd | hsign
  · rw [Int.tdiv_mul_cancel hdvd]
    cases s with
    | bid => exact le_refl p
    | ask => exact le_refl p
  · have hsplit := Int.tdiv_mul_add_tmod p c.minStep
    cases s with
    | bid =>
      have hrest := Int.tmod_nonneg c.minStep hsign
      show p.tdiv c.minStep * c.minStep ≤ p
      omega
    | ask =>
      have hrest := Int.tmod_nonneg c.minStep (Int.neg_nonneg_of_nonpos hsign)
      rw [Int.neg_tmod] at hrest
      show p ≤ p.tdiv c.minStep * c.minStep
      omega

/-! ## Executions -/

/-- The trades of a sweep are at levels that cross. -/
theorem sweep_fills_crossed {x : Nat → Bool} {f : Fill} (ms : List Order) (r : Nat) :
    f ∈ (sweep x r ms).fills → x f.maker.level = true := by
  refine sweep_induction (P := fun _ _ w => f ∈ w.fills → x f.maker.level = true)
    (fun _ h => absurd h List.not_mem_nil) (fun _ _ _ _ h => absurd h List.not_mem_nil)
    (fun r m ms w _ hx _ ih h => ?_) (fun r m ms _ hx _ h => ?_) ms r
  · rcases List.mem_cons.mp h with rfl | h
    · exact hx
    · exact ih h
  · rw [List.mem_singleton.mp h]
    exact hx

/-- Each record of a sweep is the taker's or the maker's of one of its trades. -/
theorem mem_tradeRecords {c : Config} {taker : Nat} {s : Slot} {r : OrderResponse} :
    ∀ {gen : Nat → Nat} {fs : List Fill}, r ∈ tradeRecords c taker s gen fs →
      ∃ f ∈ fs, r.p = c.plToPrice f.maker.level ∧
        ((r.side = s.side ∧ r.orderId = orderIdOf taker ∧ r.clientId = clientIdOf taker) ∨
          (r.side = s.flip.side ∧ r.orderId = orderIdOf f.maker.orderId ∧
            r.clientId = clientIdOf f.maker.orderId))
  | _, [], h => absurd h List.not_mem_nil
  | _, f :: fs, h => by
    rw [tradeRecords] at h
    rcases List.mem_cons.mp h with rfl | h
    · exact ⟨f, List.mem_cons_self, rfl, Or.inl ⟨rfl, rfl, rfl⟩⟩
    rcases List.mem_cons.mp h with rfl | h
    · exact ⟨f, List.mem_cons_self, rfl, Or.inr ⟨rfl, rfl, rfl⟩⟩
    · obtain ⟨f', hf', hr⟩ := mem_tradeRecords h
      exact ⟨f', List.mem_cons_of_mem _ hf', hr⟩

/-- The latest limit price of each order that has one. -/
abbrev LimitPrices := Nat → Option Int

/-- No order rests at a price that is worse than its limit. -/
def Lob.Within (c : Config) (limit : LimitPrices) (a : Lob) : Prop :=
  ∀ s, ∀ o ∈ a s, ∀ L, limit o.orderId = some L → s.Honours L (c.plToPrice o.level)

theorem not_trade {r : OrderResponse} {e : ExecType} (hr : r.execType = e)
    (he : checkExec e execTrade = false) : ¬ r.isTrade = true := by
  rw [isTrade_of hr he]
  exact Bool.false_ne_true

/-- A record of a trade that is no worse than the limit `L` of its order. -/
def OrderResponse.Respects (r : OrderResponse) (L : Int) : Prop :=
  (r.side = .buy → r.p ≤ L) ∧ (r.side = .sell → L ≤ r.p)

/-- A record at a price that is honoured, of an order of that side. -/
theorem Slot.Honours.respects {s : Slot} {r : OrderResponse} {L : Int} (h : s.Honours L r.p)
    (hside : r.side = s.side) : r.Respects L := by
  unfold OrderResponse.Respects
  rw [hside]
  cases s with
  | bid => exact ⟨fun _ => h, Side.noConfusion⟩
  | ask => exact ⟨Side.noConfusion, fun _ => h⟩

section Execute

variable {c : Config} {limit : LimitPrices} {a : Lob} {s : Slot} {t : Order} {idx : Nat}

/-- A taker that is matched at no worse than its limit, and the makers at their own prices. -/
theorem Lob.Within.execute (gen : Nat → Nat) (h : a.Within c limit)
    (ht : ∀ L, limit t.orderId = some L → s.Honours L (c.plToPrice idx)) :
    (a.execute c gen s t idx).lob.Within c limit := by
  intro s' x hx L hL
  rcases Lob.mem_execute_stays hx with ⟨m, hm, hid, hlev, -⟩ | ⟨rfl, hid, hlev, -⟩
  · rw [hid] at hL
    rw [hlev]
    exact h s' m hm L hL
  · rw [hid] at hL
    rw [hlev]
    exact ht L hL

theorem Lob.Within.execute_respects (gen : Nat → Nat) (h : a.Within c limit) (hok : ∀ s, ∀ o ∈ a s, o.Sane)
    (htaker : t.orderId < 2 ^ 64) (ht : ∀ L, limit t.orderId = some L → s.Honours L (c.plToPrice idx))
    {r : OrderResponse} (hr : r ∈ (a.execute c gen s t idx).recs) {L : Int}
    (hL : limit r.combinedId = some L) : r.Respects L := by
  obtain ⟨f, hf, hp, ⟨hside, hoid, hcid⟩ | ⟨hside, hoid, hcid⟩⟩ := mem_tradeRecords hr
  · have hid : r.combinedId = t.orderId := by
      unfold OrderResponse.combinedId
      rw [hoid, hcid, combinedOrderId_parts htaker]
    rw [hid] at hL
    refine Slot.Honours.respects (s := s) ?_ hside
    rw [hp]
    exact (ht L hL).crossed (sweep_fills_crossed _ _ hf)
  · have hmaker := mem_sweep_fills _ _ hf
    have hid : r.combinedId = f.maker.orderId := by
      unfold OrderResponse.combinedId
      rw [hoid, hcid, combinedOrderId_parts (hok _ _ hmaker).id]
    rw [hid] at hL
    refine Slot.Honours.respects (s := s.flip) ?_ hside
    rw [hp]
    exact h s.flip f.maker hmaker L hL

end Execute

/-! ## Runs -/

/-- The limit price of the order a request names, once its first record is sent. -/
def OrderRequest.limitAfter (req : OrderRequest) (recs : List OrderResponse) (limit : LimitPrices) :
    LimitPrices :=
  match recs.head?.map OrderResponse.execType with
  | some .new => Function.update limit req.combinedId (if req.type = .market then none else some req.p)
  | some .replaced => if req.p = 0 then limit else Function.update limit req.combinedId (some req.p)
  | _ => limit

/-- The request is accepted, and names a price. -/
def Lob.Admits (c : Config) (a : Lob) (req : OrderRequest) : Prop :=
  c.priceInvalid req.p = 0 ∧
    ((req.action = .new ∧ req.type ≠ .market ∧ a.find req.combinedId = none ∧
        ¬ (req.p ≤ 0 ∧ req.type = .limit) ∧ 1 ≤ req.q ∧ req.q ≤ globalMaxQty) ∨
      (req.action = .modify ∧ req.p ≠ 0 ∧ req.q ≤ globalMaxQty ∧
        ∃ so ∈ a.find req.combinedId, so.2.executed ≤ req.newQty so.2))

instance (c : Config) (a : Lob) (req : OrderRequest) : Decidable (a.Admits c req) :=
  inferInstanceAs (Decidable (_ ∧ (_ ∨ _)))

/-- An accepted price is not truncated to the order's loss. -/
def Fair (c : Config) (a : Lob) (req : OrderRequest) : Prop :=
  a.Admits c req → c.Rounds req.slot req.p

instance (c : Config) (a : Lob) (req : OrderRequest) : Decidable (Fair c a req) :=
  inferInstanceAs (Decidable (a.Admits c req → c.Rounds req.slot req.p))

/-- The states reached by requests that name the sides of their orders and meet `K`, with the
limit prices and the records sent, each with the limit price of its order at the time. -/
inductive LimitRun (K : Lob → OrderRequest → Prop) (c : Config) :
    State → LimitPrices → List (OrderResponse × Option Int) → Prop
  | fresh (gen : Nat → Nat) : LimitRun K c ⟨.fresh c, gen, []⟩ (fun _ => none) []
  | step {st st' : State} {limit : LimitPrices} {sent : List (OrderResponse × Option Int)}
      {req : OrderRequest} {recs : List OrderResponse} (h : LimitRun K c st limit sent)
      (hsided : Sided st.book.lob req) (hK : K st.book.lob req)
      (hrun : st.processRequest req = some st') (hlog : st'.log = st.log ++ recs) :
      LimitRun K c st' (req.limitAfter recs limit)
        (sent ++ recs.map fun r => (r, req.limitAfter recs limit r.combinedId))

section Step

variable {c : Config} {gen : Nat → Nat} {limit : LimitPrices} {a : Lob} {req : OrderRequest}

/-- Only the orders of that id are to be looked at when a limit changes. -/
theorem Lob.Within.update (h : a.Within c limit) {id : Nat} {v : Option Int}
    (hid : ∀ s, ∀ o ∈ a s, o.orderId = id → ∀ L, v = some L → s.Honours L (c.plToPrice o.level)) :
    a.Within c (Function.update limit id v) := by
  intro s o ho L hL
  by_cases he : o.orderId = id
  · rw [he, Function.update_self] at hL
    exact hid s o ho he L hL
  · rw [Function.update_of_ne he] at hL
    exact h s o ho L hL

theorem Lob.Within.remove (h : a.Within c limit) (id : Nat) : (a.remove id).Within c limit :=
  fun s o ho => h s o (List.mem_of_mem_filter ho)

/-- Without its order, a limit is of no account. -/
theorem Lob.Within.remove_update (h : a.Within c limit) (id : Nat) (v : Option Int) :
    (a.remove id).Within c (Function.update limit id v) :=
  (h.remove id).update fun _ _ ho he => absurd he (Lob.mem_remove.mp ho).2

/-- What the limit of a replaced order is, and that the level asked for is no worse. -/
theorem Lob.Within.replaced (hsided : Sided a req) (hfair : Fair c a req)
    (h : a.Within c limit) (hact : req.action = .modify) {s : Slot} {o : Order}
    (hfind : a.find req.combinedId = some (s, o)) (hq : req.q ≤ globalMaxQty)
    (hvalid : req.p ≠ 0 → c.priceInvalid req.p = 0) (hexec : o.executed ≤ req.newQty o)
    (tail : List OrderResponse) :
    let limit' := req.limitAfter (replaceRecord c req o (req.target c o) (req.newQty o) :: tail) limit
    (∀ L, limit' o.orderId = some L → s.Honours L (c.plToPrice (req.target c o))) ∧
      (∀ k, k ≠ o.orderId → limit' k = limit k) ∧ (a.remove o.orderId).Within c limit' := by
  obtain ⟨ho, hid⟩ := Lob.mem_of_find hfind
  have hlimit : req.limitAfter (replaceRecord c req o (req.target c o) (req.newQty o) :: tail) limit =
      if req.p = 0 then limit else Function.update limit req.combinedId (some req.p) := rfl
  dsimp only
  rw [hlimit, ← hid]
  by_cases hp : req.p = 0
  · rw [if_pos hp]
    refine ⟨fun L hL => ?_, fun k _ => rfl, h.remove _⟩
    unfold OrderRequest.target
    rw [if_neg (not_not.mpr hp)]
    exact h s o ho L hL
  · rw [if_neg hp]
    refine ⟨fun L hL => ?_, fun k hk => Function.update_of_ne hk _ _, h.remove_update _ _⟩
    rw [Function.update_self] at hL
    rw [← Option.some.inj hL]
    unfold OrderRequest.target
    rw [if_pos hp]
    have hadmits : a.Admits c req := ⟨hvalid hp, Or.inr ⟨hact, hp, hq, (s, o), hfind, hexec⟩⟩
    rw [← OrderRequest.slot_of_side (hsided.named (Or.inr hact) s o hfind)]
    exact (hfair hadmits).honours (hvalid hp)

/-- One request: the orders are within their limits again, and so is every trade. -/
theorem Lob.Within.step (hok : a.Ok c) (hsided : Sided a req) (hfair : Fair c a req)
    (h : a.Within c limit) {ans : Answer} (hout : Lob.Outcome c gen a req ans) :
    ans.lob.Within c (req.limitAfter ans.recs limit) ∧
      ∀ r ∈ ans.recs, r.isTrade = true → ∀ L, req.limitAfter ans.recs limit r.combinedId = some L →
        r.Respects L := by
  cases hout with
  | rejected qRem code =>
    refine ⟨h, fun r hr htrade => ?_⟩
    rw [List.mem_singleton.mp hr] at htrade
    exact absurd htrade (not_trade (e := .rejected) rfl (by decide))
  | cancelled hact hfind =>
    refine ⟨h.remove _, fun r hr htrade => ?_⟩
    rw [List.mem_singleton.mp hr] at htrade
    exact absurd htrade (not_trade (e := .cancelled) rfl (by decide))
  | entered hact hnone hvalid hp hq hmax =>
    have hlimit : req.limitAfter ((a.execute c gen req.slot (State.createOrder req)
        (State.newIndex c req)).after (newRecord c req)).recs limit =
        Function.update limit req.combinedId (if req.type = .market then none else some req.p) := rfl
    rw [hlimit]
    -- the new order is not in the book yet: its limit is anything
    have habsent : a.Within c
        (Function.update limit req.combinedId (if req.type = .market then none else some req.p)) :=
      h.update fun s o ho he => absurd he (Lob.find_eq_none hnone ho)
    -- a market order has none, and the level of a limit order is as good as its price
    have htaker : ∀ L, Function.update limit req.combinedId
        (if req.type = .market then none else some req.p) req.combinedId = some L →
        req.slot.Honours L (c.plToPrice (State.newIndex c req)) := by
      intro L hL
      rw [Function.update_self] at hL
      by_cases hm : req.type = .market
      · rw [if_pos hm] at hL
        cases hL
      · rw [if_neg hm] at hL
        rw [← Option.some.inj hL]
        unfold State.newIndex
        rw [if_neg hm]
        have hadmits : a.Admits c req := ⟨hvalid hm, Or.inl ⟨hact, hm, hnone, hp, hq, hmax⟩⟩
        exact (hfair hadmits).honours (hvalid hm)
    refine ⟨habsent.execute gen htaker, fun r hr htrade L hL => ?_⟩
    rcases List.mem_cons.mp hr with rfl | hr
    · exact absurd htrade (not_trade (e := .new) rfl (by decide))
    · exact habsent.execute_respects gen (fun s o ho => hok.sane ho) (combinedOrderId_lt _ _) htaker hr hL
  -- the four ways out of a modify: the new limit is the order's own, the others keep theirs
  | @kept s o hact hfind hq hvalid hexec hlevel hqty =>
    obtain ⟨hself, hother, -⟩ := Lob.Within.replaced hsided hfair h hact hfind hq hvalid hexec []
    obtain ⟨ho, hid⟩ := Lob.mem_of_find hfind
    refine ⟨fun s' x hx L hL => ?_, fun r hr htrade => ?_⟩
    · by_cases he : x.orderId = o.orderId
      · obtain ⟨rfl, rfl⟩ := hok.unique hx ho he
        rw [hlevel]
        exact hself L hL
      · rw [show _ = limit x.orderId from hother _ he] at hL
        exact h s' x hx L hL
    · rw [List.mem_singleton.mp hr] at htrade
      exact absurd htrade (not_trade (e := .replaced) rfl (by decide))
  | @finished s o hact hfind hq hvalid hexec hmove =>
    obtain ⟨hself, -, hrest⟩ := Lob.Within.replaced hsided hfair h hact hfind hq hvalid
      (le_of_eq hexec.symm) [finishRecord c req (req.target c o)]
    obtain ⟨ho, hid⟩ := Lob.mem_of_find hfind
    refine ⟨hrest, fun r hr htrade L hL => ?_⟩
    rcases List.mem_cons.mp hr with rfl | hr
    · exact absurd htrade (not_trade (e := .replaced) rfl (by decide))
    · obtain rfl := List.mem_singleton.mp hr
      have hcombined : (finishRecord c req (req.target c o)).combinedId = o.orderId := by
        rw [hid]
        exact c.response_combinedId _ _ _ _ _ _ _ req.combinedId_lt
      rw [hcombined] at hL
      exact Slot.Honours.respects (hself L hL) (hsided.named (Or.inr hact) s o hfind)
  | @requeued s o hact hfind hq hvalid hexec hmove =>
    obtain ⟨hself, -, hrest⟩ := Lob.Within.replaced hsided hfair h hact hfind hq hvalid hexec.le
      ((a.remove o.orderId).execute c gen s (o.resized (req.newQty o)) (req.target c o)).recs
    obtain ⟨ho, hid⟩ := Lob.mem_of_find hfind
    refine ⟨hrest.execute gen hself, fun r hr htrade L hL => ?_⟩
    rcases List.mem_cons.mp hr with rfl | hr
    · exact absurd htrade (not_trade (e := .replaced) rfl (by decide))
    · exact hrest.execute_respects (t := o.resized (req.newQty o)) gen
        (fun s x hx => hok.sane (Lob.mem_remove.mp hx).1) (hok.sane ho).id hself hr hL
  | @shrunk s o hact hfind hq hvalid hexec hlevel hqty =>
    obtain ⟨hself, hother, -⟩ := Lob.Within.replaced hsided hfair h hact hfind hq hvalid hexec.le []
    obtain ⟨ho, hid⟩ := Lob.mem_of_find hfind
    refine ⟨fun s' x hx L hL => ?_, fun r hr htrade => ?_⟩
    · obtain ⟨y, hy, hyid, hylev⟩ : ∃ y ∈ a s', x.orderId = y.orderId ∧ x.level = y.level := by
        obtain ⟨y, hy, rfl⟩ := List.mem_map.mp hx
        refine ⟨y, hy, ?_, ?_⟩
        · split <;> rfl
        · split <;> rfl
      rw [hyid] at hL
      rw [hylev]
      by_cases he : y.orderId = o.orderId
      · obtain ⟨rfl, rfl⟩ := hok.unique hy ho he
        rw [hlevel]
        exact hself L hL
      · rw [show _ = limit y.orderId from hother _ he] at hL
        exact h s' y hy L hL
    · rw [List.mem_singleton.mp hr] at htrade
      exact absurd htrade (not_trade (e := .replaced) rfl (by decide))

end Step

section Runs

variable {K : Lob → OrderRequest → Prop} {c : Config} {st : State} {limit : LimitPrices}
  {sent : List (OrderResponse × Option Int)}

/-- The books of such a run hold together. -/
theorem LimitRun.inv (h : LimitRun K c st limit sent) :
    (∃ q, Inv st.book q) ∧ st.book.cfg = c ∧ st.book.recoverMode = false := by
  induction h with
  | fresh gen => exact ⟨⟨_, fresh_inv c⟩, rfl, rfl⟩
  | step _ hsided _ hrun _ ih =>
    obtain ⟨⟨q, hq⟩, hc, hm⟩ := ih
    rw [hq.lob_eq] at hsided
    have hans := processRequest_returns hq hsided hrun
    obtain ⟨q', hq', -⟩ := hans.lob
    exact ⟨⟨q', hq'⟩, hans.cfg.trans hc, hans.mode.trans hm⟩

/-- A step of a run, seen as a step of the specification. -/
theorem LimitRun.step_answer (h : LimitRun K c st limit sent) {st' : State} {req : OrderRequest}
    (hsided : Sided st.book.lob req) (hrun : st.processRequest req = some st') :
    st.book.lob.Ok c ∧ st'.book.lob = (Lob.step c st.gen st.book.lob req).lob ∧
      st'.log = st.log ++ (Lob.step c st.gen st.book.lob req).recs := by
  obtain ⟨⟨q, hq⟩, hc, hm⟩ := h.inv
  have hok := hq.ok
  rw [hq.lob_eq] at hsided ⊢
  have hans := processRequest_returns hq hsided hrun
  rw [hc] at hans hok
  obtain ⟨q', hq', hlob⟩ := hans.lob
  refine ⟨hok, hq'.lob_eq.trans hlob, ?_⟩
  rw [hans.log, if_neg (by rw [hm]; exact Bool.false_ne_true)]

/-- As long as no accepted price is truncated to its order's loss, no order is filled at a price
worse than its limit. -/
theorem fills_respect_limits (h : LimitRun (Fair c) c st limit sent) {r : OrderResponse} {L : Int}
    (hr : (r, some L) ∈ sent) (htrade : r.isTrade = true) : r.Respects L := by
  have hall : st.book.lob.Within c limit ∧
      ∀ r L, (r, some L) ∈ sent → r.isTrade = true → r.Respects L := by
    clear hr htrade
    induction h with
    | fresh gen =>
      refine ⟨fun s o ho => ?_, fun _ _ hr => absurd hr List.not_mem_nil⟩
      rw [fresh_lob] at ho
      exact absurd ho List.not_mem_nil
    | @step st st' limit sent req recs hst hsided hfair hrun hlog ih =>
      obtain ⟨hok, hlob, hsent⟩ := hst.step_answer hsided hrun
      obtain rfl := List.append_cancel_left (hlog.symm.trans hsent)
      obtain ⟨hwithin, hrespects⟩ :=
        Lob.Within.step hok hsided hfair ih.1 (Lob.step_outcome c st.gen st.book.lob req)
      rw [hlob]
      refine ⟨hwithin, fun r L hr htrade => ?_⟩
      rcases List.mem_append.mp hr with hr | hr
      · exact ih.2 r L hr htrade
      · obtain ⟨r', hr', he⟩ := List.mem_map.mp hr
        obtain ⟨rfl, hL⟩ := Prod.mk.inj he
        exact hrespects r' hr' htrade L hL
  exact hall.2 r L hr htrade

end Runs

/-! ## Sample runs -/

instance (a : Lob) (req : OrderRequest) : Decidable (Sided a req) :=
  decidable_of_iff (req.side.slot.isSome ∧ (req.action = .cancel ∨ req.action = .modify →
    ∀ so ∈ a.find req.combinedId, req.side = so.1.side)) (by
    constructor
    · rintro ⟨hs, hn⟩
      obtain ⟨s, hs⟩ := Option.isSome_iff_exists.mp hs
      exact ⟨⟨s, Side.eq_side_of_slot hs⟩, fun ha s o hf => hn ha (s, o) hf⟩
    · rintro ⟨⟨s, hs⟩, hn⟩
      refine ⟨?_, fun ha so hf => hn ha so.1 so.2 hf⟩
      rw [hs, Slot.slot_side]
      rfl)

/-- Serves a list of requests, as long as they name the sides of their orders and meet `K`. -/
def serveLimits (K : Lob → OrderRequest → Bool) : State → LimitPrices →
    List (OrderResponse × Option Int) → List OrderRequest →
    Option (State × LimitPrices × List (OrderResponse × Option Int))
  | st, limit, sent, [] => some (st, limit, sent)
  | st, limit, sent, req :: reqs =>
    if Sided st.book.lob req ∧ K st.book.lob req then
      (st.processRequest req).bind fun st' =>
        let recs := st'.log.drop st.log.length
        let limit := req.limitAfter recs limit
        if st'.log = st.log ++ recs then
          serveLimits K st' limit (sent ++ recs.map fun r => (r, limit r.combinedId)) reqs
        else none
    else none

/-- A run that is computed is a run. -/
theorem LimitRun.serve {K' : Lob → OrderRequest → Prop} {K : Lob → OrderRequest → Bool} {c : Config}
    (hK : ∀ a req, K a req = true → K' a req) :
    ∀ {reqs : List OrderRequest} {st : State} {limit : LimitPrices} {sent : List (OrderResponse × Option Int)}
      {x : State × LimitPrices × List (OrderResponse × Option Int)}, LimitRun K' c st limit sent →
      serveLimits K st limit sent reqs = some x → LimitRun K' c x.1 x.2.1 x.2.2
  | [], st, limit, sent, x, h, he => by
    obtain rfl := Option.some.inj he
    exact h
  | req :: reqs, st, limit, sent, x, h, he => by
    rw [serveLimits] at he
    split at he
    · rename_i hreq
      obtain ⟨st', hrun, he⟩ := Option.bind_eq_some_iff.mp he
      dsimp only at he
      split at he
      · rename_i hlog
        exact (h.step hreq.1 (hK _ _ hreq.2) hrun hlog).serve hK he
      · cases he
    · cases he

theorem LimitRun.of_serve (K' : Lob → OrderRequest → Prop) (K : Lob → OrderRequest → Bool)
    (hK : ∀ a req, K a req = true → K' a req) (c : Config) (gen : Nat → Nat) (reqs : List OrderRequest)
    (P : List (OrderResponse × Option Int) → Bool)
    (h : (serveLimits K ⟨.fresh c, gen, []⟩ (fun _ => none) [] reqs).any (fun x => P x.2.2) = true) :
    ∃ st limit sent, LimitRun K' c st limit sent ∧ P sent = true := by
  obtain ⟨⟨st, limit, sent⟩, hserve, hP⟩ := (Option.any_eq_true ..).mp h
  exact ⟨st, limit, sent, (LimitRun.fresh gen).serve hK hserve, hP⟩

/-- A bid at 22 is matched as one at 20, and pays 20 for an offer at that price. -/
theorem sample_fill : ∃ st limit sent, LimitRun (Fair sampleConfig) sampleConfig st limit sent ∧
    ∃ r, (r, some 22) ∈ sent ∧ r.isTrade = true ∧ r.side = .buy ∧ r.p = 20 ∧ r.Respects 22 := by
  obtain ⟨st, limit, sent, hrun, hP⟩ := LimitRun.of_serve (Fair sampleConfig)
    (fun a req => Fair sampleConfig a req) (fun _ _ h => of_decide_eq_true h) sampleConfig id
    [sampleRequest .new 1 .sell 20 7, sampleRequest .new 2 .buy 22 7]
    (fun sent => sent.any fun x => x.2 = some 22 ∧ x.1.isTrade ∧ x.1.side = .buy ∧ x.1.p = 20)
    (by decide +kernel)
  obtain ⟨⟨r, L⟩, hr, hx⟩ := List.any_eq_true.mp hP
  obtain ⟨rfl, htrade, hside, hp⟩ := of_decide_eq_true hx
  exact ⟨st, limit, sent, hrun, r, hr, htrade, hside, hp, fills_respect_limits hrun hr htrade⟩

/-- An offer at 22 rests at 20, and is sold there to a bid at 20. -/
theorem offer_filled_below_limit : ∃ st limit sent, LimitRun (fun _ _ => True) sampleConfig st limit sent ∧
    ∃ r, (r, some 22) ∈ sent ∧ r.isTrade = true ∧ r.side = .sell ∧ r.p = 20 ∧ ¬ r.Respects 22 := by
  obtain ⟨st, limit, sent, hrun, hP⟩ := LimitRun.of_serve (fun _ _ => True) (fun _ _ => true)
    (fun _ _ _ => trivial) sampleConfig id
    [sampleRequest .new 1 .sell 22 7, sampleRequest .new 2 .buy 20 7]
    (fun sent => sent.any fun x => x.2 = some 22 ∧ x.1.isTrade ∧ x.1.side = .sell ∧ x.1.p = 20)
    (by decide +kernel)
  obtain ⟨⟨r, L⟩, hr, hx⟩ := List.any_eq_true.mp hP
  obtain ⟨rfl, htrade, hside, hp⟩ := of_decide_eq_true hx
  refine ⟨st, limit, sent, hrun, r, hr, htrade, hside, hp, fun hrespects => ?_⟩
  have hle := hrespects.2 hside
  rw [show r.p = 20 from hp] at hle
  exact absurd hle (by decide)

end Exchange
