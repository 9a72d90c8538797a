import Exchange.Book.Execute

/-!
# The representation holds together

`RepInv` says of a book, through its own fields, that its four views of the
resting orders agree: the id map, the queues with their counters, the level
maps and the better/worse chain. Every reachable book satisfies it, and every
further well-formed request is served without undefined behaviour
(`reachable_repInv`).

`reachable_uncrossed`: the best bid lies strictly below the best ask, and an
order rests on the side its latest `New` record names, so that a level of the
untagged `price_array_` never holds both sides.
-/

namespace Exchange

/-- The book's four views of its resting orders agree. -/
structure RepInv (b : OrderBook) : Prop where
  /-- `active_orders_` is the queued orders, by id. -/
  indexed : ∀ id p, b.activeOrders id = some p ↔
    p ∈ b.resting ∧ ∃ o, b.orders p = some o ∧ o.orderId = id
  /-- Each id is queued once. -/
  once : (b.resting.map fun p => (b.orders p).map Order.orderId).Nodup
  /-- A queued order points back at its level and has sane quantities. -/
  home : ∀ s, ∀ i ∈ b.activeLevels s, ∀ p ∈ b.queueOf i, ∃ o, b.orders p = some o ∧
    o.priceLevel = some i ∧ 1 ≤ o.qtyRemaining ∧ o.qtyRemaining ≤ o.qtyOriginal ∧
    o.qtyOriginal ≤ 1000000000
  /-- `next` and `prev` thread each level's queue between its dummies. -/
  threaded : ∀ i < b.cfg.maxPriceLevels, Dll b.links none (nodes i (b.queueOf i)) none
  /-- An active level is not empty and counts its queue. -/
  active : ∀ s, ∀ i ∈ b.activeLevels s, i < b.cfg.maxPriceLevels ∧ b.queueOf i ≠ [] ∧
    (b.priceArray i).orderCount = (b.queueOf i).length ∧ (b.priceArray i).totalQty.toNat =
      ((b.queueOf i).map fun p => (deref b.orders p).qtyRemaining).sum % 2 ^ 64
  /-- Any other level is empty. -/
  idle : ∀ i < b.cfg.maxPriceLevels, (∀ s, i ∉ b.activeLevels s) →
    b.queueOf i = [] ∧ (b.priceArray i).orderCount = 0 ∧ (b.priceArray i).totalQty = 0
  /-- `best_levels_` and `worse` visit the active levels, best first. -/
  walk : ∀ s, b.worseWalk s = s.bestFirst (b.activeLevels s).keys
  /-- `better` is the inverse of `worse`, with null ends. -/
  chained : ∀ s, Dll b.chain none (b.worseWalk s) none

/-- The 64-bit sum over a queue is the plain sum, wrapped. -/
theorem sum_weight_toNat (orders : Nat → Option Order) : ∀ ps : List Nat,
    (ps.map (weight orders)).sum.toNat =
      (ps.map fun p => (deref orders p).qtyRemaining).sum % 2 ^ 64
  | [] => rfl
  | p :: ps => by
    have hw : (weight orders p).toNat = (deref orders p).qtyRemaining % 2 ^ 64 := by
      simp [weight]
    rw [List.map_cons, List.map_cons, List.sum_cons, List.sum_cons, BitVec.toNat_add, hw,
      sum_weight_toNat orders ps]
    omega

/-- The queued pointers of the active levels are all the queued pointers. -/
theorem Core.mem_resting {b : OrderBook} {q : Nat → List Nat} (h : Core b q) {p : Nat} :
    p ∈ b.resting ↔ ∃ i, p ∈ q i := by
  have hside : ∀ s, p ∈ (b.activeLevels s).keys.flatMap b.queueOf ↔
      ∃ i ∈ b.activeLevels s, p ∈ q i := by
    intro s
    rw [List.mem_flatMap]
    constructor <;> rintro ⟨i, hi, hp⟩
    · exact ⟨i, hi, h.queueOf_eq (h.inRange hi) ▸ hp⟩
    · exact ⟨i, hi, (h.queueOf_eq (h.inRange hi)).symm ▸ hp⟩
  rw [OrderBook.resting, List.flatMap_cons, List.flatMap_cons, List.flatMap_nil, List.append_nil,
    List.mem_append, hside, hside]
  constructor
  · rintro (⟨i, -, hp⟩ | ⟨i, -, hp⟩) <;> exact ⟨i, hp⟩
  · rintro ⟨i, hp⟩
    obtain ⟨s, hs⟩ := h.active_of_mem hp
    cases s
    · exact Or.inl ⟨i, hs, hp⟩
    · exact Or.inr ⟨i, hs, hp⟩

theorem Core.resting_nodup {b : OrderBook} {q : Nat → List Nat} (h : Core b q) :
    b.resting.Nodup := by
  have hmem : ∀ {s i p}, i ∈ b.activeLevels s → p ∈ b.queueOf i → p ∈ q i := fun hi hp =>
    h.queueOf_eq (h.inRange hi) ▸ hp
  refine List.nodup_flatMap.mpr ⟨fun s _ => List.nodup_flatMap.mpr ⟨fun i hi => ?_, ?_⟩, ?_⟩
  · rw [h.queueOf_eq (h.inRange hi)]
    exact h.queued.nodup i
  · refine (b.activeLevels s).nodup.imp_of_mem (fun {i j} hi hj hij p hp hp' => hij ?_)
    exact h.queued.disj (hmem hi hp) (hmem hj hp')
  · refine List.pairwise_cons.mpr ⟨fun s hs p hp hp' => ?_, by simp⟩
    obtain rfl := List.mem_singleton.mp hs
    obtain ⟨i, hi, hpi⟩ := List.mem_flatMap.mp hp
    obtain ⟨j, hj, hpj⟩ := List.mem_flatMap.mp hp'
    obtain rfl := h.queued.disj (hmem hi hpi) (hmem hj hpj)
    cases h.chained.slot_unique hi hj

/-- The queues of the refinement say what the representation invariant does. -/
theorem Inv.repInv {b : OrderBook} {q : Nat → List Nat} (h : Inv b q) : RepInv b := by
  have hq : ∀ {s i}, i ∈ b.activeLevels s → b.queueOf i = q i := fun hi =>
    h.queueOf_eq (h.inRange hi)
  refine ⟨fun id p => ?_, ?_, fun s i hi p hp => ?_, fun i hi => ?_, fun s i hi => ?_,
    fun i hi hidle => ?_, h.worseWalk_eq, fun s => ?_⟩
  · rw [h.indexed id p, h.mem_resting]
    constructor <;> rintro ⟨⟨i, hp⟩, he⟩
    · exact ⟨⟨i, hp⟩, _, (h.alive.deref hp).1, he⟩
    · obtain ⟨o, ho, hid⟩ := he
      exact ⟨⟨i, hp⟩, by rw [deref_of_some ho, hid]⟩
  · refine (List.nodup_map_iff_inj_on h.resting_nodup).mpr (fun p hp p' hp' e => ?_)
    obtain ⟨i, hi⟩ := h.mem_resting.mp hp
    obtain ⟨j, hj⟩ := h.mem_resting.mp hp'
    rw [(h.alive.deref hi).1, (h.alive.deref hj).1] at e
    exact h.ptr_unique hi hj (Option.some.inj e)
  · rw [hq hi] at hp
    obtain ⟨o, ho, hl, hs⟩ := h.alive i p hp
    exact ⟨o, ho, hl, hs.pos, hs.le, hs.max⟩
  · rw [h.queueOf_eq hi]
    exact h.queued.dll hi
  · rw [hq hi]
    exact ⟨h.inRange hi, h.full s i hi, h.counted.count i, by
      rw [h.counted.total i, sum_weight_toNat]⟩
  · have hempty : q i = [] := by
      by_contra hne
      obtain ⟨s, hs⟩ := h.held hne
      exact hidle s hs
    rw [h.queueOf_eq hi, h.counted.count, h.counted.total, hempty]
    exact ⟨rfl, rfl, rfl⟩
  · rw [h.worseWalk_eq]
    exact h.chained.dll s

/-- Every reachable book holds together, and answers any well-formed request. -/
theorem reachable_repInv {c : Config} {st : State} (h : Reachable c st) :
    RepInv st.book ∧
      ∀ req, WellFormed c st.book.lob req → (st.processRequest req).isSome := by
  obtain ⟨⟨q, hq⟩, hc, -⟩ := h.inv
  refine ⟨hq.repInv, fun req hreq => ?_⟩
  obtain ⟨st', hrun, -⟩ := hq.answers hc hreq
  rw [hrun]
  rfl

theorem sample_repInv : ∃ st, Reachable sampleConfig st ∧ st.log.length = 9 ∧ RepInv st.book ∧
    ∀ req, WellFormed sampleConfig st.book.lob req → (st.processRequest req).isSome := by
  obtain ⟨st, hst, hlen, -⟩ := sample_reachable
  exact ⟨st, hst, hlen, reachable_repInv hst⟩

/-! ## The sides do not mix -/

/-- Every order rests on the side it was entered on. -/
def OwnSide (a : Lob) (log : List OrderResponse) : Prop :=
  ∀ s o, o ∈ a s → enteredAs o.orderId log = some s.side

/-- Records other than `New` keep the entry sides, for a book whose orders were
there before. -/
theorem OwnSide.carry {a a' : Lob} {log rs : List OrderResponse} (h : OwnSide a log)
    (hsub : ∀ s o, o ∈ a' s → ∃ m ∈ a s, m.orderId = o.orderId)
    (hrs : ∀ r ∈ rs, r.execType ≠ .new) : OwnSide a' (log ++ rs) := by
  intro s o ho
  obtain ⟨m, hm, hid⟩ := hsub s o ho
  rw [enteredAs_append_of_ne (fun r hr he => absurd he (hrs r hr)), ← hid]
  exact h s m hm

theorem trade_ne_new {c : Config} {gen : Nat → Nat} {a : Lob} {s : Slot} {t : Order} {idx : Nat}
    {r : OrderResponse} (h : r ∈ (a.execute c gen s t idx).recs) : r.execType ≠ .new := by
  rcases tradeRecords_execType h with he | he <;> rw [he] <;> decide

/-- One request: what rests is on the side its `New` record gave. -/
theorem OwnSide.step {c : Config} {gen : Nat → Nat} {a : Lob} {log : List OrderResponse}
    {req : OrderRequest} {ans : Answer} (hreq : WellFormed c a req)
    (h : OwnSide a log) (hout : Lob.Outcome c gen a req ans) : OwnSide ans.lob (log ++ ans.recs) := by
  cases hout with
  | rejected qRem code =>
    exact h.carry (fun s o ho => ⟨o, ho, rfl⟩) (by simp [Lob.reject, Config.response])
  | entered hact hnone hvalid hp hq hmax =>
    obtain ⟨s₀, hs₀⟩ := hreq.side
    have hslot := OrderRequest.slot_of_side hs₀
    intro s o ho
    have hcut : log ++ (Lob.newRecord c req :: (a.execute c gen req.slot (State.createOrder req)
        (State.newIndex c req)).recs) = (log ++ [Lob.newRecord c req]) ++
          (a.execute c gen req.slot (State.createOrder req) (State.newIndex c req)).recs := by simp
    show enteredAs o.orderId (log ++ (Lob.newRecord c req :: _)) = _
    rw [hcut, enteredAs_append_of_ne (fun r hr he => absurd he (trade_ne_new hr))]
    have hrec : (Lob.newRecord c req).combinedId = req.combinedId :=
      c.response_combinedId _ _ _ _ _ _ _ req.combinedId_lt
    rcases Lob.mem_execute c gen ho with ⟨m, hm, k, -, rfl⟩ | ⟨rfl, hid⟩
    · rw [enteredAs_append_of_ne]
      · exact h s m hm
      · rintro r hr - he
        rw [List.mem_singleton.mp hr, hrec] at he
        exact Lob.find_eq_none hnone hm he.symm
    · -- the new order itself: its record is the latest one
      have hid' : (Lob.newRecord c req).combinedId = o.orderId := hrec.trans hid.symm
      rw [enteredAs, List.foldl_append, List.foldl_cons, List.foldl_nil, if_pos ⟨rfl, hid'⟩, hslot]
      exact congrArg some hs₀
  | cancelled hact hfind =>
    exact h.carry (fun s o ho => ⟨o, (Lob.mem_remove.mp ho).1, rfl⟩)
      (by simp [Lob.cancelRecord, Config.response])
  | kept hact hfind hq hvalid hexec hlevel hqty =>
    exact h.carry (fun s o ho => ⟨o, ho, rfl⟩) (by simp [Lob.replaceRecord, Config.response])
  | finished hact hfind hq hvalid hexec hmove =>
    exact h.carry (fun s o ho => ⟨o, (Lob.mem_remove.mp ho).1, rfl⟩)
      (by simp [Lob.replaceRecord, Lob.finishRecord, Config.response])
  | shrunk hact hfind hq hvalid hexec hlevel hqty =>
    refine h.carry (fun s o ho => ?_) (by simp [Lob.replaceRecord, Config.response])
    obtain ⟨m, hm, hid, -⟩ := Lob.mem_resize ho
    exact ⟨m, hm, hid⟩
  | requeued hact hfind hq hvalid hexec hmove =>
    obtain ⟨hm₀, hid₀⟩ := Lob.mem_of_find hfind
    refine h.carry (fun s o ho => ?_) (fun r hr => ?_)
    · rcases Lob.mem_execute c gen ho with ⟨m, hm, k, -, rfl⟩ | ⟨rfl, hid⟩
      · exact ⟨m, (Lob.mem_remove.mp hm).1, rfl⟩
      · exact ⟨_, hm₀, hid.symm⟩
    · rcases List.mem_cons.mp hr with rfl | hr
      · simp [Lob.replaceRecord, Config.response]
      · exact trade_ne_new hr

/-- In every reachable book each order is on the side of its `New` record. -/
theorem reachable_ownSide {c : Config} {st : State} (h : Reachable c st) :
    OwnSide st.book.lob st.log :=
  h.rule (fun _ _ ho => absurd ho List.not_mem_nil)
    (fun _ _ hreq hP hout => OwnSide.step hreq hP hout)

/-- The book is never crossed: the best bid is strictly below the best ask, no
level is active on both sides, and whatever is queued at a level was entered on
the one side that level is active on. -/
theorem reachable_uncrossed {c : Config} {st : State} (h : Reachable c st) :
    (∀ i j, st.book.bestLevels .bid = some i → st.book.bestLevels .ask = some j → i < j) ∧
    (∀ i, i ∈ st.book.activeLevels .bid → i ∉ st.book.activeLevels .ask) ∧
    (∀ i < c.maxPriceLevels, ∀ p ∈ st.book.queueOf i, ∃ s o, i ∈ st.book.activeLevels s ∧
      i ∉ st.book.activeLevels s.flip ∧ st.book.orders p = some o ∧
      enteredAs o.orderId st.log = some s.side) := by
  obtain ⟨⟨q, hq⟩, hc, -⟩ := h.inv
  have hdisj : ∀ s i, i ∈ st.book.activeLevels s → i ∉ st.book.activeLevels s.flip :=
    fun s i hi hi' => Slot.ne_flip s (hq.chained.slot_unique hi hi')
  refine ⟨fun i j hi hj => ?_, hdisj .bid, fun i hi p hp => ?_⟩
  · rw [hq.chained.best] at hi hj
    exact hq.chained.uncrossed (mem_levelsOf.mp (List.mem_of_head? hi))
      (mem_levelsOf.mp (List.mem_of_head? hj))
  · rw [hq.queueOf_eq (hc ▸ hi)] at hp
    obtain ⟨s, hs⟩ := hq.active_of_mem hp
    refine ⟨s, _, hs, hdisj s i hs, (hq.alive.deref hp).1, ?_⟩
    refine reachable_ownSide h s _ ?_
    rw [hq.lob_eq]
    exact mem_flat.mpr ⟨i, p, hs, hp, rfl⟩

theorem sample_uncrossed : ∃ st, Reachable sampleConfig st ∧ st.log.length = 9 ∧
    ∀ i j, st.book.bestLevels .bid = some i → st.book.bestLevels .ask = some j → i < j := by
  obtain ⟨st, hst, hlen, -⟩ := sample_reachable
  exact ⟨st, hst, hlen, (reachable_uncrossed hst).1⟩

end Exchange
