import Exchange.Book.Stands
import Exchange.Oracle.Lines

/-!
# Engine and reference matcher agree

Row by row, the reference matcher sends the records the engine sends and keeps
the book the engine keeps. One pass of its loop is one trade of a `sweep`.

They part on three kinds of accepted replacements. One asks for exactly the
executed quantity at another price: the engine sends the closing `Fill`, and so
does the matcher when the price stays, but its requeueing branch does not. One
asks for a price that is not a multiple of 25, the tick of one symbol of
`symbols.csv`, which the matcher has in its text. One asks for a negative price,
on a book whose prices start below zero: both accept it, and `dump_raw` then
writes the level's price as the `size_t` that `pl_to_price` returns. And
`total_qty` is a word of 64 bits, where the matcher's sums have no end.
-/

namespace Exchange.Oracle

/-- The text `execution-stdout` prints for a record. -/
def tagOf : ExecType → Tag
  | .new => .NEW
  | .replaced => .MOD
  | .cancelled => .CAN
  | .fill => .FIL
  | .partialFill => .PAR
  | .rejected => .REJ
  | .orderStatus => .OTH
  | .complete => .OTH

/-- The fields of a record that are compared. -/
def responseOf (r : OrderResponse) : Response :=
  ⟨tagOf r.execType, r.orderId, r.clientId, r.side, r.p, r.q, r.qRem⟩

/-- The oracle tags a fill as the engine types it. -/
theorem tagOf_fillType (r : Nat) : tagOf (State.fillType r) = Matcher.fillTag r := by
  unfold State.fillType Matcher.fillTag
  split <;> rfl

/-! ## The loop -/

section Loop

variable {c : Config} {a : Lob} {st : Matcher} {s : Slot}

/-- A side without orders has no best price. -/
theorem Mirrors.bestPrice_nil (h : Mirrors c a st) (hnil : a s.flip = []) :
    Matcher.bestPrice (decide (s.side = .buy)) (st.book (!decide (s.side = .buy))) = none := by
  rw [not_side_buy]
  have hkeys : (st.book (decide (s.flip.side = .buy))).keys = [] := by
    refine List.eq_nil_iff_forall_not_mem.mpr (fun p hp => ?_)
    obtain ⟨o, ho, -⟩ := h.mem_prices.mp hp
    rw [hnil] at ho
    cases ho
  unfold Matcher.bestPrice
  rw [hkeys]
  split <;> rfl

/-- The best price is that of the side's first order. -/
theorem Mirrors.bestPrice_cons (h : Mirrors c a st) {m : Order} {ms : List Order}
    (hm : a s.flip = m :: ms)
    (hsorted : (a s.flip).Pairwise fun x y => ¬ s.flip.better y.level x.level) :
    Matcher.bestPrice (decide (s.side = .buy)) (st.book (!decide (s.side = .buy))) =
      some (c.plToPrice m.level) := by
  rw [not_side_buy]
  have hmem : c.plToPrice m.level ∈ (st.book (decide (s.flip.side = .buy))).keys :=
    h.mem_prices.mpr ⟨m, hm ▸ List.mem_cons_self, rfl⟩
  have hfirst : ∀ o ∈ a s.flip, ¬ s.flip.better o.level m.level := by
    rw [hm] at hsorted ⊢
    exact head_best hsorted
  unfold Matcher.bestPrice
  cases s with
  | bid =>
    refine List.min?_eq_some_iff.mpr ⟨hmem, fun p hp => ?_⟩
    obtain ⟨o, ho, rfl⟩ := h.mem_prices.mp hp
    exact c.plToPrice_le.mpr (Nat.le_of_not_lt (hfirst o ho))
  | ask =>
    refine List.max?_eq_some_iff.mpr ⟨hmem, fun p hp => ?_⟩
    obtain ⟨o, ho, rfl⟩ := h.mem_prices.mp hp
    exact c.plToPrice_le.mpr (Nat.le_of_not_lt (hfirst o ho))

/-- The first key of the best queue is the first order's. -/
theorem Mirrors.bestQueue (h : Mirrors c a st) {m : Order} {ms : List Order}
    (hm : a s.flip = m :: ms) : ∃ ks,
    (st.book (!decide (s.side = .buy))).lookup (c.plToPrice m.level) =
      some (keyOf m.orderId :: ks) := by
  rw [not_side_buy, h.books]
  have hkeys : keysAt c (a s.flip) (c.plToPrice m.level) =
      keyOf m.orderId :: keysAt c ms (c.plToPrice m.level) := by
    unfold keysAt
    rw [hm, List.filter_cons_of_pos (by simp), List.map_cons]
  refine ⟨keysAt c ms (c.plToPrice m.level), ?_⟩
  unfold queueAt
  rw [hkeys, if_neg (List.cons_ne_nil _ _)]

/-- The two ways the loop ends on a price. -/
theorem crossed_iff_price (c : Config) (s : Slot) (idx i : Nat) :
    State.crossed s idx i = true ↔
      ¬ (decide (s.side = .buy) = true ∧ c.plToPrice idx < c.plToPrice i) ∧
      ¬ (¬ decide (s.side = .buy) = true ∧ c.plToPrice i < c.plToPrice idx) := by
  have h₁ := c.plToPrice_le (i := i) (j := idx)
  have h₂ := c.plToPrice_le (i := idx) (j := i)
  cases s <;> simp [State.crossed, Slot.side] <;> omega

/-- The taker as the matcher holds it. -/
def takerOf (c : Config) (s : Slot) (id idx qtyOriginal qtyRemaining : Nat) : Entry where
  orderId := orderIdOf id
  clientId := clientIdOf id
  side := s.side
  price := c.plToPrice idx
  qtyOriginal := qtyOriginal
  qtyRemaining := qtyRemaining

/-- One pass that trades. -/
theorem matchLoop_trade (h : Mirrors c a st) {m : Order} {ms : List Order}
    (hm : a s.flip = m :: ms)
    (hsorted : (a s.flip).Pairwise fun x y => ¬ s.flip.better y.level x.level)
    {id idx q r : Nat} (hr : r ≠ 0) (hx : State.crossed s idx m.level = true) (fuel : Nat) :
    let qty := min r m.qtyRemaining
    let st₁ := { st with
      activeOrders := st.activeOrders.insert (keyOf m.orderId) { entryOf c s.flip m with
        qtyOriginal := m.qtyOriginal, qtyRemaining := m.qtyRemaining - qty } }
    let st₂ := (st₁.sendResp (Matcher.fillTag (r - qty)) (orderIdOf id) (clientIdOf id) s.side
      (c.plToPrice m.level) qty (r - qty)).sendResp (Matcher.fillTag (m.qtyRemaining - qty))
      (orderIdOf m.orderId) (clientIdOf m.orderId) s.flip.side (c.plToPrice m.level) qty
      (m.qtyRemaining - qty)
    Matcher.matchLoop (fuel + 1) st (takerOf c s id idx q r) =
      Matcher.matchLoop fuel
        (if m.qtyRemaining - qty = 0 then st₂.removeOrder (keyOf m.orderId) else st₂)
        (takerOf c s id idx q (r - qty)) := by
  intro qty st₁ st₂
  obtain ⟨ks, hqueue⟩ := h.bestQueue hm
  obtain ⟨hx₁, hx₂⟩ := (crossed_iff_price c s idx m.level).mp hx
  have hside : (takerOf c s id idx q r).side = s.side := rfl
  have hprice : (takerOf c s id idx q r).price = c.plToPrice idx := rfl
  have hmem : m ∈ a s.flip := hm ▸ List.mem_cons_self
  have hqty : (takerOf c s id idx q r).qtyRemaining ≠ 0 := hr
  rw [Matcher.matchLoop, if_neg hqty]
  dsimp only
  rw [hside, h.bestPrice_cons hm hsorted]
  dsimp only
  rw [hprice, if_neg hx₁, if_neg hx₂, hqueue, Option.bind_eq_bind, Option.bind_some]
  dsimp only
  rw [h.lookup_of_mem hmem, Option.bind_eq_bind, Option.bind_some]
  rfl

/-- The loop is a sweep: it ends, the opposite side is what the sweep leaves, and
it sends the sweep's records. -/
theorem matchLoop_sweep (c : Config) (s : Slot) (id idx q : Nat) (ms : List Order) (r : Nat) :
    ∀ (fuel : Nat) (gen : Nat → Nat) (a : Lob) (st : Matcher), Mirrors c a st → a.Distinct →
      a s.flip = ms → (a s.flip).Pairwise (fun x y => ¬ s.flip.better y.level x.level) →
      ms.length + 2 ≤ fuel →
      ∃ st', Matcher.matchLoop fuel st (takerOf c s id idx q r) =
          some (st', takerOf c s id idx q (sweep (State.crossed s idx) r ms).left) ∧
        Mirrors c (Function.update a s.flip (sweep (State.crossed s idx) r ms).rest) st' ∧
        st'.responses = st.responses ++
          (tradeRecords c id s gen (sweep (State.crossed s idx) r ms).fills).map responseOf := by
  -- a loop that does nothing leaves the side as it is
  have hstay : ∀ {a : Lob} {st : Matcher} {ms : List Order}, Mirrors c a st → a s.flip = ms →
      Mirrors c (Function.update a s.flip ms) st := by
    intro a st ms h hm
    rw [← hm, Function.update_eq_self]
    exact h
  refine sweep_induction (P := fun r ms w => ∀ (fuel : Nat) (gen : Nat → Nat) (a : Lob)
      (st : Matcher), Mirrors c a st → a.Distinct → a s.flip = ms →
      (a s.flip).Pairwise (fun x y => ¬ s.flip.better y.level x.level) → ms.length + 2 ≤ fuel →
      ∃ st', Matcher.matchLoop fuel st (takerOf c s id idx q r) =
          some (st', takerOf c s id idx q w.left) ∧
        Mirrors c (Function.update a s.flip w.rest) st' ∧
        st'.responses = st.responses ++ (tradeRecords c id s gen w.fills).map responseOf)
    ?_ ?_ ?_ ?_ ms r
  · intro r fuel gen a st h _ hm _ hfuel
    obtain ⟨fuel, rfl⟩ : ∃ n, fuel = n + 1 := ⟨fuel - 1, by simp at hfuel; omega⟩
    refine ⟨st, ?_, hstay h hm, (List.append_nil _).symm⟩
    rw [Matcher.matchLoop]
    split
    · rfl
    · dsimp only
      rw [show (takerOf c s id idx q r).side = s.side from rfl, h.bestPrice_nil hm]
  · intro r m ms hstop fuel gen a st h _ hm hsorted hfuel
    obtain ⟨fuel, rfl⟩ : ∃ n, fuel = n + 1 := ⟨fuel - 1, by simp at hfuel; omega⟩
    refine ⟨st, ?_, hstay h hm, (List.append_nil _).symm⟩
    rw [Matcher.matchLoop]
    split
    · rfl
    · rename_i hr
      have hx : State.crossed s idx m.level = false := hstop.resolve_left hr
      dsimp only
      rw [show (takerOf c s id idx q r).side = s.side from rfl,
        show (takerOf c s id idx q r).price = c.plToPrice idx from rfl, h.bestPrice_cons hm hsorted]
      dsimp only
      split
      · rfl
      · split
        · rfl
        · rename_i hx₁ hx₂
          rw [(crossed_iff_price c s idx m.level).mpr ⟨hx₁, hx₂⟩] at hx
          cases hx
  · intro r m ms w hr hx hle ih fuel gen a st h hd hm hsorted hfuel
    obtain ⟨fuel, rfl⟩ : ∃ n, fuel = n + 1 := ⟨fuel - 1, by simp at hfuel; omega⟩
    have hmem : m ∈ a s.flip := hm ▸ List.mem_cons_self
    have hmin : min r m.qtyRemaining = m.qtyRemaining := Nat.min_eq_right hle
    rw [matchLoop_trade h hm hsorted hr hx, hmin, Nat.sub_self, if_pos rfl]
    -- the maker is written back with nothing left, and then removed
    have h₁ := h.resize hd hmem m.qtyOriginal 0
    have hmem₁ : ({ m with qtyRemaining := 0 } : Order) ∈
        a.resize m.orderId m.qtyOriginal 0 s.flip := by
      rw [hd.resize_head hm, Function.update_self]
      exact List.mem_cons_self
    have h₂ := ((h₁.sendResp (Matcher.fillTag (r - m.qtyRemaining)) (orderIdOf id) (clientIdOf id)
      s.side (c.plToPrice m.level) m.qtyRemaining (r - m.qtyRemaining)).sendResp
      (Matcher.fillTag 0) (orderIdOf m.orderId) (clientIdOf m.orderId) s.flip.side
      (c.plToPrice m.level) m.qtyRemaining 0).remove (hd.resize _ _ _) hmem₁
    have hgone : (a.resize m.orderId m.qtyOriginal 0).remove m.orderId =
        Function.update a s.flip ms := by
      rw [(hd.resize m.orderId m.qtyOriginal 0).remove_head (m := { m with qtyRemaining := 0 })
        (by rw [hd.resize_head hm, Function.update_self]), hd.resize_head hm]
      exact Function.update_idem ..
    rw [show ({ m with qtyRemaining := 0 } : Order).orderId = m.orderId from rfl, hgone] at h₂
    have hd₂ : Lob.Distinct (Function.update a s.flip ms) := by
      rw [← hd.remove_head hm]
      exact hd.remove _
    have hms : Function.update a s.flip ms s.flip = ms := Function.update_self ..
    rw [hm] at hsorted
    obtain ⟨st', hrun, hmir, hresp⟩ := ih fuel (fun k => gen (k + 1)) _ _ h₂ hd₂ hms
      (by rw [hms]; exact (List.pairwise_cons.mp hsorted).2) (by simp at hfuel; omega)
    refine ⟨st', hrun, ?_, ?_⟩
    · rw [Function.update_idem] at hmir
      exact hmir
    · rw [hresp, Matcher.removeOrder_responses, tradeRecords, List.map_cons, List.map_cons]
      show (st.responses ++ [_]) ++ [_] ++ _ = _
      rw [List.append_assoc, List.append_assoc, ← tagOf_fillType, ← tagOf_fillType]
      unfold Fill.makerLeft
      dsimp only
      rw [Nat.sub_self]
      rfl
  · intro r m ms hr hx hlt fuel gen a st h hd hm hsorted hfuel
    obtain ⟨fuel, rfl⟩ : ∃ n, fuel = n + 2 := ⟨fuel - 2, by simp at hfuel; omega⟩
    have hmem : m ∈ a s.flip := hm ▸ List.mem_cons_self
    have hmin : min r m.qtyRemaining = r := Nat.min_eq_left hlt.le
    have hleft : m.qtyRemaining - r ≠ 0 := by omega
    rw [matchLoop_trade h hm hsorted hr hx, hmin, Nat.sub_self, if_neg hleft]
    have h₁ := h.resize hd hmem m.qtyOriginal (m.qtyRemaining - r)
    rw [hd.resize_head hm] at h₁
    refine ⟨_, ?_, (h₁.sendResp (Matcher.fillTag 0) (orderIdOf id) (clientIdOf id) s.side
      (c.plToPrice m.level) r 0).sendResp (Matcher.fillTag (m.qtyRemaining - r))
      (orderIdOf m.orderId) (clientIdOf m.orderId) s.flip.side (c.plToPrice m.level) r
      (m.qtyRemaining - r), ?_⟩
    · -- the taker is used up
      rw [Matcher.matchLoop]
      exact if_pos rfl
    · rw [tradeRecords, tradeRecords, List.map_cons, List.map_cons]
      show (st.responses ++ [_]) ++ [_] = _
      rw [List.append_assoc, ← tagOf_fillType, ← tagOf_fillType]
      rfl

/-- A side has no more orders than the matcher has entries. -/
theorem Mirrors.length_le (h : Mirrors c a st) (hd : a.Distinct) (s : Slot) :
    (a s).length ≤ st.activeOrders.keys.length := by
  have hnodup : ((a s).map fun o => keyOf o.orderId).Nodup := by
    refine (List.nodup_map_iff_inj_on (hd.nodup s)).mpr (fun x hx y hy hk => ?_)
    exact (hd.unique hx hy (keyOf_inj (hd.id hx) (hd.id hy) hk)).2
  have hsub : ((a s).map fun o => keyOf o.orderId) ⊆ st.activeOrders.keys := by
    intro k hk
    obtain ⟨o, ho, rfl⟩ := List.mem_map.mp hk
    rw [← AList.mem_keys, ← AList.lookup_isSome, h.lookup_of_mem ho]
    rfl
  have hlen := (hnodup.subperm hsub).length_le
  rwa [List.length_map] at hlen

/-- Matching a taker and adding what is left of it is an execution. -/
theorem Mirrors.execute (h : Mirrors c a st) (hok : a.Ok c) {t : Order} (hid : t.orderId < 2 ^ 64)
    (hnew : ∀ s', ∀ x ∈ a s', x.orderId ≠ t.orderId) (s : Slot) (idx : Nat) (gen : Nat → Nat) :
    ∃ st', st.matchAndAdd (takerOf c s t.orderId idx t.qtyOriginal t.qtyRemaining) = some st' ∧
      Mirrors c (a.execute c gen s t idx).lob st' ∧
      st'.responses = st.responses ++ (a.execute c gen s t idx).recs.map responseOf := by
  have hd := Lob.Distinct.of_ok hok
  -- there is fuel for a round for each order of the other side
  have hfuel : (a s.flip).length + 2 ≤ st.activeOrders.keys.length + st.bids.keys.length +
      st.asks.keys.length + 2 := by
    have := h.length_le hd s.flip
    omega
  obtain ⟨st₁, hloop, hmir, hresp⟩ := matchLoop_sweep c s t.orderId idx t.qtyOriginal (a s.flip)
    t.qtyRemaining _ gen a st h hd rfl (hok.sorted s.flip) hfuel
  unfold Matcher.matchAndAdd
  rw [hloop, Option.bind_eq_bind, Option.bind_some]
  dsimp only
  unfold Lob.execute
  -- both rest what is left, or drop an order that is done
  by_cases hz : (sweep (State.crossed s idx) t.qtyRemaining (a s.flip)).left = 0
  · have hdone : ¬ 0 < (takerOf c s t.orderId idx t.qtyOriginal
        (sweep (State.crossed s idx) t.qtyRemaining (a s.flip)).left).qtyRemaining :=
      Nat.not_lt.mpr (Nat.le_of_eq hz)
    rw [if_neg hdone]
    refine ⟨st₁, rfl, ?_, hresp⟩
    dsimp only
    rw [if_pos hz]
    exact hmir
  · have hleft : 0 < (takerOf c s t.orderId idx t.qtyOriginal
        (sweep (State.crossed s idx) t.qtyRemaining (a s.flip)).left).qtyRemaining :=
      Nat.pos_of_ne_zero hz
    rw [if_pos hleft]
    have hself : Function.update a s.flip (sweep (State.crossed s idx) t.qtyRemaining
        (a s.flip)).rest s = a s := Function.update_of_ne (Slot.ne_flip s) _ _
    have hadd := hmir.add (o := { t with
        priceLevel := some idx
        qtyRemaining := (sweep (State.crossed s idx) t.qtyRemaining (a s.flip)).left }) (s := s)
      (hd.sweep s.flip _ _) (by rw [hself]; exact hok.sorted s) hid (fun s' x hx => by
        by_cases hs : s' = s.flip
        · subst hs
          rw [Function.update_self] at hx
          obtain ⟨m, hm, k, -, rfl⟩ := mem_sweep_rest _ _ hx
          exact hnew _ m hm
        · rw [Function.update_of_ne hs] at hx
          exact hnew s' x hx)
    rw [hself] at hadd
    refine ⟨_, rfl, ?_, ?_⟩
    · dsimp only
      rw [if_neg hz]
      exact hadd
    · rw [Matcher.addOrder_responses]
      exact hresp

end Loop

/-! ## One row -/

/-- What the rows are: the price is an `int64_t`, and new orders are limit orders for at least one unit. -/
structure LimitRow (req : OrderRequest) : Prop where
  word : req.p < 2 ^ 63
  new : req.action = .new → req.type = .limit ∧ 1 ≤ req.q

/-- A replacement that both accept: its price is a positive multiple of the matcher's
tick, and it does not ask for exactly the executed quantity at another price. -/
def Concordant (c : Config) (a : Lob) (req : OrderRequest) : Prop :=
  req.action = .modify → ∀ s o, a.find req.combinedId = some (s, o) → req.q ≤ globalMaxQty →
    o.executed ≤ req.newQty o →
      (req.p ≠ 0 → 0 < req.p ∧ req.p % 25 = 0) ∧ (req.target c o ≠ o.level → req.newQty o ≠ o.executed)

/-- The matcher follows an answer of the book. -/
def Follows (c : Config) (st st' : Matcher) (ans : Answer) : Prop :=
  Mirrors c ans.lob st' ∧ st'.responses = st.responses ++ ans.recs.map responseOf

section Rows

variable {c : Config} {a : Lob} {st : Matcher} {req : OrderRequest} {gen : Nat → Nat}

theorem Mirrors.reject (h : Mirrors c a st) (req : OrderRequest) (gen : Nat → Nat) (qRem : Nat)
    (code : RejectCode) :
    Follows c st (st.reject req qRem) (a.reject c gen req qRem code) := by
  refine ⟨h.sendResp _ _ _ _ _ _ _, ?_⟩
  show _ = st.responses ++ [responseOf _]
  unfold responseOf Config.response OrderRequest.combinedId
  rw [orderIdOf_combined, clientIdOf_combined]
  rfl

/-- An answer with one more record in front. -/
theorem Follows.after {st₁ st' : Matcher} {ans : Answer} {r : OrderResponse}
    (h : Follows c st₁ st' ans) (hr : st₁.responses = st.responses ++ [responseOf r]) :
    Follows c st st' (ans.after r) := by
  refine ⟨h.1, ?_⟩
  rw [h.2, hr, List.append_assoc]
  rfl

/-- A new order: both match it against the same levels and rest what is left. -/
theorem new_follows (h : Mirrors c a st) (hok : a.Ok c) (hwf : WellFormed c a req)
    (hact : req.action = .new) (hrow : LimitRow req) :
    ∃ st', st.new req = some st' ∧ Follows c st st' (a.step c gen req) := by
  obtain ⟨hlimit, hq⟩ := hrow.new hact
  obtain ⟨s, hs⟩ := hwf.side
  have hlookup := h.lookup_eq hok req.combinedId_lt
  have hkey : keyOf req.combinedId = (req.clientId, req.orderId) := keyOf_combined _ _
  rw [hkey] at hlookup
  have hstep : a.step c gen req =
      if c.priceInvalid req.p ≠ 0 then a.reject c gen req 0 .priceInvalid
      else a.newOrder c gen req := by
    unfold Lob.step
    rw [hact]
    simp [hlimit]
  rw [hstep]
  unfold Matcher.new Lob.newOrder
  dsimp only
  by_cases hmax : Matcher.maxQty < req.q
  · -- a quantity that is too large is rejected, whatever else is wrong
    rw [if_pos hmax]
    refine ⟨_, rfl, ?_⟩
    split
    · exact h.reject ..
    split
    · exact h.reject ..
    split
    · exact h.reject ..
    · rw [if_pos (show req.q = 0 ∨ globalMaxQty < req.q from Or.inr hmax)]
      exact h.reject ..
  rw [if_neg hmax]
  by_cases hp : req.p ≤ 0
  · rw [if_pos hp]
    refine ⟨_, rfl, ?_⟩
    split
    · exact h.reject ..
    split
    · exact h.reject ..
    · rw [if_pos ⟨hp, hlimit⟩]
      exact h.reject ..
  rw [if_neg hp]
  -- the price is one of the grid, so both accept it
  obtain ⟨i, hi, hpi⟩ := hwf.price (by omega)
  have hvalid : ¬ c.priceInvalid req.p ≠ 0 := by
    rw [hpi, c.priceInvalid_plToPrice hi]
    exact fun hne => hne rfl
  rw [if_neg hvalid]
  cases hfind : a.find req.combinedId with
  -- the id is in both books or in none
  | some so =>
    rw [hfind] at hlookup
    have hin : (req.clientId, req.orderId) ∈ st.activeOrders := by
      rw [← AList.lookup_isSome, hlookup]
      rfl
    rw [if_pos hin]
    exact ⟨_, rfl, h.reject ..⟩
  | none =>
    rw [hfind] at hlookup
    have hout : (req.clientId, req.orderId) ∉ st.activeOrders := by
      rw [← AList.lookup_eq_none, hlookup]
      rfl
    have hqty : ¬ (req.q = 0 ∨ globalMaxQty < req.q) := by
      rintro (hz | hlt)
      · omega
      · exact hmax hlt
    rw [if_neg hout, if_neg (by simp), if_neg (fun hl => hp hl.1), if_neg hqty]
    have hslot := OrderRequest.slot_of_side hs
    -- the order trades and rests in both
    have hindex : State.newIndex c req = i := by
      unfold State.newIndex
      rw [hlimit, if_neg (by decide), hpi, c.priceToIndex_plToPrice hi]
    have hsent := h.sendResp .NEW req.orderId req.clientId req.side req.p req.q req.q
    obtain ⟨st', hrun, hmir, hresp⟩ := hsent.execute hok (t := State.createOrder req)
      req.combinedId_lt (fun s' x hx => Lob.find_eq_none hfind hx) s i gen
    refine ⟨st', ?_, ?_⟩
    · rw [← hrun]
      unfold takerOf State.createOrder OrderRequest.combinedId
      rw [orderIdOf_combined, clientIdOf_combined, hs, hpi]
    · rw [hslot, hindex]
      refine Follows.after ⟨hmir, hresp⟩ ?_
      unfold responseOf Lob.newRecord Config.response OrderRequest.combinedId
      rw [orderIdOf_combined, clientIdOf_combined]
      rfl

/-- A cancel: both answer with the order, or reject. -/
theorem cancel_follows (h : Mirrors c a st) (hok : a.Ok c) (hact : req.action = .cancel) :
    ∃ st', st.cancel req = some st' ∧ Follows c st st' (a.step c gen req) := by
  have hlookup := h.lookup_eq hok req.combinedId_lt
  have hkey : keyOf req.combinedId = (req.clientId, req.orderId) := keyOf_combined _ _
  rw [hkey] at hlookup
  unfold Matcher.cancel Lob.step Lob.cancelOrder
  rw [hact]
  dsimp only
  rw [hlookup]
  cases hfind : a.find req.combinedId with
  | none => exact ⟨_, rfl, h.reject ..⟩
  | some so =>
    obtain ⟨s, o⟩ := so
    obtain ⟨hmem, hid⟩ := Lob.mem_of_find hfind
    refine ⟨_, rfl, ?_, ?_⟩
    · have hrem := (h.sendResp .CAN (orderIdOf o.orderId) (clientIdOf o.orderId) req.side
        (c.plToPrice o.level) o.qtyOriginal 0).remove (Lob.Distinct.of_ok hok) hmem
      rw [← hkey, ← hid]
      exact hrem
    · rw [Matcher.removeOrder_responses]
      rfl

/-- A replacement that passed the checks on its quantity and its tick. -/
theorem replace_follows (h : Mirrors c a st) (hok : a.Ok c) {s : Slot} {o : Order}
    (hmem : o ∈ a s) (hid : o.orderId = req.combinedId) {target newQty : Nat}
    (hexec : o.executed ≤ newQty) (htick : ¬ (req.p ≠ 0 ∧ req.p % 25 ≠ 0))
    (hfill : target ≠ o.level → newQty ≠ o.executed)
    (hprice : (if req.p ≠ 0 then req.p else c.plToPrice o.level) = c.plToPrice target)
    (hqty : (if req.q ≠ 0 then req.q else o.qtyOriginal) = newQty) :
    ∃ st', st.replace req (entryOf c s o) = some st' ∧
      Follows c st st' (a.replaceOrder c gen s req o target newQty) := by
  have hd := Lob.Distinct.of_ok hok
  have hsane := hok.sane hmem
  have hkey : (req.clientId, req.orderId) = keyOf o.orderId := by
    rw [hid]
    exact (keyOf_combined _ _).symm
  have hack : responseOf (Lob.replaceRecord c req o target newQty) =
      ⟨.MOD, req.orderId, req.clientId, req.side, c.plToPrice target, newQty,
        newQty - o.executed⟩ := by
    unfold responseOf Lob.replaceRecord Config.response OrderRequest.combinedId
    rw [orderIdOf_combined, clientIdOf_combined]
    rfl
  have hprice' : (if req.p ≠ 0 then req.p else (entryOf c s o).price) = c.plToPrice target := hprice
  have hqty' : (if req.q ≠ 0 then req.q else (entryOf c s o).qtyOriginal) = newQty := hqty
  have hsame : (entryOf c s o).price = c.plToPrice target ↔ o.level = target := c.plToPrice_inj
  have hexec' : ¬ newQty < (entryOf c s o).qtyOriginal - (entryOf c s o).qtyRemaining :=
    Nat.not_lt.mpr hexec
  unfold Matcher.replace
  rw [if_neg htick]
  dsimp only
  rw [hprice', hqty', if_neg hexec', hkey]
  unfold Lob.replaceOrder
  rw [if_neg (Nat.not_lt.mpr hexec)]
  simp only [hsame]
  have hdiff : ((newQty : Int) - (entryOf c s o).qtyOriginal = 0) ↔ newQty = o.qtyOriginal := by
    show ((newQty : Int) - o.qtyOriginal = 0) ↔ _
    omega
  have hdiff' : (0 < (newQty : Int) - (entryOf c s o).qtyOriginal) ↔ o.qtyOriginal < newQty := by
    show (0 < (newQty : Int) - o.qtyOriginal) ↔ _
    omega
  simp only [hdiff, hdiff']
  by_cases hkeep : o.level = target ∧ newQty = o.qtyOriginal
  · rw [if_pos hkeep, if_pos hkeep]
    refine ⟨_, rfl, h.sendResp _ _ _ _ _ _ _, ?_⟩
    rw [List.map_singleton, hack]
    rfl
  rw [if_neg hkeep, if_neg hkeep]
  have hpos := hsane.pos
  have hle := hsane.le
  by_cases hdown : o.level = target ∧ ¬ o.qtyOriginal < newQty
  · -- in place, down to the executed quantity or not
    rw [if_pos hdown]
    have hres := h.resize hd hmem newQty (newQty - o.executed)
    by_cases hz : newQty - o.executed = 0
    · have hz' : newQty - ((entryOf c s o).qtyOriginal - (entryOf c s o).qtyRemaining) = 0 := hz
      rw [if_pos hz', if_pos hz]
      have hgone := ((hres.sendResp .MOD req.orderId req.clientId req.side (c.plToPrice target)
        newQty (newQty - o.executed)).sendResp .FIL req.orderId req.clientId req.side
        (c.plToPrice target) 0 0).remove (hd.resize _ _ _)
        (Lob.mem_resize_self hmem newQty (newQty - o.executed))
      rw [Lob.remove_resize] at hgone
      refine ⟨_, rfl, hgone, ?_⟩
      rw [Matcher.removeOrder_responses, List.map_cons, hack, List.map_singleton]
      unfold responseOf Lob.finishRecord Config.response OrderRequest.combinedId
      rw [orderIdOf_combined, clientIdOf_combined]
      exact List.append_assoc st.responses [_] [_]
    · have hz' : ¬ newQty - ((entryOf c s o).qtyOriginal - (entryOf c s o).qtyRemaining) = 0 := hz
      rw [if_neg hz', if_neg hz, if_neg (by omega)]
      refine ⟨_, rfl, hres.sendResp _ _ _ _ _ _ _, ?_⟩
      rw [List.map_singleton, hack]
      rfl
  · -- the order is matched anew
    have hmove : o.level ≠ target ∨ o.qtyOriginal < newQty := by
      by_contra hno
      obtain ⟨hlevel, hraise⟩ := not_or.mp hno
      exact hdown ⟨not_not.mp hlevel, hraise⟩
    have hz : ¬ newQty - o.executed = 0 := by
      unfold Order.executed at *
      rcases hmove with hne | hlt
      · have := hfill (fun e => hne e.symm)
        omega
      · omega
    rw [if_neg hdown, if_neg hz, if_pos hmove]
    have hout := (h.sendResp .MOD req.orderId req.clientId req.side (c.plToPrice target) newQty
      (newQty - o.executed)).remove hd hmem
    obtain ⟨st', hrun, hmir, hresp⟩ := hout.execute (hok.remove o.orderId)
      (t := o.resized newQty) hsane.id (fun s' x hx => (Lob.mem_remove.mp hx).2) s target gen
    refine ⟨st', hrun, Follows.after ⟨hmir, hresp⟩ ?_⟩
    rw [Matcher.removeOrder_responses, hack]
    rfl

/-- A modify on which the two agree. -/
theorem modify_follows (h : Mirrors c a st) (hok : a.Ok c) (hwf : WellFormed c a req)
    (hact : req.action = .modify) (hagree : Concordant c a req) :
    ∃ st', st.modify req = some st' ∧ Follows c st st' (a.step c gen req) := by
  have hlookup := h.lookup_eq hok req.combinedId_lt
  have hkey : keyOf req.combinedId = (req.clientId, req.orderId) := keyOf_combined _ _
  rw [hkey] at hlookup
  unfold Matcher.modify Lob.step Lob.modifyOrder
  rw [hact]
  dsimp only
  rw [hlookup]
  cases hfind : a.find req.combinedId with
  | none =>
    dsimp only [Option.map_none, Option.getD_none]
    split
    · exact ⟨_, rfl, h.reject ..⟩
    · exact ⟨_, rfl, h.reject ..⟩
  | some so =>
    obtain ⟨s, o⟩ := so
    obtain ⟨hmem, hid⟩ := Lob.mem_of_find hfind
    dsimp only [Option.map_some, Option.getD_some]
    by_cases hq : globalMaxQty < req.q
    · have hq' : Matcher.maxQty < req.q := hq
      rw [if_pos hq, if_pos hq']
      exact ⟨_, rfl, h.reject ..⟩
    have hq' : ¬ Matcher.maxQty < req.q := hq
    have hvalid : ¬ (req.p ≠ 0 ∧ c.priceInvalid req.p ≠ 0) := by
      rintro ⟨hp, hv⟩
      obtain ⟨i, hi, hpi⟩ := hwf.price hp
      exact hv (by rw [hpi, c.priceInvalid_plToPrice hi])
    rw [if_neg hq, if_neg hq', if_neg hvalid]
    by_cases hexec : req.newQty o < o.executed
    · -- both reject a quantity below the executed one, perhaps for different reasons
      unfold Lob.replaceOrder
      rw [if_pos hexec]
      unfold Matcher.replace
      split
      · exact ⟨_, rfl, h.reject ..⟩
      · dsimp only
        have hexec' : (if req.q ≠ 0 then req.q else (entryOf c s o).qtyOriginal) <
            (entryOf c s o).qtyOriginal - (entryOf c s o).qtyRemaining := hexec
        rw [if_pos hexec']
        exact ⟨_, rfl, h.reject ..⟩
    · have hexec' := Nat.le_of_not_lt hexec
      obtain ⟨htick, hfill⟩ := hagree hact s o hfind (Nat.le_of_not_lt hq) hexec'
      refine replace_follows h hok hmem hid hexec' (fun ht => ht.2 (htick ht.1).2) hfill ?_ rfl
      unfold OrderRequest.target
      split
      · rename_i hp
        obtain ⟨i, hi, hpi⟩ := hwf.price hp
        rw [hpi, c.priceToIndex_plToPrice hi]
      · rfl

/-- One row of a run. -/
theorem step_follows (h : Mirrors c a st) (hok : a.Ok c) (hwf : WellFormed c a req)
    (hrow : LimitRow req) (hagree : Concordant c a req) (gen : Nat → Nat) :
    ∃ st', st.step req = some st' ∧ Follows c st st' (a.step c gen req) := by
  unfold Matcher.step
  cases hact : req.action with
  | new => exact new_follows h hok hwf hact hrow
  | cancel => exact cancel_follows h hok hact
  | modify => exact modify_follows h hok hwf hact hagree
  | other n =>
    refine ⟨_, rfl, ?_⟩
    unfold Lob.step
    rw [hact]
    exact h.reject ..

end Rows

/-! ## Runs -/

/-- The matcher keeps up with a run. -/
theorem served_mirrored {c : Config} {reqs : List OrderRequest} {st : State}
    (h : Served (fun a req => LimitRow req ∧ Concordant c a req) c reqs st) :
    ∃ m, Matcher.run reqs = some m ∧ Mirrors c st.book.lob m ∧
      m.responses = st.log.map responseOf := by
  induction h with
  | fresh gen =>
    refine ⟨_, rfl, ?_, rfl⟩
    rw [fresh_lob]
    constructor
    · intro k e
      constructor
      · intro hl
        cases hl
      · rintro ⟨s, o, ho, -⟩
        cases ho
    · intro s p
      cases s <;> rfl
  | step hst hK hreq hrun ih =>
    obtain ⟨m, hm, hmir, hresp⟩ := ih
    obtain ⟨hlob, hlog, -⟩ := hst.reachable.step_answer hreq hrun
    obtain ⟨m', hm', hmir', hresp'⟩ := step_follows hmir hst.reachable.ok hreq hK.1 hK.2 _
    refine ⟨m', ?_, hlob ▸ hmir', ?_⟩
    · unfold Matcher.run at *
      rw [List.foldlM_append, hm]
      show (some m).bind _ = some m'
      rw [Option.bind_some, List.foldlM_cons, hm']
      rfl
    · rw [hresp', hresp, hlog, List.map_append]

/-- A request keeps the orders at positive prices. -/
theorem positive_step {c : Config} {a : Lob} {req : OrderRequest} (hok : a.Ok c) (hwf : WellFormed c a req)
    (hrow : LimitRow req) (hagree : Concordant c a req) (gen : Nat → Nat)
    (h : ∀ s, ∀ o ∈ a s, 0 < c.plToPrice o.level ∧ c.plToPrice o.level < 2 ^ 63) :
    ∀ s, ∀ o ∈ (a.step c gen req).lob s, 0 < c.plToPrice o.level ∧ c.plToPrice o.level < 2 ^ 63 := by
  intro s o ho
  cases Lob.stands hok ho with
  | stayed hx _ hlevel _ =>
    rw [hlevel]
    exact h s _ hx
  | entered hact _ _ _ hlevel hp =>
    -- a new limit order rests at its own price, and none is accepted at zero or below
    obtain ⟨htype, -⟩ := hrow.new hact
    obtain ⟨i, -, hpi, hidx⟩ := hwf.limit_index htype hp
    rw [hlevel, hidx, ← hpi]
    exact ⟨not_le.mp fun hle => hp ⟨hle, htype⟩, hrow.word⟩
  | @moved x hact hx hname _ hlevel _ hmax hexec =>
    have hfind : a.find req.combinedId = some (s, x) := hname ▸ hok.find_of_mem hx
    obtain ⟨hprice, -⟩ := hagree hact s x hfind hmax hexec
    rw [hlevel]
    unfold OrderRequest.target
    split
    · rename_i hp
      obtain ⟨i, hi, hpi⟩ := hwf.price hp
      rw [hpi, c.priceToIndex_plToPrice hi, ← hpi]
      exact ⟨(hprice hp).1, hrow.word⟩
    · exact h s x hx

/-- On a concordant run every order rests at a positive price. -/
theorem served_positive {c : Config} {reqs : List OrderRequest} {st : State}
    (h : Served (fun a req => LimitRow req ∧ Concordant c a req) c reqs st) :
    ∀ s, ∀ o ∈ st.book.lob s, 0 < c.plToPrice o.level ∧ c.plToPrice o.level < 2 ^ 63 := by
  induction h with
  | fresh gen =>
    intro s o ho
    rw [fresh_lob] at ho
    exact absurd ho List.not_mem_nil
  | step hst hK hreq hrun ih =>
    obtain ⟨hlob, -, -⟩ := hst.reachable.step_answer hreq hrun
    rw [hlob]
    exact positive_step hst.reachable.ok hreq hK.1 hK.2 _ ih

/-- On every run of limit orders whose replacements are concordant, the engine
sends the reference matcher's records, and writes its book as long as no price
has 2^64 resting at it. -/
theorem engine_agrees_with_oracle {c : Config} {reqs : List OrderRequest} {st : State}
    (h : Served (fun a req => LimitRow req ∧ Concordant c a req) c reqs st) :
    ∃ m, Matcher.run reqs = some m ∧ st.log.map responseOf = m.responses ∧
      (st.book.dumpRaw.map printed = m.bookLines ↔ ∀ s p, qtyAt c (st.book.lob s) p < 2 ^ 64) := by
  obtain ⟨m, hm, hmir, hresp⟩ := served_mirrored h
  have hpos := served_positive h
  obtain ⟨⟨q, hq⟩, rfl, -⟩ := h.reachable.inv
  exact ⟨m, hm, hresp.symm, hmir.bookLines_iff hq hpos⟩

/-- A test for concordant rows. -/
def concordantRow (c : Config) (a : Lob) (req : OrderRequest) : Bool :=
  (req.p < 2 ^ 63 ∧ (req.action ≠ .new ∨ (req.type = .limit ∧ 1 ≤ req.q))) ∧
    (req.action ≠ .modify ∨ (a.find req.combinedId).all fun so =>
      (req.p = 0 ∨ (0 < req.p ∧ req.p % 25 = 0)) ∧ (req.target c so.2 = so.2.level ∨ req.newQty so.2 ≠ so.2.executed))

/-- The check of a row finds rows on which they agree. -/
theorem concordantRow_sound {c : Config} {a : Lob} {req : OrderRequest}
    (h : concordantRow c a req = true) : LimitRow req ∧ Concordant c a req := by
  obtain ⟨⟨hword, hnew⟩, hmod⟩ := of_decide_eq_true h
  refine ⟨⟨hword, fun hact => hnew.resolve_left (fun hne => hne hact)⟩, fun hact s o hfind _ _ => ?_⟩
  have hall := hmod.resolve_left (fun hne => hne hact)
  rw [hfind] at hall
  obtain ⟨hp, ht⟩ := of_decide_eq_true hall
  exact ⟨fun hne => hp.resolve_left hne, fun hne => ht.resolve_left hne⟩

/-- Two offers, a bid below them, a bid that takes the first offer and part of the
second, a replacement that takes the rest, and a cancel. -/
def oracleRows : List OrderRequest :=
  [sampleRequest .new 1 .sell 20 7, sampleRequest .new 2 .sell 20 5, sampleRequest .new 3 .buy 10 4,
    sampleRequest .new 4 .buy 20 9, sampleRequest .modify 3 .buy 25 8,
    sampleRequest .cancel 3 .buy 25 8]

theorem sample_oracle : ∃ st, Served (fun a req => LimitRow req ∧ Concordant sampleConfig a req)
      sampleConfig oracleRows st ∧ st.log.length = 12 ∧
    ∃ m, Matcher.run oracleRows = some m ∧ st.log.map responseOf = m.responses ∧
      (st.book.dumpRaw.map printed = m.bookLines ↔
        ∀ s p, qtyAt sampleConfig (st.book.lob s) p < 2 ^ 64) := by
  obtain ⟨st, hst, hlen⟩ := Served.of_serveBy _ (concordantRow sampleConfig)
    (fun _ _ => concordantRow_sound) sampleConfig id oracleRows (fun st => st.log.length = 12)
    (by decide +kernel)
  exact ⟨st, hst, of_decide_eq_true hlen, engine_agrees_with_oracle hst⟩

/-- An offer of 7 that has traded 3 and is replaced by 3 at another price. -/
def finishedRows : List OrderRequest :=
  [sampleRequest .new 1 .sell 20 7, sampleRequest .new 2 .buy 20 3, sampleRequest .modify 1 .sell 25 3]

/-- The engine closes that order with a `Fill`; the matcher drops it in silence. -/
theorem oracle_misses_fill : ¬ ∀ reqs st, Served (fun _ req => LimitRow req) sampleConfig reqs st →
    ∃ m, Matcher.run reqs = some m ∧ st.log.map responseOf = m.responses ∧
      st.book.dumpRaw.map printed = m.bookLines := by
  intro hall
  obtain ⟨st, hst, hlen⟩ := Served.of_serveBy (fun _ req => LimitRow req)
    (fun _ req => req.p < 2 ^ 63 ∧ (req.action ≠ .new ∨ (req.type = .limit ∧ 1 ≤ req.q)))
    (fun _ req h => ⟨(of_decide_eq_true h).1, fun hact =>
      (of_decide_eq_true h).2.resolve_left (fun hne => hne hact)⟩) sampleConfig id
    finishedRows (fun st => st.log.length = 6) (by decide +kernel)
  obtain ⟨m, hm, hresp, -⟩ := hall _ st hst
  have hfive : (Matcher.run finishedRows).map (fun m => m.responses.length) = some 5 := by
    decide +kernel
  rw [hm] at hfive
  have hsix := congrArg List.length hresp
  rw [List.length_map, of_decide_eq_true hlen] at hsix
  rw [Option.map_some, ← hsix] at hfive
  cases hfive

end Exchange.Oracle
