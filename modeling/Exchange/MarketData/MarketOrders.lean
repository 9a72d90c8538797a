import Exchange.Book.Markets
import Exchange.Book.RoundTrip
import Exchange.MarketData.Restore

/-!
# Market orders in the four books

A market order that rests has a place in the engine's book, in a book that has loaded a snapshot
of it, in one that the journal was replayed to, and in the market data server's. Each has its own
way to the price. They all come to the same in a run that keeps prices (`market_orders_one_price`);
what goes wrong otherwise is in `market_orders_many_prices`.

For the server, a market order with a price is like a limit order. One without a price is set
aside as long as there is anything on the other side, and if it is filled by that it never comes to
be entered at the price 0 (`filled_execute`).
-/

namespace Exchange.MarketData

open MDOrderBook

/-! ## Market orders without a price -/

/-- A market order without a price pends. -/
structure MDOrderBook.Asks (m : MDOrderBook) (s : Slot) (id : Nat) : Prop where
  live : m.pendingOrder.orderId ≠ 0
  orderId : m.pendingOrder.orderId = orderIdOf id
  clientId : m.pendingOrder.clientId = clientIdOf id
  side : m.pendingOrder.side = s.side
  price : m.pendingOrder.p = 0

/-- What is set aside of a market order without a price, `r` of it being left. -/
def MDOrderBook.AsksFor (m : MDOrderBook) (s : Slot) (id r : Nat) : Prop :=
  (r = 0 ∧ m.Idle) ∨ (r ≠ 0 ∧ m.Asks s id)

section Filled

variable {c : Config} {s : Slot} {idx : Nat} {t : Order}

/-- Anything on the other side crosses an order without a price. -/
theorem crosses_zero {m : MDOrderBook} {a : Lob} (hh : Holds c a m.book)
    (hsorted : (a s.flip).Pairwise fun x y => ¬ s.flip.better y.level x.level) (hne : a s.flip ≠ []) :
    m.crosses s.side 0 = true := by
  obtain ⟨y, ms, hm⟩ := List.exists_cons_of_ne_nil hne
  have hbest := hh.best_cons hm hsorted
  cases s with
  | bid =>
    show (m.book.best .ask).any _ = true
    rw [show m.book.best .ask = some (c.plToPrice y.level) from hbest, Option.any_some]
    exact decide_eq_true (Or.inl rfl)
  | ask =>
    show (m.book.best .bid).any _ = true
    rw [show m.book.best .bid = some (c.plToPrice y.level) from hbest, Option.any_some]
    exact decide_eq_true (Or.inl rfl)

/-- A market order that meets the other side crosses at the price it rests at. -/
theorem MDOrderBook.Asks.enter_crossing {m : MDOrderBook} {a : Lob} (h : m.Asks s t.orderId)
    (hh : Holds c a m.book) (hsorted : (a s.flip).Pairwise fun x y => ¬ s.flip.better y.level x.level)
    (hne : a s.flip ≠ []) : m.enterPending = .ok m := by
  refine if_pos (Or.inr ?_)
  rw [h.side, h.price]
  exact crosses_zero hh hsorted hne

/-- The taker's record of a trade lowers it. -/
theorem MDOrderBook.Asks.taker {m : MDOrderBook} (h : m.Asks s t.orderId) (left x : Nat) (p : Int) (q : Nat) :
    ∃ m', m.process (c.response (State.fillType left) t.orderId x s.side p q left .none) = .ok m' ∧
      m'.book = m.book ∧ m'.AsksFor s t.orderId left := by
  refine ⟨_, process_own h.live rfl ⟨h.orderId.symm, h.clientId.symm⟩, rfl, ?_⟩
  by_cases hz : left = 0
  · rw [if_pos hz]
    exact Or.inl ⟨hz, rfl⟩
  · rw [if_neg hz]
    exact Or.inr ⟨hz, h.live, h.orderId, h.clientId, h.side, h.price⟩

/-- The maker's record is applied. -/
theorem MDOrderBook.AsksFor.maker {m : MDOrderBook} {a : Lob} {r : Nat} (h : m.AsksFor s t.orderId r)
    {y : Order} (hy : y.orderId < 2 ^ 64) (ht : t.orderId < 2 ^ 64) (hne : y.orderId ≠ t.orderId) (left : Nat)
    {q : Nat} {p : Int}
    (hupdate : ∃ b, m.book.update (State.fillType left) y.orderId s.flip.side p q left = .ok b ∧ Holds c a b)
    (x : Nat) (rs : List OrderResponse) :
    ∃ m' : MDOrderBook,
      m.digest (c.response (State.fillType left) y.orderId x s.flip.side p q left .none :: rs) =
        (m'.enterPending.bind fun m => m.digest rs) ∧ Holds c a m'.book ∧ m'.AsksFor s t.orderId r := by
  obtain ⟨b, hb, hh⟩ := hupdate
  refine ⟨{ m with book := b, mdSeqNum := m.mdSeqNum + 1 }, digest_other hy ?_ c left hb x rs, hh, ?_⟩
  · rcases h with ⟨-, hidle⟩ | ⟨-, hasks⟩
    · exact Or.inl hidle
    · rw [hasks.orderId, hasks.clientId]
      exact Or.inr (id_parts_ne hy ht hne)
  · exact h.imp (fun hz => ⟨hz.1, hz.2⟩) fun hz => ⟨hz.1, hz.2.live, hz.2.orderId, hz.2.clientId, hz.2.side, hz.2.price⟩

/-- Nothing is left of it. -/
theorem filled_stop {m : MDOrderBook} {a : Lob} (gen : Nat → Nat) (hh : Holds c a m.book)
    (hr : t.qtyRemaining = 0) (h : m.AsksFor s t.orderId t.qtyRemaining) :
    ∃ m', (m.enterPending.bind fun m => m.digest (a.execute c gen s t idx).recs) = .ok m' ∧
      m'.Idle ∧ Holds c (a.execute c gen s t idx).lob m'.book := by
  have hstop : t.qtyRemaining = 0 ∨ (a s.flip).head?.any (fun o => State.crossed s idx o.level) = false :=
    Or.inl hr
  obtain ⟨hrecs, hlob⟩ := Lob.execute_stop c gen hstop
  have hidle : m.Idle := h.elim And.right fun hne => absurd hr hne.1
  rw [hrecs, hlob, if_pos hr, enterPending_idle hidle]
  exact ⟨m, rfl, hidle, hh⟩

/-- A market order without a price goes through a sweep that fills it. -/
theorem filled_execute (ms : List Order) : ∀ (gen : Nat → Nat) (a : Lob) (m : MDOrderBook) (t : Order),
    a s.flip = ms → t.orderId < 2 ^ 64 → Holds c a m.book → a.Distinct →
    (∀ s, (a s).Pairwise fun x y => ¬ s.better y.level x.level) →
    (∀ s', ∀ y ∈ a s', y.orderId ≠ t.orderId) →
    (sweep (State.crossed s idx) t.qtyRemaining ms).left = 0 → m.AsksFor s t.orderId t.qtyRemaining →
    ∃ m', (m.enterPending.bind fun m => m.digest (a.execute c gen s t idx).recs) = .ok m' ∧
      m'.Idle ∧ Holds c (a.execute c gen s t idx).lob m'.book := by
  -- on the makers still in front
  induction ms with
  | nil =>
    intro gen a m t hm ht hh hd hsorted hnew hleft hasks
    exact filled_stop gen hh hleft hasks
  | cons y ms ih =>
    intro gen a m t hm ht hh hd hsorted hnew hleft hasks
    by_cases hr : t.qtyRemaining = 0
    · exact filled_stop gen hh hr hasks
    have hw : m.Asks s t.orderId := hasks.elim (fun hz => absurd hz.1 hr) And.right
    have hx : State.crossed s idx y.level = true := head_of_left hr hleft
    have hmem : y ∈ a s.flip := hm ▸ List.mem_cons_self
    have hy := hd.id hmem
    have hside : s.flip.side ≠ Side.none := by cases s <;> decide
    have hother : y.orderId ≠ t.orderId := hnew _ _ hmem
    rw [hw.enter_crossing hh (hsorted s.flip) (List.ne_nil_of_mem hmem)]
    show ∃ m', m.digest _ = .ok m' ∧ _
    by_cases hle : y.qtyRemaining ≤ t.qtyRemaining
    · obtain ⟨hrecs, hlob⟩ := Lob.execute_filled c gen hm hr hx hle
      rw [sweep_filled hr hx hle] at hleft
      obtain ⟨m₁, hm₁, hb₁, hp₁⟩ := hw.taker (c := c) (t.qtyRemaining - y.qtyRemaining) (gen 0)
        (c.plToPrice y.level) y.qtyRemaining
      have hh₁ : Holds c a m₁.book := hb₁ ▸ hh
      have hmaker : (⟨y, y.qtyRemaining, t.qtyRemaining - y.qtyRemaining⟩ : Fill).makerLeft = 0 :=
        Nat.sub_self _
      -- the maker is filled and leaves
      have hgone := hh₁.update_gone hd hmem .fill (by decide) hside
        (p := c.plToPrice y.level) (q := y.qtyRemaining) (fun he => by cases he)
      rw [hd.remove_head hm] at hgone
      have hd₂ : Lob.Distinct (Function.update a s.flip ms) := by
        rw [← hd.remove_head hm]
        exact hd.remove _
      have hsub : ∀ s', List.Sublist (Function.update a s.flip ms s') (a s') := by
        intro s'
        rw [← hd.remove_head hm]
        exact List.filter_sublist
      obtain ⟨m₂, hm₂, hh₂, hp₂⟩ := hp₁.maker hy ht hother 0 hgone (gen 0)
        (Lob.execute c (fun k => gen (k + 1)) (Function.update a s.flip ms) s
          (t.fill y.qtyRemaining) idx).recs
      obtain ⟨m', hm', hidle, hh'⟩ := ih (fun k => gen (k + 1)) (Function.update a s.flip ms) m₂
        (t.fill y.qtyRemaining) (Function.update_self ..) ht hh₂ hd₂
        (fun s' => (hsorted s').sublist (hsub s')) (fun s' z hz => hnew s' z ((hsub s').subset hz)) hleft hp₂
      refine ⟨m', ?_, hidle, by rw [hlob]; exact hh'⟩
      rw [hrecs, ← hm', ← hm₂, tradeRecords, tradeRecords, hmaker, List.cons_append, List.cons_append,
        List.nil_append]
      exact digest_cons (fillType_md _) hm₁ _
    · -- the maker absorbs the taker and stays
      have hlt := Nat.lt_of_not_le hle
      obtain ⟨hrecs, hlob⟩ := Lob.execute_part c gen hm hr hx hlt
      obtain ⟨m₁, hm₁, hb₁, hp₁⟩ := hw.taker (c := c) 0 (gen 0) (c.plToPrice y.level) t.qtyRemaining
      have hh₁ : Holds c a m₁.book := hb₁ ▸ hh
      have hpart : State.fillType (y.qtyRemaining - t.qtyRemaining) = .partialFill :=
        if_neg (by omega)
      have hlow := hh₁.update_lowered hd hmem .partialFill (by decide) hside
        (p := c.plToPrice y.level) (q := t.qtyRemaining) (r := y.qtyRemaining - t.qtyRemaining)
        (by omega) (by omega) (fun he => by cases he) y.qtyOriginal
      rw [hd.resize_head hm] at hlow
      obtain ⟨m₂, hm₂, hh₂, hp₂⟩ := hp₁.maker hy ht hother
        (y.qtyRemaining - t.qtyRemaining) (hpart ▸ hlow) (gen 0) []
      have hidle₂ : m₂.Idle := hp₂.elim And.right (fun hne => absurd rfl hne.1)
      refine ⟨m₂, ?_, hidle₂, by rw [hlob]; exact hh₂⟩
      rw [hrecs, tradeRecords, tradeRecords]
      refine (digest_cons (fillType_md 0) hm₁ _).trans ?_
      exact hm₂.trans (by rw [enterPending_idle hidle₂]; rfl)

end Filled

section Requests

variable {c : Config} {a : Lob} {m : MDOrderBook} {req : OrderRequest} {gen : Nat → Nat}

/-- The server follows a market order without a price that is filled. -/
theorem followed_filled (gen : Nat → Nat) (hok : a.Ok c) (hidle : m.Idle) (hh : Holds c a m.book)
    (hwf : WellFormed c a req) (hmeets : a.meets c req = true → req.orderId ≠ 0) (hact : req.action = .new)
    (hfills : a.FillsMarket c req) (hq : 1 ≤ req.q) :
    Followed c m ((a.execute c gen req.slot (State.createOrder req)
      (State.newIndex c req)).after (Lob.newRecord c req)) := by
  obtain ⟨hzero, hnone, hleft⟩ := hfills
  obtain ⟨s, hs⟩ := hwf.side
  have hslot := OrderRequest.slot_of_side hs
  rw [Lob.meets_new hact, hslot] at hmeets
  rw [hslot] at hleft ⊢
  have hr : (State.createOrder req).qtyRemaining ≠ 0 := Nat.one_le_iff_ne_zero.mp hq
  have hx := head_of_left hr hleft
  have hne : a s.flip ≠ [] := by
    intro hnil
    rw [hnil] at hx
    cases hx
  have hset : m.process (Lob.newRecord c req) = .ok { m with pendingOrder := Lob.newRecord c req } := by
    refine process_new hidle rfl ?_
    show m.crosses req.side req.p = true
    rw [hs, hzero]
    exact crosses_zero hh (hok.sorted s.flip) hne
  have hasks : ({ m with pendingOrder := Lob.newRecord c req } : MDOrderBook).Asks s
      (State.createOrder req).orderId := by
    refine ⟨?_, rfl, rfl, hs, hzero⟩
    show orderIdOf req.combinedId ≠ 0
    unfold OrderRequest.combinedId
    rw [orderIdOf_combined]
    exact hmeets hx
  have hnew : ∀ s', ∀ y ∈ a s', y.orderId ≠ (State.createOrder req).orderId :=
    fun s' y hy => Lob.find_eq_none hnone hy
  obtain ⟨m', hm', hidle', hh'⟩ := filled_execute (c := c) (a s.flip) gen a
    { m with pendingOrder := Lob.newRecord c req } (State.createOrder req) rfl req.combinedId_lt hh (.of_ok hok)
    hok.sorted hnew hleft (Or.inr ⟨hr, hasks⟩)
  rw [hasks.enter_crossing hh (hok.sorted s.flip) hne] at hm'
  exact ⟨m', (digest_cons new_md hset _).trans hm', hidle', hh'⟩

/-- The records of a request that keeps the price, as the server reads them. -/
theorem followed_untyped (gen : Nat → Nat) (hok : a.Ok c) (hpriced : Priced c a.untyped) (hidle : m.Idle)
    (hh : Holds c a.untyped m.book) (hwf : WellFormed c a req) (hK : KeepsPrice c a req) :
    ∃ m', m.digest (a.step c gen req).recs = .ok m' ∧ m'.Idle ∧
      Holds c (a.step c gen req).lob.untyped m'.book ∧ Priced c (a.step c gen req).lob.untyped := by
  rcases Lob.step_untyped gen hwf hK with ⟨qRem, code, hreject⟩ | ⟨req', hwf', hmeets, hstep, hfills⟩
  · rw [hreject]
    exact ⟨m, digest_skip rejected_md m [], hidle, hh, hpriced⟩
  · have hrecs : (a.step c gen req).recs = (a.untyped.step c gen req').recs := by
      rw [hstep]
      rfl
    have hlob : (a.step c gen req).lob.untyped = (a.untyped.step c gen req').lob := by
      rw [hstep]
      rfl
    have hout := Lob.step_outcome c gen a.untyped req'
    rw [hrecs, hlob]
    by_cases hmarket : req'.action = .new ∧ req'.type = .market
    · -- nothing of it comes to rest
      obtain ⟨hact, hm⟩ := hmarket
      have hfill := hfills hact hm
      generalize a.untyped.step c gen req' = ans at hout
      cases hout with
      | rejected qRem code => exact ⟨m, digest_skip rejected_md m [], hidle, hh, hpriced⟩
      | entered _ hnone _ _ hq _ =>
        obtain ⟨m', hm', hidle', hh'⟩ := followed_filled gen hok.untyped hidle hh hwf' hmeets hact hfill hq
        refine ⟨m', hm', hidle', hh', fun s o ho => ?_⟩
        obtain ⟨x, hx, hlevel⟩ := Lob.level_of_left c gen hfill.2.2 ho
        rw [hlevel]
        exact hpriced s x hx
      | cancelled h _ => exact absurd (hact.symm.trans h) (by decide)
      | kept h _ _ _ _ _ _ => exact absurd (hact.symm.trans h) (by decide)
      | finished h _ _ _ _ _ => exact absurd (hact.symm.trans h) (by decide)
      | requeued h _ _ _ _ _ => exact absurd (hact.symm.trans h) (by decide)
      | shrunk h _ _ _ _ _ _ => exact absurd (hact.symm.trans h) (by decide)
    · have hlimit : req'.action = .new → req'.type ≠ .market := fun hact hm => hmarket ⟨hact, hm⟩
      obtain ⟨m', hm', hidle', hh'⟩ := followed hpriced hok.untyped hidle hh hwf' hmeets hlimit hout
      exact ⟨m', hm', hidle', hh', hpriced.outcome hok.untyped hwf' hlimit hout⟩

end Requests

/-! ## Runs -/

/-- The server keeps up with a run that keeps prices, but for the types. -/
theorem Served.feeds {c : Config} {reqs : List OrderRequest} {st : State} (h : Served (KeepsPrice c) c reqs st) :
    ∃ srv, Server.feed ∅ st.log = .ok srv ∧ (srv.getOrCreateBook c.symbolId).Idle ∧
      Holds c st.book.lob.untyped (srv.getOrCreateBook c.symbolId).book ∧ Priced c st.book.lob.untyped := by
  induction h with
  | fresh _ =>
    rw [fresh_lob]
    exact ⟨∅, rfl, rfl, holds_empty c, fun s o ho => absurd ho List.not_mem_nil⟩
  | @step reqs st st' req hst hK hreq hrun ih =>
    obtain ⟨srv, hfeed, hidle, hh, hpriced⟩ := ih
    obtain ⟨hlob, hlog, -⟩ := hst.reachable.step_answer hreq hrun
    obtain ⟨m', hm', hidle', hh', hpriced'⟩ := followed_untyped st.gen hst.reachable.ok hpriced hidle hh hreq hK
    have hsymbol := (Lob.step_outcome c st.gen st.book.lob req).symbol
    obtain ⟨srv', hfeed', hbook, -⟩ := Server.feed_book srv hsymbol hm'
    rw [hlob, hlog, Server.feed_append, hfeed]
    refine ⟨srv', hfeed', ?_⟩
    rw [hbook]
    exact ⟨hidle', hh', hpriced'⟩

/-! ## One price -/

/-- The price at which a book has the order of that id. -/
def priceOf (b : OrderBook) (id : Nat) : Option Int :=
  ((b.activeOrders id).bind b.orders).bind fun o => o.priceLevel.map b.cfg.plToPrice

/-- The price at which the server has it. -/
def MDOrderBook.priceOf (m : MDOrderBook) (id : Nat) : Option Int := (m.book.orders.lookup id).map (·.price)

/-- An order is at the price `p` in the engine's book, in a new one that has loaded its snapshot, in one
that the journal was replayed to, and in the server's. -/
structure PricedAt (c : Config) (st : State) (id : Nat) (p : Int) : Prop where
  live : priceOf st.book id = some p
  loaded : ∃ b, (OrderBook.fresh c).loadSnapshot st.book.takeSnapshot = some b ∧ priceOf b id = some p
  replayed : ∀ gen, ∃ st', State.replay ⟨.fresh c, gen, []⟩ st.log = some st' ∧ priceOf st'.book id = some p
  shown : ∃ srv, Server.feed ∅ st.log = .ok srv ∧ (srv.getOrCreateBook c.symbolId).priceOf id = some p

/-- The resting market orders have one price everywhere. -/
def OnePrice (c : Config) (st : State) : Prop :=
  ∀ id o, (st.book.activeOrders id).bind st.book.orders = some o → o.type = .market → ∃ p, PricedAt c st id p

theorem priceOf_eq {b : OrderBook} {q : Nat → List Nat} (h : Inv b q) {id : Nat} {s : Slot} {o : Order}
    (hfind : b.lob.find id = some (s, o)) : priceOf b id = some (b.cfg.plToPrice o.level) := by
  cases hact : b.activeOrders id with
  | none =>
    rw [h.lob_eq, h.active_none hact] at hfind
    cases hfind
  | some ptr =>
    obtain ⟨s', i, o', hfind', ho', -, -, -, hlevel, hi, -⟩ := h.active_some hact
    rw [h.lob_eq, hfind'] at hfind
    obtain ⟨rfl, rfl⟩ := Prod.mk.inj (Option.some.inj hfind)
    unfold priceOf
    rw [hact, Option.bind_some, ho', Option.bind_some, hlevel, hi]
    rfl

/-- In a run that keeps prices every order is at one price. -/
theorem pricedAt_level {c : Config} {reqs : List OrderRequest} {st : State} (h : Served (KeepsPrice c) c reqs st)
    {id : Nat} {s : Slot} {o : Order} (hfind : st.book.lob.find id = some (s, o)) :
    PricedAt c st id (c.plToPrice o.level) := by
  obtain ⟨⟨q, hq⟩, rfl, -⟩ := h.reachable.inv
  obtain ⟨hfollows, hextreme⟩ := h.follows_untyped
  have hok := h.reachable.ok
  refine ⟨priceOf_eq hq hfind, ?_, fun gen => ?_, ?_⟩
  · obtain ⟨b, q', hb, hq', hcfg, -, hlob⟩ := hq.loads_index fun s o ho => hextreme.snapshot_index hok ho
    refine ⟨b, hb, ?_⟩
    rw [← hcfg]
    exact priceOf_eq hq' (hlob ▸ hfind)
  · obtain ⟨st', hrep, hreb⟩ := hfollows.replay (rebuilt_fresh st.book.cfg gen)
    obtain ⟨q', hq'⟩ := hreb.inv
    have hfind' : st.book.lob.untyped.find id = some (s, o.untyped) := by
      rw [Lob.find_untyped, hfind]
      rfl
    obtain ⟨o', ho', hstrip⟩ := Lob.find_strip hreb.lob hfind'
    have hlevel : o'.strip.level = o.untyped.strip.level := congrArg Order.level hstrip
    have hlevel : o'.level = o.level := hlevel
    refine ⟨st', hrep, ?_⟩
    rw [priceOf_eq hq' ho', hreb.cfg, hlevel]
  · obtain ⟨srv, hfeed, -, hh, -⟩ := Served.feeds h
    obtain ⟨ho, rfl⟩ := Lob.mem_of_find hfind
    have hmem : o.untyped ∈ st.book.lob.untyped s := List.mem_map_of_mem ho
    obtain ⟨x, l, hx⟩ := hh.listed hmem
    refine ⟨srv, hfeed, ?_⟩
    unfold MDOrderBook.priceOf
    rw [show (srv.getOrCreateBook st.book.cfg.symbolId).book.orders.lookup o.orderId = some x from hx.entry,
      Option.map_some, hx.price]
    rfl

/-- Resting market orders have one price everywhere, in a run that keeps prices. -/
theorem market_orders_one_price {c : Config} {reqs : List OrderRequest} {st : State}
    (h : Served (KeepsPrice c) c reqs st) : OnePrice c st := by
  intro id o ho _
  obtain ⟨⟨q, hq⟩, -, -⟩ := h.reachable.inv
  rw [hq.order_under] at ho
  obtain ⟨⟨s, o'⟩, hfind, rfl⟩ := Option.map_eq_some_iff.mp ho
  exact ⟨_, pricedAt_level h hfind⟩

/-- A market order without a price that is filled, and one at the highest price, of which part rests
and is lowered. -/
def extremeRequests : List OrderRequest :=
  [sampleRequest .new 1 .sell 20 7, sampleRequest .new 2 .buy 0 3,
    { sampleRequest .new 3 .buy 40 9 with type := .market }, sampleRequest .modify 3 .buy 0 8]

theorem sample_one_price : ∃ st, Served (KeepsPrice sampleConfig) sampleConfig extremeRequests st ∧
    priceOf st.book (combinedOrderId 1 3) = some 40 ∧ OnePrice sampleConfig st := by
  obtain ⟨st, hst, hP⟩ := Served.of_serveBy (KeepsPrice sampleConfig)
    (fun a req => decide (KeepsPrice sampleConfig a req)) (fun _ _ => of_decide_eq_true) sampleConfig id
    extremeRequests (fun st => priceOf st.book (combinedOrderId 1 3) = some 40) (by decide +kernel)
  exact ⟨st, hst, of_decide_eq_true hP, market_orders_one_price hst⟩

/-- The price of an order in each of the four books. -/
def prices (c : Config) (st : State) (id : Nat) : List (Option Int) :=
  [priceOf st.book id, ((OrderBook.fresh c).loadSnapshot st.book.takeSnapshot).bind (priceOf · id),
    (State.replay ⟨.fresh c, fun k => k, []⟩ st.log).bind (priceOf ·.book id),
    (Server.feed ∅ st.log).toOption.bind fun srv => (srv.getOrCreateBook c.symbolId).priceOf id]

/-- One price is the same in all four places. -/
theorem PricedAt.prices {c : Config} {st : State} {id : Nat} {p : Int} (h : PricedAt c st id p) :
    prices c st id = List.replicate 4 (some p) := by
  obtain ⟨b, hb, hloaded⟩ := h.loaded
  obtain ⟨st', hst', hreplayed⟩ := h.replayed fun k => k
  obtain ⟨srv, hsrv, hshown⟩ := h.shown
  unfold MarketData.prices
  rw [h.live, hb, hst', hsrv, Option.bind_some, Option.bind_some, hloaded, hreplayed]
  show [_, _, _, (srv.getOrCreateBook c.symbolId).priceOf id] = _
  rw [hshown]
  rfl

/-- A run that leaves an order of type market at these prices. -/
theorem not_onePrice (reqs : List OrderRequest) (id : Nat) (ps : List (Option Int)) (hps : ¬ ps.Pairwise Eq)
    (h : (serveBy (fun _ _ => true) sampleConfig ⟨.fresh sampleConfig, fun k => k, []⟩ reqs).any (fun st =>
      (((st.book.activeOrders id).bind st.book.orders).any fun o => o.type = .market) ∧
        prices sampleConfig st id = ps) = true) :
    ∃ st, Served (fun _ _ => True) sampleConfig reqs st ∧ ¬ OnePrice sampleConfig st := by
  obtain ⟨st, hst, hP⟩ := Served.of_serveBy (fun _ _ => True) (fun _ _ => true) (fun _ _ _ => trivial) sampleConfig
    (fun k => k) reqs _ h
  obtain ⟨hmarket, hprices⟩ := of_decide_eq_true hP
  obtain ⟨o, ho, hm⟩ := (Option.any_eq_true ..).mp hmarket
  refine ⟨st, hst, fun hone => ?_⟩
  obtain ⟨p, hp⟩ := hone id o ho (of_decide_eq_true hm)
  rw [← hprices, hp.prices] at hps
  exact hps (List.pairwise_replicate.mpr (Or.inr rfl))

/-- A market order rests at the highest price. The server shows it at 0 if it comes without a price, and at the
price it comes with otherwise, as the replayed book has it. Once it is moved, a loaded snapshot has it back. -/
theorem market_orders_many_prices :
    (∃ st, Served (fun _ _ => True) sampleConfig [sampleRequest .new 1 .buy 0 3] st ∧ ¬ OnePrice sampleConfig st) ∧
    (∃ st, Served (fun _ _ => True) sampleConfig [{ sampleRequest .new 1 .buy 20 3 with type := .market }] st ∧
      ¬ OnePrice sampleConfig st) ∧
    ∃ st, Served (fun _ _ => True) sampleConfig
        [{ sampleRequest .new 1 .buy 40 3 with type := .market }, sampleRequest .modify 1 .buy 20 3] st ∧
      ¬ OnePrice sampleConfig st := by
  refine ⟨?_, ?_, ?_⟩
  · exact not_onePrice _ (combinedOrderId 1 1) [some 40, some 40, some 40, some 0] (by decide) (by decide +kernel)
  · exact not_onePrice _ (combinedOrderId 1 1) [some 40, some 40, some 20, some 20] (by decide) (by decide +kernel)
  · exact not_onePrice _ (combinedOrderId 1 1) [some 20, some 40, some 20, some 20] (by decide) (by decide +kernel)

end Exchange.MarketData
