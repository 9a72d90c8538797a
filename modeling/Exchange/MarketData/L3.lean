import Exchange.Lib.Lockstep
import Exchange.MarketData.L2

/-!
# Level-3 subscriptions

The level-3 half of `src/MarketDataServer.cpp`: what `__update` publishes, and the
snapshot of `send_l3_snapshot`. A client applies an update with the same
`L3Book::update` (`app/client-examples/l3-displayer.cpp`).

`send_l3_snapshot` calls `CreateL3Update` without its last argument, whose default
is 0, so that every update of a snapshot says `q_rem` 0. `orders.at` throws for an
id without an entry; the snapshot is none then.
-/

namespace Exchange.MarketData

/-- `L3Update`. -/
structure L3Update where
  execType : ExecType
  orderId : Nat
  side : Side
  p : Int
  q : Nat
  qRem : Nat
  deriving DecidableEq, Repr

/-- The update `publish_l3_update` sends of a record. -/
def OrderResponse.l3 (r : OrderResponse) : L3Update :=
  ⟨r.execType, r.combinedId, r.side, r.p, r.q, r.qRem⟩

namespace L3Book

/-- `on_l3_update`. -/
def onL3Update (b : L3Book) (u : L3Update) : Except Fault L3Book :=
  b.update u.execType u.orderId u.side u.p u.q u.qRem

/-- Updates in the order they come. -/
def onL3Updates (b : L3Book) (us : List L3Update) : Except Fault L3Book := us.foldlM onL3Update b

end L3Book

/-- The updates a snapshot sends of one order: as new, then what it has traded. -/
def L3Order.snapshot (o : L3Order) : List L3Update :=
  ⟨.new, o.orderId, o.side, o.price, o.qtyReq, 0⟩ ::
    if o.qtyRem < o.qtyReq then [⟨.partialFill, o.orderId, o.side, o.price, o.qtyReq - o.qtyRem, 0⟩]
    else []

namespace L3Book

/-- The orders of a level, in the order of its queue. -/
def levelSnapshot (b : L3Book) (s : Slot) (p : Int) : Option (List L3Update) :=
  ((b.level s p).queue.mapM fun n => (b.orders.lookup n.2).map L3Order.snapshot).map List.flatten

/-- `send_l3_snapshot`: an update that clears, the bids from `rbegin()`, the asks. -/
def l3Snapshot (b : L3Book) : Option (List L3Update) := do
  let bids ← (b.prices .bid).reverse.mapM (b.levelSnapshot .bid)
  let asks ← (b.prices .ask).mapM (b.levelSnapshot .ask)
  some (⟨.complete, 0, .none, 0, 0, 0⟩ :: (bids.flatten ++ asks.flatten))

end L3Book

/-! ## Publications -/

namespace MDOrderBook

/-- `__update`, with what it publishes. -/
def updateL3 (m : MDOrderBook) (resp : OrderResponse) : Except Fault (MDOrderBook × List L3Update) := do
  let m ← m.update resp
  .ok (m, [OrderResponse.l3 resp])

/-- The end of `process_market_update`, with what it publishes. -/
def applyL3 (m : MDOrderBook) (resp : OrderResponse) : Except Fault (MDOrderBook × List L3Update) := do
  let (m, us) ← m.updateL3 resp
  if m.pendingOrder.orderId = 0 ∨ m.crosses m.pendingOrder.side m.pendingOrder.p then .ok (m, us)
  else do
    let (m, us') ← m.updateL3 m.pendingOrder
    .ok ({ m with pendingOrder := { m.pendingOrder with orderId := 0 } }, us ++ us')

/-- `process_market_update` of one book, with what it publishes. -/
def processL3 (m : MDOrderBook) (resp : OrderResponse) :
    Except Fault (MDOrderBook × List L3Update) :=
  if m.pendingOrder.orderId ≠ 0 then
    if checkExec resp.execType execResp then .error .multiplePendingOrders
    else if checkExec resp.execType (execAnn ||| execMask .partialFill) ∧
        resp.orderId = m.pendingOrder.orderId ∧ resp.clientId = m.pendingOrder.clientId then
      if resp.execType = .partialFill then
        .ok ({ m with pendingOrder := { m.pendingOrder with
                q := m.pendingOrder.q - resp.q, qRem := m.pendingOrder.qRem - resp.q } }, [])
      else .ok ({ m with pendingOrder := { m.pendingOrder with orderId := 0 } }, [])
    else m.applyL3 resp
  else if checkExec resp.execType execMe ∧ m.crosses resp.side resp.p then do
    let (m, us) ←
      if resp.execType = .replaced then m.updateL3 { resp with execType := .cancelled, qRem := 0 }
      else .ok (m, [])
    .ok ({ m with pendingOrder := { resp with execType := .new } }, us)
  else m.applyL3 resp

end MDOrderBook

namespace Server

/-- `process_market_update`, with what it publishes and for which symbol. -/
def processL3 (srv : Server) (resp : OrderResponse) :
    Except Fault (Server × List (UInt32 × L3Update)) :=
  if checkExec resp.execType execMd then do
    let (m, us) ← (srv.getOrCreateBook resp.symbolId).processL3 resp
    .ok (srv.insert resp.symbolId m, us.map fun u => (resp.symbolId, u))
  else .ok (srv, [])

/-- A journal, record by record, with what is published. -/
def feedL3 (srv : Server) : List OrderResponse → Except Fault (Server × List (UInt32 × L3Update))
  | [] => .ok (srv, [])
  | r :: rs => do
    let (srv, us) ← srv.processL3 r
    let (srv, us') ← feedL3 srv rs
    .ok (srv, us ++ us')

end Server

/-! ## The server is what it publishes -/

/-- Two lists of updates, one after another. -/
theorem onL3Updates_append (b : L3Book) (us us' : List L3Update) :
    b.onL3Updates (us ++ us') = (b.onL3Updates us).bind fun b => b.onL3Updates us' := by
  unfold L3Book.onL3Updates
  rw [List.foldlM_append]
  rfl

/-- The same book, and what was published since `m` makes that book of `m`'s. -/
def Traced (m m' : MDOrderBook) (res : MDOrderBook × List L3Update) : Prop :=
  res.1 = m' ∧ m.book.onL3Updates res.2 = .ok m'.book

theorem Traced.trans {m m₁ m₂ : MDOrderBook} {us us' : List L3Update} (h : Traced m m₁ (m₁, us))
    (h' : Traced m₁ m₂ (m₂, us')) : Traced m m₂ (m₂, us ++ us') := by
  refine ⟨rfl, ?_⟩
  rw [onL3Updates_append, h.2]
  exact h'.2

section Traced

open Lib

variable (m : MDOrderBook) (r : OrderResponse)

theorem update_traced : Agree (Traced m) (m.update r) (m.updateL3 r) := by
  unfold MDOrderBook.updateL3
  cases h : m.update r with
  | error e => exact .error e
  | ok m' =>
    refine .ok ⟨rfl, ?_⟩
    unfold MDOrderBook.update at h
    cases hb : m.book.update r.execType r.combinedId r.side r.p r.q r.qRem with
    | error e =>
      rw [hb] at h
      cases h
    | ok b =>
      rw [hb] at h
      obtain rfl := Except.ok.inj h
      unfold L3Book.onL3Updates
      rw [List.foldlM_cons]
      show (m.book.update r.execType r.combinedId r.side r.p r.q r.qRem >>= _) = _
      rw [hb]
      rfl

theorem apply_traced : Agree (Traced m) (m.apply r) (m.applyL3 r) := by
  unfold MDOrderBook.apply MDOrderBook.applyL3
  refine (update_traced m r).bind ?_
  rintro m₁ ⟨m₁', us⟩ ⟨he, hm₁⟩
  obtain rfl : m₁' = m₁ := he
  unfold MDOrderBook.enterPending
  dsimp only
  split
  · exact .ok ⟨rfl, hm₁⟩
  · refine (update_traced m₁' m₁'.pendingOrder).bind ?_
    rintro m₂ ⟨m₂', us'⟩ ⟨he', hm₂⟩
    obtain rfl : m₂' = m₂ := he'
    exact .ok ⟨rfl, (Traced.trans ⟨rfl, hm₁⟩ ⟨rfl, hm₂⟩).2⟩

/-- `process_market_update` with what it publishes is `process_market_update`. -/
theorem process_traced : Agree (Traced m) (m.process r) (m.processL3 r) := by
  have hquiet : ∀ m' : MDOrderBook, m'.book = m.book →
      Agree (Traced m) (Except.ok (ε := Fault) m') (.ok (m', [])) := by
    intro m' hb
    refine .ok ⟨rfl, ?_⟩
    rw [hb]
    rfl
  unfold MDOrderBook.process MDOrderBook.processL3
  split
  · split
    · exact .error _
    split
    · split
      · exact hquiet _ rfl
      · exact hquiet _ rfl
    · exact apply_traced m r
  · split
    · have haside : ∀ m₁ res, Traced m m₁ res → Agree (Traced m)
          (Except.ok (ε := Fault) { m₁ with pendingOrder := { r with execType := .new } })
          (.ok ({ res.1 with pendingOrder := { r with execType := .new } }, res.2)) := by
        rintro m₁ ⟨m₁', us⟩ ⟨he, hm₁⟩
        obtain rfl : m₁' = m₁ := he
        exact .ok ⟨rfl, hm₁⟩
      split
      · -- the cancel that is not in the journal is published
        exact (update_traced m _).bind haside
      · exact (hquiet m rfl).bind haside
    · exact apply_traced m r

end Traced

/-- The updates of one symbol. -/
def updatesOf (sid : UInt32) (us : List (UInt32 × L3Update)) : List L3Update :=
  (us.filter fun u => u.1 = sid).map Prod.snd

theorem updatesOf_append (sid : UInt32) (us us' : List (UInt32 × L3Update)) :
    updatesOf sid (us ++ us') = updatesOf sid us ++ updatesOf sid us' := by
  unfold updatesOf
  rw [List.filter_append, List.map_append]

theorem updatesOf_tagged (sid k : UInt32) (us : List L3Update) :
    updatesOf k (us.map fun u => (sid, u)) = if k = sid then us else [] := by
  unfold updatesOf
  split
  · rename_i hk
    rw [List.filter_eq_self.mpr (by simp [hk]), List.map_map]
    exact List.map_id us
  · rename_i hk
    rw [List.filter_eq_nil_iff.mpr (by simpa using fun _ _ e => hk e.symm), List.map_nil]

/-- The same server, and each book is what was published of it. -/
def Server.Traced (srv srv' : Server) (res : Server × List (UInt32 × L3Update)) : Prop :=
  res.1 = srv' ∧ ∀ sid, (srv.getOrCreateBook sid).book.onL3Updates (updatesOf sid res.2) =
    .ok (srv'.getOrCreateBook sid).book

open Lib in
/-- The server traces the book of the record's symbol. -/
theorem processMarketUpdate_traced (srv : Server) (r : OrderResponse) :
    Agree (Server.Traced srv) (srv.processMarketUpdate r) (srv.processL3 r) := by
  unfold Server.processMarketUpdate Server.processL3
  split
  · refine (process_traced _ r).bind ?_
    rintro m' ⟨m'', us⟩ ⟨he, hm'⟩
    obtain rfl : m'' = m' := he
    refine .ok ⟨rfl, fun sid => ?_⟩
    dsimp only at hm' ⊢
    rw [updatesOf_tagged]
    by_cases hs : sid = r.symbolId
    · subst hs
      rw [if_pos rfl]
      refine hm'.trans (congrArg Except.ok ?_)
      exact congrArg MDOrderBook.book (getOrCreateBook_self srv r.symbolId m'').symm
    · rw [if_neg hs]
      exact congrArg Except.ok (congrArg MDOrderBook.book (getOrCreateBook_ne srv hs m'').symm)
  · exact .ok ⟨rfl, fun sid => rfl⟩

open Lib in
/-- A journal with what is published of it is the journal. -/
theorem feed_traced (rs : List OrderResponse) : ∀ srv : Server,
    Agree (Server.Traced srv) (srv.feed rs) (srv.feedL3 rs) := by
  induction rs with
  | nil => exact fun srv => .ok ⟨rfl, fun sid => rfl⟩
  | cons r rs ih =>
    intro srv
    unfold Server.feed
    rw [List.foldlM_cons, Server.feedL3]
    refine (processMarketUpdate_traced srv r).bind ?_
    rintro srv₁ ⟨srv₁', us⟩ ⟨he, h₁⟩
    obtain rfl : srv₁' = srv₁ := he
    refine (ih srv₁').bind_right ?_
    rintro srv₂ ⟨srv₂', us'⟩ ⟨he', h₂⟩
    obtain rfl : srv₂' = srv₂ := he'
    refine ⟨(srv₂', us ++ us'), rfl, rfl, fun sid => ?_⟩
    dsimp only at h₁ h₂ ⊢
    rw [updatesOf_append, onL3Updates_append, h₁ sid]
    exact h₂ sid

end Exchange.MarketData
