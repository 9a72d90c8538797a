import Exchange.Book.Taking
import Exchange.Engine.Journal
import Exchange.MarketData.Mirror
import Exchange.MarketData.Opaque
import Exchange.MarketData.Snapshot

/-!
# Restoring the market data server

`MarketDataServer::restore`, with no snapshot to start from: `__update` of every
record, without the filter and the waiting of `process_market_update`. A crossing
order is therefore entered at once, on top of the book it crosses, and its own
trade records take it down again while those of its makers take them out; at the
end of the request it is where the live server enters it (`redo_execute`, whose
invariant is a book that holds the taker among the makers it has not met yet).

A `Rejected` record changes nothing, except that `L3Book::update` looks at the
side first and clears the book when there is none.
-/

namespace Exchange.MarketData

/-- Every record applied to one book. -/
def L3Book.redo (b : L3Book) (rs : List OrderResponse) : Except Fault L3Book :=
  rs.foldlM (fun b r => b.update r.execType r.combinedId r.side r.p r.q r.qRem) b

namespace Server

/-- The loop of `restore`. -/
def restore (srv : Server) (journal : List OrderResponse) : Except Fault Server :=
  journal.foldlM (fun srv r => do
    let m ← (srv.getOrCreateBook r.symbolId).update r
    .ok (srv.insert r.symbolId m)) srv

end Server

/-- Redoing one record, and the rest. -/
theorem redo_cons {b b' : L3Book} {r : OrderResponse}
    (h : b.update r.execType r.combinedId r.side r.p r.q r.qRem = .ok b') (rs : List OrderResponse) :
    b.redo (r :: rs) = b'.redo rs := by
  unfold L3Book.redo
  rw [List.foldlM_cons, h]
  rfl

/-- Records of one symbol go to the book of that symbol. -/
theorem Server.restore_book (sid : UInt32) {b' : L3Book} :
    ∀ {rs : List OrderResponse} (srv : Server), (∀ r ∈ rs, r.symbolId = sid) →
      (srv.getOrCreateBook sid).book.redo rs = .ok b' →
      ∃ srv', srv.restore rs = .ok srv' ∧ (srv'.getOrCreateBook sid).book = b' ∧
        ∀ k, k ≠ sid → srv'.getOrCreateBook k = srv.getOrCreateBook k
  | [], srv, _, h => by
    refine ⟨srv, rfl, ?_, fun _ _ => rfl⟩
    injection h
  | r :: rs, srv, hsym, h => by
    have hr := hsym r List.mem_cons_self
    have hrs : ∀ r ∈ rs, r.symbolId = sid := fun r hr => hsym r (List.mem_cons_of_mem _ hr)
    unfold L3Book.redo at h
    rw [List.foldlM_cons] at h
    obtain ⟨b, hb, h⟩ := Lib.bind_ok h
    unfold Server.restore
    rw [List.foldlM_cons, hr]
    unfold MDOrderBook.update
    rw [hb]
    obtain ⟨srv', hrun, hbook, hothers⟩ := Server.restore_book sid (srv.insert sid
      { srv.getOrCreateBook sid with book := b, mdSeqNum := (srv.getOrCreateBook sid).mdSeqNum + 1 })
      hrs (by rw [getOrCreateBook_self]; exact h)
    exact ⟨srv', hrun, hbook, fun k hk => (hothers k hk).trans (getOrCreateBook_ne srv hk _)⟩

/-- Restoring from two stretches of the journal. -/
theorem Server.restore_append (srv : Server) (rs rs' : List OrderResponse) :
    srv.restore (rs ++ rs') = (srv.restore rs).bind fun srv => srv.restore rs' := by
  unfold Server.restore
  rw [List.foldlM_append]
  rfl

/-! ## One request -/

section Requests

variable {c : Config} {a : Lob} {s : Slot} {idx : Nat} {t : Order}

/-- The taker's record of a trade, on a book the taker was placed in. -/
theorem Holds.takerRecord {b : L3Book} (h : Holds c (a.rested s idx t) b) (htaking : a.Taking t)
    (ht : t.qtyRemaining ≠ 0) {q : Nat} (p : Int) :
    ∃ b', b.update (State.fillType (t.qtyRemaining - q)) t.orderId s.side p q (t.qtyRemaining - q) =
        .ok b' ∧ Holds c (a.rested s idx (t.fill q)) b' := by
  have hside : s.side ≠ .none := by cases s <;> decide
  have hd : (a.rested s idx t).Distinct := htaking.rested_distinct
  have hmem : { t with priceLevel := some idx } ∈ a.rested s idx t s := by
    unfold Lob.rested
    rw [if_neg ht]
    exact Lob.mem_place_update.mpr (Or.inl ⟨rfl, rfl⟩)
  by_cases hz : t.qtyRemaining - q = 0
  · have hout := h.update_gone hd hmem .fill (by decide) hside (p := p) (q := q) (fun he => by cases he)
    have hleft : a.rested s idx (t.fill q) = a := if_pos hz
    have hremove : (a.rested s idx t).remove t.orderId = a := htaking.rested_remove
    rw [hz, State.fillType, if_pos rfl, hleft, ← hremove]
    exact hout
  · have hlow := h.update_lowered hd hmem .partialFill (by decide) hside (p := p) (q := q) hz
      (Nat.sub_le _ _) (fun he => by cases he) t.qtyOriginal
    rw [State.fillType, if_neg hz, ← htaking.rested_resize ht hz]
    exact hlow

/-- The records of an execution, on a book the taker was placed in. -/
theorem redo_execute (gen : Nat → Nat) (htaking : a.Taking t) {b : L3Book}
    (h : Holds c (a.rested s idx t) b) :
    ∃ b', b.redo (a.execute c gen s t idx).recs = .ok b' ∧
      Holds c (a.execute c gen s t idx).lob b' := by
  have hside : s.flip.side ≠ .none := by cases s <;> decide
  refine @Lob.execute_rule c s idx
    (fun a t rs a' => ∀ b, Holds c (a.rested s idx t) b → ∃ b', b.redo rs = .ok b' ∧ Holds c a' b')
    (fun {a t} _ _ b h => ⟨b, rfl, h⟩) (fun {a t y ms rs a'} x htaking hm ht _ _ ih b h => ?_)
    (fun {a t y ms} x htaking hm ht _ hlt b h => ?_) gen _ _ htaking b h
  · -- the taker's record, then the maker is filled and leaves
    have hy : y ∈ a s.flip := hm ▸ List.mem_cons_self
    obtain ⟨b₁, hb₁, h₁⟩ := h.takerRecord htaking ht (q := y.qtyRemaining) (c.plToPrice y.level)
    have hfill := htaking.fill y.qtyRemaining
    have hmaker : y ∈ a.rested s idx (t.fill y.qtyRemaining) s.flip := by
      unfold Lob.rested
      split
      · exact hy
      · exact Lob.mem_place_update.mpr (Or.inr hy)
    obtain ⟨b₂, hb₂, h₂⟩ := h₁.update_gone hfill.rested_distinct hmaker .fill (by decide) hside
      (p := c.plToPrice y.level) (q := y.qtyRemaining) (fun he => by cases he)
    rw [hfill.rested_remove_maker hy] at h₂
    obtain ⟨b', hb', h'⟩ := ih b₂ h₂
    refine ⟨b', ?_, h'⟩
    rw [redo_cons (show _ = Except.ok b₁ by
        rw [c.response_combinedId _ _ _ _ _ _ _ htaking.id]
        exact hb₁),
      redo_cons (show _ = Except.ok b₂ by
        rw [c.response_combinedId _ _ _ _ _ _ _ (htaking.distinct.id hy)]
        exact hb₂)]
    exact hb'
  · -- the taker leaves, and the maker is lowered
    have hy : y ∈ a s.flip := hm ▸ List.mem_cons_self
    obtain ⟨b₁, hb₁, h₁⟩ := h.takerRecord htaking ht (q := t.qtyRemaining) (c.plToPrice y.level)
    have hgone : a.rested s idx (t.fill t.qtyRemaining) = a := if_pos (Nat.sub_self _)
    rw [Nat.sub_self] at hb₁
    rw [hgone] at h₁
    obtain ⟨b₂, hb₂, h₂⟩ := h₁.update_lowered htaking.distinct hy .partialFill (by decide) hside
      (p := c.plToPrice y.level) (q := t.qtyRemaining) (r := y.qtyRemaining - t.qtyRemaining)
      (by omega) (Nat.sub_le _ _) (fun he => by cases he) y.qtyOriginal
    refine ⟨b₂, ?_, h₂⟩
    rw [redo_cons (show _ = Except.ok b₁ by
        rw [c.response_combinedId _ _ _ _ _ _ _ htaking.id]
        exact hb₁),
      redo_cons (show _ = Except.ok b₂ by
        rw [c.response_combinedId _ _ _ _ _ _ _ (htaking.distinct.id hy)]
        exact hb₂)]
    rfl

variable {req : OrderRequest} {gen : Nat → Nat} {b : L3Book}

/-- Whatever a request does, its records do to the book. -/
theorem redone (hok : a.Ok c) (hh : Holds c a b) (hwf : WellFormed c a req) (hK : Followable req)
    {ans : Answer} (hout : Lob.Outcome c gen a req ans) :
    ∃ b', b.redo ans.recs = .ok b' ∧ Holds c ans.lob b' := by
  obtain ⟨s, hs⟩ := hwf.side
  have hside : req.side ≠ .none := by
    rw [hs]
    cases s <;> decide
  -- what a cancel or modify names is an order of that side
  cases hout with
  | rejected qRem code =>
    refine ⟨b, ?_, hh⟩
    unfold Lob.reject
    exact redo_cons (update_rejected hside ..) []
  -- a new order rests with all it has, then its trades take from it
  | entered hact hnone _ hp hq _ =>
    have hlimit : req.type = .limit := (hwf.type hact).resolve_right (hK.2 hact)
    obtain ⟨i, -, hpi, hindex⟩ := hwf.limit_index hlimit hp
    obtain ⟨b₁, hb₁, h₁⟩ := hh.newRecord hok hs hpi hnone
    have hrested : Holds c (a.rested s i (State.createOrder req)) b₁ := by
      unfold Lob.rested
      rw [if_neg (show (State.createOrder req).qtyRemaining ≠ 0 from Nat.one_le_iff_ne_zero.mp hq)]
      exact h₁
    rw [OrderRequest.slot_of_side hs, hindex, Answer.after_recs, Answer.after_lob, redo_cons hb₁]
    exact redo_execute gen (.of_new hok hnone) hrested
  | cancelled hact hfind =>
    obtain ⟨ho, -, hs⟩ := hwf.of_find (Or.inl hact) hfind
    obtain ⟨b₁, hb₁, h₁⟩ := hh.cancelRecord hok ho hs
    exact ⟨b₁, redo_cons hb₁ [], h₁⟩
  -- the record says what is so already
  | @kept s o hact hfind _ _ _ hlevel hqty =>
    obtain ⟨ho, hid, hs⟩ := hwf.of_find (Or.inr hact) hfind
    have hpos := (hok.sane ho).pos
    have hle := (hok.sane ho).le
    obtain ⟨b₁, hb₁, h₁⟩ := hh.loweredRecord hok ho hid hs o.qtyOriginal le_rfl
      (by unfold Order.executed; omega)
    have hleft : o.qtyOriginal - o.executed = o.qtyRemaining := by
      unfold Order.executed
      omega
    rw [hleft, (Lob.Distinct.of_ok hok).resize_self ho] at h₁
    rw [← hlevel, hqty]
    exact ⟨b₁, redo_cons hb₁ [], h₁⟩
  | finished hact hfind _ _ hexec _ =>
    obtain ⟨ho, hid, hs⟩ := hwf.of_find (Or.inr hact) hfind
    obtain ⟨b₁, hb₁, hfill, h₁⟩ := hh.finishedRecords hok ho hid hs (req.target c _)
    rw [hexec]
    exact ⟨b₁, (redo_cons hb₁ _).trans (redo_cons hfill []), h₁⟩
  -- the order leaves its queue, joins the new one, and trades
  | @requeued s o hact hfind _ _ hexec hmove =>
    obtain ⟨ho, hid, hs⟩ := hwf.of_find (Or.inr hact) hfind
    obtain ⟨b₁, hb₁, h₁⟩ := hh.requeuedRecord hok ho hid hs hexec hmove
    have hrested : Holds c ((a.remove o.orderId).rested s (req.target c o) (o.resized (req.newQty o)))
        b₁ := by
      unfold Lob.rested
      rw [if_neg (show (o.resized (req.newQty o)).qtyRemaining ≠ 0 by
        show req.newQty o - o.executed ≠ 0
        omega)]
      exact h₁
    rw [Answer.after_recs, Answer.after_lob, redo_cons hb₁]
    exact redo_execute gen (.of_replaced hok ho _) hrested
  | shrunk hact hfind _ _ hexec hlevel hqty =>
    obtain ⟨ho, hid, hs⟩ := hwf.of_find (Or.inr hact) hfind
    obtain ⟨b₁, hb₁, h₁⟩ := hh.loweredRecord hok ho hid hs _ hqty.le hexec
    rw [← hlevel]
    exact ⟨b₁, redo_cons hb₁ [], h₁⟩

/-- Without orders at the price 0, an execution at another price leaves none there. -/
theorem Priced.execute (gen : Nat → Nat) (htaking : a.Taking t) (h : Priced c a)
    (hidx : c.plToPrice idx ≠ 0) : Priced c (a.execute c gen s t idx).lob := by
  refine @Lob.execute_rule c s idx
    (fun a _ _ a' => Priced c a → Priced c a') (fun {a t} _ _ h => ?_)
    (fun _ _ _ _ _ _ ih h => ?_) (fun _ _ _ _ _ _ h => ?_) gen _ _ htaking h
  · unfold Lob.rested
    split
    · exact h
    · intro s' x hx
      rcases Lob.mem_place_update.mp hx with ⟨-, rfl⟩ | hx
      · exact hidx
      · exact h s' x hx
  · exact ih (fun s' x hx => h s' x (Lob.mem_remove.mp hx).1)
  · intro s' x hx
    obtain ⟨m, hm, -, hlevel, -⟩ := Lob.mem_resize hx
    rw [← hlevel]
    exact h s' m hm

/-- No request puts an order at the price 0. -/
theorem Priced.outcome (h : Priced c a) (hok : a.Ok c) (hwf : WellFormed c a req)
    (hmarket : req.action = .new → req.type ≠ .market) {ans : Answer}
    (hout : Lob.Outcome c gen a req ans) : Priced c ans.lob := by
  have hless : ∀ id, Priced c (a.remove id) := fun id s' x hx => h s' x (Lob.mem_remove.mp hx).1
  cases hout with
  | rejected qRem code => exact h
  | entered hact hnone _ hp _ _ =>
    have hlimit : req.type = .limit := (hwf.type hact).resolve_right (hmarket hact)
    obtain ⟨i, -, hpi, hindex⟩ := hwf.limit_index hlimit hp
    rw [hindex]
    refine h.execute gen (.of_new hok hnone) ?_
    rw [← hpi]
    exact fun hz => hp ⟨hz.le, hlimit⟩
  | cancelled _ _ => exact hless _
  | kept _ _ _ _ _ _ _ => exact h
  | finished _ _ _ _ _ _ => exact hless _
  | requeued _ hfind _ _ _ _ =>
    obtain ⟨ho, -⟩ := Lob.mem_of_find hfind
    exact (hless _).execute gen (.of_replaced hok ho _) (h.target hwf ho)
  | shrunk _ _ _ _ _ _ _ =>
    intro s' x hx
    obtain ⟨m, hm, -, hlevel, -⟩ := Lob.mem_resize hx
    rw [← hlevel]
    exact h s' m hm

end Requests

/-! ## Journals -/

/-- Two books that hold the same orders show the same. -/
theorem Holds.same {c : Config} {a : Lob} {b b' : L3Book} (h : Holds c a b) (h' : Holds c a b') :
    SameL3 b b' := by
  refine ⟨fun id => ?_, fun s p => (h'.views s p).trans (h.views s p).symm⟩
  cases hx : b.orders.lookup id with
  | none =>
    cases hx' : b'.orders.lookup id with
    | none => rfl
    | some x' =>
      obtain ⟨s, o, ho, rfl⟩ := h'.resting hx'
      obtain ⟨x, l, hl⟩ := h.listed ho
      rw [hl.entry] at hx
      cases hx
  | some x =>
    obtain ⟨s, o, ho, rfl⟩ := h.resting hx
    obtain ⟨y, l, hl⟩ := h.listed ho
    obtain ⟨y', l', hl'⟩ := h'.listed ho
    obtain rfl := Option.some.inj (hl.entry.symm.trans hx)
    rw [hl'.entry, Option.map_some, Option.map_some, hl.side, hl.price, hl.qty, hl'.side, hl'.price,
      hl'.qty]

/-- The engines requests can lead to when a refused request without a side always
finds its book empty, with the records sent. -/
inductive Quiet (cfgs : List Config) : MatchingEngine → List Emission → Prop
  | create (gen : Nat → Nat) : Quiet cfgs (MatchingEngine.create cfgs gen) []
  | accepted {e e' : MatchingEngine} {out new : List Emission} {req : OrderRequest}
      (h : Quiet cfgs e out) (hK : Followable req) (hreq : e.Accepts req)
      (hrun : e.pollServer req = some (e', new)) : Quiet cfgs e' (out ++ new)
  | refused {e e' : MatchingEngine} {out new : List Emission} {req : OrderRequest}
      (h : Quiet cfgs e out) (hrun : e.pollServer req = some (e', new))
      (hnew : MatchingEngine.Refused new)
      (hside : req.side = .none → ∀ b, e.books.lookup req.symbolId = some b → ∀ s, b.lob s = []) :
      Quiet cfgs e' (out ++ new)

/-- What a quiet run writes is a journal. -/
theorem Quiet.journal {cfgs : List Config} {e : MatchingEngine} {out : List Emission}
    (h : Quiet cfgs e out) : MatchingEngine.Journal Followable cfgs e out := by
  induction h with
  | create gen => exact .create gen
  | accepted _ hK hreq hrun ih => exact ih.accepted hK hreq hrun
  | refused _ hrun hnew _ ih => exact ih.refused hrun hnew

/-- At a request boundary: both servers hold the engine's orders, and neither has a
book of a symbol the engine does not serve. -/
structure Alike (live restored : Server) (e : MatchingEngine) : Prop where
  follows : live.Follows e
  holds : ∀ sid b, e.books.lookup sid = some b → Holds b.cfg b.lob (restored.getOrCreateBook sid).book
  priced : ∀ sid b, e.books.lookup sid = some b → Priced b.cfg b.lob
  unserved : ∀ sid, e.books.lookup sid = none →
    live.getOrCreateBook sid = .init ∧ restored.getOrCreateBook sid = .init

section Steps

variable {live restored : Server} {cfgs : List Config} {e e' : MatchingEngine} {new : List Emission}
  {req : OrderRequest}

theorem Alike.accepted (h : Alike live restored e) (hsound : e.Sound cfgs) (hK : Followable req)
    (hreq : e.Accepts req) (hrun : e.pollServer req = some (e', new)) :
    ∃ live' restored', live.feed (new.map (·.resp)) = .ok live' ∧
      restored.restore (new.map (·.resp)) = .ok restored' ∧ Alike live' restored' e' := by
  obtain ⟨live', hlive, hfollows, hkeep⟩ := h.follows.served hsound (h.priced _) hK hreq hrun
  refine ⟨live', ?_⟩
  cases hsound.stepped hreq hrun with
  | unserved _ =>
    exact ⟨restored, hlive, rfl, hfollows, h.holds, h.priced,
      fun sid hs => ⟨(hkeep sid hs).trans (h.unserved sid hs).1, (h.unserved sid hs).2⟩⟩
  | @served b b' gen new hsym hcfg hlob hnew =>
    have hok := hsound.ok hsym
    have hout := Lob.step_outcome b.cfg e.gen b.lob req
    obtain ⟨l, hl, hh⟩ := redone hok (h.holds _ b hsym) (hreq b hsym) hK hout
    have hsymbol : ∀ r ∈ (b.lob.step b.cfg e.gen req).recs, r.symbolId = req.symbolId :=
      fun r hr => (hout.symbol r hr).trans (hsound.cfg hsym).2
    obtain ⟨restored', hrestore, hbook, hothers⟩ := Server.restore_book _ restored hsymbol hl
    refine ⟨restored', hlive, hnew.symm ▸ hrestore, hfollows, fun sid x => ?_, fun sid x => ?_,
      fun sid hnone => ?_⟩
    · refine MatchingEngine.lookup_insert_rec
        (P := fun sid x => Holds x.cfg x.lob (restored'.getOrCreateBook sid).book) ?_
        (fun sid x hs hx => ?_)
      · rw [hbook, hcfg, hlob]
        exact hh
      · rw [hothers sid hs]
        exact h.holds sid x hx
    · refine MatchingEngine.lookup_insert_rec (P := fun _ x => Priced x.cfg x.lob) ?_
        (fun sid x _ hx => h.priced sid x hx)
      rw [hcfg, hlob]
      exact (h.priced _ b hsym).outcome hok (hreq b hsym) hK.2 hout
    · have hs : sid ≠ req.symbolId := by
        rintro rfl
        rw [AList.lookup_insert] at hnone
        cases hnone
      rw [AList.lookup_insert_ne hs] at hnone
      rw [hothers sid hs, hkeep sid hnone]
      exact h.unserved sid hnone

/-- The record of a refused request on a restored book. -/
theorem Holds.rejected {c : Config} {a : Lob} {b : L3Book} (h : Holds c a b)
    (hside : req.side = .none → ∀ s, a s = []) (qRem : Nat) (code : RejectCode) :
    ∃ b', b.redo [c.response .rejected req.combinedId req.execId req.side req.p req.q qRem code] =
      .ok b' ∧ Holds c a b' := by
  by_cases hs : req.side = .none
  · -- the book is cleared, and there was nothing in it
    have hclear : b.update .rejected (c.response .rejected req.combinedId req.execId req.side req.p req.q
        qRem code).combinedId req.side req.p req.q qRem =
        .ok { b with orders := ∅, levels := fun _ => ∅ } := if_pos hs
    refine ⟨_, redo_cons hclear [], ?_⟩
    have hempty : a = fun _ => [] := funext (hside hs)
    rw [hempty]
    refine ⟨fun s p => rfl, fun ho => ?_, fun hx => ?_, fun hl => ?_⟩
    · cases ho
    · cases hx
    · cases hl
  · exact ⟨b, redo_cons (update_rejected hs ..) [], h⟩

/-- The live server passes it over. -/
theorem Server.feed_rejected (srv : Server) {r : OrderResponse} (h : r.execType = .rejected) :
    srv.feed [r] = .ok srv := by
  unfold Server.feed Server.processMarketUpdate
  rw [List.foldlM_cons, h, if_neg (by decide)]
  rfl

theorem Alike.refused (h : Alike live restored e) (hsound : e.Sound cfgs)
    (hrun : e.pollServer req = some (e', new)) (hnew : MatchingEngine.Refused new)
    (hside : req.side = .none → ∀ b, e.books.lookup req.symbolId = some b → ∀ s, b.lob s = []) :
    ∃ live' restored', live.feed (new.map (·.resp)) = .ok live' ∧
      restored.restore (new.map (·.resp)) = .ok restored' ∧ Alike live' restored' e' := by
  have hturned := hsound.turned hrun hnew
  have hlookup := hturned.lookup
  cases hturned with
  | unserved _ => exact ⟨live, restored, rfl, rfl, h⟩
  | @served b new qRem code hsym hnew =>
    obtain ⟨l, hl, hh⟩ := (h.holds _ b hsym).rejected (fun hs => hside hs b hsym) qRem code
    obtain ⟨restored', hrestore, hbook, hothers⟩ := Server.restore_book req.symbolId restored
      (fun r hr => by rw [List.mem_singleton.mp hr]; exact (hsound.cfg hsym).2) hl
    rw [hnew, live.feed_rejected rfl]
    refine ⟨live, restored', rfl, hrestore, fun sid x hx => ?_, fun sid x hx => ?_, fun sid x hx => ?_,
      fun sid hnone => ?_⟩
    · exact h.follows sid x ((hlookup sid).symm.trans hx)
    · have hx' := (hlookup sid).symm.trans hx
      by_cases hs : sid = req.symbolId
      · subst hs
        obtain rfl := Option.some.inj (hsym.symm.trans hx')
        rw [hbook]
        exact hh
      · rw [hothers sid hs]
        exact h.holds sid x hx'
    · exact h.priced sid x ((hlookup sid).symm.trans hx)
    · have hnone' := (hlookup sid).symm.trans hnone
      have hs : sid ≠ req.symbolId := by
        rintro rfl
        rw [hsym] at hnone'
        cases hnone'
      rw [hothers sid hs]
      exact h.unserved sid hnone'

end Steps

theorem Quiet.alike {cfgs : List Config} {e : MatchingEngine} {out : List Emission}
    (h : Quiet cfgs e out) : ∃ live restored, Server.feed ∅ (out.map (·.resp)) = .ok live ∧
      Server.restore ∅ (out.map (·.resp)) = .ok restored ∧ Alike live restored e := by
  induction h with
  | create gen =>
    refine ⟨∅, ∅, rfl, rfl, follows_create cfgs gen, fun sid b hb => (follows_create cfgs gen sid b hb).2,
      fun sid b hb => ?_, fun _ _ => ⟨rfl, rfl⟩⟩
    obtain ⟨c, -, -, rfl⟩ := MatchingEngine.create_lookup hb
    rw [fresh_lob]
    exact fun _ _ ho => by cases ho
  | accepted hq hK hreq hrun ih =>
    obtain ⟨live, restored, hlive, hrestore, h⟩ := ih
    rw [List.map_append, Server.feed_append, Server.restore_append, hlive, hrestore]
    exact h.accepted hq.journal.sound hK hreq hrun
  | refused hq hrun hnew hside ih =>
    obtain ⟨live, restored, hlive, hrestore, h⟩ := ih
    rw [List.map_append, Server.feed_append, Server.restore_append, hlive, hrestore]
    exact h.refused hq.journal.sound hrun hnew hside

/-- Restored from its journal the server has the books it had live. -/
theorem restore_equals_live {cfgs : List Config} {e : MatchingEngine} {out : List Emission}
    (h : Quiet cfgs e out) : ∃ live restored, Server.feed ∅ (out.map (·.resp)) = .ok live ∧
      Server.restore ∅ (out.map (·.resp)) = .ok restored ∧
      ∀ sid, SameL3 (live.getOrCreateBook sid).book (restored.getOrCreateBook sid).book := by
  obtain ⟨live, restored, hlive, hrestore, halike⟩ := h.alike
  refine ⟨live, restored, hlive, hrestore, fun sid => ?_⟩
  cases hb : e.books.lookup sid with
  | none =>
    obtain ⟨h₁, h₂⟩ := halike.unserved sid hb
    rw [h₁, h₂]
    exact ⟨fun _ => rfl, fun _ _ => rfl⟩
  | some b => exact (halike.follows sid b hb).2.same (halike.holds sid b hb)

/-- A run without refused requests is quiet. -/
theorem Quiet.of_run {cfgs : List Config} {e : MatchingEngine} {out : List Emission}
    (h : MatchingEngine.Run Followable cfgs e out) : Quiet cfgs e out := by
  induction h with
  | create gen => exact .create gen
  | step _ hK hreq hrun ih => exact ih.accepted hK hreq hrun

/-- A cancel without a side of an order that does not exist. -/
def sidelessRequest (symbolId : UInt32) : OrderRequest :=
  { sampleRequest .cancel 9 .none 20 5 with symbolId := symbolId }

/-- The engine refuses the cancel without a side. -/
def refusesSideless (e : MatchingEngine) (symbolId : UInt32) : Bool :=
  (e.pollServer (sidelessRequest symbolId)).any fun r =>
    r.2.length = 1 ∧ r.2.all fun x => x.resp.execType = .rejected

/-- The check says what a request without a side is answered. -/
theorem refusesSideless_eq {e : MatchingEngine} {symbolId : UInt32}
    (h : refusesSideless e symbolId = true) :
    ∃ e' new, e.pollServer (sidelessRequest symbolId) = some (e', new) ∧ new.length = 1 ∧
      MatchingEngine.Refused new := by
  obtain ⟨⟨e', new⟩, hrun, hnew⟩ := (Option.any_eq_true ..).mp h
  obtain ⟨hlen, hall⟩ := of_decide_eq_true hnew
  exact ⟨e', new, hrun, hlen, fun x hx => of_decide_eq_true (List.all_eq_true.mp hall x hx)⟩

/-- A bid that takes an offer and rests, and a cancel without a side for the other,
empty, book. -/
theorem sample_restore : ∃ e out, Quiet [sampleConfig, secondConfig] e out ∧ out.length = 5 ∧
    ∃ live restored, Server.feed ∅ (out.map (·.resp)) = .ok live ∧
      Server.restore ∅ (out.map (·.resp)) = .ok restored ∧
      ∀ sid, SameL3 (live.getOrCreateBook sid).book (restored.getOrCreateBook sid).book := by
  obtain ⟨e, out, hrun, hP⟩ := MatchingEngine.Run.of_serve Followable [sampleConfig, secondConfig] id
    crossingRequests (by unfold Followable; decide)
    (fun r => r.2.length = 4 ∧ refusesSideless r.1 2 ∧
      (r.1.books.lookup 2).all fun b => b.lob .bid = [] ∧ b.lob .ask = []) (by decide +kernel)
  obtain ⟨hlen, hrefuse, hempty⟩ := of_decide_eq_true hP
  obtain ⟨e', new, hpoll, hone, hnew⟩ := refusesSideless_eq hrefuse
  have hquiet := (Quiet.of_run hrun).refused hpoll hnew (fun _ b hb s => by
    rw [show e.books.lookup 2 = some b from hb] at hempty
    obtain ⟨hbid, hask⟩ := of_decide_eq_true hempty
    cases s with
    | bid => exact hbid
    | ask => exact hask)
  exact ⟨e', out ++ new, hquiet, by rw [List.length_append, hlen, hone], restore_equals_live hquiet⟩

/-- A cancel without a side, refused while an offer rests, clears the restored book. -/
theorem refusal_clears_restored : ∃ e out live restored,
    MatchingEngine.Journal Followable [sampleConfig] e out ∧
    Server.feed ∅ (out.map (·.resp)) = .ok live ∧ Server.restore ∅ (out.map (·.resp)) = .ok restored ∧
    ¬ SameL3 (live.getOrCreateBook 1).book (restored.getOrCreateBook 1).book := by
  obtain ⟨e, out, hrun, hP⟩ := MatchingEngine.Run.of_serve Followable [sampleConfig] id
    [sampleRequest .new 1 .sell 20 5] (by unfold Followable; decide)
    (fun r => refusesSideless r.1 1 ∧ (r.1.pollServer (sidelessRequest 1)).any fun r' =>
      idsAfter (Server.feed ∅ ((r.2 ++ r'.2).map fun x => x.resp)) = some [4294967297] ∧
        idsAfter (Server.restore ∅ ((r.2 ++ r'.2).map fun x => x.resp)) = some []) (by decide +kernel)
  obtain ⟨hrefuse, hids⟩ := of_decide_eq_true hP
  obtain ⟨e', new, hpoll, -, hnew⟩ := refusesSideless_eq hrefuse
  rw [hpoll] at hids
  obtain ⟨hlive, hrestored⟩ := of_decide_eq_true hids
  obtain ⟨live, hlive, hkeys⟩ := idsAfter_eq hlive
  obtain ⟨restored, hrestored, hnone⟩ := idsAfter_eq hrestored
  refine ⟨e', out ++ new, live, restored, hrun.journal.refused hpoll hnew, hlive, hrestored,
    fun hsame => ?_⟩
  have hgone := hsame.orders 4294967297
  rw [noOrders_of_keys hnone 4294967297, Option.map_none, eq_comm, Option.map_eq_none_iff,
    AList.lookup_eq_none, AList.mem_keys, hkeys] at hgone
  exact hgone (List.mem_singleton.mpr rfl)

end Exchange.MarketData
