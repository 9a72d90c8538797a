import Exchange.Engine.Journal
import Exchange.MarketData.Coherent

/-!
# The server along a record stream

Whatever the requests were, `process_market_update` keeps its book in order on a
record stream (`Tracks.process`). The book is coherent, its entries are among the
open orders with what is left of them, it is never crossed, and an order that
pends is open and not in the book.

The book cannot be crossed because the server looks before it enters a price:
an acknowledgement that crosses is set aside, and a pending order is entered when
it no longer does. No other record makes a level appear.
-/

namespace Exchange.MarketData

/-! ## Crossing -/

namespace L3Book

/-- Every bid is below every ask. -/
def Uncrossed (b : L3Book) : Prop :=
  ∀ p ∈ b.levels .bid, ∀ p' ∈ b.levels .ask, p < p'

/-- An order of side `s` at `p` would cross no level. -/
def Clear (b : L3Book) (s : Slot) (p : Int) : Prop :=
  match s with
  | .bid => ∀ p' ∈ b.levels .ask, p < p'
  | .ask => ∀ p' ∈ b.levels .bid, p' < p

end L3Book

/-- What `crosses` does not find is clear. -/
theorem clear_of_crosses {m : MDOrderBook} {s : Slot} {p : Int} (h : m.crosses s.side p = false) :
    m.book.Clear s p := by
  cases s with
  | bid =>
    intro p' hp'
    have hany : (m.book.best .ask).any (fun q => p = 0 ∨ q ≤ p) = false := h
    cases hbest : m.book.best .ask with
    | none =>
      have hnil := List.min?_eq_none_iff.mp hbest
      rw [AList.mem_keys, hnil] at hp'
      cases hp'
    | some q =>
      rw [hbest, Option.any_some] at hany
      have hq := (List.min?_eq_some_iff.mp hbest).2 p' (AList.mem_keys.mpr hp')
      have hlt := of_decide_eq_false hany
      omega
  | ask =>
    intro p' hp'
    have hany : (m.book.best .bid).any (fun q => p = 0 ∨ p ≤ q) = false := h
    cases hbest : m.book.best .bid with
    | none =>
      have hnil := List.max?_eq_none_iff.mp hbest
      rw [AList.mem_keys, hnil] at hp'
      cases hp'
    | some q =>
      rw [hbest, Option.any_some] at hany
      have hq := (List.max?_eq_some_iff.mp hbest).2 p' (AList.mem_keys.mpr hp')
      have hlt := of_decide_eq_false hany
      omega

/-- A record that enters nothing, or enters where it is clear, crosses nothing. -/
theorem Updated.uncrossed {b b' : L3Book} {type : ExecType} {id : Nat} {s : Slot} {p : Int} {r : Nat}
    (h : Updated b b' type id s p r) (hu : b.Uncrossed)
    (hclear : type = .new ∨ type = .replaced → b.Clear s p) : b'.Uncrossed := by
  intro q hq q' hq'
  rcases h.grows hq with hq | ⟨ht, rfl, rfl⟩
  · rcases h.grows hq' with hq' | ⟨ht, rfl, rfl⟩
    · exact hu q hq q' hq'
    · exact hclear ht q hq
  · rcases h.grows hq' with hq' | ⟨-, hs, -⟩
    · exact hclear ht q' hq'
    · cases hs

/-! ## The book -/

/-- A coherent, uncrossed book of open orders. -/
structure Shown (x : Remaining) (b : L3Book) : Prop where
  coherent : Coherent b
  uncrossed : b.Uncrossed
  rows : ∀ {id y}, b.orders.lookup id = some y → x id = some y.qtyRem

theorem shown_empty (x : Remaining) : Shown x .empty := by
  refine ⟨coherent_empty, fun p hp => ?_, fun h => ?_⟩
  · exact absurd hp (AList.notMem_empty _)
  · cases h

section Shown

variable {x : Remaining} {b : L3Book} {r : OrderResponse}

/-- A row that the book does not have can be anything. -/
theorem Shown.without (h : Shown x b) {id : Nat} (hnone : b.orders.lookup id = none) (v : Option Nat) :
    Shown (Function.update x id v) b := by
  refine ⟨h.coherent, h.uncrossed, fun {k y} hk => ?_⟩
  have hne : k ≠ id := by
    rintro rfl
    rw [hnone] at hk
    cases hk
  rw [Function.update_of_ne hne]
  exact h.rows hk

/-- A record of the stream that is applied to the book. -/
theorem Shown.update (h : Shown x b) (hmd : checkExec r.execType execMd = true) {s : Slot}
    (hs : r.side = s.side) (hfits : x.Fits r)
    (hclear : r.execType = .new ∨ r.execType = .replaced → b.Clear s r.p) :
    ∃ b', b.update r.execType r.combinedId r.side r.p r.q r.qRem = .ok b' ∧ Shown (x.next r) b' ∧
      Noticed b b' ∧ ∀ k, k ≠ r.combinedId → b'.orders.lookup k = b.orders.lookup k := by
  have htype : r.execType ≠ .rejected := by
    intro he
    rw [he] at hmd
    revert hmd
    decide
  have hnew : r.execType = .new → b.orders.lookup r.combinedId = none ∧ 0 < r.qRem := by
    intro he
    unfold Remaining.Fits at hfits
    rw [he] at hfits
    refine ⟨?_, hfits.2⟩
    cases hl : b.orders.lookup r.combinedId with
    | none => rfl
    | some y =>
      rw [h.rows hl] at hfits
      cases hfits.1
  obtain ⟨b', hb', hu⟩ := h.coherent.update (s := s) htype hnew r.p r.q
  rw [hs]
  refine ⟨b', hb', ⟨hu.coherent, hu.uncrossed h.uncrossed hclear, fun {k y} hk => ?_⟩, hu.noticed,
    hu.others⟩
  by_cases hid : k = r.combinedId
  · subst hid
    have hleft := hu.left y hk
    have hpos := hu.coherent.pos hk
    rcases md_cases hmd with ht | ht
    · rw [x.next_left ht, Function.update_self, hleft]
    · -- such a record leaves no entry
      have hzero : r.qRem = 0 := by
        unfold Remaining.Fits at hfits
        rcases ht with ht | ht <;> rw [ht] at hfits <;> exact hfits
      omega
  · rw [x.next_other hid]
    exact h.rows ((hu.others k hid).symm.trans hk)

end Shown

/-! ## The pending order -/

/-- The pending order is open and not in the book. -/
structure Pending (x : Remaining) (m : MDOrderBook) : Prop where
  type : m.pendingOrder.execType = .new
  side : ∃ s : Slot, m.pendingOrder.side = s.side
  absent : m.book.orders.lookup m.pendingOrder.combinedId = none
  row : x m.pendingOrder.combinedId = some m.pendingOrder.qRem

/-- What holds of a server's book between two records. -/
structure Tracks (x : Remaining) (m : MDOrderBook) : Prop where
  shown : Shown x m.book
  pending : m.pendingOrder.orderId ≠ 0 → Pending x m

theorem tracks_init (x : Remaining) : Tracks x .init :=
  ⟨shown_empty x, fun hne => absurd rfl hne⟩

section Process

variable {x : Remaining} {m : MDOrderBook} {r : OrderResponse}

/-- `__update`, once the book's update is known. -/
theorem MDOrderBook.update_ok {b : L3Book}
    (h : m.book.update r.execType r.combinedId r.side r.p r.q r.qRem = .ok b) :
    m.update r = .ok { m with book := b, mdSeqNum := m.mdSeqNum + 1 } := by
  unfold MDOrderBook.update
  rw [h]
  rfl

/-- Looking at the pending order again, while something is left of it. -/
theorem Tracks.enterPending (h : Tracks x m) (hpos : m.pendingOrder.orderId ≠ 0 → 0 < m.pendingOrder.qRem) :
    ∃ m', m.enterPending = .ok m' ∧ Tracks x m' ∧ Noticed m.book m'.book := by
  unfold MDOrderBook.enterPending
  split
  · exact ⟨m, rfl, h, .refl _⟩
  rename_i hcond
  obtain ⟨hlive, hcross⟩ := not_or.mp hcond
  obtain ⟨htype, ⟨s, hs⟩, habsent, hrow⟩ := h.pending hlive
  -- without its own row the pending order is a new one
  have hfits : Remaining.Fits (Function.update x m.pendingOrder.combinedId none) m.pendingOrder := by
    unfold Remaining.Fits
    rw [htype]
    exact ⟨Function.update_self .., hpos hlive⟩
  have hmd : checkExec m.pendingOrder.execType execMd = true := by
    rw [htype]
    decide
  have hclear : m.book.Clear s m.pendingOrder.p := by
    refine clear_of_crosses ?_
    rw [← hs]
    simpa using hcross
  obtain ⟨b', hb', hshown, hnoticed, -⟩ := (h.shown.without habsent none).update hmd hs hfits
    (fun _ => hclear)
  have hback : Remaining.next (Function.update x m.pendingOrder.combinedId none) m.pendingOrder = x := by
    rw [Remaining.next_left _ (Or.inl htype), Function.update_idem, ← hrow, Function.update_eq_self]
  rw [MDOrderBook.update_ok hb']
  exact ⟨_, rfl, ⟨hback ▸ hshown, fun hne => absurd rfl hne⟩, hnoticed⟩

/-- A record that goes through to the book. What pends is another order, and it is
not one that waits for its fill. -/
theorem Tracks.apply (h : Tracks x m) (ha : x.Allows r) (hmd : checkExec r.execType execMd = true)
    (hclear : r.execType = .new ∨ r.execType = .replaced → m.crosses r.side r.p = false)
    (hother : m.pendingOrder.orderId ≠ 0 → r.combinedId ≠ m.pendingOrder.combinedId) :
    ∃ m', m.apply r = .ok m' ∧ Tracks (x.next r) m' ∧ Noticed m.book m'.book := by
  obtain ⟨s, hs⟩ := ha.side hmd
  obtain ⟨b', hb', hshown, hnoticed, hothers⟩ := h.shown.update hmd hs ha.fits
    (fun ht => clear_of_crosses (hs ▸ hclear ht))
  have hrow : m.pendingOrder.orderId ≠ 0 → (x.next r) m.pendingOrder.combinedId =
      x m.pendingOrder.combinedId :=
    fun hlive => x.next_other (hother hlive).symm
  have htracks : Tracks (x.next r) { m with book := b', mdSeqNum := m.mdSeqNum + 1 } := by
    refine ⟨hshown, fun hlive => ?_⟩
    obtain ⟨htype, hside, habsent, hx⟩ := h.pending hlive
    exact ⟨htype, hside, (hothers _ (hother hlive).symm).trans habsent, (hrow hlive).trans hx⟩
  have hpos : m.pendingOrder.orderId ≠ 0 → 0 < m.pendingOrder.qRem := by
    intro hlive
    refine Nat.pos_of_ne_zero (fun hz => hother hlive ?_)
    exact (ha.closing m.pendingOrder.combinedId (by rw [(h.pending hlive).row, hz])).2
  obtain ⟨m', hm', htracks', hnoticed'⟩ := htracks.enterPending hpos
  refine ⟨m', ?_, htracks', hnoticed.trans hnoticed'⟩
  unfold MDOrderBook.apply
  rw [MDOrderBook.update_ok hb']
  exact hm'

/-- A record about the pending order lowers it, or ends it. -/
theorem Tracks.lowered (h : Tracks x m) (ha : x.Allows r) (hlive : m.pendingOrder.orderId ≠ 0)
    (hid : r.combinedId = m.pendingOrder.combinedId) (ht : r.execType = .partialFill) :
    Tracks (x.next r) { m with pendingOrder := { m.pendingOrder with
      q := m.pendingOrder.q - r.q, qRem := m.pendingOrder.qRem - r.q } } := by
  obtain ⟨htype, hside, habsent, hrow⟩ := h.pending hlive
  have hfits := ha.fits
  unfold Remaining.Fits at hfits
  rw [ht, hid, hrow] at hfits
  have hleft : m.pendingOrder.qRem = r.qRem + r.q := Option.some.inj hfits.1
  rw [x.next_left (Or.inr (Or.inr ht)), hid]
  refine ⟨h.shown.without habsent _, fun _ => ⟨htype, hside, habsent, ?_⟩⟩
  have hid' : OrderResponse.combinedId { m.pendingOrder with
      q := m.pendingOrder.q - r.q, qRem := m.pendingOrder.qRem - r.q } =
    m.pendingOrder.combinedId := rfl
  dsimp only
  rw [hid', Function.update_self, hleft]
  congr 1
  omega

/-- An order that is set aside. -/
theorem Tracks.setAside (h : Shown x m.book) (habsent : m.book.orders.lookup r.combinedId = none)
    {s : Slot} (hs : r.side = s.side) (ht : r.execType = .new ∨ r.execType = .replaced) :
    Tracks (x.next r) { m with pendingOrder := { r with execType := .new } } := by
  have hid : OrderResponse.combinedId { r with execType := .new } = r.combinedId := rfl
  rw [x.next_left (ht.imp_right Or.inl)]
  refine ⟨h.without habsent _, fun _ => ⟨rfl, ⟨s, hs⟩, habsent, ?_⟩⟩
  dsimp only
  rw [hid, Function.update_self]

/-- One record of the stream. The only exception is the one the code raises. -/
theorem Tracks.process (h : Tracks x m) (ha : x.Allows r) (hmd : checkExec r.execType execMd = true) :
    m.process r = .error .multiplePendingOrders ∨
      ∃ m', m.process r = .ok m' ∧ Tracks (x.next r) m' ∧ Noticed m.book m'.book := by
  unfold MDOrderBook.process
  split
  · rename_i hlive
    split
    · exact Or.inl rfl
    rename_i hresp
    split
    · rename_i hown
      have hid : r.combinedId = m.pendingOrder.combinedId := by
        unfold OrderResponse.combinedId
        rw [hown.2.1, hown.2.2]
      split
      · rename_i ht
        exact Or.inr ⟨_, rfl, h.lowered ha hlive hid ht, .refl _⟩
      · rename_i ht
        have hend : r.execType = .fill ∨ r.execType = .cancelled := by
          have hmask := hown.1
          revert hmask ht
          cases r.execType <;> decide
        rw [x.next_gone hend, hid]
        exact Or.inr ⟨_, rfl, ⟨h.shown.without (h.pending hlive).absent _, fun hne => absurd rfl hne⟩,
          .refl _⟩
    · rename_i hother
      -- a record that is no acknowledgement is a trade, of another order
      have hresp' : checkExec r.execType execResp = false := by simpa using hresp
      have htrade : checkExec r.execType (execAnn ||| execMask .partialFill) = true ∧
          ¬ (r.execType = .new ∨ r.execType = .replaced) := by
        revert hresp' hmd
        cases r.execType <;> decide
      refine Or.inr (h.apply ha hmd (fun ht => absurd ht htrade.2) (fun _ hid => hother ?_))
      obtain ⟨hc, ho⟩ := combinedOrderId_inj hid
      exact ⟨htrade.1, ho, hc⟩
  · rename_i hidle
    have hidle' : m.pendingOrder.orderId = 0 := not_not.mp hidle
    split
    · rename_i hme
      have ht : r.execType = .new ∨ r.execType = .replaced := by
        have hmask := hme.1
        revert hmask
        cases r.execType <;> decide
      obtain ⟨s, hs⟩ := ha.side hmd
      split
      · -- taken out by a cancel that is not in the journal
        rename_i hre
        have hfake : checkExec (ExecType.cancelled) execMd = true := by decide
        obtain ⟨b', hb', hshown, hnoticed, -⟩ := h.shown.update
          (r := { r with execType := .cancelled, qRem := 0 }) hfake hs rfl
          (fun hc => by rcases hc with hc | hc <;> cases hc)
        have hout := MDOrderBook.update_ok (m := m)
          (r := { r with execType := .cancelled, qRem := 0 }) hb'
        have hnext : x.next { r with execType := .cancelled, qRem := 0 } =
          Function.update x r.combinedId none := rfl
        rw [hnext] at hshown
        have habsent : b'.orders.lookup r.combinedId = none := by
          cases hl : b'.orders.lookup r.combinedId with
          | none => rfl
          | some y =>
            have := hshown.rows hl
            rw [Function.update_self] at this
            cases this
        have hshown' := hshown.without habsent (x r.combinedId)
        rw [Function.update_idem, Function.update_eq_self] at hshown'
        rw [hout]
        exact Or.inr ⟨_, rfl, Tracks.setAside (m := { m with book := b', mdSeqNum := m.mdSeqNum + 1 })
          hshown' habsent hs ht, hnoticed⟩
      · rename_i hre
        have hnew := ht.resolve_right hre
        have hfits := ha.fits
        unfold Remaining.Fits at hfits
        rw [hnew] at hfits
        have habsent : m.book.orders.lookup r.combinedId = none := by
          cases hl : m.book.orders.lookup r.combinedId with
          | none => rfl
          | some y =>
            rw [h.shown.rows hl] at hfits
            cases hfits.1
        exact Or.inr ⟨_, rfl, Tracks.setAside h.shown habsent hs ht, .refl _⟩
    · rename_i hpass
      refine Or.inr (h.apply ha hmd (fun ht => ?_) (fun hlive => absurd hidle' hlive))
      have hme : checkExec r.execType execMe = true := by
        rcases ht with ht | ht <;> rw [ht] <;> decide
      simpa [hme] using hpass

end Process

/-! ## Journals -/

/-- A record the server passes over changes no row. -/
theorem next_skip {r : OrderResponse} (h : checkExec r.execType execMd = false) (x : Remaining) :
    x.next r = x := by
  have hskip : r.execType = .rejected ∨ r.execType = .orderStatus ∨ r.execType = .complete := by
    revert h
    cases r.execType <;> decide
  unfold Remaining.next
  rcases hskip with he | he | he <;> rw [he]

/-- Every book is where the records still to come expect it. -/
def Server.Tracked (srv : Server) (rs : List OrderResponse) : Prop :=
  ∀ sid, ∃ x x', Stream x (MatchingEngine.recordsOf sid rs) x' ∧ Tracks x (srv.getOrCreateBook sid)

/-- A record changes one book, and marks what it changes. -/
theorem Server.Tracked.process {srv srv' : Server} {r : OrderResponse} {rs : List OrderResponse}
    (h : srv.Tracked (r :: rs)) (hrun : srv.processMarketUpdate r = .ok srv') :
    srv'.Tracked rs ∧
      ∀ sid, Noticed (srv.getOrCreateBook sid).book (srv'.getOrCreateBook sid).book := by
  have hother : ∀ {sid}, sid ≠ r.symbolId → MatchingEngine.recordsOf sid (r :: rs) =
      MatchingEngine.recordsOf sid rs :=
    fun hs => List.filter_cons_of_neg (by simpa using fun e => hs e.symm)
  have hself : MatchingEngine.recordsOf r.symbolId (r :: rs) =
      r :: MatchingEngine.recordsOf r.symbolId rs := List.filter_cons_of_pos (by simp)
  unfold Server.processMarketUpdate at hrun
  -- a record that is no market data changes nothing
  by_cases hmd : checkExec r.execType execMd = true
  · rw [if_pos hmd] at hrun
    obtain ⟨x, x', hx, ht⟩ := h r.symbolId
    rw [hself] at hx
    obtain ⟨ha, hrest⟩ : x.Allows r ∧ Stream (x.next r) (MatchingEngine.recordsOf r.symbolId rs) x' := by
      cases hx with
      | cons ha hrest => exact ⟨ha, hrest⟩
    -- the book of its symbol moves on, the others are not touched
    rcases ht.process ha hmd with herr | ⟨m', hm', ht', hn⟩
    · rw [herr] at hrun
      cases hrun
    · rw [hm'] at hrun
      obtain rfl : srv.insert r.symbolId m' = srv' := Except.ok.inj hrun
      refine ⟨fun sid => ?_, fun sid => ?_⟩
      · by_cases hs : sid = r.symbolId
        · subst hs
          exact ⟨_, x', hrest, (getOrCreateBook_self srv r.symbolId m').symm ▸ ht'⟩
        · obtain ⟨y, y', hy, hty⟩ := h sid
          rw [hother hs] at hy
          exact ⟨y, y', hy, (getOrCreateBook_ne srv hs m').symm ▸ hty⟩
      · by_cases hs : sid = r.symbolId
        · subst hs
          exact (getOrCreateBook_self srv r.symbolId m').symm ▸ hn
        · exact (getOrCreateBook_ne srv hs m').symm ▸ .refl _
  · rw [if_neg hmd] at hrun
    obtain rfl := Except.ok.inj hrun
    have hmd' : checkExec r.execType execMd = false := by simpa using hmd
    refine ⟨fun sid => ?_, fun sid => .refl _⟩
    obtain ⟨x, x', hx, ht⟩ := h sid
    by_cases hs : sid = r.symbolId
    · subst hs
      rw [hself] at hx
      cases hx with
      | cons ha hrest => exact ⟨x, x', next_skip hmd' x ▸ hrest, ht⟩
    · rw [hother hs] at hx
      exact ⟨x, x', hx, ht⟩

/-- Part of a journal. -/
theorem Server.Tracked.feed {rest : List OrderResponse} (rs : List OrderResponse) :
    ∀ {srv srv' : Server}, srv.Tracked (rs ++ rest) → srv.feed rs = .ok srv' → srv'.Tracked rest := by
  induction rs with
  | nil =>
    intro srv srv' h hrun
    rw [← Except.ok.inj hrun]
    exact h
  | cons r rs ih =>
    intro srv srv' h hrun
    unfold Server.feed at hrun
    rw [List.foldlM_cons] at hrun
    cases hr : srv.processMarketUpdate r with
    | error e =>
      rw [hr] at hrun
      cases hrun
    | ok srv₁ =>
      rw [hr] at hrun
      exact ih (h.process hr).1 hrun

/-- An engine's journal, before the first record. -/
theorem tracked_journal {K : OrderRequest → Prop} {cfgs : List Config} {e : MatchingEngine}
    {out : List Emission} (h : MatchingEngine.Journal K cfgs e out) :
    Server.Tracked ∅ (out.map (·.resp)) :=
  fun sid => ⟨_, _, h.streams sid, tracks_init _⟩

end Exchange.MarketData
