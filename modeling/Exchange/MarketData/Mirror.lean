import Mathlib.Algebra.BigOperators.Ring.Finset
import Exchange.MarketData.Update
import Exchange.Engine.Runs

/-!
# The market data server mirrors the engine

Fed with the engine's journal record by record, the server never throws, and at
the end of each request its books hold the engine's orders and nothing pends.

The server withholds a crossing order: the acknowledgement sets it aside, each
of its own trade records lowers it, each maker's record is applied, and as soon
as it no longer crosses it is entered. `withheld_execute` follows this through
a sweep. What a waiting order has left is what the sweep has left, so that it
is entered exactly when the engine places a remainder.
-/

namespace Exchange.MarketData

namespace MDOrderBook

/-- Nothing pends. -/
def Idle (m : MDOrderBook) : Prop := m.pendingOrder.orderId = 0

/-- An order of the engine pends: `r` of it is left. -/
structure Waiting (m : MDOrderBook) (c : Config) (s : Slot) (id idx r : Nat) : Prop where
  live : m.pendingOrder.orderId ≠ 0
  type : m.pendingOrder.execType = .new
  orderId : m.pendingOrder.orderId = orderIdOf id
  clientId : m.pendingOrder.clientId = clientIdOf id
  side : m.pendingOrder.side = s.side
  price : m.pendingOrder.p = c.plToPrice idx
  qty : m.pendingOrder.qRem = r

/-- What pends while `r` of a taker is left: nothing, when that is nothing. -/
def Pends (m : MDOrderBook) (c : Config) (s : Slot) (id idx r : Nat) : Prop :=
  (r = 0 ∧ m.Idle) ∨ (r ≠ 0 ∧ m.Waiting c s id idx r)

/-- `process_market_update` of one book: its records, the others being passed over. -/
def digest (m : MDOrderBook) (rs : List OrderResponse) : Except Fault MDOrderBook :=
  rs.foldlM (fun m r => if checkExec r.execType execMd then m.process r else .ok m) m

theorem digest_cons {m m₁ : MDOrderBook} {r : OrderResponse} (hmd : checkExec r.execType execMd = true)
    (h : m.process r = .ok m₁) (rs : List OrderResponse) : m.digest (r :: rs) = m₁.digest rs := by
  unfold digest
  rw [List.foldlM_cons, if_pos hmd, h]
  rfl

theorem digest_skip {r : OrderResponse} (hmd : checkExec r.execType execMd = false)
    (m : MDOrderBook) (rs : List OrderResponse) : m.digest (r :: rs) = m.digest rs := by
  unfold digest
  rw [List.foldlM_cons, hmd]
  rfl

/-- A record that is applied: what pends is looked at again before the next one. -/
theorem digest_apply {m m₁ : MDOrderBook} {r : OrderResponse}
    (hmd : checkExec r.execType execMd = true) (hproc : m.process r = m.apply r)
    (h : m.update r = .ok m₁) (rs : List OrderResponse) :
    m.digest (r :: rs) = m₁.enterPending.bind fun m => m.digest rs := by
  unfold digest
  rw [List.foldlM_cons, if_pos hmd, hproc]
  unfold apply
  rw [h]
  rfl

/-- With nothing pending nothing is entered. -/
theorem enterPending_idle {m : MDOrderBook} (h : m.Idle) : m.enterPending = .ok m :=
  if_pos (Or.inl h)

/-- A record about the book, while nothing pends or it is about another order. -/
theorem process_eq {m : MDOrderBook} {r : OrderResponse} (hresp : checkExec r.execType execResp = false)
    (hother : m.Idle ∨ ¬ (r.orderId = m.pendingOrder.orderId ∧ r.clientId = m.pendingOrder.clientId)) :
    m.process r = m.apply r := by
  have hme : checkExec r.execType execMe = false := by
    revert hresp
    cases r.execType <;> decide
  unfold process
  split
  · rename_i hlive
    rw [if_neg (by simp [hresp]), if_neg]
    rintro ⟨-, hids⟩
    exact hother.elim hlive (fun hne => hne hids)
  · rw [if_neg (by simp [hme])]

/-- A record applied to the book, with nothing pending before or after. -/
theorem apply_idle {m : MDOrderBook} (h : m.Idle) {r : OrderResponse} {b : L3Book}
    (hb : m.book.update r.execType r.combinedId r.side r.p r.q r.qRem = .ok b) :
    m.apply r = .ok { m with book := b, mdSeqNum := m.mdSeqNum + 1 } := by
  unfold apply update
  rw [hb]
  exact enterPending_idle h

/-- An acknowledgement that does not cross, or a record that enters nothing. -/
theorem process_through {m : MDOrderBook} (h : m.Idle) {r : OrderResponse}
    (hx : checkExec r.execType execMe = false ∨ m.crosses r.side r.p = false) :
    m.process r = m.apply r := by
  unfold process
  rw [if_neg (fun hne => hne h), if_neg]
  rintro ⟨hme, hcross⟩
  rcases hx with hx | hx
  · rw [hx] at hme
    cases hme
  · rw [hx] at hcross
    cases hcross

/-- A new order that crosses is set aside. -/
theorem process_new {m : MDOrderBook} (h : m.Idle) {r : OrderResponse} (htype : r.execType = .new)
    (hx : m.crosses r.side r.p = true) : m.process r = .ok { m with pendingOrder := r } := by
  have hsame : { r with execType := ExecType.new } = r := by rw [← htype]
  unfold process
  rw [if_neg (fun hne => hne h), htype, if_pos ⟨by decide, hx⟩, if_neg (by decide), hsame]
  rfl

/-- A replacement that crosses is taken out and set aside. -/
theorem process_replaced {m : MDOrderBook} (h : m.Idle) {r : OrderResponse} {b : L3Book}
    (htype : r.execType = .replaced) (hx : m.crosses r.side r.p = true)
    (hb : m.book.update .cancelled r.combinedId r.side r.p r.q 0 = .ok b) :
    m.process r = .ok { m with
      book := b
      mdSeqNum := m.mdSeqNum + 1
      pendingOrder := { r with execType := .new } } := by
  have hfake : m.update { r with execType := .cancelled, qRem := 0 } =
      .ok { m with book := b, mdSeqNum := m.mdSeqNum + 1 } := by
    unfold MDOrderBook.update
    show (m.book.update .cancelled r.combinedId r.side r.p r.q 0 >>= _) = _
    rw [hb]
    rfl
  unfold process
  rw [if_neg (fun hne => hne h), htype, if_pos ⟨by decide, hx⟩, if_pos rfl, hfake]
  rfl

/-- A record that goes through to the book while nothing pends. -/
theorem digest_through {m : MDOrderBook} (h : m.Idle) {r : OrderResponse} {b : L3Book}
    (hmd : checkExec r.execType execMd = true)
    (hx : checkExec r.execType execMe = false ∨ m.crosses r.side r.p = false)
    (hb : m.book.update r.execType r.combinedId r.side r.p r.q r.qRem = .ok b)
    (rs : List OrderResponse) :
    m.digest (r :: rs) = digest { m with book := b, mdSeqNum := m.mdSeqNum + 1 } rs :=
  digest_cons hmd ((process_through h hx).trans (apply_idle h hb)) rs

end MDOrderBook

open MDOrderBook

theorem new_md : checkExec .new execMd = true := by decide

theorem rejected_md : checkExec .rejected execMd = false := by decide

theorem replaced_md : checkExec .replaced execMd = true := by decide

/-- A fill is for market data, whole or partial. -/
theorem fillType_md (r : Nat) : checkExec (State.fillType r) execMd = true := by
  rcases fillType_trade r with he | he <;> rw [he] <;> decide

/-- A trade record of the order that pends lowers it, or ends its wait. -/
theorem process_own {m : MDOrderBook} {r : OrderResponse} {left : Nat} (hlive : m.pendingOrder.orderId ≠ 0)
    (htype : r.execType = State.fillType left)
    (hids : r.orderId = m.pendingOrder.orderId ∧ r.clientId = m.pendingOrder.clientId) :
    m.process r = .ok { m with
      pendingOrder :=
        if left = 0 then { m.pendingOrder with orderId := 0 }
        else { m.pendingOrder with
          q := m.pendingOrder.q - r.q
          qRem := m.pendingOrder.qRem - r.q } } := by
  unfold process
  rw [if_pos hlive, htype]
  by_cases hz : left = 0
  · have hfill : State.fillType left = .fill := if_pos hz
    rw [hfill, if_neg (by decide), if_pos ⟨by decide, hids⟩, if_neg (by decide), if_pos hz]
  · have hpart : State.fillType left = .partialFill := if_neg hz
    rw [hpart, if_neg (by decide), if_pos ⟨by decide, hids⟩, if_pos rfl, if_neg hz]

/-- The trade record of another order is applied. -/
theorem digest_other {m : MDOrderBook} {id : Nat} (hid : id < 2 ^ 64)
    (hother : m.Idle ∨ ¬ (orderIdOf id = m.pendingOrder.orderId ∧ clientIdOf id = m.pendingOrder.clientId))
    (c : Config) (left : Nat) {side : Side} {p : Int} {q : Nat} {b : L3Book}
    (hb : m.book.update (State.fillType left) id side p q left = .ok b) (x : Nat) (rs : List OrderResponse) :
    m.digest (c.response (State.fillType left) id x side p q left .none :: rs) =
      (enterPending { m with book := b, mdSeqNum := m.mdSeqNum + 1 }).bind fun m => m.digest rs := by
  refine digest_apply (fillType_md left) (process_eq ?_ hother) ?_ rs
  · show checkExec (State.fillType left) execResp = false
    rcases fillType_trade left with he | he <;> rw [he] <;> decide
  · unfold MDOrderBook.update
    rw [c.response_combinedId _ _ _ _ _ _ _ hid]
    show (m.book.update (State.fillType left) id side p q left >>= _) = _
    rw [hb]
    rfl

/-- Two orders with both parts of their ids the same are one. -/
theorem id_parts_ne {id id' : Nat} (h : id < 2 ^ 64) (h' : id' < 2 ^ 64) (hne : id ≠ id') :
    ¬ (orderIdOf id = orderIdOf id' ∧ clientIdOf id = clientIdOf id') := by
  intro hids
  refine hne ?_
  rw [← combinedOrderId_parts h, ← combinedOrderId_parts h', hids.1, hids.2]

section Withheld

variable {c : Config} {s : Slot} {idx : Nat} {t : Order}

/-- The taker's record of a trade lowers what pends. -/
theorem MDOrderBook.Waiting.taker {m : MDOrderBook} {r q : Nat} (h : m.Waiting c s t.orderId idx r) (x : Nat)
    (p : Int) : ∃ m', m.process (c.response (State.fillType (r - q)) t.orderId x s.side p q
        (r - q) .none) = .ok m' ∧ m'.book = m.book ∧ m'.Pends c s t.orderId idx (r - q) := by
  refine ⟨_, process_own h.live rfl ⟨h.orderId.symm, h.clientId.symm⟩, rfl, ?_⟩
  by_cases hz : r - q = 0
  · rw [if_pos hz]
    exact Or.inl ⟨hz, rfl⟩
  · rw [if_neg hz]
    refine Or.inr ⟨hz, h.live, h.type, h.orderId, h.clientId, h.side, h.price, ?_⟩
    show m.pendingOrder.qRem - q = r - q
    rw [h.qty]

/-- The maker's record of a trade is applied, whatever pends. -/
theorem MDOrderBook.Pends.maker {m : MDOrderBook} {a : Lob} {r : Nat}
    (h : m.Pends c s t.orderId idx r) {y : Order} (hy : y.orderId < 2 ^ 64) (ht : t.orderId < 2 ^ 64)
    (hne : y.orderId ≠ t.orderId) (left : Nat) {q : Nat} {p : Int}
    (hupdate : ∃ b, m.book.update (State.fillType left) y.orderId s.flip.side p q left = .ok b ∧
      Holds c a b) (x : Nat) (rs : List OrderResponse) :
    ∃ m' : MDOrderBook,
      m.digest (c.response (State.fillType left) y.orderId x s.flip.side p q left .none :: rs) =
        (m'.enterPending.bind fun m => m.digest rs) ∧
      Holds c a m'.book ∧ m'.Pends c s t.orderId idx r := by
  obtain ⟨b, hb, hh⟩ := hupdate
  refine ⟨{ m with book := b, mdSeqNum := m.mdSeqNum + 1 }, digest_other hy ?_ c left hb x rs, hh, ?_⟩
  · -- the pending order is the taker, and the maker is another
    rcases h with ⟨-, hidle⟩ | ⟨-, hw⟩
    · exact Or.inl hidle
    · rw [hw.orderId, hw.clientId]
      exact Or.inr (id_parts_ne hy ht hne)
  · rcases h with ⟨hz, hidle⟩ | ⟨hz, hw⟩
    · exact Or.inl ⟨hz, hidle⟩
    · exact Or.inr ⟨hz, hw.live, hw.type, hw.orderId, hw.clientId, hw.side, hw.price, hw.qty⟩

/-- A pending order that crosses goes on waiting. -/
theorem MDOrderBook.Waiting.enter_crossing {m : MDOrderBook} {a : Lob} {r : Nat} (h : m.Waiting c s t.orderId idx r)
    (hpriced : c.plToPrice idx ≠ 0) (hh : Holds c a m.book)
    (hsorted : (a s.flip).Pairwise fun x y => ¬ s.flip.better y.level x.level)
    (hx : (a s.flip).head?.any (fun o => State.crossed s idx o.level) = true) :
    m.enterPending = .ok m := by
  refine if_pos (Or.inr ?_)
  rw [h.side, h.price, crosses_eq hh hsorted hpriced, hx]

/-- A pending order that crosses nothing is entered. -/
theorem MDOrderBook.Waiting.enter {m : MDOrderBook} {a : Lob} {r : Nat} (h : m.Waiting c s t.orderId idx r)
    (hpriced : c.plToPrice idx ≠ 0) (ht : t.orderId < 2 ^ 64) (hr : t.qtyRemaining = r)
    (hh : Holds c a m.book)
    (hsorted : ∀ s, (a s).Pairwise fun x y => ¬ s.better y.level x.level)
    (hnew : ∀ s', ∀ y ∈ a s', y.orderId ≠ t.orderId)
    (hx : (a s.flip).head?.any (fun o => State.crossed s idx o.level) = false) :
    ∃ m', m.enterPending = .ok m' ∧ m'.Idle ∧
      Holds c (Function.update a s (place s { t with priceLevel := some idx } (a s))) m'.book := by
  have hcombined : m.pendingOrder.combinedId = t.orderId := by
    unfold OrderResponse.combinedId
    rw [h.orderId, h.clientId, combinedOrderId_parts ht]
  obtain ⟨b, hb, hheld⟩ := hh.update_new (o := { t with priceLevel := some idx }) (hsorted s) hnew
    m.pendingOrder.q
  have hlevel : ({ t with priceLevel := some idx } : Order).level = idx := rfl
  have hupdate : m.update m.pendingOrder = .ok { m with book := b, mdSeqNum := m.mdSeqNum + 1 } := by
    unfold MDOrderBook.update
    rw [h.type, hcombined, h.side, h.price, h.qty, ← hr]
    rw [hlevel] at hb
    dsimp only at hb
    rw [hb]
    rfl
  have hno : ¬ (m.pendingOrder.orderId = 0 ∨ m.crosses m.pendingOrder.side m.pendingOrder.p = true) := by
    rw [h.side, h.price, crosses_eq hh (hsorted s.flip) hpriced, hx]
    intro hor
    rcases hor with hz | hf
    · exact h.live hz
    · cases hf
  unfold enterPending
  rw [if_neg hno, hupdate]
  exact ⟨_, rfl, rfl, hheld⟩

/-- An execution that trades nothing. -/
theorem withheld_stop {m : MDOrderBook} {a : Lob} (hpriced : c.plToPrice idx ≠ 0) (gen : Nat → Nat)
    (ht : t.orderId < 2 ^ 64) (hh : Holds c a m.book)
    (hsorted : ∀ s, (a s).Pairwise fun x y => ¬ s.better y.level x.level)
    (hnew : ∀ s', ∀ y ∈ a s', y.orderId ≠ t.orderId) (hpend : m.Pends c s t.orderId idx t.qtyRemaining)
    (hx : t.qtyRemaining = 0 ∨
      (a s.flip).head?.any (fun o => State.crossed s idx o.level) = false) :
    ∃ m', (m.enterPending.bind fun m => m.digest (a.execute c gen s t idx).recs) = .ok m' ∧
      m'.Idle ∧ Holds c (a.execute c gen s t idx).lob m'.book := by
  obtain ⟨hrecs, hlob⟩ := Lob.execute_stop c gen hx
  rw [hrecs, hlob]
  rcases hpend with ⟨hz, hidle⟩ | ⟨hne, hw⟩
  · rw [if_pos hz, enterPending_idle hidle]
    exact ⟨m, rfl, hidle, hh⟩
  · obtain ⟨m', hm', hidle, hh'⟩ := hw.enter hpriced ht rfl hh hsorted hnew (hx.resolve_left hne)
    rw [if_neg hne, hm']
    exact ⟨m', rfl, hidle, hh'⟩

/-- A withheld order goes through its sweep: makers leave and shrink one by one,
and what is left of it is entered once nothing crosses. -/
theorem withheld_execute (hpriced : c.plToPrice idx ≠ 0) (ms : List Order) :
    ∀ (gen : Nat → Nat) (a : Lob) (m : MDOrderBook) (t : Order), a s.flip = ms →
      t.orderId < 2 ^ 64 → Holds c a m.book → a.Distinct →
      (∀ s, (a s).Pairwise fun x y => ¬ s.better y.level x.level) →
      (∀ s', ∀ y ∈ a s', y.orderId ≠ t.orderId) → m.Pends c s t.orderId idx t.qtyRemaining →
      ∃ m', (m.enterPending.bind fun m => m.digest (a.execute c gen s t idx).recs) = .ok m' ∧
        m'.Idle ∧ Holds c (a.execute c gen s t idx).lob m'.book := by
  -- on the makers still in front
  induction ms with
  | nil =>
    intro gen a m t hm ht hh hd hsorted hnew hpend
    have hx : (a s.flip).head?.any (fun o => State.crossed s idx o.level) = false := by
      rw [hm]
      rfl
    exact withheld_stop hpriced gen ht hh hsorted hnew hpend (Or.inr hx)
  | cons y ms ih =>
    intro gen a m t hm ht hh hd hsorted hnew hpend
    by_cases hx : State.crossed s idx y.level = true
    · by_cases hr : t.qtyRemaining = 0
      · exact withheld_stop hpriced gen ht hh hsorted hnew hpend (Or.inl hr)
      have hw : m.Waiting c s t.orderId idx t.qtyRemaining :=
        hpend.elim (fun hz => absurd hz.1 hr) And.right
      have hwait : m.enterPending = .ok m := by
        refine hw.enter_crossing hpriced hh (hsorted s.flip) ?_
        rw [hm]
        exact hx
      have hmem : y ∈ a s.flip := hm ▸ List.mem_cons_self
      have hy := hd.id hmem
      rw [hwait]
      show ∃ m', m.digest _ = .ok m' ∧ _
      have hside : s.flip.side ≠ Side.none := by cases s <;> decide
      have hother : y.orderId ≠ t.orderId := hnew _ _ hmem
      by_cases hle : y.qtyRemaining ≤ t.qtyRemaining
      · obtain ⟨hrecs, hlob⟩ := Lob.execute_filled c gen hm hr hx hle
        obtain ⟨m₁, hm₁, hb₁, hp₁⟩ := hw.taker (q := y.qtyRemaining) (gen 0) (c.plToPrice y.level)
        have hh₁ : Holds c a m₁.book := hb₁ ▸ hh
        have hleft : (⟨y, y.qtyRemaining, t.qtyRemaining - y.qtyRemaining⟩ : Fill).makerLeft = 0 :=
          Nat.sub_self _
        -- the maker is filled and leaves
        have hgone := hh₁.update_gone hd hmem .fill (by decide) hside
          (p := c.plToPrice y.level) (q := y.qtyRemaining) (fun he => by cases he)
        rw [hd.remove_head hm] at hgone
        have hd₂ : Lob.Distinct (Function.update a s.flip ms) := by
          rw [← hd.remove_head hm]
          exact hd.remove _
        have hsub : ∀ s', List.Sublist (Function.update a s.flip ms s') (a s') := by
          intro s'
          rw [← hd.remove_head hm]
          exact List.filter_sublist
        obtain ⟨m₂, hm₂, hh₂, hp₂⟩ := hp₁.maker hy ht hother 0 hgone (gen 0)
          (Lob.execute c (fun k => gen (k + 1)) (Function.update a s.flip ms) s
            (t.fill y.qtyRemaining) idx).recs
        obtain ⟨m', hm', hidle, hh'⟩ := ih (fun k => gen (k + 1)) (Function.update a s.flip ms) m₂
          (t.fill y.qtyRemaining) (Function.update_self ..) ht hh₂ hd₂
          (fun s' => (hsorted s').sublist (hsub s')) (fun s' z hz => hnew s' z ((hsub s').subset hz)) hp₂
        refine ⟨m', ?_, hidle, by rw [hlob]; exact hh'⟩
        rw [hrecs, ← hm', ← hm₂, tradeRecords, tradeRecords, hleft, List.cons_append, List.cons_append,
          List.nil_append]
        exact digest_cons (fillType_md _) hm₁ _
      · -- the maker absorbs the taker and stays
        have hlt := Nat.lt_of_not_le hle
        obtain ⟨hrecs, hlob⟩ := Lob.execute_part c gen hm hr hx hlt
        obtain ⟨m₁, hm₁, hb₁, hp₁⟩ := hw.taker (q := t.qtyRemaining) (gen 0) (c.plToPrice y.level)
        have hh₁ : Holds c a m₁.book := hb₁ ▸ hh
        have hz : t.qtyRemaining - t.qtyRemaining = 0 := Nat.sub_self _
        rw [hz] at hm₁ hp₁
        have hpart : State.fillType (y.qtyRemaining - t.qtyRemaining) = .partialFill :=
          if_neg (by omega)
        have hlow := hh₁.update_lowered hd hmem .partialFill (by decide) hside
          (p := c.plToPrice y.level) (q := t.qtyRemaining) (r := y.qtyRemaining - t.qtyRemaining)
          (by omega) (by omega) (fun he => by cases he) y.qtyOriginal
        rw [hd.resize_head hm] at hlow
        obtain ⟨m₂, hm₂, hh₂, hp₂⟩ := hp₁.maker hy ht hother
          (y.qtyRemaining - t.qtyRemaining) (hpart ▸ hlow) (gen 0) []
        have hidle₂ : m₂.Idle := hp₂.elim And.right (fun hne => absurd rfl hne.1)
        refine ⟨m₂, ?_, hidle₂, by rw [hlob]; exact hh₂⟩
        rw [hrecs, tradeRecords, tradeRecords]
        refine (digest_cons (fillType_md 0) hm₁ _).trans ?_
        exact hm₂.trans (by rw [enterPending_idle hidle₂]; rfl)
    · have hx' : (a s.flip).head?.any (fun o => State.crossed s idx o.level) = false := by
        rw [hm, List.head?_cons, Option.any_some]
        simpa using hx
      exact withheld_stop hpriced gen ht hh hsorted hnew hpend (Or.inr hx')

end Withheld

/-! ## One request -/

section Requests

variable {c : Config} {a : Lob} {m : MDOrderBook} {req : OrderRequest} {gen : Nat → Nat}

/-- The requests the server can follow: it takes an order without an id for no
order, and it cannot know the price a market order came to rest at. -/
def Followable (req : OrderRequest) : Prop :=
  req.orderId ≠ 0 ∧ (req.action = .new → req.type ≠ .market)

/-- The server followed the answer to a request. -/
def Followed (c : Config) (m : MDOrderBook) (ans : Answer) : Prop :=
  ∃ m', m.digest ans.recs = .ok m' ∧ m'.Idle ∧ Holds c ans.lob m'.book

/-- A taker that crosses, once it is set aside. -/
theorem followed_crossing (gen : Nat → Nat) {s : Slot} {t : Order} {idx : Nat}
    (hpriced : c.plToPrice idx ≠ 0) (ht : t.orderId < 2 ^ 64) (hr : t.qtyRemaining ≠ 0)
    (hh : Holds c a m.book) (hd : a.Distinct)
    (hsorted : ∀ s, (a s).Pairwise fun x y => ¬ s.better y.level x.level)
    (hnew : ∀ s', ∀ y ∈ a s', y.orderId ≠ t.orderId)
    (hx : (a s.flip).head?.any (fun o => State.crossed s idx o.level) = true)
    (hw : m.Waiting c s t.orderId idx t.qtyRemaining) :
    Followed c m (a.execute c gen s t idx) := by
  obtain ⟨m', hm', hidle, hh'⟩ := withheld_execute hpriced _ gen a m t rfl ht hh hd hsorted hnew
    (Or.inr ⟨hr, hw⟩)
  rw [hw.enter_crossing hpriced hh (hsorted s.flip) hx] at hm'
  exact ⟨m', hm', hidle, hh'⟩

/-- The acknowledgement of a new order, as the book reads it. -/
theorem Holds.newRecord {b : L3Book} (h : Holds c a b) (hok : a.Ok c) {s : Slot} (hs : req.side = s.side)
    {i : Nat} (hpi : req.p = c.plToPrice i) (hnone : a.find req.combinedId = none) :
    ∃ b', b.update .new (Lob.newRecord c req).combinedId req.side req.p req.q req.q = .ok b' ∧
      Holds c (Function.update a s (place s { State.createOrder req with priceLevel := some i } (a s)))
        b' := by
  obtain ⟨b', hb, hheld⟩ := h.update_new (o := { State.createOrder req with priceLevel := some i })
    (hok.sorted s) (fun s' y hy => Lob.find_eq_none hnone hy) req.q
  refine ⟨b', ?_, hheld⟩
  rw [← hb]
  unfold Lob.newRecord
  rw [c.response_combinedId _ _ _ _ _ _ _ req.combinedId_lt, hs, hpi]
  rfl

/-- The record of a cancel, as the book reads it. -/
theorem Holds.cancelRecord {b : L3Book} (h : Holds c a b) (hok : a.Ok c) {s : Slot} {o : Order}
    (ho : o ∈ a s) (hs : req.side = s.side) :
    ∃ b', b.update .cancelled (Lob.cancelRecord c req o).combinedId req.side (c.plToPrice o.level)
        o.qtyOriginal 0 = .ok b' ∧ Holds c (a.remove o.orderId) b' := by
  have hside : req.side ≠ .none := by
    rw [hs]
    cases s <;> decide
  unfold Lob.cancelRecord
  rw [c.response_combinedId _ _ _ _ _ _ _ (hok.sane ho).id]
  exact h.update_gone (.of_ok hok) ho .cancelled (by decide) hside (fun he => by cases he)

/-- A limit order that is new: entered at once, or when the trades before it are through. -/
theorem followed_entered (hok : a.Ok c) (hidle : m.Idle)
    (hh : Holds c a m.book) (hwf : WellFormed c a req) (hmeets : a.meets c req = true → req.orderId ≠ 0)
    (hmarket : req.type ≠ .market) (hact : req.action = .new) (hnone : a.find req.combinedId = none)
    (hp : ¬ (req.p ≤ 0 ∧ req.type = .limit)) (hq : 1 ≤ req.q) :
    Followed c m ((a.execute c gen req.slot (State.createOrder req)
      (State.newIndex c req)).after (Lob.newRecord c req)) := by
  obtain ⟨s, hs⟩ := hwf.side
  have hslot := OrderRequest.slot_of_side hs
  have hlimit : req.type = .limit := (hwf.type hact).resolve_right hmarket
  obtain ⟨i, hi, hpi, hindex⟩ := hwf.limit_index hlimit hp
  have hpriced : c.plToPrice i ≠ 0 := by
    rw [← hpi]
    exact fun hz => hp ⟨hz.le, hlimit⟩
  have hnew : ∀ s', ∀ y ∈ a s', y.orderId ≠ (State.createOrder req).orderId :=
    fun s' y hy => Lob.find_eq_none hnone hy
  -- the server sees the crossing that the engine sees
  have hcross : m.crosses req.side req.p =
      (a s.flip).head?.any fun o => State.crossed s i o.level := by
    rw [hs, hpi]
    exact crosses_eq hh (hok.sorted s.flip) hpriced
  rw [Lob.meets_new hact, hslot, hindex] at hmeets
  rw [hslot, hindex]
  cases hx : (a s.flip).head?.any fun o => State.crossed s i o.level with
  | true =>
    -- if it crosses, the order waits for its trades
    have hset := process_new hidle (r := Lob.newRecord c req) rfl (hcross.trans hx)
    have hw : ({ m with pendingOrder := Lob.newRecord c req } : MDOrderBook).Waiting c s
        (State.createOrder req).orderId i (State.createOrder req).qtyRemaining := by
      refine ⟨?_, rfl, rfl, rfl, hs, hpi, rfl⟩
      show orderIdOf req.combinedId ≠ 0
      unfold OrderRequest.combinedId
      rw [orderIdOf_combined]
      exact hmeets hx
    obtain ⟨m', hm', hidle', hh'⟩ := followed_crossing
      (m := { m with pendingOrder := Lob.newRecord c req }) gen hpriced req.combinedId_lt
      (Nat.one_le_iff_ne_zero.mp hq) hh (.of_ok hok) hok.sorted hnew hx hw
    exact ⟨m', (digest_cons new_md hset _).trans hm', hidle', hh'⟩
  | false =>
    -- otherwise it rests, and there is nothing behind its record
    obtain ⟨hrecs, hlob⟩ := Lob.execute_stop c gen (t := State.createOrder req) (Or.inr hx)
    obtain ⟨b, hrecord, hheld⟩ := hh.newRecord hok hs hpi hnone
    have hq' : (State.createOrder req).qtyRemaining ≠ 0 := Nat.one_le_iff_ne_zero.mp hq
    refine ⟨{ m with book := b, mdSeqNum := m.mdSeqNum + 1 }, ?_, hidle, ?_⟩
    rotate_left
    · rw [Answer.after_lob, hlob, if_neg hq']
      exact hheld
    · rw [Answer.after_recs, hrecs, digest_through hidle new_md (Or.inr (hcross.trans hx)) hrecord]
      rfl

/-- The acknowledgement of a replacement, as the server reads it. -/
theorem replaceRecord_update {o : Order} {s : Slot} (hid : o.orderId = req.combinedId)
    (hs : req.side = s.side) (target newQty : Nat) (b : L3Book) (e : ExecType) (r : Nat) :
    b.update e (Lob.replaceRecord c req o target newQty).combinedId
        (Lob.replaceRecord c req o target newQty).side (Lob.replaceRecord c req o target newQty).p
        (Lob.replaceRecord c req o target newQty).q r =
      b.update e o.orderId s.side (c.plToPrice target) newQty r := by
  unfold Lob.replaceRecord
  rw [c.response_combinedId _ _ _ _ _ _ _ req.combinedId_lt, hid, ← hs]
  rfl

section Replaced

variable {s : Slot} {o : Order}

/-- Market data sees a replacement cross where the book does. -/
theorem replaceRecord_crosses (hok : a.Ok c) (hh : Holds c a m.book) (hs : req.side = s.side)
    {target : Nat} (hpriced : c.plToPrice target ≠ 0) (newQty : Nat) :
    m.crosses (Lob.replaceRecord c req o target newQty).side
        (Lob.replaceRecord c req o target newQty).p =
      (a s.flip).head?.any fun x => State.crossed s target x.level := by
  rw [← crosses_eq hh (hok.sorted s.flip) hpriced, ← hs]
  rfl

/-- A replacement that is set aside. -/
theorem waiting_replaced (hlive : req.orderId ≠ 0) (hid : o.orderId = req.combinedId)
    (hs : req.side = s.side) (target newQty : Nat) :
    ({ m with pendingOrder := { Lob.replaceRecord c req o target newQty with execType := .new } } :
      MDOrderBook).Waiting c s o.orderId target (newQty - o.executed) := by
  refine ⟨?_, rfl, ?_, ?_, hs, rfl, rfl⟩
  · show orderIdOf req.combinedId ≠ 0
    unfold OrderRequest.combinedId
    rw [orderIdOf_combined]
    exact hlive
  · rw [hid]
    rfl
  · rw [hid]
    rfl

/-- The acknowledgement of a replacement that stays where it is, as the book reads it. -/
theorem Holds.loweredRecord {b : L3Book} (h : Holds c a b) (hok : a.Ok c) (ho : o ∈ a s)
    (hid : o.orderId = req.combinedId) (hs : req.side = s.side) (newQty : Nat)
    (hle : newQty ≤ o.qtyOriginal) (hexec : o.executed < newQty) :
    ∃ b', b.update .replaced (Lob.replaceRecord c req o o.level newQty).combinedId req.side
        (c.plToPrice o.level) newQty (newQty - o.executed) = .ok b' ∧
      Holds c (a.resize o.orderId newQty (newQty - o.executed)) b' := by
  have hpos := (hok.sane ho).pos
  have hqty := (hok.sane ho).le
  obtain ⟨b', hb, hheld⟩ := h.update_lowered (.of_ok hok) ho .replaced (by decide)
    (by cases s <;> decide : s.side ≠ .none) (p := c.plToPrice o.level) (q := newQty)
    (r := newQty - o.executed) (by omega) (by unfold Order.executed at *; omega) (fun _ => rfl) newQty
  exact ⟨b', (replaceRecord_update (c := c) hid hs o.level newQty b .replaced _).trans hb, hheld⟩

/-- The records of a replacement by nothing, as the book reads them: the order is
out after the acknowledgement, and the closing `Fill` finds no order. -/
theorem Holds.finishedRecords {b : L3Book} (h : Holds c a b) (hok : a.Ok c) (ho : o ∈ a s)
    (hid : o.orderId = req.combinedId) (hs : req.side = s.side) (target : Nat) :
    ∃ b', b.update .replaced (Lob.replaceRecord c req o target o.executed).combinedId req.side
        (c.plToPrice target) o.executed (o.executed - o.executed) = .ok b' ∧
      b'.update .fill (Lob.finishRecord c req target).combinedId req.side (c.plToPrice target) 0 0 =
        .ok b' ∧ Holds c (a.remove o.orderId) b' := by
  have hd := Lob.Distinct.of_ok hok
  have hside : s.side ≠ .none := by cases s <;> decide
  have hout : ∃ b', b.update .replaced o.orderId s.side (c.plToPrice target) o.executed 0 = .ok b' ∧
      Holds c (a.remove o.orderId) b' := by
    by_cases hp : c.plToPrice target = c.plToPrice o.level
    · exact h.update_gone hd ho .replaced (by decide) hside (fun _ => hp)
    · exact h.update_moved_out hd ho hp
  obtain ⟨b', hb, hheld⟩ := hout
  have hgone : b'.orders.lookup req.combinedId = none :=
    hheld.lookup_none (fun s' y hy => hid ▸ (Lob.mem_remove.mp hy).2)
  refine ⟨b', ?_, ?_, hheld⟩
  · rw [Nat.sub_self]
    exact (replaceRecord_update (c := c) hid hs target o.executed b .replaced 0).trans hb
  · unfold Lob.finishRecord
    rw [c.response_combinedId _ _ _ _ _ _ _ req.combinedId_lt]
    exact update_absent (hs ▸ hside) (by decide) hgone _ _ _

/-- The acknowledgement of a replacement that goes to the back of a queue, as the
book reads it. -/
theorem Holds.requeuedRecord {b : L3Book} (h : Holds c a b) (hok : a.Ok c) (ho : o ∈ a s)
    (hid : o.orderId = req.combinedId) (hs : req.side = s.side) {target newQty : Nat}
    (hexec : o.executed < newQty) (hmove : o.level ≠ target ∨ o.qtyOriginal < newQty) :
    ∃ b', b.update .replaced (Lob.replaceRecord c req o target newQty).combinedId req.side
        (c.plToPrice target) newQty (newQty - o.executed) = .ok b' ∧
      Holds c (Function.update (a.remove o.orderId) s
        (place s { o.resized newQty with priceLevel := some target } (a.remove o.orderId s))) b' := by
  have hsane := hok.sane ho
  -- the engine compares original quantities, the server remaining ones
  have hback : target ≠ o.level ∨ o.qtyRemaining < newQty - o.executed := by
    have hle := hsane.le
    refine hmove.imp Ne.symm (fun hlt => ?_)
    unfold Order.executed
    omega
  have hpos : 0 < (o.resized newQty).qtyRemaining := by
    show 0 < newQty - o.executed
    omega
  obtain ⟨b', hb, hheld⟩ := h.update_requeued (.of_ok hok) ho
    { o.resized newQty with priceLevel := some target } rfl hpos (hok.sorted s) (q := newQty) hback
  exact ⟨b', (replaceRecord_update (c := c) hid hs target newQty b .replaced _).trans hb, hheld⟩

/-- A replacement that stays where it is and keeps something. -/
theorem followed_lowered (hok : a.Ok c) (hidle : m.Idle) (hh : Holds c a m.book) (ho : o ∈ a s)
    (hid : o.orderId = req.combinedId) (hs : req.side = s.side) (hpriced : c.plToPrice o.level ≠ 0)
    (newQty : Nat) (hle : newQty ≤ o.qtyOriginal)
    (hexec : o.executed < newQty) :
    Followed c m ⟨a.resize o.orderId newQty (newQty - o.executed), gen,
      [Lob.replaceRecord c req o o.level newQty]⟩ := by
  obtain ⟨b, hrecord, hheld⟩ := hh.loweredRecord hok ho hid hs newQty hle hexec
  have hx := (replaceRecord_crosses (o := o) hok hh hs hpriced newQty).trans (hok.uncrossed_head ho)
  exact ⟨_, digest_through hidle replaced_md (Or.inr hx) hrecord [], hidle, hheld⟩

/-- A replacement by nothing: the order is out after the acknowledgement, and the
closing `Fill` clears what pends or finds no order. -/
theorem followed_finished (hok : a.Ok c) (hidle : m.Idle) (hh : Holds c a m.book)
    (ho : o ∈ a s) (hid : o.orderId = req.combinedId) (hs : req.side = s.side)
    {target : Nat} (hpriced : c.plToPrice target ≠ 0)
    (hmeets : ((a s.flip).head?.any fun x => State.crossed s target x.level) = true → req.orderId ≠ 0) :
    Followed c m ⟨a.remove o.orderId, gen,
      [Lob.replaceRecord c req o target o.executed, Lob.finishRecord c req target]⟩ := by
  have hd := Lob.Distinct.of_ok hok
  have hside : s.side ≠ .none := by cases s <;> decide
  have hcross := replaceRecord_crosses (o := o) hok hh hs hpriced o.executed
  cases hx : (a s.flip).head?.any fun x => State.crossed s target x.level with
  | true =>
    obtain ⟨b, hb, hheld⟩ := hh.update_gone hd ho .cancelled (by decide) hside
      (p := c.plToPrice target) (q := o.executed) (fun he => by cases he)
    have hset := process_replaced hidle rfl (hcross.trans hx)
      ((replaceRecord_update (c := c) hid hs target o.executed m.book .cancelled 0).trans hb)
    have hw := waiting_replaced (m := { m with book := b, mdSeqNum := m.mdSeqNum + 1 }) (c := c) (hmeets hx) hid
      hs target o.executed
    -- nothing of it is left, so that the `Fill` of nothing ends the wait
    rw [Nat.sub_self] at hw
    obtain ⟨m', hm', hb', hp'⟩ := hw.taker (q := 0) req.execId (c.plToPrice target)
    refine ⟨m', ?_, hp'.elim And.right (fun hne => absurd rfl hne.1), by rw [hb']; exact hheld⟩
    rw [digest_cons replaced_md hset]
    have hfinish : Lob.finishRecord c req target = c.response (State.fillType (0 - 0)) o.orderId
        req.execId s.side (c.plToPrice target) 0 (0 - 0) .none := by
      rw [hid, ← hs]
      rfl
    rw [hfinish, digest_cons (fillType_md (0 - 0)) hm']
    rfl
  | false =>
    obtain ⟨b, hack, hfill, hheld⟩ := hh.finishedRecords hok ho hid hs target
    have hme : checkExec (Lob.finishRecord c req target).execType execMe = false := by
      show checkExec .fill execMe = false
      decide
    have hsecond := digest_through (m := { m with book := b, mdSeqNum := m.mdSeqNum + 1 }) hidle
      (fillType_md 0) (Or.inl hme) hfill []
    exact ⟨_, (digest_through hidle replaced_md (Or.inr (hcross.trans hx)) hack _).trans hsecond,
      hidle, hheld⟩

/-- A replacement that goes to the back of a queue, or trades first. -/
theorem followed_requeued (hok : a.Ok c) (hidle : m.Idle) (hh : Holds c a m.book)
    (ho : o ∈ a s) (hid : o.orderId = req.combinedId) (hs : req.side = s.side)
    {target newQty : Nat} (hpriced : c.plToPrice target ≠ 0)
    (hmeets : ((a s.flip).head?.any fun x => State.crossed s target x.level) = true → req.orderId ≠ 0)
    (hexec : o.executed < newQty)
    (hmove : o.level ≠ target ∨ o.qtyOriginal < newQty) :
    Followed c m (((a.remove o.orderId).execute c gen s (o.resized newQty) target).after
      (Lob.replaceRecord c req o target newQty)) := by
  have hd := Lob.Distinct.of_ok hok
  have hside : s.side ≠ .none := by cases s <;> decide
  have hsane := hok.sane ho
  have hr : (o.resized newQty).qtyRemaining ≠ 0 := by
    show newQty - o.executed ≠ 0
    omega
  have hcross := replaceRecord_crosses (o := o) hok hh hs hpriced newQty
  have hflip : a.remove o.orderId s.flip = a s.flip := hok.remove_flip ho
  have hrest : ∀ s', ∀ y ∈ a.remove o.orderId s', y.orderId ≠ (o.resized newQty).orderId :=
    fun s' y hy => (Lob.mem_remove.mp hy).2
  cases hx : (a s.flip).head?.any fun x => State.crossed s target x.level with
  | true =>
    obtain ⟨b, hb, hheld⟩ := hh.update_gone hd ho .cancelled (by decide) hside
      (p := c.plToPrice target) (q := newQty) (fun he => by cases he)
    have hset := process_replaced hidle rfl (hcross.trans hx)
      ((replaceRecord_update (c := c) hid hs target newQty m.book .cancelled 0).trans hb)
    have hw := waiting_replaced (m := { m with book := b, mdSeqNum := m.mdSeqNum + 1 }) (c := c) (hmeets hx) hid
      hs target newQty
    obtain ⟨m', hm', hidle', hh'⟩ := followed_crossing gen (t := o.resized newQty) hpriced hsane.id hr
      hheld (hd.remove _) (hok.remove _).sorted hrest (by rw [hflip]; exact hx) hw
    exact ⟨m', (digest_cons replaced_md hset _).trans hm', hidle', hh'⟩
  | false =>
    have hstop : (o.resized newQty).qtyRemaining = 0 ∨ (a.remove o.orderId s.flip).head?.any
        (fun x => State.crossed s target x.level) = false := Or.inr (by rw [hflip]; exact hx)
    obtain ⟨hrecs, hlob⟩ := Lob.execute_stop c gen hstop
    obtain ⟨b, hack, hheld⟩ := hh.requeuedRecord hok ho hid hs hexec hmove
    refine ⟨{ m with book := b, mdSeqNum := m.mdSeqNum + 1 }, ?_, hidle, ?_⟩
    · rw [Answer.after_recs, hrecs, digest_through hidle replaced_md (Or.inr (hcross.trans hx)) hack]
      rfl
    · rw [Answer.after_lob, hlob, if_neg hr]
      exact hheld

end Replaced

/-- A cancel takes the order out of both. -/
theorem followed_cancelled (hok : a.Ok c) (hidle : m.Idle) (hh : Holds c a m.book) {s : Slot}
    {o : Order} (ho : o ∈ a s) (hs : req.side = s.side) :
    Followed c m ⟨a.remove o.orderId, gen, [Lob.cancelRecord c req o]⟩ := by
  obtain ⟨b, hrecord, hheld⟩ := hh.cancelRecord hok ho hs
  have hmd : checkExec (Lob.cancelRecord c req o).execType execMd = true := by
    show checkExec .cancelled execMd = true
    decide
  have hme : checkExec (Lob.cancelRecord c req o).execType execMe = false := by
    show checkExec .cancelled execMe = false
    decide
  exact ⟨_, digest_through hidle hmd (Or.inl hme) hrecord [], hidle, hheld⟩

/-- No order rests at the price 0, which the server takes for none. -/
def Priced (c : Config) (a : Lob) : Prop := ∀ s, ∀ o ∈ a s, c.plToPrice o.level ≠ 0

/-- A replacement that is well formed does not ask for the price 0. -/
theorem Priced.target (h : Priced c a) (hwf : WellFormed c a req) {s : Slot} {o : Order} (ho : o ∈ a s) :
    c.plToPrice (req.target c o) ≠ 0 := by
  unfold OrderRequest.target
  split
  · rename_i hp
    obtain ⟨i, hi, he⟩ := hwf.price hp
    rw [he, c.priceToIndex_plToPrice hi, ← he]
    exact hp
  · exact h s o ho

/-- Whatever a request does, the server follows. -/
theorem followed (hpriced : Priced c a) (hok : a.Ok c) (hidle : m.Idle)
    (hh : Holds c a m.book) (hwf : WellFormed c a req) (hmeets : a.meets c req = true → req.orderId ≠ 0)
    (hmarket : req.action = .new → req.type ≠ .market) {ans : Answer}
    (hout : Lob.Outcome c gen a req ans) : Followed c m ans := by
  cases hout with
  | rejected qRem code =>
    exact ⟨m, digest_skip rejected_md m [], hidle, hh⟩
  | entered hact hnone _ hp hq _ =>
    exact followed_entered hok hidle hh hwf hmeets (hmarket hact) hact hnone hp hq
  | cancelled hact hfind =>
    obtain ⟨ho, -, hs⟩ := hwf.of_find (Or.inl hact) hfind
    exact followed_cancelled hok hidle hh ho hs
  | @kept s o hact hfind _ _ _ hlevel hqty =>
    obtain ⟨ho, hid, hs⟩ := hwf.of_find (Or.inr hact) hfind
    have hsane := hok.sane ho
    have hpos := hsane.pos
    have hle := hsane.le
    have hleft : o.qtyOriginal - o.executed = o.qtyRemaining := by
      unfold Order.executed
      omega
    have hlow : Followed c m ⟨_, gen, _⟩ := followed_lowered hok hidle hh ho hid hs (hpriced s o ho)
      o.qtyOriginal le_rfl (by unfold Order.executed; omega)
    rw [hleft, (Lob.Distinct.of_ok hok).resize_self ho] at hlow
    rw [← hlevel, hqty]
    exact hlow
  | finished hact hfind _ _ hexec _ =>
    obtain ⟨ho, hid, hs⟩ := hwf.of_find (Or.inr hact) hfind
    rw [Lob.meets_modify hact hfind] at hmeets
    rw [hexec]
    exact followed_finished hok hidle hh ho hid hs (hpriced.target hwf ho) hmeets
  | requeued hact hfind _ _ hexec hmove =>
    obtain ⟨ho, hid, hs⟩ := hwf.of_find (Or.inr hact) hfind
    rw [Lob.meets_modify hact hfind] at hmeets
    exact followed_requeued hok hidle hh ho hid hs (hpriced.target hwf ho) hmeets hexec hmove
  | shrunk hact hfind _ _ hexec hlevel hqty =>
    obtain ⟨ho, hid, hs⟩ := hwf.of_find (Or.inr hact) hfind
    rw [← hlevel]
    exact followed_lowered hok hidle hh ho hid hs (hpriced _ _ ho) _ hqty.le hexec

end Requests

/-! ## Runs -/

/-- Records of one symbol go to the book of that symbol. -/
theorem Server.feed_book {sid : UInt32} {m' : MDOrderBook} :
    ∀ {rs : List OrderResponse} (srv : Server), (∀ r ∈ rs, r.symbolId = sid) →
      (srv.getOrCreateBook sid).digest rs = .ok m' →
      ∃ srv', srv.feed rs = .ok srv' ∧ srv'.getOrCreateBook sid = m' ∧
        ∀ k, k ≠ sid → srv'.getOrCreateBook k = srv.getOrCreateBook k
  | [], srv, _, h => by
    refine ⟨srv, rfl, ?_, fun _ _ => rfl⟩
    injection h
  | r :: rs, srv, hsym, h => by
    have hr := hsym r List.mem_cons_self
    have hrs : ∀ r ∈ rs, r.symbolId = sid := fun r hr => hsym r (List.mem_cons_of_mem _ hr)
    unfold Server.feed
    rw [List.foldlM_cons]
    by_cases hmd : checkExec r.execType execMd = true
    · unfold Server.processMarketUpdate
      rw [if_pos hmd, hr]
      cases hp : (srv.getOrCreateBook sid).process r with
      | error f =>
        unfold MDOrderBook.digest at h
        rw [List.foldlM_cons, if_pos hmd, hp] at h
        cases h
      | ok m₁ =>
        rw [digest_cons hmd hp] at h
        have hself : Server.getOrCreateBook (srv.insert sid m₁) sid = m₁ := by
          unfold Server.getOrCreateBook
          rw [AList.lookup_insert]
          rfl
        obtain ⟨srv', hfeed, hbook, hothers⟩ :=
          Server.feed_book (srv.insert sid m₁) hrs (hself.symm ▸ h)
        refine ⟨srv', hfeed, hbook, fun k hk => (hothers k hk).trans ?_⟩
        unfold Server.getOrCreateBook
        rw [AList.lookup_insert_ne hk]
    · have hmd' : checkExec r.execType execMd = false := by simpa using hmd
      rw [digest_skip hmd'] at h
      unfold Server.processMarketUpdate
      rw [if_neg hmd]
      exact Server.feed_book srv hrs h

/-- Feeding two stretches of records. -/
theorem Server.feed_append (srv : Server) (rs rs' : List OrderResponse) :
    srv.feed (rs ++ rs') = (srv.feed rs).bind fun srv => srv.feed rs' := by
  unfold Server.feed
  rw [List.foldlM_append]
  rfl

/-- At a request boundary: the books hold the engine's orders and nothing pends. -/
def Server.Follows (srv : Server) (e : MatchingEngine) : Prop :=
  ∀ sid b, e.books.lookup sid = some b →
    (srv.getOrCreateBook sid).Idle ∧ Holds b.cfg b.lob (srv.getOrCreateBook sid).book

theorem follows_create (cfgs : List Config) (gen : Nat → Nat) :
    Server.Follows ∅ (MatchingEngine.create cfgs gen) := by
  intro sid b hb
  obtain ⟨c, -, -, rfl⟩ := MatchingEngine.create_lookup hb
  rw [fresh_lob]
  exact ⟨rfl, holds_empty _⟩

/-- The server keeps up with a request, and books of symbols the engine does not
serve stay as they are. -/
theorem Server.Follows.served {srv : Server} {cfgs : List Config} {e e' : MatchingEngine}
    {new : List Emission} {req : OrderRequest} (h : srv.Follows e) (hsound : e.Sound cfgs)
    (hpriced : ∀ b, e.books.lookup req.symbolId = some b → Priced b.cfg b.lob) (hK : Followable req)
    (hreq : e.Accepts req) (hpoll : e.pollServer req = some (e', new)) :
    ∃ srv', srv.feed (new.map (·.resp)) = .ok srv' ∧ srv'.Follows e' ∧
      ∀ k, e.books.lookup k = none → srv'.getOrCreateBook k = srv.getOrCreateBook k := by
  cases hsound.stepped hreq hpoll with
  | unserved _ => exact ⟨srv, rfl, h, fun _ _ => rfl⟩
  | @served b b' gen new hsym hcfg hlob hnew =>
    obtain ⟨hidle, hh⟩ := h _ b hsym
    have hout := Lob.step_outcome b.cfg e.gen b.lob req
    obtain ⟨m', hm', hidle', hh'⟩ := followed (hpriced b hsym) (hsound.ok hsym) hidle hh (hreq b hsym)
      (fun _ => hK.1) hK.2 hout
    have hsymbol : ∀ r ∈ (b.lob.step b.cfg e.gen req).recs, r.symbolId = req.symbolId :=
      fun r hr => (hout.symbol r hr).trans (hsound.cfg hsym).2
    obtain ⟨srv', hfeed', hbook, hothers⟩ := Server.feed_book srv hsymbol hm'
    rw [hnew]
    refine ⟨srv', hfeed', fun sid x hx => ?_, fun k hk => hothers k (fun e => ?_)⟩
    · by_cases hs : sid = req.symbolId
      · subst hs
        obtain rfl : b' = x := Option.some.inj ((AList.lookup_insert _).symm.trans hx)
        rw [hbook, hcfg, hlob]
        exact ⟨hidle', hh'⟩
      · rw [hothers sid hs]
        exact h sid x ((AList.lookup_insert_ne hs).symm.trans hx)
    · rw [e, hsym] at hk
      cases hk

/-- The server keeps up with a run. -/
theorem server_follows {cfgs : List Config} (hoff : ∀ c ∈ cfgs, 1 ≤ c.priceIndexOffset)
    {e : MatchingEngine} {out : List Emission} (h : MatchingEngine.Run Followable cfgs e out) :
    ∃ srv, Server.feed ∅ (out.map (·.resp)) = .ok srv ∧ srv.Follows e := by
  induction h with
  | create gen => exact ⟨∅, rfl, follows_create cfgs gen⟩
  | step hrun hK hreq hpoll ih =>
    obtain ⟨srv, hfeed, hfollows⟩ := ih
    rw [List.map_append, Server.feed_append, hfeed]
    obtain ⟨srv', hfeed', hfollows', -⟩ := hfollows.served hrun.sound (fun b hsym s o _ =>
      (b.cfg.plToPrice_pos (hoff _ (hrun.sound.cfg hsym).1) o.level).ne') hK hreq hpoll
    exact ⟨srv', hfeed', hfollows'⟩

/-- A market data book shows the engine's book. -/
structure MDOrderBook.Mirrors (m : MDOrderBook) (b : OrderBook) : Prop where
  idle : m.pendingOrder.orderId = 0
  /-- The same resting orders, with side, price and remaining quantity. -/
  orders : ∀ id, (m.book.orders.lookup id).map (fun x => (x.side, x.price, x.qtyRem)) =
    (b.lob.find id).map fun so => (so.1.side, b.cfg.plToPrice so.2.level, so.2.qtyRemaining)
  /-- Each level of the engine, with its queue and its total. -/
  levels : ∀ s, ∀ i ∈ b.activeLevels s, ∃ l,
    (m.book.levels s).lookup (b.cfg.plToPrice i) = some l ∧
      l.queue.map Prod.snd = (b.queueOf i).map (fun ptr => (deref b.orders ptr).orderId) ∧
      (l.totalQty : BitVec 64) = (b.priceArray i).totalQty
  /-- No other level. -/
  only : ∀ s, ∀ p ∈ (m.book.levels s).keys, ∃ i ∈ b.activeLevels s, p = b.cfg.plToPrice i

/-- What holds the orders of an engine's book shows it. -/
theorem Holds.mirrors {b : OrderBook} {q : Nat → List Nat} (hinv : Inv b q) {m : MDOrderBook}
    (hidle : m.Idle) (h : Holds b.cfg b.lob m.book) : m.Mirrors b := by
  have hok : b.lob.Ok b.cfg := by
    rw [hinv.lob_eq]
    exact hinv.ok
  refine ⟨hidle, fun id => ?_, fun s i hi => ?_, fun s p hp => ?_⟩
  · cases hf : b.lob.find id with
    | none =>
      rw [h.lookup_none (fun s y hy => Lob.find_eq_none hf hy)]
      rfl
    | some so =>
      obtain ⟨s, o⟩ := so
      obtain ⟨ho, rfl⟩ := Lob.mem_of_find hf
      obtain ⟨x, l, hx⟩ := h.listed ho
      rw [hx.entry, Option.map_some, Option.map_some, hx.side, hx.price, hx.qty]
  · -- the orders at the level's price are the level's queue
    have hat : atPrice b.cfg (b.lob s) (b.cfg.plToPrice i) = contents b.orders q i := by
      rw [atPrice_level, hinv.lob_eq, hinv.filter_flat hi]
    have hview := h.views s (b.cfg.plToPrice i)
    have hread : b.queueOf i = q i := hinv.queueOf_eq (hinv.inRange hi)
    obtain ⟨ptr, ptrs, hq⟩ := List.exists_cons_of_ne_nil (hinv.full s i hi)
    rw [hat] at hview
    have hcontents : contents b.orders q i =
        deref b.orders ptr :: ptrs.map (deref b.orders) := by
      unfold contents
      rw [hq, List.map_cons]
    rw [hcontents] at hview
    obtain ⟨l, hl, hv⟩ := Option.map_eq_some_iff.mp hview
    rw [← List.map_cons, ← hq] at hv
    obtain ⟨hids, htotal⟩ := Prod.mk.inj hv
    refine ⟨l, hl, ?_, ?_⟩
    · rw [hids, hread, List.map_map]
      rfl
    · rw [htotal, hinv.counted.total, Nat.cast_list_sum, List.map_map, List.map_map]
      rfl
  · obtain ⟨o, ho, rfl⟩ := h.mem_prices.mp hp
    exact ⟨o.level, hinv.mem_levels.mpr ⟨o, ho, rfl⟩, rfl⟩

/-- Fed with the journal of any run, the server does not throw, and it shows the
book of every symbol. -/
theorem market_data_mirrors_engine {cfgs : List Config} (hoff : ∀ c ∈ cfgs, 1 ≤ c.priceIndexOffset)
    {e : MatchingEngine} {out : List Emission} (h : MatchingEngine.Run Followable cfgs e out) :
    ∃ srv, Server.feed ∅ (out.map (·.resp)) = .ok srv ∧
      ∀ sid b, e.books.lookup sid = some b → (srv.getOrCreateBook sid).Mirrors b := by
  obtain ⟨srv, hfeed, hbooks⟩ := server_follows hoff h
  refine ⟨srv, hfeed, fun sid b hb => ?_⟩
  obtain ⟨q, hq⟩ := h.sound.inv hb
  obtain ⟨hidle, hh⟩ := hbooks sid b hb
  exact hh.mirrors hq hidle

/-- A second symbol beside the sample book's. -/
def secondConfig : Config where
  symbolId := 2
  minStep := 1
  priceIndexOffset := 100
  maxPriceLevels := 50
  minStep_pos := Int.one_pos
  levels_pos := by decide
  levels_lt := by decide

/-- Two symbols in turn: offers, a taker that takes the first and part of the
second, a replacement that trades, and a cancel. -/
def mirroredRequests : List OrderRequest :=
  [sampleRequest .new 1 .sell 20 7, { sampleRequest .new 1 .buy 110 3 with symbolId := 2 },
    sampleRequest .new 2 .sell 20 5, sampleRequest .new 3 .buy 20 9,
    { sampleRequest .new 2 .sell 120 4 with symbolId := 2 }, sampleRequest .new 4 .buy 10 6,
    sampleRequest .modify 4 .buy 20 8, { sampleRequest .modify 2 .sell 105 4 with symbolId := 2 },
    sampleRequest .cancel 4 .buy 20 8]

/-- The sample run of two symbols. -/
theorem sample_mirror : ∃ e out, MatchingEngine.Run Followable [sampleConfig, secondConfig] e out ∧
    out.length = 17 ∧ ∃ srv, Server.feed ∅ (out.map (·.resp)) = .ok srv ∧
      ∀ sid b, e.books.lookup sid = some b → (srv.getOrCreateBook sid).Mirrors b := by
  obtain ⟨e, out, hrun, hlen⟩ := MatchingEngine.Run.of_serve Followable [sampleConfig, secondConfig] id
    mirroredRequests (by unfold Followable; decide) (fun r => r.2.length = 17) (by decide +kernel)
  exact ⟨e, out, hrun, of_decide_eq_true hlen, market_data_mirrors_engine (by decide) hrun⟩

end Exchange.MarketData
