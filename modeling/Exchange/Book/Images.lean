import Exchange.Book.Load

/-!
# The book at the time of a record

The journal's writer may call back from inside `sendResponse`, and `take_snapshot` then writes
the book as it is between two statements of `processRequest`. An acknowledgement is sent before
the book is touched, except that of a cancel, which is sent when the order is gone. The records
of a trade are sent when both quantities are down and a maker that is filled is still in its
queue.

So the image that comes with a record is that of the book before the request or after it, or
holds an order with nothing left (`Emission.Settled` says that it does not).
-/

namespace Exchange

/-- The image holds no order that was filled and is still in its queue. -/
def Emission.Settled (x : Emission) : Prop := ∀ r ∈ x.image, r.qtyRemaining ≠ 0

instance (x : Emission) : Decidable x.Settled :=
  inferInstanceAs (Decidable (∀ r ∈ x.image, r.qtyRemaining ≠ 0))

/-! ## Images by sides -/

/-- The saved orders of a side are in the order of their prices. -/
theorem Core.stock_sorted {b : OrderBook} {q : Nat → List Nat} (h : Core b q) (s : Slot) :
    (stock b q s).Pairwise fun x y => ¬ Slot.ask.better y.level x.level := by
  unfold stock
  rw [List.pairwise_flatMap]
  refine ⟨fun i _ => ?_, ?_⟩
  · refine List.pairwise_of_forall_mem_list (fun x hx y hy => ?_)
    rw [(h.alive.contents hx).2.1, (h.alive.contents hy).2.1]
    exact Slot.better_irrefl .ask i
  · refine (b.activeLevels s).sorted.imp (fun hij x hx y hy => ?_)
    rw [(h.alive.contents hx).2.1, (h.alive.contents hy).2.1]
    exact Slot.better_asymm hij

/-- Books that read the same have the same image. -/
theorem Core.takeSnapshot_congr {b b' : OrderBook} {q q' : Nat → List Nat} (h : Core b q)
    (h' : Core b' q') (hcfg : b'.cfg = b.cfg) (hflat : flat b' q' = flat b q) :
    b'.takeSnapshot = b.takeSnapshot := by
  have hstock : ∀ s, stock b' q' s = stock b q s := by
    intro s
    refine eq_of_levels (h'.stock_sorted s) (h.stock_sorted s) fun i => ?_
    rw [h.filter_stock, h'.filter_stock, hflat]
  rw [h.takeSnapshot_eq, h'.takeSnapshot_eq, hcfg, hstock, hstock]

/-- A queued order is in the image, with what is left of it. -/
theorem mem_takeSnapshot {b : OrderBook} {s : Slot} {i p : Nat} {o : Order} (hi : i ∈ b.activeLevels s)
    (hp : p ∈ b.queueOf i) (ho : b.orders p = some o) :
    ∃ r ∈ b.takeSnapshot, r.qtyRemaining = o.qtyRemaining := by
  refine ⟨⟨o.orderId, o.qtyOriginal, o.qtyRemaining, o.type, s.side, o.timestamp, o.symbolId,
    b.cfg.plToPrice i⟩, ?_, rfl⟩
  unfold OrderBook.takeSnapshot
  refine List.mem_flatMap.mpr ⟨s, by cases s <;> simp, List.mem_flatMap.mpr ⟨i, hi, ?_⟩⟩
  exact List.mem_filterMap.mpr ⟨p, hp, by rw [ho]; rfl⟩

/-! ## Records of a match -/

/-- The records of a step come with an order that has nothing left, or with the book that the
step leaves behind, and then the taker `t` is exhausted. -/
def Seen (t : Nat) (st st' : State) : Prop :=
  ∃ new, st'.out = st.out ++ new ∧ ∀ x ∈ new, x.Settled →
    x.image = st'.book.takeSnapshot ∧ ∃ o, st'.book.orders t = some o ∧ o.qtyRemaining = 0

theorem Seen.refl (t : Nat) (st : State) : Seen t st st :=
  ⟨[], (List.append_nil _).symm, fun _ hx => absurd hx List.not_mem_nil⟩

/-- One run after the other: if the taker was done in the first, the second changes nothing that is saved of it.
-/
theorem Seen.trans {t : Nat} {st st₁ st₂ st' : State} (h : Seen t st st₁) (hout : st₂.out = st₁.out)
    (hdone : ∀ o, st₁.book.orders t = some o → o.qtyRemaining = 0 →
      st'.book.takeSnapshot = st₁.book.takeSnapshot ∧ st'.book.orders t = some o)
    (h' : Seen t st₂ st') : Seen t st st' := by
  obtain ⟨new, hnew, hx⟩ := h
  obtain ⟨new', hnew', hx'⟩ := h'
  refine ⟨new ++ new', by rw [hnew', hout, hnew, List.append_assoc], fun x hmem hsettled => ?_⟩
  rcases List.mem_append.mp hmem with hmem | hmem
  · obtain ⟨himage, o, ho, hz⟩ := hx x hmem hsettled
    obtain ⟨hsame, ho'⟩ := hdone o ho hz
    exact ⟨himage.trans hsame.symm, o, ho', hz⟩
  · exact hx' x hmem hsettled

/-- A record is sent with the book as it is. -/
theorem sendResponse_out (st : State) (hmode : st.book.recoverMode = false) (e : ExecType) (c x : Nat)
    (s : Side) (p : Int) (q r : Nat) (k : RejectCode) :
    (st.sendResponse e c x s p q r k).out =
      st.out ++ [⟨st.book.cfg.response e c x s p q r k, st.book.takeSnapshot⟩] := by
  unfold State.sendResponse
  rw [if_neg (by rw [hmode]; exact Bool.false_ne_true)]

/-- Both records of a trade come with the book the trade leaves behind. -/
theorem trade_out {st : State} (hmode : st.book.recoverMode = false) (t p : Nat) (s : Slot) (i : Nat)
    (o m : Order) : ∃ new, (st.trade t p s i o m).out = st.out ++ new ∧
      ∀ x ∈ new, x.image = (st.trade t p s i o m).book.takeSnapshot := by
  have hmode' : (⟨st.book.traded t p i (min m.qtyRemaining o.qtyRemaining), fun k => st.gen (k + 1),
      st.out⟩ : State).book.recoverMode = false := hmode
  have hfirst := sendResponse_out _ hmode'
    (State.fillType (o.qtyRemaining - min m.qtyRemaining o.qtyRemaining)) o.orderId (st.gen 0) s.side
    (st.book.cfg.plToPrice i) (min m.qtyRemaining o.qtyRemaining)
    (o.qtyRemaining - min m.qtyRemaining o.qtyRemaining) .none
  have hsecond := sendResponse_out
    (State.sendResponse _ (State.fillType (o.qtyRemaining - min m.qtyRemaining o.qtyRemaining))
      o.orderId (st.gen 0) s.side (st.book.cfg.plToPrice i) (min m.qtyRemaining o.qtyRemaining)
      (o.qtyRemaining - min m.qtyRemaining o.qtyRemaining) .none)
    (by rw [State.sendResponse_book]; exact hmode')
    (State.fillType (m.qtyRemaining - min m.qtyRemaining o.qtyRemaining)) m.orderId (st.gen 0)
    s.flip.side (st.book.cfg.plToPrice i) (min m.qtyRemaining o.qtyRemaining)
    (m.qtyRemaining - min m.qtyRemaining o.qtyRemaining) .none
  rw [State.sendResponse_book, hfirst, List.append_assoc] at hsecond
  refine ⟨_, hsecond, fun x hx => ?_⟩
  rw [trade_book]
  rcases List.mem_cons.mp hx with rfl | hx
  · rfl
  · rw [List.mem_singleton.mp hx]

/-- The inner loop of `match`. -/
theorem matchMakers_seen {t : Nat} {s : Slot} {i : Nat} : ∀ {fuel : Nat} {ps : List Nat} {st st' : State}
    {q : Nat → List Nat} {o : Order}, InvBut t o st.book q → q i = ps → i ∈ st.book.activeLevels s.flip →
      st.book.recoverMode = false → State.matchMakers t s i fuel (front i ps) st = some st' → Seen t st st'
  | 0, _, _, _, _, _, _, _, _, _, hrun => by cases hrun
  | fuel + 1, [], st, st', q, o, h, _, _, _, hrun => by
    rw [State.matchMakers, h.taker, Option.bind_eq_bind, Option.bind_some, front, if_pos (Or.inl rfl)] at hrun
    obtain rfl := Option.some.inj hrun
    exact .refl t st
  | fuel + 1, p :: ps, st, st', q, o, h, hq, hi, hmode, hrun => by
    have hp : p ∈ q i := by simp [hq]
    obtain ⟨m, hm, -⟩ := h.alive i p hp
    by_cases hr : o.qtyRemaining = 0
    · rw [State.matchMakers, h.taker, Option.bind_eq_bind, Option.bind_some, if_pos (Or.inr hr)] at hrun
      obtain rfl := Option.some.inj hrun
      exact .refl t st
    rw [State.matchMakers] at hrun
    simp only [front, h.taker, hr, OrderNode.ptr?, hm, Option.bind_eq_bind, Option.bind_some,
      reduceCtorEq, or_false, if_false] at hrun
    obtain ⟨new, hout, himages⟩ := trade_out hmode t p s i o m
    by_cases hleft : m.qtyRemaining - min m.qtyRemaining o.qtyRemaining = 0
    · -- the maker is filled, and in the image with nothing left
      have hmin : min m.qtyRemaining o.qtyRemaining = m.qtyRemaining := by omega
      have hbook : (st.trade t p s i o m).book = st.book.traded t p i m.qtyRemaining := by
        rw [trade_book, hmin]
      have hzero : ∀ x ∈ new, ¬ x.Settled := by
        intro x hx hsettled
        have hmaker : (st.book.traded t p i m.qtyRemaining).orders p = some (m.fill m.qtyRemaining) := by
          have hpt : p ≠ t := fun e => h.loose i (e ▸ hp)
          rw [h.traded_orders hp hm, if_neg hpt, if_pos rfl]
        have hqueue : p ∈ (st.book.traded t p i m.qtyRemaining).queueOf i := by
          have hsame : (st.book.traded t p i m.qtyRemaining).queueOf i = st.book.queueOf i := rfl
          rw [hsame, h.queueOf_eq (h.inRange hi)]
          exact hp
        have hlevel : i ∈ (st.book.traded t p i m.qtyRemaining).activeLevels s.flip := hi
        obtain ⟨r, hr', hrem⟩ := mem_takeSnapshot hlevel hqueue hmaker
        rw [← hbook, ← himages x hx] at hr'
        exact hsettled r hr' (hrem.trans (Nat.sub_self _))
      rw [if_neg (not_not.mpr hleft), hbook] at hrun
      obtain ⟨b', hrem, hnext, -, hmode', hlv, -, -, hinv⟩ := h.filled hq hm
      rw [hrem, Option.bind_some, hnext, Option.bind_some] at hrun
      have hinv' : InvBut t _ ({ st.trade t p s i o m with book := b'.delete p } : State).book _ := hinv
      obtain ⟨new', hout', himages'⟩ := matchMakers_seen hinv'
        (dropPtr_of_split (h.queued.nodup i) (show q i = [] ++ p :: ps from hq))
        (show i ∈ b'.activeLevels s.flip from hlv ▸ hi) (hmode'.trans hmode) hrun
      refine ⟨new ++ new', ?_, fun x hx hsettled => ?_⟩
      · rw [hout', ← List.append_assoc, ← hout]
      · rcases List.mem_append.mp hx with hx | hx
        · exact absurd hsettled (hzero x hx)
        · exact himages' x hx hsettled
    · -- the maker keeps a remainder, and the loop ends
      have hlt : o.qtyRemaining < m.qtyRemaining := by omega
      have hmin := Nat.min_eq_right hlt.le
      have hbook : (st.trade t p s i o m).book = st.book.traded t p i o.qtyRemaining := by
        rw [trade_book, hmin]
      have hinv := h.traded hp hm hlt
      rw [Order.fill, Nat.sub_self, ← hbook] at hinv
      rw [if_pos hleft] at hrun
      cases fuel with
      | zero => cases hrun
      | succ fuel =>
        rw [State.matchMakers, hinv.taker, Option.bind_eq_bind, Option.bind_some, if_pos (Or.inr rfl)]
          at hrun
        obtain rfl := Option.some.inj hrun
        exact ⟨new, hout, fun x hx _ => ⟨himages x hx, _, hinv.taker, rfl⟩⟩

/-- The outer loop of `match`. -/
theorem matchLevels_seen {t : Nat} {s : Slot} {idx : Nat} : ∀ {fuel : Nat} {st st' : State}
    {q : Nat → List Nat} {o : Order}, InvBut t o st.book q → Full st.book q →
      st.book.recoverMode = false → State.matchLevels t s idx fuel st = some st' → Seen t st st'
  | 0, _, _, _, _, _, _, _, hrun => by cases hrun
  | fuel + 1, st, st', q, o, h, hf, hmode, hrun => by
    by_cases hr : o.qtyRemaining = 0
    · rw [matchLevels_done h hr] at hrun
      obtain rfl := Option.some.inj hrun
      exact .refl t st
    rw [State.matchLevels] at hrun
    split at hrun
    · obtain rfl := Option.some.inj hrun
      exact .refl t st
    · rename_i i hbest
      rw [h.taker, Option.bind_eq_bind, Option.bind_some, if_neg hr] at hrun
      split at hrun
      · rename_i hx
        have hi : i ∈ st.book.activeLevels s.flip := by
          rw [h.chained.best] at hbest
          exact mem_levelsOf.mp (List.mem_of_head? hbest)
        obtain ⟨st₁, q₁, hrun₁, h₁, hC₁, hlv₁, hran₁⟩ := matchMakers_spec (t := t) (s := s) hx _ st h rfl
          (Nat.add_le_add_right (h.length_le i) 2)
        obtain ⟨b₂, hset, hc₂, hf₂, hsame, hflat₂, -⟩ := h₁.toCore.settle (s := s.flip) (i := i)
          (hlv₁ ▸ hi) (fun s' j hj hji e => by
            have hcj : contents st₁.book.orders q₁ j = [] := by simp [contents, e]
            rw [hC₁, Function.update_of_ne hji] at hcj
            exact hf s' j (hlv₁ ▸ hj) (List.map_eq_nil_iff.mp hcj))
        have hfirst := matchMakers_seen h rfl hi hmode hrun₁
        rw [h.queued.next_head (h.inRange hi)] at hrun
        simp only [hrun₁, hset, Option.bind_eq_bind, Option.bind_some] at hrun
        have h₂ := h₁.same hc₂ hsame
        have hmode₂ : b₂.recoverMode = false := hsame.recoverMode.trans (hran₁.mode.trans hmode)
        refine hfirst.trans (show ({ st₁ with book := b₂ } : State).out = st₁.out from rfl)
          (fun x hx hz => ?_) (matchLevels_seen h₂ hf₂ hmode₂ hrun)
        -- an exhausted taker ends the loop here
        obtain rfl := Option.some.inj (h₁.taker.symm.trans hx)
        cases fuel with
        | zero => cases hrun
        | succ fuel =>
          rw [matchLevels_done h₂ hz] at hrun
          obtain rfl := Option.some.inj hrun
          exact ⟨h₁.toCore.takeSnapshot_congr hc₂ hsame.cfg hflat₂, h₂.taker⟩
      · obtain rfl := Option.some.inj hrun
        exact .refl t st

/-- The records of `match` come with the book it leaves behind. -/
theorem matchTaker_seen {st st' : State} {t : Nat} {o : Order} {q : Nat → List Nat} {s : Slot}
    {idx : Nat} (h : InvBut t o st.book q) (hf : Full st.book q) (hmode : st.book.recoverMode = false)
    (hrun : st.matchTaker t s.side idx = some st') : ∃ new, st'.out = st.out ++ new ∧
      ∀ x ∈ new, x.Settled → x.image = st'.book.takeSnapshot := by
  obtain ⟨st₁, q₁, hlevels, h₁, hf₁, -, -, -⟩ := matchLevels_spec s idx _ st h hf rfl
    (Nat.add_le_add_right (h.levels_le s.flip) 2)
  obtain ⟨new, hout, himages⟩ := matchLevels_seen h hf hmode hlevels
  simp only [State.matchTaker, Slot.slot_side, hlevels, h₁.taker, Option.bind_eq_bind,
    Option.bind_some] at hrun
  split at hrun
  · obtain rfl := Option.some.inj hrun
    obtain ⟨hinv, hflat⟩ := h₁.gone hf₁
    refine ⟨new, hout, fun x hx hsettled => (himages x hx hsettled).1.trans ?_⟩
    exact (h₁.toCore.takeSnapshot_congr hinv.toCore rfl hflat).symm
  · -- a taker with a remainder has filled all its makers
    rename_i hleft
    obtain ⟨b₁, -, hrun⟩ := Option.bind_eq_some_iff.mp hrun
    obtain ⟨b₂, -, hrun⟩ := Option.bind_eq_some_iff.mp hrun
    obtain rfl := Option.some.inj hrun
    refine ⟨new, hout, fun x hx hsettled => ?_⟩
    obtain ⟨-, o', ho', hz⟩ := himages x hx hsettled
    obtain rfl := Option.some.inj (h₁.taker.symm.trans ho')
    exact absurd hz hleft

/-! ## Records of a request -/

/-- The acknowledgement comes with the book before the request, or is that of a cancel and comes
with the book after it; the other records come with the book after it, or with an order that
has nothing left. -/
def Framed (st st' : State) : Prop :=
  ∃ ack rest, st'.out = st.out ++ ack :: rest ∧
    ((ack.resp.execType ≠ .cancelled ∧ ack.image = st.book.takeSnapshot) ∨
      (ack.resp.execType = .cancelled ∧ rest = [] ∧ ack.image = st'.book.takeSnapshot)) ∧
    ∀ x ∈ rest, x.Settled → x.image = st'.book.takeSnapshot

/-- A request that is acknowledged, and then nothing is sent. -/
theorem Framed.acknowledged {st st₁ st' : State} {y : Emission} (hout : st₁.out = st.out ++ [y])
    (htype : y.resp.execType ≠ .cancelled) (himage : y.image = st.book.takeSnapshot)
    (hsame : st'.out = st₁.out) : Framed st st' :=
  ⟨y, [], hsame.trans hout, Or.inl ⟨htype, himage⟩, fun _ hx => absurd hx List.not_mem_nil⟩

/-- A request that is acknowledged first. -/
theorem Framed.after {st st₁ st' : State} {y : Emission} {new : List Emission}
    (hack : st₁.out = st.out ++ [y]) (htype : y.resp.execType ≠ .cancelled)
    (himage : y.image = st.book.takeSnapshot) (hout : st'.out = st₁.out ++ new)
    (himages : ∀ x ∈ new, x.Settled → x.image = st'.book.takeSnapshot) : Framed st st' := by
  refine ⟨y, new, ?_, Or.inl ⟨htype, himage⟩, himages⟩
  rw [hout, hack, List.append_assoc]
  rfl

theorem reject_framed {st : State} (hmode : st.book.recoverMode = false) (req : OrderRequest)
    (qRem : Nat) (code : RejectCode) : Framed st (st.reject req qRem code) :=
  .acknowledged (sendResponse_out st hmode ..) ExecType.noConfusion rfl rfl

theorem handleNewOrder_framed {st st' : State} {q : Nat → List Nat} (h : Inv st.book q)
    (hmode : st.book.recoverMode = false) {req : OrderRequest} {s : Slot} (hs : req.side = s.side)
    (hrun : st.handleNewOrder req = some st') : Framed st st' := by
  unfold State.handleNewOrder at hrun
  split at hrun
  · obtain rfl := Option.some.inj hrun
    exact reject_framed hmode req 0 .duplicateOrderID
  rename_i hact
  split at hrun
  · obtain rfl := Option.some.inj hrun
    exact reject_framed hmode req 0 .priceInvalid
  split at hrun
  · obtain rfl := Option.some.inj hrun
    exact reject_framed hmode req 0 .invalidQuantity
  -- the order is allocated, and in no queue, when its acknowledgement is sent
  have hnone : st.book.activeOrders (State.createOrder req).orderId = none :=
    Option.not_isSome_iff_eq_none.mp hact
  obtain ⟨hb, hf, hflat⟩ := h.allocate hnone
  generalize hst₁ : (⟨st.book.allocate (State.createOrder req), st.gen, st.out⟩ : State) = st₁ at hrun
  have hbook : st₁.book = st.book.allocate (State.createOrder req) := by rw [← hst₁]
  have hmode₁ : st₁.book.recoverMode = false := by rw [hbook]; exact hmode
  have hack := sendResponse_out st₁ hmode₁ .new req.combinedId req.execId req.side req.p req.q req.q .none
  have hout₁ : st₁.out = st.out := by rw [← hst₁]
  rw [hout₁, hbook, h.toCore.takeSnapshot_congr hb.toCore rfl hflat] at hack
  rw [← hbook] at hb hf
  dsimp only at hrun
  rw [hs] at hrun hack
  obtain ⟨new, hout, himages⟩ := matchTaker_seen (by rw [State.sendResponse_book]; exact hb)
    (by rw [State.sendResponse_book]; exact hf) (by rw [State.sendResponse_book]; exact hmode₁) hrun
  exact .after hack ExecType.noConfusion rfl hout himages

theorem handleCancelOrder_framed {st st' : State} {q : Nat → List Nat} (h : Inv st.book q)
    (hmode : st.book.recoverMode = false) {req : OrderRequest}
    (hs : ∀ s o, (flat st.book q).find req.combinedId = some (s, o) → req.side = s.side)
    (hrun : st.handleCancelOrder req = some st') : Framed st st' := by
  unfold State.handleCancelOrder at hrun
  cases hact : st.book.activeOrders req.combinedId with
  | none =>
    rw [hact] at hrun
    obtain rfl := Option.some.inj hrun
    exact reject_framed hmode req 0 .orderNotFound
  | some p =>
    obtain ⟨s, i, o, hfind, ho, hp, hi, hid, hl, -, -⟩ := h.active_some hact
    obtain ⟨b₁, b₂, hb₁, hb₂, hinv, hf, hcfg, hmode₂, hnone, hflat⟩ := h.detach hp ho hi none
    obtain ⟨hinv', hflat'⟩ := hinv.gone hf
    rw [OrderBook.eraseActive_of_none (by rw [hnone, Function.update_self])] at hinv' hflat'
    have herase : st.book.eraseActive o.orderId = { st.book with
      activeOrders := Function.update st.book.activeOrders o.orderId none } := rfl
    simp only [hact, ho, herase, hb₁, hl, hs s o hfind, hb₂, Option.bind_eq_bind, Option.bind_some]
      at hrun
    obtain rfl := Option.some.inj hrun
    have hsent := sendResponse_out ⟨b₂, st.gen, st.out⟩ (hmode₂.trans hmode) .cancelled o.orderId
      req.execId s.side (b₂.cfg.plToPrice i) o.qtyOriginal 0 .none
    refine ⟨_, [], hsent, Or.inr ⟨rfl, rfl, ?_⟩, fun _ hx => absurd hx List.not_mem_nil⟩
    rw [State.sendResponse_book]
    exact (hinv.toCore.takeSnapshot_congr hinv'.toCore rfl hflat').symm

theorem replaceOrder_framed {st st' : State} {q : Nat → List Nat} (h : Inv st.book q)
    (hmode : st.book.recoverMode = false) {req : OrderRequest} {s : Slot} {i p : Nat} {o : Order}
    (hp : p ∈ q i) (ho : st.book.orders p = some o) (hi : i ∈ st.book.activeLevels s)
    (hs : req.side = s.side) {target newQty : Nat}
    (hrun : st.replaceOrder req p o i target newQty = some st') : Framed st st' := by
  unfold State.replaceOrder at hrun
  dsimp only at hrun
  split at hrun
  · obtain rfl := Option.some.inj hrun
    exact reject_framed hmode req o.qtyRemaining .invalidModify
  have hack := sendResponse_out st hmode .replaced req.combinedId req.execId req.side
    (st.book.cfg.plToPrice target) newQty (newQty - (o.qtyOriginal - o.qtyRemaining)) .none
  generalize hst₁ : st.sendResponse .replaced req.combinedId req.execId req.side
    (st.book.cfg.plToPrice target) newQty (newQty - (o.qtyOriginal - o.qtyRemaining)) .none = st₁
    at hrun hack
  have hbook : st₁.book = st.book := by rw [← hst₁, State.sendResponse_book]
  rw [hbook] at hrun
  split at hrun
  · obtain rfl := Option.some.inj hrun
    exact .acknowledged hack ExecType.noConfusion rfl rfl
  split at hrun
  · -- the order leaves its level
    obtain ⟨b₁, b₂, hb₁, hb₂, hinv, hf, hcfg, hmode₂, hact, hflat⟩ :=
      h.detach hp ho hi (st.book.activeOrders o.orderId)
    rw [Function.update_eq_self] at hb₁
    rw [← hs] at hb₂
    simp only [hb₁, hb₂, Option.bind_eq_bind, Option.bind_some] at hrun
    have hmode₂' : b₂.recoverMode = false := hmode₂.trans hmode
    split at hrun
    · obtain rfl := Option.some.inj hrun
      obtain ⟨hinv', hflat'⟩ := hinv.gone hf
      have hsent := sendResponse_out ⟨b₂, st₁.gen, st₁.out⟩ hmode₂' .fill req.combinedId req.execId
        req.side (st.book.cfg.plToPrice target) 0 0 .none
      refine .after hack ExecType.noConfusion rfl hsent (fun x hx _ => ?_)
      rw [List.mem_singleton.mp hx, State.sendResponse_book]
      exact (hinv.toCore.takeSnapshot_congr hinv'.toCore rfl hflat').symm
    · obtain ⟨hinv', -⟩ := hinv.modifyTaker (fun x => { x with
        qtyRemaining := newQty - (o.qtyOriginal - o.qtyRemaining), qtyOriginal := newQty }) rfl
      rw [hs] at hrun
      obtain ⟨new, hout, himages⟩ := matchTaker_seen hinv' hf hmode₂' hrun
      exact .after hack ExecType.noConfusion rfl hout himages
  · obtain rfl := Option.some.inj hrun
    exact .acknowledged hack ExecType.noConfusion rfl rfl

theorem handleModifyOrder_framed {st st' : State} {q : Nat → List Nat} (h : Inv st.book q)
    (hmode : st.book.recoverMode = false) {req : OrderRequest}
    (hs : ∀ s o, (flat st.book q).find req.combinedId = some (s, o) → req.side = s.side)
    (hrun : st.handleModifyOrder req = some st') : Framed st st' := by
  unfold State.handleModifyOrder at hrun
  cases hact : st.book.activeOrders req.combinedId with
  | none =>
    rw [hact] at hrun
    obtain rfl := Option.some.inj hrun
    exact reject_framed hmode req 0 .orderNotFound
  | some p =>
    obtain ⟨s, i, o, hfind, ho, hp, hi, -, hl, -, -⟩ := h.active_some hact
    simp only [hact, ho, hl, Option.bind_eq_bind, Option.bind_some] at hrun
    split at hrun
    · obtain rfl := Option.some.inj hrun
      exact reject_framed hmode req o.qtyRemaining .invalidQuantity
    split at hrun
    · obtain rfl := Option.some.inj hrun
      exact reject_framed hmode req o.qtyRemaining .priceInvalid
    exact replaceOrder_framed h hmode hp ho hi (hs s o hfind) hrun

/-- The images of a request's records. -/
theorem processRequest_framed {st st' : State} {q : Nat → List Nat} (h : Inv st.book q)
    (hmode : st.book.recoverMode = false) {req : OrderRequest}
    (hsafe : Safe st.book.cfg (flat st.book q) req) (hrun : st.processRequest req = some st') :
    Framed st st' := by
  unfold State.processRequest at hrun
  cases hact : req.action with
  | cancel =>
    rw [hact] at hrun
    exact handleCancelOrder_framed h hmode (hsafe.named (Or.inl hact)) hrun
  | modify =>
    rw [hact] at hrun
    exact handleModifyOrder_framed h hmode (hsafe.named (Or.inr hact)) hrun
  | other n =>
    rw [hact] at hrun
    obtain rfl := Option.some.inj hrun
    exact reject_framed hmode req 0 .invalidAction
  | new =>
    rw [hact] at hrun
    dsimp only at hrun
    split at hrun
    · obtain rfl := Option.some.inj hrun
      exact reject_framed hmode req 0 .priceInvalid
    · obtain ⟨⟨s, hs⟩, -⟩ := hsafe.new hact
      exact handleNewOrder_framed h hmode hs hrun

/-! ## Books without market orders -/

/-- No order of the book is a market order. -/
def Lob.Limits (a : Lob) : Prop := ∀ s, ∀ o ∈ a s, o.type ≠ .market

/-- A limit order, or a request about one. -/
def LimitOnly (req : OrderRequest) : Prop := req.action = .new → req.type ≠ .market

namespace Lob.Limits

variable {a : Lob}

theorem remove (h : a.Limits) (id : Nat) : (a.remove id).Limits :=
  fun s o ho => h s o (mem_remove.mp ho).1

theorem resize (h : a.Limits) (id q r : Nat) : (a.resize id q r).Limits := by
  intro s o ho
  obtain ⟨m, hm, rfl⟩ := List.mem_map.mp ho
  split
  · exact h s m hm
  · exact h s m hm

/-- A limit order that trades or rests leaves a book of limit orders. -/
theorem execute (h : a.Limits) (c : Config) (gen : Nat → Nat) (s : Slot) {t : Order}
    (ht : t.type ≠ .market) (idx : Nat) : (a.execute c gen s t idx).lob.Limits := by
  intro s' o ho
  by_cases hs : s' = s
  · subst hs
    rw [execute_self] at ho
    split at ho
    · exact h s' o ho
    · rcases mem_place.mp ho with rfl | ho
      · exact ht
      · exact h s' o ho
  · obtain rfl : s' = s.flip := Slot.eq_flip hs
    rw [execute_flip] at ho
    obtain ⟨m, hm, k, -, rfl⟩ := mem_sweep_rest _ _ ho
    exact h s.flip m hm

/-- A request about limit orders leaves no market order behind. -/
theorem outcome (h : a.Limits) {c : Config} {gen : Nat → Nat} {req : OrderRequest} {ans : Answer}
    (hlimit : LimitOnly req) (hout : Outcome c gen a req ans) : ans.lob.Limits := by
  cases hout with
  | rejected _ _ => exact h
  | entered hact _ _ _ _ _ => exact h.execute c gen _ (hlimit hact) _
  | cancelled _ _ => exact h.remove _
  | kept _ _ _ _ _ _ _ => exact h
  | finished _ _ _ _ _ _ => exact h.remove _
  | @requeued s o _ hfind _ _ _ _ =>
    have htype : (o.resized (req.newQty o)).type ≠ .market := h s o (mem_of_find hfind).1
    exact (h.remove _).execute c gen s htype _
  | shrunk _ _ _ _ _ _ _ => exact h.resize _ _ _

end Lob.Limits

/-! ## Going on from a record -/

/-- An id that is taken out of a book is not found in it. -/
theorem Lob.find_remove (a : Lob) (id : Nat) : (a.remove id).find id = none := by
  cases hfind : (a.remove id).find id with
  | none => rfl
  | some so =>
    obtain ⟨hmem, hid⟩ := mem_of_find hfind
    exact absurd hid (mem_remove.mp hmem).2

/-- The answer to a cancel. -/
theorem Lob.Outcome.of_cancelled {c : Config} {gen : Nat → Nat} {a : Lob} {req : OrderRequest}
    {ans : Answer} (h : Outcome c gen a req ans) {ack : OrderResponse} (hrecs : ans.recs = [ack])
    (hack : ack.execType = .cancelled) : ∃ s o, req.action = .cancel ∧
      a.find req.combinedId = some (s, o) ∧ ans.lob = a.remove o.orderId ∧ ack = cancelRecord c req o := by
  cases h with
  | @cancelled s o hact hfind => exact ⟨s, o, hact, hfind, rfl, (List.cons.inj hrecs).1.symm⟩
  | rejected _ _ => obtain ⟨rfl, -⟩ := List.cons.inj hrecs; cases hack
  | entered _ _ _ _ _ _ => obtain ⟨rfl, -⟩ := List.cons.inj hrecs; cases hack
  | kept _ _ _ _ _ _ _ => obtain ⟨rfl, -⟩ := List.cons.inj hrecs; cases hack
  | finished _ _ _ _ _ _ => obtain ⟨rfl, -⟩ := List.cons.inj hrecs; cases hack
  | requeued _ _ _ _ _ _ => obtain ⟨rfl, -⟩ := List.cons.inj hrecs; cases hack
  | shrunk _ _ _ _ _ _ _ => obtain ⟨rfl, -⟩ := List.cons.inj hrecs; cases hack

/-- The record of a cancel, replayed once more: the order is not found. -/
theorem Lob.Outcome.cancelled_again {c : Config} {a : Lob} (hok : a.Ok c) {req : OrderRequest}
    (hreq : WellFormed c a req) {gen : Nat → Nat} {ans : Answer} (hout : Outcome c gen a req ans)
    {ack : OrderResponse} (hrecs : ans.recs = [ack]) (hack : ack.execType = .cancelled) :
    Follows c ans.lob [ack] ans.lob := by
  obtain ⟨s, o, hact, hfind, hlob, rfl⟩ := hout.of_cancelled hrecs hack
  rw [hlob]
  obtain ⟨hmem, hid⟩ := mem_of_find hfind
  obtain ⟨req', hreq'⟩ : ∃ req', State.restoreRequest (cancelRecord c req o) = some req' := ⟨_, rfl⟩
  have hact' : req'.action = .cancel := by obtain rfl := Option.some.inj hreq'; rfl
  have hid' : req'.combinedId = o.orderId := by
    obtain rfl := Option.some.inj hreq'
    exact combinedOrderId_parts (hok.sane hmem).id
  have hside : req'.side = s.side := by
    obtain rfl := Option.some.inj hreq'
    exact hreq.named (Or.inl hact) s o hfind
  have hp : req'.p = c.plToPrice o.level := by obtain rfl := Option.some.inj hreq'; rfl
  refine .cons (fun st hst => ?_) (.nil _)
  have hnone : st.book.lob.find req'.combinedId = none := by
    rw [hid']
    exact find_none_strip hst.lob (find_remove a o.orderId)
  refine hst.restore hreq' ⟨⟨s, hside⟩, fun _ s' x hx => ?_, fun e => ?_,
    fun _ => ⟨_, (hok.level hmem).2, hp⟩⟩ (fun gen' => ?_)
  · rw [hnone] at hx
    cases hx
  · rw [hact'] at e
    cases e
  · unfold step
    rw [hact']
    unfold cancelOrder
    rw [hnone]
    exact hst.lob

/-- The image is that of a book without market orders, and from there the records lead to `a`. -/
def Anchored (c : Config) (image : List OrderSnapshot) (rs : List OrderResponse) (a : Lob) : Prop :=
  ∃ b q, Inv b q ∧ b.cfg = c ∧ b.lob.Limits ∧ image = b.takeSnapshot ∧ Follows c b.lob rs a

/-- Records of an anchored book, and then those of what follows. -/
theorem Anchored.append {c : Config} {image : List OrderSnapshot} {rs rs' : List OrderResponse}
    {a a' : Lob} (h : Anchored c image rs a) (h' : Follows c a rs' a') :
    Anchored c image (rs ++ rs') a' := by
  obtain ⟨b, q, hq, hcfg, hlimits, himage, hfollows⟩ := h
  exact ⟨b, q, hq, hcfg, hlimits, himage, hfollows.append h'⟩

/-- What the records of a request are good for: they lead from the book before it to the book
after it, and so they do from whichever of them the snapshot is taken at, unless a filled order
is in it. -/
structure Journals (c : Config) (st st' : State) : Prop where
  cfg : st'.book.cfg = c
  limits : st'.book.lob.Limits
  follows : Follows c st.book.lob (st'.out.map (·.resp)) st'.book.lob
  anchored : ∀ {pre post : List Emission} {x : Emission}, st'.out = pre ++ x :: post → x.Settled →
    Anchored c x.image ((x :: post).map (·.resp)) st'.book.lob

/-- One request: what it sends leads from the book before to the book behind it. -/
theorem processRequest_journals {c : Config} {st st' : State} {q : Nat → List Nat}
    (h : Inv st.book q) (hcfg : st.book.cfg = c) (hmode : st.book.recoverMode = false)
    (hlimits : st.book.lob.Limits) {req : OrderRequest} (hK : LimitOnly req)
    (hreq : WellFormed c st.book.lob req) (hout : st.out = []) (hrun : st.processRequest req = some st') :
    Journals c st st' := by
  have hok : st.book.lob.Ok c := by
    rw [h.lob_eq, ← hcfg]
    exact h.ok
  have hprice : PricelessMarket req := fun hact htype => absurd htype (hK hact)
  obtain ⟨st'', hrun', hans⟩ := h.answers hcfg hreq
  obtain rfl := Option.some.inj (hrun.symm.trans hrun')
  obtain ⟨q', hq', hlob⟩ := hans.lob
  have hlob' := hq'.lob_eq.trans hlob
  have houtcome := Lob.step_outcome c st.gen st.book.lob req
  have hrecs : st'.out.map (·.resp) = (Lob.step c st.gen st.book.lob req).recs := by
    have hlog := hans.log
    rw [if_neg (by simp [hmode])] at hlog
    unfold State.log at hlog
    rw [hlog, hout]
    rfl
  have hlimits' : st'.book.lob.Limits := by
    rw [hlob']
    exact hlimits.outcome hK houtcome
  have hsafe := hreq.safe
  rw [← hcfg, h.lob_eq] at hsafe
  obtain ⟨ack, rest, hframe, hack, hrest⟩ := processRequest_framed h hmode hsafe hrun
  rw [hout, List.nil_append] at hframe
  have hfollows := houtcome.follows hok hprice hreq
  rw [← hrecs, ← hlob'] at hfollows
  refine ⟨hans.cfg.trans hcfg, hlimits', hfollows, fun {pre post x} hx hsettled => ?_⟩
  obtain ⟨r, rs, hreplay, hskip, -⟩ := (houtcome.replays hok rfl hprice hreq).replay
  rw [hframe] at hx
  rw [hframe, hreplay] at hrecs
  obtain ⟨-, hrs⟩ := List.cons.inj hrecs
  cases pre with
  | nil =>
    obtain ⟨rfl, rfl⟩ := List.cons.inj hx
    rcases hack with ⟨-, hbefore⟩ | ⟨hcancel, rfl, hafter⟩
    · refine ⟨st.book, q, h, hcfg, hlimits, hbefore, ?_⟩
      rw [← hframe]
      exact hfollows
    · refine ⟨st'.book, q', hq', hans.cfg.trans hcfg, hlimits', hafter, ?_⟩
      rw [hlob']
      refine houtcome.cancelled_again hok hreq ?_ hcancel
      rw [hreplay, ← hrecs]
      rfl
  | cons y ys =>
    -- the records behind the acknowledgement are skipped
    obtain ⟨-, htail⟩ := List.cons.inj hx
    have hmem : ∀ z ∈ x :: post, z ∈ rest := by
      intro z hz
      rw [htail]
      exact List.mem_append_right ys hz
    refine ⟨st'.book, q', hq', hans.cfg.trans hcfg, hlimits', hrest x (hmem x List.mem_cons_self) hsettled,
      .skip _ fun r hr => hskip r ?_⟩
    obtain ⟨z, hz, rfl⟩ := List.mem_map.mp hr
    rw [← hrs]
    exact List.mem_map_of_mem (hmem z hz)

end Exchange
