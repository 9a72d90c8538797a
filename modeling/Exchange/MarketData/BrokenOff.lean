import Exchange.Engine.Rollover
import Exchange.MarketData.Restore
import Exchange.MarketData.Tracks

/-!
# Two recoveries from a journal that breaks off

The engine replays the acknowledgement of a request, and with it all its trades; the market data
server applies every record as it stands. A process that is killed between two records leaves
the journal to end inside a request, and then the engine has trades that the server has not. So
the two agree if the first record that is missing is not one of a trade
(`restores_agree_iff`). Where a replacement leaves nothing of its order, the closing fill says
nothing new, and may be missing.

For what is left of its orders it does not matter at which price the server has them, or that a
crossing order is in the book along with those it crosses: `Exact` is about ids and quantities.
-/

namespace Exchange

/-- The record of one party to a trade, and not the closing fill of a replacement. -/
def OrderResponse.Traded (r : OrderResponse) : Prop := r.isTrade = true ∧ r.q ≠ 0

instance : DecidablePred OrderResponse.Traded := fun r =>
  inferInstanceAs (Decidable (r.isTrade = true ∧ r.q ≠ 0))

/-- A trade record reports a trade. -/
theorem Remaining.Trades.traded {x : Remaining} {r : OrderResponse} (h : x.Trades r) : r.Traded :=
  ⟨isTrade_iff.mpr (h.type ▸ fillType_trade r.qRem), h.pos.ne'⟩

theorem not_traded {r : OrderResponse} (hfill : r.execType ≠ .fill) (hpart : r.execType ≠ .partialFill) :
    ¬ r.Traded :=
  fun h => (isTrade_iff.mp h.1).elim hfill hpart

/-- The first record of a request is none. -/
theorem Lob.Outcome.acknowledged {c : Config} {gen : Nat → Nat} {a : Lob} {req : OrderRequest}
    {ans : Answer} (h : Outcome c gen a req ans) : ∃ ack rest, ans.recs = ack :: rest ∧ ¬ ack.Traded := by
  cases h with
  | rejected _ _ => exact ⟨_, _, rfl, not_traded ExecType.noConfusion ExecType.noConfusion⟩
  | entered _ _ _ _ _ _ => exact ⟨_, _, rfl, not_traded ExecType.noConfusion ExecType.noConfusion⟩
  | cancelled _ _ => exact ⟨_, _, rfl, not_traded ExecType.noConfusion ExecType.noConfusion⟩
  | kept _ _ _ _ _ _ _ => exact ⟨_, _, rfl, not_traded ExecType.noConfusion ExecType.noConfusion⟩
  | finished _ _ _ _ _ _ => exact ⟨_, _, rfl, not_traded ExecType.noConfusion ExecType.noConfusion⟩
  | requeued _ _ _ _ _ _ => exact ⟨_, _, rfl, not_traded ExecType.noConfusion ExecType.noConfusion⟩
  | shrunk _ _ _ _ _ _ _ => exact ⟨_, _, rfl, not_traded ExecType.noConfusion ExecType.noConfusion⟩

namespace MarketData

/-- What is left of the orders of the server's book. -/
def L3Book.remaining (b : L3Book) : Remaining := fun id => (b.orders.lookup id).map (·.qtyRem)

/-- What `update` makes of the row it is about. -/
theorem update_row {b b' : L3Book} {type : ExecType} {id : Nat} {side : Side} {p : Int} {q r : Nat}
    (hside : side ≠ .none) (htype : type ≠ .rejected) (hrow : type = .new ∨ (b.remaining id).isSome)
    (hr : type = .new → r ≠ 0) (h : b.update type id side p q r = .ok b') :
    b'.remaining id = if r = 0 then none else some r := by
  unfold L3Book.update at h
  rw [if_neg hside, if_neg htype] at h
  have hback : ∀ b₀ : L3Book, (b₀.pushBack id side p q r).remaining id = some r := by
    intro b₀
    unfold L3Book.remaining L3Book.pushBack
    rw [L3Book.onLevelUpdated_orders, AList.lookup_insert]
    rfl
  split at h
  · rename_i hnew
    rw [← Except.ok.inj h, hback, if_neg (hr hnew)]
  · rename_i hnew
    obtain ⟨y, hy⟩ := Option.isSome_iff_exists.mp (hrow.resolve_left hnew)
    obtain ⟨order, horder, -⟩ := Option.map_eq_some_iff.mp hy
    rw [horder] at h
    dsimp only at h
    split at h
    · obtain ⟨b₁, -, h⟩ := Lib.bind_ok h
      split at h
      · rename_i hpos
        rw [← Except.ok.inj h, hback, if_neg hpos.ne']
      · rename_i hpos
        rw [← Except.ok.inj h, if_pos (Nat.eq_zero_of_not_pos hpos)]
        unfold L3Book.remaining
        rw [AList.lookup_erase]
        rfl
    · unfold L3Book.updateInPlace at h
      dsimp only at h
      split at h
      · rename_i hz
        obtain ⟨l, -, h⟩ := Lib.bind_ok h
        rw [← Except.ok.inj h, if_pos hz]
        unfold L3Book.remaining
        rw [AList.lookup_erase]
        rfl
      · rename_i hz
        rw [← Except.ok.inj h, if_neg hz]
        unfold L3Book.remaining
        rw [AList.lookup_insert]
        rfl

/-- A coherent book of just these orders, with what is left of them. -/
structure Exact (x : Remaining) (b : L3Book) : Prop where
  coherent : Coherent b
  rows : b.remaining = x

theorem exact_empty : Exact (fun _ => none) .empty := ⟨coherent_empty, rfl⟩

section Records

variable {x x' : Remaining} {b : L3Book} {r : OrderResponse}

/-- A record about an order of the book, or a new one. -/
theorem Exact.update (h : Exact x b) {s : Slot} (hs : r.side = s.side) (htype : r.execType ≠ .rejected)
    (hnew : r.execType = .new → x r.combinedId = none ∧ r.qRem ≠ 0)
    (hold : r.execType ≠ .new → (x r.combinedId).isSome) :
    ∃ b', b.update r.execType r.combinedId r.side r.p r.q r.qRem = .ok b' ∧
      Exact (Function.update x r.combinedId (if r.qRem = 0 then none else some r.qRem)) b' := by
  have hside : s.side ≠ .none := by cases s <;> decide
  have hfresh : r.execType = .new → b.orders.lookup r.combinedId = none ∧ 0 < r.qRem := by
    intro he
    obtain ⟨hnone, hpos⟩ := hnew he
    rw [← h.rows] at hnone
    exact ⟨Option.map_eq_none_iff.mp hnone, Nat.pos_of_ne_zero hpos⟩
  obtain ⟨b', hb', hu⟩ := h.coherent.update (s := s) htype hfresh r.p r.q
  have hrow : r.execType = .new ∨ (b.remaining r.combinedId).isSome := by
    rw [h.rows]
    exact or_iff_not_imp_left.mpr hold
  have hself := update_row hside htype hrow (fun he => (hnew he).2) hb'
  rw [hs]
  refine ⟨b', hb', hu.coherent, funext fun id => ?_⟩
  by_cases hid : id = r.combinedId
  · rw [hid, Function.update_self, hself]
  · rw [Function.update_of_ne hid, ← h.rows]
    unfold L3Book.remaining
    rw [hu.others id hid]

/-- The trades of a match, or some of them. -/
theorem Exact.trades {rs : List OrderResponse} (ht : TradeStream x rs x') : ∀ {b : L3Book}, Exact x b →
    ∃ b', b.redo rs = .ok b' ∧ Exact x' b' := by
  induction ht with
  | nil x => exact fun {b} h => ⟨b, rfl, h⟩
  | @cons x x' r rs hr _ ih =>
    intro b h
    obtain ⟨s, hs⟩ := hr.side
    have htype : r.execType ≠ .rejected ∧ r.execType ≠ .new := by
      rcases isTrade_iff.mp hr.traded.1 with he | he <;> rw [he] <;> decide
    obtain ⟨b₁, hb₁, h₁⟩ := h.update hs htype.1 (fun he => absurd he htype.2) fun _ => by
      rw [hr.row]
      rfl
    rw [← hr.next_eq] at h₁
    obtain ⟨b', hb', h'⟩ := ih h₁
    exact ⟨b', (redo_cons hb₁ rs).trans hb', h'⟩

end Records

/-! ## Part of a request -/

/-- The server has the orders that the request leaves behind, unless the next record is one of a
trade. -/
def Complete (x' : Remaining) (rest : List OrderResponse) (b : L3Book) : Prop :=
  b.remaining = x' ↔ ∀ r, rest.head? = some r → ¬ r.Traded

section Requests

variable {c : Config} {gen : Nat → Nat} {a : Lob} {req : OrderRequest} {ans : Answer} {b : L3Book}
  {pre rest : List OrderResponse}

/-- The server has them all at the end. -/
theorem Exact.complete {x' : Remaining} (h : Exact x' b) : Complete x' [] b :=
  ⟨fun _ _ hr => (Option.some_ne_none _ hr.symm).elim, fun _ => h.rows⟩

/-- The only record of a request. -/
theorem Exact.single {x' : Remaining} {r : OrderResponse} {b₁ : L3Book} (h₁ : Exact x' b₁)
    (hb₁ : b.update r.execType r.combinedId r.side r.p r.q r.qRem = .ok b₁) (hne : pre ≠ [])
    (hrecs : [r] = pre ++ rest) : ∃ b', b.redo pre = .ok b' ∧ Coherent b' ∧ Complete x' rest b' := by
  rcases List.append_eq_singleton_iff.mp hrecs.symm with ⟨rfl, -⟩ | ⟨rfl, rfl⟩
  · exact absurd rfl hne
  · exact ⟨b₁, redo_cons hb₁ [], h₁.coherent, h₁.complete⟩

/-- An acknowledgement, and trades behind it. -/
theorem Exact.crossing {x x' : Remaining} {r : OrderResponse} {rs : List OrderResponse} {b₁ : L3Book}
    (h₁ : Exact x b₁) (hb₁ : b.update r.execType r.combinedId r.side r.p r.q r.qRem = .ok b₁)
    (ht : TradeStream x rs x') (hne : pre ≠ []) (hrecs : r :: rs = pre ++ rest) :
    ∃ b', b.redo pre = .ok b' ∧ Coherent b' ∧ Complete x' rest b' := by
  rcases List.cons_eq_append_iff.mp hrecs with ⟨rfl, -⟩ | ⟨pre', rfl, rfl⟩
  · exact absurd rfl hne
  · obtain ⟨y, hy, hrest⟩ := ht.split
    obtain ⟨b', hb', h'⟩ := Exact.trades hy h₁
    refine ⟨b', (redo_cons hb₁ pre').trans hb', h'.coherent, ?_⟩
    cases rest with
    | nil =>
      cases hrest
      exact h'.complete
    | cons z zs =>
      refine ⟨fun hsame => ?_, fun hnone => ?_⟩
      · exact absurd (hsame.symm.trans h'.rows) hrest.ne
      · cases hrest with
        | cons hz _ => exact absurd hz.traded (hnone z rfl)

/-- Some records of a request, the first among them. -/
theorem Exact.part (h : Exact a.remaining b) (hok : a.Ok c) (hwf : WellFormed c a req)
    (hout : Lob.Outcome c gen a req ans) (hrecs : ans.recs = pre ++ rest) (hne : pre ≠ []) :
    ∃ b', b.redo pre = .ok b' ∧ Coherent b' ∧ Complete ans.lob.remaining rest b' := by
  obtain ⟨s, hs⟩ := hwf.side
  have hd := Lob.Distinct.of_ok hok
  have hside : req.side ≠ .none := by
    rw [hs]
    cases s <;> decide
  have hreplaced : ∀ {o : Order} {s'} (target newQty : Nat), o ∈ a s' → o.orderId = req.combinedId →
      ∃ b₁, b.update .replaced (Lob.replaceRecord c req o target newQty).combinedId req.side
          (c.plToPrice target) newQty (newQty - o.executed) = .ok b₁ ∧
        Exact (Function.update a.remaining o.orderId
          (if newQty - o.executed = 0 then none else some (newQty - o.executed))) b₁ := by
    intro o s' target newQty ho hid
    have hcombined : (Lob.replaceRecord c req o target newQty).combinedId = o.orderId := by
      rw [hid]
      exact c.response_combinedId _ _ _ _ _ _ _ req.combinedId_lt
    have hupdate := h.update (r := Lob.replaceRecord c req o target newQty) hs ExecType.noConfusion
      (fun he => by cases he) fun _ => by
        rw [hcombined, hd.remaining_mem ho]
        rfl
    rw [hcombined] at hupdate ⊢
    exact hupdate
  cases hout with
  | rejected qRem code => exact Exact.single h (update_rejected hside ..) hne hrecs
  | entered _ hnone _ _ hq _ =>
    have hcombined : (Lob.newRecord c req).combinedId = req.combinedId :=
      c.response_combinedId _ _ _ _ _ _ _ req.combinedId_lt
    have hz : req.q ≠ 0 := Nat.one_le_iff_ne_zero.mp hq
    obtain ⟨b₁, hb₁, h₁⟩ := h.update (r := Lob.newRecord c req) hs ExecType.noConfusion
      (fun _ => ⟨by rw [hcombined]; exact Lob.rows_none fun s o ho => Lob.find_eq_none hnone ho, hz⟩)
      (fun he => absurd rfl he)
    rw [hcombined] at h₁
    exact Exact.crossing h₁ hb₁ ((Lob.Taking.of_new hok hnone).trades gen hok.positive) hne hrecs
  | @cancelled s' o _ hfind =>
    obtain ⟨ho, -⟩ := Lob.mem_of_find hfind
    have hcombined : (Lob.cancelRecord c req o).combinedId = o.orderId :=
      c.response_combinedId _ _ _ _ _ _ _ (hok.sane ho).id
    obtain ⟨b₁, hb₁, h₁⟩ := h.update (r := Lob.cancelRecord c req o) hs ExecType.noConfusion
      (fun he => by cases he) fun _ => by
        rw [hcombined, hd.remaining_mem ho]
        rfl
    rw [hcombined] at h₁
    rw [hd.remaining_remove]
    exact Exact.single h₁ hb₁ hne hrecs
  | @kept s' o _ hfind _ _ _ _ hqty =>
    obtain ⟨ho, hid⟩ := Lob.mem_of_find hfind
    obtain ⟨b₁, hb₁, h₁⟩ := hreplaced (req.target c o) (req.newQty o) ho hid
    have hpos := (hok.sane ho).pos
    have hle := (hok.sane ho).le
    have hleft : req.newQty o - o.executed = o.qtyRemaining := by
      rw [hqty]
      unfold Order.executed
      omega
    have hsame : Function.update a.remaining o.orderId
        (if req.newQty o - o.executed = 0 then none else some (req.newQty o - o.executed)) =
        a.remaining := by
      rw [hleft, if_neg (Nat.ne_of_gt hpos), ← hd.remaining_mem ho, Function.update_eq_self]
    rw [hsame] at h₁
    exact Exact.single h₁ hb₁ hne hrecs
  | @finished s' o _ hfind _ _ hexec _ =>
    obtain ⟨ho, hid⟩ := Lob.mem_of_find hfind
    obtain ⟨b₁, hb₁, h₁⟩ := hreplaced (req.target c o) (req.newQty o) ho hid
    rw [hexec, Nat.sub_self, if_pos rfl, ← hd.remaining_remove] at h₁
    rcases List.cons_eq_append_iff.mp hrecs with ⟨rfl, -⟩ | ⟨pre', rfl, hpre'⟩
    · exact absurd rfl hne
    rcases List.append_eq_singleton_iff.mp hpre'.symm with ⟨rfl, rfl⟩ | ⟨rfl, rfl⟩
    · -- the closing fill is missing
      refine ⟨b₁, redo_cons hb₁ [], h₁.coherent, fun _ r hr => ?_, fun _ => h₁.rows⟩
      obtain rfl := Option.some.inj hr
      exact fun htraded => htraded.2 rfl
    · have hcombined : (Lob.finishRecord c req (req.target c o)).combinedId = o.orderId := by
        rw [hid]
        exact c.response_combinedId _ _ _ _ _ _ _ req.combinedId_lt
      have habsent : b₁.orders.lookup (Lob.finishRecord c req (req.target c o)).combinedId = none := by
        have hrow := congrFun h₁.rows o.orderId
        rw [hd.remaining_remove, Function.update_self] at hrow
        rw [hcombined]
        exact Option.map_eq_none_iff.mp hrow
      have hskip : b₁.redo [Lob.finishRecord c req (req.target c o)] = .ok b₁ :=
        redo_cons (update_absent hside ExecType.noConfusion habsent ..) []
      exact ⟨b₁, (redo_cons hb₁ _).trans hskip, h₁.coherent, h₁.complete⟩
  | @requeued s' o _ hfind _ _ hexec _ =>
    obtain ⟨ho, hid⟩ := Lob.mem_of_find hfind
    obtain ⟨b₁, hb₁, h₁⟩ := hreplaced (req.target c o) (req.newQty o) ho hid
    have hrows : Function.update a.remaining o.orderId
        (if req.newQty o - o.executed = 0 then none else some (req.newQty o - o.executed)) =
        (a.remove o.orderId).withTaker (o.resized (req.newQty o)) := by
      have hmoved : (o.resized (req.newQty o)).orderId = o.orderId := rfl
      unfold Lob.withTaker
      rw [hmoved, hd.remaining_remove, Function.update_idem]
      rfl
    rw [hrows] at h₁
    exact Exact.crossing h₁ hb₁ ((Lob.Taking.of_replaced hok ho _).trades gen (hok.positive.remove _)) hne
      hrecs
  | @shrunk s' o _ hfind _ _ hexec _ _ =>
    obtain ⟨ho, hid⟩ := Lob.mem_of_find hfind
    obtain ⟨b₁, hb₁, h₁⟩ := hreplaced (req.target c o) (req.newQty o) ho hid
    rw [if_neg (by omega), ← hd.remaining_resize ho (req.newQty o)] at h₁
    exact Exact.single h₁ hb₁ hne hrecs

end Requests

/-! ## All books -/

/-- Each book gets its own records. -/
theorem Server.restore_books {B : UInt32 → L3Book} : ∀ (rs : List OrderResponse) {s : Server},
    (∀ sid, (s.getOrCreateBook sid).book.redo (MatchingEngine.recordsOf sid rs) = .ok (B sid)) →
      ∃ srv', s.restore rs = .ok srv' ∧ ∀ sid, (srv'.getOrCreateBook sid).book = B sid
  | [], srv, h => ⟨srv, rfl, fun sid => Except.ok.inj (h sid)⟩
  | r :: rs, srv, h => by
    have hself := h r.symbolId
    unfold MatchingEngine.recordsOf L3Book.redo at hself
    rw [List.filter_cons_of_pos (by simp), List.foldlM_cons] at hself
    obtain ⟨b₁, hb₁, hrest⟩ := Lib.bind_ok hself
    obtain ⟨srv', hrun, hbooks⟩ := Server.restore_books (B := B) rs (s := srv.insert r.symbolId
      { srv.getOrCreateBook r.symbolId with
        book := b₁
        mdSeqNum := (srv.getOrCreateBook r.symbolId).mdSeqNum + 1 }) fun sid => by
      by_cases hsid : sid = r.symbolId
      · subst hsid
        rw [getOrCreateBook_self]
        exact hrest
      · rw [getOrCreateBook_ne srv hsid]
        have hother := h sid
        unfold MatchingEngine.recordsOf at hother
        rw [List.filter_cons_of_neg (by simpa using fun e => hsid e.symm)] at hother
        exact hother
    refine ⟨srv', ?_, hbooks⟩
    unfold Server.restore MDOrderBook.update
    rw [List.foldlM_cons, hb₁]
    exact hrun

/-- What is left of the orders does not depend on the fields that replay does not restore. -/
theorem remaining_strip {a a' : Lob} (h : a'.strip = a.strip) : a'.remaining = a.remaining := by
  funext id
  unfold Lob.remaining Lob.rows
  cases hfind : a.find id with
  | none => rw [Lob.find_none_strip h hfind]
  | some so =>
    obtain ⟨o', hfind', ho'⟩ := Lob.find_strip h hfind
    rw [hfind']
    have hqty : o'.strip.qtyRemaining = so.2.strip.qtyRemaining := congrArg Order.qtyRemaining ho'
    exact congrArg some hqty

/-- The server and the engine have the same orders, with the same quantities left. -/
def Agrees (srv : Server) (e : MatchingEngine) : Prop :=
  ∀ sid, (srv.getOrCreateBook sid).book.remaining = e.remaining sid

open MatchingEngine in
/-- Both recoveries, book by book. -/
theorem recoveries {cfgs : List Config} {rs : List OrderResponse} {a : UInt32 → Lob}
    (hserved : ∀ {sid b}, (create cfgs id).books.lookup sid = some b →
      Follows (configOf cfgs sid) (fun _ => []) (recordsOf sid rs) (a sid) ∧
        ∃ l, L3Book.empty.redo (recordsOf sid rs) = .ok l)
    (hunserved : ∀ sid, (create cfgs id).books.lookup sid = none → recordsOf sid rs = [])
    (gen : Nat → Nat) : ∃ srv e, Server.restore ∅ rs = .ok srv ∧ (create cfgs gen).replay rs = some e ∧
      (Agrees srv e ↔ ∀ sid b l, (create cfgs id).books.lookup sid = some b →
        L3Book.empty.redo (recordsOf sid rs) = .ok l → l.remaining = (a sid).remaining) := by
  have hredo : ∀ sid, ∃ l, L3Book.empty.redo (recordsOf sid rs) = .ok l := by
    intro sid
    cases hb : (create cfgs id).books.lookup sid with
    | some b => exact (hserved hb).2
    | none =>
      rw [hunserved sid hb]
      exact ⟨.empty, rfl⟩
  choose B hB using hredo
  -- a symbol that is not served has no records
  let a' : UInt32 → Lob := fun sid => ((create cfgs id).books.lookup sid).elim (fun _ => []) fun _ => a sid
  have ha : ∀ {sid b}, (create cfgs id).books.lookup sid = some b → a' sid = a sid := by
    intro sid b hb
    show ((create cfgs id).books.lookup sid).elim _ _ = _
    rw [hb]
    rfl
  have hreads : (create cfgs gen).Reads (configOf cfgs) fun _ _ => [] := by
    intro sid b hb
    rw [configOf_eq hb]
    exact rebuilt_fresh _ _
  obtain ⟨e, hreplay, hreads', hkeys⟩ := replay_books a' rs hreads fun sid => by
    cases hb : (create cfgs id).books.lookup sid with
    | some b =>
      rw [ha hb]
      exact (hserved hb).1
    | none =>
      have hnil : a' sid = fun _ => [] := by
        show ((create cfgs id).books.lookup sid).elim _ _ = _
        rw [hb]
        rfl
      rw [hunserved sid hb, hnil]
      exact .nil _
  obtain ⟨srv, hrestore, hbooks⟩ := Server.restore_books (B := B) rs (s := ∅) hB
  refine ⟨srv, e, hrestore, hreplay, forall_congr' fun sid => ?_⟩
  rw [hbooks]
  cases hb : (create cfgs id).books.lookup sid with
  | some b =>
    have hsome := hkeys sid
    rw [show (create cfgs gen).books.lookup sid = some b from hb] at hsome
    obtain ⟨b', hb'⟩ := Option.isSome_iff_exists.mp hsome
    have hlob := (hreads' hb').lob
    rw [ha hb] at hlob
    rw [remaining_of hb', remaining_strip hlob]
    refine ⟨fun h _ l _ hl => ?_, fun h => h b (B sid) rfl (hB sid)⟩
    rw [← Except.ok.inj ((hB sid).symm.trans hl)]
    exact h
  | none =>
    have hnone : e.books.lookup sid = none := by
      have hsome := hkeys sid
      rw [show (create cfgs gen).books.lookup sid = none from hb] at hsome
      exact Option.not_isSome_iff_eq_none.mp (by rw [hsome]; exact Bool.false_ne_true)
    have hempty : B sid = .empty := by
      have hrun := hB sid
      rw [hunserved sid hb] at hrun
      exact (Except.ok.inj hrun).symm
    refine ⟨fun _ b l hb' => (Option.some_ne_none _ hb'.symm).elim, fun _ => ?_⟩
    unfold MatchingEngine.remaining
    rw [hempty, hnone]
    rfl

open MatchingEngine in
/-- Both recoveries have got to the engine. -/
structure Recovered (cfgs : List Config) (e : MatchingEngine) (rs : List OrderResponse) : Prop where
  keys : ∀ sid, (e.books.lookup sid).isSome = ((create cfgs id).books.lookup sid).isSome
  cfg : ∀ {sid b}, e.books.lookup sid = some b → b.cfg = configOf cfgs sid
  follows : ∀ {sid b}, e.books.lookup sid = some b →
    Follows (configOf cfgs sid) (fun _ => []) (recordsOf sid rs) b.lob
  exact : ∀ {sid b}, e.books.lookup sid = some b →
    ∃ l, L3Book.empty.redo (recordsOf sid rs) = .ok l ∧ Exact b.lob.remaining l
  unserved : ∀ sid, e.books.lookup sid = none → recordsOf sid rs = []

/-- Redoing two stretches of records. -/
theorem redo_append {b b₁ : L3Book} {rs : List OrderResponse} (h : b.redo rs = .ok b₁)
    (rs' : List OrderResponse) : b.redo (rs ++ rs') = b₁.redo rs' := by
  unfold L3Book.redo at *
  rw [List.foldlM_append, h]
  rfl

section Runs

open MatchingEngine

variable {cfgs : List Config} {e e' : MatchingEngine} {out new : List Emission} {req : OrderRequest}
  {rs pre rest : List OrderResponse}

/-- Some records of a request, the first among them, behind those of the requests before it. -/
theorem Recovered.part (h : Recovered cfgs e rs) (hsound : e.Sound cfgs) (hK : LimitOnly req)
    (hreq : e.Accepts req) {b : OrderBook} (hsym : e.books.lookup req.symbolId = some b)
    (hrecs : (b.lob.step b.cfg e.gen req).recs = pre ++ rest) (hne : pre ≠ []) :
    (∀ k, k ≠ req.symbolId → recordsOf k (rs ++ pre) = recordsOf k rs) ∧
      Follows (configOf cfgs req.symbolId) (fun _ => []) (recordsOf req.symbolId (rs ++ pre))
        (b.lob.step b.cfg e.gen req).lob ∧
      ∃ l, L3Book.empty.redo (recordsOf req.symbolId (rs ++ pre)) = .ok l ∧ Coherent l ∧
        Complete (b.lob.step b.cfg e.gen req).lob.remaining rest l := by
  have hok := hsound.ok hsym
  have hout := Lob.step_outcome b.cfg e.gen b.lob req
  have hsymbols : ∀ r ∈ pre, r.symbolId = req.symbolId := by
    intro r hr
    exact (hout.symbol r (hrecs ▸ List.mem_append_left rest hr)).trans (hsound.cfg hsym).2
  obtain ⟨l, hl, hexact⟩ := h.exact hsym
  obtain ⟨l', hl', hcoherent, hcomplete⟩ := hexact.part hok (hreq b hsym) hout hrecs hne
  refine ⟨fun k hk => ?_, ?_, l', ?_, hcoherent, hcomplete⟩
  · rw [recordsOf_append, recordsOf_other hk hsymbols, List.append_nil]
  · have hprice : PricelessMarket req := fun hact htype => absurd htype (hK hact)
    obtain ⟨ack, tail, hack, hrestores, hskip⟩ := hout.restores hok hprice (hreq b hsym)
    rw [recordsOf_append, recordsOf_self hsymbols, ← h.cfg hsym]
    refine ((h.cfg hsym).symm ▸ h.follows hsym).append ?_
    -- the first record brings it about, and those behind it are skipped
    rw [hack] at hrecs
    rcases List.cons_eq_append_iff.mp hrecs with ⟨rfl, -⟩ | ⟨pre', rfl, rfl⟩
    · exact absurd rfl hne
    · exact .cons hrestores (.skip _ fun r hr => hskip r (List.mem_append_left rest hr))
  · rw [recordsOf_append, recordsOf_self hsymbols, redo_append hl]
    exact hl'

/-- One request: the market data of the journal follows the books. -/
theorem Recovered.step (h : Recovered cfgs e rs) (hsound : e.Sound cfgs) (hK : LimitOnly req)
    (hreq : e.Accepts req) (hrun : e.pollServer req = some (e', new)) :
    Recovered cfgs e' (rs ++ new.map (·.resp)) := by
  have hsound' := hsound.serves hreq
  obtain ⟨_, _, hrun', -, hsound'⟩ := hsound'
  obtain ⟨rfl, -⟩ := Prod.mk.inj (Option.some.inj (hrun.symm.trans hrun'))
  cases hsound.stepped hreq hrun with
  | unserved _ =>
    rw [List.map_nil, List.append_nil]
    exact h
  | @served b b' gen new hsym hcfg hlob hnew =>
    have hrecs : (b.lob.step b.cfg e.gen req).recs = new.map (·.resp) ++ [] := by
      rw [List.append_nil, hnew]
    have hne : new.map (·.resp) ≠ [] := by
      obtain ⟨ack, tail, hack, -⟩ := (Lob.step_outcome b.cfg e.gen b.lob req).acknowledged
      rw [hnew, hack]
      exact List.cons_ne_nil _ _
    obtain ⟨hothers, hfollows, l, hl, hcoherent, hcomplete⟩ := h.part hsound hK hreq hsym hrecs hne
    have hrows := hcomplete.mpr fun r hr => (Option.some_ne_none _ hr.symm).elim
    rw [← hlob] at hfollows hrows
    refine ⟨fun sid => ?_, ?_, ?_, ?_, fun sid hnone => ?_⟩
    · rw [← h.keys]
      by_cases hs : sid = req.symbolId
      · rw [hs, AList.lookup_insert, hsym]
        rfl
      · rw [AList.lookup_insert_ne hs]
    · exact lookup_insert_rec (P := fun sid x => x.cfg = configOf cfgs sid) (hcfg.trans (h.cfg hsym))
        fun sid x _ hx => h.cfg hx
    · exact lookup_insert_rec (P := fun sid x => Follows (configOf cfgs sid) (fun _ => [])
        (recordsOf sid (rs ++ new.map (·.resp))) x.lob) hfollows fun sid x hs hx => by
          rw [hothers sid hs]
          exact h.follows hx
    · exact lookup_insert_rec (P := fun sid x => ∃ l,
        L3Book.empty.redo (recordsOf sid (rs ++ new.map (·.resp))) = .ok l ∧ Exact x.lob.remaining l)
        ⟨l, hl, hcoherent, hrows⟩ fun sid x hs hx => by
          rw [hothers sid hs]
          exact h.exact hx
    · have hs : sid ≠ req.symbolId := by
        rintro rfl
        rw [AList.lookup_insert] at hnone
        cases hnone
      rw [AList.lookup_insert_ne hs] at hnone
      rw [hothers sid hs]
      exact h.unserved sid hnone

theorem recovered (h : Run LimitOnly cfgs e out) : Recovered cfgs e (out.map (·.resp)) := by
  induction h with
  | create gen =>
    refine ⟨fun _ => rfl, fun hb => ?_, fun hb => ?_, fun hb => ⟨.empty, rfl, ?_⟩, fun _ _ => rfl⟩
    · rw [configOf_eq hb]
      rfl
    · rw [configOf_eq hb, fresh_lob]
      exact .nil _
    · rw [configOf_eq hb, fresh_lob]
      exact exact_empty
  | step hr hK hreq hrun ih =>
    rw [List.map_append]
    exact ih.step hr.sound hK hreq hrun

/-- The orders of the books. -/
def lobs (e : MatchingEngine) (sid : UInt32) : Lob :=
  (e.books.lookup sid).elim (fun _ => []) (·.lob)

/-- The book of a symbol, as the engine has it. -/
theorem lobs_of {sid : UInt32} {b : OrderBook} (h : e.books.lookup sid = some b) : lobs e sid = b.lob := by
  unfold lobs
  rw [h]
  rfl

theorem Recovered.served (h : Recovered cfgs e rs) {sid : UInt32} {b : OrderBook}
    (hb : (create cfgs id).books.lookup sid = some b) : ∃ b', e.books.lookup sid = some b' := by
  have hsome := h.keys sid
  rw [hb] at hsome
  exact Option.isSome_iff_exists.mp hsome

theorem Recovered.none (h : Recovered cfgs e rs) {sid : UInt32}
    (hb : (create cfgs id).books.lookup sid = none) : e.books.lookup sid = none := by
  have hsome := h.keys sid
  rw [hb] at hsome
  exact Option.not_isSome_iff_eq_none.mp (by rw [hsome]; exact Bool.false_ne_true)

/-- Between two requests the recoveries agree. -/
theorem Recovered.agree (h : Recovered cfgs e rs) (gen : Nat → Nat) :
    ∃ srv e', Server.restore ∅ rs = .ok srv ∧ (create cfgs gen).replay rs = some e' ∧ Agrees srv e' := by
  obtain ⟨srv, e', hrestore, hreplay, hiff⟩ := recoveries (a := lobs e)
    (fun {sid b} hb => by
      obtain ⟨b', hb'⟩ := h.served hb
      obtain ⟨l, hl, -⟩ := h.exact hb'
      rw [lobs_of hb']
      exact ⟨h.follows hb', l, hl⟩)
    (fun sid hb => h.unserved sid (h.none hb)) gen
  refine ⟨srv, e', hrestore, hreplay, hiff.mpr fun sid b l hb hl => ?_⟩
  obtain ⟨b', hb'⟩ := h.served hb
  obtain ⟨l', hl', hexact⟩ := h.exact hb'
  rw [← Except.ok.inj (hl'.symm.trans hl), lobs_of hb']
  exact hexact.rows

/-- Inside a request they do, unless a trade is missing. -/
theorem Recovered.agree_part (h : Recovered cfgs e rs) (hsound : e.Sound cfgs) (hK : LimitOnly req)
    (hreq : e.Accepts req) {b : OrderBook} (hsym : e.books.lookup req.symbolId = some b)
    (hrecs : (b.lob.step b.cfg e.gen req).recs = pre ++ rest) (hne : pre ≠ []) (gen : Nat → Nat) :
    ∃ srv e', Server.restore ∅ (rs ++ pre) = .ok srv ∧ (create cfgs gen).replay (rs ++ pre) = some e' ∧
      (Agrees srv e' ↔ ∀ r, rest.head? = some r → ¬ r.Traded) := by
  obtain ⟨hothers, hfollows, l, hl, -, hcomplete⟩ := h.part hsound hK hreq hsym hrecs hne
  have hserved : ∀ {sid b₁}, (create cfgs id).books.lookup sid = some b₁ →
      Follows (configOf cfgs sid) (fun _ => []) (recordsOf sid (rs ++ pre))
        (Function.update (lobs e) req.symbolId (b.lob.step b.cfg e.gen req).lob sid) ∧
      ∃ l, L3Book.empty.redo (recordsOf sid (rs ++ pre)) = .ok l := by
    intro sid b₁ hb₁
    by_cases hs : sid = req.symbolId
    · rw [hs, Function.update_self]
      exact ⟨hfollows, l, hl⟩
    · obtain ⟨b', hb'⟩ := h.served hb₁
      obtain ⟨l', hl', -⟩ := h.exact hb'
      rw [hothers sid hs, Function.update_of_ne hs, lobs_of hb']
      exact ⟨h.follows hb', l', hl'⟩
  obtain ⟨srv, e', hrestore, hreplay, hiff⟩ := recoveries hserved
    (fun sid hb => by
      have hnone := h.none hb
      rw [hothers sid (fun hs => by rw [hs, hsym] at hnone; cases hnone)]
      exact h.unserved sid hnone) gen
  refine ⟨srv, e', hrestore, hreplay, hiff.trans ⟨fun hall => hcomplete.mp ?_, fun hnext sid b₁ l' hb₁ hl' => ?_⟩⟩
  · obtain ⟨b₁, hb₁⟩ : ∃ b₁, (create cfgs id).books.lookup req.symbolId = some b₁ := by
      have hsome := h.keys req.symbolId
      rw [hsym] at hsome
      exact Option.isSome_iff_exists.mp hsome.symm
    have hrows := hall req.symbolId b₁ l hb₁ hl
    rw [Function.update_self] at hrows
    exact hrows
  · by_cases hs : sid = req.symbolId
    · subst hs
      rw [Function.update_self, ← Except.ok.inj (hl.symm.trans hl')]
      exact hcomplete.mpr hnext
    · obtain ⟨b', hb'⟩ := h.served hb₁
      obtain ⟨l₁, hl₁, hexact⟩ := h.exact hb'
      rw [hothers sid hs] at hl'
      rw [Function.update_of_ne hs, lobs_of hb', ← Except.ok.inj (hl₁.symm.trans hl')]
      exact hexact.rows

/-- The records of a request begin with its acknowledgement. -/
theorem not_traded_head (hsound : e.Sound cfgs) (hreq : e.Accepts req)
    (hrun : e.pollServer req = some (e', new)) {r : OrderResponse}
    (hr : (new.map (·.resp)).head? = some r) : ¬ r.Traded := by
  cases hsound.stepped hreq hrun with
  | unserved _ => cases hr
  | @served b b' gen new hsym _ _ hnew =>
    obtain ⟨ack, tail, hack, htraded⟩ := (Lob.step_outcome b.cfg e.gen b.lob req).acknowledged
    rw [hnew, hack] at hr
    rw [← Option.some.inj hr]
    exact htraded

/-- The journal breaks off between `rs` and `rest`: the two recoveries agree if the first record
that is missing is not one of a trade. -/
theorem restores_agree_iff (h : Run LimitOnly cfgs e out) (hjournal : out.map (·.resp) = rs ++ rest)
    (gen : Nat → Nat) : ∃ srv e', Server.restore ∅ rs = .ok srv ∧
      (create cfgs gen).replay rs = some e' ∧ (Agrees srv e' ↔ ∀ r, rest.head? = some r → ¬ r.Traded) := by
  induction h generalizing rest with
  | create gen' =>
    obtain ⟨rfl, rfl⟩ := List.append_eq_nil_iff.mp hjournal.symm
    obtain ⟨srv, e', hrestore, hreplay, hagree⟩ := (recovered (Run.create gen')).agree gen
    exact ⟨srv, e', hrestore, hreplay, fun _ r hr => (Option.some_ne_none _ hr.symm).elim, fun _ => hagree⟩
  | @step e e' out new req hr hK hreq hrun ih =>
    rw [List.map_append] at hjournal
    -- the requests before this one are complete, and of this one there is nothing
    have hbetween : rs = out.map (·.resp) → rest = new.map (·.resp) →
        ∃ srv e', Server.restore ∅ rs = .ok srv ∧ (create cfgs gen).replay rs = some e' ∧
          (Agrees srv e' ↔ ∀ r, rest.head? = some r → ¬ r.Traded) := by
      intro hrs hrest
      obtain ⟨srv, e', hrestore, hreplay, hagree⟩ := (recovered hr).agree gen
      rw [hrs, hrest]
      exact ⟨srv, e', hrestore, hreplay, fun _ r => not_traded_head hr.sound hreq hrun, fun _ => hagree⟩
    rcases List.append_eq_append_iff.mp hjournal with ⟨pre, hrs, hnew⟩ | ⟨late, hout, hrest⟩
    · cases pre with
      | nil => exact hbetween (hrs.trans (List.append_nil _)) hnew.symm
      | cons r pre =>
        cases hr.sound.stepped hreq hrun with
        | unserved _ => cases hnew
        | @served b b' gen' new hsym _ _ hrecs =>
          rw [hrs]
          exact (recovered hr).agree_part hr.sound hK hreq hsym (hrecs.symm.trans hnew)
            (List.cons_ne_nil r pre) gen
    · cases late with
      | nil => exact hbetween (hout.trans (List.append_nil _)).symm hrest
      | cons r late =>
        obtain ⟨srv, e', hrestore, hreplay, hiff⟩ := ih hout
        rw [hrest]
        exact ⟨srv, e', hrestore, hreplay, hiff⟩

/-- The sample journal breaks off behind the third request. -/
theorem sample_agree : ∃ e out rs rest, Run LimitOnly [sampleConfig] e out ∧ out.map (·.resp) = rs ++ rest ∧
    rs.length = 3 ∧ rest.length = 6 ∧ ∃ srv e', Server.restore ∅ rs = .ok srv ∧
      (create [sampleConfig] id).replay rs = some e' ∧ Agrees srv e' := by
  obtain ⟨e, out, hrun, hP⟩ := Run.of_serve LimitOnly [sampleConfig] id sampleRequests
    (by unfold LimitOnly; decide)
    (fun r => r.2.length = 9 ∧ ∀ x ∈ ((r.2.map (·.resp)).drop 3).head?, ¬ x.Traded) (by decide +kernel)
  obtain ⟨hlen, hnext⟩ := of_decide_eq_true hP
  have hsplit : out.map (·.resp) = (out.map (·.resp)).take 3 ++ (out.map (·.resp)).drop 3 :=
    (List.take_append_drop _ _).symm
  obtain ⟨srv, e', hrestore, hreplay, hiff⟩ := restores_agree_iff hrun hsplit id
  refine ⟨e, out, _, _, hrun, hsplit, ?_, ?_, srv, e', hrestore, hreplay, hiff.mpr hnext⟩
  · rw [List.length_take, List.length_map, hlen]
    rfl
  · rw [List.length_drop, List.length_map, hlen]

/-- It breaks off behind the acknowledgement of the bid that takes the first offer. The engine has
the match, and the server has all four orders as they came. -/
theorem crossing_breaks_off : ∃ e out rs rest srv e', Run LimitOnly [sampleConfig] e out ∧
    out.map (·.resp) = rs ++ rest ∧ Server.restore ∅ rs = .ok srv ∧
    (create [sampleConfig] id).replay rs = some e' ∧
    (srv.getOrCreateBook 1).book.remaining 4294967298 = some 5 ∧ e'.remaining 1 4294967298 = some 3 ∧
    ¬ Agrees srv e' := by
  obtain ⟨e, out, hrun, hP⟩ := Run.of_serve LimitOnly [sampleConfig] id sampleRequests
    (by unfold LimitOnly; decide)
    (fun r => (Server.restore ∅ ((r.2.map (·.resp)).take 4)).toOption.map
        (fun srv => (srv.getOrCreateBook 1).book.remaining 4294967298) = some (some 5) ∧
      ((create [sampleConfig] id).replay ((r.2.map (·.resp)).take 4)).map
        (fun e' => e'.remaining 1 4294967298) = some (some 3)) (by decide +kernel)
  obtain ⟨hsrv, heng⟩ := of_decide_eq_true hP
  obtain ⟨e', hreplay, hrow'⟩ := Option.map_eq_some_iff.mp heng
  cases hrestore : Server.restore ∅ ((out.map (·.resp)).take 4) with
  | error msg =>
    rw [hrestore] at hsrv
    cases hsrv
  | ok srv =>
    rw [hrestore] at hsrv
    have hrow : (srv.getOrCreateBook 1).book.remaining 4294967298 = some 5 := Option.some.inj hsrv
    refine ⟨e, out, _, _, srv, e', hrun, (List.take_append_drop 4 _).symm, hrestore, hreplay, hrow, hrow', ?_⟩
    intro hagree
    have hsame := congrFun (hagree 1) 4294967298
    rw [hrow, hrow'] at hsame
    cases hsame

end Runs

end MarketData

end Exchange
