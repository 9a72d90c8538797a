import Exchange.Book.Grids
import Exchange.Book.Limits
import Exchange.Book.Stands
import Exchange.Client.MarketMaker
import Exchange.Client.OpenOrders

/-!
# The market maker does not trade with itself

`manage_orders` moves the orders of one side after those of the other, and its comment says why: the side
that the price comes towards has to be out of the way before the other follows.

`Market` is the book of the symbol, the market maker, and its requests on their way to the engine; well-formed
requests of others come in between them as they like. A cancel that does not bear the side of its order is not
well formed: nothing checks it, and the sides of the book are mixed up after it. A tick finds the open orders of
the account that has handled every record of the client, and nothing on its way.

Between two ticks the requests are in two parts (`Phase`): those of the side that goes first, and the
others. Orders of the second side are already where the new price wants them or farther from it; an order
of the first side is so too, or a request of the first part names it. So a request finds no order of the
market maker at a price that it reaches (`Fits.trades`), whatever else happens. There is room for both sides:
the lowest price is below the highest (`Setting.proper`). It rests on the market maker having no orders before
its first tick: `last_est_ticks_` is then 0, whatever the price was.
-/

namespace Exchange

open Gateway

/-- An order of this client. -/
def Order.Of (clientId : UInt32) (o : Order) : Prop := clientIdOf o.orderId = clientId

/-! ## Prices -/

namespace Slot

/-- Not nearer to the other side than `p`. -/
def Behind (s : Slot) (p x : Int) : Prop :=
  match s with
  | .bid => x ≤ p
  | .ask => p ≤ x

theorem Behind.trans {s : Slot} {p p' x : Int} (h : s.Behind p p') (h' : s.Behind p' x) : s.Behind p x := by
  cases s with
  | bid => exact le_trans (show x ≤ p' from h') (show p' ≤ p from h)
  | ask => exact le_trans (show p ≤ p' from h) (show p' ≤ x from h')

/-- A price that is `d` behind another. -/
def away (s : Slot) (p d : Int) : Int :=
  match s with
  | .bid => p - d
  | .ask => p + d

end Slot

namespace SelfCross

section Prices

variable {info : DbSymbolInfo} {s : Slot} {est est' : Int} {i : Nat} {p : Int}

/-- The price of the `i`-th order of a side. -/
def target (info : DbSymbolInfo) (s : Slot) (est : Int) (i : Nat) : Int :=
  max info.minPrice (min info.maxPrice (s.away est ((i + 1) * info.minStep)))

/-- The best of these prices. -/
def best (info : DbSymbolInfo) (s : Slot) (est : Int) : Int := target info s est 0

/-- What `est_ticks` is: a multiple of the step that is neither below the lowest price nor above the highest. -/
structure Estimate (info : DbSymbolInfo) (est : Int) : Prop where
  low : info.minPrice ≤ est
  high : est ≤ info.maxPrice
  step : info.minStep ∣ est

/-- A level away is at least one step away. -/
theorem step_le (h : info.Regular) (i : Nat) : info.minStep ≤ (i + 1) * info.minStep := by
  have hstep := h.step
  have hprod := Int.mul_le_mul_of_nonneg_right (show (1 : Int) ≤ (i : Int) + 1 by omega) hstep.le
  rw [Int.one_mul] at hprod
  exact hprod

/-- Every target is behind the best one. -/
theorem behind_target (h : info.Regular) (s : Slot) (est : Int) (i : Nat) :
    s.Behind (best info s est) (target info s est i) := by
  have hle := step_le h i
  unfold best target Slot.away Slot.Behind
  cases s with
  | bid =>
    dsimp only
    push_cast
    omega
  | ask =>
    dsimp only
    push_cast
    omega

/-- No bid is as high as an offer. -/
theorem best_apart (h : info.Regular) (hlt : info.minPrice < info.maxPrice) (hest : Estimate info est) :
    best info .bid est < best info .ask est := by
  have hstep := h.step
  have hlow := hest.low
  have hhigh := hest.high
  unfold best target Slot.away
  dsimp only
  push_cast
  omega

/-- Where the price goes, the orders of the side it leaves are behind. -/
theorem best_behind (hle : match s with | .bid => est ≤ est' | .ask => est' ≤ est) :
    s.Behind (best info s est') (best info s est) := by
  unfold best target Slot.away Slot.Behind
  cases s with
  | bid =>
    dsimp only at hle ⊢
    omega
  | ask =>
    dsimp only at hle ⊢
    omega

theorem target_bounds (h : info.Regular) (s : Slot) (est : Int) (i : Nat) :
    info.minPrice ≤ target info s est i ∧ target info s est i ≤ info.maxPrice := by
  have hle := h.le
  unfold target
  omega

theorem target_step (h : info.Regular) (hest : Estimate info est) (s : Slot) (i : Nat) :
    info.minStep ∣ target info s est i := by
  have haway : info.minStep ∣ s.away est ((i + 1) * info.minStep) := by
    cases s with
    | bid => exact Int.dvd_sub hest.step (Int.dvd_mul_left _ _)
    | ask => exact Int.dvd_add hest.step (Int.dvd_mul_left _ _)
  unfold target
  rcases max_choice info.minPrice (min info.maxPrice (s.away est ((i + 1) * info.minStep))) with hmax | hmax
  · rw [hmax]
    exact h.lowest
  · rw [hmax]
    rcases min_choice info.maxPrice (s.away est ((i + 1) * info.minStep)) with hmin | hmin
    · rw [hmin]
      exact h.highest
    · rw [hmin]
      exact haway

end Prices

/-! ## One request -/

/-- What the requests are for. -/
structure Setting where
  info : DbSymbolInfo
  c : Config
  clientId : UInt32
  regular : info.Regular
  proper : info.minPrice < info.maxPrice
  config : info.bookConfig c.symbolId = some c

/-- A request that puts no order where the other side may be. Ids up to `n` are in use. -/
structure Fits (S : Setting) (est : Int) (n : Nat) (a : Lob) (s : Slot) (req : OrderRequest) : Prop where
  clientId : req.clientId = S.clientId
  side : req.side = s.side
  type : req.type = .limit
  kind : (req.action = .cancel ∧ req.p = 0) ∨
    ((req.action = .new ∨ req.action = .modify) ∧ S.c.OnGrid req.p ∧ 0 < req.p ∧ s.Behind (best S.info s est) req.p)
  named : req.action ≠ .new → ∀ s' o, o ∈ a s' → o.orderId = req.combinedId → s' = s
  ids : if req.action = .new then n ≤ req.orderId.toNat else req.orderId.toNat < n

/-- The orders of the client on a side are where they should be. -/
def Clear (S : Setting) (est : Int) (a : Lob) (s : Slot) : Prop :=
  ∀ o ∈ a s, o.Of S.clientId → s.Behind (best S.info s est) (S.c.plToPrice o.level)

section Request

variable {S : Setting} {est : Int} {n : Nat} {a : Lob} {s s' : Slot} {req req' : OrderRequest} {gen : Nat → Nat}
  {o : Order}

/-- An order with the request's id is the maker's own. -/
theorem Fits.of (h : Fits S est n a s req) (hid : o.orderId = req.combinedId) : o.Of S.clientId := by
  unfold Order.Of
  rw [hid, ← h.clientId]
  exact clientIdOf_combined _ _

/-- What the maker sends is well formed. -/
theorem Fits.wellFormed (h : Fits S est n a s req) : WellFormed S.c a req := by
  refine ⟨⟨s, h.side⟩, fun hact s' o hfind => ?_, fun _ => Or.inl h.type, fun hp => ?_⟩
  · obtain ⟨ho, hid⟩ := Lob.mem_of_find hfind
    have hne : req.action ≠ .new := by
      rcases hact with hact | hact
      · rw [hact]
        decide
      · rw [hact]
        decide
    rw [h.named hne s' o ho hid]
    exact h.side
  · rcases h.kind with ⟨-, hzero⟩ | ⟨-, hgrid, -, -⟩
    · exact absurd hzero hp
    · exact hgrid

/-- The level that a request asks for has the price that it asks for. -/
theorem Fits.price (h : Fits S est n a s req) (hact : req.action ≠ .cancel) :
    S.c.plToPrice (S.c.priceToIndex req.p) = req.p ∧ 0 < req.p ∧ s.Behind (best S.info s est) req.p := by
  rcases h.kind with ⟨hcancel, -⟩ | ⟨-, ⟨i, hi, hp⟩, hpos, hbehind⟩
  · exact absurd hcancel hact
  · refine ⟨?_, hpos, hbehind⟩
    rw [hp, S.c.priceToIndex_plToPrice hi]

/-- A new order goes to its side and its price. -/
theorem Fits.entered (h : Fits S est n a s req) (hact : req.action = .new) :
    req.slot = s ∧ s.Behind (best S.info s est) (S.c.plToPrice (State.newIndex S.c req)) := by
  obtain ⟨hprice, -, hbehind⟩ := h.price (by rw [hact]; decide)
  refine ⟨OrderRequest.slot_of_side h.side, ?_⟩
  unfold State.newIndex
  rw [h.type, if_neg (by decide), hprice]
  exact hbehind

/-- A replacement asks for its price. -/
theorem Fits.moved (h : Fits S est n a s req) (hact : req.action = .modify) (x : Order) :
    s.Behind (best S.info s est) (S.c.plToPrice (req.target S.c x)) := by
  obtain ⟨hprice, hpos, hbehind⟩ := h.price (by rw [hact]; decide)
  unfold OrderRequest.target
  rw [if_pos hpos.ne', hprice]
  exact hbehind

/-- What a request reaches is not the client's. -/
theorem not_crossed (S : Setting) (hest : Estimate S.info est) {idx i : Nat}
    (hidx : s.Behind (best S.info s est) (S.c.plToPrice idx))
    (hi : s.flip.Behind (best S.info s.flip est) (S.c.plToPrice i)) : State.crossed s idx i = false := by
  have hapart := best_apart S.regular S.proper hest
  have hle : ∀ {j k : Nat}, S.c.plToPrice j < S.c.plToPrice k → ¬ k ≤ j := by
    intro j k hlt hkj
    exact absurd (S.c.plToPrice_le.mpr hkj) (not_le.mpr hlt)
  unfold State.crossed
  cases s with
  | bid =>
    have hbid : S.c.plToPrice idx ≤ best S.info .bid est := hidx
    have hask : best S.info .ask est ≤ S.c.plToPrice i := hi
    exact decide_eq_false (hle (by omega))
  | ask =>
    have hask : best S.info .ask est ≤ S.c.plToPrice idx := hidx
    have hbid : S.c.plToPrice i ≤ best S.info .bid est := hi
    exact decide_eq_false (hle (by omega))

/-- A request that is behind the best own price opposite trades with no own order. -/
theorem execute_trades (S : Setting) (hest : Estimate S.info est) (hclear : Clear S est a s.flip) {t : Order}
    {idx : Nat} (hidx : s.Behind (best S.info s est) (S.c.plToPrice idx)) (ht : t.orderId = req.combinedId) :
    ∀ r ∈ (a.execute S.c gen s t idx).recs, r.clientId = S.clientId → r.combinedId = req.combinedId := by
  intro r hr hclient
  obtain ⟨f, hf, -, hends⟩ := mem_tradeRecords (show r ∈ tradeRecords S.c t.orderId s gen _ from hr)
  rcases hends with ⟨-, hid, hc⟩ | ⟨-, -, hc⟩
  · unfold OrderResponse.combinedId
    rw [hid, hc, combinedOrderId_parts (ht ▸ req.combinedId_lt), ht]
  · have hcrossed := sweep_fills_crossed _ _ hf
    have hbehind := hclear f.maker (mem_sweep_fills _ _ hf) (hc.symm.trans hclient)
    rw [not_crossed S hest hidx hbehind] at hcrossed
    cases hcrossed

/-- If the client's orders on the other side are where they should be, a request trades with none of them. -/
theorem Fits.trades (h : Fits S est n a s req) (hest : Estimate S.info est)
    (hclear : Clear S est a s.flip) : ∀ r ∈ (a.step S.c gen req).recs, r.isTrade = true →
      r.clientId = S.clientId → r.combinedId = req.combinedId := by
  intro r hr htrade hclient
  have hout := Lob.step_outcome S.c gen a req
  generalize a.step S.c gen req = ans at hr hout
  have hown : ∀ {t : ExecType} {execId : Nat} {side : Side} {p : Int} {q qRem : Nat} {code : RejectCode},
      r = S.c.response t req.combinedId execId side p q qRem code → r.combinedId = req.combinedId := by
    rintro t execId side p q qRem code rfl
    exact S.c.response_combinedId _ _ _ _ _ _ _ req.combinedId_lt
  cases hout with
  | rejected qRem code => exact hown (List.mem_singleton.mp hr)
  | entered hact _ _ _ _ _ =>
    rcases List.mem_cons.mp hr with hr | hr
    · exact hown hr
    · obtain ⟨rfl, hidx⟩ := h.entered hact
      exact execute_trades S hest hclear hidx rfl r hr hclient
  | @cancelled s' x _ hfind =>
    have hr := List.mem_singleton.mp hr
    unfold Lob.cancelRecord at hr
    rw [(Lob.mem_of_find hfind).2] at hr
    exact hown hr
  | kept => exact hown (List.mem_singleton.mp hr)
  | finished =>
    rcases List.mem_cons.mp hr with hr | hr
    · exact hown hr
    · exact hown (List.mem_singleton.mp hr)
  | @requeued s' x hact hfind _ _ _ _ =>
    rcases List.mem_cons.mp hr with hr | hr
    · exact hown hr
    · obtain ⟨hx, hid⟩ := Lob.mem_of_find hfind
      obtain rfl := h.named (by rw [hact]; decide) s' x hx hid
      refine execute_trades S hest (fun o ho => ?_) (t := x.resized _) (h.moved hact x) hid r hr hclient
      exact hclear o (Lob.mem_remove.mp ho).1
  | shrunk => exact hown (List.mem_singleton.mp hr)

/-- The orders of the client after its request: those that were there, and its own where it should be. -/
theorem Fits.stands (h : Fits S est n a s req) (hok : a.Ok S.c) (ho : o ∈ (a.step S.c gen req).lob s') :
    (∃ x ∈ a s', o.orderId = x.orderId ∧ o.level = x.level ∧ o.qtyOriginal = x.qtyOriginal) ∨
      (s' = s ∧ o.orderId = req.combinedId ∧ s.Behind (best S.info s est) (S.c.plToPrice o.level) ∧
        (req.action = .new ∨
          req.action = .modify ∧ ∃ x ∈ a s, x.orderId = req.combinedId ∧ o.qtyOriginal = req.newQty x)) := by
  cases Lob.stands hok ho with
  | stayed hx hid hlevel hq => exact Or.inl ⟨_, hx, hid, hlevel, hq⟩
  | entered hact _ hs hid hlevel _ =>
    obtain ⟨hslot, hbehind⟩ := h.entered hact
    exact Or.inr ⟨hs.trans hslot, hid, hlevel ▸ hbehind, Or.inl hact⟩
  | @moved x hact hx hname hid hlevel hq _ _ =>
    obtain rfl := h.named (by rw [hact]; decide) s' x hx hname
    exact Or.inr ⟨rfl, hid, hlevel ▸ h.moved hact x, Or.inr ⟨hact, x, hx, hname, hq⟩⟩

end Request

/-! ## Between two ticks -/

/-- The requests on their way: those that take the orders of `s` out of the way, then the others. -/
structure Phase (S : Setting) (est : Int) (n : Nat) (a : Lob) (s : Slot) (first second : List OrderRequest) :
    Prop where
  /-- The other side is out of the way. -/
  ahead : Clear S est a s.flip
  /-- So is every order of this side that no request names. -/
  back : ∀ o ∈ a s, o.Of S.clientId → s.Behind (best S.info s est) (S.c.plToPrice o.level) ∨
    ∃ req ∈ first, req.combinedId = o.orderId ∧ req.action ≠ .new
  first : ∀ req ∈ first, Fits S est n a s req ∧
    (req.action = .modify → ∀ o ∈ a s, o.orderId = req.combinedId → req.q = o.qtyOriginal)
  second : ∀ req ∈ second, ∃ s', Fits S est n a s' req

section Phases

variable {S : Setting} {est : Int} {n : Nat} {a a' : Lob} {s s' : Slot} {req req' : OrderRequest}
  {first second : List OrderRequest} {gen : Nat → Nat} {o : Order}

/-- The orders of the client are some of those that were there. -/
def Stays (S : Setting) (a a' : Lob) : Prop := ∀ s, ∀ o ∈ a' s, o.Of S.clientId →
  ∃ x ∈ a s, o.orderId = x.orderId ∧ o.level = x.level ∧ o.qtyOriginal = x.qtyOriginal

theorem Stays.clear (h : Stays S a a') (hclear : Clear S est a s) : Clear S est a' s := by
  intro o ho hof
  obtain ⟨x, hx, hid, hlevel, -⟩ := h s o ho hof
  rw [hlevel]
  exact hclear x hx (by unfold Order.Of; rw [← hid]; exact hof)

theorem Stays.fits (h : Stays S a a') (hfits : Fits S est n a s req) : Fits S est n a' s req := by
  refine ⟨hfits.clientId, hfits.side, hfits.type, hfits.kind, fun hact s' o ho hid => ?_, hfits.ids⟩
  obtain ⟨x, hx, hxid, -⟩ := h s' o ho (hfits.of hid)
  exact hfits.named hact s' x hx (hxid.symm.trans hid)

/-- What others do changes nothing. -/
theorem Stays.phase (h : Stays S a a') (hphase : Phase S est n a s first second) :
    Phase S est n a' s first second := by
  refine ⟨h.clear hphase.ahead, fun o ho hof => ?_, fun req hreq => ?_, fun req hreq => ?_⟩
  · obtain ⟨x, hx, hid, hlevel, -⟩ := h s o ho hof
    rw [hlevel, hid]
    exact hphase.back x hx (by unfold Order.Of; rw [← hid]; exact hof)
  · obtain ⟨hfits, hq⟩ := hphase.first req hreq
    refine ⟨h.fits hfits, fun hact o ho hid => ?_⟩
    obtain ⟨x, hx, hxid, -, hxq⟩ := h s o ho (hfits.of hid)
    rw [hxq]
    exact hq hact x hx (hxid.symm.trans hid)
  · obtain ⟨s', hfits⟩ := hphase.second req hreq
    exact ⟨s', h.fits hfits⟩

/-- A request of another client. -/
theorem stays_other (hok : a.Ok S.c) (hclient : req.clientId ≠ S.clientId) :
    Stays S a (a.step S.c gen req).lob := by
  intro s o ho hof
  have hother : o.orderId ≠ req.combinedId := by
    intro hid
    unfold Order.Of at hof
    rw [hid] at hof
    exact hclient ((clientIdOf_combined _ _).symm.trans hof)
  cases Lob.stands hok ho with
  | stayed hx hid hlevel hq => exact ⟨_, hx, hid, hlevel, hq⟩
  | entered _ _ _ hid _ _ => exact absurd hid hother
  | moved _ _ _ hid => exact absurd hid hother

/-- A request that is still on its way fits after another as well. -/
theorem Fits.keeps (h : Fits S est n a s req) (h' : Fits S est n a s' req') (hok : a.Ok S.c) :
    Fits S est n (a.step S.c gen req).lob s' req' := by
  refine ⟨h'.clientId, h'.side, h'.type, h'.kind, fun hact t o ho hid => ?_, h'.ids⟩
  rcases h.stands hok ho with ⟨x, hx, hxid, -⟩ | ⟨rfl, hoid, -, hnew | ⟨-, x, hx, hname, -⟩⟩
  · exact h'.named hact t x hx (hxid.symm.trans hid)
  · -- a new order has an id that was not in use
    have hids := h.ids
    have hids' := h'.ids
    rw [if_pos hnew] at hids
    rw [if_neg hact] at hids'
    have heq := (combinedOrderId_inj (hoid.symm.trans hid)).2
    rw [heq] at hids
    omega
  · exact h'.named hact _ x hx (hname.trans (hoid.symm.trans hid))

/-- Asking for the original quantity changes it in nothing. -/
theorem newQty_same {x : Order} (h : req.q = x.qtyOriginal) : req.newQty x = x.qtyOriginal := by
  unfold OrderRequest.newQty
  rw [h]
  split
  · rfl
  · rfl

/-- A request of the first part. -/
theorem Phase.serve_first (h : Phase S est n a s (req :: first) second) (hok : a.Ok S.c) :
    Phase S est n (a.step S.c gen req).lob s first second := by
  obtain ⟨hfits, hq⟩ := h.first req List.mem_cons_self
  refine ⟨fun o ho hof => ?_, fun o ho hof => ?_, fun req' hreq' => ?_, fun req' hreq' => ?_⟩
  · rcases hfits.stands hok ho with ⟨x, hx, hid, hlevel, -⟩ | ⟨hs, -⟩
    · rw [hlevel]
      exact h.ahead x hx (by unfold Order.Of; rw [← hid]; exact hof)
    · exact absurd hs (by cases s <;> decide)
  · rcases hfits.stands hok ho with ⟨x, hx, hid, hlevel, -⟩ | ⟨-, -, hbehind, -⟩
    · rcases h.back x hx (by unfold Order.Of; rw [← hid]; exact hof) with hbehind | ⟨req', hreq', hname, hact⟩
      · rw [hlevel]
        exact Or.inl hbehind
      rcases List.mem_cons.mp hreq' with rfl | hreq'
      · -- the request that named it has taken it out of the way
        left
        have hoid : o.orderId = req'.combinedId := hid.trans hname.symm
        rcases hfits.kind with ⟨hcancel, -⟩ | ⟨hnew | hmodify, hgrid, -, -⟩
        · exact absurd hoid (Lob.cancel_leaves hcancel ho)
        · exact absurd hnew hact
        · have hsane := hok.sane hx
          have hqx := hq hmodify x hx hname.symm
          have hnewQty : req'.newQty x = x.qtyOriginal := by
            unfold OrderRequest.newQty
            rw [hqx]
            split <;> rfl
          rw [Lob.modify_leaves hok hmodify hx hname.symm (hqx ▸ hsane.max) (Config.OnGrid.valid hgrid)
            (by rw [hnewQty]; exact Nat.sub_le _ _) ho hoid]
          exact hfits.moved hmodify x
      · exact Or.inr ⟨req', hreq', hname.trans hid.symm, hact⟩
    · exact Or.inl hbehind
  · obtain ⟨hfits', hq'⟩ := h.first req' (List.mem_cons_of_mem _ hreq')
    refine ⟨hfits.keeps hfits' hok, fun hact o ho hid => ?_⟩
    rcases hfits.stands hok ho with ⟨x, hx, hxid, -, hxq⟩ | ⟨-, hoid, -, hnew | ⟨hmodify, x, hx, hname, hxq⟩⟩
    · rw [hxq]
      exact hq' hact x hx (hxid.symm.trans hid)
    · have hids := hfits.ids
      have hids' := hfits'.ids
      rw [if_pos hnew] at hids
      rw [if_neg (by rw [hact]; decide)] at hids'
      have heq := (combinedOrderId_inj (hoid.symm.trans hid)).2
      rw [heq] at hids
      omega
    · -- both ask for the quantity that the order had
      rw [hxq, newQty_same (hq hmodify x hx hname)]
      exact hq' hact x hx (hname.trans (hoid.symm.trans hid))
  · obtain ⟨t, hfits'⟩ := h.second req' hreq'
    exact ⟨t, hfits.keeps hfits' hok⟩

/-- With the first part done all orders are out of the way. -/
theorem Phase.clear (h : Phase S est n a s [] second) (t : Slot) : Clear S est a t := by
  by_cases ht : t = s
  · subst ht
    intro o ho hof
    rcases h.back o ho hof with hbehind | ⟨req, hreq, -⟩
    · exact hbehind
    · exact absurd hreq List.not_mem_nil
  · obtain rfl : t = s.flip := Slot.eq_flip ht
    exact h.ahead

/-- A request of the second part. -/
theorem Phase.serve_second (h : Phase S est n a s [] (req :: second)) (hok : a.Ok S.c) :
    Phase S est n (a.step S.c gen req).lob s [] second := by
  obtain ⟨t, hfits⟩ := h.second req List.mem_cons_self
  have hclear : ∀ s', Clear S est (a.step S.c gen req).lob s' := by
    intro s' o ho hof
    rcases hfits.stands hok ho with ⟨x, hx, hid, hlevel, -⟩ | ⟨rfl, -, hbehind, -⟩
    · rw [hlevel]
      exact h.clear s' x hx (by unfold Order.Of; rw [← hid]; exact hof)
    · exact hbehind
  refine ⟨hclear _, fun o ho hof => Or.inl (hclear _ o ho hof), fun req hreq => absurd hreq List.not_mem_nil,
    fun req' hreq' => ?_⟩
  obtain ⟨t', hfits'⟩ := h.second req' (List.mem_cons_of_mem _ hreq')
  exact ⟨t', hfits.keeps hfits' hok⟩

end Phases

/-! ## What the market maker knows -/

/-- An open order of the account, and the order it is. -/
structure Known (S : Setting) (a : Lob) (s : Slot) (o : Order) (r : OrderResponse) : Prop where
  mem : o ∈ a s
  orderId : o.orderId = combinedOrderId S.clientId r.orderId
  side : r.side = s.side
  p : r.p = S.c.plToPrice o.level
  q : r.q = o.qtyOriginal
  symbolId : r.symbolId = S.c.symbolId

/-- The open orders are the orders of the client. -/
structure Informed (S : Setting) (a : Lob) (openOrders : List OrderResponse) : Prop where
  known : ∀ r ∈ openOrders, ∃ s o, Known S a s o r
  all : ∀ s, ∀ o ∈ a s, o.Of S.clientId → ∃ r ∈ openOrders, Known S a s o r

/-- Every open order was written down from a record. -/
theorem openOrders_recorded (rs : List OrderResponse) : ∀ {acc : ClientAccount} {r : OrderResponse},
    r ∈ (rs.foldl ClientAccount.handleOrderResponse acc).openOrders → r ∈ acc.openOrders ∨ r ∈ rs := by
  induction rs with
  | nil => exact fun h => Or.inl h
  | cons r' rs ih =>
    intro acc r h
    rcases ih h with h | h
    · have hremove : ∀ {orders : List OrderResponse},
          r ∈ Lib.Keyed.remove (·.orderId) r'.orderId orders → r ∈ orders := List.mem_of_mem_eraseP
      unfold ClientAccount.handleOrderResponse at h
      split at h
      · rcases Lib.Keyed.mem_put _ h with rfl | h
        · exact Or.inr List.mem_cons_self
        · exact Or.inl h
      · rcases Lib.Keyed.mem_put _ h with rfl | h
        · exact Or.inr List.mem_cons_self
        · exact Or.inl h
      · rcases Lib.Keyed.mem_put _ h with rfl | h
        · exact Or.inr List.mem_cons_self
        · exact Or.inl h
      · rw [ClientAccount.openOrders_updatePositionAndCash] at h
        exact Or.inl h
      · dsimp only at h
        rw [ClientAccount.openOrders_updatePositionAndCash] at h
        exact Or.inl (hremove h)
      · exact Or.inl (hremove h)
      · split at h
        · exact Or.inl (hremove h)
        · exact Or.inl h
      · exact Or.inl h
    · exact Or.inr (List.mem_cons_of_mem _ h)

/-- Every record bears the book's symbol. -/
theorem log_symbolId {K : OrderRequest → Prop} {c : Config} {st : State} (h : ReachableBy K c st) :
    ∀ r ∈ st.log, r.symbolId = c.symbolId := by
  induction h with
  | fresh gen => exact fun _ hr => absurd hr List.not_mem_nil
  | @step st st' req hst _ hreq hrun ih =>
    obtain ⟨-, hlog, -⟩ := hst.reachable.step_answer hreq hrun
    rw [hlog]
    exact List.forall_mem_append.mpr ⟨ih, (Lob.step_outcome c st.gen st.book.lob req).symbol⟩

/-- The account that has handled every record. -/
theorem informed (S : Setting) {st : State}
    (h : ReachableBy (fun req => req.clientId = S.clientId → NotMarket req) S.c st) :
    Informed S st.book.lob (ClientAccount.after S.clientId st.log).openOrders := by
  have hshows := ClientAccount.shows_after S.clientId st.log
  have hok := h.reachable.ok
  have hlags : ∀ orderId, Lags (lastReport st.log (combinedOrderId S.clientId orderId))
      (st.book.lob.ledger S.c (combinedOrderId S.clientId orderId))
      (((ClientAccount.after S.clientId st.log).openOrder orderId).map OrderResponse.opened) := by
    intro orderId
    rw [hshows.rows]
    exact run_lags h fun req hreq hid => hreq (combinedOrderId_inj hid).1
  -- an open order, and the order of its id
  have hknown : ∀ {s o r}, r ∈ (ClientAccount.after S.clientId st.log).openOrders → o ∈ st.book.lob s →
      o.orderId = combinedOrderId S.clientId r.orderId → Known S st.book.lob s o r := by
    intro s o r hr ho hid
    have hfind := hok.find_of_mem ho
    rw [hid] at hfind
    have hlag := hlags r.orderId
    unfold Lob.ledger at hlag
    rw [hfind, ClientAccount.openOrder, Lib.Keyed.find_of_mem _ hshows.distinct hr] at hlag
    obtain ⟨q, -, hrow⟩ := hlag.some_left
    have hrow := Option.some.inj hrow
    refine ⟨ho, hid, congrArg OpenOrder.side hrow, congrArg OpenOrder.p hrow, congrArg OpenOrder.q hrow, ?_⟩
    rcases openOrders_recorded _ hr with hnil | hlog
    · exact absurd hnil List.not_mem_nil
    · exact log_symbolId h r (List.mem_filter.mp hlog).1
  refine ⟨fun r hr => ?_, fun s o ho hof => ?_⟩
  · have hlag := hlags r.orderId
    rw [ClientAccount.openOrder, Lib.Keyed.find_of_mem _ hshows.distinct hr] at hlag
    cases hfind : st.book.lob.find (combinedOrderId S.clientId r.orderId) with
    | none =>
      unfold Lob.ledger at hlag
      rw [hfind] at hlag
      cases hlag.gone_left.2
    | some so =>
      obtain ⟨s, o⟩ := so
      obtain ⟨ho, hid⟩ := Lob.mem_of_find hfind
      exact ⟨s, o, hknown hr ho hid⟩
  · have hid : o.orderId = combinedOrderId S.clientId (orderIdOf o.orderId) := by
      rw [← show clientIdOf o.orderId = S.clientId from hof, combinedOrderId_parts (hok.sane ho).id]
    have hlag := hlags (orderIdOf o.orderId)
    have hfind := hok.find_of_mem ho
    rw [hid] at hfind
    unfold Lob.ledger at hlag
    rw [hfind] at hlag
    obtain ⟨q, -, hrow⟩ := hlag.some_left
    obtain ⟨r, hr, -⟩ := Option.map_eq_some_iff.mp hrow
    obtain ⟨hmem, hkey⟩ := Lib.Keyed.mem_of_find _ hr
    have hkey : r.orderId = orderIdOf o.orderId := hkey
    exact ⟨r, hmem, hknown hmem ho (hkey ▸ hid)⟩

/-! ## What it sends -/

section Sending

open OrderEntryClient

/-- The order that a call hands to `send_order_request`. -/
def orderOf : Call → Option OrderRequest
  | .newLimitOrder symbolId side p q visibleQty =>
    some
      { blank .new symbolId side with
        type := .limit
        p := p
        q := q
        visibleQty := if visibleQty = 0 then q else visibleQty }
  | .replaceOrder orderId p q symbolId side =>
    some { blank .modify symbolId side with orderId := orderId, p := p, q := q }
  | .cancelOrder orderId symbolId side => some { blank .cancel symbolId side with orderId := orderId }
  | _ => none

/-- The order requests among what is sent. -/
def requestsOf (out : List ClientRequest) : List OrderRequest :=
  out.filterMap fun m => match m.data with
    | .order req => some req
    | _ => none

/-- The request that `send_order_request` makes of an order; new ids are from `n` on, and below `m`. -/
structure Asks (clientId : UInt32) (n m : Nat) (order req : OrderRequest) : Prop where
  action : req.action = order.action
  clientId : req.clientId = clientId
  side : req.side = order.side
  type : req.type = order.type
  p : req.p = order.p
  q : req.q = order.q
  orderId : if order.action = .new then n ≤ req.orderId.toNat ∧ req.orderId.toNat < m
    else req.orderId = order.orderId

/-- Ids drawn later are drawn from here on, too. -/
theorem Asks.mono {clientId : UInt32} {n n' m m' : Nat} {order req : OrderRequest} (h : Asks clientId n m order req)
    (hn : n' ≤ n) (hm : m ≤ m') : Asks clientId n' m' order req := by
  refine ⟨h.action, h.clientId, h.side, h.type, h.p, h.q, ?_⟩
  have hids := h.orderId
  split
  · rename_i hnew
    rw [if_pos hnew] at hids
    exact ⟨hn.trans hids.1, hids.2.trans_le hm⟩
  · rename_i hold
    rw [if_neg hold] at hids
    exact hids

/-- A price that the client sends. -/
def Accepted (symbolsInfo : UInt32 → Option SymbolInfo) (order : OrderRequest) : Prop :=
  order.action = .cancel ∨ validatePrice symbolsInfo order.symbolId order.p = .ok ()

variable {c : OrderEntryClient} {clock : Nat → Nat} {order : OrderRequest}

/-- One accepted call: one request with the next number and, for a new order, the next id. -/
theorem invoke_asks {call : Call} (horder : orderOf call = some order) (haccept : Accepted c.symbolsInfo order)
    (now : Nat) (hwrap : c.nextId.toNat + 1 < 2 ^ 32) : ∃ c' req,
      c.invoke now call = .ok (c', [⟨.order req, c.oSeqNum + 1⟩]) ∧ c'.clientId = c.clientId ∧
      c'.symbolsInfo = c.symbolsInfo ∧ c'.account = c.account ∧ c'.nextId.toNat = c.nextId.toNat + 1 ∧
      Asks c.clientId c.nextId.toNat (c.nextId.toNat + 1) order req := by
  have hinvoke : c.invoke now call = c.sendOrderRequest now order := by
    cases call with
    | newLimitOrder _ _ _ _ _ | replaceOrder _ _ _ _ _ | cancelOrder _ _ _ =>
      obtain rfl := Option.some.inj horder
      rfl
    | newMarketOrder _ _ _ | newOrder _ _ _ _ _ _ | sendOrderRequest _ | requestPosition _ | requestOpenOrders
    | stop => cases horder
  have hsend : c.sendOrderRequest now order =
      .ok ({ c with nextId := c.nextId + 1, oSeqNum := c.oSeqNum + 1 },
        [⟨.order (c.identify now order), c.oSeqNum + 1⟩]) := by
    unfold sendOrderRequest
    rcases haccept with hcancel | hvalid
    · have hno : ¬ ((OrderAction.cancel = .new ∧ order.type ≠ .market) ∨ OrderAction.cancel = .modify) := by
        rintro (⟨hact, -⟩ | hact) <;> cases hact
      rw [hcancel, if_neg hno]
      rfl
    · rw [hvalid]
      split <;> rfl
  refine ⟨_, c.identify now order, hinvoke.trans hsend, rfl, rfl, rfl, ?_, rfl, rfl, rfl, rfl, rfl, rfl, ?_⟩
  · rw [UInt32.toNat_add]
    exact Nat.mod_eq_of_lt hwrap
  · unfold identify
    dsimp only
    split
    · exact ⟨le_rfl, Nat.lt_succ_self _⟩
    · rfl

/-- As long as every price is accepted nothing is thrown, and each call sends a request. -/
theorem perform_asks : ∀ {calls : List Call} {c : OrderEntryClient} (clock : Nat → Nat),
    (∀ call ∈ calls, ∃ order, orderOf call = some order ∧ Accepted c.symbolsInfo order) →
    c.nextId.toNat + calls.length < 2 ^ 32 → ∃ c' out, c.perform clock calls = .ok (c', out) ∧
      c'.clientId = c.clientId ∧ c'.symbolsInfo = c.symbolsInfo ∧ c'.account = c.account ∧
      c'.nextId.toNat = c.nextId.toNat + calls.length ∧
      List.Forall₂ (fun call req => ∃ order, orderOf call = some order ∧
        Asks c.clientId c.nextId.toNat c'.nextId.toNat order req) calls (requestsOf out)
  | [], c, clock, _, _ => ⟨c, [], rfl, rfl, rfl, rfl, rfl, .nil⟩
  | call :: calls, c, clock, hcalls, hwrap => by
    rw [List.length_cons] at hwrap
    obtain ⟨order, horder, haccept⟩ := hcalls call List.mem_cons_self
    obtain ⟨c₁, req, hinvoke, hid, hinfo, hacc, hnext, hasks⟩ :=
      invoke_asks horder haccept (clock 0) (show c.nextId.toNat + 1 < 2 ^ 32 by omega)
    have hcalls' : ∀ call ∈ calls, ∃ order, orderOf call = some order ∧ Accepted c₁.symbolsInfo order := by
      rw [hinfo]
      exact fun call' hcall' => hcalls call' (List.mem_cons_of_mem _ hcall')
    obtain ⟨c', out, hperform, hid', hinfo', hacc', hnext', hall⟩ :=
      perform_asks (fun k => clock (k + 1)) hcalls' (show c₁.nextId.toNat + calls.length < 2 ^ 32 by omega)
    refine ⟨c', ⟨.order req, c.oSeqNum + 1⟩ :: out, ?_, hid'.trans hid, hinfo'.trans hinfo,
      hacc'.trans hacc, ?_, ?_⟩
    · unfold perform
      rw [hinvoke]
      show (c₁.perform (fun k => clock (k + 1)) calls >>= _) = _
      rw [hperform]
      rfl
    · rw [hnext', hnext, List.length_cons]
      omega
    · refine .cons ⟨order, horder, hasks.mono le_rfl (by omega)⟩ (hall.imp fun call' req' hasked => ?_)
      obtain ⟨order', horder', hasks'⟩ := hasked
      rw [hid] at hasks'
      exact ⟨order', horder', hasks'.mono (by omega) le_rfl⟩

end Sending

end SelfCross

end Exchange
