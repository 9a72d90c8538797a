import Exchange.Client.SelfCross

/-!
# What the market maker asks for

The calls of `manage_orders`, on the orders that it knows (`Plan`), and its runs: whatever well-formed requests
others send, none of its own trades with an order of its own.
-/

namespace Exchange.SelfCross

open Gateway OrderEntryClient MarketMakerNative

/-! ## Orders that are asked for -/

/-- A price of the grid, as `validate_price` has it. -/
structure Quoted (info : DbSymbolInfo) (p : Int) : Prop where
  low : info.minPrice ≤ p
  high : p ≤ info.maxPrice
  step : info.minStep ∣ p

section Grid

variable {S : Setting} {est p : Int} {s : Slot} {i : Nat}

/-- The engine's grid is the published one. -/
theorem Setting.grid (S : Setting) : S.c.minStep = S.info.minStep ∧ 0 < S.c.priceIndexOffset ∧
    S.c.priceIndexOffset * S.info.minStep = S.info.minPrice ∧
    (S.c.priceIndexOffset + S.c.maxPriceLevels - 1) * S.info.minStep = S.info.maxPrice := by
  obtain ⟨c, hc, hgrid⟩ := S.regular.book S.c.symbolId
  obtain rfl := Option.some.inj (S.config.symm.trans hc)
  exact hgrid

/-- A quoted price is on the grid, and positive. -/
theorem Quoted.onGrid (h : Quoted S.info p) : S.c.OnGrid p ∧ 0 < p := by
  obtain ⟨hstep, -, hlow, hhigh⟩ := S.grid
  have hpos := S.regular.step
  obtain ⟨k, hk⟩ := h.step
  rw [Int.mul_comm] at hk
  have hlo : S.c.priceIndexOffset ≤ k := by
    refine (Int.mul_le_mul_right hpos).mp ?_
    rw [hlow, ← hk]
    exact h.low
  have hhi : k ≤ S.c.priceIndexOffset + S.c.maxPriceLevels - 1 := by
    refine (Int.mul_le_mul_right hpos).mp ?_
    rw [hhigh, ← hk]
    exact h.high
  refine ⟨⟨(k - S.c.priceIndexOffset).toNat, by omega, ?_⟩, lt_of_lt_of_le S.regular.pos h.low⟩
  unfold Config.plToPrice
  rw [hstep, hk, show ((k - S.c.priceIndexOffset).toNat : Int) + S.c.priceIndexOffset = k by omega]

/-- The price of a level. -/
theorem quoted_level (S : Setting) (hi : i < S.c.maxPriceLevels) : Quoted S.info (S.c.plToPrice i) := by
  obtain ⟨hstep, -, hlow, hhigh⟩ := S.grid
  have hpos := S.regular.step
  unfold Config.plToPrice
  rw [hstep]
  refine ⟨?_, ?_, Int.dvd_mul_left _ _⟩
  · rw [← hlow]
    exact Int.mul_le_mul_of_nonneg_right (by omega) hpos.le
  · rw [← hhigh]
    exact Int.mul_le_mul_of_nonneg_right (by omega) hpos.le

theorem quoted_target (S : Setting) (hest : Estimate S.info est) (s : Slot) (i : Nat) :
    Quoted S.info (target S.info s est i) :=
  ⟨(target_bounds S.regular s est i).1, (target_bounds S.regular s est i).2, target_step S.regular hest s i⟩

end Grid

/-- An order that is handed to `send_order_request`, for this side of the book. -/
structure Draft (S : Setting) (est : Int) (a : Lob) (s : Slot) (order : OrderRequest) : Prop where
  symbolId : order.symbolId = S.c.symbolId
  side : order.side = s.side
  type : order.type = .limit
  kind : (order.action = .cancel ∧ order.p = 0) ∨
    ((order.action = .new ∨ order.action = .modify) ∧ Quoted S.info order.p ∧
      s.Behind (best S.info s est) order.p)
  named : order.action ≠ .new → ∃ o ∈ a s, o.orderId = combinedOrderId S.clientId order.orderId

/-- The call asks for the order of this id to be changed or cancelled. -/
def Names (call : Call) (orderId : UInt32) : Prop :=
  ∃ order, orderOf call = some order ∧ order.action ≠ .new ∧ order.orderId = orderId

/-- The call hands over an order for this side. -/
def Sends (S : Setting) (est : Int) (a : Lob) (s : Slot) (call : Call) : Prop :=
  ∃ order, orderOf call = some order ∧ Draft S est a s order

/-- The call hands over an order for this side, which keeps the quantity of the one that it names. -/
def Retreats (S : Setting) (est : Int) (a : Lob) (s : Slot) (call : Call) : Prop :=
  ∃ order, orderOf call = some order ∧ Draft S est a s order ∧
    (order.action = .modify → ∀ o ∈ a s, o.orderId = combinedOrderId S.clientId order.orderId →
      order.q = o.qtyOriginal)

theorem Retreats.sends {S : Setting} {est : Int} {a : Lob} {s : Slot} {call : Call}
    (h : Retreats S est a s call) : Sends S est a s call := by
  obtain ⟨order, horder, hdraft, -⟩ := h
  exact ⟨order, horder, hdraft⟩

section Orders

variable {S : Setting} {est : Int} {n m : Nat} {a : Lob} {s : Slot} {order req : OrderRequest} {o : Order}
  {r : OrderResponse} {call : Call}

/-- Its price, if it has one, is accepted. -/
theorem Draft.accepted (h : Draft S est a s order) {symbolsInfo : UInt32 → Option SymbolInfo}
    (hinfo : symbolsInfo S.c.symbolId = some S.info.published) : Accepted symbolsInfo order := by
  rcases h.kind with ⟨hcancel, -⟩ | ⟨-, hquoted, -⟩
  · exact Or.inl hcancel
  · right
    rw [h.symbolId]
    exact (validatePrice_iff S.regular hinfo order.p).mpr ⟨hquoted.low, hquoted.high, hquoted.step⟩

/-- The orders of the client have ids below `n`. -/
def Numbered (S : Setting) (n : Nat) (a : Lob) : Prop :=
  ∀ s, ∀ o ∈ a s, o.Of S.clientId → (orderIdOf o.orderId).toNat < n

/-- A draft that the client numbers fits the market. -/
theorem Draft.fits (h : Draft S est a s order) (hok : a.Ok S.c) (hids : Numbered S n a)
    (hasks : Asks S.clientId n m order req) : Fits S est n a s req := by
  have hid := hasks.orderId
  have hnamed : req.action ≠ .new → req.orderId = order.orderId ∧
      ∃ o ∈ a s, o.orderId = combinedOrderId S.clientId order.orderId := by
    intro hact
    rw [hasks.action] at hact
    rw [if_neg hact] at hid
    exact ⟨hid, h.named hact⟩
  refine ⟨hasks.clientId, hasks.side.trans h.side, hasks.type.trans h.type, ?_, fun hact s' o' ho' hid' => ?_, ?_⟩
  · rw [hasks.action, hasks.p]
    rcases h.kind with hcancel | ⟨hact, hquoted, hbehind⟩
    · exact Or.inl hcancel
    · exact Or.inr ⟨hact, hquoted.onGrid.1, hquoted.onGrid.2, hbehind⟩
  · obtain ⟨horderId, o, ho, hoid⟩ := hnamed hact
    refine (hok.unique ho' ho (hid'.trans ?_)).1
    unfold OrderRequest.combinedId
    rw [hasks.clientId, horderId]
    exact hoid.symm
  · split
    · rename_i hact
      rw [if_pos (hasks.action ▸ hact)] at hid
      exact hid.1
    · rename_i hact
      obtain ⟨horderId, o, ho, hoid⟩ := hnamed hact
      have hlt := hids s o ho (by unfold Order.Of; rw [hoid, clientIdOf_combined])
      rw [hoid, orderIdOf_combined] at hlt
      rw [horderId]
      exact hlt

/-- A known order gets a price of the grid that is not nearer than the best. -/
theorem Known.replace (h : Known S a s o r) (hok : a.Ok S.c) {p : Int} (hp : Quoted S.info p)
    (hbehind : s.Behind (best S.info s est) p) :
    Retreats S est a s (.replaceOrder r.orderId p r.q r.symbolId r.side) := by
  refine ⟨_, rfl, ⟨h.symbolId, h.side, rfl, Or.inr ⟨Or.inr rfl, hp, hbehind⟩, fun _ => ⟨o, h.mem, h.orderId⟩⟩,
    fun _ x hx hid => ?_⟩
  obtain ⟨-, rfl⟩ := hok.unique hx h.mem (hid.trans h.orderId.symm)
  exact h.q

/-- A cancel of a known order retreats. -/
theorem Known.cancel (h : Known S a s o r) : Retreats S est a s (.cancelOrder r.orderId r.symbolId r.side) :=
  ⟨_, rfl, ⟨h.symbolId, h.side, rfl, Or.inl ⟨rfl, rfl⟩, fun _ => ⟨o, h.mem, h.orderId⟩⟩,
    fun hmodify => OrderAction.noConfusion hmodify⟩

/-- A new order at its target retreats. -/
theorem retreats_new (hest : Estimate S.info est) (s : Slot) (i q : Nat) :
    Retreats S est a s (.newLimitOrder S.c.symbolId s.side (target S.info s est i) q 0) :=
  ⟨_, rfl, ⟨rfl, rfl, rfl, Or.inr ⟨Or.inl rfl, quoted_target S hest s i, behind_target S.regular s est i⟩,
    fun hnew => absurd rfl hnew⟩, fun hmodify => OrderAction.noConfusion hmodify⟩

/-! ## One side -/

/-- `adjust` moves a known order to its target, -/
theorem adjust_retreats (h : Known S a s o r) (hok : a.Ok S.c) (hest : Estimate S.info est) (i : Nat) :
    ∀ call ∈ adjust (target S.info s est) i r, Retreats S est a s call := by
  intro call hcall
  unfold adjust at hcall
  split at hcall
  · split at hcall
    · rw [List.mem_singleton.mp hcall]
      exact h.replace hok (quoted_target S hest s i) (behind_target S.regular s est i)
    · exact absurd hcall List.not_mem_nil
  · rw [List.mem_singleton.mp hcall]
    exact h.cancel

/-- An order that is not named has its price already. -/
theorem adjust_covers (tgt : Nat → Int) (i : Nat) (r : OrderResponse) :
    (∃ call ∈ adjust tgt i r, Names call r.orderId) ∨ r.p = tgt i := by
  unfold adjust
  by_cases hi : i < targetLevels
  · rw [if_pos hi]
    by_cases hp : r.p = tgt i
    · exact Or.inr hp
    · rw [if_pos hp]
      exact Or.inl ⟨_, List.mem_singleton_self _, _, rfl, OrderAction.noConfusion, rfl⟩
  · rw [if_neg hi]
    exact Or.inl ⟨_, List.mem_singleton_self _, _, rfl, OrderAction.noConfusion, rfl⟩

/-- and so does every call of `handle_orders`, by induction on the levels. -/
theorem handleOrders_retreats (hok : a.Ok S.c) (hest : Estimate S.info est) (n : Nat) :
    ∀ (i : Nat) (orders : List OrderResponse) (gen : Nat → Nat), (∀ r ∈ orders, ∃ o, Known S a s o r) →
      ∀ call ∈ (handleOrders S.c.symbolId s.side (target S.info s est) n i orders gen).1,
        Retreats S est a s call := by
  induction n with
  | zero => exact fun _ _ _ _ _ hcall => absurd hcall List.not_mem_nil
  | succ n ih =>
    intro i orders gen hknown call hcall
    cases orders with
    | nil =>
      rcases List.mem_cons.mp hcall with rfl | hcall
      · exact retreats_new hest s i _
      · exact ih _ _ _ hknown call hcall
    | cons r orders =>
      rcases List.mem_append.mp hcall with hcall | hcall
      · obtain ⟨o, ho⟩ := hknown r List.mem_cons_self
        exact adjust_retreats ho hok hest i call hcall
      · exact ih _ _ _ (fun r' hr' => hknown r' (List.mem_cons_of_mem _ hr')) call hcall

/-- The loop comes to every order. -/
theorem handleOrders_covers (symbolId : UInt32) (side : Side) (tgt : Nat → Int) (n : Nat) :
    ∀ (i : Nat) (orders : List OrderResponse) (gen : Nat → Nat), orders.length ≤ n → ∀ r ∈ orders,
      (∃ call ∈ (handleOrders symbolId side tgt n i orders gen).1, Names call r.orderId) ∨ ∃ j, r.p = tgt j := by
  induction n with
  | zero =>
    intro i orders gen hlen r hr
    rw [List.length_eq_zero_iff.mp (Nat.le_zero.mp hlen)] at hr
    exact absurd hr List.not_mem_nil
  | succ n ih =>
    intro i orders gen hlen r hr
    cases orders with
    | nil => exact absurd hr List.not_mem_nil
    | cons r' orders =>
      rcases List.mem_cons.mp hr with rfl | hr
      · rcases adjust_covers tgt i r with ⟨call, hcall, hnames⟩ | hp
        · exact Or.inl ⟨call, List.mem_append_left _ hcall, hnames⟩
        · exact Or.inr ⟨i, hp⟩
      · rcases ih (i + 1) orders gen (Nat.le_of_succ_le_succ hlen) r hr with ⟨call, hcall, hnames⟩ | hp
        · exact Or.inl ⟨call, List.mem_append_right _ hcall, hnames⟩
        · exact Or.inr hp

end Orders

/-! ## Both sides -/

/-- The calls of a tick: those that take the orders of `s` out of the way, then the others. -/
structure Plan (S : Setting) (est : Int) (a : Lob) (s : Slot) (first second : List Call) : Prop where
  ahead : Clear S est a s.flip
  back : ∀ o ∈ a s, o.Of S.clientId → s.Behind (best S.info s est) (S.c.plToPrice o.level) ∨
    ∃ call ∈ first, ∃ orderId, Names call orderId ∧ o.orderId = combinedOrderId S.clientId orderId
  first : ∀ call ∈ first, Retreats S est a s call
  second : ∀ call ∈ second, ∃ s', Sends S est a s' call

/-- The market maker as it is set up. -/
structure Configured (S : Setting) (mm : MarketMakerNative) : Prop where
  clientId : mm.client.clientId = S.clientId
  symbol : mm.targetSymbol = S.c.symbolId
  info : mm.client.symbolsInfo S.c.symbolId = some S.info.published

section Ticks

variable {S : Setting} {mm : MarketMakerNative} {est : Int} {a : Lob} {openOrders bids asks : List OrderResponse}

theorem Configured.info_eq (h : Configured S mm) : mm.info = some S.info.published := by
  unfold MarketMakerNative.info
  rw [h.symbol]
  exact h.info

theorem Configured.step_eq (h : Configured S mm) : mm.step = S.info.minStep := by
  unfold MarketMakerNative.step
  rw [h.info_eq]
  rfl

theorem Configured.targetP_eq (h : Configured S mm) (p : Int) :
    mm.targetP p = max S.info.minPrice (min S.info.maxPrice p) := by
  unfold MarketMakerNative.targetP
  rw [h.info_eq]
  rfl

/-- What the market maker knows of a side. -/
structure Knows (S : Setting) (a : Lob) (s : Slot) (orders : List OrderResponse) : Prop where
  known : ∀ r ∈ orders, ∃ o, Known S a s o r
  all : ∀ o ∈ a s, o.Of S.clientId → ∃ r ∈ orders, Known S a s o r

theorem Informed.knows_bids (h : Informed S a openOrders) (hbids : IsBids openOrders bids) : Knows S a .bid bids := by
  constructor
  · intro r hr
    obtain ⟨hmem, hside⟩ := List.mem_filter.mp (hbids.1.mem_iff.mp hr)
    obtain ⟨s, o, ho⟩ := h.known r hmem
    have hbuy : r.side = .buy := of_decide_eq_true hside
    rw [ho.side] at hbuy
    cases s with
    | bid => exact ⟨o, ho⟩
    | ask => cases hbuy
  · intro o ho hof
    obtain ⟨r, hr, hknown⟩ := h.all .bid o ho hof
    exact ⟨r, hbids.1.mem_iff.mpr (List.mem_filter.mpr ⟨hr, decide_eq_true hknown.side⟩), hknown⟩

theorem Informed.knows_asks (h : Informed S a openOrders) (hasks : IsAsks openOrders asks) : Knows S a .ask asks := by
  constructor
  · intro r hr
    obtain ⟨hmem, hside⟩ := List.mem_filter.mp (hasks.1.mem_iff.mp hr)
    obtain ⟨s, o, ho⟩ := h.known r hmem
    have hbuy : r.side ≠ .buy := of_decide_eq_true hside
    rw [ho.side] at hbuy
    cases s with
    | bid => exact absurd rfl hbuy
    | ask => exact ⟨o, ho⟩
  · intro o ho hof
    obtain ⟨r, hr, hknown⟩ := h.all .ask o ho hof
    have hbuy : r.side ≠ .buy := by
      rw [hknown.side]
      exact Side.noConfusion
    exact ⟨r, hasks.1.mem_iff.mpr (List.mem_filter.mpr ⟨hr, decide_eq_true hbuy⟩), hknown⟩

/-- `handle_bids` and `handle_asks`, for a side whose other side is out of the way. -/
theorem handle_plan {s : Slot} {orders others : List OrderResponse} {n n' : Nat} {gen gen' : Nat → Nat}
    (hok : a.Ok S.c) (hest : Estimate S.info est) (hknows : Knows S a s orders) (hlen : orders.length ≤ n)
    (hothers : Knows S a s.flip others) (hahead : Clear S est a s.flip) :
    Plan S est a s (handleOrders S.c.symbolId s.side (target S.info s est) n 0 orders gen).1
      (handleOrders S.c.symbolId s.flip.side (target S.info s.flip est) n' 0 others gen').1 := by
  refine ⟨hahead, fun o ho hof => ?_, handleOrders_retreats hok hest n 0 orders gen hknows.known,
    fun call hcall =>
      ⟨_, (handleOrders_retreats hok hest n' 0 others gen' hothers.known call hcall).sends⟩⟩
  obtain ⟨r, hr, hknown⟩ := hknows.all o ho hof
  rcases handleOrders_covers S.c.symbolId s.side (target S.info s est) n 0 orders gen hlen r hr with
    ⟨call, hcall, hnames⟩ | ⟨j, hp⟩
  · exact Or.inr ⟨call, hcall, _, hnames, hknown.orderId⟩
  · left
    rw [← hknown.p, hp]
    exact behind_target S.regular s est j

/-- `refresh`: the side that the price has left goes first. -/
theorem refresh_plan (h : Configured S mm) (hok : a.Ok S.c) (hest : Estimate S.info est)
    (hbids : Knows S a .bid bids) (hasks : Knows S a .ask asks)
    (hclear : ∀ s, Clear S mm.lastEstTicks a s) : ∃ s first second,
      (mm.refresh bids asks est).2 = first ++ second ∧ Plan S est a s first second := by
  have hbid : ∀ mm', Configured S mm' → ∀ gen, mm'.handleBids est bids gen =
      handleOrders S.c.symbolId .buy (target S.info .bid est) (max bids.length targetLevels) 0 bids gen := by
    intro mm' h' gen
    unfold handleBids
    rw [h'.symbol, h'.step_eq]
    simp only [h'.targetP_eq]
    rfl
  have hask : ∀ mm', Configured S mm' → ∀ gen, mm'.handleAsks est asks gen =
      handleOrders S.c.symbolId .sell (target S.info .ask est) (max asks.length targetLevels) 0 asks gen := by
    intro mm' h' gen
    unfold handleAsks
    rw [h'.symbol, h'.step_eq]
    simp only [h'.targetP_eq]
    rfl
  have h' : Configured S { mm with lastEstTicks := est } := ⟨h.clientId, h.symbol, h.info⟩
  unfold refresh
  simp only [hbid _ h', hask _ h']
  by_cases hup : mm.lastEstTicks < est
  · rw [if_pos hup]
    refine ⟨.ask, _, _, rfl, handle_plan hok hest hasks (le_max_left _ _) hbids ?_⟩
    intro o ho hof
    exact (best_behind (s := .bid) hup.le).trans (hclear .bid o ho hof)
  · rw [if_neg hup]
    refine ⟨.bid, _, _, rfl, handle_plan hok hest hbids (le_max_left _ _) hasks ?_⟩
    intro o ho hof
    exact (best_behind (s := .ask) (not_lt.mp hup)).trans (hclear .ask o ho hof)

/-- The best order of each side goes behind all others. -/
theorem jumpBook_plan (h : Configured S mm) (hok : a.Ok S.c) (hest : Estimate S.info mm.lastEstTicks)
    (hbids : Knows S a .bid bids) (hasks : Knows S a .ask asks)
    {calls : List Call} (hcalls : mm.jumpBook bids asks = some calls) :
    ∀ call ∈ calls, ∃ s, Sends S mm.lastEstTicks a s call := by
  unfold jumpBook at hcalls
  split at hcalls
  · rename_i bid _ ask _
    dsimp only at hcalls
    rw [h.info_eq, h.step_eq] at hcalls
    obtain rfl := Option.some.inj hcalls
    obtain ⟨x, hx⟩ := hbids.known bid List.mem_cons_self
    obtain ⟨y, hy⟩ := hasks.known ask List.mem_cons_self
    -- the price of the fifteenth order of the side
    have hbidOut : target S.info .bid mm.lastEstTicks 14 =
        max S.info.minPrice (mm.lastEstTicks - (targetLevels + 5 : Nat) * S.info.minStep) := by
      have hhigh := hest.high
      have hstep := S.regular.step
      unfold target Slot.away targetLevels
      dsimp only
      push_cast
      omega
    have haskOut : target S.info .ask mm.lastEstTicks 14 =
        min S.info.maxPrice (mm.lastEstTicks + (targetLevels + 5 : Nat) * S.info.minStep) := by
      have hlow := hest.low
      have hle := S.regular.le
      have hstep := S.regular.step
      unfold target Slot.away targetLevels
      dsimp only
      push_cast
      omega
    have hbid := hx.replace hok (quoted_target S hest .bid 14) (behind_target S.regular .bid mm.lastEstTicks 14)
    have hask := hy.replace hok (quoted_target S hest .ask 14) (behind_target S.regular .ask mm.lastEstTicks 14)
    rw [hbidOut] at hbid
    rw [haskOut] at hask
    intro call hcall
    rcases List.mem_cons.mp hcall with rfl | hcall
    · exact ⟨.bid, hbid.sends⟩
    · rw [List.mem_singleton.mp hcall]
      exact ⟨.ask, hask.sends⟩
  · cases hcalls

/-- A call of `jitter` replaces an open order at its own price. -/
theorem mem_jitter {call : Call} (mods : Nat) : ∀ {gen : Nat → Nat}, call ∈ (jitter openOrders mods gen).1 →
    ∃ r ∈ openOrders, ∃ q, call = .replaceOrder r.orderId r.p q r.symbolId r.side := by
  induction mods with
  | zero => exact fun h => absurd h List.not_mem_nil
  | succ mods ih =>
    intro gen h
    rcases List.mem_append.mp h with h | h
    · obtain ⟨r, hr, hcall⟩ := List.mem_flatMap.mp h
      dsimp only at hcall
      split at hcall
      · exact ⟨r, List.mem_of_getElem? (Option.mem_toList.mp hr), _, List.mem_singleton.mp hcall⟩
      · exact absurd hcall List.not_mem_nil
    · exact ih h

/-- The orders stay where they are. -/
theorem jitter_plan (hok : a.Ok S.c) (hknown : ∀ r ∈ openOrders, ∃ s o, Known S a s o r)
    (hclear : ∀ s, Clear S est a s) (mods : Nat) (gen : Nat → Nat) :
    ∀ call ∈ (jitter openOrders mods gen).1, ∃ s, Sends S est a s call := by
  intro call hcall
  obtain ⟨r, hr, q, rfl⟩ := mem_jitter mods hcall
  obtain ⟨s, o, ho⟩ := hknown r hr
  refine ⟨s, _, rfl, ho.symbolId, ho.side, rfl, Or.inr ⟨Or.inr rfl, ?_, ?_⟩, fun _ => ⟨o, ho.mem, ho.orderId⟩⟩
  · show Quoted S.info r.p
    rw [ho.p]
    exact quoted_level S (hok.level ho.mem).2
  · show s.Behind (best S.info s est) r.p
    rw [ho.p]
    exact hclear s o ho.mem (by unfold Order.Of; rw [ho.orderId, clientIdOf_combined])

/-- `manage_orders`, of a market maker whose orders are out of the way of each other, if it has any. -/
theorem manageOrders_plan (h : Configured S mm) (hok : a.Ok S.c) (hest : Estimate S.info est)
    (hinformed : Informed S a openOrders) (hbids : IsBids openOrders bids) (hasks : IsAsks openOrders asks)
    (hclear : ∀ s, Clear S mm.lastEstTicks a s) (hlast : Estimate S.info mm.lastEstTicks ∨ openOrders = [])
    (isFetchTick : Bool) : ∃ s first second,
      (mm.manageOrders openOrders bids asks est isFetchTick).2 = first ++ second ∧
        Estimate S.info (mm.manageOrders openOrders bids asks est isFetchTick).1.lastEstTicks ∧
        Plan S (mm.manageOrders openOrders bids asks est isFetchTick).1.lastEstTicks a s first second := by
  have hbook := hinformed.knows_bids hbids
  have hoffers := hinformed.knows_asks hasks
  have hsteady : ∀ {calls : List Call}, (∀ call ∈ calls, ∃ s, Sends S mm.lastEstTicks a s call) →
      Plan S mm.lastEstTicks a .bid [] calls :=
    fun hcalls => ⟨hclear _, fun o ho hof => Or.inl (hclear _ o ho hof),
      fun _ hcall => absurd hcall List.not_mem_nil, hcalls⟩
  have hnone : openOrders = [] → bids.length < targetLevels := by
    rintro rfl
    rw [hbids.1.length_eq]
    exact Nat.zero_lt_succ 9
  unfold manageOrders
  split
  · obtain ⟨s, first, second, hcalls, hplan⟩ := refresh_plan h hok hest hbook hoffers hclear
    have hlast : (mm.refresh bids asks est).1.lastEstTicks = est := by
      unfold refresh
      dsimp only
      split <;> rfl
    rw [hlast]
    exact ⟨s, first, second, hcalls, hest, hplan⟩
  · rename_i hfull
    have hsome : openOrders ≠ [] := fun hnil => hfull (Or.inr (Or.inl (hnone hnil)))
    have hlast := hlast.resolve_right hsome
    rw [if_neg hsome]
    dsimp only
    split
    · rename_i calls hjump
      split at hjump
      · exact ⟨.bid, [], calls, rfl, hlast, hsteady (jumpBook_plan h hok hlast hbook hoffers hjump)⟩
      · cases hjump
    · exact ⟨.bid, [], _, rfl, hlast, hsteady (jitter_plan hok hinformed.known hclear _ _)⟩

/-! ## The requests on their way -/

/-- A call and the request that it sends. -/
def SentFor (S : Setting) (n m : Nat) (call : Call) (req : OrderRequest) : Prop :=
  ∃ order, orderOf call = some order ∧ Asks S.clientId n m order req

theorem sentFor_left {n m : Nat} {calls : List Call} {reqs : List OrderRequest}
    (h : List.Forall₂ (SentFor S n m) calls reqs) : ∀ call ∈ calls, ∃ req ∈ reqs, SentFor S n m call req := by
  induction h with
  | nil => exact fun _ hcall => absurd hcall List.not_mem_nil
  | @cons call req _ _ hsent _ ih =>
    intro call' hcall'
    rcases List.mem_cons.mp hcall' with rfl | hcall'
    · exact ⟨req, List.mem_cons_self, hsent⟩
    · obtain ⟨req', hreq', hsent'⟩ := ih call' hcall'
      exact ⟨req', List.mem_cons_of_mem _ hreq', hsent'⟩

theorem sentFor_right {n m : Nat} {calls : List Call} {reqs : List OrderRequest}
    (h : List.Forall₂ (SentFor S n m) calls reqs) : ∀ req ∈ reqs, ∃ call ∈ calls, SentFor S n m call req := by
  induction h with
  | nil => exact fun _ hreq => absurd hreq List.not_mem_nil
  | @cons call req _ _ hsent _ ih =>
    intro req' hreq'
    rcases List.mem_cons.mp hreq' with rfl | hreq'
    · exact ⟨call, List.mem_cons_self, hsent⟩
    · obtain ⟨call', hcall', hsent'⟩ := ih req' hreq'
      exact ⟨call', List.mem_cons_of_mem _ hcall', hsent'⟩

/-- The request of such a call. -/
theorem Sends.fits {s : Slot} {n m : Nat} {call : Call} {req : OrderRequest} (h : Sends S est a s call)
    (hok : a.Ok S.c) (hids : Numbered S n a) (hsent : SentFor S n m call req) : Fits S est n a s req := by
  obtain ⟨order, horder, hdraft⟩ := h
  obtain ⟨order', horder', hasks⟩ := hsent
  obtain rfl := Option.some.inj (horder.symm.trans horder')
  exact hdraft.fits hok hids hasks

/-- The calls of a plan, as the two groups of requests they become. -/
theorem Plan.phase {s : Slot} {n m : Nat} {first second : List Call} {reqs : List OrderRequest}
    (h : Plan S est a s first second) (hok : a.Ok S.c) (hids : Numbered S n a)
    (hsent : List.Forall₂ (SentFor S n m) (first ++ second) reqs) :
    ∃ firstReqs secondReqs, reqs = firstReqs ++ secondReqs ∧ Phase S est n a s firstReqs secondReqs := by
  have hfirst : List.Forall₂ (SentFor S n m) first (reqs.take first.length) := by
    have htake := List.forall₂_take first.length hsent
    rw [List.take_left] at htake
    exact htake
  have hsecond : List.Forall₂ (SentFor S n m) second (reqs.drop first.length) := by
    have hdrop := List.forall₂_drop first.length hsent
    rw [List.drop_left] at hdrop
    exact hdrop
  refine ⟨_, _, (List.take_append_drop first.length reqs).symm, h.ahead, fun o ho hof => ?_, fun req hreq => ?_,
    fun req hreq => ?_⟩
  · rcases h.back o ho hof with hbehind | ⟨call, hcall, orderId, ⟨order, horder, hact, hname⟩, hid⟩
    · exact Or.inl hbehind
    · obtain ⟨req, hreq, order', horder', hasks⟩ := sentFor_left hfirst call hcall
      obtain rfl := Option.some.inj (horder.symm.trans horder')
      have hreqId := hasks.orderId
      rw [if_neg hact] at hreqId
      refine Or.inr ⟨req, hreq, ?_, hasks.action ▸ hact⟩
      unfold OrderRequest.combinedId
      rw [hasks.clientId, hreqId, hname, hid]
  · obtain ⟨call, hcall, hsent⟩ := sentFor_right hfirst req hreq
    have hretreats := h.first call hcall
    refine ⟨hretreats.sends.fits hok hids hsent, fun hact o ho hid => ?_⟩
    obtain ⟨order, horder, -, hq⟩ := hretreats
    obtain ⟨order', horder', hasks⟩ := hsent
    obtain rfl := Option.some.inj (horder.symm.trans horder')
    have hmodify : order.action = .modify := hasks.action ▸ hact
    have hreqId := hasks.orderId
    rw [hmodify, if_neg (by decide)] at hreqId
    rw [hasks.q]
    refine hq hmodify o ho (hid.trans ?_)
    unfold OrderRequest.combinedId
    rw [hasks.clientId, hreqId]
  · obtain ⟨call, hcall, hsent⟩ := sentFor_right hsecond req hreq
    obtain ⟨s', hsends⟩ := h.second call hcall
    exact ⟨s', hsends.fits hok hids hsent⟩

end Ticks

/-! ## What it is told -/

section Told

variable {S : Setting} {est : Int} {n : Nat} {a : Lob} {s : Slot} {req : OrderRequest} {gen : Nat → Nat}

theorem Fits.quoted (h : Fits S est n a s req) (hact : req.action ≠ .cancel) : Quoted S.info req.p := by
  rcases h.kind with ⟨hcancel, -⟩ | ⟨-, ⟨i, hi, hp⟩, -⟩
  · exact absurd hcancel hact
  · rw [hp]
    exact quoted_level S hi

theorem Fits.quoted_target (h : Fits S est n a s req) (hact : req.action = .modify) (x : Order) :
    Quoted S.info (S.c.plToPrice (req.target S.c x)) := by
  have hne : req.action ≠ .cancel := by
    rw [hact]
    decide
  obtain ⟨hprice, hpos, -⟩ := h.price hne
  unfold OrderRequest.target
  rw [if_pos hpos.ne', hprice]
  exact h.quoted hne

/-- A trade is at the price of a level. -/
theorem execute_quoted (hlevel : ∀ s, ∀ x ∈ a s, x.level < S.c.maxPriceLevels) {t : Order} {idx : Nat} :
    ∀ r ∈ (a.execute S.c gen s t idx).recs, Quoted S.info r.p := by
  intro r hr
  obtain ⟨f, hf, hp, -⟩ := mem_tradeRecords (show r ∈ tradeRecords S.c t.orderId s gen _ from hr)
  rw [hp]
  exact quoted_level S (hlevel _ _ (mem_sweep_fills _ _ hf))

/-- The prices that `on_order_response` tests are accepted. -/
theorem told_quoted (hok : a.Ok S.c) (hown : req.clientId = S.clientId → ∃ s, Fits S est n a s req) :
    ∀ r ∈ (a.step S.c gen req).recs, r.clientId = S.clientId → Priced r → Quoted S.info r.p := by
  intro r hr hclient hpriced
  have hout := Lob.step_outcome S.c gen a req
  generalize a.step S.c gen req = ans at hr hout
  have hreplaced : ∀ {t : ExecType} {execId : Nat} {side : Side} {x : Order} {q qRem : Nat} {code : RejectCode},
      req.action = .modify → r = S.c.response t req.combinedId execId side (S.c.plToPrice (req.target S.c x)) q
        qRem code → Quoted S.info r.p := by
    rintro t execId side x q qRem code hact rfl
    obtain ⟨s, hfits⟩ := hown ((clientIdOf_combined _ _).symm.trans hclient)
    exact hfits.quoted_target hact x
  cases hout with
  | rejected qRem code =>
    rw [List.mem_singleton.mp hr] at hpriced
    rcases hpriced.1 with he | he | he | he | he <;> cases he
  | entered hact _ _ _ _ _ =>
    rcases List.mem_cons.mp hr with rfl | hr
    · obtain ⟨s, hfits⟩ := hown ((clientIdOf_combined _ _).symm.trans hclient)
      exact hfits.quoted (by rw [hact]; decide)
    · exact execute_quoted (fun _ x hx => (hok.level hx).2) r hr
  | cancelled =>
    rw [List.mem_singleton.mp hr] at hpriced
    rcases hpriced.1 with he | he | he | he | he <;> cases he
  | kept hact => exact hreplaced hact (List.mem_singleton.mp hr)
  | finished hact =>
    rcases List.mem_cons.mp hr with hr | hr
    · exact hreplaced hact hr
    · exact hreplaced hact (List.mem_singleton.mp hr)
  | requeued hact =>
    rcases List.mem_cons.mp hr with hr | hr
    · exact hreplaced hact hr
    · exact execute_quoted (fun _ x hx => (hok.level (Lob.mem_remove.mp hx).1).2) r hr
  | shrunk hact => exact hreplaced hact (List.mem_singleton.mp hr)

end Told

/-! ## Runs -/

/-- The book, the market maker, its requests on their way, and how many records it has gone through. -/
structure Market where
  st : State
  maker : MarketMakerNative
  sent : List OrderRequest
  handled : Nat

namespace Market

/-- The record is for another client, or `on_order_response` handles it. -/
def handle (S : Setting) (client : OrderEntryClient) (r : OrderResponse) : Except String OrderEntryClient :=
  if r.clientId = S.clientId then client.onOrderResponse r else pure client

/-- A tick: what `manage_orders` leaves and calls. -/
def manage (m : Market) (bids asks : List OrderResponse) (est : Int) (isFetchTick : Bool) :
    MarketMakerNative × List Call :=
  m.maker.manageOrders m.maker.client.account.openOrders bids asks est isFetchTick

/-- What a tick finds. -/
structure Due (S : Setting) (m : Market) (bids asks : List OrderResponse) (est : Int) (isFetchTick : Bool) : Prop where
  answered : m.sent = []
  told : m.handled = m.st.log.length
  isBids : IsBids m.maker.client.account.openOrders bids
  isAsks : IsAsks m.maker.client.account.openOrders asks
  estimate : Estimate S.info est
  ids : m.maker.client.nextId.toNat + (m.manage bids asks est isFetchTick).2.length < 2 ^ 32

/-- The requests of the market maker reach the engine in order, with those of others anywhere between. Those
are well formed: a cancel or modify bears the side of the order it names, which neither the gateway nor the
engine checks. -/
inductive Run (S : Setting) : Market → Prop
  | start (gen gen' : Nat → Nat) {symbolsInfo : UInt32 → Option SymbolInfo}
      (hinfo : symbolsInfo S.c.symbolId = some S.info.published) :
      Run S ⟨⟨.fresh S.c, gen, []⟩,
        MarketMakerNative.create (OrderEntryClient.create S.clientId [S.c.symbolId] symbolsInfo) S.c.symbolId gen',
        [], 0⟩
  | other {m : Market} (h : Run S m) {req : OrderRequest} {st' : State} (hother : req.clientId ≠ S.clientId)
      (hreq : WellFormed S.c m.st.book.lob req) (hrun : m.st.processRequest req = some st') :
      Run S { m with st := st' }
  | serve {m : Market} (h : Run S m) {req : OrderRequest} {rest : List OrderRequest} {st' : State}
      (hsent : m.sent = req :: rest) (hrun : m.st.processRequest req = some st') :
      Run S { m with st := st', sent := rest }
  | told {m : Market} (h : Run S m) {r : OrderResponse} {client : OrderEntryClient}
      (hr : m.st.log[m.handled]? = some r) (hhandle : handle S m.maker.client r = .ok client) :
      Run S { m with maker := { m.maker with client := client }, handled := m.handled + 1 }
  | tick {m : Market} (h : Run S m) {bids asks : List OrderResponse} {est : Int} {isFetchTick : Bool}
      {clock : Nat → Nat} {client : OrderEntryClient} {out : List ClientRequest}
      (hdue : Due S m bids asks est isFetchTick)
      (hperform : (m.manage bids asks est isFetchTick).1.client.perform clock
        (m.manage bids asks est isFetchTick).2 = .ok (client, out)) :
      Run S
        { m with maker := { (m.manage bids asks est isFetchTick).1 with client := client }, sent := requestsOf out }

/-- The requests on their way, if there is an order or a request of the market maker. -/
def Ready (S : Setting) (m : Market) : Prop :=
  (m.sent = [] ∧ ∀ s, ∀ o ∈ m.st.book.lob s, ¬ o.Of S.clientId) ∨
    (Estimate S.info m.maker.lastEstTicks ∧ ∃ n s first second, m.sent = first ++ second ∧
      Phase S m.maker.lastEstTicks n m.st.book.lob s first second)

/-- What holds all along. -/
structure Sound (S : Setting) (m : Market) : Prop where
  reachable : ReachableBy (fun req => req.clientId = S.clientId → NotMarket req) S.c m.st
  configured : Configured S m.maker
  account : m.maker.client.account = ClientAccount.after S.clientId (m.st.log.take m.handled)
  handled : m.handled ≤ m.st.log.length
  quoted : ∀ r ∈ m.st.log, r.clientId = S.clientId → Priced r → Quoted S.info r.p
  numbered : Numbered S m.maker.client.nextId.toNat m.st.book.lob
  fresh : ∀ req ∈ m.sent, req.action = .new → req.orderId.toNat < m.maker.client.nextId.toNat
  ready : Ready S m

section Steps

variable {S : Setting} {m : Market} {req : OrderRequest} {rest : List OrderRequest} {st' : State}

/-- The next request on its way. -/
theorem Ready.next (h : Ready S m) (hsent : m.sent = req :: rest) : Estimate S.info m.maker.lastEstTicks ∧
    ∃ n s, Fits S m.maker.lastEstTicks n m.st.book.lob s req ∧ Clear S m.maker.lastEstTicks m.st.book.lob s.flip ∧
      ∀ st', st'.book.lob = (m.st.book.lob.step S.c m.st.gen req).lob → m.st.book.lob.Ok S.c →
        Ready S { m with st := st', sent := rest } := by
  rcases h with ⟨hnil, -⟩ | ⟨hest, n, s, first, second, hparts, hphase⟩
  · rw [hnil] at hsent
    cases hsent
  refine ⟨hest, ?_⟩
  cases first with
  | cons req' first =>
    obtain ⟨rfl, rfl⟩ := List.cons.inj (hsent.symm.trans hparts)
    refine ⟨n, s, (hphase.first _ List.mem_cons_self).1, hphase.ahead, fun st' hlob hok => ?_⟩
    refine Or.inr ⟨hest, n, s, first, second, rfl, ?_⟩
    show Phase S _ n st'.book.lob s first second
    rw [hlob]
    exact hphase.serve_first hok
  | nil =>
    cases second with
    | nil => cases hsent.symm.trans hparts
    | cons req' second =>
      obtain ⟨rfl, rfl⟩ := List.cons.inj (hsent.symm.trans hparts)
      obtain ⟨t, hfits⟩ := hphase.second _ List.mem_cons_self
      refine ⟨n, t, hfits, hphase.clear t.flip, fun st' hlob hok => ?_⟩
      refine Or.inr ⟨hest, n, s, [], _, rfl, ?_⟩
      show Phase S _ n st'.book.lob s [] _
      rw [hlob]
      exact hphase.serve_second hok

/-- A request that is well formed, of the market maker or not. -/
theorem Sound.step (h : Sound S m) (hreq : WellFormed S.c m.st.book.lob req)
    (hrun : m.st.processRequest req = some st') (est : Int) (n : Nat)
    (hown : req.clientId = S.clientId → NotMarket req ∧ (∃ s, Fits S est n m.st.book.lob s req) ∧
      (req.action = .new → req.orderId.toNat < m.maker.client.nextId.toNat))
    {sent : List OrderRequest} (hsent : ∀ req' ∈ sent, req' ∈ m.sent)
    (hready : Ready S { m with st := st', sent := sent }) : Sound S { m with st := st', sent := sent } := by
  obtain ⟨hlob, hlog, -⟩ := h.reachable.reachable.step_answer hreq hrun
  have hok := h.reachable.reachable.ok
  refine ⟨h.reachable.step (fun hid => (hown hid).1) hreq hrun, h.configured, ?_, ?_, ?_, ?_,
    fun req' hreq' => h.fresh req' (hsent req' hreq'), hready⟩
  · show m.maker.client.account = ClientAccount.after S.clientId (st'.log.take m.handled)
    rw [hlog, List.take_append_of_le_length h.handled]
    exact h.account
  · show m.handled ≤ st'.log.length
    rw [hlog, List.length_append]
    exact h.handled.trans (Nat.le_add_right _ _)
  · show ∀ r ∈ st'.log, _
    rw [hlog]
    exact List.forall_mem_append.mpr ⟨h.quoted, told_quoted hok fun hid => (hown hid).2.1⟩
  · show Numbered S _ st'.book.lob
    rw [hlob]
    intro s o ho hof
    cases Lob.stands hok ho with
    | stayed hx hid _ _ =>
      rw [hid]
      exact h.numbered s _ hx (by unfold Order.Of; rw [← hid]; exact hof)
    | entered hact _ _ hid _ _ =>
      unfold Order.Of at hof
      rw [hid] at hof ⊢
      unfold OrderRequest.combinedId at hof ⊢
      rw [clientIdOf_combined] at hof
      rw [orderIdOf_combined]
      exact (hown hof).2.2 hact
    | moved _ hx hname hid =>
      rw [hid, ← hname]
      exact h.numbered s _ hx (by unfold Order.Of; rw [hname, ← hid]; exact hof)

/-- What others do leaves the market maker where it is. -/
theorem Sound.other (h : Sound S m) (hother : req.clientId ≠ S.clientId)
    (hreq : WellFormed S.c m.st.book.lob req) (hrun : m.st.processRequest req = some st') :
    Sound S { m with st := st' } := by
  obtain ⟨hlob, -, -⟩ := h.reachable.reachable.step_answer hreq hrun
  have hstays : Stays S m.st.book.lob st'.book.lob := by
    rw [hlob]
    exact stays_other h.reachable.reachable.ok hother
  refine h.step hreq hrun 0 0 (fun hid => absurd hid hother) (fun _ hreq' => hreq') ?_
  rcases h.ready with ⟨hsent, hnone⟩ | ⟨hest, n, s, first, second, hsent, hphase⟩
  · refine Or.inl ⟨hsent, fun s o ho hof => ?_⟩
    obtain ⟨x, hx, hid, -⟩ := hstays s o ho hof
    exact hnone s x hx (by unfold Order.Of; rw [← hid]; exact hof)
  · exact Or.inr ⟨hest, n, s, first, second, hsent, hstays.phase hphase⟩

/-- A request of the market maker. -/
theorem Sound.serve (h : Sound S m) (hsent : m.sent = req :: rest) (hrun : m.st.processRequest req = some st') :
    Sound S { m with st := st', sent := rest } := by
  obtain ⟨-, n, s, hfits, -, hnext⟩ := h.ready.next hsent
  obtain ⟨hlob, -, -⟩ := h.reachable.reachable.step_answer hfits.wellFormed hrun
  have hlimit : NotMarket req := by
    intro _
    rw [hfits.type]
    exact OrderType.noConfusion
  refine h.step hfits.wellFormed hrun _ n (fun _ => ⟨hlimit, ⟨s, hfits⟩, h.fresh req ?_⟩) (fun req' hreq' => ?_)
    (hnext st' hlob h.reachable.reachable.ok)
  · rw [hsent]
    exact List.mem_cons_self
  · rw [hsent]
    exact List.mem_cons_of_mem _ hreq'

/-- The account after one more record. -/
theorem after_told {log : List OrderResponse} {k : Nat} {r : OrderResponse} (hr : log[k]? = some r)
    (clientId : UInt32) : ClientAccount.after clientId (log.take (k + 1)) =
      if r.clientId = clientId then (ClientAccount.after clientId (log.take k)).handleOrderResponse r
      else ClientAccount.after clientId (log.take k) := by
  unfold ClientAccount.after
  rw [List.take_add_one, hr, List.filter_append, List.foldl_append]
  by_cases hid : r.clientId = clientId
  · rw [if_pos hid, Option.toList_some, List.filter_singleton, decide_eq_true hid]
    rfl
  · rw [if_neg hid, Option.toList_some, List.filter_singleton, decide_eq_false hid]
    rfl

/-- A record is handled without an exception, and only the account changes. -/
theorem Sound.handles (h : Sound S m) {r : OrderResponse} (hr : m.st.log[m.handled]? = some r) :
    handle S m.maker.client r = .ok { m.maker.client with
      account := ClientAccount.after S.clientId (m.st.log.take (m.handled + 1)) } := by
  unfold handle
  rw [after_told hr, ← h.account]
  by_cases hid : r.clientId = S.clientId
  · rw [if_pos hid, if_pos hid]
    unfold onOrderResponse
    have hmem := List.mem_of_getElem? hr
    split
    · rename_i hpriced
      have hquoted := h.quoted r hmem hid hpriced
      have hvalid : validatePrice m.maker.client.symbolsInfo r.symbolId r.p = .ok () := by
        rw [log_symbolId h.reachable r hmem]
        exact (validatePrice_iff S.regular h.configured.info r.p).mpr ⟨hquoted.low, hquoted.high, hquoted.step⟩
      rw [hvalid]
      rfl
    · rfl
  · rw [if_neg hid, if_neg hid]
    rfl

/-- Handling a record changes the account only. -/
theorem Sound.told (h : Sound S m) {r : OrderResponse} {client : OrderEntryClient}
    (hr : m.st.log[m.handled]? = some r) (hhandle : handle S m.maker.client r = .ok client) :
    Sound S { m with maker := { m.maker with client := client }, handled := m.handled + 1 } := by
  obtain rfl := Except.ok.inj ((h.handles hr).symm.trans hhandle)
  exact ⟨h.reachable, ⟨h.configured.clientId, h.configured.symbol, h.configured.info⟩, rfl,
    (List.getElem?_eq_some_iff.mp hr).1, h.quoted, h.numbered, h.fresh, h.ready⟩

end Steps

section Ticks

variable {S : Setting} {m : Market} {bids asks : List OrderResponse} {est : Int} {isFetchTick : Bool}

/-- Planning calls leaves the client as it is. -/
theorem manage_client (m : Market) (bids asks : List OrderResponse) (est : Int) (isFetchTick : Bool) :
    (m.manage bids asks est isFetchTick).1.client = m.maker.client ∧
      (m.manage bids asks est isFetchTick).1.targetSymbol = m.maker.targetSymbol := by
  unfold manage manageOrders refresh
  dsimp only
  split
  · split <;> exact ⟨rfl, rfl⟩
  · split
    · exact ⟨rfl, rfl⟩
    · split <;> exact ⟨rfl, rfl⟩

/-- The plan of a tick, for the book as it is. -/
theorem Sound.plan (h : Sound S m) (hdue : Due S m bids asks est isFetchTick) : ∃ s first second,
    (m.manage bids asks est isFetchTick).2 = first ++ second ∧
      Estimate S.info (m.manage bids asks est isFetchTick).1.lastEstTicks ∧
      Plan S (m.manage bids asks est isFetchTick).1.lastEstTicks m.st.book.lob s first second := by
  have hinformed := informed S h.reachable
  have haccount := h.account
  rw [hdue.told, List.take_length] at haccount
  rw [← haccount] at hinformed
  refine manageOrders_plan h.configured h.reachable.reachable.ok hdue.estimate hinformed hdue.isBids hdue.isAsks ?_ ?_ _
  · intro s o ho hof
    rcases h.ready with ⟨-, hnone⟩ | ⟨-, n, s', first, second, hsent, hphase⟩
    · exact absurd hof (hnone s o ho)
    · obtain ⟨rfl, -⟩ := List.append_eq_nil_iff.mp (hsent.symm.trans hdue.answered)
      exact hphase.clear s o ho hof
  · rcases h.ready with ⟨-, hnone⟩ | ⟨hest, -⟩
    · refine Or.inr (List.eq_nil_iff_forall_not_mem.mpr fun r hr => ?_)
      obtain ⟨s, o, ho⟩ := hinformed.known r hr
      exact hnone s o ho.mem (by unfold Order.Of; rw [ho.orderId, clientIdOf_combined])
    · exact Or.inl hest

/-- A tick throws nothing. -/
theorem Sound.performs (h : Sound S m) (hdue : Due S m bids asks est isFetchTick) (clock : Nat → Nat) :
    ∃ client out, (m.manage bids asks est isFetchTick).1.client.perform clock (m.manage bids asks est isFetchTick).2 =
        .ok (client, out) ∧
      client.clientId = m.maker.client.clientId ∧ client.symbolsInfo = m.maker.client.symbolsInfo ∧
      client.account = m.maker.client.account ∧ m.maker.client.nextId.toNat ≤ client.nextId.toNat ∧
      List.Forall₂ (SentFor S m.maker.client.nextId.toNat client.nextId.toNat)
        (m.manage bids asks est isFetchTick).2 (requestsOf out) := by
  obtain ⟨s, first, second, hcalls, -, hplan⟩ := h.plan hdue
  have hsends : ∀ call ∈ (m.manage bids asks est isFetchTick).2, ∃ order, orderOf call = some order ∧
      Accepted m.maker.client.symbolsInfo order := by
    intro call hcall
    rw [hcalls] at hcall
    have hsome : ∃ s', Sends S (m.manage bids asks est isFetchTick).1.lastEstTicks m.st.book.lob s' call := by
      rcases List.mem_append.mp hcall with hcall | hcall
      · exact ⟨s, (hplan.first call hcall).sends⟩
      · exact hplan.second call hcall
    obtain ⟨_, order, horder, hdraft⟩ := hsome
    exact ⟨order, horder, hdraft.accepted h.configured.info⟩
  rw [(manage_client m bids asks est isFetchTick).1]
  obtain ⟨client, out, hperform, hid, hinfo, haccount, hnext, hall⟩ := perform_asks clock hsends hdue.ids
  refine ⟨client, out, hperform, hid, hinfo, haccount, by omega, ?_⟩
  rw [h.configured.clientId] at hall
  exact hall

/-- A tick whose calls are accepted sends requests that fit. -/
theorem Sound.tick (h : Sound S m) (hdue : Due S m bids asks est isFetchTick) {clock : Nat → Nat}
    {client : OrderEntryClient} {out : List ClientRequest}
    (hperform : (m.manage bids asks est isFetchTick).1.client.perform clock
      (m.manage bids asks est isFetchTick).2 = .ok (client, out)) :
    Sound S
      { m with maker := { (m.manage bids asks est isFetchTick).1 with client := client }, sent := requestsOf out } := by
  obtain ⟨client', out', hperform', hid, hinfo, haccount, hnext, hsent⟩ := h.performs hdue clock
  obtain ⟨rfl, rfl⟩ := Prod.mk.inj (Except.ok.inj (hperform'.symm.trans hperform))
  obtain ⟨s, first, second, hcalls, hest, hplan⟩ := h.plan hdue
  refine ⟨h.reachable, ⟨hid.trans h.configured.clientId, ?_, ?_⟩, haccount.trans h.account, h.handled, h.quoted, ?_, ?_,
    ?_⟩
  · exact (manage_client m bids asks est isFetchTick).2.trans h.configured.symbol
  · show client'.symbolsInfo _ = _
    rw [hinfo]
    exact h.configured.info
  · exact fun s o ho hof => (h.numbered s o ho hof).trans_le hnext
  · -- a new order has one of the ids that the tick has taken
    intro req hreq hact
    obtain ⟨call, -, order, -, hasks⟩ := sentFor_right hsent req hreq
    have hids := hasks.orderId
    rw [if_pos (hasks.action ▸ hact)] at hids
    exact hids.2
  · rw [hcalls] at hsent
    obtain ⟨firstReqs, secondReqs, hreqs, hphase⟩ := hplan.phase h.reachable.reachable.ok h.numbered hsent
    exact Or.inr ⟨hest, _, s, firstReqs, secondReqs, hreqs, hphase⟩

/-- By induction on the run: what is under way fits the market. -/
theorem Run.sound (h : Run S m) : Sound S m := by
  induction h with
  | start gen gen' hinfo =>
    have hempty : ∀ s, (State.mk (OrderBook.fresh S.c) gen []).book.lob s = [] := by
      intro s
      rw [fresh_lob]
    refine ⟨.fresh gen, ⟨rfl, rfl, hinfo⟩, rfl, le_rfl, fun _ hr => absurd hr List.not_mem_nil, fun s o ho => ?_,
      fun _ hreq => absurd hreq List.not_mem_nil, Or.inl ⟨rfl, fun s o ho => ?_⟩⟩
    · rw [hempty] at ho
      exact absurd ho List.not_mem_nil
    · rw [hempty] at ho
      exact absurd ho List.not_mem_nil
  | other _ hother hreq hrun ih => exact ih.other hother hreq hrun
  | serve _ hsent hrun ih => exact ih.serve hsent hrun
  | told _ hr hhandle ih => exact ih.told hr hhandle
  | tick _ hdue hperform ih => exact ih.tick hdue hperform

/-- Whatever well-formed requests others send: the engine answers every request of the market maker, and a
trade record among the answers that is for the market maker is of the order that the request is about. Neither
a tick nor a record makes it throw. -/
theorem never_crosses_itself (h : Run S m) :
    (∀ req rest, m.sent = req :: rest → ∃ st' recs, m.st.processRequest req = some st' ∧
      st'.log = m.st.log ++ recs ∧
      ∀ r ∈ recs, r.isTrade = true → r.clientId = S.clientId → r.combinedId = req.combinedId) ∧
    (∀ bids asks est isFetchTick clock, Due S m bids asks est isFetchTick → ∃ client out,
      (m.manage bids asks est isFetchTick).1.client.perform clock (m.manage bids asks est isFetchTick).2 =
        .ok (client, out)) ∧
    (∀ r, m.st.log[m.handled]? = some r → ∃ client, handle S m.maker.client r = .ok client) := by
  have hsound := h.sound
  refine ⟨fun req rest hsent => ?_, fun bids asks est isFetchTick clock hdue => ?_, fun r hr => ?_⟩
  · obtain ⟨hest, n, s, hfits, hclear, -⟩ := hsound.ready.next hsent
    have hreach := hsound.reachable.reachable
    obtain ⟨⟨q, hq⟩, hc, hm⟩ := hreach.inv
    obtain ⟨st', -, hrun, -⟩ := hq.safe_answer hc hm hfits.wellFormed.safe
    exact ⟨st', _, hrun, (hreach.step_answer hfits.wellFormed hrun).2.1, hfits.trades hest hclear⟩
  · obtain ⟨client, out, hperform, -⟩ := hsound.performs hdue clock
    exact ⟨client, out, hperform⟩
  · exact ⟨_, hsound.handles hr⟩

end Ticks

/-- Client 100, on the sample book. -/
def sampleSetting : Setting where
  info := sampleInfo
  c := sampleConfig
  clientId := 100
  regular := sampleInfo_regular
  proper := show (5 : Int) < 40 by decide
  config := rfl

def sampleStart : Market where
  st := ⟨.fresh sampleConfig, id, []⟩
  maker := .create (.create 100 [1] fun _ => some sampleInfo.published) 1 id
  sent := []
  handled := 0

/-- A first tick, with an empty book. -/
theorem sample_due : Due sampleSetting sampleStart [] [] 20 true :=
  ⟨rfl, rfl, ⟨.nil, .nil⟩, ⟨.nil, .nil⟩, ⟨by decide, by decide, by decide⟩, by decide +kernel⟩

/-- After its first tick: ten orders for each side are on their way, and the engine takes the first of them. -/
theorem sample_never_crosses : ∃ m req rest st' recs, Run sampleSetting m ∧ m.sent = req :: rest ∧
    rest.length = 19 ∧ m.st.processRequest req = some st' ∧ st'.log = m.st.log ++ recs ∧
    ∀ r ∈ recs, r.isTrade = true → r.clientId = 100 → r.combinedId = req.combinedId := by
  have hstart : Run sampleSetting sampleStart := .start id id rfl
  obtain ⟨-, hticks, -⟩ := never_crosses_itself hstart
  obtain ⟨client, out, hperform⟩ := hticks [] [] 20 true id sample_due
  have hrun := hstart.tick sample_due hperform
  obtain ⟨client', out', hperform', -, -, -, -, hsent⟩ := hstart.sound.performs sample_due id
  obtain ⟨rfl, rfl⟩ := Prod.mk.inj (Except.ok.inj (hperform'.symm.trans hperform))
  have hlen : (requestsOf out').length = 20 := hsent.length_eq.symm.trans (by decide +kernel)
  obtain ⟨req, rest, hreqs⟩ := List.exists_cons_of_length_eq_add_one hlen
  rw [hreqs, List.length_cons] at hlen
  obtain ⟨hserved, -, -⟩ := never_crosses_itself hrun
  obtain ⟨st', recs, hserve, hlog, hown⟩ := hserved req rest hreqs
  exact ⟨_, req, rest, st', recs, hrun, hreqs, Nat.succ.inj hlen, hserve, hlog, hown⟩

end Market

end Exchange.SelfCross
