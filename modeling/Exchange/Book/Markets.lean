import Exchange.Book.Load

/-!
# The price of a market order

`handleNewOrder` lets what is left of a market order rest at the extreme level of its side, and
its acknowledgement carries the price of the request, which nobody has looked at. Whoever reads
the acknowledgement takes that price for the order's: `restore_from_response`, unless it is zero,
and the market data server even then. `load_snapshot` goes by the type, and puts the order at the
extreme level, also if a replacement has moved it since.

So the order's price is the same everywhere if it comes with the price it rests at, and is not
moved; and if nothing of it rests, as far as the price it comes with would have let it trade
(`KeepsPrice`). It then leads to what a limit order at that price leads to, but for its type
(`Lob.Outcome.untyped`).
-/

namespace Exchange

/-! ## The extreme level -/

/-- The level of a side that a market order is matched at, and rests at. -/
def Config.extreme (c : Config) : Slot → Nat
  | .bid => c.maxPriceLevels - 1
  | .ask => 0

theorem Config.extreme_lt (c : Config) (s : Slot) : c.extreme s < c.maxPriceLevels := by
  have hpos := c.levels_pos
  cases s with
  | bid => exact Nat.sub_lt hpos Nat.one_pos
  | ask => exact hpos

/-- A market order is priced at the end of the grid. -/
theorem State.newIndex_market {c : Config} {req : OrderRequest} {s : Slot} (hs : req.side = s.side)
    (hm : req.type = .market) : State.newIndex c req = c.extreme s := by
  unfold State.newIndex
  rw [if_pos hm, hs]
  cases s <;> rfl

/-- What is crossed at some level is crossed at the extreme one. -/
theorem crossed_extreme {c : Config} {s : Slot} {idx i : Nat} (hidx : idx < c.maxPriceLevels)
    (hx : State.crossed s idx i = true) : State.crossed s (c.extreme s) i = true := by
  cases s with
  | bid =>
    have hle : i ≤ idx := of_decide_eq_true hx
    have hlast : i ≤ c.maxPriceLevels - 1 := by omega
    exact decide_eq_true hlast
  | ask => exact decide_eq_true (Nat.zero_le i)

/-! ## A taker of which nothing is left -/

/-- A taker that is used up does not get to makers that it could also trade with. -/
theorem sweep_of_left {x y : Nat → Bool} (hxy : ∀ i, x i = true → y i = true) (ms : List Order) (r : Nat) :
    (sweep x r ms).left = 0 → sweep y r ms = sweep x r ms := by
  refine sweep_induction (x := x) (P := fun r ms w => w.left = 0 → sweep y r ms = w) (fun _ _ => rfl)
    (fun r m ms _ hz => ?_) (fun r m ms w hr hx hle ih hz => ?_) (fun r m ms hr hx hlt _ => ?_) ms r
  · obtain rfl : r = 0 := hz
    exact sweep_zero y (m :: ms)
  · rw [sweep_filled hr (hxy _ hx) hle, ih hz]
  · exact sweep_part hr (hxy _ hx) hlt

/-- A taker that is used up finds something to trade with. -/
theorem head_of_left {x : Nat → Bool} {r : Nat} (hr : r ≠ 0) : ∀ {ms : List Order}, (sweep x r ms).left = 0 →
    (ms.head?.any fun m => x m.level) = true
  | [], h => absurd h hr
  | m :: ms, h => by
    by_contra hno
    rw [sweep_stop (Or.inr (by simpa using hno))] at h
    exact hr h

/-- How far it could have gone, and all that would have come to rest of it, makes no difference. -/
theorem Lob.execute_of_left {c : Config} {gen : Nat → Nat} {a : Lob} {s : Slot} {t t' : Order}
    {idx idx' : Nat} (hid : t'.orderId = t.orderId) (hq : t'.qtyRemaining = t.qtyRemaining)
    (hreach : ∀ i, State.crossed s idx i = true → State.crossed s idx' i = true)
    (hleft : (sweep (State.crossed s idx) t.qtyRemaining (a s.flip)).left = 0) :
    a.execute c gen s t' idx' = a.execute c gen s t idx := by
  unfold execute
  rw [hq, hid, sweep_of_left hreach _ _ hleft]
  dsimp only
  rw [if_pos hleft, if_pos hleft]

/-- It leaves no order at a level where there was none. -/
theorem Lob.level_of_left (c : Config) (gen : Nat → Nat) {a : Lob} {s s' : Slot} {t o : Order} {idx : Nat}
    (hleft : (sweep (State.crossed s idx) t.qtyRemaining (a s.flip)).left = 0)
    (ho : o ∈ (a.execute c gen s t idx).lob s') : ∃ x ∈ a s', o.level = x.level := by
  by_cases hs : s' = s
  · subst hs
    rw [execute_self, if_pos hleft] at ho
    exact ⟨o, ho, rfl⟩
  · obtain rfl : s' = s.flip := Slot.eq_flip hs
    rw [execute_flip] at ho
    obtain ⟨m, hm, k, -, rfl⟩ := mem_sweep_rest _ _ ho
    exact ⟨m, hm, rfl⟩

/-! ## Orders without their type -/

/-- An order, as if it had come with a limit. -/
def Order.untyped (o : Order) : Order := { o with type := .limit }

theorem Order.untyped_blind : Order.Blind Order.untyped :=
  ⟨fun _ => rfl, fun _ => rfl, fun _ => rfl, fun _ => rfl, fun _ _ _ _ => rfl⟩

/-- A book, as if all its orders had come with a limit. -/
def Lob.untyped (a : Lob) : Lob := a.through Order.untyped

theorem Lob.mem_untyped {a : Lob} {s : Slot} {o : Order} (h : o ∈ a.untyped s) :
    ∃ x ∈ a s, o = x.untyped := by
  obtain ⟨x, hx, rfl⟩ := List.mem_map.mp h
  exact ⟨x, hx, rfl⟩

/-- Types are no part of what holds a book together. -/
theorem Lob.Ok.untyped {c : Config} {a : Lob} (h : a.Ok c) : a.untyped.Ok c := by
  refine ⟨fun ho ho' hid => ?_, fun s => ?_, fun ho => ?_, fun ho => ?_, fun s => ?_, fun hx hy => ?_⟩
  · obtain ⟨x, hx, rfl⟩ := mem_untyped ho
    obtain ⟨x', hx', rfl⟩ := mem_untyped ho'
    obtain ⟨rfl, rfl⟩ := h.unique hx hx' hid
    exact ⟨rfl, rfl⟩
  · have hids : ((a.untyped s).map (·.orderId)).Nodup := by
      show (((a s).map Order.untyped).map (·.orderId)).Nodup
      rw [List.map_map]
      exact h.ids_nodup s
    exact hids.of_map _
  · obtain ⟨x, hx, rfl⟩ := mem_untyped ho
    have hlevel := h.level hx
    exact hlevel
  · obtain ⟨x, hx, rfl⟩ := mem_untyped ho
    have hsane := h.sane hx
    exact ⟨hsane.id, hsane.pos, hsane.le, hsane.max⟩
  · exact List.pairwise_map.mpr (h.sorted s)
  · obtain ⟨x', hx', rfl⟩ := mem_untyped hx
    obtain ⟨y', hy', rfl⟩ := mem_untyped hy
    have hlt := h.uncrossed hx' hy'
    exact hlt

theorem Lob.find_untyped (a : Lob) (id : Nat) :
    a.untyped.find id = (a.find id).map fun so => (so.1, so.2.untyped) := Order.untyped_blind.find a id

theorem Lob.meets_untyped (c : Config) (a : Lob) (req : OrderRequest) : a.untyped.meets c req = a.meets c req := by
  have hhead : ∀ s i, ((a.untyped s.flip).head?.any fun x => State.crossed s i x.level) =
      (a s.flip).head?.any fun x => State.crossed s i x.level := by
    intro s i
    show ((a s.flip).map Order.untyped).head?.any _ = _
    rw [List.head?_map, Option.any_map]
    rfl
  cases hact : req.action with
  | new =>
    rw [meets_new hact, meets_new hact]
    exact hhead _ _
  | modify =>
    cases hfind : a.find req.combinedId with
    | none =>
      unfold meets
      rw [hact, a.find_untyped, hfind]
      rfl
    | some so =>
      have hfind' : a.untyped.find req.combinedId = some (so.1, so.2.untyped) := by
        rw [a.find_untyped, hfind]
        rfl
      rw [meets_modify hact hfind, meets_modify hact hfind']
      exact hhead _ _
  | cancel =>
    unfold meets
    rw [hact]
  | other code =>
    unfold meets
    rw [hact]

theorem WellFormed.untyped {c : Config} {a : Lob} {req : OrderRequest} (h : WellFormed c a req) :
    WellFormed c a.untyped req := by
  refine ⟨h.side, fun hact s o hfind => ?_, h.type, h.price⟩
  rw [a.find_untyped] at hfind
  obtain ⟨so, hso, heq⟩ := Option.map_eq_some_iff.mp hfind
  obtain ⟨rfl, rfl⟩ := Prod.mk.inj heq
  exact h.named hact so.1 so.2 hso

/-! ## Requests that keep the price -/

/-- The level that the price of a market order leads to; without one, the extreme level. -/
def OrderRequest.reach (c : Config) (req : OrderRequest) : Nat :=
  if req.p = 0 then State.newIndex c req else c.priceToIndex req.p

/-- A market order that is taken on comes with the price it will rest at, or is filled by orders
that the price it comes with reaches, and a market order that rests is not moved, unless it is
done with. What the market data server sets aside has an id that it takes for one. -/
structure KeepsPrice (c : Config) (a : Lob) (req : OrderRequest) : Prop where
  id : a.meets c req = true → req.orderId ≠ 0
  market : req.action = .new → req.type = .market → a.find req.combinedId = none → 1 ≤ req.q →
    req.q ≤ globalMaxQty → (0 < req.p ∧ req.p = c.plToPrice (State.newIndex c req)) ∨
      (0 ≤ req.p ∧ (sweep (State.crossed req.slot (req.reach c)) req.q (a req.slot.flip)).left = 0)
  modify : req.action = .modify → ∀ so ∈ a.find req.combinedId, so.2.type = .market →
    req.q ≤ globalMaxQty → req.target c so.2 = so.2.level ∨ req.newQty so.2 ≤ so.2.executed

instance (c : Config) (a : Lob) (req : OrderRequest) : Decidable (KeepsPrice c a req) :=
  decidable_of_iff ((a.meets c req = true → req.orderId ≠ 0) ∧
    (req.action = .new → req.type = .market → a.find req.combinedId = none → 1 ≤ req.q →
      req.q ≤ globalMaxQty → (0 < req.p ∧ req.p = c.plToPrice (State.newIndex c req)) ∨
        (0 ≤ req.p ∧ (sweep (State.crossed req.slot (req.reach c)) req.q (a req.slot.flip)).left = 0)) ∧
    (req.action = .modify → ∀ so ∈ a.find req.combinedId, so.2.type = .market →
      req.q ≤ globalMaxQty → req.target c so.2 = so.2.level ∨ req.newQty so.2 ≤ so.2.executed))
    ⟨fun h => ⟨h.1, h.2.1, h.2.2⟩, fun h => ⟨h.id, h.market, h.modify⟩⟩

/-! ## The request with a limit -/

/-- What is left of a market order without a price, and there is nothing. -/
def Lob.FillsMarket (a : Lob) (c : Config) (req : OrderRequest) : Prop :=
  req.p = 0 ∧ a.find req.combinedId = none ∧
    (sweep (State.crossed req.slot (State.newIndex c req)) req.q (a req.slot.flip)).left = 0

namespace Lob

variable {c : Config} {a : Lob} {req : OrderRequest} {gen : Nat → Nat}

/-- A new order that is taken on. -/
theorem step_new (hact : req.action = .new) (hnone : a.find req.combinedId = none)
    (hvalid : req.type ≠ .market → c.priceInvalid req.p = 0) (hp : ¬ (req.p ≤ 0 ∧ req.type = .limit))
    (hq : 1 ≤ req.q) (hmax : req.q ≤ globalMaxQty) : a.step c gen req =
      (a.execute c gen req.slot (State.createOrder req) (State.newIndex c req)).after (newRecord c req) := by
  unfold step newOrder
  rw [hact]
  dsimp only
  rw [if_neg (fun h => h.2 (hvalid h.1)), if_neg (by rw [hnone]; exact Bool.false_ne_true), if_neg hp,
    if_neg (by omega)]

/-- A market order with a price that leads to what a limit order at that price leads to. -/
theorem step_asLimit (gen : Nat → Nat) (hwf : WellFormed c a req) (hm : req.type = .market) (hact : req.action = .new)
    (hnone : a.find req.combinedId = none) (hq : 1 ≤ req.q) (hmax : req.q ≤ globalMaxQty) (hpos : 0 < req.p)
    (hprice : req.p = c.plToPrice (State.newIndex c req) ∨
      (sweep (State.crossed req.slot (c.priceToIndex req.p)) req.q (a req.slot.flip)).left = 0) :
    a.untyped.step c gen { req with type := .limit } =
      ((a.execute c gen req.slot (State.createOrder req) (State.newIndex c req)).after
        (newRecord c req)).through Order.untyped := by
  obtain ⟨s, hs⟩ := hwf.side
  have hslot := OrderRequest.slot_of_side hs
  obtain ⟨i, hi, hpi⟩ := hwf.price hpos.ne'
  have hindex : State.newIndex c { req with type := .limit } = c.priceToIndex req.p := rfl
  have hnone' : a.untyped.find req.combinedId = none := by
    rw [a.find_untyped, hnone]
    rfl
  have hvalid : c.priceInvalid req.p = 0 := by
    rw [hpi]
    exact c.priceInvalid_plToPrice hi
  have hstep : a.untyped.step c gen { req with type := .limit } = _ :=
    step_new hact hnone' (fun _ => hvalid) (fun h => absurd h.1 (Int.not_le.mpr hpos)) hq hmax
  have hcreate : State.createOrder { req with type := .limit } = (State.createOrder req).untyped := rfl
  rw [hstep, hindex, hcreate]
  show ((a.through Order.untyped).execute c gen req.slot (State.createOrder req).untyped _).after _ = _
  rw [Order.untyped_blind.execute]
  -- the level is the same, or nothing is left by then
  have hexecute : a.execute c gen req.slot (State.createOrder req) (c.priceToIndex req.p) =
      a.execute c gen req.slot (State.createOrder req) (State.newIndex c req) := by
    rcases hprice with hrests | hfilled
    · rw [hrests, State.newIndex_market hs hm, c.priceToIndex_plToPrice (c.extreme_lt s)]
    · refine (execute_of_left rfl rfl (fun j hj => ?_) hfilled).symm
      rw [State.newIndex_market hs hm, hslot]
      rw [hslot, hpi, c.priceToIndex_plToPrice hi] at hj
      exact crossed_extreme hi hj
  rw [hexecute]
  rfl

/-- At its price a market order meets nothing that it does not meet at the extreme level. -/
theorem meets_asLimit (hwf : WellFormed c a req) (hm : req.type = .market) (hact : req.action = .new)
    (hp : req.p ≠ 0) (h : a.meets c { req with type := .limit } = true) : a.meets c req = true := by
  obtain ⟨s, hs⟩ := hwf.side
  obtain ⟨i, hi, hpi⟩ := hwf.price hp
  have hslot := OrderRequest.slot_of_side hs
  have hindex : State.newIndex c { req with type := .limit } = i := by
    show c.priceToIndex req.p = i
    rw [hpi, c.priceToIndex_plToPrice hi]
  have hlimit : a.meets c { req with type := .limit } = _ := meets_new hact
  rw [hlimit, hindex, show OrderRequest.slot { req with type := .limit } = s from hslot] at h
  obtain ⟨x, hx, hcross⟩ := (Option.any_eq_true ..).mp h
  rw [meets_new hact, State.newIndex_market hs hm, hslot]
  exact (Option.any_eq_true ..).mpr ⟨x, hx, crossed_extreme hi hcross⟩

/-- A new order that keeps its price, once it is taken on. -/
theorem entered_untyped (hwf : WellFormed c a req) (hK : KeepsPrice c a req) (hact : req.action = .new)
    (hnone : a.find req.combinedId = none) (hvalid : req.type ≠ .market → c.priceInvalid req.p = 0)
    (hp : ¬ (req.p ≤ 0 ∧ req.type = .limit)) (hq : 1 ≤ req.q) (hmax : req.q ≤ globalMaxQty) :
    ∃ req', WellFormed c a.untyped req' ∧ (a.untyped.meets c req' = true → req'.orderId ≠ 0) ∧
      a.untyped.step c gen req' =
        ((a.execute c gen req.slot (State.createOrder req) (State.newIndex c req)).after
          (newRecord c req)).through Order.untyped ∧
      (req'.action = .new → req'.type = .market → a.untyped.FillsMarket c req') := by
  have hnone' : a.untyped.find req.combinedId = none := by
    rw [a.find_untyped, hnone]
    rfl
  have hid : a.untyped.meets c req = true → req.orderId ≠ 0 := by
    rw [a.meets_untyped]
    exact hK.id
  rcases hwf.type hact with hlimit | hm
  · -- a limit order is read as it is
    refine ⟨req, hwf.untyped, hid, ?_, fun _ hm => ?_⟩
    · have hcreate : State.createOrder req = (State.createOrder req).untyped := by
        unfold State.createOrder Order.untyped
        rw [hlimit]
      rw [step_new hact hnone' hvalid hp hq hmax, hcreate]
      show ((a.through Order.untyped).execute c gen req.slot (State.createOrder req).untyped _).after _ = _
      rw [Order.untyped_blind.execute, ← hcreate]
      rfl
    · rw [hlimit] at hm
      cases hm
  · have hasLimit := step_asLimit gen hwf hm hact hnone hq hmax
    have hwf' : WellFormed c a.untyped { req with type := .limit } :=
      ⟨hwf.side, hwf.untyped.named, fun _ => Or.inl rfl, hwf.price⟩
    have hidLimit : req.p ≠ 0 → a.untyped.meets c { req with type := .limit } = true → req.orderId ≠ 0 := by
      rw [a.meets_untyped]
      exact fun hp hmeets => hK.id (meets_asLimit hwf hm hact hp hmeets)
    rcases hK.market hact hm hnone hq hmax with ⟨hpos, hrests⟩ | ⟨hpos, hfilled⟩
    · exact ⟨{ req with type := .limit }, hwf', hidLimit hpos.ne', hasLimit hpos (Or.inl hrests),
        fun _ h => (by cases h)⟩
    · by_cases hzero : req.p = 0
      · -- without a price it stays a market order
        have hreach : req.reach c = State.newIndex c req := if_pos hzero
        rw [hreach] at hfilled
        have hfills : a.untyped.FillsMarket c req := by
          refine ⟨hzero, hnone', ?_⟩
          show (sweep _ req.q ((a req.slot.flip).map Order.untyped)).left = 0
          rw [Order.untyped_blind.sweep]
          exact hfilled
        refine ⟨req, hwf.untyped, hid, ?_, fun _ _ => hfills⟩
        have hsame : a.untyped.execute c gen req.slot (State.createOrder req) (State.newIndex c req) =
            a.untyped.execute c gen req.slot (State.createOrder req).untyped (State.newIndex c req) :=
          execute_of_left rfl rfl (fun _ h => h) hfills.2.2
        rw [step_new hact hnone' hvalid hp hq hmax, hsame]
        show ((a.through Order.untyped).execute c gen req.slot (State.createOrder req).untyped _).after _ = _
        rw [Order.untyped_blind.execute]
        rfl
      · have hreach : req.reach c = c.priceToIndex req.p := if_neg hzero
        rw [hreach] at hfilled
        exact ⟨{ req with type := .limit }, hwf', hidLimit hzero,
          hasLimit (lt_of_le_of_ne hpos (Ne.symm hzero)) (Or.inr hfilled), fun _ h => (by cases h)⟩

/-- Whatever a request leads to that keeps the price: it is refused, or the same comes of a request
to the book of limit orders. The market orders among these come without a price, and nothing of
them is left. -/
theorem step_untyped (gen : Nat → Nat) (hwf : WellFormed c a req) (hK : KeepsPrice c a req) :
    (∃ qRem code, a.step c gen req = a.reject c gen req qRem code) ∨
      ∃ req', WellFormed c a.untyped req' ∧ (a.untyped.meets c req' = true → req'.orderId ≠ 0) ∧
        a.untyped.step c gen req' = (a.step c gen req).through Order.untyped ∧
        (req'.action = .new → req'.type = .market → a.untyped.FillsMarket c req') := by
  by_cases hact : req.action = .new
  · have hout := step_outcome c gen a req
    generalize a.step c gen req = ans at hout
    cases hout with
    | rejected qRem code => exact Or.inl ⟨qRem, code, rfl⟩
    | entered _ hnone hvalid hp hq hmax =>
      exact Or.inr (entered_untyped hwf hK hact hnone hvalid hp hq hmax)
    | cancelled h _ => exact absurd (hact.symm.trans h) (by decide)
    | kept h _ _ _ _ _ _ => exact absurd (hact.symm.trans h) (by decide)
    | finished h _ _ _ _ _ => exact absurd (hact.symm.trans h) (by decide)
    | requeued h _ _ _ _ _ => exact absurd (hact.symm.trans h) (by decide)
    | shrunk h _ _ _ _ _ _ => exact absurd (hact.symm.trans h) (by decide)
  · refine Or.inr ⟨req, hwf.untyped, ?_, Order.untyped_blind.step c gen a hact, fun hnew => absurd hnew hact⟩
    rw [a.meets_untyped]
    exact hK.id

/-- The records of such a request, replayed, bring the book of limit orders about. -/
theorem step_follows (gen : Nat → Nat) (hok : a.Ok c) (hwf : WellFormed c a req) (hK : KeepsPrice c a req) :
    Follows c a.untyped (a.step c gen req).recs (a.step c gen req).lob.untyped := by
  rcases step_untyped gen hwf hK with ⟨qRem, code, hreject⟩ | ⟨req', hwf', -, hstep, hfills⟩
  · rw [hreject]
    refine Follows.skip a.untyped fun r hr => ?_
    rw [List.mem_singleton.mp hr]
    rfl
  · have hfollows := (step_outcome c gen a.untyped req').follows hok.untyped
      (fun hact hm => (hfills hact hm).1) hwf'
    rw [hstep] at hfollows
    exact hfollows

/-! ## Where market orders rest -/

/-- The market orders of the book are at the extreme levels. -/
def AtExtreme (a : Lob) (c : Config) : Prop := ∀ s, ∀ o ∈ a s, o.type = .market → o.level = c.extreme s

/-- Market orders rest at the end of the grid only, with one order less, -/
theorem AtExtreme.remove (h : a.AtExtreme c) (id : Nat) : (a.remove id).AtExtreme c :=
  fun s o ho => h s o (mem_remove.mp ho).1

/-- and behind an order that trades and rests there. -/
theorem AtExtreme.execute (h : a.AtExtreme c) (gen : Nat → Nat) {s : Slot} {t : Order} {idx : Nat}
    (ht : t.type = .market → idx = c.extreme s) : (a.execute c gen s t idx).lob.AtExtreme c := by
  intro s' o ho
  by_cases hs : s' = s
  · subst hs
    rw [execute_self] at ho
    split at ho
    · exact h s' o ho
    · rcases mem_place.mp ho with rfl | ho
      · exact ht
      · exact h s' o ho
  · obtain rfl : s' = s.flip := Slot.eq_flip hs
    rw [execute_flip] at ho
    obtain ⟨m, hm, k, -, rfl⟩ := mem_sweep_rest _ _ ho
    exact h s.flip m hm

/-- A request that keeps the price moves none of them. -/
theorem AtExtreme.outcome (h : a.AtExtreme c) (hwf : WellFormed c a req) (hK : KeepsPrice c a req) {ans : Answer}
    (hout : Outcome c gen a req ans) : ans.lob.AtExtreme c := by
  cases hout with
  | rejected _ _ => exact h
  | entered _ _ _ _ _ _ =>
    obtain ⟨s, hs⟩ := hwf.side
    rw [OrderRequest.slot_of_side hs]
    exact h.execute gen fun hm => State.newIndex_market hs hm
  | cancelled _ _ => exact h.remove _
  | kept _ _ _ _ _ _ _ => exact h
  | finished _ _ _ _ _ _ => exact h.remove _
  | @requeued s o hact hfind hq _ hexec _ =>
    refine (h.remove _).execute gen fun hm => ?_
    rcases hK.modify hact (s, o) hfind hm hq with hstays | hdone
    · rw [hstays]
      exact h s o (mem_of_find hfind).1 hm
    · exact absurd hexec (Nat.not_lt.mpr hdone)
  | shrunk _ _ _ _ _ _ _ =>
    intro s x hx
    obtain ⟨m, hm, rfl⟩ := List.mem_map.mp hx
    split
    · exact h s m hm
    · exact h s m hm

/-- So `load_snapshot` puts every order where it was. -/
theorem AtExtreme.snapshot_index (h : a.AtExtreme c) (hok : a.Ok c) {s : Slot} {o : Order} (ho : o ∈ a s) :
    (o.snapshot c s).index c = o.level := by
  by_cases hm : o.type = .market
  · rw [h s o ho hm]
    unfold OrderSnapshot.index Order.snapshot
    rw [if_pos hm]
    cases s <;> rfl
  · exact hok.snapshot_index ho hm

end Lob

/-! ## Runs -/

/-- The journal of a run that keeps prices leads to the book, but for the types. -/
theorem Served.follows_untyped {c : Config} {reqs : List OrderRequest} {st : State}
    (h : Served (KeepsPrice c) c reqs st) :
    Follows c (fun _ => []) st.log st.book.lob.untyped ∧ st.book.lob.AtExtreme c := by
  induction h with
  | fresh _ =>
    rw [fresh_lob]
    exact ⟨.nil _, fun s o ho => absurd ho List.not_mem_nil⟩
  | step hst hK hreq hrun ih =>
    obtain ⟨hlob, hlog, -⟩ := hst.reachable.step_answer hreq hrun
    rw [hlog, hlob]
    exact ⟨ih.1.append (Lob.step_follows _ hst.reachable.ok hreq hK),
      ih.2.outcome hreq hK (Lob.step_outcome ..)⟩

end Exchange
