import Mathlib.Algebra.Order.BigOperators.Group.List
import Exchange.Book.Limits
import Exchange.Book.Safety
import Exchange.Requests.Generator

/-!
# What `CSVDataGen` writes

The requests of the generator have a shape (`Generated`): a new order is for a price on its own side of
the base price, or for the best price of the other side and no more than what rests there; a modification
asks for a price on the order's own side; and a cancel or a modification names an order that rests, or
none. From this follows what a book makes of them (`Generated.answer`): the sides stay apart, an order that
trades on entry never rests, and what is rejected names an order that is gone or asks for less than it has
traded.
-/

namespace Exchange

open Lib

/-- The id a target is kept under in a book. -/
def Target.combinedId (t : Target) : Nat := combinedOrderId t.clientId (UInt32.ofNat t.orderId)

namespace CSVDataGen

/-! ## Prices -/

/-- A price of one of the levels on a side of the base price. -/
def Passive (s : Slot) (p : Int) : Prop := ∃ k, 1 ≤ k ∧ k ≤ initialPriceLevels ∧ p = priceAt s k

/-- A book whose orders rest at these prices. -/
def Apart (c : Config) (a : Lob) : Prop := ∀ s, ∀ o ∈ a s, Passive s (c.plToPrice o.level)

/-- A book that has these prices. -/
def Wide (c : Config) : Prop := ∀ s p, Passive s p → c.OnGrid p

theorem Passive.bounds {s : Slot} {p : Int} (h : Passive s p) :
    match s with
    | .bid => basePrice - 80000 ≤ p ∧ p ≤ basePrice - 10000
    | .ask => basePrice + 10000 ≤ p ∧ p ≤ basePrice + 80000 := by
  obtain ⟨k, hlow, hhigh, rfl⟩ := h
  unfold initialPriceLevels at hhigh
  cases s
  · show basePrice - 80000 ≤ basePrice - k * 10000 ∧ basePrice - k * 10000 ≤ basePrice - 10000
    omega
  · show basePrice + 10000 ≤ basePrice + k * 10000 ∧ basePrice + k * 10000 ≤ basePrice + 80000
    omega

theorem Passive.pos {s : Slot} {p : Int} (h : Passive s p) : 0 < p := by
  have hbounds := h.bounds
  unfold basePrice at hbounds
  cases s
  · dsimp only at hbounds
    omega
  · dsimp only at hbounds
    omega

/-- Bids are below offers. -/
theorem Passive.lt {p p' : Int} (h : Passive .bid p) (h' : Passive .ask p') : p < p' := by
  have hbid := h.bounds
  have hask := h'.bounds
  dsimp only at hbid hask
  omega

/-- The generator's own book has the sixteen prices. -/
theorem bookConfig_wide : Wide bookConfig := by
  have hrange : ∀ s, ∀ k ∈ List.range 9, bookConfig.OnGrid (priceAt s k) := by
    intro s k hk
    have hk := List.mem_range.mp hk
    cases s with
    | bid =>
      refine ⟨16808 - 5 * k, by show _ < 65536; omega, ?_⟩
      show (50000000 : Int) - k * 10000 = (((16808 - 5 * k : Nat) : Int) + ((8192 : Nat) : Int)) * 2000
      omega
    | ask =>
      refine ⟨16808 + 5 * k, by show _ < 65536; omega, ?_⟩
      show (50000000 : Int) + k * 10000 = (((16808 + 5 * k : Nat) : Int) + ((8192 : Nat) : Int)) * 2000
      omega
  rintro s p ⟨k, -, hk, rfl⟩
  exact hrange s k (List.mem_range.mpr (Nat.lt_succ_of_le hk))

/-- A price of the own side meets no order of the other. -/
theorem Apart.clear {c : Config} {a : Lob} (h : Apart c a) {s : Slot} {idx : Nat}
    (hidx : Passive s (c.plToPrice idx)) :
    (a s.flip).head?.any (fun o => State.crossed s idx o.level) = false := by
  cases hhead : a s.flip with
  | nil => rfl
  | cons m ms =>
    have hm := h s.flip m (hhead ▸ List.mem_cons_self)
    rw [List.head?_cons, Option.any_some]
    cases s with
    | bid =>
      have hlt := hidx.lt hm
      refine decide_eq_false fun hle => ?_
      have := c.plToPrice_le.mpr hle
      omega
    | ask =>
      have hlt := Passive.lt hm hidx
      refine decide_eq_false fun hle => ?_
      have := c.plToPrice_le.mpr hle
      omega

/-! ## Sweeps that use up the taker -/

/-- The makers a sweep reaches come first. -/
theorem crossed_first {s : Slot} {idx : Nat} {ms : List Order}
    (h : ms.Pairwise fun x y => ¬ s.flip.better y.level x.level) :
    ms.Pairwise fun x y => State.crossed s idx y.level = true → State.crossed s idx x.level = true := by
  refine h.imp fun {x y} hxy hy => ?_
  cases s with
  | bid =>
    have hy := of_decide_eq_true hy
    have hle : ¬ y.level < x.level := hxy
    exact decide_eq_true (by omega)
  | ask =>
    have hy := of_decide_eq_true hy
    have hle : ¬ x.level < y.level := hxy
    exact decide_eq_true (by omega)

/-- A taker that asks for no more than the makers have is used up. -/
theorem sweep_left_of_total {x : Nat → Bool} (ms : List Order) (r : Nat) :
    (ms.Pairwise fun m m' => x m'.level = true → x m.level = true) →
      r ≤ ((ms.filter fun m => x m.level).map Order.qtyRemaining).sum → (sweep x r ms).left = 0 := by
  refine sweep_induction (P := fun r ms w => (ms.Pairwise fun m m' => x m'.level = true → x m.level = true) →
    r ≤ ((ms.filter fun m => x m.level).map Order.qtyRemaining).sum → w.left = 0) (fun r _ hr => ?_)
    (fun r m ms hstop hfirst hr => ?_) (fun r m ms w _ hx hle ih hfirst hr => ?_) (fun _ _ _ _ _ _ _ _ => rfl) ms r
  · exact Nat.le_zero.mp hr
  · rcases hstop with hzero | hnot
    · exact hzero
    · -- nothing behind a maker that is not reached is reached
      have hnone : (m :: ms).filter (fun m => x m.level) = [] := by
        refine List.filter_eq_nil_iff.mpr fun y hy hxy => ?_
        rcases List.mem_cons.mp hy with rfl | hy
        · rw [hnot] at hxy
          exact Bool.false_ne_true hxy
        · rw [(List.pairwise_cons.mp hfirst).1 y hy hxy] at hnot
          exact Bool.false_ne_true hnot.symm
      rw [hnone] at hr
      exact Nat.le_zero.mp hr
  · refine ih (List.pairwise_cons.mp hfirst).2 ?_
    rw [List.filter_cons_of_pos (by exact hx), List.map_cons, List.sum_cons] at hr
    omega

/-- The ids a sweep trades away are those that are gone. -/
theorem sweep_completed {x : Nat → Bool} (id : Nat) (ms : List Order) (r : Nat) :
    (ms.map Order.orderId).Nodup →
      ((∃ f ∈ (sweep x r ms).fills, f.makerLeft = 0 ∧ f.maker.orderId = id) ↔
        (∃ m ∈ ms, m.orderId = id) ∧ ∀ m ∈ (sweep x r ms).rest, m.orderId ≠ id) := by
  suffices h : (∀ y ∈ (sweep x r ms).rest, ∃ m ∈ ms, m.orderId = y.orderId) ∧ ((ms.map Order.orderId).Nodup →
      ((∃ f ∈ (sweep x r ms).fills, f.makerLeft = 0 ∧ f.maker.orderId = id) ↔
        (∃ m ∈ ms, m.orderId = id) ∧ ∀ m ∈ (sweep x r ms).rest, m.orderId ≠ id)) from h.2
  refine sweep_induction (P := fun _ ms w => (∀ y ∈ w.rest, ∃ m ∈ ms, m.orderId = y.orderId) ∧
    ((ms.map Order.orderId).Nodup → ((∃ f ∈ w.fills, f.makerLeft = 0 ∧ f.maker.orderId = id) ↔
      (∃ m ∈ ms, m.orderId = id) ∧ ∀ m ∈ w.rest, m.orderId ≠ id))) (fun r => ?_)
    (fun r m ms _ => ?_) (fun r m ms w _ _ _ ih => ?_) (fun r m ms hr _ hlt => ?_) ms r
  · refine ⟨fun y hy => absurd hy List.not_mem_nil, fun _ => iff_of_false ?_ ?_⟩
    · exact fun ⟨f, hf, _⟩ => absurd hf List.not_mem_nil
    · exact fun ⟨⟨m, hm, _⟩, _⟩ => absurd hm List.not_mem_nil
  · refine ⟨fun y hy => ⟨y, hy, rfl⟩, fun _ => iff_of_false ?_ ?_⟩
    · exact fun ⟨f, hf, _⟩ => absurd hf List.not_mem_nil
    · exact fun ⟨⟨m', hm', hid⟩, hgone⟩ => hgone m' hm' hid
  · obtain ⟨hrest, hiff⟩ := ih
    refine ⟨fun y hy => ?_, fun hnodup => ?_⟩
    · obtain ⟨m', hm', hid⟩ := hrest y hy
      exact ⟨m', List.mem_cons_of_mem _ hm', hid⟩
    obtain ⟨hm, hms⟩ := List.nodup_cons.mp hnodup
    have hiff := hiff hms
    constructor
    · rintro ⟨f, hf, hzero, hid⟩
      rcases List.mem_cons.mp hf with rfl | hf
      · -- the maker in front, whose id no other has
        refine ⟨⟨m, List.mem_cons_self, hid⟩, fun y hy heq => ?_⟩
        obtain ⟨m', hm', hid'⟩ := hrest y hy
        exact hm (List.mem_map.mpr ⟨m', hm', hid'.trans (heq.trans hid.symm)⟩)
      · obtain ⟨⟨m', hm', hid'⟩, hgone⟩ := hiff.mp ⟨f, hf, hzero, hid⟩
        exact ⟨⟨m', List.mem_cons_of_mem _ hm', hid'⟩, hgone⟩
    · rintro ⟨⟨m', hm', hid'⟩, hgone⟩
      rcases List.mem_cons.mp hm' with rfl | hm'
      · exact ⟨_, List.mem_cons_self, Nat.sub_self _, hid'⟩
      · obtain ⟨f, hf, hzero, hid⟩ := hiff.mpr ⟨⟨m', hm', hid'⟩, hgone⟩
        exact ⟨f, List.mem_cons_of_mem _ hf, hzero, hid⟩
  · have hids : ∀ y ∈ m.fill r :: ms, ∃ m' ∈ m :: ms, m'.orderId = y.orderId := by
      intro y hy
      rcases List.mem_cons.mp hy with rfl | hy
      · exact ⟨m, List.mem_cons_self, rfl⟩
      · exact ⟨y, List.mem_cons_of_mem _ hy, rfl⟩
    refine ⟨hids, fun _ => iff_of_false ?_ ?_⟩
    · rintro ⟨f, hf, hzero, -⟩
      obtain rfl := List.mem_singleton.mp hf
      have hleft : m.qtyRemaining - r = 0 := hzero
      omega
    · rintro ⟨⟨m', hm', hid'⟩, hgone⟩
      rcases List.mem_cons.mp hm' with rfl | hm'
      · exact hgone _ List.mem_cons_self hid'
      · exact hgone m' (List.mem_cons_of_mem _ hm') hid'

/-! ## The shapes of requests -/

/-- A request of the generator, for a book as it stands. -/
inductive Generated (c : Config) (a : Lob) (req : OrderRequest) : Prop
  | passive {s : Slot} (hact : req.action = .new) (htype : req.type = .limit) (hside : req.side = s.side)
      (hnew : a.find req.combinedId = none) (hp : Passive s req.p) (hq : 100 ≤ req.q ∧ req.q ≤ 5000)
  | crossing {s : Slot} {o : Order} {rest : List Order} (hact : req.action = .new) (htype : req.type = .limit)
      (hside : req.side = s.side) (hnew : a.find req.combinedId = none) (hbest : a s.flip = o :: rest)
      (hp : req.p = c.plToPrice o.level) (hq : 1 ≤ req.q ∧ req.q ≤ 500)
      (htotal : req.q ≤ (((a s.flip).filter (·.level = o.level)).map Order.qtyRemaining).sum)
  | cancel {s : Slot} (hact : req.action = .cancel) (hside : req.side = s.side)
      (hnamed : ∀ s' o, a.find req.combinedId = some (s', o) → s' = s) (hp : req.p = 0)
  | modify {s : Slot} (hact : req.action = .modify) (hside : req.side = s.side)
      (hnamed : ∀ s' o, a.find req.combinedId = some (s', o) → s' = s) (hp : Passive s req.p)
      (hq : 100 ≤ req.q ∧ req.q ≤ 5000)

section Shapes

variable {c : Config} {a : Lob} {req : OrderRequest}

/-- Its price is one of the generator's. -/
theorem Generated.price (hapart : Apart c a) (h : Generated c a req) (hp : req.p ≠ 0) : ∃ s, Passive s req.p := by
  cases h with
  | @passive s _ _ _ _ hpassive _ => exact ⟨s, hpassive⟩
  | @crossing s o rest _ _ _ _ hbest hprice _ _ =>
    exact ⟨s.flip, hprice ▸ hapart s.flip o (hbest ▸ List.mem_cons_self)⟩
  | cancel _ _ _ hzero => exact absurd hzero hp
  | @modify s _ _ _ hpassive _ => exact ⟨s, hpassive⟩

/-- A generated request is well formed. -/
theorem Generated.wellFormed (hapart : Apart c a) (hwide : Wide c) (h : Generated c a req) : WellFormed c a req := by
  have hold : req.action = .cancel ∨ req.action = .modify → req.action ≠ .new := by
    rintro (hact | hact)
    · rw [hact]
      decide
    · rw [hact]
      decide
  refine ⟨?_, fun hact s o hfind => ?_, fun hact => ?_, fun hp => ?_⟩
  · cases h with
    | @passive s _ _ hside _ _ _ => exact ⟨s, hside⟩
    | @crossing s _ _ _ _ hside _ _ _ _ _ => exact ⟨s, hside⟩
    | @cancel s _ hside _ _ => exact ⟨s, hside⟩
    | @modify s _ hside _ _ _ => exact ⟨s, hside⟩
  · cases h with
    | passive hnew _ _ _ _ _ => exact absurd hnew (hold hact)
    | crossing hnew _ _ _ _ _ _ _ => exact absurd hnew (hold hact)
    | cancel _ hside hnamed _ => exact hside.trans (congrArg Slot.side (hnamed s o hfind).symm)
    | modify _ hside hnamed _ _ => exact hside.trans (congrArg Slot.side (hnamed s o hfind).symm)
  · cases h with
    | passive _ htype _ _ _ _ => exact .inl htype
    | crossing _ htype _ _ _ _ _ _ => exact .inl htype
    | cancel hcancel _ _ _ => exact absurd (hact.symm.trans hcancel) (by decide)
    | modify hmodify _ _ _ _ => exact absurd (hact.symm.trans hmodify) (by decide)
  · obtain ⟨s, hs⟩ := h.price hapart hp
    exact hwide s req.p hs

/-- The index of a price of the generator. -/
theorem Passive.index (hwide : Wide c) {s : Slot} {p : Int} (h : Passive s p) :
    c.plToPrice (c.priceToIndex p) = p ∧ c.priceInvalid p = 0 := by
  have hgrid := hwide s p h
  obtain ⟨i, hi, hp⟩ := hgrid
  exact ⟨by rw [hp, c.priceToIndex_plToPrice hi], Config.OnGrid.valid ⟨i, hi, hp⟩⟩

/-- A new order of the generator is entered. -/
theorem step_entered (hact : req.action = .new) (htype : req.type = .limit) (hnew : a.find req.combinedId = none)
    (hvalid : c.priceInvalid req.p = 0) (hp : 0 < req.p) (hq : 1 ≤ req.q) (hmax : req.q ≤ 5000) (gen : Nat → Nat) :
    a.step c gen req =
      (a.execute c gen req.slot (State.createOrder req) (c.priceToIndex req.p)).after (Lob.newRecord c req) := by
  have hidx : State.newIndex c req = c.priceToIndex req.p := by
    unfold State.newIndex
    rw [htype, if_neg (by decide)]
  unfold Lob.step
  rw [hact]
  unfold Lob.newOrder
  dsimp only
  rw [if_neg fun h => h.2 hvalid, hnew, if_neg (by decide), if_neg (by omega), if_neg, hidx]
  unfold globalMaxQty
  omega

/-- What a book makes of a request of the generator. -/
structure Sent (c : Config) (a : Lob) (filled : Nat → Prop) (req : OrderRequest) (ans : Answer) : Prop where
  apart : Apart c ans.lob
  ids : ∀ s, ∀ o ∈ ans.lob s, (∃ o' ∈ a s, o'.orderId = o.orderId) ∨ (req.action = .new ∧ o.orderId = req.combinedId)
  rejected : ∀ r ∈ ans.recs, r.execType = .rejected → r.rejectCode = .orderNotFound ∨ r.rejectCode = .invalidModify
  completed : ∀ id, (∃ r ∈ ans.recs, r.execType = .fill ∧ 0 < r.q ∧ r.combinedId = id) ↔ filled id

/-- A record that is no rejection, and of no trade that completes an order. -/
def Plain (r : OrderResponse) : Prop := r.execType ≠ .rejected ∧ (r.execType = .fill → r.q = 0)

/-- A record that is neither a rejection nor a fill. -/
theorem plain_of_type {r : OrderResponse} {e : ExecType} (h : r.execType = e) (he : e ≠ .rejected ∧ e ≠ .fill) :
    Plain r := ⟨h ▸ he.1, fun hfill => absurd (h.symm.trans hfill) he.2⟩

/-- An answer with nothing but plain records. -/
theorem sent_of_plain {ans : Answer} (hapart : Apart c ans.lob)
    (hids : ∀ s, ∀ o ∈ ans.lob s, (∃ o' ∈ a s, o'.orderId = o.orderId) ∨
      (req.action = .new ∧ o.orderId = req.combinedId))
    (hrecs : ∀ r ∈ ans.recs, Plain r) : Sent c a (fun _ => False) req ans :=
  ⟨hapart, hids, fun r hr hrej => absurd hrej (hrecs r hr).1, fun _ => iff_false_intro
    fun ⟨r, hr, hfill, hpos, _⟩ => absurd ((hrecs r hr).2 hfill) hpos.ne'⟩

/-- A taker at a price of its own side meets nothing and rests. -/
theorem execute_quiet (hapart : Apart c a) {s : Slot} {idx : Nat} (hidx : Passive s (c.plToPrice idx)) (t : Order)
    (gen : Nat → Nat) : (a.execute c gen s t idx).recs = [] ∧ Apart c (a.execute c gen s t idx).lob ∧
      ∀ s', ∀ o ∈ (a.execute c gen s t idx).lob s', (∃ o' ∈ a s', o'.orderId = o.orderId) ∨
        (s' = s ∧ o.orderId = t.orderId) := by
  obtain ⟨hrecs, hlob⟩ := Lob.execute_stop c gen (a := a) (s := s) (t := t) (.inr (hapart.clear hidx))
  have hmem : ∀ s', ∀ o ∈ (a.execute c gen s t idx).lob s',
      o ∈ a s' ∨ (s' = s ∧ o = { t with priceLevel := some idx }) := by
    intro s' o ho
    rw [hlob] at ho
    split at ho
    · exact .inl ho
    · rcases Lob.mem_place_update.mp ho with hnew | hold
      · exact .inr hnew
      · exact .inl hold
  refine ⟨hrecs, fun s' o ho => ?_, fun s' o ho => ?_⟩
  · rcases hmem s' o ho with hold | ⟨rfl, rfl⟩
    · exact hapart s' o hold
    · exact hidx
  · rcases hmem s' o ho with hold | ⟨rfl, rfl⟩
    · exact .inl ⟨o, hold, rfl⟩
    · exact .inr ⟨rfl, rfl⟩

variable (req) in
/-- A new order that meets nothing. -/
theorem passive_sent (hapart : Apart c a) (hwide : Wide c) {s : Slot} (hact : req.action = .new)
    (htype : req.type = .limit) (hside : req.side = s.side) (hnew : a.find req.combinedId = none)
    (hp : Passive s req.p) (hq : 100 ≤ req.q ∧ req.q ≤ 5000) (gen : Nat → Nat) :
    Sent c a (fun _ => False) req (a.step c gen req) := by
  obtain ⟨hprice, hvalid⟩ := hp.index hwide
  rw [step_entered hact htype hnew hvalid hp.pos (by omega) hq.2, OrderRequest.slot_of_side hside]
  obtain ⟨hrecs, hafter, hids⟩ := execute_quiet hapart (hprice.symm ▸ hp) (State.createOrder req) gen
  refine sent_of_plain hafter (fun s' o ho => (hids s' o ho).imp_right fun hid => ⟨hact, hid.2⟩) fun r hr => ?_
  rw [Answer.after_recs, hrecs] at hr
  rw [List.mem_singleton.mp hr]
  exact plain_of_type (e := .new) rfl (by decide)

/-- What is rejected changes nothing. -/
theorem reject_sent (hapart : Apart c a) {code : RejectCode} (hcode : code = .orderNotFound ∨ code = .invalidModify)
    (qRem : Nat) (gen : Nat → Nat) : Sent c a (fun _ => False) req (a.reject c gen req qRem code) := by
  refine ⟨hapart, fun s o ho => .inl ⟨o, ho, rfl⟩, fun r hr _ => ?_, fun id => iff_false_intro ?_⟩
  · rw [List.mem_singleton.mp hr]
    exact hcode
  · rintro ⟨r, hr, hfill, -⟩
    rw [List.mem_singleton.mp hr] at hfill
    cases hfill

/-- Taking an order out leaves the sides apart. -/
theorem Apart.remove (h : Apart c a) (id : Nat) : Apart c (a.remove id) := fun s o ho =>
  h s o (Lob.mem_remove.mp ho).1

theorem cancel_sent (hapart : Apart c a) (hact : req.action = .cancel) (gen : Nat → Nat) :
    Sent c a (fun _ => False) req (a.step c gen req) := by
  unfold Lob.step
  rw [hact]
  dsimp only
  unfold Lob.cancelOrder
  cases a.find req.combinedId with
  | none => exact reject_sent hapart (.inl rfl) 0 gen
  | some so =>
    refine sent_of_plain (hapart.remove _) (fun s o ho => .inl ⟨o, (Lob.mem_remove.mp ho).1, rfl⟩) fun r hr => ?_
    rw [List.mem_singleton.mp hr]
    exact plain_of_type (e := .cancelled) rfl (by decide)

variable (req) in
/-- A modification trades nothing either: it asks for a price of the order's own side. -/
theorem modify_sent (hapart : Apart c a) (hwide : Wide c) {s : Slot} (hact : req.action = .modify)
    (hnamed : ∀ s' o, a.find req.combinedId = some (s', o) → s' = s) (hp : Passive s req.p)
    (hq : 100 ≤ req.q ∧ req.q ≤ 5000) (gen : Nat → Nat) : Sent c a (fun _ => False) req (a.step c gen req) := by
  obtain ⟨hprice, hvalid⟩ := hp.index hwide
  have hmax : ¬ globalMaxQty < req.q := by
    unfold globalMaxQty
    omega
  unfold Lob.step
  rw [hact]
  dsimp only
  unfold Lob.modifyOrder
  cases hfind : a.find req.combinedId with
  -- an order that was filled is not found
  | none => exact reject_sent hapart (.inl rfl) 0 gen
  | some so =>
    obtain ⟨s', o⟩ := so
    obtain rfl := hnamed s' o hfind
    have htarget : req.target c o = c.priceToIndex req.p := if_pos hp.pos.ne'
    dsimp only
    rw [if_neg hmax, if_neg fun h => h.2 hvalid, htarget]
    unfold Lob.replaceOrder
    have hreplaced : Plain (Lob.replaceRecord c req o (c.priceToIndex req.p) (req.newQty o)) :=
      plain_of_type (e := .replaced) rfl (by decide)
    have hremoved : ∀ s, ∀ o' ∈ a.remove o.orderId s, ∃ o'' ∈ a s, o''.orderId = o'.orderId := fun s o' ho' =>
      ⟨o', (Lob.mem_remove.mp ho').1, rfl⟩
    -- less than it has traded; as it was; nothing left; to another level or more; less
    split
    · exact reject_sent hapart (.inr rfl) _ gen
    split
    · refine sent_of_plain hapart (fun s o ho => .inl ⟨o, ho, rfl⟩) fun r hr => ?_
      rw [List.mem_singleton.mp hr]
      exact hreplaced
    split
    · refine sent_of_plain (hapart.remove _) (fun s o' ho' => .inl (hremoved s o' ho')) fun r hr => ?_
      rcases List.mem_cons.mp hr with rfl | hr
      · exact hreplaced
      · rw [List.mem_singleton.mp hr]
        exact ⟨ExecType.noConfusion, fun _ => rfl⟩
    split
    · obtain ⟨hrecs, hafter, hids⟩ :=
        execute_quiet (hapart.remove o.orderId) (hprice.symm ▸ hp) (o.resized (req.newQty o)) gen
      refine sent_of_plain hafter (fun s'' o' ho' => .inl ?_) fun r hr => ?_
      · rcases hids s'' o' ho' with ⟨o'', ho'', hid⟩ | ⟨rfl, hid⟩
        · exact ⟨o'', (Lob.mem_remove.mp ho'').1, hid⟩
        · exact ⟨o, (Lob.mem_of_find hfind).1, hid.symm⟩
      · rw [Answer.after_recs, hrecs] at hr
        rw [List.mem_singleton.mp hr]
        exact hreplaced
    · refine sent_of_plain (fun s'' o' ho' => ?_) (fun s'' o' ho' => .inl ?_) fun r hr => ?_
      · obtain ⟨m, hm, -, hlevel, -⟩ := Lob.mem_resize ho'
        exact hlevel ▸ hapart s'' m hm
      · obtain ⟨m, hm, hid, -, -⟩ := Lob.mem_resize ho'
        exact ⟨m, hm, hid⟩
      · rw [List.mem_singleton.mp hr]
        exact hreplaced

end Shapes

/-! ## Trades -/

/-- A record says `Fill` when nothing is left. -/
theorem fillType_eq_fill {left : Nat} : State.fillType left = .fill ↔ left = 0 := by
  unfold State.fillType
  split
  · rename_i h
    exact iff_of_true rfl h
  · rename_i h
    exact iff_of_false (by decide) h

/-- The records of a sweep that complete an order. -/
theorem completed_tradeRecords {c : Config} {taker : Nat} (htaker : taker < 2 ^ 64) (s : Slot) (id : Nat)
    {fs : List Fill} (hfs : ∀ f ∈ fs, 0 < f.qty ∧ f.maker.orderId < 2 ^ 64) (gen : Nat → Nat) :
    (∃ r ∈ tradeRecords c taker s gen fs, r.execType = .fill ∧ 0 < r.q ∧ r.combinedId = id) ↔
      (taker = id ∧ ∃ f ∈ fs, f.left = 0) ∨ ∃ f ∈ fs, f.makerLeft = 0 ∧ f.maker.orderId = id := by
  induction fs generalizing gen with
  | nil =>
    refine iff_of_false (fun ⟨r, hr, _⟩ => absurd hr List.not_mem_nil) ?_
    rintro (⟨-, f, hf, -⟩ | ⟨f, hf, -⟩)
    · exact absurd hf List.not_mem_nil
    · exact absurd hf List.not_mem_nil
  | cons f fs ih =>
    obtain ⟨⟨hqty, hmaker⟩, hrest⟩ := List.forall_mem_cons.mp hfs
    have hfirst : ∀ (side side' : Side) (p p' : Int),
        ((c.response (State.fillType f.left) taker (gen 0) side p f.qty f.left .none).execType = .fill ∧ 0 < f.qty ∧
          (c.response (State.fillType f.left) taker (gen 0) side p f.qty f.left .none).combinedId = id ↔
            taker = id ∧ f.left = 0) ∧
        ((c.response (State.fillType f.makerLeft) f.maker.orderId (gen 0) side' p' f.qty f.makerLeft
            .none).execType = .fill ∧ 0 < f.qty ∧ (c.response (State.fillType f.makerLeft) f.maker.orderId (gen 0)
            side' p' f.qty f.makerLeft .none).combinedId = id ↔ f.makerLeft = 0 ∧ f.maker.orderId = id) := by
      intro side side' p p'
      rw [c.response_combinedId _ _ _ _ _ _ _ htaker, c.response_combinedId _ _ _ _ _ _ _ hmaker]
      constructor
      · exact ⟨fun h => ⟨h.2.2, fillType_eq_fill.mp h.1⟩, fun h => ⟨fillType_eq_fill.mpr h.2, hqty, h.1⟩⟩
      · exact ⟨fun h => ⟨fillType_eq_fill.mp h.1, h.2.2⟩, fun h => ⟨fillType_eq_fill.mpr h.1, hqty, h.2⟩⟩
    obtain ⟨htake, hmake⟩ := hfirst s.side s.flip.side (c.plToPrice f.maker.level) (c.plToPrice f.maker.level)
    unfold tradeRecords
    simp only [List.exists_mem_cons_iff, ih hrest]
    constructor
    · rintro (h | h | ⟨hid, hex⟩ | hex)
      · obtain ⟨hid, hleft⟩ := htake.mp h
        exact .inl ⟨hid, .inl hleft⟩
      · exact .inr (.inl (hmake.mp h))
      · exact .inl ⟨hid, .inr hex⟩
      · exact .inr (.inr hex)
    · rintro (⟨hid, hleft | hex⟩ | h | hex)
      · exact .inl (htake.mpr ⟨hid, hleft⟩)
      · exact .inr (.inr (.inl ⟨hid, hex⟩))
      · exact .inr (.inl (hmake.mpr h))
      · exact .inr (.inr (.inr hex))

/-- A taker that is used up had a last trade. -/
theorem exists_last_fill {x : Nat → Bool} (ms : List Order) (r : Nat) :
    r ≠ 0 → (sweep x r ms).left = 0 → ∃ f ∈ (sweep x r ms).fills, f.left = 0 := by
  refine sweep_induction (P := fun r _ w => r ≠ 0 → w.left = 0 → ∃ f ∈ w.fills, f.left = 0)
    (fun r hr hleft => absurd hleft hr) (fun r _ _ _ hr hleft => absurd hleft hr)
    (fun r m ms w _ _ hle ih _ hleft => ?_) (fun _ _ _ _ _ _ _ _ => ⟨_, List.mem_cons_self, rfl⟩) ms r
  by_cases hrest : r - m.qtyRemaining = 0
  · exact ⟨_, List.mem_cons_self, hrest⟩
  · obtain ⟨f, hf, hzero⟩ := ih hrest hleft
    exact ⟨f, List.mem_cons_of_mem _ hf, hzero⟩

/-- What an order that meets the best price completes: itself, and the orders that are gone. -/
def Completes (a : Lob) (req : OrderRequest) (ans : Answer) (id : Nat) : Prop :=
  req.combinedId = id ∨ (∃ s, ∃ o ∈ a s, o.orderId = id) ∧ ∀ s, ∀ o ∈ ans.lob s, o.orderId ≠ id

/-- An order for no more than rests at the best price. -/
theorem crossing_sent {c : Config} {a : Lob} (req : OrderRequest) (hok : a.Ok c) (hapart : Apart c a)
    (hwide : Wide c) {s : Slot} {o : Order} {rest : List Order} (hact : req.action = .new)
    (htype : req.type = .limit) (hside : req.side = s.side) (hnew : a.find req.combinedId = none)
    (hbest : a s.flip = o :: rest) (hp : req.p = c.plToPrice o.level) (hq : 1 ≤ req.q ∧ req.q ≤ 500)
    (htotal : req.q ≤ (((a s.flip).filter (·.level = o.level)).map Order.qtyRemaining).sum) (gen : Nat → Nat) :
    Sent c a (Completes a req (a.step c gen req)) req (a.step c gen req) ∧
      ∀ s', ∀ o ∈ (a.step c gen req).lob s', o.orderId ≠ req.combinedId := by
  have ho : o ∈ a s.flip := hbest ▸ List.mem_cons_self
  have hpassive : Passive s.flip req.p := hp ▸ hapart s.flip o ho
  obtain ⟨-, hvalid⟩ := hpassive.index hwide
  have hidx : c.priceToIndex req.p = o.level := by rw [hp, c.priceToIndex_plToPrice (hok.level ho).2]
  rw [step_entered hact htype hnew hvalid hpassive.pos hq.1 (by omega), OrderRequest.slot_of_side hside, hidx]
  -- the taker is used up
  have hself : State.crossed s o.level o.level = true := by cases s <;> exact decide_eq_true le_rfl
  have hreach : req.q ≤ (((a s.flip).filter fun m => State.crossed s o.level m.level).map Order.qtyRemaining).sum := by
    have hsub : ((a s.flip).filter (·.level = o.level)).Sublist
        ((a s.flip).filter fun m => State.crossed s o.level m.level) :=
      List.monotone_filter_right _ fun m hm => by rw [of_decide_eq_true hm]; exact hself
    exact htotal.trans ((hsub.map _).sum_le_sum fun _ _ => Nat.zero_le _)
  have hleft := sweep_left_of_total (a s.flip) req.q (crossed_first (hok.sorted s.flip)) hreach
  have hlob : ∀ s', ((a.execute c gen s (State.createOrder req) o.level).after (Lob.newRecord c req)).lob s' =
      if s' = s then a s' else (sweep (State.crossed s o.level) req.q (a s.flip)).rest := by
    intro s'
    rw [Answer.after_lob]
    by_cases hs : s' = s
    · rw [if_pos hs, hs, Lob.execute_self]
      exact if_pos hleft
    · obtain rfl : s' = s.flip := Slot.eq_flip hs
      rw [if_neg hs, Lob.execute_flip]
      rfl
  have hold : ∀ s', ∀ x ∈ ((a.execute c gen s (State.createOrder req) o.level).after (Lob.newRecord c req)).lob s',
      ∃ y ∈ a s', y.orderId = x.orderId ∧ y.level = x.level := by
    intro s' x hx
    rw [hlob] at hx
    split at hx
    · exact ⟨x, hx, rfl, rfl⟩
    · rename_i hs
      obtain rfl : s' = s.flip := Slot.eq_flip hs
      obtain ⟨m, hm, k, -, rfl⟩ := mem_sweep_rest _ _ hx
      exact ⟨m, hm, rfl, rfl⟩
  refine ⟨⟨fun s' x hx => ?_, fun s' x hx => ?_, fun r hr hrej => ?_, fun id => ?_⟩, fun s' x hx hid => ?_⟩
  · obtain ⟨y, hy, -, hlevel⟩ := hold s' x hx
    exact hlevel ▸ hapart s' y hy
  · obtain ⟨y, hy, hid, -⟩ := hold s' x hx
    exact .inl ⟨y, hy, hid⟩
  · rcases List.mem_cons.mp hr with rfl | hr
    · cases hrej
    · rcases tradeRecords_execType hr with hfill | hpart
      · cases hrej.symm.trans hfill
      · cases hrej.symm.trans hpart
  · have hmakers : ∀ f ∈ (sweep (State.crossed s o.level) req.q (a s.flip)).fills,
        0 < f.qty ∧ f.maker.orderId < 2 ^ 64 := fun f hf =>
      ⟨Nat.pos_of_ne_zero (sweep_fills_pos _ _ (fun m hm => (hok.sane hm).pos) f hf),
        (hok.sane (mem_sweep_fills _ _ hf)).id⟩
    have hlast := exists_last_fill (a s.flip) req.q (by omega) hleft
    have hack : ¬ ((Lob.newRecord c req).execType = .fill ∧ 0 < (Lob.newRecord c req).q ∧
        (Lob.newRecord c req).combinedId = id) := fun h => ExecType.noConfusion h.1
    have hgone : ((∃ m ∈ a s.flip, m.orderId = id) ∧
        ∀ m ∈ (sweep (State.crossed s o.level) req.q (a s.flip)).rest, m.orderId ≠ id) ↔
        (∃ s', ∃ o ∈ a s', o.orderId = id) ∧ ∀ s', ∀ x ∈ ((a.execute c gen s (State.createOrder req)
          o.level).after (Lob.newRecord c req)).lob s', x.orderId ≠ id := by
      constructor
      · rintro ⟨⟨m, hm, hid⟩, hrest⟩
        refine ⟨⟨s.flip, m, hm, hid⟩, fun s' x hx hid' => ?_⟩
        rw [hlob] at hx
        split at hx
        · rename_i hs
          subst hs
          exact Slot.flip_ne s' (hok.unique hm hx (hid.trans hid'.symm)).1
        · exact hrest x hx hid'
      · rintro ⟨⟨s', m, hm, hid⟩, hnot⟩
        have hs : s' ≠ s := fun hs => hnot s' m (by rw [hlob, if_pos hs]; exact hm) hid
        obtain rfl : s' = s.flip := Slot.eq_flip hs
        exact ⟨⟨m, hm, hid⟩, fun x hx => hnot s.flip x (by rw [hlob, if_neg hs]; exact hx)⟩
    have hcompleted := completed_tradeRecords (c := c) req.combinedId_lt s id hmakers gen
    rw [sweep_completed id (a s.flip) req.q (hok.ids_nodup s.flip), hgone] at hcompleted
    unfold Completes
    rw [Answer.after_recs, List.exists_mem_cons_iff, or_iff_right hack]
    refine hcompleted.trans (or_congr_left ?_)
    exact and_iff_left hlast
  · obtain ⟨y, hy, hid', -⟩ := hold s' x hx
    exact Lob.find_eq_none hnew hy (hid'.trans hid)

/-- A generated request: nothing is rejected, and what is filled is done. -/
theorem Generated.sent {c : Config} {a : Lob} {req : OrderRequest} (hok : a.Ok c) (hapart : Apart c a)
    (hwide : Wide c) (h : Generated c a req) (gen : Nat → Nat) : ∃ filled, Sent c a filled req (a.step c gen req) := by
  cases h with
  | passive hact htype hside hnew hp hq => exact ⟨_, passive_sent _ hapart hwide hact htype hside hnew hp hq gen⟩
  | crossing hact htype hside hnew hbest hp hq htotal =>
    exact ⟨_, (crossing_sent _ hok hapart hwide hact htype hside hnew hbest hp hq htotal gen).1⟩
  | cancel hact _ _ _ => exact ⟨_, cancel_sent hapart hact gen⟩
  | modify hact _ hnamed hp hq => exact ⟨_, modify_sent _ hapart hwide hact hnamed hp hq gen⟩

/-! ## The generator -/

/-- The request of a row that is written next. -/
def nextRequest (g : CSVDataGen) (orderId : Nat) (clientId : UInt32) (action : OrderAction) (side : Side)
    (price : Int) (quantity : Nat) : OrderRequest where
  action := action
  execId := g.reqId
  orderId := UInt32.ofNat orderId
  clientId := clientId
  symbolId := symbolId
  side := side
  type := .limit
  p := price
  q := quantity
  visibleQty := 0
  timestamp := g.timestamp

/-- The book holds together, its sides are apart, and the clocks count the rows. -/
structure Kept (g : CSVDataGen) : Prop where
  inv : ∃ q, Inv g.book q
  cfg : g.book.cfg = bookConfig
  apart : Apart bookConfig g.book.lob
  reqId : g.reqId = g.rowsWritten + 1
  timestamp : g.timestamp = baseTimestamp + g.rowsWritten

/-- A row is in the file, and the book has answered it. -/
structure Wrote (g g' : CSVDataGen) (req : OrderRequest) : Prop where
  rows : g'.rows = g.rows ++ [req.row]
  count : g'.rowsWritten = g.rowsWritten + 1
  target : g'.targetRows = g.targetRows
  written : req.Written
  generated : Generated bookConfig g.book.lob req
  lob : ∀ gen, g'.book.lob = (g.book.lob.step bookConfig gen req).lob

/-- The generator's book is in good order. -/
theorem Kept.ok {g : CSVDataGen} (h : Kept g) : g.book.lob.Ok bookConfig := by
  obtain ⟨q, hq⟩ := h.inv
  rw [hq.lob_eq, ← h.cfg]
  exact hq.ok

/-- A row in one of the shapes is answered. -/
theorem Kept.request {g : CSVDataGen} (h : Kept g) (hrows : g.rowsWritten + 1 < 2 ^ 32) {orderId : Nat}
    (hid : orderId < 2 ^ 32) {clientId : UInt32} {action : OrderAction} {side : Side} {price : Int} {quantity : Nat}
    (hact : action = .new ∨ action = .modify ∨ action = .cancel)
    (hgen : Generated bookConfig g.book.lob (g.nextRequest orderId clientId action side price quantity))
    (hp : -2 ^ 63 ≤ price ∧ price < 2 ^ 63) (hq : quantity < 2 ^ 64) :
    ∃ st, g.request orderId clientId action side price quantity =
        some { g.writeRow orderId clientId action side price quantity with state := st } ∧
      Kept { g.writeRow orderId clientId action side price quantity with state := st } ∧
      Wrote g { g.writeRow orderId clientId action side price quantity with state := st }
        (g.nextRequest orderId clientId action side price quantity) := by
  have hreqId := h.reqId
  have htime := h.timestamp
  unfold baseTimestamp at htime
  have hwf := hgen.wellFormed h.apart bookConfig_wide
  obtain ⟨q, hinv⟩ := h.inv
  obtain ⟨st, hrun, hans⟩ := Inv.answers (show Inv g.state.book q from hinv) h.cfg hwf
  obtain ⟨q', hinv', hflat⟩ := hans.lob
  have hlob : st.book.lob = (g.book.lob.step bookConfig g.state.gen
      (g.nextRequest orderId clientId action side price quantity)).lob := hinv'.lob_eq.trans hflat
  -- the counters are one ahead when the book is given the row
  have hgiven : (g.writeRow orderId clientId action side price quantity).processRequest action orderId clientId side
      price quantity = some { g.writeRow orderId clientId action side price quantity with state := st } := by
    have hexecId : ((g.reqId + 1) % 2 ^ 64 + 2 ^ 64 - 1) % 2 ^ 64 = g.reqId := by omega
    have hstamp : ((g.timestamp + 1) % 2 ^ 64 + 2 ^ 64 - 1) % 2 ^ 64 = g.timestamp := by omega
    unfold processRequest writeRow
    dsimp only
    rw [hexecId, hstamp]
    exact congrArg (Option.bind · _) hrun
  obtain ⟨filled, hsent⟩ := hgen.sent h.ok h.apart bookConfig_wide g.state.gen
  refine ⟨st, hgiven, ⟨⟨q', hinv'⟩, hans.cfg.trans h.cfg, ?_, ?_, ?_⟩, ⟨?_, rfl, rfl, ?_, hgen, fun gen => ?_⟩⟩
  · show Apart bookConfig st.book.lob
    rw [hlob]
    exact hsent.apart
  · show (g.reqId + 1) % 2 ^ 64 = g.rowsWritten + 1 + 1
    omega
  · show (g.timestamp + 1) % 2 ^ 64 = baseTimestamp + (g.rowsWritten + 1)
    unfold baseTimestamp
    omega
  · have htoNat : (UInt32.ofNat orderId).toNat = orderId := UInt32.toNat_ofNat_of_lt' hid
    show g.rows ++ [requestRow g.reqId orderId _ _ _ _ _ _ _] =
      g.rows ++ [requestRow g.reqId (UInt32.ofNat orderId).toNat _ _ _ _ _ _ _]
    rw [htoNat]
    rfl
  -- the request is one that can be written
  · obtain ⟨s, hs⟩ := hwf.side
    have hside : side = s.side := hs
    refine ⟨hact, ?_, rfl, rfl, show g.reqId < 2 ^ 64 by omega, hp, hq, show g.timestamp < 2 ^ 64 by omega⟩
    show side = .buy ∨ side = .sell
    rw [hside]
    cases s
    · exact .inl rfl
    · exact .inr rfl
  · exact hlob.trans (h.ok.step_alike g.state.gen gen _).lob.symm

/-- An id the generator has given away, to one of its clients. -/
def Known (next id : Nat) : Prop :=
  ∃ n < next, ∃ client : UInt32, 1001 ≤ client.toNat ∧ id = combinedOrderId client (UInt32.ofNat n)

theorem Known.mono {next next' id : Nat} (h : Known next id) (hle : next ≤ next') : Known next' id := by
  obtain ⟨n, hn, hclient⟩ := h
  exact ⟨n, Nat.lt_of_lt_of_le hn hle, hclient⟩

/-- The next id is not given away yet. -/
theorem Known.fresh {next id : Nat} (h : Known next id) (hnext : next < 2 ^ 32) (clientId : UInt32) :
    id ≠ combinedOrderId clientId (UInt32.ofNat next) := by
  obtain ⟨n, hn, client, -, rfl⟩ := h
  intro heq
  have hnat := congrArg UInt32.toNat (combinedOrderId_inj heq).2
  rw [UInt32.toNat_ofNat_of_lt' (Nat.lt_trans hn hnext), UInt32.toNat_ofNat_of_lt' hnext] at hnat
  exact absurd hnat hn.ne

/-- No order is kept under an id that leaves out its client. -/
theorem Known.ne_uncombined {next id n : Nat} (h : Known next id) (hn : n < 2 ^ 32) : id ≠ n := by
  obtain ⟨n', -, client, hclient, rfl⟩ := h
  rw [combinedOrderId_eq]
  omega

/-- An order that was filled: it has been entered, and is not in the book. -/
structure Listed (g : CSVDataGen) (t : Target) : Prop where
  orderId : t.orderId < 2 ^ 32
  side : ∃ s : Slot, t.side = s.side
  known : Known g.nextOrderId t.combinedId
  gone : ∀ s, ∀ o ∈ g.book.lob s, o.orderId ≠ t.combinedId

/-- What holds between two rows. -/
structure Sound (g : CSVDataGen) : Prop extends Kept g where
  known : ∀ s, ∀ o ∈ g.book.lob s, Known g.nextOrderId o.orderId
  filled : ∀ t ∈ g.filledOrders, Listed g t
  next : g.nextOrderId ≤ g.rowsWritten + 1

/-- The id is one of `filled_orders_`. -/
def IsFilled (g : CSVDataGen) (id : Nat) : Prop := ∃ t ∈ g.filledOrders, t.combinedId = id

/-- A record completes the order with this id. -/
def Completed (recs : List OrderResponse) (id : Nat) : Prop :=
  ∃ r ∈ recs, r.execType = .fill ∧ 0 < r.q ∧ r.combinedId = id

/-- A row, with what it is answered with and what is remembered of it. -/
structure Step (g g' : CSVDataGen) (req : OrderRequest) : Prop extends Wrote g g' req where
  rejected : ∀ gen, ∀ r ∈ (g.book.lob.step bookConfig gen req).recs, r.execType = .rejected →
    r.rejectCode = .orderNotFound ∨ r.rejectCode = .invalidModify
  completed : ∀ gen id, g'.IsFilled id ↔
    g.IsFilled id ∨ Completed (g.book.lob.step bookConfig gen req).recs id

/-- A row is written, and all is well behind it. -/
def Writes (g : CSVDataGen) (x : Option CSVDataGen) : Prop := ∃ g' req, x = some g' ∧ Step g g' req ∧ Sound g'

/-- The next order id is one of 32 bits. -/
theorem Sound.next_lt {g : CSVDataGen} (h : Sound g) (hrows : g.rowsWritten + 1 < 2 ^ 32) :
    g.nextOrderId < 2 ^ 32 := Nat.lt_of_le_of_lt h.next hrows

theorem Passive.word {s : Slot} {p : Int} (h : Passive s p) : -2 ^ 63 ≤ p ∧ p < 2 ^ 63 := by
  have hbounds := h.bounds
  unfold basePrice at hbounds
  cases s
  · dsimp only at hbounds
    omega
  · dsimp only at hbounds
    omega

theorem randomInt_mem (g : CSVDataGen) {low high : Nat} (h : low ≤ high) :
    low ≤ (g.randomInt low high).1 ∧ (g.randomInt low high).1 ≤ high := by
  have hmod := Nat.mod_lt (g.rng 0) (show 0 < high + 1 - low by omega)
  show low ≤ low + g.rng 0 % (high + 1 - low) ∧ low + g.rng 0 % (high + 1 - low) ≤ high
  omega

/-- A drawn client is one of the known ones. -/
theorem randomClient_toNat (g : CSVDataGen) : 1001 ≤ g.randomClient.1.toNat := by
  have hmem := g.randomInt_mem (show 1001 ≤ 9999 by omega)
  show 1001 ≤ (UInt32.ofNat (g.randomInt 1001 9999).1).toNat
  rw [UInt32.toNat_ofNat_of_lt' (show (g.randomInt 1001 9999).1 < 2 ^ 32 by omega)]
  exact hmem.1

theorem passivePrice_passive (g : CSVDataGen) (s : Slot) : Passive s (g.passivePrice s).1 := by
  obtain ⟨hlow, hhigh⟩ := g.randomInt_mem (show 1 ≤ initialPriceLevels by decide)
  exact ⟨_, hlow, hhigh, rfl⟩

/-- A row that trades nothing. -/
theorem Step.of_quiet {g g' : CSVDataGen} {req : OrderRequest} (h : Wrote g g' req)
    (hsent : ∀ gen, Sent bookConfig g.book.lob (fun _ => False) req (g.book.lob.step bookConfig gen req))
    (hfilled : g'.filledOrders = g.filledOrders) : Step g g' req := by
  refine ⟨h, fun gen => (hsent gen).rejected, fun gen id => ?_⟩
  unfold IsFilled Completed
  rw [hfilled, (hsent gen).completed id, or_false]

/-- What holds behind a row. -/
theorem Sound.after {g g' : CSVDataGen} {req : OrderRequest} {filled : Nat → Prop} (h : Sound g) (hkept : Kept g')
    (hwrote : Wrote g g' req) (hsent : Sent bookConfig g.book.lob filled req (g.book.lob.step bookConfig id req))
    (hle : g.nextOrderId ≤ g'.nextOrderId) (hnext : g'.nextOrderId ≤ g'.rowsWritten + 1)
    (hnew : req.action = .new → Known g'.nextOrderId req.combinedId ∧
      ∀ k, Known g.nextOrderId k → k ≠ req.combinedId)
    (hfilled : ∀ t ∈ g'.filledOrders, t ∈ g.filledOrders ∨ Listed g' t) : Sound g' := by
  have hids := hsent.ids
  rw [← hwrote.lob id] at hids
  refine ⟨hkept, fun s o ho => ?_, fun t ht => ?_, hnext⟩
  · rcases hids s o ho with ⟨o', ho', hid⟩ | ⟨hact, hid⟩
    · rw [← hid]
      exact (h.known s o' ho').mono hle
    · rw [hid]
      exact (hnew hact).1
  · rcases hfilled t ht with hold | hlisted
    · obtain ⟨horder, hside, hknown, hgone⟩ := h.filled t hold
      refine ⟨horder, hside, hknown.mono hle, fun s o ho => ?_⟩
      rcases hids s o ho with ⟨o', ho', hid⟩ | ⟨hact, hid⟩
      · rw [← hid]
        exact hgone s o' ho'
      · rw [hid]
        exact ((hnew hact).2 _ hknown).symm
    · exact hlisted

/-- The id of a new order is known from now on, and was not before. -/
theorem Sound.new_id {g : CSVDataGen} (h : Sound g) (hrows : g.rowsWritten + 1 < 2 ^ 32) {client : UInt32}
    (hclient : 1001 ≤ client.toNat) :
    Known (g.nextOrderId + 1) (combinedOrderId client (UInt32.ofNat g.nextOrderId)) ∧
      (∀ k, Known g.nextOrderId k → k ≠ combinedOrderId client (UInt32.ofNat g.nextOrderId)) ∧
      g.book.lob.find (combinedOrderId client (UInt32.ofNat g.nextOrderId)) = none := by
  have hfresh : ∀ k, Known g.nextOrderId k → k ≠ combinedOrderId client (UInt32.ofNat g.nextOrderId) :=
    fun k hk => hk.fresh (h.next_lt hrows) client
  refine ⟨⟨g.nextOrderId, Nat.lt_succ_self _, client, hclient, rfl⟩, hfresh, ?_⟩
  by_contra hsome
  obtain ⟨⟨s, o⟩, hfind⟩ := Option.ne_none_iff_exists'.mp hsome
  obtain ⟨hmem, hid⟩ := Lob.mem_of_find hfind
  exact hfresh _ (h.known s o hmem) hid

/-- A new order at a passive price. -/
theorem Sound.writeNewPassive {g : CSVDataGen} (h : Sound g) (hrows : g.rowsWritten + 1 < 2 ^ 32) {s : Slot}
    {price : Int} (hp : Passive s price) : Writes g (g.writeNewPassive s price) := by
  have hquantity := g.takeOrderId.2.randomClient.2.randomInt_mem (show 100 ≤ 5000 by omega)
  obtain ⟨hknown, hfresh, hnone⟩ := h.new_id hrows g.takeOrderId.2.randomClient_toNat
  let g₁ := g.takeOrderId.2.randomClient.2.randomQuantity.2
  have hkept : Kept g₁ := ⟨h.inv, h.cfg, h.apart, h.reqId, h.timestamp⟩
  have hgen : Generated bookConfig g₁.book.lob (g₁.nextRequest g.nextOrderId g.takeOrderId.2.randomClient.1 .new s.side
      price g.takeOrderId.2.randomClient.2.randomQuantity.1) := .passive rfl rfl rfl hnone hp hquantity
  obtain ⟨st, hrun, hkept', hwrote⟩ := hkept.request hrows (h.next_lt hrows) (.inl rfl) hgen hp.word
    (Nat.lt_of_le_of_lt hquantity.2 (by decide))
  have hsent := fun gen => passive_sent (g₁.nextRequest g.nextOrderId g.takeOrderId.2.randomClient.1 .new s.side
    price g.takeOrderId.2.randomClient.2.randomQuantity.1) h.apart bookConfig_wide rfl rfl rfl hnone hp hquantity gen
  have hwrote' : Wrote g _ _ :=
    ⟨hwrote.rows, hwrote.count, hwrote.target, hwrote.written, hwrote.generated, hwrote.lob⟩
  exact ⟨_, _, hrun, .of_quiet hwrote' hsent rfl, h.after hkept' hwrote' (hsent id) (Nat.le_succ _)
    (Nat.succ_le_succ h.next) (fun _ => ⟨hknown, hfresh⟩) fun t ht => .inl ht⟩

/-- The random numbers are not looked at otherwise. -/
theorem Sound.draw {g : CSVDataGen} (h : Sound g) (r : Nat → Nat) : Sound { g with rng := r } :=
  ⟨⟨h.inv, h.cfg, h.apart, h.reqId, h.timestamp⟩, h.known,
    fun t ht => ⟨(h.filled t ht).orderId, (h.filled t ht).side, (h.filled t ht).known, (h.filled t ht).gone⟩, h.next⟩

theorem Writes.of_draw {g : CSVDataGen} {r : Nat → Nat} {x : Option CSVDataGen}
    (h : Writes { g with rng := r } x) : Writes g x := by
  obtain ⟨g', req, hx, hstep, hsound⟩ := h
  exact ⟨g', req, hx, ⟨⟨hstep.rows, hstep.count, hstep.target, hstep.written, hstep.generated, hstep.lob⟩,
    hstep.rejected, hstep.completed⟩, hsound⟩

/-- A passive order is one more row, in good order. -/
theorem Sound.writeRandomPassive {g : CSVDataGen} (h : Sound g) (hrows : g.rowsWritten + 1 < 2 ^ 32) :
    Writes g g.writeRandomPassive := by
  have hp := passivePrice_passive g.randomSide.2 g.randomSide.1
  exact ((h.draw g.randomSide.2.rng).draw (g.randomSide.2.passivePrice g.randomSide.1).2.rng
    |>.writeNewPassive hrows hp).of_draw.of_draw

/-! ## Orders of the book -/

/-- The orders met are those of the book. -/
theorem mem_activePtrs {b : OrderBook} {q : Nat → List Nat} (h : Inv b q) {ptr : Nat} :
    ptr ∈ b.activePtrs ↔ ∃ id, b.activeOrders id = some ptr := by
  unfold OrderBook.activePtrs
  rw [List.mem_filter, List.mem_range]
  constructor
  · rintro ⟨-, hany⟩
    obtain ⟨o, -, hactive⟩ := (Option.any_eq_true ..).mp hany
    exact ⟨o.orderId, of_decide_eq_true hactive⟩
  · rintro ⟨id, hactive⟩
    obtain ⟨s, i, o, -, ho, hq, -, hid, -⟩ := h.active_some hactive
    refine ⟨?_, ?_⟩
    · by_contra hlt
      rw [h.fresh (Nat.le_of_not_lt hlt)] at ho
      cases ho
    · rw [ho]
      exact decide_eq_true (hid.symm ▸ hactive)

/-- What the generator takes down of an order in the book. -/
structure Copied (g : CSVDataGen) (id : Nat) (t : Target) : Prop where
  combinedId : t.combinedId = id
  orderId : t.orderId < 2 ^ 32
  found : ∃ s o, g.book.lob.find id = some (s, o) ∧ t.side = s.side

/-- An order under an id gives the target the generator copies. -/
theorem Kept.targetOf {g : CSVDataGen} (h : Kept g) {ptr id : Nat} (hactive : g.book.activeOrders id = some ptr) :
    ∃ o t, g.book.orders ptr = some o ∧ o.orderId = id ∧ g.targetOf ptr = some t ∧ Copied g id t := by
  obtain ⟨q, hq⟩ := h.inv
  obtain ⟨s, i, o, hfind, ho, -, hlevel, hid, hpl, -, hsane⟩ := hq.active_some hactive
  rw [← hq.lob_eq] at hfind
  have hside : g.sideForLevel i = s := by
    unfold sideForLevel
    split
    · rename_i hbid
      exact hq.chained.slot_unique hbid hlevel
    · rename_i hbid
      cases s with
      | bid => exact absurd hlevel hbid
      | ask => rfl
  refine ⟨o, ⟨(orderIdOf o.orderId).toNat, clientIdOf o.orderId, s.side, g.book.cfg.plToPrice i, o.qtyRemaining⟩,
    ho, hid, ?_, ?_, (orderIdOf o.orderId).toNat_lt, s, o, hfind, rfl⟩
  · unfold CSVDataGen.targetOf
    rw [ho]
    dsimp only [Option.bind_eq_bind, Option.bind_some]
    rw [hpl]
    dsimp only [Option.bind_some]
    rw [hside]
  · show combinedOrderId (clientIdOf o.orderId) (UInt32.ofNat (orderIdOf o.orderId).toNat) = id
    rw [UInt32.ofNat_toNat, combinedOrderId_parts hsane.id, hid]

/-- The request's side is that of the order it names, if there is one. -/
structure Aimed (g : CSVDataGen) (t : Target) : Prop where
  orderId : t.orderId < 2 ^ 32
  side : ∃ s : Slot, t.side = s.side ∧ ∀ s' o, g.book.lob.find t.combinedId = some (s', o) → s' = s

theorem Copied.aimed {g : CSVDataGen} {id : Nat} {t : Target} (h : Copied g id t) : Aimed g t := by
  obtain ⟨s, o, hfind, hside⟩ := h.found
  refine ⟨h.orderId, s, hside, fun s' o' hfind' => ?_⟩
  rw [h.combinedId, hfind] at hfind'
  cases hfind'
  rfl

theorem Listed.aimed {g : CSVDataGen} {t : Target} (h : Listed g t) : Aimed g t := by
  obtain ⟨s, hside⟩ := h.side
  refine ⟨h.orderId, s, hside, fun s' o hfind => ?_⟩
  obtain ⟨hmem, hid⟩ := Lob.mem_of_find hfind
  exact absurd hid (h.gone s' o hmem)

/-- The active orders are those of the index. -/
theorem mem_activeOrders (g : CSVDataGen) {ptr : Nat} : ptr ∈ g.activeOrders ↔ ptr ∈ g.book.activePtrs :=
  (g.iteration.perm g.rowsWritten g.book.activePtrs).mem_iff

/-- A random place in a list that is not empty. -/
theorem exists_at_random {α : Type} (g : CSVDataGen) {l : List α} (h : l ≠ []) :
    ∃ x ∈ l, l[(g.randomInt 0 (l.length - 1)).1]? = some x := by
  have hpos := List.length_pos_of_ne_nil h
  obtain ⟨-, hle⟩ := g.randomInt_mem (Nat.zero_le (l.length - 1))
  have hlt : (g.randomInt 0 (l.length - 1)).1 < l.length := by omega
  exact ⟨_, List.getElem_mem hlt, List.getElem?_eq_getElem hlt⟩

theorem Kept.randomActiveOrder {g : CSVDataGen} (h : Kept g) (hsome : g.book.activePtrs ≠ []) :
    ∃ t r, g.randomActiveOrder = some (t, { g with rng := r }) ∧ Aimed g t := by
  obtain ⟨q, hq⟩ := h.inv
  have hne : g.activeOrders ≠ [] := by
    rw [← List.length_pos_iff] at hsome ⊢
    rw [show g.activeOrders.length = _ from (g.iteration.perm g.rowsWritten g.book.activePtrs).length_eq]
    exact hsome
  obtain ⟨ptr, hptr, hat⟩ := g.exists_at_random hne
  obtain ⟨id, hactive⟩ := (mem_activePtrs hq).mp (g.mem_activeOrders.mp hptr)
  obtain ⟨-, t, -, -, htarget, hcopied⟩ := h.targetOf hactive
  refine ⟨t, (g.randomInt 0 (g.activeOrders.length - 1)).2.rng, ?_, hcopied.aimed⟩
  unfold CSVDataGen.randomActiveOrder
  dsimp only [Option.bind_eq_bind]
  rw [show (g.randomInt 0 (g.activeOrders.length - 1)).2.activeOrders[(g.randomInt 0
    (g.activeOrders.length - 1)).1]? = some ptr from hat]
  dsimp only [Option.bind_some]
  rw [show (g.randomInt 0 (g.activeOrders.length - 1)).2.targetOf ptr = some t from htarget]
  rfl

theorem Sound.randomFilledOrder {g : CSVDataGen} (h : Sound g) (hsome : g.filledOrders ≠ []) :
    ∃ t r, g.randomFilledOrder = some (t, { g with rng := r }) ∧ Aimed g t := by
  obtain ⟨t, ht, hat⟩ := g.exists_at_random hsome
  refine ⟨t, (g.randomInt 0 (g.filledOrders.length - 1)).2.rng, ?_, (h.filled t ht).aimed⟩
  unfold CSVDataGen.randomFilledOrder
  dsimp only [Option.bind_eq_bind]
  rw [show (g.randomInt 0 (g.filledOrders.length - 1)).2.filledOrders[(g.randomInt 0
    (g.filledOrders.length - 1)).1]? = some t from hat]
  rfl

theorem Sound.randomTarget {g : CSVDataGen} (h : Sound g) (hsome : g.book.activePtrs ≠ []) :
    ∃ t r, g.randomTarget = some (t, { g with rng := r }) ∧ Aimed g t := by
  unfold CSVDataGen.randomTarget CSVDataGen.shouldUseFilledOrder
  by_cases hnil : g.filledOrders = []
  · rw [if_pos hnil]
    exact h.randomActiveOrder hsome
  · rw [if_neg hnil]
    dsimp only
    split
    · obtain ⟨t, r, hpick, ht⟩ := (h.draw (g.randomInt 1 100).2.rng).randomFilledOrder hnil
      exact ⟨t, r, hpick, ht.orderId, ht.side⟩
    · obtain ⟨t, r, hpick, ht⟩ := (h.draw (g.randomInt 1 100).2.rng).randomActiveOrder hsome
      exact ⟨t, r, hpick, ht.orderId, ht.side⟩

/-- A request about an order that is aimed at. -/
theorem Sound.aimed {g : CSVDataGen} (h : Sound g) (hrows : g.rowsWritten + 1 < 2 ^ 32) {t : Target}
    (ht : Aimed g t) {action : OrderAction} (hact : action = .modify ∨ action = .cancel) {price : Int} {quantity : Nat}
    (hgen : Generated bookConfig g.book.lob (g.nextRequest t.orderId t.clientId action t.side price quantity))
    (hsent : ∀ gen, Sent bookConfig g.book.lob (fun _ => False)
      (g.nextRequest t.orderId t.clientId action t.side price quantity) (g.book.lob.step bookConfig gen
        (g.nextRequest t.orderId t.clientId action t.side price quantity)))
    (hp : -2 ^ 63 ≤ price ∧ price < 2 ^ 63) (hq : quantity < 2 ^ 64) :
    Writes g (g.request t.orderId t.clientId action t.side price quantity) := by
  obtain ⟨st, hrun, hkept, hwrote⟩ := h.request hrows ht.orderId (.inr hact) hgen hp hq
  refine ⟨_, _, hrun, .of_quiet hwrote hsent rfl, h.after hkept hwrote (hsent id) le_rfl
    (Nat.le_succ_of_le h.next) (fun hnew => ?_) fun t ht => .inl ht⟩
  have hnew : action = .new := hnew
  rcases hact with hact | hact
  · cases hnew.symm.trans hact
  · cases hnew.symm.trans hact

theorem Sound.writeCancel {g : CSVDataGen} (h : Sound g) (hrows : g.rowsWritten + 1 < 2 ^ 32)
    (hsome : g.book.activePtrs ≠ []) : Writes g g.writeCancel := by
  obtain ⟨t, r, hpick, ht⟩ := h.randomTarget hsome
  obtain ⟨s, hside, hnamed⟩ := ht.side
  unfold CSVDataGen.writeCancel
  rw [hpick]
  have h' := h.draw r
  exact (h'.aimed hrows ⟨ht.orderId, ht.side⟩ (.inr rfl) (.cancel rfl hside hnamed rfl)
    (fun gen => cancel_sent h.apart rfl gen) (by decide) (by decide)).of_draw

/-- The price a modification asks for is one of the order's side. -/
theorem passivePriceFor_passive (g : CSVDataGen) (s : Slot) :
    ∃ p r, g.passivePriceFor s.side = (p, { g with rng := r }) ∧ Passive s p := by
  have hslot : (if s.side = .buy then Slot.bid else .ask) = s := by cases s <;> rfl
  unfold passivePriceFor
  rw [hslot]
  exact ⟨_, _, rfl, passivePrice_passive g s⟩

/-- A drawn quantity is between 100 and 5000. -/
theorem randomQuantity_mem (g : CSVDataGen) :
    ∃ n r, g.randomQuantity = (n, { g with rng := r }) ∧ 100 ≤ n ∧ n ≤ 5000 :=
  ⟨_, _, rfl, g.randomInt_mem (show 100 ≤ 5000 by omega)⟩

theorem Sound.writeModify {g : CSVDataGen} (h : Sound g) (hrows : g.rowsWritten + 1 < 2 ^ 32)
    (hsome : g.book.activePtrs ≠ []) : Writes g g.writeModify := by
  obtain ⟨t, r, hpick, ht⟩ := h.randomTarget hsome
  obtain ⟨s, hside, hnamed⟩ := ht.side
  obtain ⟨p, r₁, hprice, hp⟩ := passivePriceFor_passive { g with rng := r } s
  obtain ⟨n, r₂, hquantity, hq⟩ := randomQuantity_mem { g with rng := r₁ }
  unfold CSVDataGen.writeModify
  rw [hpick]
  dsimp only [Option.bind_eq_bind, Option.bind_some]
  rw [hside, hprice]
  dsimp only
  rw [hquantity]
  dsimp only
  rw [← hside]
  have h₂ := h.draw r₂
  have ht₂ : Aimed { g with rng := r₂ } t := ⟨ht.orderId, ht.side⟩
  have hgen : Generated bookConfig g.book.lob
      (nextRequest { g with rng := r₂ } t.orderId t.clientId .modify t.side p n) := .modify rfl hside hnamed hp hq
  have hsent := fun gen => modify_sent (nextRequest { g with rng := r₂ } t.orderId t.clientId .modify t.side p n)
    h.apart bookConfig_wide rfl hnamed hp hq gen
  have hword : n < 2 ^ 64 := Nat.lt_of_le_of_lt hq.2 (by decide)
  exact (h₂.aimed hrows ht₂ (.inl rfl) hgen hsent hp.word hword).of_draw

/-! ## Orders that are filled at once -/

/-- The best level of a side is that of its first order, and its total no more than what rests there. -/
theorem Kept.best {g : CSVDataGen} (h : Kept g) {s : Slot} {i : Nat} (hbest : g.book.bestLevels s = some i) :
    ∃ o rest, g.book.lob s = o :: rest ∧ o.level = i ∧ (g.book.priceArray i).totalQty.toNat ≤
      (((g.book.lob s).filter (·.level = i)).map Order.qtyRemaining).sum := by
  obtain ⟨q, hq⟩ := h.inv
  rw [hq.chained.best] at hbest
  obtain ⟨ls, hls⟩ : ∃ ls, levelsOf g.book.activeLevels s = i :: ls := by
    cases hlevels : levelsOf g.book.activeLevels s with
    | nil =>
      rw [hlevels] at hbest
      cases hbest
    | cons j ls =>
      rw [hlevels] at hbest
      exact ⟨ls, by rw [Option.some.inj hbest]⟩
  have hactive : i ∈ g.book.activeLevels s := mem_levelsOf.mp (hls ▸ List.mem_cons_self)
  obtain ⟨p, ps, hps⟩ := List.exists_cons_of_ne_nil (hq.full s i hactive)
  have hp : p ∈ q i := hps ▸ List.mem_cons_self
  rw [hq.lob_eq, hq.filter_flat hactive]
  refine ⟨deref g.book.orders p, ps.map (deref g.book.orders) ++ ls.flatMap (contents g.book.orders q), ?_,
    hq.alive.level hp, ?_⟩
  · unfold flat
    rw [hls, List.flatMap_cons]
    unfold contents
    rw [hps]
    rfl
  · rw [hq.counted.total, sum_weight_toNat]
    refine (Nat.mod_le _ _).trans (le_of_eq ?_)
    unfold contents
    rw [List.map_map]
    rfl

/-- The copy is one of every order in the book. -/
theorem Kept.activeOrderTargets {g : CSVDataGen} (h : Kept g) :
    ∃ before, g.activeOrderTargets = some before ∧ (∀ x ∈ before, Copied g x.1 x.2) ∧
      ∀ id, (∃ x ∈ before, x.1 = id) ↔ ∃ s, ∃ o ∈ g.book.lob s, o.orderId = id := by
  obtain ⟨q, hq⟩ := h.inv
  -- along the orders that are met
  have hcopy : ∀ ptrs : List Nat, (∀ ptr ∈ ptrs, ∃ id, g.book.activeOrders id = some ptr) →
      ∃ before, ptrs.mapM (fun ptr => do
        let o ← g.book.orders ptr
        let target ← g.targetOf ptr
        some (o.orderId, target)) = some before ∧ (∀ x ∈ before, Copied g x.1 x.2) ∧
      ∀ id, (∃ x ∈ before, x.1 = id) ↔ ∃ ptr ∈ ptrs, g.book.activeOrders id = some ptr := by
    intro ptrs
    induction ptrs with
    | nil =>
      exact fun _ => ⟨[], rfl, fun x hx => absurd hx List.not_mem_nil, fun id => iff_of_false
        (fun ⟨x, hx, _⟩ => absurd hx List.not_mem_nil) fun ⟨ptr, hptr, _⟩ => absurd hptr List.not_mem_nil⟩
    | cons ptr ptrs ih =>
      intro hactive
      obtain ⟨⟨id, hid⟩, hrest⟩ := List.forall_mem_cons.mp hactive
      obtain ⟨o, t, ho, horder, htarget, hcopied⟩ := h.targetOf hid
      obtain ⟨before, hrun, hall, hids⟩ := ih hrest
      refine ⟨(o.orderId, t) :: before, ?_, List.forall_mem_cons.mpr ⟨horder ▸ hcopied, hall⟩, fun id' => ?_⟩
      · rw [List.mapM_cons, hrun, ho]
        dsimp only [Option.bind_eq_bind, Option.bind_some]
        rw [htarget]
        rfl
      · have hsame : o.orderId = id' ↔ g.book.activeOrders id' = some ptr := by
          constructor
          · rintro rfl
            exact horder ▸ hid
          · intro hid'
            obtain ⟨s, i, o', -, ho', -, -, horder', -⟩ := hq.active_some hid'
            rw [← horder', Option.some.inj (ho.symm.trans ho')]
        rw [List.exists_mem_cons_iff, List.exists_mem_cons_iff, hids id', ← hsame]
  obtain ⟨before, hrun, hcopied, hids⟩ := hcopy g.activeOrders fun ptr hptr =>
    (mem_activePtrs hq).mp (g.mem_activeOrders.mp hptr)
  refine ⟨before, hrun, hcopied, fun id => (hids id).trans ?_⟩
  constructor
  · rintro ⟨ptr, -, hactive⟩
    obtain ⟨s, i, o, hfind, -⟩ := hq.active_some hactive
    rw [← hq.lob_eq] at hfind
    obtain ⟨hmem, hid⟩ := Lob.mem_of_find hfind
    exact ⟨s, o, hmem, hid⟩
  · rintro ⟨s, o, ho, hid⟩
    cases hactive : g.book.activeOrders id with
    | some ptr =>
      exact ⟨ptr, g.mem_activeOrders.mpr ((mem_activePtrs hq).mpr ⟨id, hactive⟩), rfl⟩
    | none =>
      rw [hq.lob_eq] at ho
      exact absurd hid (Lob.find_eq_none (hq.active_none hactive) ho)

/-- An id is active if an order of the book has it. -/
theorem Kept.hasActiveOrder {g : CSVDataGen} (h : Kept g) (id : Nat) :
    g.hasActiveOrder id = true ↔ ∃ s, ∃ o ∈ g.book.lob s, o.orderId = id := by
  obtain ⟨q, hq⟩ := h.inv
  refine hq.mem_ids.trans (exists_congr fun s => ?_)
  constructor
  · rintro ⟨o', ho', hid⟩
    obtain ⟨o, ho, rfl⟩ := List.mem_map.mp ho'
    exact ⟨o, ho, hid⟩
  · rintro ⟨o, ho, hid⟩
    exact ⟨o.strip, List.mem_map_of_mem ho, hid⟩

/-- The taker's side, and what is drawn for it. -/
theorem crossingSide_eq (g : CSVDataGen) : ∃ s r, g.crossingSide = (s, { g with rng := r }) := by
  unfold crossingSide
  split
  · exact ⟨_, _, rfl⟩
  · exact ⟨_, _, rfl⟩

/-- A drawn client is 1001 at least. -/
theorem randomClient_known (g : CSVDataGen) :
    ∃ client r, g.randomClient = (client, { g with rng := r }) ∧ 1001 ≤ client.toNat :=
  ⟨_, _, rfl, g.randomClient_toNat⟩

theorem randomInt_eq (g : CSVDataGen) {low high : Nat} (h : low ≤ high) :
    ∃ n r, g.randomInt low high = (n, { g with rng := r }) ∧ low ≤ n ∧ n ≤ high :=
  ⟨_, _, rfl, g.randomInt_mem h⟩

/-- What `filled_orders_` holds when a row has been recorded. -/
theorem mem_recorded {g : CSVDataGen} (h : Kept g) (hids : ∀ s, ∀ o ∈ g.book.lob s, Known g.nextOrderId o.orderId)
    (before : List (Nat × Target)) (taker : Target) (htaker : taker.orderId < 2 ^ 32) (t : Target) :
    t ∈ ((g.recordFilledOrders before).recordTaker taker).filledOrders ↔ t ∈ g.filledOrders ∨
      (∃ x ∈ before, (∀ s, ∀ o ∈ g.book.lob s, o.orderId ≠ x.1) ∧ x.2 = t) ∨ t = taker := by
  have hnone : (g.recordFilledOrders before).hasActiveOrder taker.orderId = false := by
    refine Bool.not_eq_true _ ▸ fun hactive => ?_
    obtain ⟨s, o, ho, hid⟩ := (h.hasActiveOrder taker.orderId).mp hactive
    exact (hids s o ho).ne_uncombined htaker hid
  unfold recordTaker
  rw [hnone, if_neg Bool.false_ne_true]
  unfold recordFilledOrders
  dsimp only
  rw [List.mem_append, List.mem_append, List.mem_singleton, or_assoc]
  refine or_congr_right (or_congr_left ?_)
  rw [List.mem_map]
  refine exists_congr fun x => ?_
  rw [List.mem_filter, and_assoc]
  refine and_congr_right fun _ => and_congr_left fun _ => ?_
  rw [Bool.not_eq_true', ← Bool.not_eq_true, h.hasActiveOrder]
  exact ⟨fun hnot s o ho hid => hnot ⟨s, o, ho, hid⟩, fun hgone ⟨s, o, ho, hid⟩ => hgone s o ho hid⟩

/-- Recording what was filled changes the list only. -/
theorem recorded_eq (g : CSVDataGen) (before : List (Nat × Target)) (taker : Target) :
    ∃ filled, (g.recordFilledOrders before).recordTaker taker = { g with filledOrders := filled } := by
  unfold recordTaker recordFilledOrders
  split
  · exact ⟨_, rfl⟩
  · exact ⟨_, rfl⟩

/-- What is remembered of an order that is filled at once. -/
theorem Sound.writeFillAt {g : CSVDataGen} (h : Sound g) (hrows : g.rowsWritten + 1 < 2 ^ 32) {s : Slot} {i : Nat}
    (hbest : g.book.bestLevels s.flip = some i) (htotal : (g.book.priceArray i).totalQty.toNat ≠ 0) :
    Writes g (g.writeFillAt s i (g.book.priceArray i).totalQty.toNat) := by
  obtain ⟨o, rest, hlob, rfl, hsum⟩ := h.best hbest
  -- what is drawn: a client, and a quantity that the level can fill
  obtain ⟨client, r₁, hclient, hlow⟩ := randomClient_known { g with nextOrderId := g.nextOrderId + 1 }
  obtain ⟨n, r₂, hquantity, hpos, hle⟩ := randomInt_eq { g with nextOrderId := g.nextOrderId + 1, rng := r₁ }
    (show 1 ≤ min (g.book.priceArray o.level).totalQty.toNat 500 by omega)
  obtain ⟨hknown, hfresh, hnone⟩ := h.new_id hrows hlow
  let g₂ : CSVDataGen := { g with nextOrderId := g.nextOrderId + 1, rng := r₂ }
  have hkept : Kept g₂ := ⟨h.inv, h.cfg, h.apart, h.reqId, h.timestamp⟩
  obtain ⟨before, hbefore, hcopied, hids⟩ := hkept.activeOrderTargets
  have hpassive : Passive s.flip (bookConfig.plToPrice o.level) := h.apart s.flip o (hlob ▸ List.mem_cons_self)
  have hcfg : g.book.cfg = bookConfig := h.cfg
  have hq : 1 ≤ n ∧ n ≤ 500 := by omega
  have hrest : n ≤ (((g.book.lob s.flip).filter (·.level = o.level)).map Order.qtyRemaining).sum := by omega
  -- the request takes from the best level of the other side
  have hgen : Generated bookConfig g.book.lob
      (g₂.nextRequest g.nextOrderId client .new s.side (bookConfig.plToPrice o.level) n) :=
    .crossing rfl rfl rfl hnone hlob rfl hq hrest
  have hsent := fun gen => crossing_sent (g₂.nextRequest g.nextOrderId client .new s.side
    (bookConfig.plToPrice o.level) n) h.ok h.apart bookConfig_wide rfl rfl rfl hnone hlob rfl hq hrest gen
  have hword : n < 2 ^ 64 := Nat.lt_of_le_of_lt hq.2 (by decide)
  obtain ⟨st, hrun, hkept', hwrote⟩ := hkept.request hrows (h.next_lt hrows) (.inl rfl) hgen hpassive.word hword
  let taker : Target := ⟨g.nextOrderId, client, s.side, bookConfig.plToPrice o.level, n⟩
  let g₃ : CSVDataGen :=
    { g₂.writeRow g.nextOrderId client .new s.side (bookConfig.plToPrice o.level) n with state := st }
  let g₄ := (g₃.recordFilledOrders before).recordTaker taker
  -- the steps of `writeCrossingFill`, one after the other
  have hwritten : g.writeFillAt s o.level (g.book.priceArray o.level).totalQty.toNat = some g₄ := by
    unfold CSVDataGen.writeFillAt takeOrderId
    dsimp only
    rw [hclient]
    dsimp only
    rw [hquantity]
    dsimp only
    rw [show activeOrderTargets { g with nextOrderId := g.nextOrderId + 1, rng := r₂ } = some before from hbefore]
    dsimp only [Option.bind_eq_bind, Option.bind_some]
    rw [show (book { g with nextOrderId := g.nextOrderId + 1, rng := r₁ }).cfg = bookConfig from hcfg]
    rw [show request { g with nextOrderId := g.nextOrderId + 1, rng := r₂ } g.nextOrderId client .new s.side
      (bookConfig.plToPrice o.level) n = some g₃ from hrun]
    rfl
  have hwrote₃ : Wrote g g₃ (g₂.nextRequest g.nextOrderId client .new s.side (bookConfig.plToPrice o.level) n) :=
    ⟨hwrote.rows, hwrote.count, hwrote.target, hwrote.written, hwrote.generated, hwrote.lob⟩
  have hkeptIds := (hsent id).1.ids
  rw [← hwrote₃.lob id] at hkeptIds
  -- no id in the book is new but the taker's
  have hids₃ : ∀ s', ∀ x ∈ g₃.book.lob s', Known (g.nextOrderId + 1) x.orderId := by
    intro s' x hx
    rcases hkeptIds s' x hx with ⟨y, hy, hid⟩ | ⟨-, hid⟩
    · rw [← hid]
      exact (h.known s' y hy).mono (Nat.le_succ _)
    · rw [hid]
      exact hknown
  have hmem := fun t => mem_recorded hkept' hids₃ before taker (h.next_lt hrows) t
  obtain ⟨filled, hrecorded⟩ := recorded_eq g₃ before taker
  rw [show g₄ = _ from hrecorded] at hwritten
  rw [hrecorded] at hmem
  dsimp only at hmem
  have hkept₄ : Kept { g₃ with filledOrders := filled } :=
    ⟨hkept'.inv, hkept'.cfg, hkept'.apart, hkept'.reqId, hkept'.timestamp⟩
  have hwrote₄ : Wrote g { g₃ with filledOrders := filled } _ :=
    ⟨hwrote₃.rows, hwrote₃.count, hwrote₃.target, hwrote₃.written, hwrote₃.generated, hwrote₃.lob⟩
  refine ⟨_, _, hwritten, ⟨hwrote₄, fun gen => (hsent gen).1.rejected, fun gen id => ?_⟩,
    h.after hkept₄ hwrote₄ (hsent id).1 (Nat.le_succ _) (Nat.succ_le_succ h.next) (fun _ => ⟨hknown, hfresh⟩)
      fun t ht => ?_⟩
  -- filled is who was so before, who has left the book since, and the taker if it is done
  · have hcompleted := (hsent gen).1.completed id
    unfold Completes at hcompleted
    rw [← hwrote₃.lob gen] at hcompleted
    unfold IsFilled
    refine Iff.trans ?_ (or_congr_right hcompleted.symm)
    have htaker : taker.combinedId = combinedOrderId client (UInt32.ofNat g.nextOrderId) := rfl
    simp only [hmem, or_and_right, exists_or]
    refine or_congr_right ?_
    rw [or_comm]
    refine or_congr ⟨?_, fun hid => ⟨taker, rfl, htaker.trans hid⟩⟩ ?_
    · rintro ⟨t, rfl, hid⟩
      exact htaker.symm.trans hid
    constructor
    · rintro ⟨t, ⟨x, hx, hgone, rfl⟩, hid⟩
      rw [(hcopied x hx).combinedId] at hid
      exact ⟨(hids id).mp ⟨x, hx, hid⟩, fun s' y hy => hid ▸ hgone s' y hy⟩
    · rintro ⟨hbook, hgone⟩
      obtain ⟨x, hx, hid⟩ := (hids id).mpr hbook
      exact ⟨x.2, ⟨x, hx, fun s' y hy => hid ▸ hgone s' y hy, rfl⟩, (hcopied x hx).combinedId.trans hid⟩
  -- what is remembered of an order is the order's, and it is gone
  · rcases (hmem t).mp ht with hold | ⟨x, hx, hgone, rfl⟩ | rfl
    · exact .inl hold
    · obtain ⟨hcombined, horder, s', y, hfind, hside⟩ := hcopied x hx
      obtain ⟨hy, hid⟩ := Lob.mem_of_find hfind
      refine .inr ⟨horder, ⟨s', hside⟩, ?_, ?_⟩
      · rw [hcombined, ← hid]
        exact (h.known s' y hy).mono (Nat.le_succ _)
      · rw [hcombined]
        exact hgone
    · refine .inr ⟨h.next_lt hrows, ⟨s, rfl⟩, hknown, ?_⟩
      have hgone := (hsent id).2
      rw [← hwrote₃.lob id] at hgone
      exact hgone

/-- A crossing order is one more row. -/
theorem Sound.writeCrossingFill {g : CSVDataGen} (h : Sound g) (hrows : g.rowsWritten + 1 < 2 ^ 32) :
    Writes g g.writeCrossingFill := by
  obtain ⟨s, r, hside⟩ := g.crossingSide_eq
  have h' := h.draw r
  unfold CSVDataGen.writeCrossingFill
  rw [hside]
  refine Writes.of_draw (r := r) ?_
  dsimp only
  split
  · exact h'.writeRandomPassive hrows
  · rename_i i hbest
    split
    · exact h'.writeRandomPassive hrows
    · rename_i htotal
      exact h'.writeFillAt hrows hbest htotal

/-- Whatever is drawn, a row is written. -/
theorem Sound.writeRandomRequest {g : CSVDataGen} (h : Sound g) (hrows : g.rowsWritten + 1 < 2 ^ 32) :
    Writes g g.writeRandomRequest := by
  unfold CSVDataGen.writeRandomRequest
  split
  · exact h.writeRandomPassive hrows
  · rename_i hsome
    obtain ⟨roll, r, hroll, -⟩ := g.randomInt_eq (show 1 ≤ 100 by omega)
    have h' := h.draw r
    rw [hroll]
    refine Writes.of_draw (r := r) ?_
    dsimp only
    split
    · exact h'.writeCrossingFill hrows
    split
    · exact h'.writeModify hrows hsome
    split
    · exact h'.writeCancel hrows hsome
    · exact h'.writeRandomPassive hrows

/-! ## The file -/

/-- From one state of the generator to another, with these requests in between. -/
inductive Grows (g : CSVDataGen) : List OrderRequest → CSVDataGen → Prop
  | none (h : Sound g) : Grows g [] g
  | row {g' g'' : CSVDataGen} {reqs : List OrderRequest} {req : OrderRequest} (h : Grows g reqs g')
      (hstep : Step g' g'' req) (hsound : Sound g'') : Grows g (reqs ++ [req]) g''

namespace Grows

variable {g g' g'' : CSVDataGen} {reqs reqs' : List OrderRequest}

theorem sound (h : Grows g reqs g') : Sound g' := by
  cases h with
  | none h => exact h
  | row _ _ hsound => exact hsound

theorem trans (h : Grows g reqs g') (h' : Grows g' reqs' g'') : Grows g (reqs ++ reqs') g'' := by
  induction h' with
  | none _ =>
    rw [List.append_nil]
    exact h
  | row _ hstep hsound ih =>
    rw [← List.append_assoc]
    exact ih.row hstep hsound

/-- The rows are the requests, one for one. -/
theorem rows (h : Grows g reqs g') : g'.rows = g.rows ++ reqs.map OrderRequest.row ∧
    g'.rowsWritten = g.rowsWritten + reqs.length ∧ g'.targetRows = g.targetRows ∧ ∀ req ∈ reqs, req.Written := by
  induction h with
  | none _ => exact ⟨(List.append_nil _).symm, rfl, rfl, fun req hreq => absurd hreq List.not_mem_nil⟩
  | @row g' g'' reqs req _ hstep _ ih =>
    obtain ⟨hrows, hcount, htarget, hwritten⟩ := ih
    refine ⟨?_, ?_, hstep.target.trans htarget, fun r hr => ?_⟩
    · rw [hstep.rows, hrows, List.map_append, List.append_assoc]
      rfl
    · rw [hstep.count, hcount, List.length_append]
      rfl
    · rcases List.mem_append.mp hr with hr | hr
      · exact hwritten r hr
      · rw [List.mem_singleton.mp hr]
        exact hstep.written

end Grows

/-- One more row, where there is room for it. -/
theorem Writes.grows {g : CSVDataGen} {x : Option CSVDataGen} (h : Sound g) (hwrites : Writes g x) :
    ∃ g' req, x = some g' ∧ Grows g [req] g' := by
  obtain ⟨g', req, hx, hstep, hsound⟩ := hwrites
  exact ⟨g', req, hx, (Grows.none h).row hstep hsound⟩

theorem initialOrders_passive : ∀ x ∈ initialOrders, Passive x.1 x.2 := by
  intro x hx
  have hlevel : ∀ (s : Slot), ∀ k ∈ List.range initialPriceLevels,
      x ∈ List.replicate initialOrdersPerLevel (s, priceAt s (k + 1)) → Passive x.1 x.2 := by
    intro s k hk hx
    rw [List.eq_of_mem_replicate hx]
    exact ⟨k + 1, Nat.succ_pos k, List.mem_range.mp hk, rfl⟩
  rcases List.mem_append.mp hx with hx | hx
  · obtain ⟨k, hk, hx⟩ := List.mem_flatMap.mp hx
    exact hlevel .bid k (List.mem_reverse.mp hk) hx
  · obtain ⟨k, hk, hx⟩ := List.mem_flatMap.mp hx
    exact hlevel .ask k hk hx

/-- The book the file begins with. -/
theorem Sound.writeInitialBook {g : CSVDataGen} (h : Sound g) (htarget : g.targetRows < 2 ^ 32)
    (hrows : g.rowsWritten ≤ g.targetRows) :
    ∃ g' reqs, g.writeInitialBook = some g' ∧ Grows g reqs g' ∧ g'.rowsWritten ≤ g'.targetRows := by
  have hall : ∀ l : List (Slot × Int), (∀ x ∈ l, Passive x.1 x.2) → ∀ g : CSVDataGen, Sound g →
      g.targetRows < 2 ^ 32 → g.rowsWritten ≤ g.targetRows → ∃ g' reqs, l.foldlM
        (fun g x => if g.rowsWritten < g.targetRows then g.writeNewPassive x.1 x.2 else some g) g = some g' ∧
        Grows g reqs g' ∧ g'.rowsWritten ≤ g'.targetRows := by
    intro l
    induction l with
    | nil => exact fun _ g h _ hrows => ⟨g, [], rfl, .none h, hrows⟩
    | cons x l ih =>
      intro hpassive g h htarget hrows
      obtain ⟨hx, hl⟩ := List.forall_mem_cons.mp hpassive
      rw [List.foldlM_cons]
      by_cases hroom : g.rowsWritten < g.targetRows
      · obtain ⟨g₁, req, hrun, hgrows⟩ := (h.writeNewPassive (by omega) hx).grows h
        obtain ⟨-, hcount, htarget₁, -⟩ := hgrows.rows
        rw [List.length_singleton] at hcount
        obtain ⟨g', reqs, hrun', hgrows', hrows'⟩ := ih hl g₁ hgrows.sound (by omega) (by omega)
        rw [if_pos hroom, hrun]
        exact ⟨g', [req] ++ reqs, hrun', hgrows.trans hgrows', hrows'⟩
      · obtain ⟨g', reqs, hrun', hgrows', hrows'⟩ := ih hl g h htarget hrows
        rw [if_neg hroom]
        exact ⟨g', reqs, hrun', hgrows', hrows'⟩
  exact hall initialOrders initialOrders_passive g h htarget hrows

/-- The loop ends when the file is long enough; a round for each row is enough. -/
theorem Sound.writeRequests {fuel : Nat} {g : CSVDataGen} (h : Sound g) (htarget : g.targetRows < 2 ^ 32)
    (hrows : g.rowsWritten ≤ g.targetRows) (hfuel : g.targetRows - g.rowsWritten < fuel) :
    ∃ g' reqs, writeRequests fuel g = some g' ∧ Grows g reqs g' ∧ g'.rowsWritten = g'.targetRows := by
  induction fuel generalizing g with
  | zero => exact absurd hfuel (Nat.not_lt_zero _)
  | succ fuel ih =>
    unfold CSVDataGen.writeRequests
    by_cases hroom : g.rowsWritten < g.targetRows
    · obtain ⟨g₁, req, hrun, hgrows⟩ := (h.writeRandomRequest (by omega)).grows h
      obtain ⟨-, hcount, htarget₁, -⟩ := hgrows.rows
      rw [List.length_singleton] at hcount
      obtain ⟨g', reqs, hrun', hgrows', hrows'⟩ := ih hgrows.sound (by omega) (by omega) (by omega)
      rw [if_pos hroom, hrun]
      exact ⟨g', [req] ++ reqs, hrun', hgrows.trans hgrows', hrows'⟩
    · rw [if_neg hroom]
      exact ⟨g, [], rfl, .none h, by omega⟩

theorem create_lob (targetRows : Nat) (gen rng : Nat → Nat) (iteration : Iteration) :
    (create targetRows gen rng iteration).book.lob = fun _ => [] := by
  refine ((fresh_inv bookConfig).withMode true).lob_eq.trans (funext fun s => ?_)
  cases s
  · rfl
  · rfl

theorem create_sound (targetRows : Nat) (gen rng : Nat → Nat) (iteration : Iteration) :
    Sound (create targetRows gen rng iteration) := by
  have hinv := (fresh_inv bookConfig).withMode true
  have hlob := create_lob targetRows gen rng iteration
  refine ⟨⟨⟨_, hinv⟩, rfl, fun s o ho => ?_, rfl, rfl⟩, fun s o ho => ?_,
    fun t ht => absurd ht List.not_mem_nil, le_rfl⟩
  · rw [hlob] at ho
    exact absurd ho List.not_mem_nil
  · rw [hlob] at ho
    exact absurd ho List.not_mem_nil

/-- `run` writes as many rows as it was asked for. -/
theorem run_grows {targetRows : Nat} (h : targetRows < 2 ^ 32) (gen rng : Nat → Nat) (iteration : Iteration) :
    ∃ g reqs, (create targetRows gen rng iteration).run = some g ∧
      Grows (create targetRows gen rng iteration) reqs g ∧ reqs.length = targetRows := by
  have hsound := create_sound targetRows gen rng iteration
  obtain ⟨g₁, reqs₁, hrun₁, hgrows₁, hle⟩ := hsound.writeInitialBook h (Nat.zero_le _)
  obtain ⟨-, hcount₁, htarget₁, -⟩ := hgrows₁.rows
  have htarget₁ : g₁.targetRows = targetRows := htarget₁
  obtain ⟨g, reqs, hrun, hgrows, hrows⟩ :=
    hgrows₁.sound.writeRequests (by omega) hle (show g₁.targetRows - g₁.rowsWritten < targetRows + 1 by omega)
  obtain ⟨-, hcount, htarget, -⟩ := hgrows.rows
  refine ⟨g, reqs₁ ++ reqs, ?_, hgrows₁.trans hgrows, ?_⟩
  · unfold CSVDataGen.run
    rw [hrun₁]
    exact hrun
  · have hcount₁ : g₁.rowsWritten = 0 + reqs₁.length := hcount₁
    rw [List.length_append]
    omega

/-! ## The file, served -/

/-- A request behind others. -/
theorem serve_snoc {c : Config} {reqs : List OrderRequest} {st st₁ st₂ : State} {req : OrderRequest}
    (h : serve c st reqs = some st₁) (hreq : WellFormed c st₁.book.lob req)
    (hrun : st₁.processRequest req = some st₂) : serve c st (reqs ++ [req]) = some st₂ := by
  induction reqs generalizing st with
  | nil =>
    obtain rfl := Option.some.inj h
    rw [List.nil_append, serve, if_pos hreq, hrun]
    rfl
  | cons r reqs ih =>
    rw [serve] at h
    rw [List.cons_append, serve]
    split at h
    · rename_i hr
      obtain ⟨st', hst', hrest⟩ := Option.bind_eq_some_iff.mp h
      rw [if_pos hr, hst']
      exact ih hrest
    · cases h

/-- What a book says and holds that has served the rows written so far. -/
structure Mirrors (c : Config) (g : CSVDataGen) (st : State) : Prop where
  lob : g.book.lob.Regrid bookConfig c st.book.lob
  rejected : ∀ r ∈ st.log, r.execType = .rejected → r.rejectCode = .orderNotFound ∨ r.rejectCode = .invalidModify
  completed : ∀ id, g.IsFilled id ↔ Completed st.log id

/-- Completed in one stretch of records or in the other. -/
theorem completed_append (recs recs' : List OrderResponse) (id : Nat) :
    Completed (recs ++ recs') id ↔ Completed recs id ∨ Completed recs' id := by
  unfold Completed
  simp only [List.mem_append, or_and_right, exists_or]

/-- What is completed is so in any book's words. -/
theorem completed_of (c : Config) (recs : List OrderResponse) (id : Nat) :
    Completed (recs.map (OrderResponse.of c)) id ↔ Completed recs id := by
  unfold Completed
  simp only [List.mem_map, exists_exists_and_eq_and]
  rfl

/-- A generated request fits every book that has the sixteen prices. -/
theorem Generated.fits {c c' : Config} {a : Lob} {req : OrderRequest} (hapart : Apart c a) (hwide : Wide c)
    (hwide' : Wide c') (h : Generated c a req) : req.Fits c c' := by
  refine ⟨fun hact => ?_, fun hp => ?_⟩
  · cases h with
    | passive _ htype _ _ hp _ => exact ⟨htype ▸ by decide, hp.pos.ne'⟩
    | @crossing s o rest _ htype _ _ hbest hprice _ _ =>
      have hp := hapart s.flip o (hbest ▸ List.mem_cons_self)
      exact ⟨htype ▸ by decide, hprice ▸ hp.pos.ne'⟩
    | cancel hcancel _ _ _ => exact absurd (hact.symm.trans hcancel) (by decide)
    | modify hmodify _ _ _ _ => exact absurd (hact.symm.trans hmodify) (by decide)
  · obtain ⟨s, hs⟩ := h.price hapart hp
    exact ⟨hwide s req.p hs, hwide' s req.p hs⟩

/-- A book that has the prices serves every row, and ends with the orders of the generator's book. -/
theorem Grows.served {targetRows : Nat} {gen rng : Nat → Nat} {iteration : Iteration} {reqs : List OrderRequest}
    {g : CSVDataGen} (h : Grows (create targetRows gen rng iteration) reqs g) {c : Config} (hwide : Wide c)
    (gen' : Nat → Nat) :
    ∃ st, serve c ⟨.fresh c, gen', []⟩ reqs = some st ∧ Reachable c st ∧ Mirrors c g st := by
  induction h with
  | none _ =>
    refine ⟨_, rfl, .fresh gen', fun s => ?_, fun r hr => absurd hr List.not_mem_nil, fun id => ?_⟩
    · rw [create_lob, fresh_lob]
      exact .nil
    · exact iff_of_false (fun ⟨t, ht, _⟩ => absurd ht List.not_mem_nil) fun ⟨r, hr, _⟩ => absurd hr List.not_mem_nil
  | @row g' g'' reqs req hgrows hstep hsound ih =>
    obtain ⟨st, hserve, hreach, hlob, hrejected, hcompleted⟩ := ih
    have hfits := hstep.generated.fits hgrows.sound.apart bookConfig_wide hwide
    have hwf := hlob.wellFormed hfits (hstep.generated.wellFormed hgrows.sound.apart bookConfig_wide)
    obtain ⟨⟨q, hq⟩, hcfg, hmode⟩ := hreach.inv
    obtain ⟨st', -, hrun, -, -, -, hlob', hlog', -⟩ := hq.safe_answer hcfg hmode hwf.safe
    obtain ⟨halob, -, harecs⟩ := hlob.step hfits st.gen
    refine ⟨st', serve_snoc hserve hwf hrun, hreach.step hwf hrun, ?_, fun r hr hrej => ?_, fun id => ?_⟩
    · rw [hstep.lob st.gen, hlob']
      exact halob
    · rw [hlog', harecs] at hr
      rcases List.mem_append.mp hr with hr | hr
      · exact hrejected r hr hrej
      · obtain ⟨r', hr', rfl⟩ := List.mem_map.mp hr
        exact hstep.rejected st.gen r' hr' hrej
    · rw [hstep.completed st.gen id, hcompleted id, hlog', harecs, completed_append, completed_of]

/-- What is written is read back. -/
theorem Grows.read {targetRows : Nat} {gen rng : Nat → Nat} {iteration : Iteration} {reqs : List OrderRequest}
    {g : CSVDataGen} (h : Grows (create targetRows gen rng iteration) reqs g) :
    CSVDataReader.loadFromCSV g.file = reqs := by
  obtain ⟨hrows, -, -, hwritten⟩ := h.rows
  have hfile : g.file = Exchange.writeRequests reqs := by
    unfold file Exchange.writeRequests
    rw [hrows]
    rfl
  rw [hfile, CSVDataReader.loadFromCSV_written hwritten]

/-- The generator ends, with a line for each row asked for; and a book that has its prices serves what is read
from the file, whatever it draws, and ends with the same orders at the same prices as the generator's own. -/
theorem generated_file_served {targetRows : Nat} (h : targetRows < 2 ^ 32) (gen rng : Nat → Nat)
    (iteration : Iteration) {c : Config} (hwide : Wide c) (gen' : Nat → Nat) :
    ∃ g st, (create targetRows gen rng iteration).run = some g ∧
      (CSVDataReader.loadFromCSV g.file).length = targetRows ∧
      serve c ⟨.fresh c, gen', []⟩ (CSVDataReader.loadFromCSV g.file) = some st ∧
      g.book.lob.Regrid bookConfig c st.book.lob := by
  obtain ⟨g, reqs, hrun, hgrows, hlength⟩ := run_grows h gen rng iteration
  obtain ⟨st, hserve, -, hmirrors⟩ := hgrows.served hwide gen'
  refine ⟨g, st, hrun, ?_, ?_, hmirrors.lob⟩
  · rw [hgrows.read]
    exact hlength
  · rw [hgrows.read]
    exact hserve

/-- In a book on whose grid the sixteen prices are, and that has served a generated file, the sides stay on
their sides of the base price; what was rejected named an order that was gone, or asked for less than it had
traded; and the orders the generator remembers as filled are those whose trades completed them, and rest no
more. -/
theorem generated_orders {targetRows : Nat} (h : targetRows < 2 ^ 32) {gen rng : Nat → Nat}
    {iteration : Iteration} {c : Config} (hwide : Wide c) {gen' : Nat → Nat} {g : CSVDataGen} {st : State}
    (hrun : (create targetRows gen rng iteration).run = some g)
    (hserve : serve c ⟨.fresh c, gen', []⟩ (CSVDataReader.loadFromCSV g.file) = some st) :
    (∀ s, ∀ o ∈ st.book.lob s, Passive s (c.plToPrice o.level)) ∧
      (∀ r ∈ st.log, r.execType = .rejected → r.rejectCode = .orderNotFound ∨ r.rejectCode = .invalidModify) ∧
      (∀ id, g.IsFilled id ↔ Completed st.log id) ∧
      ∀ t ∈ g.filledOrders, ∀ s, ∀ o ∈ st.book.lob s, o.orderId ≠ t.combinedId := by
  obtain ⟨g', reqs, hrun', hgrows, -⟩ := run_grows h gen rng iteration
  obtain rfl := Option.some.inj (hrun.symm.trans hrun')
  obtain ⟨st', hserve', -, hlob, hrejected, hcompleted⟩ := hgrows.served hwide gen'
  rw [hgrows.read] at hserve
  obtain rfl := Option.some.inj (hserve.symm.trans hserve')
  refine ⟨fun s o ho => ?_, hrejected, hcompleted, fun t ht s o ho => ?_⟩
  · obtain ⟨o', ho', hgrid⟩ := hlob.mem s ho
    rw [show c.plToPrice o.level = bookConfig.plToPrice o'.level from hgrid.level]
    exact hgrows.sound.apart s o' ho'
  · obtain ⟨o', ho', hgrid⟩ := hlob.mem s ho
    rw [hgrid.orderId]
    exact (hgrows.sound.filled t ht).gone s o' ho'

/-- The book the constants are meant for. -/
def meantConfig : Config where
  symbolId := symbolId
  minStep := minPriceStep
  priceIndexOffset := priceIndexOffset
  maxPriceLevels := maxPriceLevels
  minStep_pos := by decide
  levels_pos := by decide
  levels_lt := by decide

theorem meantConfig_wide : Wide meantConfig := by
  rintro s p ⟨k, -, hk, rfl⟩
  unfold initialPriceLevels at hk
  cases s with
  | bid =>
    refine ⟨3000 - k, by show _ < 8192; omega, ?_⟩
    show (50000000 : Int) - k * 10000 = (((3000 - k : Nat) : Int) + 2000) * 10000
    omega
  | ask =>
    refine ⟨3000 + k, by show _ < 8192; omega, ?_⟩
    show (50000000 : Int) + k * 10000 = (((3000 + k : Nat) : Int) + 2000) * 10000
    omega

/-- Orders are met as they were entered. -/
def sampleIteration : Iteration := ⟨fun _ ptrs => ptrs, fun _ _ => .refl _⟩

theorem sample_file_served : ∃ g st, (create 100 id id sampleIteration).run = some g ∧
    (CSVDataReader.loadFromCSV g.file).length = 100 ∧
    serve meantConfig ⟨.fresh meantConfig, id, []⟩ (CSVDataReader.loadFromCSV g.file) = some st ∧
    g.book.lob.Regrid bookConfig meantConfig st.book.lob :=
  generated_file_served (by decide) id id sampleIteration meantConfig_wide id

theorem sample_orders : ∃ g st, (create 100 id id sampleIteration).run = some g ∧
    serve meantConfig ⟨.fresh meantConfig, id, []⟩ (CSVDataReader.loadFromCSV g.file) = some st ∧
    (∀ s, ∀ o ∈ st.book.lob s, Passive s (meantConfig.plToPrice o.level)) ∧
    (∀ r ∈ st.log, r.execType = .rejected → r.rejectCode = .orderNotFound ∨ r.rejectCode = .invalidModify) ∧
    (∀ id, g.IsFilled id ↔ Completed st.log id) ∧
    ∀ t ∈ g.filledOrders, ∀ s, ∀ o ∈ st.book.lob s, o.orderId ≠ t.combinedId := by
  obtain ⟨g, reqs, hrun, hgrows, -⟩ := run_grows (show 100 < 2 ^ 32 by decide) id id sampleIteration
  obtain ⟨st, hserve, -, -⟩ := hgrows.served meantConfig_wide id
  rw [← hgrows.read] at hserve
  exact ⟨g, st, hrun, hserve, generated_orders (by decide) meantConfig_wide hrun hserve⟩

end CSVDataGen

end Exchange
