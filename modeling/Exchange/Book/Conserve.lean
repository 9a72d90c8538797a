import Mathlib.Algebra.BigOperators.Group.List.Basic
import Exchange.Book.Execute

/-!
# Quantity is conserved

Executed quantity is stored nowhere: a modify derives it as original minus
remaining. Read off the records instead, it is the sum of an order's trade
quantities since its latest `New` (`executedSince`), and `lastQty` is the
quantity its latest `New` or `Replaced` record acknowledged. `Conserved`
relates the two readings in every reachable state:

> a resting order has traded original minus remaining, an order that leaves by
> a `Fill` has traded all it was last acknowledged for, and at every price as
> much was bought as was sold.

Inside `match` the account is kept per maker (`Ledger`): the sweep induction
hands it on from trade to trade.
-/

namespace Exchange

/-- What one record does to an order's executed quantity. -/
def credit (id : Nat) (acc : Nat) (r : OrderResponse) : Nat :=
  if r.combinedId = id then
    if r.execType = .new then 0 else if r.isTrade then acc + r.q else acc
  else acc

/-- The quantity an order has traded since its latest `New` record. -/
def executedSince (id : Nat) (log : List OrderResponse) : Nat := log.foldl (credit id) 0

/-- The quantity of an order's latest `New` or `Replaced` record. -/
def lastQty (id : Nat) (log : List OrderResponse) : Option Nat :=
  log.foldl (fun acc r =>
    if r.combinedId = id ∧ (r.execType = .new ∨ r.execType = .replaced) then some r.q else acc) none

/-- The quantity traded on one side at one price. -/
def volume (x : Side) (p : Int) (log : List OrderResponse) : Nat :=
  ((log.filter fun r => r.isTrade ∧ r.side = x ∧ r.p = p).map (·.q)).sum

/-- At each `Fill` record the order has traded what it was last acknowledged
for. -/
def FillsComplete (log : List OrderResponse) : Prop :=
  ∀ pre r post, log = pre ++ r :: post → r.execType = .fill →
    lastQty r.combinedId (pre ++ [r]) = some (executedSince r.combinedId (pre ++ [r]))

/-! ## Reading one more record -/

theorem executedSince_snoc (id : Nat) (log : List OrderResponse) (r : OrderResponse) :
    executedSince id (log ++ [r]) = credit id (executedSince id log) r := by
  rw [executedSince, List.foldl_append]
  rfl

/-- Records of other orders are not counted. -/
theorem executedSince_other {id : Nat} {log : List OrderResponse} {r : OrderResponse}
    (h : r.combinedId ≠ id) : executedSince id (log ++ [r]) = executedSince id log := by
  rw [executedSince_snoc, credit, if_neg h]

/-- Nor are records that are neither a `New` nor a trade. -/
theorem executedSince_quiet {id : Nat} {log : List OrderResponse} {r : OrderResponse}
    (hn : r.execType ≠ .new) (ht : r.isTrade = false) :
    executedSince id (log ++ [r]) = executedSince id log := by
  rw [executedSince_snoc, credit]
  simp [hn, ht]

theorem lastQty_snoc (id : Nat) (log : List OrderResponse) (r : OrderResponse) :
    lastQty id (log ++ [r]) =
      if r.combinedId = id ∧ (r.execType = .new ∨ r.execType = .replaced) then some r.q
      else lastQty id log := by
  rw [lastQty, List.foldl_append]
  rfl

/-- One more record: what has to be shown is that it says `Fill` only for an order that is done. -/
theorem fillsComplete_snoc {log : List OrderResponse} {r : OrderResponse} (h : FillsComplete log)
    (hr : r.execType = .fill →
      lastQty r.combinedId (log ++ [r]) = some (executedSince r.combinedId (log ++ [r]))) :
    FillsComplete (log ++ [r]) := by
  intro pre r' post hcut he
  -- the record is the new one, or lies inside the old log
  rcases List.eq_nil_or_concat post with rfl | ⟨post', x, rfl⟩
  · obtain ⟨rfl, hx⟩ := List.append_inj' hcut rfl
    obtain rfl : r = r' := by simpa using hx
    exact hr he
  · have hcut' : log ++ [r] = (pre ++ r' :: post') ++ [x] := by simpa using hcut
    obtain ⟨rfl, -⟩ := List.append_inj' hcut' rfl
    exact h pre r' post' rfl he

theorem volume_append (x : Side) (p : Int) (log rs : List OrderResponse) :
    volume x p (log ++ rs) = volume x p log + volume x p rs := by
  unfold volume
  rw [List.filter_append, List.map_append, List.sum_append]

/-- Records that are not trades add no volume. -/
theorem volume_quiet {x : Side} {p : Int} {rs : List OrderResponse}
    (h : ∀ r ∈ rs, r.isTrade = false ∨ r.q = 0) : volume x p rs = 0 := by
  unfold volume
  refine List.sum_eq_zero (fun n hn => ?_)
  obtain ⟨r, hr, rfl⟩ := List.mem_map.mp hn
  obtain ⟨hmem, ht⟩ := List.mem_filter.mp hr
  rcases h r hmem with hf | hz
  · simp [hf] at ht
  · exact hz

/-- Each trade adds the same quantity to both sides, at one price. -/
theorem volume_trades (c : Config) (taker : Nat) (s : Slot) (p : Int) :
    ∀ (gen : Nat → Nat) (fs : List Fill),
      volume .buy p (tradeRecords c taker s gen fs) = volume .sell p (tradeRecords c taker s gen fs)
  | _, [] => rfl
  | gen, f :: fs => by
    have ih := volume_trades c taker s p (fun k => gen (k + 1)) fs
    have hcut : ∀ x, volume x p (tradeRecords c taker s gen (f :: fs)) =
        volume x p [c.response (State.fillType f.left) taker (gen 0) s.side
          (c.plToPrice f.maker.level) f.qty f.left .none] +
        volume x p [c.response (State.fillType f.makerLeft) f.maker.orderId (gen 0) s.flip.side
          (c.plToPrice f.maker.level) f.qty f.makerLeft .none] +
        volume x p (tradeRecords c taker s (fun k => gen (k + 1)) fs) := by
      intro x
      rw [← volume_append, ← volume_append]
      rfl
    have hfill : ∀ r, checkExec (State.fillType r) execTrade = true := by
      intro r
      rcases fillType_trade r with h | h <;> rw [h] <;> decide
    rw [hcut, hcut, ih]
    -- one record is on each side
    cases s <;> by_cases hp : c.plToPrice f.maker.level = p <;>
      simp [volume, Config.response, OrderResponse.isTrade, hfill, hp, Slot.side, Slot.flip]

/-! ## The account inside `match` -/

/-- An order's account: what it has traded and what it was acknowledged for. -/
structure Booked (log : List OrderResponse) (id executed qty : Nat) : Prop where
  executed : executedSince id log = executed
  qty : lastQty id log = some qty

/-- The accounts of a taker with `r` left and of the makers in front of it. -/
structure Ledger (taker qty : Nat) (log : List OrderResponse) (r : Nat) (ms : List Order) : Prop where
  complete : FillsComplete log
  left : r ≤ qty
  taker : Booked log taker (qty - r) qty
  makers : ∀ m ∈ ms, Booked log m.orderId m.executed m.qtyOriginal

/-- A trade record credits its order. -/
theorem Booked.credited {log : List OrderResponse} {id e q : Nat} (h : Booked log id e q)
    {r : OrderResponse} (hid : r.combinedId = id) (ht : r.isTrade = true) :
    Booked (log ++ [r]) id (e + r.q) q := by
  have hn : r.execType ≠ .new ∧ r.execType ≠ .replaced := by
    rcases isTrade_iff.mp ht with he | he <;> rw [he] <;> decide
  constructor
  · rw [executedSince_snoc, credit, if_pos hid, if_neg hn.1, if_pos ht, h.executed]
  · rw [lastQty_snoc, if_neg (fun hr => hr.2.elim hn.1 hn.2), h.qty]

/-- A record of another order leaves an account alone. -/
theorem Booked.other {log : List OrderResponse} {id e q : Nat} (h : Booked log id e q)
    {r : OrderResponse} (hid : r.combinedId ≠ id) : Booked (log ++ [r]) id e q := by
  refine ⟨?_, ?_⟩
  · rw [executedSince_other hid, h.executed]
  · rw [lastQty_snoc, if_neg (fun hr => hid hr.1), h.qty]

/-- A trade record that ends an order's quantity is a complete fill. -/
theorem Booked.fill {log : List OrderResponse} {id e q : Nat} (h : Booked log id e q)
    {r : OrderResponse} (hid : r.combinedId = id) (he : r.execType = .fill → e = q) :
    r.execType = .fill → lastQty r.combinedId log = some (executedSince r.combinedId log) := by
  intro hf
  rw [hid, h.qty, h.executed, he hf]

section Trades

variable {c : Config} {taker qty : Nat} {s : Slot}

/-- The two records of one trade, booked. -/
theorem Ledger.trade {log : List OrderResponse} {r k : Nat} {m : Order} {ms : List Order}
    (h : Ledger taker qty log r (m :: ms)) (htk : taker < 2 ^ 64) (hsane : m.Sane)
    (hne : ∀ x ∈ m :: ms, x.orderId ≠ taker) (hnd : ∀ x ∈ ms, x.orderId ≠ m.orderId)
    (hr : k ≤ r) (hk : k ≤ m.qtyRemaining) (x : Nat) :
    Ledger taker qty (log ++ [c.response (State.fillType (r - k)) taker x s.side
        (c.plToPrice m.level) k (r - k) .none] ++
      [c.response (State.fillType (m.qtyRemaining - k)) m.orderId x s.flip.side
        (c.plToPrice m.level) k (m.qtyRemaining - k) .none]) (r - k) (m.fill k :: ms) := by
  have hm : m.orderId ≠ taker := hne m List.mem_cons_self
  have hmk := h.makers m List.mem_cons_self
  have hex : m.executed = m.qtyOriginal - m.qtyRemaining := rfl
  have hle := hsane.le
  have hleft := h.left
  generalize hr₁ : c.response (State.fillType (r - k)) taker x s.side (c.plToPrice m.level) k
    (r - k) .none = r₁
  generalize hr₂ : c.response (State.fillType (m.qtyRemaining - k)) m.orderId x s.flip.side
    (c.plToPrice m.level) k (m.qtyRemaining - k) .none = r₂
  -- two records: the first is the taker's, the second the maker's
  have hid₁ : r₁.combinedId = taker := hr₁ ▸ c.response_combinedId _ _ _ _ _ _ _ htk
  have hid₂ : r₂.combinedId = m.orderId := hr₂ ▸ c.response_combinedId _ _ _ _ _ _ _ hsane.id
  have ht₁ : r₁.isTrade = true := hr₁ ▸ isTrade_iff.mpr (fillType_trade _)
  have ht₂ : r₂.isTrade = true := hr₂ ▸ isTrade_iff.mpr (fillType_trade _)
  have he₁ : r₁.execType = State.fillType (r - k) := hr₁ ▸ rfl
  have he₂ : r₂.execType = State.fillType (m.qtyRemaining - k) := hr₂ ▸ rfl
  have hq₁ : r₁.q = k := hr₁ ▸ rfl
  have hq₂ : r₂.q = k := hr₂ ▸ rfl
  -- only a record with nothing left is a `Fill`
  have hfill : ∀ {n : Nat}, State.fillType n = .fill → n = 0 := by
    intro n hf
    unfold State.fillType at hf
    split at hf
    · assumption
    · cases hf
  -- each is credited to its own order, and passes the other by
  have htake := h.taker.credited hid₁ ht₁
  rw [hq₁] at htake
  have hmake := (hmk.other (fun e => hm (e.symm.trans hid₁))).credited hid₂ ht₂
  rw [hq₂] at hmake
  refine ⟨?_, by omega, ?_, fun y hy => ?_⟩
  · refine fillsComplete_snoc (fillsComplete_snoc h.complete (htake.fill hid₁ ?_))
      (hmake.fill hid₂ ?_)
    · intro hf
      have hz := hfill (he₁.symm.trans hf)
      omega
    · intro hf
      have hz := hfill (he₂.symm.trans hf)
      omega
  · have := htake.other (r := r₂) (fun e => hm (hid₂.symm.trans e))
    rwa [show qty - r + k = qty - (r - k) by omega] at this
  · rcases List.mem_cons.mp hy with rfl | hy
    · rwa [show m.executed + k = (m.fill k).executed by
        simp only [Order.executed, Order.fill]; omega] at hmake
    · have hyk := h.makers y (List.mem_cons_of_mem _ hy)
      refine (hyk.other (fun e => ?_)).other (fun e => hnd y hy (e.symm.trans hid₂))
      exact hne y (List.mem_cons_of_mem _ hy) (e.symm.trans hid₁)

/-- A sweep hands the accounts on to what it leaves. -/
theorem Ledger.sweep {x : Nat → Bool} (htk : taker < 2 ^ 64) (ms : List Order) (r : Nat) :
    ∀ (log : List OrderResponse) (gen : Nat → Nat), Ledger taker qty log r ms →
      (∀ m ∈ ms, m.Sane ∧ m.orderId ≠ taker) → (ms.map Order.orderId).Nodup →
      Ledger taker qty (log ++ tradeRecords c taker s gen (Exchange.sweep x r ms).fills)
        (Exchange.sweep x r ms).left (Exchange.sweep x r ms).rest := by
  refine sweep_induction (P := fun r ms w => ∀ (log : List OrderResponse) (gen : Nat → Nat),
    Ledger taker qty log r ms → (∀ m ∈ ms, m.Sane ∧ m.orderId ≠ taker) →
    (ms.map Order.orderId).Nodup →
    Ledger taker qty (log ++ tradeRecords c taker s gen w.fills) w.left w.rest) ?_ ?_ ?_ ?_ ms r
  · intro r log gen h _ _
    simpa [tradeRecords] using h
  · intro r m ms _ log gen h _ _
    simpa [tradeRecords] using h
  · -- the maker is filled and leaves the account
    intro r m ms w _ _ hle ih log gen h hms hnd
    obtain ⟨hm, hnd'⟩ := List.nodup_cons.mp hnd
    have hstep := h.trade (c := c) (s := s) htk (hms m List.mem_cons_self).1
      (fun x hx => (hms x hx).2) (fun x hx e => hm (List.mem_map.mpr ⟨x, hx, e⟩)) hle le_rfl (gen 0)
    have hrest : Ledger taker qty _ (r - m.qtyRemaining) ms := ⟨hstep.complete, hstep.left, hstep.taker,
      fun y hy => hstep.makers y (List.mem_cons_of_mem _ hy)⟩
    have := ih _ (fun k => gen (k + 1)) hrest (fun y hy => hms y (List.mem_cons_of_mem _ hy)) hnd'
    simpa [tradeRecords, Fill.makerLeft] using this
  · -- the maker absorbs the taker and stays
    intro r m ms _ _ hlt log gen h hms hnd
    obtain ⟨hm, -⟩ := List.nodup_cons.mp hnd
    have hstep := h.trade (c := c) (s := s) htk (hms m List.mem_cons_self).1
      (fun x hx => (hms x hx).2) (fun x hx e => hm (List.mem_map.mpr ⟨x, hx, e⟩)) le_rfl hlt.le (gen 0)
    simpa [tradeRecords, Fill.makerLeft] using hstep

/-- Trades leave the accounts of orders that take no part alone. -/
theorem Booked.trades {id e q : Nat} (htk : taker < 2 ^ 64) (hne : taker ≠ id) :
    ∀ {fs : List Fill} {log : List OrderResponse} (gen : Nat → Nat), Booked log id e q →
      (∀ f ∈ fs, f.maker.orderId < 2 ^ 64 ∧ f.maker.orderId ≠ id) →
      Booked (log ++ tradeRecords c taker s gen fs) id e q
  | [], log, gen, h, _ => by simpa [tradeRecords] using h
  | f :: fs, log, gen, h, hfs => by
    obtain ⟨hlt, hf⟩ := hfs f List.mem_cons_self
    have h₁ := h.other (r := c.response (State.fillType f.left) taker (gen 0) s.side
      (c.plToPrice f.maker.level) f.qty f.left .none)
      (fun e => hne ((c.response_combinedId _ _ _ _ _ _ _ htk).symm.trans e))
    have h₂ := h₁.other (r := c.response (State.fillType f.makerLeft) f.maker.orderId (gen 0)
      s.flip.side (c.plToPrice f.maker.level) f.qty f.makerLeft .none)
      (fun e => hf ((c.response_combinedId _ _ _ _ _ _ _ hlt).symm.trans e))
    have := Booked.trades htk hne (fun k => gen (k + 1)) h₂
      (fun g hg => hfs g (List.mem_cons_of_mem _ hg))
    simpa [tradeRecords] using this

end Trades

/-! ## Requests and runs -/

/-- The records account for every resting order, every fill and every price. -/
structure Conserved (a : Lob) (log : List OrderResponse) : Prop where
  booked : ∀ s o, o ∈ a s → Booked log o.orderId o.executed o.qtyOriginal
  complete : FillsComplete log
  balanced : ∀ p, volume .buy p log = volume .sell p log

/-- An execution of a taker that is not in the book. -/
theorem Conserved.execute {c : Config} {a : Lob} {log : List OrderResponse} {t : Order}
    (h : Conserved a log) (hok : a.Ok c) (hid : t.orderId < 2 ^ 64)
    (hne : ∀ s o, o ∈ a s → o.orderId ≠ t.orderId) (hle : t.qtyRemaining ≤ t.qtyOriginal)
    (ht : Booked log t.orderId t.executed t.qtyOriginal) (gen : Nat → Nat) (s : Slot) (idx : Nat) :
    Conserved (a.execute c gen s t idx).lob (log ++ (a.execute c gen s t idx).recs) := by
  have hled : Ledger t.orderId t.qtyOriginal log t.qtyRemaining (a s.flip) :=
    ⟨h.complete, hle, ht, h.booked s.flip⟩
  have hafter := hled.sweep (c := c) (s := s) (x := State.crossed s idx) hid (a s.flip)
    t.qtyRemaining log gen (fun m hm => ⟨hok.sane hm, hne _ m hm⟩) (hok.ids_nodup s.flip)
  refine ⟨fun s' o ho => ?_, hafter.complete, fun p => ?_⟩
  · by_cases hs : s' = s
    · subst hs
      -- an order of the taker's own side took no part
      have hstay : o ∈ a s' → Booked (log ++ (a.execute c gen s' t idx).recs) o.orderId o.executed
          o.qtyOriginal := by
        intro hmem
        refine (h.booked s' o hmem).trades hid (hne s' o hmem).symm gen (fun f hf => ?_)
        have hfm := mem_sweep_fills _ _ hf
        refine ⟨(hok.sane hfm).id, fun e => ?_⟩
        exact Slot.flip_ne s' (hok.unique hfm hmem e).1
      rw [Lob.execute_self] at ho
      split at ho
      · exact hstay ho
      · rcases mem_place.mp ho with rfl | hmem
        · exact hafter.taker
        · exact hstay hmem
    · obtain rfl : s' = s.flip := Slot.eq_flip hs
      rw [Lob.execute_flip] at ho
      exact hafter.makers o ho
  · rw [volume_append, volume_append, h.balanced p]
    exact congrArg _ (volume_trades c t.orderId s p gen _)

/-- Records that are neither a `New`, a `Replaced` nor a trade change no account. -/
theorem Booked.quiet {log : List OrderResponse} {id e q : Nat} (h : Booked log id e q)
    {r : OrderResponse} (hn : r.execType ≠ .new) (hr : r.execType ≠ .replaced)
    (ht : r.isTrade = false) : Booked (log ++ [r]) id e q := by
  refine ⟨by rw [executedSince_quiet hn ht, h.executed], ?_⟩
  rw [lastQty_snoc, if_neg (fun hx => hx.2.elim hn hr), h.qty]

/-- A record that changes no account, with orders leaving the book. -/
theorem Conserved.quiet {a a' : Lob} {log : List OrderResponse} (h : Conserved a log)
    (hsub : ∀ s o, o ∈ a' s → o ∈ a s) {r : OrderResponse} (hn : r.execType ≠ .new)
    (hr : r.execType ≠ .replaced) (ht : r.isTrade = false) : Conserved a' (log ++ [r]) := by
  refine ⟨fun s o ho => (h.booked s o (hsub s o ho)).quiet hn hr ht, ?_, fun p => ?_⟩
  · refine fillsComplete_snoc h.complete (fun he => ?_)
    rw [isTrade_iff.mpr (Or.inl he)] at ht
    cases ht
  · have hz : ∀ x, volume x p [r] = 0 := fun x =>
      volume_quiet (fun r' hr' => Or.inl (List.mem_singleton.mp hr' ▸ ht))
    rw [volume_append, volume_append, h.balanced p, hz, hz]

/-- An acknowledgement of one order: its account starts or is set anew, the
others go on. -/
theorem Conserved.acknowledged {a a' : Lob} {log : List OrderResponse} (h : Conserved a log)
    {r : OrderResponse} (hsub : ∀ s o, o ∈ a' s → o ∈ a s ∧ o.orderId ≠ r.combinedId)
    (ht : r.isTrade = false) : Conserved a' (log ++ [r]) := by
  refine ⟨fun s o ho => ?_, ?_, fun p => ?_⟩
  · obtain ⟨hm, hne⟩ := hsub s o ho
    exact (h.booked s o hm).other hne.symm
  · refine fillsComplete_snoc h.complete (fun he => ?_)
    rw [isTrade_iff.mpr (Or.inl he)] at ht
    cases ht
  · have hz : ∀ x, volume x p [r] = 0 := fun x =>
      volume_quiet (fun r' hr' => Or.inl (List.mem_singleton.mp hr' ▸ ht))
    rw [volume_append, volume_append, h.balanced p, hz, hz]

section Replace

variable {c : Config} {a : Lob} {log : List OrderResponse} {req : OrderRequest} {s : Slot} {o : Order}

/-- The record of a replacement bears the id of the order it replaces. -/
theorem replaceRecord_id (hfind : a.find req.combinedId = some (s, o)) (target newQty : Nat) :
    (Lob.replaceRecord c req o target newQty).combinedId = o.orderId := by
  rw [(Lob.mem_of_find hfind).2]
  exact c.response_combinedId _ _ _ _ _ _ _ req.combinedId_lt

/-- A `Replaced` record keeps what the order has traded and sets its quantity. -/
theorem Conserved.replaced (h : Conserved a log) (hfind : a.find req.combinedId = some (s, o))
    (target newQty : Nat) :
    Conserved (a.remove o.orderId) (log ++ [Lob.replaceRecord c req o target newQty]) ∧
      Booked (log ++ [Lob.replaceRecord c req o target newQty]) o.orderId o.executed newQty := by
  have hid := replaceRecord_id (c := c) hfind target newQty
  have htrade := isTrade_of (r := Lob.replaceRecord c req o target newQty) (e := .replaced)
    (b := false) rfl (by decide)
  refine ⟨h.acknowledged (fun s' x hx => ?_) htrade, ?_, ?_⟩
  · rw [hid]
    exact Lob.mem_remove.mp hx
  · rw [executedSince_quiet (by simp [Lob.replaceRecord, Config.response]) htrade]
    exact (h.booked s o (Lob.mem_of_find hfind).1).executed
  · rw [lastQty_snoc, if_pos ⟨hid, Or.inr rfl⟩]
    rfl

/-- The zero-quantity `Fill` of an order that has traded all it asks for. -/
theorem Conserved.finished (h : Conserved a log) (target : Nat)
    (hfresh : ∀ s' x, x ∈ a s' → x.orderId ≠ req.combinedId) {e : Nat}
    (hb : Booked log req.combinedId e e) : Conserved a (log ++ [Lob.finishRecord c req target]) := by
  have hid : (Lob.finishRecord c req target).combinedId = req.combinedId :=
    c.response_combinedId _ _ _ _ _ _ _ req.combinedId_lt
  have htrade := isTrade_of (r := Lob.finishRecord c req target) (e := .fill) (b := true) rfl
    (by decide)
  refine ⟨fun s' x hx => (h.booked s' x hx).other (fun e => ?_), ?_, fun p => ?_⟩
  · exact hfresh s' x hx (e.symm.trans hid)
  · exact fillsComplete_snoc h.complete ((hb.credited hid htrade).fill hid (fun _ => rfl))
  · have hz : ∀ x, volume x p [Lob.finishRecord c req target] = 0 := fun x =>
      volume_quiet (fun r hr => Or.inr (List.mem_singleton.mp hr ▸ rfl))
    rw [volume_append, volume_append, h.balanced p, hz, hz]

end Replace

/-- A replacement keeps what was traded. -/
theorem Order.resized_executed (o : Order) {n : Nat} (h : o.executed ≤ n) :
    (o.resized n).executed = o.executed := by
  unfold Order.resized Order.executed at *
  dsimp only
  omega

/-- Every outcome of a request keeps the accounts. -/
theorem Conserved.step {c : Config} {gen : Nat → Nat} {a : Lob} {log : List OrderResponse}
    {req : OrderRequest} {ans : Answer} (hok : a.Ok c) (h : Conserved a log)
    (hout : Lob.Outcome c gen a req ans) : Conserved ans.lob (log ++ ans.recs) := by
  cases hout with
  | rejected qRem code =>
    exact h.quiet (fun s o ho => ho) (by simp [Config.response]) (by simp [Config.response])
      (isTrade_of (e := .rejected) rfl (by decide))
  -- a new order has traded nothing behind its acknowledgement
  | entered hact hnone hvalid hp hq hmax =>
    have hid : (Lob.newRecord c req).combinedId = req.combinedId :=
      c.response_combinedId _ _ _ _ _ _ _ req.combinedId_lt
    have hne : ∀ s o, o ∈ a s → o.orderId ≠ req.combinedId := fun s o ho =>
      Lob.find_eq_none hnone ho
    have hack : Conserved a _ := h.acknowledged (r := Lob.newRecord c req)
      (fun s o ho => ⟨ho, by rw [hid]; exact hne s o ho⟩)
      (isTrade_of (e := .new) rfl (by decide))
    have hb : Booked (log ++ [Lob.newRecord c req]) req.combinedId 0 req.q := by
      refine ⟨?_, ?_⟩
      · rw [executedSince_snoc, credit, if_pos hid, if_pos (by rfl)]
      · rw [lastQty_snoc, if_pos ⟨hid, Or.inl rfl⟩]
        rfl
    have hex : (State.createOrder req).executed = 0 := Nat.sub_self _
    have := hack.execute hok (t := State.createOrder req) req.combinedId_lt hne le_rfl
      (by rw [hex]; exact hb) gen req.slot (State.newIndex c req)
    rw [List.append_assoc] at this
    exact this
  | cancelled hact hfind =>
    exact h.quiet (fun s o ho => (Lob.mem_remove.mp ho).1) (by simp [Lob.cancelRecord, Config.response])
      (by simp [Lob.cancelRecord, Config.response]) (isTrade_of (e := .cancelled) rfl (by decide))
  -- a modify says what was asked for last; the order has traded what it had
  | @kept s o hact hfind hq hvalid hexec hlevel hqty =>
    obtain ⟨hrest, hb⟩ := h.replaced (c := c) hfind (req.target c o) (req.newQty o)
    refine ⟨fun s' x hx => ?_, hrest.complete, hrest.balanced⟩
    by_cases hid : x.orderId = o.orderId
    · obtain ⟨rfl, rfl⟩ := hok.unique hx (Lob.mem_of_find hfind).1 hid
      exact ⟨hb.executed, hb.qty.trans (congrArg some hqty)⟩
    · exact hrest.booked s' x (Lob.mem_remove.mpr ⟨hx, hid⟩)
  -- nothing is left: the `Fill` of quantity 0 trades nothing
  | @finished s o hact hfind hq hvalid hexec hmove =>
    obtain ⟨hrest, hb⟩ := h.replaced (c := c) hfind (req.target c o) (req.newQty o)
    have hid := (Lob.mem_of_find hfind).2
    have hb' : Booked (log ++ [Lob.replaceRecord c req o (req.target c o) (req.newQty o)])
        req.combinedId o.executed o.executed := by
      rw [← hid]
      exact ⟨hb.executed, hb.qty.trans (congrArg some hexec)⟩
    have := hrest.finished (c := c) (req.target c o)
      (fun s' x hx => by rw [← hid]; exact (Lob.mem_remove.mp hx).2) hb'
    rw [List.append_assoc] at this
    exact this
  | @requeued s o hact hfind hq hvalid hexec hmove =>
    obtain ⟨hrest, hb⟩ := h.replaced (c := c) hfind (req.target c o) (req.newQty o)
    have hex := o.resized_executed hexec.le
    have := hrest.execute (hok.remove o.orderId) (t := o.resized (req.newQty o))
      (hok.sane (Lob.mem_of_find hfind).1).id (fun s' x hx => (Lob.mem_remove.mp hx).2)
      (Nat.sub_le _ _) (by rw [hex]; exact hb) gen s (req.target c o)
    rw [List.append_assoc] at this
    exact this
  | @shrunk s o hact hfind hq hvalid hexec hlevel hqty =>
    obtain ⟨hrest, hb⟩ := h.replaced (c := c) hfind (req.target c o) (req.newQty o)
    refine ⟨fun s' x hx => ?_, hrest.complete, hrest.balanced⟩
    obtain ⟨m, hm, rfl⟩ := List.mem_map.mp hx
    split
    · rename_i hid
      obtain ⟨rfl, rfl⟩ := hok.unique hm (Lob.mem_of_find hfind).1 hid
      exact ⟨hb.executed.trans (m.resized_executed hexec.le).symm, hb.qty⟩
    · rename_i hid
      exact hrest.booked s' m (Lob.mem_remove.mpr ⟨hm, hid⟩)

/-- Every reachable book is conserved. -/
theorem reachable_conserved {c : Config} {st : State} (h : Reachable c st) :
    Conserved st.book.lob st.log := by
  refine h.rule ⟨fun _ _ ho => absurd ho List.not_mem_nil, fun pre r post hcut => ?_, fun _ => rfl⟩
    (fun hok _ _ hP hout => hP.step hok hout)
  simp at hcut

/-- Quantity is conserved: a resting order has traded original minus remaining
since its latest `New`, an order that leaves by a `Fill` has traded the quantity
of its latest `New` or `Replaced`, and at every price as much was bought as
sold. -/
theorem quantity_conserved {c : Config} {st : State} (h : Reachable c st) :
    (∀ s o, o ∈ st.book.lob s →
      o.qtyOriginal - o.qtyRemaining = executedSince o.orderId st.log) ∧
    (∀ pre r post, st.log = pre ++ r :: post → r.execType = .fill →
      lastQty r.combinedId (pre ++ [r]) = some (executedSince r.combinedId (pre ++ [r]))) ∧
    (∀ p, volume .buy p st.log = volume .sell p st.log) := by
  have hcons := reachable_conserved h
  exact ⟨fun s o ho => (hcons.booked s o ho).executed.symm, hcons.complete, hcons.balanced⟩

/-- The sample run: nine records, and each order's executed quantity is what they say. -/
theorem sample_conserved : ∃ st, Reachable sampleConfig st ∧ st.log.length = 9 ∧
    ∀ s o, o ∈ st.book.lob s →
      o.qtyOriginal - o.qtyRemaining = executedSince o.orderId st.log := by
  obtain ⟨st, hst, hlen, -⟩ := sample_reachable
  exact ⟨st, hst, hlen, (quantity_conserved hst).1⟩

end Exchange
