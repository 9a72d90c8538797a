import Exchange.Book.Safety
import Exchange.Book.Stream
import Exchange.Database.OpenOrders
import Exchange.Engine.Runs

/-!
# Records that can be taken in more than one way

An account store is told of orders record by record, and has to make something of any record.
For some it matters what is known of the order: a `PartialFill` of an order that is not open,
a `Replaced` with another side. The engine sends none of these (`Run.taken`): the records of a
request are an acknowledgement, which bears the side of the order it names, and trades of
orders that are open.

The stores tell orders apart by client and order id, the engine keeps a book for each symbol.
`owner` has the symbol an id is used for.
-/

namespace Exchange

/-- A `PartialFill` is of an open order, and an order that is entered or replaced keeps its
side. -/
structure OpenLedger.Takes (x : OpenLedger) (r : OrderResponse) : Prop where
  partialFill : r.execType = .partialFill → (x r.combinedId).isSome = true
  side : r.execType = .new ∨ r.execType = .replaced →
    ∀ y, x r.combinedId = some y → y.side = r.side

/-- Records that are taken one after the other. -/
inductive TakenAlong : OpenLedger → List OrderResponse → Prop
  | nil (x : OpenLedger) : TakenAlong x []
  | cons {x : OpenLedger} {r : OrderResponse} {rs : List OrderResponse} (h : x.Takes r)
      (hrs : TakenAlong (x.record r) rs) : TakenAlong x (r :: rs)

namespace TakenAlong

/-- One stretch of records after another. -/
theorem append {x : OpenLedger} {rs rs' : List OrderResponse} (h : TakenAlong x rs)
    (h' : TakenAlong (rs.foldl OpenLedger.record x) rs') : TakenAlong x (rs ++ rs') := by
  induction h with
  | nil => exact h'
  | cons hr _ ih => exact .cons hr (ih h')

theorem of_prefix {x : OpenLedger} {rs rs' : List OrderResponse} (h : TakenAlong x rs)
    (hpre : rs' <+: rs) : TakenAlong x rs' := by
  induction h generalizing rs' with
  | nil =>
    rw [List.prefix_nil.mp hpre]
    exact .nil _
  | cons hr _ ih =>
    cases rs' with
    | nil => exact .nil _
    | cons r' rs' =>
      obtain ⟨rfl, htail⟩ := List.cons_prefix_cons.mp hpre
      exact .cons hr (ih htail)

end TakenAlong

/-! ## Ledgers that agree where it matters -/

namespace OpenLedger

variable {x x' : OpenLedger} {r : OrderResponse} {rs : List OrderResponse} {k : Nat}

/-- Records of other orders leave a row. -/
theorem foldl_other (h : ∀ r ∈ rs, k ≠ r.combinedId) : rs.foldl record x k = x k := by
  induction rs generalizing x with
  | nil => rfl
  | cons r rs ih =>
    rw [List.foldl_cons, ih fun r' hr' => h r' (List.mem_cons_of_mem _ hr')]
    exact record_other (h r List.mem_cons_self)

/-- Only the rows the records name are read. -/
theorem taken_congr (ht : TakenAlong x rs) (h : ∀ r ∈ rs, x' r.combinedId = x r.combinedId) :
    TakenAlong x' rs := by
  induction ht generalizing x' with
  | nil => exact .nil _
  | @cons x r rs hr _ ih =>
    have hself := h r List.mem_cons_self
    refine .cons ⟨fun hp => ?_, fun hn y hy => ?_⟩ (ih fun r' hr' => ?_)
    · rw [hself]
      exact hr.partialFill hp
    · rw [hself] at hy
      exact hr.side hn y hy
    · exact record_congr (h r' (List.mem_cons_of_mem _ hr')) r

/-- The ledger has the rows that are left. -/
def SameKeys (x : OpenLedger) (y : Remaining) : Prop := ∀ k, (x k).isSome = (y k).isSome

/-- The ledger and the remaining quantities name the same orders, record after record, -/
theorem SameKeys.next {y : Remaining} (h : x.SameKeys y) (ht : x.Takes r) :
    (x.record r).SameKeys (y.next r) := by
  intro k
  by_cases hk : k = r.combinedId
  · subst hk
    unfold record Remaining.next
    cases hr : r.execType with
    | new | replaced => simp
    | partialFill => simp [ht.partialFill hr]
    | fill | cancelled => simp
    | rejected | orderStatus | complete => exact h _
  · rw [record_other hk, Remaining.next_other y hk]
    exact h k

end OpenLedger

/-- as they do of one book. -/
theorem Lob.ledger_sameKeys (c : Config) (a : Lob) : (a.ledger c).SameKeys a.remaining := by
  intro k
  unfold Lob.ledger Lob.remaining Lob.rows
  rw [Option.isSome_map, Option.isSome_map]

/-- Trades of open orders are taken. -/
theorem Stream.taken {x : OpenLedger} {y y' : Remaining} {rs : List OrderResponse} (h : Stream y rs y')
    (hkeys : x.SameKeys y) (hrs : ∀ r ∈ rs, r.execType ≠ .new ∧ r.execType ≠ .replaced) :
    TakenAlong x rs := by
  induction h generalizing x with
  | nil => exact .nil _
  | @cons y y' r rs hr _ ih =>
    obtain ⟨hnew, hreplaced⟩ := hrs r List.mem_cons_self
    have ht : x.Takes r := by
      refine ⟨fun hp => ?_, fun hn => ?_⟩
      · have hfits := hr.fits
        unfold Remaining.Fits at hfits
        rw [hp] at hfits
        rw [hkeys, hfits.1]
        rfl
      · rcases hn with hn | hn
        · exact absurd hn hnew
        · exact absurd hn hreplaced
    exact .cons ht (ih (hkeys.next ht) fun r' hr' => hrs r' (List.mem_cons_of_mem _ hr'))

/-! ## The records of a request -/

section Requests

variable {c : Config} {a : Lob} {req : OrderRequest} {gen : Nat → Nat}

/-- No trade record is a `Replaced`. -/
theorem trade_ne_replaced {s : Slot} {t : Order} {idx : Nat} {r : OrderResponse}
    (h : r ∈ (a.execute c gen s t idx).recs) : r.execType ≠ .replaced := by
  rcases tradeRecords_execType h with he | he <;> rw [he] <;> decide

/-- One request: every record finds the row it needs. -/
theorem Lob.Outcome.taken (hok : a.Ok c) (hwf : WellFormed c a req) {ans : Answer}
    (hout : Lob.Outcome c gen a req ans) : TakenAlong (a.ledger c) ans.recs := by
  have hstream := hout.stream hok hwf
  -- an acknowledgement that is taken, and trades after it
  have hcons : ∀ {ack : OrderResponse} {rs : List OrderResponse} {y' : Remaining},
      Stream a.remaining (ack :: rs) y' → (a.ledger c).Takes ack →
      (∀ r ∈ rs, r.execType ≠ .new ∧ r.execType ≠ .replaced) → TakenAlong (a.ledger c) (ack :: rs) := by
    intro ack rs y' hs ht hrs
    cases hs with
    | cons _ hs => exact .cons ht (hs.taken ((a.ledger_sameKeys c).next ht) hrs)
  have hnone : ∀ r ∈ ([] : List OrderResponse), r.execType ≠ .new ∧ r.execType ≠ .replaced :=
    fun _ h => absurd h List.not_mem_nil
  -- a replacement bears the side of its order
  have hreplaced : ∀ {s o} (target newQty : Nat), req.action = .modify →
      a.find req.combinedId = some (s, o) →
      (a.ledger c).Takes (replaceRecord c req o target newQty) := by
    intro s o target newQty hact hfind
    refine ⟨(fun h => by cases h), fun _ y hy => ?_⟩
    rw [replaceRecord, c.response_combinedId _ _ _ _ _ _ _ req.combinedId_lt] at hy
    unfold Lob.ledger at hy
    rw [hfind] at hy
    rw [← Option.some.inj hy]
    exact (hwf.named (Or.inr hact) s o hfind).symm
  cases hout with
  | rejected qRem code =>
    refine hcons hstream ⟨(fun h => by cases h), fun h => ?_⟩ hnone
    rcases h with h | h <;> cases h
  | entered _ hfresh _ _ _ _ =>
    refine hcons hstream ⟨(fun h => by cases h), fun _ y hy => ?_⟩
      fun r hr => ⟨trade_ne_new hr, trade_ne_replaced hr⟩
    rw [newRecord, c.response_combinedId _ _ _ _ _ _ _ req.combinedId_lt] at hy
    unfold Lob.ledger at hy
    rw [hfresh] at hy
    cases hy
  | cancelled hact hfind =>
    refine hcons hstream ⟨(fun h => by cases h), fun h => ?_⟩ hnone
    rcases h with h | h <;> cases h
  | kept hact hfind => exact hcons hstream (hreplaced _ _ hact hfind) hnone
  | finished hact hfind =>
    refine hcons hstream (hreplaced _ _ hact hfind) fun r hr => ?_
    rw [List.mem_singleton.mp hr]
    exact ⟨(fun h => by cases h), (fun h => by cases h)⟩
  | requeued hact hfind =>
    exact hcons hstream (hreplaced _ _ hact hfind) fun r hr => ⟨trade_ne_new hr, trade_ne_replaced hr⟩
  | shrunk hact hfind => exact hcons hstream (hreplaced _ _ hact hfind) hnone

/-- Whose order a request can be about: its own, or one that rests. -/
def Lob.Names (a : Lob) (req : OrderRequest) (k : Nat) : Prop :=
  k = req.combinedId ∨ ∃ s o, o ∈ a s ∧ o.orderId = k

/-- The trades of a match name the taker or an order that rested. -/
theorem Lob.Taking.ids {s : Slot} {idx : Nat} (gen : Nat → Nat) {t : Order} (h : a.Taking t) :
    ∀ r ∈ (a.execute c gen s t idx).recs,
      r.combinedId = t.orderId ∨ ∃ s o, o ∈ a s ∧ o.orderId = r.combinedId := by
  refine execute_rule (P := fun a t rs _ => ∀ r ∈ rs,
    r.combinedId = t.orderId ∨ ∃ s o, o ∈ a s ∧ o.orderId = r.combinedId) ?_ ?_ ?_ gen h
  · intro a t _ _ r hr
    exact absurd hr List.not_mem_nil
  · intro a t y ms rs b x ht hm _ _ _ hnext r hr
    have hmem : y ∈ a s.flip := hm ▸ List.mem_cons_self
    rcases List.mem_cons.mp hr with rfl | hr
    · exact Or.inl (c.response_combinedId _ _ _ _ _ _ _ ht.id)
    rcases List.mem_cons.mp hr with rfl | hr
    · exact Or.inr ⟨_, y, hmem, (c.response_combinedId _ _ _ _ _ _ _ (ht.distinct.id hmem)).symm⟩
    · rcases hnext r hr with heq | ⟨s', o, ho, hid⟩
      · exact Or.inl heq
      · exact Or.inr ⟨s', o, (mem_remove.mp ho).1, hid⟩
  · intro a t y ms x ht hm _ _ _ r hr
    have hmem : y ∈ a s.flip := hm ▸ List.mem_cons_self
    rcases List.mem_cons.mp hr with rfl | hr
    · exact Or.inl (c.response_combinedId _ _ _ _ _ _ _ ht.id)
    · rw [List.mem_singleton.mp hr]
      exact Or.inr ⟨_, y, hmem, (c.response_combinedId _ _ _ _ _ _ _ (ht.distinct.id hmem)).symm⟩

theorem Lob.Outcome.ids (hok : a.Ok c) {ans : Answer} (hout : Lob.Outcome c gen a req ans) :
    (∀ r ∈ ans.recs, a.Names req r.combinedId) ∧ ∀ s o, o ∈ ans.lob s → a.Names req o.orderId := by
  have hown : ∀ (t : ExecType) (e : Nat) (s : Side) (p : Int) (q l : Nat) (code : RejectCode),
      a.Names req (c.response t req.combinedId e s p q l code).combinedId := fun _ _ _ _ _ _ _ =>
    Or.inl (c.response_combinedId _ _ _ _ _ _ _ req.combinedId_lt)
  have hstays : ∀ s o, o ∈ a s → a.Names req o.orderId := fun s o ho => Or.inr ⟨s, o, ho, rfl⟩
  cases hout with
  | rejected qRem code =>
    exact ⟨fun r hr => List.mem_singleton.mp hr ▸ hown _ _ _ _ _ _ _, hstays⟩
  | entered _ hnone _ _ _ _ =>
    refine ⟨fun r hr => ?_, fun s o ho => ?_⟩
    · rcases List.mem_cons.mp hr with rfl | hr
      · exact hown _ _ _ _ _ _ _
      · exact (Taking.of_new hok hnone).ids gen r hr
    · rcases mem_execute c gen ho with ⟨m, hm, k, -, rfl⟩ | ⟨-, hid⟩
      · exact hstays s m hm
      · exact Or.inl hid
  | @cancelled s o hact hfind =>
    obtain ⟨ho, -⟩ := mem_of_find hfind
    refine ⟨fun r hr => ?_, fun s o ho => hstays s o (mem_remove.mp ho).1⟩
    rw [List.mem_singleton.mp hr, cancelRecord, c.response_combinedId _ _ _ _ _ _ _ (hok.sane ho).id]
    exact hstays s o ho
  | kept => exact ⟨fun r hr => List.mem_singleton.mp hr ▸ hown _ _ _ _ _ _ _, hstays⟩
  | finished =>
    refine ⟨fun r hr => ?_, fun s o ho => hstays s o (mem_remove.mp ho).1⟩
    rcases List.mem_cons.mp hr with rfl | hr
    · exact hown _ _ _ _ _ _ _
    · exact List.mem_singleton.mp hr ▸ hown _ _ _ _ _ _ _
  | @requeued s o _ hfind =>
    obtain ⟨ho, hid⟩ := mem_of_find hfind
    refine ⟨fun r hr => ?_, fun s' x hx => ?_⟩
    · rcases List.mem_cons.mp hr with rfl | hr
      · exact hown _ _ _ _ _ _ _
      · rcases (Taking.of_replaced hok ho _).ids gen r hr with heq | ⟨s', x, hx, hxid⟩
        · exact Or.inl (heq.trans hid)
        · exact Or.inr ⟨s', x, (mem_remove.mp hx).1, hxid⟩
    · rcases mem_execute c gen hx with ⟨m, hm, k, -, rfl⟩ | ⟨-, hxid⟩
      · exact hstays s' m (mem_remove.mp hm).1
      · exact Or.inl (hxid.trans hid)
  | shrunk =>
    refine ⟨fun r hr => List.mem_singleton.mp hr ▸ hown _ _ _ _ _ _ _, fun s o ho => ?_⟩
    obtain ⟨m, hm, hid, -⟩ := mem_resize ho
    exact Or.inr ⟨s, m, hm, hid⟩

end Requests

/-! ## Runs -/

namespace MatchingEngine

/-- No `Market` order, and every id used for one symbol. -/
def Apart (owner : Nat → UInt32) (req : OrderRequest) : Prop :=
  NotMarket req ∧ req.symbolId = owner req.combinedId

/-- The ledger has the orders of each book, which are those of its symbol. -/
structure Ledgers (owner : Nat → UInt32) (e : MatchingEngine) (x : OpenLedger) : Prop where
  rows : ∀ {sid b}, e.books.lookup sid = some b → ∀ k, owner k = sid → x k = b.lob.ledger b.cfg k
  owned : ∀ {sid b}, e.books.lookup sid = some b → ∀ s o, o ∈ b.lob s → owner o.orderId = sid

variable {owner : Nat → UInt32} {cfgs : List Config} {e : MatchingEngine}

/-- At the start there are no rows. -/
theorem Ledgers.create (gen : Nat → Nat) : Ledgers owner (create cfgs gen) fun _ => none := by
  refine ⟨fun h k _ => ?_, fun h s o ho => ?_⟩ <;> obtain ⟨c, -, -, rfl⟩ := create_lookup h
  · rw [fresh_lob]
    rfl
  · rw [fresh_lob] at ho
    exact absurd ho List.not_mem_nil

/-- One request: its records are taken, and the ledger follows. -/
theorem Ledgers.step {x : OpenLedger} (h : Ledgers owner e x) (hsound : e.Sound cfgs) {req : OrderRequest}
    (hreq : e.Accepts req) (hapart : Apart owner req) {e' : MatchingEngine} {new : List Emission}
    (hpoll : e.pollServer req = some (e', new)) :
    TakenAlong x (new.map (·.resp)) ∧
      Ledgers owner e' ((new.map (·.resp)).foldl OpenLedger.record x) := by
  cases hsound.stepped hreq hpoll with
  | unserved => exact ⟨.nil _, h⟩
  | @served b b' gen new hsym hcfg hlob hnew =>
    have hok := hsound.ok hsym
    have hwf := hreq b hsym
    have hout := Lob.step_outcome b.cfg e.gen b.lob req
    obtain ⟨hrecs, hstays⟩ := hout.ids hok
    -- what the request is about belongs to its symbol
    have hnames : ∀ k, b.lob.Names req k → owner k = req.symbolId := by
      rintro k (rfl | ⟨s, o, ho, rfl⟩)
      · exact hapart.2.symm
      · exact h.owned hsym s o ho
    have hsame : ∀ r ∈ new.map (·.resp), x r.combinedId = b.lob.ledger b.cfg r.combinedId := by
      intro r hr
      rw [hnew] at hr
      exact h.rows hsym _ (hnames _ (hrecs r hr))
    refine ⟨OpenLedger.taken_congr (hnew ▸ hout.taken hok hwf) hsame, ?_, ?_⟩
    · intro sid b'' hb k hk
      by_cases hs : sid = req.symbolId
      · subst hs
        rw [AList.lookup_insert] at hb
        rw [← Option.some.inj hb, OpenLedger.foldl_congr _ (h.rows hsym k hk), hnew,
          hout.ledger hok hwf hapart.1, hlob, hcfg]
      · rw [AList.lookup_insert_ne hs] at hb
        rw [OpenLedger.foldl_other, h.rows hb k hk]
        intro r hr heq
        rw [hnew] at hr
        exact hs (hk.symm.trans (heq ▸ hnames _ (hrecs r hr)))
    · intro sid b'' hb s o ho
      by_cases hs : sid = req.symbolId
      · subst hs
        rw [AList.lookup_insert] at hb
        rw [← Option.some.inj hb, hlob] at ho
        exact hnames _ (hstays s o ho)
      · rw [AList.lookup_insert_ne hs] at hb
        exact h.owned hb s o ho

/-- The records of a run are taken, one after the other. -/
theorem Run.taken {out : List Emission} (h : Run (Apart owner) cfgs e out) :
    TakenAlong (fun _ => none) (out.map (·.resp)) := by
  suffices TakenAlong (fun _ => none) (out.map (·.resp)) ∧
      Ledgers owner e ((out.map (·.resp)).foldl OpenLedger.record fun _ => none) from this.1
  induction h with
  | create gen => exact ⟨.nil _, .create gen⟩
  | step hrun hapart hreq hpoll ih =>
    obtain ⟨htaken, hledgers⟩ := ih
    obtain ⟨hnew, hnext⟩ := hledgers.step hrun.sound hreq hapart hpoll
    rw [List.map_append, List.foldl_append]
    exact ⟨htaken.append hnew, hnext⟩

end MatchingEngine

end Exchange
