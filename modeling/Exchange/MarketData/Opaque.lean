import Mathlib.Logic.Equiv.Basic
import Exchange.MarketData.L3
import Exchange.MarketData.Mirror
import Exchange.MarketData.Rename

/-!
# Order identifiers and the pending order

A renaming of `(client_id, order_id)` pairs should not matter to the server. It does
in one place: `pending_order.order_id` is 0 when nothing pends, so that an order
whose own id is 0 is set aside and forgotten.

`identifiers_opaque`: over a journal in which no record that is set aside has its
order id turned into 0, or from 0 into something else, the renamed journal makes the
renamed books, with the same levels, totals, queues and marks, and publishes the
renamed updates.
-/

namespace Exchange.MarketData

open Lib

/-- A renaming of `(client_id, order_id)`. -/
abbrev Renaming := UInt32 × UInt32 → UInt32 × UInt32

/-- A renaming of combined order ids. -/
def Renaming.ids (σ : Renaming) (n : Nat) : Nat :=
  if n < 2 ^ 64 then
    combinedOrderId (σ (clientIdOf n, orderIdOf n)).1 (σ (clientIdOf n, orderIdOf n)).2
  else n

/-- A record under its new name. -/
def OrderResponse.renamed (σ : Renaming) (r : OrderResponse) : OrderResponse :=
  { r with clientId := (σ (r.clientId, r.orderId)).1, orderId := (σ (r.clientId, r.orderId)).2 }

/-- A published update under its new name. -/
def L3Update.renamed (σ : Renaming) (u : L3Update) : L3Update := { u with orderId := σ.ids u.orderId }

theorem Renaming.ids_combined (σ : Renaming) (c o : UInt32) :
    σ.ids (combinedOrderId c o) = combinedOrderId (σ (c, o)).1 (σ (c, o)).2 := by
  unfold ids
  rw [if_pos (combinedOrderId_lt c o), clientIdOf_combined, orderIdOf_combined]

theorem Renaming.ids_injective {σ : Renaming} (hσ : Function.Injective σ) :
    Function.Injective σ.ids := by
  intro n n' h
  unfold ids at h
  split at h
  · rename_i hn
    split at h
    · rename_i hn'
      obtain ⟨hc, ho⟩ := combinedOrderId_inj h
      obtain ⟨hc, ho⟩ := Prod.mk.inj (hσ (Prod.ext hc ho))
      rw [← combinedOrderId_parts hn, ← combinedOrderId_parts hn', hc, ho]
    · have := combinedOrderId_lt (σ (clientIdOf n, orderIdOf n)).1 (σ (clientIdOf n, orderIdOf n)).2
      omega
  · split at h
    · have := combinedOrderId_lt (σ (clientIdOf n', orderIdOf n')).1
        (σ (clientIdOf n', orderIdOf n')).2
      omega
    · exact h

theorem renamed_combinedId (σ : Renaming) (r : OrderResponse) :
    (OrderResponse.renamed σ r).combinedId = σ.ids r.combinedId :=
  (σ.ids_combined r.clientId r.orderId).symm

/-- `m'` is `m` under other names. -/
structure RenamedBook (σ : Renaming) (m m' : MDOrderBook) : Prop where
  book : Sim True σ.ids id 0 m.book m'.book
  /-- Nothing pends in either, or the same order does. -/
  pending : (m.pendingOrder.orderId = 0 ∧ m'.pendingOrder.orderId = 0) ∨
    (m.pendingOrder.orderId ≠ 0 ∧ m'.pendingOrder.orderId ≠ 0 ∧
      m'.pendingOrder = OrderResponse.renamed σ m.pendingOrder)
  seq : m'.mdSeqNum = m.mdSeqNum

theorem renamed_init (σ : Renaming) : RenamedBook σ .init .init := by
  refine ⟨⟨fun _ => rfl, fun _ _ => rfl, fun _ _ => rfl, fun _ => rfl, Nat.zero_le _, fun h => ?_,
    fun h => ?_, fun _ => rfl⟩, Or.inl ⟨rfl, rfl⟩, rfl⟩
  · cases h
  · cases h

/-- The record is set aside: nothing pends, and it is an acknowledgement that crosses. -/
def MDOrderBook.SetsAside (m : MDOrderBook) (r : OrderResponse) : Prop :=
  m.pendingOrder.orderId = 0 ∧ checkExec r.execType execMe = true ∧ m.crosses r.side r.p = true

/-- A record that is set aside is renamed to or from the id 0 by no renaming. -/
def Neutral (σ : Renaming) (m : MDOrderBook) (r : OrderResponse) : Prop :=
  m.SetsAside r → (r.orderId = 0 ↔ (OrderResponse.renamed σ r).orderId = 0)

/-- Books under other names, and publications under theirs. -/
def RenamedRun (σ : Renaming) (res res' : MDOrderBook × List L3Update) : Prop :=
  RenamedBook σ res.1 res'.1 ∧ res'.2 = res.2.map (L3Update.renamed σ)

section Process

variable {σ : Renaming} {m m' : MDOrderBook} {r : OrderResponse}

/-- Whether a price crosses has nothing to do with ids. -/
theorem RenamedBook.crosses (h : RenamedBook σ m m') (side : Side) (p : Int) :
    m'.crosses side p = m.crosses side p := by
  unfold MDOrderBook.crosses
  rw [h.book.best, h.book.best]

theorem RenamedBook.updateL3 (hσ : Function.Injective σ) (h : RenamedBook σ m m') (r : OrderResponse) :
    Agree (fun res res' => RenamedRun σ res res' ∧ res.1.pendingOrder = m.pendingOrder ∧
      res'.1.pendingOrder = m'.pendingOrder) (m.updateL3 r) (m'.updateL3 (OrderResponse.renamed σ r)) := by
  have hbook := h.book.update (Renaming.ids_injective hσ) (fun _ _ he => he) r.execType r.combinedId
    r.side r.p r.q r.qRem
  rw [← renamed_combinedId] at hbook
  unfold MDOrderBook.updateL3 MDOrderBook.update
  refine Agree.bind (R := fun m₁ m₁' => RenamedBook σ m₁ m₁' ∧ m₁.pendingOrder = m.pendingOrder ∧
    m₁'.pendingOrder = m'.pendingOrder) ?_ ?_
  · refine hbook.bind ?_
    intro b b' hb
    exact .ok ⟨⟨hb, h.pending, congrArg (· + 1) h.seq⟩, rfl, rfl⟩
  · rintro m₁ m₁' ⟨h₁, hp, hp'⟩
    refine .ok ⟨⟨h₁, ?_⟩, hp, hp'⟩
    dsimp only
    rw [List.map_singleton]
    unfold OrderResponse.l3 L3Update.renamed
    rw [renamed_combinedId]
    rfl

theorem RenamedBook.applyL3 (hσ : Function.Injective σ) (h : RenamedBook σ m m') (r : OrderResponse) :
    Agree (RenamedRun σ) (m.applyL3 r) (m'.applyL3 (OrderResponse.renamed σ r)) := by
  unfold MDOrderBook.applyL3
  refine (h.updateL3 hσ r).bind ?_
  rintro ⟨m₁, us⟩ ⟨m₁', us'⟩ ⟨⟨h₁, hus⟩, -, -⟩
  dsimp only at h₁ hus ⊢
  rcases h₁.pending with ⟨hdead, hdead'⟩ | ⟨hlive, hlive', hsame⟩
  · rw [if_pos (Or.inl hdead), if_pos (Or.inl hdead')]
    exact .ok ⟨h₁, hus⟩
  · have hcross : m₁'.crosses m₁'.pendingOrder.side m₁'.pendingOrder.p =
        m₁.crosses m₁.pendingOrder.side m₁.pendingOrder.p := by
      rw [hsame]
      exact h₁.crosses ..
    by_cases hx : m₁.crosses m₁.pendingOrder.side m₁.pendingOrder.p = true
    · rw [if_pos (Or.inr hx), if_pos (Or.inr (hcross.trans hx))]
      exact .ok ⟨h₁, hus⟩
    · rw [if_neg (not_or.mpr ⟨hlive, hx⟩), if_neg (not_or.mpr ⟨hlive', by rw [hcross]; exact hx⟩), hsame]
      refine (h₁.updateL3 hσ m₁.pendingOrder).bind ?_
      rintro ⟨m₂, us₂⟩ ⟨m₂', us₂'⟩ ⟨⟨h₂, hus₂⟩, -, -⟩
      dsimp only at h₂ hus₂ ⊢
      refine .ok ⟨⟨h₂.book, Or.inl ⟨rfl, rfl⟩, h₂.seq⟩, ?_⟩
      dsimp only
      rw [hus, hus₂, List.map_append]

/-- One record. -/
theorem RenamedBook.processL3 (hσ : Function.Injective σ) (h : RenamedBook σ m m')
    (hneutral : Neutral σ m r) :
    Agree (RenamedRun σ) (m.processL3 r) (m'.processL3 (OrderResponse.renamed σ r)) := by
  have hside : (OrderResponse.renamed σ r).side = r.side ∧ (OrderResponse.renamed σ r).p = r.p ∧
    (OrderResponse.renamed σ r).execType = r.execType := ⟨rfl, rfl, rfl⟩
  unfold MDOrderBook.processL3
  rw [hside.1, hside.2.1, hside.2.2]
  rcases h.pending with ⟨hdead, hdead'⟩ | ⟨hlive, hlive', hsame⟩
  · rw [if_neg (not_not.mpr hdead), if_neg (not_not.mpr hdead'), h.crosses]
    split
    · rename_i haside
      have hzero := hneutral ⟨hdead, haside⟩
      -- the record is kept under its name, with the id 0 in both books or in neither
      have hkeep : ∀ res res' : MDOrderBook × List L3Update, RenamedRun σ res res' →
          Agree (RenamedRun σ)
            (Except.ok (ε := Fault) ({ res.1 with pendingOrder := { r with execType := .new } }, res.2))
            (.ok ({ res'.1 with pendingOrder := { OrderResponse.renamed σ r with execType := .new } },
              res'.2)) := by
        rintro ⟨m₁, us⟩ ⟨m₁', us'⟩ ⟨h₁, hus⟩
        refine .ok ⟨⟨h₁.book, ?_, h₁.seq⟩, hus⟩
        by_cases hz : r.orderId = 0
        · exact Or.inl ⟨hz, hzero.mp hz⟩
        · exact Or.inr ⟨hz, fun e => hz (hzero.mpr e), rfl⟩
      split
      · refine (h.updateL3 hσ { r with execType := .cancelled, qRem := 0 }).bind ?_
        intro res res' hres
        exact hkeep res res' hres.1
      · exact hkeep (m, []) (m', []) ⟨h, rfl⟩
    · exact h.applyL3 hσ r
  · rw [if_pos hlive, if_pos hlive']
    split
    · exact .error _
    -- the record is about the pending order under either name
    have hown : ((OrderResponse.renamed σ r).orderId = m'.pendingOrder.orderId ∧
        (OrderResponse.renamed σ r).clientId = m'.pendingOrder.clientId) ↔
        (r.orderId = m.pendingOrder.orderId ∧ r.clientId = m.pendingOrder.clientId) := by
      rw [hsame]
      constructor
      · rintro ⟨ho, hc⟩
        obtain ⟨hc, ho⟩ := Prod.mk.inj (hσ (Prod.ext hc ho))
        exact ⟨ho, hc⟩
      · rintro ⟨ho, hc⟩
        unfold OrderResponse.renamed
        rw [ho, hc]
        exact ⟨rfl, rfl⟩
    have hboth := and_congr_right (a := checkExec r.execType (execAnn ||| execMask .partialFill) = true)
      (fun _ => hown)
    by_cases hmine : checkExec r.execType (execAnn ||| execMask .partialFill) = true ∧
        r.orderId = m.pendingOrder.orderId ∧ r.clientId = m.pendingOrder.clientId
    · rw [if_pos hmine, if_pos (hboth.mpr hmine)]
      split
      · refine .ok ⟨⟨h.book, Or.inr ⟨hlive, hlive', ?_⟩, h.seq⟩, rfl⟩
        dsimp only
        rw [hsame]
        rfl
      · exact .ok ⟨⟨h.book, Or.inl ⟨rfl, rfl⟩, h.seq⟩, rfl⟩
    · rw [if_neg hmine, if_neg (fun hc => hmine (hboth.mp hc))]
      exact h.applyL3 hσ r

end Process

/-! ## Journals -/

/-- The server's books under other names. -/
def RenamedServer (σ : Renaming) (srv srv' : Server) : Prop :=
  ∀ sid, RenamedBook σ (srv.getOrCreateBook sid) (srv'.getOrCreateBook sid)

/-- Every record of the journal that is set aside is neutral. -/
def NeutralAlong (σ : Renaming) : Server → List OrderResponse → Prop
  | _, [] => True
  | srv, r :: rs => Neutral σ (srv.getOrCreateBook r.symbolId) r ∧
    ∀ srv', srv.processMarketUpdate r = .ok srv' → NeutralAlong σ srv' rs

/-- Servers under other names, and what they publish under theirs. -/
def RenamedFeed (σ : Renaming) (res res' : Server × List (UInt32 × L3Update)) : Prop :=
  RenamedServer σ res.1 res'.1 ∧ res'.2 = res.2.map fun u => (u.1, L3Update.renamed σ u.2)

section Journals

variable {σ : Renaming} (hσ : Function.Injective σ)

include hσ

theorem RenamedServer.processL3 {srv srv' : Server} (h : RenamedServer σ srv srv') {r : OrderResponse}
    (hneutral : Neutral σ (srv.getOrCreateBook r.symbolId) r) :
    Agree (RenamedFeed σ) (srv.processL3 r) (srv'.processL3 (OrderResponse.renamed σ r)) := by
  have htype : (OrderResponse.renamed σ r).execType = r.execType := rfl
  have hsym : (OrderResponse.renamed σ r).symbolId = r.symbolId := rfl
  unfold Server.processL3
  rw [htype, hsym]
  split
  · refine ((h r.symbolId).processL3 hσ hneutral).bind ?_
    rintro ⟨m, us⟩ ⟨m', us'⟩ ⟨hm, hus⟩
    refine .ok ⟨fun sid => ?_, ?_⟩
    · dsimp only at hm ⊢
      by_cases hs : sid = r.symbolId
      · subst hs
        rw [getOrCreateBook_self srv, getOrCreateBook_self srv']
        exact hm
      · rw [getOrCreateBook_ne srv hs, getOrCreateBook_ne srv' hs]
        exact h sid
    · dsimp only at hus ⊢
      rw [hus, List.map_map, List.map_map]
      rfl
  · exact .ok ⟨h, rfl⟩

theorem RenamedServer.feedL3 (rs : List OrderResponse) : ∀ {srv srv' : Server},
    RenamedServer σ srv srv' → NeutralAlong σ srv rs →
      Agree (RenamedFeed σ) (srv.feedL3 rs) (srv'.feedL3 (rs.map (OrderResponse.renamed σ))) := by
  induction rs with
  | nil => exact fun h _ => .ok ⟨h, rfl⟩
  | cons r rs ih =>
    intro srv srv' h hneutral
    rw [List.map_cons, Server.feedL3, Server.feedL3]
    have hfirst := h.processL3 hσ hneutral.1
    cases hr : srv.processL3 r with
    | error e =>
      rw [hr] at hfirst
      cases hf : srv'.processL3 (OrderResponse.renamed σ r) with
      | error e' =>
        rw [hf] at hfirst
        cases hfirst
        exact .error e
      | ok res =>
        rw [hf] at hfirst
        cases hfirst
    | ok res =>
      obtain ⟨res', hr', hres⟩ := hfirst.of_ok hr
      obtain ⟨srv₁, us⟩ := res
      obtain ⟨srv₁', us'⟩ := res'
      -- the server the journal goes on with
      have hnext : srv.processMarketUpdate r = .ok srv₁ := by
        have htraced := processMarketUpdate_traced srv r
        rw [hr] at htraced
        cases hp : srv.processMarketUpdate r with
        | error e =>
          rw [hp] at htraced
          cases htraced
        | ok srv₂ =>
          rw [hp] at htraced
          cases htraced with
          | ok ht => exact congrArg Except.ok ht.1.symm
      rw [hr']
      refine (ih hres.1 (hneutral.2 srv₁ hnext)).bind ?_
      rintro ⟨srv₂, us₂⟩ ⟨srv₂', us₂'⟩ ⟨h₂, hus₂⟩
      refine .ok ⟨h₂, ?_⟩
      have hus := hres.2
      dsimp only at hus hus₂ ⊢
      rw [hus, hus₂, List.map_append]

end Journals

/-- Neutral along all is neutral along the first ones. -/
theorem NeutralAlong.take {σ : Renaming} (rs : List OrderResponse) : ∀ {srv : Server},
    NeutralAlong σ srv rs → ∀ n, NeutralAlong σ srv (rs.take n) := by
  induction rs with
  | nil =>
    intro srv h n
    rw [List.take_nil]
    exact h
  | cons r rs ih =>
    intro srv h n
    cases n with
    | zero => trivial
    | succ n => exact ⟨h.1, fun srv' hs => ih (h.2 srv' hs) n⟩

/-- Over a journal whose set-aside records are neutral, the renamed journal makes, up
to any record, the renamed books and publications. -/
theorem identifiers_opaque {σ : Renaming} (hσ : Function.Injective σ) {journal : List OrderResponse}
    (h : NeutralAlong σ ∅ journal) (n : Nat) :
    Agree (RenamedFeed σ) (Server.feedL3 ∅ (journal.take n))
      (Server.feedL3 ∅ ((journal.take n).map (OrderResponse.renamed σ))) :=
  RenamedServer.feedL3 hσ _ (fun _ => renamed_init σ) (NeutralAlong.take journal h n)

/-- A renaming that keeps the id 0 apart is neutral everywhere. -/
theorem neutralAlong_of {σ : Renaming} (hσ : ∀ k, k.2 = 0 ↔ (σ k).2 = 0) (rs : List OrderResponse) :
    ∀ srv : Server, NeutralAlong σ srv rs := by
  induction rs with
  | nil => exact fun _ => trivial
  | cons r rs ih => exact fun srv => ⟨fun _ => hσ (r.clientId, r.orderId), fun srv' _ => ih srv'⟩

/-- An offer, and a bid that takes it and has something left. -/
def crossingRequests : List OrderRequest :=
  [sampleRequest .new 1 .sell 20 5, sampleRequest .new 5 .buy 20 9]

/-- The bid's order id 5 becomes 7. -/
theorem sample_opaque : ∃ e out, MatchingEngine.Run Followable [sampleConfig] e out ∧ out.length = 4 ∧
    Agree (RenamedFeed (Equiv.swap (1, 5) (1, 7))) (Server.feedL3 ∅ ((out.map (·.resp)).take 4))
      (Server.feedL3 ∅ (((out.map (·.resp)).take 4).map
        (OrderResponse.renamed (Equiv.swap (1, 5) (1, 7))))) := by
  obtain ⟨e, out, hrun, hlen⟩ := MatchingEngine.Run.of_serve Followable [sampleConfig] id
    crossingRequests (by unfold Followable; decide) (fun r => r.2.length = 4) (by decide +kernel)
  refine ⟨e, out, hrun, of_decide_eq_true hlen,
    identifiers_opaque (Equiv.injective _) (neutralAlong_of (fun k => ?_) _ _) 4⟩
  rw [Equiv.swap_apply_def]
  split
  · rename_i hk
    rw [hk]
    decide
  split
  · rename_i hk
    rw [hk]
    decide
  · exact Iff.rfl

/-- The best bid of symbol 1 after a journal. -/
def bestBidAfter (res : Except Fault (Server × List (UInt32 × L3Update))) : Option Int :=
  match res with
  | .ok res => (res.1.getOrCreateBook 1).book.best .bid
  | .error _ => none

/-- The best bid afterwards has no id in it. -/
theorem bestBidAfter_renamed {σ : Renaming} {x y : Except Fault (Server × List (UInt32 × L3Update))}
    (h : Agree (RenamedFeed σ) x y) : bestBidAfter y = bestBidAfter x := by
  cases h with
  | error e => rfl
  | ok h => exact (h.1 1).book.best .bid

/-- The bid's order id 5 becomes 0: its rest is never shown. -/
theorem identifier_zero_lost : ∃ e out, MatchingEngine.Run Followable [sampleConfig] e out ∧
    Function.Injective (Equiv.swap ((1, 5) : UInt32 × UInt32) (1, 0)) ∧
    ¬ Agree (RenamedFeed (Equiv.swap (1, 5) (1, 0))) (Server.feedL3 ∅ (out.map (·.resp)))
      (Server.feedL3 ∅ ((out.map (·.resp)).map (OrderResponse.renamed (Equiv.swap (1, 5) (1, 0))))) := by
  obtain ⟨e, out, hrun, hbest⟩ := MatchingEngine.Run.of_serve Followable [sampleConfig] id
    crossingRequests (by unfold Followable; decide)
    (fun r => bestBidAfter (Server.feedL3 ∅ (r.2.map fun x => x.resp)) = some 20 ∧
      bestBidAfter (Server.feedL3 ∅ ((r.2.map fun x => x.resp).map
        (OrderResponse.renamed (Equiv.swap (1, 5) (1, 0))))) = none) (by decide +kernel)
  obtain ⟨hshown, hlost⟩ := of_decide_eq_true hbest
  refine ⟨e, out, hrun, Equiv.injective _, fun h => ?_⟩
  have hsame := bestBidAfter_renamed h
  rw [hlost, hshown] at hsame
  cases hsame

end Exchange.MarketData
