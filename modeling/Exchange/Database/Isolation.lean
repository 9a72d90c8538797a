import Exchange.Book.Lifetimes
import Exchange.Book.Redrawn
import Exchange.Database.SQLite
import Exchange.Engine.Journal

/-!
# The open orders of one symbol

The books of an engine know nothing of each other: the records of a symbol are those of its
requests alone (`Polled.alone`). Both account stores keep a row for each client and order id, and
have the symbol in the row. So a client that uses an id for two symbols at a time has one row for
two orders, and the records of the one write the row of the other.

`RowStore` is what the two stores have in common: what a record makes of a row. It is all that is
needed to say when the rows of each symbol are what its own requests made of them: if no order is
admitted under an id that is open for another symbol (`symbol_rows_isolated_iff`).
-/

namespace Exchange

/-- A store with a row for each combined id: what a record makes of the row, and the symbol in it. -/
structure RowStore (ρ : Type) where
  edit : OrderResponse → Option ρ → Option ρ
  symbolId : ρ → UInt32
  /-- A `New` record enters a row of its symbol. -/
  entered : ∀ {r : OrderResponse}, r.execType = .new →
    ∃ row, edit r none = some row ∧ symbolId row = r.symbolId
  /-- `Replaced` and `PartialFill` keep a row of their symbol. -/
  kept : ∀ {r : OrderResponse} {row : ρ}, r.execType = .replaced ∨ r.execType = .partialFill →
    symbolId row = r.symbolId → ∃ row', edit r (some row) = some row' ∧ symbolId row' = r.symbolId
  /-- `Fill` and `Cancelled` delete any row. -/
  ended : ∀ {r : OrderResponse} (x : Option ρ), r.execType = .fill ∨ r.execType = .cancelled →
    edit r x = none
  idle : ∀ {r : OrderResponse} (x : Option ρ),
    r.execType = .rejected ∨ r.execType = .orderStatus ∨ r.execType = .complete → edit r x = x
  redrawn : ∀ {r r' : OrderResponse}, r.Redrawn r' → edit r' = edit r

namespace RowStore

variable {ρ : Type} (S : RowStore ρ)

/-- The row under `k` after one more record. -/
def next (k : Nat) (x : Option ρ) (r : OrderResponse) : Option ρ :=
  if r.combinedId = k then S.edit r x else x

/-- The row under `k`, which was `x`, after the records. -/
def row (k : Nat) (x : Option ρ) (rs : List OrderResponse) : Option ρ := rs.foldl (S.next k) x

/-- A row after two stretches of records. -/
theorem row_append (k : Nat) (x : Option ρ) (rs rs' : List OrderResponse) :
    S.row k x (rs ++ rs') = S.row k (S.row k x rs) rs' := List.foldl_append ..

/-- The numbers that are drawn do not show in the rows. -/
theorem row_redrawn (k : Nat) {rs rs' : List OrderResponse}
    (h : List.Forall₂ OrderResponse.Redrawn rs rs') (x : Option ρ) : S.row k x rs' = S.row k x rs := by
  induction h generalizing x with
  | nil => rfl
  | @cons r r' rs rs' hr _ ih =>
    have hnext : S.next k x r' = S.next k x r := by
      unfold next
      have hid : r'.combinedId = r.combinedId := by
        rw [hr.same]
        rfl
      rw [hid, S.redrawn hr]
    show S.row k (S.next k x r') rs' = S.row k (S.next k x r) rs
    rw [hnext]
    exact ih _

/-- There is a row of the symbol where the id is open, and none where it is not. -/
def Fits (sid : UInt32) (x : Set Nat) (k : Nat) (y : Option ρ) : Prop :=
  (k ∈ x → ∃ row, y = some row ∧ S.symbolId row = sid) ∧ (k ∉ x → y = none)

variable {S}

/-- One record. -/
theorem Fits.next {sid : UInt32} {N x : Set Nat} {k : Nat} {y : Option ρ} (h : S.Fits sid x k y)
    {r : OrderResponse} (hsym : r.symbolId = sid) (hr : Stands N x r.execType r.combinedId) :
    S.Fits sid (openAfter x r.execType r.combinedId) k (S.next k y r) := by
  unfold RowStore.next
  by_cases hk : r.combinedId = k
  · rw [if_pos hk]
    rw [hk] at hr ⊢
    unfold Stands at hr
    unfold openAfter
    cases ht : r.execType with
    | new =>
      rw [ht] at hr
      obtain ⟨row, hrow, hs⟩ := S.entered ht
      rw [h.2 hr.2]
      exact ⟨fun _ => ⟨row, hrow, hs.trans hsym⟩, fun hno => absurd (Set.mem_insert ..) hno⟩
    | replaced | partialFill =>
      rw [ht] at hr
      obtain ⟨row, rfl, hrow⟩ := h.1 hr
      obtain ⟨row', hrow', hs⟩ := S.kept (by rw [ht]; decide) (hrow.trans hsym.symm)
      exact ⟨fun _ => ⟨row', hrow', hs.trans hsym⟩, fun hno => absurd hr hno⟩
    | fill | cancelled =>
      rw [S.ended y (by rw [ht]; decide)]
      exact ⟨fun hin => absurd rfl hin.2, fun _ => rfl⟩
    | rejected | orderStatus | complete =>
      rw [S.idle y (by rw [ht]; decide)]
      exact h
  · rw [if_neg hk]
    have hsame := mem_openAfter_ne (x := x) (t := r.execType) (Ne.symm hk)
    exact ⟨fun hin => h.1 (hsame.mp hin), fun hno => h.2 fun hin => hno (hsame.mpr hin)⟩

/-- The records of a book. -/
theorem Fits.row {sid : UInt32} {N x x' : Set Nat} {rs : List OrderResponse}
    (hlives : Lives sid N x rs x') : ∀ {k : Nat} {y : Option ρ}, S.Fits sid x k y →
      S.Fits sid x' k (S.row k y rs) := by
  induction hlives with
  | nil => exact fun h => h
  | cons hsym hr _ ih => exact fun h => ih (h.next hsym hr)

/-- A record leaves a row as it is whose id is not open, and not entered. -/
theorem next_untouched {N x : Set Nat} {k : Nat} (hN : k ∉ N) (hk : k ∉ x) {r : OrderResponse}
    (hr : Stands N x r.execType r.combinedId) (y : Option ρ) :
    k ∉ openAfter x r.execType r.combinedId ∧ S.next k y r = y := by
  unfold RowStore.next
  by_cases hid : r.combinedId = k
  · rw [if_pos hid]
    rw [hid] at hr ⊢
    unfold Stands at hr
    unfold openAfter
    cases ht : r.execType with
    | new =>
      rw [ht] at hr
      exact absurd hr.1 hN
    | replaced | partialFill | fill | cancelled =>
      rw [ht] at hr
      exact absurd hr hk
    | rejected | orderStatus | complete => exact ⟨hk, S.idle y (by rw [ht]; decide)⟩
  · rw [if_neg hid, mem_openAfter_ne (Ne.symm hid)]
    exact ⟨hk, rfl⟩

/-- So do the records of a book. -/
theorem row_untouched {sid : UInt32} {N x x' : Set Nat} {rs : List OrderResponse}
    (hlives : Lives sid N x rs x') {k : Nat} (hN : k ∉ N) (y : Option ρ) :
    k ∉ x → k ∉ x' ∧ S.row k y rs = y := by
  induction hlives with
  | nil => exact fun hk => ⟨hk, rfl⟩
  | @cons x x' r rs hsym hr _ ih =>
    intro hk
    obtain ⟨hnext, hrow⟩ := next_untouched (S := S) hN hk hr y
    show _ ∧ S.row k (S.next k y r) rs = y
    rw [hrow]
    exact ih hnext

/-- An id that was open, and is not any more, has no row, whatever the row was. -/
theorem row_ended {sid : UInt32} {N x x' : Set Nat} {rs : List OrderResponse}
    (hlives : Lives sid N x rs x') {k : Nat} (hN : k ∉ N) :
    ∀ y : Option ρ, k ∈ x → k ∉ x' → S.row k y rs = none := by
  induction hlives with
  | nil => exact fun _ hin hno => absurd hin hno
  | @cons x x' r rs hsym hr hrest ih =>
    intro y hin hno
    show S.row k (S.next k y r) rs = none
    by_cases hopen : k ∈ openAfter x r.execType r.combinedId
    · exact ih _ hopen hno
    · -- this record has closed it
      have hid : r.combinedId = k := by
        by_contra hid
        exact hopen ((mem_openAfter_ne (Ne.symm hid)).mpr hin)
      have hclosed : r.execType = .fill ∨ r.execType = .cancelled := by
        rw [hid] at hopen
        unfold openAfter at hopen
        cases ht : r.execType with
        | new =>
          rw [ht] at hopen
          exact absurd (Set.mem_insert ..) hopen
        | fill => exact Or.inl rfl
        | cancelled => exact Or.inr rfl
        | replaced | partialFill | rejected | orderStatus | complete =>
          rw [ht] at hopen
          exact absurd hin hopen
      have hgone : S.next k y r = none := by
        unfold RowStore.next
        rw [if_pos hid, S.ended y hclosed]
      rw [hgone]
      exact (row_untouched hrest hN none hopen).2

end RowStore

/-! ## Runs of an engine -/

namespace MatchingEngine

/-- The engine that requests of any kind lead to, with the records sent. -/
inductive Polled (cfgs : List Config) (gen : Nat → Nat) :
    List OrderRequest → MatchingEngine → List OrderResponse → Prop
  | create : Polled cfgs gen [] (create cfgs gen) []
  | step {reqs : List OrderRequest} {e e' : MatchingEngine} {log : List OrderResponse} {req : OrderRequest}
      {new : List Emission} (h : Polled cfgs gen reqs e log) (hrun : e.pollServer req = some (e', new)) :
      Polled cfgs gen (reqs ++ [req]) e' (log ++ new.map (·.resp))

/-- The ids that are open for a symbol. -/
def openIds (e : MatchingEngine) (sid : UInt32) : Set Nat :=
  ((e.books.lookup sid).map OrderBook.openIds).getD ∅

/-- If a request is admitted, no order of its id is on the book of another symbol. -/
def Separate (e : MatchingEngine) (req : OrderRequest) : Prop :=
  ∀ b, e.books.lookup req.symbolId = some b → b.Admits req →
    ∀ sid b', sid ≠ req.symbolId → e.books.lookup sid = some b' → b'.activeOrders req.combinedId = none

/-- Each request of a run satisfies `K`, with the engine that it finds. -/
def Along (K : MatchingEngine → OrderRequest → Prop) (cfgs : List Config) (gen : Nat → Nat)
    (reqs : List OrderRequest) : Prop :=
  ∀ reqs' req e log, reqs' ++ [req] <+: reqs → Polled cfgs gen reqs' e log → K e req

/-- What the books of any run satisfy. -/
structure Filed (e : MatchingEngine) : Prop where
  filed : ∀ {sid b}, e.books.lookup sid = some b → b.Filed
  symbol : ∀ {sid b}, e.books.lookup sid = some b → b.cfg.symbolId = sid
  mode : ∀ {sid b}, e.books.lookup sid = some b → b.recoverMode = false

/-- At the start every book is filed under its symbol, -/
theorem create_filed (cfgs : List Config) (gen : Nat → Nat) : (create cfgs gen).Filed := by
  refine ⟨fun h => ?_, fun h => ?_, fun h => ?_⟩ <;> obtain ⟨c, -, hs, rfl⟩ := create_lookup h
  · exact .fresh c
  · exact hs
  · rfl

/-- What a request of any kind does: nothing, or something to one book. -/
inductive Handled (e : MatchingEngine) (req : OrderRequest) : MatchingEngine → List OrderResponse → Prop
  | unserved (hsym : e.books.lookup req.symbolId = none) : Handled e req e []
  | served {b b' : OrderBook} {gen : Nat → Nat} {rs : List OrderResponse}
      (hsym : e.books.lookup req.symbolId = some b)
      (hlives : Lives req.symbolId (b.entering req) b.openIds rs b'.openIds)
      (henters : b.Admits req → ∃ r rs', rs = r :: rs' ∧
        Lives req.symbolId ∅ (insert req.combinedId b.openIds) rs' b'.openIds) :
      Handled e req ⟨e.books.insert req.symbolId b', gen⟩ rs

variable {cfgs : List Config} {gen : Nat → Nat} {reqs : List OrderRequest} {e e' : MatchingEngine}
  {log : List OrderResponse} {req : OrderRequest} {new : List Emission}

/-- and a request is handled by the book of its symbol. -/
theorem Filed.handled (h : e.Filed) (hrun : e.pollServer req = some (e', new)) :
    e'.Filed ∧ Handled e req e' (new.map (·.resp)) := by
  unfold pollServer at hrun
  cases hsym : e.books.lookup req.symbolId with
  | none =>
    rw [hsym] at hrun
    obtain ⟨rfl, rfl⟩ := Prod.mk.inj (Option.some.inj hrun)
    exact ⟨h, .unserved hsym⟩
  | some b =>
    rw [hsym] at hrun
    obtain ⟨st, hst, hrun⟩ := Option.bind_eq_some_iff.mp hrun
    obtain ⟨rfl, rfl⟩ := Prod.mk.inj (Option.some.inj hrun)
    have hb : (⟨b, e.gen, []⟩ : State).book.Filed := h.filed hsym
    have hmode : b.recoverMode = false := h.mode hsym
    have hlog : ∀ {rs}, Emits ⟨b, e.gen, []⟩ st rs → st.out.map (·.resp) = rs := by
      intro rs hsent
      have hlog := hsent.log
      dsimp only at hlog
      rw [hmode, if_neg Bool.false_ne_true] at hlog
      exact hlog
    obtain ⟨hst', rs, hsent, hlives⟩ := processRequest_turns hb hst
    dsimp only at hlives
    rw [h.symbol hsym] at hlives
    refine ⟨⟨fun {sid b'} hb' => ?_, fun {sid b'} hb' => ?_, fun {sid b'} hb' => ?_⟩, .served hsym ?_ ?_⟩
    · exact lookup_insert_rec (P := fun _ b => b.Filed) hst' (fun _ _ _ => h.filed) hb'
    · exact lookup_insert_rec (P := fun sid b => b.cfg.symbolId = sid)
        (hsent.cfg ▸ h.symbol hsym) (fun _ _ _ => h.symbol) hb'
    · exact lookup_insert_rec (P := fun _ b => b.recoverMode = false) (hsent.mode.trans hmode)
        (fun _ _ _ => h.mode) hb'
    · rw [hlog hsent]
      exact hlives
    · intro hadm
      obtain ⟨rs', hsent', hlives'⟩ := processRequest_enters hb hadm hst
      refine ⟨_, rs', hlog hsent', ?_⟩
      dsimp only at hlives'
      rw [h.symbol hsym] at hlives'
      exact hlives'

theorem Handled.symbol {rs : List OrderResponse} (h : Handled e req e' rs) :
    ∀ r ∈ rs, r.symbolId = req.symbolId := by
  cases h with
  | unserved _ => exact fun _ hr => absurd hr List.not_mem_nil
  | served _ hlives _ => exact hlives.symbol

theorem Handled.other {rs : List OrderResponse} (h : Handled e req e' rs) {sid : UInt32}
    (hs : sid ≠ req.symbolId) : e'.books.lookup sid = e.books.lookup sid := by
  cases h with
  | unserved _ => rfl
  | served _ _ _ => exact AList.lookup_insert_ne hs

/-- A request does the same to a book in another engine. -/
theorem pollServer_redrawn {f : MatchingEngine} (hsame : f.books.lookup req.symbolId = e.books.lookup req.symbolId)
    (hrun : e.pollServer req = some (e', new)) :
    ∃ f' new', f.pollServer req = some (f', new') ∧
      f'.books.lookup req.symbolId = e'.books.lookup req.symbolId ∧
      List.Forall₂ OrderResponse.Redrawn (new.map (·.resp)) (new'.map (·.resp)) := by
  unfold pollServer at hrun ⊢
  rw [hsame]
  cases hsym : e.books.lookup req.symbolId with
  | none =>
    rw [hsym] at hrun
    obtain ⟨rfl, rfl⟩ := Prod.mk.inj (Option.some.inj hrun)
    exact ⟨f, [], rfl, hsame, .nil⟩
  | some b =>
    rw [hsym] at hrun
    obtain ⟨st, hst, hrun⟩ := Option.bind_eq_some_iff.mp hrun
    obtain ⟨rfl, rfl⟩ := Prod.mk.inj (Option.some.inj hrun)
    have hstart : Redrawn ⟨b, e.gen, []⟩ ⟨b, f.gen, []⟩ := ⟨rfl, .nil⟩
    obtain ⟨st', hst', hredrawn⟩ := processRequest_redrawn hstart req st hst
    refine ⟨⟨f.books.insert req.symbolId st'.book, st'.gen⟩, st'.out, ?_, ?_, hredrawn.log⟩
    · dsimp only
      rw [hst']
      rfl
    · rw [AList.lookup_insert, AList.lookup_insert, hredrawn.book]

theorem Polled.filed (h : Polled cfgs gen reqs e log) : e.Filed := by
  induction h with
  | create => exact create_filed cfgs gen
  | step _ hrun ih => exact (ih.handled hrun).1

/-- The last request of a run. -/
theorem Polled.last (h : Polled cfgs gen (reqs ++ [req]) e' log) : ∃ e log₀ new,
    Polled cfgs gen reqs e log₀ ∧ e.pollServer req = some (e', new) ∧ log = log₀ ++ new.map (·.resp) := by
  generalize hreqs : reqs ++ [req] = reqs' at h
  cases h with
  | create => exact absurd hreqs (List.append_ne_nil_of_right_ne_nil _ (List.cons_ne_nil _ _))
  | step hpre hrun =>
    obtain ⟨rfl, hreq⟩ := List.append_inj' hreqs rfl
    obtain rfl := List.singleton_inj.mp hreq
    exact ⟨_, _, _, hpre, hrun, rfl⟩

/-- A run is decided by its requests. -/
theorem Polled.unique (h : Polled cfgs gen reqs e log) : ∀ {e' : MatchingEngine} {log' : List OrderResponse},
    Polled cfgs gen reqs e' log' → e' = e ∧ log' = log := by
  induction h with
  | create =>
    intro e' log' h'
    generalize hreqs : ([] : List OrderRequest) = reqs at h'
    cases h' with
    | create => exact ⟨rfl, rfl⟩
    | step _ _ => exact absurd hreqs.symm (List.append_ne_nil_of_right_ne_nil _ (List.cons_ne_nil _ _))
  | @step reqs e e' log req new hpre hrun ih =>
    intro e'' log'' h'
    obtain ⟨e₀, log₀, new', hpre', hrun', rfl⟩ := h'.last
    obtain ⟨rfl, rfl⟩ := ih hpre'
    obtain ⟨rfl, rfl⟩ := Prod.mk.inj (Option.some.inj (hrun.symm.trans hrun'))
    exact ⟨rfl, rfl⟩

/-- Every run has been at all its beginnings. -/
theorem Polled.of_prefix (h : Polled cfgs gen reqs e log) {reqs' : List OrderRequest} (hpre : reqs' <+: reqs) :
    ∃ e' log', Polled cfgs gen reqs' e' log' := by
  induction h with
  | create =>
    rw [List.prefix_nil.mp hpre]
    exact ⟨_, _, .create⟩
  | step hrest hrun ih =>
    rcases List.prefix_concat_iff.mp hpre with rfl | hpre
    · exact ⟨_, _, hrest.step hrun⟩
    · exact ih hpre

/-- Serves requests as long as they satisfy `K`. -/
def pollWhile (K : MatchingEngine → OrderRequest → Prop) [∀ e req, Decidable (K e req)]
    (e : MatchingEngine) : List OrderRequest → Option (MatchingEngine × List OrderResponse)
  | [] => some (e, [])
  | req :: reqs =>
    if K e req then do
      let (e, new) ← e.pollServer req
      let (e, log) ← e.pollWhile K reqs
      some (e, new.map (·.resp) ++ log)
    else none

theorem Along.concat {K : MatchingEngine → OrderRequest → Prop} (h : Along K cfgs gen reqs)
    (hp : Polled cfgs gen reqs e log) (hreq : K e req) : Along K cfgs gen (reqs ++ [req]) := by
  intro reqs' req' e' log' hpre hp'
  rcases List.prefix_concat_iff.mp hpre with hconcat | hpre
  · obtain ⟨rfl, hlast⟩ := List.append_inj' hconcat rfl
    obtain rfl := List.singleton_inj.mp hlast
    obtain ⟨rfl, -⟩ := hp.unique hp'
    exact hreq
  · exact h reqs' req' e' log' hpre hp'

/-- By induction on the requests that the condition lets through. -/
theorem Polled.pollWhile {K : MatchingEngine → OrderRequest → Prop} [∀ e req, Decidable (K e req)] :
    ∀ {more : List OrderRequest} {reqs : List OrderRequest} {e e' : MatchingEngine}
      {log log' : List OrderResponse}, Polled cfgs gen reqs e log → Along K cfgs gen reqs →
      e.pollWhile K more = some (e', log') →
      Polled cfgs gen (reqs ++ more) e' (log ++ log') ∧ Along K cfgs gen (reqs ++ more)
  | [], reqs, e, e', log, log', h, hK, hrun => by
    obtain ⟨rfl, rfl⟩ := Prod.mk.inj (Option.some.inj hrun)
    rw [List.append_nil, List.append_nil]
    exact ⟨h, hK⟩
  | req :: more, reqs, e, e', log, log', h, hK, hrun => by
    rw [MatchingEngine.pollWhile] at hrun
    split at hrun
    · rename_i hreq
      obtain ⟨⟨e₁, new⟩, hpoll, hrun⟩ := Option.bind_eq_some_iff.mp hrun
      obtain ⟨⟨e₂, log₂⟩, hrest, hrun⟩ := Option.bind_eq_some_iff.mp hrun
      obtain ⟨rfl, rfl⟩ := Prod.mk.inj (Option.some.inj hrun)
      have hnext := (h.step hpoll).pollWhile (hK.concat h hreq) hrest
      rwa [List.append_assoc, List.append_assoc] at hnext
    · cases hrun

/-- A run with a property that can be tested. -/
theorem Polled.of_pollWhile (K : MatchingEngine → OrderRequest → Prop) [∀ e req, Decidable (K e req)]
    (cfgs : List Config) (gen : Nat → Nat) (reqs : List OrderRequest)
    (P : MatchingEngine × List OrderResponse → Bool)
    (h : ((MatchingEngine.create cfgs gen).pollWhile K reqs).any P = true) :
    ∃ e log, Polled cfgs gen reqs e log ∧ Along K cfgs gen reqs ∧ P (e, log) = true := by
  obtain ⟨⟨e, log⟩, hrun, hP⟩ := (Option.any_eq_true ..).mp h
  have hstart : Along K cfgs gen [] := by
    intro reqs' req _ _ hpre _
    exact absurd (List.prefix_nil.mp hpre) (List.append_ne_nil_of_right_ne_nil _ (List.cons_ne_nil _ _))
  obtain ⟨hp, hK⟩ := Polled.create.pollWhile hstart hrun
  exact ⟨e, log, hp, hK, hP⟩

/-- The requests of one symbol, alone, bring its book to where it is, and send its records. -/
theorem Polled.alone (h : Polled cfgs gen reqs e log) (gen' : Nat → Nat) (sid : UInt32) :
    ∃ e' log', Polled cfgs gen' (reqs.filter fun req => req.symbolId = sid) e' log' ∧
      e'.books.lookup sid = e.books.lookup sid ∧
      List.Forall₂ OrderResponse.Redrawn (recordsOf sid log) log' := by
  induction h with
  | create => exact ⟨_, _, .create, rfl, .nil⟩
  | @step reqs e e₁ log req new hpre hrun ih =>
    obtain ⟨e', log', hpolled, hlookup, hlog⟩ := ih
    obtain ⟨-, hhandled⟩ := hpre.filed.handled hrun
    rw [List.filter_append, recordsOf_append]
    by_cases hs : req.symbolId = sid
    · subst hs
      obtain ⟨e₁', new', hrun', hsame, hnew⟩ := pollServer_redrawn hlookup hrun
      rw [List.filter_cons_of_pos (by simp), List.filter_nil, recordsOf_self hhandled.symbol]
      exact ⟨e₁', _, hpolled.step hrun', hsame, List.rel_append hlog hnew⟩
    · rw [List.filter_cons_of_neg (by simpa using hs), List.filter_nil, List.append_nil,
        recordsOf_other (Ne.symm hs) hhandled.symbol, List.append_nil]
      exact ⟨e', log', hpolled, hlookup.trans (hhandled.other (Ne.symm hs)).symm, hlog⟩

end MatchingEngine

/-! ## The rows of a run -/

namespace RowStore

open MatchingEngine

variable {ρ : Type} {S : RowStore ρ} {cfgs : List Config} {gen : Nat → Nat} {reqs : List OrderRequest}
  {e e' : MatchingEngine} {log rs : List OrderResponse} {req : OrderRequest}

/-- The open ids of a symbol are those of its book. -/
theorem openIds_of {sid : UInt32} {b : OrderBook} (h : e.books.lookup sid = some b) :
    e.openIds sid = b.openIds := by
  unfold MatchingEngine.openIds
  rw [h]
  rfl

/-- At the start no order is open. -/
theorem openIds_create (cfgs : List Config) (gen : Nat → Nat) (sid : UInt32) (k : Nat) :
    k ∉ (create cfgs gen).openIds sid := by
  unfold MatchingEngine.openIds
  cases hb : (create cfgs gen).books.lookup sid with
  | none => exact fun h => h
  | some b =>
    obtain ⟨c, -, -, rfl⟩ := create_lookup hb
    intro h
    cases h

/-- The records of a symbol alone make the rows of its open orders. -/
theorem Polled.fits (h : Polled cfgs gen reqs e log) (sid : UInt32) (k : Nat) :
    S.Fits sid (e.openIds sid) k (S.row k none (recordsOf sid log)) := by
  induction h with
  | create => exact ⟨fun hin => absurd hin (openIds_create cfgs gen sid k), fun _ => rfl⟩
  | @step reqs e e₁ log req new hpre hrun ih =>
    obtain ⟨-, hhandled⟩ := hpre.filed.handled hrun
    generalize new.map (·.resp) = rs at hhandled
    rw [recordsOf_append]
    by_cases hs : sid = req.symbolId
    · subst hs
      rw [recordsOf_self hhandled.symbol, row_append]
      cases hhandled with
      | unserved _ => exact ih
      | served hsym hlives _ =>
        rw [openIds_of hsym] at ih
        rw [openIds_of (AList.lookup_insert _)]
        exact Fits.row hlives ih
    · rw [recordsOf_other hs hhandled.symbol, List.append_nil]
      unfold MatchingEngine.openIds
      rw [hhandled.other hs]
      exact ih

/-- All records together make the rows of every symbol, as each alone does. -/
structure Whole (S : RowStore ρ) (e : MatchingEngine) (log : List OrderResponse) : Prop where
  rows : ∀ {sid k}, k ∈ e.openIds sid → S.row k none log = S.row k none (recordsOf sid log)
  vacant : ∀ {k}, (∀ sid, k ∉ e.openIds sid) → S.row k none log = none

theorem Whole.create (S : RowStore ρ) (cfgs : List Config) (gen : Nat → Nat) :
    S.Whole (create cfgs gen) [] :=
  ⟨fun {sid k} hin => absurd hin (openIds_create cfgs gen sid k), fun _ => rfl⟩

/-- An id is open for one symbol. -/
theorem Whole.unique (h : S.Whole e log) (hp : Polled cfgs gen reqs e log) {sid sid' : UInt32} {k : Nat}
    (hk : k ∈ e.openIds sid) (hk' : k ∈ e.openIds sid') : sid' = sid := by
  obtain ⟨row, hrow, rfl⟩ := (Polled.fits (S := S) hp sid k).1 hk
  obtain ⟨row', hrow', rfl⟩ := (Polled.fits (S := S) hp sid' k).1 hk'
  rw [← h.rows hk] at hrow
  rw [← h.rows hk', hrow] at hrow'
  rw [Option.some.inj hrow']

/-- A request that is separate from the other symbols. -/
theorem Whole.step (h : S.Whole e log) (hp : Polled cfgs gen reqs e log) (hsep : e.Separate req)
    (hrun : Handled e req e' rs) : S.Whole e' (log ++ rs) := by
  cases hrun with
  | unserved _ =>
    rw [List.append_nil]
    exact h
  | @served b b' gen' rs hsym hlives henters =>
    have hself : e.openIds req.symbolId = b.openIds := openIds_of hsym
    have hnext : (⟨e.books.insert req.symbolId b', gen'⟩ : MatchingEngine).openIds req.symbolId =
        b'.openIds := openIds_of (AList.lookup_insert _)
    have hothers : ∀ {sid}, sid ≠ req.symbolId →
        (⟨e.books.insert req.symbolId b', gen'⟩ : MatchingEngine).openIds sid = e.openIds sid := by
      intro sid hs
      unfold MatchingEngine.openIds
      rw [AList.lookup_insert_ne hs]
    -- an id that is entered is open nowhere
    have hfresh : ∀ {k}, k ∈ b.entering req → ∀ sid, k ∉ e.openIds sid := by
      rintro k ⟨hadm, rfl⟩ sid hin
      have hnone : ∀ {b'}, e.books.lookup sid = some b' → b'.activeOrders req.combinedId = none := by
        intro b' hb'
        by_cases hs : sid = req.symbolId
        · rw [hs, hsym] at hb'
          obtain rfl := Option.some.inj hb'
          exact hadm.fresh
        · exact hsep b hsym hadm sid b' hs hb'
      unfold MatchingEngine.openIds at hin
      cases hb' : e.books.lookup sid with
      | none =>
        rw [hb'] at hin
        exact hin
      | some b' =>
        rw [hb'] at hin
        have hopen : (b'.activeOrders req.combinedId).isSome = true := hin
        rw [hnone hb'] at hopen
        cases hopen
    -- so that a row that the request is about is the book's before it
    have hrow : ∀ {k}, k ∈ b.openIds ∨ k ∈ b.entering req →
        S.row k none log = S.row k none (recordsOf req.symbolId log) := by
      intro k hk
      rcases hk with hk | hk
      · exact h.rows (hself ▸ hk)
      · rw [h.vacant (hfresh hk), (Polled.fits hp req.symbolId k).2 (hfresh hk _)]
    have hrow' : ∀ {k}, k ∈ b.openIds ∨ k ∈ b.entering req → S.row k none (log ++ rs) =
        S.row k none (recordsOf req.symbolId (log ++ rs)) := by
      intro k hk
      rw [recordsOf_append, recordsOf_self hlives.symbol, row_append, row_append, hrow hk]
    refine ⟨fun {sid k} hk => ?_, fun {k} hk => ?_⟩
    · by_cases hs : sid = req.symbolId
      · subst hs
        refine hrow' ?_
        by_contra hno
        rw [not_or] at hno
        rw [hnext] at hk
        exact (row_untouched (S := S) hlives hno.2 none hno.1).1 hk
      · rw [hothers hs] at hk
        have hno : k ∉ b.openIds := fun hin => hs (h.unique hp (hself ▸ hin) hk)
        have hnew : k ∉ b.entering req := fun hin => hfresh hin sid hk
        rw [row_append, (row_untouched hlives hnew _ hno).2, recordsOf_append, recordsOf_other hs hlives.symbol,
          List.append_nil]
        exact h.rows hk
    · have hgone := hk req.symbolId
      by_cases hk' : k ∈ b.openIds ∨ k ∈ b.entering req
      · rw [hrow' hk', recordsOf_append, recordsOf_self hlives.symbol, row_append]
        have hfits := Polled.fits (S := S) hp req.symbolId k
        rw [hself] at hfits
        rw [hnext] at hgone
        exact (Fits.row hlives hfits).2 hgone
      · rw [not_or] at hk'
        rw [row_append, (row_untouched hlives hk'.2 _ hk'.1).2]
        refine h.vacant fun sid hin => ?_
        by_cases hs : sid = req.symbolId
        · rw [hs, hself] at hin
          exact hk'.1 hin
        · rw [← hothers hs] at hin
          exact hk sid hin

/-- By induction: with separate ids, a row is what the records of its symbol make it. -/
theorem Polled.whole (h : Polled cfgs gen reqs e log) (hsep : Along Separate cfgs gen reqs) :
    S.Whole e log := by
  induction h with
  | create => exact .create S cfgs gen
  | @step reqs e e₁ log req new hpre hrun ih =>
    have hpre' := ih fun reqs' req' e' log' hp => hsep reqs' req' e' log' (hp.trans (List.prefix_append ..))
    exact hpre'.step hpre (hsep reqs req e log (List.prefix_refl _) hpre) (hpre.filed.handled hrun).2

/-- The row under `k`, if it is of the symbol. -/
def symbolRow (S : RowStore ρ) (sid : UInt32) (k : Nat) (log : List OrderResponse) : Option ρ :=
  (S.row k none log).filter fun row => S.symbolId row = sid

/-- A symbol's rows are what its own requests make of them, whatever the numbers drawn. -/
def Isolated (S : RowStore ρ) (cfgs : List Config) (gen : Nat → Nat) (reqs : List OrderRequest) : Prop :=
  ∀ reqs' e log, reqs' <+: reqs → Polled cfgs gen reqs' e log → ∀ sid gen', ∃ e' log',
    Polled cfgs gen' (reqs'.filter fun req => req.symbolId = sid) e' log' ∧
      ∀ clientId orderId, S.symbolRow sid (combinedOrderId clientId orderId) log =
        S.symbolRow sid (combinedOrderId clientId orderId) log'

/-- A row of a symbol is kept by the query for it. -/
theorem filter_symbol {sid : UInt32} {row : ρ} (h : S.symbolId row = sid) :
    (some row).filter (fun row => S.symbolId row = sid) = some row :=
  Option.filter_some_pos (decide_eq_true h)

/-- What the query finds is the row. -/
theorem row_of_symbolRow {sid : UInt32} {k : Nat} {row : ρ} (h : S.symbolRow sid k log = some row) :
    S.row k none log = some row :=
  (Option.filter_eq_some_iff.mp h).1

/-- What a run with the symbol's requests alone has in the symbol's rows. -/
theorem symbolRow_alone (h : Polled cfgs gen reqs e log) {sid : UInt32} {log' : List OrderResponse}
    (hlog : List.Forall₂ OrderResponse.Redrawn (recordsOf sid log) log') (k : Nat) :
    S.symbolRow sid k log' = S.row k none (recordsOf sid log) := by
  unfold symbolRow
  rw [S.row_redrawn k hlog]
  by_cases hk : k ∈ e.openIds sid
  · obtain ⟨row, hrow, hs⟩ := (Polled.fits (S := S) h sid k).1 hk
    rw [hrow]
    exact filter_symbol hs
  · rw [(Polled.fits (S := S) h sid k).2 hk]
    rfl

theorem Whole.symbolRow (h : S.Whole e log) (hp : Polled cfgs gen reqs e log) (sid : UInt32) (k : Nat) :
    S.symbolRow sid k log = S.row k none (recordsOf sid log) := by
  unfold RowStore.symbolRow
  by_cases hk : k ∈ e.openIds sid
  · obtain ⟨row, hrow, hs⟩ := (Polled.fits (S := S) hp sid k).1 hk
    rw [h.rows hk, hrow]
    exact filter_symbol hs
  rw [(Polled.fits (S := S) hp sid k).2 hk]
  by_cases hother : ∃ sid', k ∈ e.openIds sid'
  · -- the row is of the symbol that the id is open for
    obtain ⟨sid', hk'⟩ := hother
    obtain ⟨row, hrow, hs⟩ := (Polled.fits (S := S) hp sid' k).1 hk'
    have hne : S.symbolId row ≠ sid := fun he => hk (he ▸ hs ▸ hk')
    rw [h.rows hk', hrow]
    exact Option.filter_some_neg (by simpa using hne)
  · rw [h.vacant fun sid' hk' => hother ⟨sid', hk'⟩]
    rfl

/-- Exactly when no order is admitted under an id that is open for another symbol. -/
theorem isolated_iff (h : Polled cfgs gen reqs e log) :
    S.Isolated cfgs gen reqs ↔ Along Separate cfgs gen reqs := by
  constructor
  · intro hiso reqs' req e₀ log₀ hpre hp b hsym hadm sid b' hs hb'
    by_contra hopen
    obtain ⟨e₁, log₁, hp₁⟩ := h.of_prefix hpre
    obtain ⟨e₂, log₂, new, hp₂, hrun, rfl⟩ := hp₁.last
    obtain ⟨rfl, rfl⟩ := hp.unique hp₂
    have hhandled := (hp₂.filed.handled hrun).2
    -- the rows of a symbol after the request, and what it has of its own
    have hrows : ∀ sid', S.symbolRow sid' req.combinedId (log₂ ++ new.map (·.resp)) =
        S.row req.combinedId none (recordsOf sid' (log₂ ++ new.map (·.resp))) := by
      intro sid'
      obtain ⟨e', log', hp', hsame⟩ := hiso _ _ _ hpre hp₁ sid' gen
      obtain ⟨e'', log'', hp'', -, hlog⟩ := hp₁.alone gen sid'
      obtain ⟨rfl, rfl⟩ := hp'.unique hp''
      exact (hsame req.clientId req.orderId).trans (symbolRow_alone hp₁ hlog _)
    have hfits := fun sid' => Polled.fits (S := S) hp₁ sid' req.combinedId
    generalize new.map (·.resp) = rs at hhandled hrows hfits
    cases hhandled with
    | unserved hnone =>
      rw [hnone] at hsym
      cases hsym
    | @served b₁ b₁' gen' rs hsym' hlives henters =>
      obtain rfl := Option.some.inj (hsym.symm.trans hsym')
      have hin : req.combinedId ∈
          (⟨e₂.books.insert req.symbolId b₁', gen'⟩ : MatchingEngine).openIds sid := by
        rw [openIds_of ((AList.lookup_insert_ne hs).trans hb')]
        exact Option.isSome_iff_ne_none.mpr hopen
      obtain ⟨row, hrow, hrowsid⟩ := (hfits sid).1 hin
      have hfull := row_of_symbolRow ((hrows sid).trans hrow)
      by_cases hrests : req.combinedId ∈ b₁'.openIds
      · -- one row would be of both symbols
        obtain ⟨row', hrow', hrowsid'⟩ := (hfits req.symbolId).1 (by
          rw [openIds_of (AList.lookup_insert _)]
          exact hrests)
        have hfull' := row_of_symbolRow ((hrows req.symbolId).trans hrow')
        obtain rfl := Option.some.inj (hfull.symm.trans hfull')
        exact hs (hrowsid.symm.trans hrowsid')
      · -- the order was filled, and the row deleted
        obtain ⟨r, rs', rfl, hlives'⟩ := henters hadm
        rw [row_append] at hfull
        cases (row_ended hlives' (Set.notMem_empty _) _ (Set.mem_insert ..) hrests).symm.trans hfull
  · intro hsep reqs' e' log' hpre hp sid gen'
    obtain ⟨e'', log'', hp', -, hlog⟩ := hp.alone gen' sid
    have hwhole : S.Whole e' log' :=
      Polled.whole hp fun reqs'' req e log hpre' => hsep reqs'' req e log (hpre'.trans hpre)
    refine ⟨e'', log'', hp', fun clientId orderId => ?_⟩
    rw [hwhole.symbolRow hp, symbolRow_alone hp hlog]

end RowStore

/-! ## The two stores -/

/-- Only a trade record can differ in the id drawn. -/
theorem OrderResponse.Redrawn.eq_of_ack {r r' : OrderResponse} (h : r.Redrawn r')
    (hack : r.execType = .new ∨ r.execType = .replaced) : r' = r := by
  have hno : r.isTrade = false := by
    unfold OrderResponse.isTrade
    rcases hack with ht | ht <;> rw [ht] <;> decide
  rw [h.same, h.drawn hno]

namespace InMemoryClientDatabase

/-- What a record makes of a row of `open_orders_`. -/
def editRow (r : OrderResponse) (x : Option OrderResponse) : Option OrderResponse :=
  match r.execType with
  | .new | .replaced => some r
  | .partialFill => x.map fun order => { order with qRem := r.qRem }
  | .fill | .cancelled => none
  | _ => x

def rowStore : RowStore OrderResponse where
  edit := editRow
  symbolId := OrderResponse.symbolId
  entered := by
    intro r ht
    unfold editRow
    rw [ht]
    exact ⟨r, rfl, rfl⟩
  kept := by
    intro r row ht hsym
    unfold editRow
    rcases ht with ht | ht
    · rw [ht]
      exact ⟨r, rfl, rfl⟩
    · rw [ht]
      exact ⟨_, rfl, hsym⟩
  ended := by
    intro r x ht
    unfold editRow
    rcases ht with ht | ht <;> rw [ht]
  idle := by
    intro r x ht
    unfold editRow
    rcases ht with ht | ht | ht <;> rw [ht]
  redrawn := by
    intro r r' h
    by_cases hack : r.execType = .new ∨ r.execType = .replaced
    · rw [h.eq_of_ack hack]
    · have ht : r'.execType = r.execType := by rw [h.same]
      have hleft : r'.qRem = r.qRem := by rw [h.same]
      rw [not_or] at hack
      funext x
      unfold editRow
      rw [ht, hleft]
      cases hr : r.execType with
      | new => exact absurd hr hack.1
      | replaced => exact absurd hr hack.2
      | partialFill | fill | cancelled | rejected | orderStatus | complete => rfl

variable {db : InMemoryClientDatabase} {r : OrderResponse}

/-- The orders of a client are written back, with one row changed. -/
theorem openOrder_insert {orders : AList fun _ : UInt32 => OrderResponse}
    (hother : ∀ o, o ≠ r.orderId →
      orders.lookup o = ((db.openOrders.lookup r.clientId).getD ∅).lookup o) (clientId orderId : UInt32) :
    ({ db with openOrders := db.openOrders.insert r.clientId orders } : InMemoryClientDatabase).openOrder
      clientId orderId = if r.combinedId = combinedOrderId clientId orderId then orders.lookup r.orderId
        else db.openOrder clientId orderId := by
  unfold openOrder
  by_cases hc : clientId = r.clientId
  · subst hc
    rw [AList.lookup_insert, Option.bind_some]
    by_cases ho : orderId = r.orderId
    · subst ho
      exact (if_pos rfl).symm
    · have hne : r.combinedId ≠ combinedOrderId r.clientId orderId :=
        fun he => ho (combinedOrderId_inj he).2.symm
      rw [if_neg hne, hother orderId ho]
      cases db.openOrders.lookup r.clientId <;> rfl
  · have hne : r.combinedId ≠ combinedOrderId clientId orderId :=
      fun he => hc (combinedOrderId_inj he).1.symm
    rw [AList.lookup_insert_ne hc, if_neg hne]

/-- In memory a record is applied to the row of its order. -/
theorem openOrder_updateOpenOrders (clientId orderId : UInt32) :
    (db.updateOpenOrders r).openOrder clientId orderId =
      rowStore.next (combinedOrderId clientId orderId) (db.openOrder clientId orderId) r := by
  have hrow : ((db.openOrders.lookup r.clientId).getD ∅).lookup r.orderId =
      db.openOrder r.clientId r.orderId := by
    unfold openOrder
    cases db.openOrders.lookup r.clientId <;> rfl
  -- the row under the record's id
  have hself : ∀ {x : Option OrderResponse}, x = editRow r (db.openOrder r.clientId r.orderId) →
      (if r.combinedId = combinedOrderId clientId orderId then x else db.openOrder clientId orderId) =
        rowStore.next (combinedOrderId clientId orderId) (db.openOrder clientId orderId) r := by
    rintro x rfl
    unfold RowStore.next
    split
    · rename_i he
      obtain ⟨rfl, rfl⟩ := combinedOrderId_inj he
      rfl
    · rfl
  have hidle : editRow r (db.openOrder r.clientId r.orderId) = db.openOrder r.clientId r.orderId →
      db.openOrder clientId orderId =
        rowStore.next (combinedOrderId clientId orderId) (db.openOrder clientId orderId) r := by
    intro he
    rw [← hself he.symm]
    split
    · rename_i he
      obtain ⟨rfl, rfl⟩ := combinedOrderId_inj he
      rfl
    · rfl
  unfold InMemoryClientDatabase.updateOpenOrders
  unfold editRow at hself hidle
  cases ht : r.execType with
  | new | replaced =>
    rw [ht] at hself
    rw [if_pos (by decide)]
    dsimp only
    rw [if_neg (by decide), openOrder_insert (fun o ho => AList.lookup_insert_ne ho)]
    exact hself (AList.lookup_insert _)
  | partialFill =>
    rw [ht] at hself
    rw [if_pos (by decide)]
    dsimp only
    rw [if_pos rfl]
    cases ho : ((db.openOrders.lookup r.clientId).getD ∅).lookup r.orderId with
    | none =>
      rw [openOrder_insert (fun _ _ => rfl)]
      refine hself ?_
      rw [ho, ← hrow, ho]
      rfl
    | some order =>
      rw [openOrder_insert (fun o hne => AList.lookup_insert_ne hne)]
      refine hself ?_
      rw [AList.lookup_insert, ← hrow, ho]
      rfl
  | fill | cancelled =>
    rw [ht] at hself hidle
    rw [if_neg (by decide), if_pos (by decide)]
    cases hc : db.openOrders.lookup r.clientId with
    | none =>
      -- a client without orders has no row to delete
      refine hidle ?_
      rw [← hrow, hc]
      rfl
    | some orders =>
      dsimp only
      rw [openOrder_insert fun o ho => ?_]
      · exact hself (AList.lookup_erase ..)
      · rw [AList.lookup_erase_ne ho, hc]
        rfl
  | rejected | orderStatus | complete =>
    rw [ht] at hidle
    rw [if_neg (by decide), if_neg (by decide)]
    exact hidle rfl

/-- Reading a row reads the open orders only. -/
theorem openOrder_congr {db db' : InMemoryClientDatabase} (h : db'.openOrders = db.openOrders) :
    db'.openOrder = db.openOrder := by
  unfold openOrder
  rw [h]

/-- The rows after all records. -/
theorem openOrder_updateAll (rs : List (OrderResponse × Nat)) : ∀ (db : InMemoryClientDatabase)
    (clientId orderId : UInt32), (db.updateAll rs).openOrder clientId orderId =
      rowStore.row (combinedOrderId clientId orderId) (db.openOrder clientId orderId) (rs.map Prod.fst) := by
  induction rs with
  | nil => exact fun _ _ _ => rfl
  | cons r rs ih =>
    intro db clientId orderId
    refine (ih (db.updateOnExecution r.1 r.2) clientId orderId).trans ?_
    have hstep : (db.updateOnExecution r.1 r.2).openOrder clientId orderId =
        rowStore.next (combinedOrderId clientId orderId) (db.openOrder clientId orderId) r.1 := by
      refine Eq.trans (openOrder_updateOpenOrders ..) ?_
      congr 1
      refine congrFun (congrFun (openOrder_congr ?_) clientId) orderId
      split <;> rfl
    rw [hstep]
    rfl

/-- The row of an order, if it is of the symbol. -/
def symbolRow (db : InMemoryClientDatabase) (sid clientId orderId : UInt32) : Option OrderResponse :=
  (db.openOrder clientId orderId).filter fun row => row.symbolId = sid

/-- All of them, as the query for a symbol sees them. -/
theorem symbolRow_updateAll (rs : List (OrderResponse × Nat)) (sid clientId orderId : UInt32) :
    (empty.updateAll rs).symbolRow sid clientId orderId =
      rowStore.symbolRow sid (combinedOrderId clientId orderId) (rs.map Prod.fst) := by
  unfold symbolRow
  rw [openOrder_updateAll]
  rfl

end InMemoryClientDatabase

namespace SQLiteClientDatabase

/-- What a record makes of a row of `open_orders`. -/
def editRow (r : OrderResponse) (x : Option OpenOrderRow) : Option OpenOrderRow :=
  match r.execType with
  | .new | .replaced =>
    some ((x.map fun old => { old with priceMantissa := r.p, q := r.q, qRem := r.qRem }).getD
      ⟨r.clientId, r.symbolId, r.side, r.p, r.q, r.qRem⟩)
  | .partialFill =>
    some ((x.map fun old => { old with priceMantissa := r.p, qRem := r.qRem }).getD
      ⟨r.clientId, r.symbolId, r.side, r.p, r.q, r.qRem⟩)
  | .fill | .cancelled => none
  | _ => x

def rowStore : RowStore OpenOrderRow where
  edit := editRow
  symbolId := OpenOrderRow.symbolId
  entered := by
    intro r ht
    unfold editRow
    rw [ht]
    exact ⟨_, rfl, rfl⟩
  kept := by
    intro r row ht hsym
    unfold editRow
    rcases ht with ht | ht
    · rw [ht]
      exact ⟨_, rfl, hsym⟩
    · rw [ht]
      exact ⟨_, rfl, hsym⟩
  ended := by
    intro r x ht
    unfold editRow
    rcases ht with ht | ht <;> rw [ht]
  idle := by
    intro r x ht
    unfold editRow
    rcases ht with ht | ht | ht <;> rw [ht]
  redrawn := by
    intro r r' h
    rw [h.same]
    rfl

/-- In SQLite a record is applied to the row of its order as well, -/
theorem openOrders_updateOpenOrders (db : SQLiteClientDatabase) (r : OrderResponse) (k : Nat) :
    (db.updateOpenOrders r).openOrders.lookup k = rowStore.next k (db.openOrders.lookup k) r := by
  have hcombined : combinedOrderId r.clientId r.orderId = r.combinedId := rfl
  unfold SQLiteClientDatabase.updateOpenOrders RowStore.next
  show _ = if r.combinedId = k then editRow r (db.openOrders.lookup k) else db.openOrders.lookup k
  unfold editRow
  rw [hcombined]
  dsimp only
  cases ht : r.execType with
  | new | replaced | partialFill =>
    rw [if_pos (by decide)]
    dsimp only
    rw [Lib.Table.lookup_upsert]
    by_cases hk : k = r.combinedId
    · subst hk
      rw [if_pos rfl, if_pos rfl]
      rfl
    · rw [if_neg hk, if_neg (Ne.symm hk)]
  | fill | cancelled =>
    rw [if_neg (by decide), if_pos (by decide)]
    dsimp only
    by_cases hk : k = r.combinedId
    · subst hk
      rw [if_pos rfl, AList.lookup_erase]
    · rw [if_neg (Ne.symm hk), AList.lookup_erase_ne hk]
  | rejected | orderStatus | complete =>
    rw [if_neg (by decide), if_neg (by decide), ite_self]

/-- The rows after all records. -/
theorem openOrders_updateAll (rs : List (OrderResponse × Nat)) : ∀ (db : SQLiteClientDatabase) (k : Nat),
    (db.updateAll rs).openOrders.lookup k =
      rowStore.row k (db.openOrders.lookup k) (rs.map Prod.fst) := by
  induction rs with
  | nil => exact fun _ _ => rfl
  | cons r rs ih =>
    intro db k
    refine (ih (db.updateOnExecution r.1 r.2) k).trans ?_
    have hstep : (db.updateOnExecution r.1 r.2).openOrders.lookup k =
        rowStore.next k (db.openOrders.lookup k) r.1 := by
      refine Eq.trans (openOrders_updateOpenOrders ..) ?_
      congr 2
      exact (tradePart_frame _ r.1).2.2
    rw [hstep]
    rfl

/-- The row of an order, if it is of the symbol. -/
def symbolRow (db : SQLiteClientDatabase) (sid clientId orderId : UInt32) : Option OpenOrderRow :=
  (db.openOrders.lookup (combinedOrderId clientId orderId)).filter fun row => row.symbolId = sid

/-- and the query sees the same. -/
theorem symbolRow_updateAll (rs : List (OrderResponse × Nat)) (sid clientId orderId : UInt32) :
    (empty.updateAll rs).symbolRow sid clientId orderId =
      rowStore.symbolRow sid (combinedOrderId clientId orderId) (rs.map Prod.fst) := by
  unfold symbolRow
  rw [openOrders_updateAll]
  rfl

end SQLiteClientDatabase

/-! ## Both stores -/

open MatchingEngine RowStore

/-- At every moment of a run, whatever the offsets the records are filed under, the rows of each
symbol are those that its requests alone lead to, whatever numbers are drawn then. -/
def RowsIsolated {Db Row : Type} (updateAll : List (OrderResponse × Nat) → Db)
    (symbolRow : Db → UInt32 → UInt32 → UInt32 → Option Row) (cfgs : List Config) (gen : Nat → Nat)
    (reqs : List OrderRequest) : Prop :=
  ∀ reqs' e log, reqs' <+: reqs → Polled cfgs gen reqs' e log → ∀ sid gen', ∃ e' log',
    Polled cfgs gen' (reqs'.filter fun req => req.symbolId = sid) e' log' ∧
      ∀ rs rs', rs.map Prod.fst = log → rs'.map Prod.fst = log' → ∀ clientId orderId,
        symbolRow (updateAll rs) sid clientId orderId = symbolRow (updateAll rs') sid clientId orderId

/-- Isolation, said of the rows that both databases keep. -/
theorem RowsIsolated.iff_store {Db Row : Type} {updateAll : List (OrderResponse × Nat) → Db}
    {symbolRow : Db → UInt32 → UInt32 → UInt32 → Option Row} (S : RowStore Row)
    (hrow : ∀ rs sid clientId orderId, symbolRow (updateAll rs) sid clientId orderId =
      S.symbolRow sid (combinedOrderId clientId orderId) (rs.map Prod.fst))
    (cfgs : List Config) (gen : Nat → Nat) (reqs : List OrderRequest) :
    RowsIsolated updateAll symbolRow cfgs gen reqs ↔ S.Isolated cfgs gen reqs := by
  have hfile : ∀ log : List OrderResponse, (log.map fun r => (r, 0)).map Prod.fst = log := by
    intro log
    rw [List.map_map]
    exact List.map_id log
  constructor
  · intro h reqs' e log hpre hp sid gen'
    obtain ⟨e', log', hp', hrows⟩ := h reqs' e log hpre hp sid gen'
    refine ⟨e', log', hp', fun clientId orderId => ?_⟩
    have hsame := hrows _ _ (hfile log) (hfile log') clientId orderId
    rw [hrow, hrow, hfile, hfile] at hsame
    exact hsame
  · intro h reqs' e log hpre hp sid gen'
    obtain ⟨e', log', hp', hrows⟩ := h reqs' e log hpre hp sid gen'
    refine ⟨e', log', hp', fun rs rs' hrs hrs' clientId orderId => ?_⟩
    rw [hrow, hrow, hrs, hrs']
    exact hrows clientId orderId

/-- In either store the rows of each symbol are its own along a run exactly if no order is admitted
under an id that is open for another symbol. -/
theorem symbol_rows_isolated_iff {cfgs : List Config} {gen : Nat → Nat} {reqs : List OrderRequest}
    {e : MatchingEngine} {log : List OrderResponse} (h : Polled cfgs gen reqs e log) :
    (RowsIsolated InMemoryClientDatabase.empty.updateAll InMemoryClientDatabase.symbolRow cfgs gen reqs ↔
      Along Separate cfgs gen reqs) ∧
    (RowsIsolated SQLiteClientDatabase.empty.updateAll SQLiteClientDatabase.symbolRow cfgs gen reqs ↔
      Along Separate cfgs gen reqs) := by
  constructor
  · rw [RowsIsolated.iff_store InMemoryClientDatabase.rowStore InMemoryClientDatabase.symbolRow_updateAll]
    exact isolated_iff h
  · rw [RowsIsolated.iff_store SQLiteClientDatabase.rowStore SQLiteClientDatabase.symbolRow_updateAll]
    exact isolated_iff h

instance OrderBook.decidableAdmits (b : OrderBook) (req : OrderRequest) : Decidable (b.Admits req) :=
  decidable_of_iff (req.action = .new ∧ ¬ (req.type ≠ .market ∧ b.cfg.priceInvalid req.p ≠ 0) ∧
    b.activeOrders req.combinedId = none ∧ ¬ (req.p ≤ 0 ∧ req.type = .limit) ∧
    ¬ (req.q = 0 ∨ globalMaxQty < req.q))
    ⟨fun ⟨h₁, h₂, h₃, h₄, h₅⟩ => ⟨h₁, h₂, h₃, h₄, h₅⟩, fun ⟨h₁, h₂, h₃, h₄, h₅⟩ => ⟨h₁, h₂, h₃, h₄, h₅⟩⟩

instance MatchingEngine.decidableSeparate (e : MatchingEngine) (req : OrderRequest) :
    Decidable (e.Separate req) :=
  decidable_of_iff ((e.books.lookup req.symbolId).all fun b => b.Admits req →
    ∀ x ∈ e.books.entries, x.1 ≠ req.symbolId → x.2.activeOrders req.combinedId = none) (by
    unfold MatchingEngine.Separate
    cases e.books.lookup req.symbolId with
    | none => simp
    | some b =>
      constructor
      · intro h b' hb' hadm sid b'' hs hb''
        obtain rfl := Option.some.inj hb'
        exact of_decide_eq_true h hadm ⟨sid, b''⟩ (AList.mem_lookup_iff.mp hb'') hs
      · intro h
        exact decide_eq_true fun hadm x hx hs => h b rfl hadm x.1 x.2 hs (AList.mem_lookup_iff.mpr hx))

/-- Symbol 2 of the sample. -/
def otherConfig : Config := { sampleConfig with symbolId := 2 }

/-- Order 1 rests for symbol 1 and is cancelled, order 2 rests there, and order 1 is entered for
symbol 2. -/
def reusedId : List OrderRequest :=
  [sampleRequest .new 1 .buy 10 4, sampleRequest .cancel 1 .buy 0 0, sampleRequest .new 2 .buy 10 4,
    { sampleRequest .new 1 .buy 15 6 with symbolId := 2 }]

theorem reusedId_isolated : ∃ e log, Polled [sampleConfig, otherConfig] id reusedId e log ∧
    log.length = 4 ∧
    RowsIsolated InMemoryClientDatabase.empty.updateAll InMemoryClientDatabase.symbolRow
      [sampleConfig, otherConfig] id reusedId ∧
    RowsIsolated SQLiteClientDatabase.empty.updateAll SQLiteClientDatabase.symbolRow
      [sampleConfig, otherConfig] id reusedId := by
  obtain ⟨e, log, hp, hsep, hlen⟩ := Polled.of_pollWhile Separate [sampleConfig, otherConfig] id reusedId
    (fun r => r.2.length = 4) (by decide +kernel)
  obtain ⟨hmemory, hsqlite⟩ := symbol_rows_isolated_iff hp
  exact ⟨e, log, hp, of_decide_eq_true hlen, hmemory.mpr hsep, hsqlite.mpr hsep⟩

/-- Order 1 rests for symbol 1, and order 1 is entered for symbol 2. -/
def sharedId : List OrderRequest :=
  [sampleRequest .new 1 .buy 10 4, { sampleRequest .new 1 .buy 15 6 with symbolId := 2 }]

/-- Both orders are accepted, and the row of the first is gone in memory and has the price and the
quantity of the second in SQLite. -/
theorem sharedId_disturbs : ∃ e log e' log', Polled [sampleConfig, otherConfig] id sharedId e log ∧
    Polled [sampleConfig, otherConfig] id (sharedId.filter fun req => req.symbolId = 1) e' log' ∧
    (∀ r ∈ log, r.execType ≠ .rejected) ∧
    (InMemoryClientDatabase.empty.updateAll (log.map (·, 0))).symbolRow 1 1 1 = none ∧
    ((InMemoryClientDatabase.empty.updateAll (log'.map (·, 0))).symbolRow 1 1 1).isSome = true ∧
    (SQLiteClientDatabase.empty.updateAll (log.map (·, 0))).symbolRow 1 1 1 =
      some ⟨1, 1, .buy, 15, 6, 6⟩ ∧
    (SQLiteClientDatabase.empty.updateAll (log'.map (·, 0))).symbolRow 1 1 1 =
      some ⟨1, 1, .buy, 10, 4, 4⟩ := by
  obtain ⟨e, log, hp, -, hP⟩ := Polled.of_pollWhile (fun _ _ => True) [sampleConfig, otherConfig] id sharedId
    (fun r => (∀ x ∈ r.2, x.execType ≠ .rejected) ∧
      (InMemoryClientDatabase.empty.updateAll (r.2.map (·, 0))).symbolRow 1 1 1 = none ∧
      (SQLiteClientDatabase.empty.updateAll (r.2.map (·, 0))).symbolRow 1 1 1 =
        some ⟨1, 1, .buy, 15, 6, 6⟩) (by decide +kernel)
  obtain ⟨e', log', hp', -, hP'⟩ := Polled.of_pollWhile (fun _ _ => True) [sampleConfig, otherConfig] id
    (sharedId.filter fun req => req.symbolId = 1)
    (fun r => ((InMemoryClientDatabase.empty.updateAll (r.2.map (·, 0))).symbolRow 1 1 1).isSome = true ∧
      (SQLiteClientDatabase.empty.updateAll (r.2.map (·, 0))).symbolRow 1 1 1 =
        some ⟨1, 1, .buy, 10, 4, 4⟩) (by decide +kernel)
  obtain ⟨haccepted, hmemory, hsqlite⟩ := of_decide_eq_true hP
  obtain ⟨hmemory', hsqlite'⟩ := of_decide_eq_true hP'
  exact ⟨e, log, e', log', hp, hp', haccepted, hmemory, hmemory', hsqlite, hsqlite'⟩

end Exchange
