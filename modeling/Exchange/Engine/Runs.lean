import Mathlib.Data.List.AList
import Exchange.Book.Execute

/-!
# `MatchingEngine`: many books, one journal

`src/MatchingEngine.cpp`. `poll_server` hands a request to the book of its
symbol and drops a request for a symbol it does not serve. All books write to
one journal and draw from one generator (`match`'s is `static thread_local`).

`Run K cfgs e out`: requests that are well formed for the book they go to, and
satisfy `K`, bring freshly built books to `e` and send `out`. The books go
their own ways: a request is one `Lob.step` of its book and leaves the others
as they are.
-/

namespace Exchange

/-- `class MatchingEngine`: `books_`, and the generator of its thread. -/
structure MatchingEngine where
  books : AList (fun _ : UInt32 => OrderBook)
  gen : Nat → Nat

namespace MatchingEngine

/-- The books `main` builds: `books[sid] = make_unique<OrderBook>(sid, …)`. -/
def create (cfgs : List Config) (gen : Nat → Nat) : MatchingEngine where
  books := cfgs.foldl (fun books c => books.insert c.symbolId (.fresh c)) ∅
  gen := gen

/-- `poll_server`, for the request in the ring's slot, with what it sends. -/
def pollServer (e : MatchingEngine) (req : OrderRequest) : Option (MatchingEngine × List Emission) :=
  match e.books.lookup req.symbolId with
  | none => some (e, [])
  | some b => do
    let st ← State.processRequest ⟨b, e.gen, []⟩ req
    some (⟨e.books.insert req.symbolId st.book, st.gen⟩, st.out)

/-- A request that is well formed for the book it goes to, if there is one. -/
def Accepts (e : MatchingEngine) (req : OrderRequest) : Prop :=
  ∀ b, e.books.lookup req.symbolId = some b → WellFormed b.cfg b.lob req

instance (e : MatchingEngine) (req : OrderRequest) : Decidable (e.Accepts req) :=
  decidable_of_iff ((e.books.lookup req.symbolId).all fun b => WellFormed b.cfg b.lob req) (by
    unfold Accepts
    cases e.books.lookup req.symbolId <;> simp)

/-- The engines well-formed requests that satisfy `K` can lead to, with the records sent. -/
inductive Run (K : OrderRequest → Prop) (cfgs : List Config) : MatchingEngine → List Emission → Prop
  | create (gen : Nat → Nat) : Run K cfgs (create cfgs gen) []
  | step {e e' : MatchingEngine} {out new : List Emission} {req : OrderRequest} (h : Run K cfgs e out)
      (hK : K req) (hreq : e.Accepts req) (hrun : e.pollServer req = some (e', new)) :
      Run K cfgs e' (out ++ new)

/-- What the books of a run satisfy. -/
structure Sound (cfgs : List Config) (e : MatchingEngine) : Prop where
  inv : ∀ {sid b}, e.books.lookup sid = some b → ∃ q, Inv b q
  cfg : ∀ {sid b}, e.books.lookup sid = some b → b.cfg ∈ cfgs ∧ b.cfg.symbolId = sid
  mode : ∀ {sid b}, e.books.lookup sid = some b → b.recoverMode = false

/-- At the start each book is a fresh one of its configuration. -/
theorem create_lookup {cfgs : List Config} {gen : Nat → Nat} {sid : UInt32} {b : OrderBook}
    (h : (create cfgs gen).books.lookup sid = some b) :
    ∃ c ∈ cfgs, c.symbolId = sid ∧ b = .fresh c := by
  -- a book in the map is one that was put there, for any map to start from
  have hfold : ∀ (cs : List Config) (books : AList fun _ : UInt32 => OrderBook),
      (cs.foldl (fun books c => books.insert c.symbolId (OrderBook.fresh c)) books).lookup sid =
        some b → books.lookup sid = some b ∨ ∃ c ∈ cs, c.symbolId = sid ∧ b = .fresh c := by
    intro cs
    induction cs with
    | nil => exact fun _ h => Or.inl h
    | cons c cs ih =>
      intro books h
      rcases ih _ h with h | ⟨c', hc', he⟩
      · by_cases hs : sid = c.symbolId
        · rw [hs, AList.lookup_insert] at h
          exact Or.inr ⟨c, List.mem_cons_self, hs.symm, (Option.some.inj h).symm⟩
        · rw [AList.lookup_insert_ne hs] at h
          exact Or.inl h
      · exact Or.inr ⟨c', List.mem_cons_of_mem _ hc', he⟩
  rcases hfold cfgs ∅ h with h | h
  · cases h
  · exact h

theorem create_sound (cfgs : List Config) (gen : Nat → Nat) : Sound cfgs (create cfgs gen) := by
  refine ⟨fun h => ?_, fun h => ?_, fun h => ?_⟩ <;> obtain ⟨c, hc, hs, rfl⟩ := create_lookup h
  · exact ⟨_, fresh_inv c⟩
  · exact ⟨hc, hs⟩
  · rfl

/-- What holds of the book that is put back, and of all books before, holds of all. -/
theorem lookup_insert_rec {P : UInt32 → OrderBook → Prop} {books : AList fun _ : UInt32 => OrderBook}
    {sid : UInt32} {b : OrderBook} (hself : P sid b) (hold : ∀ k x, k ≠ sid → books.lookup k = some x → P k x)
    {k : UInt32} {x : OrderBook} (hx : (books.insert sid b).lookup k = some x) : P k x := by
  by_cases hs : k = sid
  · subst hs
    rw [AList.lookup_insert] at hx
    rw [← Option.some.inj hx]
    exact hself
  · rw [AList.lookup_insert_ne hs] at hx
    exact hold k x hs hx

/-- What a request does: nothing, or one step of the specification to one book. -/
inductive Stepped (e : MatchingEngine) (req : OrderRequest) : MatchingEngine → List Emission → Prop
  | unserved (hsym : e.books.lookup req.symbolId = none) : Stepped e req e []
  | served {b b' : OrderBook} {gen : Nat → Nat} {new : List Emission}
      (hsym : e.books.lookup req.symbolId = some b) (hcfg : b'.cfg = b.cfg)
      (hlob : b'.lob = (b.lob.step b.cfg e.gen req).lob)
      (hnew : new.map (·.resp) = (b.lob.step b.cfg e.gen req).recs) :
      Stepped e req ⟨e.books.insert req.symbolId b', gen⟩ new

/-- A well-formed request is served, and the books stay sound. -/
theorem Sound.serves {cfgs : List Config} {e : MatchingEngine} {req : OrderRequest}
    (h : e.Sound cfgs) (hreq : e.Accepts req) :
    ∃ e' new, e.pollServer req = some (e', new) ∧ Stepped e req e' new ∧ e'.Sound cfgs := by
  unfold pollServer
  cases hsym : e.books.lookup req.symbolId with
  | none => exact ⟨e, [], rfl, .unserved hsym, h⟩
  | some b =>
    obtain ⟨q, hq⟩ := h.inv hsym
    have hq' : Inv (⟨b, e.gen, []⟩ : State).book q := hq
    obtain ⟨st, hrun, hans⟩ := hq'.answers rfl (hreq b hsym)
    obtain ⟨q', hq', hlob⟩ := hans.lob
    have hlog : st.log = (b.lob.step b.cfg e.gen req).recs := by
      rw [hans.log, if_neg (by simp [h.mode hsym])]
      rfl
    have hcfg : st.book.cfg = b.cfg := hans.cfg
    refine ⟨⟨e.books.insert req.symbolId st.book, st.gen⟩, st.out, ?_,
      .served hsym hcfg (hq'.lob_eq.trans hlob) hlog, ?_⟩
    · dsimp only
      rw [hrun]
      rfl
    -- the served book by its answer, the others as they were
    refine ⟨?_, ?_, ?_⟩
    · exact lookup_insert_rec (P := fun _ b => ∃ q, Inv b q) ⟨q', hq'⟩ (fun _ _ _ => h.inv)
    · exact lookup_insert_rec (P := fun sid b => b.cfg ∈ cfgs ∧ b.cfg.symbolId = sid)
        (hcfg ▸ h.cfg hsym) (fun _ _ _ => h.cfg)
    · exact lookup_insert_rec (P := fun _ b => b.recoverMode = false) (hans.mode.trans (h.mode hsym))
        (fun _ _ _ => h.mode)

theorem Run.sound {K : OrderRequest → Prop} {cfgs : List Config} {e : MatchingEngine}
    {out : List Emission} (h : Run K cfgs e out) : e.Sound cfgs := by
  induction h with
  | create gen => exact create_sound cfgs gen
  | step _ _ hreq hrun ih =>
    obtain ⟨e', new, hrun', -, hsound⟩ := ih.serves hreq
    obtain ⟨rfl, -⟩ := Prod.mk.inj (Option.some.inj (hrun.symm.trans hrun'))
    exact hsound

/-- One step of a run. -/
theorem Sound.stepped {cfgs : List Config} {e e' : MatchingEngine} {new : List Emission}
    {req : OrderRequest} (h : e.Sound cfgs) (hreq : e.Accepts req)
    (hrun : e.pollServer req = some (e', new)) : Stepped e req e' new := by
  obtain ⟨e'', new', hrun', hstep, -⟩ := h.serves hreq
  obtain ⟨rfl, rfl⟩ := Prod.mk.inj (Option.some.inj (hrun.symm.trans hrun'))
  exact hstep

/-- The book of a sound engine is in good order. -/
theorem Sound.ok {cfgs : List Config} {e : MatchingEngine} (h : e.Sound cfgs) {sid : UInt32}
    {b : OrderBook} (hb : e.books.lookup sid = some b) : b.lob.Ok b.cfg := by
  obtain ⟨q, hq⟩ := h.inv hb
  rw [hq.lob_eq]
  exact hq.ok

/-- Serves a list of requests, as long as they are well formed. -/
def serve (e : MatchingEngine) : List OrderRequest → Option (MatchingEngine × List Emission)
  | [] => some (e, [])
  | req :: reqs =>
    if e.Accepts req then do
      let (e, new) ← e.pollServer req
      let (e, more) ← serve e reqs
      some (e, new ++ more)
    else none

/-- By induction on the requests served. -/
theorem Run.serve {K : OrderRequest → Prop} {cfgs : List Config} :
    ∀ {reqs : List OrderRequest} {e e' : MatchingEngine} {out more : List Emission},
      Run K cfgs e out → (∀ req ∈ reqs, K req) → e.serve reqs = some (e', more) →
      Run K cfgs e' (out ++ more)
  | [], e, e', out, more, h, _, he => by
    obtain ⟨rfl, rfl⟩ := Prod.mk.inj (Option.some.inj he)
    rw [List.append_nil]
    exact h
  | req :: reqs, e, e', out, more, h, hK, he => by
    rw [MatchingEngine.serve] at he
    split at he
    · rename_i hreq
      obtain ⟨⟨e₁, new⟩, hrun, he⟩ := Option.bind_eq_some_iff.mp he
      obtain ⟨⟨e₂, more'⟩, hrest, he⟩ := Option.bind_eq_some_iff.mp he
      obtain ⟨rfl, rfl⟩ := Prod.mk.inj (Option.some.inj he)
      have hnext := (h.step (hK req List.mem_cons_self) hreq hrun).serve
        (fun r hr => hK r (List.mem_cons_of_mem _ hr)) hrest
      rwa [List.append_assoc] at hnext
    · cases he

/-- A run with a property that can be tested. -/
theorem Run.of_serve (K : OrderRequest → Prop) (cfgs : List Config) (gen : Nat → Nat)
    (reqs : List OrderRequest) (hK : ∀ req ∈ reqs, K req) (P : MatchingEngine × List Emission → Bool)
    (h : ((MatchingEngine.create cfgs gen).serve reqs).any P = true) :
    ∃ e out, Run K cfgs e out ∧ P (e, out) = true := by
  obtain ⟨⟨e, out⟩, hst, hP⟩ := (Option.any_eq_true ..).mp h
  have hrun := (Run.create gen).serve hK hst
  rw [List.nil_append] at hrun
  exact ⟨e, out, hrun, hP⟩

end MatchingEngine

end Exchange
