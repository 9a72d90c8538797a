import Exchange.Database.Isolation

/-!
# Symbols spread over engines

`matching-engine` is started once for each core. Every instance builds books for the symbols of its core
and polls a ring of its own, and the gateway puts all orders on a symbol in one ring. Nothing orders the
requests on two symbols, in one ring or in two.

The instances share nothing but the journal, and what becomes of their records there is left out: each has a
writer of its own, and two writers on one directory overwrite each other (`MmapLog.writers_overwrite`). Only
what each instance emits is compared.

It makes no difference (`placing_unseen`): two deployments that have the same books, wherever they have
them, and are given the same requests for each symbol, in any order between the symbols, end with the same
books, and the records of each symbol are the same but for the numbers of trades. A request on a symbol
whose ring's engine has no book is dropped by both.

`Polled` follows one engine. `served_alone` cuts a deployment down to one symbol, an engine that has
nothing but its book; `serve_of_alone` puts a deployment together from what each symbol does alone.
-/

namespace Exchange

namespace OrderResponse.Redrawn

variable {r r' r'' : OrderResponse}

/-- Either may be the one with the other ids. -/
theorem symm (h : r.Redrawn r') : r'.Redrawn r := by
  obtain ⟨hsame, hdrawn⟩ := h
  have htrade : r'.isTrade = r.isTrade := by
    rw [hsame]
    rfl
  refine ⟨?_, fun hno => (hdrawn (htrade ▸ hno)).symm⟩
  rw [hsame]

theorem trans (h : r.Redrawn r') (h' : r'.Redrawn r'') : r.Redrawn r'' := by
  obtain ⟨hsame, hdrawn⟩ := h
  obtain ⟨hsame', hdrawn'⟩ := h'
  have htrade : r'.isTrade = r.isTrade := by
    rw [hsame]
    rfl
  refine ⟨?_, fun hno => (hdrawn' (htrade.trans hno)).trans (hdrawn hno)⟩
  rw [hsame', hsame]

end OrderResponse.Redrawn

/-- Which ring the orders on a symbol go to, and of each ring's engine the books it is built with and the
numbers it draws. -/
structure Deployment where
  route : UInt32 → Nat
  cfgs : Nat → List Config
  gens : Nat → Nat → Nat

/-- An instance of `matching-engine`, with what it has given to its writer. -/
structure EngineInstance where
  engine : MatchingEngine
  appended : List OrderResponse

namespace Deployment

open MatchingEngine

/-- Every instance as `main` builds it. -/
def start (d : Deployment) (k : Nat) : EngineInstance := ⟨.create (d.cfgs k) (d.gens k), []⟩

/-- The engine of the ring that a request was put in polls it. -/
def poll (d : Deployment) (ps : Nat → EngineInstance) (req : OrderRequest) : Option (Nat → EngineInstance) :=
  ((ps (d.route req.symbolId)).engine.pollServer req).map fun (e, new) =>
    Function.update ps (d.route req.symbolId) ⟨e, (ps (d.route req.symbolId)).appended ++ new.map (·.resp)⟩

/-- The requests in the order in which the instances poll them. -/
def serve (d : Deployment) (reqs : List OrderRequest) : Option (Nat → EngineInstance) :=
  reqs.foldlM d.poll d.start

/-- The book that orders on a symbol reach at the start, if there is one. -/
def book (d : Deployment) (sid : UInt32) : Option OrderBook :=
  (d.start (d.route sid)).engine.books.lookup sid

/-- The book that orders on a symbol reach. -/
def bookOf (d : Deployment) (ps : Nat → EngineInstance) (sid : UInt32) : Option OrderBook :=
  (ps (d.route sid)).engine.books.lookup sid

/-- What the engine of a symbol's ring has appended of the symbol. -/
def recordsFor (d : Deployment) (ps : Nat → EngineInstance) (sid : UInt32) : List OrderResponse :=
  recordsOf sid (ps (d.route sid)).appended

/-- An engine for one symbol: its book, if there is one. -/
def lone (d : Deployment) (sid : UInt32) : List Config := (d.book sid).toList.map OrderBook.cfg

variable {d d' : Deployment} {reqs reqs' : List OrderRequest} {req : OrderRequest}
  {ps ps' : Nat → EngineInstance} {sid : UInt32}

theorem serve_concat : d.serve (reqs ++ [req]) = d.serve reqs >>= fun ps => d.poll ps req := by
  unfold serve
  rw [List.foldlM_append]
  refine congrArg (d.serve reqs >>= ·) (funext fun ps => ?_)
  rw [List.foldlM_cons]
  cases d.poll ps req with
  | none => rfl
  | some ps' => rfl

/-- The last request of a run. -/
theorem serve_last (h : d.serve (reqs ++ [req]) = some ps') :
    ∃ ps, d.serve reqs = some ps ∧ d.poll ps req = some ps' := by
  rw [serve_concat] at h
  exact Option.bind_eq_some_iff.mp h

/-- The instance whose ring it is serves the request, the others do nothing. -/
theorem poll_cases (h : d.poll ps req = some ps') : ∃ e new,
    (ps (d.route req.symbolId)).engine.pollServer req = some (e, new) ∧
    ps' = Function.update ps (d.route req.symbolId)
      ⟨e, (ps (d.route req.symbolId)).appended ++ new.map (·.resp)⟩ := by
  obtain ⟨⟨e, new⟩, hrun, rfl⟩ := Option.map_eq_some_iff.mp h
  exact ⟨e, new, hrun, rfl⟩

/-- An engine of one symbol has the book of that symbol. -/
theorem lone_lookup (d : Deployment) (gen : Nat → Nat) (sid : UInt32) :
    (MatchingEngine.create (d.lone sid) gen).books.lookup sid = d.book sid := by
  unfold lone
  cases hb : d.book sid with
  | none => rfl
  | some b =>
    obtain ⟨c, -, rfl, rfl⟩ := create_lookup hb
    exact AList.lookup_insert _

/-- Where two deployments configure a symbol alike, so are its lone engines. -/
theorem lone_eq (h : d'.book sid = d.book sid) : d'.lone sid = d.lone sid := by
  unfold lone
  rw [h]

/-- The books of every instance are in order. -/
theorem serve_filed : ∀ {reqs : List OrderRequest} {ps : Nat → EngineInstance}, d.serve reqs = some ps →
    ∀ k, (ps k).engine.Filed := by
  intro reqs
  induction reqs using List.reverseRecOn with
  | nil =>
    intro ps h k
    obtain rfl := Option.some.inj h
    exact create_filed _ _
  | append_singleton reqs req ih =>
    intro ps' h k
    obtain ⟨ps, hps, hpoll⟩ := serve_last h
    obtain ⟨e, new, hrun, rfl⟩ := poll_cases hpoll
    obtain ⟨hfiled, -⟩ := (ih hps (d.route req.symbolId)).handled hrun
    by_cases hk : k = d.route req.symbolId
    · rw [hk, Function.update_self]
      exact hfiled
    · rw [Function.update_of_ne hk]
      exact ih hps k

/-- A symbol in a deployment, and alone: the same book, and the same records but for the numbers of
trades. No other instance has a record of it. -/
theorem served_alone (gen : Nat → Nat) (sid : UInt32) : ∀ {reqs : List OrderRequest} {ps : Nat → EngineInstance},
    d.serve reqs = some ps →
    (∃ e log, Polled (d.lone sid) gen (reqs.filter fun req => req.symbolId = sid) e log ∧
      e.books.lookup sid = d.bookOf ps sid ∧ List.Forall₂ OrderResponse.Redrawn (d.recordsFor ps sid) log) ∧
    ∀ k, k ≠ d.route sid → recordsOf sid (ps k).appended = [] := by
  intro reqs
  induction reqs using List.reverseRecOn with
  | nil =>
    intro ps h
    obtain rfl := Option.some.inj h
    exact ⟨⟨_, _, .create, lone_lookup d gen sid, .nil⟩, fun _ _ => rfl⟩
  | append_singleton reqs req ih =>
    intro ps' h
    obtain ⟨ps, hps, hpoll⟩ := serve_last h
    obtain ⟨⟨e, log, hpolled, hlookup, hlog⟩, hothers⟩ := ih hps
    obtain ⟨e₁, new, hrun, rfl⟩ := poll_cases hpoll
    obtain ⟨-, hhandled⟩ := (serve_filed hps (d.route req.symbolId)).handled hrun
    unfold bookOf recordsFor at *
    rw [List.filter_append]
    by_cases hs : req.symbolId = sid
    · subst hs
      obtain ⟨e₂, new₂, hrun₂, hsame, hnew⟩ := pollServer_redrawn hlookup hrun
      rw [List.filter_cons_of_pos (by simp), List.filter_nil, Function.update_self]
      refine ⟨⟨e₂, _, hpolled.step hrun₂, hsame, ?_⟩, fun k hk => ?_⟩
      · rw [recordsOf_append, recordsOf_self hhandled.symbol]
        exact List.rel_append hlog hnew
      · rw [Function.update_of_ne hk]
        exact hothers k hk
    · rw [List.filter_cons_of_neg (by simpa using hs), List.filter_nil, List.append_nil]
      -- whether the symbol has the same ring or another, its book and its records are as they were
      have hkept : ∀ k, (Function.update ps (d.route req.symbolId)
          ⟨e₁, (ps (d.route req.symbolId)).appended ++ new.map (·.resp)⟩ k).engine.books.lookup sid =
            (ps k).engine.books.lookup sid ∧
          recordsOf sid (Function.update ps (d.route req.symbolId)
            ⟨e₁, (ps (d.route req.symbolId)).appended ++ new.map (·.resp)⟩ k).appended =
            recordsOf sid (ps k).appended := by
        intro k
        by_cases hk : k = d.route req.symbolId
        · subst hk
          rw [Function.update_self, recordsOf_append, recordsOf_other (Ne.symm hs) hhandled.symbol,
            List.append_nil]
          exact ⟨hhandled.other (Ne.symm hs), rfl⟩
        · rw [Function.update_of_ne hk]
          exact ⟨rfl, rfl⟩
      refine ⟨⟨e, log, hpolled, ?_, ?_⟩, fun k hk => ?_⟩
      · rw [(hkept _).1]
        exact hlookup
      · rw [(hkept _).2]
        exact hlog
      · rw [(hkept k).2]
        exact hothers k hk

/-- What every symbol is served alone a deployment serves. -/
theorem serve_of_alone {gen : Nat → Nat} : ∀ {reqs : List OrderRequest},
    (∀ sid, ∃ e log, Polled (d.lone sid) gen (reqs.filter fun req => req.symbolId = sid) e log) →
    ∃ ps, d.serve reqs = some ps := by
  intro reqs
  induction reqs using List.reverseRecOn with
  | nil => exact fun _ => ⟨_, rfl⟩
  | append_singleton reqs req ih =>
    intro h
    have hbefore : ∀ sid, ∃ e log, Polled (d.lone sid) gen (reqs.filter fun req => req.symbolId = sid) e log := by
      intro sid
      obtain ⟨e, log, hpolled⟩ := h sid
      rw [List.filter_append] at hpolled
      exact hpolled.of_prefix (List.prefix_append _ _)
    obtain ⟨ps, hps⟩ := ih hbefore
    obtain ⟨e, log, hpolled⟩ := h req.symbolId
    rw [List.filter_append, List.filter_cons_of_pos (by simp), List.filter_nil] at hpolled
    obtain ⟨e₀, log₀, new, hpolled₀, hrun, -⟩ := hpolled.last
    obtain ⟨⟨e₁, log₁, hpolled₁, hlookup, -⟩, -⟩ := served_alone gen req.symbolId hps
    obtain ⟨rfl, -⟩ := hpolled₀.unique hpolled₁
    obtain ⟨e₂, new₂, hrun₂, -, -⟩ := pollServer_redrawn hlookup.symm hrun
    refine ⟨Function.update ps (d.route req.symbolId)
      ⟨e₂, (ps (d.route req.symbolId)).appended ++ new₂.map (·.resp)⟩, ?_⟩
    rw [serve_concat, hps]
    show d.poll ps req = _
    unfold poll
    rw [hrun₂, Option.map_some]

/-- Where the books are, and in which order requests on different symbols are served, shows nowhere but in
the numbers of trades. -/
theorem placing_unseen (hbooks : ∀ sid, d'.book sid = d.book sid)
    (hreqs : ∀ sid, (reqs'.filter fun req => req.symbolId = sid) = reqs.filter fun req => req.symbolId = sid)
    (h : d.serve reqs = some ps) :
    ∃ ps', d'.serve reqs' = some ps' ∧ ∀ sid, d'.bookOf ps' sid = d.bookOf ps sid ∧
      List.Forall₂ OrderResponse.Redrawn (d.recordsFor ps sid) (d'.recordsFor ps' sid) ∧
      ∀ k, k ≠ d'.route sid → recordsOf sid (ps' k).appended = [] := by
  have halone : ∀ sid, ∃ e log, Polled (d'.lone sid) id (reqs'.filter fun req => req.symbolId = sid) e log ∧
      e.books.lookup sid = d.bookOf ps sid ∧ List.Forall₂ OrderResponse.Redrawn (d.recordsFor ps sid) log := by
    intro sid
    obtain ⟨hsid, -⟩ := served_alone id sid h
    rw [hreqs sid, lone_eq (hbooks sid)]
    exact hsid
  obtain ⟨ps', hps'⟩ := serve_of_alone fun sid => by
    obtain ⟨e, log, hpolled, -⟩ := halone sid
    exact ⟨e, log, hpolled⟩
  refine ⟨ps', hps', fun sid => ?_⟩
  obtain ⟨e, log, hpolled, hlookup, hlog⟩ := halone sid
  obtain ⟨⟨e', log', hpolled', hlookup', hlog'⟩, hothers⟩ := served_alone id sid hps'
  obtain ⟨rfl, rfl⟩ := hpolled.unique hpolled'
  refine ⟨hlookup'.symm.trans hlookup, ?_, hothers⟩
  rw [List.forall₂_iff_get] at hlog hlog' ⊢
  obtain ⟨hlength, hget⟩ := hlog
  obtain ⟨hlength', hget'⟩ := hlog'
  refine ⟨hlength.trans hlength'.symm, fun i hi hi' => ?_⟩
  exact (hget i hi (hlength ▸ hi)).trans (hget' i hi' (hlength ▸ hi)).symm

/-! ## A core for each symbol -/

/-- Each instance has the books of its core, and the orders on a symbol go to its core. -/
def byCore (core : UInt32 → Nat) (cfgs : List Config) (gens : Nat → Nat → Nat) : Deployment where
  route := core
  cfgs k := cfgs.filter fun c => core c.symbolId = k
  gens := gens

/-- A symbol has the book that one engine for all symbols would have. -/
theorem byCore_book (core : UInt32 → Nat) (cfgs : List Config) (gens : Nat → Nat → Nat) (gen : Nat → Nat)
    (sid : UInt32) : (byCore core cfgs gens).book sid = (MatchingEngine.create cfgs gen).books.lookup sid := by
  -- what is inserted for other symbols does not show, so the maps may differ there
  have hfold : ∀ (cs : List Config) (books books' : AList fun _ : UInt32 => OrderBook),
      books.lookup sid = books'.lookup sid →
      ((cs.filter fun c => core c.symbolId = core sid).foldl
        (fun books c => books.insert c.symbolId (OrderBook.fresh c)) books).lookup sid =
      (cs.foldl (fun books c => books.insert c.symbolId (OrderBook.fresh c)) books').lookup sid := by
    intro cs
    induction cs with
    | nil => exact fun _ _ h => h
    | cons c cs ih =>
      intro books books' h
      rw [List.foldl_cons]
      by_cases hc : core c.symbolId = core sid
      · rw [List.filter_cons_of_pos (by simpa using hc), List.foldl_cons]
        refine ih _ _ ?_
        by_cases hs : sid = c.symbolId
        · rw [hs, AList.lookup_insert, AList.lookup_insert]
        · rw [AList.lookup_insert_ne hs, AList.lookup_insert_ne hs]
          exact h
      · rw [List.filter_cons_of_neg (by simpa using hc)]
        refine ih _ _ ?_
        have hs : sid ≠ c.symbolId := fun hs => hc (by rw [hs])
        rw [AList.lookup_insert_ne hs]
        exact h
  exact hfold cfgs ∅ ∅ rfl

/-- Two symbols in one engine. -/
def together : Deployment := byCore (fun _ => 0) [sampleConfig, otherConfig] fun _ => id

/-- Each of them in an engine of its own. -/
def apart : Deployment := byCore UInt32.toNat [sampleConfig, otherConfig] fun k n => n + k

/-- Both symbols trade, in turns. -/
def turns : List OrderRequest :=
  [sampleRequest .new 1 .buy 10 4, { sampleRequest .new 1 .buy 15 6 with symbolId := 2 },
    sampleRequest .new 2 .sell 10 3, { sampleRequest .new 2 .sell 15 2 with symbolId := 2 }]

/-- The same, first the one symbol and then the other. -/
def oneByOne : List OrderRequest :=
  [{ sampleRequest .new 1 .buy 15 6 with symbolId := 2 }, { sampleRequest .new 2 .sell 15 2 with symbolId := 2 },
    sampleRequest .new 1 .buy 10 4, sampleRequest .new 2 .sell 10 3]

theorem oneByOne_filter (sid : UInt32) :
    (oneByOne.filter fun req => req.symbolId = sid) = turns.filter fun req => req.symbolId = sid := by
  by_cases h₁ : (1 : UInt32) = sid
  · subst h₁
    rfl
  · by_cases h₂ : (2 : UInt32) = sid
    · subst h₂
      rfl
    · simp [oneByOne, turns, sampleRequest, h₁, h₂]

theorem turns_unseen : ∃ ps ps', together.serve turns = some ps ∧ apart.serve oneByOne = some ps' ∧
    (together.recordsFor ps 1).length = 4 ∧
    ∀ sid, apart.bookOf ps' sid = together.bookOf ps sid ∧
      List.Forall₂ OrderResponse.Redrawn (together.recordsFor ps sid) (apart.recordsFor ps' sid) ∧
      ∀ k, k ≠ apart.route sid → recordsOf sid (ps' k).appended = [] := by
  obtain ⟨ps, hps, hlength⟩ := (Option.any_eq_true ..).mp
    (show ((together.serve turns).any fun ps => (together.recordsFor ps 1).length = 4) = true by decide +kernel)
  have hbooks : ∀ sid, apart.book sid = together.book sid :=
    fun sid => (byCore_book _ _ _ id sid).trans (byCore_book _ _ _ id sid).symm
  obtain ⟨ps', hps', hsame⟩ := placing_unseen hbooks oneByOne_filter hps
  exact ⟨ps, ps', hps, hps', of_decide_eq_true hlength, hsame⟩

end Deployment

end Exchange
