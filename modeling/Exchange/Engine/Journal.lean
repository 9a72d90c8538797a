import Exchange.Book.Records
import Exchange.Book.Stream
import Exchange.Engine.Runs

/-!
# The engine's journal

`Run` follows requests that are well formed. A client can send anything, and
`Journal` adds the requests the engine refuses, whatever they hold: such a
request leaves its book as it was and puts one `Rejected` record in the journal
(`processRequest_answered`).

`Journal.streams`: the records of each symbol are a stream an observer can rely
on, and what they leave of each order is what the engine's book holds.
-/

namespace Exchange.MatchingEngine

/-- Every record refuses. -/
def Refused (new : List Emission) : Prop := ∀ x ∈ new, x.resp.execType = .rejected

/-- The engines that well-formed requests satisfying `K`, and any requests that are
refused, can lead to, with the records sent. -/
inductive Journal (K : OrderRequest → Prop) (cfgs : List Config) :
    MatchingEngine → List Emission → Prop
  | create (gen : Nat → Nat) : Journal K cfgs (create cfgs gen) []
  | accepted {e e' : MatchingEngine} {out new : List Emission} {req : OrderRequest}
      (h : Journal K cfgs e out) (hK : K req) (hreq : e.Accepts req)
      (hrun : e.pollServer req = some (e', new)) : Journal K cfgs e' (out ++ new)
  | refused {e e' : MatchingEngine} {out new : List Emission} {req : OrderRequest}
      (h : Journal K cfgs e out) (hrun : e.pollServer req = some (e', new)) (hnew : Refused new) :
      Journal K cfgs e' (out ++ new)

theorem Run.journal {K : OrderRequest → Prop} {cfgs : List Config} {e : MatchingEngine}
    {out : List Emission} (h : Run K cfgs e out) : Journal K cfgs e out := by
  induction h with
  | create gen => exact .create gen
  | step _ hK hreq hrun ih => exact ih.accepted hK hreq hrun

/-- What a refused request does: it is for a symbol the engine does not serve, or it
puts its `Rejected` record in the journal and no book changes. -/
inductive Turned (e : MatchingEngine) (req : OrderRequest) : MatchingEngine → List Emission → Prop
  | unserved (hsym : e.books.lookup req.symbolId = none) : Turned e req e []
  | served {b : OrderBook} {new : List Emission} (qRem : Nat) (code : RejectCode)
      (hsym : e.books.lookup req.symbolId = some b)
      (hnew : new.map (·.resp) =
        [b.cfg.response .rejected req.combinedId req.execId req.side req.p req.q qRem code]) :
      Turned e req ⟨e.books.insert req.symbolId b, e.gen⟩ new

/-- A poll that is refused leaves the books. -/
theorem Sound.turned {cfgs : List Config} {e e' : MatchingEngine} {new : List Emission}
    {req : OrderRequest} (h : e.Sound cfgs) (hrun : e.pollServer req = some (e', new))
    (hnew : Refused new) : Turned e req e' new := by
  unfold pollServer at hrun
  cases hsym : e.books.lookup req.symbolId with
  | none =>
    rw [hsym] at hrun
    obtain ⟨rfl, rfl⟩ := Prod.mk.inj (Option.some.inj hrun)
    exact .unserved hsym
  | some b =>
    rw [hsym] at hrun
    obtain ⟨st, hst, hrun⟩ := Option.bind_eq_some_iff.mp hrun
    obtain ⟨rfl, rfl⟩ := Prod.mk.inj (Option.some.inj hrun)
    have hmode : (⟨b, e.gen, []⟩ : State).book.recoverMode = false := h.mode hsym
    cases processRequest_answered hst with
    | refused qRem code =>
      have hlog : (State.reject ⟨b, e.gen, []⟩ req qRem code).log =
          [b.cfg.response .rejected req.combinedId req.execId req.side req.p req.q qRem code] := by
        have hsent := (Emits.send ⟨b, e.gen, []⟩ .rejected req.combinedId req.execId req.side req.p
          req.q qRem code).log
        rw [hmode] at hsent
        exact hsent
      have hbook : (State.reject ⟨b, e.gen, []⟩ req qRem code).book = b := State.sendResponse_book ..
      have hgen : (State.reject ⟨b, e.gen, []⟩ req qRem code).gen = e.gen := State.sendResponse_gen ..
      rw [hbook, hgen]
      exact .served qRem code hsym hlog
    | served hsent _ hserved _ _ =>
      -- the first record would not be a refusal
      have hlog := hsent.log
      rw [hmode] at hlog
      obtain ⟨x, rest, hout, hx, -⟩ := List.map_eq_cons_iff.mp hlog
      refine absurd ?_ hserved
      rw [← hx]
      exact hnew x (hout ▸ List.mem_cons_self)

/-- A book that is put back leaves the map's answers as they are. -/
theorem lookup_insert_same {books : AList fun _ : UInt32 => OrderBook} {sid : UInt32} {b : OrderBook}
    (h : books.lookup sid = some b) (k : UInt32) : (books.insert sid b).lookup k = books.lookup k := by
  by_cases hk : k = sid
  · rw [hk, AList.lookup_insert, h]
  · rw [AList.lookup_insert_ne hk]

/-- A refused request changes no book. -/
theorem Turned.lookup {e e' : MatchingEngine} {req : OrderRequest} {new : List Emission}
    (h : Turned e req e' new) (k : UInt32) : e'.books.lookup k = e.books.lookup k := by
  cases h with
  | unserved _ => rfl
  | served _ _ hsym _ => exact lookup_insert_same hsym k

/-- By induction, over accepted requests and refused ones. -/
theorem Journal.sound {K : OrderRequest → Prop} {cfgs : List Config} {e : MatchingEngine}
    {out : List Emission} (h : Journal K cfgs e out) : e.Sound cfgs := by
  induction h with
  | create gen => exact create_sound cfgs gen
  | accepted _ _ hreq hrun ih =>
    obtain ⟨e', new, hrun', -, hsound⟩ := ih.serves hreq
    obtain ⟨rfl, -⟩ := Prod.mk.inj (Option.some.inj (hrun.symm.trans hrun'))
    exact hsound
  | refused _ hrun hnew ih =>
    have hkeep := (ih.turned hrun hnew).lookup
    exact ⟨fun hb => ih.inv ((hkeep _).symm.trans hb), fun hb => ih.cfg ((hkeep _).symm.trans hb),
      fun hb => ih.mode ((hkeep _).symm.trans hb)⟩

/-! ## Streams -/

/-- The records of one symbol. -/
def recordsOf (sid : UInt32) (rs : List OrderResponse) : List OrderResponse :=
  rs.filter fun r => r.symbolId = sid

theorem recordsOf_append (sid : UInt32) (rs rs' : List OrderResponse) :
    recordsOf sid (rs ++ rs') = recordsOf sid rs ++ recordsOf sid rs' :=
  List.filter_append ..

theorem recordsOf_self {sid : UInt32} {rs : List OrderResponse} (h : ∀ r ∈ rs, r.symbolId = sid) :
    recordsOf sid rs = rs :=
  List.filter_eq_self.mpr (fun r hr => by simpa using h r hr)

theorem recordsOf_other {sid k : UInt32} (hk : k ≠ sid) {rs : List OrderResponse}
    (h : ∀ r ∈ rs, r.symbolId = sid) : recordsOf k rs = [] :=
  List.filter_eq_nil_iff.mpr (fun r hr => by simpa using fun e => hk (e.symm.trans (h r hr)))

/-- What is left of a symbol's orders. -/
def remaining (e : MatchingEngine) (sid : UInt32) : Remaining :=
  ((e.books.lookup sid).map fun b => b.lob.remaining).getD fun _ => none

/-- What a symbol has left is what its book has. -/
theorem remaining_of {e : MatchingEngine} {sid : UInt32} {b : OrderBook}
    (h : e.books.lookup sid = some b) : e.remaining sid = b.lob.remaining := by
  unfold remaining
  rw [h]
  rfl

/-- A book without orders leaves nothing. -/
theorem remaining_create (cfgs : List Config) (gen : Nat → Nat) (sid : UInt32) :
    (create cfgs gen).remaining sid = fun _ => none := by
  unfold remaining
  cases hb : (create cfgs gen).books.lookup sid with
  | none => rfl
  | some b =>
    obtain ⟨c, -, -, rfl⟩ := create_lookup hb
    rw [Option.map_some, fresh_lob]
    rfl

/-- A request extends the stream of its symbol and no other. -/
theorem Stream.extend {e e' : MatchingEngine} (sid : UInt32) {rs new : List OrderResponse}
    (h : ∀ k, Stream (fun _ => none) (recordsOf k rs) (e.remaining k))
    (hnew : ∀ r ∈ new, r.symbolId = sid) (hself : Stream (e.remaining sid) new (e'.remaining sid))
    (hothers : ∀ k, k ≠ sid → e'.remaining k = e.remaining k) (k : UInt32) :
    Stream (fun _ => none) (recordsOf k (rs ++ new)) (e'.remaining k) := by
  rw [recordsOf_append]
  by_cases hk : k = sid
  · subst hk
    rw [recordsOf_self hnew]
    exact (h k).append hself
  · rw [recordsOf_other hk hnew, List.append_nil, hothers k hk]
    exact h k

/-- The records of each symbol, from the first on. -/
theorem Journal.streams {K : OrderRequest → Prop} {cfgs : List Config} {e : MatchingEngine}
    {out : List Emission} (h : Journal K cfgs e out) (sid : UInt32) :
    Stream (fun _ => none) (recordsOf sid (out.map (·.resp))) (e.remaining sid) := by
  induction h generalizing sid with
  | create gen =>
    rw [remaining_create]
    exact .nil _
  | @accepted e e' out new req hj _ hreq hrun ih =>
    have hsound := hj.sound
    rw [List.map_append]
    cases hsound.stepped hreq hrun with
    | unserved _ =>
      rw [List.map_nil, List.append_nil]
      exact ih sid
    | @served b b' gen new hsym hcfg hlob hnew =>
      have hout := Lob.step_outcome b.cfg e.gen b.lob req
      have hself := hout.stream (hsound.ok hsym) (hreq b hsym)
      rw [hnew]
      refine Stream.extend _ ih (fun r hr => (hout.symbol r hr).trans (hsound.cfg hsym).2) ?_
        (fun k hk => ?_) sid
      · rw [remaining_of hsym, remaining_of (AList.lookup_insert _), hlob]
        exact hself
      · unfold remaining
        rw [AList.lookup_insert_ne hk]
  | @refused e e' out new req hj hrun hnew ih =>
    have hsound := hj.sound
    have hturned := hsound.turned hrun hnew
    have hkeep : ∀ k, e'.remaining k = e.remaining k := by
      intro k
      unfold remaining
      rw [hturned.lookup k]
    rw [List.map_append]
    cases hturned with
    | unserved _ =>
      rw [List.map_nil, List.append_nil]
      exact ih sid
    | @served b new qRem code hsym hnew' =>
      rw [hnew']
      refine Stream.extend req.symbolId ih (fun r hr => ?_) ?_ (fun k _ => hkeep k) sid
      · rw [List.mem_singleton.mp hr]
        exact (hsound.cfg hsym).2
      · rw [hkeep, remaining_of hsym]
        exact (hsound.ok hsym).positive.stream_rejected rfl

end Exchange.MatchingEngine
