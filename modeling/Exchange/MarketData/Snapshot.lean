import Exchange.MarketData.L3
import Exchange.MarketData.Mirror
import Exchange.MarketData.Rename
import Exchange.MarketData.Tracks

/-!
# Level-3 snapshots

A client that applies the batch of `send_l3_snapshot` should have the server's book,
and keep it as it applies what is published later. The batch says `q_rem` 0 of every
order, and the client believes it: whatever it has after a snapshot has nothing left
(`Spent`), while on the server something is left of every order. So the snapshot is
right exactly when there was no order to send.

From an empty book on, server and client go in lockstep (`Sim`), each with nodes of
its own.
-/

namespace Exchange.MarketData

open Lib

/-- The same ids, sides, prices and remaining quantities, level totals and queues. -/
structure SameL3 (b c : L3Book) : Prop where
  orders : ∀ id, (c.orders.lookup id).map (fun x => (x.side, x.price, x.qtyRem)) =
    (b.orders.lookup id).map fun x => (x.side, x.price, x.qtyRem)
  levels : ∀ s p, ((c.levels s).lookup p).map L3PriceLevel.view =
    ((b.levels s).lookup p).map L3PriceLevel.view

/-- A client that had the book `client` is sent a snapshot of symbol `sid`: it then
has the server's book, and has it after every later record of the journal. -/
def Reproduces (srv : Server) (sid : UInt32) (rest : List OrderResponse) (client : L3Book) : Prop :=
  ∃ us c, (srv.getOrCreateBook sid).book.l3Snapshot = some us ∧ client.onL3Updates us = .ok c ∧
    SameL3 (srv.getOrCreateBook sid).book c ∧
    ∀ n srv' pubs, srv.feedL3 (rest.take n) = .ok (srv', pubs) →
      ∃ c', c.onL3Updates (updatesOf sid pubs) = .ok c' ∧ SameL3 (srv'.getOrCreateBook sid).book c'

/-- The book holds no order. -/
def L3Book.NoOrders (b : L3Book) : Prop := ∀ id, b.orders.lookup id = none

/-! ## What a snapshot leaves -/

/-- Nothing is left of any order. -/
def Spent (b : L3Book) : Prop := ∀ id x, b.orders.lookup id = some x → x.qtyRem = 0

section Spent

variable {b b' : L3Book}

/-- Dequeueing leaves the entries. -/
theorem removeFromQueues_orders {id : Nat} (h : b.removeFromQueues id = .ok b') :
    b'.orders = b.orders := by
  unfold L3Book.removeFromQueues at h
  cases hx : b.orders.lookup id with
  | none =>
    rw [hx] at h
    rw [← Except.ok.inj h]
  | some x =>
    rw [hx] at h
    dsimp only at h
    cases hs : x.side.slot with
    | none =>
      rw [hs] at h
      rw [← Except.ok.inj h, L3Book.onLevelUpdated_orders]
    | some s =>
      rw [hs] at h
      dsimp only at h
      cases hl : (b.levels s).lookup x.price with
      | none =>
        rw [hl] at h
        rw [← Except.ok.inj h, L3Book.onLevelUpdated_orders]
      | some l =>
        rw [hl] at h
        obtain ⟨l', -, h⟩ := bind_ok h
        rw [← Except.ok.inj h, L3Book.onLevelUpdated_orders, L3Book.setOrErase_orders]

/-- Erasing an order of a book whose orders are done. -/
theorem Spent.erase (h : Spent b) (id : Nat) (hb : b'.orders = b.orders.erase id) : Spent b' := by
  intro k x hx
  rw [hb] at hx
  by_cases hk : k = id
  · subst hk
    rw [AList.lookup_erase] at hx
    cases hx
  · rw [AList.lookup_erase_ne hk] at hx
    exact h _ _ hx

/-- An update that says nothing is left leaves nothing. -/
theorem Spent.update (h : Spent b) {u : L3Update} (hu : u.qRem = 0) (hb : b.onL3Update u = .ok b') :
    Spent b' := by
  unfold L3Book.onL3Update L3Book.update at hb
  rw [hu] at hb
  split at hb
  · rw [← Except.ok.inj hb]
    exact fun _ _ hx => by cases hx
  split at hb
  · rw [← Except.ok.inj hb]
    exact h
  split at hb
  · rw [← Except.ok.inj hb]
    intro k x hx
    unfold L3Book.pushBack at hx
    simp only [L3Book.onLevelUpdated_orders, L3Book.setLevel_orders] at hx
    by_cases hk : k = u.orderId
    · subst hk
      rw [AList.lookup_insert] at hx
      rw [← Option.some.inj hx]
    · rw [AList.lookup_insert_ne hk] at hx
      exact h _ _ hx
  · cases hx : b.orders.lookup u.orderId with
    | none =>
      rw [hx] at hb
      rw [← Except.ok.inj hb]
      exact h
    | some x =>
      rw [hx] at hb
      dsimp only at hb
      split at hb
      · obtain ⟨b₁, hb₁, hb⟩ := bind_ok hb
        rw [if_neg (Nat.lt_irrefl 0)] at hb
        refine h.erase u.orderId ?_
        rw [← Except.ok.inj hb, removeFromQueues_orders hb₁]
      · unfold L3Book.updateInPlace at hb
        dsimp only at hb
        rw [if_pos rfl] at hb
        obtain ⟨l, -, hb⟩ := bind_ok hb
        refine h.erase u.orderId ?_
        rw [← Except.ok.inj hb]
        dsimp only
        rw [L3Book.setOrErase_orders, L3Book.onLevelUpdated_orders, L3Book.setLevel_orders]

/-- By induction on the updates: with nothing left in any, the orders are done. -/
theorem Spent.updates (us : List L3Update) : ∀ {b b' : L3Book}, Spent b → (∀ u ∈ us, u.qRem = 0) →
    b.onL3Updates us = .ok b' → Spent b' := by
  induction us with
  | nil =>
    intro b b' h _ hb
    rw [← Except.ok.inj hb]
    exact h
  | cons u us ih =>
    intro b b' h hus hb
    unfold L3Book.onL3Updates at hb
    rw [List.foldlM_cons] at hb
    obtain ⟨b₁, hb₁, hb⟩ := bind_ok hb
    exact ih (h.update (hus u List.mem_cons_self) hb₁) (fun v hv => hus v (List.mem_cons_of_mem _ hv)) hb

end Spent

/-! ## What a snapshot says -/

/-- What comes out of a list of lookups came out of one of them. -/
theorem mem_of_mapM {α β : Type} {f : α → Option β} {y : β} : ∀ {l : List α} {ys : List β},
    l.mapM f = some ys → y ∈ ys → ∃ x ∈ l, f x = some y
  | [], ys, h, hy => by
    rw [List.mapM_nil] at h
    rw [← Option.some.inj h] at hy
    cases hy
  | x :: l, ys, h, hy => by
    rw [List.mapM_cons] at h
    obtain ⟨z, hz, h⟩ := Option.bind_eq_some_iff.mp h
    obtain ⟨zs, hzs, h⟩ := Option.bind_eq_some_iff.mp h
    rw [← Option.some.inj h] at hy
    rcases List.mem_cons.mp hy with rfl | hy
    · exact ⟨x, List.mem_cons_self, hz⟩
    · obtain ⟨x', hx', he⟩ := mem_of_mapM hzs hy
      exact ⟨x', List.mem_cons_of_mem _ hx', he⟩

/-- Every update of a level's snapshot says that nothing is left. -/
theorem levelSnapshot_spent {b : L3Book} {s : Slot} {p : Int} {us : List L3Update}
    (h : b.levelSnapshot s p = some us) : ∀ u ∈ us, u.qRem = 0 := by
  intro u hu
  unfold L3Book.levelSnapshot at h
  obtain ⟨uss, huss, rfl⟩ := Option.map_eq_some_iff.mp h
  obtain ⟨vs, hvs, hu⟩ := List.mem_flatten.mp hu
  obtain ⟨n, -, hn⟩ := mem_of_mapM huss hvs
  obtain ⟨o, -, rfl⟩ := Option.map_eq_some_iff.mp hn
  unfold L3Order.snapshot at hu
  rcases List.mem_cons.mp hu with rfl | hu
  · rfl
  · split at hu
    · rw [List.mem_singleton.mp hu]
    · cases hu

/-- It clears, and then says of every order that nothing is left. -/
theorem l3Snapshot_spent {b : L3Book} {us : List L3Update} (h : b.l3Snapshot = some us) :
    ∃ vs, us = ⟨.complete, 0, .none, 0, 0, 0⟩ :: vs ∧ ∀ u ∈ vs, u.qRem = 0 := by
  unfold L3Book.l3Snapshot at h
  obtain ⟨bids, hbids, h⟩ := Option.bind_eq_some_iff.mp h
  obtain ⟨asks, hasks, h⟩ := Option.bind_eq_some_iff.mp h
  refine ⟨bids.flatten ++ asks.flatten, (Option.some.inj h).symm, fun u hu => ?_⟩
  rcases List.mem_append.mp hu with hu | hu
  · obtain ⟨vs, hvs, hu⟩ := List.mem_flatten.mp hu
    obtain ⟨p, -, hp⟩ := mem_of_mapM hbids hvs
    exact levelSnapshot_spent hp u hu
  · obtain ⟨vs, hvs, hu⟩ := List.mem_flatten.mp hu
    obtain ⟨p, -, hp⟩ := mem_of_mapM hasks hvs
    exact levelSnapshot_spent hp u hu

/-- After a snapshot the client has nothing left of any order. -/
theorem spent_after_snapshot {b client c : L3Book} {us : List L3Update} (h : b.l3Snapshot = some us)
    (hc : client.onL3Updates us = .ok c) : Spent c := by
  obtain ⟨vs, rfl, hvs⟩ := l3Snapshot_spent h
  unfold L3Book.onL3Updates at hc
  rw [List.foldlM_cons] at hc
  obtain ⟨c₁, hc₁, hc⟩ := bind_ok hc
  have hclear : Spent c₁ := by
    rw [← Except.ok.inj hc₁]
    exact fun _ _ hx => by cases hx
  exact hclear.updates vs hvs hc

/-! ## From an empty book on -/

section Empty

variable {b : L3Book}

/-- Without orders there is no level either. -/
theorem Coherent.no_levels (h : Coherent b) (hb : b.NoOrders) (s : Slot) (p : Int) :
    (b.levels s).lookup p = none := by
  cases hl : (b.levels s).lookup p with
  | none => rfl
  | some l =>
    have hok := h.level hl
    obtain ⟨n, ns, hq⟩ := List.exists_cons_of_ne_nil hok.full
    obtain ⟨x, hx, -⟩ := hok.owner n (hq ▸ List.mem_cons_self)
    rw [hb n.2] at hx
    cases hx

/-- The snapshot of an empty book clears. -/
theorem Coherent.snapshot_empty (h : Coherent b) (hb : b.NoOrders) :
    b.l3Snapshot = some [⟨.complete, 0, .none, 0, 0, 0⟩] := by
  have hprices : ∀ s, b.prices s = [] := by
    intro s
    refine List.eq_nil_iff_forall_not_mem.mpr (fun p hp => ?_)
    have hmem := AList.lookup_isSome.mpr (mem_prices.mp hp)
    rw [h.no_levels hb] at hmem
    cases hmem
  unfold L3Book.l3Snapshot
  rw [hprices, hprices]
  rfl

/-- Two empty books, whatever nodes they will use. -/
theorem sim_empty {c : L3Book} (hb : b.NoOrders) (hl : ∀ s p, (b.levels s).lookup p = none)
    (hc : c.orders = ∅ ∧ c.levels = fun _ => ∅) :
    Sim False id (fun n => n - b.nextNode + c.nextNode) b.nextNode b c := by
  refine ⟨fun k => ?_, fun k hk => absurd rfl (hk k), fun s p => ?_, fun k => ?_, le_rfl, fun hx => ?_,
    fun hx => ?_, fun hf => hf.elim⟩
  · rw [hb k, hc.1]
    rfl
  · rw [hl s p, hc.2]
    rfl
  · omega
  · rw [hb] at hx
    cases hx
  · rw [hl] at hx
    cases hx

end Empty

/-- Books in lockstep show the same. -/
theorem Sim.same {T : Prop} {f : Nat → Nat} {base : Nat} {b c : L3Book} (h : Sim T id f base b c) :
    SameL3 b c := by
  refine ⟨fun k => ?_, fun s p => ?_⟩
  · have hk := h.entries k
    rw [show c.orders.lookup k = _ from hk, Option.map_map]
    rfl
  · rw [h.levels s p, Option.map_map]
    congr 1
    funext l
    show (L3PriceLevel.rename id f l).view = l.view
    unfold L3PriceLevel.view L3PriceLevel.rename
    dsimp only
    rw [List.map_map]
    rfl

/-- Books in lockstep stay so under the same updates. -/
theorem Sim.updates {T : Prop} {f : Nat → Nat} {base : Nat}
    (hf : ∀ {m n}, base ≤ m → base ≤ n → f m = f n → m = n) (us : List L3Update) :
    ∀ {b c : L3Book}, Sim T id f base b c →
      Agree (Sim T id f base) (b.onL3Updates us) (c.onL3Updates us) := by
  induction us with
  | nil => exact fun h => .ok h
  | cons u us ih =>
    intro b c h
    unfold L3Book.onL3Updates
    rw [List.foldlM_cons, List.foldlM_cons]
    refine Agree.bind (R := Sim T id f base) ?_ (fun _ _ h₁ => ih h₁)
    exact h.update Function.injective_id hf u.execType u.orderId u.side u.p u.q u.qRem

/-- A snapshot that is right was of a book without orders. -/
theorem Reproduces.noOrders {srv : Server} {sid : UInt32} {rest : List OrderResponse} {client : L3Book}
    (h : Reproduces srv sid rest client) (hcoherent : Coherent (srv.getOrCreateBook sid).book) :
    (srv.getOrCreateBook sid).book.NoOrders := by
  obtain ⟨us, c, hus, hc, hsame, -⟩ := h
  have hspent := spent_after_snapshot hus hc
  intro id
  cases hx : (srv.getOrCreateBook sid).book.orders.lookup id with
  | none => rfl
  | some x =>
    -- something is left on the server, nothing at the client
    have hview := hsame.orders id
    rw [hx, Option.map_some] at hview
    obtain ⟨y, hy, he⟩ := Option.map_eq_some_iff.mp hview
    have hleft : y.qtyRem = x.qtyRem := congrArg (fun t => t.2.2) he
    have hpos := hcoherent.pos hx
    rw [← hleft, hspent _ _ hy] at hpos
    exact absurd hpos (Nat.lt_irrefl 0)

/-- A book without orders is reproduced, with what comes later. -/
theorem L3Book.NoOrders.reproduces {srv : Server} {sid : UInt32}
    (hempty : (srv.getOrCreateBook sid).book.NoOrders)
    (hcoherent : Coherent (srv.getOrCreateBook sid).book) (rest : List OrderResponse) (client : L3Book) :
    Reproduces srv sid rest client := by
  have hlevels := hcoherent.no_levels hempty
  have hcleared : client.onL3Updates [⟨.complete, 0, .none, 0, 0, 0⟩] =
      .ok { client with orders := ∅, levels := fun _ => ∅ } := rfl
  have hsim := sim_empty (c := { client with orders := ∅, levels := fun _ => ∅ }) hempty hlevels
    ⟨rfl, rfl⟩
  refine ⟨_, _, hcoherent.snapshot_empty hempty, hcleared, hsim.same, fun n srv' pubs hfeed => ?_⟩
  have htraced := feed_traced (rest.take n) srv
  rw [hfeed] at htraced
  have hpubs : (srv.getOrCreateBook sid).book.onL3Updates (updatesOf sid pubs) =
      .ok (srv'.getOrCreateBook sid).book := by
    cases hf : srv.feed (rest.take n) with
    | error e =>
      rw [hf] at htraced
      cases htraced
    | ok srv₁ =>
      rw [hf] at htraced
      cases htraced with
      | ok ht =>
        have hsrv : srv' = srv₁ := ht.1
        rw [hsrv]
        exact ht.2 sid
  obtain ⟨c', hc', hsim'⟩ := (hsim.updates (fun hm hn he => by dsimp only at he; omega)
    (updatesOf sid pubs)).of_ok hpubs
  exact ⟨c', hc', hsim'.same⟩

section Reached

variable {K : OrderRequest → Prop} {cfgs : List Config} {e : MatchingEngine} {out : List Emission}
  {rs rest : List OrderResponse} {srv : Server}

/-- The server's books are in order wherever it is in an engine's journal. -/
theorem coherent_along (h : MatchingEngine.Journal K cfgs e out) (hout : out.map (·.resp) = rs ++ rest)
    (hrun : Server.feed ∅ rs = .ok srv) (sid : UInt32) : Coherent (srv.getOrCreateBook sid).book := by
  have htracked := tracked_journal h
  rw [hout] at htracked
  obtain ⟨x, -, -, htracks⟩ := htracked.feed rs hrun sid
  exact htracks.shown.coherent

/-- The snapshot is right exactly when the server's book holds no order. -/
theorem l3_snapshot_reproduces (h : MatchingEngine.Journal K cfgs e out)
    (hout : out.map (·.resp) = rs ++ rest) (hrun : Server.feed ∅ rs = .ok srv) (sid : UInt32)
    (client : L3Book) :
    Reproduces srv sid rest client ↔ (srv.getOrCreateBook sid).book.NoOrders := by
  have hcoherent := coherent_along h hout hrun sid
  exact ⟨fun hr => hr.noOrders hcoherent, fun hempty => hempty.reproduces hcoherent rest client⟩

end Reached

/-- An offer, a bid that takes all of it, and another offer. -/
def takenRequests : List OrderRequest :=
  [sampleRequest .new 1 .sell 20 5, sampleRequest .new 5 .buy 20 5, sampleRequest .new 6 .sell 25 3]

/-- The order ids symbol 1 has after a journal. -/
def idsAfter (res : Except Fault Server) : Option (List Nat) :=
  match res with
  | .ok srv => some (srv.getOrCreateBook 1).book.orders.keys
  | .error _ => none

theorem idsAfter_eq {res : Except Fault Server} {ids : List Nat} (h : idsAfter res = some ids) :
    ∃ srv, res = .ok srv ∧ (srv.getOrCreateBook 1).book.orders.keys = ids := by
  cases res with
  | error e => cases h
  | ok srv => exact ⟨srv, rfl, Option.some.inj h⟩

/-- Without keys there are no orders. -/
theorem noOrders_of_keys {b : L3Book} (h : b.orders.keys = []) : b.NoOrders := by
  intro id
  rw [AList.lookup_eq_none, AList.mem_keys, h]
  exact List.not_mem_nil

/-- Between the trade and the next offer nobody rests. -/
theorem sample_snapshot : ∃ e out srv, MatchingEngine.Run Followable [sampleConfig] e out ∧
    out.length = 5 ∧ Server.feed ∅ ((out.map (·.resp)).take 4) = .ok srv ∧
    ∀ client, Reproduces srv 1 ((out.map (·.resp)).drop 4) client := by
  obtain ⟨e, out, hrun, hids⟩ := MatchingEngine.Run.of_serve Followable [sampleConfig] id takenRequests
    (by unfold Followable; decide)
    (fun r => r.2.length = 5 ∧ idsAfter (Server.feed ∅ ((r.2.map fun x => x.resp).take 4)) = some [])
    (by decide +kernel)
  obtain ⟨hlen, hids⟩ := of_decide_eq_true hids
  obtain ⟨srv, hsrv, hkeys⟩ := idsAfter_eq hids
  exact ⟨e, out, srv, hrun, hlen, hsrv, fun client =>
    (l3_snapshot_reproduces hrun.journal (List.take_append_drop 4 _).symm hsrv 1 client).mpr
      (noOrders_of_keys hkeys)⟩

/-- With the offer on the book, a client that knows nothing is not told of it. -/
theorem snapshot_says_nothing_left : ∃ e out srv, MatchingEngine.Run Followable [sampleConfig] e out ∧
    Server.feed ∅ ((out.map (·.resp)).take 1) = .ok srv ∧
    ¬ Reproduces srv 1 ((out.map (·.resp)).drop 1) L3Book.empty := by
  obtain ⟨e, out, hrun, hids⟩ := MatchingEngine.Run.of_serve Followable [sampleConfig] id takenRequests
    (by unfold Followable; decide)
    (fun r => idsAfter (Server.feed ∅ ((r.2.map fun x => x.resp).take 1)) = some [4294967297])
    (by decide +kernel)
  obtain ⟨srv, hsrv, hkeys⟩ := idsAfter_eq (of_decide_eq_true hids)
  refine ⟨e, out, srv, hrun, hsrv, fun h => ?_⟩
  have hnone := h.noOrders (coherent_along hrun.journal (List.take_append_drop 1 _).symm hsrv 1) 4294967297
  rw [AList.lookup_eq_none, AList.mem_keys, hkeys] at hnone
  exact hnone (List.mem_singleton.mpr rfl)

end Exchange.MarketData
