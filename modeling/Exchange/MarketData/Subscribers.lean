import Exchange.MarketData.Mirror
import Exchange.MarketData.Overlay

/-!
# Level-2 subscribers along a journal

The invariant of the whole system, over every interleaving of records, ticks,
subscriptions and clients that apply what they were sent: `Synced`. From it, what
a client has applied differs from the server's book where changes are pending and
nowhere else, and no client ever holds a crossed book, after any single update.

Both hold of every journal the engine can write, market orders and the order id 0
included: should the server throw, it ends there.
-/

namespace Exchange.MarketData

namespace L2System

variable {ι : Type} {sys sys' : L2System ι}

/-- A client's book once it has applied all it was sent. -/
def received (sys : L2System ι) (client : ι) (sid : UInt32) : L2Book :=
  (sys.views client sid).updateAll (sys.inbox client sid)

/-- What holds of the system at any time. -/
structure Synced (sys : L2System ι) : Prop where
  tracked : sys.srv.Tracked sys.unread
  marked : ∀ sid, Marked (sys.book sid)
  overlaid : ∀ sid, ∀ client ∈ sys.l2Clients sid, Overlaid (sys.book sid) (sys.received client sid)
  clean : ∀ client sid us, us <+: sys.inbox client sid →
    ((sys.views client sid).updateAll us).Uncrossed

/-- A book in step shows what some stretch of records left. -/
theorem Synced.shown (h : sys.Synced) (sid : UInt32) : ∃ x, Shown x (sys.book sid) := by
  obtain ⟨x, -, -, ht⟩ := h.tracked sid
  exact ⟨x, ht.shown⟩

/-- At the start nothing was read. -/
theorem synced_init {journal : List OrderResponse}
    (h : ∀ sid, ∃ x', Stream (fun _ => none) (MatchingEngine.recordsOf sid journal) x') :
    (init journal : L2System ι).Synced := by
  refine ⟨fun sid => ?_, fun sid s p q hq => ?_, fun sid client hc => ?_, fun client sid us hus => ?_⟩
  · obtain ⟨x', hx'⟩ := h sid
    exact ⟨_, x', hx', tracks_init _⟩
  · cases hq
  · exact absurd hc (Finset.notMem_empty client)
  · rw [List.prefix_nil.mp hus]
    exact L2Book.uncrossed_empty

/-- A record changes one book, and marks what it changes. -/
theorem Synced.process (h : sys.Synced) {r : OrderResponse} {rs : List OrderResponse} {srv : Server}
    (hr : sys.unread = r :: rs) (hrun : sys.srv.processMarketUpdate r = .ok srv) :
    Synced { sys with srv := srv, unread := rs } := by
  have htracked := h.tracked
  rw [hr] at htracked
  have hnoticed := htracked.process hrun
  exact ⟨hnoticed.1, fun sid => (h.marked sid).noticed (hnoticed.2 sid),
    fun sid client hc => (h.overlaid sid client hc).noticed (hnoticed.2 sid), h.clean⟩

/-- Clearing the marks changes nothing else. -/
theorem shown_unmarked {x : Remaining} {b : L3Book} (h : Shown x b) :
    Shown x { b with pendingL2 := fun _ => ∅ } := by
  refine ⟨⟨h.coherent.pos, fun hx => ?_, fun hl => ?_⟩, h.uncrossed, h.rows⟩
  · obtain ⟨s, l, hp⟩ := h.coherent.placed hx
    exact ⟨s, l, hp.entry, hp.side, hp.level, hp.node⟩
  · have hok := h.coherent.level hl
    exact ⟨hok.full, hok.nodup, hok.fresh, hok.owner, hok.total⟩

/-- The updates `us` are sent, to the clients and symbols of `T`. -/
structure Delivers (sys sys' : L2System ι) (T : ι → UInt32 → Prop) (us : List L2Update) : Prop where
  unread : sys'.unread = sys.unread
  views : sys'.views = sys.views
  reached : ∀ client k, T client k → sys'.inbox client k = sys.inbox client k ++ us
  others : ∀ client k, ¬ T client k → sys'.inbox client k = sys.inbox client k

section Deliveries

variable {T : ι → UInt32 → Prop} {us : List L2Update} {client : ι} {k : UInt32}

theorem Delivers.received_reached (h : Delivers sys sys' T us) (ht : T client k) :
    sys'.received client k = (sys.received client k).updateAll us := by
  unfold received
  rw [h.views, h.reached client k ht, L2Book.updateAll_append]

theorem Delivers.received_others (h : Delivers sys sys' T us) (ht : ¬ T client k) :
    sys'.received client k = sys.received client k := by
  unfold received
  rw [h.views, h.others client k ht]

/-- What was sent before leaves nobody crossed, nor does what is sent now. -/
theorem Synced.delivered (hs : sys.Synced) (h : Delivers sys sys' T us)
    (hus : ∀ client k, T client k → ∀ ws, ws <+: us →
      ((sys.received client k).updateAll ws).Uncrossed) (client : ι) (k : UInt32)
    (ws : List L2Update) (hws : ws <+: sys'.inbox client k) :
    ((sys'.views client k).updateAll ws).Uncrossed := by
  rw [h.views]
  by_cases ht : T client k
  · rw [h.reached client k ht] at hws
    rcases List.prefix_or_prefix_of_prefix hws (List.prefix_append (sys.inbox client k) us) with hin | hin
    · exact hs.clean client k ws hin
    · obtain ⟨ws', rfl⟩ := hin
      rw [L2Book.updateAll_append]
      exact hus client k ht ws' ((List.prefix_append_right_inj _).mp hws)
  · rw [h.others client k ht] at hws
    exact hs.clean client k ws hws

end Deliveries

/-! ## The events -/

/-- What a tick does: it sends the marks to the subscribers and forgets them. -/
structure Ticked (sys sys' : L2System ι) (sid : UInt32) (first second : Slot → List (Int × Nat)) :
    Prop where
  walks : Walks (sys.book sid) first ∧ Walks (sys.book sid) second
  sent : Delivers sys sys' (fun client k => k = sid ∧ client ∈ sys.l2Clients sid)
    (extractPendingL2Updates first second)
  clients : sys'.l2Clients = sys.l2Clients
  self : sys'.srv.getOrCreateBook sid = { sys.srv.getOrCreateBook sid with
    book := { sys.book sid with pendingL2 := fun _ => ∅ } }
  others : ∀ k, k ≠ sid → sys'.srv.getOrCreateBook k = sys.srv.getOrCreateBook k

/-- Right after a tick the subscribers have the server's book. -/
theorem Synced.ticked (h : sys.Synced) {sid : UInt32} {first second : Slot → List (Int × Nat)}
    (ht : Ticked sys sys' sid first second) {client : ι} (hc : client ∈ sys'.l2Clients sid) (s : Slot)
    (p : Int) : ((sys'.received client sid).levels s).lookup p = (sys'.book sid).totalAt s p := by
  rw [ht.clients] at hc
  obtain ⟨x, hshown⟩ := h.shown sid
  have hbatch := (h.overlaid sid client hc).batch hshown.coherent (h.marked sid) ht.walks.1 ht.walks.2 s p
  rw [ht.sent.received_reached ⟨rfl, hc⟩, hbatch]
  unfold L2System.book
  rw [ht.self]
  rfl

/-- A tick sends every subscriber what it lacks. -/
theorem Synced.tick (h : sys.Synced) {sid : UInt32} {first second : Slot → List (Int × Nat)}
    (ht : Ticked sys sys' sid first second) : sys'.Synced := by
  have hbook : ∀ k, k ≠ sid → sys'.book k = sys.book k := by
    intro k hk
    unfold L2System.book
    rw [ht.others k hk]
  have hclear : ∀ s, (sys'.book sid).pendingL2 s = ∅ := by
    intro s
    unfold L2System.book
    rw [ht.self]
  refine ⟨fun k => ?_, fun k => ?_, fun k client hc => ?_, h.delivered ht.sent ?_⟩
  · obtain ⟨x, x', hx, htracks⟩ := h.tracked k
    refine ⟨x, x', ht.sent.unread ▸ hx, ?_⟩
    by_cases hk : k = sid
    · subst hk
      rw [ht.self]
      exact ⟨shown_unmarked htracks.shown, fun hlive =>
        ⟨(htracks.pending hlive).type, (htracks.pending hlive).side, (htracks.pending hlive).absent,
          (htracks.pending hlive).row⟩⟩
    · rw [ht.others k hk]
      exact htracks
  · by_cases hk : k = sid
    · subst hk
      intro s p q hq
      rw [hclear s] at hq
      cases hq
    · rw [hbook k hk]
      exact h.marked k
  · by_cases hk : k = sid
    · subst hk
      exact fun s p _ => h.ticked ht hc s p
    · rw [ht.clients] at hc
      rw [hbook k hk, ht.sent.received_others (fun hat => hk hat.1)]
      exact h.overlaid k client hc
  · rintro client k ⟨rfl, hc⟩ ws hws
    obtain ⟨x, hshown⟩ := h.shown k
    exact (h.overlaid k client hc).batch_uncrossed (h.marked k) hshown.uncrossed
      (h.clean client k _ List.prefix_rfl) ht.walks.1 ht.walks.2 hws

section Events

variable [DecidableEq ι]

theorem ticked {sid : UInt32} {first second : Slot → List (Int × Nat)}
    (hstep : sys.tick sid first second = some sys') : Ticked sys sys' sid first second := by
  unfold L2System.tick at hstep
  cases hm : sys.srv.lookup sid with
  | none =>
    rw [hm] at hstep
    cases hstep
  | some m =>
    rw [hm] at hstep
    dsimp only at hstep
    split at hstep
    · cases hstep
    split at hstep
    swap
    · cases hstep
    rename_i hwalks
    obtain rfl := Option.some.inj hstep
    have hbook : sys.srv.getOrCreateBook sid = m := by
      unfold Server.getOrCreateBook
      rw [hm]
      rfl
    refine ⟨?_, ⟨rfl, rfl, fun _ _ ht => if_pos ht, fun _ _ ht => if_neg ht⟩, rfl, ?_,
      fun k hk => getOrCreateBook_ne sys.srv hk _⟩
    · unfold L2System.book
      rw [hbook]
      refine ⟨fun s => (hwalks s ?_).1, fun s => (hwalks s ?_).2⟩ <;> cases s <;> simp
    · unfold L2System.book
      rw [hbook]
      exact getOrCreateBook_self sys.srv sid _

/-- A new subscriber is sent the book as it is. -/
theorem Synced.subscribe (h : sys.Synced) (client : ι) (sid : UInt32) :
    (sys.subscribe client sid).Synced := by
  -- the snapshot goes to this client and this symbol only
  have hsent : Delivers sys (sys.subscribe client sid) (fun c k => c = client ∧ k = sid)
      (sys.book sid).l2Snapshot := by
    refine ⟨rfl, rfl, ?_, fun c k hne => ?_⟩
    · rintro c k ⟨rfl, rfl⟩
      show Function.update sys.inbox c _ c k = _
      rw [Function.update_self, Function.update_self]
      rfl
    · show Function.update sys.inbox client _ c k = _
      by_cases hc : c = client
      · subst hc
        have hk : k ≠ sid := fun e => hne ⟨rfl, e⟩
        rw [Function.update_self, Function.update_of_ne hk]
      · rw [Function.update_of_ne hc]
  -- the server's books stay as they are
  have hsame : ∀ k, (sys.subscribe client sid).srv.getOrCreateBook k = sys.srv.getOrCreateBook k := by
    intro k
    by_cases hk : k = sid
    · subst hk
      exact getOrCreateBook_self ..
    · exact getOrCreateBook_ne _ hk _
  have hbook : ∀ k, (sys.subscribe client sid).book k = sys.book k :=
    fun k => congrArg MDOrderBook.book (hsame k)
  -- who has got the snapshot has the whole book; the others have what they had
  refine ⟨fun k => ?_, fun k => ?_, fun k c hc => ?_, h.delivered hsent ?_⟩
  · obtain ⟨x, x', hx, ht⟩ := h.tracked k
    exact ⟨x, x', hx, (hsame k).symm ▸ ht⟩
  · rw [hbook k]
    exact h.marked k
  · rw [hbook k]
    by_cases hat : c = client ∧ k = sid
    · rw [hsent.received_reached hat]
      obtain ⟨rfl, rfl⟩ := hat
      obtain ⟨x, hshown⟩ := h.shown k
      exact fun s p _ => hshown.coherent.snapshot _ s p
    · rw [hsent.received_others hat]
      refine h.overlaid k c ?_
      have hc' : c ∈ Function.update sys.l2Clients sid (insert client (sys.l2Clients sid)) k := hc
      by_cases hk : k = sid
      · subst hk
        rw [Function.update_self] at hc'
        exact (Finset.mem_insert.mp hc').resolve_left (fun e => hat ⟨e, rfl⟩)
      · rwa [Function.update_of_ne hk] at hc'
  · rintro c k ⟨rfl, rfl⟩ ws hws
    obtain ⟨x, hshown⟩ := h.shown k
    exact snapshot_uncrossed hshown.uncrossed (h.clean c k _ List.prefix_rfl) hws

/-- Unsubscribing keeps the others in step. -/
theorem Synced.unsubscribe (h : sys.Synced) (client : ι) (sid : UInt32) :
    (sys.unsubscribe client sid).Synced := by
  refine ⟨h.tracked, h.marked, fun k c hc => h.overlaid k c ?_, h.clean⟩
  have hc' : c ∈ Function.update sys.l2Clients sid ((sys.l2Clients sid).erase client) k := hc
  by_cases hk : k = sid
  · subst hk
    rw [Function.update_self] at hc'
    exact Finset.mem_of_mem_erase hc'
  · rwa [Function.update_of_ne hk] at hc'

/-- A client that applies an update has it behind it instead of in front. -/
theorem Synced.receive (h : sys.Synced) {client : ι} {sid : UInt32}
    (hstep : sys.receive client sid = some sys') : sys'.Synced := by
  unfold L2System.receive at hstep
  cases hin : sys.inbox client sid with
  | nil =>
    rw [hin] at hstep
    cases hstep
  | cons u us =>
    rw [hin] at hstep
    obtain rfl := Option.some.inj hstep
    refine ⟨h.tracked, h.marked, fun k c hc => ?_, fun c k ws hws => ?_⟩
    · -- what it will have received is the same
      refine Eq.subst (motive := fun v => Overlaid (sys.book k) v) ?_ (h.overlaid k c hc)
      unfold received
      dsimp only
      by_cases hat : c = client ∧ k = sid
      · obtain ⟨rfl, rfl⟩ := hat
        rw [Function.update_self, Function.update_self, Function.update_self, Function.update_self, hin,
          L2Book.updateAll_cons]
      · by_cases hc' : c = client
        · subst hc'
          have hk : k ≠ sid := fun e => hat ⟨rfl, e⟩
          rw [Function.update_self, Function.update_self, Function.update_of_ne hk,
            Function.update_of_ne hk]
        · rw [Function.update_of_ne hc', Function.update_of_ne hc']
    · dsimp only at hws ⊢
      by_cases hc' : c = client
      · subst hc'
        rw [Function.update_self] at hws ⊢
        by_cases hk : k = sid
        · subst hk
          rw [Function.update_self] at hws ⊢
          rw [← L2Book.updateAll_cons]
          refine h.clean c k (u :: ws) ?_
          rw [hin]
          exact List.cons_prefix_cons.mpr ⟨rfl, hws⟩
        · rw [Function.update_of_ne hk] at hws ⊢
          exact h.clean c k ws hws
      · rw [Function.update_of_ne hc'] at hws ⊢
        exact h.clean c k ws hws

theorem Synced.step (h : sys.Synced) {ev : L2Event ι} (hstep : sys.step ev = some sys') :
    sys'.Synced := by
  cases ev with
  | process =>
    unfold L2System.step at hstep
    cases hr : sys.unread with
    | nil =>
      rw [hr] at hstep
      cases hstep
    | cons r rs =>
      rw [hr] at hstep
      dsimp only at hstep
      cases hrun : sys.srv.processMarketUpdate r with
      | error f =>
        rw [hrun] at hstep
        cases hstep
      | ok srv =>
        rw [hrun] at hstep
        obtain rfl := Option.some.inj hstep
        exact h.process hr hrun
  | tick sid first second => exact h.tick (L2System.ticked hstep)
  | subscribe client sid =>
    obtain rfl := Option.some.inj hstep
    exact h.subscribe client sid
  | unsubscribe client sid =>
    obtain rfl := Option.some.inj hstep
    exact h.unsubscribe client sid
  | receive client sid => exact h.receive hstep

/-- Whatever the engine wrote, and in whatever order things happened. -/
theorem Reach.synced {K : OrderRequest → Prop} {cfgs : List Config} {e : MatchingEngine}
    {out : List Emission} (hj : MatchingEngine.Journal K cfgs e out)
    (h : Reach (out.map (·.resp)) sys) : sys.Synced := by
  induction h with
  | init => exact synced_init (fun sid => ⟨_, hj.streams sid⟩)
  | step _ hstep ih => exact ih.step hstep

/-- Events chosen as the system goes. -/
def play (sys : L2System ι) (moves : List (L2System ι → L2Event ι)) : Option (L2System ι) :=
  moves.foldlM (fun sys move => sys.step (move sys)) sys

theorem Reach.play {journal : List OrderResponse} (moves : List (L2System ι → L2Event ι)) :
    ∀ {sys sys' : L2System ι}, Reach journal sys → sys.play moves = some sys' → Reach journal sys' := by
  induction moves with
  | nil =>
    intro sys sys' h hp
    rw [← Option.some.inj hp]
    exact h
  | cons move moves ih =>
    intro sys sys' h hp
    unfold L2System.play at hp
    rw [List.foldlM_cons] at hp
    obtain ⟨sys₁, hstep, hp⟩ := Option.bind_eq_some_iff.mp hp
    exact ih (h.step hstep) hp

end Events

end L2System

/-! ## Overlays -/

/-- A client's quantity at a price, overwritten with what is pending; 0 is none. -/
def overlay (v : L2Book) (b : L3Book) (s : Slot) (p : Int) : Option Nat :=
  match (b.pendingL2 s).lookup p with
  | some q => if q = 0 then none else some q
  | none => (v.levels s).lookup p

/-- With what is pending laid over it, the view is the book. -/
theorem Overlaid.overlay_eq {b : L3Book} {v : L2Book} (h : Overlaid b v) (hm : Marked b)
    (hc : Coherent b) (s : Slot) (p : Int) : overlay v b s p = b.totalAt s p := by
  unfold overlay
  cases hl : (b.pendingL2 s).lookup p with
  | none => exact h s p hl
  | some q =>
    dsimp only
    rw [hm s p q hl, hc.total_eq]

section Claims

variable {ι : Type} [DecidableEq ι] {K : OrderRequest → Prop} {cfgs : List Config} {e : MatchingEngine}
  {out : List Emission} {sys : L2System ι}

/-- A subscriber that has applied what it was sent, overwritten with what is pending,
has the totals of the server's book; right after a batch it has them as it is. -/
theorem client_l2_view (h : MatchingEngine.Run K cfgs e out)
    (hs : L2System.Reach (out.map (·.resp)) sys) :
    (∀ sid, ∀ client ∈ sys.l2Clients sid, ∀ s p,
      overlay (sys.received client sid) (sys.book sid) s p = (sys.book sid).totalAt s p) ∧
    ∀ sid first second sys', sys.tick sid first second = some sys' →
      ∀ client ∈ sys'.l2Clients sid, ∀ s p,
        ((sys'.received client sid).levels s).lookup p = (sys'.book sid).totalAt s p := by
  have hsync := hs.synced h.journal
  refine ⟨fun sid client hc s p => ?_, fun sid first second sys' ht client hc s p => ?_⟩
  · obtain ⟨x, hshown⟩ := hsync.shown sid
    exact (hsync.overlaid sid client hc).overlay_eq (hsync.marked sid) hshown.coherent s p
  · exact hsync.ticked (L2System.ticked ht) hc s p

theorem L3Book.Uncrossed.best {b : L3Book} (h : b.Uncrossed) {p p' : Int}
    (hp : b.best .bid = some p) (hp' : b.best .ask = some p') : p < p' :=
  h p (AList.mem_keys.mpr (List.max?_mem hp)) p' (AList.mem_keys.mpr (List.min?_mem hp'))

theorem L2Book.Uncrossed.best {b : L2Book} (h : b.Uncrossed) {p p' : Int}
    (hp : b.best .bid = some p) (hp' : b.best .ask = some p') : p < p' :=
  h p (AList.mem_keys.mpr (List.max?_mem hp)) p' (AList.mem_keys.mpr (List.min?_mem hp'))

/-- Neither the server nor a client ever has a best bid that is not below its best ask:
not after any record, nor after any update a client applies. -/
theorem l2_never_crossed (h : MatchingEngine.Run K cfgs e out)
    (hs : L2System.Reach (out.map (·.resp)) sys) :
    (∀ sid p p', (sys.book sid).best .bid = some p → (sys.book sid).best .ask = some p' → p < p') ∧
    ∀ client sid p p', (sys.views client sid).best .bid = some p →
      (sys.views client sid).best .ask = some p' → p < p' := by
  have hsync := hs.synced h.journal
  refine ⟨fun sid p p' hp hp' => ?_, fun client sid p p' hp hp' => ?_⟩
  · obtain ⟨x, hshown⟩ := hsync.shown sid
    exact hshown.uncrossed.best hp hp'
  · exact L2Book.Uncrossed.best (hsync.clean client sid [] List.nil_prefix) hp hp'

end Claims

/-- A tick that walks the maps as they are. -/
def tickNow (sid : UInt32) (sys : L2System Nat) : L2Event Nat :=
  .tick sid (sys.book sid).pendingEntries (sys.book sid).pendingEntries

/-- A subscription in the middle of a match, ticks between records, and a client that
stops in the middle of a batch. -/
def sampleMoves : List (L2System Nat → L2Event Nat) :=
  List.replicate 6 (fun _ => .process) ++
    [fun _ => .subscribe 7 1, fun _ => .receive 7 1, fun _ => .receive 7 1, fun _ => .process,
      fun _ => .process, tickNow 1, fun _ => .receive 7 1, fun _ => .process, fun _ => .process,
      tickNow 1, fun _ => .subscribe 8 2, fun _ => .receive 7 1, fun _ => .process, fun _ => .process,
      fun _ => .process, tickNow 1, fun _ => .receive 7 1, fun _ => .receive 7 1]

/-- Where the moves lead: four records are unread, both clients have subscribed, and
one of them has an update of a batch still to apply. -/
def Sampled (sys : L2System Nat) : Prop :=
  sys.unread.length = 4 ∧ 7 ∈ sys.l2Clients 1 ∧ 8 ∈ sys.l2Clients 2 ∧ (sys.inbox 7 1).length = 1

instance (sys : L2System Nat) : Decidable (Sampled sys) :=
  inferInstanceAs (Decidable (_ ∧ _ ∧ _ ∧ _))

/-- The sample requests, read by a server with two subscribers. -/
theorem sample_l2 {P : L2System Nat → Prop}
    (h : ∀ {e : MatchingEngine} {out : List Emission} {sys : L2System Nat},
      MatchingEngine.Run Followable [sampleConfig, secondConfig] e out →
      L2System.Reach (out.map (·.resp)) sys → P sys) :
    ∃ sys : L2System Nat, Sampled sys ∧ P sys := by
  obtain ⟨e, out, hrun, hplay⟩ := MatchingEngine.Run.of_serve Followable [sampleConfig, secondConfig] id
    mirroredRequests (by unfold Followable; decide)
    (fun r => ((L2System.init (r.2.map fun x => x.resp)).play sampleMoves).any fun sys =>
      decide (Sampled sys)) (by decide +kernel)
  obtain ⟨sys, hsys, hfacts⟩ := (Option.any_eq_true ..).mp hplay
  exact ⟨sys, of_decide_eq_true hfacts, h hrun (.play _ .init hsys)⟩

theorem sample_l2_view : ∃ sys : L2System Nat, Sampled sys ∧
    ∀ sid, ∀ client ∈ sys.l2Clients sid, ∀ s p,
      overlay (sys.received client sid) (sys.book sid) s p = (sys.book sid).totalAt s p :=
  sample_l2 (fun hrun hreach => (client_l2_view hrun hreach).1)

theorem sample_l2_uncrossed : ∃ sys : L2System Nat, Sampled sys ∧
    ∀ client sid p p', (sys.views client sid).best .bid = some p →
      (sys.views client sid).best .ask = some p' → p < p' :=
  sample_l2 (fun hrun hreach => (l2_never_crossed hrun hreach).2)

end Exchange.MarketData
