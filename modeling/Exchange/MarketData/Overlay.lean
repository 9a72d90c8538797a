import Exchange.MarketData.L2
import Exchange.MarketData.Tracks

/-!
# What a level-2 subscriber sees

A client that has applied everything it was sent differs from the server's book
only where `pendingL2` says so (`Overlaid`), and there `pendingL2` says what the
server has (`Marked`). A record changes levels and marks them, a tick sends the
marks and forgets them, and a snapshot sends everything.

Removals go first. Until they are through, the client has no more levels than it
had; from then on it has none that the server has not. Neither is ever crossed,
so that no prefix of a batch is.
-/

namespace Exchange.MarketData

namespace L2Book

variable {b : L2Book} {s : Slot} {p : Int}

/-- Every bid is below every ask. -/
def Uncrossed (b : L2Book) : Prop :=
  ∀ p ∈ b.levels .bid, ∀ p' ∈ b.levels .ask, p < p'

theorem update_self (b : L2Book) {u : L2Update} (hu : u.side = s.side) :
    ((b.update u).levels s).lookup u.p = if u.q = 0 then none else some u.q := by
  have hside : u.side ≠ .none := by
    rw [hu]
    cases s <;> decide
  unfold update
  rw [if_neg hside, hu, L3Book.slotOf_side]
  split
  · dsimp only
    rw [Function.update_self, AList.lookup_erase]
  · dsimp only
    rw [Function.update_self, AList.lookup_insert]

theorem update_ne (b : L2Book) {s' : Slot} {u : L2Update} (hu : u.side = s'.side)
    (h : ¬ (u.side = s.side ∧ u.p = p)) :
    ((b.update u).levels s).lookup p = (b.levels s).lookup p := by
  have hside : u.side ≠ .none := by
    rw [hu]
    cases s' <;> decide
  unfold update
  rw [if_neg hside, hu, L3Book.slotOf_side]
  by_cases hs : s = s'
  · subst hs
    have hp : p ≠ u.p := fun e => h ⟨hu, e.symm⟩
    split
    · dsimp only
      rw [Function.update_self, AList.lookup_erase_ne hp]
    · dsimp only
      rw [Function.update_self, AList.lookup_insert_ne hp]
  · split
    · dsimp only
      rw [Function.update_of_ne hs]
    · dsimp only
      rw [Function.update_of_ne hs]

theorem updateAll_cons (b : L2Book) (u : L2Update) (us : List L2Update) :
    b.updateAll (u :: us) = (b.update u).updateAll us := rfl

theorem updateAll_append (b : L2Book) (us us' : List L2Update) :
    b.updateAll (us ++ us') = (b.updateAll us).updateAll us' :=
  List.foldl_append ..

/-- Updates about other levels leave a level alone. -/
theorem updateAll_other (us : List L2Update) : ∀ {b : L2Book},
    (∀ u ∈ us, (∃ s' : Slot, u.side = s'.side) ∧ ¬ (u.side = s.side ∧ u.p = p)) →
      ((b.updateAll us).levels s).lookup p = (b.levels s).lookup p := by
  induction us with
  | nil => exact fun _ => rfl
  | cons u us ih =>
    intro b h
    obtain ⟨⟨s', hu⟩, hne⟩ := h u List.mem_cons_self
    rw [updateAll_cons, ih (fun v hv => h v (List.mem_cons_of_mem _ hv)), b.update_ne hu hne]

/-- Updates that agree about a level, one of them at least, set it. -/
theorem updateAll_about (us : List L2Update) {q : Nat} : ∀ {b : L2Book},
    (∀ u ∈ us, ∃ s' : Slot, u.side = s'.side) →
      (∀ u ∈ us, u.side = s.side → u.p = p → u.q = q) → (∃ u ∈ us, u.side = s.side ∧ u.p = p) →
      ((b.updateAll us).levels s).lookup p = if q = 0 then none else some q := by
  induction us with
  | nil =>
    intro b _ _ hex
    obtain ⟨u, hu, -⟩ := hex
    cases hu
  | cons u us ih =>
    intro b hsides hq hex
    have hsides' : ∀ v ∈ us, ∃ s' : Slot, v.side = s'.side :=
      fun v hv => hsides v (List.mem_cons_of_mem _ hv)
    rw [updateAll_cons]
    by_cases hlater : ∃ v ∈ us, v.side = s.side ∧ v.p = p
    · exact ih hsides' (fun v hv => hq v (List.mem_cons_of_mem _ hv)) hlater
    · -- nothing later is about this level, so that the first one is
      obtain ⟨v, hv, hvs, hvp⟩ := hex
      rcases List.mem_cons.mp hv with rfl | hv
      · rw [updateAll_other us (fun w hw => ⟨hsides' w hw, fun hat => hlater ⟨w, hw, hat⟩⟩), ← hvp,
          b.update_self hvs, hq v List.mem_cons_self hvs hvp]
      · exact absurd ⟨v, hv, hvs, hvp⟩ hlater

/-- A book with levels of an uncrossed book only. -/
theorem Uncrossed.of_subset {b : L2Book} {M : Slot → Int → Prop}
    (h : ∀ p, M .bid p → ∀ p', M .ask p' → p < p') (hsub : ∀ s p, p ∈ b.levels s → M s p) :
    b.Uncrossed :=
  fun p hp p' hp' => h p (hsub _ _ hp) p' (hsub _ _ hp')

theorem uncrossed_empty : empty.Uncrossed := fun _ hp => absurd hp (AList.notMem_empty _)

/-- Removals leave no crossing that was not there. -/
theorem Uncrossed.removals (h : b.Uncrossed) {us : List L2Update}
    (hus : ∀ u ∈ us, (∃ s : Slot, u.side = s.side) ∧ u.q = 0) : (b.updateAll us).Uncrossed := by
  refine Uncrossed.of_subset (M := fun s p => p ∈ b.levels s) h (fun s p hp => ?_)
  rw [← AList.lookup_isSome] at hp ⊢
  by_cases hat : ∃ u ∈ us, u.side = s.side ∧ u.p = p
  · rw [updateAll_about us (q := 0) (fun u hu => (hus u hu).1) (fun u hu _ _ => (hus u hu).2) hat] at hp
    cases hp
  · rwa [updateAll_other us (fun u hu => ⟨(hus u hu).1, fun hat' => hat ⟨u, hu, hat'⟩⟩)] at hp

end L2Book

/-! ## Marks -/

section Marks

variable {b b' : L3Book} {v : L2Book}

/-- Every mark is the total the level has, zero for a level that is gone. -/
def Marked (b : L3Book) : Prop :=
  ∀ s p q, (b.pendingL2 s).lookup p = some q → q = (b.totalAt s p).getD 0

/-- Where nothing is marked the client has what the server has. -/
def Overlaid (b : L3Book) (v : L2Book) : Prop :=
  ∀ s p, (b.pendingL2 s).lookup p = none → (v.levels s).lookup p = b.totalAt s p

/-- Where each change is noticed, what is marked stays so, -/
theorem Marked.noticed (h : Marked b) (hn : Noticed b b') : Marked b' := by
  intro s p q hq
  rcases hn s p with ⟨hl, hp⟩ | hmark
  · unfold L3Book.totalAt
    rw [hl]
    exact h s p q (hp.symm.trans hq)
  · exact Option.some.inj (hq.symm.trans hmark)

/-- and what was overlaid shows the new book. -/
theorem Overlaid.noticed (h : Overlaid b v) (hn : Noticed b b') : Overlaid b' v := by
  intro s p hnone
  rcases hn s p with ⟨hl, hp⟩ | hmark
  · unfold L3Book.totalAt
    rw [hl]
    exact h s p (hp.symm.trans hnone)
  · rw [hmark] at hnone
    cases hnone

/-- A level of a coherent book has something in it. -/
theorem Coherent.total_pos (h : Coherent b) {s : Slot} {p : Int} {t : Nat}
    (ht : b.totalAt s p = some t) : 0 < t := by
  obtain ⟨l, hl, rfl⟩ := Option.map_eq_some_iff.mp ht
  have hok := h.level hl
  obtain ⟨n, ns, hq⟩ := List.exists_cons_of_ne_nil hok.full
  obtain ⟨x, hx, -⟩ := hok.owner n (hq ▸ List.mem_cons_self)
  have hpos := h.pos hx
  rw [hok.total, hq, List.map_cons, List.sum_cons, L3Book.weight_of hx]
  omega

/-- What is said of a level by its total, zero meaning none, is the level. -/
theorem Coherent.total_eq (h : Coherent b) (s : Slot) (p : Int) :
    (if (b.totalAt s p).getD 0 = 0 then none else some ((b.totalAt s p).getD 0)) = b.totalAt s p := by
  cases ht : b.totalAt s p with
  | none => rfl
  | some t =>
    have hpos := h.total_pos ht
    rw [Option.getD_some, if_neg (by omega)]

/-- A level with a total is there. -/
theorem mem_of_totalAt {s : Slot} {p : Int} (h : b.totalAt s p ≠ none) : p ∈ b.levels s := by
  rw [← AList.lookup_isSome]
  cases hl : (b.levels s).lookup p with
  | some _ => rfl
  | none =>
    unfold L3Book.totalAt at h
    rw [hl] at h
    exact absurd rfl h

/-- The pending entries are those of the map. -/
theorem mem_pendingEntries {s : Slot} {e : Int × Nat} :
    e ∈ b.pendingEntries s ↔ (b.pendingL2 s).lookup e.1 = some e.2 := by
  unfold L3Book.pendingEntries
  rw [List.mem_map, ← Option.mem_def, AList.mem_lookup_iff]
  constructor
  · rintro ⟨x, hx, rfl⟩
    exact hx
  · intro hx
    exact ⟨⟨e.1, e.2⟩, hx, rfl⟩

end Marks

/-! ## Batches -/

section Batches

variable {b : L3Book} {first second : Slot → List (Int × Nat)}

/-- Orders in which the maps can be walked. -/
def Walks (b : L3Book) (first : Slot → List (Int × Nat)) : Prop :=
  ∀ s, (first s).Perm (b.pendingEntries s)

/-- What one pass sends: its side's entries that are removals, or are not. -/
theorem mem_l2Pass {removals : Bool} {s : Slot} {es : List (Int × Nat)} {u : L2Update} :
    u ∈ l2Pass removals s es ↔ u.side = s.side ∧ (u.p, u.q) ∈ es ∧ decide (u.q = 0) = removals := by
  unfold l2Pass
  rw [List.mem_map]
  constructor
  · rintro ⟨e, he, rfl⟩
    obtain ⟨he, hz⟩ := List.mem_filter.mp he
    exact ⟨rfl, he, by simpa using hz⟩
  · rintro ⟨hs, he, hz⟩
    refine ⟨(u.p, u.q), List.mem_filter.mpr ⟨he, by simpa using hz⟩, ?_⟩
    rw [← hs]

/-- Both sides of one pass. -/
def bothSides (removals : Bool) (es : Slot → List (Int × Nat)) : List L2Update :=
  l2Pass removals .bid (es .bid) ++ l2Pass removals .ask (es .ask)

/-- The updates of one pass are the marks it is for. -/
theorem mem_bothSides (hw : Walks b first) {removals : Bool} {u : L2Update} :
    u ∈ bothSides removals first ↔ ∃ s : Slot, u.side = s.side ∧
      (b.pendingL2 s).lookup u.p = some u.q ∧ decide (u.q = 0) = removals := by
  have hmem : ∀ s, (u.p, u.q) ∈ first s ↔ (b.pendingL2 s).lookup u.p = some u.q :=
    fun s => (hw s).mem_iff.trans mem_pendingEntries
  unfold bothSides
  rw [List.mem_append, mem_l2Pass, mem_l2Pass, hmem, hmem]
  constructor
  · rintro (h | h)
    · exact ⟨.bid, h⟩
    · exact ⟨.ask, h⟩
  · rintro ⟨s, h⟩
    cases s
    · exact Or.inl h
    · exact Or.inr h

/-- What part of a batch says is what the server has. -/
theorem Marked.says (hm : Marked b) (hw : Walks b first) (hw' : Walks b second) {us : List L2Update}
    (hus : ∀ u ∈ us, u ∈ bothSides true first ∨ u ∈ bothSides false second) :
    (∀ u ∈ us, ∃ s' : Slot, u.side = s'.side) ∧
      ∀ {s p}, ∀ u ∈ us, u.side = s.side → u.p = p → u.q = (b.totalAt s p).getD 0 := by
  have hmark : ∀ u ∈ us, ∃ s' : Slot, u.side = s'.side ∧ (b.pendingL2 s').lookup u.p = some u.q := by
    intro u hu
    rcases hus u hu with hu | hu
    · obtain ⟨s', hs', hl, -⟩ := (mem_bothSides hw).mp hu
      exact ⟨s', hs', hl⟩
    · obtain ⟨s', hs', hl, -⟩ := (mem_bothSides hw').mp hu
      exact ⟨s', hs', hl⟩
  refine ⟨fun u hu => ?_, fun {s p} u hu hs hp => ?_⟩
  · obtain ⟨s', hs', -⟩ := hmark u hu
    exact ⟨s', hs'⟩
  · obtain ⟨s', hs', hl⟩ := hmark u hu
    obtain rfl := Slot.side_inj (hs'.symm.trans hs)
    rw [← hp]
    exact hm _ _ _ hl

/-- A client that has applied a batch has the server's book. -/
theorem Overlaid.batch {v : L2Book} (h : Overlaid b v) (hc : Coherent b) (hm : Marked b)
    (hw : Walks b first) (hw' : Walks b second) (s : Slot) (p : Int) :
    ((v.updateAll (extractPendingL2Updates first second)).levels s).lookup p = b.totalAt s p := by
  have hus : ∀ u ∈ extractPendingL2Updates first second,
      u ∈ bothSides true first ∨ u ∈ bothSides false second := fun u hu => List.mem_append.mp hu
  obtain ⟨hsides, hsays⟩ := hm.says hw hw' hus
  cases hl : (b.pendingL2 s).lookup p with
  | some q =>
    -- a marked level is in the first pass or in the second
    have hex : ∃ u ∈ extractPendingL2Updates first second, u.side = s.side ∧ u.p = p := by
      refine ⟨⟨s.side, p, q⟩, List.mem_append.mpr ?_, rfl, rfl⟩
      by_cases hz : q = 0
      · exact Or.inl ((mem_bothSides hw).mpr ⟨s, rfl, hl, by simpa using hz⟩)
      · exact Or.inr ((mem_bothSides hw').mpr ⟨s, rfl, hl, by simpa using hz⟩)
    rw [L2Book.updateAll_about _ hsides hsays hex, hc.total_eq]
  | none =>
    refine (L2Book.updateAll_other _ (fun u hu => ⟨hsides u hu, fun hat => ?_⟩)).trans (h s p hl)
    have hmark : ∃ s' : Slot, u.side = s'.side ∧ (b.pendingL2 s').lookup u.p = some u.q := by
      rcases hus u hu with hu | hu
      · obtain ⟨s', hs', hq, -⟩ := (mem_bothSides hw).mp hu
        exact ⟨s', hs', hq⟩
      · obtain ⟨s', hs', hq, -⟩ := (mem_bothSides hw').mp hu
        exact ⟨s', hs', hq⟩
    obtain ⟨s', hs', hq⟩ := hmark
    obtain rfl := Slot.side_inj (hs'.symm.trans hat.1)
    rw [hat.2, hl] at hq
    cases hq

/-- No prefix of a batch leaves a client crossed. -/
theorem Overlaid.batch_uncrossed {v : L2Book} (h : Overlaid b v) (hm : Marked b) (hb : b.Uncrossed)
    (hv : v.Uncrossed) (hw : Walks b first) (hw' : Walks b second) {us : List L2Update}
    (hus : us <+: extractPendingL2Updates first second) : (v.updateAll us).Uncrossed := by
  rcases List.prefix_or_prefix_of_prefix hus (List.prefix_append (bothSides true first) _) with hin | hin
  · -- still in the first pass: only removals so far
    refine hv.removals (fun u hu => ?_)
    obtain ⟨s, hs, -, hz⟩ := (mem_bothSides hw).mp (hin.subset hu)
    exact ⟨⟨s, hs⟩, by simpa using hz⟩
  · -- in the second pass every level the client has is one of the server's
    have hmem : ∀ u ∈ us, u ∈ bothSides true first ∨ u ∈ bothSides false second :=
      fun u hu => List.mem_append.mp (hus.subset hu)
    obtain ⟨hsides, hsays⟩ := hm.says hw hw' hmem
    refine L2Book.Uncrossed.of_subset (M := fun s p => p ∈ b.levels s) hb (fun s p hp => ?_)
    refine mem_of_totalAt (fun hnone => ?_)
    rw [← AList.lookup_isSome] at hp
    by_cases hat : ∃ u ∈ us, u.side = s.side ∧ u.p = p
    · rw [L2Book.updateAll_about us hsides hsays hat, hnone] at hp
      cases hp
    · rw [L2Book.updateAll_other us (fun u hu => ⟨hsides u hu, fun ha => hat ⟨u, hu, ha⟩⟩)] at hp
      cases hl : (b.pendingL2 s).lookup p with
      | none =>
        rw [h s p hl, hnone] at hp
        cases hp
      | some q =>
        -- a level that is gone was removed in the first pass
        have hz : q = 0 := by
          rw [hm s p q hl, hnone]
          rfl
        refine hat ⟨⟨s.side, p, q⟩, hin.subset ((mem_bothSides hw).mpr ⟨s, rfl, hl, ?_⟩), rfl, rfl⟩
        simpa using hz

end Batches

/-! ## Snapshots -/

section Snapshots

variable {b : L3Book}

/-- After the update that clears, a snapshot quotes each level once. -/
theorem l2Snapshot_eq (b : L3Book) : ∃ quotes, b.l2Snapshot = ⟨.none, 0, 0⟩ :: quotes ∧
    ∀ u, u ∈ quotes ↔ ∃ s, ∃ p ∈ b.levels s, u = b.quote s p := by
  refine ⟨((b.prices .bid).take 1).map (b.quote .bid) ++ ((b.prices .ask).take 1).map (b.quote .ask) ++
    ((b.prices .bid).drop 1).map (b.quote .bid) ++ ((b.prices .ask).drop 1).map (b.quote .ask),
    rfl, fun u => ?_⟩
  have hside : ∀ s, (u ∈ ((b.prices s).take 1).map (b.quote s) ∨
      u ∈ ((b.prices s).drop 1).map (b.quote s)) ↔ ∃ p ∈ b.levels s, u = b.quote s p := by
    intro s
    rw [← List.mem_append, ← List.map_append, List.take_append_drop, List.mem_map]
    constructor
    · rintro ⟨p, hp, rfl⟩
      exact ⟨p, mem_prices.mp hp, rfl⟩
    · rintro ⟨p, hp, rfl⟩
      exact ⟨p, mem_prices.mpr hp, rfl⟩
  rw [List.mem_append, List.mem_append, List.mem_append]
  constructor
  · rintro (((h | h) | h) | h)
    · exact ⟨.bid, (hside .bid).mp (Or.inl h)⟩
    · exact ⟨.ask, (hside .ask).mp (Or.inl h)⟩
    · exact ⟨.bid, (hside .bid).mp (Or.inr h)⟩
    · exact ⟨.ask, (hside .ask).mp (Or.inr h)⟩
  · rintro ⟨s, h⟩
    cases s
    · rcases (hside .bid).mpr h with h | h
      · exact Or.inl (Or.inl (Or.inl h))
      · exact Or.inl (Or.inr h)
    · rcases (hside .ask).mpr h with h | h
      · exact Or.inl (Or.inl (Or.inr h))
      · exact Or.inr h

/-- What part of a snapshot says is what the server has. -/
theorem quotes_say (us : List L2Update) (hus : ∀ u ∈ us, ∃ s, ∃ p ∈ b.levels s, u = b.quote s p) :
    (∀ u ∈ us, ∃ s' : Slot, u.side = s'.side) ∧
      ∀ {s p}, ∀ u ∈ us, u.side = s.side → u.p = p → u.q = (b.totalAt s p).getD 0 := by
  refine ⟨fun u hu => ?_, fun {s p} u hu hs hp => ?_⟩
  · obtain ⟨s, p, -, rfl⟩ := hus u hu
    exact ⟨s, rfl⟩
  · obtain ⟨s', p', hp', rfl⟩ := hus u hu
    obtain rfl := Slot.side_inj hs
    obtain rfl : p' = p := hp
    unfold L3Book.quote L3Book.level L3Book.totalAt
    cases hl : (b.levels s').lookup p' with
    | some l => rfl
    | none =>
      rw [← AList.lookup_isSome, hl] at hp'
      cases hp'

/-- A client that has applied a snapshot has the server's book. -/
theorem Coherent.snapshot (hc : Coherent b) (v : L2Book) (s : Slot) (p : Int) :
    ((v.updateAll b.l2Snapshot).levels s).lookup p = b.totalAt s p := by
  obtain ⟨quotes, hq, hmem⟩ := l2Snapshot_eq b
  have hclear : v.update ⟨.none, 0, 0⟩ = .empty := if_pos rfl
  obtain ⟨hsides, hsays⟩ := quotes_say quotes (fun u hu => (hmem u).mp hu)
  rw [hq, L2Book.updateAll_cons, hclear]
  by_cases hp : p ∈ b.levels s
  · have hex : ∃ u ∈ quotes, u.side = s.side ∧ u.p = p :=
      ⟨b.quote s p, (hmem _).mpr ⟨s, p, hp, rfl⟩, rfl, rfl⟩
    rw [L2Book.updateAll_about _ hsides hsays hex, hc.total_eq]
  · have hnone : b.totalAt s p = none := by
      by_contra hne
      exact hp (mem_of_totalAt hne)
    rw [hnone]
    refine (L2Book.updateAll_other _ (fun u hu => ⟨hsides u hu, fun hat => ?_⟩)).trans rfl
    obtain ⟨s', p', hp', rfl⟩ := (hmem u).mp hu
    obtain rfl := Slot.side_inj hat.1
    exact hp (hat.2 ▸ hp')

/-- No prefix of a snapshot leaves a client crossed. -/
theorem snapshot_uncrossed {v : L2Book} (hb : b.Uncrossed) (hv : v.Uncrossed) {us : List L2Update}
    (hus : us <+: b.l2Snapshot) : (v.updateAll us).Uncrossed := by
  obtain ⟨quotes, hq, hmem⟩ := l2Snapshot_eq b
  have hclear : v.update ⟨.none, 0, 0⟩ = .empty := if_pos rfl
  rw [hq] at hus
  cases us with
  | nil => exact hv
  | cons u us =>
    obtain ⟨rfl, hquotes⟩ := List.cons_prefix_cons.mp hus
    have hmem' : ∀ u ∈ us, ∃ s, ∃ p ∈ b.levels s, u = b.quote s p :=
      fun u hu => (hmem u).mp (hquotes.subset hu)
    obtain ⟨hsides, hsays⟩ := quotes_say _ hmem'
    rw [L2Book.updateAll_cons, hclear]
    refine L2Book.Uncrossed.of_subset (M := fun s p => p ∈ b.levels s) hb (fun s p hp => ?_)
    refine mem_of_totalAt (fun hnone => ?_)
    rw [← AList.lookup_isSome] at hp
    by_cases hat : ∃ u ∈ us, u.side = s.side ∧ u.p = p
    · rw [L2Book.updateAll_about us hsides hsays hat, hnone] at hp
      cases hp
    · rw [L2Book.updateAll_other us (fun u hu => ⟨hsides u hu, fun ha => hat ⟨u, hu, ha⟩⟩)] at hp
      cases hp

end Snapshots

end Exchange.MarketData
