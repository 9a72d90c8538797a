import Exchange.Pool.Accounts

/-!
# The capacity an attacher passes

`capacity_` is overridden by that of the header, but the length of the mapping and the `m_capacity` of
the ring are computed from what the attacher passed. They make no difference as long as all elements lie
in the pages mapped and the ring is taken for no smaller than it is (`attached_iff`).

A ring taken for smaller is met with at the latest when `prod_head` comes to where the attacher believes
the end to be: it refuses an index, which is lost (`enqueue_beyond`), or it marks a wrap that is none
(`enqueue_early`).
-/

namespace Exchange.Pool

open Lib Exchange.Ring

/-- The creator's object, and that of the other processes. -/
def objects (creator obj : Mempool) (who : Nat) : Mempool := if who = 0 then creator else obj

/-- Whatever is called through either object, it ends as if the other one were `ref`. -/
def ActsAs (L : Layout) (s : Segment) (creator obj ref : Mempool) : Prop :=
  ∀ calls, ∃ st results, run (objects creator obj) L ⟨s, []⟩ calls = .ok (st, results) ∧
    run (objects creator ref) L ⟨s, []⟩ calls = .ok (st, results)

section Runs

variable {L : Layout} {objs : Nat → Mempool} {st st' : State} {results : List Result}

/-- Two lists of calls, one after another. -/
theorem run_append (xs ys : List (Nat × Call)) :
    run objs L st (xs ++ ys) = (do
      let (st, results) ← run objs L st xs
      let (st, results') ← run objs L st ys
      .ok (st, results ++ results')) := by
  induction xs generalizing st with
  | nil =>
    show run objs L st ys = (run objs L st ys).bind _
    cases run objs L st ys <;> rfl
  | cons x xs ih =>
    obtain ⟨who, c⟩ := x
    rw [List.cons_append, run, run]
    cases (objs who).call L st c with
    | error e => rfl
    | ok done =>
      show (run objs L done.1 (xs ++ ys)).bind _ = ((run objs L done.1 xs).bind _).bind _
      rw [ih]
      cases run objs L done.1 xs with
      | error e => rfl
      | ok first =>
        show ((run objs L first.1 ys).bind _).bind _ = (run objs L first.1 ys).bind _
        cases run objs L first.1 ys <;> rfl

/-- One more call. -/
theorem run_snoc {xs : List (Nat × Call)} (hrun : run objs L st xs = .ok (st', results)) (who : Nat)
    (c : Call) : run objs L st (xs ++ [(who, c)]) = (do
      let (st, result) ← (objs who).call L st' c
      .ok (st, results ++ [result])) := by
  rw [run_append, hrun]
  show (run objs L st' [(who, c)]).bind _ = _
  rw [run]
  cases (objs who).call L st' c <;> rfl

end Runs

/-! ## A ring taken for smaller than it is -/

section Smaller

variable {k h p : Nat} {r : SHMRing}

/-- Behind the end it believes in, `reserve` takes the distance to it for very long; it refuses what is
more than the capacity it believes in. -/
theorem enqueue_beyond (hc : Counted k r h p p) (hlow : 8 ≤ r.capacity) (hbeyond : r.capacity < slotAt k p)
    (hfull : r.capacity < 8 * (p + 1 - h)) (v : Nat) : enqueue r v = .ok (r, false) := by
  have hwithin := slotAt_within hc.low p
  have hpow : 2 ^ k ≤ 2 ^ 63 := Nat.pow_le_pow_right (by omega) hc.high
  have hrequired : add64 4 4 = 8 := rfl
  have hspace : ¬ sub64 r.capacity (slotAt k p) < 8 := by
    unfold sub64
    omega
  have hclaim : r.claim 4 = none := by
    unfold SHMRing.claim
    rw [if_neg (by decide)]
    dsimp only
    rw [hrequired, if_neg (by omega), hc.offset]
    simp only [decide_eq_false hspace, Bool.false_eq_true, if_false, hc.next, hc.flight]
    rw [if_pos hfull]
  unfold enqueue
  rw [hclaim]

/-- At the end it believes in, `reserve` marks a wrap and puts the record at the start. -/
theorem enqueue_early (hc : Counted k r h p p) (hlow : 8 ≤ r.capacity) (hat : slotAt k p = r.capacity)
    (hroom : 8 * (p + 1 - h) ≤ r.capacity) (v : Nat) :
    ∃ r', enqueue r v = .ok (r', true) ∧ r'.data.load32 r.capacity = wrapMarker := by
  have hwithin := slotAt_within hc.low p
  have hpow : 2 ^ k ≤ 2 ^ 63 := Nat.pow_le_pow_right (by omega) hc.high
  have hrequired : add64 4 4 = 8 := rfl
  have hspace : sub64 r.capacity r.capacity = 0 := by
    unfold sub64
    omega
  have hnew : add64 (add64 r.prodHead 0) 8 = 8 * (p + 1) % 2 ^ 64 := by
    rw [hc.prod, add64_count, add64_count, Nat.add_zero, Nat.mul_succ]
  -- the slot is at the very end of the ring, so there is no room before the end and the claim wraps
  have hclaim : r.claim 4 = some ({ r with prodHead := 8 * (p + 1) % 2 ^ 64 },
      ⟨4, 8 * p % 2 ^ 64, 8 * (p + 1) % 2 ^ 64, r.capacity, true⟩) := by
    unfold SHMRing.claim
    rw [if_neg (by decide)]
    dsimp only
    rw [hrequired, if_neg (by omega), hc.offset, hat, hspace]
    simp only [decide_eq_true (show 0 < 8 by decide), if_true, hnew, hc.flight]
    rw [if_neg (by omega), hc.prod]
  -- the marker is stored behind the ring, and nothing is stored over it
  have hmarked : SameOn (((r.data.store32 r.capacity wrapMarker).store32 0 4).store32 4 v)
      (r.data.store32 r.capacity wrapMarker) r.capacity (r.capacity + 4) :=
    (SameOn.store32 _ _ (Or.inr (by omega))).trans (SameOn.store32 _ _ (Or.inr (by omega)))
  refine ⟨{ r with
    prodHead := 8 * (p + 1) % 2 ^ 64
    prodTail := 8 * (p + 1) % 2 ^ 64
    data := ((r.data.store32 r.capacity wrapMarker).store32 0 4).store32 4 v }, ?_, ?_⟩
  · have hstore : ∀ (r' : SHMRing) (off w : Nat), r'.capacity = r.capacity → off ≤ r.capacity →
        r'.store32 off w = .ok { r' with data := r'.data.store32 off w } := by
      intro r' off w hcap hoff
      unfold SHMRing.store32 SHMRing.area
      rw [if_pos (by omega)]
    have hprepare : SHMRing.prepare { r with prodHead := 8 * (p + 1) % 2 ^ 64 }
        ⟨4, 8 * p % 2 ^ 64, 8 * (p + 1) % 2 ^ 64, r.capacity, true⟩ = .ok { r with
          prodHead := 8 * (p + 1) % 2 ^ 64
          data := (r.data.store32 r.capacity wrapMarker).store32 0 4 } := by
      show (SHMRing.store32 { r with prodHead := 8 * (p + 1) % 2 ^ 64 } r.capacity wrapMarker).bind
        (fun r => r.store32 0 4) = _
      rw [hstore { r with prodHead := 8 * (p + 1) % 2 ^ 64 } _ _ rfl (Nat.le_refl _)]
      exact hstore { r with
        prodHead := 8 * (p + 1) % 2 ^ 64
        data := r.data.store32 r.capacity wrapMarker } 0 4 rfl (Nat.zero_le _)
    have hpayload := hstore { r with
      prodHead := 8 * (p + 1) % 2 ^ 64
      data := (r.data.store32 r.capacity wrapMarker).store32 0 4 } 4 v rfl (by omega)
    unfold enqueue
    rw [hclaim]
    dsimp only
    rw [hprepare]
    show (ofRing (SHMRing.store32 _ 4 v)).bind _ = _
    rw [hpayload]
    simp only [ofRing, Except.mapError, Except.bind, SHMRing.commit, hc.tail, if_true]
  · show Bytes.load32 _ r.capacity = wrapMarker
    rw [hmarked.load32_eq (Nat.le_refl _) (Nat.le_refl _)]
    exact Bytes.load32_store32 _ _ (by decide)

end Smaller

/-! ## What is needed -/

section Needed

variable {L : Layout} {capacity k h : Nat} {s : Segment} {creator obj : Mempool} {st st' : State}
  {log used : List Nat}

/-- What calls of the creator's object make of a pool. -/
def Reached (L : Layout) (s : Segment) (creator : Mempool) (st : State) : Prop :=
  ∃ calls results, run (objects creator creator) L ⟨s, []⟩ calls = .ok (st, results)

theorem Reached.call (h : Reached L s creator st) {c : Call} {result : Result}
    (hcall : creator.call L st c = .ok (st', result)) : Reached L s creator st' := by
  obtain ⟨calls, results, hrun⟩ := h
  refine ⟨calls ++ [(1, c)], results ++ [result], ?_⟩
  rw [run_snoc hrun]
  show (creator.call L st c).bind _ = _
  rw [hcall]
  rfl

/-- What the creator's object does there, the attacher's does too. -/
theorem ActsAs.call (hp : ActsAs L s creator obj creator) (h : Reached L s creator st) {c : Call}
    {result : Result} (hcall : creator.call L st c = .ok (st', result)) :
    obj.call L st c = .ok (st', result) := by
  obtain ⟨calls, results, hrun⟩ := h
  obtain ⟨st₁, results₁, hobj, hcreator⟩ := hp calls
  obtain ⟨rfl, rfl⟩ := Prod.mk.inj (Except.ok.inj (hrun.symm.trans hcreator))
  obtain ⟨st₂, results₂, hobj', hcreator'⟩ := hp (calls ++ [(1, c)])
  rw [run_snoc hobj] at hobj'
  rw [run_snoc hrun] at hcreator'
  change (obj.call L st c).bind _ = _ at hobj'
  change (creator.call L st c).bind _ = _ at hcreator'
  rw [hcall] at hcreator'
  cases hc : obj.call L st c with
  | error e =>
    rw [hc] at hobj'
    cases hobj'
  | ok done =>
    rw [hc] at hobj'
    obtain ⟨hst, hresult⟩ := Prod.mk.inj (Except.ok.inj (hobj'.trans hcreator'.symm))
    have hlast := List.append_cancel_left hresult
    exact congrArg Except.ok (Prod.ext hst (List.cons.inj hlast).1)

/-- A `deallocate` that gets its index into the ring. -/
theorem call_deallocate_ok {m : Mempool} {i v : Nat} {ptr : Int} (hget : st.allocated[i]? = some ptr)
    (hindex : m.getIndex L ptr = some v)
    (hcall : m.call L st (.deallocate i) = .ok (st', .enqueued (some true))) :
    ∃ r, enqueue (m.view st.segment) v = .ok (r, true) ∧ st'.segment.ring.data = r.data := by
  rw [Mempool.call, hget] at hcall
  dsimp only at hcall
  rw [Mempool.deallocate, hindex] at hcall
  dsimp only at hcall
  cases helement : m.element L v with
  | error e =>
    rw [helement] at hcall
    cases hcall
  | ok ptr =>
    cases henqueue : enqueue (m.view st.segment) v with
    | error e =>
      rw [helement, henqueue] at hcall
      cases hcall
    | ok done =>
      rw [helement, henqueue] at hcall
      obtain ⟨hst, hresult⟩ := Prod.mk.inj (Except.ok.inj hcall)
      have hdone : done.2 = true := Option.some.inj (Result.enqueued.inj hresult)
      refine ⟨done.1, congrArg Except.ok (Prod.ext rfl hdone), ?_⟩
      rw [← hst]
      rfl

/-- After `j` times `allocate` and `deallocate`. -/
theorem Created.cycles (hm : Created L capacity k creator s) (hpos : 0 < capacity) (j : Nat) :
    ∃ st log, Reached L s creator st ∧ Accounts L capacity k st j log [] ∧ log.length = capacity + j := by
  induction j with
  | zero => exact ⟨⟨s, []⟩, List.range capacity, ⟨[], [], rfl⟩, hm.accounts, List.length_range⟩
  | succ j ih =>
    obtain ⟨st, log, hreached, ha, hlen⟩ := ih
    obtain ⟨v, st₁, -, ha₁, hcall₁⟩ := ha.call_allocate (by omega)
    obtain ⟨st₂, -, ha₂, hcall₂⟩ := ha₁.call_deallocate hm.geometry (i := 0) rfl
    refine ⟨st₂, log ++ [v], ?_, ha₂, ?_⟩
    · exact (hreached.call (hcall₁ _ hm.serves)).call (hcall₂ _ hm.serves)
    · rw [List.length_append, List.length_singleton]
      omega

/-- After `i` times `allocate`. -/
theorem Created.allocations (hm : Created L capacity k creator s) {i : Nat} (hi : i ≤ capacity) :
    ∃ st used, Reached L s creator st ∧ Accounts L capacity k st i (List.range capacity) used := by
  induction i with
  | zero => exact ⟨⟨s, []⟩, [], ⟨[], [], rfl⟩, hm.accounts⟩
  | succ i ih =>
    obtain ⟨st, used, hreached, ha⟩ := ih (Nat.le_of_succ_le hi)
    obtain ⟨v, st₁, -, ha₁, hcall₁⟩ := ha.call_allocate (by rw [List.length_range]; exact hi)
    exact ⟨st₁, used ++ [v], hreached.call (hcall₁ _ hm.serves), ha₁⟩

/-- The ring of the attacher is no smaller. -/
theorem ActsAs.ring (hm : Created L capacity k creator s) (hp : ActsAs L s creator obj creator)
    (hknows : obj.capacity = capacity) {j : Nat} (hj : 10 ≤ j) (hring : obj.ringCapacity = 2 ^ j) :
    k ≤ j := by
  refine Nat.le_of_not_lt (fun hlt => ?_)
  have hpow : 2 ^ (j + 1) ≤ 2 ^ k := Nat.pow_le_pow_right (by decide) hlt
  have hlow : 2 ^ 10 ≤ 2 ^ j := Nat.pow_le_pow_right (by decide) hj
  rw [Nat.pow_succ] at hpow
  have height := two_pow_slots (show 3 ≤ j by omega)
  obtain ⟨k', -, -, hk', -, hfirst⟩ := ringSize_some hm.size
  obtain rfl := Nat.pow_right_injective (Nat.le_refl 2) hk'
  have hcapacity : 2 ^ k < 32 * (capacity + 1) := by
    have hsmall := hm.geometry.small
    unfold minRingSize at hfirst
    omega
  have hroom := hm.geometry.room
  -- `prod_head` is brought to where the attacher believes the end to be, if it is not behind it
  obtain ⟨st, log, hreached, ha, hlen⟩ := hm.cycles (by omega) (2 ^ j / 8 - capacity)
  obtain ⟨v, st₁, -, ha₁, hcall₁⟩ := ha.call_allocate (by omega)
  obtain ⟨st₂, hpushed, -, hcall₂⟩ := ha₁.call_deallocate hm.geometry (i := 0) rfl
  have hv : v < capacity := ha₁.lt (List.mem_append_right _ (List.mem_singleton.mpr rfl))
  have hget : st₁.allocated[0]? = some ((v * L.size : Nat) : Int) := by
    rw [ha₁.allocated]
    rfl
  have hobj := hp.call (hreached.call (hcall₁ _ hm.serves)) (hcall₂ _ hm.serves)
  obtain ⟨r, henqueue, hdata⟩ := call_deallocate_ok hget (getIndex_eq hm.geometry hknows hv) hobj
  have hc := (viewed ha₁.queue obj).counted
  have hview : (obj.view st₁.segment).capacity = 2 ^ j := hring
  rcases Nat.lt_or_ge (2 ^ j) (8 * capacity) with hcase | hcase
  · have hat : slotAt k log.length = 8 * log.length := Nat.mod_eq_of_lt (by omega)
    have hrefused := enqueue_beyond hc (by omega) (by omega) (by omega) v
    rw [hrefused] at henqueue
    cases henqueue
  · have hat : slotAt k log.length = 2 ^ j := by
      unfold slotAt
      rw [Nat.mod_eq_of_lt (by omega)]
      omega
    obtain ⟨r', henqueue', hmark⟩ := enqueue_early hc (by omega) (hat.trans hview.symm) (by omega) v
    obtain rfl := (Prod.mk.inj (Except.ok.inj (henqueue'.symm.trans henqueue))).1
    have hslot : st₂.segment.ring.data.load32 (slotAt k log.length) = 4 := by
      rw [hpushed]
      exact (Slot.written (Bytes.load32_store32 _ _ (by decide))
        (Nat.lt_trans hv hm.geometry.small)).length
    rw [hview, ← hat, ← hdata, hslot] at hmark
    exact absurd hmark (by decide)

/-- All elements are in the attacher's mapping. -/
theorem ActsAs.elements (hm : Created L capacity k creator s) (hp : ActsAs L s creator obj creator)
    (hobj : Shares capacity k obj) {index : Nat} (hi : index < capacity) :
    headerSize + (index + 1) * L.size ≤ L.mapped obj.totalSize := by
  obtain ⟨st, used, hreached, ha⟩ := hm.allocations (Nat.le_of_lt hi)
  have hlt : index < (List.range capacity).length := by
    rw [List.length_range]
    exact hi
  obtain ⟨v, st₁, hdrop, ha₁, hcall₁⟩ := ha.call_allocate hlt
  have hcall := hp.call hreached (hcall₁ _ hm.serves)
  obtain ⟨w, hw, -, hslot⟩ := ha.queue.first hlt
  obtain rfl : index = w := by
    rw [List.getElem?_range hi] at hw
    exact Option.some.inj hw
  rw [Mempool.call, Mempool.allocate, acquire_some ha.queue hobj hlt] at hcall
  simp only [bind, Except.bind] at hcall
  rw [construct_eq ha.queue hobj hslot hi] at hcall
  unfold Mempool.element at hcall
  by_cases hmapped : headerSize + (index + 1) * L.size ≤ L.mapped obj.totalSize
  · exact hmapped
  · rw [if_neg hmapped] at hcall
    cases hcall

end Needed

/-- An object attached to a pool does what it would with the creator's capacity, and stays in the memory it
has mapped, if and only if all elements lie in the pages it has mapped and the ring it computes is no
smaller than the creator's. -/
theorem attached_iff {L : Layout} {capacity passed fuel R A : Nat} {creator obj ref : Mempool} {s : Segment}
    (harray : L.Holds capacity) (hcreate : Mempool.create L fuel capacity = some (creator, s))
    (hR : ringSize capacity = some R) (hA : ringSize passed = some A)
    (hobj : Mempool.attach L passed s = some obj) (href : Mempool.attach L capacity s = some ref) :
    ActsAs L s creator obj ref ↔
      (∀ index < capacity, headerSize + (index + 1) * L.size ≤ L.mapped (L.totalSize passed)) ∧ R ≤ A := by
  obtain ⟨k, hm⟩ := create_some harray hcreate
  obtain rfl := Option.some.inj (hR.symm.trans hm.size)
  obtain ⟨j, hlow, hhigh, rfl, -, -⟩ := ringSize_some hA
  unfold Mempool.attach at hobj href
  rw [hA, hm.header] at hobj
  rw [hR, hm.header] at href
  obtain rfl := Option.some.inj hobj
  obtain rfl := Option.some.inj href
  have hsmall := two_pow_lt_word hhigh
  dsimp only
  rw [← hm.object]
  constructor
  · intro hp
    have hle := Nat.pow_le_pow_right (show 0 < 2 by decide) (hp.ring hm rfl hlow rfl)
    exact ⟨fun index hi => hp.elements hm ⟨rfl, hle, hsmall⟩ hi, hle⟩
  · rintro ⟨hmapped, hle⟩ calls
    have hserves : Serves L capacity k ⟨capacity, L.totalSize passed, 2 ^ j⟩ := by
      refine ⟨⟨rfl, hle, hsmall⟩, fun index hi => ?_⟩
      unfold Mempool.element
      rw [if_pos (hmapped index hi)]
    obtain ⟨st, results, -, -, -, -, hrun⟩ := hm.accounts.run hm.geometry calls
    have hobjects : ∀ obj, Serves L capacity k obj → ∀ i, Serves L capacity k (objects creator obj i) := by
      intro obj hobj i
      unfold objects
      split
      · exact hm.serves
      · exact hobj
    exact ⟨st, results, hrun _ (hobjects _ hserves), hrun _ (hobjects _ hm.serves)⟩

/-- A pool of 64 words, attached to with a capacity of 100. -/
theorem sample_attach : ∃ creator s obj ref, Mempool.create words 65 64 = some (creator, s) ∧
    Mempool.attach words 100 s = some obj ∧ Mempool.attach words 64 s = some ref ∧
    ActsAs words s creator obj ref := by
  have hholds : words.Holds 64 := by
    unfold Layout.Holds
    decide
  have hsame : ringSize 64 = some 2048 ∧ ringSize 100 = some 2048 := ⟨rfl, rfl⟩
  obtain ⟨creator, s, hcreate⟩ := create_returns (L := words) (show 64 < 2 ^ 32 by decide)
  refine ⟨creator, s, _, _, hcreate, rfl, rfl, ?_⟩
  refine (attached_iff hholds hcreate hsame.1 hsame.2 rfl rfl).mpr ⟨fun index hi => ?_, Nat.le_refl _⟩
  show 12 + (index + 1) * 4 ≤ 4096
  omega

/-- With a capacity of 1 the attacher takes the ring of 2048 bytes for one of 1024. -/
theorem attached_otherwise : ∃ creator s obj ref, Mempool.create words 65 64 = some (creator, s) ∧
    Mempool.attach words 1 s = some obj ∧ Mempool.attach words 64 s = some ref ∧
    ¬ ActsAs words s creator obj ref := by
  have hholds : words.Holds 64 := by
    unfold Layout.Holds
    decide
  obtain ⟨creator, s, hcreate⟩ := create_returns (L := words) (show 64 < 2 ^ 32 by decide)
  obtain ⟨k, hm⟩ := create_some hholds hcreate
  have hring : (2048 : Nat) = 2 ^ k := Option.some.inj hm.size
  refine ⟨creator, s, ⟨s.capacity, _, 1024⟩, ⟨s.capacity, _, 2048⟩, hcreate, rfl, rfl, fun hp => ?_⟩
  have href : (⟨s.capacity, words.totalSize 64, 2048⟩ : Mempool) = creator := by
    rw [hm.header, hring, hm.object]
  rw [href] at hp
  have hle := hp.ring hm hm.header (j := 10) (Nat.le_refl _) rfl
  have hpow := Nat.pow_le_pow_right (show 0 < 2 by decide) hle
  omega

end Exchange.Pool
