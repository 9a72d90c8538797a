import Exchange.Ipc.Slots
import Exchange.Pool.Model
import Mathlib.Data.List.InsertIdx
import Mathlib.Data.List.Perm.Basic

/-!
# Every index is free or allocated

What the calls of one process after the other do to a pool. `Accounts` says that the indices in the
ring and those of the pointers that callers have are all there are, each once; a call through an object
that `Serves` the pool keeps it so, and does what it does whatever such an object is (`Accounts.call`).
The ring has room for twice as many records, so nothing is ever refused and no claim is wrapped.
-/

namespace Exchange.Pool

open Lib Exchange.Ring

/-- The ring after `enqueue` of `v` as the `n`-th record. -/
def pushed (k n v : Nat) (r : SHMRing) : SHMRing :=
  { r with
    prodHead := 8 * (n + 1) % 2 ^ 64
    prodTail := 8 * (n + 1) % 2 ^ 64
    data := (r.data.store32 (slotAt k n) 4).store32 (slotAt k n + 4) v }

/-- The indices in the ring, from `cons_head` to `prod_tail`. -/
def freeIndices (r : SHMRing) : List Nat :=
  (List.range (sub64 r.prodTail r.consHead / 8)).map fun i =>
    r.data.load32 ((add64 r.consHead (8 * i) &&& r.mask) + 4)

section Enqueue

variable {k h v : Nat} {log : List Nat} {r : SHMRing}

/-- A number given back goes to the end of the queue. -/
theorem Queue.pushed (hq : Queue k r h log.length log) (hroom : 8 * (log.length + 1 - h) ≤ 2 ^ k)
    (hv : v < 2 ^ 32) : Queue k (pushed k log.length v r) h (log.length + 1) (log ++ [v]) := by
  have hlen : log.length < (log ++ [v]).length := by
    rw [List.length_append]
    exact Nat.lt_succ_self _
  have hclaimed := hq.claimed v hroom
  have hprepared := hclaimed.stored (Nat.le_refl _) hlen (Nat.le_refl _) (by omega) 4
  have hwritten := hprepared.stored (Nat.le_refl _) hlen (Nat.le_add_right _ 4) (Nat.le_refl _) v
  refine hwritten.committed (List.getElem?_concat_length ..) ?_
  exact Slot.written (Bytes.load32_store32 _ _ (by decide)) hv

/-- `enqueue`, while there is room. -/
theorem enqueue_eq {p : Nat} (hc : Counted k r h p p) (hcap : 2 ^ k ≤ r.capacity)
    (hsmall : r.capacity < 2 ^ 64) (hroom : 8 * (p + 1 - h) ≤ 2 ^ k) (v : Nat) :
    enqueue r v = .ok (Pool.pushed k p v r, true) := by
  have hclaimed := hc.claimed hroom
  have hstore := (hclaimed.stored (r.data.store32 (slotAt k p) 4)).store hcap p v
  have hcommit := (hclaimed.stored ((r.data.store32 (slotAt k p) 4).store32 (slotAt k p + 4) v)).commit_next
  unfold enqueue
  rw [hc.claim hcap hsmall hroom]
  dsimp only
  rw [hclaimed.prepare hcap]
  simp only [ofRing, Except.mapError, bind, Except.bind, hstore, hcommit]
  rfl

end Enqueue

/-! ## The constructors -/

section Sizes

variable {capacity : Nat}

/-- What is mapped holds the objects. -/
theorem le_mapped (L : Layout) (n : Nat) : n ≤ L.mapped n := by
  have hpos := L.page_pos
  have hlt := Nat.lt_mul_div_succ (n + (L.page - 1)) hpos
  unfold Layout.mapped
  rw [Nat.mul_succ, Nat.mul_comm] at hlt
  omega

/-- A `ring_size` that has become zero stays so. -/
theorem ringSizeFrom_zero (fuel : Nat) {least : Nat} (h : 0 < least) : ringSizeFrom fuel 0 least = none := by
  induction fuel with
  | zero => rfl
  | succ fuel ih =>
    unfold ringSizeFrom
    rw [if_pos h]
    exact ih

/-- Doubling a power of two below 2^63. -/
theorem double_pow {j : Nat} (hj : j < 63) : 2 ^ j * 2 % 2 ^ 64 = 2 ^ (j + 1) :=
  Nat.mod_eq_of_lt (Nat.pow_lt_pow_right Nat.one_lt_two (show j + 1 < 64 by omega))

/-- What the loop ends with: the first power of two that is large enough. -/
theorem ringSizeFrom_some {fuel j least R : Nat} (hj : j ≤ 63) (h : ringSizeFrom fuel (2 ^ j) least = some R) :
    ∃ k, j ≤ k ∧ k ≤ 63 ∧ R = 2 ^ k ∧ least ≤ 2 ^ k ∧ (k = j ∨ 2 ^ k < 2 * least) := by
  induction fuel generalizing j with
  | zero => cases h
  | succ fuel ih =>
    unfold ringSizeFrom at h
    split at h
    · rename_i hlt
      rcases Nat.lt_or_eq_of_le hj with hj | rfl
      · rw [double_pow hj] at h
        obtain ⟨k, hk, hk', hR, hleast, hfirst⟩ := ih hj h
        refine ⟨k, by omega, hk', hR, hleast, Or.inr ?_⟩
        rcases hfirst with rfl | hfirst
        · rw [Nat.pow_succ]
          omega
        · exact hfirst
      · rw [show 2 ^ 63 * 2 % 2 ^ 64 = 0 from rfl, ringSizeFrom_zero _ (by omega)] at h
        cases h
    · rename_i hle
      obtain rfl := Option.some.inj h
      exact ⟨j, Nat.le_refl _, hj, rfl, by omega, Or.inl rfl⟩

theorem ringSizeFrom_returns {fuel j least : Nat} (hj : j ≤ 63) (hfuel : 63 - j < fuel)
    (hleast : least ≤ 2 ^ 63) : ∃ R, ringSizeFrom fuel (2 ^ j) least = some R := by
  induction fuel generalizing j with
  | zero => omega
  | succ fuel ih =>
    unfold ringSizeFrom
    split
    · rename_i hlt
      have hj : j < 63 := by
        refine Nat.lt_of_le_of_ne hj (fun heq => ?_)
        rw [heq] at hlt
        omega
      rw [double_pow hj]
      exact ih hj (by omega)
    · exact ⟨_, rfl⟩

/-- The ring is a power of two, and the next smaller one would not do. -/
theorem ringSize_some {R : Nat} (h : ringSize capacity = some R) :
    ∃ k, 10 ≤ k ∧ k ≤ 63 ∧ R = 2 ^ k ∧ minRingSize capacity ≤ 2 ^ k ∧
      (k = 10 ∨ 2 ^ k < 2 * minRingSize capacity) :=
  ringSizeFrom_some (j := 10) (by decide) h

theorem ringSize_returns (h : capacity < 2 ^ 32) : ∃ R, ringSize capacity = some R := by
  refine ringSizeFrom_returns (j := 10) (by decide) (by decide) ?_
  unfold minRingSize
  omega

end Sizes

section Init

variable {k capacity i fuel : Nat} {r r' : SHMRing}

theorem init_last : init (fuel + 1) capacity capacity r = some r := by
  unfold init
  rw [if_neg (Nat.lt_irrefl _)]

/-- A round of the creator's loop; the indices before `i` are in the ring. -/
theorem init_round (fuel : Nat) (hq : Queue k r 0 i (List.range i)) (hcap : 2 ^ k ≤ r.capacity)
    (hsmall : r.capacity < 2 ^ 64) (hroom : 8 * capacity ≤ 2 ^ k) (hcapacity : capacity < 2 ^ 32)
    (hi : i < capacity) :
    init (fuel + 1) capacity i r = init fuel capacity (i + 1) (pushed k i i r) ∧
      Queue k (pushed k i i r) 0 (i + 1) (List.range (i + 1)) := by
  have hlen : (List.range i).length = i := List.length_range
  have hcounted := hq.counted
  rw [hlen] at hcounted
  have hrun := enqueue_eq hcounted hcap hsmall (by omega) i
  have hnext : Queue k (pushed k i i r) 0 (i + 1) (List.range i ++ [i]) := by
    have hq' : Queue k r 0 (List.range i).length (List.range i) := by
      rw [hlen]
      exact hq
    have hpushed := Queue.pushed hq' (v := i) (by omega) (by omega)
    rw [hlen] at hpushed
    exact hpushed
  rw [List.range_succ]
  refine ⟨?_, hnext⟩
  conv_lhs => unfold init
  rw [if_pos hi, hrun, Nat.mod_eq_of_lt (show i + 1 < 2 ^ 32 by omega)]

theorem init_queue (hq : Queue k r 0 i (List.range i)) (hcap : 2 ^ k ≤ r.capacity)
    (hsmall : r.capacity < 2 ^ 64) (hroom : 8 * capacity ≤ 2 ^ k) (hcapacity : capacity < 2 ^ 32)
    (hi : i ≤ capacity) (hrun : init fuel capacity i r = some r') :
    Queue k r' 0 capacity (List.range capacity) := by
  induction fuel generalizing i r with
  | zero => cases hrun
  | succ fuel ih =>
    rcases Nat.lt_or_eq_of_le hi with hlt | rfl
    · obtain ⟨heq, hnext⟩ := init_round fuel hq hcap hsmall hroom hcapacity hlt
      rw [heq] at hrun
      exact ih hnext hcap hsmall hlt hrun
    · rw [init_last] at hrun
      obtain rfl := Option.some.inj hrun
      exact hq

theorem init_returns (hq : Queue k r 0 i (List.range i)) (hcap : 2 ^ k ≤ r.capacity)
    (hsmall : r.capacity < 2 ^ 64) (hroom : 8 * capacity ≤ 2 ^ k) (hcapacity : capacity < 2 ^ 32)
    (hi : i ≤ capacity) (hfuel : capacity - i < fuel) : ∃ r', init fuel capacity i r = some r' := by
  induction fuel generalizing i r with
  | zero => omega
  | succ fuel ih =>
    rcases Nat.lt_or_eq_of_le hi with hlt | rfl
    · obtain ⟨heq, hnext⟩ := init_round fuel hq hcap hsmall hroom hcapacity hlt
      rw [heq]
      exact ih hnext hcap hsmall hlt (by omega)
    · exact ⟨r, init_last⟩

/-- With a capacity that `uint32_t i` does not reach, the loop does not come to its end. -/
theorem init_large (hcapacity : 2 ^ 32 ≤ capacity) (hi : i < 2 ^ 32) : init fuel capacity i r = none := by
  induction fuel generalizing i r with
  | zero => rfl
  | succ fuel ih =>
    unfold init
    rw [if_pos (by omega)]
    split
    · exact ih (Nat.mod_lt _ (by decide))
    · rfl

end Init

/-- The numbers of a pool: all indices fit into the ring, and into a `uint32_t`. -/
structure Geometry (L : Layout) (capacity k : Nat) : Prop where
  room : 8 * (capacity + 1) ≤ 2 ^ k
  small : capacity < 2 ^ 32
  holds : L.Holds capacity

/-- An object that knows the pool's capacity and takes the ring for no smaller than it is. -/
structure Shares (capacity k : Nat) (m : Mempool) : Prop where
  knows : m.capacity = capacity
  ring : 2 ^ k ≤ m.ringCapacity
  small : m.ringCapacity < 2 ^ 64

/-- It has mapped all elements, too. -/
structure Serves (L : Layout) (capacity k : Nat) (m : Mempool) : Prop extends Shares capacity k m where
  elements : ∀ index < capacity, m.element L index = .ok (index * L.size : Nat)

/-- All indices there are, once each: in the ring, or at the callers. -/
structure Accounts (L : Layout) (capacity k : Nat) (st : State) (h : Nat) (log used : List Nat) : Prop where
  queue : Queue k st.segment.ring h log.length log
  allocated : st.allocated = used.map fun index => ((index * L.size : Nat) : Int)
  perm : (log.drop h ++ used).Perm (List.range capacity)

/-- What the creator leaves. -/
structure Created (L : Layout) (capacity k : Nat) (m : Mempool) (s : Segment) : Prop where
  geometry : Geometry L capacity k
  object : m = ⟨capacity, L.totalSize capacity, 2 ^ k⟩
  size : ringSize capacity = some (2 ^ k)
  header : s.capacity = capacity
  accounts : Accounts L capacity k ⟨s, []⟩ 0 (List.range capacity) []

section Create

variable {L : Layout} {capacity fuel : Nat}

theorem two_pow_lt_word {k : Nat} (h : k ≤ 63) : 2 ^ k < 2 ^ 64 :=
  Nat.pow_lt_pow_right Nat.one_lt_two (Nat.lt_succ_of_le h)

theorem queue_create {k : Nat} (hlow : 3 ≤ k) (hhigh : k ≤ 63) :
    Queue k (.create (2 ^ k)) 0 0 (List.range 0) := by
  refine ⟨⟨hlow, hhigh, ?_, rfl, rfl, rfl, Nat.le_refl _, Nat.le_refl _, ?_⟩, ?_⟩
  · exact sub64_of_le (Nat.two_pow_pos k) (two_pow_lt_word hhigh)
  · exact Nat.zero_le _
  · intro n v _ hn
    exact absurd hn (Nat.not_lt_zero n)

/-- The ring has room for all indices, and one more. -/
theorem ringSize_room {k : Nat} (hsmall : capacity < 2 ^ 32) (hleast : minRingSize capacity ≤ 2 ^ k) :
    8 * (capacity + 1) ≤ 2 ^ k := by
  unfold minRingSize at hleast
  omega

theorem create_some {m : Mempool} {s : Segment} (harray : L.Holds capacity)
    (h : Mempool.create L fuel capacity = some (m, s)) : ∃ k, Created L capacity k m s := by
  unfold Mempool.create at h
  obtain ⟨R, hR, h⟩ := Option.bind_eq_some_iff.mp h
  obtain ⟨r, hr, h⟩ := Option.bind_eq_some_iff.mp h
  obtain ⟨rfl, rfl⟩ := Prod.mk.inj (Option.some.inj h)
  have hsmall : capacity < 2 ^ 32 := by
    refine Nat.lt_of_not_le (fun hlarge => ?_)
    rw [init_large hlarge (Nat.two_pow_pos 32)] at hr
    cases hr
  obtain ⟨k, hlow, hhigh, rfl, hleast, -⟩ := ringSize_some hR
  have hroom := ringSize_room hsmall hleast
  have hqueue := init_queue (queue_create (by omega) hhigh) (Nat.le_refl _) (two_pow_lt_word hhigh)
    (Nat.le_trans (by omega) hroom) hsmall (Nat.zero_le _) hr
  refine ⟨k, ⟨hroom, hsmall, harray⟩, rfl, hR, Nat.mod_eq_of_lt hsmall, ?_, rfl, ?_⟩
  · rw [List.length_range]
    exact hqueue
  · rw [List.drop_zero, List.append_nil]

theorem create_returns (h : capacity < 2 ^ 32) :
    ∃ m s, Mempool.create L (capacity + 1) capacity = some (m, s) := by
  obtain ⟨R, hR⟩ := ringSize_returns h
  obtain ⟨k, hlow, hhigh, rfl, hleast, -⟩ := ringSize_some hR
  have hroom := ringSize_room h hleast
  obtain ⟨r, hr⟩ := init_returns (queue_create (by omega) hhigh) (Nat.le_refl _) (two_pow_lt_word hhigh)
    (Nat.le_trans (by omega) hroom) h (Nat.zero_le _) (show capacity - 0 < capacity + 1 by omega)
  unfold Mempool.create
  rw [hR]
  refine ⟨⟨capacity, L.totalSize capacity, 2 ^ k⟩, ⟨capacity % 2 ^ 32, r⟩, ?_⟩
  show (init (capacity + 1) capacity 0 (.create (2 ^ k))).bind _ = _
  rw [hr]
  rfl

/-- The creator's object serves its pool. -/
theorem Created.serves {k : Nat} {m : Mempool} {s : Segment} (hm : Created L capacity k m s) :
    Serves L capacity k m := by
  have hholds := hm.geometry.holds
  unfold Layout.Holds at hholds
  rw [hm.object]
  refine ⟨⟨rfl, Nat.le_refl _, two_pow_lt_word hm.accounts.queue.counted.high⟩, fun index hi => ?_⟩
  have hle : (index + 1) * L.size ≤ capacity * L.size := Nat.mul_le_mul_right _ hi
  have htotal : L.totalSize capacity = headerSize + capacity * L.size := Nat.mod_eq_of_lt (by omega)
  have hmapped := le_mapped L (L.totalSize capacity)
  unfold Mempool.element
  rw [if_pos]
  show headerSize + (index + 1) * L.size ≤ L.mapped (L.totalSize capacity)
  omega

end Create

/-! ## Calls -/

section Calls

variable {L : Layout} {capacity k h : Nat} {m : Mempool} {st : State} {log used : List Nat}

/-- A pointer's index. -/
theorem getIndex_eq (hg : Geometry L capacity k) (hm : m.capacity = capacity) {v : Nat} (hv : v < capacity) :
    m.getIndex L ((v * L.size : Nat) : Int) = some v := by
  have hholds := hg.holds
  have hsmall := hg.small
  unfold Layout.Holds headerSize at hholds
  have hlt : v * L.size < capacity * L.size := Nat.mul_lt_mul_of_pos_right hv L.size_pos
  have hbytes : ((capacity * L.size : Nat) : Int).bmod (2 ^ 64) = (capacity * L.size : Nat) := by
    rw [Int.bmod_eq_of_le_mul_two]
    · omega
    · omega
  have hdiv : (((v * L.size : Nat) : Int) / (L.size : Nat)).toNat = v := by
    rw [← Int.natCast_ediv, Int.toNat_natCast, Nat.mul_div_cancel _ L.size_pos]
  unfold Mempool.getIndex
  rw [hm]
  dsimp only
  rw [hbytes, if_neg (by omega), hdiv, Nat.mod_eq_of_lt (by omega)]

/-- An index that is free, or allocated. -/
theorem Accounts.lt (ha : Accounts L capacity k st h log used) {v : Nat} (hv : v ∈ log.drop h ++ used) :
    v < capacity := List.mem_range.mp (ha.perm.mem_iff.mp hv)

/-- Free or used, there are as many as the capacity. -/
theorem Accounts.count (ha : Accounts L capacity k st h log used) :
    log.length - h + used.length = capacity := by
  have hlen := ha.perm.length_eq
  rw [List.length_append, List.length_drop, List.length_range] at hlen
  exact hlen

/-- What an object sees of a queue. -/
theorem viewed {s : Segment} {t : Nat} (hq : Queue k s.ring h t log) (m : Mempool) :
    Queue k (m.view s) h t log := hq.resized m.ringCapacity

/-- `acquire`, when no index is in the ring. -/
theorem acquire_none {s : Segment} {t : Nat} (hq : Queue k s.ring h t log) (heq : h = t) :
    m.acquire s = .ok (s, none) := by
  have hacquire := (viewed hq m).counted.acquire_empty heq
  unfold Mempool.acquire
  rw [hacquire]
  rfl

/-- While one is free, the oldest is taken. -/
theorem acquire_some {s : Segment} {t : Nat} (hq : Queue k s.ring h t log) (hm : Shares capacity k m)
    (hlt : h < t) : m.acquire s = .ok (s, some (slotToken k h)) := by
  obtain ⟨v, -, -, hslot⟩ := hq.first hlt
  have hacquire := (viewed hq m).counted.acquire_slot hm.ring hlt hslot
  unfold Mempool.acquire
  rw [hacquire]
  rfl

/-- Between `acquire` and `release` the index is still in the ring. -/
theorem construct_eq {s : Segment} {t v : Nat} (hq : Queue k s.ring h t log) (hm : Shares capacity k m)
    (hslot : Slot k s.ring.data h v) (hv : v < capacity) :
    m.construct L s (slotToken k h) = some <$> m.element L v := by
  have hload : (m.view s).load32 (slotToken k h).payload = .ok v :=
    (viewed hq m).counted.load hm.ring hslot
  have hsize : (slotToken k h).size = 4 := rfl
  unfold Mempool.construct
  rw [if_pos hsize, hload]
  simp only [ofRing, Except.mapError, bind, Except.bind]
  rw [hm.knows, if_pos hv]

/-- `allocate`, when no index is in the ring. -/
theorem Accounts.allocate_none (ha : Accounts L capacity k st h log used) (hlen : h = log.length) :
    m.allocate L st.segment = .ok (st.segment, none) := by
  unfold Mempool.allocate
  rw [acquire_none ha.queue hlen]
  rfl

/-- `allocate` takes the index that was free the longest. -/
theorem Accounts.allocate_some (ha : Accounts L capacity k st h log used) (hlt : h < log.length) :
    ∃ v, v < capacity ∧ log.drop h = v :: log.drop (h + 1) ∧
      Accounts L capacity k ⟨{ st.segment with ring := st.segment.ring.release (slotToken k h) },
        st.allocated ++ [((v * L.size : Nat) : Int)]⟩ (h + 1) log (used ++ [v]) ∧
      ∀ m, Serves L capacity k m → m.allocate L st.segment =
        .ok ({ st.segment with ring := st.segment.ring.release (slotToken k h) },
          some ((v * L.size : Nat) : Int)) := by
  obtain ⟨v, hv, hdrop, hslot⟩ := ha.queue.first hlt
  have hcapacity : v < capacity := ha.lt (by rw [hdrop]; exact List.mem_append_left _ List.mem_cons_self)
  refine ⟨v, hcapacity, hdrop, ⟨ha.queue.released hlt, ?_, ?_⟩, fun m hm => ?_⟩
  · rw [ha.allocated, List.map_append]
    rfl
  · refine List.Perm.trans ?_ ha.perm
    rw [hdrop, ← List.append_assoc]
    exact List.perm_append_comm
  · unfold Mempool.allocate
    rw [acquire_some ha.queue hm.toShares hlt]
    simp only [bind, Except.bind]
    rw [construct_eq ha.queue hm.toShares hslot hcapacity, hm.elements v hcapacity]
    rfl

/-- `deallocate` puts the index behind those that are free. -/
theorem Accounts.deallocate (hg : Geometry L capacity k) (ha : Accounts L capacity k st h log used) {i v : Nat}
    (hv : used[i]? = some v) :
    Accounts L capacity k ⟨{ st.segment with ring := pushed k log.length v st.segment.ring },
      st.allocated.eraseIdx i⟩ h (log ++ [v]) (used.eraseIdx i) ∧
    ∀ m, Serves L capacity k m → m.deallocate L st.segment (some ((v * L.size : Nat) : Int)) =
      .ok ({ st.segment with ring := pushed k log.length v st.segment.ring }, some true) := by
  obtain ⟨hi, hget⟩ := List.getElem?_eq_some_iff.mp hv
  have hcapacity : v < capacity := ha.lt (List.mem_append_right _ (List.mem_of_getElem? hv))
  have hcount := ha.count
  have hread := ha.queue.counted.read
  have hroom := hg.room
  have hroom' : 8 * (log.length + 1 - h) ≤ 2 ^ k := by omega
  refine ⟨⟨?_, ?_, ?_⟩, fun m hm => ?_⟩
  · rw [List.length_append]
    exact Queue.pushed ha.queue hroom' (Nat.lt_trans hcapacity hg.small)
  · rw [ha.allocated, List.eraseIdx_map]
  · refine List.Perm.trans ?_ ha.perm
    rw [List.drop_append_of_le_length hread, List.append_assoc]
    refine List.Perm.append_left _ ?_
    rw [← hget]
    exact List.getElem_cons_eraseIdx_perm hi
  · have henqueue := enqueue_eq (viewed ha.queue m).counted hm.ring hm.small hroom' v
    rw [Mempool.deallocate, getIndex_eq hg hm.knows hcapacity]
    dsimp only
    rw [hm.elements v hcapacity, henqueue]
    rfl

/-- `allocate`, as a call, while an index is free. -/
theorem Accounts.call_allocate (ha : Accounts L capacity k st h log used) (hlt : h < log.length) :
    ∃ v st', log.drop h = v :: log.drop (h + 1) ∧ Accounts L capacity k st' (h + 1) log (used ++ [v]) ∧
      ∀ m, Serves L capacity k m →
        m.call L st .allocate = .ok (st', .pointer (some ((v * L.size : Nat) : Int))) := by
  obtain ⟨v, -, hdrop, hnext, hrun⟩ := ha.allocate_some hlt
  refine ⟨v, _, hdrop, hnext, fun m hm => ?_⟩
  rw [Mempool.call, hrun m hm]
  rfl

/-- `deallocate`, as a call, of a pointer that callers have. -/
theorem Accounts.call_deallocate (hg : Geometry L capacity k) (ha : Accounts L capacity k st h log used)
    {i v : Nat} (hv : used[i]? = some v) :
    ∃ st', st'.segment.ring = pushed k log.length v st.segment.ring ∧
      Accounts L capacity k st' h (log ++ [v]) (used.eraseIdx i) ∧
      ∀ m, Serves L capacity k m → m.call L st (.deallocate i) = .ok (st', .enqueued (some true)) := by
  obtain ⟨hnext, hrun⟩ := ha.deallocate hg hv
  have hget : st.allocated[i]? = some ((v * L.size : Nat) : Int) := by
    rw [ha.allocated, List.getElem?_map, hv]
    rfl
  refine ⟨_, rfl, hnext, fun m hm => ?_⟩
  rw [Mempool.call, hget]
  dsimp only
  rw [hrun m hm]
  rfl

/-- One call keeps the accounts, and which object it is made through makes no difference. -/
theorem Accounts.call (hg : Geometry L capacity k) (ha : Accounts L capacity k st h log used) (c : Call) :
    ∃ st' result h' log' used', Accounts L capacity k st' h' log' used' ∧
      ∀ m, Serves L capacity k m → m.call L st c = .ok (st', result) := by
  cases c with
  | allocate =>
    rcases Nat.lt_or_eq_of_le ha.queue.counted.read with hlt | heq
    · obtain ⟨v, st', -, hnext, hrun⟩ := ha.call_allocate hlt
      exact ⟨st', _, _, _, _, hnext, hrun⟩
    · refine ⟨st, .pointer none, h, log, used, ha, fun m _ => ?_⟩
      rw [Mempool.call, ha.allocate_none heq]
      show Except.ok ((⟨st.segment, st.allocated ++ []⟩ : State), _) = _
      rw [List.append_nil]
  | deallocate i =>
    cases hv : used[i]? with
    | none =>
      have hget : st.allocated[i]? = none := by
        rw [ha.allocated, List.getElem?_map, hv]
        rfl
      refine ⟨st, .skipped, h, log, used, ha, fun m _ => ?_⟩
      rw [Mempool.call, hget]
    | some v =>
      obtain ⟨st', -, hnext, hrun⟩ := ha.call_deallocate hg hv
      exact ⟨st', _, _, _, _, hnext, hrun⟩
  | getIndex ptr =>
    refine ⟨st, .index ((⟨capacity, 0, 0⟩ : Mempool).getIndex L ptr), h, log, used, ha, fun m hm => ?_⟩
    unfold Mempool.call Mempool.getIndex
    rw [hm.knows]
  | getPointer index =>
    refine ⟨st, .pointer ((⟨capacity, 0, 0⟩ : Mempool).getPointer L index), h, log, used, ha,
      fun m hm => ?_⟩
    unfold Mempool.call Mempool.getPointer
    rw [hm.knows]

theorem Accounts.run (hg : Geometry L capacity k) (ha : Accounts L capacity k st h log used)
    (calls : List (Nat × Call)) :
    ∃ st' results h' log' used', Accounts L capacity k st' h' log' used' ∧
      ∀ objs, (∀ i, Serves L capacity k (objs i)) → run objs L st calls = .ok (st', results) := by
  induction calls generalizing st h log used with
  | nil => exact ⟨st, [], h, log, used, ha, fun _ _ => rfl⟩
  | cons call calls ih =>
    obtain ⟨who, c⟩ := call
    obtain ⟨st₁, result, h₁, log₁, used₁, ha₁, hcall⟩ := ha.call hg c
    obtain ⟨st₂, results, h₂, log₂, used₂, ha₂, hrun⟩ := ih ha₁
    refine ⟨st₂, result :: results, h₂, log₂, used₂, ha₂, fun objs hobjs => ?_⟩
    unfold Pool.run
    rw [hcall _ (hobjs who)]
    show (Pool.run objs L st₁ calls).bind _ = _
    rw [hrun objs hobjs]
    rfl

end Calls

/-! ## The accounts, read off the segments -/

section Read

variable {L : Layout} {capacity k h : Nat} {m : Mempool} {st : State} {log used : List Nat}

/-- The free numbers are those in the queue. -/
theorem freeIndices_eq {r : SHMRing} (hq : Queue k r h log.length log) : freeIndices r = log.drop h := by
  have hc := hq.counted
  have hread := hc.read
  have hnear := hc.near
  have hcount : sub64 r.prodTail r.consHead / 8 = log.length - h := by
    rw [hc.cons, hc.tail, sub64_count (by omega) (by omega), ← Nat.mul_sub, Nat.mul_div_cancel_left _ (by decide)]
  unfold freeIndices
  rw [hcount]
  apply List.ext_getElem
  · rw [List.length_map, List.length_range, List.length_drop]
  · intro i h₁ h₂
    rw [List.length_drop] at h₂
    have hplace : add64 r.consHead (8 * i) &&& r.mask = slotAt k (h + i) := by
      rw [hc.cons, add64_count, ← Nat.mul_add, hc.mask, counter_and_mask hc.high]
    have hslot := hq.slots (h + i) log[h + i] (Nat.le_add_right _ _) (by omega)
      (List.getElem?_eq_getElem (by omega))
    rw [List.getElem_map, List.getElem_range, hplace, hslot.payload, List.getElem_drop]

/-- The number of an object is found from its address. -/
theorem mapM_getIndex (hg : Geometry L capacity k) (hm : m.capacity = capacity)
    (hused : ∀ v ∈ used, v < capacity) :
    (used.map fun index => ((index * L.size : Nat) : Int)).mapM (m.getIndex L) = some used := by
  induction used with
  | nil => rfl
  | cons v used ih =>
    rw [List.map_cons, List.mapM_cons, getIndex_eq hg hm (hused v List.mem_cons_self),
      ih (fun w hw => hused w (List.mem_cons_of_mem _ hw))]
    rfl

end Read

/-- A pool of any capacity: its constructor returns, and whatever calls are made of it, the indices in the
ring and those of the pointers that callers have are `0` to `capacity - 1`; `allocate` returns a null
pointer if and only if all elements are allocated; and `deallocate` of any of them gets its index into the
ring, with a claim that is not wrapped. -/
theorem indices_accounted {L : Layout} {capacity : Nat} (harray : L.Holds capacity) :
    (capacity < 2 ^ 32 → ∃ fuel m s, Mempool.create L fuel capacity = some (m, s)) ∧
    ∀ fuel m s, Mempool.create L fuel capacity = some (m, s) →
      ∀ calls, ∃ st results, run (fun _ => m) L ⟨s, []⟩ calls = .ok (st, results) ∧
        (∃ used, st.allocated.mapM (m.getIndex L) = some used ∧
          (freeIndices st.segment.ring ++ used).Perm (List.range capacity)) ∧
        (∃ s' ptr, m.allocate L st.segment = .ok (s', ptr) ∧
          (ptr = none ↔ st.allocated.length = capacity)) ∧
        (∀ ptr ∈ st.allocated, ∃ s', m.deallocate L st.segment (some ptr) = .ok (s', some true)) ∧
        sub64 st.segment.ring.prodHead st.segment.ring.consHead ≤ 8 * capacity ∧
        ∃ r c, (m.view st.segment).claim 4 = some (r, c) ∧ c.wrapped = false := by
  refine ⟨fun hsmall => ?_, fun fuel m s hcreate calls => ?_⟩
  · obtain ⟨m, s, hcreate⟩ := create_returns (L := L) hsmall
    exact ⟨capacity + 1, m, s, hcreate⟩
  obtain ⟨k, hm⟩ := create_some harray hcreate
  have hg := hm.geometry
  have hserves := hm.serves
  obtain ⟨st, results, h, log, used, ha, hrun⟩ := hm.accounts.run hg calls
  have hc := ha.queue.counted
  have hcount := ha.count
  have hread := hc.read
  have hroom := hg.room
  have hlen : st.allocated.length = used.length := by rw [ha.allocated, List.length_map]
  refine ⟨st, results, hrun _ (fun _ => hserves), ⟨used, ?_, ?_⟩, ?_, fun ptr hptr => ?_, ?_, ?_⟩
  · rw [ha.allocated]
    exact mapM_getIndex hg hserves.knows fun v hv => ha.lt (List.mem_append_right _ hv)
  · rw [freeIndices_eq ha.queue]
    exact ha.perm
  · rcases Nat.lt_or_eq_of_le hread with hlt | heq
    · obtain ⟨v, -, -, -, hallocate⟩ := ha.allocate_some hlt
      refine ⟨_, _, hallocate m hserves, ⟨fun hnone => (by cases hnone), fun hall => ?_⟩⟩
      omega
    · refine ⟨_, _, ha.allocate_none heq, ⟨fun _ => ?_, fun _ => rfl⟩⟩
      omega
  · rw [ha.allocated] at hptr
    obtain ⟨v, hv, rfl⟩ := List.mem_map.mp hptr
    obtain ⟨i, hi⟩ := List.getElem?_of_mem hv
    exact ⟨_, (ha.deallocate hg hi).2 m hserves⟩
  · rw [hc.prod, hc.cons, sub64_count (by omega) (by have := hc.near; omega)]
    omega
  · exact ⟨_, _, (viewed ha.queue m).counted.claim hserves.ring hserves.small (by omega), rfl⟩

/-- Elements of four bytes. -/
def words : Layout := ⟨4, 4096, by decide, by decide⟩

/-- A pool of two elements, of which one goes around. -/
theorem sample_pool : ∃ fuel m s st results, Mempool.create words fuel 2 = some (m, s) ∧
    run (fun _ => m) words ⟨s, []⟩ [(0, .allocate), (0, .allocate), (0, .allocate), (0, .deallocate 0),
      (0, .allocate)] = .ok (st, results) ∧
    ∃ used, st.allocated.mapM (m.getIndex words) = some used ∧
      (freeIndices st.segment.ring ++ used).Perm (List.range 2) := by
  have haccounted := @indices_accounted words 2 (by unfold Layout.Holds; decide)
  obtain ⟨fuel, m, s, hcreate⟩ := haccounted.1 (by decide)
  obtain ⟨st, results, hrun, hperm, -⟩ := haccounted.2 fuel m s hcreate [(0, .allocate), (0, .allocate),
    (0, .allocate), (0, .deallocate 0), (0, .allocate)]
  exact ⟨fuel, m, s, st, results, hcreate, hrun, hperm⟩

end Exchange.Pool
