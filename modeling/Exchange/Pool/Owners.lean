import Exchange.Pool.Accounts
import Mathlib.Data.List.Nodup

/-!
# Who owns an element

Several processes, each with an object of its own, take the steps of `allocate` and `deallocate` in any
order: `acquire`, the construction and `release`; the claim of a record, its preparation, the copy of
the index and `commit`. The ring is made for many producers, and for one consumer.

As long as no process acquires while another is between its `acquire` and its `release`, an element has
one owner (`one_owner`): the index of whoever is in between stays the first of the ring until it is
released, and those that give an index back have each a record of their own behind it (`Fits`).
Otherwise two of them are handed the same index (`two_owners`).
-/

namespace Exchange.Pool

open Lib Exchange.Ring

/-- How far a process is in a call. -/
inductive Stage
  | idle
  | acquired (slot : AcquireToken)
  | constructed (slot : AcquireToken) (ptr : Option Int)
  | claimed (c : Claim) (index : Nat)
  | prepared (c : Claim) (index : Nat)
  | written (c : Claim)
  deriving DecidableEq, Repr

namespace Stage

/-- Between `acquire` and `release`. -/
def Taking : Stage → Prop
  | .acquired _ => True
  | .constructed _ _ => True
  | _ => False

/-- The record that is to be committed. -/
def claim : Stage → Option Claim
  | .claimed c _ => some c
  | .prepared c _ => some c
  | .written c => some c
  | _ => none

end Stage

/-- The segments, the processes, and the pointers that `allocate` returned and to whom. -/
structure Owners where
  segment : Segment
  stage : Nat → Stage
  owned : List (Nat × Int)

/-- A step. `claim` is the beginning of `deallocate`, of the `i`-th pointer. -/
inductive Act
  | acquire
  | construct
  | release
  | claim (i : Nat)
  | prepare
  | write
  | commit
  deriving DecidableEq, Repr

namespace Owners

/-- All elements are free. -/
def init (s : Segment) : Owners := ⟨s, fun _ => .idle, []⟩

/-- A step of one process; nothing happens where it is not at this place, or waits. -/
def step (objs : Nat → Mempool) (L : Layout) (sys : Owners) (who : Nat) : Act → Except Fault Owners
  | .acquire =>
    match sys.stage who with
    | .idle => do
      let (s, slot) ← (objs who).acquire sys.segment
      match slot with
      | none => .ok { sys with segment := s }
      | some slot =>
        .ok { sys with
          segment := s
          stage := Function.update sys.stage who (.acquired slot) }
    | _ => .ok sys
  | .construct =>
    match sys.stage who with
    | .acquired slot => do
      let ptr ← (objs who).construct L sys.segment slot
      .ok { sys with stage := Function.update sys.stage who (.constructed slot ptr) }
    | _ => .ok sys
  | .release =>
    match sys.stage who with
    | .constructed slot ptr =>
      .ok {
        segment := (objs who).release sys.segment slot
        stage := Function.update sys.stage who .idle
        owned := sys.owned ++ ptr.toList.map fun ptr => (who, ptr) }
    | _ => .ok sys
  | .claim i =>
    match sys.stage who with
    | .idle =>
      match sys.owned[i]? with
      | none => .ok sys
      | some (_, ptr) =>
        match (objs who).getIndex L ptr with
        | none => .error .outOfRange
        | some index => do
          -- the destructor
          let _ ← (objs who).element L index
          match ((objs who).view sys.segment).claim 4 with
          | none => .ok { sys with owned := sys.owned.eraseIdx i }
          | some (r, c) =>
            .ok {
              segment := Mempool.put sys.segment r
              stage := Function.update sys.stage who (.claimed c index)
              owned := sys.owned.eraseIdx i }
    | _ => .ok sys
  | .prepare =>
    match sys.stage who with
    | .claimed c index => do
      let r ← ofRing (((objs who).view sys.segment).prepare c)
      .ok { sys with
        segment := Mempool.put sys.segment r
        stage := Function.update sys.stage who (.prepared c index) }
    | _ => .ok sys
  | .write =>
    match sys.stage who with
    | .prepared c index => do
      let r ← ofRing (((objs who).view sys.segment).store32 c.payload index)
      .ok { sys with
        segment := Mempool.put sys.segment r
        stage := Function.update sys.stage who (.written c) }
    | _ => .ok sys
  | .commit =>
    match sys.stage who with
    | .written c =>
      match ((objs who).view sys.segment).commit c with
      | none => .ok sys
      | some r =>
        .ok { sys with
          segment := Mempool.put sys.segment r
          stage := Function.update sys.stage who .idle }
    | _ => .ok sys

/-- The states reached from `sys` by steps that meet `K`. -/
inductive Run (objs : Nat → Mempool) (L : Layout) (K : Owners → Nat → Act → Prop) (s : Segment) :
    Owners → Prop
  | init : Run objs L K s (.init s)
  | step {sys sys' : Owners} {who : Nat} {act : Act} (h : Run objs L K s sys) (hK : K sys who act)
      (hrun : sys.step objs L who act = .ok sys') : Run objs L K s sys'

/-- Nobody acquires while another process is between `acquire` and `release`. -/
def Alone (sys : Owners) (_ : Nat) (act : Act) : Prop :=
  act = .acquire → ∀ other, ¬ (sys.stage other).Taking

/-- An element has one owner, whoever is constructing in it included. -/
structure Exclusive (sys : Owners) : Prop where
  owned : (sys.owned.map Prod.snd).Nodup
  free : ∀ who slot ptr, sys.stage who = .constructed slot (some ptr) → ptr ∉ sys.owned.map Prod.snd
  one : ∀ who who' slot slot' ptr, sys.stage who = .constructed slot (some ptr) →
    sys.stage who' = .constructed slot' (some ptr) → who = who'

end Owners

/-! ## What holds of the processes -/

/-- What the place of a process says of the ring. -/
def Fits (L : Layout) (k h t : Nat) (log : List Nat) (m : Bytes) : Stage → Prop
  | .idle => True
  | .acquired slot => slot = slotToken k h
  | .constructed slot ptr =>
    slot = slotToken k h ∧ ∃ v, log[h]? = some v ∧ ptr = some ((v * L.size : Nat) : Int)
  | .claimed c index => ∃ n, t ≤ n ∧ log[n]? = some index ∧ c = slotClaim k n
  | .prepared c index =>
    ∃ n, t ≤ n ∧ log[n]? = some index ∧ c = slotClaim k n ∧ m.load32 (slotAt k n) = 4
  | .written c => ∃ n v, t ≤ n ∧ log[n]? = some v ∧ c = slotClaim k n ∧ Slot k m n v

/-- Every index is in the ring or owned, one process at most takes, and each record that is not committed
has one process that fills it. -/
structure Consistent (L : Layout) (capacity k : Nat) (sys : Owners) (h t : Nat) (log used : List Nat) :
    Prop where
  queue : Queue k sys.segment.ring h t log
  owned : sys.owned.map Prod.snd = used.map fun index => ((index * L.size : Nat) : Int)
  perm : (log.drop h ++ used).Perm (List.range capacity)
  stages : ∀ who, Fits L k h t log sys.segment.ring.data (sys.stage who)
  first : ∀ who, (sys.stage who).Taking → h < t
  alone : ∀ who who', (sys.stage who).Taking → (sys.stage who').Taking → who = who'
  distinct : ∀ c who who', (sys.stage who).claim = some c → (sys.stage who').claim = some c → who = who'

section Places

variable {stage : Nat → Stage} {who : Nat} {st : Stage} {P : Stage → Prop}

/-- What holds of the process that moves and of the others holds of all. -/
theorem update_all (hwho : P st) (hothers : ∀ other, other ≠ who → P (stage other)) (i : Nat) :
    P (Function.update stage who st i) := by
  by_cases hi : i = who
  · rw [hi, Function.update_self]
    exact hwho
  · rw [Function.update_of_ne hi]
    exact hothers i hi

/-- One process at most is there, before and after. -/
theorem update_unique (h : ∀ i j, P (stage i) → P (stage j) → i = j)
    (hnew : P st → ∀ other, other ≠ who → ¬ P (stage other)) (i j : Nat)
    (hi : P (Function.update stage who st i)) (hj : P (Function.update stage who st j)) : i = j := by
  by_cases hiw : i = who
  · by_cases hjw : j = who
    · rw [hiw, hjw]
    · rw [hiw, Function.update_self] at hi
      rw [Function.update_of_ne hjw] at hj
      exact absurd hj (hnew hi j hjw)
  · rw [Function.update_of_ne hiw] at hi
    by_cases hjw : j = who
    · rw [hjw, Function.update_self] at hj
      exact absurd hi (hnew hj i hiw)
    · rw [Function.update_of_ne hjw] at hj
      exact h i j hi hj

end Places

section Frames

variable {L : Layout} {k h t : Nat} {log : List Nat} {m : Bytes} {st : Stage}

/-- The record a process fills. -/
theorem Fits.pending (hf : Fits L k h t log m st) {c : Claim} (hc : st.claim = some c) :
    ∃ n, t ≤ n ∧ n < log.length ∧ c = slotClaim k n := by
  cases st with
  | idle => cases hc
  | acquired slot => cases hc
  | constructed slot ptr => cases hc
  | claimed c' index =>
    obtain rfl := Option.some.inj hc
    obtain ⟨n, hn, hv, rfl⟩ := hf
    exact ⟨n, hn, (List.getElem?_eq_some_iff.mp hv).1, rfl⟩
  | prepared c' index =>
    obtain rfl := Option.some.inj hc
    obtain ⟨n, hn, hv, rfl, -⟩ := hf
    exact ⟨n, hn, (List.getElem?_eq_some_iff.mp hv).1, rfl⟩
  | written c' =>
    obtain rfl := Option.some.inj hc
    obtain ⟨n, v, hn, hv, rfl, -⟩ := hf
    exact ⟨n, hn, (List.getElem?_eq_some_iff.mp hv).1, rfl⟩

/-- What fits stays so when a number joins the queue. -/
theorem Fits.append (hf : Fits L k h t log m st) (v : Nat) : Fits L k h t (log ++ [v]) m st := by
  have hold : ∀ {n w : Nat}, log[n]? = some w → (log ++ [v])[n]? = some w := by
    intro n w hw
    rw [List.getElem?_append_left (List.getElem?_eq_some_iff.mp hw).1]
    exact hw
  cases st with
  | idle => exact hf
  | acquired slot => exact hf
  | constructed slot ptr =>
    obtain ⟨hslot, w, hw, hptr⟩ := hf
    exact ⟨hslot, w, hold hw, hptr⟩
  | claimed c index =>
    obtain ⟨n, hn, hw, hc⟩ := hf
    exact ⟨n, hn, hold hw, hc⟩
  | prepared c index =>
    obtain ⟨n, hn, hw, hc⟩ := hf
    exact ⟨n, hn, hold hw, hc⟩
  | written c =>
    obtain ⟨n, w, hn, hw, hc⟩ := hf
    exact ⟨n, w, hn, hold hw, hc⟩

/-- The first record is released by another process. -/
theorem Fits.released (hf : Fits L k h t log m st) (hst : ¬ st.Taking) : Fits L k (h + 1) t log m st := by
  cases st with
  | idle => exact hf
  | acquired slot => exact absurd trivial hst
  | constructed slot ptr => exact absurd trivial hst
  | claimed c index => exact hf
  | prepared c index => exact hf
  | written c => exact hf

/-- The next record is committed by another process. -/
theorem Fits.committed (hf : Fits L k h t log m st) (hst : st.claim ≠ some (slotClaim k t)) :
    Fits L k h (t + 1) log m st := by
  have hlater : ∀ {n c}, st.claim = some c → t ≤ n → c = slotClaim k n → t + 1 ≤ n := by
    intro n c hc hn heq
    refine Nat.lt_of_le_of_ne hn (fun hnt => hst ?_)
    rw [hc, heq, hnt]
  cases st with
  | idle => exact hf
  | acquired slot => exact hf
  | constructed slot ptr => exact hf
  | claimed c index =>
    obtain ⟨n, hn, hw, hc⟩ := hf
    exact ⟨n, hlater rfl hn hc, hw, hc⟩
  | prepared c index =>
    obtain ⟨n, hn, hw, hc, hlength⟩ := hf
    exact ⟨n, hlater rfl hn hc, hw, hc, hlength⟩
  | written c =>
    obtain ⟨n, w, hn, hw, hc, hslot⟩ := hf
    exact ⟨n, w, hlater rfl hn hc, hw, hc, hslot⟩

/-- Another process writes to its record. -/
theorem Fits.stored (hf : Fits L k h t log m st) (hlow : 3 ≤ k) (hroom : 8 * (log.length - t) ≤ 2 ^ k)
    {n : Nat} (hn : t ≤ n) (hlt : n < log.length) (hst : st.claim ≠ some (slotClaim k n)) {off : Nat}
    (hlo : slotAt k n ≤ off) (hhi : off + 4 ≤ slotAt k n + 8) (w : Nat) :
    Fits L k h t log (m.store32 off w) st := by
  have hsame : ∀ {n' v : Nat}, t ≤ n' → log[n']? = some v → n' ≠ n →
      SameOn (m.store32 off w) m (slotAt k n') (slotAt k n' + 8) := by
    intro n' v hn' hv hne
    have hlt' := (List.getElem?_eq_some_iff.mp hv).1
    exact sameOn_slot hlow hne (by omega) (by omega) hlo hhi m w
  have hother : ∀ {n' c}, st.claim = some c → c = slotClaim k n' → n' ≠ n := by
    intro n' c hc heq hnn
    exact hst (by rw [hc, heq, hnn])
  cases st with
  | idle => exact hf
  | acquired slot => exact hf
  | constructed slot ptr => exact hf
  | claimed c index => exact hf
  | prepared c index =>
    obtain ⟨n', hn', hv, hc, hlength⟩ := hf
    refine ⟨n', hn', hv, hc, ?_⟩
    rw [(hsame hn' hv (hother rfl hc)).load32_eq (Nat.le_refl _) (by omega)]
    exact hlength
  | written c =>
    obtain ⟨n', v, hn', hv, hc, hslot⟩ := hf
    exact ⟨n', v, hn', hv, hc, hslot.mono (hsame hn' hv (hother rfl hc))⟩

end Frames

/-! ## One step -/

namespace Consistent

variable {L : Layout} {capacity k h t : Nat} {objs : Nat → Mempool} {sys sys' : Owners} {log used : List Nat}
  {who : Nat}

/-- Every number is below the capacity. -/
theorem lt (hs : Consistent L capacity k sys h t log used) {v : Nat} (hv : v ∈ log.drop h ++ used) :
    v < capacity := List.mem_range.mp (hs.perm.mem_iff.mp hv)

/-- The index of a record that was not read. -/
theorem index_lt (hs : Consistent L capacity k sys h t log used) {n v : Nat} (hn : h ≤ n)
    (hv : log[n]? = some v) : v < capacity := by
  refine hs.lt (List.mem_append_left _ (List.mem_of_getElem? (i := n - h) ?_))
  rw [List.getElem?_drop, Nat.add_sub_cancel' hn]
  exact hv

theorem init {s : Segment} {m : Mempool} (hm : Created L capacity k m s) :
    Consistent L capacity k (.init s) 0 capacity (List.range capacity) [] := by
  have hq := hm.accounts.queue
  rw [List.length_range] at hq
  refine ⟨hq, rfl, hm.accounts.perm, fun _ => trivial, fun _ hw => hw.elim, fun _ _ hw => hw.elim, ?_⟩
  intro c who who' hc
  cases hc

/-- A process comes to another place, while what is in the ring may change. -/
theorem move (hs : Consistent L capacity k sys h t log used) {st : Stage} {h' t' : Nat} {log' used' : List Nat}
    (hstage : sys'.stage = Function.update sys.stage who st) (hqueue : Queue k sys'.segment.ring h' t' log')
    (howned : sys'.owned.map Prod.snd = used'.map fun index => ((index * L.size : Nat) : Int))
    (hperm : (log'.drop h' ++ used').Perm (List.range capacity))
    (hplace : Fits L k h' t' log' sys'.segment.ring.data st)
    (hothers : ∀ i, i ≠ who → Fits L k h' t' log' sys'.segment.ring.data (sys.stage i))
    (hfirst : ∀ i, i ≠ who → (sys.stage i).Taking → h' < t')
    (htaking : st.Taking → h' < t' ∧ ∀ i, i ≠ who → ¬ (sys.stage i).Taking)
    (hclaim : ∀ c, st.claim = some c → ∀ i, i ≠ who → (sys.stage i).claim ≠ some c) :
    Consistent L capacity k sys' h' t' log' used' := by
  refine ⟨hqueue, howned, hperm, ?_, ?_, ?_, fun c => ?_⟩
  all_goals rw [hstage]
  · exact update_all hplace hothers
  · exact update_all (P := fun st => st.Taking → h' < t') (fun hst => (htaking hst).1) hfirst
  · exact update_unique hs.alone (fun hst => (htaking hst).2)
  · exact update_unique (P := fun st => st.claim = some c) (hs.distinct c) (hclaim c)

theorem acquire (hs : Consistent L capacity k sys h t log used) (hm : Shares capacity k (objs who))
    (halone : ∀ other, ¬ (sys.stage other).Taking) (hst : sys.stage who = .idle)
    (hrun : sys.step objs L who .acquire = .ok sys') : Consistent L capacity k sys' h t log used := by
  rw [Owners.step, hst] at hrun
  dsimp only at hrun
  rcases Nat.lt_or_eq_of_le hs.queue.counted.read with hlt | heq
  · rw [acquire_some hs.queue hm hlt] at hrun
    obtain rfl := Except.ok.inj hrun
    exact hs.move rfl hs.queue hs.owned hs.perm rfl (fun i _ => hs.stages i) (fun _ _ _ => hlt)
      (fun _ => ⟨hlt, fun i _ => halone i⟩) (fun _ hc => by cases hc)
  · rw [acquire_none hs.queue heq] at hrun
    obtain rfl := Except.ok.inj hrun
    exact hs

theorem construct (hs : Consistent L capacity k sys h t log used) (hm : Shares capacity k (objs who))
    {slot : AcquireToken} (hst : sys.stage who = .acquired slot)
    (hrun : sys.step objs L who .construct = .ok sys') : Consistent L capacity k sys' h t log used := by
  have htaking : (sys.stage who).Taking := by
    rw [hst]
    trivial
  have hlt := hs.first who htaking
  have hfits := hs.stages who
  rw [hst] at hfits
  obtain ⟨v, hv, -, hslot⟩ := hs.queue.first hlt
  rw [Owners.step, hst] at hrun
  dsimp only at hrun
  rw [hfits, construct_eq hs.queue hm hslot (hs.index_lt (Nat.le_refl _) hv)] at hrun
  unfold Mempool.element at hrun
  split at hrun
  · obtain rfl := Except.ok.inj hrun
    exact hs.move rfl hs.queue hs.owned hs.perm ⟨rfl, v, hv, rfl⟩ (fun i _ => hs.stages i)
      (fun _ _ _ => hlt) (fun _ => ⟨hlt, fun i hi hother => hi (hs.alone _ _ hother htaking)⟩)
      (fun _ hc => by cases hc)
  · cases hrun

theorem release (hs : Consistent L capacity k sys h t log used) {slot : AcquireToken} {ptr : Option Int}
    (hst : sys.stage who = .constructed slot ptr) (hrun : sys.step objs L who .release = .ok sys') :
    ∃ v, Consistent L capacity k sys' (h + 1) t log (used ++ [v]) := by
  have htaking : (sys.stage who).Taking := by
    rw [hst]
    trivial
  have hlt := hs.first who htaking
  have hfits := hs.stages who
  rw [hst] at hfits
  obtain ⟨rfl, v, hv, rfl⟩ := hfits
  obtain ⟨w, hw, hdrop, -⟩ := hs.queue.first hlt
  obtain rfl := Option.some.inj (hw.symm.trans hv)
  rw [Owners.step, hst] at hrun
  obtain rfl := Except.ok.inj hrun
  have hothers : ∀ other, other ≠ who → ¬ (sys.stage other).Taking :=
    fun other hne hother => hne (hs.alone _ _ hother htaking)
  refine ⟨w, hs.move rfl (hs.queue.released hlt) ?_ ?_ trivial
    (fun i hi => (hs.stages i).released (hothers i hi)) (fun i hi hother => absurd hother (hothers i hi))
    (fun hst => hst.elim) (fun _ hc => by cases hc)⟩
  · show (sys.owned ++ [(who, ((w * L.size : Nat) : Int))]).map Prod.snd = _
    rw [List.map_append, List.map_append, hs.owned]
    rfl
  · refine List.Perm.trans ?_ hs.perm
    rw [hdrop, ← List.append_assoc]
    exact List.perm_append_comm

theorem claim (hg : Geometry L capacity k) (hs : Consistent L capacity k sys h t log used)
    (hm : Shares capacity k (objs who)) {i : Nat} (hst : sys.stage who = .idle)
    (hrun : sys.step objs L who (.claim i) = .ok sys') :
    ∃ log' used', Consistent L capacity k sys' h t log' used' := by
  obtain ⟨indexOf, hindexOf⟩ : ∃ indexOf, indexOf = (objs who).getIndex L := ⟨_, rfl⟩
  rw [Owners.step, ← hindexOf, hst] at hrun
  dsimp only at hrun
  cases howned : sys.owned[i]? with
  | none =>
    rw [howned] at hrun
    obtain rfl := Except.ok.inj hrun
    exact ⟨log, used, hs⟩
  | some o =>
    obtain ⟨owner, ptr⟩ := o
    obtain ⟨v, hv, rfl⟩ : ∃ v, used[i]? = some v ∧ ptr = ((v * L.size : Nat) : Int) := by
      have hmap : (sys.owned.map Prod.snd)[i]? = some ptr := by
        rw [List.getElem?_map, howned]
        rfl
      rw [hs.owned, List.getElem?_map] at hmap
      obtain ⟨v, hv, heq⟩ := Option.map_eq_some_iff.mp hmap
      exact ⟨v, hv, heq.symm⟩
    have hcapacity : v < capacity := hs.lt (List.mem_append_right _ (List.mem_of_getElem? hv))
    obtain ⟨hi, hget⟩ := List.getElem?_eq_some_iff.mp hv
    have hcount := hs.perm.length_eq
    rw [List.length_append, List.length_drop, List.length_range] at hcount
    have hread := hs.queue.counted.read
    have hcommitted := hs.queue.counted.committed
    have hroom : 8 * (log.length + 1 - h) ≤ 2 ^ k := by
      have := hg.room
      omega
    have hindex : indexOf ((v * L.size : Nat) : Int) = some v := by
      rw [hindexOf]
      exact getIndex_eq hg hm.knows hcapacity
    rw [howned] at hrun
    dsimp only at hrun
    rw [hindex] at hrun
    dsimp only at hrun
    rw [(viewed hs.queue (objs who)).counted.claim hm.ring hm.small hroom] at hrun
    cases helement : (objs who).element L v with
    | error e =>
      rw [helement] at hrun
      cases hrun
    | ok ptr =>
      rw [helement] at hrun
      obtain rfl := Except.ok.inj hrun
      have hplace : Fits L k h t (log ++ [v]) sys.segment.ring.data (.claimed (slotClaim k log.length) v) :=
        ⟨log.length, hcommitted, List.getElem?_concat_length .., rfl⟩
      refine ⟨log ++ [v], used.eraseIdx i, hs.move rfl (hs.queue.claimed v hroom) ?_ ?_ hplace
        (fun j _ => (hs.stages j).append v) (fun j _ => hs.first j) (fun hst => hst.elim)
        (fun c hc j _ hother => ?_)⟩
      · show (sys.owned.eraseIdx i).map Prod.snd = _
        rw [← List.eraseIdx_map, hs.owned, List.eraseIdx_map]
      · refine List.Perm.trans ?_ hs.perm
        rw [List.drop_append_of_le_length (by omega), List.append_assoc]
        refine List.Perm.append_left _ ?_
        rw [← hget]
        exact List.getElem_cons_eraseIdx_perm hi
      · -- the records of the others come before the new one
        obtain ⟨n, hn, hlt, heq⟩ := (hs.stages j).pending hother
        obtain rfl := Option.some.inj hc
        have hnear := hs.queue.counted.near
        have hold : 8 * log.length % 2 ^ 64 = 8 * n % 2 ^ 64 := congrArg Claim.oldProdHead heq
        have := count_inj (show 8 * n ≤ 8 * log.length by omega) (by omega) hold
        omega

/-- A store to the record that a process fills. -/
theorem stored (hs : Consistent L capacity k sys h t log used) {n : Nat} (hn : t ≤ n) (hlt : n < log.length)
    (hst : (sys.stage who).claim = some (slotClaim k n)) {off : Nat} (hlo : slotAt k n ≤ off)
    (hhi : off + 4 ≤ slotAt k n + 8) (w : Nat) {st : Stage} (hclaim : st.claim = some (slotClaim k n))
    (hfits : Fits L k h t log (sys.segment.ring.data.store32 off w) st) :
    Consistent L capacity k { sys with
      segment := { sys.segment with
        ring := { sys.segment.ring with data := sys.segment.ring.data.store32 off w } }
      stage := Function.update sys.stage who st } h t log used := by
  have hroom := hs.queue.counted.room
  have hread := hs.queue.counted.read
  have hidle : ¬ st.Taking := by
    intro hf
    cases st with
    | idle => exact hf
    | acquired slot => cases hclaim
    | constructed slot ptr => cases hclaim
    | claimed c index => exact hf
    | prepared c index => exact hf
    | written c => exact hf
  refine hs.move rfl (hs.queue.stored hn hlt hlo hhi w) hs.owned hs.perm hfits (fun j hj => ?_)
    (fun j _ => hs.first j) (fun hf => absurd hf hidle) (fun c hc j hj hother => ?_)
  · refine (hs.stages j).stored hs.queue.counted.low (by omega) hn hlt (fun hc => ?_) hlo hhi w
    exact hj (hs.distinct _ _ _ hc hst)
  · rw [hclaim.symm.trans hc] at hst
    exact hj (hs.distinct _ _ _ hother hst)

theorem prepare (hs : Consistent L capacity k sys h t log used) (hm : Shares capacity k (objs who))
    {c : Claim} {index : Nat} (hst : sys.stage who = .claimed c index)
    (hrun : sys.step objs L who .prepare = .ok sys') : Consistent L capacity k sys' h t log used := by
  have hfits := hs.stages who
  rw [hst] at hfits
  obtain ⟨n, hn, hv, rfl⟩ := hfits
  have hlt := (List.getElem?_eq_some_iff.mp hv).1
  rw [Owners.step, hst] at hrun
  dsimp only at hrun
  rw [(viewed hs.queue (objs who)).counted.prepare hm.ring n] at hrun
  obtain rfl := Except.ok.inj hrun
  have hclaim : (sys.stage who).claim = some (slotClaim k n) := by
    rw [hst]
    rfl
  exact hs.stored hn hlt hclaim (Nat.le_refl _) (by omega) 4 rfl
    ⟨n, hn, hv, rfl, Bytes.load32_store32 _ _ (by decide)⟩

theorem write (hg : Geometry L capacity k) (hs : Consistent L capacity k sys h t log used)
    (hm : Shares capacity k (objs who)) {c : Claim} {index : Nat} (hst : sys.stage who = .prepared c index)
    (hrun : sys.step objs L who .write = .ok sys') : Consistent L capacity k sys' h t log used := by
  have hfits := hs.stages who
  rw [hst] at hfits
  obtain ⟨n, hn, hv, rfl, hlength⟩ := hfits
  have hlt := (List.getElem?_eq_some_iff.mp hv).1
  have hindex := hs.index_lt (Nat.le_trans hs.queue.counted.read hn) hv
  rw [Owners.step, hst] at hrun
  dsimp only at hrun
  rw [(viewed hs.queue (objs who)).counted.store hm.ring n index] at hrun
  obtain rfl := Except.ok.inj hrun
  have hclaim : (sys.stage who).claim = some (slotClaim k n) := by
    rw [hst]
    rfl
  exact hs.stored hn hlt hclaim (Nat.le_add_right _ _) (Nat.le_refl _) index rfl
    ⟨n, index, hn, hv, rfl, Slot.written hlength (Nat.lt_trans hindex hg.small)⟩

theorem commit (hs : Consistent L capacity k sys h t log used) {c : Claim} (hst : sys.stage who = .written c)
    (hrun : sys.step objs L who .commit = .ok sys') :
    ∃ t', Consistent L capacity k sys' h t' log used := by
  have hfits := hs.stages who
  rw [hst] at hfits
  obtain ⟨n, v, hn, hv, rfl, hslot⟩ := hfits
  have hlt := (List.getElem?_eq_some_iff.mp hv).1
  have hclaim : (sys.stage who).claim = some (slotClaim k n) := by
    rw [hst]
    rfl
  rw [Owners.step, hst] at hrun
  dsimp only at hrun
  have hc := (viewed hs.queue (objs who)).counted
  rcases Nat.lt_or_eq_of_le hn with hlater | rfl
  · rw [hc.commit_later hlater hlt] at hrun
    obtain rfl := Except.ok.inj hrun
    exact ⟨t, hs⟩
  · rw [hc.commit_next] at hrun
    obtain rfl := Except.ok.inj hrun
    refine ⟨t + 1, hs.move rfl (hs.queue.committed hv hslot) hs.owned hs.perm trivial (fun j hj => ?_)
      (fun j _ hother => Nat.lt_succ_of_lt (hs.first j hother)) (fun hst => hst.elim)
      (fun _ hc => by cases hc)⟩
    exact (hs.stages j).committed (fun hother => hj (hs.distinct _ _ _ hother hclaim))

/-- Every step of a process that is alone in the part of the code it is in. -/
theorem step (hg : Geometry L capacity k) (hs : Consistent L capacity k sys h t log used)
    (hm : ∀ i, Shares capacity k (objs i)) {act : Act} (halone : sys.Alone who act)
    (hrun : sys.step objs L who act = .ok sys') :
    ∃ h' t' log' used', Consistent L capacity k sys' h' t' log' used' := by
  -- who is elsewhere in its calls does nothing
  have hsame : sys = sys' → ∃ h' t' log' used', Consistent L capacity k sys' h' t' log' used' := by
    rintro rfl
    exact ⟨h, t, log, used, hs⟩
  cases act with
  | acquire =>
    cases hst : sys.stage who with
    | idle => exact ⟨h, t, log, used, hs.acquire (hm who) (halone rfl) hst hrun⟩
    | _ =>
      rw [Owners.step, hst] at hrun
      exact hsame (Except.ok.inj hrun)
  | construct =>
    cases hst : sys.stage who with
    | acquired slot => exact ⟨h, t, log, used, hs.construct (hm who) hst hrun⟩
    | _ =>
      rw [Owners.step, hst] at hrun
      exact hsame (Except.ok.inj hrun)
  | release =>
    cases hst : sys.stage who with
    | constructed slot ptr =>
      obtain ⟨v, hnext⟩ := hs.release hst hrun
      exact ⟨h + 1, t, log, used ++ [v], hnext⟩
    | _ =>
      rw [Owners.step, hst] at hrun
      exact hsame (Except.ok.inj hrun)
  | claim i =>
    cases hst : sys.stage who with
    | idle =>
      obtain ⟨log', used', hnext⟩ := hs.claim hg (hm who) hst hrun
      exact ⟨h, t, log', used', hnext⟩
    | _ =>
      rw [Owners.step, hst] at hrun
      exact hsame (Except.ok.inj hrun)
  | prepare =>
    cases hst : sys.stage who with
    | claimed c index => exact ⟨h, t, log, used, hs.prepare (hm who) hst hrun⟩
    | _ =>
      rw [Owners.step, hst] at hrun
      exact hsame (Except.ok.inj hrun)
  | write =>
    cases hst : sys.stage who with
    | prepared c index => exact ⟨h, t, log, used, hs.write hg (hm who) hst hrun⟩
    | _ =>
      rw [Owners.step, hst] at hrun
      exact hsame (Except.ok.inj hrun)
  | commit =>
    cases hst : sys.stage who with
    | written c =>
      obtain ⟨t', hnext⟩ := hs.commit hst hrun
      exact ⟨h, t', log, used, hnext⟩
    | _ =>
      rw [Owners.step, hst] at hrun
      exact hsame (Except.ok.inj hrun)

theorem exclusive (hs : Consistent L capacity k sys h t log used) : sys.Exclusive := by
  have hnodup := hs.perm.nodup_iff.mpr List.nodup_range
  obtain ⟨-, hused, hapart⟩ := List.nodup_append.mp hnodup
  have hinj : ∀ {v w : Nat}, ((v * L.size : Nat) : Int) = (w * L.size : Nat) → v = w :=
    fun heq => Nat.eq_of_mul_eq_mul_right L.size_pos (Int.ofNat_inj.mp heq)
  refine ⟨?_, fun who slot ptr hst hmem => ?_, fun who who' slot slot' ptr hst hst' => ?_⟩
  · rw [hs.owned]
    exact List.Nodup.map (fun _ _ heq => hinj heq) hused
  · have hfits := hs.stages who
    rw [hst] at hfits
    obtain ⟨-, v, hv, hptr⟩ := hfits
    obtain rfl := Option.some.inj hptr
    rw [hs.owned] at hmem
    obtain ⟨w, hw, heq⟩ := List.mem_map.mp hmem
    obtain rfl := hinj heq
    refine hapart w (List.mem_of_getElem? (i := 0) ?_) w hw rfl
    rw [List.getElem?_drop]
    exact hv
  · refine hs.alone who who' ?_ ?_
    · rw [hst]
      trivial
    · rw [hst']
      trivial

end Consistent

theorem Owners.Run.consistent {L : Layout} {capacity k : Nat} {m : Mempool} {s : Segment}
    {objs : Nat → Mempool} {sys : Owners} (hm : Created L capacity k m s)
    (hobjs : ∀ i, Shares capacity k (objs i)) (h : Owners.Run objs L Owners.Alone s sys) :
    ∃ h t log used, Consistent L capacity k sys h t log used := by
  induction h with
  | init => exact ⟨0, capacity, List.range capacity, [], .init hm⟩
  | step _ hK hrun ih =>
    obtain ⟨h, t, log, used, hs⟩ := ih
    exact hs.step hm.geometry hobjs hK hrun

/-- However many processes attach to a pool, with rings no smaller than the creator's: if nobody acquires
while another is between `acquire` and `release`, an element has one owner. -/
theorem one_owner {L : Layout} {capacity fuel R : Nat} {creator : Mempool} {s : Segment}
    {objs : Nat → Mempool} {sys : Owners} (harray : L.Holds capacity)
    (hcreate : Mempool.create L fuel capacity = some (creator, s)) (hR : ringSize capacity = some R)
    (hobjs : ∀ i, ∃ passed A, ringSize passed = some A ∧ R ≤ A ∧
      Mempool.attach L passed s = some (objs i))
    (hrun : Owners.Run objs L Owners.Alone s sys) : sys.Exclusive := by
  obtain ⟨k, hm⟩ := create_some harray hcreate
  obtain rfl := Option.some.inj (hR.symm.trans hm.size)
  have hshares : ∀ i, Shares capacity k (objs i) := by
    intro i
    obtain ⟨passed, A, hA, hle, hattach⟩ := hobjs i
    obtain ⟨j, -, hhigh, rfl, -, -⟩ := ringSize_some hA
    unfold Mempool.attach at hattach
    rw [hA, hm.header] at hattach
    rw [← Option.some.inj hattach]
    exact ⟨rfl, hle, two_pow_lt_word hhigh⟩
  obtain ⟨h, t, log, used, hs⟩ := hrun.consistent hm hshares
  exact hs.exclusive

/-! ## A fresh pool -/

section Fresh

variable {L : Layout} {capacity k : Nat} {m : Mempool} {s : Segment} {sys : Owners}

/-- The creator's object is what it would be, were it attached. -/
theorem Created.attach (hm : Created L capacity k m s) : Mempool.attach L capacity s = some m := by
  unfold Mempool.attach
  rw [hm.size, hm.header, hm.object]
  rfl

/-- A created pool has its numbers in the ring. -/
theorem Created.queue (hm : Created L capacity k m s) : Queue k s.ring 0 capacity (List.range capacity) := by
  have hq := hm.accounts.queue
  rw [List.length_range] at hq
  exact hq

/-- Whoever acquires in a pool from which nothing was released is handed the first record. -/
theorem Created.acquire (hm : Created L capacity k m s) (hpos : 0 < capacity) (hs : sys.segment = s) (who : Nat)
    (hst : sys.stage who = .idle) : sys.step (fun _ => m) L who .acquire =
      .ok { sys with stage := Function.update sys.stage who (.acquired (slotToken k 0)) } := by
  rw [Owners.step, hst]
  dsimp only
  rw [hs, acquire_some hm.queue hm.serves.toShares hpos, ← hs]
  rfl

/-- The first to construct gets slot 0. -/
theorem Created.construct (hm : Created L capacity k m s) (hpos : 0 < capacity) (hs : sys.segment = s) (who : Nat)
    (hst : sys.stage who = .acquired (slotToken k 0)) : sys.step (fun _ => m) L who .construct =
      .ok { sys with stage := Function.update sys.stage who (.constructed (slotToken k 0) (some 0)) } := by
  obtain ⟨v, hv, -, hslot⟩ := hm.queue.first hpos
  obtain rfl : 0 = v := by
    rw [List.getElem?_range hpos] at hv
    exact Option.some.inj hv
  rw [Owners.step, hst]
  dsimp only
  rw [hs, construct_eq hm.queue hm.serves.toShares hslot hpos, hm.serves.elements 0 hpos, Nat.zero_mul]
  rfl

end Fresh

theorem words_holds : words.Holds 2 := by
  unfold Layout.Holds
  decide

/-- One of two processes allocates. -/
theorem sample_owners : ∃ creator s sys, Mempool.create words 3 2 = some (creator, s) ∧
    Owners.Run (fun _ => creator) words Owners.Alone s sys ∧ sys.owned = [(0, 0)] ∧ sys.Exclusive := by
  obtain ⟨creator, s, hcreate⟩ := create_returns (L := words) (show 2 < 2 ^ 32 by decide)
  obtain ⟨k, hm⟩ := create_some words_holds hcreate
  have hpos : 0 < 2 := by decide
  have h₀ : Owners.Run (fun _ => creator) words Owners.Alone s (.init s) := .init
  have h₁ := h₀.step (fun _ _ hf => hf) (hm.acquire hpos rfl 0 rfl)
  have h₂ := h₁.step (fun he => by cases he) (hm.construct hpos rfl 0 rfl)
  have h₃ := h₂.step (fun he => by cases he)
    (show Owners.step (fun _ => creator) words _ 0 .release = .ok _ from rfl)
  exact ⟨creator, s, _, hcreate, h₃, rfl, one_owner words_holds hcreate hm.size
    (fun _ => ⟨2, 2 ^ k, hm.size, Nat.le_refl _, hm.attach⟩) h₃⟩

/-- Two processes acquire before either has released: they construct in the same element, and both own it. -/
theorem two_owners : ∃ creator s sys, Mempool.create words 3 2 = some (creator, s) ∧
    Owners.Run (fun _ => creator) words (fun _ _ _ => True) s sys ∧ sys.owned = [(0, 0), (1, 0)] ∧
    ¬ sys.Exclusive := by
  obtain ⟨creator, s, hcreate⟩ := create_returns (L := words) (show 2 < 2 ^ 32 by decide)
  obtain ⟨k, hm⟩ := create_some words_holds hcreate
  have hpos : 0 < 2 := by decide
  have h₀ : Owners.Run (fun _ => creator) words (fun _ _ _ => True) s (.init s) := .init
  have h₁ := h₀.step trivial (hm.acquire hpos rfl 0 rfl)
  have h₂ := h₁.step trivial (hm.acquire hpos rfl 1 rfl)
  have h₃ := h₂.step trivial (hm.construct hpos rfl 0 rfl)
  have h₄ := h₃.step trivial (hm.construct hpos rfl 1 rfl)
  have h₅ := h₄.step trivial (show Owners.step (fun _ => creator) words _ 0 .release = .ok _ from rfl)
  have h₆ := h₅.step trivial (show Owners.step (fun _ => creator) words _ 1 .release = .ok _ from rfl)
  refine ⟨creator, s, _, hcreate, h₆, rfl, fun hexclusive => ?_⟩
  have howned : ([0, 0] : List Int).Nodup := hexclusive.owned
  exact absurd howned (by decide)

end Exchange.Pool
