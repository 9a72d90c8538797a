import Exchange.Ipc.RingFifo

/-!
# When `reserve` refuses

`reserve` loads `prod_head`, then `cons_head`, and refuses if what it wants to claim would reach
further than the capacity beyond `cons_head`. `Machine` has every atomic access of the four calls as
a step of its own, so that whatever the other producers and the consumer do can come between the two
loads. `claimFrom` is what `reserve` makes of the two values, and `SHMRing.claim` is the case that
nothing comes between.

The difference is of unsigned numbers. If the consumer gets past the end of the claim before
`cons_head` is loaded, it wraps around, and the request is refused although the ring may be empty
(`empty_ring_refused`). As long as that does not happen, a refusal is as it should be
(`refused_was_full`): the ring was too full when `prod_head` was loaded, as the consumer has only
freed more since.
-/

namespace Exchange.Ring

open Lib

namespace SHMRing

/-- `get_reserved_depth`. -/
def reservedDepth (r : SHMRing) : Nat := sub64 r.prodHead r.consHead

/-- What a record takes that is claimed at `head`: with the end of the ring, if it wraps. -/
def spaceAt (r : SHMRing) (head size : Nat) : Nat :=
  if r.capacity - (head &&& r.mask) < 4 + size then r.capacity - (head &&& r.mask) + (4 + size)
  else 4 + size

/-- There is no room for a record of that size. -/
def FullFor (r : SHMRing) (size : Nat) : Prop := r.capacity < r.reservedDepth + r.spaceAt r.prodHead size

instance (r : SHMRing) (size : Nat) : Decidable (r.FullFor size) := inferInstanceAs (Decidable (_ < _))

/-- The reservation loop of `reserve` between the loads and the `compare_exchange`; `none` is
`std::nullopt`. -/
def claimFrom (r : SHMRing) (size oldProdHead currentConsHead : Nat) : Option Claim :=
  let requiredSpace := add64 4 size
  let tailOffset := oldProdHead &&& r.mask
  let spaceToEnd := sub64 r.capacity tailOffset
  let wrapped := decide (spaceToEnd < requiredSpace)
  let newProdHead :=
    if wrapped then add64 (add64 oldProdHead spaceToEnd) requiredSpace
    else add64 oldProdHead requiredSpace
  if r.capacity < sub64 newProdHead currentConsHead then none
  else some { size, oldProdHead, newProdHead, tailOffset, wrapped }

/-- With nothing between its steps, `reserve` is one step. -/
theorem claim_eq (r : SHMRing) (size : Nat) : r.claim size =
    if size = 0 ∨ r.capacity < add64 4 size then none
    else (r.claimFrom size r.prodHead r.consHead).map fun c => ({ r with prodHead := c.newProdHead }, c) := by
  unfold claim
  by_cases hzero : size = 0
  · rw [if_pos hzero, if_pos (Or.inl hzero)]
  · rw [if_neg hzero]
    by_cases hlarge : r.capacity < add64 4 size
    · rw [if_pos (Or.inr hlarge)]
      exact if_pos hlarge
    · rw [if_neg (not_or.mpr ⟨hzero, hlarge⟩)]
      dsimp only
      rw [if_neg hlarge]
      unfold claimFrom
      dsimp only
      rw [apply_ite (Option.map _)]
      rfl

/-- A ring as its creator left it, with a counter that is a machine number. -/
structure Sized (cap : Nat) (r : SHMRing) : Prop where
  capacity : r.capacity = cap
  pos : 0 < cap
  lt : cap < 2 ^ 64
  mask : r.mask = cap - 1
  consHead : r.consHead < 2 ^ 64

theorem sized_create {cap : Nat} (hpos : 0 < cap) (hcap : cap < 2 ^ 64) : (create cap).Sized cap :=
  ⟨rfl, hpos, hcap, sub64_of_le hpos hcap, Nat.two_pow_pos 64⟩

variable {cap : Nat} {r r' : SHMRing} {size old cons : Nat}

theorem Sized.of_same (h : r.Sized cap) (hcapacity : r'.capacity = r.capacity) (hmask : r'.mask = r.mask)
    (hcons : r'.consHead = r.consHead) : r'.Sized cap :=
  ⟨hcapacity.trans h.capacity, h.pos, h.lt, hmask.trans h.mask, hcons ▸ h.consHead⟩

/-- A claim moves `prod_head`, and nothing else. -/
theorem Sized.claim (h : r.Sized cap) {c : Claim} (hclaim : r.claim size = some (r', c)) : r'.Sized cap := by
  rw [claim_eq] at hclaim
  split at hclaim
  · cases hclaim
  · obtain ⟨c', -, hring⟩ := Option.map_eq_some_iff.mp hclaim
    cases hring
    exact h.of_same rfl rfl rfl

/-- The end of a claim, for a size that can be claimed. -/
def claimEnd (r : SHMRing) (size old : Nat) : Nat := (old + r.spaceAt old size) % 2 ^ 64

/-- A claim is refused exactly when its end lies more than the capacity ahead of the head it read. -/
theorem claimFrom_eq_none (h : r.Sized cap) (hsize : 4 + size ≤ cap) :
    r.claimFrom size old cons = none ↔ cap < sub64 (r.claimEnd size old) cons := by
  have hlt := h.lt
  have hrequired : add64 4 size = 4 + size := Nat.mod_eq_of_lt (by omega)
  have hoff : old &&& r.mask ≤ r.mask := Nat.and_le_right
  have hmask := h.mask
  have hspace : sub64 r.capacity (old &&& r.mask) = r.capacity - (old &&& r.mask) :=
    sub64_of_le (by rw [h.capacity]; omega) (h.capacity ▸ hlt)
  rw [← h.capacity]
  unfold claimFrom claimEnd spaceAt
  simp only [hrequired, hspace]
  by_cases hwrap : r.capacity - (old &&& r.mask) < 4 + size
  · have hend : add64 (add64 old (r.capacity - (old &&& r.mask))) (4 + size) =
        (old + (r.capacity - (old &&& r.mask) + (4 + size))) % 2 ^ 64 := by
      unfold add64
      omega
    simp only [hwrap, decide_true, if_true, hend]
    split <;> simp_all
  · simp only [hwrap, decide_false, Bool.false_eq_true, if_false]
    unfold add64
    split <;> simp_all

/-- What is left to the end of a claim is the depth of the ring and what the claim takes. -/
theorem sub64_claimEnd :
    sub64 (r.claimEnd size r.prodHead) r.consHead = (r.reservedDepth + r.spaceAt r.prodHead size) % 2 ^ 64 := by
  unfold claimEnd reservedDepth sub64
  omega

/-- With nothing between its steps, `reserve` refuses when the ring is full, and only then. -/
theorem claim_isSome (h : r.Sized cap) (hpos : 0 < size) (hsize : 4 + size ≤ cap)
    (hwhole : r.reservedDepth + r.spaceAt r.prodHead size < 2 ^ 64) :
    (r.claim size).isSome = true ↔ ¬ r.FullFor size := by
  have hlt := h.lt
  have hrequired : add64 4 size = 4 + size := Nat.mod_eq_of_lt (by omega)
  have hnone : r.claimFrom size r.prodHead r.consHead = none ↔ _ := claimFrom_eq_none h hsize
  rw [sub64_claimEnd, Nat.mod_eq_of_lt hwhole, ← h.capacity] at hnone
  rw [claim_eq, if_neg (by rw [hrequired, h.capacity]; omega)]
  unfold FullFor
  rw [← hnone, Option.isSome_map, Option.isSome_iff_ne_none]

/-- What `acquire` makes of the two values that it loads: the value that it stores to `cons_head` to get
past a padding with nothing behind it, or a token. -/
def acquireFrom (r : SHMRing) (currentHead currentTail : Nat) : Except Fault (Option Nat × Option AcquireToken) := do
  let headOffset := currentHead &&& r.mask
  let length ← r.load32 headOffset
  if length = wrapMarker then
    let newHead := add64 currentHead (sub64 r.capacity headOffset)
    if newHead = currentTail then .ok (some newHead, none)
    else do
      let length ← r.load32 0
      .ok (none, r.tokenAt 0 newHead length)
  else .ok (none, r.tokenAt headOffset currentHead length)

/-- With nothing between its steps, `acquire` is one step. -/
theorem acquire_eq (r : SHMRing) : r.acquire =
    if r.consHead = r.prodTail then .ok (r, none)
    else (r.acquireFrom r.consHead r.prodTail).map fun o =>
      (o.1.elim r fun newHead => { r with consHead := newHead }, o.2) := by
  unfold acquire
  by_cases hnone : r.consHead = r.prodTail
  · rw [if_pos hnone, if_pos hnone]
  · rw [if_neg hnone, if_neg hnone]
    unfold acquireFrom
    dsimp only
    cases hlength : r.load32 (r.consHead &&& r.mask) with
    | error f => rfl
    | ok length =>
      show (if length = wrapMarker then _ else _) = Except.map _ (if length = wrapMarker then _ else _)
      by_cases hwrap : length = wrapMarker
      · rw [if_pos hwrap, if_pos hwrap]
        split
        · rfl
        · cases r.load32 0 with
          | error f => rfl
          | ok length => rfl
      · rw [if_neg hwrap, if_neg hwrap]
        rfl

/-- A token's head is a 64-bit number. -/
theorem tokenAt_lt {off head length : Nat} {tok : AcquireToken} (h : r.tokenAt off head length = some tok) :
    tok.newConsHead < 2 ^ 64 := by
  unfold tokenAt at h
  split at h
  · cases h
  · cases h
    exact Nat.mod_lt _ (Nat.two_pow_pos 64)

/-- Both are machine numbers. -/
theorem acquireFrom_lt {head tail : Nat} {o : Option Nat × Option AcquireToken}
    (h : r.acquireFrom head tail = .ok o) :
    (∀ n, o.1 = some n → n < 2 ^ 64) ∧ ∀ tok, o.2 = some tok → tok.newConsHead < 2 ^ 64 := by
  unfold acquireFrom at h
  dsimp only at h
  cases hlength : r.load32 (head &&& r.mask) with
  | error f =>
    rw [hlength] at h
    cases h
  | ok length =>
    rw [hlength] at h
    replace h : (if length = wrapMarker then _ else _) = Except.ok o := h
    split at h
    · split at h
      · cases h
        refine ⟨fun n hn => ?_, fun tok htok => by cases htok⟩
        cases hn
        exact Nat.mod_lt _ (Nat.two_pow_pos 64)
      · cases hsecond : r.load32 0 with
        | error f =>
          rw [hsecond] at h
          cases h
        | ok length' =>
          rw [hsecond] at h
          cases h
          exact ⟨fun n hn => (by cases hn), fun tok htok => tokenAt_lt htok⟩
    · cases h
      exact ⟨fun n hn => (by cases hn), fun tok htok => tokenAt_lt htok⟩

/-- `acquire` moves `cons_head` to a machine number, if at all, -/
theorem Sized.acquire {r' : SHMRing} {tok : Option AcquireToken} (hr : r.Sized cap) (h : r.acquire = .ok (r', tok)) :
    r'.Sized cap := by
  rw [acquire_eq] at h
  split at h
  · cases h
    exact hr
  · cases hfrom : r.acquireFrom r.consHead r.prodTail with
    | error f =>
      rw [hfrom] at h
      cases h
    | ok o =>
      rw [hfrom] at h
      obtain ⟨skips, tok'⟩ := o
      cases h
      cases skips with
      | none => exact hr
      | some newHead => exact ⟨hr.capacity, hr.pos, hr.lt, hr.mask, (acquireFrom_lt hfrom).1 newHead rfl⟩

/-- and its token has one to move it to. -/
theorem acquire_lt {r' : SHMRing} {tok : Option AcquireToken} (h : r.acquire = .ok (r', tok)) :
    ∀ t, tok = some t → t.newConsHead < 2 ^ 64 := by
  rw [acquire_eq] at h
  split at h
  · cases h
    exact fun t ht => by cases ht
  · cases hfrom : r.acquireFrom r.consHead r.prodTail with
    | error f =>
      rw [hfrom] at h
      cases h
    | ok o =>
      rw [hfrom] at h
      cases h
      exact (acquireFrom_lt hfrom).2

end SHMRing

/-- Where a producer is in its calls. -/
inductive Producer
  | idle
  /-- At the head of the reservation loop. -/
  | reserving (size : Nat)
  /-- `prod_head` is loaded. -/
  | loaded (size oldProdHead : Nat)
  /-- There is room, and `compare_exchange_weak` comes next. -/
  | claiming (c : Claim)
  /-- `reserve` returns `std::nullopt`. -/
  | refused (size : Nat)
  | claimed (c : Claim)
  /-- The slot is prepared; what is written to it is up to the caller. -/
  | filling (c : Claim)
  /-- `commit` has found `prod_tail` at the start of its slot. -/
  | committing (c : Claim)
  deriving DecidableEq, Repr

/-- Where the consumer is in its calls. -/
inductive Consumer
  | idle
  | loadedHead (currentHead : Nat)
  /-- There is something to read. -/
  | loadedTail (currentHead currentTail : Nat)
  | skipping (newHead : Nat)
  | holding (tok : AcquireToken)
  deriving DecidableEq, Repr

/-- The ring, its producers and its consumer. -/
structure Machine where
  ring : SHMRing
  producers : Nat → Producer
  consumer : Consumer

/-- A step of one party: a call, or what a call does up to its next atomic access and with it. -/
inductive Move
  | reserve (p size : Nat)
  | loadProdHead (p : Nat)
  | loadConsHead (p : Nat)
  /-- A weak exchange may fail although the value is the expected one. -/
  | exchange (p : Nat) (spurious : Bool)
  | back (p : Nat)
  | prepare (p : Nat)
  | write (p pos : Nat) (l : List UInt8)
  | loadProdTail (p : Nat)
  | storeProdTail (p : Nat)
  | acquire
  | loadTail
  | read
  | skip
  | release
  deriving DecidableEq, Repr

namespace Machine

def create (capacity : Nat) : Machine := ⟨.create capacity, fun _ => .idle, .idle⟩

def goto (m : Machine) (p : Nat) (pc : Producer) : Machine :=
  { m with producers := Function.update m.producers p pc }

/-- A move that its party cannot make now changes nothing. -/
def step (m : Machine) : Move → Except Fault Machine
  | .reserve p size =>
    match m.producers p with
    | .idle =>
      .ok (m.goto p (if size = 0 ∨ m.ring.capacity < add64 4 size then .refused size else .reserving size))
    | _ => .ok m
  | .loadProdHead p =>
    match m.producers p with
    | .reserving size => .ok (m.goto p (.loaded size m.ring.prodHead))
    | _ => .ok m
  | .loadConsHead p =>
    match m.producers p with
    | .loaded size oldProdHead =>
      match m.ring.claimFrom size oldProdHead m.ring.consHead with
      | none => .ok (m.goto p (.refused size))
      | some c => .ok (m.goto p (.claiming c))
    | _ => .ok m
  | .exchange p spurious =>
    match m.producers p with
    | .claiming c =>
      if m.ring.prodHead = c.oldProdHead ∧ spurious = false then
        .ok { m.goto p (.claimed c) with ring := { m.ring with prodHead := c.newProdHead } }
      else .ok (m.goto p (.reserving c.size))
    | _ => .ok m
  | .back p =>
    match m.producers p with
    | .refused _ => .ok (m.goto p .idle)
    | _ => .ok m
  | .prepare p =>
    match m.producers p with
    | .claimed c => do
      let ring ← m.ring.prepare c
      .ok { m.goto p (.filling c) with ring := ring }
    | _ => .ok m
  | .write p pos l =>
    match m.producers p with
    | .filling c =>
      if pos + l.length ≤ c.size then do
        let ring ← m.ring.blit (c.payload + pos) l
        .ok { m with ring := ring }
      else .ok m
    | _ => .ok m
  | .loadProdTail p =>
    match m.producers p with
    | .filling c => .ok (if m.ring.prodTail = c.oldProdHead then m.goto p (.committing c) else m)
    | _ => .ok m
  | .storeProdTail p =>
    match m.producers p with
    | .committing c => .ok { m.goto p .idle with ring := { m.ring with prodTail := c.newProdHead } }
    | _ => .ok m
  | .acquire =>
    match m.consumer with
    | .idle => .ok { m with consumer := .loadedHead m.ring.consHead }
    | _ => .ok m
  | .loadTail =>
    match m.consumer with
    | .loadedHead head =>
      .ok { m with consumer := if head = m.ring.prodTail then .idle else .loadedTail head m.ring.prodTail }
    | _ => .ok m
  | .read =>
    match m.consumer with
    | .loadedTail head tail => do
      match ← m.ring.acquireFrom head tail with
      | (some newHead, _) => .ok { m with consumer := .skipping newHead }
      | (none, some tok) => .ok { m with consumer := .holding tok }
      | (none, none) => .ok { m with consumer := .idle }
    | _ => .ok m
  | .skip =>
    match m.consumer with
    | .skipping newHead => .ok { m with ring := { m.ring with consHead := newHead }, consumer := .idle }
    | _ => .ok m
  | .release =>
    match m.consumer with
    | .holding tok => .ok { m with ring := m.ring.release tok, consumer := .idle }
    | _ => .ok m

/-- What `cons_head` will be after a move. -/
def nextConsHead (m : Machine) : Move → Nat
  | .skip =>
    match m.consumer with
    | .skipping newHead => newHead
    | _ => m.ring.consHead
  | .release =>
    match m.consumer with
    | .holding tok => tok.newConsHead
    | _ => m.ring.consHead
  | _ => m.ring.consHead

/-- What a move does, as far as refusals go. -/
inductive Effect (m : Machine) : Move → Machine → Prop
  | nothing (move : Move) (hcons : m.nextConsHead move = m.ring.consHead) : Effect m move m
  | starts (p size : Nat) (hidle : m.producers p = .idle) : Effect m (.reserve p size)
      (m.goto p (if size = 0 ∨ m.ring.capacity < add64 4 size then .refused size else .reserving size))
  | loads (p size : Nat) (hpc : m.producers p = .reserving size) :
      Effect m (.loadProdHead p) (m.goto p (.loaded size m.ring.prodHead))
  | refuses (p size oldProdHead : Nat) (hpc : m.producers p = .loaded size oldProdHead)
      (hnone : m.ring.claimFrom size oldProdHead m.ring.consHead = none) :
      Effect m (.loadConsHead p) (m.goto p (.refused size))
  /-- A producer goes on within its call, or on to another one. -/
  | goes (move : Move) (p : Nat) (pc : Producer) (ring : SHMRing)
      (hcapacity : ring.capacity = m.ring.capacity) (hmask : ring.mask = m.ring.mask)
      (hcons : ring.consHead = m.ring.consHead ∧ m.nextConsHead move = m.ring.consHead)
      (hbusy : m.producers p ≠ .idle) (hpc : ∀ size old, pc ≠ .loaded size old ∧ pc ≠ .refused size) :
      Effect m move { m.goto p pc with ring := ring }
  | consumes (move : Move) (consumer : Consumer)
      (hsmall : (∀ n, consumer = .skipping n → n < 2 ^ 64) ∧ ∀ tok, consumer = .holding tok → tok.newConsHead < 2 ^ 64)
      (hcons : m.nextConsHead move = m.ring.consHead) : Effect m move { m with consumer := consumer }
  | frees (move : Move) (hnext : m.consumer = .skipping (m.nextConsHead move) ∨
      ∃ tok, m.consumer = .holding tok ∧ tok.newConsHead = m.nextConsHead move) :
      Effect m move { m with ring := { m.ring with consHead := m.nextConsHead move }, consumer := .idle }

@[simp] theorem goto_at (m : Machine) (p : Nat) (pc : Producer) : (m.goto p pc).producers p = pc :=
  Function.update_self ..

/-- One producer moves, the others stay. -/
theorem goto_other (m : Machine) {p q : Nat} (pc : Producer) (h : q ≠ p) :
    (m.goto p pc).producers q = m.producers q := Function.update_of_ne h ..

theorem goto_self (m : Machine) (p : Nat) : m.goto p (m.producers p) = m := by
  unfold goto
  rw [Function.update_eq_self]

section Moves

variable {m m' : Machine} {p : Nat}

/-- A producer goes on, and the ring is as it was. -/
theorem Effect.within {move : Move} {pc : Producer} (hcons : m.nextConsHead move = m.ring.consHead)
    (hbusy : m.producers p ≠ .idle) (hpc : ∀ size old, pc ≠ .loaded size old ∧ pc ≠ .refused size) :
    Effect m move (m.goto p pc) := .goes move p pc m.ring rfl rfl ⟨rfl, hcons⟩ hbusy hpc

/-- An idle producer starts a reservation, or is refused for the size alone. -/
theorem effect_reserve {size : Nat} (h : m.step (.reserve p size) = .ok m') : Effect m (.reserve p size) m' := by
  unfold step at h
  simp only at h
  split at h
  · rename_i hidle
    cases h
    exact .starts p size hidle
  · cases h
    exact .nothing _ rfl

theorem effect_loadProdHead (h : m.step (.loadProdHead p) = .ok m') : Effect m (.loadProdHead p) m' := by
  unfold step at h
  simp only at h
  split at h
  · rename_i size hpc
    cases h
    exact .loads p size hpc
  · cases h
    exact .nothing _ rfl

/-- The test of the room comes right behind the load. -/
theorem effect_loadConsHead (h : m.step (.loadConsHead p) = .ok m') : Effect m (.loadConsHead p) m' := by
  unfold step at h
  simp only at h
  split at h
  · rename_i size old hpc
    split at h
    · rename_i hnone
      cases h
      exact .refuses p size old hpc hnone
    · cases h
      exact .within rfl (by simp [hpc]) (by simp)
  · cases h
    exact .nothing _ rfl

/-- An exchange that fails sends the producer back to the head of its loop. -/
theorem effect_exchange {spurious : Bool} (h : m.step (.exchange p spurious) = .ok m') :
    Effect m (.exchange p spurious) m' := by
  unfold step at h
  simp only at h
  split at h
  · rename_i c hpc
    split at h
    · cases h
      exact .goes _ p _ _ rfl rfl ⟨rfl, rfl⟩ (by simp [hpc]) (by simp)
    · cases h
      exact .within rfl (by simp [hpc]) (by simp)
  · cases h
    exact .nothing _ rfl

theorem effect_back (h : m.step (.back p) = .ok m') : Effect m (.back p) m' := by
  unfold step at h
  simp only at h
  split at h
  · rename_i size hpc
    cases h
    exact .within rfl (by simp [hpc]) (by simp)
  · cases h
    exact .nothing _ rfl

theorem effect_prepare (h : m.step (.prepare p) = .ok m') : Effect m (.prepare p) m' := by
  unfold step at h
  simp only at h
  split at h
  · rename_i c hpc
    obtain ⟨ring, hprepare, h⟩ := bind_ok h
    cases h
    rw [SHMRing.prepare_data hprepare]
    exact .goes _ p _ _ rfl rfl ⟨rfl, rfl⟩ (by simp [hpc]) (by simp)
  · cases h
    exact .nothing _ rfl

/-- A write leaves the producer where it is. -/
theorem effect_write {pos : Nat} {l : List UInt8} (h : m.step (.write p pos l) = .ok m') :
    Effect m (.write p pos l) m' := by
  unfold step at h
  simp only at h
  split at h
  · rename_i c hpc
    split at h
    · obtain ⟨ring, hblit, h⟩ := bind_ok h
      cases h
      have hdata := SHMRing.blit_data hblit
      have hgoes := Effect.goes (m := m) (.write p pos l) p (.filling c) ring (by rw [hdata]) (by rw [hdata])
        ⟨by rw [hdata], rfl⟩ (by simp [hpc]) (by simp)
      rw [← hpc, m.goto_self p] at hgoes
      exact hgoes
    · cases h
      exact .nothing _ rfl
  · cases h
    exact .nothing _ rfl

/-- `commit` waits for the slots before its own. -/
theorem effect_loadProdTail (h : m.step (.loadProdTail p) = .ok m') : Effect m (.loadProdTail p) m' := by
  unfold step at h
  simp only at h
  split at h
  · rename_i c hpc
    split at h
    · cases h
      exact .within rfl (by simp [hpc]) (by simp)
    · cases h
      exact .nothing _ rfl
  · cases h
    exact .nothing _ rfl

theorem effect_storeProdTail (h : m.step (.storeProdTail p) = .ok m') : Effect m (.storeProdTail p) m' := by
  unfold step at h
  simp only at h
  split at h
  · rename_i c hpc
    cases h
    exact .goes _ p _ _ rfl rfl ⟨rfl, rfl⟩ (by simp [hpc]) (by simp)
  · cases h
    exact .nothing _ rfl

theorem effect_acquire (h : m.step .acquire = .ok m') : Effect m .acquire m' := by
  unfold step at h
  simp only at h
  split at h
  · cases h
    exact .consumes _ _ (by simp) rfl
  · cases h
    exact .nothing _ rfl

theorem effect_loadTail (h : m.step .loadTail = .ok m') : Effect m .loadTail m' := by
  unfold step at h
  simp only at h
  split at h
  · cases h
    refine .consumes _ _ ?_ rfl
    split <;> simp
  · cases h
    exact .nothing _ rfl

/-- What the consumer will store later is a machine number. -/
theorem effect_read (h : m.step .read = .ok m') : Effect m .read m' := by
  unfold step at h
  simp only at h
  split at h
  · rename_i head tail hpc
    obtain ⟨⟨skips, tok⟩, hfrom, h⟩ := bind_ok h
    obtain ⟨hskips, htok⟩ := SHMRing.acquireFrom_lt hfrom
    cases skips with
    | some newHead =>
      cases h
      refine .consumes _ _ ⟨fun n hn => ?_, by simp⟩ rfl
      cases hn
      exact hskips _ rfl
    | none =>
      cases tok with
      | some tok =>
        cases h
        refine .consumes _ _ ⟨by simp, fun t ht => ?_⟩ rfl
        cases ht
        exact htok _ rfl
      | none =>
        cases h
        exact .consumes _ _ (by simp) rfl
  · cases h
    exact .nothing _ rfl

theorem nextConsHead_skip {newHead : Nat} (h : m.consumer = .skipping newHead) : m.nextConsHead .skip = newHead := by
  unfold nextConsHead
  rw [h]

theorem nextConsHead_release {tok : AcquireToken} (h : m.consumer = .holding tok) :
    m.nextConsHead .release = tok.newConsHead := by
  unfold nextConsHead
  rw [h]

theorem effect_skip (h : m.step .skip = .ok m') : Effect m .skip m' := by
  unfold step at h
  cases hpc : m.consumer with
  | skipping newHead =>
    rw [hpc] at h
    cases h
    have hfrees := Effect.frees (m := m) .skip (Or.inl (by rw [nextConsHead_skip hpc, hpc]))
    rw [nextConsHead_skip hpc] at hfrees
    exact hfrees
  | idle | loadedHead _ | loadedTail _ _ | holding _ =>
    rw [hpc] at h
    cases h
    refine .nothing _ ?_
    unfold nextConsHead
    rw [hpc]

theorem effect_release (h : m.step .release = .ok m') : Effect m .release m' := by
  unfold step at h
  cases hpc : m.consumer with
  | holding tok =>
    rw [hpc] at h
    cases h
    have hfrees := Effect.frees (m := m) .release (Or.inr ⟨tok, hpc, (nextConsHead_release hpc).symm⟩)
    rw [nextConsHead_release hpc] at hfrees
    exact hfrees
  | idle | loadedHead _ | loadedTail _ _ | skipping _ =>
    rw [hpc] at h
    cases h
    refine .nothing _ ?_
    unfold nextConsHead
    rw [hpc]

/-- Everything a step can do. -/
theorem step_effect {move : Move} (h : m.step move = .ok m') : Effect m move m' := by
  cases move with
  | reserve p size => exact effect_reserve h
  | loadProdHead p => exact effect_loadProdHead h
  | loadConsHead p => exact effect_loadConsHead h
  | exchange p spurious => exact effect_exchange h
  | back p => exact effect_back h
  | prepare p => exact effect_prepare h
  | write p pos l => exact effect_write h
  | loadProdTail p => exact effect_loadProdTail h
  | storeProdTail p => exact effect_storeProdTail h
  | acquire => exact effect_acquire h
  | loadTail => exact effect_loadTail h
  | read => exact effect_read h
  | skip => exact effect_skip h
  | release => exact effect_release h

end Moves

namespace Effect

variable {m m' : Machine} {move : Move} {p size oldProdHead : Nat}

/-- Only the consumer moves its head, and nobody the size. -/
theorem ring (h : Effect m move m') :
    m'.ring.capacity = m.ring.capacity ∧ m'.ring.mask = m.ring.mask ∧ m'.ring.consHead = m.nextConsHead move := by
  cases h with
  | nothing _ hcons => exact ⟨rfl, rfl, hcons.symm⟩
  | starts => exact ⟨rfl, rfl, rfl⟩
  | loads => exact ⟨rfl, rfl, rfl⟩
  | refuses => exact ⟨rfl, rfl, rfl⟩
  | goes _ _ _ _ hcapacity hmask hcons => exact ⟨hcapacity, hmask, hcons.1.trans hcons.2.symm⟩
  | consumes _ _ _ hcons => exact ⟨rfl, rfl, hcons.symm⟩
  | frees => exact ⟨rfl, rfl, rfl⟩

/-- A producer has loaded `prod_head`: it had before, or has now. -/
theorem loaded (h : Effect m move m') (hpc : m'.producers p = .loaded size oldProdHead) :
    m.producers p = .loaded size oldProdHead ∨
      (m.producers p = .reserving size ∧ oldProdHead = m.ring.prodHead ∧ m'.ring = m.ring) := by
  cases h with
  | nothing => exact Or.inl hpc
  | starts q size' _ =>
    by_cases hq : p = q
    · subst hq
      rw [goto_at] at hpc
      split at hpc <;> cases hpc
    · rw [goto_other _ _ hq] at hpc
      exact Or.inl hpc
  | loads q size' hreserving =>
    by_cases hq : p = q
    · subst hq
      rw [goto_at] at hpc
      cases hpc
      exact Or.inr ⟨hreserving, rfl, rfl⟩
    · rw [goto_other _ _ hq] at hpc
      exact Or.inl hpc
  | refuses q size' old' _ _ =>
    by_cases hq : p = q
    · subst hq
      rw [goto_at] at hpc
      cases hpc
    · rw [goto_other _ _ hq] at hpc
      exact Or.inl hpc
  | goes _ q pc _ _ _ _ _ hother =>
    by_cases hq : p = q
    · subst hq
      exact absurd ((m.goto_at p pc).symm.trans hpc) (hother _ _).1
    · exact Or.inl ((m.goto_other pc hq).symm.trans hpc)
  | consumes => exact Or.inl hpc
  | frees => exact Or.inl hpc

/-- A call has come to nothing: it had before, or the size is out of the question, or the test of
the room has failed. -/
theorem refused (h : Effect m move m') (hpc : m'.producers p = .refused size) :
    m.producers p = .refused size ∨
      (move = .reserve p size ∧ (size = 0 ∨ m.ring.capacity < add64 4 size)) ∨
      ∃ old, m.producers p = .loaded size old ∧ m.ring.claimFrom size old m.ring.consHead = none := by
  cases h with
  | nothing => exact Or.inl hpc
  | starts q size' _ =>
    by_cases hq : p = q
    · subst hq
      rw [goto_at] at hpc
      split at hpc
      · rename_i hout
        cases hpc
        exact Or.inr (Or.inl ⟨rfl, hout⟩)
      · cases hpc
    · rw [goto_other _ _ hq] at hpc
      exact Or.inl hpc
  | loads q size' _ =>
    by_cases hq : p = q
    · subst hq
      rw [goto_at] at hpc
      cases hpc
    · rw [goto_other _ _ hq] at hpc
      exact Or.inl hpc
  | refuses q size' old' hloaded hnone =>
    by_cases hq : p = q
    · subst hq
      rw [goto_at] at hpc
      cases hpc
      exact Or.inr (Or.inr ⟨old', hloaded, hnone⟩)
    · rw [goto_other _ _ hq] at hpc
      exact Or.inl hpc
  | goes _ q pc _ _ _ _ _ hother =>
    by_cases hq : p = q
    · subst hq
      exact absurd ((m.goto_at p pc).symm.trans hpc) (hother size 0).2
    · exact Or.inl ((m.goto_other pc hq).symm.trans hpc)
  | consumes => exact Or.inl hpc
  | frees => exact Or.inl hpc

/-- What the consumer is about to store is a machine number, and so is what is stored. -/
theorem consumer (h : Effect m move m') (hcons : m.ring.consHead < 2 ^ 64)
    (hskip : ∀ n, m.consumer = .skipping n → n < 2 ^ 64)
    (hhold : ∀ tok, m.consumer = .holding tok → tok.newConsHead < 2 ^ 64) :
    m'.ring.consHead < 2 ^ 64 ∧ (∀ n, m'.consumer = .skipping n → n < 2 ^ 64) ∧
      ∀ tok, m'.consumer = .holding tok → tok.newConsHead < 2 ^ 64 := by
  cases h with
  | nothing => exact ⟨hcons, hskip, hhold⟩
  | starts => exact ⟨hcons, hskip, hhold⟩
  | loads => exact ⟨hcons, hskip, hhold⟩
  | refuses => exact ⟨hcons, hskip, hhold⟩
  | goes _ _ _ ring _ _ hring => exact ⟨hring.1 ▸ hcons, hskip, hhold⟩
  | consumes _ _ hsmall _ => exact ⟨hcons, hsmall.1, hsmall.2⟩
  | frees _ hnext =>
    refine ⟨?_, fun n hn => (by cases hn), fun tok htok => (by cases htok)⟩
    rcases hnext with hn | ⟨tok, htok, hnew⟩
    · exact hskip _ hn
    · exact hnew ▸ hhold tok htok

end Effect

/-- The states of a ring that its parties lead to. `seen p` are those since the current call of `p` began,
the last one first. -/
inductive Run (K : Machine → Move → Prop) (cap : Nat) : Machine → (Nat → List SHMRing) → Prop
  | create : Run K cap (create cap) fun _ => [.create cap]
  | step {m m' : Machine} {seen : Nat → List SHMRing} {move : Move} (h : Run K cap m seen) (hK : K m move)
      (hstep : m.step move = .ok m') :
      Run K cap m' fun p => if m.producers p = .idle then [m'.ring] else m'.ring :: seen p

/-- A call of `reserve` that has come to nothing, for a size that could be claimed, has seen a ring that was full. -/
def RefusedFull (cap : Nat) (m : Machine) (seen : Nat → List SHMRing) : Prop :=
  ∀ p size, m.producers p = .refused size → 4 + size ≤ cap → ∃ r ∈ seen p, r.FullFor size

/-- The consumer does not get past the end of a claim that is being computed from a `prod_head` loaded before;
nothing is claimed for an empty record. -/
structure Behind (m : Machine) (move : Move) : Prop where
  nonempty : ∀ p size, move = .reserve p size → size ≠ 0
  cons : ∀ p size oldProdHead, m.producers p = .loaded size oldProdHead →
    sub64 (m.nextConsHead move) m.ring.consHead ≤ sub64 (m.ring.claimEnd size oldProdHead) m.ring.consHead

/-- What is known of the ring that `prod_head` was loaded from, and how far the consumer has got since. -/
structure Since (m : Machine) (r : SHMRing) (size oldProdHead gone : Nat) : Prop where
  capacity : m.ring.capacity = r.capacity
  mask : m.ring.mask = r.mask
  prodHead : r.prodHead = oldProdHead
  before : r.consHead < 2 ^ 64
  within : gone ≤ r.reservedDepth + r.spaceAt oldProdHead size
  consHead : m.ring.consHead = (r.consHead + gone) % 2 ^ 64

/-- What holds of every machine that behaves. -/
structure Sound (cap : Nat) (m : Machine) (seen : Nat → List SHMRing) : Prop where
  sized : m.ring.Sized cap
  skipping : ∀ n, m.consumer = .skipping n → n < 2 ^ 64
  holding : ∀ tok, m.consumer = .holding tok → tok.newConsHead < 2 ^ 64
  current : ∀ p, m.ring ∈ seen p
  loaded : ∀ p size oldProdHead, m.producers p = .loaded size oldProdHead →
    ∃ r ∈ seen p, ∃ gone, m.Since r size oldProdHead gone
  refused : RefusedFull cap m seen

section Steps

variable {cap : Nat} {m : Machine} {r : SHMRing} {size old gone : Nat}

/-- With what the consumer has freed since, there is as much to the end of the claim as there was before. -/
theorem Since.left (h : m.Since r size old gone) : sub64 (m.ring.claimEnd size old) m.ring.consHead ≤
    r.reservedDepth + r.spaceAt old size - gone := by
  have hspace : m.ring.spaceAt old size = r.spaceAt old size := by
    unfold SHMRing.spaceAt
    rw [h.capacity, h.mask]
  have hbefore := h.before
  have hwithin := h.within
  have hprod := h.prodHead
  unfold SHMRing.claimEnd
  rw [hspace, h.consHead]
  unfold SHMRing.reservedDepth sub64 at *
  omega

/-- The consumer goes on, but not past the end. -/
theorem Since.advance (h : m.Since r size old gone) {m' : Machine} (hcapacity : m'.ring.capacity = m.ring.capacity)
    (hmask : m'.ring.mask = m.ring.mask) (hlt : m'.ring.consHead < 2 ^ 64) (hsized : m.ring.consHead < 2 ^ 64)
    (hbehind : sub64 m'.ring.consHead m.ring.consHead ≤ sub64 (m.ring.claimEnd size old) m.ring.consHead) :
    m'.Since r size old (gone + sub64 m'.ring.consHead m.ring.consHead) := by
  have hleft := h.left
  have hwithin := h.within
  have hcons := h.consHead
  refine ⟨hcapacity.trans h.capacity, hmask.trans h.mask, h.prodHead, h.before, by omega, ?_⟩
  unfold sub64 at *
  omega

/-- If the difference says that the ring is full, it was when `prod_head` was loaded. -/
theorem Since.full (h : m.Since r size old gone) (hsized : m.ring.Sized cap) (hsize : 4 + size ≤ cap)
    (hnone : m.ring.claimFrom size old m.ring.consHead = none) : r.FullFor size := by
  have hleft := h.left
  have hover := (SHMRing.claimFrom_eq_none hsized hsize).mp hnone
  unfold SHMRing.FullFor
  rw [← h.capacity, hsized.capacity, h.prodHead]
  omega

end Steps

/-- One move. -/
theorem Sound.step {cap : Nat} {m m' : Machine} {seen : Nat → List SHMRing} {move : Move} (h : Sound cap m seen)
    (hK : m.Behind move) (hstep : m.step move = .ok m') :
    Sound cap m' fun p => if m.producers p = .idle then [m'.ring] else m'.ring :: seen p := by
  have heff := step_effect hstep
  obtain ⟨hcapacity, hmask, hcons⟩ := heff.ring
  obtain ⟨hlt, hskip, hhold⟩ := heff.consumer h.sized.consHead h.skipping h.holding
  have hcurrent : ∀ p, m'.ring ∈ (if m.producers p = .idle then [m'.ring] else m'.ring :: seen p) := by
    intro p
    split
    · exact List.mem_singleton.mpr rfl
    · exact List.mem_cons_self
  -- what a call has seen, it goes on having seen
  have hkeep : ∀ p, m.producers p ≠ .idle → ∀ r ∈ seen p,
      r ∈ (if m.producers p = .idle then [m'.ring] else m'.ring :: seen p) := by
    intro p hbusy r hr
    rw [if_neg hbusy]
    exact List.mem_cons_of_mem _ hr
  refine ⟨⟨hcapacity.trans h.sized.capacity, h.sized.pos, h.sized.lt, hmask.trans h.sized.mask, hlt⟩, hskip, hhold,
    hcurrent, fun p size old hpc => ?_, fun p size hpc hsize => ?_⟩
  · rcases heff.loaded hpc with hbefore | ⟨-, rfl, hring⟩
    · obtain ⟨r, hr, gone, hsince⟩ := h.loaded p size old hbefore
      refine ⟨r, hkeep p (by rw [hbefore]; simp) r hr, _, hsince.advance hcapacity hmask hlt h.sized.consHead ?_⟩
      rw [hcons]
      exact hK.cons p size old hbefore
    · refine ⟨m'.ring, hcurrent p, 0, rfl, rfl, by rw [hring], hlt, Nat.zero_le _, ?_⟩
      exact (Nat.mod_eq_of_lt hlt).symm
  · rcases heff.refused hpc with hbefore | ⟨hmove, hout⟩ | ⟨old, hbefore, hnone⟩
    · obtain ⟨r, hr, hfull⟩ := h.refused p size hbefore hsize
      exact ⟨r, hkeep p (by rw [hbefore]; simp) r hr, hfull⟩
    · -- the size is neither empty nor too large
      have hsmall : add64 4 size = 4 + size := Nat.mod_eq_of_lt (by have := h.sized.lt; omega)
      rw [hsmall, h.sized.capacity] at hout
      have hne := hK.nonempty p size hmove
      omega
    · obtain ⟨r, hr, gone, hsince⟩ := h.loaded p size old hbefore
      exact ⟨r, hkeep p (by rw [hbefore]; simp) r hr, hsince.full h.sized hsize hnone⟩

/-- By induction on the run: a head that was loaded is one the ring has shown, and what was refused was full. -/
theorem Sound.run {cap : Nat} (hpos : 0 < cap) (hcap : cap < 2 ^ 64) {m : Machine} {seen : Nat → List SHMRing}
    (h : Run Behind cap m seen) : Sound cap m seen := by
  induction h with
  | create =>
    refine ⟨SHMRing.sized_create hpos hcap, fun n hn => ?_, fun tok htok => ?_, fun p => List.mem_singleton.mpr rfl,
      fun p size old hpc => ?_, fun p size hpc => ?_⟩
    · cases hn
    · cases htok
    · cases hpc
    · cases hpc
  | step _ hK hstep ih => exact ih.step hK hstep

/-- And once it is past, the difference wraps around. -/
theorem overtaken_refused {cap : Nat} {m : Machine} (h : m.ring.Sized cap) {size old past : Nat}
    (hsize : 4 + size ≤ cap) (hpast : 0 < past) (hclose : past < 2 ^ 64 - cap)
    (hcons : m.ring.consHead = (m.ring.claimEnd size old + past) % 2 ^ 64) :
    m.ring.claimFrom size old m.ring.consHead = none := by
  rw [SHMRing.claimFrom_eq_none h hsize, hcons]
  have hend : m.ring.claimEnd size old < 2 ^ 64 := Nat.mod_lt _ (Nat.two_pow_pos 64)
  unfold sub64
  omega

/-- `reserve` reports that the ring is full only when it is full, as long as the consumer does not get past a
claim that is being computed. -/
theorem refused_was_full {cap : Nat} (hpos : 0 < cap) (hcap : cap < 2 ^ 64) {m : Machine}
    {seen : Nat → List SHMRing} (h : Run Behind cap m seen) : RefusedFull cap m seen :=
  (Sound.run hpos hcap h).refused

/-- Makes these moves, as far as `K` holds of them. -/
def moves (K : Machine → Move → Bool) :
    Machine × (Nat → List SHMRing) → List Move → Option (Machine × (Nat → List SHMRing))
  | s, [] => some s
  | s, move :: rest =>
    if K s.1 move then
      match s.1.step move with
      | .error _ => none
      | .ok m' => moves K (m', fun p => if s.1.producers p = .idle then [m'.ring] else m'.ring :: s.2 p) rest
    else none

/-- By induction on the moves that the condition lets through. -/
theorem Run.moves {K : Machine → Move → Bool} {K' : Machine → Move → Prop} (hK : ∀ m move, K m move = true → K' m move)
    {cap : Nat} : ∀ {list : List Move} {s s' : Machine × (Nat → List SHMRing)}, Run K' cap s.1 s.2 →
      Machine.moves K s list = some s' → Run K' cap s'.1 s'.2
  | [], s, s', h, he => by
    obtain rfl := Option.some.inj he
    exact h
  | move :: rest, s, s', h, he => by
    unfold Machine.moves at he
    split at he
    · rename_i hk
      cases hstep : s.1.step move with
      | error f =>
        rw [hstep] at he
        cases he
      | ok m' =>
        rw [hstep] at he
        exact Run.moves hK (.step h (hK _ _ hk) hstep) he
    · cases he

/-- A producer that puts two bytes into the ring. -/
def put (p : Nat) : List Move :=
  [.reserve p 2, .loadProdHead p, .loadConsHead p, .exchange p false, .prepare p, .write p 0 [1, 2],
    .loadProdTail p, .storeProdTail p]

/-- The consumer takes one record out. -/
def take : List Move := [.acquire, .loadTail, .read, .release]

/-- A call of `reserve` for nothing. -/
def asksNothing : Move → Bool
  | .reserve _ size => size = 0
  | _ => false

/-- A consumer that does not move gets past nothing. -/
theorem Behind.of_still {m : Machine} {move : Move}
    (h : decide (asksNothing move = false ∧ m.nextConsHead move = m.ring.consHead ∧ m.ring.consHead < 2 ^ 64) = true) :
    m.Behind move := by
  obtain ⟨hasks, hcons, hlt⟩ := of_decide_eq_true h
  refine ⟨fun p size hmove => ?_, fun p size old _ => ?_⟩
  · subst hmove
    exact of_decide_eq_false hasks
  · have hzero : sub64 m.ring.consHead m.ring.consHead = 0 := by
      rw [sub64_of_le le_rfl hlt, Nat.sub_self]
    rw [hcons, hzero]
    exact Nat.zero_le _

/-- Two records fill a ring of sixteen bytes but for four, and the third is refused. -/
theorem sample_refusal : ∃ m seen, Run Behind 16 m seen ∧ m.producers 0 = .refused 6 ∧ RefusedFull 16 m seen := by
  have hmoves : (moves (fun m move => decide (asksNothing move = false ∧ m.nextConsHead move = m.ring.consHead ∧
      m.ring.consHead < 2 ^ 64)) (create 16, fun _ => [.create 16])
      (put 1 ++ put 1 ++ [.reserve 0 6, .loadProdHead 0, .loadConsHead 0])).any
        (fun s => s.1.producers 0 = .refused 6) = true := by decide +kernel
  obtain ⟨s, hs, hrefused⟩ := (Option.any_eq_true ..).mp hmoves
  have hrun := Run.moves (fun _ _ => Behind.of_still) .create hs
  exact ⟨s.1, s.2, hrun, of_decide_eq_true hrefused, refused_was_full (by decide) (by decide) hrun⟩

/-- Two records come and go between the two loads of another producer, and it is refused on a ring of sixteen
bytes of which never more than six are in use. -/
theorem empty_ring_refused : ∃ m seen, Run (fun _ move => asksNothing move = false) 16 m seen ∧
    (∀ r ∈ seen 0, r.reservedDepth ≤ 6) ∧ ¬ RefusedFull 16 m seen := by
  have hmoves : (moves (fun _ move => !asksNothing move) (create 16, fun _ => [.create 16])
      ([.reserve 0 1, .loadProdHead 0] ++ put 1 ++ take ++ put 1 ++ take ++ [.loadConsHead 0])).any
        (fun s => s.1.producers 0 = .refused 1 ∧ ∀ r ∈ s.2 0, r.reservedDepth ≤ 6 ∧ ¬ r.FullFor 1) = true := by
    decide +kernel
  obtain ⟨s, hs, hend⟩ := (Option.any_eq_true ..).mp hmoves
  obtain ⟨hrefused, hempty⟩ := of_decide_eq_true hend
  have hrun := Run.moves (fun _ _ => Bool.not_eq_true' _ |>.mp) .create hs
  refine ⟨s.1, s.2, hrun, fun r hr => (hempty r hr).1, fun h => ?_⟩
  obtain ⟨r, hr, hfull⟩ := h 0 1 hrefused (by decide)
  exact (hempty r hr).2 hfull

end Machine

/-! ## A drained ring -/

namespace Sys

/-- Everything has been consumed and released, and nothing is claimed. -/
structure Drained (sys : Sys) : Prop where
  consumed : sys.ring.consHead = sys.ring.prodTail
  published : sys.ring.prodTail = sys.ring.prodHead
  released : sys.holding = none

/-- The ring and the consumer's token hold machine numbers. -/
structure Sized (cap : Nat) (sys : Sys) : Prop where
  ring : sys.ring.Sized cap
  holding : ∀ tok, sys.holding = some tok → tok.newConsHead < 2 ^ 64

theorem Sized.step {cap : Nat} {sys sys' : Sys} {act : Act} (h : sys.Sized cap) (hstep : sys.step act = .ok sys') :
    sys'.Sized cap := by
  cases step_does hstep with
  | nothing => exact h
  | claims hclaim => exact ⟨h.ring.claim hclaim, h.holding⟩
  | prepares _ hprepare =>
    rw [SHMRing.prepare_data hprepare]
    exact ⟨h.ring.of_same rfl rfl rfl, h.holding⟩
  | writes _ _ hblit =>
    rw [SHMRing.blit_data hblit]
    exact ⟨h.ring.of_same rfl rfl rfl, h.holding⟩
  | commits => exact ⟨h.ring.of_same rfl rfl rfl, h.holding⟩
  | acquires hacquire => exact ⟨h.ring.acquire hacquire, SHMRing.acquire_lt hacquire⟩
  | releases hholds =>
    refine ⟨⟨h.ring.capacity, h.ring.pos, h.ring.lt, h.ring.mask, h.holding _ hholds⟩, fun tok htok => ?_⟩
    cases htok

theorem Sized.run {cap : Nat} : ∀ {acts : List Act} {sys sys' : Sys}, sys.Sized cap → sys.run acts = .ok sys' →
    sys'.Sized cap
  | [], sys, sys', h, hrun => by
    cases hrun
    exact h
  | act :: acts, sys, sys', h, hrun => by
    unfold Sys.run at hrun
    rw [List.foldlM_cons] at hrun
    cases hstep : sys.step act with
    | error f =>
      rw [hstep] at hrun
      cases hrun
    | ok sys₁ =>
      rw [hstep] at hrun
      exact Sized.run (h.step hstep) hrun

theorem Sized.create {cap : Nat} (hpos : 0 < cap) (hcap : cap < 2 ^ 64) : (create cap).Sized cap :=
  ⟨SHMRing.sized_create hpos hcap, fun tok htok => by cases htok⟩

/-- On a drained ring the consumer finds nothing, and a producer that is refused leaves nothing behind. -/
theorem Drained.stuck {sys : Sys} (h : sys.Drained) {size : Nat}
    (hrefused : sys.ring.claim size = none) : ∀ acts : List Act,
      (∀ act ∈ acts, act = .claim size ∨ act = .acquire ∨ act = .release) → sys.run acts = .ok sys
  | [], _ => rfl
  | act :: acts, hacts => by
    have hstep : sys.step act = .ok sys := by
      rcases hacts act List.mem_cons_self with rfl | rfl | rfl
      · unfold step
        simp only [hrefused]
      · unfold step
        simp only [h.released]
        rw [show sys.ring.acquire = .ok (sys.ring, none) from if_pos h.consumed, ← h.released]
        rfl
      · unfold step
        simp only [h.released]
    unfold run
    rw [List.foldlM_cons, hstep]
    exact Drained.stuck h hrefused acts fun act hact => hacts act (List.mem_cons_of_mem _ hact)

end Sys

/-- A drained ring accepts a message that fits, if it fits before the end of the ring, or if what is before the
current offset has room for it too; otherwise it is refused for good, as often as the producer tries again. -/
theorem drained_reserve_iff {k : Nat} (hk : k < 64) {acts : List Act} {sys : Sys}
    (hrun : (Sys.create (2 ^ k)).run acts = .ok sys) (hdrained : sys.Drained) {size : Nat} (hpos : 0 < size)
    (hsize : 4 + size ≤ 2 ^ k) :
    ((sys.ring.claim size).isSome = true ↔
      sys.ring.prodHead % 2 ^ k + (4 + size) ≤ 2 ^ k ∨ 4 + size ≤ sys.ring.prodHead % 2 ^ k) ∧
    (sys.ring.claim size = none → ∀ again : List Act,
      (∀ act ∈ again, act = .claim size ∨ act = .acquire ∨ act = .release) →
        ∃ sys', sys.run again = .ok sys' ∧ sys'.ring.claim size = none) := by
  have hlt : 2 ^ k < 2 ^ 64 := Nat.pow_lt_pow_right (by decide) hk
  have hhalf : 2 ^ k ≤ 2 ^ 63 := Nat.pow_le_pow_right (by decide) (Nat.le_of_lt_succ hk)
  have hsized := (Sys.Sized.create (Nat.two_pow_pos k) hlt).run hrun
  have hring := hsized.ring
  have hoff : sys.ring.prodHead % 2 ^ k < 2 ^ k := Nat.mod_lt _ (Nat.two_pow_pos k)
  -- nothing is reserved
  have hdepth : sys.ring.reservedDepth = 0 := by
    unfold SHMRing.reservedDepth
    rw [← hdrained.published, ← hdrained.consumed, sub64_of_le le_rfl hring.consHead, Nat.sub_self]
  have hspace : sys.ring.spaceAt sys.ring.prodHead size =
      if 2 ^ k - sys.ring.prodHead % 2 ^ k < 4 + size then 2 ^ k - sys.ring.prodHead % 2 ^ k + (4 + size)
      else 4 + size := by
    unfold SHMRing.spaceAt
    rw [hring.capacity, hring.mask, Nat.and_two_pow_sub_one_eq_mod]
  refine ⟨?_, fun hrefused again hagain => ⟨sys, hdrained.stuck hrefused again hagain, hrefused⟩⟩
  rw [SHMRing.claim_isSome hring hpos hsize]
  · unfold SHMRing.FullFor
    rw [hdepth, hspace, hring.capacity]
    split <;> omega
  · rw [hdepth, hspace]
    split <;> omega

/-- Eight bytes have gone through a ring of sixteen. -/
def drainedActs : List Act := [.claim 4, .prepare 0, .write 0 0 [1, 2, 3, 4], .commit 0, .acquire, .release]

/-- The run that drains the ring at offset 8. -/
theorem drainedActs_run : ∃ sys, (Sys.create (2 ^ 4)).run drainedActs = .ok sys ∧ sys.Drained ∧
    sys.ring.prodHead = 8 := by
  have hend : ((Sys.create (2 ^ 4)).run drainedActs).toOption.any (fun sys => sys.ring.consHead = sys.ring.prodTail ∧
      sys.ring.prodTail = sys.ring.prodHead ∧ sys.holding = none ∧ sys.ring.prodHead = 8) = true := by decide +kernel
  cases hrun : (Sys.create (2 ^ 4)).run drainedActs with
  | error f =>
    rw [hrun] at hend
    cases hend
  | ok sys =>
    rw [hrun] at hend
    obtain ⟨hconsumed, hpublished, hreleased, hhead⟩ := of_decide_eq_true hend
    exact ⟨sys, rfl, ⟨hconsumed, hpublished, hreleased⟩, hhead⟩

/-- There is room for eight bytes more on either side. -/
theorem sample_drained : ∃ sys, (Sys.create (2 ^ 4)).run drainedActs = .ok sys ∧ (sys.ring.claim 4).isSome = true := by
  obtain ⟨sys, hrun, hdrained, hhead⟩ := drainedActs_run
  refine ⟨sys, hrun, ((drained_reserve_iff (by decide) hrun hdrained (by decide) (by decide)).1).mpr (Or.inl ?_)⟩
  rw [hhead]
  decide

/-- A record of nine bytes would have to leave out the eight up to the end of the ring, and does not fit into the
eight before them: the empty ring refuses it. -/
theorem drained_ring_refuses : ¬ ∀ (k : Nat) (acts : List Act) (sys : Sys), k < 64 →
    (Sys.create (2 ^ k)).run acts = .ok sys → sys.Drained → ∀ size, 0 < size → 4 + size ≤ 2 ^ k →
      (sys.ring.claim size).isSome = true := by
  intro h
  obtain ⟨sys, hrun, hdrained, hhead⟩ := drainedActs_run
  have hend : ((Sys.create (2 ^ 4)).run drainedActs).toOption.any (fun sys => (sys.ring.claim 5).isNone) = true := by
    decide +kernel
  rw [hrun] at hend
  have hnone := Option.isNone_iff_eq_none.mp hend
  have hsome := h 4 drainedActs sys (by decide) hrun hdrained 5 (by decide) (by decide)
  rw [hnone] at hsome
  cases hsome

end Exchange.Ring
