import Exchange.Ipc.Ring

/-!
# A ring of records of eight bytes

When every record has four bytes of payload, and the ring is a power of two, the `n`-th record lies at
`8 * n` modulo the ring and never meets its end: no claim is wrapped. `Counted k r h t p` says so much
of the counters: `h` records were read, `t` were committed and `p` were claimed.

The object that works on the ring may take it for larger than it is (`2 ^ k ≤ r.capacity`): the mask
is the ring's own, and as long as no more than `2 ^ k` bytes are in flight nothing depends on where
the object believes the end to be.
-/

namespace Exchange.Ring

open Lib

/-- Where the `n`-th record lies. -/
def slotAt (k n : Nat) : Nat := 8 * n % 2 ^ k

/-- What `reserve` claims for the `n`-th record. -/
def slotClaim (k n : Nat) : Claim := ⟨4, 8 * n % 2 ^ 64, 8 * (n + 1) % 2 ^ 64, slotAt k n, false⟩

/-- The token of the `n`-th record. -/
def slotToken (k n : Nat) : AcquireToken := ⟨slotAt k n + 4, 4, 8 * (n + 1) % 2 ^ 64⟩

/-- The `n`-th record is there, with `v` in it. -/
structure Slot (k : Nat) (m : Bytes) (n v : Nat) : Prop where
  length : m.load32 (slotAt k n) = 4
  payload : m.load32 (slotAt k n + 4) = v

/-- `h` records were read, `t` committed and `p` claimed, in a ring of `2 ^ k` bytes. -/
structure Counted (k : Nat) (r : SHMRing) (h t p : Nat) : Prop where
  low : 3 ≤ k
  high : k ≤ 63
  mask : r.mask = 2 ^ k - 1
  cons : r.consHead = 8 * h % 2 ^ 64
  tail : r.prodTail = 8 * t % 2 ^ 64
  prod : r.prodHead = 8 * p % 2 ^ 64
  read : h ≤ t
  committed : t ≤ p
  room : 8 * (p - h) ≤ 2 ^ k

/-! ## Places -/

section Places

variable {k n n' : Nat}

/-- A ring holds whole records. -/
theorem two_pow_slots (hk : 3 ≤ k) : 2 ^ k = 8 * 2 ^ (k - 3) := by
  obtain ⟨j, rfl⟩ := Nat.exists_eq_add_of_le hk
  rw [Nat.pow_add, Nat.add_sub_cancel_left]

/-- The slot of a number, counted in entries. -/
theorem slotAt_eq (hk : 3 ≤ k) (n : Nat) : slotAt k n = 8 * (n % 2 ^ (k - 3)) := by
  unfold slotAt
  rw [two_pow_slots hk, Nat.mul_mod_mul_left]

/-- A record ends in the ring. -/
theorem slotAt_within (hk : 3 ≤ k) (n : Nat) : slotAt k n + 8 ≤ 2 ^ k := by
  have hlt := Nat.mod_lt n (Nat.two_pow_pos (k - 3))
  rw [slotAt_eq hk, two_pow_slots hk]
  omega

/-- Two records of one lap have no byte in common. -/
theorem slotAt_apart (hk : 3 ≤ k) (hne : n ≠ n') (hn : 8 * n < 8 * n' + 2 ^ k)
    (hn' : 8 * n' < 8 * n + 2 ^ k) :
    slotAt k n + 8 ≤ slotAt k n' ∨ slotAt k n' + 8 ≤ slotAt k n := by
  rw [two_pow_slots hk] at hn hn'
  have hmod : n % 2 ^ (k - 3) ≠ n' % 2 ^ (k - 3) := by
    intro heq
    have hd := Nat.div_add_mod n (2 ^ (k - 3))
    have hd' := Nat.div_add_mod n' (2 ^ (k - 3))
    -- as many laps, or one more on one side, which is too far
    rcases Nat.lt_trichotomy (n / 2 ^ (k - 3)) (n' / 2 ^ (k - 3)) with hlt | hq | hlt
    · have := Nat.mul_le_mul_left (2 ^ (k - 3)) (Nat.succ_le_of_lt hlt)
      rw [Nat.mul_succ] at this
      omega
    · rw [hq] at hd
      omega
    · have := Nat.mul_le_mul_left (2 ^ (k - 3)) (Nat.succ_le_of_lt hlt)
      rw [Nat.mul_succ] at this
      omega
  rw [slotAt_eq hk, slotAt_eq hk]
  omega

/-- A counter, masked. -/
theorem counter_and_mask (hk : k ≤ 63) (n : Nat) : (8 * n % 2 ^ 64) &&& (2 ^ k - 1) = slotAt k n := by
  rw [Nat.and_two_pow_sub_one_eq_mod]
  exact Nat.mod_mod_of_dvd _ (Nat.pow_dvd_pow 2 (by omega))

end Places

/-! ## Contents -/

section Contents

variable {k n n' v : Nat} {m m' : Bytes}

/-- A slot is its own eight bytes. -/
theorem Slot.mono (h : Slot k m n v) (hsame : SameOn m' m (slotAt k n) (slotAt k n + 8)) :
    Slot k m' n v := by
  refine ⟨?_, ?_⟩
  · rw [hsame.load32_eq (Nat.le_refl _) (by omega)]
    exact h.length
  · rw [hsame.load32_eq (by omega) (Nat.le_refl _)]
    exact h.payload

/-- A store to one record leaves the others of the lap alone. -/
theorem sameOn_slot (hk : 3 ≤ k) (hne : n ≠ n') (hn : 8 * n < 8 * n' + 2 ^ k)
    (hn' : 8 * n' < 8 * n + 2 ^ k) {off : Nat} (hlo : slotAt k n' ≤ off) (hhi : off + 4 ≤ slotAt k n' + 8)
    (m : Bytes) (v : Nat) : SameOn (m.store32 off v) m (slotAt k n) (slotAt k n + 8) := by
  apply SameOn.store32
  have hapart := slotAt_apart hk hne hn hn'
  omega

/-- The payload, written behind the length. -/
theorem Slot.written (hlength : m.load32 (slotAt k n) = 4) (hv : v < 2 ^ 32) :
    Slot k (m.store32 (slotAt k n + 4) v) n v := by
  refine ⟨?_, Bytes.load32_store32 _ _ hv⟩
  have hsame : SameOn (m.store32 (slotAt k n + 4) v) m (slotAt k n) (slotAt k n + 4) :=
    SameOn.store32 _ _ (Or.inl (Nat.le_refl _))
  rw [hsame.load32_eq (Nat.le_refl _) (Nat.le_refl _)]
  exact hlength

end Contents

/-! ## The operations -/

namespace Counted

variable {k h t p : Nat} {r : SHMRing}

theorem near (hc : Counted k r h t p) : 8 * p ≤ 8 * h + 2 ^ 63 := by
  have hroom := hc.room
  have hpow : 2 ^ k ≤ 2 ^ 63 := Nat.pow_le_pow_right (by omega) hc.high
  have := hc.read
  have := hc.committed
  omega

/-- `tail_offset`. -/
theorem offset (hc : Counted k r h t p) : r.prodHead &&& r.mask = slotAt k p := by
  rw [hc.prod, hc.mask, counter_and_mask hc.high]

/-- `new_prod_head`, of a claim that is not wrapped. -/
theorem next (hc : Counted k r h t p) : add64 r.prodHead 8 = 8 * (p + 1) % 2 ^ 64 := by
  rw [hc.prod, add64_count, Nat.mul_succ]

/-- What would be in flight with one more record. -/
theorem flight (hc : Counted k r h t p) :
    sub64 (8 * (p + 1) % 2 ^ 64) r.consHead = 8 * (p + 1 - h) := by
  have hnear := hc.near
  have hread := hc.read
  have hcommitted := hc.committed
  rw [hc.cons, sub64_count (by omega) (by omega), Nat.mul_sub]

/-- `reserve`, while there is room for one more. -/
theorem claim (hc : Counted k r h t p) (hcap : 2 ^ k ≤ r.capacity) (hsmall : r.capacity < 2 ^ 64)
    (hroom : 8 * (p + 1 - h) ≤ 2 ^ k) :
    r.claim 4 = some ({ r with prodHead := 8 * (p + 1) % 2 ^ 64 }, slotClaim k p) := by
  have hwithin := slotAt_within hc.low p
  have hrequired : add64 4 4 = 8 := rfl
  have hspace : sub64 r.capacity (slotAt k p) = r.capacity - slotAt k p :=
    sub64_of_le (by omega) hsmall
  have hflat : decide (r.capacity - slotAt k p < 8) = false := decide_eq_false (by omega)
  unfold SHMRing.claim
  rw [if_neg (by decide)]
  dsimp only
  rw [hrequired, if_neg (by omega), hc.offset, hspace]
  simp only [hflat, Bool.false_eq_true, if_false, hc.next, hc.flight]
  rw [if_neg (by omega), hc.prod]
  rfl

theorem claimed (hc : Counted k r h t p) (hroom : 8 * (p + 1 - h) ≤ 2 ^ k) :
    Counted k { r with prodHead := 8 * (p + 1) % 2 ^ 64 } h t (p + 1) := by
  refine ⟨hc.low, hc.high, hc.mask, hc.cons, hc.tail, rfl, hc.read, ?_, hroom⟩
  exact Nat.le_succ_of_le hc.committed

/-- The slot preparation phase. -/
theorem prepare (hc : Counted k r h t p) (hcap : 2 ^ k ≤ r.capacity) (n : Nat) :
    r.prepare (slotClaim k n) = .ok { r with data := r.data.store32 (slotAt k n) 4 } := by
  have hwithin := slotAt_within hc.low n
  show r.store32 (slotAt k n) 4 = _
  unfold SHMRing.store32 SHMRing.area
  rw [if_pos (by omega)]

/-- The payload. -/
theorem store (hc : Counted k r h t p) (hcap : 2 ^ k ≤ r.capacity) (n v : Nat) :
    r.store32 (slotClaim k n).payload v = .ok { r with data := r.data.store32 (slotAt k n + 4) v } := by
  have hwithin := slotAt_within hc.low n
  show r.store32 (slotAt k n + 4) v = _
  unfold SHMRing.store32 SHMRing.area
  rw [if_pos (by omega)]

theorem stored (hc : Counted k r h t p) (m : Bytes) : Counted k { r with data := m } h t p :=
  ⟨hc.low, hc.high, hc.mask, hc.cons, hc.tail, hc.prod, hc.read, hc.committed, hc.room⟩

/-- `commit` of the next record. -/
theorem commit_next (hc : Counted k r h t p) :
    r.commit (slotClaim k t) = some { r with prodTail := 8 * (t + 1) % 2 ^ 64 } := if_pos hc.tail

/-- `commit` of a later record waits. -/
theorem commit_later (hc : Counted k r h t p) {n : Nat} (hlt : t < n) (hn : n < p) :
    r.commit (slotClaim k n) = none := by
  have hnear := hc.near
  have hread := hc.read
  refine if_neg (fun heq => ?_)
  rw [hc.tail] at heq
  have := count_inj (show 8 * t ≤ 8 * n by omega) (by omega) heq.symm
  omega

theorem committedNext (hc : Counted k r h t p) (hlt : t < p) :
    Counted k { r with prodTail := 8 * (t + 1) % 2 ^ 64 } h (t + 1) p :=
  ⟨hc.low, hc.high, hc.mask, hc.cons, rfl, hc.prod, Nat.le_succ_of_le hc.read, hlt, hc.room⟩

/-- `acquire`, when every record was read. -/
theorem acquire_empty (hc : Counted k r h t p) (heq : h = t) : r.acquire = .ok (r, none) := by
  unfold SHMRing.acquire
  rw [if_pos]
  rw [hc.cons, hc.tail, heq]

/-- `acquire` of a record. -/
theorem acquire_slot (hc : Counted k r h t p) (hcap : 2 ^ k ≤ r.capacity) (hlt : h < t) {v : Nat}
    (hslot : Slot k r.data h v) : r.acquire = .ok (r, some (slotToken k h)) := by
  have hnear := hc.near
  have hcommitted := hc.committed
  have hwithin := slotAt_within hc.low h
  have hne : r.consHead ≠ r.prodTail := by
    rw [hc.cons, hc.tail]
    intro heq
    have := count_inj (show 8 * h ≤ 8 * t by omega) (by omega) heq.symm
    omega
  have hload : r.load32 (slotAt k h) = .ok 4 := by
    unfold SHMRing.load32 SHMRing.area
    rw [if_pos (by omega), hslot.length]
  have htoken : r.tokenAt (slotAt k h) r.consHead 4 = some (slotToken k h) := by
    unfold SHMRing.tokenAt
    rw [if_neg (by omega), hc.cons, add64_count, add64_count]
    rfl
  have hoffset : r.consHead &&& r.mask = slotAt k h := by
    rw [hc.cons, hc.mask, counter_and_mask hc.high]
  unfold SHMRing.acquire
  rw [if_neg hne]
  simp only [hoffset, hload, htoken, bind, Except.bind]
  rw [if_neg (by decide)]

/-- What is behind the token. -/
theorem load (hc : Counted k r h t p) (hcap : 2 ^ k ≤ r.capacity) {n v : Nat} (hslot : Slot k r.data n v) :
    r.load32 (slotToken k n).payload = .ok v := by
  have hwithin := slotAt_within hc.low n
  show r.load32 (slotAt k n + 4) = _
  unfold SHMRing.load32 SHMRing.area
  rw [if_pos (by omega), hslot.payload]

theorem released (hc : Counted k r h t p) (hlt : h < t) :
    Counted k (r.release (slotToken k h)) (h + 1) t p := by
  have hroom := hc.room
  refine ⟨hc.low, hc.high, hc.mask, rfl, hc.tail, hc.prod, hlt, hc.committed, ?_⟩
  omega

end Counted

/-! ## What is in the ring -/

/-- The payloads of all records ever claimed are `log`; those that are committed and not read are there. -/
structure Queue (k : Nat) (r : SHMRing) (h t : Nat) (log : List Nat) : Prop where
  counted : Counted k r h t log.length
  slots : ∀ n v, h ≤ n → n < t → log[n]? = some v → Slot k r.data n v

namespace Queue

variable {k h t : Nat} {r : SHMRing} {log : List Nat}

/-- The first record that was not read. -/
theorem first (hq : Queue k r h t log) (hlt : h < t) :
    ∃ v, log[h]? = some v ∧ log.drop h = v :: log.drop (h + 1) ∧ Slot k r.data h v := by
  have hlen : h < log.length := Nat.lt_of_lt_of_le hlt hq.counted.committed
  have hv := List.getElem?_eq_getElem hlen
  exact ⟨log[h], hv, List.drop_eq_getElem_cons hlen, hq.slots h _ (Nat.le_refl _) hlt hv⟩

/-- Where the object believes the end to be is not said. -/
theorem resized (hq : Queue k r h t log) (capacity : Nat) :
    Queue k { r with capacity := capacity } h t log := by
  have hc := hq.counted
  refine ⟨⟨hc.low, hc.high, hc.mask, hc.cons, hc.tail, hc.prod, hc.read, hc.committed, hc.room⟩, ?_⟩
  exact hq.slots

theorem claimed (hq : Queue k r h t log) (v : Nat) (hroom : 8 * (log.length + 1 - h) ≤ 2 ^ k) :
    Queue k { r with prodHead := 8 * (log.length + 1) % 2 ^ 64 } h t (log ++ [v]) := by
  refine ⟨?_, ?_⟩
  · rw [List.length_append]
    exact hq.counted.claimed hroom
  · intro n w hh ht hw
    have hcommitted := hq.counted.committed
    rw [List.getElem?_append_left (by omega)] at hw
    exact hq.slots n w hh ht hw

/-- A store to a record that is not committed. -/
theorem stored (hq : Queue k r h t log) {n : Nat} (ht : t ≤ n) (hn : n < log.length) {off : Nat}
    (hlo : slotAt k n ≤ off) (hhi : off + 4 ≤ slotAt k n + 8) (v : Nat) :
    Queue k { r with data := r.data.store32 off v } h t log := by
  refine ⟨hq.counted.stored _, ?_⟩
  intro n' w hh ht' hw
  have hroom := hq.counted.room
  refine (hq.slots n' w hh ht' hw).mono ?_
  exact sameOn_slot hq.counted.low (by omega) (by omega) (by omega) hlo hhi _ _

theorem committed (hq : Queue k r h t log) {v : Nat} (hv : log[t]? = some v) (hslot : Slot k r.data t v) :
    Queue k { r with prodTail := 8 * (t + 1) % 2 ^ 64 } h (t + 1) log := by
  obtain ⟨hlt, -⟩ := List.getElem?_eq_some_iff.mp hv
  refine ⟨hq.counted.committedNext hlt, ?_⟩
  intro n w hh ht hw
  rcases Nat.lt_or_ge n t with hn | hn
  · exact hq.slots n w hh hn hw
  · obtain rfl : n = t := by omega
    obtain rfl := Option.some.inj (hv.symm.trans hw)
    exact hslot

theorem released (hq : Queue k r h t log) (hlt : h < t) :
    Queue k (r.release (slotToken k h)) (h + 1) t log := by
  refine ⟨hq.counted.released hlt, ?_⟩
  intro n w hh
  exact hq.slots n w (Nat.le_of_succ_le hh)

end Queue

end Exchange.Ring
