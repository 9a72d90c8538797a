import Exchange.Ipc.Ring
import Exchange.Lib.Lockstep

/-!
# The ring is first in, first out

The counters are taken back to the counts they stand for (`Claim.At`, `Laid`): the
reservations that the consumer has not released lie one behind the other from
`cons_head` to `prod_head`, over at most `capacity` bytes, the committed ones first.
Claims that far together have no byte of the data area in common, the four bytes behind
the ring included (`At.apart`), so what one producer stores leaves the marker, the
header and the payload of every other reservation as they were (`Inv.fill`), and
`acquire` finds the first committed record whole (`acquire_first`).
-/

namespace Exchange.Ring

open Lib

/-- The count at which a claim made at `start` ends. -/
def Claim.stop (cap start : Nat) (c : Claim) : Nat :=
  start + (if c.wrapped then cap - start % cap else 0) + (4 + c.size)

/-- `c` is what `reserve` claims when `prod_head` counts `start`. -/
structure Claim.At (cap start : Nat) (c : Claim) : Prop where
  pos : 0 < c.size
  fits : 4 + c.size ≤ cap
  old : c.oldProdHead = start % 2 ^ 64
  tail : c.tailOffset = start % cap
  wrapped : c.wrapped = true ↔ cap - start % cap < 4 + c.size
  new : c.newProdHead = c.stop cap start % 2 ^ 64
  short : c.stop cap start ≤ start + cap

namespace Claim.At

variable {cap start : Nat} {c : Claim}

/-- Where a claim lies: in one lap, or with the record at the start of the next. -/
theorem place (h : c.At cap start) : ∃ lap, start = lap * cap + c.tailOffset ∧ c.tailOffset < cap ∧
    ((c.wrapped = false ∧ c.header = c.tailOffset ∧ c.tailOffset + (4 + c.size) ≤ cap ∧
        c.stop cap start = start + (4 + c.size)) ∨
      (c.wrapped = true ∧ c.header = 0 ∧ cap < c.tailOffset + (4 + c.size) ∧
        c.stop cap start = (lap + 1) * cap + (4 + c.size))) := by
  have hpos : 0 < cap := by
    have := h.fits
    omega
  have hlt : start % cap < cap := Nat.mod_lt _ hpos
  have hstart : start = start / cap * cap + start % cap := (Nat.div_add_mod' start cap).symm
  have hw := h.wrapped
  have htail := h.tail
  refine ⟨start / cap, by rw [htail]; exact hstart, by omega, ?_⟩
  unfold header stop
  cases hwrap : c.wrapped with
  | false =>
    rw [hwrap] at hw
    refine Or.inl ⟨rfl, by simp, ?_, by simp⟩
    simp only [Bool.false_eq_true, false_iff] at hw
    omega
  | true =>
    rw [hwrap] at hw
    refine Or.inr ⟨rfl, by simp, ?_, ?_⟩
    · have := hw.mp rfl
      omega
    · rw [if_pos rfl, Nat.succ_mul]
      omega

/-- A claim takes at least its length field. -/
theorem start_lt (h : c.At cap start) : start + 4 < c.stop cap start := by
  have := h.pos
  unfold stop
  omega

/-- Every byte of a claim is in the data area. -/
theorem within (h : c.At cap start) {a : Nat} (ha : c.Covers a) : a < cap + 4 := by
  obtain ⟨lap, -, htail, hplace⟩ := h.place
  have hfits := h.fits
  unfold Covers at ha
  omega

/-- The marker of a claim is behind its record. -/
theorem marker_behind (h : c.At cap start) (hwrap : c.wrapped = true) :
    c.header + (4 + c.size) ≤ c.tailOffset := by
  obtain ⟨lap, hstart, htail, ⟨hflat, -⟩ | ⟨-, hheader, -, hend⟩⟩ := h.place
  · exact absurd (hflat.symm.trans hwrap) Bool.false_ne_true
  · have hshort := h.short
    rw [Nat.succ_mul] at hend
    omega

/-- The record of a claim ends in the ring. -/
theorem record_within (h : c.At cap start) : c.header + (4 + c.size) ≤ cap := by
  obtain ⟨lap, -, htail, hplace⟩ := h.place
  have hfits := h.fits
  omega

/-- Two claims in a window of `cap` bytes have no byte in common. -/
theorem apart {start' : Nat} {d : Claim} (hc : c.At cap start) (hd : d.At cap start')
    (hafter : c.stop cap start ≤ start') (hwindow : d.stop cap start' ≤ start + cap) {a : Nat}
    (ha : c.Covers a) : ¬ d.Covers a := by
  intro ha'
  obtain ⟨lap, hs, htail, hplace⟩ := hc.place
  obtain ⟨lap', hs', htail', hplace'⟩ := hd.place
  have hlt := hc.start_lt
  have hlt' := hd.start_lt
  unfold Covers at ha ha'
  -- the second is in the lap of the first or in the next one
  rcases Nat.lt_trichotomy lap lap' with hlap | rfl | hlap
  · rcases Nat.lt_or_ge (lap + 1) lap' with hfar | hnear
    · have := Nat.mul_le_mul_right cap (show lap + 2 ≤ lap' from hfar)
      rw [Nat.add_mul] at this
      omega
    · obtain rfl : lap' = lap + 1 := by omega
      rw [Nat.add_mul, Nat.one_mul] at hs' hplace hplace'
      rw [Nat.add_mul, Nat.one_mul] at hplace'
      omega
  · rw [Nat.add_mul, Nat.one_mul] at hplace hplace'
    omega
  · have := Nat.mul_le_mul_right cap (show lap' + 1 ≤ lap from hlap)
    rw [Nat.add_mul] at this
    omega

end Claim.At

/-- The reservations lie one behind the other from `start` to `stop`. -/
def Laid (cap : Nat) : Nat → List Reservation → Nat → Prop
  | start, [], stop => start = stop
  | start, res :: rest, stop =>
    res.claim.At cap start ∧ Laid cap (res.claim.stop cap start) rest stop

namespace Laid

variable {cap start stop : Nat} {l l' : List Reservation} {res : Reservation}

/-- Claims laid end to end go forward. -/
theorem le (h : Laid cap start l stop) : start ≤ stop := by
  induction l generalizing start with
  | nil => exact Nat.le_of_eq h
  | cons res rest ih =>
    have := h.1.start_lt
    have := ih h.2
    omega

theorem split (h : Laid cap start (l ++ l') stop) :
    ∃ mid, Laid cap start l mid ∧ Laid cap mid l' stop := by
  induction l generalizing start with
  | nil => exact ⟨start, rfl, h⟩
  | cons res rest ih =>
    obtain ⟨mid, hl, hl'⟩ := ih h.2
    exact ⟨mid, ⟨h.1, hl⟩, hl'⟩

theorem join {mid : Nat} (h : Laid cap start l mid) (h' : Laid cap mid l' stop) :
    Laid cap start (l ++ l') stop := by
  induction l generalizing start with
  | nil =>
    obtain rfl : start = mid := h
    exact h'
  | cons res rest ih => exact ⟨h.1, ih h.2⟩

/-- Only the claims matter. -/
theorem congr (h : Laid cap start l stop) (hl : l'.map (·.claim) = l.map (·.claim)) :
    Laid cap start l' stop := by
  induction l generalizing start l' with
  | nil =>
    rw [List.map_eq_nil_iff.mp hl]
    exact h
  | cons res rest ih =>
    obtain ⟨res', rest', rfl, hres, hrest⟩ := List.map_eq_cons_iff.mp hl
    unfold Laid
    rw [hres]
    exact ⟨h.1, ih h.2 hrest⟩

/-- Within one capacity, no two of them meet. -/
theorem apart_of_lt (h : Laid cap start l stop) (hwindow : stop ≤ start + cap) {i j : Nat}
    (hij : i < j) {res' : Reservation} (hi : l[i]? = some res) (hj : l[j]? = some res') {a : Nat}
    (ha : res.claim.Covers a) : ¬ res'.claim.Covers a := by
  obtain ⟨hil, rfl⟩ := List.getElem?_eq_some_iff.mp hi
  obtain ⟨hjl, rfl⟩ := List.getElem?_eq_some_iff.mp hj
  have htake : l.take j = l.take i ++ l[i] :: (l.drop (i + 1)).take (j - i - 1) := by
    rw [← List.take_append_drop i (l.take j), List.take_take, Nat.min_eq_left (by omega),
      List.drop_take, List.drop_eq_getElem_cons hil, show j - i = (j - i - 1) + 1 by omega,
      List.take_succ_cons]
    rfl
  rw [← List.take_append_drop j l, List.drop_eq_getElem_cons hjl, htake] at h
  obtain ⟨mid, hfirst, hsecond⟩ := h.split
  obtain ⟨begun, hbefore, hat⟩ := hfirst.split
  have hbefore := hbefore.le
  have hbetween := hat.2.le
  have hafter := hsecond.2.le
  exact hat.1.apart hsecond.1 hbetween (by omega) ha

/-- Two of them in a window of `cap` bytes have no byte in common. -/
theorem apart (h : Laid cap start l stop) (hwindow : stop ≤ start + cap) {i j : Nat}
    (hij : i ≠ j) {res' : Reservation} (hi : l[i]? = some res) (hj : l[j]? = some res') {a : Nat}
    (ha : res.claim.Covers a) : ¬ res'.claim.Covers a := by
  rcases Nat.lt_or_gt_of_ne hij with hlt | hlt
  · exact h.apart_of_lt hwindow hlt hi hj ha
  · intro ha'
    exact h.apart_of_lt hwindow hlt hj hi ha' ha

/-- One of them and any other. -/
theorem others {l₁ l₂ : List Reservation} {res' : Reservation}
    (h : Laid cap start (l₁ ++ res :: l₂) stop) (hwindow : stop ≤ start + cap)
    (hres : res' ∈ l₁ ++ l₂) {a : Nat} (ha : res'.claim.Covers a) : ¬ res.claim.Covers a := by
  have hself : (l₁ ++ res :: l₂)[l₁.length]? = some res := by
    rw [List.getElem?_append_right (Nat.le_refl _), Nat.sub_self]
    rfl
  rcases List.mem_append.mp hres with hres | hres
  · obtain ⟨j, hj, rfl⟩ := List.mem_iff_getElem.mp hres
    refine h.apart hwindow (Nat.ne_of_lt hj) ?_ hself ha
    rw [List.getElem?_append_left hj, List.getElem?_eq_getElem hj]
  · obtain ⟨j, hj⟩ := List.mem_iff_getElem?.mp hres
    refine h.apart (i := l₁.length + (j + 1)) hwindow (by omega) ?_ hself ha
    rw [List.getElem?_append_right (by omega), Nat.add_sub_cancel_left, List.getElem?_cons_succ, hj]

/-- All of them are inside the array. -/
theorem within (h : Laid cap start l stop) (hres : res ∈ l) {a : Nat} (ha : res.claim.Covers a) :
    a < cap + 4 := by
  obtain ⟨l₁, l₂, rfl⟩ := List.append_of_mem hres
  obtain ⟨mid, -, hat⟩ := h.split
  exact hat.1.within ha

end Laid

/-- The data area has the claim's marker, its length and `content` in the slot. -/
structure Claim.Shows (data : Bytes) (c : Claim) (content : List UInt8) : Prop where
  marker : c.wrapped = true → data.load32 c.tailOffset = wrapMarker
  length : data.load32 c.header = c.size
  content : data.slice c.payload c.size = content

/-- It is there as long as nobody touches the claim's bytes. -/
theorem Claim.Shows.frame {data data' : Bytes} {c : Claim} {content : List UInt8}
    (h : c.Shows data content) (hsame : ∀ a, c.Covers a → data' a = data a) :
    c.Shows data' content where
  marker hwrap := by
    have hmark : SameOn data' data c.tailOffset (c.tailOffset + 4) :=
      fun a hl hh => hsame a (Or.inl ⟨hwrap, hl, hh⟩)
    rw [hmark.load32_eq (Nat.le_refl _) (Nat.le_refl _)]
    exact h.marker hwrap
  length := by
    have hrecord : SameOn data' data c.header (c.header + 4) :=
      fun a hl hh => hsame a (Or.inr ⟨hl, by omega⟩)
    rw [hrecord.load32_eq (Nat.le_refl _) (Nat.le_refl _)]
    exact h.length
  content := by
    have hslot : SameOn data' data c.payload (c.payload + c.size) :=
      fun a hl hh => hsame a (Or.inr (by unfold payload at hl hh; omega))
    rw [hslot.slice_eq (Nat.le_refl _) (Nat.le_refl _)]
    exact h.content

/-- What the data area has of a reservation, once its slot is prepared. -/
def Reservation.Stored (data : Bytes) (res : Reservation) : Prop :=
  ∀ content, res.phase = .filling content ∨ res.phase = .committed content →
    res.claim.Shows data content

/-- The data area after the slot preparation. -/
def Claim.prepared (c : Claim) (data : Bytes) : Bytes :=
  (if c.wrapped then data.store32 c.tailOffset wrapMarker else data).store32 c.header (c.size % 2 ^ 32)

namespace Claim

/-- Preparing writes the mark and the length, and nothing else. -/
theorem prepared_frame {c : Claim} {data : Bytes} {a : Nat}
    (hmark : ¬ (c.wrapped = true ∧ c.tailOffset ≤ a ∧ a < c.tailOffset + 4))
    (hlength : ¬ (c.header ≤ a ∧ a < c.header + 4)) : c.prepared data a = data a := by
  unfold prepared
  rw [SameOn.store32 _ _ (by omega) a (Nat.le_refl a) (Nat.lt_succ_self a)]
  split
  · rename_i hwrap
    have hout : ¬ (c.tailOffset ≤ a ∧ a < c.tailOffset + 4) := fun ha => hmark ⟨hwrap, ha⟩
    exact SameOn.store32 _ _ (by omega) a (Nat.le_refl a) (Nat.lt_succ_self a)
  · rfl

/-- The marker is behind the record, so the length does not overwrite it. -/
theorem At.shows_prepared {cap start : Nat} {c : Claim} (h : c.At cap start) (hcap : cap < 2 ^ 32)
    (data : Bytes) :
    c.Shows (c.prepared data) ((c.prepared data).slice c.payload c.size) where
  marker hwrap := by
    have hbehind := h.marker_behind hwrap
    unfold prepared
    rw [if_pos hwrap, (SameOn.store32 _ _ (by omega)).load32_eq (Nat.le_refl _) (Nat.le_refl _)]
    exact Bytes.load32_store32 _ _ (by decide)
  length := by
    have hwithin := h.record_within
    have hsize : c.size < 2 ^ 32 := by omega
    unfold prepared
    rw [Bytes.load32_store32 _ _ (Nat.mod_lt _ (by decide))]
    exact Nat.mod_eq_of_lt hsize
  content := rfl

/-- Some bytes of the payload are written over. -/
theorem At.shows_blit {cap start : Nat} {c : Claim} (h : c.At cap start) {data : Bytes}
    {content l : List UInt8} {pos : Nat} (hshows : c.Shows data content)
    (hpos : pos + l.length ≤ c.size) :
    c.Shows (data.blit (c.payload + pos) l) (Bytes.splice content pos l) where
  marker hwrap := by
    have hbehind := h.marker_behind hwrap
    have hpayload : c.payload = c.header + 4 := rfl
    rw [(SameOn.blit _ _ (by omega)).load32_eq (Nat.le_refl _) (Nat.le_refl _)]
    exact hshows.marker hwrap
  length := by
    have hpayload : c.payload = c.header + 4 := rfl
    rw [(SameOn.blit _ _ (by omega)).load32_eq (Nat.le_refl _) (Nat.le_refl _)]
    exact hshows.length
  content := by
    rw [Bytes.slice_blit_within _ _ hpos, hshows.content]

end Claim

namespace SHMRing

variable {r r' : SHMRing} {c : Claim}

theorem store32_data {off v : Nat} (h : r.store32 off v = .ok r') :
    r' = { r with data := r.data.store32 off v } := by
  unfold store32 at h
  split at h
  · cases h
    rfl
  · cases h

theorem store32_within {off v : Nat} (h : off + 4 ≤ r.capacity + 4) :
    r.store32 off v = .ok { r with data := r.data.store32 off v } := if_pos h

theorem load32_within {off : Nat} (h : off + 4 ≤ r.capacity + 4) :
    r.load32 off = .ok (r.data.load32 off) := if_pos h

theorem blit_data {off : Nat} {l : List UInt8} (h : r.blit off l = .ok r') :
    r' = { r with data := r.data.blit off l } := by
  unfold blit at h
  split at h
  · cases h
    rfl
  · cases h

theorem prepare_data (h : r.prepare c = .ok r') : r' = { r with data := c.prepared r.data } := by
  unfold prepare at h
  unfold Claim.prepared
  split at h
  · rename_i hwrap
    rw [if_pos hwrap]
    cases hmark : r.store32 c.tailOffset wrapMarker with
    | error e =>
      rw [hmark] at h
      cases h
    | ok r₁ =>
      rw [hmark] at h
      have hlength := store32_data (r := r₁) h
      rw [store32_data hmark] at hlength
      exact hlength
  · rename_i hwrap
    rw [if_neg hwrap]
    exact store32_data (r := r) h

theorem prepare_within (hmark : c.wrapped = true → c.tailOffset + 4 ≤ r.capacity + 4)
    (hlength : c.header + 4 ≤ r.capacity + 4) :
    r.prepare c = .ok { r with data := c.prepared r.data } := by
  unfold prepare Claim.prepared
  split
  · rename_i hwrap
    rw [store32_within (hmark hwrap)]
    exact store32_within hlength
  · exact store32_within hlength

/-- Without a marker, the consumer takes what is at its head; -/
theorem acquire_flat (hbusy : r.consHead ≠ r.prodTail) {off length : Nat}
    (hoff : r.consHead &&& r.mask = off) (hload : r.load32 off = .ok length)
    (hplain : length ≠ wrapMarker) : r.acquire = .ok (r, r.tokenAt off r.consHead length) := by
  unfold acquire
  simp only [if_neg hbusy, hoff, hload]
  exact if_neg hplain

/-- with one, what is at the start of the array. -/
theorem acquire_wrapped (hbusy : r.consHead ≠ r.prodTail) {off head length : Nat}
    (hoff : r.consHead &&& r.mask = off) (hmark : r.load32 off = .ok wrapMarker)
    (hhead : add64 r.consHead (sub64 r.capacity off) = head) (hmore : head ≠ r.prodTail)
    (hload : r.load32 0 = .ok length) : r.acquire = .ok (r, r.tokenAt 0 head length) := by
  unfold acquire
  simp only [if_neg hbusy, hoff, hmark, hhead, hload, bind, Except.bind, if_true, if_neg hmore]

end SHMRing

/-- How the reservations of a system lie: those that the consumer released, those that
are committed, and those that are not. -/
structure Inv (cap : Nat) (sys : Sys) (done ready pending : List Reservation)
    (cons tail head : Nat) : Prop where
  reservations : sys.reservations = done ++ (ready ++ pending)
  capacity : sys.ring.capacity = cap
  mask : sys.ring.mask = cap - 1
  consHead : sys.ring.consHead = cons % 2 ^ 64
  prodTail : sys.ring.prodTail = tail % 2 ^ 64
  prodHead : sys.ring.prodHead = head % 2 ^ 64
  ready_laid : Laid cap cons ready tail
  pending_laid : Laid cap tail pending head
  room : head ≤ cons + cap
  returned : done.map (·.phase) = sys.returned.map .committed
  committed : ∀ res ∈ ready, ∃ p, res.phase = .committed p
  uncommitted : ∀ res ∈ pending, ∀ p, res.phase ≠ .committed p
  stored : ∀ res ∈ ready ++ pending, res.Stored sys.ring.data
  held : sys.holding = none ∨ ∃ res rest, ready = res :: rest ∧
    sys.holding = some ⟨res.claim.payload, res.claim.size, res.claim.newProdHead⟩

namespace Inv

section

variable {k : Nat} {sys : Sys} {done ready pending : List Reservation} {cons tail head : Nat}

theorem laid {cap : Nat} (h : Inv cap sys done ready pending cons tail head) :
    Laid cap cons (ready ++ pending) head :=
  h.ready_laid.join h.pending_laid

theorem length_done {cap : Nat} (h : Inv cap sys done ready pending cons tail head) :
    done.length = sys.returned.length := by
  have := congrArg List.length h.returned
  rwa [List.length_map, List.length_map] at this

theorem create (k : Nat) (hk : k < 32) : Inv (2 ^ k) (.create (2 ^ k)) [] [] [] 0 0 0 where
  reservations := rfl
  capacity := rfl
  mask := by
    have hlt : 2 ^ k < 2 ^ 64 := Nat.pow_lt_pow_right (by decide) (by omega)
    exact sub64_of_le Nat.one_le_two_pow hlt
  consHead := rfl
  prodTail := rfl
  prodHead := rfl
  ready_laid := rfl
  pending_laid := rfl
  room := Nat.zero_le _
  returned := rfl
  committed := fun _ hres => absurd hres List.not_mem_nil
  uncommitted := fun _ hres => absurd hres List.not_mem_nil
  stored := fun _ hres => absurd hres List.not_mem_nil
  held := Or.inl rfl

/-- The mask takes a counter to the offset of the count. -/
theorem land_mask (hk : k < 32) (h : Inv (2 ^ k) sys done ready pending cons tail head) (n : Nat) :
    n % 2 ^ 64 &&& sys.ring.mask = n % 2 ^ k := by
  rw [h.mask, Nat.and_two_pow_sub_one_eq_mod,
    Nat.mod_mod_of_dvd _ (Nat.pow_dvd_pow 2 (show k ≤ 64 by omega))]

/-- What `reserve` claims, as long as `required_space` does not overflow. -/
theorem claim_at (hk : k < 32) (h : Inv (2 ^ k) sys done ready pending cons tail head) {size : Nat}
    (hsize : size + 4 < 2 ^ 64) {ring : SHMRing} {c : Claim}
    (hclaim : sys.ring.claim size = some (ring, c)) :
    ring = { sys.ring with prodHead := c.stop (2 ^ k) head % 2 ^ 64 } ∧ c.At (2 ^ k) head ∧
      c.stop (2 ^ k) head ≤ cons + 2 ^ k := by
  have hcap : 2 ^ k < 2 ^ 32 := Nat.pow_lt_pow_right (by decide) hk
  have hlt : head % 2 ^ k < 2 ^ k := Nat.mod_lt _ (Nat.two_pow_pos k)
  have hle : cons ≤ head := h.laid.le
  have hroom := h.room
  have hrequired : add64 4 size = 4 + size := Nat.mod_eq_of_lt (by omega)
  have hspace : sub64 (2 ^ k) (head % 2 ^ k) = 2 ^ k - head % 2 ^ k := sub64_of_le (by omega) (by omega)
  unfold SHMRing.claim at hclaim
  simp only [hrequired, h.capacity, h.prodHead, h.land_mask hk, hspace, add64_count] at hclaim
  split at hclaim
  · cases hclaim
  rename_i hpos
  split at hclaim
  · cases hclaim
  rename_i hfits
  -- the test of the room is that the end of the claim is no more than a lap ahead of the consumer
  have hstop : ∀ n, cons ≤ n → n ≤ head + 2 ^ k + (4 + size) →
      ¬ 2 ^ k < sub64 (n % 2 ^ 64) sys.ring.consHead → n ≤ cons + 2 ^ k := by
    intro n hn hn' hsub
    rw [h.consHead, sub64_count hn (by omega)] at hsub
    omega
  -- a record that does not fit behind the offset begins at the start of the ring
  by_cases hwrap : 2 ^ k - head % 2 ^ k < 4 + size
  · simp only [hwrap, decide_true, if_true] at hclaim
    split at hclaim
    · cases hclaim
    rename_i hfull
    have hend := hstop _ (by omega) (by omega) hfull
    cases hclaim
    refine ⟨?_, ⟨Nat.pos_of_ne_zero hpos, Nat.not_lt.mp hfits, rfl, rfl, ?_, rfl, ?_⟩, hend⟩
    · simp only [h.capacity]
      rfl
    · exact ⟨fun _ => hwrap, fun _ => rfl⟩
    · exact Nat.le_trans hend (by omega)
  · simp only [hwrap, decide_false, Bool.false_eq_true, if_false] at hclaim
    split at hclaim
    · cases hclaim
    rename_i hfull
    have hend := hstop _ (by omega) (by omega) hfull
    cases hclaim
    refine ⟨?_, ⟨Nat.pos_of_ne_zero hpos, Nat.not_lt.mp hfits, rfl, rfl, ?_, rfl, ?_⟩, hend⟩
    · simp only [h.capacity]
      rfl
    · exact ⟨fun hf => absurd hf Bool.false_ne_true, fun hf => absurd hf hwrap⟩
    · exact Nat.le_trans hend (by omega)

/-- A claim goes behind what is in the ring. -/
theorem claim {size : Nat} (hk : k < 32) (h : Inv (2 ^ k) sys done ready pending cons tail head)
    (hsize : size + 4 < 2 ^ 64) {ring : SHMRing} {c : Claim}
    (hclaim : sys.ring.claim size = some (ring, c)) :
    Inv (2 ^ k)
      { sys with ring := ring, reservations := sys.reservations ++ [⟨c, .claimed⟩] }
      done ready (pending ++ [⟨c, .claimed⟩]) cons tail (c.stop (2 ^ k) head) := by
  obtain ⟨rfl, hat, hroom⟩ := h.claim_at hk hsize hclaim
  have hlaid : Laid (2 ^ k) head [⟨c, .claimed⟩] (c.stop (2 ^ k) head) := ⟨hat, rfl⟩
  refine { h with
    reservations := ?_, prodHead := rfl, pending_laid := h.pending_laid.join hlaid, room := hroom,
    uncommitted := ?_, stored := ?_ }
  · rw [h.reservations, List.append_assoc, List.append_assoc]
  · intro res hres p
    rcases List.mem_append.mp hres with hres | hres
    · exact h.uncommitted res hres p
    · rw [List.mem_singleton.mp hres]
      exact Phase.noConfusion
  · intro res hres
    rw [← List.append_assoc] at hres
    rcases List.mem_append.mp hres with hres | hres
    · exact h.stored res hres
    · rw [List.mem_singleton.mp hres]
      rintro content (hphase | hphase) <;> cases hphase

/-- A reservation that is not committed is among the pending ones. -/
theorem pending_of {cap : Nat} (h : Inv cap sys done ready pending cons tail head) {i : Nat}
    {res : Reservation} (hi : sys.reservations[i]? = some res)
    (hopen : ∀ p, res.phase ≠ .committed p) :
    ∃ before after, pending = before ++ res :: after ∧ done.length ≤ i ∧
      ∀ res', sys.reservations.set i res' = done ++ (ready ++ (before ++ res' :: after)) := by
  have hdone : ∀ res ∈ done ++ ready, ∃ p, res.phase = .committed p := by
    intro res hres
    rcases List.mem_append.mp hres with hres | hres
    · have hphase : res.phase ∈ sys.returned.map .committed := by
        rw [← h.returned]
        exact List.mem_map_of_mem hres
      obtain ⟨p, -, hp⟩ := List.mem_map.mp hphase
      exact ⟨p, hp.symm⟩
    · exact h.committed res hres
  rw [h.reservations, ← List.append_assoc] at hi
  have hle : (done ++ ready).length ≤ i := by
    refine Nat.le_of_not_lt fun hlt => ?_
    rw [List.getElem?_append_left hlt] at hi
    obtain ⟨p, hp⟩ := hdone res (List.mem_of_getElem? hi)
    exact hopen p hp
  rw [List.getElem?_append_right hle] at hi
  obtain ⟨hlt, hres⟩ := List.getElem?_eq_some_iff.mp hi
  refine ⟨pending.take (i - (done ++ ready).length), pending.drop (i - (done ++ ready).length + 1),
    ?_, ?_, fun res' => ?_⟩
  · rw [← hres, List.getElem_cons_drop, List.take_append_drop]
  · rw [List.length_append] at hle
    omega
  · rw [h.reservations, ← List.append_assoc, List.set_append_right _ _ hle,
      List.set_eq_take_append_cons_drop, if_pos hlt, List.append_assoc]

/-- A producer stores to its own claim. -/
theorem fill {cap : Nat} {before after : List Reservation} {c : Claim} {phase : Phase}
    (h : Inv cap sys done ready (before ++ ⟨c, phase⟩ :: after) cons tail head) {i : Nat}
    {content : List UInt8} {data : Bytes}
    (hset : sys.reservations.set i ⟨c, .filling content⟩ =
      done ++ (ready ++ (before ++ ⟨c, .filling content⟩ :: after)))
    (hframe : ∀ a, ¬ c.Covers a → data a = sys.ring.data a)
    (hself : c.Shows data content) :
    Inv cap
      { sys with
        ring := { sys.ring with data := data }
        reservations := sys.reservations.set i ⟨c, .filling content⟩ }
      done ready (before ++ ⟨c, .filling content⟩ :: after) cons tail head := by
  have hlaid := h.laid
  rw [← List.append_assoc] at hlaid
  have hothers : ∀ res ∈ (ready ++ before) ++ after, res.Stored sys.ring.data → res.Stored data := by
    intro res hres hstored content' hphase
    exact (hstored content' hphase).frame fun a ha => hframe a (hlaid.others h.room hres ha)
  refine { h with reservations := hset, pending_laid := ?_, uncommitted := ?_, stored := ?_ }
  · refine h.pending_laid.congr ?_
    rw [List.map_append, List.map_append]
    rfl
  · intro res hres p
    rcases List.mem_append.mp hres with hres | hres
    · exact h.uncommitted res (List.mem_append_left _ hres) p
    · rcases List.mem_cons.mp hres with rfl | hres
      · exact Phase.noConfusion
      · exact h.uncommitted res (List.mem_append_right _ (List.mem_cons_of_mem _ hres)) p
  · intro res hres
    rw [← List.append_assoc] at hres
    rcases List.mem_append.mp hres with hin | hin
    · exact hothers res (List.mem_append_left _ hin) (h.stored res (by
        rw [← List.append_assoc]
        exact List.mem_append_left _ hin))
    · rcases List.mem_cons.mp hin with rfl | hin
      · rintro content' (hphase | hphase)
        · cases hphase
          exact hself
        · cases hphase
      · exact hothers res (List.mem_append_right _ hin) (h.stored res (by
          rw [← List.append_assoc]
          exact List.mem_append_right _ (List.mem_cons_of_mem _ hin)))

/-- The first pending reservation is the one that can commit. -/
theorem commit {cap : Nat} (hcap : cap < 2 ^ 32) {before after : List Reservation} {c : Claim}
    {content : List UInt8}
    (h : Inv cap sys done ready (before ++ ⟨c, .filling content⟩ :: after) cons tail head) {i : Nat}
    (hset : sys.reservations.set i ⟨c, .committed content⟩ =
      done ++ (ready ++ (before ++ ⟨c, .committed content⟩ :: after)))
    (hturn : sys.ring.prodTail = c.oldProdHead) :
    Inv cap
      { sys with
        ring := { sys.ring with prodTail := c.newProdHead }
        reservations := sys.reservations.set i ⟨c, .committed content⟩ }
      done (ready ++ [⟨c, .committed content⟩]) after cons (c.stop cap tail) head := by
  obtain ⟨start, hbefore, hat, hafter⟩ := h.pending_laid.split
  -- `prod_tail` is at its start, so it is the first that is pending
  have hfirst : start = tail := by
    have hle := hbefore.le
    have hlt := hat.start_lt
    have hend := hafter.le
    have hroom := h.room
    have hready := h.ready_laid.le
    rw [h.prodTail, hat.old] at hturn
    exact count_inj hle (by omega) hturn.symm
  subst hfirst
  have hnil : before = [] := by
    cases before with
    | nil => rfl
    | cons res rest =>
      have hlt := hbefore.1.start_lt
      have hle := hbefore.2.le
      omega
  subst hnil
  rw [List.nil_append] at hset h
  -- it joins those that are ready; the others stay as they are
  refine { h with
    reservations := ?_, prodTail := hat.new, ready_laid := h.ready_laid.join ⟨hat, rfl⟩,
    pending_laid := hafter, committed := ?_, uncommitted := ?_, stored := ?_, held := ?_ }
  · rw [hset, List.append_assoc]
    rfl
  · intro res hres
    rcases List.mem_append.mp hres with hres | hres
    · exact h.committed res hres
    · rw [List.mem_singleton.mp hres]
      exact ⟨content, rfl⟩
  · exact fun res hres => h.uncommitted res (List.mem_cons_of_mem _ hres)
  · intro res hres
    rw [List.append_assoc] at hres
    rcases List.mem_append.mp hres with hres | hres
    · exact h.stored res (List.mem_append_left _ hres)
    · rcases List.mem_cons.mp hres with rfl | hres
      · have hself := h.stored ⟨c, .filling content⟩ (List.mem_append_right _ List.mem_cons_self)
        rintro content' (hphase | hphase)
        · cases hphase
        · cases hphase
          exact hself content (Or.inl rfl)
      · exact h.stored res (List.mem_append_right _ (List.mem_cons_of_mem _ hres))
  · rcases h.held with hnone | ⟨res, rest, rfl, hsome⟩
    · exact Or.inl hnone
    · exact Or.inr ⟨res, rest ++ [⟨c, .committed content⟩], rfl, hsome⟩

/-- With nothing committed there is nothing to acquire. -/
theorem acquire_nil {cap : Nat} (h : Inv cap sys done [] pending cons tail head) :
    sys.ring.acquire = .ok (sys.ring, none) := by
  have hempty : cons = tail := h.ready_laid
  unfold SHMRing.acquire
  rw [if_pos (by rw [h.consHead, h.prodTail, hempty])]

/-- The token for a claim made at `start`, wherever its length was read. -/
theorem tokenAt_eq {cap start : Nat} {c : Claim} {r : SHMRing} (hr : r.capacity = cap)
    (h : c.At cap start) {head : Nat} (hhead : head + (4 + c.size) = c.stop cap start) :
    r.tokenAt c.header (head % 2 ^ 64) c.size = some ⟨c.payload, c.size, c.newProdHead⟩ := by
  have hpos := h.pos
  have hfits := h.fits
  unfold SHMRing.tokenAt
  rw [if_neg (by omega), add64_count, add64_count, Nat.add_assoc, hhead, h.new]
  rfl

/-- `acquire` hands out the first committed record. -/
theorem acquire_first (hk : k < 32) {res : Reservation} {rest : List Reservation}
    (h : Inv (2 ^ k) sys done (res :: rest) pending cons tail head) :
    sys.ring.acquire =
      .ok (sys.ring, some ⟨res.claim.payload, res.claim.size, res.claim.newProdHead⟩) := by
  have hcap : 2 ^ k < 2 ^ 32 := Nat.pow_lt_pow_right (by decide) hk
  obtain ⟨hat, hrest⟩ := h.ready_laid
  obtain ⟨p, hp⟩ := h.committed res List.mem_cons_self
  have hshows := h.stored res (List.mem_append_left _ List.mem_cons_self) p (Or.inr hp)
  have hroom := h.room
  have hpending := h.pending_laid.le
  have hle := hrest.le
  have hwithin := hat.record_within
  have hhead : sys.ring.consHead &&& sys.ring.mask = res.claim.tailOffset := by
    rw [h.consHead, h.land_mask hk, hat.tail]
  have hbusy : sys.ring.consHead ≠ sys.ring.prodTail := by
    intro heq
    have hlt := hat.start_lt
    rw [h.consHead, h.prodTail] at heq
    have := count_inj (show cons ≤ tail by omega) (by omega) heq.symm
    omega
  have hload : sys.ring.load32 res.claim.header = .ok res.claim.size := by
    rw [SHMRing.load32_within (by rw [h.capacity]; omega), hshows.length]
  obtain ⟨lap, hstart, htail, ⟨-, hheader, -, hend⟩ | ⟨hwrap, hheader, -, hend⟩⟩ := hat.place
  · -- the record is where the counter points
    have hplain : res.claim.size ≠ wrapMarker := by
      unfold wrapMarker
      omega
    have htoken := tokenAt_eq h.capacity hat hend.symm
    rw [← hheader] at hhead
    rw [SHMRing.acquire_flat hbusy hhead hload hplain, h.consHead, htoken]
  · -- the marker is, and the record is at the start of the ring
    have hmark : sys.ring.load32 res.claim.tailOffset = .ok wrapMarker := by
      rw [SHMRing.load32_within (by rw [h.capacity]; omega), hshows.marker hwrap]
    have hnext : add64 sys.ring.consHead (sub64 sys.ring.capacity res.claim.tailOffset) =
        (lap + 1) * 2 ^ k % 2 ^ 64 := by
      rw [h.capacity, sub64_of_le (by omega) (by omega), h.consHead, add64_count, Nat.succ_mul]
      congr 1
      omega
    have hmore : (lap + 1) * 2 ^ k % 2 ^ 64 ≠ sys.ring.prodTail := by
      intro heq
      rw [h.prodTail] at heq
      have := count_inj (show (lap + 1) * 2 ^ k ≤ tail by omega) (by rw [Nat.succ_mul]; omega)
        heq.symm
      omega
    have htoken := tokenAt_eq h.capacity hat hend.symm
    rw [hheader] at htoken hload
    rw [SHMRing.acquire_wrapped hbusy hhead hmark hnext hmore hload, htoken]

/-- The consumer finds the payload behind the token. -/
theorem view_first {cap : Nat} {c : Claim} {p : List UInt8} {rest : List Reservation}
    (h : Inv cap sys done (⟨c, .committed p⟩ :: rest) pending cons tail head) (newConsHead : Nat) :
    sys.ring.view ⟨c.payload, c.size, newConsHead⟩ = .ok p := by
  have hshows := h.stored ⟨c, .committed p⟩ (List.mem_append_left _ List.mem_cons_self) p (Or.inr rfl)
  have hwithin : c.header + (4 + c.size) ≤ cap := h.ready_laid.1.record_within
  have hcontent : sys.ring.data.slice c.payload c.size = p := hshows.content
  unfold SHMRing.view SHMRing.slice SHMRing.area
  rw [h.capacity, hcontent]
  refine if_pos ?_
  show c.header + 4 + c.size ≤ cap + 4
  omega

theorem acquire {cap : Nat} {res : Reservation} {rest : List Reservation}
    (h : Inv cap sys done (res :: rest) pending cons tail head) :
    Inv cap
      { sys with holding := some ⟨res.claim.payload, res.claim.size, res.claim.newProdHead⟩ }
      done (res :: rest) pending cons tail head :=
  { h with held := Or.inr ⟨res, rest, rfl, rfl⟩ }

theorem release {cap : Nat} {c : Claim} {p : List UInt8} {rest : List Reservation}
    (h : Inv cap sys done (⟨c, .committed p⟩ :: rest) pending cons tail head) :
    Inv cap
      { sys with
        ring := sys.ring.release ⟨c.payload, c.size, c.newProdHead⟩
        holding := none
        returned := sys.returned ++ [p] }
      (done ++ [⟨c, .committed p⟩]) rest pending (c.stop cap cons) tail head := by
  obtain ⟨hat, hrest⟩ := h.ready_laid
  have hlt : cons + 4 < c.stop cap cons := hat.start_lt
  have hroom := h.room
  refine { h with
    reservations := ?_, consHead := hat.new, ready_laid := hrest, room := by omega,
    returned := ?_, committed := ?_, stored := ?_, held := Or.inl rfl }
  · rw [h.reservations, List.append_assoc]
    rfl
  · rw [List.map_append, List.map_append, h.returned]
    rfl
  · exact fun res hres => h.committed res (List.mem_cons_of_mem _ hres)
  · exact fun res hres => h.stored res (List.mem_cons_of_mem _ hres)

/-- Each reservation has its place. -/
theorem pending_at {cap : Nat} {before after : List Reservation} {res : Reservation}
    (h : Inv cap sys done ready (before ++ res :: after) cons tail head) :
    ∃ start, res.claim.At cap start := by
  obtain ⟨start, -, hat⟩ := h.pending_laid.split
  exact ⟨start, hat.1⟩

end

end Inv

/-- The reservations of a system lie as they should. -/
def Sys.Ok (cap : Nat) (sys : Sys) : Prop :=
  ∃ done ready pending cons tail head, Inv cap sys done ready pending cons tail head

namespace Sys.Ok

variable {k : Nat} {sys : Sys}

theorem claim (hk : k < 32) (h : sys.Ok (2 ^ k)) {size : Nat} (hsize : size + 4 < 2 ^ 64) :
    ∃ sys', sys.step (.claim size) = .ok sys' ∧ sys'.Ok (2 ^ k) := by
  obtain ⟨done, ready, pending, cons, tail, head, hinv⟩ := h
  cases hclaim : sys.ring.claim size with
  | none =>
    refine ⟨sys, ?_, done, ready, pending, cons, tail, head, hinv⟩
    unfold step
    simp only [hclaim]
  | some res =>
    refine ⟨_, ?_, done, ready, _, cons, tail, _, hinv.claim hk hsize hclaim⟩
    unfold step
    simp only [hclaim]

theorem prepare (hk : k < 32) (h : sys.Ok (2 ^ k)) (i : Nat) :
    ∃ sys', sys.step (.prepare i) = .ok sys' ∧ sys'.Ok (2 ^ k) := by
  obtain ⟨done, ready, pending, cons, tail, head, hinv⟩ := h
  unfold step
  simp only
  split
  · rename_i c hi
    obtain ⟨before, after, rfl, -, hset⟩ := hinv.pending_of hi (fun p => Phase.noConfusion)
    obtain ⟨start, hat⟩ := hinv.pending_at
    have hat : c.At (2 ^ k) start := hat
    have hcap : 2 ^ k < 2 ^ 32 := Nat.pow_lt_pow_right (by decide) hk
    obtain ⟨lap, -, htail, -⟩ := hat.place
    have hwithin := hat.record_within
    rw [SHMRing.prepare_within (by rw [hinv.capacity]; omega) (by rw [hinv.capacity]; omega)]
    refine ⟨_, rfl, done, ready, _, cons, tail, head,
      hinv.fill (hset _) (fun a ha => ?_) (hat.shows_prepared hcap _)⟩
    exact Claim.prepared_frame (fun hmark => ha (Or.inl hmark))
      (fun hlength => ha (Or.inr (by omega)))
  · exact ⟨sys, rfl, done, ready, pending, cons, tail, head, hinv⟩

theorem write (h : sys.Ok (2 ^ k)) (i pos : Nat) (l : List UInt8) :
    ∃ sys', sys.step (.write i pos l) = .ok sys' ∧ sys'.Ok (2 ^ k) := by
  obtain ⟨done, ready, pending, cons, tail, head, hinv⟩ := h
  unfold step
  simp only
  split
  · rename_i c content hi
    split
    · rename_i hpos
      obtain ⟨before, after, rfl, -, hset⟩ := hinv.pending_of hi (fun p => Phase.noConfusion)
      obtain ⟨start, hat⟩ := hinv.pending_at
      have hat : c.At (2 ^ k) start := hat
      have hwithin := hat.record_within
      have hshows : c.Shows sys.ring.data content := hinv.stored ⟨c, .filling content⟩
        (List.mem_append_right _ (List.mem_append_right _ List.mem_cons_self)) content (Or.inl rfl)
      have hpayload : c.payload = c.header + 4 := rfl
      have hblit : sys.ring.blit (c.payload + pos) l =
          .ok { sys.ring with data := sys.ring.data.blit (c.payload + pos) l } := by
        refine if_pos ?_
        unfold SHMRing.area
        rw [hinv.capacity]
        omega
      rw [hblit]
      refine ⟨_, rfl, done, ready, _, cons, tail, head,
        hinv.fill (hset _) (fun a ha => ?_) (hat.shows_blit hshows hpos)⟩
      unfold Claim.Covers at ha
      exact SameOn.blit _ _ (by omega) a (Nat.le_refl a) (Nat.lt_succ_self a)
    · exact ⟨sys, rfl, done, ready, pending, cons, tail, head, hinv⟩
  · exact ⟨sys, rfl, done, ready, pending, cons, tail, head, hinv⟩

theorem commit (hk : k < 32) (h : sys.Ok (2 ^ k)) (i : Nat) :
    ∃ sys', sys.step (.commit i) = .ok sys' ∧ sys'.Ok (2 ^ k) := by
  obtain ⟨done, ready, pending, cons, tail, head, hinv⟩ := h
  unfold step
  simp only
  split
  · rename_i c content hi
    split
    · exact ⟨sys, rfl, done, ready, pending, cons, tail, head, hinv⟩
    · rename_i ring hcommit
      obtain ⟨before, after, rfl, -, hset⟩ := hinv.pending_of hi (fun p => Phase.noConfusion)
      have hcap : 2 ^ k < 2 ^ 32 := Nat.pow_lt_pow_right (by decide) hk
      unfold SHMRing.commit at hcommit
      split at hcommit
      · rename_i hturn
        cases hcommit
        exact ⟨_, rfl, done, _, after, cons, _, head, hinv.commit hcap (hset _) hturn⟩
      · cases hcommit
  · exact ⟨sys, rfl, done, ready, pending, cons, tail, head, hinv⟩

theorem acquire (hk : k < 32) (h : sys.Ok (2 ^ k)) :
    ∃ sys', sys.step .acquire = .ok sys' ∧ sys'.Ok (2 ^ k) := by
  obtain ⟨done, ready, pending, cons, tail, head, hinv⟩ := h
  unfold step
  simp only
  split
  · exact ⟨sys, rfl, done, ready, pending, cons, tail, head, hinv⟩
  · rename_i hnone
    cases ready with
    | nil =>
      rw [hinv.acquire_nil]
      exact ⟨_, rfl, done, [], pending, cons, tail, head, { hinv with held := Or.inl rfl }⟩
    | cons res rest =>
      rw [hinv.acquire_first hk]
      exact ⟨_, rfl, done, res :: rest, pending, cons, tail, head, hinv.acquire⟩

theorem release (h : sys.Ok (2 ^ k)) :
    ∃ sys', sys.step .release = .ok sys' ∧ sys'.Ok (2 ^ k) := by
  obtain ⟨done, ready, pending, cons, tail, head, hinv⟩ := h
  unfold step
  simp only
  split
  · exact ⟨sys, rfl, done, ready, pending, cons, tail, head, hinv⟩
  · rename_i tok hsome
    rcases hinv.held with hnone | ⟨⟨c, phase⟩, rest, rfl, hheld⟩
    · rw [hnone] at hsome
      cases hsome
    · obtain ⟨p, hp⟩ := hinv.committed ⟨c, phase⟩ List.mem_cons_self
      obtain rfl : phase = .committed p := hp
      obtain rfl : ⟨c.payload, c.size, c.newProdHead⟩ = tok :=
        Option.some.inj (hheld.symm.trans hsome)
      rw [hinv.view_first]
      exact ⟨_, rfl, _, rest, pending, _, tail, head, hinv.release⟩

/-- One step. -/
theorem step (hk : k < 32) (h : sys.Ok (2 ^ k)) (act : Act)
    (hsize : ∀ size, act = .claim size → size + 4 < 2 ^ 64) :
    ∃ sys', sys.step act = .ok sys' ∧ sys'.Ok (2 ^ k) := by
  cases act with
  | claim size => exact h.claim hk (hsize size rfl)
  | prepare i => exact h.prepare hk i
  | write i pos l => exact h.write i pos l
  | commit i => exact h.commit hk i
  | acquire => exact h.acquire hk
  | release => exact h.release

/-- Any interleaving. -/
theorem run (hk : k < 32) (h : sys.Ok (2 ^ k)) {acts : List Act}
    (hsizes : ∀ size, .claim size ∈ acts → size + 4 < 2 ^ 64) :
    ∃ sys', sys.run acts = .ok sys' ∧ sys'.Ok (2 ^ k) := by
  induction acts generalizing sys with
  | nil => exact ⟨sys, rfl, h⟩
  | cons act acts ih =>
    obtain ⟨sys₁, hstep, h₁⟩ :=
      h.step hk act (fun size hact => hsizes size (hact ▸ List.mem_cons_self))
    obtain ⟨sys₂, hrun, h₂⟩ := ih h₁ (fun size hmem => hsizes size (List.mem_cons_of_mem _ hmem))
    refine ⟨sys₂, ?_, h₂⟩
    unfold Sys.run at hrun ⊢
    rw [List.foldlM_cons, hstep]
    exact hrun

end Sys.Ok

/-- An action that stores to a byte does so for a reservation that has the byte. -/
theorem Sys.Writes.covers {sys : Sys} {act : Act} {a : Nat} (h : sys.Writes act a) :
    ∃ i res, act.reservation = some i ∧ sys.reservations[i]? = some res ∧
      (∀ p, res.phase ≠ .committed p) ∧ res.claim.Covers a := by
  cases act with
  | prepare i =>
    obtain ⟨c, hi, ha⟩ := h
    refine ⟨i, ⟨c, .claimed⟩, rfl, hi, fun p => Phase.noConfusion, ?_⟩
    rcases ha with hmark | hlength
    · exact Or.inl hmark
    · exact Or.inr (by show c.header ≤ a ∧ a < c.header + 4 + c.size; omega)
  | write i pos l =>
    obtain ⟨c, content, hi, hpos, ha⟩ := h
    refine ⟨i, ⟨c, .filling content⟩, rfl, hi, fun p => Phase.noConfusion, Or.inr ?_⟩
    unfold Claim.payload at ha
    show c.header ≤ a ∧ a < c.header + 4 + c.size
    omega
  | claim size => exact h.elim
  | commit i => exact h.elim
  | acquire => exact h.elim
  | release => exact h.elim

theorem SHMRing.claim_data {r r' : SHMRing} {c : Claim} {size : Nat}
    (h : r.claim size = some (r', c)) : r'.data = r.data := by
  unfold SHMRing.claim at h
  simp only at h
  split at h
  · cases h
  · split at h
    · cases h
    · split at h <;> split at h
      · cases h
      · cases h
        rfl
      · cases h
      · cases h
        rfl

theorem SHMRing.acquire_data {r r' : SHMRing} {tok : Option AcquireToken}
    (h : r.acquire = .ok (r', tok)) : r'.data = r.data := by
  unfold SHMRing.acquire at h
  split at h
  · cases h
    rfl
  · cases hload : r.load32 (r.consHead &&& r.mask) with
    | error e =>
      simp only [hload, bind, Except.bind] at h
      cases h
    | ok length =>
      simp only [hload, bind, Except.bind] at h
      split at h
      · split at h
        · cases h
          rfl
        · split at h
          · cases h
          · cases h
            rfl
      · cases h
        rfl

namespace Sys

/-- What an action does, from any state. -/
inductive Does (sys : Sys) : Act → Sys → Prop
  /-- The code refuses, or would wait. -/
  | nothing (act : Act) : Does sys act sys
  | claims {size : Nat} {ring : SHMRing} {c : Claim} (hclaim : sys.ring.claim size = some (ring, c)) :
      Does sys (.claim size) { sys with ring := ring, reservations := sys.reservations ++ [⟨c, .claimed⟩] }
  | prepares {i : Nat} {c : Claim} {ring : SHMRing} (hi : sys.reservations[i]? = some ⟨c, .claimed⟩)
      (hprepare : sys.ring.prepare c = .ok ring) :
      Does sys (.prepare i)
        { sys with
          ring := ring
          reservations := sys.reservations.set i ⟨c, .filling (ring.data.slice c.payload c.size)⟩ }
  | writes {i pos : Nat} {l content : List UInt8} {c : Claim} {ring : SHMRing}
      (hi : sys.reservations[i]? = some ⟨c, .filling content⟩) (hpos : pos + l.length ≤ c.size)
      (hblit : sys.ring.blit (c.payload + pos) l = .ok ring) :
      Does sys (.write i pos l)
        { sys with
          ring := ring
          reservations := sys.reservations.set i ⟨c, .filling (Bytes.splice content pos l)⟩ }
  | commits {i : Nat} {content : List UInt8} {c : Claim}
      (hi : sys.reservations[i]? = some ⟨c, .filling content⟩) :
      Does sys (.commit i)
        { sys with
          ring := { sys.ring with prodTail := c.newProdHead }
          reservations := sys.reservations.set i ⟨c, .committed content⟩ }
  | acquires {ring : SHMRing} {tok : Option AcquireToken} (hacquire : sys.ring.acquire = .ok (ring, tok)) :
      Does sys .acquire { sys with ring := ring, holding := tok }
  | releases {tok : AcquireToken} {payload : List UInt8} (hholds : sys.holding = some tok) :
      Does sys .release
        { sys with ring := sys.ring.release tok, holding := none, returned := sys.returned ++ [payload] }

section Does

variable {sys sys' : Sys}

theorem does_claim {size : Nat} (h : sys.step (.claim size) = .ok sys') : sys.Does (.claim size) sys' := by
  unfold step at h
  simp only at h
  split at h
  · cases h
    exact .nothing _
  · rename_i ring c hclaim
    cases h
    exact .claims hclaim

theorem does_prepare {i : Nat} (h : sys.step (.prepare i) = .ok sys') : sys.Does (.prepare i) sys' := by
  unfold step at h
  simp only at h
  split at h
  · rename_i c hi
    obtain ⟨ring, hprepare, h⟩ := bind_ok h
    cases h
    exact .prepares hi hprepare
  · cases h
    exact .nothing _

theorem does_write {i pos : Nat} {l : List UInt8} (h : sys.step (.write i pos l) = .ok sys') :
    sys.Does (.write i pos l) sys' := by
  unfold step at h
  simp only at h
  split at h
  · rename_i c content hi
    split at h
    · rename_i hpos
      obtain ⟨ring, hblit, h⟩ := bind_ok h
      cases h
      exact .writes hi hpos hblit
    · cases h
      exact .nothing _
  · cases h
    exact .nothing _

/-- `commit` waits until `prod_tail` is where its slot begins. -/
theorem does_commit {i : Nat} (h : sys.step (.commit i) = .ok sys') : sys.Does (.commit i) sys' := by
  unfold step at h
  simp only at h
  split at h
  · rename_i c content hi
    split at h
    · cases h
      exact .nothing _
    · rename_i ring hcommit
      cases h
      unfold SHMRing.commit at hcommit
      split at hcommit
      · cases hcommit
        exact .commits hi
      · cases hcommit
  · cases h
    exact .nothing _

theorem does_acquire (h : sys.step .acquire = .ok sys') : sys.Does .acquire sys' := by
  unfold step at h
  simp only at h
  split at h
  · cases h
    exact .nothing _
  · obtain ⟨⟨ring, tok⟩, hacquire, h⟩ := bind_ok h
    cases h
    exact .acquires hacquire

theorem does_release (h : sys.step .release = .ok sys') : sys.Does .release sys' := by
  unfold step at h
  simp only at h
  split at h
  · cases h
    exact .nothing _
  · rename_i tok hholds
    obtain ⟨payload, -, h⟩ := bind_ok h
    cases h
    exact .releases hholds

theorem step_does {act : Act} (h : sys.step act = .ok sys') : sys.Does act sys' := by
  cases act with
  | claim size => exact does_claim h
  | prepare i => exact does_prepare h
  | write i pos l => exact does_write h
  | commit i => exact does_commit h
  | acquire => exact does_acquire h
  | release => exact does_release h

/-- Nothing else is stored to, from any state. -/
theorem step_frame {act : Act} (h : sys.step act = .ok sys') {a : Nat} (ha : ¬ sys.Writes act a) :
    sys'.ring.data a = sys.ring.data a := by
  cases step_does h with
  | nothing => rfl
  | claims hclaim => rw [SHMRing.claim_data hclaim]
  | prepares hi hprepare =>
    rw [SHMRing.prepare_data hprepare]
    exact Claim.prepared_frame (fun hmark => ha ⟨_, hi, Or.inl hmark⟩) fun hlength => ha ⟨_, hi, Or.inr hlength⟩
  | @writes i pos l content c ring hi hpos hblit =>
    rw [SHMRing.blit_data hblit]
    have hout : ¬ (c.payload + pos ≤ a ∧ a < c.payload + pos + l.length) :=
      fun hin => ha ⟨c, content, hi, hpos, hin⟩
    exact SameOn.blit _ _ (by omega) a (Nat.le_refl a) (Nat.lt_succ_self a)
  | commits => rfl
  | acquires hacquire => rw [SHMRing.acquire_data hacquire]
  | releases => rfl

end Does

end Sys

/-- What holds of the ring in every state it reaches. -/
structure Sys.Sound (cap : Nat) (sys : Sys) : Prop where
  /-- The consumer is behind the commits, these are behind the claims, and all of it fits. -/
  window : sub64 sys.ring.prodTail sys.ring.consHead ≤ sub64 sys.ring.prodHead sys.ring.consHead ∧
    sub64 sys.ring.prodHead sys.ring.consHead ≤ cap
  /-- The consumer has had the first of the committed payloads, and the next one is what it
  gets now. -/
  fifo : ∃ rest, sys.committed = sys.returned ++ rest ∧ sys.offer = .ok rest.head?
  /-- Whatever is stored is stored in the data area. -/
  area : ∀ act a, sys.Writes act a → a < cap + 4
  /-- Nobody stores to a marker or a record of another that is not released. -/
  apart : ∀ act a, sys.Writes act a → ∀ j res, act.reservation ≠ some j →
    sys.returned.length ≤ j → sys.reservations[j]? = some res → ¬ res.claim.Covers a
  /-- `Writes` leaves no store out. -/
  frame : ∀ act sys', sys.step act = .ok sys' → ∀ a, ¬ sys.Writes act a →
    sys'.ring.data a = sys.ring.data a

namespace Inv

variable {k : Nat} {sys : Sys} {done ready pending : List Reservation} {cons tail head : Nat}

/-- Tail and head are within one capacity. -/
theorem window {cap : Nat} (hcap : cap < 2 ^ 32)
    (h : Inv cap sys done ready pending cons tail head) :
    sub64 sys.ring.prodTail sys.ring.consHead ≤ sub64 sys.ring.prodHead sys.ring.consHead ∧
      sub64 sys.ring.prodHead sys.ring.consHead ≤ cap := by
  have hready := h.ready_laid.le
  have hpending := h.pending_laid.le
  have hroom := h.room
  rw [h.prodTail, h.prodHead, h.consHead, sub64_count hready (by omega),
    sub64_count (Nat.le_trans hready hpending) (by omega)]
  omega

/-- The payloads that are committed and not released. -/
theorem committed_eq {cap : Nat} (h : Inv cap sys done ready pending cons tail head) :
    sys.committed = sys.returned ++ ready.filterMap Reservation.payload := by
  have hpending : pending.filterMap Reservation.payload = [] := by
    refine List.filterMap_eq_nil_iff.mpr fun res hres => ?_
    have hopen := h.uncommitted res hres
    unfold Reservation.payload
    split
    · rename_i p hp
      exact absurd hp (hopen p)
    · rfl
  have hdone : done.filterMap Reservation.payload = sys.returned := by
    have hmap : ∀ l : List Reservation, l.filterMap Reservation.payload =
        (l.map (·.phase)).filterMap fun phase => Reservation.payload ⟨⟨0, 0, 0, 0, false⟩, phase⟩ := by
      intro l
      rw [List.filterMap_map]
      rfl
    rw [hmap, h.returned, List.filterMap_map]
    exact List.filterMap_some
  unfold Sys.committed
  rw [h.reservations, List.filterMap_append, List.filterMap_append, hpending, hdone, List.append_nil]

/-- On offer is the oldest committed record. -/
theorem offer_eq (hk : k < 32) (h : Inv (2 ^ k) sys done ready pending cons tail head) :
    sys.offer = .ok (ready.filterMap Reservation.payload).head? := by
  unfold Sys.offer
  cases ready with
  | nil =>
    rcases h.held with hnone | ⟨res, rest, hcons, -⟩
    · rw [hnone, h.acquire_nil]
      rfl
    · cases hcons
  | cons res rest =>
    obtain ⟨c, phase⟩ := res
    obtain ⟨p, hp⟩ := h.committed ⟨c, phase⟩ List.mem_cons_self
    obtain rfl : phase = .committed p := hp
    rcases h.held with hnone | ⟨res, rest', hcons, hsome⟩
    · rw [hnone, h.acquire_first hk]
      change some <$> sys.ring.view _ = _
      rw [h.view_first]
      rfl
    · cases hcons
      rw [hsome]
      change some <$> sys.ring.view _ = _
      rw [h.view_first]
      rfl

/-- The invariant gives the soundness of the ring. -/
theorem sound (hk : k < 32) (h : Inv (2 ^ k) sys done ready pending cons tail head) :
    sys.Sound (2 ^ k) where
  window := h.window (Nat.pow_lt_pow_right (by decide) hk)
  fifo := ⟨ready.filterMap Reservation.payload, h.committed_eq, h.offer_eq hk⟩
  area := by
    intro act a hwrites
    obtain ⟨i, res, -, hi, hopen, ha⟩ := hwrites.covers
    obtain ⟨before, after, rfl, -, -⟩ := h.pending_of hi hopen
    obtain ⟨start, hat⟩ := h.pending_at
    exact hat.within ha
  apart := by
    intro act a hwrites j other hact hj hother
    obtain ⟨i, res, hact', hi, hopen, ha⟩ := hwrites.covers
    have hij : i ≠ j := by
      rintro rfl
      exact hact hact'
    obtain ⟨before, after, -, hdone, -⟩ := h.pending_of hi hopen
    rw [← h.length_done] at hj
    rw [h.reservations, List.getElem?_append_right hdone] at hi
    rw [h.reservations, List.getElem?_append_right hj] at hother
    exact h.laid.apart h.room (by omega) hi hother ha
  frame := fun _ _ hstep _ ha => Sys.step_frame hstep ha

end Inv

/-- The ring is a queue: whatever the parties do, and in whatever order, as long as
`sizeof(uint32_t) + size` is what it should be for every size that is asked for. -/
theorem ring_fifo (k : Nat) (hk : k < 32) (acts : List Act)
    (hsizes : ∀ size, .claim size ∈ acts → size + 4 < 2 ^ 64) :
    ∃ sys, (Sys.create (2 ^ k)).run acts = .ok sys ∧ sys.Sound (2 ^ k) := by
  have hcreate : (Sys.create (2 ^ k)).Ok (2 ^ k) := ⟨[], [], [], 0, 0, 0, Inv.create k hk⟩
  obtain ⟨sys, hrun, done, ready, pending, cons, tail, head, hinv⟩ := hcreate.run hk hsizes
  exact ⟨sys, hrun, hinv.sound hk⟩

/-- Three producers on a ring of sixteen bytes. The second record ends one byte before
the end of the ring, so that the third leaves its marker there and in the four bytes
behind; the second consumer call comes while the third producer is still writing. -/
def sampleActs : List Act :=
  [.claim 5, .claim 2, .prepare 1, .write 1 0 [8, 9], .commit 1, .prepare 0,
    .write 0 0 [1, 2, 3, 4, 5], .commit 0, .commit 1, .acquire, .release, .claim 3, .prepare 2,
    .acquire, .write 2 1 [7, 8], .release, .write 2 0 [6], .commit 2, .acquire, .release]

/-- A run with a record that wraps. -/
theorem sample_ring : ∃ sys, (Sys.create (2 ^ 4)).run sampleActs = .ok sys ∧ sys.Sound (2 ^ 4) ∧
    sys.returned = [[1, 2, 3, 4, 5], [8, 9], [6, 7, 8]] := by
  have hsizes : ∀ size, .claim size ∈ sampleActs → size + 4 < 2 ^ 64 := by
    intro size hmem
    simp only [sampleActs, List.mem_cons, Act.claim.injEq, reduceCtorEq, false_or, List.not_mem_nil,
      or_false] at hmem
    omega
  obtain ⟨sys, hrun, hsound⟩ := ring_fifo 4 (by decide) sampleActs hsizes
  have hreturned : ((Sys.create (2 ^ 4)).run sampleActs).map (·.returned) =
      .ok [[1, 2, 3, 4, 5], [8, 9], [6, 7, 8]] := by rfl
  rw [hrun] at hreturned
  exact ⟨sys, hrun, hsound, Except.ok.inj hreturned⟩

/-- A size close to `2^64` passes the check of the capacity: `required_space` overflows to
zero. The claim is empty, and its length goes over the one of a record that nobody read. -/
theorem huge_claim_overwrites : ¬ ∀ k < 32, ∀ acts : List Act,
    (∀ size, .claim size ∈ acts → size < 2 ^ 64) →
      ∃ sys, (Sys.create (2 ^ k)).run acts = .ok sys ∧ sys.Sound (2 ^ k) := by
  intro h
  let acts : List Act :=
    [.claim 4, .prepare 0, .write 0 0 [1, 2, 3, 4], .commit 0, .claim (2 ^ 64 - 4)]
  have hsizes : ∀ size, .claim size ∈ acts → size < 2 ^ 64 := by
    intro size hmem
    simp only [acts, List.mem_cons, Act.claim.injEq, reduceCtorEq, false_or, List.not_mem_nil,
      or_false] at hmem
    omega
  obtain ⟨sys, hrun, hsound⟩ := h 3 (by decide) acts hsizes
  have hstate : ((Sys.create (2 ^ 3)).run acts).map (fun sys => (sys.reservations, sys.returned)) =
      .ok ([⟨⟨4, 0, 8, 0, false⟩, .committed [1, 2, 3, 4]⟩,
        ⟨⟨2 ^ 64 - 4, 8, 8, 0, false⟩, .claimed⟩], []) := by rfl
  rw [hrun] at hstate
  obtain ⟨hreservations, hreturned⟩ := Prod.mk.inj (Except.ok.inj hstate)
  have hwrites : sys.Writes (.prepare 1) 0 := by
    refine ⟨⟨2 ^ 64 - 4, 8, 8, 0, false⟩, ?_, Or.inr (by decide)⟩
    rw [hreservations]
    rfl
  refine hsound.apart _ 0 hwrites 0 ⟨⟨4, 0, 8, 0, false⟩, .committed [1, 2, 3, 4]⟩ (by decide) ?_ ?_ ?_
  · rw [hreturned]
    exact Nat.le_refl 0
  · rw [hreservations]
    rfl
  · exact Or.inr (by decide)

end Exchange.Ring
