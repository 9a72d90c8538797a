import Mathlib.Data.List.GetD
import Mathlib.Data.Nat.Bitwise

/-!
# Byte memories and machine words

A memory is a function from addresses to bytes. `store32` and `load32` are little
endian; `blit` copies bytes in and `slice` reads them back. `SameOn m m' lo hi` says
that two memories agree from `lo` to before `hi`: every read depends only on the
range it covers, and every write leaves the rest alone, so that a read after a write
is either of what was written or `SameOn` carries it over.

`add64` and `sub64` are the arithmetic of `uint64_t`. A counter that only ever grows is
kept modulo `2^64`; as long as two of them stay close, their difference is the one of
the true counts.
-/

namespace Exchange.Lib

/-- A memory. -/
abbrev Bytes := Nat → UInt8

namespace Bytes

/-- A memory of zeros. -/
def zero : Bytes := fun _ => 0

/-- The four bytes at `off`, the least significant first. -/
def load32 (m : Bytes) (off : Nat) : Nat :=
  (m off).toNat + 2 ^ 8 * (m (off + 1)).toNat + 2 ^ 16 * (m (off + 2)).toNat +
    2 ^ 24 * (m (off + 3)).toNat

/-- Writes a value below `2^32` to four bytes. -/
def store32 (m : Bytes) (off v : Nat) : Bytes := fun i =>
  if off ≤ i ∧ i < off + 4 then UInt8.ofNat (v / 2 ^ (8 * (i - off))) else m i

/-- `memcpy` of `l` to `off`. -/
def blit (m : Bytes) (off : Nat) (l : List UInt8) : Bytes := fun i =>
  if off ≤ i ∧ i < off + l.length then l.getD (i - off) 0 else m i

/-- The `len` bytes from `off` on. -/
def slice (m : Bytes) (off len : Nat) : List UInt8 := (List.range len).map fun i => m (off + i)

@[simp] theorem length_slice (m : Bytes) (off len : Nat) : (m.slice off len).length = len := by
  unfold slice
  rw [List.length_map, List.length_range]

/-- A slice reads the memory from its own start. -/
theorem getElem_slice (m : Bytes) (off len i : Nat) (h : i < (m.slice off len).length) :
    (m.slice off len)[i] = m (off + i) := by
  simp [slice]

end Bytes

/-- Two memories agree on the addresses from `lo` to before `hi`. -/
def SameOn (m m' : Bytes) (lo hi : Nat) : Prop := ∀ i, lo ≤ i → i < hi → m i = m' i

namespace SameOn

variable {m m' m'' : Bytes} {lo hi off : Nat}

theorem refl (m : Bytes) (lo hi : Nat) : SameOn m m lo hi := fun _ _ _ => rfl

theorem symm (h : SameOn m m' lo hi) : SameOn m' m lo hi := fun i hl hh => (h i hl hh).symm

theorem trans (h : SameOn m m' lo hi) (h' : SameOn m' m'' lo hi) : SameOn m m'' lo hi :=
  fun i hl hh => (h i hl hh).trans (h' i hl hh)

/-- The same on a range is the same on any part of it. -/
theorem mono (h : SameOn m m' lo hi) {lo' hi' : Nat} (hl : lo ≤ lo') (hh : hi' ≤ hi) :
    SameOn m m' lo' hi' := fun i h₁ h₂ => h i (by omega) (by omega)

/-- A store outside the range. -/
theorem store32 (m : Bytes) (v : Nat) (h : hi ≤ off ∨ off + 4 ≤ lo) :
    SameOn (m.store32 off v) m lo hi := by
  intro i hl hh
  unfold Bytes.store32
  exact if_neg (by omega)

/-- A copy outside the range. -/
theorem blit (m : Bytes) (l : List UInt8) (h : hi ≤ off ∨ off + l.length ≤ lo) :
    SameOn (m.blit off l) m lo hi := by
  intro i hl hh
  unfold Bytes.blit
  exact if_neg (by omega)

theorem load32_eq (h : SameOn m m' lo hi) (hl : lo ≤ off) (hh : off + 4 ≤ hi) :
    m.load32 off = m'.load32 off := by
  unfold Bytes.load32
  rw [h off (by omega) (by omega), h (off + 1) (by omega) (by omega),
    h (off + 2) (by omega) (by omega), h (off + 3) (by omega) (by omega)]

theorem slice_eq (h : SameOn m m' lo hi) {len : Nat} (hl : lo ≤ off) (hh : off + len ≤ hi) :
    m.slice off len = m'.slice off len := by
  unfold Bytes.slice
  refine List.map_congr_left (fun i hi' => ?_)
  have hlt := List.mem_range.mp hi'
  exact h (off + i) (by omega) (by omega)

end SameOn

namespace Bytes

variable {m : Bytes} {off : Nat}

/-- The byte of a number at a place. -/
theorem toNat_ofNat_div (v k : Nat) : (UInt8.ofNat (v / 2 ^ k)).toNat = v / 2 ^ k % 2 ^ 8 :=
  UInt8.toNat_ofNat' ..

/-- What is loaded is what was stored. -/
theorem load32_store32 (m : Bytes) (off : Nat) {v : Nat} (hv : v < 2 ^ 32) :
    (m.store32 off v).load32 off = v := by
  have hbyte : ∀ k < 4, (m.store32 off v (off + k)).toNat = v / 2 ^ (8 * k) % 2 ^ 8 := by
    intro k hk
    unfold store32
    rw [if_pos (by omega), toNat_ofNat_div, Nat.add_sub_cancel_left]
  have hfirst := hbyte 0 (by decide)
  rw [Nat.add_zero] at hfirst
  unfold load32
  rw [hfirst, hbyte 1 (by decide), hbyte 2 (by decide), hbyte 3 (by decide)]
  omega

/-- Zeros are loaded as zero. -/
theorem load32_zero (h : SameOn m zero off (off + 4)) : m.load32 off = 0 := by
  rw [h.load32_eq (Nat.le_refl _) (Nat.le_refl _)]
  rfl

theorem load32_lt (m : Bytes) (off : Nat) : m.load32 off < 2 ^ 32 := by
  unfold load32
  have h₀ := (m off).toNat_lt
  have h₁ := (m (off + 1)).toNat_lt
  have h₂ := (m (off + 2)).toNat_lt
  have h₃ := (m (off + 3)).toNat_lt
  omega

/-- What is read back is what was copied in. -/
theorem slice_blit (m : Bytes) (off : Nat) (l : List UInt8) : (m.blit off l).slice off l.length = l := by
  apply List.ext_getElem
  · exact length_slice _ _ _
  · intro i _ h₂
    rw [getElem_slice]
    unfold blit
    rw [if_pos (by omega), Nat.add_sub_cancel_left, List.getD_eq_getElem _ _ h₂]

/-- `l` written over the bytes of `content` from `pos` on. -/
def splice (content : List UInt8) (pos : Nat) (l : List UInt8) : List UInt8 :=
  content.take pos ++ l ++ content.drop (pos + l.length)

theorem length_splice (content : List UInt8) {l : List UInt8} {pos : Nat}
    (h : pos + l.length ≤ content.length) :
    (splice content pos l).length = content.length := by
  unfold splice
  rw [List.length_append, List.length_append, List.length_take, List.length_drop]
  omega

/-- A copy into the range that is read. -/
theorem slice_blit_within (m : Bytes) (off : Nat) {len pos : Nat} {l : List UInt8}
    (h : pos + l.length ≤ len) :
    (m.blit (off + pos) l).slice off len = splice (m.slice off len) pos l := by
  have hwithin : pos + l.length ≤ (m.slice off len).length := by
    rw [length_slice]
    exact h
  have hlen := length_splice _ hwithin
  have htake : ((m.slice off len).take pos).length = pos := by
    rw [List.length_take, length_slice]
    omega
  unfold splice at hlen ⊢
  apply List.ext_getElem
  · rw [hlen, length_slice, length_slice]
  · intro i h₁ h₂
    rw [length_slice] at h₁
    rw [getElem_slice]
    unfold blit
    -- before the copy, in it, and after it
    rcases Nat.lt_or_ge i pos with hi | hi
    · rw [if_neg (by omega), List.getElem_append_left (by rw [List.length_append]; omega),
        List.getElem_append_left (by omega), List.getElem_take, getElem_slice]
    · rcases Nat.lt_or_ge i (pos + l.length) with hj | hj
      · rw [if_pos (by omega), List.getElem_append_left (by rw [List.length_append]; omega),
          List.getElem_append_right (by omega), List.getD_eq_getElem _ _ (by omega)]
        simp only [htake, Nat.add_sub_add_left]
      · rw [if_neg (by omega), List.getElem_append_right (by rw [List.length_append]; omega),
          List.getElem_drop, getElem_slice, List.length_append, htake]
        congr 1
        omega

end Bytes

/-- `uint64_t` addition. -/
def add64 (a b : Nat) : Nat := (a + b) % 2 ^ 64

/-- `uint64_t` subtraction. -/
def sub64 (a b : Nat) : Nat := (a + (2 ^ 64 - b)) % 2 ^ 64

theorem add64_count (a b : Nat) : add64 (a % 2 ^ 64) b = (a + b) % 2 ^ 64 := by
  unfold add64
  omega

/-- The difference of counters in order. -/
theorem sub64_of_le {a b : Nat} (h : b ≤ a) (ha : a < 2 ^ 64) : sub64 a b = a - b := by
  unfold sub64
  omega

/-- Two counts that are close subtract as they should. -/
theorem sub64_count {a b : Nat} (h : b ≤ a) (hclose : a < b + 2 ^ 64) :
    sub64 (a % 2 ^ 64) (b % 2 ^ 64) = a - b := by
  unfold sub64
  omega

/-- Two counts that are close and agree modulo `2^64` are the same. -/
theorem count_inj {a b : Nat} (h : b ≤ a) (hclose : a < b + 2 ^ 64)
    (heq : a % 2 ^ 64 = b % 2 ^ 64) : a = b := by
  omega

end Exchange.Lib
