import Exchange.Ipc.Ring

/-!
# The pool of elements in shared memory

A translation of `util/Mempool.hpp`. The elements lie behind a header of twelve bytes in one segment;
the indices of those that are free are in a ring in another (`SHMRingBuffer.cpp`), from which
`allocate` takes one and to which `deallocate` gives it back. Every process has an object of its own:
`capacity_`, the length of its mapping and the `m_capacity` of its ring are the object's, and
`PoolHeader::capacity`, the counters, the mask and the data of the ring are shared.

A pointer is its distance from `pool_`. What is constructed in an element is left out, but not that it
must lie in the pages mapped. `ftruncate` and `mmap` succeed, and an object is attached once the
creator's constructor has returned.
-/

namespace Exchange.Pool

open Lib Exchange.Ring

/-- `sizeof(Element)`, and the bytes of a page of memory. -/
structure Layout where
  size : Nat
  page : Nat
  size_pos : 0 < size
  page_pos : 0 < page

/-- What a call can end in instead of a result. -/
inductive Fault
  | outside
  | outOfRange
  | spins
  deriving DecidableEq, Repr

/-- `PoolHeader` and the ring. -/
structure Segment where
  capacity : Nat
  ring : SHMRing

/-- `Mempool`, as one process has it. -/
structure Mempool where
  capacity : Nat
  totalSize : Nat
  ringCapacity : Nat
  deriving DecidableEq, Repr

/-- `sizeof(PoolHeader)`. -/
def headerSize : Nat := 12

namespace Layout

/-- `total_size`. -/
def totalSize (L : Layout) (capacity : Nat) : Nat := (headerSize + capacity * L.size) % 2 ^ 64

/-- The bytes that `mmap` maps for a length. -/
def mapped (L : Layout) (length : Nat) : Nat := (length + (L.page - 1)) / L.page * L.page

/-- The pool is an array: its bytes can be counted by a `ptrdiff_t`. -/
def Holds (L : Layout) (capacity : Nat) : Prop := headerSize + capacity * L.size < 2 ^ 63

end Layout

/-- `min_ring_size`. -/
def minRingSize (capacity : Nat) : Nat := (capacity + 1) * (4 + 4) * 2 % 2 ^ 64

/-- The loop that doubles `ring_size`. -/
def ringSizeFrom : Nat → Nat → Nat → Option Nat
  | 0, _, _ => none
  | fuel + 1, ringSize, minRingSize =>
    if ringSize < minRingSize then ringSizeFrom fuel (ringSize * 2 % 2 ^ 64) minRingSize
    else some ringSize

/-- `ring_size`; after 54 rounds it is 0, and the loop does not end. -/
def ringSize (capacity : Nat) : Option Nat := ringSizeFrom 64 1024 (minRingSize capacity)

/-- An access that is not in the ring's mapping. -/
def ofRing {α : Type} (x : Except Ring.Fault α) : Except Fault α := x.mapError fun _ => .outside

/-- `enqueue` of an index, and what it returns. -/
def enqueue (r : SHMRing) (index : Nat) : Except Fault (SHMRing × Bool) :=
  match r.claim 4 with
  | none => .ok (r, false)
  | some (r, c) => do
    let r ← ofRing (r.prepare c)
    let r ← ofRing (r.store32 c.payload index)
    match r.commit c with
    | none => .error .spins
    | some r => .ok (r, true)

/-- The creator's loop; `none` when it throws or does not end. -/
def init : Nat → Nat → Nat → SHMRing → Option SHMRing
  | 0, _, _, _ => none
  | fuel + 1, capacity, i, r =>
    if i < capacity then
      match enqueue r i with
      | .ok (r, true) => init fuel capacity ((i + 1) % 2 ^ 32) r
      | _ => none
    else some r

namespace Mempool

/-- The constructor of the process that finds no segment. -/
def create (L : Layout) (fuel capacity : Nat) : Option (Mempool × Segment) := do
  let ringSize ← ringSize capacity
  let ring ← init fuel capacity 0 (.create ringSize)
  some (⟨capacity, L.totalSize capacity, ringSize⟩, ⟨capacity % 2 ^ 32, ring⟩)

/-- The constructor of another process: `capacity_` is overridden, the lengths are not. -/
def attach (L : Layout) (capacity : Nat) (s : Segment) : Option Mempool :=
  (ringSize capacity).map fun ringSize => ⟨s.capacity, L.totalSize capacity, ringSize⟩

/-- The ring, as the object's `ring_` works on it. -/
def view (m : Mempool) (s : Segment) : SHMRing := { s.ring with capacity := m.ringCapacity }

/-- The segment after an operation of `ring_`. -/
def put (s : Segment) (r : SHMRing) : Segment :=
  { s with ring := { r with capacity := s.ring.capacity } }

/-- `pool_[index]`, where it is accessed. -/
def element (m : Mempool) (L : Layout) (index : Nat) : Except Fault Int :=
  if headerSize + (index + 1) * L.size ≤ L.mapped m.totalSize then .ok (index * L.size : Nat)
  else .error .outside

/-- `ring_->acquire()`. -/
def acquire (m : Mempool) (s : Segment) : Except Fault (Segment × Option AcquireToken) := do
  let (r, slot) ← ofRing (m.view s).acquire
  .ok (put s r, slot)

/-- What `allocate` does between `acquire` and `release`. -/
def construct (m : Mempool) (L : Layout) (s : Segment) (slot : AcquireToken) :
    Except Fault (Option Int) :=
  if slot.size = 4 then do
    let index ← ofRing ((m.view s).load32 slot.payload)
    if index < m.capacity then some <$> m.element L index
    else .ok none
  else .ok none

/-- `ring_->release(*slot)`. -/
def release (m : Mempool) (s : Segment) (slot : AcquireToken) : Segment :=
  put s ((m.view s).release slot)

/-- `allocate`. -/
def allocate (m : Mempool) (L : Layout) (s : Segment) : Except Fault (Segment × Option Int) := do
  let (s, slot) ← m.acquire s
  match slot with
  | none => .ok (s, none)
  | some slot => do
    let ptr ← m.construct L s slot
    .ok (m.release s slot, ptr)

/-- `get_index`; `none` when it throws. -/
def getIndex (m : Mempool) (L : Layout) (ptr : Int) : Option Nat :=
  let bytes : Int := (m.capacity * L.size : Nat)
  if ptr < 0 ∨ bytes.bmod (2 ^ 64) ≤ ptr then none
  else some ((ptr / L.size).toNat % 2 ^ 32)

/-- `get_pointer`; `none` when it throws. -/
def getPointer (m : Mempool) (L : Layout) (index : Nat) : Option Int :=
  if m.capacity ≤ index then none else some (index * L.size : Nat)

/-- `deallocate`, with what `enqueue` returns, if it is called. -/
def deallocate (m : Mempool) (L : Layout) (s : Segment) (ptr : Option Int) :
    Except Fault (Segment × Option Bool) :=
  match ptr with
  | none => .ok (s, none)
  | some ptr =>
    match m.getIndex L ptr with
    | none => .error .outOfRange
    | some index => do
      -- the destructor
      let _ ← m.element L index
      let (r, ok) ← enqueue (m.view s) index
      .ok (put s r, some ok)

end Mempool

/-! ## Calls -/

/-- The segments, and the pointers that callers have and may give back. -/
structure State where
  segment : Segment
  allocated : List Int

/-- A call. `deallocate` is of the `i`-th pointer that callers have. -/
inductive Call
  | allocate
  | deallocate (i : Nat)
  | getIndex (ptr : Int)
  | getPointer (index : Nat)
  deriving DecidableEq, Repr

/-- What a call returns; `skipped` where callers do not have such a pointer. -/
inductive Result
  | pointer (ptr : Option Int)
  | enqueued (ok : Option Bool)
  | index (index : Option Nat)
  | skipped
  deriving DecidableEq, Repr

/-- A call through one object. -/
def Mempool.call (m : Mempool) (L : Layout) (st : State) : Call → Except Fault (State × Result)
  | .allocate => do
    let (s, ptr) ← m.allocate L st.segment
    .ok (⟨s, st.allocated ++ ptr.toList⟩, .pointer ptr)
  | .deallocate i =>
    match st.allocated[i]? with
    | none => .ok (st, .skipped)
    | some ptr => do
      let (s, ok) ← m.deallocate L st.segment (some ptr)
      .ok (⟨s, st.allocated.eraseIdx i⟩, .enqueued ok)
  | .getIndex ptr => .ok (st, .index (m.getIndex L ptr))
  | .getPointer index => .ok (st, .pointer (m.getPointer L index))

/-- Calls one after the other, each through the object of the process that makes it. -/
def run (objs : Nat → Mempool) (L : Layout) : State → List (Nat × Call) →
    Except Fault (State × List Result)
  | st, [] => .ok (st, [])
  | st, (who, c) :: calls => do
    let (st, result) ← (objs who).call L st c
    let (st, results) ← run objs L st calls
    .ok (st, result :: results)

end Exchange.Pool
