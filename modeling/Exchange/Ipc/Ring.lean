import Exchange.Lib.Bytes

/-!
# The shared memory ring

A translation of `SHMRingBuffer.cpp`. Producers claim bytes by moving `prod_head`,
fill them in, and publish them in the order of their claims by moving `prod_tail`; the
one consumer reads from `cons_head`. The three are counts of bytes modulo `2^64`,
masked to offsets of the data area, which is `capacity` bytes and four more: a record
never runs over the end of the ring, and the marker that says so may have to.

Every load and store of the data area is checked here and is a `Fault` outside of it.

`Sys` is the ring with every reservation made so far, in the order of the claims, and
the consumer. A step is one action of one party: the claim (the `compare_exchange`),
the preparation of the slot, a write of some bytes of the payload, the commit, `acquire`
and `release`. A step that the code refuses, or that it would wait for, changes nothing.
-/

namespace Exchange.Ring

open Lib

/-- An access outside of the data area. -/
inductive Fault
  | outside
  deriving DecidableEq, Repr

/-- `struct SHMRing` and the data area behind it. -/
structure SHMRing where
  prodHead : Nat
  prodTail : Nat
  consHead : Nat
  capacity : Nat
  mask : Nat
  data : Bytes

/-- `WRAP_MARKER`. -/
def wrapMarker : Nat := 0xFFFFFFFF

/-- The locals of `reserve` once the claim is made. -/
structure Claim where
  size : Nat
  oldProdHead : Nat
  newProdHead : Nat
  tailOffset : Nat
  wrapped : Bool
  deriving DecidableEq, Repr

namespace Claim

/-- `payload_hdr_ptr`. -/
def header (c : Claim) : Nat := if c.wrapped then 0 else c.tailOffset

/-- `ReserveToken::payload`. -/
def payload (c : Claim) : Nat := c.header + 4

/-- A byte of the claim's marker or of its record. -/
def Covers (c : Claim) (a : Nat) : Prop :=
  (c.wrapped = true ∧ c.tailOffset ≤ a ∧ a < c.tailOffset + 4) ∨
    (c.header ≤ a ∧ a < c.header + 4 + c.size)

end Claim

/-- `AcquireToken`. -/
structure AcquireToken where
  payload : Nat
  size : Nat
  newConsHead : Nat
  deriving DecidableEq, Repr

namespace SHMRing

/-- What the creator leaves in a new segment. -/
def create (capacity : Nat) : SHMRing where
  prodHead := 0
  prodTail := 0
  consHead := 0
  capacity := capacity
  mask := sub64 capacity 1
  data := .zero

/-- `sizeof(uint32_t)` bytes follow the ring in the mapping. -/
def area (r : SHMRing) : Nat := r.capacity + 4

def load32 (r : SHMRing) (off : Nat) : Except Fault Nat :=
  if off + 4 ≤ r.area then .ok (r.data.load32 off) else .error .outside

def store32 (r : SHMRing) (off v : Nat) : Except Fault SHMRing :=
  if off + 4 ≤ r.area then .ok { r with data := r.data.store32 off v } else .error .outside

def blit (r : SHMRing) (off : Nat) (l : List UInt8) : Except Fault SHMRing :=
  if off + l.length ≤ r.area then .ok { r with data := r.data.blit off l } else .error .outside

def slice (r : SHMRing) (off len : Nat) : Except Fault (List UInt8) :=
  if off + len ≤ r.area then .ok (r.data.slice off len) else .error .outside

/-- The reservation phase of `reserve`; `none` is `std::nullopt`. -/
def claim (r : SHMRing) (size : Nat) : Option (SHMRing × Claim) :=
  if size = 0 then none
  else
    let requiredSpace := add64 4 size
    if r.capacity < requiredSpace then none
    else
      let oldProdHead := r.prodHead
      let tailOffset := oldProdHead &&& r.mask
      let spaceToEnd := sub64 r.capacity tailOffset
      let wrapped := decide (spaceToEnd < requiredSpace)
      let newProdHead :=
        if wrapped then add64 (add64 oldProdHead spaceToEnd) requiredSpace
        else add64 oldProdHead requiredSpace
      -- the producers must not overtake the consumer
      if r.capacity < sub64 newProdHead r.consHead then none
      else
        some ({ r with prodHead := newProdHead },
          { size, oldProdHead, newProdHead, tailOffset, wrapped })

/-- The slot preparation phase of `reserve`. -/
def prepare (r : SHMRing) (c : Claim) : Except Fault SHMRing := do
  let r ← if c.wrapped then r.store32 c.tailOffset wrapMarker else .ok r
  r.store32 c.header (c.size % 2 ^ 32)

/-- `commit`; `none` as long as it spins. -/
def commit (r : SHMRing) (c : Claim) : Option SHMRing :=
  if r.prodTail = c.oldProdHead then some { r with prodTail := c.newProdHead } else none

/-- The end of `acquire`, where the length has been read. -/
def tokenAt (r : SHMRing) (off head length : Nat) : Option AcquireToken :=
  if length = 0 ∨ r.capacity < length then none
  else some ⟨off + 4, length, add64 (add64 head 4) length⟩

/-- `acquire`. -/
def acquire (r : SHMRing) : Except Fault (SHMRing × Option AcquireToken) :=
  if r.consHead = r.prodTail then .ok (r, none)
  else do
    let headOffset := r.consHead &&& r.mask
    let length ← r.load32 headOffset
    if length = wrapMarker then
      let newHead := add64 r.consHead (sub64 r.capacity headOffset)
      if newHead = r.prodTail then .ok ({ r with consHead := newHead }, none)
      else do
        let length ← r.load32 0
        .ok (r, r.tokenAt 0 newHead length)
    else .ok (r, r.tokenAt headOffset r.consHead length)

/-- What the consumer finds behind the token. -/
def view (r : SHMRing) (tok : AcquireToken) : Except Fault (List UInt8) :=
  r.slice tok.payload tok.size

/-- `release`. -/
def release (r : SHMRing) (tok : AcquireToken) : SHMRing := { r with consHead := tok.newConsHead }

end SHMRing

/-- How far a producer is: it has claimed its bytes, it has prepared the slot and is
writing to it, it has committed. The slot's content is what it would commit now. -/
inductive Phase
  | claimed
  | filling (content : List UInt8)
  | committed (payload : List UInt8)
  deriving DecidableEq, Repr

structure Reservation where
  claim : Claim
  phase : Phase
  deriving DecidableEq, Repr

def Reservation.payload (res : Reservation) : Option (List UInt8) :=
  match res.phase with
  | .committed p => some p
  | _ => none

/-- The ring, all reservations in the order of their claims, the consumer's token, and
what it has read of each token that it released. -/
structure Sys where
  ring : SHMRing
  reservations : List Reservation
  holding : Option AcquireToken
  returned : List (List UInt8)

/-- An action of one party. The index says which reservation it is for. -/
inductive Act
  | claim (size : Nat)
  | prepare (i : Nat)
  | write (i pos : Nat) (l : List UInt8)
  | commit (i : Nat)
  | acquire
  | release
  deriving DecidableEq, Repr

namespace Sys

def create (capacity : Nat) : Sys := ⟨.create capacity, [], none, []⟩

def step (sys : Sys) : Act → Except Fault Sys
  | .claim size =>
    match sys.ring.claim size with
    | none => .ok sys
    | some (ring, c) =>
      .ok { sys with ring := ring, reservations := sys.reservations ++ [⟨c, .claimed⟩] }
  | .prepare i =>
    match sys.reservations[i]? with
    | some ⟨c, .claimed⟩ => do
      let ring ← sys.ring.prepare c
      let content := ring.data.slice c.payload c.size
      .ok { sys with ring := ring, reservations := sys.reservations.set i ⟨c, .filling content⟩ }
    | _ => .ok sys
  | .write i pos l =>
    match sys.reservations[i]? with
    | some ⟨c, .filling content⟩ =>
      if pos + l.length ≤ c.size then do
        let ring ← sys.ring.blit (c.payload + pos) l
        let content := Bytes.splice content pos l
        .ok { sys with ring := ring, reservations := sys.reservations.set i ⟨c, .filling content⟩ }
      else .ok sys
    | _ => .ok sys
  | .commit i =>
    match sys.reservations[i]? with
    | some ⟨c, .filling content⟩ =>
      match sys.ring.commit c with
      | none => .ok sys
      | some ring =>
        .ok { sys with
          ring := ring, reservations := sys.reservations.set i ⟨c, .committed content⟩ }
    | _ => .ok sys
  | .acquire =>
    match sys.holding with
    | some _ => .ok sys
    | none => do
      let (ring, tok) ← sys.ring.acquire
      .ok { sys with ring := ring, holding := tok }
  | .release =>
    match sys.holding with
    | none => .ok sys
    | some tok => do
      let payload ← sys.ring.view tok
      .ok { sys with
        ring := sys.ring.release tok, holding := none, returned := sys.returned ++ [payload] }

/-- Any interleaving of the parties' actions. -/
def run (sys : Sys) (acts : List Act) : Except Fault Sys := acts.foldlM step sys

/-- The committed payloads, in the order of the claims. -/
def committed (sys : Sys) : List (List UInt8) := sys.reservations.filterMap Reservation.payload

/-- What the consumer has in hand, or is handed by its next `acquire`. -/
def offer (sys : Sys) : Except Fault (Option (List UInt8)) :=
  match sys.holding with
  | some tok => some <$> sys.ring.view tok
  | none => do
    match (← sys.ring.acquire).2 with
    | none => .ok none
    | some tok => some <$> sys.ring.view tok

/-- The bytes of the data area that an action stores to. -/
def Writes (sys : Sys) : Act → Nat → Prop
  | .prepare i, a => ∃ c, sys.reservations[i]? = some ⟨c, .claimed⟩ ∧
    ((c.wrapped = true ∧ c.tailOffset ≤ a ∧ a < c.tailOffset + 4) ∨
      (c.header ≤ a ∧ a < c.header + 4))
  | .write i pos l, a => ∃ c content, sys.reservations[i]? = some ⟨c, .filling content⟩ ∧
    pos + l.length ≤ c.size ∧ c.payload + pos ≤ a ∧ a < c.payload + pos + l.length
  | _, _ => False

end Sys

/-- The reservation that an action is for. -/
def Act.reservation : Act → Option Nat
  | .prepare i => some i
  | .write i _ _ => some i
  | .commit i => some i
  | _ => none

end Exchange.Ring
