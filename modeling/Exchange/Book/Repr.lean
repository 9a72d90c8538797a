import Mathlib.Tactic.Ring
import Exchange.Book.Lob

/-!
# The representation invariant of `OrderBook`

The book keeps the same facts four times: the queues threaded through the
orders, the counters of each level, the ordered map of levels with its
better/worse chain, and the map from ids to orders. Each of them has its own
predicate over just the fields it is about, relative to the ghost queues
`q : level → pointers, front to back`:

* `Queued` — the `next`/`prev` fields thread exactly `q`;
* `Counted` — `order_count` and `total_qty` are those of `q`;
* `Alive` — every queued pointer is a live order of sane quantities that
  points back at its level;
* `Chained` — `better`/`worse`/`best_levels_` walk the level map, best first,
  and the two sides do not cross;
* `Indexed` — `active_orders_` is exactly the queued orders by id.

An edit of one structure is a lemma about one predicate. `Inv` puts them
together for the states between two requests, `InvBut` for the states inside
`match`, where the taker is in no queue.
-/

namespace Exchange

/-- What a pointer that is not live is read as. -/
def nullOrder : Order := ⟨0, 0, 0, .limit, none, 0, 0⟩

/-- The order a pointer refers to. -/
def deref (orders : Nat → Option Order) (p : Nat) : Order := (orders p).getD nullOrder

/-- Reading an order that is there. -/
theorem deref_of_some {orders : Nat → Option Order} {p : Nat} {o : Order}
    (h : orders p = some o) : deref orders p = o := by
  rw [deref, h]
  rfl

theorem deref_congr {orders orders' : Nat → Option Order} {p : Nat}
    (h : orders' p = orders p) : deref orders' p = deref orders p := by
  rw [deref, deref, h]

/-- The queues without one pointer. -/
def dropPtr (q : Nat → List Nat) (p : Nat) : Nat → List Nat := fun i => (q i).filter (· ≠ p)

/-- The queues with one pointer appended at a level. -/
def pushPtr (q : Nat → List Nat) (i p : Nat) : Nat → List Nat :=
  Function.update q i (q i ++ [p])

/-- A dropped pointer is gone from the queue, and nothing else is. -/
theorem mem_dropPtr {q : Nat → List Nat} {p i x : Nat} :
    x ∈ dropPtr q p i ↔ x ∈ q i ∧ x ≠ p := by
  simp [dropPtr, List.mem_filter]

theorem dropPtr_of_not_mem {q : Nat → List Nat} {p i : Nat} (h : p ∉ q i) :
    dropPtr q p i = q i :=
  List.filter_eq_self.mpr (fun x hx => by
    have : x ≠ p := fun e => h (e ▸ hx)
    simpa using this)

/-- Dropping a pointer from the middle of its queue. -/
theorem dropPtr_of_split {q : Nat → List Nat} {p i : Nat} {xs ys : List Nat}
    (hnd : (q i).Nodup) (h : q i = xs ++ p :: ys) : dropPtr q p i = xs ++ ys := by
  rw [h] at hnd
  have hx : p ∉ xs := fun hm => (List.nodup_append.mp hnd).2.2 p hm p List.mem_cons_self rfl
  have hy : p ∉ ys := (List.nodup_cons.mp (List.nodup_append.mp hnd).2.1).1
  have keep : ∀ {l : List Nat}, p ∉ l → l.filter (· ≠ p) = l := fun hl =>
    List.filter_eq_self.mpr (fun x hm => by
      have : x ≠ p := fun e => hl (e ▸ hm)
      simpa using this)
  show (q i).filter (· ≠ p) = xs ++ ys
  rw [h, List.filter_append, List.filter_cons_of_neg (by simp), keep hx, keep hy]

@[simp] theorem pushPtr_self (q : Nat → List Nat) (i p : Nat) : pushPtr q i p i = q i ++ [p] :=
  Function.update_self ..

theorem pushPtr_ne {q : Nat → List Nat} {i j p : Nat} (h : j ≠ i) : pushPtr q i p j = q j :=
  Function.update_of_ne h _ _

/-- A pushed pointer stands in its own queue. -/
theorem mem_pushPtr {q : Nat → List Nat} {i j p x : Nat} :
    x ∈ pushPtr q i p j ↔ x ∈ q j ∨ (j = i ∧ x = p) := by
  by_cases h : j = i
  · subst h
    simp
  · simp [pushPtr_ne h, h]

/-! ## The queues -/

/-- The dummy head and the orders up to a point. -/
def ahead (i : Nat) (ps : List Nat) : List OrderNode := .head i :: ps.map .order

/-- The orders from a point on and the dummy tail. -/
def behind (i : Nat) (ps : List Nat) : List OrderNode := ps.map .order ++ [.tail i]

/-- The first node behind the dummy head. -/
def front (i : Nat) : List Nat → OrderNode
  | [] => .tail i
  | p :: _ => .order p

/-- Behind the head of a level comes its first order. -/
theorem behind_head (i : Nat) (ps : List Nat) : (behind i ps).head? = some (front i ps) := by
  cases ps <;> simp [behind, front]

/-- The nodes of a level, dummies included. -/
def nodes (i : Nat) (ps : List Nat) : List OrderNode := .head i :: behind i ps

/-- The link fields thread the queues `q` through the levels below `n`. -/
structure Queued (n : Nat) (L : Links OrderNode) (q : Nat → List Nat) : Prop where
  dll : ∀ {i}, i < n → Dll L none (nodes i (q i)) none
  nodup : ∀ i, (q i).Nodup
  disj : ∀ {i j p}, p ∈ q i → p ∈ q j → i = j
  range : ∀ {i p}, p ∈ q i → i < n

theorem nodes_nodup {i : Nat} {ps : List Nat} (h : ps.Nodup) : (nodes i ps).Nodup := by
  have hmap : (ps.map OrderNode.order).Nodup :=
    h.map (fun a b e => by injection e)
  simp [nodes, behind, List.nodup_append, hmap]

/-- The nodes of a level: its head, its orders, its tail. -/
theorem mem_nodes {i : Nat} {ps : List Nat} {x : OrderNode} :
    x ∈ nodes i ps ↔ x = .head i ∨ (∃ p ∈ ps, x = .order p) ∨ x = .tail i := by
  simp only [nodes, behind, List.mem_cons, List.mem_append, List.mem_map, List.not_mem_nil, or_false]
  constructor
  · rintro (h | ⟨p, hp, rfl⟩ | h)
    · exact Or.inl h
    · exact Or.inr (Or.inl ⟨p, hp, rfl⟩)
    · exact Or.inr (Or.inr h)
  · rintro (h | ⟨p, hp, rfl⟩ | h)
    · exact Or.inl h
    · exact Or.inr (Or.inl ⟨p, hp, rfl⟩)
    · exact Or.inr (Or.inr h)

namespace Queued

variable {n : Nat} {L : Links OrderNode} {q : Nat → List Nat}

/-- Different levels share no node. -/
theorem node_unique (h : Queued n L q) {i j : Nat} {x : OrderNode}
    (hi : x ∈ nodes i (q i)) (hj : x ∈ nodes j (q j)) : i = j := by
  rcases mem_nodes.mp hi with rfl | ⟨p, hp, rfl⟩ | rfl <;>
    rcases mem_nodes.mp hj with hx | ⟨p', hp', hx⟩ | hx <;> cases hx
  · rfl
  · exact h.disj hp hp'
  · rfl

/-- `dummy_head.next`. -/
theorem next_head (h : Queued n L q) {i : Nat} (hi : i < n) :
    L.next (.head i) = some (front i (q i)) := by
  have := (h.dll hi).2.1
  rwa [behind_head, Option.some_or] at this

/-- The queues are what `Links.follow` meets. -/
theorem follow_head (h : Queued n L q) {i m : Nat} (hi : i < n) (hm : (q i).length + 1 ≤ m) :
    L.follow m (L.next (.head i)) = behind i (q i) := by
  have hf := (h.dll hi).2.2.follow_eq (n := m) (by simpa [behind] using hm)
  rwa [behind_head, ← h.next_head hi] at hf

/-- The neighbours of a queued order, and the queues once it is unlinked. -/
theorem unlink (h : Queued n L q) {i p : Nat} {xs ys : List Nat} (hq : q i = xs ++ p :: ys) :
    ∃ prev, L.prev (.order p) = some prev ∧ L.next (.order p) = some (front i ys) ∧
      Queued n ((L.setNext prev (some (front i ys))).setPrev (front i ys) (some prev))
        (dropPtr q p) := by
  have hp : p ∈ q i := by simp [hq]
  have hi := h.range hp
  -- the nodes of the level, cut around `p`
  have hcut : nodes i (q i) = ahead i xs ++ .order p :: behind i ys := by
    simp [nodes, ahead, behind, hq]
  obtain ⟨prev, hprev⟩ : ∃ a, (ahead i xs).getLast? = some a :=
    ⟨_, List.getLast?_eq_some_getLast (List.cons_ne_nil _ _)⟩
  have hnext := behind_head i ys
  have hdll : Dll L none (ahead i xs ++ .order p :: behind i ys) none := hcut ▸ h.dll hi
  have hnd : (ahead i xs ++ .order p :: behind i ys).Nodup := hcut ▸ nodes_nodup (h.nodup i)
  have hmid := hdll.at_mid
  have hun := hdll.unlink hnd
  rw [hprev, hnext] at hmid hun
  simp only [Option.some_or, Links.setNext?_some, Links.setPrev?_some] at hmid hun
  refine ⟨prev, hmid.1, hmid.2, ⟨?_, fun j => (h.nodup j).filter _, ?_, ?_⟩⟩
  · intro j hj
    by_cases hji : j = i
    · subst hji
      rw [dropPtr_of_split (h.nodup j) hq]
      simpa [nodes, ahead, behind] using hun
    · -- both re-pointed nodes belong to level `i`
      have hpj : p ∉ q j := fun hm => hji (h.disj hm hp)
      rw [dropPtr_of_not_mem hpj]
      have hmemP : prev ∈ nodes i (q i) := by
        rw [hcut]
        exact List.mem_append_left _ (List.mem_of_getLast? hprev)
      have hmemN : front i ys ∈ nodes i (q i) := by
        rw [hcut]
        exact List.mem_append_right _ (List.mem_cons_of_mem _ (List.mem_of_head? hnext))
      refine (h.dll hj).congr (fun x hx => ?_) (fun x hx => ?_)
      · exact Function.update_of_ne (fun e => hji (h.node_unique (e ▸ hx) hmemP)) _ _
      · exact Function.update_of_ne (fun e => hji (h.node_unique (e ▸ hx) hmemN)) _ _
  · intro j k x hj hk
    exact h.disj (mem_dropPtr.mp hj).1 (mem_dropPtr.mp hk).1
  · intro j x hj
    exact h.range (mem_dropPtr.mp hj).1

/-- The last node in front of the dummy tail, and the queues once an order
that was in none of them is linked behind it. -/
theorem link (h : Queued n L q) {i p : Nat} (hi : i < n) (hp : ∀ j, p ∉ q j) :
    ∃ old, L.prev (.tail i) = some old ∧
      Queued n ((((L.setNext old (some (.order p))).setPrev (.order p) (some old)).setNext
        (.order p) (some (.tail i))).setPrev (.tail i) (some (.order p))) (pushPtr q i p) := by
  have hpush : (q i ++ [p]).Nodup := by
    refine List.nodup_append.mpr ⟨h.nodup i, List.nodup_singleton _, ?_⟩
    rintro a ha b hb rfl
    exact hp i (List.mem_singleton.mp hb ▸ ha)
  have hcut : nodes i (q i) = ahead i (q i) ++ [.tail i] := by simp [nodes, ahead, behind]
  have hcut' : nodes i (q i ++ [p]) = ahead i (q i) ++ [.order p, .tail i] := by
    simp [nodes, ahead, behind]
  obtain ⟨old, hold⟩ : ∃ a, (ahead i (q i)).getLast? = some a :=
    ⟨_, List.getLast?_eq_some_getLast (List.cons_ne_nil _ _)⟩
  have hdll : Dll L none (ahead i (q i) ++ [.tail i]) none := hcut ▸ h.dll hi
  have hnd : (ahead i (q i) ++ [OrderNode.order p, .tail i]).Nodup := hcut' ▸ nodes_nodup hpush
  have hmid := hdll.at_mid
  have hsp := hdll.splice hnd
  rw [hold] at hmid hsp
  simp only [List.head?_cons, Option.some_or, Links.setNext?_some, Links.setPrev?_some]
    at hmid hsp
  have hop : old ≠ .order p := by
    intro e
    have hm := List.mem_of_getLast? hold
    rw [e] at hm
    exact hp i (by simpa [ahead] using hm)
  -- the code writes the same four fields, the old tail's `next` first
  have hcomm : (((L.setNext old (some (.order p))).setPrev (.order p) (some old)).setNext
      (.order p) (some (.tail i))).setPrev (.tail i) (some (.order p)) =
      (((L.setPrev (.order p) (some old)).setNext (.order p) (some (.tail i))).setNext
        old (some (.order p))).setPrev (.tail i) (some (.order p)) := by
    simp only [Links.setNext, Links.setPrev]
    rw [Function.update_comm hop]
  refine ⟨old, hmid.1, ?_⟩
  rw [hcomm]
  refine ⟨?_, ?_, ?_, ?_⟩
  · intro j hj
    by_cases hji : j = i
    · subst hji
      rw [pushPtr_self, hcut']
      exact hsp
    · rw [pushPtr_ne hji]
      have hmemO : old ∈ nodes i (q i) := by
        rw [hcut]
        exact List.mem_append_left _ (List.mem_of_getLast? hold)
      have hmemT : OrderNode.tail i ∈ nodes i (q i) := by simp [nodes, behind]
      have hpn : ∀ x ∈ nodes j (q j), x ≠ .order p := by
        rintro x hx rfl
        rcases mem_nodes.mp hx with hc | ⟨p', hp', hc⟩ | hc <;> cases hc
        exact hp j hp'
      refine (h.dll hj).congr (fun x hx => ?_) (fun x hx => ?_)
      · have hxo : x ≠ old := fun e => hji (h.node_unique (e ▸ hx) hmemO)
        simp [Links.setNext, Links.setPrev, hxo, hpn x hx]
      · have hxt : x ≠ .tail i := fun e => hji (h.node_unique (e ▸ hx) hmemT)
        simp [Links.setNext, Links.setPrev, hxt, hpn x hx]
  · intro j
    by_cases hji : j = i
    · subst hji
      rw [pushPtr_self]
      exact hpush
    · rw [pushPtr_ne hji]
      exact h.nodup j
  · intro j k x hj hk
    rcases mem_pushPtr.mp hj with hj' | ⟨rfl, rfl⟩ <;> rcases mem_pushPtr.mp hk with hk' | ⟨rfl, hx⟩
    · exact h.disj hj' hk'
    · exact absurd (hx ▸ hj') (hp j)
    · exact absurd hk' (hp k)
    · rfl
  · intro j x hj
    rcases mem_pushPtr.mp hj with hj' | ⟨rfl, _⟩
    · exact h.range hj'
    · exact hi

end Queued

/-! ## The counters -/

/-- What a queued order adds to its level's total. -/
def weight (orders : Nat → Option Order) (p : Nat) : BitVec 64 :=
  ((deref orders p).qtyRemaining : BitVec 64)

/-- An order's weight is its own quantity, whatever else is in the pool. -/
theorem weight_congr {orders orders' : Nat → Option Order} {p : Nat} (h : orders' p = orders p) :
    weight orders' p = weight orders p := by
  rw [weight, weight, deref_congr h]

/-- `order_count` and `total_qty` are those of the queues. -/
structure Counted (pa : Nat → PriceLevel) (orders : Nat → Option Order) (q : Nat → List Nat) :
    Prop where
  count : ∀ i, (pa i).orderCount = (q i).length
  total : ∀ i, (pa i).totalQty = ((q i).map (weight orders)).sum

theorem sum_weight_congr {orders orders' : Nat → Option Order} {ps : List Nat}
    (h : ∀ p ∈ ps, weight orders' p = weight orders p) :
    (ps.map (weight orders')).sum = (ps.map (weight orders)).sum := by
  rw [List.map_congr_left h]

namespace Counted

variable {pa : Nat → PriceLevel} {orders orders' : Nat → Option Order} {q : Nat → List Nat}

/-- The counters see only the remaining quantities of queued orders. -/
theorem congr (h : Counted pa orders q)
    (hw : ∀ i, ∀ p ∈ q i, weight orders' p = weight orders p) : Counted pa orders' q :=
  ⟨h.count, fun i => by rw [h.total, sum_weight_congr (hw i)]⟩

/-- One order leaves its level. -/
theorem unlink (h : Counted pa orders q) {i p : Nat} {xs ys : List Nat} (hnd : (q i).Nodup)
    (hp : ∀ j, j ≠ i → p ∉ q j) (hq : q i = xs ++ p :: ys) :
    Counted (Function.update pa i ⟨(pa i).totalQty - weight orders p, (pa i).orderCount - 1⟩)
      orders (dropPtr q p) := by
  constructor <;> intro j <;> by_cases hj : j = i
  · subst hj
    rw [Function.update_self, dropPtr_of_split hnd hq]
    show (pa j).orderCount - 1 = _
    rw [h.count, hq]
    simp only [List.length_append, List.length_cons]
    omega
  · rw [Function.update_of_ne hj, dropPtr_of_not_mem (hp j hj), h.count]
  · subst hj
    rw [Function.update_self, dropPtr_of_split hnd hq]
    show (pa j).totalQty - weight orders p = _
    rw [h.total, hq]
    simp only [List.map_append, List.map_cons, List.sum_append, List.sum_cons]
    ring
  · rw [Function.update_of_ne hj, dropPtr_of_not_mem (hp j hj), h.total]

/-- One order joins a level. -/
theorem link (h : Counted pa orders q) (i p : Nat) :
    Counted (Function.update pa i ⟨(pa i).totalQty + weight orders p, (pa i).orderCount + 1⟩)
      orders (pushPtr q i p) := by
  constructor <;> intro j <;> by_cases hj : j = i
  · subst hj
    rw [Function.update_self, pushPtr_self]
    simp [h.count]
  · rw [Function.update_of_ne hj, pushPtr_ne hj, h.count]
  · subst hj
    rw [Function.update_self, pushPtr_self]
    simp [h.total]
  · rw [Function.update_of_ne hj, pushPtr_ne hj, h.total]

/-- One queued order's remaining quantity moves, and its level's total with it. -/
theorem reweigh (h : Counted pa orders q) {i p : Nat} (hnd : (q i).Nodup) (hmem : p ∈ q i)
    (hp : ∀ j, j ≠ i → p ∉ q j) (hw : ∀ x, x ≠ p → weight orders' x = weight orders x)
    {d : BitVec 64} (hd : weight orders' p = weight orders p + d) :
    Counted (Function.update pa i ⟨(pa i).totalQty + d, (pa i).orderCount⟩) orders' q := by
  constructor <;> intro j <;> by_cases hj : j = i
  · subst hj
    rw [Function.update_self, ← h.count]
  · rw [Function.update_of_ne hj, h.count]
  · subst hj
    obtain ⟨xs, ys, hq⟩ := List.append_of_mem hmem
    rw [hq] at hnd
    have hx : ∀ x ∈ xs, weight orders' x = weight orders x := fun x hx =>
      hw x (fun e => (List.nodup_append.mp hnd).2.2 x hx p List.mem_cons_self e)
    have hy : ∀ y ∈ ys, weight orders' y = weight orders y := fun y hy =>
      hw y (fun e => (List.nodup_cons.mp (List.nodup_append.mp hnd).2.1).1 (e ▸ hy))
    rw [Function.update_self]
    show (pa j).totalQty + d = _
    rw [h.total, hq]
    simp only [List.map_append, List.map_cons, List.sum_append, List.sum_cons, hd,
      sum_weight_congr hx, sum_weight_congr hy]
    ring
  · rw [Function.update_of_ne hj, h.total]
    exact (sum_weight_congr (fun x hx => hw x (fun e => hp j hj (e ▸ hx)))).symm

end Counted

/-! ## The orders and their index -/

/-- Every queued pointer is a live order that points back at its level. -/
def Alive (orders : Nat → Option Order) (q : Nat → List Nat) : Prop :=
  ∀ i p, p ∈ q i → ∃ o, orders p = some o ∧ o.priceLevel = some i ∧ o.Sane

/-- `active_orders_` holds exactly the queued orders, by id. -/
def Indexed (active : Nat → Option Nat) (orders : Nat → Option Order) (q : Nat → List Nat) : Prop :=
  ∀ id p, active id = some p ↔ (∃ i, p ∈ q i) ∧ (deref orders p).orderId = id

/-- `Indexed` except for the id of a taker that is in no queue. -/
structure IndexedBut (tid : Nat) (active : Nat → Option Nat) (orders : Nat → Option Order)
    (q : Nat → List Nat) : Prop where
  iff : ∀ {id p}, id ≠ tid → (active id = some p ↔ (∃ i, p ∈ q i) ∧ (deref orders p).orderId = id)
  ne : ∀ {i p}, p ∈ q i → (deref orders p).orderId ≠ tid

/-! ## The chain of levels -/

/-- The keys of a level map, best first: bids from the highest index down. -/
def Slot.bestFirst : Slot → List Nat → List Nat
  | .bid, ks => ks.reverse
  | .ask, ks => ks

/-- The levels of one side, best first. -/
def levelsOf (active : Slot → OrdSet Nat) (s : Slot) : List Nat := s.bestFirst (active s).keys

theorem mem_levelsOf {active : Slot → OrdSet Nat} {s : Slot} {i : Nat} :
    i ∈ levelsOf active s ↔ i ∈ active s := by
  cases s <;> simp [levelsOf, Slot.bestFirst, OrdSet.mem_def]

theorem levelsOf_nodup (active : Slot → OrdSet Nat) (s : Slot) : (levelsOf active s).Nodup := by
  cases s
  · exact List.nodup_reverse.mpr (active .bid).nodup
  · exact (active .ask).nodup

/-- The levels of one side run from the best to the worst. -/
theorem levelsOf_sorted (active : Slot → OrdSet Nat) (s : Slot) :
    (levelsOf active s).Pairwise s.better := by
  cases s
  · exact List.pairwise_reverse.mpr (active .bid).sorted
  · exact (active .ask).sorted

theorem levelsOf_update_ne {active : Slot → OrdSet Nat} {s s' : Slot} (h : s' ≠ s) (m : OrdSet Nat) :
    levelsOf (Function.update active s m) s' = levelsOf active s' := by
  simp [levelsOf, Function.update_of_ne h]

/-- Erasing a level leaves those before it and those behind it. -/
theorem levelsOf_erase {active : Slot → OrdSet Nat} {s : Slot} {i : Nat} {pre post : List Nat}
    (h : levelsOf active s = pre ++ i :: post) :
    levelsOf (Function.update active s ((active s).erase i)) s = pre ++ post := by
  rw [levelsOf, Function.update_self]
  cases s
  · have hk : (active .bid).keys = post.reverse ++ i :: pre.reverse := by
      rw [← List.reverse_reverse (active .bid).keys]
      exact (congrArg List.reverse h).trans (by simp)
    show ((active .bid).erase i).keys.reverse = pre ++ post
    rw [OrdSet.keys_erase hk]
    simp
  · exact OrdSet.keys_erase h

/-- The cut of one side's levels at an index it does not hold. -/
def betterThan (active : Slot → OrdSet Nat) (s : Slot) (i : Nat) : List Nat :=
  match s with
  | .bid => ((active .bid).above i).reverse
  | .ask => (active .ask).below i

/-- The levels on the other side of that cut. -/
def worseThan (active : Slot → OrdSet Nat) (s : Slot) (i : Nat) : List Nat :=
  match s with
  | .bid => ((active .bid).below i).reverse
  | .ask => (active .ask).above i

theorem levelsOf_cut {active : Slot → OrdSet Nat} {s : Slot} {i : Nat} (h : i ∉ active s) :
    levelsOf active s = betterThan active s i ++ worseThan active s i := by
  cases s
  · show (active .bid).keys.reverse = _
    rw [OrdSet.keys_eq_cut h, List.reverse_append]
    rfl
  · exact OrdSet.keys_eq_cut h

theorem levelsOf_insert {active : Slot → OrdSet Nat} {s : Slot} (i : Nat) :
    levelsOf (Function.update active s ((active s).insert i)) s =
      betterThan active s i ++ i :: worseThan active s i := by
  rw [levelsOf, Function.update_self]
  cases s
  · simp [Slot.bestFirst, OrdSet.insert, betterThan, worseThan]
  · rfl

/-- The level links and best pointers walk the level maps, and the sides do
not cross. -/
structure Chained (chain : Links Nat) (best : Slot → Option Nat) (active : Slot → OrdSet Nat) :
    Prop where
  dll : ∀ s, Dll chain none (levelsOf active s) none
  best : ∀ s, best s = (levelsOf active s).head?
  uncrossed : ∀ {i j}, i ∈ active .bid → j ∈ active .ask → i < j

namespace Chained

variable {chain : Links Nat} {best : Slot → Option Nat} {active : Slot → OrdSet Nat}

/-- No level is on both sides. -/
theorem slot_unique (h : Chained chain best active) {s s' : Slot} {i : Nat}
    (hi : i ∈ active s) (hi' : i ∈ active s') : s = s' := by
  cases s <;> cases s'
  · rfl
  · exact absurd (h.uncrossed hi hi') (lt_irrefl i)
  · exact absurd (h.uncrossed hi' hi) (lt_irrefl i)
  · rfl

/-- `removePriceLevel`: an active level leaves the chain and the map. -/
theorem remove (h : Chained chain best active) {s : Slot} {i : Nat} {pre post : List Nat}
    (hl : levelsOf active s = pre ++ i :: post) :
    Chained ((chain.setNext? (chain.prev i) (chain.next i)).setPrev? (chain.next i) (chain.prev i))
      (if (chain.prev i).isSome then best else Function.update best s (chain.next i))
      (Function.update active s ((active s).erase i)) := by
  have hdll := h.dll s
  have hnd := levelsOf_nodup active s
  rw [hl] at hdll hnd
  obtain ⟨hprev, hnext⟩ := hdll.at_mid
  have hun := hdll.unlink hnd
  simp only [Option.or_none] at hprev hnext hun
  rw [hprev, hnext]
  have hmem : ∀ x, x ∈ pre ∨ x ∈ post → x ∈ active s := fun x hx =>
    mem_levelsOf.mp (hl ▸ by rcases hx with hx | hx <;> simp [hx])
  refine ⟨fun s' => ?_, fun s' => ?_, ?_⟩
  · by_cases hs : s' = s
    · subst hs
      rw [levelsOf_erase hl]
      exact hun
    · -- the other side's levels are not touched
      rw [levelsOf_update_ne hs]
      refine (h.dll s').congr (fun x hx => ?_) (fun x hx => ?_)
      · rw [Links.setPrev?_next]
        refine Links.setNext?_next_ne (fun e => hs ?_) _
        exact h.slot_unique (mem_levelsOf.mp hx) (hmem x (Or.inl (List.mem_of_getLast? e)))
      · rw [Links.setPrev?_prev_ne (fun e => hs ?_), Links.setNext?_prev]
        exact h.slot_unique (mem_levelsOf.mp hx) (hmem x (Or.inr (List.mem_of_head? e)))
  · by_cases hs : s' = s
    · subst hs
      rw [levelsOf_erase hl]
      cases pre with
      | nil => simp
      | cons x xs =>
        have : ((x :: xs).getLast?).isSome = true := by simp [List.getLast?_isSome]
        rw [if_pos this, h.best, hl]
        rfl
    · rw [levelsOf_update_ne hs, ← h.best]
      split
      · rfl
      · exact Function.update_of_ne hs _ _
  · intro a c ha hc
    have hsub : ∀ {s' : Slot} {x : Nat},
        x ∈ Function.update active s ((active s).erase i) s' → x ∈ active s' := by
      intro s' x hx
      by_cases hs : s' = s
      · subst hs
        rw [Function.update_self] at hx
        exact (OrdSet.mem_erase.mp hx).1
      · rwa [Function.update_of_ne hs] at hx
    exact h.uncrossed (hsub ha) (hsub hc)

/-- The neighbours `GetOrCreatePriceLevel` reads off the map. -/
theorem neighbours {s : Slot} {i : Nat} (hi : i ∉ active s) :
    (if s.side = .buy then (active s).lowerBound i else (active s).before i) =
      (betterThan active s i).getLast? ∧
    (if s.side = .buy then (active s).before i else (active s).lowerBound i) =
      (worseThan active s i).head? := by
  cases s
  · constructor
    · show (active .bid).lowerBound i = _
      rw [OrdSet.lowerBound_eq hi]
      simp [betterThan]
    · show ((active .bid).below i).getLast? = _
      simp [worseThan]
  · exact ⟨rfl, OrdSet.lowerBound_eq hi⟩

/-- `GetOrCreatePriceLevel`: a new level that does not cross the opposite side
joins the chain and the map, between its neighbours. -/
theorem create (h : Chained chain best active) {s : Slot} {i : Nat} (hi : ∀ s', i ∉ active s')
    (hx : ∀ j ∈ active s.flip, State.crossed s i j = false) :
    Chained ((((chain.setPrev i (betterThan active s i).getLast?).setNext i
        (worseThan active s i).head?).setNext? (betterThan active s i).getLast?
          (some i)).setPrev? (worseThan active s i).head? (some i))
      (if (betterThan active s i).getLast?.isSome then best else Function.update best s (some i))
      (Function.update active s ((active s).insert i)) := by
  have hdll := h.dll s
  have hcut := levelsOf_cut (hi s)
  have hnd := levelsOf_nodup (Function.update active s ((active s).insert i)) s
  rw [levelsOf_insert] at hnd
  rw [hcut] at hdll
  -- the level goes between those that are better and those that are worse
  have hsp := hdll.splice hnd
  simp only [Option.or_none] at hsp
  have hmem : ∀ x, x ∈ betterThan active s i ∨ x ∈ worseThan active s i → x ∈ active s :=
    fun x hx => mem_levelsOf.mp (hcut ▸ List.mem_append.mpr hx)
  refine ⟨fun s' => ?_, fun s' => ?_, ?_⟩
  · by_cases hs : s' = s
    · subst hs
      rw [levelsOf_insert]
      exact hsp
    -- the other side has other levels
    · rw [levelsOf_update_ne hs]
      have hne : ∀ x ∈ levelsOf active s', x ≠ i := fun x hm e =>
        hi s' (e ▸ mem_levelsOf.mp hm)
      refine (h.dll s').congr (fun x hm => ?_) (fun x hm => ?_)
      · rw [Links.setPrev?_next, Links.setNext?_next_ne (fun e => hs ?_)]
        · exact Function.update_of_ne (hne x hm) _ _
        · exact h.slot_unique (mem_levelsOf.mp hm) (hmem x (Or.inl (List.mem_of_getLast? e)))
      · rw [Links.setPrev?_prev_ne (fun e => hs ?_), Links.setNext?_prev]
        · exact Function.update_of_ne (hne x hm) _ _
        · exact h.slot_unique (mem_levelsOf.mp hm) (hmem x (Or.inr (List.mem_of_head? e)))
  · by_cases hs : s' = s
    · subst hs
      rw [levelsOf_insert]
      cases hb : betterThan active s' i with
      | nil => simp
      | cons x xs =>
        have : ((x :: xs).getLast?).isSome = true := by simp [List.getLast?_isSome]
        rw [if_pos this, h.best, hcut, hb]
        rfl
    · rw [levelsOf_update_ne hs, ← h.best]
      split
      · rfl
      · exact Function.update_of_ne hs _ _
  · intro a c ha hc
    cases s
    · rw [Function.update_self, OrdSet.mem_insert] at ha
      rw [Function.update_of_ne (by decide)] at hc
      rcases ha with rfl | ha
      · simpa [State.crossed] using hx c hc
      · exact h.uncrossed ha hc
    · rw [Function.update_self, OrdSet.mem_insert] at hc
      rw [Function.update_of_ne (by decide)] at ha
      rcases hc with rfl | hc
      · simpa [State.crossed] using hx a ha
      · exact h.uncrossed ha hc

end Chained

end Exchange
