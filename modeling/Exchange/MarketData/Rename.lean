import Mathlib.Logic.Function.Basic
import Exchange.Lib.Lockstep
import Exchange.MarketData.Update

/-!
# Two books in lockstep

`Sim` relates two books that differ only in their names: `ρ` takes the order ids of
one to those of the other, `f` the addresses of its nodes. `L3Book::update` with
the same record, its id renamed, keeps the relation, and fails on one book exactly
when it fails on the other (`Sim.update`).

Addresses need to be told apart only from `base` on. With `T` the marks of
`pendingL2` are compared too: they are not for a client, which has no such maps.
-/

namespace Exchange.MarketData

open Lib

/-- An entry under other names. -/
def L3Order.rename (ρ f : Nat → Nat) (x : L3Order) : L3Order :=
  { x with orderId := ρ x.orderId, queuePos := f x.queuePos }

/-- A level under other names. -/
def L3PriceLevel.rename (ρ f : Nat → Nat) (l : L3PriceLevel) : L3PriceLevel :=
  { l with queue := l.queue.map fun n => (f n.1, ρ n.2) }

/-- Nodes from `base` on. -/
def L3PriceLevel.From (base : Nat) (l : L3PriceLevel) : Prop := ∀ n ∈ l.queue, base ≤ n.1

/-- `c` is `b` under other names. -/
structure Sim (T : Prop) (ρ f : Nat → Nat) (base : Nat) (b c : L3Book) : Prop where
  entries : ∀ id, c.orders.lookup (ρ id) = (b.orders.lookup id).map (L3Order.rename ρ f)
  /-- No other id has an entry. -/
  only : ∀ k, (∀ id, ρ id ≠ k) → c.orders.lookup k = none
  levels : ∀ s p, (c.levels s).lookup p = ((b.levels s).lookup p).map (L3PriceLevel.rename ρ f)
  next : ∀ k, f (b.nextNode + k) = c.nextNode + k
  fresh : base ≤ b.nextNode
  entryNodes : ∀ {id x}, b.orders.lookup id = some x → base ≤ x.queuePos
  levelNodes : ∀ {s p l}, (b.levels s).lookup p = some l → l.From base
  marks : T → c.pendingL2 = b.pendingL2

section Names

variable {T : Prop} {ρ f : Nat → Nat} {base : Nat} {b c : L3Book}

/-- A renamed queue is empty if the queue is. -/
theorem L3PriceLevel.rename_nil {l : L3PriceLevel} : (l.rename ρ f).queue = [] ↔ l.queue = [] :=
  List.map_eq_nil_iff

/-- The reference `bids[price]` or `asks[price]`. -/
theorem Sim.level (h : Sim T ρ f base b c) (s : Slot) (p : Int) :
    c.level s p = (b.level s p).rename ρ f ∧ (b.level s p).From base := by
  unfold L3Book.level
  rw [h.levels s p]
  cases hl : (b.levels s).lookup p with
  | none => exact ⟨rfl, fun n hn => absurd hn List.not_mem_nil⟩
  | some l => exact ⟨rfl, h.levelNodes hl⟩

theorem Sim.setLevel (h : Sim T ρ f base b c) (s : Slot) (p : Int) {l : L3PriceLevel}
    (hl : l.From base) : Sim T ρ f base (b.setLevel s p l) (c.setLevel s p (l.rename ρ f)) := by
  refine ⟨h.entries, h.only, fun s' p' => ?_, h.next, h.fresh, h.entryNodes, fun {s' p' l'} hl' => ?_,
    h.marks⟩
  · by_cases hat : s' = s ∧ p' = p
    · obtain ⟨rfl, rfl⟩ := hat
      rw [L3Book.setLevel_self, L3Book.setLevel_self]
      rfl
    · have hne := not_and_or.mp hat
      rw [L3Book.setLevel_ne _ _ hne, L3Book.setLevel_ne _ _ hne, h.levels]
  · by_cases hat : s' = s ∧ p' = p
    · obtain ⟨rfl, rfl⟩ := hat
      rw [L3Book.setLevel_self] at hl'
      rw [← Option.some.inj hl']
      exact hl
    · rw [L3Book.setLevel_ne _ _ (not_and_or.mp hat)] at hl'
      exact h.levelNodes hl'

theorem Sim.setOrErase (h : Sim T ρ f base b c) (s : Slot) (p : Int) {l : L3PriceLevel}
    (hl : l.From base) : Sim T ρ f base (b.setOrErase s p l) (c.setOrErase s p (l.rename ρ f)) := by
  refine ⟨?_, ?_, fun s' p' => ?_, ?_, ?_, ?_, fun {s' p' l'} hl' => ?_, ?_⟩
  · rw [L3Book.setOrErase_orders, L3Book.setOrErase_orders]
    exact h.entries
  · rw [L3Book.setOrErase_orders]
    exact h.only
  · by_cases hat : s' = s ∧ p' = p
    · obtain ⟨rfl, rfl⟩ := hat
      rw [L3Book.setOrErase_self, L3Book.setOrErase_self]
      by_cases hnil : l.queue = []
      · rw [if_pos hnil, if_pos (L3PriceLevel.rename_nil.mpr hnil)]
        rfl
      · rw [if_neg hnil, if_neg (fun e => hnil (L3PriceLevel.rename_nil.mp e))]
        rfl
    · have hne := not_and_or.mp hat
      rw [L3Book.setOrErase_ne _ _ hne, L3Book.setOrErase_ne _ _ hne, h.levels]
  · rw [L3Book.setOrErase_nextNode, L3Book.setOrErase_nextNode]
    exact h.next
  · rw [L3Book.setOrErase_nextNode]
    exact h.fresh
  · rw [L3Book.setOrErase_orders]
    exact h.entryNodes
  · by_cases hat : s' = s ∧ p' = p
    · obtain ⟨rfl, rfl⟩ := hat
      rw [L3Book.setOrErase_self] at hl'
      split at hl'
      · cases hl'
      · rw [← Option.some.inj hl']
        exact hl
    · rw [L3Book.setOrErase_ne _ _ (not_and_or.mp hat)] at hl'
      exact h.levelNodes hl'
  · rw [L3Book.setOrErase_pendingL2, L3Book.setOrErase_pendingL2]
    exact h.marks

theorem Sim.onLevelUpdated (h : Sim T ρ f base b c) (side : Side) (p : Int) (t : Nat) :
    Sim T ρ f base (b.onLevelUpdated side p t) (c.onLevelUpdated side p t) := by
  refine ⟨?_, ?_, ?_, ?_, ?_, ?_, ?_, fun hT => ?_⟩
  · rw [L3Book.onLevelUpdated_orders, L3Book.onLevelUpdated_orders]
    exact h.entries
  · rw [L3Book.onLevelUpdated_orders]
    exact h.only
  · rw [L3Book.onLevelUpdated_levels, L3Book.onLevelUpdated_levels]
    exact h.levels
  · rw [L3Book.onLevelUpdated_nextNode, L3Book.onLevelUpdated_nextNode]
    exact h.next
  · rw [L3Book.onLevelUpdated_nextNode]
    exact h.fresh
  · rw [L3Book.onLevelUpdated_orders]
    exact h.entryNodes
  · rw [L3Book.onLevelUpdated_levels]
    exact h.levelNodes
  · unfold L3Book.onLevelUpdated
    split
    · exact h.marks hT
    · dsimp only
      rw [h.marks hT]

end Names

/-! ## Operations -/

section Operations

variable {T : Prop} {ρ f : Nat → Nat} {base : Nat} {b c : L3Book} (hρ : Function.Injective ρ)

include hρ

theorem Sim.insertEntry (h : Sim T ρ f base b c) (id : Nat) {x : L3Order} (hx : base ≤ x.queuePos) :
    Sim T ρ f base { b with orders := b.orders.insert id x }
      { c with orders := c.orders.insert (ρ id) (x.rename ρ f) } := by
  refine ⟨fun k => ?_, fun k hk => ?_, h.levels, h.next, h.fresh, fun {k y} hy => ?_, h.levelNodes,
    h.marks⟩
  · dsimp only
    by_cases hid : k = id
    · subst hid
      rw [AList.lookup_insert, AList.lookup_insert]
      rfl
    · rw [AList.lookup_insert_ne (fun e => hid (hρ e)), AList.lookup_insert_ne hid]
      exact h.entries k
  · dsimp only
    rw [AList.lookup_insert_ne (fun e => hk id e.symm)]
    exact h.only k hk
  · dsimp only at hy
    by_cases hid : k = id
    · subst hid
      rw [AList.lookup_insert] at hy
      rw [← Option.some.inj hy]
      exact hx
    · rw [AList.lookup_insert_ne hid] at hy
      exact h.entryNodes hy

theorem Sim.eraseEntry (h : Sim T ρ f base b c) (id : Nat) :
    Sim T ρ f base { b with orders := b.orders.erase id } { c with orders := c.orders.erase (ρ id) } := by
  refine ⟨fun k => ?_, fun k hk => ?_, h.levels, h.next, h.fresh, fun {k y} hy => ?_, h.levelNodes,
    h.marks⟩
  · dsimp only
    by_cases hid : k = id
    · subst hid
      rw [AList.lookup_erase, AList.lookup_erase]
      rfl
    · rw [AList.lookup_erase_ne (fun e => hid (hρ e)), AList.lookup_erase_ne hid]
      exact h.entries k
  · dsimp only
    rw [AList.lookup_erase_ne (fun e => hk id e.symm)]
    exact h.only k hk
  · dsimp only at hy
    by_cases hid : k = id
    · subst hid
      rw [AList.lookup_erase] at hy
      cases hy
    · rw [AList.lookup_erase_ne hid] at hy
      exact h.entryNodes hy

theorem Sim.pushBack (h : Sim T ρ f base b c) (id : Nat) (side : Side) (p : Int) (q r : Nat) :
    Sim T ρ f base (b.pushBack id side p q r) (c.pushBack (ρ id) side p q r) := by
  obtain ⟨hlevel, hfrom⟩ := h.level (L3Book.slotOf side) p
  have hnode : f b.nextNode = c.nextNode := h.next 0
  -- the new node is the next one in both books
  have hset := h.setLevel (L3Book.slotOf side) p
    (l := ⟨(b.level (L3Book.slotOf side) p).totalQty + r,
      (b.level (L3Book.slotOf side) p).queue ++ [(b.nextNode, id)]⟩) (by
    intro n hn
    rcases List.mem_append.mp hn with hn | hn
    · exact hfrom n hn
    · rw [List.mem_singleton.mp hn]
      exact h.fresh)
  have hentered := hset.insertEntry hρ id (x := ⟨id, side, p, q, r, b.nextNode⟩) h.fresh
  have hpushed : Sim T ρ f base
      { (b.setLevel (L3Book.slotOf side) p ⟨(b.level (L3Book.slotOf side) p).totalQty + r,
          (b.level (L3Book.slotOf side) p).queue ++ [(b.nextNode, id)]⟩) with
        orders := b.orders.insert id ⟨id, side, p, q, r, b.nextNode⟩
        nextNode := b.nextNode + 1 }
      { (c.setLevel (L3Book.slotOf side) p ⟨(c.level (L3Book.slotOf side) p).totalQty + r,
          (c.level (L3Book.slotOf side) p).queue ++ [(c.nextNode, ρ id)]⟩) with
        orders := c.orders.insert (ρ id) ⟨ρ id, side, p, q, r, c.nextNode⟩
        nextNode := c.nextNode + 1 } := by
    -- level and entry are renamed like those before
    have hlevel' : (⟨(c.level (L3Book.slotOf side) p).totalQty + r,
        (c.level (L3Book.slotOf side) p).queue ++ [(c.nextNode, ρ id)]⟩ : L3PriceLevel) =
        L3PriceLevel.rename ρ f ⟨(b.level (L3Book.slotOf side) p).totalQty + r,
          (b.level (L3Book.slotOf side) p).queue ++ [(b.nextNode, id)]⟩ := by
      rw [hlevel]
      unfold L3PriceLevel.rename
      rw [List.map_append, List.map_singleton, hnode]
    have hentry : (⟨ρ id, side, p, q, r, c.nextNode⟩ : L3Order) =
        L3Order.rename ρ f ⟨id, side, p, q, r, b.nextNode⟩ := by
      unfold L3Order.rename
      rw [hnode]
    rw [hlevel', hentry]
    refine ⟨hentered.entries, hentered.only, hentered.levels, fun k => ?_, ?_, hentered.entryNodes,
      hentered.levelNodes, hentered.marks⟩
    · have hk := h.next (1 + k)
      show f (b.nextNode + 1 + k) = c.nextNode + 1 + k
      rw [Nat.add_assoc, hk, Nat.add_assoc]
    · exact Nat.le_succ_of_le h.fresh
  have hlast := hpushed.onLevelUpdated side p ((b.level (L3Book.slotOf side) p).totalQty + r)
  have htotal : (c.level (L3Book.slotOf side) p).totalQty = (b.level (L3Book.slotOf side) p).totalQty := by
    rw [hlevel]
    rfl
  unfold L3Book.pushBack
  dsimp only
  rw [htotal] at hlast ⊢
  exact hlast

omit hρ in
/-- `queue.erase(pos)`. -/
theorem eraseNode_renamed (hf : ∀ {m n}, base ≤ m → base ≤ n → f m = f n → m = n)
    {l : L3PriceLevel} (hl : l.From base) {pos : Nat} (hpos : base ≤ pos) :
    Agree (fun l l' => l' = L3PriceLevel.rename ρ f l ∧ l.From base) (l.eraseNode pos)
      ((l.rename ρ f).eraseNode (f pos)) := by
  have hmem : f pos ∈ (l.rename ρ f).queue.map Prod.fst ↔ pos ∈ l.queue.map Prod.fst := by
    unfold L3PriceLevel.rename
    rw [List.map_map, List.mem_map, List.mem_map]
    constructor
    · rintro ⟨n, hn, he⟩
      exact ⟨n, hn, hf (hl n hn) hpos he⟩
    · rintro ⟨n, hn, rfl⟩
      exact ⟨n, hn, rfl⟩
  unfold L3PriceLevel.eraseNode
  by_cases hin : pos ∈ l.queue.map Prod.fst
  · rw [if_pos hin, if_pos (hmem.mpr hin)]
    refine .ok ⟨?_, fun n hn => hl n (List.mem_filter.mp hn).1⟩
    unfold L3PriceLevel.rename
    dsimp only
    rw [List.filter_map]
    congr 2
    refine List.filter_congr (fun n hn => ?_)
    have hiff : f n.1 = f pos ↔ n.1 = pos := ⟨hf (hl n hn) hpos, congrArg f⟩
    simpa using hiff
  · rw [if_neg hin, if_neg (fun h => hin (hmem.mp h))]
    exact .error _

omit hρ in
theorem Sim.removeFromQueues (h : Sim T ρ f base b c)
    (hf : ∀ {m n}, base ≤ m → base ≤ n → f m = f n → m = n) (id : Nat) :
    Agree (Sim T ρ f base) (b.removeFromQueues id) (c.removeFromQueues (ρ id)) := by
  unfold L3Book.removeFromQueues
  rw [h.entries id]
  cases hx : b.orders.lookup id with
  | none => exact .ok h
  | some x =>
    rw [Option.map_some]
    dsimp only [L3Order.rename]
    cases hs : x.side.slot with
    | none => exact .ok (h.onLevelUpdated ..)
    | some s =>
      dsimp only
      rw [h.levels s x.price]
      cases hl : (b.levels s).lookup x.price with
      | none => exact .ok (h.onLevelUpdated ..)
      | some l =>
        rw [Option.map_some]
        have hfrom : L3PriceLevel.From base { l with totalQty := l.totalQty - x.qtyRem } :=
          fun n hn => h.levelNodes hl n hn
        have herase := eraseNode_renamed (ρ := ρ) hf hfrom (h.entryNodes hx)
        refine herase.bind ?_
        rintro l₁ l₁' ⟨rfl, hfrom₁⟩
        exact .ok ((h.setOrErase s x.price hfrom₁).onLevelUpdated ..)

theorem Sim.updateInPlace (h : Sim T ρ f base b c)
    (hf : ∀ {m n}, base ≤ m → base ≤ n → f m = f n → m = n) (type : ExecType) (id : Nat) {x : L3Order}
    (hx : b.orders.lookup id = some x) (q r : Nat) :
    Agree (Sim T ρ f base) (b.updateInPlace type id x q r)
      (c.updateInPlace type (ρ id) (x.rename ρ f) q r) := by
  obtain ⟨hlevel, hfrom⟩ := h.level (L3Book.slotOf x.side) x.price
  have hpos := h.entryNodes hx
  unfold L3Book.updateInPlace
  dsimp only [L3Order.rename]
  rw [hlevel]
  dsimp only [L3PriceLevel.rename]
  generalize ((b.level (L3Book.slotOf x.side) x.price).totalQty + ((r : Int) - x.qtyRem)).toNat = t
  have hset := (h.setLevel (L3Book.slotOf x.side) x.price
    (l := ⟨t, (b.level (L3Book.slotOf x.side) x.price).queue⟩) hfrom).onLevelUpdated x.side x.price t
  split
  · have herase := eraseNode_renamed (ρ := ρ) hf
      (l := ⟨t, (b.level (L3Book.slotOf x.side) x.price).queue⟩) hfrom hpos
    refine herase.bind ?_
    rintro l₁ l₁' ⟨rfl, hfrom₁⟩
    exact .ok ((hset.setOrErase (L3Book.slotOf x.side) x.price hfrom₁).eraseEntry hρ id)
  · refine .ok ?_
    exact hset.insertEntry hρ id
      (x := { x with qtyRem := r, qtyReq := if type = .replaced then q else x.qtyReq }) hpos

/-- One record on one book, and the same record under its other name on the other. -/
theorem Sim.update (h : Sim T ρ f base b c)
    (hf : ∀ {m n}, base ≤ m → base ≤ n → f m = f n → m = n) (type : ExecType) (id : Nat) (side : Side)
    (p : Int) (q r : Nat) :
    Agree (Sim T ρ f base) (b.update type id side p q r) (c.update type (ρ id) side p q r) := by
  unfold L3Book.update
  split
  · refine .ok ⟨fun k => rfl, fun k _ => rfl, fun s' p' => rfl, h.next, h.fresh, fun hx => ?_,
      fun hl => ?_, h.marks⟩
    · cases hx
    · cases hl
  split
  · exact .ok h
  split
  · exact .ok (h.pushBack hρ id side p q r)
  · rw [h.entries id]
    cases hx : b.orders.lookup id with
    | none => exact .ok h
    | some x =>
      rw [Option.map_some]
      have hsame : (x.rename ρ f).price = x.price ∧ (x.rename ρ f).qtyRem = x.qtyRem := ⟨rfl, rfl⟩
      dsimp only
      rw [hsame.1, hsame.2]
      split
      · refine (h.removeFromQueues hf id).bind ?_
        intro b₁ c₁ h₁
        split
        · exact .ok (h₁.pushBack hρ id side p q r)
        · exact .ok (h₁.eraseEntry hρ id)
      · exact h.updateInPlace hρ hf type id hx q r

end Operations

/-! ## Best prices -/

section Best

variable {T : Prop} {ρ f : Nat → Nat} {base : Nat} {b c : L3Book}

/-- The same levels are there. -/
theorem Sim.mem_levels (h : Sim T ρ f base b c) {s : Slot} {p : Int} : p ∈ c.levels s ↔ p ∈ b.levels s := by
  rw [← AList.lookup_isSome, ← AList.lookup_isSome, h.levels, Option.isSome_map]

theorem Sim.best (h : Sim T ρ f base b c) (s : Slot) : c.best s = b.best s := by
  have hmem : ∀ s p, p ∈ (c.levels s).keys ↔ p ∈ (b.levels s).keys := by
    intro s p
    rw [← AList.mem_keys, ← AList.mem_keys]
    exact h.mem_levels
  have hnil : ∀ s, (c.levels s).keys = [] ↔ (b.levels s).keys = [] := by
    intro s
    rw [List.eq_nil_iff_forall_not_mem, List.eq_nil_iff_forall_not_mem]
    exact forall_congr' (fun p => not_congr (hmem s p))
  cases s with
  | bid =>
    show (c.levels .bid).keys.max? = (b.levels .bid).keys.max?
    cases hb : (b.levels .bid).keys.max? with
    | none => exact List.max?_eq_none_iff.mpr ((hnil .bid).mpr (List.max?_eq_none_iff.mp hb))
    | some p =>
      obtain ⟨hp, hmax⟩ := List.max?_eq_some_iff.mp hb
      exact List.max?_eq_some_iff.mpr ⟨(hmem .bid p).mpr hp, fun q hq => hmax q ((hmem .bid q).mp hq)⟩
  | ask =>
    show (c.levels .ask).keys.min? = (b.levels .ask).keys.min?
    cases hb : (b.levels .ask).keys.min? with
    | none => exact List.min?_eq_none_iff.mpr ((hnil .ask).mpr (List.min?_eq_none_iff.mp hb))
    | some p =>
      obtain ⟨hp, hmin⟩ := List.min?_eq_some_iff.mp hb
      exact List.min?_eq_some_iff.mpr ⟨(hmem .ask p).mpr hp, fun q hq => hmin q ((hmem .ask q).mp hq)⟩

end Best

end Exchange.MarketData
