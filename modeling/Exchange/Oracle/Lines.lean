import Mathlib.Algebra.BigOperators.Ring.Finset
import Exchange.Oracle.Mirror

/-!
# The aggregated book

`book-core.csv` as the reference matcher writes it, from the entries of
`active_orders`, and as `dump_raw` writes it, from the levels and their totals:
the lines are the same. The matcher's quantities are integers and the engine's
totals 64-bit words, so they are as long as no level holds 2^64 (`Mirrors.bookLines_iff`).
-/

namespace Exchange.Oracle

/-- The remaining quantity of a side at a price. -/
def qtyAt (c : Config) (l : List Order) (p : Int) : Nat :=
  ((l.filter fun o => c.plToPrice o.level = p).map Order.qtyRemaining).sum

/-- The lines of one side, from the entries that belong to it. -/
def accumulate (acc : AList fun _ : Int => Nat) (es : List Entry) : AList fun _ : Int => Nat :=
  es.foldl (fun acc e => acc.insert e.price ((acc.lookup e.price).getD 0 + e.qtyRemaining)) acc

/-- A level's line is the sum of its entries. -/
theorem accumulate_lookup (p : Int) (es : List Entry) (acc : AList fun _ : Int => Nat) :
    (accumulate acc es).lookup p = if es.filter (fun e => e.price = p) = [] then acc.lookup p
      else some ((acc.lookup p).getD 0 +
        ((es.filter fun e => e.price = p).map Entry.qtyRemaining).sum) := by
  induction es generalizing acc with
  | nil => rfl
  | cons e es ih =>
    have hcons : accumulate acc (e :: es) = accumulate
        (acc.insert e.price ((acc.lookup e.price).getD 0 + e.qtyRemaining)) es := rfl
    rw [hcons, ih]
    by_cases hp : e.price = p
    · subst hp
      rw [List.filter_cons_of_pos (by simp), AList.lookup_insert]
      simp only [reduceCtorEq, if_false, Option.getD_some, List.map_cons, List.sum_cons]
      split
      · rename_i hnil
        rw [hnil]
        simp
      · rw [Nat.add_assoc]
    · rw [List.filter_cons_of_neg (by simpa using hp), AList.lookup_insert_ne (Ne.symm hp)]

/-- The entries `l2` reads, side by side. -/
def entriesOf (st : Matcher) (buy : Bool) : List Entry :=
  (st.activeOrders.entries.map fun e => e.2).filter
    fun e => ¬ (e.qtyRemaining = 0 ∨ decide (e.side = .buy) ≠ buy)

/-- The lines of a side add up its entries. -/
theorem l2_eq (st : Matcher) (buy : Bool) : st.l2 buy = accumulate ∅ (entriesOf st buy) := by
  unfold Matcher.l2 accumulate entriesOf
  rw [List.foldl_filter, List.foldl_map]
  congr 1
  funext acc e
  by_cases h : e.2.qtyRemaining = 0 ∨ decide (e.2.side = .buy) ≠ buy
  · rw [if_pos h, if_neg]
    rw [decide_eq_true_eq]
    exact not_not.mpr h
  · rw [if_neg h, if_pos]
    rw [decide_eq_true_eq]
    exact h

section Sides

variable {c : Config} {a : Lob} {st : Matcher}

/-- The entries of a side are its resting orders. -/
theorem Mirrors.mem_entriesOf (h : Mirrors c a st) (hok : a.Ok c) {s : Slot} {e : Entry} :
    e ∈ entriesOf st (decide (s.side = .buy)) ↔ ∃ o ∈ a s, entryOf c s o = e := by
  unfold entriesOf
  rw [List.mem_filter, List.mem_map, decide_eq_true_eq, not_or, not_not]
  constructor
  · rintro ⟨⟨x, hx, rfl⟩, -, hside⟩
    obtain ⟨s', o, ho, -, he⟩ := (h.active x.1 x.2).mp (AList.mem_lookup_iff.mpr hx)
    rw [← he] at hside
    obtain rfl := (side_buy_iff s' s).mp hside
    exact ⟨o, ho, he⟩
  · rintro ⟨o, ho, rfl⟩
    have hmem := AList.mem_lookup_iff.mp (h.lookup_of_mem ho)
    have hpos : (entryOf c s o).qtyRemaining ≠ 0 := (Nat.pos_iff_ne_zero.mp (hok.sane ho).pos)
    exact ⟨⟨_, hmem, rfl⟩, hpos, rfl⟩

/-- The entries of a side are its orders, in some order. -/
theorem Mirrors.entriesOf_perm (h : Mirrors c a st) (hok : a.Ok c) (s : Slot) :
    (entriesOf st (decide (s.side = .buy))).Perm ((a s).map (entryOf c s)) := by
  have hd := Lob.Distinct.of_ok hok
  have hkey : ∀ x ∈ st.activeOrders.entries, x.2.key = x.1 := by
    intro x hx
    obtain ⟨s', o, -, hk, he⟩ := (h.active x.1 x.2).mp (AList.mem_lookup_iff.mpr hx)
    rw [← he, ← hk]
    rfl
  have hleft : (entriesOf st (decide (s.side = .buy))).Nodup := by
    refine List.Nodup.filter _ ((List.nodup_map_iff_inj_on ?_).mpr (fun x hx y hy he => ?_))
    · exact st.activeOrders.nodupKeys.nodup
    · have hk : x.1 = y.1 := by rw [← hkey x hx, ← hkey y hy, he]
      exact Sigma.ext hk (heq_of_eq he)
  have hright : ((a s).map (entryOf c s)).Nodup := by
    refine (List.nodup_map_iff_inj_on (hd.nodup s)).mpr (fun x hx y hy he => ?_)
    have hk : keyOf x.orderId = keyOf y.orderId := congrArg Entry.key he
    exact (hd.unique hx hy (keyOf_inj (hd.id hx) (hd.id hy) hk)).2
  refine (List.perm_ext_iff_of_nodup hleft hright).mpr (fun e => ?_)
  rw [h.mem_entriesOf hok, List.mem_map]

/-- `l2` holds each side's quantity at each of its prices. -/
theorem Mirrors.l2_lookup (h : Mirrors c a st) (hok : a.Ok c) (s : Slot) (p : Int) :
    (st.l2 (decide (s.side = .buy))).lookup p =
      if (a s).filter (fun o => c.plToPrice o.level = p) = [] then none
      else some (qtyAt c (a s) p) := by
  have hperm := (h.entriesOf_perm hok s).filter fun e => e.price = p
  have hfilter : ((a s).map (entryOf c s)).filter (fun e => e.price = p) =
      ((a s).filter fun o => c.plToPrice o.level = p).map (entryOf c s) := by
    rw [List.filter_map]
    rfl
  rw [hfilter] at hperm
  have hsum : (((entriesOf st (decide (s.side = .buy))).filter fun e => e.price = p).map
      Entry.qtyRemaining).sum = qtyAt c (a s) p := by
    rw [(hperm.map Entry.qtyRemaining).sum_eq, List.map_map]
    rfl
  have hnil : (entriesOf st (decide (s.side = .buy))).filter (fun e => e.price = p) = [] ↔
      (a s).filter (fun o => c.plToPrice o.level = p) = [] := by
    rw [← List.map_eq_nil_iff (f := entryOf c s) (l := (a s).filter _)]
    exact ⟨fun e => List.nil_perm.mp (e ▸ hperm), fun e => List.perm_nil.mp (e ▸ hperm)⟩
  rw [l2_eq, accumulate_lookup, hsum]
  simp only [hnil, AList.lookup_empty, Option.getD_none, Nat.zero_add]

end Sides

/-- The lines of a side are its levels, from the highest down. -/
theorem Mirrors.sortedL2_eq {b : OrderBook} {q : Nat → List Nat} {st : Matcher} (hinv : Inv b q)
    (h : Mirrors b.cfg b.lob st) (s : Slot) :
    st.sortedL2 (decide (s.side = .buy)) = (b.activeLevels s).keys.reverse.map fun i =>
      (b.cfg.plToPrice i, qtyAt b.cfg (b.lob s) (b.cfg.plToPrice i)) := by
  have hok : b.lob.Ok b.cfg := by
    rw [hinv.lob_eq]
    exact hinv.ok
  have hmem : ∀ x : Int × Nat, x ∈ (st.l2 (decide (s.side = .buy))).entries.map (fun e => (e.1, e.2)) ↔
      ∃ i ∈ b.activeLevels s, (b.cfg.plToPrice i, qtyAt b.cfg (b.lob s) (b.cfg.plToPrice i)) = x := by
    intro x
    have hentry : x ∈ (st.l2 (decide (s.side = .buy))).entries.map (fun e => (e.1, e.2)) ↔
        (st.l2 (decide (s.side = .buy))).lookup x.1 = some x.2 := by
      rw [← Option.mem_def, AList.mem_lookup_iff, List.mem_map]
      constructor
      · rintro ⟨e, he, rfl⟩
        exact he
      · intro he
        exact ⟨_, he, rfl⟩
    rw [hentry, h.l2_lookup hok]
    constructor
    · intro hx
      split at hx
      · cases hx
      · rename_i hne
        obtain ⟨o, ho⟩ := List.exists_mem_of_ne_nil _ hne
        obtain ⟨ho, hp⟩ := List.mem_filter.mp ho
        have hp' : b.cfg.plToPrice o.level = x.1 := of_decide_eq_true hp
        refine ⟨o.level, hinv.mem_levels.mpr ⟨o, ho, rfl⟩, ?_⟩
        rw [hp', Option.some.inj hx]
    · rintro ⟨i, hi, rfl⟩
      obtain ⟨o, ho, rfl⟩ := hinv.mem_levels.mp hi
      rw [if_neg]
      exact List.ne_nil_of_mem (List.mem_filter.mpr ⟨ho, decide_eq_true rfl⟩)
  have hnodup : ((st.l2 (decide (s.side = .buy))).entries.map fun e => (e.1, e.2)).Nodup := by
    refine (List.nodup_map_iff_inj_on (st.l2 _).nodupKeys.nodup).mpr (fun x _ y _ he => ?_)
    exact Sigma.ext (congrArg Prod.fst he) (heq_of_eq (congrArg Prod.snd he))
  have hdown : ((b.activeLevels s).keys.reverse.map fun i => (b.cfg.plToPrice i,
      qtyAt b.cfg (b.lob s) (b.cfg.plToPrice i))).Pairwise fun x y : Int × Nat => y.1 < x.1 := by
    rw [List.pairwise_map, List.pairwise_reverse]
    refine (b.activeLevels s).sorted.imp (fun hij => ?_)
    rw [Int.lt_iff_le_and_not_ge, Config.plToPrice_le, Config.plToPrice_le]
    omega
  have hperm : (st.sortedL2 (decide (s.side = .buy))).Perm ((b.activeLevels s).keys.reverse.map
      fun i => (b.cfg.plToPrice i, qtyAt b.cfg (b.lob s) (b.cfg.plToPrice i))) := by
    refine (List.mergeSort_perm _ _).trans ((List.perm_ext_iff_of_nodup hnodup ?_).mpr (fun x => ?_))
    · exact hdown.imp (fun hlt he => by rw [he] at hlt; exact lt_irrefl _ hlt)
    · rw [hmem, List.mem_map]
      simp only [List.mem_reverse]
      rfl
  have hsorted : (st.sortedL2 (decide (s.side = .buy))).Pairwise
      fun x y : Int × Nat => decide (y.1 ≤ x.1) = true := by
    refine List.pairwise_mergeSort (fun x y z hxy hyz => ?_) (fun x y => ?_) _
    · simp only [decide_eq_true_eq] at *
      omega
    · simp only [Bool.or_eq_true, decide_eq_true_eq]
      omega
  refine hperm.eq_of_pairwise (fun x y hx hy hxy hyx => ?_) hsorted
    (hdown.imp (fun hlt => decide_eq_true hlt.le))
  -- two lines with one price are the same line
  have hx' := (hmem x).mp (List.mem_mergeSort.mp hx)
  obtain ⟨i, -, rfl⟩ := hx'
  obtain ⟨j, -, rfl⟩ := List.mem_map.mp hy
  have hij : b.cfg.plToPrice i = b.cfg.plToPrice j :=
    le_antisymm (of_decide_eq_true hyx) (of_decide_eq_true hxy)
  rw [hij]

/-- The numbers of a line of `dump_raw`. -/
def printed (l : Side × BitVec 64 × BitVec 64) : Side × Int × Nat := (l.1, l.2.1.toNat, l.2.2.toNat)

/-- The matcher writes one line for each level: its price and what rests there. -/
theorem Mirrors.mem_bookLines {b : OrderBook} {q : Nat → List Nat} {st : Matcher} (hinv : Inv b q)
    (h : Mirrors b.cfg b.lob st) {l : Side × Int × Nat} : l ∈ st.bookLines ↔ ∃ s, ∃ i ∈ b.activeLevels s,
      (s.side, b.cfg.plToPrice i, qtyAt b.cfg (b.lob s) (b.cfg.plToPrice i)) = l := by
  have hside : ∀ s : Slot, l ∈ (st.sortedL2 (decide (s.side = .buy))).map (fun x => (s.side, x.1, x.2)) ↔
      ∃ i ∈ b.activeLevels s, (s.side, b.cfg.plToPrice i, qtyAt b.cfg (b.lob s) (b.cfg.plToPrice i)) = l := by
    intro s
    rw [h.sortedL2_eq hinv, List.map_map, List.mem_map]
    simp only [List.mem_reverse]
    rfl
  unfold Matcher.bookLines
  rw [List.mem_append]
  constructor
  · rintro (hask | hbid)
    · exact ⟨.ask, (hside .ask).mp hask⟩
    · exact ⟨.bid, (hside .bid).mp hbid⟩
  · rintro ⟨s, hs⟩
    cases s with
    | bid => exact Or.inr ((hside .bid).mpr hs)
    | ask => exact Or.inl ((hside .ask).mpr hs)

/-- `dump_raw` writes the matcher's lines with the totals wrapped, if no price is negative. -/
theorem Mirrors.bookLines_eq {b : OrderBook} {q : Nat → List Nat} {st : Matcher} (hinv : Inv b q)
    (h : Mirrors b.cfg b.lob st)
    (hpos : ∀ s, ∀ o ∈ b.lob s, 0 < b.cfg.plToPrice o.level ∧ b.cfg.plToPrice o.level < 2 ^ 63) :
    b.dumpRaw.map printed = st.bookLines.map fun l => (l.1, l.2.1, l.2.2 % 2 ^ 64) := by
  have hside : ∀ s : Slot, (b.activeLevels s).keys.reverse.map (fun i =>
      printed (s.side, (b.cfg.plToPrice i : BitVec 64), (b.priceArray i).totalQty)) =
      (st.sortedL2 (decide (s.side = .buy))).map fun l => (s.side, l.1, l.2 % 2 ^ 64) := by
    intro s
    rw [h.sortedL2_eq hinv, List.map_map]
    refine List.map_congr_left (fun i hi => ?_)
    have hi' : i ∈ b.activeLevels s := List.mem_reverse.mp hi
    have htotal : (b.priceArray i).totalQty =
        ((qtyAt b.cfg (b.lob s) (b.cfg.plToPrice i) : Nat) : BitVec 64) := by
      have hfilter : (b.lob s).filter (fun o => decide (b.cfg.plToPrice o.level = b.cfg.plToPrice i)) =
          contents b.orders q i := by
        rw [← hinv.filter_flat hi', ← hinv.lob_eq]
        refine List.filter_congr (fun o _ => ?_)
        rw [decide_eq_decide, Config.plToPrice_inj]
      unfold qtyAt
      rw [hfilter, hinv.counted.total, Nat.cast_list_sum, List.map_map]
      unfold contents
      rw [List.map_map]
      rfl
    have hprice : ((b.cfg.plToPrice i : BitVec 64).toNat : Int) = b.cfg.plToPrice i := by
      obtain ⟨o, ho, rfl⟩ := hinv.mem_levels.mp hi'
      obtain ⟨hlow, hhigh⟩ := hpos s o ho
      change (((BitVec.ofInt 64 (b.cfg.plToPrice o.level)).toNat : Nat) : Int) = _
      rw [BitVec.toNat_ofInt]
      omega
    unfold printed
    dsimp only
    rw [htotal, hprice, BitVec.natCast_eq_ofNat, BitVec.toNat_ofNat]
    rfl
  unfold OrderBook.dumpRaw Matcher.bookLines
  simp only [List.flatMap_cons, List.flatMap_nil, List.append_nil, List.map_append, List.map_map]
  exact congrArg₂ _ (hside .ask) (hside .bid)

/-- The lines are the same exactly when no price has 2^64 resting at it. -/
theorem Mirrors.bookLines_iff {b : OrderBook} {q : Nat → List Nat} {st : Matcher} (hinv : Inv b q)
    (h : Mirrors b.cfg b.lob st)
    (hpos : ∀ s, ∀ o ∈ b.lob s, 0 < b.cfg.plToPrice o.level ∧ b.cfg.plToPrice o.level < 2 ^ 63) :
    b.dumpRaw.map printed = st.bookLines ↔ ∀ s p, qtyAt b.cfg (b.lob s) p < 2 ^ 64 := by
  constructor
  · intro hsame s p
    by_cases hempty : (b.lob s).filter (fun o => b.cfg.plToPrice o.level = p) = []
    · unfold qtyAt
      rw [hempty]
      decide
    · obtain ⟨o, ho⟩ := List.exists_mem_of_ne_nil _ hempty
      obtain ⟨hrest, hp⟩ := List.mem_filter.mp ho
      obtain rfl := of_decide_eq_true hp
      have hline := (h.mem_bookLines hinv).mpr ⟨s, o.level, hinv.mem_levels.mpr ⟨o, hrest, rfl⟩, rfl⟩
      rw [← hsame] at hline
      obtain ⟨x, -, hx⟩ := List.mem_map.mp hline
      have hqty : x.2.2.toNat = qtyAt b.cfg (b.lob s) (b.cfg.plToPrice o.level) := congrArg (fun l => l.2.2) hx
      rw [← hqty]
      exact x.2.2.isLt
  · intro hsmall
    rw [h.bookLines_eq hinv hpos]
    refine (List.map_congr_left (fun l hl => ?_)).trans (List.map_id _)
    obtain ⟨s, i, -, rfl⟩ := (h.mem_bookLines hinv).mp hl
    rw [Nat.mod_eq_of_lt (hsmall s _)]
    rfl

end Exchange.Oracle
