import Mathlib.Data.List.Sort
import Mathlib.Order.Basic

/-!
# Ordered key sets

The keys of an ordered map, as a strictly increasing list. `lowerBound k` is
the first key not below `k` and `before k` the key just in front of that
position, the two neighbours an insertion of `k` looks at. Both are read off
the cut of the key list at `k` (`below`/`above`), and inserting or erasing a
key is stated on the same cut.
-/

namespace Exchange

variable {α : Type} [LinearOrder α]

/-- The keys of an ordered map, in increasing order. -/
@[ext] structure OrdSet (α : Type) [LinearOrder α] where
  keys : List α
  sorted : keys.Pairwise (· < ·)

namespace OrdSet

instance : Membership α (OrdSet α) := ⟨fun s k => k ∈ s.keys⟩

theorem mem_def {s : OrdSet α} {k : α} : k ∈ s ↔ k ∈ s.keys := Iff.rfl

instance (s : OrdSet α) (k : α) : Decidable (k ∈ s) :=
  inferInstanceAs (Decidable (k ∈ s.keys))

/-- The empty map. -/
def empty : OrdSet α := ⟨[], List.Pairwise.nil⟩

/-- The keys in front of `k`'s position. -/
def below (s : OrdSet α) (k : α) : List α := s.keys.filter (· < k)

/-- The keys behind `k`'s position. -/
def above (s : OrdSet α) (k : α) : List α := s.keys.filter (k < ·)

/-- The first key that is not below `k`. -/
def lowerBound (s : OrdSet α) (k : α) : Option α := s.keys.find? (k ≤ ·)

/-- The key in front of the one `lowerBound k` finds. -/
def before (s : OrdSet α) (k : α) : Option α := (s.below k).getLast?

theorem nodup (s : OrdSet α) : s.keys.Nodup := s.sorted.imp (fun h => h.ne)

/-- Equal members make equal maps. -/
theorem ext_mem {s t : OrdSet α} (h : ∀ k, k ∈ s ↔ k ∈ t) : s = t := by
  have hperm : s.keys.Perm t.keys := (List.perm_ext_iff_of_nodup s.nodup t.nodup).mpr h
  exact OrdSet.ext (hperm.eq_of_pairwise (fun a b _ _ hab hba => absurd hab hba.asymm)
    s.sorted t.sorted)

/-- A key goes between those below and those above it. -/
private theorem cut_sorted (s : OrdSet α) (k : α) :
    (s.below k ++ k :: s.above k).Pairwise (· < ·) := by
  refine List.pairwise_append.mpr ⟨s.sorted.sublist List.filter_sublist,
    List.pairwise_cons.mpr ⟨?_, s.sorted.sublist List.filter_sublist⟩, ?_⟩
  · intro x hx
    exact of_decide_eq_true (List.mem_filter.mp hx).2
  · intro x hx y hy
    have hxk : x < k := of_decide_eq_true (List.mem_filter.mp hx).2
    rcases List.mem_cons.mp hy with rfl | hy'
    · exact hxk
    · exact hxk.trans (of_decide_eq_true (List.mem_filter.mp hy').2)

/-- `map[k] = …`. -/
def insert (s : OrdSet α) (k : α) : OrdSet α :=
  ⟨s.below k ++ k :: s.above k, s.cut_sorted k⟩

/-- `map.erase(k)`. -/
def erase (s : OrdSet α) (k : α) : OrdSet α :=
  ⟨s.keys.filter (· ≠ k), s.sorted.sublist List.filter_sublist⟩

@[simp] theorem mem_insert {s : OrdSet α} {k x : α} : x ∈ s.insert k ↔ x = k ∨ x ∈ s := by
  simp only [mem_def, insert, below, above, List.mem_append, List.mem_filter, List.mem_cons,
    decide_eq_true_eq]
  constructor
  · rintro (⟨h, _⟩ | rfl | ⟨h, _⟩)
    · exact Or.inr h
    · exact Or.inl rfl
    · exact Or.inr h
  · rintro (rfl | h)
    · exact Or.inr (Or.inl rfl)
    · rcases lt_trichotomy x k with hlt | rfl | hgt
      · exact Or.inl ⟨h, hlt⟩
      · exact Or.inr (Or.inl rfl)
      · exact Or.inr (Or.inr ⟨h, hgt⟩)

@[simp] theorem mem_erase {s : OrdSet α} {k x : α} : x ∈ s.erase k ↔ x ∈ s ∧ x ≠ k := by
  simp [mem_def, erase, List.mem_filter]

@[simp] theorem not_mem_empty {x : α} : x ∉ (empty : OrdSet α) := by
  simp [mem_def, empty]

/-- A sorted list is cut in two by a key it does not have. -/
private theorem cut_of_sorted {k : α} : ∀ {l : List α}, l.Pairwise (· < ·) → k ∉ l →
    l = l.filter (· < k) ++ l.filter (k < ·)
  | [], _, _ => rfl
  | x :: xs, hs, hk => by
    obtain ⟨hx, hxs⟩ := List.pairwise_cons.mp hs
    have ih := cut_of_sorted hxs (fun h => hk (List.mem_cons_of_mem _ h))
    rcases lt_trichotomy x k with hlt | heq | hgt
    · rw [List.filter_cons_of_pos (by simpa using hlt),
        List.filter_cons_of_neg (by simpa using hlt.le), List.cons_append, ← ih]
    · exact absurd (heq ▸ List.mem_cons_self) hk
    · -- everything behind `x` is above `k` too
      have hnone : (x :: xs).filter (· < k) = [] := by
        refine List.filter_eq_nil_iff.mpr (fun y hy => ?_)
        rcases List.mem_cons.mp hy with rfl | hy'
        · simpa using hgt.le
        · simpa using (hgt.trans (hx y hy')).le
      have hall : (x :: xs).filter (k < ·) = x :: xs := by
        refine List.filter_eq_self.mpr (fun y hy => ?_)
        rcases List.mem_cons.mp hy with rfl | hy'
        · simpa using hgt
        · simpa using hgt.trans (hx y hy')
      rw [hnone, hall, List.nil_append]

/-- A key list is cut at a key it does not hold. -/
theorem keys_eq_cut {s : OrdSet α} {k : α} (hk : k ∉ s) : s.keys = s.below k ++ s.above k :=
  cut_of_sorted s.sorted hk

/-- The lower bound of an absent key heads the upper half of the cut. -/
theorem lowerBound_eq {s : OrdSet α} {k : α} (hk : k ∉ s) :
    s.lowerBound k = (s.above k).head? := by
  have hfind : (s.below k).find? (k ≤ ·) = none := by
    refine List.find?_eq_none.mpr (fun x hx => ?_)
    have : x < k := of_decide_eq_true (List.mem_filter.mp hx).2
    simpa using this
  rw [lowerBound, keys_eq_cut hk, List.find?_append, hfind, Option.none_or]
  cases ha : s.above k with
  | nil => rfl
  | cons x xs =>
    have hx : k < x := of_decide_eq_true
      (List.mem_filter.mp (ha ▸ List.mem_cons_self : x ∈ s.above k)).2
    simp [hx.le]

/-- Erasing a key closes the cut around it. -/
theorem keys_erase {s : OrdSet α} {k : α} {xs ys : List α} (h : s.keys = xs ++ k :: ys) :
    (s.erase k).keys = xs ++ ys := by
  have hnd : (xs ++ k :: ys).Nodup := h ▸ s.nodup
  have hx : k ∉ xs := fun hm => (List.nodup_append.mp hnd).2.2 k hm k List.mem_cons_self rfl
  have hy : k ∉ ys := (List.nodup_cons.mp (List.nodup_append.mp hnd).2.1).1
  have keep : ∀ {l : List α}, k ∉ l → l.filter (· ≠ k) = l := fun hl =>
    List.filter_eq_self.mpr (fun x hm => by
      have : x ≠ k := fun e => hl (e ▸ hm)
      simpa using this)
  show s.keys.filter (· ≠ k) = xs ++ ys
  rw [h, List.filter_append, List.filter_cons_of_neg (by simp), keep hx, keep hy]

end OrdSet

end Exchange
