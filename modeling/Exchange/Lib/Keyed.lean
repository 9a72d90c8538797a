import Mathlib.Data.List.Nodup

/-!
# Lists with keys

A list searched from its front for a key. An element is written over the first one with its key,
or behind all others; removing takes the first one with the key. Where no key is there twice
(`Nodup`, which both operations keep) the list is as good as a map.
-/

namespace Exchange.Lib.Keyed

variable {α κ : Type} [DecidableEq κ] (key : α → κ)

/-- The first element with this key. -/
def find (l : List α) (k : κ) : Option α := l.find? (key · = k)

/-- Written over the first element with its key, or behind the others. -/
def put (a : α) : List α → List α
  | [] => [a]
  | b :: l => if key b = key a then a :: l else b :: put a l

/-- Without the first element with this key. -/
def remove (k : κ) (l : List α) : List α := l.eraseP (key · = k)

theorem find_cons (b : α) (l : List α) (k : κ) :
    find key (b :: l) k = if key b = k then some b else find key l k := by
  unfold find
  rw [List.find?_cons]
  by_cases hk : key b = k
  · rw [decide_eq_true hk, if_pos hk]
  · rw [decide_eq_false hk, if_neg hk]

theorem remove_cons (b : α) (l : List α) (k : κ) :
    remove key k (b :: l) = if key b = k then l else b :: remove key k l := by
  unfold remove
  rw [List.eraseP_cons]
  by_cases hk : key b = k
  · rw [decide_eq_true hk, if_pos hk]
    rfl
  · rw [decide_eq_false hk, if_neg hk]
    rfl

/-- What is found is there, under its key. -/
theorem mem_of_find {l : List α} {k : κ} {a : α} (h : find key l k = some a) : a ∈ l ∧ key a = k := by
  have hkey := List.find?_some h
  exact ⟨List.mem_of_find?_eq_some h, of_decide_eq_true hkey⟩

/-- With keys that differ, each row is found. -/
theorem find_of_mem {l : List α} (hnodup : (l.map key).Nodup) {a : α} (ha : a ∈ l) :
    find key l (key a) = some a := by
  cases hfind : find key l (key a) with
  | none => exact absurd (decide_eq_true rfl) (List.find?_eq_none.mp hfind a ha)
  | some b =>
    obtain ⟨hb, hkey⟩ := mem_of_find key hfind
    rw [List.inj_on_of_nodup_map hnodup hb ha hkey]

/-- The row put is found under its key, others under theirs. -/
theorem find_put (a : α) (l : List α) (k : κ) :
    find key (put key a l) k = if k = key a then some a else find key l k := by
  induction l with
  | nil =>
    rw [put, find_cons]
    exact if_congr eq_comm rfl rfl
  | cons b l ih =>
    rw [put]
    split
    · rename_i hkey
      rw [find_cons, find_cons, hkey]
      by_cases hk : k = key a
      · rw [if_pos hk.symm, if_pos hk]
      · rw [if_neg (Ne.symm hk), if_neg hk, if_neg (Ne.symm hk)]
    · rename_i hkey
      rw [find_cons, find_cons, ih]
      by_cases hk : k = key a
      · rw [if_neg (hk ▸ hkey), if_pos hk, if_pos hk]
      · rw [if_neg hk, if_neg hk]

/-- A row removed is not found, the others are. -/
theorem find_remove {l : List α} (hnodup : (l.map key).Nodup) (k k' : κ) :
    find key (remove key k l) k' = if k' = k then none else find key l k' := by
  induction l with
  | nil => exact (ite_self _).symm
  | cons b l ih =>
    rw [List.map_cons, List.nodup_cons] at hnodup
    rw [remove_cons, find_cons]
    by_cases hb : key b = k
    · rw [if_pos hb]
      by_cases hk : k' = k
      · -- the key is not there a second time
        rw [if_pos hk]
        refine List.find?_eq_none.mpr fun a ha hkey => hnodup.1 ?_
        rw [hb, ← hk, ← of_decide_eq_true hkey]
        exact List.mem_map_of_mem ha
      · rw [if_neg hk, if_neg fun h => hk (h.symm.trans hb)]
    · rw [if_neg hb, find_cons, ih hnodup.2]
      by_cases hk : k' = k
      · rw [if_pos hk, if_pos hk, if_neg (hk ▸ hb)]
      · rw [if_neg hk, if_neg hk]

/-- What is there after a put was put or was there. -/
theorem mem_put {a x : α} {l : List α} (h : x ∈ put key a l) : x = a ∨ x ∈ l := by
  induction l with
  | nil => exact Or.inl (List.mem_singleton.mp h)
  | cons b l ih =>
    rw [put] at h
    split at h
    · rcases List.mem_cons.mp h with h | h
      · exact Or.inl h
      · exact Or.inr (List.mem_cons_of_mem _ h)
    · rcases List.mem_cons.mp h with h | h
      · exact Or.inr (h ▸ List.mem_cons_self)
      · exact (ih h).imp_right (List.mem_cons_of_mem _)

theorem nodup_put (a : α) {l : List α} (hnodup : (l.map key).Nodup) : ((put key a l).map key).Nodup := by
  induction l with
  | nil => exact List.nodup_singleton _
  | cons b l ih =>
    rw [List.map_cons, List.nodup_cons] at hnodup
    rw [put]
    split
    · rename_i hkey
      rw [List.map_cons, List.nodup_cons, ← hkey]
      exact hnodup
    · rename_i hkey
      rw [List.map_cons, List.nodup_cons]
      refine ⟨fun hmem => ?_, ih hnodup.2⟩
      obtain ⟨x, hx, hxkey⟩ := List.mem_map.mp hmem
      rcases mem_put key hx with rfl | hx
      · exact hkey hxkey.symm
      · exact hnodup.1 (hxkey ▸ List.mem_map_of_mem hx)

theorem nodup_remove (k : κ) {l : List α} (hnodup : (l.map key).Nodup) :
    ((remove key k l).map key).Nodup :=
  hnodup.sublist ((List.eraseP_sublist ..).map key)

end Exchange.Lib.Keyed
