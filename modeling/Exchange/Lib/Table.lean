import Mathlib.Data.List.AList

/-!
# Keyed tables

A table with a primary key, and the statements that write one row: a plain insert, which
fails on a key that is taken, and an insert with a clause for that case. A statement that
fails leaves the table as it is.
-/

namespace Exchange.Lib

/-- A table with a primary key. -/
abbrev Table (κ ν : Type) := AList (fun _ : κ => ν)

namespace Table

variable {κ ν : Type} [DecidableEq κ]

/-- `INSERT`, and `INSERT .. ON CONFLICT DO NOTHING`. -/
def insertNew (t : Table κ ν) (k : κ) (row : ν) : Table κ ν :=
  match t.lookup k with
  | none => t.insert k row
  | some _ => t

/-- `INSERT .. ON CONFLICT DO UPDATE`. -/
def upsert (t : Table κ ν) (k : κ) (row : ν) (update : ν → ν) : Table κ ν :=
  match t.lookup k with
  | none => t.insert k row
  | some old => t.insert k (update old)

variable (t : Table κ ν) (k k' : κ) (row : ν) (update : ν → ν)

/-- `insertNew` keeps a row that is there. -/
theorem lookup_insertNew :
    (t.insertNew k row).lookup k' = if k' = k then some ((t.lookup k).getD row) else t.lookup k' := by
  unfold insertNew
  by_cases hk : k' = k
  · subst hk
    rw [if_pos rfl]
    split
    · rename_i hnone
      rw [AList.lookup_insert, hnone]
      rfl
    · rename_i old hold
      rw [hold]
      rfl
  · rw [if_neg hk]
    split
    · exact AList.lookup_insert_ne hk
    · rfl

theorem lookup_upsert :
    (t.upsert k row update).lookup k' =
      if k' = k then some (((t.lookup k).map update).getD row) else t.lookup k' := by
  unfold upsert
  by_cases hk : k' = k
  · subst hk
    rw [if_pos rfl]
    split
    · rename_i hnone
      rw [AList.lookup_insert, hnone]
      rfl
    · rename_i old hold
      rw [AList.lookup_insert, hold]
      rfl
  · rw [if_neg hk]
    split
    · exact AList.lookup_insert_ne hk
    · exact AList.lookup_insert_ne hk

end Table

end Exchange.Lib
