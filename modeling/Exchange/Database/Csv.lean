import Mathlib.Data.List.Sort
import Exchange.Database.Positions
import Exchange.Lib.Text

/-!
# `CSVClientDatabase`, as the code computes it

The store of `src/CSVClientDatabase.cpp`: an `InMemoryClientDatabase` whose positions are read from
a file when it is built, and written to it on each trade and when it is destroyed. The text is the
one of `readCSV` and `writeCSV` in `src/csv_util.cpp`; a file that is not there reads as an empty
one.

What is saved loads again as the same positions (`getPosition_load_save`). Nothing else is saved.
-/

namespace Exchange

open Lib

/-- `readCSV`. -/
def readCSV (text : List Char) : List (List (List Char)) :=
  ((Text.pieces '\n' text).filter (· ≠ [])).map (Text.pieces ',')

/-- `writeCSV`. -/
def writeCSV (data : List (List (List Char))) : List Char :=
  data.flatMap fun row => [','].intercalate row ++ ['\n']

namespace CSVClientDatabase

/-- `positions_`. -/
abbrev Positions := AList (fun _ : UInt32 => AList (fun _ : UInt32 => BitVec 64))

/-- A row of the file: `client_id`, `symbol_id`, `position`. -/
abbrev Entry := UInt32 × UInt32 × BitVec 64

/-- `positions_[client_id][symbol_id] = position`. -/
def setPosition (positions : Positions) (e : Entry) : Positions :=
  positions.insert e.1 (((positions.lookup e.1).getD ∅).insert e.2.1 e.2.2)

/-- A row as the constructor reads it; none where it has too few cells, or a number throws. -/
def parseRow : List (List Char) → Option Entry
  | clientId :: symbolId :: position :: _ => do
    let clientId ← Text.stoul clientId
    let symbolId ← Text.stoul symbolId
    let position ← Text.stoll position
    some (UInt32.ofNat clientId, UInt32.ofNat symbolId, BitVec.ofInt 64 position)
  | _ => none

/-- The constructor. The first row is the header. -/
def load (text : List Char) : InMemoryClientDatabase :=
  { InMemoryClientDatabase.empty with
    positions := (((readCSV text).drop 1).filterMap parseRow).foldl setPosition ∅ }

/-- A `std::map` from its least key on. -/
def ascending {β : Type} (m : AList fun _ : UInt32 => β) : List (UInt32 × β) :=
  (m.keys.insertionSort (· ≤ ·)).filterMap fun k => (m.lookup k).map (k, ·)

/-- The positions, one by one. -/
def entries (positions : Positions) : List Entry :=
  (ascending positions).flatMap fun c => (ascending c.2).map fun s => (c.1, s.1, s.2)

/-- A row as it is written. -/
def formatRow (e : Entry) : List (List Char) :=
  [Text.ofNat e.1.toNat, Text.ofNat e.2.1.toNat, Text.ofInt e.2.2.toInt]

/-- The first row. -/
def header : List (List Char) := ["client_id".toList, "symbol_id".toList, "position".toList]

/-- `saveToCSV`. -/
def saveToCSV (db : InMemoryClientDatabase) : List Char :=
  writeCSV (header :: (entries db.positions).map formatRow)

/-- `update_on_execution`, with the file. -/
def updateOnExecution (db : InMemoryClientDatabase) (file : List Char) (resp : OrderResponse)
    (logOffset : Nat) : InMemoryClientDatabase × List Char :=
  let db := db.updateOnExecution resp logOffset
  (db, if checkExec resp.execType execTrade then saveToCSV db else file)

/-! ## The file -/

/-- A cell that reads as it is written. -/
def Cell (cell : List Char) : Prop := cell ≠ [] ∧ ',' ∉ cell ∧ '\n' ∉ cell

/-- A row of such cells is a line. -/
theorem line_of_cells {row : List (List Char)} (hne : row ≠ []) (h : ∀ cell ∈ row, Cell cell) :
    [','].intercalate row ≠ [] ∧ '\n' ∉ [','].intercalate row := by
  induction row with
  | nil => exact absurd rfl hne
  | cons cell row ih =>
    obtain ⟨hcell, hrow⟩ := List.forall_mem_cons.mp h
    cases row with
    | nil =>
      rw [List.intercalate_singleton]
      exact ⟨hcell.1, hcell.2.2⟩
    | cons cell' row =>
      obtain ⟨-, hrest⟩ := ih (List.cons_ne_nil _ _) hrow
      rw [List.intercalate_cons_cons]
      refine ⟨fun hnil => hcell.1 ?_, fun hmem => ?_⟩
      · exact (List.append_eq_nil_iff.mp (List.append_eq_nil_iff.mp hnil).1).1
      · rcases List.mem_append.mp hmem with hmem | hmem
        · rcases List.mem_append.mp hmem with hmem | hmem
          · exact hcell.2.2 hmem
          · exact absurd (List.mem_singleton.mp hmem) (by decide)
        · exact hrest hmem

/-- What is written reads back. -/
theorem readCSV_writeCSV {data : List (List (List Char))}
    (h : ∀ row ∈ data, row ≠ [] ∧ ∀ cell ∈ row, Cell cell) : readCSV (writeCSV data) = data := by
  induction data with
  | nil => rfl
  | cons row data ih =>
    obtain ⟨⟨hne, hcells⟩, hdata⟩ := List.forall_mem_cons.mp h
    obtain ⟨hline, hend⟩ := line_of_cells hne hcells
    have hrow : Text.pieces ',' ([','].intercalate row) = row :=
      Text.pieces_intercalate fun cell hcell => ⟨(hcells cell hcell).1, (hcells cell hcell).2.1⟩
    have hwrite : writeCSV (row :: data) = [','].intercalate row ++ '\n' :: writeCSV data := by
      unfold writeCSV
      rw [List.flatMap_cons, List.append_assoc, List.singleton_append]
    unfold readCSV at ih ⊢
    rw [hwrite, Text.pieces_cons hend, List.filter_cons, if_pos (decide_eq_true hline), List.map_cons, hrow,
      ih hdata]

theorem cell_ofNat (n : Nat) : Cell (Text.ofNat n) := by
  refine ⟨Text.ofNat_ne_nil n, fun h => ?_, fun h => ?_⟩
  · exact absurd (Text.isDigit_ofNat h) (by decide)
  · exact absurd (Text.isDigit_ofNat h) (by decide)

theorem cell_ofInt (n : Int) : Cell (Text.ofInt n) := by
  refine ⟨Text.ofInt_ne_nil n, fun h => ?_, fun h => ?_⟩
  · exact absurd (Text.mem_ofInt h) (by decide)
  · exact absurd (Text.mem_ofInt h) (by decide)

/-- What is written is read row by row. -/
theorem readCSV_saved (es : List Entry) :
    readCSV (writeCSV (header :: es.map formatRow)) = header :: es.map formatRow := by
  apply readCSV_writeCSV
  intro row hrow
  rcases List.mem_cons.mp hrow with rfl | hrow
  · refine ⟨by decide, fun cell hcell => ?_⟩
    unfold header at hcell
    simp only [List.mem_cons, List.not_mem_nil, or_false] at hcell
    rcases hcell with rfl | rfl | rfl
    · exact ⟨by decide, by decide, by decide⟩
    · exact ⟨by decide, by decide, by decide⟩
    · exact ⟨by decide, by decide, by decide⟩
  · obtain ⟨e, -, rfl⟩ := List.mem_map.mp hrow
    refine ⟨List.cons_ne_nil _ _, fun cell hcell => ?_⟩
    unfold formatRow at hcell
    simp only [List.mem_cons, List.not_mem_nil, or_false] at hcell
    rcases hcell with rfl | rfl | rfl
    · exact cell_ofNat _
    · exact cell_ofNat _
    · exact cell_ofInt _

/-- A row is read as it was written. -/
theorem parseRow_formatRow (e : Entry) : parseRow (formatRow e) = some e := by
  obtain ⟨c, s, p⟩ := e
  have hc : Text.stoul (Text.ofNat c.toNat) = some c.toNat :=
    Text.stoul_ofNat (Nat.lt_trans c.toNat_lt (by decide))
  have hs : Text.stoul (Text.ofNat s.toNat) = some s.toNat :=
    Text.stoul_ofNat (Nat.lt_trans s.toNat_lt (by decide))
  have hp : Text.stoll (Text.ofInt p.toInt) = some p.toInt := Text.stoll_ofInt ⟨p.le_toInt, p.toInt_lt⟩
  unfold parseRow formatRow
  dsimp only
  rw [hc, hs, hp]
  show some (UInt32.ofNat c.toNat, UInt32.ofNat s.toNat, BitVec.ofInt 64 p.toInt) = _
  rw [UInt32.ofNat_toNat, UInt32.ofNat_toNat, BitVec.ofInt_toInt]

/-- Loading a saved file sets every entry again. -/
theorem positions_load_save (db : InMemoryClientDatabase) :
    (load (saveToCSV db)).positions = (entries db.positions).foldl setPosition ∅ := by
  have hrows : ((entries db.positions).map formatRow).filterMap parseRow = entries db.positions := by
    rw [List.filterMap_map]
    have hsome : parseRow ∘ formatRow = some := funext parseRow_formatRow
    rw [hsome, List.filterMap_some]
  unfold load saveToCSV
  dsimp only
  rw [readCSV_saved, List.drop_one, List.tail_cons, hrows]

/-! ## The positions -/

/-- `positions_[client_id][symbol_id]`, where there is one. -/
def position (positions : Positions) (clientId symbolId : UInt32) : Option (BitVec 64) :=
  (positions.lookup clientId).bind (AList.lookup symbolId)

/-- Every client has a position. -/
def Filled (positions : Positions) : Prop :=
  ∀ clientId ∈ positions, ∃ symbolId v, position positions clientId symbolId = some v

section Positions

variable {positions : Positions} {clientId symbolId : UInt32}

theorem position_insert (positions : Positions) (c : UInt32) (m : AList fun _ : UInt32 => BitVec 64)
    (clientId symbolId : UInt32) : position (positions.insert c m) clientId symbolId =
      if clientId = c then m.lookup symbolId else position positions clientId symbolId := by
  unfold position
  by_cases hc : clientId = c
  · rw [hc, AList.lookup_insert, if_pos rfl]
    rfl
  · rw [AList.lookup_insert_ne hc, if_neg hc]

/-- An entry set is the one read back, and no other is touched. -/
theorem position_setPosition (positions : Positions) (e : Entry) (clientId symbolId : UInt32) :
    position (setPosition positions e) clientId symbolId =
      if clientId = e.1 ∧ symbolId = e.2.1 then some e.2.2 else position positions clientId symbolId := by
  unfold setPosition
  rw [position_insert]
  by_cases hc : clientId = e.1
  · subst hc
    rw [if_pos rfl]
    by_cases hs : symbolId = e.2.1
    · rw [hs, AList.lookup_insert, if_pos ⟨rfl, rfl⟩]
    · rw [AList.lookup_insert_ne hs, if_neg fun h => hs h.2]
      unfold position
      cases positions.lookup e.1 <;> rfl
  · rw [if_neg hc, if_neg fun h => hc h.1]

theorem Filled.insert (h : Filled positions) {c s : UInt32} {m : AList fun _ : UInt32 => BitVec 64}
    (hs : s ∈ m) : Filled (positions.insert c m) := by
  intro clientId hmem
  by_cases hc : clientId = c
  · obtain ⟨v, hv⟩ := Option.isSome_iff_exists.mp (AList.lookup_isSome.mpr hs)
    refine ⟨s, v, ?_⟩
    rw [position_insert, if_pos hc]
    exact hv
  · obtain ⟨s', v, hv⟩ := h clientId ((AList.mem_insert positions).mp hmem |>.resolve_left hc)
    refine ⟨s', v, ?_⟩
    rw [position_insert, if_neg hc]
    exact hv

theorem filled_foldl {es : List Entry} (h : Filled positions) : Filled (es.foldl setPosition positions) := by
  induction es generalizing positions with
  | nil => exact h
  | cons e es ih => exact ih (h.insert ((AList.mem_insert _).mpr (Or.inl rfl)))

/-- A client that was not there gets its positions from the entries only. -/
theorem mem_foldl {es : List Entry} : clientId ∈ es.foldl setPosition positions ↔
    clientId ∈ positions ∨ ∃ e ∈ es, e.1 = clientId := by
  induction es generalizing positions with
  | nil => simp
  | cons e es ih =>
    rw [List.foldl_cons, ih]
    unfold setPosition
    rw [AList.mem_insert]
    simp only [List.mem_cons, exists_eq_or_imp]
    constructor
    · rintro ((rfl | h) | h)
      · exact Or.inr (Or.inl rfl)
      · exact Or.inl h
      · exact Or.inr (Or.inr h)
    · rintro (h | rfl | h)
      · exact Or.inl (Or.inr h)
      · exact Or.inl (Or.inl rfl)
      · exact Or.inr h

/-- Entries of a function make that function. -/
theorem position_foldl {es : List Entry} {f : UInt32 → UInt32 → Option (BitVec 64)}
    (hes : ∀ e ∈ es, f e.1 e.2.1 = some e.2.2)
    (h : position positions clientId symbolId = f clientId symbolId ∨ ∃ v, (clientId, symbolId, v) ∈ es) :
    position (es.foldl setPosition positions) clientId symbolId = f clientId symbolId := by
  induction es generalizing positions with
  | nil => exact h.resolve_right fun ⟨v, hv⟩ => List.not_mem_nil hv
  | cons e es ih =>
    obtain ⟨he, hrest⟩ := List.forall_mem_cons.mp hes
    refine ih hrest ?_
    rw [position_setPosition]
    by_cases hkey : clientId = e.1 ∧ symbolId = e.2.1
    · rw [if_pos hkey, hkey.1, hkey.2, he]
      exact Or.inl rfl
    · rw [if_neg hkey]
      refine h.imp_right fun ⟨v, hv⟩ => ⟨v, (List.mem_cons.mp hv).resolve_left fun heq => hkey ?_⟩
      rw [← heq]
      exact ⟨rfl, rfl⟩

theorem mem_ascending {β : Type} {m : AList fun _ : UInt32 => β} {x : UInt32 × β} :
    x ∈ ascending m ↔ m.lookup x.1 = some x.2 := by
  obtain ⟨k, v⟩ := x
  unfold ascending
  rw [List.mem_filterMap]
  constructor
  · rintro ⟨k', -, hk'⟩
    obtain ⟨v', hv', heq⟩ := Option.map_eq_some_iff.mp hk'
    obtain ⟨rfl, rfl⟩ := Prod.mk.inj heq
    exact hv'
  · intro h
    have hmem : k ∈ m := AList.lookup_isSome.mp (h ▸ rfl)
    refine ⟨k, (List.mem_insertionSort _).mpr hmem, ?_⟩
    rw [h]
    rfl

theorem mem_entries {e : Entry} : e ∈ entries positions ↔ position positions e.1 e.2.1 = some e.2.2 := by
  obtain ⟨c, s, v⟩ := e
  unfold entries position
  rw [List.mem_flatMap, Option.bind_eq_some_iff]
  constructor
  · rintro ⟨x, hx, hmem⟩
    obtain ⟨y, hy, heq⟩ := List.mem_map.mp hmem
    obtain ⟨rfl, rfl, rfl⟩ : x.1 = c ∧ y.1 = s ∧ y.2 = v := by
      obtain ⟨h1, h2⟩ := Prod.mk.inj heq
      exact ⟨h1, Prod.mk.inj h2⟩
    exact ⟨x.2, mem_ascending.mp hx, mem_ascending.mp hy⟩
  · rintro ⟨m, hm, hv⟩
    exact ⟨(c, m), mem_ascending.mpr hm, List.mem_map.mpr ⟨(s, v), mem_ascending.mpr hv, rfl⟩⟩

end Positions

/-- A client that has no row reads as a new one. -/
theorem getPosition_eq (db : InMemoryClientDatabase) (clientId symbolId : UInt32) :
    db.getPosition clientId symbolId = if clientId ∈ db.positions then
      (position db.positions clientId symbolId).getD 0
    else (InMemoryClientDatabase.newClientPositions.lookup symbolId).getD 0 := by
  unfold InMemoryClientDatabase.getPosition InMemoryClientDatabase.clientPositions position
  by_cases hmem : clientId ∈ db.positions
  · obtain ⟨m, hm⟩ := Option.isSome_iff_exists.mp (AList.lookup_isSome.mpr hmem)
    rw [if_pos hmem, hm]
    rfl
  · rw [if_neg hmem, AList.lookup_eq_none.mpr hmem]
    rfl

/-- What is saved loads again. -/
theorem getPosition_load_save {db : InMemoryClientDatabase} (h : Filled db.positions)
    (clientId symbolId : UInt32) :
    (load (saveToCSV db)).getPosition clientId symbolId = db.getPosition clientId symbolId := by
  have hmem : clientId ∈ (load (saveToCSV db)).positions ↔ clientId ∈ db.positions := by
    rw [positions_load_save, mem_foldl]
    constructor
    · rintro (hnot | ⟨e, he, rfl⟩)
      · exact absurd hnot (AList.notMem_empty _)
      · obtain ⟨m, hm, -⟩ := Option.bind_eq_some_iff.mp (mem_entries.mp he)
        exact AList.lookup_isSome.mp (hm ▸ rfl)
    · intro hc
      obtain ⟨s, v, hv⟩ := h clientId hc
      exact Or.inr ⟨(clientId, s, v), mem_entries.mpr hv, rfl⟩
  have hposition : position (load (saveToCSV db)).positions clientId symbolId =
      position db.positions clientId symbolId := by
    rw [positions_load_save]
    refine position_foldl (fun e he => mem_entries.mp he) ?_
    cases hp : position db.positions clientId symbolId with
    | none => exact Or.inl rfl
    | some v => exact Or.inr ⟨v, mem_entries.mpr hp⟩
  rw [getPosition_eq, getPosition_eq, hposition]
  simp only [hmem]

/-- A loaded file gives no client without a position. -/
theorem filled_load (text : List Char) : Filled (load text).positions :=
  filled_foldl fun _ h => absurd h (AList.notMem_empty _)

end CSVClientDatabase

end Exchange
