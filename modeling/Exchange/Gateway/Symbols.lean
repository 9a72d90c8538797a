import Exchange.Types
import Exchange.Lib.OrdSet

/-!
# The symbol table and the routing of orders

`src/SQLiteSymbolDatabase.cpp`, and what the two `main`s make of it: the gateway
opens one request ring for each core of the table, a matching engine builds
books for the symbols of its own core. The gateway sends an order to the ring of
the core that `getSymbolInfo` names, and `handle_execution_response` looks for
the sender in the queue of that core.

`getSymbolInfo` fills in every field of its argument but `core_offset`, so that
the gateway reads the default of the struct and takes every symbol to be on core
0. `routed_iff` says which symbols that leaves reachable.

The statements are taken to succeed. A symbol id is bound, stored and read back
as a 32-bit integer. Of a ring only whether the pointer is set is kept.
-/

namespace Exchange.Gateway

/-- A row of the table `symbols`. -/
structure SymbolRow where
  symbolId : UInt32
  name : String
  pExp : Int
  minStepRaw : Int
  minPriceRaw : Int
  maxPriceRaw : Int
  coreOffset : Int
  deriving DecidableEq, Repr

/-- The table `symbols`; `symbol_id` is its primary key. -/
structure SymbolTable where
  rows : List SymbolRow
  primaryKey : (rows.map SymbolRow.symbolId).Nodup

/-- `struct DbSymbolInfo`, with its defaults. -/
structure DbSymbolInfo where
  name : String := ""
  priceExp : Int := 0
  minStep : Int := 0
  minPrice : Int := 0
  maxPrice : Int := 0
  coreOffset : Int := 0
  deriving DecidableEq, Repr

namespace SymbolTable

/-- `getSymbolInfo`: the caller's `info` with the selected columns written over it. -/
def getSymbolInfo (t : SymbolTable) (symbolId : UInt32) (info : DbSymbolInfo) : Option DbSymbolInfo :=
  (t.rows.find? (·.symbolId = symbolId)).map fun row =>
    { info with
      name := row.name
      priceExp := row.pExp
      minStep := row.minStepRaw
      minPrice := row.minPriceRaw
      maxPrice := row.maxPriceRaw }

/-- `getSymbolsForCore`, with the fallback to every symbol when core 0 has none. -/
def getSymbolsForCore (t : SymbolTable) (coreOffset : Int) : List UInt32 :=
  let result := (t.rows.filter (·.coreOffset = coreOffset)).map SymbolRow.symbolId
  if result = [] ∧ coreOffset = 0 then t.rows.map SymbolRow.symbolId else result

/-- `getAllCores`. -/
def getAllCores (t : SymbolTable) : OrdSet Int :=
  let result := t.rows.foldl (fun cores row => cores.insert row.coreOffset) OrdSet.empty
  if result.keys = [] then result.insert 0 else result

/-- The symbols `main` of `matching-engine.cpp` makes books for, when it is
started for a core. -/
def bookSymbols (t : SymbolTable) (targetCoreOffset : Int) : List UInt32 :=
  (t.getSymbolsForCore targetCoreOffset).filter fun sid => (t.getSymbolInfo sid {}).isSome

end SymbolTable

/-- `request_rings` as `main` of `client-manager.cpp` fills it; no core offset is
negative, as the subscripts there demand. -/
def requestRings (cores : OrdSet Int) : List Bool :=
  let maxCore := cores.keys.foldl max (-1)
  let size := if 0 ≤ maxCore then (maxCore + 1).toNat else 0
  (List.range size).map fun (i : Nat) => decide ((i : Int) ∈ cores)

/-- The core the gateway takes a symbol to be on: a fresh `DbSymbolInfo` is
handed to `getSymbolInfo`, and core 0 is the default. -/
def coreOffset (getSymbolInfo : UInt32 → DbSymbolInfo → Option DbSymbolInfo) (symbolId : UInt32) :
    Int :=
  match getSymbolInfo symbolId {} with
  | some info => info.coreOffset
  | none => 0

/-- The ring `process_client_request` puts an order in, if there is one. -/
def ringIndex (rings : List Bool) (core : Int) : Option Nat :=
  if core < 0 ∨ (rings.length : Int) ≤ core ∨ rings[core.toNat]? ≠ some true then none
  else some core.toNat

/-- The queue `handle_execution_response` takes the sender from. -/
def queueIndex (queues : Nat) (core : Int) : Option Nat :=
  if core < 0 ∨ (queues : Int) ≤ core then none else some core.toNat

/-! ## What the gateway reads off the table -/

variable {t : SymbolTable}

/-- A fresh `DbSymbolInfo` keeps its core. -/
theorem coreOffset_zero (t : SymbolTable) (symbolId : UInt32) :
    coreOffset t.getSymbolInfo symbolId = 0 := by
  unfold coreOffset SymbolTable.getSymbolInfo
  cases t.rows.find? (·.symbolId = symbolId) with
  | none => rfl
  | some row => rfl

theorem SymbolTable.listed {row : SymbolRow} (h : row ∈ t.rows) :
    (t.getSymbolInfo row.symbolId {}).isSome = true := by
  unfold SymbolTable.getSymbolInfo
  rw [Option.isSome_map, List.find?_isSome]
  exact ⟨row, h, by simp⟩

/-- A row is found by its key alone. -/
theorem SymbolTable.row_unique {row row' : SymbolRow} (h : row ∈ t.rows) (h' : row' ∈ t.rows)
    (he : row'.symbolId = row.symbolId) : row' = row :=
  List.inj_on_of_nodup_map t.primaryKey h' h he

/-- The cores of a table with a row in it are those of its rows. -/
theorem mem_getAllCores {row : SymbolRow} (hrow : row ∈ t.rows) {core : Int} :
    core ∈ t.getAllCores ↔ ∃ row ∈ t.rows, row.coreOffset = core := by
  -- the set collects the cores of the rows, from any set to start from
  have hfold : ∀ (core : Int) (rows : List SymbolRow) (cores : OrdSet Int),
      core ∈ rows.foldl (fun cores row => cores.insert row.coreOffset) cores ↔
        core ∈ cores ∨ ∃ row ∈ rows, row.coreOffset = core := by
    intro core rows
    induction rows with
    | nil => simp
    | cons row rows ih =>
      intro cores
      rw [List.foldl_cons, ih, OrdSet.mem_insert, List.exists_mem_cons_iff]
      tauto
  have hself := (hfold row.coreOffset t.rows OrdSet.empty).mpr (Or.inr ⟨row, hrow, rfl⟩)
  have hne : (t.rows.foldl (fun cores row => cores.insert row.coreOffset) OrdSet.empty).keys ≠ [] :=
    fun hnil => absurd hself (by rw [OrdSet.mem_def, hnil]; exact List.not_mem_nil)
  unfold SymbolTable.getAllCores
  rw [if_neg hne, hfold]
  simp

/-- A core of the table has a ring. -/
theorem ringIndex_of_mem {cores : OrdSet Int} {core : Int} (hpos : 0 ≤ core) (h : core ∈ cores) :
    ringIndex (requestRings cores) core = some core.toNat := by
  have hmax : ∀ (keys : List Int) (m : Int), (∀ k ∈ keys, k ≤ keys.foldl max m) ∧
      m ≤ keys.foldl max m := by
    intro keys
    induction keys with
    | nil => exact fun m => ⟨fun k hk => absurd hk List.not_mem_nil, le_rfl⟩
    | cons x keys ih =>
      intro m
      obtain ⟨hkeys, hm⟩ := ih (max m x)
      rw [List.foldl_cons]
      refine ⟨fun k hk => ?_, (le_max_left m x).trans hm⟩
      rcases List.mem_cons.mp hk with rfl | hk
      · exact (le_max_right m k).trans hm
      · exact hkeys k hk
  have hle := (hmax cores.keys (-1)).1 core h
  have hcast : ((core.toNat : Nat) : Int) = core := Int.toNat_of_nonneg hpos
  have hlt : core.toNat < ((cores.keys.foldl max (-1)) + 1).toNat := by omega
  have hset : (requestRings cores)[core.toNat]? = some true := by
    unfold requestRings
    dsimp only
    rw [if_pos (by omega), List.getElem?_map, List.getElem?_range hlt, Option.map_some, hcast,
      decide_eq_true h]
  have hlen : ¬ ((requestRings cores).length : Int) ≤ core := by
    unfold requestRings
    dsimp only
    rw [if_pos (by omega), List.length_map, List.length_range]
    omega
  unfold ringIndex
  rw [if_neg]
  rintro (hneg | hout | hnull)
  · omega
  · exact hlen hout
  · exact hnull hset

/-- A ring that is used belongs to a core of the table. -/
theorem mem_of_ringIndex {cores : OrdSet Int} {core : Int} {k : Nat}
    (h : ringIndex (requestRings cores) core = some k) : (k : Int) = core ∧ core ∈ cores := by
  unfold ringIndex at h
  split at h
  · cases h
  · rename_i hno
    obtain ⟨hneg, hrest⟩ := not_or.mp hno
    obtain ⟨-, hset⟩ := not_or.mp hrest
    have hcast : ((core.toNat : Nat) : Int) = core := Int.toNat_of_nonneg (Int.not_lt.mp hneg)
    obtain rfl := Option.some.inj h
    refine ⟨hcast, ?_⟩
    -- the entry at an index is about that index
    have hentry := not_not.mp hset
    unfold requestRings at hentry
    rw [List.getElem?_map] at hentry
    obtain ⟨j, hj, hval⟩ := Option.map_eq_some_iff.mp hentry
    obtain ⟨hlt, hget⟩ := List.getElem?_eq_some_iff.mp hj
    rw [List.getElem_range] at hget
    rw [← hget, hcast] at hval
    exact of_decide_eq_true hval

/-! ## Routing and the partition of the symbols -/

/-- An order on the symbol is put in the ring of an engine that has a book for it,
and the responses are matched with the queue of that ring. -/
def Routed (t : SymbolTable) (symbolId : UInt32) : Prop :=
  ∃ core : Nat,
    ringIndex (requestRings t.getAllCores) (coreOffset t.getSymbolInfo symbolId) = some core ∧
    symbolId ∈ t.getSymbolsForCore core ∧ symbolId ∈ t.bookSymbols core ∧
    queueIndex (requestRings t.getAllCores).length (coreOffset t.getSymbolInfo symbolId) = some core

/-- Orders on a listed symbol reach a book exactly when the table puts it on core 0. -/
theorem routed_iff {row : SymbolRow} (hrow : row ∈ t.rows) :
    Routed t row.symbolId ↔ row.coreOffset = 0 := by
  unfold Routed
  rw [coreOffset_zero]
  constructor
  · rintro ⟨core, hring, hsym, -, -⟩
    obtain ⟨hcore, hmem⟩ := mem_of_ringIndex hring
    obtain ⟨row₀, hrow₀, hzero⟩ := (mem_getAllCores hrow).mp hmem
    -- core 0 has a symbol, so that the fallback is not taken
    have hne : (t.rows.filter (·.coreOffset = 0)).map SymbolRow.symbolId ≠ [] := by
      intro hnil
      rw [List.map_eq_nil_iff, List.filter_eq_nil_iff] at hnil
      exact hnil row₀ hrow₀ (by simpa using hzero)
    unfold SymbolTable.getSymbolsForCore at hsym
    rw [hcore] at hsym
    dsimp only at hsym
    rw [if_neg (fun h => hne h.1)] at hsym
    obtain ⟨row', hrow', hid⟩ := List.mem_map.mp hsym
    obtain ⟨hmem', hoff⟩ := List.mem_filter.mp hrow'
    rw [← SymbolTable.row_unique hrow hmem' hid]
    simpa using hoff
  · intro hzero
    have hmem : (0 : Int) ∈ t.getAllCores := (mem_getAllCores hrow).mpr ⟨row, hrow, hzero⟩
    have hring := ringIndex_of_mem le_rfl hmem
    have hsym : row.symbolId ∈ t.getSymbolsForCore ((0 : Nat) : Int) := by
      have hin : row.symbolId ∈ (t.rows.filter (·.coreOffset = 0)).map SymbolRow.symbolId :=
        List.mem_map.mpr ⟨row, List.mem_filter.mpr ⟨hrow, by simpa using hzero⟩, rfl⟩
      unfold SymbolTable.getSymbolsForCore
      dsimp only
      rw [if_neg]
      · exact hin
      · intro hnil
        exact absurd (hnil.1 ▸ hin) List.not_mem_nil
    refine ⟨0, hring, hsym, List.mem_filter.mpr ⟨hsym, SymbolTable.listed hrow⟩, ?_⟩
    unfold ringIndex at hring
    split at hring
    · cases hring
    · rename_i hno
      unfold queueIndex
      exact if_neg (fun h => hno (h.imp id Or.inl))

/-- The shipped table, with its last symbol on a core of its own. -/
def splitTable : SymbolTable where
  rows := [⟨1, "BTC", -2, 25, 3000000, 12000000, 0⟩, ⟨2, "ETH", -2, 10, 150000, 600000, 0⟩,
    ⟨3, "SOL", -3, 5, 5000, 500000, 1⟩]
  primaryKey := by decide

/-- Orders on the first symbol are served, those on the last are not. -/
theorem split_routed : Routed splitTable 1 ∧ ¬ Routed splitTable 3 := by
  have hfirst : (⟨1, "BTC", -2, 25, 3000000, 12000000, 0⟩ : SymbolRow) ∈ splitTable.rows := by decide
  have hlast : (⟨3, "SOL", -3, 5, 5000, 500000, 1⟩ : SymbolRow) ∈ splitTable.rows := by decide
  constructor
  · exact (routed_iff hfirst).mpr rfl
  · intro h
    exact absurd ((routed_iff hlast).mp h) (by decide)

/-- The partition and the routing disagree: the gateway puts an order on the last
symbol in ring 0, whose engine has no book for it. -/
theorem routing_disagrees : ¬ ∀ (t : SymbolTable) (n : Int),
    (∀ row ∈ t.rows, 0 ≤ row.coreOffset ∧ row.coreOffset < n) →
      ∀ row ∈ t.rows, Routed t row.symbolId := by
  intro h
  obtain ⟨core, hring, hsym, -⟩ := h splitTable 2 (by decide) ⟨3, "SOL", -3, 5, 5000, 500000, 1⟩
    (by decide)
  have hcore : some 0 = some core := by
    rw [← hring]
    decide
  obtain rfl := Option.some.inj hcore
  exact absurd hsym (by decide)

end Exchange.Gateway
