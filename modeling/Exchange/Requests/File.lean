import Exchange.Database.Csv

/-!
# Files of requests

The lines `CSVDataGen::writeRow` and `execution-to-request` write, and the two programs that read them:
`CSVDataReader::loadFromCSV` of `src/csv_util.cpp`, and `csv-inserter`, which hands its requests to the
rings of the engines.

The readers differ. `loadFromCSV` skips comments, takes ten cells, and reads 0 where a number throws;
`csv-inserter` asks for eleven cells and skips a line that throws, and a request whose symbol has no ring. It
does not read `visible_qty`. `readers_agree` says on which lines that makes no difference. On what the two
programs write it makes none (`requests_read_back`): each line comes back as the request it was written for.
-/

namespace Exchange

open Lib

/-! ## Writing -/

/-- The first line. -/
def requestHeader : List (List Char) :=
  ["req_id", "order_id", "client_id", "action", "side", "type", "price", "quantity", "visible_qty",
    "timestamp", "symbol_id"].map String.toList

/-- One line. -/
def requestRow (reqId orderId clientId : Nat) (action side : List Char) (price : Int)
    (quantity timestamp symbolId : Nat) : List (List Char) :=
  [Text.ofNat reqId, Text.ofNat orderId, Text.ofNat clientId, action, side, "Limit".toList,
    Text.ofInt price, Text.ofNat quantity, Text.ofNat 0, Text.ofNat timestamp, Text.ofNat symbolId]

/-- The actions, as they are written. -/
def actionText : OrderAction → List Char
  | .modify => "Modify".toList
  | .cancel => "Cancel".toList
  | _ => "New".toList

/-- `side == Side_Buy ? "Buy" : "Sell"`. -/
def sideText (side : Side) : List Char := if side = .buy then "Buy".toList else "Sell".toList

/-- The line of a request. -/
def OrderRequest.row (req : OrderRequest) : List (List Char) :=
  requestRow req.execId req.orderId.toNat req.clientId.toNat (actionText req.action) (sideText req.side) req.p
    req.q req.timestamp req.symbolId.toNat

/-- A file of requests. -/
def writeRequests (reqs : List OrderRequest) : List Char :=
  writeCSV (requestHeader :: reqs.map OrderRequest.row)

/-! ## Reading -/

/-- `safe_stoull`, and `safe_stoul` before it is cut to 32 bits. -/
def safeStoul (cell : List Char) : Nat := (Text.stoul cell).getD 0

/-- `safe_stoll`. -/
def safeStoll (cell : List Char) : Int := (Text.stoll cell).getD 0

namespace CSVDataReader

/-- One line of `loadFromCSV`; none where it is skipped. -/
def parseRow (fields : List (List Char)) : Option OrderRequest :=
  let field (i : Nat) := fields.getD i []
  if fields.length < 10 then none
  else
    some
      { action :=
          if field 3 = "Cancel".toList then .cancel else if field 3 = "Modify".toList then .modify else .new
        execId := safeStoul (field 0)
        orderId := UInt32.ofNat (safeStoul (field 1))
        clientId := UInt32.ofNat (safeStoul (field 2))
        symbolId := if fields.length > 10 then UInt32.ofNat (safeStoul (field 10)) else 1
        side := if field 4 = "Buy".toList ∨ field 4 = "buy".toList then .buy else .sell
        type := if field 5 = "Market".toList then .market else .limit
        p := safeStoll (field 6)
        q := safeStoul (field 7)
        visibleQty := safeStoul (field 8)
        timestamp := safeStoul (field 9) }

/-- `loadFromCSV`, with the requests it collects. -/
def loadFromCSV (text : List Char) : List OrderRequest :=
  (((Text.pieces '\n' text).drop 1).filter fun line => line ≠ [] ∧ line.head? ≠ some '#').filterMap fun line =>
    parseRow (Text.pieces ',' line)

end CSVDataReader

namespace CSVInserter

/-- One line of `csv-inserter`; none where it has too few cells, or a number throws. The line that reads
`visible_qty` is commented out. -/
def parseRow (fields : List (List Char)) : Option OrderRequest :=
  let field (i : Nat) := fields.getD i []
  if fields.length < 11 then none
  else do
    let reqId ← Text.stoul (field 0)
    let orderId ← Text.stoul (field 1)
    let clientId ← Text.stoul (field 2)
    let price ← Text.stoll (field 6)
    let qty ← Text.stoul (field 7)
    let timestamp ← Text.stoul (field 9)
    let symbolId ← Text.stoul (field 10)
    some
      { action :=
          if field 3 = "Modify".toList then .modify else if field 3 = "Cancel".toList then .cancel else .new
        execId := reqId
        orderId := UInt32.ofNat orderId
        clientId := UInt32.ofNat clientId
        symbolId := UInt32.ofNat symbolId
        side := if field 4 = "Sell".toList then .sell else .buy
        type := if field 5 = "Market".toList then .market else .limit
        p := price
        q := qty
        visibleQty := 0
        timestamp := timestamp }

/-- The requests `csv-inserter` puts in the rings, of the symbols that have one. -/
def insert (hasRing : UInt32 → Bool) (text : List Char) : List OrderRequest :=
  ((((Text.pieces '\n' text).drop 1).filter (· ≠ [])).filterMap fun line => parseRow (Text.pieces ',' line)).filter
    fun req => hasRing req.symbolId

end CSVInserter

/-! ## What is written reads back -/

/-- A request as the two programs write them: a limit order with a side and an action, nothing of it to be
hidden, in words of the machine. -/
structure OrderRequest.Written (req : OrderRequest) : Prop where
  action : req.action = .new ∨ req.action = .modify ∨ req.action = .cancel
  side : req.side = .buy ∨ req.side = .sell
  type : req.type = .limit
  visibleQty : req.visibleQty = 0
  execId : req.execId < 2 ^ 64
  p : -2 ^ 63 ≤ req.p ∧ req.p < 2 ^ 63
  q : req.q < 2 ^ 64
  timestamp : req.timestamp < 2 ^ 64

open CSVClientDatabase (Cell cell_ofNat cell_ofInt)

theorem cell_actionText (action : OrderAction) : Cell (actionText action) := by
  unfold actionText
  split
  · exact ⟨by decide, by decide, by decide⟩
  · exact ⟨by decide, by decide, by decide⟩
  · exact ⟨by decide, by decide, by decide⟩

theorem cell_sideText (side : Side) : Cell (sideText side) := by
  unfold sideText
  split
  · exact ⟨by decide, by decide, by decide⟩
  · exact ⟨by decide, by decide, by decide⟩

theorem cells_row (req : OrderRequest) : ∀ cell ∈ req.row, Cell cell := by
  intro cell hcell
  unfold OrderRequest.row requestRow at hcell
  simp only [List.mem_cons, List.not_mem_nil, or_false] at hcell
  rcases hcell with rfl | rfl | rfl | rfl | rfl | rfl | rfl | rfl | rfl | rfl | rfl
  · exact cell_ofNat _
  · exact cell_ofNat _
  · exact cell_ofNat _
  · exact cell_actionText _
  · exact cell_sideText _
  · exact ⟨by decide, by decide, by decide⟩
  · exact cell_ofInt _
  · exact cell_ofNat _
  · exact cell_ofNat _
  · exact cell_ofNat _
  · exact cell_ofNat _

theorem cells_header : ∀ cell ∈ requestHeader, Cell cell := by
  unfold Cell
  decide

/-- The lines of a file. -/
theorem lines_writeCSV {data : List (List (List Char))} (h : ∀ row ∈ data, row ≠ [] ∧ ∀ cell ∈ row, Cell cell) :
    Text.pieces '\n' (writeCSV data) = data.map ([','].intercalate ·) := by
  induction data with
  | nil => rfl
  | cons row data ih =>
    obtain ⟨⟨hne, hcells⟩, hdata⟩ := List.forall_mem_cons.mp h
    have hwrite : writeCSV (row :: data) = [','].intercalate row ++ '\n' :: writeCSV data := by
      unfold writeCSV
      rw [List.flatMap_cons, List.append_assoc, List.singleton_append]
    rw [hwrite, Text.pieces_cons (CSVClientDatabase.line_of_cells hne hcells).2, ih hdata, List.map_cons]

/-- The lines behind the first one. -/
theorem lines_writeRequests (reqs : List OrderRequest) :
    (Text.pieces '\n' (writeRequests reqs)).drop 1 = reqs.map fun req => [','].intercalate req.row := by
  unfold writeRequests
  rw [lines_writeCSV, List.map_cons, List.drop_one, List.tail_cons, List.map_map]
  · rfl
  intro row hrow
  rcases List.mem_cons.mp hrow with rfl | hrow
  · exact ⟨List.cons_ne_nil _ _, cells_header⟩
  · obtain ⟨req, -, rfl⟩ := List.mem_map.mp hrow
    exact ⟨List.cons_ne_nil _ _, cells_row req⟩

theorem pieces_row (req : OrderRequest) : Text.pieces ',' ([','].intercalate req.row) = req.row :=
  Text.pieces_intercalate fun cell hcell => ⟨(cells_row req cell hcell).1, (cells_row req cell hcell).2.1⟩

/-- A line is not empty and no comment: it begins with a digit. -/
theorem head_row (req : OrderRequest) : ∃ c cs, c.isDigit = true ∧ [','].intercalate req.row = c :: cs := by
  obtain ⟨c, cs, hc⟩ := List.exists_cons_of_ne_nil (Text.ofNat_ne_nil req.execId)
  have hline : ∃ rest, [','].intercalate req.row = Text.ofNat req.execId ++ rest := by
    unfold OrderRequest.row requestRow
    rw [List.intercalate_cons_cons, List.append_assoc]
    exact ⟨_, rfl⟩
  obtain ⟨rest, hrest⟩ := hline
  refine ⟨c, cs ++ rest, Text.isDigit_ofNat (hc ▸ List.mem_cons_self), ?_⟩
  rw [hrest, hc, List.cons_append]

section Row

variable {req : OrderRequest} (h : req.Written)

include h

theorem OrderRequest.Written.numbers : Text.stoul (Text.ofNat req.execId) = some req.execId ∧
    Text.stoul (Text.ofNat req.orderId.toNat) = some req.orderId.toNat ∧
    Text.stoul (Text.ofNat req.clientId.toNat) = some req.clientId.toNat ∧
    Text.stoll (Text.ofInt req.p) = some req.p ∧ Text.stoul (Text.ofNat req.q) = some req.q ∧
    Text.stoul (Text.ofNat req.timestamp) = some req.timestamp ∧
    Text.stoul (Text.ofNat req.symbolId.toNat) = some req.symbolId.toNat := by
  have hword : ∀ n : UInt32, Text.stoul (Text.ofNat n.toNat) = some n.toNat := fun n =>
    Text.stoul_ofNat (Nat.lt_trans n.toNat_lt (by decide))
  exact ⟨Text.stoul_ofNat h.execId, hword _, hword _, Text.stoll_ofInt h.p, Text.stoul_ofNat h.q,
    Text.stoul_ofNat h.timestamp, hword _⟩

/-- `loadFromCSV` reads a line as it was written. -/
theorem CSVDataReader.parseRow_row : CSVDataReader.parseRow req.row = some req := by
  obtain ⟨h0, h1, h2, h6, h7, h9, h10⟩ := h.numbers
  have htype := h.type
  have hvisible := h.visibleQty
  have hparse : CSVDataReader.parseRow req.row = some
      { action := if actionText req.action = "Cancel".toList then .cancel
          else if actionText req.action = "Modify".toList then .modify else .new
        execId := safeStoul (Text.ofNat req.execId)
        orderId := UInt32.ofNat (safeStoul (Text.ofNat req.orderId.toNat))
        clientId := UInt32.ofNat (safeStoul (Text.ofNat req.clientId.toNat))
        symbolId := UInt32.ofNat (safeStoul (Text.ofNat req.symbolId.toNat))
        side := if sideText req.side = "Buy".toList ∨ sideText req.side = "buy".toList then .buy else .sell
        type := .limit
        p := safeStoll (Text.ofInt req.p)
        q := safeStoul (Text.ofNat req.q)
        visibleQty := 0
        timestamp := safeStoul (Text.ofNat req.timestamp) } := rfl
  rw [hparse]
  unfold safeStoul safeStoll
  rw [h0, h1, h2, h6, h7, h9, h10]
  dsimp only [Option.getD_some]
  rw [UInt32.ofNat_toNat, UInt32.ofNat_toNat, UInt32.ofNat_toNat, ← htype, ← hvisible]
  obtain ⟨action, _, _, _, _, side, _, _, _, _, _⟩ := req
  rcases h.action with ha | ha | ha <;> rcases h.side with hs | hs <;> (cases ha; cases hs; rfl)

/-- So does `csv-inserter`. -/
theorem CSVInserter.parseRow_row : CSVInserter.parseRow req.row = some req := by
  obtain ⟨h0, h1, h2, h6, h7, h9, h10⟩ := h.numbers
  have htype := h.type
  have hvisible := h.visibleQty
  have hparse : CSVInserter.parseRow req.row = (do
      let reqId ← Text.stoul (Text.ofNat req.execId)
      let orderId ← Text.stoul (Text.ofNat req.orderId.toNat)
      let clientId ← Text.stoul (Text.ofNat req.clientId.toNat)
      let price ← Text.stoll (Text.ofInt req.p)
      let qty ← Text.stoul (Text.ofNat req.q)
      let timestamp ← Text.stoul (Text.ofNat req.timestamp)
      let symbolId ← Text.stoul (Text.ofNat req.symbolId.toNat)
      some
        { action := if actionText req.action = "Modify".toList then .modify
            else if actionText req.action = "Cancel".toList then .cancel else .new
          execId := reqId
          orderId := UInt32.ofNat orderId
          clientId := UInt32.ofNat clientId
          symbolId := UInt32.ofNat symbolId
          side := if sideText req.side = "Sell".toList then .sell else .buy
          type := .limit
          p := price
          q := qty
          visibleQty := 0
          timestamp := timestamp }) := rfl
  rw [hparse, h0, h1, h2, h6, h7, h9, h10]
  dsimp only [Option.bind_eq_bind, Option.bind_some]
  rw [UInt32.ofNat_toNat, UInt32.ofNat_toNat, UInt32.ofNat_toNat, ← htype, ← hvisible]
  obtain ⟨action, _, _, _, _, side, _, _, _, _, _⟩ := req
  rcases h.action with ha | ha | ha <;> rcases h.side with hs | hs <;> (cases ha; cases hs; rfl)

end Row

/-- `loadFromCSV` reads back what was written. -/
theorem CSVDataReader.loadFromCSV_written {reqs : List OrderRequest} (h : ∀ req ∈ reqs, req.Written) :
    loadFromCSV (writeRequests reqs) = reqs := by
  unfold loadFromCSV
  rw [lines_writeRequests]
  induction reqs with
  | nil => rfl
  | cons req reqs ih =>
    obtain ⟨hreq, hreqs⟩ := List.forall_mem_cons.mp h
    obtain ⟨c, cs, hc, hline⟩ := head_row req
    have hkeep : decide ([','].intercalate req.row ≠ [] ∧ ([','].intercalate req.row).head? ≠ some '#') = true := by
      rw [hline]
      refine decide_eq_true ⟨List.cons_ne_nil _ _, fun hhead => ?_⟩
      rw [Option.some.inj hhead] at hc
      exact absurd hc (by decide)
    rw [List.map_cons, List.filter_cons, if_pos hkeep, List.filterMap_cons, pieces_row, parseRow_row hreq, ih hreqs]

/-- `csv-inserter` hands on what was written, if its symbol has a ring. -/
theorem CSVInserter.insert_written {reqs : List OrderRequest} (h : ∀ req ∈ reqs, req.Written)
    (hasRing : UInt32 → Bool) :
    insert hasRing (writeRequests reqs) = reqs.filter fun req => hasRing req.symbolId := by
  unfold insert
  rw [lines_writeRequests]
  refine congrArg _ ?_
  induction reqs with
  | nil => rfl
  | cons req reqs ih =>
    obtain ⟨hreq, hreqs⟩ := List.forall_mem_cons.mp h
    obtain ⟨c, cs, -, hline⟩ := head_row req
    have hkeep : decide ([','].intercalate req.row ≠ []) = true := by
      rw [hline]
      exact decide_eq_true (List.cons_ne_nil _ _)
    rw [List.map_cons, List.filter_cons, if_pos hkeep, List.filterMap_cons, pieces_row, parseRow_row hreq, ih hreqs]

/-! ## Where the readers differ -/

/-- What `loadFromCSV` makes of a line. -/
def CSVDataReader.readLine (line : List Char) : Option OrderRequest :=
  if line ≠ [] ∧ line.head? ≠ some '#' then parseRow (Text.pieces ',' line) else none

/-- What `csv-inserter` makes of a line. -/
def CSVInserter.readLine (line : List Char) : Option OrderRequest :=
  if line ≠ [] then parseRow (Text.pieces ',' line) else none

/-- Skipping lines before reading them, or while. -/
theorem filterMap_filter_line {p : List Char → Prop} [DecidablePred p] (f : List Char → Option OrderRequest)
    (lines : List (List Char)) :
    (lines.filter p).filterMap f = lines.filterMap fun line => if p line then f line else none := by
  induction lines with
  | nil => rfl
  | cons line lines ih =>
    by_cases hp : p line
    · rw [List.filter_cons, if_pos (decide_eq_true hp), List.filterMap_cons, List.filterMap_cons, if_pos hp, ih]
    · rw [List.filter_cons, if_neg (by simpa using hp), List.filterMap_cons, if_neg hp, ih]

/-- `loadFromCSV` is its lines read one by one, -/
theorem CSVDataReader.loadFromCSV_eq (text : List Char) :
    loadFromCSV text = ((Text.pieces '\n' text).drop 1).filterMap readLine := filterMap_filter_line _ _

/-- and csv-inserter's the same for the symbols it has a ring for. -/
theorem CSVInserter.insert_eq (hasRing : UInt32 → Bool) (text : List Char) :
    insert hasRing text =
      (((Text.pieces '\n' text).drop 1).filterMap readLine).filter fun req => hasRing req.symbolId :=
  congrArg _ (filterMap_filter_line _ _)

/-- The cells both programs read as numbers do not throw. -/
def Numeric (fields : List (List Char)) : Prop :=
  (∀ i ∈ [0, 1, 2, 7, 9, 10], (Text.stoul (fields.getD i [])).isSome = true) ∧
    (Text.stoll (fields.getD 6 [])).isSome = true

/-- A line is skipped by both programs, or has eleven cells, numbers where they belong, a side both know, and
no number but 0 where `csv-inserter` does not look. -/
def Common (line : List Char) : Prop :=
  line = [] ∨ line.head? = some '#' ∨ (Text.pieces ',' line).length < 10 ∨
    (10 < (Text.pieces ',' line).length ∧ Numeric (Text.pieces ',' line) ∧
      (Text.pieces ',' line).getD 4 [] ∈ ["Buy".toList, "buy".toList, "Sell".toList] ∧
      safeStoul ((Text.pieces ',' line).getD 8 []) = 0)

/-- A line with all its cells and numbers where they belong: the second program differs in the side it makes of
a word that is none, and in `visible_qty`. -/
theorem CSVInserter.parseRow_of_numeric {fields : List (List Char)} (h : 10 < fields.length)
    (hnumeric : Numeric fields) :
    CSVInserter.parseRow fields = (CSVDataReader.parseRow fields).map fun req =>
      { req with
        side := if fields.getD 4 [] = "Sell".toList then .sell else .buy
        visibleQty := 0 } := by
  obtain ⟨hstoul, h6⟩ := hnumeric
  simp only [List.forall_mem_cons, List.not_mem_nil, false_implies, implies_true, and_true] at hstoul
  obtain ⟨h0, h1, h2, h7, h9, h10⟩ := hstoul
  obtain ⟨n0, h0⟩ := Option.isSome_iff_exists.mp h0
  obtain ⟨n1, h1⟩ := Option.isSome_iff_exists.mp h1
  obtain ⟨n2, h2⟩ := Option.isSome_iff_exists.mp h2
  obtain ⟨z6, h6⟩ := Option.isSome_iff_exists.mp h6
  obtain ⟨n7, h7⟩ := Option.isSome_iff_exists.mp h7
  obtain ⟨n9, h9⟩ := Option.isSome_iff_exists.mp h9
  obtain ⟨n10, h10⟩ := Option.isSome_iff_exists.mp h10
  have haction : (if fields.getD 3 [] = "Modify".toList then OrderAction.modify
      else if fields.getD 3 [] = "Cancel".toList then .cancel else .new) =
      if fields.getD 3 [] = "Cancel".toList then .cancel
      else if fields.getD 3 [] = "Modify".toList then .modify else .new := by
    by_cases hmodify : fields.getD 3 [] = "Modify".toList
    · rw [hmodify]
      rfl
    · rw [if_neg hmodify, if_neg hmodify]
  unfold CSVInserter.parseRow CSVDataReader.parseRow safeStoul safeStoll
  dsimp only
  rw [if_neg (show ¬ fields.length < 11 by omega), if_neg (show ¬ fields.length < 10 by omega), if_pos h, h0, h1, h2,
    h6, h7, h9, h10, haction]
  rfl

/-- Where a number throws it skips the line. -/
theorem CSVInserter.numeric_of_parseRow {fields : List (List Char)} {req : OrderRequest}
    (h : CSVInserter.parseRow fields = some req) : 10 < fields.length ∧ Numeric fields := by
  unfold CSVInserter.parseRow at h
  dsimp only at h
  split at h
  · exact absurd h (Option.some_ne_none _).symm
  rename_i hlength
  obtain ⟨_, h0, h⟩ := Option.bind_eq_some_iff.mp h
  obtain ⟨_, h1, h⟩ := Option.bind_eq_some_iff.mp h
  obtain ⟨_, h2, h⟩ := Option.bind_eq_some_iff.mp h
  obtain ⟨_, h6, h⟩ := Option.bind_eq_some_iff.mp h
  obtain ⟨_, h7, h⟩ := Option.bind_eq_some_iff.mp h
  obtain ⟨_, h9, h⟩ := Option.bind_eq_some_iff.mp h
  obtain ⟨_, h10, h⟩ := Option.bind_eq_some_iff.mp h
  refine ⟨by omega, ?_, Option.isSome_of_eq_some h6⟩
  simp only [List.forall_mem_cons, List.not_mem_nil, false_implies, implies_true, and_true]
  exact ⟨Option.isSome_of_eq_some h0, Option.isSome_of_eq_some h1, Option.isSome_of_eq_some h2,
    Option.isSome_of_eq_some h7, Option.isSome_of_eq_some h9, Option.isSome_of_eq_some h10⟩

/-- The side a cell stands for, where the programs agree on it. -/
theorem side_agree {cell : List Char} :
    (if cell = "Sell".toList then Side.sell else .buy) =
        (if cell = "Buy".toList ∨ cell = "buy".toList then Side.buy else .sell) ↔
      cell ∈ ["Buy".toList, "buy".toList, "Sell".toList] := by
  simp only [List.mem_cons, List.not_mem_nil, or_false, ← or_assoc]
  by_cases hsell : cell = "Sell".toList
  · rw [hsell]
    decide
  · rw [if_neg hsell]
    by_cases hbuy : cell = "Buy".toList ∨ cell = "buy".toList
    · rw [if_pos hbuy]
      exact iff_of_true rfl (.inl hbuy)
    · rw [if_neg hbuy]
      exact iff_of_false (by decide) (not_or.mpr ⟨hbuy, hsell⟩)

/-- The first piece begins with what the text begins with. -/
theorem piecesFrom_cons (delim c : Char) (acc text : List Char) :
    ∃ word rest, Text.piecesFrom delim (c :: acc) text = (c :: word) :: rest := by
  induction text generalizing acc with
  | nil => exact ⟨acc, [], if_neg (List.cons_ne_nil _ _)⟩
  | cons d text ih =>
    unfold Text.piecesFrom
    by_cases hd : d = delim
    · rw [if_pos hd]
      exact ⟨acc, _, rfl⟩
    · rw [if_neg hd]
      exact ih (acc ++ [d])

/-- A word behind a `#` is no number. -/
theorem stoul_comment (word : List Char) : Text.stoul ('#' :: word) = none := by
  have hdigits : Text.digits (Text.sign (('#' :: word).dropWhile Text.isSpace)).2 = none := rfl
  unfold Text.stoul Text.number
  rw [hdigits]
  rfl

/-- A comment throws. -/
theorem CSVInserter.parseRow_comment {line : List Char} (h : line.head? = some '#') :
    CSVInserter.parseRow (Text.pieces ',' line) = none := by
  cases line with
  | nil => exact absurd h (Option.some_ne_none _).symm
  | cons c line =>
    obtain rfl : c = '#' := Option.some.inj h
    obtain ⟨word, rest, hpieces⟩ : ∃ word rest, Text.pieces ',' ('#' :: line) = ('#' :: word) :: rest :=
      piecesFrom_cons ',' '#' [] line
    by_contra hsome
    obtain ⟨req, hreq⟩ := Option.ne_none_iff_exists'.mp hsome
    have hfirst := (CSVInserter.numeric_of_parseRow hreq).2.1 0 List.mem_cons_self
    rw [hpieces, List.getD_cons_zero, stoul_comment] at hfirst
    exact absurd hfirst Bool.false_ne_true

/-- What the reader gives a request, the row says. -/
theorem CSVDataReader.read_parseRow {fields : List (List Char)} {req : OrderRequest}
    (h : CSVDataReader.parseRow fields = some req) :
    req.side = (if fields.getD 4 [] = "Buy".toList ∨ fields.getD 4 [] = "buy".toList then .buy else .sell) ∧
      req.visibleQty = safeStoul (fields.getD 8 []) := by
  unfold CSVDataReader.parseRow at h
  dsimp only at h
  split at h
  · exact absurd h (Option.some_ne_none _).symm
  · rw [← Option.some.inj h]
    exact ⟨rfl, rfl⟩

/-- The two programs make the same of a line if and only if it is a common one. -/
theorem readLine_eq_iff (line : List Char) :
    CSVDataReader.readLine line = CSVInserter.readLine line ↔ Common line := by
  unfold CSVDataReader.readLine CSVInserter.readLine Common
  by_cases hempty : line = []
  · rw [if_neg (fun h => h.1 hempty), if_neg (fun h => h hempty)]
    exact iff_of_true rfl (.inl hempty)
  by_cases hcomment : line.head? = some '#'
  · rw [if_neg (fun h => h.2 hcomment), if_pos hempty, CSVInserter.parseRow_comment hcomment]
    exact iff_of_true rfl (.inr (.inl hcomment))
  rw [if_pos ⟨hempty, hcomment⟩, if_pos hempty]
  generalize Text.pieces ',' line = fields
  by_cases hfew : fields.length < 10
  · -- Too few cells for either.
    have hreader : CSVDataReader.parseRow fields = none := if_pos hfew
    have hinserter : CSVInserter.parseRow fields = none := if_pos (by omega)
    exact iff_of_true (hreader.trans hinserter.symm) (.inr (.inr (.inl hfew)))
  obtain ⟨req, hreader⟩ : ∃ req, CSVDataReader.parseRow fields = some req := ⟨_, if_neg hfew⟩
  obtain ⟨hreads, hvisible⟩ := CSVDataReader.read_parseRow hreader
  rw [hreader]
  constructor
  · intro hinserter
    obtain ⟨hmany, hnumeric⟩ := CSVInserter.numeric_of_parseRow hinserter.symm
    rw [CSVInserter.parseRow_of_numeric hmany hnumeric, hreader] at hinserter
    have hsame := Option.some.inj hinserter
    refine .inr (.inr (.inr ⟨hmany, hnumeric, side_agree.mp ?_, ?_⟩))
    · rw [← hreads]
      exact (congrArg OrderRequest.side hsame).symm
    · rw [← hvisible]
      exact congrArg OrderRequest.visibleQty hsame
  · rintro (h | h | h | ⟨hmany, hnumeric, hside, hzero⟩)
    · exact absurd h hempty
    · exact absurd h hcomment
    · exact absurd h hfew
    · rw [CSVInserter.parseRow_of_numeric hmany hnumeric, hreader, side_agree.mpr hside, ← hreads, ← hzero,
        ← hvisible]
      rfl

/-- The lines of a file behind the first. -/
def requestLines (text : List Char) : List (List Char) := (Text.pieces '\n' text).drop 1

/-- On a file of common lines `csv-inserter` hands on what `loadFromCSV` loads, of the symbols that have a
ring. -/
theorem insert_eq_loadFromCSV {text : List Char} (h : ∀ line ∈ requestLines text, Common line)
    (hasRing : UInt32 → Bool) :
    CSVInserter.insert hasRing text =
      (CSVDataReader.loadFromCSV text).filter fun req => hasRing req.symbolId := by
  rw [CSVInserter.insert_eq, CSVDataReader.loadFromCSV_eq]
  exact congrArg _ (List.filterMap_congr fun line hline => ((readLine_eq_iff line).mpr (h line hline)).symm)

/-- The lines of a written file are common ones. -/
theorem common_written {reqs : List OrderRequest} (h : ∀ req ∈ reqs, req.Written) :
    ∀ line ∈ requestLines (writeRequests reqs), Common line := by
  intro line hline
  unfold requestLines at hline
  rw [lines_writeRequests] at hline
  obtain ⟨req, hreq, rfl⟩ := List.mem_map.mp hline
  have hrow : CSVInserter.parseRow req.row = some req := CSVInserter.parseRow_row (h req hreq)
  obtain ⟨hmany, hnumeric⟩ := CSVInserter.numeric_of_parseRow hrow
  refine .inr (.inr (.inr ?_))
  rw [pieces_row]
  refine ⟨hmany, hnumeric, ?_, rfl⟩
  have hcell : req.row.getD 4 [] = sideText req.side := rfl
  rw [hcell]
  rcases (h req hreq).side with hs | hs
  · rw [hs]
    decide
  · rw [hs]
    decide

/-! ## Both readers -/

/-- Both programs read a written file back: `loadFromCSV` as it is, `csv-inserter` less the requests whose
symbol has no ring. -/
theorem requests_read_back {reqs : List OrderRequest} (h : ∀ req ∈ reqs, req.Written) (hasRing : UInt32 → Bool) :
    CSVDataReader.loadFromCSV (writeRequests reqs) = reqs ∧
      CSVInserter.insert hasRing (writeRequests reqs) = reqs.filter fun req => hasRing req.symbolId :=
  ⟨CSVDataReader.loadFromCSV_written h, CSVInserter.insert_written h hasRing⟩

/-- Two requests, as the generator writes them. -/
def sampleFile : List OrderRequest :=
  [{ action := .new, execId := 1, orderId := 7, clientId := 3, symbolId := 1, side := .sell, type := .limit,
      p := 50010000, q := 20, timestamp := 1000 },
    { action := .cancel, execId := 2, orderId := 7, clientId := 3, symbolId := 1, side := .buy, type := .limit,
      p := -1, q := 0, timestamp := 1001 }]

theorem sampleFile_written : ∀ req ∈ sampleFile, req.Written := by
  intro req hreq
  rcases List.mem_cons.mp hreq with rfl | hreq
  · exact ⟨.inl rfl, .inr rfl, rfl, rfl, by decide, by decide, by decide, by decide⟩
  · obtain rfl := List.mem_singleton.mp hreq
    exact ⟨.inr (.inr rfl), .inl rfl, rfl, rfl, by decide, by decide, by decide, by decide⟩

theorem sampleFile_read_back :
    CSVDataReader.loadFromCSV (writeRequests sampleFile) = sampleFile ∧
      CSVInserter.insert (fun _ => true) (writeRequests sampleFile) = sampleFile.filter fun _ => true :=
  requests_read_back sampleFile_written fun _ => true

/-- A line is one request to both programs, or skipped by both, if and only if it is a common one; and on a
file of common lines `csv-inserter` hands on what `loadFromCSV` loads, less the symbols without a ring. -/
theorem readers_agree :
    (∀ line, CSVDataReader.readLine line = CSVInserter.readLine line ↔ Common line) ∧
      ∀ text hasRing, (∀ line ∈ requestLines text, Common line) →
        CSVInserter.insert hasRing text =
          (CSVDataReader.loadFromCSV text).filter fun req => hasRing req.symbolId :=
  ⟨readLine_eq_iff, fun _ hasRing h => insert_eq_loadFromCSV h hasRing⟩

theorem sampleFile_agrees :
    CSVInserter.insert (fun _ => true) (writeRequests sampleFile) =
      (CSVDataReader.loadFromCSV (writeRequests sampleFile)).filter fun _ => true :=
  readers_agree.2 _ _ (common_written sampleFile_written)

end Exchange
