import Exchange.Database.Csv
import Exchange.Database.Resume

/-!
# Balances that are saved, and an offset that is not

`ClientDatabase::start_polling` over a `CSVClientDatabase`, while the journal is being written and
the process is stopped and started again. The positions are in the file; the offset is a member of
the object, and a new object starts with 0. So a process that is started again books everything it
finds in the journal on top of what the processes before it have booked.

The balances come out right where these have booked nothing on balance, and only there
(`restarts_keep_balances_iff`).
-/

namespace Exchange

open MmapLog Lib

/-- The journal with its writer, `data/clients.csv`, the process, and its store. -/
structure CsvProcess where
  journal : Sys
  file : List Char
  process : PollProcess
  db : InMemoryClientDatabase
  /-- The responses the process has applied. -/
  applied : List OrderResponse
  /-- Those of the processes before it. -/
  stopped : List (List OrderResponse)

namespace CsvProcess

/-- An empty directory, and a file. -/
def init (file : List Char) : CsvProcess := ⟨.init, file, .down, .empty, [], []⟩

/-- What can happen next. -/
inductive Step (l : ResponseLayout) (maxFileSize : Nat) (st : CsvProcess) : CsvProcess → Prop
  | journal {sys : Sys} (hstep : Sys.Step maxFileSize st.journal sys) :
      Step l maxFileSize st { st with journal := sys }
  | start (hdown : st.process = .down) :
      Step l maxFileSize st { st with
        process := .polling
          (Polling.startReader st.journal.dir (CSVClientDatabase.load st.file).lastLogOffset)
        db := CSVClientDatabase.load st.file
        applied := [] }
  | sleep {r r' : MmapReader} {fuel : Nat} (hpolling : st.process = .polling r)
      (hrun : r.readNext st.journal.dir fuel = some (none, r')) :
      Step l maxFileSize st { st with process := .polling r' }
  | read {r r' : MmapReader} {fuel : Nat} {data : Payload} (hpolling : st.process = .polling r)
      (hrun : r.readNext st.journal.dir fuel = some (some data, r')) :
      Step l maxFileSize st { st with process := .applying r' data }
  | short {r : MmapReader} {data : Payload} (hread : st.process = .applying r data)
      (hshort : data.length < l.size) :
      Step l maxFileSize st { st with process := .polling r }
  | update {r : MmapReader} {data : Payload} (hread : st.process = .applying r data)
      (hlong : l.size ≤ data.length) :
      Step l maxFileSize st { st with
        process := .polling r
        db := (CSVClientDatabase.updateOnExecution st.db st.file
          (l.cast st.journal.dir r data.length) r.getOffset).1
        file := (CSVClientDatabase.updateOnExecution st.db st.file
          (l.cast st.journal.dir r data.length) r.getOffset).2
        applied := st.applied ++ [l.cast st.journal.dir r data.length] }
  /-- The destructor. -/
  | stop {r : MmapReader} (hpolling : st.process = .polling r) :
      Step l maxFileSize st { st with
        process := .down
        file := CSVClientDatabase.saveToCSV st.db
        applied := []
        stopped := st.stopped ++ [st.applied] }
  /-- The process goes down without it. -/
  | crash (hup : st.process ≠ .down) :
      Step l maxFileSize st { st with
        process := .down
        applied := []
        stopped := st.stopped ++ [st.applied] }

/-- The states these steps lead to. -/
inductive Run (l : ResponseLayout) (maxFileSize : Nat) (file : List Char) : CsvProcess → Prop
  | init : Run l maxFileSize file (.init file)
  | step {st st' : CsvProcess} (h : Run l maxFileSize file st) (hstep : Step l maxFileSize st st') :
      Run l maxFileSize file st'

/-- The process has read everything there is. -/
def AtEnd (st : CsvProcess) : Prop :=
  ∃ r r' fuel, st.process = .polling r ∧ r.readNext st.journal.dir fuel = some (none, r')

/-- What responses book together. -/
def booked (rs : List OrderResponse) (clientId symbolId : UInt32) : BitVec 64 :=
  (rs.map (·.net clientId symbolId)).sum

/-- The responses of records. -/
def responses (l : ResponseLayout) (ps : List Payload) : List OrderResponse :=
  (ps.filter (l.size ≤ ·.length)).map fun p => l.decode (p.take l.size)

/-! ## The invariant -/

/-- Where the process is, with what it has applied. -/
def ProcessOk (l : ResponseLayout) (maxFileSize : Nat) (d : Dir) (full : List (List Payload))
    (cur : List Payload) (applied : List OrderResponse) : PollProcess → Prop
  | .down => applied = []
  | .polling r => ∃ got, At maxFileSize d full cur r got ∧ applied = responses l got
  | .applying r data => ∃ got, At maxFileSize d full cur r (got ++ [data]) ∧ r.mapped = true ∧
      0 < r.currentOffset ∧ applied = responses l got

/-- The file holds what all processes have booked, and so does the store of the process. -/
structure Inv (l : ResponseLayout) (maxFileSize : Nat) (file : List Char) (st : CsvProcess)
    (full : List (List Payload)) (cur : List Payload) : Prop where
  written : Written maxFileSize st.journal full cur
  process : ProcessOk l maxFileSize st.journal.dir full cur st.applied st.process
  saved : ∀ clientId symbolId, (CSVClientDatabase.load st.file).getPosition clientId symbolId =
    (CSVClientDatabase.load file).getPosition clientId symbolId +
      booked (st.stopped.flatten ++ st.applied) clientId symbolId
  store : st.process ≠ .down → ∀ clientId symbolId, st.db.getPosition clientId symbolId =
    (CSVClientDatabase.load st.file).getPosition clientId symbolId
  filled : CSVClientDatabase.Filled st.db.positions

theorem booked_append (rs rs' : List OrderResponse) (clientId symbolId : UInt32) :
    booked (rs ++ rs') clientId symbolId = booked rs clientId symbolId + booked rs' clientId symbolId := by
  unfold booked
  rw [List.map_append, List.sum_append]

theorem booked_single (r : OrderResponse) (clientId symbolId : UInt32) :
    booked [r] clientId symbolId = r.net clientId symbolId := by
  unfold booked
  rw [List.map_singleton, List.sum_singleton]

/-- A payload too short for a record is none. -/
theorem responses_append (l : ResponseLayout) (ps : List Payload) (p : Payload) :
    responses l (ps ++ [p]) = responses l ps ++ if l.size ≤ p.length then [l.decode (p.take l.size)] else [] := by
  unfold responses
  rw [List.filter_append, List.map_append]
  congr 1
  split
  · rename_i hlong
    rw [List.filter_singleton, decide_eq_true hlong]
    rfl
  · rename_i hshort
    rw [List.filter_singleton, decide_eq_false hshort]
    rfl

/-! ## What a step of a reader does to its place -/

section Readers

variable {l : ResponseLayout} {maxFileSize : Nat} {d : Dir} {full : List (List Payload)}
  {cur : List Payload} {applied : List OrderResponse}

/-- The journal goes on. -/
theorem ProcessOk.grow {process : PollProcess} (h : ProcessOk l maxFileSize d full cur applied process)
    (hpub : Published maxFileSize d full cur) {d' : Dir} {full' : List (List Payload)} {cur' : List Payload}
    (hgrows : Grows maxFileSize d d' full full' cur cur') :
    ProcessOk l maxFileSize d' full' cur' applied process := by
  cases process with
  | down => exact h
  | polling r =>
    obtain ⟨got, hat, hrest⟩ := h
    exact ⟨got, hat.grows hpub hgrows, hrest⟩
  | applying r data =>
    obtain ⟨got, hat, hrest⟩ := h
    exact ⟨got, hat.grows hpub hgrows, hrest⟩

theorem ProcessOk.create (hpub : Published maxFileSize d full cur) :
    ProcessOk l maxFileSize d full cur [] (.polling (.create d)) :=
  ⟨[], At.open hpub _ (Nat.zero_le _), rfl⟩

/-- Where `read_next` finds nothing, everything has been read. -/
theorem ProcessOk.sleep {r r' : MmapReader} (h : ProcessOk l maxFileSize d full cur applied (.polling r))
    (hpub : Published maxFileSize d full cur) (hsmall : full.length < 2 ^ 32) {fuel : Nat}
    (hrun : r.readNext d fuel = some (none, r')) :
    ProcessOk l maxFileSize d full cur applied (.polling r') ∧ applied = responses l (full.flatten ++ cur) := by
  obtain ⟨got, hat, hrest⟩ := h
  obtain ⟨hat', hall⟩ := hat.read hpub hsmall hrun
  exact ⟨⟨got, hat', hrest⟩, hall ▸ hrest⟩

theorem ProcessOk.read {r r' : MmapReader} (h : ProcessOk l maxFileSize d full cur applied (.polling r))
    (hpub : Published maxFileSize d full cur) (hsmall : full.length < 2 ^ 32) {fuel : Nat} {data : Payload}
    (hrun : r.readNext d fuel = some (some data, r')) :
    ProcessOk l maxFileSize d full cur applied (.applying r' data) := by
  obtain ⟨got, hat, hrest⟩ := h
  obtain ⟨hmapped, hoffset⟩ := readNext_behind hrun
  exact ⟨got, hat.read hpub hsmall hrun, hmapped, hoffset, hrest⟩

theorem ProcessOk.short {r : MmapReader} {data : Payload}
    (h : ProcessOk l maxFileSize d full cur applied (.applying r data)) (hshort : data.length < l.size) :
    ProcessOk l maxFileSize d full cur applied (.polling r) := by
  obtain ⟨got, hat, -, -, hrest⟩ := h
  refine ⟨got ++ [data], hat, ?_⟩
  rw [responses_append, if_neg (by omega), List.append_nil]
  exact hrest

theorem ProcessOk.update {r : MmapReader} {data : Payload}
    (h : ProcessOk l maxFileSize d full cur applied (.applying r data)) (hlong : l.size ≤ data.length) :
    ProcessOk l maxFileSize d full cur (applied ++ [l.cast d r data.length]) (.polling r) := by
  obtain ⟨got, hat, hmapped, hoffset, hrest⟩ := h
  refine ⟨got ++ [data], hat, ?_⟩
  rw [responses_append, if_pos hlong, ← cast_eq hat hmapped hoffset hlong, ← hrest]

end Readers

section Steps

variable {l : ResponseLayout} {maxFileSize : Nat} {file : List Char} {st st' : CsvProcess}
  {full : List (List Payload)} {cur : List Payload}

/-- Stopping moves what was applied to what the processes before have applied. -/
theorem flatten_stopped (stopped : List (List OrderResponse)) (applied : List OrderResponse) :
    (stopped ++ [applied]).flatten ++ [] = stopped.flatten ++ applied := by
  rw [List.append_nil, List.flatten_append, List.flatten_singleton]

/-- At the start no record is written. -/
theorem inv_init (l : ResponseLayout) (maxFileSize : Nat) (file : List Char) :
    Inv l maxFileSize file (init file) [] [] :=
  ⟨(MmapLog.inv_init maxFileSize).written, rfl, fun _ _ => (add_zero _).symm, fun h => absurd rfl h,
    fun _ h => absurd h (AList.notMem_empty _)⟩

/-- A trade is saved, and any other record leaves the positions as they are in the file. -/
theorem updateOnExecution_saved {db : InMemoryClientDatabase} (hfilled : CSVClientDatabase.Filled db.positions)
    {file : List Char}
    (hsame : ∀ c s, db.getPosition c s = (CSVClientDatabase.load file).getPosition c s)
    (resp : OrderResponse) (logOffset : Nat) :
    CSVClientDatabase.Filled (CSVClientDatabase.updateOnExecution db file resp logOffset).1.positions ∧
      (∀ c s, (CSVClientDatabase.updateOnExecution db file resp logOffset).1.getPosition c s =
        (CSVClientDatabase.load (CSVClientDatabase.updateOnExecution db file resp logOffset).2).getPosition c s) ∧
      ∀ c s, (CSVClientDatabase.updateOnExecution db file resp logOffset).1.getPosition c s =
        db.getPosition c s + resp.net c s := by
  have hnet := fun c s => db.getPosition_net resp logOffset c s
  have hpositions := db.positions_updateOnExecution resp logOffset
  unfold CSVClientDatabase.updateOnExecution
  dsimp only
  by_cases ht : resp.isTrade = true
  · have hfilled' : CSVClientDatabase.Filled (db.updateOnExecution resp logOffset).positions := by
      rw [hpositions, if_pos ht]
      exact hfilled.insert ((AList.mem_insert _).mpr (Or.inl rfl))
    refine ⟨hfilled', fun c s => ?_, hnet⟩
    have htrade : checkExec resp.execType execTrade = true := ht
    rw [if_pos htrade, CSVClientDatabase.getPosition_load_save hfilled']
  · have hkept : (db.updateOnExecution resp logOffset).positions = db.positions := by
      rw [hpositions, if_neg ht]
    refine ⟨hkept ▸ hfilled, fun c s => ?_, hnet⟩
    have htrade : ¬ checkExec resp.execType execTrade = true := ht
    rw [if_neg htrade, ← hsame]
    unfold InMemoryClientDatabase.getPosition InMemoryClientDatabase.clientPositions
    rw [hkept]

/-- One step of writer, poller or restart. -/
theorem Inv.step (h : Inv l maxFileSize file st full cur) (hstep : Step l maxFileSize st st')
    (hsmall : st'.journal.rolled < 2 ^ 32) : ∃ full' cur', Inv l maxFileSize file st' full' cur' := by
  have hpub := h.written.published
  have hprocess := h.process
  cases hstep with
  | journal hstep =>
    obtain ⟨full', cur', hwritten, hgrows⟩ := h.written.step hstep hsmall
    exact ⟨full', cur', hwritten, hprocess.grow hpub hgrows, h.saved, h.store, h.filled⟩
  | start hdown =>
    rw [hdown] at hprocess
    have hsaved := h.saved
    rw [show st.applied = [] from hprocess] at hsaved
    exact ⟨full, cur, h.written, .create hpub, hsaved, fun _ _ _ => rfl,
      CSVClientDatabase.filled_load st.file⟩
  | sleep hpolling hrun =>
    rw [hpolling] at hprocess
    obtain ⟨hprocess', -⟩ := hprocess.sleep hpub (h.written.rolled ▸ hsmall) hrun
    exact ⟨full, cur, h.written, hprocess', h.saved, fun _ => h.store (by simp [hpolling]), h.filled⟩
  | read hpolling hrun =>
    rw [hpolling] at hprocess
    exact ⟨full, cur, h.written, hprocess.read hpub (h.written.rolled ▸ hsmall) hrun, h.saved,
      fun _ => h.store (by simp [hpolling]), h.filled⟩
  | short hread hshort =>
    rw [hread] at hprocess
    exact ⟨full, cur, h.written, hprocess.short hshort, h.saved, fun _ => h.store (by simp [hread]), h.filled⟩
  | @update r data hread hlong =>
    rw [hread] at hprocess
    have hstore := h.store (by simp [hread])
    obtain ⟨hfilled, hsame, hnet⟩ := updateOnExecution_saved h.filled hstore
      (l.cast st.journal.dir r data.length) r.getOffset
    refine ⟨full, cur, h.written, hprocess.update hlong, fun c s => ?_, fun _ => hsame, hfilled⟩
    dsimp only
    rw [← hsame, hnet, hstore, h.saved, ← List.append_assoc, booked_append _ [_], booked_single, add_assoc]
  | stop hpolling =>
    have hstore := h.store (by simp [hpolling])
    refine ⟨full, cur, h.written, rfl, fun c s => ?_, fun hnot => absurd rfl hnot, h.filled⟩
    dsimp only
    rw [flatten_stopped, CSVClientDatabase.getPosition_load_save h.filled, hstore, h.saved]
  | crash hup =>
    refine ⟨full, cur, h.written, rfl, fun c s => ?_, fun hnot => absurd rfl hnot, h.filled⟩
    dsimp only
    rw [flatten_stopped]
    exact h.saved c s

/-- Files are only rolled forward. -/
theorem Step.rolled_le (h : Step l maxFileSize st st') : st.journal.rolled ≤ st'.journal.rolled := by
  cases h
  case journal hstep => exact hstep.rolled_le
  all_goals exact le_rfl

theorem Run.inv (h : Run l maxFileSize file st) (hsmall : st.journal.rolled < 2 ^ 32) :
    ∃ full cur, Inv l maxFileSize file st full cur := by
  induction h with
  | init => exact ⟨[], [], inv_init l maxFileSize file⟩
  | step _ hstep ih =>
    obtain ⟨full, cur, hinv⟩ := ih (Nat.lt_of_le_of_lt hstep.rolled_le hsmall)
    exact hinv.step hstep hsmall

/-- A process that has read everything has booked the whole journal, on top of what was there. -/
theorem Inv.atEnd (h : Inv l maxFileSize file st full cur) (hsmall : st.journal.rolled < 2 ^ 32)
    (hend : st.AtEnd) (clientId symbolId : UInt32) : st.db.getPosition clientId symbolId =
      (CSVClientDatabase.load file).getPosition clientId symbolId +
        booked st.stopped.flatten clientId symbolId +
        booked (responses l st.journal.appended) clientId symbolId := by
  obtain ⟨r, r', fuel, hpolling, hrun⟩ := hend
  have hprocess := h.process
  rw [hpolling] at hprocess
  have hall := (hprocess.sleep h.written.published (h.written.rolled ▸ hsmall) hrun).2
  rw [h.store (by simp [hpolling]), h.saved, booked_append, add_assoc, hall, h.written.appended]

end Steps

end CsvProcess

/-- Two processes on the same journal and the same file to begin with, one of them restarted and the
other not, have the same balances in the end if and only if what the processes that were stopped
had applied books nothing on balance, under any symbol for any client. -/
theorem restarts_keep_balances_iff {l : ResponseLayout} {maxFileSize : Nat} {file : List Char}
    {st once : CsvProcess} (h : st.Run l maxFileSize file) (honce : once.Run l maxFileSize file)
    (hjournal : once.journal = st.journal) (hsmall : st.journal.rolled < 2 ^ 32) (hend : st.AtEnd)
    (hend' : once.AtEnd) (hnever : once.stopped = []) :
    (∀ clientId symbolId, st.db.getPosition clientId symbolId = once.db.getPosition clientId symbolId) ↔
      ∀ clientId symbolId, CsvProcess.booked st.stopped.flatten clientId symbolId = 0 := by
  obtain ⟨full, cur, hinv⟩ := h.inv hsmall
  obtain ⟨full', cur', hinv'⟩ := honce.inv (hjournal ▸ hsmall)
  have hst := hinv.atEnd hsmall hend
  have hother := hinv'.atEnd (hjournal ▸ hsmall) hend'
  rw [hnever, hjournal] at hother
  have hnothing : ∀ c s, CsvProcess.booked ([] : List (List OrderResponse)).flatten c s = 0 := fun _ _ => rfl
  constructor
  · intro heq c s
    have hsum := heq c s
    rw [hst, hother, hnothing, add_zero, add_left_inj] at hsum
    exact add_eq_left.mp hsum
  · intro hzero c s
    rw [hst, hother, hzero, hnothing]

/-! ## A record that trades -/

/-- `OrderResponseT` as `sampleLayout` has it, but for the type, which is `Fill`. -/
def tradeLayout : ResponseLayout where
  size := 64
  decode b := { sampleLayout.decode b with execType := .fill }

namespace CsvProcess

section EqualRecords

variable {maxFileSize n : Nat} {sys : Sys} {file : List Char}

/-- What the writer does without the process. -/
theorem Run.of_journal {now : List Char} {db : InMemoryClientDatabase} {stopped : List (List OrderResponse)}
    (h : Run tradeLayout maxFileSize file ⟨.init, now, .down, db, [], stopped⟩)
    (hsys : Sys.Run maxFileSize sys) :
    Run tradeLayout maxFileSize file ⟨sys, now, .down, db, [], stopped⟩ := by
  induction hsys with
  | init => exact h
  | step _ hstep ih => exact ih.step (.journal hstep)

/-- The process is started and reads the only record there is. -/
theorem Run.once (hsys : Sys.Run maxFileSize sys) (hrolled : sys.rolled = 0)
    (happended : sys.appended = List.replicate 1 (sampleRecord 1)) {now : List Char}
    {db : InMemoryClientDatabase} {stopped : List (List OrderResponse)}
    (h : Run tradeLayout maxFileSize file ⟨sys, now, .down, db, [], stopped⟩) :
    ∃ st, Run tradeLayout maxFileSize file st ∧ st.journal = sys ∧ st.AtEnd ∧ st.stopped = stopped ∧
      (∃ r, st.process = .polling r) ∧
        st.applied = [tradeLayout.decode ((sampleRecord 1).take tradeLayout.size)] := by
  have hpub := (written_records hsys hrolled happended).published
  have hat : At maxFileSize sys.dir [] (List.replicate 1 (sampleRecord 1)) (.create sys.dir)
      (List.replicate 0 (sampleRecord 1)) := At.open hpub _ (Nat.zero_le _)
  obtain ⟨r, hres, hlast, hmapped, hoffset, -⟩ := next_record hsys hrolled happended Nat.one_pos hat
  have hlong : tradeLayout.size ≤ (sampleRecord 1).length := by decide
  have hcast : tradeLayout.cast sys.dir r (sampleRecord 1).length =
      tradeLayout.decode ((sampleRecord 1).take tradeLayout.size) := cast_eq hlast hmapped hoffset hlong
  have hrun := ((h.step (.start rfl)).step (.read rfl hres)).step (.update rfl hlong)
  dsimp only at hrun
  rw [hcast] at hrun
  obtain ⟨r', hnone⟩ := no_more_records hsys hrolled happended hlast
  exact ⟨_, hrun, rfl, ⟨r, r', 3, rfl, hnone⟩, rfl, ⟨r, rfl⟩, rfl⟩

/-- What client 1 has of symbol 1 in the end. -/
theorem position_records (hrolled : sys.rolled = 0)
    (happended : sys.appended = List.replicate 1 (sampleRecord 1)) {st : CsvProcess}
    (h : st.Run tradeLayout maxFileSize file) (hjournal : st.journal = sys) (hend : st.AtEnd) :
    st.db.getPosition 1 1 = (CSVClientDatabase.load file).getPosition 1 1 +
      booked st.stopped.flatten 1 1 +
      booked (responses tradeLayout (List.replicate 1 (sampleRecord 1))) 1 1 := by
  have hsmall : st.journal.rolled < 2 ^ 32 := by
    rw [hjournal, hrolled]
    decide
  obtain ⟨full, cur, hinv⟩ := h.inv hsmall
  rw [← happended, ← hjournal]
  exact hinv.atEnd hsmall hend 1 1

end EqualRecords

end CsvProcess

/-- A process that is restarted before there is a record. -/
theorem sample_restarted : ∃ st once : CsvProcess, st.Run tradeLayout 4096 [] ∧ once.Run tradeLayout 4096 [] ∧
    st.stopped = [[]] ∧ once.stopped = [] ∧ once.db.getPosition 1 1 = 5 ∧
    ∀ clientId symbolId, st.db.getPosition clientId symbolId = once.db.getPosition clientId symbolId := by
  obtain ⟨sys, hsys, -, hrolled, happended⟩ :=
    run_records (show 4096 < 2 ^ 63 by decide) 1 (by decide)
  have hinit : CsvProcess.Run tradeLayout 4096 [] (.init []) := .init
  obtain ⟨once, honce, hj, hend, hstopped, -, -⟩ :=
    (hinit.of_journal hsys).once hsys hrolled happended
  have hfirst := (hinit.step (.start rfl)).step (.stop rfl)
  obtain ⟨st, hst, hj', hend', hstopped', -, -⟩ := (hfirst.of_journal hsys).once hsys hrolled happended
  have hkept := (restarts_keep_balances_iff hst honce (hj.trans hj'.symm)
    (by rw [hj', hrolled]; decide) hend' hend hstopped).mpr (by
      intro clientId symbolId
      rw [hstopped']
      rfl)
  refine ⟨st, once, hst, honce, hstopped', hstopped, ?_, hkept⟩
  rw [CsvProcess.position_records hrolled happended honce hj hend, hstopped]
  decide

/-- One buy of 5, and a process that is restarted behind it: it has 10 in the end. -/
theorem restart_books_twice : ∃ st once : CsvProcess, st.Run tradeLayout 4096 [] ∧
    once.Run tradeLayout 4096 [] ∧ once.journal = st.journal ∧ st.journal.rolled = 0 ∧ st.AtEnd ∧
    once.AtEnd ∧ once.stopped = [] ∧ st.db.getPosition 1 1 = 10 ∧ once.db.getPosition 1 1 = 5 := by
  obtain ⟨sys, hsys, -, hrolled, happended⟩ :=
    run_records (show 4096 < 2 ^ 63 by decide) 1 (by decide)
  have hinit : CsvProcess.Run tradeLayout 4096 [] (.init []) := .init
  obtain ⟨once, honce, hj, hend, hstopped, ⟨r, hr⟩, happlied⟩ :=
    (hinit.of_journal hsys).once hsys hrolled happended
  have hdown := honce.step (.stop hr)
  rw [hj, hstopped, happlied] at hdown
  obtain ⟨st, hst, hj', hend', hstopped', -, -⟩ := hdown.once hsys hrolled happended
  refine ⟨st, once, hst, honce, hj.trans hj'.symm, ?_, hend', hend, hstopped, ?_, ?_⟩
  · rw [hj', hrolled]
  · rw [CsvProcess.position_records hrolled happended hst hj' hend', hstopped']
    decide
  · rw [CsvProcess.position_records hrolled happended honce hj hend, hstopped]
    decide

end Exchange
