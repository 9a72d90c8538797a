import Exchange.Database.Responses
import Exchange.Database.SQLite
import Exchange.Ipc.Places

/-!
# A polling process that crashes

`ClientDatabase::start_polling` over a `SQLiteClientDatabase`, while the journal is being
written. `read_next` and the transaction of `update_on_execution` are two steps, and the
process may go down before, between and behind them; what is not committed is lost with it. A
process that is started again reads on from the offset it finds in the database.

The offset is a part of the transaction, so the database always is what some first part of the
journal makes of it, and the offset is the place behind the last record of that part that was
long enough to be applied (`Resumes`). A journal with places that a global offset cannot say,
at `2^32` or beyond in a file, breaks that (`long_file_loses_record`).
-/

namespace Exchange

open MmapLog Lib

/-- Where the polling process is. -/
inductive PollProcess
  | down
  /-- About to call `read_next`. -/
  | polling (r : MmapReader)
  /-- `read_next` has returned a record, and its transaction is not committed. -/
  | applying (r : MmapReader) (data : Payload)

/-- The journal with its writer, the process, and the database on the disk. -/
structure Recorder where
  journal : Sys
  process : PollProcess
  db : SQLiteClientDatabase

/-- The body of the loop, for a record that `read_next` has returned. -/
def SQLiteClientDatabase.handle (l : ResponseLayout) (d : Dir) (db : SQLiteClientDatabase)
    (r : MmapReader) (data : Payload) : SQLiteClientDatabase :=
  if l.size ≤ data.length then db.updateOnExecution (l.cast d r data.length) r.getOffset else db

namespace Recorder

/-- An empty directory and an empty database. -/
def init : Recorder := ⟨.init, .down, .empty⟩

/-- What can happen next. -/
inductive Step (l : ResponseLayout) (maxFileSize : Nat) (st : Recorder) : Recorder → Prop
  | journal {sys : Sys} (hstep : Sys.Step maxFileSize st.journal sys) :
      Step l maxFileSize st { st with journal := sys }
  | start (hdown : st.process = .down) :
      Step l maxFileSize st { st with
        process := .polling (Polling.startReader st.journal.dir st.db.getLastLogOffset) }
  | idle {r r' : MmapReader} {fuel : Nat} (hpolling : st.process = .polling r)
      (hrun : r.readNext st.journal.dir fuel = some (none, r')) :
      Step l maxFileSize st { st with process := .polling r' }
  | read {r r' : MmapReader} {fuel : Nat} {data : Payload} (hpolling : st.process = .polling r)
      (hrun : r.readNext st.journal.dir fuel = some (some data, r')) :
      Step l maxFileSize st { st with process := .applying r' data }
  | commit {r : MmapReader} {data : Payload} (hread : st.process = .applying r data) :
      Step l maxFileSize st { st with
        process := .polling r
        db := st.db.handle l st.journal.dir r data }
  | crash : Step l maxFileSize st { st with process := .down }

/-- The states these steps lead to. -/
inductive Run (l : ResponseLayout) (maxFileSize : Nat) : Recorder → Prop
  | init : Run l maxFileSize .init
  | step {st st' : Recorder} (h : Run l maxFileSize st) (hstep : Step l maxFileSize st st') :
      Run l maxFileSize st'

/-- The process has read everything there is. -/
def AtEnd (st : Recorder) : Prop :=
  ∃ r r' fuel, st.process = .polling r ∧ r.readNext st.journal.dir fuel = some (none, r')

end Recorder

/-- One pass over a journal: `read_next` until it returns `false`; none where that takes more
than `rounds` calls, or one of them more than `fuel`. -/
def pass (l : ResponseLayout) (d : Dir) (fuel : Nat) :
    Nat → MmapReader → SQLiteClientDatabase → Option SQLiteClientDatabase
  | 0, _, _ => none
  | rounds + 1, r, db => do
    match ← r.readNext d fuel with
    | (none, _) => some db
    | (some data, r) => pass l d fuel rounds r (db.handle l d r data)

/-! ## The database as a part of the journal makes it -/

/-- A record in its place. -/
def SQLiteClientDatabase.enter (l : ResponseLayout) (db : SQLiteClientDatabase) (x : Payload × Nat) :
    SQLiteClientDatabase :=
  if l.size ≤ x.1.length then db.updateOnExecution (l.decode (x.1.take l.size)) x.2 else db

/-- The records `xs`, from an empty database on. -/
def made (l : ResponseLayout) (xs : List (Payload × Nat)) : SQLiteClientDatabase :=
  xs.foldl (SQLiteClientDatabase.enter l) .empty

/-- The first `n` of the records make the database, and its offset leads behind the last of them
that counted, or there is none. -/
structure Resumes (l : ResponseLayout) (xs : List (Payload × Nat)) (db : SQLiteClientDatabase) (n : Nat) :
    Prop where
  within : n ≤ xs.length
  whole : db = made l (xs.take n)
  offset : (db.getLastLogOffset = 0 ∧ db = .empty) ∨
    ∃ k p, k < n ∧ xs[k]? = some (p, db.getLastLogOffset) ∧ db = made l (xs.take (k + 1))

section Records

variable {l : ResponseLayout} {xs : List (Payload × Nat)} {db : SQLiteClientDatabase} {n : Nat}

theorem resumes_empty (l : ResponseLayout) (xs : List (Payload × Nat)) : Resumes l xs .empty 0 :=
  ⟨Nat.zero_le _, rfl, Or.inl ⟨rfl, rfl⟩⟩

/-- More of the journal. -/
theorem Resumes.grow (h : Resumes l xs db n) {ys : List (Payload × Nat)} (hpre : xs <+: ys) :
    Resumes l ys db n := by
  have htake : ∀ k, k ≤ xs.length → ys.take k = xs.take k := by
    intro k hk
    obtain ⟨more, rfl⟩ := hpre
    exact List.take_append_of_le_length hk
  have hwithin := h.within
  refine ⟨Nat.le_trans hwithin hpre.length_le, ?_, ?_⟩
  · rw [htake n hwithin]
    exact h.whole
  · rcases h.offset with hnone | ⟨k, p, hk, hp, hdb⟩
    · exact Or.inl hnone
    · refine Or.inr ⟨k, p, hk, ?_, ?_⟩
      · obtain ⟨more, rfl⟩ := hpre
        rw [List.getElem?_append_left (by omega)]
        exact hp
      · rw [htake (k + 1) (by omega)]
        exact hdb

theorem made_succ {x : Payload × Nat} (hx : xs[n]? = some x) :
    made l (xs.take (n + 1)) = (made l (xs.take n)).enter l x := by
  unfold made
  rw [List.take_add_one, hx, Option.toList_some, List.foldl_append]
  rfl

/-- The next record. -/
theorem Resumes.enter (h : Resumes l xs db n) {x : Payload × Nat} (hx : xs[n]? = some x) :
    Resumes l xs (db.enter l x) (n + 1) := by
  have hlt := (List.getElem?_eq_some_iff.mp hx).1
  have hmade : db.enter l x = made l (xs.take (n + 1)) := by
    rw [made_succ hx, ← h.whole]
  refine ⟨hlt, hmade, ?_⟩
  by_cases hlong : l.size ≤ x.1.length
  · refine Or.inr ⟨n, x.1, Nat.lt_succ_self n, ?_, hmade⟩
    unfold SQLiteClientDatabase.enter
    rw [if_pos hlong]
    exact hx
  · unfold SQLiteClientDatabase.enter
    rw [if_neg hlong]
    rcases h.offset with hnone | ⟨k, p, hk, hp, hdb⟩
    · exact Or.inl hnone
    · exact Or.inr ⟨k, p, Nat.lt_succ_of_lt hk, hp, hdb⟩

end Records

/-! ## The invariant -/

/-- What is known of the process, on a journal of these records. -/
def PollProcess.Ok (l : ResponseLayout) (maxFileSize : Nat) (d : Dir) (full : List (List Payload))
    (cur : List Payload) (db : SQLiteClientDatabase) : PollProcess → Prop
  | .down => ∃ n, Resumes l (places 0 (full ++ [cur])) db n
  | .polling r => ∃ got, At maxFileSize d full cur r got ∧
      Resumes l (places 0 (full ++ [cur])) db got.length
  | .applying r data => ∃ got, At maxFileSize d full cur r (got ++ [data]) ∧ r.mapped = true ∧
      0 < r.currentOffset ∧ Resumes l (places 0 (full ++ [cur])) db got.length

/-- The invariant of a run. -/
structure Recorder.Inv (l : ResponseLayout) (maxFileSize : Nat) (st : Recorder)
    (full : List (List Payload)) (cur : List Payload) : Prop where
  written : Written maxFileSize st.journal full cur
  process : st.process.Ok l maxFileSize st.journal.dir full cur st.db

section Steps

variable {l : ResponseLayout} {maxFileSize : Nat} {d : Dir} {full : List (List Payload)}
  {cur : List Payload} {db : SQLiteClientDatabase}

/-- The whole payload is there to be cast. -/
theorem slice_take (m : Bytes) (off : Nat) {k len : Nat} (h : k ≤ len) :
    (m.slice off len).take k = m.slice off k := by
  unfold Bytes.slice
  rw [← List.map_take, List.take_range, Nat.min_eq_left h]

/-- The record that is cast is the one that was read. -/
theorem cast_eq {r : MmapReader} {got : List Payload} {data : Payload}
    (h : At maxFileSize d full cur r (got ++ [data])) (hmapped : r.mapped = true)
    (hoffset : 0 < r.currentOffset) (hlong : l.size ≤ data.length) :
    l.cast d r data.length = l.decode (data.take l.size) := by
  unfold ResponseLayout.cast
  rw [← slice_take _ _ hlong, (h.place hmapped hoffset).2]

/-- The process handles the record in its place. -/
theorem handle_eq {r : MmapReader} {got : List Payload} {data : Payload}
    (h : At maxFileSize d full cur r (got ++ [data])) (hmapped : r.mapped = true)
    (hoffset : 0 < r.currentOffset) : db.handle l d r data = db.enter l (data, r.getOffset) := by
  unfold SQLiteClientDatabase.handle SQLiteClientDatabase.enter
  split
  · rename_i hlong
    rw [cast_eq h hmapped hoffset hlong]
  · rfl

/-- A process that is started stands behind the last record that counted. -/
theorem Resumes.start (hpub : Published maxFileSize d full cur) (hsize : maxFileSize - 8 < 2 ^ 32) {n : Nat}
    (h : Resumes l (places 0 (full ++ [cur])) db n) :
    (PollProcess.polling (Polling.startReader d db.getLastLogOffset)).Ok l maxFileSize d full cur db := by
  unfold Polling.startReader
  rcases h.offset with ⟨hzero, rfl⟩ | ⟨k, p, hk, hp, hdb⟩
  · rw [if_neg (not_not.mpr hzero)]
    exact ⟨[], At.open hpub _ (Nat.zero_le _), resumes_empty l _⟩
  · obtain ⟨hne, got, hlen, hat⟩ := At.seek hpub hsize hp
    rw [if_pos hne]
    refine ⟨got, hat, ?_⟩
    rw [hlen]
    exact ⟨(List.getElem?_eq_some_iff.mp hp).1, hdb, Or.inr ⟨k, p, Nat.lt_succ_self k, hp, hdb⟩⟩

/-- A poller that is down has nothing to resume from yet. -/
theorem PollProcess.Ok.down {process : PollProcess} (h : process.Ok l maxFileSize d full cur db) :
    PollProcess.down.Ok l maxFileSize d full cur db := by
  cases process with
  | down => exact h
  | polling r =>
    obtain ⟨got, -, hresumes⟩ := h
    exact ⟨_, hresumes⟩
  | applying r data =>
    obtain ⟨got, -, -, -, hresumes⟩ := h
    exact ⟨_, hresumes⟩

/-- The journal goes on. -/
theorem PollProcess.Ok.grow {process : PollProcess} (h : process.Ok l maxFileSize d full cur db)
    (hpub : Published maxFileSize d full cur) {d' : Dir} {full' : List (List Payload)} {cur' : List Payload}
    (hgrows : Grows maxFileSize d d' full full' cur cur') : process.Ok l maxFileSize d' full' cur' db := by
  cases process with
  | down =>
    obtain ⟨n, hresumes⟩ := h
    exact ⟨n, hresumes.grow hgrows.places⟩
  | polling r =>
    obtain ⟨got, hat, hresumes⟩ := h
    exact ⟨got, hat.grows hpub hgrows, hresumes.grow hgrows.places⟩
  | applying r data =>
    obtain ⟨got, hat, hmapped, hoffset, hresumes⟩ := h
    exact ⟨got, hat.grows hpub hgrows, hmapped, hoffset, hresumes.grow hgrows.places⟩

end Steps

namespace Recorder

variable {l : ResponseLayout} {maxFileSize : Nat} {st st' : Recorder} {full : List (List Payload)}
  {cur : List Payload}

/-- At the start nothing is written. -/
theorem inv_init (l : ResponseLayout) (maxFileSize : Nat) : Inv l maxFileSize .init [] [] :=
  ⟨(MmapLog.inv_init maxFileSize).written, 0, resumes_empty l _⟩

/-- One step: what the poller has entered is a stretch of the journal from its start. -/
theorem Inv.step (h : Inv l maxFileSize st full cur) (hstep : Step l maxFileSize st st')
    (hsmall : st'.journal.rolled < 2 ^ 32) (hsize : maxFileSize - 8 < 2 ^ 32) :
    ∃ full' cur', Inv l maxFileSize st' full' cur' := by
  have hpub := h.written.published
  have hprocess := h.process
  cases hstep with
  | journal hstep =>
    obtain ⟨full', cur', hwritten, hgrows⟩ := h.written.step hstep hsmall
    exact ⟨full', cur', hwritten, hprocess.grow hpub hgrows⟩
  | start hdown =>
    rw [hdown] at hprocess
    obtain ⟨n, hresumes⟩ := hprocess
    exact ⟨full, cur, h.written, hresumes.start hpub hsize⟩
  | idle hpolling hrun =>
    rw [hpolling] at hprocess
    obtain ⟨got, hat, hresumes⟩ := hprocess
    have hnext := hat.read hpub (h.written.rolled ▸ hsmall) hrun
    exact ⟨full, cur, h.written, got, hnext.1, hresumes⟩
  | read hpolling hrun =>
    rw [hpolling] at hprocess
    obtain ⟨got, hat, hresumes⟩ := hprocess
    have hnext := hat.read hpub (h.written.rolled ▸ hsmall) hrun
    obtain ⟨hmapped, hoffset⟩ := readNext_behind hrun
    exact ⟨full, cur, h.written, got, hnext, hmapped, hoffset, hresumes⟩
  | commit hread =>
    rw [hread] at hprocess
    obtain ⟨got, hat, hmapped, hoffset, hresumes⟩ := hprocess
    refine ⟨full, cur, h.written, got ++ [_], hat, ?_⟩
    dsimp only
    rw [handle_eq hat hmapped hoffset, List.length_append, List.length_singleton]
    exact hresumes.enter (hat.place hmapped hoffset).1
  | crash => exact ⟨full, cur, h.written, hprocess.down⟩

/-- Files are only rolled forward. -/
theorem Step.rolled_le (h : Step l maxFileSize st st') : st.journal.rolled ≤ st'.journal.rolled := by
  cases h
  case journal hstep => exact hstep.rolled_le
  all_goals exact le_rfl

theorem Run.inv (h : Run l maxFileSize st) (hsmall : st.journal.rolled < 2 ^ 32)
    (hsize : maxFileSize - 8 < 2 ^ 32) : ∃ full cur, Inv l maxFileSize st full cur := by
  induction h with
  | init => exact ⟨[], [], inv_init l maxFileSize⟩
  | step _ hstep ih =>
    obtain ⟨full, cur, hinv⟩ := ih (Nat.lt_of_le_of_lt hstep.rolled_le hsmall)
    exact hinv.step hstep hsmall hsize

end Recorder

/-! ## Passes -/

section Passes

variable {l : ResponseLayout} {maxFileSize : Nat} {d : Dir} {full : List (List Payload)}
  {cur : List Payload}

/-- A pass over what is left makes the database of the whole journal. -/
theorem pass_eq (hpub : Published maxFileSize d full cur) (hsmall : full.length < 2 ^ 32) {fuel : Nat}
    (hfuel : full.length + 1 < fuel) : ∀ {rounds : Nat} {r : MmapReader} {got : List Payload},
      At maxFileSize d full cur r got → (full.flatten ++ cur).length < got.length + rounds →
      pass l d fuel rounds r (made l ((places 0 (full ++ [cur])).take got.length)) =
        some (made l (places 0 (full ++ [cur])))
  | 0, r, got, hat, hrounds => absurd hat.within.length_le (by omega)
  | rounds + 1, r, got, hat, hrounds => by
    obtain ⟨⟨res, r'⟩, hres, hnext⟩ := hat.readNext hpub hsmall fuel (by omega)
    rw [pass, hres]
    cases res with
    | none =>
      show some _ = some _
      rw [hnext.2, ← length_places, List.take_length]
    | some data =>
      obtain ⟨hmapped, hoffset⟩ := readNext_behind hres
      have hlast : At maxFileSize d full cur r' (got ++ [data]) := hnext
      show pass l d fuel rounds r' _ = _
      rw [handle_eq hlast hmapped hoffset, ← made_succ (hlast.place hmapped hoffset).1]
      have hlen : (got ++ [data]).length = got.length + 1 := List.length_append
      rw [← hlen]
      exact pass_eq hpub hsmall hfuel hlast (by omega)

end Passes

/-- At any point of any run the database comes to the same as that of one pass over the journal,
whether the process goes on or is started again; and it has, once the process has read
everything. The journal has fewer than `2^32` files, and they end before byte `2^32 + 8`. -/
theorem exactly_once {l : ResponseLayout} {maxFileSize : Nat} {st : Recorder}
    (h : st.Run l maxFileSize) (hsmall : st.journal.rolled < 2 ^ 32) (hsize : maxFileSize - 8 < 2 ^ 32)
    {rounds fuel : Nat} (hrounds : st.journal.appended.length < rounds)
    (hfuel : st.journal.rolled + 1 < fuel) :
    ∃ final, pass l st.journal.dir fuel rounds (.create st.journal.dir) .empty = some final ∧
      pass l st.journal.dir fuel rounds
        (Polling.startReader st.journal.dir st.db.getLastLogOffset) st.db = some final ∧
      (∀ r, st.process = .polling r → pass l st.journal.dir fuel rounds r st.db = some final) ∧
      (st.AtEnd → st.db = final) := by
  obtain ⟨full, cur, hinv⟩ := h.inv hsmall hsize
  have hpub := hinv.written.published
  have hlen : full.length < 2 ^ 32 := hinv.written.rolled ▸ hsmall
  rw [hinv.written.rolled] at hfuel
  rw [hinv.written.appended] at hrounds
  -- wherever the process stands
  have hpass : ∀ r, (PollProcess.polling r).Ok l maxFileSize st.journal.dir full cur st.db →
      pass l st.journal.dir fuel rounds r st.db = some (made l (places 0 (full ++ [cur]))) := by
    rintro r ⟨got, hat, hresumes⟩
    rw [hresumes.whole]
    exact pass_eq hpub hlen hfuel hat (by omega)
  refine ⟨made l (places 0 (full ++ [cur])), ?_, ?_, ?_, ?_⟩
  · exact pass_eq hpub hlen hfuel (At.open hpub _ (Nat.zero_le _)) (by omega)
  · obtain ⟨n, hresumes⟩ := hinv.process.down
    exact hpass _ (hresumes.start hpub hsize)
  · intro r hr
    exact hpass r (hr ▸ hinv.process)
  · rintro ⟨r, r', fuel', hr, hrun⟩
    obtain ⟨got, hat, hresumes⟩ := hr ▸ hinv.process
    have hall := (hat.read hpub hlen hrun).2
    have hwhole := hresumes.whole
    rw [hall, ← length_places, List.take_length] at hwhole
    exact hwhole

/-! ## A journal of equal records -/

/-- What the writer does without the process. -/
theorem Recorder.Run.of_journal (l : ResponseLayout) {maxFileSize : Nat} {sys : Sys}
    (h : Sys.Run maxFileSize sys) : Recorder.Run l maxFileSize ⟨sys, .down, .empty⟩ := by
  induction h with
  | init => exact .init
  | step _ hstep ih => exact ih.step (.journal hstep)

/-- Records of client 1 in one file, as many as there is room for. -/
theorem run_records {maxFileSize : Nat} (hmax : maxFileSize < 2 ^ 63) (k : Nat)
    (hroom : 72 * k + 8 ≤ maxFileSize) : ∃ sys, Sys.Run maxFileSize sys ∧
      sys.phase = .ready ⟨maxFileSize, 0, 72 * k⟩ ∧ sys.rolled = 0 ∧
      sys.appended = List.replicate k (sampleRecord 1) := by
  induction k with
  | zero =>
    have hcreate : MmapWriter.create maxFileSize ∅ =
        some (⟨maxFileSize, 0, 0⟩, (Dir.create ∅ 0).truncate 0 maxFileSize) := by
      show MmapWriter.sizeFile ⟨maxFileSize, 0, 0⟩ (Dir.create ∅ 0) 0 = _
      unfold MmapWriter.sizeFile
      rw [if_neg (by dsimp only; omega)]
    exact ⟨_, Sys.Run.init.create rfl hcreate, rfl, rfl, rfl⟩
  | succ k ih =>
    obtain ⟨sys, h, hphase, hrolled, happended⟩ := ih (by omega)
    have hlen : (sampleRecord 1).length = 64 := rfl
    have hfits : MmapLog.Fits maxFileSize (sampleRecord 1) := ⟨by omega, by omega, by rw [hlen]; decide⟩
    have hroll : (⟨maxFileSize, 0, 72 * k⟩ : MmapWriter).rollsOver (sampleRecord 1).length = false := by
      rw [← Bool.not_eq_true, rollsOver_iff hfits hmax, hlen]
      omega
    have happend := append_of_room (d := sys.dir) hfits.pos hfits.lt (makeRoom_stay hroll)
    refine ⟨_, h.append hphase hfits happend, ?_, ?_, ?_⟩
    · rw [hlen, Nat.mul_succ]
    · dsimp only
      rw [hroll]
      exact hrolled
    · dsimp only
      rw [happended, ← List.replicate_succ']

/-- The place behind each of them. -/
theorem ends_replicate (p : Payload) : ∀ {n j off : Nat}, j < n →
    (ends 0 off (List.replicate n p))[j]? = some (p, globalOffset 0 (off + (j + 1) * (8 + p.length)))
  | 0, _, _, h => absurd h (Nat.not_lt_zero _)
  | n + 1, 0, off, _ => by
    rw [List.replicate_succ, ends, List.getElem?_cons_zero, Nat.zero_add, Nat.one_mul]
  | n + 1, j + 1, off, h => by
    have hsum : off + (8 + p.length) + (j + 1) * (8 + p.length) = off + (j + 1 + 1) * (8 + p.length) := by
      rw [Nat.succ_mul (j + 1)]
      omega
    rw [List.replicate_succ, ends, List.getElem?_cons_succ, ends_replicate p (by omega), hsum]

/-- The addresses of like records, one after another. -/
theorem places_replicate (p : Payload) {n j : Nat} (hj : j < n) :
    (places 0 ([] ++ [List.replicate n p]))[j]? = some (p, globalOffset 0 ((j + 1) * (8 + p.length))) := by
  rw [List.nil_append, places, places, List.append_nil, ends_replicate p hj, Nat.zero_add]

section EqualRecords

variable {maxFileSize n : Nat} {sys : Sys} (hsys : Sys.Run maxFileSize sys) (hrolled : sys.rolled = 0)
  (happended : sys.appended = List.replicate n (sampleRecord 1))

include hsys hrolled happended

theorem written_records : Written maxFileSize sys [] (List.replicate n (sampleRecord 1)) := by
  obtain ⟨full, cur, hinv⟩ := hsys.inv (by rw [hrolled]; decide)
  have hw := hinv.written
  obtain rfl : full = [] := List.length_eq_zero_iff.mp (hw.rolled.symm.trans hrolled)
  obtain rfl : cur = List.replicate n (sampleRecord 1) := hw.appended.symm.trans happended
  exact hw

/-- The next of them. -/
theorem next_record {j : Nat} (hj : j < n) {r : MmapReader}
    (hat : At maxFileSize sys.dir [] (List.replicate n (sampleRecord 1)) r (List.replicate j (sampleRecord 1))) :
    ∃ r', r.readNext sys.dir 3 = some (some (sampleRecord 1), r') ∧
      At maxFileSize sys.dir [] (List.replicate n (sampleRecord 1)) r'
        (List.replicate j (sampleRecord 1) ++ [sampleRecord 1]) ∧
      r'.mapped = true ∧ 0 < r'.currentOffset ∧ r'.getOffset = globalOffset 0 ((j + 1) * 72) := by
  have hpub := (written_records hsys hrolled happended).published
  obtain ⟨⟨res, r'⟩, hres, hnext⟩ := hat.readNext hpub (by decide) 3 (by simp only [List.length_nil]; omega)
  cases res with
  | none =>
    have hlen := congrArg List.length hnext.2
    simp only [List.flatten_nil, List.nil_append, List.length_replicate] at hlen
    omega
  | some data =>
    have hlast : At maxFileSize sys.dir [] (List.replicate n (sampleRecord 1)) r'
      (List.replicate j (sampleRecord 1) ++ [data]) := hnext
    obtain ⟨hmapped, hoffset⟩ := readNext_behind hres
    -- what was read is the next of the records
    obtain rfl : data = sampleRecord 1 :=
      List.eq_of_mem_replicate (hlast.within.subset (List.mem_append_right _ List.mem_cons_self))
    have hplace := (hlast.place hmapped hoffset).1
    rw [List.length_replicate, places_replicate (sampleRecord 1) hj] at hplace
    exact ⟨r', hres, hlast, hmapped, hoffset, (Prod.mk.inj (Option.some.inj hplace)).2.symm⟩

/-- Behind the last of them. -/
theorem no_more_records {r : MmapReader}
    (hat : At maxFileSize sys.dir [] (List.replicate n (sampleRecord 1)) r (List.replicate n (sampleRecord 1))) :
    ∃ r', r.readNext sys.dir 3 = some (none, r') := by
  have hpub := (written_records hsys hrolled happended).published
  obtain ⟨⟨res, r'⟩, hres, hnext⟩ := hat.readNext hpub (by decide) 3 (by simp only [List.length_nil]; omega)
  cases res with
  | none => exact ⟨r', hres⟩
  | some data =>
    have hmore := (show At maxFileSize sys.dir [] _ r' _ from hnext).within.length_le
    rw [List.length_append, List.flatten_nil, List.nil_append, List.length_singleton] at hmore
    omega

/-- A process that has applied the first `j` of them. -/
theorem polled_records (j : Nat) (hj : j ≤ n) : ∃ r,
    Recorder.Run sampleLayout maxFileSize ⟨sys, .polling r,
      made sampleLayout ((places 0 ([] ++ [List.replicate n (sampleRecord 1)])).take j)⟩ ∧
    At maxFileSize sys.dir [] (List.replicate n (sampleRecord 1)) r (List.replicate j (sampleRecord 1)) := by
  have hpub := (written_records hsys hrolled happended).published
  induction j with
  | zero =>
    refine ⟨_, (Recorder.Run.of_journal sampleLayout hsys).step (.start rfl), ?_⟩
    exact At.open hpub _ (Nat.zero_le _)
  | succ j ih =>
    obtain ⟨r, hrun, hat⟩ := ih (by omega)
    obtain ⟨r', hres, hlast, hmapped, hoffset, -⟩ := next_record hsys hrolled happended hj hat
    have hcommit := (hrun.step (.read rfl hres)).step (.commit rfl)
    have hplace := (hlast.place hmapped hoffset).1
    rw [List.length_replicate] at hplace
    rw [handle_eq hlast hmapped hoffset, ← made_succ hplace] at hcommit
    refine ⟨r', hcommit, ?_⟩
    rw [List.replicate_succ']
    exact hlast

end EqualRecords

/-- A record of client 1 counts. -/
theorem enter_record (db : SQLiteClientDatabase) (offset : Nat) : ∃ resp : OrderResponse,
    resp.clientId = 1 ∧ db.enter sampleLayout (sampleRecord 1, offset) = db.updateOnExecution resp offset := by
  have hlong : sampleLayout.size ≤ (sampleRecord 1).length := by decide
  exact ⟨sampleLayout.decode ((sampleRecord 1).take sampleLayout.size), by decide, if_pos hlong⟩

/-- Client 1 has a number for each of them. -/
theorem oSeqNum_records {n j : Nat} (hj : j ≤ n) : (made sampleLayout
    ((places 0 ([] ++ [List.replicate n (sampleRecord 1)])).take j)).oSeqNum 1 = j := by
  induction j with
  | zero => rfl
  | succ j ih =>
    rw [made_succ (places_replicate (sampleRecord 1) hj)]
    obtain ⟨resp, hclient, henter⟩ := enter_record _ _
    rw [henter, SQLiteClientDatabase.oSeqNum_updateOnExecution, hclient, if_pos rfl, ih (by omega)]

/-- The offset that is saved with each of them. -/
theorem lastLogOffset_records {n j : Nat} (hj : j < n) : (made sampleLayout
    ((places 0 ([] ++ [List.replicate n (sampleRecord 1)])).take (j + 1))).getLastLogOffset =
      globalOffset 0 ((j + 1) * 72) := by
  rw [made_succ (places_replicate (sampleRecord 1) hj)]
  obtain ⟨resp, -, henter⟩ := enter_record _ _
  rw [henter]
  rfl

/-- A pass over all of them. -/
theorem pass_records {maxFileSize n : Nat} {sys : Sys} (hsys : Sys.Run maxFileSize sys)
    (hrolled : sys.rolled = 0) (happended : sys.appended = List.replicate n (sampleRecord 1)) :
    ∃ final, pass sampleLayout sys.dir 2 (n + 1) (.create sys.dir) .empty = some final ∧
      final.oSeqNum 1 = n := by
  have hpub := (written_records hsys hrolled happended).published
  have hlen : (places 0 ([] ++ [List.replicate n (sampleRecord 1)])).length = n := by
    rw [length_places, List.flatten_nil, List.nil_append, List.length_replicate]
  refine ⟨_, pass_eq hpub (by decide) (by decide) (At.open hpub _ (Nat.zero_le _)) ?_, ?_⟩
  · rw [← length_places, hlen, List.take_zero, List.flatten_nil, List.length_nil]
    omega
  · have hcount := oSeqNum_records (le_refl n)
    rw [List.take_of_length_le (Nat.le_of_eq hlen)] at hcount
    exact hcount

/-- Two records, and a process that goes down with the second one read and not yet applied. -/
theorem crashed_process_finishes : ∃ st : Recorder, st.Run sampleLayout 4096 ∧ st.process = .down ∧
    st.db.oSeqNum 1 = 1 ∧ ∃ final, final.oSeqNum 1 = 2 ∧
      pass sampleLayout st.journal.dir 2 3 (.create st.journal.dir) .empty = some final ∧
      pass sampleLayout st.journal.dir 2 3
        (Polling.startReader st.journal.dir st.db.getLastLogOffset) st.db = some final := by
  obtain ⟨sys, hsys, -, hrolled, happended⟩ :=
    run_records (show 4096 < 2 ^ 63 by decide) 2 (by decide)
  obtain ⟨r, hrun, hat⟩ := polled_records hsys hrolled happended 1 (by decide)
  obtain ⟨r', hres, -⟩ := next_record hsys hrolled happended (by decide) hat
  have hcrash := (hrun.step (.read rfl hres)).step .crash
  have hrounds : sys.appended.length < 3 := by
    rw [happended]
    decide
  have hfuel : sys.rolled + 1 < 2 := by
    rw [hrolled]
    decide
  obtain ⟨final, hpass, hagain, -, -⟩ :=
    exactly_once hcrash (by rw [hrolled]; decide) (by decide) hrounds hfuel
  obtain ⟨final', hpass', hcount⟩ := pass_records hsys hrolled happended
  obtain rfl := Option.some.inj (hpass.symm.trans hpass')
  exact ⟨_, hcrash, rfl, oSeqNum_records (by decide), final, hcount, hpass, hagain⟩

/-- A process that is sent to a file that is not there. -/
theorem start_missing {d : Dir} {offset k : Nat} (hfile : offset >>> 32 = k + 1)
    (hnone : d.lookup (k + 1) = none) :
    ∃ r', (Polling.startReader d offset).readNext d 1 = some (none, r') := by
  have hne : offset ≠ 0 := by
    rintro rfl
    cases hfile
  have hopen : ∀ r : MmapReader, r.openFile d (k + 1) = { r with currentFileIndex := k + 1, mapped := false } := by
    intro r
    unfold MmapReader.openFile
    rw [hnone]
  unfold Polling.startReader MmapReader.seek
  rw [if_pos hne]
  dsimp only
  rw [hfile]
  have hzero : k + 1 ≠ (MmapReader.create d).currentFileIndex ∨ ¬ (MmapReader.create d).mapped := by
    left
    rw [show (MmapReader.create d).currentFileIndex = 0 from MmapReader.openFile_index ..]
    exact Nat.succ_ne_zero k
  rw [if_pos hzero, hopen, if_pos (by simp), MmapReader.readNext]
  unfold MmapReader.retry
  dsimp only
  simp only [Bool.false_eq_true, if_false, hopen, not_false_eq_true, if_true]
  exact ⟨_, rfl⟩

/-- A process that goes down behind a record that ends in the next 4 GiB, and is started again. -/
theorem lost_record {maxFileSize n j : Nat} (hmax : maxFileSize < 2 ^ 63) (hroom : 72 * n + 8 ≤ maxFileSize)
    (hj : j < n) (hfar : globalOffset 0 ((j + 1) * 72) >>> 32 = 1) :
    ∃ st : Recorder, st.Run sampleLayout maxFileSize ∧ st.journal.rolled = 0 ∧ st.AtEnd ∧
      st.db.oSeqNum 1 = j + 1 ∧ ∃ final,
        pass sampleLayout st.journal.dir 2 (n + 1) (.create st.journal.dir) .empty = some final ∧
          final.oSeqNum 1 = n := by
  obtain ⟨sys, hsys, -, hrolled, happended⟩ := run_records hmax n hroom
  obtain ⟨r, hrun, -⟩ := polled_records hsys hrolled happended (j + 1) hj
  have hagain := (hrun.step .crash).step (.start rfl)
  have hbeyond := (written_records hsys hrolled happended).beyond 1 Nat.one_pos
  obtain ⟨r', hnone⟩ := start_missing hfar hbeyond
  rw [← lastLogOffset_records hj] at hnone
  exact ⟨_, hagain, hrolled, ⟨_, r', 1, rfl, hnone⟩, oSeqNum_records hj,
    pass_records hsys hrolled happended⟩

/-- A file of 8 GiB with 59652325 records. The process goes down after the one before the last,
which ends at byte `2^32 + 32`; started again it looks for byte 32 of `journal-1`, which is not
there, and never reads the last record. -/
theorem long_file_loses_record : ∃ st : Recorder, st.Run sampleLayout (2 ^ 33) ∧ st.journal.rolled = 0 ∧
    st.AtEnd ∧ st.db.oSeqNum 1 = 59652324 ∧
      ∃ final, pass sampleLayout st.journal.dir 2 59652326 (.create st.journal.dir) .empty = some final ∧
        final.oSeqNum 1 = 59652325 ∧ st.db ≠ final := by
  obtain ⟨j, hj⟩ : ∃ j, j + 1 = 59652324 := ⟨59652323, rfl⟩
  have hfar : globalOffset 0 ((j + 1) * 72) >>> 32 = 1 := by
    rw [hj]
    decide
  obtain ⟨st, hrun, hrolled, hend, hcount, final, hpass, hfinal⟩ :=
    lost_record (show 2 ^ 33 < 2 ^ 63 by decide) (n := 59652325) (by decide) (by omega) hfar
  refine ⟨st, hrun, hrolled, hend, hcount.trans hj, final, hpass, hfinal, fun heq => ?_⟩
  rw [heq, hfinal, hj] at hcount
  exact absurd hcount (by decide)

end Exchange
