import Exchange.Ipc.LastFile

/-!
# Random access

`append` returns the offset of its record, and `seek` takes it to the record again. `Log` is a journal
whose writer is started and stopped and whose reader does anything it can: it opens files that are there
or not, reads, and seeks to any number.

Two facts about it are enough. A reader that has a file mapped knows the size of that file
(`MmapReader.On`), so it does not matter to `seek` where the reader comes from (`MmapReader.On.seek`).
And every offset that was returned is the place of its record in its file (`Begins`), whatever has been
appended since.

The place is the lower half of the offset, and the file the upper one: a record that begins behind byte
`2^32` of its file is not found (`far_record_not_found`), nor is one whose file has been written anew
(`overwritten_record_not_found`).
-/

namespace Exchange.MmapLog

open Lib

/-- A record with the offset that `append` returned, and where it begins in its file. -/
structure Entry where
  payload : Payload
  offset : Nat
  place : Nat
  deriving DecidableEq, Repr

/-- The directory, its writer and a reader, with what was appended; `rolled` counts the rollovers. -/
structure Log where
  dir : Dir
  writer : Option MmapWriter
  reader : Option MmapReader
  rolled : Nat
  entries : List Entry

namespace Log

/-- An empty directory. -/
def init : Log := ⟨∅, none, none, 0, []⟩

/-- What can happen next. -/
inductive Step (maxFileSize : Nat) (log : Log) : Log → Prop
  | start {w : MmapWriter} {d : Dir} (hwriter : log.writer = none)
      (hrun : MmapWriter.create maxFileSize log.dir = some (w, d)) :
      Step maxFileSize log { log with
        dir := d
        writer := some w }
  | stop {w : MmapWriter} (hwriter : log.writer = some w) :
      Step maxFileSize log { log with writer := none }
  | append {w w' : MmapWriter} {p : Payload} {offset : Nat} {d : Dir} (hwriter : log.writer = some w)
      (hp : Fits maxFileSize p) (hrun : w.append log.dir p = some (some offset, w', d)) :
      Step maxFileSize log { log with
        dir := d
        writer := some w'
        rolled := if w.rollsOver p.length then log.rolled + 1 else log.rolled
        entries := log.entries ++ [⟨p, offset, w'.currentOffset - (8 + p.length)⟩] }
  | attach : Step maxFileSize log { log with reader := some (.create log.dir) }
  | read {r : MmapReader} {fuel : Nat} {res : Option Payload × MmapReader} (hreader : log.reader = some r)
      (hrun : r.readNext log.dir fuel = some res) :
      Step maxFileSize log { log with reader := some res.2 }
  | seek {r : MmapReader} (hreader : log.reader = some r) (offset : Nat) :
      Step maxFileSize log { log with reader := some (r.seek log.dir offset).2 }

/-- The journals an empty directory can come to hold. -/
inductive Run (maxFileSize : Nat) : Log → Prop
  | init : Run maxFileSize .init
  | step {log log' : Log} (h : Run maxFileSize log) (hstep : Step maxFileSize log log') : Run maxFileSize log'

/-- The writer's side of it. -/
def sys (log : Log) : Sys :=
  ⟨log.dir, log.writer.elim .down .ready, none, log.rolled, log.entries.map Entry.payload, []⟩

end Log

/-! ## Readers -/

/-- A reader has the size of the file that it has mapped. -/
def MmapReader.On (r : MmapReader) (d : Dir) : Prop :=
  r.mapped = true → ∃ f, d.lookup r.currentFileIndex = some f ∧ f.size = r.fileSize ∧ f.size ≠ 0

namespace MmapReader.On

variable {r : MmapReader} {d : Dir}

theorem openFile (r : MmapReader) (d : Dir) (index : Nat) : (r.openFile d index).On d := by
  intro hmapped
  unfold MmapReader.openFile at hmapped ⊢
  split at hmapped
  · cases hmapped
  · rename_i f hf
    split at hmapped
    · cases hmapped
    · rename_i hsize
      dsimp only
      rw [if_neg hsize]
      exact ⟨f, hf, rfl, hsize⟩

theorem moved (h : r.On d) (offset : Nat) : MmapReader.On { r with currentOffset := offset } d := h

theorem retry (h : r.On d) : (r.retry d).On d := by
  unfold MmapReader.retry
  split
  · exact h
  · exact openFile _ _ _

theorem readNext : ∀ {fuel : Nat} {r : MmapReader} {res : Option Payload × MmapReader}, r.On d →
    r.readNext d fuel = some res → res.2.On d
  | 0, _, _, _, hrun => by cases hrun
  | fuel + 1, r, res, h, hrun => by
    rw [MmapReader.readNext] at hrun
    dsimp only at hrun
    split at hrun
    · cases hrun
      exact h.retry
    split at hrun
    · cases hrun
      exact h.retry
    split at hrun
    · cases hrun
      exact h.retry
    split at hrun
    · exact readNext (openFile _ _ _) hrun
    · cases hrun
      exact h.retry.moved _

/-- `seek` leaves a reader at the place, in a file that is there, wherever it was before. -/
theorem seek_to (h : r.On d) {k offset : Nat} {f : File} (hf : d.lookup k = some f) (hsize : f.size ≠ 0)
    (hfile : offset >>> 32 = k) (hplace : offset % 2 ^ 32 ≤ f.size) :
    r.seek d offset = (true, ⟨k, true, offset % 2 ^ 32, f.size⟩) := by
  have hopen : r.openFile d k = ⟨k, true, 0, f.size⟩ := by
    unfold MmapReader.openFile
    rw [hf]
    exact if_neg hsize
  unfold MmapReader.seek
  dsimp only
  rw [hfile]
  split
  · rw [hopen, if_neg (by simp), if_neg (Nat.not_lt.mpr hplace)]
  · -- the file is mapped already
    rename_i hsame
    obtain ⟨hindex, hmapped⟩ := not_or.mp hsame
    have hindex := not_not.mp hindex
    have hmapped := not_not.mp hmapped
    obtain ⟨f', hf', hread, -⟩ := h hmapped
    rw [← hindex] at hf'
    obtain rfl := Option.some.inj (hf.symm.trans hf')
    rw [if_neg (by simp [hmapped]), if_neg (by omega), hindex, hread, hmapped]

theorem seek (h : r.On d) (offset : Nat) : (r.seek d offset).2.On d := by
  have hat : MmapReader.On (if offset >>> 32 ≠ r.currentFileIndex ∨ ¬ r.mapped then
      r.openFile d (offset >>> 32) else r) d := by
    split
    · exact openFile _ _ _
    · exact h
  unfold MmapReader.seek
  dsimp only
  generalize (if offset >>> 32 ≠ r.currentFileIndex ∨ ¬ r.mapped then
    r.openFile d (offset >>> 32) else r) = r₁ at hat ⊢
  split
  · exact hat
  · split
    · exact hat
    · exact hat.moved _

/-- The files of a journal keep their size. -/
theorem grows {maxFileSize : Nat} {d' : Dir} {full full' : List (List Payload)} {cur cur' : List Payload}
    (h : r.On d) (hpub : Published maxFileSize d full cur)
    (hbeyond : ∀ i, full.length < i → d.lookup i = none)
    (hgrows : Grows maxFileSize d d' full full' cur cur') : r.On d' := by
  intro hmapped
  obtain ⟨f, hf, hread, hsize⟩ := h hmapped
  have hle : r.currentFileIndex ≤ full.length := by
    by_contra hlt
    rw [hbeyond _ (by omega)] at hf
    cases hf
  -- a file that is not empty has its size
  have hfull : f.size = maxFileSize := by
    by_cases hlt : r.currentFileIndex < full.length
    · obtain ⟨f', hf', hsize', -⟩ := hpub.complete _ _ (List.getElem?_eq_getElem hlt)
      obtain rfl := Option.some.inj (hf.symm.trans hf')
      exact hsize'
    · have hlast := hpub.last
      rw [show full.length = r.currentFileIndex by omega, hf] at hlast
      cases hlast with
      | empty hzero => exact absurd hzero hsize
      | live hsize' _ _ _ _ => exact hsize'
  have hlt : r.currentFileIndex < (full ++ [cur]).length := by
    rw [List.length_append, List.length_singleton]
    omega
  have hrecs := List.getElem?_eq_getElem hlt
  obtain ⟨off, hchain, -⟩ := hpub.chain hf hfull (by omega) hrecs
  obtain ⟨f', hf', hsize', -⟩ := hgrows.bytes _ f _ off hrecs hf hfull hchain
  exact ⟨f', hf', by rw [hsize', ← hfull, hread], by omega⟩

end MmapReader.On

/-! ## Records -/

/-- The `n`th record of the journal, with its offset and its place. -/
def Begins (full : List (List Payload)) (cur : List Payload) (n : Nat) (e : Entry) : Prop :=
  ∃ (k : Nat) (pre post : List Payload), (full ++ [cur])[k]? = some (pre ++ e.payload :: post) ∧
    n = ((full ++ [cur]).take k).flatten.length + pre.length ∧
    e.offset = globalOffset k (extent pre) ∧ e.place = extent pre

/-- The writer has gone on from the files `full` and `cur` of `d`. -/
def Further (maxFileSize : Nat) (d : Dir) (full : List (List Payload)) (cur : List Payload) (sys : Sys) : Prop :=
  sys.rolled < 2 ^ 32 → ∃ full' cur', Written maxFileSize sys full' cur' ∧
    (∀ n e, Begins full cur n e → Begins full' cur' n e) ∧ ∀ r : MmapReader, r.On d → r.On sys.dir

section Records

variable {maxFileSize : Nat} {d d' : Dir} {full full' : List (List Payload)} {cur cur' : List Payload}
  {sys sys' : Sys} {n : Nat} {e : Entry}

/-- Where a record begins, it begins when more is written. -/
theorem Begins.grows (h : Begins full cur n e) (hgrows : Grows maxFileSize d d' full full' cur cur') :
    Begins full' cur' n e := by
  obtain ⟨k, pre, post, hrecs, hn, hoffset, hplace⟩ := h
  have hk : k ≤ full.length := by
    have hlt := (List.getElem?_eq_some_iff.mp hrecs).1
    rw [List.length_append, List.length_singleton] at hlt
    omega
  obtain ⟨more, hmore⟩ := hgrows.records k _ hrecs
  rw [List.append_assoc, List.cons_append] at hmore
  refine ⟨k, pre, post ++ more, hmore, ?_, hoffset, hplace⟩
  obtain ⟨files, rfl⟩ := hgrows.files
  rw [hn, List.take_append_of_le_length hk, List.append_assoc, List.take_append_of_le_length hk]

theorem Further.step (h : Further maxFileSize d full cur sys) (hstep : Sys.Step maxFileSize sys sys') :
    Further maxFileSize d full cur sys' := by
  intro hsmall
  obtain ⟨full₁, cur₁, hw, hbegins, hon⟩ := h (Nat.lt_of_le_of_lt hstep.rolled_le hsmall)
  obtain ⟨full₂, cur₂, hw', hgrows⟩ := hw.step hstep hsmall
  exact ⟨full₂, cur₂, hw', fun n e he => (hbegins n e he).grows hgrows,
    fun r hr => (hon r hr).grows hw.published hw.beyond hgrows⟩

theorem Written.further (h : Written maxFileSize sys full cur) : Further maxFileSize sys.dir full cur sys :=
  fun _ => ⟨full, cur, h, fun _ _ he => he, fun _ hr => hr⟩

/-- The offset that `append` returns. -/
theorem append_returns {w w' : MmapWriter} {p : Payload} {offset : Nat}
    (hrun : w.append d p = some (some offset, w', d')) :
    offset = globalOffset w'.currentFileIndex (w'.currentOffset - (8 + p.length)) := by
  unfold MmapWriter.append at hrun
  split at hrun
  · cases hrun
  · obtain ⟨⟨w₁, d₁⟩, -, hrun⟩ := Option.bind_eq_some_iff.mp hrun
    obtain ⟨hoffset, hrest⟩ := Prod.mk.inj (Option.some.inj hrun)
    obtain ⟨rfl, -⟩ := Prod.mk.inj hrest
    rw [← Option.some.inj hoffset, Nat.sub_sub, Nat.add_comm]

/-- The record that was appended last is where the writer's offset says. -/
theorem Written.last_begins {w : MmapWriter} {p : Payload} {ps : List Payload}
    (h : Written maxFileSize sys full cur) (hphase : sys.phase = .ready w)
    (happended : sys.appended = ps ++ [p]) (hoffset : 0 < w.currentOffset) :
    Begins full cur ps.length ⟨p, globalOffset w.currentFileIndex (w.currentOffset - (8 + p.length)),
      w.currentOffset - (8 + p.length)⟩ := by
  have hok := h.phase
  rw [hphase] at hok
  obtain ⟨-, f, off, -, rfl, htail⟩ := hok
  have hend : off = extent cur := by rw [htail.chain.extent_eq, Nat.zero_add]
  rcases List.eq_nil_or_concat cur with rfl | ⟨pre, q, rfl⟩
  · exact absurd hend (Nat.ne_of_gt hoffset)
  rw [List.concat_eq_append] at *
  have hall := happended.symm.trans h.appended
  rw [← List.append_assoc] at hall
  obtain ⟨hps, hq⟩ := List.append_inj' hall rfl
  obtain rfl : p = q := (List.cons.inj hq).1
  have hplace : off - (8 + p.length) = extent pre := by
    rw [hend, extent_snoc, Nat.add_sub_cancel]
  refine ⟨full.length, pre, [], last_getElem? full _, ?_, congrArg _ hplace, hplace⟩
  rw [List.take_left, hps, List.length_append]

end Records

/-! ## Runs -/

/-- What holds of a journal: its entries are where they say. -/
structure Log.Filed (maxFileSize : Nat) (log : Log) (full : List (List Payload)) (cur : List Payload) :
    Prop where
  written : Written maxFileSize log.sys full cur
  entries : ∀ n e, log.entries[n]? = some e → Begins full cur n e
  reader : ∀ r, log.reader = some r → r.On log.dir

section Runs

variable {maxFileSize : Nat} {log log' : Log} {full : List (List Payload)} {cur : List Payload}

/-- Files are only rolled forward. -/
theorem Log.Step.rolled_le (h : Log.Step maxFileSize log log') : log.rolled ≤ log'.rolled := by
  cases h with
  | append hwriter hp hrun =>
    dsimp only
    split
    · exact Nat.le_succ _
    · exact le_rfl
  | _ => exact le_rfl

/-- One step: each address handed out is that of its record. -/
theorem Log.Filed.step (h : log.Filed maxFileSize full cur) (hstep : Log.Step maxFileSize log log')
    (hsmall : log'.rolled < 2 ^ 32) : ∃ full' cur', log'.Filed maxFileSize full' cur' := by
  have hw := h.written
  cases hstep with
  | @start w d hwriter hrun =>
    have hphase : log.sys.phase = .down := by
      unfold Log.sys
      rw [hwriter]
      rfl
    have hfurther := (hw.further.step (.start hphase)).step (.started rfl hrun)
    obtain ⟨full', cur', hw', hbegins, hon⟩ := hfurther hsmall
    exact ⟨full', cur', hw', fun n e he => hbegins n e (h.entries n e he), fun r hr => hon r (h.reader r hr)⟩
  | @stop w hwriter =>
    have hphase : log.sys.phase = .ready w := by
      unfold Log.sys
      rw [hwriter]
      rfl
    obtain ⟨full', cur', hw', hbegins, hon⟩ := hw.further.step (.stop hphase) hsmall
    exact ⟨full', cur', hw', fun n e he => hbegins n e (h.entries n e he), fun r hr => hon r (h.reader r hr)⟩
  -- a record that is appended begins where the writer says, and the records before it where they did
  | @append w w' p offset d hwriter hp hrun =>
    have hphase : log.sys.phase = .ready w := by
      unfold Log.sys
      rw [hwriter]
      rfl
    obtain ⟨full', cur', hw', hbegins, hon⟩ := append_rule Further.step hw.further hphase hp hrun hsmall
    have hmoved : 0 < w'.currentOffset := @append_offset _ log.sys _ _ _ _ _ hp hrun
    have hlast := hw'.last_begins rfl rfl hmoved
    rw [← append_returns hrun, show log.sys.appended.length = log.entries.length from List.length_map ..]
      at hlast
    refine ⟨full', cur', ?_, fun n e he => ?_, fun r hr => hon r (h.reader r hr)⟩
    · have hsys : Log.sys { log with
          dir := d
          writer := some w'
          rolled := if w.rollsOver p.length then log.rolled + 1 else log.rolled
          entries := log.entries ++ [⟨p, offset, w'.currentOffset - (8 + p.length)⟩] } =
          { log.sys with
            dir := d
            phase := .ready w'
            rolled := if w.rollsOver p.length then log.sys.rolled + 1 else log.sys.rolled
            appended := log.sys.appended ++ [p] } := by
        unfold Log.sys
        dsimp only
        rw [List.map_append]
        rfl
      rw [hsys]
      exact hw'
    · dsimp only at he
      rcases Nat.lt_or_ge n log.entries.length with hlt | hge
      · rw [List.getElem?_append_left hlt] at he
        exact hbegins n e (h.entries n e he)
      · obtain ⟨rfl, rfl⟩ : n = log.entries.length ∧
            e = ⟨p, offset, w'.currentOffset - (8 + p.length)⟩ := by
          have hlt := (List.getElem?_eq_some_iff.mp he).1
          rw [List.length_append, List.length_singleton] at hlt
          obtain rfl : n = log.entries.length := by omega
          rw [List.getElem?_append_right le_rfl, Nat.sub_self] at he
          exact ⟨rfl, (Option.some.inj he).symm⟩
        exact hlast
  -- a reader moves from one record to the next
  | attach =>
    refine ⟨full, cur, hw, h.entries, fun r hr => ?_⟩
    obtain rfl := Option.some.inj hr
    exact MmapReader.On.openFile _ _ _
  | read hreader hrun =>
    refine ⟨full, cur, hw, h.entries, fun r' hr' => ?_⟩
    obtain rfl := Option.some.inj hr'
    exact (h.reader _ hreader).readNext hrun
  | seek hreader offset =>
    refine ⟨full, cur, hw, h.entries, fun r' hr' => ?_⟩
    obtain rfl := Option.some.inj hr'
    exact (h.reader _ hreader).seek offset

theorem Log.Run.filed (h : Log.Run maxFileSize log) (hsmall : log.rolled < 2 ^ 32) :
    ∃ full cur, log.Filed maxFileSize full cur := by
  induction h with
  | init =>
    refine ⟨[], [], (inv_init maxFileSize).written, fun n e he => ?_, fun r hr => ?_⟩
    · cases he
    · cases hr
  | step _ hstep ih =>
    obtain ⟨full, cur, hfiled⟩ := ih (Nat.lt_of_le_of_lt hstep.rolled_le hsmall)
    exact hfiled.step hstep hsmall

/-- The reader of a run has the size of its file. -/
theorem Log.Run.on (h : Log.Run maxFileSize log) (hsmall : log.rolled < 2 ^ 32) {r : MmapReader}
    (hr : log.reader = some r) : r.On log.dir := by
  obtain ⟨full, cur, hfiled⟩ := h.filed hsmall
  exact hfiled.reader r hr

/-- Wherever a reader is, `seek` takes it to the record that an offset was returned for, and from there
on it gets that record and those behind it, and then `false`. -/
theorem seek_finds_record (h : Log.Run maxFileSize log) (hsmall : log.rolled < 2 ^ 32) {i : Nat} {e : Entry}
    (he : log.entries[i]? = some e) (hplace : e.place < 2 ^ 32) {r : MmapReader} (hr : r.On log.dir)
    {fuel : Nat} (hfuel : log.rolled + 1 < fuel) : (r.seek log.dir e.offset).1 = true ∧
      Drains log.dir fuel (r.seek log.dir e.offset).2 ((log.entries.map Entry.payload).drop i) := by
  obtain ⟨full, cur, hfiled⟩ := h.filed hsmall
  have hw := hfiled.written
  have hrolled : log.rolled = full.length := hw.rolled
  obtain ⟨k, pre, post, hrecs, rfl, hoffset, hpre⟩ := hfiled.entries i e he
  obtain ⟨f, hf, hsize, hchain, hroom⟩ := hw.published.holds hrecs (by simp)
  obtain ⟨mid, hbefore, hbehind⟩ := hchain.split
  obtain rfl : mid = extent pre := by rw [hbefore.extent_eq, Nat.zero_add]
  have hle := hbehind.le
  have hk : k ≤ full.length := by
    have hlt := (List.getElem?_eq_some_iff.mp hrecs).1
    rw [List.length_append, List.length_singleton] at hlt
    omega
  -- the two halves of the offset
  rw [hpre] at hplace
  rw [hoffset, globalOffset_eq hplace]
  have hhigh : (k * 2 ^ 32 + extent pre) >>> 32 = k := by
    rw [Nat.shiftRight_eq_div_pow]
    omega
  have hlow : (k * 2 ^ 32 + extent pre) % 2 ^ 32 = extent pre := by omega
  have hpos : 0 < maxFileSize := by omega
  rw [hr.seek_to hf (by omega) hhigh (by omega), hlow, hsize]
  have hat := @At.reading maxFileSize log.dir full cur ⟨k, true, extent pre, maxFileSize⟩ pre
    (e.payload :: post) f rfl hrecs hf hsize hpos rfl hbefore
  refine ⟨rfl, hat.drains hw.published (hrolled ▸ hsmall) (hrolled ▸ hfuel) _ ?_⟩
  obtain ⟨more, hmore⟩ := hat.within
  have happended : log.entries.map Entry.payload = full.flatten ++ cur := hw.appended
  rw [happended, ← hmore, List.take_append_of_le_length hk, ← List.length_append, List.drop_left]

end Runs

/-! ## Where the halves of an offset end -/

section Samples

/-- Writing a record keeps the size of its file. -/
theorem lookup_recorded {d : Dir} {index off : Nat} {p : Payload} {f : File} (hf : d.lookup index = some f) :
    ∃ f', (d.recorded index off p).lookup index = some f' ∧ f'.size = f.size :=
  ⟨_, Dir.lookup_edit (Dir.lookup_edit (Dir.lookup_edit hf)), rfl⟩

/-- The journal of `n + 1` records of one byte in as many files. -/
theorem log_bytes (n : Nat) : ∃ log, Log.Run 17 log ∧ log.writer = some ⟨17, n % 2 ^ 32, 9⟩ ∧
    log.reader = none ∧ log.rolled = n ∧ log.entries.map Entry.payload = List.replicate (n + 1) [0] ∧
    log.entries[0]? = some ⟨[0], 0, 0⟩ := by
  induction n with
  | zero =>
    have hcreate : MmapWriter.create 17 ∅ = some (⟨17, 0, 0⟩, (Dir.create ∅ 0).truncate 0 17) := by
      show MmapWriter.sizeFile ⟨17, 0, 0⟩ (Dir.create ∅ 0) 0 = _
      unfold MmapWriter.sizeFile
      rw [if_neg (by decide)]
    have hroll : (⟨17, 0, 0⟩ : MmapWriter).rollsOver [(0 : UInt8)].length = false := by
      rw [← Bool.not_eq_true, rollsOver_iff (fits_byte 0) (by decide)]
      decide
    have happend := append_of_room (d := (Dir.create ∅ 0).truncate 0 17) (fits_byte 0).pos
      (fits_byte 0).lt (makeRoom_stay hroll)
    refine ⟨_, (Log.Run.init.step (.start rfl hcreate)).step (.append rfl (fits_byte 0) happend), rfl, rfl,
      ?_, rfl, rfl⟩
    dsimp only
    rw [hroll]
    rfl
  | succ n ih =>
    obtain ⟨log, h, hwriter, hreader, hrolled, hpayloads, hfirst⟩ := ih
    refine ⟨_, h.step (.append hwriter (fits_byte 0) (append_byte log.dir (n % 2 ^ 32) 0)), ?_, hreader, ?_,
      ?_, ?_⟩
    · dsimp only
      unfold nextIndex
      rw [Nat.mod_add_mod]
      rfl
    · dsimp only
      rw [if_pos (rollsOver_byte _ 0), hrolled]
    · dsimp only
      rw [List.map_append, hpayloads, @List.replicate_succ' (n + 1)]
      rfl
    · dsimp only
      rw [List.getElem?_append_left (List.getElem?_eq_some_iff.mp hfirst).1, hfirst]

/-- Three files, and a reader that has not found the next one. -/
theorem sample_seek : ∃ log : Log, ∃ r : MmapReader, Log.Run 17 log ∧ log.rolled = 2 ∧ r.mapped = false ∧
    r.currentFileIndex = 7 ∧ (r.seek log.dir 0).1 = true ∧
    Drains log.dir 4 (r.seek log.dir 0).2 [[0], [0], [0]] := by
  obtain ⟨log, h, -, -, hrolled, hpayloads, hfirst⟩ := log_bytes 2
  let r : MmapReader := ⟨7, false, 9, 17⟩
  have hr : r.On log.dir := fun hmapped => by cases hmapped
  obtain ⟨hfound, hdrains⟩ := @seek_finds_record 17 log h (by omega) 0 _ hfirst (by decide) r hr 4 (by omega)
  rw [hpayloads] at hdrains
  exact ⟨log, r, h, hrolled, rfl, rfl, hfound, hdrains⟩

/-- In a file of `2^32 + 24` bytes the second of two records can begin at byte `2^32`: its offset is that
of a file that is not there. -/
theorem far_record_not_found : ¬ ∀ (maxFileSize : Nat) (log : Log), Log.Run maxFileSize log →
    log.rolled < 2 ^ 32 → ∀ (i : Nat) (e : Entry), log.entries[i]? = some e → ∀ r : MmapReader,
      r.On log.dir → ∀ fuel, log.rolled + 1 < fuel → (r.seek log.dir e.offset).1 = true ∧
        Drains log.dir fuel (r.seek log.dir e.offset).2 ((log.entries.map Entry.payload).drop i) := by
  intro hall
  obtain ⟨p, hp⟩ : ∃ p : Payload, p.length = 2 ^ 32 - 8 := ⟨List.replicate _ 0, List.length_replicate ..⟩
  obtain ⟨q, hq⟩ : ∃ q : Payload, q.length = 8 := ⟨List.replicate 8 0, rfl⟩
  have hfits : Fits (2 ^ 32 + 24) p ∧ Fits (2 ^ 32 + 24) q := by
    constructor
    · exact ⟨by omega, by omega, by rw [hp]; decide⟩
    · exact ⟨by omega, by omega, by rw [hq]; decide⟩
  have hcreate : MmapWriter.create (2 ^ 32 + 24) ∅ =
      some (⟨2 ^ 32 + 24, 0, 0⟩, (Dir.create ∅ 0).truncate 0 (2 ^ 32 + 24)) := by
    show MmapWriter.sizeFile ⟨2 ^ 32 + 24, 0, 0⟩ (Dir.create ∅ 0) 0 = _
    unfold MmapWriter.sizeFile
    rw [if_neg (by decide)]
  have hfirst : (⟨2 ^ 32 + 24, 0, 0⟩ : MmapWriter).rollsOver p.length = false := by
    rw [← Bool.not_eq_true, rollsOver_iff hfits.1 (by decide)]
    omega
  have hsecond : (⟨2 ^ 32 + 24, 0, 0 + (8 + p.length)⟩ : MmapWriter).rollsOver q.length = false := by
    rw [← Bool.not_eq_true, rollsOver_iff hfits.2 (by decide)]
    omega
  have hrun := ((Log.Run.init.step (.start rfl hcreate)).step
    (.append rfl hfits.1 (append_of_room hfits.1.pos hfits.1.lt (makeRoom_stay hfirst)))).step
      (.append rfl hfits.2 (append_of_room hfits.2.pos hfits.2.lt (makeRoom_stay hsecond)))
  dsimp only at hrun
  rw [hfirst, hsecond] at hrun
  generalize hdir : Dir.recorded _ _ _ q = d at hrun
  -- nothing has rolled over, so there is one file
  obtain ⟨full, cur, hfiled⟩ := hrun.filed (show 0 < 2 ^ 32 by decide)
  have hnone : d.lookup 1 = none := by
    refine hfiled.written.beyond 1 ?_
    rw [← hfiled.written.rolled]
    exact Nat.one_pos
  have hoffset : globalOffset 0 (0 + (8 + p.length)) = 2 ^ 32 := by
    rw [hp]
    decide
  let r : MmapReader := ⟨0, false, 0, 0⟩
  have hfound := (hall _ _ hrun (show 0 < 2 ^ 32 by decide) 1 _ rfl r (fun hmapped => by cases hmapped) 2
    (show 1 < 2 by decide)).1
  dsimp only at hfound
  rw [hoffset] at hfound
  have hopen : r.openFile d 1 = ⟨1, false, 0, 0⟩ := by
    unfold MmapReader.openFile
    rw [hnone]
  have hlost : (r.seek d (2 ^ 32)).1 = false := by
    unfold MmapReader.seek
    dsimp only
    rw [show 2 ^ 32 >>> 32 = 1 from rfl, if_pos (Or.inr (by decide)), hopen]
    rfl
  rw [hlost] at hfound
  cases hfound

/-- After `2^32` files the first one is written anew, and its old records cannot be found. -/
theorem overwritten_record_not_found : ¬ ∀ (maxFileSize : Nat) (log : Log), Log.Run maxFileSize log →
    ∀ (i : Nat) (e : Entry), log.entries[i]? = some e → e.place < 2 ^ 32 → ∀ r : MmapReader,
      r.On log.dir → ∀ fuel, log.rolled + 1 < fuel → (r.seek log.dir e.offset).1 = true ∧
        Drains log.dir fuel (r.seek log.dir e.offset).2 ((log.entries.map Entry.payload).drop i) := by
  intro hall
  obtain ⟨n, hn⟩ : ∃ n, n + 1 = 2 ^ 32 := ⟨2 ^ 32 - 1, rfl⟩
  obtain ⟨log, h, hwriter, -, hrolled, hpayloads, hfirst⟩ := log_bytes n
  have hindex : nextIndex (n % 2 ^ 32) = 0 := by
    unfold nextIndex
    omega
  have happend := append_byte log.dir (n % 2 ^ 32) 1
  rw [hindex] at happend
  have hrun := h.step (.append hwriter (fits_byte 1) happend)
  rw [if_pos (rollsOver_byte _ 1)] at hrun
  obtain ⟨f, hf, hsize⟩ : ∃ f, (((MmapWriter.markEof ⟨17, n % 2 ^ 32, 9⟩ log.dir).create 0).truncate 0
      17).lookup 0 = some f ∧ f.size = 17 := by
    cases hold : (MmapWriter.markEof ⟨17, n % 2 ^ 32, 9⟩ log.dir).lookup 0 with
    | none => exact ⟨_, Dir.lookup_truncate (Dir.lookup_create hold), rfl⟩
    | some f =>
      rw [Dir.create_eq hold]
      exact ⟨_, Dir.lookup_truncate hold, rfl⟩
  obtain ⟨r', hread⟩ := read_recorded hf hsize 1
  obtain ⟨f', hf', hsize'⟩ := @lookup_recorded _ 0 0 [1] f hf
  generalize hdir : Dir.recorded _ 0 0 [1] = d at hrun hread hf'
  -- a reader at the start of the file gets the new record
  have hcreate : MmapReader.create d = ⟨0, true, 0, f'.size⟩ := by
    unfold MmapReader.create MmapReader.openFile
    rw [hf']
    exact if_neg (by omega)
  have hon : (MmapReader.create d).On d := MmapReader.On.openFile _ _ _
  have hseek := @MmapReader.On.seek_to _ _ hon 0 0 f' hf' (by omega) rfl (Nat.zero_le _)
  have hentry : (log.entries ++ [⟨[1], globalOffset 0 0, 0 + (8 + [(1 : UInt8)].length) -
      (8 + [(1 : UInt8)].length)⟩])[0]? = some ⟨[0], 0, 0⟩ := by
    rw [List.getElem?_append_left (List.getElem?_eq_some_iff.mp hfirst).1, hfirst]
  have hfuel : log.rolled + 1 + 1 < 1 + (log.rolled + 2) := by omega
  have hplace : (⟨[0], 0, 0⟩ : Entry).place < 2 ^ 32 := show 0 < 2 ^ 32 by decide
  have hdrains := (hall 17 _ hrun 0 ⟨[0], 0, 0⟩ hentry hplace _ hon (1 + (log.rolled + 2)) hfuel).2
  dsimp only at hdrains
  rw [hseek, Nat.zero_mod, ← hcreate, List.drop_zero, List.map_append, hpayloads, List.replicate_succ] at hdrains
  obtain ⟨r'', hold, -⟩ := hdrains
  have hnew := readNext_mono (log.rolled + 2) hread
  have hsame := Option.some.inj (hold.symm.trans hnew)
  revert hsame
  simp

end Samples

end Exchange.MmapLog
