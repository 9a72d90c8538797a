import Mathlib.Data.List.Sort
import Exchange.Database.Model
import Exchange.Ipc.MmapLog

/-!
# Missed responses

`ClientDatabase::start_polling` reads the execution journal and files each record under
its client, with a sequence number and an offset of the journal; `getResponsesSince`
goes back to these offsets. The offset is the one `get_offset` returns once the record
has been read, so it is the place behind the record.

The journal is whatever the writer has made of the directory at the time of each call.
`OrderResponseT` is generated code: its size and its layout are a parameter.
-/

namespace Exchange

open MmapLog Lib

/-- `OrderResponseT` as it lies in memory. -/
structure ResponseLayout where
  /-- `sizeof(OrderResponseT)`. -/
  size : Nat
  /-- What the bytes are read as. -/
  decode : List UInt8 → OrderResponse

/-- `reinterpret_cast<const OrderResponseT*>(data)`, for the record of length `len` that
`read_next` has just returned. -/
def ResponseLayout.cast (l : ResponseLayout) (d : Dir) (r : MmapReader) (len : Nat) : OrderResponse :=
  l.decode ((d.bytes r.currentFileIndex).slice (r.currentOffset - len) l.size)

namespace InMemoryClientDatabase

/-- `log_offsets_[client_id][seq]`, where there is one. -/
def logOffset (db : InMemoryClientDatabase) (clientId : UInt32) (seq : Nat) : Option Nat :=
  (db.logOffsets.lookup clientId).bind fun offsets => offsets.lookup seq

/-- The body of the loop of `getResponsesSince`. -/
def fetch (l : ResponseLayout) (d : Dir) (fuel ackSeqNum : Nat) (acc : MmapReader × List OrderResponse)
    (entry : Nat × Nat) : Option (MmapReader × List OrderResponse) :=
  if ackSeqNum < entry.1 then
    match acc.1.seek d entry.2 with
    | (false, r) => some (r, acc.2)
    | (true, r) => do
      match ← r.readNext d fuel with
      | (none, r) => some (r, acc.2)
      | (some data, r) => some (r, acc.2 ++ [l.cast d r data.length])
  else some acc

/-- A `std::map` from its least key on. -/
def ascending (offsets : AList (fun _ : Nat => Nat)) : List (Nat × Nat) :=
  (offsets.keys.insertionSort (· ≤ ·)).filterMap fun seq => (offsets.lookup seq).map (seq, ·)

/-- `getResponsesSince`; none where `read_next` needs more than `fuel` calls. -/
def getResponsesSince (l : ResponseLayout) (d : Dir) (fuel : Nat) (db : InMemoryClientDatabase)
    (clientId : UInt32) (ackSeqNum : Nat) : Option (List OrderResponse) :=
  match db.logOffsets.lookup clientId with
  | none => some []
  | some offsets =>
    ((ascending offsets).foldlM (fetch l d fuel ackSeqNum) (.create d, [])).map (·.2)

end InMemoryClientDatabase

/-- A record that was processed: its response, the number it was given, and where in the
journal it ends. -/
structure Processed where
  payload : Payload
  resp : OrderResponse
  seq : Nat
  file : Nat
  stop : Nat

/-- The polling thread's reader and the database, with what was processed. -/
structure Polling where
  reader : Option MmapReader
  db : InMemoryClientDatabase
  processed : List Processed

namespace Polling

/-- The start of the thread: it resumes where the last record ended. -/
def startReader (d : Dir) (savedOffset : Nat) : MmapReader :=
  if savedOffset ≠ 0 then ((MmapReader.create d).seek d savedOffset).2 else .create d

/-- The body of the loop, once `read_next` has returned. -/
def handle (l : ResponseLayout) (d : Dir) (st : Polling) : Option Payload × MmapReader → Polling
  | (none, r) => { st with reader := some r }
  | (some data, r) =>
    if l.size ≤ data.length then
      let resp := l.cast d r data.length
      { reader := some r
        db := st.db.updateOnExecution resp r.getOffset
        processed := st.processed ++
          [⟨data, resp, st.db.getClientOSeqNum resp.clientId + 1, r.currentFileIndex, r.currentOffset⟩] }
    else { st with reader := some r }

end Polling

/-- No file is larger than an `off_t` can say. -/
def MmapLog.Dir.Sized (d : Dir) : Prop := ∀ i f, d.lookup i = some f → f.size < 2 ^ 63

/-- The states of the polling loop. Between any two of its calls the journal may have
become another one. -/
inductive Polls (l : ResponseLayout) : Polling → Prop
  | init : Polls l ⟨none, .empty, []⟩
  | start {st : Polling} (h : Polls l st) (d : Dir) (hsized : d.Sized) (hstopped : st.reader = none) :
      Polls l { st with reader := some (Polling.startReader d st.db.lastLogOffset) }
  | poll {st : Polling} (h : Polls l st) (d : Dir) (hsized : d.Sized) {r : MmapReader} {fuel : Nat}
      {res : Option Payload × MmapReader} (hreader : st.reader = some r)
      (hrun : r.readNext d fuel = some res) : Polls l (st.handle l d res)
  | stop {st : Polling} (h : Polls l st) : Polls l { st with reader := none }

/-- `seek` to the offset and `read_next` yield this very record. -/
def Yields (d : Dir) (offset : Nat) (x : Processed) : Prop :=
  ((MmapReader.create d).seek d offset).1 = true ∧
    ∃ fuel r, ((MmapReader.create d).seek d offset).2.readNext d fuel = some (some x.payload, r) ∧
      r.currentFileIndex = x.file ∧ r.currentOffset = x.stop

/-- What the offsets are for: each leads to its record, and every client gets its own
responses, those it has not seen, in order. -/
structure Polling.Right (l : ResponseLayout) (d : Dir) (st : Polling) : Prop where
  offsets : ∀ x ∈ st.processed, ∃ offset, st.db.logOffset x.resp.clientId x.seq = some offset ∧
    Yields d offset x
  responses : ∀ clientId ackSeqNum, ∃ fuel,
    st.db.getResponsesSince l d fuel clientId ackSeqNum = some ((st.processed.filter fun x =>
      x.resp.clientId = clientId ∧ ackSeqNum < x.seq).map (·.resp))

/-! ## Where a reader can be -/

namespace MmapLog

/-- The place behind a record of length `len`, as a reader comes to it. -/
structure Behind (r : MmapReader) (len : Nat) : Prop where
  header : 8 + len ≤ r.currentOffset
  bounded : r.currentOffset < 2 ^ 64
  length : len < 2 ^ 32

/-- The file of a reader has an index of 32 bits and a size that an `off_t` can say. -/
structure MmapReader.Small (r : MmapReader) : Prop where
  index : r.currentFileIndex < 2 ^ 32
  size : r.fileSize < 2 ^ 63

namespace MmapReader

variable {r r' : MmapReader} {d : Dir} {i fuel offset : Nat}

/-- Opening a file leaves the reader inside it. -/
theorem Small.openFile (h : r.Small) (hsized : d.Sized) (hi : i < 2 ^ 32) : (r.openFile d i).Small := by
  refine ⟨by rw [openFile_index]; exact hi, ?_⟩
  unfold MmapReader.openFile
  split
  · exact h.size
  · rename_i f hf
    split
    · show 0 < 2 ^ 63
      decide
    · exact hsized i f hf

theorem small_create (hsized : d.Sized) : (create d).Small :=
  Small.openFile ⟨by decide, by decide⟩ hsized (by decide)

/-- The file that `seek` goes to, which it may have open already. -/
theorem seek_eq (r : MmapReader) (d : Dir) (offset : Nat) : ∃ r₁ : MmapReader,
    (r₁ = r.openFile d (offset >>> 32) ∨ (r₁ = r ∧ offset >>> 32 = r.currentFileIndex)) ∧
      r.seek d offset =
        (if ¬ r₁.mapped then (false, r₁)
        else if r₁.fileSize < offset % 2 ^ 32 then (false, r₁)
        else (true, { r₁ with currentOffset := offset % 2 ^ 32 })) := by
  by_cases hopen : offset >>> 32 ≠ r.currentFileIndex ∨ ¬ r.mapped
  · refine ⟨r.openFile d (offset >>> 32), Or.inl rfl, ?_⟩
    unfold MmapReader.seek
    dsimp only
    rw [if_pos hopen]
  · refine ⟨r, Or.inr ⟨rfl, ?_⟩, ?_⟩
    · by_contra hne
      exact hopen (Or.inl hne)
    · unfold MmapReader.seek
      dsimp only
      rw [if_neg hopen]

theorem Small.seek (h : r.Small) (hsized : d.Sized) (hoffset : offset < 2 ^ 64) :
    (r.seek d offset).2.Small := by
  have hfile : offset >>> 32 < 2 ^ 32 := by
    rw [Nat.shiftRight_eq_div_pow]
    omega
  obtain ⟨r₁, hfrom, hseek⟩ := r.seek_eq d offset
  have hsmall : r₁.Small := by
    rcases hfrom with rfl | ⟨rfl, -⟩
    · exact h.openFile hsized hfile
    · exact h
  rw [hseek]
  split
  · exact hsmall
  · split
    · exact hsmall
    · exact ⟨hsmall.index, hsmall.size⟩

theorem Small.retry (h : r.Small) (hsized : d.Sized) : (r.retry d).Small := by
  unfold MmapReader.retry
  split
  · exact h
  · exact h.openFile hsized h.index

/-- What `read_next` leaves behind. -/
theorem Small.readNext (hsized : d.Sized) : ∀ {fuel : Nat} {r : MmapReader}
    {res : Option Payload × MmapReader}, r.Small → r.readNext d fuel = some res →
      res.2.Small ∧ ∀ p, res.1 = some p → Behind res.2 p.length
  | 0, _, _, _, hrun => by cases hrun
  | fuel + 1, r, res, h, hrun => by
    have hretry := h.retry hsized
    rw [MmapReader.readNext] at hrun
    dsimp only at hrun
    split at hrun
    · cases hrun
      exact ⟨hretry, fun _ hp => by cases hp⟩
    split at hrun
    · cases hrun
      exact ⟨hretry, fun _ hp => by cases hp⟩
    rename_i hroom
    split at hrun
    · cases hrun
      exact ⟨hretry, fun _ hp => by cases hp⟩
    split at hrun
    · have hnext : nextIndex (r.retry d).currentFileIndex < 2 ^ 32 := Nat.mod_lt _ (by decide)
      exact Small.readNext hsized (hretry.openFile hsized hnext) hrun
    · cases hrun
      refine ⟨⟨hretry.index, hretry.size⟩, fun p hp => ?_⟩
      cases hp
      have hlen := Bytes.load32_lt (d.bytes (r.retry d).currentFileIndex)
        ((r.retry d).currentOffset + 4)
      have hsize := hretry.size
      rw [Bytes.length_slice]
      exact ⟨Nat.le_add_left _ _, by dsimp only; omega, hlen⟩

/-- An open file is one of the directory. -/
def In (d : Dir) (r : MmapReader) : Prop := r.mapped = true → d.lookup r.currentFileIndex ≠ none

theorem in_openFile (r : MmapReader) (d : Dir) (i : Nat) : (r.openFile d i).In d := by
  intro hmapped hnone
  rw [openFile_index] at hnone
  unfold MmapReader.openFile at hmapped
  rw [hnone] at hmapped
  cases hmapped

theorem In.retry (h : r.In d) : (r.retry d).In d := by
  unfold MmapReader.retry
  split
  · exact h
  · exact in_openFile _ _ _

/-- `read_next` reads in the file it is in, or goes on to a later one: with the last
index unused the indices do not start over. -/
theorem readNext_ahead (hlast : d.lookup (2 ^ 32 - 1) = none) : ∀ {fuel : Nat} {r r' : MmapReader}
    {p : Payload}, r.currentFileIndex < 2 ^ 32 → r.In d → r.readNext d fuel = some (some p, r') →
      (r'.currentFileIndex = r.currentFileIndex ∧
        r'.currentOffset = (r.retry d).currentOffset + (8 + p.length)) ∨
      r.currentFileIndex < r'.currentFileIndex
  | 0, _, _, _, _, _, hrun => by cases hrun
  | fuel + 1, r, r', p, hindex, hin, hrun => by
    have hsame : (r.retry d).currentFileIndex = r.currentFileIndex := by
      unfold MmapReader.retry
      split
      · rfl
      · exact openFile_index ..
    have hin' := hin.retry
    rw [MmapReader.readNext] at hrun
    dsimp only at hrun
    split at hrun
    · cases hrun
    rename_i hmapped
    split at hrun
    · cases hrun
    split at hrun
    · cases hrun
    split at hrun
    · -- the file that is open is there, so it is not the last one there can be
      have hmapped : (r.retry d).mapped = true := not_not.mp hmapped
      have hne : (r.retry d).currentFileIndex ≠ 2 ^ 32 - 1 := by
        intro heq
        exact hin' hmapped (by rw [heq]; exact hlast)
      have hnext : nextIndex (r.retry d).currentFileIndex = r.currentFileIndex + 1 := by
        unfold nextIndex
        rw [hsame] at hne ⊢
        omega
      rw [hnext] at hrun
      have hopen : (MmapReader.openFile (r.retry d) d (r.currentFileIndex + 1)).currentFileIndex =
          r.currentFileIndex + 1 := openFile_index ..
      have hlt : r.currentFileIndex + 1 < 2 ^ 32 := by
        rw [hsame] at hne
        omega
      rcases readNext_ahead hlast (by rw [hopen]; exact hlt) (in_openFile _ _ _) hrun with h | h
      · exact Or.inr (by omega)
      · exact Or.inr (by omega)
    · cases hrun
      refine Or.inl ⟨hsame, ?_⟩
      rw [Bytes.length_slice]

/-- A `seek` that succeeds. -/
theorem seek_true (h : r.In d) (hseek : (r.seek d offset).1 = true) :
    (r.seek d offset).2.currentFileIndex = offset >>> 32 ∧
      (r.seek d offset).2.currentOffset = offset % 2 ^ 32 ∧
      (r.seek d offset).2.mapped = true ∧ (r.seek d offset).2.In d := by
  obtain ⟨r₁, hfrom, heq⟩ := r.seek_eq d offset
  have hfile : r₁.currentFileIndex = offset >>> 32 ∧ r₁.In d := by
    rcases hfrom with rfl | ⟨rfl, hfile⟩
    · exact ⟨openFile_index .., in_openFile _ _ _⟩
    · exact ⟨hfile.symm, h⟩
  rw [heq] at hseek ⊢
  split at hseek
  · cases hseek
  rename_i hmapped
  rw [if_neg hmapped]
  split at hseek
  · cases hseek
  rename_i hroom
  rw [if_neg hroom]
  exact ⟨hfile.1, rfl, not_not.mp hmapped, hfile.2⟩

end MmapReader

theorem globalOffset_file (file stop : Nat) : globalOffset file stop >>> 32 = file ||| stop >>> 32 := by
  unfold globalOffset
  rw [Nat.shiftRight_or_distrib, Nat.shiftLeft_shiftRight]

theorem globalOffset_place (file stop : Nat) : globalOffset file stop % 2 ^ 32 = stop % 2 ^ 32 := by
  unfold globalOffset
  rw [Nat.or_mod_two_pow, Nat.shiftLeft_eq, Nat.mul_mod_left, Nat.zero_or]

theorem globalOffset_lt {file stop : Nat} (hfile : file < 2 ^ 32) (hstop : stop < 2 ^ 64) :
    globalOffset file stop < 2 ^ 64 := by
  refine Nat.or_lt_two_pow ?_ hstop
  rw [Nat.shiftLeft_eq]
  omega

end MmapLog

/-- The offset of a record does not lead back to it. -/
theorem not_yields {d : Dir} (hlast : d.lookup (2 ^ 32 - 1) = none) {x : Processed}
    (hfile : x.file < 2 ^ 32) (hbounded : x.stop < 2 ^ 64) (hheader : 8 + x.payload.length ≤ x.stop)
    (hlen : x.payload.length < 2 ^ 32) (hlap : x.payload.length ≠ 2 ^ 32 - 8) :
    ¬ Yields d (globalOffset x.file x.stop) x := by
  rintro ⟨hseek, fuel, r, hrun, hindex, hoffset⟩
  obtain ⟨hat, hplace, hmapped, hin⟩ := MmapReader.seek_true (MmapReader.in_openFile _ _ _) hseek
  rw [globalOffset_file] at hat
  rw [globalOffset_place] at hplace
  have hle : x.file ≤ x.file ||| x.stop >>> 32 := Nat.left_le_or
  have hlt : x.file ||| x.stop >>> 32 < 2 ^ 32 := by
    refine Nat.or_lt_two_pow hfile ?_
    rw [Nat.shiftRight_eq_div_pow]
    omega
  rcases MmapReader.readNext_ahead hlast (by rw [hat]; exact hlt) hin hrun with ⟨-, hend⟩ | hlater
  · -- the same file: the record found begins behind the processed one, or at its low bits
    have hretry : ∀ r : MmapReader, r.mapped = true → r.retry d = r := fun r hr => if_pos hr
    rw [hretry _ hmapped, hplace, hoffset] at hend
    omega
  · omega

namespace InMemoryClientDatabase

variable (db : InMemoryClientDatabase) (resp : OrderResponse) (logOffset : Nat)

theorem oSeqNums_updateOpenOrders : (db.updateOpenOrders resp).oSeqNums = db.oSeqNums := by
  unfold updateOpenOrders
  split
  · rfl
  · split
    · split <;> rfl
    · rfl

theorem logOffsets_updateOpenOrders : (db.updateOpenOrders resp).logOffsets = db.logOffsets := by
  unfold updateOpenOrders
  split
  · rfl
  · split
    · split <;> rfl
    · rfl

theorem oSeqNums_updateOnExecution : (db.updateOnExecution resp logOffset).oSeqNums =
    db.oSeqNums.insert resp.clientId (db.getClientOSeqNum resp.clientId + 1) := by
  unfold updateOnExecution setLogOffset
  dsimp only
  rw [oSeqNums_updateOpenOrders]
  split <;> rfl

theorem logOffsets_updateOnExecution : (db.updateOnExecution resp logOffset).logOffsets =
    db.logOffsets.insert resp.clientId (((db.logOffsets.lookup resp.clientId).getD ∅).insert
      (db.getClientOSeqNum resp.clientId + 1) logOffset) := by
  unfold updateOnExecution setLogOffset
  dsimp only
  rw [logOffsets_updateOpenOrders]
  split <;> rfl

theorem getClientOSeqNum_updateOnExecution (clientId : UInt32) :
    (db.updateOnExecution resp logOffset).getClientOSeqNum clientId =
      if clientId = resp.clientId then db.getClientOSeqNum clientId + 1
      else db.getClientOSeqNum clientId := by
  unfold getClientOSeqNum
  rw [oSeqNums_updateOnExecution]
  split
  · rename_i heq
    rw [heq, AList.lookup_insert]
    rfl
  · rename_i hne
    rw [AList.lookup_insert_ne hne]

/-- The record is filed under its number. -/
theorem logOffset_updateOnExecution : (db.updateOnExecution resp logOffset).logOffset resp.clientId
    (db.getClientOSeqNum resp.clientId + 1) = some logOffset := by
  unfold InMemoryClientDatabase.logOffset
  rw [logOffsets_updateOnExecution, AList.lookup_insert]
  exact AList.lookup_insert _

/-- And everything else stays where it was. -/
theorem logOffset_updateOnExecution_ne {clientId : UInt32} {seq : Nat}
    (hne : clientId = resp.clientId → seq ≠ db.getClientOSeqNum resp.clientId + 1) :
    (db.updateOnExecution resp logOffset).logOffset clientId seq = db.logOffset clientId seq := by
  unfold InMemoryClientDatabase.logOffset
  rw [logOffsets_updateOnExecution]
  by_cases heq : clientId = resp.clientId
  · subst heq
    rw [AList.lookup_insert, Option.bind_some, AList.lookup_insert_ne (hne rfl)]
    cases db.logOffsets.lookup resp.clientId with
    | none => rfl
    | some offsets => rfl
  · rw [AList.lookup_insert_ne heq]

end InMemoryClientDatabase

/-- A record that the loop has processed. -/
structure Polling.Filed (st : Polling) (x : Processed) : Prop where
  offset : st.db.logOffset x.resp.clientId x.seq = some (globalOffset x.file x.stop)
  seq : x.seq ≤ st.db.getClientOSeqNum x.resp.clientId
  file : x.file < 2 ^ 32
  bounded : x.stop < 2 ^ 64
  header : 8 + x.payload.length ≤ x.stop
  length : x.payload.length < 2 ^ 32

/-- What holds of the polling thread and its database. -/
structure Polling.Ok (st : Polling) : Prop where
  reader : ∀ r, st.reader = some r → r.Small
  saved : st.db.lastLogOffset < 2 ^ 64
  filed : ∀ x ∈ st.processed, st.Filed x
  unfiled : st.processed = [] → st.db.logOffsets = ∅

namespace Polling.Ok

variable {l : ResponseLayout} {st : Polling} {d : Dir}

/-- Only the reader changes. -/
theorem with_reader (h : st.Ok) {reader : Option MmapReader}
    (hreader : ∀ r, reader = some r → r.Small) : Polling.Ok { st with reader := reader } where
  reader := hreader
  saved := h.saved
  filed x hx := by
    have hfiled := h.filed x hx
    exact ⟨hfiled.offset, hfiled.seq, hfiled.file, hfiled.bounded, hfiled.header, hfiled.length⟩
  unfiled := h.unfiled

theorem start (h : st.Ok) (hsized : d.Sized) :
    Polling.Ok { st with reader := some (startReader d st.db.lastLogOffset) } := by
  refine h.with_reader fun r hr => ?_
  obtain rfl := Option.some.inj hr
  unfold startReader
  split
  · exact (MmapReader.small_create hsized).seek hsized h.saved
  · exact MmapReader.small_create hsized

theorem handle (h : st.Ok) {res : Option Payload × MmapReader} (hsmall : res.2.Small)
    (hbehind : ∀ p, res.1 = some p → Behind res.2 p.length) : (st.handle l d res).Ok := by
  have hreader : ∀ r, some res.2 = some r → r.Small := by
    intro r hr
    obtain rfl := Option.some.inj hr
    exact hsmall
  obtain ⟨res, r⟩ := res
  cases res with
  | none => exact h.with_reader hreader
  | some data =>
    unfold Polling.handle
    dsimp only
    split
    · have hplace := hbehind data rfl
      refine ⟨hreader, globalOffset_lt hsmall.index hplace.bounded, fun x hx => ?_, fun hnil => ?_⟩
      · rcases List.mem_append.mp hx with hx | hx
        · -- an earlier number
          have hfiled := h.filed x hx
          have hseq := hfiled.seq
          refine ⟨?_, ?_, hfiled.file, hfiled.bounded, hfiled.header, hfiled.length⟩
          · dsimp only
            rw [InMemoryClientDatabase.logOffset_updateOnExecution_ne]
            · exact hfiled.offset
            · intro heq
              rw [heq] at hseq
              omega
          · dsimp only
            rw [InMemoryClientDatabase.getClientOSeqNum_updateOnExecution]
            split <;> omega
        · rw [List.mem_singleton.mp hx]
          refine ⟨InMemoryClientDatabase.logOffset_updateOnExecution .., ?_, hsmall.index,
            hplace.bounded, hplace.header, hplace.length⟩
          dsimp only
          rw [InMemoryClientDatabase.getClientOSeqNum_updateOnExecution, if_pos rfl]
      · exact absurd hnil (List.append_ne_nil_of_right_ne_nil _ (List.cons_ne_nil _ _))
    · exact h.with_reader hreader

end Polling.Ok

theorem Polls.ok {l : ResponseLayout} {st : Polling} (h : Polls l st) : st.Ok := by
  induction h with
  | init =>
    refine ⟨fun r hr => ?_, Nat.two_pow_pos 64, fun _ hx => absurd hx List.not_mem_nil, fun _ => rfl⟩
    cases hr
  | start _ d hsized _ ih => exact ih.start hsized
  | poll _ d hsized hreader hrun ih =>
    obtain ⟨hsmall, hbehind⟩ := (ih.reader _ hreader).readNext hsized hrun
    exact ih.handle hsmall hbehind
  | stop _ ih => exact ih.with_reader fun _ hr => by cases hr

/-- One record is enough. -/
theorem Polls.not_right {l : ResponseLayout} {st : Polling} (h : Polls l st) {d : Dir}
    (hlast : d.lookup (2 ^ 32 - 1) = none) {x : Processed} (hx : x ∈ st.processed)
    (hlap : x.payload.length ≠ 2 ^ 32 - 8) : ¬ st.Right l d := by
  intro hright
  obtain ⟨offset, hoffset, hyields⟩ := hright.offsets x hx
  have hfiled := h.ok.filed x hx
  obtain rfl := Option.some.inj (hfiled.offset.symm.trans hoffset)
  exact not_yields hlast hfiled.file hfiled.bounded hfiled.header hfiled.length hlap hyields

/-- The offsets are right as long as there are none. The journal has not come to the last
index a file can have, and no record is exactly `2^32` bytes long with its header. -/
theorem missed_responses_right_iff {l : ResponseLayout} {st : Polling} (h : Polls l st) {d : Dir}
    (hlast : d.lookup (2 ^ 32 - 1) = none)
    (hlap : ∀ x ∈ st.processed, x.payload.length ≠ 2 ^ 32 - 8) :
    st.Right l d ↔ st.processed = [] := by
  constructor
  · intro hright
    refine List.eq_nil_iff_forall_not_mem.mpr fun x hx => ?_
    exact h.not_right hlast hx (hlap x hx) hright
  · intro hnil
    refine ⟨fun x hx => ?_, fun clientId ackSeqNum => ⟨0, ?_⟩⟩
    · rw [hnil] at hx
      exact absurd hx List.not_mem_nil
    · unfold InMemoryClientDatabase.getResponsesSince
      rw [h.ok.unfiled hnil, hnil]
      rfl

/-- `OrderResponseT` as the compiler lays it out, as far as the records below use it: the
enumerations are zero and the wide fields fit into 32 bits. -/
def sampleLayout : ResponseLayout where
  size := 64
  decode b :=
    let m : Bytes := fun i => b.getD i 0
    { execType := .new
      orderId := UInt32.ofNat (m.load32 4)
      clientId := UInt32.ofNat (m.load32 8)
      execId := m.load32 16
      symbolId := UInt32.ofNat (m.load32 24)
      side := .buy
      p := m.load32 32
      q := m.load32 40
      qRem := m.load32 48
      rejectCode := .none }

/-- A new order of one client. -/
def sampleRecord (clientId : UInt8) : Payload :=
  [0, 0, 0, 0, 1, 0, 0, 0, clientId, 0, 0, 0, 0, 0, 0, 0, 7, 0, 0, 0, 0, 0, 0, 0, 1, 0, 0, 0, 0, 0, 0, 0,
    100, 0, 0, 0, 0, 0, 0, 0, 5, 0, 0, 0, 0, 0, 0, 0, 5, 0, 0, 0, 0, 0, 0, 0, 0, 0, 0, 0, 0, 0, 0, 0]

/-- The journal after a record of client 1 and one of client 2. -/
def sampleJournal : Option Dir := do
  let (w, d) ← MmapWriter.create 4096 ∅
  let (_, w, d) ← w.append d (sampleRecord 1)
  let (_, _, d) ← w.append d (sampleRecord 2)
  some d

def sampleDir : Dir := sampleJournal.getD ∅

theorem sampleDir_lookup {i : Nat} (hi : i ≠ 0) : sampleDir.lookup i = none := by
  have hkeys : sampleDir.keys = [0] := rfl
  refine AList.lookup_eq_none.mpr fun hmem => ?_
  rw [AList.mem_keys, hkeys] at hmem
  exact hi (List.mem_singleton.mp hmem)

theorem sampleDir_sized : sampleDir.Sized := by
  intro i f hf
  by_cases hi : i = 0
  · subst hi
    have hsize : (sampleDir.lookup 0).map (·.size) = some 4096 := rfl
    rw [hf] at hsize
    have hsize : f.size = 4096 := Option.some.inj hsize
    omega
  · rw [sampleDir_lookup hi] at hf
    cases hf

/-- The loop reads both records, and the first client is handed the second one's. -/
theorem sampleDir_polls : ∃ st, Polls sampleLayout st ∧
    st.processed.map (fun x => (x.resp.clientId, x.seq, x.payload.length)) = [(1, 1, 64), (2, 1, 64)] ∧
    (st.db.getResponsesSince sampleLayout sampleDir 1 1 0).map (·.map (·.clientId)) = some [2] := by
  have hread₁ : MmapReader.readNext sampleDir 1 (Polling.startReader sampleDir 0) =
      some (some (sampleRecord 1), ⟨0, true, 72, 4096⟩) := by decide +kernel
  have hread₂ : MmapReader.readNext sampleDir 1 ⟨0, true, 72, 4096⟩ =
      some (some (sampleRecord 2), ⟨0, true, 144, 4096⟩) := by decide +kernel
  have hstart := (Polls.init (l := sampleLayout)).start sampleDir sampleDir_sized rfl
  have hfirst := hstart.poll sampleDir sampleDir_sized rfl hread₁
  have hsecond := hfirst.poll sampleDir sampleDir_sized rfl hread₂
  exact ⟨_, hsecond, by decide +kernel, by decide +kernel⟩

theorem sample_missed_responses : ∃ st, Polls sampleLayout st ∧
    st.processed.map (fun x => (x.resp.clientId, x.seq)) = [(1, 1), (2, 1)] ∧
    (st.Right sampleLayout sampleDir ↔ st.processed = []) := by
  obtain ⟨st, hpolls, hprocessed, -⟩ := sampleDir_polls
  have hlen : ∀ x ∈ st.processed, x.payload.length ≠ 2 ^ 32 - 8 := by
    intro x hx
    have hmem := List.mem_map_of_mem (f := fun x => (x.resp.clientId, x.seq, x.payload.length)) hx
    rw [hprocessed] at hmem
    simp only [List.mem_cons, Prod.mk.injEq, List.not_mem_nil, or_false] at hmem
    omega
  refine ⟨st, hpolls, ?_, missed_responses_right_iff hpolls (sampleDir_lookup (by decide)) hlen⟩
  have hnumbers := congrArg (List.map fun y : UInt32 × Nat × Nat => (y.1, y.2.1)) hprocessed
  rw [List.map_map] at hnumbers
  exact hnumbers

/-- Client 1 has one response and asks for it: it gets the one of client 2. -/
theorem response_of_another_client : ∃ st, Polls sampleLayout st ∧
    (st.processed.filter fun x => x.resp.clientId = 1).map (·.seq) = [1] ∧
    (st.db.getResponsesSince sampleLayout sampleDir 1 1 0).map (·.map (·.clientId)) = some [2] ∧
    ¬ st.Right sampleLayout sampleDir := by
  obtain ⟨st, hpolls, hprocessed, hresponses⟩ := sampleDir_polls
  obtain ⟨x, rest, hst, hx, hrest⟩ := List.map_eq_cons_iff.mp hprocessed
  obtain ⟨y, rest', rfl, hy, hnil⟩ := List.map_eq_cons_iff.mp hrest
  obtain rfl := List.map_eq_nil_iff.mp hnil
  simp only [Prod.mk.injEq] at hx hy
  refine ⟨st, hpolls, ?_, hresponses, ?_⟩
  · rw [hst]
    simp [hx.1, hx.2.1, hy.1]
  · refine hpolls.not_right (sampleDir_lookup (by decide)) (x := x) ?_ (by omega)
    rw [hst]
    exact List.mem_cons_self

end Exchange
