import Mathlib.Data.List.AList
import Exchange.Lib.Bytes

/-!
# The execution journal, as the code computes it

`src/mmap_log.cpp`. A directory holds `journal-0`, `journal-1` and so on, each mapped
into memory by the one writer and by any number of readers. A record is a header of
two words, `reserved_length` and `published_length`, and its payload; a published
length of zero says that nothing is written yet, `EOF_MARKER` that the journal goes
on in the next file.

A file is its size and its bytes, and a mapping shows the file itself, since all of
them are `MAP_SHARED`. Bytes past the size are not there: `ftruncate` makes them
zeros. Indices are 32 bits wide and wrap. A constructor or `reserve` that throws is
none; `mmap` refuses an empty file and `ftruncate` a size that is negative as an
`off_t`. File descriptors, permissions and the unmapping are left out.
-/

namespace Exchange.MmapLog

open Lib

/-- `EOF_MARKER`. -/
def eofMarker : Nat := 0xFFFFFFFF

/-- The bytes of a record. -/
abbrev Payload := List UInt8

/-- A file of the directory. -/
structure File where
  size : Nat
  bytes : Bytes

/-- The files `journal-<index>`. -/
abbrev Dir := AList (fun _ : Nat => File)

namespace Dir

/-- `open` with `O_CREAT`. -/
def create (d : Dir) (index : Nat) : Dir :=
  match d.lookup index with
  | some _ => d
  | none => d.insert index ⟨0, .zero⟩

/-- `ftruncate`. -/
def truncate (d : Dir) (index size : Nat) : Dir :=
  match d.lookup index with
  | some f => d.insert index ⟨size, fun i => if i < f.size then f.bytes i else 0⟩
  | none => d

/-- What a mapping of a file shows. -/
def bytes (d : Dir) (index : Nat) : Bytes :=
  match d.lookup index with
  | some f => f.bytes
  | none => .zero

/-- Writes through a mapping of a file. -/
def edit (d : Dir) (index : Nat) (g : Bytes → Bytes) : Dir :=
  match d.lookup index with
  | some f => d.insert index { f with bytes := g f.bytes }
  | none => d

/-- `MmapWriter::commit`, for the payload at `payload`. -/
def commit (d : Dir) (index payload : Nat) : Dir :=
  d.edit index fun m => m.store32 (payload - 4) (m.load32 (payload - 8))

end Dir

/-- `current_file_index_ + 1`. -/
def nextIndex (index : Nat) : Nat := (index + 1) % 2 ^ 32

/-- A global offset: the file in the upper half, the place in it in the lower one. -/
def globalOffset (index offset : Nat) : Nat := index <<< 32 ||| offset

/-! ## The writer -/

/-- `class MmapWriter`; `mapped_addr_` shows the file `currentFileIndex`. -/
structure MmapWriter where
  maxFileSize : Nat
  currentFileIndex : Nat
  currentOffset : Nat
  deriving DecidableEq, Repr

namespace MmapWriter

/-- `open_file`, once the file is there: its size and the mapping. -/
def sizeFile (w : MmapWriter) (d : Dir) (index : Nat) : Option (MmapWriter × Dir) :=
  if w.maxFileSize = 0 ∨ 2 ^ 63 ≤ w.maxFileSize then none
  else some ({ w with currentFileIndex := index, currentOffset := 0 }, d.truncate index w.maxFileSize)

/-- `open_file`. -/
def openFile (w : MmapWriter) (d : Dir) (index : Nat) : Option (MmapWriter × Dir) :=
  w.sizeFile (d.create index) index

/-- The loop of the constructor that goes to the end of the last file. Each round
passes a header at least, so `max_file_size` rounds are enough. -/
def fastForward : Nat → MmapWriter → Dir → Option (MmapWriter × Dir)
  | 0, _, _ => none
  | fuel + 1, w, d =>
    if w.currentOffset + 8 ≤ w.maxFileSize then
      let len := (d.bytes w.currentFileIndex).load32 (w.currentOffset + 4)
      if len = 0 then some (w, d)
      -- the file is fully written
      else if len = eofMarker then w.openFile d (nextIndex w.currentFileIndex)
      else fastForward fuel { w with currentOffset := w.currentOffset + (8 + len) } d
    else some (w, d)

/-- The constructor, once the file it found, or `journal-0`, is there. -/
def attach (maxFileSize : Nat) (found : Option Nat) (d : Dir) : Option (MmapWriter × Dir) :=
  match found with
  | some index => do
    let (w, d) ← sizeFile ⟨maxFileSize, 0, 0⟩ d index
    fastForward (maxFileSize + 1) w d
  | none => sizeFile ⟨maxFileSize, 0, 0⟩ d 0

/-- `MmapWriter::MmapWriter`: the directory is searched for its last file. -/
def create (maxFileSize : Nat) (d : Dir) : Option (MmapWriter × Dir) :=
  attach maxFileSize d.keys.max? (d.create (d.keys.max?.getD 0))

/-- `current_offset_ + required_space > max_file_size_ - sizeof(RecordHeader)`, where
the difference is a `size_t`. -/
def rollsOver (w : MmapWriter) (len : Nat) : Bool :=
  (w.maxFileSize + (2 ^ 64 - 8)) % 2 ^ 64 < w.currentOffset + (8 + len)

/-- Tells the readers to switch files. -/
def markEof (w : MmapWriter) (d : Dir) : Dir :=
  d.edit w.currentFileIndex fun m => m.store32 (w.currentOffset + 4) eofMarker

/-- The end of `reserve`: the header of the record, and the room for it. -/
def claim (w : MmapWriter) (d : Dir) (len : Nat) : MmapWriter × Dir :=
  ({ w with currentOffset := w.currentOffset + (8 + len) },
    d.edit w.currentFileIndex fun m => (m.store32 w.currentOffset len).store32 (w.currentOffset + 4) 0)

/-- The part of `reserve` before it: the next file, if this one has not room enough. -/
def makeRoom (w : MmapWriter) (d : Dir) (len : Nat) : Option (MmapWriter × Dir) :=
  if w.rollsOver len then w.openFile (w.markEof d) (nextIndex w.currentFileIndex) else some (w, d)

/-- `reserve`, for a length it takes; the payload is what the offset has passed. -/
def reserve (w : MmapWriter) (d : Dir) (len : Nat) : Option (MmapWriter × Dir) := do
  let (w, d) ← w.makeRoom d len
  some (w.claim d len)

/-- `append`, with the global offset it returns; none is `INVALID_OFFSET`. -/
def append (w : MmapWriter) (d : Dir) (data : Payload) : Option (Option Nat × MmapWriter × Dir) :=
  if data.length = 0 ∨ data.length = eofMarker then some (none, w, d)
  else do
    let (w, d) ← w.reserve d data.length
    let payload := w.currentOffset - data.length
    let d := d.edit w.currentFileIndex fun m => m.blit payload data
    some (some (globalOffset w.currentFileIndex (payload - 8)), w, d.commit w.currentFileIndex payload)

end MmapWriter

/-! ## The reader -/

/-- `class MmapReader`; `mapped` says that `mapped_addr_` is not null. -/
structure MmapReader where
  currentFileIndex : Nat
  mapped : Bool
  currentOffset : Nat
  fileSize : Nat
  deriving DecidableEq, Repr

namespace MmapReader

/-- `open_file`: a file that is not there, or still empty, leaves the offset as it was. -/
def openFile (r : MmapReader) (d : Dir) (index : Nat) : MmapReader :=
  match d.lookup index with
  | none => { r with currentFileIndex := index, mapped := false }
  | some f =>
    if f.size = 0 then { r with currentFileIndex := index, mapped := false, fileSize := 0 }
    else ⟨index, true, 0, f.size⟩

@[simp] theorem openFile_index (r : MmapReader) (d : Dir) (index : Nat) :
    (r.openFile d index).currentFileIndex = index := by
  unfold openFile
  split
  · rfl
  · split <;> rfl

/-- `MmapReader::MmapReader`. -/
def create (d : Dir) : MmapReader := openFile ⟨0, false, 0, 0⟩ d 0

/-- The start of `read_next`: a file that could not be opened is tried again. -/
def retry (r : MmapReader) (d : Dir) : MmapReader :=
  if r.mapped then r else r.openFile d r.currentFileIndex

/-- `read_next`: the payload, or none for `false`. It calls itself once for each
marker it finds, `fuel` times at most. -/
def readNext (d : Dir) : Nat → MmapReader → Option (Option Payload × MmapReader)
  | 0, _ => none
  | fuel + 1, r =>
    let r := r.retry d
    if ¬ r.mapped then some (none, r)
    else if r.fileSize < r.currentOffset + 8 then some (none, r)
    else
      let m := d.bytes r.currentFileIndex
      let len := m.load32 (r.currentOffset + 4)
      if len = 0 then some (none, r)
      else if len = eofMarker then readNext d fuel (r.openFile d (nextIndex r.currentFileIndex))
      else some (some (m.slice (r.currentOffset + 8) len),
        { r with currentOffset := r.currentOffset + (8 + len) })

/-- `seek`. -/
def seek (r : MmapReader) (d : Dir) (offset : Nat) : Bool × MmapReader :=
  let file := offset >>> 32
  let place := offset % 2 ^ 32
  let r := if file ≠ r.currentFileIndex ∨ ¬ r.mapped then r.openFile d file else r
  if ¬ r.mapped then (false, r)
  else if r.fileSize < place then (false, r)
  else (true, { r with currentOffset := place })

/-- `get_offset`. -/
def getOffset (r : MmapReader) : Nat := globalOffset r.currentFileIndex r.currentOffset

end MmapReader

end Exchange.MmapLog
