import Exchange.Book.Images
import Exchange.Engine.Journal
import Exchange.Engine.Layout
import Exchange.Ipc.LastFile

/-!
# Snapshots of the engine, and its restart

`src/MatchingEngine.cpp` and `app/services/matching-engine.cpp`. The journal's directory also
holds the files `snapshot-<symbol>-<index>`. When the writer goes on to a new journal file it
calls back, from inside the `sendResponse` that found no room, and `take_snapshot` writes one
file for each book and removes the one before it. `restore` takes the greatest index it finds
in any name, loads the files of that index, and replays the journal behind it.

A snapshot file is the records that can be read from it: `load_snapshot` stops at the first
that is not there in full. What `take_snapshot` does is a list of operations on files, so that
a process can be stopped between any two of them.
-/

namespace Exchange

open MmapLog Lib

/-! ## Snapshot files -/

/-- The files `snapshot-<symbol>-<index>`. -/
abbrev SnapshotDir := AList (fun _ : UInt32 × Nat => List OrderSnapshot)

/-- What is done to a file. -/
inductive FileOp
  /-- `std::ofstream` with `std::ios::trunc`. -/
  | truncate (sid : UInt32) (index : Nat)
  /-- `ofs.write`. -/
  | write (sid : UInt32) (index : Nat) (r : OrderSnapshot)
  /-- `std::filesystem::remove`. -/
  | remove (sid : UInt32) (index : Nat)

def FileOp.apply (d : SnapshotDir) : FileOp → SnapshotDir
  | truncate sid index => d.insert (sid, index) []
  | write sid index r => d.insert (sid, index) ((d.lookup (sid, index)).getD [] ++ [r])
  | remove sid index => d.erase (sid, index)

/-- The body of the loop of `take_snapshot`, for a book and what it writes. -/
def snapshotBook (index : Nat) (image : UInt32 × List OrderSnapshot) : List FileOp :=
  .truncate image.1 index :: (image.2.map (.write image.1 index) ++
    if 0 < index then [.remove image.1 (index - 1)] else [])

/-- `take_snapshot`. -/
def snapshotOps (index : Nat) (images : List (UInt32 × List OrderSnapshot)) : List FileOp :=
  images.flatMap (snapshotBook index)

namespace MatchingEngine

/-- What the books write while the book of `sid` is between two statements, and would write
`image`. -/
def images (e : MatchingEngine) (sid : UInt32) (image : List OrderSnapshot) :
    List (UInt32 × List OrderSnapshot) :=
  e.books.entries.map fun x => (x.1, if x.1 = sid then image else x.2.takeSnapshot)

/-! ## Restart -/

/-- The greatest index in the names of the snapshots. -/
def latestSnapshot (d : SnapshotDir) : Option Nat := (d.keys.map Prod.snd).max?

/-- `OrderBook::load_snapshot` for one book of the map. -/
def loadBook (d : SnapshotDir) (index : Nat) (e : MatchingEngine) (sid : UInt32) :
    Option MatchingEngine :=
  match e.books.lookup sid, d.lookup (sid, index) with
  | some b, some rs => do
    let b ← b.loadSnapshot rs
    some { e with books := e.books.insert sid b }
  | _, _ => some e

/-- `load_snapshot`. -/
def loadSnapshot (e : MatchingEngine) (d : SnapshotDir) (index : Nat) : Option MatchingEngine :=
  e.books.keys.foldlM (loadBook d index) e

/-- The body of the loop of `restore`, for a record of the size it looks for. -/
def restoreResponse (e : MatchingEngine) (resp : OrderResponse) : Option MatchingEngine :=
  match e.books.lookup resp.symbolId with
  | none => some e
  | some b => do
    let st ← State.restoreFromResponse ⟨b, e.gen, []⟩ resp
    some ⟨e.books.insert resp.symbolId st.book, st.gen⟩

/-- The loop of `restore`; none where it takes more than `rounds` calls of `read_next`, or one
of them more than `fuel`. -/
def replayJournal (l : ResponseLayout) (d : Dir) (fuel : Nat) :
    Nat → MmapReader → MatchingEngine → Option MatchingEngine
  | 0, _, _ => none
  | rounds + 1, r, e => do
    match ← r.readNext d fuel with
    | (none, _) => some e
    | (some data, r) =>
      if l.size ≤ data.length then do
        let e ← e.restoreResponse (l.decode (data.take l.size))
        replayJournal l d fuel rounds r e
      else replayJournal l d fuel rounds r e

/-- `restore`, on a directory with these journals and snapshots. -/
def restore (l : ResponseLayout) (d : Dir) (snapshots : SnapshotDir) (fuel rounds : Nat)
    (e : MatchingEngine) : Option MatchingEngine :=
  match latestSnapshot snapshots with
  | some index => do
    let e ← e.loadSnapshot snapshots index
    e.replayJournal l d fuel rounds ((MmapReader.create d).seek d (nextIndex index <<< 32)).2
  | none => e.replayJournal l d fuel rounds ((MmapReader.create d).seek d 0).2

end MatchingEngine

/-! ## The process -/

/-- The engine, the writer of its journal and the directory. `turns` are the records that found
no room in their file. -/
structure EngineProcess where
  engine : MatchingEngine
  writer : MmapWriter
  dir : Dir
  snapshots : SnapshotDir
  turns : List Emission

namespace EngineProcess

/-- `sendResponse`, for a record of the book of `sid`: `reserve`, with the callback that `main`
installs, and `commit`. -/
def send (l : ResponseCodec) (sid : UInt32) (P : EngineProcess) (x : Emission) : Option EngineProcess := do
  match ← P.writer.append P.dir (l.encode x.resp) with
  | (none, w, d) => some { P with writer := w, dir := d }
  | (some _, w, d) =>
    if P.writer.rollsOver (l.encode x.resp).length then
      some { P with
        writer := w
        dir := d
        snapshots := (snapshotOps P.writer.currentFileIndex (P.engine.images sid x.image)).foldl
          FileOp.apply P.snapshots
        turns := P.turns ++ [x] }
    else some { P with writer := w, dir := d }

/-- `poll_server`. While the book works on the request, the others are as they were. -/
def pollServer (l : ResponseCodec) (P : EngineProcess) (req : OrderRequest) : Option EngineProcess := do
  let (e, new) ← P.engine.pollServer req
  let P ← new.foldlM (send l req.symbolId) P
  some { P with engine := e }

/-- The records that a request sends can be stored. -/
def Storable (l : ResponseCodec) (P : EngineProcess) (req : OrderRequest) : Prop :=
  ∀ e new, P.engine.pollServer req = some (e, new) → ∀ x ∈ new, l.Stores x.resp

instance (l : ResponseCodec) (P : EngineProcess) (req : OrderRequest) : Decidable (P.Storable l req) :=
  decidable_of_iff ((P.engine.pollServer req).all fun x => x.2.all fun y => l.Stores y.resp) (by
    unfold Storable
    cases P.engine.pollServer req with
    | none => simp
    | some x =>
      obtain ⟨e, new⟩ := x
      simp)

/-- The states that requests lead to from an empty directory, where there is nothing to restore. -/
inductive Run (K : OrderRequest → Prop) (l : ResponseCodec) (maxFileSize : Nat) (cfgs : List Config) :
    EngineProcess → Prop
  | start {w : MmapWriter} {d : Dir} (gen : Nat → Nat) (hw : MmapWriter.create maxFileSize ∅ = some (w, d)) :
      Run K l maxFileSize cfgs ⟨.create cfgs gen, w, d, ∅, []⟩
  | step {P P' : EngineProcess} {req : OrderRequest} (h : Run K l maxFileSize cfgs P) (hK : K req)
      (hreq : P.engine.Accepts req) (hstores : P.Storable l req)
      (hrun : P.pollServer l req = some P') : Run K l maxFileSize cfgs P'

/-- Serves a list of requests, as long as they are well formed and what they send can be stored. -/
def serve (l : ResponseCodec) (P : EngineProcess) : List OrderRequest → Option EngineProcess
  | [] => some P
  | req :: reqs =>
    if P.engine.Accepts req ∧ P.Storable l req then do
      let P ← P.pollServer l req
      serve l P reqs
    else none

/-- A process in an empty directory. -/
def boot (maxFileSize : Nat) (cfgs : List Config) (gen : Nat → Nat) : Option EngineProcess := do
  let (w, d) ← MmapWriter.create maxFileSize ∅
  some ⟨.create cfgs gen, w, d, ∅, []⟩

variable {K : OrderRequest → Prop} {l : ResponseCodec} {maxFileSize : Nat} {cfgs : List Config}

/-- By induction on the requests served. -/
theorem Run.serve : ∀ {reqs : List OrderRequest} {P P' : EngineProcess}, Run K l maxFileSize cfgs P →
    (∀ req ∈ reqs, K req) → P.serve l reqs = some P' → Run K l maxFileSize cfgs P'
  | [], P, P', h, _, hrun => by
    obtain rfl := Option.some.inj hrun
    exact h
  | req :: reqs, P, P', h, hK, hrun => by
    rw [EngineProcess.serve] at hrun
    split at hrun
    · rename_i hreq
      obtain ⟨P₁, hfirst, hrest⟩ := Option.bind_eq_some_iff.mp hrun
      have hnext := h.step (hK req List.mem_cons_self) hreq.1 hreq.2 hfirst
      exact hnext.serve (fun r hr => hK r (List.mem_cons_of_mem _ hr)) hrest
    · cases hrun

/-- A run with a property that can be tested. -/
theorem Run.of_serve (K : OrderRequest → Prop) (l : ResponseCodec) (maxFileSize : Nat)
    (cfgs : List Config) (gen : Nat → Nat) (reqs : List OrderRequest) (hK : ∀ req ∈ reqs, K req)
    (p : EngineProcess → Bool)
    (h : ((boot maxFileSize cfgs gen).bind (·.serve l reqs)).any p = true) :
    ∃ P, Run K l maxFileSize cfgs P ∧ p P = true := by
  obtain ⟨P, hrun, hp⟩ := (Option.any_eq_true ..).mp h
  obtain ⟨P₀, hboot, hserve⟩ := Option.bind_eq_some_iff.mp hrun
  obtain ⟨⟨w, d⟩, hw, hstart⟩ := Option.bind_eq_some_iff.mp hboot
  obtain rfl := Option.some.inj hstart
  exact ⟨P, (Run.start gen hw).serve hK hserve, hp⟩

end EngineProcess

end Exchange
