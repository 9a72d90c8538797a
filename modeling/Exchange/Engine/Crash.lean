import Exchange.Engine.Rollover

/-!
# A crash inside `take_snapshot`

When the callback runs, the marker is set and the next journal file is there without a record.
`take_snapshot` then writes one file after the other, and the first of them is enough for
`restore` to take the new index: the books whose files are not there yet come back empty, those
with a file that breaks off come back with the orders in it, and the journal that would make up
for the rest is not read. So a crash does no harm before the first file is created, or when no
record is left to write (`restart_inside_snapshot_iff`).
-/

namespace Exchange

open MmapLog Lib

/-! ## Files that break off -/

/-- The operation writes a record. -/
def FileOp.IsWrite : FileOp → Prop
  | write _ _ _ => True
  | _ => False

instance : DecidablePred FileOp.IsWrite
  | .write _ _ _ => isTrue trivial
  | .truncate _ _ => isFalse id
  | .remove _ _ => isFalse id

section BrokenOff

variable {i n : Nat} {images : List (UInt32 × List OrderSnapshot)} {sid : UInt32}
  {image : List OrderSnapshot}

/-- The operations on the file of one book among the first `n`, and those still to come. -/
theorem snapshotOps_split (h : (sid, image) ∈ images) (hids : (images.map Prod.fst).Nodup) (n : Nat) :
    ((snapshotOps i images).take n).filter (·.name = (sid, i)) ++
        ((snapshotOps i images).drop n).filter (·.name = (sid, i)) =
      .truncate sid i :: image.map (.write sid i) := by
  rw [← List.filter_append, List.take_append_drop, snapshotOps_filter hids h]

/-- The file of a book holds the first records of its image: all of them, if the operations still
to come write none to it. -/
theorem lookup_broken {d : SnapshotDir} (hids : (images.map Prod.fst).Nodup)
    (h : (sid, image) ∈ images) (hnone : d.lookup (sid, i) = none) : ∃ k,
      ((((snapshotOps i images).take n).foldl FileOp.apply d).lookup (sid, i)).getD [] =
        image.take k ∧
      (image.take k = image ↔
        ∀ op ∈ (snapshotOps i images).drop n, op.name = (sid, i) → ¬ op.IsWrite) := by
  have hsplit := snapshotOps_split (i := i) h hids n
  have hlater : (∀ op ∈ (snapshotOps i images).drop n, op.name = (sid, i) → ¬ op.IsWrite) ↔
      ∀ op ∈ ((snapshotOps i images).drop n).filter (·.name = (sid, i)), ¬ op.IsWrite := by
    simp only [List.mem_filter, decide_eq_true_eq, and_imp]
  rw [FileOp.lookup_foldl (sid, i) _ rfl, hlater]
  generalize ((snapshotOps i images).take n).filter (·.name = (sid, i)) = done at hsplit ⊢
  generalize ((snapshotOps i images).drop n).filter (·.name = (sid, i)) = later at hsplit ⊢
  cases done with
  | nil =>
    -- the file is not there yet
    rw [List.nil_append] at hsplit
    refine ⟨0, ?_, ?_⟩
    · rw [List.foldl_nil, hnone]
      rfl
    · rw [hsplit, List.take_zero]
      constructor
      · intro hnil op hop
        rw [← hnil, List.map_nil, List.mem_singleton] at hop
        rw [hop]
        exact id
      · intro hwrites
        cases image with
        | nil => rfl
        | cons r rs => exact absurd trivial (hwrites (.write sid i r) (by simp))
  | cons op done =>
    obtain ⟨rfl, hwritten⟩ := List.cons.inj hsplit
    obtain ⟨rs, rs', rfl, rfl, rfl⟩ := List.map_eq_append_iff.mp hwritten.symm
    refine ⟨rs.length, ?_, ?_⟩
    · rw [List.take_left, FileOp.lookup_file]
      rfl
    · rw [List.take_left, List.self_eq_append_right]
      constructor
      · rintro rfl op hop
        exact absurd hop List.not_mem_nil
      · intro hwrites
        cases rs' with
        | nil => rfl
        | cons r rs' => exact absurd trivial (hwrites (.write sid i r) (by simp))

/-- A record is written to the file of a book. -/
theorem write_mem_snapshotOps {op : FileOp} (h : op ∈ snapshotOps i images) (hw : op.IsWrite) :
    ∃ x ∈ images, op.name = (x.1, i) := by
  obtain ⟨x, hx, hop⟩ := List.mem_flatMap.mp h
  refine ⟨x, hx, ?_⟩
  unfold snapshotBook at hop
  rcases List.mem_cons.mp hop with rfl | hop
  · exact hw.elim
  rcases List.mem_append.mp hop with hop | hop
  · obtain ⟨r, -, rfl⟩ := List.mem_map.mp hop
    rfl
  · split at hop
    · rw [List.mem_singleton.mp hop] at hw
      exact hw.elim
    · exact absurd hop List.not_mem_nil

/-- Every file holds its image if no record is left to write. -/
theorem lookup_broken_iff {d : SnapshotDir} (hids : (images.map Prod.fst).Nodup)
    (hnone : ∀ x ∈ images, d.lookup (x.1, i) = none) :
    (∀ x ∈ images, ((((snapshotOps i images).take n).foldl FileOp.apply d).lookup
        (x.1, i)).getD [] = x.2) ↔
      ∀ op ∈ (snapshotOps i images).drop n, ¬ op.IsWrite := by
  constructor
  · intro hall op hop hw
    obtain ⟨x, hx, hname⟩ := write_mem_snapshotOps (List.mem_of_mem_drop hop) hw
    obtain ⟨k, hk, hiff⟩ := lookup_broken (n := n) hids hx (hnone x hx)
    exact hiff.mp (hk.symm.trans (hall x hx)) op hop hname hw
  · intro hwrites x hx
    obtain ⟨k, hk, hiff⟩ := lookup_broken (n := n) hids hx (hnone x hx)
    exact hk.trans (hiff.mpr fun op hop _ => hwrites op hop)

/-- The first operation creates a file. -/
theorem mem_broken {d : SnapshotDir} (hids : (images.map Prod.fst).Nodup) (hn : 0 < n)
    {x : UInt32 × List OrderSnapshot} {xs : List (UInt32 × List OrderSnapshot)} (himages : images = x :: xs) :
    (x.1, i) ∈ ((snapshotOps i images).take n).foldl FileOp.apply d := by
  obtain ⟨ops, hops⟩ : ∃ ops, snapshotOps i images = .truncate x.1 i :: ops := by
    rw [himages]
    exact ⟨_, rfl⟩
  have hsplit := snapshotOps_split (i := i) (himages ▸ List.mem_cons_self : (x.1, x.2) ∈ images)
    hids n
  obtain ⟨m, rfl⟩ := Nat.exists_eq_succ_of_ne_zero (Nat.pos_iff_ne_zero.mp hn)
  rw [← AList.lookup_isSome, FileOp.lookup_foldl (x.1, i) _ rfl]
  rw [hops, List.take_succ_cons, List.filter_cons_of_pos (by simp [FileOp.name])] at hsplit ⊢
  obtain ⟨-, hwritten⟩ := List.cons.inj hsplit
  obtain ⟨rs, -, -, hdone, -⟩ := List.map_eq_append_iff.mp hwritten.symm
  rw [← hdone, FileOp.lookup_file]
  rfl

end BrokenOff

/-! ## Books that break off -/

/-- A record without the fields replay does not restore. -/
def OrderSnapshot.strip (r : OrderSnapshot) : OrderSnapshot := { r with timestamp := 0, symbolId := 0 }

section Books

variable {b b' : OrderBook} {q q' : Nat → List Nat}

/-- Books that read the same have the same image, but for timestamps and symbols. -/
theorem Inv.snapshot_alike (h : Inv b q) (h' : Inv b' q') (hcfg : b'.cfg = b.cfg)
    (hlob : b'.lob.strip = b.lob.strip) :
    b'.takeSnapshot.map OrderSnapshot.strip = b.takeSnapshot.map OrderSnapshot.strip := by
  have hsides : ∀ s, (b'.lob s).map Order.strip = (b.lob s).map Order.strip := congrFun hlob
  have hstock : ∀ s, (stock b' q' s).map Order.strip = (stock b q s).map Order.strip := by
    intro s
    unfold stock
    rw [List.map_flatMap, List.map_flatMap, h.levels_alike h' Order.strip_level hsides]
    congr 1
    funext i
    exact h.contents_alike h' Order.strip_level hsides i
  have hrecord : ∀ s (l : List Order), (l.map (Order.snapshot b.cfg s)).map OrderSnapshot.strip =
      ((l.map Order.strip).map (Order.snapshot b.cfg s)) := by
    intro s l
    rw [List.map_map, List.map_map]
    rfl
  rw [h.takeSnapshot_eq, h'.takeSnapshot_eq, hcfg, List.map_append, List.map_append, hrecord, hrecord,
    hrecord, hrecord, hstock, hstock]

/-- A snapshot that breaks off is not loaded as the book it was taken of. -/
theorem Inv.loads_broken (h : Inv b q) (hlimit : b.lob.Limits) (n : Nat) :
    ∃ b₀, (OrderBook.fresh b.cfg).loadSnapshot (b.takeSnapshot.take n) = some b₀ ∧
      (b₀.takeSnapshot.map OrderSnapshot.strip = b.takeSnapshot.map OrderSnapshot.strip ↔
        b.takeSnapshot.take n = b.takeSnapshot) := by
  obtain ⟨b₀, q₀, hload, hq₀, hlen⟩ := h.loads_take hlimit n
  refine ⟨b₀, hload, fun himage => ?_, fun hall => ?_⟩
  · have hsame := congrArg List.length himage
    rw [List.length_map, List.length_map, hlen, List.length_take] at hsame
    exact List.take_of_length_le (by omega)
  · obtain ⟨b₁, q₁, hload₁, hq₁, hcfg₁, -, hlob₁⟩ := h.loads hlimit
    rw [hall] at hload
    obtain rfl := Option.some.inj (hload.symm.trans hload₁)
    exact h.snapshot_alike hq₁ hcfg₁ (by rw [hlob₁])

/-- A book has as many orders as its snapshot records. -/
theorem Inv.snapshot_length (h : Inv b q) :
    b.takeSnapshot.length = (b.lob .bid).length + (b.lob .ask).length := by
  rw [h.takeSnapshot_eq, List.length_append, List.length_map, List.length_map, (perm_stock b q .bid).length_eq,
    (perm_stock b q .ask).length_eq, h.lob_eq]

end Books

/-- Without an order there is one less. -/
theorem Lob.remove_shorter {a : Lob} {s : Slot} {o : Order} (ho : o ∈ a s) :
    (a.remove o.orderId .bid).length + (a.remove o.orderId .ask).length < (a .bid).length + (a .ask).length := by
  have hle : ∀ s', (a.remove o.orderId s').length ≤ (a s').length := fun s' => List.length_filter_le ..
  have hlt : (a.remove o.orderId s).length < (a s).length :=
    List.length_filter_lt_length_iff_exists.mpr ⟨o, ho, by simp⟩
  have hbid := hle .bid
  have hask := hle .ask
  cases s with
  | bid => omega
  | ask => omega

/-- The first record of a request comes with a book at a request boundary: the one before the
request, or the one after it, if the request took an order out of the book. -/
theorem processRequest_first {c : Config} {st st' : State} {q : Nat → List Nat}
    (h : Inv st.book q) (hcfg : st.book.cfg = c) (hmode : st.book.recoverMode = false)
    (hlimits : st.book.lob.Limits) {req : OrderRequest} (hK : LimitOnly req)
    (hreq : WellFormed c st.book.lob req) (hout : st.out = []) (hrun : st.processRequest req = some st')
    {x : Emission} {rest : List Emission} (hx : st'.out = x :: rest) :
    ∃ b q', Inv b q' ∧ b.cfg = c ∧ b.lob.Limits ∧ x.image = b.takeSnapshot ∧
      (x.resp.execType ≠ .cancelled → b = st.book) ∧
      (x.resp.execType = .cancelled → x.image.length < st.book.takeSnapshot.length) := by
  have hjournals := processRequest_journals h hcfg hmode hlimits hK hreq hout hrun
  have hsafe := hreq.safe
  rw [← hcfg, h.lob_eq] at hsafe
  obtain ⟨ack, rest', hframe, hack, -⟩ := processRequest_framed h hmode hsafe hrun
  rw [hout, List.nil_append, hx] at hframe
  obtain ⟨rfl, rfl⟩ := List.cons.inj hframe
  rcases hack with ⟨htype, himage⟩ | ⟨htype, rfl, himage⟩
  · exact ⟨st.book, q, h, hcfg, hlimits, himage, fun _ => rfl, fun hcancel => absurd hcancel htype⟩
  · obtain ⟨st'', hrun', hans⟩ := h.answers hcfg hreq
    obtain rfl := Option.some.inj (hrun.symm.trans hrun')
    obtain ⟨q', hq', hlob⟩ := hans.lob
    have hrecs : st'.log = [x.resp] := by
      unfold State.log
      rw [hx]
      rfl
    rw [hans.log, if_neg (by simp [hmode])] at hrecs
    have hlog : st.log = [] := by
      unfold State.log
      rw [hout]
      rfl
    rw [hlog, List.nil_append] at hrecs
    obtain ⟨s, o, -, hfind, hremove, -⟩ :=
      (Lob.step_outcome c st.gen st.book.lob req).of_cancelled hrecs htype
    refine ⟨st'.book, q', hq', hjournals.cfg, hjournals.limits, himage,
      fun hne => absurd htype hne, fun _ => ?_⟩
    rw [himage, hq'.snapshot_length, h.snapshot_length, hq'.lob_eq, hlob, hremove]
    exact Lob.remove_shorter (Lob.mem_of_find hfind).1

/-! ## The process -/

/-- The image of a book at a request boundary, without market orders. -/
def Imaged (c : Config) (image : List OrderSnapshot) : Prop :=
  ∃ b q, Inv b q ∧ b.cfg = c ∧ b.lob.Limits ∧ image = b.takeSnapshot

namespace MatchingEngine

/-- The books hold the orders of these images, but for timestamps and symbols. -/
def Shows (e : MatchingEngine) (images : List (UInt32 × List OrderSnapshot)) : Prop :=
  ∀ x ∈ images, ∃ b, e.books.lookup x.1 = some b ∧
    b.takeSnapshot.map OrderSnapshot.strip = x.2.map OrderSnapshot.strip

/-- An image is the one given for its symbol, or the book's own snapshot. -/
theorem of_mem_images {e : MatchingEngine} {k : UInt32} {image : List OrderSnapshot}
    {x : UInt32 × List OrderSnapshot} (h : x ∈ e.images k image) :
    ∃ b, e.books.lookup x.1 = some b ∧ x.2 = if x.1 = k then image else b.takeSnapshot := by
  obtain ⟨⟨sid, b⟩, hmem, rfl⟩ := List.mem_map.mp h
  exact ⟨b, AList.mem_lookup_iff.mpr hmem, rfl⟩

/-- `restore` on files that break off, with no journal behind them. -/
theorem restores_broken {l : ResponseCodec} {d : Dir} {snapshots : SnapshotDir} {cfgs : List Config}
    {images : List (UInt32 × List OrderSnapshot)} {n : Nat} (hids : (images.map Prod.fst).Nodup)
    (himaged : ∀ x ∈ images, Imaged (configOf cfgs x.1) x.2)
    (hkeys : ∀ x ∈ images, ((create cfgs id).books.lookup x.1).isSome)
    (hserved : ∀ {sid b}, (create cfgs id).books.lookup sid = some b → ∃ image, (sid, image) ∈ images)
    (hbroken : ∀ x ∈ images, ∃ k, saved snapshots x.1 = x.2.take k)
    (hdrains : ∀ fuel, n < fuel → Drains d fuel
      ((MmapReader.create d).seek d (resumeAt snapshots <<< 32)).2 []) (gen : Nat → Nat) :
    ∃ e, (create cfgs gen).RestoresTo l.toResponseLayout d snapshots e ∧
      (e.Shows images ↔ ∀ x ∈ images, saved snapshots x.1 = x.2) := by
  -- each book loads what its file holds, which is the first part of its image
  have hloads : ∀ sid, ∃ b₀ : OrderBook, ∀ image, (sid, image) ∈ images →
      (OrderBook.fresh (configOf cfgs sid)).loadSnapshot (saved snapshots sid) = some b₀ ∧
      (b₀.takeSnapshot.map OrderSnapshot.strip = image.map OrderSnapshot.strip ↔
        saved snapshots sid = image) := by
    intro sid
    by_cases hsid : ∃ image, (sid, image) ∈ images
    · obtain ⟨image, hmem⟩ := hsid
      obtain ⟨b, q, hq, hcfg, hlimits, himage⟩ := himaged _ hmem
      obtain ⟨k, hk⟩ := hbroken _ hmem
      dsimp only at hcfg himage hk
      obtain ⟨b₀, hload, hiff⟩ := hq.loads_broken hlimits k
      rw [hcfg, ← himage, ← hk] at hload
      rw [← himage, ← hk] at hiff
      refine ⟨b₀, fun image' hmem' => ?_⟩
      obtain rfl : image' = image := congrArg Prod.snd (List.inj_on_of_nodup_map hids hmem' hmem rfl)
      exact ⟨hload, hiff⟩
    · exact ⟨.fresh (configOf cfgs sid), fun image hmem => absurd ⟨image, hmem⟩ hsid⟩
  -- so `restore` loads them all, and finds nothing in the journal behind
  choose F hF using hloads
  have hfresh : ∀ {sid b}, (create cfgs gen).books.lookup sid = some b →
      b.loadSnapshot (saved snapshots sid) = some (F sid) := by
    intro sid b hb
    obtain ⟨image, hmem⟩ := hserved hb
    rw [configOf_eq hb]
    exact (hF sid image hmem).1
  obtain ⟨e, hrestore, hbooks⟩ := restore_loads l.toResponseLayout d hfresh
  refine ⟨e, ⟨n + 2, fun fuel rounds hfuel hrounds => ?_⟩, ?_⟩
  · rw [hrestore]
    exact replayJournal_drains (fun x hx => absurd hx List.not_mem_nil)
      (hdrains fuel (by omega)) (show 0 < rounds by omega)
  · refine forall₂_congr fun x hx => ?_
    obtain ⟨b, hb⟩ := Option.isSome_iff_exists.mp (hkeys x hx)
    have hself : e.books.lookup x.1 = some (F x.1) := by
      rw [hbooks, show (create cfgs gen).books.lookup x.1 = some b from hb]
      rfl
    rw [hself, ← (hF x.1 x.2 hx).2]
    simp

end MatchingEngine

namespace EngineProcess

/-- The snapshots that are left by a process that is stopped after `n` operations of `take_snapshot`,
while the book of `sid` would write `image`. -/
def brokenOff (P : EngineProcess) (sid : UInt32) (image : List OrderSnapshot) (n : Nat) : SnapshotDir :=
  ((snapshotOps P.writer.currentFileIndex (P.engine.images sid image)).take n).foldl FileOp.apply
    P.snapshots

/-- The operations it has not done. -/
def undone (P : EngineProcess) (sid : UInt32) (image : List OrderSnapshot) (n : Nat) : List FileOp :=
  (snapshotOps P.writer.currentFileIndex (P.engine.images sid image)).drop n

variable {l : ResponseCodec} {maxFileSize : Nat} {cfgs : List Config} {c : UInt32 → Config}
  {P : EngineProcess} {sys : Sys} {full : List (List Payload)} {tail : List OrderResponse}
  {sid : UInt32} {image : List OrderSnapshot} {n : Nat}

/-- As soon as one file is created, `restore` starts from the new index. -/
theorem Restorable.latest_broken (h : Restorable l maxFileSize cfgs c P sys full tail)
    (hsmall : full.length + 1 < 2 ^ 32) {b : OrderBook} (hb : P.engine.books.lookup sid = some b)
    (image : List OrderSnapshot) (hn : 0 < n) : MatchingEngine.resumeAt (P.brokenOff sid image n) = full.length + 1 ∧
      ∀ k, MatchingEngine.saved (P.brokenOff sid image n) k =
        ((P.brokenOff sid image n).lookup (k, full.length)).getD [] := by
  have hids := P.engine.images_nodup sid image
  obtain ⟨x, xs, himages⟩ := List.exists_cons_of_ne_nil
    (List.ne_nil_of_mem (MatchingEngine.mem_images hb sid image))
  have habove : NoneAbove full.length (P.brokenOff sid image n) := by
    have hold : NoneAbove full.length P.snapshots := fun file hfile => (h.files file hfile).le
    unfold brokenOff
    rw [h.index]
    exact hold.ops fun op hop => List.mem_of_mem_take hop
  have hmem : (x.1, full.length) ∈ P.brokenOff sid image n := by
    unfold brokenOff
    rw [h.index]
    exact mem_broken hids hn himages
  unfold MatchingEngine.resumeAt MatchingEngine.saved
  rw [habove.latest hmem]
  exact ⟨Nat.mod_eq_of_lt hsmall, fun _ => rfl⟩

/-- What a crash inside `take_snapshot` leaves is loaded, and nothing replayed. -/
theorem Restorable.restores_broken
    (h : Restorable l maxFileSize cfgs (MatchingEngine.configOf cfgs) P sys full tail)
    (hsmall : full.length + 1 < 2 ^ 32) {b : OrderBook} (hb : P.engine.books.lookup sid = some b)
    (himaged : Imaged (MatchingEngine.configOf cfgs sid) image) {d : Dir} {m : Nat}
    (hdrains : ∀ fuel, m < fuel → Drains d fuel
      ((MmapReader.create d).seek d ((full.length + 1) <<< 32)).2 []) (hn : 0 < n) (gen : Nat → Nat) :
    ∃ e, (MatchingEngine.create cfgs gen).RestoresTo l.toResponseLayout d (P.brokenOff sid image n) e ∧
      (e.Shows (P.engine.images sid image) ↔ ∀ op ∈ P.undone sid image n, ¬ op.IsWrite) := by
  have hids := P.engine.images_nodup sid image
  -- no file of this number has been there before
  have hnone : ∀ x ∈ P.engine.images sid image, P.snapshots.lookup (x.1, full.length) = none :=
    fun x _ => AList.lookup_eq_none.mpr fun hmem => Nat.lt_irrefl _ (h.files _ hmem)
  obtain ⟨hresume, hsaved⟩ := h.latest_broken hsmall hb image hn
  have hfile : ∀ k, MatchingEngine.saved (P.brokenOff sid image n) k =
      ((((snapshotOps full.length (P.engine.images sid image)).take n).foldl FileOp.apply
        P.snapshots).lookup (k, full.length)).getD [] := by
    intro k
    rw [hsaved]
    unfold brokenOff
    rw [h.index]
  have hwritten := lookup_broken_iff (n := n) hids hnone
  -- the books that are imaged hold together, the one of the broken match included
  have himages : ∀ x ∈ P.engine.images sid image, Imaged (MatchingEngine.configOf cfgs x.1) x.2 := by
    intro x hx
    obtain ⟨b₁, hb₁, himage⟩ := MatchingEngine.of_mem_images hx
    rw [himage]
    split
    · rename_i hsid
      rw [hsid]
      exact himaged
    · obtain ⟨q, hq⟩ := h.sound.inv hb₁
      exact ⟨b₁, q, hq, h.cfg hb₁, h.limits hb₁, rfl⟩
  -- and each file holds the first part of its image
  have hbroken : ∀ x ∈ P.engine.images sid image, ∃ k,
      MatchingEngine.saved (P.brokenOff sid image n) x.1 = x.2.take k := by
    intro x hx
    obtain ⟨k, hk, -⟩ := lookup_broken (n := n) hids hx (hnone x hx)
    exact ⟨k, (hfile x.1).trans hk⟩
  rw [← hresume] at hdrains
  obtain ⟨e, hrestore, hshows⟩ := MatchingEngine.restores_broken (l := l) hids himages
    (fun x hx => by
      obtain ⟨b₁, hb₁, -⟩ := MatchingEngine.of_mem_images hx
      rw [← h.keys, hb₁]
      rfl)
    (fun {k b₁} hb₁ => by
      have hsome := h.keys k
      rw [hb₁] at hsome
      obtain ⟨b₂, hb₂⟩ := Option.isSome_iff_exists.mp hsome
      exact ⟨_, MatchingEngine.mem_images hb₂ sid image⟩)
    hbroken hdrains gen
  refine ⟨e, hrestore, hshows.trans ?_⟩
  unfold undone
  rw [h.index, ← hwritten]
  exact forall₂_congr fun x _ => by rw [hfile]

end EngineProcess

/-- A process is stopped inside `take_snapshot`, which the first record of a request has set off,
after `n` operations. The restart brings back the orders that the books held then, unless a file
has been created and a record not yet written; or no file has, and the request is a cancel, of
which the journal then knows nothing. -/
theorem restart_inside_snapshot_iff {l : ResponseCodec} {maxFileSize : Nat} {cfgs : List Config}
    {P : EngineProcess} (h : EngineProcess.Run LimitOnly l maxFileSize cfgs P)
    (hfit : l.FitsIn maxFileSize) (hfew : P.turns.length + 1 < 2 ^ 32) {req : OrderRequest}
    (hK : LimitOnly req) (hreq : P.engine.Accepts req) (hstores : P.Storable l req)
    {e' : MatchingEngine} {x : Emission} {rest : List Emission}
    (hpoll : P.engine.pollServer req = some (e', x :: rest))
    (hroll : P.writer.rollsOver (l.encode x.resp).length = true) {w : MmapWriter} {d : Dir}
    (hroom : P.writer.makeRoom P.dir (l.encode x.resp).length = some (w, d)) (n : Nat)
    (hlast : n = 0 → P.Settled) (gen : Nat → Nat) :
    (∃ e, (MatchingEngine.create cfgs gen).RestoresTo l.toResponseLayout d
        (P.brokenOff req.symbolId x.image n) e ∧ e.Shows (P.engine.images req.symbolId x.image)) ↔
      (n = 0 ∧ x.resp.execType ≠ .cancelled) ∨
        (0 < n ∧ ∀ op ∈ P.undone req.symbolId x.image n, ¬ op.IsWrite) := by
  obtain ⟨sys, full, tail, hP⟩ := h.restorable hfit (Nat.lt_of_succ_lt hfew)
  have hsmall : full.length + 1 < 2 ^ 32 := hP.turns ▸ hfew
  have hp := hfit.fits (hstores e' _ hpoll x List.mem_cons_self)
  rw [← hP.dir] at hroom
  have hdrains := fun fuel (hfuel : sys.rolled + 2 < fuel) =>
    hP.written.drains_rolled hP.phase hp hroom hroll (hP.written.rolled ▸ hsmall) hfuel
  -- the book that the record comes from
  cases hsym : P.engine.books.lookup req.symbolId with
  | none =>
    unfold MatchingEngine.pollServer at hpoll
    rw [hsym] at hpoll
    cases hpoll
  | some b =>
    obtain ⟨st, hst, hout, -, -⟩ := MatchingEngine.pollServer_books hsym hpoll
    obtain ⟨q, hq⟩ := hP.sound.inv hsym
    obtain ⟨b₀, q₀, hq₀, hcfg₀, hlimits₀, himage, hkeeps, htakes⟩ := processRequest_first hq (hP.cfg hsym)
      (hP.sound.mode hsym) (hP.limits hsym) hK (hP.cfg hsym ▸ hreq b hsym) rfl hst hout.symm
    rcases Nat.eq_zero_or_pos n with rfl | hn
    · -- nothing is done yet, and the records since the last snapshots are all there
      obtain ⟨e, hrestore, hbooks⟩ := hP.restores (Nat.lt_of_succ_lt hsmall) (hlast rfl)
        (fun fuel hfuel => (hdrains fuel hfuel).1) gen
      have hbroken : P.brokenOff req.symbolId x.image 0 = P.snapshots := rfl
      have hsame : ∀ {sid b}, P.engine.books.lookup sid = some b → ∃ b', e.books.lookup sid = some b' ∧
          b'.takeSnapshot.map OrderSnapshot.strip = b.takeSnapshot.map OrderSnapshot.strip := by
        intro sid b₁ hb₁
        obtain ⟨b', q', hb', hq', hcfg', hlob'⟩ := hbooks sid b₁ hb₁
        obtain ⟨q₁, hq₁⟩ := hP.sound.inv hb₁
        exact ⟨b', hb', hq₁.snapshot_alike hq' hcfg' hlob'⟩
      rw [hbroken]
      constructor
      · rintro ⟨e₁, hrestore₁, hshows⟩
        obtain rfl := hrestore.unique hrestore₁
        refine Or.inl ⟨rfl, fun hcancel => ?_⟩
        obtain ⟨b₁, hb₁, hshow⟩ := hshows _ (MatchingEngine.mem_images hsym req.symbolId x.image)
        obtain ⟨b₂, hb₂, hbefore⟩ := hsame hsym
        obtain rfl := Option.some.inj (hb₁.symm.trans hb₂)
        dsimp only at hshow
        rw [if_pos rfl, hbefore] at hshow
        have hlen := congrArg List.length hshow
        rw [List.length_map, List.length_map] at hlen
        exact absurd hlen (Nat.ne_of_gt (htakes hcancel))
      · rintro (⟨-, htype⟩ | ⟨hpos, -⟩)
        · refine ⟨e, hrestore, fun y hy => ?_⟩
          obtain ⟨b₁, hb₁, hy₁⟩ := MatchingEngine.of_mem_images hy
          obtain ⟨b', hb', hshow⟩ := hsame hb₁
          refine ⟨b', hb', hshow.trans ?_⟩
          rw [hy₁]
          split
          · rename_i hsid
            rw [hsid, hsym] at hb₁
            rw [himage, hkeeps htype, Option.some.inj hb₁]
          · rfl
        · exact absurd hpos (Nat.lt_irrefl 0)
    · obtain ⟨e, hrestore, hshows⟩ := hP.restores_broken hsmall hsym ⟨b₀, q₀, hq₀, hcfg₀, hlimits₀, himage⟩
        (fun fuel hfuel => (hdrains fuel hfuel).2) hn gen
      rw [← hshows]
      constructor
      · rintro ⟨e₁, hrestore₁, hshows₁⟩
        obtain rfl := hrestore.unique hrestore₁
        exact Or.inr ⟨hn, hshows₁⟩
      · rintro (⟨hzero, -⟩ | ⟨-, hshows₁⟩)
        · omega
        · exact ⟨e, hrestore, hshows₁⟩

/-! ## Two symbols -/

def secondConfig : Config := { sampleConfig with symbolId := 2 }

/-- Orders for two symbols, one of them on both sides of its book. -/
def twoSymbols : List OrderRequest :=
  [sampleRequest .new 1 .sell 20 7, { sampleRequest .new 2 .sell 20 5 with symbolId := 2 },
    sampleRequest .new 3 .buy 10 4]

/-- The order that finds no room behind them, in files of three records. -/
def nextRequest : OrderRequest := sampleRequest .new 4 .buy 15 9

/-- The run up to the rollover. -/
theorem twoSymbols_run : ∃ P e' x rest w d,
    EngineProcess.Run LimitOnly OrderResponse.codec 224 [sampleConfig, secondConfig] P ∧
    (P.turns = [] ∧ P.engine.Accepts nextRequest ∧ P.Storable OrderResponse.codec nextRequest) ∧
    P.engine.pollServer nextRequest = some (e', x :: rest) ∧ x.resp.execType = .new ∧
    P.writer.rollsOver (OrderResponse.codec.encode x.resp).length = true ∧
    P.writer.makeRoom P.dir (OrderResponse.codec.encode x.resp).length = some (w, d) ∧
    (P.engine.images 1 x.image).map (fun y => (y.1, y.2.length)) = [(1, 2), (2, 1)] ∧
    (((MatchingEngine.create [sampleConfig, secondConfig] id).restore OrderResponse.codec.toResponseLayout d
      (P.brokenOff 1 x.image 3) 8 8).bind fun e => (e.books.lookup 2).map (·.takeSnapshot.length)) =
      some 0 := by
  obtain ⟨P, hrun, hP⟩ := EngineProcess.Run.of_serve LimitOnly OrderResponse.codec 224
    [sampleConfig, secondConfig] id twoSymbols (by unfold LimitOnly; decide)
    (fun P => P.turns.length = 0 ∧ P.engine.Accepts nextRequest ∧ P.Storable OrderResponse.codec nextRequest ∧
      (P.engine.pollServer nextRequest).any fun polled => polled.2.head?.any fun x =>
        decide (x.resp.execType = .new ∧
          P.writer.rollsOver (OrderResponse.codec.encode x.resp).length = true) &&
        (P.writer.makeRoom P.dir (OrderResponse.codec.encode x.resp).length).any fun room =>
          decide ((P.engine.images 1 x.image).map (fun y => (y.1, y.2.length)) = [(1, 2), (2, 1)] ∧
            (((MatchingEngine.create [sampleConfig, secondConfig] id).restore
              OrderResponse.codec.toResponseLayout room.2 (P.brokenOff 1 x.image 3) 8 8).bind fun e =>
                (e.books.lookup 2).map (·.takeSnapshot.length)) = some 0)) (by decide +kernel)
  obtain ⟨hturns, haccepts, hstorable, hpoll⟩ := of_decide_eq_true hP
  obtain ⟨⟨e', new⟩, hpoll, hnew⟩ := (Option.any_eq_true ..).mp hpoll
  obtain ⟨x, hx, hrecord⟩ := (Option.any_eq_true ..).mp hnew
  obtain ⟨rest, rfl⟩ := List.head?_eq_some_iff.mp hx
  rw [Bool.and_eq_true] at hrecord
  obtain ⟨htype, hroll⟩ := of_decide_eq_true hrecord.1
  obtain ⟨⟨w, d⟩, hroom, hrestore⟩ := (Option.any_eq_true ..).mp hrecord.2
  obtain ⟨himages, hrestore⟩ := of_decide_eq_true hrestore
  exact ⟨P, e', x, rest, w, d, hrun, ⟨List.length_eq_zero_iff.mp hturns, haccepts, hstorable⟩, hpoll, htype,
    hroll, hroom, himages, hrestore⟩

/-- The crash can come at any point. -/
theorem twoSymbols_restart : ∃ (P : EngineProcess) (x : Emission) (d : Dir),
    EngineProcess.Run LimitOnly OrderResponse.codec 224 [sampleConfig, secondConfig] P ∧
    ∀ n, (∃ e, (MatchingEngine.create [sampleConfig, secondConfig] id).RestoresTo
        OrderResponse.codec.toResponseLayout d (P.brokenOff 1 x.image n) e ∧
          e.Shows (P.engine.images 1 x.image)) ↔
      (n = 0 ∧ x.resp.execType ≠ .cancelled) ∨ (0 < n ∧ ∀ op ∈ P.undone 1 x.image n, ¬ op.IsWrite) := by
  obtain ⟨P, e', x, rest, w, d, hrun, ⟨hturns, haccepts, hstorable⟩, hpoll, -, hroll, hroom, -, -⟩ :=
    twoSymbols_run
  refine ⟨P, x, d, hrun, fun n => ?_⟩
  have hsettled : P.Settled := fun y hy => by
    rw [hturns] at hy
    cases hy
  exact restart_inside_snapshot_iff hrun ⟨by decide, by decide, by decide⟩
    (by rw [hturns]; decide) (by unfold LimitOnly; decide) haccepts hstorable hpoll hroll hroom n
    (fun _ => hsettled) id

/-- The file of the first symbol is written, and that of the second is not: its book comes back empty. -/
theorem book_lost_in_crash : ∃ P e' x rest w d,
    EngineProcess.Run LimitOnly OrderResponse.codec 224 [sampleConfig, secondConfig] P ∧
    P.engine.Accepts nextRequest ∧ P.engine.pollServer nextRequest = some (e', x :: rest) ∧
    x.resp.execType = .new ∧ P.writer.rollsOver (OrderResponse.codec.encode x.resp).length = true ∧
    P.writer.makeRoom P.dir (OrderResponse.codec.encode x.resp).length = some (w, d) ∧
    ¬ ∃ e, (MatchingEngine.create [sampleConfig, secondConfig] id).RestoresTo
        OrderResponse.codec.toResponseLayout d (P.brokenOff 1 x.image 3) e ∧
      e.Shows (P.engine.images 1 x.image) := by
  obtain ⟨P, e', x, rest, w, d, hrun, ⟨-, haccepts, -⟩, hpoll, htype, hroll, hroom, himages, hrestore⟩ :=
    twoSymbols_run
  refine ⟨P, e', x, rest, w, d, hrun, haccepts, hpoll, htype, hroll, hroom, fun ⟨e₁, hends, hshows⟩ => ?_⟩
  obtain ⟨e, hrestore, hbook⟩ := Option.bind_eq_some_iff.mp hrestore
  obtain ⟨b, hb, hempty⟩ := Option.map_eq_some_iff.mp hbook
  obtain rfl := (MatchingEngine.RestoresTo.of_restore hrestore).unique hends
  have hmem : ((2 : UInt32), 1) ∈ (P.engine.images 1 x.image).map fun y => (y.1, y.2.length) := by
    rw [himages]
    decide
  obtain ⟨y, hy, hylen⟩ := List.mem_map.mp hmem
  obtain ⟨hsid, hlen⟩ := Prod.mk.inj hylen
  obtain ⟨b₁, hb₁, hshow⟩ := hshows y hy
  rw [hsid, hb] at hb₁
  obtain rfl := Option.some.inj hb₁
  have hsame := congrArg List.length hshow
  rw [List.length_map, List.length_map, hempty, hlen] at hsame
  cases hsame

end Exchange
