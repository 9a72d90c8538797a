import Exchange.Engine.Recovery

/-!
# A restart after rollovers

The last journal file holds the records since the writer last rolled over, and the snapshots
are those taken then. So a restart rebuilds a book if, from the book that the snapshot shows,
these records lead to the book there is (`Follows`). The record that found no room is the first
of them. At an acknowledgement the snapshot shows the book before the request, or after a
cancel that is then replayed without effect; at the records behind it, which are not replayed,
it has to show the book after the request. It does, unless the trade it comes with leaves
nothing of the maker: then that order is still in its queue, and the taker is in none.

`restore_rebuilds_books` is for all runs in which the last rollover was not at such a record.
-/

namespace Exchange

open MmapLog Lib

/-! ## Snapshot files -/

namespace FileOp

/-- The file an operation is about. -/
def name : FileOp → UInt32 × Nat
  | truncate sid index => (sid, index)
  | write sid index _ => (sid, index)
  | remove sid index => (sid, index)

/-- What becomes of the file it is about. -/
def content (f : Option (List OrderSnapshot)) : FileOp → Option (List OrderSnapshot)
  | truncate _ _ => some []
  | write _ _ r => some (f.getD [] ++ [r])
  | remove _ _ => none

theorem lookup_apply (d : SnapshotDir) (op : FileOp) :
    (op.apply d).lookup op.name = op.content (d.lookup op.name) := by
  cases op with
  | truncate sid index => exact AList.lookup_insert _
  | write sid index r => exact AList.lookup_insert _
  | remove sid index => exact AList.lookup_erase _ _

theorem lookup_apply_ne {d : SnapshotDir} {op : FileOp} {file : UInt32 × Nat} (h : file ≠ op.name) :
    (op.apply d).lookup file = d.lookup file := by
  cases op with
  | truncate sid index => exact AList.lookup_insert_ne h
  | write sid index r => exact AList.lookup_insert_ne h
  | remove sid index => exact AList.lookup_erase_ne h

/-- The operations on a file are all that counts for it. -/
theorem lookup_foldl (file : UInt32 × Nat) : ∀ (ops : List FileOp) {d d' : SnapshotDir},
    d'.lookup file = d.lookup file →
      (ops.foldl apply d').lookup file = ((ops.filter (·.name = file)).foldl apply d).lookup file
  | [], _, _, h => h
  | op :: ops, d, d', h => by
    by_cases hop : op.name = file
    · rw [List.filter_cons_of_pos (by simpa using hop)]
      refine lookup_foldl file ops ?_
      subst hop
      rw [lookup_apply, lookup_apply, h]
    · rw [List.filter_cons_of_neg (by simpa using hop)]
      refine lookup_foldl file ops ?_
      rw [lookup_apply_ne (fun e => hop e.symm)]
      exact h

/-- Records written behind those that are there. -/
theorem lookup_writes (sid : UInt32) (index : Nat) : ∀ (rs : List OrderSnapshot) {d : SnapshotDir}
    {pre : List OrderSnapshot}, d.lookup (sid, index) = some pre →
      ((rs.map (write sid index)).foldl apply d).lookup (sid, index) = some (pre ++ rs)
  | [], _, pre, h => by rw [List.append_nil]; exact h
  | r :: rs, d, pre, h => by
    rw [List.append_cons]
    refine lookup_writes sid index rs ?_
    show (d.insert (sid, index) ((d.lookup (sid, index)).getD [] ++ [r])).lookup (sid, index) = _
    rw [AList.lookup_insert, h]
    rfl

/-- A file written from its start. -/
theorem lookup_file (sid : UInt32) (index : Nat) (rs : List OrderSnapshot) (d : SnapshotDir) :
    ((truncate sid index :: rs.map (write sid index)).foldl apply d).lookup (sid, index) = some rs :=
  lookup_writes sid index rs (AList.lookup_insert _)

end FileOp

section Ops

variable {index : Nat} {images : List (UInt32 × List OrderSnapshot)} {sid : UInt32}
  {image : List OrderSnapshot}

/-- The operations on the file of one book. -/
theorem snapshotOps_filter (hids : (images.map Prod.fst).Nodup) (h : (sid, image) ∈ images) :
    (snapshotOps index images).filter (·.name = (sid, index)) =
      .truncate sid index :: image.map (.write sid index) := by
  -- an operation of another book is on another file, and what is removed has another index
  have hother : ∀ x : UInt32 × List OrderSnapshot, x.1 ≠ sid →
      (snapshotBook index x).filter (·.name = (sid, index)) = [] := by
    intro x hx
    refine List.filter_eq_nil_iff.mpr fun op hop => ?_
    have hname : op.name.1 = x.1 := by
      unfold snapshotBook at hop
      rcases List.mem_cons.mp hop with rfl | hop
      · rfl
      rcases List.mem_append.mp hop with hop | hop
      · obtain ⟨r, -, rfl⟩ := List.mem_map.mp hop
        rfl
      · split at hop
        · rw [List.mem_singleton.mp hop]
          rfl
        · exact absurd hop List.not_mem_nil
    have hne : op.name ≠ (sid, index) := fun e => hx (by rw [← hname, e])
    simpa using hne
  have hself : (snapshotBook index (sid, image)).filter (·.name = (sid, index)) =
      .truncate sid index :: image.map (.write sid index) := by
    unfold snapshotBook
    rw [List.filter_cons_of_pos (by simp [FileOp.name]), List.filter_append]
    have hwrites : (image.map (FileOp.write sid index)).filter (·.name = (sid, index)) =
        image.map (.write sid index) :=
      List.filter_eq_self.mpr fun op hop => by
        obtain ⟨r, -, rfl⟩ := List.mem_map.mp hop
        simp [FileOp.name]
    have hremove : (if 0 < index then [FileOp.remove sid (index - 1)] else []).filter
        (·.name = (sid, index)) = [] := by
      split
      · rw [List.filter_cons_of_neg (by simp [FileOp.name]; omega)]
        rfl
      · rfl
    rw [hwrites, hremove, List.append_nil]
  obtain ⟨xs, ys, rfl⟩ := List.append_of_mem h
  rw [List.map_append, List.map_cons, List.nodup_append] at hids
  obtain ⟨-, hys, hxs⟩ := hids
  have hnone : ∀ zs : List (UInt32 × List OrderSnapshot), (∀ z ∈ zs, z.1 ≠ sid) →
      (snapshotOps index zs).filter (·.name = (sid, index)) = [] := by
    intro zs hzs
    unfold snapshotOps
    rw [List.filter_flatMap]
    exact List.flatMap_eq_nil_iff.mpr fun z hz => hother z (hzs z hz)
  have hbefore := hnone xs fun z hz => hxs z.1 (List.mem_map_of_mem hz) sid List.mem_cons_self
  have hbehind := hnone ys fun z hz e => (List.nodup_cons.mp hys).1 (List.mem_map.mpr ⟨z, hz, e⟩)
  unfold snapshotOps at hbefore hbehind ⊢
  rw [List.flatMap_append, List.flatMap_cons, List.filter_append, List.filter_append, hbefore, hself,
    hbehind, List.append_nil, List.nil_append]

/-- Once all is done, the file of each book holds its image. -/
theorem lookup_snapshotOps (d : SnapshotDir) (hids : (images.map Prod.fst).Nodup)
    (h : (sid, image) ∈ images) :
    ((snapshotOps index images).foldl FileOp.apply d).lookup (sid, index) = some image := by
  rw [FileOp.lookup_foldl (sid, index) _ rfl, snapshotOps_filter hids h]
  exact FileOp.lookup_file ..

/-- No index is greater than this one. -/
def NoneAbove (index : Nat) (d : SnapshotDir) : Prop := ∀ file ∈ d, file.2 ≤ index

/-- Taking a snapshot writes no file of a later index. -/
theorem NoneAbove.ops {d : SnapshotDir} (h : NoneAbove index d) : ∀ {ops : List FileOp},
    (∀ op ∈ ops, op ∈ snapshotOps index images) → NoneAbove index (ops.foldl FileOp.apply d) := by
  intro ops
  induction ops generalizing d with
  | nil => exact fun _ => h
  | cons op ops ih =>
    intro hops
    refine ih ?_ fun op' hop' => hops op' (List.mem_cons_of_mem _ hop')
    obtain ⟨x, -, hop⟩ := List.mem_flatMap.mp (hops op List.mem_cons_self)
    intro file hfile
    unfold snapshotBook at hop
    rcases List.mem_cons.mp hop with rfl | hop
    · rcases (AList.mem_insert _).mp hfile with rfl | hfile
      · exact le_rfl
      · exact h file hfile
    rcases List.mem_append.mp hop with hop | hop
    · obtain ⟨r, -, rfl⟩ := List.mem_map.mp hop
      rcases (AList.mem_insert _).mp hfile with rfl | hfile
      · exact le_rfl
      · exact h file hfile
    · split at hop
      · rw [List.mem_singleton.mp hop] at hfile
        exact h file (AList.mem_erase.mp hfile).2
      · exact absurd hop List.not_mem_nil

/-- The greatest index, where a file has it. -/
theorem NoneAbove.latest {d : SnapshotDir} (h : NoneAbove index d) (hfile : (sid, index) ∈ d) :
    MatchingEngine.latestSnapshot d = some index := by
  refine List.max?_eq_some_iff.mpr ⟨List.mem_map_of_mem (AList.mem_keys.mp hfile), fun i hi => ?_⟩
  obtain ⟨file, hmem, rfl⟩ := List.mem_map.mp hi
  exact h file (AList.mem_keys.mpr hmem)

end Ops

/-! ## Loading and replaying all books -/

namespace MatchingEngine

/-- `load_snapshot`, book by book; a book without a file loads nothing. -/
theorem loadSnapshot_books {d : SnapshotDir} {index : Nat} {F : UInt32 → OrderBook} {e : MatchingEngine}
    (h : ∀ {sid b}, e.books.lookup sid = some b →
      b.loadSnapshot ((d.lookup (sid, index)).getD []) = some (F sid)) :
    ∃ e', e.loadSnapshot d index = some e' ∧
      ∀ sid, e'.books.lookup sid = (e.books.lookup sid).map fun _ => F sid := by
  -- on the books still to come
  have hloop : ∀ (ks : List UInt32) (e₁ : MatchingEngine), ks.Nodup →
      (∀ sid, e₁.books.lookup sid =
        if sid ∈ ks then e.books.lookup sid else (e.books.lookup sid).map fun _ => F sid) →
      ∃ e', ks.foldlM (loadBook d index) e₁ = some e' ∧
        ∀ sid, e'.books.lookup sid = (e.books.lookup sid).map fun _ => F sid := by
    intro ks
    induction ks with
    | nil => exact fun e₁ _ hbooks => ⟨e₁, rfl, fun sid => by rw [hbooks, if_neg List.not_mem_nil]⟩
    | cons k ks ih =>
      intro e₁ hnodup hbooks
      obtain ⟨hk, hks⟩ := List.nodup_cons.mp hnodup
      have hself : e₁.books.lookup k = e.books.lookup k := by
        rw [hbooks, if_pos List.mem_cons_self]
      obtain ⟨e₂, hload, hbooks₂⟩ : ∃ e₂, loadBook d index e₁ k = some e₂ ∧ ∀ sid, e₂.books.lookup sid =
          if sid = k then (e.books.lookup k).map fun _ => F k else e₁.books.lookup sid := by
        unfold loadBook
        rw [hself]
        cases hb : e.books.lookup k with
        | none =>
          refine ⟨e₁, rfl, fun sid => ?_⟩
          split
          · rename_i hsid
            rw [hsid, hself, hb]
            rfl
          · rfl
        | some b =>
          have hF := h hb
          cases hfile : d.lookup (k, index) with
          | none =>
            rw [hfile] at hF
            have hsame : b = F k := Option.some.inj hF
            refine ⟨e₁, rfl, fun sid => ?_⟩
            split
            · rename_i hsid
              rw [hsid, hself, hb, Option.map_some, ← hsame]
            · rfl
          | some rs =>
            rw [hfile, Option.getD_some] at hF
            refine ⟨{ e₁ with books := e₁.books.insert k (F k) }, ?_, fun sid => ?_⟩
            · dsimp only
              rw [hF]
              rfl
            · split
              · rename_i hsid
                rw [hsid]
                exact AList.lookup_insert _
              · rename_i hsid
                exact AList.lookup_insert_ne hsid
      obtain ⟨e', hrun, hbooks'⟩ := ih e₂ hks (fun sid => by
        rw [hbooks₂]
        by_cases hsid : sid = k
        · rw [if_pos hsid, if_neg (hsid ▸ hk), hsid]
        · rw [if_neg hsid, hbooks]
          exact if_congr (by rw [List.mem_cons, or_iff_right hsid]) rfl rfl)
      refine ⟨e', ?_, hbooks'⟩
      rw [List.foldlM_cons, hload]
      exact hrun
  refine hloop e.books.keys e e.books.nodupKeys fun sid => ?_
  split
  · rfl
  · rename_i hsid
    rw [← AList.mem_keys, ← AList.lookup_eq_none] at hsid
    rw [hsid]
    rfl

/-- Replays records into all books. -/
def replay (e : MatchingEngine) (rs : List OrderResponse) : Option MatchingEngine :=
  rs.foldlM restoreResponse e

/-- The books read as these sides, stripped. -/
def Reads (c : UInt32 → Config) (a : UInt32 → Lob) (e : MatchingEngine) : Prop :=
  ∀ {sid b}, e.books.lookup sid = some b → Rebuilt (c sid) (a sid) ⟨b, e.gen, []⟩

/-- Nothing drawn is seen by a book. -/
theorem rebuilt_regen {c : Config} {a : Lob} {st : State} (h : Rebuilt c a st) (gen : Nat → Nat) :
    Rebuilt c a ⟨st.book, gen, []⟩ :=
  ⟨h.inv, h.cfg, h.mode, h.lob, rfl⟩

/-- Each book follows its own records. -/
theorem replay_books {c : UInt32 → Config} (a' : UInt32 → Lob) : ∀ (rs : List OrderResponse)
    {a : UInt32 → Lob} {e : MatchingEngine}, e.Reads c a →
      (∀ sid, Follows (c sid) (a sid) (recordsOf sid rs) (a' sid)) →
      ∃ e', e.replay rs = some e' ∧ e'.Reads c a' ∧
        ∀ sid, (e'.books.lookup sid).isSome = (e.books.lookup sid).isSome
  | [], a, e, h, hf => by
    refine ⟨e, rfl, fun {sid b} hb => ?_, fun _ => rfl⟩
    rw [(hf sid).eq_of_nil]
    exact h hb
  | r :: rs, a, e, h, hf => by
    -- the record's book takes its first step, if it is served
    have hself := hf r.symbolId
    unfold recordsOf at hself
    rw [List.filter_cons_of_pos (by simp)] at hself
    obtain ⟨a₁, hr, hrest⟩ := hself.uncons
    obtain ⟨e₁, hrun, hreads, hkeys⟩ : ∃ e₁, e.restoreResponse r = some e₁ ∧
        e₁.Reads c (Function.update a r.symbolId a₁) ∧
        ∀ sid, (e₁.books.lookup sid).isSome = (e.books.lookup sid).isSome := by
      unfold restoreResponse
      cases hsym : e.books.lookup r.symbolId with
      | none =>
        refine ⟨e, rfl, fun {sid b} hb => ?_, fun _ => rfl⟩
        rw [Function.update_of_ne (fun hsid => by rw [hsid, hsym] at hb; cases hb)]
        exact h hb
      | some b =>
        obtain ⟨st, hst, hreb⟩ := hr _ (h hsym)
        refine ⟨⟨e.books.insert r.symbolId st.book, st.gen⟩, ?_, fun {sid b'} hb => ?_, fun sid => ?_⟩
        · dsimp only
          rw [hst]
          rfl
        · by_cases hsid : sid = r.symbolId
          · subst hsid
            have hb' : (e.books.insert r.symbolId st.book).lookup r.symbolId = some b' := hb
            rw [AList.lookup_insert] at hb'
            rw [Function.update_self, ← Option.some.inj hb']
            exact rebuilt_regen hreb _
          · have hb' : (e.books.insert r.symbolId st.book).lookup sid = some b' := hb
            rw [AList.lookup_insert_ne hsid] at hb'
            rw [Function.update_of_ne hsid]
            exact rebuilt_regen (h hb') _
        · show ((e.books.insert r.symbolId st.book).lookup sid).isSome = _
          by_cases hsid : sid = r.symbolId
          · rw [hsid, AList.lookup_insert, hsym]
            rfl
          · rw [AList.lookup_insert_ne hsid]
    obtain ⟨e', hrun', hreads', hkeys'⟩ := replay_books a' rs hreads fun sid => by
      by_cases hsid : sid = r.symbolId
      · subst hsid
        rw [Function.update_self]
        exact hrest
      · rw [Function.update_of_ne hsid]
        have hother := hf sid
        unfold recordsOf at hother
        rw [List.filter_cons_of_neg (by simpa using fun e => hsid e.symm)] at hother
        exact hother
    refine ⟨e', ?_, hreads', fun sid => (hkeys' sid).trans (hkeys sid)⟩
    show (r :: rs).foldlM restoreResponse e = some e'
    rw [List.foldlM_cons, hrun]
    exact hrun'

/-- The loop of `restore` on a reader that gets these records, and then `false`. -/
theorem replayJournal_drains {l : ResponseCodec} {d : Dir} {fuel : Nat} : ∀ {rs : List OrderResponse}
    {rounds : Nat} {r : MmapReader} {e : MatchingEngine}, (∀ x ∈ rs, l.Stores x) →
      Drains d fuel r (rs.map l.encode) → rs.length < rounds →
      e.replayJournal l.toResponseLayout d fuel rounds r = e.replay rs
  | _, 0, _, _, _, _, hrounds => absurd hrounds (Nat.not_lt_zero _)
  | [], rounds + 1, r, e, _, hdrains, _ => by
    obtain ⟨r', hread⟩ := hdrains
    rw [replayJournal, hread]
    rfl
  | x :: rs, rounds + 1, r, e, hstores, hdrains, hrounds => by
    obtain ⟨r', hread, hrest⟩ := hdrains
    obtain ⟨hlen, hdecode⟩ := hstores x List.mem_cons_self
    rw [List.length_cons] at hrounds
    have hnext := fun e₁ : MatchingEngine => replayJournal_drains (e := e₁)
      (fun y hy => hstores y (List.mem_cons_of_mem _ hy)) hrest (show rs.length < rounds by omega)
    rw [replayJournal, hread]
    show (if l.size ≤ (l.encode x).length then _ else _) = (x :: rs).foldlM restoreResponse e
    rw [if_pos hlen.ge, ← hlen, List.take_length, hdecode, List.foldlM_cons]
    refine congrArg _ (funext fun e₁ => ?_)
    exact hnext e₁

/-- The configuration of a symbol. -/
def configOf (cfgs : List Config) (sid : UInt32) : Config :=
  (((create cfgs id).books.lookup sid).map (·.cfg)).getD default

/-- A symbol's configuration is that of its book. -/
theorem configOf_eq {cfgs : List Config} {gen : Nat → Nat} {sid : UInt32} {b : OrderBook}
    (h : (create cfgs gen).books.lookup sid = some b) : b = .fresh (configOf cfgs sid) := by
  obtain ⟨c₀, -, -, rfl⟩ := create_lookup h
  have h' : (create cfgs id).books.lookup sid = some (.fresh c₀) := h
  unfold configOf
  rw [h']
  rfl

/-- With enough fuel `restore` ends, and leaves `e'`. -/
def RestoresTo (l : ResponseLayout) (d : Dir) (snapshots : SnapshotDir) (e e' : MatchingEngine) : Prop :=
  ∃ n, ∀ fuel rounds, n ≤ fuel → n ≤ rounds → e.restore l d snapshots fuel rounds = some e'

theorem RestoresTo.unique {l : ResponseLayout} {d : Dir} {snapshots : SnapshotDir}
    {e e₁ e₂ : MatchingEngine} (h₁ : e.RestoresTo l d snapshots e₁) (h₂ : e.RestoresTo l d snapshots e₂) :
    e₁ = e₂ := by
  obtain ⟨n₁, h₁⟩ := h₁
  obtain ⟨n₂, h₂⟩ := h₂
  have hends₁ := h₁ (n₁ + n₂) (n₁ + n₂) (by omega) (by omega)
  have hends₂ := h₂ (n₁ + n₂) (n₁ + n₂) (by omega) (by omega)
  exact Option.some.inj (hends₁.symm.trans hends₂)

/-- More fuel does not change the result. -/
theorem replayJournal_mono {l : ResponseLayout} {d : Dir} {fuel : Nat} (k j : Nat) : ∀ {rounds : Nat}
    {r : MmapReader} {e e' : MatchingEngine}, e.replayJournal l d fuel rounds r = some e' →
      e.replayJournal l d (fuel + k) (rounds + j) r = some e'
  | 0, _, _, _, h => by cases h
  | rounds + 1, r, e, e', h => by
    rw [replayJournal] at h
    obtain ⟨⟨data, r'⟩, hread, h⟩ := Option.bind_eq_some_iff.mp h
    rw [show rounds + 1 + j = rounds + j + 1 by omega, replayJournal, readNext_mono k hread]
    cases data with
    | none => exact h
    | some data =>
      dsimp only at h
      show (if l.size ≤ data.length then _ else _) = some e'
      split at h
      · obtain ⟨e₁, hrestore, hrest⟩ := Option.bind_eq_some_iff.mp h
        rw [if_pos ‹_›, hrestore]
        exact replayJournal_mono k j hrest
      · rw [if_neg ‹_›]
        exact replayJournal_mono k j h

/-- What `restore` returns is that result. -/
theorem RestoresTo.of_restore {l : ResponseLayout} {d : Dir} {snapshots : SnapshotDir}
    {e e' : MatchingEngine} {fuel rounds : Nat} (h : e.restore l d snapshots fuel rounds = some e') :
    e.RestoresTo l d snapshots e' := by
  refine ⟨fuel + rounds, fun fuel' rounds' hfuel hrounds => ?_⟩
  obtain ⟨k, rfl⟩ := Nat.exists_eq_add_of_le (Nat.le_of_add_right_le hfuel)
  obtain ⟨j, rfl⟩ := Nat.exists_eq_add_of_le (Nat.le_of_add_left_le hrounds)
  unfold restore at h ⊢
  cases hlatest : latestSnapshot snapshots with
  | some index =>
    rw [hlatest] at h
    obtain ⟨e₁, hload, hreplay⟩ := Option.bind_eq_some_iff.mp h
    dsimp only
    rw [hload]
    exact replayJournal_mono k j hreplay
  | none =>
    rw [hlatest] at h
    exact replayJournal_mono k j h

/-- What `restore` loads into the book of a symbol. -/
def saved (snapshots : SnapshotDir) (sid : UInt32) : List OrderSnapshot :=
  match latestSnapshot snapshots with
  | some index => (snapshots.lookup (sid, index)).getD []
  | none => []

/-- The file that `restore` reads first. -/
def resumeAt (snapshots : SnapshotDir) : Nat :=
  match latestSnapshot snapshots with
  | some index => nextIndex index
  | none => 0

/-- `restore` loads, and then replays. -/
theorem restore_loads (l : ResponseLayout) (d : Dir) {snapshots : SnapshotDir} {F : UInt32 → OrderBook}
    {cfgs : List Config} {gen : Nat → Nat}
    (h : ∀ {sid b}, (create cfgs gen).books.lookup sid = some b →
      b.loadSnapshot (saved snapshots sid) = some (F sid)) :
    ∃ e : MatchingEngine, (∀ fuel rounds, (create cfgs gen).restore l d snapshots fuel rounds =
        e.replayJournal l d fuel rounds ((MmapReader.create d).seek d (resumeAt snapshots <<< 32)).2) ∧
      ∀ sid, e.books.lookup sid = ((create cfgs gen).books.lookup sid).map fun _ => F sid := by
  unfold restore resumeAt
  unfold saved at h
  cases hlatest : latestSnapshot snapshots with
  | some index =>
    rw [hlatest] at h
    obtain ⟨e, hload, hbooks⟩ := loadSnapshot_books h
    refine ⟨e, fun fuel rounds => ?_, hbooks⟩
    dsimp only
    rw [hload]
    rfl
  | none =>
    rw [hlatest] at h
    refine ⟨create cfgs gen, fun _ _ => by rw [Nat.zero_shiftLeft], fun sid => ?_⟩
    cases hb : (create cfgs gen).books.lookup sid with
    | none => rfl
    | some b => exact h hb

/-- `restore` on a directory whose journal, from where it starts, holds the records `tail`. -/
theorem restores {l : ResponseCodec} {d : Dir} {snapshots : SnapshotDir} {cfgs : List Config}
    {tail : List OrderResponse} {a : UInt32 → Lob} {n : Nat}
    (hanchored : ∀ {sid b}, (create cfgs id).books.lookup sid = some b →
      Anchored (configOf cfgs sid) (saved snapshots sid) (recordsOf sid tail) (a sid))
    (hserved : ∀ r ∈ tail, ((create cfgs id).books.lookup r.symbolId).isSome)
    (hstored : ∀ r ∈ tail, l.Stores r)
    (hdrains : ∀ fuel, n < fuel → Drains d fuel
      ((MmapReader.create d).seek d (resumeAt snapshots <<< 32)).2 (tail.map l.encode))
    (gen : Nat → Nat) :
    ∃ e : MatchingEngine, (∀ fuel rounds, n < fuel → tail.length < rounds →
        (create cfgs gen).restore l.toResponseLayout d snapshots fuel rounds = some e) ∧
      e.Reads (configOf cfgs) a ∧
      ∀ sid, (e.books.lookup sid).isSome = ((create cfgs id).books.lookup sid).isSome := by
  -- what the snapshot of each book loads as, and where the records lead from there
  have hloads : ∀ sid, ∃ b₀ : OrderBook, ∀ b, (create cfgs id).books.lookup sid = some b →
      (OrderBook.fresh (configOf cfgs sid)).loadSnapshot (saved snapshots sid) = some b₀ ∧
      Rebuilt (configOf cfgs sid) b₀.lob ⟨b₀, gen, []⟩ ∧
      Follows (configOf cfgs sid) b₀.lob (recordsOf sid tail) (a sid) := by
    intro sid
    cases hb : (create cfgs id).books.lookup sid with
    | none => exact ⟨.fresh (configOf cfgs sid), fun b hb' => by cases hb'⟩
    | some b =>
      obtain ⟨b₁, q₁, hq₁, hcfg₁, hlimits, himage, hfollows⟩ := hanchored hb
      obtain ⟨b₀, q₀, hload, hq₀, hcfg₀, hmode₀, hlob₀⟩ := hq₁.loads hlimits
      rw [hcfg₁, ← himage] at hload
      rw [← hlob₀] at hfollows
      exact ⟨b₀, fun _ _ => ⟨hload, ⟨⟨q₀, hq₀⟩, hcfg₀.trans hcfg₁, hmode₀, rfl, rfl⟩, hfollows⟩⟩
  choose F hF using hloads
  have hfresh : ∀ {sid b}, (create cfgs gen).books.lookup sid = some b →
      b.loadSnapshot (saved snapshots sid) = some (F sid) := by
    intro sid b hb
    rw [configOf_eq hb]
    exact (hF sid b hb).1
  obtain ⟨e₁, hrestore, hbooks⟩ := restore_loads l.toResponseLayout d hfresh
  have hreads : e₁.Reads (configOf cfgs) fun sid => (F sid).lob := by
    intro sid b hb
    rw [hbooks] at hb
    obtain ⟨b₁, hb₁, rfl⟩ := Option.map_eq_some_iff.mp hb
    exact rebuilt_regen (hF sid b₁ hb₁).2.1 _
  -- a symbol that is not served has no records
  let a' : UInt32 → Lob := fun sid =>
    if ((create cfgs id).books.lookup sid).isSome then a sid else (F sid).lob
  obtain ⟨e, hrun, hreads', hsome⟩ := replay_books a' tail hreads fun sid => by
    cases hb : (create cfgs id).books.lookup sid with
    | some b =>
      show Follows _ _ _ (if ((create cfgs id).books.lookup sid).isSome then _ else _)
      rw [hb]
      exact (hF sid b hb).2.2
    | none =>
      have hnone : recordsOf sid tail = [] := by
        refine List.filter_eq_nil_iff.mpr fun r hr hsid => ?_
        have hsome := hserved r hr
        rw [of_decide_eq_true hsid, hb] at hsome
        cases hsome
      show Follows _ _ _ (if ((create cfgs id).books.lookup sid).isSome then _ else _)
      rw [hnone, hb]
      exact .nil _
  have hsame : ∀ sid, (e.books.lookup sid).isSome = ((create cfgs id).books.lookup sid).isSome := by
    intro sid
    rw [hsome, hbooks, Option.isSome_map]
    rfl
  refine ⟨e, fun fuel rounds hfuel hrounds => ?_, fun {sid b} hb => ?_, hsame⟩
  · rw [hrestore, replayJournal_drains hstored (hdrains fuel hfuel) hrounds]
    exact hrun
  · have hread := hreads' hb
    have hserves : ((create cfgs id).books.lookup sid).isSome = true := by
      rw [← hsame, hb]
      rfl
    have ha : a' sid = a sid := if_pos hserves
    rw [ha] at hread
    exact hread

end MatchingEngine

/-! ## The process between two records -/

/-- `reserve` takes records of this size. -/
structure ResponseCodec.FitsIn (l : ResponseCodec) (maxFileSize : Nat) : Prop where
  pos : 0 < l.size
  room : 8 + l.size ≤ maxFileSize - 8
  lt : l.size < eofMarker

/-- Every record that is stored fits a file. -/
theorem ResponseCodec.FitsIn.fits {l : ResponseCodec} {maxFileSize : Nat} (h : l.FitsIn maxFileSize)
    {r : OrderResponse} (hr : l.Stores r) : MmapLog.Fits maxFileSize (l.encode r) :=
  ⟨hr.1 ▸ h.pos, hr.1 ▸ h.room, hr.1 ▸ h.lt⟩

namespace EngineProcess

/-- The last file holds the records `tail`, the files before it are full, and there is a snapshot
for none but these. -/
structure Journaled (l : ResponseCodec) (maxFileSize : Nat) (P : EngineProcess) (sys : Sys)
    (full : List (List Payload)) (tail : List OrderResponse) : Prop where
  written : Written maxFileSize sys full (tail.map l.encode)
  dir : sys.dir = P.dir
  phase : sys.phase = .ready P.writer
  stored : ∀ r ∈ tail, l.Stores r
  turns : P.turns.length = full.length
  files : ∀ file ∈ P.snapshots, file.2 < full.length

variable {l : ResponseCodec} {maxFileSize : Nat} {P P' : EngineProcess} {sys : Sys}
  {full : List (List Payload)} {tail : List OrderResponse} {sid : UInt32} {x : Emission}

/-- The writer is in the file after the full ones. -/
theorem Journaled.index (h : Journaled l maxFileSize P sys full tail) :
    P.writer.currentFileIndex = full.length := by
  have hok := h.written.phase
  rw [h.phase] at hok
  obtain ⟨-, f, off, -, hw, -⟩ := hok
  rw [hw]

/-- The record is written, and the last file goes on. -/
def Stays (P P' : EngineProcess) : Prop :=
  P'.engine = P.engine ∧ P'.turns = P.turns ∧ P'.snapshots = P.snapshots

/-- The record begins a new file, and the books are saved. -/
def Turns (sid : UInt32) (index : Nat) (x : Emission) (P P' : EngineProcess) : Prop :=
  P'.engine = P.engine ∧ P'.turns = P.turns ++ [x] ∧
    P'.snapshots = (snapshotOps index (P.engine.images sid x.image)).foldl FileOp.apply P.snapshots

/-- One record. -/
theorem Journaled.send (h : Journaled l maxFileSize P sys full tail) (hfit : l.FitsIn maxFileSize)
    (hx : l.Stores x.resp) (hrun : P.send l sid x = some P') (hfew : P'.turns.length < 2 ^ 32) :
    (Stays P P' ∧ ∃ sys', Journaled l maxFileSize P' sys' full (tail ++ [x.resp])) ∨
      (Turns sid full.length x P P' ∧ ∃ sys' full', full'.length = full.length + 1 ∧
        Journaled l maxFileSize P' sys' full' [x.resp]) := by
  have hp := hfit.fits hx
  have hrolled := h.written.rolled
  have hturns := h.turns
  unfold EngineProcess.send at hrun
  obtain ⟨⟨offset, w, d⟩, happend, hrun⟩ := Option.bind_eq_some_iff.mp hrun
  rw [← h.dir] at happend
  cases offset with
  | none =>
    -- the size is one that `reserve` takes
    obtain ⟨_, _, _, hsome⟩ := h.written.appends h.phase hp
    rw [happend] at hsome
    cases hsome
  | some offset =>
    have hstored : ∀ r ∈ tail ++ [x.resp], l.Stores r := by
      intro r hr
      rcases List.mem_append.mp hr with hr | hr
      · exact h.stored r hr
      · rw [List.mem_singleton.mp hr]
        exact hx
    cases hroll : P.writer.rollsOver (l.encode x.resp).length with
    | false =>
      dsimp only at hrun
      rw [hroll] at hrun
      obtain rfl := Option.some.inj hrun
      have hnext := h.written.append_stays h.phase hp happend hroll (hrolled ▸ hturns ▸ hfew)
      rw [show tail.map l.encode ++ [l.encode x.resp] = (tail ++ [x.resp]).map l.encode by
        rw [List.map_append]; rfl] at hnext
      exact Or.inl ⟨⟨rfl, rfl, rfl⟩, _, hnext, rfl, rfl, hstored, hturns, h.files⟩
    | true =>
      dsimp only at hrun
      rw [hroll, if_pos rfl, h.index] at hrun
      obtain rfl := Option.some.inj hrun
      have hfew' : sys.rolled + 1 < 2 ^ 32 := by
        rw [List.length_append, List.length_singleton, hturns] at hfew
        rw [hrolled]
        exact hfew
      have hnext := h.written.append_rolls h.phase hp happend hroll hfew'
      have hlen : (full ++ [tail.map l.encode]).length = full.length + 1 := by
        rw [List.length_append, List.length_singleton]
      refine Or.inr ⟨⟨rfl, rfl, rfl⟩, _, _, hlen, hnext, rfl, rfl, fun r hr => ?_, ?_, fun file hfile => ?_⟩
      · rw [List.mem_singleton.mp hr]
        exact hx
      · rw [List.length_append, List.length_singleton, hturns, hlen]
      · have hold : NoneAbove full.length P.snapshots := fun file hfile => (h.files file hfile).le
        rw [hlen]
        exact Nat.lt_succ_of_le (hold.ops (fun _ hop => hop) file hfile)

/-- Rollovers are not undone. -/
theorem send_turns (hrun : P.send l sid x = some P') : P.turns <+: P'.turns := by
  unfold EngineProcess.send at hrun
  obtain ⟨⟨offset, w, d⟩, -, hrun⟩ := Option.bind_eq_some_iff.mp hrun
  cases offset with
  | none =>
    obtain rfl := Option.some.inj hrun
    exact List.prefix_rfl
  | some offset =>
    dsimp only at hrun
    split at hrun
    · obtain rfl := Option.some.inj hrun
      exact List.prefix_append ..
    · obtain rfl := Option.some.inj hrun
      exact List.prefix_rfl

/-- Sending records only adds turns of the file. -/
theorem sends_turns : ∀ {new : List Emission} {P : EngineProcess},
    new.foldlM (EngineProcess.send l sid) P = some P' → P.turns <+: P'.turns
  | [], P, hrun => by
    obtain rfl := Option.some.inj hrun
    exact List.prefix_rfl
  | x :: new, P, hrun => by
    rw [List.foldlM_cons] at hrun
    obtain ⟨P₁, hfirst, hrest⟩ := Option.bind_eq_some_iff.mp hrun
    exact (send_turns hfirst).trans (sends_turns hrest)

/-- The records of a request. In the second case `x` is the last that began a new file. -/
theorem Journaled.sends (hfit : l.FitsIn maxFileSize) : ∀ {new : List Emission} {P P' : EngineProcess}
    {sys : Sys} {full : List (List Payload)} {tail : List OrderResponse},
    Journaled l maxFileSize P sys full tail → (∀ x ∈ new, l.Stores x.resp) →
      new.foldlM (EngineProcess.send l sid) P = some P' → P'.turns.length < 2 ^ 32 →
      (Stays P P' ∧ ∃ sys', Journaled l maxFileSize P' sys' full (tail ++ new.map (·.resp))) ∨
        ∃ pre x post sys' full' turns snapshots, new = pre ++ x :: post ∧ P'.engine = P.engine ∧
          P'.turns = turns ++ [x] ∧ P'.snapshots = (snapshotOps (full'.length - 1)
            (P.engine.images sid x.image)).foldl FileOp.apply snapshots ∧
          0 < full'.length ∧ Journaled l maxFileSize P' sys' full' ((x :: post).map (·.resp))
  | [], P, P', sys, full, tail, h, _, hrun, _ => by
    obtain rfl := Option.some.inj hrun
    refine Or.inl ⟨⟨rfl, rfl, rfl⟩, sys, ?_⟩
    rw [List.map_nil, List.append_nil]
    exact h
  | y :: ys, P, P', sys, full, tail, h, hstores, hrun, hfew => by
    rw [List.foldlM_cons] at hrun
    obtain ⟨P₁, hfirst, hrest⟩ := Option.bind_eq_some_iff.mp hrun
    have hfew₁ : P₁.turns.length < 2 ^ 32 := Nat.lt_of_le_of_lt (sends_turns hrest).length_le hfew
    have hstores' : ∀ x ∈ ys, l.Stores x.resp := fun x hx => hstores x (List.mem_cons_of_mem _ hx)
    rcases h.send hfit (hstores y List.mem_cons_self) hfirst hfew₁ with
      ⟨⟨heng, hturns, hsnaps⟩, sys₁, h₁⟩ | ⟨⟨heng, hturns, hsnaps⟩, sys₁, full₁, hlen, h₁⟩
    · rcases Journaled.sends hfit h₁ hstores' hrest hfew with ⟨⟨heng', hturns', hsnaps'⟩, sys', h'⟩ |
        ⟨pre, x, post, sys', full', turns, snapshots, rfl, heng', hturns', hsnaps', hpos, h'⟩
      · refine Or.inl ⟨⟨heng'.trans heng, hturns'.trans hturns, hsnaps'.trans hsnaps⟩, sys', ?_⟩
        rw [List.append_assoc] at h'
        exact h'
      · rw [heng] at heng' hsnaps'
        exact Or.inr ⟨y :: pre, x, post, sys', full', turns, snapshots, rfl, heng', hturns', hsnaps',
          hpos, h'⟩
    · rcases Journaled.sends hfit h₁ hstores' hrest hfew with ⟨⟨heng', hturns', hsnaps'⟩, sys', h'⟩ |
        ⟨pre, x, post, sys', full', turns, snapshots, rfl, heng', hturns', hsnaps', hpos, h'⟩
      · refine Or.inr ⟨[], y, ys, sys', full₁, P.turns, P.snapshots, rfl, heng'.trans heng,
          hturns'.trans hturns, ?_, by omega, h'⟩
        rw [hlen, Nat.add_sub_cancel, hsnaps', hsnaps]
      · rw [heng] at heng' hsnaps'
        exact Or.inr ⟨y :: pre, x, post, sys', full', turns, snapshots, rfl, heng', hturns', hsnaps',
          hpos, h'⟩

/-! ## Runs -/

/-- What the last snapshots hold of a book, after `n` rollovers; nothing before the first. -/
def saved (P : EngineProcess) (n : Nat) (sid : UInt32) : List OrderSnapshot :=
  (P.snapshots.lookup (sid, n - 1)).getD []

/-- No book held a filled order when the last snapshots were taken. -/
def Settled (P : EngineProcess) : Prop := ∀ x, P.turns.getLast? = some x → x.Settled

/-- What a restart needs. -/
structure Restorable (l : ResponseCodec) (maxFileSize : Nat) (cfgs : List Config) (c : UInt32 → Config)
    (P : EngineProcess) (sys : Sys) (full : List (List Payload)) (tail : List OrderResponse) : Prop
    extends Journaled l maxFileSize P sys full tail where
  sound : P.engine.Sound cfgs
  cfg : ∀ {sid b}, P.engine.books.lookup sid = some b → b.cfg = c sid
  limits : ∀ {sid b}, P.engine.books.lookup sid = some b → b.lob.Limits
  served : ∀ r ∈ tail, (P.engine.books.lookup r.symbolId).isSome
  keys : ∀ sid, (P.engine.books.lookup sid).isSome =
    ((MatchingEngine.create cfgs id).books.lookup sid).isSome
  serves : 0 < full.length → ∃ sid, (P.engine.books.lookup sid).isSome
  kept : 0 < full.length → ∀ {sid b}, P.engine.books.lookup sid = some b →
    (sid, full.length - 1) ∈ P.snapshots
  anchored : P.Settled → ∀ {sid b}, P.engine.books.lookup sid = some b →
    Anchored (c sid) (P.saved full.length sid) (MatchingEngine.recordsOf sid tail) b.lob

end EngineProcess

/-- What is written of each book. -/
theorem MatchingEngine.mem_images {e : MatchingEngine} {sid : UInt32} {b : OrderBook}
    (h : e.books.lookup sid = some b) (k : UInt32) (image : List OrderSnapshot) :
    (sid, if sid = k then image else b.takeSnapshot) ∈ e.images k image :=
  List.mem_map.mpr ⟨⟨sid, b⟩, AList.mem_lookup_iff.mp h, rfl⟩

theorem MatchingEngine.images_nodup (e : MatchingEngine) (k : UInt32) (image : List OrderSnapshot) :
    ((e.images k image).map Prod.fst).Nodup := by
  unfold MatchingEngine.images
  rw [List.map_map]
  exact e.books.keys_nodup

/-- One book takes a request, and the others stay as they are. -/
theorem MatchingEngine.pollServer_books {e e' : MatchingEngine} {req : OrderRequest}
    {new : List Emission} {b : OrderBook} (hsym : e.books.lookup req.symbolId = some b)
    (hrun : e.pollServer req = some (e', new)) : ∃ st,
      State.processRequest ⟨b, e.gen, []⟩ req = some st ∧ new = st.out ∧
      e'.books.lookup req.symbolId = some st.book ∧
      ∀ k, k ≠ req.symbolId → e'.books.lookup k = e.books.lookup k := by
  unfold MatchingEngine.pollServer at hrun
  rw [hsym] at hrun
  obtain ⟨st, hst, hrun⟩ := Option.bind_eq_some_iff.mp hrun
  obtain ⟨rfl, rfl⟩ := Prod.mk.inj (Option.some.inj hrun)
  exact ⟨st, hst, rfl, AList.lookup_insert _, fun k hk => AList.lookup_insert_ne hk⟩

/-- The records of a request are about its symbol. -/
theorem MatchingEngine.Sound.symbols {cfgs : List Config} {e e' : MatchingEngine} {req : OrderRequest}
    {new : List Emission} (h : e.Sound cfgs) (hreq : e.Accepts req)
    (hrun : e.pollServer req = some (e', new)) :
    ∀ r ∈ new.map (·.resp), r.symbolId = req.symbolId := by
  cases h.stepped hreq hrun with
  | unserved _ => exact fun r hr => absurd hr List.not_mem_nil
  | served hsym _ _ hnew =>
    intro r hr
    rw [hnew] at hr
    exact ((Lob.step_outcome ..).symbol r hr).trans (h.cfg hsym).2

namespace EngineProcess

variable {l : ResponseCodec} {maxFileSize : Nat} {cfgs : List Config} {c : UInt32 → Config}
  {P P' : EngineProcess} {sys : Sys} {full : List (List Payload)} {tail : List OrderResponse}
  {req : OrderRequest}

/-- Every book keeps its anchor, or gets a new one, with each request. -/
theorem Restorable.step (h : Restorable l maxFileSize cfgs c P sys full tail) (hfit : l.FitsIn maxFileSize)
    (hK : LimitOnly req) (hreq : P.engine.Accepts req) (hstores : P.Storable l req)
    (hrun : P.pollServer l req = some P') (hfew : P'.turns.length < 2 ^ 32) :
    ∃ sys' full' tail', Restorable l maxFileSize cfgs c P' sys' full' tail' := by
  unfold EngineProcess.pollServer at hrun
  obtain ⟨⟨e', new⟩, hpoll, hrun⟩ := Option.bind_eq_some_iff.mp hrun
  obtain ⟨P₁, hsends, hrun⟩ := Option.bind_eq_some_iff.mp hrun
  obtain rfl := Option.some.inj hrun
  obtain ⟨_, _, hpoll', -, hsound⟩ := h.sound.serves hreq
  obtain ⟨rfl, -⟩ := Prod.mk.inj (Option.some.inj (hpoll.symm.trans hpoll'))
  cases hsym : P.engine.books.lookup req.symbolId with
  | none =>
    unfold MatchingEngine.pollServer at hpoll
    rw [hsym] at hpoll
    obtain ⟨rfl, rfl⟩ := Prod.mk.inj (Option.some.inj hpoll)
    obtain rfl := Option.some.inj hsends
    exact ⟨sys, full, tail, h⟩
  | some b =>
    obtain ⟨st, hst, rfl, hself, hothers⟩ := MatchingEngine.pollServer_books hsym hpoll
    obtain ⟨q, hq⟩ := h.sound.inv hsym
    have hwf : WellFormed (c req.symbolId) b.lob req := h.cfg hsym ▸ hreq b hsym
    have hjournals : Journals (c req.symbolId) ⟨b, P.engine.gen, []⟩ st :=
      processRequest_journals hq (h.cfg hsym) (h.sound.mode hsym) (h.limits hsym) hK hwf rfl hst
    have hsymbols := h.sound.symbols hreq hpoll
    have hbooks : ∀ {k b'}, e'.books.lookup k = some b' →
        (k = req.symbolId ∧ b' = st.book) ∨ (k ≠ req.symbolId ∧ P.engine.books.lookup k = some b') := by
      intro k b' hb
      by_cases hk : k = req.symbolId
      · rw [hk, hself] at hb
        exact Or.inl ⟨hk, (Option.some.inj hb).symm⟩
      · exact Or.inr ⟨hk, hothers k hk ▸ hb⟩
    have hcfg : ∀ {k b'}, e'.books.lookup k = some b' → b'.cfg = c k := by
      intro k b' hb
      rcases hbooks hb with ⟨rfl, rfl⟩ | ⟨-, hb⟩
      · exact hjournals.cfg
      · exact h.cfg hb
    have hlimits : ∀ {k b'}, e'.books.lookup k = some b' → b'.lob.Limits := by
      intro k b' hb
      rcases hbooks hb with ⟨rfl, rfl⟩ | ⟨-, hb⟩
      · exact hjournals.limits
      · exact h.limits hb
    have hstill : ∀ {k b'}, e'.books.lookup k = some b' → ∃ b₁, P.engine.books.lookup k = some b₁ := by
      intro k b' hb
      rcases hbooks hb with ⟨rfl, -⟩ | ⟨-, hb⟩
      · exact ⟨b, hsym⟩
      · exact ⟨b', hb⟩
    have hkeys : ∀ k, (e'.books.lookup k).isSome = (P.engine.books.lookup k).isSome := by
      intro k
      by_cases hk : k = req.symbolId
      · rw [hk, hself, hsym]
        rfl
      · rw [hothers k hk]
    have hserved : ∀ r ∈ st.out.map (·.resp), (e'.books.lookup r.symbolId).isSome := by
      intro r hr
      rw [hsymbols r hr, hself]
      rfl
    rcases h.toJournaled.sends hfit (hstores e' st.out hpoll) hsends hfew with
      ⟨⟨heng, hturns, hsnaps⟩, sys', h'⟩ |
      ⟨pre, x, post, sys', full', turns, snapshots, hsplit, heng, hturns, hsnaps, hpos, h'⟩
    · -- the last file goes on
      refine ⟨sys', full, _, ⟨h'.written, h'.dir, h'.phase, h'.stored, h'.turns, h'.files⟩, hsound, hcfg,
        hlimits, fun r hr => ?_, fun k => (hkeys k).trans (h.keys k),
        fun _ => ⟨req.symbolId, by rw [hself]; rfl⟩, fun hlen k b' hb => ?_, fun hsettled k b' hb => ?_⟩
      · rcases List.mem_append.mp hr with hr | hr
        · rw [hkeys]
          exact h.served r hr
        · exact hserved r hr
      · obtain ⟨b₁, hb₁⟩ := hstill hb
        rw [hsnaps]
        exact h.kept hlen hb₁
      · have hsettled' : P.Settled := fun x hx => hsettled x (hturns ▸ hx)
        have hsaved : ∀ k, saved { P₁ with engine := e' } full.length k = P.saved full.length k := by
          intro k
          unfold saved
          dsimp only
          rw [hsnaps]
        rw [hsaved, MatchingEngine.recordsOf_append]
        rcases hbooks hb with ⟨rfl, rfl⟩ | ⟨hk, hb⟩
        · rw [MatchingEngine.recordsOf_self hsymbols]
          exact (h.anchored hsettled' hsym).append hjournals.follows
        · rw [MatchingEngine.recordsOf_other hk hsymbols, List.append_nil]
          exact h.anchored hsettled' hb
    · -- the books were saved at `x`
      have hpost : ∀ r ∈ (x :: post).map (·.resp), r ∈ st.out.map (·.resp) := by
        intro r hr
        rw [hsplit, List.map_append]
        exact List.mem_append_right _ hr
      have hfile : ∀ {k b'}, P.engine.books.lookup k = some b' →
          P₁.snapshots.lookup (k, full'.length - 1) =
            some (if k = req.symbolId then x.image else b'.takeSnapshot) := by
        intro k b' hb
        rw [hsnaps]
        exact lookup_snapshotOps snapshots (P.engine.images_nodup ..) (MatchingEngine.mem_images hb ..)
      refine ⟨sys', full', _, ⟨h'.written, h'.dir, h'.phase, h'.stored, h'.turns, h'.files⟩, hsound, hcfg,
        hlimits, fun r hr => hserved r (hpost r hr), fun k => (hkeys k).trans (h.keys k),
        fun _ => ⟨req.symbolId, by rw [hself]; rfl⟩, fun _ k b' hb => ?_, fun hsettled k b' hb => ?_⟩
      · obtain ⟨b₁, hb₁⟩ := hstill hb
        rw [← AList.lookup_isSome, hfile hb₁]
        rfl
      · have hx : x.Settled := hsettled x (by rw [hturns, List.getLast?_concat])
        have hsaved : ∀ {k b'}, P.engine.books.lookup k = some b' →
            saved { P₁ with engine := e' } full'.length k =
              if k = req.symbolId then x.image else b'.takeSnapshot := by
          intro k b' hb
          unfold saved
          dsimp only
          rw [hfile hb]
          rfl
        rcases hbooks hb with ⟨rfl, rfl⟩ | ⟨hk, hb⟩
        · rw [hsaved hsym, if_pos rfl, MatchingEngine.recordsOf_self fun r hr => hsymbols r (hpost r hr)]
          exact hjournals.anchored hsplit hx
        · obtain ⟨q', hq'⟩ := h.sound.inv hb
          rw [hsaved hb, if_neg hk, MatchingEngine.recordsOf_other hk fun r hr => hsymbols r (hpost r hr)]
          exact ⟨b', q', hq', h.cfg hb, h.limits hb, rfl, .nil _⟩

theorem restorable_start {w : MmapWriter} {d : Dir} (l : ResponseCodec) (gen : Nat → Nat)
    (hw : MmapWriter.create maxFileSize ∅ = some (w, d)) :
    ∃ sys, Restorable l maxFileSize cfgs (MatchingEngine.configOf cfgs) ⟨.create cfgs gen, w, d, ∅, []⟩ sys [] [] := by
  obtain ⟨full, cur, hinv⟩ := (Sys.Run.init.create rfl hw).inv (show 0 < 2 ^ 32 by decide)
  have hfull : full = [] := List.length_eq_zero_iff.mp hinv.written.rolled.symm
  subst hfull
  obtain rfl : [] = cur := hinv.written.appended
  have hfresh : ∀ {sid b}, (MatchingEngine.create cfgs gen).books.lookup sid = some b →
      b = .fresh (MatchingEngine.configOf cfgs sid) := fun hb => MatchingEngine.configOf_eq hb
  refine ⟨_, ⟨hinv.written, rfl, rfl, fun r hr => absurd hr List.not_mem_nil, rfl,
    fun file hfile => absurd hfile (AList.notMem_empty file)⟩, MatchingEngine.create_sound cfgs gen,
    fun hb => ?_, fun hb => ?_, fun r hr => absurd hr List.not_mem_nil, fun _ => rfl,
    fun hlen => absurd hlen (Nat.lt_irrefl 0), fun hlen => absurd hlen (Nat.lt_irrefl 0),
    fun _ {sid b} hb => ?_⟩
  · rw [hfresh hb]
    rfl
  · intro s o ho
    rw [hfresh hb, fresh_lob] at ho
    exact absurd ho List.not_mem_nil
  · rw [hfresh hb]
    refine ⟨.fresh (MatchingEngine.configOf cfgs sid), _, fresh_inv _, rfl, fun s o ho => ?_, rfl, .nil _⟩
    rw [fresh_lob] at ho
    exact absurd ho List.not_mem_nil

/-- Rollovers are not undone. -/
theorem pollServer_turns (hrun : P.pollServer l req = some P') : P.turns <+: P'.turns := by
  unfold EngineProcess.pollServer at hrun
  obtain ⟨⟨e', new⟩, -, hrun⟩ := Option.bind_eq_some_iff.mp hrun
  obtain ⟨P₁, hsends, hrun⟩ := Option.bind_eq_some_iff.mp hrun
  obtain rfl := Option.some.inj hrun
  show P.turns <+: P₁.turns
  exact sends_turns hsends

theorem Run.restorable (h : Run LimitOnly l maxFileSize cfgs P) (hfit : l.FitsIn maxFileSize)
    (hfew : P.turns.length < 2 ^ 32) :
    ∃ sys full tail, Restorable l maxFileSize cfgs (MatchingEngine.configOf cfgs) P sys full tail := by
  induction h with
  | start gen hw =>
    obtain ⟨sys, hstart⟩ := restorable_start l gen hw
    exact ⟨sys, [], [], hstart⟩
  | step _ hK hreq hstores hrun ih =>
    obtain ⟨sys, full, tail, hP⟩ := ih (Nat.lt_of_le_of_lt (pollServer_turns hrun).length_le hfew)
    exact hP.step hfit hK hreq hstores hrun hfew

/-- The snapshots that `restore` finds are those taken at the last rollover. -/
theorem Restorable.latest (h : Restorable l maxFileSize cfgs c P sys full tail)
    (hsmall : full.length < 2 ^ 32) : MatchingEngine.resumeAt P.snapshots = full.length ∧
      ∀ sid, MatchingEngine.saved P.snapshots sid = P.saved full.length sid := by
  unfold MatchingEngine.resumeAt MatchingEngine.saved EngineProcess.saved
  rcases Nat.eq_zero_or_pos full.length with hzero | hpos
  · have hnone : ∀ file, file ∉ P.snapshots := fun file hfile => by
      have hlt := h.files file hfile
      omega
    have hlatest : MatchingEngine.latestSnapshot P.snapshots = none := by
      unfold MatchingEngine.latestSnapshot
      rw [List.max?_eq_none_iff, List.map_eq_nil_iff]
      exact List.eq_nil_iff_forall_not_mem.mpr fun file hfile => hnone file (AList.mem_keys.mpr hfile)
    rw [hlatest]
    exact ⟨hzero.symm, fun sid => by rw [AList.lookup_eq_none.mpr (hnone _)]; rfl⟩
  · have habove : NoneAbove (full.length - 1) P.snapshots := fun file hfile => by
      have hlt := h.files file hfile
      omega
    obtain ⟨sid, hsid⟩ := h.serves hpos
    obtain ⟨b, hb⟩ := Option.isSome_iff_exists.mp hsid
    rw [habove.latest (h.kept hpos hb)]
    refine ⟨?_, fun _ => rfl⟩
    dsimp only
    unfold nextIndex
    omega

end EngineProcess

/-- A restart from the last snapshots, with the records since then in the journal. -/
theorem EngineProcess.Restorable.restores {l : ResponseCodec} {maxFileSize : Nat} {cfgs : List Config}
    {P : EngineProcess} {sys : Sys} {full : List (List Payload)} {tail : List OrderResponse}
    (h : Restorable l maxFileSize cfgs (MatchingEngine.configOf cfgs) P sys full tail)
    (hsmall : full.length < 2 ^ 32) (hlast : P.Settled) {d : Dir} {n : Nat}
    (hdrains : ∀ fuel, n < fuel → Drains d fuel
      ((MmapReader.create d).seek d (full.length <<< 32)).2 (tail.map l.encode)) (gen : Nat → Nat) :
    ∃ e, (MatchingEngine.create cfgs gen).RestoresTo l.toResponseLayout d P.snapshots e ∧
      ∀ sid b, P.engine.books.lookup sid = some b → ∃ b' q', e.books.lookup sid = some b' ∧ Inv b' q' ∧
        b'.cfg = b.cfg ∧ b'.lob.strip = b.lob.strip := by
  obtain ⟨hresume, hsaved⟩ := h.latest hsmall
  let a : UInt32 → Lob := fun sid => ((P.engine.books.lookup sid).map (·.lob)).getD fun _ => []
  have ha : ∀ {sid b}, P.engine.books.lookup sid = some b → a sid = b.lob := by
    intro sid b hb
    show ((P.engine.books.lookup sid).map (·.lob)).getD _ = _
    rw [hb]
    rfl
  rw [← hresume] at hdrains
  obtain ⟨e, hrestore, hreads, hkeys⟩ := MatchingEngine.restores (a := a)
    (fun {sid b} hb => by
      have hsome := h.keys sid
      rw [hb] at hsome
      obtain ⟨b₁, hb₁⟩ := Option.isSome_iff_exists.mp hsome
      rw [hsaved, ha hb₁]
      exact h.anchored hlast hb₁)
    (fun r hr => by
      rw [← h.keys]
      exact h.served r hr)
    h.stored hdrains gen
  refine ⟨e, ⟨n + 1 + tail.length, fun fuel rounds hfuel hrounds => ?_⟩, fun sid b hb => ?_⟩
  · exact hrestore fuel rounds (by omega) (by omega)
  · have hsome := hkeys sid
    rw [← h.keys, hb] at hsome
    obtain ⟨b', hb'⟩ := Option.isSome_iff_exists.mp hsome
    have hread := hreads hb'
    rw [ha hb] at hread
    obtain ⟨q', hq'⟩ := hread.inv
    exact ⟨b', q', hb', hq', hread.cfg.trans (h.cfg hb).symm, hread.lob⟩

/-- A process that stops between two requests is restarted with the books it had, if no book held
a filled order when the last snapshots were taken. -/
theorem restore_rebuilds_books {l : ResponseCodec} {maxFileSize : Nat} {cfgs : List Config}
    {P : EngineProcess} (h : EngineProcess.Run LimitOnly l maxFileSize cfgs P)
    (hfit : l.FitsIn maxFileSize) (hfew : P.turns.length < 2 ^ 32) (hlast : P.Settled) (gen : Nat → Nat) :
    ∃ e, (MatchingEngine.create cfgs gen).RestoresTo l.toResponseLayout P.dir P.snapshots e ∧
      ∀ sid b, P.engine.books.lookup sid = some b → ∃ b', e.books.lookup sid = some b' ∧ SameBook b b' := by
  obtain ⟨sys, full, tail, hP⟩ := h.restorable hfit hfew
  have hsmall : full.length < 2 ^ 32 := hP.turns ▸ hfew
  have hdrains : ∀ fuel, sys.rolled + 1 < fuel → Drains P.dir fuel
      ((MmapReader.create P.dir).seek P.dir (full.length <<< 32)).2 (tail.map l.encode) := by
    intro fuel hfuel
    have hlast := hP.written.drains_last hP.phase (hP.written.rolled ▸ hsmall) hfuel
    rw [hP.dir] at hlast
    exact hlast
  obtain ⟨e, hrestore, hbooks⟩ := hP.restores hsmall hlast hdrains gen
  refine ⟨e, hrestore, fun sid b hb => ?_⟩
  obtain ⟨b', q', hb', hq', hcfg, hlob⟩ := hbooks sid b hb
  obtain ⟨q, hq⟩ := hP.sound.inv hb
  exact ⟨b', hb', hq.sameBook hq' hcfg hlob⟩

/-! ## Two sample runs -/

/-- What is left of the orders of a book. -/
def OrderBook.left (b : OrderBook) : List (Nat × Nat) :=
  (b.lob .bid ++ b.lob .ask).map fun o => (o.orderId, o.qtyRemaining)

/-- Files of three records: the last one begins with the second trade of a match, which leaves
something of its maker. -/
theorem sample_restart : ∃ P, EngineProcess.Run LimitOnly OrderResponse.codec 224 [sampleConfig] P ∧
    P.turns.map (·.resp.execType) = [.new, .fill] ∧
    ∃ e, (MatchingEngine.create [sampleConfig] id).RestoresTo OrderResponse.codec.toResponseLayout P.dir
        P.snapshots e ∧
      ∀ sid b, P.engine.books.lookup sid = some b → ∃ b', e.books.lookup sid = some b' ∧ SameBook b b' := by
  obtain ⟨P, hrun, hP⟩ := EngineProcess.Run.of_serve LimitOnly OrderResponse.codec 224 [sampleConfig]
    id sampleRequests (by unfold LimitOnly; decide)
    (fun P => P.turns.map (·.resp.execType) = [.new, .fill] ∧ P.turns.getLast?.all (·.Settled))
    (by decide +kernel)
  obtain ⟨hturns, hlast⟩ := of_decide_eq_true hP
  refine ⟨P, hrun, hturns, restore_rebuilds_books hrun ⟨by decide, by decide, by decide⟩ ?_ ?_ id⟩
  · rw [← List.length_map, hturns]
    decide
  · intro x hx
    rw [hx] at hlast
    exact of_decide_eq_true hlast

/-- Files of four records: the last one begins with the first trade of that match, which leaves
nothing of its maker. The maker comes back with nothing left, and the next one with all it had. -/
theorem restart_inside_match : ∃ P,
    EngineProcess.Run LimitOnly OrderResponse.codec 296 [sampleConfig] P ∧
    P.turns.map (·.resp.execType) = [.partialFill] ∧
    (P.engine.books.lookup 1).map (·.left) = some [(4294967299, 4), (4294967298, 3)] ∧
    (∃ e, (MatchingEngine.create [sampleConfig] id).RestoresTo OrderResponse.codec.toResponseLayout P.dir
        P.snapshots e ∧
      (e.books.lookup 1).map (·.left) = some [(4294967299, 4), (4294967297, 0), (4294967298, 5)]) ∧
    ¬ ∃ e, (MatchingEngine.create [sampleConfig] id).RestoresTo OrderResponse.codec.toResponseLayout P.dir
        P.snapshots e ∧
      ∀ sid b, P.engine.books.lookup sid = some b → ∃ b', e.books.lookup sid = some b' ∧ SameBook b b' := by
  obtain ⟨P, hrun, hP⟩ := EngineProcess.Run.of_serve LimitOnly OrderResponse.codec 296 [sampleConfig]
    id (sampleRequests.take 4) (by unfold LimitOnly; decide)
    (fun P => P.turns.map (·.resp.execType) = [.partialFill] ∧
      (P.engine.books.lookup 1).map (fun b => (b.left, (b.activeOrders 4294967297).isSome)) =
        some ([(4294967299, 4), (4294967298, 3)], false) ∧
      (((MatchingEngine.create [sampleConfig] id).restore OrderResponse.codec.toResponseLayout P.dir
        P.snapshots 8 8).bind fun e => (e.books.lookup 1).map fun b =>
          (b.left, (b.activeOrders 4294967297).isSome)) =
        some ([(4294967299, 4), (4294967297, 0), (4294967298, 5)], true))
    (by decide +kernel)
  obtain ⟨hturns, hlive, hrestored⟩ := of_decide_eq_true hP
  obtain ⟨b, hb, hbook⟩ := Option.map_eq_some_iff.mp hlive
  obtain ⟨e, hrestore, hbook'⟩ := Option.bind_eq_some_iff.mp hrestored
  obtain ⟨b', hb', hbook'⟩ := Option.map_eq_some_iff.mp hbook'
  obtain ⟨hleft, hgone⟩ := Prod.mk.inj hbook
  obtain ⟨hleft', hback⟩ := Prod.mk.inj hbook'
  have hends := MatchingEngine.RestoresTo.of_restore hrestore
  refine ⟨P, hrun, hturns, ?_, ⟨e, hends, ?_⟩, fun ⟨e₁, hends₁, hsame⟩ => ?_⟩
  · rw [hb, Option.map_some, hleft]
  · rw [hb', Option.map_some, hleft']
  · obtain rfl := hends.unique hends₁
    obtain ⟨b₁, hb₁, hsame⟩ := hsame 1 b hb
    obtain rfl := Option.some.inj (hb'.symm.trans hb₁)
    have hids := hsame.ids 4294967297
    rw [hgone, hback] at hids
    cases hids

end Exchange
