import Exchange.Gateway.Filing

/-!
# Entries that are read again

A client that logs on gets what the database reads back: `getResponsesSince` goes through the
client's entries above the acknowledged number, and reads the record that begins at the offset
of each. An offset is the place behind the record that was filed, so what is read is the record
that follows it, of whatever client, or nothing, if there is none yet. What was read is then
numbered from the acknowledged number on, whatever the entries are numbered.

As long as a client's entries have the numbers from 1 on (`Stores.Gapless`), the number that a
record is sent under is that of the entry it was read at.
-/

namespace Exchange

open Lib

/-- Rows from the least number on. -/
def rowsFrom (seqs : List Nat) (offset : Nat → Option Nat) : List (Nat × Nat) :=
  (seqs.insertionSort (· ≤ ·)).filterMap fun seq => (offset seq).map (seq, ·)

/-- An entry is one of the store's. -/
theorem mem_rowsFrom {seqs : List Nat} {offset : Nat → Option Nat} {e : Nat × Nat}
    (he : e ∈ rowsFrom seqs offset) : offset e.1 = some e.2 := by
  obtain ⟨seq, -, heq⟩ := List.mem_filterMap.mp he
  obtain ⟨off, hoff, rfl⟩ := Option.map_eq_some_iff.mp heq
  exact hoff

/-- The entries the loop of `getResponsesSince` goes through. -/
def InMemoryClientDatabase.entriesSince (db : InMemoryClientDatabase) (clientId : UInt32)
    (ackSeqNum : Nat) : List (Nat × Nat) :=
  match db.logOffsets.lookup clientId with
  | none => []
  | some offsets => (ascending offsets).filter (ackSeqNum < ·.1)

/-- `SELECT o_seq_num, log_offset .. WHERE client_id = ? AND o_seq_num > ? ORDER BY o_seq_num`. -/
def SQLiteClientDatabase.entriesSince (db : SQLiteClientDatabase) (clientId : UInt32)
    (ackSeqNum : Nat) : List (Nat × Nat) :=
  (rowsFrom ((db.clientLogOffsets.keys.filter (·.1 = clientId)).map (·.2))
    fun seq => db.clientLogOffsets.lookup (clientId, seq)).filter (ackSeqNum < ·.1)

/-- Entries that are not asked for are passed over. -/
theorem InMemoryClientDatabase.getResponsesSince_entries (l : ResponseLayout) (d : MmapLog.Dir)
    (fuel : Nat) (db : InMemoryClientDatabase) (clientId : UInt32) (ackSeqNum : Nat) :
    db.getResponsesSince l d fuel clientId ackSeqNum =
      ((db.entriesSince clientId ackSeqNum).foldlM (fetch l d fuel ackSeqNum) (.create d, [])).map
        (·.2) := by
  have hskip : ∀ (entries : List (Nat × Nat)) (acc : MmapLog.MmapReader × List OrderResponse),
      entries.foldlM (fetch l d fuel ackSeqNum) acc =
        (entries.filter (ackSeqNum < ·.1)).foldlM (fetch l d fuel ackSeqNum) acc := by
    intro entries
    induction entries with
    | nil => exact fun _ => rfl
    | cons entry entries ih =>
      intro acc
      by_cases hack : ackSeqNum < entry.1
      · rw [List.filter_cons_of_pos (by simpa using hack), List.foldlM_cons, List.foldlM_cons]
        exact congrArg _ (funext ih)
      · rw [List.filter_cons_of_neg (by simpa using hack), List.foldlM_cons, ← ih]
        unfold fetch
        rw [if_neg hack]
        rfl
  unfold getResponsesSince entriesSince
  cases db.logOffsets.lookup clientId with
  | none => rfl
  | some offsets => exact congrArg (Option.map _) (hskip _ _)

/-- Each entry the memory returns is one of the store's, above the number asked for, -/
theorem InMemoryClientDatabase.mem_entriesSince {db : InMemoryClientDatabase} {clientId : UInt32}
    {ackSeqNum : Nat} {e : Nat × Nat} (he : e ∈ db.entriesSince clientId ackSeqNum) :
    db.logOffset clientId e.1 = some e.2 ∧ ackSeqNum < e.1 := by
  unfold entriesSince at he
  unfold logOffset
  split at he
  · cases he
  · rename_i offsets hlook
    obtain ⟨hmem, hack⟩ := List.mem_filter.mp he
    rw [hlook]
    exact ⟨mem_rowsFrom hmem, of_decide_eq_true hack⟩

/-- and each one that SQLite returns. -/
theorem SQLiteClientDatabase.mem_entriesSince {db : SQLiteClientDatabase} {clientId : UInt32}
    {ackSeqNum : Nat} {e : Nat × Nat} (he : e ∈ db.entriesSince clientId ackSeqNum) :
    db.clientLogOffsets.lookup (clientId, e.1) = some e.2 ∧ ackSeqNum < e.1 := by
  obtain ⟨hmem, hack⟩ := List.mem_filter.mp he
  exact ⟨mem_rowsFrom hmem, of_decide_eq_true hack⟩

/-- What is read at the entries, with its slot. All records of the journal are of one size, so an
offset stands for a slot; at a slot that has no record yet nothing is read. -/
def readAt (journal : List OrderResponse) (entries : List (Nat × Nat)) : List (Nat × OrderResponse) :=
  entries.filterMap fun e => (journal[e.2]?).map (e.2, ·)

/-- A record read at an entry is the one at its address. -/
theorem mem_readAt {journal : List OrderResponse} {entries : List (Nat × Nat)} {x : Nat × OrderResponse}
    (hx : x ∈ readAt journal entries) : (∃ seq, (seq, x.1) ∈ entries) ∧ journal[x.1]? = some x.2 := by
  obtain ⟨e, he, heq⟩ := List.mem_filterMap.mp hx
  obtain ⟨resp, hresp, rfl⟩ := Option.map_eq_some_iff.mp heq
  exact ⟨⟨e.1, he⟩, hresp⟩

/-! ## Entries without a gap -/

section Rows

variable {seqs : List Nat} {offset : Nat → Option Nat} {last ack off : Nat} {journal : List OrderResponse}

/-- The numbers of a client's rows, if they are the first ones. -/
theorem insertionSort_eq_range (hnodup : seqs.Nodup) (hseqs : ∀ n, n ∈ seqs ↔ 1 ≤ n ∧ n ≤ last) :
    seqs.insertionSort (· ≤ ·) = List.range' 1 last := by
  have hperm : (seqs.insertionSort (· ≤ ·)).Perm (List.range' 1 last) := by
    refine (List.perm_insertionSort _ _).trans ?_
    rw [List.perm_ext_iff_of_nodup hnodup List.nodup_range']
    intro n
    rw [hseqs, List.mem_range'_1]
    omega
  exact hperm.eq_of_pairwise' (List.pairwise_insertionSort _ _) (List.pairwise_le_range' _)

/-- The rows above `ack` when there is one for each number. -/
def rowsAbove (offset : Nat → Option Nat) (ack last : Nat) : List (Nat × Nat) :=
  ((List.range' 1 last).filterMap fun seq => (offset seq).map (seq, ·)).filter (ack < ·.1)

/-- A database with one row for each of the first numbers. -/
theorem filter_rowsFrom (hnodup : seqs.Nodup) (hseqs : ∀ n, n ∈ seqs ↔ 1 ≤ n ∧ n ≤ last) :
    (rowsFrom seqs offset).filter (ack < ·.1) = rowsAbove offset ack last := by
  unfold rowsFrom rowsAbove
  rw [insertionSort_eq_range hnodup hseqs]

/-- The entries above a number, with one more. -/
theorem rowsAbove_succ (hoff : offset (last + 1) = some off) :
    rowsAbove offset ack (last + 1) =
      rowsAbove offset ack last ++ if ack < last + 1 then [(last + 1, off)] else [] := by
  unfold rowsAbove
  rw [List.range'_1_concat, List.filterMap_append, List.filter_append, Nat.add_comm 1 last]
  congr 1
  rw [List.filterMap_cons, hoff]
  dsimp only [Option.map_some, List.filterMap_nil]
  by_cases hack : ack < last + 1
  · rw [if_pos hack, List.filter_cons_of_pos (by simpa using hack)]
    rfl
  · rw [if_neg hack, List.filter_cons_of_neg (by simpa using hack)]
    rfl

/-- The last row is read, or is passed over because nothing follows its record yet. -/
theorem readAt_rowsAbove_succ (hoff : offset (last + 1) = some off) :
    readAt journal (rowsAbove offset ack (last + 1)) =
      readAt journal (rowsAbove offset ack last) ++
        if ack < last + 1 then ((journal[off]?).map (off, ·)).toList else [] := by
  rw [rowsAbove_succ hoff]
  unfold readAt
  rw [List.filterMap_append]
  congr 1
  by_cases hack : ack < last + 1
  · rw [if_pos hack, if_pos hack, List.filterMap_cons]
    cases journal[off]? <;> rfl
  · rw [if_neg hack, if_neg hack, List.filterMap_nil]

/-- Where every row leads to a record, as many are read as are asked for. -/
theorem length_readAt (hrows : ∀ n, 1 ≤ n → n ≤ last → ∃ off, offset n = some off ∧ off < journal.length) :
    (readAt journal (rowsAbove offset ack last)).length = last - ack := by
  induction last with
  | zero => simp [rowsAbove, readAt]
  | succ last ih =>
    obtain ⟨off, hoff, hlt⟩ := hrows (last + 1) (by omega) (by omega)
    have hlen := ih fun n h1 hn => hrows n h1 (by omega)
    rw [readAt_rowsAbove_succ hoff, List.length_append, hlen, List.getElem?_eq_getElem hlt]
    split
    · rw [Option.map_some, Option.toList_some, List.length_singleton]
      omega
    · rw [List.length_nil]
      omega

/-- With no number left out, and a record at every row but perhaps the last, the count from the
acknowledged number on gives each record that is read the number of its row. -/
theorem mem_zipIdx_readAt (hrows : ∀ n, 1 ≤ n → n ≤ last →
      ∃ off, offset n = some off ∧ (n < last → off < journal.length)) {x : (Nat × OrderResponse) × Nat}
    (hx : x ∈ (readAt journal (rowsAbove offset ack last)).zipIdx (ack + 1)) :
    offset x.2 = some x.1.1 := by
  induction last with
  | zero => simp [rowsAbove, readAt] at hx
  | succ last ih =>
    obtain ⟨off, hoff, -⟩ := hrows (last + 1) (by omega) (by omega)
    have hread : ∀ n, 1 ≤ n → n ≤ last → ∃ off, offset n = some off ∧ off < journal.length := by
      intro n h1 hn
      obtain ⟨off, hoff, hlt⟩ := hrows n h1 (by omega)
      exact ⟨off, hoff, hlt (by omega)⟩
    rw [readAt_rowsAbove_succ hoff, List.zipIdx_append, length_readAt hread, List.mem_append] at hx
    rcases hx with hx | hx
    · refine ih (fun n h1 hn => ?_) hx
      obtain ⟨off, hoff, hlt⟩ := hread n h1 hn
      exact ⟨off, hoff, fun _ => hlt⟩
    · -- the last row, behind `last - ack` records
      split at hx
      · rename_i hack
        cases hresp : journal[off]? with
        | none =>
          rw [hresp] at hx
          cases hx
        | some resp =>
          rw [hresp, Option.map_some, Option.toList_some, List.zipIdx_singleton, List.mem_singleton] at hx
          rw [hx]
          dsimp only
          rw [show ack + 1 + (last - ack) = last + 1 by omega]
          exact hoff
      · cases hx

end Rows

/-- There is an entry for each number up to `last`, and no other. -/
def UpTo (offset : Nat → Option Nat) (last : Nat) : Prop := ∀ n, offset n ≠ none ↔ 1 ≤ n ∧ n ≤ last

theorem UpTo.next {offset offset' : Nat → Option Nat} {last off : Nat} (h : UpTo offset last)
    (hnext : ∀ n, offset' n = if n = last + 1 then some off else offset n) : UpTo offset' (last + 1) := by
  intro n
  rw [hnext n]
  by_cases hn : n = last + 1
  · rw [if_pos hn]
    simp [hn]
  · rw [if_neg hn, h n]
    omega

namespace Stores

/-- The entries of a client are numbered from 1 to the number it has. -/
structure Gapless (st : Stores) (clientId : UInt32) : Prop where
  memory : UpTo (st.memory.logOffset clientId) (st.sqlite.oSeqNum clientId)
  sqlite : UpTo (fun n => st.sqlite.clientLogOffsets.lookup (clientId, n)) (st.sqlite.oSeqNum clientId)

/-- Every entry is that of a record that was processed. -/
structure Sourced (st : Stores) : Prop where
  memory : ∀ id n off, st.memory.logOffset id n = some off → ⟨id, n, off⟩ ∈ st.filed
  sqlite : ∀ id n off, st.sqlite.clientLogOffsets.lookup (id, n) = some off → ⟨id, n, off⟩ ∈ st.filed

variable {st : Stores} {c : UInt32} {n ack : Nat} {resp : OrderResponse} {logOffset : Nat}

theorem Gapless.entries_memory (h : st.Gapless c) : st.memory.entriesSince c ack =
    rowsAbove (st.memory.logOffset c) ack (st.sqlite.oSeqNum c) := by
  have hmemory : ∀ n, _ ↔ _ := h.memory
  unfold InMemoryClientDatabase.entriesSince
  unfold InMemoryClientDatabase.logOffset at hmemory ⊢
  cases hlook : st.memory.logOffsets.lookup c with
  | none =>
    unfold rowsAbove
    dsimp only [Option.bind_none, Option.map_none]
    rw [List.filterMap_eq_nil_iff.mpr fun _ _ => rfl]
    rfl
  | some offsets =>
    rw [hlook] at hmemory
    have hkeys : ∀ n, n ∈ offsets.keys ↔ 1 ≤ n ∧ n ≤ st.sqlite.oSeqNum c := by
      intro n
      rw [← hmemory n, ← AList.mem_keys, ← AList.lookup_isSome, Option.isSome_iff_ne_none]
      rfl
    exact filter_rowsFrom offsets.keys_nodup hkeys

theorem Gapless.entries_sqlite (h : st.Gapless c) : st.sqlite.entriesSince c ack =
    rowsAbove (fun n => st.sqlite.clientLogOffsets.lookup (c, n)) ack (st.sqlite.oSeqNum c) := by
  have hrow : ∀ n, st.sqlite.clientLogOffsets.lookup (c, n) ≠ none ↔ _ := h.sqlite
  have hnodup : ((st.sqlite.clientLogOffsets.keys.filter (·.1 = c)).map (·.2)).Nodup := by
    refine List.Nodup.map_on ?_ (st.sqlite.clientLogOffsets.keys_nodup.filter _)
    intro k hk k' hk' heq
    have hid := (List.mem_filter.mp hk).2
    have hid' := (List.mem_filter.mp hk').2
    exact Prod.ext ((of_decide_eq_true hid).trans (of_decide_eq_true hid').symm) heq
  have hseqs : ∀ n, n ∈ (st.sqlite.clientLogOffsets.keys.filter (·.1 = c)).map (·.2) ↔
      1 ≤ n ∧ n ≤ st.sqlite.oSeqNum c := by
    intro n
    rw [← hrow n, ← Option.isSome_iff_ne_none, AList.lookup_isSome, AList.mem_keys, List.mem_map]
    constructor
    · intro hmem
      obtain ⟨⟨id, k⟩, hmem, rfl⟩ := hmem
      obtain ⟨hk, hid⟩ := List.mem_filter.mp hmem
      rw [← of_decide_eq_true hid]
      exact hk
    · intro hk
      exact ⟨(c, n), List.mem_filter.mpr ⟨hk, decide_eq_true rfl⟩, rfl⟩
  unfold SQLiteClientDatabase.entriesSince
  exact filter_rowsFrom hnodup hseqs

/-- The next number of the client has no entry yet. -/
theorem Gapless.unused (h : st.Gapless c) :
    st.sqlite.clientLogOffsets.lookup (c, st.sqlite.oSeqNum c + 1) = none := by
  by_contra hne
  have hle := ((h.sqlite _).mp hne).2
  omega

/-! ## What the polling thread files -/

/-- The entry of a record that is filed, and no other, is new. -/
theorem memory_update (hcount : ∀ id, st.memory.getClientOSeqNum id = st.sqlite.oSeqNum id) :
    (st.call (.updateOnExecution resp logOffset)).memory.logOffset c n =
      if c = resp.clientId ∧ n = st.sqlite.oSeqNum resp.clientId + 1 then some logOffset
      else st.memory.logOffset c n := by
  show (st.memory.updateOnExecution resp logOffset).logOffset c n = _
  split
  · rename_i hnew
    rw [hnew.1, hnew.2, ← hcount]
    exact InMemoryClientDatabase.logOffset_updateOnExecution _ _ _
  · rename_i hold
    refine InMemoryClientDatabase.logOffset_updateOnExecution_ne _ _ _ fun hid hseq => ?_
    rw [hcount] at hseq
    exact hold ⟨hid, hseq⟩

theorem sqlite_update (hfresh : c = resp.clientId →
      st.sqlite.clientLogOffsets.lookup (c, st.sqlite.oSeqNum c + 1) = none) :
    (st.call (.updateOnExecution resp logOffset)).sqlite.clientLogOffsets.lookup (c, n) =
      if c = resp.clientId ∧ n = st.sqlite.oSeqNum resp.clientId + 1 then some logOffset
      else st.sqlite.clientLogOffsets.lookup (c, n) := by
  show (st.sqlite.updateOnExecution resp logOffset).clientLogOffsets.lookup (c, n) = _
  rw [SQLiteClientDatabase.clientLogOffsets_updateOnExecution, Table.lookup_insertNew]
  by_cases hnew : c = resp.clientId ∧ n = st.sqlite.oSeqNum resp.clientId + 1
  · obtain ⟨rfl, rfl⟩ := hnew
    rw [if_pos rfl, if_pos ⟨rfl, rfl⟩, hfresh rfl]
    rfl
  · rw [if_neg hnew, if_neg fun heq => hnew (Prod.mk.inj heq)]

theorem oSeqNum_update (c : UInt32) : (st.call (.updateOnExecution resp logOffset)).sqlite.oSeqNum c =
    if c = resp.clientId then st.sqlite.oSeqNum c + 1 else st.sqlite.oSeqNum c := by
  show (st.sqlite.updateOnExecution resp logOffset).oSeqNum c = _
  rw [SQLiteClientDatabase.oSeqNum_updateOnExecution]
  split
  · rename_i hid
    rw [hid]
  · rfl

/-- The next number is taken. -/
theorem Gapless.update (h : st.Gapless c)
    (hcount : ∀ id, st.memory.getClientOSeqNum id = st.sqlite.oSeqNum id) (resp : OrderResponse)
    (logOffset : Nat) : (st.call (.updateOnExecution resp logOffset)).Gapless c := by
  by_cases hid : c = resp.clientId
  · have hnumber : (st.call (.updateOnExecution resp logOffset)).sqlite.oSeqNum c =
        st.sqlite.oSeqNum c + 1 := (oSeqNum_update c).trans (if_pos hid)
    have hnew : ∀ n, (c = resp.clientId ∧ n = st.sqlite.oSeqNum resp.clientId + 1) ↔
        n = st.sqlite.oSeqNum c + 1 := fun n => by rw [← hid]; exact and_iff_right rfl
    constructor
    · rw [hnumber]
      exact h.memory.next fun n => (memory_update hcount).trans (if_congr (hnew n) rfl rfl)
    · rw [hnumber]
      exact h.sqlite.next fun n => (sqlite_update fun _ => h.unused).trans (if_congr (hnew n) rfl rfl)
  · have hnumber : (st.call (.updateOnExecution resp logOffset)).sqlite.oSeqNum c =
        st.sqlite.oSeqNum c := (oSeqNum_update c).trans (if_neg hid)
    have hold : ∀ n, ¬ (c = resp.clientId ∧ n = st.sqlite.oSeqNum resp.clientId + 1) :=
      fun _ hnew => hid hnew.1
    constructor
    · rw [hnumber, show (st.call (.updateOnExecution resp logOffset)).memory.logOffset c =
        st.memory.logOffset c from funext fun n => (memory_update hcount).trans (if_neg (hold n))]
      exact h.memory
    · rw [hnumber, show (fun n => (st.call (.updateOnExecution resp
        logOffset)).sqlite.clientLogOffsets.lookup (c, n)) = _ from
          funext fun n => (sqlite_update fun heq => absurd heq hid).trans (if_neg (hold n))]
      exact h.sqlite

/-- Calls that file nothing and leave the number alone. -/
theorem Gapless.of_entries {st' : Stores} (h : st.Gapless c)
    (hsqlite : st'.sqlite.clientLogOffsets = st.sqlite.clientLogOffsets)
    (hmemory : st'.memory.logOffsets = st.memory.logOffsets)
    (hnumber : st'.sqlite.oSeqNum c = st.sqlite.oSeqNum c) : st'.Gapless c := by
  constructor
  · unfold InMemoryClientDatabase.logOffset
    rw [hmemory, hnumber]
    exact h.memory
  · rw [hsqlite, hnumber]
    exact h.sqlite

theorem sourced_empty : Sourced .empty :=
  ⟨fun _ _ _ hoff => (by cases hoff), fun _ _ _ hoff => (by cases hoff)⟩

/-- A new entry is that of the record, and an old one stays if its number is taken. -/
theorem Sourced.update (h : st.Sourced)
    (hcount : ∀ id, st.memory.getClientOSeqNum id = st.sqlite.oSeqNum id) (resp : OrderResponse)
    (logOffset : Nat) : (st.call (.updateOnExecution resp logOffset)).Sourced := by
  have hfiled : (st.call (.updateOnExecution resp logOffset)).filed =
      st.filed ++ [⟨resp.clientId, st.sqlite.oSeqNum resp.clientId + 1, logOffset⟩] := rfl
  refine ⟨fun id n off hoff => ?_, fun id n off hoff => ?_⟩
  · rw [memory_update hcount] at hoff
    rw [hfiled, List.mem_append]
    split at hoff
    · rename_i hnew
      obtain rfl := Option.some.inj hoff
      rw [hnew.1, hnew.2]
      exact Or.inr List.mem_cons_self
    · exact Or.inl (h.memory id n off hoff)
  · change (st.sqlite.updateOnExecution resp logOffset).clientLogOffsets.lookup (id, n) = some off at hoff
    rw [SQLiteClientDatabase.clientLogOffsets_updateOnExecution, Table.lookup_insertNew] at hoff
    rw [hfiled, List.mem_append]
    split at hoff
    · rename_i hnew
      obtain ⟨rfl, rfl⟩ := Prod.mk.inj hnew
      cases hold : st.sqlite.clientLogOffsets.lookup (resp.clientId, st.sqlite.oSeqNum resp.clientId + 1) with
      | none =>
        rw [hold] at hoff
        obtain rfl := Option.some.inj hoff
        exact Or.inr List.mem_cons_self
      | some off' =>
        rw [hold] at hoff
        obtain rfl := Option.some.inj hoff
        exact Or.inl (h.sqlite _ _ _ hold)
    · exact Or.inl (h.sqlite id n off hoff)

/-- Only filing an address changes what the entries point to. -/
theorem Sourced.of_entries {st' : Stores} (h : st.Sourced)
    (hsqlite : st'.sqlite.clientLogOffsets = st.sqlite.clientLogOffsets)
    (hmemory : st'.memory.logOffsets = st.memory.logOffsets) (hfiled : st'.filed = st.filed) :
    st'.Sourced := by
  constructor
  · unfold InMemoryClientDatabase.logOffset
    rw [hmemory, hfiled]
    exact h.memory
  · rw [hsqlite, hfiled]
    exact h.sqlite

end Stores

end Exchange
